/-
  FreePacket.Generator.EndToEnd
  ─────────────────────────────
  **FROM THE CURSORS TO THE SESSIONS: what the tables hold is what was
  simulated.**

  In generator mode over TCP every packet of the pipeline, wherever it is,
  carries a connection that some cursor has drawn, and the payload pattern.
  A session is made of such packets only, so its key is one of the simulated
  connections and its buffer is the payload, a number of times.

  Main results:
    * `emitted_step` — what the generators write is everywhere.
    * `generating_sessions` — keys, owners, bytes and the number of sessions.
-/
import FreePacket.Generator.Connections
import FreePacket.Pipeline.Drain
import FreePacket.Session.Store

namespace FreePacket.Generator

open FreePacket.Lib FreePacket.Packet FreePacket.ConfigFile FreePacket.Pipeline
open FreePacket.Session (Manager Config Entry Reachable Reachable.add Reachable.delete
  PayloadFitsBuffer payloadBytes queueCapacity addFlow addEntry keysOf eraseChain hashAddItem
  deleteSession addItem_map map_swept map_initSignleManager)

/-! ## §1. Emitted packets. -/

/-- The key of a TCP connection: its addresses and its ports, each in order. -/
def keyOf (e : Endpoints) : Key :=
  { protocol := ipprotoTcp
    upperIp := max e.saddr e.daddr
    lowerIp := min e.saddr e.daddr
    upperPort := (max e.source e.dest).toUInt32
    lowerPort := (min e.source e.dest).toUInt32 }

/-- The payload of every packet: the pattern, up to the packet's length. -/
def simulatedPayload (config : SimConfig) (data : PktData) : List UInt8 :=
  (List.range (config.pktlen - 54).toNat).map (fun k => data.chars (k % data.strlen))

/-- **A packet of the generators**: prepared, as long as configured, and with
    a connection of the sequence the cursors draw. -/
structure Emitted (config : SimConfig) (data : PktData) (packet : PacketT) : Prop where
  prepared : Prepared config data packet.data
  length_eq : packet.length = (config.int .pktlen).toUInt32
  drawn : ∃ t, connection packet = drawnAt config t

section Packets

variable {config : SimConfig} {data : PktData} {packet packet' : PacketT}

/-- It is what the TCP builder would have left with some state of the cursors. -/
theorem Emitted.built (h : Emitted config data packet) (htcp : config.protocol = 6) :
    ∃ t, connection packet = drawnAt config t
      ∧ Built (advance^[t] config) data ipprotoTcp 56 packet.data packet.data := by
  obtain ⟨t, ht⟩ := h.drawn
  have hp : Prepared (advance^[t] config) data packet.data := (prepared_iterate t).mpr h.prepared
  have htcp' : (advance^[t] config).protocol = 6 := by
    rw [advance_iterate]
    exact htcp
  have hproto := hp.protocol_eq
  rw [if_pos htcp'] at hproto
  have hpattern := hp.pattern
  unfold payloadIdx at hpattern
  rw [if_pos htcp'] at hpattern
  exact ⟨t, ht, hp.hDest, hp.hSource, hp.hProto,
    ⟨hp.ihl, hp.totLen, hproto, congrArg Endpoints.saddr ht, congrArg Endpoints.daddr ht,
      fun _ _ => rfl⟩,
    congrArg Endpoints.source ht, congrArg Endpoints.dest ht, hpattern, fun _ _ => rfl⟩

/-- **What the parser makes of it**: the key of a simulated connection, and
    the simulated payload. -/
theorem Emitted.parsed (h : Emitted config data packet) (htcp : config.protocol = 6)
    (hdata : data.bytes ≠ []) (hlen : 54 ≤ config.pktlen) (flow : FlowItem) :
    (∃ t, (makeFlowItemTcp flow packet).key = keyOf (drawnAt config t))
      ∧ ((makeFlowItemTcp flow packet).payloadLen.toNat : Int) = config.pktlen - 54
      ∧ payloadBytes (makeFlowItemTcp flow packet) = simulatedPayload config data := by
  obtain ⟨t, ht, hbuilt⟩ := h.built htcp
  have hdoff := (h.prepared.tcp htcp).2.2
  have hpktlen := pktlen_iterate config t
  have hlength : (packet.length.toNat : Int) = (advance^[t] config).pktlen := by
    unfold SimConfig.pktlen at hlen
    have hnat : (config.int .pktlen).toUInt32.toNat = (config.int .pktlen).toInt.toNat :=
      Int32.toNat_toUInt32_of_le (Int32.le_iff_toInt_le.mpr (show 0 ≤ _ by omega))
    rw [h.length_eq, hpktlen, hnat]
    exact Int.toNat_of_nonneg (by omega)
  have htrip := hbuilt.roundTrip packet hdoff hdata (hpktlen ▸ hlen) hlength flow
  have hlen' := htrip.payloadLen_eq
  rw [hpktlen] at hlen'
  refine ⟨⟨t, ?_⟩, hlen', ?_⟩
  · have hips := Prod.mk.inj htrip.ips
    have hports := Prod.mk.inj htrip.ports
    unfold FlowItem.key keyOf
    rw [htrip.protocol_eq, hips.1, hips.2, hports.1, hports.2]
    rfl
  · have hcount : (makeFlowItemTcp flow packet).payloadLen.toNat = (config.pktlen - 54).toNat := by
      omega
    unfold payloadBytes simulatedPayload slice
    rw [← hcount]
    apply List.map_congr_left
    intro k hk
    have hbyte := htrip.payload_eq k (List.mem_range.mp hk)
    rw [pattern_getElem? hdata] at hbyte
    rw [Nat.zero_add]
    exact (Option.some.inj hbyte).symm

/-- The four stores make a packet of the next connection of it. -/
theorem Emitted.rewriteHeaders (h : Emitted config data packet) (n : Nat) :
    Emitted config data (rewriteHeaders packet (advance^[n] config)).1 := by
  refine ⟨?_, ?_, n, connection_rewriteHeaders _ _⟩
  · exact prepared_fillPacket (fillPacket_drawnBytes 0 packet (advance^[n] config)) h.prepared
  · rw [rewriteHeaders_eq]
    exact h.length_eq

/-- So does the builder, when it writes the buffer for the first time. -/
theorem WrittenAt.emitted {fuel i n : Nat} (hset : config.pktData = some data)
    (hdata : data.bytes ≠ []) (hlen : 54 ≤ config.pktlen) (hfuel : config.pktlen ≤ fuel)
    (h : WrittenAt fuel generatorTcpPacket i config n packet packet')
    (hprep : Prepared config data packet'.data) :
    Emitted config data packet' ∧ packet'.pool = i ∧ packet'.addr = packet.addr := by
  have hpktlen := pktlen_iterate config n
  obtain ⟨mem', hrun, hbuilt, _⟩ := generatorTcpPacket_built
    ((pktData_iterate config n).trans hset) hdata (hpktlen ▸ hlen) (hpktlen ▸ hfuel)
    (enrol i config packet)
  rw [h.1] at hrun
  obtain ⟨rfl, _⟩ := Prod.mk.inj (Option.some.inj hrun)
  refine ⟨⟨hprep, rfl, n, ?_⟩, rfl, rfl⟩
  show Endpoints.mk _ _ _ _ = Endpoints.mk _ _ _ _
  rw [show load32 mem' 28 = _ from hbuilt.ip.saddr, show load32 mem' 32 = _ from hbuilt.ip.daddr,
    hbuilt.sport, hbuilt.dport]

end Packets

/-! ## §2. Everywhere. -/

section Everywhere

variable {cfg : Config} {gNums pNums : Nat} {numbers : UInt32} {config : SimConfig}
  {data : PktData}

/-- A generator that has a packet in its hands writes to none. -/
theorem everywhere_passed {mode : Mode} {P : PacketT → Prop} {s s' : Stages} {i : Nat}
    (hs : Everywhere P s) (hpc : s.generatorPc i ≠ .idle)
    (h : GeneratorStep mode gNums pNums s i s') : Everywhere P s' := by
  have hhand := hs.generatorPc i
  have hset : ∀ pc : GeneratorPc, Each P pc.packets →
      ∀ k, Each P (Function.update s.generatorPc i pc k).packets :=
    fun pc => all_update (Q := fun pc : GeneratorPc => Each P pc.packets) hs.generatorPc i
  cases h with
  | took hidle _ _ => exact absurd hidle hpc
  | chose hfilled =>
      rw [hfilled] at hhand
      exact { hs with generatorPc := hset _ hhand }
  | kept hfilled =>
      rw [hfilled] at hhand
      exact { hs with generatorPc := hset _ hhand }
  | @sent parser packet hsending =>
      rw [hsending] at hhand
      exact { hs with
        parserQueue := all_update hs.parserQueue parser ((hs.parserQueue parser).append hhand)
        generatorPc := hset _ each_nil }
  | @returned packet hreturning =>
      rw [hreturning] at hhand
      exact { hs with
        generatorPool := all_update hs.generatorPool packet.pool
          ((hs.generatorPool packet.pool).append hhand)
        generatorPc := hset _ each_nil }

/-- The other threads write to none at all. -/
theorem everywhere_handed {mode : Mode} {P : PacketT → Prop} {s s' : Stages} {r : Unit}
    (hs : Everywhere P s) {call : PipelineCall}
    (hcall : ∀ i pipeDepth input, call ≠ .generator i pipeDepth input)
    (h : (pipeline mode cfg gNums pNums numbers).step s call = some (s', r)) :
    Everywhere P s' := by
  cases call with
  | generator i pipeDepth input => exact absurd rfl (hcall i pipeDepth input)
  | parser q pipeDepth =>
      exact hs.parserStep (parserStep_cases (pipeline_parser_eq_some h).2)
  | manager m pipeDepth now =>
      exact hs.managerStep (managerStep_cases (pipeline_manager_eq_some h).2)
  | clean m b now destoryTime =>
      obtain ⟨_, table, _, rfl⟩ := pipeline_clean_eq_some h
      exact { hs with }

/-- A generator at `mwsr_pool_dequeue` takes the first buffer of its pool and
    makes the four stores. -/
theorem generatorStep_took {s s' : Stages} {i : Nat} {pipeDepth : Int32} {config : SimConfig}
    (hpc : s.generatorPc i = .idle)
    (h : generatorStep .generator gNums pNums s i pipeDepth (.counters (drawnBytes config))
      = some s') :
    ∃ packet pool, s.generatorPool i = packet :: pool
      ∧ s' = { s with
          generatorPool := Function.update s.generatorPool i pool
          generatorPc := Function.update s.generatorPc i
            (.filled (rewriteHeaders packet config).1) } := by
  simp only [generatorStep, hpc] at h
  cases hpool : s.generatorPool i with
  | nil =>
      rw [hpool] at h
      exact absurd h (by simp [Fifo.take])
  | cons packet pool =>
      rw [hpool] at h
      simp only [Fifo.take, fillPacket_drawnBytes, Option.map_some, Option.some.injEq] at h
      exact ⟨packet, pool, rfl, h.symm⟩

/-- The packets, and the cursors behind them. -/
structure Emitting (config : SimConfig) (data : PktData) (s : Generating) : Prop where
  packets : Everywhere (Emitted config data) s.stages
  cursors : ∀ i, ∃ n, s.config i = advance^[n] config

/-- The step of the stages behind a step of the generators. -/
theorem generating_stages {s s' : Generating} {call : PipelineCall} {r : Unit}
    (h : (generating cfg gNums pNums numbers).step s call = some (s', r)) :
    ∃ call', (pipeline .generator cfg gNums pNums numbers).step s.stages call'
        = some (s'.stages, r)
      ∧ ((∀ i pipeDepth input, call ≠ .generator i pipeDepth input) →
        call' = call ∧ s'.config = s.config) := by
  cases call with
  | generator i pipeDepth input =>
      obtain ⟨⟨stages, u⟩, hstep, heq⟩ := Option.map_eq_some_iff.mp h
      obtain ⟨rfl, rfl⟩ := Prod.mk.inj heq
      exact ⟨_, hstep, fun hno => absurd rfl (hno i pipeDepth input)⟩
  | parser q pipeDepth | manager m pipeDepth now | clean m b now destoryTime =>
      obtain ⟨⟨stages, u⟩, hstep, heq⟩ := Option.map_eq_some_iff.mp h
      obtain ⟨rfl, rfl⟩ := Prod.mk.inj heq
      exact ⟨_, hstep, fun _ => ⟨rfl, rfl⟩⟩

/-- **What the generators write is everywhere**, and nothing else. -/
theorem emitted_step {s s' : Generating} (hs : Emitting config data s) {call : PipelineCall}
    {r : Unit} (h : (generating cfg gNums pNums numbers).step s call = some (s', r)) :
    Emitting config data s' := by
  cases call with
  | generator i pipeDepth input =>
      obtain ⟨hgen, hconfig⟩ := generating_generator h
      obtain ⟨n, hn⟩ := hs.cursors i
      cases hpc : s.stages.generatorPc i with
      | idle =>
          obtain ⟨packet, pool, hpool, hstages⟩ := generatorStep_took hpc hgen
          have hin := hs.packets.generatorPool i
          rw [hpool] at hin
          have hrest : Each (Emitted config data) pool :=
            fun x hx => hin x (List.mem_cons_of_mem _ hx)
          -- the cursors have been drawn from `n` times
          have hnew : Emitted config data (rewriteHeaders packet (s.config i)).1 := by
            rw [hn]
            exact (hin packet List.mem_cons_self).rewriteHeaders n
          refine ⟨?_, ?_⟩
          · rw [hstages]
            exact { hs.packets with
              generatorPool := all_update hs.packets.generatorPool i hrest
              generatorPc := all_update (Q := fun pc : GeneratorPc =>
                Each (Emitted config data) pc.packets) hs.packets.generatorPc i
                (each_singleton hnew) }
          · rw [hconfig, hpc, hn]
            exact all_update (Q := fun c : SimConfig => ∃ n, c = advance^[n] config) hs.cursors i
              ⟨n + 1, (Function.iterate_succ_apply' advance n config).symm⟩
      | filled packet | sending parser packet | returning packet =>
          have hbusy : s.stages.generatorPc i ≠ .idle := by
            rw [hpc]
            exact nofun
          refine ⟨everywhere_passed hs.packets hbusy (generatorStep_cases hgen), ?_⟩
          rw [hconfig, drawn_of_ne hbusy, Function.update_eq_self]
          exact hs.cursors
  | parser q pipeDepth | manager m pipeDepth now | clean m b now destoryTime =>
      obtain ⟨call', hstep, hsame⟩ := generating_stages h
      obtain ⟨rfl, hconfig⟩ := hsame (by simp)
      have hcursors := hs.cursors
      rw [← hconfig] at hcursors
      exact ⟨everywhere_handed hs.packets (by simp) hstep, hcursors⟩

end Everywhere

/-! ## §3. Sessions. -/

/-- The keys of the simulated connections. -/
def simulatedKeys (config : SimConfig) : Set Key :=
  Set.range (fun t => keyOf (drawnAt config t))

/-- **The payload, again and again**: more than once only below the size of
    the buffer. -/
def Copies (size : Nat) (payload bytes : List UInt8) : Prop :=
  ∃ n, bytes = (List.replicate (n + 1) payload).flatten ∧ (n = 0 ∨ bytes.length < size)

/-- A payload more makes copies of copies. -/
theorem copies_addEntry {size : Nat} {payload : List UInt8} {now : UInt64} {old : Option Entry}
    {e : Entry} (hold : ∀ e₀, old = some e₀ → Copies size payload e₀.bytes)
    (h : addEntry size payload now old = some e) : Copies size payload e.bytes := by
  cases old with
  | none =>
      rw [← Option.some.inj h]
      exact ⟨0, (List.append_nil payload).symm, Or.inl rfl⟩
  | some e₀ =>
      obtain ⟨n, hn, _⟩ := hold e₀ rfl
      change (if e₀.bytes.length + payload.length < size then
        some (Entry.mk (e₀.bytes ++ payload) now) else none) = some e at h
      by_cases hroom : e₀.bytes.length + payload.length < size
      · rw [if_pos hroom] at h
        rw [← Option.some.inj h]
        refine ⟨n + 1, ?_, Or.inr ?_⟩
        · show e₀.bytes ++ payload = _
          rw [hn, List.replicate_succ' (n := n + 1), List.flatten_concat]
        · show (e₀.bytes ++ payload).length < size
          rw [List.length_append]
          exact hroom
      · rw [if_neg hroom] at h
        exact nomatch h

/-- **The table of manager `m`**: reached by operations of its own, with
    sessions of simulated connections that are hashed to it. -/
structure Simulated (cfg : Config) (config : SimConfig) (data : PktData) (numbers : UInt32)
    (m : Nat) (t : Manager) : Prop where
  reachable : Reachable cfg t
  entry : ∀ k e, t.map k = some e →
    k ∈ simulatedKeys config ∧ (hashIndex k numbers).toNat = m
      ∧ Copies cfg.managerBufferSize.toInt.toNat (simulatedPayload config data) e.bytes

section Tables

variable {cfg : Config} {config : SimConfig} {data : PktData} {numbers : UInt32} {m : Nat}
  {t t' : Manager}

/-- **A call of `hash_add_item`** with a flow of the simulation. -/
theorem Simulated.add (h : Simulated cfg config data numbers m t) {flow : FlowItem}
    {now : UInt64} {out : Session.Outcome} (hkey : flow.key ∈ simulatedKeys config)
    (hhome : (hashIndex flow.key numbers).toNat = m) (hlen : PayloadFitsBuffer cfg flow)
    (hbytes : payloadBytes flow = simulatedPayload config data)
    (hadd : hashAddItem cfg t (bucketIndex flow.key t.ht.size) flow now = some (t', out)) :
    Simulated cfg config data numbers m t' := by
  refine ⟨h.reachable.add hadd (h.reachable.inv.copyInside hlen hadd), ?_⟩
  intro k e hk
  rw [addItem_map h.reachable hlen hadd, hbytes] at hk
  unfold addFlow at hk
  by_cases hself : k = flow.key
  · rw [hself, Function.update_self] at hk
    rw [hself]
    exact ⟨hkey, hhome, copies_addEntry (fun e₀ hold => (h.entry _ e₀ hold).2.2) hk⟩
  · rw [Function.update_of_ne hself] at hk
    exact h.entry k e hk

/-- **An expiry** takes sessions away. -/
theorem Simulated.swept (h : Simulated cfg config data numbers m t) {b : Nat}
    (hb : b < t.ht.rounds) {now : UInt64} {destoryTime : Int32}
    (hdelete : deleteSession cfg t b now destoryTime = some t') :
    Simulated cfg config data numbers m t' := by
  refine ⟨h.reachable.delete hb hdelete, ?_⟩
  intro k e hk
  rw [h.reachable.inv.wellFormed.deleteSession_eq hb] at hdelete
  rw [← Option.some.inj hdelete, map_swept h.reachable.inv hb] at hk
  unfold eraseChain at hk
  split at hk
  · exact absurd hk (by simp)
  · exact h.entry k e hk

end Tables

/-! ## §4. Runs. -/

/-- **From end to end**: emitted packets, flows on their way, sessions. -/
structure EndToEnd (cfg : Config) (config : SimConfig) (data : PktData) (pNums : Nat)
    (numbers : UInt32) (s : Generating) : Prop where
  emitting : Emitting config data s
  routed : Routed pNums numbers s.stages
  tables : ∀ m < numbers.toNat, Simulated cfg config data numbers m (s.stages.table m)

/-- **The sessions of all managers.** -/
structure SessionsSimulated (cfg : Config) (config : SimConfig) (data : PktData)
    (numbers : UInt32) (s : Stages) : Prop where
  /-- A session is one of a simulated connection, at the manager its key is
      hashed to, and holds the payload again and again. -/
  session : ∀ m < numbers.toNat, ∀ b < (s.table m).ht.rounds,
    ∀ node ∈ ((s.table m).bucket b).list,
      node.key ∈ simulatedKeys config ∧ (hashIndex node.key numbers).toNat = m
        ∧ Copies cfg.managerBufferSize.toInt.toNat (simulatedPayload config data)
          (Session.sessionBytes node)
  /-- All managers together have no more sessions than there are connections. -/
  number : ∀ n₁ n₂ n₃ n₄, CursorIn config.sport n₁ → CursorIn config.dport n₂ →
    CursorIn config.saddr n₃ → CursorIn config.daddr n₄ → n₁ ≤ 65536 → n₂ ≤ 65536 →
    ∑ m ∈ Finset.range numbers.toNat, (s.table m).linked ≤ lcm4 n₁ n₂ n₃ n₄

section Runs

variable {cfg : Config} {gNums pNums : Nat} {numbers : UInt32} {config : SimConfig}
  {data : PktData} {fuel : Nat} {hashLength : Int32} {s s' start : Generating}

/-- A flow in front of `hash_add_item` is one of the simulation. -/
theorem EndToEnd.inserting (htcp : config.protocol = 6) (hdata : data.bytes ≠ [])
    (hlen : 54 ≤ config.pktlen) (hs : EndToEnd cfg config data pNums numbers s) {m : Nat}
    (hm : m < numbers.toNat) {flow : FlowItem} (hpc : s.stages.managerPc m = .inserting flow) :
    flow.key ∈ simulatedKeys config ∧ (hashIndex flow.key numbers).toNat = m
      ∧ (flow.payloadLen.toNat : Int) = config.pktlen - 54
      ∧ payloadBytes flow = simulatedPayload config data := by
  have hpacket := hs.emitting.packets.managerPc m
  have hroute := hs.routed.managerPc m hm
  rw [hpc] at hpacket hroute
  -- the parser made it of an emitted packet
  obtain ⟨⟨old, hflow⟩, hhome⟩ := hroute flow List.mem_cons_self
  obtain ⟨⟨k, hkey⟩, hpayload, hbytes⟩ := Emitted.parsed hpacket htcp hdata hlen old
  rw [← hflow] at hkey hpayload hbytes
  exact ⟨⟨k, hkey.symm⟩, hhome, hpayload, hbytes⟩

/-- **Every step keeps it.** -/
theorem EndToEnd.step (htcp : config.protocol = 6) (hdata : data.bytes ≠ [])
    (hlen : 54 ≤ config.pktlen) (hfit : config.pktlen - 54 ≤ cfg.managerBufferSize.toInt)
    (hs : EndToEnd cfg config data pNums numbers s) {call : PipelineCall} {r : Unit}
    (h : (generating cfg gNums pNums numbers).step s call = some (s', r)) :
    EndToEnd cfg config data pNums numbers s' := by
  obtain ⟨call', hstep, _⟩ := generating_stages h
  refine ⟨emitted_step hs.emitting h, hs.routed.step (observedStep_cases (observed_step hstep)), ?_⟩
  intro m hm
  have htable := hs.tables m hm
  rcases table_step hstep m with heq | ⟨flow, now, out, hpc, hadd⟩
    | ⟨b, hb, now, destoryTime, hdelete⟩
  · rw [heq]
    exact htable
  · obtain ⟨hkey, hhome, hpayload, hbytes⟩ := hs.inserting htcp hdata hlen hm hpc
    refine htable.add hkey hhome ?_ hbytes hadd
    show (flow.payloadLen.toNat : Int) ≤ _
    rw [hpayload]
    exact hfit
  · exact htable.swept hb hdelete

/-- **The system when all threads enter their loops**: the generators have
    prepared their pools, the parsers' and managers' are just initialised. -/
structure Entered (fuel : Nat) (config : SimConfig) (cfg : Config) (numbers : UInt32)
    (hashLength : Int32) (s : Generating) : Prop
    extends LoopEntered fuel generatorTcpPacket config s where
  nextThreadId : ∀ i, s.stages.nextThreadId i = i
  parserPool : ∀ q, ∃ garbage, s.stages.parserPool q = initSingleParser q garbage
  table : TablesInit cfg numbers hashLength s.stages.table

/-- `make_all_packet` leaves emitted packets in every pool, each in its place. -/
theorem LoopEntered.pool (h : LoopEntered fuel generatorTcpPacket config start)
    (htcp : config.protocol = 6) (hset : config.pktData = some data) (hdata : data.bytes ≠ [])
    (hlen : 54 ≤ config.pktlen) (hfuel : config.pktlen ≤ fuel) (i : Nat) :
    (start.stages.generatorPool i).length = queueCapacity
      ∧ ∀ j packet, (start.stages.generatorPool i)[j]? = some packet →
        Emitted config data packet ∧ packet.pool = i ∧ packet.addr = (i, j) := by
  have hmode : generatorMode config = some generatorTcpPacket := by
    unfold generatorMode
    rw [if_pos htcp]
  obtain ⟨buffers, hrun⟩ := h.prepared i
  obtain ⟨pool', hrun', hlen', hall⟩ := makeAllPacket_pool hmode hset hdata hlen hfuel i buffers
  rw [hrun'] at hrun
  obtain ⟨rfl, _⟩ := Prod.mk.inj (Option.some.inj hrun)
  refine ⟨hlen', ?_⟩
  intro j packet hj
  have hlt : j < queueCapacity := by
    rw [← hlen']
    exact (List.getElem?_eq_some_iff.mp hj).1
  have hold : (initSignleGenerator i buffers)[j]? = some { buffers j with addr := (i, j) } := by
    unfold initSignleGenerator
    rw [List.getElem?_map, List.getElem?_range hlt]
    rfl
  obtain ⟨hwritten, hprep⟩ := hall j _ packet hold hj
  exact hwritten.emitted hset hdata hlen hfuel hprep

/-- **It holds when the loops are entered.** -/
theorem Entered.endToEnd (h : Entered fuel config cfg numbers hashLength start)
    (htcp : config.protocol = 6) (hset : config.pktData = some data) (hdata : data.bytes ≠ [])
    (hlen : 54 ≤ config.pktlen) (hfuel : config.pktlen ≤ fuel) :
    EndToEnd cfg config data pNums numbers start := by
  have hmode : generatorMode config = some generatorTcpPacket := by
    unfold generatorMode
    rw [if_pos htcp]
  have hrecycling := h.recycling hmode hset hdata hlen hfuel
  refine ⟨⟨?_, hrecycling.cursors⟩, ⟨?_, ?_, ?_⟩, ?_⟩
  · refine everywhere_of_pools ?_ h.generatorPc h.parserQueue h.parserPc h.managerQueue h.managerPc
    intro i packet hpacket
    obtain ⟨j, hj⟩ := List.getElem?_of_mem hpacket
    exact ((h.pool htcp hset hdata hlen hfuel i).2 j packet hj).1
  · intro q _
    rw [h.parserPc]
    exact each_nil
  · intro m _
    rw [h.managerQueue]
    exact each_nil
  · intro m _
    rw [h.managerPc]
    exact each_nil
  · intro m hm
    obtain ⟨fuel, garbage, hinit⟩ := h.table m hm
    refine ⟨.init hinit, ?_⟩
    intro k e hk
    rw [map_initSignleManager hinit] at hk
    exact nomatch hk

/-- There are at most as many keys as connections. -/
theorem simulatedKeys_ncard {n₁ n₂ n₃ n₄ : Nat} (h₁ : CursorIn config.sport n₁)
    (h₂ : CursorIn config.dport n₂) (h₃ : CursorIn config.saddr n₃) (h₄ : CursorIn config.daddr n₄)
    (hp₁ : n₁ ≤ 65536) (hp₂ : n₂ ≤ 65536) :
    (simulatedKeys config).Finite ∧ (simulatedKeys config).ncard ≤ lcm4 n₁ n₂ n₃ n₄ := by
  have hround := goesRound_drawnAt h₁ h₂ h₃ h₄ hp₁ hp₂
  have hpos : 0 < lcm4 n₁ n₂ n₃ n₄ :=
    Nat.lcm_pos (Nat.lcm_pos h₁.pos h₂.pos) (Nat.lcm_pos h₃.pos h₄.pos)
  have himage : simulatedKeys config = Set.image keyOf (Set.range (drawnAt config)) :=
    Set.range_comp keyOf (drawnAt config)
  rw [himage]
  refine ⟨(hround.finite_range hpos).image keyOf, ?_⟩
  rw [← hround.ncard_range hpos]
  exact Set.ncard_image_le (hround.finite_range hpos)

/-- **What the sessions are**, where packets, flows and tables are right. -/
theorem EndToEnd.sessions (hs : EndToEnd cfg config data pNums numbers s) :
    SessionsSimulated cfg config data numbers s.stages := by
  refine ⟨?_, ?_⟩
  · intro m hm b hb node hnode
    have htable := hs.tables m hm
    exact htable.entry node.key node.entry
      ((Session.map_eq_some_iff htable.reachable.inv).mpr ⟨b, hb, node, hnode, rfl, rfl⟩)
  · intro n₁ n₂ n₃ n₄ h₁ h₂ h₃ h₄ hp₁ hp₂
    obtain ⟨hfinite, hcard⟩ := simulatedKeys_ncard h₁ h₂ h₃ h₄ hp₁ hp₂
    have hlinked : ∀ m < numbers.toNat,
        (s.stages.table m).linked = (keysOf (s.stages.table m).map).ncard := by
      intro m hm
      have hinv := (hs.tables m hm).reachable.inv
      have hkeys := hinv.ncard_keysOf
      have hpool := hinv.wellFormed.linked_add_pool
      omega
    rw [Finset.sum_congr rfl fun m hm => hlinked m (Finset.mem_range.mp hm)]
    refine le_trans (sum_ncard_le hfinite (fun k => (hashIndex k numbers).toNat) ?_) hcard
    intro m hm k hk
    obtain ⟨e, he⟩ := Option.ne_none_iff_exists'.mp hk
    have hentry := (hs.tables m hm).entry k e he
    exact ⟨hentry.1, hentry.2.1⟩

/-- **THE SESSIONS ARE WHAT WAS SIMULATED**: in every state a run reaches, for
    any number of generators, parsers and managers, any order of steps and any
    `pipe_depth` at each read. -/
theorem generating_sessions (htcp : config.protocol = 6) (hset : config.pktData = some data)
    (hdata : data.bytes ≠ []) (hlen : 54 ≤ config.pktlen) (hfuel : config.pktlen ≤ fuel)
    (hfit : config.pktlen - 54 ≤ cfg.managerBufferSize.toInt)
    (hstart : Entered fuel config cfg numbers hashLength start)
    (hreach : (generating cfg gNums pNums numbers).Reaches (fun _ => True) start s) :
    SessionsSimulated cfg config data numbers s.stages := by
  have hs : EndToEnd cfg config data pNums numbers s :=
    hreach.induction (EndToEnd cfg config data pNums numbers)
      (fun _ _ _ _ hu _ hstep => hu.step htcp hdata hlen hfit hstep)
      (hstart.endToEnd htcp hset hdata hlen hfuel)
  exact hs.sessions

/-- There is such a system, whatever the flow items and the tables. -/
theorem exists_entered (htcp : config.protocol = 6) (hset : config.pktData = some data)
    (hdata : data.bytes ≠ []) (hlen : 54 ≤ config.pktlen) (hfuel : config.pktlen ≤ fuel)
    (flows : Nat → Nat → FlowItem) {table : Nat → Manager}
    (htable : TablesInit cfg numbers hashLength table) :
    ∃ start, Entered fuel config cfg numbers hashLength start ∧ start.stages.table = table := by
  have hmode : generatorMode config = some generatorTcpPacket := by
    unfold generatorMode
    rw [if_pos htcp]
  choose pools hrun _ _ using fun i =>
    makeAllPacket_pool hmode hset hdata hlen hfuel i (fun _ => blankPacket)
  generalize advance^[queueCapacity] config = drawnOn at hrun
  obtain ⟨items, hitems⟩ : ∃ items, items = fun q => initSingleParser q (flows q) := ⟨_, rfl⟩
  refine ⟨{ stages :=
              { generatorPool := pools
                generatorPc := fun _ => .idle
                nextThreadId := fun i => i
                parserQueue := fun _ => []
                parserPool := items
                parserPc := fun _ => .idle
                managerQueue := fun _ => []
                managerPc := fun _ => .idle
                table := table }
            config := fun _ => drawnOn },
    { prepared := fun i => ⟨fun _ => blankPacket, hrun i⟩
      generatorPc := fun _ => rfl
      parserQueue := fun _ => rfl
      parserPc := fun _ => rfl
      managerQueue := fun _ => rfl
      managerPc := fun _ => rfl
      nextThreadId := fun _ => rfl
      parserPool := fun q => ⟨flows q, congrFun hitems q⟩
      table := htable }, rfl⟩

end Runs

/-- The lengths of the packets of `fourRanges`. -/
theorem fourRanges_lengths :
    sampleData.bytes ≠ [] ∧ 54 ≤ fourRanges.pktlen ∧ fourRanges.pktlen ≤ (600 : Nat) := by
  decide

/-- One generator over `fourRanges` starts and takes a packet. -/
theorem fourRanges_entered :
    ∃ start s, Entered 600 fourRanges (Session.sourceConfig 65536 1000) 1 1 start
      ∧ (generating (Session.sourceConfig 65536 1000) 1 1 1).step start
        (.generator 0 2 (.counters (fun _ => 0))) = some (s, ()) := by
  have htables : TablesInit (Session.sourceConfig 65536 1000) 1 1 Session.freshManager :=
    fun m _ => ⟨1, fun _ => Session.blankItem, Session.initSignleManager_fresh 65536 1000 m⟩
  have htcp : fourRanges.protocol = 6 := rfl
  have hset : fourRanges.pktData = some sampleData := rfl
  obtain ⟨hdata, hlen, hfuel⟩ := fourRanges_lengths
  obtain ⟨start, hstart, _⟩ :=
    exists_entered htcp hset hdata hlen hfuel (fun _ _ => blankFlow) htables
  obtain ⟨packet, pool, hpool⟩ : ∃ packet pool, start.stages.generatorPool 0 = packet :: pool := by
    apply List.exists_cons_of_length_pos
    rw [(hstart.pool htcp hset hdata hlen hfuel 0).1]
    exact Nat.two_pow_pos 10
  obtain ⟨stages, hpipe⟩ : ∃ stages,
      (pipeline .generator (Session.sourceConfig 65536 1000) 1 1 1).step start.stages
        (.generator 0 2 (.counters (drawnBytes (start.config 0)))) = some (stages, ()) :=
    ⟨_, step_took Nat.one_pos (hstart.generatorPc 0) hpool (fillPacket_drawnBytes 0 packet _) 2⟩
  exact ⟨start, _, hstart, congrArg (Option.map _) hpipe⟩

/-- Twelve connections, and no more sessions, when the first packet is taken. -/
theorem fourRanges_sessions :
    ∃ start s, Entered 600 fourRanges (Session.sourceConfig 65536 1000) 1 1 start
      ∧ (generating (Session.sourceConfig 65536 1000) 1 1 1).step start
        (.generator 0 2 (.counters (fun _ => 0))) = some (s, ())
      ∧ SessionsSimulated (Session.sourceConfig 65536 1000) fourRanges sampleData 1 s.stages
      ∧ (s.stages.table 0).linked ≤ 12 := by
  obtain ⟨start, s, hstart, hstep⟩ := fourRanges_entered
  have hreach : (generating (Session.sourceConfig 65536 1000) 1 1 1).Reaches (fun _ => True)
      start s := Machine.Reaches.refl.step trivial hstep
  have hmain : SessionsSimulated (Session.sourceConfig 65536 1000) fourRanges sampleData 1
      s.stages :=
    generating_sessions rfl rfl fourRanges_lengths.1 fourRanges_lengths.2.1 fourRanges_lengths.2.2
      (by decide) hstart hreach
  have hnumber := hmain.number 3 2 4 6 ⟨by decide, by decide, by decide, by decide⟩
    ⟨by decide, by decide, by decide, by decide⟩ ⟨by decide, by decide, by decide, by decide⟩
    ⟨by decide, by decide, by decide, by decide⟩ (by decide) (by decide)
  refine ⟨start, s, hstart, hstep, hmain, ?_⟩
  rw [show (1 : UInt32).toNat = 1 from rfl, Finset.sum_range_one] at hnumber
  exact hnumber

end FreePacket.Generator
