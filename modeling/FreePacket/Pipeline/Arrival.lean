/-
  FreePacket.Pipeline.Arrival
  ───────────────────────────
  **EMISSION ORDER, up to the session buffers.**

  `collected m addr es` lists the flows that went into the session at node
  `addr` of manager `m` since it was created.  Every linked session is what
  these flows, in this order, made of a fresh node.  They are a part of the
  flows that reached `hash_add_item` for its key, which stand in the order of
  emission generator by generator (`Order`).

  Main results:
    * `filledBy_bytes` — the buffer is the payloads one behind the other.
    * `pipeline_noOvertaking` — order of calls and of buffered payloads.
-/
import FreePacket.Pipeline.Conservation
import FreePacket.Pipeline.Order
import FreePacket.Session.Reassembly

namespace FreePacket.Pipeline

open FreePacket.Lib FreePacket.Packet
open FreePacket.Session

/-! ## §1. What a session was filled with. -/

/-- What an event adds to the flows in node `addr` of manager `m`. -/
def PipelineEvent.collects (m addr : Nat) (hist : List (FlowItem × UInt64)) :
    PipelineEvent → List (FlowItem × UInt64)
  | .inserted j flow (.created copy) now =>
      if j = m ∧ copy.addr = addr then [(flow, now)] else hist
  | .inserted j flow (.appended copy) now =>
      if j = m ∧ copy.addr = addr then hist ++ [(flow, now)] else hist
  | _ => hist

/-- The flows in node `addr` of manager `m` since its session was created,
    with the clocks of their calls. -/
def collected (m addr : Nat) (es : List PipelineEvent) : List (FlowItem × UInt64) :=
  es.foldl (PipelineEvent.collects m addr) []

theorem collected_snoc (m addr : Nat) (es : List PipelineEvent) (e : PipelineEvent) :
    collected m addr (es ++ [e]) = e.collects m addr (collected m addr es) := by
  unfold collected
  rw [List.foldl_append]
  rfl

/-- **The session is what these flows made of it**: the first one created it
    from a fresh node, the others were appended in order; all carry its key. -/
def FilledBy (cfg : Config) (m : Nat) (node : Blist) (hist : List (FlowItem × UInt64)) : Prop :=
  ∃ fresh first rest, hist = first :: rest
    ∧ node = rest.foldl (fun n c => appendSession n c.1 c.2)
        (makeNewSession cfg fresh first.1 m first.2)
    ∧ ∀ c ∈ hist, c.1.key = node.key ∧ Made c.1

theorem FilledBy.append {cfg : Config} {m : Nat} {node : Blist} {hist : List (FlowItem × UInt64)}
    (h : FilledBy cfg m node hist) {flow : FlowItem} (now : UInt64) (hkey : flow.key = node.key)
    (hmade : Made flow) :
    FilledBy cfg m (appendSession node flow now) (hist ++ [(flow, now)]) := by
  obtain ⟨fresh, first, rest, rfl, hnode, hall⟩ := h
  refine ⟨fresh, first, rest ++ [(flow, now)], rfl, ?_, ?_⟩
  · rw [List.foldl_append, ← hnode]
    rfl
  · intro c hc
    rcases List.mem_append.mp hc with hc | hc
    · exact hall c hc
    · rw [List.mem_singleton.mp hc]
      exact ⟨hkey, hmade⟩

/-- The lengths of the payloads, as numbers. -/
def payloadSum (hist : List (FlowItem × UInt64)) : Nat :=
  (hist.map (fun c => c.1.payloadLen.toNat)).sum

/-- Appending flow after flow, while the lengths stay below 2^32. -/
theorem appendAll_bytes (rest : List (FlowItem × UInt64)) (node : Blist)
    (h : node.item.curLen.toNat + payloadSum rest < 2 ^ 32) :
    sessionBytes (rest.foldl (fun n c => appendSession n c.1 c.2) node)
      = sessionBytes node ++ rest.flatMap (fun c => payloadBytes c.1) := by
  induction rest generalizing node with
  | nil => exact (List.append_nil _).symm
  | cons c rest ih =>
      have hsum : payloadSum (c :: rest) = c.1.payloadLen.toNat + payloadSum rest :=
        List.sum_cons
      rw [hsum] at h
      have hcur : (appendSession node c.1 c.2).item.curLen.toNat
          = node.item.curLen.toNat + c.1.payloadLen.toNat := by
        show (node.item.curLen + c.1.payloadLen).toNat = _
        rw [UInt32.toNat_add, Nat.mod_eq_of_lt (by omega)]
      rw [List.foldl_cons, ih _ (by omega), sessionBytes_appendSession c.2 (by omega),
        List.flatMap_cons, List.append_assoc]

/-- The payload the parser finds in a packet. -/
def packetPayload (packet : PacketT) : List UInt8 :=
  payloadBytes (makeFlowItemTcp blankFlow packet)

theorem Made.payloadBytes_eq {flow : FlowItem} (h : Made flow) :
    payloadBytes flow = packetPayload flow.packet := by
  obtain ⟨old, hflow⟩ := h
  rw [hflow]
  rfl

/-- **The buffer is the payloads of the packets, one behind the other**, as
    long as their lengths fit in 32 bits. -/
theorem filledBy_bytes {cfg : Config} {m : Nat} {node : Blist} {hist : List (FlowItem × UInt64)}
    (h : FilledBy cfg m node hist) (hsum : payloadSum hist < 2 ^ 32) :
    sessionBytes node = hist.flatMap (fun c => packetPayload c.1.packet) := by
  obtain ⟨fresh, first, rest, rfl, hnode, hall⟩ := h
  have hsplit : payloadSum (first :: rest) = first.1.payloadLen.toNat + payloadSum rest :=
    List.sum_cons
  have hpayloads : (first :: rest).flatMap (fun c => payloadBytes c.1)
      = (first :: rest).flatMap (fun c => packetPayload c.1.packet) :=
    List.flatMap_congr (fun c hc => (hall c hc).2.payloadBytes_eq)
  have hcur : (makeNewSession cfg fresh first.1 m first.2).item.curLen = first.1.payloadLen :=
    UInt32.zero_add _
  rw [hnode, appendAll_bytes rest _ (by rw [hcur]; omega), sessionBytes_makeNewSession,
    ← hpayloads, List.flatMap_cons]

/-! ## §2. The tables along a run. -/

/-- The invariant of one manager's table, with the events so far. -/
structure Filled (cfg : Config) (m : Nat) (es : List PipelineEvent) (t : Manager) : Prop where
  wellFormed : WellFormed cfg.poolSize t
  index : t.index = m
  linked : ∀ b < t.ht.rounds, ∀ node ∈ (t.bucket b).list,
    FilledBy cfg m node (collected m node.addr es)

section Tables

variable {cfg : Config} {m : Nat} {es : List PipelineEvent} {t t' : Manager}

/-- An event that concerns no session of the manager. -/
theorem Filled.unseen (h : Filled cfg m es t) {e : PipelineEvent}
    (he : ∀ addr hist, e.collects m addr hist = hist) : Filled cfg m (es ++ [e]) t := by
  refine { h with linked := ?_ }
  intro b hb node hnode
  rw [collected_snoc, he]
  exact h.linked b hb node hnode

/-- An event at another node. -/
theorem collects_of_ne {j addr : Nat} {hist : List (FlowItem × UInt64)} {flow : FlowItem}
    {out : Outcome} {now : UInt64} (h : ¬ (j = m ∧ out.addr = addr)) :
    (PipelineEvent.inserted j flow out now).collects m addr hist = hist := by
  cases out with
  | created copy => exact if_neg h
  | appended copy => exact if_neg h
  | flushed _ _ => rfl

/-- **A call of `hash_add_item`** keeps the invariant. -/
theorem Filled.inserted (h : Filled cfg m es t) {key : UInt32} {flow : FlowItem} {now : UInt64}
    {out : Outcome} (hmade : Made flow) (hadd : hashAddItem cfg t key flow now = some (t', out)) :
    Filled cfg m (es ++ [.inserted m flow out now]) t' := by
  obtain ⟨hb, hcase⟩ := h.wellFormed.hashAddItem_cases hadd
  have hrounds : t'.ht.rounds = t.ht.rounds := by cases hcase <;> rfl
  have hindex : t'.index = t.index := by cases hcase <;> rfl
  refine ⟨h.wellFormed.adds hb hcase, hindex.trans h.index, ?_⟩
  intro c hc node hnode
  rw [hrounds] at hc
  rw [collected_snoc]
  rcases h.wellFormed.adds_mem hb hcase hc hnode with ⟨hold, haddr⟩ | ⟨_, haddr, htouched⟩
  · rw [collects_of_ne (fun hno => haddr hno.2.symm)]
    exact h.linked c hc node hold
  · -- the node of the call: created by this flow, or filled further by it
    rcases htouched with ⟨fresh, hx, hout⟩ | ⟨old, hold, hkey, _, hx, hout⟩
    · rw [hout] at haddr ⊢
      have hself : (PipelineEvent.inserted m flow (.created ⟨fresh.addr, 0, flow.payloadLen,
          cfg.managerBufferSize.toUInt32⟩) now).collects m node.addr (collected m node.addr es)
          = [(flow, now)] := if_pos ⟨rfl, haddr.symm⟩
      rw [hself, hx, h.index]
      refine ⟨fresh, (flow, now), [], rfl, rfl, ?_⟩
      intro c hc
      rw [List.mem_singleton.mp hc]
      exact ⟨rfl, hmade⟩
    · rw [hout] at haddr ⊢
      have hself : (PipelineEvent.inserted m flow (.appended ⟨old.addr, old.item.curLen,
          flow.payloadLen, old.item.length⟩) now).collects m node.addr (collected m node.addr es)
          = collected m node.addr es ++ [(flow, now)] := if_pos ⟨rfl, haddr.symm⟩
      have hbefore := h.linked (t.slot key) hb old hold
      rw [hself, hx, appendSession_addr]
      exact hbefore.append now hkey.symm hmade

/-- **The expiry of a bucket** keeps the invariant. -/
theorem Filled.swept (h : Filled cfg m es t) {b : Nat} (hb : b < t.ht.rounds) (now : UInt64)
    (destoryTime : Int32) : Filled cfg m es (t.swept cfg b now destoryTime) := by
  refine ⟨h.wellFormed.swept hb now destoryTime, h.index, ?_⟩
  intro c hc node hnode
  exact h.linked c hc node (swept_mem hnode)

end Tables

section Steps

variable {mode : Mode} {cfg : Config} {gNums pNums : Nat} {numbers : UInt32} {s s' : Stages}

theorem GeneratorStep.table_frame {i : Nat} (h : GeneratorStep mode gNums pNums s i s') :
    s'.table = s.table := by
  cases h <;> rfl

theorem ParserStep.table_frame {q : Nat} (h : ParserStep numbers s q s') :
    s'.table = s.table := by
  cases h <;> rfl

/-- A generator's or a parser's event concerns no session. -/
theorem generatorEvent_collects (m addr : Nat) (hist : List (FlowItem × UInt64)) (s : Stages)
    (i : Nat) : (generatorEvent s i).collects m addr hist = hist := by
  unfold generatorEvent
  split <;> rfl

theorem parserEvent_collects (m addr : Nat) (hist : List (FlowItem × UInt64)) (s : Stages)
    (q : Nat) : (parserEvent s q).collects m addr hist = hist := by
  unfold parserEvent
  split
  · split <;> rfl
  · rfl

/-- **Every step keeps the tables' invariant.** -/
theorem filled_step {es : List PipelineEvent} (hr : Routed pNums numbers s)
    (hf : ∀ m < numbers.toNat, Filled cfg m es (s.table m)) {call : PipelineCall}
    {e : PipelineEvent} (h : ObservedStep mode cfg gNums pNums numbers s call e s') :
    ∀ m < numbers.toNat, Filled cfg m (es ++ [e]) (s'.table m) := by
  intro m hm
  cases h with
  | @generator j pipeDepth input s' _ hstep =>
      rw [(generatorStep_cases hstep).table_frame]
      exact (hf m hm).unseen (fun addr hist => generatorEvent_collects m addr hist s j)
  | @parser q pipeDepth s' _ hstep =>
      rw [(parserStep_cases hstep).table_frame]
      exact (hf m hm).unseen (fun addr hist => parserEvent_collects m addr hist s q)
  | @manager m' pipeDepth now s' hm' hstep =>
      by_cases hpc : ∃ flow, s.managerPc m' = .inserting flow
      · obtain ⟨flow, hpc⟩ := hpc
        -- the table of the manager that inserts, and those of the others
        obtain ⟨table, out, hadd, hevent, heq⟩ := managerStep_inserting hpc hstep
        have hheld := hr.managerPc m' hm'
        rw [hpc] at hheld
        rw [heq, hevent]
        by_cases hmm : m = m'
        · rw [hmm]
          show Filled cfg m' _ (Function.update s.table m' table m')
          rw [Function.update_self]
          exact (hf m' hm').inserted (hheld flow List.mem_cons_self).1 hadd
        · show Filled cfg m _ (Function.update s.table m' table m)
          rw [Function.update_of_ne hmm]
          exact (hf m hm).unseen (fun addr hist => collects_of_ne (fun h => hmm h.1.symm))
      · -- every other step of a manager leaves its table as it was
        have hevent : managerEvent cfg s m' now = .quiet := by
          unfold managerEvent
          split
          · rename_i flow hflow
            exact absurd ⟨flow, hflow⟩ hpc
          · rfl
        have hframe : s'.table = s.table := by
          cases managerStep_cases hstep with
          | inserted hins => exact absurd ⟨_, hins⟩ hpc
          | _ => rfl
        rw [hevent, hframe]
        exact (hf m hm).unseen (fun _ _ => rfl)
  | @cleaned m' b now destoryTime table hm' hb hdel =>
      -- an expiry unlinks sessions and fills none
      refine Filled.unseen ?_ (fun _ _ => rfl)
      by_cases hmm : m = m'
      · rw [hmm]
        show Filled cfg m' es (Function.update s.table m' table m')
        rw [(hf m' hm').wellFormed.deleteSession_eq hb] at hdel
        rw [Function.update_self, ← Option.some.inj hdel]
        exact (hf m' hm').swept hb now destoryTime
      · show Filled cfg m es (Function.update s.table m' table m)
        rw [Function.update_of_ne hmm]
        exact hf m hm

end Steps

/-! ## §3. Buffers and calls. -/

/-- The packets of generator `i` among the flows a session was filled with. -/
def fromGenerator (i : Nat) (hist : List (FlowItem × UInt64)) : List PacketT :=
  (hist.map (fun c => c.1.packet)).filter (fun packet => packet.addr.1 == i)

/-- A filled session is filled further by what reaches `hash_add_item` only. -/
theorem mine_collected_sublist (i : Nat) (k : Key) (m addr : Nat) {es : List PipelineEvent}
    (hmade : ∀ m flow out now, .inserted m flow out now ∈ es → Made flow) :
    (mine i k ((collected m addr es).map (fun c => c.1.packet))).Sublist (reached i k es) := by
  -- the history grows at its end, so the induction takes events off the end
  induction es using List.reverseRecOn with
  | nil => exact List.Sublist.refl _
  | append_singleton es e ih =>
      have hbefore := ih (fun m flow out now hmem =>
        hmade m flow out now (List.mem_append_left _ hmem))
      rw [collected_snoc, reached_snoc]
      have hkeep : (mine i k ((collected m addr es).map (fun c => c.1.packet))).Sublist
          (reached i k es ++ e.reaches i k) := hbefore.trans (List.sublist_append_left _ _)
      cases e with
      | inserted j flow out now =>
          by_cases hself : j = m ∧ out.addr = addr
          swap
          · rw [collects_of_ne hself]
            exact hkeep
          have hlast := reaches_inserted (m := j)
            (hmade j flow out now (List.mem_append_right _ List.mem_cons_self)) out now i k
          cases out with
          | created copy =>
              -- a new session starts over
              rw [show (PipelineEvent.inserted j flow (.created copy) now).collects m addr _
                = [(flow, now)] from if_pos hself, hlast]
              exact List.sublist_append_right _ _
          | appended copy =>
              rw [show (PipelineEvent.inserted j flow (.appended copy) now).collects m addr
                  (collected m addr es) = collected m addr es ++ [(flow, now)] from if_pos hself,
                List.map_append, mine_append, hlast]
              exact hbefore.append_right _
          | flushed _ _ => exact hkeep
      | quiet | sent _ _ _ | took _ _ => exact hkeep

/-- A session of key `k` was filled with flows of key `k`. -/
theorem FilledBy.fromGenerator_eq {cfg : Config} {m : Nat} {node : Blist}
    {hist : List (FlowItem × UInt64)} (h : FilledBy cfg m node hist) (i : Nat) :
    fromGenerator i hist = mine i node.key (hist.map (fun c => c.1.packet)) := by
  obtain ⟨_, _, _, _, _, hall⟩ := h
  unfold fromGenerator mine
  refine List.filter_congr ?_
  intro packet hpacket
  obtain ⟨c, hc, rfl⟩ := List.mem_map.mp hpacket
  obtain ⟨hkey, hmade⟩ := hall c hc
  rw [← hmade.key_eq, hkey, beq_self_eq_true, Bool.and_true]

/-! ## §4. No overtaking. -/

/-- `init_manager_group`: the tables are just initialised. -/
def TablesInit (cfg : Config) (numbers : UInt32) (hashLength : Int32) (table : Nat → Manager) :
    Prop :=
  ∀ m < numbers.toNat, ∃ fuel garbage,
    initSignleManager cfg m fuel hashLength garbage = some (table m)

/-- **Generator `i`'s packets of key `k` are not overtaken**, in the events
    `es` of a run with the given calls and in its last state. -/
structure NotOvertaken (cfg : Config) (numbers : UInt32) (i : Nat) (k : Key)
    (calls : List PipelineCall) (es : List PipelineEvent) (s : Stages) : Prop where
  /-- Every call is made by the manager of the flow's key, with the flow the
      parser made of its packet. -/
  routed : ∀ m flow out now, .inserted m flow out now ∈ es →
    Made flow ∧ (hashIndex flow.key numbers).toNat = m
  /-- The calls are a subsequence of the emissions. -/
  inOrder : (reached i k es).Sublist (emitted i k es)
  /-- Above `pipe_depth` 4 they are all of it, up to the packets in flight. -/
  all : (∀ call ∈ calls, call.AboveFour) →
    reached i k es ++ s.line i k numbers = emitted i k es
  /-- The key's session is what the flows collected in it made of it, and
      those from generator `i` are in emission order. -/
  buffered : ∀ m < numbers.toNat, ∀ b < (s.table m).ht.rounds,
    ∀ node ∈ ((s.table m).bucket b).list, node.key = k →
      FilledBy cfg m node (collected m node.addr es)
        ∧ (fromGenerator i (collected m node.addr es)).Sublist (emitted i k es)
  /-- Its bytes are their payloads in this order. -/
  bytes : ∀ m < numbers.toNat, ∀ b < (s.table m).ht.rounds,
    ∀ node ∈ ((s.table m).bucket b).list, node.key = k →
      payloadSum (collected m node.addr es) < 2 ^ 32 →
      sessionBytes node
        = (collected m node.addr es).flatMap (fun c => packetPayload c.1.packet)

section Run

variable {mode : Mode} {cfg : Config} {gNums pNums : Nat} {numbers : UInt32} {i : Nat} {k : Key}

/-- The invariant of a run: owners, routes, the line of the key, and what the
    sessions were filled with. -/
structure ArrivalInv (mode : Mode) (cfg : Config) (gNums pNums : Nat) (numbers : UInt32) (i : Nat)
    (k : Key) (calls : List PipelineCall) (es : List PipelineEvent) (s : Stages) : Prop where
  owned : Owned mode gNums pNums numbers s
  routed : Routed pNums numbers s
  ordered : Ordered i k numbers calls es s
  made : ∀ m flow out now, .inserted m flow out now ∈ es →
    m < numbers.toNat ∧ MadeFor numbers m flow
  filled : ∀ m < numbers.toNat, Filled cfg m es (s.table m)

theorem arrivalInv_start (hle : gNums ≤ pNums) {hashLength : Int32} (pktlen : UInt32)
    (handler : PacketT → Nat → UInt8) (packets : Nat → Nat → PacketT)
    (flows : Nat → Nat → FlowItem) {table : Nat → Manager}
    (htable : TablesInit cfg numbers hashLength table) :
    ArrivalInv mode cfg gNums pNums numbers i k [] []
      (startStages mode pktlen handler packets flows table) where
  owned := owned_start numbers hle pktlen handler packets flows table
  routed := ⟨fun q _ => each_nil, fun m _ => each_nil, fun m _ => each_nil⟩
  ordered := ⟨List.Sublist.refl _, fun _ => rfl⟩
  made := fun _ _ _ _ hmem => absurd hmem List.not_mem_nil
  filled := by
    intro m hm
    obtain ⟨fuel, garbage, hinit⟩ := htable m hm
    obtain ⟨hw, hindex, hempty⟩ := wellFormed_initSignleManager hinit
    refine ⟨hw, hindex, ?_⟩
    intro b _ node hnode
    rw [show (startStages mode pktlen handler packets flows table).table m = table m from rfl,
      hempty] at hnode
    exact absurd hnode List.not_mem_nil

/-- **Every step keeps it**, for a generator that feeds one parser. -/
theorem ArrivalInv.step (hle : gNums ≤ pNums) (hi : i < gNums) (hone : pNums ≤ i + gNums)
    {calls : List PipelineCall} {es : List PipelineEvent} {s s' : Stages} {call : PipelineCall}
    {e : PipelineEvent} (h : ArrivalInv mode cfg gNums pNums numbers i k calls es s)
    (hcase : ObservedStep mode cfg gNums pNums numbers s call e s') :
    ArrivalInv mode cfg gNums pNums numbers i k (calls ++ [call]) (es ++ [e]) s' where
  owned := h.owned.step (by omega) hle hcase.pipelineStep
  routed := h.routed.step hcase
  ordered := h.ordered.step (line_moves k h.owned h.routed hone hcase)
  filled := filled_step h.routed h.filled hcase
  made := by
    intro m flow out now hmem
    rcases List.mem_append.mp hmem with hmem | hmem
    · exact h.made m flow out now hmem
    · -- only a manager's step inserts, and it holds a flow made for it
      have heq := List.mem_singleton.mp hmem
      cases hcase with
      | @generator j _ _ _ _ _ =>
          unfold generatorEvent at heq
          split at heq <;> exact absurd heq (by simp)
      | @parser q _ _ _ _ =>
          unfold parserEvent at heq
          split at heq
          · split at heq <;> exact absurd heq (by simp)
          · exact absurd heq (by simp)
      | manager hm _ => exact h.routed.inserted hm heq
      | cleaned _ _ _ => exact absurd heq (by simp)

/-- **What the invariant says of the key.** -/
theorem ArrivalInv.notOvertaken {calls : List PipelineCall} {es : List PipelineEvent} {s : Stages}
    (h : ArrivalInv mode cfg gNums pNums numbers i k calls es s) :
    NotOvertaken cfg numbers i k calls es s := by
  have hcalls : (reached i k es).Sublist (emitted i k es) :=
    (List.sublist_append_left _ _).trans h.ordered.sublist
  refine ⟨?_, hcalls, h.ordered.exact, ?_, ?_⟩
  · intro m flow out now hmem
    exact (h.made m flow out now hmem).2
  · intro m hm b hb node hnode hk
    have hfill := (h.filled m hm).linked b hb node hnode
    refine ⟨hfill, ?_⟩
    rw [hfill.fromGenerator_eq, hk]
    exact (mine_collected_sublist i k m node.addr
      (fun m flow out now hmem => (h.made m flow out now hmem).2.1)).trans hcalls
  · intro m hm b hb node hnode _ hsum
    exact filledBy_bytes ((h.filled m hm).linked b hb node hnode) hsum

end Run

/-- **No overtaking end to end**, for every generator that feeds one parser,
    every key and every order of steps. -/
theorem pipeline_noOvertaking (mode : Mode) {cfg : Config} {gNums pNums : Nat} {numbers : UInt32}
    (hle : gNums ≤ pNums) {hashLength : Int32} (pktlen : UInt32)
    (handler : PacketT → Nat → UInt8) (packets : Nat → Nat → PacketT)
    (flows : Nat → Nat → FlowItem) {table : Nat → Manager}
    (htable : TablesInit cfg numbers hashLength table) {i : Nat} (hi : i < gNums)
    (hone : pNums ≤ i + gNums) (k : Key) {calls : List PipelineCall} {es : List PipelineEvent}
    {s : Stages}
    (hrun : (observedPipeline mode cfg gNums pNums numbers).run
      (startStages mode pktlen handler packets flows table) calls = some (s, es)) :
    NotOvertaken cfg numbers i k calls es s := by
  have hinv := (observedPipeline mode cfg gNums pNums numbers).run_trace_induction
    (ArrivalInv mode cfg gNums pNums numbers i k)
    (fun _ _ _ _ _ _ hs hstep => hs.step hle hi hone (observedStep_cases hstep)) hrun
    (arrivalInv_start hle pktlen handler packets flows htable)
  exact hinv.notOvertaken

/-- One generator, one parser: the first packet is emitted and stands in line. -/
theorem firstPacket_notOvertaken :
    1 ≤ 1 ∧ TablesInit (sourceConfig 65536 1000) 1 1 freshManager ∧ 0 < 1 ∧ 1 ≤ 0 + 1
      ∧ ∃ calls es s packet,
        (observedPipeline .generator (sourceConfig 65536 1000) 1 1 1).run oneOfEach calls
          = some (s, es)
        ∧ s.line 0 (packetKey packet) 1 = [packet]
        ∧ NotOvertaken (sourceConfig 65536 1000) 1 0 (packetKey packet) calls es s := by
  have htables : TablesInit (sourceConfig 65536 1000) 1 1 freshManager :=
    fun m _ => ⟨1, fun _ => blankItem, initSignleManager_fresh 65536 1000 m⟩
  obtain ⟨packet, pool, hpool⟩ : ∃ packet pool, oneOfEach.generatorPool 0 = packet :: pool := by
    apply List.exists_cons_of_length_pos
    rw [oneOfEach, startStages_generatorPool_length]
    decide
  obtain ⟨input, packet', hfill⟩ := exists_fillPacket .generator 0 packet
  have hsent : ∃ s, (observedPipeline .generator (sourceConfig 65536 1000) 1 1 1).run
      oneOfEach (List.replicate 3 (.generator 0 5 input))
        = some (s, [.quiet, .quiet, .sent 0 0 packet']) :=
    observed_sent (s := oneOfEach) Nat.one_pos rfl hpool hfill (by decide) (by decide)
  obtain ⟨s, hrun⟩ := hsent
  have hmain := pipeline_noOvertaking .generator (le_refl 1) 60 (fun _ _ => 0)
    (fun _ _ => blankPacket) (fun _ _ => blankFlow) htables Nat.one_pos (by decide)
    (packetKey packet') hrun
  refine ⟨le_refl 1, htables, Nat.one_pos, by decide, _, _, s, packet', hrun, ?_, hmain⟩
  -- above depth 4 the line is what was emitted and has not arrived
  have hall := hmain.all (by
    intro call hcall
    rw [List.eq_of_mem_replicate hcall]
    show (5 : Int32) > 4
    decide)
  have hemitted : emitted 0 (packetKey packet') [.quiet, .quiet, .sent 0 0 packet'] = [packet'] := by
    simp [emitted, PipelineEvent.emits]
  rw [hemitted] at hall
  exact hall

end FreePacket.Pipeline
