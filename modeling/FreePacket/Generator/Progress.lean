/-
  FreePacket.Generator.Progress
  ─────────────────────────────
  **WITH NO MORE CONNECTIONS THAN SESSIONS THE SIMULATION NEVER STALLS.**

  A manager waits for a session when all of its nodes are linked and the key
  at hand has none.  Linked nodes have different keys, and all keys are those
  of simulated connections.  So where a manager has a node for every
  connection of the configuration it never waits, the pipeline drains whole,
  and every generator gets to its next packet.

  Main results:
    * `Entered.startStages` — the system starts as a pipeline.
    * `EndToEnd.not_waitsForSession` — the pigeonhole.
    * `generating_neverStalls` — from every reachable state.
-/
import FreePacket.Generator.EndToEnd

namespace FreePacket.Generator

open FreePacket.Lib FreePacket.Packet FreePacket.ConfigFile FreePacket.Pipeline
open FreePacket.Session (Manager Config WellFormed queueCapacity keysOf)

/-! ## §1. The start. -/

section Start

variable {cfg : Config} {gNums pNums : Nat} {numbers : UInt32} {config : SimConfig}
  {data : PktData} {fuel : Nat} {hashLength : Int32} {start : Generating}

/-- **The system starts as a pipeline**, with the packets it has prepared. -/
theorem Entered.startStages (h : Entered fuel config cfg numbers hashLength start)
    (htcp : config.protocol = 6) (hset : config.pktData = some data) (hdata : data.bytes ≠ [])
    (hlen : 54 ≤ config.pktlen) (hfuel : config.pktlen ≤ fuel) :
    ∃ packets flows, start.stages
      = startStages .generator (config.int .pktlen).toUInt32 PacketT.data packets flows
          start.stages.table := by
  choose flows hflows using h.parserPool
  -- the pools, taken for what `malloc` left
  obtain ⟨packets, hpackets⟩ : ∃ packets : Nat → Nat → PacketT, ∀ i j,
      packets i j = (start.stages.generatorPool i).getD j blankPacket := ⟨_, fun _ _ => rfl⟩
  refine ⟨packets, flows, ?_⟩
  have hpool : start.stages.generatorPool
      = (Pipeline.startStages .generator (config.int .pktlen).toUInt32 PacketT.data packets flows
          start.stages.table).generatorPool := by
    funext i
    obtain ⟨hlength, hall⟩ := h.pool htcp hset hdata hlen hfuel i
    rw [startStages_generatorPool]
    unfold initSignleGenerator
    rw [List.map_map]
    apply List.ext_getElem?
    intro j
    rw [List.getElem?_map]
    by_cases hj : j < queueCapacity
    · obtain ⟨packet, hpacket⟩ : ∃ packet, (start.stages.generatorPool i)[j]? = some packet :=
        ⟨_, List.getElem?_eq_getElem (hlength ▸ hj)⟩
      obtain ⟨hemitted, hown, haddr⟩ := hall j packet hpacket
      have hsame : packets i j = packet := by
        rw [hpackets, List.getD_eq_getElem?_getD, hpacket]
        rfl
      rw [hpacket, List.getElem?_range hj]
      show some packet = some (preparePacket .generator i _ _ { packets i j with addr := (i, j) })
      rw [hsame, ← haddr]
      show some packet = some { packet with pool := i, length := (config.int .pktlen).toUInt32 }
      rw [← hown, ← hemitted.length_eq]
    · rw [List.getElem?_eq_none (by omega), List.getElem?_eq_none (by rw [List.length_range]; omega)]
      rfl
  unfold Pipeline.startStages at hpool ⊢
  dsimp only at hpool
  show Stages.mk start.stages.generatorPool start.stages.generatorPc start.stages.nextThreadId
    start.stages.parserQueue start.stages.parserPool start.stages.parserPc
    start.stages.managerQueue start.stages.managerPc start.stages.table = _
  rw [hpool, funext h.generatorPc, funext h.nextThreadId, funext h.parserQueue, funext hflows,
    funext h.parserPc, funext h.managerQueue, funext h.managerPc]

/-- The managers' tables have buckets. -/
theorem tablesReady_init {table : Nat → Manager}
    (hlength : 0 ≤ hashLength.toInt ∧ hashLength.toInt < 2 ^ 25)
    (h : TablesInit cfg numbers hashLength table) (m : Nat) (hm : m < numbers.toNat) :
    WellFormed cfg.poolSize (table m) ∧ 0 < (table m).ht.numBuckets.toInt := by
  obtain ⟨n, garbage, hinit⟩ := h m hm
  obtain ⟨ht, hcreate, hmanager⟩ := Session.initSignleManager_eq_some hinit
  refine ⟨(Session.wellFormed_initSignleManager hinit).1, ?_⟩
  rw [hmanager]
  exact ((Session.hashCreate_sound_iff hcreate).mpr hlength).1

end Start

/-! ## §2. Draining. -/

section Drain

variable {cfg : Config} {gNums pNums : Nat} {numbers : UInt32} {config : SimConfig}
  {data : PktData} {s : Generating} {t : Stages}

/-- With a packet in its hands a generator does not look at its input. -/
theorem generatorStep_busy {mode : Mode} {i : Nat} (hpc : t.generatorPc i ≠ .idle)
    {pipeDepth : Int32} {input input' : Input} :
    generatorStep mode gNums pNums t i pipeDepth input
      = generatorStep mode gNums pNums t i pipeDepth input' := by
  unfold generatorStep
  cases h : t.generatorPc i with
  | idle => exact absurd h hpc
  | filled packet | sending parser packet | returning packet => rfl

/-- **A step that works off draws nothing**: it is one of the generators'
    machine, and leaves the cursors where they are. -/
theorem generating_worksOff {call : PipelineCall} {r : Unit} (hcall : s.stages.WorksOff call)
    (h : (pipeline .generator cfg gNums pNums numbers).step s.stages call = some (t, r)) :
    ∃ s', (generating cfg gNums pNums numbers).step s call = some (s', r)
      ∧ s'.stages = t ∧ s'.config = s.config := by
  cases call with
  | generator i pipeDepth input =>
      have hsame : (pipeline .generator cfg gNums pNums numbers).step s.stages
          (.generator i pipeDepth (.counters (drawnBytes (s.config i)))) = some (t, r) := by
        rw [← h]
        show (if i < gNums then (generatorStep _ gNums pNums s.stages i pipeDepth _).map _ else none)
          = if i < gNums then (generatorStep _ gNums pNums s.stages i pipeDepth input).map _ else none
        rw [generatorStep_busy hcall]
      refine ⟨_, congrArg (Option.map _) hsame, rfl, ?_⟩
      show Function.update s.config i (drawn (s.stages.generatorPc i) (s.config i)) = s.config
      rw [drawn_of_ne hcall, Function.update_eq_self]
  | parser q pipeDepth | manager m pipeDepth now =>
      exact ⟨_, congrArg (Option.map _) h, rfl, rfl⟩
  | clean m b now destoryTime => exact absurd hcall id

/-- So the pipeline's runs of this kind are runs of the generators' machine. -/
theorem generating_drained {calls : List PipelineCall} {rs : List Unit}
    (hworks : (pipeline .generator cfg gNums pNums numbers).Along Stages.WorksOff s.stages calls)
    (h : (pipeline .generator cfg gNums pNums numbers).run s.stages calls = some (t, rs)) :
    ∃ s', (generating cfg gNums pNums numbers).Reaches (fun _ => True) s s'
      ∧ s'.stages = t ∧ s'.config = s.config := by
  induction calls generalizing s rs with
  | nil =>
      obtain ⟨rfl, _⟩ := Prod.mk.inj (Option.some.inj h)
      exact ⟨s, .refl, rfl, rfl⟩
  | cons call calls ih =>
      obtain ⟨t₁, r, rs', hstep, hrest, _⟩ := Machine.run_cons_eq_some _ |>.mp h
      obtain ⟨s₁, hgen, hstages, hconfig⟩ := generating_worksOff hworks.1 hstep
      have hworks₁ := hworks.2 _ _ hstep
      rw [← hstages] at hrest hworks₁
      obtain ⟨s', hreach, hs', hc'⟩ := ih hworks₁ hrest
      exact ⟨s', (Machine.Reaches.refl.step trivial hgen).trans hreach, hs', hc'.trans hconfig⟩

/-- **The pigeonhole**: a manager with a session for every connection does not
    wait for one. -/
theorem EndToEnd.not_waitsForSession (htcp : config.protocol = 6) (hdata : data.bytes ≠ [])
    (hlen : 54 ≤ config.pktlen) (hs : EndToEnd cfg config data pNums numbers s)
    (hfinite : (simulatedKeys config).Finite) (hfew : (simulatedKeys config).ncard ≤ cfg.poolSize)
    {m : Nat} (hm : m < numbers.toNat) : ¬ WaitsForSession s.stages m := by
  rintro ⟨flow, hpc, hempty, hnone⟩
  have htable := hs.tables m hm
  have hinv := htable.reachable.inv
  have hkey := (hs.inserting htcp hdata hlen hm hpc).1
  -- the keys of the sessions are as many as there are nodes, and all simulated
  have hfull := hinv.sessionPool_eq_nil_iff.mp hempty
  have hsub : keysOf (s.stages.table m).map ⊆ simulatedKeys config := by
    intro k hk
    obtain ⟨e, he⟩ := Option.ne_none_iff_exists'.mp hk
    exact (htable.entry k e he).1
  -- and the key at hand is one more
  have hnew : flow.key ∉ keysOf (s.stages.table m).map := by
    intro hk
    obtain ⟨e, he⟩ := Option.ne_none_iff_exists'.mp hk
    obtain ⟨b, hb, node, hnode, hself, _⟩ := (Session.map_eq_some_iff hinv).mp he
    have hchain : (bucketIndex node.key (s.stages.table m).ht.size).toNat = b :=
      hinv.placed.bucket b hb node hnode
    refine hnone node ?_ hself
    rw [Session.slot_bucketIndex, ← hself, hchain]
    exact hnode
  have hmore := Set.ncard_le_ncard (Set.insert_subset hkey hsub) hfinite
  rw [Set.ncard_insert_of_notMem hnew (hfinite.subset hsub), hfull] at hmore
  omega

end Drain

/-! ## §3. No stall. -/

/-- **The simulation does not stall** in `s`. -/
structure NeverStalls (cfg : Config) (gNums pNums : Nat) (numbers : UInt32) (s : Generating) :
    Prop where
  /-- No manager waits for a session. -/
  free : ∀ m < numbers.toNat, ¬ WaitsForSession s.stages m
  /-- Steps that work off come to an end, -/
  bounded : ∀ calls t rs,
    (pipeline .generator cfg gNums pNums numbers).Along Stages.WorksOff s.stages calls →
    (pipeline .generator cfg gNums pNums numbers).run s.stages calls = some (t, rs) →
    calls.length ≤ 9 * (queueCapacity * gNums) + 5 * pNums + numbers.toNat
  /-- and where they do, all is at home. -/
  drained : ∀ calls t rs,
    (pipeline .generator cfg gNums pNums numbers).Along Stages.WorksOff s.stages calls →
    (pipeline .generator cfg gNums pNums numbers).run s.stages calls = some (t, rs) →
    Stuck .generator cfg gNums pNums numbers t → Drained gNums pNums numbers.toNat t
  /-- A generator with at most 16 parsers for each one gets to its next packet,
      which has the next connection of its cursors. -/
  next : pNums ≤ 16 * gNums → ∀ i < gNums,
    ∃ s' packet, (generating cfg gNums pNums numbers).Reaches (fun _ => True) s s'
      ∧ s'.stages.generatorPc i = .filled packet
      ∧ connection packet = nextConnection (s.config i)

section NoStall

variable {cfg : Config} {gNums pNums : Nat} {numbers : UInt32} {config : SimConfig}
  {data : PktData} {fuel : Nat} {hashLength : Int32} {s start : Generating}

/-- The invariants of the stages. -/
structure Running (cfg : Config) (config : SimConfig) (data : PktData) (gNums pNums : Nat)
    (numbers : UInt32) (s : Generating) : Prop where
  endToEnd : EndToEnd cfg config data pNums numbers s
  owned : PipelineInv .generator gNums pNums numbers s.stages
  ready : TablesReady cfg numbers s.stages

theorem Running.step (htcp : config.protocol = 6) (hdata : data.bytes ≠ [])
    (hlen : 54 ≤ config.pktlen) (hfit : config.pktlen - 54 ≤ cfg.managerBufferSize.toInt)
    (hg : 1 ≤ gNums) (hle : gNums ≤ pNums) (hs : Running cfg config data gNums pNums numbers s)
    {s' : Generating} {call : PipelineCall} {r : Unit}
    (h : (generating cfg gNums pNums numbers).step s call = some (s', r)) :
    Running cfg config data gNums pNums numbers s' := by
  obtain ⟨call', hstep, _⟩ := generating_stages h
  obtain ⟨howned, hready⟩ := drain_step hg hle hstep ⟨hs.owned, hs.ready⟩
  exact ⟨hs.endToEnd.step htcp hdata hlen hfit h, howned, hready⟩

/-- A drained generator takes its next packet. -/
theorem generating_next {i : Nat} (hi : i < gNums) (hpc : s.stages.generatorPc i = .idle)
    (hpool : 0 < (s.stages.generatorPool i).length) :
    ∃ s' packet, (generating cfg gNums pNums numbers).step s
        (.generator i 0 (.counters fun _ => 0)) = some (s', ())
      ∧ s'.stages.generatorPc i = .filled packet
      ∧ connection packet = nextConnection (s.config i) := by
  obtain ⟨packet, pool, hcons⟩ := List.exists_cons_of_length_pos hpool
  obtain ⟨stages, hpipe⟩ : ∃ stages, (pipeline .generator cfg gNums pNums numbers).step s.stages
      (.generator i 0 (.counters (drawnBytes (s.config i)))) = some (stages, ()) :=
    ⟨_, step_took hi hpc hcons (fillPacket_drawnBytes i packet _) 0⟩
  obtain ⟨s', hstep⟩ : ∃ s', (generating cfg gNums pNums numbers).step s
      (.generator i 0 (.counters fun _ => 0)) = some (s', ()) :=
    ⟨_, congrArg (Option.map _) hpipe⟩
  obtain ⟨_, _, _, hfilled, _⟩ := generating_took hpc hstep
  exact ⟨s', _, hstep, hfilled, connection_rewriteHeaders _ _⟩

/-- **Where the invariants hold and the sessions suffice, nothing stalls.** -/
theorem neverStalls_of_running
    (hall : ∀ s', (generating cfg gNums pNums numbers).Reaches (fun _ => True) s s' →
      Running cfg config data gNums pNums numbers s')
    (htcp : config.protocol = 6) (hdata : data.bytes ≠ []) (hlen : 54 ≤ config.pktlen)
    (hg : 1 ≤ gNums) (hle : gNums ≤ pNums) (hnumbers : 0 < numbers.toNat)
    (hfinite : (simulatedKeys config).Finite)
    (hfew : (simulatedKeys config).ncard ≤ cfg.poolSize) :
    NeverStalls cfg gNums pNums numbers s := by
  have hs := hall s .refl
  have hdrains : Drains .generator cfg gNums pNums numbers s.stages :=
    hs.owned.drains hs.ready hg hle hnumbers
  have hfree : ∀ s', (generating cfg gNums pNums numbers).Reaches (fun _ => True) s s' →
      ∀ m < numbers.toNat, ¬ WaitsForSession s'.stages m := by
    intro s' hreach m hm
    exact (hall s' hreach).endToEnd.not_waitsForSession htcp hdata hlen hfinite hfew hm
  -- a run of the stages alone is one of the system, where no manager waits
  have hhome : ∀ calls t rs,
      (pipeline .generator cfg gNums pNums numbers).Along Stages.WorksOff s.stages calls →
      (pipeline .generator cfg gNums pNums numbers).run s.stages calls = some (t, rs) →
      Stuck .generator cfg gNums pNums numbers t →
      Drained gNums pNums numbers.toNat t
        ∧ (pNums ≤ 16 * gNums → ∀ i < gNums, 16 ≤ (t.generatorPool i).length) := by
    intro calls t rs hworks hrun hstuck
    obtain ⟨s', hreach, rfl, _⟩ := generating_drained hworks hrun
    refine (hdrains.drained calls _ rs hworks hrun hstuck).resolve_right ?_
    rintro ⟨m, hm, hwaits⟩
    exact hfree s' hreach m hm hwaits
  refine ⟨hfree s .refl, hdrains.bounded, ?_, ?_⟩
  · intro calls t rs hworks hrun hstuck
    exact (hhome calls t rs hworks hrun hstuck).1
  · intro hmany i hi
    obtain ⟨calls, t, rs, hworks, hrun, hstuck⟩ := hdrains.ends
    obtain ⟨hdrained, hpools⟩ := hhome calls t rs hworks hrun hstuck
    obtain ⟨s₁, hreach, rfl, hconfig⟩ := generating_drained hworks hrun
    have hpool := hpools hmany i hi
    obtain ⟨s', packet, hstep, hfilled, hnext⟩ : ∃ s' packet,
        (generating cfg gNums pNums numbers).step s₁ (.generator i 0 (.counters fun _ => 0))
            = some (s', ())
          ∧ s'.stages.generatorPc i = .filled packet
          ∧ connection packet = nextConnection (s₁.config i) :=
      generating_next hi (hdrained.generatorPc i hi) (by omega)
    rw [hconfig] at hnext
    exact ⟨s', packet, hreach.step trivial hstep, hfilled, hnext⟩

/-- **THE SIMULATION NEVER STALLS** where each manager has a session for every
    connection of the configured ranges: in every state a run reaches, for
    every `1 <= G <= P`, any number of managers, and any `pipe_depth` at each
    read. -/
theorem generating_neverStalls (htcp : config.protocol = 6) (hset : config.pktData = some data)
    (hdata : data.bytes ≠ []) (hlen : 54 ≤ config.pktlen) (hfuel : config.pktlen ≤ fuel)
    (hfit : config.pktlen - 54 ≤ cfg.managerBufferSize.toInt)
    (hlength : 0 ≤ hashLength.toInt ∧ hashLength.toInt < 2 ^ 25)
    (hg : 1 ≤ gNums) (hle : gNums ≤ pNums) (hnumbers : 0 < numbers.toNat)
    {n₁ n₂ n₃ n₄ : Nat} (h₁ : CursorIn config.sport n₁) (h₂ : CursorIn config.dport n₂)
    (h₃ : CursorIn config.saddr n₃) (h₄ : CursorIn config.daddr n₄) (hp₁ : n₁ ≤ 65536)
    (hp₂ : n₂ ≤ 65536) (hfew : lcm4 n₁ n₂ n₃ n₄ ≤ cfg.poolSize)
    (hstart : Entered fuel config cfg numbers hashLength start)
    (hreach : (generating cfg gNums pNums numbers).Reaches (fun _ => True) start s) :
    NeverStalls cfg gNums pNums numbers s := by
  obtain ⟨packets, flows, hstages⟩ := hstart.startStages htcp hset hdata hlen hfuel
  have hrunning : Running cfg config data gNums pNums numbers start := by
    refine ⟨hstart.endToEnd htcp hset hdata hlen hfuel, ?_, tablesReady_init hlength hstart.table⟩
    rw [hstages]
    exact pipelineInv_start hle _ _ packets flows _
  have hall : ∀ s', (generating cfg gNums pNums numbers).Reaches (fun _ => True) start s' →
      Running cfg config data gNums pNums numbers s' := by
    intro s' hreach'
    exact hreach'.induction (Running cfg config data gNums pNums numbers)
      (fun _ _ _ _ hu _ hstep => hu.step htcp hdata hlen hfit hg hle hstep) hrunning
  obtain ⟨hfinite, hcard⟩ := simulatedKeys_ncard h₁ h₂ h₃ h₄ hp₁ hp₂
  exact neverStalls_of_running (fun s' hreach' => hall s' (hreach.trans hreach')) htcp hdata hlen
    hg hle hnumbers hfinite (hcard.trans hfew)

end NoStall

/-- Twelve connections and 65536 sessions: nothing stalls when the first packet
    is taken. -/
theorem fourRanges_neverStalls :
    ∃ start s, Entered 600 fourRanges (Session.sourceConfig 65536 1000) 1 1 start
      ∧ (generating (Session.sourceConfig 65536 1000) 1 1 1).step start
        (.generator 0 2 (.counters (fun _ => 0))) = some (s, ())
      ∧ NeverStalls (Session.sourceConfig 65536 1000) 1 1 1 s := by
  obtain ⟨start, s, hstart, hstep⟩ := fourRanges_entered
  have hreach : (generating (Session.sourceConfig 65536 1000) 1 1 1).Reaches (fun _ => True)
      start s := Machine.Reaches.refl.step trivial hstep
  refine ⟨start, s, hstart, hstep, ?_⟩
  have hpool : lcm4 3 2 4 6 ≤ (Session.sourceConfig 65536 1000).poolSize :=
    show 12 ≤ 2 ^ 16 by decide
  exact generating_neverStalls rfl rfl fourRanges_lengths.1 fourRanges_lengths.2.1
    fourRanges_lengths.2.2 (by decide) (by decide) (le_refl 1) (le_refl 1) (by decide)
    ⟨by decide, by decide, by decide, by decide⟩ ⟨by decide, by decide, by decide, by decide⟩
    ⟨by decide, by decide, by decide, by decide⟩ ⟨by decide, by decide, by decide, by decide⟩
    (by decide) (by decide) hpool hstart hreach

end FreePacket.Generator
