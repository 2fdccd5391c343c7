/-
  FreePacket.Pipeline.RoundRobin
  ──────────────────────────────
  **ROUND-ROBIN FEEDING: one sender a queue, one pool a batch.**

  The parsers generator `i` feeds are its lane: `i`, `i + gNums`, … below
  `pNums`, `laneSize` of them.  Its `next_thread_id` walks the lane and wraps
  to `i`, also where `gNums` does not divide `pNums` and lanes have different
  lengths.  So in every run, whatever the other threads do, the packets it
  sends go round its lane in turns.

  Main results:
    * `lane_next` — one update of `next_thread_id` is one place further.
    * `pipeline_roundRobin` — lanes, turns and batches along every run.
-/
import FreePacket.Lib.Cycle
import FreePacket.Pipeline.Conservation
import FreePacket.Pipeline.Events

namespace FreePacket.Pipeline

open FreePacket.Lib FreePacket.Packet
open FreePacket.Session (Manager Config Outcome queueCapacity)

/-! ## §1. Lanes. -/

/-- Place `c` of generator `i`'s lane. -/
def lane (gNums i c : Nat) : Nat := i + gNums * c

/-- How many parsers generator `i` feeds. -/
def laneSize (gNums pNums i : Nat) : Nat := (pNums - 1 - i) / gNums + 1

section Lane

variable {gNums pNums i : Nat}

theorem laneSize_pos : 0 < laneSize gNums pNums i := Nat.succ_pos _

theorem lane_inj (hg : 0 < gNums) {c d : Nat} (h : lane gNums i c = lane gNums i d) : c = d := by
  unfold lane at h
  exact Nat.eq_of_mul_eq_mul_left hg (Nat.add_left_cancel h)

/-- The places below `pNums` are the first `laneSize` ones. -/
theorem lane_lt_iff (hg : 0 < gNums) (hi : i < pNums) (c : Nat) :
    lane gNums i c < pNums ↔ c < laneSize gNums pNums i := by
  have hdiv : c ≤ (pNums - 1 - i) / gNums ↔ c * gNums ≤ pNums - 1 - i :=
    Nat.le_div_iff_mul_le hg
  unfold lane laneSize
  rw [Nat.lt_succ_iff, hdiv, Nat.mul_comm gNums c]
  omega

/-- The lane holds exactly the parsers generator `i` may feed. -/
theorem feeds_iff (hi : i < gNums) (hle : gNums ≤ pNums) (q : Nat) :
    Feeds gNums pNums i q ↔ ∃ c < laneSize gNums pNums i, q = lane gNums i c := by
  have hg : 0 < gNums := by omega
  have hip : i < pNums := by omega
  constructor
  · rintro ⟨hq, hmod⟩
    have hsplit : q = lane gNums i (q / gNums) := by
      unfold lane
      rw [← hmod]
      exact (Nat.mod_add_div q gNums).symm
    refine ⟨q / gNums, ?_, hsplit⟩
    rw [← lane_lt_iff hg hip, ← hsplit]
    exact hq
  · rintro ⟨c, hc, rfl⟩
    refine ⟨(lane_lt_iff hg hip c).mpr hc, ?_⟩
    unfold lane
    rw [Nat.add_mul_mod_self_left]
    exact Nat.mod_eq_of_lt hi

/-- **One update of `next_thread_id`** is one place further in the lane. -/
theorem lane_next (hi : i < gNums) (hle : gNums ≤ pNums) (n : Nat) :
    (if lane gNums i (n % laneSize gNums pNums i) + gNums < pNums
        then lane gNums i (n % laneSize gNums pNums i) + gNums else i)
      = lane gNums i ((n + 1) % laneSize gNums pNums i) := by
  have hstep : ∀ c, lane gNums i c + gNums = lane gNums i (c + 1) := by
    intro c
    unfold lane
    rw [Nat.mul_add, Nat.mul_one, Nat.add_assoc]
  have hlast := lane_lt_iff (show 0 < gNums by omega) (show i < pNums by omega)
    (n % laneSize gNums pNums i + 1)
  rw [hstep, succ_mod_eq n laneSize_pos]
  by_cases hroom : n % laneSize gNums pNums i + 1 < laneSize gNums pNums i
  · rw [if_pos hroom, if_pos (hlast.mpr hroom)]
  · -- behind the last place the generator starts over at its own index
    rw [if_neg hroom, if_neg (fun h => hroom (hlast.mp h))]
    unfold lane
    rw [Nat.mul_zero, Nat.add_zero]

end Lane

/-! ## §2. Turns. -/

/-- The parser a generator has chosen and not yet enqueued to. -/
def GeneratorPc.chosen : GeneratorPc → List Nat
  | .sending parser _ => [parser]
  | .idle | .filled _ | .returning _ => []

/-- Generator `i` has gone round its lane: the parsers it sent to, and the one
    it has chosen, are the first places in turn, and `next_thread_id` is the
    next one. -/
def InTurn (gNums pNums i : Nat) (sent : List Nat) (s : Stages) : Prop :=
  ∃ n, sent ++ (s.generatorPc i).chosen = turns (lane gNums i) (laneSize gNums pNums i) n
    ∧ s.nextThreadId i = lane gNums i (n % laneSize gNums pNums i)

section Steps

variable {mode : Mode} {cfg : Config} {gNums pNums : Nat} {numbers : UInt32} {s s' : Stages}

/-- What other threads do is not seen. -/
theorem InTurn.congr {i : Nat} {sent : List Nat} (h : InTurn gNums pNums i sent s)
    (hpc : s'.generatorPc i = s.generatorPc i) (hnext : s'.nextThreadId i = s.nextThreadId i) :
    InTurn gNums pNums i sent s' := by
  unfold InTurn at h ⊢
  rw [hpc, hnext]
  exact h

/-- **A step of generator `i`** keeps its turns. -/
theorem InTurn.generatorStep {i : Nat} {sent : List Nat} (h : InTurn gNums pNums i sent s)
    (hi : i < gNums) (hle : gNums ≤ pNums) (hstep : GeneratorStep mode gNums pNums s i s') :
    InTurn gNums pNums i (sent ++ (generatorEvent s i).target i) s' := by
  obtain ⟨n, hturns, hnext⟩ := h
  cases hstep with
  | @took packet packet' pool input hpc _ _ =>
      rw [hpc] at hturns
      refine ⟨n, ?_, hnext⟩
      simp only [generatorEvent, hpc, Function.update_self, target_quiet, List.append_nil]
      exact hturns
  | @chose packet hpc =>
      -- the chosen parser joins the turns, and the counter goes one place further
      rw [hpc] at hturns
      refine ⟨n + 1, ?_, ?_⟩
      · simp only [generatorEvent, hpc, Function.update_self, target_quiet, List.append_nil]
        rw [turns_succ, ← hturns, hnext]
        show sent ++ [_] = (sent ++ []) ++ [_]
        rw [List.append_nil]
      · show Function.update s.nextThreadId i _ i = _
        rw [Function.update_self, hnext, lane_next hi hle]
  | @kept packet hpc =>
      rw [hpc] at hturns
      refine ⟨n, ?_, hnext⟩
      simp only [generatorEvent, hpc, Function.update_self, target_quiet, List.append_nil]
      exact hturns
  | @sent parser packet hpc =>
      -- the chosen parser becomes the one sent to
      rw [hpc] at hturns
      refine ⟨n, ?_, hnext⟩
      simp only [generatorEvent, hpc, Function.update_self]
      show (sent ++ if i = i then [parser] else []) ++ [] = _
      rw [if_pos rfl, List.append_nil]
      exact hturns
  | @returned packet hpc =>
      rw [hpc] at hturns
      refine ⟨n, ?_, hnext⟩
      simp only [generatorEvent, hpc, Function.update_self, target_quiet, List.append_nil]
      exact hturns

/-- A step of generator `j` leaves the counter and the hands of `i` alone. -/
theorem GeneratorStep.other {i j : Nat} (hij : i ≠ j)
    (hstep : GeneratorStep mode gNums pNums s j s') :
    s'.generatorPc i = s.generatorPc i ∧ s'.nextThreadId i = s.nextThreadId i
      ∧ (generatorEvent s j).target i = [] := by
  have hevent : (generatorEvent s j).target i = [] := by
    unfold generatorEvent
    split
    · exact if_neg (Ne.symm hij)
    · rfl
  cases hstep <;> refine ⟨Function.update_of_ne hij _ _, ?_, hevent⟩
  case chose => exact Function.update_of_ne hij _ _
  all_goals rfl

/-! ## §3. The invariant of a run. -/

/-- What is seen of a run, as far as it concerns queues and batches. -/
structure Feeding (mode : Mode) (gNums pNums : Nat) (numbers : UInt32) (es : List PipelineEvent)
    (s : Stages) : Prop where
  owned : Owned mode gNums pNums numbers s
  inTurn : ∀ i < gNums, InTurn gNums pNums i (targets i es) s
  /-- What was sent to a parser came from the generator of its lane. -/
  senders : ∀ i q packet, .sent i q packet ∈ es →
    i < gNums ∧ Feeds gNums pNums i q ∧ PacketOf i packet
  /-- What a parser took is a batch of that generator's packets. -/
  batches : ∀ q packets, .took q packets ∈ es →
    packets.length = batch ∧ Each (PacketOf (q % gNums)) packets

/-- What a generator's event says. -/
theorem Owned.generatorEvent_sent (hs : Owned mode gNums pNums numbers s) {i : Nat}
    (hi : i < gNums) {j q : Nat} {packet : PacketT}
    (hevent : PipelineEvent.sent j q packet = generatorEvent s i) :
    j < gNums ∧ Feeds gNums pNums j q ∧ PacketOf j packet := by
  have hown := hs.generatorPc i hi
  unfold generatorEvent at hevent
  split at hevent
  · rename_i parser packet' hpc
    simp only [PipelineEvent.sent.injEq] at hevent
    obtain ⟨rfl, rfl, rfl⟩ := hevent
    rw [hpc] at hown
    exact ⟨hi, hown.2, hown.1⟩
  · exact absurd hevent (by simp)

/-- What a parser's event says. -/
theorem Owned.parserEvent_took (hs : Owned mode gNums pNums numbers s) {q : Nat} (hq : q < pNums)
    {q' : Nat} {packets : List PacketT} (hevent : PipelineEvent.took q' packets = parserEvent s q) :
    packets.length = batch ∧ Each (PacketOf (q' % gNums)) packets := by
  unfold parserEvent at hevent
  split at hevent
  · split at hevent
    · rename_i taken rest hpop
      simp only [PipelineEvent.took.injEq] at hevent
      obtain ⟨rfl, rfl⟩ := hevent
      obtain ⟨hlen, hqueue⟩ := Fifo.pop_eq_some.mp hpop
      have hof := hs.parserQueue q' hq
      rw [hqueue] at hof
      exact ⟨hlen, fun x hx => hof x (List.mem_append_left _ hx)⟩
    · exact absurd hevent (by simp)
  · exact absurd hevent (by simp)

/-- No other thread's event is a send or a batch. -/
theorem parserEvent_ne_sent {q i q' : Nat} {packet : PacketT} :
    PipelineEvent.sent i q' packet ≠ parserEvent s q := by
  unfold parserEvent
  split
  · split <;> simp
  · simp

theorem generatorEvent_ne_took {i q : Nat} {packets : List PacketT} :
    PipelineEvent.took q packets ≠ generatorEvent s i := by
  unfold generatorEvent
  split <;> simp

theorem managerEvent_ne {m : Nat} {now : UInt64} :
    (∀ i q packet, PipelineEvent.sent i q packet ≠ managerEvent cfg s m now)
      ∧ ∀ q packets, PipelineEvent.took q packets ≠ managerEvent cfg s m now := by
  unfold managerEvent
  split
  · split <;> simp
  · simp

/-- **Every step keeps the feeding invariant.** -/
theorem Feeding.step {es : List PipelineEvent} (hf : Feeding mode gNums pNums numbers es s)
    (hg : 0 < gNums) (hle : gNums ≤ pNums) {call : PipelineCall} {e : PipelineEvent}
    (h : ObservedStep mode cfg gNums pNums numbers s call e s') :
    Feeding mode gNums pNums numbers (es ++ [e]) s' := by
  refine ⟨hf.owned.step hg hle h.pipelineStep, ?_, ?_, ?_⟩
  · intro i hi
    rw [targets_snoc]
    have hturn := hf.inTurn i hi
    -- only generator `i` writes its own turn
    cases h with
    | @generator j pipeDepth input s' hj hstep =>
        by_cases hij : i = j
        · rw [hij] at hturn ⊢
          exact hturn.generatorStep hj hle (generatorStep_cases hstep)
        · obtain ⟨hpc, hnext, hevent⟩ := (generatorStep_cases hstep).other hij
          rw [hevent, List.append_nil]
          exact hturn.congr hpc hnext
    | parser _ hstep =>
        obtain ⟨hpc, hnext⟩ := (parserStep_cases hstep).generator_frame
        rw [parserEvent_target, List.append_nil]
        exact hturn.congr (congrFun hpc i) (congrFun hnext i)
    | manager _ hstep =>
        obtain ⟨hpc, hnext⟩ := (managerStep_cases hstep).generator_frame
        rw [managerEvent_target, List.append_nil]
        exact hturn.congr (congrFun hpc i) (congrFun hnext i)
    | cleaned _ _ _ =>
        rw [target_quiet, List.append_nil]
        exact hturn.congr rfl rfl
  · intro i q packet hmem
    rcases List.mem_append.mp hmem with hmem | hmem
    · exact hf.senders i q packet hmem
    · have heq := List.mem_singleton.mp hmem
      -- only a generator's event is a `sent`
      cases h with
      | generator hj _ => exact hf.owned.generatorEvent_sent hj heq
      | parser _ _ => exact absurd heq parserEvent_ne_sent
      | manager _ _ => exact absurd heq (managerEvent_ne.1 i q packet)
      | cleaned _ _ _ => exact absurd heq (by simp)
  · intro q packets hmem
    rcases List.mem_append.mp hmem with hmem | hmem
    · exact hf.batches q packets hmem
    · have heq := List.mem_singleton.mp hmem
      -- and only a parser's a `took`
      cases h with
      | generator _ _ => exact absurd heq generatorEvent_ne_took
      | parser hq _ => exact hf.owned.parserEvent_took hq heq
      | manager _ _ => exact absurd heq (managerEvent_ne.2 q packets)
      | cleaned _ _ _ => exact absurd heq (by simp)

end Steps

/-- **The feeding invariant along a run** from the initial state. -/
theorem feeding_run {mode : Mode} {cfg : Config} {gNums pNums : Nat} {numbers : UInt32}
    (hg : 0 < gNums) (hle : gNums ≤ pNums) {pktlen : UInt32} {handler : PacketT → Nat → UInt8}
    {packets : Nat → Nat → PacketT} {flows : Nat → Nat → FlowItem} {table : Nat → Manager}
    {calls : List PipelineCall} {es : List PipelineEvent} {s : Stages}
    (hrun : (observedPipeline mode cfg gNums pNums numbers).run
      (startStages mode pktlen handler packets flows table) calls = some (s, es)) :
    Feeding mode gNums pNums numbers es s := by
  refine (observedPipeline mode cfg gNums pNums numbers).run_trace_induction
    (fun _ es s => Feeding mode gNums pNums numbers es s) ?_ hrun ?_
  · intro _ es s call s' e hf hstep
    exact hf.step hg hle (observedStep_cases hstep)
  · refine ⟨owned_start numbers hle pktlen handler packets flows table, ?_, ?_, ?_⟩
    · intro i _
      refine ⟨0, rfl, ?_⟩
      show i = lane gNums i (0 % laneSize gNums pNums i)
      unfold lane
      rw [Nat.zero_mod, Nat.mul_zero, Nat.add_zero]
    · intro i q packet hmem
      exact absurd hmem List.not_mem_nil
    · intro q packets hmem
      exact absurd hmem List.not_mem_nil

/-! ## §4. Round robin. -/

/-- **Round-robin feeding**, of the events `es` of a run and its last state. -/
structure RoundRobin (gNums pNums : Nat) (es : List PipelineEvent) (s : Stages) : Prop where
  /-- Generator `i` enqueues to parsers `q < pNums` with `q % gNums = i` only. -/
  lanes : ∀ i, ∀ q ∈ targets i es, i < gNums ∧ q < pNums ∧ q % gNums = i
  /-- It visits its lane cyclically, from parser `i` on. -/
  cyclic : ∀ i < gNums,
    targets i es = turns (lane gNums i) (laneSize gNums pNums i) (targets i es).length
  /-- The lane is all of these parsers. -/
  all : ∀ i < gNums, ∀ q, q < pNums ∧ q % gNums = i ↔
    ∃ c < laneSize gNums pNums i, q = lane gNums i c
  /-- No two of them are ever more than one packet apart. -/
  balanced : ∀ i < gNums, ∀ q q', q < pNums ∧ q % gNums = i → q' < pNums ∧ q' % gNums = i →
    (targets i es).count q ≤ (targets i es).count q' + 1
  /-- No index reaches `pNums`. -/
  bounded : ∀ i < gNums, s.nextThreadId i < pNums ∧ ∀ q ∈ (s.generatorPc i).chosen, q < pNums
  /-- A queue has one sender. -/
  oneSender : ∀ i j q p p', .sent i q p ∈ es → .sent j q p' ∈ es → i = j
  /-- The packets of a batch have one pool, that of the first one: it is the
      pool of the generator they came from. -/
  onePool : ∀ q packets, .took q packets ∈ es → packets.length = batch ∧
    ∀ first rest, packets = first :: rest → first.pool = q % gNums
      ∧ ∀ packet ∈ packets, packet.pool = first.pool ∧ packet.addr.1 = packet.pool
  /-- So it is for the batches parsers are about to return. -/
  returned : ∀ q < pNums, ∀ packets flows,
    s.parserPc q = .returnPackets packets ∨ s.parserPc q = .returnBatch packets flows →
    packets.length = batch ∧ ∀ packet ∈ packets, packet.pool = q % gNums ∧ packet.addr.1 = packet.pool

/-- A target is the parser of a send. -/
theorem sent_of_mem_targets {i q : Nat} {es : List PipelineEvent} (hq : q ∈ targets i es) :
    ∃ packet, PipelineEvent.sent i q packet ∈ es := by
  obtain ⟨e, he, hqe⟩ := List.mem_flatMap.mp hq
  cases e with
  | sent j q' packet =>
      simp only [PipelineEvent.target] at hqe
      split at hqe
      · rename_i hji
        rw [List.mem_singleton] at hqe
        exact ⟨packet, by rw [hqe, ← hji]; exact he⟩
      · exact absurd hqe List.not_mem_nil
  | quiet | took q' packets | inserted m flow outcome now =>
      exact absurd hqe List.not_mem_nil

section Laws

variable {mode : Mode} {gNums pNums : Nat} {numbers : UInt32} {es : List PipelineEvent}
  {s : Stages}

/-- What a generator has sent to are whole turns and the beginning of one. -/
theorem Feeding.turns_eq (hf : Feeding mode gNums pNums numbers es s) {i : Nat} (hi : i < gNums) :
    targets i es = turns (lane gNums i) (laneSize gNums pNums i) (targets i es).length := by
  obtain ⟨n, hsent, _⟩ := hf.inTurn i hi
  cases hpc : s.generatorPc i with
  | sending parser packet =>
      rw [hpc] at hsent
      -- one place is chosen and not sent to: the turn before it is the last one sent
      cases n with
      | zero => exact absurd hsent (by simp [GeneratorPc.chosen, turns])
      | succ n =>
          rw [turns_succ] at hsent
          have hinit := (List.append_inj' hsent rfl).1
          rw [hinit, length_turns]
  | idle | filled packet | returning packet =>
      rw [hpc] at hsent
      have hall : targets i es ++ [] = turns (lane gNums i) (laneSize gNums pNums i) n := hsent
      rw [List.append_nil] at hall
      rw [hall, length_turns]

/-- A parser that is chosen exists. -/
theorem Owned.chosen_lt (hs : Owned mode gNums pNums numbers s) {i : Nat} (hi : i < gNums) {q : Nat}
    (hq : q ∈ (s.generatorPc i).chosen) : q < pNums := by
  have hown := hs.generatorPc i hi
  cases hpc : s.generatorPc i with
  | sending parser packet =>
      rw [hpc] at hown hq
      rw [List.mem_singleton.mp hq]
      exact hown.2.1
  | idle | filled packet | returning packet =>
      rw [hpc] at hq
      exact absurd hq List.not_mem_nil

/-- The batch a parser is about to return is one generator's. -/
theorem Owned.batch_of (hs : Owned mode gNums pNums numbers s) {q : Nat} (hq : q < pNums)
    {packets : List PacketT} {flows : List FlowItem}
    (hpc : s.parserPc q = .returnPackets packets ∨ s.parserPc q = .returnBatch packets flows) :
    packets.length = batch ∧ Each (PacketOf (q % gNums)) packets := by
  have hown := hs.parserPc q hq
  rcases hpc with hpc | hpc
  · rw [hpc] at hown
    exact hown
  · rw [hpc] at hown
    exact ⟨hown.1, hown.2.1⟩

/-- **The feeding invariant is round-robin feeding.** -/
theorem Feeding.roundRobin (hf : Feeding mode gNums pNums numbers es s) (hg : 0 < gNums)
    (hle : gNums ≤ pNums) : RoundRobin gNums pNums es s where
  lanes := by
    intro i q hq
    obtain ⟨packet, hsent⟩ := sent_of_mem_targets hq
    obtain ⟨hi, hfeeds, _⟩ := hf.senders i q packet hsent
    exact ⟨hi, hfeeds⟩
  cyclic := fun i hi => hf.turns_eq hi
  all := fun i hi => feeds_iff hi hle
  balanced := by
    intro i hi q q' hq hq'
    obtain ⟨c, hc, rfl⟩ := (feeds_iff hi hle q).mp hq
    obtain ⟨d, hd, rfl⟩ := (feeds_iff hi hle q').mp hq'
    rw [hf.turns_eq hi]
    exact count_turns_le (fun a _ b _ h => lane_inj hg h) hc hd _
  bounded := fun i hi =>
    ⟨(hf.owned.nextThreadId i hi).1, fun _ hq => hf.owned.chosen_lt hi hq⟩
  oneSender := by
    -- a parser's feeder is a function of the parser
    intro i j q p p' hp hp'
    obtain ⟨_, ⟨_, hi⟩, _⟩ := hf.senders i q p hp
    obtain ⟨_, ⟨_, hj⟩, _⟩ := hf.senders j q p' hp'
    rw [← hi, ← hj]
  onePool := by
    intro q packets htook
    -- every packet is of the pool of the generator that feeds `q`, the first one too
    obtain ⟨hlen, hof⟩ := hf.batches q packets htook
    refine ⟨hlen, ?_⟩
    rintro first rest rfl
    have hfirst := (hof first List.mem_cons_self).2
    refine ⟨hfirst, fun packet hpacket => ?_⟩
    obtain ⟨haddr, hpool⟩ := hof packet hpacket
    exact ⟨hpool.trans hfirst.symm, haddr.trans hpool.symm⟩
  returned := by
    intro q hq packets flows hpc
    obtain ⟨hlen, hof⟩ := hf.owned.batch_of hq hpc
    refine ⟨hlen, fun packet hpacket => ?_⟩
    obtain ⟨haddr, hpool⟩ := hof packet hpacket
    exact ⟨hpool, haddr.trans hpool.symm⟩

end Laws

/-- **Round-robin feeding gives every parser queue one sender and every batch
    one pool**, for every `1 ≤ gNums ≤ pNums`, in every run. -/
theorem pipeline_roundRobin (mode : Mode) (cfg : Config) {gNums pNums : Nat} (numbers : UInt32)
    (hg : 1 ≤ gNums) (hle : gNums ≤ pNums) (pktlen : UInt32) (handler : PacketT → Nat → UInt8)
    (packets : Nat → Nat → PacketT) (flows : Nat → Nat → FlowItem) (table : Nat → Manager)
    {calls : List PipelineCall} {es : List PipelineEvent} {s : Stages}
    (hrun : (observedPipeline mode cfg gNums pNums numbers).run
      (startStages mode pktlen handler packets flows table) calls = some (s, es)) :
    RoundRobin gNums pNums es s :=
  (feeding_run hg hle hrun).roundRobin hg hle

/-- Generator 0 of two, with three parsers, starts with parser 0. -/
theorem firstPacket_roundRobin :
    1 ≤ 2 ∧ 2 ≤ 3 ∧ ∃ calls es s,
      (observedPipeline .generator (Session.sourceConfig 65536 1000) 2 3 1).run oneOfEach calls
        = some (s, es) ∧ targets 0 es = [0] ∧ RoundRobin 2 3 es s := by
  obtain ⟨packet, pool, hpool⟩ : ∃ packet pool, oneOfEach.generatorPool 0 = packet :: pool := by
    apply List.exists_cons_of_length_pos
    rw [oneOfEach, startStages_generatorPool_length]
    decide
  obtain ⟨input, packet', hfill⟩ := exists_fillPacket .generator 0 packet
  have hsent : ∃ s, (observedPipeline .generator (Session.sourceConfig 65536 1000) 2 3 1).run
      oneOfEach (List.replicate 3 (.generator 0 2 input))
        = some (s, [.quiet, .quiet, .sent 0 0 packet']) :=
    observed_sent (s := oneOfEach) Nat.two_pos rfl hpool hfill (by decide) (by decide)
  obtain ⟨s, hrun⟩ := hsent
  exact ⟨by decide, by decide, _, _, s, hrun, rfl,
    pipeline_roundRobin .generator (Session.sourceConfig 65536 1000) 1 (by decide) (by decide) 60
      (fun _ _ => 0) (fun _ _ => blankPacket) (fun _ _ => blankFlow) Session.freshManager hrun⟩

end FreePacket.Pipeline
