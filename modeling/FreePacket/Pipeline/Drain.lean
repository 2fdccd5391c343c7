/-
  FreePacket.Pipeline.Drain
  ─────────────────────────
  **THE PIPELINE DRAINS: what is under way is worked off in boundedly many
  steps.**

  Between two packets of the generators every step brings a packet nearer to
  its pool: `Stages.work` adds up how many steps each place is from it, and
  every such step lowers the sum.  Where no step of this kind is left, the
  threads are idle, the managers' queues are empty and every flow item is at
  home; what is not are fewer than `COUNT` packets before each parser.  The
  one way not to get there is a manager that waits for a session
  (`Session.Deadlock`).

  Nobody ever waits in front of a parser's queue: it is as long as the pool
  its packets come from.

  Main results:
    * `work_step` — a step that works off lowers the work.
    * `PipelineInv.queue_room` — `swsr_queue_enqueue` never finds a full queue.
    * `drained_of_stuck` — where nothing is left to work off.
    * `pipeline_drains` — from every reachable state.
-/
import Mathlib.Algebra.BigOperators.Ring.Finset
import FreePacket.Pipeline.Arrival
import FreePacket.Pipeline.Batch

namespace FreePacket.Pipeline

open FreePacket.Lib FreePacket.Packet
open FreePacket.Session (Manager Config WellFormed findList hashAddItem deleteSession
  queueCapacity)

/-! ## §1. Work. -/

/-- **A call that works off what is under way**: any but a generator's next
    packet and the cleaner's. -/
def Stages.WorksOff (s : Stages) : PipelineCall → Prop
  | .generator i _ _ => s.generatorPc i ≠ .idle
  | .parser _ _ | .manager _ _ _ => True
  | .clean _ _ _ _ => False

/-- How far a generator's hands are from empty. -/
def GeneratorPc.work : GeneratorPc → Nat
  | .idle => 0
  | .filled _ => 9
  | .sending _ _ => 8
  | .returning _ => 1

/-- A flow that is forwarded has six steps to go; before that there are those
    of the batch. -/
def ParserPc.work : ParserPc → Nat
  | .idle => 0
  | .taken packets => 6 * packets.length + 5
  | .waitFlows packets => 6 * packets.length + 4
  | .built _ flows => 6 * flows.length + 3
  | .forward flows => 6 * flows.length + 1
  | .returnBatch _ _ => 2
  | .returnFlows _ | .returnPackets _ => 1

def ManagerPc.work : ManagerPc → Nat
  | .idle => 0
  | .taken _ => 4
  | .inserting _ => 3
  | .returnPacket _ => 2
  | .returnFlow _ => 1

/-- **The work under way.** -/
def Stages.work (s : Stages) (gNums pNums mNums : Nat) : Nat :=
  (∑ i ∈ Finset.range gNums, (s.generatorPc i).work)
    + (∑ q ∈ Finset.range pNums, 7 * (s.parserQueue q).length)
    + (∑ q ∈ Finset.range pNums, (s.parserPc q).work)
    + (∑ m ∈ Finset.range mNums, 5 * (s.managerQueue m).length)
    + ∑ m ∈ Finset.range mNums, (s.managerPc m).work

section Work

variable {mode : Mode} {cfg : Config} {gNums pNums : Nat} {numbers : UInt32} {s s' : Stages}

theorem work_generatorStep (hs : Owned mode gNums pNums numbers s) {i : Nat} (hi : i < gNums)
    (hpc : s.generatorPc i ≠ .idle) (h : GeneratorStep mode gNums pNums s i s') (mNums : Nat) :
    s'.work gNums pNums mNums < s.work gNums pNums mNums := by
  have hown := hs.generatorPc i hi
  have hhand := fun (pc : GeneratorPc) (old new : Nat) (hold : (s.generatorPc i).work = old)
    (hnew : pc.work = new) => sum_replace_range hi GeneratorPc.work hold hnew
  cases h with
  | took hidle _ _ => exact absurd hidle hpc
  | @chose packet hpc =>
      have h1 := hhand (.sending (s.nextThreadId i) packet) 9 8 (by rw [hpc]; rfl) rfl
      simp only [Stages.work]
      omega
  | @kept packet hpc =>
      have h1 := hhand (.returning packet) 9 1 (by rw [hpc]; rfl) rfl
      simp only [Stages.work]
      omega
  | @sent parser packet hpc =>
      rw [hpc] at hown
      have h1 := hhand .idle 8 0 (by rw [hpc]; rfl) rfl
      have h2 := sum_update_range hown.2.1 (fun l : List PacketT => 7 * l.length) s.parserQueue
        (s.parserQueue parser ++ [packet])
      simp only [List.length_append, List.length_singleton] at h2
      simp only [Stages.work]
      omega
  | @returned packet hpc =>
      have h1 := hhand .idle 1 0 (by rw [hpc]; rfl) rfl
      simp only [Stages.work]
      omega

theorem work_parserStep {q : Nat} (hq : q < pNums) (h : ParserStep numbers s q s') (gNums : Nat) :
    s'.work gNums pNums numbers.toNat < s.work gNums pNums numbers.toNat := by
  have hhand := fun (pc : ParserPc) (old new : Nat) (hold : (s.parserPc q).work = old)
    (hnew : pc.work = new) => sum_replace_range hq ParserPc.work hold hnew
  cases h with
  | @took packets queue hpc hqueue hlen =>
      -- 64 packets at 7 each leave the queue, and 6 each with 5 more are in the hand
      have h1 := hhand (.taken packets) 0 (6 * packets.length + 5) (by rw [hpc]; rfl) rfl
      have h2 := sum_update_range hq (fun l : List PacketT => 7 * l.length) s.parserQueue queue
      simp only [hqueue, List.length_append] at h2
      unfold batch at hlen
      simp only [Stages.work]
      omega
  | @wanted packets hpc =>
      have h1 := hhand (.waitFlows packets) (6 * packets.length + 5) (6 * packets.length + 4)
        (by rw [hpc]; rfl) rfl
      simp only [Stages.work]
      omega
  | @skipped packets hpc =>
      have h1 := hhand (.returnPackets packets) (6 * packets.length + 5) 1 (by rw [hpc]; rfl) rfl
      simp only [Stages.work]
      omega
  | @made packets flows pool hpc _ _ =>
      have h1 := hhand (.built packets (List.zipWith makeFlowItemTcp flows packets))
        (6 * packets.length + 4) (6 * (List.zipWith makeFlowItemTcp flows packets).length + 3)
        (by rw [hpc]; rfl) rfl
      -- no more flows than packets
      rw [List.length_zipWith] at h1
      simp only [Stages.work]
      omega
  | @forwarding packets flows hpc =>
      have h1 := hhand (.forward flows) (6 * flows.length + 3) (6 * flows.length + 1)
        (by rw [hpc]; rfl) rfl
      simp only [Stages.work]
      omega
  | @dropping packets flows hpc =>
      have h1 := hhand (.returnBatch packets flows) (6 * flows.length + 3) 2 (by rw [hpc]; rfl) rfl
      simp only [Stages.work]
      omega
  | @forwarded index flow rest hpc hindex =>
      have h1 := hhand (.forward rest) (6 * (rest.length + 1) + 1) (6 * rest.length + 1)
        (by rw [hpc]; rfl) rfl
      -- the flow costs 6 in the hand and 5 in the manager's queue
      have h2 := sum_update_range hindex (fun l : List FlowItem => 5 * l.length) s.managerQueue
        (s.managerQueue index ++ [flow])
      simp only [List.length_append, List.length_singleton] at h2
      simp only [Stages.work]
      omega
  | finished hpc =>
      have h1 := hhand .idle 1 0 (by rw [hpc]; rfl) rfl
      simp only [Stages.work]
      omega
  | @returnedBatch first rest flows hpc =>
      have h1 := hhand (.returnFlows flows) 2 1 (by rw [hpc]; rfl) rfl
      simp only [Stages.work]
      omega
  | @returnedFlows flows hpc =>
      have h1 := hhand .idle 1 0 (by rw [hpc]; rfl) rfl
      simp only [Stages.work]
      omega
  | @returnedPackets first rest hpc =>
      have h1 := hhand .idle 1 0 (by rw [hpc]; rfl) rfl
      simp only [Stages.work]
      omega

theorem work_managerStep {m mNums : Nat} (hm : m < mNums) (h : ManagerStep s m s')
    (gNums pNums : Nat) : s'.work gNums pNums mNums < s.work gNums pNums mNums := by
  have hhand := fun (pc : ManagerPc) (old new : Nat) (hold : (s.managerPc m).work = old)
    (hnew : pc.work = new) => sum_replace_range hm ManagerPc.work hold hnew
  cases h with
  | @took flow queue hpc hqueue =>
      have h1 := hhand (.taken flow) 0 4 (by rw [hpc]; rfl) rfl
      have h2 := sum_update_range hm (fun l : List FlowItem => 5 * l.length) s.managerQueue queue
      simp only [hqueue, List.length_cons] at h2
      simp only [Stages.work]
      omega
  | @deep flow hpc =>
      have h1 := hhand (.inserting flow) 4 3 (by rw [hpc]; rfl) rfl
      simp only [Stages.work]
      omega
  | @shallow flow hpc =>
      have h1 := hhand (.returnPacket flow) 4 2 (by rw [hpc]; rfl) rfl
      simp only [Stages.work]
      omega
  | @inserted flow table hpc =>
      have h1 := hhand (.returnPacket flow) 3 2 (by rw [hpc]; rfl) rfl
      simp only [Stages.work]
      omega
  | @returnedPacket flow hpc =>
      have h1 := hhand (.returnFlow flow) 2 1 (by rw [hpc]; rfl) rfl
      simp only [Stages.work]
      omega
  | @returnedFlow flow hpc =>
      have h1 := hhand .idle 1 0 (by rw [hpc]; rfl) rfl
      simp only [Stages.work]
      omega

/-- **A step that works off lowers the work.** -/
theorem work_step (hs : Owned mode gNums pNums numbers s) {call : PipelineCall} {r : Unit}
    (hcall : s.WorksOff call)
    (h : (pipeline mode cfg gNums pNums numbers).step s call = some (s', r)) :
    s'.work gNums pNums numbers.toNat < s.work gNums pNums numbers.toNat := by
  cases call with
  | generator i pipeDepth input =>
      obtain ⟨hi, hstep⟩ := pipeline_generator_eq_some h
      exact work_generatorStep hs hi hcall (generatorStep_cases hstep) _
  | parser q pipeDepth =>
      obtain ⟨hq, hstep⟩ := pipeline_parser_eq_some h
      exact work_parserStep hq (parserStep_cases hstep) _
  | manager m pipeDepth now =>
      obtain ⟨hm, hstep⟩ := pipeline_manager_eq_some h
      exact work_managerStep hm (managerStep_cases hstep) _ _
  | clean m b now destoryTime => exact absurd hcall id

end Work

/-! ## §2. Room and tables. -/

section Room

variable {mode : Mode} {cfg : Config} {gNums pNums : Nat} {numbers : UInt32} {s s' : Stages}

/-- **`swsr_queue_enqueue` never finds a full queue**: the queue has packets
    of the sending generator only, and one of these is in its hand. -/
theorem PipelineInv.queue_room (hs : PipelineInv mode gNums pNums numbers s) {i : Nat}
    (hi : i < gNums) {parser : Nat} {packet : PacketT}
    (hpc : s.generatorPc i = .sending parser packet) :
    (s.parserQueue parser).length < queueCapacity := by
  have hown := hs.owned.generatorPc i hi
  rw [hpc] at hown
  obtain ⟨hof, hq, hfeeds⟩ := hown
  have hqueue := hs.owned.parserQueue parser hq
  rw [hfeeds] at hqueue
  have hall := hs.packets (fun a => a.1 == i)
  rw [total_block_owner hi] at hall
  have hpart := countP_le_total hq s.parserQueue (fun packet => packet.addr.1 == i)
  rw [countP_owner hqueue] at hpart
  have hhand := countP_le_total hi (fun i => (s.generatorPc i).packets)
    (fun packet => packet.addr.1 == i)
  have hone : (s.generatorPc i).packets.countP (fun packet => packet.addr.1 == i) = 1 := by
    rw [hpc]
    exact countP_owner (each_singleton hof)
  simp only [Stages.packetTally] at hall
  omega

/-- Tables between two operations, with a bucket for every key. -/
def TablesReady (cfg : Config) (numbers : UInt32) (s : Stages) : Prop :=
  ∀ m < numbers.toNat, WellFormed cfg.poolSize (s.table m) ∧ 0 < (s.table m).ht.numBuckets.toInt

/-- What a step does to a table: nothing, an insertion, or an expiry. -/
theorem table_step {call : PipelineCall} {r : Unit}
    (h : (pipeline mode cfg gNums pNums numbers).step s call = some (s', r)) (m : Nat) :
    s'.table m = s.table m
      ∨ (∃ flow now out, s.managerPc m = .inserting flow
        ∧ hashAddItem cfg (s.table m) (bucketIndex flow.key (s.table m).ht.size) flow now
          = some (s'.table m, out))
      ∨ ∃ b < (s.table m).ht.rounds, ∃ now destoryTime,
          deleteSession cfg (s.table m) b now destoryTime = some (s'.table m) := by
  cases call with
  | generator i pipeDepth input =>
      obtain ⟨_, hstep⟩ := pipeline_generator_eq_some h
      exact Or.inl (congrFun (generatorStep_cases hstep).table_frame m)
  | parser q pipeDepth =>
      obtain ⟨_, hstep⟩ := pipeline_parser_eq_some h
      exact Or.inl (congrFun (parserStep_cases hstep).table_frame m)
  | manager j pipeDepth now =>
      obtain ⟨_, hstep⟩ := pipeline_manager_eq_some h
      by_cases hpc : ∃ flow, s.managerPc j = .inserting flow
      · obtain ⟨flow, hpc⟩ := hpc
        obtain ⟨table, out, hadd, _, rfl⟩ := managerStep_inserting hpc hstep
        by_cases hmj : m = j
        · rw [hmj]
          refine Or.inr (Or.inl ⟨flow, now, out, hpc, ?_⟩)
          show _ = some (Function.update s.table j table j, out)
          rw [Function.update_self]
          exact hadd
        · exact Or.inl (Function.update_of_ne hmj ..)
      · -- no other step of a manager is one on its table
        refine Or.inl (congrFun ?_ m)
        cases managerStep_cases hstep with
        | inserted hins => exact absurd ⟨_, hins⟩ hpc
        | _ => rfl
  | clean j b now destoryTime =>
      obtain ⟨⟨_, hb⟩, table, hdelete, rfl⟩ := pipeline_clean_eq_some h
      by_cases hmj : m = j
      · rw [hmj]
        refine Or.inr (Or.inr ⟨b, hb, now, destoryTime, ?_⟩)
        show _ = some (Function.update s.table j table j)
        rw [Function.update_self]
        exact hdelete
      · exact Or.inl (Function.update_of_ne hmj ..)

/-- **The tables stay ready.** -/
theorem TablesReady.step (hs : TablesReady cfg numbers s) {call : PipelineCall} {r : Unit}
    (h : (pipeline mode cfg gNums pNums numbers).step s call = some (s', r)) :
    TablesReady cfg numbers s' := by
  intro m hm
  obtain ⟨hw, hpos⟩ := hs m hm
  rcases table_step h m with heq | ⟨flow, now, out, _, hadd⟩ | ⟨b, hb, now, destoryTime, hdelete⟩
  · rw [heq]
    exact ⟨hw, hpos⟩
  · obtain ⟨hb, hcase⟩ := hw.hashAddItem_cases hadd
    have hsame : (s'.table m).ht.numBuckets = (s.table m).ht.numBuckets := by
      generalize s'.table m = t at hcase
      cases hcase <;> rfl
    rw [hsame]
    exact ⟨hw.adds hb hcase, hpos⟩
  · rw [hw.deleteSession_eq hb, Option.some.injEq] at hdelete
    rw [← hdelete]
    exact ⟨hw.swept hb now destoryTime, hpos⟩

end Room

/-! ## §3. Where nothing is left to work off. -/

/-- **Manager `m` waits for a session**: its flow's key has none and none is
    free. -/
def WaitsForSession (s : Stages) (m : Nat) : Prop :=
  ∃ flow, s.managerPc m = .inserting flow ∧ (s.table m).sessionPool = []
    ∧ ∀ node ∈ ((s.table m).bucket
        ((s.table m).slot (bucketIndex flow.key (s.table m).ht.size))).list,
      node.item.key ≠ flow.key

/-- **The drained pipeline**: the threads are idle and the items at home, but
    for less than a batch before each parser. -/
structure Drained (gNums pNums mNums : Nat) (s : Stages) : Prop where
  generatorPc : ∀ i < gNums, s.generatorPc i = .idle
  parserPc : ∀ q < pNums, s.parserPc q = .idle
  managerPc : ∀ m < mNums, s.managerPc m = .idle
  managerQueue : ∀ m < mNums, s.managerQueue m = []
  parserQueue : ∀ q < pNums, (s.parserQueue q).length < batch
  parserPool : ∀ q < pNums, (s.parserPool q).length = queueCapacity
  generatorPool : ∀ i < gNums, (s.generatorPool i).length
    + ∑ q ∈ (Finset.range pNums).filter (fun q => q % gNums = i), (s.parserQueue q).length
    = queueCapacity

section Stuck

variable {mode : Mode} {cfg : Config} {gNums pNums : Nat} {numbers : UInt32} {s : Stages}

/-- No call is left that works off. -/
def Stuck (mode : Mode) (cfg : Config) (gNums pNums : Nat) (numbers : UInt32) (s : Stages) : Prop :=
  ∀ call, s.WorksOff call → (pipeline mode cfg gNums pNums numbers).step s call = none

/-- An enabled step refutes it. -/
theorem Stuck.refuted (h : Stuck mode cfg gNums pNums numbers s) (call : PipelineCall)
    (hcall : s.WorksOff call)
    (hstep : ((pipeline mode cfg gNums pNums numbers).step s call).isSome) : False := by
  rw [h call hcall] at hstep
  exact nomatch hstep

/-- **A manager that is stuck** is idle before an empty queue, or waits for a
    session. -/
theorem Stuck.manager (h : Stuck mode cfg gNums pNums numbers s)
    (hs : PipelineInv mode gNums pNums numbers s) (hg : 0 < gNums)
    (ht : TablesReady cfg numbers s) {m : Nat} (hm : m < numbers.toNat) :
    (s.managerPc m = .idle ∧ s.managerQueue m = []) ∨ WaitsForSession s m := by
  cases hpc : s.managerPc m with
  | idle =>
      refine Or.inl ⟨rfl, ?_⟩
      cases hqueue : s.managerQueue m with
      | nil => rfl
      | cons flow rest =>
          refine (h.refuted (.manager m 0 0) trivial ?_).elim
          simp only [pipeline, managerStep, hpc, hqueue, Fifo.take, if_pos hm]
          rfl
  | taken flow =>
      refine (h.refuted (.manager m 0 0) trivial ?_).elim
      simp only [pipeline, managerStep, hpc, if_pos hm]
      split <;> rfl
  | inserting flow =>
      have hnone := h (.manager m 0 0) trivial
      simp only [pipeline, managerStep, hpc, if_pos hm, Option.map_eq_none_iff] at hnone
      obtain ⟨hw, hpos⟩ := ht m hm
      exact Or.inr ⟨flow, hpc, hw.hashAddItem_eq_none (Session.slot_lt _ hpos _) hnone⟩
  | returnPacket flow =>
      exact (h.refuted (.manager m 0 0) trivial
        (hs.return_enabled hg ⟨hm, Or.inl ⟨flow, hpc⟩⟩)).elim
  | returnFlow flow =>
      exact (h.refuted (.manager m 0 0) trivial
        (hs.return_enabled hg ⟨hm, Or.inr ⟨flow, hpc⟩⟩)).elim

/-- The flows in a parser's hands are its own. -/
theorem ParserOwns.flows {q : Nat} {pc : ParserPc} (h : ParserOwns gNums q pc) :
    Each (FlowOf q) pc.flows := by
  cases pc with
  | idle => exact each_nil
  | taken _ => exact each_nil
  | waitFlows _ => exact each_nil
  | returnPackets _ => exact each_nil
  | built _ _ => exact h.2.2.1
  | forward _ => exact h.2
  | returnBatch _ _ => exact h.2.2
  | returnFlows _ => exact h

/-- And the packets are those of the generator that feeds it. -/
theorem ParserOwns.packets {q : Nat} {pc : ParserPc} (h : ParserOwns gNums q pc) :
    Each (PacketOf (q % gNums)) pc.packets := by
  cases pc with
  | idle => exact each_nil
  | returnFlows _ => exact each_nil
  | taken _ => exact h.2
  | waitFlows _ => exact h.2
  | returnPackets _ => exact h.2
  | built _ _ => exact h.2.1
  | forward _ => exact h.1
  | returnBatch _ _ => exact h.2.1

/-- Items of other owners do not count. -/
theorem countP_otherOwner {q r : Nat} {flows : List FlowItem} (hof : Each (FlowOf r) flows)
    (hne : r ≠ q) : flows.countP (fun flow => flow.addr.1 == q) = 0 := by
  rw [List.countP_eq_zero]
  intro flow hflow heq
  exact hne ((hof flow hflow).1.symm.trans (beq_iff_eq.mp heq))

/-- With the managers idle, a parser without flows in its hands has all of
    them in its pool. -/
theorem PipelineInv.flows_home (hs : PipelineInv mode gNums pNums numbers s)
    (hidle : ∀ m < numbers.toNat, s.managerPc m = .idle ∧ s.managerQueue m = []) {q : Nat}
    (hq : q < pNums) (hpc : (s.parserPc q).flows = []) :
    (s.parserPool q).length = queueCapacity := by
  have hall := hs.flows (fun a => a.1 == q)
  have hpool : total pNums s.parserPool (fun flow => flow.addr.1 == q)
      = (s.parserPool q).length := by
    rw [← countP_flowOwner (hs.owned.parserPool q hq)]
    refine Finset.sum_eq_single_of_mem q (Finset.mem_range.mpr hq) fun r hr hne => ?_
    exact countP_otherOwner (hs.owned.parserPool r (Finset.mem_range.mp hr)) hne
  have hhands : total pNums (fun r => (s.parserPc r).flows) (fun flow => flow.addr.1 == q) = 0 := by
    refine Finset.sum_eq_zero fun r hr => ?_
    by_cases hrq : r = q
    · simp only [hrq, hpc, List.countP_nil]
    · exact countP_otherOwner (hs.owned.parserPc r (Finset.mem_range.mp hr)).flows hrq
  have hqueues : total numbers.toNat s.managerQueue (fun flow => flow.addr.1 == q) = 0 := by
    refine Finset.sum_eq_zero fun m hm => ?_
    rw [(hidle m (Finset.mem_range.mp hm)).2, List.countP_nil]
  have hmanagers : total numbers.toNat (fun m => (s.managerPc m).flows)
      (fun flow => flow.addr.1 == q) = 0 := by
    refine Finset.sum_eq_zero fun m hm => ?_
    simp only [(hidle m (Finset.mem_range.mp hm)).1, ManagerPc.flows, List.countP_nil]
  rw [total_block_owner hq] at hall
  simp only [Stages.flowTally] at hall
  omega

/-- **A parser that is stuck** is idle before less than a batch. -/
theorem Stuck.parser (h : Stuck mode cfg gNums pNums numbers s)
    (hs : PipelineInv mode gNums pNums numbers s) (hg : 0 < gNums) (hnumbers : 0 < numbers.toNat)
    (hidle : ∀ m < numbers.toNat, s.managerPc m = .idle ∧ s.managerQueue m = []) {q : Nat}
    (hq : q < pNums) : s.parserPc q = .idle ∧ (s.parserQueue q).length < batch := by
  cases hpc : s.parserPc q with
  | idle =>
      refine ⟨rfl, ?_⟩
      by_contra hlong
      refine h.refuted (.parser q 0) trivial ?_
      simp only [pipeline, parserStep, hpc, if_pos hq, Fifo.pop_of_le (Nat.le_of_not_lt hlong)]
      rfl
  | taken packets =>
      refine (h.refuted (.parser q 0) trivial ?_).elim
      simp only [pipeline, parserStep, hpc, if_pos hq]
      split <;> rfl
  | waitFlows packets =>
      -- its flows are all at home, so there are 64
      have hhome := hs.flows_home hidle hq (by rw [hpc]; rfl)
      have hmany : batch ≤ (s.parserPool q).length := by
        rw [hhome]
        decide
      refine (h.refuted (.parser q 0) trivial ?_).elim
      simp only [pipeline, parserStep, hpc, if_pos hq, Fifo.pop_of_le hmany]
      rfl
  | built packets flows =>
      refine (h.refuted (.parser q 0) trivial ?_).elim
      simp only [pipeline, parserStep, hpc, if_pos hq]
      split <;> rfl
  | forward flows =>
      refine (h.refuted (.parser q 0) trivial ?_).elim
      cases flows with
      | nil =>
          simp only [pipeline, parserStep, hpc, if_pos hq]
          rfl
      | cons flow rest =>
          -- the queues of the managers are empty
          have hindex : (hashIndex flow.key numbers).toNat < numbers.toNat :=
            makeHash_lt _ _ _ _ hnumbers
          have hempty := (hidle _ hindex).2
          have hroom : (s.managerQueue (hashIndex flow.key numbers).toNat).length + [flow].length
              ≤ queueCapacity := by
            rw [hempty]
            exact Nat.one_le_two_pow (n := 10)
          simp only [pipeline, parserStep, hpc, if_pos hq, if_pos hnumbers, Fifo.push_of_le hroom]
          rfl
  | returnBatch packets flows =>
      exact (h.refuted (.parser q 0) trivial
        (hs.return_enabled hg ⟨hq, Or.inr (Or.inl ⟨packets, flows, hpc⟩)⟩)).elim
  | returnFlows flows =>
      exact (h.refuted (.parser q 0) trivial
        (hs.return_enabled hg ⟨hq, Or.inr (Or.inr ⟨flows, hpc⟩)⟩)).elim
  | returnPackets packets =>
      exact (h.refuted (.parser q 0) trivial
        (hs.return_enabled hg ⟨hq, Or.inl ⟨packets, hpc⟩⟩)).elim

/-- **A generator that is stuck** is idle. -/
theorem Stuck.generator (h : Stuck mode cfg gNums pNums numbers s)
    (hs : PipelineInv mode gNums pNums numbers s) (hg : 0 < gNums) {i : Nat} (hi : i < gNums) :
    s.generatorPc i = .idle := by
  have hbusy : ∀ pc, s.generatorPc i = pc → pc ≠ .idle →
      s.WorksOff (.generator i 0 (.counters fun _ => 0)) := by
    intro pc hpc hne
    show s.generatorPc i ≠ .idle
    rw [hpc]
    exact hne
  cases hpc : s.generatorPc i with
  | idle => rfl
  | filled packet =>
      refine (h.refuted _ (hbusy _ hpc (by simp)) ?_).elim
      simp only [pipeline, generatorStep, hpc, if_pos hi]
      split <;> rfl
  | sending parser packet =>
      have hroom : (s.parserQueue parser).length + [packet].length ≤ queueCapacity :=
        hs.queue_room hi hpc
      refine (h.refuted _ (hbusy _ hpc (by simp)) ?_).elim
      simp only [pipeline, generatorStep, hpc, if_pos hi, Fifo.push_of_le hroom]
      rfl
  | returning packet =>
      exact (h.refuted _ (hbusy _ hpc (by simp)) (hs.return_enabled hg ⟨hi, packet, hpc⟩)).elim

/-- A pool of idle threads has what is not in the queues its generator feeds. -/
theorem PipelineInv.pool_home (hs : PipelineInv mode gNums pNums numbers s)
    (hgenerators : ∀ i < gNums, s.generatorPc i = .idle)
    (hparsers : ∀ q < pNums, s.parserPc q = .idle)
    (hmanagers : ∀ m < numbers.toNat, s.managerPc m = .idle ∧ s.managerQueue m = []) {i : Nat}
    (hi : i < gNums) :
    (s.generatorPool i).length
      + ∑ q ∈ (Finset.range pNums).filter (fun q => q % gNums = i), (s.parserQueue q).length
      = queueCapacity := by
  have hall := hs.packets (fun a => a.1 == i)
  -- items of another owner do not count
  have hother : ∀ {j : Nat} {packets : List PacketT}, (∀ x ∈ packets, x.addr.1 = j) → j ≠ i →
      packets.countP (fun packet => packet.addr.1 == i) = 0 := by
    intro j packets hof hne
    rw [List.countP_eq_zero]
    intro packet hpacket heq
    exact hne ((hof packet hpacket).symm.trans (beq_iff_eq.mp heq))
  have hpool : total gNums s.generatorPool (fun packet => packet.addr.1 == i)
      = (s.generatorPool i).length := by
    have hself : (s.generatorPool i).countP (fun packet => packet.addr.1 == i)
        = (s.generatorPool i).length := by
      rw [List.countP_eq_length]
      intro packet hpacket
      exact beq_iff_eq.mpr (hs.owned.generatorPool i hi packet hpacket).1
    rw [← hself]
    refine Finset.sum_eq_single_of_mem i (Finset.mem_range.mpr hi) fun j hj hne => ?_
    exact hother (fun x hx => (hs.owned.generatorPool j (Finset.mem_range.mp hj) x hx).1) hne
  -- of the queues, those that generator `i` feeds
  have hqueues : total pNums s.parserQueue (fun packet => packet.addr.1 == i)
      = ∑ q ∈ (Finset.range pNums).filter (fun q => q % gNums = i), (s.parserQueue q).length := by
    rw [Finset.sum_filter]
    refine Finset.sum_congr rfl fun q hq => ?_
    have hof := hs.owned.parserQueue q (Finset.mem_range.mp hq)
    by_cases hfeeds : q % gNums = i
    · rw [if_pos hfeeds]
      rw [hfeeds] at hof
      exact countP_owner hof
    · rw [if_neg hfeeds]
      exact hother (fun x hx => (hof x hx).1) hfeeds
  -- and no hand holds anything
  have hhands : total gNums (fun j => (s.generatorPc j).packets)
      (fun packet => packet.addr.1 == i) = 0 := by
    refine Finset.sum_eq_zero fun j hj => ?_
    simp only [hgenerators j (Finset.mem_range.mp hj), GeneratorPc.packets, List.countP_nil]
  have hparser : total pNums (fun q => (s.parserPc q).packets)
      (fun packet => packet.addr.1 == i) = 0 := by
    refine Finset.sum_eq_zero fun q hq => ?_
    simp only [hparsers q (Finset.mem_range.mp hq), ParserPc.packets, List.countP_nil]
  have hflows : total numbers.toNat (fun m => (s.managerQueue m).map FlowItem.packet)
      (fun packet => packet.addr.1 == i) = 0 := by
    refine Finset.sum_eq_zero fun m hm => ?_
    simp only [(hmanagers m (Finset.mem_range.mp hm)).2, List.map_nil, List.countP_nil]
  have hmanager : total numbers.toNat (fun m => (s.managerPc m).packets)
      (fun packet => packet.addr.1 == i) = 0 := by
    refine Finset.sum_eq_zero fun m hm => ?_
    simp only [(hmanagers m (Finset.mem_range.mp hm)).1, ManagerPc.packets, List.countP_nil]
  rw [total_block_owner hi] at hall
  simp only [Stages.packetTally] at hall
  omega

/-- **Where nothing is left to work off** the pipeline is drained, or a
    manager waits for a session. -/
theorem drained_of_stuck (hs : PipelineInv mode gNums pNums numbers s) (hg : 0 < gNums)
    (hnumbers : 0 < numbers.toNat) (ht : TablesReady cfg numbers s)
    (h : Stuck mode cfg gNums pNums numbers s) :
    Drained gNums pNums numbers.toNat s ∨ ∃ m < numbers.toNat, WaitsForSession s m := by
  by_cases hwait : ∃ m < numbers.toNat, WaitsForSession s m
  · exact Or.inr hwait
  have hmanagers : ∀ m < numbers.toNat, s.managerPc m = .idle ∧ s.managerQueue m = [] := by
    intro m hm
    exact (h.manager hs hg ht hm).resolve_right fun hw => hwait ⟨m, hm, hw⟩
  have hparsers := fun q (hq : q < pNums) => h.parser hs hg hnumbers hmanagers hq
  have hgenerators := fun i (hi : i < gNums) => h.generator hs hg hi
  refine Or.inl ⟨hgenerators, fun q hq => (hparsers q hq).1, fun m hm => (hmanagers m hm).1,
    fun m hm => (hmanagers m hm).2, fun q hq => (hparsers q hq).2, ?_, ?_⟩
  · intro q hq
    exact hs.flows_home hmanagers hq (by rw [(hparsers q hq).1]; rfl)
  · intro i hi
    exact hs.pool_home hgenerators (fun q hq => (hparsers q hq).1) hmanagers hi

/-- **A drained pipeline goes on**: a generator that feeds at most 16 parsers
    has packets again. -/
theorem Drained.pool_ge (h : Drained gNums pNums numbers.toNat s) (hle : pNums ≤ 16 * gNums)
    {i : Nat} (hi : i < gNums) : 16 ≤ (s.generatorPool i).length := by
  have hhome := h.generatorPool i hi
  have hqueues : ∑ q ∈ (Finset.range pNums).filter (fun q => q % gNums = i),
      (s.parserQueue q).length
      ≤ ∑ _q ∈ (Finset.range pNums).filter (fun q => q % gNums = i), (batch - 1) := by
    refine Finset.sum_le_sum fun q hq => ?_
    have hshort := h.parserQueue q (Finset.mem_range.mp (Finset.mem_filter.mp hq).1)
    omega
  rw [Finset.sum_const_nat (fun _ _ => rfl)] at hqueues
  have hbound := Nat.mul_le_mul_right (batch - 1) (feeds_card_le hle i)
  unfold batch at hqueues hbound
  unfold queueCapacity at hhome
  omega

end Stuck

/-! ## §4. How much work there can be. -/

section Bound

variable {mode : Mode} {gNums pNums : Nat} {numbers : UInt32} {s : Stages}

theorem GeneratorPc.work_le (pc : GeneratorPc) : pc.work ≤ 9 * pc.packets.length := by
  cases pc <;> simp [GeneratorPc.work, GeneratorPc.packets]

theorem ParserOwns.work_le {q : Nat} {pc : ParserPc} (h : ParserOwns gNums q pc) :
    pc.work ≤ 9 * pc.packets.length + 5 := by
  cases pc with
  | built packets flows =>
      have hlen : flows.length = packets.length := by
        rw [← h.2.2.2, List.length_map]
      show 6 * flows.length + 3 ≤ 9 * packets.length + 5
      omega
  | forward flows =>
      show 6 * flows.length + 1 ≤ 9 * (flows.map FlowItem.packet).length + 5
      rw [List.length_map]
      omega
  | _ =>
      simp only [ParserPc.work, ParserPc.packets]
      omega

theorem ManagerPc.work_le (pc : ManagerPc) : pc.work ≤ 9 * pc.packets.length + 1 := by
  cases pc <;> simp [ManagerPc.work, ManagerPc.packets]

/-- A row of weights is bounded by what the row holds. -/
theorem sum_le_total {β : Type} {n c k : Nat} {F : Nat → List β} {g : Nat → Nat}
    (h : ∀ j < n, g j ≤ k * (F j).length + c) :
    ∑ j ∈ Finset.range n, g j ≤ k * total n F (fun _ => true) + c * n := by
  unfold total
  simp only [List.countP_true]
  calc ∑ j ∈ Finset.range n, g j
      ≤ ∑ j ∈ Finset.range n, (k * (F j).length + c) :=
        Finset.sum_le_sum fun j hj => h j (Finset.mem_range.mp hj)
    _ = k * ∑ j ∈ Finset.range n, (F j).length + c * n := by
        rw [Finset.sum_add_distrib, ← Finset.mul_sum, Finset.sum_const_nat (fun _ _ => rfl),
          Finset.card_range, Nat.mul_comm n c]

/-- **Nine steps a packet**, and a few for what is in the threads' hands. -/
theorem PipelineInv.work_le (hs : PipelineInv mode gNums pNums numbers s) :
    s.work gNums pNums numbers.toNat
      ≤ 9 * (queueCapacity * gNums) + 5 * pNums + numbers.toNat := by
  have hall := hs.packets (fun _ => true)
  have hblocks : total gNums block (fun _ => true) = queueCapacity * gNums := by
    unfold total block
    simp only [List.countP_true, List.length_map, List.length_range]
    rw [Finset.sum_const_nat (fun _ _ => rfl), Finset.card_range, Nat.mul_comm]
  -- an item costs at most 9 wherever it is; a parser at most 5 more, a manager 1
  have h1 := sum_le_total (F := fun i => (s.generatorPc i).packets) (c := 0) (n := gNums)
    (fun i _ => (s.generatorPc i).work_le)
  have h2 : ∑ q ∈ Finset.range pNums, 7 * (s.parserQueue q).length
      ≤ 9 * total pNums s.parserQueue (fun _ => true) + 0 * pNums :=
    sum_le_total fun q _ => by omega
  have h3 : ∑ q ∈ Finset.range pNums, (s.parserPc q).work
      ≤ 9 * total pNums (fun q => (s.parserPc q).packets) (fun _ => true) + 5 * pNums :=
    sum_le_total fun q hq => (hs.owned.parserPc q hq).work_le
  have h4 : ∑ m ∈ Finset.range numbers.toNat, 5 * (s.managerQueue m).length
      ≤ 9 * total numbers.toNat (fun m => (s.managerQueue m).map FlowItem.packet)
          (fun _ => true) + 0 * numbers.toNat :=
    sum_le_total fun m _ => by
      rw [List.length_map]
      omega
  have h5 : ∑ m ∈ Finset.range numbers.toNat, (s.managerPc m).work
      ≤ 9 * total numbers.toNat (fun m => (s.managerPc m).packets) (fun _ => true)
        + 1 * numbers.toNat :=
    sum_le_total fun m _ => (s.managerPc m).work_le
  rw [hblocks] at hall
  simp only [Stages.packetTally] at hall
  unfold Stages.work
  omega

end Bound

/-! ## §5. From every reachable state. -/

/-- **The pipeline drains** from `s`. -/
structure Drains (mode : Mode) (cfg : Config) (gNums pNums : Nat) (numbers : UInt32)
    (s : Stages) : Prop where
  /-- No generator waits in front of a parser's queue. -/
  room : ∀ i < gNums, ∀ parser packet, s.generatorPc i = .sending parser packet →
    (s.parserQueue parser).length < queueCapacity
  /-- In whatever order the threads work off, they take boundedly many steps. -/
  bounded : ∀ calls s' rs,
    (pipeline mode cfg gNums pNums numbers).Along Stages.WorksOff s calls →
    (pipeline mode cfg gNums pNums numbers).run s calls = some (s', rs) →
    calls.length ≤ 9 * (queueCapacity * gNums) + 5 * pNums + numbers.toNat
  /-- And they can go on until nothing is left to work off. -/
  ends : ∃ calls s' rs,
    (pipeline mode cfg gNums pNums numbers).Along Stages.WorksOff s calls
      ∧ (pipeline mode cfg gNums pNums numbers).run s calls = some (s', rs)
      ∧ Stuck mode cfg gNums pNums numbers s'
  /-- Then all is at home, or a manager waits for a session. -/
  drained : ∀ calls s' rs,
    (pipeline mode cfg gNums pNums numbers).Along Stages.WorksOff s calls →
    (pipeline mode cfg gNums pNums numbers).run s calls = some (s', rs) →
    Stuck mode cfg gNums pNums numbers s' →
    (Drained gNums pNums numbers.toNat s'
        ∧ (pNums ≤ 16 * gNums → ∀ i < gNums, 16 ≤ (s'.generatorPool i).length))
      ∨ ∃ m < numbers.toNat, WaitsForSession s' m

section Main

variable {mode : Mode} {cfg : Config} {gNums pNums : Nat} {numbers : UInt32} {s s' : Stages}

/-- A step keeps what the drain needs. -/
theorem drain_step (hg : 0 < gNums) (hle : gNums ≤ pNums) {call : PipelineCall} {r : Unit}
    (h : (pipeline mode cfg gNums pNums numbers).step s call = some (s', r))
    (hs : PipelineInv mode gNums pNums numbers s ∧ TablesReady cfg numbers s) :
    PipelineInv mode gNums pNums numbers s' ∧ TablesReady cfg numbers s' :=
  ⟨hs.1.step hg hle (pipelineStep_cases h), hs.2.step h⟩

/-- **Where owners, accounts and tables are right the pipeline drains.** -/
theorem PipelineInv.drains (hs : PipelineInv mode gNums pNums numbers s)
    (ht : TablesReady cfg numbers s) (hg : 0 < gNums) (hle : gNums ≤ pNums)
    (hnumbers : 0 < numbers.toNat) : Drains mode cfg gNums pNums numbers s := by
  have hlowers : ∀ s call s' r,
      (PipelineInv mode gNums pNums numbers s ∧ TablesReady cfg numbers s) →
      s.WorksOff call → (pipeline mode cfg gNums pNums numbers).step s call = some (s', r) →
      (PipelineInv mode gNums pNums numbers s' ∧ TablesReady cfg numbers s')
        ∧ s'.work gNums pNums numbers.toNat < s.work gNums pNums numbers.toNat := by
    intro s call s' r hs hcall hstep
    exact ⟨drain_step hg hle hstep hs, work_step hs.1.owned hcall hstep⟩
  refine ⟨?_, ?_, ?_, ?_⟩
  · intro i hi parser packet hpc
    exact hs.queue_room hi hpc
  · intro calls s' rs hworks hrun
    have hlen := (Machine.run_length_add_rank_le hlowers hworks hrun ⟨hs, ht⟩).2
    have hwork := hs.work_le
    omega
  · exact Machine.exists_run_to_end hlowers ⟨hs, ht⟩
  · intro calls s' rs hworks hrun hstuck
    obtain ⟨hs', ht'⟩ := (Machine.run_length_add_rank_le hlowers hworks hrun ⟨hs, ht⟩).1
    refine (drained_of_stuck hs' hg hnumbers ht' hstuck).imp_left fun hdrained => ?_
    exact ⟨hdrained, fun hfew i hi => hdrained.pool_ge hfew hi⟩

/-- **THE PIPELINE DRAINS FROM EVERY STATE IT REACHES**, for every
    `1 <= G <= P`, any number of managers and any `pipe_depth` at each read. -/
theorem pipeline_drains (hg : 1 ≤ gNums) (hle : gNums ≤ pNums) (hnumbers : 0 < numbers.toNat)
    (pktlen : UInt32) (handler : PacketT → Nat → UInt8) (packets : Nat → Nat → PacketT)
    (flows : Nat → Nat → FlowItem) (table : Nat → Manager)
    (htable : ∀ m < numbers.toNat,
      WellFormed cfg.poolSize (table m) ∧ 0 < (table m).ht.numBuckets.toInt)
    (h : (pipeline mode cfg gNums pNums numbers).Reaches (fun _ => True)
      (startStages mode pktlen handler packets flows table) s) :
    Drains mode cfg gNums pNums numbers s := by
  have hboth : PipelineInv mode gNums pNums numbers s ∧ TablesReady cfg numbers s :=
    h.induction (fun s => PipelineInv mode gNums pNums numbers s ∧ TablesReady cfg numbers s)
      (fun _ _ _ _ hs _ hstep => drain_step hg hle hstep hs)
      ⟨pipelineInv_start hle pktlen handler packets flows table, htable⟩
  exact hboth.1.drains hboth.2 hg hle hnumbers

end Main

/-- With its first packet taken, one generator with one parser and one manager
    drains. -/
theorem firstPacket_drains :
    ∃ s packet, s.generatorPc 0 = .filled packet
      ∧ Drains .generator (Session.sourceConfig 65536 1000) 1 1 1 s := by
  obtain ⟨s, hs⟩ : ∃ s, s = oneOfEach := ⟨_, rfl⟩
  obtain ⟨packet, pool, hpool⟩ : ∃ packet pool, s.generatorPool 0 = packet :: pool := by
    apply List.exists_cons_of_length_pos
    rw [hs, oneOfEach, startStages_generatorPool_length]
    decide
  obtain ⟨input, filled, hfill⟩ := exists_fillPacket .generator 0 packet
  have hpc : s.generatorPc 0 = .idle := by
    rw [hs, oneOfEach, startStages]
  have hstart : (pipeline .generator (Session.sourceConfig 65536 1000) 1 1 1).Reaches
      (fun _ => True) oneOfEach s := by
    rw [hs]
    exact .refl
  have hreach := hstart.step trivial (step_took Nat.one_pos hpc hpool hfill 2)
  refine ⟨_, filled, ?_, pipeline_drains (le_refl 1) (le_refl 1) (by decide) 60 (fun _ _ => 0)
    (fun _ _ => blankPacket) (fun _ _ => blankFlow) Session.freshManager ?_ hreach⟩
  · show Function.update s.generatorPc 0 (.filled filled) 0 = _
    rw [Function.update_self]
  · intro m _
    have hinit := Session.initSignleManager_fresh 65536 1000 m
    exact ⟨(Session.wellFormed_initSignleManager hinit).1, show (0 : Int) < 2 by decide⟩

end FreePacket.Pipeline
