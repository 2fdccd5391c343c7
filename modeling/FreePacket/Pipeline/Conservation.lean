/-
  FreePacket.Pipeline.Conservation
  ────────────────────────────────
  **BUFFERS ARE CONSERVED through the pipeline.**

  Items move, none is lost and none is doubled, whatever `pipe_depth` a thread
  happens to read.  Since a pool only ever holds items of its owner, and has
  room for all of them, every return finds room at once.

  Main results:
    * `pipelineInv_reaches` — owners and accounts, in every reachable state.
    * `pipeline_conserved` — every buffer in exactly one place, every return
      enabled and to the pool the buffer came from.
-/
import Mathlib.Algebra.BigOperators.Group.Finset.Piecewise
import FreePacket.Pipeline.Accounting

namespace FreePacket.Pipeline

open FreePacket.Lib FreePacket.Packet
open FreePacket.Session (Manager Config queueCapacity)

/-! ## §1. The invariant. -/

/-- The addresses of the items in the block of owner `i`. -/
def block (i : Nat) : List (Nat × Nat) := (List.range queueCapacity).map (fun j => (i, j))

/-- One address occurs once among the blocks. -/
theorem total_block_once {n i j : Nat} (hi : i < n) (hj : j < queueCapacity) :
    total n block (fun a => a == (i, j)) = 1 := by
  have hcount : ∀ k, (block k).countP (fun a => a == (i, j)) = if k = i then 1 else 0 := by
    intro k
    have hnd : (block k).Nodup := by
      apply List.Nodup.map _ List.nodup_range
      intro x y hxy
      exact (Prod.mk.inj hxy).2
    show (block k).count (i, j) = _
    rw [hnd.count]
    have hmem : (i, j) ∈ block k ↔ k = i := by
      unfold block
      simp only [List.mem_map, List.mem_range, Prod.mk.injEq]
      constructor
      · rintro ⟨_, _, hk, _⟩
        exact hk
      · intro hk
        exact ⟨j, hj, hk, rfl⟩
    simp only [hmem]
  unfold total
  simp only [hcount]
  rw [Finset.sum_ite_eq' (Finset.range n) i]
  exact if_pos (Finset.mem_range.mpr hi)

/-- Every owner has as many items as its pool has room for. -/
theorem total_block_owner {n i : Nat} (hi : i < n) :
    total n block (fun a => a.1 == i) = queueCapacity := by
  have hcount : ∀ k, (block k).countP (fun a => a.1 == i) = if k = i then queueCapacity else 0 := by
    intro k
    unfold block
    rw [List.countP_map]
    by_cases hk : k = i
    · rw [if_pos hk, List.countP_eq_length.mpr, List.length_range]
      intro j _
      exact beq_iff_eq.mpr hk
    · rw [if_neg hk, List.countP_eq_zero]
      intro j _ heq
      exact hk (beq_iff_eq.mp heq)
  unfold total
  simp only [hcount]
  rw [Finset.sum_ite_eq' (Finset.range n) i]
  exact if_pos (Finset.mem_range.mpr hi)

/-- **The invariant of the pipeline**: owners, and all items accounted for. -/
structure PipelineInv (mode : Mode) (gNums pNums : Nat) (numbers : UInt32) (s : Stages) :
    Prop where
  owned : Owned mode gNums pNums numbers s
  packets : ∀ f, s.packetTally gNums pNums numbers.toNat f = total gNums block f
  flows : ∀ f, s.flowTally pNums numbers.toNat f = total pNums block f

section Invariant

variable {mode : Mode} {cfg : Config} {gNums pNums : Nat} {numbers : UInt32} {s s' : Stages}

theorem PipelineInv.step (hs : PipelineInv mode gNums pNums numbers s) (hg : 0 < gNums)
    (hle : gNums ≤ pNums) (h : PipelineStep mode gNums pNums numbers s s') :
    PipelineInv mode gNums pNums numbers s' := by
  refine ⟨hs.owned.step hg hle h, ?_, ?_⟩
  · intro f
    rw [packetTally_step hs.owned hg h, hs.packets]
  · intro f
    rw [flowTally_step hs.owned h, hs.flows]

/-- **The invariant in every reachable state.** -/
theorem pipelineInv_reaches {ok : PipelineCall → Prop} (hg : 0 < gNums) (hle : gNums ≤ pNums)
    (hs : PipelineInv mode gNums pNums numbers s)
    (h : (pipeline mode cfg gNums pNums numbers).Reaches ok s s') :
    PipelineInv mode gNums pNums numbers s' :=
  h.induction (PipelineInv mode gNums pNums numbers)
    (fun _ _ _ _ hs _ hstep => hs.step hg hle (pipelineStep_cases hstep)) hs

/-- All items are in their pools at the start. -/
theorem pipelineInv_start (hle : gNums ≤ pNums) (pktlen : UInt32)
    (handler : PacketT → Nat → UInt8) (packets : Nat → Nat → PacketT)
    (flows : Nat → Nat → FlowItem) (table : Nat → Manager) :
    PipelineInv mode gNums pNums numbers
      (startStages mode pktlen handler packets flows table) := by
  refine ⟨owned_start numbers hle pktlen handler packets flows table, ?_, ?_⟩
  · intro f
    have hpool : ∀ i, ((startStages mode pktlen handler packets flows table).generatorPool i).countP
        (fun packet => f packet.addr) = (block i).countP f := by
      intro i
      rw [startStages_generatorPool]
      unfold initSignleGenerator block
      rw [List.map_map, List.countP_map, List.countP_map]
      apply List.countP_congr
      intro j _
      cases mode <;> rfl
    show total gNums (startStages mode pktlen handler packets flows table).generatorPool _
      + total gNums (fun _ => []) _ + total pNums (fun _ => []) _ + total pNums (fun _ => []) _
      + total numbers.toNat (fun _ => []) _ + total numbers.toNat (fun _ => []) _ = _
    simp only [total_nil, Nat.add_zero]
    unfold total
    simp only [hpool]
  · intro f
    have hpool : ∀ q, ((startStages mode pktlen handler packets flows table).parserPool q).countP
        (fun flow => f flow.addr) = (block q).countP f := by
      intro q
      rw [startStages_parserPool]
      unfold initSingleParser block
      rw [List.countP_map, List.countP_map]
      rfl
    show total pNums (startStages mode pktlen handler packets flows table).parserPool _
      + total pNums (fun _ => []) _ + total numbers.toNat (fun _ => []) _
      + total numbers.toNat (fun _ => []) _ = _
    simp only [total_nil, Nat.add_zero]
    unfold total
    simp only [hpool]

/-! ## §2. Room in the pools. -/

/-- **A pool has room for whatever its owner's other items are**: those in one
    more place, counted by `n`, fit beside those already there. -/
theorem PipelineInv.pool_room (hs : PipelineInv mode gNums pNums numbers s) {i n : Nat}
    (hi : i < gNums)
    (hle : total gNums s.generatorPool (fun packet => packet.addr.1 == i) + n
      ≤ s.packetTally gNums pNums numbers.toNat (fun a => a.1 == i)) :
    (s.generatorPool i).length + n ≤ queueCapacity := by
  have hown : (s.generatorPool i).countP (fun packet => packet.addr.1 == i)
      = (s.generatorPool i).length := by
    rw [List.countP_eq_length]
    intro packet hpacket
    exact beq_iff_eq.mpr (hs.owned.generatorPool i hi packet hpacket).1
  have hpart := countP_le_total hi s.generatorPool (fun packet => packet.addr.1 == i)
  rw [hs.packets, total_block_owner hi] at hle
  omega

theorem PipelineInv.flowPool_room (hs : PipelineInv mode gNums pNums numbers s) {q n : Nat}
    (hq : q < pNums)
    (hle : total pNums s.parserPool (fun flow => flow.addr.1 == q) + n
      ≤ s.flowTally pNums numbers.toNat (fun a => a.1 == q)) :
    (s.parserPool q).length + n ≤ queueCapacity := by
  have hown : (s.parserPool q).countP (fun flow => flow.addr.1 == q)
      = (s.parserPool q).length := by
    rw [List.countP_eq_length]
    intro flow hflow
    exact beq_iff_eq.mpr (hs.owned.parserPool q hq flow hflow).1
  have hpart := countP_le_total hq s.parserPool (fun flow => flow.addr.1 == q)
  rw [hs.flows, total_block_owner hq] at hle
  omega

/-- All of a list whose items are of one owner counts. -/
theorem countP_owner {i : Nat} {packets : List PacketT} (hof : Each (PacketOf i) packets) :
    packets.countP (fun packet => packet.addr.1 == i) = packets.length := by
  rw [List.countP_eq_length]
  intro packet hpacket
  exact beq_iff_eq.mpr (hof packet hpacket).1

theorem countP_flowOwner {q : Nat} {flows : List FlowItem} (hof : Each (FlowOf q) flows) :
    flows.countP (fun flow => flow.addr.1 == q) = flows.length := by
  rw [List.countP_eq_length]
  intro flow hflow
  exact beq_iff_eq.mpr (hof flow hflow).1

theorem returnPackets_isSome {pool : Nat} {packets : List PacketT}
    (hroom : (s.generatorPool pool).length + packets.length ≤ queueCapacity) :
    (s.returnPackets pool packets).isSome := by
  unfold Stages.returnPackets
  rw [Fifo.push_of_le hroom]
  rfl

theorem returnFlows_isSome {pool : Nat} {flows : List FlowItem}
    (hroom : (s.parserPool pool).length + flows.length ≤ queueCapacity) :
    (s.returnFlows pool flows).isSome := by
  unfold Stages.returnFlows
  rw [Fifo.push_of_le hroom]
  rfl

/-- A generator finds room for the packet in its hand. -/
theorem PipelineInv.generator_return (hs : PipelineInv mode gNums pNums numbers s) {i : Nat}
    (hi : i < gNums) {packet : PacketT} (hpc : s.generatorPc i = .returning packet) :
    (s.returnPackets packet.pool [packet]).isSome := by
  have hown := hs.owned.generatorPc i hi
  rw [hpc] at hown
  have hpool : packet.pool = i := hown.2
  rw [hpool]
  apply returnPackets_isSome
  apply hs.pool_room hi
  have hhand := countP_le_total hi (fun i => (s.generatorPc i).packets)
    (fun packet => packet.addr.1 == i)
  have hcount : (s.generatorPc i).packets.countP (fun packet => packet.addr.1 == i)
      = [packet].length := by
    rw [hpc]
    exact countP_owner (each_singleton hown)
  simp only [Stages.packetTally]
  omega

/-- A parser finds room for a batch. -/
theorem PipelineInv.batch_return (hs : PipelineInv mode gNums pNums numbers s) (hg : 0 < gNums)
    {q : Nat} (hq : q < pNums) {packets : List PacketT} (hlen : packets.length = batch)
    (hof : Each (PacketOf (q % gNums)) packets) (hpc : (s.parserPc q).packets = packets) :
    (s.returnBatch packets).isSome := by
  have howner : q % gNums < gNums := Nat.mod_lt q hg
  cases packets with
  | nil => exact absurd hlen (by decide)
  | cons first rest =>
      have hpool : first.pool = q % gNums := (hof first List.mem_cons_self).2
      show (s.returnPackets first.pool (first :: rest)).isSome
      rw [hpool]
      apply returnPackets_isSome
      apply hs.pool_room howner
      have hhand := countP_le_total hq (fun q => (s.parserPc q).packets)
        (fun packet => packet.addr.1 == q % gNums)
      have hcount : (s.parserPc q).packets.countP (fun packet => packet.addr.1 == q % gNums)
          = (first :: rest).length := by
        rw [hpc]
        exact countP_owner hof
      simp only [Stages.packetTally]
      omega

/-- A parser finds room for the flows of a batch. -/
theorem PipelineInv.flows_return (hs : PipelineInv mode gNums pNums numbers s) {q : Nat}
    (hq : q < pNums) {flows : List FlowItem} (hpc : s.parserPc q = .returnFlows flows) :
    (s.returnFlows q flows).isSome := by
  have hown := hs.owned.parserPc q hq
  rw [hpc] at hown
  apply returnFlows_isSome
  apply hs.flowPool_room hq
  have hhand := countP_le_total hq (fun q => (s.parserPc q).flows) (fun flow => flow.addr.1 == q)
  have hcount : (s.parserPc q).flows.countP (fun flow => flow.addr.1 == q) = flows.length := by
    rw [hpc]
    exact countP_flowOwner hown
  simp only [Stages.flowTally]
  omega

/-- A manager finds room for the packet and for the flow. -/
theorem PipelineInv.manager_packet_return (hs : PipelineInv mode gNums pNums numbers s)
    (hg : 0 < gNums) {m : Nat} (hm : m < numbers.toNat) {flow : FlowItem}
    (hpc : s.managerPc m = .returnPacket flow) :
    (s.returnPackets flow.packet.pool [flow.packet]).isSome := by
  have hown := hs.owned.managerPc m hm
  rw [hpc] at hown
  obtain ⟨q, hq, _, hpacket⟩ := hown
  have howner : q % gNums < gNums := Nat.mod_lt q hg
  rw [hpacket.2]
  apply returnPackets_isSome
  apply hs.pool_room howner
  have hhand := countP_le_total hm (fun m => (s.managerPc m).packets)
    (fun packet => packet.addr.1 == q % gNums)
  have hcount : (s.managerPc m).packets.countP (fun packet => packet.addr.1 == q % gNums)
      = [flow.packet].length := by
    rw [hpc]
    exact countP_owner (each_singleton hpacket)
  simp only [Stages.packetTally]
  omega

theorem PipelineInv.manager_flow_return (hs : PipelineInv mode gNums pNums numbers s) {m : Nat}
    (hm : m < numbers.toNat) {flow : FlowItem} (hpc : s.managerPc m = .returnFlow flow) :
    (s.returnFlows flow.pool [flow]).isSome := by
  have hown := hs.owned.managerPc m hm
  rw [hpc] at hown
  obtain ⟨q, hq, hflow, _⟩ := hown
  rw [hflow.2]
  apply returnFlows_isSome
  apply hs.flowPool_room hq
  have hhand := countP_le_total hm (fun m => (s.managerPc m).flows) (fun flow => flow.addr.1 == q)
  have hcount : (s.managerPc m).flows.countP (fun flow => flow.addr.1 == q) = [flow].length := by
    rw [hpc]
    exact countP_flowOwner (each_singleton hflow)
  simp only [Stages.flowTally]
  omega

/-! ## §3. Conservation. -/

/-- The thread of this call is at a return to a pool. -/
def Stages.AtReturn (s : Stages) (gNums pNums mNums : Nat) : PipelineCall → Prop
  | .generator i _ _ => i < gNums ∧ ∃ packet, s.generatorPc i = .returning packet
  | .parser q _ => q < pNums ∧
      ((∃ packets, s.parserPc q = .returnPackets packets)
        ∨ (∃ packets flows, s.parserPc q = .returnBatch packets flows)
        ∨ ∃ flows, s.parserPc q = .returnFlows flows)
  | .manager m _ _ => m < mNums ∧
      ((∃ flow, s.managerPc m = .returnPacket flow) ∨ ∃ flow, s.managerPc m = .returnFlow flow)
  | .clean _ _ _ _ => False

/-- Some thread is about to return these packets to the pool of this generator. -/
inductive Stages.PacketReturn (s : Stages) (gNums pNums mNums : Nat) :
    Nat → List PacketT → Prop where
  | generator {i : Nat} {packet : PacketT} :
      i < gNums → s.generatorPc i = .returning packet →
      PacketReturn s gNums pNums mNums packet.pool [packet]
  | parser {q : Nat} {first : PacketT} {rest : List PacketT} :
      q < pNums → s.parserPc q = .returnPackets (first :: rest) →
      PacketReturn s gNums pNums mNums first.pool (first :: rest)
  | parserBatch {q : Nat} {first : PacketT} {rest : List PacketT} {flows : List FlowItem} :
      q < pNums → s.parserPc q = .returnBatch (first :: rest) flows →
      PacketReturn s gNums pNums mNums first.pool (first :: rest)
  | manager {m : Nat} {flow : FlowItem} :
      m < mNums → s.managerPc m = .returnPacket flow →
      PacketReturn s gNums pNums mNums flow.packet.pool [flow.packet]

/-- Some thread is about to return these flow items to the pool of this parser. -/
inductive Stages.FlowReturn (s : Stages) (pNums mNums : Nat) : Nat → List FlowItem → Prop where
  | parser {q : Nat} {flows : List FlowItem} :
      q < pNums → s.parserPc q = .returnFlows flows → FlowReturn s pNums mNums q flows
  | manager {m : Nat} {flow : FlowItem} :
      m < mNums → s.managerPc m = .returnFlow flow →
      FlowReturn s pNums mNums flow.pool [flow]

/-- What is conserved in the pipeline. -/
structure Conserved (mode : Mode) (cfg : Config) (gNums pNums : Nat) (numbers : UInt32)
    (s : Stages) : Prop where
  /-- Each packet buffer is in one place. -/
  packet_once : ∀ i < gNums, ∀ j < queueCapacity,
    s.packetTally gNums pNums numbers.toNat (fun a => a == (i, j)) = 1
  /-- Each flow item is in one place. -/
  flow_once : ∀ q < pNums, ∀ j < queueCapacity,
    s.flowTally pNums numbers.toNat (fun a => a == (q, j)) = 1
  /-- A pool holds items of its owner only. -/
  packet_home : ∀ i < gNums, ∀ packet ∈ s.generatorPool i, packet.addr.1 = i
  flow_home : ∀ q < pNums, ∀ flow ∈ s.parserPool q, flow.addr.1 = q
  /-- A return never finds its pool full. -/
  return_enabled : ∀ call, s.AtReturn gNums pNums numbers.toNat call →
    ((pipeline mode cfg gNums pNums numbers).step s call).isSome
  /-- What is returned goes to its owner, all of a batch. -/
  packet_return : ∀ pool packets, s.PacketReturn gNums pNums numbers.toNat pool packets →
    ∀ packet ∈ packets, packet.addr.1 = pool
  flow_return : ∀ pool flows, s.FlowReturn pNums numbers.toNat pool flows →
    ∀ flow ∈ flows, flow.addr.1 = pool

/-- An enabled return is an enabled step. -/
theorem map_step_isSome {o : Option Stages} (h : o.isSome) (f : Stages → Stages) :
    ((o.map f).map (fun s' => (s', ()))).isSome := by
  rw [Option.isSome_map, Option.isSome_map]
  exact h

theorem PipelineInv.return_enabled (hs : PipelineInv mode gNums pNums numbers s)
    (hg : 0 < gNums) {call : PipelineCall} (h : s.AtReturn gNums pNums numbers.toNat call) :
    ((pipeline mode cfg gNums pNums numbers).step s call).isSome := by
  cases call with
  | generator i pipeDepth input =>
      obtain ⟨hi, packet, hpc⟩ := h
      simp only [pipeline, generatorStep, hpc, if_pos hi]
      exact map_step_isSome (hs.generator_return hi hpc) _
  | parser q pipeDepth =>
      obtain ⟨hq, hreturn⟩ := h
      have hown := hs.owned.parserPc q hq
      rcases hreturn with ⟨packets, hpc⟩ | ⟨packets, flows, hpc⟩ | ⟨flows, hpc⟩
      · rw [hpc] at hown
        simp only [pipeline, parserStep, hpc, if_pos hq]
        exact map_step_isSome (hs.batch_return hg hq hown.1 hown.2 (by rw [hpc]; rfl)) _
      · rw [hpc] at hown
        simp only [pipeline, parserStep, hpc, if_pos hq]
        exact map_step_isSome (hs.batch_return hg hq hown.1 hown.2.1 (by rw [hpc]; rfl)) _
      · simp only [pipeline, parserStep, hpc, if_pos hq]
        exact map_step_isSome (hs.flows_return hq hpc) _
  | manager m pipeDepth now =>
      obtain ⟨hm, hreturn⟩ := h
      rcases hreturn with ⟨flow, hpc⟩ | ⟨flow, hpc⟩
      · simp only [pipeline, managerStep, hpc, if_pos hm]
        exact map_step_isSome (hs.manager_packet_return hg hm hpc) _
      · simp only [pipeline, managerStep, hpc, if_pos hm]
        exact map_step_isSome (hs.manager_flow_return hm hpc) _
  | clean m b now destoryTime => exact absurd h id

/-- **A batch has one owner**, and so has everything else a thread returns. -/
theorem Owned.packet_return (hs : Owned mode gNums pNums numbers s) {pool : Nat}
    {packets : List PacketT} (h : s.PacketReturn gNums pNums numbers.toNat pool packets) :
    ∀ packet ∈ packets, packet.addr.1 = pool := by
  have hbatch : ∀ {i : Nat} {first : PacketT} {rest : List PacketT},
      Each (PacketOf i) (first :: rest) → ∀ packet ∈ first :: rest, packet.addr.1 = first.pool := by
    intro i first rest hof packet hpacket
    rw [(hof first List.mem_cons_self).2]
    exact (hof packet hpacket).1
  cases h with
  | @generator i packet hi hpc =>
      have hown := hs.generatorPc i hi
      rw [hpc] at hown
      exact hbatch (each_singleton hown)
  | @parser q first rest hq hpc =>
      have hown := hs.parserPc q hq
      rw [hpc] at hown
      exact hbatch hown.2
  | @parserBatch q first rest flows hq hpc =>
      have hown := hs.parserPc q hq
      rw [hpc] at hown
      exact hbatch hown.2.1
  | @manager m flow hm hpc =>
      have hown := hs.managerPc m hm
      rw [hpc] at hown
      obtain ⟨_, _, _, hpacket⟩ := hown
      exact hbatch (each_singleton hpacket)

theorem Owned.flow_return (hs : Owned mode gNums pNums numbers s) {pool : Nat}
    {flows : List FlowItem} (h : s.FlowReturn pNums numbers.toNat pool flows) :
    ∀ flow ∈ flows, flow.addr.1 = pool := by
  intro flow hflow
  cases h with
  | @parser q flows hq hpc =>
      have hown := hs.parserPc pool hq
      rw [hpc] at hown
      exact (hown flow hflow).1
  | @manager m flow' hm hpc =>
      have hown := hs.managerPc m hm
      rw [hpc] at hown
      obtain ⟨_, _, hof, _⟩ := hown
      rw [List.mem_singleton.mp hflow, hof.1, hof.2]

/-- **The invariant is conservation.** -/
theorem PipelineInv.conserved (hs : PipelineInv mode gNums pNums numbers s) (hg : 0 < gNums) :
    Conserved mode cfg gNums pNums numbers s := by
  refine ⟨?_, ?_, ?_, ?_, ?_, ?_, ?_⟩
  · intro i hi j hj
    rw [hs.packets]
    exact total_block_once hi hj
  · intro q hq j hj
    rw [hs.flows]
    exact total_block_once hq hj
  · intro i hi packet hpacket
    exact (hs.owned.generatorPool i hi packet hpacket).1
  · intro q hq flow hflow
    exact (hs.owned.parserPool q hq flow hflow).1
  · intro call h
    exact hs.return_enabled hg h
  · intro pool packets h
    exact hs.owned.packet_return h
  · intro pool flows h
    exact hs.owned.flow_return h

end Invariant

/-! ## §4. Runs of the pipeline. -/

/-- **BUFFER CONSERVATION**: in every state the pipeline reaches, for every
    `1 <= G <= P`, any number of managers and any `pipe_depth` at each read. -/
theorem pipeline_conserved {mode : Mode} {cfg : Config} {gNums pNums : Nat} {numbers : UInt32}
    (hg : 1 ≤ gNums) (hle : gNums ≤ pNums) (pktlen : UInt32) (handler : PacketT → Nat → UInt8)
    (packets : Nat → Nat → PacketT) (flows : Nat → Nat → FlowItem) (table : Nat → Manager)
    {s : Stages}
    (h : (pipeline mode cfg gNums pNums numbers).Reaches (fun _ => True)
      (startStages mode pktlen handler packets flows table) s) :
    Conserved mode cfg gNums pNums numbers s :=
  (pipelineInv_reaches hg hle
    (pipelineInv_start hle pktlen handler packets flows table) h).conserved hg

/-- One generator, one parser and one manager, every item blank at first. -/
def oneOfEach : Stages :=
  startStages .generator 60 (fun _ _ => 0) (fun _ _ => blankPacket) (fun _ _ => blankFlow)
    Session.freshManager

/-- The buffers are conserved when the generator has taken its first one. -/
theorem firstPacket_conserved :
    ∃ s packet, s.generatorPc 0 = .filled packet
      ∧ Conserved .generator (Session.sourceConfig 65536 1000) 1 1 1 s := by
  obtain ⟨s, hs⟩ : ∃ s, s = oneOfEach := ⟨_, rfl⟩
  obtain ⟨packet, pool, hpool⟩ : ∃ packet pool, s.generatorPool 0 = packet :: pool := by
    apply List.exists_cons_of_length_pos
    rw [hs, oneOfEach, startStages_generatorPool_length]
    decide
  obtain ⟨input, filled, hfill⟩ := exists_fillPacket .generator 0 packet
  have hpc : s.generatorPc 0 = .idle := by
    rw [hs, oneOfEach, startStages]
  have hstart : (pipeline .generator (Session.sourceConfig 65536 1000) 1 1 1).Reaches
      (fun _ => True) oneOfEach s := by
    rw [hs]
    exact .refl
  have hreach := hstart.step trivial (step_took Nat.one_pos hpc hpool hfill 2)
  refine ⟨_, filled, ?_, pipeline_conserved (le_refl 1) (le_refl 1) 60 (fun _ _ => 0)
    (fun _ _ => blankPacket) (fun _ _ => blankFlow) Session.freshManager hreach⟩
  show Function.update s.generatorPc 0 (.filled filled) 0 = _
  rw [Function.update_self]

end FreePacket.Pipeline
