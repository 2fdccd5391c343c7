/-
  FreePacket.Pipeline.Steps
  ─────────────────────────
  **WHAT ONE STEP OF THE PIPELINE DOES.**

  `PipelineStep` lists the steps of the three loops with the state each one
  leaves.

  Main results:
    * `pipelineStep_cases` — every step of the machine is one of these.
    * `pipeline_generator_eq_some`, `pipeline_parser_eq_some`, `pipeline_manager_eq_some`,
      `pipeline_clean_eq_some` — which of them a call is.
-/
import FreePacket.Lib.Tally
import FreePacket.Pipeline.Model

namespace FreePacket.Pipeline

open FreePacket.Lib FreePacket.Packet
open FreePacket.Session (Manager Config hashAddItem deleteSession queueCapacity)

/-! ## §1. The steps. -/

/-- The steps of `packet_generator`, generator `i`. -/
inductive GeneratorStep (mode : Mode) (gNums pNums : Nat) (s : Stages) (i : Nat) :
    Stages → Prop where
  | took {packet packet' : PacketT} {pool : List PacketT} {input : Input} :
      s.generatorPc i = .idle → s.generatorPool i = packet :: pool →
      fillPacket mode i packet input = some packet' →
      GeneratorStep mode gNums pNums s i
        { s with generatorPool := Function.update s.generatorPool i pool
                 generatorPc := Function.update s.generatorPc i (.filled packet') }
  | chose {packet : PacketT} :
      s.generatorPc i = .filled packet →
      GeneratorStep mode gNums pNums s i
        { s with
          generatorPc := Function.update s.generatorPc i (.sending (s.nextThreadId i) packet)
          nextThreadId := Function.update s.nextThreadId i
            (if s.nextThreadId i + gNums < pNums then s.nextThreadId i + gNums else i) }
  | kept {packet : PacketT} :
      s.generatorPc i = .filled packet →
      GeneratorStep mode gNums pNums s i
        { s with generatorPc := Function.update s.generatorPc i (.returning packet) }
  | sent {parser : Nat} {packet : PacketT} :
      s.generatorPc i = .sending parser packet →
      GeneratorStep mode gNums pNums s i
        { s with
          parserQueue := Function.update s.parserQueue parser (s.parserQueue parser ++ [packet])
          generatorPc := Function.update s.generatorPc i .idle }
  | returned {packet : PacketT} :
      s.generatorPc i = .returning packet →
      GeneratorStep mode gNums pNums s i
        { s with
          generatorPool := Function.update s.generatorPool packet.pool
            (s.generatorPool packet.pool ++ [packet])
          generatorPc := Function.update s.generatorPc i .idle }

/-- The steps of `packet_parser_loop`, parser `q`. -/
inductive ParserStep (numbers : UInt32) (s : Stages) (q : Nat) : Stages → Prop where
  | took {packets queue : List PacketT} :
      s.parserPc q = .idle → s.parserQueue q = packets ++ queue → packets.length = batch →
      ParserStep numbers s q
        { s with parserQueue := Function.update s.parserQueue q queue
                 parserPc := Function.update s.parserPc q (.taken packets) }
  | wanted {packets : List PacketT} :
      s.parserPc q = .taken packets →
      ParserStep numbers s q
        { s with parserPc := Function.update s.parserPc q (.waitFlows packets) }
  | skipped {packets : List PacketT} :
      s.parserPc q = .taken packets →
      ParserStep numbers s q
        { s with parserPc := Function.update s.parserPc q (.returnPackets packets) }
  | made {packets : List PacketT} {flows pool : List FlowItem} :
      s.parserPc q = .waitFlows packets → s.parserPool q = flows ++ pool →
      flows.length = batch →
      ParserStep numbers s q
        { s with parserPool := Function.update s.parserPool q pool
                 parserPc := Function.update s.parserPc q
                   (.built packets (List.zipWith makeFlowItemTcp flows packets)) }
  | forwarding {packets : List PacketT} {flows : List FlowItem} :
      s.parserPc q = .built packets flows →
      ParserStep numbers s q
        { s with parserPc := Function.update s.parserPc q (.forward flows) }
  | dropping {packets : List PacketT} {flows : List FlowItem} :
      s.parserPc q = .built packets flows →
      ParserStep numbers s q
        { s with parserPc := Function.update s.parserPc q (.returnBatch packets flows) }
  | forwarded {index : Nat} {flow : FlowItem} {rest : List FlowItem} :
      s.parserPc q = .forward (flow :: rest) → index < numbers.toNat →
      ParserStep numbers s q
        { s with
          managerQueue := Function.update s.managerQueue index (s.managerQueue index ++ [flow])
          parserPc := Function.update s.parserPc q (.forward rest) }
  | finished :
      s.parserPc q = .forward [] →
      ParserStep numbers s q { s with parserPc := Function.update s.parserPc q .idle }
  | returnedBatch {first : PacketT} {rest : List PacketT} {flows : List FlowItem} :
      s.parserPc q = .returnBatch (first :: rest) flows →
      ParserStep numbers s q
        { s with
          generatorPool := Function.update s.generatorPool first.pool
            (s.generatorPool first.pool ++ first :: rest)
          parserPc := Function.update s.parserPc q (.returnFlows flows) }
  | returnedFlows {flows : List FlowItem} :
      s.parserPc q = .returnFlows flows →
      ParserStep numbers s q
        { s with parserPool := Function.update s.parserPool q (s.parserPool q ++ flows)
                 parserPc := Function.update s.parserPc q .idle }
  | returnedPackets {first : PacketT} {rest : List PacketT} :
      s.parserPc q = .returnPackets (first :: rest) →
      ParserStep numbers s q
        { s with
          generatorPool := Function.update s.generatorPool first.pool
            (s.generatorPool first.pool ++ first :: rest)
          parserPc := Function.update s.parserPc q .idle }

/-- The steps of `packet_manager_loop`, manager `m`. -/
inductive ManagerStep (s : Stages) (m : Nat) : Stages → Prop where
  | took {flow : FlowItem} {queue : List FlowItem} :
      s.managerPc m = .idle → s.managerQueue m = flow :: queue →
      ManagerStep s m
        { s with managerQueue := Function.update s.managerQueue m queue
                 managerPc := Function.update s.managerPc m (.taken flow) }
  | deep {flow : FlowItem} :
      s.managerPc m = .taken flow →
      ManagerStep s m { s with managerPc := Function.update s.managerPc m (.inserting flow) }
  | shallow {flow : FlowItem} :
      s.managerPc m = .taken flow →
      ManagerStep s m { s with managerPc := Function.update s.managerPc m (.returnPacket flow) }
  | inserted {flow : FlowItem} {table : Manager} :
      s.managerPc m = .inserting flow →
      ManagerStep s m
        { s with table := Function.update s.table m table
                 managerPc := Function.update s.managerPc m (.returnPacket flow) }
  | returnedPacket {flow : FlowItem} :
      s.managerPc m = .returnPacket flow →
      ManagerStep s m
        { s with
          generatorPool := Function.update s.generatorPool flow.packet.pool
            (s.generatorPool flow.packet.pool ++ [flow.packet])
          managerPc := Function.update s.managerPc m (.returnFlow flow) }
  | returnedFlow {flow : FlowItem} :
      s.managerPc m = .returnFlow flow →
      ManagerStep s m
        { s with
          parserPool := Function.update s.parserPool flow.pool (s.parserPool flow.pool ++ [flow])
          managerPc := Function.update s.managerPc m .idle }

/-- **The steps of the pipeline.** -/
inductive PipelineStep (mode : Mode) (gNums pNums : Nat) (numbers : UInt32) (s : Stages) :
    Stages → Prop where
  | generator {i : Nat} {s' : Stages} :
      i < gNums → GeneratorStep mode gNums pNums s i s' →
      PipelineStep mode gNums pNums numbers s s'
  | parser {q : Nat} {s' : Stages} :
      q < pNums → ParserStep numbers s q s' → PipelineStep mode gNums pNums numbers s s'
  | manager {m : Nat} {s' : Stages} :
      m < numbers.toNat → ManagerStep s m s' → PipelineStep mode gNums pNums numbers s s'
  | cleaned {m : Nat} {table : Manager} :
      PipelineStep mode gNums pNums numbers s
        { s with table := Function.update s.table m table }

/-! ## §2. The machine takes no other steps. -/

section Cases

variable {mode : Mode} {cfg : Config} {gNums pNums : Nat} {numbers : UInt32} {s s' : Stages}

theorem returnPackets_eq_some {pool : Nat} {packets : List PacketT}
    (h : s.returnPackets pool packets = some s') :
    s' = { s with generatorPool := Function.update s.generatorPool pool
                     (s.generatorPool pool ++ packets) } := by
  obtain ⟨l, hpush, heq⟩ := Option.map_eq_some_iff.mp h
  rw [← heq, (Fifo.push_eq_some.mp hpush).2]

theorem returnFlows_eq_some {pool : Nat} {flows : List FlowItem}
    (h : s.returnFlows pool flows = some s') :
    s' = { s with parserPool := Function.update s.parserPool pool
                     (s.parserPool pool ++ flows) } := by
  obtain ⟨l, hpush, heq⟩ := Option.map_eq_some_iff.mp h
  rw [← heq, (Fifo.push_eq_some.mp hpush).2]

theorem returnBatch_eq_some {packets : List PacketT} (h : s.returnBatch packets = some s') :
    ∃ first rest, packets = first :: rest ∧ s' =
      { s with generatorPool := Function.update s.generatorPool first.pool
                 (s.generatorPool first.pool ++ first :: rest) } := by
  cases packets with
  | nil => exact absurd h (by simp [Stages.returnBatch])
  | cons first rest => exact ⟨first, rest, rfl, returnPackets_eq_some h⟩

theorem generatorStep_cases {i : Nat} {pipeDepth : Int32} {input : Input}
    (h : generatorStep mode gNums pNums s i pipeDepth input = some s') :
    GeneratorStep mode gNums pNums s i s' := by
  unfold generatorStep at h
  cases hpc : s.generatorPc i with
  | idle =>
      simp only [hpc] at h
      cases hpool : s.generatorPool i with
      | nil =>
          rw [hpool] at h
          exact absurd h (by simp [Fifo.take])
      | cons packet pool =>
          rw [hpool] at h
          -- a collector without a frame (`usleep`) takes no item and makes no step
          obtain ⟨packet', hfill, heq⟩ := Option.map_eq_some_iff.mp h
          rw [← heq]
          exact GeneratorStep.took hpc hpool hfill
  | filled packet =>
      simp only [hpc] at h
      split at h
      · rw [← Option.some.inj h]
        exact GeneratorStep.chose hpc
      · rw [← Option.some.inj h]
        exact GeneratorStep.kept hpc
  | sending parser packet =>
      simp only [hpc] at h
      obtain ⟨queue, hpush, heq⟩ := Option.map_eq_some_iff.mp h
      rw [← heq, (Fifo.push_eq_some.mp hpush).2]
      exact GeneratorStep.sent hpc
  | returning packet =>
      simp only [hpc] at h
      obtain ⟨s₁, hret, heq⟩ := Option.map_eq_some_iff.mp h
      rw [← heq, returnPackets_eq_some hret]
      exact GeneratorStep.returned hpc

theorem parserStep_cases {q : Nat} {pipeDepth : Int32}
    (h : parserStep numbers s q pipeDepth = some s') : ParserStep numbers s q s' := by
  unfold parserStep at h
  cases hpc : s.parserPc q with
  | idle =>
      simp only [hpc] at h
      obtain ⟨⟨packets, queue⟩, hpop, heq⟩ := Option.map_eq_some_iff.mp h
      obtain ⟨hlen, hqueue⟩ := Fifo.pop_eq_some.mp hpop
      rw [← heq]
      exact ParserStep.took hpc hqueue hlen
  | taken packets =>
      simp only [hpc] at h
      split at h
      · rw [← Option.some.inj h]
        exact ParserStep.wanted hpc
      · rw [← Option.some.inj h]
        exact ParserStep.skipped hpc
  | waitFlows packets =>
      simp only [hpc] at h
      obtain ⟨⟨flows, pool⟩, hpop, heq⟩ := Option.map_eq_some_iff.mp h
      obtain ⟨hlen, hpool⟩ := Fifo.pop_eq_some.mp hpop
      rw [← heq]
      exact ParserStep.made hpc hpool hlen
  | built packets flows =>
      simp only [hpc] at h
      split at h
      · rw [← Option.some.inj h]
        exact ParserStep.forwarding hpc
      · rw [← Option.some.inj h]
        exact ParserStep.dropping hpc
  | forward flows =>
      -- the enqueue loop, one flow a step
      cases flows with
      | nil =>
          simp only [hpc] at h
          rw [← Option.some.inj h]
          exact ParserStep.finished hpc
      | cons flow rest =>
          simp only [hpc] at h
          split at h
          · rename_i hnumbers
            obtain ⟨queue, hpush, heq⟩ := Option.map_eq_some_iff.mp h
            rw [← heq, (Fifo.push_eq_some.mp hpush).2]
            exact ParserStep.forwarded hpc (makeHash_lt _ _ _ _ hnumbers)
          · exact absurd h (by simp)
  | returnBatch packets flows =>
      simp only [hpc] at h
      obtain ⟨s₁, hret, heq⟩ := Option.map_eq_some_iff.mp h
      -- the pool is read off the first packet, so the batch is not empty
      obtain ⟨first, rest, hpackets, hs₁⟩ := returnBatch_eq_some hret
      rw [hpackets] at hpc
      rw [← heq, hs₁]
      exact ParserStep.returnedBatch hpc
  | returnFlows flows =>
      simp only [hpc] at h
      obtain ⟨s₁, hret, heq⟩ := Option.map_eq_some_iff.mp h
      rw [← heq, returnFlows_eq_some hret]
      exact ParserStep.returnedFlows hpc
  | returnPackets packets =>
      simp only [hpc] at h
      obtain ⟨s₁, hret, heq⟩ := Option.map_eq_some_iff.mp h
      obtain ⟨first, rest, hpackets, hs₁⟩ := returnBatch_eq_some hret
      rw [hpackets] at hpc
      rw [← heq, hs₁]
      exact ParserStep.returnedPackets hpc

theorem managerStep_cases {m : Nat} {pipeDepth : Int32} {now : UInt64}
    (h : managerStep cfg s m pipeDepth now = some s') : ManagerStep s m s' := by
  unfold managerStep at h
  cases hpc : s.managerPc m with
  | idle =>
      simp only [hpc] at h
      obtain ⟨⟨flow, queue⟩, htake, heq⟩ := Option.map_eq_some_iff.mp h
      rw [← heq]
      exact ManagerStep.took hpc (Fifo.take_eq_some.mp htake)
  | taken flow =>
      simp only [hpc] at h
      split at h
      · rw [← Option.some.inj h]
        exact ManagerStep.deep hpc
      · rw [← Option.some.inj h]
        exact ManagerStep.shallow hpc
  | inserting flow =>
      simp only [hpc] at h
      obtain ⟨r, _, heq⟩ := Option.map_eq_some_iff.mp h
      rw [← heq]
      exact ManagerStep.inserted hpc
  | returnPacket flow =>
      simp only [hpc] at h
      obtain ⟨s₁, hret, heq⟩ := Option.map_eq_some_iff.mp h
      rw [← heq, returnPackets_eq_some hret]
      exact ManagerStep.returnedPacket hpc
  | returnFlow flow =>
      simp only [hpc] at h
      obtain ⟨s₁, hret, heq⟩ := Option.map_eq_some_iff.mp h
      rw [← heq, returnFlows_eq_some hret]
      exact ManagerStep.returnedFlow hpc

/-- A guarded step of one thread. -/
theorem guarded_step_eq_some {p : Prop} [Decidable p] {o : Option Stages} {r : Unit}
    (h : (if p then o.map (fun s' => (s', ())) else none) = some (s', r)) : p ∧ o = some s' := by
  by_cases hp : p
  · rw [if_pos hp] at h
    obtain ⟨s₁, hs₁, heq⟩ := Option.map_eq_some_iff.mp h
    obtain ⟨rfl, -⟩ := Prod.mk.inj heq
    exact ⟨hp, hs₁⟩
  · rw [if_neg hp] at h
    exact absurd h nofun

/-! The call says whose step it is: one lemma a thread. -/

theorem pipeline_generator_eq_some {i : Nat} {pipeDepth : Int32} {input : Input} {r : Unit}
    (h : (pipeline mode cfg gNums pNums numbers).step s (.generator i pipeDepth input)
      = some (s', r)) :
    i < gNums ∧ generatorStep mode gNums pNums s i pipeDepth input = some s' :=
  guarded_step_eq_some h

theorem pipeline_parser_eq_some {q : Nat} {pipeDepth : Int32} {r : Unit}
    (h : (pipeline mode cfg gNums pNums numbers).step s (.parser q pipeDepth) = some (s', r)) :
    q < pNums ∧ parserStep numbers s q pipeDepth = some s' :=
  guarded_step_eq_some h

theorem pipeline_manager_eq_some {m : Nat} {pipeDepth : Int32} {now : UInt64} {r : Unit}
    (h : (pipeline mode cfg gNums pNums numbers).step s (.manager m pipeDepth now)
      = some (s', r)) :
    m < numbers.toNat ∧ managerStep cfg s m pipeDepth now = some s' :=
  guarded_step_eq_some h

theorem pipeline_clean_eq_some {m b : Nat} {now : UInt64} {destoryTime : Int32} {r : Unit}
    (h : (pipeline mode cfg gNums pNums numbers).step s (.clean m b now destoryTime)
      = some (s', r)) :
    (m < numbers.toNat ∧ b < (s.table m).ht.rounds)
      ∧ ∃ table, deleteSession cfg (s.table m) b now destoryTime = some table
        ∧ s' = { s with table := Function.update s.table m table } := by
  by_cases hmb : m < numbers.toNat ∧ b < (s.table m).ht.rounds
  · simp only [pipeline, if_pos hmb] at h
    obtain ⟨table, htable, heq⟩ := Option.map_eq_some_iff.mp h
    obtain ⟨rfl, -⟩ := Prod.mk.inj heq
    exact ⟨hmb, table, htable, rfl⟩
  · simp only [pipeline, if_neg hmb] at h
    exact absurd h nofun

/-- **Every step of the machine is one of these.** -/
theorem pipelineStep_cases {call : PipelineCall} {r : Unit}
    (h : (pipeline mode cfg gNums pNums numbers).step s call = some (s', r)) :
    PipelineStep mode gNums pNums numbers s s' := by
  cases call with
  | generator i pipeDepth input =>
      obtain ⟨hi, hstep⟩ := pipeline_generator_eq_some h
      exact PipelineStep.generator hi (generatorStep_cases hstep)
  | parser q pipeDepth =>
      obtain ⟨hq, hstep⟩ := pipeline_parser_eq_some h
      exact PipelineStep.parser hq (parserStep_cases hstep)
  | manager m pipeDepth now =>
      obtain ⟨hm, hstep⟩ := pipeline_manager_eq_some h
      exact PipelineStep.manager hm (managerStep_cases hstep)
  | clean m b now destoryTime =>
      obtain ⟨-, table, -, rfl⟩ := pipeline_clean_eq_some h
      exact PipelineStep.cleaned

/-! ## §3. The generator's steps, forward. -/

/-- Both modes have an input a packet can be filled from. -/
theorem exists_fillPacket (mode : Mode) (i : Nat) (packet : PacketT) :
    ∃ input packet', fillPacket mode i packet input = some packet' := by
  cases mode with
  | generator => exact ⟨.counters (fun _ => 0), _, rfl⟩
  | collector => exact ⟨.frame (some (fun _ => 0)) 60, _, rfl⟩

theorem step_took {i : Nat} (hi : i < gNums) (hpc : s.generatorPc i = .idle)
    {packet packet' : PacketT} {pool : List PacketT} (hpool : s.generatorPool i = packet :: pool)
    {input : Input} (hfill : fillPacket mode i packet input = some packet') (pipeDepth : Int32) :
    (pipeline mode cfg gNums pNums numbers).step s (.generator i pipeDepth input)
      = some ({ s with generatorPool := Function.update s.generatorPool i pool
                       generatorPc := Function.update s.generatorPc i (.filled packet') }, ()) := by
  simp only [pipeline, generatorStep, hpc, hpool, Fifo.take, hfill, Option.map_some, if_pos hi]

theorem step_chose {i : Nat} (hi : i < gNums) {packet : PacketT}
    (hpc : s.generatorPc i = .filled packet) {pipeDepth : Int32} (hdepth : pipeDepth > 1)
    (input : Input) :
    (pipeline mode cfg gNums pNums numbers).step s (.generator i pipeDepth input)
      = some ({ s with
          generatorPc := Function.update s.generatorPc i (.sending (s.nextThreadId i) packet)
          nextThreadId := Function.update s.nextThreadId i
            (if s.nextThreadId i + gNums < pNums then s.nextThreadId i + gNums else i) }, ()) := by
  simp only [pipeline, generatorStep, hpc, Option.map_some, if_pos hi, if_pos hdepth]

theorem step_sent {i : Nat} (hi : i < gNums) {parser : Nat} {packet : PacketT}
    (hpc : s.generatorPc i = .sending parser packet)
    (hroom : (s.parserQueue parser).length < queueCapacity) (pipeDepth : Int32) (input : Input) :
    (pipeline mode cfg gNums pNums numbers).step s (.generator i pipeDepth input)
      = some ({ s with
          parserQueue := Function.update s.parserQueue parser (s.parserQueue parser ++ [packet])
          generatorPc := Function.update s.generatorPc i .idle }, ()) := by
  have hpush : Fifo.push queueCapacity (s.parserQueue parser) [packet]
      = some (s.parserQueue parser ++ [packet]) := Fifo.push_of_le hroom
  simp only [pipeline, generatorStep, hpc, hpush, Option.map_some, if_pos hi]

/-- **A generator that is not held up sends a packet**: it takes one from its
    pool, chooses the parser, and appends it to the parser's queue. -/
theorem steps_sent (mode : Mode) (cfg : Config) (pNums : Nat) (numbers : UInt32) {i : Nat}
    (hi : i < gNums) (hpc : s.generatorPc i = .idle)
    {packet packet' : PacketT} {pool : List PacketT} (hpool : s.generatorPool i = packet :: pool)
    {input : Input} (hfill : fillPacket mode i packet input = some packet')
    (hroom : (s.parserQueue (s.nextThreadId i)).length < queueCapacity)
    {pipeDepth : Int32} (hdepth : pipeDepth > 1) :
    ∃ s₁ s₂, (pipeline mode cfg gNums pNums numbers).step s (.generator i pipeDepth input)
        = some (s₁, ())
      ∧ s₁.generatorPc i = .filled packet'
      ∧ (pipeline mode cfg gNums pNums numbers).step s₁ (.generator i pipeDepth input)
        = some (s₂, ())
      ∧ s₂.generatorPc i = .sending (s.nextThreadId i) packet'
      ∧ (pipeline mode cfg gNums pNums numbers).step s₂ (.generator i pipeDepth input)
        = some ({ s with
            generatorPool := Function.update s.generatorPool i pool
            generatorPc := Function.update s.generatorPc i .idle
            nextThreadId := Function.update s.nextThreadId i
              (if s.nextThreadId i + gNums < pNums then s.nextThreadId i + gNums else i)
            parserQueue := Function.update s.parserQueue (s.nextThreadId i)
              (s.parserQueue (s.nextThreadId i) ++ [packet']) }, ()) := by
  -- after the first step, and after the second
  let s₁ : Stages :=
    { s with generatorPool := Function.update s.generatorPool i pool
             generatorPc := Function.update s.generatorPc i (.filled packet') }
  let s₂ : Stages :=
    { s₁ with
      generatorPc := Function.update s₁.generatorPc i (.sending (s.nextThreadId i) packet')
      nextThreadId := Function.update s.nextThreadId i
        (if s.nextThreadId i + gNums < pNums then s.nextThreadId i + gNums else i) }
  have hpc₁ : s₁.generatorPc i = .filled packet' := Function.update_self ..
  have hpc₂ : s₂.generatorPc i = .sending (s.nextThreadId i) packet' := Function.update_self ..
  have hsend : (pipeline mode cfg gNums pNums numbers).step s₂ (.generator i pipeDepth input)
      = some ({ s₂ with
          parserQueue := Function.update s.parserQueue (s.nextThreadId i)
            (s.parserQueue (s.nextThreadId i) ++ [packet'])
          generatorPc := Function.update s₂.generatorPc i .idle }, ()) :=
    step_sent (s := s₂) hi hpc₂ hroom pipeDepth input
  have hback : Function.update s₂.generatorPc i .idle = Function.update s.generatorPc i .idle := by
    show Function.update (Function.update (Function.update s.generatorPc i _) i _) i .idle = _
    rw [Function.update_idem, Function.update_idem]
  rw [hback] at hsend
  exact ⟨s₁, s₂, step_took hi hpc hpool hfill pipeDepth, hpc₁, step_chose hi hpc₁ hdepth input,
    hpc₂, hsend⟩

end Cases

end FreePacket.Pipeline
