/-
  FreePacket.Pipeline.Events
  ──────────────────────────
  **WHAT CAN BE SEEN OF A RUN of the pipeline.**

  Three steps leave a trace: a generator hands a packet to a parser, a parser
  takes a batch off its queue, a manager calls `hash_add_item`.
  `observedPipeline` is the pipeline that answers each step with its event;
  it has the runs of the pipeline (`observed_run_iff`).
-/
import FreePacket.Pipeline.Ownership

namespace FreePacket.Pipeline

open FreePacket.Lib FreePacket.Packet
open FreePacket.Session (Manager Config Outcome hashAddItem deleteSession queueCapacity)

/-! ## §1. Events. -/

/-- What is seen of one step. -/
inductive PipelineEvent where
  | quiet
  /-- Generator `i` enqueued `packet` to parser `q`. -/
  | sent (i q : Nat) (packet : PacketT)
  /-- Parser `q` took `packets` off its queue. -/
  | took (q : Nat) (packets : List PacketT)
  /-- Manager `m` called `hash_add_item` with `flow`, at clock `now`. -/
  | inserted (m : Nat) (flow : FlowItem) (outcome : Outcome) (now : UInt64)

def generatorEvent (s : Stages) (i : Nat) : PipelineEvent :=
  match s.generatorPc i with
  | .sending parser packet => .sent i parser packet
  | _ => .quiet

def parserEvent (s : Stages) (q : Nat) : PipelineEvent :=
  match s.parserPc q with
  | .idle =>
      match Fifo.pop batch (s.parserQueue q) with
      | some (packets, _) => .took q packets
      | none => .quiet
  | _ => .quiet

def managerEvent (cfg : Config) (s : Stages) (m : Nat) (now : UInt64) : PipelineEvent :=
  match s.managerPc m with
  | .inserting flow =>
      match hashAddItem cfg (s.table m) (bucketIndex flow.key (s.table m).ht.size) flow now with
      | some (_, outcome) => .inserted m flow outcome now
      | none => .quiet
  | _ => .quiet

/-- The event of a call that gets through in state `s`. -/
def pipelineEvent (cfg : Config) (s : Stages) : PipelineCall → PipelineEvent
  | .generator i _ _ => generatorEvent s i
  | .parser q _ => parserEvent s q
  | .manager m _ now => managerEvent cfg s m now
  | .clean _ _ _ _ => .quiet

/-- **The observed pipeline.** -/
def observedPipeline (mode : Mode) (cfg : Config) (gNums pNums : Nat) (numbers : UInt32) :
    Machine Stages PipelineCall PipelineEvent :=
  (pipeline mode cfg gNums pNums numbers).observe (pipelineEvent cfg)

/-! ## §2. Projections of an event list. -/

/-- The parser an event of generator `i` names. -/
def PipelineEvent.target (i : Nat) : PipelineEvent → List Nat
  | .sent j q _ => if j = i then [q] else []
  | _ => []

@[simp] theorem target_quiet (i : Nat) : PipelineEvent.quiet.target i = [] := rfl

/-- The parsers generator `i` enqueued to, in order. -/
def targets (i : Nat) (es : List PipelineEvent) : List Nat := es.flatMap (PipelineEvent.target i)

theorem targets_snoc (i : Nat) (es : List PipelineEvent) (e : PipelineEvent) :
    targets i (es ++ [e]) = targets i es ++ e.target i := by
  unfold targets
  rw [List.flatMap_append, List.flatMap_singleton]

/-! ## §3. Steps and their events. -/

section Steps

variable {mode : Mode} {cfg : Config} {gNums pNums : Nat} {numbers : UInt32} {s s' : Stages}

/-- **The runs of the pipeline, with what is seen of them.** -/
theorem observed_run_iff {calls : List PipelineCall} :
    (∃ es, (observedPipeline mode cfg gNums pNums numbers).run s calls = some (s', es))
      ↔ ∃ rs, (pipeline mode cfg gNums pNums numbers).run s calls = some (s', rs) :=
  (pipeline mode cfg gNums pNums numbers).observe_run_iff (pipelineEvent cfg)

/-- What an observed step is, by the thread that moves. -/
inductive ObservedStep (mode : Mode) (cfg : Config) (gNums pNums : Nat) (numbers : UInt32)
    (s : Stages) : PipelineCall → PipelineEvent → Stages → Prop where
  | generator {i : Nat} {pipeDepth : Int32} {input : Input} {s' : Stages} :
      i < gNums → generatorStep mode gNums pNums s i pipeDepth input = some s' →
      ObservedStep mode cfg gNums pNums numbers s (.generator i pipeDepth input)
        (generatorEvent s i) s'
  | parser {q : Nat} {pipeDepth : Int32} {s' : Stages} :
      q < pNums → parserStep numbers s q pipeDepth = some s' →
      ObservedStep mode cfg gNums pNums numbers s (.parser q pipeDepth) (parserEvent s q) s'
  | manager {m : Nat} {pipeDepth : Int32} {now : UInt64} {s' : Stages} :
      m < numbers.toNat → managerStep cfg s m pipeDepth now = some s' →
      ObservedStep mode cfg gNums pNums numbers s (.manager m pipeDepth now)
        (managerEvent cfg s m now) s'
  | cleaned {m b : Nat} {now : UInt64} {destoryTime : Int32} {table : Manager} :
      m < numbers.toNat → b < (s.table m).ht.rounds →
      deleteSession cfg (s.table m) b now destoryTime = some table →
      ObservedStep mode cfg gNums pNums numbers s (.clean m b now destoryTime) .quiet
        { s with table := Function.update s.table m table }

theorem observedStep_cases {call : PipelineCall} {e : PipelineEvent}
    (h : (observedPipeline mode cfg gNums pNums numbers).step s call = some (s', e)) :
    ObservedStep mode cfg gNums pNums numbers s call e s' := by
  obtain ⟨⟨r, hstep⟩, rfl⟩ :=
    ((pipeline mode cfg gNums pNums numbers).observe_step_eq_some (pipelineEvent cfg)).mp h
  cases call with
  | generator i pipeDepth input =>
      obtain ⟨hi, hgen⟩ := pipeline_generator_eq_some hstep
      exact ObservedStep.generator hi hgen
  | parser q pipeDepth =>
      obtain ⟨hq, hparse⟩ := pipeline_parser_eq_some hstep
      exact ObservedStep.parser hq hparse
  | manager m pipeDepth now =>
      obtain ⟨hm, hmanage⟩ := pipeline_manager_eq_some hstep
      exact ObservedStep.manager hm hmanage
  | clean m b now destoryTime =>
      obtain ⟨⟨hm, hb⟩, table, htable, rfl⟩ := pipeline_clean_eq_some hstep
      exact ObservedStep.cleaned hm hb htable

/-- An observed step is a step. -/
theorem ObservedStep.pipelineStep {call : PipelineCall} {e : PipelineEvent}
    (h : ObservedStep mode cfg gNums pNums numbers s call e s') :
    PipelineStep mode gNums pNums numbers s s' := by
  cases h with
  | generator hi h => exact PipelineStep.generator hi (generatorStep_cases h)
  | parser hq h => exact PipelineStep.parser hq (parserStep_cases h)
  | manager hm h => exact PipelineStep.manager hm (managerStep_cases h)
  | cleaned _ _ _ => exact PipelineStep.cleaned

/-- Parsers and managers leave the generators' counters and hands alone. -/
theorem ParserStep.generator_frame {q : Nat} (h : ParserStep numbers s q s') :
    s'.generatorPc = s.generatorPc ∧ s'.nextThreadId = s.nextThreadId := by
  cases h <;> exact ⟨rfl, rfl⟩

theorem ManagerStep.generator_frame {m : Nat} (h : ManagerStep s m s') :
    s'.generatorPc = s.generatorPc ∧ s'.nextThreadId = s.nextThreadId := by
  cases h <;> exact ⟨rfl, rfl⟩

/-- A step forward, with its event. -/
theorem observed_step {call : PipelineCall}
    (h : (pipeline mode cfg gNums pNums numbers).step s call = some (s', ())) :
    (observedPipeline mode cfg gNums pNums numbers).step s call
      = some (s', pipelineEvent cfg s call) :=
  ((pipeline mode cfg gNums pNums numbers).observe_step_eq_some (pipelineEvent cfg)).mpr
    ⟨⟨(), h⟩, rfl⟩

/-- **A generator sends one packet**: three steps, of which the last is seen. -/
theorem observed_sent {i : Nat} (hi : i < gNums) (hpc : s.generatorPc i = .idle)
    {packet packet' : PacketT} {pool : List PacketT} (hpool : s.generatorPool i = packet :: pool)
    {input : Input} (hfill : fillPacket mode i packet input = some packet')
    (hroom : (s.parserQueue (s.nextThreadId i)).length < queueCapacity)
    {pipeDepth : Int32} (hdepth : pipeDepth > 1) :
    ∃ s', (observedPipeline mode cfg gNums pNums numbers).run s
        (List.replicate 3 (.generator i pipeDepth input))
      = some (s', [.quiet, .quiet, .sent i (s.nextThreadId i) packet']) := by
  obtain ⟨s₁, s₂, htake, hpc₁, hchoose, hpc₂, hlast⟩ :=
    steps_sent mode cfg pNums numbers hi hpc hpool hfill hroom hdepth
  obtain ⟨s₃, hsend⟩ : ∃ s₃, (pipeline mode cfg gNums pNums numbers).step s₂
      (.generator i pipeDepth input) = some (s₃, ()) := ⟨_, hlast⟩
  have hevent : generatorEvent s i = .quiet := by
    unfold generatorEvent
    rw [hpc]
  have hevent₁ : generatorEvent s₁ i = .quiet := by
    unfold generatorEvent
    rw [hpc₁]
  have hevent₂ : generatorEvent s₂ i = .sent i (s.nextThreadId i) packet' := by
    unfold generatorEvent
    rw [hpc₂]
  rw [← hevent₂]
  refine ⟨s₃, (Machine.run_cons_eq_some _).mpr ⟨s₁, .quiet, _, ?_, ?_, rfl⟩⟩
  · rw [← hevent]
    exact observed_step htake
  · refine (Machine.run_cons_eq_some _).mpr ⟨s₂, .quiet, _, ?_, ?_, rfl⟩
    · rw [← hevent₁]
      exact observed_step hchoose
    · exact Machine.run_singleton _ (observed_step hsend)

/-- Only generators send. -/
@[simp] theorem parserEvent_target (i : Nat) (s : Stages) (q : Nat) :
    (parserEvent s q).target i = [] := by
  unfold parserEvent
  split
  · split <;> rfl
  · rfl

@[simp] theorem managerEvent_target (i : Nat) (cfg : Config) (s : Stages) (m : Nat)
    (now : UInt64) : (managerEvent cfg s m now).target i = [] := by
  unfold managerEvent
  split
  · split <;> rfl
  · rfl

end Steps

end FreePacket.Pipeline
