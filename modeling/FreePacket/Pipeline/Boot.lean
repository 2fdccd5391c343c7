/-
  FreePacket.Pipeline.Boot
  ────────────────────────
  **THE START-UP of the pipeline, while the threads already run.**

  `main` sets up a manager and creates its thread, one manager after the
  other, then the cleaner, the parsers and the generators in the same way.  A
  thread runs as soon as it is created, while others are still to be set up:
  a parser before the next parser has a queue, a manager before there is a
  generator pool to return a packet to.  No thread touches anything that is
  not set up, since what it needs is set up before it, or named by a packet
  that has come from a generator that runs.

  The cleaner is created only if `pipe_depth` is above 4 at that moment.
  `read_config_simple` can raise it later, the cleaner then is missing: a
  manager that has run out of sessions waits for ever.

  Main results:
    * `BootInv.step`, `Begun.step` — what is set up, and where packets are.
    * `booting_safe` — no step touches what is not set up.
    * `uncleaned_waitsForever` — without the cleaner a wait for a session has
      no end.
-/
import FreePacket.Pipeline.Drain

namespace FreePacket.Pipeline

open FreePacket.Lib FreePacket.Packet
open FreePacket.Session (Manager Config WellFormed hashAddItem queueCapacity)

/-! ## §1. `main`, from the managers to the generators. -/

/-- Where `main` is in the loops of `init_manager_group`, `init_parser_group`
    and `init_generator_group`. -/
inductive BootPc where
  /-- At `init_signle_manager(…, m)`, or behind the loop. -/
  | initManager (m : Nat)
  | createManager (m : Nat)
  /-- At `if(global_config -> pipe_depth > 4)`. -/
  | createCleaner
  | initParser (q : Nat)
  | createParser (q : Nat)
  | initGenerator (i : Nat)
  | createGenerator (i : Nat)
  /-- In `sys_display`. -/
  | display

/-- How far `main` is: how many managers, parsers and generators are set up,
    and how many of their threads are created. -/
structure Boot where
  pc : BootPc
  managersReady : Nat
  managers : Nat
  cleaner : Bool
  parsersReady : Nat
  parsers : Nat
  generatorsReady : Nat
  generators : Nat

def startBoot : Boot :=
  { pc := .initManager 0, managersReady := 0, managers := 0, cleaner := false
    parsersReady := 0, parsers := 0, generatorsReady := 0, generators := 0 }

/-- One step of `main`, which reads `pipe_depth` in front of the cleaner. -/
def bootStep (gNums pNums mNums : Nat) (b : Boot) (pipeDepth : Int32) : Option Boot :=
  match b.pc with
  | .initManager m =>
      if m < mNums then some { b with managersReady := m + 1, pc := .createManager m }
      else some { b with pc := .createCleaner }
  | .createManager m => some { b with managers := m + 1, pc := .initManager (m + 1) }
  | .createCleaner => some { b with cleaner := decide (pipeDepth > 4), pc := .initParser 0 }
  | .initParser q =>
      if q < pNums then some { b with parsersReady := q + 1, pc := .createParser q }
      else some { b with pc := .initGenerator 0 }
  | .createParser q => some { b with parsers := q + 1, pc := .initParser (q + 1) }
  | .initGenerator i =>
      if i < gNums then some { b with generatorsReady := i + 1, pc := .createGenerator i }
      else some { b with pc := .display }
  | .createGenerator i => some { b with generators := i + 1, pc := .initGenerator (i + 1) }
  | .display => none

/-- The thread of the call has been created. -/
def Boot.Runs (b : Boot) (numbers : UInt32) : PipelineCall → Prop
  | .generator i _ _ => i < b.generators
  | .parser q _ => q < b.parsers
  | .manager m _ _ => m < b.managers
  | .clean m _ _ _ => b.cleaner = true ∧ m < numbers.toNat

instance (b : Boot) (numbers : UInt32) (call : PipelineCall) : Decidable (b.Runs numbers call) := by
  cases call <;> unfold Boot.Runs <;> infer_instance

/-- The pipeline and `main`. -/
structure Booting where
  boot : Boot
  stages : Stages

inductive BootCall where
  /-- `main` moves. -/
  | main (pipeDepth : Int32)
  /-- A thread of the pipeline moves. -/
  | work (call : PipelineCall)

/-- **The pipeline while it is set up.**  What is not set up yet is as it will
    be when it is. -/
def booting (mode : Mode) (cfg : Config) (gNums pNums : Nat) (numbers : UInt32) :
    Machine Booting BootCall Unit where
  step s call :=
    match call with
    | .main pipeDepth =>
        (bootStep gNums pNums numbers.toNat s.boot pipeDepth).map
          (fun b => ({ s with boot := b }, ()))
    | .work call =>
        if s.boot.Runs numbers call then
          ((pipeline mode cfg gNums pNums numbers).step s.stages call).map
            (fun r => ({ s with stages := r.1 }, ()))
        else none

/-! ## §2. What a step touches. -/

/-- What is set up by `init_signle_manager`, `init_single_parser` and
    `init_signle_generator`. -/
inductive Resource where
  | managerQueue (m : Nat)
  /-- The hash table and the session pool. -/
  | table (m : Nat)
  | parserQueue (q : Nat)
  | parserPool (q : Nat)
  | generatorPool (i : Nat)

def Resource.Ready (b : Boot) : Resource → Prop
  | .managerQueue m | .table m => m < b.managersReady
  | .parserQueue q | .parserPool q => q < b.parsersReady
  | .generatorPool i => i < b.generatorsReady

/-- What generator `i` touches next, whether it gets through or not. -/
def GeneratorPc.touches (i : Nat) : GeneratorPc → List Resource
  | .idle => [.generatorPool i]
  | .filled _ => []
  | .sending parser _ => [.parserQueue parser]
  | .returning packet => [.generatorPool packet.pool]

/-- What parser `q` touches next.  A batch is returned to the pool of its
    first packet. -/
def ParserPc.touches (numbers : UInt32) (q : Nat) : ParserPc → List Resource
  | .idle => [.parserQueue q]
  | .taken _ | .built _ _ | .forward [] => []
  | .waitFlows _ | .returnFlows _ => [.parserPool q]
  | .forward (flow :: _) => [.managerQueue (hashIndex flow.key numbers).toNat]
  | .returnBatch packets _ | .returnPackets packets =>
      (packets.head?.map (fun first => Resource.generatorPool first.pool)).toList

/-- What manager `m` touches next. -/
def ManagerPc.touches (m : Nat) : ManagerPc → List Resource
  | .idle => [.managerQueue m]
  | .taken _ => []
  | .inserting _ => [.table m]
  | .returnPacket flow => [.generatorPool flow.packet.pool]
  | .returnFlow flow => [.parserPool flow.pool]

/-- What the next step of a thread touches. -/
def touches (numbers : UInt32) (s : Stages) : PipelineCall → List Resource
  | .generator i _ _ => (s.generatorPc i).touches i
  | .parser q _ => (s.parserPc q).touches numbers q
  | .manager m _ _ => (s.managerPc m).touches m
  | .clean m _ _ _ => [.table m]

theorem each_ready {b : Boot} (resource : Resource) (h : resource.Ready b) :
    Each (Resource.Ready b) [resource] := each_singleton h

/-! ## §3. The order of the set-up. -/

/-- The counts of `main` at each place. -/
def BootCounts (gNums pNums mNums : Nat) (b : Boot) : Prop :=
  match b.pc with
  | .initManager m =>
      m ≤ mNums ∧ b.managersReady = m ∧ b.managers = m
        ∧ b.parsersReady = 0 ∧ b.parsers = 0 ∧ b.generatorsReady = 0 ∧ b.generators = 0
  | .createManager m =>
      m < mNums ∧ b.managersReady = m + 1 ∧ b.managers = m
        ∧ b.parsersReady = 0 ∧ b.parsers = 0 ∧ b.generatorsReady = 0 ∧ b.generators = 0
  | .createCleaner =>
      b.managersReady = mNums ∧ b.managers = mNums
        ∧ b.parsersReady = 0 ∧ b.parsers = 0 ∧ b.generatorsReady = 0 ∧ b.generators = 0
  | .initParser q =>
      q ≤ pNums ∧ b.managersReady = mNums ∧ b.managers = mNums
        ∧ b.parsersReady = q ∧ b.parsers = q ∧ b.generatorsReady = 0 ∧ b.generators = 0
  | .createParser q =>
      q < pNums ∧ b.managersReady = mNums ∧ b.managers = mNums
        ∧ b.parsersReady = q + 1 ∧ b.parsers = q ∧ b.generatorsReady = 0 ∧ b.generators = 0
  | .initGenerator i =>
      i ≤ gNums ∧ b.managersReady = mNums ∧ b.managers = mNums
        ∧ b.parsersReady = pNums ∧ b.parsers = pNums
        ∧ b.generatorsReady = i ∧ b.generators = i
  | .createGenerator i =>
      i < gNums ∧ b.managersReady = mNums ∧ b.managers = mNums
        ∧ b.parsersReady = pNums ∧ b.parsers = pNums
        ∧ b.generatorsReady = i + 1 ∧ b.generators = i
  | .display =>
      b.managersReady = mNums ∧ b.managers = mNums ∧ b.parsersReady = pNums ∧ b.parsers = pNums
        ∧ b.generatorsReady = gNums ∧ b.generators = gNums

/-- The counts, and the cleaner behind the managers. -/
structure BootInv (gNums pNums mNums : Nat) (b : Boot) : Prop where
  counts : BootCounts gNums pNums mNums b
  cleaner : b.cleaner = true → b.managersReady = mNums

/-- **What runs is set up, and what it feeds is set up before it.** -/
structure SetUp (gNums pNums mNums : Nat) (b : Boot) : Prop where
  managers : b.managers ≤ b.managersReady
  parsers : b.parsers ≤ b.parsersReady
  generators : b.generators ≤ b.generatorsReady
  cleaner : b.cleaner = true → b.managersReady = mNums
  parsersAfter : 0 < b.parsers → b.managersReady = mNums
  generatorsAfter : 0 < b.generators → b.managersReady = mNums ∧ b.parsersReady = pNums
  within : b.managers ≤ mNums ∧ b.parsers ≤ pNums ∧ b.generators ≤ gNums

section Order

variable {gNums pNums mNums : Nat} {b b' : Boot}

theorem bootInv_start : BootInv gNums pNums mNums startBoot where
  counts := ⟨Nat.zero_le _, rfl, rfl, rfl, rfl, rfl, rfl⟩
  cleaner := fun h => absurd h (by decide)

theorem BootInv.step (h : BootInv gNums pNums mNums b) {pipeDepth : Int32}
    (hstep : bootStep gNums pNums mNums b pipeDepth = some b') :
    BootInv gNums pNums mNums b' := by
  obtain ⟨hcounts, hcleaner⟩ := h
  unfold BootCounts at hcounts
  unfold bootStep at hstep
  cases hpc : b.pc with
  | initManager m =>
      simp only [hpc] at hcounts hstep
      split at hstep <;> rw [← Option.some.inj hstep]
      · refine ⟨by simp only [BootCounts, true_and]; omega, fun h => ?_⟩
        -- the cleaner is not created before the last manager is set up
        have hready := hcleaner h
        dsimp only
        omega
      · exact ⟨by simp only [BootCounts]; omega, hcleaner⟩
  | createCleaner =>
      simp only [hpc] at hcounts hstep
      rw [← Option.some.inj hstep]
      exact ⟨by simp only [BootCounts]; omega, fun _ => hcounts.1⟩
  | createManager _ | createParser _ | createGenerator _ =>
      simp only [hpc] at hcounts hstep
      rw [← Option.some.inj hstep]
      exact ⟨by simp only [BootCounts, true_and, and_true]; omega, hcleaner⟩
  | initParser _ | initGenerator _ =>
      simp only [hpc] at hcounts hstep
      split at hstep <;> rw [← Option.some.inj hstep]
      · exact ⟨by simp only [BootCounts, true_and]; omega, hcleaner⟩
      · exact ⟨by simp only [BootCounts]; omega, hcleaner⟩
  | display =>
      simp only [hpc] at hstep
      exact absurd hstep (by simp)

/-- **The order of the set-up**, at each place of `main`. -/
theorem BootInv.setUp (h : BootInv gNums pNums mNums b) : SetUp gNums pNums mNums b := by
  obtain ⟨hcounts, hcleaner⟩ := h
  unfold BootCounts at hcounts
  cases hpc : b.pc <;> simp only [hpc] at hcounts <;>
    exact ⟨by omega, by omega, by omega, hcleaner, by omega, by omega, by omega⟩

end Order

/-! ## §4. Packets come from generators that run. -/

/-- The packet's pool is that of one of the first `n` generators. -/
def FromFirst (n : Nat) (packet : PacketT) : Prop := packet.pool < n

/-- The same of a flow's packet. -/
def CarriesFirst (n : Nat) (flow : FlowItem) : Prop := FromFirst n flow.packet

def ParserBegun (n : Nat) : ParserPc → Prop
  | .idle => True
  | .taken packets | .waitFlows packets | .built packets _ | .returnBatch packets _
  | .returnPackets packets => 0 < n ∧ Each (FromFirst n) packets
  | .forward flows => 0 < n ∧ Each (CarriesFirst n) flows
  | .returnFlows _ => 0 < n

def ManagerBegun (n : Nat) : ManagerPc → Prop
  | .idle => True
  | .taken flow | .inserting flow | .returnPacket flow => CarriesFirst n flow
  | .returnFlow _ => 0 < n

/-- **The first `n` generators have begun**, and all packets under way are
    theirs. -/
structure Begun (gNums pNums mNums n : Nat) (s : Stages) : Prop where
  generatorPc : ∀ i < gNums, n ≤ i → s.generatorPc i = .idle
  parserQueue : ∀ q < pNums, Each (FromFirst n) (s.parserQueue q)
  parserPc : ∀ q < pNums, ParserBegun n (s.parserPc q)
  managerQueue : ∀ m < mNums, Each (CarriesFirst n) (s.managerQueue m)
  managerPc : ∀ m < mNums, ManagerBegun n (s.managerPc m)

/-- A batch is not empty. -/
theorem FromFirst.pos {n : Nat} {packets : List PacketT} (h : Each (FromFirst n) packets)
    (hlen : packets.length = batch) : 0 < n := by
  obtain ⟨first, rest, rfl⟩ : ∃ first rest, packets = first :: rest := by
    refine List.exists_cons_of_length_pos ?_
    rw [hlen]
    decide
  exact Nat.lt_of_le_of_lt (Nat.zero_le _) (h first List.mem_cons_self)

section Begun

variable {mode : Mode} {cfg : Config} {gNums pNums n : Nat} {numbers : UInt32} {s s' : Stages}

theorem ParserBegun.mono {n' : Nat} (hle : n ≤ n') {pc : ParserPc} (h : ParserBegun n pc) :
    ParserBegun n' pc := by
  cases pc with
  | idle => trivial
  | returnFlows _ => exact Nat.lt_of_lt_of_le h hle
  | taken _ | waitFlows _ | built _ _ | returnBatch _ _ | returnPackets _ | forward _ =>
      exact ⟨Nat.lt_of_lt_of_le h.1 hle, h.2.imp fun _ hp => Nat.lt_of_lt_of_le hp hle⟩

theorem ManagerBegun.mono {n' : Nat} (hle : n ≤ n') {pc : ManagerPc} (h : ManagerBegun n pc) :
    ManagerBegun n' pc := by
  cases pc with
  | idle => trivial
  | taken _ | inserting _ | returnPacket _ | returnFlow _ => exact Nat.lt_of_lt_of_le h hle

/-- One more generator runs. -/
theorem Begun.mono {mNums n' : Nat} (h : Begun gNums pNums mNums n s) (hle : n ≤ n') :
    Begun gNums pNums mNums n' s where
  generatorPc := fun i hi hn => h.generatorPc i hi (hle.trans hn)
  parserQueue := fun q hq => (h.parserQueue q hq).imp fun _ hp => Nat.lt_of_lt_of_le hp hle
  parserPc := fun q hq => (h.parserPc q hq).mono hle
  managerQueue := fun m hm => (h.managerQueue m hm).imp fun _ hp => Nat.lt_of_lt_of_le hp hle
  managerPc := fun m hm => (h.managerPc m hm).mono hle

theorem Begun.generatorStep (h : Begun gNums pNums numbers.toNat n s)
    (hs : Owned mode gNums pNums numbers s) {i : Nat} (hi : i < gNums) (hn : i < n)
    (hstep : GeneratorStep mode gNums pNums s i s') : Begun gNums pNums numbers.toNat n s' := by
  have hown := hs.generatorPc i hi
  -- the generator that moves is one of the first `n`
  have hpc : ∀ pc, ∀ j < gNums, n ≤ j → Function.update s.generatorPc i pc j = .idle := by
    intro pc j hj hnj
    rw [Function.update_of_ne (by omega)]
    exact h.generatorPc j hj hnj
  cases hstep with
  | took _ _ _ | chose _ | kept _ | returned _ => exact { h with generatorPc := hpc _ }
  | @sent parser packet hsending =>
      rw [hsending] at hown
      have hfrom : FromFirst n packet := by
        show packet.pool < n
        rw [hown.1.2]
        exact hn
      exact { h with
        generatorPc := hpc _
        parserQueue := forall_update h.parserQueue
          ((h.parserQueue parser hown.2.1).append (each_singleton hfrom)) }

theorem Begun.parserStep (h : Begun gNums pNums numbers.toNat n s)
    (hs : Owned mode gNums pNums numbers s) {q : Nat} (hq : q < pNums)
    (hstep : ParserStep numbers s q s') : Begun gNums pNums numbers.toNat n s' := by
  have hheld := h.parserPc q hq
  have hown := hs.parserPc q hq
  cases hstep with
  | @took packets queue hpc hqueue hlen =>
      have hall := h.parserQueue q hq
      rw [hqueue] at hall
      have hpackets : Each (FromFirst n) packets := fun x hx => hall x (List.mem_append_left _ hx)
      exact { h with
        parserQueue := forall_update h.parserQueue
          (fun x hx => hall x (List.mem_append_right _ hx))
        parserPc := forall_update h.parserPc ⟨FromFirst.pos hpackets hlen, hpackets⟩ }
  | wanted hpc | skipped hpc | made hpc _ _ | dropping hpc | returnedBatch hpc =>
      rw [hpc] at hheld
      exact { h with parserPc := forall_update h.parserPc (by first | exact hheld | exact hheld.1) }
  | forwarding hpc =>
      rw [hpc] at hheld hown
      refine { h with parserPc := forall_update h.parserPc ⟨hheld.1, fun flow hflow => ?_⟩ }
      refine hheld.2 flow.packet ?_
      rw [← hown.2.2.2]
      exact List.mem_map_of_mem hflow
  | @forwarded index flow rest hpc hindex =>
      rw [hpc] at hheld
      obtain ⟨hpos, hall⟩ := hheld
      exact { h with
        managerQueue := forall_update h.managerQueue
          ((h.managerQueue index hindex).append (each_singleton (hall flow List.mem_cons_self)))
        parserPc := forall_update h.parserPc
          ⟨hpos, fun x hx => hall x (List.mem_cons_of_mem _ hx)⟩ }
  | finished _ | returnedFlows _ | returnedPackets _ =>
      exact { h with parserPc := forall_update h.parserPc trivial }

theorem Begun.managerStep (h : Begun gNums pNums numbers.toNat n s) {m : Nat}
    (hm : m < numbers.toNat) (hstep : ManagerStep s m s') :
    Begun gNums pNums numbers.toNat n s' := by
  have hheld := h.managerPc m hm
  cases hstep with
  | @took flow queue hpc hqueue =>
      have hall := h.managerQueue m hm
      rw [hqueue] at hall
      exact { h with
        managerQueue := forall_update h.managerQueue
          (fun x hx => hall x (List.mem_cons_of_mem _ hx))
        managerPc := forall_update h.managerPc (hall flow List.mem_cons_self) }
  | deep hpc | shallow hpc | inserted hpc =>
      rw [hpc] at hheld
      exact { h with managerPc := forall_update h.managerPc hheld }
  | returnedPacket hpc =>
      rw [hpc] at hheld
      exact { h with
        managerPc := forall_update h.managerPc (Nat.lt_of_le_of_lt (Nat.zero_le _) hheld) }
  | returnedFlow _ => exact { h with managerPc := forall_update h.managerPc trivial }

end Begun

/-! ## §5. No step before its time. -/

/-- **What holds while `main` is at it.** -/
structure BootingInv (mode : Mode) (cfg : Config) (gNums pNums : Nat) (numbers : UInt32)
    (start : Stages) (s : Booting) : Prop where
  boot : BootInv gNums pNums numbers.toNat s.boot
  owned : Owned mode gNums pNums numbers s.stages
  begun : Begun gNums pNums numbers.toNat s.boot.generators s.stages
  reaches : (pipeline mode cfg gNums pNums numbers).Reaches (fun _ => True) start s.stages

section Safe

variable {mode : Mode} {cfg : Config} {gNums pNums : Nat} {numbers : UInt32} {start : Stages}
  {s s' : Booting}

/-- `main` never takes a generator back. -/
theorem BootInv.generators_le {b b' : Boot} (h : BootInv gNums pNums numbers.toNat b)
    {pipeDepth : Int32} (hstep : bootStep gNums pNums numbers.toNat b pipeDepth = some b') :
    b.generators ≤ b'.generators := by
  have hcounts := h.counts
  unfold BootCounts at hcounts
  unfold bootStep at hstep
  cases hpc : b.pc with
  | createGenerator i =>
      simp only [hpc] at hcounts hstep
      rw [← Option.some.inj hstep]
      show b.generators ≤ i + 1
      omega
  | initManager _ | initParser _ | initGenerator _ =>
      simp only [hpc] at hstep
      split at hstep <;> rw [← Option.some.inj hstep]
  | createManager _ | createCleaner | createParser _ =>
      simp only [hpc] at hstep
      rw [← Option.some.inj hstep]
  | display =>
      simp only [hpc] at hstep
      exact absurd hstep (by simp)

/-- A move of `main`. -/
theorem booting_main_eq_some {pipeDepth : Int32} {r : Unit}
    (h : (booting mode cfg gNums pNums numbers).step s (.main pipeDepth) = some (s', r)) :
    bootStep gNums pNums numbers.toNat s.boot pipeDepth = some s'.boot
      ∧ s'.stages = s.stages := by
  obtain ⟨b, hb, heq⟩ := Option.map_eq_some_iff.mp h
  obtain ⟨rfl, -⟩ := Prod.mk.inj heq
  exact ⟨hb, rfl⟩

/-- A move of a thread that runs. -/
theorem booting_work_eq_some {call : PipelineCall} {r : Unit}
    (h : (booting mode cfg gNums pNums numbers).step s (.work call) = some (s', r)) :
    s.boot.Runs numbers call ∧ s'.boot = s.boot
      ∧ (pipeline mode cfg gNums pNums numbers).step s.stages call = some (s'.stages, ()) := by
  by_cases hruns : s.boot.Runs numbers call
  · simp only [booting, if_pos hruns] at h
    obtain ⟨⟨stages, _⟩, hstep, heq⟩ := Option.map_eq_some_iff.mp h
    obtain ⟨rfl, -⟩ := Prod.mk.inj heq
    exact ⟨hruns, rfl, hstep⟩
  · simp only [booting, if_neg hruns] at h
    exact absurd h nofun

/-- **A thread that runs keeps the packets with those that run.** -/
theorem Begun.step {b : Boot} {stages stages' : Stages}
    (h : Begun gNums pNums numbers.toNat b.generators stages)
    (hs : Owned mode gNums pNums numbers stages) {call : PipelineCall} {r : Unit}
    (hruns : b.Runs numbers call)
    (hstep : (pipeline mode cfg gNums pNums numbers).step stages call = some (stages', r)) :
    Begun gNums pNums numbers.toNat b.generators stages' := by
  cases call with
  | generator i pipeDepth input =>
      obtain ⟨hi, hcase⟩ := pipeline_generator_eq_some hstep
      exact h.generatorStep hs hi hruns (generatorStep_cases hcase)
  | parser q pipeDepth =>
      obtain ⟨hq, hcase⟩ := pipeline_parser_eq_some hstep
      exact h.parserStep hs hq (parserStep_cases hcase)
  | manager m pipeDepth now =>
      obtain ⟨hm, hcase⟩ := pipeline_manager_eq_some hstep
      exact h.managerStep hm (managerStep_cases hcase)
  | clean m bucket now destoryTime =>
      obtain ⟨_, _, _, rfl⟩ := pipeline_clean_eq_some hstep
      exact { h with }

theorem BootingInv.step (h : BootingInv mode cfg gNums pNums numbers start s) (hg : 0 < gNums)
    (hle : gNums ≤ pNums) {call : BootCall} {r : Unit}
    (hstep : (booting mode cfg gNums pNums numbers).step s call = some (s', r)) :
    BootingInv mode cfg gNums pNums numbers start s' := by
  cases call with
  | main pipeDepth =>
      obtain ⟨hboot, hstages⟩ := booting_main_eq_some hstep
      refine ⟨h.boot.step hboot, ?_, ?_, ?_⟩
      · rw [hstages]
        exact h.owned
      · rw [hstages]
        exact h.begun.mono (h.boot.generators_le hboot)
      · rw [hstages]
        exact h.reaches
  | work call =>
      obtain ⟨hruns, hboot, hwork⟩ := booting_work_eq_some hstep
      refine ⟨?_, h.owned.step hg hle (pipelineStep_cases hwork), ?_,
        h.reaches.step trivial hwork⟩
      · rw [hboot]
        exact h.boot
      · rw [hboot]
        exact h.begun.step h.owned hruns hwork

theorem bootingInv_start (hle : gNums ≤ pNums) (pktlen : UInt32)
    (handler : PacketT → Nat → UInt8) (packets : Nat → Nat → PacketT)
    (flows : Nat → Nat → FlowItem) (table : Nat → Manager) :
    BootingInv mode cfg gNums pNums numbers
      (startStages mode pktlen handler packets flows table)
      ⟨startBoot, startStages mode pktlen handler packets flows table⟩ where
  boot := bootInv_start
  owned := owned_start numbers hle pktlen handler packets flows table
  begun := ⟨fun _ _ _ => rfl, fun _ _ => each_nil, fun _ _ => trivial, fun _ _ => each_nil,
    fun _ _ => trivial⟩
  reaches := .refl

/-- A generator that runs feeds parsers that are set up. -/
theorem BootingInv.generator_ready (h : BootingInv mode cfg gNums pNums numbers start s) {i : Nat}
    (hi : i < s.boot.generators) :
    Each (Resource.Ready s.boot) ((s.stages.generatorPc i).touches i) := by
  have hset := h.boot.setUp
  have hiReady := Nat.lt_of_lt_of_le hi hset.generators
  have hown := h.owned.generatorPc i (Nat.lt_of_lt_of_le hi hset.within.2.2)
  obtain ⟨_, hparsers⟩ := hset.generatorsAfter (Nat.lt_of_le_of_lt (Nat.zero_le i) hi)
  cases hpc : s.stages.generatorPc i with
  | idle => exact each_ready (.generatorPool i) hiReady
  | filled _ => exact each_nil
  | sending parser packet =>
      rw [hpc] at hown
      apply each_ready (.parserQueue parser)
      show parser < s.boot.parsersReady
      rw [hparsers]
      exact hown.2.1
  | returning packet =>
      rw [hpc] at hown
      apply each_ready (.generatorPool packet.pool)
      show packet.pool < s.boot.generatorsReady
      rw [hown.2]
      exact hiReady

/-- The packets of generators that run have a pool to go back to. -/
theorem BootingInv.batch_ready (h : BootingInv mode cfg gNums pNums numbers start s)
    {packets : List PacketT} (hpackets : Each (FromFirst s.boot.generators) packets) :
    Each (Resource.Ready s.boot)
      (packets.head?.map (fun first => Resource.generatorPool first.pool)).toList := by
  cases packets with
  | nil => exact each_nil
  | cons first rest =>
      exact each_ready (.generatorPool first.pool)
        (Nat.lt_of_lt_of_le (hpackets first List.mem_cons_self) h.boot.setUp.generators)

/-- A parser that runs hands on to managers that are set up. -/
theorem BootingInv.parser_ready (h : BootingInv mode cfg gNums pNums numbers start s)
    (hnumbers : 0 < numbers.toNat) {q : Nat} (hq : q < s.boot.parsers) :
    Each (Resource.Ready s.boot) ((s.stages.parserPc q).touches numbers q) := by
  have hset := h.boot.setUp
  have hqReady := Nat.lt_of_lt_of_le hq hset.parsers
  have hmanagers := hset.parsersAfter (Nat.lt_of_le_of_lt (Nat.zero_le q) hq)
  have hbegun := h.begun.parserPc q (Nat.lt_of_lt_of_le hq hset.within.2.1)
  cases hpc : s.stages.parserPc q with
  | idle => exact each_ready (.parserQueue q) hqReady
  | taken _ | built _ _ => exact each_nil
  | waitFlows _ | returnFlows _ => exact each_ready (.parserPool q) hqReady
  | forward flows =>
      cases flows with
      | nil => exact each_nil
      | cons flow rest =>
          apply each_ready (.managerQueue (hashIndex flow.key numbers).toNat)
          show _ < s.boot.managersReady
          rw [hmanagers]
          exact makeHash_lt _ _ _ _ hnumbers
  | returnBatch packets _ | returnPackets packets =>
      rw [hpc] at hbegun
      exact h.batch_ready hbegun.2

/-- A manager that runs gives back to pools that are set up. -/
theorem BootingInv.manager_ready (h : BootingInv mode cfg gNums pNums numbers start s) {m : Nat}
    (hm : m < s.boot.managers) :
    Each (Resource.Ready s.boot) ((s.stages.managerPc m).touches m) := by
  have hset := h.boot.setUp
  have hmReady := Nat.lt_of_lt_of_le hm hset.managers
  have hown := h.owned.managerPc m (Nat.lt_of_lt_of_le hm hset.within.1)
  have hbegun := h.begun.managerPc m (Nat.lt_of_lt_of_le hm hset.within.1)
  cases hpc : s.stages.managerPc m with
  | idle => exact each_ready (.managerQueue m) hmReady
  | taken _ => exact each_nil
  | inserting _ => exact each_ready (.table m) hmReady
  | returnPacket flow =>
      rw [hpc] at hbegun
      exact each_ready (.generatorPool flow.packet.pool)
        (Nat.lt_of_lt_of_le hbegun hset.generators)
  | returnFlow flow =>
      -- the flow is some parser's, and all of them are set up before a
      -- generator sends the first packet
      rw [hpc] at hown hbegun
      obtain ⟨q, hq, hflow, _⟩ := hown
      obtain ⟨_, hparsers⟩ := hset.generatorsAfter hbegun
      apply each_ready (.parserPool flow.pool)
      show flow.pool < s.boot.parsersReady
      rw [hflow.2, hparsers]
      exact hq

/-- **What a running thread touches is set up.** -/
theorem BootingInv.touches_ready (h : BootingInv mode cfg gNums pNums numbers start s)
    (hnumbers : 0 < numbers.toNat) {call : PipelineCall} (hruns : s.boot.Runs numbers call) :
    Each (Resource.Ready s.boot) (touches numbers s.stages call) := by
  cases call with
  | generator i pipeDepth input => exact h.generator_ready hruns
  | parser q pipeDepth => exact h.parser_ready hnumbers hruns
  | manager m pipeDepth now => exact h.manager_ready hruns
  | clean m b now destoryTime =>
      obtain ⟨hcleaner, hm⟩ := hruns
      apply each_ready (.table m)
      show m < s.boot.managersReady
      rw [h.boot.setUp.cleaner hcleaner]
      exact hm

/-- **NO THREAD TOUCHES WHAT IS NOT SET UP**, in any state `main` and the
    threads it has created reach; and the stages are those of the pipeline. -/
theorem booting_safe (hg : 1 ≤ gNums) (hle : gNums ≤ pNums) (hnumbers : 0 < numbers.toNat)
    (pktlen : UInt32) (handler : PacketT → Nat → UInt8) (packets : Nat → Nat → PacketT)
    (flows : Nat → Nat → FlowItem) (table : Nat → Manager)
    (h : (booting mode cfg gNums pNums numbers).Reaches (fun _ => True)
      ⟨startBoot, startStages mode pktlen handler packets flows table⟩ s) :
    (∀ call, s.boot.Runs numbers call →
        Each (Resource.Ready s.boot) (touches numbers s.stages call))
      ∧ (pipeline mode cfg gNums pNums numbers).Reaches (fun _ => True)
        (startStages mode pktlen handler packets flows table) s.stages := by
  have hinv : BootingInv mode cfg gNums pNums numbers
      (startStages mode pktlen handler packets flows table) s :=
    h.induction (BootingInv mode cfg gNums pNums numbers
        (startStages mode pktlen handler packets flows table))
      (fun _ _ _ _ hs _ hstep => hs.step hg hle hstep)
      (bootingInv_start hle pktlen handler packets flows table)
  exact ⟨fun call hruns => hinv.touches_ready hnumbers hruns, hinv.reaches⟩

end Safe

/-- With its first manager running, the rest of the program is not set up, and
    the manager does not touch it. -/
theorem firstManager_safe :
    ∃ s : Booting, s.boot.managers = 1 ∧ s.boot.parsersReady = 0 ∧ s.boot.generatorsReady = 0
      ∧ ∀ call, s.boot.Runs 1 call → Each (Resource.Ready s.boot) (touches 1 s.stages call) := by
  let b : Boot := { startBoot with managersReady := 1, pc := .createManager 0 }
  have hinit : (booting .generator (Session.sourceConfig 65536 1000) 1 1 1).step
      ⟨startBoot, oneOfEach⟩ (.main 5) = some (⟨b, oneOfEach⟩, ()) := rfl
  have hcreate : (booting .generator (Session.sourceConfig 65536 1000) 1 1 1).step
      ⟨b, oneOfEach⟩ (.main 5)
      = some (⟨{ b with managers := 1, pc := .initManager 1 }, oneOfEach⟩, ()) := rfl
  have hstart : (booting .generator (Session.sourceConfig 65536 1000) 1 1 1).Reaches
      (fun _ => True) ⟨startBoot, oneOfEach⟩ ⟨startBoot, oneOfEach⟩ := .refl
  have hcreated := (hstart.step trivial hinit).step trivial hcreate
  exact ⟨_, rfl, rfl, rfl, (booting_safe (le_refl 1) (le_refl 1) (by decide) 60 (fun _ _ => 0)
    (fun _ _ => blankPacket) (fun _ _ => blankFlow) Session.freshManager hcreated).1⟩

/-! ## §6. Without the cleaner. -/

/-- `main` reads a `pipe_depth` of at most 4 at the cleaner. -/
def BootCall.Shallow : BootCall → Prop
  | .main pipeDepth => ¬ pipeDepth > 4
  | .work _ => True

/-- Manager `m` is where it was, with the table it had, and what was in its
    queue still is. -/
structure Frozen (m : Nat) (s s' : Stages) : Prop where
  managerPc : s'.managerPc m = s.managerPc m
  table : s'.table m = s.table m
  managerQueue : s.managerQueue m <+: s'.managerQueue m

section Uncleaned

variable {mode : Mode} {cfg : Config} {gNums pNums m : Nat} {numbers : UInt32}

theorem Frozen.refl (m : Nat) (s : Stages) : Frozen m s s := ⟨rfl, rfl, List.prefix_rfl⟩

theorem Frozen.trans {s t u : Stages} (h : Frozen m s t) (h' : Frozen m t u) : Frozen m s u :=
  ⟨h'.managerPc.trans h.managerPc, h'.table.trans h.table, h.managerQueue.trans h'.managerQueue⟩

/-- A manager that is frozen while it waits, waits. -/
theorem WaitsForSession.frozen {s s' : Stages} (hwait : WaitsForSession s m)
    (h : Frozen m s s') : WaitsForSession s' m := by
  obtain ⟨flow, hpc, hpool, hkeys⟩ := hwait
  refine ⟨flow, h.managerPc.trans hpc, ?_, ?_⟩
  · rw [h.table]
    exact hpool
  · rw [h.table]
    exact hkeys

/-- **`hash_add_item` does not end** for a manager that waits. -/
theorem WaitsForSession.managerStep_eq_none {s : Stages} (hwait : WaitsForSession s m)
    (pipeDepth : Int32) (now : UInt64) : managerStep cfg s m pipeDepth now = none := by
  obtain ⟨flow, hpc, hpool, hkeys⟩ := hwait
  have hfind := (Session.findList_eq_none_iff _ flow).mpr hkeys
  have hnone : hashAddItem cfg (s.table m) (bucketIndex flow.key (s.table m).ht.size) flow now
      = none := by
    unfold hashAddItem
    rw [hfind, hpool]
    split <;> rfl
  simp only [managerStep, hpc, hnone, Option.map_none]

/-- **A step of any thread but the cleaner freezes a manager that waits.** -/
theorem WaitsForSession.step {s s' : Stages} (hwait : WaitsForSession s m) {call : PipelineCall}
    {r : Unit} (hcall : ∀ m' b now destoryTime, call ≠ .clean m' b now destoryTime)
    (hstep : (pipeline mode cfg gNums pNums numbers).step s call = some (s', r)) :
    Frozen m s s' := by
  cases call with
  | generator i pipeDepth input =>
      obtain ⟨_, hcase⟩ := pipeline_generator_eq_some hstep
      cases generatorStep_cases hcase <;> exact ⟨rfl, rfl, List.prefix_rfl⟩
  | parser q pipeDepth =>
      obtain ⟨_, hcase⟩ := pipeline_parser_eq_some hstep
      cases parserStep_cases hcase with
      | @forwarded index flow rest _ _ =>
          refine ⟨rfl, rfl, ?_⟩
          show s.managerQueue m
            <+: Function.update s.managerQueue index (s.managerQueue index ++ [flow]) m
          by_cases hm : m = index
          · rw [hm, Function.update_self]
            exact List.prefix_append _ _
          · rw [Function.update_of_ne hm]
      | _ => exact ⟨rfl, rfl, List.prefix_rfl⟩
  | manager j pipeDepth now =>
      obtain ⟨_, hcase⟩ := pipeline_manager_eq_some hstep
      by_cases hm : m = j
      · rw [← hm, hwait.managerStep_eq_none] at hcase
        exact absurd hcase nofun
      · -- another manager has its own queue, table and place
        cases managerStep_cases hcase with
        | @took flow queue _ _ =>
            refine ⟨Function.update_of_ne hm .., rfl, ?_⟩
            show s.managerQueue m <+: Function.update s.managerQueue j queue m
            rw [Function.update_of_ne hm]
        | inserted _ =>
            exact ⟨Function.update_of_ne hm .., Function.update_of_ne hm .., List.prefix_rfl⟩
        | _ => exact ⟨Function.update_of_ne hm .., rfl, List.prefix_rfl⟩
  | clean m' b now destoryTime => exact absurd rfl (hcall m' b now destoryTime)

/-- The cleaner is created, if at all, where `main` reads the depth. -/
theorem bootStep_uncleaned {mNums : Nat} {b b' : Boot} (hcleaner : b.cleaner = false)
    {pipeDepth : Int32} (hdepth : ¬ pipeDepth > 4)
    (hstep : bootStep gNums pNums mNums b pipeDepth = some b') : b'.cleaner = false := by
  unfold bootStep at hstep
  cases hpc : b.pc with
  | createCleaner =>
      simp only [hpc] at hstep
      rw [← Option.some.inj hstep]
      exact decide_eq_false hdepth
  | initManager _ | initParser _ | initGenerator _ =>
      simp only [hpc] at hstep
      split at hstep <;> rw [← Option.some.inj hstep] <;> exact hcleaner
  | createManager _ | createParser _ | createGenerator _ =>
      simp only [hpc] at hstep
      rw [← Option.some.inj hstep]
      exact hcleaner
  | display =>
      simp only [hpc] at hstep
      exact absurd hstep (by simp)

/-- **WITHOUT THE CLEANER A WAIT FOR A SESSION HAS NO END**: the manager stays
    where it is with the table it has, and no flow leaves its queue, however
    `pipe_depth` is set later. -/
theorem uncleaned_waitsForever {s s' : Booting} (hcleaner : s.boot.cleaner = false)
    (hwait : WaitsForSession s.stages m)
    (h : (booting mode cfg gNums pNums numbers).Reaches BootCall.Shallow s s') :
    s'.boot.cleaner = false ∧ Frozen m s.stages s'.stages := by
  refine h.induction (fun t => t.boot.cleaner = false ∧ Frozen m s.stages t.stages) ?_
    ⟨hcleaner, Frozen.refl m s.stages⟩
  rintro t call t' r ⟨hclean, hfrozen⟩ hcall hstep
  cases call with
  | main pipeDepth =>
      obtain ⟨hboot, hstages⟩ := booting_main_eq_some hstep
      refine ⟨bootStep_uncleaned hclean hcall hboot, ?_⟩
      rw [hstages]
      exact hfrozen
  | work call =>
      obtain ⟨hruns, hboot, hwork⟩ := booting_work_eq_some hstep
      have hnoClean : ∀ m' b now destoryTime, call ≠ .clean m' b now destoryTime := by
        rintro m' b now destoryTime rfl
        rw [hruns.1] at hclean
        exact absurd hclean (by decide)
      rw [hboot]
      exact ⟨hclean, hfrozen.trans ((hwait.frozen hfrozen).step hnoClean hwork)⟩

end Uncleaned

/-- A manager before an empty pool, with `main` in `sys_display` and no
    cleaner. -/
theorem emptyPool_waitsForever :
    ∃ s : Booting, s.boot.cleaner = false ∧ WaitsForSession s.stages 0
      ∧ ∀ s', (booting .generator (Session.sourceConfig 65536 1000) 1 1 1).Reaches
          BootCall.Shallow s s' → s'.boot.cleaner = false ∧ Frozen 0 s.stages s'.stages := by
  let b : Boot :=
    { pc := .display, managersReady := 1, managers := 1, cleaner := false
      parsersReady := 1, parsers := 1, generatorsReady := 1, generators := 1 }
  let s : Booting := ⟨b, { oneOfEach with
    managerPc := fun _ => .inserting blankFlow
    table := fun _ => Session.managerWith 0 [] }⟩
  have hwait : WaitsForSession s.stages 0 :=
    ⟨blankFlow, rfl, rfl, fun _ hnode => absurd hnode List.not_mem_nil⟩
  exact ⟨s, rfl, hwait, fun s' h => uncleaned_waitsForever rfl hwait h⟩

end FreePacket.Pipeline
