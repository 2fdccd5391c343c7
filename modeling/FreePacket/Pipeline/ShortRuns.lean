/-
  FreePacket.Pipeline.ShortRuns
  ─────────────────────────────
  **HOW LONG THE QUEUES ARE SAFE.**

  `rings_refine` asks that every batch meets at its check the condition of the
  32-bit locals.  A run from counters of at most `bound` does so by itself for
  as long as `bound`, its steps and the entries of one queue together stay
  below 2^32.

  Main results:
    * `shortRun_fits` — such a run meets the condition at every check.
    * `shortRun_refines` — so it is a run of the pipeline.
-/
import FreePacket.Queue.Counters
import FreePacket.Pipeline.Rings

namespace FreePacket.Pipeline

open FreePacket.Lib FreePacket.Lib.Atomic FreePacket.Packet
open FreePacket.Session (Manager Config queueCapacity)
open FreePacket.Queue (IntelQueue SharedQueue SharedAction Call Reply fifo Coupled ChecksFit
  Represents CountsWithin)

section Runs

variable {mode : Mode} {cfg : Config} {gNums pNums : Nat} {numbers : UInt32}

/-- A step of the program adds at most one to the counters of one queue. -/
theorem countsWithin_ringStep {bound : Nat}
    {y y' : System QueueId ThreadPc (Nat → Manager) (SharedQueue Element)}
    {a : SystemAct QueueId (SharedAction Element) ThreadRead} {u : Unit}
    (h : ∀ id, CountsWithin bound (y.objects id))
    (hst : (ringPipeline mode cfg gNums pNums numbers).step y a = some (y', u)) (id : QueueId) :
    CountsWithin (bound + 1) (y'.objects id) := by
  have hkept : ∀ (i : QueueId) {o : SharedQueue Element}, CountsWithin (bound + 1) o →
      CountsWithin (bound + 1) (Function.update y.objects i o id) := by
    intro i o ho
    by_cases hid : id = i
    · rw [hid, Function.update_self]
      exact ho
    · rw [Function.update_of_ne hid]
      exact (h id).mono (Nat.le_succ bound)
  cases composed_cases hst with
  | @called t i k o e _ _ hcall => exact hkept i ((h i).step hcall)
  | @silent i a o hobject => exact hkept i ((h i).step hobject)
  | @returned i a o t r hobject _ => exact hkept i ((h i).step hobject)
  | moved _ _ => exact (h id).mono (Nat.le_succ bound)

/-- **A short run meets the condition at every check**: a step that meets it
    keeps the queues coupled to FIFOs, so that the next one can meet it. -/
theorem shortRun_fits {acts : List (SystemAct QueueId (SharedAction Element) ThreadRead)} :
    ∀ {bound : Nat} {y : System QueueId ThreadPc (Nat → Manager) (SharedQueue Element)}
      {objects : QueueId → Object (List Element) (Call Element) (Reply Element)},
      (∀ id, ∃ stored, Coupled 10 (y.objects id) (objects id) stored) →
      (∀ id, CountsWithin bound (y.objects id)) → bound + acts.length + 1024 < 2 ^ 32 →
      (ringPipeline mode cfg gNums pNums numbers).Along
        (ObjectsMeet (workers mode cfg gNums pNums numbers) SharedAction.call (ChecksFit 10))
        y acts := by
  induction acts with
  | nil =>
      intro bound y objects _ _ _
      trivial
  | cons a acts ih =>
      intro bound y objects hcoupled hcounts hlen
      rw [List.length_cons] at hlen
      have hmeets : ObjectsMeet (workers mode cfg gNums pNums numbers) SharedAction.call
          (ChecksFit 10) y a := by
        cases a with
        | call t => exact fun _ _ _ => trivial
        | object i a =>
            obtain ⟨stored, h⟩ := hcoupled i
            exact (hcounts i).checksFit h (by omega) a
        | move t read => trivial
      refine ⟨hmeets, ?_⟩
      intro y' u hst
      obtain ⟨objects', -, hcoupled'⟩ := composed_step (m := fifo queueCapacity)
        (R := fun s o => ∃ stored, Coupled 10 s o stored)
        (fun _ _ _ _ _ hst => Queue.shared_call_shows hst)
        (fun _ _ _ _ _ h hfits hst => Queue.shared_step_matched (by decide) h hfits hst) hcoupled hmeets hst
      exact ih hcoupled' (countsWithin_ringStep hcounts hst) (by omega)

/-- **A SHORT RUN NEEDS NO CONDITION.**  With counters of at
    most `bound` at the start, no condition on the interleaving is needed for
    as long as `bound`, the steps and one queue's 1024 entries stay together
    below 2^32: the program on its queues is in a state the pipeline reaches. -/
theorem shortRun_refines (pktlen : UInt32) (handler : PacketT → Nat → UInt8)
    (packets : Nat → Nat → PacketT) (flows : Nat → Nat → FlowItem) (table : Nat → Manager)
    {ring : QueueId → IntelQueue Element}
    (hring : ∀ id, Represents 10 (ring id)
      ((startStages mode pktlen handler packets flows table).content id)) {bound : Nat}
    (hcounts : ∀ id, (ring id).enqueueCount.toNat ≤ bound ∧ (ring id).dequeueCount.toNat ≤ bound)
    {acts : List (SystemAct QueueId (SharedAction Element) ThreadRead)}
    {y : System QueueId ThreadPc (Nat → Manager) (SharedQueue Element)} {us : List Unit}
    (hlen : bound + acts.length + 1024 < 2 ^ 32)
    (hrun : (ringPipeline mode cfg gNums pNums numbers).run
      (startRings gNums pNums numbers.toNat table ring) acts = some (y, us)) :
    ∃ s, (pipeline mode cfg gNums pNums numbers).Reaches (fun _ => True)
        (startStages mode pktlen handler packets flows table) s
      ∧ OnRings gNums pNums numbers.toNat y s := by
  have hwithin : ∀ id, CountsWithin bound
      ((startRings gNums pNums numbers.toNat table ring).objects id) :=
    fun id => ⟨(hcounts id).1, (hcounts id).2, fun _ => Nat.zero_le _⟩
  have hfit : (ringPipeline mode cfg gNums pNums numbers).Along
      (ObjectsMeet (workers mode cfg gNums pNums numbers) SharedAction.call (ChecksFit 10))
      (startRings gNums pNums numbers.toNat table ring) acts :=
    shortRun_fits (fun id => ⟨[], coupled_atRest (hring id)⟩) hwithin hlen
  obtain ⟨objects, w, s, hcoupled, hcollapses, hs, hplays⟩ :=
    rings_followed pktlen handler packets flows table hring hfit hrun
  exact ⟨s, hs, onRings_of_plays hcoupled hcollapses hplays⟩

end Runs

/-- The first packet given back is such a run. -/
theorem firstReturn_short :
    ∃ y s, y.front.inside 1 = none
      ∧ (pipeline .generator (Session.sourceConfig 65536 1000) 1 1 1).Reaches (fun _ => True)
        oneOfEach s
      ∧ OnRings 1 1 1 y s := by
  obtain ⟨y, us, hrun, hparser, -⟩ := firstReturn_run
  have hcounts : ∀ id, (firstRing id).enqueueCount.toNat ≤ 1024
      ∧ (firstRing id).dequeueCount.toNat ≤ 1024 := by
    intro id
    cases id with
    | generatorPool i => exact ⟨Nat.le_refl 1024, Nat.zero_le _⟩
    | parserPool q => exact ⟨Nat.le_refl 1024, Nat.zero_le _⟩
    | parserQueue q => exact ⟨Nat.zero_le _, Nat.zero_le _⟩
    | managerQueue m => exact ⟨Nat.zero_le _, Nat.zero_le _⟩
  obtain ⟨s, hs, hon⟩ := shortRun_refines 60 (fun _ _ => 0) (fun _ _ => blankPacket)
    (fun _ _ => blankFlow) Session.freshManager represents_firstRing hcounts (by decide) hrun
  exact ⟨y, s, hparser, hs, hon⟩

end FreePacket.Pipeline
