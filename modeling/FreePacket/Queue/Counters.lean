/-
  FreePacket.Queue.Counters
  ─────────────────────────
  **HOW FAR THE COUNTERS CAN GET.**

  What threads do with a queue is right as long as the batches meet at their
  checks the condition the 32-bit locals ask for (`ChecksFit`).  A step adds
  at most one to a counter or a local, so counters that are far below 2^32
  stay so for many steps, and there every check meets the condition.

  Main results: `CountsWithin.step` and `CountsWithin.checksFit`.
-/
import FreePacket.Queue.Shared

namespace FreePacket.Queue

open FreePacket.Lib FreePacket.Lib.Atomic

/-! ## §1. Counters and locals. -/

section Counters

variable {α : Type}

/-- The local `enqueue_count` of a batch. -/
def SenderPc.localCount : SenderPc α → Nat
  | .loopBatch _ _ enqueueCount | .lengthenBatch _ _ enqueueCount
  | .putLengthBatch _ _ enqueueCount _ => enqueueCount.toNat
  | .check _ | .store _ | .count _ | .lengthen | .putLength _ | .checkBatch _ _ => 0

/-- The local `dequeue_count` of a batch. -/
def ReceiverPc.localCount : ReceiverPc α → Nat
  | .loopBatch _ dequeueCount _ | .shortenBatch _ dequeueCount _
  | .putLengthBatch _ dequeueCount _ _ => dequeueCount.toNat
  | .check | .load | .count _ | .shorten _ | .putLength _ _ | .checkBatch _ => 0

def Place.localCount : Place α → Nat
  | .sending pc => pc.localCount
  | .receiving pc => pc.localCount
  | .outside | .locking _ | .sent _ | .received _ _ => 0

/-- Counters and locals are at most `bound`. -/
structure CountsWithin (bound : Nat) (s : SharedQueue α) : Prop where
  enqueueCount : s.queue.enqueueCount.toNat ≤ bound
  dequeueCount : s.queue.dequeueCount.toNat ≤ bound
  locals : ∀ t, (s.place t).localCount ≤ bound

variable {lg bound : Nat} {s s' : SharedQueue α}

theorem CountsWithin.mono {bound' : Nat} (h : CountsWithin bound s) (hle : bound ≤ bound') :
    CountsWithin bound' s :=
  ⟨h.enqueueCount.trans hle, h.dequeueCount.trans hle, fun t => (h.locals t).trans hle⟩

/-- One more is at most one more, also where it wraps. -/
theorem toNat_succ_le {count : UInt64} (h : count.toNat ≤ bound) :
    (count + 1).toNat ≤ bound + 1 := by
  rw [UInt64.toNat_add, UInt64.toNat_one]
  exact (Nat.mod_le _ _).trans (Nat.succ_le_succ h)

theorem toNat_succ_le32 {count : UInt32} (h : count.toNat ≤ bound) :
    (count + 1).toNat ≤ bound + 1 := by
  rw [UInt32.toNat_add, UInt32.toNat_one]
  exact (Nat.mod_le _ _).trans (Nat.succ_le_succ h)

theorem toNat_toUInt32_le {count : UInt64} (h : count.toNat ≤ bound) :
    count.toUInt32.toNat ≤ bound := by
  rw [UInt64.toNat_toUInt32]
  exact (Nat.mod_le _ _).trans h

/-! ## §2. What a step adds. -/

/-- What a step of a sender adds. -/
theorem senderStep_counts (lg : Nat) {queue : IntelQueue α} {pc : SenderPc α}
    (he : queue.enqueueCount.toNat ≤ bound) (hlocal : pc.localCount ≤ bound) :
    (senderStep lg queue pc).1.enqueueCount.toNat ≤ bound + 1
      ∧ (senderStep lg queue pc).1.dequeueCount = queue.dequeueCount
      ∧ (senderStep lg queue pc).2.localCount ≤ bound + 1 := by
  have he' : queue.enqueueCount.toNat ≤ bound + 1 := he.trans (Nat.le_succ bound)
  have hlocal' := hlocal.trans (Nat.le_succ bound)
  cases pc with
  | check data =>
      rw [senderStep]
      split
      · exact ⟨he', rfl, Nat.zero_le _⟩
      · exact ⟨he', rfl, Nat.zero_le _⟩
  | store data => exact ⟨he', rfl, Nat.zero_le _⟩
  | count data => exact ⟨toNat_succ_le he, rfl, Nat.zero_le _⟩
  | lengthen => exact ⟨he', rfl, Nat.zero_le _⟩
  | putLength length => exact ⟨he', rfl, Nat.zero_le _⟩
  | checkBatch data n =>
      rw [senderStep]
      split
      · exact ⟨he', rfl, Nat.zero_le _⟩
      · exact ⟨he', rfl, toNat_toUInt32_le he'⟩
  | loopBatch data n count =>
      rw [senderStep]
      split
      · -- the counter takes the local
        refine ⟨?_, rfl, Nat.zero_le _⟩
        show count.toUInt64.toNat ≤ bound + 1
        rw [UInt32.toNat_toUInt64]
        exact hlocal'
      · exact ⟨he', rfl, hlocal'⟩
  | lengthenBatch data n count => exact ⟨he', rfl, hlocal'⟩
  | putLengthBatch data n count length => exact ⟨he', rfl, toNat_succ_le32 hlocal⟩

/-- What a step of a receiver adds. -/
theorem receiverStep_counts (lg : Nat) {queue : IntelQueue α} {pc : ReceiverPc α}
    (hd : queue.dequeueCount.toNat ≤ bound) (hlocal : pc.localCount ≤ bound) :
    (receiverStep lg queue pc).1.dequeueCount.toNat ≤ bound + 1
      ∧ (receiverStep lg queue pc).1.enqueueCount = queue.enqueueCount
      ∧ (receiverStep lg queue pc).2.localCount ≤ bound + 1 := by
  have hd' : queue.dequeueCount.toNat ≤ bound + 1 := hd.trans (Nat.le_succ bound)
  have hlocal' := hlocal.trans (Nat.le_succ bound)
  cases pc with
  | check =>
      rw [receiverStep]
      split
      · exact ⟨hd', rfl, Nat.zero_le _⟩
      · exact ⟨hd', rfl, Nat.zero_le _⟩
  | load => exact ⟨hd', rfl, Nat.zero_le _⟩
  | count data => exact ⟨toNat_succ_le hd, rfl, Nat.zero_le _⟩
  | shorten data => exact ⟨hd', rfl, Nat.zero_le _⟩
  | putLength data length => exact ⟨hd', rfl, Nat.zero_le _⟩
  | checkBatch n =>
      rw [receiverStep]
      split
      · exact ⟨hd', rfl, Nat.zero_le _⟩
      · exact ⟨hd', rfl, toNat_toUInt32_le hd'⟩
  | loopBatch n count data =>
      rw [receiverStep]
      split
      · refine ⟨?_, rfl, Nat.zero_le _⟩
        show count.toUInt64.toNat ≤ bound + 1
        rw [UInt32.toNat_toUInt64]
        exact hlocal'
      · exact ⟨hd', rfl, hlocal'⟩
  | shortenBatch n count data => exact ⟨hd', rfl, hlocal'⟩
  | putLengthBatch n count data length => exact ⟨hd', rfl, toNat_succ_le32 hlocal⟩

/-- A thread that has moved to a place with a small local. -/
theorem CountsWithin.relocates (h : CountsWithin bound s) {t : Nat} {place' : Place α}
    (hlocal : place'.localCount ≤ bound) :
    ∀ u, (Function.update s.place t place' u).localCount ≤ bound := by
  intro u
  by_cases hut : u = t
  · rw [hut, Function.update_self]
    exact hlocal
  · rw [Function.update_of_ne hut]
    exact h.locals u

/-- **A step adds at most one.** -/
theorem CountsWithin.step (h : CountsWithin bound s) {a : SharedAction α}
    {e : Option (Seen (Call α) (Reply α))} (hst : (shared lg).step s a = some (s', e)) :
    CountsWithin (bound + 1) s' := by
  have hnext := h.mono (Nat.le_succ bound)
  cases a with
  | call t c =>
      cases hpl : s.place t with
      | outside =>
          simp only [shared, hpl, Option.some.injEq, Prod.mk.injEq] at hst
          obtain ⟨rfl, -⟩ := hst
          exact ⟨hnext.enqueueCount, hnext.dequeueCount, hnext.relocates (Nat.zero_le _)⟩
      | locking _ => simp [shared, hpl] at hst
      | sending _ => simp [shared, hpl] at hst
      | sent _ => simp [shared, hpl] at hst
      | receiving _ => simp [shared, hpl] at hst
      | received _ _ => simp [shared, hpl] at hst
  | step t =>
      have hlocal := h.locals t
      cases hpl : s.place t with
      | outside => simp [shared, hpl] at hst
      | locking c =>
          simp only [shared, hpl] at hst
          cases hentry : entry c with
          | inl pc =>
              simp only [hentry, Option.ite_none_right_eq_some, Option.some.injEq,
                Prod.mk.injEq] at hst
              obtain ⟨-, rfl, -⟩ := hst
              -- a batch has no local before its check
              have hzero : pc.localCount = 0 := by
                cases c with
                | enqueue data =>
                    obtain rfl := Sum.inl.inj hentry
                    rfl
                | enqueueMultiple data n =>
                    obtain rfl := Sum.inl.inj hentry
                    rfl
                | dequeue => exact absurd hentry (by simp [entry])
                | dequeueMultiple n => exact absurd hentry (by simp [entry])
              exact ⟨hnext.enqueueCount, hnext.dequeueCount,
                hnext.relocates (show pc.localCount ≤ bound + 1 by omega)⟩
          | inr pc =>
              simp only [hentry, Option.ite_none_right_eq_some, Option.some.injEq,
                Prod.mk.injEq] at hst
              obtain ⟨-, rfl, -⟩ := hst
              have hzero : pc.localCount = 0 := by
                cases c with
                | enqueue data => exact absurd hentry (by simp [entry])
                | enqueueMultiple data n => exact absurd hentry (by simp [entry])
                | dequeue =>
                    obtain rfl := Sum.inr.inj hentry
                    rfl
                | dequeueMultiple n =>
                    obtain rfl := Sum.inr.inj hentry
                    rfl
              exact ⟨hnext.enqueueCount, hnext.dequeueCount,
                hnext.relocates (show pc.localCount ≤ bound + 1 by omega)⟩
      | sending pc =>
          rw [hpl] at hlocal
          simp only [shared, hpl, Option.some.injEq, Prod.mk.injEq] at hst
          obtain ⟨rfl, -⟩ := hst
          have hcounts := senderStep_counts lg h.enqueueCount hlocal
          refine ⟨hcounts.1, ?_, hnext.relocates hcounts.2.2⟩
          rw [hcounts.2.1]
          exact hnext.dequeueCount
      | sent result =>
          simp only [shared, hpl, Option.some.injEq, Prod.mk.injEq] at hst
          obtain ⟨rfl, -⟩ := hst
          exact ⟨hnext.enqueueCount, hnext.dequeueCount, hnext.relocates (Nat.zero_le _)⟩
      | receiving pc =>
          rw [hpl] at hlocal
          simp only [shared, hpl, Option.some.injEq, Prod.mk.injEq] at hst
          obtain ⟨rfl, -⟩ := hst
          have hcounts := receiverStep_counts lg h.dequeueCount hlocal
          refine ⟨?_, hcounts.1, hnext.relocates hcounts.2.2⟩
          rw [hcounts.2.1]
          exact hnext.enqueueCount
      | received result data =>
          simp only [shared, hpl, Option.some.injEq, Prod.mk.injEq] at hst
          obtain ⟨rfl, -⟩ := hst
          exact ⟨hnext.enqueueCount, hnext.dequeueCount, hnext.relocates (Nat.zero_le _)⟩

/-- **Below 2^32 every check is safe.** -/
theorem CountsWithin.checksFit (h : CountsWithin bound s)
    {o : Object (List α) (Call α) (Reply α)} {stored : List α} (hcoupled : Coupled 10 s o stored)
    (hbound : bound + 1024 < 2 ^ 32) (a : SharedAction α) : ChecksFit 10 s a := by
  have he := h.enqueueCount
  have hd := h.dequeueCount
  have hocc : occupancy s.queue ≤ 1024 := by
    rw [hcoupled.occupancy_eq]
    exact hcoupled.length_le
  cases a with
  | call t c => trivial
  | step t =>
      cases hpl : s.place t with
      | outside => simp only [ChecksFit, hpl]
      | locking c => simp only [ChecksFit, hpl]
      | sent result => simp only [ChecksFit, hpl]
      | received result data => simp only [ChecksFit, hpl]
      | sending pc =>
          cases pc with
          | checkBatch data n =>
              simp only [ChecksFit, hpl, Fits]
              intro hroom
              rw [UInt64.toNat_add, UInt32.toNat_toUInt64]
              have hle := Nat.mod_le (s.queue.enqueueCount.toNat + n.toNat) (2 ^ 64)
              omega
          | check data => simp only [ChecksFit, hpl]
          | store data => simp only [ChecksFit, hpl]
          | count data => simp only [ChecksFit, hpl]
          | lengthen => simp only [ChecksFit, hpl]
          | putLength length => simp only [ChecksFit, hpl]
          | loopBatch data n count => simp only [ChecksFit, hpl]
          | lengthenBatch data n count => simp only [ChecksFit, hpl]
          | putLengthBatch data n count length => simp only [ChecksFit, hpl]
      | receiving pc =>
          cases pc with
          | checkBatch n =>
              simp only [ChecksFit, hpl, Fits]
              have hn := n.toNat_lt
              split
              · -- as many as there are, so at most 1024
                rw [UInt64.toNat_add, UInt32.toNat_toUInt64]
                have hle := Nat.mod_le (s.queue.dequeueCount.toNat + n.toNat) (2 ^ 64)
                omega
              · omega
          | check => simp only [ChecksFit, hpl]
          | load => simp only [ChecksFit, hpl]
          | count data => simp only [ChecksFit, hpl]
          | shorten data => simp only [ChecksFit, hpl]
          | putLength data length => simp only [ChecksFit, hpl]
          | loopBatch n count data => simp only [ChecksFit, hpl]
          | shortenBatch n count data => simp only [ChecksFit, hpl]
          | putLengthBatch n count data length => simp only [ChecksFit, hpl]

end Counters

end FreePacket.Queue
