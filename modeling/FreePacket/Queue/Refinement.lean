/-
  FreePacket.Queue.Refinement
  ───────────────────────────
  **THE INTEL QUEUE AGAINST THE BOUNDED FIFO, over whole runs.**

  The abstract queue is a list under a capacity (`fifo`); `Represents` ties
  it to the struct: the counter difference is the length, and the slots from
  `dequeueCount` on hold the content (`Lib.Holds`).  Counters that wrap at
  2^64 are harmless, because the capacity divides 2^64.  The batch
  operations are not: they store a 32-bit local back into a 64-bit counter.
  `Fits` says when a call does not run into that, and it is exact — past a
  call that does not fit, draining the queue shows a wrong reply
  (`drain_disagrees`).

  Main results:
    * `call_simulates` — one call that fits is one step of the FIFO.
    * `call_unfit` — a call that does not fit answers wrongly or leaves the
      counters apart from the content.
    * `intelQueue_fits_iff` — the run-level statement, both directions.
-/
import FreePacket.Lib.Fifo
import FreePacket.Lib.Ring
import FreePacket.Queue.Intel

namespace FreePacket.Queue

open FreePacket.Lib

variable {α : Type}

/-! ## §1. The abstract queue. -/

/-- A refused call: code -1, nothing delivered. -/
def refused : Reply α := (-1, [])

/-- What each call means on a FIFO of capacity `cap`. -/
def fifoCall (cap : Nat) (s : List α) : Call α → List α × Reply α
  | .enqueue data => ((Fifo.push cap s [data]).map (·, (0, []))).getD (s, refused)
  | .enqueueMultiple data n =>
      ((Fifo.push cap s (slice data 0 n.toNat)).map (·, (0, []))).getD (s, refused)
  | .dequeue => ((Fifo.take s).map (fun p => (p.2, (0, [p.1])))).getD (s, refused)
  | .dequeueMultiple n => ((Fifo.pop n.toNat s).map (fun p => (p.2, (0, p.1)))).getD (s, refused)

theorem fifoCall_enqueue {cap : Nat} {s : List α} (x : α) (h : s.length < cap) :
    fifoCall cap s (.enqueue x) = (s ++ [x], (0, [])) := by
  have hpush : Fifo.push cap s [x] = some (s ++ [x]) := Fifo.push_of_le h
  simp only [fifoCall, hpush, Option.map_some, Option.getD_some]

theorem fifoCall_enqueue_full {cap : Nat} {s : List α} (x : α) (h : cap ≤ s.length) :
    fifoCall cap s (.enqueue x) = (s, refused) := by
  have hpush : Fifo.push cap s [x] = none := Fifo.push_of_lt (Nat.lt_succ_of_le h)
  simp only [fifoCall, hpush, Option.map_none, Option.getD_none]

theorem fifoCall_enqueueMultiple {cap : Nat} {s : List α} (data : Nat → α) {n : UInt32}
    (h : s.length + n.toNat ≤ cap) :
    fifoCall cap s (.enqueueMultiple data n) = (s ++ slice data 0 n.toNat, (0, [])) := by
  have hpush : Fifo.push cap s (slice data 0 n.toNat) = some (s ++ slice data 0 n.toNat) :=
    Fifo.push_of_le (by rwa [slice_length])
  simp only [fifoCall, hpush, Option.map_some, Option.getD_some]

theorem fifoCall_enqueueMultiple_full {cap : Nat} {s : List α} (data : Nat → α) {n : UInt32}
    (h : cap < s.length + n.toNat) :
    fifoCall cap s (.enqueueMultiple data n) = (s, refused) := by
  have hpush : Fifo.push cap s (slice data 0 n.toNat) = none :=
    Fifo.push_of_lt (by rwa [slice_length])
  simp only [fifoCall, hpush, Option.map_none, Option.getD_none]

theorem fifoCall_dequeueMultiple (cap : Nat) {s : List α} {n : UInt32} (h : n.toNat ≤ s.length) :
    fifoCall cap s (.dequeueMultiple n) = (s.drop n.toNat, (0, s.take n.toNat)) := by
  simp only [fifoCall, Fifo.pop_of_le h, Option.map_some, Option.getD_some]

theorem fifoCall_dequeueMultiple_short (cap : Nat) {s : List α} {n : UInt32}
    (h : s.length < n.toNat) : fifoCall cap s (.dequeueMultiple n) = (s, refused) := by
  simp only [fifoCall, Fifo.pop_of_lt h, Option.map_none, Option.getD_none]

/-- The bounded FIFO under any sequence of calls. -/
def fifo (cap : Nat) : Machine (List α) (Call α) (Reply α) where
  step s c := some (fifoCall cap s c)

/-- The codes of the FIFO say what they should: room for the batch, or enough
    elements to deliver. -/
theorem fifoCall_code_eq_zero (cap : Nat) (s : List α) (c : Call α) :
    (fifoCall cap s c).2.1 = 0 ↔
      match c with
      | .enqueue _ => s.length < cap
      | .enqueueMultiple _ n => s.length + n.toNat ≤ cap
      | .dequeue => s ≠ []
      | .dequeueMultiple n => n.toNat ≤ s.length := by
  cases c with
  | enqueue x =>
      simp only [fifoCall, Fifo.push, List.length_singleton]
      split <;> simp [refused] <;> omega
  | enqueueMultiple xs n =>
      simp only [fifoCall, Fifo.push, slice_length]
      split <;> simp [refused] <;> omega
  | dequeue => cases s <;> simp [fifoCall, Fifo.take, refused]
  | dequeueMultiple n =>
      simp only [fifoCall, Fifo.pop]
      split <;> simp [refused] <;> omega

/-! ## §2. Counters and slots. -/

theorem two_pow_le {lg : Nat} (hlg : lg ≤ 30) : 2 ^ lg ≤ 2 ^ 30 :=
  Nat.pow_le_pow_right (by omega) hlg

theorem entries_toNat {lg : Nat} (hlg : lg ≤ 30) : (entries lg).toNat = 2 ^ lg := by
  have hlt : 2 ^ lg < 2 ^ 64 := lt_of_le_of_lt (two_pow_le hlg) (by decide)
  unfold entries
  rw [UInt64.toNat_ofNat', Nat.mod_eq_of_lt hlt]

theorem mod_two_pow_64 {lg : Nat} (hlg : lg ≤ 30) (x : Nat) : x % 2 ^ 64 % 2 ^ lg = x % 2 ^ lg :=
  Nat.mod_mod_of_dvd x (Nat.pow_dvd_pow 2 (by omega))

theorem mod_two_pow_32 {lg : Nat} (hlg : lg ≤ 30) (x : Nat) : x % 2 ^ 32 % 2 ^ lg = x % 2 ^ lg :=
  Nat.mod_mod_of_dvd x (Nat.pow_dvd_pow 2 (by omega))

/-- The mask picks the counter's residue. -/
theorem slot_eq {lg : Nat} (hlg : lg ≤ 30) (count : UInt64) :
    slot lg count = count.toNat % 2 ^ lg := by
  have hle := two_pow_le hlg
  have hpos : 0 < 2 ^ lg := Nat.two_pow_pos lg
  have hmask : (entries lg - 1).toNat = 2 ^ lg - 1 := by
    rw [UInt64.toNat_sub, entries_toNat hlg]
    simp only [UInt64.toNat_one]
    omega
  unfold slot
  rw [UInt64.toNat_toUInt32, UInt64.toNat_and, hmask, Nat.and_two_pow_sub_one_eq_mod]
  have hlt : count.toNat % 2 ^ lg < 2 ^ lg := Nat.mod_lt _ hpos
  exact Nat.mod_eq_of_lt (by omega)

theorem slot32_eq {lg : Nat} (hlg : lg ≤ 30) (count : UInt32) :
    slot32 lg count = count.toNat % 2 ^ lg := by
  have hle := two_pow_le hlg
  have hpos : 0 < 2 ^ lg := Nat.two_pow_pos lg
  have hmask : (UInt32.ofNat (2 ^ lg) - 1).toNat = 2 ^ lg - 1 := by
    rw [UInt32.toNat_sub, UInt32.toNat_ofNat']
    simp only [UInt32.toNat_one]
    omega
  unfold slot32
  rw [UInt32.toNat_and, hmask, Nat.and_two_pow_sub_one_eq_mod]

/-- Every slot index is inside the `numbers` slots of the array. -/
theorem slot_lt {lg : Nat} (hlg : lg ≤ 30) (count : UInt64) : slot lg count < 2 ^ lg := by
  rw [slot_eq hlg]
  exact Nat.mod_lt _ (Nat.two_pow_pos lg)

/-- How many elements the struct's counters claim: their difference modulo 2^64. -/
def occupancy (queue : IntelQueue α) : Nat := (queue.enqueueCount - queue.dequeueCount).toNat

theorem occupancy_eq (queue : IntelQueue α) :
    occupancy queue
      = (2 ^ 64 - queue.dequeueCount.toNat + queue.enqueueCount.toNat) % 2 ^ 64 := by
  unfold occupancy
  rw [UInt64.toNat_sub]

/-! ## §3. The representation relation. -/

/-- The struct represents the list `s`. -/
structure Represents (lg : Nat) (queue : IntelQueue α) (s : List α) : Prop where
  occupancy_eq : occupancy queue = s.length
  length_le : s.length ≤ 2 ^ lg
  holds : Holds (2 ^ lg) queue.node queue.dequeueCount.toNat s
  length_field : queue.length.toNat = s.length

theorem represents_init (lg : Nat) (node : Nat → α) : Represents lg (init node) [] where
  occupancy_eq := by simp [occupancy, init]
  length_le := Nat.zero_le _
  holds := holds_nil _ _ _
  length_field := rfl

/-- In a represented queue the write position is the first free cell. -/
theorem Represents.write_slot {lg : Nat} (hlg : lg ≤ 30) {queue : IntelQueue α} {s : List α}
    (h : Represents lg queue s) :
    queue.enqueueCount.toNat % 2 ^ lg = (queue.dequeueCount.toNat + s.length) % 2 ^ lg := by
  have hocc := h.occupancy_eq
  rw [Queue.occupancy_eq] at hocc
  have he := queue.enqueueCount.toNat_lt
  have hd := queue.dequeueCount.toNat_lt
  have heq : queue.enqueueCount.toNat = (queue.dequeueCount.toNat + s.length) % 2 ^ 64 := by omega
  rw [heq, mod_two_pow_64 hlg]

/-! ## §4. The batch loops. -/

/-- A counter one further on, and the rest of the way. -/
theorem add_one_add_ofNat (count : UInt32) (n : Nat) :
    count + 1 + UInt32.ofNat n = count + UInt32.ofNat (n + 1) := by
  rw [UInt32.ofNat_add, UInt32.add_assoc, UInt32.add_comm 1]
  rfl

/-- **The enqueue loop** writes the batch behind the content and advances its
    32-bit counter by the size of the batch. -/
theorem enqueueLoop_spec {lg : Nat} (hlg : lg ≤ 30) (d n : Nat) :
    ∀ (data : Nat → α) (count : UInt32) (queue : IntelQueue α) (s : List α),
      Holds (2 ^ lg) queue.node d s → s.length + n ≤ 2 ^ lg →
      count.toNat % 2 ^ lg = (d + s.length) % 2 ^ lg →
      (enqueueLoop lg n data count queue).1 = count + UInt32.ofNat n
        ∧ (enqueueLoop lg n data count queue).2.enqueueCount = queue.enqueueCount
        ∧ (enqueueLoop lg n data count queue).2.dequeueCount = queue.dequeueCount
        ∧ (enqueueLoop lg n data count queue).2.length = queue.length + UInt32.ofNat n
        ∧ Holds (2 ^ lg) (enqueueLoop lg n data count queue).2.node d (s ++ slice data 0 n) := by
  induction n with
  | zero =>
      intro data count queue s hs _ _
      refine ⟨by simp [enqueueLoop], rfl, rfl, by simp [enqueueLoop], ?_⟩
      simpa [enqueueLoop] using hs
  | succ n ih =>
      intro data count queue s hs hroom hcount
      -- the first element goes to the cell behind `s`
      have hslot : slot32 lg count = (d + s.length) % 2 ^ lg := by rw [slot32_eq hlg, hcount]
      have hsnoc := holds_snoc (data 0) hs (by omega)
      rw [← hslot] at hsnoc
      have hnext : (count + 1).toNat % 2 ^ lg = (d + (s ++ [data 0]).length) % 2 ^ lg := by
        rw [UInt32.toNat_add, mod_two_pow_32 hlg, UInt32.toNat_one, Nat.add_mod, hcount,
          ← Nat.add_mod]
        simp [Nat.add_assoc]
      obtain ⟨h1, h2, h3, h4, h5⟩ := ih (fun k => data (k + 1)) (count + 1)
        { queue with
            node := Function.update queue.node (slot32 lg count) (data 0)
            length := queue.length + 1 }
        (s ++ [data 0]) hsnoc (by simp; omega) hnext
      refine ⟨?_, h2, h3, ?_, ?_⟩
      · rw [← add_one_add_ofNat]
        exact h1
      · rw [← add_one_add_ofNat]
        exact h4
      · rw [slice_succ, List.append_cons]
        exact h5

/-- **The dequeue loop** delivers the oldest elements and advances its 32-bit
    counter by as many. -/
theorem dequeueLoop_spec {lg : Nat} (hlg : lg ≤ 30) (n : Nat) :
    ∀ (d : Nat) (count : UInt32) (queue : IntelQueue α) (s : List α),
      Holds (2 ^ lg) queue.node d s → n ≤ s.length → count.toNat % 2 ^ lg = d % 2 ^ lg →
      dequeueLoop lg n count queue
        = (count + UInt32.ofNat n, { queue with length := queue.length - UInt32.ofNat n },
            s.take n) := by
  induction n with
  | zero =>
      intro d count queue s _ _ _
      simp [dequeueLoop]
  | succ n ih =>
      intro d count queue s hs hn hcount
      cases s with
      | nil => simp at hn
      | cons x t =>
          obtain ⟨hx, ht⟩ := holds_cons hs
          have hslot : slot32 lg count = d % 2 ^ lg := by rw [slot32_eq hlg, hcount]
          have hnext : (count + 1).toNat % 2 ^ lg = (d + 1) % 2 ^ lg := by
            rw [UInt32.toNat_add, mod_two_pow_32 hlg, UInt32.toNat_one, Nat.add_mod, hcount,
              ← Nat.add_mod]
          have hih := ih (d + 1) (count + 1) { queue with length := queue.length - 1 } t ht
            (by simpa using hn) hnext
          have hone : UInt32.ofNat (n + 1) = 1 + UInt32.ofNat n := by
            rw [UInt32.ofNat_add, UInt32.add_comm]
            rfl
          have hlen : queue.length - 1 - UInt32.ofNat n = queue.length - (1 + UInt32.ofNat n) := by
            grind
          simp only [dequeueLoop, hih, hslot, hx, List.take_succ_cons, hone, UInt32.add_assoc, hlen]

/-! ## §5. Calls that fit. -/

/-- **When a call is safe in the present state.**  A batch that the FIFO has
    room for must leave the enqueue counter below 2^32; a batch the FIFO can
    deliver must leave the dequeue counter below 2^32, and one it cannot
    deliver must not push the 64-bit sum past 2^64. -/
def Fits (lg : Nat) (queue : IntelQueue α) : Call α → Prop
  | .enqueue _ => True
  | .enqueueMultiple _ n =>
      occupancy queue + n.toNat ≤ 2 ^ lg → (queue.enqueueCount + n.toUInt64).toNat < 2 ^ 32
  | .dequeue => True
  | .dequeueMultiple n =>
      if n.toNat ≤ occupancy queue then (queue.dequeueCount + n.toUInt64).toNat < 2 ^ 32
      else ¬ (queue.dequeueCount ≤ queue.enqueueCount
        ∧ 2 ^ 64 ≤ queue.dequeueCount.toNat + n.toNat)

/-- What a call that fits does, in both machines at once. -/
def Simulates (lg : Nat) (queue : IntelQueue α) (s : List α) (c : Call α) : Prop :=
  (call lg queue c).2 = (fifoCall (2 ^ lg) s c).2
    ∧ Represents lg (call lg queue c).1 (fifoCall (2 ^ lg) s c).1

theorem enqueue_simulates {lg : Nat} (hlg : lg ≤ 30) {queue : IntelQueue α} {s : List α} (x : α)
    (h : Represents lg queue s) : Simulates lg queue s (.enqueue x) := by
  have hle := two_pow_le hlg
  have hocc := h.occupancy_eq
  have hcheck : queue.enqueueCount - queue.dequeueCount ≥ entries lg ↔ 2 ^ lg ≤ s.length := by
    rw [ge_iff_le, UInt64.le_iff_toNat_le, entries_toNat hlg]
    unfold occupancy at hocc
    rw [hocc]
  unfold Simulates call enqueue
  by_cases hfull : 2 ^ lg ≤ s.length
  · -- full: both refuse
    rw [fifoCall_enqueue_full x hfull]
    simp only [if_pos (hcheck.mpr hfull)]
    exact ⟨rfl, h⟩
  · rw [fifoCall_enqueue x (Nat.lt_of_not_le hfull)]
    simp only [if_neg (fun hc => hfull (hcheck.mp hc))]
    refine ⟨trivial, ?_, ?_, ?_, ?_⟩
    · -- one more counted, modulo 2^64
      rw [Queue.occupancy_eq] at hocc ⊢
      have he := queue.enqueueCount.toNat_lt
      have hd := queue.dequeueCount.toNat_lt
      simp only [UInt64.toNat_add, UInt64.toNat_one, List.length_append, List.length_singleton]
      omega
    · simp
      omega
    · have hslot : slot lg queue.enqueueCount
          = (queue.dequeueCount.toNat + s.length) % 2 ^ lg := by
        rw [slot_eq hlg, h.write_slot hlg]
      show Holds (2 ^ lg) (Function.update queue.node (slot lg queue.enqueueCount) x)
        queue.dequeueCount.toNat (s ++ [x])
      rw [hslot]
      exact holds_snoc x h.holds (by omega)
    · have hlen := h.length_field
      simp only [UInt32.toNat_add, UInt32.toNat_one, List.length_append, List.length_singleton]
      omega

theorem dequeue_simulates {lg : Nat} (hlg : lg ≤ 30) {queue : IntelQueue α} {s : List α}
    (h : Represents lg queue s) : Simulates lg queue s .dequeue := by
  have hle := two_pow_le hlg
  have hocc := h.occupancy_eq
  have he := queue.enqueueCount.toNat_lt
  have hd := queue.dequeueCount.toNat_lt
  rw [Queue.occupancy_eq] at hocc
  -- equal counters mean empty: a full queue is `2 ^ lg` apart
  have hempty : queue.enqueueCount = queue.dequeueCount ↔ s = [] := by
    rw [← UInt64.toNat_inj, ← List.length_eq_zero_iff]
    have := h.length_le
    omega
  unfold Simulates call dequeue
  cases s with
  | nil =>
      simp only [fifoCall, if_pos (hempty.mpr rfl)]
      exact ⟨rfl, h⟩
  | cons x t =>
      obtain ⟨hx, ht⟩ := holds_cons h.holds
      have hne : ¬ queue.enqueueCount = queue.dequeueCount := fun e => by simpa using hempty.mp e
      have hlen := h.length_field
      have hbound := h.length_le
      simp only [List.length_cons] at hocc hlen hbound
      simp only [fifoCall, if_neg hne, slot_eq hlg, hx]
      refine ⟨rfl, ?_, ?_, ?_, ?_⟩
      · rw [Queue.occupancy_eq]
        simp only [UInt64.toNat_add, UInt64.toNat_one, Fifo.take, Option.map_some,
          Option.getD_some]
        omega
      · simp only [Fifo.take, Option.map_some, Option.getD_some]
        omega
      · refine holds_congr ?_ ht
        simp only [UInt64.toNat_add, UInt64.toNat_one]
        -- the slot of a counter that wraps is that of one that does not
        rw [mod_two_pow_64 hlg]
      · simp only [Fifo.take, Option.map_some, Option.getD_some, UInt32.toNat_sub,
          UInt32.toNat_one]
        omega

/-- The room check of the batch enqueue decides as the FIFO does: no sum wraps
    while the content is bounded by the capacity. -/
theorem enqueueMultiple_check {lg : Nat} (hlg : lg ≤ 30) {queue : IntelQueue α} {s : List α}
    (n : UInt32) (h : Represents lg queue s) :
    queue.enqueueCount + n.toUInt64 - queue.dequeueCount > entries lg
      ↔ 2 ^ lg < s.length + n.toNat := by
  have hle := two_pow_le hlg
  have hocc := h.occupancy_eq
  have hbound := h.length_le
  have he := queue.enqueueCount.toNat_lt
  have hd := queue.dequeueCount.toNat_lt
  have hn := n.toNat_lt
  rw [Queue.occupancy_eq] at hocc
  have hsum : (queue.enqueueCount + n.toUInt64 - queue.dequeueCount).toNat
      = s.length + n.toNat := by
    simp only [UInt64.toNat_sub, UInt64.toNat_add, UInt32.toNat_toUInt64]
    omega
  rw [gt_iff_lt, UInt64.lt_iff_toNat_lt, entries_toNat hlg, hsum]

/-- The batch enqueue behind its check: content appended, counter cut to 32 bits. -/
theorem enqueueMultiple_accepts {lg : Nat} (hlg : lg ≤ 30) {queue : IntelQueue α} {s : List α}
    (data : Nat → α) (n : UInt32) (h : Represents lg queue s) (hroom : s.length + n.toNat ≤ 2 ^ lg) :
    ∃ queue', enqueueMultiple lg queue data n = (queue', 0)
      ∧ queue'.enqueueCount.toNat = (queue.enqueueCount.toNat + n.toNat) % 2 ^ 32
      ∧ queue'.dequeueCount = queue.dequeueCount
      ∧ queue'.length = queue.length + n
      ∧ Holds (2 ^ lg) queue'.node queue.dequeueCount.toNat (s ++ slice data 0 n.toNat) := by
  have hcheck := (enqueueMultiple_check hlg n h).not.mpr (by omega)
  have hstart : queue.enqueueCount.toUInt32.toNat % 2 ^ lg
      = (queue.dequeueCount.toNat + s.length) % 2 ^ lg := by
    rw [UInt64.toNat_toUInt32, mod_two_pow_32 hlg, h.write_slot hlg]
  obtain ⟨h1, _, h3, h4, h5⟩ := enqueueLoop_spec hlg queue.dequeueCount.toNat n.toNat data
    queue.enqueueCount.toUInt32 queue s h.holds hroom hstart
  refine ⟨{ (enqueueLoop lg n.toNat data queue.enqueueCount.toUInt32 queue).2 with
      enqueueCount :=
        (enqueueLoop lg n.toNat data queue.enqueueCount.toUInt32 queue).1.toUInt64 },
    ?_, ?_, h3, ?_, h5⟩
  · unfold enqueueMultiple
    rw [if_neg hcheck]
  · show (enqueueLoop lg n.toNat data queue.enqueueCount.toUInt32 queue).1.toUInt64.toNat = _
    rw [h1, UInt32.toNat_toUInt64, UInt32.toNat_add, UInt64.toNat_toUInt32,
      UInt32.ofNat_toNat]
    omega
  · show (enqueueLoop lg n.toNat data queue.enqueueCount.toUInt32 queue).2.length = _
    rw [h4, UInt32.ofNat_toNat]

theorem enqueueMultiple_simulates {lg : Nat} (hlg : lg ≤ 30) {queue : IntelQueue α} {s : List α}
    (data : Nat → α) (n : UInt32) (h : Represents lg queue s)
    (hfit : Fits lg queue (.enqueueMultiple data n)) :
    Simulates lg queue s (.enqueueMultiple data n) := by
  have hle := two_pow_le hlg
  unfold Simulates call
  by_cases hroom : s.length + n.toNat ≤ 2 ^ lg
  · obtain ⟨queue', heq, he', hd', hlen', hholds⟩ := enqueueMultiple_accepts hlg data n h hroom
    have hocc := h.occupancy_eq
    have hcount := hfit (by omega)
    have hlen := h.length_field
    have he := queue.enqueueCount.toNat_lt
    have hd := queue.dequeueCount.toNat_lt
    rw [Queue.occupancy_eq] at hocc
    rw [UInt64.toNat_add, UInt32.toNat_toUInt64] at hcount
    rw [fifoCall_enqueueMultiple data hroom]
    simp only [heq]
    refine ⟨trivial, ?_, ?_, ?_, ?_⟩
    · -- the stored 32-bit value is the 64-bit sum, because that sum stays below 2^32
      rw [Queue.occupancy_eq, he', hd']
      simp only [List.length_append, slice_length]
      omega
    · simpa using hroom
    · rw [hd']
      exact hholds
    · rw [hlen', UInt32.toNat_add]
      simp only [List.length_append, slice_length]
      omega
  · have hcheck := (enqueueMultiple_check hlg n h).mpr (by omega)
    rw [fifoCall_enqueueMultiple_full data (Nat.lt_of_not_le hroom)]
    simp only [enqueueMultiple, if_pos hcheck]
    exact ⟨rfl, h⟩

/-- The batch dequeue behind its check: the oldest elements, counter cut to 32 bits. -/
theorem dequeueMultiple_accepts {lg : Nat} (hlg : lg ≤ 30) {queue : IntelQueue α} {s : List α}
    (n : UInt32) (h : Represents lg queue s) (hn : n.toNat ≤ s.length)
    (hcheck : ¬ queue.dequeueCount + n.toUInt64 > queue.enqueueCount) :
    dequeueMultiple lg queue n
      = ({ queue with
            dequeueCount := (queue.dequeueCount.toUInt32 + n).toUInt64
            length := queue.length - n }, 0, s.take n.toNat) := by
  have hstart : queue.dequeueCount.toUInt32.toNat % 2 ^ lg = queue.dequeueCount.toNat % 2 ^ lg := by
    rw [UInt64.toNat_toUInt32, mod_two_pow_32 hlg]
  unfold dequeueMultiple
  rw [if_neg hcheck, dequeueLoop_spec hlg n.toNat queue.dequeueCount.toNat
    queue.dequeueCount.toUInt32 queue s h.holds hn hstart, UInt32.ofNat_toNat]

theorem dequeueMultiple_simulates {lg : Nat} (hlg : lg ≤ 30) {queue : IntelQueue α} {s : List α}
    (n : UInt32) (h : Represents lg queue s) (hfit : Fits lg queue (.dequeueMultiple n)) :
    Simulates lg queue s (.dequeueMultiple n) := by
  have hle := two_pow_le hlg
  have hocc := h.occupancy_eq
  have hbound := h.length_le
  have hlen := h.length_field
  have he := queue.enqueueCount.toNat_lt
  have hd := queue.dequeueCount.toNat_lt
  have hn32 := n.toNat_lt
  have hgt : queue.dequeueCount + n.toUInt64 > queue.enqueueCount
      ↔ queue.enqueueCount.toNat < (queue.dequeueCount.toNat + n.toNat) % 2 ^ 64 := by
    rw [gt_iff_lt, UInt64.lt_iff_toNat_lt, UInt64.toNat_add, UInt32.toNat_toUInt64]
  simp only [Fits] at hfit
  unfold Simulates call
  by_cases hn : n.toNat ≤ s.length
  · rw [if_pos (by omega), UInt64.toNat_add, UInt32.toNat_toUInt64] at hfit
    rw [Queue.occupancy_eq] at hocc
    have hcheck : ¬ queue.dequeueCount + n.toUInt64 > queue.enqueueCount := by
      rw [hgt]
      omega
    -- below 2^32 the 32-bit local and the 64-bit counter agree
    have hcount : (queue.dequeueCount.toUInt32 + n).toUInt64.toNat
        = (queue.dequeueCount.toNat + n.toNat) % 2 ^ 64 := by
      rw [UInt32.toNat_toUInt64, UInt32.toNat_add, UInt64.toNat_toUInt32]
      omega
    rw [fifoCall_dequeueMultiple _ hn]
    simp only [dequeueMultiple_accepts hlg n h hn hcheck]
    refine ⟨trivial, ?_, ?_, ?_, ?_⟩
    · rw [Queue.occupancy_eq]
      simp only [hcount, List.length_drop]
      omega
    · simp
      omega
    · refine holds_congr ?_ (holds_drop n.toNat h.holds)
      rw [hcount, mod_two_pow_64 hlg]
    · simp only [List.length_drop, UInt32.toNat_sub]
      omega
  · rw [if_neg (by omega), UInt64.le_iff_toNat_le] at hfit
    rw [Queue.occupancy_eq] at hocc
    have hcheck : queue.dequeueCount + n.toUInt64 > queue.enqueueCount := by
      rw [hgt]
      omega
    rw [fifoCall_dequeueMultiple_short _ (Nat.lt_of_not_le hn)]
    simp only [dequeueMultiple, if_pos hcheck]
    exact ⟨rfl, h⟩

/-- **One call that fits is one step of the FIFO.** -/
theorem call_simulates {lg : Nat} (hlg : lg ≤ 30) {queue : IntelQueue α} {s : List α}
    (c : Call α) (h : Represents lg queue s) (hfit : Fits lg queue c) :
    Simulates lg queue s c := by
  cases c with
  | enqueue x => exact enqueue_simulates hlg x h
  | enqueueMultiple data n => exact enqueueMultiple_simulates hlg data n h hfit
  | dequeue => exact dequeue_simulates hlg h
  | dequeueMultiple n => exact dequeueMultiple_simulates hlg n h hfit

/-! ## §6. Calls that do not fit. -/

/-- **A call that does not fit** answers differently from the FIFO, or leaves
    counters whose difference is not the length of the content. -/
theorem call_unfit {lg : Nat} (hlg : lg ≤ 30) {queue : IntelQueue α} {s : List α}
    (c : Call α) (h : Represents lg queue s) (hunfit : ¬ Fits lg queue c) :
    (call lg queue c).2 ≠ (fifoCall (2 ^ lg) s c).2
      ∨ occupancy (call lg queue c).1 ≠ (fifoCall (2 ^ lg) s c).1.length := by
  have hle := two_pow_le hlg
  have hocc := h.occupancy_eq
  have hbound := h.length_le
  have he := queue.enqueueCount.toNat_lt
  have hd := queue.dequeueCount.toNat_lt
  cases c with
  | enqueue x => exact absurd trivial hunfit
  | dequeue => exact absurd trivial hunfit
  | enqueueMultiple data n =>
      simp only [Fits, Classical.not_imp, hocc] at hunfit
      obtain ⟨hroom, hcount⟩ := hunfit
      rw [UInt64.toNat_add, UInt32.toNat_toUInt64] at hcount
      rw [Queue.occupancy_eq] at hocc
      obtain ⟨queue', heq, he', hd', _, _⟩ := enqueueMultiple_accepts hlg data n h hroom
      -- the sum is 2^32 or more, so storing it in 32 bits loses 2^32 from the count
      right
      rw [fifoCall_enqueueMultiple data hroom]
      simp only [call, heq, List.length_append, slice_length]
      rw [Queue.occupancy_eq, he', hd']
      omega
  | dequeueMultiple n =>
      have hn32 := n.toNat_lt
      simp only [Fits] at hunfit
      by_cases hn : n.toNat ≤ s.length
      · rw [if_pos (by omega), UInt64.toNat_add, UInt32.toNat_toUInt64] at hunfit
        rw [Queue.occupancy_eq] at hocc
        rw [fifoCall_dequeueMultiple _ hn]
        by_cases hcheck : queue.dequeueCount + n.toUInt64 > queue.enqueueCount
        · -- the elements are there, but the 64-bit sum wrapped and the code refuses
          left
          simp [call, dequeueMultiple, if_pos hcheck]
        · -- delivered, and the counter cut to 32 bits falls behind
          right
          simp only [call, dequeueMultiple_accepts hlg n h hn hcheck, List.length_drop]
          rw [Queue.occupancy_eq]
          simp only [UInt32.toNat_toUInt64, UInt32.toNat_add, UInt64.toNat_toUInt32]
          omega
      · rw [if_neg (by omega), not_not, UInt64.le_iff_toNat_le] at hunfit
        -- the elements are not there, but the sum wrapped below the enqueue counter
        have hcheck : ¬ queue.dequeueCount + n.toUInt64 > queue.enqueueCount := by
          rw [gt_iff_lt, UInt64.lt_iff_toNat_lt, UInt64.toNat_add, UInt32.toNat_toUInt64]
          omega
        left
        rw [fifoCall_dequeueMultiple_short _ (Nat.lt_of_not_le hn)]
        simp [call, dequeueMultiple, if_neg hcheck, refused]

/-! ## §7. Runs. -/

/-- Both machines give the same replies on these calls. -/
def Agree (lg : Nat) (queue : IntelQueue α) (s : List α) (calls : List (Call α)) : Prop :=
  ((intel lg).run queue calls).map Prod.snd = ((fifo (2 ^ lg)).run s calls).map Prod.snd

theorem intel_run_cons (lg : Nat) (queue : IntelQueue α) (c : Call α) (cs : List (Call α)) :
    (intel lg).run queue (c :: cs)
      = ((intel lg).run (call lg queue c).1 cs).map (fun p => (p.1, (call lg queue c).2 :: p.2)) :=
  rfl

theorem fifo_run_cons (cap : Nat) (s : List α) (c : Call α) (cs : List (Call α)) :
    (fifo cap).run s (c :: cs)
      = ((fifo cap).run (fifoCall cap s c).1 cs).map (fun p => (p.1, (fifoCall cap s c).2 :: p.2)) :=
  rfl

/-- Neither machine is ever stuck. -/
theorem intel_run_isSome (lg : Nat) (cs : List (Call α)) :
    ∀ queue : IntelQueue α, ∃ p, (intel lg).run queue cs = some p :=
  (intel lg).run_isSome (fun queue c => ⟨call lg queue c, rfl⟩) cs

theorem fifo_run_isSome (cap : Nat) (cs : List (Call α)) :
    ∀ s : List α, ∃ p, (fifo cap).run s cs = some p :=
  (fifo cap).run_isSome (fun s c => ⟨fifoCall cap s c, rfl⟩) cs

theorem agree_cons (lg : Nat) (queue : IntelQueue α) (s : List α) (c : Call α)
    (cs : List (Call α)) :
    Agree lg queue s (c :: cs) ↔
      (call lg queue c).2 = (fifoCall (2 ^ lg) s c).2
        ∧ Agree lg (call lg queue c).1 (fifoCall (2 ^ lg) s c).1 cs := by
  obtain ⟨p, hp⟩ := intel_run_isSome lg cs (call lg queue c).1
  obtain ⟨p', hp'⟩ := fifo_run_isSome (2 ^ lg) cs (fifoCall (2 ^ lg) s c).1
  unfold Agree
  rw [intel_run_cons, fifo_run_cons, hp, hp']
  simp

/-- Agreement on an append gives agreement on its second part, from the states
    the first part leads to. -/
theorem agree_append {lg : Nat} {cs ds : List (Call α)} {queue queue' : IntelQueue α}
    {s s' : List α} {rs rs' : List (Reply α)}
    (hq : (intel lg).run queue cs = some (queue', rs))
    (hs : (fifo (2 ^ lg)).run s cs = some (s', rs')) (h : Agree lg queue s (cs ++ ds)) :
    Agree lg queue' s' ds := by
  induction cs generalizing queue s rs rs' with
  | nil =>
      simp only [Machine.run_nil, Option.some.injEq, Prod.mk.injEq] at hq hs
      obtain ⟨rfl, _⟩ := hq
      obtain ⟨rfl, _⟩ := hs
      exact h
  | cons c cs ih =>
      obtain ⟨_, _, rs₁, hstep, hq', _⟩ := (intel lg).run_cons_eq_some.mp hq
      obtain ⟨_, _, rs₂, hstep', hs', _⟩ := (fifo (2 ^ lg)).run_cons_eq_some.mp hs
      obtain ⟨rfl, rfl⟩ := Prod.mk.inj (Option.some.inj hstep)
      obtain ⟨rfl, rfl⟩ := Prod.mk.inj (Option.some.inj hstep')
      exact ih hq' hs' ((agree_cons lg queue s c (cs ++ ds)).mp h).2

/-- **Draining exposes skewed counters**: where the counters do not count the
    content, one dequeue for each element and one more cannot all answer as
    the FIFO does.  Induction on the content. -/
theorem drain_disagrees (lg : Nat) {queue : IntelQueue α} {s : List α}
    (h : occupancy queue ≠ s.length) :
    ¬ Agree lg queue s (List.replicate (s.length + 1) .dequeue) := by
  induction s generalizing queue with
  | nil =>
      intro hagree
      have hne : ¬ queue.enqueueCount = queue.dequeueCount := by
        intro e
        apply h
        simp [occupancy, e]
      have hreply := ((agree_cons lg queue [] .dequeue []).mp hagree).1
      simp [call, dequeue, if_neg hne, fifoCall, Fifo.take, refused] at hreply
  | cons x t ih =>
      intro hagree
      rw [List.length_cons, List.replicate_succ] at hagree
      obtain ⟨hreply, hrest⟩ := (agree_cons lg queue (x :: t) .dequeue _).mp hagree
      by_cases hempty : queue.enqueueCount = queue.dequeueCount
      · simp [call, dequeue, hempty, fifoCall, Fifo.take] at hreply
      · refine ih ?_ hrest
        have he := queue.enqueueCount.toNat_lt
        have hd := queue.dequeueCount.toNat_lt
        rw [← UInt64.toNat_inj] at hempty
        rw [List.length_cons, Queue.occupancy_eq] at h
        simp only [call, dequeue]
        rw [if_neg (fun e => hempty (by rw [e])), Queue.occupancy_eq]
        simp only [UInt64.toNat_add, UInt64.toNat_one]
        omega

/-- A run of calls that fit is a run of the FIFO. -/
theorem run_refines_fifo {lg : Nat} (hlg : lg ≤ 30) {queue : IntelQueue α} {s : List α}
    (hrep : Represents lg queue s) {calls : List (Call α)}
    (hfits : (intel lg).Along (Fits lg) queue calls) :
    ∃ queue' s' replies, (intel lg).run queue calls = some (queue', replies)
      ∧ (fifo (2 ^ lg)).run s calls = some (s', replies) ∧ Represents lg queue' s' := by
  refine Machine.forward_simulation (intel lg) (fifo (2 ^ lg)) (Represents lg) ?_ hfits hrep
  intro queue s c hR hC
  obtain ⟨hreply, hnext⟩ := call_simulates hlg c hR hC
  refine ⟨(call lg queue c).1, (fifoCall (2 ^ lg) s c).1, (fifoCall (2 ^ lg) s c).2, ?_, rfl, hnext⟩
  rw [← hreply]
  rfl

/-- A run with a call that does not fit is told apart from the FIFO by
    draining some prefix of it. -/
theorem exists_disagreement {lg : Nat} (hlg : lg ≤ 30) {queue : IntelQueue α} {s : List α}
    (hrep : Represents lg queue s) {calls : List (Call α)}
    (hunfit : ¬ (intel lg).Along (Fits lg) queue calls) :
    ∃ p k, p <+: calls ∧ ¬ Agree lg queue s (p ++ List.replicate k .dequeue) := by
  obtain ⟨p, c, rest, q', rs, rfl, hp, hrun, hc⟩ :=
    (intel lg).exists_first_of_not_along hunfit
  obtain ⟨q'', s', replies, hrun', hfifo, hR⟩ := run_refines_fifo hlg hrep hp
  obtain ⟨rfl, _⟩ := Prod.mk.inj (Option.some.inj (hrun'.symm.trans hrun))
  refine ⟨p ++ [c], (fifoCall (2 ^ lg) s' c).1.length + 1, ⟨rest, by simp⟩, ?_⟩
  intro hagree
  rw [List.append_assoc] at hagree
  have htail := agree_append hrun' hfifo hagree
  obtain ⟨hreply, hdrain⟩ := (agree_cons lg _ _ _ _).mp htail
  cases call_unfit hlg c hR hc with
  | inl hne => exact hne hreply
  | inr hskew => exact drain_disagrees lg hskew hdrain

/-- Single dequeues always fit. -/
theorem along_dequeues (lg : Nat) (k : Nat) :
    ∀ queue : IntelQueue α, (intel lg).Along (Fits lg) queue (List.replicate k .dequeue) := by
  induction k with
  | zero => exact fun _ => trivial
  | succ k ih => exact fun queue => ⟨trivial, fun queue' _ _ => ih queue'⟩

/-- **THE QUEUE IS A BOUNDED FIFO EXACTLY WHILE ITS CALLS FIT.**  A run whose
    calls all fit has the replies and the content of the FIFO of capacity
    `2^LOG2_ENTRIES`; and the calls of a run all fit if and only if every
    prefix of it, drained by any number of dequeues, has the FIFO's replies.
    `lg ≤ 30` is what `1 << LOG2_ENTRIES` asks of an `int`. -/
theorem intelQueue_fits_iff {lg : Nat} (hlg : lg ≤ 30) (node : Nat → α) (calls : List (Call α)) :
    ((intel lg).Along (Fits lg) (init node) calls →
        ∃ queue s replies, (intel lg).run (init node) calls = some (queue, replies)
          ∧ (fifo (2 ^ lg)).run [] calls = some (s, replies) ∧ Represents lg queue s)
      ∧ ((intel lg).Along (Fits lg) (init node) calls ↔
        ∀ p, p <+: calls → ∀ k, Agree lg (init node) [] (p ++ List.replicate k .dequeue)) := by
  have hinit := represents_init lg node
  refine ⟨fun hfits => run_refines_fifo hlg hinit hfits, ?_, ?_⟩
  · intro hfits p hp k
    obtain ⟨rest, rfl⟩ := hp
    have hdrained : (intel lg).Along (Fits lg) (init node) (p ++ List.replicate k .dequeue) := by
      rw [Machine.along_append] at hfits ⊢
      exact ⟨hfits.1, fun queue _ _ => along_dequeues lg k queue⟩
    obtain ⟨queue, s, replies, hq, hs, _⟩ := run_refines_fifo hlg hinit hdrained
    unfold Agree
    rw [hq, hs]
    rfl
  · intro hall
    by_contra hunfit
    obtain ⟨p, k, hp, hno⟩ := exists_disagreement hlg hinit hunfit
    exact hno (hall p hp k)

/-- The instances of capacity `1 << LG2_CAPACITY`, on two calls. -/
theorem lg2Capacity_refines_fifo :
    (10 : Nat) ≤ 30 ∧
      ∃ queue s replies,
        (intel 10).run (init fun _ => 0) [.enqueue 7, .dequeue] = some (queue, replies)
          ∧ (fifo (2 ^ 10)).run [] [.enqueue 7, .dequeue] = some (s, replies)
          ∧ Represents 10 queue s :=
  ⟨by decide, (intelQueue_fits_iff (by decide) (fun _ => 0) [.enqueue 7, .dequeue]).1
    ⟨trivial, fun _ _ _ => ⟨trivial, fun _ _ _ => trivial⟩⟩⟩

/-! ## §8. A parser queue after 2^32 packets. -/

/-- The use of a parser queue: one enqueue, then a batch dequeue. -/
def handOver : List (Call Nat) := [.enqueue 7, .dequeueMultiple 1]

/-- `n` packets handed over one after the other. -/
def handOvers (n : Nat) : List (Call Nat) := (List.replicate n handOver).flatten

/-- One packet handed over from equal counters `j`: the dequeue counter comes
    back modulo 2^32. -/
theorem handOver_counters {lg : Nat} (hlg : lg ≤ 30) {queue : IntelQueue Nat} {j : Nat}
    (he : queue.enqueueCount.toNat = j) (hd : queue.dequeueCount.toNat = j) (hj : j < 2 ^ 32) :
    ∃ queue' replies, (intel lg).run queue handOver = some (queue', replies)
      ∧ queue'.enqueueCount.toNat = j + 1 ∧ queue'.dequeueCount.toNat = (j + 1) % 2 ^ 32 := by
  have hpos : 0 < 2 ^ lg := Nat.two_pow_pos lg
  have hroom : ¬ queue.enqueueCount - queue.dequeueCount ≥ entries lg := by
    rw [ge_iff_le, UInt64.le_iff_toNat_le, entries_toNat hlg, UInt64.toNat_sub]
    omega
  have hready : ¬ queue.dequeueCount + (1 : UInt32).toUInt64 > queue.enqueueCount + 1 := by
    rw [gt_iff_lt, UInt64.lt_iff_toNat_lt, UInt64.toNat_add, UInt64.toNat_add, he, hd]
    exact lt_irrefl _
  have hdeq : (dequeueMultiple lg (enqueue lg queue 7).1 1).1.enqueueCount = queue.enqueueCount + 1
      ∧ (dequeueMultiple lg (enqueue lg queue 7).1 1).1.dequeueCount
        = (queue.dequeueCount.toUInt32 + 1).toUInt64 := by
    unfold enqueue
    rw [if_neg hroom]
    unfold dequeueMultiple
    rw [if_neg hready]
    exact ⟨rfl, rfl⟩
  refine ⟨(dequeueMultiple lg (enqueue lg queue 7).1 1).1, _, rfl, ?_, ?_⟩
  · rw [hdeq.1, UInt64.toNat_add, he, UInt64.toNat_one]
    omega
  · rw [hdeq.2, UInt32.toNat_toUInt64, UInt32.toNat_add, UInt64.toNat_toUInt32, hd,
      UInt32.toNat_one]
    omega

/-- Up to 2^32 packets the counters follow. -/
theorem handOvers_counters {lg : Nat} (hlg : lg ≤ 30) (node : Nat → Nat) (n : Nat)
    (hn : n < 2 ^ 32) :
    ∃ queue replies, (intel lg).run (init node) (handOvers n) = some (queue, replies)
      ∧ queue.enqueueCount.toNat = n ∧ queue.dequeueCount.toNat = n := by
  induction n with
  | zero => exact ⟨init node, [], rfl, rfl, rfl⟩
  | succ n ih =>
      obtain ⟨queue, rs, hrun, he, hd⟩ := ih (by omega)
      obtain ⟨queue', rs', hrun', he', hd'⟩ := handOver_counters hlg he hd (by omega)
      refine ⟨queue', rs ++ rs', ?_, he', by omega⟩
      unfold handOvers
      rw [List.replicate_succ', List.flatten_append, Machine.run_append]
      exact ⟨queue, rs, rs', hrun, by simpa using hrun', rfl⟩

theorem handOvers_fifo {cap : Nat} (hcap : 0 < cap) (n : Nat) :
    ∃ replies, (fifo cap).run [] (handOvers n) = some ([], replies) := by
  induction n with
  | zero => exact ⟨[], rfl⟩
  | succ n ih =>
      obtain ⟨rs, hrun⟩ := ih
      have hone : (fifo cap).run [] handOver = some ([], [(0, []), (0, [7])]) := by
        rw [handOver, fifo_run_cons, fifoCall_enqueue 7 hcap]
        rfl
      refine ⟨rs ++ [(0, []), (0, [7])], ?_⟩
      unfold handOvers
      rw [List.replicate_succ', List.flatten_append, Machine.run_append]
      exact ⟨[], rs, _, hrun, by simpa using hone, rfl⟩

/-- **After 2^32 packets the queue is no FIFO any more**: the batch dequeue
    that brings its counter to 2^32 stores 0, and the next one delivers a slot
    of the empty queue. -/
theorem parserQueue_not_fifo :
    ¬ ∀ calls : List (Call Nat), Agree 10 (init fun _ => 0) [] calls := by
  intro hall
  obtain ⟨q, rs, hrun, he, hd⟩ :=
    handOvers_counters (show 10 ≤ 30 by omega) (fun _ => 0) (2 ^ 32 - 1) (by omega)
  obtain ⟨rs', hfifo⟩ := handOvers_fifo (show 0 < 2 ^ 10 by decide) (2 ^ 32 - 1)
  have hagree := agree_append hrun hfifo
    (hall (handOvers (2 ^ 32 - 1) ++ (handOver ++ [.dequeueMultiple 1])))
  obtain ⟨q', rs₁, hlast, he', hd'⟩ := handOver_counters (show 10 ≤ 30 by omega) he hd (by omega)
  have hfifo' : (fifo (2 ^ 10)).run ([] : List Nat) handOver
      = some ([], [(0, []), (0, [7])]) := by decide
  obtain ⟨hreply, _⟩ := (agree_cons 10 q' [] (.dequeueMultiple 1) []).mp
    (agree_append hlast hfifo' hagree)
  have hready : ¬ q'.dequeueCount + (1 : UInt32).toUInt64 > q'.enqueueCount := by
    rw [gt_iff_lt, UInt64.lt_iff_toNat_lt, UInt64.toNat_add, he', hd', UInt32.toNat_toUInt64,
      UInt32.toNat_one]
    omega
  unfold call dequeueMultiple at hreply
  simp only [if_neg hready] at hreply
  simp [fifoCall, Fifo.pop, refused] at hreply

end FreePacket.Queue
