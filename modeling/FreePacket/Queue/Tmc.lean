/-
  FreePacket.Queue.Tmc
  ────────────────────
  **THE `TMC_QUEUE` MACRO (`queue_tilegx.h`), and how far the two platform
  queues agree.**

  On the TILE-Gx the pipeline uses this queue under the names the Intel
  header gives its own.  One call is one function here as there: spin locks,
  fences and prefetches do nothing in a sequential run, and `FLAGS` only
  chooses which locks are taken.  The `dequeue_multiple` is the repository's
  addition.

  The two headers test the fill level in different forms.  Three of the four
  tests say the same; the batch dequeue does not: where Intel refuses a batch
  larger than the content, TMC also refuses one of exactly that size.

  Main results:
    * `call_alike` — one call on two queues that are alike.
    * `tmcQueue_agrees_iff` — equal replies over a run, exactly.
-/
import FreePacket.Queue.Refinement

namespace FreePacket.Queue.Tmc

open FreePacket.Lib

variable {α : Type}

/-! ## §1. The queue and its four operations. -/

/-- `NAME##_t`. -/
structure TmcQueue (α : Type) where
  enqueueCount : UInt64
  dequeueCount : UInt64
  array : Nat → α

/-- `NAME##_init`: it leaves the array as it is. -/
def init (array : Nat → α) : TmcQueue α :=
  { enqueueCount := 0, dequeueCount := 0, array := array }

/-- `NAME##_enqueue`. -/
def enqueue (lg : Nat) (queue : TmcQueue α) (object : α) : TmcQueue α × Int :=
  if queue.enqueueCount - queue.dequeueCount ≥ entries lg then
    (queue, -1)
  else
    let i := slot lg queue.enqueueCount
    ({ queue with
        array := Function.update queue.array i object
        enqueueCount := queue.enqueueCount + 1 }, 0)

/-- The `while (enqueue_num-- != 0)` loop, on the `unsigned int` local. -/
def enqueueLoop (lg : Nat) : Nat → (Nat → α) → UInt32 → TmcQueue α → UInt32 × TmcQueue α
  | 0, _, enqueueCount, queue => (enqueueCount, queue)
  | n + 1, object, enqueueCount, queue =>
      let i := slot32 lg enqueueCount
      enqueueLoop lg n (fun k => object (k + 1)) (enqueueCount + 1)
        { queue with array := Function.update queue.array i (object 0) }

/-- `NAME##_enqueue_multiple`. -/
def enqueueMultiple (lg : Nat) (queue : TmcQueue α) (object : Nat → α) (enqueueNum : UInt32) :
    TmcQueue α × Int :=
  if queue.enqueueCount + enqueueNum.toUInt64 - queue.dequeueCount > entries lg then
    (queue, -1)
  else
    let r := enqueueLoop lg enqueueNum.toNat object queue.enqueueCount.toUInt32 queue
    ({ r.2 with enqueueCount := r.1.toUInt64 }, 0)

/-- `NAME##_dequeue`: the return code, and `*output` where it is written. -/
def dequeue (lg : Nat) (queue : TmcQueue α) : TmcQueue α × Int × List α :=
  if queue.enqueueCount = queue.dequeueCount then
    (queue, -1, [])
  else
    let i := slot lg queue.dequeueCount
    ({ queue with dequeueCount := queue.dequeueCount + 1 }, 0, [queue.array i])

/-- The `while(dequeue_num-- != 0)` loop, with the elements it writes to `*(output++)`. -/
def dequeueLoop (lg : Nat) (queue : TmcQueue α) : Nat → UInt32 → UInt32 × List α
  | 0, dequeueCount => (dequeueCount, [])
  | n + 1, dequeueCount =>
      let i := slot32 lg dequeueCount
      let r := dequeueLoop lg queue n (dequeueCount + 1)
      (r.1, queue.array i :: r.2)

/-- `NAME##_dequeue_multiple`: its test refuses a batch of exactly the content. -/
def dequeueMultiple (lg : Nat) (queue : TmcQueue α) (dequeueNum : UInt32) :
    TmcQueue α × Int × List α :=
  if queue.enqueueCount ≤ queue.dequeueCount + dequeueNum.toUInt64 then
    (queue, -1, [])
  else
    let r := dequeueLoop lg queue dequeueNum.toNat queue.dequeueCount.toUInt32
    ({ queue with dequeueCount := r.1.toUInt64 }, 0, r.2)

/-- One call, under the common names. -/
def call (lg : Nat) (queue : TmcQueue α) : Call α → TmcQueue α × Reply α
  | .enqueue object => let r := enqueue lg queue object; (r.1, r.2, [])
  | .enqueueMultiple object n => let r := enqueueMultiple lg queue object n; (r.1, r.2, [])
  | .dequeue => dequeue lg queue
  | .dequeueMultiple n => dequeueMultiple lg queue n

/-- The queue under any sequence of calls. -/
def tmc (lg : Nat) : Machine (TmcQueue α) (Call α) (Reply α) where
  step queue c := some (call lg queue c)

/-! ## §2. Two queues that are alike. -/

/-- Every slot a queue with these counters can deliver has the same value in
    both arrays: all of them, or, before the array has been filled once, those
    below `enqueueCount`. -/
def SlotsAlike (lg : Nat) (enqueueCount dequeueCount : UInt64) (node array : Nat → α) : Prop :=
  (∀ i, i < 2 ^ lg → node i = array i)
    ∨ (dequeueCount.toNat ≤ enqueueCount.toNat ∧ enqueueCount.toNat < 2 ^ lg
      ∧ ∀ i, i < enqueueCount.toNat → node i = array i)

/-- Equal counters, and equal values wherever a dequeue can look. -/
structure Alike (lg : Nat) (queue : IntelQueue α) (tile : TmcQueue α) : Prop where
  enqueueCount_eq : tile.enqueueCount = queue.enqueueCount
  dequeueCount_eq : tile.dequeueCount = queue.dequeueCount
  slots : SlotsAlike lg queue.enqueueCount queue.dequeueCount queue.node tile.array

theorem alike_init (lg : Nat) (node array : Nat → α) :
    Alike lg (Queue.init node) (init array) where
  enqueueCount_eq := rfl
  dequeueCount_eq := rfl
  slots := Or.inr ⟨Nat.le_refl _, Nat.two_pow_pos lg, fun _ hi => absurd hi (Nat.not_lt_zero _)⟩

section Slots

variable {lg : Nat} {e d : UInt64} {node array : Nat → α}

/-- **Filling**: when the next `n` slots behind `e` come to agree and nothing
    that agreed is lost, the queue with the counter `e + n` is alike. -/
theorem SlotsAlike.extend (h : SlotsAlike lg e d node array) {e' : UInt64} {n : Nat}
    {node' array' : Nat → α} (hcount : e.toNat < 2 ^ lg → e'.toNat = e.toNat + n)
    (hkeep : ∀ i, i < 2 ^ lg → node i = array i → node' i = array' i)
    (hfill : e.toNat < 2 ^ lg → ∀ k, k < n → e.toNat + k < 2 ^ lg →
      node' (e.toNat + k) = array' (e.toNat + k)) :
    SlotsAlike lg e' d node' array' := by
  cases h with
  | inl hall => exact Or.inl fun i hi => hkeep i hi (hall i hi)
  | inr hearly =>
      obtain ⟨hde, he, hslots⟩ := hearly
      have he' := hcount he
      -- a slot below the new counter is an old one or one of the `n` new ones
      have hnew : ∀ i, i < 2 ^ lg → i < e.toNat + n → node' i = array' i := by
        intro i hi hin
        by_cases hie : i < e.toNat
        · exact hkeep i hi (hslots i hie)
        · have hk := hfill he (i - e.toNat) (by omega) (by omega)
          rw [show e.toNat + (i - e.toNat) = i by omega] at hk
          exact hk
      by_cases hfull : e.toNat + n < 2 ^ lg
      · exact Or.inr ⟨by omega, by omega, fun i hi => hnew i (by omega) (by omega)⟩
      · exact Or.inl fun i hi => hnew i hi (by omega)

/-- **Taking**: only the dequeue counter moves, and not past the other one. -/
theorem SlotsAlike.take (h : SlotsAlike lg e d node array) {d' : UInt64}
    (hd : d.toNat ≤ e.toNat → e.toNat < 2 ^ lg → d'.toNat ≤ e.toNat) :
    SlotsAlike lg e d' node array := by
  cases h with
  | inl hall => exact Or.inl hall
  | inr hearly =>
      obtain ⟨hde, he, hslots⟩ := hearly
      exact Or.inr ⟨hd hde he, he, hslots⟩

/-- A slot that is in front of the enqueue counter while the array has not
    been filled once has the same value on both sides. -/
theorem SlotsAlike.read (h : SlotsAlike lg e d node array) {i : Nat} (hi : i < 2 ^ lg)
    (hearly : d.toNat ≤ e.toNat → e.toNat < 2 ^ lg → i < e.toNat) : node i = array i := by
  cases h with
  | inl hall => exact hall i hi
  | inr hleft =>
      obtain ⟨hde, he, hslots⟩ := hleft
      exact hslots i (hearly hde he)

end Slots

/-! ## §3. The batch loops. -/

/-- Position `k` of a batch that starts at `count`. -/
def batchSlot (lg : Nat) (count : UInt32) (k : Nat) : Nat :=
  slot32 lg (count + UInt32.ofNat k)

theorem batchSlot_eq {lg : Nat} (hlg : lg ≤ 30) (count : UInt64) (k : Nat) :
    batchSlot lg count.toUInt32 k = (count.toNat + k) % 2 ^ lg := by
  unfold batchSlot
  rw [slot32_eq hlg, UInt32.toNat_add, mod_two_pow_32 hlg, UInt64.toNat_toUInt32,
    UInt32.toNat_ofNat', Nat.add_mod, mod_two_pow_32 hlg, mod_two_pow_32 hlg, ← Nat.add_mod]

theorem batchSlot_zero (lg : Nat) (count : UInt32) : batchSlot lg count 0 = slot32 lg count := by
  unfold batchSlot
  rw [show UInt32.ofNat 0 = 0 from rfl, UInt32.add_zero]

theorem batchSlot_succ (lg : Nat) (count : UInt32) (k : Nat) :
    batchSlot lg (count + 1) k = batchSlot lg count (k + 1) := by
  unfold batchSlot
  rw [add_one_add_ofNat]

/-- What the two enqueue loops have in common: the counter, and the values in
    the slots of the batch. -/
theorem enqueueLoop_alike (lg n : Nat) :
    ∀ (data : Nat → α) (count : UInt32) (queue : IntelQueue α) (tile : TmcQueue α),
      (Queue.enqueueLoop lg n data count queue).1 = count + UInt32.ofNat n
        ∧ (enqueueLoop lg n data count tile).1 = count + UInt32.ofNat n
        ∧ (Queue.enqueueLoop lg n data count queue).2.dequeueCount = queue.dequeueCount
        ∧ (enqueueLoop lg n data count tile).2.dequeueCount = tile.dequeueCount
        ∧ ∀ i, (queue.node i = tile.array i ∨ ∃ k, k < n ∧ batchSlot lg count k = i) →
          (Queue.enqueueLoop lg n data count queue).2.node i
            = (enqueueLoop lg n data count tile).2.array i := by
  -- the slots may wrap onto each other: a later write wins on both sides alike
  induction n with
  | zero =>
      intro data count queue tile
      have hzero : count + UInt32.ofNat 0 = count := UInt32.add_zero count
      refine ⟨hzero.symm, hzero.symm, rfl, rfl, ?_⟩
      rintro i (hi | ⟨k, hk, _⟩)
      · exact hi
      · exact absurd hk (Nat.not_lt_zero k)
  | succ n ih =>
      intro data count queue tile
      obtain ⟨h₁, h₂, h₃, h₄, h₅⟩ := ih (fun k => data (k + 1)) (count + 1)
        { queue with
            node := Function.update queue.node (slot32 lg count) (data 0)
            length := queue.length + 1 }
        { tile with array := Function.update tile.array (slot32 lg count) (data 0) }
      have hsucc := add_one_add_ofNat count n
      refine ⟨h₁.trans hsucc, h₂.trans hsucc, h₃, h₄, ?_⟩
      intro i hi
      apply h₅ i
      by_cases hfirst : i = slot32 lg count
      · -- the first value of the batch, written on both sides
        left
        show Function.update queue.node (slot32 lg count) (data 0) i
          = Function.update tile.array (slot32 lg count) (data 0) i
        rw [hfirst, Function.update_self, Function.update_self]
      · -- another slot: alike before the loop, or written by the rest of the batch
        rcases hi with hi | ⟨k, hk, hslot⟩
        · left
          show Function.update queue.node (slot32 lg count) (data 0) i
            = Function.update tile.array (slot32 lg count) (data 0) i
          rw [Function.update_of_ne hfirst, Function.update_of_ne hfirst]
          exact hi
        · right
          cases k with
          | zero => exact absurd (hslot.symm.trans (batchSlot_zero lg count)) hfirst
          | succ k => exact ⟨k, by omega, (batchSlot_succ lg count k).trans hslot⟩

/-- The two dequeue loops deliver the same values where the slots of the batch agree. -/
theorem dequeueLoop_alike (lg n : Nat) :
    ∀ (count : UInt32) (queue : IntelQueue α) (tile : TmcQueue α),
      (∀ k, k < n → queue.node (batchSlot lg count k) = tile.array (batchSlot lg count k)) →
      (Queue.dequeueLoop lg n count queue).1 = count + UInt32.ofNat n
        ∧ (dequeueLoop lg tile n count).1 = count + UInt32.ofNat n
        ∧ (Queue.dequeueLoop lg n count queue).2.1.enqueueCount = queue.enqueueCount
        ∧ (Queue.dequeueLoop lg n count queue).2.1.node = queue.node
        ∧ (Queue.dequeueLoop lg n count queue).2.2 = (dequeueLoop lg tile n count).2 := by
  induction n with
  | zero =>
      intro count queue tile _
      have hzero : count + UInt32.ofNat 0 = count := UInt32.add_zero count
      exact ⟨hzero.symm, hzero.symm, rfl, rfl, rfl⟩
  | succ n ih =>
      intro count queue tile hslots
      obtain ⟨h₁, h₂, h₃, h₄, h₅⟩ := ih (count + 1) { queue with length := queue.length - 1 } tile
        (by
          intro k hk
          rw [batchSlot_succ]
          exact hslots (k + 1) (by omega))
      have hsucc := add_one_add_ofNat count n
      have hhead := hslots 0 (Nat.succ_pos n)
      rw [batchSlot_zero] at hhead
      refine ⟨h₁.trans hsucc, h₂.trans hsucc, h₃, h₄, ?_⟩
      show queue.node (slot32 lg count) :: _ = tile.array (slot32 lg count) :: _
      rw [hhead, h₅]

/-! ## §4. One call on each. -/

/-- **The calls the two batch dequeues decide alike**: all but a batch of
    exactly as many elements as the counters are apart. -/
def SameTest (queue : IntelQueue α) : Call α → Prop
  | .dequeueMultiple n => queue.dequeueCount + n.toUInt64 ≠ queue.enqueueCount
  | _ => True

instance (queue : IntelQueue α) (c : Call α) : Decidable (SameTest queue c) :=
  match c with
  | .dequeueMultiple n =>
      inferInstanceAs (Decidable (queue.dequeueCount + n.toUInt64 ≠ queue.enqueueCount))
  | .enqueue _ | .enqueueMultiple _ _ | .dequeue => inferInstanceAs (Decidable True)

/-- What one call on two queues that are alike does. -/
def CallsAlike (lg : Nat) (queue : IntelQueue α) (tile : TmcQueue α) (c : Call α) : Prop :=
  ((Queue.call lg queue c).2 = (call lg tile c).2 ↔ SameTest queue c)
    ∧ (SameTest queue c → Alike lg (Queue.call lg queue c).1 (call lg tile c).1)

/-- A call both tests decide alike. -/
theorem callsAlike_of_same {lg : Nat} {queue queue' : IntelQueue α} {tile tile' : TmcQueue α}
    {c : Call α} {r r' : Reply α} (hc : SameTest queue c)
    (hintel : Queue.call lg queue c = (queue', r)) (htmc : call lg tile c = (tile', r'))
    (hreply : r = r') (hnext : Alike lg queue' tile') : CallsAlike lg queue tile c := by
  unfold CallsAlike
  rw [hintel, htmc]
  exact ⟨⟨fun _ => hc, fun _ => hreply⟩, fun _ => hnext⟩

theorem enqueue_alike {lg : Nat} (hlg : lg ≤ 30) {queue : IntelQueue α} {tile : TmcQueue α}
    (h : Alike lg queue tile) (x : α) : CallsAlike lg queue tile (.enqueue x) := by
  have hle := two_pow_le hlg
  have he := h.enqueueCount_eq
  have hd := h.dequeueCount_eq
  -- the counters are equal, so both sides test the same condition
  by_cases hfull : queue.enqueueCount - queue.dequeueCount ≥ entries lg
  · have hintel : Queue.call lg queue (.enqueue x) = (queue, (-1, [])) := by
      simp only [Queue.call, Queue.enqueue, if_pos hfull]
    have htmc : call lg tile (.enqueue x) = (tile, (-1, [])) := by
      simp only [call, enqueue, he, hd, if_pos hfull]
    exact callsAlike_of_same trivial hintel htmc rfl h
  · have hintel : Queue.call lg queue (.enqueue x)
        = ({ queue with
              node := Function.update queue.node (slot lg queue.enqueueCount) x
              enqueueCount := queue.enqueueCount + 1
              length := queue.length + 1 }, (0, [])) := by
      simp only [Queue.call, Queue.enqueue, if_neg hfull]
    have htmc : call lg tile (.enqueue x)
        = ({ tile with
              array := Function.update tile.array (slot lg queue.enqueueCount) x
              enqueueCount := queue.enqueueCount + 1 }, (0, [])) := by
      simp only [call, enqueue, he, hd, if_neg hfull]
    refine callsAlike_of_same trivial hintel htmc rfl ⟨rfl, hd, ?_⟩
    have hcount : queue.enqueueCount.toNat < 2 ^ lg →
        (queue.enqueueCount + 1).toNat = queue.enqueueCount.toNat + 1 := by
      intro hlt
      rw [UInt64.toNat_add, UInt64.toNat_one]
      omega
    have hsame : Function.update queue.node (slot lg queue.enqueueCount) x
          (slot lg queue.enqueueCount)
        = Function.update tile.array (slot lg queue.enqueueCount) x
          (slot lg queue.enqueueCount) := by
      rw [Function.update_self, Function.update_self]
    refine h.slots.extend hcount ?_ ?_
    · intro i _ heq
      show Function.update queue.node (slot lg queue.enqueueCount) x i
        = Function.update tile.array (slot lg queue.enqueueCount) x i
      by_cases hi : i = slot lg queue.enqueueCount
      · rw [hi]
        exact hsame
      · rw [Function.update_of_ne hi, Function.update_of_ne hi, heq]
    · intro hlt k hk _
      have hi : queue.enqueueCount.toNat + k = slot lg queue.enqueueCount := by
        rw [slot_eq hlg, Nat.mod_eq_of_lt hlt]
        omega
      rw [hi]
      exact hsame

theorem enqueueMultiple_alike {lg : Nat} (hlg : lg ≤ 30) {queue : IntelQueue α}
    {tile : TmcQueue α} (h : Alike lg queue tile) (data : Nat → α) (n : UInt32) :
    CallsAlike lg queue tile (.enqueueMultiple data n) := by
  have hle := two_pow_le hlg
  have he := h.enqueueCount_eq
  have hd := h.dequeueCount_eq
  by_cases hfull : queue.enqueueCount + n.toUInt64 - queue.dequeueCount > entries lg
  · have hintel : Queue.call lg queue (.enqueueMultiple data n) = (queue, (-1, [])) := by
      simp only [Queue.call, Queue.enqueueMultiple, if_pos hfull]
    have htmc : call lg tile (.enqueueMultiple data n) = (tile, (-1, [])) := by
      simp only [call, enqueueMultiple, he, hd, if_pos hfull]
    exact callsAlike_of_same trivial hintel htmc rfl h
  · have hintel : Queue.call lg queue (.enqueueMultiple data n)
        = ({ (Queue.enqueueLoop lg n.toNat data queue.enqueueCount.toUInt32 queue).2 with
              enqueueCount := (Queue.enqueueLoop lg n.toNat data
                queue.enqueueCount.toUInt32 queue).1.toUInt64 }, (0, [])) := by
      simp only [Queue.call, Queue.enqueueMultiple, if_neg hfull]
    have htmc : call lg tile (.enqueueMultiple data n)
        = ({ (enqueueLoop lg n.toNat data queue.enqueueCount.toUInt32 tile).2 with
              enqueueCount := (enqueueLoop lg n.toNat data
                queue.enqueueCount.toUInt32 tile).1.toUInt64 }, (0, [])) := by
      simp only [call, enqueueMultiple, he, hd, if_neg hfull]
    obtain ⟨h₁, h₂, h₃, h₄, h₅⟩ :=
      enqueueLoop_alike lg n.toNat data queue.enqueueCount.toUInt32 queue tile
    rw [h₁] at hintel
    rw [h₂] at htmc
    refine callsAlike_of_same trivial hintel htmc rfl
      ⟨rfl, h₄.trans (hd.trans h₃.symm), ?_⟩
    show SlotsAlike lg _ (Queue.enqueueLoop lg n.toNat data _ queue).2.dequeueCount _ _
    rw [h₃]
    rcases h.slots with hall | hearly
    · exact Or.inl fun i hi => h₅ i (Or.inl (hall i hi))
    -- before the array has been filled once no sum wraps, so the batch has room
    have hn := n.toNat_lt
    have hroom : queue.enqueueCount.toNat + n.toNat ≤ queue.dequeueCount.toNat + 2 ^ lg := by
      rw [gt_iff_lt, UInt64.lt_iff_toNat_lt, entries_toNat hlg] at hfull
      simp only [UInt64.toNat_sub, UInt64.toNat_add, UInt32.toNat_toUInt64] at hfull
      omega
    have hcount : (queue.enqueueCount.toUInt32 + UInt32.ofNat n.toNat).toUInt64.toNat
        = queue.enqueueCount.toNat + n.toNat := by
      rw [UInt32.toNat_toUInt64, UInt32.toNat_add, UInt64.toNat_toUInt32, UInt32.ofNat_toNat]
      omega
    refine SlotsAlike.extend (Or.inr hearly) (fun _ => hcount) ?_ ?_
    · exact fun i _ heq => h₅ i (Or.inl heq)
    · intro _ k hk hlt
      refine h₅ _ (Or.inr ⟨k, hk, ?_⟩)
      rw [batchSlot_eq hlg, Nat.mod_eq_of_lt hlt]

theorem dequeue_alike {lg : Nat} (hlg : lg ≤ 30) {queue : IntelQueue α} {tile : TmcQueue α}
    (h : Alike lg queue tile) : CallsAlike lg queue tile .dequeue := by
  have hle := two_pow_le hlg
  have he := h.enqueueCount_eq
  have hd := h.dequeueCount_eq
  by_cases hempty : queue.enqueueCount = queue.dequeueCount
  · have hintel : Queue.call lg queue .dequeue = (queue, (-1, [])) := by
      simp only [Queue.call, Queue.dequeue, if_pos hempty]
    have htmc : call lg tile .dequeue = (tile, (-1, [])) := by
      simp only [call, dequeue, he, hd, if_pos hempty]
    exact callsAlike_of_same trivial hintel htmc rfl h
  · have hintel : Queue.call lg queue .dequeue
        = ({ queue with
              dequeueCount := queue.dequeueCount + 1
              length := queue.length - 1 },
            (0, [queue.node (slot lg queue.dequeueCount)])) := by
      simp only [Queue.call, Queue.dequeue, if_neg hempty]
    have htmc : call lg tile .dequeue
        = ({ tile with dequeueCount := queue.dequeueCount + 1 },
            (0, [tile.array (slot lg queue.dequeueCount)])) := by
      simp only [call, dequeue, he, hd, if_neg hempty]
    have hne : queue.enqueueCount.toNat ≠ queue.dequeueCount.toNat :=
      fun heq => hempty (UInt64.toNat_inj.mp heq)
    -- the slot read was written since the start, the queue not being empty
    have hread : queue.node (slot lg queue.dequeueCount)
        = tile.array (slot lg queue.dequeueCount) := by
      refine h.slots.read (slot_lt hlg _) ?_
      intro hde hearly
      rw [slot_eq hlg, Nat.mod_eq_of_lt (by omega)]
      omega
    refine callsAlike_of_same trivial hintel htmc (by rw [hread]) ⟨he, rfl, ?_⟩
    refine h.slots.take ?_
    intro hde hearly
    rw [UInt64.toNat_add, UInt64.toNat_one]
    omega

theorem dequeueMultiple_alike {lg : Nat} (hlg : lg ≤ 30) {queue : IntelQueue α}
    {tile : TmcQueue α} (h : Alike lg queue tile) (n : UInt32)
    (hsame : SameTest queue (.dequeueMultiple n)) :
    CallsAlike lg queue tile (.dequeueMultiple n) := by
  have hle := two_pow_le hlg
  have he := h.enqueueCount_eq
  have hd := h.dequeueCount_eq
  -- `<=` and `<` part only where the two sides are equal
  have hiff : queue.enqueueCount ≤ queue.dequeueCount + n.toUInt64
      ↔ queue.dequeueCount + n.toUInt64 > queue.enqueueCount := by
    have hne : queue.dequeueCount + n.toUInt64 ≠ queue.enqueueCount := hsame
    rw [gt_iff_lt, UInt64.lt_iff_toNat_lt, UInt64.le_iff_toNat_le]
    rw [ne_eq, ← UInt64.toNat_inj] at hne
    omega
  by_cases hshort : queue.dequeueCount + n.toUInt64 > queue.enqueueCount
  · have hintel : Queue.call lg queue (.dequeueMultiple n) = (queue, (-1, [])) := by
      simp only [Queue.call, Queue.dequeueMultiple, if_pos hshort]
    have htmc : call lg tile (.dequeueMultiple n) = (tile, (-1, [])) := by
      simp only [call, dequeueMultiple, he, hd, if_pos (hiff.mpr hshort)]
    exact callsAlike_of_same hsame hintel htmc rfl h
  · have hintel : Queue.call lg queue (.dequeueMultiple n)
        = ({ (Queue.dequeueLoop lg n.toNat queue.dequeueCount.toUInt32 queue).2.1 with
              dequeueCount := (Queue.dequeueLoop lg n.toNat
                queue.dequeueCount.toUInt32 queue).1.toUInt64 },
            (0, (Queue.dequeueLoop lg n.toNat queue.dequeueCount.toUInt32 queue).2.2)) := by
      simp only [Queue.call, Queue.dequeueMultiple, if_neg hshort]
    have htmc : call lg tile (.dequeueMultiple n)
        = ({ tile with
              dequeueCount := (dequeueLoop lg tile n.toNat
                queue.dequeueCount.toUInt32).1.toUInt64 },
            (0, (dequeueLoop lg tile n.toNat queue.dequeueCount.toUInt32).2)) := by
      simp only [call, dequeueMultiple, he, hd, if_neg (fun hc => hshort (hiff.mp hc))]
    have hn := n.toNat_lt
    -- in the first turn of the ring only written slots are alike, and a batch
    -- that is not refused lies in them
    have henough : queue.dequeueCount.toNat ≤ queue.enqueueCount.toNat →
        queue.enqueueCount.toNat < 2 ^ lg →
        queue.dequeueCount.toNat + n.toNat ≤ queue.enqueueCount.toNat := by
      intro hde hearly
      rw [gt_iff_lt, UInt64.lt_iff_toNat_lt, UInt64.toNat_add, UInt32.toNat_toUInt64] at hshort
      omega
    have hread : ∀ k, k < n.toNat → queue.node (batchSlot lg queue.dequeueCount.toUInt32 k)
        = tile.array (batchSlot lg queue.dequeueCount.toUInt32 k) := by
      intro k hk
      rw [batchSlot_eq hlg]
      refine h.slots.read (Nat.mod_lt _ (Nat.two_pow_pos lg)) ?_
      intro hde hearly
      have hen := henough hde hearly
      rw [Nat.mod_eq_of_lt (by omega)]
      omega
    obtain ⟨h₁, h₂, h₃, h₄, h₅⟩ :=
      dequeueLoop_alike lg n.toNat queue.dequeueCount.toUInt32 queue tile hread
    rw [h₁] at hintel
    rw [h₂] at htmc
    refine callsAlike_of_same hsame hintel htmc (by rw [h₅]) ⟨he.trans h₃.symm, rfl, ?_⟩
    show SlotsAlike lg (Queue.dequeueLoop lg n.toNat _ queue).2.1.enqueueCount _
      (Queue.dequeueLoop lg n.toNat _ queue).2.1.node _
    rw [h₃, h₄]
    refine h.slots.take ?_
    intro hde hearly
    have hen := henough hde hearly
    rw [UInt32.toNat_toUInt64, UInt32.toNat_add, UInt64.toNat_toUInt32, UInt32.ofNat_toNat]
    omega

/-- **A batch of exactly the content**: Intel delivers it, TMC refuses. -/
theorem exactBatch_parts {lg : Nat} {queue : IntelQueue α} {tile : TmcQueue α}
    (h : Alike lg queue tile) {n : UInt32}
    (hexact : queue.dequeueCount + n.toUInt64 = queue.enqueueCount) :
    (Queue.call lg queue (.dequeueMultiple n)).2.1 = 0
      ∧ (call lg tile (.dequeueMultiple n)).2 = (-1, []) := by
  have hintel : ¬ queue.dequeueCount + n.toUInt64 > queue.enqueueCount := by
    rw [hexact]
    exact UInt64.lt_irrefl _
  have htmc : queue.enqueueCount ≤ queue.dequeueCount + n.toUInt64 := by
    rw [hexact]
    exact UInt64.le_refl _
  constructor
  · simp only [Queue.call, Queue.dequeueMultiple, if_neg hintel]
  · simp only [call, dequeueMultiple, h.enqueueCount_eq, h.dequeueCount_eq, if_pos htmc]

/-- **One call on each queue**: equal replies exactly when the tests agree,
    and then the queues stay alike. -/
theorem call_alike {lg : Nat} (hlg : lg ≤ 30) {queue : IntelQueue α} {tile : TmcQueue α}
    (h : Alike lg queue tile) (c : Call α) : CallsAlike lg queue tile c := by
  cases c with
  | enqueue x => exact enqueue_alike hlg h x
  | enqueueMultiple data n => exact enqueueMultiple_alike hlg h data n
  | dequeue => exact dequeue_alike hlg h
  | dequeueMultiple n =>
      by_cases hexact : queue.dequeueCount + n.toUInt64 = queue.enqueueCount
      · obtain ⟨hintel, htmc⟩ := exactBatch_parts h hexact
        refine ⟨⟨fun heq => ?_, fun hsame => absurd hexact hsame⟩,
          fun hsame => absurd hexact hsame⟩
        rw [heq, htmc] at hintel
        exact absurd hintel (show ¬ (-1 : Int) = 0 by decide)
      · exact dequeueMultiple_alike hlg h n hexact

/-! ## §5. Runs. -/

/-- **THE TWO PLATFORM QUEUES AGREE EXACTLY WHILE NO BATCH DEQUEUE ASKS FOR ALL
    THERE IS.**  Whatever the two arrays hold at first, the replies of the two
    runs are equal if and only if every `dequeue_multiple` of the run meets
    counters that are not exactly `dequeue_num` apart. -/
theorem tmcQueue_agrees_iff {lg : Nat} (hlg : lg ≤ 30) (node array : Nat → α)
    (calls : List (Call α)) :
    ((intel lg).run (Queue.init node) calls).map Prod.snd
        = ((tmc lg).run (init array) calls).map Prod.snd
      ↔ (intel lg).Along SameTest (Queue.init node) calls := by
  refine Machine.replies_agree_iff (intel lg) (tmc lg) (Alike lg) (fun _ _ => ⟨_, rfl⟩) ?_
    (alike_init lg node array)
  intro queue tile c hR
  obtain ⟨hreply, hnext⟩ := call_alike hlg hR c
  exact ⟨_, _, _, _, rfl, rfl, hreply, hnext⟩

/-- Two elements in, one taken as a batch: the platforms agree. -/
theorem partialBatch_agrees :
    10 ≤ 30 ∧ ((intel 10).run (Queue.init fun _ => 0)
          [.enqueue 7, .enqueue 8, .dequeueMultiple 1]).map Prod.snd
      = ((tmc 10).run (init fun _ => 1) [.enqueue 7, .enqueue 8, .dequeueMultiple 1]).map Prod.snd :=
  ⟨by decide, (tmcQueue_agrees_iff (by decide) (fun _ => 0) (fun _ => 1) _).mpr
    ⟨trivial, fun _ _ h₁ => by
      obtain ⟨rfl, _⟩ := Prod.mk.inj (Option.some.inj h₁)
      refine ⟨trivial, fun _ _ h₂ => ?_⟩
      obtain ⟨rfl, _⟩ := Prod.mk.inj (Option.some.inj h₂)
      exact ⟨by decide, fun _ _ _ => trivial⟩⟩⟩

/-- One element in, taken as a batch of one: Intel delivers it, TMC refuses. -/
theorem exactBatch_disagrees :
    ¬ ∀ calls : List (Call Nat),
      ((intel 10).run (Queue.init fun _ => 0) calls).map Prod.snd
        = ((tmc 10).run (init fun _ => 0) calls).map Prod.snd := by
  intro hall
  have hbatch := hall [.enqueue 7, .dequeueMultiple 1]
  exact absurd hbatch (by decide)

end FreePacket.Queue.Tmc
