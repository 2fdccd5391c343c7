/-
  FreePacket.Queue.Shared
  ───────────────────────
  **ALL FOUR OPERATIONS OF A QUEUE, shared by any number of threads.**

  A call takes its mutex and then reads and writes the struct step by step:
  the check, every slot of a batch, every load and store of `length` and the
  final store of a counter are steps of their own, and between two of them
  the other side may do anything.  This is how the parser queues and the
  packet pools are used, with single operations on one side and batches on
  the other.

  The effect of a call is one of its steps: the store of `enqueue_count` or
  of `dequeue_count` where it succeeds, the check where it is refused.  With
  these instants every interleaving is one the bounded FIFO could have shown
  (`sharedRun_linearizable`), as long as the batches meet at their checks the
  condition the 32-bit locals ask for (`Fits`).

  Main result: `sharedRun_linearizable`.
-/
import FreePacket.Lib.Atomic
import FreePacket.Queue.Refinement

namespace FreePacket.Queue

open FreePacket.Lib FreePacket.Lib.Atomic

variable {α : Type}

/-! ## §1. Threads in the critical sections. -/

/-- Where a thread under `enqueue_mutex` is.  The batch positions carry what
    is left of the arguments, and the local `enqueue_count`. -/
inductive SenderPc (α : Type) where
  /-- `NAME##_enqueue`, at the room check. -/
  | check (data : α)
  /-- At `queue->node[i] = data`. -/
  | store (data : α)
  /-- At `++queue->enqueue_count`. -/
  | count (data : α)
  /-- At the load of `++queue->length`. -/
  | lengthen
  /-- At the store of `++queue->length`. -/
  | putLength (length : UInt32)
  /-- `NAME##_enqueue_multiple`, at the room check. -/
  | checkBatch (data : Nat → α) (enqueueNum : UInt32)
  /-- At `while(enqueue_num--)`. -/
  | loopBatch (data : Nat → α) (enqueueNum enqueueCount : UInt32)
  /-- At the load of `++queue->length` in the loop. -/
  | lengthenBatch (data : Nat → α) (enqueueNum enqueueCount : UInt32)
  /-- At the store of `++queue->length` in the loop. -/
  | putLengthBatch (data : Nat → α) (enqueueNum enqueueCount length : UInt32)

/-- Where a thread under `dequeue_mutex` is, with the elements it has written
    to its caller. -/
inductive ReceiverPc (α : Type) where
  /-- `NAME##_dequeue`, at the emptiness check. -/
  | check
  /-- At `*data = queue->node[i]`. -/
  | load
  /-- At `++queue->dequeue_count`. -/
  | count (data : α)
  /-- At the load of `--queue->length`. -/
  | shorten (data : α)
  /-- At the store of `--queue->length`. -/
  | putLength (data : α) (length : UInt32)
  /-- `NAME##_dequeue_multiple`, at the check. -/
  | checkBatch (dequeueNum : UInt32)
  /-- At `while(dequeue_num--)`. -/
  | loopBatch (dequeueNum dequeueCount : UInt32) (data : List α)
  /-- At the load of `--queue->length` in the loop. -/
  | shortenBatch (dequeueNum dequeueCount : UInt32) (data : List α)
  /-- At the store of `--queue->length` in the loop. -/
  | putLengthBatch (dequeueNum dequeueCount : UInt32) (data : List α) (length : UInt32)

/-- Where a thread is. -/
inductive Place (α : Type) where
  | outside
  /-- At `pthread_mutex_lock`. -/
  | locking (c : Call α)
  | sending (pc : SenderPc α)
  /-- At the unlock of `enqueue_mutex`. -/
  | sent (result : Int)
  | receiving (pc : ReceiverPc α)
  /-- At the unlock of `dequeue_mutex`. -/
  | received (result : Int) (data : List α)

/-- The next step of a sender. -/
def senderStep (lg : Nat) (queue : IntelQueue α) : SenderPc α → IntelQueue α × Place α
  | .check data =>
      if queue.enqueueCount - queue.dequeueCount ≥ entries lg then (queue, .sent (-1))
      else (queue, .sending (.store data))
  | .store data =>
      ({ queue with node := Function.update queue.node (slot lg queue.enqueueCount) data },
        .sending (.count data))
  | .count _ => ({ queue with enqueueCount := queue.enqueueCount + 1 }, .sending .lengthen)
  | .lengthen => (queue, .sending (.putLength (queue.length + 1)))
  | .putLength length => ({ queue with length := length }, .sent 0)
  | .checkBatch data enqueueNum =>
      if queue.enqueueCount + enqueueNum.toUInt64 - queue.dequeueCount > entries lg then
        (queue, .sent (-1))
      else (queue, .sending (.loopBatch data enqueueNum queue.enqueueCount.toUInt32))
  | .loopBatch data enqueueNum enqueueCount =>
      if enqueueNum = 0 then ({ queue with enqueueCount := enqueueCount.toUInt64 }, .sent 0)
      else
        ({ queue with node := Function.update queue.node (slot32 lg enqueueCount) (data 0) },
          .sending (.lengthenBatch (fun k => data (k + 1)) (enqueueNum - 1) enqueueCount))
  | .lengthenBatch data enqueueNum enqueueCount =>
      (queue, .sending (.putLengthBatch data enqueueNum enqueueCount (queue.length + 1)))
  | .putLengthBatch data enqueueNum enqueueCount length =>
      ({ queue with length := length },
        .sending (.loopBatch data enqueueNum (enqueueCount + 1)))

/-- The next step of a receiver. -/
def receiverStep (lg : Nat) (queue : IntelQueue α) : ReceiverPc α → IntelQueue α × Place α
  | .check =>
      if queue.enqueueCount = queue.dequeueCount then (queue, .received (-1) [])
      else (queue, .receiving .load)
  | .load => (queue, .receiving (.count (queue.node (slot lg queue.dequeueCount))))
  | .count data =>
      ({ queue with dequeueCount := queue.dequeueCount + 1 }, .receiving (.shorten data))
  | .shorten data => (queue, .receiving (.putLength data (queue.length - 1)))
  | .putLength data length => ({ queue with length := length }, .received 0 [data])
  | .checkBatch dequeueNum =>
      if queue.dequeueCount + dequeueNum.toUInt64 > queue.enqueueCount then
        (queue, .received (-1) [])
      else (queue, .receiving (.loopBatch dequeueNum queue.dequeueCount.toUInt32 []))
  | .loopBatch dequeueNum dequeueCount data =>
      if dequeueNum = 0 then ({ queue with dequeueCount := dequeueCount.toUInt64 }, .received 0 data)
      else
        (queue, .receiving (.shortenBatch (dequeueNum - 1) dequeueCount
          (data ++ [queue.node (slot32 lg dequeueCount)])))
  | .shortenBatch dequeueNum dequeueCount data =>
      (queue, .receiving (.putLengthBatch dequeueNum dequeueCount data (queue.length - 1)))
  | .putLengthBatch dequeueNum dequeueCount data length =>
      ({ queue with length := length },
        .receiving (.loopBatch dequeueNum (dequeueCount + 1) data))

/-- Which mutex a call takes, and where it starts. -/
def entry : Call α → SenderPc α ⊕ ReceiverPc α
  | .enqueue data => .inl (.check data)
  | .enqueueMultiple data n => .inl (.checkBatch data n)
  | .dequeue => .inr .check
  | .dequeueMultiple n => .inr (.checkBatch n)

/-- The queue, its mutexes with their owners, and the threads. -/
structure SharedQueue (α : Type) where
  queue : IntelQueue α
  enqueueMutex : Option Nat
  dequeueMutex : Option Nat
  place : Nat → Place α

/-- A thread calls, or goes on. -/
inductive SharedAction (α : Type) where
  | call (t : Nat) (c : Call α)
  | step (t : Nat)

/-- The queue under any interleaving of its threads. -/
def shared (lg : Nat) :
    Machine (SharedQueue α) (SharedAction α) (Option (Seen (Call α) (Reply α))) where
  step s a :=
    match a with
    | .call t c =>
        match s.place t with
        | .outside =>
            some ({ s with place := Function.update s.place t (.locking c) }, some (.call t c))
        | _ => none
    | .step t =>
        match s.place t with
        | .outside => none
        | .locking c =>
            match entry c with
            | .inl pc =>
                if s.enqueueMutex = none then
                  some ({ s with
                    enqueueMutex := some t
                    place := Function.update s.place t (.sending pc) }, none)
                else none
            | .inr pc =>
                if s.dequeueMutex = none then
                  some ({ s with
                    dequeueMutex := some t
                    place := Function.update s.place t (.receiving pc) }, none)
                else none
        | .sending pc =>
            let r := senderStep lg s.queue pc
            some ({ s with queue := r.1, place := Function.update s.place t r.2 }, none)
        | .sent result =>
            some ({ s with
              enqueueMutex := none
              place := Function.update s.place t .outside }, some (.ret t (result, [])))
        | .receiving pc =>
            let r := receiverStep lg s.queue pc
            some ({ s with queue := r.1, place := Function.update s.place t r.2 }, none)
        | .received result data =>
            some ({ s with
              dequeueMutex := none
              place := Function.update s.place t .outside }, some (.ret t (result, data)))

/-- An initialised queue nobody is using. -/
def unused (node : Nat → α) : SharedQueue α :=
  { queue := init node, enqueueMutex := none, dequeueMutex := none, place := fun _ => .outside }

/-- A batch overtakes a single call of the other side between its check and
    its return. -/
example :
    (((shared 2).run (unused fun _ => 0)
      ([.call 0 (.enqueueMultiple (fun k => k + 5) 2)] ++ List.replicate 9 (.step 0)
        ++ [.call 1 .dequeue, .step 1, .step 1, .call 2 (.dequeueMultiple 1), .step 0]
        ++ List.replicate 5 (.step 1))).map fun p => visible p.2)
      = some [.call 0 (.enqueueMultiple (fun k => k + 5) 2), .call 1 .dequeue,
          .call 2 (.dequeueMultiple 1), .ret 0 (0, []), .ret 1 (0, [5])] := by rfl

/-! ## §2. The counters. -/

section Counters

variable {lg n : Nat} {queue queue' : IntelQueue α} {len : Nat}

/-- The enqueue counter `n` further on counts `n` more. -/
theorem occupancy_advance (hocc : occupancy queue = len) (hlen : len + n < 2 ^ 64)
    (he : queue'.enqueueCount.toNat = (queue.enqueueCount.toNat + n) % 2 ^ 64)
    (hd : queue'.dequeueCount = queue.dequeueCount) : occupancy queue' = len + n := by
  have hd' := queue.dequeueCount.toNat_lt
  rw [Queue.occupancy_eq] at hocc ⊢
  rw [he, hd]
  omega

/-- The dequeue counter `n` further on counts `n` less. -/
theorem occupancy_release (hocc : occupancy queue = len) (hn : n ≤ len)
    (he : queue'.enqueueCount = queue.enqueueCount)
    (hd : queue'.dequeueCount.toNat = (queue.dequeueCount.toNat + n) % 2 ^ 64) :
    occupancy queue' = len - n := by
  have hd' := queue.dequeueCount.toNat_lt
  have he' := queue.enqueueCount.toNat_lt
  rw [Queue.occupancy_eq] at hocc ⊢
  rw [he, hd]
  omega

/-- The room check of a single enqueue. -/
theorem full_iff (hlg : lg ≤ 30) (hocc : occupancy queue = len) :
    queue.enqueueCount - queue.dequeueCount ≥ entries lg ↔ 2 ^ lg ≤ len := by
  unfold occupancy at hocc
  rw [ge_iff_le, UInt64.le_iff_toNat_le, entries_toNat hlg, hocc]

/-- The emptiness check of a single dequeue. -/
theorem empty_iff (hocc : occupancy queue = len) :
    queue.enqueueCount = queue.dequeueCount ↔ len = 0 := by
  have he := queue.enqueueCount.toNat_lt
  have hd := queue.dequeueCount.toNat_lt
  rw [Queue.occupancy_eq] at hocc
  rw [← UInt64.toNat_inj]
  omega

/-- The room check of a batch. -/
theorem noRoom_iff (hlg : lg ≤ 30) (hocc : occupancy queue = len) (hlen : len ≤ 2 ^ lg)
    (n : UInt32) :
    queue.enqueueCount + n.toUInt64 - queue.dequeueCount > entries lg ↔ 2 ^ lg < len + n.toNat := by
  have hle := two_pow_le hlg
  have he := queue.enqueueCount.toNat_lt
  have hd := queue.dequeueCount.toNat_lt
  have hn := n.toNat_lt
  rw [Queue.occupancy_eq] at hocc
  have hsum : (queue.enqueueCount + n.toUInt64 - queue.dequeueCount).toNat = len + n.toNat := by
    rw [UInt64.toNat_sub, UInt64.toNat_add, UInt32.toNat_toUInt64]
    omega
  rw [gt_iff_lt, UInt64.lt_iff_toNat_lt, entries_toNat hlg, hsum]

/-- The check of a batch dequeue that fits. -/
theorem short_iff (hlg : lg ≤ 30) (hocc : occupancy queue = len) (hlen : len ≤ 2 ^ lg)
    {n : UInt32} (hfit : Fits lg queue (.dequeueMultiple n)) :
    queue.dequeueCount + n.toUInt64 > queue.enqueueCount ↔ len < n.toNat := by
  have hle := two_pow_le hlg
  have he := queue.enqueueCount.toNat_lt
  have hd := queue.dequeueCount.toNat_lt
  have hn := n.toNat_lt
  simp only [Fits, hocc] at hfit
  rw [Queue.occupancy_eq] at hocc
  rw [gt_iff_lt, UInt64.lt_iff_toNat_lt, UInt64.toNat_add, UInt32.toNat_toUInt64]
  by_cases hshort : n.toNat ≤ len
  · rw [if_pos hshort, UInt64.toNat_add, UInt32.toNat_toUInt64] at hfit
    omega
  · rw [if_neg hshort, UInt64.le_iff_toNat_le] at hfit
    omega

/-- A 32-bit local that is `n` past a counter is the counter `n` further on,
    where that stays below 2^32. -/
theorem local_toNat (count : UInt64) (n : UInt32)
    (hfit : (count + n.toUInt64).toNat < 2 ^ 32) :
    (count.toUInt32 + n).toUInt64.toNat = (count.toNat + n.toNat) % 2 ^ 64 := by
  rw [UInt64.toNat_add, UInt32.toNat_toUInt64] at hfit
  rw [UInt32.toNat_toUInt64, UInt32.toNat_add, UInt64.toNat_toUInt32]
  omega

/-- The slot behind the content. -/
theorem write_slot (hlg : lg ≤ 30) (hocc : occupancy queue = len) :
    queue.enqueueCount.toNat % 2 ^ lg = (queue.dequeueCount.toNat + len) % 2 ^ lg := by
  have he := queue.enqueueCount.toNat_lt
  have hd := queue.dequeueCount.toNat_lt
  rw [Queue.occupancy_eq] at hocc
  have heq : queue.enqueueCount.toNat = (queue.dequeueCount.toNat + len) % 2 ^ 64 := by omega
  rw [heq, mod_two_pow_64 hlg]

/-- The slot of a 32-bit local that is `k` past a counter. -/
theorem local_slot (hlg : lg ≤ 30) (count : UInt64) (k : Nat) :
    slot32 lg (count.toUInt32 + UInt32.ofNat k) = (count.toNat + k) % 2 ^ lg := by
  rw [slot32_eq hlg, UInt32.toNat_add, mod_two_pow_32 hlg, UInt64.toNat_toUInt32,
    UInt32.toNat_ofNat', Nat.add_mod, mod_two_pow_32 hlg, mod_two_pow_32 hlg, ← Nat.add_mod]

end Counters

/-! ## §3. What holds at every position. -/

/-- A batch on its way into the queue: `stored` is in its slots, `data` and
    `enqueueNum` are what is left, `enqueueCount` is the local. -/
def Storing (lg : Nat) (queue : IntelQueue α) (content stored : List α)
    (p : Phase (Call α) (Reply α)) (data : Nat → α) (enqueueNum enqueueCount : UInt32) : Prop :=
  ∃ data₀ n₀, p = .called (.enqueueMultiple data₀ n₀)
    ∧ slice data₀ 0 n₀.toNat = stored ++ slice data 0 enqueueNum.toNat
    ∧ content.length + n₀.toNat ≤ 2 ^ lg
    ∧ (queue.enqueueCount + n₀.toUInt64).toNat < 2 ^ 32
    ∧ enqueueCount = queue.enqueueCount.toUInt32 + UInt32.ofNat stored.length

/-- A batch on its way out: `data` is written to the caller, `dequeueNum` is
    left, `dequeueCount` is the local. -/
def Loading (queue : IntelQueue α) (content : List α) (p : Phase (Call α) (Reply α))
    (dequeueNum dequeueCount : UInt32) (data : List α) : Prop :=
  ∃ n₀ : UInt32, p = .called (.dequeueMultiple n₀)
    ∧ data.length + dequeueNum.toNat = n₀.toNat
    ∧ n₀.toNat ≤ content.length
    ∧ data = content.take data.length
    ∧ (queue.dequeueCount + n₀.toUInt64).toNat < 2 ^ 32
    ∧ dequeueCount = queue.dequeueCount.toUInt32 + UInt32.ofNat data.length

/-- A sender, with `stored` in the slots behind `content`. -/
def SenderAt (lg : Nat) (queue : IntelQueue α) (content stored : List α)
    (p : Phase (Call α) (Reply α)) : SenderPc α → Prop
  | .check data => stored = [] ∧ p = .called (.enqueue data)
  | .store data => stored = [] ∧ content.length < 2 ^ lg ∧ p = .called (.enqueue data)
  | .count data => stored = [data] ∧ content.length < 2 ^ lg ∧ p = .called (.enqueue data)
  | .lengthen | .putLength _ => stored = [] ∧ ∃ c, p = .done c (0, [])
  | .checkBatch data n => stored = [] ∧ p = .called (.enqueueMultiple data n)
  | .loopBatch data n count => Storing lg queue content stored p data n count
  | .lengthenBatch data n count | .putLengthBatch data n count _ =>
      Storing lg queue content stored p data n (count + 1)

/-- A receiver, in front of `content`. -/
def ReceiverAt (queue : IntelQueue α) (content : List α) (p : Phase (Call α) (Reply α)) :
    ReceiverPc α → Prop
  | .check => p = .called .dequeue
  | .load => content ≠ [] ∧ p = .called .dequeue
  | .count data => (∃ rest, content = data :: rest) ∧ p = .called .dequeue
  | .shorten data | .putLength data _ => ∃ c, p = .done c (0, [data])
  | .checkBatch n => p = .called (.dequeueMultiple n)
  | .loopBatch n count data => Loading queue content p n count data
  | .shortenBatch n count data | .putLengthBatch n count data _ =>
      Loading queue content p n (count + 1) data

/-- A thread, and its phase at the atomic queue. -/
def ThreadAt (lg : Nat) (queue : IntelQueue α) (content stored : List α)
    (p : Phase (Call α) (Reply α)) : Place α → Prop
  | .outside => p = .idle
  | .locking c => p = .called c
  | .sending pc => SenderAt lg queue content stored p pc
  | .sent result => stored = [] ∧ ∃ c, p = .done c (result, [])
  | .receiving pc => ReceiverAt queue content p pc
  | .received result data => ∃ c, p = .done c (result, data)

/-- The places under `enqueue_mutex`. -/
def Place.sends : Place α → Bool
  | .sending _ | .sent _ => true
  | _ => false

/-- The places under `dequeue_mutex`. -/
def Place.receives : Place α → Bool
  | .receiving _ | .received _ _ => true
  | _ => false

/-- **The shared queue and the atomic one**: the counters and the slots hold
    the content, followed by what the present sender has `stored`; each
    thread is where its phase says; a mutex belongs to the thread inside. -/
structure Coupled (lg : Nat) (s : SharedQueue α) (o : Object (List α) (Call α) (Reply α))
    (stored : List α) : Prop where
  occupancy_eq : occupancy s.queue = o.state.length
  length_le : o.state.length ≤ 2 ^ lg
  holds : Holds (2 ^ lg) s.queue.node s.queue.dequeueCount.toNat (o.state ++ stored)
  threads : ∀ t, ThreadAt lg s.queue o.state stored (o.phase t) (s.place t)
  sender_owns : ∀ t, (s.place t).sends = true → s.enqueueMutex = some t
  receiver_owns : ∀ t, (s.place t).receives = true → s.dequeueMutex = some t
  unlocked : s.enqueueMutex = none → stored = []

theorem coupled_unused (lg : Nat) (node : Nat → α) :
    Coupled lg (unused node) (fresh []) ([] : List α) where
  occupancy_eq := by simp [occupancy, unused, init, fresh]
  length_le := Nat.zero_le _
  holds := holds_nil _ _ _
  threads := fun _ => rfl
  sender_owns := by
    intro t h
    exact absurd h (by simp [unused, Place.sends])
  receiver_owns := by
    intro t h
    exact absurd h (by simp [unused, Place.receives])
  unlocked := fun _ => rfl

/-! ## §4. What a step leaves of the other threads. -/

section Frames

variable {lg : Nat} {queue queue' : IntelQueue α} {content content' stored : List α}
  {p : Phase (Call α) (Reply α)}

/-- **A sender does not mind receivers**: elements may leave the content. -/
theorem SenderAt.mono {pc : SenderPc α} (h : SenderAt lg queue content stored p pc)
    (he : queue'.enqueueCount = queue.enqueueCount) (hlen : content'.length ≤ content.length) :
    SenderAt lg queue' content' stored p pc := by
  have hstoring : ∀ (data : Nat → α) (n count : UInt32),
      Storing lg queue content stored p data n count →
        Storing lg queue' content' stored p data n count := by
    intro data n count ⟨data₀, n₀, hp, hslice, hroom, hfit, hcount⟩
    refine ⟨data₀, n₀, hp, hslice, by omega, ?_, ?_⟩
    · rw [he]
      exact hfit
    · rw [he]
      exact hcount
  cases pc with
  | check data => exact h
  | store data => exact ⟨h.1, by have hlt := h.2.1; omega, h.2.2⟩
  | count data => exact ⟨h.1, by have hlt := h.2.1; omega, h.2.2⟩
  | lengthen => exact h
  | putLength length => exact h
  | checkBatch data n => exact h
  | loopBatch data n count => exact hstoring data n count h
  | lengthenBatch data n count => exact hstoring data n (count + 1) h
  | putLengthBatch data n count length => exact hstoring data n (count + 1) h

/-- **A receiver does not mind senders**: elements may come in behind. -/
theorem ReceiverAt.mono {pc : ReceiverPc α} (h : ReceiverAt queue content p pc)
    (hd : queue'.dequeueCount = queue.dequeueCount) (xs : List α) :
    ReceiverAt queue' (content ++ xs) p pc := by
  have hloading : ∀ (n count : UInt32) (data : List α), Loading queue content p n count data →
      Loading queue' (content ++ xs) p n count data := by
    intro n count data ⟨n₀, hp, hleft, hlen, htake, hfit, hcount⟩
    refine ⟨n₀, hp, hleft, ?_, ?_, ?_, ?_⟩
    · rw [List.length_append]
      omega
    · rw [List.take_append_of_le_length (by omega)]
      exact htake
    · rw [hd]
      exact hfit
    · rw [hd]
      exact hcount
  cases pc with
  | check => exact h
  | load => exact ⟨by have hne := h.1; simp [hne], h.2⟩
  | count data =>
      obtain ⟨⟨rest, hcontent⟩, hp⟩ := h
      exact ⟨⟨rest ++ xs, by rw [hcontent]; rfl⟩, hp⟩
  | shorten data => exact h
  | putLength data length => exact h
  | checkBatch n => exact h
  | loopBatch n count data => exact hloading n count data h
  | shortenBatch n count data => exact hloading n (count + 1) data h
  | putLengthBatch n count data length => exact hloading n (count + 1) data h

end Frames

section Moves

variable {lg : Nat} {s : SharedQueue α} {o : Object (List α) (Call α) (Reply α)}
  {stored : List α} {t : Nat}

/-- The thread under `enqueue_mutex` moves on and stays inside. -/
theorem Coupled.senderMoves (h : Coupled lg s o stored) (ht : (s.place t).sends = true)
    {queue' : IntelQueue α} {xs stored' : List α} {p' : Phase (Call α) (Reply α)}
    {place' : Place α} (hd : queue'.dequeueCount = s.queue.dequeueCount)
    (hocc : occupancy queue' = (o.state ++ xs).length) (hlen : (o.state ++ xs).length ≤ 2 ^ lg)
    (hholds : Holds (2 ^ lg) queue'.node s.queue.dequeueCount.toNat (o.state ++ xs ++ stored'))
    (hplace : ThreadAt lg queue' (o.state ++ xs) stored' p' place')
    (hreceives : place'.receives = false) :
    Coupled lg { s with queue := queue', place := Function.update s.place t place' }
      { state := o.state ++ xs, phase := Function.update o.phase t p' } stored' := by
  have howner := h.sender_owns t ht
  refine ⟨hocc, hlen, by rw [hd]; exact hholds, ?_, ?_, ?_, ?_⟩
  · intro u
    by_cases hut : u = t
    · subst hut
      simp only [Function.update_self]
      exact hplace
    · have hu := h.threads u
      simp only [Function.update_of_ne hut]
      -- the mutex has one owner, so no other thread is a sender
      have hnot : (s.place u).sends = true → False := by
        intro hsend
        have hown := h.sender_owns u hsend
        rw [howner] at hown
        exact hut (Option.some.inj hown).symm
      cases hpl : s.place u with
      | outside =>
          rw [hpl] at hu
          exact hu
      | locking c =>
          rw [hpl] at hu
          exact hu
      | sending pc => exact (hnot (by rw [hpl]; rfl)).elim
      | sent result => exact (hnot (by rw [hpl]; rfl)).elim
      | receiving pc =>
          rw [hpl] at hu
          exact ReceiverAt.mono hu hd xs
      | received result data =>
          rw [hpl] at hu
          exact hu
  · intro u hu
    by_cases hut : u = t
    · rw [hut]
      exact howner
    · simp only [Function.update_of_ne hut] at hu
      exact h.sender_owns u hu
  · intro u hu
    by_cases hut : u = t
    · subst hut
      simp only [Function.update_self, hreceives] at hu
      exact absurd hu (by decide)
    · simp only [Function.update_of_ne hut] at hu
      exact h.receiver_owns u hu
  · intro hnone
    rw [show s.enqueueMutex = some t from howner] at hnone
    exact absurd hnone (by simp)

/-- The thread under `dequeue_mutex` moves on and stays inside. -/
theorem Coupled.receiverMoves (h : Coupled lg s o stored) (ht : (s.place t).receives = true)
    {queue' : IntelQueue α} {n : Nat} {p' : Phase (Call α) (Reply α)} {place' : Place α}
    (he : queue'.enqueueCount = s.queue.enqueueCount)
    (hocc : occupancy queue' = (o.state.drop n).length)
    (hholds : Holds (2 ^ lg) queue'.node queue'.dequeueCount.toNat (o.state.drop n ++ stored))
    (hplace : ThreadAt lg queue' (o.state.drop n) stored p' place')
    (hsends : place'.sends = false) :
    Coupled lg { s with queue := queue', place := Function.update s.place t place' }
      { state := o.state.drop n, phase := Function.update o.phase t p' } stored := by
  have howner := h.receiver_owns t ht
  have hshorter : (o.state.drop n).length ≤ o.state.length := by
    rw [List.length_drop]
    omega
  refine ⟨hocc, hshorter.trans h.length_le, hholds, ?_, ?_, ?_, h.unlocked⟩
  · intro u
    by_cases hut : u = t
    · subst hut
      simp only [Function.update_self]
      exact hplace
    · have hu := h.threads u
      simp only [Function.update_of_ne hut]
      -- `dequeue_mutex` belongs to `t`
      have hnot : (s.place u).receives = true → False := by
        intro hrecv
        have hown := h.receiver_owns u hrecv
        rw [howner] at hown
        exact hut (Option.some.inj hown).symm
      cases hpl : s.place u with
      | outside =>
          rw [hpl] at hu
          exact hu
      | locking c =>
          rw [hpl] at hu
          exact hu
      | sending pc =>
          rw [hpl] at hu
          -- a sender loses nothing by a shorter content
          exact SenderAt.mono hu he hshorter
      | sent result =>
          rw [hpl] at hu
          exact hu
      | receiving pc => exact (hnot (by rw [hpl]; rfl)).elim
      | received result data => exact (hnot (by rw [hpl]; rfl)).elim
  · intro u hu
    by_cases hut : u = t
    · subst hut
      simp only [Function.update_self, hsends] at hu
      exact absurd hu (by decide)
    · simp only [Function.update_of_ne hut] at hu
      exact h.sender_owns u hu
  · intro u hu
    by_cases hut : u = t
    · rw [hut]
      exact howner
    · simp only [Function.update_of_ne hut] at hu
      exact h.receiver_owns u hu

/-- A sender's step that leaves the content alone. -/
theorem Coupled.senderStays (h : Coupled lg s o stored) (ht : (s.place t).sends = true)
    {queue' : IntelQueue α} {stored' : List α} {place' : Place α}
    {p' : Phase (Call α) (Reply α)} (he : queue'.enqueueCount = s.queue.enqueueCount)
    (hd : queue'.dequeueCount = s.queue.dequeueCount)
    (hholds : Holds (2 ^ lg) queue'.node s.queue.dequeueCount.toNat (o.state ++ stored'))
    (hplace : ThreadAt lg queue' o.state stored' p' place')
    (hreceives : place'.receives = false) :
    Coupled lg { s with queue := queue', place := Function.update s.place t place' }
      { o with phase := Function.update o.phase t p' } stored' := by
  have hocc : occupancy queue' = o.state.length := by
    have hold := h.occupancy_eq
    unfold occupancy at hold ⊢
    rw [he, hd]
    exact hold
  have hmoved : Coupled lg { s with queue := queue', place := Function.update s.place t place' }
      { state := o.state ++ [], phase := Function.update o.phase t p' } stored' := by
    have hnil : o.state ++ [] = o.state := List.append_nil _
    refine h.senderMoves ht hd ?_ ?_ ?_ ?_ hreceives
    · rw [hnil]
      exact hocc
    · rw [hnil]
      exact h.length_le
    · rw [hnil]
      exact hholds
    · rw [hnil]
      exact hplace
  rw [List.append_nil] at hmoved
  exact hmoved

/-- A receiver's step that leaves the content alone. -/
theorem Coupled.receiverStays (h : Coupled lg s o stored) (ht : (s.place t).receives = true)
    {queue' : IntelQueue α} {place' : Place α} {p' : Phase (Call α) (Reply α)}
    (hqueue : queue' = { s.queue with length := queue'.length })
    (hplace : ThreadAt lg queue' o.state stored p' place') (hsends : place'.sends = false) :
    Coupled lg { s with queue := queue', place := Function.update s.place t place' }
      { o with phase := Function.update o.phase t p' } stored := by
  have he : queue'.enqueueCount = s.queue.enqueueCount := by rw [hqueue]
  have hd : queue'.dequeueCount = s.queue.dequeueCount := by rw [hqueue]
  have hnode : queue'.node = s.queue.node := by rw [hqueue]
  refine h.receiverMoves (n := 0) ht he ?_ ?_ hplace hsends
  · have hold := h.occupancy_eq
    unfold occupancy at hold ⊢
    rw [he, hd]
    exact hold
  · rw [hnode, hd]
    exact h.holds

/-- A sender's step that the atomic queue does not see. -/
theorem Coupled.senderRests (h : Coupled lg s o stored) (ht : (s.place t).sends = true)
    {queue' : IntelQueue α} {stored' : List α} {place' : Place α}
    (he : queue'.enqueueCount = s.queue.enqueueCount)
    (hd : queue'.dequeueCount = s.queue.dequeueCount)
    (hholds : Holds (2 ^ lg) queue'.node s.queue.dequeueCount.toNat (o.state ++ stored'))
    (hplace : ThreadAt lg queue' o.state stored' (o.phase t) place')
    (hreceives : place'.receives = false) :
    Coupled lg { s with queue := queue', place := Function.update s.place t place' } o
      stored' := by
  have hstays := h.senderStays ht he hd hholds hplace hreceives
  rw [Function.update_eq_self] at hstays
  exact hstays

/-- A receiver's step that the atomic queue does not see. -/
theorem Coupled.receiverRests (h : Coupled lg s o stored) (ht : (s.place t).receives = true)
    {queue' : IntelQueue α} {place' : Place α}
    (hqueue : queue' = { s.queue with length := queue'.length })
    (hplace : ThreadAt lg queue' o.state stored (o.phase t) place')
    (hsends : place'.sends = false) :
    Coupled lg { s with queue := queue', place := Function.update s.place t place' } o
      stored := by
  have hstays := h.receiverStays ht hqueue hplace hsends
  rw [Function.update_eq_self] at hstays
  exact hstays

end Moves

/-! ## §5. Every step is matched. -/

/-- The atomic queue has moves that show `vs` and lead to a coupled state. -/
def Matched (lg : Nat) (s' : SharedQueue α) (o : Object (List α) (Call α) (Reply α))
    (vs : List (Seen (Call α) (Reply α))) : Prop :=
  Linearized (fifo (2 ^ lg)) o (fun o' => ∃ stored', Coupled lg s' o' stored') vs

section Steps

variable {lg : Nat} {s s' : SharedQueue α} {o : Object (List α) (Call α) (Reply α)}
  {stored : List α} {t : Nat}

theorem matched_rest {stored' : List α} (h : Coupled lg s' o stored') : Matched lg s' o [] :=
  Linearized.rest ⟨stored', h⟩

/-- The step is the instant at which the call takes effect. -/
theorem matched_effect {c : Call α} {content' stored' : List α} {r : Reply α}
    (hp : o.phase t = .called c) (hc : fifoCall (2 ^ lg) o.state c = (content', r))
    (h : Coupled lg s' { state := content', phase := Function.update o.phase t (.done c r) }
      stored') : Matched lg s' o [] := by
  have hm : (fifo (2 ^ lg)).step o.state c = some (content', r) := by
    show some (fifoCall (2 ^ lg) o.state c) = some (content', r)
    rw [hc]
  exact Linearized.move (atomic_effect hp hm) ⟨stored', h⟩

/-- `queue->node[i] = data`: the slot is the first one behind the content. -/
theorem Coupled.stores (hlg : lg ≤ 30) (h : Coupled lg s o stored) {data : α}
    (hpl : s.place t = .sending (.store data)) :
    Coupled lg
      { s with
          queue := { s.queue with
            node := Function.update s.queue.node (slot lg s.queue.enqueueCount) data }
          place := Function.update s.place t (.sending (.count data)) } o [data] := by
  have hin := h.threads t
  rw [hpl] at hin
  obtain ⟨rfl, hroom, hp⟩ := hin
  have hheld := h.holds
  rw [List.append_nil] at hheld
  have hslot : slot lg s.queue.enqueueCount
      = (s.queue.dequeueCount.toNat + o.state.length) % 2 ^ lg := by
    rw [slot_eq hlg, write_slot hlg h.occupancy_eq]
  refine h.senderRests (by rw [hpl]; rfl) rfl rfl ?_ ⟨rfl, hroom, hp⟩ rfl
  rw [hslot]
  exact holds_snoc data hheld hroom

/-- `++queue->enqueue_count`: the single enqueue takes effect. -/
theorem Coupled.counts (hlg : lg ≤ 30) (h : Coupled lg s o stored) {data : α}
    (hpl : s.place t = .sending (.count data)) :
    Matched lg
      { s with
          queue := { s.queue with enqueueCount := s.queue.enqueueCount + 1 }
          place := Function.update s.place t (.sending .lengthen) } o [] := by
  have hle := two_pow_le hlg
  have hin := h.threads t
  rw [hpl] at hin
  obtain ⟨rfl, hroom, hp⟩ := hin
  refine matched_effect hp (fifoCall_enqueue data hroom)
    (h.senderMoves (by rw [hpl]; rfl) rfl ?_ ?_ ?_ ⟨rfl, _, rfl⟩ rfl)
  · rw [List.length_append, List.length_singleton]
    refine occupancy_advance h.occupancy_eq (by omega) ?_ rfl
    rw [UInt64.toNat_add, UInt64.toNat_one]
  · rw [List.length_append, List.length_singleton]
    exact hroom
  · rw [List.append_nil]
    exact h.holds

/-- One more element of a batch goes to its slot. -/
theorem Coupled.storesBatch (hlg : lg ≤ 30) (h : Coupled lg s o stored) {data : Nat → α}
    {n count : UInt32} (hpl : s.place t = .sending (.loopBatch data n count)) (hn : n ≠ 0) :
    Coupled lg
      { s with
          queue := { s.queue with
            node := Function.update s.queue.node (slot32 lg count) (data 0) }
          place := Function.update s.place t
            (.sending (.lengthenBatch (fun k => data (k + 1)) (n - 1) count)) }
      o (stored ++ [data 0]) := by
  have hin := h.threads t
  rw [hpl] at hin
  obtain ⟨data₀, n₀, hp, hslice, hroom, hfit, hcount⟩ := hin
  have hpos : n.toNat ≠ 0 := by
    intro hzero
    exact hn (UInt32.toNat_inj.mp hzero)
  -- `enqueue_num--`
  have hnext : n.toNat = (n - 1).toNat + 1 := by
    have hlt := n.toNat_lt
    rw [UInt32.toNat_sub, UInt32.toNat_one]
    omega
  have hlen := congrArg List.length hslice
  rw [slice_length, List.length_append, slice_length] at hlen
  -- the 32-bit local names the slot behind what is stored
  have hslot : slot32 lg count
      = (s.queue.dequeueCount.toNat + (o.state ++ stored).length) % 2 ^ lg := by
    rw [hcount, local_slot hlg, Nat.add_mod, write_slot hlg h.occupancy_eq, ← Nat.add_mod,
      List.length_append, Nat.add_assoc]
  refine h.senderRests (by rw [hpl]; rfl) rfl rfl ?_ ⟨data₀, n₀, hp, ?_, hroom, hfit, ?_⟩ rfl
  · rw [hslot, ← List.append_assoc]
    exact holds_snoc (data 0) h.holds (by rw [List.length_append]; omega)
  · rw [hslice, hnext, slice_succ, List.append_assoc]
    rfl
  · rw [hcount, List.length_append, List.length_singleton, UInt32.ofNat_add, UInt32.add_assoc]
    rfl

/-- `queue->enqueue_count = enqueue_count`: the whole batch takes effect. -/
theorem Coupled.countsBatch (hlg : lg ≤ 30) (h : Coupled lg s o stored) {data : Nat → α}
    {count : UInt32} (hpl : s.place t = .sending (.loopBatch data 0 count)) :
    Matched lg
      { s with
          queue := { s.queue with enqueueCount := count.toUInt64 }
          place := Function.update s.place t (.sent 0) } o [] := by
  have hle := two_pow_le hlg
  have hin := h.threads t
  rw [hpl] at hin
  obtain ⟨data₀, n₀, hp, hslice, hroom, hfit, hcount⟩ := hin
  have hstored : slice data₀ 0 n₀.toNat = stored := by
    rw [hslice, UInt32.toNat_zero, slice_zero, List.append_nil]
  have hlen : stored.length = n₀.toNat := by rw [← hstored, slice_length]
  have hpush := fifoCall_enqueueMultiple data₀ hroom
  rw [hstored] at hpush
  refine matched_effect hp hpush (h.senderMoves (by rw [hpl]; rfl) rfl ?_ ?_ ?_ ⟨rfl, _, rfl⟩ rfl)
  · rw [List.length_append, hlen]
    refine occupancy_advance h.occupancy_eq (by omega) ?_ rfl
    show count.toUInt64.toNat = _
    rw [hcount, hlen, UInt32.ofNat_toNat]
    exact local_toNat _ _ hfit
  · rw [List.length_append, hlen]
    exact hroom
  · rw [List.append_nil]
    exact h.holds

/-- **A step of the sender.** -/
theorem Coupled.senderStep (hlg : lg ≤ 30) (h : Coupled lg s o stored) {pc : SenderPc α}
    (hpl : s.place t = .sending pc)
    (hfits : ∀ data n, pc = .checkBatch data n → Fits lg s.queue (.enqueueMultiple data n)) :
    Matched lg
      { s with
          queue := (Queue.senderStep lg s.queue pc).1
          place := Function.update s.place t (Queue.senderStep lg s.queue pc).2 } o [] := by
  have ht : (s.place t).sends = true := by
    rw [hpl]
    rfl
  have hin := h.threads t
  rw [hpl] at hin
  -- the call takes effect at `count`, at the end of the loop, or where a check refuses
  cases pc with
  | check data =>
      obtain ⟨hstored, hp⟩ := hin
      simp only [Queue.senderStep]
      by_cases hfull : s.queue.enqueueCount - s.queue.dequeueCount ≥ entries lg
      · rw [if_pos hfull]
        have hcap := (full_iff hlg h.occupancy_eq).mp hfull
        exact matched_effect hp (fifoCall_enqueue_full data hcap)
          (h.senderStays ht rfl rfl h.holds ⟨hstored, _, rfl⟩ rfl)
      · rw [if_neg hfull]
        rw [full_iff hlg h.occupancy_eq, Nat.not_le] at hfull
        exact matched_rest (h.senderRests ht rfl rfl h.holds ⟨hstored, hfull, hp⟩ rfl)
  | store data => exact matched_rest (h.stores hlg hpl)
  | count data => exact h.counts hlg hpl
  | lengthen => exact matched_rest (h.senderRests ht rfl rfl h.holds hin rfl)
  | putLength length => exact matched_rest (h.senderRests ht rfl rfl h.holds hin rfl)
  | checkBatch data n =>
      obtain ⟨hstored, hp⟩ := hin
      simp only [Queue.senderStep]
      by_cases hfull : s.queue.enqueueCount + n.toUInt64 - s.queue.dequeueCount > entries lg
      · rw [if_pos hfull]
        have hcap := (noRoom_iff hlg h.occupancy_eq h.length_le n).mp hfull
        exact matched_effect hp (fifoCall_enqueueMultiple_full data hcap)
          (h.senderStays ht rfl rfl h.holds ⟨hstored, _, rfl⟩ rfl)
      · rw [if_neg hfull]
        rw [noRoom_iff hlg h.occupancy_eq h.length_le, Nat.not_lt] at hfull
        have hfit := hfits data n rfl (by rw [h.occupancy_eq]; exact hfull)
        refine matched_rest
          (h.senderRests ht rfl rfl h.holds ⟨data, n, hp, ?_, hfull, hfit, ?_⟩ rfl)
        · rw [hstored]
          rfl
        · rw [hstored]
          exact (UInt32.add_zero _).symm
  | loopBatch data n count =>
      simp only [Queue.senderStep]
      by_cases hn : n = 0
      · subst hn
        rw [if_pos rfl]
        exact h.countsBatch hlg hpl
      · rw [if_neg hn]
        exact matched_rest (h.storesBatch hlg hpl hn)
  | lengthenBatch data n count =>
      exact matched_rest (h.senderRests ht rfl rfl h.holds hin rfl)
  | putLengthBatch data n count length =>
      exact matched_rest (h.senderRests ht rfl rfl h.holds hin rfl)

/-- `*data = queue->node[i]`: the slot holds the head of the content. -/
theorem Coupled.loads (hlg : lg ≤ 30) (h : Coupled lg s o stored)
    (hpl : s.place t = .receiving .load) :
    Coupled lg
      { s with
          place := Function.update s.place t
            (.receiving (.count (s.queue.node (slot lg s.queue.dequeueCount)))) } o stored := by
  have hin := h.threads t
  rw [hpl] at hin
  obtain ⟨hne, hp⟩ := hin
  have hheld := h.holds
  refine h.receiverRests (by rw [hpl]; rfl) rfl ⟨?_, hp⟩ rfl
  cases hcontent : o.state with
  | nil => exact absurd hcontent hne
  | cons x rest =>
      rw [hcontent] at hheld
      obtain ⟨hx, _⟩ := holds_cons hheld
      refine ⟨rest, ?_⟩
      rw [slot_eq hlg, hx]

/-- `++queue->dequeue_count`: the single dequeue takes effect. -/
theorem Coupled.releases (hlg : lg ≤ 30) (h : Coupled lg s o stored) {data : α}
    (hpl : s.place t = .receiving (.count data)) :
    Matched lg
      { s with
          queue := { s.queue with dequeueCount := s.queue.dequeueCount + 1 }
          place := Function.update s.place t (.receiving (.shorten data)) } o [] := by
  have hin := h.threads t
  rw [hpl] at hin
  obtain ⟨⟨rest, hcontent⟩, hp⟩ := hin
  have hcount : (s.queue.dequeueCount + 1).toNat = (s.queue.dequeueCount.toNat + 1) % 2 ^ 64 := by
    rw [UInt64.toNat_add, UInt64.toNat_one]
  have hpop : fifoCall (2 ^ lg) o.state .dequeue = (o.state.drop 1, (0, [data])) := by
    rw [hcontent]
    rfl
  refine matched_effect hp hpop (h.receiverMoves (by rw [hpl]; rfl) rfl ?_ ?_ ⟨_, rfl⟩ rfl)
  · rw [List.length_drop]
    refine occupancy_release h.occupancy_eq ?_ rfl hcount
    rw [hcontent, List.length_cons]
    omega
  · have hrest := holds_drop 1 h.holds
    rw [List.drop_append_of_le_length (by rw [hcontent, List.length_cons]; omega)] at hrest
    refine holds_congr ?_ hrest
    rw [hcount, mod_two_pow_64 hlg]

/-- One more element of a batch is read from its slot. -/
theorem Coupled.loadsBatch (hlg : lg ≤ 30) (h : Coupled lg s o stored) {data : List α}
    {n count : UInt32} (hpl : s.place t = .receiving (.loopBatch n count data)) (hn : n ≠ 0) :
    Coupled lg
      { s with
          place := Function.update s.place t (.receiving (.shortenBatch (n - 1) count
            (data ++ [s.queue.node (slot32 lg count)]))) } o stored := by
  have hin := h.threads t
  rw [hpl] at hin
  obtain ⟨n₀, hp, hleft, hlen, htake, hfit, hcount⟩ := hin
  have hpos : n.toNat ≠ 0 := by
    intro hzero
    exact hn (UInt32.toNat_inj.mp hzero)
  have hnext : n.toNat = (n - 1).toNat + 1 := by
    have hlt := n.toNat_lt
    rw [UInt32.toNat_sub, UInt32.toNat_one]
    omega
  have hlt : data.length < o.state.length := by omega
  -- the local points at position `data.length` of the content
  have hvalue : s.queue.node (slot32 lg count) = o.state[data.length] := by
    have hheld := h.holds data.length (by rw [List.length_append]; omega)
    rw [hcount, local_slot hlg, hheld]
    exact List.getElem_append_left hlt
  refine h.receiverRests (by rw [hpl]; rfl) rfl ⟨n₀, hp, ?_, hlen, ?_, hfit, ?_⟩ rfl
  · rw [List.length_append, List.length_singleton]
    omega
  · rw [List.length_append, List.length_singleton, List.take_succ_eq_append_getElem hlt, ← htake,
      hvalue]
  · rw [hcount, List.length_append, List.length_singleton, UInt32.ofNat_add, UInt32.add_assoc]
    rfl

/-- `queue->dequeue_count = dequeue_count`: the whole batch takes effect. -/
theorem Coupled.releasesBatch (hlg : lg ≤ 30) (h : Coupled lg s o stored) {data : List α}
    {count : UInt32} (hpl : s.place t = .receiving (.loopBatch 0 count data)) :
    Matched lg
      { s with
          queue := { s.queue with dequeueCount := count.toUInt64 }
          place := Function.update s.place t (.received 0 data) } o [] := by
  have hin := h.threads t
  rw [hpl] at hin
  obtain ⟨n₀, hp, hleft, hlen, htake, hfit, hcount⟩ := hin
  have hdata : data.length = n₀.toNat := hleft
  have hcount' : count.toUInt64.toNat = (s.queue.dequeueCount.toNat + n₀.toNat) % 2 ^ 64 := by
    rw [hcount, hdata, UInt32.ofNat_toNat]
    exact local_toNat _ _ hfit
  have hpop := fifoCall_dequeueMultiple (2 ^ lg) hlen
  rw [← hdata, ← htake, hdata] at hpop
  refine matched_effect hp hpop (h.receiverMoves (by rw [hpl]; rfl) rfl ?_ ?_ ⟨_, rfl⟩ rfl)
  · rw [List.length_drop]
    exact occupancy_release h.occupancy_eq hlen rfl hcount'
  · have hrest := holds_drop n₀.toNat h.holds
    rw [List.drop_append_of_le_length hlen] at hrest
    refine holds_congr ?_ hrest
    rw [hcount', mod_two_pow_64 hlg]

/-- **A step of the receiver.** -/
theorem Coupled.receiverStep (hlg : lg ≤ 30) (h : Coupled lg s o stored) {pc : ReceiverPc α}
    (hpl : s.place t = .receiving pc)
    (hfits : ∀ n, pc = .checkBatch n → Fits lg s.queue (.dequeueMultiple n)) :
    Matched lg
      { s with
          queue := (Queue.receiverStep lg s.queue pc).1
          place := Function.update s.place t (Queue.receiverStep lg s.queue pc).2 } o [] := by
  have ht : (s.place t).receives = true := by
    rw [hpl]
    rfl
  have hin := h.threads t
  rw [hpl] at hin
  cases pc with
  | check =>
      simp only [Queue.receiverStep]
      by_cases hempty : s.queue.enqueueCount = s.queue.dequeueCount
      · rw [if_pos hempty]
        rw [empty_iff h.occupancy_eq, List.length_eq_zero_iff] at hempty
        -- a refused call takes effect at its check
        have hpop : fifoCall (2 ^ lg) o.state .dequeue = (o.state, refused) := by
          rw [hempty]
          rfl
        exact matched_effect hin hpop (h.receiverStays ht rfl ⟨_, rfl⟩ rfl)
      · rw [if_neg hempty]
        rw [empty_iff h.occupancy_eq, List.length_eq_zero_iff] at hempty
        exact matched_rest (h.receiverRests ht rfl ⟨hempty, hin⟩ rfl)
  | load => exact matched_rest (h.loads hlg hpl)
  | count data => exact h.releases hlg hpl
  | shorten data => exact matched_rest (h.receiverRests ht rfl hin rfl)
  | putLength data length => exact matched_rest (h.receiverRests ht rfl hin rfl)
  | checkBatch n =>
      have hfit := hfits n rfl
      -- what the 64-bit sum says, where the batch fits
      have hcheck := short_iff hlg h.occupancy_eq h.length_le hfit
      simp only [Queue.receiverStep]
      by_cases hshort : s.queue.dequeueCount + n.toUInt64 > s.queue.enqueueCount
      · rw [if_pos hshort]
        have hpop := fifoCall_dequeueMultiple_short (2 ^ lg) (hcheck.mp hshort)
        exact matched_effect hin hpop (h.receiverStays ht rfl ⟨_, rfl⟩ rfl)
      · rw [if_neg hshort]
        rw [hcheck, Nat.not_lt] at hshort
        simp only [Fits, h.occupancy_eq, if_pos hshort] at hfit
        exact matched_rest (h.receiverRests ht rfl
          ⟨n, hin, Nat.zero_add _, hshort, rfl, hfit, (UInt32.add_zero _).symm⟩ rfl)
  | loopBatch n count data =>
      simp only [Queue.receiverStep]
      by_cases hn : n = 0
      · subst hn
        rw [if_pos rfl]
        -- the store of `dequeue_count`: the whole batch leaves at once
        exact h.releasesBatch hlg hpl
      · rw [if_neg hn]
        exact matched_rest (h.loadsBatch hlg hpl hn)
  | shortenBatch n count data => exact matched_rest (h.receiverRests ht rfl hin rfl)
  | putLengthBatch n count data length => exact matched_rest (h.receiverRests ht rfl hin rfl)

/-! ## §6. Calls, locks and unlocks. -/

/-- A thread goes in, or out, or takes a mutex or gives it back. -/
theorem Coupled.relocates (h : Coupled lg s o stored) {place' : Place α}
    {p' : Phase (Call α) (Reply α)} {em dm : Option Nat}
    (hplace : ThreadAt lg s.queue o.state stored p' place')
    (hsends : ∀ u, (Function.update s.place t place' u).sends = true → em = some u)
    (hreceives : ∀ u, (Function.update s.place t place' u).receives = true → dm = some u)
    (hunlocked : em = none → stored = []) :
    Coupled lg
      { s with
          enqueueMutex := em
          dequeueMutex := dm
          place := Function.update s.place t place' }
      { o with phase := Function.update o.phase t p' } stored := by
  refine ⟨h.occupancy_eq, h.length_le, h.holds, ?_, hsends, hreceives, hunlocked⟩
  intro u
  by_cases hut : u = t
  · subst hut
    simp only [Function.update_self]
    exact hplace
  · simp only [Function.update_of_ne hut]
    exact h.threads u

/-- What a place of neither kind leaves of a mutex. -/
theorem update_owner {f : Place α → Bool} {place : Nat → Place α} {place' : Place α}
    {owner : Option Nat} (h : ∀ u, f (place u) = true → owner = some u) (hf : f place' = false) :
    ∀ u, f (Function.update place t place' u) = true → owner = some u := by
  intro u hu
  by_cases hut : u = t
  · subst hut
    rw [Function.update_self, hf] at hu
    exact absurd hu (by decide)
  · rw [Function.update_of_ne hut] at hu
    exact h u hu

/-- A free mutex is taken. -/
theorem update_owner_take {f : Place α → Bool} {place : Nat → Place α} (place' : Place α)
    {owner : Option Nat} (h : ∀ u, f (place u) = true → owner = some u) (hfree : owner = none) :
    ∀ u, f (Function.update place t place' u) = true → some t = some u := by
  intro u hu
  by_cases hut : u = t
  · rw [hut]
  · rw [Function.update_of_ne hut] at hu
    have hown := h u hu
    rw [hfree] at hown
    exact absurd hown (by simp)

/-- A mutex is given back by its owner. -/
theorem update_owner_give {f : Place α → Bool} {place : Nat → Place α} {place' : Place α}
    {owner : Option Nat} (h : ∀ u, f (place u) = true → owner = some u)
    (ht : f (place t) = true) (hf : f place' = false) :
    ∀ u, f (Function.update place t place' u) = true → (none : Option Nat) = some u := by
  intro u hu
  have hown := update_owner h hf u hu
  by_cases hut : u = t
  · subst hut
    rw [Function.update_self, hf] at hu
    exact absurd hu (by decide)
  · rw [h t ht] at hown
    exact absurd (Option.some.inj hown).symm hut

/-- A thread that waits enters its critical section once the mutex is free. -/
theorem Coupled.locks (h : Coupled lg s o stored) {c : Call α} (hpl : s.place t = .locking c)
    {e : Option (Seen (Call α) (Reply α))} (hst : (shared lg).step s (.step t) = some (s', e)) :
    Matched lg s' o e.toList := by
  have hp := h.threads t
  rw [hpl] at hp
  have hsame : (o.phase t) = .called c := hp
  -- the atomic object does not move
  have hobject : o = { o with phase := Function.update o.phase t (.called c) } := by
    rw [← hsame, Function.update_eq_self]
  simp only [shared, hpl] at hst
  cases hentry : entry c with
  | inl pc =>
      rw [hentry] at hst
      simp only [Option.ite_none_right_eq_some, Option.some.injEq, Prod.mk.injEq] at hst
      obtain ⟨hfree, rfl, rfl⟩ := hst
      -- nobody has stored anything: the mutex was free
      have hstored := h.unlocked hfree
      have hstart : SenderAt lg s.queue o.state stored (.called c) pc := by
        cases c with
        | enqueue data =>
            obtain rfl := Sum.inl.inj hentry
            exact ⟨hstored, rfl⟩
        | enqueueMultiple data n =>
            obtain rfl := Sum.inl.inj hentry
            exact ⟨hstored, rfl⟩
        | dequeue => exact absurd hentry (by simp [entry])
        | dequeueMultiple n => exact absurd hentry (by simp [entry])
      rw [hobject]
      exact matched_rest (h.relocates hstart
        (update_owner_take (.sending pc) h.sender_owns hfree)
        (update_owner h.receiver_owns rfl) (fun hnone => absurd hnone (by simp)))
  | inr pc =>
      rw [hentry] at hst
      simp only [Option.ite_none_right_eq_some, Option.some.injEq, Prod.mk.injEq] at hst
      obtain ⟨hfree, rfl, rfl⟩ := hst
      have hstart : ReceiverAt s.queue o.state (.called c) pc := by
        cases c with
        | enqueue data => exact absurd hentry (by simp [entry])
        | enqueueMultiple data n => exact absurd hentry (by simp [entry])
        | dequeue =>
            obtain rfl := Sum.inr.inj hentry
            rfl
        | dequeueMultiple n =>
            obtain rfl := Sum.inr.inj hentry
            rfl
      rw [hobject]
      exact matched_rest (h.relocates hstart (update_owner h.sender_owns rfl)
        (update_owner_take (.receiving pc) h.receiver_owns hfree) h.unlocked)

/-- **When a batch may pass its check**: the condition under which the 32-bit
    locals do no harm.  Single operations always may. -/
def ChecksFit (lg : Nat) (s : SharedQueue α) : SharedAction α → Prop
  | .call _ _ => True
  | .step t =>
      match s.place t with
      | .sending (.checkBatch data n) => Fits lg s.queue (.enqueueMultiple data n)
      | .receiving (.checkBatch n) => Fits lg s.queue (.dequeueMultiple n)
      | _ => True

/-- **Every step of every thread** is matched by the atomic queue. -/
theorem Coupled.step (hlg : lg ≤ 30) (h : Coupled lg s o stored) {a : SharedAction α}
    (hfit : ChecksFit lg s a) {e : Option (Seen (Call α) (Reply α))}
    (hst : (shared lg).step s a = some (s', e)) : Matched lg s' o e.toList := by
  cases a with
  | call t c =>
      have hp := h.threads t
      cases hpl : s.place t with
      | outside =>
          rw [hpl] at hp
          simp only [shared, hpl, Option.some.injEq, Prod.mk.injEq] at hst
          obtain ⟨rfl, rfl⟩ := hst
          exact Linearized.move (atomic_call hp c) ⟨stored, h.relocates rfl
            (update_owner h.sender_owns rfl) (update_owner h.receiver_owns rfl) h.unlocked⟩
      | locking c => simp [shared, hpl] at hst
      | sending pc => simp [shared, hpl] at hst
      | sent result => simp [shared, hpl] at hst
      | receiving pc => simp [shared, hpl] at hst
      | received result data => simp [shared, hpl] at hst
  | step t =>
      have hp := h.threads t
      cases hpl : s.place t with
      | outside => simp [shared, hpl] at hst
      | locking c => exact h.locks hpl hst
      | sending pc =>
          simp only [shared, hpl, Option.some.injEq, Prod.mk.injEq] at hst
          obtain ⟨rfl, rfl⟩ := hst
          refine h.senderStep hlg hpl ?_
          intro data n hpc
          simpa only [ChecksFit, hpl, hpc] using hfit
      | sent result =>
          rw [hpl] at hp
          -- the return gives `enqueue_mutex` back, and nothing is half stored
          obtain ⟨hstored, c, hdone⟩ := hp
          simp only [shared, hpl, Option.some.injEq, Prod.mk.injEq] at hst
          obtain ⟨rfl, rfl⟩ := hst
          exact Linearized.move (atomic_ret hdone) ⟨stored, h.relocates rfl
            (update_owner_give h.sender_owns (by rw [hpl]; rfl) rfl)
            (update_owner h.receiver_owns rfl) (fun _ => hstored)⟩
      | receiving pc =>
          simp only [shared, hpl, Option.some.injEq, Prod.mk.injEq] at hst
          obtain ⟨rfl, rfl⟩ := hst
          refine h.receiverStep hlg hpl ?_
          intro n hpc
          simpa only [ChecksFit, hpl, hpc] using hfit
      | received result data =>
          rw [hpl] at hp
          -- the return gives `dequeue_mutex` back
          obtain ⟨c, hdone⟩ := hp
          simp only [shared, hpl, Option.some.injEq, Prod.mk.injEq] at hst
          obtain ⟨rfl, rfl⟩ := hst
          exact Linearized.move (atomic_ret hdone) ⟨stored, h.relocates rfl
            (update_owner h.sender_owns rfl)
            (update_owner_give h.receiver_owns (by rw [hpl]; rfl) rfl) h.unlocked⟩

/-- A queue shows the call it is called with. -/
theorem shared_call_shows {c : Call α} {e : Option (Seen (Call α) (Reply α))}
    (hst : (shared lg).step s (.call t c) = some (s', e)) : e = some (.call t c) := by
  cases hpl : s.place t with
  | outside =>
      simp only [shared, hpl, Option.some.injEq, Prod.mk.injEq] at hst
      exact hst.2.symm
  | locking _ => simp [shared, hpl] at hst
  | sending _ => simp [shared, hpl] at hst
  | sent _ => simp [shared, hpl] at hst
  | receiving _ => simp [shared, hpl] at hst
  | received _ _ => simp [shared, hpl] at hst

/-- `Coupled.step`, whatever is stored. -/
theorem shared_step_matched (hlg : lg ≤ 30) {a : SharedAction α}
    {e : Option (Seen (Call α) (Reply α))} (h : ∃ stored, Coupled lg s o stored)
    (hfit : ChecksFit lg s a) (hst : (shared lg).step s a = some (s', e)) :
    Matched lg s' o e.toList := by
  obtain ⟨stored, h⟩ := h
  exact h.step hlg hfit hst

end Steps

/-! ## §7. A FIFO loses nothing. -/

/-- The elements a call brings to the queue. -/
def brought : Call α → List α
  | .enqueue data => [data]
  | .enqueueMultiple data n => slice data 0 n.toNat
  | _ => []

/-- Those of them that got in. -/
def putIn (p : Call α × Reply α) : List α := if p.2.1 = 0 then brought p.1 else []

/-- **One call of the FIFO** neither loses nor makes an element. -/
theorem fifoCall_conserves (cap : Nat) (s : List α) (c : Call α) :
    s ++ putIn (c, (fifoCall cap s c).2) = (fifoCall cap s c).2.2 ++ (fifoCall cap s c).1 := by
  cases c with
  | enqueue x =>
      by_cases hroom : s.length < cap
      · simp [fifoCall_enqueue x hroom, putIn, brought]
      · simp [fifoCall_enqueue_full x (Nat.le_of_not_lt hroom), putIn, refused]
  | enqueueMultiple data n =>
      by_cases hroom : s.length + n.toNat ≤ cap
      · simp [fifoCall_enqueueMultiple data hroom, putIn, brought]
      · simp [fifoCall_enqueueMultiple_full data (Nat.lt_of_not_le hroom), putIn, refused]
  | dequeue => cases s <;> simp [fifoCall, Fifo.take, refused, putIn, brought]
  | dequeueMultiple n =>
      by_cases hshort : n.toNat ≤ s.length
      · simp [fifoCall_dequeueMultiple cap hshort, putIn, brought]
      · simp [fifoCall_dequeueMultiple_short cap (Nat.lt_of_not_le hshort), putIn, refused]

/-- **A run of the FIFO**: what got in came out in the same order, or is inside. -/
theorem fifo_run_conserves {cap : Nat} {cs : List (Call α)} {s s' : List α}
    {rs : List (Reply α)} (hrun : (fifo cap).run s cs = some (s', rs)) :
    s ++ (cs.zip rs).flatMap putIn = rs.flatMap Prod.snd ++ s' := by
  induction cs generalizing s rs with
  | nil =>
      rw [Machine.run_nil, Option.some.injEq, Prod.mk.injEq] at hrun
      rw [← hrun.1, ← hrun.2]
      exact List.append_nil _
  | cons c cs ih =>
      obtain ⟨s₁, r, rs', hst, hr, rfl⟩ := (fifo cap).run_cons_eq_some.mp hrun
      have hcall : fifoCall cap s c = (s₁, r) := Option.some.inj hst
      have hone := fifoCall_conserves cap s c
      rw [hcall] at hone
      rw [List.zip_cons_cons, List.flatMap_cons, ← List.append_assoc, hone, List.append_assoc,
        ih hr, List.flatMap_cons, List.append_assoc]

/-! ## §8. Linearizability. -/

/-- **What the threads see of a shared queue**, told as a history `os` of the
    atomic one that ends in `o`. -/
structure AtomicHistory (lg : Nat) (s : SharedQueue α)
    (es : List (Option (Seen (Call α) (Reply α)))) (o : Object (List α) (Call α) (Reply α))
    (os : List (Atomic.Event (Call α) (Reply α))) : Prop where
  /-- The threads make these calls and get these replies. -/
  shown_eq : shown os = visible es
  /-- Every call takes effect between its begin and its return. -/
  threads : Threads o os
  /-- In the order of their effects the calls are a run of the FIFO. -/
  sequential : (fifo (2 ^ lg)).run [] ((effects os).map Prod.fst)
    = some (o.state, (effects os).map Prod.snd)
  /-- What was accepted is delivered once and in this order, or inside. -/
  conserved : (effects os).flatMap putIn = (effects os).flatMap (fun p => p.2.2) ++ o.state
  /-- What is inside fits, is what the counters count, and stands in its slots. -/
  length_le : o.state.length ≤ 2 ^ lg
  occupancy_eq : occupancy s.queue = o.state.length
  holds : Holds (2 ^ lg) s.queue.node s.queue.dequeueCount.toNat o.state

/-- **THE QUEUE IS ATOMIC.**  Whatever any number of threads do with a queue
    by its four operations, in any interleaving of their loads and stores,
    looks to them like a bounded FIFO whose calls happen at one instant. -/
theorem sharedRun_linearizable {lg : Nat} (hlg : lg ≤ 30) {node : Nat → α}
    {as : List (SharedAction α)} {s : SharedQueue α}
    {es : List (Option (Seen (Call α) (Reply α)))}
    (hfits : (shared lg).Along (ChecksFit lg) (unused node) as)
    (hrun : (shared lg).run (unused node) as = some (s, es)) :
    ∃ moves o os, (atomic (fifo (2 ^ lg))).run (fresh []) moves = some (o, os)
      ∧ AtomicHistory lg s es o os := by
  obtain ⟨moves, o, os, hmoves, hshown, stored, hcoupled⟩ :=
    linearized_of_simulation (shared lg) (fifo (2 ^ lg))
      (fun s o => ∃ stored, Coupled lg s o stored)
      (fun s o a s' e ⟨stored, h⟩ hfit hst => h.step hlg hfit hst) hfits hrun
      ⟨[], coupled_unused lg node⟩
  have hseq := effects_run hmoves
  refine ⟨moves, o, os, hmoves, hshown, threads_run hmoves, hseq, ?_, hcoupled.length_le,
    hcoupled.occupancy_eq, ?_⟩
  · have hkept := fifo_run_conserves hseq
    rw [List.nil_append, ← List.unzip_fst, ← List.unzip_snd, List.zip_unzip, List.unzip_snd,
      List.flatMap_map] at hkept
    exact hkept
  · intro k hk
    have hheld := hcoupled.holds k (by rw [List.length_append]; omega)
    rw [hheld]
    exact List.getElem_append_left hk

/-- A batch of one and a dequeue that meets it half stored. -/
def overlap : List (SharedAction Nat) :=
  [.call 0 (.enqueueMultiple (fun k => k + 5) 1), .step 0, .step 0, .step 0, .call 1 .dequeue,
    .step 1, .step 0, .step 0, .step 0, .step 1, .step 1, .step 0]

theorem overlap_fits : (shared 10).Along (ChecksFit 10) (unused fun _ => 0) overlap := by
  unfold overlap
  iterate 2 refine ((shared 10).along_cons rfl).mpr ⟨trivial, ?_⟩
  -- the room check is the third step
  refine ((shared 10).along_cons rfl).mpr ⟨fun _ => by decide, ?_⟩
  iterate 9 refine ((shared 10).along_cons rfl).mpr ⟨trivial, ?_⟩
  exact trivial

theorem overlap_linearizable :
    10 ≤ 30 ∧ ∃ s es, (shared 10).run (unused fun _ => 0) overlap = some (s, es)
      ∧ ∃ moves o os, (atomic (fifo (2 ^ 10))).run (fresh []) moves = some (o, os)
        ∧ AtomicHistory 10 s es o os := by
  have hrun : ∃ s es, (shared 10).run (unused fun _ => 0) overlap = some (s, es) := ⟨_, _, rfl⟩
  obtain ⟨s, es, hrun⟩ := hrun
  exact ⟨by decide, s, es, hrun, sharedRun_linearizable (by decide) overlap_fits hrun⟩

end FreePacket.Queue
