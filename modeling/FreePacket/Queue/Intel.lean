/-
  FreePacket.Queue.Intel
  ──────────────────────
  **THE `INTEL_QUEUE` MACRO (`queue_intel.h`), one call at a time.**

  The macro generates one queue type per instance: `LOG2_ENTRIES` is `lg`,
  `OBJ_TYPE` is `α`.  A call runs under its mutex, so here it is one function
  from the queue to the queue and the reply.  The counters of the struct are
  `uint64_t`; the two batch operations count in an `unsigned int` local and
  store that local back, exactly as the source does.

  `item_size` and `total` are written by `NAME##_init` and read by no
  operation; the mutexes and condition variables carry no data.
-/
import FreePacket.Lib.Machine
import FreePacket.Lib.Memory
import Mathlib.Algebra.Group.Nat.Defs

namespace FreePacket.Queue

open FreePacket.Lib

variable {α : Type}

/-! ## §1. The queue and its slots. -/

/-- `NAME##_t`.  `node` is the `malloc`ed slot array. -/
structure IntelQueue (α : Type) where
  enqueueCount : UInt64
  dequeueCount : UInt64
  node : Nat → α
  length : UInt32

/-- `NAME##_init`: the counters start at zero, the slots hold whatever
    `malloc` returned. -/
def init (node : Nat → α) : IntelQueue α :=
  { enqueueCount := 0, dequeueCount := 0, node := node, length := 0 }

/-- `(1 << LOG2_ENTRIES)` where it meets a `uint64_t`. -/
def entries (lg : Nat) : UInt64 := UInt64.ofNat (2 ^ lg)

/-- `unsigned int i = count & ((1 << LOG2_ENTRIES) - 1)` on a struct counter. -/
def slot (lg : Nat) (count : UInt64) : Nat := (count &&& (entries lg - 1)).toUInt32.toNat

/-- The same on the `unsigned int` counter of a batch operation. -/
def slot32 (lg : Nat) (count : UInt32) : Nat :=
  (count &&& (UInt32.ofNat (2 ^ lg) - 1)).toNat

/-! ## §2. The four operations. -/

/-- `NAME##_enqueue`. -/
def enqueue (lg : Nat) (queue : IntelQueue α) (data : α) : IntelQueue α × Int :=
  if queue.enqueueCount - queue.dequeueCount ≥ entries lg then
    (queue, -1)
  else
    let i := slot lg queue.enqueueCount
    ({ queue with
        node := Function.update queue.node i data
        enqueueCount := queue.enqueueCount + 1
        length := queue.length + 1 }, 0)

/-- The `while(enqueue_num--)` loop, on the `unsigned int` local. -/
def enqueueLoop (lg : Nat) : Nat → (Nat → α) → UInt32 → IntelQueue α → UInt32 × IntelQueue α
  | 0, _, enqueueCount, queue => (enqueueCount, queue)
  | n + 1, data, enqueueCount, queue =>
      let i := slot32 lg enqueueCount
      enqueueLoop lg n (fun k => data (k + 1)) (enqueueCount + 1)
        { queue with
            node := Function.update queue.node i (data 0)
            length := queue.length + 1 }

/-- `NAME##_enqueue_multiple`. -/
def enqueueMultiple (lg : Nat) (queue : IntelQueue α) (data : Nat → α) (enqueueNum : UInt32) :
    IntelQueue α × Int :=
  if queue.enqueueCount + enqueueNum.toUInt64 - queue.dequeueCount > entries lg then
    (queue, -1)
  else
    let r := enqueueLoop lg enqueueNum.toNat data queue.enqueueCount.toUInt32 queue
    ({ r.2 with enqueueCount := r.1.toUInt64 }, 0)

/-- `NAME##_dequeue`: the return code, and `*data` where it is written. -/
def dequeue (lg : Nat) (queue : IntelQueue α) : IntelQueue α × Int × List α :=
  if queue.enqueueCount = queue.dequeueCount then
    (queue, -1, [])
  else
    let i := slot lg queue.dequeueCount
    ({ queue with
        dequeueCount := queue.dequeueCount + 1
        length := queue.length - 1 }, 0, [queue.node i])

/-- The `while(dequeue_num--)` loop, with the elements it writes to `*(data++)`. -/
def dequeueLoop (lg : Nat) : Nat → UInt32 → IntelQueue α → UInt32 × IntelQueue α × List α
  | 0, dequeueCount, queue => (dequeueCount, queue, [])
  | n + 1, dequeueCount, queue =>
      let i := slot32 lg dequeueCount
      let r := dequeueLoop lg n (dequeueCount + 1) { queue with length := queue.length - 1 }
      (r.1, r.2.1, queue.node i :: r.2.2)

/-- `NAME##_dequeue_multiple`. -/
def dequeueMultiple (lg : Nat) (queue : IntelQueue α) (dequeueNum : UInt32) :
    IntelQueue α × Int × List α :=
  if queue.dequeueCount + dequeueNum.toUInt64 > queue.enqueueCount then
    (queue, -1, [])
  else
    let r := dequeueLoop lg dequeueNum.toNat queue.dequeueCount.toUInt32 queue
    ({ r.2.1 with dequeueCount := r.1.toUInt64 }, 0, r.2.2)

/-! ## §3. The queue as a machine. -/

/-- A call on the queue, with its arguments. -/
inductive Call (α : Type) where
  | enqueue (data : α)
  | enqueueMultiple (data : Nat → α) (enqueueNum : UInt32)
  | dequeue
  | dequeueMultiple (dequeueNum : UInt32)

/-- The return code and the elements written to the caller. -/
abbrev Reply (α : Type) := Int × List α

/-- One call. -/
def call (lg : Nat) (queue : IntelQueue α) : Call α → IntelQueue α × Reply α
  | .enqueue data => let r := enqueue lg queue data; (r.1, r.2, [])
  | .enqueueMultiple data n => let r := enqueueMultiple lg queue data n; (r.1, r.2, [])
  | .dequeue => dequeue lg queue
  | .dequeueMultiple n => dequeueMultiple lg queue n

/-- The queue under any sequence of calls. -/
def intel (lg : Nat) : Machine (IntelQueue α) (Call α) (Reply α) where
  step queue c := some (call lg queue c)

/-- Four calls on a queue of four entries: the refused batch changes nothing. -/
example :
    ((intel 2).run (init fun _ => 0)
      [.enqueue 7, .enqueueMultiple (fun k => k) 4, .enqueueMultiple (fun k => k) 3,
        .dequeueMultiple 3]).map Prod.snd
      = some [(0, []), (-1, []), (0, []), (0, [7, 0, 1])] := by decide

end FreePacket.Queue
