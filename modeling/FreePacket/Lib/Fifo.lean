/-
  FreePacket.Lib.Fifo
  ───────────────────
  **THE BOUNDED FIFO over lists, head first.**

  `push` appends a whole batch or refuses it; `pop` takes a whole batch off
  the head or refuses it.  Single-element use is `push cap s [x]` and `take`.

  Nothing here names a program.
-/
import Mathlib.Data.List.Basic
import Mathlib.Tactic.Common

namespace FreePacket.Lib.Fifo

variable {α : Type*}

/-- Append the batch `xs` if it fits under the capacity. -/
def push (cap : Nat) (s xs : List α) : Option (List α) :=
  if s.length + xs.length ≤ cap then some (s ++ xs) else none

/-- Take the `n` oldest elements if there are that many. -/
def pop (n : Nat) (s : List α) : Option (List α × List α) :=
  if n ≤ s.length then some (s.take n, s.drop n) else none

/-- Take the oldest element if there is one. -/
def take : List α → Option (α × List α)
  | [] => none
  | x :: s => some (x, s)

theorem push_eq_some {cap : Nat} {s xs s' : List α} :
    push cap s xs = some s' ↔ s.length + xs.length ≤ cap ∧ s' = s ++ xs := by
  unfold push
  split
  · rename_i h
    simp only [Option.some.injEq]
    exact ⟨fun e => ⟨h, e.symm⟩, fun e => e.2.symm⟩
  · rename_i h
    simp [h]

theorem push_of_le {cap : Nat} {s xs : List α} (h : s.length + xs.length ≤ cap) :
    push cap s xs = some (s ++ xs) := push_eq_some.mpr ⟨h, rfl⟩

theorem push_of_lt {cap : Nat} {s xs : List α} (h : cap < s.length + xs.length) :
    push cap s xs = none := by
  unfold push
  rw [if_neg (by omega)]

theorem pop_eq_some {n : Nat} {s out s' : List α} :
    pop n s = some (out, s') ↔ out.length = n ∧ s = out ++ s' := by
  unfold pop
  split
  · rename_i h
    simp only [Option.some.injEq, Prod.mk.injEq]
    constructor
    · rintro ⟨rfl, rfl⟩
      exact ⟨List.length_take_of_le h, (List.take_append_drop n s).symm⟩
    · rintro ⟨rfl, rfl⟩
      exact ⟨List.take_left, List.drop_left⟩
  · rename_i h
    constructor
    · intro e
      simp at e
    · rintro ⟨rfl, rfl⟩
      simp at h

theorem pop_of_le {n : Nat} {s : List α} (h : n ≤ s.length) :
    pop n s = some (s.take n, s.drop n) := by
  unfold pop
  rw [if_pos h]

theorem pop_of_lt {n : Nat} {s : List α} (h : s.length < n) : pop n s = none := by
  unfold pop
  rw [if_neg (by omega)]

theorem take_eq_some {s s' : List α} {x : α} : take s = some (x, s') ↔ s = x :: s' := by
  cases s with
  | nil => simp [take]
  | cons y t => simp [take]

end FreePacket.Lib.Fifo
