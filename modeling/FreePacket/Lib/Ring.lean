/-
  FreePacket.Lib.Ring
  ───────────────────
  **RING STORAGE: a list kept in `C` cells, addressed modulo `C`.**

  `Holds C node d s` says that the list `s` stands in the cells `d % C`,
  `(d + 1) % C`, … in order.  Only the residue of the start matters
  (`holds_congr`), so counters that wrap at a multiple of `C` index the same
  cells as counters that never wrap.

  Nothing here names a program.
-/
import FreePacket.Lib.Memory
import Mathlib.Data.Int.ModEq

namespace FreePacket.Lib

variable {α : Type*}

/-- The list `s` stands in the cells of `node` from position `d` on, modulo `C`. -/
def Holds (C : Nat) (node : Nat → α) (d : Nat) (s : List α) : Prop :=
  ∀ k, (h : k < s.length) → node ((d + k) % C) = s[k]

theorem holds_nil (C : Nat) (node : Nat → α) (d : Nat) : Holds C node d [] := by
  intro k hk
  simp at hk

/-- Only the residue of the start counts. -/
theorem holds_congr {C : Nat} {node : Nat → α} {d d' : Nat} {s : List α}
    (hd : d % C = d' % C) (h : Holds C node d s) : Holds C node d' s := by
  intro k hk
  have hidx : (d' + k) % C = (d + k) % C := by rw [Nat.add_mod, ← hd, ← Nat.add_mod]
  rw [hidx]
  exact h k hk

/-- Cells at different distances below `C` are different cells. -/
theorem ring_index_ne {C d k n : Nat} (hk : k < n) (hn : n < C) : (d + k) % C ≠ (d + n) % C := by
  intro h
  have hmod : k ≡ n [MOD C] := Nat.ModEq.add_left_cancel' d h
  have heq : k = n := hmod.eq_of_lt_of_lt (by omega) hn
  omega

/-- **Writing the first free cell appends.** -/
theorem holds_snoc {C : Nat} {node : Nat → α} {d : Nat} {s : List α} (x : α)
    (h : Holds C node d s) (hs : s.length < C) :
    Holds C (Function.update node ((d + s.length) % C) x) d (s ++ [x]) := by
  intro k hk
  by_cases hlast : k = s.length
  · subst hlast
    simp
  · have hlt : k < s.length := by
      simp only [List.length_append, List.length_singleton] at hk
      omega
    rw [Function.update_of_ne (ring_index_ne hlt hs), h k hlt, List.getElem_append_left hlt]

/-- **Reading the first cell and stepping over it** drops the head. -/
theorem holds_cons {C : Nat} {node : Nat → α} {d : Nat} {x : α} {s : List α}
    (h : Holds C node d (x :: s)) : node (d % C) = x ∧ Holds C node (d + 1) s := by
  constructor
  · have hhead := h 0 (by simp)
    rwa [Nat.add_zero] at hhead
  · intro k hk
    have hnext := h (k + 1) (by simpa using hk)
    rw [show d + 1 + k = d + (k + 1) by omega, hnext]
    simp

/-- Stepping over `n` cells drops `n` elements. -/
theorem holds_drop {C : Nat} {node : Nat → α} {d : Nat} {s : List α} (n : Nat)
    (h : Holds C node d s) : Holds C node (d + n) (s.drop n) := by
  intro k hk
  have hlt : n + k < s.length := by
    simp only [List.length_drop] at hk
    omega
  rw [show d + n + k = d + (n + k) by omega, h (n + k) hlt]
  simp

end FreePacket.Lib
