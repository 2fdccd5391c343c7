/-
  FreePacket.Lib.Tally
  ────────────────────
  **COUNTING WHAT STANDS IN A ROW OF LISTS.**

  `total n F p` counts the elements with property `p` in the lists
  `F 0 .. F (n - 1)`.  Conservation arguments change one list of a row at a
  time; `total_update` is the bookkeeping for one such change, written
  without subtraction so that linear arithmetic closes the sums.

  Main results:
    * `total_update` — what one replaced list does to the total.
    * `countP_le_total`, `countP_add_countP_le_total` — one list, and two
      different lists, are part of the total.
    * `sum_update_range` — the same bookkeeping for any weight.
    * `forall_update` — one replaced entry and a property of all entries.
    * `sum_range_le_of_single` — a sum that one term can contribute to.
    * `Balanced.trans` — balances that may lose elements add up.
    * `sum_ncard_le` — a row of sets whose elements tell their place.
    * `perm_of_countP`, `subperm_of_countP` — lists from what they count.
    * `Collected.read` — reading a row that grows, entry by entry.

  Nothing here names a program.
-/
import Mathlib.Algebra.BigOperators.Group.Finset.Basic
import Mathlib.Algebra.Order.BigOperators.Group.Finset
import Mathlib.Data.Set.Card
import Mathlib.Logic.Function.Basic
import Mathlib.Tactic.Common

namespace FreePacket.Lib

variable {α β : Type*}

/-! ## §1. Weights over a row. -/

/-- Replace entry `i`: the old weight leaves the sum, the new one enters. -/
theorem sum_update_range {n i : Nat} (hi : i < n) (g : β → Nat) (F : Nat → β) (v : β) :
    (∑ j ∈ Finset.range n, g (Function.update F i v j)) + g (F i)
      = (∑ j ∈ Finset.range n, g (F j)) + g v := by
  have hmem : i ∈ Finset.range n := Finset.mem_range.mpr hi
  have hother : ∀ j ∈ (Finset.range n).erase i, g (Function.update F i v j) = g (F j) := by
    intro j hj
    rw [Function.update_of_ne (Finset.ne_of_mem_erase hj)]
  rw [← Finset.add_sum_erase _ _ hmem, ← Finset.add_sum_erase _ (fun j => g (F j)) hmem,
    Finset.sum_congr rfl hother, Function.update_self]
  omega

/-- The same, the two weights given as what they are known to be. -/
theorem sum_replace_range {n i : Nat} (hi : i < n) (g : β → Nat) {F : Nat → β} {v : β}
    {old new : Nat} (hold : g (F i) = old) (hnew : g v = new) :
    (∑ j ∈ Finset.range n, g (Function.update F i v j)) + old
      = (∑ j ∈ Finset.range n, g (F j)) + new := by
  rw [← hold, ← hnew]
  exact sum_update_range hi g F v

/-- What holds of every entry of a row still does after one entry is replaced
    by a value it holds of. -/
theorem forall_update {n i : Nat} {Q : Nat → β → Prop} {F : Nat → β} {v : β}
    (h : ∀ j < n, Q j (F j)) (hv : Q i v) : ∀ j < n, Q j (Function.update F i v j) := by
  intro j hj
  by_cases hji : j = i
  · rw [hji, Function.update_self]
    exact hv
  · rw [Function.update_of_ne hji]
    exact h j hj

/-- A sum with at most one nonzero term is bounded by that term. -/
theorem sum_range_le_of_single {n c k : Nat} (f : Nat → Nat) (hzero : ∀ j < n, j ≠ c → f j = 0)
    (hle : ∀ j < n, f j ≤ k) : ∑ j ∈ Finset.range n, f j ≤ k := by
  by_cases hc : c < n
  · rw [Finset.sum_eq_single c (fun j hj hjc => hzero j (Finset.mem_range.mp hj) hjc)
      (fun hno => absurd (Finset.mem_range.mpr hc) hno)]
    exact hle c hc
  · rw [Finset.sum_eq_zero (fun j hj => hzero j (Finset.mem_range.mp hj) ?_)]
    · exact Nat.zero_le k
    · have hj' := Finset.mem_range.mp hj
      omega

/-! ## §2. Elements with a property. -/

/-- How many elements of the lists `F 0 .. F (n - 1)` satisfy `p`. -/
def total (n : Nat) (F : Nat → List α) (p : α → Bool) : Nat :=
  ∑ j ∈ Finset.range n, (F j).countP p

theorem total_update {n i : Nat} (hi : i < n) (F : Nat → List α) (l : List α) (p : α → Bool) :
    total n (Function.update F i l) p + (F i).countP p = total n F p + l.countP p :=
  sum_update_range hi (fun l => l.countP p) F l

/-- The same, the replaced list given as what it is known to be. -/
theorem total_replace {n i : Nat} (hi : i < n) {F : Nat → List α} {old : List α}
    (hold : F i = old) (new : List α) (p : α → Bool) :
    total n (Function.update F i new) p + old.countP p = total n F p + new.countP p := by
  rw [← hold]
  exact total_update hi F new p

/-- The same where the lists are read off a row of anything. -/
theorem total_map_replace {n i : Nat} (hi : i < n) (f : β → List α) {F : Nat → β} {v : β}
    {old new : List α} (hold : f (F i) = old) (hnew : f v = new) (p : α → Bool) :
    total n (fun j => f (Function.update F i v j)) p + old.countP p
      = total n (fun j => f (F j)) p + new.countP p := by
  rw [← hold, ← hnew]
  exact sum_update_range hi (fun b => (f b).countP p) F v

theorem total_nil (n : Nat) (p : α → Bool) : total n (fun _ => []) p = 0 := by
  unfold total
  exact Finset.sum_eq_zero (fun j _ => List.countP_nil)

theorem countP_le_total {n i : Nat} (hi : i < n) (F : Nat → List α) (p : α → Bool) :
    (F i).countP p ≤ total n F p :=
  Finset.single_le_sum (f := fun j => (F j).countP p) (fun _ _ => Nat.zero_le _)
    (Finset.mem_range.mpr hi)

/-- Two different lists of the row do not share what they count. -/
theorem countP_add_countP_le_total {n i j : Nat} (hi : i < n) (hj : j < n) (hne : i ≠ j)
    (F : Nat → List α) (p : α → Bool) :
    (F i).countP p + (F j).countP p ≤ total n F p := by
  -- empty list `i`: what is left of the total still covers list `j`
  have hupd := total_update hi F [] p
  have hle := countP_le_total hj (Function.update F i []) p
  rw [Function.update_of_ne (Ne.symm hne)] at hle
  simp only [List.countP_nil] at hupd
  omega

/-! ## §3. Balances that may lose something. -/

/-- **A balance with a condition**: nothing comes out or is left that was not
    there or went in; it is all accounted for only under the condition `kept`;
    and under that condition it comes out in order. -/
structure Balanced (before inn out after : List α) (kept : Prop) : Prop where
  le : out.length + after.length ≤ before.length + inn.length
  kept_of_eq : out.length + after.length = before.length + inn.length → kept
  eq_of_kept : kept → out ++ after = before ++ inn

theorem Balanced.refl (before : List α) : Balanced before [] [] before True where
  le := by simp
  kept_of_eq := fun _ => trivial
  eq_of_kept := fun _ => (List.append_nil before).symm

/-- The condition may be spelled otherwise. -/
theorem Balanced.congr {before inn out after : List α} {C D : Prop}
    (h : Balanced before inn out after C) (hCD : C ↔ D) : Balanced before inn out after D where
  le := h.le
  kept_of_eq := fun heq => hCD.mp (h.kept_of_eq heq)
  eq_of_kept := fun hD => h.eq_of_kept (hCD.mpr hD)

/-- **Balances add up**: two steps in a row keep everything when both do. -/
theorem Balanced.trans {before in₁ out₁ mid in₂ out₂ after : List α} {C₁ C₂ : Prop}
    (h₁ : Balanced before in₁ out₁ mid C₁) (h₂ : Balanced mid in₂ out₂ after C₂) :
    Balanced before (in₁ ++ in₂) (out₁ ++ out₂) after (C₁ ∧ C₂) := by
  have hle₁ := h₁.le
  have hle₂ := h₂.le
  refine ⟨?_, ?_, ?_⟩
  · rw [List.length_append, List.length_append]
    omega
  · -- the sums are equal only if neither step falls short
    intro heq
    rw [List.length_append, List.length_append] at heq
    exact ⟨h₁.kept_of_eq (by omega), h₂.kept_of_eq (by omega)⟩
  · intro h
    calc out₁ ++ out₂ ++ after
        = out₁ ++ (out₂ ++ after) := List.append_assoc _ _ _
      _ = out₁ ++ (mid ++ in₂) := by rw [h₂.eq_of_kept h.2]
      _ = (out₁ ++ mid) ++ in₂ := (List.append_assoc _ _ _).symm
      _ = (before ++ in₁) ++ in₂ := by rw [h₁.eq_of_kept h.1]
      _ = before ++ (in₁ ++ in₂) := List.append_assoc _ _ _

/-- The condition is exact. -/
theorem Balanced.eq_iff {before inn out after : List α} {kept : Prop}
    (h : Balanced before inn out after kept) : out ++ after = before ++ inn ↔ kept := by
  refine ⟨?_, h.eq_of_kept⟩
  intro heq
  refine h.kept_of_eq ?_
  rw [← List.length_append, heq, List.length_append]

/-! ## §4. Sets in a row. -/

/-- **Sets whose elements tell their place** in the row have no more elements
    together than there are. -/
theorem sum_ncard_le {K : Set α} (hK : K.Finite) (home : α → Nat) {n : Nat} {A : Nat → Set α}
    (hA : ∀ m < n, ∀ a ∈ A m, a ∈ K ∧ home a = m) :
    ∑ m ∈ Finset.range n, (A m).ncard ≤ K.ncard := by
  induction n generalizing K with
  | zero => exact Nat.zero_le _
  | succ n ih =>
      -- the sets in front share nothing with the last one
      have hfront : ∀ m < n, ∀ a ∈ A m, a ∈ K \ A n ∧ home a = m := by
        intro m hm a ha
        obtain ⟨hmem, hhome⟩ := hA m (Nat.lt_succ_of_lt hm) a ha
        refine ⟨⟨hmem, fun hlast => ?_⟩, hhome⟩
        have hother := (hA n (Nat.lt_succ_self n) a hlast).2
        omega
      have hsub : A n ⊆ K := fun a ha => (hA n (Nat.lt_succ_self n) a ha).1
      have hsplit := Set.ncard_sdiff_add_ncard_of_subset hsub hK
      have hfirst := ih (hK.subset Set.sdiff_subset) hfront
      rw [Finset.sum_range_succ]
      omega

/-! ## §5. From counts to lists. -/

/-- The lists of a row one behind the other count what the row does. -/
theorem countP_flatMap_range (n : Nat) (F : Nat → List α) (p : α → Bool) :
    ((List.range n).flatMap F).countP p = total n F p := by
  unfold total
  induction n with
  | zero => rfl
  | succ n ih =>
      rw [List.range_succ, List.flatMap_append, List.flatMap_singleton, List.countP_append, ih,
        Finset.sum_range_succ]

/-- Lists that count alike are the same up to order. -/
theorem perm_of_countP {l l' : List α} (h : ∀ p : α → Bool, l.countP p = l'.countP p) :
    l.Perm l' := by
  classical
  rw [List.perm_iff_count]
  intro a
  exact h (fun x => x == a)

/-- A list that counts no more than another one is part of it up to order. -/
theorem subperm_of_countP {l l' : List α} (h : ∀ p : α → Bool, l.countP p ≤ l'.countP p) :
    l.Subperm l' := by
  classical
  rw [List.subperm_ext_iff]
  intro a _
  exact h (fun x => x == a)

/-! ## §6. Reading a row that grows. -/

/-- **A reader has added up the first `i` entries** of a row, each as it found
    it, since the row was `first`; it is `now` at present and has only grown:
    the sum is between what it was and what it is. -/
structure Collected (first now : Nat → Nat) (i sum : Nat) : Prop where
  grown : ∀ j, first j ≤ now j
  low : ∑ j ∈ Finset.range i, first j ≤ sum
  high : sum ≤ ∑ j ∈ Finset.range i, now j

theorem Collected.start (row : Nat → Nat) : Collected row row 0 0 :=
  ⟨fun _ => le_refl _, le_refl _, le_refl _⟩

/-- The row grows further. -/
theorem Collected.grow {first now later : Nat → Nat} {i sum : Nat} (h : Collected first now i sum)
    (hlater : ∀ j, now j ≤ later j) : Collected first later i sum where
  grown := fun j => (h.grown j).trans (hlater j)
  low := h.low
  high := h.high.trans (Finset.sum_le_sum fun j _ => hlater j)

/-- The next entry is read. -/
theorem Collected.read {first now : Nat → Nat} {i sum : Nat} (h : Collected first now i sum) :
    Collected first now (i + 1) (sum + now i) where
  grown := h.grown
  low := by
    rw [Finset.sum_range_succ]
    exact Nat.add_le_add h.low (h.grown i)
  high := by
    rw [Finset.sum_range_succ]
    exact Nat.add_le_add_right h.high _

end FreePacket.Lib
