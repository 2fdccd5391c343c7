/-
  FreePacket.Lib.Keyed
  ────────────────────
  **CHAINED HASH TABLES: lists looked up by key, and what a change of one
  chain does to the map they stand for.**

  A chain is a list of elements, each with a key.  A table is a row of
  chains, each element in the chain of its key's index.  Looked up by key,
  the elements of all chains are a finite map.  A change of one chain that
  leaves the elements of all keys but one in place is an update of the map
  at that key.

  Main result: `lookup_collect_update`.

  Nothing here names a program.
-/
import Mathlib.Data.List.Nodup
import Mathlib.Data.Set.Card
import Mathlib.Logic.Function.Basic

namespace FreePacket.Lib.Keyed

variable {α κ : Type*}

/-! ## §1. One chain. -/

section Chain

variable [DecidableEq κ] {key : α → κ} {k k' : κ}

/-- The first element of a key. -/
def lookup (key : α → κ) (k : κ) (l : List α) : Option α := l.find? (fun a => key a == k)

/-- The elements of all other keys, in their order. -/
def others (key : α → κ) (k : κ) (l : List α) : List α := l.filter (fun a => key a != k)

theorem lookup_eq_none_iff {l : List α} : lookup key k l = none ↔ ∀ a ∈ l, key a ≠ k := by
  unfold lookup
  rw [List.find?_eq_none]
  simp only [beq_iff_eq]

theorem key_of_lookup {l : List α} {a : α} (h : lookup key k l = some a) :
    a ∈ l ∧ key a = k := by
  have hkey : (key a == k) = true := List.find?_some (p := fun b => key b == k) h
  exact ⟨List.mem_of_find?_eq_some h, beq_iff_eq.mp hkey⟩

/-- Where keys do not repeat, the elements are what their keys find. -/
theorem lookup_eq_some_iff {l : List α} (hnd : (l.map key).Nodup) {a : α} :
    lookup key k l = some a ↔ a ∈ l ∧ key a = k := by
  refine ⟨key_of_lookup, ?_⟩
  rintro ⟨ha, hk⟩
  cases h : lookup key k l with
  | none => exact absurd hk (lookup_eq_none_iff.mp h a ha)
  | some b =>
      obtain ⟨hb, hbk⟩ := key_of_lookup h
      rw [List.inj_on_of_nodup_map hnd hb ha (hbk.trans hk.symm)]

/-- The element of the key is found when no element before it has the key. -/
theorem lookup_append_cons {pre post : List α} {a : α} (hpre : ∀ b ∈ pre, key b ≠ k)
    (ha : key a = k) : lookup key k (pre ++ a :: post) = some a := by
  have hnone : pre.find? (fun b => key b == k) = none := lookup_eq_none_iff.mpr hpre
  have hfound : (a :: post).find? (fun b => key b == k) = some a :=
    List.find?_cons_of_pos (p := fun b => key b == k) (beq_iff_eq.mpr ha)
  unfold lookup
  rw [List.find?_append, hnone, Option.none_or, hfound]

/-- **A filter of a list without repeated keys** is looked up entry by entry. -/
theorem lookup_filter {l : List α} (hnd : (l.map key).Nodup) (p : α → Bool) :
    lookup key k (l.filter p) = (lookup key k l).filter p := by
  have hnd' : ((l.filter p).map key).Nodup := hnd.sublist (List.filter_sublist.map key)
  refine Option.ext fun a => ?_
  rw [lookup_eq_some_iff hnd', Option.filter_eq_some_iff, lookup_eq_some_iff hnd, List.mem_filter]
  tauto

/-- **As many keys as elements**, where no key is repeated. -/
theorem ncard_keys {l : List α} (hnd : (l.map key).Nodup) :
    {k | lookup key k l ≠ none}.ncard = l.length := by
  have hset : {k | lookup key k l ≠ none} = ((l.map key).toFinset : Set κ) := by
    ext k
    rw [Set.mem_ofPred_eq, Ne, lookup_eq_none_iff, Finset.mem_coe, List.mem_toFinset, List.mem_map]
    push Not
    rfl
  rw [hset, Set.ncard_coe_finset, List.toFinset_card_of_nodup hnd, List.length_map]

/-- A lookup over chains in a row. -/
theorem lookup_append (l l' : List α) :
    lookup key k (l ++ l') = (lookup key k l).or (lookup key k l') := List.find?_append

theorem others_append (l l' : List α) :
    others key k (l ++ l') = others key k l ++ others key k l' := List.filter_append l l'

/-- An element of the key is none of the others. -/
theorem others_append_cons (pre post : List α) {a : α} (ha : key a = k) :
    others key k (pre ++ a :: post) = others key k (pre ++ post) := by
  have hdrop : others key k (a :: post) = others key k post :=
    List.filter_cons_of_neg (by simp [ha])
  rw [others_append, others_append, hdrop]

/-- **The others decide what the other keys find.** -/
theorem lookup_others (hne : k' ≠ k) (l : List α) :
    lookup key k' (others key k l) = lookup key k' l := by
  unfold lookup others
  rw [List.find?_filter]
  congr 1
  funext a
  by_cases ha : key a = k'
  · simp [ha, hne]
  · simp [ha]

/-- Chains with the same others are the same for the other keys. -/
theorem lookup_congr {l l' : List α} (h : others key k l = others key k l') (hne : k' ≠ k) :
    lookup key k' l = lookup key k' l' := by
  rw [← lookup_others hne l, h, lookup_others hne]

end Chain

/-! ## §2. A row of chains. -/

/-- The elements of the first `n` chains. -/
def collect (n : Nat) (t : Nat → List α) : List α := (List.range n).flatMap t

theorem collect_succ (n : Nat) (t : Nat → List α) :
    collect (n + 1) t = collect n t ++ t n := by
  unfold collect
  rw [List.range_succ, List.flatMap_append, List.flatMap_singleton]

/-- Every element is in the chain of its key. -/
def Indexed (key : α → κ) (index : κ → Nat) (n : Nat) (t : Nat → List α) : Prop :=
  ∀ b < n, ∀ a ∈ t b, index (key a) = b

variable {key : α → κ} {index : κ → Nat} {k : κ} {n : Nat} {t : Nat → List α}

theorem Indexed.update (ht : Indexed key index n t) {l : List α}
    (hl : ∀ a ∈ l, index (key a) = index k) :
    Indexed key index n (Function.update t (index k) l) := by
  intro b hb a ha
  by_cases hbk : b = index k
  · rw [hbk, Function.update_self] at ha
    rw [hl a ha, hbk]
  · rw [Function.update_of_ne hbk] at ha
    exact ht b hb a ha

/-- Keys that do not repeat in a chain do not repeat at all. -/
theorem Indexed.nodup_collect (ht : Indexed key index n t)
    (hnd : ∀ b < n, ((t b).map key).Nodup) : ((collect n t).map key).Nodup := by
  induction n with
  | zero => exact List.nodup_nil
  | succ n ih =>
      have hlow : Indexed key index n t := fun b hb => ht b (Nat.lt_succ_of_lt hb)
      rw [collect_succ, List.map_append, List.nodup_append]
      refine ⟨ih hlow (fun b hb => hnd b (Nat.lt_succ_of_lt hb)), hnd n (Nat.lt_succ_self n), ?_⟩
      -- one key in two chains would have two indices
      intro k hk k' hk' heq
      obtain ⟨a, ha, rfl⟩ := List.mem_map.mp hk
      obtain ⟨a', ha', rfl⟩ := List.mem_map.mp hk'
      obtain ⟨b, hb, hab⟩ := List.mem_flatMap.mp ha
      have hlt := List.mem_range.mp hb
      have hsame := ht n (Nat.lt_succ_self n) a' ha'
      rw [← heq, hlow b hlt a hab] at hsame
      omega

variable [DecidableEq κ]

/-- **A key is looked up in its own chain.** -/
theorem lookup_collect (ht : Indexed key index n t) (hk : index k < n) :
    lookup key k (collect n t) = lookup key k (t (index k)) := by
  induction n with
  | zero => exact absurd hk (Nat.not_lt_zero _)
  | succ n ih =>
      have hlow : Indexed key index n t := fun b hb => ht b (Nat.lt_succ_of_lt hb)
      rw [collect_succ, lookup_append]
      rcases Nat.lt_succ_iff_lt_or_eq.mp hk with hlt | heq
      · -- the last chain holds none of the key's elements
        have hlast : lookup key k (t n) = none := by
          rw [lookup_eq_none_iff]
          rintro a ha rfl
          exact absurd (ht n (Nat.lt_succ_self n) a ha) (Nat.ne_of_lt hlt)
        rw [ih hlow hlt, hlast, Option.or_none]
      · -- nor do the chains in front of it
        have hfirst : lookup key k (collect n t) = none := by
          rw [lookup_eq_none_iff]
          rintro a ha rfl
          obtain ⟨b, hb, hab⟩ := List.mem_flatMap.mp ha
          have hindex := hlow b (List.mem_range.mp hb) a hab
          rw [heq] at hindex
          exact absurd (List.mem_range.mp hb) (hindex ▸ Nat.lt_irrefl n)
        rw [hfirst, Option.none_or, heq]

/-- **A change of one chain that keeps the others** is an update of the map. -/
theorem lookup_collect_update (ht : Indexed key index n t) (hindex : ∀ k, index k < n)
    {l : List α} (hl : ∀ a ∈ l, index (key a) = index k)
    (hothers : others key k l = others key k (t (index k))) :
    (fun k' => lookup key k' (collect n (Function.update t (index k) l)))
      = Function.update (fun k' => lookup key k' (collect n t)) k (lookup key k l) := by
  funext k'
  have hnew := ht.update hl
  rw [lookup_collect hnew (hindex k')]
  by_cases hk : k' = k
  · rw [hk, Function.update_self, Function.update_self]
  · rw [Function.update_of_ne hk, lookup_collect ht (hindex k')]
    by_cases hsame : index k' = index k
    · rw [hsame, Function.update_self]
      exact lookup_congr hothers hk
    · rw [Function.update_of_ne hsame]

end FreePacket.Lib.Keyed
