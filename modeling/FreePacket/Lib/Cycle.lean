/-
  FreePacket.Lib.Cycle
  ────────────────────
  **TAKING TURNS: a cycle of `r` places, gone through again and again.**

  `turns f r n` is the list of the first `n` places visited.  Each place is
  visited `n / r` times, and once more where the last round got to it, so the
  counts of two places never differ by more than one.

  A sequence goes round in `n` steps when its terms are equal exactly at
  places congruent modulo `n`; several sequences side by side go round in the
  least common multiple of their lengths.

  Main results:
    * `count_turns` — how often a place was visited.
    * `count_turns_le` — two places, at any time.
    * `GoesRound.pair` — two sequences side by side.
    * `GoesRound.period_iff`, `GoesRound.nodup`, `GoesRound.count` — the exact
      period, what a window holds, and how often.
    * `GoesRound.ncard_range` — how many different terms there are.

  Nothing here names a program.
-/
import Mathlib.Data.Int.CardIntervalMod
import Mathlib.Data.List.Count
import Mathlib.Data.List.Nodup
import Mathlib.Data.Set.Card

namespace FreePacket.Lib

variable {β : Type*}

/-! ## §1. How often a place was visited. -/

/-- The first `n` places of the cycle `f 0, …, f (r - 1), f 0, …`. -/
def turns (f : Nat → β) (r n : Nat) : List β := (List.range n).map (fun k => f (k % r))

@[simp] theorem length_turns (f : Nat → β) (r n : Nat) : (turns f r n).length = n := by
  unfold turns
  rw [List.length_map, List.length_range]

theorem turns_succ (f : Nat → β) (r n : Nat) : turns f r (n + 1) = turns f r n ++ [f (n % r)] := by
  unfold turns
  rw [List.range_succ, List.map_append, List.map_singleton]

/-- The place after place `n % r`. -/
theorem succ_mod_eq (n : Nat) {r : Nat} (hr : 0 < r) :
    (n + 1) % r = if n % r + 1 < r then n % r + 1 else 0 := by
  have hlt := Nat.mod_lt n hr
  have hstep : (n + 1) % r = (n % r + 1) % r := by
    rw [Nat.mod_add_mod]
  rw [hstep]
  split
  · rename_i h
    exact Nat.mod_eq_of_lt h
  · rename_i h
    rw [show n % r + 1 = r by omega, Nat.mod_self]

/-- **How often a place was visited**: once a round, and once more if the
    round under way has got to it. -/
theorem count_turns [DecidableEq β] {f : Nat → β} {r c : Nat}
    (hinj : ∀ d < r, f d = f c → d = c) (hc : c < r) (n : Nat) :
    (turns f r n).count (f c) = n / r + if c < n % r then 1 else 0 := by
  have hr : 0 < r := Nat.lt_of_le_of_lt (Nat.zero_le c) hc
  have hplace : ∀ k ∈ List.range n, ((fun x => x == f c) ∘ fun k => f (k % r)) k
      ↔ decide (k ≡ c [MOD r]) := by
    intro k _
    show (f (k % r) == f c) = true ↔ decide (k % r = c % r) = true
    rw [Nat.mod_eq_of_lt hc, beq_iff_eq, decide_eq_true_iff]
    exact ⟨hinj _ (Nat.mod_lt k hr), fun h => by rw [h]⟩
  have hcount := Nat.count_modEq_card n hr c
  rw [Nat.mod_eq_of_lt hc] at hcount
  unfold turns
  rw [List.count, List.countP_map, List.countP_congr hplace]
  exact hcount

/-- **Two places differ by at most one visit**, at any time. -/
theorem count_turns_le [DecidableEq β] {f : Nat → β} {r c d : Nat}
    (hinj : ∀ a < r, ∀ b < r, f a = f b → a = b) (hc : c < r) (hd : d < r) (n : Nat) :
    (turns f r n).count (f c) ≤ (turns f r n).count (f d) + 1 := by
  rw [count_turns (fun a ha => hinj a ha c hc) hc, count_turns (fun a ha => hinj a ha d hd) hd]
  split <;> split <;> omega

/-! ## §2. Sequences that go round. -/

/-- `u` goes round in `n` steps, and not in fewer. -/
def GoesRound (u : Nat → β) (n : Nat) : Prop := ∀ s t, u s = u t ↔ s ≡ t [MOD n]

/-- A cycle of `n` different places, entered at place `c`. -/
theorem goesRound_turn {f : Nat → β} {n : Nat} (hn : 0 < n)
    (hinj : ∀ a < n, ∀ b < n, f a = f b → a = b) (c : Nat) :
    GoesRound (fun t => f ((c + t) % n)) n := by
  intro s t
  constructor
  · intro h
    have hplace : (c + s) % n = (c + t) % n :=
      hinj _ (Nat.mod_lt _ hn) _ (Nat.mod_lt _ hn) h
    exact Nat.ModEq.add_left_cancel' c hplace
  · intro h
    have hplace : (c + s) % n = (c + t) % n := h.add_left c
    show f ((c + s) % n) = f ((c + t) % n)
    rw [hplace]

section GoesRound

variable {γ : Type*} {u : Nat → β} {v : Nat → γ} {m n : Nat}

/-- **Side by side** two sequences go round in the least common multiple. -/
theorem GoesRound.pair (hu : GoesRound u m) (hv : GoesRound v n) :
    GoesRound (fun t => (u t, v t)) (m.lcm n) := by
  intro s t
  rw [Prod.mk.injEq, hu s t, hv s t]
  constructor
  · rintro ⟨hm, hn⟩
    exact Nat.mod_lcm hm hn
  · intro h
    exact ⟨h.of_dvd (Nat.dvd_lcm_left m n), h.of_dvd (Nat.dvd_lcm_right m n)⟩

/-- Renaming the terms one to one. -/
theorem GoesRound.map (hu : GoesRound u n) {f : β → γ} (hf : Function.Injective f) :
    GoesRound (fun t => f (u t)) n := by
  intro s t
  rw [← hu s t]
  exact hf.eq_iff

/-- **The periods are the multiples of `n`.** -/
theorem GoesRound.period_iff (hu : GoesRound u n) (p : Nat) :
    (∀ t, u (t + p) = u t) ↔ n ∣ p := by
  constructor
  · intro h
    have h₀ := (hu _ _).mp (h 0)
    rw [Nat.zero_add] at h₀
    exact (Nat.modEq_zero_iff_dvd).mp h₀
  · intro h t
    apply (hu _ _).mpr
    exact (Nat.ModEq.refl t).add ((Nat.modEq_zero_iff_dvd).mpr h)

/-- **`n` terms in a row are all different.** -/
theorem GoesRound.nodup (hu : GoesRound u n) (t : Nat) :
    ((List.range n).map (fun k => u (t + k))).Nodup := by
  apply List.Nodup.map_on _ List.nodup_range
  intro a ha b hb hab
  have hmod := Nat.ModEq.add_left_cancel' t ((hu _ _).mp hab)
  exact hmod.eq_of_lt_of_lt (List.mem_range.mp ha) (List.mem_range.mp hb)

/-- The terms of the first round are all there are. -/
theorem GoesRound.range_eq (hu : GoesRound u n) (hn : 0 < n) :
    Set.range u = Set.image u (Set.Iio n) := by
  ext x
  constructor
  · rintro ⟨t, rfl⟩
    exact ⟨t % n, Nat.mod_lt t hn, (hu _ _).mpr (Nat.mod_modEq t n)⟩
  · rintro ⟨t, _, rfl⟩
    exact ⟨t, rfl⟩

theorem GoesRound.finite_range (hu : GoesRound u n) (hn : 0 < n) : (Set.range u).Finite := by
  rw [hu.range_eq hn]
  exact (Set.finite_Iio n).image u

/-- **There are `n` different terms.** -/
theorem GoesRound.ncard_range (hu : GoesRound u n) (hn : 0 < n) : (Set.range u).ncard = n := by
  have hinj : Set.InjOn u (Set.Iio n) := by
    intro a ha b hb h
    exact ((hu a b).mp h).eq_of_lt_of_lt ha hb
  rw [hu.range_eq hn, hinj.ncard_image, ← Finset.coe_Iio, Set.ncard_coe_finset,
    Nat.card_Iio]

/-- **In whole rounds every term occurs once a round**, wherever they begin. -/
theorem GoesRound.count [DecidableEq β] (hu : GoesRound u n) (hn : 0 < n) {l : Nat} (hl : n ∣ l)
    (t s : Nat) : ((List.range l).map (fun k => u (t + k))).count (u s) = l / n := by
  -- `s` is `s'` steps further on from `t`
  obtain ⟨s', hs'⟩ : ∃ s', t + s' ≡ s [MOD n] := by
    refine ⟨s + (n - 1) * t, ?_⟩
    have hsum : t + (s + (n - 1) * t) = s + n * t := by
      obtain ⟨k, rfl⟩ := Nat.exists_eq_add_of_lt hn
      rw [Nat.zero_add, Nat.add_sub_cancel, Nat.add_mul, Nat.one_mul]
      omega
    rw [hsum]
    exact (Nat.ModEq.refl s).add ((Nat.modEq_zero_iff_dvd).mpr (Nat.dvd_mul_right n t))
  have hplace : ∀ k ∈ List.range l, ((fun x => x == u s) ∘ fun k => u (t + k)) k
      ↔ decide (k ≡ s' [MOD n]) := by
    intro k _
    show (u (t + k) == u s) = true ↔ decide (k ≡ s' [MOD n]) = true
    rw [beq_iff_eq, decide_eq_true_iff, hu (t + k) s]
    constructor
    · intro h
      exact Nat.ModEq.add_left_cancel' t (h.trans hs'.symm)
    · intro h
      exact (h.add_left t).trans hs'
  have hcount := Nat.count_modEq_card l hn s'
  rw [Nat.mod_eq_zero_of_dvd hl, if_neg (Nat.not_lt_zero _), Nat.add_zero] at hcount
  rw [List.count, List.countP_map, List.countP_congr hplace]
  exact hcount

end GoesRound

/-- `w` stays among `f 0, …, f (n - 1)`, and in any `l` terms in a row takes
    each of these values `l / n` times. -/
structure Sweeps [DecidableEq β] (w f : Nat → β) (n l : Nat) : Prop where
  stays : ∀ t, ∃ k < n, w t = f k
  count : ∀ t, ∀ k < n, ((List.range l).map (fun j => w (t + j))).count (f k) = l / n

/-- **A cycle sweeps its places.** -/
theorem sweeps_turn [DecidableEq β] {f : Nat → β} {n : Nat} (hn : 0 < n)
    (hinj : ∀ a < n, ∀ b < n, f a = f b → a = b) (c : Nat) {l : Nat} (hl : n ∣ l) :
    Sweeps (fun t => f ((c + t) % n)) f n l := by
  constructor
  · intro t
    exact ⟨(c + t) % n, Nat.mod_lt _ hn, rfl⟩
  · intro t k hk
    -- the cycle is at place `k` after `n - c % n + k` steps
    have hplace : (c + (n - c % n + k)) % n = k := by
      have hc := Nat.mod_lt c hn
      have hsum : c + (n - c % n + k) = k + n * (c / n + 1) := by
        have hdiv := Nat.div_add_mod c n
        rw [Nat.mul_add, Nat.mul_one]
        omega
      rw [hsum, Nat.add_mul_mod_self_left, Nat.mod_eq_of_lt hk]
    have hcount := (goesRound_turn hn hinj c).count hn hl t (n - c % n + k)
    simp only [hplace] at hcount
    exact hcount

end FreePacket.Lib
