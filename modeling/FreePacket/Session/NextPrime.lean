/-
  FreePacket.Session.NextPrime
  ────────────────────────────
  **`next_prime` OF hash.c: the size of a hash table.**

  The inner loop of `next_prime` divides by every number below the candidate
  (`noDivisor_prime_iff`); the outer one tries one candidate after another
  from `x + 1` on.  On an `x` that is not negative it answers the least prime
  above `x` (`nextPrime_least`), once it is given the rounds to reach it
  (`nextPrime_finds`), and Bertrand's postulate puts that prime at `2 * x` at
  most, so it always ends (`nextPrime_terminates`).  The largest `int` is a
  prime itself, and below it the answer is an `int` (`nextPrime_correct`).  On
  a negative `x` the first candidate has no divisor to try, and the
  answer is `x + 1` (`nextPrime_negative`).

  The conversion of the answer to `int` is left standing: `Int32.ofInt p`.
-/
import FreePacket.Session.Hash
import Mathlib.NumberTheory.Bertrand
import Mathlib.NumberTheory.LucasLehmer

namespace FreePacket.Session

/-! ## §1. The inner loop. -/

/-- The divisors tried from `j` on, one a round. -/
theorem noDivisor_iff (i k j : Nat) :
    noDivisor i k j = true ↔ ∀ d, j ≤ d → d < j + k → ¬ d ∣ i := by
  induction k generalizing j with
  | zero =>
    show true = true ↔ _
    refine iff_of_true rfl ?_
    intro d hj hlt
    omega
  | succ k ih =>
    have hmod : Int.tmod i j = 0 ↔ j ∣ i := by
      rw [← Int.natCast_dvd_natCast]
      exact Int.dvd_iff_tmod_eq_zero.symm
    have hstep : noDivisor i (k + 1) j
        = if Int.tmod i j = 0 then false else noDivisor i k (j + 1 : Nat) := by
      rw [Nat.cast_succ]
      rfl
    rw [hstep]
    by_cases hdvd : j ∣ i
    · rw [if_pos (hmod.mpr hdvd)]
      refine iff_of_false (by decide) ?_
      intro hall
      exact hall j (Nat.le_refl j) (by omega) hdvd
    · rw [if_neg (fun h => hdvd (hmod.mp h)), ih (j + 1)]
      constructor
      · intro hall d hj hlt
        rcases Nat.eq_or_lt_of_le hj with rfl | hlt'
        · exact hdvd
        · exact hall d hlt' (by omega)
      · intro hall d hj hlt
        exact hall d (by omega) (by omega)

/-- **Trial division decides primality.** -/
theorem noDivisor_prime_iff {n : Nat} (h : 2 ≤ n) :
    noDivisor n (n - 2) 2 = true ↔ n.Prime := by
  have hloop := noDivisor_iff n (n - 2) 2
  rw [Nat.cast_ofNat] at hloop
  rw [hloop, Nat.prime_def_lt']
  constructor
  · intro hall
    refine ⟨h, ?_⟩
    intro m hm hlt
    exact hall m hm (by omega)
  · rintro ⟨-, hall⟩ d hd hlt
    exact hall d hd (by omega)

/-! ## §2. The least prime above a number. -/

/-- What `next_prime(x)` is after. -/
structure LeastPrimeAbove (x p : Nat) : Prop where
  prime : p.Prime
  above : x < p
  least : ∀ q, q.Prime → x < q → p ≤ q

theorem leastPrimeAbove_exists (x : Nat) : ∃ p, LeastPrimeAbove x p := by
  classical
  have hex : ∃ p, p.Prime ∧ x < p := by
    obtain ⟨p, hle, hprime⟩ := Nat.exists_infinite_primes (x + 1)
    exact ⟨p, hprime, hle⟩
  refine ⟨Nat.find hex, (Nat.find_spec hex).1, (Nat.find_spec hex).2, ?_⟩
  intro q hprime habove
  exact Nat.find_min' hex ⟨hprime, habove⟩

/-- **Bertrand's postulate**: the search ends within twice the start. -/
theorem LeastPrimeAbove.le_double {x p : Nat} (h : LeastPrimeAbove x p) (hx : x ≠ 0) :
    p ≤ 2 * x := by
  obtain ⟨q, hprime, habove, hle⟩ := Nat.exists_prime_lt_and_le_two_mul x hx
  exact (h.least q hprime habove).trans hle

/-- **The largest `int` is a prime**, the Mersenne prime of exponent 31. -/
theorem intMax_prime : Nat.Prime 2147483647 := by
  have hmersenne : (mersenne 31).Prime :=
    lucas_lehmer_sufficiency 31 (by norm_num) (by norm_num)
  exact hmersenne

/-- So an `int` below it has its next prime among the `int`s. -/
theorem LeastPrimeAbove.le_intMax {x p : Nat} (h : LeastPrimeAbove x p) (hx : x < 2147483647) :
    p ≤ 2147483647 := h.least 2147483647 intMax_prime hx

/-- `next_prime` starts from 1 when it is asked for 0. -/
theorem LeastPrimeAbove.one_iff (p : Nat) : LeastPrimeAbove 1 p ↔ LeastPrimeAbove 0 p := by
  constructor
  · rintro ⟨hprime, habove, hleast⟩
    exact ⟨hprime, by omega, fun q hq _ => hleast q hq hq.one_lt⟩
  · rintro ⟨hprime, -, hleast⟩
    exact ⟨hprime, hprime.one_lt, fun q hq _ => hleast q hq hq.pos⟩

/-- A candidate that is not prime is passed over. -/
theorem LeastPrimeAbove.succ_iff {x : Nat} (h : ¬ (x + 1).Prime) (p : Nat) :
    LeastPrimeAbove (x + 1) p ↔ LeastPrimeAbove x p := by
  have hne : ∀ q : Nat, q.Prime → x < q → x + 1 < q := by
    intro q hq hlt
    rcases Nat.eq_or_lt_of_le hlt with heq | hlt'
    · rw [← heq] at hq
      exact absurd hq h
    · exact hlt'
  constructor
  · rintro ⟨hprime, habove, hleast⟩
    exact ⟨hprime, by omega, fun q hq hlt => hleast q hq (hne q hq hlt)⟩
  · rintro ⟨hprime, habove, hleast⟩
    exact ⟨hprime, hne p hprime habove, fun q hq hlt => hleast q hq (by omega)⟩

/-! ## §3. The outer loop. -/

/-- One round, on a candidate of at least 2. -/
theorem nextPrimeLoop_succ (fuel : Nat) {i : Nat} (h : 0 < i) :
    nextPrimeLoop (fuel + 1) i
      = if noDivisor (i + 1 : Nat) (i + 1 - 2) 2 then some (Int32.ofInt (i + 1 : Nat))
        else nextPrimeLoop fuel (i + 1 : Nat) := by
  have hne : (i : Int) ≠ 0 := by omega
  have hcount : ((i : Int) + 1 - 2).toNat = i + 1 - 2 := by omega
  rw [Nat.cast_succ]
  show (if (i : Int) = 0 then some 0
    else if noDivisor ((i : Int) + 1) ((i : Int) + 1 - 2).toNat 2
      then some (Int32.ofInt ((i : Int) + 1)) else nextPrimeLoop fuel ((i : Int) + 1)) = _
  rw [if_neg hne, hcount]

theorem nextPrimeLoop_least {fuel i : Nat} {v : Int32} (hi : 0 < i)
    (h : nextPrimeLoop fuel i = some v) : ∃ p, LeastPrimeAbove i p ∧ v = Int32.ofInt p := by
  induction fuel generalizing i with
  | zero => exact absurd h (by unfold nextPrimeLoop; exact nofun)
  | succ fuel ih =>
    have htest := noDivisor_prime_iff (show 2 ≤ i + 1 by omega)
    rw [nextPrimeLoop_succ fuel hi] at h
    by_cases hprime : (i + 1).Prime
    · rw [if_pos (htest.mpr hprime)] at h
      exact ⟨i + 1, ⟨hprime, by omega, fun q _ hlt => hlt⟩, (Option.some.inj h).symm⟩
    · rw [if_neg (fun hno => hprime (htest.mp hno))] at h
      obtain ⟨p, hp, hv⟩ := ih (by omega) h
      exact ⟨p, (LeastPrimeAbove.succ_iff hprime p).mp hp, hv⟩

theorem nextPrimeLoop_finds {fuel i p : Nat} (hi : 0 < i) (hp : LeastPrimeAbove i p)
    (hfuel : p ≤ i + fuel) : nextPrimeLoop fuel i = some (Int32.ofInt p) := by
  induction fuel generalizing i with
  | zero =>
    have habove := hp.above
    omega
  | succ fuel ih =>
    have htest := noDivisor_prime_iff (show 2 ≤ i + 1 by omega)
    rw [nextPrimeLoop_succ fuel hi]
    by_cases hprime : (i + 1).Prime
    · have heq : p = i + 1 := Nat.le_antisymm (hp.least _ hprime (by omega)) hp.above
      rw [if_pos (htest.mpr hprime), heq]
    · rw [if_neg (fun hno => hprime (htest.mp hno))]
      exact ih (by omega) ((LeastPrimeAbove.succ_iff hprime p).mpr hp) (by omega)

/-! ## §4. `next_prime`. -/

/-- The loop runs from `x`, or from 1 for an `x` of 0. -/
theorem nextPrime_eq_loop {x : Int32} (hx : 0 ≤ x.toInt) (fuel : Nat) :
    ∃ i : Nat, 0 < i ∧ i ≤ x.toInt.toNat + 1 ∧ nextPrime fuel x = nextPrimeLoop fuel i
      ∧ ∀ p, LeastPrimeAbove i p ↔ LeastPrimeAbove x.toInt.toNat p := by
  unfold nextPrime
  by_cases hzero : x = 0
  · subst hzero
    exact ⟨1, by decide, by decide, rfl, LeastPrimeAbove.one_iff⟩
  · have hne : x.toInt ≠ 0 := fun h => hzero (Int32.toInt.inj h)
    refine ⟨x.toInt.toNat, by omega, by omega, ?_, fun p => Iff.rfl⟩
    rw [if_neg hzero, Int.toNat_of_nonneg hx]

/-- **What `next_prime` answers is the least prime above `x`.** -/
theorem nextPrime_least {fuel : Nat} {x v : Int32} (hx : 0 ≤ x.toInt)
    (h : nextPrime fuel x = some v) :
    ∃ p, LeastPrimeAbove x.toInt.toNat p ∧ v = Int32.ofInt p := by
  obtain ⟨i, hi, -, hloop, hsame⟩ := nextPrime_eq_loop hx fuel
  rw [hloop] at h
  obtain ⟨p, hp, hv⟩ := nextPrimeLoop_least hi h
  exact ⟨p, (hsame p).mp hp, hv⟩

/-- **And it gets there**, in as many rounds as lie between. -/
theorem nextPrime_finds {fuel : Nat} {x : Int32} {p : Nat} (hx : 0 ≤ x.toInt)
    (hp : LeastPrimeAbove x.toInt.toNat p) (hfuel : p ≤ fuel) :
    nextPrime fuel x = some (Int32.ofInt p) := by
  obtain ⟨i, hi, hle, hloop, hsame⟩ := nextPrime_eq_loop hx fuel
  rw [hloop]
  exact nextPrimeLoop_finds hi ((hsame p).mpr hp) (by omega)

/-- **So it always ends**, and within twice its argument. -/
theorem nextPrime_terminates {fuel : Nat} {x : Int32} (hx : 0 ≤ x.toInt)
    (hfuel : 2 * x.toInt.toNat + 2 ≤ fuel) :
    ∃ p, LeastPrimeAbove x.toInt.toNat p ∧ nextPrime fuel x = some (Int32.ofInt p) := by
  obtain ⟨p, hp⟩ := leastPrimeAbove_exists x.toInt.toNat
  have hle : p ≤ 2 * x.toInt.toNat + 2 := by
    by_cases hzero : x.toInt.toNat = 0
    · -- Bertrand says nothing of 0; the prime there is 2
      have htwo : p ≤ 2 := hp.least 2 Nat.prime_two (by omega)
      omega
    · have hdouble := hp.le_double hzero
      omega
  exact ⟨p, hp, nextPrime_finds hx hp (by omega)⟩

/-- **`next_prime` is correct**: on an `x` that is not negative, nor the
    largest `int`, it ends and returns the least prime above `x`, which the
    conversion to `int` leaves as it is. -/
theorem nextPrime_correct {x : Int32} (hx : 0 ≤ x.toInt) (hlt : x.toInt < 2147483647) :
    ∃ p : Nat, LeastPrimeAbove x.toInt.toNat p ∧ (Int32.ofInt p).toInt = p
      ∧ ∃ rounds, ∀ fuel, rounds ≤ fuel → nextPrime fuel x = some (Int32.ofInt p) := by
  obtain ⟨p, hp, -⟩ := nextPrime_terminates hx (Nat.le_refl _)
  have hle : p ≤ 2147483647 := hp.le_intMax (by omega)
  refine ⟨p, hp, ?_, p, fun fuel hfuel => nextPrime_finds hx hp hfuel⟩
  exact Int32.toInt_ofInt_of_le (by omega) (by omega)

/-- The default length of the table. -/
theorem nextPrime_correct_default :
    ∃ p : Nat, LeastPrimeAbove 1173 p ∧ (Int32.ofInt p).toInt = p
      ∧ ∃ rounds, ∀ fuel, rounds ≤ fuel → nextPrime fuel 1173 = some (Int32.ofInt p) :=
  nextPrime_correct (show 0 ≤ (1173 : Int32).toInt by decide)
    (show (1173 : Int32).toInt < 2147483647 by decide)

/-- **A negative `x` has its successor for a prime.** -/
theorem nextPrime_negative {fuel : Nat} {x v : Int32} (hx : x.toInt < 0)
    (h : nextPrime fuel x = some v) : v.toInt = x.toInt + 1 := by
  have hzero : x ≠ 0 := by
    intro heq
    subst heq
    exact absurd hx (by decide)
  have hlow : -2 ^ 31 ≤ x.toInt := Int32.le_toInt x
  unfold nextPrime at h
  rw [if_neg hzero] at h
  cases fuel with
  | zero => exact absurd h (by unfold nextPrimeLoop; exact nofun)
  | succ fuel =>
    have hne : x.toInt ≠ 0 := by omega
    have hcount : (x.toInt + 1 - 2).toNat = 0 := by omega
    unfold nextPrimeLoop at h
    rw [if_neg hne, hcount] at h
    have hv : Int32.ofInt (x.toInt + 1) = v := Option.some.inj h
    rw [← hv]
    exact Int32.toInt_ofInt_of_le (by omega) (by omega)

end FreePacket.Session
