/-
  FreePacket.Lib.Crc
  ──────────────────
  **CYCLIC REDUNDANCY CHECKS, reflected: bit by bit and from a table.**

  The register of a reflected CRC is a bit vector that moves down one place a
  message bit.  A bit enters by exclusive or at the low end; a low bit of one
  leaves the polynomial behind (`feedBit`).  Several bits at once are looked
  up: the table has, for each `n`-bit value, the register after `n` shifts of
  it.

  Main results:
    * `shifts_xor` — `n` shifts of `c ^ m` are `m`'s low `n` bits fed to `c`,
      and what is above them in `m`.
    * `table_step` — one look-up is `n` bits fed.
    * `table_fold` — a loop of look-ups is the bit-serial CRC of the message.
-/
import Mathlib.Data.List.Basic
import Mathlib.Logic.Function.Iterate

namespace FreePacket.Lib.Crc

variable {w : Nat}

/-! ## §1. The register. -/

/-- One shift: the low bit leaves, and a one leaves `poly` behind. -/
def shiftBit (poly c : BitVec w) : BitVec w :=
  if c.getLsbD 0 then (c >>> 1) ^^^ poly else c >>> 1

/-- A message bit enters at the low end, and the register shifts. -/
def feedBit (poly c : BitVec w) (b : Bool) : BitVec w :=
  if c.getLsbD 0 ^^ b then (c >>> 1) ^^^ poly else c >>> 1

/-- The low `n` bits of `m`, the lowest first. -/
def lowBits (n : Nat) (m : BitVec w) : List Bool := (List.range n).map m.getLsbD

/-- **The CRC of a message, bit by bit.** -/
def crc (poly init final : BitVec w) (message : List Bool) : BitVec w :=
  message.foldl (feedBit poly) init ^^^ final

theorem lowBits_succ (n : Nat) (m : BitVec w) :
    lowBits (n + 1) m = m.getLsbD 0 :: lowBits n (m >>> 1) := by
  unfold lowBits
  rw [List.range_succ_eq_map, List.map_cons, List.map_map]
  congr 1
  apply List.map_congr_left
  intro i _
  show m.getLsbD (i + 1) = (m >>> 1).getLsbD i
  rw [BitVec.getLsbD_ushiftRight, Nat.add_comm]

/-- Vectors of any two widths with the same low bits. -/
theorem lowBits_congr {v n : Nat} {m : BitVec w} {m' : BitVec v}
    (h : ∀ i, i < n → m.getLsbD i = m'.getLsbD i) : lowBits n m = lowBits n m' := by
  apply List.map_congr_left
  intro i hi
  exact h i (List.mem_range.mp hi)

/-! ## §2. Several shifts. -/

/-- One shift of `c ^ m` feeds the low bit of `m`; the rest of `m` moves down. -/
theorem shiftBit_xor (poly c m : BitVec w) :
    shiftBit poly (c ^^^ m) = feedBit poly c (m.getLsbD 0) ^^^ (m >>> 1) := by
  unfold shiftBit feedBit
  rw [BitVec.getLsbD_xor, BitVec.ushiftRight_xor_distrib]
  split
  · -- the polynomial and `m >>> 1` change places
    rw [BitVec.xor_assoc, BitVec.xor_assoc, BitVec.xor_comm poly]
  · rfl

/-- **`n` shifts of `c ^ m`**: the low `n` bits of `m` fed to `c`, lowest
    first, and what is above them in `m`. -/
theorem shifts_xor (poly : BitVec w) (n : Nat) (c m : BitVec w) :
    (shiftBit poly)^[n] (c ^^^ m) = (lowBits n m).foldl (feedBit poly) c ^^^ (m >>> n) := by
  induction n generalizing c m with
  | zero =>
    show c ^^^ m = c ^^^ (m >>> 0)
    rw [BitVec.ushiftRight_zero]
  | succ n ih =>
    rw [lowBits_succ]
    show (shiftBit poly)^[n] (shiftBit poly (c ^^^ m))
      = (lowBits n (m >>> 1)).foldl (feedBit poly) (feedBit poly c (m.getLsbD 0)) ^^^ (m >>> (n + 1))
    rw [shiftBit_xor, ih, ← BitVec.shiftRight_add, Nat.add_comm 1 n]

/-- An `n`-bit value has nothing above its low `n` bits. -/
theorem shifts_value {poly : BitVec w} {n : Nat} {m : BitVec w} (c : BitVec w) (h : m >>> n = 0#w) :
    (shiftBit poly)^[n] (c ^^^ m) = (lowBits n m).foldl (feedBit poly) c := by
  rw [shifts_xor, h, BitVec.xor_zero]

/-- Shifts of `x` from those of its low bits alone. -/
theorem shifts_split {poly : BitVec w} {n : Nat} {x low : BitVec w} (hlow : low >>> n = 0#w)
    (hsame : ∀ i, i < n → low.getLsbD i = x.getLsbD i) :
    (shiftBit poly)^[n] x = (shiftBit poly)^[n] low ^^^ (x >>> n) := by
  have hx := shifts_xor poly n 0#w x
  have hl : (shiftBit poly)^[n] (0#w ^^^ low) = (lowBits n low).foldl (feedBit poly) 0#w :=
    shifts_value 0#w hlow
  rw [BitVec.zero_xor] at hx hl
  rw [hx, hl, lowBits_congr hsame]

/-! ## §3. The table. -/

/-- **One look-up feeds `n` bits.** -/
theorem table_step {poly : BitVec w} {n : Nat} {c m low : BitVec w} (hm : m >>> n = 0#w)
    (hlow : low >>> n = 0#w) (hsame : ∀ i, i < n → low.getLsbD i = (c ^^^ m).getLsbD i) :
    (shiftBit poly)^[n] low ^^^ (c >>> n) = (lowBits n m).foldl (feedBit poly) c := by
  have hshift : (c ^^^ m) >>> n = c >>> n := by
    rw [BitVec.ushiftRight_xor_distrib, hm, BitVec.xor_zero]
  rw [← shifts_value c hm, shifts_split hlow hsame, hshift]

/-- A fold whose steps each feed the bits of one symbol to a register of the
    state feeds it the bits of the whole message. -/
theorem table_fold {σ α : Type*} {poly : BitVec w} {bits : α → List Bool} {reg : σ → BitVec w}
    {step : σ → α → σ} (hstep : ∀ c a, reg (step c a) = (bits a).foldl (feedBit poly) (reg c))
    (message : List α) (c : σ) :
    reg (message.foldl step c) = (message.flatMap bits).foldl (feedBit poly) (reg c) := by
  induction message generalizing c with
  | nil => rfl
  | cons a rest ih =>
    show reg (rest.foldl step (step c a))
      = ((bits a) ++ rest.flatMap bits).foldl (feedBit poly) (reg c)
    rw [List.foldl_append, ← hstep, ih]

/-- **A CRC can be taken up again** where its final value was added to the
    register: adding it once more gives the register back. -/
theorem crc_append (poly init final : BitVec w) (a b : List Bool) :
    crc poly init final (a ++ b) = crc poly (crc poly init final a ^^^ final) final b := by
  unfold crc
  rw [List.foldl_append, BitVec.xor_assoc (List.foldl _ _ a), BitVec.xor_self, BitVec.xor_zero]

end FreePacket.Lib.Crc
