/-
  FreePacket.Checksum.Tilera
  ──────────────────────────
  **`crc32_32` OF checksum.c FOR `TILERA_PLATFORM`: a fold with an intrinsic.**

  The routine feeds the words of a buffer to `__insn_crc32_32`, here any
  function `step` of a CRC and a word.  The first call takes words 0 and 1,
  and `len` is lowered by these two before the loop; but the loop index starts
  at 2, and counts them once more.  The last two words are left out
  (`crc32_32Tilera_short`), so that the whole buffer is covered when it has
  two words and never else (`crc32_32Tilera_covers_iff`).

  The index is an `int`, compared as the `uint32_t` it converts to; its
  overflow is taken to wrap.
-/
import Mathlib.Algebra.Group.Nat.Defs
import Mathlib.Data.List.Basic
import Mathlib.Tactic.Common

namespace FreePacket.Checksum

/-! ## §1. The routine. -/

/-- `for (int i = 2; i < len; i++)`, from `i` on. -/
def tileraLoop (step : UInt32 → UInt32 → UInt32) (buf : Int → UInt32) (len : UInt32) (i : Int32)
    (crcTemp : UInt32) : UInt32 :=
  if i.toUInt32 < len then tileraLoop step buf len (i + 1) (step crcTemp (buf i.toInt))
  else crcTemp
termination_by len.toNat - i.toUInt32.toNat
decreasing_by
  rename_i hlt
  have hlen := len.toNat_lt
  have hnext : (i + 1).toUInt32 = i.toUInt32 + 1 := rfl
  rw [UInt32.lt_iff_toNat_lt] at hlt
  rw [hnext, UInt32.toNat_add, UInt32.toNat_one]
  omega

/-- `crc32_32` as `TILERA_PLATFORM` has it; `none` where the assertion fails. -/
def crc32_32Tilera (step : UInt32 → UInt32 → UInt32) (buf : Int → UInt32) (len : UInt32) :
    Option UInt32 :=
  if len ≥ 2 then some (tileraLoop step buf (len - 2) 2 (step (buf 0) (buf 1))) else none

/-- **The left fold of `step` over the first `n` words**, from word 0. -/
def foldWords (step : UInt32 → UInt32 → UInt32) (buf : Int → UInt32) (n : Nat) : UInt32 :=
  (List.range' 1 (n - 1)).foldl (fun crc (k : Nat) => step crc (buf k)) (buf 0)

/-! ## §2. The words it takes. -/

/-- The subscript that stands for the `k`-th round of the index. -/
def subscript (k : Nat) : Int := (UInt32.ofNat k).toInt32.toInt

theorem subscript_of_lt {k : Nat} (h : k < 2 ^ 31) : subscript k = k := by
  have hnat : (UInt32.ofNat k).toNat = k := by
    rw [UInt32.toNat_ofNat']
    omega
  show (UInt32.ofNat k).toBitVec.toInt = k
  rw [BitVec.toInt_eq_toNat_of_lt, UInt32.toNat_toBitVec, hnat]
  rw [UInt32.toNat_toBitVec, hnat]
  omega

/-- The loop folds `step` over the rounds still to go. -/
theorem tileraLoop_eq (step : UInt32 → UInt32 → UInt32) (buf : Int → UInt32) (len : UInt32)
    (n : Nat) (i : Int32) (c : UInt32) (h : i.toUInt32.toNat + n = len.toNat) :
    tileraLoop step buf len i c
      = (List.range' i.toUInt32.toNat n).foldl (fun crc k => step crc (buf (subscript k))) c := by
  have hlen := len.toNat_lt
  induction n generalizing i c with
  | zero =>
    have hstop : ¬ i.toUInt32 < len := by
      rw [UInt32.lt_iff_toNat_lt]
      omega
    unfold tileraLoop
    rw [if_neg hstop]
    rfl
  | succ n ih =>
    have hgo : i.toUInt32 < len := by
      rw [UInt32.lt_iff_toNat_lt]
      omega
    have hnext : (i + 1).toUInt32.toNat = i.toUInt32.toNat + 1 := by
      show (i.toUInt32 + 1).toNat = _
      rw [UInt32.toNat_add, UInt32.toNat_one]
      omega
    have hsub : subscript i.toUInt32.toNat = i.toInt := by
      unfold subscript
      rw [UInt32.ofNat_toNat]
      rfl
    unfold tileraLoop
    rw [if_pos hgo, ih (i + 1) _ (by omega), hnext, List.range'_succ, List.foldl_cons, hsub]

/-- **What the routine computes**: words 0 and 1, then a fold over rounds 2 up
    to `len - 2`. -/
theorem crc32_32Tilera_eq (step : UInt32 → UInt32 → UInt32) (buf : Int → UInt32) {len : UInt32}
    (h : 2 ≤ len) :
    crc32_32Tilera step buf len
      = some ((List.range' 2 (len.toNat - 4)).foldl (fun crc k => step crc (buf (subscript k)))
          (step (buf 0) (buf 1))) := by
  have hnat : 2 ≤ len.toNat := UInt32.le_iff_toNat_le.mp h
  have hlen := len.toNat_lt
  have hsub : (len - 2).toNat = len.toNat - 2 := UInt32.toNat_sub_of_le _ _ h
  have htwo : (2 : Int32).toUInt32.toNat = 2 := rfl
  unfold crc32_32Tilera
  rw [if_pos h]
  rcases Nat.lt_or_ge len.toNat 4 with hshort | hlong
  · -- the lowered bound is below the index already
    have hstop : ¬ (2 : Int32).toUInt32 < len - 2 := by
      rw [UInt32.lt_iff_toNat_lt, htwo, hsub]
      omega
    unfold tileraLoop
    rw [if_neg hstop, show len.toNat - 4 = 0 by omega]
    rfl
  · rw [tileraLoop_eq step buf (len - 2) (len.toNat - 4) 2 _ (by omega), htwo]

/-- **The last two words are left out.** -/
theorem crc32_32Tilera_short (step : UInt32 → UInt32 → UInt32) (buf : Int → UInt32) {len : UInt32}
    (h : 4 ≤ len) (hlt : len.toNat ≤ 2 ^ 31) :
    crc32_32Tilera step buf len = some (foldWords step buf (len.toNat - 2)) := by
  have hnat : 4 ≤ len.toNat := UInt32.le_iff_toNat_le.mp h
  have htwo : 2 ≤ len := UInt32.le_iff_toNat_le.mpr (show 2 ≤ len.toNat by omega)
  have hcount : len.toNat - 2 - 1 = (len.toNat - 4) + 1 := by omega
  have hsame : ∀ k ∈ List.range' 2 (len.toNat - 4), ∀ crc,
      step crc (buf (subscript k)) = step crc (buf k) := by
    intro k hk crc
    have hbound := (List.mem_range'_1.mp hk).2
    rw [subscript_of_lt (by omega)]
  rw [crc32_32Tilera_eq step buf htwo]
  unfold foldWords
  rw [hcount, List.range'_succ, List.foldl_cons, List.foldl_ext _ _ _ (fun crc k hk => hsame k hk crc)]
  rfl

/-! ## §3. When the buffer is covered. -/

/-- A step that counts its calls. -/
theorem foldl_count {α : Type*} (l : List α) (c : UInt32) :
    l.foldl (fun c _ => c + 1) c = c + UInt32.ofNat l.length := by
  induction l generalizing c with
  | nil => exact (UInt32.add_zero c).symm
  | cons a rest ih =>
    rw [List.foldl_cons, ih, List.length_cons, Nat.add_comm, UInt32.ofNat_add, UInt32.add_assoc]
    rfl

/-- **The whole buffer is covered by two words, and by no other number.** -/
theorem crc32_32Tilera_covers_iff (buf : Int → UInt32) {len : UInt32} (h : 2 ≤ len) :
    (∀ step, crc32_32Tilera step buf len = some (foldWords step buf len.toNat)) ↔ len = 2 := by
  have hnat : 2 ≤ len.toNat := UInt32.le_iff_toNat_le.mp h
  have hlen := len.toNat_lt
  constructor
  · intro hall
    -- a step that counts tells how many words were taken
    have hcount := Option.some.inj
      ((crc32_32Tilera_eq (fun c _ => c + 1) buf h).symm.trans (hall _))
    unfold foldWords at hcount
    rw [foldl_count, foldl_count, List.length_range', List.length_range', UInt32.add_assoc] at hcount
    have hcalls : (1 + UInt32.ofNat (len.toNat - 4)).toNat = (UInt32.ofNat (len.toNat - 1)).toNat := by
      rw [(UInt32.add_right_inj _).mp hcount]
    rw [UInt32.toNat_add, UInt32.toNat_ofNat', UInt32.toNat_ofNat', UInt32.toNat_one] at hcalls
    apply UInt32.toNat_inj.mp
    show len.toNat = 2
    omega
  · intro heq step
    rw [crc32_32Tilera_eq step buf h, heq]
    rfl

/-- Words 1 and 2, with the addition of words for the intrinsic. -/
theorem twoWords_covered :
    crc32_32Tilera (fun crc word => crc + word) (fun k => UInt32.ofNat (k + 1).toNat) 2 = some 3 :=
  (crc32_32Tilera_covers_iff _ (show (2 : UInt32) ≤ 2 by decide)).mpr rfl
    (fun crc word => crc + word)

/-- **Of the words 1, 2 and 3 the third is not taken.** -/
theorem threeWords_not_covered :
    ¬ ∀ (step : UInt32 → UInt32 → UInt32) (buf : Int → UInt32) (len : UInt32), 2 ≤ len →
        crc32_32Tilera step buf len = some (foldWords step buf len.toNat) := by
  intro hall
  have hthree := hall (fun crc word => crc + word) (fun k => UInt32.ofNat (k + 1).toNat) 3
    (by decide)
  rw [crc32_32Tilera_eq _ _ (show (2 : UInt32) ≤ 3 by decide)] at hthree
  exact absurd hthree (by decide)

end FreePacket.Checksum
