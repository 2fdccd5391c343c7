/-
  FreePacket.Lib.Memory
  ─────────────────────
  **CELLS BEHIND A POINTER: blocks, copying, little-endian loads and stores.**

  A pointer is the total function from offsets to cells it can reach, so an
  access out of bounds is a value like any other and has to be ruled out by a
  theorem, never by the type.

  Main results:
    * `slice_add` — a block splits at any point.
    * `slice_memcpy_self`, `slice_memcpy_before` — what a copy writes, and
      what it leaves alone.
    * `slice_memcpy_append` — copying to the end of a block appends.
    * `Repeats.append` — copying a pattern behind whole periods of it repeats it.
    * `load16_store16`, `load32_store32` — a load sees the store.

  Nothing here names a program.
-/
import Mathlib.Algebra.Group.Nat.Defs
import Mathlib.Data.List.Basic
import Mathlib.Data.Nat.ModEq
import Mathlib.Tactic.Common
import Mathlib.Tactic.IntervalCases

namespace FreePacket.Lib

variable {α : Type*}

/-! ## §1. Blocks. -/

/-- The `len` cells of `mem` from `off` on. -/
def slice (mem : Nat → α) (off len : Nat) : List α :=
  (List.range len).map (fun k => mem (off + k))

@[simp] theorem slice_zero (mem : Nat → α) (off : Nat) : slice mem off 0 = [] := rfl

@[simp] theorem slice_length (mem : Nat → α) (off len : Nat) :
    (slice mem off len).length = len := by
  simp [slice]

@[simp] theorem slice_getElem (mem : Nat → α) (off len k : Nat)
    (hk : k < (slice mem off len).length) : (slice mem off len)[k] = mem (off + k) := by
  simp [slice]

/-- Two blocks are equal when their cells are. -/
theorem slice_congr {mem mem' : Nat → α} {off off' len : Nat}
    (h : ∀ k, k < len → mem (off + k) = mem' (off' + k)) :
    slice mem off len = slice mem' off' len := by
  apply List.ext_getElem
  · simp
  · intro k hk _
    simp only [slice_getElem]
    exact h k (by simpa using hk)

/-- **A block splits at any point.** -/
theorem slice_add (mem : Nat → α) (off m n : Nat) :
    slice mem off (m + n) = slice mem off m ++ slice mem (off + m) n := by
  simp [slice, List.range_add, Nat.add_assoc, Function.comp_def]

/-- The first cell of a nonempty block. -/
theorem slice_cons (mem : Nat → α) (off n : Nat) :
    slice mem off (n + 1) = mem off :: slice mem (off + 1) n := by
  rw [Nat.add_comm n 1, slice_add]
  simp [slice]

/-- The same, through a pointer moved on by one. -/
theorem slice_succ (mem : Nat → α) (off n : Nat) :
    slice mem off (n + 1) = mem off :: slice (fun k => mem (k + 1)) off n := by
  have htail : slice mem (off + 1) n = slice (fun k => mem (k + 1)) off n :=
    slice_congr (fun k _ => by rw [show off + 1 + k = off + k + 1 by omega])
  rw [slice_cons, htail]

/-- A list laid out in memory, read back. -/
theorem slice_getD (l : List α) (d : α) : slice (fun k => l.getD k d) 0 l.length = l := by
  apply List.ext_getElem
  · exact slice_length _ _ _
  · intro k hk hk'
    rw [slice_getElem, Nat.zero_add, List.getD_eq_getElem?_getD, List.getElem?_eq_getElem hk']
    rfl

/-! ## §2. Copying. -/

/-- `memcpy(dst + off, src, len)`. -/
def memcpy (dst : Nat → α) (off : Nat) (src : Nat → α) (len : Nat) : Nat → α :=
  fun a => if off ≤ a ∧ a < off + len then src (a - off) else dst a

/-- **What a copy writes** is the block it reads. -/
theorem slice_memcpy_self (dst : Nat → α) (off : Nat) (src : Nat → α) (len : Nat) :
    slice (memcpy dst off src len) off len = slice src 0 len := by
  apply slice_congr
  intro k hk
  simp only [memcpy, Nat.zero_add]
  rw [if_pos (by omega), Nat.add_sub_cancel_left]

/-- **The frame of a copy**: cells below its target are unchanged. -/
theorem slice_memcpy_before (dst : Nat → α) {off : Nat} (src : Nat → α) (len : Nat) {a n : Nat}
    (h : a + n ≤ off) : slice (memcpy dst off src len) a n = slice dst a n := by
  apply slice_congr
  intro k hk
  simp only [memcpy]
  rw [if_neg (by omega)]

theorem memcpy_inside (dst : Nat → α) {off : Nat} (src : Nat → α) {len a : Nat} (h : off ≤ a)
    (hlt : a < off + len) : memcpy dst off src len a = src (a - off) := by
  unfold memcpy
  rw [if_pos ⟨h, hlt⟩]

theorem memcpy_outside (dst : Nat → α) {off : Nat} (src : Nat → α) {len a : Nat}
    (h : a < off ∨ off + len ≤ a) : memcpy dst off src len a = dst a := by
  unfold memcpy
  rw [if_neg (by omega)]

/-- Copying what is there already changes nothing. -/
theorem memcpy_noop {mem : Nat → α} {off : Nat} {src : Nat → α} {len : Nat}
    (h : ∀ k, k < len → mem (off + k) = src k) : memcpy mem off src len = mem := by
  funext a
  unfold memcpy
  split
  · rename_i ha
    rw [← h (a - off) (by omega), Nat.add_sub_cancel' ha.1]
  · rfl

/-- A copy is about the cells it reads. -/
theorem memcpy_congr (dst : Nat → α) (off : Nat) {src src' : Nat → α} {len : Nat}
    (h : ∀ k, k < len → src k = src' k) : memcpy dst off src len = memcpy dst off src' len := by
  funext a
  unfold memcpy
  split
  · exact h (a - off) (by omega)
  · rfl

/-- **Cell by cell**: the first one, then the others behind it. -/
theorem memcpy_succ (dst : Nat → α) (off : Nat) (src : Nat → α) (len : Nat) :
    memcpy dst off src (len + 1)
      = memcpy (memcpy dst off (fun _ => src 0) 1) (off + 1) (fun k => src (k + 1)) len := by
  funext a
  by_cases hlow : a < off
  · rw [memcpy_outside _ _ (Or.inl hlow), memcpy_outside _ _ (by omega),
      memcpy_outside _ _ (by omega)]
  · by_cases hfirst : a = off
    · rw [memcpy_inside _ _ (by omega) (by omega), memcpy_outside _ _ (by omega),
        memcpy_inside _ _ (by omega) (by omega), hfirst, Nat.sub_self]
    · by_cases hhigh : a < off + (len + 1)
      · rw [memcpy_inside _ _ (by omega) hhigh, memcpy_inside _ _ (by omega) (by omega)]
        congr 1
        omega
      · rw [memcpy_outside _ _ (by omega), memcpy_outside _ _ (by omega),
          memcpy_outside _ _ (by omega)]

/-- Copying to the end of the first `off` cells appends the copied block. -/
theorem slice_memcpy_append (dst : Nat → α) (off : Nat) (src : Nat → α) (len : Nat) :
    slice (memcpy dst off src len) 0 (off + len) = slice dst 0 off ++ slice src 0 len := by
  rw [slice_add, slice_memcpy_before dst src len (by omega), Nat.zero_add, slice_memcpy_self]

/-- The `len` cells from `off` on run through the first `n` cells of `src`
    over and over. -/
def Repeats (mem : Nat → α) (off len : Nat) (src : Nat → α) (n : Nat) : Prop :=
  ∀ k, k < len → mem (off + k) = src (k % n)

/-- **Whole periods, and up to one more behind them.** -/
theorem Repeats.append {mem src : Nat → α} {off n q m : Nat}
    (h : Repeats mem off (q * n) src n) (hm : m ≤ n) :
    Repeats (memcpy mem (off + q * n) src m) off (q * n + m) src n := by
  intro k hk
  by_cases hold : k < q * n
  · rw [memcpy_outside mem src (by omega)]
    exact h k hold
  · rw [memcpy_inside mem src (by omega) (by omega)]
    -- `k` is in the period that starts at `q * n`
    obtain ⟨r, rfl⟩ := Nat.exists_eq_add_of_le (Nat.le_of_not_lt hold)
    rw [Nat.mul_comm q n, Nat.mul_add_mod, Nat.mod_eq_of_lt (by omega)]
    congr 1
    omega

/-! ## §3. Little-endian loads and stores of bytes. -/

/-- The 16-bit value at `off`, least significant byte first. -/
def load16 (mem : Nat → UInt8) (off : Nat) : UInt16 :=
  (mem off).toUInt16 ||| ((mem (off + 1)).toUInt16 <<< 8)

/-- The 32-bit value at `off`, least significant byte first. -/
def load32 (mem : Nat → UInt8) (off : Nat) : UInt32 :=
  (load16 mem off).toUInt32 ||| ((load16 mem (off + 2)).toUInt32 <<< 16)

/-- The 64-bit value at `off`, least significant byte first. -/
def load64 (mem : Nat → UInt8) (off : Nat) : UInt64 :=
  (load32 mem off).toUInt64 ||| ((load32 mem (off + 4)).toUInt64 <<< 32)

/-- The bytes of a number, least significant first. -/
def leBytes (n : Nat) : Nat → UInt8 := fun k => UInt8.ofNat (n / 256 ^ k)

def store8 (mem : Nat → UInt8) (off : Nat) (v : UInt8) : Nat → UInt8 :=
  memcpy mem off (fun _ => v) 1

def store16 (mem : Nat → UInt8) (off : Nat) (v : UInt16) : Nat → UInt8 :=
  memcpy mem off (leBytes v.toNat) 2

def store32 (mem : Nat → UInt8) (off : Nat) (v : UInt32) : Nat → UInt8 :=
  memcpy mem off (leBytes v.toNat) 4

theorem leBytes_toNat (n k : Nat) : (leBytes n k).toNat = n / 256 ^ k % 256 := by
  unfold leBytes
  rw [UInt8.toNat_ofNat']

/-- Two bytes are two base-256 digits. -/
theorem load16_toNat (mem : Nat → UInt8) (off : Nat) :
    (load16 mem off).toNat = (mem off).toNat + 256 * (mem (off + 1)).toNat := by
  have h₀ := (mem off).toNat_lt
  have h₁ := (mem (off + 1)).toNat_lt
  have hshift : ((mem (off + 1)).toUInt16 <<< 8).toNat = (mem (off + 1)).toNat <<< 8 := by
    rw [UInt16.toNat_shiftLeft, UInt8.toNat_toUInt16]
    show (mem (off + 1)).toNat <<< 8 % 2 ^ 16 = _
    rw [Nat.shiftLeft_eq]
    omega
  unfold load16
  rw [UInt16.toNat_or, UInt8.toNat_toUInt16, hshift, Nat.or_comm,
    ← Nat.shiftLeft_add_eq_or_of_lt (by omega), Nat.shiftLeft_eq]
  omega

theorem load32_toNat (mem : Nat → UInt8) (off : Nat) :
    (load32 mem off).toNat = (load16 mem off).toNat + 65536 * (load16 mem (off + 2)).toNat := by
  have h₀ := (load16 mem off).toNat_lt
  have h₁ := (load16 mem (off + 2)).toNat_lt
  have hshift : ((load16 mem (off + 2)).toUInt32 <<< 16).toNat
      = (load16 mem (off + 2)).toNat <<< 16 := by
    rw [UInt32.toNat_shiftLeft, UInt16.toNat_toUInt32]
    show (load16 mem (off + 2)).toNat <<< 16 % 2 ^ 32 = _
    rw [Nat.shiftLeft_eq]
    omega
  unfold load32
  rw [UInt32.toNat_or, UInt16.toNat_toUInt32, hshift, Nat.or_comm,
    ← Nat.shiftLeft_add_eq_or_of_lt (by omega), Nat.shiftLeft_eq]
  omega

theorem load64_toNat (mem : Nat → UInt8) (off : Nat) :
    (load64 mem off).toNat
      = (load32 mem off).toNat + 4294967296 * (load32 mem (off + 4)).toNat := by
  have h₀ := (load32 mem off).toNat_lt
  have h₁ := (load32 mem (off + 4)).toNat_lt
  have hshift : ((load32 mem (off + 4)).toUInt64 <<< 32).toNat
      = (load32 mem (off + 4)).toNat <<< 32 := by
    rw [UInt64.toNat_shiftLeft, UInt32.toNat_toUInt64]
    show (load32 mem (off + 4)).toNat <<< 32 % 2 ^ 64 = _
    rw [Nat.shiftLeft_eq]
    omega
  unfold load64
  rw [UInt64.toNat_or, UInt32.toNat_toUInt64, hshift, Nat.or_comm,
    ← Nat.shiftLeft_add_eq_or_of_lt (by omega), Nat.shiftLeft_eq]
  omega

/-- Loads of equal bytes are equal. -/
theorem load16_congr {mem mem' : Nat → UInt8} {off : Nat}
    (h : ∀ a, off ≤ a → a < off + 2 → mem a = mem' a) : load16 mem off = load16 mem' off := by
  unfold load16
  rw [h off (by omega) (by omega), h (off + 1) (by omega) (by omega)]

theorem load32_congr {mem mem' : Nat → UInt8} {off : Nat}
    (h : ∀ a, off ≤ a → a < off + 4 → mem a = mem' a) : load32 mem off = load32 mem' off := by
  unfold load32
  rw [load16_congr (fun a h₁ h₂ => h a (by omega) (by omega)),
    load16_congr (fun a h₁ h₂ => h a (by omega) (by omega))]

/-- **A load tells its bytes apart.** -/
theorem load16_inj {mem mem' : Nat → UInt8} {off : Nat} (h : load16 mem off = load16 mem' off) :
    ∀ a, off ≤ a → a < off + 2 → mem a = mem' a := by
  have hsum := congrArg UInt16.toNat h
  rw [load16_toNat, load16_toNat] at hsum
  have h₀ := (mem off).toNat_lt
  have h₀' := (mem' off).toNat_lt
  have hlow : mem off = mem' off := by
    rw [← UInt8.toNat_inj]
    omega
  have hhigh : mem (off + 1) = mem' (off + 1) := by
    rw [← UInt8.toNat_inj]
    omega
  intro a ha hlt
  rcases Nat.eq_or_lt_of_le ha with rfl | ha
  · exact hlow
  · rw [show a = off + 1 by omega]
    exact hhigh

theorem load32_inj {mem mem' : Nat → UInt8} {off : Nat} (h : load32 mem off = load32 mem' off) :
    ∀ a, off ≤ a → a < off + 4 → mem a = mem' a := by
  have hsum := congrArg UInt32.toNat h
  rw [load32_toNat, load32_toNat] at hsum
  have h₀ := (load16 mem off).toNat_lt
  have h₀' := (load16 mem' off).toNat_lt
  have hlow : load16 mem off = load16 mem' off := by
    rw [← UInt16.toNat_inj]
    omega
  have hhigh : load16 mem (off + 2) = load16 mem' (off + 2) := by
    rw [← UInt16.toNat_inj]
    omega
  intro a ha hlt
  by_cases hhalf : a < off + 2
  · exact load16_inj hlow a ha hhalf
  · exact load16_inj hhigh a (by omega) (by omega)

theorem load64_inj {mem mem' : Nat → UInt8} {off : Nat} (h : load64 mem off = load64 mem' off) :
    ∀ a, off ≤ a → a < off + 8 → mem a = mem' a := by
  have hsum := congrArg UInt64.toNat h
  rw [load64_toNat, load64_toNat] at hsum
  have h₀ := (load32 mem off).toNat_lt
  have h₀' := (load32 mem' off).toNat_lt
  have hlow : load32 mem off = load32 mem' off := by
    rw [← UInt32.toNat_inj]
    omega
  have hhigh : load32 mem (off + 4) = load32 mem' (off + 4) := by
    rw [← UInt32.toNat_inj]
    omega
  intro a ha hlt
  by_cases hhalf : a < off + 4
  · exact load32_inj hlow a ha hhalf
  · exact load32_inj hhigh a (by omega) (by omega)

theorem store8_self (mem : Nat → UInt8) (off : Nat) (v : UInt8) : store8 mem off v off = v :=
  memcpy_inside mem (fun _ => v) (Nat.le_refl off) (Nat.lt_succ_self off)

theorem load16_leBytes {mem : Nat → UInt8} {off n : Nat}
    (h : ∀ k, k < 2 → mem (off + k) = leBytes n k) : (load16 mem off).toNat = n % 65536 := by
  rw [load16_toNat, h 1 (by omega), show mem off = leBytes n 0 from h 0 (by omega),
    leBytes_toNat, leBytes_toNat]
  omega

/-- A load beside the copied cells does not see the copy. -/
theorem load16_memcpy_outside (mem : Nat → UInt8) {off : Nat} (src : Nat → UInt8) {len o : Nat}
    (h : o + 2 ≤ off ∨ off + len ≤ o) : load16 (memcpy mem off src len) o = load16 mem o :=
  load16_congr fun _ _ _ => memcpy_outside mem src (by omega)

theorem load32_memcpy_outside (mem : Nat → UInt8) {off : Nat} (src : Nat → UInt8) {len o : Nat}
    (h : o + 4 ≤ off ∨ off + len ≤ o) : load32 (memcpy mem off src len) o = load32 mem o :=
  load32_congr fun _ _ _ => memcpy_outside mem src (by omega)

/-- Four bytes of a number are its lowest four. -/
theorem load32_leBytes {mem : Nat → UInt8} {off n : Nat}
    (h : ∀ k, k < 4 → mem (off + k) = leBytes n k) :
    (load32 mem off).toNat = n % 4294967296 := by
  have hlow := load16_leBytes (fun k hk => h k (by omega))
  -- the upper half holds the bytes of `n / 65536`
  have hhigh : (load16 mem (off + 2)).toNat = n / 65536 % 65536 := by
    refine load16_leBytes fun k hk => ?_
    rw [Nat.add_assoc, h (2 + k) (by omega), ← UInt8.toNat_inj, leBytes_toNat, leBytes_toNat,
      Nat.pow_add, ← Nat.div_div_eq_div_mul]
  rw [load32_toNat, hlow, hhigh]
  omega

/-- Eight bytes of a 64-bit value are the value. -/
theorem load64_leBytes {mem : Nat → UInt8} {off : Nat} {v : UInt64}
    (h : ∀ k, k < 8 → mem (off + k) = leBytes v.toNat k) : load64 mem off = v := by
  have hv := v.toNat_lt
  have hlow := load32_leBytes (fun k hk => h k (by omega))
  have hhigh : (load32 mem (off + 4)).toNat = v.toNat / 4294967296 % 4294967296 := by
    refine load32_leBytes fun k hk => ?_
    rw [Nat.add_assoc, h (4 + k) (by omega), ← UInt8.toNat_inj, leBytes_toNat, leBytes_toNat,
      Nat.pow_add, ← Nat.div_div_eq_div_mul]
  rw [← UInt64.toNat_inj, load64_toNat, hlow, hhigh]
  omega

/-- **A load sees the store.** -/
theorem load16_store16 (mem : Nat → UInt8) (off : Nat) (v : UInt16) :
    load16 (store16 mem off v) off = v := by
  have hv := v.toNat_lt
  have hbytes : ∀ k, k < 2 → store16 mem off v (off + k) = leBytes v.toNat k := by
    intro k hk
    unfold store16
    rw [memcpy_inside _ _ (by omega) (by omega), Nat.add_sub_cancel_left]
  rw [← UInt16.toNat_inj, load16_leBytes hbytes]
  omega

theorem load32_store32 (mem : Nat → UInt8) (off : Nat) (v : UInt32) :
    load32 (store32 mem off v) off = v := by
  have hv := v.toNat_lt
  have hbytes : ∀ k, k < 4 → store32 mem off v (off + k) = leBytes v.toNat k := by
    intro k hk
    unfold store32
    rw [memcpy_inside _ _ (by omega) (by omega), Nat.add_sub_cancel_left]
  rw [← UInt32.toNat_inj, load32_leBytes hbytes]
  omega

/-- Storing the value that is there changes nothing. -/
theorem store8_noop {mem : Nat → UInt8} {off : Nat} {v : UInt8} (h : mem off = v) :
    store8 mem off v = mem := by
  apply memcpy_noop
  intro k hk
  rw [Nat.lt_one_iff.mp hk]
  exact h

theorem store16_noop {mem : Nat → UInt8} {off : Nat} {v : UInt16} (h : load16 mem off = v) :
    store16 mem off v = mem := by
  have hbytes := load16_inj (h.trans (load16_store16 mem off v).symm)
  apply memcpy_noop
  intro k hk
  rw [hbytes (off + k) (by omega) (by omega)]
  unfold store16
  rw [memcpy_inside _ _ (by omega) (by omega), Nat.add_sub_cancel_left]

/-- The two bytes of a half-word exchanged: `htons` on a little-endian host. -/
def swap16 (v : UInt16) : UInt16 := (v <<< 8) ||| (v >>> 8)

/-- The four bytes of a word reversed: `htonl` on a little-endian host. -/
def swap32 (v : UInt32) : UInt32 :=
  (swap16 (v >>> 16).toUInt16).toUInt32 ||| ((swap16 v.toUInt16).toUInt32 <<< 16)

theorem swap16_toNat (v : UInt16) : (swap16 v).toNat = v.toNat % 256 * 256 + v.toNat / 256 := by
  have hv := v.toNat_lt
  have hleft : (v <<< 8).toNat = (v.toNat % 256) <<< 8 := by
    rw [UInt16.toNat_shiftLeft]
    show v.toNat <<< 8 % 2 ^ 16 = _
    rw [Nat.shiftLeft_eq, Nat.shiftLeft_eq]
    omega
  have hright : (v >>> 8).toNat = v.toNat / 256 := by
    rw [UInt16.toNat_shiftRight]
    show v.toNat >>> 8 = _
    rw [Nat.shiftRight_eq_div_pow]
  unfold swap16
  rw [UInt16.toNat_or, hleft, hright, ← Nat.shiftLeft_add_eq_or_of_lt (by omega),
    Nat.shiftLeft_eq]

/-- Exchanging the bytes of a half-word multiplies it by 256 modulo 65535. -/
theorem swap16_modEq (v : UInt16) : (swap16 v).toNat ≡ 256 * v.toNat [MOD 65535] := by
  show (swap16 v).toNat % 65535 = 256 * v.toNat % 65535
  rw [swap16_toNat]
  omega

theorem swap32_toNat (v : UInt32) :
    (swap32 v).toNat = (swap16 (v >>> 16).toUInt16).toNat
      + 65536 * (swap16 v.toUInt16).toNat := by
  have h₀ := (swap16 (v >>> 16).toUInt16).toNat_lt
  have h₁ := (swap16 v.toUInt16).toNat_lt
  have hshift : ((swap16 v.toUInt16).toUInt32 <<< 16).toNat
      = (swap16 v.toUInt16).toNat <<< 16 := by
    rw [UInt32.toNat_shiftLeft, UInt16.toNat_toUInt32]
    show (swap16 v.toUInt16).toNat <<< 16 % 2 ^ 32 = _
    rw [Nat.shiftLeft_eq]
    omega
  unfold swap32
  rw [UInt32.toNat_or, UInt16.toNat_toUInt32, hshift, Nat.or_comm,
    ← Nat.shiftLeft_add_eq_or_of_lt (by omega), Nat.shiftLeft_eq]
  omega

/-- **Byte order loses nothing.** -/
theorem swap16_injective : Function.Injective swap16 := by
  intro v w h
  have hsum := congrArg UInt16.toNat h
  rw [swap16_toNat, swap16_toNat] at hsum
  have hv := v.toNat_lt
  have hw := w.toNat_lt
  rw [← UInt16.toNat_inj]
  omega

theorem swap32_injective : Function.Injective swap32 := by
  intro v w h
  have hsum := congrArg UInt32.toNat h
  rw [swap32_toNat, swap32_toNat] at hsum
  have hv := (swap16 (v >>> 16).toUInt16).toNat_lt
  have hw := (swap16 (w >>> 16).toUInt16).toNat_lt
  -- the halves agree, and with them the words
  have hhigh : (v >>> 16).toUInt16 = (w >>> 16).toUInt16 := by
    apply swap16_injective
    rw [← UInt16.toNat_inj]
    omega
  have hlow : v.toUInt16 = w.toUInt16 := by
    apply swap16_injective
    rw [← UInt16.toNat_inj]
    omega
  have hhigh' := congrArg UInt16.toNat hhigh
  have hlow' := congrArg UInt16.toNat hlow
  rw [UInt32.toNat_toUInt16, UInt32.toNat_toUInt16, UInt32.toNat_shiftRight,
    UInt32.toNat_shiftRight] at hhigh'
  rw [UInt32.toNat_toUInt16, UInt32.toNat_toUInt16] at hlow'
  have hv' := v.toNat_lt
  have hw' := w.toNat_lt
  change v.toNat >>> 16 % 2 ^ 16 = w.toNat >>> 16 % 2 ^ 16 at hhigh'
  rw [Nat.shiftRight_eq_div_pow, Nat.shiftRight_eq_div_pow] at hhigh'
  rw [← UInt32.toNat_inj]
  omega

/-! ## §4. Nibbles. -/

/-- A store into a 4-bit field on top of a byte. -/
def setHigh (b v : UInt8) : UInt8 := (b &&& (0x0f : UInt8)) ||| (v <<< (4 : UInt8))

/-- A store into a 4-bit field at the bottom of a byte. -/
def setLow (b v : UInt8) : UInt8 := (b &&& (0xf0 : UInt8)) ||| (v &&& 0x0f)

theorem setHigh_high (b v : UInt8) : setHigh b v >>> (4 : UInt8) = v &&& 0x0f := by
  apply UInt8.toBitVec_inj.mp
  ext i hi
  interval_cases i <;> simp [setHigh]

theorem setLow_high (b v : UInt8) : setLow b v >>> (4 : UInt8) = b >>> (4 : UInt8) := by
  apply UInt8.toBitVec_inj.mp
  ext i hi
  interval_cases i <;> simp [setLow]

/-- A nibble written over itself. -/
theorem setHigh_self (b : UInt8) : setHigh b (b >>> (4 : UInt8)) = b := by
  apply UInt8.toBitVec_inj.mp
  ext i hi
  interval_cases i <;> simp [setHigh]

theorem setLow_self (b : UInt8) : setLow b (b &&& (0x0f : UInt8)) = b := by
  apply UInt8.toBitVec_inj.mp
  ext i hi
  interval_cases i <;> simp [setLow]

theorem setLow_low (b v : UInt8) : setLow b v &&& 0x0f = v &&& 0x0f := by
  apply UInt8.toBitVec_inj.mp
  ext i hi
  interval_cases i <;> simp [setLow]

end FreePacket.Lib
