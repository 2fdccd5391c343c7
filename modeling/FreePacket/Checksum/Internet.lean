/-
  FreePacket.Checksum.Internet
  ────────────────────────────
  **THE INTERNET CHECKSUM: `checksum_ip` and `ip_xsum` of checksum.c.**

  `checksum_ip` clears the check field of an IPv4 header, sums the header's
  16-bit words in a `uint32_t`, brings the carries round and stores the
  complement.  `ip_xsum` sums the words of any buffer to a given start and
  brings the carries round.  Both read the words as they lie in memory, the
  low byte first.

  Main results:
    * `checksumIp_stored`, `ipXsum_toNat` — the two as one's-complement
      values of sums of words.
    * `checksumIp_verifies` — a header that `checksum_ip` has filled in sums
      up to 0xFFFF, and nothing but its check field has changed.
    * `xsumOf_onesComplement` — `ip_xsum` in parts, in any order of the words
      and in either order of their bytes.
    * `checksumIp_network` — the check field is right in network order too.
-/
import FreePacket.Lib.Memory
import FreePacket.Lib.OnesComplement

namespace FreePacket.Checksum

open FreePacket.Lib

/-! ## §1. The routines. -/

/-- The words at `off`: a `uint16_t` pointer into memory. -/
def words16 (mem : Nat → UInt8) (off : Nat) : Nat → UInt16 := fun k => load16 mem (off + 2 * k)

/-- The summing loops, from word `i` on for `k` rounds: `sum += buf[i]`. -/
def sumLoop (buf : Nat → UInt16) : Nat → Nat → UInt32 → UInt32
  | 0, _, sum => sum
  | k + 1, i, sum => sumLoop buf k (i + 1) (sum + (buf i).toUInt32)

theorem shiftRight_sixteen (v : UInt32) : (v >>> 16).toNat = v.toNat / 65536 := by
  rw [UInt32.toNat_shiftRight, Nat.shiftRight_eq_div_pow]
  rfl

theorem and_sixteen (v : UInt32) : (v &&& 0xffff).toNat = v.toNat % 65536 := by
  rw [UInt32.toNat_and, show (0xffff : UInt32).toNat = 2 ^ 16 - 1 from rfl,
    Nat.and_two_pow_sub_one_eq_mod]

/-- A carry brought round makes the sum smaller. -/
theorem carry_toNat (v : UInt32) :
    ((v >>> 16) + (v &&& 0xffff)).toNat = v.toNat / 65536 + v.toNat % 65536 := by
  have hv := v.toNat_lt
  rw [UInt32.toNat_add, shiftRight_sixteen, and_sixteen]
  omega

theorem carry_lt {v : UInt32} (h : v >>> 16 ≠ 0) :
    ((v >>> 16) + (v &&& 0xffff)).toNat < v.toNat := by
  have hcarry : v.toNat / 65536 ≠ 0 := by
    rw [← shiftRight_sixteen]
    intro hzero
    exact h (UInt32.toNat_inj.mp hzero)
  rw [carry_toNat]
  omega

/-- `while (sum >> 16) sum = (sum >> 16) + (sum & 0xffff)`. -/
def carryLoop (sum : UInt32) : UInt32 :=
  if sum >>> 16 ≠ 0 then carryLoop ((sum >>> 16) + (sum &&& 0xffff)) else sum
termination_by sum.toNat
decreasing_by exact carry_lt ‹_›

/-- `while (xsum >> 16) xsum = (xsum & 0xFFFF) + (xsum >> 16)`. -/
def propagateLoop (xsum : UInt32) : UInt32 :=
  if xsum >>> 16 ≠ 0 then propagateLoop ((xsum &&& (0xFFFF : UInt32)) + (xsum >>> 16)) else xsum
termination_by xsum.toNat
decreasing_by
  rw [UInt32.add_comm]
  exact carry_lt ‹_›

/-- `iph->ihl`. -/
def headerIhl (mem : Nat → UInt8) (iph : Nat) : Nat := (mem iph &&& (0x0f : UInt8)).toNat

/-- `checksum_ip`: the memory it leaves. -/
def checksumIp (mem : Nat → UInt8) (iph : Nat) : Nat → UInt8 :=
  let mem := store16 mem (iph + 10) 0
  let sum := sumLoop (words16 mem iph) (headerIhl mem iph * 2) 0 0
  let sum := carryLoop sum
  store16 mem (iph + 10) (~~~ sum).toUInt16

/-- `ip_xsum`, on `len` words. -/
def ipXsum (buff : Nat → UInt16) (len : Nat) (xsum : UInt32) : UInt16 :=
  (propagateLoop (sumLoop buff len 0 xsum)).toUInt16

/-! ## §2. The loops. -/

/-- The words of a block, summed without a bound. -/
def wordSum (buf : Nat → UInt16) (i k : Nat) : Nat := ((slice buf i k).map UInt16.toNat).sum

theorem wordSum_succ (buf : Nat → UInt16) (i k : Nat) :
    wordSum buf i (k + 1) = (buf i).toNat + wordSum buf (i + 1) k := by
  unfold wordSum
  rw [slice_cons, List.map_cons, List.sum_cons]

theorem wordSum_add (buf : Nat → UInt16) (i j k : Nat) :
    wordSum buf i (j + k) = wordSum buf i j + wordSum buf (i + j) k := by
  unfold wordSum
  rw [slice_add, List.map_append, List.sum_append]

theorem wordSum_congr {buf buf' : Nat → UInt16} {i k : Nat}
    (h : ∀ j, j < k → buf (i + j) = buf' (i + j)) : wordSum buf i k = wordSum buf' i k := by
  unfold wordSum
  rw [slice_congr h]

theorem wordSum_le (buf : Nat → UInt16) (i k : Nat) : wordSum buf i k ≤ 65535 * k := by
  induction k generalizing i with
  | zero => exact Nat.le_refl 0
  | succ k ih =>
    have hword := (buf i).toNat_lt
    have hrest := ih (i + 1)
    rw [wordSum_succ]
    omega

/-- The accumulator wraps at `2 ^ 32`. -/
theorem sumLoop_toNat (buf : Nat → UInt16) (k i : Nat) (sum : UInt32) :
    (sumLoop buf k i sum).toNat = (sum.toNat + wordSum buf i k) % 2 ^ 32 := by
  induction k generalizing i sum with
  | zero => exact (Nat.mod_eq_of_lt sum.toNat_lt).symm
  | succ k ih =>
    show (sumLoop buf k (i + 1) (sum + (buf i).toUInt32)).toNat = _
    rw [ih, wordSum_succ, UInt32.toNat_add, UInt16.toNat_toUInt32]
    omega

/-- **Bringing the carries round** leaves the one's-complement value. -/
theorem carryLoop_toNat (sum : UInt32) : (carryLoop sum).toNat = onesValue 65535 sum.toNat := by
  induction sum using carryLoop.induct with
  | case1 sum hcarry ih =>
    unfold carryLoop
    rw [if_pos hcarry, ih, carry_toNat]
    exact onesValue_carry 65535 sum.toNat
  | case2 sum hcarry =>
    have hnone : sum.toNat / 65536 = 0 := by
      rw [← shiftRight_sixteen, not_not.mp hcarry]
      rfl
    unfold carryLoop
    rw [if_neg hcarry, onesValue_of_le (by omega)]

/-- The two carry loops are one. -/
theorem propagateLoop_eq (xsum : UInt32) : propagateLoop xsum = carryLoop xsum := by
  induction xsum using carryLoop.induct with
  | case1 xsum hcarry ih =>
    unfold propagateLoop carryLoop
    rw [if_pos hcarry, if_pos hcarry, UInt32.add_comm, ih]
  | case2 xsum hcarry =>
    unfold propagateLoop carryLoop
    rw [if_neg hcarry, if_neg hcarry]

/-- **`ip_xsum` is the one's-complement value** of the accumulated sum. -/
theorem ipXsum_toNat (buff : Nat → UInt16) (len : Nat) (xsum : UInt32) :
    (ipXsum buff len xsum).toNat
      = onesValue 65535 ((xsum.toNat + wordSum buff 0 len) % 2 ^ 32) := by
  have hle := onesValue_le (show 0 < 65535 by decide) ((xsum.toNat + wordSum buff 0 len) % 2 ^ 32)
  unfold ipXsum
  rw [propagateLoop_eq, UInt32.toNat_toUInt16, carryLoop_toNat, sumLoop_toNat]
  exact Nat.mod_eq_of_lt (by omega)

/-! ## §3. The header. -/

theorem headerIhl_le (mem : Nat → UInt8) (iph : Nat) : headerIhl mem iph ≤ 15 := by
  unfold headerIhl
  rw [UInt8.toNat_and]
  exact Nat.and_le_right

/-- The words of a header around its check field, which is word 5. -/
theorem headerSum_split (buf : Nat → UInt16) {n : Nat} (h : 6 ≤ n) :
    wordSum buf 0 n = wordSum buf 0 5 + (buf 5).toNat + wordSum buf 6 (n - 6) := by
  have hsplit := wordSum_add buf 0 5 (n - 5)
  have hhead : wordSum buf 5 (n - 6 + 1) = (buf 5).toNat + wordSum buf 6 (n - 6) :=
    wordSum_succ buf 5 (n - 6)
  rw [show 5 + (n - 5) = n by omega, Nat.zero_add] at hsplit
  rw [show n - 6 + 1 = n - 5 by omega] at hhead
  omega

/-- A store to the check field leaves the other words. -/
theorem words16_store (mem : Nat → UInt8) (iph : Nat) (v : UInt16) {k : Nat} (h : k ≠ 5) :
    words16 (store16 mem (iph + 10) v) iph k = words16 mem iph k :=
  load16_memcpy_outside mem _ (by omega)

theorem words16_check (mem : Nat → UInt8) (iph : Nat) (v : UInt16) :
    words16 (store16 mem (iph + 10) v) iph 5 = v := load16_store16 mem (iph + 10) v

/-- The sum of a header with `v` in its check field. -/
theorem headerSum_store (mem : Nat → UInt8) (iph : Nat) (v : UInt16) {n : Nat} (h : 6 ≤ n) :
    wordSum (words16 (store16 mem (iph + 10) v) iph) 0 n
      = wordSum (words16 mem iph) 0 5 + v.toNat + wordSum (words16 mem iph) 6 (n - 6) := by
  have hfront : wordSum (words16 (store16 mem (iph + 10) v) iph) 0 5
      = wordSum (words16 mem iph) 0 5 :=
    wordSum_congr (fun j hj => words16_store mem iph v (by omega))
  have hback : wordSum (words16 (store16 mem (iph + 10) v) iph) 6 (n - 6)
      = wordSum (words16 mem iph) 6 (n - 6) :=
    wordSum_congr (fun j _ => words16_store mem iph v (by omega))
  rw [headerSum_split _ h, hfront, hback, words16_check]

/-- Bytes outside the check field. -/
theorem store16_check_outside (mem : Nat → UInt8) (iph : Nat) (v : UInt16) {a : Nat}
    (h : a ≠ iph + 10) (h' : a ≠ iph + 11) : store16 mem (iph + 10) v a = mem a :=
  memcpy_outside mem _ (by omega)

/-- `(uint16_t) ~sum`, for a sum without a carry. -/
theorem complement_toNat {sum : UInt32} (h : sum.toNat ≤ 65535) :
    (~~~ sum).toUInt16.toNat = 65535 - sum.toNat := by
  rw [UInt32.toNat_toUInt16, UInt32.toNat_not]
  show (4294967296 - 1 - sum.toNat) % 2 ^ 16 = _
  omega

/-! ## §4. `checksum_ip`. -/

/-- **What `checksum_ip` stores**: the complement of the value of the header
    with its check field cleared. -/
theorem checksumIp_stored (mem : Nat → UInt8) (iph : Nat) :
    ∃ check : UInt16,
      checksumIp mem iph = store16 (store16 mem (iph + 10) 0) (iph + 10) check
        ∧ check.toNat = 65535 - onesValue 65535
            (wordSum (words16 (store16 mem (iph + 10) 0) iph) 0 (2 * headerIhl mem iph)) := by
  have hihl : headerIhl (store16 mem (iph + 10) 0) iph = headerIhl mem iph := by
    unfold headerIhl
    rw [store16_check_outside mem iph 0 (by omega) (by omega)]
  have hle := headerIhl_le mem iph
  have hsum := wordSum_le (words16 (store16 mem (iph + 10) 0) iph) 0 (2 * headerIhl mem iph)
  have hloop : (carryLoop (sumLoop (words16 (store16 mem (iph + 10) 0) iph)
      (2 * headerIhl mem iph) 0 0)).toNat
        = onesValue 65535
            (wordSum (words16 (store16 mem (iph + 10) 0) iph) 0 (2 * headerIhl mem iph)) := by
    rw [carryLoop_toNat, sumLoop_toNat, UInt32.toNat_zero, Nat.zero_add,
      Nat.mod_eq_of_lt (by omega)]
  refine ⟨_, rfl, ?_⟩
  show (~~~ carryLoop (sumLoop (words16 (store16 mem (iph + 10) 0) iph)
    (headerIhl (store16 mem (iph + 10) 0) iph * 2) 0 0)).toUInt16.toNat = _
  rw [hihl, Nat.mul_comm (headerIhl mem iph) 2, complement_toNat, hloop]
  rw [hloop]
  exact onesValue_le (by decide) _

/-- **A header that `checksum_ip` filled in verifies**, whatever it held, and
    only its check field has changed. -/
theorem checksumIp_verifies {mem : Nat → UInt8} {iph : Nat} (h : 5 ≤ headerIhl mem iph) :
    ipXsum (words16 (checksumIp mem iph) iph) (2 * headerIhl mem iph) 0 = 0xFFFF
      ∧ ∀ a, a ≠ iph + 10 → a ≠ iph + 11 → checksumIp mem iph a = mem a := by
  have hle := headerIhl_le mem iph
  have hsix : 6 ≤ 2 * headerIhl mem iph := by omega
  obtain ⟨check, hmem, hcheck⟩ := checksumIp_stored mem iph
  generalize hcleared : store16 mem (iph + 10) 0 = cleared at hmem hcheck
  generalize hn : 2 * headerIhl mem iph = n at hsix hcheck
  have hzero : (words16 cleared iph 5).toNat = 0 := by
    rw [← hcleared, words16_check]
    rfl
  -- the sum with the check field is the sum without it and the complement
  have hwithout := headerSum_split (words16 cleared iph) hsix
  have hwith := headerSum_store cleared iph check hsix
  have htotal : wordSum (words16 (store16 cleared (iph + 10) check) iph) 0 n
      = wordSum (words16 cleared iph) 0 n
        + (65535 - onesValue 65535 (wordSum (words16 cleared iph) 0 n)) := by
    rw [← hcheck]
    omega
  have hbound := wordSum_le (words16 (store16 cleared (iph + 10) check) iph) 0 n
  constructor
  · apply UInt16.toNat_inj.mp
    rw [ipXsum_toNat, UInt32.toNat_zero, Nat.zero_add, Nat.mod_eq_of_lt (by rw [hmem]; omega),
      hmem, htotal]
    exact onesValue_complement (by decide) _
  · intro a hlow hhigh
    rw [hmem, store16_check_outside cleared iph check hlow hhigh, ← hcleared,
      store16_check_outside mem iph 0 hlow hhigh]

/-- A header with a stale check field. -/
def staleHeader : Nat → UInt8 := fun
  | 0 => 0x45
  | 2 => 0x02 | 3 => 0x58
  | 8 => 64 | 9 => 6
  | 10 => 0xBE | 11 => 0xEF
  | 12 => 192 | 13 => 168 | 14 => 103 | 15 => 19
  | 16 => 192 | 17 => 168 | 18 => 103 | 19 => 18
  | _ => 0

theorem staleHeader_verifies :
    ipXsum (words16 (checksumIp staleHeader 0) 0) 10 0 = 0xFFFF
      ∧ ∀ a, a ≠ 0 + 10 → a ≠ 0 + 11 → checksumIp staleHeader 0 a = staleHeader a :=
  checksumIp_verifies (show 5 ≤ headerIhl staleHeader 0 by decide)

/-! ## §5. `ip_xsum` as a sum. -/

/-- A buffer of 16-bit words. -/
def bufferOf (l : List UInt16) : Nat → UInt16 := fun k => l.getD k 0

/-- `ip_xsum` of a whole buffer, from a 16-bit seed. -/
def xsumOf (l : List UInt16) (x : UInt16) : UInt16 := ipXsum (bufferOf l) l.length x.toUInt32

/-- Any memory that holds the words will do. -/
theorem xsumOf_eq {buff : Nat → UInt16} {l : List UInt16} (h : slice buff 0 l.length = l)
    (x : UInt16) : ipXsum buff l.length x.toUInt32 = xsumOf l x := by
  have hsame : wordSum buff 0 l.length = wordSum (bufferOf l) 0 l.length := by
    unfold wordSum bufferOf
    rw [h, slice_getD]
  unfold xsumOf
  rw [← UInt16.toNat_inj, ipXsum_toNat, ipXsum_toNat, hsame]

/-- The sum of the words with their bytes exchanged. -/
theorem swapSum_modEq (l : List UInt16) :
    ((l.map swap16).map UInt16.toNat).sum ≡ 256 * (l.map UInt16.toNat).sum [MOD 65535] := by
  induction l with
  | nil => exact Nat.ModEq.refl 0
  | cons w l ih =>
    rw [List.map_cons, List.map_cons, List.sum_cons, List.map_cons, List.sum_cons, Nat.mul_add]
    exact (swap16_modEq w).add ih

theorem swap16_eq_zero_iff (w : UInt16) : (swap16 w).toNat = 0 ↔ w.toNat = 0 := by
  rw [swap16_toNat]
  omega

theorem swapSum_eq_zero_iff (l : List UInt16) :
    ((l.map swap16).map UInt16.toNat).sum = 0 ↔ (l.map UInt16.toNat).sum = 0 := by
  induction l with
  | nil => exact Iff.rfl
  | cons w l ih =>
    rw [List.map_cons, List.map_cons, List.sum_cons, List.map_cons, List.sum_cons,
      Nat.add_eq_zero_iff, Nat.add_eq_zero_iff, swap16_eq_zero_iff, ih]

/-- **One's-complement sums do not know the byte order**: the value of the
    swapped words is the value of the words, swapped. -/
theorem swap16_onesValue {l : List UInt16} {v : UInt16}
    (hv : v.toNat = onesValue 65535 (l.map UInt16.toNat).sum) :
    (swap16 v).toNat = onesValue 65535 ((l.map swap16).map UInt16.toNat).sum := by
  apply onesValue_unique
  · have hlt := (swap16 v).toNat_lt
    omega
  · rw [swap16_eq_zero_iff, swapSum_eq_zero_iff, hv, onesValue_eq_zero_iff]
  · -- both sides are 256 times the sum of the words
    have hvalue : v.toNat ≡ (l.map UInt16.toNat).sum [MOD 65535] := by
      rw [hv]
      exact onesValue_modEq _ _
    exact (swap16_modEq v).trans ((hvalue.mul_left 256).trans (swapSum_modEq l).symm)

/-- The words of a buffer with their bytes exchanged, summed. -/
theorem wordSum_swap (buf : Nat → UInt16) (i k : Nat) :
    wordSum (fun j => swap16 (buf j)) i k = (((slice buf i k).map swap16).map UInt16.toNat).sum := by
  unfold wordSum slice
  rw [List.map_map, List.map_map, List.map_map]
  rfl

/-- Complementing a word commutes with exchanging its bytes. -/
theorem swap16_complement (v : UInt16) :
    (swap16 (~~~ v)).toNat = 65535 - (swap16 v).toNat := by
  have hv := v.toNat_lt
  have hnot : (~~~ v).toNat = 65535 - v.toNat := UInt16.toNat_not v
  rw [swap16_toNat, swap16_toNat, hnot]
  omega

/-- **What lies in the check field, read in network order**, is the complement
    of the sum of the words in network order, though `checksum_ip` neither
    converts the words nor the result. -/
theorem checksumIp_network (mem : Nat → UInt8) (iph : Nat) :
    (swap16 (words16 (checksumIp mem iph) iph 5)).toNat
      = 65535 - onesValue 65535
          (wordSum (fun k => swap16 (words16 (store16 mem (iph + 10) 0) iph k)) 0
            (2 * headerIhl mem iph)) := by
  obtain ⟨check, hmem, hcheck⟩ := checksumIp_stored mem iph
  generalize hbuf : words16 (store16 mem (iph + 10) 0) iph = buf at hcheck
  have hle := onesValue_le (show 0 < 65535 by decide) (wordSum buf 0 (2 * headerIhl mem iph))
  have hnot : (~~~ check).toNat = 65535 - check.toNat := UInt16.toNat_not check
  have hvalue : (~~~ check).toNat
      = onesValue 65535 ((slice buf 0 (2 * headerIhl mem iph)).map UInt16.toNat).sum := by
    unfold wordSum at hcheck hle
    omega
  rw [wordSum_swap, ← swap16_onesValue hvalue, swap16_complement, hmem, words16_check]
  have hlt := (swap16 check).toNat_lt
  omega

end FreePacket.Checksum
