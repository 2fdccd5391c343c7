/-
  FreePacket.ConfigFile.MacText
  ─────────────────────────────
  **ETHERNET ADDRESSES AS TEXT: `ether_etoa` and `ether_atoe` of config.c.**

  The comment over `ether_atoe` promises TRUE for a conversion that was
  successful and FALSE otherwise, the text being in xx:xx:xx:xx:xx:xx
  notation (`MacNotation`).  What the loop asks is less: it converts whatever
  `strtoul` takes, skips one character unseen, and has been successful if it
  came to a sixth octet.

  Main results:
    * `atoeLoop_macText` — an address in the notation is read as it stands.
    * `atoeLoop_length_iff` — how far the loop comes, by the grammar of
      numbers alone.
    * `etherAtoe_documented_iff` — on which texts the comment is right.
    * `etherAtoe_etherEtoa` — what `ether_etoa` writes `ether_atoe` reads.
    * `readLine_mac` — and so does a line of the configuration file.
-/
import FreePacket.ConfigFile.Grammar
import FreePacket.Lib.HexNumber
import FreePacket.Lib.Memory
import Mathlib.Data.List.GetD

namespace FreePacket.ConfigFile

open FreePacket.Lib FreePacket.Lib.CString

/-! ## §1. The notation. -/

/-- One or two hexadecimal digits. -/
inductive Octet where
  | one (d : UInt8) (hex : isDigit 16 d = true)
  | two (d e : UInt8) (hex : isDigit 16 d = true) (hex' : isDigit 16 e = true)

def Octet.digits : Octet → List UInt8
  | .one d _ => [d]
  | .two d e _ _ => [d, e]

def Octet.value : Octet → UInt8
  | .one d _ => UInt8.ofNat (digitValue d)
  | .two d e _ _ => UInt8.ofNat (16 * digitValue d + digitValue e)

/-- Octets with a `:` between each two. -/
def macText : List Octet → List UInt8
  | [] => []
  | o :: os => o.digits ++ os.flatMap (fun o => 58 :: o.digits)

/-- The text begins with the address `e` in its notation, and white space
    or its end follows. -/
def MacNotation (a : List UInt8) (e : Vector UInt8 6) : Prop :=
  ∃ octets tail, octets.map Octet.value = e.toList ∧ a = macText octets ++ tail
    ∧ ∀ c ∈ tail.head?, isSpace c = true

theorem macText_cons (o : Octet) (os : List Octet) :
    macText (o :: os) = o.digits ++ os.flatMap (fun o => 58 :: o.digits) := rfl

theorem macText_cons_cons (o o' : Octet) (os : List Octet) :
    macText (o :: o' :: os) = o.digits ++ 58 :: macText (o' :: os) := by
  rw [macText_cons, macText_cons, List.flatMap_cons, List.cons_append]

/-! ## §2. An address in the notation. -/

theorem Octet.hex (o : Octet) : ∀ c ∈ o.digits, isDigit 16 c = true := by
  intro c hc
  cases o with
  | one d hd => exact List.mem_singleton.mp hc ▸ hd
  | two d e hd he =>
      rcases List.mem_cons.mp hc with rfl | hc
      · exact hd
      · exact List.mem_singleton.mp hc ▸ he

theorem Octet.ne_nil (o : Octet) : o.digits ≠ [] := by
  cases o with
  | one d _ => exact List.cons_ne_nil d []
  | two d e _ _ => exact List.cons_ne_nil d [e]

/-- The number the digits denote fits a byte. -/
theorem Octet.ofDigits_eq (o : Octet) :
    ofDigits 16 (o.digits.map digitValue) = o.value.toNat := by
  have hlt : ∀ d : UInt8, isDigit 16 d = true → digitValue d < 16 :=
    fun d hd => of_decide_eq_true hd
  cases o with
  | one d hd =>
      have hd := hlt d hd
      show 16 * 0 + digitValue d = (UInt8.ofNat (digitValue d)).toNat
      rw [UInt8.toNat_ofNat']
      omega
  | two d e hd he =>
      have hd := hlt d hd
      have he := hlt e he
      show 16 * (16 * 0 + digitValue d) + digitValue e
        = (UInt8.ofNat (16 * digitValue d + digitValue e)).toNat
      rw [UInt8.toNat_ofNat']
      omega

/-- **An octet is converted** where no letter or digit follows it. -/
theorem strtoul_octet (o : Octet) {rest : List UInt8} (h : Stops (isDigit 36) rest) :
    (strtoul 16 (o.digits ++ rest)).1.toUInt8 = o.value
      ∧ (strtoul 16 (o.digits ++ rest)).2 = rest := by
  have hlt := o.value.toNat_lt
  have hread := strtoul_digits o.ne_nil o.hex h (by rw [o.ofDigits_eq]; omega)
  rw [hread, o.ofDigits_eq]
  refine ⟨?_, rfl⟩
  rw [← UInt8.toNat_inj, UInt64.toNat_toUInt8, UInt64.toNat_ofNat']
  omega

/-- White space, like the end, stops a number. -/
theorem stops_of_space {tail : List UInt8} (h : ∀ c ∈ tail.head?, isSpace c = true) :
    Stops (isDigit 36) tail := by
  intro c hc
  unfold isDigit
  rw [digitValue_of_isSpace (h c hc)]
  rfl

/-- **The loop reads an address as it stands.** -/
theorem atoeLoop_macText (octets : List Octet) {tail : List UInt8}
    (h : ∀ c ∈ tail.head?, isSpace c = true) :
    atoeLoop octets.length (macText octets ++ tail) = octets.map Octet.value := by
  induction octets with
  | nil => rfl
  | cons o os ih =>
      cases os with
      | nil =>
          -- behind the last octet the count is reached, whatever stands there
          obtain ⟨hvalue, hrest⟩ := strtoul_octet o (stops_of_space h)
          rw [macText_cons, List.flatMap_nil, List.append_nil, List.length_singleton, atoeLoop,
            hvalue, hrest]
          cases tail with
          | nil => rfl
          | cons c tail => rfl
      | cons o' os =>
          obtain ⟨hvalue, hrest⟩ := strtoul_octet o
            (show Stops (isDigit 36) (58 :: (macText (o' :: os) ++ tail)) from stops_cons rfl)
          rw [macText_cons_cons, List.append_assoc, List.cons_append, List.length_cons, atoeLoop,
            hvalue, hrest, List.map_cons]
          exact congrArg _ ih

/-- **A text in the notation is taken, and read right.** -/
theorem MacNotation.etherAtoe {a : List UInt8} {e : Vector UInt8 6} (h : MacNotation a e) :
    etherAtoe a = (true, e) := by
  obtain ⟨octets, tail, hvalues, rfl, htail⟩ := h
  have hlen : octets.length = 6 := by
    have heq := congrArg List.length hvalues
    rw [List.length_map, Vector.length_toList] at heq
    exact heq
  have hloop := atoeLoop_macText octets htail
  rw [hlen, hvalues] at hloop
  unfold ConfigFile.etherAtoe
  rw [hloop, Vector.length_toList]
  refine Prod.ext rfl ?_
  apply Vector.ext
  intro i hi
  rw [Vector.getElem_ofFn, List.getD_eq_getElem _ _ (by rw [Vector.length_toList]; exact hi),
    Vector.getElem_toList]

/-! ## §3. How far the loop comes. -/

/-- **The text has `n` fields with a character behind each**: a field is the
    longest number the text begins with there, or empty where it begins with
    none, and the character may be any. -/
inductive Fields : Nat → List UInt8 → Prop where
  | zero (s : List UInt8) : Fields 0 s
  | succ {n : Nat} {f rest : List UInt8} (c : UInt8) :
      Taken f (f ++ c :: rest) → Fields n rest → Fields (n + 1) (f ++ c :: rest)

/-- Where `strtoul` stops, the first field ends. -/
theorem fields_succ_iff (n : Nat) (s : List UInt8) :
    Fields (n + 1) s ↔ ∃ c rest, (strtoul 16 s).2 = c :: rest ∧ Fields n rest := by
  obtain ⟨f, hs, hf⟩ := strtoul_taken s
  constructor
  · intro h
    cases h with
    | @succ _ g rest c hg hrest =>
        obtain rfl := hg.unique hf
        exact ⟨c, rest, (List.append_cancel_left hs).symm, hrest⟩
  · rintro ⟨c, rest, hend, hrest⟩
    rw [hend] at hs
    rw [hs] at hf ⊢
    exact Fields.succ c hf hrest

/-- **The loop comes to its last octet** exactly if the text has the fields in
    front of it. -/
theorem atoeLoop_length_iff (n : Nat) (s : List UInt8) :
    (atoeLoop (n + 1) s).length = n + 1 ↔ Fields n s := by
  induction n generalizing s with
  | zero =>
      refine iff_of_true ?_ (Fields.zero s)
      show ((strtoul 16 s).1.toUInt8 :: _).length = 1
      cases (strtoul 16 s).2 with
      | nil => rfl
      | cons c rest => rfl
  | succ n ih =>
      rw [fields_succ_iff, atoeLoop, List.length_cons, Nat.add_right_cancel_iff]
      cases hend : (strtoul 16 s).2 with
      | nil =>
          refine iff_of_false (Nat.succ_ne_zero n).symm ?_
          rintro ⟨c, rest, hcons, -⟩
          exact absurd hcons (List.cons_ne_nil c rest).symm
      | cons c rest =>
          show (atoeLoop (n + 1) rest).length = n + 1 ↔ _
          rw [ih rest]
          constructor
          · intro h
            exact ⟨c, rest, rfl, h⟩
          · rintro ⟨c', rest', hcons, h⟩
            obtain ⟨-, rfl⟩ := List.cons.inj hcons
            exact h

theorem atoeLoop_length_le (n : Nat) (s : List UInt8) : (atoeLoop n s).length ≤ n := by
  induction n generalizing s with
  | zero => exact Nat.le_refl 0
  | succ n ih =>
      rw [atoeLoop, List.length_cons]
      cases (strtoul 16 s).2 with
      | nil => exact Nat.succ_le_succ (Nat.zero_le n)
      | cons c rest => exact Nat.succ_le_succ (ih rest)

/-- What `ether_atoe` accepts. -/
theorem etherAtoe_accepts_iff (a : List UInt8) : (etherAtoe a).1 = true ↔ Fields 5 a := by
  rw [← atoeLoop_length_iff]
  show ((atoeLoop 6 a).length == 6) = true ↔ _
  rw [beq_iff_eq]

/-! ## §4. What the comment promises. -/

/-- `ether_atoe` on `a` does what its comment says: it accepts the notation
    and nothing else, and stores the octets. -/
structure Documented (a : List UInt8) : Prop where
  accepts : (etherAtoe a).1 = true ↔ ∃ e, MacNotation a e
  octets : ∀ e, MacNotation a e → (etherAtoe a).2 = e

/-- A `SRCMAC` or `DSTMAC` line whose value is not in the notation changes
    nothing. -/
def MalformedIgnored (a : List UInt8) : Prop :=
  (¬ ∃ e, MacNotation a e) → ∀ d : Directive, d = .srcmac ∨ d = .dstmac →
    ∀ locals config, d.read locals config a = .next config

/-- **The comment is right** on a text in the notation and on one without six
    fields; on every other the answer is TRUE where it should be FALSE. -/
theorem documented_iff (a : List UInt8) :
    Documented a ↔ (∃ e, MacNotation a e) ∨ ¬ Fields 5 a := by
  constructor
  · rintro ⟨haccepts, -⟩
    by_cases hfields : Fields 5 a
    · exact Or.inl (haccepts.mp ((etherAtoe_accepts_iff a).mpr hfields))
    · exact Or.inr hfields
  · intro h
    refine ⟨⟨?_, ?_⟩, fun e he => by rw [he.etherAtoe]⟩
    · intro haccepted
      have hfields := (etherAtoe_accepts_iff a).mp haccepted
      rcases h with h | h
      · exact h
      · exact absurd hfields h
    · rintro ⟨e, he⟩
      rw [he.etherAtoe]

/-- **The reader takes every value**: it does not look at what `ether_atoe`
    answers. -/
theorem malformedIgnored_iff (a : List UInt8) :
    MalformedIgnored a ↔ ∃ e, MacNotation a e := by
  constructor
  · intro h
    by_contra hno
    -- a record whose first byte is another than the one stored
    obtain ⟨b, hb⟩ : ∃ b : UInt8, b ≠ (etherAtoe a).2[0] := by
      by_cases hzero : (etherAtoe a).2[0] = 0
      · exact ⟨1, by rw [hzero]; decide⟩
      · exact ⟨0, Ne.symm hzero⟩
    have hkept := h hno .srcmac (Or.inl rfl) ⟨0, 0⟩
      { zeroConfig with srcmac := Vector.replicate 6 b }
    have hmac := congrArg SimConfig.srcmac (LineResult.next.inj hkept)
    apply hb
    show b = (etherAtoe a).2[0]
    rw [show (etherAtoe a).2 = Vector.replicate 6 b from hmac, Vector.getElem_replicate]
  · intro h hno
    exact absurd h hno

/-- **On which texts `ether_atoe` and the lines that use it do what the
    comment promises.** -/
theorem etherAtoe_documented_iff (a : List UInt8) :
    (Documented a ↔ (∃ e, MacNotation a e) ∨ ¬ Fields 5 a)
      ∧ (MalformedIgnored a ↔ ∃ e, MacNotation a e) :=
  ⟨documented_iff a, malformedIgnored_iff a⟩

/-- An address begins with a digit. -/
theorem MacNotation.head {a : List UInt8} {e : Vector UInt8 6} (h : MacNotation a e) :
    ∃ c rest, a = c :: rest ∧ isDigit 16 c = true := by
  obtain ⟨octets, tail, hvalues, rfl, -⟩ := h
  cases octets with
  | nil =>
      have hlen := congrArg List.length hvalues
      rw [Vector.length_toList] at hlen
      exact absurd hlen (by decide)
  | cons o os =>
      obtain ⟨c, cs, hc⟩ := List.exists_cons_of_ne_nil o.ne_nil
      rw [macText_cons, hc]
      exact ⟨c, _, rfl, o.hex c (hc ▸ List.mem_cons_self)⟩

/-- `SRCMAC=unknown`: six letters are skipped, and the address is 0. -/
theorem unknown_not_documented :
    etherAtoe (ascii "unknown\n") = (true, Vector.replicate 6 0)
      ∧ ¬ Documented (ascii "unknown\n") := by
  have hread : etherAtoe (ascii "unknown\n") = (true, Vector.replicate 6 0) := by decide
  refine ⟨hread, ?_⟩
  rintro ⟨haccepts, -⟩
  obtain ⟨e, he⟩ := haccepts.mp (by rw [hread])
  obtain ⟨c, rest, hcons, hc⟩ := he.head
  obtain ⟨rfl, -⟩ := List.cons.inj (hcons.symm.trans (show ascii "unknown\n" = 117 :: _ from rfl))
  exact absurd hc (by decide)

/-! ## §5. The encoder. -/

/-- The digit `%X` prints. -/
def hexChar (n : Nat) : UInt8 := UInt8.ofNat (if n < 10 then 48 + n else 55 + n)

/-- What `%02X` prints for a byte. -/
def hexOctet (v : UInt8) : List UInt8 := [hexChar (v.toNat / 16), hexChar (v.toNat % 16)]

/-- `sprintf(c, "%02X", v)`: the characters and the terminator, and how many
    characters these are. -/
def sprintfOctet (mem : Nat → UInt8) (c : Nat) (v : UInt8) : (Nat → UInt8) × Nat :=
  (memcpy mem c (fun k => (hexOctet v ++ [0]).getD k 0) 3, 2)

/-- The loop of `ether_etoa`, from octet `i` on for `n` rounds. -/
def etoaLoop (e : Nat → UInt8) : Nat → Nat → (Nat → UInt8) → Nat → Nat → UInt8
  | 0, _, a, _ => a
  | n + 1, i, a, c =>
      let colon := if i ≠ 0 then (store8 a c 58, c + 1) else (a, c)
      let printed := sprintfOctet colon.1 colon.2 (e i &&& 0xff)
      etoaLoop e n (i + 1) printed.1 (colon.2 + printed.2)

/-- `ether_etoa`: what it leaves at `a`. -/
def etherEtoa (e a : Nat → UInt8) : Nat → UInt8 := etoaLoop e 6 0 a 0

/-- The loop of `ether_atoe` with its stores: the `i` it ends with, and `e`. -/
def atoeStores : Nat → List UInt8 → Nat → (Nat → UInt8) → Nat × (Nat → UInt8)
  | 0, _, i, e => (i, e)
  | n + 1, c, i, e =>
      let e := store8 e i (strtoul 16 c).1.toUInt8
      match (strtoul 16 c).2 with
      | [] => (i + 1, e)
      | _ :: c => atoeStores n c (i + 1) e

/-- `ether_atoe` on the memory at `e`. -/
def etherAtoeInto (a : List UInt8) (e : Nat → UInt8) : Bool × (Nat → UInt8) :=
  let r := atoeStores 6 a 0 (memcpy e 0 (fun _ => 0) 6)
  (r.1 == 6, r.2)

/-! ## §6. What the encoder writes. -/

theorem digitValue_hexChar {n : Nat} (h : n < 16) : digitValue (hexChar n) = n := by
  interval_cases n <;> decide

theorem isHex_hexChar {n : Nat} (h : n < 16) : isDigit 16 (hexChar n) = true := by
  unfold isDigit
  rw [digitValue_hexChar h]
  exact decide_eq_true h

/-- The two digits of a byte, as an octet of the notation. -/
def octetOf (v : UInt8) : Octet :=
  .two (hexChar (v.toNat / 16)) (hexChar (v.toNat % 16))
    (isHex_hexChar (by have := v.toNat_lt; omega)) (isHex_hexChar (Nat.mod_lt _ (by decide)))

/-- **A byte's digits denote the byte.** -/
theorem octetOf_value (v : UInt8) : (octetOf v).value = v := by
  have hv := v.toNat_lt
  show UInt8.ofNat (16 * digitValue (hexChar (v.toNat / 16))
    + digitValue (hexChar (v.toNat % 16))) = v
  rw [digitValue_hexChar (by omega), digitValue_hexChar (by omega), Nat.div_add_mod]
  exact UInt8.ofNat_toNat

theorem octet_and (v : UInt8) : v &&& 0xff = v := by
  have hv := v.toNat_lt
  rw [← UInt8.toNat_inj, UInt8.toNat_and, show (0xff : UInt8).toNat = 2 ^ 8 - 1 from rfl,
    Nat.and_two_pow_sub_one_eq_mod]
  omega

/-- The three cells a `sprintf` writes. -/
theorem sprintfOctet_slice (a : Nat → UInt8) (c : Nat) (v : UInt8) :
    slice (sprintfOctet a c v).1 0 (c + 3) = slice a 0 c ++ (hexOctet v ++ [0]) := by
  have hprinted : slice (fun k => (hexOctet v ++ [0]).getD k 0) 0 3 = hexOctet v ++ [0] :=
    slice_getD (hexOctet v ++ [0]) 0
  show slice (memcpy a c (fun k => (hexOctet v ++ [0]).getD k 0) 3) 0 (c + 3) = _
  rw [slice_memcpy_append, hprinted]

theorem sprintfOctet_outside (a : Nat → UInt8) {c : Nat} (v : UInt8) {k : Nat}
    (hk : k < c ∨ c + 3 ≤ k) : (sprintfOctet a c v).1 k = a k := by
  show memcpy a c (fun k => (hexOctet v ++ [0]).getD k 0) 3 k = a k
  exact memcpy_outside a _ hk

/-- A round behind the first: a colon over the terminator, two digits, and the
    terminator again. -/
theorem etoaLoop_succ (e : Nat → UInt8) (n : Nat) {i : Nat} (hi : i ≠ 0) (a : Nat → UInt8)
    (c : Nat) :
    etoaLoop e (n + 1) i a c
      = etoaLoop e n (i + 1) (sprintfOctet (store8 a c 58) (c + 1) (e i)).1 (c + 3) := by
  rw [etoaLoop, if_pos hi, octet_and]
  rfl

/-- **The text grows by three characters a round**, and is a string after each. -/
theorem etoaLoop_slice (e : Nat → UInt8) (n : Nat) {i c : Nat} {a : Nat → UInt8}
    {text : List UInt8} (hi : i ≠ 0) (h : slice a 0 (c + 1) = text ++ [0]) :
    slice (etoaLoop e n i a c) 0 (c + 3 * n + 1)
      = text ++ (slice e i n).flatMap (fun v => 58 :: hexOctet v) ++ [0] := by
  induction n generalizing i c a text with
  | zero =>
      rw [slice_zero, List.flatMap_nil, List.append_nil]
      exact h
  | succ n ih =>
      -- the colon takes the place of the terminator
      have htext : slice a 0 c = text := by
        rw [slice_add] at h
        exact (List.append_inj' h rfl).1
      have hcolon : slice (store8 a c 58) 0 (c + 1) = text ++ [58] := by
        rw [← htext]
        exact slice_memcpy_append a c _ 1
      have hround : slice (sprintfOctet (store8 a c 58) (c + 1) (e i)).1 0 (c + 3 + 1)
          = (text ++ 58 :: hexOctet (e i)) ++ [0] := by
        rw [show c + 3 + 1 = c + 1 + 3 by omega, sprintfOctet_slice, hcolon]
        simp only [List.append_assoc, List.cons_append, List.nil_append]
      have hrest := ih (Nat.succ_ne_zero i) hround
      rw [show c + 3 * (n + 1) + 1 = c + 3 + 3 * n + 1 by omega, etoaLoop_succ e n hi, hrest,
        slice_cons, List.flatMap_cons, List.append_assoc text]

/-- No cell behind the terminator is written. -/
theorem etoaLoop_outside (e : Nat → UInt8) (n : Nat) {i c : Nat} (a : Nat → UInt8) (hi : i ≠ 0)
    {k : Nat} (hk : c + 3 * n < k) : etoaLoop e n i a c k = a k := by
  induction n generalizing i c a with
  | zero => rfl
  | succ n ih =>
      rw [etoaLoop_succ e n hi, ih _ (Nat.succ_ne_zero i) (by omega),
        sprintfOctet_outside _ _ (by omega)]
      exact memcpy_outside a _ (by omega)

/-- The text of an address. -/
def etoaText (e : Nat → UInt8) : List UInt8 := macText ((slice e 0 6).map octetOf)

theorem etoaText_eq (e : Nat → UInt8) :
    etoaText e = hexOctet (e 0) ++ (slice e 1 5).flatMap (fun v => 58 :: hexOctet v) := by
  unfold etoaText
  rw [slice_cons, List.map_cons, macText_cons, List.flatMap_map]
  rfl

/-- **Seventeen characters and the terminator**, and nothing behind them. -/
theorem etherEtoa_writes (e a : Nat → UInt8) :
    slice (etherEtoa e a) 0 18 = etoaText e ++ [0]
      ∧ ∀ k, 18 ≤ k → etherEtoa e a k = a k := by
  have hfirst : etherEtoa e a = etoaLoop e 5 1 (sprintfOctet a 0 (e 0)).1 2 := by
    unfold etherEtoa
    rw [etoaLoop, if_neg (fun h => h rfl), octet_and]
    rfl
  rw [hfirst]
  constructor
  · rw [etoaText_eq]
    exact etoaLoop_slice e 5 Nat.one_ne_zero (sprintfOctet_slice a 0 (e 0))
  · intro k hk
    rw [etoaLoop_outside e 5 _ Nat.one_ne_zero (by omega), sprintfOctet_outside _ _ (by omega)]

theorem etoaText_length (e : Nat → UInt8) : (etoaText e).length = 17 := by
  have hlen := congrArg List.length (etherEtoa_writes e (fun _ => 0)).1
  rw [slice_length, List.length_append, List.length_singleton] at hlen
  omega

/-- There is no NUL in it. -/
theorem macText_noNul (octets : List Octet) : (0 : UInt8) ∉ macText octets := by
  have hdigits : ∀ o : Octet, (0 : UInt8) ∉ o.digits := by
    intro o h
    exact absurd (o.hex 0 h) (by decide)
  cases octets with
  | nil => exact List.not_mem_nil
  | cons o os =>
      rw [macText_cons, List.mem_append, List.mem_flatMap]
      rintro (h | ⟨o', -, h⟩)
      · exact hdigits o h
      · rcases List.mem_cons.mp h with h | h
        · exact absurd h (by decide)
        · exact hdigits o' h

/-! ## §7. The round trip. -/

/-- **The loop of `ether_atoe` stores what it reads**, one octet behind the other. -/
theorem atoeStores_eq (n : Nat) (c : List UInt8) (i : Nat) (e : Nat → UInt8) :
    atoeStores n c i e
      = (i + (atoeLoop n c).length,
          memcpy e i (fun k => (atoeLoop n c).getD k 0) (atoeLoop n c).length) := by
  induction n generalizing c i e with
  | zero =>
      have hnone : memcpy e i (fun k => ([] : List UInt8).getD k 0) 0 = e :=
        memcpy_noop (fun k hk => absurd hk (Nat.not_lt_zero k))
      exact Prod.ext rfl hnone.symm
  | succ n ih =>
      rw [atoeStores, atoeLoop]
      generalize (strtoul 16 c).1.toUInt8 = v
      cases (strtoul 16 c).2 with
      | nil =>
          show (i + 1, store8 e i v) = (i + 1, memcpy e i (fun k => [v].getD k 0) 1)
          rw [Prod.mk.injEq]
          refine ⟨rfl, memcpy_congr e i ?_⟩
          intro k hk
          rw [Nat.lt_one_iff.mp hk]
          rfl
      | cons _ rest =>
          show atoeStores n rest (i + 1) (store8 e i v) = _
          rw [ih]
          refine Prod.ext ?_ ?_
          · show i + 1 + (atoeLoop n rest).length = i + ((atoeLoop n rest).length + 1)
            omega
          · exact (memcpy_succ e i (fun k => (v :: atoeLoop n rest).getD k 0) _).symm

/-- `ether_atoe` writes six bytes, those of `etherAtoe`. -/
theorem etherAtoeInto_eq (a : List UInt8) (e : Nat → UInt8) :
    etherAtoeInto a e
      = ((etherAtoe a).1, memcpy e 0 (fun k => (etherAtoe a).2.toList.getD k 0) 6) := by
  have hle := atoeLoop_length_le 6 a
  have hbytes : ∀ k, k < 6 →
      (etherAtoe a).2.toList.getD k 0 = (atoeLoop 6 a).getD k 0 := by
    intro k hk
    have hlen : k < (etherAtoe a).2.toList.length := by
      rw [Vector.length_toList]
      exact hk
    rw [List.getD_eq_getElem _ _ hlen, Vector.getElem_toList]
    exact Vector.getElem_ofFn _
  unfold etherAtoeInto
  rw [atoeStores_eq]
  refine Prod.ext ?_ ?_
  · show (0 + (atoeLoop 6 a).length == 6) = ((atoeLoop 6 a).length == 6)
    rw [Nat.zero_add]
  · show memcpy (memcpy e 0 (fun _ => 0) 6) 0 (fun k => (atoeLoop 6 a).getD k 0)
      (atoeLoop 6 a).length = memcpy e 0 (fun k => (etherAtoe a).2.toList.getD k 0) 6
    rw [memcpy_congr e 0 hbytes]
    -- what the loop leaves out is 0, as `memset` left it
    funext k
    by_cases hk : k < (atoeLoop 6 a).length
    · rw [memcpy_inside _ _ (Nat.zero_le k) (by omega),
        memcpy_inside _ _ (Nat.zero_le k) (by omega)]
    · rw [memcpy_outside _ _ (by omega)]
      by_cases hin : k < 6
      · rw [memcpy_inside _ _ (Nat.zero_le k) (by omega),
          memcpy_inside _ _ (Nat.zero_le k) (by omega),
          List.getD_eq_default _ _ (by omega)]
      · rw [memcpy_outside _ _ (by omega), memcpy_outside _ _ (by omega)]

/-- The bytes of an address, as a vector. -/
def addressOf (e : Nat → UInt8) : Vector UInt8 6 := Vector.ofFn (fun i => e i)

theorem addressOf_toList (e : Nat → UInt8) : (addressOf e).toList = slice e 0 6 := by
  apply List.ext_getElem
  · rw [Vector.length_toList, slice_length]
  · intro k hk hk'
    rw [Vector.getElem_toList, slice_getElem, Nat.zero_add]
    exact Vector.getElem_ofFn _

/-- What the encoder writes is in the notation. -/
theorem macNotation_etoaText (e : Nat → UInt8) {tail : List UInt8}
    (h : ∀ c ∈ tail.head?, isSpace c = true) : MacNotation (etoaText e ++ tail) (addressOf e) := by
  refine ⟨(slice e 0 6).map octetOf, tail, ?_, rfl, h⟩
  rw [List.map_map, addressOf_toList]
  exact (List.map_congr_left (fun v _ => octetOf_value v)).trans (List.map_id _)

/-- **The decoder reads it back**, over whatever the output held. -/
theorem etherAtoeInto_etoaText (e out : Nat → UInt8) {tail : List UInt8}
    (h : ∀ c ∈ tail.head?, isSpace c = true) :
    etherAtoeInto (etoaText e ++ tail) out = (true, memcpy out 0 e 6) := by
  rw [etherAtoeInto_eq, (macNotation_etoaText e h).etherAtoe]
  rw [Prod.mk.injEq]
  refine ⟨rfl, memcpy_congr out 0 ?_⟩
  intro k hk
  show (addressOf e).toList.getD k 0 = e k
  rw [addressOf_toList, List.getD_eq_getElem _ _ (by rw [slice_length]; exact hk), slice_getElem,
    Nat.zero_add]

/-- **The round trip**: what `ether_etoa` writes is seventeen characters and
    the terminator, and `ether_atoe` makes the address of it again, at the end
    of the text as in front of a newline. -/
theorem etherAtoe_etherEtoa (e a out : Nat → UInt8) :
    ∃ text : List UInt8, text.length = 17 ∧ (0 : UInt8) ∉ text
      ∧ slice (etherEtoa e a) 0 18 = text ++ [0]
      ∧ (∀ k, 18 ≤ k → etherEtoa e a k = a k)
      ∧ etherAtoeInto text out = (true, memcpy out 0 e 6)
      ∧ ∀ rest, etherAtoeInto (text ++ newline :: rest) out = (true, memcpy out 0 e 6) := by
  obtain ⟨hslice, houtside⟩ := etherEtoa_writes e a
  refine ⟨etoaText e, etoaText_length e, macText_noNul _, hslice, houtside, ?_, ?_⟩
  · have hend := etherAtoeInto_etoaText e out (show ∀ c ∈ ([] : List UInt8).head?, _ from nofun)
    rw [List.append_nil] at hend
    exact hend
  · intro rest
    refine etherAtoeInto_etoaText e out ?_
    intro c hc
    rw [← Option.some.inj hc]
    rfl

/-- A digit does not stand between a name and its value. -/
theorem isOperator_of_isHex {c : UInt8} (h : isDigit 16 c = true) : isOperator c = false := by
  have hne : c ≠ 61 := by
    rintro rfl
    exact absurd h (by decide)
  unfold isOperator
  rw [isSpace_of_isHex h, beq_eq_false_iff_ne.mpr hne]
  rfl

/-- A line that gives the text of an address to a name. -/
def macLine (ws : Blank) (name : Name) (before after : Blank) (e : Nat → UInt8) : List UInt8 :=
  ws.chars ++ (name.chars ++ (operator before after ++ (etoaText e ++ [newline])))

/-- **And through a configuration line**: a `SRCMAC` or `DSTMAC` line with the
    text of an address sets the address. -/
theorem readLine_mac (locals : Locals) (config : SimConfig) (ws before after : Blank) (name : Name)
    (e : Nat → UInt8) :
    (directive name.upper = some .srcmac →
        readLine locals config (macLine ws name before after e)
          = .next { config with srcmac := addressOf e })
      ∧ (directive name.upper = some .dstmac →
        readLine locals config (macLine ws name before after e)
          = .next { config with dstmac := addressOf e }) := by
  have hmac : MacNotation (etoaText e ++ [newline]) (addressOf e) := by
    refine macNotation_etoaText e ?_
    intro c hc
    rw [← Option.some.inj hc]
    rfl
  have hstops : Stops isOperator (etoaText e ++ [newline]) := by
    obtain ⟨c, rest, hcons, hc⟩ := hmac.head
    rw [hcons]
    exact stops_cons (isOperator_of_isHex hc)
  have hnul : (0 : UInt8) ∉ etoaText e ++ [newline] := by
    rw [List.mem_append, List.mem_singleton]
    rintro (hmem | hmem)
    · exact macText_noNul _ hmem
    · exact absurd hmem (by decide)
  unfold readLine macLine
  rw [splitLine_setting ws before after name hstops hnul]
  constructor
  · intro hd
    simp only [hd, Directive.read, hmac.etherAtoe]
  · intro hd
    simp only [hd, Directive.read, hmac.etherAtoe]

end FreePacket.ConfigFile
