/-
  FreePacket.Lib.HexNumber
  ────────────────────────
  **HEXADECIMAL NUMBERS, as `strtoul` with base 16 takes them.**

  `HexText` is the grammar of a number: white space, a sign, the mark `0x`
  and digits, of which only the digits must be there.  `strtoul` passes over
  the longest number a text begins with, and over nothing where it begins
  with none (`Taken`).  So what `strtoul` leaves of a text is told by the
  grammar alone.

  Main results:
    * `strtoul_taken` — what `strtoul` passes over is the longest number.
    * `Taken.unique` — there is one longest number.
    * `strtoul_digits` — digits with no letter or digit behind them are read
      as they stand.

  Nothing here names a program.
-/
import FreePacket.Lib.CString
import Mathlib.Data.List.TakeWhile

namespace FreePacket.Lib.CString

/-! ## §1. Digits. -/

/-- The characters of a hexadecimal digit. -/
theorem isHex_iff (c : UInt8) :
    isDigit 16 c = true ↔ (48 ≤ c.toNat ∧ c.toNat ≤ 57) ∨ (97 ≤ c.toNat ∧ c.toNat ≤ 102)
      ∨ (65 ≤ c.toNat ∧ c.toNat ≤ 70) := by
  unfold isDigit digitValue
  simp only [Bool.and_eq_true, decide_eq_true_iff, UInt8.le_iff_toNat_le]
  show (if 48 ≤ c.toNat ∧ c.toNat ≤ 57 then _ else if 97 ≤ c.toNat ∧ c.toNat ≤ 122 then _
    else if 65 ≤ c.toNat ∧ c.toNat ≤ 90 then _ else _) < 16 ↔ _
  split_ifs <;> omega

/-- A digit is not white space. -/
theorem isSpace_of_isHex {c : UInt8} (h : isDigit 16 c = true) : isSpace c = false := by
  have hc := (isHex_iff c).mp h
  have h32 : c ≠ 32 := by
    rintro rfl
    exact absurd h (by decide)
  have h13 : ¬ c ≤ 13 := by
    rw [UInt8.le_iff_toNat_le]
    show ¬ c.toNat ≤ 13
    omega
  unfold isSpace
  rw [beq_eq_false_iff_ne.mpr h32, decide_eq_false h13, Bool.and_false]
  rfl

/-- Every digit is a letter or a digit. -/
theorem isDigit_of_isHex {c : UInt8} (h : isDigit 16 c = true) : isDigit 36 c = true := by
  unfold isDigit at h ⊢
  rw [decide_eq_true_iff] at h ⊢
  omega

/-! ## §2. The grammar. -/

/-- What may mark a number as hexadecimal. -/
inductive HexMark where
  | none
  | lower
  | upper
  deriving DecidableEq

def HexMark.text : HexMark → List UInt8
  | .none => []
  | .lower => [48, 120]
  | .upper => [48, 88]

/-- A number as it may stand in a text. -/
structure HexText where
  spaces : List UInt8
  sign : Sign
  mark : HexMark
  digits : List UInt8
  blank : ∀ c ∈ spaces, isSpace c = true
  ne_nil : digits ≠ []
  hex : ∀ c ∈ digits, isDigit 16 c = true

def HexText.chars (t : HexText) : List UInt8 :=
  t.spaces ++ (t.sign.text ++ (t.mark.text ++ t.digits))

/-- `f` is the longest number at the front of `s`, or empty where there is none. -/
structure Taken (f s : List UInt8) : Prop where
  front : f <+: s
  number : f = [] ∨ ∃ t : HexText, t.chars = f
  longest : ∀ t : HexText, t.chars <+: s → t.chars.length ≤ f.length

/-- **There is one longest number.** -/
theorem Taken.unique {f f' s : List UInt8} (h : Taken f s) (h' : Taken f' s) : f = f' := by
  have hle : ∀ g g', Taken g s → Taken g' s → g.length ≤ g'.length := by
    intro g g' hg hg'
    rcases hg.number with rfl | ⟨t, rfl⟩
    · exact Nat.zero_le _
    · exact hg'.longest t hg.front
  have hlen : f.length = f'.length := Nat.le_antisymm (hle f f' h h') (hle f' f h' h)
  exact (List.prefix_of_prefix_length_le h.front h'.front hlen.le).eq_of_length hlen

/-! ## §3. The parts of a scan. -/

theorem takeSign_split (s : List UInt8) :
    ∃ sign : Sign, s = sign.text ++ (takeSign s).2 ∧ (takeSign s).1 = sign.negative := by
  cases s with
  | nil => exact ⟨.none, rfl, rfl⟩
  | cons c s =>
      have hscan : takeSign (c :: s)
          = if c = 45 then (true, s) else if c = 43 then (false, s) else (false, c :: s) := rfl
      by_cases hminus : c = 45
      · rw [hscan, if_pos hminus, hminus]
        exact ⟨.minus, rfl, rfl⟩
      · rw [hscan, if_neg hminus]
        by_cases hplus : c = 43
        · rw [if_pos hplus, hplus]
          exact ⟨.plus, rfl, rfl⟩
        · rw [if_neg hplus]
          exact ⟨.none, rfl, rfl⟩

/-- Behind a mark there is a digit. -/
theorem skipHexMark_marked {x d : UInt8} (hx : x = 120 ∨ x = 88) (hd : isDigit 16 d = true)
    (rest : List UInt8) : skipHexMark (48 :: x :: d :: rest) = d :: rest :=
  if_pos ⟨rfl, hx, hd⟩

/-- Without a mark nothing is passed over. -/
theorem skipHexMark_cases (s : List UInt8) :
    skipHexMark s = s ∨ ∃ x d rest, s = 48 :: x :: d :: rest ∧ (x = 120 ∨ x = 88)
      ∧ isDigit 16 d = true := by
  unfold skipHexMark
  split
  · rename_i c x d rest
    split
    · rename_i h
      obtain ⟨rfl, hx, hd⟩ := h
      exact Or.inr ⟨x, d, rest, rfl, hx, hd⟩
    · exact Or.inl rfl
  · exact Or.inl rfl

theorem skipHexMark_split (s : List UInt8) :
    ∃ mark : HexMark, s = mark.text ++ skipHexMark s := by
  rcases skipHexMark_cases s with h | ⟨x, d, rest, rfl, hx, hd⟩
  · rw [h]
    exact ⟨.none, rfl⟩
  · rw [skipHexMark_marked hx hd]
    rcases hx with rfl | rfl
    · exact ⟨.lower, rfl⟩
    · exact ⟨.upper, rfl⟩

/-- An `x` is a letter, but no digit. -/
theorem isDigit_of_isMark {x : UInt8} (hx : x = 120 ∨ x = 88) :
    isDigit 16 x = false ∧ isDigit 36 x = true := by
  rcases hx with rfl | rfl
  · decide
  · decide

/-- The steps of the scan in base 16. -/
theorem scanNumber_hex (s : List UInt8) :
    scanNumber 16 s
      = (takeNumber 16 (skipHexMark (takeSign (s.dropWhile isSpace)).2)).map
          (fun r => ((takeSign (s.dropWhile isSpace)).1, r)) := rfl

theorem takeNumber_split {base n : Nat} {s rest : List UInt8}
    (h : takeNumber base s = some (n, rest)) :
    ∃ digits, digits ≠ [] ∧ (∀ c ∈ digits, isDigit base c = true) ∧ s = digits ++ rest := by
  unfold takeNumber at h
  cases hd : s.takeWhile (isDigit base) with
  | nil => exact absurd h (by rw [hd]; exact nofun)
  | cons d ds =>
      rw [hd] at h
      obtain ⟨-, hrest⟩ := Prod.mk.inj (Option.some.inj h)
      refine ⟨d :: ds, List.cons_ne_nil d ds, ?_, ?_⟩
      · rw [← hd]
        exact fun c hc => List.mem_takeWhile_imp hc
      · rw [← hd, ← hrest, List.takeWhile_append_dropWhile]

/-- **What a scan takes is a number**, and it stands in front of the rest. -/
theorem scanNumber_takes {s rest : List UInt8} {negative : Bool} {n : Nat}
    (h : scanNumber 16 s = some (negative, n, rest)) :
    ∃ t : HexText, s = t.chars ++ rest := by
  rw [scanNumber_hex] at h
  obtain ⟨⟨m, more⟩, hnumber, heq⟩ := Option.map_eq_some_iff.mp h
  obtain ⟨-, hmore⟩ := Prod.mk.inj heq
  obtain ⟨-, hrest⟩ := Prod.mk.inj hmore
  obtain ⟨sign, hsign, -⟩ := takeSign_split (s.dropWhile isSpace)
  obtain ⟨mark, hmark⟩ := skipHexMark_split (takeSign (s.dropWhile isSpace)).2
  obtain ⟨digits, hne, hhex, hdigits⟩ := takeNumber_split hnumber
  refine ⟨⟨s.takeWhile isSpace, sign, mark, digits, fun c hc => List.mem_takeWhile_imp hc, hne,
    hhex⟩, ?_⟩
  calc s = s.takeWhile isSpace ++ s.dropWhile isSpace := List.takeWhile_append_dropWhile.symm
    _ = s.takeWhile isSpace ++ (sign.text ++ (mark.text ++ (digits ++ rest))) := by
        rw [← hrest, ← hdigits, ← hmark, ← hsign]
    _ = _ := by
        unfold HexText.chars
        simp only [List.append_assoc]

/-! ## §4. The longest number. -/

/-- What a number begins with, behind its white space, is no white space. -/
theorem HexText.stops_isSpace (t : HexText) (rest : List UInt8) :
    Stops isSpace (t.sign.text ++ (t.mark.text ++ t.digits) ++ rest) := by
  obtain ⟨d, ds, hd⟩ := List.exists_cons_of_ne_nil t.ne_nil
  have hdigit : isSpace d = false := isSpace_of_isHex (t.hex d (hd ▸ List.mem_cons_self))
  rw [hd]
  cases t.sign with
  | plus | minus => exact stops_cons rfl
  | none =>
      cases t.mark with
      | lower | upper => exact stops_cons rfl
      | none => exact stops_cons hdigit

/-- The sign of a number is found. -/
theorem HexText.takeSign_chars (t : HexText) (rest : List UInt8) :
    takeSign (t.sign.text ++ (t.mark.text ++ t.digits) ++ rest)
      = (t.sign.negative, t.mark.text ++ t.digits ++ rest) := by
  obtain ⟨d, ds, hd⟩ := List.exists_cons_of_ne_nil t.ne_nil
  have hdigit := (isHex_iff d).mp (t.hex d (hd ▸ List.mem_cons_self))
  have hminus : d ≠ 45 := by
    rintro rfl
    exact absurd hdigit (by decide)
  have hplus : d ≠ 43 := by
    rintro rfl
    exact absurd hdigit (by decide)
  rw [hd]
  cases t.sign with
  | plus | minus => rfl
  | none =>
      cases t.mark with
      | lower | upper => rfl
      | none =>
          show (if d = 45 then _ else if d = 43 then _ else _) = _
          rw [if_neg hminus, if_neg hplus]
          rfl

/-- Digits are found, and what is left is no longer than what is behind them. -/
theorem takeNumber_append {base : Nat} {digits : List UInt8} (hne : digits ≠ [])
    (hall : ∀ c ∈ digits, isDigit base c = true) (rest : List UInt8) :
    ∃ n left, takeNumber base (digits ++ rest) = some (n, left) ∧ left.length ≤ rest.length := by
  obtain ⟨d, ds, rfl⟩ := List.exists_cons_of_ne_nil hne
  unfold takeNumber
  rw [List.takeWhile_append_of_pos hall, List.dropWhile_append_of_pos hall]
  exact ⟨_, _, rfl, (List.dropWhile_suffix _).length_le⟩

/-- **The digits of a number are found**, or more than these: where its only
    digit is the 0 of a mark. -/
theorem HexText.takeNumber_chars (t : HexText) (rest : List UInt8) :
    ∃ n left, takeNumber 16 (skipHexMark (t.mark.text ++ t.digits ++ rest)) = some (n, left)
      ∧ left.length ≤ rest.length := by
  have hplain := takeNumber_append t.ne_nil t.hex rest
  obtain ⟨d, ds, hd⟩ := List.exists_cons_of_ne_nil t.ne_nil
  have hhex : ∀ c ∈ d :: ds, isDigit 16 c = true := hd ▸ t.hex
  have hdigit : isDigit 16 d = true := hhex d List.mem_cons_self
  cases hmark : t.mark with
  | lower =>
      -- the mark is passed over, a digit being behind it
      rw [hd] at hplain ⊢
      rw [show skipHexMark (HexMark.lower.text ++ d :: ds ++ rest) = d :: ds ++ rest from
        skipHexMark_marked (Or.inl rfl) hdigit (ds ++ rest)]
      exact hplain
  | upper =>
      rw [hd] at hplain ⊢
      rw [show skipHexMark (HexMark.upper.text ++ d :: ds ++ rest) = d :: ds ++ rest from
        skipHexMark_marked (Or.inr rfl) hdigit (ds ++ rest)]
      exact hplain
  | none =>
      rw [show HexMark.none.text ++ t.digits ++ rest = t.digits ++ rest from rfl]
      rcases skipHexMark_cases (t.digits ++ rest) with h | ⟨x, e, more, heq, hx, he⟩
      · rw [h]
        exact hplain
      · rw [heq, skipHexMark_marked hx he]
        rw [hd, List.cons_append] at heq
        obtain ⟨-, htail⟩ := List.cons.inj heq
        cases ds with
        | cons y ys =>
            -- an `x` is no digit, so the number was the 0 in front of it
            obtain ⟨rfl, -⟩ := List.cons.inj htail
            have hyes := hhex y (List.mem_cons_of_mem d List.mem_cons_self)
            exact absurd (hyes.symm.trans (isDigit_of_isMark hx).1) (by decide)
        | nil =>
            obtain ⟨n, left, hleft, hle⟩ := takeNumber_append (List.cons_ne_nil e [])
              (fun c hc => List.mem_singleton.mp hc ▸ he) more
            refine ⟨n, left, hleft, hle.trans ?_⟩
            rw [List.nil_append] at htail
            rw [htail, List.length_cons, List.length_cons]
            omega

/-- **Where a text begins with a number, the scan takes one**, and no shorter one. -/
theorem scanNumber_longest (t : HexText) (rest : List UInt8) :
    ∃ negative n left, scanNumber 16 (t.chars ++ rest) = some (negative, n, left)
      ∧ left.length ≤ rest.length := by
  obtain ⟨n, left, hnumber, hle⟩ := t.takeNumber_chars rest
  refine ⟨t.sign.negative, n, left, ?_, hle⟩
  have hskip : (t.chars ++ rest).dropWhile isSpace
      = t.sign.text ++ (t.mark.text ++ t.digits) ++ rest := by
    unfold HexText.chars
    rw [List.append_assoc]
    exact dropWhile_append_stop t.blank (t.stops_isSpace rest)
  rw [scanNumber_hex, hskip, t.takeSign_chars rest, hnumber]
  rfl

/-- Where a number was scanned, `end` points behind it. -/
theorem strtoul_rest {base n : Nat} {s rest : List UInt8} {negative : Bool}
    (h : scanNumber base s = some (negative, n, rest)) : (strtoul base s).2 = rest := by
  unfold strtoul
  rw [h]
  simp only
  split
  · rfl
  · rfl

/-- Where none was, it points to the start. -/
theorem strtoul_none {base : Nat} {s : List UInt8} (h : scanNumber base s = none) :
    (strtoul base s).2 = s := by
  unfold strtoul
  rw [h]

/-- **`strtoul` passes over the longest number.** -/
theorem strtoul_taken (s : List UInt8) :
    ∃ f, s = f ++ (strtoul 16 s).2 ∧ Taken f s := by
  cases hscan : scanNumber 16 s with
  | none =>
      rw [strtoul_none hscan]
      refine ⟨[], rfl, List.nil_prefix, Or.inl rfl, ?_⟩
      rintro t ⟨rest, rfl⟩
      obtain ⟨_, _, _, hsome, _⟩ := scanNumber_longest t rest
      exact absurd (hsome.symm.trans hscan) (by simp)
  | some r =>
      obtain ⟨negative, n, left⟩ := r
      obtain ⟨t, ht⟩ := scanNumber_takes hscan
      rw [strtoul_rest hscan]
      refine ⟨t.chars, ht, ⟨left, ht.symm⟩, Or.inr ⟨t, rfl⟩, ?_⟩
      rintro t' ⟨rest, hrest⟩
      obtain ⟨_, _, left', hsome, hle⟩ := scanNumber_longest t' rest
      rw [hrest, hscan] at hsome
      obtain ⟨-, hsame⟩ := Prod.mk.inj (Option.some.inj hsome)
      obtain ⟨-, rfl⟩ := Prod.mk.inj hsame
      have hlen := congrArg List.length (hrest.trans ht)
      rw [List.length_append, List.length_append] at hlen
      omega

/-- **Digits are read as they stand**, where no letter or digit is behind them. -/
theorem strtoul_digits {digits : List UInt8} (hne : digits ≠ [])
    (hhex : ∀ c ∈ digits, isDigit 16 c = true) {rest : List UInt8}
    (hstop : Stops (isDigit 36) rest)
    (hlt : ofDigits 16 (digits.map digitValue) < 18446744073709551616) :
    strtoul 16 (digits ++ rest)
      = (UInt64.ofNat (ofDigits 16 (digits.map digitValue)), rest) := by
  have hstop16 : Stops (isDigit 16) rest := by
    intro c hc
    by_contra hno
    rw [Bool.not_eq_false] at hno
    exact absurd ((hstop c hc).symm.trans (isDigit_of_isHex hno)) (by decide)
  let t : HexText := ⟨[], .none, .none, digits, by simp, hne, hhex⟩
  have hspace : Stops isSpace (digits ++ rest) := t.stops_isSpace rest
  have hsign : takeSign (digits ++ rest) = (false, digits ++ rest) := t.takeSign_chars rest
  have hmark : skipHexMark (digits ++ rest) = digits ++ rest := by
    rcases skipHexMark_cases (digits ++ rest) with h | ⟨x, e, more, heq, hx, -⟩
    · exact h
    · -- the `x` of a mark is neither one of the digits nor behind them
      obtain ⟨d, ds, rfl⟩ := List.exists_cons_of_ne_nil hne
      obtain ⟨-, htail⟩ := List.cons.inj heq
      cases ds with
      | nil =>
          have hno := hstop x (by rw [show rest = x :: e :: more from htail]; rfl)
          exact absurd ((isDigit_of_isMark hx).2.symm.trans hno) (by decide)
      | cons y ys =>
          obtain ⟨rfl, -⟩ := List.cons.inj htail
          have hyes := hhex y (List.mem_cons_of_mem d List.mem_cons_self)
          exact absurd (hyes.symm.trans (isDigit_of_isMark hx).1) (by decide)
  have hnumber : takeNumber 16 (digits ++ rest)
      = some (ofDigits 16 (digits.map digitValue), rest) := by
    unfold takeNumber
    rw [takeWhile_append_stop hhex hstop16, dropWhile_append_stop hhex hstop16]
    obtain ⟨d, ds, rfl⟩ := List.exists_cons_of_ne_nil hne
    rfl
  have hscan : scanNumber 16 (digits ++ rest)
      = some (false, ofDigits 16 (digits.map digitValue), rest) := by
    rw [scanNumber_hex, dropWhile_of_stops hspace, hsign, hmark, hnumber]
    rfl
  unfold strtoul
  rw [hscan]
  simp only [if_pos hlt, Bool.false_eq_true, if_false]

end FreePacket.Lib.CString
