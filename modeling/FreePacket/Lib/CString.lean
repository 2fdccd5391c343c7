/-
  FreePacket.Lib.CString
  ──────────────────────
  **THE PART OF THE C LIBRARY that reads text: `ctype.h`, `strtol` and its
  kin, `sscanf` with `%u`, `fgets`.**

  A C string is the list of its bytes in front of the terminator.  A function
  that moves a pointer along it returns the list that is left.  Characters
  are those of the "C" locale.

  Main results:
    * `takeWhile_append_stop`, `dropWhile_append_stop` — a scan stops at the
      first character it is not made for.
    * `atoi_decimal` — `atoi` reads the number a decimal text denotes.
    * `decimalValue_decimalDigits` — the digits `%d` prints denote the number.
    * `fgets_line`, `fgetsLines_append` — a file is read line by line.

  Nothing here names a program.
-/
import Mathlib.Algebra.Group.Nat.Defs
import Mathlib.Data.List.Basic
import Mathlib.Order.Lattice
import Mathlib.Data.Int.Order.Basic
import Mathlib.Tactic.Common

namespace FreePacket.Lib.CString

/-! ## §1. Characters. -/

/-- The bytes of an ASCII text. -/
def ascii (s : String) : List UInt8 := s.toList.map (fun c => UInt8.ofNat c.toNat)

def newline : UInt8 := 10

/-- `isspace`. -/
def isSpace (c : UInt8) : Bool := c == 32 || (9 ≤ c && c ≤ 13)

/-- `toupper`. -/
def toUpper (c : UInt8) : UInt8 := if 97 ≤ c && c ≤ 122 then c - 32 else c

/-- The value of a digit, letters included. -/
def digitValue (c : UInt8) : Nat :=
  if 48 ≤ c && c ≤ 57 then c.toNat - 48
  else if 97 ≤ c && c ≤ 122 then c.toNat - 97 + 10
  else if 65 ≤ c && c ≤ 90 then c.toNat - 65 + 10
  else 36

/-- Whether a character is a digit of a base up to 36. -/
def isDigit (base : Nat) (c : UInt8) : Bool := digitValue c < base

/-- The character of a decimal digit. -/
def digitChar (d : Fin 10) : UInt8 := UInt8.ofNat (48 + d)

theorem digitValue_digitChar (d : Fin 10) : digitValue (digitChar d) = d := by
  revert d
  decide

/-- A digit is not white space. -/
theorem isSpace_digitChar (d : Fin 10) : isSpace (digitChar d) = false := by
  revert d
  decide

/-- White space has no value as a digit. -/
theorem digitValue_of_isSpace {c : UInt8} (h : isSpace c = true) : digitValue c = 36 := by
  have hlow : c.toNat < 48 := by
    simp only [isSpace, Bool.or_eq_true, Bool.and_eq_true, beq_iff_eq, decide_eq_true_iff,
      UInt8.le_iff_toNat_le] at h
    rcases h with rfl | ⟨_, h⟩
    · decide
    · exact Nat.lt_of_le_of_lt h (by decide)
  have hno : ∀ lo hi : UInt8, 48 ≤ lo.toNat → ¬ ((lo ≤ c && c ≤ hi) = true) := by
    intro lo hi hlo h
    simp only [Bool.and_eq_true, decide_eq_true_iff, UInt8.le_iff_toNat_le] at h
    omega
  unfold digitValue
  rw [if_neg (hno 48 57 (by decide)), if_neg (hno 97 122 (by decide)),
    if_neg (hno 65 90 (by decide))]

/-- White space is not a digit. -/
theorem isDigit_of_isSpace {c : UInt8} (h : isSpace c = true) : isDigit 10 c = false := by
  unfold isDigit
  rw [digitValue_of_isSpace h]
  rfl

/-- The part of a buffer in front of the first NUL. -/
def cstring (buf : List UInt8) : List UInt8 := buf.takeWhile (fun c => c != 0)

/-- `strstr(s, needle) != NULL`. -/
def strstr (needle : List UInt8) : List UInt8 → Bool
  | [] => needle.isEmpty
  | c :: s => needle.isPrefixOf (c :: s) || strstr needle s

/-! ## §2. Scans. -/

section Scans

variable {α : Type*} {p : α → Bool}

/-- What does not begin with a character the scan is made for. -/
def Stops (p : α → Bool) (rest : List α) : Prop := ∀ c ∈ rest.head?, p c = false

theorem stops_nil : Stops p [] := by
  intro c hc
  exact absurd hc (by simp)

theorem stops_cons {c : α} {rest : List α} (h : p c = false) : Stops p (c :: rest) := by
  intro d hd
  rw [List.head?_cons, Option.mem_some_iff] at hd
  rw [← hd]
  exact h

/-- The first character decides. -/
theorem stops_append {w : List α} (hne : w ≠ []) (h : Stops p w) (rest : List α) :
    Stops p (w ++ rest) := by
  obtain ⟨c, cs, rfl⟩ := List.exists_cons_of_ne_nil hne
  exact stops_cons (h c rfl)

theorem takeWhile_of_stops {rest : List α} (h : Stops p rest) : rest.takeWhile p = [] := by
  cases rest with
  | nil => rfl
  | cons c rest =>
      have hc : p c = false := h c rfl
      rw [List.takeWhile_cons, hc]
      rfl

theorem dropWhile_of_stops {rest : List α} (h : Stops p rest) : rest.dropWhile p = rest := by
  cases rest with
  | nil => rfl
  | cons c rest =>
      have hc : p c = false := h c rfl
      rw [List.dropWhile_cons, hc]
      rfl

/-- **A scan takes what it is made for**, up to where it stops. -/
theorem takeWhile_append_stop {w rest : List α} (hw : ∀ c ∈ w, p c = true) (h : Stops p rest) :
    (w ++ rest).takeWhile p = w := by
  rw [List.takeWhile_append_of_pos hw, takeWhile_of_stops h, List.append_nil]

/-- **And leaves the rest.** -/
theorem dropWhile_append_stop {w rest : List α} (hw : ∀ c ∈ w, p c = true) (h : Stops p rest) :
    (w ++ rest).dropWhile p = rest := by
  rw [List.dropWhile_append_of_pos hw, dropWhile_of_stops h]

end Scans

/-- The string in a buffer ends at its first NUL. -/
theorem cstring_terminated {s : List UInt8} (h : (0 : UInt8) ∉ s) (rest : List UInt8) :
    cstring (s ++ 0 :: rest) = s := by
  unfold cstring
  refine takeWhile_append_stop ?_ (stops_cons rfl)
  intro c hc
  exact bne_iff_ne.mpr (fun heq => h (heq ▸ hc))

/-! ## §3. Numbers. -/

/-- An optional sign: whether it is a minus, and what is left. -/
def takeSign : List UInt8 → Bool × List UInt8
  | [] => (false, [])
  | c :: s => if c = 45 then (true, s) else if c = 43 then (false, s) else (false, c :: s)

/-- The number a row of digits denotes. -/
def ofDigits (base : Nat) (digits : List Nat) : Nat := digits.foldl (fun n d => base * n + d) 0

/-- Digits, read from the front: the number and what is left, or `none` where
    there is no digit. -/
def takeNumber (base : Nat) (s : List UInt8) : Option (Nat × List UInt8) :=
  match s.takeWhile (isDigit base) with
  | [] => none
  | d :: ds => some (ofDigits base ((d :: ds).map digitValue), s.dropWhile (isDigit base))

/-- The `0x` in front of a hexadecimal number is passed over where a digit
    follows it. -/
def skipHexMark (s : List UInt8) : List UInt8 :=
  match s with
  | c :: x :: d :: rest =>
      if c = 48 ∧ (x = 120 ∨ x = 88) ∧ isDigit 16 d = true then d :: rest else s
  | _ => s

/-- White space, a sign, and the number: what `strtol` and `%u` read. -/
def scanNumber (base : Nat) (s : List UInt8) : Option (Bool × Nat × List UInt8) :=
  let signed := takeSign (s.dropWhile isSpace)
  let digits := if base = 16 then skipHexMark signed.2 else signed.2
  (takeNumber base digits).map (fun r => (signed.1, r))

/-- The integer a sign and a magnitude denote. -/
def signedValue (negative : Bool) (n : Nat) : Int := if negative then -n else n

/-- `(int) strtol(s, NULL, 10)`, with a 64-bit `long`: `atoi`. -/
def atoi (s : List UInt8) : Int32 :=
  match scanNumber 10 s with
  | none => 0
  | some (negative, n, _) =>
      Int32.ofInt (max (-9223372036854775808) (min (signedValue negative n) 9223372036854775807))

/-- `strtoul(s, &end, base)`, with a 64-bit `unsigned long`: the value and
    what `end` points to. -/
def strtoul (base : Nat) (s : List UInt8) : UInt64 × List UInt8 :=
  match scanNumber base s with
  | none => (0, s)
  | some (negative, n, rest) =>
      if n < 18446744073709551616 then
        (if negative then 0 - UInt64.ofNat n else UInt64.ofNat n, rest)
      else (0xffffffffffffffff, rest)

/-- One `%u` of `sscanf`: the value stored and what is left. -/
def scanU (s : List UInt8) : Option (UInt32 × List UInt8) :=
  (scanNumber 10 s).map (fun _ => ((strtoul 10 s).1.toUInt32, (strtoul 10 s).2))

/-- `sscanf` with `%u`s that the characters `seps` separate: the values it
    stores, in order. -/
def sscanfU : List UInt8 → List UInt8 → List UInt32
  | [], s =>
      match scanU s with
      | none => []
      | some (v, _) => [v]
  | sep :: seps, s =>
      match scanU s with
      | none => []
      | some (v, []) => [v]
      | some (v, c :: rest) => v :: (if c = sep then sscanfU seps rest else [])

/-- Whether `sscanf` meets the end of the text before its first conversion,
    and returns -1. -/
def atEnd (s : List UInt8) : Bool := (s.dropWhile isSpace).isEmpty

/-! ## §4. Decimal texts. -/

/-- The sign of a decimal text. -/
inductive Sign where
  | none
  | plus
  | minus
  deriving DecidableEq

def Sign.text : Sign → List UInt8
  | .none => []
  | .plus => [43]
  | .minus => [45]

def Sign.negative : Sign → Bool
  | .none | .plus => false
  | .minus => true

/-- The number the digits denote. -/
def decimalValue (digits : List (Fin 10)) : Nat :=
  digits.foldl (fun (n : Nat) (d : Fin 10) => 10 * n + d.val) 0

theorem takeSign_text (sign : Sign) (d : Fin 10) (rest : List UInt8) :
    takeSign (sign.text ++ digitChar d :: rest) = (sign.negative, digitChar d :: rest) := by
  cases sign with
  | none =>
      have hd : digitChar d ≠ 45 ∧ digitChar d ≠ 43 := by
        revert d
        decide
      show (if digitChar d = 45 then _ else if digitChar d = 43 then _ else _) = _
      rw [if_neg hd.1, if_neg hd.2]
      rfl
  | plus => rfl
  | minus => rfl

theorem takeNumber_digits {digits : List (Fin 10)} (hne : digits ≠ []) {rest : List UInt8}
    (hstop : Stops (isDigit 10) rest) :
    takeNumber 10 (digits.map digitChar ++ rest) = some (decimalValue digits, rest) := by
  have hall : ∀ c ∈ digits.map digitChar, isDigit 10 c = true := by
    intro c hc
    obtain ⟨d, _, rfl⟩ := List.mem_map.mp hc
    unfold isDigit
    rw [digitValue_digitChar]
    exact decide_eq_true d.isLt
  have hvalues : (digits.map digitChar).map digitValue = digits.map Fin.val := by
    rw [List.map_map]
    exact List.map_congr_left (fun d _ => digitValue_digitChar d)
  have hvalue : ofDigits 10 ((digits.map digitChar).map digitValue) = decimalValue digits := by
    unfold ofDigits decimalValue
    rw [hvalues, List.foldl_map]
  unfold takeNumber
  rw [takeWhile_append_stop hall hstop, dropWhile_append_stop hall hstop]
  cases hd : digits with
  | nil => exact absurd hd hne
  | cons d ds =>
      rw [hd] at hvalue
      rw [← hvalue]
      rfl

/-- **`atoi` reads the number a decimal text denotes**, modulo 2^32 if it fits
    a `long`; what follows must not begin with a digit. -/
theorem atoi_long (sign : Sign) {digits : List (Fin 10)} (hne : digits ≠ [])
    {rest : List UInt8} (hstop : Stops (isDigit 10) rest)
    (hlow : -9223372036854775808 ≤ signedValue sign.negative (decimalValue digits))
    (hhigh : signedValue sign.negative (decimalValue digits) < 9223372036854775808) :
    atoi (sign.text ++ (digits.map digitChar ++ rest))
      = Int32.ofInt (signedValue sign.negative (decimalValue digits)) := by
  obtain ⟨d, ds, rfl⟩ := List.exists_cons_of_ne_nil hne
  have hspace : Stops isSpace (sign.text ++ ((d :: ds).map digitChar ++ rest)) := by
    cases sign with
    | none => exact stops_cons (isSpace_digitChar d)
    | plus => exact stops_cons rfl
    | minus => exact stops_cons rfl
  have hscan : scanNumber 10 (sign.text ++ ((d :: ds).map digitChar ++ rest))
      = some (sign.negative, decimalValue (d :: ds), rest) := by
    have hsign := takeSign_text sign d (ds.map digitChar ++ rest)
    have hnumber := takeNumber_digits hne hstop
    rw [List.map_cons, List.cons_append] at hnumber
    unfold scanNumber
    rw [dropWhile_of_stops hspace, List.map_cons, List.cons_append, hsign]
    simp only [if_neg (show ¬ (10 = 16) by decide), hnumber, Option.map_some]
  unfold atoi
  rw [hscan]
  simp only
  rw [min_eq_left (by omega), max_eq_right (by omega)]

/-- **`atoi` reads the number a decimal text denotes**, if it fits an `int`;
    what follows must not begin with a digit. -/
theorem atoi_decimal (sign : Sign) {digits : List (Fin 10)} (hne : digits ≠ [])
    {rest : List UInt8} (hstop : Stops (isDigit 10) rest)
    (hlow : -2147483648 ≤ signedValue sign.negative (decimalValue digits))
    (hhigh : signedValue sign.negative (decimalValue digits) < 2147483648) :
    atoi (sign.text ++ (digits.map digitChar ++ rest))
      = Int32.ofInt (signedValue sign.negative (decimalValue digits)) := by
  have hlow' : -9223372036854775808 ≤ signedValue sign.negative (decimalValue digits) := by omega
  have hhigh' : signedValue sign.negative (decimalValue digits) < 9223372036854775808 := by omega
  exact atoi_long sign hne hstop hlow' hhigh'

/-- What `%u` stores for a number without a sign: its lowest 32 bits, and all
    ones where it does not fit an `unsigned long`. -/
def converted (n : Nat) : UInt32 :=
  if n < 18446744073709551616 then UInt32.ofNat n else 0xffffffff

/-- The numbers `%u` takes over modulo 2^32. -/
theorem converted_eq_iff (n : Nat) :
    converted n = UInt32.ofNat n ↔ n < 18446744073709551616 ∨ n % 4294967296 = 4294967295 := by
  unfold converted
  split
  · rename_i h
    exact ⟨fun _ => Or.inl h, fun _ => rfl⟩
  · rename_i h
    rw [← UInt32.toNat_inj, UInt32.toNat_ofNat']
    show 4294967295 = n % 2 ^ 32 ↔ _
    omega

theorem converted_of_lt {n : Nat} (h : n < 18446744073709551616) :
    converted n = UInt32.ofNat n := if_pos h

/-- **`%u` reads a row of digits**, and no further. -/
theorem scanU_digits {digits : List (Fin 10)} (hne : digits ≠ []) {rest : List UInt8}
    (hstop : Stops (isDigit 10) rest) :
    scanU (digits.map digitChar ++ rest) = some (converted (decimalValue digits), rest) := by
  have hnumber := takeNumber_digits hne hstop
  obtain ⟨d, ds, rfl⟩ := List.exists_cons_of_ne_nil hne
  have hspace : Stops isSpace ((d :: ds).map digitChar ++ rest) :=
    stops_cons (isSpace_digitChar d)
  have hsign := takeSign_text .none d (ds.map digitChar ++ rest)
  rw [List.map_cons, List.cons_append] at hnumber hspace
  have hscan : scanNumber 10 (digitChar d :: (ds.map digitChar ++ rest))
      = some (false, decimalValue (d :: ds), rest) := by
    unfold scanNumber
    rw [dropWhile_of_stops hspace]
    change takeSign (digitChar d :: (ds.map digitChar ++ rest)) = _ at hsign
    rw [hsign]
    simp only [if_neg (show ¬ (10 = 16) by decide), hnumber, Option.map_some, Sign.negative]
  unfold scanU strtoul
  rw [List.map_cons, List.cons_append, hscan]
  simp only [Option.map_some, Option.some.injEq, converted]
  split
  · simp
  · exact Prod.ext (show (0xffffffffffffffff : UInt64).toUInt32 = 0xffffffff by decide) rfl

/-- The numbers of a row, as far as the separators go. -/
theorem sscanfU_cons {digits : List (Fin 10)} (hne : digits ≠ []) {sep : UInt8}
    (hsep : isDigit 10 sep = false) (seps rest : List UInt8) :
    sscanfU (sep :: seps) (digits.map digitChar ++ sep :: rest)
      = converted (decimalValue digits) :: sscanfU seps rest := by
  conv_lhs => unfold sscanfU
  rw [scanU_digits hne (stops_cons hsep)]
  simp only [if_true]

/-- At another character, or at the end, the conversions are over. -/
theorem sscanfU_stop {digits : List (Fin 10)} (hne : digits ≠ []) {sep : UInt8}
    {seps rest : List UInt8} (hstop : Stops (isDigit 10) rest) (hsep : rest.head? ≠ some sep) :
    sscanfU (sep :: seps) (digits.map digitChar ++ rest) = [converted (decimalValue digits)] := by
  unfold sscanfU
  rw [scanU_digits hne hstop]
  cases rest with
  | nil => rfl
  | cons c rest =>
      have hc : c ≠ sep := fun h => hsep (by rw [List.head?_cons, h])
      simp only [if_neg hc]

theorem sscanfU_nil {digits : List (Fin 10)} (hne : digits ≠ []) {rest : List UInt8}
    (hstop : Stops (isDigit 10) rest) :
    sscanfU [] (digits.map digitChar ++ rest) = [converted (decimalValue digits)] := by
  unfold sscanfU
  rw [scanU_digits hne hstop]

/-! ## §5. `sprintf` with `%d`. -/

theorem mod_ten_lt (n : Nat) : n % 10 < 10 := Nat.mod_lt n (Nat.zero_lt_succ 9)

/-- The last decimal digit of a number. -/
def lastDigit (n : Nat) : Fin 10 := ⟨n % 10, mod_ten_lt n⟩

/-- The decimal digits of a number, the first one in front. -/
def decimalDigits (n : Nat) : List (Fin 10) :=
  if n < 10 then [lastDigit n] else decimalDigits (n / 10) ++ [lastDigit n]
termination_by n
decreasing_by omega

/-- The text `%d` prints. -/
def decimalText (v : Int32) : List UInt8 :=
  (if v.toInt < 0 then Sign.minus.text else Sign.none.text)
    ++ (decimalDigits v.toInt.natAbs).map digitChar

theorem decimalDigits_small {n : Nat} (h : n < 10) : decimalDigits n = [lastDigit n] := by
  unfold decimalDigits
  exact if_pos h

/-- The last digit comes off the end. -/
theorem decimalDigits_large {n : Nat} (h : ¬ n < 10) :
    decimalDigits n = decimalDigits (n / 10) ++ [lastDigit n] := by
  conv_lhs => unfold decimalDigits
  exact if_neg h

/-- There is always a digit. -/
theorem decimalDigits_ne_nil (n : Nat) : decimalDigits n ≠ [] := by
  by_cases h : n < 10
  · rw [decimalDigits_small h]
    exact List.cons_ne_nil _ _
  · rw [decimalDigits_large h]
    exact List.append_ne_nil_of_right_ne_nil _ (List.cons_ne_nil _ _)

/-- **The digits of a number denote it.** -/
theorem decimalValue_decimalDigits (n : Nat) : decimalValue (decimalDigits n) = n := by
  induction n using Nat.strongRecOn with
  | ind n ih =>
      by_cases h : n < 10
      · rw [decimalDigits_small h]
        show 10 * 0 + n % 10 = n
        omega
      · rw [decimalDigits_large h]
        unfold decimalValue at ih ⊢
        rw [List.foldl_append, ih (n / 10) (by omega)]
        show 10 * (n / 10) + n % 10 = n
        omega

/-- A number below 10^k has `k` digits at most. -/
theorem decimalDigits_length_le {k n : Nat} (h : n < 10 ^ (k + 1)) :
    (decimalDigits n).length ≤ k + 1 := by
  induction k generalizing n with
  | zero =>
      rw [decimalDigits_small (by omega)]
      rfl
  | succ k ih =>
      by_cases hn : n < 10
      · rw [decimalDigits_small hn]
        show 1 ≤ k + 1 + 1
        omega
      · have hdiv : n / 10 < 10 ^ (k + 1) := by
          apply Nat.div_lt_of_lt_mul
          rw [Nat.pow_succ] at h
          omega
        have hlen := ih hdiv
        rw [decimalDigits_large hn, List.length_append]
        show (decimalDigits (n / 10)).length + 1 ≤ k + 1 + 1
        omega

/-! ## §6. `fgets`. -/

/-- `fgets(buf, n + 1, fp)` followed by `feof(fp)`: the bytes put into the
    buffer and those left in the file, or `none` where the end of the file
    was met.  A line that ends exactly where the buffer is full, or at a
    newline, does not meet it. -/
def fgets : Nat → List UInt8 → Option (List UInt8 × List UInt8)
  | 0, rest => some ([], rest)
  | _ + 1, [] => none
  | n + 1, c :: rest =>
      if c = newline then some ([c], rest) else (fgets n rest).map (fun r => (c :: r.1, r.2))

/-- The reads of a loop that ends where `fgets` meets the end of the file. -/
def fgetsLoop (n : Nat) : Nat → List UInt8 → List (List UInt8)
  | 0, _ => []
  | fuel + 1, text =>
      match fgets n text with
      | none => []
      | some (line, rest) => line :: fgetsLoop n fuel rest

/-- As many reads as there are bytes are enough: each takes one at least. -/
def fgetsLines (n : Nat) (text : List UInt8) : List (List UInt8) :=
  fgetsLoop n text.length text

/-- A line with its newline, if it fits the buffer. -/
theorem fgets_line {n : Nat} {line : List UInt8} (hline : newline ∉ line) (rest : List UInt8)
    (hlen : line.length < n) :
    fgets n (line ++ newline :: rest) = some (line ++ [newline], rest) := by
  induction line generalizing n with
  | nil =>
      obtain ⟨n, rfl⟩ := Nat.exists_eq_succ_of_ne_zero (Nat.ne_of_gt hlen)
      exact if_pos rfl
  | cons c line ih =>
      obtain ⟨n, rfl⟩ := Nat.exists_eq_succ_of_ne_zero (Nat.ne_of_gt (Nat.zero_lt_of_lt hlen))
      have hc : c ≠ newline := fun h => hline (by rw [h]; exact List.mem_cons_self)
      have htail := ih (fun h => hline (List.mem_cons_of_mem c h)) (Nat.lt_of_succ_lt_succ hlen)
      show (if c = newline then _ else (fgets n (line ++ newline :: rest)).map _) = _
      rw [if_neg hc, htail]
      rfl

/-- A last line without a newline is read only if it fills the buffer. -/
theorem fgets_last {n : Nat} {line : List UInt8} (hline : newline ∉ line) (hlen : line.length ≤ n) :
    fgets n line = if line.length = n then some (line, []) else none := by
  induction line generalizing n with
  | nil =>
      cases n with
      | zero => rfl
      | succ n => exact (if_neg (Nat.succ_ne_zero n).symm).symm
  | cons c line ih =>
      obtain ⟨n, rfl⟩ := Nat.exists_eq_succ_of_ne_zero
        (Nat.ne_of_gt (Nat.lt_of_lt_of_le (Nat.succ_pos _) hlen))
      have hc : c ≠ newline := fun h => hline (by rw [h]; exact List.mem_cons_self)
      have htail := ih (fun h => hline (List.mem_cons_of_mem c h)) (Nat.le_of_succ_le_succ hlen)
      show (if c = newline then _ else _) = _
      rw [if_neg hc, htail, List.length_cons]
      split
      · rename_i heq
        rw [if_pos (by omega)]
        rfl
      · rename_i hne
        rw [if_neg (by omega)]
        rfl

/-- A read cuts the text in two, and what is behind does not matter to it. -/
theorem fgets_split {n : Nat} {text line rest : List UInt8} (h : fgets n text = some (line, rest)) :
    text = line ++ rest ∧ ∀ more, fgets n (text ++ more) = some (line, rest ++ more) := by
  induction n generalizing text line rest with
  | zero =>
      simp only [fgets, Option.some.injEq, Prod.mk.injEq] at h
      rw [← h.1, h.2, List.nil_append]
      exact ⟨rfl, fun _ => rfl⟩
  | succ n ih =>
      cases text with
      | nil => exact absurd h (by simp [fgets])
      | cons c text =>
          simp only [fgets] at h
          split at h
          · rename_i hc
            simp only [Option.some.injEq, Prod.mk.injEq] at h
            rw [← h.1, h.2, List.singleton_append]
            exact ⟨rfl, fun _ => if_pos hc⟩
          · rename_i hc
            obtain ⟨⟨l, r⟩, hr, heq⟩ := Option.map_eq_some_iff.mp h
            simp only [Prod.mk.injEq] at heq
            obtain ⟨hcut, hmore⟩ := ih hr
            rw [← heq.1, ← heq.2, hcut, List.cons_append]
            refine ⟨rfl, fun more => ?_⟩
            rw [← hcut]
            show (if c = newline then _ else (fgets n (text ++ more)).map _) = _
            rw [if_neg hc, hmore]
            rfl

/-- A read of a nonempty buffer takes a byte. -/
theorem fgets_length {n : Nat} {text line rest : List UInt8}
    (h : fgets (n + 1) text = some (line, rest)) : rest.length < text.length := by
  have hpos : line ≠ [] := by
    cases text with
    | nil => exact absurd h (by simp [fgets])
    | cons c text =>
        simp only [fgets] at h
        split at h
        · simp only [Option.some.injEq, Prod.mk.injEq] at h
          rw [← h.1]
          exact List.cons_ne_nil _ _
        · obtain ⟨r, _, heq⟩ := Option.map_eq_some_iff.mp h
          simp only [Prod.mk.injEq] at heq
          rw [← heq.1]
          exact List.cons_ne_nil _ _
  rw [(fgets_split h).1, List.length_append]
  have := List.length_pos_of_ne_nil hpos
  omega

/-- More fuel than bytes changes nothing. -/
theorem fgetsLoop_fuel {n fuel fuel' : Nat} {text : List UInt8} (h : text.length ≤ fuel)
    (h' : text.length ≤ fuel') : fgetsLoop (n + 1) fuel text = fgetsLoop (n + 1) fuel' text := by
  induction fuel generalizing fuel' text with
  | zero =>
      rw [List.eq_nil_of_length_eq_zero (Nat.le_zero.mp h)]
      cases fuel' <;> rfl
  | succ fuel ih =>
      cases fuel' with
      | zero =>
          rw [List.eq_nil_of_length_eq_zero (Nat.le_zero.mp h')]
          rfl
      | succ fuel' =>
          unfold fgetsLoop
          cases hread : fgets (n + 1) text with
          | none => rfl
          | some r =>
              have hlt : r.2.length < text.length := fgets_length (hread.trans rfl)
              simp only
              have hrest : fgetsLoop (n + 1) fuel r.2 = fgetsLoop (n + 1) fuel' r.2 :=
                ih (by omega) (by omega)
              rw [hrest]

/-- A text that holds a newline is not read to its end. -/
theorem fgets_isSome {text : List UInt8} (h : newline ∈ text) (n : Nat) :
    ∃ r, fgets n text = some r := by
  induction text generalizing n with
  | nil => exact absurd h List.not_mem_nil
  | cons c text ih =>
      cases n with
      | zero => exact ⟨_, rfl⟩
      | succ n =>
          by_cases hc : c = newline
          · exact ⟨_, if_pos hc⟩
          · have htail : newline ∈ text := by
              rcases List.mem_cons.mp h with h | h
              · exact absurd h.symm hc
              · exact h
            obtain ⟨r, hr⟩ := ih htail n
            refine ⟨(c :: r.1, r.2), ?_⟩
            show (if c = newline then _ else (fgets n text).map _) = _
            rw [if_neg hc, hr]
            rfl

/-- A text of whole lines, of any length. -/
def WholeLines (text : List UInt8) : Prop := text = [] ∨ text.getLast? = some newline

/-- **The lines in front and the lines behind**, where a newline divides them. -/
theorem fgetsLines_wholeLines {n : Nat} {text : List UInt8} (h : WholeLines text)
    (more : List UInt8) :
    fgetsLines (n + 1) (text ++ more) = fgetsLines (n + 1) text ++ fgetsLines (n + 1) more := by
  -- the induction is on the length: each read takes a byte off the front part
  induction hlen : text.length using Nat.strongRecOn generalizing text with
  | ind k ih =>
      rcases h with rfl | hlast
      · rfl
      · obtain ⟨⟨line, rest⟩, hread⟩ := fgets_isSome (List.mem_of_getLast? hlast) (n + 1)
        obtain ⟨hcut, hmore⟩ := fgets_split hread
        have hlt := fgets_length hread
        have hrest : WholeLines rest := by
          by_cases hnil : rest = []
          · exact Or.inl hnil
          · right
            rw [hcut, List.getLast?_append_of_ne_nil _ hnil] at hlast
            exact hlast
        have htail := ih rest.length (by omega) hrest rfl
        have hstep : ∀ t l r, fgets (n + 1) t = some (l, r) →
            fgetsLines (n + 1) t = l :: fgetsLines (n + 1) r := by
          intro t l r ht
          have hshort := fgets_length ht
          obtain ⟨m, hm⟩ := Nat.exists_eq_add_of_lt hshort
          unfold fgetsLines
          rw [hm]
          show (match fgets (n + 1) t with
            | none => [] | some (l, r) => l :: fgetsLoop (n + 1) _ r) = _
          rw [ht]
          simp only
          rw [fgetsLoop_fuel (Nat.le_add_right _ _) (Nat.le_refl _)]
        rw [hstep _ _ _ hread, hstep _ _ _ (hmore more), htail]
        rfl

/-- **One line, and the rest of the file.** -/
theorem fgetsLines_line {n : Nat} {line : List UInt8} (hline : newline ∉ line)
    (rest : List UInt8) (hlen : line.length ≤ n) :
    fgetsLines (n + 1) (line ++ newline :: rest)
      = (line ++ [newline]) :: fgetsLines (n + 1) rest := by
  have hread := fgets_line hline rest (Nat.lt_succ_of_le hlen)
  have htotal : (line ++ newline :: rest).length = (line.length + rest.length) + 1 := by
    rw [List.length_append, List.length_cons, Nat.add_assoc]
  unfold fgetsLines
  rw [htotal]
  show (match fgets (n + 1) _ with | none => [] | some (l, r) => l :: fgetsLoop (n + 1) _ r) = _
  rw [hread]
  simp only
  rw [fgetsLoop_fuel (Nat.le_add_left _ _) (Nat.le_refl _)]

/-- **A file of whole lines**, and what is behind them. -/
theorem fgetsLines_append {n : Nat} {lines : List (List UInt8)}
    (hlines : ∀ line ∈ lines, newline ∉ line ∧ line.length ≤ n) (rest : List UInt8) :
    fgetsLines (n + 1) (lines.flatMap (fun line => line ++ [newline]) ++ rest)
      = lines.map (fun line => line ++ [newline]) ++ fgetsLines (n + 1) rest := by
  induction lines with
  | nil => rfl
  | cons line lines ih =>
      obtain ⟨hline, hlen⟩ := hlines line List.mem_cons_self
      rw [List.flatMap_cons, List.append_assoc, List.append_assoc, List.singleton_append,
        fgetsLines_line hline _ hlen, ih (fun l hl => hlines l (List.mem_cons_of_mem _ hl))]
      rfl

/-- **The last line without a newline** is lost unless it fills the buffer. -/
theorem fgetsLines_last {n : Nat} {line : List UInt8} (hline : newline ∉ line)
    (hlen : line.length ≤ n + 1) :
    fgetsLines (n + 1) line = if line.length = n + 1 then [line] else [] := by
  have hread := fgets_last hline hlen
  unfold fgetsLines
  cases hl : line.length with
  | zero => rfl
  | succ k =>
      rw [hl] at hread
      show (match fgets (n + 1) line with | none => [] | some (l, r) => l :: fgetsLoop (n + 1) _ r)
        = _
      rw [hread]
      by_cases hfull : k + 1 = n + 1
      · -- nothing is left behind it
        rw [if_pos hfull, if_pos hfull]
        show line :: fgetsLoop (n + 1) k [] = [line]
        cases k <;> rfl
      · rw [if_neg hfull, if_neg hfull]

end FreePacket.Lib.CString
