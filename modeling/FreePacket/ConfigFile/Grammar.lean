/-
  FreePacket.ConfigFile.Grammar
  ─────────────────────────────
  **WHAT A CONFIGURATION FILE SAYS, and what `read_config_file` makes of it.**

  A file is a row of lines: white space, comments behind a `#`, and settings
  `NAME=VALUE` with white space around the name and around the `=`.  It says
  that a member has the value of the last line that names it.  The reader
  agrees line by line, but `feof` is asked behind `fgets`: a last line that
  no newline ends has met the end of the file, and is not looked at.

  Main results:
    * `splitLine_setting` — the reader finds the name and the value.
    * `readLoop_folds` — over the lines it sees, the reader is the fold.
    * `readConfigFile_folds_iff` — when this is the fold over all lines.
-/
import FreePacket.ConfigFile.Reload

namespace FreePacket.ConfigFile

open FreePacket.Lib FreePacket.Lib.CString

/-! ## §1. The parts of a line. -/

/-- White space inside a line. -/
structure Blank where
  chars : List UInt8
  space : ∀ c ∈ chars, isSpace c = true
  inLine : newline ∉ chars

/-- A name, in any letter case. -/
structure Name where
  chars : List UInt8
  ne_nil : chars ≠ []
  nameChar : ∀ c ∈ chars, isNameChar c = true
  noNul : (0 : UInt8) ∉ chars
  /-- `#` would make it a comment. -/
  noHash : chars.head? ≠ some 35

/-- The name the keywords are compared with. -/
def Name.upper (name : Name) : List UInt8 := name.chars.map toUpper

/-- A decimal number that fits an `int`. -/
structure Number where
  sign : Sign
  digits : List (Fin 10)
  ne_nil : digits ≠ []
  low : -2147483648 ≤ signedValue sign.negative (decimalValue digits)
  high : signedValue sign.negative (decimalValue digits) < 2147483648

def Number.value (number : Number) : Int32 :=
  Int32.ofInt (signedValue number.sign.negative (decimalValue number.digits))

def Number.chars (number : Number) : List UInt8 :=
  number.sign.text ++ number.digits.map digitChar

/-- Any other value. -/
structure Text where
  chars : List UInt8
  ne_nil : chars ≠ []
  noOperator : Stops isOperator chars
  noNul : (0 : UInt8) ∉ chars
  inLine : newline ∉ chars

/-! ## §2. Lines and files. -/

/-- A well-formed line.  A name of a member set with `atoi` has a number. -/
inductive ConfLine where
  | blank (ws : Blank)
  | comment (ws : Blank) (chars : List UInt8) (inLine : newline ∉ chars)
  | number (ws : Blank) (name : Name) (before after : Blank) (value : Number) (trail : Blank)
  | text (ws : Blank) (name : Name) (before after : Blank) (value : Text)
      (notInt : ∀ field, directive name.upper ≠ some (.int field))

/-- What stands between name and value. -/
def operator (before after : Blank) : List UInt8 := before.chars ++ 61 :: after.chars

def ConfLine.render : ConfLine → List UInt8
  | .blank ws => ws.chars
  | .comment ws chars _ => ws.chars ++ 35 :: chars
  | .number ws name before after value trail =>
      ws.chars ++ (name.chars ++ (operator before after ++ (value.chars ++ trail.chars)))
  | .text ws name before after value _ =>
      ws.chars ++ (name.chars ++ (operator before after ++ value.chars))

/-- What a line is about. -/
def ConfLine.names : ConfLine → Option Directive
  | .blank .. | .comment .. => none
  | .number _ name .. | .text _ name .. => directive name.upper

/-- The integer a line gives to a member. -/
def ConfLine.assigns : ConfLine → Option (IntField × Int32)
  | .number _ name _ _ value _ =>
      match directive name.upper with
      | some (.int field) => some (field, value.value)
      | _ => none
  | _ => none

/-- A file of lines that newlines end, and possibly one that none ends. -/
def fileText (lines : List ConfLine) (last : Option ConfLine) : List UInt8 :=
  (lines.map ConfLine.render).flatMap (fun line => line ++ [newline])
    ++ (last.map ConfLine.render).getD []

/-! ## §3. What the lines say. -/

/-- The type of what a line is about. -/
def Directive.Member : Directive → Type
  | .proto | .int _ => Int32
  | .srcmac | .dstmac => Vector UInt8 6
  | .srcip | .dstip | .srcport | .dstport => Range
  | .pktdata => Option PktData
  | .linkName => List UInt8

/-- The members of the record, by the lines that set them. -/
def SimConfig.member (config : SimConfig) : (d : Directive) → d.Member
  | .proto => config.protocol
  | .srcmac => config.srcmac
  | .dstmac => config.dstmac
  | .srcip => config.saddr
  | .dstip => config.daddr
  | .srcport => config.sport
  | .dstport => config.dport
  | .pktdata => config.pktData
  | .linkName => config.linkName
  | .int field => config.int field

/-- **The fold of the lines**: an integer member has the value of the last
    line that names it, and what no line names is as it was. -/
structure Folds (lines : List ConfLine) (config config' : SimConfig) : Prop where
  int : ∀ field, config'.int field
    = (lastOf field (lines.filterMap ConfLine.assigns)).getD (config.int field)
  kept : ∀ d, (∀ line ∈ lines, line.names ≠ some d) → config'.member d = config.member d

theorem Folds.nil (config : SimConfig) : Folds [] config config :=
  ⟨fun _ => rfl, fun _ _ => rfl⟩

/-- One line after another. -/
theorem Folds.append {lines lines' : List ConfLine} {config₁ config₂ config₃ : SimConfig}
    (h : Folds lines config₁ config₂) (h' : Folds lines' config₂ config₃) :
    Folds (lines ++ lines') config₁ config₃ where
  int := by
    intro field
    rw [h'.int field, h.int field, List.filterMap_append, lastOf_append]
    cases lastOf field (lines'.filterMap ConfLine.assigns) with
    | none => rw [Option.none_or, Option.getD_none]
    | some value => rfl
  kept := by
    intro d hd
    rw [h'.kept d (fun line hline => hd line (List.mem_append_right _ hline)),
      h.kept d (fun line hline => hd line (List.mem_append_left _ hline))]

/-! ## §4. One line, split. -/

/-- White space is not part of a name. -/
theorem isNameChar_of_isSpace {c : UInt8} (h : isSpace c = true) : isNameChar c = false := by
  unfold isNameChar
  rw [h]
  rfl

theorem isOperator_of_isSpace {c : UInt8} (h : isSpace c = true) : isOperator c = true := by
  unfold isOperator
  rw [h]
  rfl

theorem Blank.noNul (ws : Blank) : (0 : UInt8) ∉ ws.chars := by
  intro h
  exact absurd (ws.space 0 h) (by decide)

theorem Blank.stops_isDigit (ws : Blank) (rest : List UInt8) (h : Stops (isDigit 10) rest) :
    Stops (isDigit 10) (ws.chars ++ rest) := by
  cases hws : ws.chars with
  | nil => exact h
  | cons c cs => exact stops_cons (isDigit_of_isSpace (ws.space c (hws ▸ List.mem_cons_self)))

theorem operator_isOperator {before after : Blank} {c : UInt8} (h : c ∈ operator before after) :
    isOperator c = true := by
  rcases List.mem_append.mp h with h | h
  · exact isOperator_of_isSpace (before.space c h)
  · rcases List.mem_cons.mp h with rfl | h
    · rfl
    · exact isOperator_of_isSpace (after.space c h)

/-- A name ends where the operator begins. -/
theorem operator_stops (before after : Blank) (rest : List UInt8) :
    Stops isNameChar (operator before after ++ rest) := by
  unfold operator
  cases hb : before.chars with
  | nil => exact stops_cons rfl
  | cons c cs => exact stops_cons (isNameChar_of_isSpace (before.space c (hb ▸ List.mem_cons_self)))

theorem operator_noNul (before after : Blank) : (0 : UInt8) ∉ operator before after := by
  intro h
  exact absurd (operator_isOperator h) (by decide)

/-- The string goes on behind what has no NUL. -/
theorem cstring_append {buf : List UInt8} (h : (0 : UInt8) ∉ buf) (rest : List UInt8) :
    cstring (buf ++ rest) = buf ++ cstring rest := by
  unfold cstring
  refine List.takeWhile_append_of_pos (fun c hc => bne_iff_ne.mpr ?_)
  rintro rfl
  exact h hc

/-- A buffer without a NUL is the string itself. -/
theorem cstring_of_noNul {buf : List UInt8} (h : (0 : UInt8) ∉ buf) : cstring buf = buf := by
  have hall := cstring_append h []
  rw [List.append_nil] at hall
  rw [hall]
  exact List.append_nil buf

/-- **The reader finds the name and the value.** -/
theorem splitLine_setting (ws before after : Blank) (name : Name) {p : List UInt8}
    (hp : Stops isOperator p) (hnul : (0 : UInt8) ∉ p) :
    splitLine (ws.chars ++ (name.chars ++ (operator before after ++ p)))
      = some (name.upper, p) := by
  obtain ⟨c, cs, hname⟩ := List.exists_cons_of_ne_nil name.ne_nil
  have hc : isNameChar c = true := name.nameChar c (hname ▸ List.mem_cons_self)
  have hbuf : (0 : UInt8) ∉ ws.chars ++ (name.chars ++ (operator before after ++ p)) := by
    simp only [List.mem_append, not_or]
    exact ⟨ws.noNul, name.noNul, operator_noNul before after, hnul⟩
  have hskip : Stops isSpace (name.chars ++ (operator before after ++ p)) := by
    rw [hname]
    refine stops_cons ?_
    by_contra hspace
    rw [Bool.not_eq_false] at hspace
    exact absurd (hc.symm.trans (isNameChar_of_isSpace hspace)) (by decide)
  have hhash : (name.chars ++ (operator before after ++ p)).head? ≠ some 35 := by
    have hno := name.noHash
    rw [hname] at hno ⊢
    exact hno
  unfold splitLine
  simp only
  rw [cstring_of_noNul hbuf, dropWhile_append_stop ws.space hskip, if_neg hhash,
    takeWhile_append_stop name.nameChar (operator_stops before after p),
    dropWhile_append_stop name.nameChar (operator_stops before after p),
    dropWhile_append_stop (fun c hc => operator_isOperator hc) hp]
  rfl

/-- **A comment is passed over.** -/
theorem splitLine_comment (ws : Blank) (text : List UInt8) :
    splitLine (ws.chars ++ 35 :: text) = none := by
  have hstring : cstring (ws.chars ++ 35 :: text) = ws.chars ++ 35 :: cstring text :=
    cstring_append ws.noNul (35 :: text)
  have hskip : Stops isSpace (35 :: cstring text) := stops_cons rfl
  unfold splitLine
  simp only
  rw [hstring, dropWhile_append_stop ws.space hskip]
  rfl

/-- **A blank line has no name.** -/
theorem splitLine_blank {line : List UInt8} (h : ∀ c ∈ line, isSpace c = true) :
    splitLine line = some ([], []) := by
  have hnul : (0 : UInt8) ∉ line := fun h0 => absurd (h 0 h0) (by decide)
  have hskip := dropWhile_append_stop h (stops_nil (p := isSpace))
  rw [List.append_nil] at hskip
  unfold splitLine
  simp only
  rw [cstring_of_noNul hnul, hskip]
  rfl

/-! ## §5. One line, read. -/

/-- The empty name is no keyword. -/
theorem directive_nil : directive [] = none := by decide

/-- The name and what the value begins, when `tail` follows the line. -/
def ConfLine.parts (tail : List UInt8) : ConfLine → Option (List UInt8 × List UInt8)
  | .blank _ => some ([], [])
  | .comment .. => none
  | .number _ name _ _ value trail => some (name.upper, value.chars ++ (trail.chars ++ tail))
  | .text _ name _ _ value _ => some (name.upper, value.chars ++ tail)

theorem ConfLine.names_eq (line : ConfLine) (tail : List UInt8) :
    line.names = (line.parts tail).bind (fun r => directive r.1) := by
  cases line with
  | blank ws =>
      exact directive_nil.symm
  | comment | number | text => rfl

/-- A number begins with a sign or a digit. -/
theorem Number.chars_cons (number : Number) :
    ∃ c cs, number.chars = c :: cs ∧ isSpace c = false ∧ isOperator c = false := by
  obtain ⟨d, ds, hd⟩ := List.exists_cons_of_ne_nil number.ne_nil
  have hdigit : ∀ d : Fin 10, isOperator (digitChar d) = false := by decide
  unfold Number.chars
  rw [hd]
  cases number.sign with
  | none => exact ⟨digitChar d, ds.map digitChar, rfl, isSpace_digitChar d, hdigit d⟩
  | plus => exact ⟨43, (d :: ds).map digitChar, rfl, rfl, rfl⟩
  | minus => exact ⟨45, (d :: ds).map digitChar, rfl, rfl, rfl⟩

theorem Number.chars_clean (number : Number) {c : UInt8} (hc : c = 0 ∨ c = newline) :
    c ∉ number.chars := by
  intro h
  rcases List.mem_append.mp h with h | h
  · have hsign : ∀ sign : Sign, (0 : UInt8) ∉ sign.text ∧ newline ∉ sign.text := by
      intro sign
      cases sign <;> decide
    rcases hc with rfl | rfl
    · exact (hsign number.sign).1 h
    · exact (hsign number.sign).2 h
  · obtain ⟨d, _, rfl⟩ := List.mem_map.mp h
    have hdigit : ∀ d : Fin 10, ¬ (digitChar d = 0 ∨ digitChar d = newline) := by decide
    exact hdigit d hc

/-- `atoi` reads the number, and no further. -/
theorem Number.atoi_chars (number : Number) {rest : List UInt8} (h : Stops (isDigit 10) rest) :
    atoi (number.chars ++ rest) = number.value := by
  unfold Number.chars
  rw [List.append_assoc]
  exact atoi_decimal number.sign number.ne_nil h number.low number.high

section Line

variable {tail : List UInt8} (htail : ∀ c ∈ tail, isSpace c = true)

include htail

/-- **The reader splits a line into its parts.** -/
theorem splitLine_render (line : ConfLine) :
    splitLine (line.render ++ tail) = line.parts tail := by
  have hnul : (0 : UInt8) ∉ tail := fun h => absurd (htail 0 h) (by decide)
  cases line with
  | blank ws =>
      refine splitLine_blank (fun c hc => ?_)
      rcases List.mem_append.mp hc with hc | hc
      · exact ws.space c hc
      · exact htail c hc
  | comment ws chars =>
      show splitLine ((ws.chars ++ 35 :: chars) ++ tail) = none
      rw [List.append_assoc]
      exact splitLine_comment ws (chars ++ tail)
  | number ws name before after value trail =>
      -- a number starts with no operator, so the separator ends in front of it
      obtain ⟨c, cs, hvalue, _, hop⟩ := value.chars_cons
      have hstop : Stops isOperator (value.chars ++ (trail.chars ++ tail)) := by
        rw [hvalue]
        exact stops_cons hop
      have hclean : (0 : UInt8) ∉ value.chars ++ (trail.chars ++ tail) := by
        simp only [List.mem_append, not_or]
        exact ⟨value.chars_clean (Or.inl rfl), trail.noNul, hnul⟩
      have hsplit := splitLine_setting ws before after name hstop hclean
      unfold ConfLine.render
      simp only [List.append_assoc]
      exact hsplit
  | text ws name before after value =>
      have hstop : Stops isOperator (value.chars ++ tail) :=
        stops_append value.ne_nil value.noOperator tail
      -- `strlen` sees the whole text
      have hclean : (0 : UInt8) ∉ value.chars ++ tail := by
        simp only [List.mem_append, not_or]
        exact ⟨value.noNul, hnul⟩
      have hsplit := splitLine_setting ws before after name hstop hclean
      unfold ConfLine.render
      simp only [List.append_assoc]
      exact hsplit

/-- A well-formed line is none the reader gives up at. -/
theorem stops_render (line : ConfLine) : stops (line.render ++ tail) = false := by
  have hgo : ∀ {c : UInt8} {cs : List UInt8}, isSpace c = false → atEnd (c :: cs) = false := by
    intro c cs hc
    unfold atEnd
    rw [dropWhile_of_stops (stops_cons hc)]
    rfl
  unfold stops
  rw [splitLine_render htail]
  cases line with
  | blank ws =>
      show ((directive []).any Directive.isRange && atEnd []) = false
      rw [directive_nil]
      rfl
  | comment => rfl
  | number ws name before after value trail =>
      obtain ⟨c, cs, hvalue, hspace, _⟩ := value.chars_cons
      show ((directive name.upper).any Directive.isRange
        && atEnd (value.chars ++ (trail.chars ++ tail))) = false
      rw [hvalue, List.cons_append, hgo hspace, Bool.and_false]
  | text ws name before after value =>
      obtain ⟨c, cs, hvalue⟩ := List.exists_cons_of_ne_nil value.ne_nil
      have hop : isOperator c = false := value.noOperator c (hvalue ▸ rfl)
      have hspace : isSpace c = false := by
        unfold isOperator at hop
        exact (Bool.or_eq_false_iff.mp hop).1
      show ((directive name.upper).any Directive.isRange && atEnd (value.chars ++ tail)) = false
      rw [hvalue, List.cons_append, hgo hspace, Bool.and_false]

end Line

/-- A branch of the reader sets the member it is about, and no other. -/
theorem Directive.read_member {locals : Locals} {config config' : SimConfig} {p : List UInt8}
    {d : Directive} (h : d.read locals config p = .next config') {d' : Directive} (hd : d' ≠ d) :
    config'.member d' = config.member d' := by
  have hrange : ∀ range set, setRange config range set = .next config' →
      (∀ r, (set r).member d' = config.member d') → config'.member d' = config.member d' := by
    intro range set hset hkept
    cases range with
    | none => exact absurd hset (by simp [setRange])
    | some r => rw [← LineResult.next.inj hset, hkept]
  cases d with
  | proto =>
      have hproto : ∀ protocol, ({ config with protocol := protocol } : SimConfig).member d'
          = config.member d' := by
        intro protocol
        cases d' <;> first | rfl | exact absurd rfl hd
      simp only [Directive.read] at h
      split at h
      · rw [← LineResult.next.inj h, hproto]
      · split at h
        · rw [← LineResult.next.inj h, hproto]
        · rw [← LineResult.next.inj h]
  | srcmac | dstmac | pktdata | linkName =>
      rw [← LineResult.next.inj h]
      cases d' <;> first | rfl | exact absurd rfl hd
  | srcip | dstip | srcport | dstport =>
      refine hrange _ _ h (fun r => ?_)
      cases d' <;> first | rfl | exact absurd rfl hd
  | int g =>
      cases d' with
      | int field =>
          have hne : Directive.int g ≠ Directive.int field := Ne.symm hd
          have hint := Directive.read_int h field
          rw [if_neg hne] at hint
          exact hint
      | _ =>
          cases g with
          | pktlen =>
              -- a length over 1600 ends the process, it is no `next`
              simp only [Directive.read] at h
              split at h
              · exact absurd h (by simp)
              · rw [← LineResult.next.inj h]
                rfl
          | _ =>
              rw [← LineResult.next.inj h]
              rfl

/-- What `atoi` gives the member a line names. -/
def Directive.assign (p : List UInt8) : Directive → Option (IntField × Int32)
  | .int field => some (field, atoi p)
  | _ => none

/-- A line assigns what the reader finds in its parts. -/
theorem ConfLine.assigns_eq (line : ConfLine) {tail : List UInt8}
    (htail : ∀ c ∈ tail, isSpace c = true) :
    line.assigns = (line.parts tail).bind
      (fun r => (directive r.1).bind (Directive.assign r.2)) := by
  cases line with
  | blank ws =>
      show none = (directive []).bind (Directive.assign [])
      rw [directive_nil]
      rfl
  | comment => rfl
  | number ws name before after value trail =>
      -- `atoi` stops at the end of the line
      have hstop : Stops (isDigit 10) tail := by
        cases tail with
        | nil => exact stops_nil
        | cons c tail => exact stops_cons (isDigit_of_isSpace (htail c List.mem_cons_self))
      have hvalue := value.atoi_chars (trail.stops_isDigit tail hstop)
      show _ = (directive name.upper).bind (Directive.assign (value.chars ++ (trail.chars ++ tail)))
      unfold ConfLine.assigns
      simp only
      cases directive name.upper with
      | none => rfl
      | some d =>
          cases d with
          | int field =>
              show _ = some (field, atoi (value.chars ++ (trail.chars ++ tail)))
              rw [hvalue]
          | _ => rfl
  | text ws name before after value notInt =>
      show none = (directive name.upper).bind (Directive.assign (value.chars ++ tail))
      cases hd : directive name.upper with
      | none => rfl
      | some d =>
          cases d with
          | int field => exact absurd hd (notInt field)
          | _ => rfl

/-- What one assignment, or none, gives a member. -/
theorem lastOf_filterMap_singleton (field : IntField) (line : ConfLine) :
    lastOf field ([line].filterMap ConfLine.assigns)
      = line.assigns.bind (fun a => if a.1 = field then some a.2 else none) := by
  cases ha : line.assigns with
  | none =>
      rw [List.filterMap_cons_none ha]
      rfl
  | some a =>
      rw [List.filterMap_cons_some ha]
      exact lastOf_singleton field a

/-- **One well-formed line**, with white space behind it. -/
theorem readLine_folds {locals : Locals} {config config' : SimConfig} {line : ConfLine}
    {tail : List UInt8} (htail : ∀ c ∈ tail, isSpace c = true)
    (h : readLine locals config (line.render ++ tail) = .next config') :
    Folds [line] config config' := by
  unfold readLine at h
  rw [splitLine_render htail] at h
  have hnames := line.names_eq tail
  have hassigns := line.assigns_eq htail
  cases hparts : line.parts tail with
  | none =>
      rw [hparts] at h hassigns
      refine ⟨fun field => ?_, fun d _ => ?_⟩
      · rw [lastOf_filterMap_singleton, hassigns, ← LineResult.next.inj h]
        rfl
      · rw [← LineResult.next.inj h]
  | some r =>
      obtain ⟨key, p⟩ := r
      rw [hparts] at h hnames hassigns
      change line.names = directive key at hnames
      change line.assigns = (directive key).bind (Directive.assign p) at hassigns
      simp only at h
      cases hd : directive key with
      | none =>
          -- a name of no member falls through all the comparisons
          rw [hd] at h hassigns
          refine ⟨fun field => ?_, fun d _ => ?_⟩
          · rw [lastOf_filterMap_singleton, hassigns, ← LineResult.next.inj h]
            rfl
          · rw [← LineResult.next.inj h]
      | some d =>
          rw [hd] at h hnames hassigns
          refine ⟨fun field => ?_, fun d' hd' => ?_⟩
          · have hint := Directive.read_int h field
            rw [lastOf_filterMap_singleton, hassigns, hint]
            cases d with
            | int g =>
                show _ = (if g = field then some (atoi p) else none).getD (config.int field)
                by_cases hg : g = field
                · rw [if_pos hg, if_pos (congrArg _ hg)]
                  rfl
                · rw [if_neg hg, if_neg (fun he => hg (Directive.int.inj he))]
                  rfl
            | _ => exact if_neg (by simp)
          · have hne : line.names ≠ some d' := hd' line List.mem_cons_self
            rw [hnames] at hne
            exact Directive.read_member h (fun he => hne (congrArg some he.symm))

theorem Directive.read_exited_iff {locals : Locals} {config : SimConfig} {p : List UInt8}
    {d : Directive} :
    d.read locals config p = .exited ↔ d.assign p = some (.pktlen, atoi p) ∧ atoi p > 1600 := by
  have hrange : ∀ range set, setRange config range set ≠ .exited := by
    intro range set h
    cases range <;> exact absurd h (by simp [setRange])
  cases d with
  | proto =>
      simp only [Directive.read, Directive.assign]
      split
      · simp
      · split <;> simp
  | srcmac | dstmac | pktdata | linkName => simp [Directive.read, Directive.assign]
  | srcip | dstip | srcport | dstport =>
      simp [Directive.read, Directive.assign, hrange]
  | int field =>
      cases field with
      | pktlen =>
          simp only [Directive.read, Directive.assign, true_and]
          split
          · rename_i hlong
            simp [hlong]
          · rename_i hlong
            simp [hlong]
      | _ => simp [Directive.read, Directive.assign]

/-- A well-formed line ends the process only by a `PKTLEN` over 1600. -/
theorem readLine_exited_iff {locals : Locals} {config : SimConfig} {line : ConfLine}
    {tail : List UInt8} (htail : ∀ c ∈ tail, isSpace c = true) :
    readLine locals config (line.render ++ tail) = .exited
      ↔ ∃ value, line.assigns = some (.pktlen, value) ∧ value > 1600 := by
  have hassigns := line.assigns_eq htail
  unfold readLine
  rw [splitLine_render htail, hassigns]
  cases line.parts tail with
  | none => simp
  | some r =>
      obtain ⟨key, p⟩ := r
      simp only [Option.bind_some]
      cases directive key with
      | none => simp
      | some d =>
          simp only [Option.bind_some]
          rw [Directive.read_exited_iff]
          constructor
          · rintro ⟨hassign, hlong⟩
            exact ⟨atoi p, hassign, hlong⟩
          · rintro ⟨value, hassign, hlong⟩
            have hvalue : value = atoi p := by
              cases d with
              | int field =>
                  have hpair := Option.some.inj hassign
                  exact (congrArg Prod.snd hpair).symm
              | _ => exact absurd hassign (by simp [Directive.assign])
            rw [hvalue] at hassign hlong
            exact ⟨hassign, hlong⟩

/-! ## §6. The whole file. -/

/-- **Over the lines it sees, the reader is the fold.**  Each row is a line
    and the white space that follows it in the buffer. -/
theorem readLoop_folds {locals : Nat → Locals} {n : Nat} {rows : List (ConfLine × List UInt8)}
    (htail : ∀ row ∈ rows, ∀ c ∈ row.2, isSpace c = true) {config config' : SimConfig}
    (h : readLoop locals n (rows.map (fun row => row.1.render ++ row.2)) config = some config') :
    Folds (rows.map Prod.fst) config config' := by
  induction rows generalizing n config with
  | nil =>
      rw [← Option.some.inj h]
      exact Folds.nil config
  | cons row rows ih =>
      have hspace := htail row List.mem_cons_self
      rw [List.map_cons] at h
      unfold readLoop at h
      cases hline : readLine (locals n) config (row.1.render ++ row.2) with
      | next config₁ =>
          rw [hline] at h
          have hfirst := readLine_folds hspace hline
          have hrest := ih (fun r hr => htail r (List.mem_cons_of_mem _ hr)) h
          exact hfirst.append hrest
      | returned config₁ =>
          -- only a range without a value makes the reader return
          have hstop := (readLine_returned_iff.mp hline).1
          rw [stops_render hspace] at hstop
          exact absurd hstop (by decide)
      | exited =>
          rw [hline] at h
          exact absurd h (by simp)

/-- **The reader comes back** exactly when no line it sees asks for packets of
    more than 1600 bytes. -/
theorem readLoop_isSome_iff {locals : Nat → Locals} {n : Nat}
    {rows : List (ConfLine × List UInt8)}
    (htail : ∀ row ∈ rows, ∀ c ∈ row.2, isSpace c = true) {config : SimConfig} :
    (readLoop locals n (rows.map (fun row => row.1.render ++ row.2)) config).isSome = true
      ↔ ∀ row ∈ rows, ∀ value, row.1.assigns = some (.pktlen, value) → ¬ value > 1600 := by
  induction rows generalizing n config with
  | nil => simp [readLoop]
  | cons row rows ih =>
      have hspace := htail row List.mem_cons_self
      -- `read_config_file` exits at a `pktlen` above 1600 and nowhere else
      have hexit : readLine (locals n) config (row.1.render ++ row.2) = .exited
          ↔ ∃ value, row.1.assigns = some (.pktlen, value) ∧ value > 1600 :=
        readLine_exited_iff hspace
      rw [List.map_cons, List.forall_mem_cons]
      unfold readLoop
      cases hline : readLine (locals n) config (row.1.render ++ row.2) with
      | next config₁ =>
          rw [hline] at hexit
          have hrows : ∀ r ∈ rows, ∀ c ∈ r.2, isSpace c = true :=
            fun r hr => htail r (List.mem_cons_of_mem _ hr)
          refine (ih hrows).trans ⟨fun h => ⟨?_, h⟩, fun h => h.2⟩
          intro value hassign hlong
          exact absurd (hexit.mpr ⟨value, hassign, hlong⟩) (by simp)
      | returned config₁ =>
          have hstop := (readLine_returned_iff.mp hline).1
          rw [stops_render hspace] at hstop
          exact absurd hstop (by decide)
      | exited =>
          rw [hline] at hexit
          obtain ⟨value, hassign, hlong⟩ := hexit.mp rfl
          constructor
          · intro h
            exact absurd h (by simp)
          · intro h
            exact absurd hlong (h.1 value hassign)

/-- A line has no newline inside. -/
theorem ConfLine.render_inLine (line : ConfLine) : newline ∉ line.render := by
  have hname : ∀ name : Name, newline ∉ name.chars :=
    fun name h => absurd (name.nameChar newline h) (by decide)
  have hop : ∀ before after : Blank, newline ∉ operator before after := by
    intro before after h
    rcases List.mem_append.mp h with h | h
    · exact before.inLine h
    · rcases List.mem_cons.mp h with h | h
      · exact absurd h (by decide)
      · exact after.inLine h
  cases line with
  | blank ws => exact ws.inLine
  | comment ws chars inLine =>
      intro h
      rcases List.mem_append.mp h with h | h
      · exact ws.inLine h
      · rcases List.mem_cons.mp h with h | h
        · exact absurd h (by decide)
        · exact inLine h
  | number ws name before after value trail =>
      unfold ConfLine.render
      simp only [List.mem_append, not_or]
      exact ⟨ws.inLine, hname name, hop before after, value.chars_clean (Or.inr rfl), trail.inLine⟩
  | text ws name before after value =>
      unfold ConfLine.render
      simp only [List.mem_append, not_or]
      exact ⟨ws.inLine, hname name, hop before after, value.inLine⟩

/-- The rows the loop of `read_config_file` sees. -/
def seenRows (lines : List ConfLine) (last : Option ConfLine) : List (ConfLine × List UInt8) :=
  lines.map (fun line => (line, [newline]))
    ++ (last.toList.filter (fun line => line.render.length == bufsiz - 1)).map
        (fun line => (line, []))

/-- **The lines `fgets` reads before the end of the file**: those a newline
    ends, and a last one only if it fills the buffer. -/
theorem fgetsLines_fileText {lines : List ConfLine} {last : Option ConfLine}
    (hlines : ∀ line ∈ lines, line.render.length ≤ bufsiz - 2)
    (hlast : ∀ line ∈ last, line.render.length ≤ bufsiz - 1) :
    fgetsLines (bufsiz - 1) (fileText lines last)
      = (seenRows lines last).map (fun row => row.1.render ++ row.2) := by
  have hfit : ∀ line ∈ lines.map ConfLine.render, newline ∉ line ∧ line.length ≤ 8190 := by
    intro line hline
    obtain ⟨l, hl, rfl⟩ := List.mem_map.mp hline
    exact ⟨l.render_inLine, hlines l hl⟩
  have hwhole := fgetsLines_append hfit ((last.map ConfLine.render).getD [])
  unfold fileText seenRows
  show fgetsLines (8190 + 1) _ = _
  rw [hwhole, List.map_append, List.map_map, List.map_map]
  refine congrArg₂ (· ++ ·) rfl ?_
  cases last with
  | none => rfl
  | some line =>
      show fgetsLines (8190 + 1) line.render = _
      rw [fgetsLines_last line.render_inLine (hlast line rfl), Option.toList_some]
      by_cases hfull : line.render.length = 8190 + 1
      · rw [if_pos hfull, List.filter_cons_of_pos (by rw [hfull]; rfl)]
        show _ = [line.render ++ []]
        rw [List.append_nil]
      · rw [if_neg hfull, List.filter_cons_of_neg (by simpa [bufsiz] using hfull)]
        rfl

/-- One more line changes nothing only if it assigns nothing new. -/
theorem Folds.append_iff {lines : List ConfLine} {config config' : SimConfig}
    (h : Folds lines config config') (line : ConfLine) :
    Folds (lines ++ [line]) config config'
      ↔ ∀ field value, line.assigns = some (field, value) →
          value = (lastOf field (lines.filterMap ConfLine.assigns)).getD (config.int field) := by
  have hlast : ∀ field, lastOf field ((lines ++ [line]).filterMap ConfLine.assigns)
      = (line.assigns.bind (fun a => if a.1 = field then some a.2 else none)).or
          (lastOf field (lines.filterMap ConfLine.assigns)) := by
    intro field
    rw [List.filterMap_append, lastOf_append, lastOf_filterMap_singleton]
  constructor
  · intro hall field value hassign
    have hint := hall.int field
    rw [hlast, hassign, Option.bind_some, if_pos rfl, h.int field] at hint
    exact hint.symm
  · intro hsame
    refine ⟨fun field => ?_, fun d hd => h.kept d (fun l hl => hd l (List.mem_append_left _ hl))⟩
    rw [hlast, h.int field]
    cases ha : line.assigns with
    | none => rfl
    | some a =>
        obtain ⟨g, value⟩ := a
        rw [Option.bind_some]
        by_cases hg : g = field
        · rw [if_pos hg, ← hsame field value (by rw [ha, hg])]
          rfl
        · rw [if_neg hg, Option.none_or]

/-- **`read_config_file` is the fold of the lines it sees.** -/
theorem readConfigFile_folds_seen {locals : Nat → Locals} {lines : List ConfLine}
    {last : Option ConfLine} (hlines : ∀ line ∈ lines, line.render.length ≤ bufsiz - 2)
    (hlast : ∀ line ∈ last, line.render.length ≤ bufsiz - 1) {config config' : SimConfig}
    (hread : readConfigFile locals (fileText lines last) config = some config') :
    Folds (lines ++ last.toList.filter (fun line => line.render.length == bufsiz - 1))
      config config' := by
  unfold readConfigFile at hread
  rw [fgetsLines_fileText hlines hlast] at hread
  have htail : ∀ row ∈ seenRows lines last, ∀ c ∈ row.2, isSpace c = true := by
    intro row hrow c hc
    rcases List.mem_append.mp hrow with hrow | hrow
    · obtain ⟨line, _, rfl⟩ := List.mem_map.mp hrow
      rw [List.mem_singleton.mp hc]
      rfl
    · obtain ⟨line, _, rfl⟩ := List.mem_map.mp hrow
      exact absurd hc List.not_mem_nil
  have hseen := readLoop_folds htail hread
  have hrows : (seenRows lines last).map Prod.fst
      = lines ++ last.toList.filter (fun line => line.render.length == bufsiz - 1) := by
    unfold seenRows
    rw [List.map_append, List.map_map, List.map_map]
    simp only [Function.comp_def, List.map_id']
  rw [hrows] at hseen
  exact hseen

/-- **`read_config_file` is the fold of its lines exactly when** its last line
    is ended by a newline, or fills the buffer, or gives no integer member
    another value than the lines in front of it leave there. -/
theorem readConfigFile_folds_iff {locals : Nat → Locals} {lines : List ConfLine}
    {last : Option ConfLine} (hlines : ∀ line ∈ lines, line.render.length ≤ bufsiz - 2)
    (hlast : ∀ line ∈ last, line.render.length ≤ bufsiz - 1) {config config' : SimConfig}
    (hread : readConfigFile locals (fileText lines last) config = some config') :
    Folds (lines ++ last.toList) config config'
      ↔ ∀ line ∈ last, line.render.length = bufsiz - 1 ∨
          ∀ field value, line.assigns = some (field, value) →
            value = (lastOf field (lines.filterMap ConfLine.assigns)).getD (config.int field) := by
  have hseen := readConfigFile_folds_seen hlines hlast hread
  cases last with
  | none =>
      constructor
      · intro _ line hline
        exact absurd hline (by simp)
      · intro _
        exact hseen
  | some line =>
      rw [Option.toList_some] at hseen ⊢
      by_cases hfull : line.render.length = bufsiz - 1
      · -- the buffer is full before the end of the file is met
        rw [List.filter_cons_of_pos (by simpa using hfull), List.filter_nil] at hseen
        constructor
        · intro _ line' hline'
          rw [← Option.mem_some_iff.mp hline']
          exact Or.inl hfull
        · intro _
          exact hseen
      · -- the last line is lost, so it must have had nothing new to say
        rw [List.filter_cons_of_neg (by simpa using hfull), List.filter_nil,
          List.append_nil] at hseen
        rw [hseen.append_iff line]
        constructor
        · intro hsame line' hline'
          rw [← Option.mem_some_iff.mp hline']
          exact Or.inr hsame
        · intro hcond
          exact (hcond line rfl).resolve_left hfull

/-! ## §7. One line, with and without its newline. -/

def noBlank : Blank := ⟨[], fun _ h => absurd h List.not_mem_nil, List.not_mem_nil⟩

/-- `PIPE_DEPTH=5`. -/
def depthLine : ConfLine :=
  .number noBlank
    { chars := ascii "PIPE_DEPTH", ne_nil := by decide
      nameChar := List.all_eq_true.mp (show (ascii "PIPE_DEPTH").all isNameChar = true by decide)
      noNul := by decide, noHash := by decide }
    noBlank noBlank
    { sign := .none, digits := [5], ne_nil := by decide, low := by decide, high := by decide }
    noBlank

theorem endedLine_folded :
    depthLine.render.length ≤ bufsiz - 2
      ∧ readConfigFile (fun _ => ⟨0, 0⟩) (fileText [depthLine] none) zeroConfig
          = some (zeroConfig.setInt .pipeDepth 5)
      ∧ Folds ([depthLine] ++ none.toList) zeroConfig (zeroConfig.setInt .pipeDepth 5) := by
  have hlen : depthLine.render.length ≤ bufsiz - 2 := by decide
  have hread : readConfigFile (fun _ => ⟨0, 0⟩) (fileText [depthLine] none) zeroConfig
      = some (zeroConfig.setInt .pipeDepth 5) := rfl
  have hlines : ∀ line ∈ [depthLine], line.render.length ≤ bufsiz - 2 := by
    intro line hline
    rw [List.mem_singleton.mp hline]
    exact hlen
  have hlast : ∀ line ∈ (none : Option ConfLine), line.render.length ≤ bufsiz - 1 :=
    fun line hline => absurd hline (by simp)
  exact ⟨hlen, hread, (readConfigFile_folds_iff hlines hlast hread).mpr
    (fun line hline => absurd hline (by simp))⟩

/-- Without the newline the depth stays as it was. -/
theorem unendedLine_not_folded :
    fileText [] (some depthLine) = ascii "PIPE_DEPTH=5"
      ∧ depthLine.render.length ≤ bufsiz - 2
      ∧ readConfigFile (fun _ => ⟨0, 0⟩) (fileText [] (some depthLine)) zeroConfig
          = some zeroConfig
      ∧ ¬ Folds ([] ++ (some depthLine).toList) zeroConfig zeroConfig := by
  refine ⟨by decide, by decide, rfl, fun h => ?_⟩
  have hdepth : zeroConfig.int .pipeDepth = 5 := h.int .pipeDepth
  exact absurd hdepth (by decide)

end FreePacket.ConfigFile
