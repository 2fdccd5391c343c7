/-
  FreePacket.ConfigFile.RangeLine
  ───────────────────────────────
  **THE LINES `SRCIP`, `DSTIP`, `SRCPORT`, `DSTPORT`, and what they say.**

  Such a line gives an address `a.b.c.d` or a port `p`, and behind a `+` how
  many more follow it.  All four branches take `rev == 1` to mean that there
  was no `+`.  So it is for the ports.  For an address `sscanf` has stored
  four numbers by then, and `counter` keeps what it held.

  Main results:
    * `readLine_range` — what a branch makes of its line.
    * `readConfigFile_range_iff` — behind any lines and with any locals, when
      that is what the line says.
-/
import FreePacket.ConfigFile.Grammar

namespace FreePacket.ConfigFile

open FreePacket.Lib FreePacket.Lib.CString

/-! ## §1. Range lines. -/

/-- The four names. -/
inductive RangeKey where
  | srcip | dstip | srcport | dstport
  deriving DecidableEq

def RangeKey.directive : RangeKey → Directive
  | .srcip => .srcip
  | .dstip => .dstip
  | .srcport => .srcport
  | .dstport => .dstport

/-- The member of the record. -/
def RangeKey.range (config : SimConfig) : RangeKey → Range
  | .srcip => config.saddr
  | .dstip => config.daddr
  | .srcport => config.sport
  | .dstport => config.dport

def RangeKey.isAddress : RangeKey → Bool
  | .srcip | .dstip => true
  | .srcport | .dstport => false

/-- A row of digits, of any length. -/
structure Digits where
  digits : List (Fin 10)
  ne_nil : digits ≠ []

def Digits.value (n : Digits) : Nat := decimalValue n.digits
def Digits.chars (n : Digits) : List UInt8 := n.digits.map digitChar

/-- `a.b.c.d` with octets up to 255, or `p`. -/
inductive RangeStart where
  | address (a b c d : Digits) (ha : a.value ≤ 255) (hb : b.value ≤ 255) (hc : c.value ≤ 255)
      (hd : d.value ≤ 255)
  | port (p : Digits)

def RangeStart.isAddress : RangeStart → Bool
  | .address .. => true
  | .port _ => false

def RangeStart.chars : RangeStart → List UInt8
  | .address a b c d _ _ _ _ =>
      a.chars ++ 46 :: (b.chars ++ 46 :: (c.chars ++ 46 :: d.chars))
  | .port p => p.chars

/-- The address, or the port, as a number. -/
def RangeStart.number : RangeStart → Nat
  | .address a b c d _ _ _ _ =>
      a.value * 16777216 + b.value * 65536 + c.value * 256 + d.value
  | .port p => p.value

/-- A range line, white space around its parts. -/
structure RangeLine where
  key : RangeKey
  ws : Blank
  name : Name
  named : directive name.upper = some key.directive
  before : Blank
  after : Blank
  start : RangeStart
  fits : start.isAddress = key.isAddress
  /-- The number behind a `+`. -/
  plus : Option Digits
  trail : Blank

/-- `+n`, or nothing. -/
def plusChars : Option Digits → List UInt8
  | none => []
  | some n => 43 :: n.chars

def RangeLine.render (line : RangeLine) : List UInt8 :=
  line.ws.chars ++ (line.name.chars ++ (operator line.before line.after
    ++ (line.start.chars ++ (plusChars line.plus ++ line.trail.chars))))

/-- How many follow: none without a `+`. -/
def RangeLine.count (line : RangeLine) : Nat := (line.plus.map Digits.value).getD 0

/-- **What the line says**: from the address or port, so many more, modulo 2^32. -/
def RangeLine.denotes (line : RangeLine) : Range :=
  { min := UInt32.ofNat line.start.number
    cur := UInt32.ofNat line.start.number
    max := UInt32.ofNat (line.start.number + line.count) }

/-! ## §2. What a branch makes of its line. -/

/-- The minimum a branch stores. -/
def RangeStart.stored : RangeStart → UInt32
  | .address a b c d _ _ _ _ =>
      (UInt32.ofNat a.value <<< 24) ||| (UInt32.ofNat b.value <<< 16)
        ||| (UInt32.ofNat c.value <<< 8) ||| UInt32.ofNat d.value
  | .port p => converted p.value

/-- `counter` behind the conversions: without a `+` it is 0 for a port, and
    what it was for an address. -/
def RangeLine.counter (line : RangeLine) (locals : Locals) : UInt32 :=
  match line.plus with
  | some n => converted n.value
  | none => if line.key.isAddress then locals.counter else 0

/-- The range a branch stores. -/
def RangeLine.stored (line : RangeLine) (locals : Locals) : Range :=
  { min := line.start.stored, cur := line.start.stored
    max := line.start.stored + line.counter locals }

/-- The branch's assignments. -/
def RangeKey.set (config : SimConfig) (range : Range) : RangeKey → SimConfig
  | .srcip => { config with saddr := range }
  | .dstip => { config with daddr := range }
  | .srcport => { config with sport := range }
  | .dstport => { config with dport := range }

@[simp] theorem RangeKey.range_set (key : RangeKey) (config : SimConfig) (range : Range) :
    key.range (key.set config range) = range := by
  cases key <;> rfl

/-- What stands behind a number at the end of a line. -/
theorem trail_stops (trail : Blank) :
    Stops (isDigit 10) (trail.chars ++ [newline])
      ∧ ∀ c : UInt8, isSpace c = false → (trail.chars ++ [newline]).head? ≠ some c := by
  have hspace : ∀ c ∈ trail.chars ++ [newline], isSpace c = true := by
    intro c hc
    rcases List.mem_append.mp hc with hc | hc
    · exact trail.space c hc
    · rw [List.mem_singleton.mp hc]
      rfl
  constructor
  · exact trail.stops_isDigit _ (stops_cons (by decide))
  · intro c hc hhead
    have hin := hspace c (List.mem_of_head? hhead)
    rw [hc] at hin
    exact absurd hin (by decide)

/-- The value of a range line begins with a digit. -/
theorem RangeStart.chars_cons (start : RangeStart) :
    ∃ d cs, start.chars = digitChar d :: cs := by
  have hdigits : ∀ n : Digits, ∃ d cs, n.chars = digitChar d :: cs := by
    intro n
    obtain ⟨d, ds, hd⟩ := List.exists_cons_of_ne_nil n.ne_nil
    exact ⟨d, ds.map digitChar, by unfold Digits.chars; rw [hd]; rfl⟩
  cases start with
  | address a b c d ha hb hc hd =>
      obtain ⟨x, cs, h⟩ := hdigits a
      refine ⟨x, cs ++ 46 :: (b.chars ++ 46 :: (c.chars ++ 46 :: d.chars)), ?_⟩
      show a.chars ++ 46 :: (b.chars ++ 46 :: (c.chars ++ 46 :: d.chars)) = _
      rw [h, List.cons_append]
  | port p => exact hdigits p

/-- The conversions for an address: its octets, and the number behind a `+`. -/
theorem sscanf_address (a b c d : Digits) (plus : Option Digits) (trail : Blank) :
    sscanfU [46, 46, 46, 43] ((a.chars ++ 46 :: (b.chars ++ 46 :: (c.chars ++ 46 :: d.chars)))
        ++ (plusChars plus ++ (trail.chars ++ [newline])))
      = [converted a.value, converted b.value, converted c.value, converted d.value]
        ++ (plus.map (fun n => converted n.value)).toList := by
  obtain ⟨hstop, hhead⟩ := trail_stops trail
  unfold Digits.chars Digits.value
  simp only [List.append_assoc, List.cons_append]
  rw [sscanfU_cons a.ne_nil (by decide), sscanfU_cons b.ne_nil (by decide),
    sscanfU_cons c.ne_nil (by decide)]
  cases plus with
  | none =>
      rw [plusChars, List.nil_append, sscanfU_stop d.ne_nil hstop (hhead 43 (by decide))]
      rfl
  | some n =>
      rw [plusChars, List.cons_append, sscanfU_cons d.ne_nil (by decide)]
      unfold Digits.chars
      rw [sscanfU_nil n.ne_nil hstop]
      rfl

/-- The conversions for a port. -/
theorem sscanf_port (p : Digits) (plus : Option Digits) (trail : Blank) :
    sscanfU [43] (p.chars ++ (plusChars plus ++ (trail.chars ++ [newline])))
      = converted p.value :: (plus.map (fun n => converted n.value)).toList := by
  obtain ⟨hstop, hhead⟩ := trail_stops trail
  unfold Digits.chars Digits.value
  cases plus with
  | none =>
      rw [plusChars, List.nil_append, sscanfU_stop p.ne_nil hstop (hhead 43 (by decide))]
      rfl
  | some n =>
      rw [plusChars, List.cons_append, sscanfU_cons p.ne_nil (by decide)]
      unfold Digits.chars
      rw [sscanfU_nil n.ne_nil hstop]
      rfl

/-- The value of a line, as both formats read it. -/
def RangeLine.tail (line : RangeLine) : List UInt8 :=
  line.start.chars ++ (plusChars line.plus ++ (line.trail.chars ++ [newline]))

theorem RangeLine.tail_cons (line : RangeLine) : ∃ d cs, line.tail = digitChar d :: cs := by
  obtain ⟨d, cs, h⟩ := line.start.chars_cons
  exact ⟨d, _, by unfold RangeLine.tail; rw [h, List.cons_append]⟩

theorem RangeLine.not_atEnd (line : RangeLine) : atEnd line.tail = false := by
  obtain ⟨d, cs, h⟩ := line.tail_cons
  unfold atEnd
  rw [h, dropWhile_of_stops (stops_cons (isSpace_digitChar d))]
  rfl

/-- **The address branch.** -/
theorem RangeLine.scanIp_eq (line : RangeLine) (h : line.key.isAddress = true) (locals : Locals) :
    scanIp locals line.tail = some (line.stored locals) := by
  unfold scanIp
  rw [line.not_atEnd, if_neg (by decide)]
  have hfits := line.fits
  cases hstart : line.start with
  | address a b c d ha hb hc hd =>
      have hscan := sscanf_address a b c d line.plus line.trail
      have hoctet : ∀ n : Digits, n.value ≤ 255 → converted n.value = UInt32.ofNat n.value :=
        fun n hn => converted_of_lt (by omega)
      rw [hoctet a ha, hoctet b hb, hoctet c hc, hoctet d hd] at hscan
      unfold RangeLine.tail
      rw [hstart, RangeStart.chars, hscan]
      unfold RangeLine.stored RangeLine.counter
      rw [hstart, h]
      cases line.plus with
      | none => rfl
      | some n => rfl
  | port p =>
      rw [hstart, h] at hfits
      exact absurd hfits (by simp [RangeStart.isAddress])

/-- **The port branch.** -/
theorem RangeLine.scanPort_eq (line : RangeLine) (h : line.key.isAddress = false)
    (locals : Locals) : scanPort locals line.tail = some (line.stored locals) := by
  unfold scanPort
  rw [line.not_atEnd, if_neg (by decide)]
  have hfits := line.fits
  cases hstart : line.start with
  | address a b c d ha hb hc hd =>
      rw [hstart, h] at hfits
      exact absurd hfits (by simp [RangeStart.isAddress])
  | port p =>
      have hscan := sscanf_port p line.plus line.trail
      unfold RangeLine.tail
      rw [hstart, RangeStart.chars, hscan]
      unfold RangeLine.stored RangeLine.counter
      rw [hstart, h]
      cases line.plus with
      | none => rfl
      | some n => rfl

/-- A character that is no digit, no dot and no plus does not come in the
    value and its range. -/
theorem RangeLine.value_not_mem (line : RangeLine) {x : UInt8} (hdigit : ∀ d, digitChar d ≠ x)
    (hdot : x ≠ 46) (hsign : x ≠ 43) : x ∉ line.start.chars ∧ x ∉ plusChars line.plus := by
  have hdigits : ∀ n : Digits, x ∉ n.chars := by
    intro n h
    obtain ⟨d, _, hd⟩ := List.mem_map.mp h
    exact hdigit d hd
  constructor
  · cases line.start with
    | address a b c d =>
        unfold RangeStart.chars
        simp only [List.mem_append, List.mem_cons, not_or]
        exact ⟨hdigits a, hdot, hdigits b, hdot, hdigits c, hdot, hdigits d⟩
    | port p => exact hdigits p
  · cases line.plus with
    | none => exact List.not_mem_nil
    | some n =>
        intro h
        rcases List.mem_cons.mp h with h | h
        · exact hsign h
        · exact hdigits n h

/-- No character of the value ends the string early. -/
theorem RangeLine.tail_noNul (line : RangeLine) : (0 : UInt8) ∉ line.tail := by
  obtain ⟨hstart, hplus⟩ := line.value_not_mem (show ∀ d, digitChar d ≠ 0 by decide)
    (by decide) (by decide)
  unfold RangeLine.tail
  simp only [List.mem_append, not_or]
  exact ⟨hstart, hplus, line.trail.noNul, by decide⟩

/-- **What a branch makes of its line.** -/
theorem readLine_range (line : RangeLine) (locals : Locals) (config : SimConfig) :
    readLine locals config (line.render ++ [newline])
      = .next (line.key.set config (line.stored locals)) := by
  obtain ⟨d, cs, htail⟩ := line.tail_cons
  have hop : Stops isOperator line.tail := by
    have hdigit : ∀ d : Fin 10, isOperator (digitChar d) = false := by decide
    rw [htail]
    exact stops_cons (hdigit d)
  have hsplit := splitLine_setting line.ws line.before line.after line.name hop line.tail_noNul
  have hrender : line.render ++ [newline]
      = line.ws.chars ++ (line.name.chars ++ (operator line.before line.after ++ line.tail)) := by
    unfold RangeLine.render RangeLine.tail
    simp only [List.append_assoc]
  unfold readLine
  rw [hrender, hsplit]
  simp only [line.named]
  cases hkey : line.key with
  | srcip | dstip =>
      have hscan := line.scanIp_eq (by rw [hkey]; rfl) locals
      simp only [RangeKey.directive, Directive.read, hscan, setRange, RangeKey.set]
  | srcport | dstport =>
      have hscan := line.scanPort_eq (by rw [hkey]; rfl) locals
      simp only [RangeKey.directive, Directive.read, hscan, setRange, RangeKey.set]

/-! ## §3. When that is what the line says. -/

/-- A number `%u` takes over modulo 2^32: it fits an `unsigned long`, or ends
    in 32 ones like the value stored in its place. -/
def Digits.Keeps (n : Digits) : Prop :=
  n.value < 18446744073709551616 ∨ n.value % 4294967296 = 4294967295

/-- **The lines that are read as they are meant**: a port, or a line with a
    `+`, or an address over a `counter` that happens to be 0; in all of them
    numbers that `%u` takes over. -/
structure RangeLine.Meant (line : RangeLine) (locals : Locals) : Prop where
  start : ∀ p, line.start = .port p → p.Keeps
  plus : ∀ n, line.plus = some n → n.Keeps
  counter : line.plus = none → line.key.isAddress = true → locals.counter = 0

/-- Four octets side by side are one number. -/
theorem octets_eq {a b c d : Nat} (ha : a ≤ 255) (hb : b ≤ 255) (hc : c ≤ 255) (hd : d ≤ 255) :
    (UInt32.ofNat a <<< 24) ||| (UInt32.ofNat b <<< 16) ||| (UInt32.ofNat c <<< 8)
        ||| UInt32.ofNat d
      = UInt32.ofNat (a * 16777216 + b * 65536 + c * 256 + d) := by
  have hshift : ∀ (n k : Nat), n * 2 ^ k < 2 ^ 32 → k < 32 →
      (UInt32.ofNat n <<< UInt32.ofNat k).toNat = n <<< k := by
    intro n k hn hk
    have hle : n ≤ n * 2 ^ k := Nat.le_mul_of_pos_right n (Nat.two_pow_pos k)
    rw [UInt32.toNat_shiftLeft, UInt32.toNat_ofNat', UInt32.toNat_ofNat',
      Nat.mod_eq_of_lt (show n < 2 ^ 32 by omega), Nat.mod_eq_of_lt (show k < 2 ^ 32 by omega),
      Nat.mod_eq_of_lt (show k < 32 from hk), Nat.shiftLeft_eq, Nat.mod_eq_of_lt hn]
  have h₁ : (UInt32.ofNat a <<< 24).toNat = a <<< 24 := hshift a 24 (by omega) (by omega)
  have h₂ : (UInt32.ofNat b <<< 16).toNat = b <<< 16 := hshift b 16 (by omega) (by omega)
  have h₃ : (UInt32.ofNat c <<< 8).toNat = c <<< 8 := hshift c 8 (by omega) (by omega)
  have h₄ : (UInt32.ofNat d).toNat = d := by
    rw [UInt32.toNat_ofNat']
    omega
  rw [← UInt32.toNat_inj, UInt32.toNat_or, UInt32.toNat_or, UInt32.toNat_or, h₁, h₂, h₃, h₄,
    Nat.or_assoc, Nat.or_assoc, ← Nat.shiftLeft_add_eq_or_of_lt (show d < 2 ^ 8 by omega)]
  have hcd : c <<< 8 + d < 2 ^ 16 := by
    rw [Nat.shiftLeft_eq]
    omega
  rw [← Nat.shiftLeft_add_eq_or_of_lt hcd]
  have hbcd : b <<< 16 + (c <<< 8 + d) < 2 ^ 24 := by
    rw [Nat.shiftLeft_eq]
    omega
  rw [← Nat.shiftLeft_add_eq_or_of_lt hbcd, UInt32.toNat_ofNat', Nat.shiftLeft_eq,
    Nat.shiftLeft_eq, Nat.shiftLeft_eq]
  omega

/-- An address is stored as its number, and a port if `%u` takes it over. -/
theorem RangeStart.stored_eq_iff (start : RangeStart) :
    start.stored = UInt32.ofNat start.number ↔ ∀ p, start = .port p → p.Keeps := by
  cases start with
  | address a b c d ha hb hc hd =>
      refine ⟨fun _ p h => absurd h (by simp), fun _ => octets_eq ha hb hc hd⟩
  | port p =>
      constructor
      · intro h q hq
        obtain rfl := RangeStart.port.inj hq
        exact (converted_eq_iff p.value).mp h
      · intro h
        exact (converted_eq_iff p.value).mpr (h p rfl)

theorem RangeLine.counter_eq_iff (line : RangeLine) (locals : Locals) :
    line.counter locals = UInt32.ofNat line.count
      ↔ (∀ n, line.plus = some n → n.Keeps)
        ∧ (line.plus = none → line.key.isAddress = true → locals.counter = 0) := by
  unfold RangeLine.counter RangeLine.count
  cases hplus : line.plus with
  | some n =>
      constructor
      · intro h
        refine ⟨fun m hm => ?_, fun hnone => absurd hnone (by simp)⟩
        obtain rfl := Option.some.inj hm
        exact (converted_eq_iff n.value).mp h
      · rintro ⟨h, _⟩
        exact (converted_eq_iff n.value).mpr (h n rfl)
  | none =>
      refine Iff.trans ?_ ⟨fun h => ⟨fun n hn => absurd hn (by simp), fun _ => h⟩,
        fun h => h.2 rfl⟩
      cases line.key.isAddress with
      | true => exact ⟨fun h _ => h, fun h => h rfl⟩
      | false => exact ⟨fun _ h => absurd h (by decide), fun _ => rfl⟩

/-- **A branch stores what its line says exactly when** the line is read as it
    is meant. -/
theorem RangeLine.stored_eq_iff (line : RangeLine) (locals : Locals) :
    line.stored locals = line.denotes ↔ line.Meant locals := by
  have hsum : UInt32.ofNat (line.start.number + line.count)
      = UInt32.ofNat line.start.number + UInt32.ofNat line.count := UInt32.ofNat_add _ _
  unfold RangeLine.stored RangeLine.denotes
  rw [Range.mk.injEq, hsum]
  constructor
  · rintro ⟨hstart, _, hmax⟩
    rw [hstart, UInt32.add_right_inj] at hmax
    obtain ⟨hplus, hcounter⟩ := (line.counter_eq_iff locals).mp hmax
    exact ⟨(line.start.stored_eq_iff).mp hstart, hplus, hcounter⟩
  · intro h
    have hstart := (line.start.stored_eq_iff).mpr h.start
    have hcounter := (line.counter_eq_iff locals).mpr ⟨h.plus, h.counter⟩
    rw [hstart, hcounter]
    exact ⟨rfl, rfl, rfl⟩

/-! ## §4. Behind any lines. -/

/-- A line at which `read_config_file` returns, or the process exits. -/
def halts (line : List UInt8) : Bool :=
  match splitLine line with
  | none => false
  | some (name, p) =>
      (directive name).any
        (fun d => (d.isRange && atEnd p) || (d == .int .pktlen && decide (atoi p > 1600)))

/-- **The loop goes on exactly behind the lines that do not halt it.** -/
theorem readLine_next_iff {locals : Locals} {config : SimConfig} {line : List UInt8} :
    (∃ config', readLine locals config line = .next config') ↔ halts line = false := by
  unfold readLine halts
  cases splitLine line with
  | none => simp
  | some r =>
      obtain ⟨name, p⟩ := r
      cases hd : directive name with
      | none => simp [hd]
      | some d =>
          simp only [hd, Option.any_some]
          cases d with
          | srcip | dstip =>
              cases hend : atEnd p <;>
                simp [Directive.read, Directive.isRange, setRange, scanIp, hend]
          | srcport | dstport =>
              cases hend : atEnd p <;>
                simp [Directive.read, Directive.isRange, setRange, scanPort, hend]
          | proto =>
              simp only [Directive.read]
              split
              · simp [Directive.isRange]
              · split <;> simp [Directive.isRange]
          | srcmac | dstmac | pktdata | linkName => simp [Directive.read, Directive.isRange]
          | int field =>
              cases field with
              | pktlen =>
                  simp only [Directive.read]
                  split
                  · rename_i hlong
                    simp [hlong]
                  · rename_i hlong
                    simp [Directive.isRange, hlong]
              | _ => simp [Directive.read, Directive.isRange]

/-- Over lines that do not halt it the loop comes to those behind. -/
theorem readLoop_through (locals : Nat → Locals) {lines : List (List UInt8)}
    (h : ∀ line ∈ lines, halts line = false) (n : Nat) (config : SimConfig) :
    ∃ config', ∀ more, readLoop locals n (lines ++ more) config
      = readLoop locals (n + lines.length) more config' := by
  induction lines generalizing n config with
  | nil => exact ⟨config, fun _ => rfl⟩
  | cons line lines ih =>
      obtain ⟨config₁, hline⟩ : ∃ config', readLine (locals n) config line = .next config' :=
        readLine_next_iff.mpr (h line List.mem_cons_self)
      obtain ⟨config', hrest⟩ := ih (fun l hl => h l (List.mem_cons_of_mem _ hl)) (n + 1) config₁
      refine ⟨config', fun more => ?_⟩
      rw [List.cons_append, List.length_cons, Nat.add_comm lines.length, ← Nat.add_assoc,
        ← hrest more]
      conv_lhs => unfold readLoop
      rw [hline]

/-- A line that halts it hides everything behind. -/
theorem readLoop_halted (locals : Nat → Locals) {lines : List (List UInt8)}
    (h : ∃ line ∈ lines, halts line = true) (n : Nat) (config : SimConfig) :
    ∃ r, ∀ more, readLoop locals n (lines ++ more) config = r := by
  induction lines generalizing n config with
  | nil =>
      obtain ⟨line, hline, _⟩ := h
      exact absurd hline List.not_mem_nil
  | cons line lines ih =>
      cases hline : readLine (locals n) config line with
      | next config₁ =>
          -- this line is not the one
          have hgo := readLine_next_iff.mp ⟨config₁, hline⟩
          have hrest : ∃ l ∈ lines, halts l = true := by
            obtain ⟨l, hl, hhalt⟩ := h
            rcases List.mem_cons.mp hl with rfl | hl
            · rw [hgo] at hhalt
              exact absurd hhalt (by decide)
            · exact ⟨l, hl, hhalt⟩
          obtain ⟨r, hr⟩ := ih hrest (n + 1) config₁
          refine ⟨r, fun more => ?_⟩
          rw [List.cons_append]
          unfold readLoop
          rw [hline]
          exact hr more
      | returned config₁ =>
          refine ⟨some config₁, fun more => ?_⟩
          rw [List.cons_append]
          unfold readLoop
          rw [hline]
      | exited =>
          refine ⟨none, fun more => ?_⟩
          rw [List.cons_append]
          unfold readLoop
          rw [hline]

/-- The lines in front of a range line, as `fgets` reads them. -/
def readsOf (front : List UInt8) : List (List UInt8) := fgetsLines (bufsiz - 1) front

/-- **`read_config_file` reads the line**, leaves `config'` and goes on: for
    everything that may stand behind the line. -/
def ReadsLine (locals : Nat → Locals) (config : SimConfig) (front : List UInt8)
    (line : RangeLine) (config' : SimConfig) : Prop :=
  ∀ behind, readConfigFile locals (front ++ (line.render ++ newline :: behind)) config
    = readLoop locals ((readsOf front).length + 1) (readsOf behind) config'

/-- A range line has no newline inside. -/
theorem RangeLine.render_inLine (line : RangeLine) : newline ∉ line.render := by
  have hname : newline ∉ line.name.chars :=
    fun h => absurd (line.name.nameChar newline h) (by decide)
  have hop : newline ∉ operator line.before line.after := by
    intro h
    rcases List.mem_append.mp h with h | h
    · exact line.before.inLine h
    · rcases List.mem_cons.mp h with h | h
      · exact absurd h (by decide)
      · exact line.after.inLine h
  obtain ⟨hstart, hplus⟩ := line.value_not_mem (show ∀ d, digitChar d ≠ newline by decide)
    (by decide) (by decide)
  unfold RangeLine.render
  simp only [List.mem_append, not_or]
  exact ⟨line.ws.inLine, hname, hop, hstart, hplus, line.trail.inLine⟩

/-- The lines of such a file. -/
theorem readsOf_append {front : List UInt8} (hfront : WholeLines front) {line : RangeLine}
    (hlen : line.render.length ≤ bufsiz - 2) (behind : List UInt8) :
    readsOf (front ++ (line.render ++ newline :: behind))
      = readsOf front ++ (line.render ++ [newline]) :: readsOf behind := by
  have hfirst := fgetsLines_line (n := 8190) line.render_inLine behind hlen
  unfold readsOf
  show fgetsLines (8190 + 1) _ = fgetsLines (8190 + 1) front ++ _
  rw [fgetsLines_wholeLines hfront, hfirst]
  rfl

/-- Where nothing halts the reader in front of a range line, it reads it, and
    stores what the branch makes of it. -/
theorem readsLine_of_through (locals : Nat → Locals) (config : SimConfig) {front : List UInt8}
    (hfront : WholeLines front) {line : RangeLine} (hlen : line.render.length ≤ bufsiz - 2)
    (hgo : ∀ l ∈ readsOf front, halts l = false) :
    ∃ c, ReadsLine locals config front line
      (line.key.set c (line.stored (locals (readsOf front).length))) := by
  obtain ⟨c, hrun⟩ := readLoop_through locals hgo 0 config
  refine ⟨c, fun behind => ?_⟩
  show readLoop locals 0 (readsOf _) config = _
  rw [readsOf_append hfront hlen, hrun, Nat.zero_add]
  conv_lhs => unfold readLoop
  rw [readLine_range]

/-- A line that is read has nothing in front that halts the reader. -/
theorem ReadsLine.through {locals : Nat → Locals} {config config' : SimConfig}
    {front : List UInt8} (hfront : WholeLines front) {line : RangeLine}
    (hlen : line.render.length ≤ bufsiz - 2) (h : ReadsLine locals config front line config') :
    ∀ l ∈ readsOf front, halts l = false := by
  intro l hl
  by_contra hhalt
  rw [Bool.not_eq_false] at hhalt
  obtain ⟨r, hr⟩ := readLoop_halted locals ⟨l, hl, hhalt⟩ 0 config
  have hboth : ∀ behind, readLoop locals ((readsOf front).length + 1) (readsOf behind) config'
      = r := by
    intro behind
    rw [← h behind]
    show readLoop locals 0 (readsOf _) config = r
    rw [readsOf_append hfront hlen, hr]
  -- nothing behind it ends well, and a length over 1600 ends the process
  have hnothing : some config' = r := hboth []
  have hexit : none = r := hboth (ascii "PKTLEN=1601\n")
  rw [← hnothing] at hexit
  exact absurd hexit (by simp)

/-- A line is read in one way. -/
theorem ReadsLine.unique {locals : Nat → Locals} {config c c' : SimConfig} {front : List UInt8}
    {line : RangeLine} (h : ReadsLine locals config front line c)
    (h' : ReadsLine locals config front line c') : c = c' := by
  have h₀ : some c = some c' := (h []).symm.trans (h' [])
  exact Option.some.inj h₀

/-- **RANGE LINES MEAN WHAT THEY SAY EXACTLY WHEN** no line in front halts the
    reader, and the line itself is read as it is meant: behind any lines, for
    any record, and whatever the locals hold. -/
theorem readConfigFile_range_iff {locals : Nat → Locals} {config : SimConfig}
    {front : List UInt8} (hfront : WholeLines front) (line : RangeLine)
    (hlen : line.render.length ≤ bufsiz - 2) :
    (∃ config', ReadsLine locals config front line config'
        ∧ line.key.range config' = line.denotes)
      ↔ (∀ l ∈ readsOf front, halts l = false)
        ∧ line.Meant (locals (readsOf front).length) := by
  constructor
  · rintro ⟨config', hreads, hrange⟩
    have hgo := hreads.through hfront hlen
    obtain ⟨c, hstored⟩ := readsLine_of_through locals config hfront hlen hgo
    rw [hreads.unique hstored, RangeKey.range_set] at hrange
    exact ⟨hgo, (line.stored_eq_iff _).mp hrange⟩
  · rintro ⟨hgo, hmeant⟩
    obtain ⟨c, hstored⟩ := readsLine_of_through locals config hfront hlen hgo
    refine ⟨_, hstored, ?_⟩
    rw [RangeKey.range_set]
    exact (line.stored_eq_iff _).mpr hmeant

/-! ## §5. An address and a port without a `+`. -/

/-- The digits of a number below 10. -/
def digit (n : Nat) : Fin 10 := ⟨n % 10, Nat.mod_lt n (by decide)⟩

/-- `SRCIP=10.0.0.1`. -/
def addressLine : RangeLine where
  key := .srcip
  ws := noBlank
  name :=
    { chars := ascii "SRCIP", ne_nil := by decide
      nameChar := List.all_eq_true.mp (show (ascii "SRCIP").all isNameChar = true by decide)
      noNul := by decide, noHash := by decide }
  named := by decide
  before := noBlank
  after := noBlank
  start := .address ⟨[digit 1, digit 0], by decide⟩ ⟨[digit 0], by decide⟩
    ⟨[digit 0], by decide⟩ ⟨[digit 1], by decide⟩
    (by decide) (by decide) (by decide) (by decide)
  fits := rfl
  plus := none
  trail := noBlank

/-- `SRCPORT=5000`. -/
def portLine : RangeLine where
  key := .srcport
  ws := noBlank
  name :=
    { chars := ascii "SRCPORT", ne_nil := by decide
      nameChar := List.all_eq_true.mp (show (ascii "SRCPORT").all isNameChar = true by decide)
      noNul := by decide, noHash := by decide }
  named := by decide
  before := noBlank
  after := noBlank
  start := .port ⟨[digit 5, digit 0, digit 0, digit 0], by decide⟩
  fits := rfl
  plus := none
  trail := noBlank

/-- The port is read as it is meant, behind an address and over a stack that
    holds sevens. -/
theorem portLine_meant :
    ∃ config', ReadsLine (fun _ => ⟨7, 7⟩) zeroConfig (ascii "SRCIP=10.0.0.1\n") portLine config'
      ∧ config'.sport = ⟨5000, 5000, 5000⟩ := by
  have hgo : ∀ l ∈ readsOf (ascii "SRCIP=10.0.0.1\n"), halts l = false := by decide
  have hmeant : portLine.Meant ⟨7, 7⟩ := by
    refine ⟨fun p hp => ?_, fun n hn => absurd hn (by simp [portLine]),
      fun _ h => absurd h (by decide)⟩
    obtain rfl := RangeStart.port.inj hp
    exact Or.inl (by decide)
  obtain ⟨config', hreads, hrange⟩ :
      ∃ config', ReadsLine (fun _ => ⟨7, 7⟩) zeroConfig (ascii "SRCIP=10.0.0.1\n") portLine config'
        ∧ portLine.key.range config' = portLine.denotes :=
    (readConfigFile_range_iff (Or.inr (by decide)) portLine (by decide)).mpr ⟨hgo, hmeant⟩
  exact ⟨config', hreads, hrange⟩

/-- **An address without a `+` ends where the stack says**: with 7 left in
    `counter` the range is seven addresses too long. -/
theorem addressLine_not_meant :
    readConfigFile (fun _ => ⟨7, 0⟩) (ascii "SRCIP=10.0.0.1\n") zeroConfig
        = some { zeroConfig with saddr := ⟨0x0A000001, 0x0A000001, 0x0A000008⟩ }
      ∧ ¬ ∀ (locals : Nat → Locals) (config : SimConfig) (front : List UInt8) (line : RangeLine),
        WholeLines front → line.render.length ≤ bufsiz - 2 →
        (∀ l ∈ readsOf front, halts l = false) →
        ∃ config', ReadsLine locals config front line config'
          ∧ line.key.range config' = line.denotes := by
  refine ⟨rfl, fun hall => ?_⟩
  have hgo : ∀ l ∈ readsOf [], halts l = false := fun l hl => absurd hl List.not_mem_nil
  have hmeant := ((readConfigFile_range_iff (Or.inl rfl) addressLine (by decide)).mp
    (hall (fun _ => ⟨7, 0⟩) zeroConfig [] addressLine (Or.inl rfl) (by decide) hgo)).2
  exact absurd (hmeant.counter rfl rfl) (by decide)

end FreePacket.ConfigFile
