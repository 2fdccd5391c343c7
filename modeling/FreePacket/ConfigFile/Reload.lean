/-
  FreePacket.ConfigFile.Reload
  ────────────────────────────
  **THE STARTUP READER AND THE HOT RELOAD on one text.**

  `read_config_file` gives up at the first `SRCIP`, `DSTIP`, `SRCPORT` or
  `DSTPORT` line without a value and returns what it has.
  `read_config_simple` has no such line and reads on.  Up to that line both
  give the four common members the same values.

  Main results:
    * `readLoop_simple` — what the startup reader leaves in these members.
    * `readers_agree_iff` — a reload of the same text changes nothing exactly
      when no line behind that point brings a new value.
-/
import FreePacket.ConfigFile.Reader

namespace FreePacket.ConfigFile

open FreePacket.Lib FreePacket.Lib.CString

/-! ## §1. Where the startup reader stops. -/

/-- The directives whose conversion may meet the end of the text. -/
def Directive.isRange : Directive → Bool
  | .srcip | .dstip | .srcport | .dstport => true
  | _ => false

/-- A line at which `read_config_file` returns. -/
def stops (line : List UInt8) : Bool :=
  match splitLine line with
  | none => false
  | some (name, p) => (directive name).any Directive.isRange && atEnd p

/-- The lines in front of the first such line, and those from it on. -/
def frontLines (text : List UInt8) : List (List UInt8) :=
  (fgetsLines (bufsiz - 1) text).takeWhile (fun line => !stops line)

def behindLines (text : List UInt8) : List (List UInt8) :=
  (fgetsLines (bufsiz - 1) text).dropWhile (fun line => !stops line)

theorem front_append_behind (text : List UInt8) :
    frontLines text ++ behindLines text = fgetsLines (bufsiz - 1) text :=
  List.takeWhile_append_dropWhile

/-- A range is missing exactly at the end of the text. -/
theorem scanIp_eq_none_iff (locals : Locals) (p : List UInt8) :
    scanIp locals p = none ↔ atEnd p = true := by
  unfold scanIp
  split <;> simp_all

theorem scanPort_eq_none_iff (locals : Locals) (p : List UInt8) :
    scanPort locals p = none ↔ atEnd p = true := by
  unfold scanPort
  split <;> simp_all

theorem setRange_returned_iff {config config' : SimConfig} {range : Option Range}
    {set : Range → SimConfig} :
    setRange config range set = .returned config' ↔ range = none ∧ config' = config := by
  cases range with
  | none => simp [setRange, eq_comm]
  | some r => simp [setRange]

/-- **The lines at which `read_config_file` returns**, with the record as it is. -/
theorem readLine_returned_iff {locals : Locals} {config config' : SimConfig}
    {line : List UInt8} :
    readLine locals config line = .returned config' ↔ stops line = true ∧ config' = config := by
  unfold readLine stops
  cases splitLine line with
  | none => simp
  | some r =>
      obtain ⟨name, p⟩ := r
      cases hd : directive name with
      | none => simp [hd]
      | some d =>
          simp only [hd, Option.any_some, Bool.and_eq_true]
          cases d with
          | srcip | dstip =>
              simp [Directive.read, Directive.isRange, setRange_returned_iff, scanIp_eq_none_iff]
          | srcport | dstport =>
              simp [Directive.read, Directive.isRange, setRange_returned_iff, scanPort_eq_none_iff]
          | proto =>
              simp only [Directive.read, Directive.isRange]
              split
              · simp
              · split <;> simp
          | srcmac | dstmac | pktdata | linkName => simp [Directive.read, Directive.isRange]
          | int field =>
              cases field with
              | pktlen =>
                  simp only [Directive.read, Directive.isRange]
                  split <;> simp
              | _ => simp [Directive.read, Directive.isRange]

/-! ## §2. The four common members. -/

/-- The last value lines give a member in `read_config_simple`. -/
def lastSimple (field : IntField) (lines : List (List UInt8)) : Option Int32 :=
  lastOf field (lines.filterMap simpleAssign)

theorem lastSimple_append (field : IntField) (lines lines' : List (List UInt8)) :
    lastSimple field (lines ++ lines')
      = (lastSimple field lines').or (lastSimple field lines) := by
  unfold lastSimple
  rw [List.filterMap_append, lastOf_append]

theorem lastSimple_cons (field : IntField) (line : List UInt8) (lines : List (List UInt8)) :
    lastSimple field (line :: lines)
      = (lastSimple field lines).or (lastSimple field [line]) :=
  lastSimple_append field [line] lines

/-- A line that assigns nothing. -/
theorem lastSimple_of_none {line : List UInt8} (h : simpleAssign line = none) (field : IntField) :
    lastSimple field [line] = none := by
  unfold lastSimple
  rw [List.filterMap_cons_none h]
  rfl

/-- A line that assigns one member. -/
theorem lastSimple_of_some {line : List UInt8} {g : IntField} {value : Int32}
    (h : simpleAssign line = some (g, value)) (field : IntField) :
    lastSimple field [line] = if g = field then some value else none := by
  unfold lastSimple
  rw [List.filterMap_cons_some h]
  exact lastOf_singleton field (g, value)

/-- Only the members `read_config_simple` knows are given a value. -/
theorem simpleField_of_lastSimple {field : IntField} {lines : List (List UInt8)} {value : Int32}
    (h : lastSimple field lines = some value) : ∃ name, simpleField name = some field := by
  obtain ⟨a, ha, _⟩ := Option.map_eq_some_iff.mp h
  obtain ⟨hmem, hfield⟩ := List.mem_filter.mp (List.mem_of_getLast? ha)
  obtain ⟨line, _, hline⟩ := List.mem_filterMap.mp hmem
  unfold simpleAssign at hline
  split at hline
  · exact absurd hline (by simp)
  · rename_i name p _
    obtain ⟨g, hg, heq⟩ := Option.map_eq_some_iff.mp hline
    refine ⟨name, ?_⟩
    rw [hg, ← eq_of_beq hfield, ← heq]

/-- **The hot reload** leaves the last values of the text. -/
theorem foldl_simpleLine (config : SimConfig) (lines : List (List UInt8)) :
    lines.foldl simpleLine config
      = { config with int := fun field => (lastSimple field lines).getD (config.int field) } := by
  have hassigns : lines.foldl simpleLine config
      = (lines.filterMap simpleAssign).foldl (fun c a => c.setInt a.1 a.2) config := by
    induction lines generalizing config with
    | nil => rfl
    | cons line lines ih =>
        rw [List.foldl_cons, ih]
        unfold simpleLine
        cases h : simpleAssign line with
        | none => rw [List.filterMap_cons_none h]
        | some a => rw [List.filterMap_cons_some h, List.foldl_cons]
  rw [hassigns, foldl_setInt]
  rfl

/-- One line that the startup reader goes on from. -/
theorem readLine_simple {locals : Locals} {config config' : SimConfig} {line : List UInt8}
    (h : readLine locals config line = .next config') {name : List UInt8} {field : IntField}
    (hfield : simpleField name = some field) :
    config'.int field = (lastSimple field [line]).getD (config.int field) := by
  unfold readLine at h
  cases hsplit : splitLine line with
  | none =>
      have hassign : simpleAssign line = none := by
        unfold simpleAssign
        rw [hsplit]
      rw [hsplit] at h
      rw [lastSimple_of_none hassign, ← LineResult.next.inj h]
      rfl
  | some r =>
      obtain ⟨key, p⟩ := r
      have hassign : simpleAssign line = (simpleField key).map (fun g => (g, atoi p)) := by
        unfold simpleAssign
        rw [hsplit]
      simp only [hsplit] at h
      -- the keyword means the member to both readers or to none
      have hboth : simpleField key = some field ↔ directive key = some (.int field) :=
        ⟨directive_of_simpleField, fun hd => simpleField_of_directive hd hfield⟩
      have hint : config'.int field
          = if directive key = some (.int field) then atoi p else config.int field := by
        cases hd : directive key with
        | none =>
            rw [hd] at h
            rw [if_neg (by simp), ← LineResult.next.inj h]
        | some d =>
            rw [hd] at h
            rw [Directive.read_int h field]
            simp only [Option.some.injEq]
      rw [hint]
      cases hs : simpleField key with
      | none =>
          rw [hs] at hassign hboth
          rw [lastSimple_of_none hassign, if_neg (fun hd => absurd (hboth.mpr hd) (by simp))]
          rfl
      | some g =>
          rw [hs] at hassign hboth
          rw [lastSimple_of_some hassign]
          by_cases hg : g = field
          · rw [if_pos hg, if_pos (hboth.mp (congrArg some hg))]
            rfl
          · rw [if_neg hg, if_neg (fun hd => hg (Option.some.inj (hboth.mpr hd)))]
            rfl

/-- **What the startup reader leaves in a common member**: the last value in
    front of the line it stops at. -/
theorem readLoop_simple {locals : Nat → Locals} {n : Nat} {lines : List (List UInt8)}
    {config config' : SimConfig} (h : readLoop locals n lines config = some config')
    {name : List UInt8} {field : IntField} (hfield : simpleField name = some field) :
    config'.int field
      = (lastSimple field (lines.takeWhile (fun line => !stops line))).getD
          (config.int field) := by
  induction lines generalizing n config with
  | nil =>
      rw [← Option.some.inj h]
      rfl
  | cons line lines ih =>
      unfold readLoop at h
      cases hline : readLine (locals n) config line with
      | next config₁ =>
          rw [hline] at h
          -- the reader went on, so the line is one of those in front
          have hgo : stops line = false := by
            by_contra hstop
            have hret : readLine (locals n) config line = .returned config :=
              readLine_returned_iff.mpr ⟨Bool.not_eq_false _ ▸ hstop, rfl⟩
            rw [hline] at hret
            exact absurd hret (by simp)
          have hfront : (line :: lines).takeWhile (fun line => !stops line)
              = line :: lines.takeWhile (fun line => !stops line) := by
            rw [List.takeWhile_cons, hgo]
            rfl
          rw [hfront, lastSimple_cons, ih h, readLine_simple hline hfield]
          cases lastSimple field (lines.takeWhile (fun line => !stops line)) with
          | none => rw [Option.none_or, Option.getD_none]
          | some value => rfl
      | returned config₁ =>
          rw [hline] at h
          -- nothing from here on is read
          obtain ⟨hstop, hsame⟩ := readLine_returned_iff.mp hline
          rw [List.takeWhile_cons, hstop, ← Option.some.inj h, hsame]
          rfl
      | exited =>
          rw [hline] at h
          exact absurd h (by simp)

/-! ## §3. When a reload changes nothing. -/

/-- **The two readers agree on a text** on which `read_config_file` returns
    exactly when every common member that lines behind the first empty range
    line set gets there, last, the value it has in front of that line. -/
theorem readers_agree_iff {locals : Nat → Locals} {text : List UInt8} {config config' : SimConfig}
    (hread : readConfigFile locals text config = some config') {mtime old : Int64}
    (hnew : mtime ≠ old) :
    readConfigSimple (some ⟨mtime, some text⟩) old config' = some (mtime, config')
      ↔ ∀ field value, lastSimple field (behindLines text) = some value →
          value = (lastSimple field (frontLines text)).getD (config.int field) := by
  have hreload : readConfigSimple (some ⟨mtime, some text⟩) old config'
      = some (mtime, (fgetsLines (bufsiz - 1) text).foldl simpleLine config') := if_pos hnew
  rw [hreload, Option.some.injEq, Prod.mk.injEq, foldl_simpleLine]
  -- only the members set with `atoi` can change, and each on its own
  have hsame : { config' with
        int := fun field => (lastSimple field (fgetsLines (bufsiz - 1) text)).getD
          (config'.int field) } = config'
      ↔ ∀ field, (lastSimple field (fgetsLines (bufsiz - 1) text)).getD (config'.int field)
          = config'.int field := by
    constructor
    · intro h field
      exact congrFun (congrArg SimConfig.int h) field
    · intro h
      rw [funext h]
  rw [hsame, ← front_append_behind]
  constructor
  · rintro ⟨_, h⟩ field value hbehind
    obtain ⟨name, hname⟩ := simpleField_of_lastSimple hbehind
    have hleft := readLoop_simple hread hname
    have hfield := h field
    rw [lastSimple_append, hbehind, hleft] at hfield
    exact hfield
  · intro h
    refine ⟨rfl, fun field => ?_⟩
    rw [lastSimple_append]
    cases hbehind : lastSimple field (behindLines text) with
    | some value =>
        obtain ⟨name, hname⟩ := simpleField_of_lastSimple hbehind
        rw [readLoop_simple hread hname]
        exact h field value hbehind
    | none =>
        rw [Option.none_or]
        cases hfront : lastSimple field (frontLines text) with
        | none => rfl
        | some value =>
            -- what was set in front of the line is what the startup reader left
            obtain ⟨name, hname⟩ := simpleField_of_lastSimple hfront
            have hleft := readLoop_simple hread hname
            show value = config'.int field
            rw [hleft]
            show value = (lastSimple field (frontLines text)).getD _
            rw [hfront]
            rfl

/-- One line, read at the start and again. -/
theorem oneLine_readers_agree :
    readConfigFile (fun _ => ⟨0, 0⟩) (ascii "PIPE_DEPTH=5\n") zeroConfig
        = some (zeroConfig.setInt .pipeDepth 5)
      ∧ readConfigSimple (some ⟨1, some (ascii "PIPE_DEPTH=5\n")⟩) 0
          (zeroConfig.setInt .pipeDepth 5) = some (1, zeroConfig.setInt .pipeDepth 5) := by
  have hread : readConfigFile (fun _ => ⟨0, 0⟩) (ascii "PIPE_DEPTH=5\n") zeroConfig
      = some (zeroConfig.setInt .pipeDepth 5) := rfl
  have hbehind : behindLines (ascii "PIPE_DEPTH=5\n") = [] := by decide
  refine ⟨hread, (readers_agree_iff hread (by decide)).mpr ?_⟩
  intro field value h
  rw [hbehind] at h
  exact absurd h (by simp [lastSimple, lastOf])

/-- A range without a value hides the line behind it from the startup reader
    only: the pipe has the depth 2 of `init_config_s` until the first reload. -/
theorem emptyRange_readers_differ :
    readConfigFile (fun _ => ⟨0, 0⟩) (ascii "SRCIP=\nPIPE_DEPTH=5\n") (initConfigS zeroConfig)
        = some (initConfigS zeroConfig)
      ∧ readConfigSimple (some ⟨1, some (ascii "SRCIP=\nPIPE_DEPTH=5\n")⟩) 0
          (initConfigS zeroConfig) ≠ some (1, initConfigS zeroConfig) := by
  have hreload : readConfigSimple (some ⟨1, some (ascii "SRCIP=\nPIPE_DEPTH=5\n")⟩) 0
      (initConfigS zeroConfig) = some (1, (initConfigS zeroConfig).setInt .pipeDepth 5) := rfl
  refine ⟨rfl, ?_⟩
  rw [hreload]
  intro h
  have hdepth := congrArg (fun r => r.map (fun r => r.2.int .pipeDepth)) h
  exact absurd hdepth (by decide)

end FreePacket.ConfigFile
