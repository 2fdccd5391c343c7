/-
  FreePacket.ConfigFile.Startup
  ─────────────────────────────
  **THREE LAYERS OF CONFIGURATION (`main` and `parse_args` of
  `simulation.c`).**

  `main` takes the defaults, lets the configuration file override them and the
  command line override the file.  The command line can override seven members
  only: six of the long options are known to `getopt_long` and set nothing,
  since their names are not the ones `parse_args` compares with, or since the
  `break` stands in front of the assignment.

  Main results:
    * `optionCase_eq` — what an option that `getopt_long` returns sets.
    * `startUp_layers` — the three layers, on every command line.
-/
import FreePacket.ConfigFile.Reader
import FreePacket.Lib.Getopt
import Mathlib.Tactic.IntervalCases

namespace FreePacket.ConfigFile

open FreePacket.Lib FreePacket.Lib.CString FreePacket.Lib.Getopt

/-! ## §1. `parse_args`. -/

/-- The value of a character constant. -/
def letter (c : Char) : UInt8 := UInt8.ofNat c.toNat

/-- `long_options`. -/
def longOptions : List LongOption :=
  [⟨ascii "generator_nums", true, letter 'g'⟩,
    ⟨ascii "parser_nums", true, letter 'p'⟩,
    ⟨ascii "pktlen", true, letter 'o'⟩,
    ⟨ascii "config", true, letter 'o'⟩,
    ⟨ascii "manager_nums", true, letter 'm'⟩,
    ⟨ascii "gpool_size", true, letter 'o'⟩,
    ⟨ascii "pqueue_length", true, letter 'q'⟩,
    ⟨ascii "ppool_size", true, letter 'o'⟩,
    ⟨ascii "mqueue_length", true, letter 'q'⟩,
    ⟨ascii "mpool_size", true, letter 'o'⟩,
    ⟨ascii "mhash_length", true, letter 'h'⟩,
    ⟨ascii "mbuffer_size", true, letter 'b'⟩,
    ⟨ascii "packet_generator_mode", true, letter 'c'⟩]

/-- The option string `parse_args` passes. -/
def shortOptions : List UInt8 := ascii "g:p:m:o:q:h:b:"

/-- The `switch` of `parse_args`. -/
def optionCase (config : SimConfig) : Returned → SimConfig
  | .unknown => config
  | .option c optarg optionIndex =>
      let value := atoi (optarg.getD [])
      -- `option_index` is 0 where nothing is stored to it
      let name := ((longOptions[optionIndex.getD 0]?).map LongOption.name).getD []
      if c = letter 'g' then config.setInt .generatorNums value
      else if c = letter 'p' then config.setInt .parserNums value
      else if c = letter 'm' then config.setInt .managerNums value
      else if c = letter 'o' then
        if name = ascii "gpool_size" then config.setInt .generatorPoolSize value
        else if name = ascii "parser_pool_size" then config.setInt .parserPoolSize value
        else if name = ascii "manager_pool_size" then config.setInt .managerPoolSize value
        else if name = ascii "pktlen" then config.setInt .pktlen value
        else if name = ascii "config" then config
        else config
      else if c = letter 'q' then
        if name = ascii "pqueue_length" then config.setInt .parserQueueLength value
        else if name = ascii "manager_queue_length" then config.setInt .managerQueueLength value
        else config
      -- the assignments of these two cases stand behind their `break`
      else if c = letter 'h' then config
      else if c = letter 'b' then config
      else if c = letter 'c' then config.setInt .packetGeneratorMode value
      else config

/-- What `parse_args` is given back, from `argv[1]` on. -/
def optionsOf (argv : List (List UInt8)) : List Returned :=
  returns shortOptions longOptions ⟨[], argv.tail⟩

/-- `parse_args`. -/
def parseArgs (argv : List (List UInt8)) (config : SimConfig) : SimConfig :=
  (optionsOf argv).foldl optionCase config

/-! ## §2. `main`, up to the threads. -/

/-- `CONFIG_FILE`. -/
def configFile : List UInt8 := ascii "./generator.conf"

/-- The word `main` looks for. -/
def configWord : List UInt8 := ascii "--config"

/-- The loop of `main` over `argv[1]`, `argv[2]`, … that finds the name of the
    configuration file. -/
def findConfig : List (List UInt8) → List UInt8 → List UInt8
  | arg :: next :: rest, file =>
      if arg = configWord then findConfig rest next else findConfig (next :: rest) file
  | _, file => file

/-- `main` up to the creation of the groups, `fopen` being what the files hold;
    `none` where the process exits. -/
def startUp (fopen : List UInt8 → Option (List UInt8)) (locals : Nat → Locals)
    (argv : List (List UInt8)) : Option SimConfig :=
  match fopen (findConfig argv.tail configFile) with
  | none => none
  | some text =>
      match readConfigFile locals text (initConfigS zeroConfig) with
      | none => none
      | some config =>
          let config := parseArgs argv config
          if config.int .generatorNums > config.int .parserNums then none else some config

/-! ## §3. What an option sets. -/

/-- The member a long option sets, in the order of `long_options`. -/
def longFields : List (Option IntField) :=
  [some .generatorNums, some .parserNums, some .pktlen, none, some .managerNums,
    some .generatorPoolSize, some .parserQueueLength, none, none, none, none, none,
    some .packetGeneratorMode]

/-- The members the short options set. -/
def shortFields : List (UInt8 × IntField) :=
  [(letter 'g', .generatorNums), (letter 'p', .parserNums), (letter 'm', .managerNums)]

/-- The member a short option sets. -/
def shortField (c : UInt8) : Option IntField :=
  (shortFields.find? (fun p => p.1 == c)).map Prod.snd

/-- The member an option sets, and its value. -/
def assignment : Returned → Option (IntField × Int32)
  | .option _ optarg (some index) =>
      ((longFields[index]?).join).map (fun field => (field, atoi (optarg.getD [])))
  | .option c optarg none => (shortField c).map (fun field => (field, atoi (optarg.getD [])))
  | .unknown => none

/-- The members the command line can set. -/
def commandFields : List IntField :=
  [.generatorNums, .parserNums, .pktlen, .managerNums, .generatorPoolSize, .parserQueueLength,
    .packetGeneratorMode]

theorem assignment_mem {r : Returned} {a : IntField × Int32} (h : assignment r = some a) :
    a.1 ∈ commandFields := by
  have hlong : ∀ f ∈ longFields, ∀ field, f = some field → field ∈ commandFields := by decide
  have hshort : ∀ p ∈ shortFields, p.2 ∈ commandFields := by decide
  unfold assignment at h
  split at h
  · obtain ⟨field, hfield, rfl⟩ := Option.map_eq_some_iff.mp h
    exact hlong _ (List.mem_of_getElem? (Option.join_eq_some_iff.mp hfield)) field rfl
  · obtain ⟨field, hfield, rfl⟩ := Option.map_eq_some_iff.mp h
    obtain ⟨p, hp, rfl⟩ := Option.map_eq_some_iff.mp hfield
    exact hshort p (List.mem_of_find?_eq_some hp)
  · exact absurd h (by simp)

/-- The letters of the option string. -/
theorem shortHasArg_cases {c : UInt8} {hasArg : Bool}
    (h : shortHasArg shortOptions c = some hasArg) :
    c ∈ [letter 'g', letter 'p', letter 'm', letter 'o', letter 'q', letter 'h', letter 'b'] := by
  have hall : ∀ d ∈ shortOptions, shortHasArg shortOptions d = none ∨ d ∈
      [letter 'g', letter 'p', letter 'm', letter 'o', letter 'q', letter 'h', letter 'b'] := by
    decide +kernel
  rcases hall c (shortHasArg_mem h) with hnone | hletter
  · rw [hnone] at h
    exact absurd h (by simp)
  · exact hletter

/-- **An option that `getopt_long` returns sets its member**, or nothing. -/
theorem optionCase_eq {r : Returned} (h : r.FromTables shortOptions longOptions)
    (config : SimConfig) :
    optionCase config r
      = (assignment r).toList.foldl (fun c a => c.setInt a.1 a.2) config := by
  cases r with
  | unknown => rfl
  | option c optarg optionIndex =>
      cases optionIndex with
      | none =>
          obtain ⟨hasArg, hshort, _⟩ := h
          have hletter := shortHasArg_cases hshort
          simp only [List.mem_cons, List.not_mem_nil, or_false] at hletter
          rcases hletter with rfl | rfl | rfl | rfl | rfl | rfl | rfl <;> rfl
      | some index =>
          obtain ⟨option, hoption, hval, _⟩ := h
          have hlt : index < 13 := (List.getElem?_eq_some_iff.mp hoption).1
          rw [← hval]
          interval_cases index <;> obtain rfl := Option.some.inj hoption <;> rfl

/-! ## §4. What a command line sets. -/

/-- The assignments a command line makes, in order. -/
def assignments (argv : List (List UInt8)) : List (IntField × Int32) :=
  (optionsOf argv).filterMap assignment

theorem assignments_mem {argv : List (List UInt8)} {a : IntField × Int32}
    (h : a ∈ assignments argv) : a.1 ∈ commandFields := by
  obtain ⟨r, _, hr⟩ := List.mem_filterMap.mp h
  exact assignment_mem hr

/-- The options one after the other make their assignments. -/
theorem foldl_optionCase {rs : List Returned}
    (h : ∀ r ∈ rs, r.FromTables shortOptions longOptions) (config : SimConfig) :
    rs.foldl optionCase config
      = (rs.filterMap assignment).foldl (fun c a => c.setInt a.1 a.2) config := by
  induction rs generalizing config with
  | nil => rfl
  | cons r rs ih =>
      rw [List.foldl_cons, ih (fun r' hr' => h r' (List.mem_cons_of_mem _ hr')),
        optionCase_eq (h r List.mem_cons_self), List.filterMap_cons]
      cases assignment r with
      | none => rfl
      | some a => rfl

/-- **`parse_args`, on every command line**: the last assignment to a member
    counts, and what is not assigned stays. -/
theorem parseArgs_eq (argv : List (List UInt8)) (config : SimConfig) :
    parseArgs argv config = { config with
      int := fun field => (lastOf field (assignments argv)).getD (config.int field) } := by
  rw [← foldl_setInt]
  exact foldl_optionCase (returns_fromTables _) config

/-- The assignment an item of the command line makes. -/
def itemAssigns (item : Item) : Option (IntField × Int32) :=
  (item.returned longOptions).bind assignment

/-- **A command line written item by item** makes the assignments of its
    items. -/
theorem assignments_words {argv tail : List (List UInt8)} {items : List Item}
    (hitems : ∀ item ∈ items, item.Valid shortOptions longOptions) (htail : Ends tail)
    (hargv : argv.tail = items.flatMap Item.words ++ tail) :
    assignments argv = items.filterMap itemAssigns := by
  unfold assignments optionsOf
  rw [hargv, returns_words hitems htail, List.filterMap_filterMap]
  rfl

/-- **Every long option under its own name**, its argument written either way,
    sets the member at its place. -/
theorem itemAssigns_long {index : Nat} {option : LongOption}
    (h : longOptions[index]? = some option) (joined : Bool) (optarg : List UInt8) :
    itemAssigns (.long option.name joined optarg)
      = ((longFields[index]?).join).map (fun field => (field, atoi optarg)) := by
  have hself : ∀ p ∈ longOptions.zipIdx, findLong longOptions p.1.name = some p := by decide
  have hfind := hself (option, index) (List.mk_mem_zipIdx_iff_getElem?.mpr h)
  unfold itemAssigns
  rw [Item.returned, hfind]
  rfl

/-! ## §5. The file a command line names. -/

/-- The configuration file an item names: only the full word `--config` with
    its argument in the next word counts. -/
def itemFile : Item → Option (List UInt8)
  | .long name false optarg => if name = ascii "config" then some optarg else none
  | _ => none

/-- The argument of another option is not taken for `--config`. -/
def itemClear : Item → Prop
  | .long name false optarg => name = ascii "config" ∨ optarg ≠ configWord
  | .short _ false optarg => optarg ≠ configWord
  | _ => True

/-- Another word is passed over. -/
theorem findConfig_cons {arg : List UInt8} (h : arg ≠ configWord) (rest : List (List UInt8))
    (file : List UInt8) : findConfig (arg :: rest) file = findConfig rest file := by
  cases rest with
  | nil => rfl
  | cons next rest => exact if_neg h

theorem findConfig_absent {rest : List (List UInt8)} (h : configWord ∉ rest)
    (file : List UInt8) : findConfig rest file = file := by
  induction rest with
  | nil => rfl
  | cons arg rest ih =>
      have hne : arg ≠ configWord := fun heq => h (heq ▸ List.mem_cons_self)
      rw [findConfig_cons hne, ih (fun hrest => h (List.mem_cons_of_mem _ hrest))]

/-- An item that does not name the file is passed over. -/
theorem findConfig_words {item : Item} (hvalid : item.Valid shortOptions longOptions)
    (hclear : itemClear item) (hfile : itemFile item = none) (rest : List (List UInt8))
    (file : List UInt8) : findConfig (item.words ++ rest) file = findConfig rest file := by
  cases item with
  | long name joined optarg =>
      cases joined with
      | true =>
          refine findConfig_cons ?_ rest file
          intro heq
          -- the word has a `=`, which `--config` has not
          have hmem : (61 : UInt8) ∈ configWord := by
            rw [← heq]
            simp
          exact absurd hmem (by decide)
      | false =>
          have hname : name ≠ ascii "config" := by
            intro heq
            rw [itemFile, if_pos heq] at hfile
            exact absurd hfile (by simp)
          have hword : 45 :: 45 :: name ≠ configWord := by
            intro heq
            exact hname (List.cons.inj (List.cons.inj heq).2).2
          rw [Item.words, List.cons_append, List.cons_append, List.nil_append,
            findConfig_cons hword, findConfig_cons (hclear.resolve_left hname)]
  | short c joined optarg =>
      obtain ⟨hc, _, _⟩ := hvalid
      have hword : ∀ more, 45 :: c :: more ≠ configWord := by
        intro more heq
        exact hc (List.cons.inj (List.cons.inj heq).2).1
      cases joined with
      | true => exact findConfig_cons (hword optarg) rest file
      | false =>
          rw [Item.words, List.cons_append, List.cons_append, List.nil_append,
            findConfig_cons (hword []), findConfig_cons hclear]
  | other word =>
      refine findConfig_cons ?_ rest file
      intro heq
      have hother : isOther word = true := hvalid
      rw [heq] at hother
      exact absurd hother (by decide)

/-- **The file of a command line written item by item** is the one its last
    `--config` names. -/
theorem findConfig_items {items : List Item} {tail : List (List UInt8)}
    (hitems : ∀ item ∈ items, item.Valid shortOptions longOptions)
    (hclear : ∀ item ∈ items, itemClear item) (htail : configWord ∉ tail) (file : List UInt8) :
    findConfig (items.flatMap Item.words ++ tail) file
      = ((items.filterMap itemFile).getLast?).getD file := by
  induction items generalizing file with
  | nil => exact findConfig_absent htail file
  | cons item items ih =>
      have hrest := ih (fun i hi => hitems i (List.mem_cons_of_mem _ hi))
        (fun i hi => hclear i (List.mem_cons_of_mem _ hi))
      rw [List.flatMap_cons, List.append_assoc]
      cases hfile : itemFile item with
      | none =>
          rw [findConfig_words (hitems item List.mem_cons_self) (hclear item List.mem_cons_self)
            hfile, hrest, List.filterMap_cons_none hfile]
      | some named =>
          rw [List.filterMap_cons_some hfile, List.getLast?_cons]
          unfold itemFile at hfile
          split at hfile
          · rename_i name optarg
            split at hfile
            · rename_i hname
              obtain rfl := Option.some.inj hfile
              rw [Item.words, hname]
              exact hrest _
            · exact absurd hfile (by simp)
          · exact absurd hfile (by simp)

/-! ## §6. The layers. -/

/-- **The three layers of the configuration**: defaults, file, command line. -/
structure StartUpLayers (fopen : List UInt8 → Option (List UInt8)) (locals : Nat → Locals)
    (argv : List (List UInt8)) : Prop where
  /-- The program starts with the file's record, the members of the command
      line replaced, if there are not more generators than parsers. -/
  starts : ∀ config, startUp fopen locals argv = some config ↔
    ∃ text fileConfig, fopen (findConfig argv.tail configFile) = some text
      ∧ readConfigFile locals text (initConfigS zeroConfig) = some fileConfig
      ∧ config = { fileConfig with
          int := fun field => (lastOf field (assignments argv)).getD (fileConfig.int field) }
      ∧ config.int .generatorNums ≤ config.int .parserNums
  /-- The command line replaces seven members at most. -/
  fields : ∀ a ∈ assignments argv, a.1 ∈ commandFields
  /-- A command line written item by item makes the assignments of its items. -/
  written : ∀ (items : List Item) (tail : List (List UInt8)),
    (∀ item ∈ items, item.Valid shortOptions longOptions) → Ends tail →
    argv.tail = items.flatMap Item.words ++ tail → assignments argv = items.filterMap itemAssigns
  /-- And the file is the one its last `--config` names. -/
  named : ∀ (items : List Item) (tail : List (List UInt8)),
    (∀ item ∈ items, item.Valid shortOptions longOptions ∧ itemClear item) →
    configWord ∉ tail → argv.tail = items.flatMap Item.words ++ tail →
    findConfig argv.tail configFile = ((items.filterMap itemFile).getLast?).getD configFile

/-- **DEFAULTS, FILE, COMMAND LINE**: on every command line and every file. -/
theorem startUp_layers (fopen : List UInt8 → Option (List UInt8)) (locals : Nat → Locals)
    (argv : List (List UInt8)) : StartUpLayers fopen locals argv := by
  refine ⟨?_, fun a ha => assignments_mem ha, ?_, ?_⟩
  · intro config
    unfold startUp
    constructor
    · intro h
      split at h
      · exact absurd h (by simp)
      · rename_i text hopen
        split at h
        · exact absurd h (by simp)
        · rename_i fileConfig hread
          dsimp only at h
          split at h
          · exact absurd h (by simp)
          · rename_i hgate
            obtain rfl := Option.some.inj h
            exact ⟨text, fileConfig, hopen, hread, parseArgs_eq argv fileConfig,
              Int32.not_lt.mp hgate⟩
    · rintro ⟨text, fileConfig, hopen, hread, rfl, hgate⟩
      simp only [hopen, hread, parseArgs_eq]
      exact if_neg (Int32.not_lt.mpr hgate)
  · intro items tail hitems htail hargv
    exact assignments_words hitems htail hargv
  · intro items tail hitems htail hargv
    rw [hargv]
    exact findConfig_items (fun i hi => (hitems i hi).1) (fun i hi => (hitems i hi).2) htail _

end FreePacket.ConfigFile
