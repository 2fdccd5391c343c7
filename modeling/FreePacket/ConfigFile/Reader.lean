/-
  FreePacket.ConfigFile.Reader
  ────────────────────────────
  **THE TWO READERS OF THE CONFIGURATION FILE (`config.c`), Intel build.**

  `read_config_file` fills the record at the start, `read_config_simple` is
  called every second by the display and takes over four of its members.
  Both loops read a line with `fgets`, leave at the end of the file, split
  the line into an upper-case name and the text of its value, and compare
  the name with their keywords.

  What `unsigned int counter; uint32_t port;` hold before a conversion stores
  to them is a parameter, one pair for each line.
-/
import FreePacket.ConfigFile.Record
import FreePacket.Lib.CString
import Mathlib.Data.List.Induction
import Mathlib.Data.List.TakeWhile

namespace FreePacket.ConfigFile

open FreePacket.Lib FreePacket.Lib.CString

/-! ## §1. Keywords. -/

/-- What a line is about. -/
inductive Directive where
  | proto
  | srcmac | dstmac
  | srcip | dstip | srcport | dstport
  | pktdata | linkName
  /-- A member set with `atoi`. -/
  | int (field : IntField)
  deriving DecidableEq

/-- The names `read_config_file` compares with, in its order. -/
def keywords : List (List UInt8 × Directive) :=
  [(ascii "PROTO", .proto), (ascii "SRCMAC", .srcmac), (ascii "DSTMAC", .dstmac),
    (ascii "SRCIP", .srcip), (ascii "DSTIP", .dstip),
    (ascii "SRCPORT", .srcport), (ascii "DSTPORT", .dstport),
    (ascii "PKTLEN", .int .pktlen), (ascii "PKTDATA", .pktdata), (ascii "SPEED", .int .speed),
    (ascii "LINK_NAME", .linkName),
    (ascii "GENERATOR_NUMS", .int .generatorNums), (ascii "PARSER_NUMS", .int .parserNums),
    (ascii "MANAGER_NUMS", .int .managerNums),
    (ascii "GENERATOR_POOL_SIZE", .int .generatorPoolSize),
    (ascii "PARSER_QUEUE_LENGTH", .int .parserQueueLength),
    (ascii "PARSER_POOL_SIZE", .int .parserPoolSize),
    (ascii "MANAGER_POOL_SIZE", .int .managerPoolSize),
    (ascii "MANAGER_QUEUE_LENGTH", .int .managerQueueLength),
    (ascii "MANAGER_HASH_LENGTH", .int .managerHashLength),
    (ascii "MANAGER_BUFFER_SIZE", .int .managerBufferSize),
    (ascii "PACKET_GENERATOR_MODE", .int .packetGeneratorMode),
    (ascii "PIPE_DEPTH", .int .pipeDepth), (ascii "SCREEN_DISPLAY", .int .screenDisplay),
    (ascii "SPEED_MODE", .int .speedMode), (ascii "DESTORY_TIME", .int .destoryTime)]

/-- The `strcmp` chain of `read_config_file`. -/
def directive (name : List UInt8) : Option Directive :=
  (keywords.find? (fun k => k.1 == name)).map Prod.snd

/-- The names `read_config_simple` compares with. -/
def simpleKeywords : List (List UInt8 × IntField) :=
  [(ascii "PIPE_DEPTH", .pipeDepth), (ascii "SCREEN_DISPLAY", .screenDisplay),
    (ascii "SPEED_MODE", .speedMode), (ascii "DESTORY_TIME", .destoryTime)]

/-- The `strcmp` chain of `read_config_simple`. -/
def simpleField (name : List UInt8) : Option IntField :=
  (simpleKeywords.find? (fun k => k.1 == name)).map Prod.snd

/-! ## §2. One line. -/

/-- `skip_var_name`: whether a character belongs to a name. -/
def isNameChar (c : UInt8) : Bool := !isSpace c && c != 61

/-- `skip_opeartor`: whether a character stands between name and value. -/
def isOperator (c : UInt8) : Bool := isSpace c || c == 61

/-- The line in the buffer as both loops split it: `pname` in upper case and
    what `p` points to.  `none` for a comment. -/
def splitLine (line : List UInt8) : Option (List UInt8 × List UInt8) :=
  let p := (cstring line).dropWhile isSpace
  if p.head? = some 35 then none
  else some ((p.takeWhile isNameChar).map toUpper, (p.dropWhile isNameChar).dropWhile isOperator)

/-- `counter` and `port` as a line finds them. -/
structure Locals where
  counter : UInt32
  port : UInt32

/-- `sscanf(p,"%u.%u.%u.%u+%u",…)` and what is made of it.  `none` where it
    returns -1. -/
def scanIp (locals : Locals) (p : List UInt8) : Option Range :=
  if atEnd p then none
  else
    let ipaddr := sscanfU [46, 46, 46, 43] p
    let counter := if ipaddr.length = 1 then 0 else ipaddr.getD 4 locals.counter
    let min := (ipaddr.getD 0 0 <<< 24) ||| (ipaddr.getD 1 0 <<< 16)
      ||| (ipaddr.getD 2 0 <<< 8) ||| ipaddr.getD 3 0
    some { min := min, cur := min, max := min + counter }

/-- `sscanf(p,"%u+%u",…)` and what is made of it. -/
def scanPort (locals : Locals) (p : List UInt8) : Option Range :=
  if atEnd p then none
  else
    let ports := sscanfU [43] p
    let port := ports.getD 0 locals.port
    let counter := if ports.length = 1 then 0 else ports.getD 1 locals.counter
    some { min := port, cur := port, max := port + counter }

/-- The loop of `ether_atoe`, for at most `n` more octets. -/
def atoeLoop : Nat → List UInt8 → List UInt8
  | 0, _ => []
  | n + 1, c =>
      (strtoul 16 c).1.toUInt8 ::
        (match (strtoul 16 c).2 with
        | [] => []
        | _ :: rest => atoeLoop n rest)

/-- `ether_atoe`: whether six octets were read, and `e`. -/
def etherAtoe (a : List UInt8) : Bool × Vector UInt8 6 :=
  ((atoeLoop 6 a).length == 6, Vector.ofFn (fun i => (atoeLoop 6 a).getD i 0))

/-- `strcpy` of a string that lies in a line buffer. -/
def copyData (p : List UInt8) : PktData where
  bytes := (cstring p).take (bufsiz - 1)
  noNul := by
    intro h
    have hne := List.mem_takeWhile_imp (List.mem_of_mem_take h)
    exact absurd hne (by decide)
  length_lt := by
    rw [List.length_take]
    exact Nat.lt_of_le_of_lt (Nat.min_le_left _ _) (by decide)

/-- How a line ends. -/
inductive LineResult where
  | next (config : SimConfig)
  /-- `return 0`. -/
  | returned (config : SimConfig)
  /-- `exit(0)`. -/
  | exited

/-- A `SRCIP`, `DSTIP`, `SRCPORT` or `DSTPORT` line: a range, or `return 0`. -/
def setRange (config : SimConfig) (range : Option Range) (set : Range → SimConfig) : LineResult :=
  match range with
  | none => .returned config
  | some range => .next (set range)

/-- The branches of `read_config_file`. -/
def Directive.read (locals : Locals) (config : SimConfig) (p : List UInt8) :
    Directive → LineResult
  | .proto =>
      if strstr (ascii "tcp") p then .next { config with protocol := 6 }
      else if strstr (ascii "udp") p then .next { config with protocol := 17 }
      else .next config
  | .srcmac => .next { config with srcmac := (etherAtoe p).2 }
  | .dstmac => .next { config with dstmac := (etherAtoe p).2 }
  | .srcip => setRange config (scanIp locals p) (fun range => { config with saddr := range })
  | .dstip => setRange config (scanIp locals p) (fun range => { config with daddr := range })
  | .srcport => setRange config (scanPort locals p) (fun range => { config with sport := range })
  | .dstport => setRange config (scanPort locals p) (fun range => { config with dport := range })
  -- the `NULL` that `none` asks for is overwritten at once
  | .pktdata => .next { config with pktData := some (copyData p) }
  -- the last character, the newline as a rule, is cut off; with no value at
  -- all the terminator is stored in front of the block instead
  | .linkName => .next { config with linkName := p.dropLast }
  | .int .pktlen =>
      if (atoi p) > 1600 then .exited else .next (config.setInt .pktlen (atoi p))
  | .int field => .next (config.setInt field (atoi p))

def readLine (locals : Locals) (config : SimConfig) (line : List UInt8) : LineResult :=
  match splitLine line with
  | none => .next config
  | some (name, p) =>
      match directive name with
      | none => .next config
      | some d => d.read locals config p

/-! ## §3. The readers. -/

/-- The loop of `read_config_file` over the lines `fgets` reads, from line `n`
    on.  `none` where the process exits. -/
def readLoop (locals : Nat → Locals) : Nat → List (List UInt8) → SimConfig → Option SimConfig
  | _, [], config => some config
  | n, line :: lines, config =>
      match readLine (locals n) config line with
      | .next config => readLoop locals (n + 1) lines config
      | .returned config => some config
      | .exited => none

/-- `read_config_file` on the text of a file that can be opened. -/
def readConfigFile (locals : Nat → Locals) (text : List UInt8) (config : SimConfig) :
    Option SimConfig :=
  readLoop locals 0 (fgetsLines (bufsiz - 1) text) config

/-- What a line assigns in `read_config_simple`. -/
def simpleAssign (line : List UInt8) : Option (IntField × Int32) :=
  match splitLine line with
  | none => none
  | some (name, p) => (simpleField name).map (fun field => (field, atoi p))

def simpleLine (config : SimConfig) (line : List UInt8) : SimConfig :=
  match simpleAssign line with
  | none => config
  | some (field, value) => config.setInt field value

/-- A file as `stat` and `fopen` find it; no text where it cannot be opened. -/
structure ConfFile where
  mtime : Int64
  text : Option (List UInt8)

/-- `read_config_simple`, `old` being its static variable: the new value of
    `old` and the record.  `none` where the process exits. -/
def readConfigSimple (file : Option ConfFile) (old : Int64) (config : SimConfig) :
    Option (Int64 × SimConfig) :=
  match file with
  | none => some (old, config)
  | some file =>
      if file.mtime ≠ old then
        file.text.map
          (fun text => (file.mtime, (fgetsLines (bufsiz - 1) text).foldl simpleLine config))
      else some (old, config)

/-! ## §4. Keywords, looked up. -/

/-- A name that is looked up is in the table. -/
theorem directive_mem {name : List UInt8} {d : Directive} (h : directive name = some d) :
    (name, d) ∈ keywords := by
  obtain ⟨⟨key, d'⟩, hfind, rfl⟩ := Option.map_eq_some_iff.mp h
  have hkey := List.find?_some hfind
  rw [← eq_of_beq hkey]
  exact List.mem_of_find?_eq_some hfind

theorem simpleField_mem {name : List UInt8} {field : IntField} (h : simpleField name = some field) :
    (name, field) ∈ simpleKeywords := by
  obtain ⟨⟨key, field'⟩, hfind, rfl⟩ := Option.map_eq_some_iff.mp h
  have hkey := List.find?_some hfind
  rw [← eq_of_beq hkey]
  exact List.mem_of_find?_eq_some hfind

/-- **The four keywords of `read_config_simple` mean the same to
    `read_config_file`.** -/
theorem directive_of_simpleField {name : List UInt8} {field : IntField}
    (h : simpleField name = some field) : directive name = some (.int field) := by
  have htable : ∀ k ∈ simpleKeywords, directive k.1 = some (.int k.2) := by decide
  exact htable (name, field) (simpleField_mem h)

/-- And no other name sets one of these members. -/
theorem simpleField_of_directive {name name' : List UInt8} {field : IntField}
    (h : directive name = some (.int field)) (h' : simpleField name' = some field) :
    simpleField name = some field := by
  have htable : ∀ k ∈ keywords, ∀ k' ∈ simpleKeywords, k.2 = .int k'.2 →
      simpleField k.1 = some k'.2 := by decide
  exact htable (name, .int field) (directive_mem h) (name', field) (simpleField_mem h') rfl

/-! ## §5. Assignments in a row. -/

/-- The last value a row of assignments gives a member. -/
def lastOf (field : IntField) (assigns : List (IntField × Int32)) : Option Int32 :=
  ((assigns.filter (fun a => a.1 == field)).getLast?).map Prod.snd

theorem lastOf_append (field : IntField) (as bs : List (IntField × Int32)) :
    lastOf field (as ++ bs) = (lastOf field bs).or (lastOf field as) := by
  unfold lastOf
  rw [List.filter_append, List.getLast?_append]
  cases (bs.filter (fun a => a.1 == field)).getLast? with
  | none => rfl
  | some a => rfl

theorem lastOf_singleton (field : IntField) (a : IntField × Int32) :
    lastOf field [a] = if a.1 = field then some a.2 else none := by
  unfold lastOf
  by_cases h : a.1 = field
  · simp [h]
  · simp [h]

/-- **A row of assignments** leaves the last values, and the old value where
    there is none. -/
theorem foldl_setInt (config : SimConfig) (assigns : List (IntField × Int32)) :
    assigns.foldl (fun c a => c.setInt a.1 a.2) config
      = { config with int := fun field => (lastOf field assigns).getD (config.int field) } := by
  induction assigns using List.reverseRecOn with
  | nil => rfl
  | append_singleton assigns a ih =>
      rw [List.foldl_append, ih]
      show SimConfig.setInt _ a.1 a.2 = _
      unfold SimConfig.setInt
      congr 1
      funext field
      rw [lastOf_append, lastOf_singleton]
      by_cases h : a.1 = field
      · rw [if_pos h, ← h, Function.update_self]
        rfl
      · rw [if_neg h, Function.update_of_ne (Ne.symm h), Option.none_or]

/-- What a branch of `read_config_file` that goes on does to the members set
    with `atoi`. -/
theorem Directive.read_int {locals : Locals} {config config' : SimConfig} {p : List UInt8}
    {d : Directive} (h : d.read locals config p = .next config') (field : IntField) :
    config'.int field = if d = .int field then atoi p else config.int field := by
  have hkept : ∀ range set, setRange config range set = .next config' →
      (∀ r, (set r).int = config.int) → config'.int field = config.int field := by
    intro range set hset hint
    cases range with
    | none => exact absurd hset (by simp [setRange])
    | some r =>
        rw [← LineResult.next.inj hset, hint]
  cases d with
  | proto =>
      rw [if_neg (by simp)]
      simp only [Directive.read] at h
      split at h
      · rw [← LineResult.next.inj h]
      · split at h <;> rw [← LineResult.next.inj h]
  | srcmac | dstmac | pktdata | linkName =>
      rw [if_neg (by simp), ← LineResult.next.inj h]
  | srcip | dstip | srcport | dstport =>
      rw [if_neg (by simp)]
      exact hkept _ _ h (fun _ => rfl)
  | int g =>
      have hset : config' = config.setInt g (atoi p) := by
        cases g with
        | pktlen =>
            simp only [Directive.read] at h
            split at h
            · exact absurd h (by simp)
            · exact (LineResult.next.inj h).symm
        | _ => exact (LineResult.next.inj h).symm
      rw [hset]
      by_cases hg : g = field
      · rw [if_pos (congrArg _ hg), ← hg, SimConfig.setInt_self]
      · rw [if_neg (fun he => hg (Directive.int.inj he)),
          SimConfig.setInt_of_ne config _ (Ne.symm hg)]

end FreePacket.ConfigFile
