/-
  FreePacket.Lib.Getopt
  ─────────────────────
  **`getopt_long` OF THE C LIBRARY**, with its default order of arguments.

  A call looks at the word in front: what is no option is passed over, `--`
  ends the options, a long option may be abbreviated and takes its argument
  from behind `=` or from the next word, a short one from the rest of its word
  or from the next word.  Options whose argument is optional, and an option
  string that begins with `+`, `-` or `:`, are not covered.

  Main results:
    * `getoptLong_size_lt` — every call uses up a part of the command line.
    * `returns_fromTables` — what comes back is in the tables, with the argument
      it needs.
    * `returns_words` — a command line written option by option is read option
      by option.

  Nothing here names a program.
-/
import FreePacket.Lib.CString
import Mathlib.Data.List.TakeWhile

namespace FreePacket.Lib.Getopt

open FreePacket.Lib.CString

/-! ## §1. One call. -/

/-- `struct option`, with no flag to set. -/
structure LongOption where
  name : List UInt8
  hasArg : Bool
  val : UInt8
  deriving DecidableEq

/-- What a call returns, if it is not -1. -/
inductive Returned where
  /-- The value of the option, `optarg`, and what is stored through
      `longindex`. -/
  | option (val : UInt8) (optarg : Option (List UInt8)) (longindex : Option Nat)
  /-- `'?'`: unknown or ambiguous, or an argument is missing or too much. -/
  | unknown
  deriving DecidableEq

/-- What is left of a group of short options, and the words behind it. -/
structure State where
  nextchar : List UInt8
  rest : List (List UInt8)

/-- `strchr(optstring, c)`: whether the short option has an argument, `none`
    where there is no such option. -/
def shortHasArg (optstring : List UInt8) (c : UInt8) : Option Bool :=
  if c = 58 ∨ c = 59 then none
  else
    match optstring.dropWhile (fun d => d != c) with
    | [] => none
    | _ :: tail => some (tail.head? == some 58)

/-- A short option stands in the option string. -/
theorem shortHasArg_mem {optstring : List UInt8} {c : UInt8} {hasArg : Bool}
    (h : shortHasArg optstring c = some hasArg) : c ∈ optstring := by
  unfold shortHasArg at h
  split at h
  · exact absurd h (by simp)
  · by_contra hno
    have hall : ∀ d ∈ optstring, (d != c) = true :=
      fun d hd => bne_iff_ne.mpr fun heq => hno (heq ▸ hd)
    rw [List.dropWhile_eq_nil_iff.mpr hall] at h
    exact absurd h (by simp)

/-- The long option a name stands for, and its index: the one of this name,
    else the first one it abbreviates, if all of these mean the same. -/
def findLong (longs : List LongOption) (name : List UInt8) : Option (LongOption × Nat) :=
  match longs.zipIdx.find? (fun p => p.1.name == name) with
  | some p => some p
  | none =>
      match longs.zipIdx.filter (fun p => name.isPrefixOf p.1.name) with
      | [] => none
      | p :: others =>
          if others.all (fun q => q.1.hasArg == p.1.hasArg && q.1.val == p.1.val) then some p
          else none

/-- A long option that is found stands at its index. -/
theorem findLong_getElem? {longs : List LongOption} {name : List UInt8} {option : LongOption}
    {index : Nat} (h : findLong longs name = some (option, index)) :
    longs[index]? = some option := by
  refine List.mk_mem_zipIdx_iff_getElem?.mp ?_
  unfold findLong at h
  split at h
  · rename_i p hfind
    rw [Option.some.inj h] at hfind
    exact List.mem_of_find?_eq_some hfind
  · split at h
    · exact absurd h (by simp)
    · rename_i p others hfilter
      split at h
      · rw [Option.some.inj h] at hfilter
        have hmem : (option, index) ∈ longs.zipIdx.filter
            (fun p => name.isPrefixOf p.1.name) := by
          rw [hfilter]
          exact List.mem_cons_self
        exact (List.mem_filter.mp hmem).1
      · exact absurd h (by simp)

/-- An option with an argument: the one in its own word, else the next word. -/
def withArg (val : UInt8) (longindex : Option Nat) (joined : Option (List UInt8))
    (rest : List (List UInt8)) : Returned × State :=
  match joined, rest with
  | some optarg, rest => (.option val (some optarg) longindex, ⟨[], rest⟩)
  | none, [] => (.unknown, ⟨[], []⟩)
  | none, word :: rest => (.option val (some word) longindex, ⟨[], rest⟩)

def shortOption (optstring : List UInt8) (c : UInt8) (more : List UInt8)
    (rest : List (List UInt8)) : Returned × State :=
  match shortHasArg optstring c with
  | none => (.unknown, ⟨more, rest⟩)
  | some false => (.option c none none, ⟨more, rest⟩)
  | some true => withArg c none (if more = [] then none else some more) rest

/-- Whether a character belongs to the name of a long option. -/
def isOptionName (c : UInt8) : Bool := c != 61

/-- The argument behind the name, if there is a `=`. -/
def behindEquals : List UInt8 → Option (List UInt8)
  | [] => none
  | _ :: optarg => some optarg

def longOption (longs : List LongOption) (text : List UInt8) (rest : List (List UInt8)) :
    Returned × State :=
  match findLong longs (text.takeWhile isOptionName) with
  | none => (.unknown, ⟨[], rest⟩)
  | some (option, index) =>
      let joined := behindEquals (text.dropWhile isOptionName)
      if option.hasArg then withArg option.val (some index) joined rest
      else if joined = none then (.option option.val none (some index), ⟨[], rest⟩)
      else (.unknown, ⟨[], rest⟩)

/-- Whether a word is passed over: it has no `-` in front, or nothing behind. -/
def isOther : List UInt8 → Bool
  | c :: _ :: _ => c != 45
  | _ => true

/-- `getopt_long`; `none` where it returns -1. -/
def getoptLong (optstring : List UInt8) (longs : List LongOption) (s : State) :
    Option (Returned × State) :=
  match s.nextchar with
  | c :: more => some (shortOption optstring c more s.rest)
  | [] =>
      match s.rest.dropWhile isOther with
      | (_ :: c :: more) :: rest =>
          if c = 45 then
            if more = [] then none else some (longOption longs more rest)
          else some (shortOption optstring c more rest)
      | _ => none

/-! ## §2. All calls. -/

/-- The characters of a row of words, one more for each word. -/
def wordsSize : List (List UInt8) → Nat
  | [] => 0
  | word :: rest => word.length + 1 + wordsSize rest

/-- What is left to read. -/
def State.size (s : State) : Nat := s.nextchar.length + wordsSize s.rest

theorem wordsSize_cons (word : List UInt8) (rest : List (List UInt8)) :
    wordsSize (word :: rest) = word.length + 1 + wordsSize rest := rfl

/-- Passing words over makes the row no longer. -/
theorem wordsSize_dropWhile_le (p : List UInt8 → Bool) (rest : List (List UInt8)) :
    wordsSize (rest.dropWhile p) ≤ wordsSize rest := by
  induction rest with
  | nil => exact le_refl 0
  | cons word rest ih =>
      rw [List.dropWhile_cons]
      split
      · rw [wordsSize_cons]
        omega
      · exact le_refl _

theorem size_between (rest : List (List UInt8)) : (⟨[], rest⟩ : State).size = wordsSize rest :=
  Nat.zero_add _

theorem withArg_size_le (val : UInt8) (longindex : Option Nat) (joined : Option (List UInt8))
    (rest : List (List UInt8)) :
    (withArg val longindex joined rest).2.size ≤ wordsSize rest := by
  cases joined with
  | some optarg => exact le_of_eq (size_between rest)
  | none =>
      cases rest with
      | nil => exact le_refl 0
      | cons word rest =>
          have hbetween := size_between rest
          rw [wordsSize_cons]
          show (⟨[], rest⟩ : State).size ≤ _
          omega

theorem shortOption_size_le (optstring : List UInt8) (c : UInt8) (more : List UInt8)
    (rest : List (List UInt8)) :
    (shortOption optstring c more rest).2.size ≤ more.length + wordsSize rest := by
  unfold shortOption
  split
  · exact le_refl _
  · exact le_refl _
  · exact (withArg_size_le _ _ _ _).trans (Nat.le_add_left _ _)

theorem longOption_size_le (longs : List LongOption) (text : List UInt8)
    (rest : List (List UInt8)) : (longOption longs text rest).2.size ≤ wordsSize rest := by
  have hbetween := le_of_eq (size_between rest)
  unfold longOption
  split
  · exact hbetween
  · dsimp only
    split
    · exact withArg_size_le _ _ _ _
    · split
      · exact hbetween
      · exact hbetween

/-- **Every call uses up a part of the command line.** -/
theorem getoptLong_size_lt {optstring : List UInt8} {longs : List LongOption} {s s' : State}
    {r : Returned} (h : getoptLong optstring longs s = some (r, s')) : s'.size < s.size := by
  unfold getoptLong at h
  split at h
  · rename_i c more hnext
    have hshort := shortOption_size_le optstring c more s.rest
    have hsize : s.size = more.length + 1 + wordsSize s.rest := by
      unfold State.size
      rw [hnext, List.length_cons]
    rw [Option.some.inj h] at hshort
    dsimp only at hshort
    omega
  · have hsize : wordsSize s.rest ≤ s.size := Nat.le_add_left _ _
    have hdrop := wordsSize_dropWhile_le isOther s.rest
    split at h
    · rename_i d c more rest hrest
      rw [hrest, wordsSize_cons, List.length_cons, List.length_cons] at hdrop
      split at h
      · split at h
        · exact absurd h (by simp)
        · have hlong := longOption_size_le longs more rest
          rw [Option.some.inj h] at hlong
          dsimp only at hlong
          omega
      · have hshort := shortOption_size_le optstring c more rest
        rw [Option.some.inj h] at hshort
        dsimp only at hshort
        omega
    · exact absurd h (by simp)

/-- What the calls return, one after the other, up to the -1. -/
def returns (optstring : List UInt8) (longs : List LongOption) (s : State) : List Returned :=
  match _h : getoptLong optstring longs s with
  | none => []
  | some (r, s') => r :: returns optstring longs s'
termination_by s.size
decreasing_by exact getoptLong_size_lt ‹_›

section Returns

variable {optstring : List UInt8} {longs : List LongOption} {s s' : State} {r : Returned}

theorem returns_none (h : getoptLong optstring longs s = none) :
    returns optstring longs s = [] := by
  unfold returns
  split
  · rfl
  · rename_i r s' hsome
    rw [h] at hsome
    exact absurd hsome (by simp)

theorem returns_some (h : getoptLong optstring longs s = some (r, s')) :
    returns optstring longs s = r :: returns optstring longs s' := by
  conv_lhs => unfold returns
  split
  · rename_i hnone
    rw [h] at hnone
    exact absurd hnone (by simp)
  · rename_i r' s'' hsome
    rw [h] at hsome
    obtain ⟨rfl, rfl⟩ := Prod.mk.inj (Option.some.inj hsome)
    rfl

/-- Equal calls have equal successors. -/
theorem returns_congr (h : getoptLong optstring longs s = getoptLong optstring longs s') :
    returns optstring longs s = returns optstring longs s' := by
  cases hs : getoptLong optstring longs s with
  | none => rw [returns_none hs, returns_none (h.symm.trans hs)]
  | some next =>
      obtain ⟨r, s''⟩ := next
      rw [returns_some hs, returns_some (h.symm.trans hs)]

/-- An invariant of what single calls return. -/
theorem returns_forall {P : Returned → Prop}
    (hcall : ∀ s r s', getoptLong optstring longs s = some (r, s') → P r) (s : State) :
    ∀ r ∈ returns optstring longs s, P r := by
  induction s using returns.induct optstring longs with
  | case1 s hnone =>
      rw [returns_none hnone]
      exact fun r hr => absurd hr List.not_mem_nil
  | case2 s r s' hsome ih =>
      rw [returns_some hsome]
      intro r' hr'
      rcases List.mem_cons.mp hr' with rfl | hrest
      · exact hcall s _ s' hsome
      · exact ih r' hrest

end Returns

/-! ## §3. What comes back is in the tables. -/

/-- The option is in its table, and its argument is there if it has one. -/
def Returned.FromTables (optstring : List UInt8) (longs : List LongOption) : Returned → Prop
  | .option val optarg none =>
      ∃ hasArg, shortHasArg optstring val = some hasArg ∧ (hasArg = true → optarg ≠ none)
  | .option val optarg (some index) =>
      ∃ option, longs[index]? = some option ∧ option.val = val
        ∧ (option.hasArg = true → optarg ≠ none)
  | .unknown => True

section Tables

variable {optstring : List UInt8} {longs : List LongOption}

/-- An option with an argument comes back with it. -/
theorem withArg_cases (val : UInt8) (longindex : Option Nat) (joined : Option (List UInt8))
    (rest : List (List UInt8)) :
    (withArg val longindex joined rest).1 = .unknown
      ∨ ∃ optarg, (withArg val longindex joined rest).1 = .option val (some optarg) longindex := by
  unfold withArg
  split
  · exact Or.inr ⟨_, rfl⟩
  · exact Or.inl rfl
  · exact Or.inr ⟨_, rfl⟩

theorem shortOption_fromTables (c : UInt8) (more : List UInt8) (rest : List (List UInt8)) :
    (shortOption optstring c more rest).1.FromTables optstring longs := by
  unfold shortOption
  split
  · exact trivial
  · rename_i hshort
    exact ⟨false, hshort, fun h => absurd h Bool.false_ne_true⟩
  · rename_i hshort
    rcases withArg_cases c none (if more = [] then none else some more) rest with h | ⟨optarg, h⟩
    · rw [h]
      exact trivial
    · rw [h]
      exact ⟨true, hshort, fun _ => Option.some_ne_none optarg⟩

theorem longOption_fromTables (text : List UInt8) (rest : List (List UInt8)) :
    (longOption longs text rest).1.FromTables optstring longs := by
  unfold longOption
  split
  · exact trivial
  · rename_i option index hfind
    have hindex := findLong_getElem? hfind
    dsimp only
    split
    · rcases withArg_cases option.val (some index) (behindEquals (text.dropWhile isOptionName))
        rest with h | ⟨optarg, h⟩
      · rw [h]
        exact trivial
      · rw [h]
        exact ⟨option, hindex, rfl, fun _ => Option.some_ne_none optarg⟩
    · rename_i harg
      split
      · exact ⟨option, hindex, rfl, fun h => absurd h harg⟩
      · exact trivial

/-- **What the calls return is in the tables**, on every command line. -/
theorem returns_fromTables (s : State) :
    ∀ r ∈ returns optstring longs s, r.FromTables optstring longs := by
  refine returns_forall ?_ s
  intro s r s' hcall
  unfold getoptLong at hcall
  split at hcall
  · rename_i c more _
    have hshort : (shortOption optstring c more s.rest).1.FromTables optstring longs :=
      shortOption_fromTables c more s.rest
    rw [Option.some.inj hcall] at hshort
    exact hshort
  · split at hcall
    · rename_i d c more rest _
      split at hcall
      · split at hcall
        · exact absurd hcall (by simp)
        · have hlong : (longOption longs more rest).1.FromTables optstring longs :=
            longOption_fromTables more rest
          rw [Option.some.inj hcall] at hlong
          exact hlong
      · have hshort : (shortOption optstring c more rest).1.FromTables optstring longs :=
          shortOption_fromTables c more rest
        rw [Option.some.inj hcall] at hshort
        exact hshort
    · exact absurd hcall (by simp)

end Tables

/-! ## §4. A command line written option by option. -/

/-- What can be written on a command line. -/
inductive Item where
  /-- A long option under a name that stands for it, its argument behind `=`
      or in the next word. -/
  | long (name : List UInt8) (joined : Bool) (optarg : List UInt8)
  /-- A short option, its argument in the same word or in the next one. -/
  | short (c : UInt8) (joined : Bool) (optarg : List UInt8)
  /-- No option. -/
  | other (word : List UInt8)

def Item.words : Item → List (List UInt8)
  | .long name true optarg => [45 :: 45 :: (name ++ 61 :: optarg)]
  | .long name false optarg => [45 :: 45 :: name, optarg]
  | .short c true optarg => [45 :: c :: optarg]
  | .short c false optarg => [[45, c], optarg]
  | .other word => [word]

/-- The option exists and has an argument; an argument in the same word is not
    empty after a short option. -/
def Item.Valid (optstring : List UInt8) (longs : List LongOption) : Item → Prop
  | .long name _ _ =>
      name ≠ [] ∧ (61 : UInt8) ∉ name
        ∧ ∃ option index, findLong longs name = some (option, index) ∧ option.hasArg = true
  | .short c joined optarg =>
      c ≠ 45 ∧ shortHasArg optstring c = some true ∧ (joined = true → optarg ≠ [])
  | .other word => isOther word = true

/-- What `getopt_long` is to return for it. -/
def Item.returned (longs : List LongOption) : Item → Option Returned
  | .long name _ optarg =>
      (findLong longs name).map (fun p => .option p.1.val (some optarg) (some p.2))
  | .short c _ optarg => some (.option c (some optarg) none)
  | .other _ => none

/-- Where the options end: with the command line, or at `--`. -/
def Ends (tail : List (List UInt8)) : Prop := ∀ word ∈ tail.head?, word = [45, 45]

section Items

variable {optstring : List UInt8} {longs : List LongOption}

/-- A word that is an option is not passed over. -/
theorem getoptLong_option {c : UInt8} (hc : c ≠ 45) (more : List UInt8)
    (rest : List (List UInt8)) :
    getoptLong optstring longs ⟨[], (45 :: c :: more) :: rest⟩
      = some (shortOption optstring c more rest) := by
  have hdrop : ((45 :: c :: more) :: rest).dropWhile isOther = (45 :: c :: more) :: rest := rfl
  unfold getoptLong
  simp only [hdrop, if_neg hc]

theorem getoptLong_longOption {text : List UInt8} (htext : text ≠ [])
    (rest : List (List UInt8)) :
    getoptLong optstring longs ⟨[], (45 :: 45 :: text) :: rest⟩
      = some (longOption longs text rest) := by
  have hdrop : ((45 :: 45 :: text) :: rest).dropWhile isOther = (45 :: 45 :: text) :: rest := rfl
  unfold getoptLong
  simp only [hdrop, if_neg htext, if_true]

/-- A word that is no option is passed over. -/
theorem getoptLong_other {word : List UInt8} (h : isOther word = true)
    (rest : List (List UInt8)) :
    getoptLong optstring longs ⟨[], word :: rest⟩ = getoptLong optstring longs ⟨[], rest⟩ := by
  have hdrop : (word :: rest).dropWhile isOther = rest.dropWhile isOther :=
    List.dropWhile_cons_of_pos h
  unfold getoptLong
  simp only [hdrop]

/-- At the end of the options -1 is returned. -/
theorem getoptLong_ends {tail : List (List UInt8)} (h : Ends tail) :
    getoptLong optstring longs ⟨[], tail⟩ = none := by
  cases tail with
  | nil => rfl
  | cons word tail =>
      have hword : word = [45, 45] := h word rfl
      rw [hword]
      rfl

/-- The name of a long option, and what stands behind it. -/
theorem takeWhile_name {name : List UInt8} (h : (61 : UInt8) ∉ name) (optarg : List UInt8) :
    (name ++ 61 :: optarg).takeWhile isOptionName = name
      ∧ (name ++ 61 :: optarg).dropWhile isOptionName = 61 :: optarg := by
  have hall : ∀ c ∈ name, isOptionName c = true :=
    fun c hc => bne_iff_ne.mpr fun heq => h (heq ▸ hc)
  exact ⟨takeWhile_append_stop hall (stops_cons rfl), dropWhile_append_stop hall (stops_cons rfl)⟩

theorem takeWhile_name_alone {name : List UInt8} (h : (61 : UInt8) ∉ name) :
    name.takeWhile isOptionName = name ∧ name.dropWhile isOptionName = [] := by
  have hall : ∀ c ∈ name, isOptionName c = true :=
    fun c hc => bne_iff_ne.mpr fun heq => h (heq ▸ hc)
  exact ⟨List.takeWhile_eq_self_iff.mpr hall, List.dropWhile_eq_nil_iff.mpr hall⟩

/-- **An option written on the command line is the option returned.** -/
theorem getoptLong_item {item : Item} (h : item.Valid optstring longs) {r : Returned}
    (hr : item.returned longs = some r) (rest : List (List UInt8)) :
    getoptLong optstring longs ⟨[], item.words ++ rest⟩ = some (r, ⟨[], rest⟩) := by
  cases item with
  | long name joined optarg =>
      obtain ⟨hname, hequals, option, index, hfind, harg⟩ := h
      rw [Item.returned, hfind] at hr
      obtain rfl := Option.some.inj hr
      cases joined with
      | true =>
          obtain ⟨htake, hdrop⟩ := takeWhile_name hequals optarg
          rw [Item.words, List.cons_append, List.nil_append,
            getoptLong_longOption (List.append_ne_nil_of_left_ne_nil hname _)]
          unfold longOption
          simp only [htake, hdrop, hfind, harg, if_true]
          rfl
      | false =>
          obtain ⟨htake, hdrop⟩ := takeWhile_name_alone hequals
          rw [Item.words, List.cons_append, List.cons_append, List.nil_append,
            getoptLong_longOption hname]
          unfold longOption
          simp only [htake, hdrop, hfind, harg, if_true]
          rfl
  | short c joined optarg =>
      obtain ⟨hc, hshort, hjoined⟩ := h
      obtain rfl := Option.some.inj hr
      cases joined with
      | true =>
          rw [Item.words, List.cons_append, List.nil_append, getoptLong_option hc]
          unfold shortOption
          simp only [hshort, if_neg (hjoined rfl)]
          rfl
      | false =>
          rw [Item.words, List.cons_append, List.cons_append, List.nil_append,
            getoptLong_option hc]
          unfold shortOption
          simp only [hshort, if_true]
          rfl
  | other word => exact absurd hr (by simp [Item.returned])

/-- **A command line written option by option is read option by option.** -/
theorem returns_words {items : List Item} (h : ∀ item ∈ items, item.Valid optstring longs)
    {tail : List (List UInt8)} (htail : Ends tail) :
    returns optstring longs ⟨[], items.flatMap Item.words ++ tail⟩
      = items.filterMap (Item.returned longs) := by
  induction items with
  | nil => exact returns_none (getoptLong_ends htail)
  | cons item items ih =>
      have hrest := ih fun i hi => h i (List.mem_cons_of_mem _ hi)
      have hitem := h item List.mem_cons_self
      rw [List.flatMap_cons, List.append_assoc]
      cases hr : item.returned longs with
      | some r =>
          rw [returns_some (getoptLong_item hitem hr _), hrest, List.filterMap_cons_some hr]
      | none =>
          rw [List.filterMap_cons_none hr, ← hrest]
          cases item with
          | long name joined optarg =>
              obtain ⟨_, _, option, index, hfind, _⟩ := hitem
              rw [Item.returned, hfind] at hr
              exact absurd hr (by simp)
          | short c joined optarg => exact absurd hr (by simp [Item.returned])
          | other word => exact returns_congr (getoptLong_other hitem _)

end Items

end FreePacket.Lib.Getopt
