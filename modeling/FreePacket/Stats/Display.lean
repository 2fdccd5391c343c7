/-
  FreePacket.Stats.Display
  ────────────────────────
  **WHAT THE DISPLAY SHOWS (`display.c`), while the pipeline runs.**

  `sys_display` reads the generators' counters `total_send_byte` one by one,
  with no lock, and shows the difference to its last reading.  It has two
  screens, each with its own `new` and `old`, and switches between them when
  `read_config_simple` brings another `screen_display`.

  The readings are of no single moment.  Still nothing is shown twice and
  nothing is left out: what a screen has shown in all, at the end of a
  display, lies between what the generators had counted when that display
  began and what they have counted at its end.

  Main results:
    * `DisplayInv.step` — counters, readings and what has been shown.
    * `display_addsUp` — the sum of what a screen shows.
-/
import FreePacket.Pipeline.Delivery

namespace FreePacket.Stats

open FreePacket.Lib FreePacket.Packet FreePacket.Pipeline
open FreePacket.Session (Manager Config)

/-! ## §1. `sys_display`. -/

/-- `display_gen` and `display_gpm`. -/
inductive Screen where
  | gen
  | gpm
  deriving DecidableEq

/-- The values of `state`. -/
inductive DisplayState where
  | zero
  | one
  | two

/-- Where `sys_display` is in its loop. -/
inductive DisplayPc where
  /-- At `while(count--)`. -/
  | top
  /-- In the loop of a screen over the generators, in front of generator `i`. -/
  | reading (screen : Screen) (i : Nat)
  /-- At `read_config_simple`. -/
  | polling

/-- The variables of `sys_display` and of its two screens. -/
structure Display where
  count : Nat
  state : DisplayState
  screenDisplay : Int32
  pc : DisplayPc
  new : Screen → UInt64
  old : Screen → UInt64

/-- What is seen of the pipeline and its display. -/
inductive WatchEvent where
  | quiet
  /-- A thread of the pipeline moved, and a generator counted bytes. -/
  | moved (e : PipelineEvent) (counted : Option (Nat × UInt64))
  /-- A screen showed the bytes since its last reading. -/
  | shown (screen : Screen) (bytes : UInt64)

/-- The entries of `send_bytes` in `display_gpm`. -/
def sendBytesSize : Nat := 36

/-- One step of `sys_display`, `polled` being what `read_config_simple` leaves
    in `screen_display`.  `none` where the process exits, or where `send_bytes`
    is written behind its end. -/
def displayStep (gNums : Nat) (totalSendByte : Nat → UInt64) (d : Display) (polled : Int32) :
    Option (Display × WatchEvent) :=
  match d.pc with
  | .top =>
      if d.count = 0 then none
      else
        match d.state with
        | .zero =>
            if d.screenDisplay = 1 then
              some ({ d with count := d.count - 1, state := .two, pc := .polling }, .quiet)
            else if d.screenDisplay = 0 then
              some ({ d with count := d.count - 1, state := .one, pc := .polling }, .quiet)
            else some ({ d with count := d.count - 1, pc := .polling }, .quiet)
        | .one =>
            if d.screenDisplay = 1 then
              some ({ d with count := d.count - 1, state := .two, pc := .polling }, .quiet)
            else some ({ d with count := d.count - 1, pc := .reading .gen 0 }, .quiet)
        | .two =>
            if d.screenDisplay = 0 then
              some ({ d with count := d.count - 1, state := .one, pc := .polling }, .quiet)
            else some ({ d with count := d.count - 1, pc := .reading .gpm 0 }, .quiet)
  | .reading screen i =>
      if i < gNums then
        if screen = .gpm ∧ sendBytesSize ≤ i then none
        else
          some ({ d with new := Function.update d.new screen (d.new screen + totalSendByte i)
                         pc := .reading screen (i + 1) }, .quiet)
      else
        some ({ d with old := Function.update d.old screen (d.new screen)
                       new := Function.update d.new screen 0
                       pc := .polling }, .shown screen (d.new screen - d.old screen))
  | .polling => some ({ d with screenDisplay := polled, pc := .top }, .quiet)

/-- What a step of the display does. -/
inductive DisplayStep (gNums : Nat) (totalSendByte : Nat → UInt64) (d : Display) :
    Display → WatchEvent → Prop where
  | turned {count : Nat} {state : DisplayState} :
      d.pc = .top →
      DisplayStep gNums totalSendByte d
        { d with count := count, state := state, pc := .polling } .quiet
  | began {count : Nat} {screen : Screen} :
      d.pc = .top →
      DisplayStep gNums totalSendByte d { d with count := count, pc := .reading screen 0 } .quiet
  | read {screen : Screen} {i : Nat} :
      d.pc = .reading screen i → i < gNums →
      DisplayStep gNums totalSendByte d
        { d with new := Function.update d.new screen (d.new screen + totalSendByte i)
                 pc := .reading screen (i + 1) } .quiet
  | showed {screen : Screen} {i : Nat} :
      d.pc = .reading screen i → gNums ≤ i →
      DisplayStep gNums totalSendByte d
        { d with old := Function.update d.old screen (d.new screen)
                 new := Function.update d.new screen 0
                 pc := .polling } (.shown screen (d.new screen - d.old screen))
  | polled {polled : Int32} :
      d.pc = .polling →
      DisplayStep gNums totalSendByte d { d with screenDisplay := polled, pc := .top } .quiet

theorem displayStep_cases {gNums : Nat} {totalSendByte : Nat → UInt64} {d d' : Display}
    {polled : Int32} {e : WatchEvent}
    (h : displayStep gNums totalSendByte d polled = some (d', e)) :
    DisplayStep gNums totalSendByte d d' e := by
  unfold displayStep at h
  split at h
  · rename_i hpc
    split at h
    · exact absurd h (by simp)
    · split at h
      · split at h
        · obtain ⟨rfl, rfl⟩ := Prod.mk.inj (Option.some.inj h)
          exact .turned hpc
        · split at h
          · obtain ⟨rfl, rfl⟩ := Prod.mk.inj (Option.some.inj h)
            exact .turned hpc
          · obtain ⟨rfl, rfl⟩ := Prod.mk.inj (Option.some.inj h)
            exact .turned hpc
      · split at h
        · obtain ⟨rfl, rfl⟩ := Prod.mk.inj (Option.some.inj h)
          exact .turned hpc
        · obtain ⟨rfl, rfl⟩ := Prod.mk.inj (Option.some.inj h)
          exact .began hpc
      · split at h
        · obtain ⟨rfl, rfl⟩ := Prod.mk.inj (Option.some.inj h)
          exact .turned hpc
        · obtain ⟨rfl, rfl⟩ := Prod.mk.inj (Option.some.inj h)
          exact .began hpc
  · rename_i screen i hpc
    split at h
    · rename_i hlt
      split at h
      · exact absurd h (by simp)
      · obtain ⟨rfl, rfl⟩ := Prod.mk.inj (Option.some.inj h)
        exact .read hpc hlt
    · rename_i hge
      obtain ⟨rfl, rfl⟩ := Prod.mk.inj (Option.some.inj h)
      exact .showed hpc (Nat.le_of_not_lt hge)
  · rename_i hpc
    obtain ⟨rfl, rfl⟩ := Prod.mk.inj (Option.some.inj h)
    exact .polled hpc

/-! ## §2. The counters. -/

/-- What one round of a generator's loop adds to `total_send_byte`:
    `config->pktlen`, or the length of the frame. -/
def sendByte (mode : Mode) (pktlen : UInt32) (packet : PacketT) : UInt64 :=
  match mode with
  | .generator => pktlen.toUInt64
  | .collector => packet.length.toUInt64

/-- The generator whose round the call ends, and its packet. -/
def roundEnds (s : Stages) : PipelineCall → Option (Nat × PacketT)
  | .generator i _ _ =>
      match s.generatorPc i with
      | .sending _ packet | .returning packet => some (i, packet)
      | _ => none
  | _ => none

/-- The generator that counts, and the bytes it counts. -/
def counts (mode : Mode) (pktlen : UInt32) (s : Stages) (call : PipelineCall) :
    Option (Nat × UInt64) :=
  (roundEnds s call).map (fun p => (p.1, sendByte mode pktlen p.2))

/-- `generator->total_send_byte += …`. -/
def addBytes (totalSendByte : Nat → UInt64) : Option (Nat × UInt64) → Nat → UInt64
  | none => totalSendByte
  | some (i, bytes) => Function.update totalSendByte i (totalSendByte i + bytes)

/-- The pipeline, its counters and the display. -/
structure Watched where
  stages : Stages
  totalSendByte : Nat → UInt64
  display : Display

inductive WatchCall where
  /-- A thread of the pipeline moves. -/
  | work (call : PipelineCall)
  /-- The display moves. -/
  | display (polled : Int32)

/-- **The pipeline under its display.** -/
def watched (mode : Mode) (cfg : Config) (gNums pNums : Nat) (numbers pktlen : UInt32) :
    Machine Watched WatchCall WatchEvent where
  step w call :=
    match call with
    | .work call =>
        ((observedPipeline mode cfg gNums pNums numbers).step w.stages call).map
          (fun r =>
            ({ w with stages := r.1
                      totalSendByte := addBytes w.totalSendByte (counts mode pktlen w.stages call) },
              .moved r.2 (counts mode pktlen w.stages call)))
    | .display polled =>
        (displayStep gNums w.totalSendByte w.display polled).map
          (fun r => ({ w with display := r.1 }, r.2))

/-- The bytes an event counts. -/
def WatchEvent.counted : WatchEvent → Nat
  | .moved _ (some (_, bytes)) => bytes.toNat
  | _ => 0

/-- The bytes an event shows on a screen. -/
def WatchEvent.shownOn (screen : Screen) : WatchEvent → Nat
  | .shown other bytes => if other = screen then bytes.toNat else 0
  | _ => 0

/-- **What the generators have counted.** -/
def countedBytes (es : List WatchEvent) : Nat := (es.map WatchEvent.counted).sum

/-- **What a screen has shown in all.** -/
def shownBytes (screen : Screen) (es : List WatchEvent) : Nat :=
  (es.map (WatchEvent.shownOn screen)).sum

/-- No screen shows anything. -/
def Unshown (es : List WatchEvent) : Prop := ∀ e ∈ es, ∀ screen bytes, e ≠ .shown screen bytes

theorem countedBytes_append (es es' : List WatchEvent) :
    countedBytes (es ++ es') = countedBytes es + countedBytes es' := by
  unfold countedBytes
  rw [List.map_append, List.sum_append]

theorem countedBytes_snoc (es : List WatchEvent) (e : WatchEvent) :
    countedBytes (es ++ [e]) = countedBytes es + e.counted := by
  rw [countedBytes_append]
  rfl

theorem shownBytes_snoc (screen : Screen) (es : List WatchEvent) (e : WatchEvent) :
    shownBytes screen (es ++ [e]) = shownBytes screen es + e.shownOn screen := by
  unfold shownBytes
  rw [List.map_append, List.sum_append]
  rfl

/-- The bytes counted, if any. -/
def amount : Option (Nat × UInt64) → Nat
  | none => 0
  | some (_, bytes) => bytes.toNat

theorem counted_moved (e : PipelineEvent) (c : Option (Nat × UInt64)) :
    (WatchEvent.moved e c).counted = amount c := by
  cases c <;> rfl

/-- The counters as numbers. -/
def Watched.row (w : Watched) : Nat → Nat := fun j => (w.totalSendByte j).toNat

/-- **Counting**: while the bytes fit in 64 bits the counters add up, and each
    of them only grows. -/
theorem addBytes_row {gNums : Nat} {bytes : Nat → UInt64} {c : Option (Nat × UInt64)}
    (hc : ∀ p, c = some p → p.1 < gNums)
    (hfits : ∑ j ∈ Finset.range gNums, (bytes j).toNat + amount c < 2 ^ 64) :
    ∑ j ∈ Finset.range gNums, (addBytes bytes c j).toNat
        = ∑ j ∈ Finset.range gNums, (bytes j).toNat + amount c
      ∧ ∀ j, (bytes j).toNat ≤ (addBytes bytes c j).toNat := by
  cases c with
  | none => exact ⟨rfl, fun _ => le_refl _⟩
  | some p =>
      obtain ⟨i, b⟩ := p
      have hi : i < gNums := hc (i, b) rfl
      have hle : (bytes i).toNat ≤ ∑ j ∈ Finset.range gNums, (bytes j).toNat :=
        Finset.single_le_sum (f := fun j => (bytes j).toNat) (fun _ _ => Nat.zero_le _)
          (Finset.mem_range.mpr hi)
      have hsum : (bytes i + b).toNat = (bytes i).toNat + b.toNat := by
        rw [UInt64.toNat_add]
        apply Nat.mod_eq_of_lt
        change _ + b.toNat < 2 ^ 64 at hfits
        omega
      refine ⟨?_, fun j => ?_⟩
      · have hupdate := sum_update_range hi UInt64.toNat bytes (bytes i + b)
        rw [hsum] at hupdate
        show ∑ j ∈ Finset.range gNums, (Function.update bytes i (bytes i + b) j).toNat
          = _ + b.toNat
        omega
      · show _ ≤ (Function.update bytes i (bytes i + b) j).toNat
        by_cases hji : j = i
        · rw [hji, Function.update_self, hsum]
          exact Nat.le_add_right _ _
        · rw [Function.update_of_ne hji]

/-! ## §4. Steps. -/

section Steps

variable {mode : Mode} {cfg : Config} {gNums pNums : Nat} {numbers pktlen : UInt32}
  {w w' : Watched} {es : List WatchEvent}

/-- A step of the pipeline under its display. -/
inductive WatchedStep (mode : Mode) (cfg : Config) (gNums pNums : Nat) (numbers pktlen : UInt32)
    (w : Watched) : WatchCall → WatchEvent → Watched → Prop where
  | worked {call : PipelineCall} {e : PipelineEvent} {s' : Stages} :
      ObservedStep mode cfg gNums pNums numbers w.stages call e s' →
      WatchedStep mode cfg gNums pNums numbers pktlen w (.work call)
        (.moved e (counts mode pktlen w.stages call))
        { w with stages := s'
                 totalSendByte := addBytes w.totalSendByte (counts mode pktlen w.stages call) }
  | displayed {polled : Int32} {e : WatchEvent} {d' : Display} :
      DisplayStep gNums w.totalSendByte w.display d' e →
      WatchedStep mode cfg gNums pNums numbers pktlen w (.display polled) e
        { w with display := d' }

/-- Only generators count. -/
theorem counts_lt {call : PipelineCall} {e : PipelineEvent} {s s' : Stages}
    (h : ObservedStep mode cfg gNums pNums numbers s call e s') :
    ∀ p, counts mode pktlen s call = some p → p.1 < gNums := by
  intro p hp
  obtain ⟨q, hq, rfl⟩ := Option.map_eq_some_iff.mp hp
  cases h with
  | generator hi _ =>
      unfold roundEnds at hq
      dsimp only at hq
      split at hq
      · rw [← Option.some.inj hq]
        exact hi
      · rw [← Option.some.inj hq]
        exact hi
      · exact absurd hq (by simp)
  | parser _ _ => exact absurd hq (by simp [roundEnds])
  | manager _ _ => exact absurd hq (by simp [roundEnds])
  | cleaned _ _ _ => exact absurd hq (by simp [roundEnds])

/-! ## §5. Counters, readings and screens. -/

/-- **The invariant of a run** whose bytes fit in 64 bits. -/
structure DisplayInv (gNums : Nat) (es : List WatchEvent) (w : Watched) : Prop where
  row : ∑ j ∈ Finset.range gNums, w.row j = countedBytes es
  /-- `old` is what the screen has shown in all. -/
  old : ∀ screen, (w.display.old screen).toNat = shownBytes screen es
  le : ∀ screen, shownBytes screen es ≤ countedBytes es
  /-- `new` is 0 between two readings. -/
  between : ∀ screen, (∀ i, w.display.pc ≠ .reading screen i) → w.display.new screen = 0
  /-- A reading began after the last one of its screen. -/
  reading : ∀ screen i, w.display.pc = .reading screen i → i ≤ gNums
    ∧ ∃ first, shownBytes screen es ≤ ∑ j ∈ Finset.range gNums, first j
      ∧ Collected first w.row i (w.display.new screen).toNat

/-- The next counter is added to `new`. -/
theorem toNat_new_add {gNums i : Nat} {first : Nat → Nat} {new : UInt64}
    (hcollected : Collected first w.row i new.toNat) (hi : i < gNums)
    (hfits : ∑ j ∈ Finset.range gNums, w.row j < 2 ^ 64) :
    (new + w.totalSendByte i).toNat = new.toNat + w.row i := by
  have hread := hcollected.read.high
  have hpart : ∑ j ∈ Finset.range (i + 1), w.row j ≤ ∑ j ∈ Finset.range gNums, w.row j :=
    Finset.sum_le_sum_of_subset (Finset.range_subset_range.mpr hi)
  rw [UInt64.toNat_add]
  apply Nat.mod_eq_of_lt
  change new.toNat + w.row i < 2 ^ 64
  omega

theorem DisplayInv.worked (h : DisplayInv gNums es w) {call : PipelineCall} {e : PipelineEvent}
    {s' : Stages} (hstep : ObservedStep mode cfg gNums pNums numbers w.stages call e s')
    (hfits : countedBytes (es ++ [.moved e (counts mode pktlen w.stages call)]) < 2 ^ 64) :
    DisplayInv gNums (es ++ [.moved e (counts mode pktlen w.stages call)])
      { w with stages := s'
               totalSendByte := addBytes w.totalSendByte (counts mode pktlen w.stages call) } := by
  have hrow : ∑ j ∈ Finset.range gNums, (w.totalSendByte j).toNat = countedBytes es := h.row
  rw [countedBytes_snoc, counted_moved] at hfits
  obtain ⟨hsum, hgrow⟩ := addBytes_row (counts_lt hstep) (by rw [hrow]; exact hfits)
  have hshown : ∀ screen, shownBytes screen
      (es ++ [.moved e (counts mode pktlen w.stages call)]) = shownBytes screen es := by
    intro screen
    rw [shownBytes_snoc]
    rfl
  refine ⟨?_, ?_, ?_, h.between, ?_⟩
  · rw [countedBytes_snoc, counted_moved, ← hrow]
    exact hsum
  · intro screen
    rw [hshown]
    exact h.old screen
  · intro screen
    rw [hshown, countedBytes_snoc]
    exact (h.le screen).trans (Nat.le_add_right _ _)
  · intro screen i hpc
    obtain ⟨hi, first, hfirst, hcollected⟩ := h.reading screen i hpc
    refine ⟨hi, first, ?_, hcollected.grow hgrow⟩
    rw [hshown]
    exact hfirst

/-- A step of the display at which nothing is shown. -/
theorem DisplayInv.unseen (h : DisplayInv gNums es w) {d' : Display}
    (hold : d'.old = w.display.old)
    (hbetween : ∀ screen, (∀ i, d'.pc ≠ .reading screen i) → d'.new screen = 0)
    (hreading : ∀ screen i, d'.pc = .reading screen i → i ≤ gNums
      ∧ ∃ first, shownBytes screen es ≤ ∑ j ∈ Finset.range gNums, first j
        ∧ Collected first w.row i (d'.new screen).toNat) :
    DisplayInv gNums (es ++ [.quiet]) { w with display := d' } := by
  have hquiet : countedBytes (es ++ [.quiet]) = countedBytes es := by
    rw [countedBytes_snoc]
    rfl
  have hshown : ∀ screen, shownBytes screen (es ++ [.quiet]) = shownBytes screen es := by
    intro screen
    rw [shownBytes_snoc]
    rfl
  refine ⟨h.row.trans hquiet.symm, ?_, ?_, hbetween, ?_⟩
  · intro screen
    rw [hshown, ← h.old, ← hold]
  · intro screen
    rw [hshown, hquiet]
    exact h.le screen
  · intro screen i hpc
    rw [hshown]
    exact hreading screen i hpc

/-- **A screen shows its reading** less its last one. -/
theorem DisplayInv.showed (h : DisplayInv gNums es w) {screen : Screen} {i : Nat}
    (hpc : w.display.pc = .reading screen i) (hge : gNums ≤ i) :
    DisplayInv gNums (es ++ [.shown screen (w.display.new screen - w.display.old screen)])
      { w with display := { w.display with
          old := Function.update w.display.old screen (w.display.new screen)
          new := Function.update w.display.new screen 0
          pc := .polling } } := by
  obtain ⟨hle, first, hfirst, hcollected⟩ := h.reading screen i hpc
  obtain rfl : i = gNums := Nat.le_antisymm hle hge
  -- the new total has not fallen below the old one, so the difference is one of numbers
  have hold : w.display.old screen ≤ w.display.new screen := by
    rw [UInt64.le_iff_toNat_le, h.old]
    exact hfirst.trans hcollected.low
  -- this screen has shown up to the new total, the others nothing more
  have hself : shownBytes screen
      (es ++ [.shown screen (w.display.new screen - w.display.old screen)])
      = (w.display.new screen).toNat := by
    have hle := UInt64.le_iff_toNat_le.mp hold
    rw [shownBytes_snoc, ← h.old]
    show _ + (if screen = screen then _ else 0) = _
    rw [if_pos rfl, UInt64.toNat_sub_of_le _ _ hold]
    omega
  have hother : ∀ other, other ≠ screen → shownBytes other
      (es ++ [.shown screen (w.display.new screen - w.display.old screen)])
      = shownBytes other es := by
    intro other hne
    rw [shownBytes_snoc]
    show _ + (if screen = other then _ else 0) = _
    rw [if_neg (Ne.symm hne), Nat.add_zero]
  have hcounted : countedBytes
      (es ++ [.shown screen (w.display.new screen - w.display.old screen)])
      = countedBytes es := by
    rw [countedBytes_snoc]
    rfl
  refine ⟨h.row.trans hcounted.symm, ?_, ?_, ?_, ?_⟩
  · intro other
    dsimp only
    by_cases hne : other = screen
    · rw [hne, hself, Function.update_self]
    · rw [hother other hne, Function.update_of_ne hne]
      exact h.old other
  · intro other
    rw [hcounted]
    by_cases hne : other = screen
    · rw [hne, hself, ← h.row]
      exact hcollected.high
    · rw [hother other hne]
      exact h.le other
  · intro other _
    dsimp only
    by_cases hne : other = screen
    · rw [hne, Function.update_self]
    · rw [Function.update_of_ne hne]
      refine h.between other ?_
      intro j hj
      rw [hpc] at hj
      exact hne (DisplayPc.reading.inj hj).1.symm
  · intro other j hreading
    exact absurd hreading (by simp)

theorem DisplayInv.displayed (h : DisplayInv gNums es w) {e : WatchEvent} {d' : Display}
    (hstep : DisplayStep gNums w.totalSendByte w.display d' e)
    (hfits : countedBytes es < 2 ^ 64) :
    DisplayInv gNums (es ++ [e]) { w with display := d' } := by
  cases hstep with
  | turned hpc =>
      refine h.unseen rfl (fun screen _ => h.between screen (by rw [hpc]; simp)) ?_
      intro screen i hreading
      exact absurd hreading (by simp)
  | @began count screen hpc =>
      refine h.unseen rfl (fun other _ => h.between other (by rw [hpc]; simp)) ?_
      intro other i hreading
      obtain ⟨rfl, rfl⟩ := DisplayPc.reading.inj hreading
      -- a round of reading starts from 0
      have hzero : w.display.new screen = 0 := h.between screen (by rw [hpc]; simp)
      refine ⟨Nat.zero_le _, w.row, ?_, ?_⟩
      · rw [h.row]
        exact h.le screen
      · dsimp only
        rw [hzero]
        exact Collected.start w.row
  | @read screen i hpc hlt =>
      obtain ⟨_, first, hfirst, hcollected⟩ := h.reading screen i hpc
      refine h.unseen rfl ?_ ?_
      · intro other hother
        -- the other screens are not being read
        have hne : other ≠ screen := by
          intro heq
          exact hother (i + 1) (by rw [heq])
        dsimp only
        rw [Function.update_of_ne hne]
        refine h.between other ?_
        intro j hj
        rw [hpc] at hj
        exact hne (DisplayPc.reading.inj hj).1.symm
      · intro other j hreading
        obtain ⟨rfl, rfl⟩ := DisplayPc.reading.inj hreading
        -- no carry: the sum is at most what is counted
        refine ⟨hlt, first, hfirst, ?_⟩
        dsimp only
        rw [Function.update_self, toNat_new_add hcollected hlt (by rw [h.row]; exact hfits)]
        exact hcollected.read
  | showed hpc hge => exact h.showed hpc hge
  | polled hpc =>
      refine h.unseen rfl (fun screen _ => h.between screen (by rw [hpc]; simp)) ?_
      intro screen i hreading
      exact absurd hreading (by simp)

/-- **Every step keeps it**, while the bytes fit. -/
theorem DisplayInv.step (h : DisplayInv gNums es w) {call : WatchCall} {e : WatchEvent}
    (hstep : WatchedStep mode cfg gNums pNums numbers pktlen w call e w')
    (hfits : countedBytes (es ++ [e]) < 2 ^ 64) : DisplayInv gNums (es ++ [e]) w' := by
  cases hstep with
  | worked hwork => exact h.worked hwork hfits
  | displayed hdisplay =>
      refine h.displayed hdisplay (Nat.lt_of_le_of_lt ?_ hfits)
      rw [countedBytes_snoc]
      exact Nat.le_add_right _ _

/-- A screen is being read since the counters were `first`. -/
def ReadingSince (gNums : Nat) (first : Nat → Nat) (screen : Screen) (w : Watched) : Prop :=
  ∃ i ≤ gNums, w.display.pc = .reading screen i
    ∧ Collected first w.row i (w.display.new screen).toNat

/-- Until the screen shows it the reading goes on. -/
theorem ReadingSince.step {first : Nat → Nat} {screen : Screen}
    (h : ReadingSince gNums first screen w) (hinv : DisplayInv gNums es w) {call : WatchCall}
    {e : WatchEvent} (hstep : WatchedStep mode cfg gNums pNums numbers pktlen w call e w')
    (hquiet : ∀ other bytes, e ≠ .shown other bytes)
    (hfits : countedBytes (es ++ [e]) < 2 ^ 64) : ReadingSince gNums first screen w' := by
  obtain ⟨i, hi, hpc, hcollected⟩ := h
  cases hstep with
  | worked hwork =>
      have hrow : ∑ j ∈ Finset.range gNums, (w.totalSendByte j).toNat = countedBytes es := hinv.row
      rw [countedBytes_snoc, counted_moved] at hfits
      exact ⟨i, hi, hpc,
        hcollected.grow (addBytes_row (counts_lt hwork) (by rw [hrow]; exact hfits)).2⟩
  | displayed hdisplay =>
      cases hdisplay with
      | turned hother => exact absurd (hpc.symm.trans hother) (by simp)
      | began hother => exact absurd (hpc.symm.trans hother) (by simp)
      | polled hother => exact absurd (hpc.symm.trans hother) (by simp)
      | showed _ _ => exact absurd rfl (hquiet _ _)
      | @read other k hread hlt =>
          obtain ⟨rfl, rfl⟩ := DisplayPc.reading.inj (hread.symm.trans hpc)
          refine ⟨k + 1, hlt, rfl, ?_⟩
          have hrow : ∑ j ∈ Finset.range gNums, w.row j < 2 ^ 64 := by
            rw [hinv.row]
            refine Nat.lt_of_le_of_lt ?_ hfits
            rw [countedBytes_snoc]
            exact Nat.le_add_right _ _
          dsimp only
          rw [Function.update_self, toNat_new_add hcollected hlt hrow]
          exact hcollected.read

/-- The screen that is read is the one that shows, and shows all it has
    read. -/
theorem ReadingSince.shows {first : Nat → Nat} {screen other : Screen} {bytes : UInt64}
    (h : ReadingSince gNums first screen w) {call : WatchCall}
    (hstep : WatchedStep mode cfg gNums pNums numbers pktlen w call (.shown other bytes) w') :
    ∑ j ∈ Finset.range gNums, first j ≤ (w'.display.old screen).toNat := by
  obtain ⟨i, hi, hpc, hcollected⟩ := h
  cases hstep with
  | displayed hdisplay =>
      cases hdisplay with
      | @showed _ k hread hge =>
          obtain ⟨rfl, rfl⟩ := DisplayPc.reading.inj (hread.symm.trans hpc)
          obtain rfl : k = gNums := Nat.le_antisymm hi hge
          dsimp only
          rw [Function.update_self]
          exact hcollected.low

/-! ## §7. The pipeline below. -/

/-- What is seen of the pipeline. -/
def WatchEvent.move : WatchEvent → Option PipelineEvent
  | .moved e _ => some e
  | _ => none

def moves (es : List WatchEvent) : List PipelineEvent := es.filterMap WatchEvent.move

/-- The pipeline's call, if it is one. -/
def WatchCall.work? : WatchCall → Option PipelineCall
  | .work call => some call
  | .display _ => none

/-- **The display does not disturb the pipeline**: below it there is a run of
    the pipeline. -/
theorem watched_run_stages {calls : List WatchCall}
    (h : (watched mode cfg gNums pNums numbers pktlen).run w calls = some (w', es)) :
    (observedPipeline mode cfg gNums pNums numbers).run w.stages (calls.filterMap WatchCall.work?)
      = some (w'.stages, moves es) := by
  induction calls generalizing w es with
  | nil =>
      obtain ⟨rfl, rfl⟩ := Prod.mk.inj (Option.some.inj h)
      rfl
  | cons call calls ih =>
      obtain ⟨w₁, e, rest, hstep, hrun, rfl⟩ := (Machine.run_cons_eq_some _).mp h
      have hrest := ih hrun
      cases call with
      | work call =>
          obtain ⟨⟨s', e'⟩, hwork, heq⟩ := Option.map_eq_some_iff.mp hstep
          obtain ⟨rfl, rfl⟩ := Prod.mk.inj heq
          exact (Machine.run_cons_eq_some _).mpr ⟨s', e', moves rest, hwork, hrest, rfl⟩
      | display polled =>
          obtain ⟨⟨d', e'⟩, hdisplay, heq⟩ := Option.map_eq_some_iff.mp hstep
          obtain ⟨rfl, rfl⟩ := Prod.mk.inj heq
          have hmove : e'.move = none := by
            cases displayStep_cases hdisplay <;> rfl
          unfold moves at hrest ⊢
          rw [List.filterMap_cons_none hmove]
          exact hrest

/-- A display from its beginning on: it is read, until it shows what was
    counted before. -/
structure Displaying (gNums : Nat) (before : List WatchEvent) (first : Nat → Nat)
    (screen : Screen) (es : List WatchEvent) (w : Watched) : Prop where
  inv : DisplayInv gNums (before ++ es) w
  reading : Unshown es → ReadingSince gNums first screen w
  shows : ∀ es' bytes, es = es' ++ [.shown screen bytes] → Unshown es' →
    ∑ j ∈ Finset.range gNums, first j ≤ (w.display.old screen).toNat

theorem Displaying.step {before : List WatchEvent} {first : Nat → Nat} {screen : Screen}
    (h : Displaying gNums before first screen es w) {call : WatchCall} {e : WatchEvent}
    (hstep : WatchedStep mode cfg gNums pNums numbers pktlen w call e w')
    (hfits : countedBytes (before ++ (es ++ [e])) < 2 ^ 64) :
    Displaying gNums before first screen (es ++ [e]) w' := by
  rw [← List.append_assoc] at hfits
  refine ⟨?_, ?_, ?_⟩
  · rw [← List.append_assoc]
    exact h.inv.step hstep hfits
  · intro hquiet
    exact (h.reading fun e' he' => hquiet e' (List.mem_append_left _ he')).step h.inv hstep
      (hquiet e (List.mem_append_right _ List.mem_cons_self)) hfits
  · intro es' bytes heq hquiet
    obtain ⟨rfl, hlast⟩ := List.append_inj' heq rfl
    rw [(List.cons.inj hlast).1] at hstep
    exact (h.reading hquiet).shows hstep

end Steps

end FreePacket.Stats
