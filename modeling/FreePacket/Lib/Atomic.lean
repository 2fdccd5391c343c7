/-
  FreePacket.Lib.Atomic
  ─────────────────────
  **ATOMIC OBJECTS: linearizability as a simulation.**

  A machine that answers every call at once becomes an object that threads
  share: a thread calls, the call takes effect at one instant, and the thread
  returns with the reply of that instant (`atomic m`).  An implementation
  whose calls take many steps shows the same calls and returns and hides the
  rest; it is linearizable when what it shows could have been shown by the
  atomic object.

  Main results:
    * `effects_run` — the calls of an atomic object, in the order in which
      they took effect, are a run of the sequential machine.
    * `Threads` / `threads_run` — for each thread the effects lie between the
      calls and the returns, so the order of the effects respects real time.
    * `linearized_of_simulation` — an implementation step matched by moves
      that show the same gives an implementation run matched by a run.

  Nothing here names a program.
-/
import FreePacket.Lib.Machine

namespace FreePacket.Lib.Atomic

variable {σ κ ρ : Type*}

/-! ## §1. The atomic object of a machine. -/

/-- What a thread is doing with the object. -/
inductive Phase (κ ρ : Type*) where
  | idle
  /-- The call is made and has not taken effect. -/
  | called (c : κ)
  /-- The call has taken effect, with this reply, and has not returned. -/
  | done (c : κ) (r : ρ)

/-- The state of the machine, and what every thread is doing. -/
structure Object (σ κ ρ : Type*) where
  state : σ
  phase : Nat → Phase κ ρ

/-- A move of thread `t`. -/
inductive Move (κ : Type*) where
  | call (t : Nat) (c : κ)
  | effect (t : Nat)
  | ret (t : Nat)

inductive Event (κ ρ : Type*) where
  | call (t : Nat) (c : κ)
  | effect (t : Nat) (c : κ) (r : ρ)
  | ret (t : Nat) (c : κ) (r : ρ)

/-- What the threads themselves see: their calls and the replies they get. -/
inductive Seen (κ ρ : Type*) where
  | call (t : Nat) (c : κ)
  | ret (t : Nat) (r : ρ)

/-- The instant of the effect is hidden. -/
def Event.seen : Event κ ρ → Option (Seen κ ρ)
  | .call t c => some (.call t c)
  | .effect _ _ _ => none
  | .ret t _ r => some (.ret t r)

/-- The object under any interleaving of its threads. -/
def atomic (m : Machine σ κ ρ) : Machine (Object σ κ ρ) (Move κ) (Event κ ρ) where
  step o a :=
    match a with
    | .call t c =>
        match o.phase t with
        | .idle => some ({ o with phase := Function.update o.phase t (.called c) }, .call t c)
        | _ => none
    | .effect t =>
        match o.phase t with
        | .called c =>
            (m.step o.state c).map fun p =>
              ({ state := p.1, phase := Function.update o.phase t (.done c p.2) },
                .effect t c p.2)
        | _ => none
    | .ret t =>
        match o.phase t with
        | .done c r => some ({ o with phase := Function.update o.phase t .idle }, .ret t c r)
        | _ => none

/-- An object nobody is using. -/
def fresh (s : σ) : Object σ κ ρ := { state := s, phase := fun _ => .idle }

section Steps

variable {m : Machine σ κ ρ} {o : Object σ κ ρ} {t : Nat} {c : κ} {r : ρ}

theorem atomic_call (h : o.phase t = .idle) (c : κ) :
    (atomic m).step o (.call t c)
      = some ({ o with phase := Function.update o.phase t (.called c) }, .call t c) := by
  simp only [atomic, h]

theorem atomic_effect (h : o.phase t = .called c) {s' : σ} (hm : m.step o.state c = some (s', r)) :
    (atomic m).step o (.effect t)
      = some ({ state := s', phase := Function.update o.phase t (.done c r) }, .effect t c r) := by
  simp only [atomic, h, hm, Option.map_some]

theorem atomic_ret (h : o.phase t = .done c r) :
    (atomic m).step o (.ret t)
      = some ({ o with phase := Function.update o.phase t .idle }, .ret t c r) := by
  simp only [atomic, h]

/-- **Everything a move can do.** -/
theorem atomic_cases {a : Move κ} {o' : Object σ κ ρ} {e : Event κ ρ}
    (h : (atomic m).step o a = some (o', e)) :
    (∃ t c, o.phase t = .idle ∧ e = .call t c
        ∧ o' = { o with phase := Function.update o.phase t (.called c) })
      ∨ (∃ t c r s', o.phase t = .called c ∧ m.step o.state c = some (s', r) ∧ e = .effect t c r
        ∧ o' = { state := s', phase := Function.update o.phase t (.done c r) })
      ∨ (∃ t c r, o.phase t = .done c r ∧ e = .ret t c r
        ∧ o' = { o with phase := Function.update o.phase t .idle }) := by
  cases a with
  | call t c =>
      cases hp : o.phase t with
      | idle =>
          rw [atomic_call hp, Option.some.injEq, Prod.mk.injEq] at h
          exact .inl ⟨t, c, hp, h.2.symm, h.1.symm⟩
      | called c' => simp [atomic, hp] at h
      | done c' r => simp [atomic, hp] at h
  | effect t =>
      cases hp : o.phase t with
      | idle => simp [atomic, hp] at h
      | called c =>
          cases hm : m.step o.state c with
          | none => simp [atomic, hp, hm] at h
          | some p =>
              rw [atomic_effect hp hm, Option.some.injEq, Prod.mk.injEq] at h
              exact .inr (.inl ⟨t, c, p.2, p.1, hp, hm, h.2.symm, h.1.symm⟩)
      | done c r => simp [atomic, hp] at h
  | ret t =>
      cases hp : o.phase t with
      | idle => simp [atomic, hp] at h
      | called c => simp [atomic, hp] at h
      | done c r =>
          rw [atomic_ret hp, Option.some.injEq, Prod.mk.injEq] at h
          exact .inr (.inr ⟨t, c, r, hp, h.2.symm, h.1.symm⟩)

end Steps

/-! ## §2. The effects are a sequential run. -/

/-- The calls that took effect, with their replies, in the order they did. -/
def effects (es : List (Event κ ρ)) : List (κ × ρ) :=
  es.filterMap fun e => match e with | .effect _ c r => some (c, r) | _ => none

theorem effects_snoc (es : List (Event κ ρ)) (e : Event κ ρ) :
    effects (es ++ [e]) = effects es ++ effects [e] := List.filterMap_append ..

/-- **One call after the other**: whatever the threads interleave, the effects
    are a run of the sequential machine. -/
theorem effects_run {m : Machine σ κ ρ} {s : σ} {moves : List (Move κ)} {o : Object σ κ ρ}
    {es : List (Event κ ρ)} (hrun : (atomic m).run (fresh s) moves = some (o, es)) :
    m.run s ((effects es).map Prod.fst) = some (o.state, (effects es).map Prod.snd) := by
  refine (atomic m).run_trace_induction (fun _ es o =>
    m.run s ((effects es).map Prod.fst) = some (o.state, (effects es).map Prod.snd))
    ?_ hrun rfl
  intro as es o a o' e hI hst
  rw [effects_snoc]
  obtain ⟨t, c, _, rfl, rfl⟩ | ⟨t, c, r, s', _, hm, rfl, rfl⟩ | ⟨t, c, r, _, rfl, rfl⟩ :=
    atomic_cases hst
  · rw [show effects [(Event.call t c : Event κ ρ)] = [] from rfl, List.append_nil]
    exact hI
  · rw [show effects [Event.effect t c r] = [(c, r)] from rfl, List.map_append, List.map_append]
    exact m.run_append.mpr ⟨o.state, _, [r], hI, m.run_singleton hm, rfl⟩
  · rw [show effects [Event.ret t c r] = [] from rfl, List.append_nil]
    exact hI

/-! ## §3. Real time. -/

/-- The calls thread `t` has made. -/
def callsBy (t : Nat) (es : List (Event κ ρ)) : List κ :=
  es.filterMap fun e => match e with | .call t' c => if t' = t then some c else none | _ => none

/-- Those of them that took effect. -/
def effectsBy (t : Nat) (es : List (Event κ ρ)) : List (κ × ρ) :=
  es.filterMap fun e =>
    match e with | .effect t' c r => if t' = t then some (c, r) else none | _ => none

/-- Those of them that returned. -/
def retsBy (t : Nat) (es : List (Event κ ρ)) : List (κ × ρ) :=
  es.filterMap fun e =>
    match e with | .ret t' c r => if t' = t then some (c, r) else none | _ => none

/-- The call that waits for its effect. -/
def Phase.waiting : Phase κ ρ → List κ
  | .called c => [c]
  | _ => []

/-- The effect that waits for its return. -/
def Phase.unreturned : Phase κ ρ → List (κ × ρ)
  | .done c r => [(c, r)]
  | _ => []

/-- **Call, effect, return**, for every thread and in this order: a thread's
    effects are its calls except the last one that waits, and its returns are
    its effects except the last one that waits. -/
structure Threads (o : Object σ κ ρ) (es : List (Event κ ρ)) : Prop where
  calls : ∀ t, callsBy t es = (effectsBy t es).map Prod.fst ++ (o.phase t).waiting
  returns : ∀ t, effectsBy t es = retsBy t es ++ (o.phase t).unreturned

theorem callsBy_snoc (t : Nat) (es : List (Event κ ρ)) (e : Event κ ρ) :
    callsBy t (es ++ [e]) = callsBy t es ++ callsBy t [e] := List.filterMap_append ..

theorem effectsBy_snoc (t : Nat) (es : List (Event κ ρ)) (e : Event κ ρ) :
    effectsBy t (es ++ [e]) = effectsBy t es ++ effectsBy t [e] := List.filterMap_append ..

theorem retsBy_snoc (t : Nat) (es : List (Event κ ρ)) (e : Event κ ρ) :
    retsBy t (es ++ [e]) = retsBy t es ++ retsBy t [e] := List.filterMap_append ..

theorem Threads.step {m : Machine σ κ ρ} {o o' : Object σ κ ρ} {es : List (Event κ ρ)}
    {a : Move κ} {e : Event κ ρ} (h : Threads o es) (hst : (atomic m).step o a = some (o', e)) :
    Threads o' (es ++ [e]) := by
  -- a move touches the phase of its own thread only
  constructor
  · intro u
    have hu := h.calls u
    rw [callsBy_snoc, effectsBy_snoc]
    obtain ⟨t, c, hp, rfl, rfl⟩ | ⟨t, c, r, s', hp, _, rfl, rfl⟩ | ⟨t, c, r, hp, rfl, rfl⟩ :=
      atomic_cases hst
    · by_cases htu : u = t
      · subst htu
        simpa [callsBy, effectsBy, hp, Phase.waiting] using hu
      · simpa [callsBy, effectsBy, Function.update_of_ne htu, Ne.symm htu] using hu
    · by_cases htu : u = t
      · subst htu
        simpa [callsBy, effectsBy, hp, Phase.waiting] using hu
      · simpa [callsBy, effectsBy, Function.update_of_ne htu, Ne.symm htu] using hu
    · by_cases htu : u = t
      · subst htu
        simpa [callsBy, effectsBy, hp, Phase.waiting] using hu
      · simpa [callsBy, effectsBy, Function.update_of_ne htu] using hu
  · intro u
    have hu := h.returns u
    rw [effectsBy_snoc, retsBy_snoc]
    obtain ⟨t, c, hp, rfl, rfl⟩ | ⟨t, c, r, s', hp, _, rfl, rfl⟩ | ⟨t, c, r, hp, rfl, rfl⟩ :=
      atomic_cases hst
    · by_cases htu : u = t
      · subst htu
        simpa [retsBy, effectsBy, hp, Phase.unreturned] using hu
      · simpa [retsBy, effectsBy, Function.update_of_ne htu] using hu
    · by_cases htu : u = t
      · subst htu
        simpa [retsBy, effectsBy, hp, Phase.unreturned] using hu
      · simpa [retsBy, effectsBy, Function.update_of_ne htu, Ne.symm htu] using hu
    · by_cases htu : u = t
      · subst htu
        simpa [retsBy, effectsBy, hp, Phase.unreturned] using hu
      · simpa [retsBy, effectsBy, Function.update_of_ne htu, Ne.symm htu] using hu

theorem threads_run {m : Machine σ κ ρ} {s : σ} {moves : List (Move κ)} {o : Object σ κ ρ}
    {es : List (Event κ ρ)} (hrun : (atomic m).run (fresh s) moves = some (o, es)) :
    Threads o es :=
  (atomic m).run_trace_induction (fun _ es o => Threads o es)
    (fun _ _ _ _ _ _ h hst => h.step hst) hrun ⟨fun _ => rfl, fun _ => rfl⟩

/-! ## §4. Implementations. -/

/-- What a row of events shows. -/
def shown (es : List (Event κ ρ)) : List (Seen κ ρ) := es.filterMap Event.seen

/-- What an implementation shows of its steps. -/
def visible (es : List (Option (Seen κ ρ))) : List (Seen κ ρ) := es.filterMap id

variable {S A : Type*}

/-- **Linearized**: a run that shows `vs` could have been one of the atomic
    object of `m`, with `R` between the states reached. -/
def Linearized (m : Machine σ κ ρ) (o : Object σ κ ρ) (R : Object σ κ ρ → Prop)
    (vs : List (Seen κ ρ)) : Prop :=
  ∃ moves o' os, (atomic m).run o moves = some (o', os) ∧ shown os = vs ∧ R o'

/-- No move at all. -/
theorem Linearized.rest {m : Machine σ κ ρ} {o : Object σ κ ρ} {R : Object σ κ ρ → Prop}
    (h : R o) : Linearized m o R [] := ⟨[], o, [], rfl, rfl, h⟩

/-- One move. -/
theorem Linearized.move {m : Machine σ κ ρ} {o o' : Object σ κ ρ} {R : Object σ κ ρ → Prop}
    {a : Move κ} {e : Event κ ρ} (hst : (atomic m).step o a = some (o', e)) (h : R o') :
    Linearized m o R e.seen.toList := by
  refine ⟨[a], o', [e], (atomic m).run_singleton hst, ?_, h⟩
  cases e <;> rfl

/-- One after the other. -/
theorem Linearized.append {m : Machine σ κ ρ} {o : Object σ κ ρ} {R Q : Object σ κ ρ → Prop}
    {vs ws : List (Seen κ ρ)} (h : Linearized m o R vs)
    (hnext : ∀ o', R o' → Linearized m o' Q ws) : Linearized m o Q (vs ++ ws) := by
  obtain ⟨moves, o', os, hrun, hos, hR⟩ := h
  obtain ⟨moves', o'', os', hrun', hos', hQ⟩ := hnext o' hR
  refine ⟨moves ++ moves', o'', os ++ os',
    (atomic m).run_append.mpr ⟨o', os, os', hrun, hrun', rfl⟩, ?_, hQ⟩
  unfold shown at hos hos' ⊢
  rw [List.filterMap_append, hos, hos']

/-- **The simulation rule**: where every step that meets `C` is matched by
    moves that show the same, every run along `C` is. -/
theorem linearized_of_simulation (c : Machine S A (Option (Seen κ ρ))) (m : Machine σ κ ρ)
    {C : S → A → Prop} (R : S → Object σ κ ρ → Prop)
    (hsim : ∀ s o a s' e, R s o → C s a → c.step s a = some (s', e) →
      Linearized m o (R s') e.toList)
    {as : List A} {s s' : S} {es : List (Option (Seen κ ρ))} {o : Object σ κ ρ}
    (hC : c.Along C s as) (hrun : c.run s as = some (s', es)) (hR : R s o) :
    Linearized m o (R s') (visible es) := by
  induction as generalizing s es o with
  | nil =>
      rw [Machine.run_nil, Option.some.injEq, Prod.mk.injEq] at hrun
      rw [← hrun.1, ← hrun.2]
      exact Linearized.rest hR
  | cons a as ih =>
      obtain ⟨s₁, e, es', hst, hr, rfl⟩ := c.run_cons_eq_some.mp hrun
      obtain ⟨hCa, hrest⟩ := (c.along_cons hst).mp hC
      have happ : visible (e :: es') = e.toList ++ visible es' := by
        unfold visible
        cases e <;> simp
      rw [happ]
      exact (hsim s o a s₁ e hR hCa hst).append fun o' hR' => ih hrest hr hR'

end FreePacket.Lib.Atomic
