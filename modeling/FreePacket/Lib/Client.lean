/-
  FreePacket.Lib.Client
  ─────────────────────
  **PROGRAMS OVER SHARED OBJECTS: linearizable calls are one step.**

  Threads run on state of their own and on a memory they share, and call
  objects of a family.  A call takes many steps of its object, and others
  move in between.  Where the object is linearizable, the program cannot
  tell: every run of the threads over the implementations is one over objects
  whose calls are a single step (`whole`).

  It goes in two stages.  Each implementation is replaced by the atomic object
  it is simulated by, one move for one move or more (`composed_step`).  A call
  of an atomic object then shrinks to its effect, and the thread is put ahead
  to where it goes on with the reply (`collapses_step`).

  Main results:
    * `composed_step` — linearizability composes over a family of objects.
    * `collapses_step` — calls, effects and returns are single steps.
    * `whole_of_composed` — the two together, over a run.

  Nothing here names a program.
-/
import FreePacket.Lib.Atomic

namespace FreePacket.Lib.Atomic

/-! ## §1. Threads and their objects. -/

/-- What the threads do between calls: `wants` is the call a thread is at,
    `resume` where it goes on with the reply, `move` a step of its own, which
    may use the shared memory and takes from outside what it reads there. -/
structure Client (ι κ ρ L G B : Type*) where
  wants : Nat → L → Option (ι × κ)
  resume : Nat → L → ρ → L
  move : Nat → L → G → B → Option (L × G)

/-- The threads: where they are, their memory, and the objects they are inside. -/
structure Front (ι L G : Type*) where
  loc : Nat → L
  mem : G
  inside : Nat → Option ι

structure System (ι L G S : Type*) where
  front : Front ι L G
  objects : ι → S

inductive SystemAct (ι A B : Type*) where
  /-- Thread `t` makes the call it is at. -/
  | call (t : Nat)
  /-- Object `i` moves. -/
  | object (i : ι) (a : A)
  | move (t : Nat) (b : B)

section Composed

variable {ι κ ρ L G B S A : Type*} [DecidableEq ι]

/-- Thread `t` has called object `i`. -/
def Front.enter (f : Front ι L G) (t : Nat) (i : ι) : Front ι L G :=
  { f with inside := Function.update f.inside t (some i) }

/-- Thread `t` has returned and goes on at `l`. -/
def Front.leave (f : Front ι L G) (t : Nat) (l : L) : Front ι L G :=
  { f with loc := Function.update f.loc t l, inside := Function.update f.inside t none }

/-- Thread `t` has moved outside. -/
def Front.moved (f : Front ι L G) (t : Nat) (r : L × G) : Front ι L G :=
  { f with loc := Function.update f.loc t r.1, mem := r.2 }

/-- **The threads over objects that are implemented by `c`**; `invoke` is the
    action of `c` that starts a call. -/
def composed (p : Client ι κ ρ L G B) (c : Machine S A (Option (Seen κ ρ)))
    (invoke : Nat → κ → A) : Machine (System ι L G S) (SystemAct ι A B) Unit where
  step s a :=
    match a with
    | .call t =>
        match s.front.inside t, p.wants t (s.front.loc t) with
        | none, some (i, k) =>
            (c.step (s.objects i) (invoke t k)).map fun r =>
              (⟨s.front.enter t i, Function.update s.objects i r.1⟩, ())
        | _, _ => none
    | .object i a =>
        match c.step (s.objects i) a with
        | some (o, none) => some (⟨s.front, Function.update s.objects i o⟩, ())
        | some (o, some (.ret t r)) =>
            if s.front.inside t = some i then
              some (⟨s.front.leave t (p.resume t (s.front.loc t) r),
                Function.update s.objects i o⟩, ())
            else none
        | _ => none
    | .move t b =>
        match s.front.inside t with
        | none =>
            (p.move t (s.front.loc t) s.front.mem b).map fun r =>
              (⟨s.front.moved t r, s.objects⟩, ())
        | some _ => none

/-- **Everything a step can do.** -/
inductive ComposedStep (p : Client ι κ ρ L G B) (c : Machine S A (Option (Seen κ ρ)))
    (invoke : Nat → κ → A) (s : System ι L G S) : SystemAct ι A B → System ι L G S → Prop where
  | called {t : Nat} {i : ι} {k : κ} {o : S} {e : Option (Seen κ ρ)} :
      s.front.inside t = none → p.wants t (s.front.loc t) = some (i, k) →
      c.step (s.objects i) (invoke t k) = some (o, e) →
      ComposedStep p c invoke s (.call t) ⟨s.front.enter t i, Function.update s.objects i o⟩
  | silent {i : ι} {a : A} {o : S} :
      c.step (s.objects i) a = some (o, none) →
      ComposedStep p c invoke s (.object i a) ⟨s.front, Function.update s.objects i o⟩
  | returned {i : ι} {a : A} {o : S} {t : Nat} {r : ρ} :
      c.step (s.objects i) a = some (o, some (.ret t r)) → s.front.inside t = some i →
      ComposedStep p c invoke s (.object i a)
        ⟨s.front.leave t (p.resume t (s.front.loc t) r), Function.update s.objects i o⟩
  | moved {t : Nat} {b : B} {r : L × G} :
      s.front.inside t = none → p.move t (s.front.loc t) s.front.mem b = some r →
      ComposedStep p c invoke s (.move t b) ⟨s.front.moved t r, s.objects⟩

theorem composed_cases {p : Client ι κ ρ L G B} {c : Machine S A (Option (Seen κ ρ))}
    {invoke : Nat → κ → A} {s s' : System ι L G S} {a : SystemAct ι A B} {u : Unit}
    (h : (composed p c invoke).step s a = some (s', u)) : ComposedStep p c invoke s a s' := by
  cases a with
  | call t =>
      cases hin : s.front.inside t with
      | some i => simp [composed, hin] at h
      | none =>
          -- a thread outside, at a call
          cases hwants : p.wants t (s.front.loc t) with
          | none => simp [composed, hin, hwants] at h
          | some ik =>
              simp only [composed, hin, hwants] at h
              obtain ⟨r, hr, heq⟩ := Option.map_eq_some_iff.mp h
              obtain ⟨rfl, -⟩ := Prod.mk.inj heq
              exact .called hin hwants hr
  | object i a =>
      cases hst : c.step (s.objects i) a with
      | none => simp [composed, hst] at h
      | some r =>
          obtain ⟨o, e⟩ := r
          cases e with
          | none =>
              simp only [composed, hst, Option.some.injEq, Prod.mk.injEq] at h
              obtain ⟨rfl, -⟩ := h
              exact .silent hst
          | some e =>
              cases e with
              -- a call is shown by `invoke` only
              | call t k => simp [composed, hst] at h
              | ret t r =>
                  simp only [composed, hst, Option.ite_none_right_eq_some, Option.some.injEq,
                    Prod.mk.injEq] at h
                  obtain ⟨hin, rfl, -⟩ := h
                  exact .returned hst hin
  | move t b =>
      cases hin : s.front.inside t with
      | some i => simp [composed, hin] at h
      | none =>
          simp only [composed, hin] at h
          obtain ⟨r, hr, heq⟩ := Option.map_eq_some_iff.mp h
          obtain ⟨rfl, -⟩ := Prod.mk.inj heq
          exact .moved hin hr

/-! The steps, forward. -/

theorem composed_call (p : Client ι κ ρ L G B) (c : Machine S A (Option (Seen κ ρ)))
    (invoke : Nat → κ → A) {f : Front ι L G} {objects : ι → S} {t : Nat} {i : ι} {k : κ} {o o' : S}
    {e : Option (Seen κ ρ)} (hin : f.inside t = none) (hwants : p.wants t (f.loc t) = some (i, k))
    (ho : objects i = o) (hst : c.step o (invoke t k) = some (o', e)) :
    (composed p c invoke).step ⟨f, objects⟩ (.call t)
      = some (⟨f.enter t i, Function.update objects i o'⟩, ()) := by
  simp only [composed, hin, hwants, ho, hst, Option.map_some]

theorem composed_silent (p : Client ι κ ρ L G B) (c : Machine S A (Option (Seen κ ρ)))
    (invoke : Nat → κ → A) {f : Front ι L G} {objects : ι → S} {i : ι} {a : A} {o o' : S}
    (ho : objects i = o) (hst : c.step o a = some (o', none)) :
    (composed p c invoke).step ⟨f, objects⟩ (.object i a)
      = some (⟨f, Function.update objects i o'⟩, ()) := by
  simp only [composed, ho, hst]

theorem composed_ret (p : Client ι κ ρ L G B) (c : Machine S A (Option (Seen κ ρ)))
    (invoke : Nat → κ → A) {f : Front ι L G} {objects : ι → S} {i : ι} {a : A} {o o' : S} {t : Nat}
    {r : ρ} (ho : objects i = o) (hst : c.step o a = some (o', some (.ret t r)))
    (hin : f.inside t = some i) :
    (composed p c invoke).step ⟨f, objects⟩ (.object i a)
      = some (⟨f.leave t (p.resume t (f.loc t) r), Function.update objects i o'⟩, ()) := by
  simp only [composed, ho, hst, if_pos hin]

theorem composed_move (p : Client ι κ ρ L G B) (c : Machine S A (Option (Seen κ ρ)))
    (invoke : Nat → κ → A) {s : System ι L G S} {t : Nat} {b : B} {r : L × G}
    (hin : s.front.inside t = none) (hmove : p.move t (s.front.loc t) s.front.mem b = some r) :
    (composed p c invoke).step s (.move t b) = some (⟨s.front.moved t r, s.objects⟩, ()) := by
  simp only [composed, hin, hmove, Option.map_some]

end Composed

/-! ## §2. Atomic objects for implemented ones. -/

section Replace

variable {ι κ ρ σ L G B S A : Type*} [DecidableEq ι]

/-- The atomic object, with what it shows. -/
def shownAtomic (m : Machine σ κ ρ) : Machine (Object σ κ ρ) (Move κ) (Option (Seen κ ρ)) where
  step o a := ((atomic m).step o a).map fun r => (r.1, r.2.seen)

/-- The threads over atomic objects. -/
def overAtomic (p : Client ι κ ρ L G B) (m : Machine σ κ ρ) :
    Machine (System ι L G (Object σ κ ρ)) (SystemAct ι (Move κ) B) Unit :=
  composed p (shownAtomic m) Move.call

/-- Some run over atomic objects leads there. -/
def AtomicReaches (p : Client ι κ ρ L G B) (m : Machine σ κ ρ)
    (x y : System ι L G (Object σ κ ρ)) : Prop :=
  (overAtomic p m).Reaches (fun _ => True) x y

variable {p : Client ι κ ρ L G B} {m : Machine σ κ ρ}

theorem shownAtomic_step {o o' : Object σ κ ρ} {a : Move κ} {e : Event κ ρ}
    (h : (atomic m).step o a = some (o', e)) :
    (shownAtomic m).step o a = some (o', e.seen) := by
  simp only [shownAtomic, h, Option.map_some]

/-- Moves that show nothing are made one by one. -/
theorem atomicReaches_silent {f : Front ι L G} {i : ι} {moves : List (Move κ)} :
    ∀ {objects : ι → Object σ κ ρ} {o o' : Object σ κ ρ} {es : List (Event κ ρ)},
      objects i = o → (atomic m).run o moves = some (o', es) → shown es = [] →
        AtomicReaches p m ⟨f, objects⟩ ⟨f, Function.update objects i o'⟩ := by
  induction moves with
  | nil =>
      intro objects o o' es ho hrun _
      rw [Machine.run_nil, Option.some.injEq, Prod.mk.injEq] at hrun
      rw [← hrun.1, ← ho, Function.update_eq_self]
      exact .refl
  | cons a moves ih =>
      intro objects o o' es ho hrun hshown
      obtain ⟨o₁, e, es', hst, hrest, rfl⟩ := (atomic m).run_cons_eq_some.mp hrun
      -- no move shows anything, so none is a call or a return
      have he : e.seen = none := by
        cases e with
        | effect _ _ _ => rfl
        | call _ _ => exact absurd hshown (by simp [shown, Event.seen])
        | ret _ _ _ => exact absurd hshown (by simp [shown, Event.seen])
      have hshown' : shown es' = [] := by
        unfold shown at hshown ⊢
        rwa [List.filterMap_cons_none he] at hshown
      have hfirst := shownAtomic_step hst
      rw [he] at hfirst
      have hreach : AtomicReaches p m ⟨f, objects⟩ ⟨f, Function.update objects i o₁⟩ :=
        Machine.Reaches.refl.step trivial (composed_silent p _ _ ho hfirst)
      have hnext : AtomicReaches p m ⟨f, Function.update objects i o₁⟩ ⟨f, _⟩ :=
        ih (Function.update_self ..) hrest hshown'
      rw [Function.update_idem] at hnext
      exact hreach.trans hnext

/-- Moves that show one event have it at one place. -/
theorem run_shown_singleton {o o' : Object σ κ ρ} {moves : List (Move κ)} {v : Seen κ ρ}
    {es : List (Event κ ρ)} (hrun : (atomic m).run o moves = some (o', es))
    (hshown : shown es = [v]) :
    ∃ as₁ as₂ a e o₁ o₂ es₁ es₂, (atomic m).run o as₁ = some (o₁, es₁) ∧ shown es₁ = []
      ∧ (atomic m).step o₁ a = some (o₂, e) ∧ e.seen = some v
      ∧ (atomic m).run o₂ as₂ = some (o', es₂) ∧ shown es₂ = [] := by
  induction moves generalizing o es with
  | nil =>
      rw [Machine.run_nil, Option.some.injEq, Prod.mk.injEq] at hrun
      rw [← hrun.2] at hshown
      exact absurd hshown (by simp [shown])
  | cons a moves ih =>
      obtain ⟨o₁, e, es', hst, hrest, rfl⟩ := (atomic m).run_cons_eq_some.mp hrun
      unfold shown at hshown
      cases he : e.seen with
      | some w =>
          -- this is the move; nothing behind it shows anything
          rw [List.filterMap_cons_some he, List.cons.injEq] at hshown
          rw [hshown.1] at he
          exact ⟨[], moves, a, e, o, o₁, [], es', rfl, rfl, hst, he, hrest, hshown.2⟩
      | none =>
          -- it comes later
          rw [List.filterMap_cons_none he] at hshown
          obtain ⟨as₁, as₂, b, e', o₂, o₃, es₁, es₂, h₁, hs₁, hb, he', h₂, hs₂⟩ := ih hrest hshown
          refine ⟨a :: as₁, as₂, b, e', o₂, o₃, e :: es₁, es₂,
            (atomic m).run_cons_eq_some.mpr ⟨o₁, e, es₁, hst, h₁, rfl⟩, ?_, hb, he', h₂, hs₂⟩
          unfold shown at hs₁ ⊢
          rw [List.filterMap_cons_none he]
          exact hs₁

/-- Moves that show a return make it. -/
theorem atomicReaches_ret {f : Front ι L G} {i : ι} {objects : ι → Object σ κ ρ}
    {moves : List (Move κ)} {o o' : Object σ κ ρ} {es : List (Event κ ρ)} {t : Nat} {r : ρ}
    (ho : objects i = o) (hrun : (atomic m).run o moves = some (o', es))
    (hshown : shown es = [.ret t r]) (hin : f.inside t = some i) :
    AtomicReaches p m ⟨f, objects⟩
      ⟨f.leave t (p.resume t (f.loc t) r), Function.update objects i o'⟩ := by
  obtain ⟨as₁, as₂, a, e, o₁, o₂, es₁, es₂, h₁, hs₁, ha, he, h₂, hs₂⟩ :=
    run_shown_singleton hrun hshown
  have hbefore : AtomicReaches p m ⟨f, objects⟩ ⟨f, Function.update objects i o₁⟩ :=
    atomicReaches_silent ho h₁ hs₁
  have hstep := shownAtomic_step ha
  rw [he] at hstep
  have hret := hbefore.step trivial
    (composed_ret p (shownAtomic m) Move.call (Function.update_self ..) hstep hin)
  rw [Function.update_idem] at hret
  have hafter : AtomicReaches p m
      ⟨f.leave t (p.resume t (f.loc t) r), Function.update objects i o₂⟩
      ⟨f.leave t (p.resume t (f.loc t) r), _⟩ :=
    atomicReaches_silent (Function.update_self ..) h₂ hs₂
  rw [Function.update_idem] at hafter
  exact hret.trans hafter

/-- An atomic object shows a call when it is called. -/
theorem seen_call {o o' : Object σ κ ρ} {a : Move κ} {e : Event κ ρ} {t : Nat} {k : κ}
    (h : (atomic m).step o a = some (o', e)) (he : e.seen = some (.call t k)) : a = .call t k := by
  cases a with
  | call u k' =>
      cases hp : o.phase u with
      | idle =>
          rw [atomic_call hp, Option.some.injEq, Prod.mk.injEq] at h
          rw [← h.2] at he
          injection he with he
          injection he with ht hk
          rw [ht, hk]
      | called _ => simp [atomic, hp] at h
      | done _ _ => simp [atomic, hp] at h
  | effect u =>
      cases hp : o.phase u with
      | idle => simp [atomic, hp] at h
      | done _ _ => simp [atomic, hp] at h
      | called c =>
          simp only [atomic, hp] at h
          obtain ⟨r, _, heq⟩ := Option.map_eq_some_iff.mp h
          rw [← (Prod.mk.inj heq).2] at he
          exact absurd he (by simp [Event.seen])
  | ret u =>
      cases hp : o.phase u with
      | idle => simp [atomic, hp] at h
      | called _ => simp [atomic, hp] at h
      | done _ _ =>
          rw [atomic_ret hp, Option.some.injEq, Prod.mk.injEq] at h
          rw [← h.2] at he
          exact absurd he (by simp [Event.seen])

/-- Moves that show a call make it. -/
theorem atomicReaches_call {f : Front ι L G} {i : ι} {objects : ι → Object σ κ ρ}
    {moves : List (Move κ)} {o o' : Object σ κ ρ} {es : List (Event κ ρ)} {t : Nat} {k : κ}
    (ho : objects i = o) (hrun : (atomic m).run o moves = some (o', es))
    (hshown : shown es = [.call t k]) (hin : f.inside t = none)
    (hwants : p.wants t (f.loc t) = some (i, k)) :
    AtomicReaches p m ⟨f, objects⟩ ⟨f.enter t i, Function.update objects i o'⟩ := by
  obtain ⟨as₁, as₂, a, e, o₁, o₂, es₁, es₂, h₁, hs₁, ha, he, h₂, hs₂⟩ :=
    run_shown_singleton hrun hshown
  have hbefore : AtomicReaches p m ⟨f, objects⟩ ⟨f, Function.update objects i o₁⟩ :=
    atomicReaches_silent ho h₁ hs₁
  have hmove := seen_call ha he
  rw [hmove] at ha
  have hcall := hbefore.step trivial
    (composed_call p (shownAtomic m) Move.call hin hwants (Function.update_self ..)
      (shownAtomic_step ha))
  rw [Function.update_idem] at hcall
  have hafter : AtomicReaches p m ⟨f.enter t i, Function.update objects i o₂⟩ ⟨f.enter t i, _⟩ :=
    atomicReaches_silent (Function.update_self ..) h₂ hs₂
  rw [Function.update_idem] at hafter
  exact hcall.trans hafter

variable {c : Machine S A (Option (Seen κ ρ))} {invoke : Nat → κ → A}

/-- A condition on the steps of the objects, for the whole system. -/
def ObjectsMeet (p : Client ι κ ρ L G B) (invoke : Nat → κ → A) (C : S → A → Prop)
    (s : System ι L G S) : SystemAct ι A B → Prop
  | .call t => ∀ i k, p.wants t (s.front.loc t) = some (i, k) → C (s.objects i) (invoke t k)
  | .object i a => C (s.objects i) a
  | .move _ _ => True

/-- **One object for another**: a step of the system is matched over atomic
    objects. -/
theorem composed_step {R : S → Object σ κ ρ → Prop} {C : S → A → Prop}
    (hinvoke : ∀ s t k s' e, c.step s (invoke t k) = some (s', e) → e = some (.call t k))
    (hsim : ∀ s o a s' e, R s o → C s a → c.step s a = some (s', e) →
      Linearized m o (R s') e.toList)
    {s s' : System ι L G S} {a : SystemAct ι A B} {u : Unit} {objects : ι → Object σ κ ρ}
    (hR : ∀ i, R (s.objects i) (objects i)) (hC : ObjectsMeet p invoke C s a)
    (hst : (composed p c invoke).step s a = some (s', u)) :
    ∃ objects', AtomicReaches p m ⟨s.front, objects⟩ ⟨s'.front, objects'⟩
      ∧ ∀ i, R (s'.objects i) (objects' i) := by
  -- a step of one object leaves the others coupled
  have hkept : ∀ (i : ι) {o : S} {o' : Object σ κ ρ}, R o o' →
      ∀ j, R (Function.update s.objects i o j) (Function.update objects i o' j) := by
    intro i o o' ho j
    by_cases hj : j = i
    · rw [hj, Function.update_self, Function.update_self]
      exact ho
    · rw [Function.update_of_ne hj, Function.update_of_ne hj]
      exact hR j
  cases composed_cases hst with
  | @called t i k o e hin hwants hcall =>
      -- the implementation shows the call at once
      obtain rfl := hinvoke _ _ _ _ _ hcall
      obtain ⟨moves, o', es, hrun, hshown, ho⟩ := hsim _ _ _ _ _ (hR i) (hC i k hwants) hcall
      exact ⟨_, atomicReaches_call rfl hrun hshown hin hwants, hkept i ho⟩
  | @silent i a o hobject =>
      obtain ⟨moves, o', es, hrun, hshown, ho⟩ := hsim _ _ _ _ _ (hR i) hC hobject
      exact ⟨_, atomicReaches_silent rfl hrun hshown, hkept i ho⟩
  | @returned i a o t r hobject hin =>
      obtain ⟨moves, o', es, hrun, hshown, ho⟩ := hsim _ _ _ _ _ (hR i) hC hobject
      exact ⟨_, atomicReaches_ret rfl hrun hshown hin, hkept i ho⟩
  | @moved t b r hin hmove =>
      exact ⟨objects, Machine.Reaches.refl.step trivial (composed_move p _ _ hin hmove), hR⟩

end Replace

/-! ## §3. Calls that are one step. -/

/-- The threads, the memory, and objects nobody is ever seen inside. -/
structure Whole (ι L G σ : Type*) where
  loc : Nat → L
  mem : G
  objects : ι → σ

inductive WholeAct (B : Type*) where
  /-- Thread `t` makes the call it is at, and goes on. -/
  | access (t : Nat)
  | move (t : Nat) (b : B)

section Whole

variable {ι κ ρ σ L G B : Type*} [DecidableEq ι]

/-- **The threads over objects that answer at once.** -/
def whole (p : Client ι κ ρ L G B) (m : Machine σ κ ρ) :
    Machine (Whole ι L G σ) (WholeAct B) Unit where
  step s a :=
    match a with
    | .access t =>
        match p.wants t (s.loc t) with
        | none => none
        | some (i, k) =>
            (m.step (s.objects i) k).map fun r =>
              ({ s with
                loc := Function.update s.loc t (p.resume t (s.loc t) r.2)
                objects := Function.update s.objects i r.1 }, ())
    | .move t b =>
        (p.move t (s.loc t) s.mem b).map fun r =>
          ({ s with loc := Function.update s.loc t r.1, mem := r.2 }, ())

variable {p : Client ι κ ρ L G B} {m : Machine σ κ ρ}

theorem whole_access {s : Whole ι L G σ} {t : Nat} {i : ι} {k : κ} {x : σ} {r : ρ}
    (hwants : p.wants t (s.loc t) = some (i, k)) (hm : m.step (s.objects i) k = some (x, r)) :
    (whole p m).step s (.access t)
      = some ({ s with
          loc := Function.update s.loc t (p.resume t (s.loc t) r)
          objects := Function.update s.objects i x }, ()) := by
  simp only [whole, hwants, hm, Option.map_some]

theorem whole_move {s : Whole ι L G σ} {t : Nat} {b : B} {r : L × G}
    (hmove : p.move t (s.loc t) s.mem b = some r) :
    (whole p m).step s (.move t b)
      = some ({ s with loc := Function.update s.loc t r.1, mem := r.2 }, ()) := by
  simp only [whole, hmove, Option.map_some]

/-- **Where a thread is in both**: outside the objects it is at the same place,
    and inside one it is there until its call has taken effect, then where it
    goes on with the reply. -/
def ThreadCollapses (p : Client ι κ ρ L G B) (t : Nat) (inside : Option ι) (loc wloc : L)
    (phase : ι → Phase κ ρ) : Prop :=
  match inside with
  | none => wloc = loc ∧ ∀ i, phase i = .idle
  | some i =>
      (∀ j, j ≠ i → phase j = .idle)
        ∧ ((∃ k, phase i = .called k ∧ p.wants t loc = some (i, k) ∧ wloc = loc)
          ∨ ∃ k r, phase i = .done k r ∧ wloc = p.resume t loc r)

/-- **The two systems**: the same memory, the same content of the objects, and
    each thread where its call has got to. -/
structure Collapses (p : Client ι κ ρ L G B) (s : System ι L G (Object σ κ ρ))
    (w : Whole ι L G σ) : Prop where
  mem : w.mem = s.front.mem
  objects : ∀ i, w.objects i = (s.objects i).state
  threads : ∀ t, ThreadCollapses p t (s.front.inside t) (s.front.loc t) (w.loc t)
    (fun i => (s.objects i).phase t)

omit [DecidableEq ι] in
/-- Nobody has called anything. -/
theorem collapses_start (p : Client ι κ ρ L G B) (loc : Nat → L) (mem : G) (content : ι → σ) :
    Collapses p ⟨⟨loc, mem, fun _ => none⟩, fun i => fresh (content i)⟩ ⟨loc, mem, content⟩ where
  mem := rfl
  objects := fun _ => rfl
  threads := fun _ => ⟨rfl, fun _ => rfl⟩

section Phases

variable {s : System ι L G (Object σ κ ρ)} {w : Whole ι L G σ} {i : ι} {t : Nat}

/-- A thread that has called is inside, and where it called from. -/
theorem Collapses.called (h : Collapses p s w) {k : κ} (hp : (s.objects i).phase t = .called k) :
    s.front.inside t = some i ∧ p.wants t (s.front.loc t) = some (i, k)
      ∧ w.loc t = s.front.loc t := by
  have ht := h.threads t
  cases hin : s.front.inside t with
  | none =>
      rw [hin] at ht
      exact absurd (hp.symm.trans (ht.2 i)) (by simp)
  | some j =>
      rw [hin] at ht
      obtain ⟨hothers, hcase⟩ := ht
      have hji : j = i := by
        by_contra hne
        exact absurd (hp.symm.trans (hothers i (Ne.symm hne))) (by simp)
      subst hji
      obtain ⟨k', hk, hwants, hloc⟩ | ⟨k', r, hk, _⟩ := hcase
      · have heq := hp.symm.trans hk
        injection heq with heq
        rw [heq]
        exact ⟨rfl, hwants, hloc⟩
      · exact absurd (hp.symm.trans hk) (by simp)

/-- A thread whose call has taken effect is ahead. -/
theorem Collapses.done (h : Collapses p s w) {k : κ} {r : ρ}
    (hp : (s.objects i).phase t = .done k r) : w.loc t = p.resume t (s.front.loc t) r
      ∧ ∀ j, j ≠ i → (s.objects j).phase t = .idle := by
  have ht := h.threads t
  cases hin : s.front.inside t with
  | none =>
      rw [hin] at ht
      exact absurd (hp.symm.trans (ht.2 i)) (by simp)
  | some j =>
      rw [hin] at ht
      obtain ⟨hothers, hcase⟩ := ht
      have hji : j = i := by
        by_contra hne
        exact absurd (hp.symm.trans (hothers i (Ne.symm hne))) (by simp)
      subst hji
      obtain ⟨k', hk, _⟩ | ⟨k', r', hk, hloc⟩ := hcase
      · exact absurd (hp.symm.trans hk) (by simp)
      · have heq := hp.symm.trans hk
        injection heq with _ heq
        rw [heq]
        exact ⟨hloc, hothers⟩

/-- The phases of a thread, where one object has moved. -/
theorem phase_update (objects : ι → Object σ κ ρ) (i : ι) (o : Object σ κ ρ) (t : Nat) :
    (fun j => (Function.update objects i o j).phase t)
      = Function.update (fun j => (objects j).phase t) i (o.phase t) := by
  funext j
  by_cases hj : j = i
  · rw [hj, Function.update_self, Function.update_self]
  · rw [Function.update_of_ne hj, Function.update_of_ne hj]

/-- A step of thread `t` at object `i` leaves the other threads where they are. -/
theorem Collapses.others (h : Collapses p s w) {front : Front ι L G} {loc : Nat → L}
    {o : Object σ κ ρ} {u : Nat} (hu : u ≠ t) (hin : front.inside u = s.front.inside u)
    (hloc : front.loc u = s.front.loc u) (hwloc : loc u = w.loc u)
    (hphase : ∃ ph, o.phase = Function.update (s.objects i).phase t ph) :
    ThreadCollapses p u (front.inside u) (front.loc u) (loc u)
      (fun j => (Function.update s.objects i o j).phase u) := by
  obtain ⟨ph, hph⟩ := hphase
  rw [hin, hloc, hwloc, phase_update, hph, Function.update_of_ne hu, Function.update_eq_self]
  exact h.threads u

end Phases

section Moves

variable {s : System ι L G (Object σ κ ρ)} {w : Whole ι L G σ} {i : ι} {t : Nat} {k : κ} {r : ρ}
  {o : Object σ κ ρ}

/-- An object that moves and keeps its content. -/
theorem Collapses.content (h : Collapses p s w) (ho : o.state = (s.objects i).state) (j : ι) :
    w.objects j = (Function.update s.objects i o j).state := by
  by_cases hj : j = i
  · rw [hj, Function.update_self, ho]
    exact h.objects i
  · rw [Function.update_of_ne hj]
    exact h.objects j

/-- A call takes the thread inside and changes nothing else. -/
theorem Collapses.enters (h : Collapses p s w) (hin : s.front.inside t = none)
    (hwants : p.wants t (s.front.loc t) = some (i, k)) (hstate : o.state = (s.objects i).state)
    (hphase : o.phase = Function.update (s.objects i).phase t (.called k)) :
    Collapses p ⟨s.front.enter t i, Function.update s.objects i o⟩ w where
  mem := h.mem
  objects := h.content hstate
  threads := by
    intro u
    by_cases hu : u = t
    · have ht := h.threads t
      rw [hin] at ht
      rw [hu]
      show ThreadCollapses p t (Function.update s.front.inside t (some i) t) (s.front.loc t)
        (w.loc t) (fun j => (Function.update s.objects i o j).phase t)
      rw [Function.update_self, phase_update, hphase, Function.update_self]
      refine ⟨fun j hj => ?_, Or.inl ⟨k, Function.update_self .., hwants, ht.1⟩⟩
      rw [Function.update_of_ne hj]
      exact ht.2 j
    · exact h.others hu (Function.update_of_ne hu ..) rfl rfl ⟨_, hphase⟩

/-- An effect is the access, and puts the thread ahead. -/
theorem Collapses.takesEffect (h : Collapses p s w) (hp : (s.objects i).phase t = .called k)
    (hphase : o.phase = Function.update (s.objects i).phase t (.done k r)) :
    Collapses p ⟨s.front, Function.update s.objects i o⟩
      { w with
        loc := Function.update w.loc t (p.resume t (w.loc t) r)
        objects := Function.update w.objects i o.state } where
  mem := h.mem
  objects := by
    intro j
    show Function.update w.objects i o.state j = (Function.update s.objects i o j).state
    by_cases hj : j = i
    · rw [hj, Function.update_self, Function.update_self]
    · rw [Function.update_of_ne hj, Function.update_of_ne hj]
      exact h.objects j
  threads := by
    intro u
    by_cases hu : u = t
    · have ht := h.threads t
      obtain ⟨hin, _, hloc⟩ := h.called hp
      rw [hin] at ht
      rw [hu]
      show ThreadCollapses p t (s.front.inside t) (s.front.loc t)
        (Function.update w.loc t (p.resume t (w.loc t) r) t)
        (fun j => (Function.update s.objects i o j).phase t)
      rw [hin, Function.update_self, phase_update, hphase, Function.update_self, hloc]
      refine ⟨fun j hj => ?_, Or.inr ⟨k, r, Function.update_self .., rfl⟩⟩
      rw [Function.update_of_ne hj]
      exact ht.1 j hj
    · exact h.others hu rfl rfl (Function.update_of_ne hu ..) ⟨_, hphase⟩

/-- A return takes the thread to where it has been put. -/
theorem Collapses.returns (h : Collapses p s w) (hp : (s.objects i).phase t = .done k r)
    (hstate : o.state = (s.objects i).state)
    (hphase : o.phase = Function.update (s.objects i).phase t .idle) :
    Collapses p ⟨s.front.leave t (p.resume t (s.front.loc t) r), Function.update s.objects i o⟩
      w where
  mem := h.mem
  objects := h.content hstate
  threads := by
    intro u
    by_cases hu : u = t
    · obtain ⟨hloc, hothers⟩ := h.done hp
      rw [hu]
      show ThreadCollapses p t (Function.update s.front.inside t none t)
        (Function.update s.front.loc t (p.resume t (s.front.loc t) r) t) (w.loc t)
        (fun j => (Function.update s.objects i o j).phase t)
      rw [Function.update_self, Function.update_self, phase_update, hphase, Function.update_self]
      refine ⟨hloc, fun j => ?_⟩
      by_cases hj : j = i
      · rw [hj, Function.update_self]
      · rw [Function.update_of_ne hj]
        exact hothers j hj
    · exact h.others hu (Function.update_of_ne hu ..) (Function.update_of_ne hu ..) rfl ⟨_, hphase⟩

omit [DecidableEq ι] in
/-- A thread outside moves in both. -/
theorem Collapses.moves (h : Collapses p s w) (hin : s.front.inside t = none) (x : L × G) :
    Collapses p ⟨s.front.moved t x, s.objects⟩
      { w with loc := Function.update w.loc t x.1, mem := x.2 } where
  mem := rfl
  objects := h.objects
  threads := by
    intro u
    have hu := h.threads u
    show ThreadCollapses p u (s.front.inside u) (Function.update s.front.loc t x.1 u)
      (Function.update w.loc t x.1 u) (fun j => (s.objects j).phase u)
    by_cases hut : u = t
    · rw [hut, hin] at hu
      rw [hut, hin, Function.update_self, Function.update_self]
      exact ⟨rfl, hu.2⟩
    · rw [Function.update_of_ne hut, Function.update_of_ne hut]
      exact hu

end Moves

/-- **A step over atomic objects is one step over objects that answer at once,
    or none.** -/
theorem collapses_step {s s' : System ι L G (Object σ κ ρ)} {w : Whole ι L G σ}
    (h : Collapses p s w) {a : SystemAct ι (Move κ) B} {u : Unit}
    (hst : (overAtomic p m).step s a = some (s', u)) :
    ∃ w', (whole p m).Reaches (fun _ => True) w w' ∧ Collapses p s' w' := by
  cases composed_cases hst with
  | @called t i k o e hin hwants hcall =>
      obtain ⟨⟨o', e'⟩, hatomic, heq⟩ := Option.map_eq_some_iff.mp hcall
      -- the call itself changes nothing that can be seen
      have hidle : (s.objects i).phase t = .idle := by
        have ht := h.threads t
        rw [hin] at ht
        exact ht.2 i
      rw [atomic_call hidle, Option.some.injEq, Prod.mk.injEq] at hatomic
      rw [← (Prod.mk.inj heq).1, ← hatomic.1]
      exact ⟨w, .refl, h.enters hin hwants rfl rfl⟩
  | @silent i a o hobject =>
      obtain ⟨⟨o', e'⟩, hatomic, heq⟩ := Option.map_eq_some_iff.mp hobject
      obtain ⟨rfl, hseen⟩ := Prod.mk.inj heq
      obtain ⟨t, k, _, rfl, _⟩ | ⟨t, k, r, x, hp, hm, rfl, rfl⟩ | ⟨t, k, r, _, rfl, _⟩ :=
        atomic_cases hatomic
      · exact absurd hseen (by simp [Event.seen])
      · -- the effect: here the whole call happens
        obtain ⟨_, hwants, hloc⟩ := h.called hp
        rw [← hloc] at hwants
        rw [← h.objects i] at hm
        exact ⟨_, Machine.Reaches.refl.step trivial (whole_access hwants hm), h.takesEffect hp rfl⟩
      · exact absurd hseen (by simp [Event.seen])
  | @returned i a o t r hobject hin =>
      obtain ⟨⟨o', e'⟩, hatomic, heq⟩ := Option.map_eq_some_iff.mp hobject
      obtain ⟨rfl, hseen⟩ := Prod.mk.inj heq
      obtain ⟨_, _, _, rfl, _⟩ | ⟨_, _, _, _, _, _, rfl, _⟩ | ⟨t', k, r', hp, rfl, rfl⟩ :=
        atomic_cases hatomic
      · exact absurd hseen (by simp [Event.seen])
      · exact absurd hseen (by simp [Event.seen])
      · obtain ⟨rfl, rfl⟩ : t' = t ∧ r' = r := by
          injection hseen with hseen
          injection hseen with ht hr
          exact ⟨ht, hr⟩
        -- the thread has been put there already
        exact ⟨w, .refl, h.returns hp rfl rfl⟩
  | @moved t b r hin hmove =>
      have ht := h.threads t
      rw [hin] at ht
      rw [← ht.1, ← h.mem] at hmove
      exact ⟨_, Machine.Reaches.refl.step trivial (whole_move hmove), h.moves hin r⟩

/-- The same for a run. -/
theorem collapses_reaches {s s' : System ι L G (Object σ κ ρ)} {w : Whole ι L G σ}
    (h : Collapses p s w) (hreach : AtomicReaches p m s s') :
    ∃ w', (whole p m).Reaches (fun _ => True) w w' ∧ Collapses p s' w' := by
  refine hreach.induction
    (fun t => ∃ w', (whole p m).Reaches (fun _ => True) w w' ∧ Collapses p t w') ?_ ⟨w, .refl, h⟩
  rintro x a x' r ⟨w₁, hw₁, hx⟩ _ hst
  obtain ⟨w₂, hw₂, hx'⟩ := collapses_step hx hst
  exact ⟨w₂, hw₁.trans hw₂, hx'⟩

/-- **Over a run**: the system with implemented objects stays in step with
    one over atomic objects. -/
theorem composed_run {S A : Type*} {c : Machine S A (Option (Seen κ ρ))} {invoke : Nat → κ → A}
    {R : S → Object σ κ ρ → Prop} {C : S → A → Prop}
    (hinvoke : ∀ s t k s' e, c.step s (invoke t k) = some (s', e) → e = some (.call t k))
    (hsim : ∀ s o a s' e, R s o → C s a → c.step s a = some (s', e) →
      Linearized m o (R s') e.toList)
    {acts : List (SystemAct ι A B)} :
    ∀ {s s' : System ι L G S} {us : List Unit} {objects : ι → Object σ κ ρ},
      (composed p c invoke).Along (ObjectsMeet p invoke C) s acts →
      (composed p c invoke).run s acts = some (s', us) → (∀ i, R (s.objects i) (objects i)) →
      ∃ objects', AtomicReaches p m ⟨s.front, objects⟩ ⟨s'.front, objects'⟩
        ∧ ∀ i, R (s'.objects i) (objects' i) := by
  induction acts with
  | nil =>
      intro s s' us objects _ hrun hR
      rw [Machine.run_nil, Option.some.injEq, Prod.mk.injEq] at hrun
      rw [← hrun.1]
      exact ⟨objects, .refl, hR⟩
  | cons a acts ih =>
      intro s s' us objects hC hrun hR
      obtain ⟨s₁, u, us', hst, hrest, _⟩ := (composed p c invoke).run_cons_eq_some.mp hrun
      obtain ⟨hCa, hCrest⟩ := ((composed p c invoke).along_cons hst).mp hC
      obtain ⟨objects₁, hreach₁, hR₁⟩ := composed_step hinvoke hsim hR hCa hst
      obtain ⟨objects₂, hreach₂, hR₂⟩ := ih hCrest hrest hR₁
      exact ⟨objects₂, hreach₁.trans hreach₂, hR₂⟩

/-- **THE PROGRAM CANNOT TELL**: a run over linearizable objects leads to a
    state in which every object still is what its atomic object is, and these
    are those of a run in which calls are one step. -/
theorem whole_of_composed {S A : Type*} {c : Machine S A (Option (Seen κ ρ))}
    {invoke : Nat → κ → A} {R : S → Object σ κ ρ → Prop} {C : S → A → Prop}
    (hinvoke : ∀ s t k s' e, c.step s (invoke t k) = some (s', e) → e = some (.call t k))
    (hsim : ∀ s o a s' e, R s o → C s a → c.step s a = some (s', e) →
      Linearized m o (R s') e.toList)
    {loc : Nat → L} {mem : G} {start : ι → S} {content : ι → σ}
    (hstart : ∀ i, R (start i) (fresh (content i)))
    {acts : List (SystemAct ι A B)} {s' : System ι L G S} {us : List Unit}
    (hC : (composed p c invoke).Along (ObjectsMeet p invoke C)
      ⟨⟨loc, mem, fun _ => none⟩, start⟩ acts)
    (hrun : (composed p c invoke).run ⟨⟨loc, mem, fun _ => none⟩, start⟩ acts = some (s', us)) :
    ∃ (objects : ι → Object σ κ ρ) (w : Whole ι L G σ), (∀ i, R (s'.objects i) (objects i))
      ∧ Collapses p ⟨s'.front, objects⟩ w
      ∧ (whole p m).Reaches (fun _ => True) ⟨loc, mem, content⟩ w := by
  obtain ⟨objects, hreach, hR⟩ := composed_run hinvoke hsim hC hrun hstart
  obtain ⟨w, hw, hcollapses⟩ := collapses_reaches (collapses_start p loc mem content) hreach
  exact ⟨objects, w, hR, hcollapses, hw⟩

end Whole

end FreePacket.Lib.Atomic
