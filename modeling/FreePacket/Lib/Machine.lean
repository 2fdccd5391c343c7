/-
  FreePacket.Lib.Machine
  ──────────────────────
  **PARTIAL MACHINES WITH REPLIES: runs, conditions along a run, simulation.**

  A machine is a partial step function `σ → α → Option (σ × ρ)`: from a state
  and an action it either answers with a next state and a reply, or it is
  stuck (`none`).  Everything nondeterministic (which thread moves, what a
  clock or a configuration read returns) sits in the action, so a run is a
  list of actions and the step function stays executable.

  Main results:
    * `run_induction` — an invariant kept by every step is kept by a run.
    * `run_trace_induction` — the same for an invariant about the history.
    * `along_congr` — two step conditions that agree under an invariant agree
      along a run.
    * `forward_simulation` — a step-wise simulation gives equal replies and a
      related final state for a whole run.
    * `bisimulation` — the same for machines that are stuck at the same places.
    * `replies_agree_iff` — two machines that part in their replies exactly
      where a condition fails.
    * `run_length_add_rank_le`, `exists_run_to_end` — where steps lower a rank,
      runs are short and end.
    * `observe_run_iff` — looking at the steps of a machine does not change
      its runs.

  Nothing here names a program.
-/
import Mathlib.Data.List.Basic
import Mathlib.Logic.Function.Basic

namespace FreePacket.Lib

/-- A partial machine: state, action, and the next state with a reply. -/
structure Machine (σ α ρ : Type*) where
  step : σ → α → Option (σ × ρ)

namespace Machine

variable {σ τ α ρ : Type*}

/-! ## §1. Runs. -/

/-- Perform the actions in order; stuck as soon as one of them is. -/
def run (m : Machine σ α ρ) : σ → List α → Option (σ × List ρ)
  | s, [] => some (s, [])
  | s, a :: as =>
      match m.step s a with
      | none => none
      | some (s', r) => (run m s' as).map (fun p => (p.1, r :: p.2))

@[simp] theorem run_nil (m : Machine σ α ρ) (s : σ) : m.run s [] = some (s, []) := rfl

/-- A run of a nonempty list is one step and the run of the rest. -/
theorem run_cons_eq_some (m : Machine σ α ρ) {s s'' : σ} {a : α} {as : List α} {rs : List ρ} :
    m.run s (a :: as) = some (s'', rs) ↔
      ∃ s' r rs', m.step s a = some (s', r) ∧ m.run s' as = some (s'', rs') ∧ rs = r :: rs' := by
  cases hs : m.step s a with
  | none => simp [run, hs]
  | some p =>
      obtain ⟨s', r⟩ := p
      simp only [run, hs, Option.map_eq_some_iff, Prod.mk.injEq, Prod.exists, Option.some.injEq]
      constructor
      · rintro ⟨t, rs', hr, rfl, rfl⟩
        exact ⟨s', r, rs', ⟨rfl, rfl⟩, hr, rfl⟩
      · rintro ⟨_, _, rs', ⟨rfl, rfl⟩, hr, rfl⟩
        exact ⟨s'', rs', hr, rfl, rfl⟩

/-- One step is a run of one action. -/
theorem run_singleton (m : Machine σ α ρ) {s s' : σ} {a : α} {r : ρ}
    (h : m.step s a = some (s', r)) : m.run s [a] = some (s', [r]) :=
  m.run_cons_eq_some.mpr ⟨s', r, [], h, rfl, rfl⟩

/-- **Sequential composition**: a run of an append is two runs in a row. -/
theorem run_append (m : Machine σ α ρ) {as bs : List α} {s s'' : σ} {rs : List ρ} :
    m.run s (as ++ bs) = some (s'', rs) ↔
      ∃ s' r₁ r₂, m.run s as = some (s', r₁) ∧ m.run s' bs = some (s'', r₂) ∧ rs = r₁ ++ r₂ := by
  induction as generalizing s rs with
  | nil => simp
  | cons a as ih =>
      simp only [List.cons_append, run_cons_eq_some, ih]
      constructor
      · rintro ⟨s₁, r, rs', hs, ⟨s', r₁, r₂, h₁, h₂, rfl⟩, rfl⟩
        exact ⟨s', r :: r₁, r₂, ⟨s₁, r, r₁, hs, h₁, rfl⟩, h₂, rfl⟩
      · rintro ⟨s', _, r₂, ⟨s₁, r, r₁, hs, h₁, rfl⟩, h₂, rfl⟩
        exact ⟨s₁, r, r₁ ++ r₂, hs, ⟨s', r₁, r₂, h₁, h₂, rfl⟩, rfl⟩

/-! ## §2. Reachable states. -/

/-- `s'` is reached from `s` by actions that all satisfy `ok`. -/
inductive Reaches (m : Machine σ α ρ) (ok : α → Prop) (s : σ) : σ → Prop where
  | refl : Reaches m ok s s
  | step {t t' : σ} {a : α} {r : ρ} :
      Reaches m ok s t → ok a → m.step t a = some (t', r) → Reaches m ok s t'

theorem Reaches.trans {m : Machine σ α ρ} {ok : α → Prop} {s t u : σ}
    (h₁ : m.Reaches ok s t) (h₂ : m.Reaches ok t u) : m.Reaches ok s u := by
  induction h₂ with
  | refl => exact h₁
  | step _ ha hs ih => exact ih.step ha hs

/-- **The invariant rule** over reachable states. -/
theorem Reaches.induction {m : Machine σ α ρ} {ok : α → Prop} {s t : σ} (P : σ → Prop)
    (hstep : ∀ u a u' r, P u → ok a → m.step u a = some (u', r) → P u')
    (h : m.Reaches ok s t) (hs : P s) : P t := by
  induction h with
  | refl => exact hs
  | step _ ha hst ih => exact hstep _ _ _ _ ih ha hst

/-! ## §3. Conditions along a run. -/

/-- Every action of the list meets the condition `C` in the state it is
    performed in. -/
def Along (m : Machine σ α ρ) (C : σ → α → Prop) : σ → List α → Prop
  | _, [] => True
  | s, a :: as => C s a ∧ ∀ s' r, m.step s a = some (s', r) → Along m C s' as

/-- In front of a step that gets through there is one state to go on from. -/
theorem along_cons (m : Machine σ α ρ) {C : σ → α → Prop} {a : α} {as : List α} {s s' : σ} {r : ρ}
    (hs : m.step s a = some (s', r)) : m.Along C s (a :: as) ↔ C s a ∧ m.Along C s' as := by
  constructor
  · intro h
    exact ⟨h.1, h.2 s' r hs⟩
  · intro h
    refine ⟨h.1, fun s₂ r₂ h₂ => ?_⟩
    rw [hs] at h₂
    simp only [Option.some.injEq, Prod.mk.injEq] at h₂
    exact h₂.1 ▸ h.2

theorem along_append (m : Machine σ α ρ) (C : σ → α → Prop) {as bs : List α} {s : σ} :
    m.Along C s (as ++ bs) ↔
      m.Along C s as ∧ ∀ s' rs, m.run s as = some (s', rs) → m.Along C s' bs := by
  induction as generalizing s with
  | nil => simp [Along]
  | cons a as ih =>
      simp only [List.cons_append, Along, ih, run_cons_eq_some]
      constructor
      · rintro ⟨hC, h⟩
        refine ⟨⟨hC, fun s' r hs => (h s' r hs).1⟩, ?_⟩
        rintro s'' _ ⟨s', r, rs', hs, hr, rfl⟩
        exact (h s' r hs).2 s'' rs' hr
      · rintro ⟨⟨hC, h⟩, h'⟩
        exact ⟨hC, fun s' r hs =>
          ⟨h s' r hs, fun s'' rs' hr => h' s'' (r :: rs') ⟨s', r, rs', hs, hr, rfl⟩⟩⟩

/-- **The run rule**: what each step preserves, a run preserves. -/
theorem run_induction (m : Machine σ α ρ) (P : σ → Prop)
    (hstep : ∀ s a s' r, P s → m.step s a = some (s', r) → P s')
    {as : List α} {s s' : σ} {rs : List ρ}
    (hrun : m.run s as = some (s', rs)) (hs : P s) : P s' := by
  induction as generalizing s rs with
  | nil =>
      simp only [run_nil, Option.some.injEq, Prod.mk.injEq] at hrun
      exact hrun.1 ▸ hs
  | cons a as ih =>
      obtain ⟨s₁, r, rs', hst, hr, _⟩ := m.run_cons_eq_some.mp hrun
      exact ih hr (hstep s a s₁ r hs hst)

/-- **The run rule with history**: an invariant that also speaks about the
    actions performed and the replies given so far. -/
theorem run_trace_induction (m : Machine σ α ρ) (P : List α → List ρ → σ → Prop)
    (hstep : ∀ as rs s a s' r, P as rs s → m.step s a = some (s', r) →
      P (as ++ [a]) (rs ++ [r]) s')
    {as : List α} {s s' : σ} {rs : List ρ}
    (hrun : m.run s as = some (s', rs)) (hs : P [] [] s) : P as rs s' := by
  -- the induction carries the history in front of the run
  have hgen : ∀ (as pre : List α) (rs qs : List ρ) (s : σ), P pre qs s →
      m.run s as = some (s', rs) → P (pre ++ as) (qs ++ rs) s' := by
    intro as
    induction as with
    | nil =>
        intro pre rs qs s hP h
        simp only [run_nil, Option.some.injEq, Prod.mk.injEq] at h
        rw [← h.1, ← h.2, List.append_nil, List.append_nil]
        exact hP
    | cons a as ih =>
        intro pre rs qs s hP h
        obtain ⟨s₁, r, rs', hst, hr, hrs⟩ := m.run_cons_eq_some.mp h
        have hnext := ih (pre ++ [a]) rs' (qs ++ [r]) s₁ (hstep pre qs s a s₁ r hP hst) hr
        rw [List.append_assoc, List.append_assoc] at hnext
        rw [hrs]
        exact hnext
  exact hgen as [] rs [] s hs hrun

/-- A condition that an invariant grants to every action of a list holds along it. -/
theorem along_of_invariant (m : Machine σ α ρ) {C : σ → α → Prop} (I : σ → Prop) {as : List α}
    (hC : ∀ s, ∀ a ∈ as, I s → C s a)
    (hI : ∀ s a s' r, I s → C s a → m.step s a = some (s', r) → I s') {s : σ} (hs : I s) :
    m.Along C s as := by
  induction as generalizing s with
  | nil => exact trivial
  | cons a as ih =>
      have hhead : C s a := hC s a List.mem_cons_self hs
      refine ⟨hhead, fun s' r hst => ?_⟩
      exact ih (fun s₁ b hb => hC s₁ b (List.mem_cons_of_mem a hb)) (hI s a s' r hs hhead hst)

/-- Where a condition fails along a run, it fails at a first action. -/
theorem exists_first_of_not_along (m : Machine σ α ρ) {C : σ → α → Prop} {as : List α} {s : σ}
    (h : ¬ m.Along C s as) :
    ∃ p a rest s' rs, as = p ++ a :: rest ∧ m.Along C s p ∧ m.run s p = some (s', rs)
      ∧ ¬ C s' a := by
  induction as generalizing s with
  | nil => exact absurd trivial h
  | cons a as ih =>
      by_cases hC : C s a
      · have hrest : ∃ s₁ r, m.step s a = some (s₁, r) ∧ ¬ m.Along C s₁ as := by
          by_contra hno
          push Not at hno
          exact h ⟨hC, hno⟩
        obtain ⟨s₁, r, hst, hno⟩ := hrest
        obtain ⟨p, b, rest, s', rs, rfl, hp, hr, hb⟩ := ih hno
        refine ⟨a :: p, b, rest, s', r :: rs, rfl, (m.along_cons hst).mpr ⟨hC, hp⟩, ?_, hb⟩
        exact m.run_cons_eq_some.mpr ⟨s₁, r, rs, hst, hr, rfl⟩
      · exact ⟨[], a, as, s, [], rfl, trivial, rfl, hC⟩

/-! ## §4. Forward simulation with equal replies. -/

/-- **Simulation**: when every step of `c` that meets `C` is matched by a step
    of `d` with the same reply, a run of `c` along `C` is matched by a run of
    `d` with the same replies. -/
theorem forward_simulation (c : Machine σ α ρ) (d : Machine τ α ρ) {C : σ → α → Prop}
    (R : σ → τ → Prop)
    (hsim : ∀ s t a, R s t → C s a →
      ∃ s' t' r, c.step s a = some (s', r) ∧ d.step t a = some (t', r) ∧ R s' t')
    {as : List α} {s : σ} {t : τ} (hC : c.Along C s as) (hR : R s t) :
    ∃ s' t' rs, c.run s as = some (s', rs) ∧ d.run t as = some (t', rs) ∧ R s' t' := by
  induction as generalizing s t with
  | nil => exact ⟨s, t, [], rfl, rfl, hR⟩
  | cons a as ih =>
      obtain ⟨s₁, t₁, r, hc, hd, hR₁⟩ := hsim s t a hR hC.1
      obtain ⟨s', t', rs, hcr, hdr, hR'⟩ := ih (hC.2 s₁ r hc) hR₁
      exact ⟨s', t', r :: rs, c.run_cons_eq_some.mpr ⟨s₁, r, rs, hc, hcr, rfl⟩,
        d.run_cons_eq_some.mpr ⟨t₁, r, rs, hd, hdr, rfl⟩, hR'⟩

/-- A machine that answers every action performs every list. -/
theorem run_isSome (m : Machine σ α ρ) (htotal : ∀ s a, ∃ p, m.step s a = some p)
    (as : List α) : ∀ s, ∃ p, m.run s as = some p := by
  induction as with
  | nil => exact fun s => ⟨(s, []), rfl⟩
  | cons a as ih =>
      intro s
      obtain ⟨⟨s₁, r⟩, hs⟩ := htotal s a
      obtain ⟨⟨s', rs⟩, hrun⟩ := ih s₁
      exact ⟨(s', r :: rs), m.run_cons_eq_some.mpr ⟨s₁, r, rs, hs, hrun, rfl⟩⟩

/-- **Agreement up to a condition**: when related states answer alike exactly
    under `C`, and `C` keeps them related, two runs have the same replies
    exactly when `C` holds along them. -/
theorem replies_agree_iff (c : Machine σ α ρ) (d : Machine τ α ρ) {C : σ → α → Prop}
    (R : σ → τ → Prop) (htotal : ∀ s a, ∃ p, c.step s a = some p)
    (hsim : ∀ s t a, R s t → ∃ s' t' r r', c.step s a = some (s', r) ∧ d.step t a = some (t', r')
      ∧ (r = r' ↔ C s a) ∧ (C s a → R s' t'))
    {as : List α} {s : σ} {t : τ} (hR : R s t) :
    (c.run s as).map Prod.snd = (d.run t as).map Prod.snd ↔ c.Along C s as := by
  induction as generalizing s t with
  | nil => simp [Along]
  | cons a as ih =>
      obtain ⟨s₁, t₁, r, r', hc, hd, hreply, hnext⟩ := hsim s t a hR
      obtain ⟨⟨s', rs⟩, hcr⟩ := c.run_isSome htotal as s₁
      -- the first replies agree just where `C` holds, and then the rest is the same claim
      have hcrun : c.run s (a :: as) = some (s', r :: rs) :=
        c.run_cons_eq_some.mpr ⟨s₁, r, rs, hc, hcr, rfl⟩
      have hdrun : (d.run t (a :: as)).map Prod.snd
          = ((d.run t₁ as).map Prod.snd).map (fun rs => r' :: rs) := by
        simp only [run, hd, Option.map_map]
        rfl
      rw [c.along_cons hc, hcrun, hdrun]
      constructor
      · intro h
        obtain ⟨rs₂, hrs₂, hcons⟩ := Option.map_eq_some_iff.mp h.symm
        obtain ⟨rfl, rfl⟩ := List.cons.inj hcons
        refine ⟨hreply.mp rfl, (ih (hnext (hreply.mp rfl))).mp ?_⟩
        rw [hcr, hrs₂]
        rfl
      · rintro ⟨hC, hrest⟩
        have hrs := (ih (hnext hC)).mpr hrest
        rw [hcr] at hrs
        rw [← hrs, hreply.mpr hC]
        rfl

/-- Both stuck, or with one reply and related next states. -/
def Alike (R : σ → τ → Prop) : Option (σ × ρ) → Option (τ × ρ) → Prop :=
  Option.Rel (fun p q => p.2 = q.2 ∧ R p.1 q.1)

/-- A machine that is alike to one that got through got through too. -/
theorem Alike.of_some {R : σ → τ → Prop} {o : Option (σ × ρ)} {t : τ} {r : ρ}
    (h : Alike R o (some (t, r))) : ∃ s, o = some (s, r) ∧ R s t := by
  obtain ⟨hr, hR⟩ := h
  exact ⟨_, congrArg some (Prod.ext rfl hr), hR⟩

/-- And one that is alike to one that is stuck is stuck. -/
theorem Alike.of_none {R : σ → τ → Prop} {o : Option (σ × ρ)} (h : Alike R o none) : o = none := by
  generalize hn : (none : Option (τ × ρ)) = o' at h
  cases h with
  | none => rfl
  | some h => exact absurd hn (by simp)

/-- One more reply in front of both. -/
theorem Alike.cons_reply {R : σ → τ → Prop} {o : Option (σ × List ρ)} {o' : Option (τ × List ρ)}
    (h : Alike R o o') (r : ρ) :
    Alike R (o.map (fun p => (p.1, r :: p.2))) (o'.map (fun p => (p.1, r :: p.2))) := by
  cases h with
  | none => exact Option.Rel.none
  | some h => exact Option.Rel.some ⟨congrArg (List.cons r) h.1, h.2⟩

/-- **Bisimulation**: when related states answer every action alike, or are
    both stuck there, whole runs have the same replies and are stuck at the
    same places. -/
theorem bisimulation (c : Machine σ α ρ) (d : Machine τ α ρ) (R : σ → τ → Prop) {as : List α}
    (hsim : ∀ s t, ∀ a ∈ as, R s t → Alike R (c.step s a) (d.step t a))
    {s : σ} {t : τ} (hR : R s t) : Alike R (c.run s as) (d.run t as) := by
  induction as generalizing s t with
  | nil => exact Option.Rel.some ⟨rfl, hR⟩
  | cons a as ih =>
      have hstep := hsim s t a List.mem_cons_self hR
      unfold run
      generalize c.step s a = o at hstep
      generalize d.step t a = o' at hstep
      cases hstep with
      | none => exact Option.Rel.none
      | @some p q h =>
          obtain ⟨hreply, hnext⟩ := h
          have hlater := fun s t b hb => hsim s t b (List.mem_cons_of_mem a hb)
          have hrest := (ih hlater hnext).cons_reply p.2
          rw [hreply] at hrest
          simp only [hreply]
          exact hrest

/-! ## §5. Ranked machines. -/

section Ranked

variable {m : Machine σ α ρ} {C : σ → α → Prop} {I : σ → Prop} {rank : σ → Nat}

/-- **A run along which every step lowers the rank** is no longer than the
    rank it starts from. -/
theorem run_length_add_rank_le
    (hstep : ∀ s a s' r, I s → C s a → m.step s a = some (s', r) → I s' ∧ rank s' < rank s)
    {as : List α} {s s' : σ} {rs : List ρ} (hC : m.Along C s as)
    (hrun : m.run s as = some (s', rs)) (hs : I s) : I s' ∧ as.length + rank s' ≤ rank s := by
  induction as generalizing s rs with
  | nil =>
      simp only [run_nil, Option.some.injEq, Prod.mk.injEq] at hrun
      rw [← hrun.1, List.length_nil, Nat.zero_add]
      exact ⟨hs, Nat.le_refl _⟩
  | cons a as ih =>
      obtain ⟨s₁, r, rs', hst, hrest, _⟩ := m.run_cons_eq_some.mp hrun
      obtain ⟨hnow, hlater⟩ := (m.along_cons hst).mp hC
      obtain ⟨hs₁, hlower⟩ := hstep s a s₁ r hs hnow hst
      obtain ⟨hs', hle⟩ := ih hlater hrest hs₁
      refine ⟨hs', ?_⟩
      rw [List.length_cons]
      omega

/-- **Such runs end**: from every state there is one to a state where no
    step of the kind is left. -/
theorem exists_run_to_end
    (hstep : ∀ s a s' r, I s → C s a → m.step s a = some (s', r) → I s' ∧ rank s' < rank s)
    {s : σ} (hs : I s) :
    ∃ as s' rs, m.Along C s as ∧ m.run s as = some (s', rs)
      ∧ ∀ a, C s' a → m.step s' a = none := by
  -- by induction on the rank
  induction hn : rank s using Nat.strongRecOn generalizing s with
  | ind n ih =>
      by_cases hend : ∀ a, C s a → m.step s a = none
      · exact ⟨[], s, [], trivial, rfl, hend⟩
      · push Not at hend
        obtain ⟨a, hC, hsome⟩ := hend
        obtain ⟨⟨s₁, r⟩, hst⟩ := Option.ne_none_iff_exists'.mp hsome
        obtain ⟨hs₁, hlower⟩ := hstep s a s₁ r hs hC hst
        obtain ⟨as, s', rs, halong, hrun, hstuck⟩ := ih (rank s₁) (hn ▸ hlower) hs₁ rfl
        exact ⟨a :: as, s', r :: rs, (m.along_cons hst).mpr ⟨hC, halong⟩,
          m.run_cons_eq_some.mpr ⟨s₁, r, rs, hst, hrun, rfl⟩, hstuck⟩

end Ranked

/-! ## §6. Observed machines. -/

variable {ω : Type*}

/-- The same machine, answering what `view` shows of each step. -/
def observe (m : Machine σ α ρ) (view : σ → α → ω) : Machine σ α ω where
  step s a := (m.step s a).map (fun p => (p.1, view s a))

theorem observe_step_eq_some (m : Machine σ α ρ) (view : σ → α → ω) {s s' : σ} {a : α} {e : ω} :
    (m.observe view).step s a = some (s', e) ↔ (∃ r, m.step s a = some (s', r)) ∧ e = view s a := by
  unfold observe
  rw [Option.map_eq_some_iff]
  constructor
  · rintro ⟨⟨t, r⟩, hst, heq⟩
    simp only [Prod.mk.injEq] at heq
    rw [← heq.1, ← heq.2]
    exact ⟨⟨r, hst⟩, rfl⟩
  · rintro ⟨⟨r, hst⟩, rfl⟩
    exact ⟨(s', r), hst, rfl⟩

/-- **Looking changes nothing**: an observed machine performs the same lists
    of actions and ends in the same states. -/
theorem observe_run_iff (m : Machine σ α ρ) (view : σ → α → ω) {as : List α} {s s' : σ} :
    (∃ es, (m.observe view).run s as = some (s', es)) ↔ ∃ rs, m.run s as = some (s', rs) := by
  induction as generalizing s with
  | nil => simp
  | cons a as ih =>
      constructor
      · rintro ⟨es, hrun⟩
        obtain ⟨s₁, e, es', hst, hr, _⟩ := (m.observe view).run_cons_eq_some.mp hrun
        obtain ⟨⟨r, hst⟩, _⟩ := (m.observe_step_eq_some view).mp hst
        obtain ⟨rs, hrs⟩ := ih.mp ⟨es', hr⟩
        exact ⟨r :: rs, m.run_cons_eq_some.mpr ⟨s₁, r, rs, hst, hrs, rfl⟩⟩
      · rintro ⟨rs, hrun⟩
        obtain ⟨s₁, r, rs', hst, hr, _⟩ := m.run_cons_eq_some.mp hrun
        have hview := (m.observe_step_eq_some view).mpr ⟨⟨r, hst⟩, rfl⟩
        obtain ⟨es, hes⟩ := ih.mpr ⟨rs', hr⟩
        exact ⟨view s a :: es,
          (m.observe view).run_cons_eq_some.mpr ⟨s₁, view s a, es, hview, hes, rfl⟩⟩

end Machine

end FreePacket.Lib
