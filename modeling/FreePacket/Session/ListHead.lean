/-
  FreePacket.Session.ListHead
  ───────────────────────────
  **THE INTRUSIVE LISTS OF `list.h`.**

  A `struct list_head` is a cell of a heap of links; a list is the circle of
  cells from its head around.  The functions are those of `list.h` on such a
  heap.  `none` is a null pointer that is followed or written through.

  Main results:
    * `listDel_circle` — `list_del` of a linked entry takes it out of its
      circle and leaves its own links null.
    * `listAdd_circle`, `listAddTail_circle` — a new entry comes to the front
      or to the end of the circle.
    * `listForEachSafe_rule` — the loop rule of `list_for_each_safe`, for
      bodies that may delete the entry they are called with.
-/
import FreePacket.Lib.Links

namespace FreePacket.Session

open FreePacket.Lib

variable {α σ : Type*} [DecidableEq α]

/-! ## §1. `list_del`. -/

/-- `__list_del`. -/
def listDelBetween (links : Links α) (prev next : Option α) : Option (Links α) :=
  match prev, next with
  | some prev, some next => some ((links.setPrev next (some prev)).setNext prev (some next))
  | _, _ => none

/-- `list_del`. -/
def listDel (links : Links α) (entry : α) : Option (Links α) :=
  (listDelBetween links (links entry).prev (links entry).next).map
    (fun links => (links.setNext entry none).setPrev entry none)

section Delete

variable {links : Links α} {head x : α} {pre post : List α}

/-- **`__list_del` between the neighbours of an entry** closes its circle
    behind it, and writes no other cell. -/
theorem listDelBetween_circle (hc : Circle links head (pre ++ x :: post)) :
    ∃ links', listDelBetween links (links x).prev (links x).next = some links'
      ∧ Circle links' head (pre ++ post)
      ∧ ∀ y, y ∉ head :: (pre ++ post) → links' y = links y := by
  obtain ⟨hprev, hnext⟩ := hc.neighbours
  generalize hp : (head :: pre).getLast (List.cons_ne_nil head pre) = p at hprev
  generalize hn : (post ++ [head]).head (by simp) = n at hnext
  -- what the two stores leave, cell by cell
  generalize hlinks : (links.setPrev n (some p)).setNext p (some n) = links'
  have hnexts : ∀ y, (links' y).next = if y = p then some n else (links y).next := by
    intro y
    rw [← hlinks, setNext_next, setPrev_next]
  have hprevs : ∀ y, (links' y).prev = if y = n then some p else (links y).prev := by
    intro y
    rw [← hlinks, setNext_prev, setPrev_prev]
  refine ⟨links', ?_, ?_, ?_⟩
  · rw [hprev, hnext, ← hlinks]
    rfl
  · refine hc.bypass hp.symm hn.symm ⟨?_, ?_⟩ ?_ ?_
    · rw [hnexts, if_pos rfl]
    · rw [hprevs, if_pos rfl]
    · intro y _ hyp
      rw [hnexts, if_neg hyp]
    · intro y _ hyn
      rw [hprevs, if_neg hyn]
  · intro y hy
    have hyp : y ≠ p := fun heq => hy (heq ▸ hp ▸ front_mem head pre post)
    have hyn : y ≠ n := fun heq => hy (heq ▸ hn ▸ back_mem head pre post)
    rw [Link.mk.injEq]
    exact ⟨(hnexts y).trans (if_neg hyp), (hprevs y).trans (if_neg hyn)⟩

/-- **`list_del` of a linked entry**: its circle closes behind it, its own
    links are null, and no cell outside the circle is written. -/
theorem listDel_circle (hc : Circle links head (pre ++ x :: post)) :
    ∃ links', listDel links x = some links' ∧ Circle links' head (pre ++ post)
      ∧ links' x = ⟨none, none⟩
      ∧ ∀ y, y ∉ head :: (pre ++ x :: post) → links' y = links y := by
  obtain ⟨closed, hdel, hcircle, hframe⟩ := listDelBetween_circle hc
  have hx := hc.not_mem_rest
  have hself : (closed.setNext x none).setPrev x none x = ⟨none, none⟩ := by
    rw [Link.mk.injEq, setPrev_next, setNext_next, setPrev_prev]
    exact ⟨if_pos rfl, if_pos rfl⟩
  have hother : ∀ y, y ≠ x → (closed.setNext x none).setPrev x none y = closed y := by
    intro y hy
    rw [Link.mk.injEq, setPrev_next, setNext_next, setPrev_prev, setNext_prev]
    exact ⟨if_neg hy, if_neg hy⟩
  refine ⟨(closed.setNext x none).setPrev x none, ?_, ?_, hself, ?_⟩
  · unfold listDel
    rw [hdel]
    rfl
  · refine hcircle.congr ?_
    intro y hy
    exact hother y (fun heq => hx (heq ▸ hy))
  · intro y hy
    have hyx : y ≠ x := by
      intro heq
      rw [heq] at hy
      exact hy (List.mem_cons_of_mem head (List.mem_append_right pre List.mem_cons_self))
    rw [hother y hyx]
    refine hframe y (fun hmem => hy ?_)
    exact ((List.sublist_cons_self x post).append_left pre).cons_cons head |>.subset hmem

end Delete

/-! ## §2. `INIT_LIST_HEAD`, `list_add` and their kin. -/

/-- `INIT_LIST_HEAD`. -/
def initListHead (links : Links α) (list : α) : Links α :=
  (links.setNext list (some list)).setPrev list (some list)

/-- `__list_add`. -/
def listAddBetween (links : Links α) (new : α) (prev next : Option α) : Option (Links α) :=
  match prev, next with
  | some prev, some next =>
      some ((((links.setPrev next (some new)).setNext new (some next)).setPrev new
        (some prev)).setNext prev (some new))
  | _, _ => none

/-- `list_add`. -/
def listAdd (links : Links α) (new head : α) : Option (Links α) :=
  listAddBetween links new (some head) (links head).next

/-- `list_add_tail`. -/
def listAddTail (links : Links α) (new head : α) : Option (Links α) :=
  listAddBetween links new (links head).prev (some head)

/-- `list_move_tail`. -/
def listMoveTail (links : Links α) (list head : α) : Option (Links α) :=
  (listDelBetween links (links list).prev (links list).next).bind
    (fun links => listAddTail links list head)

/-- `list_empty`. -/
def listEmpty (links : Links α) (head : α) : Bool := (links head).next = some head

/-- The entries `list_for_each(pos, head)` visits. -/
def listForEach (links : Links α) (head : α) (fuel : Nat) : Option (List α) :=
  walk (fun pos => (links pos).next) head fuel (links head).next

section Insert

variable {links : Links α} {head x : α} {pre post : List α}

/-- **`INIT_LIST_HEAD` makes an empty circle**, and writes no other cell. -/
theorem initListHead_circle (links : Links α) (head : α) :
    Circle (initListHead links head) head []
      ∧ ∀ y, y ≠ head → initListHead links head y = links y := by
  refine ⟨⟨path_nil.mpr ⟨?_, ?_⟩, List.pairwise_singleton _ head⟩, ?_⟩
  · unfold initListHead
    rw [setPrev_next, setNext_next, if_pos rfl]
  · unfold initListHead
    rw [setPrev_prev, if_pos rfl]
  · intro y hy
    unfold initListHead
    rw [Link.mk.injEq, setPrev_next, setNext_next, setPrev_prev, setNext_prev]
    exact ⟨if_neg hy, if_neg hy⟩

/-- **`__list_add` between two neighbours** puts the new entry between them,
    and writes no other cell.  The neighbours may be one cell, as the head of
    an empty list is. -/
theorem listAddBetween_circle (hc : Circle links head (pre ++ post))
    (hx : x ∉ head :: (pre ++ post)) :
    ∃ links', listAddBetween links x (some ((head :: pre).getLast (List.cons_ne_nil head pre)))
        (some ((post ++ [head]).head (by simp))) = some links'
      ∧ Circle links' head (pre ++ x :: post)
      ∧ ∀ y, y ≠ x → y ∉ head :: (pre ++ post) → links' y = links y := by
  have hpmem := front_mem head pre post
  have hnmem := back_mem head pre post
  generalize hp : (head :: pre).getLast (List.cons_ne_nil head pre) = p at hpmem
  generalize hn : (post ++ [head]).head (by simp) = n at hnmem
  have hxp : x ≠ p := fun heq => hx (heq ▸ hpmem)
  have hxn : x ≠ n := fun heq => hx (heq ▸ hnmem)
  -- what the four stores leave, cell by cell
  generalize hlinks : (((links.setPrev n (some x)).setNext x (some n)).setPrev x (some p)).setNext p
    (some x) = links'
  have hnexts : ∀ y, (links' y).next
      = if y = p then some x else if y = x then some n else (links y).next := by
    intro y
    rw [← hlinks, setNext_next, setPrev_next, setNext_next, setPrev_next]
  have hprevs : ∀ y, (links' y).prev
      = if y = x then some p else if y = n then some x else (links y).prev := by
    intro y
    rw [← hlinks, setNext_prev, setPrev_prev, setNext_prev, setPrev_prev]
  have hold : ∀ y ∈ head :: (pre ++ post), y ≠ x := fun y hy heq => hx (heq ▸ hy)
  refine ⟨links', by rw [← hlinks]; rfl, ?_, ?_⟩
  · refine hc.insert hx hp.symm hn.symm ⟨?_, ?_⟩ ⟨?_, ?_⟩ ?_ ?_
    · rw [hnexts, if_pos rfl]
    · rw [hprevs, if_pos rfl]
    · rw [hnexts, if_neg hxp, if_pos rfl]
    · rw [hprevs, if_neg (Ne.symm hxn), if_pos rfl]
    · intro y hy hyp
      rw [hnexts, if_neg hyp, if_neg (hold y hy)]
    · intro y hy hyn
      rw [hprevs, if_neg (hold y hy), if_neg hyn]
  · intro y hyx hy
    have hyp : y ≠ p := fun heq => hy (heq ▸ hpmem)
    have hyn : y ≠ n := fun heq => hy (heq ▸ hnmem)
    rw [Link.mk.injEq]
    exact ⟨(hnexts y).trans ((if_neg hyp).trans (if_neg hyx)),
      (hprevs y).trans ((if_neg hyx).trans (if_neg hyn))⟩

variable {l : List α}

/-- **`list_add`** puts the new entry in front. -/
theorem listAdd_circle (hc : Circle links head l) (hx : x ∉ head :: l) :
    ∃ links', listAdd links x head = some links' ∧ Circle links' head (x :: l)
      ∧ ∀ y, y ≠ x → y ∉ head :: l → links' y = links y := by
  have hsplit : Circle links head ([] ++ l) := hc
  unfold listAdd
  rw [hc.path.next_eq]
  exact listAddBetween_circle hsplit hx

/-- **`list_add_tail`** puts it at the end. -/
theorem listAddTail_circle (hc : Circle links head l) (hx : x ∉ head :: l) :
    ∃ links', listAddTail links x head = some links' ∧ Circle links' head (l ++ [x])
      ∧ ∀ y, y ≠ x → y ∉ head :: l → links' y = links y := by
  rw [← List.append_nil l] at hc hx
  have hadd := listAddBetween_circle hc hx
  unfold listAddTail
  rw [List.append_nil] at hc hadd
  rw [hc.path.prev_eq]
  exact hadd

/-- **`list_empty` holds of the empty circle only.** -/
theorem listEmpty_iff (hc : Circle links head l) : listEmpty links head = true ↔ l = [] := by
  unfold listEmpty
  rw [decide_eq_true_iff, hc.path.next_eq, Option.some.injEq]
  cases l with
  | nil => exact ⟨fun _ => rfl, fun _ => rfl⟩
  | cons a l =>
      constructor
      · intro heq
        have ha : a = head := heq
        exact absurd (ha ▸ List.mem_cons_self) (List.nodup_cons.mp hc.nodup).1
      · intro hnil
        exact absurd hnil (List.cons_ne_nil a l)

end Insert

/-! ## §3. `list_for_each_safe`. -/

/-- The loop of `list_for_each_safe(pos, n, head)`, from `pos` on, with the
    successor `n` saved.  The body works on a state that holds the links. -/
def listForEachSafeLoop (links : σ → Links α) (head : α) (body : α → σ → Option σ) :
    Nat → α → Option α → σ → Option σ
  | 0, _, _, _ => none
  | fuel + 1, pos, n, s =>
      if pos = head then some s
      else
        match body pos s, n with
        | some s, some pos => listForEachSafeLoop links head body fuel pos (links s pos).next s
        | _, _ => none

/-- `list_for_each_safe`. -/
def listForEachSafe (links : σ → Links α) (head : α) (body : α → σ → Option σ) (fuel : Nat)
    (s : σ) : Option σ :=
  match (links s head).next with
  | none => none
  | some pos => listForEachSafeLoop links head body fuel pos (links s pos).next s

section Loop

variable {links : σ → Links α} {head : α} {body : α → σ → Option σ}
  {P : List α → σ → Prop}

/-- **The loop rule**: `P rest s` where `rest` is still to visit.  The body
    may take the visited entry out of the circle, as long as what is left of
    the circle ends in `rest`. -/
theorem listForEachSafeLoop_rule
    (hcircle : ∀ rest s, P rest s → ∃ kept, Circle (links s) head (kept ++ rest))
    (hbody : ∀ x rest s, P (x :: rest) s → ∃ s', body x s = some s' ∧ P rest s')
    {rest : List α} {s : σ} (hs : P rest s) {fuel : Nat} (hfuel : rest.length < fuel) :
    ∃ s', listForEachSafeLoop links head body fuel ((rest ++ [head]).head (by simp))
        (links s ((rest ++ [head]).head (by simp))).next s = some s' ∧ P [] s' := by
  induction rest generalizing s fuel with
  | nil =>
      obtain ⟨fuel, rfl⟩ := Nat.exists_eq_succ_of_ne_zero (Nat.ne_of_gt hfuel)
      exact ⟨s, if_pos rfl, hs⟩
  | cons x rest ih =>
      obtain ⟨fuel, rfl⟩ := Nat.exists_eq_succ_of_ne_zero (Nat.ne_of_gt (Nat.zero_lt_of_lt hfuel))
      obtain ⟨kept, hc⟩ := hcircle _ _ hs
      have hne : x ≠ head := by
        rintro rfl
        exact (List.nodup_cons.mp hc.nodup).1 (List.mem_append_right kept List.mem_cons_self)
      obtain ⟨s₁, hrun, hs₁⟩ := hbody x rest s hs
      obtain ⟨s', hloop, hend⟩ := ih hs₁ (Nat.lt_of_succ_lt_succ hfuel)
      refine ⟨s', ?_, hend⟩
      -- the successor was read before the body ran
      show listForEachSafeLoop links head body (fuel + 1) x (links s x).next s = some s'
      simp only [listForEachSafeLoop, if_neg hne, hrun, hc.neighbours.2]
      exact hloop

/-- **`list_for_each_safe` visits the entries of the circle in order.** -/
theorem listForEachSafe_rule
    (hcircle : ∀ rest s, P rest s → ∃ kept, Circle (links s) head (kept ++ rest))
    (hbody : ∀ x rest s, P (x :: rest) s → ∃ s', body x s = some s' ∧ P rest s')
    {l : List α} {s : σ} (hc : Circle (links s) head l) (hs : P l s) {fuel : Nat}
    (hfuel : l.length < fuel) :
    ∃ s', listForEachSafe links head body fuel s = some s' ∧ P [] s' := by
  unfold listForEachSafe
  rw [hc.path.next_eq]
  exact listForEachSafeLoop_rule hcircle hbody hs hfuel

end Loop

end FreePacket.Session
