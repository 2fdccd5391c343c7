/-
  FreePacket.Lib.Links
  ────────────────────
  **CIRCULAR DOUBLY LINKED LISTS over an explicit heap of links.**

  A heap gives every cell a `next` and a `prev`, null or another cell.
  `Path h a l b` says that the links lead from `a` through the cells `l` to
  `b`, forward and back; `Circle h head l` that they lead around from a head
  to itself through distinct cells.

  Main results:
    * `Path.redirect` — a path whose last link is set to another cell.
    * `Circle.bypass` — linking the two neighbours of a cell to each other
      takes it out of the circle.
    * `Circle.insert` — linking a new cell to two neighbours puts it between
      them.
    * `Circle.walk_next`, `Circle.walk_prev` — the walks forward and backward
      from the head.
    * `Circle.congr` — a circle is about the links of its own cells.

  Nothing here names a program.
-/
import Mathlib.Data.List.Chain
import Mathlib.Logic.Function.Basic

namespace FreePacket.Lib

variable {α : Type*}

/-! ## §1. Heaps of links. -/

/-- Where a cell points to, `none` being the null pointer. -/
structure Link (α : Type*) where
  next : Option α
  prev : Option α
  deriving DecidableEq

/-- A link in every cell. -/
abbrev Links (α : Type*) := α → Link α

section Stores

variable [DecidableEq α]

/-- `a->next = v`. -/
def Links.setNext (h : Links α) (a : α) (v : Option α) : Links α :=
  Function.update h a { h a with next := v }

/-- `a->prev = v`. -/
def Links.setPrev (h : Links α) (a : α) (v : Option α) : Links α :=
  Function.update h a { h a with prev := v }

theorem setNext_next (h : Links α) (a b : α) (v : Option α) :
    (h.setNext a v b).next = if b = a then v else (h b).next := by
  unfold Links.setNext
  by_cases hb : b = a
  · rw [hb, Function.update_self, if_pos rfl]
  · rw [Function.update_of_ne hb, if_neg hb]

@[simp] theorem setNext_prev (h : Links α) (a b : α) (v : Option α) :
    (h.setNext a v b).prev = (h b).prev := by
  unfold Links.setNext
  by_cases hb : b = a
  · rw [hb, Function.update_self]
  · rw [Function.update_of_ne hb]

theorem setPrev_prev (h : Links α) (a b : α) (v : Option α) :
    (h.setPrev a v b).prev = if b = a then v else (h b).prev := by
  unfold Links.setPrev
  by_cases hb : b = a
  · rw [hb, Function.update_self, if_pos rfl]
  · rw [Function.update_of_ne hb, if_neg hb]

@[simp] theorem setPrev_next (h : Links α) (a b : α) (v : Option α) :
    (h.setPrev a v b).next = (h b).next := by
  unfold Links.setPrev
  by_cases hb : b = a
  · rw [hb, Function.update_self]
  · rw [Function.update_of_ne hb]

end Stores

/-! ## §2. Paths. -/

/-- `a` and `b` are neighbours, in this order. -/
def Linked (h : Links α) (a b : α) : Prop := (h a).next = some b ∧ (h b).prev = some a

/-- The links lead from `a` through `l` to `b`. -/
def Path (h : Links α) (a : α) (l : List α) (b : α) : Prop :=
  List.IsChain (Linked h) (a :: (l ++ [b]))

variable {h h' : Links α}

theorem path_nil {a b : α} : Path h a [] b ↔ Linked h a b := by
  unfold Path
  rw [List.nil_append, List.isChain_cons_cons]
  simp

theorem path_cons {a x b : α} {l : List α} :
    Path h a (x :: l) b ↔ Linked h a x ∧ Path h x l b := by
  unfold Path
  rw [List.cons_append, List.isChain_cons_cons]

/-- **A path is cut at any of its cells.** -/
theorem path_append {a x b : α} {l m : List α} :
    Path h a (l ++ x :: m) b ↔ Path h a l x ∧ Path h x m b := by
  unfold Path
  rw [List.append_assoc, List.cons_append, List.isChain_cons_split]

/-- **A path is cut between any two of its cells.** -/
theorem Path.split {a b : α} {l m : List α} (hp : Path h a (l ++ m) b) :
    Path h a l ((m ++ [b]).head (by simp))
      ∧ Path h ((a :: l).getLast (List.cons_ne_nil a l)) m b := by
  induction l generalizing a with
  | nil =>
      refine ⟨?_, hp⟩
      cases m with
      | nil => exact hp
      | cons x m => exact path_nil.mpr (path_cons.mp hp).1
  | cons x l ih =>
      obtain ⟨hlink, hrest⟩ := path_cons.mp hp
      obtain ⟨hfront, hback⟩ := ih hrest
      rw [List.getLast_cons (List.cons_ne_nil x l)]
      exact ⟨path_cons.mpr ⟨hlink, hfront⟩, hback⟩

/-- The first cell a path leads to. -/
theorem Path.next_eq {a b : α} {l : List α} (hp : Path h a l b) :
    (h a).next = some ((l ++ [b]).head (by simp)) := by
  cases l with
  | nil => exact (path_nil.mp hp).1
  | cons x l => exact (path_cons.mp hp).1.1

/-- The last cell it comes from. -/
theorem Path.prev_eq {a b : α} {l : List α} (hp : Path h a l b) :
    (h b).prev = some ((a :: l).getLast (List.cons_ne_nil a l)) := by
  induction l generalizing a with
  | nil => exact (path_nil.mp hp).2
  | cons x l ih =>
      rw [List.getLast_cons (List.cons_ne_nil x l)]
      exact ih (path_cons.mp hp).2

/-- A path is about the `next` of all cells but the last, and the `prev` of
    all but the first. -/
theorem Path.congr {a b : α} {l : List α} (hp : Path h a l b)
    (hnext : ∀ x ∈ a :: l, (h' x).next = (h x).next)
    (hprev : ∀ x ∈ l ++ [b], (h' x).prev = (h x).prev) : Path h' a l b := by
  induction l generalizing a with
  | nil =>
      obtain ⟨hn, hp⟩ := path_nil.mp hp
      refine path_nil.mpr ⟨?_, ?_⟩
      · rw [hnext a List.mem_cons_self, hn]
      · rw [hprev b (by simp), hp]
  | cons x l ih =>
      obtain ⟨⟨hn, hp⟩, hrest⟩ := path_cons.mp hp
      refine path_cons.mpr ⟨⟨?_, ?_⟩, ?_⟩
      · rw [hnext a List.mem_cons_self, hn]
      · rw [hprev x List.mem_cons_self, hp]
      · exact ih hrest (fun y hy => hnext y (List.mem_cons_of_mem a hy))
          (fun y hy => hprev y (List.mem_cons_of_mem x hy))

/-- **The last link set to another cell** `c`: the path leads there instead. -/
theorem Path.redirect {a b c p : α} {l : List α} (hp : Path h a l b)
    (hlast : p = (a :: l).getLast (List.cons_ne_nil a l)) (hnd : (a :: l).Nodup)
    (hlink : Linked h' p c) (hnext : ∀ x ∈ a :: l, x ≠ p → (h' x).next = (h x).next)
    (hprev : ∀ x ∈ l, (h' x).prev = (h x).prev) : Path h' a l c := by
  induction l generalizing a with
  | nil =>
      rw [List.getLast_singleton] at hlast
      rw [path_nil, ← hlast]
      exact hlink
  | cons x l ih =>
      obtain ⟨⟨hn, hx⟩, hrest⟩ := path_cons.mp hp
      rw [List.getLast_cons (List.cons_ne_nil x l)] at hlast
      obtain ⟨ha, hnd⟩ := List.nodup_cons.mp hnd
      -- `a` is not the last cell, which is one of `x :: l`
      have hne : a ≠ p := by
        intro heq
        apply ha
        rw [heq, hlast]
        exact List.getLast_mem _
      refine path_cons.mpr ⟨⟨?_, ?_⟩, ?_⟩
      · rw [hnext a List.mem_cons_self hne, hn]
      · rw [hprev x List.mem_cons_self, hx]
      · exact ih hrest hlast hnd (fun y hy => hnext y (List.mem_cons_of_mem a hy))
          (fun y hy => hprev y (List.mem_cons_of_mem x hy))

/-! ## §3. Circles. -/

/-- **The links lead from the head through `l` back to the head**, and no
    cell comes twice. -/
structure Circle (h : Links α) (head : α) (l : List α) : Prop where
  path : Path h head l head
  nodup : (head :: l).Nodup

/-- Only the links of its own cells count. -/
theorem Circle.congr {head : α} {l : List α} (hc : Circle h head l)
    (hsame : ∀ x ∈ head :: l, h' x = h x) : Circle h' head l := by
  refine ⟨hc.path.congr (fun x hx => by rw [hsame x hx]) ?_, hc.nodup⟩
  intro x hx
  have hmem : x ∈ head :: l := by
    rcases List.mem_append.mp hx with hx | hx
    · exact List.mem_cons_of_mem head hx
    · rw [List.mem_singleton.mp hx]
      exact List.mem_cons_self
  rw [hsame x hmem]

/-- The neighbours of a cell of a circle: the last of what is in front of it,
    the first of what is behind it. -/
theorem Circle.neighbours {head x : α} {pre post : List α}
    (hc : Circle h head (pre ++ x :: post)) :
    (h x).prev = some ((head :: pre).getLast (List.cons_ne_nil head pre))
      ∧ (h x).next = some ((post ++ [head]).head (by simp)) := by
  obtain ⟨hfront, hback⟩ := path_append.mp hc.path
  exact ⟨hfront.prev_eq, hback.next_eq⟩

/-- An entry of a circle is none of the other cells. -/
theorem Circle.not_mem_rest {head x : α} {pre post : List α}
    (hc : Circle h head (pre ++ x :: post)) : x ∉ head :: (pre ++ post) := by
  have hnd := hc.nodup
  have hperm : (head :: (pre ++ x :: post)).Perm (x :: head :: (pre ++ post)) :=
    (List.perm_middle.cons head).trans (List.Perm.swap x head _)
  rw [hperm.nodup_iff] at hnd
  exact (List.nodup_cons.mp hnd).1

/-! ## §4. Edits. -/

section Edit

variable {head p n : α} {pre post : List α}

/-- The cell in front of an edit is the head or in the front. -/
theorem front_mem (head : α) (pre post : List α) :
    (head :: pre).getLast (List.cons_ne_nil head pre) ∈ head :: (pre ++ post) :=
  List.mem_append_left post (List.getLast_mem (List.cons_ne_nil head pre))

/-- The cell behind it is the head or in the back. -/
theorem back_mem (head : α) (pre post : List α) :
    (post ++ [head]).head (by simp) ∈ head :: (pre ++ post) := by
  have hmem : (post ++ [head]).head (by simp) ∈ post ++ [head] := List.head_mem _
  rcases List.mem_append.mp hmem with hmem | hmem
  · exact List.mem_cons_of_mem head (List.mem_append_right pre hmem)
  · rw [List.mem_singleton.mp hmem]
    exact List.mem_cons_self

/-- What is in front of an edit: the path of the front leads to the cell that
    is linked behind its last one. -/
theorem Path.front_kept {a c : α} (hfront : Path h head pre a) (hnd : (head :: (pre ++ post)).Nodup)
    (hp : p = (head :: pre).getLast (List.cons_ne_nil head pre))
    (hn : n = (post ++ [head]).head (by simp)) (hlink : Linked h' p c)
    (hnext : ∀ y ∈ head :: (pre ++ post), y ≠ p → (h' y).next = (h y).next)
    (hprev : ∀ y ∈ head :: (pre ++ post), y ≠ n → (h' y).prev = (h y).prev) :
    Path h' head pre c := by
  have hpre : (head :: pre).Nodup :=
    hnd.sublist ((List.sublist_append_left pre post).cons_cons head)
  refine hfront.redirect hp hpre hlink ?_ ?_
  · intro y hy
    exact hnext y (List.mem_append_left post hy)
  · intro y hy
    refine hprev y (List.mem_append_left post (List.mem_cons_of_mem head hy)) ?_
    intro heq
    -- `n` is the head or a cell of the back, and `y` is neither
    have hmem : n ∈ post ++ [head] := by
      rw [hn]
      exact List.head_mem _
    rw [heq] at hy
    rcases List.mem_append.mp hmem with hmem | hmem
    · exact (List.nodup_append.mp (List.nodup_cons.mp hnd).2).2.2 n hy n hmem rfl
    · rw [List.mem_singleton.mp hmem] at hy
      exact (List.nodup_cons.mp hpre).1 hy

/-- What is behind an edit: the path of the back starts from the cell that is
    linked in front of its first one. -/
theorem Path.back_kept {b c : α} (hback : Path h b post head) (hnd : (head :: (pre ++ post)).Nodup)
    (hp : p = (head :: pre).getLast (List.cons_ne_nil head pre))
    (hn : n = (post ++ [head]).head (by simp)) (hlink : Linked h' c n)
    (hnext : ∀ y ∈ head :: (pre ++ post), y ≠ p → (h' y).next = (h y).next)
    (hprev : ∀ y ∈ head :: (pre ++ post), y ≠ n → (h' y).prev = (h y).prev) :
    Path h' c post head := by
  cases post with
  | nil =>
      have hhead : n = head := hn
      exact path_nil.mpr (hhead ▸ hlink)
  | cons x rest =>
      have hx : n = x := hn
      rw [hx] at hlink hprev
      have hsplit : (head :: (pre ++ x :: rest)) = (head :: pre) ++ x :: rest := rfl
      rw [hsplit, List.nodup_append] at hnd
      obtain ⟨_, hrest, hapart⟩ := hnd
      refine path_cons.mpr ⟨hlink, (path_cons.mp hback).2.congr ?_ ?_⟩
      · intro y hy
        refine hnext y (List.mem_append_right (head :: pre) hy) ?_
        intro heq
        exact hapart p (hp ▸ List.getLast_mem _) y hy heq.symm
      · intro y hy
        rcases List.mem_append.mp hy with hy | hy
        · refine hprev y (List.mem_append_right (head :: pre) (List.mem_cons_of_mem x hy)) ?_
          intro heq
          rw [heq] at hy
          exact (List.nodup_cons.mp hrest).1 hy
        · rw [List.mem_singleton.mp hy]
          exact hprev head List.mem_cons_self (hapart head List.mem_cons_self x List.mem_cons_self)

/-- **A cell taken out of its circle**: its neighbours are linked to each
    other, and nothing else of the circle has changed. -/
theorem Circle.bypass {x : α} (hc : Circle h head (pre ++ x :: post))
    (hp : p = (head :: pre).getLast (List.cons_ne_nil head pre))
    (hn : n = (post ++ [head]).head (by simp)) (hlink : Linked h' p n)
    (hnext : ∀ y ∈ head :: (pre ++ post), y ≠ p → (h' y).next = (h y).next)
    (hprev : ∀ y ∈ head :: (pre ++ post), y ≠ n → (h' y).prev = (h y).prev) :
    Circle h' head (pre ++ post) := by
  obtain ⟨hfront, hback⟩ := path_append.mp hc.path
  have hnd : (head :: (pre ++ post)).Nodup :=
    hc.nodup.sublist (((List.sublist_cons_self x post).append_left pre).cons_cons head)
  have hfront' := hfront.front_kept hnd hp hn hlink hnext hprev
  refine ⟨?_, hnd⟩
  cases post with
  | nil =>
      -- `x` was the last cell, so the path in front of it now leads to the head
      have hhead : n = head := hn
      rw [List.append_nil]
      exact hhead ▸ hfront'
  | cons c rest =>
      have hc' : n = c := hn
      have hback' := hback.back_kept hnd hp hn hlink hnext hprev
      exact path_append.mpr ⟨hc' ▸ hfront', (path_cons.mp hback').2⟩

/-- **A new cell put into a circle**: it is linked to the two cells it comes
    between, and nothing else of the circle has changed. -/
theorem Circle.insert {x : α} (hc : Circle h head (pre ++ post)) (hx : x ∉ head :: (pre ++ post))
    (hp : p = (head :: pre).getLast (List.cons_ne_nil head pre))
    (hn : n = (post ++ [head]).head (by simp)) (hpx : Linked h' p x) (hxn : Linked h' x n)
    (hnext : ∀ y ∈ head :: (pre ++ post), y ≠ p → (h' y).next = (h y).next)
    (hprev : ∀ y ∈ head :: (pre ++ post), y ≠ n → (h' y).prev = (h y).prev) :
    Circle h' head (pre ++ x :: post) := by
  obtain ⟨hfront, hback⟩ := hc.path.split
  refine ⟨path_append.mpr ⟨?_, ?_⟩, ?_⟩
  · exact hfront.front_kept hc.nodup hp hn hpx hnext hprev
  · exact hback.back_kept hc.nodup hp hn hxn hnext hprev
  · have hperm : (head :: (pre ++ x :: post)).Perm (x :: head :: (pre ++ post)) :=
      (List.perm_middle.cons head).trans (List.Perm.swap x head _)
    rw [hperm.nodup_iff]
    exact List.nodup_cons.mpr ⟨hx, hc.nodup⟩

end Edit

/-! ## §5. Walks. -/

/-- The other way around. -/
def Links.flip (h : Links α) : Links α := fun a => ⟨(h a).prev, (h a).next⟩

theorem Path.flip {a b : α} {l : List α} (hp : Path h a l b) : Path h.flip b l.reverse a := by
  induction l generalizing a with
  | nil =>
      obtain ⟨hn, hp⟩ := path_nil.mp hp
      exact path_nil.mpr ⟨hp, hn⟩
  | cons x l ih =>
      obtain ⟨⟨hn, hx⟩, hrest⟩ := path_cons.mp hp
      rw [List.reverse_cons]
      exact path_append.mpr ⟨ih hrest, path_nil.mpr ⟨hx, hn⟩⟩

/-- **A circle is one backwards too.** -/
theorem Circle.flip {head : α} {l : List α} (hc : Circle h head l) :
    Circle h.flip head l.reverse := by
  refine ⟨hc.path.flip, ?_⟩
  have hperm : (head :: l.reverse).Perm (head :: l) := (List.reverse_perm l).cons head
  rw [hperm.nodup_iff]
  exact hc.nodup

section Walk

variable [DecidableEq α]

/-- The cells from `pos` on up to `stop`, along `next`. -/
def walk (next : α → Option α) (stop : α) : Nat → Option α → Option (List α)
  | 0, _ => none
  | _ + 1, none => none
  | fuel + 1, some pos =>
      if pos = stop then some [] else (walk next stop fuel (next pos)).map (fun l => pos :: l)

theorem Path.walk_eq {a b : α} {l : List α} (hp : Path h a l b) (hb : b ∉ l) {fuel : Nat}
    (hfuel : l.length < fuel) : walk (fun x => (h x).next) b fuel (h a).next = some l := by
  induction l generalizing a fuel with
  | nil =>
      obtain ⟨fuel, rfl⟩ := Nat.exists_eq_succ_of_ne_zero (Nat.ne_of_gt hfuel)
      rw [(path_nil.mp hp).1]
      exact if_pos rfl
  | cons x l ih =>
      obtain ⟨fuel, rfl⟩ := Nat.exists_eq_succ_of_ne_zero (Nat.ne_of_gt (Nat.zero_lt_of_lt hfuel))
      obtain ⟨hlink, hrest⟩ := path_cons.mp hp
      have hxb : x ≠ b := fun heq => hb (heq ▸ List.mem_cons_self)
      have hl : b ∉ l := fun hmem => hb (List.mem_cons_of_mem x hmem)
      have htail := ih hrest hl (Nat.lt_of_succ_lt_succ hfuel)
      rw [hlink.1]
      unfold walk
      rw [if_neg hxb, htail]
      rfl

/-- **Forward from the head, a walk meets the cells of the circle in order.** -/
theorem Circle.walk_next {head : α} {l : List α} (hc : Circle h head l) {fuel : Nat}
    (hfuel : l.length < fuel) : walk (fun x => (h x).next) head fuel (h head).next = some l :=
  hc.path.walk_eq (List.nodup_cons.mp hc.nodup).1 hfuel

/-- **Backward, in reverse.** -/
theorem Circle.walk_prev {head : α} {l : List α} (hc : Circle h head l) {fuel : Nat}
    (hfuel : l.length < fuel) :
    walk (fun x => (h x).prev) head fuel (h head).prev = some l.reverse := by
  rw [← List.length_reverse] at hfuel
  exact hc.flip.walk_next hfuel

end Walk

end FreePacket.Lib
