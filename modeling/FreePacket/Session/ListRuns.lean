/-
  FreePacket.Session.ListRuns
  ───────────────────────────
  **SEVERAL LISTS OF `list.h` ON ONE HEAP, over whole runs of calls.**

  Behind every head stands a sequence of entries.  A call of `list_add`,
  `list_add_tail`, `list_del` or `list_move_tail` is a step on the heap of
  links and, beside it, a step on the sequences.  `OnHeap` relates the two:
  every head's circle is its sequence, and the cells of two lists are
  different ones.

  Main results:
    * `ListCall.perform_onHeap` — one call: what it makes of the sequences, and
      which cells it leaves alone.
    * `forEachSafe_onHeap` — `list_for_each_safe` with a body that deletes what
      it likes of the entries visited.
    * `listRuns_faithful` — the walks from every head, after any run of calls.
-/
import FreePacket.Lib.Machine
import FreePacket.Session.ListHead
import Mathlib.Data.List.Infix
import Mathlib.Data.List.Nodup

namespace FreePacket.Session

open FreePacket.Lib

variable {α : Type*} [DecidableEq α]

/-! ## §1. The sequences. -/

/-- A call of a function of `list.h` that changes a list. -/
inductive ListCall (α : Type*) where
  | add (new head : α)
  | addTail (new head : α)
  | del (entry : α)
  | moveTail (list head : α)
  deriving DecidableEq

/-- The entry a call is about. -/
def ListCall.entry : ListCall α → α
  | .add new _ | .addTail new _ => new
  | .del entry => entry
  | .moveTail list _ => list

/-- What a call makes of the sequences. -/
def ListCall.apply (seqs : α → List α) : ListCall α → α → List α
  | .add new head => Function.update seqs head (new :: seqs head)
  | .addTail new head => Function.update seqs head (seqs head ++ [new])
  | .del entry => fun h => (seqs h).erase entry
  | .moveTail list head =>
      Function.update (fun h => (seqs h).erase list) head ((seqs head).erase list ++ [list])

/-- The lists a call changes. -/
def ListCall.Involves (seqs : α → List α) (h : α) : ListCall α → Prop
  | .add _ head | .addTail _ head => h = head
  | .del entry => entry ∈ seqs h
  | .moveTail list head => list ∈ seqs h ∨ h = head

/-- A cell that is neither a head nor on any list. -/
def Loose (heads : List α) (seqs : α → List α) (x : α) : Prop :=
  x ∉ heads ∧ ∀ h ∈ heads, x ∉ seqs h

/-- What a call may be made with: an entry on no list is added, one on a list
    is deleted or moved, and lists have heads. -/
def ListCall.Allowed (heads : List α) (seqs : α → List α) : ListCall α → Prop
  | .add new head | .addTail new head => head ∈ heads ∧ Loose heads seqs new
  | .del entry => ∃ h ∈ heads, entry ∈ seqs h
  | .moveTail list head => head ∈ heads ∧ ∃ h ∈ heads, list ∈ seqs h

instance (heads : List α) (seqs : α → List α) (x : α) : Decidable (Loose heads seqs x) :=
  inferInstanceAs (Decidable (_ ∧ _))

instance (heads : List α) (seqs : α → List α) : DecidablePred (ListCall.Allowed heads seqs)
  | .add new head => inferInstanceAs (Decidable (head ∈ heads ∧ Loose heads seqs new))
  | .addTail new head => inferInstanceAs (Decidable (head ∈ heads ∧ Loose heads seqs new))
  | .del entry => inferInstanceAs (Decidable (∃ h ∈ heads, entry ∈ seqs h))
  | .moveTail list head =>
      inferInstanceAs (Decidable (head ∈ heads ∧ ∃ h ∈ heads, list ∈ seqs h))

/-- The calls on the sequences. -/
def sequences : Machine (α → List α) (ListCall α) Unit where
  step seqs call := some (call.apply seqs, ())

/-! ## §2. The links. -/

/-- A call on the heap of links. -/
def ListCall.perform (links : Links α) : ListCall α → Option (Links α)
  | .add new head => listAdd links new head
  | .addTail new head => listAddTail links new head
  | .del entry => listDel links entry
  | .moveTail list head => listMoveTail links list head

/-- The calls on the links. -/
def listHeads : Machine (Links α) (ListCall α) Unit where
  step links call := (call.perform links).map (fun links => (links, ()))

/-- **The heap holds the sequences**: each is the circle of its head, and no
    cell belongs to two lists. -/
structure OnHeap (heads : List α) (links : Links α) (seqs : α → List α) : Prop where
  circle : ∀ h ∈ heads, Circle links h (seqs h)
  apart : ∀ h ∈ heads, ∀ k ∈ heads, h ≠ k → ∀ x ∈ h :: seqs h, x ∉ k :: seqs k

/-- What walking over the lists shows. -/
structure Faithful (heads : List α) (links : Links α) (seqs : α → List α) : Prop where
  forward : ∀ h ∈ heads, ∀ fuel, (seqs h).length < fuel → listForEach links h fuel = some (seqs h)
  backward : ∀ h ∈ heads, ∀ fuel, (seqs h).length < fuel →
    walk (fun pos => (links pos).prev) h fuel (links h).prev = some (seqs h).reverse
  nodup : ∀ h ∈ heads, (seqs h).Nodup
  disjoint : ∀ h ∈ heads, ∀ k ∈ heads, h ≠ k → List.Disjoint (seqs h) (seqs k)
  empty : ∀ h ∈ heads, listEmpty links h = true ↔ seqs h = []

section Heap

variable {heads : List α} {links links' : Links α} {seqs : α → List α}

theorem OnHeap.faithful (hr : OnHeap heads links seqs) : Faithful heads links seqs where
  forward h hh _ hfuel := (hr.circle h hh).walk_next hfuel
  backward h hh _ hfuel := (hr.circle h hh).walk_prev hfuel
  nodup h hh := (List.nodup_cons.mp (hr.circle h hh).nodup).2
  disjoint h hh k hk hne x hx hx' :=
    hr.apart h hh k hk hne x (List.mem_cons_of_mem h hx) (List.mem_cons_of_mem k hx')
  empty h hh := listEmpty_iff (hr.circle h hh)

omit [DecidableEq α] in
/-- Only the sequences of the heads count. -/
theorem OnHeap.congr (hr : OnHeap heads links seqs) {seqs' : α → List α}
    (hsame : ∀ h ∈ heads, seqs' h = seqs h) : OnHeap heads links seqs' := by
  refine ⟨fun h hh => ?_, fun h hh k hk hne x hx => ?_⟩
  · rw [hsame h hh]
    exact hr.circle h hh
  · rw [hsame h hh] at hx
    rw [hsame k hk]
    exact hr.apart h hh k hk hne x hx

/-- Setting up heads leaves empty lists empty. -/
theorem initListHeads_circle {h : α} (hc : Circle links h []) :
    Circle (heads.foldl initListHead links) h [] := by
  induction heads generalizing links with
  | nil => exact hc
  | cons k heads ih =>
      obtain ⟨hinit, hframe⟩ := initListHead_circle links k
      apply ih
      by_cases hk : h = k
      · rw [hk]
        exact hinit
      · refine hc.congr (fun x hx => hframe x ?_)
        rw [List.mem_singleton.mp hx]
        exact hk

/-- **`INIT_LIST_HEAD` of every head** sets up empty lists, whatever the heap
    held. -/
theorem initListHeads_onHeap (heads : List α) (links : Links α) :
    OnHeap heads (heads.foldl initListHead links) (fun _ => []) := by
  refine ⟨?_, fun h _ k _ hne x hx hx' => ?_⟩
  · induction heads generalizing links with
    | nil =>
        intro h hh
        exact absurd hh List.not_mem_nil
    | cons k heads ih =>
        intro h hh
        show Circle (heads.foldl initListHead (initListHead links k)) h []
        rcases List.mem_cons.mp hh with hk | hh
        · rw [hk]
          exact initListHeads_circle (initListHead_circle links k).1
        · exact ih (initListHead links k) h hh
  · rw [List.mem_singleton.mp hx] at hx'
    exact hne (List.mem_singleton.mp hx')

/-- An entry of a list is no head. -/
theorem OnHeap.not_mem_heads (hr : OnHeap heads links seqs) {h x : α} (hh : h ∈ heads)
    (hx : x ∈ seqs h) : x ∉ heads := by
  intro hxh
  by_cases hne : h = x
  · rw [← hne] at hx
    exact (List.nodup_cons.mp (hr.circle h hh).nodup).1 hx
  · exact hr.apart h hh x hxh hne x (List.mem_cons_of_mem h hx) List.mem_cons_self

/-! ## §3. One list changed. -/

omit [DecidableEq α] in
theorem Loose.not_mem {head x : α} (hx : Loose heads seqs x) (hhead : head ∈ heads) :
    x ∉ head :: seqs head := by
  intro hmem
  rcases List.mem_cons.mp hmem with hmem | hmem
  · exact hx.1 (hmem ▸ hhead)
  · exact hx.2 head hhead hmem

/-- **One list replaced by another** made of its own entries and loose cells;
    the other lists are not written. -/
theorem OnHeap.replace (hr : OnHeap heads links seqs) {head : α} (hhead : head ∈ heads)
    {l : List α} (hc : Circle links' head l)
    (hcells : ∀ x ∈ l, x ∈ seqs head ∨ Loose heads seqs x)
    (hframe : ∀ k ∈ heads, k ≠ head → ∀ y ∈ k :: seqs k, links' y = links y) :
    OnHeap heads links' (Function.update seqs head l) := by
  have hsep : ∀ k ∈ heads, k ≠ head → ∀ x ∈ head :: l, x ∉ k :: seqs k := by
    intro k hk hne x hx
    rcases List.mem_cons.mp hx with hx | hx
    · rw [hx]
      exact hr.apart head hhead k hk (Ne.symm hne) head List.mem_cons_self
    · rcases hcells x hx with hold | hloose
      · exact hr.apart head hhead k hk (Ne.symm hne) x (List.mem_cons_of_mem head hold)
      · exact hloose.not_mem hk
  refine ⟨fun k hk => ?_, fun h hh k hk hne x hx => ?_⟩
  · by_cases hkh : k = head
    · rw [hkh, Function.update_self]
      exact hc
    · rw [Function.update_of_ne hkh]
      exact (hr.circle k hk).congr (hframe k hk hkh)
  · by_cases hhh : h = head
    · have hkh : k ≠ head := fun heq => hne (hhh.trans heq.symm)
      rw [hhh, Function.update_self] at hx
      rw [Function.update_of_ne hkh]
      exact hsep k hk hkh x hx
    · rw [Function.update_of_ne hhh] at hx
      by_cases hkh : k = head
      · rw [hkh, Function.update_self]
        exact fun hmem => hsep h hh hhh x hmem hx
      · rw [Function.update_of_ne hkh]
        exact hr.apart h hh k hk hne x hx

/-- A loose cell put into a list. -/
theorem OnHeap.insert (hr : OnHeap heads links seqs) {head x : α} (hhead : head ∈ heads)
    (hx : Loose heads seqs x) {l : List α} (hc : Circle links' head l)
    (hcells : ∀ y ∈ l, y = x ∨ y ∈ seqs head)
    (hframe : ∀ y, y ≠ x → y ∉ head :: seqs head → links' y = links y) :
    OnHeap heads links' (Function.update seqs head l) := by
  refine hr.replace hhead hc ?_ ?_
  · intro y hy
    rcases hcells y hy with heq | hold
    · rw [heq]
      exact Or.inr hx
    · exact Or.inl hold
  · intro k hk hne y hy
    refine hframe y ?_ (hr.apart k hk head hhead hne y hy)
    intro heq
    exact hx.not_mem hk (heq ▸ hy)

/-- An entry taken out of its list. -/
theorem OnHeap.remove (hr : OnHeap heads links seqs) {h x : α} (hh : h ∈ heads) (hx : x ∈ seqs h)
    (hc : Circle links' h ((seqs h).erase x))
    (hframe : ∀ y, y ∉ h :: seqs h → links' y = links y) :
    OnHeap heads links' (fun k => (seqs k).erase x) := by
  have hone : OnHeap heads links' (Function.update seqs h ((seqs h).erase x)) := by
    refine hr.replace hh hc ?_ ?_
    · intro y hy
      exact Or.inl (List.mem_of_mem_erase hy)
    · intro k hk hne y hy
      exact hframe y (hr.apart k hk h hh hne y hy)
  refine hone.congr (fun k hk => ?_)
  by_cases hkh : k = h
  · rw [hkh, Function.update_self]
  · -- the entry is on no other list
    rw [Function.update_of_ne hkh]
    refine List.erase_of_not_mem (fun hmem => ?_)
    exact hr.apart k hk h hh hkh x (List.mem_cons_of_mem k hmem) (List.mem_cons_of_mem h hx)

/-- An entry splits its list. -/
theorem OnHeap.split (hr : OnHeap heads links seqs) {h x : α} (hh : h ∈ heads) (hx : x ∈ seqs h) :
    ∃ pre post, seqs h = pre ++ x :: post ∧ (seqs h).erase x = pre ++ post := by
  obtain ⟨pre, post, hsplit⟩ := List.append_of_mem hx
  refine ⟨pre, post, hsplit, ?_⟩
  have hnd := (List.nodup_cons.mp (hr.circle h hh).nodup).2
  rw [hsplit] at hnd ⊢
  have hpre : x ∉ pre := fun hmem => (List.nodup_append.mp hnd).2.2 x hmem x List.mem_cons_self rfl
  rw [List.erase_append_right _ hpre, List.erase_cons_head]

/-- **`list_del` of an entry.** -/
theorem listDel_onHeap (hr : OnHeap heads links seqs) {h x : α} (hh : h ∈ heads) (hx : x ∈ seqs h) :
    ∃ links', listDel links x = some links' ∧ OnHeap heads links' (fun k => (seqs k).erase x)
      ∧ ∀ y, y ∉ h :: seqs h → links' y = links y := by
  obtain ⟨pre, post, hsplit, herase⟩ := hr.split hh hx
  have hc := hr.circle h hh
  rw [hsplit] at hc
  obtain ⟨links', hdel, hcircle, _, hframe⟩ := listDel_circle hc
  rw [← hsplit] at hframe
  rw [← herase] at hcircle
  exact ⟨links', hdel, hr.remove hh hx hcircle hframe, hframe⟩

/-- `__list_del` around an entry. -/
theorem listDelBetween_onHeap (hr : OnHeap heads links seqs) {h x : α} (hh : h ∈ heads)
    (hx : x ∈ seqs h) :
    ∃ links', listDelBetween links (links x).prev (links x).next = some links'
      ∧ OnHeap heads links' (fun k => (seqs k).erase x)
      ∧ ∀ y, y ∉ h :: seqs h → links' y = links y := by
  obtain ⟨pre, post, hsplit, herase⟩ := hr.split hh hx
  have hc := hr.circle h hh
  rw [hsplit] at hc
  obtain ⟨links', hdel, hcircle, hkept⟩ := listDelBetween_circle hc
  rw [← herase] at hcircle hkept
  have hframe : ∀ y, y ∉ h :: seqs h → links' y = links y := by
    intro y hy
    refine hkept y (fun hmem => hy ?_)
    rcases List.mem_cons.mp hmem with hmem | hmem
    · exact hmem ▸ List.mem_cons_self
    · exact List.mem_cons_of_mem h (List.mem_of_mem_erase hmem)
  exact ⟨links', hdel, hr.remove hh hx hcircle hframe, hframe⟩

/-- An entry taken out is loose. -/
theorem OnHeap.loose_erased (hr : OnHeap heads links seqs) {h x : α} (hh : h ∈ heads)
    (hx : x ∈ seqs h) : Loose heads (fun k => (seqs k).erase x) x := by
  refine ⟨hr.not_mem_heads hh hx, fun k hk => ?_⟩
  exact (List.nodup_cons.mp (hr.circle k hk).nodup).2.not_mem_erase

/-- **`list_add_tail` of a loose cell.** -/
theorem listAddTail_onHeap (hr : OnHeap heads links seqs) {head x : α} (hhead : head ∈ heads)
    (hx : Loose heads seqs x) :
    ∃ links', listAddTail links x head = some links'
      ∧ OnHeap heads links' (Function.update seqs head (seqs head ++ [x]))
      ∧ ∀ y, y ≠ x → y ∉ head :: seqs head → links' y = links y := by
  obtain ⟨links', hadd, hcircle, hframe⟩ :=
    listAddTail_circle (hr.circle head hhead) (hx.not_mem hhead)
  refine ⟨links', hadd, hr.insert hhead hx hcircle ?_ hframe, hframe⟩
  intro y hy
  rcases List.mem_append.mp hy with hy | hy
  · exact Or.inr hy
  · exact Or.inl (List.mem_singleton.mp hy)

/-- **`list_add` of a loose cell.** -/
theorem listAdd_onHeap (hr : OnHeap heads links seqs) {head x : α} (hhead : head ∈ heads)
    (hx : Loose heads seqs x) :
    ∃ links', listAdd links x head = some links'
      ∧ OnHeap heads links' (Function.update seqs head (x :: seqs head))
      ∧ ∀ y, y ≠ x → y ∉ head :: seqs head → links' y = links y := by
  obtain ⟨links', hadd, hcircle, hframe⟩ :=
    listAdd_circle (hr.circle head hhead) (hx.not_mem hhead)
  refine ⟨links', hadd, hr.insert hhead hx hcircle ?_ hframe, hframe⟩
  intro y hy
  exact List.mem_cons.mp hy

/-! ## §4. Runs of calls. -/

/-- **One call**: it gets through, the heap then holds the new sequences, and
    besides the entry only cells of the lists involved are written. -/
theorem ListCall.perform_onHeap (hr : OnHeap heads links seqs) {call : ListCall α}
    (hok : call.Allowed heads seqs) :
    ∃ links', call.perform links = some links' ∧ OnHeap heads links' (call.apply seqs)
      ∧ ∀ y, y ≠ call.entry → (∀ h ∈ heads, call.Involves seqs h → y ∉ h :: seqs h) →
        links' y = links y := by
  cases call with
  | add new head =>
      obtain ⟨hhead, hloose⟩ := hok
      obtain ⟨links', hrun, hheap, hframe⟩ := listAdd_onHeap hr hhead hloose
      exact ⟨links', hrun, hheap, fun y hy hout => hframe y hy (hout head hhead rfl)⟩
  | addTail new head =>
      obtain ⟨hhead, hloose⟩ := hok
      obtain ⟨links', hrun, hheap, hframe⟩ := listAddTail_onHeap hr hhead hloose
      exact ⟨links', hrun, hheap, fun y hy hout => hframe y hy (hout head hhead rfl)⟩
  | del entry =>
      obtain ⟨h, hh, hmem⟩ := hok
      obtain ⟨links', hrun, hheap, hframe⟩ := listDel_onHeap hr hh hmem
      exact ⟨links', hrun, hheap, fun y _ hout => hframe y (hout h hh hmem)⟩
  | moveTail list head =>
      obtain ⟨hhead, h, hh, hmem⟩ := hok
      -- out of its list, and then to the end of the other, which may be the same
      obtain ⟨links₁, hdel, hheap₁, hframe₁⟩ := listDelBetween_onHeap hr hh hmem
      obtain ⟨links₂, hadd, hheap₂, hframe₂⟩ :=
        listAddTail_onHeap hheap₁ hhead (hr.loose_erased hh hmem)
      refine ⟨links₂, ?_, hheap₂, fun y hy hout => ?_⟩
      · show listMoveTail links list head = some links₂
        unfold listMoveTail
        rw [hdel]
        exact hadd
      · rw [hframe₂ y hy, hframe₁ y (hout h hh (Or.inl hmem))]
        intro hin
        refine hout head hhead (Or.inr rfl) ?_
        rcases List.mem_cons.mp hin with hin | hin
        · exact hin ▸ List.mem_cons_self
        · exact List.mem_cons_of_mem head (List.mem_of_mem_erase hin)

/-- The lists a call does not involve keep their sequences. -/
theorem ListCall.apply_of_not_involves {h : α} (call : ListCall α)
    (hout : ¬ call.Involves seqs h) : call.apply seqs h = seqs h := by
  cases call with
  | add new head => exact Function.update_of_ne hout _ _
  | addTail new head => exact Function.update_of_ne hout _ _
  | del entry => exact List.erase_of_not_mem hout
  | moveTail list head =>
      have hne : h ≠ head := fun heq => hout (Or.inr heq)
      have hlist : list ∉ seqs h := fun hmem => hout (Or.inl hmem)
      show Function.update (fun h => (seqs h).erase list) head ((seqs head).erase list ++ [list]) h
        = seqs h
      rw [Function.update_of_ne hne]
      exact List.erase_of_not_mem hlist

/-- An entry of a list is no cell of one it is not on. -/
theorem OnHeap.not_mem_other (hr : OnHeap heads links seqs) {h k x : α} (hh : h ∈ heads)
    (hk : k ∈ heads) (hx : x ∈ seqs k) (hout : x ∉ seqs h) : x ∉ h :: seqs h := by
  intro hmem
  rcases List.mem_cons.mp hmem with heq | hmem
  · exact hr.not_mem_heads hk hx (heq ▸ hh)
  · exact hout hmem

/-- The entry of a call is on no list that the call does not involve. -/
theorem ListCall.entry_not_mem (hr : OnHeap heads links seqs) {call : ListCall α}
    (hok : call.Allowed heads seqs) {h : α} (hh : h ∈ heads) (hout : ¬ call.Involves seqs h) :
    call.entry ∉ h :: seqs h := by
  cases call with
  | add new head => exact hok.2.not_mem hh
  | addTail new head => exact hok.2.not_mem hh
  | del entry =>
      obtain ⟨k, hk, hmem⟩ := hok
      exact hr.not_mem_other hh hk hmem hout
  | moveTail list head =>
      obtain ⟨_, k, hk, hmem⟩ := hok
      exact hr.not_mem_other hh hk hmem (fun hin => hout (Or.inl hin))

/-- **The frame of a call**: no cell of the lists it does not involve is
    written. -/
theorem OnHeap.untouched (hr : OnHeap heads links seqs) {call : ListCall α}
    (hok : call.Allowed heads seqs)
    (hframe : ∀ y, y ≠ call.entry → (∀ h ∈ heads, call.Involves seqs h → y ∉ h :: seqs h) →
      links' y = links y) {h : α} (hh : h ∈ heads) (hout : ¬ call.Involves seqs h) :
    ∀ y ∈ h :: seqs h, links' y = links y := by
  intro y hy
  refine hframe y ?_ ?_
  · intro heq
    exact ListCall.entry_not_mem hr hok hh hout (heq ▸ hy)
  · intro k hk hin
    have hne : h ≠ k := by
      intro heq
      rw [heq] at hout
      exact hout hin
    exact hr.apart h hh k hk hne y hy

/-- **A run of calls** on the sequences is one on the links. -/
theorem listRuns_onHeap (hr : OnHeap heads links seqs) {calls : List (ListCall α)}
    (hok : sequences.Along (fun seqs call => call.Allowed heads seqs) seqs calls) :
    ∃ seqs' links' rs, sequences.run seqs calls = some (seqs', rs)
      ∧ listHeads.run links calls = some (links', rs) ∧ OnHeap heads links' seqs' := by
  refine Machine.forward_simulation sequences listHeads (fun seqs links => OnHeap heads links seqs)
    ?_ hok hr
  intro seqs links call hr hok
  obtain ⟨links', hrun, hheap, _⟩ := ListCall.perform_onHeap hr hok
  refine ⟨call.apply seqs, links', (), rfl, ?_, hheap⟩
  show (call.perform links).map (fun links => (links, ())) = _
  rw [hrun]
  rfl

/-! ## §5. `list_for_each_safe` with deletions. -/

/-- A body of `list_for_each_safe` that passes entries to `list_del`: which
    ones, `victims` says of the entries visited so far. -/
def deletingBody (victims : List α → List α) (pos : α) (s : Links α × List α) :
    Option (Links α × List α) :=
  ((victims (s.2 ++ [pos])).foldlM listDel s.1).map (fun links => (links, s.2 ++ [pos]))

/-- The entries deleted by the time some have been visited. -/
def gone (victims : List α → List α) (visited : List α) : List α :=
  (visited.inits.map victims).flatten

/-- Of the entries of `l`, the body deletes some it has visited, and none
    twice. -/
def DeletesVisited (victims : List α → List α) (l : List α) : Prop :=
  (∀ p, p <+: l → victims p ⊆ p) ∧ (gone victims l).Nodup

variable {victims : List α → List α}

omit [DecidableEq α] in
/-- One visit more. -/
theorem gone_append_singleton (victims : List α → List α) (visited : List α) (x : α) :
    gone victims (visited ++ [x]) = gone victims visited ++ victims (visited ++ [x]) := by
  unfold gone
  rw [List.inits_append]
  simp

omit [DecidableEq α] in
theorem DeletesVisited.of_append {l m : List α} (hv : DeletesVisited victims (l ++ m)) :
    DeletesVisited victims l := by
  refine ⟨fun p hp => hv.1 p (hp.trans (List.prefix_append l m)), hv.2.sublist ?_⟩
  unfold gone
  rw [List.inits_append, List.map_append, List.flatten_append]
  exact List.sublist_append_left _ _

omit [DecidableEq α] in
/-- What was deleted was visited. -/
theorem DeletesVisited.subset {l : List α} (hv : DeletesVisited victims l) :
    gone victims l ⊆ l := by
  intro x hx
  obtain ⟨es, hes, hxes⟩ := List.mem_flatten.mp hx
  obtain ⟨p, hp, hpes⟩ := List.mem_map.mp hes
  have hprefix : p <+: l := (List.mem_inits p l).mp hp
  exact hprefix.subset (hv.1 p hprefix (hpes ▸ hxes))

/-- Taking entries of the front away leaves the back. -/
theorem diff_append_left {es l : List α} (m : List α) (hsub : es ⊆ l) (hnd : es.Nodup) :
    (l ++ m).diff es = l.diff es ++ m := by
  induction es generalizing l with
  | nil => rfl
  | cons e es ih =>
      obtain ⟨he, hnd⟩ := List.nodup_cons.mp hnd
      have hrest : es ⊆ l.erase e := by
        intro x hx
        have hne : x ≠ e := fun heq => he (heq ▸ hx)
        exact (List.mem_erase_of_ne hne).mpr (hsub (List.mem_cons_of_mem e hx))
      rw [List.diff_cons, List.diff_cons, List.erase_append_left m (hsub List.mem_cons_self)]
      exact ih hrest hnd

/-- **Several `list_del`s of entries of one list.** -/
theorem listDels_onHeap (hr : OnHeap heads links seqs) {h : α} (hh : h ∈ heads) {es : List α}
    (hmem : ∀ e ∈ es, e ∈ seqs h) (hnd : es.Nodup) :
    ∃ links', es.foldlM listDel links = some links'
      ∧ OnHeap heads links' (fun k => (seqs k).diff es) := by
  induction es generalizing links seqs with
  | nil => exact ⟨links, rfl, hr⟩
  | cons e es ih =>
      obtain ⟨he, hnd⟩ := List.nodup_cons.mp hnd
      obtain ⟨links₁, hdel, hheap, _⟩ := listDel_onHeap hr hh (hmem e List.mem_cons_self)
      have hrest : ∀ x ∈ es, x ∈ (seqs h).erase e := by
        intro x hx
        have hne : x ≠ e := fun heq => he (heq ▸ hx)
        exact (List.mem_erase_of_ne hne).mpr (hmem x (List.mem_cons_of_mem e hx))
      obtain ⟨links', hrun, hheap'⟩ := ih hheap hrest hnd
      refine ⟨links', ?_, hheap'.congr (fun k _ => List.diff_cons _ _ _)⟩
      rw [List.foldlM_cons, hdel]
      exact hrun

/-- Amid the loop over the list of `h`: the entries visited, of which some
    are gone, and those still to visit, all of them linked. -/
structure Amid (heads : List α) (seqs : α → List α) (victims : List α → List α) (h : α)
    (rest : List α) (s : Links α × List α) : Prop where
  split : seqs h = s.2 ++ rest
  onHeap : OnHeap heads s.1 (fun k => (seqs k).diff (gone victims s.2))

section Visits

variable {h x : α} {rest : List α} {s : Links α × List α}

/-- Before the first visit nothing is gone. -/
theorem Amid.start (hr : OnHeap heads links seqs) (hv : DeletesVisited victims (seqs h)) :
    Amid heads seqs victims h (seqs h) (links, []) := by
  have hnone : gone victims [] = [] := by
    have hsub := hv.1 [] List.nil_prefix
    show victims [] ++ [] = []
    rw [List.append_nil]
    exact List.eq_nil_of_subset_nil hsub
  refine ⟨rfl, hr.congr (fun k _ => ?_)⟩
  rw [hnone, List.diff_nil]

/-- What is left of the list ends in the entries still to visit. -/
theorem Amid.circle (hs : Amid heads seqs victims h rest s) (hh : h ∈ heads)
    (hv : DeletesVisited victims (seqs h)) : ∃ kept, Circle s.1 h (kept ++ rest) := by
  have hvisited : DeletesVisited victims s.2 := (hs.split ▸ hv).of_append
  have hc := hs.onHeap.circle h hh
  simp only [hs.split] at hc
  rw [diff_append_left rest hvisited.subset hvisited.2] at hc
  exact ⟨_, hc⟩

/-- **One visit**: the entries the body deletes are linked, and gone then. -/
theorem Amid.visit (hs : Amid heads seqs victims h (x :: rest) s) (hh : h ∈ heads)
    (hv : DeletesVisited victims (seqs h)) :
    ∃ s', deletingBody victims x s = some s' ∧ Amid heads seqs victims h rest s' := by
  have hsplit : seqs h = (s.2 ++ [x]) ++ rest := by
    rw [hs.split, List.append_assoc, List.singleton_append]
  have hvisited : DeletesVisited victims (s.2 ++ [x]) := (hsplit ▸ hv).of_append
  have hgone := hvisited.2
  rw [gone_append_singleton, List.nodup_append] at hgone
  obtain ⟨_, hnd, hnew⟩ := hgone
  have hlinked : ∀ e ∈ victims (s.2 ++ [x]), e ∈ (seqs h).diff (gone victims s.2) := by
    intro e he
    refine List.mem_diff_of_mem ?_ (fun hold => hnew e hold e he rfl)
    rw [hsplit]
    exact List.mem_append_left rest (hvisited.1 _ List.prefix_rfl he)
  obtain ⟨links', hdel, hheap⟩ := listDels_onHeap hs.onHeap hh hlinked hnd
  refine ⟨(links', s.2 ++ [x]), ?_, hsplit, hheap.congr (fun k _ => ?_)⟩
  · unfold deletingBody
    rw [hdel]
    rfl
  · rw [gone_append_singleton, List.diff_append]

end Visits

/-- **`list_for_each_safe` visits the entries that were there, in order**,
    whatever visited ones its body deletes; these are gone afterwards. -/
theorem forEachSafe_onHeap (hr : OnHeap heads links seqs) {h : α} (hh : h ∈ heads)
    (hv : DeletesVisited victims (seqs h)) {fuel : Nat} (hfuel : (seqs h).length < fuel) :
    ∃ links', listForEachSafe Prod.fst h (deletingBody victims) fuel (links, [])
        = some (links', seqs h)
      ∧ OnHeap heads links' (fun k => (seqs k).diff (gone victims (seqs h))) := by
  obtain ⟨⟨links', visited⟩, hloop, hend⟩ :=
    listForEachSafe_rule (fun rest s hs => Amid.circle hs hh hv)
      (fun x rest s hs => Amid.visit hs hh hv) (hr.circle h hh) (Amid.start hr hv) hfuel
  have hall : visited = seqs h := by
    rw [hend.split]
    exact (List.append_nil visited).symm
  have hheap : OnHeap heads links' (fun k => (seqs k).diff (gone victims visited)) := hend.onHeap
  rw [hall] at hloop hheap
  exact ⟨links', hloop, hheap⟩

end Heap

/-! ## §6. The lists after any run. -/

/-- **The intrusive lists**: heads are set up on any heap, and calls are made
    that each add an entry on no list, or delete or move one that is on a list.
    All of them get through, and afterwards
    the walks from every head, forward and backward, show its sequence;
    the next call writes to the entry and to the lists it involves, and the
    sequences of the others stay;
    and `list_for_each_safe` visits a sequence as it was at the start, while
    its body deletes visited entries. -/
theorem listRuns_faithful (heads : List α) (links₀ : Links α) {calls : List (ListCall α)}
    (hok : sequences.Along (fun seqs call => call.Allowed heads seqs) (fun _ => []) calls) :
    ∃ seqs links rs, sequences.run (fun _ => []) calls = some (seqs, rs)
      ∧ listHeads.run (heads.foldl initListHead links₀) calls = some (links, rs)
      ∧ Faithful heads links seqs
      ∧ (∀ call : ListCall α, call.Allowed heads seqs → ∃ links', call.perform links = some links'
        ∧ Faithful heads links' (call.apply seqs)
        ∧ (∀ y, y ≠ call.entry → (∀ h ∈ heads, call.Involves seqs h → y ∉ h :: seqs h) →
          links' y = links y)
        ∧ ∀ h ∈ heads, ¬ call.Involves seqs h →
          call.apply seqs h = seqs h ∧ ∀ y ∈ h :: seqs h, links' y = links y)
      ∧ ∀ h ∈ heads, ∀ victims, DeletesVisited victims (seqs h) →
        ∀ fuel, (seqs h).length < fuel → ∃ links',
          listForEachSafe Prod.fst h (deletingBody victims) fuel (links, [])
            = some (links', seqs h)
          ∧ Faithful heads links' (fun k => (seqs k).diff (gone victims (seqs h))) := by
  obtain ⟨seqs, links, rs, hseqs, hlinks, hheap⟩ :=
    listRuns_onHeap (initListHeads_onHeap heads links₀) hok
  refine ⟨seqs, links, rs, hseqs, hlinks, hheap.faithful, ?_, ?_⟩
  · intro call hcall
    obtain ⟨links', hrun, hheap', hframe⟩ := ListCall.perform_onHeap hheap hcall
    refine ⟨links', hrun, hheap'.faithful, hframe, fun h hh hout => ⟨?_, ?_⟩⟩
    · exact call.apply_of_not_involves hout
    · exact hheap.untouched hcall hframe hh hout
  · intro h hh victims hv fuel hfuel
    obtain ⟨links', hloop, hheap'⟩ := forEachSafe_onHeap hheap hh hv hfuel
    exact ⟨links', hloop, hheap'.faithful⟩

/-- Two lists: two entries are added to one of them, the first is moved to the
    other, the second is deleted. -/
theorem twoLists_faithful : ∃ (seqs : Nat → List Nat) (links : Links Nat) (rs : List Unit),
    sequences.run (fun _ => []) [.add 2 0, .addTail 3 0, .moveTail 2 1, .del 3] = some (seqs, rs)
      ∧ listHeads.run ([0, 1].foldl initListHead (fun _ => ⟨none, none⟩))
        [.add 2 0, .addTail 3 0, .moveTail 2 1, .del 3] = some (links, rs)
      ∧ Faithful [0, 1] links seqs := by
  have hok : sequences.Along (fun seqs call => call.Allowed [0, 1] seqs) (fun _ : Nat => [])
      [.add 2 0, .addTail 3 0, .moveTail 2 1, .del 3] := by
    refine (sequences.along_cons rfl).mpr ⟨by decide, ?_⟩
    refine (sequences.along_cons rfl).mpr ⟨by decide, ?_⟩
    refine (sequences.along_cons rfl).mpr ⟨by decide, ?_⟩
    exact (sequences.along_cons rfl).mpr ⟨by decide, trivial⟩
  obtain ⟨seqs, links, rs, hseqs, hlinks, hfaithful, _⟩ :=
    listRuns_faithful [0, 1] (fun _ => ⟨none, none⟩) hok
  exact ⟨seqs, links, rs, hseqs, hlinks, hfaithful⟩

end FreePacket.Session
