/-
  FreePacket.Session.Expiry
  ─────────────────────────
  **THE EXPIRY SWEEP OVER THE LINKS: `hash_travel_delete` on the heap.**

  `HeapManager` is a manager as memory holds it: a `list_head` in every
  bucket and in every session node, the items behind the nodes, the counters,
  and the pool as a FIFO of node addresses.  `Represents` relates it to the
  manager whose buckets hold lists.

  Main results:
    * `Represents.onHeap` — the buckets are lists of `list.h` on one heap.
    * `deleteSessionHeap_refines` — the sweep of one bucket on the links is
      `delete_session` on the list of the bucket.
    * `hashTravelDelete_filters` — the sweep of a table: every bucket once,
      and in each the sessions older than the lifetime go, and no others.
-/
import FreePacket.Session.ListRuns
import FreePacket.Session.Table

namespace FreePacket.Session

open FreePacket.Lib FreePacket.Packet

/-! ## §1. A manager in memory. -/

/-- A `list_head`, by where it stands. -/
inductive Cell where
  | head (bucket : Nat)
  | node (addr : Nat)
  deriving DecidableEq

/-- The fields of `manager_t` the sweep uses, with the memory behind them. -/
structure HeapManager where
  index : Nat
  numBuckets : Int32
  links : Links Cell
  item : Nat → SessionItem
  count : Nat → UInt32
  sessionPool : List Nat

/-- The cells of a list of nodes. -/
def cells (l : List Blist) : List Cell := l.map (fun node => .node node.addr)

/-- **The memory of a manager**: every bucket's list is the circle of its
    head, every node has its item behind it. -/
structure Represents (t : HeapManager) (m : Manager) : Prop where
  index : t.index = m.index
  numBuckets : t.numBuckets = m.ht.numBuckets
  circle : ∀ b < m.ht.rounds, Circle t.links (.head b) (cells (m.bucket b).list)
  item : ∀ b < m.ht.rounds, ∀ node ∈ (m.bucket b).list, t.item node.addr = node.item
  count : ∀ b < m.ht.rounds, t.count b = (m.bucket b).count
  sessionPool : t.sessionPool = m.sessionPool.map Blist.addr

/-! ## §2. The sweep. -/

/-- The body of the loop of `delete_session`.  `none` where `p` stands in no
    session node, where `list_del` follows a null pointer, and where the
    session pool is full or another manager's. -/
def deleteEntry (cfg : Config) (b : Nat) (now : UInt64) (destoryTime : Int32) (p : Cell)
    (t : HeapManager) : Option HeapManager :=
  match p with
  | .head _ => none
  | .node addr =>
      if now - (t.item addr).lastTime > lifetime cfg destoryTime then
        match listDel t.links p with
        | none => none
        | some links =>
            if (t.item addr).pool = t.index then
              (Fifo.push cfg.poolSize t.sessionPool [addr]).map
                (fun pool =>
                  { t with links := links, sessionPool := pool
                           count := Function.update t.count b (t.count b - 1) })
            else none
      else some t

/-- `delete_session`. -/
def deleteSessionHeap (cfg : Config) (fuel b : Nat) (now : UInt64) (destoryTime : Int32)
    (t : HeapManager) : Option HeapManager :=
  listForEachSafe HeapManager.links (.head b) (deleteEntry cfg b now destoryTime) fuel t

/-- A visit of `hash_travel_delete`: the bucket and the clock read there. -/
abbrev Visit := Nat × UInt64

/-- The loop `while (i++ < ht->num_buckets)`, `bucket` being at bucket `b` and
    `k` rounds to go.  `clock b` is what `GET_CYCLE_COUNT` returns there. -/
def travelLoop (cfg : Config) (fuel : Nat) (clock : Nat → UInt64) (destoryTime : Int32) :
    Nat → Nat → HeapManager → Option (HeapManager × List Visit)
  | 0, _, t => some (t, [])
  | k + 1, b, t =>
      match deleteSessionHeap cfg fuel b (clock b) destoryTime t with
      | none => none
      | some t =>
          (travelLoop cfg fuel clock destoryTime k (b + 1) t).map
            (fun r => (r.1, (b, clock b) :: r.2))

/-- `hash_travel_delete`, with its visits. -/
def hashTravelDelete (cfg : Config) (fuel : Nat) (clock : Nat → UInt64) (destoryTime : Int32)
    (t : HeapManager) : Option (HeapManager × List Visit) :=
  travelLoop cfg fuel clock destoryTime t.numBuckets.toInt.toNat 0 t

/-! ## §3. One removal. -/

section Steps

variable {cfg : Config} {m : Manager} {t : HeapManager}

theorem cells_append (l l' : List Blist) : cells (l ++ l') = cells l ++ cells l' :=
  List.map_append

theorem mem_cells {l : List Blist} {addr : Nat} :
    Cell.node addr ∈ cells l ↔ ∃ node ∈ l, node.addr = addr := by
  unfold cells
  rw [List.mem_map]
  constructor
  · rintro ⟨node, hnode, heq⟩
    exact ⟨node, hnode, Cell.node.inj heq⟩
  · rintro ⟨node, hnode, heq⟩
    exact ⟨node, hnode, congrArg Cell.node heq⟩

/-- The circle of another bucket has no cell in common with this one. -/
theorem WellFormed.circle_apart {N : Nat} (hw : WellFormed N m) {b c : Nat}
    (hb : b < m.ht.rounds) (hc : c < m.ht.rounds) (hne : c ≠ b) {e : Cell}
    (he : e ∈ Cell.head c :: cells (m.bucket c).list) :
    e ∉ Cell.head b :: cells (m.bucket b).list := by
  intro he'
  cases e with
  | head a =>
      have hnone : ∀ l : List Blist, Cell.head a ∉ cells l := by
        intro l hmem
        obtain ⟨_, _, heq⟩ := List.mem_map.mp hmem
        exact absurd heq (by simp)
      have hac := (List.mem_cons.mp he).resolve_right (hnone _)
      have hab := (List.mem_cons.mp he').resolve_right (hnone _)
      exact hne (Cell.head.inj (hac.symm.trans hab))
  | node a =>
      have hmem := (List.mem_cons.mp he).resolve_left (by simp)
      have hmem' := (List.mem_cons.mp he').resolve_left (by simp)
      obtain ⟨x, hx, hxa⟩ := mem_cells.mp hmem
      obtain ⟨y, hy, hya⟩ := mem_cells.mp hmem'
      exact hne (hw.bucket_unique hb hc hy hx (hxa.trans hya.symm))

/-- The heads of the buckets. -/
def bucketHeads (rounds : Nat) : List Cell := (List.range rounds).map Cell.head

/-- The nodes behind a head. -/
def Manager.behind (m : Manager) : Cell → List Cell
  | .head b => cells (m.bucket b).list
  | .node _ => []

/-- **The buckets of a manager are lists of `list.h` on one heap.** -/
theorem Represents.onHeap {N : Nat} (hw : WellFormed N m) (ht : Represents t m) :
    OnHeap (bucketHeads m.ht.rounds) t.links m.behind := by
  refine ⟨fun h hh => ?_, fun h hh k hk hne x hx => ?_⟩
  · obtain ⟨b, hb, rfl⟩ := List.mem_map.mp hh
    exact ht.circle b (List.mem_range.mp hb)
  · obtain ⟨c, hc, rfl⟩ := List.mem_map.mp hh
    obtain ⟨b, hb, rfl⟩ := List.mem_map.mp hk
    have hcb : c ≠ b := fun heq => hne (congrArg Cell.head heq)
    exact hw.circle_apart (List.mem_range.mp hb) (List.mem_range.mp hc) hcb hx

theorem removed_bucket_self (m : Manager) (b : Nat) (node : Blist) (rest : List Blist) :
    (m.removed b node rest).bucket b = { list := rest, count := (m.bucket b).count - 1 } :=
  bucket_setBucket_self _ _ _

theorem removed_bucket_of_ne (m : Manager) {b c : Nat} (node : Blist) (rest : List Blist)
    (h : c ≠ b) : (m.removed b node rest).bucket c = m.bucket c := bucket_setBucket_of_ne _ _ h

/-- **A removal on the links is a removal from the list.**  Only cells of the
    bucket's circle are written. -/
theorem Represents.removed (hw : WellFormed cfg.poolSize m) (ht : Represents t m) {b : Nat}
    (hb : b < m.ht.rounds) {pre post : List Blist} {node : Blist}
    (hlist : (m.bucket b).list = pre ++ node :: post) :
    ∃ links pool, listDel t.links (.node node.addr) = some links
      ∧ Fifo.push cfg.poolSize t.sessionPool [node.addr] = some pool
      ∧ Represents
          { t with links := links, sessionPool := pool
                   count := Function.update t.count b (t.count b - 1) }
          (m.removed b node (pre ++ post))
      ∧ links (.node node.addr) = ⟨none, none⟩
      ∧ ∀ e, e ∉ Cell.head b :: cells (m.bucket b).list → links e = t.links e := by
  have hcircle := ht.circle b hb
  have hcells : cells (m.bucket b).list = cells pre ++ Cell.node node.addr :: cells post := by
    rw [hlist, cells_append]
    rfl
  rw [hcells] at hcircle
  obtain ⟨links, hdel, hclosed, hnull, hframe⟩ := listDel_circle hcircle
  have hmem : node ∈ (m.bucket b).list := mem_of_split hlist
  -- a node in use leaves a place in the pool
  have hroom : t.sessionPool.length + [node.addr].length ≤ cfg.poolSize := by
    rw [ht.sessionPool, List.length_map]
    exact hw.pool_lt hb hmem
  refine ⟨links, t.sessionPool ++ [node.addr], hdel, Fifo.push_of_le hroom, ?_, hnull, ?_⟩
  · refine ⟨ht.index, ht.numBuckets, ?_, ?_, ?_, ?_⟩
    · intro c hc
      by_cases hcb : c = b
      · rw [hcb, removed_bucket_self, cells_append]
        exact hclosed
      · -- the circle of another bucket is not written
        rw [removed_bucket_of_ne m _ _ hcb]
        refine (ht.circle c hc).congr fun e he => hframe e ?_
        rw [← hcells]
        exact hw.circle_apart hb hc hcb he
    · intro c hc x hx
      by_cases hcb : c = b
      · rw [hcb, removed_bucket_self] at hx
        refine ht.item b hb x ?_
        rw [hlist]
        rcases List.mem_append.mp hx with hx | hx
        · exact List.mem_append_left _ hx
        · exact List.mem_append_right _ (List.mem_cons_of_mem _ hx)
      · rw [removed_bucket_of_ne m _ _ hcb] at hx
        exact ht.item c hc x hx
    · intro c hc
      by_cases hcb : c = b
      · rw [hcb, removed_bucket_self]
        show Function.update t.count b (t.count b - 1) b = _
        rw [Function.update_self, ht.count b hb]
      · rw [removed_bucket_of_ne m _ _ hcb]
        show Function.update t.count b (t.count b - 1) c = _
        rw [Function.update_of_ne hcb, ht.count c hc]
    · show t.sessionPool ++ [node.addr] = (m.sessionPool ++ [node]).map Blist.addr
      rw [ht.sessionPool, List.map_append, List.map_singleton]
  · rw [hcells]
    exact hframe

/-! ## §4. One bucket. -/

/-- The state of the loop in bucket `b`, with `visited` behind it and `next`
    to go: the memory represents a manager from which `delete_session` goes
    on to the same end, the expired of `visited` are unlinked, and no other
    circle has been written. -/
structure Sweeping (cfg : Config) (b : Nat) (now : UInt64) (destoryTime : Int32)
    (m₀ : Manager) (t₀ : HeapManager) (visited next : List Blist) (m : Manager) (t : HeapManager) :
    Prop where
  wellFormed : WellFormed cfg.poolSize m
  represents : Represents t m
  rounds : m.ht.rounds = m₀.ht.rounds
  split : (m₀.bucket b).list = visited ++ next
  list : (m.bucket b).list
    = visited.filter (fun node => !expired cfg now destoryTime node) ++ next
  goesOn : deleteLoop cfg b now destoryTime next m = deleteSession cfg m₀ b now destoryTime
  item : t.item = t₀.item
  null : ∀ x ∈ visited, expired cfg now destoryTime x = true → t.links (.node x.addr) = ⟨none, none⟩
  frame : ∀ e, e ∉ Cell.head b :: cells (m₀.bucket b).list → t.links e = t₀.links e

section Bucket

variable {b : Nat} {now : UInt64} {destoryTime : Int32} {m₀ : Manager} {t₀ : HeapManager}
  {visited next : List Blist} {node : Blist}

/-- A node still alive is passed over. -/
theorem Sweeping.spared
    (hs : Sweeping cfg b now destoryTime m₀ t₀ visited (node :: next) m t)
    (hexp : expired cfg now destoryTime node = false) :
    Sweeping cfg b now destoryTime m₀ t₀ (visited ++ [node]) next m t := by
  have hkept : (visited ++ [node]).filter (fun node => !expired cfg now destoryTime node)
      = visited.filter (fun node => !expired cfg now destoryTime node) ++ [node] := by
    rw [List.filter_append, List.filter_cons_of_pos (by simp [hexp]), List.filter_nil]
  refine { hs with split := ?_, list := ?_, goesOn := ?_, null := ?_ }
  · rw [hs.split, List.append_assoc, List.singleton_append]
  · rw [hkept, hs.list, List.append_assoc, List.singleton_append]
  · rw [← hs.goesOn, deleteLoop, if_neg]
    intro h
    rw [show expired cfg now destoryTime node = true from decide_eq_true h] at hexp
    exact absurd hexp (by simp)
  · intro x hx hxe
    rcases List.mem_append.mp hx with hx | hx
    · exact hs.null x hx hxe
    · rw [List.mem_singleton.mp hx, hexp] at hxe
      exact absurd hxe (by simp)

/-- The cells of the bucket have been there from the start. -/
theorem Sweeping.mem_start (hs : Sweeping cfg b now destoryTime m₀ t₀ visited next m t) {e : Cell}
    (he : e ∈ Cell.head b :: cells (m.bucket b).list) :
    e ∈ Cell.head b :: cells (m₀.bucket b).list := by
  rcases List.mem_cons.mp he with rfl | he
  · exact List.mem_cons_self
  · apply List.mem_cons_of_mem
    obtain ⟨y, hy, rfl⟩ := List.mem_map.mp he
    refine List.mem_map.mpr ⟨y, ?_, rfl⟩
    rw [hs.list] at hy
    rw [hs.split]
    rcases List.mem_append.mp hy with hy | hy
    · exact List.mem_append_left _ (List.mem_of_mem_filter hy)
    · exact List.mem_append_right _ hy

/-- What has been unlinked is no cell of the bucket any more: the nodes of a
    bucket are different cells. -/
theorem Sweeping.not_mem_of_expired (hw₀ : WellFormed cfg.poolSize m₀) (hb : b < m₀.ht.rounds)
    (hs : Sweeping cfg b now destoryTime m₀ t₀ visited next m t) {x : Blist} (hx : x ∈ visited)
    (hxe : expired cfg now destoryTime x = true) :
    Cell.node x.addr ∉ Cell.head b :: cells (m.bucket b).list := by
  have hnd := hw₀.addr_nodup hb
  rw [hs.split, List.map_append, List.nodup_append] at hnd
  intro he
  have hcell := (List.mem_cons.mp he).resolve_left (by simp)
  obtain ⟨y, hy, hya⟩ := mem_cells.mp hcell
  rw [hs.list] at hy
  rcases List.mem_append.mp hy with hy | hy
  · have hkeep := List.mem_filter.mp hy
    have hxy : x = y := List.inj_on_of_nodup_map hnd.1 hx hkeep.1 hya.symm
    rw [← hxy, hxe] at hkeep
    exact absurd hkeep.2 (by simp)
  · exact hnd.2.2 x.addr (List.mem_map_of_mem hx) y.addr (List.mem_map_of_mem hy) hya.symm

/-- A node whose time is over goes back to the pool. -/
theorem Sweeping.removes (hw₀ : WellFormed cfg.poolSize m₀) (hb : b < m₀.ht.rounds)
    (hs : Sweeping cfg b now destoryTime m₀ t₀ visited (node :: next) m t)
    (hexp : expired cfg now destoryTime node = true) :
    ∃ m' t', deleteEntry cfg b now destoryTime (.node node.addr) t = some t'
      ∧ Sweeping cfg b now destoryTime m₀ t₀ (visited ++ [node]) next m' t' := by
  have hbm : b < m.ht.rounds := by
    rw [hs.rounds]
    exact hb
  have hold : now - node.item.lastTime > lifetime cfg destoryTime := of_decide_eq_true hexp
  have hmem : node ∈ (m.bucket b).list := mem_of_split hs.list
  have hitem : t.item node.addr = node.item := hs.represents.item b hbm node hmem
  have hpool : (t.item node.addr).pool = t.index := by
    rw [hitem, hs.wellFormed.owned b hbm node hmem, hs.represents.index]
  obtain ⟨links, pool, hdel, hpush, hrep, hnull, hframe⟩ :=
    hs.represents.removed hs.wellFormed hbm hs.list
  have hremoved := hs.wellFormed.removed hbm hs.list
  have hkept : (visited ++ [node]).filter (fun node => !expired cfg now destoryTime node)
      = visited.filter (fun node => !expired cfg now destoryTime node) := by
    rw [List.filter_append, List.filter_cons_of_neg (by simp [hexp]), List.filter_nil,
      List.append_nil]
  refine ⟨m.removed b node (visited.filter (fun node => !expired cfg now destoryTime node) ++ next),
    { t with links := links, sessionPool := pool
             count := Function.update t.count b (t.count b - 1) }, ?_, ?_⟩
  · unfold deleteEntry
    simp only [hitem] at hpool ⊢
    rw [if_pos hold, hdel]
    simp only [if_pos hpool, hpush, Option.map_some]
  · refine ⟨hremoved, hrep, hs.rounds, ?_, ?_, ?_, hs.item, ?_, ?_⟩
    · rw [hs.split, List.append_assoc, List.singleton_append]
    · rw [removed_bucket_self, hkept]
    · -- the list loop takes the same turn
      rw [← hs.goesOn, deleteLoop, if_pos hold, hs.wellFormed.remove_eq hbm hs.list]
    · intro x hx hxe
      rcases List.mem_append.mp hx with hx | hx
      · show links (.node x.addr) = _
        rw [hframe _ (hs.not_mem_of_expired hw₀ hb hx hxe), hs.null x hx hxe]
      · rw [List.mem_singleton.mp hx]
        exact hnull
    · intro e he
      show links e = t₀.links e
      rw [hframe e (fun hcell => he (hs.mem_start hcell)), hs.frame e he]

/-- The invariant of the loop: `rest` is still to visit. -/
def SweepingFrom (cfg : Config) (b : Nat) (now : UInt64) (destoryTime : Int32) (m₀ : Manager)
    (t₀ : HeapManager) (rest : List Cell) (t : HeapManager) : Prop :=
  ∃ m visited next, rest = cells next ∧ Sweeping cfg b now destoryTime m₀ t₀ visited next m t

theorem SweepingFrom.circle (hb : b < m₀.ht.rounds) {rest : List Cell}
    (hs : SweepingFrom cfg b now destoryTime m₀ t₀ rest t) :
    ∃ kept, Circle t.links (.head b) (kept ++ rest) := by
  obtain ⟨m, visited, next, rfl, hs⟩ := hs
  have hc := hs.represents.circle b (by rw [hs.rounds]; exact hb)
  rw [hs.list, cells_append] at hc
  exact ⟨_, hc⟩

theorem SweepingFrom.body (hw₀ : WellFormed cfg.poolSize m₀) (hb : b < m₀.ht.rounds) {x : Cell}
    {rest : List Cell} (hs : SweepingFrom cfg b now destoryTime m₀ t₀ (x :: rest) t) :
    ∃ t', deleteEntry cfg b now destoryTime x t = some t'
      ∧ SweepingFrom cfg b now destoryTime m₀ t₀ rest t' := by
  obtain ⟨m, visited, next, hrest, hs⟩ := hs
  cases next with
  | nil => exact absurd hrest (by simp [cells])
  | cons node next =>
      obtain ⟨rfl, rfl⟩ := List.cons.inj hrest
      cases hexp : expired cfg now destoryTime node with
      | true =>
          obtain ⟨m', t', hbody, hs'⟩ := hs.removes hw₀ hb hexp
          exact ⟨t', hbody, m', visited ++ [node], next, rfl, hs'⟩
      | false =>
          have hitem : t.item node.addr = node.item :=
            hs.represents.item b (by rw [hs.rounds]; exact hb) node (mem_of_split hs.list)
          refine ⟨t, ?_, m, visited ++ [node], next, rfl, hs.spared hexp⟩
          unfold deleteEntry
          simp only [hitem]
          exact if_neg (of_decide_eq_false hexp)

/-- **The sweep of one bucket on the links** is `delete_session` on the
    bucket's list: it unlinks the expired nodes and writes no other circle. -/
theorem deleteSessionHeap_refines (hw : WellFormed cfg.poolSize m) (ht : Represents t m)
    (hb : b < m.ht.rounds) {fuel : Nat} (hfuel : (m.bucket b).list.length < fuel) (now : UInt64)
    (destoryTime : Int32) :
    ∃ t', deleteSessionHeap cfg fuel b now destoryTime t = some t'
      ∧ Represents t' (m.swept cfg b now destoryTime) ∧ t'.item = t.item
      ∧ (∀ x ∈ (m.bucket b).list, expired cfg now destoryTime x = true →
          t'.links (.node x.addr) = ⟨none, none⟩)
      ∧ ∀ e, e ∉ Cell.head b :: cells (m.bucket b).list → t'.links e = t.links e := by
  have hcircle : ∀ rest t₁, SweepingFrom cfg b now destoryTime m t rest t₁ →
      ∃ kept, Circle t₁.links (.head b) (kept ++ rest) := fun _ _ hs => hs.circle hb
  have hbody : ∀ x rest t₁, SweepingFrom cfg b now destoryTime m t (x :: rest) t₁ →
      ∃ t₂, deleteEntry cfg b now destoryTime x t₁ = some t₂
        ∧ SweepingFrom cfg b now destoryTime m t rest t₂ := fun _ _ _ hs => hs.body hw hb
  have hstart : SweepingFrom cfg b now destoryTime m t (cells (m.bucket b).list) t :=
    ⟨m, [], (m.bucket b).list, rfl, hw, ht, rfl, rfl, rfl, rfl, rfl,
      fun x hx => absurd hx List.not_mem_nil, fun _ _ => rfl⟩
  have hlen : (cells (m.bucket b).list).length < fuel := by
    unfold cells
    rw [List.length_map]
    exact hfuel
  -- the invariant at the end of the walk: every entry visited, none to come
  obtain ⟨t', hrun, m', visited, next, hnext, hend⟩ :=
    listForEachSafe_rule hcircle hbody (ht.circle b hb) hstart hlen
  rw [List.map_eq_nil_iff.mp hnext.symm] at hend
  have hsame := hend.goesOn
  rw [hw.deleteSession_eq hb] at hsame
  have hall := hend.split
  rw [List.append_nil] at hall
  refine ⟨t', hrun, ?_, hend.item, ?_, hend.frame⟩
  · rw [← Option.some.inj hsame]
    exact hend.represents
  · rw [hall]
    exact hend.null

end Bucket

/-! ## §5. The table. -/

/-- The manager after the sweep of the buckets in `bs`, in order. -/
def Manager.travelled (cfg : Config) (clock : Nat → UInt64) (destoryTime : Int32) (m : Manager)
    (bs : List Nat) : Manager :=
  bs.foldl (fun m b => m.swept cfg b (clock b) destoryTime) m

/-- The nodes the sweep of bucket `b` removes. -/
def Manager.outdated (cfg : Config) (clock : Nat → UInt64) (destoryTime : Int32) (m : Manager)
    (b : Nat) : List Blist :=
  (m.bucket b).list.filter (expired cfg (clock b) destoryTime)

section Table

variable {clock : Nat → UInt64} {destoryTime : Int32}

@[simp] theorem swept_rounds (m : Manager) (b : Nat) (now : UInt64) (destoryTime : Int32) :
    (m.swept cfg b now destoryTime).ht.rounds = m.ht.rounds := rfl

/-- A sweep does not concern the other buckets. -/
theorem swept_bucket_of_ne (m : Manager) {b c : Nat} (now : UInt64) (destoryTime : Int32)
    (h : c ≠ b) : (m.swept cfg b now destoryTime).bucket c = m.bucket c :=
  bucket_setBucket_of_ne _ _ h

theorem swept_bucket_self (m : Manager) (b : Nat) (now : UInt64) (destoryTime : Int32) :
    (m.swept cfg b now destoryTime).bucket b
      = { list := (m.bucket b).list.filter (fun node => !expired cfg now destoryTime node)
          count := (m.bucket b).count
            - UInt32.ofNat ((m.bucket b).list.countP (expired cfg now destoryTime)) } :=
  bucket_setBucket_self _ _ _

@[simp] theorem travelled_rounds (m : Manager) (bs : List Nat) :
    (m.travelled cfg clock destoryTime bs).ht.rounds = m.ht.rounds := by
  induction bs generalizing m with
  | nil => rfl
  | cons b bs ih => exact ih (m.swept cfg b (clock b) destoryTime)

/-- Buckets that are not swept keep what they have. -/
theorem travelled_bucket_of_notMem (m : Manager) {bs : List Nat} {c : Nat} (hc : c ∉ bs) :
    (m.travelled cfg clock destoryTime bs).bucket c = m.bucket c := by
  induction bs generalizing m with
  | nil => rfl
  | cons b bs ih =>
      obtain ⟨hcb, hc⟩ := not_or.mp (List.mem_cons.not.mp hc)
      show ((m.swept cfg b (clock b) destoryTime).travelled cfg clock destoryTime bs).bucket c = _
      rw [ih _ hc, swept_bucket_of_ne m _ _ hcb]

/-- **A bucket that is swept once.** -/
theorem travelled_bucket_of_mem (m : Manager) {bs : List Nat} (hnd : bs.Nodup) {c : Nat}
    (hc : c ∈ bs) :
    (m.travelled cfg clock destoryTime bs).bucket c
      = (m.swept cfg c (clock c) destoryTime).bucket c := by
  induction bs generalizing m with
  | nil => exact absurd hc List.not_mem_nil
  | cons b bs ih =>
      obtain ⟨hb, hnd⟩ := List.nodup_cons.mp hnd
      show ((m.swept cfg b (clock b) destoryTime).travelled cfg clock destoryTime bs).bucket c = _
      by_cases hcb : c = b
      · rw [hcb, travelled_bucket_of_notMem _ hb]
      · rw [ih _ hnd ((List.mem_cons.mp hc).resolve_left hcb), swept_bucket_self,
          swept_bucket_self, swept_bucket_of_ne m _ _ hcb]

/-- **The pool gets what the buckets lose**, bucket by bucket. -/
theorem travelled_sessionPool (m : Manager) {bs : List Nat} (hnd : bs.Nodup) :
    (m.travelled cfg clock destoryTime bs).sessionPool
      = m.sessionPool ++ bs.flatMap (m.outdated cfg clock destoryTime) := by
  induction bs generalizing m with
  | nil => exact (List.append_nil _).symm
  | cons b bs ih =>
      obtain ⟨hb, hnd⟩ := List.nodup_cons.mp hnd
      have hsame : bs.flatMap ((m.swept cfg b (clock b) destoryTime).outdated cfg clock destoryTime)
          = bs.flatMap (m.outdated cfg clock destoryTime) := by
        refine List.flatMap_congr fun c hc => ?_
        unfold Manager.outdated
        rw [swept_bucket_of_ne m]
        rintro rfl
        exact hb hc
      show ((m.swept cfg b (clock b) destoryTime).travelled cfg clock destoryTime bs).sessionPool = _
      rw [ih _ hnd, hsame, List.flatMap_cons, ← List.append_assoc]
      rfl

theorem WellFormed.travelled {N : Nat} (hw : WellFormed N m) (cfg : Config)
    (clock : Nat → UInt64) (destoryTime : Int32) {bs : List Nat}
    (hbs : ∀ b ∈ bs, b < m.ht.rounds) : WellFormed N (m.travelled cfg clock destoryTime bs) := by
  induction bs generalizing m with
  | nil => exact hw
  | cons b bs ih =>
      exact ih (hw.swept (hbs b List.mem_cons_self) (clock b) destoryTime)
        (fun c hc => hbs c (List.mem_cons_of_mem b hc))

/-- **The loop over the buckets** from `b` on. -/
theorem travelLoop_refines (hw : WellFormed cfg.poolSize m) (ht : Represents t m)
    (clock : Nat → UInt64) (destoryTime : Int32) {fuel : Nat} (hfuel : cfg.poolSize < fuel)
    {k b : Nat} (hk : b + k ≤ m.ht.rounds) :
    ∃ t', travelLoop cfg fuel clock destoryTime k b t
          = some (t', (List.range' b k).map (fun c => (c, clock c)))
      ∧ Represents t' (m.travelled cfg clock destoryTime (List.range' b k)) ∧ t'.item = t.item
      ∧ (∀ c ∈ List.range' b k, ∀ x ∈ m.outdated cfg clock destoryTime c,
          t'.links (.node x.addr) = ⟨none, none⟩)
      ∧ ∀ e, (∀ c ∈ List.range' b k, e ∉ Cell.head c :: cells (m.bucket c).list) →
          t'.links e = t.links e := by
  induction k generalizing b m t with
  | zero =>
      exact ⟨t, rfl, ht, rfl, fun c hc => absurd hc List.not_mem_nil, fun _ _ => rfl⟩
  | succ k ih =>
      have hb : b < m.ht.rounds := by omega
      -- no bucket holds more nodes than there are
      have hlen : (m.bucket b).list.length < fuel := by
        have hle := countP_le_tally m hb (fun _ => true)
        rw [hw.whole, List.countP_true] at hle
        omega
      obtain ⟨t₁, hrun, hrep, hitem, hnull, hframe⟩ :=
        deleteSessionHeap_refines hw ht hb hlen (clock b) destoryTime
      have hrounds : b + 1 + k ≤ (m.swept cfg b (clock b) destoryTime).ht.rounds := by
        rw [swept_rounds]
        omega
      obtain ⟨t', hloop, hrep', hitem', hnull', hframe'⟩ :=
        ih (hw.swept hb (clock b) destoryTime) hrep hrounds
      have hlater : ∀ c ∈ List.range' (b + 1) k, c ≠ b ∧ c < m.ht.rounds := by
        intro c hc
        rw [List.mem_range'_1] at hc
        omega
      rw [List.range'_succ]
      refine ⟨t', ?_, hrep', hitem'.trans hitem, ?_, ?_⟩
      · rw [travelLoop, hrun]
        simp only
        rw [hloop]
        rfl
      · intro c hc x hx
        rcases List.mem_cons.mp hc with rfl | hc
        · -- the buckets behind it do not touch what bucket `c` has unlinked
          have hx' := List.mem_filter.mp hx
          rw [hframe', hnull x hx'.1 hx'.2]
          intro d hd
          rw [swept_bucket_of_ne m _ _ (hlater d hd).1]
          refine hw.circle_apart (hlater d hd).2 hb (hlater d hd).1.symm ?_
          exact List.mem_cons_of_mem _ (mem_cells.mpr ⟨x, hx'.1, rfl⟩)
        · refine hnull' c hc x ?_
          unfold Manager.outdated at hx ⊢
          rw [swept_bucket_of_ne m _ _ (hlater c hc).1]
          exact hx
      · intro e he
        rw [hframe', hframe e (he b List.mem_cons_self)]
        intro c hc
        rw [swept_bucket_of_ne m _ _ (hlater c hc).1]
        exact he c (List.mem_cons_of_mem b hc)

/-! ## §6. The sweep is a filter. -/

/-- Older than the lifetime, in numbers. -/
def Old (cfg : Config) (now : UInt64) (destoryTime : Int32) (node : Blist) : Prop :=
  (lifetime cfg destoryTime).toNat < now.toNat - node.item.lastTime.toNat

instance (now : UInt64) : DecidablePred (Old cfg now destoryTime) := fun node =>
  inferInstanceAs (Decidable
    ((lifetime cfg destoryTime).toNat < now.toNat - node.item.lastTime.toNat))

/-- **The unsigned age is the age**, where the clock is not behind. -/
theorem expired_eq_old {now : UInt64} {node : Blist} (h : node.item.lastTime ≤ now) :
    expired cfg now destoryTime node = decide (Old cfg now destoryTime node) := by
  have hage : (now - node.item.lastTime).toNat = now.toNat - node.item.lastTime.toNat :=
    UInt64.toNat_sub_of_le now node.item.lastTime h
  unfold expired
  refine decide_eq_decide.mpr ?_
  show lifetime cfg destoryTime < now - node.item.lastTime ↔ _
  rw [UInt64.lt_iff_toNat_lt, hage]
  rfl

/-- **The sweep as a filter**: what `hash_travel_delete` leaves of a manager
    in memory. -/
structure Filtered (cfg : Config) (clock : Nat → UInt64) (destoryTime : Int32) (m : Manager)
    (t' : HeapManager) : Prop where
  /-- Every bucket is a circle of the sessions that are not old, in order. -/
  circle : ∀ b < m.ht.rounds, Circle t'.links (.head b)
    (cells ((m.bucket b).list.filter (fun node => ¬ Old cfg (clock b) destoryTime node)))
  /-- With the contents they had. -/
  item : ∀ b < m.ht.rounds, ∀ node ∈ (m.bucket b).list, t'.item node.addr = node.item
  count : ∀ b < m.ht.rounds, t'.count b = (m.bucket b).count
    - UInt32.ofNat ((m.bucket b).list.countP (fun node => Old cfg (clock b) destoryTime node))
  /-- The old ones are behind what the pool had, bucket by bucket. -/
  sessionPool : t'.sessionPool = m.sessionPool.map Blist.addr
    ++ (List.range m.ht.rounds).flatMap (fun b =>
      ((m.bucket b).list.filter (fun node => Old cfg (clock b) destoryTime node)).map Blist.addr)
  /-- No node is in the pool twice. -/
  once : t'.sessionPool.Nodup
  null : ∀ b < m.ht.rounds, ∀ node ∈ (m.bucket b).list, Old cfg (clock b) destoryTime node →
    t'.links (.node node.addr) = ⟨none, none⟩

/-- No node is in a pool twice. -/
theorem WellFormed.pool_nodup {N : Nat} (hw : WellFormed N m) :
    (m.sessionPool.map Blist.addr).Nodup := by
  rw [List.nodup_iff_count_le_one]
  intro a
  have honce := hw.once a
  have hle : m.sessionPool.countP (fun node => node.addr == a) ≤ m.tally (fun c => c == a) :=
    Nat.le_add_right _ _
  rw [List.count, List.countP_map]
  show m.sessionPool.countP (fun node => node.addr == a) ≤ 1
  split at honce <;> omega

/-- **THE EXPIRY SWEEP IS EXACTLY A FILTER**: for every well-formed manager in
    memory and every clock that is not behind the sessions it is compared
    with, `hash_travel_delete` ends, visits every bucket once, and leaves a
    well-formed manager whose buckets hold the sessions not older than the
    lifetime at the time read there. -/
theorem hashTravelDelete_filters (hw : WellFormed cfg.poolSize m) (ht : Represents t m)
    (hclock : ∀ b < m.ht.rounds, ∀ node ∈ (m.bucket b).list, node.item.lastTime ≤ clock b)
    (destoryTime : Int32) {fuel : Nat} (hfuel : cfg.poolSize < fuel) :
    ∃ t' m', hashTravelDelete cfg fuel clock destoryTime t
        = some (t', (List.range m.ht.rounds).map (fun b => (b, clock b)))
      ∧ WellFormed cfg.poolSize m' ∧ Represents t' m'
      ∧ Filtered cfg clock destoryTime m t' := by
  have hrounds : t.numBuckets.toInt.toNat = m.ht.rounds := by
    rw [ht.numBuckets]
    rfl
  obtain ⟨t', hrun, hrep, hitem, hnull, _⟩ :=
    travelLoop_refines hw ht clock destoryTime hfuel (Nat.le_of_eq (Nat.zero_add m.ht.rounds))
  rw [← List.range_eq_range'] at hrun hrep hnull
  have hall : ∀ b ∈ List.range m.ht.rounds, b < m.ht.rounds := fun b hb => List.mem_range.mp hb
  have hw' := hw.travelled cfg clock destoryTime hall
  -- each bucket was swept once, so what is left is the filter by its own clock
  have hbucket : ∀ b < m.ht.rounds,
      (m.travelled cfg clock destoryTime (List.range m.ht.rounds)).bucket b
        = { list := (m.bucket b).list.filter (fun node => ¬ Old cfg (clock b) destoryTime node)
            count := (m.bucket b).count - UInt32.ofNat ((m.bucket b).list.countP
              (fun node => Old cfg (clock b) destoryTime node)) } := by
    intro b hb
    rw [travelled_bucket_of_mem m List.nodup_range (List.mem_range.mpr hb), swept_bucket_self,
      Bucket.mk.injEq]
    refine ⟨List.filter_congr fun node hnode => ?_, ?_⟩
    · rw [expired_eq_old (hclock b hb node hnode), decide_not]
    · rw [List.countP_congr fun node hnode => by
        rw [expired_eq_old (hclock b hb node hnode)]]
  have houtdated : ∀ b < m.ht.rounds, m.outdated cfg clock destoryTime b
      = (m.bucket b).list.filter (fun node => Old cfg (clock b) destoryTime node) := fun b hb =>
    List.filter_congr fun node hnode => expired_eq_old (hclock b hb node hnode)
  refine ⟨t', m.travelled cfg clock destoryTime (List.range m.ht.rounds), ?_, hw', hrep, ?_⟩
  · unfold hashTravelDelete
    rw [hrounds]
    exact hrun
  · refine ⟨?_, ?_, ?_, ?_, ?_, ?_⟩
    · intro b hb
      have hc := hrep.circle b (by rw [travelled_rounds]; exact hb)
      rw [hbucket b hb] at hc
      exact hc
    · intro b hb node hnode
      rw [hitem]
      exact ht.item b hb node hnode
    · intro b hb
      rw [hrep.count b (by rw [travelled_rounds]; exact hb), hbucket b hb]
    · rw [hrep.sessionPool, travelled_sessionPool m List.nodup_range, List.map_append,
        List.map_flatMap]
      -- the pool receives the buckets' outdated nodes in the order of the travel
      refine congrArg _ (List.flatMap_congr fun b hb => ?_)
      rw [houtdated b (List.mem_range.mp hb)]
    · rw [hrep.sessionPool]
      exact hw'.pool_nodup
    · intro b hb node hnode hold
      refine hnull b (List.mem_range.mpr hb) node ?_
      rw [houtdated b hb]
      exact List.mem_filter.mpr ⟨hnode, decide_eq_true hold⟩

/-! ## §7. A table with one session. -/

def oneSessionCfg : Config := { managerBufferSize := 64, mhz := 1, poolSize := 1 }

/-- Two buckets, and one session of time 0 in the first. -/
def oneSession : Manager :=
  { index := 0
    ht := { numBuckets := 2
            buckets := fun b => if b = 0 then { list := [⟨0, blankItem⟩], count := 1 }
              else { list := [], count := 0 } }
    sessionPool := [] }

def oneSessionHeap : HeapManager :=
  { index := 0, numBuckets := 2
    links := fun e =>
      match e with
      | .head 0 => ⟨some (.node 0), some (.node 0)⟩
      | .head b => ⟨some (.head b), some (.head b)⟩
      | .node _ => ⟨some (.head 0), some (.head 0)⟩
    item := fun _ => blankItem
    count := fun b => if b = 0 then 1 else 0
    sessionPool := [] }

theorem oneSession_cases {P : Nat → Prop} (h0 : P 0) (h1 : P 1) : ∀ b < oneSession.ht.rounds, P b := by
  intro b hb
  have hlt : b < 2 := hb
  interval_cases b
  · exact h0
  · exact h1

theorem oneSession_wellFormed : WellFormed oneSessionCfg.poolSize oneSession := by
  have htally : ∀ p : Nat → Bool, oneSession.tally p = if p 0 then 1 else 0 := by
    intro p
    show 0 + total 2 oneSession.lists (fun node => p node.addr) = _
    simp [total, Finset.sum_range_succ, Manager.lists, Manager.bucket, oneSession]
  refine ⟨?_, ?_, oneSession_cases rfl rfl, oneSession_cases ?_ ?_⟩
  · intro a
    rw [htally]
    show (if (0 == a) = true then 1 else 0) = if a < 1 then 1 else 0
    cases a with
    | zero => rfl
    | succ a => rfl
  · rw [htally]
    rfl
  · intro node hnode
    rw [List.mem_singleton.mp hnode]
    rfl
  · intro node hnode
    exact absurd hnode List.not_mem_nil

theorem oneSession_represented : Represents oneSessionHeap oneSession := by
  refine ⟨rfl, rfl, oneSession_cases ?_ ?_, oneSession_cases ?_ ?_, oneSession_cases rfl rfl, rfl⟩
  · exact ⟨path_cons.mpr ⟨⟨rfl, rfl⟩, path_nil.mpr ⟨rfl, rfl⟩⟩, by decide⟩
  · exact ⟨path_nil.mpr ⟨rfl, rfl⟩, by decide⟩
  · intro node hnode
    rw [List.mem_singleton.mp hnode]
    rfl
  · intro node hnode
    exact absurd hnode List.not_mem_nil

/-- At time 1001 with a lifetime of 1000 cycles the session goes. -/
theorem oneSession_filtered :
    ∃ t' m', hashTravelDelete oneSessionCfg 2 (fun _ => 1001) 1 oneSessionHeap
        = some (t', [(0, 1001), (1, 1001)])
      ∧ WellFormed oneSessionCfg.poolSize m' ∧ Represents t' m'
      ∧ Filtered oneSessionCfg (fun _ => 1001) 1 oneSession t' :=
  hashTravelDelete_filters oneSession_wellFormed oneSession_represented
    (oneSession_cases (List.forall_mem_singleton.mpr (by decide))
      (fun _ hnode => absurd hnode List.not_mem_nil)) 1 (by decide)

end Table

end Steps

end FreePacket.Session
