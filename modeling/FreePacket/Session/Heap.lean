/-
  FreePacket.Session.Heap
  ───────────────────────
  **THE SESSION TABLE ON THE LINKS: `hash_add_item` and `find_list` on the heap.**

  `Session.Expiry` has the sweep on a manager in memory; here are the search
  along a bucket's links, the insertion with its three branches, and the
  creation of the heads.  A null pointer that is followed, an entry that
  stands in no session node, and a walk that comes to no end are `none`.

  Between two calls the memory backs the manager whose buckets hold lists:
  besides `Represents`, the items of the free nodes are where the pool says,
  because `make_new_session` copies over what such a node held.

  Main results:
    * `findListHeap_eq` — the search on the links is `find_list` on the list.
    * `hashAddItemHeap_alike` — an insertion on the links is `hash_add_item`,
      and spins exactly where it does.
    * `heapRun_alike` — so is every run, from `init_signle_manager` on.
-/
import FreePacket.Session.Conservation
import FreePacket.Session.Expiry

namespace FreePacket.Session

open FreePacket.Lib FreePacket.Lib.Machine FreePacket.Packet

/-! ## §1. The table in memory. -/

/-- `key % ht->num_buckets`. -/
def HeapManager.slot (t : HeapManager) (key : UInt32) : Nat :=
  (key % t.numBuckets.toUInt32).toNat

/-- The buckets there are. -/
def HeapManager.rounds (t : HeapManager) : Nat := t.numBuckets.toInt.toNat

/-- The loop `list_for_each(p, head)` of `find_list`, from `p` on.  The head
    of another bucket stands in no session node. -/
def findListLoop (t : HeapManager) (b : Nat) (flow : FlowItem) :
    Nat → Option Cell → Option (Option Nat)
  | 0, _ => none
  | _ + 1, none => none
  | _ + 1, some (.head c) => if c = b then some none else none
  | fuel + 1, some (.node addr) =>
      if compareSession (t.item addr) flow = 0 then some (some addr)
      else findListLoop t b flow fuel (t.links (.node addr)).next

/-- `find_list` in bucket `b`: the node found, or `NULL`. -/
def findListHeap (t : HeapManager) (b : Nat) (flow : FlowItem) (fuel : Nat) :
    Option (Option Nat) :=
  findListLoop t b flow fuel (t.links (.head b)).next

/-- The create branch of `hash_add_item`, with the node taken from the pool. -/
def linkNewSession (cfg : Config) (t : HeapManager) (b addr : Nat) (pool : List Nat)
    (flow : FlowItem) (now : UInt64) : Option (HeapManager × Outcome) :=
  let node := makeNewSession cfg ⟨addr, t.item addr⟩ flow t.index now
  (listAddTail (initListHead t.links (.node addr)) (.node addr) (.head b)).map (fun links =>
    ({ t with links := links, sessionPool := pool
              item := Function.update t.item addr node.item
              count := Function.update t.count b (t.count b + 1) },
      .created ⟨addr, 0, flow.payloadLen, node.item.length⟩))

/-- The flush branch. -/
def flushSession (cfg : Config) (t : HeapManager) (b addr : Nat) :
    Option (HeapManager × Outcome) :=
  match listDel t.links (.node addr) with
  | none => none
  | some links =>
      if (t.item addr).pool = t.index then
        (Fifo.push cfg.poolSize t.sessionPool [addr]).map (fun pool =>
          ({ t with links := links, sessionPool := pool
                    count := Function.update t.count b (t.count b - 1) },
            .flushed addr (flushBytes (t.item addr))))
      else none

/-- `hash_add_item` on the links. -/
def hashAddItemHeap (cfg : Config) (fuel : Nat) (t : HeapManager) (key : UInt32)
    (flow : FlowItem) (now : UInt64) : Option (HeapManager × Outcome) :=
  if t.slot key < t.rounds then
    match findListHeap t (t.slot key) flow fuel with
    | none => none
    | some none =>
        match Fifo.take t.sessionPool with
        | none => none
        | some (addr, pool) => linkNewSession cfg t (t.slot key) addr pool flow now
    | some (some addr) =>
        let session := t.item addr
        if session.curLen + flow.payloadLen < session.length then
          some ({ t with item := Function.update t.item addr
                          (appendSession ⟨addr, session⟩ flow now).item },
            .appended ⟨addr, session.curLen, flow.payloadLen, session.length⟩)
        else flushSession cfg t (t.slot key) addr
  else none

/-- The loop of `hash_create` over the buckets, `b` being at bucket `b` and
    `k` rounds to go. -/
def initBuckets : Nat → Nat → HeapManager → HeapManager
  | 0, _, t => t
  | k + 1, b, t =>
      initBuckets k (b + 1)
        { t with links := initListHead t.links (.head b), count := Function.update t.count b 0 }

/-- `init_signle_manager` in a `memory` that holds anything. -/
def initSignleManagerHeap (cfg : Config) (i : Nat) (fuel : Nat) (hashLength : Int32)
    (memory : HeapManager) : Option HeapManager :=
  (hashCreate fuel hashLength).map (fun ht =>
    initBuckets ht.rounds 0
      { memory with index := i, numBuckets := ht.numBuckets
                    sessionPool := List.range cfg.poolSize })

/-- The table machine of `Session.Conservation`, in memory. -/
def heapTable (cfg : Config) (fuel : Nat) : Machine HeapManager TableCall (Option Outcome) where
  step t call :=
    match call with
    | .add key flow now => (hashAddItemHeap cfg fuel t key flow now).map (fun p => (p.1, some p.2))
    | .delete b now destoryTime =>
        if b < t.rounds then
          (deleteSessionHeap cfg fuel b now destoryTime t).map (fun t' => (t', none))
        else none

/-! ## §2. The search. -/

section Search

variable {t : HeapManager} {b : Nat} {flow : FlowItem}

/-- From a cell of the circle on, the rest of the list is searched. -/
theorem findListLoop_eq {l : List Blist} {a : Cell} (hp : Path t.links a (cells l) (.head b))
    (hitem : ∀ node ∈ l, t.item node.addr = node.item) {fuel : Nat} (hfuel : l.length < fuel) :
    findListLoop t b flow fuel (t.links a).next = some ((findList l flow).map Blist.addr) := by
  induction l generalizing a fuel with
  | nil =>
      obtain ⟨fuel, rfl⟩ := Nat.exists_eq_succ_of_ne_zero (Nat.ne_of_gt hfuel)
      rw [(path_nil.mp hp).1]
      exact if_pos rfl
  | cons node rest ih =>
      obtain ⟨fuel, rfl⟩ := Nat.exists_eq_succ_of_ne_zero (Nat.ne_of_gt (Nat.zero_lt_of_lt hfuel))
      obtain ⟨hlink, hrest⟩ := path_cons.mp hp
      have hnode := hitem node List.mem_cons_self
      have htail := ih hrest (fun x hx => hitem x (List.mem_cons_of_mem node hx))
        (Nat.lt_of_succ_lt_succ hfuel)
      rw [hlink.1]
      show (if compareSession (t.item node.addr) flow = 0 then some (some node.addr)
          else findListLoop t b flow fuel (t.links (.node node.addr)).next)
        = some ((if compareSession node.item flow = 0 then some node
          else findList rest flow).map Blist.addr)
      rw [hnode, htail]
      by_cases hfound : compareSession node.item flow = 0
      · rw [if_pos hfound, if_pos hfound]
        rfl
      · rw [if_neg hfound, if_neg hfound]

variable {cfg : Config} {m : Manager}

/-- No bucket holds more nodes than there are. -/
theorem WellFormed.bucket_length_le {N : Nat} (hw : WellFormed N m) (hb : b < m.ht.rounds) :
    (m.bucket b).list.length ≤ N := by
  have hle := countP_le_tally m hb (fun _ => true)
  rw [hw.whole, List.countP_true] at hle
  omega

/-- **The search on the links** is `find_list` on the list of the bucket. -/
theorem findListHeap_eq (hw : WellFormed cfg.poolSize m) (ht : Represents t m)
    (hb : b < m.ht.rounds) {fuel : Nat} (hfuel : cfg.poolSize < fuel) (flow : FlowItem) :
    findListHeap t b flow fuel = some ((findList (m.bucket b).list flow).map Blist.addr) :=
  findListLoop_eq (ht.circle b hb).path (ht.item b hb)
    (Nat.lt_of_le_of_lt (hw.bucket_length_le hb) hfuel)

end Search

/-! ## §3. One call. -/

/-- **The memory backs a manager**, free nodes included. -/
structure Backed (t : HeapManager) (m : Manager) : Prop where
  represents : Represents t m
  free : ∀ node ∈ m.sessionPool, t.item node.addr = node.item

section Call

variable {cfg : Config} {t t' : HeapManager} {m : Manager} {b fuel : Nat}

theorem Represents.slot_eq (ht : Represents t m) (key : UInt32) : t.slot key = m.slot key := by
  unfold HeapManager.slot
  rw [ht.numBuckets]
  rfl

theorem Represents.rounds_eq (ht : Represents t m) : t.rounds = m.ht.rounds := by
  unfold HeapManager.rounds
  rw [ht.numBuckets]
  rfl

/-- **A change of the pool and one bucket**: the circle of the bucket is the
    new list's, and no other circle, item or counter has been written. -/
theorem Backed.setBucket (ht : Backed t m) {pool : List Blist} {bucket : Bucket}
    (hindex : t'.index = t.index) (hnum : t'.numBuckets = t.numBuckets)
    (hcircle : Circle t'.links (.head b) (cells bucket.list))
    (hlinks : ∀ c < m.ht.rounds, c ≠ b → ∀ e ∈ Cell.head c :: cells (m.bucket c).list,
      t'.links e = t.links e)
    (hitem : ∀ node ∈ bucket.list, t'.item node.addr = node.item)
    (hitems : ∀ c < m.ht.rounds, c ≠ b → ∀ node ∈ (m.bucket c).list,
      t'.item node.addr = t.item node.addr)
    (hcount : t'.count b = bucket.count) (hcounts : ∀ c, c ≠ b → t'.count c = t.count c)
    (hpool : t'.sessionPool = pool.map Blist.addr)
    (hfree : ∀ node ∈ pool, t'.item node.addr = node.item) :
    Backed t' (({ m with sessionPool := pool }).setBucket b bucket) := by
  have hold := ht.represents
  refine ⟨⟨hindex.trans hold.index, hnum.trans hold.numBuckets, ?_, ?_, ?_, hpool⟩, hfree⟩
  · intro c hc
    by_cases hcb : c = b
    · rw [hcb, bucket_setBucket_self]
      exact hcircle
    · rw [bucket_setBucket_of_ne _ _ hcb]
      exact (hold.circle c hc).congr (hlinks c hc hcb)
  · intro c hc node hnode
    by_cases hcb : c = b
    · rw [hcb, bucket_setBucket_self] at hnode
      exact hitem node hnode
    · rw [bucket_setBucket_of_ne _ _ hcb] at hnode
      rw [hitems c hc hcb node hnode]
      exact hold.item c hc node hnode
  · intro c hc
    by_cases hcb : c = b
    · rw [hcb, bucket_setBucket_self]
      exact hcount
    · rw [bucket_setBucket_of_ne _ _ hcb, hcounts c hcb]
      exact hold.count c hc

/-- A write to the item of one node leaves the items of the others. -/
theorem item_update_of_ne {addr : Nat} {item : SessionItem} {l : List Blist}
    (hne : ∀ x ∈ l, x.addr ≠ addr) (hl : ∀ x ∈ l, t.item x.addr = x.item) :
    ∀ x ∈ l, Function.update t.item addr item x.addr = x.item := by
  intro x hx
  rw [Function.update_of_ne (hne x hx)]
  exact hl x hx

/-- A free node linked at the end of the bucket. -/
theorem Backed.created (hw : WellFormed cfg.poolSize m) (ht : Backed t m) (hb : b < m.ht.rounds)
    {fresh : Blist} {pool : List Blist} (hpool : m.sessionPool = fresh :: pool) (flow : FlowItem)
    (now : UInt64) :
    ∃ t', linkNewSession cfg t b fresh.addr (pool.map Blist.addr) flow now
        = some (t', .created ⟨fresh.addr, 0, flow.payloadLen, cfg.managerBufferSize.toUInt32⟩)
      ∧ Backed t' (({ m with sessionPool := pool }).setBucket b
          ((m.bucket b).link (makeNewSession cfg fresh flow m.index now))) := by
  have hmem : fresh ∈ m.sessionPool := by
    rw [hpool]
    exact List.mem_cons_self
  have hnode : makeNewSession cfg ⟨fresh.addr, t.item fresh.addr⟩ flow t.index now
      = makeNewSession cfg fresh flow m.index now := by
    rw [ht.free fresh hmem, ht.represents.index]
  -- a free node is in no circle
  have hapart : ∀ c < m.ht.rounds, ∀ x ∈ (m.bucket c).list, x.addr ≠ fresh.addr :=
    fun c hc x hx => hw.addr_ne_of_pool hc hmem hx
  have hcell : ∀ c < m.ht.rounds,
      Cell.node fresh.addr ∉ Cell.head c :: cells (m.bucket c).list := by
    intro c hc hin
    obtain ⟨x, hx, hxa⟩ := mem_cells.mp ((List.mem_cons.mp hin).resolve_left (by simp))
    exact hapart c hc x hx hxa
  obtain ⟨_, hinit⟩ := initListHead_circle t.links (Cell.node fresh.addr)
  have hstart : Circle (initListHead t.links (.node fresh.addr)) (.head b)
      (cells (m.bucket b).list) :=
    (ht.represents.circle b hb).congr fun e he => hinit e fun heq => hcell b hb (heq ▸ he)
  obtain ⟨links, hadd, hcircle, hframe⟩ := listAddTail_circle hstart (hcell b hb)
  have hother : ∀ e, e ≠ .node fresh.addr → e ∉ Cell.head b :: cells (m.bucket b).list →
      links e = t.links e := fun e hne he => (hframe e hne he).trans (hinit e hne)
  refine ⟨{ t with
      links := links, sessionPool := pool.map Blist.addr
      item := Function.update t.item fresh.addr (makeNewSession cfg fresh flow m.index now).item
      count := Function.update t.count b (t.count b + 1) }, ?_,
    ht.setBucket rfl rfl ?_ ?_ ?_ ?_ ?_ ?_ rfl ?_⟩
  · unfold linkNewSession
    simp only [hnode, hadd, Option.map_some]
    rfl
  · show Circle links (.head b) (cells ((m.bucket b).list ++ [_]))
    rw [cells_append]
    exact hcircle
  · intro c hc hcb e he
    exact hother e (fun heq => hcell c hc (heq ▸ he)) (hw.circle_apart hb hc hcb he)
  · intro node hnode
    rcases List.mem_append.mp hnode with hnode | hnode
    · exact item_update_of_ne (hapart b hb) (ht.represents.item b hb) node hnode
    · rw [List.mem_singleton.mp hnode]
      exact Function.update_self ..
  · intro c hc _ node hnode
    exact Function.update_of_ne (hapart c hc node hnode) ..
  · show Function.update t.count b (t.count b + 1) b = (m.bucket b).count + 1
    rw [Function.update_self, ht.represents.count b hb]
  · intro c hcb
    exact Function.update_of_ne hcb ..
  · -- the nodes behind it in the pool are other nodes
    have hnd := hw.pool_nodup
    rw [hpool, List.map_cons, List.nodup_cons] at hnd
    refine item_update_of_ne (fun x hx heq => hnd.1 ?_) (fun x hx => ht.free x ?_)
    · rw [← heq]
      exact List.mem_map_of_mem hx
    · rw [hpool]
      exact List.mem_cons_of_mem fresh hx

/-- A payload written behind the others. -/
theorem Backed.appended (hw : WellFormed cfg.poolSize m) (ht : Backed t m) (hb : b < m.ht.rounds)
    {pre post : List Blist} {node : Blist} (hlist : (m.bucket b).list = pre ++ node :: post)
    (flow : FlowItem) (now : UInt64) :
    Backed { t with item := Function.update t.item node.addr (appendSession node flow now).item }
      (m.setBucket b ((m.bucket b).store (appendSession node flow now))) := by
  have hmem : node ∈ (m.bucket b).list := mem_of_split hlist
  have hstore := store_list hlist (hw.addr_nodup hb) (appendSession_addr node flow now)
  obtain ⟨hpre, hpost⟩ := hw.addr_ne_of_split hb hlist
  have hitems := ht.represents.item b hb
  rw [hlist] at hitems
  show Backed _ (({ m with sessionPool := m.sessionPool }).setBucket b _)
  refine ht.setBucket rfl rfl ?_ (fun _ _ _ _ _ => rfl) ?_ ?_ ?_
    (fun _ _ => rfl) ht.represents.sessionPool ?_
  · -- the store moves no node
    have hsame : cells ((m.bucket b).store (appendSession node flow now)).list
        = cells (m.bucket b).list := by
      rw [hstore, hlist, cells_append, cells_append]
      rfl
    rw [hsame]
    exact ht.represents.circle b hb
  · intro x hx
    rw [hstore] at hx
    rcases List.mem_append.mp hx with hx | hx
    · exact item_update_of_ne hpre
        (fun y hy => hitems y (List.mem_append_left _ hy)) x hx
    · rcases List.mem_cons.mp hx with rfl | hx
      · exact Function.update_self ..
      · exact item_update_of_ne hpost
          (fun y hy => hitems y (List.mem_append_right _ (List.mem_cons_of_mem _ hy))) x hx
  · intro c hc hcb x hx
    exact Function.update_of_ne (fun heq => hcb (hw.bucket_unique hb hc hmem hx heq)) ..
  · exact ht.represents.count b hb
  · exact item_update_of_ne (fun x hx heq => hw.addr_ne_of_pool hb hx hmem heq.symm) ht.free

/-- A node unlinked and given back. -/
theorem Backed.flushed (hw : WellFormed cfg.poolSize m) (ht : Backed t m) (hb : b < m.ht.rounds)
    {pre post : List Blist} {node : Blist} (hlist : (m.bucket b).list = pre ++ node :: post) :
    ∃ t', flushSession cfg t b node.addr = some (t', .flushed node.addr (flushBytes node.item))
      ∧ Backed t' (m.removed b node (pre ++ post)) := by
  have hmem : node ∈ (m.bucket b).list := mem_of_split hlist
  have hitem := ht.represents.item b hb node hmem
  have hpool : (t.item node.addr).pool = t.index := by
    rw [hitem, hw.owned b hb node hmem, ht.represents.index]
  obtain ⟨links, pool, hdel, hpush, hrep, _⟩ := ht.represents.removed hw hb hlist
  refine ⟨_, ?_, ⟨hrep, ?_⟩⟩
  · unfold flushSession
    rw [hdel]
    simp only [if_pos hpool]
    rw [hpush, hitem]
    rfl
  · intro x hx
    show t.item x.addr = x.item
    rcases List.mem_append.mp hx with hx | hx
    · exact ht.free x hx
    · rw [List.mem_singleton.mp hx]
      exact hitem

/-- **A call on the links is `hash_add_item`**: the same branch with the same
    copy or flush, and where one spins the other does. -/
theorem hashAddItemHeap_alike (hw : WellFormed cfg.poolSize m) (ht : Backed t m)
    (hfuel : cfg.poolSize < fuel) (key : UInt32) (flow : FlowItem) (now : UInt64) :
    Alike Backed (hashAddItemHeap cfg fuel t key flow now) (hashAddItem cfg m key flow now) := by
  have hrep := ht.represents
  unfold hashAddItemHeap
  rw [hrep.slot_eq, hrep.rounds_eq]
  by_cases hb : m.slot key < m.ht.rounds
  swap
  · unfold hashAddItem
    rw [if_neg hb, if_neg hb]
    exact Option.Rel.none
  rw [if_pos hb, findListHeap_eq hw hrep hb hfuel]
  cases hfind : findList (m.bucket (m.slot key)).list flow with
  | none =>
      cases hpool : m.sessionPool with
      | nil =>
          unfold hashAddItem
          rw [if_pos hb, hfind, hrep.sessionPool, hpool]
          exact Option.Rel.none
      | cons fresh pool =>
          -- a new key takes the first node of the pool
          obtain ⟨t', hlink, hbacked⟩ := ht.created hw hb hpool flow now
          rw [hashAddItem_create hb hfind hpool, hrep.sessionPool, hpool]
          show Alike Backed (linkNewSession cfg t _ fresh.addr (pool.map Blist.addr) flow now) _
          rw [hlink]
          exact Option.Rel.some ⟨rfl, hbacked⟩
  | some node =>
      obtain ⟨_, pre, post, hlist, _⟩ := findList_eq_some hfind
      have hitem := hrep.item _ hb node (mem_of_split hlist)
      simp only [Option.map_some, hitem]
      -- room for the payload, or the session is flushed
      by_cases hfit : node.item.curLen + flow.payloadLen < node.item.length
      · rw [if_pos hfit, hashAddItem_append hb hfind hfit]
        exact Option.Rel.some ⟨rfl, ht.appended hw hb hlist flow now⟩
      · obtain ⟨t', hflush, hbacked⟩ := ht.flushed hw hb hlist
        rw [if_neg hfit, hashAddItem_flush hb hfind hfit, hw.remove_eq hb hlist, hflush]
        exact Option.Rel.some ⟨rfl, hbacked⟩

/-- **A sweep on the links** never spins, like `delete_session`. -/
theorem deleteSessionHeap_alike (hw : WellFormed cfg.poolSize m) (ht : Backed t m)
    (hfuel : cfg.poolSize < fuel) (hb : b < m.ht.rounds) (now : UInt64) (destoryTime : Int32) :
    ∃ t', deleteSessionHeap cfg fuel b now destoryTime t = some t'
      ∧ Backed t' (m.swept cfg b now destoryTime) := by
  have hlen := Nat.lt_of_le_of_lt (hw.bucket_length_le hb) hfuel
  obtain ⟨t', hrun, hrep, hitem, _⟩ :=
    deleteSessionHeap_refines hw ht.represents hb hlen now destoryTime
  refine ⟨t', hrun, hrep, fun x hx => ?_⟩
  rw [hitem]
  rcases List.mem_append.mp hx with hx | hx
  · exact ht.free x hx
  · exact ht.represents.item b hb x (List.mem_of_mem_filter hx)

end Call

/-! ## §4. The start. -/

section Start

variable {t : HeapManager} {b c k : Nat}

/-- The loop of `hash_create` writes the buckets it goes through. -/
theorem initBuckets_eq :
    (initBuckets k b t).index = t.index ∧ (initBuckets k b t).numBuckets = t.numBuckets
      ∧ (initBuckets k b t).item = t.item ∧ (initBuckets k b t).sessionPool = t.sessionPool := by
  induction k generalizing b t with
  | zero => exact ⟨rfl, rfl, rfl, rfl⟩
  | succ k ih => exact ih

/-- And no other ones. -/
theorem initBuckets_of_lt (hc : c < b) :
    (initBuckets k b t).links (.head c) = t.links (.head c)
      ∧ (initBuckets k b t).count c = t.count c := by
  induction k generalizing b t with
  | zero => exact ⟨rfl, rfl⟩
  | succ k ih =>
      obtain ⟨hlinks, hcount⟩ :=
        ih (b := b + 1)
          (t := { t with links := initListHead t.links (.head b)
                         count := Function.update t.count b 0 }) (Nat.lt_succ_of_lt hc)
      have hne : Cell.head c ≠ Cell.head b := fun heq => Nat.ne_of_lt hc (Cell.head.inj heq)
      have hkept := (initListHead_circle t.links (Cell.head b)).2 _ hne
      exact ⟨hlinks.trans hkept, hcount.trans (Function.update_of_ne (Nat.ne_of_lt hc) ..)⟩

/-- **Every bucket it goes through is empty.** -/
theorem initBuckets_empty (hbc : b ≤ c) (hck : c < b + k) :
    Circle (initBuckets k b t).links (.head c) [] ∧ (initBuckets k b t).count c = 0 := by
  induction k generalizing b t with
  | zero => omega
  | succ k ih =>
      rcases Nat.lt_or_eq_of_le hbc with hlt | rfl
      · exact ih hlt (by omega)
      · -- the head of this bucket is not written again
        obtain ⟨hlinks, hcount⟩ :=
          initBuckets_of_lt (k := k) (b := b + 1) (c := b)
            (t := { t with links := initListHead t.links (.head b)
                           count := Function.update t.count b 0 }) (Nat.lt_succ_self b)
        refine ⟨(initListHead_circle t.links (Cell.head b)).1.congr ?_,
          hcount.trans (Function.update_self ..)⟩
        intro e he
        rw [List.mem_singleton.mp he]
        exact hlinks

end Start

/-- **A fresh manager is backed**, whatever the memory held. -/
theorem initSignleManagerHeap_alike (cfg : Config) (i n : Nat) (hashLength : Int32)
    (memory : HeapManager) :
    Option.Rel Backed (initSignleManagerHeap cfg i n hashLength memory)
      (initSignleManager cfg i n hashLength memory.item) := by
  unfold initSignleManagerHeap initSignleManager
  cases hcreate : hashCreate n hashLength with
  | none => exact Option.Rel.none
  | some ht =>
      obtain ⟨_, _, hempty⟩ := hashCreate_eq_some hcreate
      refine Option.Rel.some ⟨⟨initBuckets_eq.1, initBuckets_eq.2.1, ?_, ?_, ?_, ?_⟩, ?_⟩
      · intro b hb
        show Circle _ _ (cells (ht.buckets b).list)
        rw [hempty]
        exact (initBuckets_empty (Nat.zero_le b) (Nat.lt_of_lt_of_eq hb (Nat.zero_add _).symm)).1
      · intro b _ node hnode
        change node ∈ (ht.buckets b).list at hnode
        rw [hempty] at hnode
        exact absurd hnode List.not_mem_nil
      · intro b hb
        show _ = (ht.buckets b).count
        rw [hempty]
        exact (initBuckets_empty (Nat.zero_le b) (Nat.lt_of_lt_of_eq hb (Nat.zero_add _).symm)).2
      · rw [initBuckets_eq.2.2.2, List.map_map]
        exact (List.map_id' _).symm
      · intro node hnode
        obtain ⟨j, _, rfl⟩ := List.mem_map.mp hnode
        rw [initBuckets_eq.2.2.1]

/-! ## §5. Whole runs. -/

/-- The two levels between two calls. -/
def HeapInv (cfg : Config) (t : HeapManager) (m : Manager) : Prop :=
  WellFormed cfg.poolSize m ∧ Backed t m

section Runs

variable {cfg : Config} {t : HeapManager} {m : Manager} {fuel : Nat}

/-- **One step of the two machines.** -/
theorem heapStep_alike (hfuel : cfg.poolSize < fuel) (h : HeapInv cfg t m) (call : TableCall) :
    Alike (HeapInv cfg) ((heapTable cfg fuel).step t call) ((table cfg).step m call) := by
  obtain ⟨hw, ht⟩ := h
  cases call with
  | add key flow now =>
      have hadd := hashAddItemHeap_alike hw ht hfuel key flow now
      show Alike _ ((hashAddItemHeap cfg fuel t key flow now).map _)
        ((hashAddItem cfg m key flow now).map _)
      cases hlist : hashAddItem cfg m key flow now with
      | none =>
          rw [hlist] at hadd
          rw [hadd.of_none]
          exact Option.Rel.none
      | some p =>
          obtain ⟨m', out⟩ := p
          rw [hlist] at hadd
          obtain ⟨t', hheap, hbacked⟩ := hadd.of_some
          obtain ⟨hb, hcase⟩ := hw.hashAddItem_cases hlist
          rw [hheap]
          exact Option.Rel.some ⟨rfl, hw.adds hb hcase, hbacked⟩
  | delete b now destoryTime =>
      show Alike _ (if b < t.rounds then _ else none) (if b < m.ht.rounds then _ else none)
      rw [ht.represents.rounds_eq]
      by_cases hb : b < m.ht.rounds
      · obtain ⟨t', hrun, hbacked⟩ := deleteSessionHeap_alike hw ht hfuel hb now destoryTime
        rw [if_pos hb, if_pos hb, hrun, hw.deleteSession_eq hb]
        exact Option.Rel.some ⟨rfl, hw.swept hb now destoryTime, hbacked⟩
      · rw [if_neg hb, if_neg hb]
        exact Option.Rel.none

/-- **THE TABLE ON THE LINKS IS THE TABLE OF LISTS.**  From
    `init_signle_manager` on, in a memory that held anything, every run of
    insertions and sweeps takes the same branches with the same copies and
    flushes as the run on lists, is stuck at the same places, and ends in the
    memory of its manager. -/
theorem heapRun_alike (cfg : Config) {fuel : Nat} (hfuel : cfg.poolSize < fuel) (i n : Nat)
    (hashLength : Int32) (memory : HeapManager) (calls : List TableCall) :
    Alike (HeapInv cfg)
      ((initSignleManagerHeap cfg i n hashLength memory).bind
        (fun t => (heapTable cfg fuel).run t calls))
      ((initSignleManager cfg i n hashLength memory.item).bind
        (fun m => (table cfg).run m calls)) := by
  have hinit := initSignleManagerHeap_alike cfg i n hashLength memory
  cases hm : initSignleManager cfg i n hashLength memory.item with
  | none =>
      rw [hm] at hinit
      generalize initSignleManagerHeap cfg i n hashLength memory = o at hinit
      cases hinit
      exact Option.Rel.none
  | some m =>
      rw [hm] at hinit
      generalize initSignleManagerHeap cfg i n hashLength memory = o at hinit
      cases hinit with
      | some hbacked =>
          exact bisimulation _ _ (HeapInv cfg)
            (fun _ _ call _ h => heapStep_alike hfuel h call)
            ⟨(wellFormed_initSignleManager hm).1, hbacked⟩

/-- A first flow, in a memory that held another table. -/
theorem firstFlow_onHeap :
    ∃ t, (initSignleManagerHeap (sourceConfig 65536 1000) 0 1 1 oneSessionHeap).bind
        (fun t => (heapTable (sourceConfig 65536 1000) 65537).run t [.add 0 blankFlow 5])
        = some (t, [some (.created ⟨0, 0, 0, 65536⟩)])
      ∧ ∃ m, HeapInv (sourceConfig 65536 1000) t m := by
  obtain ⟨m, hcreate, _⟩ := freshManager_create 65536 1000 0 0 blankFlow 5
  have hrun := (table (sourceConfig 65536 1000)).run_singleton (tableStep_add hcreate)
  have halike := heapRun_alike (sourceConfig 65536 1000) (show 2 ^ managerPool < 65537 by decide) 0 1
    1 oneSessionHeap [.add 0 blankFlow 5]
  rw [show oneSessionHeap.item = fun _ => blankItem from rfl, initSignleManager_fresh,
    Option.bind_some, hrun] at halike
  obtain ⟨t, hheap, hinv⟩ := halike.of_some
  exact ⟨t, hheap, m, hinv⟩

end Runs

end FreePacket.Session
