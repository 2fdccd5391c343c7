/-
  FreePacket.Session.Table
  ────────────────────────
  **WHAT ONE TABLE OPERATION DOES to a well-formed manager.**

  `WellFormed` is the invariant of a manager between two bucket operations:
  every session node is counted once over the pool and all buckets, every
  bucket's counter is the length of its list, and every linked node names its
  manager's pool.

  Main results:
    * `hashAddItem_cases` — the three things `hash_add_item` can do.
    * `deleteSession_eq` — the expiry of one bucket is a filter of its list,
      and never spins.
    * `wellFormed_initSignleManager`, `WellFormed.adds`, `WellFormed.swept` —
      the invariant holds at the start and is kept.
-/
import FreePacket.Lib.Tally
import FreePacket.Session.Hash

namespace FreePacket.Session

open FreePacket.Lib FreePacket.Packet

/-! ## §1. Sessions and flows are compared by key. -/

/-- The five fields `compare_session` looks at. -/
def SessionItem.key (item : SessionItem) : Key :=
  { protocol := item.protocol, upperIp := item.upperIp, lowerIp := item.lowerIp
    upperPort := item.upperPort, lowerPort := item.lowerPort }

theorem compareSession_eq_zero_iff (item : SessionItem) (flow : FlowItem) :
    compareSession item flow = 0 ↔ item.key = flow.key := by
  simp only [compareSession, SessionItem.key, FlowItem.key, Key.mk.injEq]
  split <;> simp_all

@[simp] theorem makeNewSession_key (cfg : Config) (blist : Blist) (flow : FlowItem)
    (manager : Nat) (now : UInt64) :
    (makeNewSession cfg blist flow manager now).item.key = flow.key := rfl

@[simp] theorem makeNewSession_addr (cfg : Config) (blist : Blist) (flow : FlowItem)
    (manager : Nat) (now : UInt64) :
    (makeNewSession cfg blist flow manager now).addr = blist.addr := rfl

@[simp] theorem appendSession_key (blist : Blist) (flow : FlowItem) (now : UInt64) :
    (appendSession blist flow now).item.key = blist.item.key := rfl

@[simp] theorem appendSession_addr (blist : Blist) (flow : FlowItem) (now : UInt64) :
    (appendSession blist flow now).addr = blist.addr := rfl

/-- The search fails when no node of the list carries the flow's key. -/
theorem findList_eq_none_iff (ll : List Blist) (flow : FlowItem) :
    findList ll flow = none ↔ ∀ node ∈ ll, node.item.key ≠ flow.key := by
  induction ll with
  | nil => simp [findList]
  | cons node rest ih =>
      simp only [findList, List.forall_mem_cons, compareSession_eq_zero_iff]
      by_cases hk : node.item.key = flow.key
      · simp [hk]
      · simp [hk, ih]

/-- The search stops at the first node that carries the flow's key. -/
theorem findList_eq_some {ll : List Blist} {flow : FlowItem} {node : Blist}
    (h : findList ll flow = some node) :
    node.item.key = flow.key
      ∧ ∃ pre post, ll = pre ++ node :: post ∧ ∀ x ∈ pre, x.item.key ≠ flow.key := by
  induction ll with
  | nil => exact absurd h (by simp [findList])
  | cons head rest ih =>
      simp only [findList, compareSession_eq_zero_iff] at h
      by_cases hk : head.item.key = flow.key
      · rw [if_pos hk] at h
        obtain rfl := Option.some.inj h
        exact ⟨hk, [], rest, rfl, by simp⟩
      · rw [if_neg hk] at h
        obtain ⟨hkey, pre, post, rfl, hpre⟩ := ih h
        refine ⟨hkey, head :: pre, post, rfl, ?_⟩
        intro x hx
        rcases List.mem_cons.mp hx with hx | hx
        · rw [hx]
          exact hk
        · exact hpre x hx

/-! ## §2. Writes through a node pointer. -/

theorem mem_of_split {l pre post : List Blist} {node : Blist} (h : l = pre ++ node :: post) :
    node ∈ l := by
  rw [h]
  exact List.mem_append_right _ List.mem_cons_self

/-- The address of a node occurs once in a list that is about to be split there. -/
theorem addr_notMem_of_nodup {pre post : List Blist} {node : Blist}
    (h : ((pre ++ node :: post).map Blist.addr).Nodup) :
    (∀ x ∈ pre, x.addr ≠ node.addr) ∧ ∀ x ∈ post, x.addr ≠ node.addr := by
  simp only [List.map_append, List.map_cons, List.nodup_append, List.nodup_cons, List.mem_map,
    List.mem_cons] at h
  obtain ⟨_, ⟨hpost, _⟩, hpre⟩ := h
  refine ⟨?_, ?_⟩
  · intro x hx
    exact hpre x.addr ⟨x, hx, rfl⟩ node.addr (Or.inl rfl)
  · intro x hx heq
    exact hpost ⟨x, hx, heq⟩

/-- A store changes the one node of that address, in its place. -/
theorem store_list {bucket : Bucket} {pre post : List Blist} {node node' : Blist}
    (hlist : bucket.list = pre ++ node :: post) (hnd : (bucket.list.map Blist.addr).Nodup)
    (haddr : node'.addr = node.addr) :
    (bucket.store node').list = pre ++ node' :: post := by
  rw [hlist] at hnd
  obtain ⟨hpre, hpost⟩ := addr_notMem_of_nodup hnd
  have hkeep : ∀ l : List Blist, (∀ x ∈ l, x.addr ≠ node.addr) →
      l.map (fun n => if n.addr = node'.addr then node' else n) = l := by
    intro l hl
    rw [List.map_congr_left (fun x hx => if_neg (by rw [haddr]; exact hl x hx)), List.map_id']
  unfold Bucket.store
  rw [hlist, List.map_append, List.map_cons, hkeep pre hpre, hkeep post hpost,
    if_pos haddr.symm]

/-- An unlinked node leaves its list, the others stay in order. -/
theorem unlink_list {bucket : Bucket} {pre post : List Blist} {node : Blist}
    (hlist : bucket.list = pre ++ node :: post) (hnd : (bucket.list.map Blist.addr).Nodup) :
    (bucket.unlink node).list = pre ++ post := by
  rw [hlist] at hnd
  obtain ⟨hpre, _⟩ := addr_notMem_of_nodup hnd
  unfold Bucket.unlink
  rw [hlist, List.eraseP_append_right _ (by
      intro x hx
      simpa using hpre x hx), List.eraseP_cons_of_pos (by simp)]

/-! ## §3. Reading a changed manager. -/

@[simp] theorem bucket_setBucket_self (m : Manager) (b : Nat) (bucket : Bucket) :
    (m.setBucket b bucket).bucket b = bucket := Function.update_self ..

theorem bucket_setBucket_of_ne (m : Manager) {b c : Nat} (bucket : Bucket) (h : c ≠ b) :
    (m.setBucket b bucket).bucket c = m.bucket c := Function.update_of_ne h ..

@[simp] theorem setBucket_index (m : Manager) (b : Nat) (bucket : Bucket) :
    (m.setBucket b bucket).index = m.index := rfl

@[simp] theorem setBucket_sessionPool (m : Manager) (b : Nat) (bucket : Bucket) :
    (m.setBucket b bucket).sessionPool = m.sessionPool := rfl

@[simp] theorem setBucket_rounds (m : Manager) (b : Nat) (bucket : Bucket) :
    (m.setBucket b bucket).ht.rounds = m.ht.rounds := rfl

@[simp] theorem setBucket_size (m : Manager) (b : Nat) (bucket : Bucket) :
    (m.setBucket b bucket).ht.size = m.ht.size := rfl

/-- The lists of a manager's buckets, in a row. -/
def Manager.lists (m : Manager) : Nat → List Blist := fun b => (m.bucket b).list

theorem lists_setBucket (m : Manager) (b : Nat) (bucket : Bucket) :
    (m.setBucket b bucket).lists = Function.update m.lists b bucket.list := by
  funext c
  by_cases hc : c = b
  · rw [hc, Function.update_self]
    show ((m.setBucket b bucket).bucket b).list = bucket.list
    rw [bucket_setBucket_self]
  · rw [Function.update_of_ne hc]
    show ((m.setBucket b bucket).bucket c).list = (m.bucket c).list
    rw [bucket_setBucket_of_ne m bucket hc]

/-! ## §4. The invariant. -/

/-- How many nodes with a property of their address a manager has, in its
    pool and in all its buckets. -/
def Manager.tally (m : Manager) (p : Nat → Bool) : Nat :=
  m.sessionPool.countP (fun node => p node.addr)
    + total m.ht.rounds m.lists (fun node => p node.addr)

/-- **The invariant of a manager** with `N` session nodes. -/
structure WellFormed (N : Nat) (m : Manager) : Prop where
  /-- Each of the `N` nodes is in one place, and there are no others. -/
  once : ∀ a, m.tally (fun c => c == a) = if a < N then 1 else 0
  /-- There are `N` nodes. -/
  whole : m.tally (fun _ => true) = N
  /-- Each bucket counts its list. -/
  counts : ∀ b < m.ht.rounds, (m.bucket b).count = UInt32.ofNat (m.bucket b).list.length
  /-- A linked node goes back to its own manager. -/
  owned : ∀ b < m.ht.rounds, ∀ node ∈ (m.bucket b).list, node.item.pool = m.index

/-- Replacing the pool and one bucket: what leaves and what enters the tally. -/
theorem tally_setBucket {m : Manager} {b : Nat} (hb : b < m.ht.rounds) (pool : List Blist)
    (bucket : Bucket) (p : Nat → Bool) :
    (({ m with sessionPool := pool }).setBucket b bucket).tally p
        + (m.sessionPool.countP (fun node => p node.addr)
          + (m.bucket b).list.countP (fun node => p node.addr))
      = m.tally p + (pool.countP (fun node => p node.addr)
          + bucket.list.countP (fun node => p node.addr)) := by
  have hupd := total_update hb m.lists bucket.list (fun node => p node.addr)
  have hlists : (({ m with sessionPool := pool }).setBucket b bucket).lists
      = Function.update m.lists b bucket.list := lists_setBucket { m with sessionPool := pool } b bucket
  have hself : (m.lists b).countP (fun node => p node.addr)
      = (m.bucket b).list.countP (fun node => p node.addr) := rfl
  unfold Manager.tally
  rw [hlists]
  simp only [setBucket_rounds, setBucket_sessionPool]
  omega

section Invariant

variable {N : Nat} {m : Manager}

/-- The pool and one bucket are part of the tally. -/
theorem countP_le_tally (m : Manager) {b : Nat} (hb : b < m.ht.rounds) (p : Nat → Bool) :
    m.sessionPool.countP (fun node => p node.addr)
      + (m.bucket b).list.countP (fun node => p node.addr) ≤ m.tally p :=
  Nat.add_le_add_left (countP_le_total hb m.lists (fun node => p node.addr)) _

/-- Addresses do not repeat inside a bucket. -/
theorem WellFormed.addr_nodup (hw : WellFormed N m) {b : Nat} (hb : b < m.ht.rounds) :
    ((m.bucket b).list.map Blist.addr).Nodup := by
  rw [List.nodup_iff_count_le_one]
  intro a
  have honce := hw.once a
  have hle := countP_le_tally m hb (fun c => c == a)
  rw [List.count, List.countP_map]
  -- the list is part of the tally, which counts every address at most once
  show (m.bucket b).list.countP (fun node => node.addr == a) ≤ 1
  split at honce <;> omega

/-- The node a list is split at has an address of its own. -/
theorem WellFormed.addr_ne_of_split (hw : WellFormed N m) {b : Nat} (hb : b < m.ht.rounds)
    {pre post : List Blist} {node : Blist} (hlist : (m.bucket b).list = pre ++ node :: post) :
    (∀ x ∈ pre, x.addr ≠ node.addr) ∧ ∀ x ∈ post, x.addr ≠ node.addr := by
  have hnd := hw.addr_nodup hb
  rw [hlist] at hnd
  exact addr_notMem_of_nodup hnd

/-- **While a node is linked the pool is not full.** -/
theorem WellFormed.pool_lt (hw : WellFormed N m) {b : Nat} (hb : b < m.ht.rounds) {node : Blist}
    (hmem : node ∈ (m.bucket b).list) : m.sessionPool.length < N := by
  have hwhole := hw.whole
  have hle := countP_le_tally m hb (fun _ => true)
  have hpos := List.length_pos_of_mem hmem
  simp only [List.countP_true] at hle
  omega

/-- The manager after `node` went from bucket `b` back to the pool. -/
def Manager.removed (m : Manager) (b : Nat) (node : Blist) (rest : List Blist) : Manager :=
  ({ m with sessionPool := m.sessionPool ++ [node] }).setBucket b
    { list := rest, count := (m.bucket b).count - 1 }

/-- **Removal never spins**: a linked node is unlinked and finds room in its pool. -/
theorem WellFormed.remove_eq {cfg : Config} (hw : WellFormed cfg.poolSize m) {b : Nat}
    (hb : b < m.ht.rounds) {pre post : List Blist} {node : Blist}
    (hlist : (m.bucket b).list = pre ++ node :: post) :
    m.remove cfg b node = some (m.removed b node (pre ++ post)) := by
  have hmem : node ∈ (m.bucket b).list := mem_of_split hlist
  have hroom : m.sessionPool.length + [node].length ≤ cfg.poolSize := hw.pool_lt hb hmem
  have hunlink : (m.bucket b).unlink node
      = { list := pre ++ post, count := (m.bucket b).count - 1 } := by
    rw [← unlink_list hlist (hw.addr_nodup hb)]
    rfl
  unfold Manager.remove Manager.release
  rw [hunlink, setBucket_index, if_pos (hw.owned b hb node hmem), setBucket_sessionPool,
    Fifo.push_of_le hroom]
  rfl

/-! ## §5. Elementary changes keep the invariant. -/

/-- A change of the pool and one bucket keeps the invariant when it moves
    nodes without making or losing any, and the bucket's new counter and
    owners are right. -/
theorem WellFormed.setBucket (hw : WellFormed N m) {b : Nat} (hb : b < m.ht.rounds)
    {pool : List Blist} {bucket : Bucket}
    (hmove : ((pool ++ bucket.list).map Blist.addr).Perm
      ((m.sessionPool ++ (m.bucket b).list).map Blist.addr))
    (hcount : bucket.count = UInt32.ofNat bucket.list.length)
    (howned : ∀ node ∈ bucket.list, node.item.pool = m.index) :
    WellFormed N (({ m with sessionPool := pool }).setBucket b bucket) := by
  -- moving nodes between the pool and the bucket is a permutation, so no count changes
  have htally : ∀ p : Nat → Bool,
      (({ m with sessionPool := pool }).setBucket b bucket).tally p = m.tally p := by
    intro p
    have hset := tally_setBucket hb pool bucket p
    have hperm := hmove.countP_eq p
    rw [List.countP_map, List.countP_map, List.countP_append, List.countP_append] at hperm
    simp only [Function.comp_def] at hperm
    omega
  refine ⟨?_, ?_, ?_, ?_⟩
  · intro a
    rw [htally]
    exact hw.once a
  · rw [htally]
    exact hw.whole
  · intro c hc
    by_cases hcb : c = b
    · rw [hcb, bucket_setBucket_self]
      exact hcount
    · rw [bucket_setBucket_of_ne _ _ hcb]
      exact hw.counts c hc
  · intro c hc node hnode
    by_cases hcb : c = b
    · rw [hcb, bucket_setBucket_self] at hnode
      exact howned node hnode
    · rw [bucket_setBucket_of_ne _ _ hcb] at hnode
      exact hw.owned c hc node hnode

theorem WellFormed.removed (hw : WellFormed N m) {b : Nat} (hb : b < m.ht.rounds)
    {pre post : List Blist} {node : Blist} (hlist : (m.bucket b).list = pre ++ node :: post) :
    WellFormed N (m.removed b node (pre ++ post)) := by
  refine hw.setBucket hb ?_ ?_ ?_
  · rw [hlist, List.append_assoc]
    show ((m.sessionPool ++ node :: (pre ++ post)).map Blist.addr).Perm _
    exact ((List.perm_middle.symm).append_left m.sessionPool).map Blist.addr
  · show (m.bucket b).count - 1 = UInt32.ofNat (pre ++ post).length
    rw [hw.counts b hb, hlist, List.length_append, List.length_append, List.length_cons,
      ← Nat.add_assoc, UInt32.ofNat_add]
    simp
  · intro x hx
    refine hw.owned b hb x ?_
    rw [hlist]
    simp only [List.mem_append, List.mem_cons] at hx ⊢
    tauto

/-! ## §6. `hash_add_item`. -/

/-- **What `hash_add_item` can do** with a flow in bucket `b`: link a fresh
    session, append to the first session of the flow's key, or flush it. -/
inductive Adds (cfg : Config) (m : Manager) (b : Nat) (flow : FlowItem) (now : UInt64) :
    Manager → Outcome → Prop where
  | created {fresh : Blist} {pool : List Blist} :
      m.sessionPool = fresh :: pool →
      (∀ node ∈ (m.bucket b).list, node.item.key ≠ flow.key) →
      Adds cfg m b flow now
        (({ m with sessionPool := pool }).setBucket b
          ((m.bucket b).link (makeNewSession cfg fresh flow m.index now)))
        (.created ⟨fresh.addr, 0, flow.payloadLen, cfg.managerBufferSize.toUInt32⟩)
  | appended {pre post : List Blist} {node : Blist} :
      findList (m.bucket b).list flow = some node →
      (m.bucket b).list = pre ++ node :: post → node.item.key = flow.key →
      node.item.curLen + flow.payloadLen < node.item.length →
      Adds cfg m b flow now
        (m.setBucket b { list := pre ++ appendSession node flow now :: post
                         count := (m.bucket b).count })
        (.appended ⟨node.addr, node.item.curLen, flow.payloadLen, node.item.length⟩)
  | flushed {pre post : List Blist} {node : Blist} :
      findList (m.bucket b).list flow = some node →
      (m.bucket b).list = pre ++ node :: post → node.item.key = flow.key →
      ¬ node.item.curLen + flow.payloadLen < node.item.length →
      Adds cfg m b flow now (m.removed b node (pre ++ post))
        (.flushed node.addr (flushBytes node.item))

/-- `hash_add_item` leaves the other buckets and the size of the table alone. -/
theorem Adds.frame {cfg : Config} {b : Nat} {flow : FlowItem} {now : UInt64} {m' : Manager}
    {out : Outcome} (h : Adds cfg m b flow now m' out) :
    m'.ht.size = m.ht.size ∧ m'.ht.rounds = m.ht.rounds
      ∧ ∀ c, c ≠ b → m'.bucket c = m.bucket c := by
  cases h with
  | created _ _ => exact ⟨rfl, rfl, fun c hc => bucket_setBucket_of_ne _ _ hc⟩
  | appended _ _ _ _ => exact ⟨rfl, rfl, fun c hc => bucket_setBucket_of_ne _ _ hc⟩
  | flushed _ _ _ _ => exact ⟨rfl, rfl, fun c hc => bucket_setBucket_of_ne _ _ hc⟩

/-- A table with a positive number of buckets has the bucket of every key. -/
theorem slot_lt (m : Manager) (hpos : 0 < m.ht.numBuckets.toInt) (key : UInt32) :
    m.slot key < m.ht.rounds := by
  have hsize : m.ht.size.toNat = m.ht.rounds :=
    Int32.toNat_toUInt32_of_le (Int32.le_iff_toInt_le.mpr (Int.le_of_lt hpos))
  have hrounds : 0 < m.ht.rounds := by
    unfold HashTable.rounds
    omega
  unfold Manager.slot
  rw [UInt32.toNat_mod, hsize]
  exact Nat.mod_lt _ hrounds

/-- The create branch, forward. -/
theorem hashAddItem_create {cfg : Config} {key : UInt32} {flow : FlowItem} {now : UInt64}
    (hb : m.slot key < m.ht.rounds) (hfind : findList (m.bucket (m.slot key)).list flow = none)
    {fresh : Blist} {pool : List Blist} (hpool : m.sessionPool = fresh :: pool) :
    hashAddItem cfg m key flow now
      = some (({ m with sessionPool := pool }).setBucket (m.slot key)
            ((m.bucket (m.slot key)).link (makeNewSession cfg fresh flow m.index now)),
          .created ⟨fresh.addr, 0, flow.payloadLen, cfg.managerBufferSize.toUInt32⟩) := by
  unfold hashAddItem
  rw [if_pos hb, hfind, hpool]
  rfl

/-- The append branch, forward. -/
theorem hashAddItem_append {cfg : Config} {key : UInt32} {flow : FlowItem} {now : UInt64}
    (hb : m.slot key < m.ht.rounds) {node : Blist}
    (hfind : findList (m.bucket (m.slot key)).list flow = some node)
    (hfit : node.item.curLen + flow.payloadLen < node.item.length) :
    hashAddItem cfg m key flow now
      = some (m.setBucket (m.slot key)
            ((m.bucket (m.slot key)).store (appendSession node flow now)),
          .appended ⟨node.addr, node.item.curLen, flow.payloadLen, node.item.length⟩) := by
  unfold hashAddItem
  rw [if_pos hb, hfind]
  exact if_pos hfit

/-- The flush branch, forward. -/
theorem hashAddItem_flush {cfg : Config} {key : UInt32} {flow : FlowItem} {now : UInt64}
    (hb : m.slot key < m.ht.rounds) {node : Blist}
    (hfind : findList (m.bucket (m.slot key)).list flow = some node)
    (hfull : ¬ node.item.curLen + flow.payloadLen < node.item.length) :
    hashAddItem cfg m key flow now
      = (m.remove cfg (m.slot key) node).map
          (fun m' => (m', .flushed node.addr (flushBytes node.item))) := by
  unfold hashAddItem
  rw [if_pos hb, hfind]
  exact if_neg hfull

/-- **One call of `hash_add_item`** is one of the three changes. -/
theorem WellFormed.hashAddItem_cases {cfg : Config} (hw : WellFormed cfg.poolSize m)
    {key : UInt32} {flow : FlowItem} {now : UInt64} {m' : Manager} {out : Outcome}
    (h : hashAddItem cfg m key flow now = some (m', out)) :
    m.slot key < m.ht.rounds ∧ Adds cfg m (m.slot key) flow now m' out := by
  by_cases hb : m.slot key < m.ht.rounds
  swap
  · unfold hashAddItem at h
    rw [if_neg hb] at h
    exact absurd h (by simp)
  refine ⟨hb, ?_⟩
  cases hfind : findList (m.bucket (m.slot key)).list flow with
  | none =>
      cases hpool : m.sessionPool with
      | nil =>
          -- no session and none free: the call spins
          unfold hashAddItem at h
          rw [if_pos hb, hfind, hpool] at h
          exact absurd h (by simp [Fifo.take])
      | cons fresh pool =>
          rw [hashAddItem_create hb hfind hpool] at h
          simp only [Option.some.injEq, Prod.mk.injEq] at h
          rw [← h.1, ← h.2]
          exact Adds.created hpool ((findList_eq_none_iff _ _).mp hfind)
  | some blist =>
      obtain ⟨hkey, pre, post, hlist, _⟩ := findList_eq_some hfind
      by_cases hfit : blist.item.curLen + flow.payloadLen < blist.item.length
      · -- the store through the found node is a replacement in its place
        have hstore : (m.bucket (m.slot key)).store (appendSession blist flow now)
            = { list := pre ++ appendSession blist flow now :: post
                count := (m.bucket (m.slot key)).count } := by
          rw [← store_list hlist (hw.addr_nodup hb) (appendSession_addr blist flow now)]
          rfl
        rw [hashAddItem_append hb hfind hfit, hstore] at h
        simp only [Option.some.injEq, Prod.mk.injEq] at h
        rw [← h.1, ← h.2]
        exact Adds.appended hfind hlist hkey hfit
      · rw [hashAddItem_flush hb hfind hfit, hw.remove_eq hb hlist] at h
        simp only [Option.map_some, Option.some.injEq, Prod.mk.injEq] at h
        rw [← h.1, ← h.2]
        exact Adds.flushed hfind hlist hkey hfit

/-- **`hash_add_item` spins only for a free session**: with a bucket for the
    key it is stuck only where it needs a session and finds the pool empty. -/
theorem WellFormed.hashAddItem_eq_none {cfg : Config} (hw : WellFormed cfg.poolSize m)
    {key : UInt32} (hb : m.slot key < m.ht.rounds) {flow : FlowItem} {now : UInt64}
    (h : hashAddItem cfg m key flow now = none) :
    m.sessionPool = [] ∧ ∀ node ∈ (m.bucket (m.slot key)).list, node.item.key ≠ flow.key := by
  cases hfind : findList (m.bucket (m.slot key)).list flow with
  | none =>
      refine ⟨?_, (findList_eq_none_iff _ _).mp hfind⟩
      cases hpool : m.sessionPool with
      | nil => rfl
      | cons fresh pool =>
          rw [hashAddItem_create hb hfind hpool] at h
          exact absurd h (by simp)
  | some blist =>
      obtain ⟨_, pre, post, hlist, _⟩ := findList_eq_some hfind
      by_cases hfit : blist.item.curLen + flow.payloadLen < blist.item.length
      · rw [hashAddItem_append hb hfind hfit] at h
        exact absurd h (by simp)
      · rw [hashAddItem_flush hb hfind hfit, hw.remove_eq hb hlist] at h
        exact absurd h (by simp)

/-- **The three changes keep the invariant.** -/
theorem WellFormed.adds {cfg : Config} (hw : WellFormed N m) {b : Nat} (hb : b < m.ht.rounds)
    {flow : FlowItem} {now : UInt64} {m' : Manager} {out : Outcome}
    (h : Adds cfg m b flow now m' out) : WellFormed N m' := by
  cases h with
  | @created fresh pool hpool _ =>
      refine hw.setBucket hb ?_ ?_ ?_
      · -- the head of the pool becomes the tail of the list
        rw [hpool]
        show ((pool ++ ((m.bucket b).list ++ [_])).map Blist.addr).Perm _
        rw [← List.append_assoc, List.map_append, List.map_singleton, makeNewSession_addr]
        exact List.perm_append_singleton _ _
      · show (m.bucket b).count + 1 = UInt32.ofNat ((m.bucket b).list ++ [_]).length
        rw [hw.counts b hb, List.length_append, UInt32.ofNat_add]
        rfl
      · intro node hnode
        rcases List.mem_append.mp hnode with hnode | hnode
        · exact hw.owned b hb node hnode
        · rw [List.mem_singleton.mp hnode]
          rfl
  | @appended pre post node _ hlist _ _ =>
      refine hw.setBucket hb ?_ ?_ ?_
      · -- an append writes through the node and moves nothing
        rw [hlist]
        simp only [List.map_append, List.map_cons, appendSession_addr]
        exact List.Perm.refl _
      · show (m.bucket b).count = UInt32.ofNat (pre ++ _ :: post).length
        rw [hw.counts b hb, hlist, List.length_append, List.length_append, List.length_cons,
          List.length_cons]
      · intro x hx
        have hold : ∀ y ∈ pre ++ node :: post, y.item.pool = m.index := by
          rw [← hlist]
          exact hw.owned b hb
        rcases List.mem_append.mp hx with hx | hx
        · exact hold x (List.mem_append_left _ hx)
        · rcases List.mem_cons.mp hx with hx | hx
          · rw [hx]
            exact hold node (List.mem_append_right _ List.mem_cons_self)
          · exact hold x (List.mem_append_right _ (List.mem_cons_of_mem _ hx))
  -- the flush is the one case where a node goes back
  | flushed _ hlist _ _ => exact hw.removed hb hlist

/-- The node a call created or appended to, as the call left it. -/
def Touched (cfg : Config) (m : Manager) (b : Nat) (flow : FlowItem) (now : UInt64)
    (x : Blist) (out : Outcome) : Prop :=
  (∃ fresh : Blist, x = makeNewSession cfg fresh flow m.index now
      ∧ out = .created ⟨fresh.addr, 0, flow.payloadLen, cfg.managerBufferSize.toUInt32⟩)
    ∨ ∃ node ∈ (m.bucket b).list, node.item.key = flow.key
      ∧ node.item.curLen + flow.payloadLen < node.item.length ∧ x = appendSession node flow now
      ∧ out = .appended ⟨node.addr, node.item.curLen, flow.payloadLen, node.item.length⟩

/-- The node of a call carries the flow's key. -/
theorem Touched.key_eq {cfg : Config} {b : Nat} {flow : FlowItem} {now : UInt64} {x : Blist}
    {out : Outcome} (h : Touched cfg m b flow now x out) : x.item.key = flow.key := by
  rcases h with ⟨fresh, hx, _⟩ | ⟨node, _, hkey, _, hx, _⟩
  · rw [hx, makeNewSession_key]
  · rw [hx, appendSession_key, hkey]

/-- A free node is not linked. -/
theorem WellFormed.addr_ne_of_pool (hw : WellFormed N m) {b : Nat} (hb : b < m.ht.rounds)
    {x y : Blist} (hx : x ∈ m.sessionPool) (hy : y ∈ (m.bucket b).list) : y.addr ≠ x.addr := by
  intro heq
  -- linked and free at once, its address would be counted twice
  have hle := countP_le_tally m hb (fun c => c == x.addr)
  have hpool : 0 < m.sessionPool.countP (fun node => node.addr == x.addr) :=
    List.countP_pos_iff.mpr ⟨x, hx, beq_self_eq_true _⟩
  have hlist : 0 < (m.bucket b).list.countP (fun node => node.addr == x.addr) :=
    List.countP_pos_iff.mpr ⟨y, hy, by rw [heq]; exact beq_self_eq_true _⟩
  rw [hw.once] at hle
  split at hle <;> omega

/-- A node is linked in one bucket. -/
theorem WellFormed.bucket_unique (hw : WellFormed N m) {b c : Nat} (hb : b < m.ht.rounds)
    (hc : c < m.ht.rounds) {x y : Blist} (hx : x ∈ (m.bucket b).list)
    (hy : y ∈ (m.bucket c).list) (haddr : y.addr = x.addr) : c = b := by
  -- in two buckets its address would be counted twice
  by_contra hne
  have hle := countP_add_countP_le_total hb hc (Ne.symm hne) m.lists
    (fun node => node.addr == x.addr)
  have hlistb : 0 < (m.lists b).countP (fun node => node.addr == x.addr) :=
    List.countP_pos_iff.mpr ⟨x, hx, beq_self_eq_true _⟩
  have hlistc : 0 < (m.lists c).countP (fun node => node.addr == x.addr) :=
    List.countP_pos_iff.mpr ⟨y, hy, by rw [haddr]; exact beq_self_eq_true _⟩
  have htally : total m.ht.rounds m.lists (fun node => node.addr == x.addr)
      ≤ m.tally (fun c => c == x.addr) := Nat.le_add_left _ _
  rw [hw.once] at htally
  split at htally <;> omega

/-- **The frame of a call**: a node linked afterwards was linked before and is
    not the node of the call, or it is the node the call created or wrote. -/
theorem WellFormed.adds_mem (hw : WellFormed N m) {cfg : Config} {b : Nat}
    (hb : b < m.ht.rounds) {flow : FlowItem} {now : UInt64} {m' : Manager} {out : Outcome}
    (h : Adds cfg m b flow now m' out) {c : Nat} (hc : c < m.ht.rounds) {x : Blist}
    (hx : x ∈ (m'.bucket c).list) :
    (x ∈ (m.bucket c).list ∧ x.addr ≠ out.addr)
      ∨ (c = b ∧ x.addr = out.addr ∧ Touched cfg m b flow now x out) := by
  cases h with
  | @created fresh pool hpool _ =>
      -- a node of the pool is linked nowhere, so no linked node has its address
      have hfresh : fresh ∈ m.sessionPool := by
        rw [hpool]
        exact List.mem_cons_self
      by_cases hcb : c = b
      · rw [hcb, bucket_setBucket_self] at hx
        rcases List.mem_append.mp hx with hx | hx
        · rw [hcb]
          exact Or.inl ⟨hx, hw.addr_ne_of_pool hb hfresh hx⟩
        · rw [List.mem_singleton.mp hx]
          exact Or.inr ⟨hcb, rfl, Or.inl ⟨fresh, rfl, rfl⟩⟩
      · rw [bucket_setBucket_of_ne _ _ hcb] at hx
        exact Or.inl ⟨hx, hw.addr_ne_of_pool hc hfresh hx⟩
  | @appended pre post node _ hlist hkey hfit =>
      have hnode : node ∈ (m.bucket b).list := mem_of_split hlist
      obtain ⟨hpre, hpost⟩ := hw.addr_ne_of_split hb hlist
      by_cases hcb : c = b
      · rw [hcb, bucket_setBucket_self] at hx
        rw [hcb, hlist]
        rcases List.mem_append.mp hx with hx | hx
        · exact Or.inl ⟨List.mem_append_left _ hx, hpre x hx⟩
        · rcases List.mem_cons.mp hx with hx | hx
          · rw [hx]
            exact Or.inr ⟨rfl, rfl, Or.inr ⟨node, hnode, hkey, hfit, rfl, rfl⟩⟩
          · exact Or.inl ⟨List.mem_append_right _ (List.mem_cons_of_mem _ hx), hpost x hx⟩
      · -- a node is linked in one bucket only
        rw [bucket_setBucket_of_ne _ _ hcb] at hx
        exact Or.inl ⟨hx, fun haddr => hcb (hw.bucket_unique hb hc hnode hx haddr)⟩
  | @flushed pre post node _ hlist _ _ =>
      have hnode : node ∈ (m.bucket b).list := mem_of_split hlist
      obtain ⟨hpre, hpost⟩ := hw.addr_ne_of_split hb hlist
      unfold Manager.removed at hx
      by_cases hcb : c = b
      · rw [hcb, bucket_setBucket_self] at hx
        rw [hcb, hlist]
        rcases List.mem_append.mp hx with hx | hx
        · exact Or.inl ⟨List.mem_append_left _ hx, hpre x hx⟩
        · exact Or.inl ⟨List.mem_append_right _ (List.mem_cons_of_mem _ hx), hpost x hx⟩
      · rw [bucket_setBucket_of_ne _ _ hcb] at hx
        exact Or.inl ⟨hx, fun haddr => hcb (hw.bucket_unique hb hc hnode hx haddr)⟩

/-! ## §7. `delete_session`. -/

/-- The test of `delete_session`. -/
def expired (cfg : Config) (now : UInt64) (destoryTime : Int32) (node : Blist) : Bool :=
  now - node.item.lastTime > lifetime cfg destoryTime

/-- The bucket and the pool after the expiry of bucket `b`. -/
def Manager.swept (cfg : Config) (m : Manager) (b : Nat) (now : UInt64) (destoryTime : Int32) :
    Manager :=
  ({ m with sessionPool :=
      m.sessionPool ++ (m.bucket b).list.filter (expired cfg now destoryTime) }).setBucket b
    { list := (m.bucket b).list.filter (fun node => !expired cfg now destoryTime node)
      count := (m.bucket b).count
        - UInt32.ofNat ((m.bucket b).list.countP (expired cfg now destoryTime)) }

/-- The loop from a cursor on: the nodes before it have survived. -/
theorem WellFormed.deleteLoop_eq {cfg : Config} {b : Nat} {now : UInt64} {destoryTime : Int32}
    (hw : WellFormed cfg.poolSize m) (hb : b < m.ht.rounds) {kept rest : List Blist}
    (hlist : (m.bucket b).list = kept ++ rest) :
    deleteLoop cfg b now destoryTime rest m = some
      (({ m with sessionPool :=
          m.sessionPool ++ rest.filter (expired cfg now destoryTime) }).setBucket b
        { list := kept ++ rest.filter (fun node => !expired cfg now destoryTime node)
          count := (m.bucket b).count
            - UInt32.ofNat (rest.countP (expired cfg now destoryTime)) }) := by
  -- the table changes at every expired node, so the induction is over all tables
  induction rest generalizing m kept with
  | nil =>
      have hsame : (m.bucket b) = { list := kept, count := (m.bucket b).count } := by
        rw [List.append_nil] at hlist
        rw [← hlist]
      show some m = some (({ m with sessionPool := m.sessionPool ++ [] }).setBucket b _)
      rw [List.append_nil, List.filter_nil, List.append_nil, List.countP_nil]
      rw [show (m.bucket b).count - UInt32.ofNat 0 = (m.bucket b).count by simp, ← hsame]
      show some m = some { m with ht := { m.ht with buckets := Function.update m.ht.buckets b _ } }
      rw [show m.bucket b = m.ht.buckets b from rfl, Function.update_eq_self]
  | cons node next ih =>
      by_cases hexp : expired cfg now destoryTime node = true
      · -- expired: the node is removed, and the loop goes on from the saved `next`
        have hremove := hw.remove_eq hb hlist
        have hcursor : ((m.removed b node (kept ++ next)).bucket b).list = kept ++ next := by
          unfold Manager.removed
          rw [bucket_setBucket_self]
        have hloop := ih (hw.removed hb hlist) hb hcursor
        have hif : now - node.item.lastTime > lifetime cfg destoryTime := of_decide_eq_true hexp
        rw [deleteLoop, if_pos hif, hremove]
        simp only
        rw [hloop, List.filter_cons_of_pos hexp, List.filter_cons_of_neg (by simp [hexp]),
          List.countP_cons_of_pos hexp]
        unfold Manager.removed
        rw [bucket_setBucket_self]
        simp only [Manager.setBucket, Function.update_idem, List.append_assoc,
          List.singleton_append, UInt32.ofNat_add]
        rw [show (m.bucket b).count - 1 - UInt32.ofNat (next.countP (expired cfg now destoryTime))
            = (m.bucket b).count
              - (UInt32.ofNat (next.countP (expired cfg now destoryTime)) + UInt32.ofNat 1) by grind]
      · -- still alive: the node stays behind the cursor
        have hif : ¬ now - node.item.lastTime > lifetime cfg destoryTime := by
          intro h
          exact hexp (decide_eq_true h)
        have hcursor : (m.bucket b).list = (kept ++ [node]) ++ next := by
          rw [hlist, List.append_assoc, List.singleton_append]
        rw [deleteLoop, if_neg hif, ih hw hb hcursor,
          List.filter_cons_of_neg hexp, List.filter_cons_of_pos (by simp [hexp]),
          List.countP_cons_of_neg hexp]
        simp

/-- **The expiry of one bucket** never spins, sends the expired nodes to the
    pool in list order and keeps the others in place. -/
theorem WellFormed.deleteSession_eq {cfg : Config} (hw : WellFormed cfg.poolSize m) {b : Nat}
    (hb : b < m.ht.rounds) (now : UInt64) (destoryTime : Int32) :
    deleteSession cfg m b now destoryTime = some (m.swept cfg b now destoryTime) := by
  exact hw.deleteLoop_eq hb (List.nil_append _).symm

/-- A node linked after an expiry was linked before. -/
theorem swept_mem {cfg : Config} {b c : Nat} {now : UInt64} {destoryTime : Int32} {x : Blist}
    (hx : x ∈ ((m.swept cfg b now destoryTime).bucket c).list) : x ∈ (m.bucket c).list := by
  unfold Manager.swept at hx
  by_cases hcb : c = b
  · rw [hcb, bucket_setBucket_self] at hx
    rw [hcb]
    exact List.mem_of_mem_filter hx
  · rw [bucket_setBucket_of_ne _ _ hcb] at hx
    exact hx

theorem WellFormed.swept {cfg : Config} (hw : WellFormed N m) {b : Nat} (hb : b < m.ht.rounds)
    (now : UInt64) (destoryTime : Int32) : WellFormed N (m.swept cfg b now destoryTime) := by
  refine hw.setBucket hb ?_ ?_ ?_
  · rw [List.append_assoc]
    exact ((List.filter_append_perm (expired cfg now destoryTime)
      (m.bucket b).list).append_left m.sessionPool).map Blist.addr
  · show (m.bucket b).count - UInt32.ofNat _ = UInt32.ofNat _
    have hlen := List.length_eq_countP_add_countP (expired cfg now destoryTime)
      (l := (m.bucket b).list)
    rw [hw.counts b hb, hlen, UInt32.ofNat_add, ← List.countP_eq_length_filter,
      UInt32.add_comm, UInt32.add_sub_cancel]
    simp
  · intro x hx
    exact hw.owned b hb x (List.mem_of_mem_filter hx)

end Invariant

/-! ## §8. The initial table. -/

/-- The nodes of a fresh pool, by address. -/
theorem countP_garbage (garbage : Nat → SessionItem) (N : Nat) (p : Nat → Bool) :
    ((List.range N).map (fun j => Blist.mk j (garbage j))).countP (fun node => p node.addr)
      = (List.range N).countP p := by
  rw [List.countP_map]
  rfl

/-- What `hash_create` answers: a prime number of empty buckets, whose bytes
    are not negative. -/
theorem hashCreate_eq_some {fuel : Nat} {hashLength : Int32} {ht : HashTable}
    (h : hashCreate fuel hashLength = some ht) :
    nextPrime fuel hashLength = some ht.numBuckets ∧ ¬ hashBytes ht.numBuckets < 0
      ∧ ∀ b, ht.buckets b = { list := [], count := 0 } := by
  unfold hashCreate at h
  cases hprime : nextPrime fuel hashLength with
  | none =>
      rw [hprime] at h
      exact absurd h nofun
  | some num =>
      rw [hprime] at h
      by_cases hneg : hashBytes num < 0
      · simp only [if_pos hneg] at h
        exact absurd h nofun
      · simp only [if_neg hneg, Option.some.injEq] at h
        rw [← h]
        exact ⟨rfl, hneg, fun _ => rfl⟩

/-- What `init_signle_manager` leaves: such a table, and the pool of all nodes. -/
theorem initSignleManager_eq_some {cfg : Config} {i fuel : Nat} {hashLength : Int32}
    {garbage : Nat → SessionItem} {m : Manager}
    (h : initSignleManager cfg i fuel hashLength garbage = some m) :
    ∃ ht, hashCreate fuel hashLength = some ht
      ∧ m = { index := i, ht := ht
              sessionPool := (List.range cfg.poolSize).map (fun j => ⟨j, garbage j⟩) } := by
  unfold initSignleManager at h
  cases hcreate : hashCreate fuel hashLength with
  | none =>
      rw [hcreate] at h
      exact absurd h nofun
  | some ht =>
      rw [hcreate] at h
      exact ⟨ht, rfl, (Option.some.inj h).symm⟩

/-- **A fresh manager is well formed**, its buckets empty. -/
theorem wellFormed_initSignleManager {cfg : Config} {i fuel : Nat} {hashLength : Int32}
    {garbage : Nat → SessionItem} {m : Manager}
    (h : initSignleManager cfg i fuel hashLength garbage = some m) :
    WellFormed cfg.poolSize m ∧ m.index = i ∧ ∀ b, m.bucket b = { list := [], count := 0 } := by
  obtain ⟨ht, hcreate, rfl⟩ := initSignleManager_eq_some h
  obtain ⟨-, -, hempty⟩ := hashCreate_eq_some hcreate
  -- the lists are empty, so the tally is that of the pool
  have htally : ∀ p : Nat → Bool,
      Manager.tally ⟨i, ht, (List.range cfg.poolSize).map (fun j => ⟨j, garbage j⟩)⟩ p
        = (List.range cfg.poolSize).countP p := by
    intro p
    have hlists : Manager.lists
        ⟨i, ht, (List.range cfg.poolSize).map (fun j => ⟨j, garbage j⟩)⟩ = fun _ => [] := by
      funext b
      show (ht.buckets b).list = []
      rw [hempty]
    unfold Manager.tally
    rw [hlists, total_nil, countP_garbage, Nat.add_zero]
  refine ⟨⟨?_, ?_, ?_, ?_⟩, rfl, hempty⟩
  · intro a
    rw [htally]
    show (List.range cfg.poolSize).count a = _
    rw [List.nodup_range.count]
    simp
  · rw [htally, List.countP_true, List.length_range]
  · intro b _
    show (ht.buckets b).count = UInt32.ofNat (ht.buckets b).list.length
    rw [hempty]
    rfl
  · intro b _ node hnode
    have hnil : node ∈ (ht.buckets b).list := hnode
    rw [hempty] at hnil
    exact absurd hnil List.not_mem_nil

end FreePacket.Session
