/-
  FreePacket.Session.Conservation
  ───────────────────────────────
  **SESSION NODES ARE CONSERVED over whole runs of one manager.**

  The machine `table` interleaves calls of `hash_add_item` and per-bucket
  expiries, in any order, with any keys, flows, clock values and life times.
  Its states are what a manager looks like between two bucket operations.

  Main results:
    * `tableRun_wellFormed` — the invariant of `Session.Table` over a run.
    * `tableRun_conserved` — each node is in one place, the counters are the
      list lengths, `hash_count` is what the pool misses, and a removal finds
      room in the pool.
-/
import FreePacket.Lib.Machine
import FreePacket.Session.Table

namespace FreePacket.Session

open FreePacket.Lib FreePacket.Packet

/-! ## §1. The machine. -/

/-- One bucket operation on a manager. -/
inductive TableCall where
  | add (key : UInt32) (flow : FlowItem) (now : UInt64)
  | delete (b : Nat) (now : UInt64) (destoryTime : Int32)

/-- `hash_add_item`, or one round of `hash_travel_delete`. -/
def table (cfg : Config) : Machine Manager TableCall (Option Outcome) where
  step m call :=
    match call with
    | .add key flow now => (hashAddItem cfg m key flow now).map (fun p => (p.1, some p.2))
    | .delete b now destoryTime =>
        if b < m.ht.rounds then
          (deleteSession cfg m b now destoryTime).map (fun m' => (m', none))
        else none

section Table

variable {cfg : Config}

/-- A call of `hash_add_item` that gets through is a step. -/
theorem tableStep_add {m m' : Manager} {key : UInt32} {flow : FlowItem} {now : UInt64}
    {out : Outcome} (h : hashAddItem cfg m key flow now = some (m', out)) :
    (table cfg).step m (.add key flow now) = some (m', some out) := by
  simp only [table, h, Option.map_some]

/-- **One step of the table machine**: the three changes, or a filter. -/
theorem tableStep_cases {m m' : Manager} (hw : WellFormed cfg.poolSize m) {call : TableCall}
    {r : Option Outcome} (h : (table cfg).step m call = some (m', r)) :
    (∃ key flow now out, call = .add key flow now ∧ r = some out
        ∧ m.slot key < m.ht.rounds ∧ Adds cfg m (m.slot key) flow now m' out)
      ∨ ∃ b now destoryTime, call = .delete b now destoryTime ∧ r = none
        ∧ b < m.ht.rounds ∧ m' = m.swept cfg b now destoryTime := by
  cases call with
  | add key flow now =>
      obtain ⟨⟨m₁, out⟩, hadd, heq⟩ := Option.map_eq_some_iff.mp h
      simp only [Prod.mk.injEq] at heq
      obtain ⟨rfl, rfl⟩ := heq
      obtain ⟨hb, hcase⟩ := hw.hashAddItem_cases hadd
      exact Or.inl ⟨key, flow, now, out, rfl, rfl, hb, hcase⟩
  | delete b now destoryTime =>
      simp only [table] at h
      split at h
      · rename_i hb
        rw [hw.deleteSession_eq hb] at h
        simp only [Option.map_some, Option.some.injEq, Prod.mk.injEq] at h
        exact Or.inr ⟨b, now, destoryTime, rfl, h.2.symm, hb, h.1.symm⟩
      · exact absurd h (by simp)

theorem tableStep_wellFormed {m m' : Manager} (hw : WellFormed cfg.poolSize m) {call : TableCall}
    {r : Option Outcome} (h : (table cfg).step m call = some (m', r)) :
    WellFormed cfg.poolSize m' := by
  rcases tableStep_cases hw h with ⟨key, flow, now, out, _, _, hb, hcase⟩ | hdelete
  · exact hw.adds hb hcase
  · obtain ⟨b, now, destoryTime, _, _, hb, hm⟩ := hdelete
    rw [hm]
    exact hw.swept hb now destoryTime

/-- **The invariant over a run.** -/
theorem tableRun_wellFormed {m m' : Manager} (hw : WellFormed cfg.poolSize m)
    {calls : List TableCall} {rs : List (Option Outcome)}
    (hrun : (table cfg).run m calls = some (m', rs)) : WellFormed cfg.poolSize m' :=
  (table cfg).run_induction (WellFormed cfg.poolSize)
    (fun _ _ _ _ hw hstep => tableStep_wellFormed hw hstep) hrun hw

/-! ## §2. Counting. -/

/-- The sessions of all buckets. -/
def Manager.linked (m : Manager) : Nat :=
  ∑ b ∈ Finset.range m.ht.rounds, (m.bucket b).list.length

/-- `hash_count` adds up the counters of the first buckets, on `uint32_t`. -/
theorem foldl_count_eq (m : Manager) {n : Nat}
    (hcounts : ∀ b < n, (m.bucket b).count = UInt32.ofNat (m.bucket b).list.length) :
    (List.range n).foldl (fun cnt b => cnt + (m.ht.buckets b).count) 0
      = UInt32.ofNat (∑ b ∈ Finset.range n, (m.bucket b).list.length) := by
  induction n with
  | zero => rfl
  | succ n ih =>
      rw [List.range_succ, List.foldl_append, ih (fun b hb => hcounts b (by omega)),
        Finset.sum_range_succ, UInt32.ofNat_add, ← hcounts n (by omega)]
      rfl

/-- **Linked sessions and free sessions make up all sessions.** -/
theorem WellFormed.linked_add_pool {N : Nat} {m : Manager} (hw : WellFormed N m) :
    m.linked + m.sessionPool.length = N := by
  have hwhole := hw.whole
  unfold Manager.tally total at hwhole
  simp only [List.countP_true] at hwhole
  rw [Nat.add_comm]
  exact hwhole

theorem WellFormed.hashCount_toNat {N : Nat} {m : Manager} (hw : WellFormed N m)
    (hN : N < 2 ^ 32) : (hashCount m.ht).toNat = m.linked := by
  have hle := hw.linked_add_pool
  unfold hashCount
  rw [foldl_count_eq m hw.counts, UInt32.toNat_ofNat']
  exact Nat.mod_eq_of_lt (by unfold Manager.linked at hle; omega)

/-! ## §3. Conservation. -/

/-- What is conserved between two bucket operations. -/
structure Conserved (cfg : Config) (m : Manager) : Prop where
  /-- Each node is once in the pool or linked once in one bucket. -/
  once : ∀ a < cfg.poolSize,
    m.sessionPool.countP (fun node => node.addr == a)
      + ∑ b ∈ Finset.range m.ht.rounds, (m.bucket b).list.countP (fun node => node.addr == a) = 1
  /-- There are no other nodes. -/
  known : ∀ a, cfg.poolSize ≤ a → (∀ node ∈ m.sessionPool, node.addr ≠ a)
    ∧ ∀ b < m.ht.rounds, ∀ node ∈ (m.bucket b).list, node.addr ≠ a
  /-- Each counter is the length of its list. -/
  counts : ∀ b < m.ht.rounds, (m.bucket b).count.toNat = (m.bucket b).list.length
  /-- `hash_count` is the number of linked sessions. -/
  hashCount_linked : (hashCount m.ht).toNat = m.linked
  /-- `hash_count` is what the pool misses. -/
  hashCount_pool : (hashCount m.ht).toNat = cfg.poolSize - m.sessionPool.length
  /-- A linked session that is removed finds room in the pool. -/
  release_room : ∀ b < m.ht.rounds, ∀ node ∈ (m.bucket b).list,
    m.sessionPool.length < cfg.poolSize ∧ (m.remove cfg b node).isSome
  /-- Nor does a whole expiry, which removes many, ever find the pool full. -/
  delete_room : ∀ b < m.ht.rounds, ∀ now destoryTime,
    (deleteSession cfg m b now destoryTime).isSome

/-- **The invariant is conservation.** -/
theorem WellFormed.conserved {m : Manager} (hw : WellFormed cfg.poolSize m)
    (hN : cfg.poolSize < 2 ^ 32) : Conserved cfg m := by
  have hlink := hw.linked_add_pool
  have hcount := hw.hashCount_toNat hN
  refine ⟨?_, ?_, ?_, hcount, by omega, ?_, ?_⟩
  · intro a ha
    have honce := hw.once a
    rw [if_pos ha] at honce
    exact honce
  · intro a ha
    have honce := hw.once a
    rw [if_neg (by omega)] at honce
    have hzero : ∀ l : List Blist, l.countP (fun node => node.addr == a) = 0 →
        ∀ node ∈ l, node.addr ≠ a := by
      intro l hl node hnode heq
      exact absurd (List.countP_eq_zero.mp hl node hnode) (by simp [heq])
    refine ⟨hzero _ ?_, ?_⟩
    · exact Nat.eq_zero_of_add_eq_zero_right honce
    · intro b hb
      have hle := countP_le_tally m hb (fun c => c == a)
      exact hzero _ (by omega)
  · intro b hb
    have hle := countP_le_tally m hb (fun _ => true)
    rw [hw.whole] at hle
    simp only [List.countP_true] at hle
    rw [hw.counts b hb, UInt32.toNat_ofNat', Nat.mod_eq_of_lt (by omega)]
  · intro b hb node hnode
    obtain ⟨pre, post, hlist⟩ := List.append_of_mem hnode
    refine ⟨hw.pool_lt hb hnode, ?_⟩
    rw [hw.remove_eq hb hlist]
    rfl
  · intro b hb now destoryTime
    rw [hw.deleteSession_eq hb]
    rfl

end Table

/-! ## §4. Runs from `init_signle_manager`. -/

/-- **SESSION CONSERVATION**: in every state of every run from
    `init_signle_manager`, with `2 ^ MANAGER_POOL` nodes. -/
theorem tableRun_conserved {cfg : Config} (hpool : cfg.poolSize = 2 ^ managerPool)
    {i fuel : Nat} {hashLength : Int32} {garbage : Nat → SessionItem} {m₀ m : Manager}
    {calls : List TableCall} {rs : List (Option Outcome)}
    (hinit : initSignleManager cfg i fuel hashLength garbage = some m₀)
    (hrun : (table cfg).run m₀ calls = some (m, rs)) : Conserved cfg m := by
  have hw := tableRun_wellFormed (wellFormed_initSignleManager hinit).1 hrun
  exact hw.conserved (by rw [hpool]; decide)

/-- The source's pool size with the given buffer size and clock rate. -/
def sourceConfig (managerBufferSize mhz : Int32) : Config :=
  { managerBufferSize := managerBufferSize, mhz := mhz, poolSize := 2 ^ managerPool }

/-- A manager with two empty buckets and the given pool. -/
def managerWith (i : Nat) (pool : List Blist) : Manager :=
  { index := i, ht := { numBuckets := 2, buckets := fun _ => { list := [], count := 0 } }
    sessionPool := pool }

/-- The manager `init_signle_manager` makes for a hash length of 1. -/
def freshManager (i : Nat) : Manager :=
  managerWith i ((List.range (2 ^ managerPool)).map (fun j => ⟨j, blankItem⟩))

theorem initSignleManager_fresh (managerBufferSize mhz : Int32) (i : Nat) :
    initSignleManager (sourceConfig managerBufferSize mhz) i 1 1 (fun _ => blankItem)
      = some (freshManager i) := by
  have hcreate : hashCreate 1 1
      = some { numBuckets := 2, buckets := fun _ => { list := [], count := 0 } } := rfl
  unfold initSignleManager
  rw [hcreate]
  rfl

/-- The first two numbers of a range. -/
theorem range_add_two (n : Nat) :
    List.range (n + 2) = 0 :: 1 :: ((List.range n).map Nat.succ).map Nat.succ := by
  rw [List.range_succ_eq_map, List.range_succ_eq_map, List.map_cons]

/-- Its pool begins with nodes 0 and 1. -/
theorem freshManager_eq :
    ∃ rest, ∀ i, freshManager i = managerWith i (⟨0, blankItem⟩ :: ⟨1, blankItem⟩ :: rest) := by
  have hrange : List.range (2 ^ managerPool)
      = 0 :: 1 :: ((List.range 65534).map Nat.succ).map Nat.succ := range_add_two 65534
  refine ⟨(((List.range 65534).map Nat.succ).map Nat.succ).map (fun j => ⟨j, blankItem⟩), ?_⟩
  intro i
  unfold freshManager
  rw [hrange, List.map_cons, List.map_cons]

/-- **A first flow in a fresh manager** creates a session in node 0, which
    every flow of its key then finds. -/
theorem freshManager_create (managerBufferSize mhz : Int32) (i : Nat) (key : UInt32)
    (flow : FlowItem) (now : UInt64) :
    ∃ m, hashAddItem (sourceConfig managerBufferSize mhz) (freshManager i) key flow now
          = some (m, .created ⟨0, 0, flow.payloadLen, managerBufferSize.toUInt32⟩)
      ∧ m.ht.size = (freshManager i).ht.size ∧ (∀ key', m.slot key' < m.ht.rounds)
      ∧ (m.bucket (m.slot key)).list
          = [makeNewSession (sourceConfig managerBufferSize mhz) ⟨0, blankItem⟩ flow i now]
      ∧ ∀ flow' : FlowItem, flow'.key = flow.key → findList (m.bucket (m.slot key)).list flow'
          = some (makeNewSession (sourceConfig managerBufferSize mhz) ⟨0, blankItem⟩ flow i now) := by
  obtain ⟨pool, hfresh⟩ := freshManager_eq
  obtain ⟨m, hm⟩ : ∃ m, m = managerWith i (⟨0, blankItem⟩ :: ⟨1, blankItem⟩ :: pool) := ⟨_, rfl⟩
  obtain ⟨node, hnode⟩ : ∃ node, node =
      makeNewSession (sourceConfig managerBufferSize mhz) ⟨0, blankItem⟩ flow i now := ⟨_, rfl⟩
  have hempty : ∀ b, (m.bucket b).list = [] := by
    rw [hm]
    exact fun _ => rfl
  have hslot : ∀ key', m.slot key' < m.ht.rounds := by
    rw [hm]
    exact slot_lt _ (show 0 < (2 : Int32).toInt by decide)
  have hlist : ((m.bucket (m.slot key)).link node).list = [node] := by
    show (m.bucket (m.slot key)).list ++ [node] = [node]
    rw [hempty]
    rfl
  have hnone : findList (m.bucket (m.slot key)).list flow = none := by
    rw [hempty]
    rfl
  have hpool : m.sessionPool = ⟨0, blankItem⟩ :: ⟨1, blankItem⟩ :: pool := by
    rw [hm]
    rfl
  have hindex : m.index = i := by
    rw [hm]
    rfl
  rw [hfresh, ← hm, ← hnode, hashAddItem_create (hslot key) hnone hpool, hindex, ← hnode]
  refine ⟨_, rfl, rfl, hslot, ?_, ?_⟩
  · show ((Manager.setBucket _ (m.slot key) _).bucket (m.slot key)).list = _
    rw [bucket_setBucket_self, hlist]
  · intro flow' hkey
    have hcompare : compareSession node.item flow' = 0 := by
      rw [compareSession_eq_zero_iff, hnode, makeNewSession_key, hkey]
    show findList ((Manager.setBucket _ (m.slot key) _).bucket (m.slot key)).list flow' = _
    rw [bucket_setBucket_self, hlist]
    exact if_pos hcompare

/-- A first flow leaves a conserved table. -/
theorem oneFlow_conserved :
    ∃ m rs, (table (sourceConfig 65536 1000)).run (freshManager 0) [.add 0 blankFlow 5]
        = some (m, rs)
      ∧ Conserved (sourceConfig 65536 1000) m := by
  obtain ⟨m, hcreate, _⟩ := freshManager_create 65536 1000 0 0 blankFlow 5
  have hrun := (table (sourceConfig 65536 1000)).run_singleton (tableStep_add hcreate)
  have hpool : (sourceConfig 65536 1000).poolSize = 2 ^ managerPool := rfl
  exact ⟨m, _, hrun, tableRun_conserved hpool (initSignleManager_fresh 65536 1000 0) hrun⟩

end FreePacket.Session
