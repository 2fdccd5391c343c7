/-
  FreePacket.Session.Deadlock
  ───────────────────────────
  **MANAGER AND CLEANER DEADLOCK exactly when there can be more connections
  than sessions.**

  The manager waits for a free session with the lock of a bucket in its
  hands, and the cleaner is the only one to free sessions.  With `N` nodes
  and flows of at most `N` keys the pool is never empty when a session is
  needed; with one key more, `N` fresh sessions that are not old enough
  suffice to trap both threads.

  Main results:
    * `Deadlock.stuck` — from the bad state no thread moves again.
    * `threads_deadlockFree_iff` — the bad state is unreachable exactly when
      the flows have at most `N` distinct keys.
-/
import Mathlib.Algebra.Order.BigOperators.Group.Finset
import FreePacket.Session.Threads

namespace FreePacket.Session

open FreePacket.Lib FreePacket.Packet

/-! ## §1. The bad state. -/

/-- **The bad state**: the manager spins for a free session on an empty pool,
    holding the lock of a bucket, and the cleaner waits for that lock. -/
def Deadlock (s : Threads) : Prop :=
  ∃ flow start, s.managerPc = .waitSession flow ∧ s.m.sessionPool = []
    ∧ s.lock (s.m.home flow) = some .manager
    ∧ s.cleanerPc = .waitLock start (s.m.home flow)

section Safety

variable {cfg : Config} {K : Finset Key} {s s' : Threads}

/-- **Nothing ever happens again** in a deadlocked state. -/
theorem Deadlock.stuck (hs : ThreadInv cfg K s) (h : Deadlock s) (call : ThreadCall) :
    (threads cfg).step s call = none := by
  obtain ⟨flow, start, hm, hpool, hlock, hc⟩ := h
  have hinv := hs.manager
  simp only [ManagerInv, hm] at hinv
  obtain ⟨_, hlt, _, hfind⟩ := hinv
  cases call with
  | fetch f => simp only [threads, hm]
  | manager now =>
      have hnone : hashAddItem cfg s.m (s.m.flowIndex flow) flow now = none := by
        have hfind' : findList (s.m.bucket (s.m.slot (s.m.flowIndex flow))).list flow = none := hfind
        unfold hashAddItem
        rw [if_pos (show s.m.slot (s.m.flowIndex flow) < s.m.ht.rounds from hlt), hfind', hpool]
        rfl
      simp only [threads, managerStep, hm, hnone, Option.map_none, ite_self]
  | cleaner now destoryTime =>
      simp only [threads, cleanerStep, hc, hlock, reduceCtorEq, if_false, Option.map_none, ite_self]

/-! ## §2. Sessions of distinct keys. -/

/-- **There are no more sessions than keys.** -/
theorem Placed.linked_le_card {numbers : UInt32} {i : Nat} {m : Manager}
    (hp : Placed numbers i m) {S : Finset Key}
    (hsub : ∀ b < m.ht.rounds, ∀ node ∈ (m.bucket b).list, node.key ∈ S) :
    m.linked ≤ S.card := by
  let keys : Nat → Finset Key := fun b => ((m.bucket b).list.map Blist.key).toFinset
  have hmem : ∀ b, ∀ k ∈ keys b, ∃ node ∈ (m.bucket b).list, node.key = k := by
    intro b k hk
    exact List.mem_map.mp (List.mem_toFinset.mp hk)
  -- a key selects its bucket, so two buckets have no key in common
  have hdisjoint : ∀ b ∈ Finset.range m.ht.rounds, ∀ c ∈ Finset.range m.ht.rounds, b ≠ c →
      Disjoint (keys b) (keys c) := by
    intro b hb c hc hne
    rw [Finset.disjoint_left]
    intro k hkb hkc
    obtain ⟨x, hx, hxk⟩ := hmem b k hkb
    obtain ⟨y, hy, hyk⟩ := hmem c k hkc
    apply hne
    rw [← hp.bucket b (Finset.mem_range.mp hb) x hx, ← hp.bucket c (Finset.mem_range.mp hc) y hy,
      hxk, hyk]
  have hcard : m.linked = ((Finset.range m.ht.rounds).biUnion keys).card := by
    rw [Finset.card_biUnion hdisjoint]
    unfold Manager.linked
    apply Finset.sum_congr rfl
    intro b hb
    show (m.bucket b).list.length = ((m.bucket b).list.map Blist.key).toFinset.card
    rw [List.toFinset_card_of_nodup (hp.unique b (Finset.mem_range.mp hb)), List.length_map]
  rw [hcard]
  apply Finset.card_le_card
  intro k hk
  obtain ⟨b, hb, hkb⟩ := Finset.mem_biUnion.mp hk
  obtain ⟨x, hx, hxk⟩ := hmem b k hkb
  rw [← hxk]
  exact hsub b (Finset.mem_range.mp hb) x hx

/-- **A session is free whenever one is needed**, if there is a session for
    every key: the waiting flow's key is not among the linked ones. -/
theorem ThreadInv.pool_ne_nil (hs : ThreadInv cfg K s) (hK : K.card ≤ cfg.poolSize)
    {flow : FlowItem} (hpc : s.managerPc = .waitSession flow) : s.m.sessionPool ≠ [] := by
  intro hpool
  have hinv := hs.manager
  simp only [ManagerInv, hpc] at hinv
  obtain ⟨hkey, _, _, hfind⟩ := hinv
  have hnone := (findList_eq_none_iff _ _).mp hfind
  have hothers : ∀ b < s.m.ht.rounds, ∀ node ∈ (s.m.bucket b).list,
      node.key ∈ K.erase flow.key := by
    intro b hb node hnode
    apply Finset.mem_erase.mpr
    refine ⟨?_, hs.table.keys b hb node hnode⟩
    intro heq
    -- a session of the flow's key would be in the bucket that was searched
    have hhome : s.m.home flow = b := by
      have hslot : s.m.home flow = (bucketIndex flow.key s.m.ht.size).toNat :=
        slot_bucketIndex s.m flow.key
      rw [hslot, ← heq]
      exact hs.table.placed.bucket b hb node hnode
    rw [hhome] at hnone
    exact hnone node hnode heq
  have hle := hs.table.placed.linked_le_card hothers
  have hall := hs.table.wellFormed.linked_add_pool
  have herase := Finset.card_erase_of_mem hkey
  have hpos := Finset.card_pos.mpr ⟨flow.key, hkey⟩
  rw [hpool, List.length_nil] at hall
  omega

/-- The number of buckets never changes. -/
theorem ThreadStep.rounds_eq {call : ThreadCall} (h : ThreadStep cfg s call s') :
    s'.m.ht.rounds = s.m.ht.rounds := by
  cases h with
  | added _ hadds => exact hadds.frame.2.1
  | _ => rfl

theorem rounds_reaches (hs : ThreadInv cfg K s)
    (h : (threads cfg).Reaches (fun call => call.Within K) s s') :
    s'.m.ht.rounds = s.m.ht.rounds := by
  have hboth := h.induction (fun t => ThreadInv cfg K t ∧ t.m.ht.rounds = s.m.ht.rounds)
    (fun t call t' _ ht hcall hstep => by
      have hcase := threadStep_cases ht.1 hstep
      exact ⟨ht.1.step hcall hcase, hcase.rounds_eq.trans ht.2⟩) ⟨hs, rfl⟩
  exact hboth.2

end Safety

/-! ## §3. The way into the bad state. -/

/-- A flow with the given key. -/
def flowOf (k : Key) : FlowItem :=
  { blankFlow with upperIp := k.upperIp, lowerIp := k.lowerIp, upperPort := k.upperPort
                   lowerPort := k.lowerPort, protocol := k.protocol }

@[simp] theorem flowOf_key (k : Key) : (flowOf k).key = k := rfl

/-- The manager waits for a session for `flow` at time 0, the cleaner is at `pc`. -/
def waiting (m : Manager) (flow : FlowItem) (pc : CleanerPc) : Threads :=
  { m := m, lock := Function.update (fun _ => none) (m.home flow) (some .manager)
    managerPc := .waitSession flow, cleanerPc := pc, clock := 0 }

@[simp] theorem waiting_lock (m : Manager) (flow : FlowItem) (pc : CleanerPc) (b : Nat) :
    (waiting m flow pc).lock b = if b = m.home flow then some .manager else none := by
  show Function.update (fun _ => none) (m.home flow) (some Thread.manager) b = _
  rw [Function.update_apply]

section Reachability

variable {cfg : Config} {K : Finset Key} {m : Manager} {flow : FlowItem}

/-- One more step of the manager, at time 0. -/
theorem reaches_manager {s t t' : Threads}
    (h : (threads cfg).Reaches (fun call => call.Within K) s t) (hclock : t.clock = 0)
    (hstep : managerStep cfg { t with clock := 0 } 0 = some t') :
    (threads cfg).Reaches (fun call => call.Within K) s t' := by
  apply Machine.Reaches.step (a := ThreadCall.manager 0) (r := ()) h trivial
  simp only [threads, hclock, hstep, UInt64.le_refl, if_true, Option.map_some]

/-- One more step of the cleaner, at time 0. -/
theorem reaches_cleaner {s t t' : Threads}
    (h : (threads cfg).Reaches (fun call => call.Within K) s t) (hclock : t.clock = 0)
    (hstep : cleanerStep cfg { t with clock := 0 } 0 0 = some t') :
    (threads cfg).Reaches (fun call => call.Within K) s t' := by
  apply Machine.Reaches.step (a := ThreadCall.cleaner 0 0) (r := ()) h trivial
  simp only [threads, hclock, hstep, UInt64.le_refl, if_true, Option.map_some]

/-- A flow without a session makes the manager wait for one. -/
theorem reaches_waiting (hkey : flow.key ∈ K) (hlt : m.home flow < m.ht.rounds)
    (hfind : findList (m.bucket (m.home flow)).list flow = none) :
    (threads cfg).Reaches (fun call => call.Within K) (startThreads m)
      (waiting m flow (.resting 0)) := by
  have hfetch : (threads cfg).step (startThreads m) (.fetch flow)
      = some ({ startThreads m with managerPc := .waitLock flow }, ()) := if_pos hlt
  have hgrab : managerStep cfg { startThreads m with managerPc := .waitLock flow } 0
      = some { waiting m flow (.resting 0) with managerPc := .locked flow } := rfl
  have hmiss : managerStep cfg { waiting m flow (.resting 0) with managerPc := .locked flow } 0
      = some (waiting m flow (.resting 0)) := by
    simp only [managerStep, waiting, hfind]
  have hstart : (threads cfg).Reaches (fun call => call.Within K) (startThreads m)
      (startThreads m) := .refl
  have hfetched := hstart.step (a := ThreadCall.fetch flow) hkey hfetch
  exact reaches_manager (reaches_manager hfetched rfl hgrab) rfl hmiss

/-- A waiting manager with a free session links it and is idle again. -/
theorem reaches_created {fresh : Blist} {pool : List Blist} (hpool : m.sessionPool = fresh :: pool)
    (hlt : m.home flow < m.ht.rounds)
    (hfind : findList (m.bucket (m.home flow)).list flow = none) :
    (threads cfg).Reaches (fun call => call.Within K) (waiting m flow (.resting 0))
      (startThreads (({ m with sessionPool := pool }).setBucket (m.home flow)
        ((m.bucket (m.home flow)).link (makeNewSession cfg fresh flow m.index 0)))) := by
  obtain ⟨m', hm'⟩ : ∃ m', m' = ({ m with sessionPool := pool }).setBucket (m.home flow)
      ((m.bucket (m.home flow)).link (makeNewSession cfg fresh flow m.index 0)) := ⟨_, rfl⟩
  have hcreate : hashAddItem cfg m (m.flowIndex flow) flow 0
      = some (m', .created ⟨fresh.addr, 0, flow.payloadLen, cfg.managerBufferSize.toUInt32⟩) := by
    rw [hm']
    exact hashAddItem_create hlt hfind hpool
  have hhome : m'.home flow = m.home flow := by
    rw [hm']
    rfl
  have hlink : managerStep cfg (waiting m flow (.resting 0)) 0
      = some { waiting m flow (.resting 0) with m := m', managerPc := .unlocking flow } := by
    simp only [managerStep, waiting, hcreate, Option.map_some]
  have hunlock : managerStep cfg
      { waiting m flow (.resting 0) with m := m', managerPc := .unlocking flow } 0
      = some (startThreads m') := by
    have hfree : Function.update (Function.update (fun _ => none) (m.home flow) (some Thread.manager))
        (m'.home flow) none = fun _ => none := by
      rw [hhome, Function.update_idem]
      exact Function.update_eq_self (m.home flow) (fun _ => none)
    simp only [managerStep, waiting, hfree]
    rfl
  rw [← hm']
  exact reaches_manager (reaches_manager .refl rfl hlink) rfl hunlock

/-- The table after one flow of each key in `ks`, all at time 0. -/
structure Filled (cfg : Config) (m₀ : Manager) (ks : List Key) (m : Manager) : Prop where
  rounds : m.ht.rounds = m₀.ht.rounds
  room : m.sessionPool.length + ks.length = cfg.poolSize
  fresh : ∀ b, ∀ node ∈ (m.bucket b).list, node.key ∈ ks ∧ node.item.lastTime = 0

/-- Every flow has a bucket in a table that is not empty. -/
theorem home_lt (hpos : 0 < m.ht.rounds) (flow : FlowItem) : m.home flow < m.ht.rounds := by
  apply slot_lt
  unfold HashTable.rounds at hpos
  omega

/-- A flow of another key is not found. -/
theorem Filled.findList_eq_none {m₀ : Manager} {ks : List Key} (hf : Filled cfg m₀ ks m)
    (hnew : flow.key ∉ ks) (b : Nat) : findList (m.bucket b).list flow = none := by
  rw [findList_eq_none_iff]
  intro node hnode heq
  apply hnew
  rw [← heq]
  exact (hf.fresh b node hnode).1

/-- One more flow of a new key takes one more session. -/
theorem Filled.cons {m₀ : Manager} {ks : List Key} (hf : Filled cfg m₀ ks m) {k : Key}
    {fresh : Blist} {pool : List Blist} (hpool : m.sessionPool = fresh :: pool)
    (hkey : flow.key = k) :
    Filled cfg m₀ (k :: ks) (({ m with sessionPool := pool }).setBucket (m.home flow)
      ((m.bucket (m.home flow)).link (makeNewSession cfg fresh flow m.index 0))) := by
  have hroom := hf.room
  rw [hpool, List.length_cons] at hroom
  refine ⟨hf.rounds, ?_, ?_⟩
  · show pool.length + (ks.length + 1) = cfg.poolSize
    omega
  · intro b node hnode
    have hold : node ∈ (m.bucket b).list → node.key ∈ k :: ks ∧ node.item.lastTime = 0 := by
      intro h
      obtain ⟨hmem, htime⟩ := hf.fresh b node h
      exact ⟨List.mem_cons_of_mem k hmem, htime⟩
    by_cases hb : b = m.home flow
    · rw [hb, bucket_setBucket_self] at hnode
      rcases List.mem_append.mp hnode with h | h
      · apply hold
        rw [hb]
        exact h
      · rw [List.mem_singleton.mp h]
        refine ⟨?_, rfl⟩
        show flow.key ∈ k :: ks
        rw [hkey]
        exact List.mem_cons_self
    · rw [bucket_setBucket_of_ne _ _ hb] at hnode
      exact hold hnode

/-- **Distinct keys use up sessions**, one each. -/
theorem reaches_filled {m₀ : Manager} {i fuel : Nat} {hashLength : Int32}
    {garbage : Nat → SessionItem} (hinit : initSignleManager cfg i fuel hashLength garbage = some m₀)
    (hpos : 0 < m₀.ht.rounds) {ks : List Key} (hnd : ks.Nodup) (hK : ∀ k ∈ ks, k ∈ K)
    (hlen : ks.length ≤ cfg.poolSize) :
    ∃ m, (threads cfg).Reaches (fun call => call.Within K) (startThreads m₀) (startThreads m)
      ∧ Filled cfg m₀ ks m := by
  induction ks with
  | nil =>
      obtain ⟨hw, _, hempty⟩ := wellFormed_initSignleManager hinit
      -- at first every node is in the pool
      have hlinked : m₀.linked = 0 := by
        apply Finset.sum_eq_zero
        intro b _
        rw [hempty]
        rfl
      have hall := hw.linked_add_pool
      rw [hlinked, Nat.zero_add] at hall
      refine ⟨m₀, .refl, rfl, hall, ?_⟩
      intro b node hnode
      rw [hempty] at hnode
      exact absurd hnode List.not_mem_nil
  | cons k ks ih =>
      rw [List.length_cons] at hlen
      obtain ⟨hnew, hnd⟩ := List.nodup_cons.mp hnd
      obtain ⟨m, hreach, hf⟩ := ih hnd (fun k' hk' => hK k' (List.mem_cons_of_mem k hk')) (by omega)
      -- the pool has a node left for one more key
      have hroom := hf.room
      have hlt : m.home (flowOf k) < m.ht.rounds := home_lt (by rw [hf.rounds]; exact hpos) _
      have hfind : findList (m.bucket (m.home (flowOf k))).list (flowOf k) = none :=
        hf.findList_eq_none (show (flowOf k).key ∉ ks from hnew) _
      cases hpool : m.sessionPool with
      | nil =>
          rw [hpool, List.length_nil] at hroom
          omega
      | cons fresh pool =>
          have hkey : (flowOf k).key ∈ K := hK k List.mem_cons_self
          exact ⟨_, hreach.trans ((reaches_waiting hkey hlt hfind).trans
            (reaches_created hpool hlt hfind)), hf.cons hpool rfl⟩

/-- **The cleaner passes a bucket of fresh sessions** without freeing one,
    and the manager goes on waiting. -/
theorem reaches_passed {i : Nat} (hi : i < m.ht.rounds) (hne : i ≠ m.home flow)
    (hfresh : ∀ node ∈ (m.bucket i).list, node.item.lastTime = 0) :
    (threads cfg).Reaches (fun call => call.Within K) (waiting m flow (m.arrive 0 i))
      (waiting m flow (m.arrive 0 (i + 1))) := by
  -- the state inside bucket `i` with `rest` still to visit
  let inside : List Blist → Threads := fun rest =>
    { waiting m flow (.sweeping 0 i 0 rest) with
        lock := Function.update (waiting m flow (.resting 0)).lock i (some .cleaner) }
  have hfree : (waiting m flow (.resting 0)).lock i = none := by
    rw [waiting_lock, if_neg hne]
  have hvisit : ∀ rest : List Blist, (∀ node ∈ rest, node.item.lastTime = 0) →
      (threads cfg).Reaches (fun call => call.Within K) (inside rest) (inside []) := by
    intro rest
    induction rest with
    | nil =>
        intro _
        exact .refl
    | cons node next ih =>
        intro hrest
        have hspare : ¬ (0 : UInt64) - node.item.lastTime > lifetime cfg 0 := by
          rw [hrest node List.mem_cons_self]
          exact UInt64.not_lt.mpr UInt64.zero_le
        have hstep : cleanerStep cfg (inside (node :: next)) 0 0 = some (inside next) :=
          if_neg hspare
        exact (reaches_cleaner .refl rfl hstep).trans
          (ih (fun x hx => hrest x (List.mem_cons_of_mem node hx)))
  have henter : cleanerStep cfg (waiting m flow (.waitLock 0 i)) 0 0
      = some (inside (m.bucket i).list) := if_pos hfree
  have hleave : cleanerStep cfg (inside []) 0 0 = some (waiting m flow (m.arrive 0 (i + 1))) := by
    have hback : Function.update (inside []).lock i none = (waiting m flow (.resting 0)).lock := by
      show Function.update (Function.update (waiting m flow (.resting 0)).lock i _) i none = _
      rw [Function.update_idem, ← hfree, Function.update_eq_self]
    show some { inside [] with lock := Function.update (inside []).lock i none
                               cleanerPc := m.arrive 0 (i + 1) } = _
    rw [hback]
    rfl
  have hhere : m.arrive 0 i = .waitLock 0 i := if_pos hi
  rw [hhere]
  exact reaches_cleaner ((reaches_cleaner .refl rfl henter).trans (hvisit _ hfresh)) rfl hleave

/-- From its rest the cleaner comes as far as the waiting manager's bucket. -/
theorem reaches_home {m₀ : Manager} {ks : List Key} (hf : Filled cfg m₀ ks m)
    (hlt : m.home flow < m.ht.rounds) {i : Nat} (hi : i ≤ m.home flow) :
    (threads cfg).Reaches (fun call => call.Within K) (waiting m flow (.resting 0))
      (waiting m flow (m.arrive 0 i)) := by
  induction i with
  | zero => exact reaches_cleaner .refl rfl rfl
  | succ i ih =>
      apply (ih (by omega)).trans
      apply reaches_passed (by omega) (by omega)
      intro node hnode
      exact (hf.fresh i node hnode).2

/-- **With more keys than sessions the bad state is reached.** -/
theorem reaches_deadlock {m₀ : Manager} {i fuel : Nat} {hashLength : Int32}
    {garbage : Nat → SessionItem} (hinit : initSignleManager cfg i fuel hashLength garbage = some m₀)
    (hpos : 0 < m₀.ht.rounds) (hK : cfg.poolSize < K.card) :
    ∃ s, (threads cfg).Reaches (fun call => call.Within K) (startThreads m₀) s ∧ Deadlock s := by
  -- `N` keys to use up the sessions, and one more
  obtain ⟨S, hSK, hScard⟩ := Finset.exists_subset_card_eq (show cfg.poolSize + 1 ≤ K.card from hK)
  obtain ⟨k, hk⟩ : S.Nonempty := Finset.card_pos.mp (by omega)
  have hlen : (S.erase k).toList.length = cfg.poolSize := by
    rw [Finset.length_toList, Finset.card_erase_of_mem hk, hScard]
    rfl
  obtain ⟨m, hreach, hf⟩ := reaches_filled hinit hpos (Finset.nodup_toList (S.erase k))
    (K := K) (fun k' hk' => hSK (Finset.mem_of_mem_erase (Finset.mem_toList.mp hk'))) (by omega)
  have hroom := hf.room
  have hlt : m.home (flowOf k) < m.ht.rounds := home_lt (by rw [hf.rounds]; exact hpos) _
  have hnew : (flowOf k).key ∉ (S.erase k).toList := by
    intro hmem
    exact Finset.notMem_erase k S (Finset.mem_toList.mp hmem)
  have hkey : (flowOf k).key ∈ K := hSK hk
  have hwait : (threads cfg).Reaches (fun call => call.Within K) (startThreads m)
      (waiting m (flowOf k) (.resting 0)) :=
    reaches_waiting hkey hlt (hf.findList_eq_none hnew _)
  refine ⟨_, (hreach.trans hwait).trans (reaches_home hf hlt (le_refl _)), ?_⟩
  refine ⟨flowOf k, 0, rfl, ?_, ?_, ?_⟩
  · show m.sessionPool = []
    apply List.eq_nil_of_length_eq_zero
    omega
  · rw [waiting_lock]
    exact if_pos rfl
  · show m.arrive 0 (m.home (flowOf k)) = _
    unfold Manager.arrive
    rw [if_pos hlt]
    rfl

end Reachability

/-! ## §4. The exact condition. -/

/-- **NO DEADLOCK EXACTLY WHEN THE KEYS ARE AT MOST THE SESSIONS**, over all
    interleavings, clocks, life times and sequences of flows with keys in `K`
    (or when the table has no bucket, and no flow gets into it). -/
theorem threads_deadlockFree_iff {cfg : Config} {i fuel : Nat} {hashLength : Int32}
    {garbage : Nat → SessionItem} {m₀ : Manager}
    (hinit : initSignleManager cfg i fuel hashLength garbage = some m₀) (K : Finset Key) :
    (∀ s, (threads cfg).Reaches (fun call => call.Within K) (startThreads m₀) s → ¬ Deadlock s)
      ↔ K.card ≤ cfg.poolSize ∨ m₀.ht.rounds = 0 := by
  constructor
  · intro hfree
    by_contra hno
    obtain ⟨s, hreach, hbad⟩ := reaches_deadlock (K := K) hinit (by omega) (by omega)
    exact hfree s hreach hbad
  · rintro hcond s hreach ⟨flow, start, hpc, hpool, _, _⟩
    have hs := threadInv_reaches (threadInv_start hinit) hreach
    rcases hcond with hK | hzero
    · exact hs.pool_ne_nil hK hpc hpool
    · have hrounds := rounds_reaches (threadInv_start hinit) hreach
      have hinv := hs.manager
      simp only [ManagerInv, hpc] at hinv
      have hlt := hinv.2.1
      rw [hrounds] at hlt
      exact absurd hlt (by rw [show (startThreads m₀).m = m₀ from rfl, hzero]; exact Nat.not_lt_zero _)

/-- Flows of a single key never trap the threads. -/
theorem oneKey_deadlockFree :
    ({blankFlow.key} : Finset Key).card ≤ (sourceConfig 65536 1000).poolSize
      ∧ ∀ s, (threads (sourceConfig 65536 1000)).Reaches (fun call => call.Within {blankFlow.key})
        (startThreads (freshManager 0)) s → ¬ Deadlock s := by
  have hcard : ({blankFlow.key} : Finset Key).card ≤ (sourceConfig 65536 1000).poolSize := by
    rw [Finset.card_singleton]
    show 1 ≤ 2 ^ 16
    omega
  refine ⟨hcard, ?_⟩
  exact (threads_deadlockFree_iff (initSignleManager_fresh 65536 1000 0) _).mpr (Or.inl hcard)

/-- One TCP key for each of 65537 addresses: one more than there are sessions. -/
def manyKeys : Finset Key :=
  (Finset.range 65537).image (fun n =>
    { protocol := 6, upperIp := UInt32.ofNat n, lowerIp := 0, upperPort := 0, lowerPort := 0 })

theorem manyKeys_card : manyKeys.card = 65537 := by
  unfold manyKeys
  rw [Finset.card_image_of_injOn, Finset.card_range]
  intro a ha b hb heq
  have ha' := Finset.mem_range.mp ha
  have hb' := Finset.mem_range.mp hb
  have hip : UInt32.ofNat a = UInt32.ofNat b := congrArg Key.upperIp heq
  rw [← UInt32.toNat_inj, UInt32.toNat_ofNat', UInt32.toNat_ofNat'] at hip
  omega

/-- **65537 connections deadlock the real table**, whose pool has 65536 sessions. -/
theorem manyKeys_deadlock :
    ¬ ∀ s, (threads (sourceConfig 65536 1000)).Reaches (fun call => call.Within manyKeys)
      (startThreads (freshManager 0)) s → ¬ Deadlock s := by
  intro hfree
  have hmore : (sourceConfig 65536 1000).poolSize < manyKeys.card := by
    rw [manyKeys_card]
    show 2 ^ 16 < 65537
    omega
  have hpos : 0 < (freshManager 0).ht.rounds := by
    show 0 < (2 : Int32).toInt.toNat
    decide
  obtain ⟨s, hreach, hbad⟩ := reaches_deadlock (initSignleManager_fresh 65536 1000 0) hpos hmore
  exact hfree s hreach hbad

end FreePacket.Session
