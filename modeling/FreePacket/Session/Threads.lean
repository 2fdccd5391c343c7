/-
  FreePacket.Session.Threads
  ──────────────────────────
  **MANAGER AND CLEANER: two threads over the bucket locks of one table.**

  The machine `threads` runs `packet_manager_loop` against
  `process_all_session`.  A step is what a thread does between two accesses
  another thread can see: taking or giving back a bucket lock, one
  `hash_add_item` branch under its lock, one node of `delete_session`.  Which
  thread moves, the clock it reads and the life time it reads are in the
  action.

  Main results:
    * `threadStep_cases` — what one step of either thread can do.
    * `ThreadInv.step` — the tables stay well formed, and a thread in a
      bucket owns its lock.
-/
import FreePacket.Session.Stage

namespace FreePacket.Session

open FreePacket.Lib FreePacket.Packet

/-! ## §1. The machine. -/

inductive Thread where
  | manager
  | cleaner
  deriving DecidableEq

/-- Where `packet_manager_loop` is, with the flow it works on. -/
inductive ManagerPc where
  | idle
  /-- At `pthread_mutex_lock(&bucket->lock)` of `hash_add_item`. -/
  | waitLock (flow : FlowItem)
  /-- The bucket is locked, `find_list` comes next. -/
  | locked (flow : FlowItem)
  /-- In the `mwsr_mpool_dequeue` loop: `find_list` returned `NULL`. -/
  | waitSession (flow : FlowItem)
  /-- At `pthread_mutex_unlock(&bucket->lock)`. -/
  | unlocking (flow : FlowItem)

/-- Where `process_all_session` is.  `start` is its `start_cycle`. -/
inductive CleanerPc where
  /-- In the loop `while (GET_CYCLE_COUNT() < (start_cycle + interval))`. -/
  | resting (wake : UInt64)
  /-- At the lock of bucket `i` in `hash_travel_delete`. -/
  | waitLock (start : UInt64) (i : Nat)
  /-- In `delete_session` on bucket `i`, with the nodes still to visit. -/
  | sweeping (start : UInt64) (i : Nat) (current : UInt64) (rest : List Blist)

/-- One manager's table, the owners of its bucket locks, the two threads, and
    the last value of the time-stamp counter. -/
structure Threads where
  m : Manager
  lock : Nat → Option Thread
  managerPc : ManagerPc
  cleanerPc : CleanerPc
  clock : UInt64

inductive ThreadCall where
  /-- The manager dequeues a flow, at `pipe_depth > 4`. -/
  | fetch (flow : FlowItem)
  /-- The manager takes its next step. -/
  | manager (now : UInt64)
  /-- The cleaner takes its next step. -/
  | cleaner (now : UInt64) (destoryTime : Int32)

/-- The `index` `packet_manager_loop` computes for a flow. -/
def Manager.flowIndex (m : Manager) (flow : FlowItem) : UInt32 := bucketIndex flow.key m.ht.size

/-- The bucket `hash_add_item` locks for a flow. -/
def Manager.home (m : Manager) (flow : FlowItem) : Nat := m.slot (m.flowIndex flow)

/-- `interval` of `process_all_session`. -/
def interval : UInt64 := 10000000

/-- `while (i++ < ht->num_buckets)`: on to bucket `i`, or to rest. -/
def Manager.arrive (m : Manager) (start : UInt64) (i : Nat) : CleanerPc :=
  if i < m.ht.rounds then .waitLock start i else .resting (start + interval)

/-- The next step of the manager, at time `now`. -/
def managerStep (cfg : Config) (s : Threads) (now : UInt64) : Option Threads :=
  match s.managerPc with
  | .idle => none
  | .waitLock flow =>
      if s.lock (s.m.home flow) = none then
        some { s with lock := Function.update s.lock (s.m.home flow) (some .manager)
                      managerPc := .locked flow }
      else none
  | .locked flow =>
      match findList (s.m.bucket (s.m.home flow)).list flow with
      | none => some { s with managerPc := .waitSession flow }
      | some _ =>
          (hashAddItem cfg s.m (s.m.flowIndex flow) flow now).map
            (fun p => { s with m := p.1, managerPc := .unlocking flow })
  | .waitSession flow =>
      -- the dequeue spins on an empty pool; what follows it stays in the locked bucket
      (hashAddItem cfg s.m (s.m.flowIndex flow) flow now).map
        (fun p => { s with m := p.1, managerPc := .unlocking flow })
  | .unlocking flow =>
      some { s with lock := Function.update s.lock (s.m.home flow) none, managerPc := .idle }

/-- The next step of the cleaner, at time `now`. -/
def cleanerStep (cfg : Config) (s : Threads) (now : UInt64) (destoryTime : Int32) :
    Option Threads :=
  match s.cleanerPc with
  | .resting wake =>
      if now < wake then none else some { s with cleanerPc := s.m.arrive now 0 }
  | .waitLock start i =>
      if s.lock i = none then
        some { s with lock := Function.update s.lock i (some .cleaner)
                      cleanerPc := .sweeping start i now (s.m.bucket i).list }
      else none
  | .sweeping start i current (node :: next) =>
      if current - node.item.lastTime > lifetime cfg destoryTime then
        (s.m.remove cfg i node).map
          (fun m => { s with m := m, cleanerPc := .sweeping start i current next })
      else some { s with cleanerPc := .sweeping start i current next }
  | .sweeping start i _ [] =>
      some { s with lock := Function.update s.lock i none, cleanerPc := s.m.arrive start (i + 1) }

/-- The two threads.  The clock does not run backwards. -/
def threads (cfg : Config) : Machine Threads ThreadCall Unit where
  step s call :=
    match call with
    | .fetch flow =>
        match s.managerPc with
        | .idle =>
            if s.m.home flow < s.m.ht.rounds then
              some ({ s with managerPc := .waitLock flow }, ())
            else none
        | _ => none
    | .manager now =>
        if s.clock ≤ now then
          (managerStep cfg { s with clock := now } now).map (fun s' => (s', ()))
        else none
    | .cleaner now destoryTime =>
        if s.clock ≤ now then
          (cleanerStep cfg { s with clock := now } now destoryTime).map (fun s' => (s', ()))
        else none

/-- The threads when the manager has just been initialised. -/
def startThreads (m : Manager) : Threads :=
  { m := m, lock := fun _ => none, managerPc := .idle, cleanerPc := .resting 0, clock := 0 }

/-! ## §2. What a step can do. -/

/-- The steps of the two threads, each with what it requires. -/
inductive ThreadStep (cfg : Config) (s : Threads) : ThreadCall → Threads → Prop where
  | fetched {flow : FlowItem} :
      s.managerPc = .idle → s.m.home flow < s.m.ht.rounds →
      ThreadStep cfg s (.fetch flow) { s with managerPc := .waitLock flow }
  | grabbed {flow : FlowItem} {now : UInt64} :
      s.managerPc = .waitLock flow → s.lock (s.m.home flow) = none →
      ThreadStep cfg s (.manager now)
        { s with clock := now, lock := Function.update s.lock (s.m.home flow) (some .manager)
                 managerPc := .locked flow }
  | missed {flow : FlowItem} {now : UInt64} :
      s.managerPc = .locked flow →
      findList (s.m.bucket (s.m.home flow)).list flow = none →
      ThreadStep cfg s (.manager now) { s with clock := now, managerPc := .waitSession flow }
  | added {flow : FlowItem} {now : UInt64} {m : Manager} {out : Outcome} :
      s.managerPc = .locked flow ∨ s.managerPc = .waitSession flow →
      Adds cfg s.m (s.m.home flow) flow now m out →
      ThreadStep cfg s (.manager now) { s with clock := now, m := m, managerPc := .unlocking flow }
  | released {flow : FlowItem} {now : UInt64} :
      s.managerPc = .unlocking flow →
      ThreadStep cfg s (.manager now)
        { s with clock := now, lock := Function.update s.lock (s.m.home flow) none
                 managerPc := .idle }
  | woke {wake now : UInt64} {destoryTime : Int32} :
      s.cleanerPc = .resting wake →
      ThreadStep cfg s (.cleaner now destoryTime)
        { s with clock := now, cleanerPc := s.m.arrive now 0 }
  | entered {start now : UInt64} {i : Nat} {destoryTime : Int32} :
      s.cleanerPc = .waitLock start i → s.lock i = none →
      ThreadStep cfg s (.cleaner now destoryTime)
        { s with clock := now, lock := Function.update s.lock i (some .cleaner)
                 cleanerPc := .sweeping start i now (s.m.bucket i).list }
  | expired {start current now : UInt64} {i : Nat} {kept next : List Blist} {node : Blist}
      {destoryTime : Int32} :
      s.cleanerPc = .sweeping start i current (node :: next) →
      (s.m.bucket i).list = kept ++ node :: next →
      ThreadStep cfg s (.cleaner now destoryTime)
        { s with clock := now, m := s.m.removed i node (kept ++ next)
                 cleanerPc := .sweeping start i current next }
  | spared {start current now : UInt64} {i : Nat} {next : List Blist} {node : Blist}
      {destoryTime : Int32} :
      s.cleanerPc = .sweeping start i current (node :: next) →
      ThreadStep cfg s (.cleaner now destoryTime)
        { s with clock := now, cleanerPc := .sweeping start i current next }
  | left {start current now : UInt64} {i : Nat} {destoryTime : Int32} :
      s.cleanerPc = .sweeping start i current [] →
      ThreadStep cfg s (.cleaner now destoryTime)
        { s with clock := now, lock := Function.update s.lock i none
                 cleanerPc := s.m.arrive start (i + 1) }

/-! ## §3. The invariant. -/

/-- What is true of the table, whoever works on it: well formed, every session
    in its bucket, and all keys from `K`. -/
structure TableInv (cfg : Config) (K : Finset Key) (m : Manager) : Prop where
  wellFormed : WellFormed cfg.poolSize m
  placed : Placed 1 0 m
  keys : ∀ b < m.ht.rounds, ∀ node ∈ (m.bucket b).list, node.key ∈ K

/-- The manager works on a flow of `K` whose bucket exists and, where it is
    inside the bucket, owns the lock; where it spins, the flow has no session. -/
def ManagerInv (K : Finset Key) (s : Threads) : Prop :=
  match s.managerPc with
  | .idle => True
  | .waitLock flow => flow.key ∈ K ∧ s.m.home flow < s.m.ht.rounds
  | .locked flow | .unlocking flow =>
      flow.key ∈ K ∧ s.m.home flow < s.m.ht.rounds
        ∧ s.lock (s.m.home flow) = some .manager
  | .waitSession flow =>
      flow.key ∈ K ∧ s.m.home flow < s.m.ht.rounds
        ∧ s.lock (s.m.home flow) = some .manager
        ∧ findList (s.m.bucket (s.m.home flow)).list flow = none

/-- The cleaner inside a bucket owns its lock, and has a tail of its list to visit. -/
def CleanerInv (s : Threads) : Prop :=
  match s.cleanerPc with
  | .resting _ => True
  | .waitLock _ i => i < s.m.ht.rounds
  | .sweeping _ i _ rest =>
      i < s.m.ht.rounds ∧ s.lock i = some .cleaner
        ∧ ∃ kept, (s.m.bucket i).list = kept ++ rest

structure ThreadInv (cfg : Config) (K : Finset Key) (s : Threads) : Prop where
  table : TableInv cfg K s.m
  manager : ManagerInv K s
  cleaner : CleanerInv s

section Steps

variable {cfg : Config} {K : Finset Key} {s s' : Threads}

/-! ## §4. Both threads keep the table. -/

theorem TableInv.adds {m m' : Manager} (ht : TableInv cfg K m) {flow : FlowItem} {now : UInt64}
    {out : Outcome} (hb : m.home flow < m.ht.rounds) (hkey : flow.key ∈ K)
    (h : Adds cfg m (m.home flow) flow now m' out) : TableInv cfg K m' := by
  have hslot : (bucketIndex flow.key m.ht.size).toNat = m.home flow :=
    (slot_bucketIndex m flow.key).symm
  refine ⟨ht.wellFormed.adds hb h, ht.placed.adds hb h (hashIndex_one flow.key) hslot, ?_⟩
  intro c hc node hnode
  rw [h.frame.2.1] at hc
  rcases ht.wellFormed.adds_mem hb h hc hnode with ⟨hold, _⟩ | ⟨_, _, htouched⟩
  · exact ht.keys c hc node hold
  · show node.item.key ∈ K
    rw [htouched.key_eq]
    exact hkey

theorem TableInv.removed {m : Manager} (ht : TableInv cfg K m) {i : Nat} (hi : i < m.ht.rounds)
    {kept next : List Blist} {node : Blist} (hlist : (m.bucket i).list = kept ++ node :: next) :
    TableInv cfg K (m.removed i node (kept ++ next)) := by
  have hsub : (kept ++ next).Sublist (m.bucket i).list := by
    rw [hlist]
    exact (List.sublist_cons_self node next).append_left kept
  refine ⟨ht.wellFormed.removed hi hlist, ht.placed.sublist hi hsub, ?_⟩
  intro c hc x hx
  unfold Manager.removed at hx
  by_cases hci : c = i
  · rw [hci, bucket_setBucket_self] at hx
    exact ht.keys i hi x (hsub.subset hx)
  · rw [bucket_setBucket_of_ne _ _ hci] at hx
    exact ht.keys c hc x hx

/-! ## §5. A thread inside a bucket is alone there. -/

/-- **The manager's frame**: its invariant survives a step that leaves alone
    the buckets it has locked. -/
theorem ManagerInv.frame (h : ManagerInv K s) (hpc : s'.managerPc = s.managerPc)
    (hsize : s'.m.ht.size = s.m.ht.size) (hrounds : s'.m.ht.rounds = s.m.ht.rounds)
    (hkeep : ∀ c, s.lock c = some .manager →
      s'.lock c = some .manager ∧ s'.m.bucket c = s.m.bucket c) : ManagerInv K s' := by
  have hhome : ∀ flow, s'.m.home flow = s.m.home flow := by
    intro flow
    unfold Manager.home Manager.flowIndex Manager.slot
    rw [hsize]
  unfold ManagerInv at h ⊢
  rw [hpc]
  cases hm : s.managerPc with
  | idle => trivial
  | waitLock flow =>
      simp only [hm, hhome, hrounds] at h ⊢
      exact h
  | locked flow =>
      simp only [hm, hhome, hrounds] at h ⊢
      exact ⟨h.1, h.2.1, (hkeep _ h.2.2).1⟩
  | waitSession flow =>
      simp only [hm, hhome, hrounds] at h ⊢
      obtain ⟨hkey, hlt, hlock, hfind⟩ := h
      obtain ⟨hlock', hbucket⟩ := hkeep _ hlock
      rw [hbucket]
      exact ⟨hkey, hlt, hlock', hfind⟩
  | unlocking flow =>
      simp only [hm, hhome, hrounds] at h ⊢
      exact ⟨h.1, h.2.1, (hkeep _ h.2.2).1⟩

/-- **The cleaner's frame.** -/
theorem CleanerInv.frame (h : CleanerInv s) (hpc : s'.cleanerPc = s.cleanerPc)
    (hrounds : s'.m.ht.rounds = s.m.ht.rounds)
    (hkeep : ∀ c, s.lock c = some .cleaner →
      s'.lock c = some .cleaner ∧ s'.m.bucket c = s.m.bucket c) : CleanerInv s' := by
  unfold CleanerInv at h ⊢
  rw [hpc]
  cases hc : s.cleanerPc with
  | resting wake => trivial
  | waitLock start i =>
      simp only [hc, hrounds] at h ⊢
      exact h
  | sweeping start i current rest =>
      simp only [hc, hrounds] at h ⊢
      obtain ⟨hi, hlock, hcursor⟩ := h
      obtain ⟨hlock', hbucket⟩ := hkeep i hlock
      rw [hbucket]
      exact ⟨hi, hlock', hcursor⟩

/-- Changing the lock of a bucket that is not `t`'s leaves `t` its buckets. -/
theorem update_keep {t : Thread} {b c : Nat} {lock : Nat → Option Thread} (v : Option Thread)
    (hb : lock b ≠ some t) (hc : lock c = some t) :
    Function.update lock b v c = some t ∧ c ≠ b := by
  have hne : c ≠ b := by
    intro hcb
    rw [hcb] at hc
    exact hb hc
  rw [Function.update_of_ne hne]
  exact ⟨hc, hne⟩

/-- One owner at a time. -/
theorem ne_of_owner {t u : Thread} {o : Option Thread} (h : o = some t) (hne : t ≠ u) :
    o ≠ some u := by
  intro hu
  rw [h] at hu
  exact hne (Option.some.inj hu)

/-! ## §6. Every step is one of these, and keeps the invariant. -/

theorem managerStep_cases {now : UInt64} (hw : WellFormed cfg.poolSize s.m)
    (h : managerStep cfg { s with clock := now } now = some s') :
    ThreadStep cfg s (.manager now) s' := by
  -- both branches that call `hash_add_item` end the same way
  have hadd : ∀ flow, s.managerPc = .locked flow ∨ s.managerPc = .waitSession flow →
      (hashAddItem cfg s.m (s.m.flowIndex flow) flow now).map
          (fun p => { s with clock := now, m := p.1, managerPc := .unlocking flow }) = some s' →
      ThreadStep cfg s (.manager now) s' := by
    intro flow hpc h
    obtain ⟨⟨m, out⟩, hadd, heq⟩ := Option.map_eq_some_iff.mp h
    rw [← heq]
    exact ThreadStep.added hpc (hw.hashAddItem_cases hadd).2
  unfold managerStep at h
  cases hpc : s.managerPc with
  | idle =>
      simp only [hpc] at h
      exact absurd h (by simp)
  | waitLock flow =>
      simp only [hpc] at h
      split at h
      · rename_i hfree
        rw [← Option.some.inj h]
        exact ThreadStep.grabbed hpc hfree
      · exact absurd h (by simp)
  | locked flow =>
      simp only [hpc] at h
      cases hfind : findList (s.m.bucket (s.m.home flow)).list flow with
      | none =>
          rw [hfind] at h
          rw [← Option.some.inj h]
          exact ThreadStep.missed hpc hfind
      | some node =>
          rw [hfind] at h
          exact hadd flow (Or.inl hpc) h
  | waitSession flow =>
      simp only [hpc] at h
      exact hadd flow (Or.inr hpc) h
  | unlocking flow =>
      simp only [hpc] at h
      rw [← Option.some.inj h]
      exact ThreadStep.released hpc

theorem cleanerStep_cases {now : UInt64} {destoryTime : Int32}
    (hw : WellFormed cfg.poolSize s.m) (hc : CleanerInv s)
    (h : cleanerStep cfg { s with clock := now } now destoryTime = some s') :
    ThreadStep cfg s (.cleaner now destoryTime) s' := by
  unfold cleanerStep at h
  cases hpc : s.cleanerPc with
  | resting wake =>
      simp only [hpc] at h
      split at h
      · exact absurd h (by simp)
      · rw [← Option.some.inj h]
        exact ThreadStep.woke hpc
  | waitLock start i =>
      simp only [hpc] at h
      split at h
      · rename_i hfree
        rw [← Option.some.inj h]
        exact ThreadStep.entered hpc hfree
      · exact absurd h (by simp)
  | sweeping start i current rest =>
      -- the nodes still to visit are the end of the bucket, as its lock is held
      unfold CleanerInv at hc
      rw [hpc] at hc
      obtain ⟨hi, _, kept, hlist⟩ := hc
      cases rest with
      | nil =>
          simp only [hpc] at h
          rw [← Option.some.inj h]
          exact ThreadStep.left hpc
      | cons node next =>
          simp only [hpc] at h
          split at h
          · rw [hw.remove_eq hi hlist] at h
            rw [← Option.some.inj h]
            exact ThreadStep.expired hpc hlist
          · rw [← Option.some.inj h]
            exact ThreadStep.spared hpc

/-- **Every step of the machine is a step of one of the threads.** -/
theorem threadStep_cases {call : ThreadCall} {r : Unit} (hs : ThreadInv cfg K s)
    (h : (threads cfg).step s call = some (s', r)) : ThreadStep cfg s call s' := by
  cases call with
  | fetch flow =>
      simp only [threads] at h
      cases hpc : s.managerPc with
      | idle =>
          simp only [hpc] at h
          split at h
          · rename_i hlt
            simp only [Option.some.injEq, Prod.mk.injEq] at h
            rw [← h.1]
            exact ThreadStep.fetched hpc hlt
          · exact absurd h (by simp)
      | _ =>
          simp only [hpc] at h
          exact absurd h (by simp)
  | manager now =>
      simp only [threads] at h
      split at h
      · obtain ⟨s₁, hstep, heq⟩ := Option.map_eq_some_iff.mp h
        simp only [Prod.mk.injEq] at heq
        rw [← heq.1]
        exact managerStep_cases hs.table.wellFormed hstep
      · exact absurd h (by simp)
  | cleaner now destoryTime =>
      simp only [threads] at h
      split at h
      · obtain ⟨s₁, hstep, heq⟩ := Option.map_eq_some_iff.mp h
        simp only [Prod.mk.injEq] at heq
        rw [← heq.1]
        exact cleanerStep_cases hs.table.wellFormed hs.cleaner hstep
      · exact absurd h (by simp)

/-- The next bucket of a travel exists, or there is none. -/
theorem cleanerInv_arrive {start : UInt64} {i : Nat}
    (hpc : s.cleanerPc = s.m.arrive start i) : CleanerInv s := by
  unfold CleanerInv
  rw [hpc]
  unfold Manager.arrive
  by_cases hi : i < s.m.ht.rounds
  · rw [if_pos hi]
    exact hi
  · rw [if_neg hi]
    trivial

/-- The flows the manager may be given. -/
def ThreadCall.Within (K : Finset Key) : ThreadCall → Prop
  | .fetch flow => flow.key ∈ K
  | _ => True

/-- **Every step keeps the invariant**, as long as fetched flows have keys in `K`. -/
theorem ThreadInv.step {call : ThreadCall} (hs : ThreadInv cfg K s) (hcall : call.Within K)
    (h : ThreadStep cfg s call s') : ThreadInv cfg K s' := by
  obtain ⟨ht, hm, hc⟩ := hs
  cases h with
  | fetched hpc hlt =>
      refine ⟨ht, ⟨hcall, hlt⟩, ?_⟩
      exact hc.frame rfl rfl (fun c hlock => ⟨hlock, rfl⟩)
  | @grabbed flow now hpc hfree =>
      -- the lock was free, so the cleaner does not hold it
      simp only [ManagerInv, hpc] at hm
      refine ⟨ht, ⟨hm.1, hm.2, Function.update_self ..⟩, ?_⟩
      refine hc.frame rfl rfl (fun c hlock => ⟨(update_keep _ ?_ hlock).1, rfl⟩)
      rw [hfree]
      exact Option.some_ne_none _ |>.symm
  | missed hpc hfind =>
      simp only [ManagerInv, hpc] at hm
      refine ⟨ht, ⟨hm.1, hm.2.1, hm.2.2, hfind⟩, ?_⟩
      exact hc.frame rfl rfl (fun c hlock => ⟨hlock, rfl⟩)
  | @added flow now m out hpc hadds =>
      -- from the lookup or from the wait, the manager owns its bucket
      have hin : flow.key ∈ K ∧ s.m.home flow < s.m.ht.rounds
          ∧ s.lock (s.m.home flow) = some .manager := by
        rcases hpc with hpc | hpc
        · simp only [ManagerInv, hpc] at hm
          exact hm
        · simp only [ManagerInv, hpc] at hm
          exact ⟨hm.1, hm.2.1, hm.2.2.1⟩
      obtain ⟨hkey, hlt, hlock⟩ := hin
      obtain ⟨hsize, hrounds, hother⟩ := hadds.frame
      have hhome : m.home flow = s.m.home flow := by
        unfold Manager.home Manager.flowIndex Manager.slot
        rw [hsize]
      refine ⟨ht.adds hlt hkey hadds, ?_, ?_⟩
      · show flow.key ∈ K ∧ m.home flow < m.ht.rounds ∧ s.lock (m.home flow) = some .manager
        rw [hhome, hrounds]
        exact ⟨hkey, hlt, hlock⟩
      · -- the cleaner is in a bucket of its own, and the call left that alone
        refine hc.frame rfl hrounds (fun c hown => ⟨hown, hother c ?_⟩)
        intro hcb
        rw [hcb] at hown
        exact ne_of_owner hlock (by decide) hown
  | @released flow now hpc =>
      simp only [ManagerInv, hpc] at hm
      refine ⟨ht, trivial, ?_⟩
      refine hc.frame rfl rfl (fun c hlock => ⟨(update_keep _ ?_ hlock).1, rfl⟩)
      exact ne_of_owner hm.2.2 (by decide)
  | woke hpc =>
      refine ⟨ht, ?_, cleanerInv_arrive rfl⟩
      exact hm.frame rfl rfl rfl (fun c hlock => ⟨hlock, rfl⟩)
  | @entered start now i destoryTime hpc hfree =>
      simp only [CleanerInv, hpc] at hc
      refine ⟨ht, ?_, ⟨hc, Function.update_self .., [], rfl⟩⟩
      refine hm.frame rfl rfl rfl (fun c hlock => ⟨(update_keep _ ?_ hlock).1, rfl⟩)
      rw [hfree]
      exact Option.some_ne_none _ |>.symm
  | @expired start current now i kept next node destoryTime hpc hlist =>
      simp only [CleanerInv, hpc] at hc
      obtain ⟨hi, hlock, _⟩ := hc
      refine ⟨ht.removed hi hlist, ?_, ⟨hi, hlock, kept, ?_⟩⟩
      · -- the manager is in a bucket of its own
        refine hm.frame rfl rfl rfl (fun c hown => ⟨hown, ?_⟩)
        refine bucket_setBucket_of_ne _ _ ?_
        intro hci
        rw [hci] at hown
        exact ne_of_owner hlock (by decide) hown
      · show ((s.m.removed i node (kept ++ next)).bucket i).list = kept ++ next
        unfold Manager.removed
        rw [bucket_setBucket_self]
  | @spared start current now i next node destoryTime hpc =>
      -- the cursor passes the node, which joins those in front of it
      simp only [CleanerInv, hpc] at hc
      obtain ⟨hi, hlock, kept, hlist⟩ := hc
      refine ⟨ht, ?_, ⟨hi, hlock, kept ++ [node], ?_⟩⟩
      · exact hm.frame rfl rfl rfl (fun c hown => ⟨hown, rfl⟩)
      · show (s.m.bucket i).list = (kept ++ [node]) ++ next
        rw [hlist, List.append_assoc, List.singleton_append]
  | @left start current now i destoryTime hpc =>
      simp only [CleanerInv, hpc] at hc
      refine ⟨ht, ?_, cleanerInv_arrive rfl⟩
      refine hm.frame rfl rfl rfl (fun c hlock => ⟨(update_keep _ ?_ hlock).1, rfl⟩)
      exact ne_of_owner hc.2.1 (by decide)

/-- **The invariant in every reachable state.** -/
theorem threadInv_reaches (hs : ThreadInv cfg K s)
    (h : (threads cfg).Reaches (fun call => call.Within K) s s') : ThreadInv cfg K s' :=
  h.induction (ThreadInv cfg K)
    (fun _ _ _ _ hs hcall hstep => hs.step hcall (threadStep_cases hs hstep)) hs

end Steps

theorem threadInv_start {cfg : Config} {K : Finset Key} {i fuel : Nat} {hashLength : Int32}
    {garbage : Nat → SessionItem} {m : Manager}
    (h : initSignleManager cfg i fuel hashLength garbage = some m) :
    ThreadInv cfg K (startThreads m) := by
  obtain ⟨hw, _, hempty⟩ := wellFormed_initSignleManager h
  refine ⟨⟨hw, placed_initSignleManager 1 0 h, ?_⟩, trivial, trivial⟩
  intro b _ node hnode
  have hnil : node ∈ (m.bucket b).list := hnode
  rw [hempty] at hnil
  exact absurd hnil List.not_mem_nil

end FreePacket.Session
