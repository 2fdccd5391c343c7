/-
  FreePacket.Session.Stage
  ────────────────────────
  **ONE SESSION FOR EACH CONNECTION KEY, over all managers.**

  The machine `stage` is the parser and manager stages: parsers deliver
  parsed packets to the manager `hash_index` selects, managers take flows off
  their queues into their tables (or drop them, below pipe depth 5), and the
  cleaner expires the sessions of one bucket at a time.  The order of all
  this is in the list of calls.

  Two hashes of one key place a session: the manager and the bucket.
  `Placed` says that both are right and that keys do not repeat in a bucket;
  it is kept by every step, and leaves one place for every key.

  Main result: `stageRun_oneSession`.
-/
import FreePacket.Session.Conservation

namespace FreePacket.Session

open FreePacket.Lib FreePacket.Packet

/-! ## §1. The machine. -/

/-- The managers of `manager_group` and their queues. -/
structure Stage where
  managers : Nat → Manager
  queues : Nat → List FlowItem

/-- A step of the parser and manager stages. -/
inductive StageCall where
  /-- A parser fills `flow` from `packet` and enqueues it. -/
  | deliver (parser : Nat) (flow : FlowItem) (packet : PacketT)
  /-- Manager `i` dequeues a flow and calls `hash_add_item`. -/
  | insert (i : Nat) (now : UInt64)
  /-- Manager `i` dequeues a flow and hands it back, at `pipe_depth <= 4`. -/
  | discard (i : Nat)
  /-- The cleaner expires bucket `b` of manager `i`. -/
  | sweep (i b : Nat) (now : UInt64) (destoryTime : Int32)

/-- What an `insert` did: the manager, the flow and the branch taken. -/
structure Inserted where
  manager : Nat
  flow : FlowItem
  outcome : Outcome

/-- `1 << LG2_CAPACITY`. -/
def queueCapacity : Nat := 1024

/-- The stages with `parserNums` parsers and `numbers` managers. -/
def stage (cfg : Config) (parserNums : Nat) (numbers : UInt32) :
    Machine Stage StageCall (Option Inserted) where
  step s call :=
    match call with
    | .deliver parser flow packet =>
        if parser < parserNums ∧ 0 < numbers.toNat then
          let flow := makeFlowItemTcp flow packet
          let index := (hashIndex flow.key numbers).toNat
          (Fifo.push queueCapacity (s.queues index) [flow]).map
            (fun queue => ({ s with queues := Function.update s.queues index queue }, none))
        else none
    | .insert i now =>
        if i < numbers.toNat then
          match Fifo.take (s.queues i) with
          | none => none
          | some (flow, queue) =>
              let index := bucketIndex flow.key (s.managers i).ht.size
              (hashAddItem cfg (s.managers i) index flow now).map
                (fun p => (⟨Function.update s.managers i p.1, Function.update s.queues i queue⟩,
                  some ⟨i, flow, p.2⟩))
        else none
    | .discard i =>
        if i < numbers.toNat then
          (Fifo.take (s.queues i)).map
            (fun p => ({ s with queues := Function.update s.queues i p.2 }, none))
        else none
    | .sweep i b now destoryTime =>
        if i < numbers.toNat ∧ b < (s.managers i).ht.rounds then
          (deleteSession cfg (s.managers i) b now destoryTime).map
            (fun m => ({ s with managers := Function.update s.managers i m }, none))
        else none

/-- `init_manager_group`: managers just initialised, queues empty. -/
structure StageInit (cfg : Config) (numbers : UInt32) (hashLength : Int32) (s : Stage) : Prop where
  managers : ∀ i < numbers.toNat, ∃ fuel garbage,
    initSignleManager cfg i fuel hashLength garbage = some (s.managers i)
  queues : ∀ i, s.queues i = []

/-! ## §2. Keys of nodes. -/

def Blist.key (node : Blist) : Key := node.item.key

/-- The bucket a manager computes from a flow is the one `hash_add_item` reduces it to. -/
theorem slot_bucketIndex (m : Manager) (key : Key) :
    m.slot (bucketIndex key m.ht.size) = (bucketIndex key m.ht.size).toNat := by
  unfold Manager.slot bucketIndex makeHash
  rw [UInt32.toNat_mod, UInt32.toNat_mod, Nat.mod_mod]

/-- **Flows of one key are looked up alike.** -/
theorem findList_congr {flow flow' : FlowItem} (h : flow.key = flow'.key) (ll : List Blist) :
    findList ll flow = findList ll flow' := by
  induction ll with
  | nil => rfl
  | cons node rest ih =>
      simp only [findList, compareSession_eq_zero_iff, h, ih]

/-! ## §3. Placement in one manager. -/

/-- **Every session of manager `i` is where its key belongs**, and no other
    session of its bucket has that key. -/
structure Placed (numbers : UInt32) (i : Nat) (m : Manager) : Prop where
  manager : ∀ b < m.ht.rounds, ∀ node ∈ (m.bucket b).list, (hashIndex node.key numbers).toNat = i
  bucket : ∀ b < m.ht.rounds, ∀ node ∈ (m.bucket b).list,
    (bucketIndex node.key m.ht.size).toNat = b
  unique : ∀ b < m.ht.rounds, ((m.bucket b).list.map Blist.key).Nodup

section Placement

variable {cfg : Config} {numbers : UInt32} {i : Nat} {m : Manager}

/-- A changed bucket keeps the placement when its own nodes are placed. -/
theorem Placed.setBucket (hp : Placed numbers i m) {b : Nat} {pool : List Blist} {bucket : Bucket}
    (hnodes : ∀ node ∈ bucket.list, (hashIndex node.key numbers).toNat = i
      ∧ (bucketIndex node.key m.ht.size).toNat = b)
    (hnd : (bucket.list.map Blist.key).Nodup) :
    Placed numbers i (({ m with sessionPool := pool }).setBucket b bucket) := by
  refine ⟨?_, ?_, ?_⟩
  · intro c hc node hnode
    by_cases hcb : c = b
    · rw [hcb, bucket_setBucket_self] at hnode
      exact (hnodes node hnode).1
    · rw [bucket_setBucket_of_ne _ _ hcb] at hnode
      exact hp.manager c hc node hnode
  · intro c hc node hnode
    by_cases hcb : c = b
    · rw [hcb, bucket_setBucket_self] at hnode
      rw [hcb]
      exact (hnodes node hnode).2
    · rw [bucket_setBucket_of_ne _ _ hcb] at hnode
      exact hp.bucket c hc node hnode
  · intro c hc
    by_cases hcb : c = b
    · rw [hcb, bucket_setBucket_self]
      exact hnd
    · rw [bucket_setBucket_of_ne _ _ hcb]
      exact hp.unique c hc

/-- Dropping sessions of a bucket keeps the placement. -/
theorem Placed.sublist (hp : Placed numbers i m) {b : Nat} (hb : b < m.ht.rounds)
    {pool : List Blist} {bucket : Bucket} (hsub : bucket.list.Sublist (m.bucket b).list) :
    Placed numbers i (({ m with sessionPool := pool }).setBucket b bucket) := by
  refine hp.setBucket ?_ ((hp.unique b hb).sublist (hsub.map Blist.key))
  intro node hnode
  have hold := hsub.subset hnode
  exact ⟨hp.manager b hb node hold, hp.bucket b hb node hold⟩

theorem Placed.swept (hp : Placed numbers i m) {b : Nat} (hb : b < m.ht.rounds) (now : UInt64)
    (destoryTime : Int32) : Placed numbers i (m.swept cfg b now destoryTime) :=
  hp.sublist hb List.filter_sublist

/-- **`hash_add_item` keeps the placement** when manager and bucket are the
    ones the flow's key selects. -/
theorem Placed.adds (hp : Placed numbers i m) {b : Nat} (hb : b < m.ht.rounds) {flow : FlowItem}
    {now : UInt64} {m' : Manager} {out : Outcome} (h : Adds cfg m b flow now m' out)
    (hmanager : (hashIndex flow.key numbers).toNat = i)
    (hbucket : (bucketIndex flow.key m.ht.size).toNat = b) : Placed numbers i m' := by
  cases h with
  | @created fresh pool _ hnone =>
      refine hp.setBucket ?_ ?_
      · intro node hnode
        rcases List.mem_append.mp hnode with hnode | hnode
        · exact ⟨hp.manager b hb node hnode, hp.bucket b hb node hnode⟩
        · rw [List.mem_singleton.mp hnode]
          exact ⟨hmanager, hbucket⟩
      · -- the fresh session's key was not found in the bucket
        show (((m.bucket b).list ++ [_]).map Blist.key).Nodup
        rw [List.map_append, List.nodup_append]
        refine ⟨hp.unique b hb, List.nodup_singleton _, ?_⟩
        intro k hk k' hk' heq
        obtain ⟨node, hnode, rfl⟩ := List.mem_map.mp hk
        rw [List.map_singleton, List.mem_singleton] at hk'
        exact hnone node hnode (by rw [show node.item.key = node.key from rfl, heq, hk']; rfl)
  | @appended pre post node _ hlist hkey _ =>
      -- an append leaves the key of the node it writes through
      have hkeys : (pre ++ appendSession node flow now :: post).map Blist.key
          = (m.bucket b).list.map Blist.key := by
        rw [hlist, List.map_append, List.map_append, List.map_cons, List.map_cons]
        rfl
      refine Placed.setBucket hp ?_ ?_
      · intro x hx
        have hmem : x.key ∈ (m.bucket b).list.map Blist.key := by
          rw [← hkeys]
          exact List.mem_map_of_mem hx
        obtain ⟨y, hy, hxy⟩ := List.mem_map.mp hmem
        rw [← hxy]
        exact ⟨hp.manager b hb y hy, hp.bucket b hb y hy⟩
      · show ((pre ++ appendSession node flow now :: post).map Blist.key).Nodup
        rw [hkeys]
        exact hp.unique b hb
  | @flushed pre post node _ hlist _ _ =>
      -- one node fewer, nothing to show of those that stay
      refine hp.sublist hb ?_
      rw [hlist]
      exact (List.sublist_cons_self node post).append_left pre

end Placement

/-- A fresh table is placed: it has no sessions. -/
theorem placed_initSignleManager {cfg : Config} {i fuel : Nat} {hashLength : Int32}
    {garbage : Nat → SessionItem} {m : Manager} (numbers : UInt32) (j : Nat)
    (h : initSignleManager cfg i fuel hashLength garbage = some m) : Placed numbers j m := by
  obtain ⟨_, _, hempty⟩ := wellFormed_initSignleManager h
  refine ⟨?_, ?_, ?_⟩
  · intro b _ node hnode
    rw [hempty] at hnode
    exact absurd hnode List.not_mem_nil
  · intro b _ node hnode
    rw [hempty] at hnode
    exact absurd hnode List.not_mem_nil
  · intro b _
    rw [hempty]
    exact List.nodup_nil

/-! ## §4. Placement in the whole stage. -/

/-- The invariant of the stages: tables well formed and placed, flows queued
    where their key sends them. -/
structure StageInv (cfg : Config) (numbers : UInt32) (s : Stage) : Prop where
  wellFormed : ∀ i < numbers.toNat, WellFormed cfg.poolSize (s.managers i)
  placed : ∀ i < numbers.toNat, Placed numbers i (s.managers i)
  queued : ∀ i < numbers.toNat, ∀ flow ∈ s.queues i, (hashIndex flow.key numbers).toNat = i

section Run

variable {cfg : Config} {parserNums : Nat} {numbers : UInt32}

theorem stageInv_init {hashLength : Int32} {s : Stage}
    (h : StageInit cfg numbers hashLength s) : StageInv cfg numbers s := by
  refine ⟨?_, ?_, ?_⟩
  · intro i hi
    obtain ⟨_, _, hinit⟩ := h.managers i hi
    exact (wellFormed_initSignleManager hinit).1
  · intro i hi
    obtain ⟨_, _, hinit⟩ := h.managers i hi
    exact placed_initSignleManager numbers i hinit
  · intro i _ flow hflow
    rw [h.queues] at hflow
    exact absurd hflow List.not_mem_nil

/-- Changing one queue. -/
theorem StageInv.setQueue {s : Stage} (hs : StageInv cfg numbers s) {i : Nat}
    {queue : List FlowItem} (hqueue : ∀ flow ∈ queue, (hashIndex flow.key numbers).toNat = i) :
    StageInv cfg numbers { s with queues := Function.update s.queues i queue } := by
  refine ⟨hs.wellFormed, hs.placed, ?_⟩
  intro j hj flow hflow
  by_cases hji : j = i
  · rw [hji] at hflow ⊢
    simp only [Function.update_self] at hflow
    exact hqueue flow hflow
  · simp only [Function.update_of_ne hji] at hflow
    exact hs.queued j hj flow hflow

/-- Changing one manager. -/
theorem StageInv.setManager {s : Stage} (hs : StageInv cfg numbers s) {i : Nat} {m : Manager}
    (hw : WellFormed cfg.poolSize m) (hp : Placed numbers i m) :
    StageInv cfg numbers { s with managers := Function.update s.managers i m } := by
  refine ⟨?_, ?_, hs.queued⟩
  · intro j hj
    by_cases hji : j = i
    · simp only [hji, Function.update_self]
      exact hw
    · simp only [Function.update_of_ne hji]
      exact hs.wellFormed j hj
  · intro j hj
    by_cases hji : j = i
    · simp only [hji, Function.update_self]
      exact hp
    · simp only [Function.update_of_ne hji]
      exact hs.placed j hj

/-- **What a step of the stages can do.** -/
inductive StageStep (cfg : Config) (parserNums : Nat) (numbers : UInt32) (s : Stage) :
    StageCall → Stage → Option Inserted → Prop where
  | delivered {parser index : Nat} {flow : FlowItem} {packet : PacketT} :
      parser < parserNums → (hashIndex (packetKey packet) numbers).toNat = index →
      index < numbers.toNat →
      StageStep cfg parserNums numbers s (.deliver parser flow packet)
        { s with queues :=
            Function.update s.queues index (s.queues index ++ [makeFlowItemTcp flow packet]) } none
  | inserted {i b : Nat} {now : UInt64} {flow : FlowItem} {queue : List FlowItem} {m : Manager}
      {out : Outcome} :
      i < numbers.toNat → s.queues i = flow :: queue → b < (s.managers i).ht.rounds →
      (bucketIndex flow.key (s.managers i).ht.size).toNat = b →
      Adds cfg (s.managers i) b flow now m out →
      StageStep cfg parserNums numbers s (.insert i now)
        ⟨Function.update s.managers i m, Function.update s.queues i queue⟩ (some ⟨i, flow, out⟩)
  | discarded {i : Nat} {flow : FlowItem} {queue : List FlowItem} :
      i < numbers.toNat → s.queues i = flow :: queue →
      StageStep cfg parserNums numbers s (.discard i)
        { s with queues := Function.update s.queues i queue } none
  | swept {i b : Nat} {now : UInt64} {destoryTime : Int32} :
      i < numbers.toNat → b < (s.managers i).ht.rounds →
      StageStep cfg parserNums numbers s (.sweep i b now destoryTime)
        { s with managers :=
            Function.update s.managers i ((s.managers i).swept cfg b now destoryTime) } none

theorem stageStep_cases {s s' : Stage} {call : StageCall} {r : Option Inserted}
    (hs : StageInv cfg numbers s)
    (h : (stage cfg parserNums numbers).step s call = some (s', r)) :
    StageStep cfg parserNums numbers s call s' r := by
  cases call with
  | deliver parser flow packet =>
      simp only [stage] at h
      split at h
      · rename_i hnums
        obtain ⟨queue, hpush, heq⟩ := Option.map_eq_some_iff.mp h
        simp only [Prod.mk.injEq] at heq
        rw [← heq.1, ← heq.2, (Fifo.push_eq_some.mp hpush).2]
        exact StageStep.delivered hnums.1 rfl (makeHash_lt _ _ _ _ hnums.2)
      · exact absurd h (by simp)
  | insert i now =>
      simp only [stage] at h
      split at h
      · rename_i hi
        split at h
        · exact absurd h (by simp)
        · -- the table's own inversion says what the insertion did
          rename_i flow queue htake
          obtain ⟨⟨m, out⟩, hadd, heq⟩ := Option.map_eq_some_iff.mp h
          simp only [Prod.mk.injEq] at heq
          obtain ⟨hb, hcase⟩ := (hs.wellFormed i hi).hashAddItem_cases hadd
          rw [slot_bucketIndex] at hb hcase
          rw [← heq.1, ← heq.2]
          exact StageStep.inserted hi (Fifo.take_eq_some.mp htake) hb rfl hcase
      · exact absurd h (by simp)
  | discard i =>
      simp only [stage] at h
      split at h
      · rename_i hi
        obtain ⟨⟨flow, queue⟩, htake, heq⟩ := Option.map_eq_some_iff.mp h
        simp only [Prod.mk.injEq] at heq
        rw [← heq.1, ← heq.2]
        exact StageStep.discarded hi (Fifo.take_eq_some.mp htake)
      · exact absurd h (by simp)
  | sweep i b now destoryTime =>
      simp only [stage] at h
      split at h
      · -- a sweep of a well-formed table never gets stuck
        rename_i hib
        rw [(hs.wellFormed i hib.1).deleteSession_eq hib.2] at h
        simp only [Option.map_some, Option.some.injEq, Prod.mk.injEq] at h
        rw [← h.1, ← h.2]
        exact StageStep.swept hib.1 hib.2
      · exact absurd h (by simp)

/-- **Every step of the stages keeps the invariant.** -/
theorem StageInv.step {s s' : Stage} {call : StageCall} {r : Option Inserted}
    (hs : StageInv cfg numbers s) (h : StageStep cfg parserNums numbers s call s' r) :
    StageInv cfg numbers s' := by
  cases h with
  | @delivered parser index flow packet _ hindex hi =>
      refine hs.setQueue ?_
      intro f hf
      rcases List.mem_append.mp hf with hf | hf
      · exact hs.queued index hi f hf
      · rw [List.mem_singleton.mp hf]
        exact hindex
  | @inserted i b now flow queue m out hi hqueue hb hslot hcase =>
      have hflow := hs.queued i hi flow (by rw [hqueue]; exact List.mem_cons_self)
      refine (hs.setManager ((hs.wellFormed i hi).adds hb hcase)
        ((hs.placed i hi).adds hb hcase hflow hslot)).setQueue ?_
      intro f hf
      exact hs.queued i hi f (by rw [hqueue]; exact List.mem_cons_of_mem _ hf)
  | @discarded i flow queue hi hqueue =>
      refine hs.setQueue ?_
      intro f hf
      exact hs.queued i hi f (by rw [hqueue]; exact List.mem_cons_of_mem _ hf)
  | @swept i b now destoryTime hi hb =>
      exact hs.setManager ((hs.wellFormed i hi).swept hb now destoryTime)
        ((hs.placed i hi).swept hb now destoryTime)

theorem stageRun_inv {s s' : Stage} {calls : List StageCall} {rs : List (Option Inserted)}
    (hs : StageInv cfg numbers s)
    (hrun : (stage cfg parserNums numbers).run s calls = some (s', rs)) :
    StageInv cfg numbers s' :=
  (stage cfg parserNums numbers).run_induction (StageInv cfg numbers)
    (fun _ _ _ _ hs hstep => hs.step (stageStep_cases hs hstep)) hrun hs

end Run

/-! ## §5. One session for each key. -/

/-- One session per key, in its place, for both directions. -/
structure OneSession (numbers : UInt32) (s : Stage) : Prop where
  /-- All managers' tables together hold at most one session of a key. -/
  atMostOne : ∀ k : Key, ∑ i ∈ Finset.range numbers.toNat,
    ∑ b ∈ Finset.range (s.managers i).ht.rounds,
      ((s.managers i).bucket b).list.countP (fun node => node.key == k) ≤ 1
  /-- A session lies in the manager and the bucket its key's hashes select. -/
  inPlace : ∀ i < numbers.toNat, ∀ b < (s.managers i).ht.rounds,
    ∀ node ∈ ((s.managers i).bucket b).list,
      (hashIndex node.key numbers).toNat = i
        ∧ (bucketIndex node.key (s.managers i).ht.size).toNat = b
  /-- A packet and its reverse go to the same manager and bucket, and find
      the same session there. -/
  reverseMeets : ∀ (p q : PacketT) (flow flow' : FlowItem), ipProtocol p = ipProtocol q →
    endpoints p = (endpoints q).reverse →
      hashIndex (makeFlowItemTcp flow p).key numbers
          = hashIndex (makeFlowItemTcp flow' q).key numbers
        ∧ ∀ i < numbers.toNat,
          bucketIndex (makeFlowItemTcp flow p).key (s.managers i).ht.size
              = bucketIndex (makeFlowItemTcp flow' q).key (s.managers i).ht.size
            ∧ ∀ b, findList ((s.managers i).bucket b).list (makeFlowItemTcp flow p)
              = findList ((s.managers i).bucket b).list (makeFlowItemTcp flow' q)

/-- Keys that do not repeat are counted at most once. -/
theorem countP_key_le_one {l : List Blist} (hnd : (l.map Blist.key).Nodup) (k : Key) :
    l.countP (fun node => node.key == k) ≤ 1 := by
  have hcount := List.nodup_iff_count_le_one.mp hnd k
  rw [List.count, List.countP_map] at hcount
  exact hcount

theorem StageInv.oneSession {cfg : Config} {numbers : UInt32} {s : Stage}
    (hs : StageInv cfg numbers s) : OneSession numbers s := by
  refine ⟨?_, ?_, ?_⟩
  · intro k
    -- only the manager and the bucket selected by `k` can contribute
    have hzero : ∀ i < numbers.toNat, ∀ b < (s.managers i).ht.rounds,
        (hashIndex k numbers).toNat ≠ i ∨ (bucketIndex k (s.managers i).ht.size).toNat ≠ b →
        ((s.managers i).bucket b).list.countP (fun node => node.key == k) = 0 := by
      intro i hi b hb hne
      rw [List.countP_eq_zero]
      intro node hnode hk
      have hkey : node.key = k := eq_of_beq hk
      rcases hne with hne | hne
      · exact hne (hkey ▸ (hs.placed i hi).manager b hb node hnode)
      · exact hne (hkey ▸ (hs.placed i hi).bucket b hb node hnode)
    refine sum_range_le_of_single (c := (hashIndex k numbers).toNat) _ ?_ ?_
    · intro i hi hne
      exact Finset.sum_eq_zero (fun b hb =>
        hzero i hi b (Finset.mem_range.mp hb) (Or.inl (Ne.symm hne)))
    · intro i hi
      refine sum_range_le_of_single (c := (bucketIndex k (s.managers i).ht.size).toNat) _ ?_ ?_
      · intro b hb hne
        exact hzero i hi b hb (Or.inr (Ne.symm hne))
      · intro b hb
        exact countP_key_le_one ((hs.placed i hi).unique b hb) k
  · intro i hi b hb node hnode
    exact ⟨(hs.placed i hi).manager b hb node hnode, (hs.placed i hi).bucket b hb node hnode⟩
  · intro p q flow flow' hproto hrev
    have hkey : (makeFlowItemTcp flow p).key = (makeFlowItemTcp flow' q).key :=
      key_reverse hproto hrev
    refine ⟨by rw [hkey], ?_⟩
    intro i _
    exact ⟨by rw [hkey], fun b => findList_congr hkey _⟩

/-- **ONE SESSION FOR EACH KEY** in every state of every run of the stages,
    with any number of parsers and at least one manager. -/
theorem stageRun_oneSession {cfg : Config} {parserNums : Nat} {numbers : UInt32}
    {hashLength : Int32} {s₀ s : Stage} {calls : List StageCall} {rs : List (Option Inserted)}
    (hinit : StageInit cfg numbers hashLength s₀)
    (hrun : (stage cfg parserNums numbers).run s₀ calls = some (s, rs)) :
    OneSession numbers s :=
  (stageRun_inv (stageInv_init hinit) hrun).oneSession

/-! ## §6. A stage with one manager. -/

/-- Managers just initialised for a hash length of 1, nothing queued. -/
def freshStage : Stage := { managers := freshManager, queues := fun _ => [] }

theorem stageInit_freshStage (managerBufferSize mhz : Int32) (numbers : UInt32) :
    StageInit (sourceConfig managerBufferSize mhz) numbers 1 freshStage :=
  ⟨fun i _ => ⟨1, fun _ => blankItem, initSignleManager_fresh managerBufferSize mhz i⟩,
    fun _ => rfl⟩

/-- One parser and one manager: a delivered flow becomes the one session of its key. -/
theorem oneDelivery_oneSession :
    ∃ s rs, (stage (sourceConfig 65536 1000) 1 1).run freshStage
        [.deliver 0 blankFlow blankPacket, .insert 0 5] = some (s, rs)
      ∧ OneSession 1 s := by
  obtain ⟨rest, hfresh⟩ := freshManager_eq
  have hrun : ∃ s rs, (stage (sourceConfig 65536 1000) 1 1).run freshStage
      [.deliver 0 blankFlow blankPacket, .insert 0 5] = some (s, rs) := by
    unfold freshStage
    rw [show freshManager = fun i => managerWith i _ from funext hfresh]
    exact ⟨_, _, rfl⟩
  obtain ⟨s, rs, hrun⟩ := hrun
  exact ⟨s, rs, hrun, stageRun_oneSession (stageInit_freshStage 65536 1000 1) hrun⟩

end FreePacket.Session
