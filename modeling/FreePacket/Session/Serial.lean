/-
  FreePacket.Session.Serial
  ─────────────────────────
  **THE BUCKET LOCKS MAKE BOTH THREADS ATOMIC.**

  `hash_add_item` and `delete_session` lock one bucket each, and between two
  steps of the cleaner in its bucket the manager goes on in the others.  The
  table then is no state of a serial execution: nodes come back to the pool
  in between, one after the other.  What the table stands for is one: its map
  (`Manager.map`) is that of a serial run of insertions and sweeps, where an
  insertion takes effect when it is made and a sweep when the bucket is
  unlocked (`bucketLocks_serialise`).

  During a sweep the keys removed so far are `gone`: the serial map still has
  them, and no insertion can meet one, because its bucket is locked.

  `destory_time` can change between two nodes of one sweep, so the life times
  the cleaner reads come from a set `D`; with one element the sweeps erase
  exactly what is older.

  Main result: `bucketLocks_serialise`.
-/
import FreePacket.Session.Map
import FreePacket.Session.Threads
import Mathlib.Data.Set.Basic

namespace FreePacket.Session

open FreePacket.Lib FreePacket.Lib.Keyed FreePacket.Packet

/-! ## §1. The serial table. -/

/-- A whole `hash_add_item`, or a whole `delete_session` that erases the
    `doomed` keys of chain `i`. -/
inductive MapCall where
  | add (k : Key) (payload : List UInt8) (now : UInt64)
  | sweep (i : Nat) (current : UInt64) (doomed : Key → Bool)

/-- Chain `i` without the `doomed` keys. -/
def eraseChain (chain : Key → Nat) (map : Key → Option Entry) (i : Nat) (doomed : Key → Bool) :
    Key → Option Entry :=
  fun k => if chain k = i ∧ doomed k = true then none else map k

/-- The map under insertions and sweeps, one after the other. -/
def serialTable (size : Nat) (chain : Key → Nat) : Machine (Key → Option Entry) MapCall Unit where
  step map call :=
    match call with
    | .add k payload now => some (addFlow size map k payload now, ())
    | .sweep i _ doomed => some (eraseChain chain map i doomed, ())

/-- The test of `delete_session`, at `current_time`. -/
def Outlived (cfg : Config) (current : UInt64) (e : Entry) (destoryTime : Int32) : Prop :=
  current - e.lastTime > lifetime cfg destoryTime

/-- A sweep erases what it found too old, and keeps what it did not, by life
    times from `D`. -/
def Just (cfg : Config) (D : Set Int32) (chain : Key → Nat) (map : Key → Option Entry) :
    MapCall → Prop
  | .add _ _ _ => True
  | .sweep i current doomed =>
      ∀ k e, chain k = i → map k = some e →
        (doomed k = true → ∃ d ∈ D, Outlived cfg current e d)
          ∧ (doomed k = false → ∃ d ∈ D, ¬ Outlived cfg current e d)

/-- With one life time a sweep erases exactly what is older. -/
theorem Just.exact {cfg : Config} {d : Int32} {chain : Key → Nat} {map : Key → Option Entry}
    {i : Nat} {current : UInt64} {doomed : Key → Bool}
    (h : Just cfg {d} chain map (.sweep i current doomed)) {k : Key} {e : Entry}
    (hk : chain k = i) (he : map k = some e) : doomed k = true ↔ Outlived cfg current e d := by
  obtain ⟨hdoomed, hkept⟩ := h k e hk he
  constructor
  · intro hd
    obtain ⟨d', hmem, hold⟩ := hdoomed hd
    rw [Set.mem_singleton_iff.mp hmem] at hold
    exact hold
  · intro hold
    by_contra hno
    obtain ⟨d', hmem, hyoung⟩ := hkept (Bool.eq_false_iff.mpr hno)
    rw [Set.mem_singleton_iff.mp hmem] at hyoung
    exact hyoung hold

/-- The insertions of a serial run. -/
def insertions (calls : List MapCall) : List (Key × List UInt8) :=
  calls.filterMap fun c => match c with | .add k payload _ => some (k, payload) | _ => none

/-- The buckets a serial run sweeps. -/
def sweeps (calls : List MapCall) : List Nat :=
  calls.filterMap fun c => match c with | .sweep i _ _ => some i | _ => none

theorem insertions_snoc (calls : List MapCall) (c : MapCall) :
    insertions (calls ++ [c]) = insertions calls ++ insertions [c] := List.filterMap_append ..

theorem sweeps_snoc (calls : List MapCall) (c : MapCall) :
    sweeps (calls ++ [c]) = sweeps calls ++ sweeps [c] := List.filterMap_append ..

/-! ## §2. The map under one step of a thread. -/

section Map

variable {cfg : Config} {m m' : Manager} {flow : FlowItem} {now : UInt64} {out : Outcome}

/-- An insertion that fits a session buffer copies inside it. -/
theorem MapInv.adds_inside (hm : MapInv cfg m) {b : Nat} (hb : b < m.ht.rounds)
    (hlen : (flow.payloadLen.toNat : Int) ≤ cfg.managerBufferSize.toInt)
    (h : Adds cfg m b flow now m' out) : out.CopyInside := by
  cases h with
  | created _ _ =>
      have hsize : cfg.managerBufferSize.toUInt32.toNat = cfg.managerBufferSize.toInt.toNat :=
        Int32.toNat_toUInt32_of_le (Int32.le_iff_toInt_le.mpr (show 0 ≤ _ by omega))
      rw [created_inside_iff, UInt32.le_iff_toNat_le, hsize]
      omega
  | @appended pre post node _ hlist _ hfit =>
      obtain ⟨hsum, _⟩ := fits_iff hm.bounded hb (mem_of_split hlist) hlen
      exact (appended_inside_iff node.addr hfit).mpr (Or.inl hsum)
  | flushed _ _ _ _ => trivial

/-- **An insertion** is one update of the map. -/
theorem MapInv.map_addFlow (hm : MapInv cfg m) (hb : m.chain flow.key < m.ht.rounds)
    (hlen : (flow.payloadLen.toNat : Int) ≤ cfg.managerBufferSize.toInt)
    (h : Adds cfg m (m.chain flow.key) flow now m' out) :
    m'.map = addFlow cfg.managerBufferSize.toInt.toNat m.map flow.key (payloadBytes flow) now := by
  obtain ⟨hothers, hentry⟩ := h.chain hm hb hlen
  rw [hm.map_adds hb h hothers]
  unfold addFlow
  rw [hm.map_eq hb]
  exact congrArg (Function.update m.map flow.key) hentry

/-- **A removal** erases the key of the node. -/
theorem MapInv.map_removed (hm : MapInv cfg m) {i : Nat} (hi : i < m.ht.rounds)
    {kept next : List Blist} {node : Blist} (hlist : (m.bucket i).list = kept ++ node :: next) :
    (m.removed i node (kept ++ next)).map = Function.update m.map node.key none := by
  have hunique := hm.placed.unique i hi
  rw [hlist] at hunique
  obtain ⟨hkept, hnext⟩ := key_ne_of_nodup hunique
  -- the node is in the bucket of its key, and so are those that stay
  have hchain : m.chain node.key = i := hm.placed.bucket i hi node (mem_of_split hlist)
  have hstay : ∀ x ∈ kept ++ next, m.chain x.key = m.chain node.key := by
    intro x hx
    rw [hchain]
    refine hm.placed.bucket i hi x ?_
    rw [hlist]
    exact ((List.sublist_cons_self node next).append_left kept).subset hx
  have hothers : others Blist.key node.key (kept ++ next)
      = others Blist.key node.key (m.lists (m.chain node.key)) := by
    rw [hchain]
    show _ = others Blist.key node.key (m.bucket i).list
    rw [hlist]
    exact (others_append_cons kept next rfl).symm
  -- no second session of the key is left behind
  have hgone : lookup Blist.key node.key (kept ++ next) = none := by
    rw [lookup_eq_none_iff]
    intro x hx heq
    rcases List.mem_append.mp hx with hx | hx
    · exact hkept x hx heq
    · exact hnext x hx heq
  have hupdate := lookup_collect_update hm.placed.indexed (fun k => chain_lt k hi) hstay hothers
  rw [hchain, hgone] at hupdate
  have hlists : (m.removed i node (kept ++ next)).lists
      = Function.update m.lists i (kept ++ next) := by
    unfold Manager.removed
    rw [lists_setBucket]
    rfl
  funext k
  have hk := congrFun hupdate k
  show (lookup Blist.key k (collect m.ht.rounds (m.removed i node (kept ++ next)).lists)).map
    Blist.entry = _
  rw [hlists, hk]
  -- the key of the node, or one whose entry stays
  by_cases hkey : k = node.key
  · rw [hkey, Function.update_self, Function.update_self]
    rfl
  · rw [Function.update_of_ne hkey, Function.update_of_ne hkey]
    rfl

end Map

/-! ## §3. The invariant. -/

/-- The flow the manager has fetched and not inserted. -/
def ManagerPc.pending : ManagerPc → List FlowItem
  | .waitLock flow | .locked flow | .waitSession flow => [flow]
  | _ => []

/-- The bucket the cleaner is at, or will start from. -/
def CleanerPc.bucket : CleanerPc → Nat
  | .resting _ => 0
  | .waitLock _ i | .sweeping _ i _ _ => i

@[simp] theorem bucket_resting (wake : UInt64) : (CleanerPc.resting wake).bucket = 0 := rfl

/-- The flows the manager has dequeued. -/
def fetched (calls : List ThreadCall) : List FlowItem :=
  calls.filterMap fun c => match c with | .fetch flow => some flow | _ => none

theorem fetched_snoc (calls : List ThreadCall) (c : ThreadCall) :
    fetched (calls ++ [c]) = fetched calls ++ fetched [c] := List.filterMap_append ..

/-- What an insertion is given of a flow. -/
def insertionOf (flow : FlowItem) : Key × List UInt8 := (flow.key, payloadBytes flow)

/-- A payload no longer than a session buffer. -/
def PayloadFitsBuffer (cfg : Config) (flow : FlowItem) : Prop :=
  (flow.payloadLen.toNat : Int) ≤ cfg.managerBufferSize.toInt

/-- **The sweep in progress**: what is `gone` was in the swept chain and too
    old, and what the cursor has passed was not. -/
def SweepInv (cfg : Config) (D : Set Int32) (s : Threads) (map : Key → Option Entry)
    (gone : Key → Bool) : Prop :=
  match s.cleanerPc with
  | .sweeping _ i current rest =>
      (∀ k, gone k = true → s.m.chain k = i
        ∧ ∃ e, map k = some e ∧ ∃ d ∈ D, Outlived cfg current e d)
      ∧ ∃ kept, (s.m.bucket i).list = kept ++ rest
        ∧ ∀ node ∈ kept, ∃ d ∈ D, ¬ Outlived cfg current node.entry d
  | _ => ∀ k, gone k = false

/-- **The two threads and a serial run** `ops` that ends in `map`, after the
    steps `calls`. -/
structure SerialRun (cfg : Config) (D : Set Int32) (K : Finset Key) (chain : Key → Nat)
    (rounds : Nat) (calls : List ThreadCall) (s : Threads) (ops : List MapCall)
    (map : Key → Option Entry) (gone : Key → Bool) : Prop where
  inv : ThreadInv cfg K s
  bounded : Bounded cfg s.m
  fits : ∀ flow ∈ s.managerPc.pending, PayloadFitsBuffer cfg flow
  chain_eq : s.m.chain = chain
  rounds_eq : s.m.ht.rounds = rounds
  map_eq : s.m.map = fun k => if gone k = true then none else map k
  sweep : SweepInv cfg D s map gone
  serial : ((serialTable cfg.managerBufferSize.toInt.toNat chain).run (fun _ => none) ops).map
    Prod.fst = some map
  just : (serialTable cfg.managerBufferSize.toInt.toNat chain).Along (Just cfg D chain)
    (fun _ => none) ops
  inserted : (fetched calls).map insertionOf
    = insertions ops ++ s.managerPc.pending.map insertionOf
  in_turn : sweeps ops = (List.range (sweeps ops).length).map (· % rounds)
  turn : (sweeps ops).length % rounds = s.cleanerPc.bucket

section Steps

variable {cfg : Config} {D : Set Int32} {K : Finset Key} {chain : Key → Nat} {rounds : Nat}
  {calls : List ThreadCall} {s s' : Threads} {ops : List MapCall} {map : Key → Option Entry}
  {gone : Key → Bool}

theorem SerialRun.mapInv (h : SerialRun cfg D K chain rounds calls s ops map gone) :
    MapInv cfg s.m :=
  ⟨h.inv.table.wellFormed, h.inv.table.placed, h.bounded⟩

/-- The next operation of a serial run. -/
theorem serial_snoc {size : Nat} {op : MapCall} {map' : Key → Option Entry}
    (hserial : ((serialTable size chain).run (fun _ => none) ops).map Prod.fst = some map)
    (hjust : (serialTable size chain).Along (Just cfg D chain) (fun _ => none) ops)
    (hop : (serialTable size chain).step map op = some (map', ()))
    (hfair : Just cfg D chain map op) :
    ((serialTable size chain).run (fun _ => none) (ops ++ [op])).map Prod.fst = some map'
      ∧ (serialTable size chain).Along (Just cfg D chain) (fun _ => none) (ops ++ [op]) := by
  obtain ⟨⟨map₁, rs⟩, hrun, rfl⟩ := Option.map_eq_some_iff.mp hserial
  constructor
  · rw [Option.map_eq_some_iff]
    exact ⟨(map', rs ++ [()]), (Machine.run_append _).mpr
      ⟨map₁, rs, [()], hrun, Machine.run_singleton _ hop, rfl⟩, rfl⟩
  · rw [Machine.along_append]
    refine ⟨hjust, ?_⟩
    intro map₂ rs₂ hrun₂
    rw [hrun, Option.some.injEq, Prod.mk.injEq] at hrun₂
    rw [← hrun₂.1]
    exact ⟨hfair, fun _ _ _ => trivial⟩

/-- A step that leaves the table alone. -/
theorem SerialRun.quiet (h : SerialRun cfg D K chain rounds calls s ops map gone)
    {call : ThreadCall} (hthreads : ThreadInv cfg K s') (hm : s'.m = s.m)
    (hfits : ∀ flow ∈ fetched [call], PayloadFitsBuffer cfg flow)
    (hpending : s'.managerPc.pending = s.managerPc.pending ++ fetched [call])
    (hsweep : SweepInv cfg D s' map gone)
    (hbucket : s'.cleanerPc.bucket = s.cleanerPc.bucket) :
    SerialRun cfg D K chain rounds (calls ++ [call]) s' ops map gone := by
  refine { h with
    inv := hthreads, bounded := ?_, fits := ?_, chain_eq := ?_, rounds_eq := ?_, map_eq := ?_
    sweep := hsweep, inserted := ?_, turn := ?_ }
  · rw [hm]
    exact h.bounded
  · intro flow hflow
    rw [hpending] at hflow
    rcases List.mem_append.mp hflow with hold | hnew
    · exact h.fits flow hold
    · exact hfits flow hnew
  · rw [hm]
    exact h.chain_eq
  · rw [hm]
    exact h.rounds_eq
  · rw [hm]
    exact h.map_eq
  · rw [fetched_snoc, List.map_append, h.inserted, hpending, List.map_append, List.append_assoc]
  · rw [hbucket]
    exact h.turn

/-- The sweep does not see what the manager does outside the table. -/
theorem SweepInv.frame (h : SweepInv cfg D s map gone) (hpc : s'.cleanerPc = s.cleanerPc)
    (hm : s'.m = s.m) : SweepInv cfg D s' map gone := by
  unfold SweepInv at h ⊢
  rw [hpc, hm]
  exact h

/-- **No insertion meets a key that is gone**: its bucket is locked. -/
theorem SerialRun.not_gone (h : SerialRun cfg D K chain rounds calls s ops map gone)
    {flow : FlowItem} (hlock : s.lock (s.m.home flow) = some .manager) :
    gone flow.key = false := by
  have hsweep := h.sweep
  have hcleaner := h.inv.cleaner
  unfold SweepInv at hsweep
  unfold CleanerInv at hcleaner
  cases hpc : s.cleanerPc with
  | resting wake =>
      rw [hpc] at hsweep
      exact hsweep flow.key
  | waitLock start i =>
      rw [hpc] at hsweep
      exact hsweep flow.key
  | sweeping start i current rest =>
      rw [hpc] at hsweep hcleaner
      by_contra hno
      obtain ⟨hchain, _⟩ := hsweep.1 flow.key (Bool.not_eq_false _ ▸ hno)
      have hhome : s.m.home flow = i := by
        rw [← hchain]
        exact slot_bucketIndex s.m flow.key
      rw [hhome] at hlock
      exact ne_of_owner hlock (by decide) hcleaner.2.1

/-- **An insertion** is the next operation of the serial run. -/
theorem SerialRun.adds (h : SerialRun cfg D K chain rounds calls s ops map gone)
    {flow : FlowItem} {now : UInt64} {m : Manager} {out : Outcome}
    (hpc : s.managerPc = .locked flow ∨ s.managerPc = .waitSession flow)
    (hadds : Adds cfg s.m (s.m.home flow) flow now m out)
    (hthreads : ThreadInv cfg K { s with clock := now, m := m, managerPc := .unlocking flow }) :
    SerialRun cfg D K chain rounds (calls ++ [.manager now])
      { s with clock := now, m := m, managerPc := .unlocking flow }
      (ops ++ [.add flow.key (payloadBytes flow) now])
      (addFlow cfg.managerBufferSize.toInt.toNat map flow.key (payloadBytes flow) now) gone := by
  have hpending : s.managerPc.pending = [flow] := by
    rcases hpc with hpc | hpc
    · rw [hpc]
      rfl
    · rw [hpc]
      rfl
  have hin : s.m.home flow < s.m.ht.rounds ∧ s.lock (s.m.home flow) = some .manager := by
    have hmanager := h.inv.manager
    rcases hpc with hpc | hpc
    · simp only [ManagerInv, hpc] at hmanager
      exact hmanager.2
    · simp only [ManagerInv, hpc] at hmanager
      exact ⟨hmanager.2.1, hmanager.2.2.1⟩
  obtain ⟨hb, hlock⟩ := hin
  have hlen : PayloadFitsBuffer cfg flow := by
    refine h.fits flow ?_
    rw [hpending]
    exact List.mem_singleton_self _
  have hthere := h.not_gone hlock
  obtain ⟨hsize, hrounds, hother⟩ := hadds.frame
  have hchain : m.chain = s.m.chain := by
    funext k
    unfold Manager.chain
    rw [hsize]
  have hhome : s.m.home flow = s.m.chain flow.key := slot_bucketIndex s.m flow.key
  -- the serial map has the flow's own entry, as its key is not gone
  have hentry : s.m.map flow.key = map flow.key := by
    rw [h.map_eq]
    simp [hthere]
  have hmap : m.map = fun k => if gone k = true then none
      else addFlow cfg.managerBufferSize.toInt.toNat map flow.key (payloadBytes flow) now k := by
    rw [hhome] at hb hadds
    rw [h.mapInv.map_addFlow hb hlen hadds]
    unfold addFlow
    rw [hentry]
    funext k
    by_cases hk : k = flow.key
    · rw [hk, Function.update_self, Function.update_self, hthere]
      rfl
    · rw [Function.update_of_ne hk, Function.update_of_ne hk, h.map_eq]
  have hsweep : SweepInv cfg D { s with clock := now, m := m, managerPc := .unlocking flow }
      (addFlow cfg.managerBufferSize.toInt.toNat map flow.key (payloadBytes flow) now) gone := by
    have hold := h.sweep
    have hcleaner := h.inv.cleaner
    unfold SweepInv at hold ⊢
    unfold CleanerInv at hcleaner
    cases hcl : s.cleanerPc with
    | resting wake =>
        rw [hcl] at hold
        exact hold
    | waitLock start i =>
        rw [hcl] at hold
        exact hold
    | sweeping start i current rest =>
        rw [hcl] at hold hcleaner
        obtain ⟨hgone, kept, hlist, hkept⟩ := hold
        have hne : i ≠ s.m.home flow := by
          intro heq
          rw [← heq] at hlock
          exact ne_of_owner hlock (by decide) hcleaner.2.1
        refine ⟨?_, kept, ?_, hkept⟩
        · intro k hk
          obtain ⟨hki, e, he, hold⟩ := hgone k hk
          refine ⟨by rw [hchain]; exact hki, e, ?_, hold⟩
          unfold addFlow
          rw [Function.update_of_ne]
          · exact he
          · rintro rfl
            rw [hk] at hthere
            exact absurd hthere (by decide)
        · show (m.bucket i).list = kept ++ rest
          rw [hother i hne]
          exact hlist
  have hstep : (serialTable cfg.managerBufferSize.toInt.toNat chain).step map
      (.add flow.key (payloadBytes flow) now)
        = some (addFlow cfg.managerBufferSize.toInt.toNat map flow.key (payloadBytes flow) now, ()) :=
    rfl
  obtain ⟨hserial, hjust⟩ := serial_snoc h.serial h.just hstep trivial
  have hsame : sweeps (ops ++ [.add flow.key (payloadBytes flow) now]) = sweeps ops := by
    rw [sweeps_snoc]
    exact List.append_nil _
  refine ⟨hthreads, ?_, ?_, hchain.trans h.chain_eq, hrounds.trans h.rounds_eq, hmap, hsweep,
    hserial, hjust, ?_, ?_, ?_⟩
  · exact h.bounded.adds_of_inside h.inv.table.wellFormed hb hadds
      (h.mapInv.adds_inside hb hlen hadds)
  · intro x hx
    exact absurd hx List.not_mem_nil
  · rw [fetched_snoc, List.map_append, h.inserted, hpending, insertions_snoc]
    rfl
  · rw [hsame]
    exact h.in_turn
  · rw [hsame]
    exact h.turn

/-- What the cleaner does at a node. -/
theorem sweepStep_cases (hs : ThreadInv cfg K s) {start i' : UInt64} {i : Nat}
    {node : Blist} {next : List Blist} {now : UInt64} {d : Int32} {r : Unit}
    (hpc : s.cleanerPc = .sweeping start i i' (node :: next))
    (h : (threads cfg).step s (.cleaner now d) = some (s', r)) :
    (Outlived cfg i' node.entry d ∧ ∃ kept, (s.m.bucket i).list = kept ++ node :: next
        ∧ s' = { s with clock := now, m := s.m.removed i node (kept ++ next)
                        cleanerPc := .sweeping start i i' next })
      ∨ (¬ Outlived cfg i' node.entry d
        ∧ s' = { s with clock := now, cleanerPc := .sweeping start i i' next }) := by
  have hc := hs.cleaner
  unfold CleanerInv at hc
  rw [hpc] at hc
  obtain ⟨hi, _, kept, hlist⟩ := hc
  simp only [threads] at h
  split at h
  · obtain ⟨s₁, hstep, heq⟩ := Option.map_eq_some_iff.mp h
    rw [Prod.mk.injEq] at heq
    rw [← heq.1]
    simp only [cleanerStep, hpc] at hstep
    split at hstep
    · rename_i hold
      rw [hs.table.wellFormed.remove_eq hi hlist] at hstep
      exact .inl ⟨hold, kept, hlist, (Option.some.inj hstep).symm⟩
    · rename_i hyoung
      exact .inr ⟨hyoung, (Option.some.inj hstep).symm⟩
  · exact absurd h (by simp)

/-- **A node too old** is gone from now on. -/
theorem SerialRun.expires (h : SerialRun cfg D K chain rounds calls s ops map gone)
    {start current now : UInt64} {i : Nat} {kept next : List Blist} {node : Blist} {d : Int32}
    (hd : d ∈ D) (hpc : s.cleanerPc = .sweeping start i current (node :: next))
    (hlist : (s.m.bucket i).list = kept ++ node :: next)
    (hold : Outlived cfg current node.entry d)
    (hthreads : ThreadInv cfg K
      { s with clock := now, m := s.m.removed i node (kept ++ next)
               cleanerPc := .sweeping start i current next }) :
    SerialRun cfg D K chain rounds (calls ++ [.cleaner now d])
      { s with clock := now, m := s.m.removed i node (kept ++ next)
               cleanerPc := .sweeping start i current next }
      ops map (Function.update gone node.key true) := by
  have hcleaner := h.inv.cleaner
  have hsweep := h.sweep
  unfold CleanerInv at hcleaner
  unfold SweepInv at hsweep
  rw [hpc] at hcleaner hsweep
  obtain ⟨hi, _, _⟩ := hcleaner
  obtain ⟨hgone, kept', hlist', hkept⟩ := hsweep
  -- the cursor has passed the nodes that are kept, and no others
  have hsame : kept' = kept := List.append_cancel_right (hlist'.symm.trans hlist)
  rw [hsame] at hkept
  have hmem : node ∈ (s.m.bucket i).list := mem_of_split hlist
  have hentry : s.m.map node.key = some node.entry :=
    (map_eq_some_iff h.mapInv).mpr ⟨i, hi, node, hmem, rfl, rfl⟩
  have hnode : map node.key = some node.entry := by
    rw [h.map_eq] at hentry
    by_cases hg : gone node.key = true
    · simp [hg] at hentry
    · simpa [hg] using hentry
  refine ⟨hthreads, ?_, h.fits, h.chain_eq, h.rounds_eq, ?_, ?_, h.serial, h.just, ?_, h.in_turn,
    ?_⟩
  · -- what is left in the bucket was in it before
    intro c hc x hx
    refine h.bounded c hc x ?_
    by_cases hci : c = i
    · subst hci
      unfold Manager.removed at hx
      simp only [bucket_setBucket_self] at hx
      rw [hlist]
      exact ((List.sublist_cons_self node next).append_left kept).subset hx
    · unfold Manager.removed at hx
      rw [bucket_setBucket_of_ne _ _ hci] at hx
      exact hx
  · show (s.m.removed i node (kept ++ next)).map = _
    rw [h.mapInv.map_removed hi hlist, h.map_eq]
    funext k
    by_cases hk : k = node.key
    · rw [hk, Function.update_self, Function.update_self]
      rfl
    · rw [Function.update_of_ne hk, Function.update_of_ne hk]
  · refine ⟨?_, kept, ?_, hkept⟩
    · intro k hk
      by_cases hkey : k = node.key
      · rw [hkey]
        exact ⟨h.inv.table.placed.bucket i hi node hmem, node.entry, hnode, d, hd, hold⟩
      · rw [Function.update_of_ne hkey] at hk
        exact hgone k hk
    · show ((s.m.removed i node (kept ++ next)).bucket i).list = kept ++ next
      unfold Manager.removed
      rw [bucket_setBucket_self]
  · rw [fetched_snoc, List.map_append, h.inserted]
    exact List.append_nil _
  · rw [h.turn, hpc]
    rfl

/-- **A node not too old** is passed. -/
theorem SerialRun.spares (h : SerialRun cfg D K chain rounds calls s ops map gone)
    {start current now : UInt64} {i : Nat} {next : List Blist} {node : Blist} {d : Int32}
    (hd : d ∈ D) (hpc : s.cleanerPc = .sweeping start i current (node :: next))
    (hyoung : ¬ Outlived cfg current node.entry d)
    (hthreads : ThreadInv cfg K
      { s with clock := now, cleanerPc := .sweeping start i current next }) :
    SerialRun cfg D K chain rounds (calls ++ [.cleaner now d])
      { s with clock := now, cleanerPc := .sweeping start i current next } ops map gone := by
  have hsweep := h.sweep
  unfold SweepInv at hsweep
  rw [hpc] at hsweep
  obtain ⟨hgone, kept, hlist, hkept⟩ := hsweep
  refine h.quiet hthreads rfl (fun _ hf => absurd hf List.not_mem_nil) (List.append_nil _).symm
    ⟨hgone, kept ++ [node], ?_, ?_⟩ (by rw [hpc]; rfl)
  · show (s.m.bucket i).list = (kept ++ [node]) ++ next
    rw [hlist, List.append_assoc, List.singleton_append]
  · intro x hx
    rcases List.mem_append.mp hx with hx | hx
    · exact hkept x hx
    · rw [List.mem_singleton.mp hx]
      exact ⟨d, hd, hyoung⟩

/-- **The end of a sweep**: all that is gone goes at once from the serial map. -/
theorem SerialRun.leaves (h : SerialRun cfg D K chain rounds calls s ops map gone)
    {start current now : UInt64} {i : Nat} {d : Int32}
    (hpc : s.cleanerPc = .sweeping start i current [])
    (hthreads : ThreadInv cfg K
      { s with clock := now, lock := Function.update s.lock i none
               cleanerPc := s.m.arrive start (i + 1) }) :
    SerialRun cfg D K chain rounds (calls ++ [.cleaner now d])
      { s with clock := now, lock := Function.update s.lock i none
               cleanerPc := s.m.arrive start (i + 1) }
      (ops ++ [.sweep i current gone]) (eraseChain chain map i gone) (fun _ => false) := by
  have hcleaner := h.inv.cleaner
  have hsweep := h.sweep
  unfold CleanerInv at hcleaner
  unfold SweepInv at hsweep
  rw [hpc] at hcleaner hsweep
  obtain ⟨hi, _, _⟩ := hcleaner
  obtain ⟨hgone, kept, hlist, hkept⟩ := hsweep
  rw [List.append_nil] at hlist
  -- the sweep was just: what is left in the chain was looked at and kept
  have hjust : Just cfg D chain map (.sweep i current gone) := by
    intro k e hk he
    constructor
    · intro hg
      obtain ⟨_, e', he', hold⟩ := hgone k hg
      rw [he] at he'
      rw [Option.some.inj he']
      exact hold
    · intro hg
      have hmap : s.m.map k = some e := by
        rw [h.map_eq]
        simp only [hg]
        exact he
      obtain ⟨b, hb, node, hnode, rfl, rfl⟩ := (map_eq_some_iff h.mapInv).mp hmap
      have hbi : b = i := by
        rw [← hk, ← h.chain_eq]
        exact (h.inv.table.placed.bucket b hb node hnode).symm
      rw [hbi, hlist] at hnode
      exact hkept node hnode
  have hmap : s.m.map = eraseChain chain map i gone := by
    rw [h.map_eq]
    funext k
    unfold eraseChain
    by_cases hg : gone k = true
    · obtain ⟨hk, _⟩ := hgone k hg
      rw [h.chain_eq] at hk
      rw [if_pos hg, if_pos ⟨hk, hg⟩]
    · rw [if_neg hg, if_neg (fun hboth => hg hboth.2)]
  have hstep : (serialTable cfg.managerBufferSize.toInt.toNat chain).step map
      (.sweep i current gone) = some (eraseChain chain map i gone, ()) := rfl
  obtain ⟨hserial, halong⟩ := serial_snoc h.serial h.just hstep hjust
  have hturn := h.turn
  rw [hpc] at hturn
  have hlen : (sweeps (ops ++ [.sweep i current gone])).length = (sweeps ops).length + 1 := by
    rw [sweeps_snoc]
    exact List.length_append
  refine ⟨hthreads, h.bounded, h.fits, h.chain_eq, h.rounds_eq, ?_, ?_, hserial, halong, ?_, ?_,
    ?_⟩
  · show s.m.map = _
    rw [hmap]
    funext k
    rfl
  · unfold SweepInv Manager.arrive
    by_cases hnext : i + 1 < s.m.ht.rounds
    · simp only [if_pos hnext]
      exact fun _ => trivial
    · simp only [if_neg hnext]
      exact fun _ => trivial
  · rw [fetched_snoc, List.map_append, h.inserted, insertions_snoc]
    show _ ++ [] = (_ ++ []) ++ _
    rw [List.append_nil, List.append_nil]
  · rw [hlen, List.range_succ, List.map_append, List.map_singleton, ← h.in_turn, sweeps_snoc,
      hturn]
    rfl
  · rw [hlen]
    show _ = (s.m.arrive start (i + 1)).bucket
    have hlt : i < rounds := by
      rw [← h.rounds_eq]
      exact hi
    have hmod : (sweeps ops).length % rounds = i := hturn
    unfold Manager.arrive
    rw [h.rounds_eq]
    by_cases hnext : i + 1 < rounds
    · rw [if_pos hnext, Nat.add_mod, hmod, Nat.add_mod_mod, Nat.mod_eq_of_lt hnext]
      rfl
    · rw [if_neg hnext]
      have hfull : i + 1 = rounds := by omega
      rw [Nat.add_mod, hmod, Nat.add_mod_mod, hfull, Nat.mod_self]
      rfl

/-- What the threads may be given: payloads that fit, life times from `D`. -/
def ThreadCall.Admissible (cfg : Config) (D : Set Int32) : ThreadCall → Prop
  | .fetch flow => PayloadFitsBuffer cfg flow
  | .manager _ => True
  | .cleaner _ d => d ∈ D

/-- **Every step of either thread** goes on with the serial run. -/
theorem SerialRun.step (h : SerialRun cfg D K chain rounds calls s ops map gone)
    {call : ThreadCall} {r : Unit} (hin : call.Within K) (hadm : call.Admissible cfg D)
    (hst : (threads cfg).step s call = some (s', r)) :
    ∃ ops' map' gone', SerialRun cfg D K chain rounds (calls ++ [call]) s' ops' map' gone' := by
  have hcase := threadStep_cases h.inv hst
  have hthreads := h.inv.step hin hcase
  have hnone : ∀ flow ∈ ([] : List FlowItem), PayloadFitsBuffer cfg flow :=
    fun _ hf => absurd hf List.not_mem_nil
  cases hcase with
  | @fetched flow hpc _ =>
      refine ⟨ops, map, gone, h.quiet hthreads rfl ?_ ?_ (h.sweep.frame rfl rfl) rfl⟩
      · intro f hf
        rw [List.mem_singleton.mp hf]
        exact hadm
      · rw [hpc]
        rfl
  | grabbed hpc _ =>
      exact ⟨ops, map, gone, h.quiet hthreads rfl hnone (by rw [hpc]; rfl)
        (h.sweep.frame rfl rfl) rfl⟩
  | missed hpc _ =>
      exact ⟨ops, map, gone, h.quiet hthreads rfl hnone (by rw [hpc]; rfl)
        (h.sweep.frame rfl rfl) rfl⟩
  | @added flow now m out hpc hadds => exact ⟨_, _, _, h.adds hpc hadds hthreads⟩
  | released hpc =>
      exact ⟨ops, map, gone, h.quiet hthreads rfl hnone (by rw [hpc]; rfl)
        (h.sweep.frame rfl rfl) rfl⟩
  | @woke wake now d hpc =>
      have hsweep := h.sweep
      unfold SweepInv at hsweep
      rw [hpc] at hsweep
      refine ⟨ops, map, gone, h.quiet hthreads rfl hnone (List.append_nil _).symm ?_ ?_⟩
      · unfold SweepInv Manager.arrive
        by_cases hb : 0 < s.m.ht.rounds
        · simp only [if_pos hb]
          exact hsweep
        · simp only [if_neg hb]
          exact hsweep
      · show (s.m.arrive now 0).bucket = s.cleanerPc.bucket
        rw [hpc]
        unfold Manager.arrive
        by_cases hb : 0 < s.m.ht.rounds
        · rw [if_pos hb]
          rfl
        · rw [if_neg hb, bucket_resting, bucket_resting]
  | @entered start now i d hpc _ =>
      have hsweep := h.sweep
      unfold SweepInv at hsweep
      rw [hpc] at hsweep
      -- nothing is gone yet, and the cursor has passed nothing
      refine ⟨ops, map, gone,
        h.quiet hthreads rfl hnone (List.append_nil _).symm ?_ (by rw [hpc]; rfl)⟩
      refine ⟨?_, [], rfl, fun _ hx => absurd hx List.not_mem_nil⟩
      intro k hk
      rw [hsweep k] at hk
      exact absurd hk (by decide)
  | @expired start current now i kept next node d hpc hlist =>
      obtain ⟨hold, _⟩ | ⟨_, hsame⟩ := sweepStep_cases h.inv hpc hst
      · exact ⟨_, _, _, h.expires hadm hpc hlist hold hthreads⟩
      · -- a node that is passed does not leave the bucket
        have hpool := congrArg (fun t => t.m.sessionPool.length) hsame
        exact absurd hpool (by simp [Manager.removed])
  | @spared start current now i next node d hpc =>
      obtain ⟨_, kept, _, hsame⟩ | ⟨hyoung, _⟩ := sweepStep_cases h.inv hpc hst
      · have hpool := congrArg (fun t => t.m.sessionPool.length) hsame
        exact absurd hpool (by simp [Manager.removed])
      · exact ⟨_, _, _, h.spares hadm hpc hyoung hthreads⟩
  | left hpc => exact ⟨_, _, _, h.leaves hpc hthreads⟩

end Steps

/-! ## §4. Whole runs. -/

theorem serialRun_start {cfg : Config} {D : Set Int32} {K : Finset Key} {i fuel : Nat}
    {hashLength : Int32} {garbage : Nat → SessionItem} {m : Manager}
    (hinit : initSignleManager cfg i fuel hashLength garbage = some m) :
    SerialRun cfg D K m.chain m.ht.rounds [] (startThreads m) [] (fun _ => none)
      (fun _ => false) where
  inv := threadInv_start hinit
  bounded := bounded_initSignleManager hinit
  fits := fun _ hf => absurd hf List.not_mem_nil
  chain_eq := rfl
  rounds_eq := rfl
  map_eq := map_initSignleManager hinit
  sweep := fun _ => rfl
  serial := rfl
  just := trivial
  inserted := rfl
  in_turn := rfl
  turn := Nat.zero_mod _

/-- **THE BUCKET LOCKS SERIALISE.**  However the manager and the cleaner
    interleave, from `init_signle_manager` on, there is a serial run of whole
    insertions and whole sweeps that the table goes along with:

    the insertions are the fetched flows in their order, all but the one the
    manager is still working on; the sweeps visit the buckets in turn, round
    after round, and erase what is too old and nothing else; and the map of
    the table is the map of the serial run, except for keys of the bucket in
    the cleaner's hands that it has already removed. -/
theorem bucketLocks_serialise {cfg : Config} {D : Set Int32} {i fuel : Nat} {hashLength : Int32}
    {garbage : Nat → SessionItem} {m : Manager}
    (hinit : initSignleManager cfg i fuel hashLength garbage = some m) {calls : List ThreadCall}
    (hcalls : ∀ call ∈ calls, call.Admissible cfg D) {s : Threads} {rs : List Unit}
    (hrun : (threads cfg).run (startThreads m) calls = some (s, rs)) :
    ∃ ops map,
      ((serialTable cfg.managerBufferSize.toInt.toNat m.chain).run (fun _ => none) ops).map
          Prod.fst = some map
      ∧ (serialTable cfg.managerBufferSize.toInt.toNat m.chain).Along (Just cfg D m.chain)
          (fun _ => none) ops
      ∧ (fetched calls).map insertionOf
          = insertions ops ++ s.managerPc.pending.map insertionOf
      ∧ sweeps ops = (List.range (sweeps ops).length).map (· % m.ht.rounds)
      ∧ ∀ k, s.m.map k = map k
          ∨ s.m.map k = none
            ∧ ∃ start current rest, s.cleanerPc = .sweeping start (m.chain k) current rest := by
  -- the keys the manager may meet are those of the fetched flows
  have hwithin : ∀ call ∈ calls, call.Within ((fetched calls).map FlowItem.key).toFinset := by
    intro call hcall
    cases call with
    | fetch flow =>
        show flow.key ∈ _
        rw [List.mem_toFinset, List.mem_map]
        exact ⟨flow, List.mem_filterMap.mpr ⟨_, hcall, rfl⟩, rfl⟩
    | manager now => trivial
    | cleaner now d => trivial
  have hserial := (threads cfg).run_trace_induction (fun calls' _ s' =>
      (∀ call ∈ calls', call.Within ((fetched calls).map FlowItem.key).toFinset
          ∧ call.Admissible cfg D) →
        ∃ ops map gone, SerialRun cfg D ((fetched calls).map FlowItem.key).toFinset m.chain
          m.ht.rounds calls' s' ops map gone)
    (by
      intro calls' _ t call t' _ hI hst hall
      obtain ⟨ops, map, gone, h⟩ := hI fun c hc => hall c (List.mem_append_left _ hc)
      obtain ⟨hin, hadm⟩ := hall call (List.mem_append_right _ (List.mem_singleton_self _))
      exact h.step hin hadm hst)
    hrun (fun _ => ⟨[], fun _ => none, fun _ => false, serialRun_start hinit⟩)
  obtain ⟨ops, map, gone, h⟩ := hserial fun call hc => ⟨hwithin call hc, hcalls call hc⟩
  refine ⟨ops, map, h.serial, h.just, h.inserted, h.in_turn, ?_⟩
  intro k
  have hmap := congrFun h.map_eq k
  by_cases hg : gone k = true
  · right
    refine ⟨by rw [hmap, if_pos hg], ?_⟩
    have hsweep := h.sweep
    unfold SweepInv at hsweep
    split at hsweep
    · rename_i start b current rest hpc
      obtain ⟨hchain, _⟩ := hsweep.1 k hg
      rw [h.chain_eq] at hchain
      exact ⟨start, current, rest, by rw [hpc, hchain]⟩
    · rw [hsweep k] at hg
      exact absurd hg (by decide)
  · left
    rw [hmap, if_neg hg]

/-- One session node, buffers of 64 bytes. -/
def oneNode : Config := { managerBufferSize := 64, mhz := 1, poolSize := 1 }

/-- A flow comes in and outlives its time before the cleaner is through. -/
def flowAndTravel : List ThreadCall :=
  [.fetch fourBytes] ++ List.replicate 4 (.manager 5) ++ List.replicate 6 (.cleaner 20000 1)

theorem flowAndTravel_serialised :
    ∃ m, initSignleManager oneNode 0 10 1 (fun _ => blankItem) = some m
      ∧ (∀ call ∈ flowAndTravel, call.Admissible oneNode {1})
      ∧ ∃ s rs, (threads oneNode).run (startThreads m) flowAndTravel = some (s, rs)
      ∧ ∃ ops map,
        ((serialTable oneNode.managerBufferSize.toInt.toNat m.chain).run (fun _ => none) ops).map
            Prod.fst = some map
        ∧ (serialTable oneNode.managerBufferSize.toInt.toNat m.chain).Along
            (Just oneNode {1} m.chain) (fun _ => none) ops
        ∧ (fetched flowAndTravel).map insertionOf
            = insertions ops ++ s.managerPc.pending.map insertionOf
        ∧ sweeps ops = (List.range (sweeps ops).length).map (· % m.ht.rounds)
        ∧ ∀ k, s.m.map k = map k
            ∨ s.m.map k = none
              ∧ ∃ start current rest, s.cleanerPc = .sweeping start (m.chain k) current rest := by
  have hinit : ∃ m, initSignleManager oneNode 0 10 1 (fun _ => blankItem) = some m
      ∧ ∃ p, (threads oneNode).run (startThreads m) flowAndTravel = some p := ⟨_, rfl, _, rfl⟩
  obtain ⟨m, hinit, ⟨s, rs⟩, hrun⟩ := hinit
  have hcalls : ∀ call ∈ flowAndTravel, call.Admissible oneNode {1} := by
    intro call hcall
    rcases List.mem_append.mp hcall with hcall | hcall
    · rcases List.mem_append.mp hcall with hcall | hcall
      · rw [List.mem_singleton.mp hcall]
        show (4 : Int) ≤ 64
        decide
      · rw [List.eq_of_mem_replicate hcall]
        trivial
    · rw [List.eq_of_mem_replicate hcall]
      exact Set.mem_singleton _
  exact ⟨m, hinit, hcalls, s, rs, hrun, bucketLocks_serialise hinit hcalls hrun⟩

end FreePacket.Session
