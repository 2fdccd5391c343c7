/-
  FreePacket.Session.Store
  ────────────────────────
  **THE TABLE IN MEMORY IS A BOUNDED MAP: insertions, sweeps and lookups.**

  `hash_lookup_item` takes a session for its key: the first five fields of
  `session_item_t` and of `flow_item_t` are laid out alike, and the cast
  reads no others.  What a caller learns from the node it returns is the
  entry behind it, or that there is none.

  `boundedMap` is the component without buckets, links and nodes: a map from
  keys to entries with room for as many keys as there are session nodes.  It
  is stuck where a new key finds no room, and there alone.

  Main results:
    * `map_swept` — the expiry of a bucket on the map.
    * `sessionPool_eq_nil_iff` — the pool is empty when the map is full.
    * `heapStore_alike` — every run of insertions, sweeps and lookups on the
      links has the replies of the bounded map.
-/
import FreePacket.Session.Bounds
import FreePacket.Session.Heap
import FreePacket.Session.Serial

namespace FreePacket.Session

open FreePacket.Lib FreePacket.Lib.Keyed FreePacket.Lib.Machine FreePacket.Packet

/-! ## §1. Lookups. -/

/-- `(flow_item_t *)session`, as far as `find_list` reads it. -/
def castFlow (session : SessionItem) : FlowItem :=
  { blankFlow with
    upperIp := session.upperIp, lowerIp := session.lowerIp
    upperPort := session.upperPort, lowerPort := session.lowerPort
    protocol := session.protocol }

/-- `hash_lookup_item`: the node found, or `NULL`. -/
def hashLookupItem (fuel : Nat) (t : HeapManager) (key : UInt32) (value : SessionItem) :
    Option (Option Nat) :=
  if t.slot key < t.rounds then findListHeap t (t.slot key) (castFlow value) fuel else none

/-- The chain of a key. -/
def HeapManager.chain (t : HeapManager) (k : Key) : Nat :=
  (bucketIndex k t.numBuckets.toUInt32).toNat

/-- The entry behind a node. -/
def HeapManager.entry (t : HeapManager) (addr : Nat) : Entry := Blist.entry ⟨addr, t.item addr⟩

/-! ## §2. The two machines. -/

/-- A call on the table, with the index `packet_manager_loop` computes. -/
inductive StoreCall where
  | add (flow : FlowItem) (now : UInt64)
  | delete (b : Nat) (now : UInt64) (destoryTime : Int32)
  | lookup (value : SessionItem)

/-- The table in memory.  A lookup answers the entry behind the node found. -/
def heapStore (cfg : Config) (fuel : Nat) :
    Machine HeapManager StoreCall (Option (Option Entry)) where
  step t call :=
    match call with
    | .add flow now =>
        (hashAddItemHeap cfg fuel t (bucketIndex flow.key t.numBuckets.toUInt32) flow now).map
          (fun p => (p.1, none))
    | .delete b now destoryTime =>
        if b < t.rounds then
          (deleteSessionHeap cfg fuel b now destoryTime t).map (fun t' => (t', none))
        else none
    | .lookup value =>
        (hashLookupItem fuel t (bucketIndex value.key t.numBuckets.toUInt32) value).map
          (fun found => (t, some (found.map t.entry)))

/-- The keys of a map. -/
def keysOf (map : Key → Option Entry) : Set Key := {k | map k ≠ none}

/-- **A map with room for `poolSize` keys**, spread over chains that are swept
    one at a time. -/
noncomputable def boundedMap (cfg : Config) (chain : Key → Nat) (rounds : Nat) :
    Machine (Key → Option Entry) StoreCall (Option (Option Entry)) where
  step map call :=
    match call with
    | .add flow now =>
        if map flow.key = none ∧ (keysOf map).ncard = cfg.poolSize then none
        else some (addFlow cfg.managerBufferSize.toInt.toNat map flow.key (payloadBytes flow) now,
          none)
    | .delete b now destoryTime =>
        if b < rounds then
          some (eraseChain chain map b (fun k => (map k).any (fun e =>
            decide (now - e.lastTime > lifetime cfg destoryTime))), none)
        else none
    | .lookup value => some (map, some (map value.key))

/-! ## §3. The sweep and the room. -/

section Map

variable {cfg : Config} {m : Manager}

/-- **The expiry of a bucket** erases what is too old from its chain. -/
theorem map_swept (hm : MapInv cfg m) {b : Nat} (hb : b < m.ht.rounds) (now : UInt64)
    (destoryTime : Int32) :
    (m.swept cfg b now destoryTime).map
      = eraseChain m.chain m.map b (fun k => (m.map k).any (fun e =>
          decide (now - e.lastTime > lifetime cfg destoryTime))) := by
  have hm' := hm.delete hb (hm.wellFormed.deleteSession_eq hb now destoryTime)
  funext k
  have hk : m.chain k < m.ht.rounds := chain_lt k hb
  have hnew : (m.swept cfg b now destoryTime).map k
      = (lookup Blist.key k ((m.swept cfg b now destoryTime).bucket (m.chain k)).list).map
          Blist.entry := hm'.map_eq hk
  show _ = if m.chain k = b ∧ (m.map k).any (fun e =>
    decide (now - e.lastTime > lifetime cfg destoryTime)) = true then none else m.map k
  rw [hnew, hm.map_eq hk]
  -- a key of the swept bucket, or of another one
  by_cases hkb : m.chain k = b
  · have hunique := hm.placed.unique b hb
    rw [hkb, swept_bucket_self, lookup_filter hunique]
    cases lookup Blist.key k (m.bucket b).list with
    | none => rw [Option.filter_none, Option.map_none, ite_self]
    | some node =>
        show Option.map Blist.entry (Option.filter (fun node => !expired cfg now destoryTime node)
            (some node))
          = if b = b ∧ expired cfg now destoryTime node = true then none else some node.entry
        cases hexp : expired cfg now destoryTime node with
        | true =>
            rw [Option.filter_some_neg (by simp [hexp]), if_pos ⟨rfl, rfl⟩]
            rfl
        | false =>
            rw [Option.filter_some_pos (by simp [hexp]), if_neg (by simp)]
            rfl
  · rw [swept_bucket_of_ne m _ _ hkb, if_neg (fun h => hkb h.1)]

/-- The sessions of all buckets, counted. -/
theorem sessions_length (m : Manager) : m.sessions.length = m.linked := by
  unfold Manager.sessions Manager.linked
  generalize m.ht.rounds = n
  induction n with
  | zero => rfl
  | succ n ih =>
      rw [collect_succ, List.length_append, ih, Finset.sum_range_succ]
      rfl

/-- **The map has as many keys as the pool misses nodes.** -/
theorem MapInv.ncard_keysOf (hm : MapInv cfg m) :
    (keysOf m.map).ncard + m.sessionPool.length = cfg.poolSize := by
  have hkeys : keysOf m.map = {k | lookup Blist.key k m.sessions ≠ none} := by
    ext k
    show (lookup Blist.key k m.sessions).map Blist.entry ≠ none ↔ _
    rw [Ne, Option.map_eq_none_iff]
    rfl
  rw [hkeys, ncard_keys hm.placed.sessions_nodup, sessions_length]
  exact hm.wellFormed.linked_add_pool

/-- **The pool is empty when the map is full.** -/
theorem MapInv.sessionPool_eq_nil_iff (hm : MapInv cfg m) :
    m.sessionPool = [] ↔ (keysOf m.map).ncard = cfg.poolSize := by
  have hcard := hm.ncard_keysOf
  rw [← List.length_eq_zero_iff]
  omega

end Map

/-! ## §4. One call. -/

/-- **The memory stands for a map.** -/
structure StoreInv (cfg : Config) (chain : Key → Nat) (rounds : Nat) (t : HeapManager)
    (map : Key → Option Entry) : Prop where
  stands : ∃ m, Reachable cfg m ∧ Backed t m ∧ m.map = map
  chain_eq : t.chain = chain
  rounds_eq : t.rounds = rounds

/-- What a call carries fits a session buffer. -/
def StoreCall.Fits (cfg : Config) : StoreCall → Prop
  | .add flow _ => PayloadFitsBuffer cfg flow
  | _ => True

section Call

variable {cfg : Config} {t t' : HeapManager} {m m' : Manager} {fuel rounds : Nat}
  {chain : Key → Nat} {map : Key → Option Entry}

theorem Represents.chain_eq (ht : Represents t m) : t.chain = m.chain := by
  unfold HeapManager.chain
  rw [ht.numBuckets]
  rfl

/-- `find_list` looks the flow's key up. -/
theorem findList_eq_lookup (l : List Blist) (flow : FlowItem) :
    findList l flow = lookup Blist.key flow.key l := by
  induction l with
  | nil => rfl
  | cons node rest ih =>
      show (if compareSession node.item flow = 0 then some node else findList rest flow) = _
      by_cases hk : node.key = flow.key
      · rw [if_pos ((compareSession_eq_zero_iff _ _).mpr hk)]
        exact (lookup_append_cons (fun _ h => absurd h List.not_mem_nil) hk).symm
      · rw [if_neg (fun h => hk ((compareSession_eq_zero_iff _ _).mp h)), ih]
        unfold lookup
        rw [List.find?_cons_of_neg (by simpa using hk)]

/-- **A lookup** finds the node of the key, if there is one. -/
theorem hashLookupItem_eq (hm : MapInv cfg m) (ht : Represents t m) (hpos : 0 < m.ht.rounds)
    (hfuel : cfg.poolSize < fuel) (value : SessionItem) :
    (hashLookupItem fuel t (bucketIndex value.key t.numBuckets.toUInt32) value).map
        (fun found => found.map t.entry)
      = some (m.map value.key) := by
  have hchain : m.chain value.key < m.ht.rounds := chain_lt value.key hpos
  have hslot : t.slot (bucketIndex value.key t.numBuckets.toUInt32) = m.chain value.key := by
    rw [ht.slot_eq, ht.numBuckets]
    exact slot_bucketIndex m value.key
  unfold hashLookupItem
  rw [hslot, ht.rounds_eq, if_pos hchain, findListHeap_eq hm.wellFormed ht hchain hfuel,
    findList_eq_lookup, hm.map_eq hchain]
  show some (Option.map t.entry (Option.map Blist.addr (lookup Blist.key value.key _))) = _
  cases hfound : lookup Blist.key value.key (m.bucket (m.chain value.key)).list with
  | none => rfl
  | some node =>
      have hitem := ht.item _ hchain node (key_of_lookup hfound).1
      show some (some (Blist.entry ⟨node.addr, t.item node.addr⟩)) = _
      rw [hitem]
      rfl

/-- **An insertion spins** for a new key in a full map, and there alone. -/
theorem hashAddItem_eq_none_iff (hm : Reachable cfg m) (hpos : 0 < m.ht.rounds) (flow : FlowItem)
    (now : UInt64) :
    hashAddItem cfg m (bucketIndex flow.key m.ht.size) flow now = none
      ↔ m.map flow.key = none ∧ (keysOf m.map).ncard = cfg.poolSize := by
  have hsome : (hashAddItem cfg m (bucketIndex flow.key m.ht.size) flow now).isSome = true
      ↔ m.map flow.key ≠ none ∨ m.sessionPool ≠ [] := hashAddItem_isSome_iff hm hpos
  rw [← hm.inv.sessionPool_eq_nil_iff, ← Option.not_isSome_iff_eq_none, hsome, not_or, not_not,
    not_not]

/-- The map, after a step of both levels that keeps the size of the table. -/
theorem StoreInv.next (h : StoreInv cfg chain rounds t map) (ht : Backed t m)
    (hm' : Reachable cfg m') (ht' : Backed t' m') (hsize : m'.ht.size = m.ht.size)
    (hrounds : m'.ht.rounds = m.ht.rounds) : StoreInv cfg chain rounds t' m'.map := by
  refine ⟨⟨m', hm', ht', rfl⟩, ?_, ?_⟩
  · rw [← h.chain_eq, ht'.represents.chain_eq, ht.represents.chain_eq]
    funext k
    show (bucketIndex k m'.ht.size).toNat = (bucketIndex k m.ht.size).toNat
    rw [hsize]
  · rw [← h.rounds_eq, ht'.represents.rounds_eq, ht.represents.rounds_eq, hrounds]

/-- **One step of the two machines.** -/
theorem heapStoreStep_alike (hfuel : cfg.poolSize < fuel) (hpos : 0 < rounds)
    (h : StoreInv cfg chain rounds t map) {call : StoreCall} (hfits : call.Fits cfg) :
    Alike (StoreInv cfg chain rounds) ((heapStore cfg fuel).step t call)
      ((boundedMap cfg chain rounds).step map call) := by
  -- `m` is the table of lists that stands between the memory and the map
  obtain ⟨m, hm, ht, rfl⟩ := h.stands
  have hinv := hm.inv
  have hrounds : m.ht.rounds = rounds := ht.represents.rounds_eq.symm.trans h.rounds_eq
  have hchain : m.chain = chain := ht.represents.chain_eq.symm.trans h.chain_eq
  cases call with
  | add flow now =>
      have hadd := hashAddItemHeap_alike hinv.wellFormed ht hfuel
        (bucketIndex flow.key m.ht.size) flow now
      have hnone := hashAddItem_eq_none_iff hm (hrounds ▸ hpos) flow now
      show Alike _ ((hashAddItemHeap cfg fuel t (bucketIndex flow.key t.numBuckets.toUInt32) flow
        now).map _) (if m.map flow.key = none ∧ (keysOf m.map).ncard = cfg.poolSize then none
          else _)
      rw [ht.represents.numBuckets]
      cases hlist : hashAddItem cfg m (bucketIndex flow.key m.ht.size) flow now with
      | none =>
          rw [hlist] at hadd
          -- stuck: the map is full and the key is new
          rw [if_pos (hnone.mp hlist)]
          show Alike _ ((hashAddItemHeap cfg fuel t (bucketIndex flow.key m.ht.size) flow now).map _)
            none
          rw [hadd.of_none]
          exact Option.Rel.none
      | some p =>
          obtain ⟨m', out⟩ := p
          have hroom : ¬(m.map flow.key = none ∧ (keysOf m.map).ncard = cfg.poolSize) := by
            rw [← hnone, hlist]
            exact nofun
          rw [hlist] at hadd
          obtain ⟨t', hheap, ht'⟩ := hadd.of_some
          obtain ⟨_, hcase⟩ := hinv.wellFormed.hashAddItem_cases hlist
          -- through: both take the entry
          have hm' := hm.add hlist (hinv.copyInside hfits hlist)
          have hnext := h.next ht hm' ht' hcase.frame.1 hcase.frame.2.1
          rw [addItem_map hm hfits hlist] at hnext
          rw [if_neg hroom]
          show Alike _ ((hashAddItemHeap cfg fuel t (bucketIndex flow.key m.ht.size) flow now).map _)
            _
          rw [hheap]
          exact Option.Rel.some ⟨rfl, hnext⟩
  | delete b now destoryTime =>
      show Alike _ (if b < t.rounds then _ else none) (if b < rounds then _ else none)
      rw [h.rounds_eq]
      by_cases hb : b < rounds
      · have hbm : b < m.ht.rounds := hrounds ▸ hb
        obtain ⟨t', hrun, ht'⟩ :=
          deleteSessionHeap_alike hinv.wellFormed ht hfuel hbm now destoryTime
        -- the sweep of the bucket, on the memory and on the map
        have hm' := hm.delete hbm (hinv.wellFormed.deleteSession_eq hbm now destoryTime)
        have hnext := h.next ht hm' ht' rfl rfl
        rw [map_swept hinv hbm, hchain] at hnext
        rw [if_pos hb, if_pos hb, hrun]
        exact Option.Rel.some ⟨rfl, hnext⟩
      · rw [if_neg hb, if_neg hb]
        exact Option.Rel.none
  | lookup value =>
      have hfound := hashLookupItem_eq hinv ht.represents (hrounds ▸ hpos) hfuel value
      obtain ⟨found, hlookup, hentry⟩ := Option.map_eq_some_iff.mp hfound
      show Alike _ ((hashLookupItem fuel t _ value).map _) _
      rw [hlookup]
      refine Option.Rel.some ⟨?_, h⟩
      show some (found.map t.entry) = some (m.map value.key)
      rw [hentry]

end Call

/-! ## §5. Whole runs. -/

/-- **THE TABLE IN MEMORY IS A BOUNDED MAP.**  From `init_signle_manager` on,
    with a hash length that allocates its buckets, every run of insertions
    that fit a session buffer, sweeps and lookups has the replies of a map
    with room for `poolSize` keys, is stuck where the map is, and ends in the
    memory of that map. -/
theorem heapStore_alike {cfg : Config} {i n fuel : Nat} {hashLength : Int32}
    {memory t : HeapManager} {calls : List StoreCall} (hfuel : cfg.poolSize < fuel)
    (hlength : 0 ≤ hashLength.toInt ∧ hashLength.toInt < 2 ^ 25)
    (hinit : initSignleManagerHeap cfg i n hashLength memory = some t)
    (hfits : ∀ call ∈ calls, call.Fits cfg) :
    Alike (StoreInv cfg t.chain t.rounds) ((heapStore cfg fuel).run t calls)
      ((boundedMap cfg t.chain t.rounds).run (fun _ => none) calls) := by
  have halike := initSignleManagerHeap_alike cfg i n hashLength memory
  rw [hinit] at halike
  cases hm : initSignleManager cfg i n hashLength memory.item with
  | none =>
      rw [hm] at halike
      exact nomatch halike
  | some m =>
      rw [hm] at halike
      obtain ⟨ht⟩ := halike
      obtain ⟨ht', hcreate, hmanager⟩ := initSignleManager_eq_some hm
      have hbuckets : 0 < m.ht.numBuckets.toInt := by
        rw [hmanager]
        exact ((hashCreate_sound_iff hcreate).mpr hlength).1
      have hpos : 0 < t.rounds := by
        rw [ht.represents.rounds_eq]
        unfold HashTable.rounds
        omega
      have hstart : StoreInv cfg t.chain t.rounds t (fun _ => none) :=
        ⟨⟨m, Reachable.init hm, ht, map_initSignleManager hm⟩, rfl, rfl⟩
      exact bisimulation _ _ (StoreInv cfg t.chain t.rounds)
        (fun _ _ call hcall h => heapStoreStep_alike hfuel hpos h (hfits call hcall)) hstart

/-- The tables of the witness: two nodes and two buckets. -/
def twoNodes : Config := { managerBufferSize := 64, mhz := 1, poolSize := 2 }

/-- A flow is stored, found under its key, swept and not found again. -/
def storedAndSwept : List StoreCall :=
  [.add fourBytes 5, .lookup blankItem, .delete 0 2000 1, .lookup blankItem]

theorem storedAndSwept_alike :
    ∃ t, initSignleManagerHeap twoNodes 0 1 1 oneSessionHeap = some t
      ∧ Alike (StoreInv twoNodes t.chain t.rounds) ((heapStore twoNodes 3).run t storedAndSwept)
        ((boundedMap twoNodes t.chain t.rounds).run (fun _ => none) storedAndSwept)
      ∧ ((heapStore twoNodes 3).run t storedAndSwept).map Prod.snd
        = some [none, some (some ⟨[0, 1, 2, 3], 5⟩), none, some none] := by
  have hlength : 0 ≤ (1 : Int32).toInt ∧ (1 : Int32).toInt < 2 ^ 25 := by decide
  obtain ⟨t, hinit⟩ : ∃ t, initSignleManagerHeap twoNodes 0 1 1 oneSessionHeap = some t := ⟨_, rfl⟩
  refine ⟨t, hinit, heapStore_alike (by decide) hlength hinit ?_, ?_⟩
  · intro call hcall
    simp only [storedAndSwept, List.mem_cons, List.not_mem_nil, or_false] at hcall
    rcases hcall with rfl | rfl | rfl | rfl
    · show (fourBytes.payloadLen.toNat : Int) ≤ 64
      decide
    · trivial
    · trivial
    · trivial
  · rw [← Option.some.inj hinit]
    rfl

end FreePacket.Session
