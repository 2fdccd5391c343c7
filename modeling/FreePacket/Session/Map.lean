/-
  FreePacket.Session.Map
  ──────────────────────
  **THE SESSION TABLE IS A FINITE MAP from connection keys to bytes and the
  time of the last of them.**

  The map is read off by collecting the linked sessions of all buckets.  In
  a reachable table no key has two of them, and `hash_add_item` is an update
  of the map at the flow's key: a new entry, a longer one, or none.

  Main results:
    * `Reachable.inv` — what holds in every reachable table.
    * `map_eq_some_iff` — the map has the linked sessions, and each once.
    * `hashAddItem_refines` — the update, and what stays in its place.
    * `insertionRun_map_init` — a run of calls is a run of updates.
-/
import FreePacket.Lib.Keyed
import FreePacket.Session.Buffer
import FreePacket.Session.Reassembly

namespace FreePacket.Session

open FreePacket.Lib FreePacket.Lib.Keyed FreePacket.Packet

/-! ## §1. Reachable tables. -/

/-- **The tables a manager has between two bucket operations**, whatever flows
    and expiries came before, in any order.  A copy past the end of a session
    buffer is undefined, so nothing is reached behind one. -/
inductive Reachable (cfg : Config) : Manager → Prop where
  | init {i fuel : Nat} {hashLength : Int32} {garbage : Nat → SessionItem} {m : Manager} :
      initSignleManager cfg i fuel hashLength garbage = some m → Reachable cfg m
  | add {m m' : Manager} {flow : FlowItem} {now : UInt64} {out : Outcome} :
      Reachable cfg m →
      hashAddItem cfg m (bucketIndex flow.key m.ht.size) flow now = some (m', out) →
      out.CopyInside → Reachable cfg m'
  | delete {m m' : Manager} {b : Nat} {now : UInt64} {destoryTime : Int32} :
      Reachable cfg m → b < m.ht.rounds → deleteSession cfg m b now destoryTime = some m' →
      Reachable cfg m'

/-- What holds between two bucket operations. -/
structure MapInv (cfg : Config) (m : Manager) : Prop where
  wellFormed : WellFormed cfg.poolSize m
  placed : Placed 1 0 m
  bounded : Bounded cfg m

section Invariant

variable {cfg : Config} {m m' : Manager} {flow : FlowItem} {now : UInt64} {out : Outcome}

/-- A copy inside the buffer leaves a session inside it. -/
theorem Touched.bounded (hbounded : Bounded cfg m) {b : Nat} (hb : b < m.ht.rounds) {x : Blist}
    (h : Touched cfg m b flow now x out) (hinside : out.CopyInside) :
    x.item.length = cfg.managerBufferSize.toUInt32 ∧ x.item.curLen ≤ x.item.length := by
  rcases h with ⟨fresh, rfl, rfl⟩ | ⟨node, hnode, _, hfit, rfl, _⟩
  · refine ⟨rfl, ?_⟩
    show 0 + flow.payloadLen ≤ cfg.managerBufferSize.toUInt32
    rw [UInt32.zero_add]
    exact (created_inside_iff fresh.addr _ _).mp hinside
  · exact ⟨(hbounded b hb node hnode).1, UInt32.le_of_lt hfit⟩

/-- `hash_add_item`, with the manager's index, keeps the invariant. -/
theorem MapInv.add (hm : MapInv cfg m)
    (h : hashAddItem cfg m (bucketIndex flow.key m.ht.size) flow now = some (m', out))
    (hinside : out.CopyInside) : MapInv cfg m' := by
  obtain ⟨hb, hcase⟩ := hm.wellFormed.hashAddItem_cases h
  rw [slot_bucketIndex] at hb hcase
  exact ⟨hm.wellFormed.adds hb hcase, hm.placed.adds hb hcase (hashIndex_one flow.key) rfl,
    hm.bounded.adds hm.wellFormed hb hcase (fun _ hx => hx.bounded hm.bounded hb hinside)⟩

/-- So does an expiry. -/
theorem MapInv.delete (hm : MapInv cfg m) {b : Nat} (hb : b < m.ht.rounds)
    {destoryTime : Int32} (h : deleteSession cfg m b now destoryTime = some m') :
    MapInv cfg m' := by
  rw [hm.wellFormed.deleteSession_eq hb] at h
  rw [← Option.some.inj h]
  exact ⟨hm.wellFormed.swept hb now destoryTime, hm.placed.swept hb now destoryTime,
    fun c hc x hx => hm.bounded c hc x (swept_mem hx)⟩

/-- **The invariant of every reachable table.** -/
theorem Reachable.inv (h : Reachable cfg m) : MapInv cfg m := by
  induction h with
  | init hinit =>
      exact ⟨(wellFormed_initSignleManager hinit).1, placed_initSignleManager 1 0 hinit,
        bounded_initSignleManager hinit⟩
  | add _ hadd hinside ih => exact ih.add hadd hinside
  | delete _ hb hdelete ih => exact ih.delete hb hdelete

end Invariant

/-! ## §2. The map. -/

/-- What the map has for a key: `buffer[0 .. cur_len)` and `last_time`. -/
structure Entry where
  bytes : List UInt8
  lastTime : UInt64
  deriving DecidableEq

def Blist.entry (node : Blist) : Entry :=
  { bytes := sessionBytes node, lastTime := node.item.lastTime }

/-- The linked sessions of all buckets. -/
def Manager.sessions (m : Manager) : List Blist := collect m.ht.rounds m.lists

/-- **The map of a table.** -/
def Manager.map (m : Manager) (k : Key) : Option Entry :=
  (lookup Blist.key k m.sessions).map Blist.entry

/-- What becomes of a key's entry when a payload arrives. -/
def addEntry (size : Nat) (payload : List UInt8) (now : UInt64) : Option Entry → Option Entry
  | none => some { bytes := payload, lastTime := now }
  | some e =>
      if e.bytes.length + payload.length < size then
        some { bytes := e.bytes ++ payload, lastTime := now }
      else none

/-- **`hash_add_item` on the map**: an update at one key. -/
def addFlow (size : Nat) (map : Key → Option Entry) (k : Key) (payload : List UInt8)
    (now : UInt64) : Key → Option Entry :=
  Function.update map k (addEntry size payload now (map k))

/-! ## §3. The map has the linked sessions. -/

section Map

variable {cfg : Config} {m : Manager}

/-- The chain of a key, as `packet_manager_loop` computes it. -/
def Manager.chain (m : Manager) (k : Key) : Nat := (bucketIndex k m.ht.size).toNat

theorem Placed.indexed (hp : Placed 1 0 m) : Indexed Blist.key m.chain m.ht.rounds m.lists :=
  hp.bucket

theorem Placed.sessions_nodup (hp : Placed 1 0 m) : (m.sessions.map Blist.key).Nodup :=
  hp.indexed.nodup_collect hp.unique

/-- **The map has the linked sessions**, and each key one. -/
theorem map_eq_some_iff (hm : MapInv cfg m) {k : Key} {e : Entry} :
    m.map k = some e
      ↔ ∃ b < m.ht.rounds, ∃ node ∈ (m.bucket b).list, node.key = k ∧ node.entry = e := by
  unfold Manager.map
  rw [Option.map_eq_some_iff]
  constructor
  · rintro ⟨node, hnode, he⟩
    obtain ⟨hmem, hk⟩ := key_of_lookup hnode
    obtain ⟨b, hb, hin⟩ := List.mem_flatMap.mp hmem
    exact ⟨b, List.mem_range.mp hb, node, hin, hk, he⟩
  · rintro ⟨b, hb, node, hin, hk, he⟩
    have hmem : node ∈ m.sessions := List.mem_flatMap.mpr ⟨b, List.mem_range.mpr hb, hin⟩
    exact ⟨node, (lookup_eq_some_iff hm.placed.sessions_nodup).mpr ⟨hmem, hk⟩, he⟩

/-- A table with one bucket has the bucket of every key. -/
theorem chain_lt (k : Key) {b : Nat} (hb : b < m.ht.rounds) : m.chain k < m.ht.rounds := by
  have hpos : 0 < m.ht.numBuckets.toInt := by
    unfold HashTable.rounds at hb
    omega
  have hslot := slot_lt m hpos (bucketIndex k m.ht.size)
  rw [slot_bucketIndex] at hslot
  exact hslot

end Map

/-! ## §4. `hash_add_item` on the map. -/

section Add

variable {cfg : Config} {m m' : Manager} {flow : FlowItem} {now : UInt64} {out : Outcome}

/-- The test of the append branch adds up without a wrap, and asks whether
    the buffer is longer. -/
theorem fits_iff (hbounded : Bounded cfg m) {b : Nat} (hb : b < m.ht.rounds) {node : Blist}
    (hnode : node ∈ (m.bucket b).list)
    (hlen : (flow.payloadLen.toNat : Int) ≤ cfg.managerBufferSize.toInt) :
    node.item.curLen.toNat + flow.payloadLen.toNat < 2 ^ 32
      ∧ (node.item.curLen + flow.payloadLen < node.item.length
        ↔ node.entry.bytes.length + (payloadBytes flow).length
          < cfg.managerBufferSize.toInt.toNat) := by
  obtain ⟨hlength, hcur⟩ := hbounded b hb node hnode
  have hnonneg : 0 ≤ cfg.managerBufferSize.toInt := by omega
  have hsize : cfg.managerBufferSize.toUInt32.toNat = cfg.managerBufferSize.toInt.toNat :=
    Int32.toNat_toUInt32_of_le (Int32.le_iff_toInt_le.mpr hnonneg)
  have hmax := cfg.managerBufferSize.toInt_lt
  rw [UInt32.le_iff_toNat_le, hlength, hsize] at hcur
  have hsum : node.item.curLen.toNat + flow.payloadLen.toNat < 2 ^ 32 := by omega
  refine ⟨hsum, ?_⟩
  show _ ↔ (slice _ 0 _).length + (slice _ 0 _).length < _
  rw [slice_length, slice_length, UInt32.lt_iff_toNat_lt, toNat_add_eq _ _ hsum, hlength, hsize]

/-- What a call does to the chain of its key: the others are in their place,
    and the key's own entry is the next one. -/
def ChainStep (cfg : Config) (flow : FlowItem) (now : UInt64) (l l' : List Blist) : Prop :=
  others Blist.key flow.key l' = others Blist.key flow.key l
    ∧ (lookup Blist.key flow.key l').map Blist.entry
      = addEntry cfg.managerBufferSize.toInt.toNat (payloadBytes flow) now
          ((lookup Blist.key flow.key l).map Blist.entry)

/-- A created session goes to the end of its chain. -/
theorem chainStep_created {l : List Blist} (hnone : ∀ node ∈ l, node.item.key ≠ flow.key)
    (fresh : Blist) (manager : Nat) :
    ChainStep cfg flow now l (l ++ [makeNewSession cfg fresh flow manager now]) := by
  have hbefore : lookup Blist.key flow.key l = none := lookup_eq_none_iff.mpr hnone
  have hkey : (makeNewSession cfg fresh flow manager now).key = flow.key := rfl
  have hafter : lookup Blist.key flow.key (l ++ [makeNewSession cfg fresh flow manager now])
      = some (makeNewSession cfg fresh flow manager now) := lookup_append_cons hnone hkey
  have hothers := others_append_cons l [] hkey
  rw [List.append_nil] at hothers
  refine ⟨hothers, ?_⟩
  rw [hafter, hbefore]
  show some (Blist.entry _) = some _
  unfold Blist.entry
  -- what the node held when it was in the pool is not seen
  rw [sessionBytes_makeNewSession]
  rfl

/-- A session that is appended to stays in its place. -/
theorem chainStep_appended {pre post : List Blist} {node : Blist}
    (hunique : ((pre ++ node :: post).map Blist.key).Nodup) (hkey : node.key = flow.key)
    (hsum : node.item.curLen.toNat + flow.payloadLen.toNat < 2 ^ 32)
    (hfit : node.entry.bytes.length + (payloadBytes flow).length
      < cfg.managerBufferSize.toInt.toNat) :
    ChainStep cfg flow now (pre ++ node :: post) (pre ++ appendSession node flow now :: post) := by
  have hpre : ∀ x ∈ pre, x.key ≠ flow.key :=
    fun x hx heq => (key_ne_of_nodup hunique).1 x hx (heq.trans hkey.symm)
  have hkey' : (appendSession node flow now).key = flow.key := hkey
  refine ⟨(others_append_cons pre post hkey').trans (others_append_cons pre post hkey).symm, ?_⟩
  have hbefore : lookup Blist.key flow.key (pre ++ node :: post) = some node :=
    lookup_append_cons hpre hkey
  have hafter : lookup Blist.key flow.key (pre ++ appendSession node flow now :: post)
      = some (appendSession node flow now) := lookup_append_cons hpre hkey'
  rw [hbefore, hafter]
  show some (Blist.entry _) = if _ then _ else _
  rw [if_pos hfit]
  unfold Blist.entry
  rw [sessionBytes_appendSession now hsum]
  rfl

/-- A flushed session leaves its chain, and was the only one of its key. -/
theorem chainStep_flushed {pre post : List Blist} {node : Blist}
    (hunique : ((pre ++ node :: post).map Blist.key).Nodup) (hkey : node.key = flow.key)
    (hfull : ¬ node.entry.bytes.length + (payloadBytes flow).length
      < cfg.managerBufferSize.toInt.toNat) :
    ChainStep cfg flow now (pre ++ node :: post) (pre ++ post) := by
  obtain ⟨hpre, hpost⟩ := key_ne_of_nodup hunique
  refine ⟨(others_append_cons pre post hkey).symm, ?_⟩
  have hbefore : lookup Blist.key flow.key (pre ++ node :: post) = some node :=
    lookup_append_cons (fun x hx heq => hpre x hx (heq.trans hkey.symm)) hkey
  have hafter : lookup Blist.key flow.key (pre ++ post) = none := by
    rw [lookup_eq_none_iff]
    intro x hx heq
    rcases List.mem_append.mp hx with hx | hx
    · exact hpre x hx (heq.trans hkey.symm)
    · exact hpost x hx (heq.trans hkey.symm)
  rw [hbefore, hafter]
  show Option.map Blist.entry none = if _ then _ else _
  rw [if_neg hfull]
  rfl

/-- **One call on the chain of its key.** -/
theorem Adds.chain (hm : MapInv cfg m) {b : Nat} (hb : b < m.ht.rounds)
    (hlen : (flow.payloadLen.toNat : Int) ≤ cfg.managerBufferSize.toInt)
    (h : Adds cfg m b flow now m' out) :
    ChainStep cfg flow now (m.bucket b).list (m'.bucket b).list := by
  have hunique := hm.placed.unique b hb
  cases h with
  | @created fresh pool _ hnone =>
      rw [bucket_setBucket_self]
      exact chainStep_created hnone fresh m.index
  | @appended pre post node _ hlist hkey hfit =>
      obtain ⟨hsum, hfits⟩ := fits_iff hm.bounded hb (mem_of_split hlist) hlen
      rw [hlist] at hunique
      rw [bucket_setBucket_self, hlist]
      exact chainStep_appended hunique hkey hsum (hfits.mp hfit)
  | @flushed pre post node _ hlist hkey hfull =>
      obtain ⟨_, hfits⟩ := fits_iff hm.bounded hb (mem_of_split hlist) hlen
      rw [hlist] at hunique
      unfold Manager.removed
      rw [bucket_setBucket_self, hlist]
      exact chainStep_flushed hunique hkey (fun h => hfull (hfits.mpr h))

/-- A call changes one chain. -/
theorem Adds.lists {b : Nat} (h : Adds cfg m b flow now m' out) :
    m'.lists = Function.update m.lists b (m'.bucket b).list := by
  funext c
  by_cases hc : c = b
  · rw [hc, Function.update_self]
    rfl
  · rw [Function.update_of_ne hc]
    show (m'.bucket c).list = (m.bucket c).list
    rw [h.frame.2.2 c hc]

/-- The map is looked up in the key's chain. -/
theorem MapInv.map_eq (hm : MapInv cfg m) {k : Key} (hb : m.chain k < m.ht.rounds) :
    m.map k = (lookup Blist.key k (m.bucket (m.chain k)).list).map Blist.entry :=
  congrArg (Option.map Blist.entry) (lookup_collect hm.placed.indexed hb)

/-- A call whose chain keeps its others updates the map at one key. -/
theorem MapInv.map_adds (hm : MapInv cfg m) (hb : m.chain flow.key < m.ht.rounds)
    (h : Adds cfg m (m.chain flow.key) flow now m' out)
    (hothers : others Blist.key flow.key (m'.bucket (m.chain flow.key)).list
      = others Blist.key flow.key (m.bucket (m.chain flow.key)).list) :
    m'.map = Function.update m.map flow.key
      ((lookup Blist.key flow.key (m'.bucket (m.chain flow.key)).list).map Blist.entry) := by
  -- the sessions of the chain after the call are still the chain's
  have hplaced : Placed 1 0 m' := hm.placed.adds hb h (hashIndex_one flow.key) rfl
  have hstay : ∀ node ∈ (m'.bucket (m.chain flow.key)).list,
      m.chain node.key = m.chain flow.key := by
    intro node hnode
    have hbucket := hplaced.bucket (m.chain flow.key) (by rw [h.frame.2.1]; exact hb) node hnode
    rw [h.frame.1] at hbucket
    exact hbucket
  have hupdate := lookup_collect_update hm.placed.indexed (fun k => chain_lt k hb) hstay hothers
  rw [← h.lists, ← h.frame.2.1] at hupdate
  funext k
  have hk := congrFun hupdate k
  show (lookup Blist.key k (collect m'.ht.rounds m'.lists)).map Blist.entry = _
  rw [hk]
  by_cases hkey : k = flow.key
  · rw [hkey, Function.update_self, Function.update_self]
  · rw [Function.update_of_ne hkey, Function.update_of_ne hkey, h.frame.2.1]
    rfl

/-- The update of one call. -/
theorem addItem_map (hm : Reachable cfg m)
    (hlen : (flow.payloadLen.toNat : Int) ≤ cfg.managerBufferSize.toInt)
    (h : hashAddItem cfg m (bucketIndex flow.key m.ht.size) flow now = some (m', out)) :
    m'.map = addFlow cfg.managerBufferSize.toInt.toNat m.map flow.key (payloadBytes flow) now := by
  have hinv := hm.inv
  obtain ⟨hb, hcase⟩ := hinv.wellFormed.hashAddItem_cases h
  rw [slot_bucketIndex] at hb hcase
  obtain ⟨hothers, hentry⟩ := hcase.chain hinv hb hlen
  have hupdate := hinv.map_adds hb hcase hothers
  have hold := hinv.map_eq hb
  rw [hupdate]
  unfold addFlow
  rw [hold]
  exact congrArg (Function.update m.map flow.key) hentry

/-- **`hash_add_item` refines the map.**  In a reachable table, a call with the
    manager's index, for a payload that fits a session buffer, updates the map
    at the flow's key, and in no chain has it moved or changed a session of
    another key. -/
theorem hashAddItem_refines (hm : Reachable cfg m)
    (hlen : (flow.payloadLen.toNat : Int) ≤ cfg.managerBufferSize.toInt)
    (h : hashAddItem cfg m (bucketIndex flow.key m.ht.size) flow now = some (m', out)) :
    m'.map = addFlow cfg.managerBufferSize.toInt.toNat m.map flow.key (payloadBytes flow) now
      ∧ m'.ht.rounds = m.ht.rounds
      ∧ ∀ b < m.ht.rounds, others Blist.key flow.key (m'.bucket b).list
          = others Blist.key flow.key (m.bucket b).list := by
  have hinv := hm.inv
  obtain ⟨hb, hcase⟩ := hinv.wellFormed.hashAddItem_cases h
  rw [slot_bucketIndex] at hb hcase
  obtain ⟨hothers, _⟩ := hcase.chain hinv hb hlen
  refine ⟨addItem_map hm hlen h, hcase.frame.2.1, ?_⟩
  intro b _
  by_cases hc : b = (bucketIndex flow.key m.ht.size).toNat
  · rw [hc]
    exact hothers
  · rw [hcase.frame.2.2 b hc]

/-- **A call comes back** unless it needs a session and the pool has none. -/
theorem hashAddItem_isSome_iff (hm : Reachable cfg m) {b : Nat} (hb : b < m.ht.rounds) :
    (hashAddItem cfg m (bucketIndex flow.key m.ht.size) flow now).isSome = true
      ↔ m.map flow.key ≠ none ∨ m.sessionPool ≠ [] := by
  have hinv := hm.inv
  have hchain : m.chain flow.key < m.ht.rounds := chain_lt flow.key hb
  have hslot : m.slot (bucketIndex flow.key m.ht.size) < m.ht.rounds := by
    rw [slot_bucketIndex]
    exact hchain
  have hmap : m.map flow.key = none
      ↔ ∀ node ∈ (m.bucket (m.slot (bucketIndex flow.key m.ht.size))).list,
          node.item.key ≠ flow.key := by
    rw [hinv.map_eq hchain, Option.map_eq_none_iff, lookup_eq_none_iff, slot_bucketIndex]
    rfl
  constructor
  · intro h
    by_contra hno
    rw [not_or, not_not, not_not] at hno
    obtain ⟨p, hp⟩ := Option.isSome_iff_exists.mp h
    unfold hashAddItem at hp
    rw [if_pos hslot, (findList_eq_none_iff _ _).mpr (hmap.mp hno.1), hno.2] at hp
    exact absurd hp (by simp [Fifo.take])
  · intro h
    by_contra hno
    rw [Option.not_isSome_iff_eq_none] at hno
    obtain ⟨hpool, hnone⟩ := hinv.wellFormed.hashAddItem_eq_none hslot hno
    rcases h with h | h
    · exact h (hmap.mpr hnone)
    · exact h hpool

/-- A payload that fits is copied inside the buffer. -/
theorem MapInv.copyInside (hm : MapInv cfg m)
    (hlen : (flow.payloadLen.toNat : Int) ≤ cfg.managerBufferSize.toInt)
    (h : hashAddItem cfg m (bucketIndex flow.key m.ht.size) flow now = some (m', out)) :
    out.CopyInside := by
  obtain ⟨hb, hcase⟩ := hm.wellFormed.hashAddItem_cases h
  cases hcase with
  | created _ _ =>
      have hsize : cfg.managerBufferSize.toUInt32.toNat = cfg.managerBufferSize.toInt.toNat :=
        Int32.toNat_toUInt32_of_le (Int32.le_iff_toInt_le.mpr (show 0 ≤ _ by omega))
      rw [created_inside_iff, UInt32.le_iff_toNat_le, hsize]
      omega
  | @appended pre post node _ hlist _ hfit =>
      obtain ⟨hsum, _⟩ := fits_iff hm.bounded hb (mem_of_split hlist) hlen
      exact (appended_inside_iff node.addr hfit).mpr (Or.inl hsum)
  | flushed _ _ _ _ => trivial

end Add

/-! ## §5. Whole runs. -/

/-- A fresh table is the empty map. -/
theorem map_initSignleManager {cfg : Config} {i fuel : Nat} {hashLength : Int32}
    {garbage : Nat → SessionItem} {m : Manager}
    (h : initSignleManager cfg i fuel hashLength garbage = some m) : m.map = fun _ => none := by
  obtain ⟨_, _, hempty⟩ := wellFormed_initSignleManager h
  funext k
  have hnone : lookup Blist.key k m.sessions = none := by
    rw [lookup_eq_none_iff]
    intro node hnode
    obtain ⟨b, _, hb⟩ := List.mem_flatMap.mp hnode
    change node ∈ (m.bucket b).list at hb
    rw [hempty] at hb
    exact absurd hb List.not_mem_nil
  unfold Manager.map
  rw [hnone]
  rfl

/-- **A run of `hash_add_item` is a run of updates**, flow after flow, when the
    payloads fit a session buffer. -/
theorem insertionRun_map {cfg : Config} {m m' : Manager} {calls : List (FlowItem × UInt64)}
    {rs : List (FlowItem × Outcome)} (hm : Reachable cfg m)
    (hlen : ∀ call ∈ calls, (call.1.payloadLen.toNat : Int) ≤ cfg.managerBufferSize.toInt)
    (hrun : (insertion cfg).run m calls = some (m', rs)) :
    Reachable cfg m' ∧ m'.map = calls.foldl
      (fun map call => addFlow cfg.managerBufferSize.toInt.toNat map call.1.key
        (payloadBytes call.1) call.2) m.map := by
  induction calls generalizing m rs with
  | nil =>
      simp only [Machine.run_nil, Option.some.injEq, Prod.mk.injEq] at hrun
      rw [← hrun.1]
      exact ⟨hm, rfl⟩
  | cons call calls ih =>
      obtain ⟨m₁, r, rs', hstep, hrest, _⟩ := (Machine.run_cons_eq_some _).mp hrun
      obtain ⟨⟨m₂, out⟩, hadd, heq⟩ := Option.map_eq_some_iff.mp hstep
      simp only [Prod.mk.injEq] at heq
      obtain ⟨rfl, _⟩ := heq
      have hfit := hlen call List.mem_cons_self
      have hnext : Reachable cfg m₂ := hm.add hadd (hm.inv.copyInside hfit hadd)
      obtain ⟨hreach, hmap⟩ := ih hnext (fun c hc => hlen c (List.mem_cons_of_mem _ hc)) hrest
      refine ⟨hreach, ?_⟩
      rw [hmap, List.foldl_cons, addItem_map hm hfit hadd]

/-- **From `init_signle_manager` on** the table is what the flows add up to. -/
theorem insertionRun_map_init {cfg : Config} {i fuel : Nat} {hashLength : Int32}
    {garbage : Nat → SessionItem} {m₀ m : Manager} {calls : List (FlowItem × UInt64)}
    {rs : List (FlowItem × Outcome)}
    (hinit : initSignleManager cfg i fuel hashLength garbage = some m₀)
    (hlen : ∀ call ∈ calls, (call.1.payloadLen.toNat : Int) ≤ cfg.managerBufferSize.toInt)
    (hrun : (insertion cfg).run m₀ calls = some (m, rs)) :
    m.map = calls.foldl
      (fun map call => addFlow cfg.managerBufferSize.toInt.toNat map call.1.key
        (payloadBytes call.1) call.2) (fun _ => none) := by
  have hmap := (insertionRun_map (Reachable.init hinit) hlen hrun).2
  rw [map_initSignleManager hinit] at hmap
  exact hmap

/-- A first payload, in a fresh table. -/
theorem firstFlow_refines :
    ∃ m out, hashAddItem (sourceConfig 65536 1000) (freshManager 0)
        (bucketIndex fourBytes.key (freshManager 0).ht.size) fourBytes 5 = some (m, out)
      ∧ m.map = addFlow 65536 (freshManager 0).map fourBytes.key (payloadBytes fourBytes) 5 := by
  have hinit := initSignleManager_fresh 65536 1000 0
  obtain ⟨m, hcreate, _⟩ := freshManager_create 65536 1000 0
    (bucketIndex fourBytes.key (freshManager 0).ht.size) fourBytes 5
  have hlen : (fourBytes.payloadLen.toNat : Int)
      ≤ (sourceConfig 65536 1000).managerBufferSize.toInt := by decide
  exact ⟨m, _, hcreate, (hashAddItem_refines (Reachable.init hinit) hlen hcreate).1⟩

end FreePacket.Session
