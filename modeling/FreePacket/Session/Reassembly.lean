/-
  FreePacket.Session.Reassembly
  ─────────────────────────────
  **WHICH PAYLOAD BYTES SURVIVE REASSEMBLY.**

  For one connection key, what went in are the payloads of its flows; what
  came out are the bytes each flush computed a CRC over, and what is still in
  the live session's buffer.  A flush loses the payload that caused it and
  the last `cur_len % 4` bytes; an append whose `uint32_t` sum wraps loses
  what it passed over.

  Main result: `insertionRun_lossless_iff` — in, and out followed by live,
  agree for a key exactly when no call of the run on that key loses a byte.
-/
import FreePacket.Session.Stage

namespace FreePacket.Session

open FreePacket.Lib FreePacket.Packet

/-! ## §1. Insertions on one manager. -/

/-- `packet_manager_loop` above pipe depth 4: the bucket index of the flow's
    key, then `hash_add_item`. -/
def insertion (cfg : Config) : Machine Manager (FlowItem × UInt64) (FlowItem × Outcome) where
  step m call :=
    (hashAddItem cfg m (bucketIndex call.1.key m.ht.size) call.1 call.2).map
      (fun p => (p.1, (call.1, p.2)))

/-- `flow->payload[0 .. payload_len)`. -/
def payloadBytes (flow : FlowItem) : List UInt8 := slice flow.payload 0 flow.payloadLen.toNat

/-- The bytes a call computed a CRC over. -/
def Outcome.summed : Outcome → List UInt8
  | .created _ => []
  | .appended _ => []
  | .flushed _ bytes => bytes

/-- What went in: the payloads of the key's flows, in order. -/
def added (k : Key) (rs : List (FlowItem × Outcome)) : List UInt8 :=
  (rs.filter (fun r => r.1.key == k)).flatMap (fun r => payloadBytes r.1)

/-- What came out: the bytes of the key's flushes, in order. -/
def flushed (k : Key) (rs : List (FlowItem × Outcome)) : List UInt8 :=
  (rs.filter (fun r => r.1.key == k)).flatMap (fun r => r.2.summed)

/-- `buffer[0 .. cur_len)`. -/
def sessionBytes (node : Blist) : List UInt8 := slice node.item.buffer 0 node.item.curLen.toNat

/-- The bytes of the key's session in a bucket list, if it has one. -/
def bytesIn (k : Key) (ll : List Blist) : List UInt8 :=
  match ll.find? (fun node => node.key == k) with
  | none => []
  | some node => sessionBytes node

/-- The bytes of the key's live session. -/
def live (k : Key) (m : Manager) : List UInt8 :=
  bytesIn k (m.bucket (bucketIndex k m.ht.size).toNat).list

/-- **The condition** on a call for key `k`: where its session is found, an
    accepted append does not wrap, and a flush is caused by an empty payload
    and finds a whole number of words. -/
def Lossless (k : Key) (m : Manager) (call : FlowItem × UInt64) : Prop :=
  call.1.key = k →
    match findList (m.bucket (bucketIndex k m.ht.size).toNat).list call.1 with
    | none => True
    | some node =>
        if node.item.curLen + call.1.payloadLen < node.item.length then
          node.item.curLen.toNat + call.1.payloadLen.toNat < 2 ^ 32
        else call.1.payloadLen = 0 ∧ node.item.curLen.toNat % 4 = 0

/-- A created session holds the payload of its first flow. -/
theorem sessionBytes_makeNewSession (cfg : Config) (fresh : Blist) (flow : FlowItem)
    (manager : Nat) (now : UInt64) :
    sessionBytes (makeNewSession cfg fresh flow manager now) = payloadBytes flow := by
  show slice (memcpy _ 0 _ _) 0 (0 + flow.payloadLen).toNat = payloadBytes flow
  rw [UInt32.zero_add, slice_memcpy_self]
  rfl

/-- An append whose `uint32_t` sum does not wrap puts the payload behind the
    bytes that were there. -/
theorem sessionBytes_appendSession {node : Blist} {flow : FlowItem} (now : UInt64)
    (h : node.item.curLen.toNat + flow.payloadLen.toNat < 2 ^ 32) :
    sessionBytes (appendSession node flow now) = sessionBytes node ++ payloadBytes flow := by
  show slice (memcpy _ _ _ _) 0 (node.item.curLen + flow.payloadLen).toNat = _
  rw [UInt32.toNat_add, Nat.mod_eq_of_lt h, slice_memcpy_append]
  rfl

/-! ## §2. The live session under changes of its bucket. -/

/-- A node of another key is invisible. -/
theorem bytesIn_append_cons_of_ne {k : Key} (pre post : List Blist) {x : Blist} (h : x.key ≠ k) :
    bytesIn k (pre ++ x :: post) = bytesIn k (pre ++ post) := by
  unfold bytesIn
  rw [List.find?_append, List.find?_append, List.find?_cons_of_neg (by simpa using h)]

theorem bytesIn_of_forall_ne {k : Key} {ll : List Blist} (h : ∀ node ∈ ll, node.key ≠ k) :
    bytesIn k ll = [] := by
  have hfind : ll.find? (fun node => node.key == k) = none := by
    rw [List.find?_eq_none]
    intro node hnode hk
    exact h node hnode (eq_of_beq hk)
  unfold bytesIn
  rw [hfind]

/-- The node of the key is seen when no node before it has the key. -/
theorem bytesIn_append_cons {k : Key} {pre : List Blist} (post : List Blist) {x : Blist}
    (hpre : ∀ node ∈ pre, node.key ≠ k) (hx : x.key = k) :
    bytesIn k (pre ++ x :: post) = sessionBytes x := by
  have hfind : pre.find? (fun node => node.key == k) = none := by
    rw [List.find?_eq_none]
    intro node hnode hk
    exact hpre node hnode (eq_of_beq hk)
  unfold bytesIn
  rw [List.find?_append, hfind, List.find?_cons_of_pos (by simp [hx])]
  rfl

/-- Distinct keys: the other nodes of the list have other keys. -/
theorem key_ne_of_nodup {pre post : List Blist} {x : Blist}
    (hnd : ((pre ++ x :: post).map Blist.key).Nodup) :
    (∀ node ∈ pre, node.key ≠ x.key) ∧ ∀ node ∈ post, node.key ≠ x.key := by
  simp only [List.map_append, List.map_cons, List.nodup_append, List.nodup_cons, List.mem_map,
    List.mem_cons] at hnd
  obtain ⟨_, ⟨hpost, _⟩, hpre⟩ := hnd
  refine ⟨fun node hnode => hpre node.key ⟨node, hnode, rfl⟩ x.key (Or.inl rfl), ?_⟩
  intro node hnode heq
  exact hpost ⟨node, hnode, heq⟩

/-- The live bytes seen through a changed bucket. -/
theorem live_setBucket (k : Key) (m : Manager) (pool : List Blist) (b : Nat) (bucket : Bucket) :
    live k (({ m with sessionPool := pool }).setBucket b bucket)
      = if (bucketIndex k m.ht.size).toNat = b then bytesIn k bucket.list else live k m := by
  unfold live
  by_cases hb : (bucketIndex k m.ht.size).toNat = b
  · rw [if_pos hb, setBucket_size, hb, bucket_setBucket_self]
  · rw [if_neg hb, setBucket_size, bucket_setBucket_of_ne _ _ hb]
    rfl

section Step

variable {cfg : Config} {m m' : Manager} {flow : FlowItem} {now : UInt64} {out : Outcome}

/-- **A call leaves other keys' live bytes alone.** -/
theorem live_of_key_ne {b : Nat} {k : Key} (h : Adds cfg m b flow now m' out)
    (hk : flow.key ≠ k) : live k m' = live k m := by
  cases h with
  | @created fresh pool _ _ =>
      -- a new session of the flow's key
      have hnew : (makeNewSession cfg fresh flow m.index now).key ≠ k := hk
      rw [live_setBucket]
      split
      · rename_i hb
        show bytesIn k ((m.bucket b).list ++ [_]) = live k m
        rw [bytesIn_append_cons_of_ne _ _ hnew, List.append_nil, ← hb]
        rfl
      · rfl
  | @appended pre post node _ hlist hkey _ =>
      have hold : node.key ≠ k := by
        rw [← hkey] at hk
        exact hk
      -- an old session of the flow's key, longer now
      have hnew : (appendSession node flow now).key ≠ k := hold
      rw [show m.setBucket b _ = ({ m with sessionPool := m.sessionPool }).setBucket b _ from rfl,
        live_setBucket]
      split
      · rename_i hb
        show bytesIn k (pre ++ appendSession node flow now :: post) = live k m
        unfold live
        rw [hb, hlist, bytesIn_append_cons_of_ne _ _ hnew, bytesIn_append_cons_of_ne _ _ hold]
      · rfl
  | @flushed pre post node _ hlist hkey _ =>
      have hold : node.key ≠ k := by
        rw [← hkey] at hk
        exact hk
      unfold Manager.removed
      rw [live_setBucket]
      split
      · rename_i hb
        unfold live
        rw [hb, hlist, bytesIn_append_cons_of_ne _ _ hold]
      · rfl

/-- A wrapped sum is smaller than the sum. -/
theorem toNat_add_le (a b : UInt32) :
    (a + b).toNat ≤ a.toNat + b.toNat
      ∧ ((a + b).toNat = a.toNat + b.toNat → a.toNat + b.toNat < 2 ^ 32) := by
  have hlt := (a + b).toNat_lt
  rw [UInt32.toNat_add]
  refine ⟨Nat.mod_le _ _, ?_⟩
  intro h
  rw [← h]
  exact Nat.mod_lt _ (by decide)

/-- The bytes of a flush: whole words of the session. -/
theorem flushBytes_eq (session : SessionItem) :
    flushBytes session = slice session.buffer 0 (session.curLen.toNat - session.curLen.toNat % 4) := by
  have hlen : (session.curLen / 4 * 4).toNat
      = session.curLen.toNat - session.curLen.toNat % 4 := by
    have hlt := session.curLen.toNat_lt
    rw [UInt32.toNat_mul, UInt32.toNat_div]
    show session.curLen.toNat / 4 * 4 % 2 ^ 32 = _
    rw [Nat.mod_eq_of_lt (by omega)]
    omega
  unfold flushBytes crcBytes
  rw [hlen]

/-! ## §3. One call on the key. -/

/-- A call that creates the key's session: the payload is live. -/
theorem created_balanced {k : Key} {b : Nat} (hkb : (bucketIndex k m.ht.size).toNat = b)
    {fresh : Blist} {pool : List Blist} (hk : flow.key = k)
    (hnone : ∀ node ∈ (m.bucket b).list, node.item.key ≠ flow.key) :
    Balanced (live k m) (payloadBytes flow) []
      (live k (({ m with sessionPool := pool }).setBucket b
        ((m.bucket b).link (makeNewSession cfg fresh flow m.index now))))
      (Lossless k m (flow, now)) := by
  have hother : ∀ node ∈ (m.bucket b).list, node.key ≠ k := by
    intro node hnode heq
    exact hnone node hnode (heq.trans hk.symm)
  have hnew : (makeNewSession cfg fresh flow m.index now).key = k := hk
  have hbefore : live k m = [] := by
    unfold live
    rw [hkb, bytesIn_of_forall_ne hother]
  have hafter : live k (({ m with sessionPool := pool }).setBucket b
      ((m.bucket b).link (makeNewSession cfg fresh flow m.index now))) = payloadBytes flow := by
    rw [live_setBucket, if_pos hkb]
    show bytesIn k (_ ++ [_]) = payloadBytes flow
    rw [bytesIn_append_cons [] hother hnew]
    exact sessionBytes_makeNewSession cfg fresh flow m.index now
  rw [hafter, hbefore]
  refine ⟨Nat.le_refl _, fun _ _ => ?_, fun _ => rfl⟩
  rw [hkb, (findList_eq_none_iff _ _).mpr hnone]
  trivial

/-- A call that finds the key's session, and whether it loses anything. -/
theorem lossless_found (now : UInt64) {k : Key} {b : Nat} (hkb : (bucketIndex k m.ht.size).toNat = b)
    (hk : flow.key = k) {node : Blist} (hfind : findList (m.bucket b).list flow = some node) :
    Lossless k m (flow, now) ↔
      if node.item.curLen + flow.payloadLen < node.item.length then
        node.item.curLen.toNat + flow.payloadLen.toNat < 2 ^ 32
      else flow.payloadLen = 0 ∧ node.item.curLen.toNat % 4 = 0 := by
  unfold Lossless
  rw [hkb, hfind]
  exact ⟨fun h => h hk, fun h _ => h⟩

/-- A call that appends: nothing is lost unless the `uint32_t` sum wraps. -/
theorem appended_balanced {k : Key} {b : Nat} (hkb : (bucketIndex k m.ht.size).toNat = b)
    {pre post : List Blist} {node : Blist} (hk : flow.key = k)
    (hfind : findList (m.bucket b).list flow = some node)
    (hlist : (m.bucket b).list = pre ++ node :: post) (hpre : ∀ x ∈ pre, x.key ≠ k)
    (hnode : node.key = k) (hfit : node.item.curLen + flow.payloadLen < node.item.length) :
    Balanced (live k m) (payloadBytes flow) []
      (live k (m.setBucket b { list := pre ++ appendSession node flow now :: post
                               count := (m.bucket b).count }))
      (Lossless k m (flow, now)) := by
  have hbefore : live k m = sessionBytes node := by
    unfold live
    rw [hkb, hlist, bytesIn_append_cons post hpre hnode]
  have hafter : live k (m.setBucket b { list := pre ++ appendSession node flow now :: post
                                        count := (m.bucket b).count })
      = sessionBytes (appendSession node flow now) := by
    rw [show m.setBucket b _ = ({ m with sessionPool := m.sessionPool }).setBucket b _ from rfl,
      live_setBucket, if_pos hkb]
    exact bytesIn_append_cons post hpre hnode
  have hlossless := lossless_found now hkb hk hfind
  rw [if_pos hfit] at hlossless
  obtain ⟨hle, heq⟩ := toNat_add_le node.item.curLen flow.payloadLen
  rw [hbefore, hafter]
  refine Balanced.congr ⟨?_, ?_, ?_⟩ hlossless.symm
  · unfold sessionBytes payloadBytes
    rw [slice_length, slice_length, slice_length]
    show 0 + (node.item.curLen + flow.payloadLen).toNat ≤ _
    omega
  · -- equal lengths: the sum did not wrap
    intro h
    unfold sessionBytes payloadBytes at h
    rw [slice_length, slice_length, slice_length] at h
    have h' : 0 + (node.item.curLen + flow.payloadLen).toNat
        = node.item.curLen.toNat + flow.payloadLen.toNat := h
    exact heq (by omega)
  · exact fun h => sessionBytes_appendSession now h

/-- A call that flushes: its own payload and the bytes behind the last whole
    word are lost. -/
theorem flushed_balanced {k : Key} {b : Nat} (hkb : (bucketIndex k m.ht.size).toNat = b)
    {pre post : List Blist} {node : Blist} (hk : flow.key = k)
    (hfind : findList (m.bucket b).list flow = some node)
    (hlist : (m.bucket b).list = pre ++ node :: post) (hpre : ∀ x ∈ pre, x.key ≠ k)
    (hpost : ∀ x ∈ post, x.key ≠ k) (hnode : node.key = k)
    (hfull : ¬ node.item.curLen + flow.payloadLen < node.item.length) :
    Balanced (live k m) (payloadBytes flow) (flushBytes node.item)
      (live k (m.removed b node (pre ++ post))) (Lossless k m (flow, now)) := by
  have hbefore : live k m = sessionBytes node := by
    unfold live
    rw [hkb, hlist, bytesIn_append_cons post hpre hnode]
  have hafter : live k (m.removed b node (pre ++ post)) = [] := by
    unfold Manager.removed
    rw [live_setBucket, if_pos hkb]
    refine bytesIn_of_forall_ne ?_
    intro x hx
    rcases List.mem_append.mp hx with hx | hx
    · exact hpre x hx
    · exact hpost x hx
  have hlossless := lossless_found now hkb hk hfind
  rw [if_neg hfull] at hlossless
  rw [hbefore, hafter, flushBytes_eq]
  unfold sessionBytes payloadBytes
  refine Balanced.congr ⟨?_, ?_, ?_⟩ hlossless.symm
  · rw [slice_length, slice_length, slice_length, List.length_nil]
    omega
  · -- equal lengths: no payload to drop, and no bytes behind the last word
    intro h
    rw [slice_length, slice_length, slice_length, List.length_nil] at h
    refine ⟨?_, by omega⟩
    rw [← UInt32.toNat_inj]
    show flow.payloadLen.toNat = 0
    omega
  · intro h
    rw [h.1, h.2]
    show _ ++ [] = _ ++ []
    rw [Nat.sub_zero]

/-- **One call on key `k`** balances, and loses nothing exactly under its condition. -/
theorem adds_balanced {k : Key} (hp : Placed 1 0 m)
    (hb : (bucketIndex k m.ht.size).toNat < m.ht.rounds)
    (h : Adds cfg m (bucketIndex k m.ht.size).toNat flow now m' out) (hk : flow.key = k) :
    Balanced (live k m) (payloadBytes flow) out.summed (live k m') (Lossless k m (flow, now)) := by
  have hnd := hp.unique _ hb
  cases h with
  | created _ hnone => exact created_balanced rfl hk hnone
  | appended hfind hlist hkey hfit =>
      rw [hlist] at hnd
      obtain ⟨hpre, _⟩ := key_ne_of_nodup hnd
      have hnode := hkey.trans hk
      exact appended_balanced rfl hk hfind hlist (fun x hx => hnode ▸ hpre x hx) hnode hfit
  | flushed hfind hlist hkey hfull =>
      rw [hlist] at hnd
      obtain ⟨hpre, hpost⟩ := key_ne_of_nodup hnd
      have hnode := hkey.trans hk
      exact flushed_balanced rfl hk hfind hlist (fun x hx => hnode ▸ hpre x hx)
        (fun x hx => hnode ▸ hpost x hx) hnode hfull

end Step

/-! ## §4. Accounting over a run. -/

theorem added_cons (k : Key) (r : FlowItem × Outcome) (rs : List (FlowItem × Outcome)) :
    added k (r :: rs) = (if r.1.key = k then payloadBytes r.1 else []) ++ added k rs := by
  unfold added
  by_cases hk : r.1.key = k
  · rw [List.filter_cons_of_pos (by simpa using hk), List.flatMap_cons, if_pos hk]
  · rw [List.filter_cons_of_neg (by simpa using hk), if_neg hk, List.nil_append]

theorem flushed_cons (k : Key) (r : FlowItem × Outcome) (rs : List (FlowItem × Outcome)) :
    flushed k (r :: rs) = (if r.1.key = k then r.2.summed else []) ++ flushed k rs := by
  unfold flushed
  by_cases hk : r.1.key = k
  · rw [List.filter_cons_of_pos (by simpa using hk), List.flatMap_cons, if_pos hk]
  · rw [List.filter_cons_of_neg (by simpa using hk), if_neg hk, List.nil_append]

/-- A call of `hash_add_item` that gets through is a step. -/
theorem insertionStep_add {cfg : Config} {m m' : Manager} {flow : FlowItem} {now : UInt64}
    {out : Outcome}
    (h : hashAddItem cfg m (bucketIndex flow.key m.ht.size) flow now = some (m', out)) :
    (insertion cfg).step m (flow, now) = some (m', (flow, out)) := by
  simp only [insertion, h, Option.map_some]

/-- **One call, whatever its key**, keeps the invariants and balances. -/
theorem insertionStep_balanced {cfg : Config} {m m' : Manager} {call : FlowItem × UInt64}
    {r : FlowItem × Outcome} (hw : WellFormed cfg.poolSize m) (hp : Placed 1 0 m)
    (h : (insertion cfg).step m call = some (m', r)) (k : Key) :
    WellFormed cfg.poolSize m' ∧ Placed 1 0 m'
      ∧ Balanced (live k m) (if r.1.key = k then payloadBytes r.1 else [])
          (if r.1.key = k then r.2.summed else []) (live k m') (Lossless k m call) := by
  obtain ⟨flow, now⟩ := call
  obtain ⟨⟨m₁, out⟩, hadd, heq⟩ := Option.map_eq_some_iff.mp h
  simp only [Prod.mk.injEq] at heq
  obtain ⟨rfl, rfl⟩ := heq
  obtain ⟨hb, hcase⟩ := hw.hashAddItem_cases hadd
  rw [slot_bucketIndex] at hb hcase
  refine ⟨hw.adds hb hcase, hp.adds hb hcase (hashIndex_one flow.key) rfl, ?_⟩
  by_cases hk : flow.key = k
  · rw [if_pos hk, if_pos hk]
    rw [hk] at hb hcase
    exact adds_balanced hp hb hcase hk
  · -- a call on another key touches nothing of this one
    rw [if_neg hk, if_neg hk, live_of_key_ne hcase hk]
    exact (Balanced.refl (live k m)).congr ⟨fun _ hkey => absurd hkey hk, fun _ => trivial⟩

/-- **A run balances**: over a run nothing comes out that did not go in, and
    all of it does exactly when no call loses a byte. -/
theorem insertionRun_balanced {cfg : Config} {m m' : Manager} {calls : List (FlowItem × UInt64)}
    {rs : List (FlowItem × Outcome)} (hw : WellFormed cfg.poolSize m) (hp : Placed 1 0 m)
    (hrun : (insertion cfg).run m calls = some (m', rs)) (k : Key) :
    Balanced (live k m) (added k rs) (flushed k rs) (live k m')
      ((insertion cfg).Along (Lossless k) m calls) := by
  induction calls generalizing m rs with
  | nil =>
      simp only [Machine.run_nil, Option.some.injEq, Prod.mk.injEq] at hrun
      rw [← hrun.1, ← hrun.2]
      exact Balanced.refl (live k m)
  | cons call calls ih =>
      obtain ⟨m₁, r, rs', hstep, hrest, hrs⟩ := (Machine.run_cons_eq_some _).mp hrun
      obtain ⟨hw₁, hp₁, hfirst⟩ := insertionStep_balanced hw hp hstep k
      have halong : (insertion cfg).Along (Lossless k) m (call :: calls)
          ↔ Lossless k m call ∧ (insertion cfg).Along (Lossless k) m₁ calls :=
        Machine.along_cons _ hstep
      rw [hrs, added_cons, flushed_cons]
      exact (hfirst.trans (ih hw₁ hp₁ hrest)).congr halong.symm

/-- A fresh manager has no live session. -/
theorem live_initSignleManager {cfg : Config} {i fuel : Nat} {hashLength : Int32}
    {garbage : Nat → SessionItem} {m : Manager}
    (h : initSignleManager cfg i fuel hashLength garbage = some m) (k : Key) : live k m = [] := by
  obtain ⟨_, _, hempty⟩ := wellFormed_initSignleManager h
  unfold live
  rw [hempty]
  rfl

/-- **REASSEMBLY KEEPS EVERY BYTE OF A KEY EXACTLY WHEN NO CALL LOSES ONE**,
    over every run of `hash_add_item` from `init_signle_manager`. -/
theorem insertionRun_lossless_iff {cfg : Config} {i fuel : Nat} {hashLength : Int32}
    {garbage : Nat → SessionItem} {m₀ m : Manager} {calls : List (FlowItem × UInt64)}
    {rs : List (FlowItem × Outcome)}
    (hinit : initSignleManager cfg i fuel hashLength garbage = some m₀)
    (hrun : (insertion cfg).run m₀ calls = some (m, rs)) (k : Key) :
    flushed k rs ++ live k m = added k rs ↔ (insertion cfg).Along (Lossless k) m₀ calls := by
  have hw := (wellFormed_initSignleManager hinit).1
  have hp := placed_initSignleManager 1 0 hinit
  have hrunBalance := insertionRun_balanced hw hp hrun k
  rw [live_initSignleManager hinit] at hrunBalance
  exact hrunBalance.eq_iff

/-! ## §5. Small runs. -/

/-- A flow with a payload of four bytes. -/
def fourBytes : FlowItem := { blankFlow with payload := fun k => UInt8.ofNat k, payloadLen := 4 }

/-- **One payload** goes in and stays live. -/
theorem onePayload_lossless :
    ∃ m rs, (insertion (sourceConfig 65536 1000)).run (freshManager 0) [(fourBytes, 5)]
        = some (m, rs)
      ∧ flushed fourBytes.key rs ++ live fourBytes.key m = added fourBytes.key rs := by
  have hinit := initSignleManager_fresh 65536 1000 0
  obtain ⟨_, _, hempty⟩ := wellFormed_initSignleManager hinit
  obtain ⟨m, hcreate, _⟩ := freshManager_create 65536 1000 0
    (bucketIndex fourBytes.key (freshManager 0).ht.size) fourBytes 5
  have hrun := (insertion (sourceConfig 65536 1000)).run_singleton (insertionStep_add hcreate)
  refine ⟨m, _, hrun, (insertionRun_lossless_iff hinit hrun fourBytes.key).mpr ⟨?_, fun _ _ _ => trivial⟩⟩
  intro _
  rw [hempty]
  trivial

/-- **A second payload that fills the buffer is lost**: it causes the flush of
    the first one and is itself dropped. -/
theorem fullBuffer_loses_payload :
    ¬ ∀ (cfg : Config) (i fuel : Nat) (hashLength : Int32) (garbage : Nat → SessionItem)
        (m₀ m : Manager) (calls : List (FlowItem × UInt64)) (rs : List (FlowItem × Outcome))
        (k : Key),
        (∀ call ∈ calls, call.1.payloadLen ≤ cfg.managerBufferSize.toUInt32) →
        initSignleManager cfg i fuel hashLength garbage = some m₀ →
        (insertion cfg).run m₀ calls = some (m, rs) →
        flushed k rs ++ live k m = added k rs := by
  intro hall
  have hinit := initSignleManager_fresh 8 1000 0
  have hw := (wellFormed_initSignleManager hinit).1
  have hp := placed_initSignleManager 1 0 hinit
  have hlive := live_initSignleManager hinit
  obtain ⟨m₁, hcreate, hsize, hslot, _, hfind⟩ := freshManager_create 8 1000 0
    (bucketIndex fourBytes.key (freshManager 0).ht.size) fourBytes 5
  have hfound := hfind fourBytes rfl
  rw [← hsize] at hfound
  -- the second call finds the session and takes a step
  have hw₁ := hw.adds (hw.hashAddItem_cases hcreate).1 (hw.hashAddItem_cases hcreate).2
  obtain ⟨p, hadd⟩ : ∃ p, hashAddItem (sourceConfig 8 1000) m₁
      (bucketIndex fourBytes.key m₁.ht.size) fourBytes 6 = some p := by
    rw [← Option.isSome_iff_exists, Option.isSome_iff_ne_none]
    intro hnone
    have hmissing := (findList_eq_none_iff _ _).mpr (hw₁.hashAddItem_eq_none (hslot _) hnone).2
    rw [hfound] at hmissing
    exact absurd hmissing (by simp)
  have hstep₁ := insertionStep_add hcreate
  have hrun := (Machine.run_cons_eq_some (insertion (sourceConfig 8 1000))).mpr
    ⟨m₁, _, _, hstep₁, Machine.run_singleton _ (insertionStep_add hadd), rfl⟩
  have hpayloads : ∀ call ∈ [(fourBytes, (5 : UInt64)), (fourBytes, 6)],
      call.1.payloadLen ≤ (sourceConfig 8 1000).managerBufferSize.toUInt32 := by
    intro call hcall
    have hflow : call.1 = fourBytes := by
      rcases List.mem_cons.mp hcall with h | h
      · rw [h]
      · rw [List.mem_singleton.mp h]
    rw [hflow]
    decide
  have hlaw := hall _ 0 1 1 _ _ _ _ _ fourBytes.key hpayloads hinit hrun
  -- so by the accounting no call lost a byte, but the second one did
  have halong : (insertion (sourceConfig 8 1000)).Along (Lossless fourBytes.key) (freshManager 0)
      [(fourBytes, 5), (fourBytes, 6)] := by
    have hbalance := insertionRun_balanced hw hp hrun fourBytes.key
    rw [hlive] at hbalance
    exact hbalance.eq_iff.mp hlaw
  have hsecond := (halong.2 m₁ _ hstep₁).1 rfl
  rw [← slot_bucketIndex, hfound] at hsecond
  exact absurd hsecond (by decide)

end FreePacket.Session
