/-
  FreePacket.Session.Merge
  ────────────────────────
  **WHOSE PAYLOADS ONE SESSION COLLECTS.**

  `payloadsOf i addr rs` reads off the replies of a run which packets went
  into the session at node `addr` of manager `i` since it was last created.
  All of them carry the session's key, so they are packets of one connection
  as long as the run delivers no crossed pair (`Packet.Crossed`); with a
  crossed pair two connections share a session.

  Main results:
    * `stageRun_oneConnection` — the tuple identifies the connection exactly
      off the crossed pairs, and runs without crossed pairs never merge two
      connections.
    * `crossedRun_merges` — a run that does.
-/
import FreePacket.Session.Stage

namespace FreePacket.Session

open FreePacket.Lib FreePacket.Packet

/-! ## §1. The history of a session node. -/

/-- The packets parsers delivered. -/
def delivered (calls : List StageCall) : List PacketT :=
  calls.filterMap fun call =>
    match call with
    | .deliver _ _ packet => some packet
    | _ => none

/-- What a reply adds to the packets in node `addr` of manager `i`. -/
def contribute (i addr : Nat) (packets : List PacketT) : Option Inserted → List PacketT
  | some ⟨j, flow, .created copy⟩ => if j = i ∧ copy.addr = addr then [flow.packet] else packets
  | some ⟨j, flow, .appended copy⟩ =>
      if j = i ∧ copy.addr = addr then packets ++ [flow.packet] else packets
  | _ => packets

/-- The packets whose payloads went into node `addr` of manager `i` since its
    session was created. -/
def payloadsOf (i addr : Nat) (rs : List (Option Inserted)) : List PacketT :=
  rs.foldl (contribute i addr) []

theorem payloadsOf_snoc (i addr : Nat) (rs : List (Option Inserted)) (r : Option Inserted) :
    payloadsOf i addr (rs ++ [r]) = contribute i addr (payloadsOf i addr rs) r := by
  unfold payloadsOf
  rw [List.foldl_append]
  rfl

theorem delivered_snoc (calls : List StageCall) (call : StageCall) :
    delivered (calls ++ [call]) = delivered calls ++ delivered [call] := by
  unfold delivered
  rw [List.filterMap_append]

/-- A call on another node adds nothing. -/
theorem contribute_of_ne {i addr : Nat} {packets : List PacketT} {ins : Inserted}
    (h : ¬ (ins.manager = i ∧ ins.outcome.addr = addr)) :
    contribute i addr packets (some ins) = packets := by
  obtain ⟨j, flow, out⟩ := ins
  cases out with
  | created copy => exact if_neg h
  | appended copy => exact if_neg h
  | flushed _ _ => rfl

/-- What a call adds is its own packet, at most. -/
theorem mem_contribute {i addr : Nat} {packets : List PacketT} {ins : Inserted} {p : PacketT}
    (hp : p ∈ contribute i addr packets (some ins)) : p ∈ packets ∨ p = ins.flow.packet := by
  obtain ⟨j, flow, out⟩ := ins
  cases out with
  | created copy =>
      simp only [contribute] at hp
      split at hp
      · exact Or.inr (List.mem_singleton.mp hp)
      · exact Or.inl hp
  | appended copy =>
      simp only [contribute] at hp
      split at hp
      · rcases List.mem_append.mp hp with hp | hp
        · exact Or.inl hp
        · exact Or.inr (List.mem_singleton.mp hp)
      · exact Or.inl hp
  | flushed _ _ => exact Or.inl hp

/-! ## §2. The invariant with history. -/

/-- **Sessions collect packets of their own key.** -/
structure Collects (cfg : Config) (numbers : UInt32) (calls : List StageCall)
    (rs : List (Option Inserted)) (s : Stage) : Prop where
  inv : StageInv cfg numbers s
  /-- The packets of a node, linked or not, carry one key. -/
  sameKey : ∀ i addr, ∀ p ∈ payloadsOf i addr rs, ∀ q ∈ payloadsOf i addr rs,
    packetKey p = packetKey q
  /-- For a linked node it is the session's key. -/
  linked : ∀ i < numbers.toNat, ∀ b < (s.managers i).ht.rounds,
    ∀ node ∈ ((s.managers i).bucket b).list, ∀ p ∈ payloadsOf i node.addr rs,
      packetKey p = node.key
  /-- All of them were delivered. -/
  known : ∀ i addr, ∀ p ∈ payloadsOf i addr rs, p ∈ delivered calls
  /-- So were the packets of queued flows, which carry their packet's key. -/
  queued : ∀ i < numbers.toNat, ∀ flow ∈ s.queues i,
    flow.key = packetKey flow.packet ∧ flow.packet ∈ delivered calls

section Run

variable {cfg : Config} {parserNums : Nat} {numbers : UInt32}

/-- A call that inserts nothing and changes no table. -/
theorem Collects.quiet {calls : List StageCall} {rs : List (Option Inserted)} {s s' : Stage}
    (hc : Collects cfg numbers calls rs s) (call : StageCall) (hinv : StageInv cfg numbers s')
    (hrounds : ∀ i, (s'.managers i).ht.rounds = (s.managers i).ht.rounds)
    (hnodes : ∀ i b, ∀ node ∈ ((s'.managers i).bucket b).list,
      node ∈ ((s.managers i).bucket b).list)
    (hqueued : ∀ i < numbers.toNat, ∀ flow ∈ s'.queues i,
      flow.key = packetKey flow.packet ∧ flow.packet ∈ delivered (calls ++ [call])) :
    Collects cfg numbers (calls ++ [call]) (rs ++ [none]) s' := by
  have hsame : ∀ i addr, payloadsOf i addr (rs ++ [none]) = payloadsOf i addr rs := by
    intro i addr
    exact payloadsOf_snoc i addr rs none
  refine ⟨hinv, ?_, ?_, ?_, hqueued⟩
  · intro i addr p hp q hq
    rw [hsame] at hp hq
    exact hc.sameKey i addr p hp q hq
  · intro i hi b hb node hnode p hp
    rw [hsame] at hp
    rw [hrounds] at hb
    exact hc.linked i hi b hb node (hnodes i b node hnode) p hp
  · intro i addr p hp
    rw [hsame] at hp
    rw [delivered_snoc]
    exact List.mem_append_left _ (hc.known i addr p hp)

/-- After a call the packets of its node carry the flow's key. -/
theorem Collects.key_of_contribute {calls : List StageCall} {rs : List (Option Inserted)}
    {s : Stage} (hc : Collects cfg numbers calls rs s) {i b : Nat} (hi : i < numbers.toNat)
    (hb : b < (s.managers i).ht.rounds) {flow : FlowItem} {now : UInt64}
    (hflow : flow.key = packetKey flow.packet) {m : Manager} {out : Outcome}
    (h : Adds cfg (s.managers i) b flow now m out) {p : PacketT}
    (hp : p ∈ contribute i out.addr (payloadsOf i out.addr rs) (some ⟨i, flow, out⟩)) :
    packetKey p = flow.key := by
  -- the node of an append or a flush was linked under the flow's key
  have hold : ∀ {pre post : List Blist} {node : Blist},
      ((s.managers i).bucket b).list = pre ++ node :: post → node.item.key = flow.key →
      p ∈ payloadsOf i node.addr rs → packetKey p = flow.key := by
    intro pre post node hlist hkey hmem
    have hnode : node ∈ ((s.managers i).bucket b).list := mem_of_split hlist
    rw [hc.linked i hi b hb node hnode p hmem]
    exact hkey
  cases h with
  | created _ _ =>
      simp only [Outcome.addr, contribute, and_self, if_true, List.mem_singleton] at hp
      rw [hp, hflow]
  | appended _ hlist hkey _ =>
      simp only [Outcome.addr, contribute, and_self, if_true, List.mem_append,
        List.mem_singleton] at hp
      rcases hp with hp | hp
      · exact hold hlist hkey hp
      · rw [hp, hflow]
  | flushed _ hlist hkey _ => exact hold hlist hkey hp

/-- An `insert` keeps the invariant with history. -/
theorem Collects.inserted {calls : List StageCall} {rs : List (Option Inserted)} {s : Stage}
    (hc : Collects cfg numbers calls rs s) {i b : Nat} {now : UInt64} {flow : FlowItem}
    {queue : List FlowItem} {m : Manager} {out : Outcome} (hi : i < numbers.toNat)
    (hqueue : s.queues i = flow :: queue) (hb : b < (s.managers i).ht.rounds)
    (hcase : Adds cfg (s.managers i) b flow now m out)
    (hinv : StageInv cfg numbers
      ⟨Function.update s.managers i m, Function.update s.queues i queue⟩) :
    Collects cfg numbers (calls ++ [.insert i now]) (rs ++ [some ⟨i, flow, out⟩])
      ⟨Function.update s.managers i m, Function.update s.queues i queue⟩ := by
  have hhead : flow ∈ s.queues i := by
    rw [hqueue]
    exact List.mem_cons_self
  obtain ⟨hflow, hknown⟩ := hc.queued i hi flow hhead
  -- only the node of the call gets a new history
  have hne : ∀ {j addr : Nat}, ¬ (i = j ∧ out.addr = addr) →
      payloadsOf j addr (rs ++ [some ⟨i, flow, out⟩]) = payloadsOf j addr rs := by
    intro j addr hno
    rw [payloadsOf_snoc]
    exact contribute_of_ne hno
  have hself : ∀ p ∈ payloadsOf i out.addr (rs ++ [some ⟨i, flow, out⟩]),
      packetKey p = flow.key := by
    intro p hp
    rw [payloadsOf_snoc] at hp
    exact hc.key_of_contribute hi hb hflow hcase hp
  have hcalls : delivered (calls ++ [.insert i now]) = delivered calls := by
    rw [delivered_snoc]
    exact List.append_nil _
  refine ⟨hinv, ?_, ?_, ?_, ?_⟩
  · -- the packets of one node: all of them the call's key, or all of them old
    intro j addr p hp q hq
    by_cases htouch : i = j ∧ out.addr = addr
    · obtain ⟨rfl, rfl⟩ := htouch
      rw [hself p hp, hself q hq]
    · rw [hne htouch] at hp hq
      exact hc.sameKey j addr p hp q hq
  · -- a node linked afterwards was linked before, or is the node of the call
    intro j hj c hc' node hnode p hp
    by_cases hji : j = i
    · rw [hji] at hc' hnode hp
      simp only [Function.update_self] at hc' hnode
      rw [hcase.frame.2.1] at hc'
      rcases (hc.inv.wellFormed i hi).adds_mem hb hcase hc' hnode with
        ⟨hold, haddr⟩ | ⟨_, haddr, htouched⟩
      · rw [hne (fun h => haddr h.2.symm)] at hp
        exact hc.linked i hi c hc' node hold p hp
      · rw [haddr] at hp
        rw [hself p hp]
        exact htouched.key_eq.symm
    · rw [hne (fun h => hji h.1.symm)] at hp
      simp only [Function.update_of_ne hji] at hc' hnode
      exact hc.linked j hj c hc' node hnode p hp
  · intro j addr p hp
    rw [hcalls]
    rw [payloadsOf_snoc] at hp
    rcases mem_contribute hp with hp | hp
    · exact hc.known j addr p hp
    · rw [hp]
      exact hknown
  · intro j hj f hf
    rw [hcalls]
    by_cases hji : j = i
    · rw [hji] at hf
      simp only [Function.update_self] at hf
      exact hc.queued i hi f (by rw [hqueue]; exact List.mem_cons_of_mem _ hf)
    · simp only [Function.update_of_ne hji] at hf
      exact hc.queued j hj f hf

/-- **Every step keeps the invariant with history.** -/
theorem Collects.step {calls : List StageCall} {rs : List (Option Inserted)} {s s' : Stage}
    {call : StageCall} {r : Option Inserted} (hc : Collects cfg numbers calls rs s)
    (h : (stage cfg parserNums numbers).step s call = some (s', r)) :
    Collects cfg numbers (calls ++ [call]) (rs ++ [r]) s' := by
  have hstep := stageStep_cases hc.inv h
  have hinv := hc.inv.step hstep
  cases hstep with
  | @delivered parser index flow packet _ hindex hi =>
      refine hc.quiet _ hinv (fun _ => rfl) (fun _ _ _ hnode => hnode) ?_
      -- the one flow that is new in a queue is the one just delivered
      intro j hj f hf
      rw [delivered_snoc]
      by_cases hji : j = index
      · rw [hji] at hf hj
        simp only [Function.update_self] at hf
        rcases List.mem_append.mp hf with hf | hf
        · obtain ⟨hkey, hmem⟩ := hc.queued index hj f hf
          exact ⟨hkey, List.mem_append_left _ hmem⟩
        · rw [List.mem_singleton.mp hf]
          exact ⟨rfl, List.mem_append_right _ List.mem_cons_self⟩
      · simp only [Function.update_of_ne hji] at hf
        obtain ⟨hkey, hmem⟩ := hc.queued j hj f hf
        exact ⟨hkey, List.mem_append_left _ hmem⟩
  | inserted hi hqueue hb _ hcase => exact hc.inserted hi hqueue hb hcase hinv
  | @discarded i flow queue hi hqueue =>
      refine hc.quiet _ hinv (fun _ => rfl) (fun _ _ _ hnode => hnode) ?_
      intro j hj f hf
      rw [delivered_snoc]
      -- a flow that is thrown away leaves its queue, no more
      have hold : f ∈ s.queues j := by
        by_cases hji : j = i
        · rw [hji] at hf ⊢
          simp only [Function.update_self] at hf
          rw [hqueue]
          exact List.mem_cons_of_mem _ hf
        · simp only [Function.update_of_ne hji] at hf
          exact hf
      obtain ⟨hkey, hmem⟩ := hc.queued j hj f hold
      exact ⟨hkey, List.mem_append_left _ hmem⟩
  | @swept i b now destoryTime hi hb =>
      refine hc.quiet _ hinv ?_ ?_ ?_
      · intro j
        by_cases hji : j = i
        · simp only [hji, Function.update_self]
          rfl
        · simp only [Function.update_of_ne hji]
      · intro j c node hnode
        by_cases hji : j = i
        · rw [hji] at hnode ⊢
          simp only [Function.update_self] at hnode
          exact swept_mem hnode
        · simp only [Function.update_of_ne hji] at hnode
          exact hnode
      · intro j hj f hf
        obtain ⟨hkey, hmem⟩ := hc.queued j hj f hf
        rw [delivered_snoc]
        exact ⟨hkey, List.mem_append_left _ hmem⟩

theorem collects_run {hashLength : Int32} {s₀ s : Stage} {calls : List StageCall}
    {rs : List (Option Inserted)} (hinit : StageInit cfg numbers hashLength s₀)
    (hrun : (stage cfg parserNums numbers).run s₀ calls = some (s, rs)) :
    Collects cfg numbers calls rs s := by
  refine (stage cfg parserNums numbers).run_trace_induction (Collects cfg numbers)
    (fun _ _ _ _ _ _ hc hstep => hc.step hstep) hrun ?_
  refine ⟨stageInv_init hinit, ?_, ?_, ?_, ?_⟩
  · intro i addr p hp
    exact absurd hp List.not_mem_nil
  · intro i _ b _ node _ p hp
    exact absurd hp List.not_mem_nil
  · intro i addr p hp
    exact absurd hp List.not_mem_nil
  · intro i _ flow hflow
    rw [hinit.queues] at hflow
    exact absurd hflow List.not_mem_nil

end Run

/-! ## §3. One connection in each session. -/

/-- **THE TUPLE IDENTIFIES THE CONNECTION EXACTLY OFF THE CROSSED PAIRS**, and
    a run that delivers no crossed pair of one protocol never puts packets of
    two connections into one session. -/
theorem stageRun_oneConnection (cfg : Config) (parserNums : Nat) (numbers : UInt32)
    (hashLength : Int32) :
    (∀ p q : PacketT, (SameTuple p q → SameConnection (endpoints p) (endpoints q))
        ↔ ¬ Crossed (endpoints p) (endpoints q))
      ∧ ∀ (s₀ s : Stage) (calls : List StageCall) (rs : List (Option Inserted)),
        (∀ p ∈ delivered calls, ∀ q ∈ delivered calls, ipProtocol p = ipProtocol q →
          ¬ Crossed (endpoints p) (endpoints q)) →
        StageInit cfg numbers hashLength s₀ →
        (stage cfg parserNums numbers).run s₀ calls = some (s, rs) →
        ∀ i addr, ∀ p ∈ payloadsOf i addr rs, ∀ q ∈ payloadsOf i addr rs,
          SameConnection (endpoints p) (endpoints q) := by
  refine ⟨sameTuple_sameConnection_iff, ?_⟩
  intro s₀ s calls rs huncrossed hinit hrun i addr p hp q hq
  have hc := collects_run hinit hrun
  have hkey := hc.sameKey i addr p hp q hq
  have hproto : ipProtocol p = ipProtocol q := congrArg Key.protocol hkey
  -- both packets were delivered, so the run's condition speaks about this pair
  have hno := huncrossed p (hc.known i addr p hp) q (hc.known i addr q hq) hproto
  exact (sameTuple_sameConnection_iff p q).mpr hno ((packetKey_eq_iff p q).mp hkey).2

/-! ## §4. A crossed pair. -/

/-- The calls that bring two packets into a fresh manager. -/
def twoDeliveries (p q : PacketT) : List StageCall :=
  [.deliver 0 blankFlow p, .deliver 0 blankFlow q, .insert 0 5, .insert 0 6]

/-- Delivery to the only manager. -/
theorem stage_deliver_one {cfg : Config} (s : Stage) (p : PacketT)
    (hroom : (s.queues 0).length < queueCapacity) :
    (stage cfg 1 1).step s (.deliver 0 blankFlow p)
      = some ({ s with queues :=
          Function.update s.queues 0 (s.queues 0 ++ [makeFlowItemTcp blankFlow p]) }, none) := by
  simp only [stage]
  rw [if_pos (by decide), hashIndex_one, Fifo.push_of_le hroom]
  rfl

/-- Insertion into the only manager. -/
theorem stage_insert_one {cfg : Config} (s : Stage) {flow : FlowItem} {queue : List FlowItem}
    {now : UInt64} {m : Manager} {out : Outcome} (hqueue : s.queues 0 = flow :: queue)
    (hadd : hashAddItem cfg (s.managers 0) (bucketIndex flow.key (s.managers 0).ht.size) flow now
      = some (m, out)) :
    (stage cfg 1 1).step s (.insert 0 now)
      = some (⟨Function.update s.managers 0 m, Function.update s.queues 0 queue⟩,
          some ⟨0, flow, out⟩) := by
  simp only [stage]
  rw [if_pos (by decide), hqueue]
  simp only [Fifo.take]
  rw [hadd]
  rfl

/-- In a fresh manager a first flow creates a session in node 0, and a second
    one of its key that fits is appended there. -/
theorem twoFlows_append {fp fq : FlowItem} (hkey : fp.key = fq.key)
    (hfit : fp.payloadLen + fq.payloadLen < 65536) :
    ∃ m₁ m₂ copy₁ copy₂,
      hashAddItem (sourceConfig 65536 1000) (freshManager 0)
          (bucketIndex fp.key (freshManager 0).ht.size) fp 5 = some (m₁, .created copy₁)
        ∧ hashAddItem (sourceConfig 65536 1000) m₁ (bucketIndex fq.key m₁.ht.size) fq 6
          = some (m₂, .appended copy₂)
        ∧ copy₁.addr = 0 ∧ copy₂.addr = 0 := by
  obtain ⟨m₁, hcreate, hsize, hslot, _, hfind⟩ :=
    freshManager_create 65536 1000 0 (bucketIndex fp.key (freshManager 0).ht.size) fp 5
  have hroom : 0 + fp.payloadLen + fq.payloadLen < 65536 := by
    rw [UInt32.zero_add]
    exact hfit
  have hfound := hfind fq hkey.symm
  rw [hkey, ← hsize] at hfound
  exact ⟨m₁, _, _, _, hcreate, hashAddItem_append (hslot _) hfound hroom, rfl, rfl⟩

/-- **Two packets of one key meet in one session** where their payloads fit. -/
theorem sameKey_merges {p q : PacketT} (hkey : packetKey p = packetKey q)
    (hfit : (makeFlowItemTcp blankFlow p).payloadLen + (makeFlowItemTcp blankFlow q).payloadLen
      < 65536) :
    ∃ s rs, (stage (sourceConfig 65536 1000) 1 1).run freshStage (twoDeliveries p q) = some (s, rs)
      ∧ payloadsOf 0 0 rs = [p, q] := by
  obtain ⟨fp, hfp⟩ : ∃ flow, flow = makeFlowItemTcp blankFlow p := ⟨_, rfl⟩
  obtain ⟨fq, hfq⟩ : ∃ flow, flow = makeFlowItemTcp blankFlow q := ⟨_, rfl⟩
  rw [← hfp, ← hfq] at hfit
  have hkeys : fp.key = fq.key := by
    rw [hfp, hfq]
    exact hkey
  obtain ⟨m₁, m₂, copy₁, copy₂, hcreate, happend, haddr₁, haddr₂⟩ := twoFlows_append hkeys hfit
  -- the four steps of the run, with a name for each state between them
  have hrun : ∃ s, (stage (sourceConfig 65536 1000) 1 1).run freshStage (twoDeliveries p q)
      = some (s, [none, none, some ⟨0, fp, .created copy₁⟩, some ⟨0, fq, .appended copy₂⟩]) := by
    obtain ⟨s₁, hs₁⟩ : ∃ s, s = Stage.mk freshManager (Function.update (fun _ => []) 0 [fp]) :=
      ⟨_, rfl⟩
    obtain ⟨s₂, hs₂⟩ : ∃ s, s = Stage.mk freshManager
        (Function.update s₁.queues 0 [fp, fq]) := ⟨_, rfl⟩
    obtain ⟨s₃, hs₃⟩ : ∃ s, s = Stage.mk (Function.update s₂.managers 0 m₁)
        (Function.update s₂.queues 0 [fq]) := ⟨_, rfl⟩
    have hqueue₁ : s₁.queues 0 = [fp] := by
      rw [hs₁]
      rfl
    have hqueue₂ : s₂.queues 0 = [fp, fq] := by
      rw [hs₂]
      rfl
    have hqueue₃ : s₃.queues 0 = [fq] := by
      rw [hs₃]
      rfl
    have hmanager₃ : s₃.managers 0 = m₁ := by
      rw [hs₃]
      rfl
    have hstep₁ : (stage (sourceConfig 65536 1000) 1 1).step freshStage (.deliver 0 blankFlow p)
        = some (s₁, none) := by
      rw [stage_deliver_one freshStage p (show 0 < queueCapacity by decide), hs₁, hfp]
      rfl
    have hstep₂ : (stage (sourceConfig 65536 1000) 1 1).step s₁ (.deliver 0 blankFlow q)
        = some (s₂, none) := by
      rw [stage_deliver_one s₁ q (by rw [hqueue₁]; exact show 1 < 1024 by decide), hs₂, hqueue₁, hfq, hs₁]
      rfl
    have hstep₃ : (stage (sourceConfig 65536 1000) 1 1).step s₂ (.insert 0 5)
        = some (s₃, some ⟨0, fp, .created copy₁⟩) := by
      rw [stage_insert_one s₂ hqueue₂ (by rw [hs₂]; exact hcreate), hs₃]
    have hstep₄ := stage_insert_one s₃ hqueue₃ (by rw [hmanager₃]; exact happend)
    unfold twoDeliveries
    simp only [Machine.run, hstep₁, hstep₂, hstep₃, hstep₄, Option.map_some]
    exact ⟨_, rfl⟩
  obtain ⟨s, hrun⟩ := hrun
  refine ⟨s, _, hrun, ?_⟩
  simp [payloadsOf, contribute, haddr₁, haddr₂, hfp, hfq]

/-- **Every crossed pair of one protocol is merged by some run**, where the
    payloads fit. -/
theorem crossedPair_merges {p q : PacketT} (hproto : ipProtocol p = ipProtocol q)
    (hcrossed : Crossed (endpoints p) (endpoints q))
    (hfit : (makeFlowItemTcp blankFlow p).payloadLen + (makeFlowItemTcp blankFlow q).payloadLen
      < 65536) :
    ∃ s rs, (stage (sourceConfig 65536 1000) 1 1).run freshStage (twoDeliveries p q) = some (s, rs)
      ∧ payloadsOf 0 0 rs = [p, q] ∧ ¬ SameConnection (endpoints p) (endpoints q) := by
  have hpair : SameTuple p q ∧ ¬ SameConnection (endpoints p) (endpoints q) := by
    by_contra hno
    refine (sameTuple_sameConnection_iff p q).mp ?_ hcrossed
    intro htuple
    by_contra hsame
    exact hno ⟨htuple, hsame⟩
  obtain ⟨s, rs, hrun, hpayloads⟩ :=
    sameKey_merges ((packetKey_eq_iff p q).mpr ⟨hproto, hpair.1⟩) hfit
  exact ⟨s, rs, hrun, hpayloads, hpair.2⟩

/-- A 60-byte TCP/IPv4 frame from 10.0.0.1 to 10.0.0.2, its ports given. -/
def helloFrame (source dest : List UInt8) : PacketT :=
  storedFrame ([0, 0, 0, 0, 0, 2, 0, 0, 0, 0, 0, 1, 8, 0,
    69, 0, 0, 46, 0, 1, 0, 0, 64, 6, 102, 199, 10, 0, 0, 1, 10, 0, 0, 2] ++ source ++ dest ++
    [0, 0, 0, 1, 0, 0, 0, 1, 80, 24, 255, 255, 83, 151, 0, 0, 104, 101, 108, 108, 111, 33])

/-- Port 1000 to port 80, and port 80 to port 1000 in the same direction. -/
def toServer : PacketT := helloFrame [3, 232] [0, 80]
def crossedToServer : PacketT := helloFrame [0, 80] [3, 232]

theorem endpoints_toServer : endpoints toServer = ⟨0x0100000a, 0x0200000a, 0xe803, 0x5000⟩ := by
  have hs : source toServer = 0xe803 := by decide
  have hd : dest toServer = 0x5000 := by decide
  unfold endpoints
  rw [hs, hd]
  decide

theorem endpoints_crossedToServer :
    endpoints crossedToServer = ⟨0x0100000a, 0x0200000a, 0x5000, 0xe803⟩ := by
  have hs : source crossedToServer = 0x5000 := by decide
  have hd : dest crossedToServer = 0xe803 := by decide
  unfold endpoints
  rw [hs, hd]
  decide

/-- **Two well-formed frames of two connections end in one session.** -/
theorem crossedRun_merges :
    ¬ ∀ (cfg : Config) (parserNums : Nat) (numbers : UInt32) (hashLength : Int32) (s₀ s : Stage)
        (calls : List StageCall) (rs : List (Option Inserted)),
        (∀ p ∈ delivered calls, WellFormedTcp p) → StageInit cfg numbers hashLength s₀ →
        (stage cfg parserNums numbers).run s₀ calls = some (s, rs) →
        ∀ i addr, ∀ p ∈ payloadsOf i addr rs, ∀ q ∈ payloadsOf i addr rs,
          SameConnection (endpoints p) (endpoints q) := by
  intro hall
  have hcrossed : Crossed (endpoints toServer) (endpoints crossedToServer) := by
    rw [endpoints_toServer, endpoints_crossedToServer]
    unfold Crossed
    decide
  have hfit : (makeFlowItemTcp blankFlow toServer).payloadLen
      + (makeFlowItemTcp blankFlow crossedToServer).payloadLen < 65536 := by decide
  obtain ⟨s, rs, hrun, hpayloads, hdiffer⟩ := crossedPair_merges (by decide) hcrossed hfit
  have hframes : ∀ p ∈ delivered (twoDeliveries toServer crossedToServer), WellFormedTcp p := by
    show ∀ p ∈ [toServer, crossedToServer], WellFormedTcp p
    intro p hp
    rcases List.mem_cons.mp hp with hp | hp
    · rw [hp]
      decide
    · rw [List.mem_singleton.mp hp]
      decide
  refine hdiffer (hall _ 1 1 1 freshStage s _ rs hframes (stageInit_freshStage 65536 1000 1) hrun
    0 0 toServer ?_ crossedToServer ?_)
  · rw [hpayloads]
    exact List.mem_cons_self
  · rw [hpayloads]
    exact List.mem_cons_of_mem _ List.mem_cons_self

/-- **Two packets of one direction** share a session, and are one connection. -/
theorem repeatedRun_oneConnection :
    ∃ s rs, (stage (sourceConfig 65536 1000) 1 1).run freshStage (twoDeliveries toServer toServer)
        = some (s, rs)
      ∧ payloadsOf 0 0 rs = [toServer, toServer]
      ∧ SameConnection (endpoints toServer) (endpoints toServer) := by
  have hfit : (makeFlowItemTcp blankFlow toServer).payloadLen
      + (makeFlowItemTcp blankFlow toServer).payloadLen < 65536 := by decide
  obtain ⟨s, rs, hrun, hpayloads⟩ := sameKey_merges (p := toServer) rfl hfit
  have hmem : toServer ∈ payloadsOf 0 0 rs := by
    rw [hpayloads]
    exact List.mem_cons_self
  have huncrossed : ∀ p ∈ delivered (twoDeliveries toServer toServer),
      ∀ q ∈ delivered (twoDeliveries toServer toServer), ipProtocol p = ipProtocol q →
        ¬ Crossed (endpoints p) (endpoints q) := by
    show ∀ p ∈ [toServer, toServer], ∀ q ∈ [toServer, toServer], _
    intro p hp q hq _
    have hp' : p = toServer := by simpa using hp
    have hq' : q = toServer := by simpa using hq
    rw [hp', hq', endpoints_toServer]
    unfold Crossed
    decide
  exact ⟨s, rs, hrun, hpayloads, (stageRun_oneConnection _ 1 1 1).2 freshStage s _ rs huncrossed
    (stageInit_freshStage 65536 1000 1) hrun 0 0 toServer hmem toServer hmem⟩

end FreePacket.Session
