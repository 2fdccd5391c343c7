/-
  FreePacket.Pipeline.Order
  ─────────────────────────
  **NO OVERTAKING on the way from a generator to `hash_add_item`.**

  A generator `i` with `i + gNums ≥ pNums` feeds parser `i` alone.  The
  packets of one key it emits stand in one line: parser `i`'s queue, parser
  `i`'s hands, the queue of the one manager the key is hashed to, that
  manager's hands.  A step moves the line on, adds to its end, or drops from
  it where `pipe_depth` sends packets back early; no step passes a packet by
  another one.

  Main results:
    * `Routed.step` — flows stay on the way their key selects.
    * `line_moves` — what one step does to the line.
    * `Ordered.step` — calls and line together, against the emissions.
-/
import FreePacket.Pipeline.Events

namespace FreePacket.Pipeline

open FreePacket.Lib FreePacket.Packet
open FreePacket.Session (Manager Config Outcome hashAddItem queueCapacity)

/-! ## §1. Flows on their way. -/

/-- The flow is what the parser made of its packet. -/
def Made (flow : FlowItem) : Prop := ∃ old, flow = makeFlowItemTcp old flow.packet

/-- A flow on its way to manager `m`. -/
def MadeFor (numbers : UInt32) (m : Nat) (flow : FlowItem) : Prop :=
  Made flow ∧ (hashIndex flow.key numbers).toNat = m

theorem Made.key_eq {flow : FlowItem} (h : Made flow) : flow.key = packetKey flow.packet := by
  obtain ⟨old, hflow⟩ := h
  rw [hflow]
  rfl

theorem made_zipWith (flows : List FlowItem) (packets : List PacketT) :
    Each Made (List.zipWith makeFlowItemTcp flows packets) := by
  intro flow hflow
  rw [← List.map_uncurry_zip_eq_zipWith] at hflow
  obtain ⟨⟨old, packet⟩, _, rfl⟩ := List.mem_map.mp hflow
  exact ⟨old, rfl⟩

def ParserRoutes (pc : ParserPc) : Prop := Each Made pc.flows

def ManagerRoutes (numbers : UInt32) (m : Nat) (pc : ManagerPc) : Prop :=
  Each (MadeFor numbers m) pc.flows

/-- **Flows are where their keys send them.** -/
structure Routed (pNums : Nat) (numbers : UInt32) (s : Stages) : Prop where
  parserPc : ∀ q < pNums, ParserRoutes (s.parserPc q)
  managerQueue : ∀ m < numbers.toNat, Each (MadeFor numbers m) (s.managerQueue m)
  managerPc : ∀ m < numbers.toNat, ManagerRoutes numbers m (s.managerPc m)

section Steps

variable {mode : Mode} {cfg : Config} {gNums pNums : Nat} {numbers : UInt32} {s s' : Stages}

/-- The forward loop sends a flow to the manager of its key. -/
theorem parserStep_forward {q : Nat} {pipeDepth : Int32} {flow : FlowItem} {rest : List FlowItem}
    (hpc : s.parserPc q = .forward (flow :: rest))
    (h : parserStep numbers s q pipeDepth = some s') :
    (hashIndex flow.key numbers).toNat < numbers.toNat ∧ s' =
      { s with
        managerQueue := Function.update s.managerQueue (hashIndex flow.key numbers).toNat
          (s.managerQueue (hashIndex flow.key numbers).toNat ++ [flow])
        parserPc := Function.update s.parserPc q (.forward rest) } := by
  unfold parserStep at h
  simp only [hpc] at h
  split at h
  · rename_i hnumbers
    obtain ⟨queue, hpush, heq⟩ := Option.map_eq_some_iff.mp h
    rw [← heq, (Fifo.push_eq_some.mp hpush).2]
    exact ⟨makeHash_lt _ _ _ _ hnumbers, rfl⟩
  · exact absurd h (by simp)

/-- Above depth 4 a parser goes on with its batch. -/
theorem parserStep_deep {q : Nat} {pipeDepth : Int32} (hdeep : pipeDepth > 4)
    (h : parserStep numbers s q pipeDepth = some s') :
    (∀ packets, s.parserPc q = .taken packets → s'.parserPc q = .waitFlows packets)
      ∧ ∀ packets flows, s.parserPc q = .built packets flows → s'.parserPc q = .forward flows := by
  have h4 : (4 : Int) < pipeDepth.toInt := Int32.lt_iff_toInt_lt.mp hdeep
  have h2 : pipeDepth > 2 := by
    apply Int32.lt_iff_toInt_lt.mpr
    show (2 : Int) < pipeDepth.toInt
    omega
  have h3 : pipeDepth > 3 := by
    apply Int32.lt_iff_toInt_lt.mpr
    show (3 : Int) < pipeDepth.toInt
    omega
  constructor
  · intro packets hpc
    unfold parserStep at h
    simp only [hpc, if_pos h2, Option.some.injEq] at h
    rw [← h]
    exact Function.update_self ..
  · intro packets flows hpc
    unfold parserStep at h
    simp only [hpc, if_pos h3, Option.some.injEq] at h
    rw [← h]
    exact Function.update_self ..

/-- Above depth 4 a manager goes on with its flow. -/
theorem managerStep_deep {m : Nat} {pipeDepth : Int32} {now : UInt64} (hdeep : pipeDepth > 4)
    {flow : FlowItem} (hpc : s.managerPc m = .taken flow)
    (h : managerStep cfg s m pipeDepth now = some s') : s'.managerPc m = .inserting flow := by
  unfold managerStep at h
  simp only [hpc, if_pos hdeep, Option.some.injEq] at h
  rw [← h]
  exact Function.update_self ..

/-- A manager that gets through `hash_add_item` leaves the table of that call
    and its event. -/
theorem managerStep_inserting {m : Nat} {pipeDepth : Int32} {now : UInt64} {flow : FlowItem}
    (hpc : s.managerPc m = .inserting flow)
    (h : managerStep cfg s m pipeDepth now = some s') :
    ∃ table outcome,
      hashAddItem cfg (s.table m) (bucketIndex flow.key (s.table m).ht.size) flow now
          = some (table, outcome)
        ∧ managerEvent cfg s m now = .inserted m flow outcome now
        ∧ s' = { s with table := Function.update s.table m table
                        managerPc := Function.update s.managerPc m (.returnPacket flow) } := by
  unfold managerStep at h
  simp only [hpc] at h
  obtain ⟨⟨table, outcome⟩, hadd, heq⟩ := Option.map_eq_some_iff.mp h
  refine ⟨table, outcome, hadd, ?_, heq.symm⟩
  simp only [managerEvent, hpc, hadd]

/-! ## §2. Flows stay on their way. -/

theorem Routed.parserStep (hr : Routed pNums numbers s) {q : Nat} (hq : q < pNums)
    {pipeDepth : Int32} (h : parserStep numbers s q pipeDepth = some s') :
    Routed pNums numbers s' := by
  have hmade := hr.parserPc q hq
  cases parserStep_cases h with
  | took hpc _ _ => exact { hr with parserPc := forall_update hr.parserPc each_nil }
  | wanted hpc => exact { hr with parserPc := forall_update hr.parserPc each_nil }
  | skipped hpc => exact { hr with parserPc := forall_update hr.parserPc each_nil }
  | @made packets flows pool hpc _ _ =>
      exact { hr with parserPc := forall_update hr.parserPc (made_zipWith flows packets) }
  | forwarding hpc =>
      rw [hpc] at hmade
      exact { hr with parserPc := forall_update hr.parserPc hmade }
  | dropping hpc =>
      rw [hpc] at hmade
      exact { hr with parserPc := forall_update hr.parserPc hmade }
  | @forwarded index flow rest hpc _ =>
      -- the queue it joined is the one its key selects
      obtain ⟨hlt, heq⟩ := parserStep_forward hpc h
      rw [hpc] at hmade
      have hflow : MadeFor numbers (hashIndex flow.key numbers).toNat flow :=
        ⟨hmade flow List.mem_cons_self, rfl⟩
      rw [heq]
      exact { hr with
        parserPc := forall_update hr.parserPc (fun x hx => hmade x (List.mem_cons_of_mem _ hx))
        managerQueue := forall_update hr.managerQueue
          ((hr.managerQueue _ hlt).append (each_singleton hflow)) }
  | finished hpc => exact { hr with parserPc := forall_update hr.parserPc each_nil }
  | returnedBatch hpc =>
      rw [hpc] at hmade
      exact { hr with parserPc := forall_update hr.parserPc hmade }
  | returnedFlows hpc => exact { hr with parserPc := forall_update hr.parserPc each_nil }
  | returnedPackets hpc => exact { hr with parserPc := forall_update hr.parserPc each_nil }

theorem Routed.managerStep (hr : Routed pNums numbers s) {m : Nat} (hm : m < numbers.toNat)
    (h : ManagerStep s m s') : Routed pNums numbers s' := by
  have hheld := hr.managerPc m hm
  cases h with
  | @took flow queue hpc hqueue =>
      have hall := hr.managerQueue m hm
      rw [hqueue] at hall
      exact { hr with
        managerQueue := forall_update hr.managerQueue
          (fun x hx => hall x (List.mem_cons_of_mem _ hx))
        managerPc := forall_update hr.managerPc (each_singleton (hall flow List.mem_cons_self)) }
  | deep hpc =>
      rw [hpc] at hheld
      exact { hr with managerPc := forall_update hr.managerPc hheld }
  | shallow hpc =>
      rw [hpc] at hheld
      exact { hr with managerPc := forall_update hr.managerPc hheld }
  | inserted hpc =>
      rw [hpc] at hheld
      exact { hr with managerPc := forall_update hr.managerPc hheld }
  | returnedPacket hpc =>
      rw [hpc] at hheld
      exact { hr with managerPc := forall_update hr.managerPc hheld }
  | returnedFlow hpc => exact { hr with managerPc := forall_update hr.managerPc each_nil }

/-- **Every step keeps the routes.** -/
theorem Routed.step (hr : Routed pNums numbers s) {call : PipelineCall} {e : PipelineEvent}
    (h : ObservedStep mode cfg gNums pNums numbers s call e s') : Routed pNums numbers s' := by
  cases h with
  | generator _ hstep =>
      cases generatorStep_cases hstep <;> exact { hr with }
  | parser hq hstep => exact hr.parserStep hq hstep
  | manager hm hstep => exact hr.managerStep hm (managerStep_cases hstep)
  | cleaned _ _ _ => exact { hr with }

/-! ## §3. The line of one key and one generator. -/

/-- The packets generator `i` emits with key `k`. -/
def mine (i : Nat) (k : Key) (packets : List PacketT) : List PacketT :=
  packets.filter (fun packet => packet.addr.1 == i && packetKey packet == k)

/-- What an event adds to the emissions of generator `i` with key `k`. -/
def PipelineEvent.emits (i : Nat) (k : Key) : PipelineEvent → List PacketT
  | .sent j _ packet => if j = i ∧ packetKey packet = k then [packet] else []
  | _ => []

/-- The flow an event inserted, if its packet is generator `i`'s and its key `k`. -/
def PipelineEvent.reaches (i : Nat) (k : Key) : PipelineEvent → List PacketT
  | .inserted _ flow _ _ => if flow.packet.addr.1 = i ∧ flow.key = k then [flow.packet] else []
  | _ => []

/-- The emission sequence of generator `i` and key `k`. -/
def emitted (i : Nat) (k : Key) (es : List PipelineEvent) : List PacketT :=
  es.flatMap (PipelineEvent.emits i k)

/-- The packets of generator `i` and key `k` in the calls of `hash_add_item`. -/
def reached (i : Nat) (k : Key) (es : List PipelineEvent) : List PacketT :=
  es.flatMap (PipelineEvent.reaches i k)

theorem emitted_snoc (i : Nat) (k : Key) (es : List PipelineEvent) (e : PipelineEvent) :
    emitted i k (es ++ [e]) = emitted i k es ++ e.emits i k := by
  unfold emitted
  rw [List.flatMap_append, List.flatMap_singleton]

theorem reached_snoc (i : Nat) (k : Key) (es : List PipelineEvent) (e : PipelineEvent) :
    reached i k (es ++ [e]) = reached i k es ++ e.reaches i k := by
  unfold reached
  rw [List.flatMap_append, List.flatMap_singleton]

/-- The packets a parser is still to hand to a manager. -/
def ParserPc.pending : ParserPc → List PacketT
  | .taken packets | .waitFlows packets | .built packets _ => packets
  | .forward flows => flows.map FlowItem.packet
  | .idle | .returnBatch _ _ | .returnFlows _ | .returnPackets _ => []

/-- The packet a manager is still to insert. -/
def ManagerPc.pending : ManagerPc → List PacketT
  | .taken flow | .inserting flow => [flow.packet]
  | .idle | .returnPacket _ | .returnFlow _ => []

/-- What stands between generator `i` and manager `m`, the next one first. -/
def Stages.between (s : Stages) (i m : Nat) : List PacketT :=
  (s.managerPc m).pending ++ (s.managerQueue m).map FlowItem.packet
    ++ (s.parserPc i).pending ++ s.parserQueue i

/-- **The line** of generator `i` and key `k`. -/
def Stages.line (s : Stages) (i : Nat) (k : Key) (numbers : UInt32) : List PacketT :=
  mine i k (s.between i (hashIndex k numbers).toNat)

theorem mine_append (i : Nat) (k : Key) (l l' : List PacketT) :
    mine i k (l ++ l') = mine i k l ++ mine i k l' := List.filter_append _ _

theorem mine_eq_nil {i : Nat} {k : Key} {l : List PacketT}
    (h : ∀ packet ∈ l, packet.addr.1 = i → packetKey packet ≠ k) : mine i k l = [] := by
  unfold mine
  rw [List.filter_eq_nil_iff]
  intro packet hpacket hmine
  obtain ⟨hi, hk⟩ := (Bool.and_eq_true _ _).mp hmine
  exact h packet hpacket (eq_of_beq hi) (eq_of_beq hk)

theorem mine_singleton (i : Nat) (k : Key) (packet : PacketT) :
    mine i k [packet] = if packet.addr.1 = i ∧ packetKey packet = k then [packet] else [] := by
  split
  · rename_i h
    refine List.filter_eq_self.mpr ?_
    intro p hp
    rw [List.mem_singleton.mp hp]
    exact (Bool.and_eq_true _ _).mpr ⟨beq_iff_eq.mpr h.1, beq_iff_eq.mpr h.2⟩
  · rename_i h
    refine mine_eq_nil ?_
    intro p hp hi hk
    rw [List.mem_singleton.mp hp] at hi hk
    exact h ⟨hi, hk⟩

/-- An emission of generator `i` is one of its packets. -/
theorem emits_sent {j q : Nat} {packet : PacketT} (h : packet.addr.1 = j) (i : Nat) (k : Key) :
    (PipelineEvent.sent j q packet).emits i k = mine i k [packet] := by
  rw [mine_singleton, h]
  rfl

/-- An insertion of a flow the parser made is one of its packet. -/
theorem reaches_inserted {m : Nat} {flow : FlowItem} (h : Made flow) (outcome : Outcome)
    (now : UInt64) (i : Nat) (k : Key) :
    (PipelineEvent.inserted m flow outcome now).reaches i k = mine i k [flow.packet] := by
  rw [mine_singleton, ← h.key_eq]
  rfl

/-! ## §4. What one step does to the line. -/

/-- A step of a line: what it takes off the front and what it puts to the end
    is seen, unless packets were sent back early. -/
def LineStep (deep : Prop) (taken before after put : List PacketT) : Prop :=
  taken ++ after = before ++ put
    ∨ (¬ deep ∧ taken = [] ∧ put = [] ∧ after.Sublist before)

theorem LineStep.same (deep : Prop) {before after : List PacketT} (h : after = before) :
    LineStep deep [] before after [] := by
  refine Or.inl ?_
  rw [List.nil_append, List.append_nil, h]

theorem LineStep.dropped {deep : Prop} (hdeep : ¬ deep) {before after : List PacketT}
    (h : after.Sublist before) : LineStep deep [] before after [] :=
  Or.inr ⟨hdeep, rfl, rfl, h⟩

/-- A generator with a lane of one parser is the only one to feed it. -/
theorem owner_unique {i q : Nat} (hone : pNums ≤ i + gNums) (hq : q < pNums)
    (h : q % gNums = i) : q = i := by
  by_cases hlt : q < gNums
  · rw [← h, Nat.mod_eq_of_lt hlt]
  · -- a second place of the lane would be behind `pNums`
    have hle := Nat.mod_le (q - gNums) gNums
    rw [Nat.mod_eq_sub_mod (by omega)] at h
    omega

/-- **A generator's step** puts what it emits to the end of its line. -/
theorem line_generatorStep {i j : Nat} (k : Key) (hs : Owned mode gNums pNums numbers s)
    (hone : pNums ≤ i + gNums) (hj : j < gNums) (h : GeneratorStep mode gNums pNums s j s') :
    s'.line i k numbers = s.line i k numbers ++ (generatorEvent s j).emits i k := by
  have hown := hs.generatorPc j hj
  cases h with
  | took hpc _ _ | chose hpc | kept hpc | returned hpc =>
      simp only [generatorEvent, hpc, PipelineEvent.emits, List.append_nil]
      rfl
  | @sent parser packet hpc =>
      rw [hpc] at hown
      obtain ⟨⟨haddr, _⟩, hlt, hfeeds⟩ := hown
      have hevent : generatorEvent s j = .sent j parser packet := by
        unfold generatorEvent
        rw [hpc]
      rw [hevent, emits_sent haddr]
      by_cases hparser : parser = i
      · -- its own parser: the packet joins the end of the line
        rw [hparser]
        unfold Stages.line Stages.between
        simp only [Function.update_self]
        rw [← List.append_assoc, mine_append]
      · -- another parser, so another generator
        have hji : j ≠ i := by
          intro hji
          exact hparser (owner_unique hone hlt (hfeeds.trans hji))
        have hnil : mine i k [packet] = [] := by
          refine mine_eq_nil ?_
          intro p hp hi
          rw [List.mem_singleton.mp hp, haddr] at hi
          exact absurd hi hji
        rw [hnil, List.append_nil]
        unfold Stages.line Stages.between
        simp only [Function.update_of_ne (Ne.symm hparser)]

/-- Forwarding a flow moves its packet within the line, if it is in it. -/
theorem line_forwarded {i q : Nat} (k : Key) (hs : Owned mode gNums pNums numbers s)
    (hr : Routed pNums numbers s) (hone : pNums ≤ i + gNums) (hq : q < pNums) {flow : FlowItem}
    {rest : List FlowItem} (hpc : s.parserPc q = .forward (flow :: rest)) :
    Stages.line
        { s with
          managerQueue := Function.update s.managerQueue (hashIndex flow.key numbers).toNat
            (s.managerQueue (hashIndex flow.key numbers).toNat ++ [flow])
          parserPc := Function.update s.parserPc q (.forward rest) } i k numbers
      = s.line i k numbers := by
  have hown := hs.parserPc q hq
  have hmade := hr.parserPc q hq
  rw [hpc] at hown hmade
  have hkey : flow.key = packetKey flow.packet := (hmade flow List.mem_cons_self).key_eq
  have howner : flow.packet.addr.1 = q % gNums :=
    (hown.1 flow.packet List.mem_cons_self).1
  unfold Stages.line Stages.between
  by_cases hmine : mine i k [flow.packet] = []
  · -- not in the line: neither end of the move is seen
    have hqueue : mine i k ((Function.update s.managerQueue (hashIndex flow.key numbers).toNat
          (s.managerQueue (hashIndex flow.key numbers).toNat ++ [flow])
          (hashIndex k numbers).toNat).map FlowItem.packet)
        = mine i k ((s.managerQueue (hashIndex k numbers).toNat).map FlowItem.packet) := by
      by_cases hm : (hashIndex k numbers).toNat = (hashIndex flow.key numbers).toNat
      · rw [hm, Function.update_self, List.map_append, mine_append, List.map_singleton, hmine,
          List.append_nil]
      · rw [Function.update_of_ne hm]
    have hpending : mine i k (Function.update s.parserPc q (.forward rest) i).pending
        = mine i k (s.parserPc i).pending := by
      by_cases hi : i = q
      · rw [hi, Function.update_self, hpc]
        show mine q k (rest.map FlowItem.packet)
          = mine q k ([flow.packet] ++ rest.map FlowItem.packet)
        rw [hi] at hmine
        rw [mine_append, hmine, List.nil_append]
      · rw [Function.update_of_ne hi]
    simp only [mine_append, hqueue, hpending]
  · -- in the line: this is parser `i`, and the queue is that of the key's manager
    obtain ⟨hi, hk⟩ : flow.packet.addr.1 = i ∧ packetKey flow.packet = k := by
      by_contra hno
      exact hmine (by rw [mine_singleton, if_neg hno])
    have hqi : q = i := owner_unique hone hq (howner.symm.trans hi)
    rw [← hqi, ← hk, ← hkey]
    simp only [Function.update_self, hpc]
    show mine q flow.key (_ ++ (s.managerQueue _ ++ [flow]).map FlowItem.packet
        ++ rest.map FlowItem.packet ++ _)
      = mine q flow.key (_ ++ _ ++ ([flow.packet] ++ rest.map FlowItem.packet) ++ _)
    simp only [List.map_append, List.map_singleton, List.append_assoc]

/-- **A parser's step** moves its packets on, or drops its batch. -/
theorem line_parserStep {i q : Nat} (k : Key) (hs : Owned mode gNums pNums numbers s)
    (hr : Routed pNums numbers s) (hone : pNums ≤ i + gNums) (hq : q < pNums) {pipeDepth : Int32}
    (h : parserStep numbers s q pipeDepth = some s') :
    LineStep (pipeDepth > 4) [] (s.line i k numbers) (s'.line i k numbers) [] := by
  have hown := hs.parserPc q hq
  by_cases hqi : i = q
  swap
  · -- another parser's hands and queue are not in the line
    refine LineStep.same _ ?_
    cases parserStep_cases h with
    | forwarded hpc _ =>
        obtain ⟨_, heq⟩ := parserStep_forward hpc h
        rw [heq]
        exact line_forwarded k hs hr hone hq hpc
    | _ => simp only [Stages.line, Stages.between, Function.update_of_ne hqi]
  subst hqi
  cases parserStep_cases h with
  | took hpc hqueue _ =>
      refine LineStep.same _ ?_
      simp only [Stages.line, Stages.between, Function.update_self, hpc, hqueue,
        ParserPc.pending, List.append_assoc, List.nil_append]
  | wanted hpc | finished hpc | returnedBatch hpc | returnedFlows hpc | returnedPackets hpc =>
      refine LineStep.same _ ?_
      simp only [Stages.line, Stages.between, Function.update_self, hpc, ParserPc.pending,
        List.map_nil]
  | made hpc _ _ =>
      refine LineStep.same _ ?_
      simp only [Stages.line, Stages.between, Function.update_self, hpc, ParserPc.pending]
  | forwarding hpc =>
      -- the packets of the flows are those of the batch, in its order
      rw [hpc] at hown
      refine LineStep.same _ ?_
      simp only [Stages.line, Stages.between, Function.update_self, hpc, ParserPc.pending,
        hown.2.2.2]
  | forwarded hpc _ =>
      obtain ⟨_, heq⟩ := parserStep_forward hpc h
      refine LineStep.same _ ?_
      rw [heq]
      exact line_forwarded k hs hr hone hq hpc
  | @skipped packets hpc =>
      -- the batch is dropped, which a depth above 4 rules out
      refine LineStep.dropped ?_ ?_
      · intro hdeep
        have hnext := (parserStep_deep hdeep h).1 packets hpc
        simp only [Function.update_self] at hnext
        exact absurd hnext (by simp)
      · simp only [Stages.line, Stages.between, Function.update_self, hpc, ParserPc.pending,
          List.append_nil]
        exact ((List.sublist_append_left _ packets).append_right _).filter _
  | @dropping packets flows hpc =>
      refine LineStep.dropped ?_ ?_
      · intro hdeep
        have hnext := (parserStep_deep hdeep h).2 packets flows hpc
        simp only [Function.update_self] at hnext
        exact absurd hnext (by simp)
      · simp only [Stages.line, Stages.between, Function.update_self, hpc, ParserPc.pending,
          List.append_nil]
        exact ((List.sublist_append_left _ packets).append_right _).filter _

/-- **A manager's step** takes what it inserts off the front, or drops it. -/
theorem line_managerStep {i m : Nat} (k : Key) (hr : Routed pNums numbers s) (hm : m < numbers.toNat)
    {pipeDepth : Int32} {now : UInt64} (h : managerStep cfg s m pipeDepth now = some s') :
    LineStep (pipeDepth > 4) ((managerEvent cfg s m now).reaches i k) (s.line i k numbers)
      (s'.line i k numbers) [] := by
  have hheld := hr.managerPc m hm
  have hquiet : (∀ flow, s.managerPc m ≠ .inserting flow) →
      (managerEvent cfg s m now).reaches i k = [] := by
    intro hpc
    unfold managerEvent
    split
    · rename_i flow hflow
      exact absurd hflow (hpc flow)
    · rfl
  by_cases hmk : (hashIndex k numbers).toNat = m
  swap
  · -- another manager holds no flow of the key
    have hreaches : (managerEvent cfg s m now).reaches i k = [] := by
      unfold managerEvent
      split
      · rename_i flow hpc
        rw [hpc] at hheld
        obtain ⟨_, hindex⟩ := hheld flow List.mem_cons_self
        split
        · refine if_neg ?_
          rintro ⟨_, hk⟩
          rw [hk] at hindex
          exact hmk hindex
        · rfl
      · rfl
    rw [hreaches]
    refine LineStep.same _ ?_
    cases managerStep_cases h <;> simp only [Stages.line, Stages.between, Function.update_of_ne hmk]
  cases hstep : managerStep_cases h with
  | took hpc hqueue =>
      rw [hquiet (by rw [hpc]; simp)]
      refine LineStep.same _ ?_
      simp only [Stages.line, Stages.between, hmk, Function.update_self, hpc, hqueue,
        ManagerPc.pending, List.map_cons, List.nil_append, List.singleton_append]
  | deep hpc =>
      rw [hquiet (by rw [hpc]; simp)]
      refine LineStep.same _ ?_
      simp only [Stages.line, Stages.between, hmk, Function.update_self, hpc, ManagerPc.pending]
  | returnedPacket hpc | returnedFlow hpc =>
      rw [hquiet (by rw [hpc]; simp)]
      refine LineStep.same _ ?_
      simp only [Stages.line, Stages.between, hmk, Function.update_self, hpc, ManagerPc.pending]
  | @shallow flow hpc =>
      -- the flow is dropped, which a depth above 4 rules out
      rw [hquiet (by rw [hpc]; simp)]
      refine LineStep.dropped ?_ ?_
      · intro hdeep
        have hnext := managerStep_deep hdeep hpc h
        simp only [Function.update_self] at hnext
        exact absurd hnext (by simp)
      · simp only [Stages.line, Stages.between, hmk, Function.update_self, hpc,
          ManagerPc.pending, List.nil_append]
        exact (((List.sublist_append_right [flow.packet] _).append_right _).append_right _).filter _
  | @inserted flow table hpc =>
      -- the flow in hand is the front of the line
      obtain ⟨_, outcome, _, hevent, _⟩ := managerStep_inserting hpc h
      rw [hpc] at hheld
      rw [hevent, reaches_inserted (hheld flow List.mem_cons_self).1]
      refine Or.inl ?_
      simp only [Stages.line, Stages.between, hmk, Function.update_self, hpc, ManagerPc.pending,
        List.nil_append, List.append_nil, mine_append, List.append_assoc]

/-! ## §5. The line along a run. -/

/-- The read of `pipe_depth` in the call, if it makes one, returns more than 4. -/
def PipelineCall.AboveFour : PipelineCall → Prop
  | .generator _ pipeDepth _ | .parser _ pipeDepth | .manager _ pipeDepth _ => pipeDepth > 4
  | .clean _ _ _ _ => True

@[simp] theorem parserEvent_emits (i : Nat) (k : Key) (s : Stages) (q : Nat) :
    (parserEvent s q).emits i k = [] := by
  unfold parserEvent
  split
  · split <;> rfl
  · rfl

@[simp] theorem parserEvent_reaches (i : Nat) (k : Key) (s : Stages) (q : Nat) :
    (parserEvent s q).reaches i k = [] := by
  unfold parserEvent
  split
  · split <;> rfl
  · rfl

@[simp] theorem managerEvent_emits (i : Nat) (k : Key) (cfg : Config) (s : Stages) (m : Nat)
    (now : UInt64) : (managerEvent cfg s m now).emits i k = [] := by
  unfold managerEvent
  split
  · split <;> rfl
  · rfl

@[simp] theorem generatorEvent_reaches (i : Nat) (k : Key) (s : Stages) (j : Nat) :
    (generatorEvent s j).reaches i k = [] := by
  unfold generatorEvent
  split <;> rfl

/-- **One step of the pipeline is one step of the line.** -/
theorem line_moves {i : Nat} (k : Key) (hs : Owned mode gNums pNums numbers s)
    (hr : Routed pNums numbers s) (hone : pNums ≤ i + gNums) {call : PipelineCall}
    {e : PipelineEvent} (h : ObservedStep mode cfg gNums pNums numbers s call e s') :
    LineStep call.AboveFour (e.reaches i k) (s.line i k numbers) (s'.line i k numbers)
      (e.emits i k) := by
  cases h with
  | generator hj hstep =>
      rw [generatorEvent_reaches]
      exact Or.inl (line_generatorStep k hs hone hj (generatorStep_cases hstep))
  | parser hq hstep =>
      rw [parserEvent_reaches, parserEvent_emits]
      exact line_parserStep k hs hr hone hq hstep
  | manager hm hstep =>
      rw [managerEvent_emits]
      exact line_managerStep k hr hm hstep
  | cleaned _ _ _ => exact LineStep.same _ rfl

/-- **Calls and line, against the emissions**: in their order, and all of them
    while no packet is sent back early. -/
structure Ordered (i : Nat) (k : Key) (numbers : UInt32) (calls : List PipelineCall)
    (es : List PipelineEvent) (s : Stages) : Prop where
  sublist : (reached i k es ++ s.line i k numbers).Sublist (emitted i k es)
  exact : (∀ call ∈ calls, call.AboveFour) →
    reached i k es ++ s.line i k numbers = emitted i k es

theorem Ordered.step {i : Nat} {k : Key} {calls : List PipelineCall} {es : List PipelineEvent}
    (ho : Ordered i k numbers calls es s) {call : PipelineCall} {e : PipelineEvent}
    (h : LineStep call.AboveFour (e.reaches i k) (s.line i k numbers) (s'.line i k numbers)
      (e.emits i k)) : Ordered i k numbers (calls ++ [call]) (es ++ [e]) s' := by
  have hbefore : (∀ c ∈ calls ++ [call], c.AboveFour) → ∀ c ∈ calls, c.AboveFour :=
    fun hall c hc => hall c (List.mem_append_left _ hc)
  rcases h with hmove | ⟨hshallow, htaken, hput, hsub⟩
  · have hshift : reached i k (es ++ [e]) ++ s'.line i k numbers
        = (reached i k es ++ s.line i k numbers) ++ e.emits i k := by
      rw [reached_snoc, List.append_assoc, hmove, List.append_assoc]
    refine ⟨?_, fun hall => ?_⟩
    · rw [hshift, emitted_snoc]
      exact ho.sublist.append_right _
    · rw [hshift, emitted_snoc, ho.exact (hbefore hall)]
  · refine ⟨?_, fun hall => ?_⟩
    · rw [reached_snoc, emitted_snoc, htaken, hput, List.append_nil, List.append_nil]
      exact (hsub.append_left _).trans ho.sublist
    · exact absurd (hall call (List.mem_append_right _ List.mem_cons_self)) hshallow

/-- A flow reached the manager its key selects, as the parser made it. -/
theorem Routed.inserted (hr : Routed pNums numbers s) {m : Nat} (hm : m < numbers.toNat)
    {now clock : UInt64} {m' : Nat} {flow : FlowItem} {outcome : Outcome}
    (hevent : PipelineEvent.inserted m' flow outcome clock = managerEvent cfg s m now) :
    m' < numbers.toNat ∧ MadeFor numbers m' flow := by
  have hheld := hr.managerPc m hm
  unfold managerEvent at hevent
  split at hevent
  · rename_i held hpc
    rw [hpc] at hheld
    split at hevent
    · simp only [PipelineEvent.inserted.injEq] at hevent
      obtain ⟨rfl, rfl, _, _⟩ := hevent
      exact ⟨hm, hheld flow List.mem_cons_self⟩
    · exact absurd hevent (by simp)
  · exact absurd hevent (by simp)

end Steps

end FreePacket.Pipeline
