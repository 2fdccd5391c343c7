/-
  FreePacket.Pipeline.Delivery
  ────────────────────────────
  **EVERY PACKET IS DELIVERED ONCE**, however many generators, parsers and
  managers there are.

  Where several parsers serve one generator, packets of a key may overtake
  each other; none is lost, doubled or made up.  The packets handed to
  `hash_add_item`, with those still under way, are the packets the generators
  enqueued, up to order; a step that sends items back early, at a `pipe_depth`
  of 4 or less, is the only one to take packets off the way.

  Main results:
    * `inFlight_step` — what one step does to the packets under way.
    * `pipeline_deliversOnce` — sent, handed over and under way, in every run.
-/
import FreePacket.Pipeline.Arrival
import FreePacket.Pipeline.Drain

namespace FreePacket.Pipeline

open FreePacket.Lib FreePacket.Packet
open FreePacket.Session (Manager Config Outcome queueCapacity)

/-! ## §1. Sent, handed over, under way. -/

/-- The packet a generator's event put on its way. -/
def PipelineEvent.sentPacket : PipelineEvent → List PacketT
  | .sent _ _ packet => [packet]
  | _ => []

/-- The packet a manager's event brought to `hash_add_item`. -/
def PipelineEvent.insertedPacket : PipelineEvent → List PacketT
  | .inserted _ flow _ _ => [flow.packet]
  | _ => []

/-- The same, of manager `m` alone. -/
def PipelineEvent.insertedPacketAt (m : Nat) : PipelineEvent → List PacketT
  | .inserted j flow _ _ => if j = m then [flow.packet] else []
  | _ => []

/-- The packets the generators enqueued. -/
def sentPackets (es : List PipelineEvent) : List PacketT := es.flatMap PipelineEvent.sentPacket

/-- The packets the managers handed to `hash_add_item`. -/
def insertedPackets (es : List PipelineEvent) : List PacketT :=
  es.flatMap PipelineEvent.insertedPacket

/-- The packets manager `m` handed to `hash_add_item`. -/
def insertedPacketsAt (m : Nat) (es : List PipelineEvent) : List PacketT :=
  es.flatMap (PipelineEvent.insertedPacketAt m)

/-- The packets left in the parsers' queues. -/
def Stages.waiting (s : Stages) (pNums : Nat) : List PacketT :=
  (List.range pNums).flatMap s.parserQueue

/-- **The packets under way**: enqueued, and neither handed to `hash_add_item`
    nor to be sent back. -/
def Stages.inFlight (s : Stages) (pNums mNums : Nat) : List PacketT :=
  s.waiting pNums ++ (List.range pNums).flatMap (fun q => (s.parserPc q).pending)
    ++ (List.range mNums).flatMap (fun m => (s.managerQueue m).map FlowItem.packet)
    ++ (List.range mNums).flatMap (fun m => (s.managerPc m).pending)

/-- The packet's key is hashed to manager `m`. -/
def headsFor (numbers : UInt32) (m : Nat) (packet : PacketT) : Bool :=
  (hashIndex (packetKey packet) numbers).toNat == m

theorem sentPackets_snoc (es : List PipelineEvent) (e : PipelineEvent) :
    sentPackets (es ++ [e]) = sentPackets es ++ e.sentPacket := by
  unfold sentPackets
  rw [List.flatMap_append, List.flatMap_singleton]

theorem insertedPackets_snoc (es : List PipelineEvent) (e : PipelineEvent) :
    insertedPackets (es ++ [e]) = insertedPackets es ++ e.insertedPacket := by
  unfold insertedPackets
  rw [List.flatMap_append, List.flatMap_singleton]

theorem inFlight_countP (s : Stages) (pNums mNums : Nat) (p : PacketT → Bool) :
    (s.inFlight pNums mNums).countP p
      = total pNums s.parserQueue p + total pNums (fun q => (s.parserPc q).pending) p
        + total mNums (fun m => (s.managerQueue m).map FlowItem.packet) p
        + total mNums (fun m => (s.managerPc m).pending) p := by
  unfold Stages.inFlight Stages.waiting
  simp only [List.countP_append, countP_flatMap_range]

@[simp] theorem parserEvent_sentPacket (s : Stages) (q : Nat) :
    (parserEvent s q).sentPacket = [] := by
  unfold parserEvent
  split
  · split <;> rfl
  · rfl

@[simp] theorem parserEvent_insertedPacket (s : Stages) (q : Nat) :
    (parserEvent s q).insertedPacket = [] := by
  unfold parserEvent
  split
  · split <;> rfl
  · rfl

@[simp] theorem generatorEvent_insertedPacket (s : Stages) (i : Nat) :
    (generatorEvent s i).insertedPacket = [] := by
  unfold generatorEvent
  split <;> rfl

@[simp] theorem managerEvent_sentPacket (cfg : Config) (s : Stages) (m : Nat) (now : UInt64) :
    (managerEvent cfg s m now).sentPacket = [] := by
  unfold managerEvent
  split
  · split <;> rfl
  · rfl

/-- A manager that is not about to insert is not seen. -/
theorem managerEvent_quiet {cfg : Config} {s : Stages} {m : Nat} {now : UInt64}
    (h : ∀ flow, s.managerPc m ≠ .inserting flow) : managerEvent cfg s m now = .quiet := by
  unfold managerEvent
  split
  · rename_i flow hflow
    exact absurd hflow (h flow)
  · rfl

/-! ## §2. What one step does to the packets under way. -/

/-- **A step of the way**: what comes out of it and what is left was there or
    went in; and under the condition nothing is missing. -/
structure Carries (deep : Prop) (taken before put after : Nat) : Prop where
  le : taken + after ≤ before + put
  eq : deep → taken + after = before + put

theorem Carries.same {deep : Prop} {taken before put after : Nat}
    (h : taken + after = before + put) : Carries deep taken before put after :=
  ⟨le_of_eq h, fun _ => h⟩

theorem Carries.dropped {deep : Prop} (hdeep : ¬ deep) {before after : Nat}
    (h : after ≤ before) : Carries deep 0 before 0 after :=
  ⟨by omega, fun hd => absurd hd hdeep⟩

section Steps

variable {mode : Mode} {cfg : Config} {gNums pNums : Nat} {numbers : UInt32} {s s' : Stages}

/-- **A generator** puts the packet it enqueues on the way. -/
theorem inFlight_generatorStep (hs : Owned mode gNums pNums numbers s) {i : Nat} (hi : i < gNums)
    (h : GeneratorStep mode gNums pNums s i s') (p : PacketT → Bool) :
    (s'.inFlight pNums numbers.toNat).countP p
      = (s.inFlight pNums numbers.toNat).countP p + (generatorEvent s i).sentPacket.countP p := by
  have hown := hs.generatorPc i hi
  simp only [inFlight_countP]
  cases h with
  | took hpc _ _ | chose hpc | kept hpc | returned hpc =>
      simp only [generatorEvent, hpc, PipelineEvent.sentPacket, List.countP_nil, Nat.add_zero]
  | @sent parser packet hpc =>
      rw [hpc] at hown
      have h1 := total_update hown.2.1 s.parserQueue (s.parserQueue parser ++ [packet]) p
      simp only [List.countP_append] at h1
      simp only [generatorEvent, hpc, PipelineEvent.sentPacket]
      omega

/-- **A parser** moves packets on, or takes its batch off the way. -/
theorem inFlight_parserStep (hs : Owned mode gNums pNums numbers s) {q : Nat} (hq : q < pNums)
    {pipeDepth : Int32} (h : parserStep numbers s q pipeDepth = some s') (p : PacketT → Bool) :
    Carries (pipeDepth > 4) 0 ((s.inFlight pNums numbers.toNat).countP p) 0
      ((s'.inFlight pNums numbers.toNat).countP p) := by
  have hown := hs.parserPc q hq
  have hhand := fun (pc : ParserPc) (old new : List PacketT)
      (hold : (s.parserPc q).pending = old) (hnew : pc.pending = new) =>
    total_map_replace hq ParserPc.pending hold hnew p
  simp only [inFlight_countP]
  cases parserStep_cases h with
  | @took packets queue hpc hqueue _ =>
      have h1 := total_replace hq hqueue queue p
      have h2 := hhand (.taken packets) [] packets (by rw [hpc]; rfl) rfl
      simp only [List.countP_append, List.countP_nil] at h1 h2
      refine Carries.same ?_
      dsimp only
      omega
  | @wanted packets hpc =>
      have h1 := hhand (.waitFlows packets) packets packets (by rw [hpc]; rfl) rfl
      refine Carries.same ?_
      dsimp only
      omega
  | @made packets flows pool hpc _ _ =>
      have h1 := hhand (.built packets (List.zipWith makeFlowItemTcp flows packets))
        packets packets (by rw [hpc]; rfl) rfl
      refine Carries.same ?_
      dsimp only
      omega
  | @forwarding packets flows hpc =>
      -- the packets of the flows are those of the batch
      rw [hpc] at hown
      have h1 := hhand (.forward flows) packets packets (by rw [hpc]; rfl) hown.2.2.2
      refine Carries.same ?_
      dsimp only
      omega
  | @forwarded index flow rest hpc hindex =>
      have h1 := hhand (.forward rest) (flow.packet :: rest.map FlowItem.packet)
        (rest.map FlowItem.packet) (by rw [hpc]; rfl) rfl
      have h2 := total_map_replace hindex (List.map FlowItem.packet) (F := s.managerQueue)
        (v := s.managerQueue index ++ [flow]) rfl List.map_append p
      simp only [List.countP_append, List.countP_cons, List.countP_nil, List.map_cons,
        List.map_nil] at h1 h2
      refine Carries.same ?_
      dsimp only
      omega
  | finished hpc =>
      have h1 := hhand .idle [] [] (by rw [hpc]; rfl) rfl
      refine Carries.same ?_
      dsimp only
      omega
  | @returnedBatch first rest flows hpc =>
      have h1 := hhand (.returnFlows flows) [] [] (by rw [hpc]; rfl) rfl
      refine Carries.same ?_
      dsimp only
      omega
  | @returnedFlows flows hpc =>
      have h1 := hhand .idle [] [] (by rw [hpc]; rfl) rfl
      refine Carries.same ?_
      dsimp only
      omega
  | @returnedPackets first rest hpc =>
      have h1 := hhand .idle [] [] (by rw [hpc]; rfl) rfl
      refine Carries.same ?_
      dsimp only
      omega
  | @skipped packets hpc =>
      -- the batch is sent back, which a depth above 4 rules out
      have h1 := hhand (.returnPackets packets) packets [] (by rw [hpc]; rfl) rfl
      rw [List.countP_nil] at h1
      refine Carries.dropped ?_ ?_
      · intro hdeep
        have hnext := (parserStep_deep hdeep h).1 packets hpc
        simp only [Function.update_self] at hnext
        exact absurd hnext (by simp)
      · dsimp only
        omega
  | @dropping packets flows hpc =>
      have h1 := hhand (.returnBatch packets flows) packets [] (by rw [hpc]; rfl) rfl
      rw [List.countP_nil] at h1
      refine Carries.dropped ?_ ?_
      · intro hdeep
        have hnext := (parserStep_deep hdeep h).2 packets flows hpc
        simp only [Function.update_self] at hnext
        exact absurd hnext (by simp)
      · dsimp only
        omega

/-- **A manager** takes the packet it inserts off the way, or sends it back. -/
theorem inFlight_managerStep {m : Nat} (hm : m < numbers.toNat) {pipeDepth : Int32}
    {now : UInt64} (h : managerStep cfg s m pipeDepth now = some s') (p : PacketT → Bool) :
    Carries (pipeDepth > 4) ((managerEvent cfg s m now).insertedPacket.countP p)
      ((s.inFlight pNums numbers.toNat).countP p) 0
      ((s'.inFlight pNums numbers.toNat).countP p) := by
  have hhand := fun (pc : ManagerPc) (old new : List PacketT)
      (hold : (s.managerPc m).pending = old) (hnew : pc.pending = new) =>
    total_map_replace hm ManagerPc.pending hold hnew p
  simp only [inFlight_countP]
  cases hstep : managerStep_cases h with
  | @took flow queue hpc hqueue =>
      have hmap : (s.managerQueue m).map FlowItem.packet
          = flow.packet :: queue.map FlowItem.packet := by rw [hqueue, List.map_cons]
      have h1 := total_map_replace hm (List.map FlowItem.packet) (v := queue) hmap rfl p
      have h2 := hhand (.taken flow) [] [flow.packet] (by rw [hpc]; rfl) rfl
      simp only [List.countP_cons, List.countP_nil] at h1 h2
      rw [managerEvent_quiet (by rw [hpc]; simp)]
      refine Carries.same ?_
      simp only [PipelineEvent.insertedPacket, List.countP_nil]
      omega
  | @deep flow hpc =>
      have h1 := hhand (.inserting flow) [flow.packet] [flow.packet] (by rw [hpc]; rfl) rfl
      rw [managerEvent_quiet (by rw [hpc]; simp)]
      refine Carries.same ?_
      simp only [PipelineEvent.insertedPacket, List.countP_nil]
      omega
  | @inserted flow table hpc =>
      obtain ⟨_, outcome, _, hevent, _⟩ := managerStep_inserting hpc h
      have h1 := hhand (.returnPacket flow) [flow.packet] [] (by rw [hpc]; rfl) rfl
      rw [hevent]
      refine Carries.same ?_
      simp only [PipelineEvent.insertedPacket, List.countP_nil] at h1 ⊢
      omega
  | @returnedPacket flow hpc =>
      have h1 := hhand (.returnFlow flow) [] [] (by rw [hpc]; rfl) rfl
      rw [managerEvent_quiet (by rw [hpc]; simp)]
      refine Carries.same ?_
      simp only [PipelineEvent.insertedPacket, List.countP_nil]
      omega
  | @returnedFlow flow hpc =>
      have h1 := hhand .idle [] [] (by rw [hpc]; rfl) rfl
      rw [managerEvent_quiet (by rw [hpc]; simp)]
      refine Carries.same ?_
      simp only [PipelineEvent.insertedPacket, List.countP_nil]
      omega
  | @shallow flow hpc =>
      -- the flow is sent back, which a depth above 4 rules out
      have h1 := hhand (.returnPacket flow) [flow.packet] [] (by rw [hpc]; rfl) rfl
      rw [List.countP_nil] at h1
      rw [managerEvent_quiet (by rw [hpc]; simp)]
      refine Carries.dropped ?_ ?_
      · intro hdeep
        have hnext := managerStep_deep hdeep hpc h
        simp only [Function.update_self] at hnext
        exact absurd hnext (by simp)
      · dsimp only
        omega

/-- **What one step does to the packets under way.** -/
theorem inFlight_step (hs : Owned mode gNums pNums numbers s) {call : PipelineCall}
    {e : PipelineEvent} (h : ObservedStep mode cfg gNums pNums numbers s call e s')
    (p : PacketT → Bool) :
    Carries call.AboveFour (e.insertedPacket.countP p)
      ((s.inFlight pNums numbers.toNat).countP p) (e.sentPacket.countP p)
      ((s'.inFlight pNums numbers.toNat).countP p) := by
  cases h with
  | generator hi hstep =>
      have hput := inFlight_generatorStep hs hi (generatorStep_cases hstep) p
      refine Carries.same ?_
      rw [generatorEvent_insertedPacket, List.countP_nil]
      omega
  | parser hq hstep =>
      rw [parserEvent_insertedPacket, parserEvent_sentPacket]
      exact inFlight_parserStep hs hq hstep p
  | manager hm hstep =>
      rw [managerEvent_sentPacket]
      exact inFlight_managerStep hm hstep p
  | cleaned _ _ _ => exact Carries.same (Nat.zero_add _)

/-! ## §3. Along a run. -/

/-- **Sent and handed over, with what is under way**: the counts of a run, and
    the manager each packet was handed over by. -/
structure Delivering (mode : Mode) (gNums pNums : Nat) (numbers : UInt32)
    (calls : List PipelineCall) (es : List PipelineEvent) (s : Stages) : Prop where
  owned : Owned mode gNums pNums numbers s
  routed : Routed pNums numbers s
  counts : ∀ p : PacketT → Bool, Carries (∀ call ∈ calls, call.AboveFour)
    ((insertedPackets es).countP p) 0 ((sentPackets es).countP p)
    ((s.inFlight pNums numbers.toNat).countP p)
  home : ∀ m flow outcome now, PipelineEvent.inserted m flow outcome now ∈ es →
    m < numbers.toNat ∧ MadeFor numbers m flow

/-- Nothing is under way at the start. -/
theorem delivering_start (hle : gNums ≤ pNums) (pktlen : UInt32)
    (handler : PacketT → Nat → UInt8) (packets : Nat → Nat → PacketT)
    (flows : Nat → Nat → FlowItem) (table : Nat → Manager) :
    Delivering mode gNums pNums numbers [] []
      (startStages mode pktlen handler packets flows table) where
  owned := owned_start numbers hle pktlen handler packets flows table
  routed := ⟨fun q _ => each_nil, fun m _ => each_nil, fun m _ => each_nil⟩
  counts := by
    intro p
    have hnone : ((startStages mode pktlen handler packets flows table).inFlight pNums
        numbers.toNat).countP p = 0 := by
      rw [inFlight_countP]
      show total pNums (fun _ => []) p + total pNums (fun _ => []) p
        + total numbers.toNat (fun _ => []) p + total numbers.toNat (fun _ => []) p = 0
      simp only [total_nil]
    rw [hnone]
    exact Carries.same rfl
  home := fun _ _ _ _ hmem => absurd hmem List.not_mem_nil

theorem Delivering.step {calls : List PipelineCall} {es : List PipelineEvent}
    (hd : Delivering mode gNums pNums numbers calls es s) (hg : 0 < gNums) (hle : gNums ≤ pNums)
    {call : PipelineCall} {e : PipelineEvent}
    (h : ObservedStep mode cfg gNums pNums numbers s call e s') :
    Delivering mode gNums pNums numbers (calls ++ [call]) (es ++ [e]) s' := by
  refine ⟨hd.owned.step hg hle h.pipelineStep, hd.routed.step h, ?_, ?_⟩
  · intro p
    -- what is in flight grows and shrinks with the two event lists
    have hbefore := hd.counts p
    have hmove := inFlight_step hd.owned h p
    rw [insertedPackets_snoc, sentPackets_snoc, List.countP_append, List.countP_append]
    have hle₁ := hbefore.le
    have hle₂ := hmove.le
    refine ⟨by omega, fun hall => ?_⟩
    have heq₁ := hbefore.eq fun c hc => hall c (List.mem_append_left _ hc)
    have heq₂ := hmove.eq (hall call (List.mem_append_right _ List.mem_cons_self))
    omega
  · intro m flow outcome now hmem
    rcases List.mem_append.mp hmem with hold | hnew
    · exact hd.home m flow outcome now hold
    · have hevent := List.mem_singleton.mp hnew
      -- only a manager inserts
      cases h with
      | generator _ _ =>
          unfold generatorEvent at hevent
          split at hevent <;> exact absurd hevent (by simp)
      | @parser q _ _ _ _ =>
          have hquiet := parserEvent_insertedPacket s q
          rw [← hevent] at hquiet
          exact absurd hquiet (by simp [PipelineEvent.insertedPacket])
      | manager hm _ => exact hd.routed.inserted hm hevent
      | cleaned _ _ _ => exact absurd hevent (by simp)

/-- What a manager was handed is what its key selects of all that was handed
    over. -/
theorem insertedPacketsAt_eq {es : List PipelineEvent}
    (h : ∀ m flow outcome now, PipelineEvent.inserted m flow outcome now ∈ es →
      MadeFor numbers m flow) (m : Nat) :
    insertedPacketsAt m es = (insertedPackets es).filter (headsFor numbers m) := by
  induction es with
  | nil => rfl
  | cons e es ih =>
      have hrest := ih fun m flow outcome now hmem => h m flow outcome now
        (List.mem_cons_of_mem _ hmem)
      have hfirst : e.insertedPacketAt m = e.insertedPacket.filter (headsFor numbers m) := by
        cases e with
        | inserted j flow outcome now =>
            obtain ⟨hmade, hindex⟩ := h j flow outcome now List.mem_cons_self
            have hhead : headsFor numbers m flow.packet = (j == m) := by
              unfold headsFor
              rw [← hmade.key_eq, hindex]
            simp only [PipelineEvent.insertedPacketAt, PipelineEvent.insertedPacket,
              List.filter_cons, List.filter_nil, hhead, beq_iff_eq]
        | quiet => rfl
        | sent _ _ _ => rfl
        | took _ _ => rfl
      unfold insertedPacketsAt insertedPackets at hrest ⊢
      rw [List.flatMap_cons, List.flatMap_cons, List.filter_append, hfirst, hrest]

/-- In a drained pipeline only packets in the parsers' queues are under way. -/
theorem Drained.inFlight (h : Drained gNums pNums numbers.toNat s) :
    s.inFlight pNums numbers.toNat = s.waiting pNums := by
  have hparsers : (List.range pNums).flatMap (fun q => (s.parserPc q).pending) = [] := by
    rw [List.flatMap_eq_nil_iff]
    intro q hq
    rw [h.parserPc q (List.mem_range.mp hq)]
    rfl
  have hqueues : (List.range numbers.toNat).flatMap
      (fun m => (s.managerQueue m).map FlowItem.packet) = [] := by
    rw [List.flatMap_eq_nil_iff]
    intro m hm
    rw [h.managerQueue m (List.mem_range.mp hm)]
    rfl
  have hmanagers : (List.range numbers.toNat).flatMap (fun m => (s.managerPc m).pending) = [] := by
    rw [List.flatMap_eq_nil_iff]
    intro m hm
    rw [h.managerPc m (List.mem_range.mp hm)]
    rfl
  unfold Stages.inFlight
  rw [hparsers, hqueues, hmanagers, List.append_nil, List.append_nil, List.append_nil]

end Steps

/-! ## §4. Every run. -/

/-- **Every packet is delivered once.** -/
structure DeliveredOnce (gNums pNums : Nat) (numbers : UInt32) (calls : List PipelineCall)
    (es : List PipelineEvent) (s : Stages) : Prop where
  /-- Nothing is made up and nothing doubled, whatever depth a thread reads. -/
  part : (insertedPackets es ++ s.inFlight pNums numbers.toNat).Subperm (sentPackets es)
  /-- Above depth 4 nothing is lost. -/
  all : (∀ call ∈ calls, call.AboveFour) →
    (insertedPackets es ++ s.inFlight pNums numbers.toNat).Perm (sentPackets es)
  /-- A packet is handed over parsed, by the manager of its key. -/
  home : ∀ m flow outcome now, PipelineEvent.inserted m flow outcome now ∈ es →
    m < numbers.toNat ∧ MadeFor numbers m flow
  /-- Once the pipeline has drained, every manager was handed all that was sent
      with its keys, but what waits for a full batch. -/
  drained : (∀ call ∈ calls, call.AboveFour) → Drained gNums pNums numbers.toNat s →
    ∀ m, (insertedPacketsAt m es ++ (s.waiting pNums).filter (headsFor numbers m)).Perm
      ((sentPackets es).filter (headsFor numbers m))

section Main

variable {mode : Mode} {cfg : Config} {gNums pNums : Nat} {numbers : UInt32} {s : Stages}

theorem Delivering.deliveredOnce {calls : List PipelineCall} {es : List PipelineEvent}
    (hd : Delivering mode gNums pNums numbers calls es s) :
    DeliveredOnce gNums pNums numbers calls es s := by
  have hall : (∀ call ∈ calls, call.AboveFour) →
      (insertedPackets es ++ s.inFlight pNums numbers.toNat).Perm (sentPackets es) := by
    intro habove
    refine perm_of_countP fun p => ?_
    rw [List.countP_append, (hd.counts p).eq habove, Nat.zero_add]
  refine ⟨?_, hall, hd.home, ?_⟩
  · refine subperm_of_countP fun p => ?_
    have hle := (hd.counts p).le
    rw [List.countP_append]
    omega
  · intro habove hdrained m
    rw [insertedPacketsAt_eq (fun m flow outcome now hmem => (hd.home m flow outcome now hmem).2) m,
      ← List.filter_append, ← hdrained.inFlight]
    exact (hall habove).filter _

/-- **EVERY PACKET IS DELIVERED ONCE**: for every `1 <= G <= P`, any number of
    managers, any tables and every order of steps. -/
theorem pipeline_deliversOnce (hg : 1 ≤ gNums) (hle : gNums ≤ pNums) (pktlen : UInt32)
    (handler : PacketT → Nat → UInt8) (packets : Nat → Nat → PacketT)
    (flows : Nat → Nat → FlowItem) (table : Nat → Manager) {calls : List PipelineCall}
    {es : List PipelineEvent}
    (hrun : (observedPipeline mode cfg gNums pNums numbers).run
      (startStages mode pktlen handler packets flows table) calls = some (s, es)) :
    DeliveredOnce gNums pNums numbers calls es s := by
  have hdelivering := (observedPipeline mode cfg gNums pNums numbers).run_trace_induction
    (Delivering mode gNums pNums numbers)
    (fun _ _ _ _ _ _ hd hstep => hd.step hg hle (observedStep_cases hstep)) hrun
    (delivering_start hle pktlen handler packets flows table)
  exact hdelivering.deliveredOnce

end Main

/-- One generator, one parser: the first packet is sent and under way. -/
theorem firstPacket_deliversOnce :
    ∃ calls es s packet,
      (observedPipeline .generator (Session.sourceConfig 65536 1000) 1 1 1).run oneOfEach calls
          = some (s, es)
        ∧ sentPackets es = [packet]
        ∧ DeliveredOnce 1 1 1 calls es s := by
  obtain ⟨packet, pool, hpool⟩ : ∃ packet pool, oneOfEach.generatorPool 0 = packet :: pool := by
    apply List.exists_cons_of_length_pos
    rw [oneOfEach, startStages_generatorPool_length]
    decide
  obtain ⟨input, packet', hfill⟩ := exists_fillPacket .generator 0 packet
  have hsent : ∃ s, (observedPipeline .generator (Session.sourceConfig 65536 1000) 1 1 1).run
      oneOfEach (List.replicate 3 (.generator 0 5 input))
        = some (s, [.quiet, .quiet, .sent 0 0 packet']) :=
    observed_sent (s := oneOfEach) Nat.one_pos rfl hpool hfill (by decide) (by decide)
  obtain ⟨s, hrun⟩ := hsent
  exact ⟨_, _, s, packet', hrun, rfl, pipeline_deliversOnce (le_refl 1) (le_refl 1) 60
    (fun _ _ => 0) (fun _ _ => blankPacket) (fun _ _ => blankFlow) Session.freshManager hrun⟩

end FreePacket.Pipeline
