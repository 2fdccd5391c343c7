/-
  FreePacket.Pipeline.Accounting
  ──────────────────────────────
  **EVERY STEP MOVES ITEMS and makes or loses none.**

  A tally counts the items with a property of their address over all queues,
  pools and hands.  Each step replaces the content of one or two of these;
  `hhand` is the change of the moving thread's hand, and linear arithmetic
  adds the changes up.

  Main results: `packetTally_step` and `flowTally_step`.
-/
import FreePacket.Pipeline.Ownership

namespace FreePacket.Pipeline

open FreePacket.Lib FreePacket.Packet
open FreePacket.Session (Manager Config queueCapacity)

/-! ## §1. Counting. -/

/-- How many packet buffers whose address satisfies `f` there are: in the
    generators' pools and hands, in the parsers' queues and hands, attached to
    the flows in the managers' queues and hands. -/
def Stages.packetTally (s : Stages) (gNums pNums mNums : Nat) (f : Nat × Nat → Bool) : Nat :=
  total gNums s.generatorPool (fun packet => f packet.addr)
    + total gNums (fun i => (s.generatorPc i).packets) (fun packet => f packet.addr)
    + total pNums s.parserQueue (fun packet => f packet.addr)
    + total pNums (fun q => (s.parserPc q).packets) (fun packet => f packet.addr)
    + total mNums (fun m => (s.managerQueue m).map FlowItem.packet) (fun packet => f packet.addr)
    + total mNums (fun m => (s.managerPc m).packets) (fun packet => f packet.addr)

/-- How many flow items: in the parsers' pools and hands, in the managers'
    queues and hands. -/
def Stages.flowTally (s : Stages) (pNums mNums : Nat) (f : Nat × Nat → Bool) : Nat :=
  total pNums s.parserPool (fun flow => f flow.addr)
    + total pNums (fun q => (s.parserPc q).flows) (fun flow => f flow.addr)
    + total mNums s.managerQueue (fun flow => f flow.addr)
    + total mNums (fun m => (s.managerPc m).flows) (fun flow => f flow.addr)

section Steps

variable {mode : Mode} {gNums pNums : Nat} {numbers : UInt32} {s s' : Stages}

/-! ## §2. Steps of a generator. -/

theorem packetTally_generatorStep (hs : Owned mode gNums pNums numbers s) {i : Nat}
    (hi : i < gNums) (h : GeneratorStep mode gNums pNums s i s') (f : Nat × Nat → Bool) :
    s'.packetTally gNums pNums numbers.toNat f = s.packetTally gNums pNums numbers.toNat f := by
  have hown := hs.generatorPc i hi
  -- the generator's hand goes from `old` to `new`
  have hhand := fun (pc : GeneratorPc) (old new : List PacketT)
      (hold : (s.generatorPc i).packets = old) (hnew : pc.packets = new) =>
    total_map_replace hi GeneratorPc.packets hold hnew (fun packet => f packet.addr)
  cases h with
  | @took packet packet' pool input hpc hpool hfill =>
      have hhome := hs.generatorPool i hi packet (by rw [hpool]; exact List.mem_cons_self)
      have haddr := (fillPacket_of hfill hhome).1
      have h1 := total_replace hi hpool pool (fun packet => f packet.addr)
      have h2 := hhand (.filled packet') [] [packet'] (by rw [hpc]; rfl) rfl
      simp only [List.countP_cons, List.countP_nil, haddr] at h1 h2
      simp only [Stages.packetTally]
      omega
  | @chose packet hpc =>
      have h1 := hhand (.sending (s.nextThreadId i) packet) [packet] [packet] (by rw [hpc]; rfl) rfl
      simp only [Stages.packetTally]
      omega
  | @kept packet hpc =>
      have h1 := hhand (.returning packet) [packet] [packet] (by rw [hpc]; rfl) rfl
      simp only [Stages.packetTally]
      omega
  | @sent parser packet hpc =>
      rw [hpc] at hown
      have h1 := hhand .idle [packet] [] (by rw [hpc]; rfl) rfl
      have h2 := total_update hown.2.1 s.parserQueue (s.parserQueue parser ++ [packet])
        (fun packet => f packet.addr)
      simp only [List.countP_append, List.countP_nil] at h1 h2
      simp only [Stages.packetTally]
      omega
  | @returned packet hpc =>
      rw [hpc] at hown
      have hpool : packet.pool = i := hown.2
      have h1 := hhand .idle [packet] [] (by rw [hpc]; rfl) rfl
      have h2 := total_update hi s.generatorPool (s.generatorPool i ++ [packet])
        (fun packet => f packet.addr)
      simp only [List.countP_append, List.countP_nil] at h1 h2
      simp only [Stages.packetTally, hpool]
      omega

/-- A generator does not touch flow items. -/
theorem flowTally_generatorStep {i mNums : Nat} (h : GeneratorStep mode gNums pNums s i s')
    (f : Nat × Nat → Bool) : s'.flowTally pNums mNums f = s.flowTally pNums mNums f := by
  cases h <;> rfl

/-! ## §3. Steps of a parser. -/

theorem packetTally_parserStep (hs : Owned mode gNums pNums numbers s) (hg : 0 < gNums)
    {q : Nat} (hq : q < pNums) (h : ParserStep numbers s q s') (f : Nat × Nat → Bool) :
    s'.packetTally gNums pNums numbers.toNat f = s.packetTally gNums pNums numbers.toNat f := by
  have hown := hs.parserPc q hq
  have howner : q % gNums < gNums := Nat.mod_lt q hg
  have hhand := fun (pc : ParserPc) (old new : List PacketT)
      (hold : (s.parserPc q).packets = old) (hnew : pc.packets = new) =>
    total_map_replace hq ParserPc.packets hold hnew (fun packet => f packet.addr)
  cases h with
  | @took packets queue hpc hqueue _ =>
      -- queue to hand
      have h1 := total_replace hq hqueue queue (fun packet => f packet.addr)
      have h2 := hhand (.taken packets) [] packets (by rw [hpc]; rfl) rfl
      simp only [List.countP_append, List.countP_nil] at h1 h2
      simp only [Stages.packetTally]
      omega
  | @wanted packets hpc =>
      have h1 := hhand (.waitFlows packets) packets packets (by rw [hpc]; rfl) rfl
      simp only [Stages.packetTally]
      omega
  | @skipped packets hpc =>
      have h1 := hhand (.returnPackets packets) packets packets (by rw [hpc]; rfl) rfl
      simp only [Stages.packetTally]
      omega
  | @made packets flows pool hpc _ _ =>
      have h1 := hhand (.built packets (List.zipWith makeFlowItemTcp flows packets))
        packets packets (by rw [hpc]; rfl) rfl
      simp only [Stages.packetTally]
      omega
  | @forwarding packets flows hpc =>
      -- from here on the packets are attached to the flows
      rw [hpc] at hown
      have h1 := hhand (.forward flows) packets packets (by rw [hpc]; rfl) hown.2.2.2
      simp only [Stages.packetTally]
      omega
  | @dropping packets flows hpc =>
      have h1 := hhand (.returnBatch packets flows) packets packets (by rw [hpc]; rfl) rfl
      simp only [Stages.packetTally]
      omega
  | @forwarded index flow rest hpc hindex =>
      -- the packet travels inside its flow, hand to queue
      have h1 := hhand (.forward rest) (flow.packet :: rest.map FlowItem.packet)
        (rest.map FlowItem.packet) (by rw [hpc]; rfl) rfl
      have h2 := total_map_replace hindex (List.map FlowItem.packet) (F := s.managerQueue)
        (v := s.managerQueue index ++ [flow]) rfl List.map_append (fun packet => f packet.addr)
      simp only [List.countP_append, List.countP_cons, List.countP_nil, List.map_cons,
        List.map_nil] at h1 h2
      simp only [Stages.packetTally]
      omega
  | finished hpc =>
      have h1 := hhand .idle [] [] (by rw [hpc]; rfl) rfl
      simp only [Stages.packetTally]
      omega
  | @returnedBatch first rest flows hpc =>
      -- one pool takes the whole batch, that of the generator feeding `q`
      rw [hpc] at hown
      have hpool : first.pool = q % gNums := (hown.2.1 first List.mem_cons_self).2
      have h1 := hhand (.returnFlows flows) (first :: rest) [] (by rw [hpc]; rfl) rfl
      have h2 := total_update howner s.generatorPool
        (s.generatorPool (q % gNums) ++ first :: rest) (fun packet => f packet.addr)
      simp only [List.countP_append, List.countP_nil] at h1 h2
      simp only [Stages.packetTally, hpool]
      omega
  | @returnedFlows flows hpc =>
      have h1 := hhand .idle [] [] (by rw [hpc]; rfl) rfl
      simp only [Stages.packetTally]
      omega
  | @returnedPackets first rest hpc =>
      rw [hpc] at hown
      have hpool : first.pool = q % gNums := (hown.2 first List.mem_cons_self).2
      have h1 := hhand .idle (first :: rest) [] (by rw [hpc]; rfl) rfl
      have h2 := total_update howner s.generatorPool
        (s.generatorPool (q % gNums) ++ first :: rest) (fun packet => f packet.addr)
      simp only [List.countP_append, List.countP_nil] at h1 h2
      simp only [Stages.packetTally, hpool]
      omega

theorem flowTally_parserStep (hs : Owned mode gNums pNums numbers s) {q : Nat} (hq : q < pNums)
    (h : ParserStep numbers s q s') (f : Nat × Nat → Bool) :
    s'.flowTally pNums numbers.toNat f = s.flowTally pNums numbers.toNat f := by
  have hown := hs.parserPc q hq
  have hhand := fun (pc : ParserPc) (old new : List FlowItem)
      (hold : (s.parserPc q).flows = old) (hnew : pc.flows = new) =>
    total_map_replace hq ParserPc.flows hold hnew (fun flow => f flow.addr)
  cases h with
  | @took packets queue hpc _ _ =>
      have h1 := hhand (.taken packets) [] [] (by rw [hpc]; rfl) rfl
      simp only [Stages.flowTally]
      omega
  | @wanted packets hpc =>
      have h1 := hhand (.waitFlows packets) [] [] (by rw [hpc]; rfl) rfl
      simp only [Stages.flowTally]
      omega
  | @skipped packets hpc =>
      have h1 := hhand (.returnPackets packets) [] [] (by rw [hpc]; rfl) rfl
      simp only [Stages.flowTally]
      omega
  | @made packets flows pool hpc hpool hlen =>
      -- parsing fills the items, it does not move them
      rw [hpc] at hown
      have hsame := zipWith_countP_addr (hlen.trans hown.1.symm) f
      have h1 := total_replace hq hpool pool (fun flow => f flow.addr)
      have h2 := hhand (.built packets (List.zipWith makeFlowItemTcp flows packets)) []
        (List.zipWith makeFlowItemTcp flows packets) (by rw [hpc]; rfl) rfl
      simp only [List.countP_append, List.countP_nil, hsame] at h1 h2
      simp only [Stages.flowTally]
      omega
  | @forwarding packets flows hpc =>
      have h1 := hhand (.forward flows) flows flows (by rw [hpc]; rfl) rfl
      simp only [Stages.flowTally]
      omega
  | @dropping packets flows hpc =>
      have h1 := hhand (.returnBatch packets flows) flows flows (by rw [hpc]; rfl) rfl
      simp only [Stages.flowTally]
      omega
  | @forwarded index flow rest hpc hindex =>
      have h1 := hhand (.forward rest) (flow :: rest) rest (by rw [hpc]; rfl) rfl
      have h2 := total_update hindex s.managerQueue (s.managerQueue index ++ [flow])
        (fun flow => f flow.addr)
      simp only [List.countP_append, List.countP_cons, List.countP_nil] at h1 h2
      simp only [Stages.flowTally]
      omega
  | finished hpc =>
      have h1 := hhand .idle [] [] (by rw [hpc]; rfl) rfl
      simp only [Stages.flowTally]
      omega
  | @returnedBatch first rest flows hpc =>
      have h1 := hhand (.returnFlows flows) flows flows (by rw [hpc]; rfl) rfl
      simp only [Stages.flowTally]
      omega
  | @returnedFlows flows hpc =>
      have h1 := hhand .idle flows [] (by rw [hpc]; rfl) rfl
      have h2 := total_update hq s.parserPool (s.parserPool q ++ flows) (fun flow => f flow.addr)
      simp only [List.countP_append, List.countP_nil] at h1 h2
      simp only [Stages.flowTally]
      omega
  | @returnedPackets first rest hpc =>
      have h1 := hhand .idle [] [] (by rw [hpc]; rfl) rfl
      simp only [Stages.flowTally]
      omega

/-! ## §4. Steps of a manager. -/

theorem packetTally_managerStep (hs : Owned mode gNums pNums numbers s) (hg : 0 < gNums)
    {m : Nat} (hm : m < numbers.toNat) (h : ManagerStep s m s') (f : Nat × Nat → Bool) :
    s'.packetTally gNums pNums numbers.toNat f = s.packetTally gNums pNums numbers.toNat f := by
  have hown := hs.managerPc m hm
  have hhand := fun (pc : ManagerPc) (old new : List PacketT)
      (hold : (s.managerPc m).packets = old) (hnew : pc.packets = new) =>
    total_map_replace hm ManagerPc.packets hold hnew (fun packet => f packet.addr)
  cases h with
  | @took flow queue hpc hqueue =>
      -- queue to hand, the packet inside its flow
      have hmap : (s.managerQueue m).map FlowItem.packet
          = flow.packet :: queue.map FlowItem.packet := by rw [hqueue, List.map_cons]
      have h1 := total_map_replace hm (List.map FlowItem.packet) (v := queue) hmap rfl
        (fun packet => f packet.addr)
      have h2 := hhand (.taken flow) [] [flow.packet] (by rw [hpc]; rfl) rfl
      simp only [List.countP_cons, List.countP_nil] at h1 h2
      simp only [Stages.packetTally]
      omega
  | @deep flow hpc =>
      have h1 := hhand (.inserting flow) [flow.packet] [flow.packet] (by rw [hpc]; rfl) rfl
      simp only [Stages.packetTally]
      omega
  | @shallow flow hpc =>
      have h1 := hhand (.returnPacket flow) [flow.packet] [flow.packet] (by rw [hpc]; rfl) rfl
      simp only [Stages.packetTally]
      omega
  | @inserted flow table hpc =>
      have h1 := hhand (.returnPacket flow) [flow.packet] [flow.packet] (by rw [hpc]; rfl) rfl
      simp only [Stages.packetTally]
      omega
  | @returnedPacket flow hpc =>
      -- the packet leaves the flow for its generator's pool
      rw [hpc] at hown
      obtain ⟨q, _, _, hpacket⟩ := hown
      have h1 := hhand (.returnFlow flow) [flow.packet] [] (by rw [hpc]; rfl) rfl
      have h2 := total_update (Nat.mod_lt q hg) s.generatorPool
        (s.generatorPool (q % gNums) ++ [flow.packet]) (fun packet => f packet.addr)
      simp only [List.countP_append, List.countP_nil] at h1 h2
      simp only [Stages.packetTally, hpacket.2]
      omega
  | @returnedFlow flow hpc =>
      have h1 := hhand .idle [] [] (by rw [hpc]; rfl) rfl
      simp only [Stages.packetTally]
      omega

theorem flowTally_managerStep (hs : Owned mode gNums pNums numbers s) {m : Nat}
    (hm : m < numbers.toNat) (h : ManagerStep s m s') (f : Nat × Nat → Bool) :
    s'.flowTally pNums numbers.toNat f = s.flowTally pNums numbers.toNat f := by
  have hown := hs.managerPc m hm
  have hhand := fun (pc : ManagerPc) (old new : List FlowItem)
      (hold : (s.managerPc m).flows = old) (hnew : pc.flows = new) =>
    total_map_replace hm ManagerPc.flows hold hnew (fun flow => f flow.addr)
  cases h with
  | @took flow queue hpc hqueue =>
      have h1 := total_replace hm hqueue queue (fun flow => f flow.addr)
      have h2 := hhand (.taken flow) [] [flow] (by rw [hpc]; rfl) rfl
      simp only [List.countP_cons, List.countP_nil] at h1 h2
      simp only [Stages.flowTally]
      omega
  | @deep flow hpc =>
      have h1 := hhand (.inserting flow) [flow] [flow] (by rw [hpc]; rfl) rfl
      simp only [Stages.flowTally]
      omega
  | @shallow flow hpc =>
      have h1 := hhand (.returnPacket flow) [flow] [flow] (by rw [hpc]; rfl) rfl
      simp only [Stages.flowTally]
      omega
  | @inserted flow table hpc =>
      have h1 := hhand (.returnPacket flow) [flow] [flow] (by rw [hpc]; rfl) rfl
      simp only [Stages.flowTally]
      omega
  | @returnedPacket flow hpc =>
      have h1 := hhand (.returnFlow flow) [flow] [flow] (by rw [hpc]; rfl) rfl
      simp only [Stages.flowTally]
      omega
  | @returnedFlow flow hpc =>
      -- the flow knows the parser it was taken from
      rw [hpc] at hown
      obtain ⟨q, hq, hflow, _⟩ := hown
      have h1 := hhand .idle [flow] [] (by rw [hpc]; rfl) rfl
      have h2 := total_update hq s.parserPool (s.parserPool q ++ [flow]) (fun flow => f flow.addr)
      simp only [List.countP_append, List.countP_nil] at h1 h2
      simp only [Stages.flowTally, hflow.2]
      omega

/-! ## §5. Steps of the pipeline. -/

/-- **No step makes or loses a packet buffer.** -/
theorem packetTally_step (hs : Owned mode gNums pNums numbers s) (hg : 0 < gNums)
    (h : PipelineStep mode gNums pNums numbers s s') (f : Nat × Nat → Bool) :
    s'.packetTally gNums pNums numbers.toNat f = s.packetTally gNums pNums numbers.toNat f := by
  cases h with
  | generator hi h => exact packetTally_generatorStep hs hi h f
  | parser hq h => exact packetTally_parserStep hs hg hq h f
  | manager hm h => exact packetTally_managerStep hs hg hm h f
  | cleaned => rfl

/-- **No step makes or loses a flow item.** -/
theorem flowTally_step (hs : Owned mode gNums pNums numbers s)
    (h : PipelineStep mode gNums pNums numbers s s') (f : Nat × Nat → Bool) :
    s'.flowTally pNums numbers.toNat f = s.flowTally pNums numbers.toNat f := by
  cases h with
  | generator _ h => exact flowTally_generatorStep h f
  | parser hq h => exact flowTally_parserStep hs hq h f
  | manager hm h => exact flowTally_managerStep hs hm h f
  | cleaned => rfl

end Steps

end FreePacket.Pipeline
