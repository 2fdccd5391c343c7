/-
  FreePacket.Pipeline.Model
  ─────────────────────────
  **THE PIPELINE: generators, parsers and managers over bounded FIFOs.**

  The loops of `packet_generator.c`, `packet_parser.c` and `packet_manager.c`
  as one machine.  Each thread has a program counter that carries what is in
  its hands; a step is one access to a queue or a pool, or one read of
  `global_config->pipe_depth`.  Which thread moves, the depth it reads and
  the bytes a generator gets from its counters or its card are in the action.

  A `while (… != 0) continue;` loop is a step that is not enabled yet.
-/
import FreePacket.Packet.Collector
import FreePacket.Session.Stage

namespace FreePacket.Pipeline

open FreePacket.Lib FreePacket.Packet
open FreePacket.Session (Manager Config hashAddItem deleteSession queueCapacity)

/-! ## §1. Program counters. -/

/-- `COUNT`: the batch size of `packet_parser_loop`. -/
def batch : Nat := 64

/-- `packet_generator_mode`. -/
inductive Mode where
  | generator
  | collector

/-- Where `packet_generator`, or a collector, is in its loop. -/
inductive GeneratorPc where
  /-- At `mwsr_pool_dequeue(generator->pool, …)`. -/
  | idle
  /-- The packet is filled, `pipe_depth > 1` is read next. -/
  | filled (packet : PacketT)
  /-- At `swsr_queue_enqueue(parser->queue, packet)`. -/
  | sending (parser : Nat) (packet : PacketT)
  /-- At `mwsr_pool_enqueue(packet->pool, packet)`. -/
  | returning (packet : PacketT)

/-- Where `packet_parser_loop` is. -/
inductive ParserPc where
  /-- At `swsr_queue_dequeue_multiple(parser->queue, …)`. -/
  | idle
  /-- `pipe_depth > 2` is read next. -/
  | taken (packets : List PacketT)
  /-- At `mwsr_pool_dequeue_multiple(parser->pool, …)`. -/
  | waitFlows (packets : List PacketT)
  /-- The flows are made, `pipe_depth > 3` is read next. -/
  | built (packets : List PacketT) (flows : List FlowItem)
  /-- In the loop that hands `flow[k]`, `flow[k + 1]`, … to the managers. -/
  | forward (flows : List FlowItem)
  /-- At the batch return of the packets, flows to follow. -/
  | returnBatch (packets : List PacketT) (flows : List FlowItem)
  /-- At the batch return of the flows. -/
  | returnFlows (flows : List FlowItem)
  /-- At the batch return of the packets, at `pipe_depth <= 2`. -/
  | returnPackets (packets : List PacketT)

/-- Where `packet_manager_loop` is. -/
inductive ManagerPc where
  /-- At `mwsr_queue_dequeue(manager->queue, …)`. -/
  | idle
  /-- `pipe_depth > 4` is read next. -/
  | taken (flow : FlowItem)
  /-- At `hash_add_item`, in front of its release of the flow. -/
  | inserting (flow : FlowItem)
  /-- At `mwsr_pool_enqueue(flow->packet->pool, flow->packet)`. -/
  | returnPacket (flow : FlowItem)
  /-- At `mwsr_pool_enqueue(flow->pool, flow)`. -/
  | returnFlow (flow : FlowItem)

/-! ## §2. What a thread has in its hands. -/

def GeneratorPc.packets : GeneratorPc → List PacketT
  | .idle => []
  | .filled packet | .sending _ packet | .returning packet => [packet]

/-- The packets of a parser: of its `packet` array, or attached to the flows
    it still has to forward. -/
def ParserPc.packets : ParserPc → List PacketT
  | .idle | .returnFlows _ => []
  | .taken packets | .waitFlows packets | .built packets _ | .returnBatch packets _
  | .returnPackets packets => packets
  | .forward flows => flows.map FlowItem.packet

def ParserPc.flows : ParserPc → List FlowItem
  | .idle | .taken _ | .waitFlows _ | .returnPackets _ => []
  | .built _ flows | .forward flows | .returnBatch _ flows | .returnFlows flows => flows

def ManagerPc.packets : ManagerPc → List PacketT
  | .idle | .returnFlow _ => []
  | .taken flow | .inserting flow | .returnPacket flow => [flow.packet]

def ManagerPc.flows : ManagerPc → List FlowItem
  | .idle => []
  | .taken flow | .inserting flow | .returnPacket flow | .returnFlow flow => [flow]

/-! ## §3. States and returns. -/

/-- All queues and pools, all threads, and the managers' tables. -/
structure Stages where
  generatorPool : Nat → List PacketT
  generatorPc : Nat → GeneratorPc
  nextThreadId : Nat → Nat
  parserQueue : Nat → List PacketT
  parserPool : Nat → List FlowItem
  parserPc : Nat → ParserPc
  managerQueue : Nat → List FlowItem
  managerPc : Nat → ManagerPc
  table : Nat → Manager

/-- `mwsr_pool_enqueue`, or `mwsr_pool_enqueue_multiple`, of packets to the
    pool of generator `pool`. -/
def Stages.returnPackets (s : Stages) (pool : Nat) (packets : List PacketT) :
    Option Stages :=
  (Fifo.push queueCapacity (s.generatorPool pool) packets).map
    (fun l => { s with generatorPool := Function.update s.generatorPool pool l })

/-- The same for flows and the pool of parser `pool`. -/
def Stages.returnFlows (s : Stages) (pool : Nat) (flows : List FlowItem) : Option Stages :=
  (Fifo.push queueCapacity (s.parserPool pool) flows).map
    (fun l => { s with parserPool := Function.update s.parserPool pool l })

/-- `mwsr_pool_enqueue_multiple(packet[0]->pool, packet, COUNT)`. -/
def Stages.returnBatch (s : Stages) : List PacketT → Option Stages
  | [] => none
  | first :: rest => s.returnPackets first.pool (first :: rest)

/-! ## §4. The loops. -/

/-- What a generator writes a packet from: the addresses and ports of its
    counters, in network order, or a frame of its card. -/
inductive Input where
  | counters (bytes : Nat → UInt8)
  | frame (va : Option (Nat → UInt8)) (l2Length : Int32)

/-- The packet generator `i` makes of the item it dequeued.  In generator mode
    only the two addresses (from `data + 28` on) and the two ports behind them
    (`data + TCP_IDX`) are written. -/
def fillPacket (mode : Mode) (i : Nat) (packet : PacketT) (input : Input) : Option PacketT :=
  match mode, input with
  | .generator, .counters bytes => some { packet with data := memcpy packet.data 28 bytes 12 }
  | .collector, .frame va l2Length => collect packet i va l2Length
  | _, _ => none

/-- `packet_generator` and the collectors, generator `i` of `gNums`. -/
def generatorStep (mode : Mode) (gNums pNums : Nat) (s : Stages) (i : Nat) (pipeDepth : Int32)
    (input : Input) : Option Stages :=
  match s.generatorPc i with
  | .idle =>
      match Fifo.take (s.generatorPool i) with
      | none => none
      | some (packet, pool) =>
          (fillPacket mode i packet input).map
            (fun packet =>
              { s with generatorPool := Function.update s.generatorPool i pool
                       generatorPc := Function.update s.generatorPc i (.filled packet) })
  | .filled packet =>
      if pipeDepth > 1 then
        some { s with
          generatorPc := Function.update s.generatorPc i (.sending (s.nextThreadId i) packet)
          nextThreadId := Function.update s.nextThreadId i
            (if s.nextThreadId i + gNums < pNums then s.nextThreadId i + gNums else i) }
      else
        some { s with generatorPc := Function.update s.generatorPc i (.returning packet) }
  | .sending parser packet =>
      (Fifo.push queueCapacity (s.parserQueue parser) [packet]).map
        (fun queue =>
          { s with parserQueue := Function.update s.parserQueue parser queue
                   generatorPc := Function.update s.generatorPc i .idle })
  | .returning packet =>
      (s.returnPackets packet.pool [packet]).map
        (fun s => { s with generatorPc := Function.update s.generatorPc i .idle })

/-- `packet_parser_loop`, parser `q`. -/
def parserStep (numbers : UInt32) (s : Stages) (q : Nat) (pipeDepth : Int32) :
    Option Stages :=
  match s.parserPc q with
  | .idle =>
      (Fifo.pop batch (s.parserQueue q)).map
        (fun r =>
          { s with parserQueue := Function.update s.parserQueue q r.2
                   parserPc := Function.update s.parserPc q (.taken r.1) })
  | .taken packets =>
      if pipeDepth > 2 then
        some { s with parserPc := Function.update s.parserPc q (.waitFlows packets) }
      else
        some { s with parserPc := Function.update s.parserPc q (.returnPackets packets) }
  | .waitFlows packets =>
      (Fifo.pop batch (s.parserPool q)).map
        (fun r =>
          { s with parserPool := Function.update s.parserPool q r.2
                   parserPc := Function.update s.parserPc q
                     (.built packets (List.zipWith makeFlowItemTcp r.1 packets)) })
  | .built packets flows =>
      if pipeDepth > 3 then
        some { s with parserPc := Function.update s.parserPc q (.forward flows) }
      else
        some { s with parserPc := Function.update s.parserPc q (.returnBatch packets flows) }
  | .forward [] => some { s with parserPc := Function.update s.parserPc q .idle }
  | .forward (flow :: rest) =>
      -- `hash_index` divides by the number of managers
      if 0 < numbers.toNat then
        let index := (hashIndex flow.key numbers).toNat
        (Fifo.push queueCapacity (s.managerQueue index) [flow]).map
          (fun queue =>
            { s with managerQueue := Function.update s.managerQueue index queue
                     parserPc := Function.update s.parserPc q (.forward rest) })
      else none
  | .returnBatch packets flows =>
      (s.returnBatch packets).map
        (fun s => { s with parserPc := Function.update s.parserPc q (.returnFlows flows) })
  | .returnFlows flows =>
      (s.returnFlows q flows).map
        (fun s => { s with parserPc := Function.update s.parserPc q .idle })
  | .returnPackets packets =>
      (s.returnBatch packets).map
        (fun s => { s with parserPc := Function.update s.parserPc q .idle })

/-- `packet_manager_loop`, manager `m`.  Both ways of `hash_add_item` and the
    way around it end with the same two returns. -/
def managerStep (cfg : Config) (s : Stages) (m : Nat) (pipeDepth : Int32) (now : UInt64) :
    Option Stages :=
  match s.managerPc m with
  | .idle =>
      (Fifo.take (s.managerQueue m)).map
        (fun r =>
          { s with managerQueue := Function.update s.managerQueue m r.2
                   managerPc := Function.update s.managerPc m (.taken r.1) })
  | .taken flow =>
      if pipeDepth > 4 then
        some { s with managerPc := Function.update s.managerPc m (.inserting flow) }
      else
        some { s with managerPc := Function.update s.managerPc m (.returnPacket flow) }
  | .inserting flow =>
      let index := bucketIndex flow.key (s.table m).ht.size
      (hashAddItem cfg (s.table m) index flow now).map
        (fun r =>
          { s with table := Function.update s.table m r.1
                   managerPc := Function.update s.managerPc m (.returnPacket flow) })
  | .returnPacket flow =>
      (s.returnPackets flow.packet.pool [flow.packet]).map
        (fun s => { s with managerPc := Function.update s.managerPc m (.returnFlow flow) })
  | .returnFlow flow =>
      (s.returnFlows flow.pool [flow]).map
        (fun s => { s with managerPc := Function.update s.managerPc m .idle })

/-! ## §5. The machine. -/

/-- A step of one thread, with the `pipe_depth` it reads if it reads one. -/
inductive PipelineCall where
  | generator (i : Nat) (pipeDepth : Int32) (input : Input)
  | parser (q : Nat) (pipeDepth : Int32)
  | manager (m : Nat) (pipeDepth : Int32) (now : UInt64)
  /-- The cleaner expires bucket `b` of manager `m`. -/
  | clean (m b : Nat) (now : UInt64) (destoryTime : Int32)

/-- The pipeline with `gNums` generators, `pNums` parsers, `numbers` managers. -/
def pipeline (mode : Mode) (cfg : Config) (gNums pNums : Nat) (numbers : UInt32) :
    Machine Stages PipelineCall Unit where
  step s call :=
    match call with
    | .generator i pipeDepth input =>
        if i < gNums then
          (generatorStep mode gNums pNums s i pipeDepth input).map (fun s' => (s', ()))
        else none
    | .parser q pipeDepth =>
        if q < pNums then (parserStep numbers s q pipeDepth).map (fun s' => (s', ()))
        else none
    | .manager m pipeDepth now =>
        if m < numbers.toNat then (managerStep cfg s m pipeDepth now).map (fun s' => (s', ()))
        else none
    | .clean m b now destoryTime =>
        if m < numbers.toNat ∧ b < (s.table m).ht.rounds then
          (deleteSession cfg (s.table m) b now destoryTime).map
            (fun table => ({ s with table := Function.update s.table m table }, ()))
        else none

/-! ## §6. The initial state. -/

/-- `init_signle_generator`: a pool of `1 << LG2_CAPACITY` items, each holding
    what `malloc` left in it. -/
def initSignleGenerator (i : Nat) (garbage : Nat → PacketT) : List PacketT :=
  (List.range queueCapacity).map (fun j => { garbage j with addr := (i, j) })

/-- The loop of `make_all_packet` and `make_clean_packet`: take an item off
    the generator's own pool, prepare it, and put it back (in the room it left). -/
def makeAllPacket (prepare : PacketT → PacketT) : Nat → List PacketT → List PacketT
  | 0, pool => pool
  | n + 1, pool =>
      match Fifo.take pool with
      | none => makeAllPacket prepare n pool
      | some (packet, pool) => makeAllPacket prepare n (pool ++ [prepare packet])

/-- What the loop does to an item: `make_all_packet` sets pool and length and
    lets its handler write the headers, `make_clean_packet` leaves all three. -/
def preparePacket (mode : Mode) (i : Nat) (pktlen : UInt32)
    (handler : PacketT → Nat → UInt8) (packet : PacketT) : PacketT :=
  match mode with
  | .generator => { packet with pool := i, length := pktlen, data := handler packet }
  | .collector => packet

/-- `init_single_parser`: a pool of as many flow items, each with its pool pointer. -/
def initSingleParser (q : Nat) (garbage : Nat → FlowItem) : List FlowItem :=
  (List.range queueCapacity).map (fun j => { garbage j with addr := (q, j), pool := q })

/-- The pipeline when every generator has prepared its pool and enters its
    loop, the managers' tables being `table`. -/
def startStages (mode : Mode) (pktlen : UInt32) (handler : PacketT → Nat → UInt8)
    (packets : Nat → Nat → PacketT) (flows : Nat → Nat → FlowItem) (table : Nat → Manager) :
    Stages :=
  { generatorPool := fun i =>
      makeAllPacket (preparePacket mode i pktlen handler) queueCapacity
        (initSignleGenerator i (packets i))
    generatorPc := fun _ => .idle
    nextThreadId := fun i => i
    parserQueue := fun _ => []
    parserPool := fun q => initSingleParser q (flows q)
    parserPc := fun _ => .idle
    managerQueue := fun _ => []
    managerPc := fun _ => .idle
    table := table }

/-- **The preparing loop maps**: as many rounds as there are items prepare
    each of them once and leave the order as it was. -/
theorem makeAllPacket_append (prepare : PacketT → PacketT) (pool done : List PacketT) :
    makeAllPacket prepare pool.length (pool ++ done) = done ++ pool.map prepare := by
  induction pool generalizing done with
  | nil => simp [makeAllPacket]
  | cons packet pool ih =>
      show makeAllPacket prepare pool.length ((pool ++ done) ++ [prepare packet]) = _
      rw [List.append_assoc, ih, List.map_cons, List.append_assoc, List.singleton_append]

theorem startStages_generatorPool (mode : Mode) (pktlen : UInt32)
    (handler : PacketT → Nat → UInt8) (packets : Nat → Nat → PacketT)
    (flows : Nat → Nat → FlowItem) (table : Nat → Manager) (i : Nat) :
    (startStages mode pktlen handler packets flows table).generatorPool i
      = (initSignleGenerator i (packets i)).map (preparePacket mode i pktlen handler) := by
  have hlen : (initSignleGenerator i (packets i)).length = queueCapacity := by
    unfold initSignleGenerator
    rw [List.length_map, List.length_range]
  have hmap := makeAllPacket_append (preparePacket mode i pktlen handler)
    (initSignleGenerator i (packets i)) []
  rw [hlen, List.append_nil, List.nil_append] at hmap
  unfold startStages
  rw [← hmap]

theorem startStages_generatorPool_length (mode : Mode) (pktlen : UInt32)
    (handler : PacketT → Nat → UInt8) (packets : Nat → Nat → PacketT)
    (flows : Nat → Nat → FlowItem) (table : Nat → Manager) (i : Nat) :
    ((startStages mode pktlen handler packets flows table).generatorPool i).length
      = queueCapacity := by
  rw [startStages_generatorPool, List.length_map]
  unfold initSignleGenerator
  rw [List.length_map, List.length_range]

theorem startStages_parserPool (mode : Mode) (pktlen : UInt32)
    (handler : PacketT → Nat → UInt8) (packets : Nat → Nat → PacketT)
    (flows : Nat → Nat → FlowItem) (table : Nat → Manager) (q : Nat) :
    (startStages mode pktlen handler packets flows table).parserPool q
      = initSingleParser q (flows q) := by
  unfold startStages
  simp only

end FreePacket.Pipeline
