/-
  FreePacket.Pipeline.Rings
  ─────────────────────────
  **THE PIPELINE ON ITS QUEUES: every load and store of them.**

  In `Pipeline.Model` an access to a queue or a pool is one step on a list.
  Here each of them is a struct of `queue_intel.h` with its mutexes, and a
  thread goes through the operation load by load and store by store while the
  other threads go on (`Queue.Shared`).  A refused operation is tried again.

  The threads are a client of these queues, so what they do could have been
  done on lists (`Lib.Client`), and on lists they do what `pipeline` does.
  Whatever holds in every state the pipeline reaches holds of the queues.

  Main results:
    * `plays_step` — the threads on FIFOs are the pipeline.
    * `rings_refine` — every run on the queues is a run of the pipeline.
    * `rings_neverRefuse` — no enqueue but a manager's is ever refused.
-/
import FreePacket.Lib.Client
import FreePacket.Queue.Shared
import FreePacket.Pipeline.Drain

namespace FreePacket.Pipeline

open FreePacket.Lib FreePacket.Lib.Atomic FreePacket.Packet
open FreePacket.Session (Manager Config hashAddItem deleteSession queueCapacity)
open FreePacket.Queue (IntelQueue SharedQueue SharedAction shared Call Reply fifo fifoCall
  refused Place SenderPc senderStep Coupled ChecksFit Represents occupancy)

/-! ## §1. Threads that call queues. -/

/-- What a `void *` in a queue points at. -/
inductive Element where
  | packet (item : PacketT)
  | flow (item : FlowItem)

def Element.packet? : Element → Option PacketT
  | .packet item => some item
  | .flow _ => none

def Element.flow? : Element → Option FlowItem
  | .packet _ => none
  | .flow item => some item

inductive QueueId where
  | generatorPool (i : Nat)
  | parserQueue (q : Nat)
  | parserPool (q : Nat)
  | managerQueue (m : Nat)
  deriving DecidableEq

/-- Where a thread is, and its locals.  A generator has the counters, or the
    frame, for its next packet before it asks for one: they are its own. -/
inductive ThreadPc where
  | generator (pc : GeneratorPc) (nextThreadId : Nat) (input : Option Input)
  | parser (pc : ParserPc)
  | manager (pc : ManagerPc)
  | cleaner
  | absent

/-- What a step between two calls takes from outside. -/
inductive ThreadRead where
  | input (input : Input)
  | depth (pipeDepth : Int32)
  | insert (now : UInt64)
  /-- The cleaner expires bucket `b` of manager `m`. -/
  | clean (m b : Nat) (now : UInt64) (destoryTime : Int32)
  | nothing

/-! Thread `4 * i` is generator `i`, `4 * q + 1` parser `q`, `4 * m + 2`
    manager `m`, and 3 the cleaner. -/

/-- An array of `COUNT` pointers. -/
def arrayOf (elements : List Element) (k : Nat) : Element :=
  (elements[k]?).getD (.packet blankPacket)

/-- `mwsr_pool_enqueue_multiple(packet[0]->pool, packet, COUNT)`. -/
def batchCall : List PacketT → Option (QueueId × Call Element)
  | [] => none
  | first :: rest =>
      some (.generatorPool first.pool,
        .enqueueMultiple (arrayOf ((first :: rest).map .packet)) 64)

/-- The call a generator is at. -/
def GeneratorPc.wants (i : Nat) (input : Option Input) :
    GeneratorPc → Option (QueueId × Call Element)
  | .idle => input.map fun _ => (.generatorPool i, .dequeue)
  | .filled _ => none
  | .sending parser packet => some (.parserQueue parser, .enqueue (.packet packet))
  | .returning packet => some (.generatorPool packet.pool, .enqueue (.packet packet))

/-- The call a parser is at. -/
def ParserPc.wants (numbers : UInt32) (q : Nat) : ParserPc → Option (QueueId × Call Element)
  | .idle => some (.parserQueue q, .dequeueMultiple 64)
  | .taken _ | .built _ _ | .forward [] => none
  | .waitFlows _ => some (.parserPool q, .dequeueMultiple 64)
  | .forward (flow :: _) =>
      -- `hash_index` divides by the number of managers
      if 0 < numbers.toNat then
        some (.managerQueue (hashIndex flow.key numbers).toNat, .enqueue (.flow flow))
      else none
  | .returnBatch packets _ | .returnPackets packets => batchCall packets
  | .returnFlows flows =>
      some (.parserPool q, .enqueueMultiple (arrayOf (flows.map .flow)) 64)

/-- The call a manager is at. -/
def ManagerPc.wants (m : Nat) : ManagerPc → Option (QueueId × Call Element)
  | .idle => some (.managerQueue m, .dequeue)
  | .taken _ | .inserting _ => none
  | .returnPacket flow => some (.generatorPool flow.packet.pool, .enqueue (.packet flow.packet))
  | .returnFlow flow => some (.parserPool flow.pool, .enqueue (.flow flow))

def ThreadPc.wants (numbers : UInt32) (t : Nat) : ThreadPc → Option (QueueId × Call Element)
  | .generator pc _ input => pc.wants (t / 4) input
  | .parser pc => pc.wants numbers (t / 4)
  | .manager pc => pc.wants (t / 4)
  | .cleaner | .absent => none

/-- Where a generator goes on behind a call that went well. -/
def GeneratorPc.succeed (mode : Mode) (i nextThreadId : Nat) (input : Option Input)
    (elements : List Element) : GeneratorPc → ThreadPc
  | .idle =>
      match input, elements with
      | some given, [.packet item] =>
          match fillPacket mode i item given with
          | some item => .generator (.filled item) nextThreadId none
          | none => .generator .idle nextThreadId input
      | _, _ => .generator .idle nextThreadId input
  | .filled packet => .generator (.filled packet) nextThreadId input
  | .sending _ _ | .returning _ => .generator .idle nextThreadId input

def ParserPc.succeed (elements : List Element) : ParserPc → ParserPc
  | .idle => .taken (elements.filterMap Element.packet?)
  | .waitFlows packets =>
      .built packets (List.zipWith makeFlowItemTcp (elements.filterMap Element.flow?) packets)
  | .forward (_ :: rest) => .forward rest
  | .returnBatch _ flows => .returnFlows flows
  | .returnFlows _ | .returnPackets _ => .idle
  | .taken packets => .taken packets
  | .built packets flows => .built packets flows
  | .forward [] => .forward []

def ManagerPc.succeed (elements : List Element) : ManagerPc → ManagerPc
  | .idle =>
      match elements with
      | [.flow item] => .taken item
      | _ => .idle
  | .returnPacket flow => .returnFlow flow
  | .returnFlow _ => .idle
  | .taken flow => .taken flow
  | .inserting flow => .inserting flow

/-- Where a thread goes on with a reply: `while (… != 0) continue;`. -/
def ThreadPc.resume (mode : Mode) (t : Nat) (pc : ThreadPc) (reply : Reply Element) : ThreadPc :=
  if reply.1 = 0 then
    match pc with
    | .generator pc nextThreadId input => pc.succeed mode (t / 4) nextThreadId input reply.2
    | .parser pc => .parser (pc.succeed reply.2)
    | .manager pc => .manager (pc.succeed reply.2)
    | .cleaner => .cleaner
    | .absent => .absent
  else
    -- refused: the loop tries again
    pc

/-- A generator's counters always, a card's frame if the collector takes it. -/
def Input.usable : Mode → Input → Bool
  | .generator, .counters _ => true
  | .collector, .frame va l2Length => va.isSome && decide (l2Length > 40)
  | _, _ => false

def GeneratorPc.move (mode : Mode) (gNums pNums i nextThreadId : Nat) (input : Option Input)
    (read : ThreadRead) : GeneratorPc → Option ThreadPc
  | .idle =>
      match input, read with
      | none, .input given =>
          -- a collector drops what it cannot use and asks its card again
          if given.usable mode then some (.generator .idle nextThreadId (some given)) else none
      | _, _ => none
  | .filled packet =>
      match read with
      | .depth pipeDepth =>
          if pipeDepth > 1 then
            some (.generator (.sending nextThreadId packet)
              (if nextThreadId + gNums < pNums then nextThreadId + gNums else i) input)
          else some (.generator (.returning packet) nextThreadId input)
      | _ => none
  | .sending _ _ | .returning _ => none

def ParserPc.move (read : ThreadRead) : ParserPc → Option ParserPc
  | .taken packets =>
      match read with
      | .depth pipeDepth =>
          some (if pipeDepth > 2 then .waitFlows packets else .returnPackets packets)
      | _ => none
  | .built packets flows =>
      match read with
      | .depth pipeDepth =>
          some (if pipeDepth > 3 then .forward flows else .returnBatch packets flows)
      | _ => none
  | .forward [] => some .idle
  | _ => none

/-- A step between two calls; `hash_add_item` and the cleaner's expiry of a
    bucket are one each. -/
def ThreadPc.move (mode : Mode) (cfg : Config) (gNums pNums : Nat) (numbers : UInt32) (t : Nat)
    (table : Nat → Manager) (read : ThreadRead) : ThreadPc → Option (ThreadPc × (Nat → Manager))
  | .generator pc nextThreadId input =>
      (pc.move mode gNums pNums (t / 4) nextThreadId input read).map fun pc => (pc, table)
  | .parser pc => (pc.move read).map fun pc => (.parser pc, table)
  | .manager (.taken flow) =>
      match read with
      | .depth pipeDepth =>
          some (.manager (if pipeDepth > 4 then .inserting flow else .returnPacket flow), table)
      | _ => none
  | .manager (.inserting flow) =>
      match read with
      | .insert now =>
          let m := table (t / 4)
          (hashAddItem cfg m (bucketIndex flow.key m.ht.size) flow now).map fun r =>
            (.manager (.returnPacket flow), Function.update table (t / 4) r.1)
      | _ => none
  | .cleaner =>
      match read with
      | .clean m b now destoryTime =>
          if m < numbers.toNat ∧ b < (table m).ht.rounds then
            (deleteSession cfg (table m) b now destoryTime).map fun swept =>
              (.cleaner, Function.update table m swept)
          else none
      | _ => none
  | .manager _ | .absent => none

/-- The threads of the pipeline, as a client of its queues and pools. -/
def workers (mode : Mode) (cfg : Config) (gNums pNums : Nat) (numbers : UInt32) :
    Client QueueId (Call Element) (Reply Element) ThreadPc (Nat → Manager) ThreadRead where
  wants t pc := pc.wants numbers t
  resume t pc reply := pc.resume mode t reply
  move t pc table read := pc.move mode cfg gNums pNums numbers t table read

/-- **The pipeline on the structs of `queue_intel.h`.** -/
def ringPipeline (mode : Mode) (cfg : Config) (gNums pNums : Nat) (numbers : UInt32) :
    Machine (System QueueId ThreadPc (Nat → Manager) (SharedQueue Element))
      (SystemAct QueueId (SharedAction Element) ThreadRead) Unit :=
  composed (workers mode cfg gNums pNums numbers) (shared 10) SharedAction.call

/-- The pipeline on FIFOs that answer at once. -/
def fifoPipeline (mode : Mode) (cfg : Config) (gNums pNums : Nat) (numbers : UInt32) :
    Machine (Whole QueueId ThreadPc (Nat → Manager) (List Element)) (WholeAct ThreadRead) Unit :=
  whole (workers mode cfg gNums pNums numbers) (fifo queueCapacity)

/-- The threads at the start of their loops. -/
def startPc (gNums pNums mNums t : Nat) : ThreadPc :=
  if t % 4 = 0 ∧ t / 4 < gNums then .generator .idle (t / 4) none
  else if t % 4 = 1 ∧ t / 4 < pNums then .parser .idle
  else if t % 4 = 2 ∧ t / 4 < mNums then .manager .idle
  else if t = 3 then .cleaner
  else .absent

/-- What is in a queue or a pool. -/
def Stages.content (s : Stages) : QueueId → List Element
  | .generatorPool i => (s.generatorPool i).map .packet
  | .parserQueue q => (s.parserQueue q).map .packet
  | .parserPool q => (s.parserPool q).map .flow
  | .managerQueue m => (s.managerQueue m).map .flow

/-! ## §2. Calls on lists of packets, or of flows. -/

section Calls

variable {β : Type} (f : β → Element)

/-- What a call answers: the elements it delivers, or that it is refused. -/
def answer (l : List Element) (x : Option (List Element × List Element)) :
    List Element × Reply Element :=
  (x.map fun r => (r.1, ((0, r.2) : Reply Element))).getD (l, refused)

theorem fifoCall_enqueue_map (l : List β) (x : β) :
    fifoCall queueCapacity (l.map f) (.enqueue (f x))
      = answer (l.map f)
          ((Fifo.push queueCapacity l [x]).map fun l' => (l'.map f, [])) := by
  simp only [answer, fifoCall, Fifo.push, List.length_map, List.length_singleton]
  split
  · simp
  · rfl

theorem slice_arrayOf {xs : List β} (hlen : xs.length = batch) :
    slice (arrayOf (xs.map f)) 0 (64 : UInt32).toNat = xs.map f := by
  refine List.ext_getElem ?_ ?_
  · -- `COUNT` is 64 on both sides
    rw [slice_length, List.length_map, hlen]
    rfl
  · intro k hk hk'
    simp only [slice, arrayOf, List.getElem_map, List.getElem_range, Nat.zero_add,
      List.getElem?_eq_getElem hk', Option.getD_some]

theorem fifoCall_batch_map (l : List β) {xs : List β} (hlen : xs.length = batch) :
    fifoCall queueCapacity (l.map f) (.enqueueMultiple (arrayOf (xs.map f)) 64)
      = answer (l.map f)
          ((Fifo.push queueCapacity l xs).map fun l' => (l'.map f, [])) := by
  simp only [answer, fifoCall, Fifo.push, slice_arrayOf f hlen, List.length_map]
  split
  · simp
  · rfl

theorem fifoCall_dequeue_map (l : List β) :
    fifoCall queueCapacity (l.map f) .dequeue
      = answer (l.map f) ((Fifo.take l).map fun r => (r.2.map f, [f r.1])) := by
  cases l <;> rfl

theorem fifoCall_dequeueMultiple_map (l : List β) :
    fifoCall queueCapacity (l.map f) (.dequeueMultiple 64)
      = answer (l.map f) ((Fifo.pop batch l).map fun r => (r.2.map f, r.1.map f)) := by
  simp only [answer, fifoCall, Fifo.pop, show (64 : UInt32).toNat = batch from rfl,
    List.length_map]
  split
  · simp [List.map_take, List.map_drop]
  · rfl

end Calls

theorem filterMap_packet? (packets : List PacketT) :
    (packets.map Element.packet).filterMap Element.packet? = packets := by
  rw [List.filterMap_map]
  exact List.filterMap_some

theorem filterMap_flow? (flows : List FlowItem) :
    (flows.map Element.flow).filterMap Element.flow? = flows := by
  rw [List.filterMap_map]
  exact List.filterMap_some

/-- A usable input fills any item. -/
theorem Input.usable.fills {mode : Mode} {input : Input} (h : input.usable mode = true) (i : Nat)
    (packet : PacketT) : ∃ packet', fillPacket mode i packet input = some packet' := by
  cases mode with
  | generator =>
      cases input with
      | counters bytes => exact ⟨_, rfl⟩
      | frame va l2Length => exact absurd h (by simp [Input.usable])
  | collector =>
      cases input with
      | counters bytes => exact absurd h (by simp [Input.usable])
      | frame va l2Length =>
          cases va with
          | none => exact absurd h (by simp [Input.usable])
          | some frame =>
              simp only [Input.usable, Option.isSome_some, Bool.true_and, decide_eq_true_eq] at h
              simp only [fillPacket, collect, if_pos h]
              exact ⟨_, rfl⟩

/-! ## §3. The threads on FIFOs are the pipeline. -/

section Content

variable {s : Stages}

theorem content_generatorPool {s' : Stages} {i : Nat} {l : List PacketT}
    (hpool : s'.generatorPool = Function.update s.generatorPool i l)
    (hqueue : s'.parserQueue = s.parserQueue) (hflows : s'.parserPool = s.parserPool)
    (hmanager : s'.managerQueue = s.managerQueue) :
    Function.update s.content (.generatorPool i) (l.map .packet) = s'.content := by
  funext id
  cases id with
  | generatorPool j =>
      by_cases hj : j = i
      · rw [hj, Function.update_self, Stages.content, hpool, Function.update_self]
      · rw [Function.update_of_ne (fun h => hj (QueueId.generatorPool.inj h)), Stages.content,
          Stages.content, hpool, Function.update_of_ne hj]
  | parserQueue _ => rw [Function.update_of_ne (by simp), Stages.content, Stages.content, hqueue]
  | parserPool _ => rw [Function.update_of_ne (by simp), Stages.content, Stages.content, hflows]
  | managerQueue _ => rw [Function.update_of_ne (by simp), Stages.content, Stages.content, hmanager]

theorem content_parserQueue {s' : Stages} {q : Nat} {l : List PacketT}
    (hqueue : s'.parserQueue = Function.update s.parserQueue q l)
    (hpool : s'.generatorPool = s.generatorPool) (hflows : s'.parserPool = s.parserPool)
    (hmanager : s'.managerQueue = s.managerQueue) :
    Function.update s.content (.parserQueue q) (l.map .packet) = s'.content := by
  funext id
  cases id with
  | parserQueue j =>
      by_cases hj : j = q
      · rw [hj, Function.update_self, Stages.content, hqueue, Function.update_self]
      · rw [Function.update_of_ne (fun h => hj (QueueId.parserQueue.inj h)), Stages.content,
          Stages.content, hqueue, Function.update_of_ne hj]
  | generatorPool _ => rw [Function.update_of_ne (by simp), Stages.content, Stages.content, hpool]
  | parserPool _ => rw [Function.update_of_ne (by simp), Stages.content, Stages.content, hflows]
  | managerQueue _ => rw [Function.update_of_ne (by simp), Stages.content, Stages.content, hmanager]

theorem content_parserPool {s' : Stages} {q : Nat} {l : List FlowItem}
    (hflows : s'.parserPool = Function.update s.parserPool q l)
    (hpool : s'.generatorPool = s.generatorPool) (hqueue : s'.parserQueue = s.parserQueue)
    (hmanager : s'.managerQueue = s.managerQueue) :
    Function.update s.content (.parserPool q) (l.map .flow) = s'.content := by
  funext id
  cases id with
  | parserPool j =>
      by_cases hj : j = q
      · rw [hj, Function.update_self, Stages.content, hflows, Function.update_self]
      · rw [Function.update_of_ne (fun h => hj (QueueId.parserPool.inj h)), Stages.content,
          Stages.content, hflows, Function.update_of_ne hj]
  | generatorPool _ => rw [Function.update_of_ne (by simp), Stages.content, Stages.content, hpool]
  | parserQueue _ => rw [Function.update_of_ne (by simp), Stages.content, Stages.content, hqueue]
  | managerQueue _ => rw [Function.update_of_ne (by simp), Stages.content, Stages.content, hmanager]

theorem content_managerQueue {s' : Stages} {m : Nat} {l : List FlowItem}
    (hmanager : s'.managerQueue = Function.update s.managerQueue m l)
    (hpool : s'.generatorPool = s.generatorPool) (hqueue : s'.parserQueue = s.parserQueue)
    (hflows : s'.parserPool = s.parserPool) :
    Function.update s.content (.managerQueue m) (l.map .flow) = s'.content := by
  funext id
  cases id with
  | managerQueue j =>
      by_cases hj : j = m
      · rw [hj, Function.update_self, Stages.content, hmanager, Function.update_self]
      · rw [Function.update_of_ne (fun h => hj (QueueId.managerQueue.inj h)), Stages.content,
          Stages.content, hmanager, Function.update_of_ne hj]
  | generatorPool _ => rw [Function.update_of_ne (by simp), Stages.content, Stages.content, hpool]
  | parserQueue _ => rw [Function.update_of_ne (by simp), Stages.content, Stages.content, hqueue]
  | parserPool _ => rw [Function.update_of_ne (by simp), Stages.content, Stages.content, hflows]

/-- A step that leaves queues and pools alone. -/
theorem content_eq {s' : Stages} (hpool : s'.generatorPool = s.generatorPool)
    (hqueue : s'.parserQueue = s.parserQueue) (hflows : s'.parserPool = s.parserPool)
    (hmanager : s'.managerQueue = s.managerQueue) : s'.content = s.content := by
  funext id
  cases id with
  | generatorPool _ => rw [Stages.content, Stages.content, hpool]
  | parserQueue _ => rw [Stages.content, Stages.content, hqueue]
  | parserPool _ => rw [Stages.content, Stages.content, hflows]
  | managerQueue _ => rw [Stages.content, Stages.content, hmanager]

end Content

/-- A parser's arrays hold `COUNT` elements. -/
def ParserPc.Full : ParserPc → Prop
  | .idle | .forward _ => True
  | .taken packets | .waitFlows packets | .returnPackets packets => packets.length = batch
  | .built packets flows | .returnBatch packets flows =>
      packets.length = batch ∧ flows.length = batch
  | .returnFlows flows => flows.length = batch

/-- **The threads play the stages**: every thread is where its stage is. -/
structure Plays (mode : Mode) (gNums pNums mNums : Nat)
    (w : Whole QueueId ThreadPc (Nat → Manager) (List Element)) (s : Stages) : Prop where
  table : w.mem = s.table
  content : w.objects = s.content
  generator : ∀ i < gNums, ∃ input, w.loc (4 * i)
    = .generator (s.generatorPc i) (s.nextThreadId i) input
      ∧ ∀ given, input = some given → given.usable mode = true
  parser : ∀ q < pNums, w.loc (4 * q + 1) = .parser (s.parserPc q) ∧ (s.parserPc q).Full
  manager : ∀ m < mNums, w.loc (4 * m + 2) = .manager (s.managerPc m)
  cleaner : w.loc 3 = .cleaner
  absent : ∀ t, (∀ i < gNums, t ≠ 4 * i) → (∀ q < pNums, t ≠ 4 * q + 1) →
    (∀ m < mNums, t ≠ 4 * m + 2) → t ≠ 3 → w.loc t = .absent

section Plays

variable {mode : Mode} {gNums pNums mNums : Nat} {s s' : Stages}
  {w : Whole QueueId ThreadPc (Nat → Manager) (List Element)} {objects : QueueId → List Element}
  {table : Nat → Manager}

/-- A generator has moved. -/
theorem Plays.generatorMoves (h : Plays mode gNums pNums mNums w s) {i : Nat} {pc : GeneratorPc}
    {next : Nat} {input : Option Input} (hi : i < gNums)
    (hpc : s'.generatorPc = Function.update s.generatorPc i pc)
    (hnext : s'.nextThreadId = Function.update s.nextThreadId i next)
    (hparser : s'.parserPc = s.parserPc) (hmanager : s'.managerPc = s.managerPc)
    (htable : s'.table = s.table) (hcontent : objects = s'.content)
    (husable : ∀ given, input = some given → given.usable mode = true) :
    Plays mode gNums pNums mNums
      ⟨Function.update w.loc (4 * i) (.generator pc next input), w.mem, objects⟩ s' where
  table := by rw [htable, h.table]
  content := hcontent
  generator := by
    intro j hj
    dsimp only
    -- the generator that moved, or another one
    by_cases hji : j = i
    · refine ⟨input, ?_, husable⟩
      rw [hji, hpc, hnext, Function.update_self, Function.update_self, Function.update_self]
    · obtain ⟨old, hold, hall⟩ := h.generator j hj
      refine ⟨old, ?_, hall⟩
      rw [hpc, hnext, Function.update_of_ne hji, Function.update_of_ne hji,
        Function.update_of_ne (by omega)]
      exact hold
  parser := by
    intro q hq
    -- thread `4 * i` is no parser
    dsimp only
    rw [hparser, Function.update_of_ne (by omega)]
    exact h.parser q hq
  manager := by
    intro m hm
    dsimp only
    rw [hmanager, Function.update_of_ne (by omega)]
    exact h.manager m hm
  cleaner := by
    dsimp only
    rw [Function.update_of_ne (by omega)]
    exact h.cleaner
  absent := by
    intro t ht hq hm h3
    dsimp only
    rw [Function.update_of_ne (ht i hi)]
    exact h.absent t ht hq hm h3

/-- A parser has moved. -/
theorem Plays.parserMoves (h : Plays mode gNums pNums mNums w s) {q : Nat} {pc : ParserPc}
    (hq : q < pNums) (hpc : s'.parserPc = Function.update s.parserPc q pc)
    (hgenerator : s'.generatorPc = s.generatorPc) (hnext : s'.nextThreadId = s.nextThreadId)
    (hmanager : s'.managerPc = s.managerPc) (htable : s'.table = s.table)
    (hcontent : objects = s'.content) (hfull : pc.Full) :
    Plays mode gNums pNums mNums
      ⟨Function.update w.loc (4 * q + 1) (.parser pc), w.mem, objects⟩ s' where
  table := by rw [htable, h.table]
  content := hcontent
  generator := by
    intro i hi
    dsimp only
    rw [hgenerator, hnext, Function.update_of_ne (by omega)]
    exact h.generator i hi
  parser := by
    intro r hr
    dsimp only
    -- the parser that moved, or another one
    by_cases hrq : r = q
    · rw [hrq, hpc, Function.update_self, Function.update_self]
      exact ⟨rfl, hfull⟩
    · rw [hpc, Function.update_of_ne hrq, Function.update_of_ne (by omega)]
      exact h.parser r hr
  manager := by
    intro m hm
    dsimp only
    rw [hmanager, Function.update_of_ne (by omega)]
    exact h.manager m hm
  cleaner := by
    dsimp only
    rw [Function.update_of_ne (by omega)]
    exact h.cleaner
  absent := by
    intro t ht hq' hm h3
    dsimp only
    rw [Function.update_of_ne (hq' q hq)]
    exact h.absent t ht hq' hm h3

/-- A manager has moved. -/
theorem Plays.managerMoves (h : Plays mode gNums pNums mNums w s) {m : Nat} {pc : ManagerPc}
    (hm : m < mNums) (hpc : s'.managerPc = Function.update s.managerPc m pc)
    (hgenerator : s'.generatorPc = s.generatorPc) (hnext : s'.nextThreadId = s.nextThreadId)
    (hparser : s'.parserPc = s.parserPc) (htable : table = s'.table)
    (hcontent : objects = s'.content) :
    Plays mode gNums pNums mNums
      ⟨Function.update w.loc (4 * m + 2) (.manager pc), table, objects⟩ s' where
  table := htable
  content := hcontent
  generator := by
    intro i hi
    dsimp only
    rw [hgenerator, hnext, Function.update_of_ne (by omega)]
    exact h.generator i hi
  parser := by
    intro q hq
    dsimp only
    rw [hparser, Function.update_of_ne (by omega)]
    exact h.parser q hq
  manager := by
    intro n hn
    dsimp only
    -- the manager that moved, or another one
    by_cases hnm : n = m
    · rw [hnm, hpc, Function.update_self, Function.update_self]
    · rw [hpc, Function.update_of_ne hnm, Function.update_of_ne (by omega)]
      exact h.manager n hn
  cleaner := by
    dsimp only
    rw [Function.update_of_ne (by omega)]
    exact h.cleaner
  absent := by
    intro t ht hq hm' h3
    dsimp only
    rw [Function.update_of_ne (hm' m hm)]
    exact h.absent t ht hq hm' h3

/-- **Who a thread is.** -/
theorem Plays.cases (h : Plays mode gNums pNums mNums w s) (t : Nat) :
    (∃ i < gNums, t = 4 * i) ∨ (∃ q < pNums, t = 4 * q + 1) ∨ (∃ m < mNums, t = 4 * m + 2)
      ∨ w.loc t = .cleaner ∨ w.loc t = .absent := by
  by_cases hg : ∃ i < gNums, t = 4 * i
  · exact Or.inl hg
  · by_cases hp : ∃ q < pNums, t = 4 * q + 1
    · exact Or.inr (Or.inl hp)
    · by_cases hm : ∃ m < mNums, t = 4 * m + 2
      · exact Or.inr (Or.inr (Or.inl hm))
      · by_cases h3 : t = 3
        · rw [h3]
          exact Or.inr (Or.inr (Or.inr (Or.inl h.cleaner)))
        · push Not at hg hp hm
          exact Or.inr (Or.inr (Or.inr (Or.inr (h.absent t hg hp hm h3))))

end Plays

/-! ### One step. -/

section Step

variable {mode : Mode} {cfg : Config} {gNums pNums : Nat} {numbers : UInt32} {s s' : Stages}
  {w w' : Whole QueueId ThreadPc (Nat → Manager) (List Element)} {t : Nat} {u : Unit}

/-- The pipeline follows: it has a run to a state that `w` plays. -/
def Followed (mode : Mode) (cfg : Config) (gNums pNums : Nat) (numbers : UInt32) (s : Stages)
    (w : Whole QueueId ThreadPc (Nat → Manager) (List Element)) : Prop :=
  ∃ s', (pipeline mode cfg gNums pNums numbers).Reaches (fun _ => True) s s'
    ∧ Plays mode gNums pNums numbers.toNat w s'

theorem Plays.followed (h : Plays mode gNums pNums numbers.toNat w s) :
    Followed mode cfg gNums pNums numbers s w :=
  ⟨s, .refl, h⟩

theorem generator_follows {i : Nat} (hi : i < gNums) {pipeDepth : Int32} {input : Input}
    (hst : generatorStep mode gNums pNums s i pipeDepth input = some s')
    (h : Plays mode gNums pNums numbers.toNat w s') :
    Followed mode cfg gNums pNums numbers s w := by
  refine ⟨s', Machine.Reaches.refl.step (a := .generator i pipeDepth input) (r := ()) trivial ?_, h⟩
  simp only [pipeline, if_pos hi, hst, Option.map_some]

theorem parser_follows {q : Nat} (hq : q < pNums) {pipeDepth : Int32}
    (hst : parserStep numbers s q pipeDepth = some s')
    (h : Plays mode gNums pNums numbers.toNat w s') :
    Followed mode cfg gNums pNums numbers s w := by
  refine ⟨s', Machine.Reaches.refl.step (a := .parser q pipeDepth) (r := ()) trivial ?_, h⟩
  simp only [pipeline, if_pos hq, hst, Option.map_some]

theorem manager_follows {m : Nat} (hm : m < numbers.toNat) {pipeDepth : Int32} {now : UInt64}
    (hst : managerStep cfg s m pipeDepth now = some s')
    (h : Plays mode gNums pNums numbers.toNat w s') :
    Followed mode cfg gNums pNums numbers s w := by
  refine ⟨s', Machine.Reaches.refl.step (a := .manager m pipeDepth now) (r := ()) trivial ?_, h⟩
  simp only [pipeline, if_pos hm, hst, Option.map_some]

/-- **A call**: refused, it leaves everything as it is. -/
theorem Plays.access {mNums : Nat} (h : Plays mode gNums pNums mNums w s)
    (hst : (fifoPipeline mode cfg gNums pNums numbers).step w (.access t) = some (w', u))
    {pc : ThreadPc} (hloc : w.loc t = pc) {id : QueueId} {k : Call Element}
    (hwants : pc.wants numbers t = some (id, k)) {x : Option (List Element × List Element)}
    (hcall : fifoCall queueCapacity (s.content id) k = answer (s.content id) x) :
    w' = w ∨ ∃ l es, x = some (l, es)
      ∧ w' = ⟨Function.update w.loc t (pc.resume mode t (0, es)), w.mem,
          Function.update s.content id l⟩ := by
  have hwants' : (workers mode cfg gNums pNums numbers).wants t (w.loc t) = some (id, k) := by
    rw [hloc]
    exact hwants
  have hfifo : (fifo queueCapacity).step (w.objects id) k = some (answer (s.content id) x) := by
    rw [h.content, ← hcall]
    rfl
  rw [fifoPipeline, whole_access hwants' hfifo, Option.some.injEq, Prod.mk.injEq] at hst
  rw [← hst.1]
  cases x with
  | none =>
      left
      -- the thread goes on where it was, and the queue has what it had
      show ({ w with
          loc := Function.update w.loc t (w.loc t)
          objects := Function.update w.objects id (s.content id) }
        : Whole QueueId ThreadPc (Nat → Manager) (List Element)) = w
      rw [← h.content, Function.update_eq_self, Function.update_eq_self]
  | some r =>
      right
      refine ⟨r.1, r.2, rfl, ?_⟩
      rw [h.content, hloc]
      rfl

/-- A thread that is at no call makes none. -/
theorem no_access (hwants : (w.loc t).wants numbers t = none) :
    (fifoPipeline mode cfg gNums pNums numbers).step w (.access t) = none := by
  have hwants' : (workers mode cfg gNums pNums numbers).wants t (w.loc t) = none := hwants
  simp only [fifoPipeline, whole, hwants']

/-- A step of a thread between two calls. -/
theorem fifoPipeline_move {read : ThreadRead}
    (hst : (fifoPipeline mode cfg gNums pNums numbers).step w (.move t read) = some (w', u)) :
    ∃ r, (w.loc t).move mode cfg gNums pNums numbers t w.mem read = some r
      ∧ w' = ⟨Function.update w.loc t r.1, r.2, w.objects⟩ := by
  obtain ⟨r, hmove, heq⟩ := Option.map_eq_some_iff.mp hst
  exact ⟨r, hmove, (Prod.mk.inj heq).1.symm⟩

/-- A generator's call. -/
theorem Plays.generatorAccess (h : Plays mode gNums pNums numbers.toNat w s) {i : Nat}
    (hi : i < gNums)
    (hst : (fifoPipeline mode cfg gNums pNums numbers).step w (.access (4 * i)) = some (w', u)) :
    Followed mode cfg gNums pNums numbers s w' := by
  obtain ⟨input, hloc, husable⟩ := h.generator i hi
  have hdiv : 4 * i / 4 = i := by omega
  have hnext := (Function.update_eq_self i s.nextThreadId).symm
  cases hpc : s.generatorPc i with
  | idle =>
      rw [hpc] at hloc
      cases input with
      | none =>
          rw [no_access (by rw [hloc]; rfl)] at hst
          exact absurd hst (by simp)
      | some given =>
          have hwants : (ThreadPc.generator .idle (s.nextThreadId i) (some given)).wants numbers
              (4 * i) = some (.generatorPool i, .dequeue) := by
            rw [ThreadPc.wants, hdiv]
            rfl
          obtain rfl | ⟨l, es, hx, rfl⟩ := h.access hst hloc hwants
            (fifoCall_dequeue_map .packet (s.generatorPool i))
          · exact h.followed
          · obtain ⟨⟨packet, pool⟩, htake, heq⟩ := Option.map_eq_some_iff.mp hx
            obtain ⟨rfl, rfl⟩ := Prod.mk.inj heq
            obtain ⟨filled, hfill⟩ := Input.usable.fills (husable given rfl) i packet
            have hresume : (ThreadPc.generator .idle (s.nextThreadId i) (some given)).resume mode
                (4 * i) (0, [.packet packet])
                  = .generator (.filled filled) (s.nextThreadId i) none := by
              simp only [ThreadPc.resume, GeneratorPc.succeed, hdiv, hfill, if_true]
            rw [hresume]
            have hstep : generatorStep mode gNums pNums s i 0 given
                = some { s with
                    generatorPool := Function.update s.generatorPool i pool
                    generatorPc := Function.update s.generatorPc i (.filled filled) } := by
              simp only [generatorStep, hpc, htake, hfill, Option.map_some]
            -- the input is used up
            exact generator_follows hi hstep (h.generatorMoves hi rfl hnext rfl rfl rfl
              (content_generatorPool rfl rfl rfl rfl) (by simp))
  | filled packet =>
      rw [no_access (by rw [hloc, hpc]; rfl)] at hst
      exact absurd hst (by simp)
  | sending parser packet =>
      rw [hpc] at hloc
      obtain rfl | ⟨l, es, hx, rfl⟩ := h.access hst hloc rfl
        (fifoCall_enqueue_map .packet (s.parserQueue parser) packet)
      · exact h.followed
      · obtain ⟨queue, hpush, heq⟩ := Option.map_eq_some_iff.mp hx
        obtain ⟨rfl, rfl⟩ := Prod.mk.inj heq
        have hstep : generatorStep mode gNums pNums s i 0 (.counters fun _ => 0)
            = some { s with
                parserQueue := Function.update s.parserQueue parser queue
                generatorPc := Function.update s.generatorPc i .idle } := by
          simp only [generatorStep, hpc, hpush, Option.map_some]
        exact generator_follows hi hstep (h.generatorMoves hi rfl hnext rfl rfl rfl
          (content_parserQueue rfl rfl rfl rfl) husable)
  | returning packet =>
      rw [hpc] at hloc
      obtain rfl | ⟨l, es, hx, rfl⟩ := h.access hst hloc rfl
        (fifoCall_enqueue_map .packet (s.generatorPool packet.pool) packet)
      · exact h.followed
      · obtain ⟨pool, hpush, heq⟩ := Option.map_eq_some_iff.mp hx
        obtain ⟨rfl, rfl⟩ := Prod.mk.inj heq
        have hstep : generatorStep mode gNums pNums s i 0 (.counters fun _ => 0)
            = some { s with
                generatorPool := Function.update s.generatorPool packet.pool pool
                generatorPc := Function.update s.generatorPc i .idle } := by
          simp only [generatorStep, Stages.returnPackets, hpc, hpush, Option.map_some]
        exact generator_follows hi hstep (h.generatorMoves hi rfl hnext rfl rfl rfl
          (content_generatorPool rfl rfl rfl rfl) husable)

/-- A generator between two calls. -/
theorem Plays.generatorMove (h : Plays mode gNums pNums numbers.toNat w s) {i : Nat}
    (hi : i < gNums) {read : ThreadRead}
    (hst : (fifoPipeline mode cfg gNums pNums numbers).step w (.move (4 * i) read) = some (w', u)) :
    Followed mode cfg gNums pNums numbers s w' := by
  obtain ⟨input, hloc, husable⟩ := h.generator i hi
  have hdiv : 4 * i / 4 = i := by omega
  obtain ⟨r, hmove, rfl⟩ := fifoPipeline_move hst
  rw [hloc] at hmove
  obtain ⟨pc', hpc', rfl⟩ := Option.map_eq_some_iff.mp hmove
  rw [hdiv] at hpc'
  cases hpc : s.generatorPc i with
  | idle =>
      rw [hpc] at hpc'
      cases input with
      | some given => exact absurd hpc' (by simp [GeneratorPc.move])
      | none =>
          cases read with
          | input given =>
              -- the pipeline reads the input with the item, so it waits here
              simp only [GeneratorPc.move, Option.ite_none_right_eq_some, Option.some.injEq] at hpc'
              obtain ⟨hgiven, rfl⟩ := hpc'
              refine (h.generatorMoves hi ?_ (Function.update_eq_self ..).symm rfl rfl rfl h.content
                ?_).followed
              · rw [← hpc, Function.update_eq_self]
              · intro given' heq
                rw [← Option.some.inj heq]
                exact hgiven
          | depth _ => exact absurd hpc' (by simp [GeneratorPc.move])
          | insert _ => exact absurd hpc' (by simp [GeneratorPc.move])
          | clean _ _ _ _ => exact absurd hpc' (by simp [GeneratorPc.move])
          | nothing => exact absurd hpc' (by simp [GeneratorPc.move])
  | filled packet =>
      rw [hpc] at hpc'
      cases read with
      | depth pipeDepth =>
          by_cases hdepth : pipeDepth > 1
          · simp only [GeneratorPc.move, if_pos hdepth, Option.some.injEq] at hpc'
            have hstep : generatorStep mode gNums pNums s i pipeDepth (.counters fun _ => 0)
                = some { s with
                    generatorPc :=
                      Function.update s.generatorPc i (.sending (s.nextThreadId i) packet)
                    nextThreadId := Function.update s.nextThreadId i
                      (if s.nextThreadId i + gNums < pNums then s.nextThreadId i + gNums
                        else i) } := by
              simp only [generatorStep, hpc, if_pos hdepth]
            rw [← hpc']
            exact generator_follows hi hstep
              (h.generatorMoves hi rfl rfl rfl rfl rfl h.content husable)
          · simp only [GeneratorPc.move, if_neg hdepth, Option.some.injEq] at hpc'
            have hstep : generatorStep mode gNums pNums s i pipeDepth (.counters fun _ => 0)
                = some { s with
                    generatorPc := Function.update s.generatorPc i (.returning packet) } := by
              simp only [generatorStep, hpc, if_neg hdepth]
            rw [← hpc']
            exact generator_follows hi hstep (h.generatorMoves hi rfl
              (Function.update_eq_self ..).symm rfl rfl rfl h.content husable)
      | input _ => exact absurd hpc' (by simp [GeneratorPc.move])
      | insert _ => exact absurd hpc' (by simp [GeneratorPc.move])
      | clean _ _ _ _ => exact absurd hpc' (by simp [GeneratorPc.move])
      | nothing => exact absurd hpc' (by simp [GeneratorPc.move])
  | sending _ _ => exact absurd (hpc ▸ hpc') (by simp [GeneratorPc.move])
  | returning _ => exact absurd (hpc ▸ hpc') (by simp [GeneratorPc.move])

/-- A batch goes back to the pool of its first packet. -/
theorem batchCall_answer {packets : List PacketT} {id : QueueId} {k : Call Element}
    (hcall : batchCall packets = some (id, k)) (hlen : packets.length = batch) :
    ∃ i, id = .generatorPool i ∧ s.returnBatch packets = s.returnPackets i packets
      ∧ fifoCall queueCapacity (s.content id) k = answer (s.content id)
          ((Fifo.push queueCapacity (s.generatorPool i) packets).map
            fun pool => (pool.map .packet, [])) := by
  cases packets with
  | nil => exact absurd hcall (by simp [batchCall])
  | cons first rest =>
      obtain ⟨rfl, rfl⟩ := Prod.mk.inj (Option.some.inj hcall)
      exact ⟨first.pool, rfl, rfl, fifoCall_batch_map .packet (s.generatorPool first.pool) hlen⟩

/-- A full batch has a first packet. -/
theorem exists_batchCall {packets : List PacketT} (hlen : packets.length = batch) :
    ∃ id k, batchCall packets = some (id, k) := by
  cases packets with
  | nil => exact absurd hlen (by decide)
  | cons first rest => exact ⟨_, _, rfl⟩

/-- A parser's call. -/
theorem Plays.parserAccess (h : Plays mode gNums pNums numbers.toNat w s) {q : Nat}
    (hq : q < pNums)
    (hst : (fifoPipeline mode cfg gNums pNums numbers).step w (.access (4 * q + 1))
      = some (w', u)) :
    Followed mode cfg gNums pNums numbers s w' := by
  obtain ⟨hloc, hfull⟩ := h.parser q hq
  have hdiv : (4 * q + 1) / 4 = q := by omega
  cases hpc : s.parserPc q with
  | idle =>
      rw [hpc] at hloc
      have hwants : (ThreadPc.parser .idle).wants numbers (4 * q + 1)
          = some (.parserQueue q, .dequeueMultiple 64) := by
        rw [ThreadPc.wants, hdiv]
        rfl
      obtain rfl | ⟨l, es, hx, rfl⟩ := h.access hst hloc hwants
        (fifoCall_dequeueMultiple_map .packet (s.parserQueue q))
      · exact h.followed
      · obtain ⟨⟨packets, queue⟩, hpop, heq⟩ := Option.map_eq_some_iff.mp hx
        obtain ⟨rfl, rfl⟩ := Prod.mk.inj heq
        have hresume : (ThreadPc.parser .idle).resume mode (4 * q + 1)
            (0, packets.map .packet) = .parser (.taken packets) := by
          simp only [ThreadPc.resume, ParserPc.succeed, filterMap_packet?, if_true]
        have hstep : parserStep numbers s q 0
            = some { s with
                parserQueue := Function.update s.parserQueue q queue
                parserPc := Function.update s.parserPc q (.taken packets) } := by
          simp only [parserStep, hpc, hpop, Option.map_some]
        rw [hresume]
        exact parser_follows hq hstep (h.parserMoves hq rfl rfl rfl rfl rfl
          (content_parserQueue rfl rfl rfl rfl) (Fifo.pop_eq_some.mp hpop).1)
  | taken packets =>
      rw [no_access (by rw [hloc, hpc]; rfl)] at hst
      exact absurd hst (by simp)
  | waitFlows packets =>
      rw [hpc] at hloc hfull
      have hwants : (ThreadPc.parser (.waitFlows packets)).wants numbers (4 * q + 1)
          = some (.parserPool q, .dequeueMultiple 64) := by
        rw [ThreadPc.wants, hdiv]
        rfl
      obtain rfl | ⟨l, es, hx, rfl⟩ := h.access hst hloc hwants
        (fifoCall_dequeueMultiple_map .flow (s.parserPool q))
      · exact h.followed
      · obtain ⟨⟨flows, pool⟩, hpop, heq⟩ := Option.map_eq_some_iff.mp hx
        obtain ⟨rfl, rfl⟩ := Prod.mk.inj heq
        have hresume : (ThreadPc.parser (.waitFlows packets)).resume mode (4 * q + 1)
            (0, flows.map .flow)
              = .parser (.built packets (List.zipWith makeFlowItemTcp flows packets)) := by
          simp only [ThreadPc.resume, ParserPc.succeed, filterMap_flow?, if_true]
        have hstep : parserStep numbers s q 0
            = some { s with
                parserPool := Function.update s.parserPool q pool
                parserPc := Function.update s.parserPc q
                  (.built packets (List.zipWith makeFlowItemTcp flows packets)) } := by
          simp only [parserStep, hpc, hpop, Option.map_some]
        -- as many flows as packets, so that none is left over
        have hlen : (List.zipWith makeFlowItemTcp flows packets).length = batch := by
          rw [List.length_zipWith, (Fifo.pop_eq_some.mp hpop).1, hfull, Nat.min_self]
        rw [hresume]
        exact parser_follows hq hstep (h.parserMoves hq rfl rfl rfl rfl rfl
          (content_parserPool rfl rfl rfl rfl) ⟨hfull, hlen⟩)
  | built packets flows =>
      rw [no_access (by rw [hloc, hpc]; rfl)] at hst
      exact absurd hst (by simp)
  | forward flows =>
      rw [hpc] at hloc
      cases flows with
      | nil =>
          rw [no_access (by rw [hloc]; rfl)] at hst
          exact absurd hst (by simp)
      | cons flow rest =>
          by_cases hnumbers : 0 < numbers.toNat
          · have hwants : (ThreadPc.parser (.forward (flow :: rest))).wants numbers (4 * q + 1)
                = some (.managerQueue (hashIndex flow.key numbers).toNat,
                    .enqueue (.flow flow)) := by
              simp only [ThreadPc.wants, ParserPc.wants, if_pos hnumbers]
            obtain rfl | ⟨l, es, hx, rfl⟩ := h.access hst hloc hwants
              (fifoCall_enqueue_map .flow (s.managerQueue (hashIndex flow.key numbers).toNat) flow)
            · exact h.followed
            · obtain ⟨queue, hpush, heq⟩ := Option.map_eq_some_iff.mp hx
              obtain ⟨rfl, rfl⟩ := Prod.mk.inj heq
              have hstep : parserStep numbers s q 0
                  = some { s with
                      managerQueue := Function.update s.managerQueue
                        (hashIndex flow.key numbers).toNat queue
                      parserPc := Function.update s.parserPc q (.forward rest) } := by
                simp only [parserStep, hpc, if_pos hnumbers, hpush, Option.map_some]
              exact parser_follows hq hstep (h.parserMoves hq rfl rfl rfl rfl rfl
                (content_managerQueue rfl rfl rfl rfl) trivial)
          · rw [no_access (by rw [hloc, ThreadPc.wants, ParserPc.wants, if_neg hnumbers])] at hst
            exact absurd hst (by simp)
  | returnBatch packets flows =>
      rw [hpc] at hloc hfull
      -- the whole batch goes to the pool of its first packet
      obtain ⟨id, k, hcall⟩ := exists_batchCall hfull.1
      obtain ⟨i, rfl, hreturn, hanswer⟩ := batchCall_answer (s := s) hcall hfull.1
      obtain rfl | ⟨l, es, hx, rfl⟩ := h.access hst hloc hcall hanswer
      · exact h.followed
      · obtain ⟨pool, hpush, heq⟩ := Option.map_eq_some_iff.mp hx
        obtain ⟨rfl, rfl⟩ := Prod.mk.inj heq
        have hstep : parserStep numbers s q 0
            = some { s with
                generatorPool := Function.update s.generatorPool i pool
                parserPc := Function.update s.parserPc q (.returnFlows flows) } := by
          simp only [parserStep, hpc, hreturn, Stages.returnPackets, hpush, Option.map_some]
        exact parser_follows hq hstep (h.parserMoves hq rfl rfl rfl rfl rfl
          (content_generatorPool rfl rfl rfl rfl) hfull.2)
  | returnFlows flows =>
      rw [hpc] at hloc hfull
      have hwants : (ThreadPc.parser (.returnFlows flows)).wants numbers (4 * q + 1)
          = some (.parserPool q, .enqueueMultiple (arrayOf (flows.map .flow)) 64) := by
        rw [ThreadPc.wants, hdiv]
        rfl
      obtain rfl | ⟨l, es, hx, rfl⟩ := h.access hst hloc hwants
        (fifoCall_batch_map .flow (s.parserPool q) hfull)
      · exact h.followed
      · obtain ⟨pool, hpush, heq⟩ := Option.map_eq_some_iff.mp hx
        obtain ⟨rfl, rfl⟩ := Prod.mk.inj heq
        have hstep : parserStep numbers s q 0
            = some { s with
                parserPool := Function.update s.parserPool q pool
                parserPc := Function.update s.parserPc q .idle } := by
          simp only [parserStep, hpc, Stages.returnFlows, hpush, Option.map_some]
        exact parser_follows hq hstep (h.parserMoves hq rfl rfl rfl rfl rfl
          (content_parserPool rfl rfl rfl rfl) trivial)
  | returnPackets packets =>
      rw [hpc] at hloc hfull
      obtain ⟨id, k, hcall⟩ := exists_batchCall hfull
      obtain ⟨i, rfl, hreturn, hanswer⟩ := batchCall_answer (s := s) hcall hfull
      obtain rfl | ⟨l, es, hx, rfl⟩ := h.access hst hloc hcall hanswer
      · exact h.followed
      · obtain ⟨pool, hpush, heq⟩ := Option.map_eq_some_iff.mp hx
        obtain ⟨rfl, rfl⟩ := Prod.mk.inj heq
        have hstep : parserStep numbers s q 0
            = some { s with
                generatorPool := Function.update s.generatorPool i pool
                parserPc := Function.update s.parserPc q .idle } := by
          simp only [parserStep, hpc, hreturn, Stages.returnPackets, hpush, Option.map_some]
        exact parser_follows hq hstep (h.parserMoves hq rfl rfl rfl rfl rfl
          (content_generatorPool rfl rfl rfl rfl) trivial)

/-- A parser between two calls. -/
theorem Plays.parserMove (h : Plays mode gNums pNums numbers.toNat w s) {q : Nat}
    (hq : q < pNums) {read : ThreadRead}
    (hst : (fifoPipeline mode cfg gNums pNums numbers).step w (.move (4 * q + 1) read)
      = some (w', u)) :
    Followed mode cfg gNums pNums numbers s w' := by
  obtain ⟨hloc, hfull⟩ := h.parser q hq
  obtain ⟨r, hmove, rfl⟩ := fifoPipeline_move hst
  rw [hloc] at hmove
  obtain ⟨pc', hpc', rfl⟩ := Option.map_eq_some_iff.mp hmove
  cases hpc : s.parserPc q with
  | taken packets =>
      rw [hpc] at hpc' hfull
      cases read with
      | depth pipeDepth =>
          by_cases hdepth : pipeDepth > 2
          · simp only [ParserPc.move, if_pos hdepth, Option.some.injEq] at hpc'
            have hstep : parserStep numbers s q pipeDepth
                = some { s with
                    parserPc := Function.update s.parserPc q (.waitFlows packets) } := by
              simp only [parserStep, hpc, if_pos hdepth]
            rw [← hpc']
            exact parser_follows hq hstep (h.parserMoves hq rfl rfl rfl rfl rfl h.content hfull)
          · simp only [ParserPc.move, if_neg hdepth, Option.some.injEq] at hpc'
            have hstep : parserStep numbers s q pipeDepth
                = some { s with
                    parserPc := Function.update s.parserPc q (.returnPackets packets) } := by
              simp only [parserStep, hpc, if_neg hdepth]
            rw [← hpc']
            exact parser_follows hq hstep (h.parserMoves hq rfl rfl rfl rfl rfl h.content hfull)
      | input _ => exact absurd hpc' (by simp [ParserPc.move])
      | insert _ => exact absurd hpc' (by simp [ParserPc.move])
      | clean _ _ _ _ => exact absurd hpc' (by simp [ParserPc.move])
      | nothing => exact absurd hpc' (by simp [ParserPc.move])
  | built packets flows =>
      rw [hpc] at hpc' hfull
      cases read with
      | depth pipeDepth =>
          by_cases hdepth : pipeDepth > 3
          · simp only [ParserPc.move, if_pos hdepth, Option.some.injEq] at hpc'
            have hstep : parserStep numbers s q pipeDepth
                = some { s with
                    parserPc := Function.update s.parserPc q (.forward flows) } := by
              simp only [parserStep, hpc, if_pos hdepth]
            rw [← hpc']
            exact parser_follows hq hstep (h.parserMoves hq rfl rfl rfl rfl rfl h.content trivial)
          · simp only [ParserPc.move, if_neg hdepth, Option.some.injEq] at hpc'
            have hstep : parserStep numbers s q pipeDepth
                = some { s with
                    parserPc := Function.update s.parserPc q (.returnBatch packets flows) } := by
              simp only [parserStep, hpc, if_neg hdepth]
            rw [← hpc']
            exact parser_follows hq hstep (h.parserMoves hq rfl rfl rfl rfl rfl h.content hfull)
      | input _ => exact absurd hpc' (by simp [ParserPc.move])
      | insert _ => exact absurd hpc' (by simp [ParserPc.move])
      | clean _ _ _ _ => exact absurd hpc' (by simp [ParserPc.move])
      | nothing => exact absurd hpc' (by simp [ParserPc.move])
  | forward flows =>
      rw [hpc] at hpc'
      cases flows with
      | nil =>
          -- all flows are with their managers
          simp only [ParserPc.move, Option.some.injEq] at hpc'
          have hstep : parserStep numbers s q 0
              = some { s with parserPc := Function.update s.parserPc q .idle } := by
            simp only [parserStep, hpc]
          rw [← hpc']
          exact parser_follows hq hstep (h.parserMoves hq rfl rfl rfl rfl rfl h.content trivial)
      | cons flow rest => exact absurd hpc' (by simp [ParserPc.move])
  | idle => exact absurd (hpc ▸ hpc') (by simp [ParserPc.move])
  | waitFlows packets => exact absurd (hpc ▸ hpc') (by simp [ParserPc.move])
  | returnBatch packets flows => exact absurd (hpc ▸ hpc') (by simp [ParserPc.move])
  | returnFlows flows => exact absurd (hpc ▸ hpc') (by simp [ParserPc.move])
  | returnPackets packets => exact absurd (hpc ▸ hpc') (by simp [ParserPc.move])

/-- A manager's call. -/
theorem Plays.managerAccess (h : Plays mode gNums pNums numbers.toNat w s) {m : Nat}
    (hm : m < numbers.toNat)
    (hst : (fifoPipeline mode cfg gNums pNums numbers).step w (.access (4 * m + 2))
      = some (w', u)) :
    Followed mode cfg gNums pNums numbers s w' := by
  have hloc := h.manager m hm
  have hdiv : (4 * m + 2) / 4 = m := by omega
  cases hpc : s.managerPc m with
  | idle =>
      rw [hpc] at hloc
      -- a manager finds its queue by its thread
      have hwants : (ThreadPc.manager .idle).wants numbers (4 * m + 2)
          = some (.managerQueue m, .dequeue) := by
        rw [ThreadPc.wants, hdiv]
        rfl
      obtain rfl | ⟨l, es, hx, rfl⟩ := h.access hst hloc hwants
        (fifoCall_dequeue_map .flow (s.managerQueue m))
      · exact h.followed
      · obtain ⟨⟨flow, queue⟩, htake, heq⟩ := Option.map_eq_some_iff.mp hx
        obtain ⟨rfl, rfl⟩ := Prod.mk.inj heq
        have hstep : managerStep cfg s m 0 0
            = some { s with
                managerQueue := Function.update s.managerQueue m queue
                managerPc := Function.update s.managerPc m (.taken flow) } := by
          simp only [managerStep, hpc, htake, Option.map_some]
        exact manager_follows hm hstep (h.managerMoves hm rfl rfl rfl rfl h.table
          (content_managerQueue rfl rfl rfl rfl))
  | taken flow =>
      rw [no_access (by rw [hloc, hpc]; rfl)] at hst
      exact absurd hst (by simp)
  | inserting flow =>
      rw [no_access (by rw [hloc, hpc]; rfl)] at hst
      exact absurd hst (by simp)
  | returnPacket flow =>
      rw [hpc] at hloc
      obtain rfl | ⟨l, es, hx, rfl⟩ := h.access hst hloc rfl
        (fifoCall_enqueue_map .packet (s.generatorPool flow.packet.pool) flow.packet)
      · exact h.followed
      · obtain ⟨pool, hpush, heq⟩ := Option.map_eq_some_iff.mp hx
        obtain ⟨rfl, rfl⟩ := Prod.mk.inj heq
        have hstep : managerStep cfg s m 0 0
            = some { s with
                generatorPool := Function.update s.generatorPool flow.packet.pool pool
                managerPc := Function.update s.managerPc m (.returnFlow flow) } := by
          simp only [managerStep, hpc, Stages.returnPackets, hpush, Option.map_some]
        exact manager_follows hm hstep (h.managerMoves hm rfl rfl rfl rfl h.table
          (content_generatorPool rfl rfl rfl rfl))
  | returnFlow flow =>
      rw [hpc] at hloc
      obtain rfl | ⟨l, es, hx, rfl⟩ := h.access hst hloc rfl
        (fifoCall_enqueue_map .flow (s.parserPool flow.pool) flow)
      · exact h.followed
      · obtain ⟨pool, hpush, heq⟩ := Option.map_eq_some_iff.mp hx
        obtain ⟨rfl, rfl⟩ := Prod.mk.inj heq
        have hstep : managerStep cfg s m 0 0
            = some { s with
                parserPool := Function.update s.parserPool flow.pool pool
                managerPc := Function.update s.managerPc m .idle } := by
          simp only [managerStep, hpc, Stages.returnFlows, hpush, Option.map_some]
        exact manager_follows hm hstep (h.managerMoves hm rfl rfl rfl rfl h.table
          (content_parserPool rfl rfl rfl rfl))

/-- A manager between two calls. -/
theorem Plays.managerMove (h : Plays mode gNums pNums numbers.toNat w s) {m : Nat}
    (hm : m < numbers.toNat) {read : ThreadRead}
    (hst : (fifoPipeline mode cfg gNums pNums numbers).step w (.move (4 * m + 2) read)
      = some (w', u)) :
    Followed mode cfg gNums pNums numbers s w' := by
  have hloc := h.manager m hm
  have hdiv : (4 * m + 2) / 4 = m := by omega
  obtain ⟨r, hmove, rfl⟩ := fifoPipeline_move hst
  cases hpc : s.managerPc m with
  | taken flow =>
      rw [hloc, hpc] at hmove
      cases read with
      | depth pipeDepth =>
          by_cases hdepth : pipeDepth > 4
          · simp only [ThreadPc.move, if_pos hdepth, Option.some.injEq] at hmove
            have hstep : managerStep cfg s m pipeDepth 0
                = some { s with
                    managerPc := Function.update s.managerPc m (.inserting flow) } := by
              simp only [managerStep, hpc, if_pos hdepth]
            rw [← hmove]
            exact manager_follows hm hstep (h.managerMoves hm rfl rfl rfl rfl h.table h.content)
          · simp only [ThreadPc.move, if_neg hdepth, Option.some.injEq] at hmove
            have hstep : managerStep cfg s m pipeDepth 0
                = some { s with
                    managerPc := Function.update s.managerPc m (.returnPacket flow) } := by
              simp only [managerStep, hpc, if_neg hdepth]
            rw [← hmove]
            exact manager_follows hm hstep (h.managerMoves hm rfl rfl rfl rfl h.table h.content)
      | input _ => exact absurd hmove (by simp [ThreadPc.move])
      | insert _ => exact absurd hmove (by simp [ThreadPc.move])
      | clean _ _ _ _ => exact absurd hmove (by simp [ThreadPc.move])
      | nothing => exact absurd hmove (by simp [ThreadPc.move])
  | inserting flow =>
      rw [hloc, hpc, h.table] at hmove
      cases read with
      | insert now =>
          -- `hash_add_item` works on the manager's own table
          simp only [ThreadPc.move, hdiv] at hmove
          obtain ⟨added, hadd, rfl⟩ := Option.map_eq_some_iff.mp hmove
          have hstep : managerStep cfg s m 0 now
              = some { s with
                  table := Function.update s.table m added.1
                  managerPc := Function.update s.managerPc m (.returnPacket flow) } := by
            simp only [managerStep, hpc, hadd, Option.map_some]
          exact manager_follows hm hstep (h.managerMoves hm rfl rfl rfl rfl rfl h.content)
      | input _ => exact absurd hmove (by simp [ThreadPc.move])
      | depth _ => exact absurd hmove (by simp [ThreadPc.move])
      | clean _ _ _ _ => exact absurd hmove (by simp [ThreadPc.move])
      | nothing => exact absurd hmove (by simp [ThreadPc.move])
  | idle =>
      rw [hloc, hpc] at hmove
      exact absurd hmove (by simp [ThreadPc.move])
  | returnPacket flow =>
      rw [hloc, hpc] at hmove
      exact absurd hmove (by simp [ThreadPc.move])
  | returnFlow flow =>
      rw [hloc, hpc] at hmove
      exact absurd hmove (by simp [ThreadPc.move])

/-- The cleaner expires a bucket. -/
theorem Plays.cleanerMove (h : Plays mode gNums pNums numbers.toNat w s)
    (hloc : w.loc t = .cleaner) {read : ThreadRead}
    (hst : (fifoPipeline mode cfg gNums pNums numbers).step w (.move t read) = some (w', u)) :
    Followed mode cfg gNums pNums numbers s w' := by
  obtain ⟨r, hmove, rfl⟩ := fifoPipeline_move hst
  rw [hloc, h.table] at hmove
  cases read with
  | clean m b now destoryTime =>
      simp only [ThreadPc.move, Option.ite_none_right_eq_some] at hmove
      obtain ⟨hbucket, hmove⟩ := hmove
      obtain ⟨swept, hswept, rfl⟩ := Option.map_eq_some_iff.mp hmove
      refine ⟨{ s with table := Function.update s.table m swept },
        Machine.Reaches.refl.step (a := .clean m b now destoryTime) (r := ()) trivial ?_, ?_⟩
      · simp only [pipeline, if_pos hbucket, hswept, Option.map_some]
      · -- it stays where it is, between two buckets
        have hstay : Function.update w.loc t ThreadPc.cleaner = w.loc := by
          rw [← hloc, Function.update_eq_self]
        dsimp only
        rw [hstay]
        exact { h with table := rfl }
  | input _ => exact absurd hmove (by simp [ThreadPc.move])
  | depth _ => exact absurd hmove (by simp [ThreadPc.move])
  | insert _ => exact absurd hmove (by simp [ThreadPc.move])
  | nothing => exact absurd hmove (by simp [ThreadPc.move])

/-- **The threads on FIFOs are the pipeline**: a step of theirs is a step of
    it, or a try that is refused. -/
theorem plays_step (h : Plays mode gNums pNums numbers.toNat w s) {a : WholeAct ThreadRead}
    (hst : (fifoPipeline mode cfg gNums pNums numbers).step w a = some (w', u)) :
    Followed mode cfg gNums pNums numbers s w' := by
  cases a with
  | access t =>
      obtain ⟨i, hi, rfl⟩ | ⟨q, hq, rfl⟩ | ⟨m, hm, rfl⟩ | hloc | hloc := h.cases t
      · exact h.generatorAccess hi hst
      · exact h.parserAccess hq hst
      · exact h.managerAccess hm hst
      · rw [no_access (by rw [hloc]; rfl)] at hst
        exact absurd hst (by simp)
      · rw [no_access (by rw [hloc]; rfl)] at hst
        exact absurd hst (by simp)
  | move t read =>
      obtain ⟨i, hi, rfl⟩ | ⟨q, hq, rfl⟩ | ⟨m, hm, rfl⟩ | hloc | hloc := h.cases t
      · exact h.generatorMove hi hst
      · exact h.parserMove hq hst
      · exact h.managerMove hm hst
      · exact h.cleanerMove hloc hst
      · obtain ⟨r, hmove, -⟩ := fifoPipeline_move hst
        rw [hloc] at hmove
        exact absurd hmove (by simp [ThreadPc.move])

/-- The same for a run. -/
theorem plays_reaches (h : Plays mode gNums pNums numbers.toNat w s)
    (hreach : (fifoPipeline mode cfg gNums pNums numbers).Reaches (fun _ => True) w w') :
    Followed mode cfg gNums pNums numbers s w' := by
  refine hreach.induction (Followed mode cfg gNums pNums numbers s) ?_ h.followed
  rintro x a x' r ⟨s₁, hs₁, hplays⟩ _ hst
  obtain ⟨s₂, hs₂, hplays₂⟩ := plays_step hplays hst
  exact ⟨s₂, hs₁.trans hs₂, hplays₂⟩

end Step

/-- Every thread starts its loop. -/
theorem plays_start (gNums pNums mNums : Nat) (mode : Mode) (pktlen : UInt32)
    (handler : PacketT → Nat → UInt8) (packets : Nat → Nat → PacketT)
    (flows : Nat → Nat → FlowItem) (table : Nat → Manager) :
    Plays mode gNums pNums mNums
      ⟨startPc gNums pNums mNums, table,
        (startStages mode pktlen handler packets flows table).content⟩
      (startStages mode pktlen handler packets flows table) where
  table := rfl
  content := rfl
  generator := by
    intro i hi
    refine ⟨none, ?_, fun given h => absurd h (by simp)⟩
    show startPc gNums pNums mNums (4 * i) = .generator .idle i none
    rw [startPc, if_pos ⟨by omega, by omega⟩, show 4 * i / 4 = i by omega]
  parser := by
    intro q hq
    refine ⟨?_, trivial⟩
    show startPc gNums pNums mNums (4 * q + 1) = .parser .idle
    rw [startPc, if_neg (by omega), if_pos (by omega)]
  manager := by
    intro m hm
    show startPc gNums pNums mNums (4 * m + 2) = .manager .idle
    rw [startPc, if_neg (by omega), if_neg (by omega), if_pos (by omega)]
  cleaner := by
    show startPc gNums pNums mNums 3 = .cleaner
    rw [startPc, if_neg (by omega), if_neg (by omega), if_neg (by omega), if_pos rfl]
  absent := by
    intro t hg hp hm h3
    -- `t % 4` says what a thread is, `t / 4` which
    have hgenerator : ¬ (t % 4 = 0 ∧ t / 4 < gNums) :=
      fun ⟨hmod, hlt⟩ => hg (t / 4) hlt (by omega)
    have hparser : ¬ (t % 4 = 1 ∧ t / 4 < pNums) :=
      fun ⟨hmod, hlt⟩ => hp (t / 4) hlt (by omega)
    have hmanager : ¬ (t % 4 = 2 ∧ t / 4 < mNums) :=
      fun ⟨hmod, hlt⟩ => hm (t / 4) hlt (by omega)
    show startPc gNums pNums mNums t = .absent
    rw [startPc, if_neg hgenerator, if_neg hparser, if_neg hmanager, if_neg h3]

/-! ## §4. The threads on their queues are the pipeline. -/

/-- A queue that nobody is inside. -/
def atRest (queue : IntelQueue Element) : SharedQueue Element :=
  { queue := queue, enqueueMutex := none, dequeueMutex := none, place := fun _ => .outside }

theorem coupled_atRest {queue : IntelQueue Element} {content : List Element}
    (h : Represents 10 queue content) : Coupled 10 (atRest queue) (fresh content) [] where
  occupancy_eq := h.occupancy_eq
  length_le := h.length_le
  holds := by
    rw [List.append_nil]
    exact h.holds
  threads := fun _ => rfl
  sender_owns := fun t ht => absurd ht (by simp [atRest, Place.sends])
  receiver_owns := fun t ht => absurd ht (by simp [atRest, Place.receives])
  unlocked := fun _ => rfl

/-- The program when all its threads enter their loops, on the queues `ring`. -/
def startRings (gNums pNums mNums : Nat) (table : Nat → Manager)
    (ring : QueueId → IntelQueue Element) :
    System QueueId ThreadPc (Nat → Manager) (SharedQueue Element) :=
  ⟨⟨startPc gNums pNums mNums, table, fun _ => none⟩, fun id => atRest (ring id)⟩

/-- **The program on its queues is at the stages `s`**: the counters and slots
    of every queue hold what `s` has in it, and a thread that is inside none
    is where `s` has it. -/
structure OnRings (gNums pNums mNums : Nat)
    (y : System QueueId ThreadPc (Nat → Manager) (SharedQueue Element)) (s : Stages) : Prop where
  table : y.front.mem = s.table
  occupancy_eq : ∀ id, occupancy (y.objects id).queue = (s.content id).length
  holds : ∀ id, Holds queueCapacity (y.objects id).queue.node
    (y.objects id).queue.dequeueCount.toNat (s.content id)
  generator : ∀ i < gNums, y.front.inside (4 * i) = none →
    ∃ input, y.front.loc (4 * i) = .generator (s.generatorPc i) (s.nextThreadId i) input
  parser : ∀ q < pNums, y.front.inside (4 * q + 1) = none →
    y.front.loc (4 * q + 1) = .parser (s.parserPc q)
  manager : ∀ m < mNums, y.front.inside (4 * m + 2) = none →
    y.front.loc (4 * m + 2) = .manager (s.managerPc m)

section Refine

variable {mode : Mode} {cfg : Config} {gNums pNums : Nat} {numbers : UInt32}

/-- From the queues over the FIFOs to the stages. -/
theorem onRings_of_plays {gNums pNums mNums : Nat} {mode : Mode}
    {y : System QueueId ThreadPc (Nat → Manager) (SharedQueue Element)}
    {objects : QueueId → Object (List Element) (Call Element) (Reply Element)}
    {p : Client QueueId (Call Element) (Reply Element) ThreadPc (Nat → Manager) ThreadRead}
    {w : Whole QueueId ThreadPc (Nat → Manager) (List Element)} {s : Stages}
    (hcoupled : ∀ id, ∃ stored, Coupled 10 (y.objects id) (objects id) stored)
    (hcollapses : Collapses p ⟨y.front, objects⟩ w) (hplays : Plays mode gNums pNums mNums w s) :
    OnRings gNums pNums mNums y s := by
  have hstate : ∀ id, (objects id).state = s.content id := by
    intro id
    rw [← hplays.content]
    exact (hcollapses.objects id).symm
  have hloc : ∀ t, y.front.inside t = none → y.front.loc t = w.loc t := by
    intro t hin
    have ht := hcollapses.threads t
    simp only [hin] at ht
    exact ht.1.symm
  refine ⟨hcollapses.mem.symm.trans hplays.table, ?_, ?_, ?_, ?_, ?_⟩
  · intro id
    obtain ⟨stored, h⟩ := hcoupled id
    rw [← hstate id]
    exact h.occupancy_eq
  · intro id k hk
    -- the slots of the content come first, those of a batch half stored behind
    obtain ⟨stored, h⟩ := hcoupled id
    rw [← hstate id] at hk
    have hheld := h.holds k (by rw [List.length_append]; omega)
    rw [List.getElem_append_left hk] at hheld
    simp only [← hstate id]
    exact hheld
  · intro i hi hin
    obtain ⟨input, hpc, -⟩ := hplays.generator i hi
    exact ⟨input, (hloc _ hin).trans hpc⟩
  · intro q hq hin
    exact (hloc _ hin).trans (hplays.parser q hq).1
  · intro m hm hin
    exact (hloc _ hin).trans (hplays.manager m hm)

section Run

variable {ring : QueueId → IntelQueue Element}
  {acts : List (SystemAct QueueId (SharedAction Element) ThreadRead)}
  {y : System QueueId ThreadPc (Nat → Manager) (SharedQueue Element)} {us : List Unit}

/-- A run on the queues, with the FIFOs and the stages that go with its end. -/
theorem rings_followed (pktlen : UInt32) (handler : PacketT → Nat → UInt8)
    (packets : Nat → Nat → PacketT) (flows : Nat → Nat → FlowItem) (table : Nat → Manager)
    (hring : ∀ id, Represents 10 (ring id)
      ((startStages mode pktlen handler packets flows table).content id))
    (hfit : (ringPipeline mode cfg gNums pNums numbers).Along
      (ObjectsMeet (workers mode cfg gNums pNums numbers) SharedAction.call (ChecksFit 10))
      (startRings gNums pNums numbers.toNat table ring) acts)
    (hrun : (ringPipeline mode cfg gNums pNums numbers).run
      (startRings gNums pNums numbers.toNat table ring) acts = some (y, us)) :
    ∃ (objects : QueueId → Object (List Element) (Call Element) (Reply Element))
      (w : Whole QueueId ThreadPc (Nat → Manager) (List Element)) (s : Stages),
      (∀ id, ∃ stored, Coupled 10 (y.objects id) (objects id) stored)
      ∧ Collapses (workers mode cfg gNums pNums numbers) ⟨y.front, objects⟩ w
      ∧ (pipeline mode cfg gNums pNums numbers).Reaches (fun _ => True)
        (startStages mode pktlen handler packets flows table) s
      ∧ Plays mode gNums pNums numbers.toNat w s := by
  -- the queues are FIFOs whose calls are one step
  obtain ⟨objects, w, hcoupled, hcollapses, hreach⟩ :=
    whole_of_composed (m := fifo queueCapacity)
      (R := fun s o => ∃ stored, Coupled 10 s o stored)
      (fun _ _ _ _ _ hst => Queue.shared_call_shows hst)
      (fun _ _ _ _ _ h hfits hst => Queue.shared_step_matched (by decide) h hfits hst)
      (fun id => ⟨[], coupled_atRest (hring id)⟩) hfit hrun
  -- and on these the threads are the pipeline
  obtain ⟨s, hs, hplays⟩ := plays_reaches
    (plays_start gNums pNums numbers.toNat mode pktlen handler packets flows table) hreach
  exact ⟨objects, w, s, hcoupled, hcollapses, hs, hplays⟩

/-- **THE QUEUES MAKE NO DIFFERENCE.**  However the loads and stores of all
    threads in all queues and pools interleave, the program is at every moment
    in a state that the pipeline reaches in whole steps. -/
theorem rings_refine (pktlen : UInt32) (handler : PacketT → Nat → UInt8)
    (packets : Nat → Nat → PacketT) (flows : Nat → Nat → FlowItem) (table : Nat → Manager)
    (hring : ∀ id, Represents 10 (ring id)
      ((startStages mode pktlen handler packets flows table).content id))
    (hfit : (ringPipeline mode cfg gNums pNums numbers).Along
      (ObjectsMeet (workers mode cfg gNums pNums numbers) SharedAction.call (ChecksFit 10))
      (startRings gNums pNums numbers.toNat table ring) acts)
    (hrun : (ringPipeline mode cfg gNums pNums numbers).run
      (startRings gNums pNums numbers.toNat table ring) acts = some (y, us)) :
    ∃ s, (pipeline mode cfg gNums pNums numbers).Reaches (fun _ => True)
        (startStages mode pktlen handler packets flows table) s
      ∧ OnRings gNums pNums numbers.toNat y s := by
  obtain ⟨objects, w, s, hcoupled, hcollapses, hs, hplays⟩ :=
    rings_followed pktlen handler packets flows table hring hfit hrun
  exact ⟨s, hs, onRings_of_plays hcoupled hcollapses hplays⟩

end Run

end Refine

/-- A queue that has taken in as many elements as it holds. -/
def full (node : Nat → Element) : IntelQueue Element :=
  { node := node, enqueueCount := 1024, dequeueCount := 0, length := 1024 }

theorem represents_full {node : Nat → Element} {content : List Element}
    (hlen : content.length = queueCapacity)
    (hnode : ∀ k, (hk : k < content.length) → node k = content[k]) :
    Represents 10 (full node) content where
  occupancy_eq := by
    rw [hlen, Queue.occupancy_eq]
    show (2 ^ 64 - 0 + 1024) % 2 ^ 64 = 1024
    norm_num
  length_le := by
    rw [hlen]
    decide
  holds := by
    intro k hk
    have hslot : ((full node).dequeueCount.toNat + k) % 2 ^ 10 = k := by
      rw [hlen, queueCapacity] at hk
      show (0 + k) % 1024 = k
      omega
    rw [hslot]
    exact hnode k hk
  length_field := by
    rw [hlen]
    rfl

/-- The queues of one generator, one parser and one manager when they start. -/
def firstRing : QueueId → IntelQueue Element
  | .generatorPool i => full fun k =>
      .packet (preparePacket .generator i 60 (fun _ _ => 0) { blankPacket with addr := (i, k) })
  | .parserPool q => full fun k => .flow { blankFlow with addr := (q, k), pool := q }
  | .parserQueue _ | .managerQueue _ => Queue.init fun _ => .packet blankPacket

theorem represents_firstRing (id : QueueId) :
    Represents 10 (firstRing id) (oneOfEach.content id) := by
  cases id with
  | generatorPool i =>
      refine represents_full ?_ ?_
      · rw [Stages.content, List.length_map, oneOfEach, startStages_generatorPool_length]
      · intro k hk
        simp only [Stages.content, oneOfEach, startStages_generatorPool, initSignleGenerator,
          List.getElem_map, List.getElem_range]
  | parserPool q =>
      refine represents_full ?_ ?_
      · rw [Stages.content, List.length_map, oneOfEach, startStages_parserPool, initSingleParser,
          List.length_map, List.length_range]
      · intro k hk
        simp only [Stages.content, oneOfEach, startStages_parserPool, initSingleParser,
          List.getElem_map, List.getElem_range]
  | parserQueue q => exact Queue.represents_init 10 _
  | managerQueue m => exact Queue.represents_init 10 _

/-- The parser finds its queue empty, while the generator takes its first
    packet, reads a depth of 0 and starts to give it back. -/
def firstReturn : List (SystemAct QueueId (SharedAction Element) ThreadRead) :=
  [.move 0 (.input (.counters fun _ => 0)), .call 0, .call 1, .object (.parserQueue 0) (.step 1),
    .object (.generatorPool 0) (.step 0), .object (.parserQueue 0) (.step 1)]
    ++ List.replicate 6 (.object (.generatorPool 0) (.step 0))
    ++ [.move 0 (.depth 0), .call 0, .object (.generatorPool 0) (.step 0),
      .object (.parserQueue 0) (.step 1)]

theorem firstReturn_run :
    ∃ y us, (ringPipeline .generator (Session.sourceConfig 65536 1000) 1 1 1).run
        (startRings 1 1 1 Session.freshManager firstRing) firstReturn = some (y, us)
      ∧ y.front.inside 1 = none
      ∧ ∃ data, (y.objects (.generatorPool 0)).place 0 = .sending (.check data) :=
  ⟨_, _, rfl, rfl, _, rfl⟩

theorem firstReturn_fits :
    (ringPipeline .generator (Session.sourceConfig 65536 1000) 1 1 1).Along
      (ObjectsMeet (workers .generator (Session.sourceConfig 65536 1000) 1 1 1)
        SharedAction.call (ChecksFit 10))
      (startRings 1 1 1 Session.freshManager firstRing) firstReturn := by
  let m := ringPipeline .generator (Session.sourceConfig 65536 1000) 1 1 1
  have hempty : Queue.Fits 10 (firstRing (.parserQueue 0)) (.dequeueMultiple 64) := by
    rw [firstRing, Queue.Fits, if_neg (by decide)]
    decide
  unfold firstReturn
  refine (m.along_cons rfl).mpr ⟨trivial, ?_⟩
  iterate 2 refine (m.along_cons rfl).mpr ⟨fun _ _ _ => trivial, ?_⟩
  iterate 2 refine (m.along_cons rfl).mpr ⟨trivial, ?_⟩
  -- the parser's check is the one batch
  refine (m.along_cons rfl).mpr ⟨?_, ?_⟩
  · show Queue.Fits 10 (firstRing (.parserQueue 0)) (.dequeueMultiple 64)
    exact hempty
  iterate 7 refine (m.along_cons rfl).mpr ⟨trivial, ?_⟩
  refine (m.along_cons rfl).mpr ⟨fun _ _ _ => trivial, ?_⟩
  iterate 2 refine (m.along_cons rfl).mpr ⟨trivial, ?_⟩
  exact trivial

/-- The parser is where it started. -/
theorem firstReturn_refines :
    ∃ y s, y.front.inside 1 = none
      ∧ (pipeline .generator (Session.sourceConfig 65536 1000) 1 1 1).Reaches (fun _ => True)
        oneOfEach s
      ∧ OnRings 1 1 1 y s := by
  obtain ⟨y, us, hrun, hparser, -⟩ := firstReturn_run
  obtain ⟨s, hs, hon⟩ := rings_refine 60 (fun _ _ => 0) (fun _ _ => blankPacket)
    (fun _ _ => blankFlow) Session.freshManager represents_firstRing firstReturn_fits hrun
  exact ⟨y, s, hparser, hs, hon⟩

/-! ## §5. Enqueues that are never refused. -/

/-- A call that brings elements finds room for them. -/
def RoomFor (len : Nat) : Call Element → Prop
  | .enqueue _ => len + 1 ≤ queueCapacity
  | .enqueueMultiple _ n => len + n.toNat ≤ queueCapacity
  | .dequeue | .dequeueMultiple _ => True

theorem room_of_returnPackets {s : Stages} {pool : Nat} {packets : List PacketT}
    (h : (s.returnPackets pool packets).isSome) :
    (s.content (.generatorPool pool)).length + packets.length ≤ queueCapacity := by
  obtain ⟨s', hs'⟩ := Option.isSome_iff_exists.mp h
  obtain ⟨l, hpush, -⟩ := Option.map_eq_some_iff.mp hs'
  rw [Stages.content, List.length_map]
  exact (Fifo.push_eq_some.mp hpush).1

theorem room_of_returnFlows {s : Stages} {pool : Nat} {flows : List FlowItem}
    (h : (s.returnFlows pool flows).isSome) :
    (s.content (.parserPool pool)).length + flows.length ≤ queueCapacity := by
  obtain ⟨s', hs'⟩ := Option.isSome_iff_exists.mp h
  obtain ⟨l, hpush, -⟩ := Option.map_eq_some_iff.mp hs'
  rw [Stages.content, List.length_map]
  exact (Fifo.push_eq_some.mp hpush).1

/-- The same for a batch, whose call says 64. -/
theorem room_of_returnBatch {s : Stages} {packets : List PacketT} {id : QueueId}
    {k : Call Element} (hcall : batchCall packets = some (id, k)) (hlen : packets.length = batch)
    (h : (s.returnBatch packets).isSome) : RoomFor (s.content id).length k := by
  cases packets with
  | nil => exact absurd hcall (by simp [batchCall])
  | cons first rest =>
      obtain ⟨rfl, rfl⟩ := Prod.mk.inj (Option.some.inj hcall)
      have hroom : (s.content (.generatorPool first.pool)).length + (first :: rest).length
          ≤ queueCapacity := room_of_returnPackets h
      rw [hlen] at hroom
      exact hroom

section Room

variable {mode : Mode} {cfg : Config} {gNums pNums : Nat} {numbers : UInt32} {s : Stages}
  {w : Whole QueueId ThreadPc (Nat → Manager) (List Element)} {t : Nat} {id : QueueId}
  {k : Call Element}

/-- **Only the managers' queues can be full** for a thread that is at a call. -/
theorem Plays.room (h : Plays mode gNums pNums numbers.toNat w s)
    (hs : PipelineInv mode gNums pNums numbers s) (hg : 0 < gNums)
    (hwants : (w.loc t).wants numbers t = some (id, k)) (hid : ∀ m, id ≠ .managerQueue m) :
    RoomFor (s.content id).length k := by
  obtain ⟨i, hi, rfl⟩ | ⟨q, hq, rfl⟩ | ⟨m, hm, rfl⟩ | hloc | hloc := h.cases t
  · obtain ⟨input, hloc, -⟩ := h.generator i hi
    rw [hloc] at hwants
    cases hpc : s.generatorPc i with
    | idle =>
        rw [hpc] at hwants
        obtain ⟨given, -, heq⟩ := Option.map_eq_some_iff.mp hwants
        rw [← (Prod.mk.inj heq).2]
        trivial
    | filled packet => exact absurd (hpc ▸ hwants) (by simp [ThreadPc.wants, GeneratorPc.wants])
    | sending parser packet =>
        rw [hpc] at hwants
        obtain ⟨rfl, rfl⟩ := Prod.mk.inj (Option.some.inj hwants)
        have hroom := hs.queue_room hi hpc
        show (s.content (.parserQueue parser)).length + 1 ≤ queueCapacity
        rw [Stages.content, List.length_map]
        exact hroom
    | returning packet =>
        rw [hpc] at hwants
        obtain ⟨rfl, rfl⟩ := Prod.mk.inj (Option.some.inj hwants)
        exact room_of_returnPackets (hs.generator_return hi hpc)
  · obtain ⟨hloc, -⟩ := h.parser q hq
    rw [hloc] at hwants
    have hown := hs.owned.parserPc q hq
    cases hpc : s.parserPc q with
    | idle =>
        rw [hpc] at hwants
        rw [← (Prod.mk.inj (Option.some.inj hwants)).2]
        trivial
    | taken packets => exact absurd (hpc ▸ hwants) (by simp [ThreadPc.wants, ParserPc.wants])
    | waitFlows packets =>
        rw [hpc] at hwants
        rw [← (Prod.mk.inj (Option.some.inj hwants)).2]
        trivial
    | built packets flows =>
        exact absurd (hpc ▸ hwants) (by simp [ThreadPc.wants, ParserPc.wants])
    | forward flows =>
        rw [hpc] at hwants
        cases flows with
        | nil => exact absurd hwants (by simp [ThreadPc.wants, ParserPc.wants])
        | cons flow rest =>
            -- the one queue that others fill as well
            simp only [ThreadPc.wants, ParserPc.wants, Option.ite_none_right_eq_some,
              Option.some.injEq, Prod.mk.injEq] at hwants
            exact absurd hwants.2.1.symm (hid _)
    | returnBatch packets flows =>
        rw [hpc] at hwants hown
        exact room_of_returnBatch hwants hown.1
          (hs.batch_return hg hq hown.1 hown.2.1 (by rw [hpc]; rfl))
    | returnFlows flows =>
        obtain ⟨-, hfull⟩ := h.parser q hq
        rw [hpc] at hwants hfull
        have hdiv : (4 * q + 1) / 4 = q := by omega
        rw [ThreadPc.wants, hdiv] at hwants
        obtain ⟨rfl, rfl⟩ := Prod.mk.inj (Option.some.inj hwants)
        have hroom := room_of_returnFlows (hs.flows_return hq hpc)
        have hlen : flows.length = batch := hfull
        rw [hlen] at hroom
        exact hroom
    | returnPackets packets =>
        rw [hpc] at hwants hown
        exact room_of_returnBatch hwants hown.1
          (hs.batch_return hg hq hown.1 hown.2 (by rw [hpc]; rfl))
  · have hloc := h.manager m hm
    rw [hloc] at hwants
    cases hpc : s.managerPc m with
    | idle =>
        rw [hpc] at hwants
        rw [← (Prod.mk.inj (Option.some.inj hwants)).2]
        trivial
    | taken flow => exact absurd (hpc ▸ hwants) (by simp [ThreadPc.wants, ManagerPc.wants])
    | inserting flow => exact absurd (hpc ▸ hwants) (by simp [ThreadPc.wants, ManagerPc.wants])
    | returnPacket flow =>
        rw [hpc] at hwants
        obtain ⟨rfl, rfl⟩ := Prod.mk.inj (Option.some.inj hwants)
        exact room_of_returnPackets (hs.manager_packet_return hg hm hpc)
    | returnFlow flow =>
        rw [hpc] at hwants
        obtain ⟨rfl, rfl⟩ := Prod.mk.inj (Option.some.inj hwants)
        exact room_of_returnFlows (hs.manager_flow_return hm hpc)
  · rw [hloc] at hwants
    exact absurd hwants (by simp [ThreadPc.wants])
  · rw [hloc] at hwants
    exact absurd hwants (by simp [ThreadPc.wants])

end Room

/-- A sender in a coupled queue that has room for its call is not refused. -/
theorem senderStep_accepted {queue : SharedQueue Element}
    {o : Object (List Element) (Call Element) (Reply Element)} {stored : List Element} {t : Nat}
    {pc : SenderPc Element} (h : Coupled 10 queue o stored) (hplace : queue.place t = .sending pc)
    (hroom : ∀ k, o.phase t = .called k → RoomFor o.state.length k) :
    (senderStep 10 queue.queue pc).2 ≠ .sent (-1) := by
  have ht := h.threads t
  rw [hplace] at ht
  cases pc with
  | check data =>
      -- the call has not taken effect at its check, so the room is there still
      have hlen : o.state.length + 1 ≤ queueCapacity := hroom _ ht.2
      have hfree : ¬ queue.queue.enqueueCount - queue.queue.dequeueCount ≥ Queue.entries 10 := by
        rw [Queue.full_iff (by decide) h.occupancy_eq]
        exact Nat.not_le.mpr hlen
      rw [senderStep, if_neg hfree]
      simp
  | checkBatch data n =>
      have hlen : o.state.length + n.toNat ≤ queueCapacity := hroom _ ht.2
      have hfree := (Queue.noRoom_iff (by decide) h.occupancy_eq h.length_le n).not.mpr
        (Nat.not_lt.mpr hlen)
      rw [senderStep, if_neg hfree]
      simp
  | store data => simp [senderStep]
  | count data => simp [senderStep]
  | lengthen => simp [senderStep]
  | putLength length => simp [senderStep]
  | loopBatch data n count =>
      -- behind its check a batch cannot be refused
      by_cases hn : n = 0
      · simp [senderStep, hn]
      · simp [senderStep, hn]
  | lengthenBatch data n count => simp [senderStep]
  | putLengthBatch data n count length => simp [senderStep]

/-- **POOLS AND PARSER QUEUES NEVER REFUSE.**  Whatever the interleaving, a
    room check of theirs passes: of all the `while (… != 0) continue;` around
    an enqueue only that of a parser in front of a manager's queue ever goes
    round. -/
theorem rings_neverRefuse {mode : Mode} {cfg : Config} {gNums pNums : Nat} {numbers : UInt32}
    (hg : 1 ≤ gNums) (hle : gNums ≤ pNums) (pktlen : UInt32) (handler : PacketT → Nat → UInt8)
    (packets : Nat → Nat → PacketT) (flows : Nat → Nat → FlowItem) (table : Nat → Manager)
    {ring : QueueId → IntelQueue Element}
    (hring : ∀ id, Represents 10 (ring id)
      ((startStages mode pktlen handler packets flows table).content id))
    {acts : List (SystemAct QueueId (SharedAction Element) ThreadRead)}
    {y : System QueueId ThreadPc (Nat → Manager) (SharedQueue Element)} {us : List Unit}
    (hfit : (ringPipeline mode cfg gNums pNums numbers).Along
      (ObjectsMeet (workers mode cfg gNums pNums numbers) SharedAction.call (ChecksFit 10))
      (startRings gNums pNums numbers.toNat table ring) acts)
    (hrun : (ringPipeline mode cfg gNums pNums numbers).run
      (startRings gNums pNums numbers.toNat table ring) acts = some (y, us))
    {id : QueueId} (hid : ∀ m, id ≠ .managerQueue m) {t : Nat} {pc : SenderPc Element}
    (hplace : (y.objects id).place t = .sending pc) :
    (senderStep 10 (y.objects id).queue pc).2 ≠ .sent (-1) := by
  obtain ⟨objects, w, s, hcoupled, hcollapses, hs, hplays⟩ :=
    rings_followed pktlen handler packets flows table hring hfit hrun
  have hinv : PipelineInv mode gNums pNums numbers s :=
    pipelineInv_reaches hg hle (pipelineInv_start hle pktlen handler packets flows table) hs
  obtain ⟨stored, h⟩ := hcoupled id
  refine senderStep_accepted h hplace ?_
  intro k hk
  -- the call has not taken effect, so the stages have the thread in front of it
  obtain ⟨-, hwants, hloc⟩ := hcollapses.called (i := id) hk
  have hwants' : (w.loc t).wants numbers t = some (id, k) := by
    rw [hloc]
    exact hwants
  have hroom := hplays.room hinv hg hwants' hid
  have hstate : (objects id).state = s.content id := by
    rw [← hplays.content]
    exact (hcollapses.objects id).symm
  rw [hstate]
  exact hroom

/-- The generator that gives its packet back finds room. -/
theorem firstReturn_accepted :
    ∃ (queue : SharedQueue Element) (data : Element), queue.place 0 = .sending (.check data)
      ∧ (senderStep 10 queue.queue (.check data)).2 ≠ .sent (-1) := by
  obtain ⟨y, us, hrun, -, data, hplace⟩ := firstReturn_run
  exact ⟨y.objects (.generatorPool 0), data, hplace,
    rings_neverRefuse (le_refl 1) (le_refl 1) 60 (fun _ _ => 0) (fun _ _ => blankPacket)
      (fun _ _ => blankFlow) Session.freshManager represents_firstRing firstReturn_fits hrun
      (by simp) hplace⟩

end FreePacket.Pipeline
