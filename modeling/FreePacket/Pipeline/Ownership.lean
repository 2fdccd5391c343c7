/-
  FreePacket.Pipeline.Ownership
  ─────────────────────────────
  **WHO OWNS WHAT in the pipeline.**

  Generator `i` only ever feeds the parsers `q` with `q % gNums = i`: its
  `next_thread_id` goes up in steps of `gNums` and starts over at `i`.  So the
  64 packets of a batch have one owner, and the pool pointer of the first one
  speaks for all of them.

  Main results:
    * `Owned` — the ownership of every queue, pool and hand.
    * `Owned.step` — every step of the pipeline keeps it.
-/
import FreePacket.Pipeline.Steps

namespace FreePacket.Pipeline

open FreePacket.Lib FreePacket.Packet
open FreePacket.Session (Manager Config queueCapacity)

/-! ## §1. Owners. -/

/-- The packet is generator `i`'s, and its pool pointer says so. -/
def PacketOf (i : Nat) (packet : PacketT) : Prop := packet.addr.1 = i ∧ packet.pool = i

/-- The flow item is parser `q`'s, and its pool pointer says so. -/
def FlowOf (q : Nat) (flow : FlowItem) : Prop := flow.addr.1 = q ∧ flow.pool = q

/-- The item is at home in the pool of generator `i`.  A collector sets the
    pool pointer only when it takes the item. -/
def AtHome (mode : Mode) (i : Nat) (packet : PacketT) : Prop :=
  packet.addr.1 = i ∧ (mode = .generator → packet.pool = i)

/-- Every item of a queue, a pool or an array. -/
def Each {α : Type} (P : α → Prop) (l : List α) : Prop := ∀ x ∈ l, P x

theorem Each.append {α : Type} {P : α → Prop} {l l' : List α} (h : Each P l) (h' : Each P l') :
    Each P (l ++ l') := by
  intro x hx
  rcases List.mem_append.mp hx with hx | hx
  · exact h x hx
  · exact h' x hx

theorem each_nil {α : Type} {P : α → Prop} : Each P ([] : List α) :=
  fun _ hx => absurd hx List.not_mem_nil

theorem each_singleton {α : Type} {P : α → Prop} {x : α} (h : P x) : Each P [x] := by
  intro y hy
  rw [List.mem_singleton.mp hy]
  exact h

theorem Each.imp {α : Type} {P Q : α → Prop} {l : List α} (h : Each P l)
    (himp : ∀ x, P x → Q x) : Each Q l := fun x hx => himp x (h x hx)

/-- A parser generator `i` feeds. -/
def Feeds (gNums pNums i q : Nat) : Prop := q < pNums ∧ q % gNums = i

/-- A flow item in flight: some parser's, with a packet of the generator that
    feeds this parser. -/
def InFlight (gNums pNums : Nat) (flow : FlowItem) : Prop :=
  ∃ q < pNums, FlowOf q flow ∧ PacketOf (q % gNums) flow.packet

def GeneratorOwns (gNums pNums i : Nat) : GeneratorPc → Prop
  | .idle => True
  | .filled packet | .returning packet => PacketOf i packet
  | .sending parser packet => PacketOf i packet ∧ Feeds gNums pNums i parser

def ParserOwns (gNums q : Nat) : ParserPc → Prop
  | .idle => True
  | .taken packets | .waitFlows packets | .returnPackets packets =>
      packets.length = batch ∧ Each (PacketOf (q % gNums)) packets
  | .built packets flows =>
      packets.length = batch ∧ Each (PacketOf (q % gNums)) packets ∧ Each (FlowOf q) flows
        ∧ flows.map FlowItem.packet = packets
  | .returnBatch packets flows =>
      packets.length = batch ∧ Each (PacketOf (q % gNums)) packets ∧ Each (FlowOf q) flows
  | .forward flows =>
      Each (PacketOf (q % gNums)) (flows.map FlowItem.packet) ∧ Each (FlowOf q) flows
  | .returnFlows flows => Each (FlowOf q) flows

def ManagerOwns (gNums pNums : Nat) : ManagerPc → Prop
  | .idle => True
  | .taken flow | .inserting flow | .returnPacket flow | .returnFlow flow =>
      InFlight gNums pNums flow

/-- **The ownership invariant.** -/
structure Owned (mode : Mode) (gNums pNums : Nat) (numbers : UInt32) (s : Stages) : Prop where
  generatorPool : ∀ i < gNums, Each (AtHome mode i) (s.generatorPool i)
  generatorPc : ∀ i < gNums, GeneratorOwns gNums pNums i (s.generatorPc i)
  nextThreadId : ∀ i < gNums, Feeds gNums pNums i (s.nextThreadId i)
  parserQueue : ∀ q < pNums, Each (PacketOf (q % gNums)) (s.parserQueue q)
  parserPool : ∀ q < pNums, Each (FlowOf q) (s.parserPool q)
  parserPc : ∀ q < pNums, ParserOwns gNums q (s.parserPc q)
  managerQueue : ∀ m < numbers.toNat, Each (InFlight gNums pNums) (s.managerQueue m)
  managerPc : ∀ m < numbers.toNat, ManagerOwns gNums pNums (s.managerPc m)

/-! ## §2. Items keep their owner. -/

/-- Filling an item leaves its address, and its pool pointer names its own pool. -/
theorem fillPacket_of {mode : Mode} {i : Nat} {packet packet' : PacketT} {input : Input}
    (hfill : fillPacket mode i packet input = some packet') (hhome : AtHome mode i packet) :
    packet'.addr = packet.addr ∧ PacketOf i packet' := by
  unfold fillPacket at hfill
  split at hfill
  · obtain rfl := Option.some.inj hfill
    exact ⟨rfl, hhome.1, hhome.2 rfl⟩
  · unfold collect at hfill
    split at hfill
    · exact absurd hfill (by simp)
    · split at hfill
      · obtain rfl := Option.some.inj hfill
        exact ⟨rfl, hhome.1, rfl⟩
      · exact absurd hfill (by simp)
  · exact absurd hfill (by simp)

/-- An item whose pool pointer is right is at home in that pool. -/
theorem PacketOf.atHome {mode : Mode} {i : Nat} {packet : PacketT} (h : PacketOf i packet) :
    AtHome mode i packet := ⟨h.1, fun _ => h.2⟩

/-- The flow items a parser makes: the addresses and pool pointers of the
    flows it took, the packets of its batch. -/
theorem zipWith_packet {flows : List FlowItem} {packets : List PacketT}
    (hlen : flows.length = packets.length) :
    (List.zipWith makeFlowItemTcp flows packets).map FlowItem.packet = packets := by
  induction flows generalizing packets with
  | nil =>
      rw [List.length_nil] at hlen
      rw [List.eq_nil_of_length_eq_zero hlen.symm]
      rfl
  | cons flow flows ih =>
      cases packets with
      | nil => exact absurd hlen (by simp)
      | cons packet packets =>
          rw [List.zipWith_cons_cons, List.map_cons, makeFlowItemTcp_packet]
          rw [ih (Nat.succ.inj hlen)]

theorem zipWith_countP_addr {flows : List FlowItem} {packets : List PacketT}
    (hlen : flows.length = packets.length) (f : Nat × Nat → Bool) :
    (List.zipWith makeFlowItemTcp flows packets).countP (fun flow => f flow.addr)
      = flows.countP (fun flow => f flow.addr) := by
  induction flows generalizing packets with
  | nil => rfl
  | cons flow flows ih =>
      cases packets with
      | nil => exact absurd hlen (by simp)
      | cons packet packets =>
          rw [List.zipWith_cons_cons, List.countP_cons, List.countP_cons,
            ih (Nat.succ.inj hlen), makeFlowItemTcp_addr]

theorem zipWith_of {q : Nat} {flows : List FlowItem} {packets : List PacketT}
    (h : Each (FlowOf q) flows) : Each (FlowOf q) (List.zipWith makeFlowItemTcp flows packets) := by
  intro flow hflow
  rw [← List.map_uncurry_zip_eq_zipWith] at hflow
  obtain ⟨⟨old, packet⟩, hmem, rfl⟩ := List.mem_map.mp hflow
  exact h old (List.of_mem_zip hmem).1

/-- `next_thread_id` stays among the parsers of its generator. -/
theorem Feeds.next {gNums pNums i q : Nat} (hi : i < gNums) (hle : gNums ≤ pNums)
    (h : Feeds gNums pNums i q) :
    Feeds gNums pNums i (if q + gNums < pNums then q + gNums else i) := by
  unfold Feeds at h ⊢
  split
  · rename_i hlt
    exact ⟨hlt, by rw [Nat.add_mod_right]; exact h.2⟩
  · exact ⟨by omega, Nat.mod_eq_of_lt hi⟩

/-! ## §3. Every step keeps the owners. -/

section Steps

variable {mode : Mode} {gNums pNums : Nat} {numbers : UInt32} {s s' : Stages}

/-- Items put back into the pool their pool pointers name are at home there. -/
theorem Owned.atHome_append (hs : Owned mode gNums pNums numbers s) {i : Nat}
    {packets : List PacketT} (hi : i < gNums) (hof : Each (PacketOf i) packets) :
    Each (AtHome mode i) (s.generatorPool i ++ packets) :=
  (hs.generatorPool i hi).append (hof.imp (fun _ h => h.atHome))

theorem Owned.generatorStep (hs : Owned mode gNums pNums numbers s) (hle : gNums ≤ pNums)
    {i : Nat} (hi : i < gNums) (h : GeneratorStep mode gNums pNums s i s') :
    Owned mode gNums pNums numbers s' := by
  have hown := hs.generatorPc i hi
  cases h with
  | @took packet packet' pool input hpc hpool hfill =>
      have hhome := hs.generatorPool i hi
      rw [hpool] at hhome
      have hrest : Each (AtHome mode i) pool := fun x hx => hhome x (List.mem_cons_of_mem _ hx)
      have hof := (fillPacket_of hfill (hhome packet List.mem_cons_self)).2
      exact { hs with
        generatorPool := forall_update hs.generatorPool hrest
        generatorPc := forall_update hs.generatorPc hof }
  | @chose packet hpc =>
      -- the parser chosen is one of the generator's, and so is the next
      rw [hpc] at hown
      have hnext := hs.nextThreadId i hi
      exact { hs with
        generatorPc := forall_update hs.generatorPc ⟨hown, hnext⟩
        nextThreadId := forall_update hs.nextThreadId (hnext.next hi hle) }
  | @kept packet hpc =>
      rw [hpc] at hown
      exact { hs with generatorPc := forall_update hs.generatorPc hown }
  | @sent parser packet hpc =>
      rw [hpc] at hown
      -- a parser's queue holds the packets of the generator feeding it
      obtain ⟨hof, hq, hfeeds⟩ := hown
      rw [← hfeeds] at hof
      exact { hs with
        parserQueue := forall_update hs.parserQueue
          ((hs.parserQueue parser hq).append (each_singleton hof))
        generatorPc := forall_update hs.generatorPc trivial }
  | @returned packet hpc =>
      rw [hpc] at hown
      have hpool : packet.pool = i := hown.2
      rw [hpool]
      exact { hs with
        generatorPool := forall_update hs.generatorPool (hs.atHome_append hi (each_singleton hown))
        generatorPc := forall_update hs.generatorPc trivial }

theorem Owned.parserStep (hs : Owned mode gNums pNums numbers s) (hg : 0 < gNums)
    {q : Nat} (hq : q < pNums) (h : ParserStep numbers s q s') :
    Owned mode gNums pNums numbers s' := by
  have hown := hs.parserPc q hq
  have howner : q % gNums < gNums := Nat.mod_lt q hg
  cases h with
  | @took packets queue hpc hqueue hlen =>
      have hof := hs.parserQueue q hq
      rw [hqueue] at hof
      -- a queue of one owner, cut in two
      have htaken : Each (PacketOf (q % gNums)) packets :=
        fun x hx => hof x (List.mem_append_left _ hx)
      have hrest : Each (PacketOf (q % gNums)) queue :=
        fun x hx => hof x (List.mem_append_right _ hx)
      exact { hs with
        parserQueue := forall_update hs.parserQueue hrest
        parserPc := forall_update hs.parserPc ⟨hlen, htaken⟩ }
  | @wanted packets hpc =>
      rw [hpc] at hown
      exact { hs with parserPc := forall_update hs.parserPc hown }
  | @skipped packets hpc =>
      rw [hpc] at hown
      exact { hs with parserPc := forall_update hs.parserPc hown }
  | @made packets flows pool hpc hpool hlen =>
      rw [hpc] at hown
      have hflows := hs.parserPool q hq
      rw [hpool] at hflows
      -- a flow item keeps its parser and gets its packet
      have hmade : Each (FlowOf q) (List.zipWith makeFlowItemTcp flows packets) :=
        zipWith_of (fun x hx => hflows x (List.mem_append_left pool hx))
      have hpackets := zipWith_packet (hlen.trans hown.1.symm)
      have hrest : Each (FlowOf q) pool := fun x hx => hflows x (List.mem_append_right _ hx)
      exact { hs with
        parserPool := forall_update hs.parserPool hrest
        parserPc := forall_update hs.parserPc ⟨hown.1, hown.2, hmade, hpackets⟩ }
  | @forwarding packets flows hpc =>
      rw [hpc] at hown
      obtain ⟨_, hpackets, hflows, hattached⟩ := hown
      rw [← hattached] at hpackets
      exact { hs with parserPc := forall_update hs.parserPc ⟨hpackets, hflows⟩ }
  | @dropping packets flows hpc =>
      rw [hpc] at hown
      exact { hs with parserPc := forall_update hs.parserPc ⟨hown.1, hown.2.1, hown.2.2.1⟩ }
  | @forwarded index flow rest hpc hindex =>
      rw [hpc] at hown
      obtain ⟨hpackets, hflows⟩ := hown
      have hflight : InFlight gNums pNums flow :=
        ⟨q, hq, hflows flow List.mem_cons_self, hpackets flow.packet List.mem_cons_self⟩
      have hrest : Each (PacketOf (q % gNums)) (rest.map FlowItem.packet) :=
        fun x hx => hpackets x (List.mem_cons_of_mem _ hx)
      exact { hs with
        managerQueue := forall_update hs.managerQueue
          ((hs.managerQueue index hindex).append (each_singleton hflight))
        parserPc := forall_update hs.parserPc
          ⟨hrest, fun x hx => hflows x (List.mem_cons_of_mem _ hx)⟩ }
  | finished hpc => exact { hs with parserPc := forall_update hs.parserPc trivial }
  | @returnedBatch first rest flows hpc =>
      rw [hpc] at hown
      obtain ⟨_, hpackets, hflows⟩ := hown
      -- `packet[0]->pool` is the pool of every packet of the batch
      have hpool : first.pool = q % gNums := (hpackets first List.mem_cons_self).2
      rw [hpool]
      exact { hs with
        generatorPool := forall_update hs.generatorPool (hs.atHome_append howner hpackets)
        parserPc := forall_update hs.parserPc hflows }
  | @returnedFlows flows hpc =>
      rw [hpc] at hown
      exact { hs with
        parserPool := forall_update hs.parserPool ((hs.parserPool q hq).append hown)
        parserPc := forall_update hs.parserPc trivial }
  | @returnedPackets first rest hpc =>
      rw [hpc] at hown
      have hpool : first.pool = q % gNums := (hown.2 first List.mem_cons_self).2
      rw [hpool]
      exact { hs with
        generatorPool := forall_update hs.generatorPool (hs.atHome_append howner hown.2)
        parserPc := forall_update hs.parserPc trivial }

theorem Owned.managerStep (hs : Owned mode gNums pNums numbers s) (hg : 0 < gNums)
    {m : Nat} (hm : m < numbers.toNat) (h : ManagerStep s m s') :
    Owned mode gNums pNums numbers s' := by
  have hown := hs.managerPc m hm
  cases h with
  | @took flow queue hpc hqueue =>
      have hflight := hs.managerQueue m hm
      rw [hqueue] at hflight
      have hrest : Each (InFlight gNums pNums) queue :=
        fun x hx => hflight x (List.mem_cons_of_mem _ hx)
      exact { hs with
        managerQueue := forall_update hs.managerQueue hrest
        managerPc := forall_update hs.managerPc (hflight flow List.mem_cons_self) }
  | @deep flow hpc =>
      rw [hpc] at hown
      exact { hs with managerPc := forall_update hs.managerPc hown }
  | @shallow flow hpc =>
      rw [hpc] at hown
      exact { hs with managerPc := forall_update hs.managerPc hown }
  | @inserted flow table hpc =>
      rw [hpc] at hown
      exact { hs with managerPc := forall_update hs.managerPc hown }
  | @returnedPacket flow hpc =>
      -- the pool written in the packet is the one it was taken from
      rw [hpc] at hown
      obtain ⟨q, hq, hflow, hpacket⟩ := hown
      have hpool : flow.packet.pool = q % gNums := hpacket.2
      rw [hpool]
      exact { hs with
        generatorPool := forall_update hs.generatorPool
          (hs.atHome_append (Nat.mod_lt q hg) (each_singleton hpacket))
        managerPc := forall_update hs.managerPc ⟨q, hq, hflow, hpacket⟩ }
  | @returnedFlow flow hpc =>
      rw [hpc] at hown
      obtain ⟨q, hq, hflow, _⟩ := hown
      have hpool : flow.pool = q := hflow.2
      rw [hpool]
      exact { hs with
        parserPool := forall_update hs.parserPool
          ((hs.parserPool q hq).append (each_singleton hflow))
        managerPc := forall_update hs.managerPc trivial }

/-- **Every step of the pipeline keeps the owners.** -/
theorem Owned.step (hs : Owned mode gNums pNums numbers s) (hg : 0 < gNums)
    (hle : gNums ≤ pNums) (h : PipelineStep mode gNums pNums numbers s s') :
    Owned mode gNums pNums numbers s' := by
  cases h with
  | generator hi h => exact hs.generatorStep hle hi h
  | parser hq h => exact hs.parserStep hg hq h
  | manager hm h => exact hs.managerStep hg hm h
  | cleaned => exact { hs with }

end Steps

/-! ## §4. The initial owners. -/

theorem owned_start {mode : Mode} {gNums pNums : Nat} (numbers : UInt32) (hle : gNums ≤ pNums)
    (pktlen : UInt32) (handler : PacketT → Nat → UInt8) (packets : Nat → Nat → PacketT)
    (flows : Nat → Nat → FlowItem) (table : Nat → Manager) :
    Owned mode gNums pNums numbers (startStages mode pktlen handler packets flows table) := by
  refine ⟨?_, fun _ _ => trivial, ?_, ?_, ?_, fun _ _ => trivial, ?_, fun _ _ => trivial⟩
  · intro i _ packet hpacket
    rw [startStages_generatorPool] at hpacket
    obtain ⟨old, hold, rfl⟩ := List.mem_map.mp hpacket
    obtain ⟨j, _, rfl⟩ := List.mem_map.mp hold
    cases mode with
    | generator => exact ⟨rfl, fun _ => rfl⟩
    | collector => exact ⟨rfl, fun h => absurd h (by simp)⟩
  · intro i hi
    exact ⟨Nat.lt_of_lt_of_le hi hle, Nat.mod_eq_of_lt hi⟩
  · intro q _
    exact each_nil
  · intro q _
    rw [startStages_parserPool]
    unfold initSingleParser
    intro flow hflow
    obtain ⟨j, _, rfl⟩ := List.mem_map.mp hflow
    exact ⟨rfl, rfl⟩
  · intro m _
    exact each_nil

end FreePacket.Pipeline
