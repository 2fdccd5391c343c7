/-
  FreePacket.Pipeline.Parsing
  ───────────────────────────
  **THE FLOW ITEMS OF A BATCH.**

  The `for` loop of `packet_parser_loop` makes one flow item of every packet
  of its batch with `make_flow_item_tcp`.  The batch may mix TCP and UDP in
  any order; each item is judged against its own packet.

  Main result: `parserStep_describes_iff` — an item describes its frame
  exactly when the frame carries TCP, or hides it.
-/
import FreePacket.Packet.Datagram
import FreePacket.Pipeline.Steps

namespace FreePacket.Pipeline

open FreePacket.Lib FreePacket.Packet
open FreePacket.Session (Manager Config queueCapacity)

/-! ## §1. One batch. -/

/-- **The batch is made item by item**: flow `k` is made of packet `k`. -/
theorem ParserStep.made_of_waitFlows {numbers : UInt32} {s s' : Stages} {q : Nat}
    {packets : List PacketT} (h : ParserStep numbers s q s')
    (hpc : s.parserPc q = .waitFlows packets) :
    ∃ flows, flows.length = batch
      ∧ s'.parserPc q = .built packets (List.zipWith makeFlowItemTcp flows packets) := by
  cases h with
  | made hpc' hpool hlen =>
      rw [hpc] at hpc'
      obtain ⟨rfl⟩ := hpc'
      exact ⟨_, hlen, Function.update_self _ _ _⟩
  | took hpc' | wanted hpc' | skipped hpc' | forwarding hpc' | dropping hpc' | forwarded hpc'
  | finished hpc' | returnedBatch hpc' | returnedFlows hpc' | returnedPackets hpc' =>
      rw [hpc] at hpc'
      exact absurd hpc' (by simp)

/-- **THE PARSER DESCRIBES A WELL-FORMED FRAME EXACTLY WHEN** it carries TCP,
    or the upper nibble of the 13th byte behind its IP header is 2: in every
    place of every batch, whatever the other packets are. -/
theorem parserStep_describes_iff {numbers : UInt32} {s s' : Stages} {q : Nat}
    {pipeDepth : Int32} {packets : List PacketT} (hpc : s.parserPc q = .waitFlows packets)
    (hlen : packets.length = batch) (hstep : parserStep numbers s q pipeDepth = some s') :
    ∃ flows : List FlowItem, s'.parserPc q = .built packets flows ∧ flows.length = batch
      ∧ ∀ (k : Nat) (packet : PacketT) (flow : FlowItem), packets[k]? = some packet →
        flows[k]? = some flow → WellFormedDatagram packet →
          (Describes packet flow
            ↔ ipProtocol packet = ipprotoTcp ∨ tcpHdr packet 12 >>> 4 = 2) := by
  obtain ⟨flows, hflows, hbuilt⟩ := (parserStep_cases hstep).made_of_waitFlows hpc
  refine ⟨_, hbuilt, ?_, ?_⟩
  · rw [List.length_zipWith, hflows, hlen, Nat.min_self]
  · intro k packet flow hpacket hflow hwf
    rw [List.getElem?_zipWith, hpacket] at hflow
    cases hk : flows[k]? with
    | none =>
        rw [hk] at hflow
        exact absurd hflow (by simp)
    | some item =>
        rw [hk] at hflow
        obtain rfl := Option.some.inj hflow
        exact makeFlowItemTcp_describes_iff hwf item

/-! ## §2. A batch of UDP frames. -/

/-- A UDP frame from 10.0.0.1:5000 to 10.0.0.2:53 with eighteen bytes of
    payload, every length in it right. -/
def udpFrame : List UInt8 :=
  [2, 0, 0, 0, 0, 2, 2, 0, 0, 0, 0, 1, 0x08, 0x00,
    0x45, 0, 0, 46, 0, 0, 0, 0, 64, 17, 0, 0, 10, 0, 0, 1, 10, 0, 0, 2,
    0x13, 0x88, 0, 53, 0, 26, 0, 0] ++ List.replicate 18 0x61

/-- The same sizes over TCP: `doff` 5 and six bytes of payload. -/
def tcpFrame : List UInt8 :=
  [2, 0, 0, 0, 0, 2, 2, 0, 0, 0, 0, 1, 0x08, 0x00,
    0x45, 0, 0, 46, 0, 0, 0, 0, 64, 6, 0, 0, 10, 0, 0, 1, 10, 0, 0, 2,
    0x13, 0x88, 0, 53, 0, 0, 0, 0, 0, 0, 0, 0, 0x50, 0, 0, 0, 0, 0, 0, 0]
    ++ List.replicate 6 0x61

theorem udpFrame_wellFormed : WellFormedDatagram (storedFrame udpFrame) :=
  ⟨by decide, by decide, by decide, by decide, by decide, by decide⟩

/-- A collector pipeline whose parsers have just taken a mixed batch. -/
def mixedBatch : List PacketT :=
  storedFrame udpFrame :: List.replicate 63 (storedFrame tcpFrame)

def mixedStages : Stages :=
  { startStages .collector 0 (fun _ _ => 0) (fun _ _ => blankPacket) (fun _ _ => blankFlow)
      Session.freshManager with parserPc := fun _ => .waitFlows mixedBatch }

/-- The parser goes on from there. -/
theorem mixedStages_step : ∃ s', parserStep 1 mixedStages 0 4 = some s' := by
  have hpool : batch ≤ (mixedStages.parserPool 0).length := by
    unfold mixedStages
    rw [startStages_parserPool]
    unfold initSingleParser
    rw [List.length_map, List.length_range]
    decide
  have hpc : mixedStages.parserPc 0 = .waitFlows mixedBatch := rfl
  apply Option.isSome_iff_exists.mp
  unfold parserStep
  simp only [hpc, Fifo.pop_of_le hpool, Option.map_some, Option.isSome_some]

/-- Over that batch: the UDP frame in place 0 is not described, the TCP frames
    behind it are. -/
theorem mixedStages_describes :
    ∃ (s' : Stages) (flows : List FlowItem), parserStep 1 mixedStages 0 4 = some s'
      ∧ s'.parserPc 0 = .built mixedBatch flows ∧ flows.length = batch
      ∧ ∀ (k : Nat) (packet : PacketT) (flow : FlowItem), mixedBatch[k]? = some packet →
        flows[k]? = some flow → WellFormedDatagram packet →
          (Describes packet flow
            ↔ ipProtocol packet = ipprotoTcp ∨ tcpHdr packet 12 >>> 4 = 2) := by
  obtain ⟨s', hstep⟩ := mixedStages_step
  obtain ⟨flows, h⟩ :=
    parserStep_describes_iff (show mixedStages.parserPc 0 = .waitFlows mixedBatch from rfl)
      (by decide) hstep
  exact ⟨s', flows, hstep, h⟩

/-- **The UDP frame is not described**: the parser does not describe every
    well-formed frame. -/
theorem udpFrame_not_described :
    ¬ ∀ (numbers : UInt32) (s s' : Stages) (q : Nat) (pipeDepth : Int32)
        (packets : List PacketT), s.parserPc q = .waitFlows packets → packets.length = batch →
      parserStep numbers s q pipeDepth = some s' →
      ∃ flows : List FlowItem, s'.parserPc q = .built packets flows
        ∧ ∀ (k : Nat) (packet : PacketT) (flow : FlowItem), packets[k]? = some packet →
          flows[k]? = some flow → WellFormedDatagram packet → Describes packet flow := by
  intro hall
  obtain ⟨s', hstep⟩ := mixedStages_step
  have hpc : mixedStages.parserPc 0 = .waitFlows mixedBatch := rfl
  obtain ⟨flows, hbuilt, hdescribes⟩ := hall 1 mixedStages s' 0 4 mixedBatch hpc (by decide) hstep
  obtain ⟨items, hitems, hmade⟩ := (parserStep_cases hstep).made_of_waitFlows hpc
  rw [hbuilt] at hmade
  obtain ⟨-, rfl⟩ := ParserPc.built.inj hmade
  -- the first item of the batch is made of the UDP frame
  cases items with
  | nil => exact absurd hitems (by decide)
  | cons item rest =>
      have hbad := hdescribes 0 (storedFrame udpFrame)
        (makeFlowItemTcp item (storedFrame udpFrame)) rfl rfl udpFrame_wellFormed
      have hcond := (makeFlowItemTcp_describes_iff udpFrame_wellFormed item).mp hbad
      exact absurd hcond (by decide)

end FreePacket.Pipeline
