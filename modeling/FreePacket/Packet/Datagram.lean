/-
  FreePacket.Packet.Datagram
  ──────────────────────────
  **TCP AND UDP FRAMES, AND WHICH OF THEM THE PARSER DESCRIBES.**

  `packet_parser.c` has a function for each transport.  Its loop calls
  `make_flow_item_tcp` for every packet of a batch, whatever the protocol, so
  a UDP frame is cut where a TCP header of `doff` words would end, and `doff`
  is then the upper nibble of a byte of the payload, or of what lies behind
  the frame.

  Main results:
    * `makeFlowItemTcp_describes_iff` — the frames the flow item describes:
      TCP, and the UDP frames whose nibble happens to be 2.
    * `makeFlowItemUdp_describes` — the sibling is right for UDP.
-/
import FreePacket.Packet.RoundTrip

namespace FreePacket.Packet

open FreePacket.Lib

/-! ## §1. `make_flow_item_udp`. -/

/-- `udp_hdr = packet->data + PAY_LEN + sizeof(struct ethhdr) + ihl`. -/
def udpHdr (packet : PacketT) : Nat → UInt8 :=
  fun k => packet.data (payLen + ethHdrLen + ihl packet + k)

/-- `udp_hdr->source` and `udp_hdr->dest`. -/
def udpSource (packet : PacketT) : UInt16 := load16 (udpHdr packet) 0
def udpDest (packet : PacketT) : UInt16 := load16 (udpHdr packet) 2

/-- `make_flow_item_udp`. -/
def makeFlowItemUdp (flow : FlowItem) (packet : PacketT) (headerLen : Nat) : FlowItem :=
  { flow with
    packet := packet
    upperIp := if saddr packet ≥ daddr packet then saddr packet else daddr packet
    lowerIp := if saddr packet ≥ daddr packet then daddr packet else saddr packet
    upperPort :=
      if udpSource packet ≥ udpDest packet then (udpSource packet).toUInt32
      else (udpDest packet).toUInt32
    lowerPort :=
      if udpSource packet ≥ udpDest packet then (udpDest packet).toUInt32
      else (udpSource packet).toUInt32
    protocol := ipProtocol packet
    payload := fun k => packet.data (headerLen + k)
    payloadLen := packet.length - UInt32.ofNat headerLen + UInt32.ofNat payLen }

/-- The ports stand at the same place of both headers. -/
@[simp] theorem udpSource_eq (packet : PacketT) : udpSource packet = source packet := rfl

@[simp] theorem udpDest_eq (packet : PacketT) : udpDest packet = dest packet := rfl

/-! ## §2. Well-formed frames of either transport. -/

/-- `sizeof(struct udphdr)`. -/
def udpHdrLen : Nat := 8

/-- The length of the transport header: `doff` words, or eight bytes. -/
def transportLen (packet : PacketT) : Nat :=
  if ipProtocol packet = ipprotoTcp then tcpLen packet else udpHdrLen

/-- Where the payload of the frame starts, behind `data + PAY_LEN`. -/
def payloadOffset (packet : PacketT) : Nat := ethHdrLen + ihl packet + transportLen packet

/-- **A well-formed Ethernet/IPv4 frame** over TCP or UDP: EtherType and
    version as they must be, legal `ihl` and `doff`, and at least as long as
    its headers. -/
structure WellFormedDatagram (packet : PacketT) : Prop where
  etherType : packet.data (payLen + 12) = 0x08 ∧ packet.data (payLen + 13) = 0x00
  version : ipHdr packet 0 >>> 4 = 4
  ihl : 20 ≤ ihl packet
  transport : ipProtocol packet = ipprotoTcp ∨ ipProtocol packet = ipprotoUdp
  doff : ipProtocol packet = ipprotoTcp → 20 ≤ tcpLen packet
  length : payloadOffset packet ≤ packet.length.toNat

/-- **The flow item describes the frame**: its protocol, its ordered addresses
    and ports, the first byte behind its transport header and the number of
    bytes from there to its end. -/
structure Describes (packet : PacketT) (flow : FlowItem) : Prop where
  packet_eq : flow.packet = packet
  protocol_eq : flow.protocol = ipProtocol packet
  ips : (flow.upperIp, flow.lowerIp)
    = (max (saddr packet) (daddr packet), min (saddr packet) (daddr packet))
  ports : (flow.upperPort, flow.lowerPort)
    = ((max (source packet) (dest packet)).toUInt32, (min (source packet) (dest packet)).toUInt32)
  payload_eq : ∀ k, flow.payload k = packet.data (payLen + payloadOffset packet + k)
  payloadLen_eq : flow.payloadLen.toNat = packet.length.toNat - payloadOffset packet

theorem transportLen_le (packet : PacketT) : transportLen packet ≤ 60 := by
  have htcp := tcpLen_le packet
  unfold transportLen udpHdrLen
  split <;> omega

theorem payloadOffset_le (packet : PacketT) : payloadOffset packet ≤ 134 := by
  have h₁ := ihl_le packet
  have h₂ := transportLen_le packet
  unfold payloadOffset ethHdrLen
  omega

/-! ## §3. Which frames are described. -/

/-- `doff` counts words, so eight bytes are two of them. -/
theorem tcpLen_eq_udpHdrLen_iff (packet : PacketT) :
    tcpLen packet = udpHdrLen ↔ tcpHdr packet 12 >>> 4 = 2 := by
  rw [← UInt8.toNat_inj]
  unfold tcpLen udpHdrLen
  show _ ↔ (tcpHdr packet 12 >>> 4).toNat = 2
  omega

/-- The parser takes the headers of a frame to end where they do. -/
theorem headerLen_eq_iff (packet : PacketT) :
    headerLen packet = payLen + payloadOffset packet
      ↔ ipProtocol packet = ipprotoTcp ∨ tcpHdr packet 12 >>> 4 = 2 := by
  unfold headerLen payloadOffset transportLen
  rw [← tcpLen_eq_udpHdrLen_iff]
  by_cases htcp : ipProtocol packet = ipprotoTcp
  · rw [if_pos htcp]
    exact ⟨fun _ => Or.inl htcp, fun _ => by omega⟩
  · rw [if_neg htcp]
    constructor
    · intro h
      exact Or.inr (by omega)
    · intro h
      have hlen := h.resolve_left htcp
      omega

/-- **The frames `make_flow_item_tcp` describes.**  Protocol, addresses and
    ports are always right; payload and length are when the headers end where
    a TCP header would. -/
theorem makeFlowItemTcp_describes_iff {packet : PacketT} (hwf : WellFormedDatagram packet)
    (flow : FlowItem) :
    Describes packet (makeFlowItemTcp flow packet)
      ↔ ipProtocol packet = ipprotoTcp ∨ tcpHdr packet 12 >>> 4 = 2 := by
  rw [← headerLen_eq_iff]
  have hlt := packet.length.toNat_lt
  have hhdr := headerLen_le packet
  have hlen := hwf.length
  have hpayloadLen := payloadLen_toNat flow packet
  constructor
  · intro h
    -- another header length shows in the payload length, which does not wrap back
    have heq := h.payloadLen_eq
    rw [hpayloadLen] at heq
    have hpay : payLen ≤ headerLen packet := by
      unfold headerLen
      omega
    have hoff := payloadOffset_le packet
    unfold payLen at *
    omega
  · intro h
    refine ⟨rfl, rfl, ordered32_eq _ _, ordered16_eq _ _, ?_, ?_⟩
    · intro k
      show packet.data (headerLen packet + k) = _
      rw [h]
    · rw [hpayloadLen, h, Nat.add_sub_cancel_left]
      omega

/-- **The sibling is right**: called with the end of a frame's headers,
    `make_flow_item_udp` describes it. -/
theorem makeFlowItemUdp_describes {packet : PacketT} (hwf : WellFormedDatagram packet)
    (flow : FlowItem) :
    Describes packet (makeFlowItemUdp flow packet (payLen + payloadOffset packet)) := by
  have hlt := packet.length.toNat_lt
  have hoff := payloadOffset_le packet
  have hlen := hwf.length
  refine ⟨rfl, rfl, ordered32_eq _ _, ordered16_eq _ _, fun _ => rfl, ?_⟩
  show (packet.length - UInt32.ofNat (payLen + payloadOffset packet)
    + UInt32.ofNat payLen).toNat = _
  rw [UInt32.toNat_add, UInt32.toNat_sub, UInt32.toNat_ofNat', UInt32.toNat_ofNat']
  unfold payLen at *
  omega

end FreePacket.Packet
