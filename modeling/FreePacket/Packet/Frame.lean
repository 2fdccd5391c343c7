/-
  FreePacket.Packet.Frame
  ───────────────────────
  **PACKETS, FLOW ITEMS AND THE PARSER'S VIEW OF A FRAME.**

  `packet_t` and `flow_item_t` of `includes.h`, the header accessors the
  source reaches through `struct iphdr` and `struct tcphdr`, and
  `make_flow_item_tcp` of `packet_parser.c`.

  A frame stands at `data + PAY_LEN`.  Header fields are loaded as an x86
  host loads them: raw network-order bytes into a little-endian register, bit
  fields low nibble first.  Pointers are total functions from offsets to
  bytes; which offsets are inside the frame is a matter for theorems
  (`headerReads`).
-/
import FreePacket.Lib.Memory
import Mathlib.Algebra.Group.Nat.Defs

namespace FreePacket.Packet

open FreePacket.Lib

/-! ## §1. Constants and records of `includes.h`. -/

/-- `PAY_LEN`: the alignment pad in front of the Ethernet header. -/
def payLen : Nat := 2

/-- `sizeof(struct ethhdr)`. -/
def ethHdrLen : Nat := 14

/-- `sizeof(packet_t)` on the 64-bit target: two pointers and an `unsigned int`. -/
def sizeofPacket : Nat := 24

/-- `packet_t`.  `addr` is the address of the item: the generator that
    allocated it and its index there.  `pool` names the generator whose pool
    the pool pointer points to. -/
structure PacketT where
  addr : Nat × Nat
  data : Nat → UInt8
  length : UInt32
  pool : Nat

/-- `flow_item_t`.  `addr` is the parser that allocated it and its index
    there; `pool` names the parser whose pool the pool pointer points to. -/
structure FlowItem where
  addr : Nat × Nat
  upperIp : UInt32
  lowerIp : UInt32
  upperPort : UInt32
  lowerPort : UInt32
  protocol : UInt8
  packet : PacketT
  payload : Nat → UInt8
  payloadLen : UInt32
  pool : Nat

/-! ## §2. Header fields. -/

/-- `ip_hdr = packet->data + PAY_LEN + eth_hdr_len`. -/
def ipHdr (packet : PacketT) : Nat → UInt8 := fun k => packet.data (payLen + ethHdrLen + k)

/-- `int ihl = ip_hdr->ihl * 4`. -/
def ihl (packet : PacketT) : Nat := (ipHdr packet 0 &&& 0x0f).toNat * 4

/-- `tcp_hdr = packet->data + PAY_LEN + eth_hdr_len + ihl`. -/
def tcpHdr (packet : PacketT) : Nat → UInt8 :=
  fun k => packet.data (payLen + ethHdrLen + ihl packet + k)

/-- `int tcp_len = tcp_hdr->doff * 4`. -/
def tcpLen (packet : PacketT) : Nat := (tcpHdr packet 12 >>> 4).toNat * 4

/-- `int header_len = eth_hdr_len + ihl + tcp_len + PAY_LEN`. -/
def headerLen (packet : PacketT) : Nat := ethHdrLen + ihl packet + tcpLen packet + payLen

def saddr (packet : PacketT) : UInt32 := load32 (ipHdr packet) 12
def daddr (packet : PacketT) : UInt32 := load32 (ipHdr packet) 16
def ipProtocol (packet : PacketT) : UInt8 := ipHdr packet 9
def source (packet : PacketT) : UInt16 := load16 (tcpHdr packet) 0
def dest (packet : PacketT) : UInt16 := load16 (tcpHdr packet) 2

theorem ihl_le (packet : PacketT) : ihl packet ≤ 60 := by
  have hnib : (ipHdr packet 0 &&& 0x0f).toNat ≤ 15 := by
    rw [UInt8.toNat_and]
    exact Nat.and_le_right
  unfold ihl
  omega

theorem tcpLen_le (packet : PacketT) : tcpLen packet ≤ 60 := by
  have hbyte := (tcpHdr packet 12).toNat_lt
  have hnib : (tcpHdr packet 12 >>> 4).toNat ≤ 15 := by
    rw [UInt8.toNat_shiftRight, Nat.shiftRight_eq_div_pow]
    show (tcpHdr packet 12).toNat / 2 ^ 4 ≤ 15
    omega
  unfold tcpLen
  omega

/-! ## §3. `make_flow_item_tcp`. -/

/-- `make_flow_item_tcp` (its `len` argument is not used). -/
def makeFlowItemTcp (flow : FlowItem) (packet : PacketT) : FlowItem :=
  { flow with
    packet := packet
    upperIp := if saddr packet ≥ daddr packet then saddr packet else daddr packet
    lowerIp := if saddr packet ≥ daddr packet then daddr packet else saddr packet
    upperPort :=
      if source packet ≥ dest packet then (source packet).toUInt32 else (dest packet).toUInt32
    lowerPort :=
      if source packet ≥ dest packet then (dest packet).toUInt32 else (source packet).toUInt32
    protocol := ipProtocol packet
    payload := fun k => packet.data (headerLen packet + k)
    payloadLen := packet.length - UInt32.ofNat (headerLen packet) + UInt32.ofNat payLen }

@[simp] theorem makeFlowItemTcp_packet (flow : FlowItem) (packet : PacketT) :
    (makeFlowItemTcp flow packet).packet = packet := rfl

@[simp] theorem makeFlowItemTcp_addr (flow : FlowItem) (packet : PacketT) :
    (makeFlowItemTcp flow packet).addr = flow.addr := rfl

/-- The header fields a flow item takes from its packet. -/
structure Parsed where
  upperIp : UInt32
  lowerIp : UInt32
  upperPort : UInt32
  lowerPort : UInt32
  protocol : UInt8
  payloadLen : UInt32
  headerLen : Nat

/-- What `make_flow_item_tcp` computed, the payload pointer as its offset. -/
def parsed (packet : PacketT) (flow : FlowItem) : Parsed :=
  { upperIp := flow.upperIp, lowerIp := flow.lowerIp, upperPort := flow.upperPort
    lowerPort := flow.lowerPort, protocol := flow.protocol, payloadLen := flow.payloadLen
    headerLen := headerLen packet }

/-- The frame offsets whose bytes `make_flow_item_tcp` loads: the `ihl` byte,
    the protocol, both addresses, both ports and the `doff` byte. -/
def headerReads (packet : PacketT) : List Nat :=
  [14, 23, 26, 27, 28, 29, 30, 31, 32, 33,
    14 + ihl packet, 14 + ihl packet + 1, 14 + ihl packet + 2, 14 + ihl packet + 3,
    14 + ihl packet + 12]

/-- **Nothing else is read**: packets of one length that agree on these bytes
    are parsed alike, whatever flow item they are parsed into. -/
theorem makeFlowItemTcp_reads {p q : PacketT} (flow flow' : FlowItem) (hlen : p.length = q.length)
    (hbytes : ∀ o ∈ headerReads p, p.data (payLen + o) = q.data (payLen + o)) :
    parsed p (makeFlowItemTcp flow p) = parsed q (makeFlowItemTcp flow' q) := by
  simp only [headerReads, List.forall_mem_cons, List.not_mem_nil, false_implies, implies_true,
    and_true, payLen] at hbytes
  obtain ⟨h14, h23, h26, h27, h28, h29, h30, h31, h32, h33, t0, t1, t2, t3, t12⟩ := hbytes
  have hihl : ihl q = ihl p := by
    unfold ihl ipHdr payLen ethHdrLen
    rw [show 2 + 14 + 0 = 2 + 14 from rfl, h14]
  have hs : saddr p = saddr q := by
    simp only [saddr, load32, load16, ipHdr, payLen, ethHdrLen, Nat.reduceAdd] at *
    rw [h26, h27, h28, h29]
  have hd : daddr p = daddr q := by
    simp only [daddr, load32, load16, ipHdr, payLen, ethHdrLen, Nat.reduceAdd] at *
    rw [h30, h31, h32, h33]
  have hproto : ipProtocol p = ipProtocol q := by
    simp only [ipProtocol, ipHdr, payLen, ethHdrLen, Nat.reduceAdd] at *
    exact h23
  -- the TCP header starts at the same place in both, so its bytes are among those compared
  have htcp : ∀ k, p.data (2 + (14 + ihl p + k)) = q.data (2 + (14 + ihl p + k)) →
      tcpHdr p k = tcpHdr q k := by
    intro k hk
    unfold tcpHdr payLen ethHdrLen
    rw [hihl, show 2 + 14 + ihl p + k = 2 + (14 + ihl p + k) by omega, hk]
  have hsource : source p = source q := by
    unfold source load16
    rw [htcp 0 t0, htcp (0 + 1) t1]
  have hdest : dest p = dest q := by
    unfold dest load16
    rw [htcp 2 t2, htcp (2 + 1) t3]
  have hhl : headerLen p = headerLen q := by
    unfold headerLen tcpLen
    rw [hihl, htcp 12 t12]
  simp only [parsed, makeFlowItemTcp, hs, hd, hproto, hsource, hdest, hhl, hlen]

/-! ## §4. The payload length. -/

theorem headerLen_le (packet : PacketT) : headerLen packet ≤ 136 := by
  have h1 := ihl_le packet
  have h2 := tcpLen_le packet
  unfold headerLen ethHdrLen payLen
  omega

/-- `payload_len` as a number: the frame length less the headers, modulo 2^32. -/
theorem payloadLen_toNat (flow : FlowItem) (packet : PacketT) :
    (makeFlowItemTcp flow packet).payloadLen.toNat
      = (2 ^ 32 + packet.length.toNat - (headerLen packet - payLen)) % 2 ^ 32 := by
  have hle := headerLen_le packet
  have hlen := packet.length.toNat_lt
  have hpay : payLen ≤ headerLen packet := by
    unfold headerLen
    omega
  show (packet.length - UInt32.ofNat (headerLen packet) + UInt32.ofNat payLen).toNat = _
  rw [UInt32.toNat_add, UInt32.toNat_sub, UInt32.toNat_ofNat', UInt32.toNat_ofNat']
  unfold payLen at *
  omega

/-- **The subtraction wraps exactly when the headers exceed the frame.** -/
theorem payloadLen_le_iff (flow : FlowItem) (packet : PacketT)
    (hlen : packet.length.toNat < 2 ^ 31) :
    (makeFlowItemTcp flow packet).payloadLen ≤ packet.length
      ↔ ethHdrLen + ihl packet + tcpLen packet ≤ packet.length.toNat := by
  have hle := headerLen_le packet
  rw [UInt32.le_iff_toNat_le, payloadLen_toNat]
  unfold headerLen payLen ethHdrLen at *
  omega

/-- As `unsigned int`s, headers and payload always add up to the frame. -/
theorem headerLen_add_payloadLen (flow : FlowItem) (packet : PacketT) :
    UInt32.ofNat (headerLen packet - payLen) + (makeFlowItemTcp flow packet).payloadLen
      = packet.length := by
  have hle := headerLen_le packet
  have hlen := packet.length.toNat_lt
  rw [← UInt32.toNat_inj, UInt32.toNat_add, payloadLen_toNat, UInt32.toNat_ofNat']
  omega

/-! ## §5. Well-formed TCP/IPv4 frames. -/

/-- `tot_len` of the IP header. -/
def totLen (packet : PacketT) : Nat := (ipHdr packet 2).toNat * 256 + (ipHdr packet 3).toNat

/-- A frame a TCP/IPv4 sender may put on the wire: EtherType, version and
    protocol as they must be, header lengths legal and inside the datagram,
    the datagram inside the frame. -/
def WellFormedTcp (packet : PacketT) : Prop :=
  packet.data (payLen + 12) = 0x08 ∧ packet.data (payLen + 13) = 0x00
    ∧ ipHdr packet 0 >>> 4 = 4 ∧ ipProtocol packet = 6
    ∧ 20 ≤ ihl packet ∧ 20 ≤ tcpLen packet ∧ ihl packet + tcpLen packet ≤ totLen packet
    ∧ ethHdrLen + totLen packet ≤ packet.length.toNat

instance (packet : PacketT) : Decidable (WellFormedTcp packet) := by
  unfold WellFormedTcp
  infer_instance

/-- The packet a collector stores for a frame given as its bytes. -/
def storedFrame (bytes : List UInt8) : PacketT :=
  { addr := (0, 0), data := memcpy (fun _ => 0) payLen (fun k => bytes.getD k 0) bytes.length
    length := UInt32.ofNat bytes.length, pool := 0 }

/-! ## §6. Blank items. -/

/-- An empty item and flow item of the first generator and the first parser. -/
def blankPacket : PacketT := { addr := (0, 0), data := fun _ => 0, length := 0, pool := 0 }

def blankFlow : FlowItem :=
  { addr := (0, 0), upperIp := 0, lowerIp := 0, upperPort := 0, lowerPort := 0, protocol := 0
    packet := blankPacket, payload := fun _ => 0, payloadLen := 0, pool := 0 }

end FreePacket.Packet
