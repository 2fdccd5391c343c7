/-
  FreePacket.Packet.RoundTrip
  ───────────────────────────
  **WHAT THE BUILDERS WRITE AGAINST WHAT A READER EXPECTS.**

  Two readers of a generated frame.  The parser of this program finds in a
  TCP frame the addresses and ports just drawn and the payload pattern
  (`generateThenParse_tcp`).  A reader of the IPv4 standard does not find a
  well-formed frame: `tot_len` is computed from `IP_IDX`, an offset into the
  buffer that counts the alignment pad, so it is two less than the datagram
  (`totLen_eq`).  Everything else in a TCP frame is as it should be
  (`tcpFrame_but_totLen`).
-/
import FreePacket.Packet.Generate

namespace FreePacket.Packet

open FreePacket.Lib FreePacket.ConfigFile

/-! ## §1. Generate, then parse. -/

/-- **The flow item describes the packet just built**: the ordered addresses
    and ports the cursors gave, and the pattern as its payload. -/
structure TcpRoundTrip (config config' : SimConfig) (data : PktData) (flow : FlowItem) : Prop where
  drawn : config' = advance config
  ips : (flow.upperIp, flow.lowerIp)
    = (max (htonl config'.saddr.cur) (htonl config'.daddr.cur),
      min (htonl config'.saddr.cur) (htonl config'.daddr.cur))
  ports : (flow.upperPort, flow.lowerPort)
    = ((max (htons config'.sport.cur.toUInt16) (htons config'.dport.cur.toUInt16)).toUInt32,
      (min (htons config'.sport.cur.toUInt16) (htons config'.dport.cur.toUInt16)).toUInt32)
  protocol_eq : flow.protocol = ipprotoTcp
  payloadLen_eq : (flow.payloadLen.toNat : Int) = config.pktlen - 54
  payload_eq : ∀ k, k < flow.payloadLen.toNat →
    data.bytes[k % data.strlen]? = some (flow.payload k)

section Headers

variable {config : SimConfig} {data : PktData} {packet : PacketT}

theorem Built.ihl_eq {payload : Nat} {mem : Nat → UInt8}
    (h : Built config data ipprotoTcp payload mem packet.data) : ihl packet = 20 := by
  have hihl : packet.data 16 &&& 0x0f = 5 := h.ip.ihl
  show (packet.data 16 &&& 0x0f).toNat * 4 = 20
  rw [hihl]
  rfl

/-- The parser's TCP header is where the builder put it. -/
theorem Built.tcpHdr_eq {payload : Nat} {mem : Nat → UInt8}
    (h : Built config data ipprotoTcp payload mem packet.data) (k : Nat) :
    tcpHdr packet k = packet.data (tcpIdx + k) := by
  unfold tcpHdr
  rw [h.ihl_eq]
  rfl

theorem Built.headerLen_eq {payload : Nat} {mem : Nat → UInt8}
    (h : Built config data ipprotoTcp payload mem packet.data)
    (hdoff : packet.data (tcpIdx + 12) >>> (4 : UInt8) = 5) : headerLen packet = 56 := by
  have htcp : tcpLen packet = 20 := by
    unfold tcpLen
    rw [h.tcpHdr_eq, hdoff]
    rfl
  unfold headerLen
  rw [h.ihl_eq, htcp]
  rfl

end Headers

/-- The parser's comparison orders a pair. -/
theorem ordered32_eq (a b : UInt32) :
    (if a ≥ b then a else b, if a ≥ b then b else a) = (max a b, min a b) := by
  show _ = (if a ≤ b then b else a, if a ≤ b then a else b)
  by_cases hba : b ≤ a
  · by_cases hab : a ≤ b
    · rw [UInt32.le_antisymm hab hba]
    · simp only [ge_iff_le, if_pos hba, if_neg hab]
  · have hab := (UInt32.le_total a b).resolve_right hba
    simp only [ge_iff_le, if_neg hba, if_pos hab]

theorem ordered16_eq (a b : UInt16) :
    (if a ≥ b then a.toUInt32 else b.toUInt32, if a ≥ b then b.toUInt32 else a.toUInt32)
      = ((max a b).toUInt32, (min a b).toUInt32) := by
  show _ = ((if a ≤ b then b else a).toUInt32, (if a ≤ b then a else b).toUInt32)
  by_cases hba : b ≤ a
  · by_cases hab : a ≤ b
    · rw [UInt16.le_antisymm hab hba]
      simp only [ge_iff_le, ite_self]
    · simp only [ge_iff_le, if_pos hba, if_neg hab]
  · have hab := (UInt16.le_total a b).resolve_right hba
    simp only [ge_iff_le, if_neg hba, if_pos hab]

theorem pattern_getElem? {data : PktData} (hdata : data.bytes ≠ []) (k : Nat) :
    data.bytes[k % data.strlen]? = some (data.chars (k % data.strlen)) := by
  have hlt : k % data.strlen < data.bytes.length := Nat.mod_lt _ (List.length_pos_iff.mpr hdata)
  unfold PktData.chars
  rw [List.getD_eq_getElem?_getD, List.getElem?_eq_getElem hlt, Option.getD_some]

/-- What the parser makes of a buffer the TCP builder has left. -/
theorem Built.roundTrip {config : SimConfig} {data : PktData} (packet : PacketT)
    {mem : Nat → UInt8} (h : Built config data ipprotoTcp 56 mem packet.data)
    (hdoff : packet.data (tcpIdx + 12) >>> (4 : UInt8) = 5) (hdata : data.bytes ≠ [])
    (hlen : 54 ≤ config.pktlen) (hlength : (packet.length.toNat : Int) = config.pktlen)
    (flow : FlowItem) :
    TcpRoundTrip config (advance config) data (makeFlowItemTcp flow packet) := by
  have hheader := h.headerLen_eq hdoff
  have hs : saddr packet = htonl (advance config).saddr.cur := h.ip.saddr
  have hd : daddr packet = htonl (advance config).daddr.cur := h.ip.daddr
  have hsource : source packet = htons (advance config).sport.cur.toUInt16 := by
    unfold source
    rw [show (advance config).sport = nextCursor config.sport from rfl, ← h.sport]
    unfold load16
    rw [h.tcpHdr_eq, h.tcpHdr_eq]
    rfl
  have hdest : dest packet = htons (advance config).dport.cur.toUInt16 := by
    unfold dest
    rw [show (advance config).dport = nextCursor config.dport from rfl, ← h.dport]
    unfold load16
    rw [h.tcpHdr_eq, h.tcpHdr_eq]
  have hpayloadLen : ((makeFlowItemTcp flow packet).payloadLen.toNat : Int)
      = config.pktlen - 54 := by
    have hlt := packet.length.toNat_lt
    rw [payloadLen_toNat, hheader]
    unfold payLen
    omega
  refine ⟨rfl, ?_, ?_, h.ip.protocol_eq, hpayloadLen, ?_⟩
  · simp only [makeFlowItemTcp, hs, hd]
    exact ordered32_eq _ _
  · simp only [makeFlowItemTcp, hsource, hdest]
    exact ordered16_eq _ _
  · intro k hk
    rw [pattern_getElem? hdata]
    have hrep := h.pattern k (by omega)
    show some _ = some (packet.data (headerLen packet + k))
    rw [hheader, hrep]

/-- **GENERATE, THEN PARSE**: for every configuration with a nonempty pattern,
    every state of the cursors and every prior content of the buffer. -/
theorem generateThenParse_tcp {config : SimConfig} {data : PktData}
    (hset : config.pktData = some data) (hdata : data.bytes ≠ []) (hlen : 54 ≤ config.pktlen)
    {fuel : Nat} (hfuel : config.pktlen ≤ fuel) {packet : PacketT}
    (hlength : (packet.length.toNat : Int) = config.pktlen) (flow : FlowItem) :
    ∃ packet' config', generatorTcpPacket fuel packet config = some (packet', config')
      ∧ TcpRoundTrip config config' data (makeFlowItemTcp flow packet') := by
  obtain ⟨mem', hrun, hbuilt, _, hdoff⟩ := generatorTcpPacket_built hset hdata hlen hfuel packet
  exact ⟨_, _, hrun, Built.roundTrip { packet with data := mem' } hbuilt hdoff hdata hlen
    hlength flow⟩

/-- The defaults with a pattern of two bytes. -/
def sampleData : PktData := ⟨[0x61, 0x62], by decide, by decide⟩

def sampleConfig : SimConfig := { initConfigS zeroConfig with pktData := some sampleData }

/-- The default addresses, ports and length. -/
theorem generateThenParse_sample :
    54 ≤ sampleConfig.pktlen ∧ ∃ packet' config',
      generatorTcpPacket 600 { blankPacket with length := 600 } sampleConfig
          = some (packet', config')
        ∧ TcpRoundTrip sampleConfig config' sampleData (makeFlowItemTcp blankFlow packet') :=
  ⟨by decide, generateThenParse_tcp rfl (by decide) (by decide) (by decide) (by decide) blankFlow⟩

/-! ## §2. A frame of the standard. -/

/-- The frame, which starts behind the pad. -/
def frameOf (packet : PacketT) : Nat → UInt8 := fun k => packet.data (payLen + k)

/-- Two bytes in network order. -/
def be16 (frame : Nat → UInt8) (off : Nat) : Nat :=
  (frame off).toNat * 256 + (frame (off + 1)).toNat

/-- Where the payload starts: behind a TCP header, or behind a UDP header. -/
def payloadStart (config : SimConfig) : Nat := if config.protocol = 6 then 54 else 42

/-- **A well-formed Ethernet/IPv4 frame** of `pktlen` bytes with the pattern's
    bytes as its payload. -/
structure WellFormedFrame (config : SimConfig) (data : PktData) (frame : Nat → UInt8) : Prop where
  etherType : be16 frame 12 = 0x0800
  version : frame 14 >>> (4 : UInt8) = 4
  ihl : frame 14 &&& 0x0f = 5
  totLen : (be16 frame 16 : Int) = config.pktlen - 14
  doff : config.protocol = 6 → frame 46 >>> (4 : UInt8) = 5
  udpLen : config.protocol = 17 → be16 frame 38 + 20 = be16 frame 16
  payload : ∀ k : Nat, (payloadStart config + k : Int) < config.pktlen →
    frame (payloadStart config + k) ∈ data.bytes

/-- What `htons` of an offset difference puts on the wire. -/
theorem be16_of_load16 (packet : PacketT) {off : Nat} {v : UInt16}
    (h : load16 packet.data (payLen + off) = htons v) : be16 (frameOf packet) off = v.toNat := by
  have hv := v.toNat_lt
  have h₀ := (packet.data (payLen + off)).toNat_lt
  have h₁ := (packet.data (payLen + off + 1)).toNat_lt
  rw [← UInt16.toNat_inj, load16_toNat] at h
  unfold htons at h
  rw [swap16_toNat] at h
  show (packet.data (payLen + off)).toNat * 256 + (packet.data (payLen + off + 1)).toNat = _
  omega

/-- **`tot_len` is two short**: the pad in front of the frame is subtracted
    with the Ethernet header. -/
theorem Built.totLen_eq {config : SimConfig} {data : PktData} {protocol : UInt8} {payload : Nat}
    {mem : Nat → UInt8} (packet : PacketT)
    (h : Built config data protocol payload mem packet.data) :
    (be16 (frameOf packet) 16 : Int) = (config.pktlen - 16) % 65536 := by
  have hnonneg := Int.emod_nonneg (config.pktlen - 16) (show (65536 : Int) ≠ 0 by decide)
  have hlt := Int.emod_lt_of_pos (config.pktlen - 16) (show (0 : Int) < 65536 by decide)
  rw [be16_of_load16 packet h.ip.totLen]
  show ((UInt16.ofNat ((config.pktlen - 16) % 65536).toNat).toNat : Int) = _
  rw [UInt16.toNat_ofNat']
  omega

theorem Built.not_wellFormed {config : SimConfig} {data : PktData} {protocol : UInt8}
    {payload : Nat} {mem : Nat → UInt8} (packet : PacketT)
    (h : Built config data protocol payload mem packet.data) :
    ¬ WellFormedFrame config data (frameOf packet) := by
  intro hwf
  have htot := hwf.totLen
  rw [h.totLen_eq packet] at htot
  omega

/-- Either builder fills the buffer and returns. -/
theorem generatorMode_built {config : SimConfig} {data : PktData} {handler : GenerHandler}
    (hmode : generatorMode config = some handler) (hset : config.pktData = some data)
    (hdata : data.bytes ≠ []) (hlen : 54 ≤ config.pktlen) {fuel : Nat}
    (hfuel : config.pktlen ≤ fuel) (packet : PacketT) :
    ∃ protocol payload mem',
      handler fuel packet config = some ({ packet with data := mem' }, advance config)
        ∧ Built config data protocol payload packet.data mem' := by
  unfold generatorMode at hmode
  split at hmode
  · obtain rfl := Option.some.inj hmode
    obtain ⟨mem', hrun, hbuilt, _⟩ := generatorTcpPacket_built hset hdata hlen hfuel packet
    exact ⟨_, _, mem', hrun, hbuilt⟩
  · split at hmode
    · obtain rfl := Option.some.inj hmode
      obtain ⟨mem', hrun, hbuilt, _⟩ := generatorUdpPacket_built hset hdata hlen hfuel packet
      exact ⟨_, _, mem', hrun, hbuilt⟩
    · exact absurd hmode (by simp)

/-- **NO GENERATED FRAME IS WELL FORMED**, over TCP or UDP, whatever the
    configuration, the cursors and the buffer were. -/
theorem generatedFrame_not_wellFormed {config : SimConfig} {data : PktData}
    {handler : GenerHandler} (hmode : generatorMode config = some handler)
    (hset : config.pktData = some data) (hdata : data.bytes ≠ []) (hlen : 54 ≤ config.pktlen)
    {fuel : Nat} (hfuel : config.pktlen ≤ fuel) (packet : PacketT) :
    ∃ packet' config', handler fuel packet config = some (packet', config')
      ∧ ¬ WellFormedFrame config data (frameOf packet') := by
  obtain ⟨protocol, payload, mem', hrun, hbuilt⟩ :=
    generatorMode_built hmode hset hdata hlen hfuel packet
  exact ⟨_, _, hrun, Built.not_wellFormed { packet with data := mem' } hbuilt⟩

/-- The default TCP configuration. -/
theorem sampleFrame_not_wellFormed :
    54 ≤ sampleConfig.pktlen ∧ ∃ packet' config',
      generatorTcpPacket 600 blankPacket sampleConfig = some (packet', config')
        ∧ ¬ WellFormedFrame sampleConfig sampleData (frameOf packet') :=
  ⟨by decide, generatedFrame_not_wellFormed rfl rfl (by decide) (by decide) (by decide) blankPacket⟩

/-- So the builders do not all leave well-formed frames. -/
theorem sampleFrame_refutes_wellFormed :
    ¬ ∀ (config : SimConfig) (data : PktData) (handler : GenerHandler) (packet : PacketT),
      generatorMode config = some handler → config.pktData = some data → data.bytes ≠ [] →
      54 ≤ config.pktlen → config.pktlen ≤ 1600 →
      ∃ packet' config', handler 1600 packet config = some (packet', config')
        ∧ WellFormedFrame config data (frameOf packet') := by
  intro hall
  obtain ⟨packet', config', hrun, hwf⟩ :=
    hall sampleConfig sampleData generatorTcpPacket blankPacket rfl rfl (by decide) (by decide)
      (by decide)
  obtain ⟨mem', hrun', hbuilt, _⟩ :=
    @generatorTcpPacket_built sampleConfig sampleData rfl (by decide) (by decide) 1600
      (by decide) blankPacket
  rw [hrun'] at hrun
  obtain ⟨rfl, _⟩ := Prod.mk.inj (Option.some.inj hrun)
  exact Built.not_wellFormed { blankPacket with data := mem' } hbuilt hwf

/-! ## §3. What is right, and what is left over. -/

/-- **All but `tot_len`** of a TCP frame is as the standard wants it. -/
theorem tcpFrame_but_totLen {config : SimConfig} {data : PktData}
    (hset : config.pktData = some data) (hdata : data.bytes ≠ []) (hlen : 54 ≤ config.pktlen)
    (hshort : config.pktlen ≤ 1600) {fuel : Nat} (hfuel : config.pktlen ≤ fuel)
    (packet : PacketT) :
    ∃ packet' config', generatorTcpPacket fuel packet config = some (packet', config')
      ∧ be16 (frameOf packet') 12 = 0x0800
      ∧ frameOf packet' 14 >>> (4 : UInt8) = 4 ∧ frameOf packet' 14 &&& 0x0f = 5
      ∧ (be16 (frameOf packet') 16 : Int) = config.pktlen - 16
      ∧ frameOf packet' 46 >>> (4 : UInt8) = 5
      ∧ ∀ k : Nat, (54 + k : Int) < config.pktlen →
        data.bytes[k % data.strlen]? = some (frameOf packet' (54 + k)) := by
  obtain ⟨mem', hrun, hbuilt, hversion, hdoff⟩ :=
    generatorTcpPacket_built hset hdata hlen hfuel packet
  refine ⟨_, _, hrun, be16_of_load16 { packet with data := mem' } hbuilt.hProto, hversion, hbuilt.ip.ihl, ?_, hdoff, ?_⟩
  · rw [Built.totLen_eq { packet with data := mem' } hbuilt]
    omega
  · intro k hk
    rw [pattern_getElem? hdata, ← hbuilt.pattern k (by omega)]
    show some (mem' (56 + k)) = some (mem' (2 + (54 + k)))
    rw [show 2 + (54 + k) = 56 + k by omega]

/-- **A UDP frame** has consistent lengths, but its version and its last twelve
    bytes are those of the packet that was in the buffer before. -/
theorem udpFrame_leftovers {config : SimConfig} {data : PktData}
    (hset : config.pktData = some data) (hdata : data.bytes ≠ []) (hlen : 54 ≤ config.pktlen)
    (hshort : config.pktlen ≤ 1600) {fuel : Nat} (hfuel : config.pktlen ≤ fuel)
    (packet : PacketT) :
    ∃ packet' config', generatorUdpPacket fuel packet config = some (packet', config')
      ∧ be16 (frameOf packet') 12 = 0x0800 ∧ frameOf packet' 14 &&& 0x0f = 5
      ∧ be16 (frameOf packet') 38 + 20 = be16 (frameOf packet') 16
      ∧ frameOf packet' 14 >>> (4 : UInt8) = frameOf packet 14 >>> (4 : UInt8)
      ∧ ∀ k : Nat, config.pktlen - 12 ≤ k → frameOf packet' k = frameOf packet k := by
  obtain ⟨mem', hrun, hbuilt, hversion, hudpLen⟩ :=
    generatorUdpPacket_built hset hdata hlen hfuel packet
  refine ⟨_, _, hrun, be16_of_load16 { packet with data := mem' } hbuilt.hProto, hbuilt.ip.ihl, ?_,
    hversion, ?_⟩
  · have htot := Built.totLen_eq { packet with data := mem' } hbuilt
    rw [be16_of_load16 { packet with data := mem' } hudpLen]
    have hlen' : ((UInt16.ofInt (config.pktlen - udpIdx)).toNat : Int) = config.pktlen - 36 := by
      show ((UInt16.ofNat ((config.pktlen - 36) % 2 ^ 16).toNat).toNat : Int) = _
      rw [UInt16.toNat_ofNat']
      omega
    omega
  · intro k hk
    exact hbuilt.outside (payLen + k) (Or.inr (by unfold payLen; push_cast; omega))

end FreePacket.Packet
