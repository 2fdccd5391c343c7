/-
  FreePacket.Packet.Generate
  ──────────────────────────
  **THE PACKET BUILDERS (`packet_generator.c`).**

  A buffer is the bytes behind `packet->data`; the four layers write into it
  from the payload down: `pop_payload`, the transport header, the IP header,
  the Ethernet header.  The addresses and ports come from the cursors of the
  generator's own configuration, which each draw moves on.

  `pop_payload` copies the pattern over and over until less than one copy is
  left.  Its loop runs on signed `int`s and ends only because the pattern is
  not empty, so it takes `fuel` here and a theorem says how much is enough
  (`popPayload_spec`).

  Main results: `generatorTcpPacket_frame`, `generatorUdpPacket_frame` — what
  each builder leaves in the buffer, field by field.
-/
import FreePacket.ConfigFile.Record
import FreePacket.Packet.Frame

namespace FreePacket.Packet

open FreePacket.Lib FreePacket.ConfigFile

/-! ## §1. Constants and byte order. -/

/-- `IP_IDX`, `TCP_IDX`, `UDP_IDX`. -/
def ipIdx : Nat := 16
def tcpIdx : Nat := 36
def udpIdx : Nat := 36

/-- `IPPROTO_TCP`, `IPPROTO_UDP`. -/
def ipprotoTcp : UInt8 := 6
def ipprotoUdp : UInt8 := 17

/-- `IPVERSION`, `IPDEFTTL`, `ETH_P_IP`, `ETH_ALEN`. -/
def ipVersion : UInt8 := 4
def ipDefTtl : UInt8 := 64
def ethPIp : UInt16 := 0x0800
def ethAlen : Nat := 6

/-- On the little-endian host. -/
def htons (v : UInt16) : UInt16 := swap16 v
def htonl (v : UInt32) : UInt32 := swap32 v

/-! ## §2. The cursors. -/

/-- `GET_NEXT_*`: back to the minimum after the maximum, else one further. -/
def nextCursor (range : Range) : Range :=
  { range with cur := if range.cur = range.max then range.min else range.cur + 1 }

/-- `GET_NEXT_SRCIP` and its three siblings: the value is the cursor they leave. -/
def getNextSrcip (config : SimConfig) : UInt32 × SimConfig :=
  ((nextCursor config.saddr).cur, { config with saddr := nextCursor config.saddr })

def getNextDstip (config : SimConfig) : UInt32 × SimConfig :=
  ((nextCursor config.daddr).cur, { config with daddr := nextCursor config.daddr })

def getNextSrcport (config : SimConfig) : UInt32 × SimConfig :=
  ((nextCursor config.sport).cur, { config with sport := nextCursor config.sport })

def getNextDstport (config : SimConfig) : UInt32 × SimConfig :=
  ((nextCursor config.dport).cur, { config with dport := nextCursor config.dport })

/-- The configuration after one packet has drawn from all four cursors. -/
def advance (config : SimConfig) : SimConfig :=
  { config with
    saddr := nextCursor config.saddr
    daddr := nextCursor config.daddr
    sport := nextCursor config.sport
    dport := nextCursor config.dport }

/-! ## §3. The layers. -/

/-- An `int` where `memcpy` takes its `size_t`. -/
def sizeT (n : Int) : Nat := (n % 2 ^ 64).toNat

/-- The `while(j > i)` loop of `pop_payload`, where `i` is the length of the pattern. -/
def popLoop (data : PktData) (payload : Nat) :
    Nat → (Nat → UInt8) → Nat → Int → Option ((Nat → UInt8) × Nat × Int)
  | 0, _, _, _ => none
  | fuel + 1, mem, start, j =>
      if j > data.strlen then
        popLoop data payload fuel (memcpy mem (payload + start) data.chars data.strlen)
          (start + data.strlen) (j - data.strlen)
      else some (mem, start, j)

/-- `pop_payload`: the buffer, and the length it returns. -/
def popPayload (fuel : Nat) (mem : Nat → UInt8) (payload : Nat) (data : PktData)
    (config : SimConfig) : Option ((Nat → UInt8) × Int) :=
  let j := config.pktlen - 54
  let mem :=
    if (data.strlen : Int) > j then memcpy mem payload data.chars (sizeT j) else mem
  match popLoop data payload fuel mem 0 j with
  | none => none
  | some (mem, start, j) =>
      some (memcpy mem (payload + start) data.chars (sizeT j), config.pktlen - 54)

/-- `pop_transmission_tcp`. -/
def popTransmissionTcp (mem : Nat → UInt8) (tcph : Nat) (config : SimConfig) :
    (Nat → UInt8) × SimConfig :=
  let (sport, config) := getNextSrcport config
  let mem := store16 mem tcph (htons sport.toUInt16)
  let (dport, config) := getNextDstport config
  let mem := store16 mem (tcph + 2) (htons dport.toUInt16)
  -- `doff` is the upper nibble of its byte
  let mem := store8 mem (tcph + 12) (setHigh (mem (tcph + 12)) 5)
  (mem, config)

/-- `pop_transmission_udp`. -/
def popTransmissionUdp (mem : Nat → UInt8) (udph : Nat) (config : SimConfig) :
    (Nat → UInt8) × SimConfig :=
  let (sport, config) := getNextSrcport config
  let mem := store16 mem udph (htons sport.toUInt16)
  let (dport, config) := getNextDstport config
  let mem := store16 mem (udph + 2) (htons dport.toUInt16)
  let mem := store16 mem (udph + 4) (htons (UInt16.ofInt (config.pktlen - udpIdx)))
  (mem, config)

/-- `pop_iplayer_tcp`. -/
def popIplayerTcp (mem : Nat → UInt8) (iph : Nat) (config : SimConfig) :
    (Nat → UInt8) × SimConfig :=
  let mem := store8 mem iph (setHigh (mem iph) ipVersion)
  let mem := store8 mem iph (setLow (mem iph) 5)
  let mem := store16 mem (iph + 2) (htons (UInt16.ofInt (config.pktlen - ipIdx)))
  let mem := store8 mem (iph + 8) ipDefTtl
  let mem := store8 mem (iph + 9) ipprotoTcp
  let (saddr, config) := getNextSrcip config
  let mem := store32 mem (iph + 12) (htonl saddr)
  let (daddr, config) := getNextDstip config
  let mem := store32 mem (iph + 16) (htonl daddr)
  (mem, config)

/-- `pop_iplayer_udp`: neither version nor time to live. -/
def popIplayerUdp (mem : Nat → UInt8) (iph : Nat) (config : SimConfig) :
    (Nat → UInt8) × SimConfig :=
  let mem := store8 mem iph (setLow (mem iph) 5)
  let mem := store16 mem (iph + 2) (htons (UInt16.ofInt (config.pktlen - ipIdx)))
  let mem := store8 mem (iph + 9) ipprotoUdp
  let (saddr, config) := getNextSrcip config
  let mem := store32 mem (iph + 12) (htonl saddr)
  let (daddr, config) := getNextDstip config
  let mem := store32 mem (iph + 16) (htonl daddr)
  (mem, config)

/-- `pop_datalink`. -/
def popDatalink (mem : Nat → UInt8) (packet : Nat) (config : SimConfig) : Nat → UInt8 :=
  let mem := memcpy mem packet (fun k => config.dstmac.toArray.getD k 0) ethAlen
  let mem := memcpy mem (packet + 6) (fun k => config.srcmac.toArray.getD k 0) ethAlen
  store16 mem (packet + 12) (htons ethPIp)

/-! ## §4. The builders. -/

/-- `GenerHandler`.  `none` is a run that has no result: the payload loop is
    out of fuel, or `pkt_data` is a null pointer. -/
abbrev GenerHandler := Nat → PacketT → SimConfig → Option (PacketT × SimConfig)

/-- `generator_tcp_packet`. -/
def generatorTcpPacket : GenerHandler := fun fuel packet config => do
  let pktData ← config.pktData
  let (mem, _) ← popPayload fuel packet.data 56 pktData config
  let (mem, config) := popTransmissionTcp mem tcpIdx config
  let (mem, config) := popIplayerTcp mem ipIdx config
  let mem := popDatalink mem payLen config
  some ({ packet with data := mem }, config)

/-- `generator_udp_packet`. -/
def generatorUdpPacket : GenerHandler := fun fuel packet config => do
  let pktData ← config.pktData
  let (mem, _) ← popPayload fuel packet.data 44 pktData config
  let (mem, config) := popTransmissionUdp mem udpIdx config
  let (mem, config) := popIplayerUdp mem ipIdx config
  let mem := popDatalink mem payLen config
  some ({ packet with data := mem }, config)

/-- `generator_mode`: the builder the protocol selects, none for any other. -/
def generatorMode (config : SimConfig) : Option GenerHandler :=
  if config.protocol = 6 then some generatorTcpPacket
  else if config.protocol = 17 then some generatorUdpPacket
  else none

/-! ## §5. The payload. -/

theorem sizeT_of_nonneg {n : Int} (h : 0 ≤ n) (hlt : n < 2 ^ 64) : (sizeT n : Int) = n := by
  unfold sizeT
  rw [Int.emod_eq_of_lt h hlt, Int.toNat_of_nonneg h]

/-- **The loop**: whole copies of the pattern, until no more than one is left.
    Every round takes at least one byte off `j`, so `j` rounds are enough. -/
theorem popLoop_spec {data : PktData} (hdata : data.bytes ≠ []) (payload : Nat) :
    ∀ (fuel : Nat) (mem : Nat → UInt8) (q : Nat) (j : Int), 0 ≤ j → j < fuel →
      Repeats mem payload (q * data.strlen) data.chars data.strlen →
      ∃ (mem' : Nat → UInt8) (q' : Nat) (j' : Int),
        popLoop data payload fuel mem (q * data.strlen) j
            = some (mem', q' * data.strlen, j')
          ∧ 0 ≤ j' ∧ j' ≤ data.strlen
          ∧ ((q' * data.strlen : Nat) : Int) + j' = (q * data.strlen : Nat) + j
          ∧ Repeats mem' payload (q' * data.strlen) data.chars data.strlen
          ∧ ∀ a : Nat, a < payload ∨ (payload : Int) + (q * data.strlen : Nat) + j ≤ a →
            mem' a = mem a := by
  have hpos : 0 < data.strlen := List.length_pos_iff.mpr hdata
  intro fuel
  induction fuel with
  | zero =>
      intro mem q j hj hfuel _
      omega
  | succ fuel ih =>
      intro mem q j hj hfuel hrep
      unfold popLoop
      -- one more copy of the payload, or the rest is shorter
      by_cases hmore : j > data.strlen
      · rw [if_pos hmore]
        have hstart : q * data.strlen + data.strlen = (q + 1) * data.strlen := by
          rw [Nat.add_mul, Nat.one_mul]
        -- `q` copies, and one more behind them
        have hnext := hrep.append (Nat.le_refl data.strlen)
        rw [hstart] at hnext ⊢
        obtain ⟨mem', q', j', hrun, h₀, h₁, hsum, hrep', hframe⟩ :=
          ih _ (q + 1) (j - data.strlen) (by omega) (by omega) hnext
        rw [← hstart] at hsum hframe
        refine ⟨mem', q', j', hrun, h₀, h₁, by omega, hrep', ?_⟩
        intro a ha
        rw [hframe a (by omega), memcpy_outside mem data.chars (by omega)]
      · rw [if_neg hmore]
        exact ⟨mem, q, j, rfl, hj, by omega, rfl, hrep, fun _ _ => rfl⟩

/-- **The payload area and nothing else** is filled with the pattern. -/
theorem popPayload_spec {data : PktData} (hdata : data.bytes ≠ []) {config : SimConfig}
    (hlen : 54 ≤ config.pktlen) {fuel : Nat} (hfuel : config.pktlen ≤ fuel)
    (mem : Nat → UInt8) (payload : Nat) :
    ∃ mem' : Nat → UInt8,
      popPayload fuel mem payload data config = some (mem', config.pktlen - 54)
        ∧ Repeats mem' payload (config.pktlen - 54).toNat data.chars data.strlen
        ∧ ∀ a : Nat, a < payload ∨ (payload : Int) + (config.pktlen - 54) ≤ a →
          mem' a = mem a := by
  have hint : config.pktlen < 2 ^ 31 := Int32.toInt_lt _
  generalize hj : config.pktlen - 54 = j
  have hj₀ : 0 ≤ j := by omega
  -- a pattern longer than the area is cut, and copied a second time below
  generalize hfirst : (if (data.strlen : Int) > j then memcpy mem payload data.chars (sizeT j)
    else mem) = first
  have hkeep : ∀ a : Nat, a < payload ∨ (payload : Int) + j ≤ a → first a = mem a := by
    intro a ha
    rw [← hfirst]
    split
    · have hsize := sizeT_of_nonneg hj₀ (by omega)
      rw [memcpy_outside mem data.chars (by omega)]
    · rfl
  have hnone : Repeats first payload (0 * data.strlen) data.chars data.strlen := by
    intro k hk
    omega
  obtain ⟨mem', q, j', hrun, h₀, h₁, hsum, hrep, hframe⟩ :=
    popLoop_spec hdata payload fuel first 0 j hj₀ (by omega) hnone
  have hsize := sizeT_of_nonneg h₀ (by omega)
  rw [Nat.zero_mul] at hrun
  refine ⟨memcpy mem' (payload + q * data.strlen) data.chars (sizeT j'), ?_, ?_, ?_⟩
  · unfold popPayload
    simp only [hj, hfirst, hrun]
  · have hall := hrep.append (m := sizeT j') (by omega)
    rw [show j.toNat = q * data.strlen + sizeT j' by omega]
    exact hall
  · intro a ha
    rw [memcpy_outside mem' data.chars (by omega), hframe a (by omega), hkeep a ha]

/-! ## §6. What each layer writes. -/

theorem popTransmissionTcp_spec (mem : Nat → UInt8) (tcph : Nat) (config : SimConfig) :
    load16 (popTransmissionTcp mem tcph config).1 tcph
        = htons (nextCursor config.sport).cur.toUInt16
      ∧ load16 (popTransmissionTcp mem tcph config).1 (tcph + 2)
        = htons (nextCursor config.dport).cur.toUInt16
      ∧ (popTransmissionTcp mem tcph config).1 (tcph + 12) >>> (4 : UInt8) = 5
      ∧ ∀ a, a < tcph ∨ tcph + 13 ≤ a → (popTransmissionTcp mem tcph config).1 a = mem a := by
  simp only [popTransmissionTcp, getNextSrcport, getNextDstport]
  refine ⟨?_, ?_, ?_, ?_⟩
  · unfold store8
    rw [load16_memcpy_outside _ _ (by omega)]
    show load16 (memcpy _ (tcph + 2) _ 2) tcph = _
    rw [load16_memcpy_outside _ _ (by omega), load16_store16]
  · unfold store8
    rw [load16_memcpy_outside _ _ (by omega), load16_store16]
  · rw [store8_self, setHigh_high]
    decide
  · intro a ha
    unfold store8 store16
    rw [memcpy_outside _ _ (by omega), memcpy_outside _ _ (by omega),
      memcpy_outside _ _ (by omega)]

theorem popTransmissionUdp_spec (mem : Nat → UInt8) (udph : Nat) (config : SimConfig) :
    load16 (popTransmissionUdp mem udph config).1 udph
        = htons (nextCursor config.sport).cur.toUInt16
      ∧ load16 (popTransmissionUdp mem udph config).1 (udph + 2)
        = htons (nextCursor config.dport).cur.toUInt16
      ∧ load16 (popTransmissionUdp mem udph config).1 (udph + 4)
        = htons (UInt16.ofInt (config.pktlen - udpIdx))
      ∧ ∀ a, a < udph ∨ udph + 6 ≤ a → (popTransmissionUdp mem udph config).1 a = mem a := by
  simp only [popTransmissionUdp, getNextSrcport, getNextDstport]
  refine ⟨?_, ?_, ?_, ?_⟩
  · show load16 (memcpy (memcpy _ (udph + 2) _ 2) (udph + 4) _ 2) udph = _
    rw [load16_memcpy_outside _ _ (by omega), load16_memcpy_outside _ _ (by omega),
      load16_store16]
  · show load16 (memcpy _ (udph + 4) _ 2) (udph + 2) = _
    rw [load16_memcpy_outside _ _ (by omega), load16_store16]
  · rw [load16_store16]
    rfl
  · intro a ha
    unfold store16
    rw [memcpy_outside _ _ (by omega), memcpy_outside _ _ (by omega),
      memcpy_outside _ _ (by omega)]

/-- What both IP layers write, and that they leave the rest alone. -/
structure IpWritten (config : SimConfig) (protocol : UInt8) (mem mem' : Nat → UInt8) (iph : Nat) :
    Prop where
  ihl : mem' iph &&& 0x0f = 5
  totLen : load16 mem' (iph + 2) = htons (UInt16.ofInt (config.pktlen - ipIdx))
  protocol_eq : mem' (iph + 9) = protocol
  saddr : load32 mem' (iph + 12) = htonl (nextCursor config.saddr).cur
  daddr : load32 mem' (iph + 16) = htonl (nextCursor config.daddr).cur
  outside : ∀ a, a < iph ∨ iph + 20 ≤ a → mem' a = mem a

theorem popIplayerTcp_written (mem : Nat → UInt8) (iph : Nat) (config : SimConfig) :
    IpWritten config ipprotoTcp mem (popIplayerTcp mem iph config).1 iph := by
  simp only [popIplayerTcp, getNextSrcip, getNextDstip, store8, store16, store32]
  refine ⟨?_, ?_, ?_, ?_, load32_store32 _ _ _, ?_⟩
  · simp (disch := omega) only [memcpy_outside]
    show store8 _ iph (setLow _ 5) iph &&& 0x0f = 5
    rw [store8_self, setLow_low]
    decide
  · simp (disch := omega) only [load16_memcpy_outside]
    exact load16_store16 _ _ _
  · simp (disch := omega) only [memcpy_outside]
    exact store8_self _ _ _
  · simp (disch := omega) only [load32_memcpy_outside]
    exact load32_store32 _ _ _
  · intro a ha
    simp (disch := omega) only [memcpy_outside]

theorem popIplayerTcp_version (mem : Nat → UInt8) (iph : Nat) (config : SimConfig) :
    (popIplayerTcp mem iph config).1 iph >>> (4 : UInt8) = ipVersion := by
  simp only [popIplayerTcp, getNextSrcip, getNextDstip, store8, store16, store32]
  simp (disch := omega) only [memcpy_outside]
  show store8 _ iph (setLow (store8 _ iph (setHigh _ ipVersion) iph) 5) iph >>> (4 : UInt8) = _
  rw [store8_self, setLow_high, store8_self, setHigh_high]
  decide

theorem popIplayerUdp_written (mem : Nat → UInt8) (iph : Nat) (config : SimConfig) :
    IpWritten config ipprotoUdp mem (popIplayerUdp mem iph config).1 iph := by
  simp only [popIplayerUdp, getNextSrcip, getNextDstip, store8, store16, store32]
  refine ⟨?_, ?_, ?_, ?_, load32_store32 _ _ _, ?_⟩
  · simp (disch := omega) only [memcpy_outside]
    show store8 _ iph (setLow _ 5) iph &&& 0x0f = 5
    rw [store8_self, setLow_low]
    decide
  · simp (disch := omega) only [load16_memcpy_outside]
    exact load16_store16 _ _ _
  · simp (disch := omega) only [memcpy_outside]
    exact store8_self _ _ _
  · simp (disch := omega) only [load32_memcpy_outside]
    exact load32_store32 _ _ _
  · intro a ha
    simp (disch := omega) only [memcpy_outside]

/-- The UDP layer leaves the version nibble as it finds it. -/
theorem popIplayerUdp_version (mem : Nat → UInt8) (iph : Nat) (config : SimConfig) :
    (popIplayerUdp mem iph config).1 iph >>> (4 : UInt8) = mem iph >>> (4 : UInt8) := by
  simp only [popIplayerUdp, getNextSrcip, getNextDstip, store8, store16, store32]
  simp (disch := omega) only [memcpy_outside]
  show store8 _ iph (setLow _ 5) iph >>> (4 : UInt8) = _
  rw [store8_self, setLow_high]

theorem popDatalink_spec (mem : Nat → UInt8) (packet : Nat) (config : SimConfig) :
    (∀ k, k < ethAlen →
        popDatalink mem packet config (packet + k) = config.dstmac.toArray.getD k 0)
      ∧ (∀ k, k < ethAlen →
        popDatalink mem packet config (packet + 6 + k) = config.srcmac.toArray.getD k 0)
      ∧ load16 (popDatalink mem packet config) (packet + 12) = htons ethPIp
      ∧ ∀ a, a < packet ∨ packet + 14 ≤ a → popDatalink mem packet config a = mem a := by
  unfold popDatalink ethAlen store16
  refine ⟨?_, ?_, load16_store16 _ _ _, ?_⟩
  · intro k hk
    rw [memcpy_outside _ _ (by omega), memcpy_outside _ _ (by omega),
      memcpy_inside _ _ (by omega) (by omega), Nat.add_sub_cancel_left]
  · intro k hk
    rw [memcpy_outside _ _ (by omega), memcpy_inside _ _ (by omega) (by omega),
      Nat.add_sub_cancel_left]
  · intro a ha
    rw [memcpy_outside _ _ (by omega), memcpy_outside _ _ (by omega),
      memcpy_outside _ _ (by omega)]

/-! ## §7. What a builder leaves in the buffer. -/

/-- The fields both builders set, with the payload area from `payload` on. -/
structure Built (config : SimConfig) (data : PktData) (protocol : UInt8) (payload : Nat)
    (mem mem' : Nat → UInt8) : Prop where
  hDest : ∀ k, k < ethAlen → mem' (payLen + k) = config.dstmac.toArray.getD k 0
  hSource : ∀ k, k < ethAlen → mem' (payLen + 6 + k) = config.srcmac.toArray.getD k 0
  hProto : load16 mem' (payLen + 12) = htons ethPIp
  ip : IpWritten config protocol mem' mem' ipIdx
  sport : load16 mem' tcpIdx = htons (nextCursor config.sport).cur.toUInt16
  dport : load16 mem' (tcpIdx + 2) = htons (nextCursor config.dport).cur.toUInt16
  pattern : Repeats mem' payload (config.pktlen - 54).toNat data.chars data.strlen
  outside : ∀ a : Nat, a < payLen ∨ (payload : Int) + (config.pktlen - 54) ≤ a → mem' a = mem a

/-- The lower layers do not disturb what the upper ones have written. -/
theorem IpWritten.congr {config : SimConfig} {protocol : UInt8} {mem mem₁ mem₂ : Nat → UInt8}
    {iph : Nat} (h : IpWritten config protocol mem mem₁ iph)
    (heq : ∀ a, iph ≤ a → a < iph + 20 → mem₂ a = mem₁ a) :
    IpWritten config protocol mem₂ mem₂ iph := by
  refine ⟨?_, ?_, ?_, ?_, ?_, fun _ _ => rfl⟩
  · rw [heq iph (by omega) (by omega)]
    exact h.ihl
  · rw [load16_congr fun a _ _ => heq a (by omega) (by omega)]
    exact h.totLen
  · rw [heq (iph + 9) (by omega) (by omega)]
    exact h.protocol_eq
  · rw [load32_congr fun a _ _ => heq a (by omega) (by omega)]
    exact h.saddr
  · rw [load32_congr fun a _ _ => heq a (by omega) (by omega)]
    exact h.daddr

/-- The four layers on top of each other. -/
theorem built_of_layers {config : SimConfig} {data : PktData} {protocol : UInt8} {payload : Nat}
    {mem m₁ m₂ m₃ : Nat → UInt8} (hlen : 54 ≤ config.pktlen) (hpayload : 44 ≤ payload)
    (hpattern : Repeats m₁ payload (config.pktlen - 54).toNat data.chars data.strlen)
    (hout₁ : ∀ a : Nat, a < payload ∨ (payload : Int) + (config.pktlen - 54) ≤ a → m₁ a = mem a)
    (hsource : load16 m₂ tcpIdx = htons (nextCursor config.sport).cur.toUInt16)
    (hdest : load16 m₂ (tcpIdx + 2) = htons (nextCursor config.dport).cur.toUInt16)
    (hout₂ : ∀ a, a < tcpIdx ∨ payload ≤ a → m₂ a = m₁ a)
    (hip : IpWritten config protocol m₂ m₃ ipIdx) :
    Built config data protocol payload mem (popDatalink m₃ payLen (advance config)) := by
  obtain ⟨heth₁, heth₂, heth₃, hout₄⟩ := popDatalink_spec m₃ payLen (advance config)
  -- from the transport header on, the IP and Ethernet layers change nothing
  have hkeep : ∀ a, a < payLen ∨ tcpIdx ≤ a →
      popDatalink m₃ payLen (advance config) a = m₂ a := by
    intro a ha
    unfold payLen tcpIdx at ha
    rw [hout₄ a (by unfold payLen; omega), hip.outside a (by unfold ipIdx; omega)]
  refine ⟨heth₁, heth₂, heth₃, ?_, ?_, ?_, ?_, ?_⟩
  · exact hip.congr fun a h _ => hout₄ a (by unfold payLen; unfold ipIdx at h; omega)
  · rw [← hsource]
    exact load16_congr fun a h _ => hkeep a (Or.inr h)
  · rw [← hdest]
    exact load16_congr fun a h _ => hkeep a (Or.inr (by omega))
  · intro k hk
    rw [hkeep _ (Or.inr (by unfold tcpIdx; omega)), hout₂ _ (Or.inr (by omega))]
    exact hpattern k hk
  · intro a ha
    unfold payLen at ha
    rw [hkeep a (by unfold payLen tcpIdx; omega), hout₂ a (by unfold tcpIdx; omega),
      hout₁ a (by omega)]

/-- **The TCP builder**: all the shared fields, version 4 and `doff` 5. -/
theorem generatorTcpPacket_built {config : SimConfig} {data : PktData}
    (hset : config.pktData = some data) (hdata : data.bytes ≠ []) (hlen : 54 ≤ config.pktlen)
    {fuel : Nat} (hfuel : config.pktlen ≤ fuel) (packet : PacketT) :
    ∃ mem' : Nat → UInt8,
      generatorTcpPacket fuel packet config = some ({ packet with data := mem' }, advance config)
        ∧ Built config data ipprotoTcp 56 packet.data mem'
        ∧ mem' ipIdx >>> (4 : UInt8) = ipVersion ∧ mem' (tcpIdx + 12) >>> (4 : UInt8) = 5 := by
  obtain ⟨m₁, hrun, hpattern, hout₁⟩ := popPayload_spec hdata hlen hfuel packet.data 56
  obtain ⟨hsource, hdest, hdoff, hout₂⟩ := popTransmissionTcp_spec m₁ tcpIdx config
  have hip := popIplayerTcp_written (popTransmissionTcp m₁ tcpIdx config).1 ipIdx config
  have hversion := popIplayerTcp_version (popTransmissionTcp m₁ tcpIdx config).1 ipIdx config
  obtain ⟨_, _, _, hout₄⟩ := popDatalink_spec
    (popIplayerTcp (popTransmissionTcp m₁ tcpIdx config).1 ipIdx config).1 payLen (advance config)
  refine ⟨_, ?_, built_of_layers hlen (by decide) hpattern hout₁ hsource hdest ?_ hip, ?_, ?_⟩
  · unfold generatorTcpPacket
    simp only [hset, hrun, Option.bind_eq_bind, Option.bind_some]
    rfl
  · intro a ha
    exact hout₂ a (by unfold tcpIdx at *; omega)
  · rw [hout₄ _ (by decide)]
    exact hversion
  · rw [hout₄ _ (by decide), hip.outside _ (by decide)]
    exact hdoff

/-- **The UDP builder**: all the shared fields and the UDP length; the version
    and the last twelve bytes of the frame are what the buffer had. -/
theorem generatorUdpPacket_built {config : SimConfig} {data : PktData}
    (hset : config.pktData = some data) (hdata : data.bytes ≠ []) (hlen : 54 ≤ config.pktlen)
    {fuel : Nat} (hfuel : config.pktlen ≤ fuel) (packet : PacketT) :
    ∃ mem' : Nat → UInt8,
      generatorUdpPacket fuel packet config = some ({ packet with data := mem' }, advance config)
        ∧ Built config data ipprotoUdp 44 packet.data mem'
        ∧ mem' ipIdx >>> (4 : UInt8) = packet.data ipIdx >>> (4 : UInt8)
        ∧ load16 mem' (udpIdx + 4) = htons (UInt16.ofInt (config.pktlen - udpIdx)) := by
  obtain ⟨m₁, hrun, hpattern, hout₁⟩ := popPayload_spec hdata hlen hfuel packet.data 44
  obtain ⟨hsource, hdest, hudpLen, hout₂⟩ := popTransmissionUdp_spec m₁ udpIdx config
  have hip := popIplayerUdp_written (popTransmissionUdp m₁ udpIdx config).1 ipIdx config
  have hversion := popIplayerUdp_version (popTransmissionUdp m₁ udpIdx config).1 ipIdx config
  obtain ⟨_, _, _, hout₄⟩ := popDatalink_spec
    (popIplayerUdp (popTransmissionUdp m₁ udpIdx config).1 ipIdx config).1 payLen (advance config)
  refine ⟨_, ?_, built_of_layers hlen (by decide) hpattern hout₁ hsource hdest ?_ hip, ?_, ?_⟩
  · unfold generatorUdpPacket
    simp only [hset, hrun, Option.bind_eq_bind, Option.bind_some]
    rfl
  · intro a ha
    exact hout₂ a (by unfold tcpIdx udpIdx at *; omega)
  · rw [hout₄ _ (by decide), hversion, hout₂ _ (by decide), hout₁ _ (Or.inl (by decide))]
  · rw [← hudpLen]
    refine load16_congr fun a h _ => ?_
    unfold udpIdx at h
    rw [hout₄ a (by unfold payLen; omega), hip.outside a (by unfold ipIdx; omega)]

end FreePacket.Packet
