/-
  FreePacket.Generator.Rewrite
  ────────────────────────────
  **FOUR FIELDS REWRITTEN IN PLACE against the packet built anew.**

  `make_all_packet` lets the builder write every buffer of the pool once.
  From then on the loop of `packet_generator` only stores two ports (through
  a TCP header, over UDP too) and two addresses (at 28 and 32).  What the
  builder would write besides these twelve bytes is in the buffer already,
  and no step of the pipeline takes it out.

  Main results:
    * `Prepared.rebuild` — on a prepared buffer the builder does what the
      four stores do.
    * `Builds.prepared` — the builder prepares any buffer.
    * `makeAllPacket_prepares` — every buffer of the pool once, in order.
-/
import FreePacket.Lib.Fifo
import FreePacket.Packet.RoundTrip
import FreePacket.Session.Stage

namespace FreePacket.Generator

open FreePacket.Lib FreePacket.Packet FreePacket.ConfigFile
open FreePacket.Session (queueCapacity)

/-! ## §1. The stores of the loop. -/

/-- The body of the `while` loop of `packet_generator`, from
    `tcp->source = …` to the second address. -/
def rewriteHeaders (packet : PacketT) (config : SimConfig) : PacketT × SimConfig :=
  let (sport, config) := getNextSrcport config
  let mem := store16 packet.data tcpIdx (htons sport.toUInt16)
  let (dport, config) := getNextDstport config
  let mem := store16 mem (tcpIdx + 2) (htons dport.toUInt16)
  let (saddr, config) := getNextSrcip config
  let mem := store32 mem 28 (htonl saddr)
  let (daddr, config) := getNextDstip config
  let mem := store32 mem 32 (htonl daddr)
  ({ packet with data := mem }, config)

/-- The configuration with the port cursors, or the address cursors, moved on. -/
def drawPorts (config : SimConfig) : SimConfig :=
  { config with sport := nextCursor config.sport, dport := nextCursor config.dport }

def drawAddresses (config : SimConfig) : SimConfig :=
  { config with saddr := nextCursor config.saddr, daddr := nextCursor config.daddr }

/-- The two ports stored. -/
def portsWritten (mem : Nat → UInt8) (config : SimConfig) : Nat → UInt8 :=
  store16 (store16 mem tcpIdx (htons (nextCursor config.sport).cur.toUInt16)) (tcpIdx + 2)
    (htons (nextCursor config.dport).cur.toUInt16)

/-- The two addresses stored. -/
def addressesWritten (mem : Nat → UInt8) (config : SimConfig) : Nat → UInt8 :=
  store32 (store32 mem 28 (htonl (nextCursor config.saddr).cur)) 32
    (htonl (nextCursor config.daddr).cur)

theorem rewriteHeaders_eq (packet : PacketT) (config : SimConfig) :
    rewriteHeaders packet config
      = ({ packet with data := addressesWritten (portsWritten packet.data config) config },
        advance config) := rfl

/-- The stores stay in the twelve bytes from 28 on. -/
theorem portsWritten_outside (mem : Nat → UInt8) (config : SimConfig) {a : Nat}
    (ha : a < 28 ∨ 40 ≤ a) : portsWritten mem config a = mem a := by
  unfold portsWritten store16 tcpIdx
  rw [memcpy_outside _ _ (by omega), memcpy_outside _ _ (by omega)]

theorem addressesWritten_outside (mem : Nat → UInt8) (config : SimConfig) {a : Nat}
    (ha : a < 28 ∨ 40 ≤ a) : addressesWritten mem config a = mem a := by
  unfold addressesWritten store32
  rw [memcpy_outside _ _ (by omega), memcpy_outside _ _ (by omega)]

/-! ## §2. Prepared buffers. -/

/-- Where the builder of the protocol puts the payload. -/
def payloadIdx (config : SimConfig) : Nat := if config.protocol = 6 then 56 else 44

/-- **All a builder writes but the addresses and ports.** -/
structure Prepared (config : SimConfig) (data : PktData) (mem : Nat → UInt8) : Prop where
  hDest : ∀ k, k < ethAlen → mem (payLen + k) = config.dstmac.toArray.getD k 0
  hSource : ∀ k, k < ethAlen → mem (payLen + 6 + k) = config.srcmac.toArray.getD k 0
  hProto : load16 mem (payLen + 12) = htons ethPIp
  ihl : mem ipIdx &&& 0x0f = 5
  totLen : load16 mem (ipIdx + 2) = htons (UInt16.ofInt (config.pktlen - ipIdx))
  protocol_eq : mem (ipIdx + 9) = if config.protocol = 6 then ipprotoTcp else ipprotoUdp
  tcp : config.protocol = 6 → mem ipIdx >>> (4 : UInt8) = ipVersion
    ∧ mem (ipIdx + 8) = ipDefTtl ∧ mem (tcpIdx + 12) >>> (4 : UInt8) = 5
  udp : config.protocol ≠ 6 →
    load16 mem (udpIdx + 4) = htons (UInt16.ofInt (config.pktlen - udpIdx))
  pattern : Repeats mem (payloadIdx config) (config.pktlen - 54).toNat data.chars data.strlen

section Prepared

variable {config : SimConfig} {data : PktData} {mem mem' : Nat → UInt8}

theorem le_payloadIdx (config : SimConfig) : 44 ≤ payloadIdx config := by
  unfold payloadIdx
  split <;> omega

/-- A buffer stays prepared when nothing outside the twelve bytes changes. -/
theorem Prepared.congr (h : Prepared config data mem)
    (heq : ∀ a, a < 28 ∨ 40 ≤ a → mem' a = mem a) : Prepared config data mem' := by
  have hidx := le_payloadIdx config
  constructor
  · intro k hk
    unfold ethAlen at hk
    rw [heq _ (Or.inl (by unfold payLen; omega))]
    exact h.hDest k hk
  · intro k hk
    unfold ethAlen at hk
    rw [heq _ (Or.inl (by unfold payLen; omega))]
    exact h.hSource k hk
  · rw [← h.hProto]
    exact load16_congr fun a _ hlt => heq a (Or.inl (by unfold payLen at hlt; omega))
  · rw [heq _ (by decide)]
    exact h.ihl
  · rw [← h.totLen]
    exact load16_congr fun a _ hlt => heq a (Or.inl (by unfold ipIdx at hlt; omega))
  · rw [heq _ (by decide)]
    exact h.protocol_eq
  · rw [heq ipIdx (by decide), heq (ipIdx + 8) (by decide), heq (tcpIdx + 12) (by decide)]
    exact h.tcp
  · intro hudp
    rw [← h.udp hudp]
    exact load16_congr fun a hle _ => heq a (Or.inr (by unfold udpIdx at hle; omega))
  · intro k hk
    rw [heq _ (Or.inr (by omega))]
    exact h.pattern k hk

/-- The cursors are not among what is prepared. -/
theorem Prepared.advance (h : Prepared config data mem) : Prepared (advance config) data mem :=
  { h with }

theorem Prepared.ports (h : Prepared config data mem) :
    Prepared config data (portsWritten mem config) :=
  h.congr fun _ ha => portsWritten_outside mem config ha

theorem Prepared.addresses (h : Prepared config data mem) :
    Prepared config data (addressesWritten mem config) :=
  h.congr fun _ ha => addressesWritten_outside mem config ha

/-! ## §3. The layers on a prepared buffer. -/

/-- The pattern over the pattern. -/
theorem Prepared.payload (h : Prepared config data mem) (hdata : data.bytes ≠ [])
    (hlen : 54 ≤ config.pktlen) {fuel : Nat} (hfuel : config.pktlen ≤ fuel) :
    popPayload fuel mem (payloadIdx config) data config = some (mem, config.pktlen - 54) := by
  obtain ⟨mem', hrun, hpattern, hframe⟩ :=
    popPayload_spec hdata hlen hfuel mem (payloadIdx config)
  have hsame : mem' = mem := by
    funext a
    by_cases hin : payloadIdx config ≤ a ∧ (a : Int) < payloadIdx config + (config.pktlen - 54)
    · obtain ⟨k, rfl⟩ := Nat.exists_eq_add_of_le hin.1
      rw [hpattern k (by omega), h.pattern k (by omega)]
    · exact hframe a (by omega)
  rw [hrun, hsame]

/-- The TCP header: the ports, and `doff` over itself. -/
theorem Prepared.transmissionTcp (h : Prepared config data mem) (htcp : config.protocol = 6) :
    popTransmissionTcp mem tcpIdx config
      = (portsWritten mem config, drawPorts config) := by
  obtain ⟨_, _, hdoff⟩ := h.ports.tcp htcp
  have hnoop : store8 (portsWritten mem config) (tcpIdx + 12)
      (setHigh (portsWritten mem config (tcpIdx + 12)) 5) = portsWritten mem config := by
    rw [← hdoff, setHigh_self]
    exact store8_noop rfl
  rw [← hnoop]
  rfl

/-- The UDP header: the ports, and the length over itself. -/
theorem Prepared.transmissionUdp (h : Prepared config data mem) (hudp : config.protocol ≠ 6) :
    popTransmissionUdp mem udpIdx config
      = (portsWritten mem config, drawPorts config) := by
  have hnoop : store16 (portsWritten mem config) (udpIdx + 4)
      (htons (UInt16.ofInt (config.pktlen - udpIdx))) = portsWritten mem config :=
    store16_noop (h.ports.udp hudp)
  rw [← hnoop]
  rfl

/-- The IP header over TCP: the addresses, the other fields over themselves. -/
theorem Prepared.iplayerTcp (h : Prepared config data mem) (htcp : config.protocol = 6) :
    popIplayerTcp mem ipIdx config = (addressesWritten mem config, drawAddresses config) := by
  obtain ⟨hversion, httl, _⟩ := h.tcp htcp
  have hproto := h.protocol_eq
  rw [if_pos htcp] at hproto
  have hversion' : store8 mem ipIdx (setHigh (mem ipIdx) ipVersion) = mem := by
    rw [← hversion, setHigh_self]
    exact store8_noop rfl
  have hihl : store8 mem ipIdx (setLow (mem ipIdx) 5) = mem := by
    rw [← h.ihl, setLow_self]
    exact store8_noop rfl
  simp only [popIplayerTcp, getNextSrcip, getNextDstip]
  rw [hversion', hihl, store16_noop h.totLen, store8_noop httl, store8_noop hproto]
  rfl

/-- The IP header over UDP. -/
theorem Prepared.iplayerUdp (h : Prepared config data mem) (hudp : config.protocol ≠ 6) :
    popIplayerUdp mem ipIdx config = (addressesWritten mem config, drawAddresses config) := by
  have hproto := h.protocol_eq
  rw [if_neg hudp] at hproto
  have hihl : store8 mem ipIdx (setLow (mem ipIdx) 5) = mem := by
    rw [← h.ihl, setLow_self]
    exact store8_noop rfl
  simp only [popIplayerUdp, getNextSrcip, getNextDstip]
  rw [hihl, store16_noop h.totLen, store8_noop hproto]
  rfl

/-- The Ethernet header over itself. -/
theorem Prepared.datalink (h : Prepared config data mem) :
    popDatalink mem payLen config = mem := by
  show store16 (memcpy (memcpy mem payLen _ ethAlen) (payLen + 6) _ ethAlen) (payLen + 12)
    (htons ethPIp) = mem
  rw [memcpy_noop h.hDest, memcpy_noop h.hSource, store16_noop h.hProto]

/-- **ON A PREPARED BUFFER THE BUILDER DOES WHAT THE FOUR STORES DO**, and
    leaves the cursors where they do. -/
theorem Prepared.rebuild {packet : PacketT} (h : Prepared config data packet.data)
    {handler : GenerHandler} (hmode : generatorMode config = some handler)
    (hset : config.pktData = some data) (hdata : data.bytes ≠ []) (hlen : 54 ≤ config.pktlen)
    {fuel : Nat} (hfuel : config.pktlen ≤ fuel) :
    handler fuel packet config = some (rewriteHeaders packet config) := by
  have hpayload := h.payload hdata hlen hfuel
  -- the IP layer runs with the port cursors moved on, the Ethernet layer with all four
  have hports : Prepared (drawPorts config) data (portsWritten packet.data config) :=
    { h.ports with }
  have hall : Prepared (drawAddresses (drawPorts config)) data
      (addressesWritten (portsWritten packet.data config) (drawPorts config)) :=
    { h.ports.addresses with }
  unfold payloadIdx at hpayload
  unfold generatorMode at hmode
  split at hmode
  · rename_i htcp
    obtain rfl := Option.some.inj hmode
    rw [if_pos htcp] at hpayload
    unfold generatorTcpPacket
    rw [hset]
    simp only [Option.bind_eq_bind, Option.bind_some, hpayload, h.transmissionTcp htcp,
      hports.iplayerTcp htcp, hall.datalink]
    rfl
  · rename_i hudp
    split at hmode
    · obtain rfl := Option.some.inj hmode
      rw [if_neg hudp] at hpayload
      unfold generatorUdpPacket
      rw [hset]
      simp only [Option.bind_eq_bind, Option.bind_some, hpayload, h.transmissionUdp hudp,
        hports.iplayerUdp hudp, hall.datalink]
      rfl
    · exact absurd hmode (by simp)

end Prepared

/-! ## §4. The builder prepares. -/

/-- The time to live is stored over TCP. -/
theorem popIplayerTcp_ttl (mem : Nat → UInt8) (iph : Nat) (config : SimConfig) :
    (popIplayerTcp mem iph config).1 (iph + 8) = ipDefTtl := by
  simp only [popIplayerTcp, getNextSrcip, getNextDstip, store8, store16, store32]
  simp (disch := omega) only [memcpy_outside]
  exact store8_self _ _ _

theorem generatorTcpPacket_ttl {config config' : SimConfig} {fuel : Nat}
    {packet packet' : PacketT}
    (hrun : generatorTcpPacket fuel packet config = some (packet', config')) :
    packet'.data (ipIdx + 8) = ipDefTtl := by
  unfold generatorTcpPacket at hrun
  obtain ⟨pktData, _, hrun⟩ := Option.bind_eq_some_iff.mp hrun
  obtain ⟨⟨mem, _⟩, _, hrun⟩ := Option.bind_eq_some_iff.mp hrun
  obtain ⟨rfl, _⟩ := Prod.mk.inj (Option.some.inj hrun)
  obtain ⟨_, _, _, hout⟩ := popDatalink_spec
    (popIplayerTcp (popTransmissionTcp mem tcpIdx config).1 ipIdx
      (popTransmissionTcp mem tcpIdx config).2).1 payLen
    (popIplayerTcp (popTransmissionTcp mem tcpIdx config).1 ipIdx
      (popTransmissionTcp mem tcpIdx config).2).2
  exact (hout _ (by decide)).trans (popIplayerTcp_ttl _ _ _)

/-- **Either builder prepares any buffer**, and moves every cursor once. -/
theorem generatorMode_prepares {config : SimConfig} {data : PktData} {handler : GenerHandler}
    (hmode : generatorMode config = some handler) (hset : config.pktData = some data)
    (hdata : data.bytes ≠ []) (hlen : 54 ≤ config.pktlen) {fuel : Nat}
    (hfuel : config.pktlen ≤ fuel) (packet : PacketT) :
    ∃ mem', handler fuel packet config = some ({ packet with data := mem' }, advance config)
      ∧ Prepared config data mem' := by
  unfold generatorMode at hmode
  split at hmode
  · rename_i htcp
    obtain rfl := Option.some.inj hmode
    obtain ⟨mem', hrun, hbuilt, hversion, hdoff⟩ :=
      generatorTcpPacket_built hset hdata hlen hfuel packet
    have httl := generatorTcpPacket_ttl hrun
    refine ⟨mem', hrun, hbuilt.hDest, hbuilt.hSource, hbuilt.hProto, hbuilt.ip.ihl,
      hbuilt.ip.totLen, ?_, fun _ => ⟨hversion, httl, hdoff⟩, fun hudp => absurd htcp hudp, ?_⟩
    · rw [if_pos htcp]
      exact hbuilt.ip.protocol_eq
    · unfold payloadIdx
      rw [if_pos htcp]
      exact hbuilt.pattern
  · rename_i hudp
    split at hmode
    · obtain rfl := Option.some.inj hmode
      obtain ⟨mem', hrun, hbuilt, _, hudpLen⟩ :=
        generatorUdpPacket_built hset hdata hlen hfuel packet
      refine ⟨mem', hrun, hbuilt.hDest, hbuilt.hSource, hbuilt.hProto, hbuilt.ip.ihl,
        hbuilt.ip.totLen, ?_, fun htcp => absurd htcp hudp, fun _ => hudpLen, ?_⟩
      · rw [if_neg hudp]
        exact hbuilt.ip.protocol_eq
      · unfold payloadIdx
        rw [if_neg hudp]
        exact hbuilt.pattern
    · exact absurd hmode (by simp)

/-! ## §5. `make_all_packet`. -/

/-- What a round does to a buffer before its handler runs. -/
def enrol (i : Nat) (config : SimConfig) (packet : PacketT) : PacketT :=
  { packet with pool := i, length := (config.int .pktlen).toUInt32 }

/-- The rounds of `make_all_packet`, generator `i`: take a buffer off the pool,
    write it, put it back. -/
def makeAllPacket (fuel : Nat) (handler : GenerHandler) (i : Nat) :
    Nat → List PacketT → SimConfig → Option (List PacketT × SimConfig)
  | 0, pool, config => some (pool, config)
  | n + 1, pool, config =>
      match Fifo.take pool with
      | none => makeAllPacket fuel handler i n pool config
      | some (packet, pool) => do
          let (packet, config) ← handler fuel (enrol i config packet) config
          let pool ← Fifo.push queueCapacity pool [packet]
          makeAllPacket fuel handler i n pool config

/-- The cursors alone move from packet to packet. -/
theorem advance_iterate (config : SimConfig) (n : Nat) :
    advance^[n] config
      = { config with
          saddr := nextCursor^[n] config.saddr
          daddr := nextCursor^[n] config.daddr
          sport := nextCursor^[n] config.sport
          dport := nextCursor^[n] config.dport } := by
  induction n with
  | zero => rfl
  | succ n ih =>
      rw [Function.iterate_succ_apply', ih]
      simp only [advance, Function.iterate_succ_apply']

/-- What `n` packets leave as it was. -/
theorem generatorMode_iterate (config : SimConfig) (n : Nat) :
    generatorMode (advance^[n] config) = generatorMode config := by
  rw [advance_iterate]
  rfl

theorem pktData_iterate (config : SimConfig) (n : Nat) :
    (advance^[n] config).pktData = config.pktData := by
  rw [advance_iterate]

theorem pktlen_iterate (config : SimConfig) (n : Nat) :
    (advance^[n] config).pktlen = config.pktlen := by
  rw [advance_iterate]
  rfl

theorem enrol_iterate (i : Nat) (config : SimConfig) (n : Nat) (packet : PacketT) :
    enrol i (advance^[n] config) packet = enrol i config packet := by
  rw [advance_iterate]
  rfl

theorem prepared_iterate {config : SimConfig} {data : PktData} {mem : Nat → UInt8} (n : Nat) :
    Prepared (advance^[n] config) data mem ↔ Prepared config data mem := by
  rw [advance_iterate]
  exact ⟨fun h => { h with }, fun h => { h with }⟩

/-- Buffer `j` of a pool is the buffer it was, written by the handler with the
    cursors `n + j` packets on. -/
def WrittenAt (fuel : Nat) (handler : GenerHandler) (i : Nat) (config : SimConfig) (n : Nat)
    (packet packet' : PacketT) : Prop :=
  handler fuel (enrol i config packet) (advance^[n] config)
      = some (packet', advance^[n + 1] config)
    ∧ packet'.addr = packet.addr

/-- **EVERY BUFFER ONCE**: as many rounds as the pool has buffers write each of
    them with the next state of the cursors, and put it back in its place. -/
theorem makeAllPacket_prepares {config : SimConfig} {data : PktData} {handler : GenerHandler}
    (hmode : generatorMode config = some handler) (hset : config.pktData = some data)
    (hdata : data.bytes ≠ []) (hlen : 54 ≤ config.pktlen) {fuel : Nat}
    (hfuel : config.pktlen ≤ fuel) (i : Nat) (pool done : List PacketT)
    (hroom : pool.length + done.length ≤ queueCapacity) (n : Nat) :
    ∃ pool', makeAllPacket fuel handler i pool.length (pool ++ done) (advance^[n] config)
        = some (done ++ pool', advance^[n + pool.length] config)
      ∧ pool'.length = pool.length
      ∧ ∀ j packet packet', pool[j]? = some packet → pool'[j]? = some packet' →
        WrittenAt fuel handler i config (n + j) packet packet'
          ∧ Prepared config data packet'.data := by
  induction pool generalizing done n with
  | nil =>
      refine ⟨[], by rw [List.append_nil]; rfl, rfl, ?_⟩
      intro j packet packet' hj
      exact absurd hj (by simp)
  | cons packet pool ih =>
      -- one round: the first buffer is written and goes behind the others
      have hlen' := pktlen_iterate config n
      obtain ⟨mem', hrun, hprep⟩ := generatorMode_prepares
        ((generatorMode_iterate config n).trans hmode) ((pktData_iterate config n).trans hset)
        hdata (by omega) (show (advance^[n] config).pktlen ≤ fuel by omega)
        (enrol i (advance^[n] config) packet)
      generalize hnew : { enrol i (advance^[n] config) packet with data := mem' } = new at hrun
      have hlength : pool.length + (done.length + 1) ≤ queueCapacity := by
        rw [List.length_cons] at hroom
        omega
      have hpush : Fifo.push queueCapacity (pool ++ done) [new] = some (pool ++ done ++ [new]) := by
        apply Fifo.push_of_le
        rw [List.length_append, List.length_singleton]
        omega
      obtain ⟨pool', hrest, hlenPool, hall⟩ := ih (done ++ [new])
        (by rw [List.length_append, List.length_singleton]; exact hlength) (n + 1)
      refine ⟨new :: pool', ?_, by rw [List.length_cons, hlenPool, List.length_cons], ?_⟩
      · simp only [List.length_cons, List.cons_append, makeAllPacket, Fifo.take, hrun, hpush,
          Option.bind_eq_bind, Option.bind_some]
        rw [Function.iterate_succ_apply', ← List.append_assoc] at hrest
        rw [hrest, List.append_assoc, List.singleton_append,
          show n + 1 + pool.length = n + (pool.length + 1) by omega]
      · intro j old old' hold hold'
        cases j with
        | zero =>
            obtain rfl := Option.some.inj hold
            obtain rfl := Option.some.inj hold'
            refine ⟨⟨?_, ?_⟩, ?_⟩
            · rw [Function.iterate_succ_apply', ← enrol_iterate i config n]
              exact hrun
            · rw [← hnew]
              rfl
            · rw [← hnew]
              exact (prepared_iterate n).mp hprep
        | succ j =>
            -- buffer `j + 1` of the pool is buffer `j` of its rest, one packet later
            have htail := hall j old old' hold hold'
            rw [show n + 1 + j = n + (j + 1) by omega] at htail
            exact htail

end FreePacket.Generator
