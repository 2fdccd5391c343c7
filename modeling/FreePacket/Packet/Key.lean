/-
  FreePacket.Packet.Key
  ─────────────────────
  **CONNECTION KEYS: what the parser normalises, and what it forgets.**

  `make_flow_item_tcp` orders the two addresses and, separately, the two
  ports.  The key is therefore blind to the direction of a packet
  (`key_reverse`), as intended, but also to which port belongs to which
  address: `sameTuple_iff` gives the four ways two packets share a tuple, and
  `sameTuple_sameConnection_iff` singles out the crossed ones.

  The two hashes computed from a key, `hash_index` of the parser and the
  bucket index of `packet_manager_loop`, are functions of the key alone.
-/
import FreePacket.Packet.Frame

namespace FreePacket.Packet

open FreePacket.Lib

/-! ## §1. Endpoints and keys. -/

/-- The addresses and ports a packet carries, as its header has them. -/
structure Endpoints where
  saddr : UInt32
  daddr : UInt32
  source : UInt16
  dest : UInt16
  deriving DecidableEq

def endpoints (packet : PacketT) : Endpoints :=
  { saddr := saddr packet, daddr := daddr packet
    source := source packet, dest := dest packet }

/-- Source and destination, address and port, exchanged. -/
def Endpoints.reverse (e : Endpoints) : Endpoints :=
  { saddr := e.daddr, daddr := e.saddr, source := e.dest, dest := e.source }

/-- **One connection**: the same endpoints, in one of the two directions. -/
def SameConnection (e f : Endpoints) : Prop := e = f ∨ e = f.reverse

/-- The five fields sessions are compared by. -/
structure Key where
  protocol : UInt8
  upperIp : UInt32
  lowerIp : UInt32
  upperPort : UInt32
  lowerPort : UInt32
  deriving DecidableEq

def FlowItem.key (flow : FlowItem) : Key :=
  { protocol := flow.protocol, upperIp := flow.upperIp, lowerIp := flow.lowerIp
    upperPort := flow.upperPort, lowerPort := flow.lowerPort }

/-- The key the parser gives a packet, whatever flow item it fills. -/
def packetKey (packet : PacketT) : Key :=
  { protocol := ipProtocol packet
    upperIp := if saddr packet ≥ daddr packet then saddr packet else daddr packet
    lowerIp := if saddr packet ≥ daddr packet then daddr packet else saddr packet
    upperPort :=
      if source packet ≥ dest packet then (source packet).toUInt32 else (dest packet).toUInt32
    lowerPort :=
      if source packet ≥ dest packet then (dest packet).toUInt32 else (source packet).toUInt32 }

/-! ## §2. Which packets share a key. -/

/-- Equal ordered pairs are equal pairs, up to exchange. -/
theorem ordered32_eq_iff (a b c d : UInt32) :
    ((if a ≥ b then a else b) = (if c ≥ d then c else d)
        ∧ (if a ≥ b then b else a) = (if c ≥ d then d else c))
      ↔ (a = c ∧ b = d) ∨ (a = d ∧ b = c) := by
  simp only [ge_iff_le, UInt32.le_iff_toNat_le, ← UInt32.toNat_inj]
  split <;> split <;> omega

theorem ordered16_eq_iff (a b c d : UInt16) :
    ((if a ≥ b then a.toUInt32 else b.toUInt32) = (if c ≥ d then c.toUInt32 else d.toUInt32)
        ∧ (if a ≥ b then b.toUInt32 else a.toUInt32) = (if c ≥ d then d.toUInt32 else c.toUInt32))
      ↔ (a = c ∧ b = d) ∨ (a = d ∧ b = c) := by
  simp only [ge_iff_le, UInt16.le_iff_toNat_le, ← UInt16.toNat_inj]
  split <;> split <;> simp only [← UInt32.toNat_inj, UInt16.toNat_toUInt32] <;> omega

/-- The packets carry one (upper_ip, lower_ip, upper_port, lower_port) tuple. -/
def SameTuple (p q : PacketT) : Prop :=
  (packetKey p).upperIp = (packetKey q).upperIp ∧ (packetKey p).lowerIp = (packetKey q).lowerIp
    ∧ (packetKey p).upperPort = (packetKey q).upperPort
    ∧ (packetKey p).lowerPort = (packetKey q).lowerPort

/-- A key is the protocol and the tuple. -/
theorem packetKey_eq_iff (p q : PacketT) :
    packetKey p = packetKey q ↔ ipProtocol p = ipProtocol q ∧ SameTuple p q := by
  have hproto : ∀ r : PacketT, (packetKey r).protocol = ipProtocol r := fun _ => rfl
  unfold SameTuple
  rw [Key.mk.injEq, hproto, hproto]

/-- **Two packets share a tuple** when their address pairs agree up to
    exchange and their port pairs agree up to exchange, independently. -/
theorem sameTuple_iff (p q : PacketT) :
    SameTuple p q ↔
      ((saddr p = saddr q ∧ daddr p = daddr q) ∨ (saddr p = daddr q ∧ daddr p = saddr q))
        ∧ ((source p = source q ∧ dest p = dest q) ∨ (source p = dest q ∧ dest p = source q)) := by
  have hip := ordered32_eq_iff (saddr p) (daddr p) (saddr q) (daddr q)
  have hport := ordered16_eq_iff (source p) (dest p) (source q) (dest q)
  rw [← hip, ← hport]
  unfold SameTuple packetKey
  tauto

/-- **A crossed pair**: the same two addresses and the same two ports, each
    pair of distinct values, but the ports attached to the other addresses. -/
def Crossed (e f : Endpoints) : Prop :=
  e.saddr ≠ e.daddr ∧ e.source ≠ e.dest
    ∧ ((e.saddr = f.saddr ∧ e.daddr = f.daddr ∧ e.source = f.dest ∧ e.dest = f.source)
      ∨ (e.saddr = f.daddr ∧ e.daddr = f.saddr ∧ e.source = f.source ∧ e.dest = f.dest))

/-- **The tuple identifies the connection exactly off the crossed pairs.** -/
theorem sameTuple_sameConnection_iff (p q : PacketT) :
    (SameTuple p q → SameConnection (endpoints p) (endpoints q))
      ↔ ¬ Crossed (endpoints p) (endpoints q) := by
  rw [sameTuple_iff]
  simp only [SameConnection, Crossed, endpoints, Endpoints.reverse, Endpoints.mk.injEq]
  grind

/-- **The key is blind to direction**: a packet and its reverse share it. -/
theorem key_reverse {p q : PacketT} (hproto : ipProtocol p = ipProtocol q)
    (hrev : endpoints p = (endpoints q).reverse) : packetKey p = packetKey q := by
  simp only [endpoints, Endpoints.reverse, Endpoints.mk.injEq] at hrev
  obtain ⟨hs, hd, hsp, hdp⟩ := hrev
  have htuple : SameTuple p q := (sameTuple_iff p q).mpr ⟨Or.inr ⟨hs, hd⟩, Or.inr ⟨hsp, hdp⟩⟩
  exact (packetKey_eq_iff p q).mpr ⟨hproto, htuple⟩

/-! ## §3. The hashes of a key. -/

/-- `MAKE_HASH` / `make_hash`, on `uint32_t` throughout. -/
def makeHash (f1 f2 f3 f4 size : UInt32) : UInt32 :=
  let v1 := f1 ^^^ f2
  let v2 := f3 ^^^ f4
  let h1 := v1 <<< 8
  let h1 := h1 ^^^ (v1 >>> 4)
  let h1 := h1 ^^^ (v1 >>> 12)
  let h1 := h1 ^^^ (v1 >>> 16)
  let h1 := h1 ^^^ (v2 <<< 6)
  let h1 := h1 ^^^ (v2 <<< 10)
  let h1 := h1 ^^^ (v2 <<< 14)
  let h1 := h1 ^^^ (v2 >>> 7)
  h1 % size

/-- `hash_index(flow, manager_group)`, with `manager_group->numbers`. -/
def hashIndex (key : Key) (numbers : UInt32) : UInt32 :=
  makeHash key.lowerIp key.upperIp key.lowerPort key.upperPort numbers

/-- The `index` of `packet_manager_loop`, with `manager->ht->num_buckets`. -/
def bucketIndex (key : Key) (numBuckets : UInt32) : UInt32 :=
  makeHash key.lowerPort key.upperIp key.upperPort key.lowerIp numBuckets

theorem makeHash_lt (f1 f2 f3 f4 : UInt32) {size : UInt32} (h : 0 < size.toNat) :
    (makeHash f1 f2 f3 f4 size).toNat < size.toNat := by
  unfold makeHash
  rw [UInt32.toNat_mod]
  exact Nat.mod_lt _ h

/-- A single manager gets every flow. -/
theorem hashIndex_one (key : Key) : (hashIndex key 1).toNat = 0 := by
  have h := makeHash_lt key.lowerIp key.upperIp key.lowerPort key.upperPort
    (show 0 < (1 : UInt32).toNat by decide)
  exact Nat.lt_one_iff.mp h

end FreePacket.Packet
