/-
  FreePacket.Packet.Collector
  ───────────────────────────
  **FROM THE NETWORK CARD TO A BUFFER ITEM AND ITS FLOW ITEM.**

  One round of `intel_packet_collector` (`packet_generator.c`) admits a frame
  and copies it into the item it took from its pool; `make_flow_item_tcp`
  later reads the item.  Three lengths written in three places have to agree:
  the admission test `l2_length > 40`, the item size of
  `init_signle_generator`, and the header nibbles of the frame.

  Main result: `collect_storedAndParsed_iff` — the store and the parse stay
  in bounds exactly for the frames of `FrameFits`.
-/
import FreePacket.Packet.Frame

namespace FreePacket.Packet

open FreePacket.Lib

/-! ## §1. The collector's round. -/

/-- `int item_size = global_config->pktlen + PAY_LEN + sizeof(packet_t)`. -/
def itemSize (pktlen : Int) : Int := pktlen + payLen + sizeofPacket

/-- One round of `intel_packet_collector` on the item `packet` of its own
    pool: `va` and `l2Length` are what the card returned.  `none` is the
    `usleep` branch. -/
def collect (packet : PacketT) (generator : Nat) (va : Option (Nat → UInt8)) (l2Length : Int32) :
    Option PacketT :=
  match va with
  | none => none
  | some frame =>
      if l2Length > 40 then
        some { packet with
          pool := generator
          data := memcpy packet.data payLen frame l2Length.toInt.toNat
          length := l2Length.toUInt32 }
      else none

/-- The two nibbles of the frame that `make_flow_item_tcp` sizes its headers by. -/
def frameIhl (frame : Nat → UInt8) : Nat := (frame 14 &&& 0x0f).toNat

def frameDoff (frame : Nat → UInt8) : Nat := (frame (14 + 4 * frameIhl frame + 12) >>> 4).toNat

/-! ## §2. What has to hold, and when it does. -/

/-- The frame is stored inside its item and parsed inside the frame. -/
structure StoredAndParsed (pktlen : Int) (l2Length : Int32) (flow : FlowItem)
    (packet : PacketT) : Prop where
  /-- The copy to `packet->data + PAY_LEN` ends inside the item. -/
  copy_inside : (sizeofPacket : Int) + payLen + l2Length.toInt ≤ itemSize pktlen
  /-- Every byte the parser loads is a byte of the frame. -/
  reads_inside : ∀ o ∈ headerReads packet, (o : Int) < l2Length.toInt
  /-- Headers and payload add up to the frame, as `unsigned int`s. -/
  adds_up : UInt32.ofNat (headerLen packet - payLen) + (makeFlowItemTcp flow packet).payloadLen
    = packet.length
  /-- The payload length did not wrap below zero. -/
  no_wrap : (makeFlowItemTcp flow packet).payloadLen ≤ packet.length

/-- The frame is no longer than `pktlen`, holds the TCP header up to its
    `doff` byte, and holds both headers at the lengths its nibbles give. -/
def FrameFits (pktlen : Int) (frame : Nat → UInt8) (l2Length : Int32) : Prop :=
  l2Length.toInt ≤ pktlen
    ∧ (14 + 4 * frameIhl frame + 13 : Int) ≤ l2Length.toInt
    ∧ (14 + 4 * frameIhl frame + 4 * frameDoff frame : Int) ≤ l2Length.toInt

/-! ## §3. The stored packet. -/

/-- A byte of the frame is found behind the pad. -/
theorem memcpy_frame_byte (data frame : Nat → UInt8) (len : Nat) {o : Nat} (ho : o < len) :
    memcpy data payLen frame len (payLen + o) = frame o := by
  unfold memcpy
  rw [if_pos (by omega), Nat.add_sub_cancel_left]

/-- What the collector admits, and what it stores. -/
theorem collect_eq_some {packet stored : PacketT} {generator : Nat} {frame : Nat → UInt8}
    {l2Length : Int32} (h : collect packet generator (some frame) l2Length = some stored) :
    40 < l2Length.toInt
      ∧ stored.data = memcpy packet.data payLen frame l2Length.toInt.toNat
      ∧ stored.length.toNat = l2Length.toInt.toNat := by
  unfold collect at h
  split at h
  · exact absurd h (by simp)
  · rename_i heq
    split at h
    · rename_i hlen
      obtain rfl := Option.some.inj heq
      obtain rfl := Option.some.inj h
      have hgt : 40 < l2Length.toInt := Int32.lt_iff_toInt_lt.mp hlen
      refine ⟨hgt, rfl, ?_⟩
      exact Int32.toNat_toUInt32_of_le
        (Int32.le_iff_toInt_le.mpr (Int.le_of_lt (Int.lt_trans (by decide) hgt)))
    · exact absurd h (by simp)

/-- The `ihl` byte is inside every admitted frame. -/
theorem ihl_stored {packet stored : PacketT} {generator : Nat} {frame : Nat → UInt8}
    {l2Length : Int32} (h : collect packet generator (some frame) l2Length = some stored) :
    ihl stored = 4 * frameIhl frame := by
  obtain ⟨hgt, hdata, _⟩ := collect_eq_some h
  unfold ihl ipHdr frameIhl
  rw [hdata, show payLen + ethHdrLen + 0 = payLen + 14 from rfl,
    memcpy_frame_byte _ _ _ (by omega), Nat.mul_comm]

/-- The `doff` byte is the frame's own where the frame reaches that far. -/
theorem tcpLen_stored {packet stored : PacketT} {generator : Nat} {frame : Nat → UInt8}
    {l2Length : Int32} (h : collect packet generator (some frame) l2Length = some stored)
    (hin : (14 + 4 * frameIhl frame + 13 : Int) ≤ l2Length.toInt) :
    tcpLen stored = 4 * frameDoff frame := by
  obtain ⟨_, hdata, _⟩ := collect_eq_some h
  unfold tcpLen tcpHdr frameDoff
  rw [ihl_stored h, hdata,
    show payLen + ethHdrLen + 4 * frameIhl frame + 12 = payLen + (14 + 4 * frameIhl frame + 12) by
      unfold ethHdrLen
      omega,
    memcpy_frame_byte _ _ _ (by omega), Nat.mul_comm]

/-- The parser's last read is the `doff` byte; the others are inside every
    frame that holds it. -/
theorem headerReads_inside_iff (packet : PacketT) {n : Int} (hn : 40 < n) :
    (∀ o ∈ headerReads packet, (o : Int) < n) ↔ (14 + ihl packet + 13 : Int) ≤ n := by
  simp only [headerReads, List.forall_mem_cons, List.not_mem_nil, false_implies, implies_true,
    and_true]
  push_cast
  omega

/-- **THE STORE AND THE PARSE STAY IN BOUNDS EXACTLY FOR THE FRAMES THAT FIT.** -/
theorem collect_storedAndParsed_iff (pktlen : Int) (flow : FlowItem) {packet stored : PacketT}
    {generator : Nat} {frame : Nat → UInt8} {l2Length : Int32}
    (h : collect packet generator (some frame) l2Length = some stored) :
    StoredAndParsed pktlen l2Length flow stored ↔ FrameFits pktlen frame l2Length := by
  obtain ⟨hgt, _, hlen⟩ := collect_eq_some h
  have hmax := l2Length.toInt_lt
  have hcopy : (sizeofPacket : Int) + payLen + l2Length.toInt ≤ itemSize pktlen
      ↔ l2Length.toInt ≤ pktlen := by
    unfold itemSize
    omega
  have hreads := headerReads_inside_iff stored hgt
  have hwrap := payloadLen_le_iff flow stored (by omega)
  rw [ihl_stored h] at hreads hwrap
  push_cast at hreads
  unfold ethHdrLen at hwrap
  refine ⟨?_, ?_⟩
  · intro hs
    have hin := hreads.mp hs.reads_inside
    have hfit := hwrap.mp hs.no_wrap
    rw [tcpLen_stored h hin] at hfit
    exact ⟨hcopy.mp hs.copy_inside, hin, by omega⟩
  · intro hf
    obtain ⟨hpkt, hin, hboth⟩ := hf
    refine ⟨hcopy.mpr hpkt, hreads.mpr hin, headerLen_add_payloadLen flow stored, hwrap.mpr ?_⟩
    rw [tcpLen_stored h hin]
    omega

/-! ## §4. Frames at both ends. -/

/-- An IPv4/TCP frame with the given `doff` and without options. -/
def tcpFrame (doff : UInt8) : Nat → UInt8
  | 12 => 0x08
  | 14 => 0x45
  | 23 => 6
  | 46 => doff <<< 4
  | _ => 0

/-- A full 60-byte frame with `doff` 5 is stored and parsed in bounds. -/
theorem minimalFrame_storedAndParsed :
    ∃ stored, collect blankPacket 0 (some (tcpFrame 5)) 60 = some stored
      ∧ StoredAndParsed 1520 60 blankFlow stored :=
  ⟨_, rfl, (collect_storedAndParsed_iff 1520 blankFlow rfl).mpr (by
    unfold FrameFits frameDoff frameIhl
    decide)⟩

/-- **A 60-byte frame that announces 60 bytes of TCP header is admitted, and
    its payload length wraps.** -/
theorem shortFrame_not_parsed :
    ¬ ∀ (pktlen : Int) (flow : FlowItem) (packet stored : PacketT) (frame : Nat → UInt8)
        (l2Length : Int32), pktlen ≤ 1600 →
        collect packet 0 (some frame) l2Length = some stored →
        StoredAndParsed pktlen l2Length flow stored := by
  intro hall
  have hbad := (hall 1520 blankFlow blankPacket _ (tcpFrame 15) 60 (by decide) rfl).no_wrap
  exact absurd hbad (by decide)

/-- **A 1514-byte frame is admitted under `PKTLEN` 64, and copied past its item.** -/
example :
    ∃ stored, collect blankPacket 0 (some (tcpFrame 5)) 1514 = some stored
      ∧ ¬ StoredAndParsed 64 1514 blankFlow stored :=
  ⟨_, rfl, fun h => absurd h.copy_inside (by decide)⟩

end FreePacket.Packet
