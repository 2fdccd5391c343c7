/-
  FreePacket.ConfigFile.Record
  ────────────────────────────
  **THE CONFIGURATION RECORD (`sim_config_t` of `config.h`).**

  What `read_config_file` fills and the generator reads, as the Intel build
  has it.  The `int` members a line sets with `atoi` are one function from
  their names; `speed` is an `uint32_t` and holds the same 32 bits.  `period`
  and `mhz` come from measurements, not from the file, and are left out.
-/
import Mathlib.Logic.Function.Basic

namespace FreePacket.ConfigFile

/-! ## §1. Strings. -/

/-- `BUFSIZ`, the size of the line buffer. -/
def bufsiz : Nat := 8192

/-- What `pkt_data` points to: a string copied out of a line buffer. -/
structure PktData where
  bytes : List UInt8
  noNul : (0 : UInt8) ∉ bytes
  length_lt : bytes.length < bufsiz

/-- `strlen`. -/
def PktData.strlen (data : PktData) : Nat := data.bytes.length

/-- The pointer: the characters, then the terminator. -/
def PktData.chars (data : PktData) : Nat → UInt8 := fun k => data.bytes.getD k 0

/-! ## §2. The record. -/

/-- The members a line `NAME=VALUE` sets with `atoi`. -/
inductive IntField where
  | pktlen | speed
  | generatorNums | parserNums | managerNums
  | generatorPoolSize | parserQueueLength | parserPoolSize
  | managerPoolSize | managerQueueLength | managerHashLength | managerBufferSize
  | packetGeneratorMode
  | pipeDepth | screenDisplay | speedMode | destoryTime
  deriving DecidableEq

/-- One of `saddr`, `daddr`, `sport`, `dport`: its `_min`, `_cur` and `_max`. -/
structure Range where
  min : UInt32
  cur : UInt32
  max : UInt32
  deriving DecidableEq

/-- `sim_config_t`. -/
structure SimConfig where
  protocol : Int32
  srcmac : Vector UInt8 6
  dstmac : Vector UInt8 6
  saddr : Range
  daddr : Range
  sport : Range
  dport : Range
  /-- `NULL` until a line sets it. -/
  pktData : Option PktData
  linkName : List UInt8
  int : IntField → Int32

/-- `config->pktlen`, as the number the arithmetic on it uses. -/
def SimConfig.pktlen (config : SimConfig) : Int := (config.int .pktlen).toInt

/-- `config->field = value`. -/
def SimConfig.setInt (config : SimConfig) (field : IntField) (value : Int32) : SimConfig :=
  { config with int := Function.update config.int field value }

@[simp] theorem SimConfig.setInt_self (config : SimConfig) (field : IntField) (value : Int32) :
    (config.setInt field value).int field = value := Function.update_self ..

@[simp] theorem SimConfig.setInt_of_ne (config : SimConfig) {field field' : IntField}
    (value : Int32) (h : field' ≠ field) :
    (config.setInt field value).int field' = config.int field' := Function.update_of_ne h ..

/-! ## §3. Before the file is read. -/

/-- `inet_addr` of a dotted quad: its bytes in network order. -/
def inetAddr (a b c d : UInt8) : UInt32 :=
  a.toUInt32 ||| (b.toUInt32 <<< 8) ||| (c.toUInt32 <<< 16) ||| (d.toUInt32 <<< 24)

/-- The record after `bzero`. -/
def zeroConfig : SimConfig :=
  { protocol := 0, srcmac := Vector.replicate 6 0, dstmac := Vector.replicate 6 0
    saddr := ⟨0, 0, 0⟩, daddr := ⟨0, 0, 0⟩, sport := ⟨0, 0, 0⟩, dport := ⟨0, 0, 0⟩
    pktData := none, linkName := [], int := fun _ => 0 }

/-- `init_config_s`.  It does not set `destory_time`. -/
def initConfigS (config : SimConfig) : SimConfig :=
  { protocol := 6
    srcmac := #v[0x10, 0xBF, 0x48, 0xD7, 0x9C, 0xF8]
    dstmac := #v[0x10, 0xBF, 0x48, 0xD7, 0x98, 0x3C]
    saddr := ⟨inetAddr 192 168 103 19, inetAddr 192 168 103 19, inetAddr 192 168 103 19⟩
    daddr := ⟨inetAddr 192 168 103 18, inetAddr 192 168 103 18, inetAddr 192 168 103 18⟩
    sport := ⟨100, 100, 100⟩
    dport := ⟨200, 200, 200⟩
    pktData := none
    -- "xgbe1"
    linkName := [0x78, 0x67, 0x62, 0x65, 0x31]
    int := fun field =>
      match field with
      | .pktlen => 600
      | .speed => 5000
      | .generatorNums | .parserNums | .managerNums => 1
      | .generatorPoolSize => 100000
      | .parserQueueLength => 50000
      | .parserPoolSize => 100000
      | .managerQueueLength => 50000
      | .managerPoolSize => 50000
      | .managerHashLength => 1173
      | .managerBufferSize => 65536
      | .packetGeneratorMode => 1
      | .screenDisplay => 1
      | .pipeDepth => 2
      | .speedMode => 0
      | .destoryTime => config.int .destoryTime }

end FreePacket.ConfigFile
