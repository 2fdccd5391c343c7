/-
  FreePacket.Checksum.Crc
  ───────────────────────
  **THE THREE CRC ROUTINES: `GetCRC32` and `crc32_32` of checksum.c, `crc32`
  of crc32.c.**

  Each has a table typed in by hand and a loop of its own: `crc32` counts its
  size down and complements with an exclusive or, `GetCRC32` counts an index
  up to its length, and `crc32_32` casts words to bytes and multiplies their
  number by four.  All three are the bit-serial CRC of Lib.Crc with the
  polynomial 0xEDB88320, over the bytes they read.

  Main results:
    * `crc32Table_eq` — the tables: eight shifts of each byte value.
    * `crc_routines_agree` — the three routines and the bit-serial CRC.
    * `flush_crc` — what `hash_add_item` computes when it flushes a session.
-/
import FreePacket.Lib.CString
import FreePacket.Lib.Crc
import FreePacket.Lib.Memory
import FreePacket.Session.Hash

namespace FreePacket.Checksum

open FreePacket.Lib
open FreePacket.Lib.CString (ascii)
open FreePacket.Lib.Crc (shiftBit feedBit lowBits crc)

/-! ## §1. The tables. -/

/-- `CRC32_table`. -/
def crc32Table : List UInt32 :=
  [ 0x00000000, 0x77073096, 0xEE0E612C, 0x990951BA, 0x076DC419, 0x706AF48F, 0xE963A535, 0x9E6495A3,
    0x0EDB8832, 0x79DCB8A4, 0xE0D5E91E, 0x97D2D988, 0x09B64C2B, 0x7EB17CBD, 0xE7B82D07, 0x90BF1D91,
    0x1DB71064, 0x6AB020F2, 0xF3B97148, 0x84BE41DE, 0x1ADAD47D, 0x6DDDE4EB, 0xF4D4B551, 0x83D385C7,
    0x136C9856, 0x646BA8C0, 0xFD62F97A, 0x8A65C9EC, 0x14015C4F, 0x63066CD9, 0xFA0F3D63, 0x8D080DF5,
    0x3B6E20C8, 0x4C69105E, 0xD56041E4, 0xA2677172, 0x3C03E4D1, 0x4B04D447, 0xD20D85FD, 0xA50AB56B,
    0x35B5A8FA, 0x42B2986C, 0xDBBBC9D6, 0xACBCF940, 0x32D86CE3, 0x45DF5C75, 0xDCD60DCF, 0xABD13D59,
    0x26D930AC, 0x51DE003A, 0xC8D75180, 0xBFD06116, 0x21B4F4B5, 0x56B3C423, 0xCFBA9599, 0xB8BDA50F,
    0x2802B89E, 0x5F058808, 0xC60CD9B2, 0xB10BE924, 0x2F6F7C87, 0x58684C11, 0xC1611DAB, 0xB6662D3D,
    0x76DC4190, 0x01DB7106, 0x98D220BC, 0xEFD5102A, 0x71B18589, 0x06B6B51F, 0x9FBFE4A5, 0xE8B8D433,
    0x7807C9A2, 0x0F00F934, 0x9609A88E, 0xE10E9818, 0x7F6A0DBB, 0x086D3D2D, 0x91646C97, 0xE6635C01,
    0x6B6B51F4, 0x1C6C6162, 0x856530D8, 0xF262004E, 0x6C0695ED, 0x1B01A57B, 0x8208F4C1, 0xF50FC457,
    0x65B0D9C6, 0x12B7E950, 0x8BBEB8EA, 0xFCB9887C, 0x62DD1DDF, 0x15DA2D49, 0x8CD37CF3, 0xFBD44C65,
    0x4DB26158, 0x3AB551CE, 0xA3BC0074, 0xD4BB30E2, 0x4ADFA541, 0x3DD895D7, 0xA4D1C46D, 0xD3D6F4FB,
    0x4369E96A, 0x346ED9FC, 0xAD678846, 0xDA60B8D0, 0x44042D73, 0x33031DE5, 0xAA0A4C5F, 0xDD0D7CC9,
    0x5005713C, 0x270241AA, 0xBE0B1010, 0xC90C2086, 0x5768B525, 0x206F85B3, 0xB966D409, 0xCE61E49F,
    0x5EDEF90E, 0x29D9C998, 0xB0D09822, 0xC7D7A8B4, 0x59B33D17, 0x2EB40D81, 0xB7BD5C3B, 0xC0BA6CAD,
    0xEDB88320, 0x9ABFB3B6, 0x03B6E20C, 0x74B1D29A, 0xEAD54739, 0x9DD277AF, 0x04DB2615, 0x73DC1683,
    0xE3630B12, 0x94643B84, 0x0D6D6A3E, 0x7A6A5AA8, 0xE40ECF0B, 0x9309FF9D, 0x0A00AE27, 0x7D079EB1,
    0xF00F9344, 0x8708A3D2, 0x1E01F268, 0x6906C2FE, 0xF762575D, 0x806567CB, 0x196C3671, 0x6E6B06E7,
    0xFED41B76, 0x89D32BE0, 0x10DA7A5A, 0x67DD4ACC, 0xF9B9DF6F, 0x8EBEEFF9, 0x17B7BE43, 0x60B08ED5,
    0xD6D6A3E8, 0xA1D1937E, 0x38D8C2C4, 0x4FDFF252, 0xD1BB67F1, 0xA6BC5767, 0x3FB506DD, 0x48B2364B,
    0xD80D2BDA, 0xAF0A1B4C, 0x36034AF6, 0x41047A60, 0xDF60EFC3, 0xA867DF55, 0x316E8EEF, 0x4669BE79,
    0xCB61B38C, 0xBC66831A, 0x256FD2A0, 0x5268E236, 0xCC0C7795, 0xBB0B4703, 0x220216B9, 0x5505262F,
    0xC5BA3BBE, 0xB2BD0B28, 0x2BB45A92, 0x5CB36A04, 0xC2D7FFA7, 0xB5D0CF31, 0x2CD99E8B, 0x5BDEAE1D,
    0x9B64C2B0, 0xEC63F226, 0x756AA39C, 0x026D930A, 0x9C0906A9, 0xEB0E363F, 0x72076785, 0x05005713,
    0x95BF4A82, 0xE2B87A14, 0x7BB12BAE, 0x0CB61B38, 0x92D28E9B, 0xE5D5BE0D, 0x7CDCEFB7, 0x0BDBDF21,
    0x86D3D2D4, 0xF1D4E242, 0x68DDB3F8, 0x1FDA836E, 0x81BE16CD, 0xF6B9265B, 0x6FB077E1, 0x18B74777,
    0x88085AE6, 0xFF0F6A70, 0x66063BCA, 0x11010B5C, 0x8F659EFF, 0xF862AE69, 0x616BFFD3, 0x166CCF45,
    0xA00AE278, 0xD70DD2EE, 0x4E048354, 0x3903B3C2, 0xA7672661, 0xD06016F7, 0x4969474D, 0x3E6E77DB,
    0xAED16A4A, 0xD9D65ADC, 0x40DF0B66, 0x37D83BF0, 0xA9BCAE53, 0xDEBB9EC5, 0x47B2CF7F, 0x30B5FFE9,
    0xBDBDF21C, 0xCABAC28A, 0x53B39330, 0x24B4A3A6, 0xBAD03605, 0xCDD70693, 0x54DE5729, 0x23D967BF,
    0xB3667A2E, 0xC4614AB8, 0x5D681B02, 0x2A6F2B94, 0xB40BBE37, 0xC30C8EA1, 0x5A05DF1B, 0x2D02EF8D ]

/-- `crc32_tab`. -/
def crc32Tab : List UInt32 :=
  [ 0x00000000, 0x77073096, 0xee0e612c, 0x990951ba, 0x076dc419, 0x706af48f, 0xe963a535, 0x9e6495a3,
    0x0edb8832, 0x79dcb8a4, 0xe0d5e91e, 0x97d2d988, 0x09b64c2b, 0x7eb17cbd, 0xe7b82d07, 0x90bf1d91,
    0x1db71064, 0x6ab020f2, 0xf3b97148, 0x84be41de, 0x1adad47d, 0x6ddde4eb, 0xf4d4b551, 0x83d385c7,
    0x136c9856, 0x646ba8c0, 0xfd62f97a, 0x8a65c9ec, 0x14015c4f, 0x63066cd9, 0xfa0f3d63, 0x8d080df5,
    0x3b6e20c8, 0x4c69105e, 0xd56041e4, 0xa2677172, 0x3c03e4d1, 0x4b04d447, 0xd20d85fd, 0xa50ab56b,
    0x35b5a8fa, 0x42b2986c, 0xdbbbc9d6, 0xacbcf940, 0x32d86ce3, 0x45df5c75, 0xdcd60dcf, 0xabd13d59,
    0x26d930ac, 0x51de003a, 0xc8d75180, 0xbfd06116, 0x21b4f4b5, 0x56b3c423, 0xcfba9599, 0xb8bda50f,
    0x2802b89e, 0x5f058808, 0xc60cd9b2, 0xb10be924, 0x2f6f7c87, 0x58684c11, 0xc1611dab, 0xb6662d3d,
    0x76dc4190, 0x01db7106, 0x98d220bc, 0xefd5102a, 0x71b18589, 0x06b6b51f, 0x9fbfe4a5, 0xe8b8d433,
    0x7807c9a2, 0x0f00f934, 0x9609a88e, 0xe10e9818, 0x7f6a0dbb, 0x086d3d2d, 0x91646c97, 0xe6635c01,
    0x6b6b51f4, 0x1c6c6162, 0x856530d8, 0xf262004e, 0x6c0695ed, 0x1b01a57b, 0x8208f4c1, 0xf50fc457,
    0x65b0d9c6, 0x12b7e950, 0x8bbeb8ea, 0xfcb9887c, 0x62dd1ddf, 0x15da2d49, 0x8cd37cf3, 0xfbd44c65,
    0x4db26158, 0x3ab551ce, 0xa3bc0074, 0xd4bb30e2, 0x4adfa541, 0x3dd895d7, 0xa4d1c46d, 0xd3d6f4fb,
    0x4369e96a, 0x346ed9fc, 0xad678846, 0xda60b8d0, 0x44042d73, 0x33031de5, 0xaa0a4c5f, 0xdd0d7cc9,
    0x5005713c, 0x270241aa, 0xbe0b1010, 0xc90c2086, 0x5768b525, 0x206f85b3, 0xb966d409, 0xce61e49f,
    0x5edef90e, 0x29d9c998, 0xb0d09822, 0xc7d7a8b4, 0x59b33d17, 0x2eb40d81, 0xb7bd5c3b, 0xc0ba6cad,
    0xedb88320, 0x9abfb3b6, 0x03b6e20c, 0x74b1d29a, 0xead54739, 0x9dd277af, 0x04db2615, 0x73dc1683,
    0xe3630b12, 0x94643b84, 0x0d6d6a3e, 0x7a6a5aa8, 0xe40ecf0b, 0x9309ff9d, 0x0a00ae27, 0x7d079eb1,
    0xf00f9344, 0x8708a3d2, 0x1e01f268, 0x6906c2fe, 0xf762575d, 0x806567cb, 0x196c3671, 0x6e6b06e7,
    0xfed41b76, 0x89d32be0, 0x10da7a5a, 0x67dd4acc, 0xf9b9df6f, 0x8ebeeff9, 0x17b7be43, 0x60b08ed5,
    0xd6d6a3e8, 0xa1d1937e, 0x38d8c2c4, 0x4fdff252, 0xd1bb67f1, 0xa6bc5767, 0x3fb506dd, 0x48b2364b,
    0xd80d2bda, 0xaf0a1b4c, 0x36034af6, 0x41047a60, 0xdf60efc3, 0xa867df55, 0x316e8eef, 0x4669be79,
    0xcb61b38c, 0xbc66831a, 0x256fd2a0, 0x5268e236, 0xcc0c7795, 0xbb0b4703, 0x220216b9, 0x5505262f,
    0xc5ba3bbe, 0xb2bd0b28, 0x2bb45a92, 0x5cb36a04, 0xc2d7ffa7, 0xb5d0cf31, 0x2cd99e8b, 0x5bdeae1d,
    0x9b64c2b0, 0xec63f226, 0x756aa39c, 0x026d930a, 0x9c0906a9, 0xeb0e363f, 0x72076785, 0x05005713,
    0x95bf4a82, 0xe2b87a14, 0x7bb12bae, 0x0cb61b38, 0x92d28e9b, 0xe5d5be0d, 0x7cdcefb7, 0x0bdbdf21,
    0x86d3d2d4, 0xf1d4e242, 0x68ddb3f8, 0x1fda836e, 0x81be16cd, 0xf6b9265b, 0x6fb077e1, 0x18b74777,
    0x88085ae6, 0xff0f6a70, 0x66063bca, 0x11010b5c, 0x8f659eff, 0xf862ae69, 0x616bffd3, 0x166ccf45,
    0xa00ae278, 0xd70dd2ee, 0x4e048354, 0x3903b3c2, 0xa7672661, 0xd06016f7, 0x4969474d, 0x3e6e77db,
    0xaed16a4a, 0xd9d65adc, 0x40df0b66, 0x37d83bf0, 0xa9bcae53, 0xdebb9ec5, 0x47b2cf7f, 0x30b5ffe9,
    0xbdbdf21c, 0xcabac28a, 0x53b39330, 0x24b4a3a6, 0xbad03605, 0xcdd70693, 0x54de5729, 0x23d967bf,
    0xb3667a2e, 0xc4614ab8, 0x5d681b02, 0x2a6f2b94, 0xb40bbe37, 0xc30c8ea1, 0x5a05df1b, 0x2d02ef8d ]

/-! ## §2. The routines. -/

/-- The loop of `GetCRC32`, from `i` on. -/
def getCRC32Loop (buf : Nat → UInt8) (len i data : UInt32) : UInt32 :=
  if i = len then data
  else
    let t := (data ^^^ (buf i.toNat).toUInt32) &&& 0xFF
    getCRC32Loop buf len (i + 1) (((data >>> 8) &&& 0xFFFFFF) ^^^ crc32Table.getD t.toNat 0)
termination_by (len - i).toNat
decreasing_by
  have hne : i.toNat ≠ len.toNat := fun h => by simp_all [UInt32.toNat_inj]
  have hi := i.toNat_lt
  have hlen := len.toNat_lt
  simp only [UInt32.toNat_sub, UInt32.toNat_add, UInt32.toNat_one]
  omega

/-- `GetCRC32`. -/
def getCRC32 (buf : Nat → UInt8) (len : UInt32) : UInt32 :=
  ~~~ getCRC32Loop buf len 0 0xFFFFFFFF

/-- `(uint8_t *) buf`: the bytes of an array of words, as memory has them. -/
def wordBytes (buf : Nat → UInt32) : Nat → UInt8 := fun k => leBytes (buf (k / 4)).toNat (k % 4)

/-- `crc32_32`, but for `TILERA_PLATFORM`.  Its loop is the one of `GetCRC32`. -/
def crc32_32 (buf : Nat → UInt32) (len : UInt32) : UInt32 :=
  ~~~ getCRC32Loop (wordBytes buf) (len * 4) 0 0xFFFFFFFF

/-- The loop `while (size--)` of `crc32`, with `p` moved on by `k`. -/
def crc32Loop (p : Nat → UInt8) : Nat → Nat → UInt32 → UInt32
  | 0, _, crc => crc
  | size + 1, k, crc =>
      crc32Loop p size (k + 1)
        (crc32Tab.getD ((crc ^^^ (p k).toUInt32) &&& 0xFF).toNat 0 ^^^ (crc >>> 8))

/-- `crc32`. -/
def crc32 (crc : UInt32) (buf : Nat → UInt8) (size : Nat) : UInt32 :=
  crc32Loop buf size 0 (crc ^^^ ~~~0) ^^^ ~~~0

/-! ## §3. The CRC they are meant to be. -/

/-- The reflected polynomial of CRC-32. -/
def polynomial : BitVec 32 := 0xEDB88320#32

/-- **CRC-32, bit by bit**: each byte from its lowest bit up, the register
    and the final exclusive or all ones. -/
def bitSerialCrc32 (bytes : List UInt8) : UInt32 :=
  UInt32.ofBitVec (crc polynomial (BitVec.allOnes 32) (BitVec.allOnes 32)
    (bytes.flatMap fun b => lowBits 8 b.toBitVec))

/-! ## §4. One byte. -/

/-- **The first table**: eight shifts of each byte value. -/
theorem crc32Table_eq :
    crc32Table
      = (List.range 256).map fun t =>
          UInt32.ofBitVec ((shiftBit polynomial)^[8] (BitVec.ofNat 32 t)) := by
  decide +kernel

/-- **The second table is the first.** -/
theorem crc32Tab_eq : crc32Tab = crc32Table := rfl

theorem crc32Table_getD {t : UInt32} (h : t.toNat < 256) :
    (crc32Table.getD t.toNat 0).toBitVec = (shiftBit polynomial)^[8] t.toBitVec := by
  have hvalue : BitVec.ofNat 32 t.toNat = t.toBitVec := BitVec.ofNat_toNat 32 t.toBitVec
  rw [crc32Table_eq, List.getD_eq_getElem?_getD, List.getElem?_map, List.getElem?_range h]
  show (shiftBit polynomial)^[8] (BitVec.ofNat 32 t.toNat) = _
  rw [hvalue]

/-- The step of the loops: a look-up, and the register moved down. -/
def step (c : UInt32) (b : UInt8) : UInt32 :=
  crc32Table.getD ((c ^^^ b.toUInt32) &&& 0xFF).toNat 0 ^^^ (c >>> 8)

/-- **One step feeds the eight bits of a byte.** -/
theorem step_feeds (c : UInt32) (b : UInt8) :
    (step c b).toBitVec = (lowBits 8 b.toBitVec).foldl (feedBit polynomial) c.toBitVec := by
  have hmask : ((c ^^^ b.toUInt32) &&& 0xFF).toNat < 256 := by
    rw [UInt32.toNat_and]
    exact Nat.and_lt_two_pow _ (show (0xFF : UInt32).toNat < 2 ^ 8 by decide)
  have hbyte : (b.toUInt32).toBitVec >>> 8 = 0#32 := by
    apply BitVec.eq_of_toNat_eq
    have hb := b.toNat_lt
    rw [BitVec.toNat_ushiftRight, UInt32.toNat_toBitVec, UInt8.toNat_toUInt32, Nat.shiftRight_eq_div_pow]
    show b.toNat / 2 ^ 8 = 0
    omega
  have hlow : (((c ^^^ b.toUInt32) &&& 0xFF).toBitVec) >>> 8 = 0#32 := by
    apply BitVec.eq_of_toNat_eq
    rw [BitVec.toNat_ushiftRight, UInt32.toNat_toBitVec, Nat.shiftRight_eq_div_pow]
    show _ / 2 ^ 8 = 0
    omega
  have hbits : lowBits 8 b.toBitVec = lowBits 8 (b.toUInt32).toBitVec := by
    apply Crc.lowBits_congr
    intro i hi
    rw [UInt8.toBitVec_toUInt32, BitVec.getLsbD_setWidth]
    simp only [show i < 32 by omega, decide_true, Bool.true_and]
  have hsame : ∀ i, i < 8 → ((c ^^^ b.toUInt32) &&& 0xFF).toBitVec.getLsbD i
      = (c.toBitVec ^^^ (b.toUInt32).toBitVec).getLsbD i := by
    intro i hi
    have hones : (0xFF : UInt32).toBitVec.getLsbD i = true := by
      interval_cases i <;> rfl
    rw [UInt32.toBitVec_and, BitVec.getLsbD_and, hones, Bool.and_true, UInt32.toBitVec_xor]
  rw [hbits, ← Crc.table_step hbyte hlow hsame, ← crc32Table_getD hmask]
  rfl

/-! ## §5. The loops. -/

/-- `& 0xFFFFFF` has nothing to take away behind the shift. -/
theorem shifted_mask (c : UInt32) : (c >>> 8) &&& (0xFFFFFF : UInt32) = c >>> 8 := by
  apply UInt32.toNat_inj.mp
  have hc := c.toNat_lt
  have hshift : (c >>> 8).toNat = c.toNat / 2 ^ 8 := by
    rw [UInt32.toNat_shiftRight, Nat.shiftRight_eq_div_pow]
    rfl
  rw [UInt32.toNat_and, hshift, show (0xFFFFFF : UInt32).toNat = 2 ^ 24 - 1 from rfl,
    Nat.and_two_pow_sub_one_eq_mod]
  omega

theorem crc32Loop_eq (p : Nat → UInt8) (size k : Nat) (c : UInt32) :
    crc32Loop p size k c = (slice p k size).foldl step c := by
  induction size generalizing k c with
  | zero => rfl
  | succ size ih =>
    rw [slice_cons, List.foldl_cons, ← ih, crc32Loop, crc32Tab_eq]
    rfl

theorem getCRC32Loop_eq (buf : Nat → UInt8) (len : UInt32) (n : Nat) (i c : UInt32)
    (h : i.toNat + n = len.toNat) :
    getCRC32Loop buf len i c = (slice buf i.toNat n).foldl step c := by
  have hlen := len.toNat_lt
  induction n generalizing i c with
  | zero =>
    unfold getCRC32Loop
    rw [if_pos (UInt32.toNat_inj.mp h)]
    rfl
  | succ n ih =>
    have hne : i ≠ len := by
      intro heq
      rw [heq] at h
      omega
    have hnext : (i + 1).toNat = i.toNat + 1 := by
      rw [UInt32.toNat_add, UInt32.toNat_one]
      omega
    unfold getCRC32Loop
    simp only [if_neg hne]
    rw [shifted_mask, UInt32.xor_comm, ih (i + 1) _ (by omega), hnext, slice_cons]
    rfl

/-- A loop over some bytes is the bit-serial CRC of them before its end. -/
theorem foldl_step_toBitVec (bytes : List UInt8) (c : UInt32) :
    (bytes.foldl step c).toBitVec
      = (bytes.flatMap fun b => lowBits 8 b.toBitVec).foldl (feedBit polynomial) c.toBitVec :=
  Crc.table_fold (fun c b => step_feeds c b) bytes c

/-- **`GetCRC32` is the bit-serial CRC** of the bytes it reads. -/
theorem getCRC32_eq (buf : Nat → UInt8) (len : UInt32) :
    getCRC32 buf len = bitSerialCrc32 (slice buf 0 len.toNat) := by
  have hloop := getCRC32Loop_eq buf len len.toNat 0 0xFFFFFFFF (Nat.zero_add _)
  apply UInt32.toBitVec_inj.mp
  unfold getCRC32 bitSerialCrc32 crc
  rw [UInt32.toBitVec_not, hloop, foldl_step_toBitVec, BitVec.xor_allOnes]
  rfl

/-- `crc32` takes up a CRC of its own. -/
theorem crc32_toBitVec (c : UInt32) (buf : Nat → UInt8) (size : Nat) :
    (crc32 c buf size).toBitVec
      = crc polynomial (c.toBitVec ^^^ BitVec.allOnes 32) (BitVec.allOnes 32)
          ((slice buf 0 size).flatMap fun b => lowBits 8 b.toBitVec) := by
  have hones : (~~~(0 : UInt32)).toBitVec = BitVec.allOnes 32 := rfl
  unfold crc32 crc
  rw [crc32Loop_eq, UInt32.toBitVec_xor, foldl_step_toBitVec, UInt32.toBitVec_xor, hones]

/-- **`crc32` is the bit-serial CRC**, piece by piece. -/
theorem crc32_append (a : List UInt8) (buf : Nat → UInt8) (size : Nat) :
    crc32 (bitSerialCrc32 a) buf size = bitSerialCrc32 (a ++ slice buf 0 size) := by
  apply UInt32.toBitVec_inj.mp
  rw [crc32_toBitVec]
  unfold bitSerialCrc32
  rw [List.flatMap_append, Crc.crc_append]

theorem crc32_zero (buf : Nat → UInt8) (size : Nat) :
    crc32 0 buf size = bitSerialCrc32 (slice buf 0 size) := by
  have hempty : bitSerialCrc32 [] = 0 := rfl
  have happend := crc32_append [] buf size
  rwa [hempty, List.nil_append] at happend

/-! ## §6. Words in memory. -/

/-- **The cast gives the memory back** that the words were read from. -/
theorem wordBytes_load32 (mem : Nat → UInt8) : wordBytes (fun k => load32 mem (4 * k)) = mem := by
  funext k
  have h₀ := (mem (4 * (k / 4))).toNat_lt
  have h₁ := (mem (4 * (k / 4) + 1)).toNat_lt
  have h₂ := (mem (4 * (k / 4) + 2)).toNat_lt
  have h₃ := (mem (4 * (k / 4) + 3)).toNat_lt
  have hload : (load32 mem (4 * (k / 4))).toNat
      = (mem (4 * (k / 4))).toNat + 256 * (mem (4 * (k / 4) + 1)).toNat
        + 65536 * ((mem (4 * (k / 4) + 2)).toNat + 256 * (mem (4 * (k / 4) + 3)).toNat) := by
    rw [load32_toNat, load16_toNat, load16_toNat]
  apply UInt8.toNat_inj.mp
  show (leBytes (load32 mem (4 * (k / 4))).toNat (k % 4)).toNat = (mem k).toNat
  rw [leBytes_toNat, hload]
  obtain h | h | h | h : k % 4 = 0 ∨ k % 4 = 1 ∨ k % 4 = 2 ∨ k % 4 = 3 := by omega
  · rw [h, show mem k = mem (4 * (k / 4)) by congr 1; omega]
    omega
  · rw [h, show mem k = mem (4 * (k / 4) + 1) by congr 1; omega]
    omega
  · rw [h, show mem k = mem (4 * (k / 4) + 2) by congr 1; omega]
    omega
  · rw [h, show mem k = mem (4 * (k / 4) + 3) by congr 1; omega]
    omega

/-- `crc32_32` is `GetCRC32` of the memory, for the length its multiplication
    leaves. -/
theorem crc32_32_eq (mem : Nat → UInt8) (len : UInt32) :
    crc32_32 (fun k => load32 mem (4 * k)) len = getCRC32 mem (len * 4) := by
  unfold crc32_32
  rw [wordBytes_load32]
  rfl

/-- **The CRC of a flush**: `hash_add_item` computes it over the bytes the
    session's flush is said to read. -/
theorem flush_crc (session : Session.SessionItem) :
    crc32_32 (fun k => load32 session.buffer (4 * k)) (session.curLen / 4)
      = bitSerialCrc32 (Session.flushBytes session) := by
  rw [crc32_32_eq, getCRC32_eq]
  rfl

/-! ## §7. The routines agree. -/

/-- A byte string in memory. -/
def stored (s : List UInt8) : Nat → UInt8 := fun k => s.getD k 0

theorem slice_stored (s : List UInt8) : slice (stored s) 0 s.length = s := slice_getD s 0

/-- **The three routines are one CRC**: `crc32` of any two pieces, `GetCRC32`
    of what they are together, and `crc32_32` of words as memory has them. -/
theorem crc_routines_agree :
    (∀ a b : List UInt8,
      crc32 (crc32 0 (stored a) a.length) (stored b) b.length = bitSerialCrc32 (a ++ b)
        ∧ ∀ len : UInt32, len.toNat = (a ++ b).length →
            crc32 (crc32 0 (stored a) a.length) (stored b) b.length
              = getCRC32 (stored (a ++ b)) len)
      ∧ ∀ (mem : Nat → UInt8) (len : UInt32), len.toNat < 2 ^ 30 →
          ∃ n : UInt32, n.toNat = 4 * len.toNat
            ∧ crc32_32 (fun k => load32 mem (4 * k)) len = getCRC32 mem n := by
  constructor
  · intro a b
    have hpieces : crc32 (crc32 0 (stored a) a.length) (stored b) b.length
        = bitSerialCrc32 (a ++ b) := by
      rw [crc32_zero, crc32_append, slice_stored, slice_stored]
    refine ⟨hpieces, ?_⟩
    intro len hlen
    rw [hpieces, getCRC32_eq, hlen, slice_stored]
  · intro mem len hlen
    refine ⟨len * 4, ?_, crc32_32_eq mem len⟩
    rw [UInt32.toNat_mul, show (4 : UInt32).toNat = 4 from rfl]
    omega

/-- The digits 1 to 9 in two pieces have the check value of CRC-32, and so
    `GetCRC32` has it; eight of them are two words. -/
theorem checkValue_agrees :
    crc32 (crc32 0 (stored (ascii "1234")) 4) (stored (ascii "56789")) 5 = 0xCBF43926
      ∧ getCRC32 (stored (ascii "123456789")) 9 = 0xCBF43926
      ∧ ∃ n : UInt32, n.toNat = 8
          ∧ crc32_32 (fun k => load32 (stored (ascii "12345678")) (4 * k)) 2
            = getCRC32 (stored (ascii "12345678")) n := by
  have hpieces : crc32 (crc32 0 (stored (ascii "1234")) 4) (stored (ascii "56789")) 5
      = 0xCBF43926 := by decide +kernel
  have hagree := (crc_routines_agree.1 (ascii "1234") (ascii "56789")).2 9 rfl
  refine ⟨hpieces, ?_, crc_routines_agree.2 (stored (ascii "12345678")) 2 (by decide)⟩
  exact hagree.symm.trans hpieces

end FreePacket.Checksum
