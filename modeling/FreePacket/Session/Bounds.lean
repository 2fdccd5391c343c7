/-
  FreePacket.Session.Bounds
  ─────────────────────────
  **THE HASH ARITHMETIC AND ITS ARRAYS: from two configured integers to the
  three indices a flow is hashed to.**

  `MANAGER_NUMS` and `MANAGER_HASH_LENGTH` are whatever `atoi` makes of them.
  `init_manager_group` allocates `manager_nums` managers, each with a table of
  `next_prime(manager_hash_length)` buckets, and checks neither number: what
  stops a value is only a `malloc` that cannot serve it.  `hash_index` then
  divides by the number of managers, and its result indexes the managers and
  the 36 counters of `ghash_view`; the manager divides by the number of
  buckets.

  `initManagerGroup_safe_iff` gives the values that are safe for every packet,
  among those the process starts with: 1 to 36 managers, and a hash length
  from 0 up to 2 ^ 25.  A prime of at least 2 ^ 26 times `sizeof(bucket_t)`
  wraps in `int bytes` to a small allocation.
-/
import FreePacket.ConfigFile.Reader
import FreePacket.Packet.Generate
import FreePacket.Session.Conservation
import FreePacket.Session.NextPrime

namespace FreePacket.Session

open FreePacket.Lib FreePacket.Packet FreePacket.ConfigFile
open FreePacket.Lib.CString (ascii)

/-! ## §1. `init_manager_group`. -/

/-- The number of counters in `ghash_view`. -/
def ghashView : Nat := 36

/-- `sizeof(manager_t)`. -/
def sizeofManager : Int := 56

/-- `manager_group_t`, the array behind `manager` with all its entries. -/
structure ManagerGroup where
  manager : List Manager
  numbers : UInt32

/-- The loop `for (int i = 0; i < numbers; i++)`, from `i` on for `k` rounds. -/
def initManagers (init : Nat → Option Manager) : Nat → Nat → Option (List Manager)
  | 0, _ => some []
  | k + 1, i =>
      match init i with
      | none => none
      | some m => (initManagers init k (i + 1)).map (fun rest => m :: rest)

/-- `init_manager_group`.  A negative number of managers is a `size_t` above
    any object, and the process exits; `malloc(0)` answers a pointer. -/
def initManagerGroup (config : SimConfig) (mhz : Int32) (fuel : Nat)
    (garbage : Nat → Nat → SessionItem) : Option ManagerGroup :=
  if sizeT (sizeofManager * (config.int .managerNums).toInt) < 2 ^ 63 then
    (initManagers
        (fun i => initSignleManager (sourceConfig (config.int .managerBufferSize) mhz) i fuel
          (config.int .managerHashLength) (garbage i))
        (config.int .managerNums).toInt.toNat 0).map
      (fun manager => { manager := manager, numbers := (config.int .managerNums).toUInt32 })
  else none

/-- **What the claim of safety is**, for one flow's key. -/
structure HashSafe (group : ManagerGroup) (key : Key) : Prop where
  /-- `hash_index` has something to divide by. -/
  divisor : group.numbers ≠ 0
  /-- Its result is an index of `manager_group->manager` … -/
  index_manager : (hashIndex key group.numbers).toNat < group.manager.length
  /-- … and of `ghash_view`. -/
  index_view : (hashIndex key group.numbers).toNat < ghashView
  /-- `hash_create` made a table of buckets … -/
  buckets_pos : ∀ m ∈ group.manager, 0 < m.ht.numBuckets.toInt
  /-- … with the bytes for them … -/
  buckets_allocated : ∀ m ∈ group.manager,
    m.ht.numBuckets.toInt * sizeofBucket ≤ (hashBytes m.ht.numBuckets).toInt
  /-- … and the bucket the flow goes to lies inside. -/
  bucket_inside : ∀ m ∈ group.manager,
    ((m.slot (bucketIndex key m.ht.size) : Int) + 1) * sizeofBucket
      ≤ (hashBytes m.ht.numBuckets).toInt

/-! ## §2. One table. -/

/-- The product `bytes` as it is stored. -/
theorem hashBytes_toInt {num : Int32} {n : Int} (h : num.toInt = n) (hnonneg : 0 ≤ n)
    (hlt : n < 2 ^ 26) :
    (hashBytes num).toInt = if n < 2 ^ 25 then n * 64 else n * 64 - 2 ^ 32 := by
  unfold hashBytes sizeofBucket
  rw [h, Int32.toInt_ofInt, Int.bmod_def, show ((Int32.size : Nat) : Int) = 2 ^ 32 from rfl]
  split <;> split <;> omega

/-- The conversion `(int)i` of `next_prime`. -/
theorem int32_ofInt_toInt {p : Nat} (h : p < 2 ^ 32) :
    (Int32.ofInt p).toInt = if p < 2 ^ 31 then (p : Int) else (p : Int) - 2 ^ 32 := by
  rw [Int32.toInt_ofInt, Int.bmod_def, show ((Int32.size : Nat) : Int) = 2 ^ 32 from rfl]
  split <;> split <;> omega

/-- A positive number of buckets is within its allocation just below 2 ^ 25. -/
theorem buckets_allocated_iff {num : Int32} (hpos : 0 < num.toInt) :
    num.toInt * sizeofBucket ≤ (hashBytes num).toInt ↔ num.toInt < 2 ^ 25 := by
  constructor
  · intro hle
    have hmax : (hashBytes num).toInt < 2 ^ 31 := Int32.toInt_lt _
    unfold sizeofBucket at hle
    omega
  · intro hlt
    rw [hashBytes_toInt rfl (Int.le_of_lt hpos) (by omega), if_pos hlt]
    exact Int.le_refl _

/-- **The tables that hold their buckets** come from the hash lengths below
    2 ^ 25: above, the prime is 2 ^ 26 or more, or no `int` at all. -/
theorem hashCreate_sound_iff {fuel : Nat} {hashLength : Int32} {ht : HashTable}
    (h : hashCreate fuel hashLength = some ht) :
    (0 < ht.numBuckets.toInt
        ∧ ht.numBuckets.toInt * sizeofBucket ≤ (hashBytes ht.numBuckets).toInt)
      ↔ 0 ≤ hashLength.toInt ∧ hashLength.toInt < 2 ^ 25 := by
  obtain ⟨hprime, hserved, -⟩ := hashCreate_eq_some h
  have hmax : hashLength.toInt < 2 ^ 31 := Int32.toInt_lt _
  rcases Int.lt_or_le hashLength.toInt 0 with hneg | hnonneg
  · have hnum := nextPrime_negative hneg hprime
    refine iff_of_false ?_ ?_
    · rintro ⟨hpos, -⟩
      omega
    · rintro ⟨hnonneg, -⟩
      omega
  · obtain ⟨p, hp, hnum⟩ := nextPrime_least hnonneg hprime
    have habove := hp.above
    have hdouble : p ≤ 2 * hashLength.toInt.toNat ∨ p ≤ 2 := by
      rcases Nat.eq_zero_or_pos hashLength.toInt.toNat with hzero | hpos
      · exact Or.inr (hp.least 2 Nat.prime_two (by omega))
      · exact Or.inl (hp.le_double (by omega))
    have hint := int32_ofInt_toInt (show p < 2 ^ 32 by omega)
    rw [← hnum] at hint
    constructor
    · rintro ⟨hpos, hfits⟩
      have hlt := (buckets_allocated_iff hpos).mp hfits
      split at hint <;> omega
    · rintro ⟨-, hlt⟩
      rw [if_pos (show p < 2 ^ 31 by omega)] at hint
      -- between 2 ^ 25 and 2 ^ 26 the product is negative, and nothing started
      rw [Int32.lt_iff_toInt_lt, hashBytes_toInt hint (by omega) (by omega),
        show (0 : Int32).toInt = 0 from rfl] at hserved
      have hbuckets : (p : Int) < 2 ^ 25 := by
        by_contra hge
        rw [if_neg hge] at hserved
        omega
      have hpos : 0 < ht.numBuckets.toInt := by omega
      exact ⟨hpos, (buckets_allocated_iff hpos).mpr (by omega)⟩

/-- In a table that holds its buckets every index computed for it is inside. -/
theorem bucket_inside (m : Manager) (key : UInt32) (hpos : 0 < m.ht.numBuckets.toInt)
    (hfits : m.ht.numBuckets.toInt * sizeofBucket ≤ (hashBytes m.ht.numBuckets).toInt) :
    ((m.slot key : Int) + 1) * sizeofBucket ≤ (hashBytes m.ht.numBuckets).toInt := by
  have hslot := slot_lt m hpos key
  unfold HashTable.rounds at hslot
  unfold sizeofBucket at hfits ⊢
  omega

/-! ## §3. The group. -/

section Loop

variable {init : Nat → Option Manager}

/-- One round of the loop makes one manager. -/
theorem initManagers_succ_iff {k i : Nat} {ms : List Manager} :
    initManagers init (k + 1) i = some ms
      ↔ ∃ m rest, init i = some m ∧ initManagers init k (i + 1) = some rest ∧ ms = m :: rest := by
  conv_lhs => unfold initManagers
  cases init i with
  | none =>
    refine iff_of_false nofun ?_
    rintro ⟨m, rest, hm, -⟩
    exact absurd hm nofun
  | some first =>
    show Option.map _ _ = _ ↔ _
    rw [Option.map_eq_some_iff]
    constructor
    · rintro ⟨rest, hrest, hms⟩
      exact ⟨first, rest, rfl, hrest, hms.symm⟩
    · rintro ⟨m, rest, hm, hrest, hms⟩
      rw [Option.some.inj hm]
      exact ⟨rest, hrest, hms.symm⟩

theorem initManagers_length {k i : Nat} {ms : List Manager}
    (h : initManagers init k i = some ms) : ms.length = k := by
  induction k generalizing i ms with
  | zero =>
    have hnil : [] = ms := Option.some.inj h
    rw [← hnil]
    rfl
  | succ k ih =>
    obtain ⟨m, rest, -, hrest, rfl⟩ := initManagers_succ_iff.mp h
    rw [List.length_cons, ih hrest]

theorem initManagers_mem {k i : Nat} {ms : List Manager} (h : initManagers init k i = some ms)
    {m : Manager} (hm : m ∈ ms) : ∃ j, init j = some m := by
  induction k generalizing i ms with
  | zero =>
    have hnil : [] = ms := Option.some.inj h
    rw [← hnil] at hm
    exact absurd hm List.not_mem_nil
  | succ k ih =>
    obtain ⟨first, rest, hfirst, hrest, rfl⟩ := initManagers_succ_iff.mp h
    rcases List.mem_cons.mp hm with rfl | hlater
    · exact ⟨i, hfirst⟩
    · exact ih hrest hlater

theorem initManagers_succeeds (k i : Nat) (h : ∀ j, ∃ m, init j = some m) :
    ∃ ms, initManagers init k i = some ms := by
  induction k generalizing i with
  | zero => exact ⟨[], rfl⟩
  | succ k ih =>
    obtain ⟨m, hm⟩ := h i
    obtain ⟨rest, hrest⟩ := ih (i + 1)
    exact ⟨m :: rest, initManagers_succ_iff.mpr ⟨m, rest, hm, hrest, rfl⟩⟩

end Loop

/-- What a process that came through `init_manager_group` has. -/
theorem initManagerGroup_eq_some {config : SimConfig} {mhz : Int32} {fuel : Nat}
    {garbage : Nat → Nat → SessionItem} {group : ManagerGroup}
    (h : initManagerGroup config mhz fuel garbage = some group) :
    0 ≤ (config.int .managerNums).toInt
      ∧ group.manager.length = (config.int .managerNums).toInt.toNat
      ∧ group.numbers.toNat = (config.int .managerNums).toInt.toNat
      ∧ ∀ m ∈ group.manager, hashCreate fuel (config.int .managerHashLength) = some m.ht := by
  have hlow : -2 ^ 31 ≤ (config.int .managerNums).toInt := Int32.le_toInt _
  unfold initManagerGroup at h
  by_cases hsize : sizeT (sizeofManager * (config.int .managerNums).toInt) < 2 ^ 63
  · rw [if_pos hsize] at h
    obtain ⟨ms, hms, hgroup⟩ := Option.map_eq_some_iff.mp h
    have hnonneg : 0 ≤ (config.int .managerNums).toInt := by
      by_contra hneg
      have hwrap : sizeofManager * (config.int .managerNums).toInt % 2 ^ 64
          = sizeofManager * (config.int .managerNums).toInt + 2 ^ 64 := by
        unfold sizeofManager
        rw [← Int.add_emod_right, Int.emod_eq_of_lt (by omega) (by omega)]
      unfold sizeT at hsize
      rw [hwrap] at hsize
      unfold sizeofManager at hsize
      omega
    rw [← hgroup]
    refine ⟨hnonneg, initManagers_length hms, ?_, ?_⟩
    · exact Int32.toNat_toUInt32_of_le (Int32.le_iff_toInt_le.mpr hnonneg)
    · intro m hm
      obtain ⟨i, hi⟩ := initManagers_mem hms hm
      obtain ⟨ht, hcreate, rfl⟩ := initSignleManager_eq_some hi
      exact hcreate
  · rw [if_neg hsize] at h
    exact absurd h nofun

/-- **What starts**: any number of managers, with tables whose bytes are not
    negative. -/
theorem initManagerGroup_starts (config : SimConfig) (mhz : Int32) {fuel p : Nat}
    (garbage : Nat → Nat → SessionItem) (hnums : 0 ≤ (config.int .managerNums).toInt)
    (hlength : 0 ≤ (config.int .managerHashLength).toInt)
    (hp : LeastPrimeAbove (config.int .managerHashLength).toInt.toNat p) (hlt : p < 2 ^ 25)
    (hfuel : p ≤ fuel) : ∃ group, initManagerGroup config mhz fuel garbage = some group := by
  have hprime := nextPrime_finds hlength hp hfuel
  have hint := int32_ofInt_toInt (show p < 2 ^ 32 by omega)
  rw [if_pos (show p < 2 ^ 31 by omega)] at hint
  have hbytes := hashBytes_toInt hint (by omega) (by omega)
  rw [if_pos (show (p : Int) < 2 ^ 25 by omega)] at hbytes
  have hserved : ¬ hashBytes (Int32.ofInt p) < 0 := by
    rw [Int32.lt_iff_toInt_lt, hbytes, show (0 : Int32).toInt = 0 from rfl]
    omega
  have hsize : sizeT (sizeofManager * (config.int .managerNums).toInt) < 2 ^ 63 := by
    have hmax : (config.int .managerNums).toInt < 2 ^ 31 := Int32.toInt_lt _
    have hcast := sizeT_of_nonneg (n := sizeofManager * (config.int .managerNums).toInt)
      (by unfold sizeofManager; omega) (by unfold sizeofManager; omega)
    unfold sizeofManager at hcast ⊢
    omega
  have hinit : ∀ i, ∃ m, initSignleManager (sourceConfig (config.int .managerBufferSize) mhz) i
      fuel (config.int .managerHashLength) (garbage i) = some m := by
    intro i
    have hcreate : hashCreate fuel (config.int .managerHashLength)
        = some { numBuckets := Int32.ofInt p
                 buckets := fun _ => { list := [], count := 0 } } := by
      unfold hashCreate
      rw [hprime]
      exact if_neg hserved
    unfold initSignleManager
    rw [hcreate]
    exact ⟨_, rfl⟩
  obtain ⟨ms, hms⟩ := initManagers_succeeds (config.int .managerNums).toInt.toNat 0 hinit
  unfold initManagerGroup
  rw [if_pos hsize, hms]
  exact ⟨_, rfl⟩

/-- **Safety of one flow's hashes**: the managers and the table are in range,
    and of more than 36 managers it is one of the first 36 that gets the flow. -/
theorem hashSafe_iff {config : SimConfig} {mhz : Int32} {fuel : Nat}
    {garbage : Nat → Nat → SessionItem} {group : ManagerGroup}
    (h : initManagerGroup config mhz fuel garbage = some group) (key : Key) :
    HashSafe group key ↔
      1 ≤ (config.int .managerNums).toInt
        ∧ (hashIndex key group.numbers).toNat < ghashView
        ∧ 0 ≤ (config.int .managerHashLength).toInt
        ∧ (config.int .managerHashLength).toInt < 2 ^ 25 := by
  obtain ⟨hnonneg, hlength, hnumbers, htable⟩ := initManagerGroup_eq_some h
  have hzero : group.numbers = 0 ↔ group.numbers.toNat = 0 := UInt32.toNat_inj.symm
  constructor
  · intro hsafe
    have hdivisor := mt hzero.mpr hsafe.divisor
    obtain ⟨m, hm⟩ := List.exists_mem_of_length_pos (show 0 < group.manager.length by omega)
    have hsound := (hashCreate_sound_iff (htable m hm)).mp
      ⟨hsafe.buckets_pos m hm, hsafe.buckets_allocated m hm⟩
    exact ⟨by omega, hsafe.index_view, hsound⟩
  · rintro ⟨hnums, hview, hsound⟩
    have htables : ∀ m ∈ group.manager, 0 < m.ht.numBuckets.toInt
        ∧ m.ht.numBuckets.toInt * sizeofBucket ≤ (hashBytes m.ht.numBuckets).toInt := by
      intro m hm
      exact (hashCreate_sound_iff (htable m hm)).mpr hsound
    have hindex := makeHash_lt key.lowerIp key.upperIp key.lowerPort key.upperPort
      (show 0 < group.numbers.toNat by omega)
    refine ⟨?_, ?_, hview, ?_, ?_, ?_⟩
    · intro heq
      have hnat := hzero.mp heq
      omega
    · rw [hlength, ← hnumbers]
      exact hindex
    · intro m hm
      exact (htables m hm).1
    · intro m hm
      exact (htables m hm).2
    · intro m hm
      exact bucket_inside m _ (htables m hm).1 (htables m hm).2

/-! ## §4. Every packet. -/

/-- A segment from 40.4.6.97, port 2128, to 10.0.0.1, port 80. -/
def strayPacket : PacketT :=
  { blankPacket with
    data := fun
      | 16 => 0x45
      | 25 => 6
      | 28 => 40 | 29 => 4 | 30 => 6 | 31 => 97
      | 32 => 10 | 33 => 0 | 34 => 0 | 35 => 1
      | 36 => 0x08 | 37 => 0x50
      | 38 => 0x00 | 39 => 0x50
      | 48 => 0x50
      | _ => 0 }

/-- Its hash is 36 before the division. -/
theorem strayPacket_hash (numbers : UInt32) :
    hashIndex (packetKey strayPacket) numbers = 36 % numbers := rfl

/-- **Which configurations are safe for every packet.** -/
theorem initManagerGroup_safe_iff {config : SimConfig} {mhz : Int32} {fuel : Nat}
    {garbage : Nat → Nat → SessionItem} {group : ManagerGroup}
    (h : initManagerGroup config mhz fuel garbage = some group) :
    (∀ (flow : FlowItem) (packet : PacketT),
        HashSafe group (makeFlowItemTcp flow packet).key)
      ↔ (1 ≤ (config.int .managerNums).toInt ∧ (config.int .managerNums).toInt ≤ 36)
        ∧ 0 ≤ (config.int .managerHashLength).toInt
        ∧ (config.int .managerHashLength).toInt < 2 ^ 25 := by
  obtain ⟨hnonneg, -, hnumbers, -⟩ := initManagerGroup_eq_some h
  constructor
  · intro hall
    obtain ⟨hnums, hview, hsound⟩ := (hashSafe_iff h _).mp (hall blankFlow strayPacket)
    refine ⟨⟨hnums, ?_⟩, hsound⟩
    -- 36 % numbers is 36 for more than 36 managers
    by_contra hmany
    have hstray : (hashIndex (packetKey strayPacket) group.numbers).toNat < ghashView := hview
    rw [strayPacket_hash, UInt32.toNat_mod, show (36 : UInt32).toNat = 36 from rfl,
      Nat.mod_eq_of_lt (by omega)] at hstray
    exact absurd hstray (by decide)
  · rintro ⟨⟨hnums, hfew⟩, hsound⟩ flow packet
    refine (hashSafe_iff h _).mpr ⟨hnums, ?_, hsound⟩
    have hindex : (hashIndex (makeFlowItemTcp flow packet).key group.numbers).toNat
        < group.numbers.toNat := makeHash_lt _ _ _ _ (by omega)
    unfold ghashView
    omega

/-- 1181 follows 1173, the default `MANAGER_HASH_LENGTH`. -/
theorem leastPrimeAbove_default : LeastPrimeAbove 1173 1181 := by
  refine ⟨by norm_num, by decide, ?_⟩
  intro q hprime habove
  by_contra hlt
  have hupper : q < 1181 := Nat.not_le.mp hlt
  interval_cases q <;> norm_num at hprime

/-- The defaults with `MANAGER_NUMS` and `PIPE_DEPTH` set. -/
def managersConfig (nums : Int32) : SimConfig :=
  ((initConfigS zeroConfig).setInt .managerNums nums).setInt .pipeDepth 5

theorem managersConfig_starts {nums : Int32} (h : 0 ≤ nums.toInt) :
    ∃ group, initManagerGroup (managersConfig nums) 1000 1181 (fun _ _ => blankItem)
      = some group :=
  initManagerGroup_starts (managersConfig nums) 1000 (fun _ _ => blankItem) h
    (show 0 ≤ (1173 : Int32).toInt by decide) leastPrimeAbove_default (by decide)
    (Nat.le_refl 1181)

/-- 36 managers with the default tables start, and every packet is safe. -/
theorem thirtySixManagers_safe :
    ∃ config group, readConfigFile (fun _ => ⟨0, 0⟩) (ascii "MANAGER_NUMS=36\nPIPE_DEPTH=5\n")
          (initConfigS zeroConfig) = some config
      ∧ initManagerGroup config 1000 1181 (fun _ _ => blankItem) = some group
      ∧ ∀ (flow : FlowItem) (packet : PacketT),
          HashSafe group (makeFlowItemTcp flow packet).key := by
  have hread : readConfigFile (fun _ => ⟨0, 0⟩) (ascii "MANAGER_NUMS=36\nPIPE_DEPTH=5\n")
      (initConfigS zeroConfig) = some (managersConfig 36) := rfl
  obtain ⟨group, hgroup⟩ := managersConfig_starts (show 0 ≤ (36 : Int32).toInt by decide)
  exact ⟨_, group, hread, hgroup, (initManagerGroup_safe_iff hgroup).mpr (by decide)⟩

/-- **With a 37th manager `ghash_view` is too short.** -/
theorem thirtySevenManagers_unsafe :
    ¬ ∀ (locals : Nat → Locals) (text : List UInt8) (config : SimConfig) (mhz : Int32) (fuel : Nat)
        (garbage : Nat → Nat → SessionItem) (group : ManagerGroup),
        readConfigFile locals text (initConfigS zeroConfig) = some config →
        initManagerGroup config mhz fuel garbage = some group →
        ∀ (flow : FlowItem) (packet : PacketT),
          HashSafe group (makeFlowItemTcp flow packet).key := by
  intro hall
  have hread : readConfigFile (fun _ => ⟨0, 0⟩) (ascii "MANAGER_NUMS=37\nPIPE_DEPTH=5\n")
      (initConfigS zeroConfig) = some (managersConfig 37) := rfl
  obtain ⟨group, hgroup⟩ := managersConfig_starts (show 0 ≤ (37 : Int32).toInt by decide)
  have hview := (hall _ _ _ _ _ _ group hread hgroup blankFlow strayPacket).index_view
  obtain ⟨-, -, hnumbers, -⟩ := initManagerGroup_eq_some hgroup
  have hstray : (hashIndex (packetKey strayPacket) group.numbers).toNat < ghashView := hview
  rw [strayPacket_hash, UInt32.toNat_mod, hnumbers] at hstray
  exact absurd hstray (by decide)

end FreePacket.Session
