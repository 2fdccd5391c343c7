/-
  FreePacket.Session.Hash
  ───────────────────────
  **THE SESSION TABLE: hash.c and the table half of packet_manager.c.**

  A manager owns a hash table of buckets and a pool of free session nodes.
  `hash_add_item` puts a flow's payload into a session, creating or flushing
  one on the way; `delete_session` expires the sessions of one bucket.

  A bucket's intrusive list is the list of its nodes in link order; a node is
  known by its address, `list_del` removes the node of an address and a write
  through a node pointer replaces it.  `mwsr_mpool_t` is a bounded FIFO.  The
  time-stamp counter is an argument `now`.  Operations that spin answer
  `none`: the caller takes no step.
-/
import FreePacket.Lib.Fifo
import FreePacket.Packet.Key

namespace FreePacket.Session

open FreePacket.Lib FreePacket.Packet

/-! ## §1. Records. -/

/-- `session_item_t`.  `pool` is the index of the manager whose
    `session_pool` the pool pointer points to. -/
structure SessionItem where
  upperIp : UInt32
  lowerIp : UInt32
  upperPort : UInt32
  lowerPort : UInt32
  protocol : UInt8
  buffer : Nat → UInt8
  lastTime : UInt64
  length : UInt32
  curLen : UInt32
  pool : Nat

/-- A session item of zero bytes. -/
def blankItem : SessionItem :=
  { upperIp := 0, lowerIp := 0, upperPort := 0, lowerPort := 0, protocol := 0
    buffer := fun _ => 0, lastTime := 0, length := 0, curLen := 0, pool := 0 }

/-- `struct blist`.  `addr` is its index in the block `init_signle_manager`
    allocates for the manager. -/
structure Blist where
  addr : Nat
  item : SessionItem

/-- `bucket_t`, its list in link order from the head. -/
structure Bucket where
  list : List Blist
  count : UInt32

/-- `hash_table`. -/
structure HashTable where
  numBuckets : Int32
  buckets : Nat → Bucket

/-- The fields of `manager_t` the table operations use. -/
structure Manager where
  index : Nat
  ht : HashTable
  sessionPool : List Blist

/-- The configuration the table operations read, and the number of session
    nodes, `1 << MANAGER_POOL` in the source. -/
structure Config where
  managerBufferSize : Int32
  mhz : Int32
  poolSize : Nat

/-- `MANAGER_POOL`. -/
def managerPool : Nat := 16

/-! ## §2. Creation. -/

/-- `for (j = 2; j < i; j++) if (i % j == 0) …`, from `j` on for `k` rounds. -/
def noDivisor (i : Int) : Nat → Int → Bool
  | 0, _ => true
  | k + 1, j => if Int.tmod i j = 0 then false else noDivisor i k (j + 1)

/-- The loop `while (i++)` of `next_prime`, at most `fuel` rounds of it. -/
def nextPrimeLoop : Nat → Int → Option Int32
  | 0, _ => none
  | fuel + 1, i =>
      if i = 0 then some 0
      else if noDivisor (i + 1) (i + 1 - 2).toNat 2 then some (Int32.ofInt (i + 1))
      else nextPrimeLoop fuel (i + 1)

def nextPrime (fuel : Nat) (x : Int32) : Option Int32 :=
  nextPrimeLoop fuel (if x = 0 then 1 else x.toInt)

/-- `sizeof(bucket_t)`: a `list_head`, a mutex and a counter, padded. -/
def sizeofBucket : Int := 64

/-- `bytes = num * sizeof(bucket_t)`, computed as a `size_t` and stored in an `int`. -/
def hashBytes (num : Int32) : Int32 := Int32.ofInt (num.toInt * sizeofBucket)

/-- `hash_create`.  A negative `bytes` is a `size_t` no `malloc` serves, and
    the process exits. -/
def hashCreate (fuel : Nat) (num : Int32) : Option HashTable :=
  match nextPrime fuel num with
  | none => none
  | some num =>
      if hashBytes num < 0 then none
      else some { numBuckets := num, buckets := fun _ => { list := [], count := 0 } }

/-- `init_signle_manager`, the nodes holding what `malloc` left in them. -/
def initSignleManager (cfg : Config) (i : Nat) (fuel : Nat) (hashLength : Int32)
    (garbage : Nat → SessionItem) : Option Manager :=
  match hashCreate fuel hashLength with
  | none => none
  | some ht =>
      some { index := i, ht := ht
             sessionPool := (List.range cfg.poolSize).map (fun j => ⟨j, garbage j⟩) }

/-! ## §3. Lookup. -/

/-- `compare_session`. -/
def compareSession (item : SessionItem) (flow : FlowItem) : Nat :=
  if item.protocol = flow.protocol ∧ item.upperIp = flow.upperIp ∧ item.lowerIp = flow.lowerIp
      ∧ item.upperPort = flow.upperPort ∧ item.lowerPort = flow.lowerPort then 0 else 1

/-- `find_list`. -/
def findList : List Blist → FlowItem → Option Blist
  | [], _ => none
  | node :: rest, flow =>
      if compareSession node.item flow = 0 then some node else findList rest flow

/-! ## §4. Table updates. -/

/-- `ht->num_buckets` where it meets a `uint32_t`. -/
def HashTable.size (ht : HashTable) : UInt32 := ht.numBuckets.toUInt32

/-- The bound of `while (i++ < ht->num_buckets)`. -/
def HashTable.rounds (ht : HashTable) : Nat := ht.numBuckets.toInt.toNat

def Manager.bucket (m : Manager) (b : Nat) : Bucket := m.ht.buckets b

/-- `key % ht->num_buckets`: the bucket `hash_add_item` works in. -/
def Manager.slot (m : Manager) (key : UInt32) : Nat := (key % m.ht.size).toNat

def Manager.setBucket (m : Manager) (b : Nat) (bucket : Bucket) : Manager :=
  { m with ht := { m.ht with buckets := Function.update m.ht.buckets b bucket } }

/-- `list_add_tail(&node->listhead, ll); ++bucket->count`. -/
def Bucket.link (bucket : Bucket) (node : Blist) : Bucket :=
  { list := bucket.list ++ [node], count := bucket.count + 1 }

/-- The bucket after writes through a pointer to one of its nodes. -/
def Bucket.store (bucket : Bucket) (node : Blist) : Bucket :=
  { bucket with list := bucket.list.map (fun n => if n.addr = node.addr then node else n) }

/-- `list_del(&node->listhead)` and `--bucket->count`. -/
def Bucket.unlink (bucket : Bucket) (node : Blist) : Bucket :=
  { list := bucket.list.eraseP (fun n => n.addr = node.addr), count := bucket.count - 1 }

/-- `mwsr_mpool_enqueue(node->item.pool, node)`.  A node that names another
    manager's pool would not come back to this one. -/
def Manager.release (cfg : Config) (m : Manager) (node : Blist) : Option Manager :=
  if node.item.pool = m.index then
    (Fifo.push cfg.poolSize m.sessionPool [node]).map (fun pool => { m with sessionPool := pool })
  else none

/-- Taking a linked node out of bucket `b` and back into its pool. -/
def Manager.remove (cfg : Config) (m : Manager) (b : Nat) (node : Blist) : Option Manager :=
  (m.setBucket b ((m.bucket b).unlink node)).release cfg node

/-! ## §5. `hash_add_item`. -/

/-- `make_new_session`. -/
def makeNewSession (cfg : Config) (blist : Blist) (flow : FlowItem) (manager : Nat)
    (now : UInt64) : Blist :=
  { blist with
    item :=
      { pool := manager
        length := cfg.managerBufferSize.toUInt32
        upperIp := flow.upperIp, lowerIp := flow.lowerIp
        upperPort := flow.upperPort, lowerPort := flow.lowerPort
        protocol := flow.protocol
        lastTime := now
        buffer := memcpy blist.item.buffer 0 flow.payload flow.payloadLen.toNat
        curLen := 0 + flow.payloadLen } }

/-- The append branch. -/
def appendSession (blist : Blist) (flow : FlowItem) (now : UInt64) : Blist :=
  { blist with
    item :=
      { blist.item with
        buffer := memcpy blist.item.buffer blist.item.curLen.toNat flow.payload
          flow.payloadLen.toNat
        curLen := blist.item.curLen + flow.payloadLen
        lastTime := now } }

/-- The bytes `crc32_32(buf, len)` reads: its loop runs to `len * 4`. -/
def crcBytes (buf : Nat → UInt8) (len : UInt32) : List UInt8 := slice buf 0 (len * 4).toNat

/-- A `memcpy` of `len` payload bytes to offset `off` of a session buffer of
    `length` bytes. -/
structure Copy where
  addr : Nat
  off : UInt32
  len : UInt32
  length : UInt32

/-- Which of its three branches a call of `hash_add_item` took: the copy it
    made, or the node it flushed and the bytes it computed the CRC over. -/
inductive Outcome where
  | created (copy : Copy)
  | appended (copy : Copy)
  | flushed (addr : Nat) (bytes : List UInt8)

/-- The node a call concerned. -/
def Outcome.addr : Outcome → Nat
  | .created copy => copy.addr
  | .appended copy => copy.addr
  | .flushed addr _ => addr

/-- The `crc32_32` call of the flush. -/
def flushBytes (session : SessionItem) : List UInt8 :=
  crcBytes session.buffer (session.curLen / 4)

/-- `hash_add_item`, apart from handing back the flow and its packet.  `none`
    where it spins on an empty or a full session pool, and where there is no
    such bucket: the division traps, or the index is outside the array. -/
def hashAddItem (cfg : Config) (m : Manager) (key : UInt32) (flow : FlowItem) (now : UInt64) :
    Option (Manager × Outcome) :=
  if m.slot key < m.ht.rounds then
    match findList (m.bucket (m.slot key)).list flow with
    | none =>
        match Fifo.take m.sessionPool with
        | none => none
        | some (newBlist, pool) =>
            let node := makeNewSession cfg newBlist flow m.index now
            some (({ m with sessionPool := pool }).setBucket (m.slot key)
                ((m.bucket (m.slot key)).link node),
              .created ⟨node.addr, 0, flow.payloadLen, node.item.length⟩)
    | some blist =>
        if blist.item.curLen + flow.payloadLen < blist.item.length then
          some (m.setBucket (m.slot key)
              ((m.bucket (m.slot key)).store (appendSession blist flow now)),
            .appended ⟨blist.addr, blist.item.curLen, flow.payloadLen, blist.item.length⟩)
        else
          (m.remove cfg (m.slot key) blist).map
            (fun m' => (m', .flushed blist.addr (flushBytes blist.item)))
  else none

/-! ## §6. `delete_session` and `hash_count`. -/

/-- `global_config->destory_time * 1000UL * global_config->mhz`. -/
def lifetime (cfg : Config) (destoryTime : Int32) : UInt64 :=
  destoryTime.toInt64.toUInt64 * 1000 * cfg.mhz.toInt64.toUInt64

/-- The `list_for_each_safe` loop of `delete_session`, from a cursor on. -/
def deleteLoop (cfg : Config) (b : Nat) (now : UInt64) (destoryTime : Int32) :
    List Blist → Manager → Option Manager
  | [], m => some m
  | node :: next, m =>
      if now - node.item.lastTime > lifetime cfg destoryTime then
        match m.remove cfg b node with
        | none => none
        | some m' => deleteLoop cfg b now destoryTime next m'
      else deleteLoop cfg b now destoryTime next m

/-- `delete_session` on bucket `b`. -/
def deleteSession (cfg : Config) (m : Manager) (b : Nat) (now : UInt64) (destoryTime : Int32) :
    Option Manager :=
  deleteLoop cfg b now destoryTime (m.bucket b).list m

/-- `hash_count`. -/
def hashCount (ht : HashTable) : UInt32 :=
  (List.range ht.rounds).foldl (fun cnt b => cnt + (ht.buckets b).count) 0

end FreePacket.Session
