/-
  FreePacket.Stats.Stream
  ───────────────────────
  **THE STATISTICS STREAM of `lossratio.c`.**

  After the handshake `process_ipc_request` writes its `drop_t` again and
  again, `sizeof(drop_t)` bytes each time.  `start_ipc_client` reads up to
  1024 bytes and copies whatever it got over `*global_loss`.  A byte stream
  keeps no record boundaries, so a read may return a piece of a record, or a
  record and more; the client neither waits for the rest nor stops at the
  end of the struct.

  Main results:
    * `loadDrop_image`, `loadDrop_inj` — a `drop_t` and its 56 bytes.
    * `Aligned.run` — reads of 56 bytes keep the client on record boundaries.
    * `ipcRun_framed_iff` — the client shows records, in order and inside the
      struct, whatever they are, exactly if every read returns 56 bytes.
-/
import FreePacket.Lib.Machine
import FreePacket.Lib.Memory
import Mathlib.Data.List.GetD

namespace FreePacket.Stats

open FreePacket.Lib

/-! ## §1. `drop_t` and its bytes. -/

/-- `drop_t`. -/
structure DropT where
  dropCauseGeneratorPoolEmpty : UInt64
  dropCauseParserQueueFull : UInt64
  dropCauseParserPoolEmpty : UInt64
  dropCauseUnsupportProtocol : UInt64
  dropCauseEmptyPayload : UInt64
  dropCauseManagerPoolEmpty : UInt64
  sendTotal : UInt64
  deriving DecidableEq

/-- `sizeof(drop_t)`. -/
def sizeofDrop : Nat := 56

/-- `sizeof(recv_buf)` and `sizeof(send_buf)`. -/
def bufSize : Nat := 1024

/-- The members in the order they lie in memory. -/
def DropT.field (d : DropT) : Nat → UInt64
  | 0 => d.dropCauseGeneratorPoolEmpty
  | 1 => d.dropCauseParserQueueFull
  | 2 => d.dropCauseParserPoolEmpty
  | 3 => d.dropCauseUnsupportProtocol
  | 4 => d.dropCauseEmptyPayload
  | 5 => d.dropCauseManagerPoolEmpty
  | _ => d.sendTotal

/-- The bytes of a `drop_t`, on a little-endian host. -/
def DropT.image (d : DropT) : Nat → UInt8 := fun k => leBytes (d.field (k / 8)).toNat (k % 8)

/-- The `drop_t` that lies at a pointer. -/
def loadDrop (mem : Nat → UInt8) : DropT :=
  { dropCauseGeneratorPoolEmpty := load64 mem 0
    dropCauseParserQueueFull := load64 mem 8
    dropCauseParserPoolEmpty := load64 mem 16
    dropCauseUnsupportProtocol := load64 mem 24
    dropCauseEmptyPayload := load64 mem 32
    dropCauseManagerPoolEmpty := load64 mem 40
    sendTotal := load64 mem 48 }

/-- **Loading the bytes of a record gives the record.** -/
theorem loadDrop_image {mem : Nat → UInt8} {d : DropT} (h : ∀ k < sizeofDrop, mem k = d.image k) :
    loadDrop mem = d := by
  unfold sizeofDrop at h
  have hfield : ∀ i, i < 7 → load64 mem (8 * i) = d.field i := by
    intro i hi
    refine load64_leBytes fun k hk => ?_
    have hdiv : (8 * i + k) / 8 = i := by omega
    have hmod : (8 * i + k) % 8 = k := by omega
    rw [h (8 * i + k) (by omega)]
    unfold DropT.image
    rw [hdiv, hmod]
  unfold loadDrop
  rw [hfield 0 (by omega), hfield 1 (by omega), hfield 2 (by omega), hfield 3 (by omega),
    hfield 4 (by omega), hfield 5 (by omega), hfield 6 (by omega)]
  rfl

/-- **A record tells its bytes apart.** -/
theorem loadDrop_inj {mem mem' : Nat → UInt8} (h : loadDrop mem = loadDrop mem') :
    ∀ k < sizeofDrop, mem k = mem' k := by
  unfold loadDrop at h
  simp only [DropT.mk.injEq] at h
  obtain ⟨h₀, h₁, h₂, h₃, h₄, h₅, h₆⟩ := h
  intro k hk
  unfold sizeofDrop at hk
  by_cases k8 : k < 8
  · exact load64_inj h₀ k (by omega) (by omega)
  by_cases k16 : k < 16
  · exact load64_inj h₁ k (by omega) (by omega)
  by_cases k24 : k < 24
  · exact load64_inj h₂ k (by omega) (by omega)
  by_cases k32 : k < 32
  · exact load64_inj h₃ k (by omega) (by omega)
  by_cases k40 : k < 40
  · exact load64_inj h₄ k (by omega) (by omega)
  by_cases k48 : k < 48
  · exact load64_inj h₅ k (by omega) (by omega)
  · exact load64_inj h₆ k (by omega) (by omega)

/-! ## §2. Server, stream and client. -/

/-- One connection. -/
structure Ipc where
  /-- The records the server has written. -/
  written : Nat
  sendBuf : Nat → UInt8
  /-- The bytes written and not read yet. -/
  wire : List UInt8
  recvBuf : Nat → UInt8
  /-- The client's memory at `global_loss`, and behind the struct. -/
  globalLoss : Nat → UInt8

/-- A round of one of the two loops. -/
inductive IpcCall where
  /-- The server's `memcpy` and `write`. -/
  | write
  /-- A `read` of the client that returns `num`, and its `memcpy`. -/
  | read (num : Nat)
  deriving DecidableEq

/-- What a round of the client shows: `*global_loss` as it is printed, and how
    many bytes the `memcpy` wrote there. -/
structure Shown where
  loss : DropT
  extent : Nat

/-- The two loops over the stream; `record n` is the server's `*global_loss`
    in its round `n`.  A `read` returns between 1 and 1024 of the bytes that
    are there. -/
def ipc (record : Nat → DropT) : Machine Ipc IpcCall (Option Shown) where
  step s call :=
    match call with
    | .write =>
        let sendBuf := memcpy s.sendBuf 0 (record s.written).image sizeofDrop
        some ({ s with written := s.written + 1, sendBuf := sendBuf
                       wire := s.wire ++ slice sendBuf 0 sizeofDrop }, none)
    | .read num =>
        if 1 ≤ num ∧ num ≤ bufSize ∧ num ≤ s.wire.length then
          let recvBuf := memcpy s.recvBuf 0 (fun k => s.wire.getD k 0) num
          let globalLoss := memcpy s.globalLoss 0 recvBuf num
          some ({ s with wire := s.wire.drop num, recvBuf := recvBuf, globalLoss := globalLoss },
            some { loss := loadDrop globalLoss, extent := num })
        else none

/-- Behind the handshake: nothing written yet, `global_loss_body` still zero.
    The buffers hold anything. -/
structure Started (s : Ipc) : Prop where
  written : s.written = 0
  wire : s.wire = []
  zero : ∀ k < sizeofDrop, s.globalLoss k = 0

/-- **Framing**, of the replies of a run that begins with `written` records
    written: what each read leaves is one complete record among those
    written, none before record `next`, and later than the one left by the
    read before it; no copy reaches behind the struct. -/
def Framed (record : Nat → DropT) : Nat → Nat → List (Option Shown) → Prop
  | _, _, [] => True
  | written, next, none :: rs => Framed record (written + 1) next rs
  | written, next, some shown :: rs =>
      shown.extent ≤ sizeofDrop
        ∧ ∃ j, next ≤ j ∧ j < written ∧ shown.loss = record j ∧ Framed record written (j + 1) rs

/-- Framing of a run is framing of each part. -/
theorem Framed.drop {record : Nat → DropT} {rs rs' : List (Option Shown)} {written next : Nat}
    (h : Framed record written next (rs ++ rs')) :
    ∃ written' next', Framed record written' next' rs' := by
  induction rs generalizing written next with
  | nil => exact ⟨written, next, h⟩
  | cons r rs ih =>
      cases r with
      | none => exact ih h
      | some shown =>
          obtain ⟨_, j, _, _, _, hrest⟩ := h
          exact ih hrest

/-! ## §3. Reads on record boundaries. -/

/-- The bytes of records `c`, …, `c + n - 1`. -/
def recordBytes (record : Nat → DropT) (c n : Nat) : List UInt8 :=
  (List.range' c n).flatMap (fun j => slice (record j).image 0 sizeofDrop)

/-- **The client has read `c` whole records.** -/
structure Aligned (record : Nat → DropT) (c : Nat) (s : Ipc) : Prop where
  le : c ≤ s.written
  wire : s.wire = recordBytes record c (s.written - c)
  loss : ∀ k < sizeofDrop, s.globalLoss k = if c = 0 then 0 else (record (c - 1)).image k

section Steps

variable {record : Nat → DropT} {c : Nat} {s s' : Ipc} {r : Option Shown}

theorem Started.aligned (h : Started s) : Aligned record 0 s := by
  refine ⟨Nat.zero_le _, ?_, ?_⟩
  · rw [h.wire, h.written]
    rfl
  · intro k hk
    rw [h.zero k hk, if_pos rfl]

/-- What the server appends is the record. -/
theorem slice_sendBuf (sendBuf : Nat → UInt8) (d : DropT) :
    slice (memcpy sendBuf 0 d.image sizeofDrop) 0 sizeofDrop = slice d.image 0 sizeofDrop :=
  slice_memcpy_self sendBuf 0 d.image sizeofDrop

/-- A round of the server keeps the boundaries. -/
theorem Aligned.write (h : Aligned record c s) (hstep : (ipc record).step s .write = some (s', r)) :
    Aligned record c s' ∧ r = none ∧ s'.written = s.written + 1 := by
  simp only [ipc, Option.some.injEq, Prod.mk.injEq] at hstep
  obtain ⟨rfl, rfl⟩ := hstep
  refine ⟨⟨Nat.le_succ_of_le h.le, ?_, h.loss⟩, rfl, rfl⟩
  have hlast : List.range' c (s.written + 1 - c) = List.range' c (s.written - c) ++ [s.written] := by
    rw [Nat.sub_add_comm h.le, List.range'_concat, Nat.one_mul, Nat.add_sub_cancel' h.le]
  show s.wire ++ slice (memcpy _ 0 _ _) 0 _ = recordBytes record c (s.written + 1 - c)
  unfold recordBytes
  rw [slice_sendBuf, hlast, List.flatMap_append, List.flatMap_singleton, h.wire]
  rfl

/-- What stands in front of an aligned client is the next record. -/
theorem Aligned.front (h : Aligned record c s) (hlt : c < s.written) :
    s.wire = slice (record c).image 0 sizeofDrop
      ++ recordBytes record (c + 1) (s.written - (c + 1)) := by
  rw [h.wire]
  unfold recordBytes
  rw [show s.written - c = (s.written - (c + 1)) + 1 by omega, List.range'_succ,
    List.flatMap_cons]

/-- An aligned client with a byte to read has a record to read. -/
theorem Aligned.lt_written (h : Aligned record c s) (hpos : 0 < s.wire.length) : c < s.written := by
  by_contra hno
  have hzero : s.written - c = 0 := by omega
  rw [h.wire, hzero] at hpos
  exact absurd hpos (by simp [recordBytes])

/-- What a read leaves in the struct: the bytes of the record in front, and
    what was there before behind them. -/
theorem Aligned.read_cells (h : Aligned record c s) {num : Nat}
    (hstep : (ipc record).step s (.read num) = some (s', r)) :
    c < s.written ∧ 1 ≤ num ∧ r = some { loss := loadDrop s'.globalLoss, extent := num }
      ∧ s'.written = s.written ∧ s'.wire = s.wire.drop num
      ∧ ∀ k < sizeofDrop, s'.globalLoss k
          = if k < num then (record c).image k else s.globalLoss k := by
  simp only [ipc] at hstep
  split at hstep
  · rename_i hread
    simp only [Option.some.injEq, Prod.mk.injEq] at hstep
    obtain ⟨rfl, rfl⟩ := hstep
    have hlt := h.lt_written (by omega)
    refine ⟨hlt, hread.1, rfl, rfl, rfl, ?_⟩
    intro k hk
    show memcpy s.globalLoss 0 (memcpy s.recvBuf 0 (fun k => s.wire.getD k 0) num) num k = _
    split
    · rename_i hkn
      rw [memcpy_inside _ _ (Nat.zero_le k) (by omega), memcpy_inside _ _ (Nat.zero_le _) (by omega)]
      -- the byte is one of the record in front
      show s.wire.getD (k - 0 - 0) 0 = _
      rw [Nat.sub_zero, Nat.sub_zero, h.front hlt, List.getD_append _ _ _ _ (by
        rw [slice_length]; exact hk), List.getD_eq_getElem _ _ (by rw [slice_length]; exact hk),
        slice_getElem, Nat.zero_add]
    · rename_i hkn
      exact memcpy_outside _ _ (Or.inr (by omega))
  · exact absurd hstep (by simp)

/-- **A read of 56 bytes** takes the client to the next boundary. -/
theorem Aligned.read (h : Aligned record c s)
    (hstep : (ipc record).step s (.read sizeofDrop) = some (s', r)) :
    Aligned record (c + 1) s' ∧ c < s.written ∧ s'.written = s.written
      ∧ r = some { loss := record c, extent := sizeofDrop } := by
  obtain ⟨hlt, _, hr, hwritten, hwire, hcells⟩ := h.read_cells hstep
  have himage : ∀ k < sizeofDrop, s'.globalLoss k = (record c).image k := by
    intro k hk
    rw [hcells k hk, if_pos hk]
  refine ⟨⟨by omega, ?_, ?_⟩, hlt, hwritten, ?_⟩
  · rw [hwire, h.front hlt, List.drop_left' (slice_length _ _ _), hwritten]
  · intro k hk
    rw [himage k hk, if_neg (Nat.succ_ne_zero c), Nat.add_sub_cancel]
  · rw [hr, loadDrop_image himage]

/-- **A run whose reads all return 56 bytes** stays on the boundaries and shows
    record after record. -/
theorem Aligned.run {calls : List IpcCall} {rs : List (Option Shown)} (h : Aligned record c s)
    (hread : ∀ num, .read num ∈ calls → num = sizeofDrop)
    (hrun : (ipc record).run s calls = some (s', rs)) :
    (∃ d, Aligned record d s' ∧ d = c + calls.countP (fun call => call != .write))
      ∧ Framed record s.written c rs := by
  induction calls generalizing c s rs with
  | nil =>
      simp only [Machine.run_nil, Option.some.injEq, Prod.mk.injEq] at hrun
      rw [← hrun.1, ← hrun.2]
      exact ⟨⟨c, h, rfl⟩, trivial⟩
  | cons call calls ih =>
      obtain ⟨s₁, r, rs', hst, hr, rfl⟩ := (ipc record).run_cons_eq_some.mp hrun
      have hrest : ∀ num, .read num ∈ calls → num = sizeofDrop :=
        fun num hmem => hread num (List.mem_cons_of_mem _ hmem)
      cases call with
      | write =>
          obtain ⟨hnext, rfl, hwritten⟩ := h.write hst
          obtain ⟨hend, hframed⟩ := ih hnext hrest hr
          rw [hwritten] at hframed
          refine ⟨?_, hframed⟩
          rw [List.countP_cons_of_neg (by simp)]
          exact hend
      | read num =>
          obtain rfl := hread num List.mem_cons_self
          obtain ⟨hnext, hlt, hwritten, rfl⟩ := h.read hst
          obtain ⟨⟨d, hd, hcount⟩, hframed⟩ := ih hnext hrest hr
          rw [hwritten] at hframed
          refine ⟨⟨d, hd, ?_⟩, Nat.le_refl _, c, Nat.le_refl c, hlt, rfl, hframed⟩
          rw [List.countP_cons_of_pos (by simp), hcount]
          omega

/-! ## §4. Any other read. -/

/-- Which reads get through depends on lengths, not on what is sent. -/
theorem ipc_run_isSome {record' : Nat → DropT} {calls : List IpcCall} {rs : List (Option Shown)}
    {t : Ipc} (hrun : (ipc record).run s calls = some (s', rs))
    (hlen : t.wire.length = s.wire.length) :
    ∃ t' rs', (ipc record').run t calls = some (t', rs') ∧ t'.wire.length = s'.wire.length := by
  induction calls generalizing s t rs with
  | nil =>
      simp only [Machine.run_nil, Option.some.injEq, Prod.mk.injEq] at hrun
      exact ⟨t, [], rfl, by rw [← hrun.1, hlen]⟩
  | cons call calls ih =>
      obtain ⟨s₁, r, rs', hst, hr, rfl⟩ := (ipc record).run_cons_eq_some.mp hrun
      have hnext : ∃ t₁ q, (ipc record').step t call = some (t₁, q)
          ∧ t₁.wire.length = s₁.wire.length := by
        cases call with
        | write =>
            -- both servers append 56 bytes, whatever the record
            simp only [ipc, Option.some.injEq, Prod.mk.injEq] at hst
            obtain ⟨rfl, _⟩ := hst
            refine ⟨_, _, rfl, ?_⟩
            simp only [List.length_append, slice_length, hlen]
        | read num =>
            simp only [ipc] at hst
            split at hst
            · rename_i hread
              simp only [Option.some.injEq, Prod.mk.injEq] at hst
              obtain ⟨rfl, _⟩ := hst
              rw [← hlen] at hread
              refine ⟨_, _, if_pos hread, ?_⟩
              simp only [List.length_drop, hlen]
            · exact absurd hst (by simp)
      obtain ⟨t₁, q, hq, hlen₁⟩ := hnext
      obtain ⟨t', qs, hqs, hlen'⟩ := ih hr hlen₁
      exact ⟨t', q :: qs, (ipc record').run_cons_eq_some.mpr ⟨t₁, q, qs, hq, hqs, rfl⟩, hlen'⟩

/-- The first read that does not return 56 bytes. -/
theorem exists_first_other {calls : List IpcCall}
    (h : ¬ ∀ num, .read num ∈ calls → num = sizeofDrop) :
    ∃ pre num post, calls = pre ++ .read num :: post ∧ num ≠ sizeofDrop
      ∧ ∀ n, .read n ∈ pre → n = sizeofDrop := by
  induction calls with
  | nil => exact absurd (fun num hmem => absurd hmem List.not_mem_nil) h
  | cons call calls ih =>
      by_cases hhead : ∃ num, call = .read num ∧ num ≠ sizeofDrop
      · obtain ⟨num, rfl, hnum⟩ := hhead
        exact ⟨[], num, calls, rfl, hnum, fun n hmem => absurd hmem List.not_mem_nil⟩
      · have hcall : ∀ num, call = .read num → num = sizeofDrop := by
          intro num hnum
          by_contra hne
          exact hhead ⟨num, hnum, hne⟩
        have htail : ¬ ∀ num, .read num ∈ calls → num = sizeofDrop := by
          intro hall
          refine h fun num hmem => ?_
          rcases List.mem_cons.mp hmem with hmem | hmem
          · exact hcall num hmem.symm
          · exact hall num hmem
        obtain ⟨pre, num, post, rfl, hnum, hpre⟩ := ih htail
        refine ⟨call :: pre, num, post, rfl, hnum, ?_⟩
        intro n hmem
        rcases List.mem_cons.mp hmem with hmem | hmem
        · exact hcall n hmem.symm
        · exact hpre n hmem

/-- Every byte 0, and every byte 255. -/
def DropT.filled (v : UInt64) : DropT := ⟨v, v, v, v, v, v, v⟩

theorem image_filled (v : UInt64) (k : Nat) :
    (DropT.filled v).image k = leBytes v.toNat (k % 8) := by
  have hfield : ∀ i, (DropT.filled v).field i = v := by
    intro i
    unfold DropT.field
    split <;> rfl
  unfold DropT.image
  rw [hfield]

theorem image_zero (k : Nat) : (DropT.filled 0).image k = 0 := by
  rw [image_filled]
  unfold leBytes
  rw [show (0 : UInt64).toNat = 0 from rfl, Nat.zero_div]
  rfl

theorem image_ones (k : Nat) : (DropT.filled 0xffffffffffffffff).image k = 255 := by
  rw [image_filled, ← UInt8.toNat_inj, leBytes_toNat]
  have hk : k % 8 < 8 := Nat.mod_lt k (by decide)
  generalize k % 8 = b at hk
  interval_cases b <;> rfl

/-- One record of ones among records of zeros. -/
def oneAmongZeros (c : Nat) : Nat → DropT :=
  fun j => DropT.filled (if j = c then 0xffffffffffffffff else 0)

theorem image_oneAmongZeros (c j k : Nat) :
    (oneAmongZeros c j).image k = if j = c then 255 else 0 := by
  unfold oneAmongZeros
  split
  · exact image_ones k
  · exact image_zero k

/-- **A short read mixes two records**: neither of them, nor any other, is what
    the client shows. -/
theorem short_read_mixes (h : Aligned (oneAmongZeros c) c s) {num : Nat} (hshort : num < sizeofDrop)
    (hstep : (ipc (oneAmongZeros c)).step s (.read num) = some (s', r)) (j : Nat) :
    loadDrop s'.globalLoss ≠ oneAmongZeros c j := by
  obtain ⟨_, hpos, _, _, _, hcells⟩ := h.read_cells hstep
  have hfirst : s'.globalLoss 0 = 255 := by
    rw [hcells 0 (by decide), if_pos (show 0 < num from hpos), image_oneAmongZeros, if_pos rfl]
  have hlast : s'.globalLoss 55 = 0 := by
    unfold sizeofDrop at hshort
    rw [hcells 55 (by decide), if_neg (by omega), h.loss 55 (by decide)]
    split
    · rfl
    · rw [image_oneAmongZeros, if_neg (by omega)]
  intro hj
  have hself : loadDrop (oneAmongZeros c j).image = oneAmongZeros c j :=
    loadDrop_image (fun _ _ => rfl)
  have hbytes := loadDrop_inj (hj.trans hself.symm)
  have h0 := hbytes 0 (by decide)
  have h55 := hbytes 55 (by decide)
  rw [hfirst, image_oneAmongZeros] at h0
  rw [hlast, image_oneAmongZeros] at h55
  -- the first byte is that of the record of ones, the last one is not
  split at h0
  · rw [if_pos ‹_›] at h55
    exact absurd h55 (by decide)
  · exact absurd h0 (by decide)

/-- The first half of a record of ones, copied over zeros. -/
example : loadDrop (memcpy (fun _ => 0) 0 (DropT.filled 1).image 28) = ⟨1, 1, 1, 1, 0, 0, 0⟩ := by
  decide

end Steps

/-! ## §5. When the client shows records. -/

/-- **Framing survives exactly the reads of `sizeof(drop_t)` bytes**: the
    rounds `calls` of the two loops show whole records, in sending order and
    inside the struct, whatever the records are, if and only if every `read`
    among them returns 56 bytes. -/
theorem ipcRun_framed_iff {calls : List IpcCall} {record₀ : Nat → DropT} {s₀ s₁ : Ipc}
    {rs₀ : List (Option Shown)} (hstart : Started s₀)
    (hrun : (ipc record₀).run s₀ calls = some (s₁, rs₀)) :
    (∀ record s rs, (ipc record).run s₀ calls = some (s, rs) → Framed record 0 0 rs)
      ↔ ∀ num, .read num ∈ calls → num = sizeofDrop := by
  constructor
  · intro hframed
    by_contra hother
    obtain ⟨pre, num, post, rfl, hnum, hpre⟩ := exists_first_other hother
    -- the client is aligned in front of that read, `c` records behind it
    let c := pre.countP (fun call => call != .write)
    -- the same calls go through whatever the records are
    obtain ⟨s, rs, hall, _⟩ : ∃ s rs,
        (ipc (oneAmongZeros c)).run s₀ (pre ++ .read num :: post) = some (s, rs)
          ∧ s.wire.length = s₁.wire.length := ipc_run_isSome hrun rfl
    have hreplies := hframed (oneAmongZeros c) s rs hall
    obtain ⟨t, rs₁, rs₂, hfirst, hrest, rfl⟩ := (ipc (oneAmongZeros c)).run_append.mp hall
    obtain ⟨t', r, rs₃, hread, _, rfl⟩ := (ipc (oneAmongZeros c)).run_cons_eq_some.mp hrest
    have haligned : Aligned (oneAmongZeros c) 0 s₀ := hstart.aligned
    obtain ⟨d, hd, hdc⟩ := (haligned.run hpre hfirst).1
    rw [Nat.zero_add] at hdc
    obtain ⟨written, next, hhere⟩ := hreplies.drop
    by_cases hshort : num < sizeofDrop
    · rw [hdc] at hd
      obtain ⟨_, _, rfl, _⟩ := hd.read_cells hread
      obtain ⟨_, j, _, _, hshown, _⟩ := hhere
      exact short_read_mixes hd hshort hread j hshown
    · -- a longer read is copied past the end of the struct
      have hlong : sizeofDrop < num := by omega
      have hr : ∃ loss, r = some { loss := loss, extent := num } := by
        simp only [ipc] at hread
        split at hread
        · simp only [Option.some.injEq, Prod.mk.injEq] at hread
          exact ⟨_, hread.2.symm⟩
        · exact absurd hread (by simp)
      obtain ⟨loss, rfl⟩ := hr
      exact absurd hhere.1 (by show ¬ num ≤ sizeofDrop; omega)
  · intro hread record s rs hall
    have haligned : Aligned record 0 s₀ := hstart.aligned
    have hend := (haligned.run hread hall).2
    rw [hstart.written] at hend
    exact hend

/-- A connection on which nothing happened, its buffers zero. -/
def quietIpc : Ipc :=
  { written := 0, sendBuf := fun _ => 0, wire := [], recvBuf := fun _ => 0
    globalLoss := fun _ => 0 }

theorem started_quietIpc : Started quietIpc := ⟨rfl, rfl, fun _ _ => rfl⟩

/-- One record written and read whole. -/
theorem wholeRead_framed :
    Started quietIpc ∧ ∃ s rs,
      (ipc (fun _ => DropT.filled 0)).run quietIpc [.write, .read 56] = some (s, rs)
        ∧ ∀ record s rs, (ipc record).run quietIpc [.write, .read 56] = some (s, rs) →
            Framed record 0 0 rs := by
  have hrun : ∃ s rs, (ipc (fun _ => DropT.filled 0)).run quietIpc [.write, .read 56]
      = some (s, rs) := ⟨_, _, rfl⟩
  obtain ⟨s, rs, hrun⟩ := hrun
  refine ⟨started_quietIpc, s, rs, hrun, (ipcRun_framed_iff started_quietIpc hrun).mpr ?_⟩
  intro num hmem
  simp only [List.mem_cons, IpcCall.read.injEq, reduceCtorEq, List.not_mem_nil, or_false,
    false_or] at hmem
  exact hmem

/-- **Two records that arrive in one read** are copied over the struct and the
    56 bytes behind it. -/
theorem coalescedRead_not_framed :
    ¬ ∀ record calls s₀ s rs, Started s₀ → (ipc record).run s₀ calls = some (s, rs) →
      Framed record 0 0 rs := by
  intro hall
  have hrun : ∃ s loss, (ipc (fun _ => DropT.filled 0)).run quietIpc [.write, .write, .read 112]
      = some (s, [none, none, some ⟨loss, 112⟩]) := ⟨_, _, rfl⟩
  obtain ⟨s, loss, hrun⟩ := hrun
  have hframed := hall _ _ _ _ _ started_quietIpc hrun
  exact absurd hframed.1 (show ¬ 112 ≤ sizeofDrop by decide)

end FreePacket.Stats
