/-
  FreePacket.Stats.Handshake
  ──────────────────────────
  **THE HANDSHAKE of `lossratio.c`: how the client tells the server its speed.**

  The server writes a buffer that begins with "SYN_REQ"; the client answers
  with a zeroed buffer that holds "SYN_OK:SET_SPEED:" and its speed in
  decimal.  `get_update_speed` looks for the first digit of the answer and
  reads the number from there.  The check for "SYN_OK" in front of it guards
  an empty statement, so that every answer is scanned, and a minus sign is
  passed over like the other characters in front of the digits.

  Main results:
    * `stopsInside_iff` — the scan stops inside the buffer exactly if the
      buffer holds a digit.
    * `serverSpeed_reply` — the server reads the absolute value of the speed.
    * `handshake_iff` — which answers and which speeds the handshake is made
      for.
-/
import FreePacket.Lib.CString
import FreePacket.Stats.Stream

namespace FreePacket.Stats

open FreePacket.Lib FreePacket.Lib.CString

/-! ## §1. Strings in memory. -/

/-- `strcpy(dst, s)`. -/
def strcpy (dst : Nat → UInt8) (s : List UInt8) : Nat → UInt8 :=
  memcpy dst 0 (fun k => s.getD k 0) (s.length + 1)

/-- The string that begins at `off`, if its terminator is among the next
    `fuel` bytes. -/
def stringAt (mem : Nat → UInt8) (off fuel : Nat) : Option (List UInt8) :=
  if 0 ∈ slice mem off fuel then some (cstring (slice mem off fuel)) else none

/-- A string and its terminator are what `strcpy` writes. -/
theorem slice_strcpy (dst : Nat → UInt8) (s : List UInt8) :
    slice (strcpy dst s) 0 (s.length + 1) = s ++ [0] := by
  have hlast : s.getD s.length 0 = 0 := by simp
  unfold strcpy
  rw [slice_memcpy_self, slice_add, slice_getD, Nat.zero_add]
  show s ++ [s.getD s.length 0] = s ++ [0]
  rw [hlast]

/-- A string that ends inside the block read. -/
theorem stringAt_of_slice {mem : Nat → UInt8} {off fuel : Nat} {s : List UInt8}
    (hs : (0 : UInt8) ∉ s) (hmem : slice mem off (s.length + 1) = s ++ [0])
    (hfuel : s.length < fuel) : stringAt mem off fuel = some s := by
  obtain ⟨more, rfl⟩ := Nat.exists_eq_add_of_lt hfuel
  have hsplit : slice mem off (s.length + more + 1)
      = s ++ 0 :: slice mem (off + (s.length + 1)) more := by
    rw [Nat.add_right_comm, slice_add, hmem, List.append_assoc]
    rfl
  unfold stringAt
  rw [hsplit, if_pos (List.mem_append_right s List.mem_cons_self), cstring_terminated hs]

/-! ## §2. `get_update_speed`. -/

/-- `while(!isdigit(*(buf+i))) i++`. -/
def digitScan (buf : Nat → UInt8) : Nat → Nat → Option Nat
  | 0, _ => none
  | fuel + 1, i => if isDigit 10 (buf i) = true then some i else digitScan buf fuel (i + 1)

/-- `get_update_speed`. -/
def getUpdateSpeed (fuel : Nat) (buf : Nat → UInt8) : Option Int32 :=
  match digitScan buf fuel 0 with
  | none => none
  | some i => (stringAt buf i fuel).map atoi

/-- The scan comes to its end inside the buffer. -/
def StopsInside (buf : Nat → UInt8) : Prop :=
  ∃ fuel i, digitScan buf fuel 0 = some i ∧ i < bufSize

section Scan

variable {buf : Nat → UInt8}

/-- Where the scan stops there is a digit. -/
theorem isDigit_of_digitScan {fuel i j : Nat} (h : digitScan buf fuel i = some j) :
    isDigit 10 (buf j) = true := by
  induction fuel generalizing i with
  | zero => exact absurd h (by simp [digitScan])
  | succ fuel ih =>
      unfold digitScan at h
      by_cases hd : isDigit 10 (buf i) = true
      · rw [if_pos hd, Option.some.injEq] at h
        rw [← h]
        exact hd
      · rw [if_neg hd] at h
        exact ih h

/-- **The scan stops at the first digit.** -/
theorem digitScan_first {i d fuel : Nat} (hskip : ∀ k, k < d → isDigit 10 (buf (i + k)) = false)
    (hd : isDigit 10 (buf (i + d)) = true) (hfuel : d < fuel) :
    digitScan buf fuel i = some (i + d) := by
  induction d generalizing i fuel with
  | zero =>
      obtain ⟨fuel, rfl⟩ := Nat.exists_eq_succ_of_ne_zero (Nat.ne_of_gt hfuel)
      exact if_pos hd
  | succ d ih =>
      obtain ⟨fuel, rfl⟩ := Nat.exists_eq_succ_of_ne_zero (Nat.ne_of_gt (Nat.zero_lt_of_lt hfuel))
      have hi : ¬ isDigit 10 (buf i) = true := by
        have hfalse := hskip 0 (Nat.zero_lt_succ d)
        rw [Nat.add_zero] at hfalse
        rw [hfalse]
        exact Bool.false_ne_true
      have hshift : ∀ k, i + 1 + k = i + (k + 1) := by
        intro k
        omega
      unfold digitScan
      rw [if_neg hi, ← hshift d]
      refine ih ?_ ?_ (Nat.lt_of_succ_lt_succ hfuel)
      · intro k hk
        rw [hshift]
        exact hskip (k + 1) (Nat.succ_lt_succ hk)
      · rw [hshift]
        exact hd

/-- **The scan stops inside the buffer exactly if a digit lies there**,
    whatever lies behind. -/
theorem stopsInside_iff : StopsInside buf ↔ ∃ k, k < bufSize ∧ isDigit 10 (buf k) = true := by
  constructor
  · intro ⟨fuel, i, hscan, hi⟩
    exact ⟨i, hi, isDigit_of_digitScan hscan⟩
  · intro ⟨k, hk, hd⟩
    have hex : ∃ k, isDigit 10 (buf k) = true := ⟨k, hd⟩
    have hle : Nat.find hex ≤ k := Nat.find_le hd
    refine ⟨Nat.find hex + 1, 0 + Nat.find hex, ?_, by omega⟩
    refine digitScan_first ?_ ?_ (Nat.lt_succ_self _)
    · intro j hj
      rw [Nat.zero_add]
      exact Bool.eq_false_iff.mpr (Nat.find_min hex hj)
    · rw [Nat.zero_add]
      exact Nat.find_spec hex

/-- **The number behind a text without digits is read**, up to the end of
    the string. -/
theorem getUpdateSpeed_text {pre : List UInt8} {digits : List (Fin 10)}
    (hpre : ∀ c ∈ pre, isDigit 10 c = false) (hne : digits ≠ [])
    (hmem : slice buf 0 (pre.length + (digits.length + 1)) = pre ++ (digits.map digitChar ++ [0]))
    {fuel : Nat} (hfuel : pre.length + digits.length < fuel) :
    getUpdateSpeed fuel buf = some (atoi (digits.map digitChar)) := by
  rw [slice_add, Nat.zero_add] at hmem
  obtain ⟨hfront, hback⟩ := List.append_inj hmem (slice_length buf 0 pre.length)
  have hdigit : ∀ c ∈ digits.map digitChar, isDigit 10 c = true := by
    intro c hc
    obtain ⟨d, _, rfl⟩ := List.mem_map.mp hc
    unfold isDigit
    rw [digitValue_digitChar]
    exact decide_eq_true d.isLt
  have hscan : digitScan buf fuel 0 = some (0 + pre.length) := by
    refine digitScan_first ?_ ?_ (by omega)
    · intro k hk
      apply hpre
      rw [← hfront]
      exact List.mem_map.mpr ⟨k, List.mem_range.mpr hk, rfl⟩
    · obtain ⟨d, ds, rfl⟩ := List.exists_cons_of_ne_nil hne
      rw [slice_cons, List.map_cons, List.cons_append] at hback
      rw [Nat.zero_add, (List.cons.inj hback).1]
      exact hdigit _ List.mem_cons_self
  have hnul : (0 : UInt8) ∉ digits.map digitChar := fun h => absurd (hdigit 0 h) (by decide)
  have hstring : stringAt buf pre.length fuel = some (digits.map digitChar) := by
    refine stringAt_of_slice hnul ?_ (by rw [List.length_map]; omega)
    rw [List.length_map]
    exact hback
  unfold getUpdateSpeed
  rw [hscan, Nat.zero_add]
  show (stringAt buf pre.length fuel).map atoi = _
  rw [hstring]
  rfl

end Scan

/-! ## §3. The two sides. -/

/-- `sync_req`. -/
def syncReq : List UInt8 := ascii "SYN_REQ"

/-- What the client puts in front of its speed. -/
def setSpeed : List UInt8 := ascii "SYN_OK:SET_SPEED:"

/-- `recv_buf` of `process_ipc_request` as it is written to the client, over
    what the stack held. -/
def request (stack : Nat → UInt8) : Nat → UInt8 := strcpy stack syncReq

/-- What `start_ipc_client` answers, if it does. -/
def clientReply (request : Nat → UInt8) (updateSpeed : Int32) : Option (Nat → UInt8) :=
  let sndBuf := memcpy (fun _ => 0) 0 request bufSize
  if cstring (slice sndBuf 0 bufSize) = syncReq then
    some (strcpy (fun _ => 0) (setSpeed ++ decimalText updateSpeed))
  else none

/-- `recv_buf` of `process_ipc_request` after the answer was read. -/
def recvBuf (stack reply : Nat → UInt8) : Nat → UInt8 := memcpy (request stack) 0 reply bufSize

/-- The speed `process_ipc_request` goes on with.  Nothing hangs on
    `strstr(recv_buf,"SYN_OK")`: the `if` ends in a semicolon. -/
def serverSpeed (fuel : Nat) (stack reply : Nat → UInt8) : Option Int32 :=
  getUpdateSpeed fuel (recvBuf stack reply)

/-- The server gets a speed out of an answer. -/
def Decodes (stack reply : Nat → UInt8) (speed : Int32) : Prop :=
  ∃ n, ∀ fuel, n ≤ fuel → serverSpeed fuel stack reply = some speed

/-- It gets one at most. -/
theorem Decodes.unique {stack reply : Nat → UInt8} {v w : Int32} (hv : Decodes stack reply v)
    (hw : Decodes stack reply w) : v = w := by
  obtain ⟨n, hv⟩ := hv
  obtain ⟨m, hw⟩ := hw
  have heq := hv (max n m) (le_max_left n m)
  rw [hw (max n m) (le_max_right n m), Option.some.injEq] at heq
  exact heq.symm

/-- The buffer the server scans is the answer, as far as it goes. -/
theorem recvBuf_inside (stack reply : Nat → UInt8) {k : Nat} (hk : k < bufSize) :
    recvBuf stack reply k = reply k := memcpy_inside _ _ (Nat.zero_le k) (by omega)

/-- The client answers the server's request. -/
theorem clientReply_request (stack : Nat → UInt8) (s : Int32) :
    clientReply (request stack) s
      = some (strcpy (fun _ => 0) (setSpeed ++ decimalText s)) := by
  have hsplit : slice (memcpy (fun _ => 0) 0 (request stack) bufSize) 0 bufSize
      = syncReq ++ 0 :: slice (request stack) (0 + (syncReq.length + 1)) 1016 := by
    have hsize : bufSize = syncReq.length + 1 + 1016 := rfl
    rw [slice_memcpy_self, hsize, slice_add]
    unfold request
    rw [slice_strcpy, List.append_assoc, List.singleton_append]
  unfold clientReply
  simp only
  rw [hsplit, cstring_terminated (by decide)]
  exact if_pos rfl

/-- The answer as the server has it: its text and the terminator. -/
theorem slice_recvBuf_reply (stack : Nat → UInt8) (text : List UInt8)
    (h : text.length < bufSize) :
    slice (recvBuf stack (strcpy (fun _ => 0) text)) 0 (text.length + 1) = text ++ [0] := by
  rw [← slice_strcpy (fun _ => 0) text]
  apply slice_congr
  intro k hk
  rw [Nat.zero_add]
  exact recvBuf_inside _ _ (by omega)

/-- No digit stands in front of the number, sign or not. -/
theorem setSpeed_sign (sign : Sign) :
    (∀ c ∈ setSpeed ++ sign.text, isDigit 10 c = false) ∧ (setSpeed ++ sign.text).length ≤ 18 := by
  have hall : (setSpeed ++ sign.text).all (fun c => !isDigit 10 c) = true := by
    cases sign with
    | none => rfl
    | plus => rfl
    | minus => rfl
  refine ⟨fun c hc => ?_, ?_⟩
  · have hno := List.all_eq_true.mp hall c hc
    exact Bool.not_eq_true' _ ▸ hno
  · cases sign with
    | none => exact Nat.le_succ 17
    | plus => exact le_refl 18
    | minus => exact le_refl 18

/-- **The server reads the absolute value of the speed**: the scan for the
    first digit passes the minus sign. -/
theorem serverSpeed_reply (stack : Nat → UInt8) (s : Int32) :
    Decodes stack (strcpy (fun _ => 0) (setSpeed ++ decimalText s))
      (Int32.ofInt s.toInt.natAbs) := by
  have hlow := Int32.le_toInt s
  have hhigh := Int32.toInt_lt s
  have hbound : s.toInt.natAbs < 10 ^ (9 + 1) := by omega
  have hlen := decimalDigits_length_le hbound
  have hvalue := decimalValue_decimalDigits s.toInt.natAbs
  have hne := decimalDigits_ne_nil s.toInt.natAbs
  generalize hdigits : decimalDigits s.toInt.natAbs = digits at hlen hvalue hne
  -- the sign goes to the text in front
  obtain ⟨pre, htext, hpre, hprelen⟩ : ∃ pre, setSpeed ++ decimalText s
      = pre ++ digits.map digitChar ∧ (∀ c ∈ pre, isDigit 10 c = false) ∧ pre.length ≤ 18 := by
    unfold decimalText
    rw [hdigits, ← List.append_assoc]
    refine ⟨_, rfl, ?_⟩
    split
    · exact setSpeed_sign .minus
    · exact setSpeed_sign .none
  have hatoi : atoi (digits.map digitChar) = Int32.ofInt s.toInt.natAbs := by
    have hsigned : signedValue Sign.none.negative (decimalValue digits) = s.toInt.natAbs :=
      congrArg Int.ofNat hvalue
    have hread := atoi_long .none hne stops_nil (by rw [hsigned]; omega) (by rw [hsigned]; omega)
    rw [hsigned, List.append_nil] at hread
    exact hread
  have hfits : (pre ++ digits.map digitChar).length < bufSize := by
    rw [List.length_append, List.length_map]
    show _ < 1024
    omega
  have hmem := slice_recvBuf_reply stack _ hfits
  refine ⟨bufSize, fun fuel hfuel => ?_⟩
  unfold serverSpeed
  rw [htext, ← hatoi]
  refine getUpdateSpeed_text hpre hne ?_ ?_
  · rw [List.length_append, List.length_map, List.append_assoc] at hmem
    exact hmem
  · have hsize : 1024 ≤ fuel := hfuel
    omega

/-- The absolute value of an `int` is the `int` for all that are not
    negative, and for the one that has none. -/
theorem ofInt_natAbs_eq_iff (s : Int32) :
    Int32.ofInt s.toInt.natAbs = s ↔ 0 ≤ s.toInt ∨ s.toInt = -2147483648 := by
  have hlow := Int32.le_toInt s
  have hhigh := Int32.toInt_lt s
  have hsize : (Int32.size : Int) = 4294967296 := rfl
  rw [← Int32.toInt_inj, Int32.toInt_ofInt, Int.bmod_def, hsize]
  omega

/-- **What the handshake is made for**: the scan ends inside the buffer for
    the answers with a digit among their 1024 bytes, and the speed arrives if
    it is not negative, or is the least `int`, whose absolute value wraps
    around to it. -/
theorem handshake_iff (stack answer : Nat → UInt8) (s : Int32) :
    (StopsInside (recvBuf stack answer) ↔ ∃ k, k < bufSize ∧ isDigit 10 (answer k) = true) ∧
    ((∃ reply, clientReply (request stack) s = some reply ∧ Decodes stack reply s) ↔
      0 ≤ s.toInt ∨ s.toInt = -2147483648) := by
  constructor
  · have hsame : ∀ k, k < bufSize → recvBuf stack answer k = answer k :=
      fun k hk => recvBuf_inside stack answer hk
    rw [stopsInside_iff]
    constructor
    · intro ⟨k, hk, hd⟩
      exact ⟨k, hk, hsame k hk ▸ hd⟩
    · intro ⟨k, hk, hd⟩
      exact ⟨k, hk, (hsame k hk).symm ▸ hd⟩
  · rw [← ofInt_natAbs_eq_iff]
    have habs := serverSpeed_reply stack s
    constructor
    · intro ⟨reply, hreply, hdec⟩
      rw [clientReply_request, Option.some.injEq] at hreply
      rw [← hreply] at hdec
      exact habs.unique hdec
    · intro hs
      rw [hs] at habs
      exact ⟨_, clientReply_request stack s, habs⟩

/-- An answer of nothing but NULs, and the speed -5: the scan leaves the
    buffer, and 5 arrives. -/
theorem handshake_fails :
    ¬ StopsInside (recvBuf (fun _ => 0) (fun _ => 0)) ∧
      ∃ reply, clientReply (request (fun _ => 0)) (-5) = some reply
        ∧ Decodes (fun _ => 0) reply 5 ∧ ¬ Decodes (fun _ => 0) reply (-5) := by
  refine ⟨?_, _, clientReply_request (fun _ => 0) (-5), ?_, ?_⟩
  · rw [stopsInside_iff]
    intro ⟨k, hk, hd⟩
    rw [recvBuf_inside _ _ hk] at hd
    exact absurd hd (by decide)
  · exact serverSpeed_reply (fun _ => 0) (-5)
  · intro h
    exact absurd ((serverSpeed_reply (fun _ => 0) (-5)).unique h) (by decide)

end FreePacket.Stats
