/-
  FreePacket.Generator.Payload
  ────────────────────────────
  **WHICH CONFIGURATIONS `pop_payload` CAN FILL A PACKET FROM.**

  The reader bounds `pktlen` from above only, and stores as `pkt_data` what is
  left of a line behind the `=` and all white space, the newline included:
  `PKTDATA=` alone leaves the empty string.  Less than 54 bytes make the
  length of both `memcpy`s negative, that is, huge; the empty pattern never
  brings the loop to its end.

  Main results:
    * `popPayload_confined_iff` — the lengths and patterns that are safe.
    * `readConfigFile_payload_iff` — for what a file can leave.
-/
import FreePacket.Packet.Generate
import FreePacket.ConfigFile.Reload

namespace FreePacket.Generator

open FreePacket.Lib FreePacket.Packet FreePacket.ConfigFile
open FreePacket.Lib.CString (ascii)

/-! ## §1. The payload area. -/

/-- **The loop ends, and nothing outside the area of `pktlen - 54` bytes from
    `payload` on is written**, whatever is in the memory. -/
def PayloadConfined (config : SimConfig) (data : PktData) : Prop :=
  ∀ (mem : Nat → UInt8) (payload : Nat), ∃ fuel mem' len,
    popPayload fuel mem payload data config = some (mem', len)
      ∧ ∀ a : Nat, a < payload ∨ (payload : Int) + (config.pktlen - 54) ≤ a → mem' a = mem a

/-- **An empty pattern never ends the loop**: `j` stays what it is. -/
theorem popLoop_empty {data : PktData} (hdata : data.bytes = []) (payload : Nat) {j : Int}
    (hj : 0 < j) (fuel : Nat) (mem : Nat → UInt8) (start : Nat) :
    popLoop data payload fuel mem start j = none := by
  have hlen : data.strlen = 0 := by
    unfold PktData.strlen
    rw [hdata]
    rfl
  induction fuel generalizing mem start with
  | zero => rfl
  | succ fuel ih =>
      have hmore : j > (data.strlen : Int) := by omega
      have hstay : j - (data.strlen : Int) = j := by omega
      unfold popLoop
      rw [if_pos hmore, hstay]
      exact ih _ _

/-- Where less than one copy of the pattern is left, the loop is over. -/
theorem popLoop_done {data : PktData} (payload : Nat) {j : Int} (hj : ¬ j > data.strlen)
    (fuel : Nat) (mem : Nat → UInt8) (start : Nat) :
    popLoop data payload (fuel + 1) mem start j = some (mem, start, j) := by
  unfold popLoop
  exact if_neg hj

/-- A negative length is a huge one. -/
theorem sizeT_of_neg {j : Int} (hj : j < 0) (hlow : -2 ^ 63 ≤ j) : 0 < sizeT j := by
  unfold sizeT
  omega

/-! ## §2. Safe lengths and patterns. -/

section Confined

variable {config : SimConfig} {data : PktData}

/-- Fewer than 54 bytes: the first byte behind `payload` is overwritten. -/
theorem popPayload_short (hlen : config.pktlen < 54) : ¬ PayloadConfined config data := by
  intro h
  have hint : -2 ^ 31 ≤ config.pktlen := Int32.le_toInt _
  have hsize := sizeT_of_neg (show config.pktlen - 54 < 0 by omega) (by omega)
  obtain ⟨fuel, mem', len, hrun, hframe⟩ := h (fun _ => data.chars 0 + 1) 0
  have hkept : mem' 0 = data.chars 0 + 1 := hframe 0 (Or.inr (by omega))
  -- the loop is not entered, and the copy behind it writes the first character
  have hdone : ¬ config.pktlen - 54 > (data.strlen : Int) := by omega
  cases fuel with
  | zero => exact absurd hrun (by simp [popPayload, popLoop])
  | succ fuel =>
      simp only [popPayload, popLoop_done 0 hdone, Option.some.injEq, Prod.mk.injEq] at hrun
      rw [← hrun.1, memcpy_inside _ _ (by omega) (by omega)] at hkept
      have hne : data.chars 0 ≠ data.chars 0 + 1 := by
        intro heq
        have hnat := congrArg UInt8.toNat heq
        rw [UInt8.toNat_add] at hnat
        have hlt := (data.chars 0).toNat_lt
        change (data.chars 0).toNat = ((data.chars 0).toNat + 1) % 2 ^ 8 at hnat
        omega
      exact hne hkept

/-- The empty pattern in a nonempty area. -/
theorem popPayload_empty (hlen : 54 < config.pktlen) (hdata : data.bytes = []) :
    ¬ PayloadConfined config data := by
  intro h
  obtain ⟨fuel, mem', len, hrun, _⟩ := h (fun _ => 0) 0
  unfold popPayload at hrun
  simp only [popLoop_empty hdata 0 (show 0 < config.pktlen - 54 by omega)] at hrun
  exact absurd hrun (by simp)

/-- **`pop_payload` is safe exactly for** 54 bytes and more, and above 54 only
    with a pattern that is not empty. -/
theorem popPayload_confined_iff :
    PayloadConfined config data
      ↔ 54 ≤ config.pktlen ∧ (config.pktlen = 54 ∨ data.bytes ≠ []) := by
  constructor
  · intro h
    have hlen : 54 ≤ config.pktlen := by
      by_contra hshort
      exact popPayload_short (by omega) h
    refine ⟨hlen, ?_⟩
    by_contra hno
    rw [not_or, not_not] at hno
    exact popPayload_empty (by omega) hno.2 h
  · rintro ⟨hlen, hcase⟩ mem payload
    by_cases hdata : data.bytes = []
    · -- nothing to fill, and nothing to fill it with
      have hexact : config.pktlen = 54 := hcase.resolve_right (not_not.mpr hdata)
      have hstr : data.strlen = 0 := by
        unfold PktData.strlen
        rw [hdata]
        rfl
      have hj : config.pktlen - 54 = 0 := by omega
      have hdone : ¬ (0 : Int) > (data.strlen : Int) := by omega
      refine ⟨1, mem, 0, ?_, fun _ _ => rfl⟩
      simp only [popPayload, hj, popLoop_done payload hdone]
      rw [if_neg (by omega)]
      have hnone : memcpy mem (payload + 0) data.chars (sizeT 0) = mem :=
        memcpy_noop fun k hk => absurd hk (Nat.not_lt_zero k)
      rw [hnone]
    · have hfuel : config.pktlen ≤ config.pktlen.toNat := by omega
      obtain ⟨mem', hrun, _, hframe⟩ := popPayload_spec hdata hlen hfuel mem payload
      exact ⟨_, mem', _, hrun, hframe⟩

end Confined

/-! ## §3. What the reader lets through. -/

/-- One line keeps `pktlen` within 1600. -/
theorem readLine_pktlen_le {locals : Locals} {config config' : SimConfig} {line : List UInt8}
    (h : readLine locals config line = .next config') (hle : config.int .pktlen ≤ 1600) :
    config'.int .pktlen ≤ 1600 := by
  unfold readLine at h
  cases hsplit : splitLine line with
  | none =>
      rw [hsplit] at h
      rw [← LineResult.next.inj h]
      exact hle
  | some r =>
      obtain ⟨name, p⟩ := r
      simp only [hsplit] at h
      cases hd : directive name with
      | none =>
          simp only [hd] at h
          rw [← LineResult.next.inj h]
          exact hle
      | some d =>
          simp only [hd] at h
          rw [Directive.read_int h .pktlen]
          split
          · rename_i hpktlen
            rw [hpktlen] at h
            simp only [Directive.read] at h
            split at h
            · exact absurd h (by simp)
            · rename_i hlong
              exact Int32.not_lt.mp hlong
          · exact hle

/-- **The whole file keeps it.** -/
theorem readLoop_pktlen_le {locals : Nat → Locals} {lines : List (List UInt8)} {n : Nat}
    {config config' : SimConfig} (h : readLoop locals n lines config = some config')
    (hle : config.int .pktlen ≤ 1600) : config'.int .pktlen ≤ 1600 := by
  induction lines generalizing n config with
  | nil =>
      rw [← Option.some.inj h]
      exact hle
  | cons line lines ih =>
      unfold readLoop at h
      cases hline : readLine (locals n) config line with
      | next config₁ =>
          rw [hline] at h
          exact ih h (readLine_pktlen_le hline hle)
      | returned config₁ =>
          rw [hline] at h
          rw [← Option.some.inj h, (readLine_returned_iff.mp hline).2]
          exact hle
      | exited =>
          rw [hline] at h
          exact absurd h (by simp)

/-- **WHAT A FILE CAN LEAVE, AND WHEN IT IS SAFE**: never more than 1600 bytes;
    the payload stays in its area and the loop ends exactly when there are at
    least 54, and above 54 only with a pattern that is not empty. -/
theorem readConfigFile_payload_iff {locals : Nat → Locals} {text : List UInt8}
    {config : SimConfig}
    (hread : readConfigFile locals text (initConfigS zeroConfig) = some config) :
    config.pktlen ≤ 1600 ∧ ∀ data, config.pktData = some data →
      (PayloadConfined config data
        ↔ 54 ≤ config.pktlen ∧ (config.pktlen = 54 ∨ data.bytes ≠ [])) := by
  have hle := readLoop_pktlen_le hread (show (initConfigS zeroConfig).int .pktlen ≤ 1600 by decide)
  exact ⟨Int32.le_iff_toInt_le.mp hle, fun _ _ => popPayload_confined_iff⟩

/-- The pattern of two bytes and a newline, in packets of 100 bytes. -/
def plainText : List UInt8 := ascii "PKTLEN=100\nPKTDATA=ab\n"

theorem plainText_confined :
    ∃ config data, readConfigFile (fun _ => ⟨0, 0⟩) plainText (initConfigS zeroConfig)
        = some config
      ∧ config.pktData = some data ∧ config.pktlen = 100 ∧ PayloadConfined config data := by
  have hread : readConfigFile (fun _ => ⟨0, 0⟩) plainText (initConfigS zeroConfig)
      = some { (initConfigS zeroConfig).setInt .pktlen 100 with
          pktData := some (copyData (ascii "ab\n")) } := rfl
  exact ⟨_, _, hread, rfl, rfl,
    ((readConfigFile_payload_iff hread).2 _ rfl).mpr ⟨by decide, Or.inr (by decide)⟩⟩

/-- **A line `PKTDATA=` and a line `PKTLEN=53` are let through**, and neither
    leaves a payload that can be filled. -/
theorem lineParser_lets_through :
    (∃ config data, readConfigFile (fun _ => ⟨0, 0⟩) (ascii "PKTDATA=\n") (initConfigS zeroConfig)
        = some config
      ∧ config.pktData = some data ∧ config.pktlen = 600 ∧ ¬ PayloadConfined config data)
      ∧ ∃ config data, readConfigFile (fun _ => ⟨0, 0⟩) (ascii "PKTLEN=53\nPKTDATA=ab\n")
          (initConfigS zeroConfig) = some config
        ∧ config.pktData = some data ∧ config.pktlen = 53 ∧ ¬ PayloadConfined config data := by
  constructor
  · have hread : readConfigFile (fun _ => ⟨0, 0⟩) (ascii "PKTDATA=\n") (initConfigS zeroConfig)
        = some { initConfigS zeroConfig with pktData := some (copyData []) } := rfl
    exact ⟨_, _, hread, rfl, rfl, popPayload_empty (by decide) rfl⟩
  · have hread : readConfigFile (fun _ => ⟨0, 0⟩) (ascii "PKTLEN=53\nPKTDATA=ab\n")
        (initConfigS zeroConfig) = some { (initConfigS zeroConfig).setInt .pktlen 53 with
          pktData := some (copyData (ascii "ab\n")) } := rfl
    exact ⟨_, _, hread, rfl, rfl, popPayload_short (by decide)⟩

end FreePacket.Generator
