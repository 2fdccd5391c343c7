/-
  FreePacket.Generator.Connections
  ────────────────────────────────
  **HOW MANY CONNECTIONS A GENERATOR SIMULATES.**

  Four cursors move on together, one step a packet, each round its own range.
  So the addresses and ports of the packets come round after as many packets
  as the least common multiple of the four lengths says, and not before.

  Main results:
    * `CursorIn.iterate` — where a cursor is after `t` packets.
    * `generating_emits` — in every run a generator emits the sequence
      `drawnAt`.
    * `connections` — its exact period, and what a period holds.
-/
import FreePacket.Generator.Recycle
import FreePacket.Lib.Cycle
import FreePacket.Pipeline.Events

namespace FreePacket.Generator

open FreePacket.Lib FreePacket.Packet FreePacket.ConfigFile FreePacket.Pipeline
open FreePacket.Session (Manager Config queueCapacity)

/-! ## §1. One cursor. -/

/-- How far the cursor is from the minimum, modulo 2^32. -/
def offset (range : Range) : Nat := (range.cur - range.min).toNat

/-- Value `k` of a range. -/
def valueAt (range : Range) (k : Nat) : UInt32 := range.min + UInt32.ofNat k

/-- **A range of `n` values, its cursor inside.** -/
structure CursorIn (range : Range) (n : Nat) : Prop where
  pos : 0 < n
  le : n ≤ 2 ^ 32
  max_eq : range.max = range.min + UInt32.ofNat (n - 1)
  inside : offset range < n

theorem valueAt_offset (range : Range) : valueAt range (offset range) = range.cur := by
  unfold valueAt offset
  rw [UInt32.ofNat_toNat, UInt32.add_comm, UInt32.sub_add_cancel]

theorem valueAt_toNat (range : Range) (k : Nat) :
    (valueAt range k).toNat = (range.min.toNat + k) % 2 ^ 32 := by
  unfold valueAt
  rw [UInt32.toNat_add, UInt32.toNat_ofNat', Nat.add_mod_mod]

/-- **One packet on**: one place further, and from the last to the first. -/
theorem CursorIn.next {range : Range} {n : Nat} (h : CursorIn range n) :
    CursorIn (nextCursor range) n ∧ offset (nextCursor range) = (offset range + 1) % n := by
  have hpos := h.pos
  have hle := h.le
  have hinside := h.inside
  have hcur := congrArg UInt32.toNat (valueAt_offset range)
  have hmax := congrArg UInt32.toNat h.max_eq
  rw [valueAt_toNat] at hcur
  change range.max.toNat = (valueAt range (n - 1)).toNat at hmax
  rw [valueAt_toNat] at hmax
  have hmin := range.min.toNat_lt
  -- the cursor is at the maximum exactly at the last place
  have hlast : range.cur = range.max ↔ offset range = n - 1 := by
    rw [← UInt32.toNat_inj, ← hcur, hmax]
    omega
  have hoffset : offset (nextCursor range) = (offset range + 1) % n := by
    unfold nextCursor
    by_cases heq : range.cur = range.max
    · rw [if_pos heq, hlast.mp heq, Nat.sub_add_cancel hpos, Nat.mod_self]
      show (range.min - range.min).toNat = 0
      rw [UInt32.sub_self]
      rfl
    · have hne : offset range ≠ n - 1 := fun h => heq (hlast.mpr h)
      rw [if_neg heq, Nat.mod_eq_of_lt (by omega)]
      show (range.cur + 1 - range.min).toNat = (range.cur - range.min).toNat + 1
      have hsub : (range.cur - range.min).toNat = offset range := rfl
      rw [hsub, UInt32.toNat_sub, UInt32.toNat_add, ← hcur]
      show (2 ^ 32 - range.min.toNat + ((range.min.toNat + offset range) % 2 ^ 32 + 1) % 2 ^ 32)
        % 2 ^ 32 = _
      omega
  refine ⟨⟨hpos, hle, h.max_eq, ?_⟩, hoffset⟩
  rw [hoffset]
  exact Nat.mod_lt _ hpos

theorem nextCursor_iterate_min (range : Range) (t : Nat) :
    (nextCursor^[t] range).min = range.min := by
  induction t with
  | zero => rfl
  | succ t ih =>
      rw [Function.iterate_succ_apply', ← ih]
      rfl

/-- **After `t` packets**: `t` places further round. -/
theorem CursorIn.iterate {range : Range} {n : Nat} (h : CursorIn range n) (t : Nat) :
    CursorIn (nextCursor^[t] range) n
      ∧ (nextCursor^[t] range).cur = valueAt range ((offset range + t) % n) := by
  have hgen : CursorIn (nextCursor^[t] range) n
      ∧ offset (nextCursor^[t] range) = (offset range + t) % n := by
    induction t with
    | zero => exact ⟨h, (Nat.mod_eq_of_lt h.inside).symm⟩
    | succ t ih =>
        obtain ⟨hin, hoff⟩ := ih
        obtain ⟨hin', hoff'⟩ := hin.next
        rw [Function.iterate_succ_apply']
        refine ⟨hin', ?_⟩
        rw [hoff', hoff, Nat.mod_add_mod, Nat.add_assoc]
  refine ⟨hgen.1, ?_⟩
  rw [← hgen.2, ← valueAt_offset (nextCursor^[t] range)]
  unfold valueAt
  rw [nextCursor_iterate_min]

/-! ## §2. The values on the wire. -/

/-- An address as it is stored, and a port, which `htons` cuts to 16 bits. -/
def addressAt (range : Range) (k : Nat) : UInt32 := htonl (valueAt range k)

def portAt (range : Range) (k : Nat) : UInt16 := htons (valueAt range k).toUInt16

theorem addressAt_inj (range : Range) {n : Nat} (hn : n ≤ 2 ^ 32) :
    ∀ a < n, ∀ b < n, addressAt range a = addressAt range b → a = b := by
  intro a ha b hb h
  have hvalue := congrArg UInt32.toNat (swap32_injective h)
  rw [valueAt_toNat, valueAt_toNat] at hvalue
  omega

/-- Up to 65536 values stay apart in 16 bits. -/
theorem portAt_inj (range : Range) {n : Nat} (hn : n ≤ 65536) :
    ∀ a < n, ∀ b < n, portAt range a = portAt range b → a = b := by
  intro a ha b hb h
  have hvalue := congrArg UInt16.toNat (swap16_injective h)
  rw [UInt32.toNat_toUInt16, UInt32.toNat_toUInt16, valueAt_toNat, valueAt_toNat] at hvalue
  omega

/-- The addresses and ports in a packet, as the generator stores them. -/
def connection (packet : PacketT) : Endpoints :=
  { saddr := load32 packet.data 28, daddr := load32 packet.data 32
    source := load16 packet.data tcpIdx, dest := load16 packet.data (tcpIdx + 2) }

/-- The connection a generator whose configuration is `config` writes next,
    into whatever buffer. -/
def nextConnection (config : SimConfig) : Endpoints :=
  { saddr := htonl (nextCursor config.saddr).cur, daddr := htonl (nextCursor config.daddr).cur
    source := htons (nextCursor config.sport).cur.toUInt16
    dest := htons (nextCursor config.dport).cur.toUInt16 }

theorem connection_rewriteHeaders (packet : PacketT) (config : SimConfig) :
    connection (rewriteHeaders packet config).1 = nextConnection config := by
  rw [rewriteHeaders_eq]
  unfold connection nextConnection addressesWritten portsWritten
  simp only [Endpoints.mk.injEq]
  refine ⟨?_, load32_store32 _ _ _, ?_, ?_⟩
  · show load32 (memcpy (store32 _ 28 _) 32 _ 4) 28 = _
    rw [load32_memcpy_outside _ _ (by omega), load32_store32]
  · show load16 (memcpy (memcpy (memcpy (store16 _ tcpIdx _) (tcpIdx + 2) _ 2) 28 _ 4) 32 _ 4)
      tcpIdx = _
    rw [load16_memcpy_outside _ _ (by unfold tcpIdx; omega),
      load16_memcpy_outside _ _ (by unfold tcpIdx; omega),
      load16_memcpy_outside _ _ (by omega), load16_store16]
  · show load16 (memcpy (memcpy (store16 _ (tcpIdx + 2) _) 28 _ 4) 32 _ 4) (tcpIdx + 2) = _
    rw [load16_memcpy_outside _ _ (by unfold tcpIdx; omega),
      load16_memcpy_outside _ _ (by unfold tcpIdx; omega), load16_store16]

/-- The connection of packet `t`. -/
def drawnAt (config : SimConfig) (t : Nat) : Endpoints := nextConnection (advance^[t] config)

/-! ## §3. What a generator emits. -/

/-- The packet that is filled and not yet passed on. -/
def filledPacket : GeneratorPc → List PacketT
  | .filled packet => [packet]
  | _ => []

/-- What a step of generator `i` emits: the packet it has filled and now
    passes on, to a parser or back to its pool. -/
def emission (i : Nat) (s : Generating) : PipelineCall → List Endpoints
  | .generator j _ _ =>
      if j = i then (filledPacket (s.stages.generatorPc i)).map connection else []
  | _ => []

section Emits

variable {cfg : Config} {gNums pNums : Nat} {numbers : UInt32} {config : SimConfig}
  {s s' : Generating} {i : Nat}

/-- From anywhere else in its loop a generator goes on with no filled packet. -/
theorem generatorStep_passes {mode : Mode} {t t' : Stages}
    (h : GeneratorStep mode gNums pNums t i t') (hpc : t.generatorPc i ≠ .idle) :
    filledPacket (t'.generatorPc i) = [] := by
  cases h with
  | took hidle => exact absurd hidle hpc
  | chose | kept | sent | returned =>
      show filledPacket (Function.update t.generatorPc i _ i) = []
      rw [Function.update_self]
      rfl

/-- A generator leaves the hands of the others alone. -/
theorem generatorStep_others {mode : Mode} {t t' : Stages} {j : Nat}
    (h : GeneratorStep mode gNums pNums t j t') (hne : i ≠ j) :
    t'.generatorPc i = t.generatorPc i := by
  cases h <;> exact Function.update_of_ne hne _ _

/-- The other threads leave the generators' hands alone. -/
theorem other_keeps_hands {t t' : Stages} {call : PipelineCall} {r : Unit}
    (h : (pipeline .generator cfg gNums pNums numbers).step t call = some (t', r))
    (hcall : ∀ j pipeDepth input, call ≠ .generator j pipeDepth input) :
    t'.generatorPc = t.generatorPc := by
  cases call with
  | generator j pipeDepth input => exact absurd rfl (hcall j pipeDepth input)
  | parser q pipeDepth => exact (parserStep_cases (pipeline_parser_eq_some h).2).generator_frame.1
  | manager m pipeDepth now => exact (managerStep_cases (pipeline_manager_eq_some h).2).generator_frame.1
  | clean m b now destoryTime =>
      obtain ⟨-, table, -, rfl⟩ := pipeline_clean_eq_some h
      rfl

theorem drawn_of_ne {pc : GeneratorPc} (hpc : pc ≠ .idle) (config : SimConfig) :
    drawn pc config = config := by
  cases pc with
  | idle => exact absurd rfl hpc
  | filled | sending | returning => rfl

/-- What a step of the pipeline does to the hand and the cursors of generator
    `i`: nothing, or the generator fills a packet, or it passes one on. -/
theorem generating_hand {call : PipelineCall} {r : Unit}
    (h : (generating cfg gNums pNums numbers).step s call = some (s', r)) :
    (emission i s call = []
        ∧ filledPacket (s'.stages.generatorPc i) = filledPacket (s.stages.generatorPc i)
        ∧ s'.config i = s.config i)
      ∨ (emission i s call = [] ∧ filledPacket (s.stages.generatorPc i) = []
        ∧ (∃ packet, s'.stages.generatorPc i = .filled (rewriteHeaders packet (s.config i)).1)
        ∧ s'.config i = advance (s.config i))
      ∨ (emission i s call = (filledPacket (s.stages.generatorPc i)).map connection
        ∧ filledPacket (s'.stages.generatorPc i) = [] ∧ s'.config i = s.config i) := by
  cases call with
  | generator j pipeDepth input =>
      obtain ⟨hgen, hconfig⟩ := generating_generator h
      by_cases hij : j = i
      · subst hij
        have hemit : emission j s (.generator j pipeDepth input)
            = (filledPacket (s.stages.generatorPc j)).map connection := if_pos rfl
        by_cases hpc : s.stages.generatorPc j = .idle
        · obtain ⟨packet, pool, _, hfilled, hnext⟩ := generating_took hpc h
          rw [hpc] at hemit ⊢
          exact Or.inr (Or.inl ⟨hemit, rfl, ⟨packet, hfilled⟩, hnext⟩)
        · refine Or.inr (Or.inr ⟨hemit, generatorStep_passes (generatorStep_cases hgen) hpc, ?_⟩)
          rw [hconfig, Function.update_self, drawn_of_ne hpc]
      · have hpc : s'.stages.generatorPc i = s.stages.generatorPc i :=
          generatorStep_others (generatorStep_cases hgen) (Ne.symm hij)
        refine Or.inl ⟨if_neg hij, by rw [hpc], ?_⟩
        rw [hconfig, Function.update_of_ne (Ne.symm hij)]
  | parser q pipeDepth | manager m pipeDepth now | clean m b now destoryTime =>
      obtain ⟨⟨stages, u⟩, hstep, heq⟩ := Option.map_eq_some_iff.mp h
      obtain ⟨rfl, _⟩ := Prod.mk.inj heq
      refine Or.inl ⟨rfl, ?_, rfl⟩
      rw [other_keeps_hands hstep (by simp)]

/-- **What a generator emits**: in every run, whatever the other threads do,
    the connections of packet 0, 1, 2, … in this order. -/
theorem generating_emits {calls : List PipelineCall} {es : List (List Endpoints)}
    (hconfig : s.config i = config) (hpc : s.stages.generatorPc i = .idle)
    (hrun : ((generating cfg gNums pNums numbers).observe (emission i)).run s calls
      = some (s', es)) :
    ∃ n, es.flatten = (List.range n).map (drawnAt config) := by
  -- after `n` packets: what is emitted, what is in the hand, and the cursors
  have hinv : ∃ n, es.flatten ++ (filledPacket (s'.stages.generatorPc i)).map connection
      = (List.range n).map (drawnAt config) ∧ s'.config i = advance^[n] config := by
    refine Machine.run_trace_induction _ (fun _ es s => ∃ n, es.flatten
      ++ (filledPacket (s.stages.generatorPc i)).map connection
        = (List.range n).map (drawnAt config) ∧ s.config i = advance^[n] config) ?_ hrun ?_
    · intro _ es t call t' e ⟨n, hout, hcursors⟩ hstep
      obtain ⟨⟨r, hst⟩, rfl⟩ :=
        ((generating cfg gNums pNums numbers).observe_step_eq_some (emission i)).mp hstep
      rw [List.flatten_concat]
      rcases generating_hand hst with ⟨hemit, hhand, hkeep⟩ | ⟨hemit, hhand, hfilled, hnext⟩
        | ⟨hemit, hhand, hkeep⟩
      · refine ⟨n, ?_, hkeep.trans hcursors⟩
        rw [hemit, hhand, List.append_nil, hout]
      · obtain ⟨packet, hfilled⟩ := hfilled
        refine ⟨n + 1, ?_, ?_⟩
        · rw [hhand, List.map_nil, List.append_nil] at hout
          rw [hemit, hfilled, List.append_nil, hout, List.range_succ, List.map_append]
          show _ ++ [connection (rewriteHeaders packet (t.config i)).1] = _
          rw [connection_rewriteHeaders, hcursors]
          rfl
        · rw [hnext, hcursors, Function.iterate_succ_apply']
      · refine ⟨n, ?_, hkeep.trans hcursors⟩
        rw [hemit, hhand, List.map_nil, List.append_nil, hout]
    · exact ⟨0, by rw [hpc]; rfl, hconfig⟩
  obtain ⟨n, hout, _⟩ := hinv
  refine ⟨es.flatten.length, ?_⟩
  have hle : es.flatten.length ≤ n := by
    have hlen := congrArg List.length hout
    rw [List.length_append, List.length_map, List.length_map, List.length_range] at hlen
    omega
  have htake := congrArg (List.take es.flatten.length) hout
  rw [List.take_left, ← List.map_take, List.take_range, Nat.min_eq_left hle] at htake
  exact htake

end Emits

/-! ## §4. How many there are. -/

/-- `lcm(n₁, n₂, n₃, n₄)`. -/
def lcm4 (n₁ n₂ n₃ n₄ : Nat) : Nat := (n₁.lcm n₂).lcm (n₃.lcm n₄)

theorem dvd_lcm4 (n₁ n₂ n₃ n₄ : Nat) :
    n₁ ∣ lcm4 n₁ n₂ n₃ n₄ ∧ n₂ ∣ lcm4 n₁ n₂ n₃ n₄ ∧ n₃ ∣ lcm4 n₁ n₂ n₃ n₄
      ∧ n₄ ∣ lcm4 n₁ n₂ n₃ n₄ :=
  ⟨(Nat.dvd_lcm_left n₁ n₂).trans (Nat.dvd_lcm_left _ _),
    (Nat.dvd_lcm_right n₁ n₂).trans (Nat.dvd_lcm_left _ _),
    (Nat.dvd_lcm_left n₃ n₄).trans (Nat.dvd_lcm_right _ _),
    (Nat.dvd_lcm_right n₃ n₄).trans (Nat.dvd_lcm_right _ _)⟩

/-- **The connections of a generator** whose ranges have `n₁` and `n₂` ports,
    `n₃` and `n₄` addresses. -/
structure Connections (u : Nat → Endpoints) (config : SimConfig) (n₁ n₂ n₃ n₄ : Nat) : Prop where
  /-- The periods are the multiples of the least common multiple. -/
  period : ∀ p, (∀ t, u (t + p) = u t) ↔ lcm4 n₁ n₂ n₃ n₄ ∣ p
  /-- A period's worth of packets in a row are all different. -/
  distinct : ∀ t, ((List.range (lcm4 n₁ n₂ n₃ n₄)).map (fun k => u (t + k))).Nodup
  source : Sweeps (fun t => (u t).source) (portAt config.sport) n₁ (lcm4 n₁ n₂ n₃ n₄)
  dest : Sweeps (fun t => (u t).dest) (portAt config.dport) n₂ (lcm4 n₁ n₂ n₃ n₄)
  saddr : Sweeps (fun t => (u t).saddr) (addressAt config.saddr) n₃ (lcm4 n₁ n₂ n₃ n₄)
  daddr : Sweeps (fun t => (u t).daddr) (addressAt config.daddr) n₄ (lcm4 n₁ n₂ n₃ n₄)

section Connections

variable {config : SimConfig} {n₁ n₂ n₃ n₄ : Nat}

/-- Packet `t`, range by range. -/
theorem drawnAt_eq (h₁ : CursorIn config.sport n₁) (h₂ : CursorIn config.dport n₂)
    (h₃ : CursorIn config.saddr n₃) (h₄ : CursorIn config.daddr n₄) (t : Nat) :
    drawnAt config t
      = { saddr := addressAt config.saddr ((offset config.saddr + 1 + t) % n₃)
          daddr := addressAt config.daddr ((offset config.daddr + 1 + t) % n₄)
          source := portAt config.sport ((offset config.sport + 1 + t) % n₁)
          dest := portAt config.dport ((offset config.dport + 1 + t) % n₂) } := by
  unfold drawnAt nextConnection addressAt portAt
  simp only [advance_iterate, ← Function.iterate_succ_apply' nextCursor]
  rw [(h₁.iterate (t + 1)).2, (h₂.iterate (t + 1)).2, (h₃.iterate (t + 1)).2,
    (h₄.iterate (t + 1)).2]
  simp only [Nat.add_comm t 1, Nat.add_assoc]

/-- The four cycles side by side. -/
theorem goesRound_drawnAt (h₁ : CursorIn config.sport n₁) (h₂ : CursorIn config.dport n₂)
    (h₃ : CursorIn config.saddr n₃) (h₄ : CursorIn config.daddr n₄) (hp₁ : n₁ ≤ 65536)
    (hp₂ : n₂ ≤ 65536) : GoesRound (drawnAt config) (lcm4 n₁ n₂ n₃ n₄) := by
  have hports := (goesRound_turn h₁.pos (portAt_inj config.sport hp₁)
    (offset config.sport + 1)).pair
      (goesRound_turn h₂.pos (portAt_inj config.dport hp₂) (offset config.dport + 1))
  have haddresses := (goesRound_turn h₃.pos (addressAt_inj config.saddr h₃.le)
    (offset config.saddr + 1)).pair
      (goesRound_turn h₄.pos (addressAt_inj config.daddr h₄.le) (offset config.daddr + 1))
  have hinj : Function.Injective (fun q : (UInt16 × UInt16) × UInt32 × UInt32 =>
      Endpoints.mk q.2.1 q.2.2 q.1.1 q.1.2) := by
    rintro ⟨⟨a, b⟩, c, d⟩ ⟨⟨a', b'⟩, c', d'⟩ h
    simp only [Endpoints.mk.injEq] at h
    obtain ⟨rfl, rfl, rfl, rfl⟩ := h
    rfl
  have hall := (hports.pair haddresses).map hinj
  intro s t
  rw [drawnAt_eq h₁ h₂ h₃ h₄ s, drawnAt_eq h₁ h₂ h₃ h₄ t]
  exact hall s t

/-- **THE NUMBER OF SIMULATED CONNECTIONS.**  In every run of the pipeline the
    packets of a generator carry the sequence `drawnAt`, from whatever state
    of its cursors; it has period `lcm(n₁, n₂, n₃, n₄)` exactly, any so many
    packets in a row are different, and every range is swept evenly. -/
theorem connections (h₁ : CursorIn config.sport n₁) (h₂ : CursorIn config.dport n₂)
    (h₃ : CursorIn config.saddr n₃) (h₄ : CursorIn config.daddr n₄) (hp₁ : n₁ ≤ 65536)
    (hp₂ : n₂ ≤ 65536) :
    (∀ (cfg : Config) (gNums pNums : Nat) (numbers : UInt32) (s s' : Generating) (i : Nat)
        (calls : List PipelineCall) (es : List (List Endpoints)),
      s.config i = config → s.stages.generatorPc i = .idle →
      ((generating cfg gNums pNums numbers).observe (emission i)).run s calls = some (s', es) →
      ∃ n, es.flatten = (List.range n).map (drawnAt config))
      ∧ Connections (drawnAt config) config n₁ n₂ n₃ n₄ := by
  have hround := goesRound_drawnAt h₁ h₂ h₃ h₄ hp₁ hp₂
  obtain ⟨hd₁, hd₂, hd₃, hd₄⟩ := dvd_lcm4 n₁ n₂ n₃ n₄
  have heq := drawnAt_eq h₁ h₂ h₃ h₄
  refine ⟨?_, hround.period_iff, hround.nodup, ?_, ?_, ?_, ?_⟩
  · intro cfg gNums pNums numbers s s' i calls es hconfig hpc hrun
    exact generating_emits hconfig hpc hrun
  · simp only [heq]
    exact sweeps_turn h₁.pos (portAt_inj config.sport hp₁) _ hd₁
  · simp only [heq]
    exact sweeps_turn h₂.pos (portAt_inj config.dport hp₂) _ hd₂
  · simp only [heq]
    exact sweeps_turn h₃.pos (addressAt_inj config.saddr h₃.le) _ hd₃
  · simp only [heq]
    exact sweeps_turn h₄.pos (addressAt_inj config.daddr h₄.le) _ hd₄

end Connections

/-- Three source ports from 65535 on (the second is port 0), two destination
    ports, four source addresses across 2^32, six destination addresses. -/
def fourRanges : SimConfig :=
  { sampleConfig with
    sport := ⟨65535, 65536, 65537⟩
    dport := ⟨200, 200, 201⟩
    saddr := ⟨0xFFFFFFFE, 0, 1⟩
    daddr := ⟨0x0A000001, 0x0A000004, 0x0A000006⟩ }

/-- Twelve connections. -/
theorem fourRanges_connections :
    CursorIn fourRanges.sport 3 ∧ CursorIn fourRanges.dport 2 ∧ CursorIn fourRanges.saddr 4
      ∧ CursorIn fourRanges.daddr 6
      ∧ ∀ p, (∀ t, drawnAt fourRanges (t + p) = drawnAt fourRanges t) ↔ 12 ∣ p := by
  have h₁ : CursorIn fourRanges.sport 3 := ⟨by decide, by decide, by decide, by decide⟩
  have h₂ : CursorIn fourRanges.dport 2 := ⟨by decide, by decide, by decide, by decide⟩
  have h₃ : CursorIn fourRanges.saddr 4 := ⟨by decide, by decide, by decide, by decide⟩
  have h₄ : CursorIn fourRanges.daddr 6 := ⟨by decide, by decide, by decide, by decide⟩
  exact ⟨h₁, h₂, h₃, h₄, (connections h₁ h₂ h₃ h₄ (by decide) (by decide)).2.period⟩

end FreePacket.Generator
