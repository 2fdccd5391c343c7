/-
  FreePacket.Generator.Recycle
  ────────────────────────────
  **BUFFERS GO ROUND, and the fast path stays the slow one.**

  `generating` is the pipeline in generator mode with the configuration each
  generator has copied: what a generator writes comes from its own cursors.
  A buffer is sent, parsed, stored, given back and filled again any number of
  times; since only the twelve header bytes are ever written, it stays
  prepared, and the four stores make of it what the builder would.

  Main result: `generating_rebuilds`.
-/
import FreePacket.Generator.Rewrite
import FreePacket.Pipeline.Everywhere

namespace FreePacket.Generator

open FreePacket.Lib FreePacket.Packet FreePacket.ConfigFile FreePacket.Pipeline
open FreePacket.Session (Manager Config queueCapacity)

/-! ## §1. The pipeline with its generators' cursors. -/

/-- The stages, and `generator[i].config`. -/
structure Generating where
  stages : Stages
  config : Nat → SimConfig

/-- The bytes 28 to 39 of a packet the loop has written. -/
def drawnBytes (config : SimConfig) : Nat → UInt8 :=
  fun k => (rewriteHeaders blankPacket config).1.data (28 + k)

/-- What the loop writes there does not depend on the buffer. -/
theorem headers_inside (mem mem' : Nat → UInt8) (config : SimConfig) {a : Nat} (hle : 28 ≤ a)
    (hlt : a < 40) : addressesWritten (portsWritten mem config) config a
      = addressesWritten (portsWritten mem' config) config a := by
  unfold addressesWritten portsWritten store32 store16 tcpIdx memcpy
  split_ifs <;> first | rfl | omega

/-- The four stores are the copy of those twelve bytes. -/
theorem fillPacket_drawnBytes (i : Nat) (packet : PacketT) (config : SimConfig) :
    fillPacket .generator i packet (.counters (drawnBytes config))
      = some (rewriteHeaders packet config).1 := by
  have hdata : memcpy packet.data 28 (drawnBytes config) 12
      = addressesWritten (portsWritten packet.data config) config := by
    funext a
    by_cases hin : 28 ≤ a ∧ a < 28 + 12
    · rw [memcpy_inside _ _ hin.1 hin.2]
      show addressesWritten (portsWritten blankPacket.data config) config (28 + (a - 28)) = _
      rw [Nat.add_sub_cancel' hin.1]
      exact headers_inside _ _ config hin.1 (by omega)
    · rw [memcpy_outside _ _ (by omega), addressesWritten_outside _ _ (by omega),
        portsWritten_outside _ _ (by omega)]
  rw [rewriteHeaders_eq, ← hdata]
  rfl

/-- A generator that takes a buffer moves its cursors on. -/
def drawn (pc : GeneratorPc) (config : SimConfig) : SimConfig :=
  match pc with
  | .idle => advance config
  | _ => config

/-- **The pipeline in generator mode**, every generator drawing from its own
    cursors (the input of its call is not looked at). -/
def generating (cfg : Config) (gNums pNums : Nat) (numbers : UInt32) :
    Machine Generating PipelineCall Unit where
  step s call :=
    match call with
    | .generator i pipeDepth _ =>
        ((pipeline .generator cfg gNums pNums numbers).step s.stages
          (.generator i pipeDepth (.counters (drawnBytes (s.config i))))).map
          (fun r =>
            ({ stages := r.1
               config := Function.update s.config i
                 (drawn (s.stages.generatorPc i) (s.config i)) }, ()))
    | call =>
        ((pipeline .generator cfg gNums pNums numbers).step s.stages call).map
          (fun r => ({ s with stages := r.1 }, ()))

/-- Every generator has copied `config`, run `make_all_packet` on its pool and
    enters its loop. -/
structure LoopEntered (fuel : Nat) (handler : GenerHandler) (config : SimConfig)
    (s : Generating) : Prop where
  prepared : ∀ i, ∃ buffers, makeAllPacket fuel handler i queueCapacity
    (initSignleGenerator i buffers) config = some (s.stages.generatorPool i, s.config i)
  generatorPc : ∀ i, s.stages.generatorPc i = .idle
  parserQueue : ∀ q, s.stages.parserQueue q = []
  parserPc : ∀ q, s.stages.parserPc q = .idle
  managerQueue : ∀ m, s.stages.managerQueue m = []
  managerPc : ∀ m, s.stages.managerPc m = .idle

/-! ## §2. The invariant. -/

/-- Every buffer is prepared, every configuration is `config` some packets on. -/
structure Recycling (config : SimConfig) (data : PktData) (s : Generating) : Prop where
  buffers : Everywhere (fun packet => Prepared config data packet.data) s.stages
  cursors : ∀ i, ∃ n, s.config i = advance^[n] config

section Recycling

variable {cfg : Config} {gNums pNums : Nat} {numbers : UInt32} {config : SimConfig}
  {data : PktData} {handler : GenerHandler} {fuel : Nat} {s s' : Generating} {r : Unit}

/-- Whatever is written into the twelve bytes, the buffer stays prepared. -/
theorem prepared_fillPacket {i : Nat} {packet packet' : PacketT} {input : Input}
    (hfill : fillPacket .generator i packet input = some packet')
    (h : Prepared config data packet.data) : Prepared config data packet'.data := by
  cases input with
  | counters bytes =>
      obtain rfl := Option.some.inj hfill
      exact h.congr fun a ha => memcpy_outside _ _ (by omega)
  | frame va l2Length => exact absurd hfill (by simp [fillPacket])

theorem initSignleGenerator_length (i : Nat) (buffers : Nat → PacketT) :
    (initSignleGenerator i buffers).length = queueCapacity := by
  unfold initSignleGenerator
  rw [List.length_map, List.length_range]

/-- **Every one of the 1024 buffers is written exactly once**, in the order of
    the pool and with one state of the cursors after the other. -/
theorem makeAllPacket_pool (hmode : generatorMode config = some handler)
    (hset : config.pktData = some data) (hdata : data.bytes ≠ []) (hlen : 54 ≤ config.pktlen)
    (hfuel : config.pktlen ≤ fuel) (i : Nat) (buffers : Nat → PacketT) :
    ∃ pool', makeAllPacket fuel handler i queueCapacity (initSignleGenerator i buffers) config
        = some (pool', advance^[queueCapacity] config)
      ∧ pool'.length = queueCapacity
      ∧ ∀ j packet packet', (initSignleGenerator i buffers)[j]? = some packet →
        pool'[j]? = some packet' → WrittenAt fuel handler i config j packet packet'
          ∧ Prepared config data packet'.data := by
  have hlength := initSignleGenerator_length i buffers
  obtain ⟨pool', hrun, hlen', hall⟩ := makeAllPacket_prepares hmode hset hdata hlen hfuel i
    (initSignleGenerator i buffers) [] (by rw [hlength]; exact Nat.le_refl _) 0
  rw [hlength, List.append_nil, List.nil_append, Nat.zero_add] at hrun
  refine ⟨pool', hrun, hlen'.trans hlength, ?_⟩
  intro j packet packet' hj hj'
  have hj₀ := hall j packet packet' hj hj'
  rw [Nat.zero_add] at hj₀
  exact hj₀

theorem LoopEntered.recycling (h : LoopEntered fuel handler config s)
    (hmode : generatorMode config = some handler) (hset : config.pktData = some data)
    (hdata : data.bytes ≠ []) (hlen : 54 ≤ config.pktlen) (hfuel : config.pktlen ≤ fuel) :
    Recycling config data s := by
  have hpools : ∀ i, Each (fun packet => Prepared config data packet.data)
      (s.stages.generatorPool i) ∧ s.config i = advance^[queueCapacity] config := by
    intro i
    obtain ⟨buffers, hrun⟩ := h.prepared i
    obtain ⟨pool', hrun', hlen', hall⟩ :=
      makeAllPacket_pool hmode hset hdata hlen hfuel i buffers
    rw [hrun'] at hrun
    obtain ⟨rfl, hconfig⟩ := Prod.mk.inj (Option.some.inj hrun)
    refine ⟨?_, hconfig.symm⟩
    intro packet' hmem
    obtain ⟨j, hj⟩ := List.getElem?_of_mem hmem
    have hlt : j < (initSignleGenerator i buffers).length := by
      rw [initSignleGenerator_length, ← hlen']
      exact (List.getElem?_eq_some_iff.mp hj).1
    exact (hall j _ packet' (List.getElem?_eq_getElem hlt) hj).2
  exact ⟨everywhere_of_pools (fun i => (hpools i).1) h.generatorPc h.parserQueue h.parserPc
    h.managerQueue h.managerPc, fun i => ⟨queueCapacity, (hpools i).2⟩⟩

/-- **Every step recycles.** -/
theorem Recycling.step (hs : Recycling config data s) {call : PipelineCall}
    (h : (generating cfg gNums pNums numbers).step s call = some (s', r)) :
    Recycling config data s' := by
  cases call with
  | generator i pipeDepth input =>
      obtain ⟨⟨stages, u⟩, hstep, heq⟩ := Option.map_eq_some_iff.mp h
      obtain ⟨rfl, _⟩ := Prod.mk.inj heq
      refine ⟨hs.buffers.step (fun _ _ _ _ => prepared_fillPacket) (pipelineStep_cases hstep), ?_⟩
      refine all_update (Q := fun c : SimConfig => ∃ n, c = advance^[n] config) hs.cursors i ?_
      obtain ⟨n, hn⟩ := hs.cursors i
      -- the cursors move when a buffer is taken, and only then
      cases hpc : s.stages.generatorPc i with
      | idle => exact ⟨n + 1, by rw [Function.iterate_succ_apply', ← hn]; rfl⟩
      | filled packet => exact ⟨n, hn⟩
      | sending parser packet => exact ⟨n, hn⟩
      | returning packet => exact ⟨n, hn⟩
  | parser q pipeDepth | manager m pipeDepth now | clean m b now destoryTime =>
      obtain ⟨⟨stages, u⟩, hstep, heq⟩ := Option.map_eq_some_iff.mp h
      obtain ⟨rfl, _⟩ := Prod.mk.inj heq
      exact ⟨hs.buffers.step (fun _ _ _ _ => prepared_fillPacket) (pipelineStep_cases hstep),
        hs.cursors⟩

/-! ## §3. The fast path is the slow path. -/

/-- A generator's call is a step of its loop, with the bytes of its cursors. -/
theorem generating_generator {i : Nat} {pipeDepth : Int32} {input : Input}
    (h : (generating cfg gNums pNums numbers).step s (.generator i pipeDepth input)
      = some (s', r)) :
    generatorStep .generator gNums pNums s.stages i pipeDepth (.counters (drawnBytes (s.config i)))
        = some s'.stages
      ∧ s'.config = Function.update s.config i (drawn (s.stages.generatorPc i) (s.config i)) := by
  obtain ⟨⟨stages, u⟩, hstep, heq⟩ := Option.map_eq_some_iff.mp h
  obtain ⟨rfl, _⟩ := Prod.mk.inj heq
  exact ⟨(pipeline_generator_eq_some hstep).2, rfl⟩

/-- A generator in front of `mwsr_pool_dequeue` that gets on has taken the
    first buffer of its pool and made the four stores. -/
theorem generating_took {i : Nat} {pipeDepth : Int32} {input : Input}
    (hpc : s.stages.generatorPc i = .idle)
    (h : (generating cfg gNums pNums numbers).step s (.generator i pipeDepth input)
      = some (s', r)) :
    ∃ packet pool, s.stages.generatorPool i = packet :: pool
      ∧ s'.stages.generatorPc i = .filled (rewriteHeaders packet (s.config i)).1
      ∧ s'.config i = advance (s.config i) := by
  obtain ⟨hgen, hconfig⟩ := generating_generator h
  simp only [generatorStep, hpc] at hgen
  cases hpool : s.stages.generatorPool i with
  | nil =>
      rw [hpool] at hgen
      exact absurd hgen (by simp [Fifo.take])
  | cons packet pool =>
      rw [hpool] at hgen
      simp only [Fifo.take, fillPacket_drawnBytes, Option.map_some, Option.some.injEq] at hgen
      refine ⟨packet, pool, rfl, ?_, ?_⟩
      · rw [← hgen]
        exact Function.update_self _ _ _
      · rw [hconfig, Function.update_self, hpc]
        rfl

/-- **IN-PLACE REWRITE IS FULL REBUILD**: the loop starts with every buffer of
    the pool written once; and however often a buffer has gone round, the
    packet made of it is the packet the builder would make of it, from the
    same cursors and with the same cursors left. -/
theorem generating_rebuilds (hmode : generatorMode config = some handler)
    (hset : config.pktData = some data) (hdata : data.bytes ≠ []) (hlen : 54 ≤ config.pktlen)
    (hfuel : config.pktlen ≤ fuel) :
    (∀ (i : Nat) (buffers : Nat → PacketT), ∃ pool',
      makeAllPacket fuel handler i queueCapacity (initSignleGenerator i buffers) config
          = some (pool', advance^[queueCapacity] config)
        ∧ pool'.length = queueCapacity
        ∧ ∀ (j : Nat) (packet packet' : PacketT),
          (initSignleGenerator i buffers)[j]? = some packet → pool'[j]? = some packet' →
            WrittenAt fuel handler i config j packet packet')
      ∧ ∀ (cfg : Config) (gNums pNums : Nat) (numbers : UInt32) (start s s' : Generating)
          (i : Nat) (pipeDepth : Int32) (input : Input) (r : Unit),
        LoopEntered fuel handler config start →
        (generating cfg gNums pNums numbers).Reaches (fun _ => True) start s →
        s.stages.generatorPc i = .idle →
        (generating cfg gNums pNums numbers).step s (.generator i pipeDepth input)
          = some (s', r) →
        ∃ packet packet' pool, s.stages.generatorPool i = packet :: pool
          ∧ s'.stages.generatorPc i = .filled packet'
          ∧ rewriteHeaders packet (s.config i) = (packet', s'.config i)
          ∧ handler fuel packet (s.config i) = some (packet', s'.config i) := by
  constructor
  · intro i buffers
    obtain ⟨pool', hrun, hlength, hall⟩ :=
      makeAllPacket_pool hmode hset hdata hlen hfuel i buffers
    exact ⟨pool', hrun, hlength, fun j packet packet' hj hj' => (hall j packet packet' hj hj').1⟩
  · intro cfg gNums pNums numbers start s s' i pipeDepth input r hstart hreach hpc hstep
    have hs : Recycling config data s := hreach.induction (Recycling config data)
      (fun _ _ _ _ hu _ hst => hu.step hst) (hstart.recycling hmode hset hdata hlen hfuel)
    obtain ⟨packet, pool, hpool, hpc', hconfig⟩ := generating_took hpc hstep
    obtain ⟨n, hn⟩ := hs.cursors i
    have hprep : Prepared (s.config i) data packet.data := by
      rw [hn]
      exact (prepared_iterate n).mpr
        (hs.buffers.generatorPool i packet (by rw [hpool]; exact List.mem_cons_self))
    have hpair : rewriteHeaders packet (s.config i)
        = ((rewriteHeaders packet (s.config i)).1, s'.config i) := by
      rw [hconfig]
      rfl
    refine ⟨packet, _, pool, hpool, hpc', hpair, ?_⟩
    rw [← hpair]
    -- the static part of the configuration is what it was
    rw [hn, advance_iterate] at hprep ⊢
    exact hprep.rebuild hmode hset hdata hlen hfuel

end Recycling

/-- One generator over TCP with the default lengths: its first packet. -/
theorem sampleConfig_rebuilds :
    ∃ (start s' : Generating) (packet packet' : PacketT),
      LoopEntered 600 generatorTcpPacket sampleConfig start
        ∧ (generating (Session.sourceConfig 65536 1000) 1 1 1).step start
            (.generator 0 2 (.counters (fun _ => 0))) = some (s', ())
        ∧ s'.stages.generatorPc 0 = .filled packet'
        ∧ generatorTcpPacket 600 packet (start.config 0) = some (packet', s'.config 0) := by
  have hall := @generating_rebuilds sampleConfig sampleData generatorTcpPacket 600 rfl rfl
    (by decide) (by decide) (by decide)
  choose pools hrun hlen _ using fun i => hall.1 i (fun _ => blankPacket)
  generalize hstages : { startStages .generator 600 (fun _ _ => 0) (fun _ _ => blankPacket)
    (fun _ _ => blankFlow) Session.freshManager with generatorPool := pools } = stages
  generalize hstart : Generating.mk stages (fun _ => advance^[queueCapacity] sampleConfig) = start
  have hpool : start.stages.generatorPool = pools := by
    subst hstart
    subst hstages
    rfl
  have hconfig : start.config = fun _ => advance^[queueCapacity] sampleConfig := by
    rw [← hstart]
  have hentered : LoopEntered 600 generatorTcpPacket sampleConfig start := by
    refine ⟨?_, ?_, ?_, ?_, ?_, ?_⟩
    · intro i
      rw [hpool, hconfig]
      exact ⟨_, hrun i⟩
    all_goals
      subst hstart
      subst hstages
      exact fun _ => rfl
  cases hfirst : pools 0 with
  | nil =>
      have hlen₀ := hlen 0
      rw [hfirst] at hlen₀
      exact absurd hlen₀ (by decide)
  | cons packet pool =>
      obtain ⟨stages', hpipe⟩ : ∃ stages',
          (pipeline .generator (Session.sourceConfig 65536 1000) 1 1 1).step start.stages
            (.generator 0 2 (.counters (drawnBytes (start.config 0)))) = some (stages', ()) :=
        ⟨_, step_took (by decide) (hentered.generatorPc 0) (by rw [hpool, hfirst])
          (fillPacket_drawnBytes 0 packet (start.config 0)) 2⟩
      obtain ⟨s', hstep⟩ : ∃ s', (generating (Session.sourceConfig 65536 1000) 1 1 1).step start
          (.generator 0 2 (.counters (fun _ => 0))) = some (s', ()) :=
        ⟨_, congrArg (Option.map _) hpipe⟩
      obtain ⟨packet, packet', _, _, hfilled, _, hsame⟩ := hall.2 (Session.sourceConfig 65536 1000)
        1 1 1 start start s' 0 2 (.counters (fun _ => 0)) () hentered .refl (hentered.generatorPc 0)
        hstep
      exact ⟨start, s', packet, packet', hentered, hstep, hfilled, hsame⟩

end FreePacket.Generator
