/-
  FreePacket.Pipeline.Batch
  ─────────────────────────
  **BATCHES STARVE A GENERATOR exactly when it feeds more than 16 parsers.**

  A parser waits for 64 packets, a generator has 1024 buffers.  Spread over
  16 queues they cannot all lie in queues of at most 63, by the pigeonhole;
  over 17 queues or more they can, and the round robin of `next_thread_id`
  spreads them so.

  Main results:
    * `StarvedAt.forever` — a starving generator never sends again.
    * `Owned.not_starved` — with `pNums <= 16 * gNums` no generator starves.
    * `reaches_starved` — beyond that generator 0 starves, if it sends 1024
      packets before any parser moves.
    * `pipeline_neverStarves_iff` — the exact condition.
-/
import FreePacket.Pipeline.Conservation

namespace FreePacket.Pipeline

open FreePacket.Lib FreePacket.Packet
open FreePacket.Session (Manager Config queueCapacity)

/-! ## §1. The bad state. -/

/-- **Generator `i` starves**: its pool is empty, and all its buffers lie in
    parser queues too short for a batch. -/
def StarvedAt (pNums : Nat) (s : Stages) (i : Nat) : Prop :=
  s.generatorPool i = []
    ∧ total pNums s.parserQueue (fun packet => packet.addr.1 == i) = queueCapacity
    ∧ ∀ q < pNums, (∃ packet ∈ s.parserQueue q, packet.addr.1 = i) →
        (s.parserQueue q).length < batch

/-- Some generator starves. -/
def Starved (gNums pNums : Nat) (s : Stages) : Prop := ∃ i < gNums, StarvedAt pNums s i

/-- Every read of `pipe_depth` returns at least 2. -/
def PipelineCall.DeepEnough : PipelineCall → Prop
  | .generator _ pipeDepth _ | .parser _ pipeDepth | .manager _ pipeDepth _ => 2 ≤ pipeDepth
  | .clean _ _ _ _ => True

/-! ## §2. Starving is for ever. -/

section Forever

variable {mode : Mode} {cfg : Config} {gNums pNums : Nat} {numbers : UInt32} {s s' : Stages}
  {i : Nat}

/-- All its buffers being queued, no thread has one in its hands. -/
theorem StarvedAt.hands (hs : PipelineInv mode gNums pNums numbers s) (hi : i < gNums)
    (h : StarvedAt pNums s i) :
    total gNums (fun j => (s.generatorPc j).packets) (fun packet => packet.addr.1 == i) = 0
      ∧ total pNums (fun q => (s.parserPc q).packets) (fun packet => packet.addr.1 == i) = 0
      ∧ total numbers.toNat (fun m => (s.managerPc m).packets) (fun packet => packet.addr.1 == i)
        = 0 := by
  have htally := hs.packets (fun a => a.1 == i)
  have hall := h.2.1
  rw [total_block_owner hi] at htally
  simp only [Stages.packetTally] at htally
  omega

/-- What a thread has in its hands is not the starving generator's. -/
theorem owner_ne_of_total {n k : Nat} {F : Nat → List PacketT} (hk : k < n)
    (hzero : total n F (fun packet => packet.addr.1 == i) = 0) {packet : PacketT}
    (hmem : packet ∈ F k) : packet.addr.1 ≠ i := by
  intro heq
  have hle := countP_le_total hk F (fun packet => packet.addr.1 == i)
  have hpos : 0 < (F k).countP (fun packet => packet.addr.1 == i) :=
    List.countP_pos_iff.mpr ⟨packet, hmem, beq_iff_eq.mpr heq⟩
  omega

/-- A step that leaves pools and queues alone. -/
theorem StarvedAt.congr (h : StarvedAt pNums s i) (hpools : s'.generatorPool = s.generatorPool)
    (hqueues : s'.parserQueue = s.parserQueue) : StarvedAt pNums s' i := by
  unfold StarvedAt at h ⊢
  rw [hpools, hqueues]
  exact h

/-- A change of another generator's pool. -/
theorem StarvedAt.setPool (h : StarvedAt pNums s i) {pool : Nat} {l : List PacketT}
    (hne : pool ≠ i) (hpools : s'.generatorPool = Function.update s.generatorPool pool l)
    (hqueues : s'.parserQueue = s.parserQueue) : StarvedAt pNums s' i := by
  unfold StarvedAt at h ⊢
  rw [hpools, hqueues, Function.update_of_ne (Ne.symm hne)]
  exact h

/-- A change of a queue that has no buffer of the starving generator. -/
theorem StarvedAt.setQueue (h : StarvedAt pNums s i) {q : Nat} (hq : q < pNums)
    {l : List PacketT} (hold : ∀ packet ∈ s.parserQueue q, packet.addr.1 ≠ i)
    (hnew : ∀ packet ∈ l, packet.addr.1 ≠ i) (hpools : s'.generatorPool = s.generatorPool)
    (hqueues : s'.parserQueue = Function.update s.parserQueue q l) : StarvedAt pNums s' i := by
  obtain ⟨hpool, hall, hshort⟩ := h
  have hzero : ∀ l : List PacketT, (∀ packet ∈ l, packet.addr.1 ≠ i) →
      l.countP (fun packet => packet.addr.1 == i) = 0 := by
    intro l hl
    rw [List.countP_eq_zero]
    intro packet hpacket heq
    exact hl packet hpacket (beq_iff_eq.mp heq)
  unfold StarvedAt
  rw [hpools, hqueues]
  refine ⟨hpool, ?_, ?_⟩
  · have hupd := total_update hq s.parserQueue l (fun packet => packet.addr.1 == i)
    rw [hzero _ hold, hzero _ hnew] at hupd
    omega
  · intro r hr hsome
    by_cases hrq : r = q
    · rw [hrq, Function.update_self] at hsome
      obtain ⟨packet, hpacket, haddr⟩ := hsome
      exact absurd haddr (hnew packet hpacket)
    · rw [Function.update_of_ne hrq] at hsome ⊢
      exact hshort r hr hsome

theorem StarvedAt.generatorStep (hs : PipelineInv mode gNums pNums numbers s) (hi : i < gNums)
    (h : StarvedAt pNums s i) {j : Nat} (hj : j < gNums)
    (hstep : GeneratorStep mode gNums pNums s j s') : StarvedAt pNums s' i := by
  have hown := hs.owned.generatorPc j hj
  have hhand := fun (packet : PacketT) (hmem : packet ∈ (s.generatorPc j).packets) =>
    owner_ne_of_total (F := fun j => (s.generatorPc j).packets) hj (h.hands hs hi).1 hmem
  cases hstep with
  | @took packet packet' pool input _ hcons _ =>
      have hne : j ≠ i := by
        intro hji
        rw [hji, h.1] at hcons
        exact absurd hcons (by simp)
      exact h.setPool hne rfl rfl
  | chose _ => exact h.congr rfl rfl
  | kept _ => exact h.congr rfl rfl
  | @sent parser packet hpc =>
      have hne := hhand packet (by rw [hpc]; exact List.mem_singleton_self packet)
      rw [hpc] at hown
      obtain ⟨hof, hq, hfeeds⟩ := hown
      -- this parser gets packets of generator `j` alone
      have hold : ∀ x ∈ s.parserQueue parser, x.addr.1 ≠ i := by
        intro x hx
        rw [(hs.owned.parserQueue parser hq x hx).1, hfeeds, ← hof.1]
        exact hne
      refine h.setQueue hq hold ?_ rfl rfl
      intro x hx
      rcases List.mem_append.mp hx with hx | hx
      · exact hold x hx
      · rw [List.mem_singleton.mp hx]
        exact hne
  | @returned packet hpc =>
      have hne := hhand packet (by rw [hpc]; exact List.mem_singleton_self packet)
      rw [hpc] at hown
      refine h.setPool ?_ rfl rfl
      rw [hown.2, ← hown.1]
      exact hne

theorem StarvedAt.parserStep (hs : PipelineInv mode gNums pNums numbers s) (hi : i < gNums)
    (h : StarvedAt pNums s i) {q : Nat} (hq : q < pNums) (hstep : ParserStep numbers s q s') :
    StarvedAt pNums s' i := by
  have hown := hs.owned.parserPc q hq
  have hhand := fun (packet : PacketT) (hmem : packet ∈ (s.parserPc q).packets) =>
    owner_ne_of_total (F := fun q => (s.parserPc q).packets) hq (h.hands hs hi).2.1 hmem
  -- a batch in hand goes back to its own generator, which is another one
  have hbatch : ∀ {first : PacketT} {rest : List PacketT},
      (s.parserPc q).packets = first :: rest → PacketOf (q % gNums) first → first.pool ≠ i := by
    intro first rest hpackets hof
    have hne := hhand first (by rw [hpackets]; exact List.mem_cons_self)
    rw [hof.2, ← hof.1]
    exact hne
  cases hstep with
  | @took packets queue hpc hqueue hlen =>
      have hof := hs.owned.parserQueue q hq
      have hne : q % gNums ≠ i := by
        intro hfeeds
        have hlong : batch ≤ (s.parserQueue q).length := by
          rw [hqueue, List.length_append]
          omega
        obtain ⟨packet, _, hcons⟩ := List.exists_cons_of_length_pos
          (Nat.lt_of_lt_of_le (show 0 < batch by decide) hlong)
        have hmem : packet ∈ s.parserQueue q := by
          rw [hcons]
          exact List.mem_cons_self
        have hshort := h.2.2 q hq ⟨packet, hmem, (hof packet hmem).1.trans hfeeds⟩
        omega
      have hold : ∀ x ∈ s.parserQueue q, x.addr.1 ≠ i := by
        intro x hx
        rw [(hof x hx).1]
        exact hne
      refine h.setQueue hq hold ?_ rfl rfl
      intro x hx
      apply hold
      rw [hqueue]
      exact List.mem_append_right packets hx
  | @returnedBatch first rest flows hpc =>
      rw [hpc] at hown
      exact h.setPool (hbatch (by rw [hpc]; rfl) (hown.2.1 first List.mem_cons_self)) rfl rfl
  | @returnedPackets first rest hpc =>
      rw [hpc] at hown
      exact h.setPool (hbatch (by rw [hpc]; rfl) (hown.2 first List.mem_cons_self)) rfl rfl
  | _ => exact h.congr rfl rfl

theorem StarvedAt.managerStep (hs : PipelineInv mode gNums pNums numbers s) (hi : i < gNums)
    (h : StarvedAt pNums s i) {m : Nat} (hm : m < numbers.toNat) (hstep : ManagerStep s m s') :
    StarvedAt pNums s' i := by
  have hown := hs.owned.managerPc m hm
  have hhand := fun (packet : PacketT) (hmem : packet ∈ (s.managerPc m).packets) =>
    owner_ne_of_total (F := fun m => (s.managerPc m).packets) hm (h.hands hs hi).2.2 hmem
  cases hstep with
  | @returnedPacket flow hpc =>
      have hne := hhand flow.packet (by rw [hpc]; exact List.mem_singleton_self _)
      rw [hpc] at hown
      obtain ⟨_, _, _, hof⟩ := hown
      refine h.setPool ?_ rfl rfl
      rw [hof.2, ← hof.1]
      exact hne
  | _ => exact h.congr rfl rfl

/-- **A starving generator goes on starving**, whatever step is taken. -/
theorem StarvedAt.step (hs : PipelineInv mode gNums pNums numbers s) (hi : i < gNums)
    (h : StarvedAt pNums s i) (hstep : PipelineStep mode gNums pNums numbers s s') :
    StarvedAt pNums s' i := by
  cases hstep with
  | generator hj hstep => exact h.generatorStep hs hi hj hstep
  | parser hq hstep => exact h.parserStep hs hi hq hstep
  | manager hm hstep => exact h.managerStep hs hi hm hstep
  | cleaned => exact h.congr rfl rfl

/-- **Starving is for ever**, over every run and whatever `pipe_depth` is read. -/
theorem StarvedAt.forever {ok : PipelineCall → Prop} (hs : PipelineInv mode gNums pNums numbers s)
    (hg : 0 < gNums) (hle : gNums ≤ pNums) (hi : i < gNums) (h : StarvedAt pNums s i)
    (hreach : (pipeline mode cfg gNums pNums numbers).Reaches ok s s') : StarvedAt pNums s' i := by
  have hboth := hreach.induction
    (fun t => PipelineInv mode gNums pNums numbers t ∧ StarvedAt pNums t i)
    (fun t call t' _ ht _ hstep => by
      have hcase := pipelineStep_cases hstep
      exact ⟨ht.1.step hg hle hcase, ht.2.step ht.1 hi hcase⟩) ⟨hs, h⟩
  exact hboth.2

end Forever

/-! ## §3. At most 16 parsers to a generator. -/

/-- A generator feeds at most as many parsers as there are multiples of
    `gNums` to get past. -/
theorem feeds_card_le {gNums pNums n : Nat} (hle : pNums ≤ n * gNums) (i : Nat) :
    ((Finset.range pNums).filter (fun q => q % gNums = i)).card ≤ n := by
  have hinj : Set.InjOn (fun q => q / gNums)
      ((Finset.range pNums).filter (fun q => q % gNums = i) : Finset Nat) := by
    intro q hq r hr heq
    have hqi : q % gNums = i := (Finset.mem_filter.mp hq).2
    have hri : r % gNums = i := (Finset.mem_filter.mp hr).2
    have hdiv : q / gNums = r / gNums := heq
    rw [← Nat.div_add_mod q gNums, ← Nat.div_add_mod r gNums, hdiv, hqi, hri]
  rw [← Finset.card_image_of_injOn hinj]
  have hsub : ((Finset.range pNums).filter (fun q => q % gNums = i)).image (fun q => q / gNums)
      ⊆ Finset.range n := by
    intro k hk
    obtain ⟨q, hq, hqk⟩ := Finset.mem_image.mp hk
    have hlt : q < pNums := Finset.mem_range.mp (Finset.mem_filter.mp hq).1
    rw [Finset.mem_range, ← hqk]
    apply Nat.div_lt_of_lt_mul
    rw [Nat.mul_comm]
    omega
  have hcard := Finset.card_le_card hsub
  rw [Finset.card_range] at hcard
  exact hcard

section Pigeonhole

variable {mode : Mode} {gNums pNums : Nat} {numbers : UInt32} {s : Stages}

/-- **The pigeonhole**: 16 queues of at most 63 packets hold at most 1008. -/
theorem Owned.not_starved (hs : Owned mode gNums pNums numbers s)
    (hle : pNums ≤ 16 * gNums) : ¬ Starved gNums pNums s := by
  rintro ⟨i, _, _, hall, hshort⟩
  have hqueue : ∀ q ∈ Finset.range pNums,
      (s.parserQueue q).countP (fun packet => packet.addr.1 == i)
        ≤ if q % gNums = i then batch - 1 else 0 := by
    intro q hq
    have hq' := Finset.mem_range.mp hq
    by_cases hsome : ∃ packet ∈ s.parserQueue q, packet.addr.1 = i
    · have hlen := hshort q hq' hsome
      obtain ⟨packet, hpacket, haddr⟩ := hsome
      have hfeeds : q % gNums = i := (hs.parserQueue q hq' packet hpacket).1.symm.trans haddr
      have hcount := List.countP_le_length (p := fun packet : PacketT => packet.addr.1 == i)
        (l := s.parserQueue q)
      rw [if_pos hfeeds]
      omega
    · -- none of generator `i`'s buffers is here
      have hzero : (s.parserQueue q).countP (fun packet => packet.addr.1 == i) = 0 := by
        rw [List.countP_eq_zero]
        intro packet hpacket heq
        exact hsome ⟨packet, hpacket, beq_iff_eq.mp heq⟩
      omega
  have hsum := Finset.sum_le_sum hqueue
  rw [← Finset.sum_filter, Finset.sum_const_nat (fun _ _ => rfl)] at hsum
  have hcard := feeds_card_le hle i
  have hbound := Nat.mul_le_mul_right (batch - 1) hcard
  have htotal : queueCapacity ≤ 16 * (batch - 1) := by
    calc queueCapacity
        = ∑ q ∈ Finset.range pNums,
            (s.parserQueue q).countP (fun packet => packet.addr.1 == i) := hall.symm
      _ ≤ ((Finset.range pNums).filter (fun q => q % gNums = i)).card * (batch - 1) := hsum
      _ ≤ 16 * (batch - 1) := hbound
  exact absurd htotal (by decide)

end Pigeonhole

/-! ## §4. More than 16 parsers to generator 0. -/

section Spread

variable {mode : Mode} {cfg : Config} {gNums pNums : Nat} {numbers : UInt32} {s : Stages}

/-- A generator that is not held up takes a packet and sends it on. -/
theorem reaches_sent {i : Nat} (hi : i < gNums) (hpc : s.generatorPc i = .idle)
    {packet packet' : PacketT} {pool : List PacketT} (hpool : s.generatorPool i = packet :: pool)
    {input : Input} (hfill : fillPacket mode i packet input = some packet')
    (hroom : (s.parserQueue (s.nextThreadId i)).length < queueCapacity) :
    (pipeline mode cfg gNums pNums numbers).Reaches PipelineCall.DeepEnough s
      { s with
        generatorPool := Function.update s.generatorPool i pool
        generatorPc := Function.update s.generatorPc i .idle
        nextThreadId := Function.update s.nextThreadId i
          (if s.nextThreadId i + gNums < pNums then s.nextThreadId i + gNums else i)
        parserQueue := Function.update s.parserQueue (s.nextThreadId i)
          (s.parserQueue (s.nextThreadId i) ++ [packet']) } := by
  have hdeep : (PipelineCall.generator i 2 input).DeepEnough := by
    show (2 : Int32) ≤ 2
    decide
  have hdepth : (2 : Int32) > 1 := by decide
  obtain ⟨s₁, s₂, htake, _, hchoose, _, hsend⟩ :=
    steps_sent mode cfg pNums numbers hi hpc hpool hfill hroom hdepth
  have hstart : (pipeline mode cfg gNums pNums numbers).Reaches PipelineCall.DeepEnough s s := .refl
  exact ((hstart.step hdeep htake).step hdeep hchoose).step hdeep hsend

/-- Generator 0 after sending `n` packets while no parser moved: `K` queues
    got `a` each, and those before `next_thread_id` one more. -/
structure Spread (gNums pNums K n : Nat) (s : Stages) : Prop where
  idle : s.generatorPc 0 = .idle
  left : (s.generatorPool 0).length + n = queueCapacity
  sent : total pNums s.parserQueue (fun packet => packet.addr.1 == 0) = n
  even : ∃ a r, n = K * a + r ∧ r < K ∧ s.nextThreadId 0 = r * gNums
    ∧ ∀ q < pNums, (s.parserQueue q).length ≤ a + if q < r * gNums then 1 else 0

/-- The queues stay short: 1024 packets over 17 queues or more. -/
theorem spread_short {K a r n : Nat} (hn : n = K * a + r) (hK : 16 < K)
    (hcap : n ≤ queueCapacity) : a + 1 < batch := by
  have h17 : 17 * a ≤ K * a := Nat.mul_le_mul_right a hK
  unfold queueCapacity at hcap
  unfold batch
  omega

/-- **One more packet sent** keeps the spread even. -/
theorem Spread.next {K n : Nat} (hs : PipelineInv mode gNums pNums numbers s) (hg : 0 < gNums)
    (hK : ∀ t, t < K ↔ t * gNums < pNums) (h16 : 16 < K)
    (h : Spread gNums pNums K n s) (hn : n < queueCapacity) :
    ∃ s', (pipeline mode cfg gNums pNums numbers).Reaches PipelineCall.DeepEnough s s'
      ∧ Spread gNums pNums K (n + 1) s' := by
  obtain ⟨a, r, hsum, hr, hnext, heven⟩ := h.even
  have hlt : r * gNums < pNums := (hK r).mp hr
  have hshort := spread_short hsum h16 (Nat.le_of_lt hn)
  have hleft := h.left
  obtain ⟨packet, pool, hpool⟩ : ∃ packet pool, s.generatorPool 0 = packet :: pool :=
    List.exists_cons_of_length_pos (by omega)
  obtain ⟨input, packet', hfill⟩ := exists_fillPacket mode 0 packet
  have hhome := hs.owned.generatorPool 0 hg packet (by rw [hpool]; exact List.mem_cons_self)
  have hof := (fillPacket_of hfill hhome).2
  -- the queue that is next in turn has `a` packets, so there is room
  have hlen := heven (r * gNums) hlt
  rw [if_neg (Nat.lt_irrefl _)] at hlen
  have hroom : (s.parserQueue (s.nextThreadId 0)).length < queueCapacity := by
    rw [hnext]
    unfold batch at hshort
    unfold queueCapacity
    omega
  refine ⟨_, reaches_sent hg h.idle hpool hfill hroom, ?_, ?_, ?_, ?_⟩
  · show Function.update s.generatorPc 0 .idle 0 = .idle
    rw [Function.update_self]
  · -- one packet fewer in the pool, one more sent
    show (Function.update s.generatorPool 0 pool 0).length + (n + 1) = queueCapacity
    rw [Function.update_self]
    rw [hpool, List.length_cons] at hleft
    omega
  · have hupd := total_update hlt s.parserQueue (s.parserQueue (r * gNums) ++ [packet'])
      (fun packet => packet.addr.1 == 0)
    have hone : [packet'].countP (fun packet => packet.addr.1 == 0) = 1 :=
      countP_owner (each_singleton hof)
    have hsent := h.sent
    rw [List.countP_append, hone] at hupd
    show total pNums (Function.update s.parserQueue (s.nextThreadId 0)
      (s.parserQueue (s.nextThreadId 0) ++ [packet'])) _ = n + 1
    rw [hnext]
    omega
  · -- the queue at `next_thread_id` catches up with those before it
    have hsucc : (r + 1) * gNums = r * gNums + gNums := Nat.succ_mul r gNums
    have hqueue : ∀ q < pNums, (Function.update s.parserQueue (r * gNums)
        (s.parserQueue (r * gNums) ++ [packet']) q).length
          ≤ a + if q < r * gNums + gNums then 1 else 0 := by
      intro q hq
      have hold := heven q hq
      by_cases hqr : q = r * gNums
      · rw [hqr, Function.update_self, List.length_append, List.length_singleton,
          if_pos (by omega)]
        omega
      · rw [Function.update_of_ne hqr]
        split at hold <;> split <;> omega
    show ∃ a' r', n + 1 = K * a' + r' ∧ r' < K
      ∧ Function.update s.nextThreadId 0
          (if s.nextThreadId 0 + gNums < pNums then s.nextThreadId 0 + gNums else 0) 0 = r' * gNums
      ∧ ∀ q < pNums, (Function.update s.parserQueue (s.nextThreadId 0)
          (s.parserQueue (s.nextThreadId 0) ++ [packet']) q).length
            ≤ a' + if q < r' * gNums then 1 else 0
    rw [Function.update_self, hnext]
    by_cases hmore : r + 1 < K
    · -- the turn goes on with the next queue of the lane
      have hgo : r * gNums + gNums < pNums := by
        rw [← hsucc]
        exact (hK (r + 1)).mp hmore
      refine ⟨a, r + 1, by omega, hmore, ?_, ?_⟩
      · rw [if_pos hgo, hsucc]
      · rw [hsucc]
        exact hqueue
    · -- the turn is over: all queues have `a + 1`
      have hwrap : ¬ r * gNums + gNums < pNums := by
        rw [← hsucc]
        exact fun hgo => hmore ((hK (r + 1)).mpr hgo)
      refine ⟨a + 1, 0, ?_, by omega, ?_, ?_⟩
      · rw [Nat.mul_add, Nat.mul_one]
        omega
      · rw [if_neg hwrap, Nat.zero_mul]
      · intro q hq
        have hle := hqueue q hq
        split at hle <;> omega

/-- After any number of packets up to all of them. -/
theorem reaches_spread {K n : Nat} (hs : PipelineInv mode gNums pNums numbers s)
    (hg : 0 < gNums) (hle : gNums ≤ pNums) (hK : ∀ t, t < K ↔ t * gNums < pNums) (h16 : 16 < K)
    (h : Spread gNums pNums K 0 s) (hn : n ≤ queueCapacity) :
    ∃ s', (pipeline mode cfg gNums pNums numbers).Reaches PipelineCall.DeepEnough s s'
      ∧ Spread gNums pNums K n s' := by
  induction n with
  | zero => exact ⟨s, .refl, h⟩
  | succ n ih =>
      obtain ⟨s₁, hreach₁, hspread⟩ := ih (by omega)
      obtain ⟨s₂, hreach₂, hnext⟩ := hspread.next (pipelineInv_reaches hg hle hs hreach₁) hg hK h16
        (by omega)
      exact ⟨s₂, hreach₁.trans hreach₂, hnext⟩

/-- Generator 0 has sent all it had. -/
theorem Spread.starvedAt {K : Nat} (h16 : 16 < K) (h : Spread gNums pNums K queueCapacity s) :
    StarvedAt pNums s 0 := by
  obtain ⟨a, r, hsum, _, _, heven⟩ := h.even
  have hshort := spread_short hsum h16 (le_refl _)
  have hleft := h.left
  refine ⟨List.eq_nil_of_length_eq_zero (by omega), h.sent, ?_⟩
  intro q hq _
  have hlen := heven q hq
  split at hlen <;> omega

end Spread

/-- **Beyond 16 parsers a generator starves** in some run. -/
theorem reaches_starved {mode : Mode} {cfg : Config} {gNums pNums : Nat} {numbers : UInt32}
    (hg : 0 < gNums) (hle : gNums ≤ pNums) (hmore : 16 * gNums < pNums) (pktlen : UInt32)
    (handler : PacketT → Nat → UInt8) (packets : Nat → Nat → PacketT)
    (flows : Nat → Nat → FlowItem) (table : Nat → Manager) :
    ∃ s, (pipeline mode cfg gNums pNums numbers).Reaches PipelineCall.DeepEnough
        (startStages mode pktlen handler packets flows table) s
      ∧ Starved gNums pNums s := by
  obtain ⟨s₀, hs₀⟩ : ∃ s₀, s₀ = startStages mode pktlen handler packets flows table := ⟨_, rfl⟩
  have hinv : PipelineInv mode gNums pNums numbers s₀ := by
    rw [hs₀]
    exact pipelineInv_start hle pktlen handler packets flows table
  -- `K` parsers are fed by generator 0
  have hK : ∀ t, t < (pNums - 1) / gNums + 1 ↔ t * gNums < pNums := by
    intro t
    rw [Nat.lt_succ_iff, Nat.le_div_iff_mul_le hg]
    omega
  have h16 := (hK 16).mpr hmore
  have hstart : Spread gNums pNums ((pNums - 1) / gNums + 1) 0 s₀ := by
    rw [hs₀]
    refine ⟨rfl, ?_, total_nil _ _, 0, 0, rfl, Nat.succ_pos _, ?_, ?_⟩
    · rw [startStages_generatorPool_length, Nat.add_zero]
    · rw [Nat.zero_mul]
      rfl
    · intro q _
      exact Nat.zero_le _
  have hall : ∃ s, (pipeline mode cfg gNums pNums numbers).Reaches PipelineCall.DeepEnough s₀ s
      ∧ Spread gNums pNums ((pNums - 1) / gNums + 1) queueCapacity s :=
    reaches_spread hinv hg hle hK h16 hstart (le_refl queueCapacity)
  obtain ⟨s, hreach, hspread⟩ := hall
  rw [← hs₀]
  exact ⟨s, hreach, 0, hg, hspread.starvedAt h16⟩

/-! ## §5. The exact condition. -/

/-- **NO GENERATOR STARVES EXACTLY WHEN EACH FEEDS AT MOST 16 PARSERS**, over
    every run with `1 <= G <= P` and `pipe_depth >= 2`. -/
theorem pipeline_neverStarves_iff {mode : Mode} {cfg : Config} {gNums pNums : Nat}
    {numbers : UInt32} (hg : 1 ≤ gNums) (hle : gNums ≤ pNums) (pktlen : UInt32)
    (handler : PacketT → Nat → UInt8) (packets : Nat → Nat → PacketT)
    (flows : Nat → Nat → FlowItem) (table : Nat → Manager) :
    (∀ s, (pipeline mode cfg gNums pNums numbers).Reaches PipelineCall.DeepEnough
        (startStages mode pktlen handler packets flows table) s → ¬ Starved gNums pNums s)
      ↔ pNums ≤ 16 * gNums := by
  constructor
  · intro hnever
    by_contra hmore
    have hstarve : ∃ s, (pipeline mode cfg gNums pNums numbers).Reaches PipelineCall.DeepEnough
          (startStages mode pktlen handler packets flows table) s ∧ Starved gNums pNums s :=
      reaches_starved hg hle (Nat.lt_of_not_le hmore) pktlen handler packets flows table
    obtain ⟨s, hreach, hbad⟩ := hstarve
    exact hnever s hreach hbad
  · intro hfew s hreach
    have hstart : PipelineInv mode gNums pNums numbers
        (startStages mode pktlen handler packets flows table) :=
      pipelineInv_start hle pktlen handler packets flows table
    exact (pipelineInv_reaches hg hle hstart hreach).owned.not_starved hfew

/-- One generator and one parser never starve each other. -/
theorem oneOfEach_neverStarves :
    1 ≤ 16 * 1 ∧ ∀ s, (pipeline .generator (Session.sourceConfig 65536 1000) 1 1 1).Reaches
      PipelineCall.DeepEnough oneOfEach s → ¬ Starved 1 1 s :=
  ⟨by decide, (pipeline_neverStarves_iff (le_refl 1) (le_refl 1) 60 (fun _ _ => 0)
    (fun _ _ => blankPacket) (fun _ _ => blankFlow) Session.freshManager).mpr (by decide)⟩

/-- **One generator with 17 parsers starves.** -/
theorem seventeenParsers_starve :
    ¬ ∀ s, (pipeline .generator (Session.sourceConfig 65536 1000) 1 17 1).Reaches
      PipelineCall.DeepEnough oneOfEach s → ¬ Starved 1 17 s := by
  intro hnever
  have hstarve : ∃ s, (pipeline .generator (Session.sourceConfig 65536 1000) 1 17 1).Reaches
      PipelineCall.DeepEnough oneOfEach s ∧ Starved 1 17 s :=
    reaches_starved Nat.one_pos (by decide) (by decide) 60 (fun _ _ => 0) (fun _ _ => blankPacket)
      (fun _ _ => blankFlow) Session.freshManager
  obtain ⟨s, hreach, hbad⟩ := hstarve
  exact hnever s hreach hbad

end FreePacket.Pipeline
