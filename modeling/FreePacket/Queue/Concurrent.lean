/-
  FreePacket.Queue.Concurrent
  ───────────────────────────
  **ONE SENDER AND ONE RECEIVER AT A TIME, their steps interleaved.**

  `NAME##_enqueue` runs under `enqueue_mutex` and `NAME##_dequeue` under
  `dequeue_mutex`, so a call on one side meets half-finished calls of the
  other.  Here the check, the slot access and the two increments of a call
  are steps of their own, and any number of threads compete for the mutexes.
  This is how `mwsr_queue` and `mwsr_mpool` are used: on them only the single
  operations are ever called.

  A run is read through its events.  A value is `admitted` by the room check
  and `accepted` by the increment of `enqueue_count`; it is `delivered` by the
  load of its slot and `released` by the increment of `dequeue_count`.  The
  counters count the accepted and the released values modulo 2^64
  (`InStep`), and everything else follows from that.

  Main result: `concurrentRun_exactlyOnce`.
-/
import FreePacket.Lib.Ring
import FreePacket.Queue.Refinement

namespace FreePacket.Queue

open FreePacket.Lib

variable {α : Type}

/-! ## §1. The two critical sections. -/

/-- Where the thread that holds `enqueue_mutex` is. -/
inductive EnqueuePc (α : Type) where
  /-- At the room check. -/
  | checking (data : α)
  /-- At `queue->node[i] = data`. -/
  | storing (data : α)
  /-- At `++queue->enqueue_count`. -/
  | counting (data : α)
  /-- At `++queue->length`. -/
  | lengthening
  /-- At the unlock, with the return code. -/
  | leaving (result : Int)

/-- Where the thread that holds `dequeue_mutex` is. -/
inductive DequeuePc (α : Type) where
  /-- At the emptiness check. -/
  | checking
  /-- At `*data = queue->node[i]`. -/
  | loading
  /-- At `++queue->dequeue_count`, with the value just loaded. -/
  | counting (data : α)
  /-- At `--queue->length`. -/
  | shortening
  /-- At the unlock, with the return code. -/
  | leaving (result : Int)

/-- The queue, and who holds its mutexes. -/
structure Concurrent (α : Type) where
  queue : IntelQueue α
  sender : Option (Nat × EnqueuePc α)
  receiver : Option (Nat × DequeuePc α)

/-- One atomic step of some thread. -/
inductive Action (α : Type) where
  /-- Thread `t` calls `NAME##_enqueue` and takes `enqueue_mutex`. -/
  | enqueue (t : Nat) (data : α)
  /-- The holder of `enqueue_mutex` goes on. -/
  | sender
  /-- Thread `t` calls `NAME##_dequeue` and takes `dequeue_mutex`. -/
  | dequeue (t : Nat)
  /-- The holder of `dequeue_mutex` goes on. -/
  | receiver

/-- What a step did to the stream of values. -/
inductive Event (α : Type) where
  | quiet
  | refused
  | admitted (data : α)
  | accepted (data : α)
  | empty
  | delivered (data : α)
  | released (data : α)

/-- The next step of `NAME##_enqueue`. -/
def enqueueStep (lg : Nat) (queue : IntelQueue α) :
    EnqueuePc α → IntelQueue α × Option (EnqueuePc α) × Event α
  | .checking data =>
      if queue.enqueueCount - queue.dequeueCount ≥ entries lg then
        (queue, some (.leaving (-1)), .refused)
      else (queue, some (.storing data), .admitted data)
  | .storing data =>
      ({ queue with node := Function.update queue.node (slot lg queue.enqueueCount) data },
        some (.counting data), .quiet)
  | .counting data =>
      ({ queue with enqueueCount := queue.enqueueCount + 1 }, some .lengthening, .accepted data)
  | .lengthening => ({ queue with length := queue.length + 1 }, some (.leaving 0), .quiet)
  | .leaving _ => (queue, none, .quiet)

/-- The next step of `NAME##_dequeue`. -/
def dequeueStep (lg : Nat) (queue : IntelQueue α) :
    DequeuePc α → IntelQueue α × Option (DequeuePc α) × Event α
  | .checking =>
      if queue.enqueueCount = queue.dequeueCount then (queue, some (.leaving (-1)), .empty)
      else (queue, some .loading, .quiet)
  | .loading =>
      (queue, some (.counting (queue.node (slot lg queue.dequeueCount))),
        .delivered (queue.node (slot lg queue.dequeueCount)))
  | .counting data =>
      ({ queue with dequeueCount := queue.dequeueCount + 1 }, some .shortening, .released data)
  | .shortening => ({ queue with length := queue.length - 1 }, some (.leaving 0), .quiet)
  | .leaving _ => (queue, none, .quiet)

/-- The queue under any interleaving of senders and receivers. -/
def concurrent (lg : Nat) : Machine (Concurrent α) (Action α) (Event α) where
  step s a :=
    match a with
    | .enqueue t data =>
        match s.sender with
        | none => some ({ s with sender := some (t, .checking data) }, .quiet)
        | some _ => none
    | .sender =>
        match s.sender with
        | none => none
        | some (t, pc) =>
            let r := enqueueStep lg s.queue pc
            some ({ s with queue := r.1, sender := r.2.1.map (fun pc => (t, pc)) }, r.2.2)
    | .dequeue t =>
        match s.receiver with
        | none => some ({ s with receiver := some (t, .checking) }, .quiet)
        | some _ => none
    | .receiver =>
        match s.receiver with
        | none => none
        | some (t, pc) =>
            let r := dequeueStep lg s.queue pc
            some ({ s with queue := r.1, receiver := r.2.1.map (fun pc => (t, pc)) }, r.2.2)

/-- An initialised queue nobody is using. -/
def idleQueue (node : Nat → α) : Concurrent α :=
  { queue := init node, sender := none, receiver := none }

/-! ## §2. The stream of a run. -/

/-- The values past the room check. -/
def admitted (es : List (Event α)) : List α :=
  es.filterMap fun e => match e with | .admitted x => some x | _ => none

/-- The values `enqueue_count` counts. -/
def accepted (es : List (Event α)) : List α :=
  es.filterMap fun e => match e with | .accepted x => some x | _ => none

/-- The values loaded from their slots. -/
def delivered (es : List (Event α)) : List α :=
  es.filterMap fun e => match e with | .delivered x => some x | _ => none

/-- The values `dequeue_count` counts. -/
def released (es : List (Event α)) : List α :=
  es.filterMap fun e => match e with | .released x => some x | _ => none

/-- The value a sender has admitted and not yet counted. -/
def EnqueuePc.inHand : EnqueuePc α → List α
  | .storing data | .counting data => [data]
  | _ => []

/-- The value a sender has stored and not yet counted. -/
def EnqueuePc.inSlot : EnqueuePc α → List α
  | .counting data => [data]
  | _ => []

/-- The value a receiver has loaded and not yet counted. -/
def DequeuePc.inHand : DequeuePc α → List α
  | .counting data => [data]
  | _ => []

/-- How many values a receiver past its check relies on. -/
def DequeuePc.needs : DequeuePc α → Nat
  | .loading | .counting _ => 1
  | _ => 0

/-- What a mutex holder has in hand, nothing if there is none. -/
def handOf {β : Type} (hand : β → List α) : Option (Nat × β) → List α
  | none => []
  | some (_, pc) => hand pc

theorem admitted_snoc (es : List (Event α)) (e : Event α) :
    admitted (es ++ [e]) = admitted es ++ admitted [e] := List.filterMap_append ..

theorem accepted_snoc (es : List (Event α)) (e : Event α) :
    accepted (es ++ [e]) = accepted es ++ accepted [e] := List.filterMap_append ..

theorem delivered_snoc (es : List (Event α)) (e : Event α) :
    delivered (es ++ [e]) = delivered es ++ delivered [e] := List.filterMap_append ..

theorem released_snoc (es : List (Event α)) (e : Event α) :
    released (es ++ [e]) = released es ++ released [e] := List.filterMap_append ..

/-! ## §3. The invariant. -/

/-- **The queue is in step with its stream**: `ad`, `ac`, `de` and `re` are
    the values admitted, accepted, delivered and released so far. -/
structure InStep (lg : Nat) (s : Concurrent α) (ad ac de re : List α) : Prop where
  enqueueCount_eq : s.queue.enqueueCount.toNat = ac.length % 2 ^ 64
  dequeueCount_eq : s.queue.dequeueCount.toNat = re.length % 2 ^ 64
  admitted_eq : ad = ac ++ handOf EnqueuePc.inHand s.sender
  delivered_eq : de = re ++ handOf DequeuePc.inHand s.receiver
  in_order : de <+: ac
  /-- A receiver past its check still finds the value it saw. -/
  backed : ∀ t pc, s.receiver = some (t, pc) → re.length + pc.needs ≤ ac.length
  room : ad.length ≤ re.length + 2 ^ lg
  /-- Stored values stand in their slots until they are released. -/
  holds : Holds (2 ^ lg) s.queue.node re.length
    ((ac ++ handOf EnqueuePc.inSlot s.sender).drop re.length)

section Step

variable {lg : Nat} {s : Concurrent α} {ad ac de re : List α}

theorem inStep_idle (lg : Nat) (node : Nat → α) :
    InStep lg (idleQueue node) ([] : List α) [] [] [] where
  enqueueCount_eq := rfl
  dequeueCount_eq := rfl
  admitted_eq := rfl
  delivered_eq := rfl
  in_order := List.prefix_refl _
  backed := by
    intro t pc h
    exact absurd h (by simp [idleQueue])
  room := Nat.zero_le _
  holds := holds_nil _ _ _

/-- Released values were delivered, delivered ones accepted, accepted ones admitted. -/
theorem InStep.lengths (h : InStep lg s ad ac de re) :
    re.length ≤ de.length ∧ de.length ≤ ac.length ∧ ac.length ≤ ad.length := by
  have had := congrArg List.length h.admitted_eq
  have hde := congrArg List.length h.delivered_eq
  rw [List.length_append] at had hde
  refine ⟨by omega, h.in_order.length_le, by omega⟩

/-- **The counters tell the true difference**, although each of them wraps. -/
theorem InStep.occupancy_eq (hlg : lg ≤ 30) (h : InStep lg s ad ac de re) :
    occupancy s.queue = ac.length - re.length := by
  have hle := two_pow_le hlg
  obtain ⟨h₁, h₂, h₃⟩ := h.lengths
  have hroom := h.room
  have he := h.enqueueCount_eq
  have hd := h.dequeueCount_eq
  rw [Queue.occupancy_eq, he, hd]
  omega

/-- The room check sees the released values only, so it errs on the safe side. -/
theorem InStep.full_iff (hlg : lg ≤ 30) (h : InStep lg s ad ac de re) :
    s.queue.enqueueCount - s.queue.dequeueCount ≥ entries lg
      ↔ re.length + 2 ^ lg ≤ ac.length := by
  have hocc := h.occupancy_eq hlg
  obtain ⟨h₁, h₂, _⟩ := h.lengths
  have hpos : 0 < 2 ^ lg := Nat.two_pow_pos lg
  unfold occupancy at hocc
  rw [ge_iff_le, UInt64.le_iff_toNat_le, entries_toNat hlg, hocc]
  omega

theorem InStep.empty_iff (hlg : lg ≤ 30) (h : InStep lg s ad ac de re) :
    s.queue.enqueueCount = s.queue.dequeueCount ↔ ac.length = re.length := by
  have hle := two_pow_le hlg
  obtain ⟨h₁, h₂, h₃⟩ := h.lengths
  have hroom := h.room
  rw [← UInt64.toNat_inj, h.enqueueCount_eq, h.dequeueCount_eq]
  omega

/-- The slot a sender computes is the one behind all accepted values. -/
theorem InStep.write_slot (hlg : lg ≤ 30) (h : InStep lg s ad ac de re) :
    slot lg s.queue.enqueueCount = ac.length % 2 ^ lg := by
  rw [slot_eq hlg, h.enqueueCount_eq, mod_two_pow_64 hlg]

/-- The slot a receiver computes is the one of the oldest unreleased value. -/
theorem InStep.read_slot (hlg : lg ≤ 30) (h : InStep lg s ad ac de re) :
    slot lg s.queue.dequeueCount = re.length % 2 ^ lg := by
  rw [slot_eq hlg, h.dequeueCount_eq, mod_two_pow_64 hlg]

/-- A step that neither moves a value nor a counter. -/
theorem InStep.rests (h : InStep lg s ad ac de re) {s' : Concurrent α}
    (hqueue : s'.queue = { s.queue with length := s'.queue.length })
    (hhand : handOf EnqueuePc.inHand s'.sender = handOf EnqueuePc.inHand s.sender)
    (hslot : handOf EnqueuePc.inSlot s'.sender = handOf EnqueuePc.inSlot s.sender)
    (hloaded : handOf DequeuePc.inHand s'.receiver = handOf DequeuePc.inHand s.receiver)
    (hneeds : ∀ t pc, s'.receiver = some (t, pc) → re.length + pc.needs ≤ ac.length) :
    InStep lg s' ad ac de re := by
  refine ⟨?_, ?_, ?_, ?_, h.in_order, hneeds, h.room, ?_⟩
  · rw [hqueue]
    exact h.enqueueCount_eq
  · rw [hqueue]
    exact h.dequeueCount_eq
  · rw [hhand]
    exact h.admitted_eq
  · rw [hloaded]
    exact h.delivered_eq
  · rw [hslot, hqueue]
    exact h.holds

/-- A sender passes the room check. -/
theorem InStep.admits (hlg : lg ≤ 30) (h : InStep lg s ad ac de re) {t : Nat} {data : α}
    (hs : s.sender = some (t, .checking data))
    (hfree : ¬ s.queue.enqueueCount - s.queue.dequeueCount ≥ entries lg) :
    InStep lg { s with sender := some (t, .storing data) } (ad ++ [data]) ac de re := by
  have hhand := h.admitted_eq
  have hheld := h.holds
  rw [hs] at hhand hheld
  rw [h.full_iff hlg] at hfree
  have had : ad = ac := by
    rw [hhand]
    exact List.append_nil _
  refine { h with admitted_eq := ?_, room := ?_, holds := hheld }
  · rw [had]
    rfl
  · rw [List.length_append, had, List.length_singleton]
    omega

/-- A sender writes its slot: the first one behind the values not yet released. -/
theorem InStep.stores (hlg : lg ≤ 30) (h : InStep lg s ad ac de re) {t : Nat} {data : α}
    (hs : s.sender = some (t, .storing data)) :
    InStep lg
      { s with
          queue := { s.queue with
            node := Function.update s.queue.node (slot lg s.queue.enqueueCount) data }
          sender := some (t, .counting data) }
      ad ac de re := by
  have hhand := h.admitted_eq
  have hheld := h.holds
  have hroom := h.room
  obtain ⟨h₁, h₂, _⟩ := h.lengths
  rw [hs] at hhand hheld
  rw [hhand] at hroom
  simp only [handOf, EnqueuePc.inHand, EnqueuePc.inSlot, List.length_append,
    List.length_singleton, List.append_nil] at hroom hheld
  refine { h with admitted_eq := hhand, holds := ?_ }
  -- the counters are at most a queue apart, so the slot holds no value still wanted
  have hsnoc := holds_snoc data hheld (by rw [List.length_drop]; omega)
  have hcell : (re.length + (ac.drop re.length).length) % 2 ^ lg
      = slot lg s.queue.enqueueCount := by
    rw [h.write_slot hlg, List.length_drop]
    congr 1
    omega
  rw [hcell] at hsnoc
  show Holds (2 ^ lg) (Function.update s.queue.node (slot lg s.queue.enqueueCount) data)
    re.length ((ac ++ [data]).drop re.length)
  rw [List.drop_append_of_le_length (by omega)]
  exact hsnoc

/-- A sender counts the value it has stored: it is accepted. -/
theorem InStep.counts (h : InStep lg s ad ac de re) {t : Nat} {data : α}
    (hs : s.sender = some (t, .counting data)) :
    InStep lg
      { s with
          queue := { s.queue with enqueueCount := s.queue.enqueueCount + 1 }
          sender := some (t, .lengthening) }
      ad (ac ++ [data]) de re := by
  have hhand := h.admitted_eq
  have hheld := h.holds
  have he := h.enqueueCount_eq
  rw [hs] at hhand hheld
  refine { h with
    enqueueCount_eq := ?_, admitted_eq := ?_, in_order := ?_, backed := ?_, holds := ?_ }
  · simp only [UInt64.toNat_add, UInt64.toNat_one, List.length_append, List.length_singleton]
    omega
  · rw [hhand]
    exact (List.append_nil _).symm
  · exact h.in_order.trans (List.prefix_append _ _)
  · -- what a receiver relied on before is still there
    intro t' pc' hpc
    have hback := h.backed t' pc' hpc
    rw [List.length_append]
    omega
  · show Holds _ _ _ (((ac ++ [data]) ++ []).drop re.length)
    rw [List.append_nil]
    exact hheld

/-- **A step of the sender.** -/
theorem InStep.senderStep (hlg : lg ≤ 30) (h : InStep lg s ad ac de re) {t : Nat}
    {pc : EnqueuePc α} (hs : s.sender = some (t, pc)) :
    InStep lg
      { s with
          queue := (enqueueStep lg s.queue pc).1
          sender := (enqueueStep lg s.queue pc).2.1.map (fun pc => (t, pc)) }
      (ad ++ admitted [(enqueueStep lg s.queue pc).2.2])
      (ac ++ accepted [(enqueueStep lg s.queue pc).2.2])
      (de ++ delivered [(enqueueStep lg s.queue pc).2.2])
      (re ++ released [(enqueueStep lg s.queue pc).2.2]) := by
  -- the count is written in `counting`: only there the value becomes visible
  cases pc with
  | checking data =>
      by_cases hfull : s.queue.enqueueCount - s.queue.dequeueCount ≥ entries lg
      · simp only [enqueueStep, if_pos hfull]
        show InStep lg _ (ad ++ []) (ac ++ []) (de ++ []) (re ++ [])
        simp only [List.append_nil]
        exact h.rests rfl (by rw [hs]; rfl) (by rw [hs]; rfl) rfl h.backed
      · simp only [enqueueStep, if_neg hfull]
        show InStep lg _ (ad ++ [data]) (ac ++ []) (de ++ []) (re ++ [])
        simp only [List.append_nil]
        exact h.admits hlg hs hfull
  | storing data =>
      show InStep lg _ (ad ++ []) (ac ++ []) (de ++ []) (re ++ [])
      simp only [List.append_nil]
      exact h.stores hlg hs
  | counting data =>
      show InStep lg _ (ad ++ []) (ac ++ [data]) (de ++ []) (re ++ [])
      simp only [List.append_nil]
      exact h.counts hs
  | lengthening =>
      show InStep lg _ (ad ++ []) (ac ++ []) (de ++ []) (re ++ [])
      simp only [List.append_nil]
      exact h.rests rfl (by rw [hs]; rfl) (by rw [hs]; rfl) rfl h.backed
  | leaving result =>
      show InStep lg _ (ad ++ []) (ac ++ []) (de ++ []) (re ++ [])
      simp only [List.append_nil]
      exact h.rests rfl (by rw [hs]; rfl) (by rw [hs]; rfl) rfl h.backed

/-- A receiver loads its slot: the oldest value not yet released. -/
theorem InStep.loads (hlg : lg ≤ 30) (h : InStep lg s ad ac de re) {t : Nat}
    (hs : s.receiver = some (t, .loading)) :
    InStep lg
      { s with receiver := some (t, .counting (s.queue.node (slot lg s.queue.dequeueCount))) }
      ad ac (de ++ [s.queue.node (slot lg s.queue.dequeueCount)]) re := by
  have hloaded := h.delivered_eq
  have hback := h.backed t .loading hs
  have horder := h.in_order
  rw [hs] at hloaded
  have hde : de = re := by
    rw [hloaded]
    exact List.append_nil _
  have hlt : re.length < ac.length := hback
  -- position 0 of the held values is position `re.length` of the accepted ones
  have hvalue : s.queue.node (slot lg s.queue.dequeueCount) = ac[re.length] := by
    have hhead := h.holds 0 (by
      rw [List.length_drop, List.length_append]
      omega)
    rw [Nat.add_zero] at hhead
    rw [h.read_slot hlg, hhead, List.getElem_drop]
    exact List.getElem_append_left (by omega)
  refine { h with delivered_eq := ?_, in_order := ?_, backed := ?_ }
  · rw [hde]
    rfl
  · rw [hvalue, hde]
    rw [hde] at horder
    have htake : re = ac.take re.length := List.prefix_iff_eq_take.mp horder
    have hnext : re ++ [ac[re.length]] = ac.take (re.length + 1) := by
      rw [List.take_succ_eq_append_getElem hlt, ← htake]
    rw [hnext]
    exact List.take_prefix _ _
  · intro t' pc' hpc
    simp only [Option.some.injEq, Prod.mk.injEq] at hpc
    rw [← hpc.2]
    exact hback

/-- A receiver counts the value it has loaded: its slot is free again. -/
theorem InStep.releases (h : InStep lg s ad ac de re) {t : Nat} {data : α}
    (hs : s.receiver = some (t, .counting data)) :
    InStep lg
      { s with
          queue := { s.queue with dequeueCount := s.queue.dequeueCount + 1 }
          receiver := some (t, .shortening) }
      ad ac de (re ++ [data]) := by
  have hloaded := h.delivered_eq
  have hback := h.backed t _ hs
  have hd := h.dequeueCount_eq
  have hroom := h.room
  have hheld := holds_drop 1 h.holds
  rw [hs] at hloaded
  refine { h with
    dequeueCount_eq := ?_, delivered_eq := ?_, backed := ?_, room := ?_, holds := ?_ }
  · simp only [UInt64.toNat_add, UInt64.toNat_one, List.length_append, List.length_singleton]
    omega
  · rw [hloaded]
    exact (List.append_nil _).symm
  · intro t' pc' hpc
    simp only [Option.some.injEq, Prod.mk.injEq] at hpc
    rw [← hpc.2, List.length_append]
    exact hback
  · rw [List.length_append, List.length_singleton]
    omega
  · rw [List.drop_drop] at hheld
    rw [List.length_append, List.length_singleton]
    exact hheld

/-- **A step of the receiver.** -/
theorem InStep.receiverStep (hlg : lg ≤ 30) (h : InStep lg s ad ac de re) {t : Nat}
    {pc : DequeuePc α} (hs : s.receiver = some (t, pc)) :
    InStep lg
      { s with
          queue := (dequeueStep lg s.queue pc).1
          receiver := (dequeueStep lg s.queue pc).2.1.map (fun pc => (t, pc)) }
      (ad ++ admitted [(dequeueStep lg s.queue pc).2.2])
      (ac ++ accepted [(dequeueStep lg s.queue pc).2.2])
      (de ++ delivered [(dequeueStep lg s.queue pc).2.2])
      (re ++ released [(dequeueStep lg s.queue pc).2.2]) := by
  have hlens := h.lengths
  -- outside its two middle steps a receiver relies on nothing
  have hfree : ∀ pc' : DequeuePc α, pc'.needs = 0 →
      ∀ t' pc'', (some (t, pc') : Option (Nat × DequeuePc α)) = some (t', pc'') →
        re.length + pc''.needs ≤ ac.length := by
    intro pc' hneeds t' pc'' heq
    simp only [Option.some.injEq, Prod.mk.injEq] at heq
    rw [← heq.2, hneeds]
    omega
  cases pc with
  | checking =>
      by_cases hempty : s.queue.enqueueCount = s.queue.dequeueCount
      · simp only [dequeueStep, if_pos hempty]
        show InStep lg _ (ad ++ []) (ac ++ []) (de ++ []) (re ++ [])
        simp only [List.append_nil]
        exact h.rests rfl rfl rfl (by rw [hs]; rfl) (hfree _ rfl)
      · simp only [dequeueStep, if_neg hempty]
        show InStep lg _ (ad ++ []) (ac ++ []) (de ++ []) (re ++ [])
        simp only [List.append_nil]
        refine h.rests rfl rfl rfl (by rw [hs]; rfl) ?_
        intro t' pc' heq
        simp only [Option.map_some, Option.some.injEq, Prod.mk.injEq] at heq
        rw [h.empty_iff hlg] at hempty
        rw [← heq.2]
        show re.length + 1 ≤ ac.length
        omega
  | loading =>
      show InStep lg _ (ad ++ []) (ac ++ []) (de ++ [_]) (re ++ [])
      simp only [List.append_nil]
      exact h.loads hlg hs
  | counting data =>
      show InStep lg _ (ad ++ []) (ac ++ []) (de ++ []) (re ++ [data])
      simp only [List.append_nil]
      exact h.releases hs
  | shortening =>
      show InStep lg _ (ad ++ []) (ac ++ []) (de ++ []) (re ++ [])
      simp only [List.append_nil]
      exact h.rests rfl rfl rfl (by rw [hs]; rfl) (hfree _ rfl)
  | leaving result =>
      show InStep lg _ (ad ++ []) (ac ++ []) (de ++ []) (re ++ [])
      simp only [List.append_nil]
      refine h.rests rfl rfl rfl (by rw [hs]; rfl) ?_
      intro t' pc' heq
      exact absurd heq (by simp [dequeueStep])

/-- **Every step of every thread** keeps the queue in step with its stream. -/
theorem InStep.step (hlg : lg ≤ 30) {es : List (Event α)}
    (h : InStep lg s (admitted es) (accepted es) (delivered es) (released es)) {a : Action α}
    {s' : Concurrent α} {e : Event α} (hstep : (concurrent lg).step s a = some (s', e)) :
    InStep lg s' (admitted (es ++ [e])) (accepted (es ++ [e])) (delivered (es ++ [e]))
      (released (es ++ [e])) := by
  rw [admitted_snoc, accepted_snoc, delivered_snoc, released_snoc]
  cases a with
  | enqueue t data =>
      simp only [concurrent] at hstep
      split at hstep
      · -- taking the lock is seen by nobody
        rename_i hs
        obtain ⟨rfl, rfl⟩ := Prod.mk.inj (Option.some.inj hstep)
        show InStep lg _ (_ ++ []) (_ ++ []) (_ ++ []) (_ ++ [])
        simp only [List.append_nil]
        exact h.rests rfl (by rw [hs]; rfl) (by rw [hs]; rfl) rfl h.backed
      · exact absurd hstep (by simp)
  | sender =>
      simp only [concurrent] at hstep
      split at hstep
      · exact absurd hstep (by simp)
      · rename_i t pc hs
        obtain ⟨rfl, rfl⟩ := Prod.mk.inj (Option.some.inj hstep)
        exact h.senderStep hlg hs
  | dequeue t =>
      simp only [concurrent] at hstep
      split at hstep
      · rename_i hs
        obtain ⟨rfl, rfl⟩ := Prod.mk.inj (Option.some.inj hstep)
        show InStep lg _ (_ ++ []) (_ ++ []) (_ ++ []) (_ ++ [])
        simp only [List.append_nil]
        refine h.rests rfl rfl rfl (by rw [hs]; rfl) ?_
        intro t' pc' heq
        obtain ⟨_, rfl⟩ := Prod.mk.inj (Option.some.inj heq)
        have hlens := h.lengths
        show (released es).length + 0 ≤ _
        omega
      · exact absurd hstep (by simp)
  | receiver =>
      simp only [concurrent] at hstep
      split at hstep
      · exact absurd hstep (by simp)
      · rename_i t pc hs
        obtain ⟨rfl, rfl⟩ := Prod.mk.inj (Option.some.inj hstep)
        exact h.receiverStep hlg hs

theorem inStep_run (hlg : lg ≤ 30) {node : Nat → α} {as : List (Action α)} {es : List (Event α)}
    (hrun : (concurrent lg).run (idleQueue node) as = some (s, es)) :
    InStep lg s (admitted es) (accepted es) (delivered es) (released es) :=
  (concurrent lg).run_trace_induction
    (fun _ es s => InStep lg s (admitted es) (accepted es) (delivered es) (released es))
    (fun _ _ _ _ _ _ h hstep => h.step hlg hstep) hrun (inStep_idle lg node)

end Step

/-! ## §4. Exactly once, in order. -/

/-- What any interleaving guarantees of the values a queue has carried. -/
structure ExactlyOnce (lg : Nat) (s : Concurrent α) (es : List (Event α)) : Prop where
  /-- Values come out in the order they went in, none twice and none left out. -/
  in_order : delivered es <+: accepted es
  /-- What is still inside fits the queue. -/
  remainder : (accepted es).length ≤ (delivered es).length + 2 ^ lg
  /-- So it does from the room check on and up to the last increment. -/
  in_flight : (admitted es).length ≤ (released es).length + 2 ^ lg
  /-- The last increment comes after the delivery. -/
  released_after : released es <+: delivered es
  /-- Every accepted value stands in its slot until it is released. -/
  intact : Holds (2 ^ lg) s.queue.node (released es).length
    ((accepted es).drop (released es).length)
  /-- A sender about to write aims at none of these slots. -/
  no_overwrite : ∀ t data, s.sender = some (t, .storing data) →
    ∀ k, (released es).length ≤ k → k < (accepted es).length →
      slot lg s.queue.enqueueCount ≠ k % 2 ^ lg

theorem InStep.exactlyOnce {lg : Nat} (hlg : lg ≤ 30) {s : Concurrent α} {es : List (Event α)}
    (h : InStep lg s (admitted es) (accepted es) (delivered es) (released es)) :
    ExactlyOnce lg s es := by
  obtain ⟨h₁, h₂, h₃⟩ := h.lengths
  have hroom := h.room
  refine ⟨h.in_order, by omega, hroom, ?_, ?_, ?_⟩
  · rw [h.delivered_eq]
    exact List.prefix_append _ _
  · -- a value in a slot that is not counted yet comes last
    intro k hk
    rw [List.length_drop] at hk
    have hheld := h.holds k (by
      rw [List.length_drop, List.length_append]
      omega)
    rw [hheld, List.getElem_drop, List.getElem_drop]
    exact List.getElem_append_left (by omega)
  · intro t data hs k hle hlt heq
    have hhand := h.admitted_eq
    rw [hs] at hhand
    simp only [handOf, EnqueuePc.inHand] at hhand
    rw [hhand, List.length_append, List.length_singleton] at hroom
    rw [h.write_slot hlg] at heq
    -- two positions less than `2 ^ lg` apart share no slot
    obtain ⟨i, rfl⟩ := Nat.exists_eq_add_of_le hle
    obtain ⟨n, hn⟩ := Nat.exists_eq_add_of_le (Nat.le_trans h₁ h₂)
    rw [hn] at heq
    exact ring_index_ne (d := (released es).length) (k := i) (n := n) (by omega) (by omega) heq.symm

/-- **EXACTLY ONCE, IN ORDER**, for any number of senders and receivers, any
    interleaving of their steps and runs of any length. -/
theorem concurrentRun_exactlyOnce {lg : Nat} (hlg : lg ≤ 30) {node : Nat → α}
    {as : List (Action α)} {s : Concurrent α} {es : List (Event α)}
    (hrun : (concurrent lg).run (idleQueue node) as = some (s, es)) : ExactlyOnce lg s es :=
  (inStep_run hlg hrun).exactlyOnce hlg

/-- A receiver overtakes a sender between its store and its return. -/
theorem overlappingCalls_exactlyOnce :
    10 ≤ 30 ∧ ∃ s es, (concurrent 10).run (idleQueue fun _ => 0)
        [.enqueue 0 7, .sender, .sender, .dequeue 1, .sender, .receiver, .receiver, .sender,
          .receiver] = some (s, es)
      ∧ delivered es = [7] ∧ ExactlyOnce 10 s es := by
  have hrun : ∃ s es, (concurrent 10).run (idleQueue fun _ => 0)
      [.enqueue 0 7, .sender, .sender, .dequeue 1, .sender, .receiver, .receiver, .sender,
        .receiver] = some (s, es) ∧ delivered es = [7] := ⟨_, _, rfl, rfl⟩
  obtain ⟨s, es, hrun, hde⟩ := hrun
  exact ⟨by decide, s, es, hrun, hde, concurrentRun_exactlyOnce (by decide) hrun⟩

end FreePacket.Queue
