/-
  FreePacket.Pipeline.Everywhere
  ──────────────────────────────
  **WHAT IS TRUE OF EVERY PACKET, wherever it is.**

  Parsers and managers pass packets on and put them back as they got them;
  only a generator writes to one.  So what the generators' writing keeps holds
  of the packets in every pool, queue and hand, through any number of rounds.

  Main result: `Everywhere.step`.
-/
import FreePacket.Pipeline.Ownership

namespace FreePacket.Pipeline

open FreePacket.Lib FreePacket.Packet
open FreePacket.Session (Manager Config queueCapacity)

/-! ## §1. The places. -/

/-- The packets of a parser.  A flow item in front of its batch return holds
    a packet that is no longer the parser's. -/
def ParserHolds (P : PacketT → Prop) : ParserPc → Prop
  | .idle | .returnFlows _ => True
  | .taken packets | .waitFlows packets | .returnBatch packets _ | .returnPackets packets =>
      Each P packets
  | .built packets flows => Each P packets ∧ Each (fun flow => P flow.packet) flows
  | .forward flows => Each (fun flow => P flow.packet) flows

def ManagerHolds (P : PacketT → Prop) : ManagerPc → Prop
  | .idle | .returnFlow _ => True
  | .taken flow | .inserting flow | .returnPacket flow => P flow.packet

/-- **`P` holds of every packet** of the pipeline. -/
structure Everywhere (P : PacketT → Prop) (s : Stages) : Prop where
  generatorPool : ∀ i, Each P (s.generatorPool i)
  generatorPc : ∀ i, Each P (s.generatorPc i).packets
  parserQueue : ∀ q, Each P (s.parserQueue q)
  parserPc : ∀ q, ParserHolds P (s.parserPc q)
  managerQueue : ∀ m, Each (fun flow => P flow.packet) (s.managerQueue m)
  managerPc : ∀ m, ManagerHolds P (s.managerPc m)

/-- The flow items made of packets that have `P`. -/
theorem zipWith_holds {P : PacketT → Prop} {packets : List PacketT} (h : Each P packets)
    (flows : List FlowItem) :
    Each (fun flow => P flow.packet) (List.zipWith makeFlowItemTcp flows packets) := by
  intro flow hflow
  rw [← List.map_uncurry_zip_eq_zipWith] at hflow
  obtain ⟨⟨old, packet⟩, hmem, rfl⟩ := List.mem_map.mp hflow
  exact h packet (List.of_mem_zip hmem).2

/-! ## §2. Every step keeps it. -/

section Steps

variable {mode : Mode} {gNums pNums : Nat} {numbers : UInt32} {s s' : Stages}
  {P : PacketT → Prop}

/-- An update of one place, for all of them. -/
theorem all_update {β : Type} {Q : β → Prop} {f : Nat → β} (hf : ∀ k, Q (f k)) (i : Nat) {b : β}
    (hb : Q b) (k : Nat) : Q (Function.update f i b k) := by
  by_cases hk : k = i
  · rw [hk, Function.update_self]
    exact hb
  · rw [Function.update_of_ne hk]
    exact hf k

theorem Everywhere.generatorStep (hs : Everywhere P s) {i : Nat}
    (hfill : ∀ packet packet' input, fillPacket mode i packet input = some packet' →
      P packet → P packet')
    (h : GeneratorStep mode gNums pNums s i s') : Everywhere P s' := by
  have hhand := hs.generatorPc i
  cases h with
  | @took packet packet' pool input hpc hpool hfilled =>
      have hin := hs.generatorPool i
      rw [hpool] at hin
      have hrest : Each P pool := fun x hx => hin x (List.mem_cons_of_mem _ hx)
      -- the only place where a packet is written to
      have hnew := hfill packet packet' input hfilled (hin packet List.mem_cons_self)
      exact { hs with
        generatorPool := all_update hs.generatorPool i hrest
        generatorPc := all_update (Q := fun pc : GeneratorPc => Each P pc.packets)
          hs.generatorPc i (each_singleton hnew) }
  | @chose packet hpc =>
      rw [hpc] at hhand
      exact { hs with
        generatorPc := all_update (Q := fun pc : GeneratorPc => Each P pc.packets)
          hs.generatorPc i hhand }
  | @kept packet hpc =>
      rw [hpc] at hhand
      exact { hs with
        generatorPc := all_update (Q := fun pc : GeneratorPc => Each P pc.packets)
          hs.generatorPc i hhand }
  | @sent parser packet hpc =>
      rw [hpc] at hhand
      exact { hs with
        parserQueue := all_update hs.parserQueue parser ((hs.parserQueue parser).append hhand)
        generatorPc := all_update (Q := fun pc : GeneratorPc => Each P pc.packets)
          hs.generatorPc i each_nil }
  | @returned packet hpc =>
      rw [hpc] at hhand
      exact { hs with
        generatorPool := all_update hs.generatorPool packet.pool
          ((hs.generatorPool packet.pool).append hhand)
        generatorPc := all_update (Q := fun pc : GeneratorPc => Each P pc.packets)
          hs.generatorPc i each_nil }

theorem Everywhere.parserStep (hs : Everywhere P s) {q : Nat} (h : ParserStep numbers s q s') :
    Everywhere P s' := by
  have hhand := hs.parserPc q
  cases h with
  | @took packets queue hpc hqueue hlen =>
      have hin := hs.parserQueue q
      rw [hqueue] at hin
      have htaken : Each P packets := fun x hx => hin x (List.mem_append_left _ hx)
      have hrest : Each P queue := fun x hx => hin x (List.mem_append_right _ hx)
      exact { hs with
        parserQueue := all_update hs.parserQueue q hrest
        parserPc := all_update hs.parserPc q htaken }
  | @wanted packets hpc =>
      rw [hpc] at hhand
      exact { hs with parserPc := all_update hs.parserPc q hhand }
  | @skipped packets hpc =>
      rw [hpc] at hhand
      exact { hs with parserPc := all_update hs.parserPc q hhand }
  | @made packets flows pool hpc hpool hlen =>
      rw [hpc] at hhand
      -- flow `k` is made of packet `k`; the batch and the flows hold the same packets
      exact { hs with
        parserPc := all_update hs.parserPc q ⟨hhand, zipWith_holds hhand flows⟩ }
  | @forwarding packets flows hpc =>
      rw [hpc] at hhand
      exact { hs with parserPc := all_update hs.parserPc q hhand.2 }
  | @dropping packets flows hpc =>
      rw [hpc] at hhand
      exact { hs with parserPc := all_update hs.parserPc q hhand.1 }
  | @forwarded index flow rest hpc hindex =>
      rw [hpc] at hhand
      have hrest : Each (fun flow => P flow.packet) rest :=
        fun x hx => hhand x (List.mem_cons_of_mem _ hx)
      -- the flow item takes its packet along to the manager
      exact { hs with
        managerQueue := all_update hs.managerQueue index
          ((hs.managerQueue index).append (each_singleton (hhand flow List.mem_cons_self)))
        parserPc := all_update hs.parserPc q hrest }
  | finished hpc => exact { hs with parserPc := all_update hs.parserPc q trivial }
  | @returnedBatch first rest flows hpc =>
      rw [hpc] at hhand
      exact { hs with
        generatorPool := all_update hs.generatorPool first.pool
          ((hs.generatorPool first.pool).append hhand)
        parserPc := all_update hs.parserPc q trivial }
  | @returnedFlows flows hpc => exact { hs with parserPc := all_update hs.parserPc q trivial }
  | @returnedPackets first rest hpc =>
      rw [hpc] at hhand
      exact { hs with
        generatorPool := all_update hs.generatorPool first.pool
          ((hs.generatorPool first.pool).append hhand)
        parserPc := all_update hs.parserPc q trivial }

theorem Everywhere.managerStep (hs : Everywhere P s) {m : Nat} (h : ManagerStep s m s') :
    Everywhere P s' := by
  have hhand := hs.managerPc m
  cases h with
  | @took flow queue hpc hqueue =>
      have hin := hs.managerQueue m
      rw [hqueue] at hin
      have hrest : Each (fun flow => P flow.packet) queue :=
        fun x hx => hin x (List.mem_cons_of_mem _ hx)
      exact { hs with
        managerQueue := all_update hs.managerQueue m hrest
        managerPc := all_update hs.managerPc m (hin flow List.mem_cons_self) }
  | @deep flow hpc =>
      rw [hpc] at hhand
      exact { hs with managerPc := all_update hs.managerPc m hhand }
  | @shallow flow hpc =>
      rw [hpc] at hhand
      exact { hs with managerPc := all_update hs.managerPc m hhand }
  | @inserted flow table hpc =>
      rw [hpc] at hhand
      exact { hs with managerPc := all_update hs.managerPc m hhand }
  | @returnedPacket flow hpc =>
      rw [hpc] at hhand
      exact { hs with
        generatorPool := all_update hs.generatorPool flow.packet.pool
          ((hs.generatorPool flow.packet.pool).append (each_singleton hhand))
        managerPc := all_update hs.managerPc m trivial }
  | @returnedFlow flow hpc => exact { hs with managerPc := all_update hs.managerPc m trivial }

/-- **What the generators' writing keeps, every step keeps everywhere.** -/
theorem Everywhere.step (hs : Everywhere P s)
    (hfill : ∀ i packet packet' input, fillPacket mode i packet input = some packet' →
      P packet → P packet')
    (h : PipelineStep mode gNums pNums numbers s s') : Everywhere P s' := by
  cases h with
  | generator hi h => exact hs.generatorStep (hfill _) h
  | parser hq h => exact hs.parserStep h
  | manager hm h => exact hs.managerStep h
  | cleaned => exact { hs with }

end Steps

/-- With the generators' pools alone filled, `P` is everywhere when it is there. -/
theorem everywhere_of_pools {P : PacketT → Prop} {s : Stages}
    (hpools : ∀ i, Each P (s.generatorPool i)) (hgen : ∀ i, s.generatorPc i = .idle)
    (hqueue : ∀ q, s.parserQueue q = []) (hparser : ∀ q, s.parserPc q = .idle)
    (hmqueue : ∀ m, s.managerQueue m = []) (hmanager : ∀ m, s.managerPc m = .idle) :
    Everywhere P s := by
  refine ⟨hpools, ?_, ?_, ?_, ?_, ?_⟩
  · intro i
    rw [hgen]
    exact each_nil
  · intro q
    rw [hqueue]
    exact each_nil
  · intro q
    rw [hparser]
    trivial
  · intro m
    rw [hmqueue]
    exact each_nil
  · intro m
    rw [hmanager]
    trivial

end FreePacket.Pipeline
