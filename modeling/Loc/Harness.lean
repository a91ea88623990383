import Mathlib.Algebra.Order.BigOperators.Group.List
import Mathlib.Algebra.Order.Ring.Nat
import Loc.Entity.Drain
import Loc.Lib.Termination
import Loc.Progress

/-!
# Loc.Harness

How the tests and the examples drive the communicator (`tests/parallel_harness.h`,
`examples/resolve.cc`): `pump` polls a bounded number of times, and the drain loop
polls until a poll reports that nothing is left.

The communicator itself is not part of the repository. What is assumed of it is the
contract of `Backend`: **every poll delivers a message in flight, anywhere in the system,
if there is one**, and says whether it did. Which one is the backend's choice, so the
ranks may be polled in any order. A real poll serves one rank and may come back with
nothing while a message for another is on its way; such polls are not counted here, so
that the numbers of polls below are numbers of deliveries.

`System.workload` is what the messages in flight can still cost. Every delivery lowers
it (`Config.workload_lt`), so both loops end.
-/

namespace Loc

open Channel (Packet posted)

variable {EntityID : Type} [DecidableEq EntityID]

/-- A communicator's choice of the message its next poll delivers: one in flight, whenever
there is one (`busy`). -/
structure Backend (EntityID : Type) [DecidableEq EntityID] where
  pick : System EntityID → Option (Packet NodeType (ControlMsg EntityID))
  mem : ∀ s p, pick s = some p → p ∈ s.net
  busy : ∀ s, pick s = none → s.Drained

/-- The backend that delivers messages in the order in which they were sent. -/
def Backend.inOrder : Backend EntityID where
  pick s := s.net.head?
  mem _ _ h := List.mem_of_mem_head? h
  busy _ h := List.head?_eq_none_iff.mp h

/-- The label is the delivery of a message. -/
def Label.isDelivery : Label EntityID → Bool
  | .call _ _ => false
  | .deliver _ => true

/-- What the backend has the system do next. -/
def Backend.label (b : Backend EntityID) (s : System EntityID) : Option (Label EntityID) :=
  (b.pick s).map .deliver

theorem Backend.label_eq_none {b : Backend EntityID} {s : System EntityID} (h : b.label s = none) :
    s.Drained :=
  b.busy s (Option.map_eq_none_iff.mp h)

theorem Backend.label_eq_some {b : Backend EntityID} {s : System EntityID} {l : Label EntityID}
    (h : b.label s = some l) : ∃ p ∈ s.net, l = .deliver p := by
  obtain ⟨p, hp, rfl⟩ := Option.map_eq_some_iff.mp h
  exact ⟨p, b.mem s p hp, rfl⟩

namespace Config

variable (cfg : Config EntityID) (b : Backend EntityID)

/-- A poll that keeps the contract: deliver a message, if any is in flight, and say
whether there was. -/
def poll (s : System EntityID) : Option (Bool × System EntityID) := Runs.turn cfg.step b.label s

/-- Pump the communicator a bounded number of iterations, each of which keeps the
contract. -/
def pump (iters : Nat) (s : System EntityID) : Option (System EntityID) :=
  Runs.turns cfg.step b.label iters s

/-- Pump the communicator until it quiesces; no result if that takes `fuel` polls or
more. -/
def drain (fuel : Nat) (s : System EntityID) : Option (System EntityID) :=
  Runs.whileTurns cfg.step b.label fuel s

end Config

/-! ### The work left -/

namespace System

/-- How many deliveries the message can still cause, its own included. -/
def weight (s : System EntityID) (p : Packet NodeType (ControlMsg EntityID)) : Nat :=
  (s.view p.body.id).weight ⟨p.src, p.dst, p.body.msg⟩

/-- How many deliveries the messages in flight can still cause. -/
def workload (s : System EntityID) : Nat := (s.net.map s.weight).sum

end System

namespace Config

variable {cfg : Config EntityID} {s s' : System EntityID}
  {p : Packet NodeType (ControlMsg EntityID)}

/-- A delivery makes no message dearer. -/
theorem weight_le (hs : s.Placed) (h : cfg.step s (.deliver p) = some s')
    (q : Packet NodeType (ControlMsg EntityID)) : s'.weight q ≤ s.weight q := by
  unfold System.weight
  have hview := (step_view hs h q.body.id).2
  cases habout : (Label.deliver p).about q.body.id with
  | none =>
      exact step_elsewhere hs h habout
        (Q := fun v => v.weight ⟨q.src, q.dst, q.body.msg⟩ ≤ _)
        (fun v r hv => (v.weight_forget r _).trans_le hv) le_rfl
  | some a =>
      rw [habout] at hview
      generalize s'.view q.body.id = v' at hview ⊢
      cases hview with
      | call r c => exact absurd habout (by simp [Label.about])
      | deliver p' hp' => exact Entity.View.weight_mono (Entity.owed_le hp') _

/-- **Every delivery lowers the workload.** -/
theorem workload_lt (hs : s.Placed) (h : cfg.step s (.deliver p) = some s') :
    s'.workload < s.workload := by
  have hle := weight_le hs h
  obtain ⟨hp, k, hdoes, rfl⟩ := step_deliver hs h
  have hpaid : k.outbox.length < s.weight p := by
    rw [hdoes.outbox, List.length_map]
    exact Entity.outbox_lt_weight (s.view p.body.id) ⟨p.src, p.dst, p.body.msg⟩
  set s' : System EntityID := ⟨Function.update s.coord p.dst k.coord,
    s.net.erase p ++ posted p.dst k.outbox, s.answers ++ k.answers⟩ with hs'
  -- What the handler sent are responses, each worth its own delivery.
  have hsent : ((posted p.dst k.outbox).map s'.weight).sum = k.outbox.length := by
    rw [List.map_congr_left (g := fun _ => 1)]
    · simp [posted, Function.comp_def]
    · intro q hq
      obtain ⟨-, hq⟩ := Channel.mem_posted.mp hq
      rw [hdoes.outbox] at hq
      obtain ⟨m, hm, heq⟩ := List.mem_map.mp hq
      refine Entity.View.weight_of_isResponse ?_
      rw [← (Prod.mk.inj heq).2]
      exact Entity.isResponse_onMsg hm
  calc s'.workload
      = ((s.net.erase p).map s'.weight).sum + k.outbox.length := by
        rw [System.workload, hs', List.map_append, List.sum_append, ← hs', hsent]
    _ ≤ ((s.net.erase p).map s.weight).sum + k.outbox.length :=
        Nat.add_le_add_right (List.sum_le_sum fun q _ => hle q) _
    _ < s.weight p + ((s.net.erase p).map s.weight).sum := by omega
    _ = s.workload := List.sum_map_erase s.weight hp

/-- A backend tires the system out, wherever its coordinators are in place and its
caches have room. -/
theorem tires (b : Backend EntityID) :
    Runs.Tires cfg.step b.label (fun s => s.Placed ∧ s.HasRoom) System.workload := by
  intro s l hs hl
  obtain ⟨p, hp, rfl⟩ := Backend.label_eq_some hl
  obtain ⟨s', hstep, hroom⟩ := step_defined hs.2 (show cfg.Enabled s (.deliver p) from hp)
  exact ⟨s', hstep, ⟨step_placed hs.1 hstep, hroom⟩, workload_lt hs.1 hstep⟩

end Config

end Loc
