import Loc.Immediate

/-!
# Loc.Guarantee.Immediate

What the in-process backend guarantees: **a coordinator that sends to itself is a
plain map** from entities to nodes, with a queue of waiters for every unknown one.
-/

namespace Loc

open Coordinator

variable {EntityID : Type} [DecidableEq EntityID]

/-- **Refinement of the plain map.** After any sequence of operations in which only
known entities emigrated, the operations invoked the callbacks the map invokes, in
the same order; `isCached` is the domain of the map; and the next operation returns,
with the callbacks and the next state of the map. -/
theorem immediate_refines_map (depth maxCacheSize : Nat) (home : EntityID → NodeType)
    {past : List (Op EntityID × List (Invocation EntityID))} {c : Coordinator EntityID}
    (hrun : (immediateMachine (depth + 2) home).Run (fun _ c e => c.EmigratesKnown e.1) []
      (new localRank maxCacheSize) past c) :
    (PlainMap.machine EntityID).Run Runs.free [] .empty past c.plain ∧
    (∀ id, c.isCached id = (c.plain.known id).isSome) ∧
    ∀ op, c.EmigratesKnown op →
      ∃ answers c', performImmediate (depth + 2) home c op = some (answers, c') ∧
        c.plain.perform op = some (answers, c'.plain) := by
  have hsim : (PlainMap.machine EntityID).Run Runs.free ([].filterMap some)
      (plain (new localRank maxCacheSize)) (past.filterMap some) (plain c) ∧ _ :=
    hrun.simulates (I := fun _ c => c.Settled) (settled_new maxCacheSize) ?_ ?_
  · obtain ⟨hmap, hsettled⟩ := hsim
    refine ⟨by simpa [plain_new] using hmap, fun id => hsettled.isCached_eq id, fun op hop => ?_⟩
    obtain ⟨answers, c', hperform, -, hplain⟩ := hsettled.perform depth home hop
    exact ⟨answers, c', hperform, hplain⟩
  · intro past c e c' hI hop hstep
    obtain ⟨answers, c₁, hperform, hsettled, hplain⟩ := hI.perform depth home hop
    obtain ⟨rfl, rfl⟩ : answers = e.2 ∧ c₁ = c' := by
      simpa [hperform] using (hperform.symm.trans hstep)
    exact ⟨hsettled, trivial, hplain⟩
  · intro _ _ _ _ hsilent
    exact absurd hsilent id

/-- Entity 42 has a remote home. It is asked for before it is registered, unregistered
with its asker remembered, asked for twice and registered again; then it emigrates. -/
theorem immediate_refines_map_roundabout : ∃ c : Coordinator Nat,
    c.plain.known 42 = some 3 ∧ c.plain.waiting 42 = [] ∧
    ∃ c', performImmediate 2 (fun _ => 1) c (.getLocation 42 9) =
      some ([⟨42, .located 0 9 3⟩], c') := by
  have hreplay : ∃ r ∈ Runs.replay (performImmediate 2 fun _ : Nat => 1)
      (fun _ c e => c.EmigratesKnown e.1) [] (new localRank 4)
      [.getLocation 42 5, .registerEntity 42, .unregisterEntity 42, .entityExists 42 6,
        .getLocation 42 7, .getLocation 42 8, .registerEntity 42, .entityEmigrated 42 3],
      r.1.head? = some (.entityEmigrated 42 3, []) ∧
      (.registerEntity 42, [⟨42, .located 0 7 0⟩, ⟨42, .located 0 8 0⟩]) ∈ r.1 ∧
      r.2.plain.known 42 = some 3 ∧ r.2.plain.waiting 42 = [] := by
    decide +kernel
  obtain ⟨past, c, hrun, -, -, hknown, hwaiting⟩ := Runs.Machine.Run.exists_of_replay hreplay
  obtain ⟨-, -, hnext⟩ := immediate_refines_map 0 4 (fun _ => 1) hrun
  obtain ⟨answers, c', hperform, hmap⟩ := hnext (.getLocation 42 9) trivial
  rw [PlainMap.perform, hknown] at hmap
  obtain ⟨rfl, -⟩ := Prod.mk.inj (Option.some.inj hmap)
  exact ⟨c, hknown, hwaiting, c', hperform⟩

end Loc
