import Loc.Serving

/-!
# Loc.Guarantee.Reentrancy

What a flush guarantees when the callbacks it invokes **call the coordinator again**.

* `exists_callbacks_exactly` — when `existsResponse` serves whoever waits for it, and
  whoever is handed in meanwhile.
* `location_callbacks_exactly` — likewise for `resolveResponse` and `announceLocation`.

A callback handed in for the entity that is being flushed is lost when it has to wait:
it is queued behind the callbacks that are walked, and erased with them.
-/

namespace Loc

open Coordinator Reentrant

variable {EntityID : Type} [DecidableEq EntityID]

/-! ### Existence callbacks -/

/-- **Existence callbacks that ask again.** The response serves everybody exactly when
what it says can be stored; whoever is asked about again is answered at once, if it is
the entity of the response; and the queues opened for others do not make the table
rehash. -/
theorem exists_callbacks_exactly (c : Coordinator EntityID) (room : Flush.Room)
    (id : EntityID) (node : NodeType) (ex : Bool) (react : Nat → List (ExistsCall EntityID)) :
    ExistsResponseServes c room id node ex react ↔
      (ex = true → c.recs.directory.exists id = true ∨ 0 < c.recs.cache.val.maxSize) ∧
      (∀ call ∈ existences.made react c id, call.id = id →
        ex = true ∨ c.isCached id = true ∨ call.home = c.thisNode) ∧
      (Flush.opened c.pendingExists ((existences.made react c id).filterMap
        (existences.event (heard c id ex node)))).card ≤ room.slack := by
  rw [existsResponse_serves_iff, existences_not_queued_iff, existences_trace,
    LocLookup.update_isSome_iff]
  refine and_congr_right fun hdef => and_congr_left fun _ => ?_
  have hknown := isCached_heard node fun hex =>
    (LocLookup.update_isSome_iff (l := c.recs) (v := c.makeRec id node)).mpr (hdef hex)
  have hnode : (heard c id ex node).thisNode = c.thisNode := by
    cases ex <;> rfl
  simp only [hknown, hnode, or_assoc]

/-- Three callbacks wait to hear whether entity 7 exists. It does not, and the first
asks again. -/
def asksAgain : Coordinator Nat :=
  { Coordinator.new 0 4 with pendingExists := Function.update (fun _ => []) 7 [1, 2, 3] }

/-- The vector has room for a fourth callback, which is appended, never reached by the
loop, and erased. -/
theorem exists_retry_is_lost :
    ¬ ExistsResponseServes asksAgain ⟨1, 8⟩ 7 noNode false
      (fun i => if i = 0 then [⟨7, 1, 9⟩] else []) := by
  rintro ⟨k, hrun, hserved⟩
  have hplay : (existsResponse ⟨1, 8⟩ 7 noNode false
      (fun i => if i = 0 then [⟨7, 1, 9⟩] else []) ⟨asksAgain, [], []⟩).map (fun x =>
        (x.2.coord.pendingExists 7, x.2.answers.filterMap existences.answered)) =
      some ([], [(7, 1), (7, 2), (7, 3)]) := by
    decide +kernel
  rw [hrun] at hplay
  obtain ⟨hqueue, hlog⟩ := Prod.mk.inj (Option.some.inj hplay)
  have hmem := hserved.mem (by decide +kernel : ⟨7, 1, 9⟩ ∈ existences.made _ asksAgain 7) rfl
  rw [show existences.queue k.coord 7 = [] from hqueue, hlog] at hmem
  exact absurd hmem (by decide)

/-! ### Location callbacks -/

/-- **Location callbacks that re-enter.** With a capacity of at least one, a response and
an announcement serve everybody exactly when their entity is known whenever a callback
asks for it, and the queues opened for others do not make the table rehash. A home always
knows what was announced to it. -/
theorem location_callbacks_exactly {c : Coordinator EntityID} (hc : c.recs.Roomy)
    (room : Flush.Room) (id : EntityID) (node : NodeType)
    (react : Nat → List (LocationCall EntityID)) :
    (ResolveResponseServes c room id node react ↔
      KnownWhenAsked id (learned c id node) (locations.made react c id) ∧
      (Flush.opened c.pending (locations.trace (learned c id node)
        (locations.made react c id))).card ≤ room.slack) ∧
    (AnnounceLocationServes c room id node react ↔
      KnownWhenAsked id (announced c id node) (locations.made react c id) ∧
      (Flush.opened c.pending (locations.trace (announced c id node)
        (locations.made react c id))).card ≤ room.slack) ∧
    (c.WellPlaced → KnownWhenAsked id (announced c id node) (locations.made react c id)) :=
  ⟨resolveResponse_serves_iff hc room id node react,
    announceLocation_serves_iff hc room id node react,
    fun hplaced => knownWhenAsked_announced hc hplaced id node _⟩

/-- Three callbacks wait for entity 7 on a rank that is not its home. -/
def asksMore : Coordinator Nat :=
  { Coordinator.new 0 1 with pending := Function.update (fun _ => []) 7 [1, 2, 3] }

/-- The first callback asks for entity 7, which is known, and for entity 8, which waits. -/
theorem location_callbacks_exactly_more :
    ResolveResponseServes asksMore ⟨0, 1⟩ 7 2
      (fun i => if i = 0 then [.getLocation 7 1 4, .getLocation 8 1 5] else []) := by
  have hc : asksMore.recs.Roomy := LocLookup.roomy_new (by decide) 0
  refine (location_callbacks_exactly hc ⟨0, 1⟩ 7 2 _).1.mpr ⟨?_, ?_⟩
  · decide +kernel
  · decide +kernel

/-- The first callback clears the cache and asks again: it is appended to the queue that
is walked, never reached by the loop, and erased. -/
theorem location_retry_is_lost :
    ¬ ResolveResponseServes asksMore ⟨1, 8⟩ 7 2
      (fun i => if i = 0 then [.clearCache, .getLocation 7 1 9] else []) := by
  rintro ⟨k, hrun, hserved⟩
  have hplay : (resolveResponse ⟨1, 8⟩ 7 2
      (fun i => if i = 0 then [.clearCache, .getLocation 7 1 9] else [])
        ⟨asksMore, [], []⟩).map (fun x =>
          (x.2.coord.pending 7, x.2.answers.filterMap locations.answered)) =
      some ([], [(7, 1), (7, 2), (7, 3)]) := by
    decide +kernel
  rw [hrun] at hplay
  obtain ⟨hqueue, hlog⟩ := Prod.mk.inj (Option.some.inj hplay)
  have hmem :=
    hserved.mem (by decide +kernel : .getLocation 7 1 9 ∈ locations.made _ asksMore 7) rfl
  rw [show locations.queue k.coord 7 = [] from hqueue, hlog] at hmem
  exact absurd hmem (by decide)

end Loc
