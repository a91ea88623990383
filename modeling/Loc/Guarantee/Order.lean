import Loc.Entity.Order
import Loc.Refinement

/-!
# Loc.Guarantee.Order

**First come, first served.** A rank invokes the callbacks of one kind for one entity in
the order in which they were passed, as long as it hears of the entity only by asking
with callbacks of that kind; and so does the home, whatever it does. Elsewhere callbacks
overtake each other (`callbacks_overtake_small`).
-/

namespace Loc

open Entity (Query)

variable {EntityID : Type} [DecidableEq EntityID] {cfg : Config EntityID}
  {past : List (Label EntityID)} {s : System EntityID}

/-- The callback of kind `k` about `id` that the invocation is of, if it happens on `r`. -/
def Entity.Query.servedFor (k : Query) (id : EntityID) (r : NodeType) (i : Invocation EntityID) :
    Option Nat :=
  if i.id = id then k.servedTo r i.answer else none

/-- The callback of kind `k` about `id` that the event passes to `r`. -/
def Label.passedFor (k : Query) (id : EntityID) (r : NodeType) (l : Label EntityID) : Option Nat :=
  (l.about id).bind (k.passedTo r)

/-- The event is none by which `r` learns where `id` is otherwise than by queries of kind
`k`. -/
def Label.keepsTo (k : Query) (id : EntityID) (r : NodeType) (l : Label EntityID) : Bool :=
  (l.about id).all fun a => a.keepsTo k r

theorem served_answersAbout (k : Query) (id : EntityID) (r : NodeType)
    (log : List (Invocation EntityID)) :
    (answersAbout id log).filterMap (k.servedTo r) = log.filterMap (k.servedFor id r) := by
  rw [answersAbout, List.filterMap_filterMap]
  refine List.filterMap_congr fun i _ => ?_
  unfold Query.servedFor
  split <;> rfl

/-- **Callbacks are served in order.** When only hosts emigrate entities: on the home of an
entity, and on every rank that neither hosts it nor sends it off and makes queries of one
kind only about it, the callbacks invoked so far, followed by those that wait, are all
the callbacks passed, in the order in which they were passed. -/
theorem callbacks_in_order (h : cfg.Run (Each fun _ _ v a => Entity.HostEmigrates v a) past s)
    {k : Query} {id : EntityID} {r : NodeType}
    (hkeeps : r = cfg.home id ∨ ∀ l ∈ past, l.keepsTo k id r = true) :
    s.answers.filterMap (k.servedFor id r) ++ k.queue ((s.coord r).site id) =
      (past.filterMap (Label.passedFor k id r)).reverse := by
  have hrun := Config.run_each h (fun _ _ _ hl => hl) id
  suffices horder : Entity.InOrder k r (about id past) (s.view id) by
    have hpast : (about id past).filterMap (k.passedTo r) =
        past.filterMap (Label.passedFor k id r) := List.filterMap_filterMap ..
    rw [← served_answersAbout, ← hpast]
    exact horder
  by_cases hr : r = cfg.home id
  · subst hr
    exact Entity.inOrder_home_of_run hrun fun _ _ _ ha => ha
  · refine Entity.inOrder_away_of_run hrun hr fun a ha => ?_
    obtain ⟨l, hl, habout⟩ := List.mem_filterMap.mp ha
    have hall := hkeeps.resolve_left hr l hl
    rwa [Label.keepsTo, habout, Option.all_some] at hall

/-- Two callbacks wait on rank 2 and a third is passed once the location is cached. -/
theorem callbacks_in_order_small : ∃ past s,
    Config.small.Run (Each fun _ _ v a => Entity.HostEmigrates v a) past s ∧
      s.answers.filterMap (Query.location.servedFor 42 2) ++ (s.coord 2).pending 42 =
        [5, 6, 7] := by
  obtain ⟨past, s, hrun, hkeeps, hpast⟩ := Config.exists_run
    (show ∃ r ∈ Config.small.play (Each fun _ _ v a => Entity.HostEmigrates v a)
        [.call 2 (.getLocation 42 5), .call 0 (.registerEntity 42), .call 2 (.getLocation 42 6),
          .deliver ⟨2, 0, ⟨42, .locationRequest 2⟩⟩, .deliver ⟨0, 2, ⟨42, .resolveResponse 0⟩⟩,
          .call 2 (.getLocation 42 7)],
        (∀ l ∈ r.1, l.keepsTo .location 42 2 = true) ∧
          (r.1.filterMap (Label.passedFor .location 42 2)).reverse = [5, 6, 7] by decide +kernel)
  exact ⟨past, s, hrun, (callbacks_in_order hrun (Or.inr hkeeps)).trans hpast⟩

/-- An answer to the existence query on rank 2 lets location callback 6 overtake 5. -/
theorem callbacks_overtake_small : ∃ past s,
    Config.small.Run (Each fun _ _ v a => Entity.HostEmigrates v a) past s ∧
      (past.filterMap (Label.passedFor .location 42 2)).reverse = [5, 6] ∧
      s.answers.filterMap (Query.location.servedFor 42 2) = [6] ∧ (s.coord 2).pending 42 = [5] :=
  Config.exists_run
    (show ∃ r ∈ Config.small.play (Each fun _ _ v a => Entity.HostEmigrates v a)
        [.call 2 (.getLocation 42 5), .call 0 (.registerEntity 42), .call 2 (.entityExists 42 4),
          .deliver ⟨2, 0, ⟨42, .existsRequest 2⟩⟩, .deliver ⟨0, 2, ⟨42, .existsResponse true 0⟩⟩,
          .call 2 (.getLocation 42 6)],
        (r.1.filterMap (Label.passedFor .location 42 2)).reverse = [5, 6] ∧
          r.2.answers.filterMap (Query.location.servedFor 42 2) = [6] ∧
          (r.2.coord 2).pending 42 = [5] by decide +kernel)

end Loc
