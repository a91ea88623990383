import Loc.Access
import Loc.Entity.Convergence

/-!
# Loc.Guarantee.Recognition

What the resolver promises about **a home that hosts the entity itself**: it answers
from its registration locally and from its directory for others, and both give itself,
as long as no `updateHome` reaches it meanwhile.
-/

namespace Loc

variable {EntityID : Type} [DecidableEq EntityID] {cfg : Config EntityID}
  {s : System EntityID}

/-- The local-first lookups and the record-first handlers of `c` all answer `n`, at once. -/
structure Coordinator.AllAnswer (c : Coordinator EntityID) (home : NodeType) (id : EntityID)
    (n : NodeType) : Prop where
  getLocation : ∀ action, ∃ k,
    Coordinator.getLocation queueing id home action ⟨c, [], []⟩ = some ((), k) ∧
    k.answers = [⟨id, .located c.thisNode action n⟩]
  entityExists : ∀ action, ∃ k,
    Coordinator.entityExists queueing id home action ⟨c, [], []⟩ = some ((), k) ∧
    k.answers = [⟨id, .existence c.thisNode action true n⟩]
  locationRequest : ∀ q, ∃ k,
    Coordinator.locationRequest queueing id q ⟨c, [], []⟩ = some ((), k) ∧
    k.outbox = [(q, ⟨id, .resolveResponse n⟩)]
  existsRequest : ∀ q, ∃ k,
    Coordinator.existsRequest queueing id q ⟨c, [], []⟩ = some ((), k) ∧
    k.outbox = [(q, ⟨id, .existsResponse true n⟩)]

theorem Coordinator.allAnswer {c : Coordinator EntityID} {id : EntityID} (home : NodeType)
    (hc : c.WellPlaced) (hlocal : id ∈ c.localRegistered)
    (hdir : c.directoryNode id = some c.thisNode) : c.AllAnswer home id c.thisNode := by
  have hresolved : (c.site id).resolved c.thisNode = some c.thisNode :=
    if_pos (decide_eq_true hlocal)
  have hserved : (c.site id).served c.thisNode = some c.thisNode :=
    Entity.Site.served_of_node (by rw [Entity.Site.node, site_dir, hdir]; rfl)
  refine ⟨fun action => ?_, fun action => ?_, fun q => ?_, fun q => ?_⟩
  · obtain ⟨k, hk⟩ := getLocation_returns ⟨c, [], []⟩ id home action
    have hdoes := getLocation_does hc hk
    rw [Entity.getLocation_of_some hresolved] at hdoes
    exact ⟨k, hk, hdoes.answers⟩
  · obtain ⟨k, hk⟩ := entityExists_returns ⟨c, [], []⟩ id home action
    have hdoes := entityExists_does hc hk
    rw [Entity.entityExists_of_some hresolved] at hdoes
    exact ⟨k, hk, hdoes.answers⟩
  · obtain ⟨k, hk⟩ := locationRequest_returns ⟨c, [], []⟩ id q
    have hdoes := locationRequest_does hc hk
    rw [Entity.locationRequest_of_some hserved] at hdoes
    exact ⟨k, hk, hdoes.outbox⟩
  · obtain ⟨k, hk⟩ := existsRequest_returns ⟨c, [], []⟩ id q
    have hdoes := existsRequest_does hc hk
    rw [Entity.existsRequest_eq, hserved] at hdoes
    exact ⟨k, hk, hdoes.outbox⟩

/-- If the home of `id` hosts it, it has itself on record, and all its answer paths
give itself. -/
def Config.HomeAgrees (cfg : Config EntityID) (id : EntityID) (s : System EntityID) : Prop :=
  id ∈ (s.coord (cfg.home id)).localRegistered →
    (s.coord (cfg.home id)).directoryNode id = some (cfg.home id) ∧
      (s.coord (cfg.home id)).AllAnswer (cfg.home id) id (cfg.home id)

theorem homeAgrees_iff (hs : s.Placed) (id : EntityID) :
    cfg.HomeAgrees id s ↔ Entity.KnowsItself (cfg.home id) (s.view id) := by
  have hnode := (hs (cfg.home id)).1
  constructor
  · intro h hhosts
    exact (h (of_decide_eq_true hhosts)).1
  · intro h hlocal
    have hdir : (s.coord (cfg.home id)).directoryNode id = some (cfg.home id) :=
      h (decide_eq_true hlocal)
    refine ⟨hdir, ?_⟩
    rw [← hnode] at hdir
    have hall := Coordinator.allAnswer (cfg.home id) (hs (cfg.home id)).2 hlocal
      (by rw [hnode]; rwa [hnode] at hdir)
    rwa [hnode] at hall

/-- **The home's answer paths agree** in every run, under any guard, in which no
update for `id` is delivered while its home hosts it; and those are the only runs
in which they agree after every step. -/
theorem home_agrees_exactly (ok : Runs.Guard (System EntityID) (Label EntityID)) (id : EntityID)
    (past : List (Label EntityID)) (s : System EntityID) :
    (cfg.Run (fun past s l => ok past s l ∧
        ForEntity id (fun _ v a => Entity.Undisturbed (cfg.home id) v a) past s l) past s →
      cfg.HomeAgrees id s) ∧
    (cfg.Run (fun past s l => ok past s l ∧
        ForEntity id (fun _ v a => Entity.Undisturbed (cfg.home id) v a) past s l) past s ↔
      cfg.Run (fun past s l => ok past s l ∧
        ∀ s', cfg.step s l = some s' → cfg.HomeAgrees id s') past s) := by
  refine Config.exactly (fun s hs => homeAgrees_iff hs id) ?_ ?_ ?_
  · exact fun hf => absurd hf (by simp [Entity.View.init, Entity.Site.blank])
  · intro v r h
    rwa [Entity.KnowsItself, Entity.View.forget_hosts, Entity.View.forget_dir]
  · intro past s l a v' hrun _ _ hagree hview
    exact Entity.knowsItself_iff hagree
      (Entity.routed_of_run (Config.run_any hrun id) Entity.routed_init) hview

/-- The entity comes home before the update of its first host arrives. -/
theorem home_disagrees_small : ∃ past s,
    Config.small.Run (fun past s l => Fifo s l ∧
      Each (fun _ past _ a => Entity.Enduring past a) past s l) past s ∧
      42 ∈ (s.coord 0).localRegistered ∧ (s.coord 0).directoryNode 42 = some 1 ∧
      ¬ Config.small.HomeAgrees 42 s := by
  obtain ⟨past, s, hrun, hlocal, hdir⟩ := Config.exists_run
    (show ∃ r ∈ Config.small.play (fun past s l => Fifo s l ∧
          Each (fun _ past _ a => Entity.Enduring past a) past s l)
        [.call 1 (.registerEntity 42), .call 1 (.entityEmigrated 42 0),
          .call 0 (.entityImmigrated 42 1), .deliver ⟨1, 0, ⟨42, .updateHome 1⟩⟩],
        42 ∈ (r.2.coord 0).localRegistered ∧ (r.2.coord 0).directoryNode 42 = some 1
      by decide +kernel)
  refine ⟨past, s, hrun, hlocal, hdir, fun hagree => ?_⟩
  have hself := (hagree hlocal).1
  rw [show (s.coord (Config.small.home 42)).directoryNode 42 = some 1 from hdir] at hself
  exact absurd hself (by decide)

end Loc
