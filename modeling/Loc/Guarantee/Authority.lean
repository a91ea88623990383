import Loc.Entity.Authority
import Loc.Access

/-!
# Loc.Guarantee.Authority

What the resolver promises about **authoritative records**: they live in the
directory of the home, out of reach of every cache operation, and the home keeps
answering from them.
-/

namespace Loc

open Channel (Packet)

variable {EntityID : Type} [DecidableEq EntityID] {cfg : Config EntityID}
  {past : List (Label EntityID)} {s : System EntityID}

/-- The home of `id` has processed a registration of it, and has not unregistered
it since. -/
def Config.Informed (cfg : Config EntityID) (past : List (Label EntityID)) (id : EntityID) : Prop :=
  Entity.informed (cfg.home id) (about id past) = true

instance (past : List (Label EntityID)) (id : EntityID) : Decidable (cfg.Informed past id) :=
  inferInstanceAs (Decidable (_ = _))

/-- A home with a directory record answers an existence request from it. -/
theorem existsRequest_reply {p : Packet NodeType (ControlMsg EntityID)} {id : EntityID}
    {q n : NodeType} (hs : s.Placed) (hnet : p ∈ s.net) (hp : p.body = ⟨id, .existsRequest q⟩)
    (hn : (s.coord p.dst).directoryNode id = some n) :
    ∃ s', cfg.step s (.deliver p) = some s' ∧
      s'.net = s.net.erase p ++ [⟨p.dst, q, ⟨id, .existsResponse true n⟩⟩] := by
  obtain ⟨s', hstep⟩ : ∃ s', cfg.step s (.deliver p) = some s' :=
    Config.step_deliver_returns hnet (hp ▸ Coordinator.existsRequest_returns _ id q)
  refine ⟨s', hstep, ?_⟩
  obtain ⟨-, k, hdoes, rfl⟩ := Config.step_deliver hs hstep
  have hserved : ((s.coord p.dst).site id).served p.dst = some n :=
    Entity.Site.served_of_node (by rw [Entity.Site.node, Coordinator.site_dir, hn]; rfl)
  rw [hp, Entity.onMsg, Entity.existsRequest_eq, hserved] at hdoes
  rw [hdoes.outbox]
  rfl

/-- And a location request, which it does not buffer. -/
theorem locationRequest_reply {p : Packet NodeType (ControlMsg EntityID)} {id : EntityID}
    {q n : NodeType} (hs : s.Placed) (hnet : p ∈ s.net)
    (hp : p.body = ⟨id, .locationRequest q⟩) (hn : (s.coord p.dst).directoryNode id = some n) :
    ∃ s', cfg.step s (.deliver p) = some s' ∧
      s'.net = s.net.erase p ++ [⟨p.dst, q, ⟨id, .resolveResponse n⟩⟩] ∧
      (s'.coord p.dst).pendingHome id = (s.coord p.dst).pendingHome id := by
  obtain ⟨s', hstep⟩ : ∃ s', cfg.step s (.deliver p) = some s' :=
    Config.step_deliver_returns hnet (hp ▸ Coordinator.locationRequest_returns _ id q)
  refine ⟨s', hstep, ?_⟩
  obtain ⟨-, k, hdoes, rfl⟩ := Config.step_deliver hs hstep
  have hserved : ((s.coord p.dst).site id).served p.dst = some n :=
    Entity.Site.served_of_node (by rw [Entity.Site.node, Coordinator.site_dir, hn]; rfl)
  rw [hp, Entity.onMsg, Entity.locationRequest_of_some hserved] at hdoes
  refine ⟨by rw [hdoes.outbox]; rfl, ?_⟩
  simpa [Coordinator.site] using congrArg Entity.Site.pendingHome hdoes.site

/-- **Authoritative records are never lost to caching.** When only hosts emigrate
entities, a directory holds only ids homed there and a cache none of them. From
the moment a home learns of an entity until the home unregisters it, the home has
a record and answers every request from it at once. -/
theorem authoritative_records_persist
    (h : cfg.Run (Each fun _ _ v a => Entity.HostEmigrates v a) past s) :
    (∀ r id, (s.coord r).recs.directory.exists id = true → cfg.home id = r) ∧
    (∀ r id, (s.coord r).recs.cache.exists id = true → cfg.home id ≠ r) ∧
    ∀ id, cfg.Informed past id → ∃ n, (s.coord (cfg.home id)).directoryNode id = some n ∧
      (∀ p q, p ∈ s.net → p.dst = cfg.home id → p.body = ⟨id, .existsRequest q⟩ →
        ∃ s', cfg.step s (.deliver p) = some s' ∧
          s'.net = s.net.erase p ++ [⟨cfg.home id, q, ⟨id, .existsResponse true n⟩⟩]) ∧
      (∀ p q, p ∈ s.net → p.dst = cfg.home id → p.body = ⟨id, .locationRequest q⟩ →
        ∃ s', cfg.step s (.deliver p) = some s' ∧
          s'.net = s.net.erase p ++ [⟨cfg.home id, q, ⟨id, .resolveResponse n⟩⟩] ∧
          (s'.coord (cfg.home id)).pendingHome id = (s.coord (cfg.home id)).pendingHome id) := by
  have hrun := fun id => Config.run_each h (fun _ _ _ hl => hl) id
  have hauth := fun id => Entity.authority_of_run (hrun id) (fun _ _ _ ha => ha)
    Entity.authority_init
  refine ⟨fun r id hdir => ?_, fun r id hcache hr => ?_, fun id hinf => ?_⟩
  · by_contra hr
    have hnone : ((s.coord r).site id).dir = none :=
      ((hauth id).site r).routed.dir (Ne.symm hr)
    rw [Coordinator.directory_exists_eq, hnone] at hdir
    exact absurd hdir (by simp)
  · have hnone : ((s.coord r).site id).cached = none := ((hauth id).site r).uncached hr.symm
    rw [Coordinator.cache_exists_eq, hnone] at hcache
    exact absurd hcache (by simp)
  · obtain ⟨n, hn⟩ := Option.isSome_iff_exists.mp (Entity.dir_isSome_of_informed (hrun id) hinf)
    have hs := cfg.placed_of_run h Config.init_placed
    refine ⟨n, hn, fun p q hnet hdst hp => ?_, fun p q hnet hdst hp => ?_⟩
    · rw [← hdst] at hn ⊢
      exact existsRequest_reply hs hnet hp hn
    · rw [← hdst] at hn ⊢
      exact locationRequest_reply hs hnet hp hn

/-- Entity 42 migrates away from its home, whose cache another entity fills and
empties meanwhile. -/
theorem authoritative_records_persist_small : ∃ past s,
    Config.small.Run (Each fun _ _ v a => Entity.HostEmigrates v a) past s ∧
      Config.small.Informed past 42 ∧ ∃ n, (s.coord 0).directoryNode 42 = some n := by
  obtain ⟨past, s, hrun, hinf⟩ := Config.exists_run
    (show ∃ r ∈ Config.small.play (Each fun _ _ v a => Entity.HostEmigrates v a)
        [.call 0 (.registerEntity 42), .call 0 (.entityEmigrated 42 1),
          .call 1 (.entityImmigrated 42 0), .call 0 (.registerEntity 7),
          .deliver ⟨1, 0, ⟨42, .updateHome 1⟩⟩, .call 2 (.getLocation 42 5),
          .deliver ⟨2, 0, ⟨42, .locationRequest 2⟩⟩, .call 0 .clearCache],
        Config.small.Informed r.1 42 by decide +kernel)
  obtain ⟨n, hn, -⟩ := (authoritative_records_persist hrun).2.2 42 hinf
  exact ⟨past, s, hrun, hinf, n, hn⟩

end Loc
