import Loc.Entity.SelfPointer
import Loc.Access

/-!
# Loc.Guarantee.SelfPointer

What the resolver promises about **records that point at their own rank**: a rank
that does not host an entity has none, and answers no query with itself, as long as
no response that names its receiver arrives there after the entity has left.
-/

namespace Loc

variable {EntityID : Type} [DecidableEq EntityID] {cfg : Config EntityID}

/-- No record of `id` points at this rank, and either query returns without having
answered this rank. -/
structure Coordinator.PointsElsewhere (c : Coordinator EntityID) (id : EntityID) : Prop where
  directory : ∀ record, c.recs.directory.getIter id = some record →
    record.getRemoteNode ≠ c.thisNode
  cache : ∀ record, c.recs.cache.find id = some record → record.getRemoteNode ≠ c.thisNode
  getLocation : ∀ home action, ∃ k,
    Coordinator.getLocation queueing id home action ⟨c, [], []⟩ = some ((), k) ∧
    ⟨id, .located c.thisNode action c.thisNode⟩ ∉ k.answers
  entityExists : ∀ home action, ∃ k,
    Coordinator.entityExists queueing id home action ⟨c, [], []⟩ = some ((), k) ∧
    ⟨id, .existence c.thisNode action true c.thisNode⟩ ∉ k.answers

/-- A rank that does not host `id` does not point at itself for it. -/
def System.NeverSelf (s : System EntityID) (id : EntityID) : Prop :=
  ∀ r, id ∉ (s.coord r).localRegistered → (s.coord r).PointsElsewhere id

theorem Coordinator.pointsElsewhere {c : Coordinator EntityID} {id : EntityID}
    (hc : c.WellPlaced) (hlocal : id ∉ c.localRegistered)
    (hdir : (c.site id).dir ≠ some c.thisNode) (hcached : (c.site id).cached ≠ some c.thisNode) :
    c.PointsElsewhere id := by
  have hresolved : ∀ n, (c.site id).resolved c.thisNode = some n → n ≠ c.thisNode := by
    intro n hn heq
    rw [Entity.Site.resolved, if_neg (by simpa [site] using hlocal), heq] at hn
    rcases Entity.Site.dir_or_cached_of_node hn with h | h
    · exact hdir h
    · exact hcached h
  refine ⟨fun record hrec heq => ?_, fun record hrec heq => ?_, fun home action => ?_,
    fun home action => ?_⟩
  · exact hdir (by simp [site, LocLookup.slot, hrec, heq])
  · exact hcached (by simp [site, LocLookup.slot, hrec, heq])
  · obtain ⟨k, hk⟩ := getLocation_returns ⟨c, [], []⟩ id home action
    refine ⟨k, hk, ?_⟩
    have hdoes := getLocation_does hc hk
    cases hres : (c.site id).resolved c.thisNode with
    | some n =>
        rw [Entity.getLocation_of_some hres] at hdoes
        have hne := hresolved n hres
        simp [hdoes.answers, hne.symm]
    | none =>
        rw [Entity.getLocation_of_none hres] at hdoes
        simp [hdoes.answers]
  · obtain ⟨k, hk⟩ := entityExists_returns ⟨c, [], []⟩ id home action
    refine ⟨k, hk, ?_⟩
    have hdoes := entityExists_does hc hk
    cases hres : (c.site id).resolved c.thisNode with
    | some n =>
        rw [Entity.entityExists_of_some hres] at hdoes
        have hne := hresolved n hres
        simp [hdoes.answers, hne.symm]
    | none =>
        by_cases hhome : home = c.thisNode
        · subst hhome
          rw [Entity.entityExists_home_of_none hres] at hdoes
          simp [hdoes.answers]
        · rw [Entity.entityExists_of_none hhome hres] at hdoes
          simp [hdoes.answers]

theorem neverSelf_iff {s : System EntityID} (hs : s.Placed) (id : EntityID) :
    s.NeverSelf id ↔ Entity.NotSelf (s.view id) := by
  constructor
  · intro h r hhosts
    obtain ⟨hdir, hcache, -, -⟩ := h r (of_decide_eq_false hhosts)
    rw [(hs r).1] at hdir hcache
    constructor
    · intro heq
      obtain ⟨record, hrec, hnode⟩ := Option.map_eq_some_iff.mp heq
      exact hdir record hrec hnode
    · intro heq
      obtain ⟨record, hrec, hnode⟩ := Option.map_eq_some_iff.mp heq
      exact hcache record hrec hnode
  · intro h r hlocal
    obtain ⟨hdir, hcached⟩ := h r (decide_eq_false hlocal)
    exact Coordinator.pointsElsewhere (hs r).2 hlocal (by rwa [(hs r).1]) (by rwa [(hs r).1])

/-- A run in which the embedder plays by the rules is one in which only hosts emigrate
entities, to other ranks. -/
theorem departs_of_lawful {ok : Runs.Guard (System EntityID) (Label EntityID)}
    {past : List (Label EntityID)} {s : System EntityID}
    (h : cfg.Run (fun past s l => ok past s l ∧
      Each (fun _ past _ a => Entity.Lawful past a) past s l) past s) :
    cfg.Run (fun past s l => ok past s l ∧ Each (fun _ _ v a => Entity.Departs v a) past s l)
      past s := by
  have hhost : ∀ past s, cfg.Run (fun past s l => ok past s l ∧
      Each (fun _ past _ a => Entity.Lawful past a) past s l) past s →
      ∀ id, Entity.Hosting (about id past) (s.view id) := fun past s hrun id =>
    Entity.hosting_of_run (Config.run_each hrun (fun _ _ _ hl => hl.2) id) fun _ _ _ ha => ha
  refine (h.strengthen hhost).mono fun past s l hl => ⟨hl.1.1, fun id hid a ha => ?_⟩
  exact (hl.2 id).departs (hl.1.2 id hid a ha)

/-- **No rank points at itself** for an entity it does not host, in every run in which
only hosts emigrate entities, to other ranks, and no response that names its receiver
arrives there while it does not host the entity; and those are the only such runs in
which no rank does after every step. -/
theorem never_self_exactly (ok : Runs.Guard (System EntityID) (Label EntityID)) (id : EntityID)
    (past : List (Label EntityID)) (s : System EntityID) :
    (cfg.Run (fun past s l =>
        (ok past s l ∧ Each (fun _ _ v a => Entity.Departs v a) past s l) ∧
        ForEntity id (fun _ v a => Entity.NoSelfResponse v a) past s l) past s →
      s.NeverSelf id) ∧
    (cfg.Run (fun past s l =>
        (ok past s l ∧ Each (fun _ _ v a => Entity.Departs v a) past s l) ∧
        ForEntity id (fun _ v a => Entity.NoSelfResponse v a) past s l) past s ↔
      cfg.Run (fun past s l =>
        (ok past s l ∧ Each (fun _ _ v a => Entity.Departs v a) past s l) ∧
        ∀ s', cfg.step s l = some s' → s'.NeverSelf id) past s) := by
  refine Config.exactly (fun s hs => neverSelf_iff hs id) Entity.notSelf_init
    (fun _ r h => h.forget r) ?_
  intro past s l a v' hrun hl habout hself hview
  have hauth := Entity.authority_of_run (Config.run_each hrun (fun _ _ _ hl => hl.2) id)
    (fun _ _ _ ha => ha.hostEmigrates) Entity.authority_init
  exact Entity.notSelf_iff hself hauth (hl.2.view habout) hview

/-- The entity comes to an asker, leaves it while the refresh of the asker is under
way, and the refresh arrives: rank 3 hosts nothing and has itself on record. -/
theorem points_at_itself_small : ∃ past s,
    Config.small.Run (fun past s l => Fifo s l ∧
      Each (fun _ past _ a => Entity.Lawful past a) past s l) past s ∧
      42 ∉ (s.coord 3).localRegistered ∧ ¬ s.NeverSelf 42 := by
  obtain ⟨past, s, hrun, hlocal, hnode⟩ := Config.exists_run
    (show ∃ r ∈ Config.small.play (fun past s l => Fifo s l ∧
          Each (fun _ past _ a => Entity.Lawful past a) past s l)
        [.call 1 (.registerEntity 42), .deliver ⟨1, 0, ⟨42, .updateHome 1⟩⟩,
          .call 3 (.getLocation 42 5), .deliver ⟨3, 0, ⟨42, .locationRequest 3⟩⟩,
          .deliver ⟨0, 3, ⟨42, .resolveResponse 1⟩⟩, .call 1 (.entityEmigrated 42 3),
          .call 3 (.entityImmigrated 42 1), .deliver ⟨3, 0, ⟨42, .updateHome 3⟩⟩,
          .call 3 (.entityEmigrated 42 2), .deliver ⟨0, 3, ⟨42, .resolveResponse 3⟩⟩],
        42 ∉ (r.2.coord 3).localRegistered ∧
        (r.2.coord 3).recs.cache.find 42 = some ⟨42, .local, 3⟩
      by decide +kernel)
  refine ⟨past, s, hrun, hlocal, fun hself => ?_⟩
  have hplaced := Config.small.placed_of_run hrun Config.init_placed
  have hne := (hself 3 hlocal).cache _ hnode
  rw [(hplaced 3).1] at hne
  exact hne rfl

end Loc
