import Loc.Entity.Pace
import Loc.Guarantee.Resolution
import Loc.Entity.Refresh

/-!
# Loc.Guarantee.Service

What the resolver is for: **a query finds the entity**. An embedder who lets the update
of one host arrive before the next rank takes the entity in keeps every home up to date,
and a query made once nothing is in flight is then answered with the host, unless the
asking rank has a record that nobody keeps up to date.
-/

namespace Loc

variable {EntityID : Type} [DecidableEq EntityID] {cfg : Config EntityID}
  {past : List (Label EntityID)} {s : System EntityID} {id : EntityID} {r host : NodeType}

/-! ### Paced moves -/

/-- **Paced moves never mislead a home.** When the embedder plays by the rules and nobody
takes an entity in while an update about it is in flight, then, whatever the order of
deliveries and in every state, the host of an entity is the only rank with an update
about it in flight, and the home has the host on record, or its update is on the way. -/
theorem paced_moves_converge
    (h : cfg.Run (Each fun _ past v a => Entity.Lawful past a ∧ Entity.Paced v a) past s)
    (hhost : id ∈ (s.coord host).localRegistered) :
    (∀ src dst n, ⟨src, dst, ⟨id, .updateHome n⟩⟩ ∈ s.net →
      src = host ∧ dst = cfg.home id ∧ n = host) ∧
    ((s.coord (cfg.home id)).directoryNode id = some host ∨
      ⟨host, cfg.home id, ⟨id, .updateHome host⟩⟩ ∈ s.net) := by
  have hrun := Config.run_each h (fun _ _ _ hl => hl) id
  have hhosts : ((s.view id).site host).hosts = true := decide_eq_true hhost
  have hw := (Entity.hosting_of_run hrun (fun _ _ _ ha => ha.1) host).mp hhosts
  have hsteady := Entity.steady_of_run hrun (fun _ _ _ ha => ha.2) host hw
  constructor
  · intro src dst n hin
    have hmem := hsteady.subset
      (Entity.mem_updates (p := ⟨src, dst, .updateHome n⟩) (System.mem_view_net.mpr hin) rfl)
    simpa using List.mem_singleton.mp hmem
  · exact (Entity.announced_of_paced hrun (fun _ _ _ ha => ha.2) host hw).imp_right
      System.mem_view_net.mp

/-- Entity 42 moves on once its first update has arrived, while rank 3 asks for it. -/
theorem paced_moves_converge_small : ∃ past s,
    Config.small.Run (Each fun _ past v a => Entity.Lawful past a ∧ Entity.Paced v a) past s ∧
      s.Drained ∧ (s.coord 0).directoryNode 42 = some 2 := by
  obtain ⟨past, s, hrun, hnet, hlocal⟩ := Config.exists_run
    (show ∃ r ∈ Config.small.play (Each fun _ past v a =>
          Entity.Lawful past a ∧ Entity.Paced v a)
        [.call 1 (.registerEntity 42), .call 3 (.getLocation 42 5),
          .deliver ⟨1, 0, ⟨42, .updateHome 1⟩⟩, .call 1 (.entityEmigrated 42 2),
          .call 2 (.entityImmigrated 42 1), .deliver ⟨2, 0, ⟨42, .updateHome 2⟩⟩,
          .deliver ⟨3, 0, ⟨42, .locationRequest 3⟩⟩, .deliver ⟨0, 3, ⟨42, .resolveResponse 2⟩⟩],
        r.2.Drained ∧ 42 ∈ (r.2.coord 2).localRegistered by decide +kernel)
  refine ⟨past, s, hrun, hnet, (paced_moves_converge hrun hlocal).2.resolve_right fun hin => ?_⟩
  rw [show s.net = [] from hnet] at hin
  exact absurd hin List.not_mem_nil

/-! ### Queries find the host -/

/-- The event may leave `r` with a record of `id` that the home does not keep up to
date: `r` sends it off, or learns of it from an existence query. -/
def Label.strays (id : EntityID) (r : NodeType) (l : Label EntityID) : Bool :=
  (l.about id).any fun a => a.strays r

/-- What `r` knows about `id` is kept up to date: it is the home, hosts the entity, holds
no record of it, has had a response to a location request, or can have its record from
no other event. -/
def Config.Followed (cfg : Config EntityID) (past : List (Label EntityID))
    (s : System EntityID) (id : EntityID) (r : NodeType) : Prop :=
  r = cfg.home id ∨ id ∈ (s.coord r).localRegistered ∨ (s.coord r).recordedNode id = none ∨
    (∃ src m, .deliver ⟨src, r, ⟨id, .resolveResponse m⟩⟩ ∈ past) ∨
    ∀ l ∈ past, l.strays id r = false

theorem not_strays_about (h : ∀ l ∈ past, l.strays id r = false) :
    ∀ a ∈ about id past, a.strays r = false := by
  intro a ha
  obtain ⟨l, hl, habout⟩ := List.mem_filterMap.mp ha
  have hstrays := h l hl
  rwa [Label.strays, habout, Option.any_some] at hstrays

section Known

variable
  (h : cfg.Run (fun past s l => Fifo s l ∧
    Each (fun _ past v a => Entity.Enduring past a ∧ Entity.Paced v a) past s l) past s)
  (hdrained : s.Drained) (hhost : id ∈ (s.coord host).localRegistered)

include h hdrained hhost

/-- With nothing in flight, the home has the host on record. -/
theorem Config.dir_of_paced : ((s.view id).site (cfg.home id)).dir = some host := by
  have hrun := Config.run_fifo_each h id
  have hhosts : ((s.view id).site host).hosts = true := decide_eq_true hhost
  refine Entity.home_knows_host (Entity.onTime_of_paced hrun fun _ _ _ ha => ha.2.2)
    (fun _ _ _ ha => ⟨ha.1.2.1.1, ha.2⟩) (System.view_net_of_drained hdrained) hhosts

/-- So it answers requests with the host. -/
theorem Config.served_of_paced :
    ((s.coord (cfg.home id)).site id).served (cfg.home id) = some host := by
  refine Entity.Site.served_of_node ?_
  rw [Entity.Site.node, show ((s.coord _).site id).dir = _ from
    Config.dir_of_paced h hdrained hhost, Option.some_or]

/-- Nobody waits for the location. -/
theorem Config.pending_of_paced (r : NodeType) : ((s.coord r).site id).pending = [] := by
  have hrun := (Config.run_fifo_each h id).strengthen (I := Entity.Hosting) fun _ _ hrun =>
    Entity.hosting_of_run hrun fun _ _ _ ha => ha.2.1.1
  have hserved := Config.served_of_paced h hdrained hhost
  refine (Entity.attended_of_run hrun fun _ _ _ ha =>
    ha.2.hostEmigrates ha.1.2.1.1).settled (System.view_net_of_drained hdrained) ?_ r
  rw [show ((s.view id).site _).served _ = _ from hserved]
  exact Option.some_ne_none host

/-- A rank that is followed knows nothing, or the host. -/
theorem Config.resolved_of_followed (hr : cfg.Followed past s id r) :
    ((s.coord r).site id).resolved r = none ∨ ((s.coord r).site id).resolved r = some host := by
  have hrun := Config.run_fifo_each h id
  have hdir := Config.dir_of_paced h hdrained hhost
  have hhosting := Entity.hosting_of_run hrun fun _ _ _ ha => ha.2.1.1
  have hw := (hhosting host).mp (decide_eq_true hhost)
  rw [Entity.Site.resolved]
  split
  · next hhosts =>
    obtain rfl := Entity.Whereabouts.hosted.inj (((hhosting r).mp hhosts).symm.trans hw)
    exact Or.inr rfl
  · next hhosts =>
    by_cases hhome : r = cfg.home id
    · subst hhome
      exact Or.inr (by rw [Entity.Site.node, show ((s.coord _).site id).dir = _ from hdir]; rfl)
    · cases hnode : ((s.coord r).site id).node with
      | none => exact Or.inl rfl
      | some n =>
          have hcached : ((s.view id).site r).cached = some n := by
            have hrouted := Entity.routed_of_run hrun Entity.routed_init
            have hnone : ((s.coord r).site id).dir = none := (hrouted.site r).dir hhome
            rwa [Entity.Site.node, hnone, Option.none_or] at hnode
          -- Whatever makes `r` followed, its record came with a response to its request.
          have hreceived : ∃ src m, .deliver ⟨src, r, .resolveResponse m⟩ ∈ about id past := by
            rcases hr with hr | hlocal | hnone | ⟨src, m, hin⟩ | hstrays
            · exact absurd hr hhome
            · exact absurd (decide_eq_true hlocal) hhosts
            · rw [← Coordinator.site_node, hnode] at hnone
              exact absurd hnone (by simp)
            · exact ⟨src, m, mem_about_deliver.mpr hin⟩
            · exact Entity.resolved_of_cached hrun (not_strays_about hstrays) hcached
          have hcoherent := (Entity.asker_coherent hrun (fun _ _ _ ha => ⟨ha.1, ha.2.1⟩) hhome
            (System.view_net_of_drained hdrained) (fun src dst => by simp [hw]) hreceived
            hcached).1
          exact Or.inr (hcoherent.symm.trans hdir)

end Known

/-- **Queries find the entity.** Under FIFO delivery, when nothing is unregistered and
nobody takes an entity in while an update about it is in flight: with nothing in flight,
both queries, issued on any rank whose knowledge is kept up to date, are answered with
the host, once and within two polls. -/
theorem queries_find_the_host (hroomy : cfg.Roomy)
    (h : cfg.Run (fun past s l => Fifo s l ∧
      Each (fun _ past v a => Entity.Enduring past a ∧ Entity.Paced v a) past s l) past s)
    (hdrained : s.Drained) (hhost : id ∈ (s.coord host).localRegistered) (hrank : cfg.IsRank r)
    (hr : cfg.Followed past s id r) (b : Backend EntityID) {iters : Nat} (hiters : 2 ≤ iters) :
    (∀ a, ∃ s₁ s', cfg.step s (.call r (.getLocation id a)) = some s₁ ∧
      cfg.pump b iters s₁ = some s' ∧ s'.Drained ∧
      s'.answers = s.answers ++ [⟨id, .located r a host⟩]) ∧
    ∀ a, ∃ s₁ s', cfg.step s (.call r (.entityExists id a)) = some s₁ ∧
      cfg.pump b iters s₁ = some s' ∧ s'.Drained ∧
      s'.answers = s.answers ++ [⟨id, .existence r a true host⟩] := by
  obtain ⟨iters, rfl⟩ : ∃ n, iters = n + 2 := ⟨iters - 2, by omega⟩
  have hplaced := cfg.placed_of_run h Config.init_placed
  have hroom := cfg.hasRoom_of_run hroomy h
  have hserved := Config.served_of_paced h hdrained hhost
  rcases Config.resolved_of_followed h hdrained hhost hr with hres | hres
  · -- Nobody waits for what the home knows, so each query starts its own exchange.
    have hpending := Config.pending_of_paced h hdrained hhost r
    have hpendingExists := (Entity.exchanging_of_run (Config.run_any h id)).settled
      (System.view_net_of_drained hdrained) r
    refine ⟨fun a => ?_, fun a => ?_⟩
    · obtain ⟨s₁, s', hstep, hpump, hd, hans, -⟩ :=
        getLocation_away hplaced hroom hdrained hrank hres hserved hpending a b iters
      exact ⟨s₁, s', hstep, hpump, hd, hans⟩
    · exact entityExists_away hplaced hroom hdrained hrank hres hserved hpendingExists a b iters
  · refine ⟨fun a => ?_, fun a => ?_⟩
    · obtain ⟨s', hstep, hd, hans, -⟩ := getLocation_here hplaced hroom hdrained hrank hres a
      exact ⟨s', s', hstep, Config.pump_of_drained hd _, hd, hans⟩
    · exact entityExists_here hplaced hroom hdrained hrank hres a b _

/-- Rank 3 has asked for entity 42 before it moved to rank 2, and asks again. -/
theorem queries_find_the_host_small : ∃ past s,
    Config.small.Run (fun past s l => Fifo s l ∧
      Each (fun _ past v a => Entity.Enduring past a ∧ Entity.Paced v a) past s l) past s ∧
      ∃ s₁ s', Config.small.step s (.call 3 (.getLocation 42 6)) = some s₁ ∧
        Config.small.pump .inOrder 2 s₁ = some s' ∧
        s'.answers = s.answers ++ [⟨42, .located 3 6 2⟩] := by
  obtain ⟨past, s, hrun, hdrained, hhost, hin⟩ := Config.exists_run
    (show ∃ r ∈ Config.small.play (fun past s l => Fifo s l ∧
          Each (fun _ past v a => Entity.Enduring past a ∧ Entity.Paced v a) past s l)
        [.call 1 (.registerEntity 42), .deliver ⟨1, 0, ⟨42, .updateHome 1⟩⟩,
          .call 3 (.getLocation 42 5), .deliver ⟨3, 0, ⟨42, .locationRequest 3⟩⟩,
          .call 1 (.entityEmigrated 42 2), .deliver ⟨0, 3, ⟨42, .resolveResponse 1⟩⟩,
          .call 2 (.entityImmigrated 42 1), .deliver ⟨2, 0, ⟨42, .updateHome 2⟩⟩,
          .deliver ⟨0, 3, ⟨42, .resolveResponse 2⟩⟩],
        r.2.Drained ∧ 42 ∈ (r.2.coord 2).localRegistered ∧
          .deliver ⟨0, 3, ⟨42, .resolveResponse 1⟩⟩ ∈ r.1 by decide +kernel)
  have hfollowed : Config.small.Followed past s 42 3 :=
    Or.inr (Or.inr (Or.inr (Or.inl ⟨0, 1, hin⟩)))
  obtain ⟨s₁, s', hstep, hpump, -, hans⟩ := (queries_find_the_host (fun _ => Nat.one_pos) hrun
    hdrained hhost (by decide) hfollowed .inOrder le_rfl).1 6
  exact ⟨past, s, hrun, s₁, s', hstep, hpump, hans⟩

end Loc
