import Loc.Entity.Refresh
import Loc.Refinement

/-!
# Loc.Guarantee.Refresh

What the resolver promises about **cached records** as entities migrate, and when
it keeps the promise. The home pushes each new location to the ranks in
`loc_asks_`. A rank gets there by asking for the location; asking for existence,
or having hosted the entity, does not get it there, and such a rank keeps what it
has.
-/

namespace Loc

variable {EntityID : Type} [DecidableEq EntityID] {cfg : Config EntityID}
  {past : List (Label EntityID)} {s : System EntityID} {id : EntityID} {r n : NodeType}

/-- Away from the home, a record can only be a cached one. -/
theorem cached_of_recordedNode {ok : Runs.Guard (System EntityID) (Label EntityID)}
    (h : cfg.Run ok past s) (hr : r ≠ cfg.home id)
    (hn : (s.coord r).recordedNode id = some n) : ((s.view id).site r).cached = some n := by
  have hrouted := Entity.routed_of_run (Config.run_any h id) Entity.routed_init
  have hdir : ((s.coord r).site id).dir = none := (hrouted.site r).dir hr
  rw [← Coordinator.site_node, Entity.Site.node, hdir, Option.none_or] at hn
  exact hn

/-! ### Ranks that asked for the location -/

/-- **Askers stay coherent.** Under FIFO delivery and with nothing unregistered, take
a state with nothing in flight and no migration of `id` half done. A rank other than
the home that has ever received a `resolveResponse` for `id` holds no record of it or
one that agrees with the home's directory. If moreover the home learned of the hosts
of `id` in the order in which they hosted it, that record is the host. -/
theorem askers_stay_coherent
    (h : cfg.Run (fun past s l => Fifo s l ∧
      Each (fun _ past _ a => Entity.Enduring past a) past s l) past s)
    (hnet : s.Drained) (hmoved : ∀ src dst, Entity.whereabouts (about id past) ≠ .moving src dst)
    (hr : r ≠ cfg.home id)
    (hreceived : ∃ src m, .deliver ⟨src, r, ⟨id, .resolveResponse m⟩⟩ ∈ past) :
    ∀ n, (s.coord r).recordedNode id = some n →
      (s.coord (cfg.home id)).directoryNode id = some n ∧
        (Entity.learned (cfg.home id) (about id past) = Entity.hostRanks (about id past) →
          id ∈ (s.coord n).localRegistered) := by
  intro n hn
  have hrun := Config.run_fifo_each h id
  obtain ⟨src, m, hin⟩ := hreceived
  obtain ⟨hdir, hhost⟩ := Entity.asker_coherent hrun (fun _ _ _ ha => ha) hr
    (System.view_net_of_drained hnet) hmoved ⟨src, m, mem_about_deliver.mpr hin⟩
    (cached_of_recordedNode h hr hn)
  refine ⟨hdir, fun horder => ?_⟩
  have hhosting := Entity.hosting_of_run hrun fun _ _ _ ha => ha.2.1
  exact of_decide_eq_true ((hhosting n).mpr (hhost horder))

/-- Rank 3 asks, the entity moves on, and the home learns of it in order. -/
theorem askers_stay_coherent_small : ∃ past s,
    Config.small.Run (fun past s l => Fifo s l ∧
      Each (fun _ past _ a => Entity.Enduring past a) past s l) past s ∧
      (s.coord 3).recordedNode 42 = some 2 ∧ (s.coord 0).directoryNode 42 = some 2 ∧
      42 ∈ (s.coord 2).localRegistered := by
  obtain ⟨past, s, hrun, hnet, hw, hin, hrec, horder⟩ := Config.exists_run
    (show ∃ r ∈ Config.small.play (fun past s l => Fifo s l ∧
          Each (fun _ past _ a => Entity.Enduring past a) past s l)
        [.call 1 (.registerEntity 42), .deliver ⟨1, 0, ⟨42, .updateHome 1⟩⟩,
          .call 3 (.getLocation 42 5), .deliver ⟨3, 0, ⟨42, .locationRequest 3⟩⟩,
          .call 1 (.entityEmigrated 42 2), .deliver ⟨0, 3, ⟨42, .resolveResponse 1⟩⟩,
          .call 2 (.entityImmigrated 42 1), .deliver ⟨2, 0, ⟨42, .updateHome 2⟩⟩,
          .deliver ⟨0, 3, ⟨42, .resolveResponse 2⟩⟩],
        r.2.Drained ∧ Entity.whereabouts (about 42 r.1) = .hosted 2 ∧
        .deliver ⟨0, 3, ⟨42, .resolveResponse 1⟩⟩ ∈ r.1 ∧
        (r.2.coord 3).recordedNode 42 = some 2 ∧
        Entity.learned 0 (about 42 r.1) = Entity.hostRanks (about 42 r.1) by decide +kernel)
  have hcoherent := askers_stay_coherent hrun hnet (fun src dst => by simp [hw])
    (show (3 : NodeType) ≠ Config.small.home 42 by decide) ⟨0, 1, hin⟩ 2 hrec
  exact ⟨past, s, hrun, hrec, hcoherent.1, hcoherent.2 horder⟩

/-! ### Ranks that asked for existence -/

/-- **Records learned from existence queries stay coherent** at a rank that never
hosted `id`, if no step changes the node of the home's record while the home does
not refresh the rank and the rank has a record, or one under way. -/
theorem existence_records_stay_coherent
    (h : cfg.Run (fun past s l => (Fifo s l ∧
      Each (fun _ past _ a => Entity.Enduring past a) past s l) ∧
      ForEntity id (fun _ v a => Entity.InSight (cfg.home id) r v a) past s l) past s)
    (hnet : s.Drained) (hmoved : ∀ src dst, Entity.whereabouts (about id past) ≠ .moving src dst)
    (hr : r ≠ cfg.home id) (hhosted : ∀ a ∈ about id past, a.hostedAt ≠ some r) :
    ∀ n, (s.coord r).recordedNode id = some n →
      (s.coord (cfg.home id)).directoryNode id = some n := by
  intro n hn
  have hrun : (Entity.machine (cfg.home id) noNode).Run (fun past v a =>
      Entity.Fifo v a ∧ Entity.Enduring past a ∧ Entity.InSight (cfg.home id) r v a)
      [] .init (about id past) (s.view id) :=
    cfg.run_view h Config.init_placed fun _ _ _ _ hl ha =>
      ⟨hl.1.1.view ha, hl.1.2.view ha, hl.2 _ ha⟩
  exact Entity.tracked_coherent hrun (fun _ _ _ ha => ha) hr hhosted
    (System.view_net_of_drained hnet) hmoved (cached_of_recordedNode h hr hn)

/-- Rank 3 asks whether the entity exists, drops what it learned before the entity
moves on, and asks again. -/
theorem existence_records_stay_coherent_small : ∃ past s,
    Config.small.Run (fun past s l => (Fifo s l ∧
      Each (fun _ past _ a => Entity.Enduring past a) past s l) ∧
      ForEntity 42 (fun _ v a => Entity.InSight (Config.small.home 42) 3 v a) past s l) past s ∧
      (s.coord 3).recordedNode 42 = some 2 ∧ (s.coord 0).directoryNode 42 = some 2 := by
  have hplay : ∃ r ∈ Config.small.play (fun past s l => (Fifo s l ∧
        Each (fun _ past _ a => Entity.Enduring past a) past s l) ∧
        ForEntity 42 (fun _ v a => Entity.InSight (Config.small.home 42) 3 v a) past s l)
      [.call 1 (.registerEntity 42), .deliver ⟨1, 0, ⟨42, .updateHome 1⟩⟩,
        .call 3 (.entityExists 42 5), .deliver ⟨3, 0, ⟨42, .existsRequest 3⟩⟩,
        .deliver ⟨0, 3, ⟨42, .existsResponse true 1⟩⟩, .call 3 .clearCache,
        .call 1 (.entityEmigrated 42 2), .call 2 (.entityImmigrated 42 1),
        .deliver ⟨2, 0, ⟨42, .updateHome 2⟩⟩, .call 3 (.entityExists 42 6),
        .deliver ⟨3, 0, ⟨42, .existsRequest 3⟩⟩, .deliver ⟨0, 3, ⟨42, .existsResponse true 2⟩⟩],
      (∀ a ∈ about 42 r.1, a.hostedAt ≠ some 3) ∧ r.2.Drained ∧
      Entity.whereabouts (about 42 r.1) = .hosted 2 ∧
      (r.2.coord 3).recordedNode 42 = some 2 := by decide +kernel
  obtain ⟨past, s, hrun, hhosted, hnet, hw, hrec⟩ := Config.exists_run hplay
  exact ⟨past, s, hrun, hrec, existence_records_stay_coherent hrun hnet
    (fun src dst => by simp [hw]) (by decide) hhosted 2 hrec⟩

/-- Rank 3 keeps the record it learned from an existence query: the entity has moved
to rank 2, the home knows, and rank 3 still answers rank 1. -/
theorem existence_record_stale_small : ∃ past s,
    Config.small.Run (fun past s l => Fifo s l ∧
      Each (fun _ past _ a => Entity.Enduring past a) past s l) past s ∧
      .deliver ⟨0, 3, ⟨42, .existsResponse true 1⟩⟩ ∈ past ∧
      (∀ a ∈ about 42 past, a.hostedAt ≠ some 3) ∧
      s.Drained ∧ Entity.whereabouts (about 42 past) = .hosted 2 ∧
      (s.coord 3).recordedNode 42 = some 1 ∧ (s.coord 0).directoryNode 42 = some 2 :=
  Config.exists_run
    (show ∃ r ∈ Config.small.play (fun past s l => Fifo s l ∧
          Each (fun _ past _ a => Entity.Enduring past a) past s l)
        [.call 1 (.registerEntity 42), .deliver ⟨1, 0, ⟨42, .updateHome 1⟩⟩,
          .call 3 (.entityExists 42 5), .deliver ⟨3, 0, ⟨42, .existsRequest 3⟩⟩,
          .deliver ⟨0, 3, ⟨42, .existsResponse true 1⟩⟩,
          .call 1 (.entityEmigrated 42 2), .call 2 (.entityImmigrated 42 1),
          .deliver ⟨2, 0, ⟨42, .updateHome 2⟩⟩],
        .deliver ⟨0, 3, ⟨42, .existsResponse true 1⟩⟩ ∈ r.1 ∧
        (∀ a ∈ about 42 r.1, a.hostedAt ≠ some 3) ∧
        r.2.Drained ∧ Entity.whereabouts (about 42 r.1) = .hosted 2 ∧
        (r.2.coord 3).recordedNode 42 = some 1 ∧ (r.2.coord 0).directoryNode 42 = some 2
      by decide +kernel)

/-! ### Former hosts -/

/-- **Former hosts stay coherent**, at a rank the home never handled a request of, if
no stale update reaches the home after that of the current host and no other rank
sends `id` off while this one has a record of it. -/
theorem former_hosts_stay_coherent
    (h : cfg.Run (fun past s l => Each (fun _ past _ a => Entity.Enduring past a) past s l ∧
      ForEntity id (fun past v a => Entity.OnTime (cfg.home id) past v a ∧
        Entity.NotLeftBehind r v a) past s l) past s)
    (hnet : s.Drained) (hmoved : ∀ src dst, Entity.whereabouts (about id past) ≠ .moving src dst)
    (hr : r ≠ cfg.home id) (hasked : ∀ a ∈ about id past, a.requester ≠ some r) :
    ∀ n, (s.coord r).recordedNode id = some n →
      (s.coord (cfg.home id)).directoryNode id = some n := by
  intro n hn
  have hrun : (Entity.machine (cfg.home id) noNode).Run (fun past v a => Entity.Enduring past a ∧
      Entity.OnTime (cfg.home id) past v a ∧ Entity.NotLeftBehind r v a)
      [] .init (about id past) (s.view id) :=
    cfg.run_view h Config.init_placed fun _ _ _ _ hl ha =>
      ⟨hl.1.view ha, (hl.2 _ ha).1, (hl.2 _ ha).2⟩
  exact Entity.former_host_coherent hrun (fun _ _ _ ha => ha) hr hasked
    (System.view_net_of_drained hnet) hmoved (cached_of_recordedNode h hr hn)

/-- Rank 1 hosts the entity and sends it off to rank 2, where it stays. -/
theorem former_hosts_stay_coherent_small : ∃ past s,
    Config.small.Run (fun past s l => Each (fun _ past _ a => Entity.Enduring past a) past s l ∧
      ForEntity 42 (fun past v a => Entity.OnTime (Config.small.home 42) past v a ∧
        Entity.NotLeftBehind 1 v a) past s l) past s ∧
      (s.coord 1).recordedNode 42 = some 2 ∧ (s.coord 0).directoryNode 42 = some 2 := by
  obtain ⟨past, s, hrun, hasked, hnet, hw, hrec⟩ := Config.exists_run
    (show ∃ r ∈ Config.small.play (fun past s l =>
          Each (fun _ past _ a => Entity.Enduring past a) past s l ∧
          ForEntity 42 (fun past v a => Entity.OnTime (Config.small.home 42) past v a ∧
            Entity.NotLeftBehind 1 v a) past s l)
        [.call 1 (.registerEntity 42), .call 1 (.entityEmigrated 42 2),
          .deliver ⟨1, 0, ⟨42, .updateHome 1⟩⟩, .call 2 (.entityImmigrated 42 1),
          .deliver ⟨2, 0, ⟨42, .updateHome 2⟩⟩],
        (∀ a ∈ about 42 r.1, a.requester ≠ some 1) ∧ r.2.Drained ∧
        Entity.whereabouts (about 42 r.1) = .hosted 2 ∧
        (r.2.coord 1).recordedNode 42 = some 2 by decide +kernel)
  exact ⟨past, s, hrun, hrec, former_hosts_stay_coherent hrun hnet
    (fun src dst => by simp [hw]) (by decide) hasked 2 hrec⟩

/-- The entity moves on from rank 2 to rank 3. Rank 1, its first host, has never
asked and still answers rank 2. -/
theorem former_host_stale_small : ∃ past s,
    Config.small.Run (fun past s l => Fifo s l ∧
      Each (fun _ past _ a => Entity.Enduring past a) past s l) past s ∧
      .call 1 (.entityEmigrated 42 2) ∈ past ∧ (∀ a ∈ about 42 past, a.requester ≠ some 1) ∧
      s.Drained ∧ Entity.whereabouts (about 42 past) = .hosted 3 ∧
      (s.coord 1).recordedNode 42 = some 2 ∧ (s.coord 0).directoryNode 42 = some 3 :=
  Config.exists_run
    (show ∃ r ∈ Config.small.play (fun past s l => Fifo s l ∧
          Each (fun _ past _ a => Entity.Enduring past a) past s l)
        [.call 1 (.registerEntity 42), .deliver ⟨1, 0, ⟨42, .updateHome 1⟩⟩,
          .call 1 (.entityEmigrated 42 2), .call 2 (.entityImmigrated 42 1),
          .deliver ⟨2, 0, ⟨42, .updateHome 2⟩⟩, .call 2 (.entityEmigrated 42 3),
          .call 3 (.entityImmigrated 42 2), .deliver ⟨3, 0, ⟨42, .updateHome 3⟩⟩],
        .call 1 (.entityEmigrated 42 2) ∈ r.1 ∧ (∀ a ∈ about 42 r.1, a.requester ≠ some 1) ∧
        r.2.Drained ∧ Entity.whereabouts (about 42 r.1) = .hosted 3 ∧
        (r.2.coord 1).recordedNode 42 = some 2 ∧ (r.2.coord 0).directoryNode 42 = some 3
      by decide +kernel)

end Loc
