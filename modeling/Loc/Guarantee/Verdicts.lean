import Loc.Entity.Verdicts
import Loc.Guarantee.Reads

/-!
# Loc.Guarantee.Verdicts

What a rank can rely on across successive queries **about existence**: an entity it was
told of is not denied to it later, unless it hosts the entity or the entity is
unregistered.
-/

namespace Loc

variable {EntityID : Type} [DecidableEq EntityID] {cfg : Config EntityID}
  {past : List (Label EntityID)} {s : System EntityID} {id : EntityID} {r : NodeType}

/-- What the callbacks on `r` were told about the existence of `id`, by location and
existence queries alike, oldest first. -/
def System.verdicts (s : System EntityID) (r : NodeType) (id : EntityID) : List Bool :=
  (answersAbout id s.answers).filterMap (Entity.verdict r)

/-- **What was found is not denied.** Under FIFO delivery, when only hosts emigrate
entities and nothing is unregistered: on the home of an entity, and on every rank that
neither hosts it nor sends it off, all denials of it come before all confirmations; and
there are only denials as long as the home has no record. -/
theorem found_is_not_denied
    (h : cfg.Run (fun past s l => Fifo s l ∧
      Each (fun _ _ v a => Entity.HostEmigrates v a ∧ a.unregisters = false) past s l) past s)
    (hr : r = cfg.home id ∨ ∀ l ∈ past, l.hostsOn r id = false) :
    ∃ m n, s.verdicts r id = List.replicate m false ++ List.replicate n true ∧
      ((s.coord (cfg.home id)).recs.directory.exists id = false → n = 0) := by
  have hrun := Config.run_fifo_each h id
  have hsettling : Entity.Settling (cfg.home id) r (s.view id) := by
    by_cases hhome : r = cfg.home id
    · subst hhome
      exact Entity.settling_home_of_run hrun fun _ _ _ ha => ha.2
    · refine Entity.settling_of_run hrun hhome (fun _ _ _ ha => ⟨ha.1, ha.2.1, ha.2.2⟩)
        fun a ha => ?_
      obtain ⟨l, hl, habout⟩ := List.mem_filterMap.mp ha
      have haway := hr.resolve_left hhome l hl
      rwa [Label.hostsOn, habout, Option.any_some] at haway
  -- The verdicts given come first.
  have hsub : (s.verdicts r id).Sublist (Entity.verdicts (cfg.home id) r (s.view id)) :=
    List.sublist_append_left ..
  obtain ⟨m, n, hsplit⟩ := Entity.DenialsFirst.split (hsettling.sorted.sublist hsub)
  refine ⟨m, n, hsplit, fun hnone => ?_⟩
  by_contra hn
  have hdir : ((s.view id).site (cfg.home id)).dir = none := by
    rw [Coordinator.directory_exists_eq] at hnone
    exact Option.isNone_iff_eq_none.mp (Option.isSome_eq_false_iff.mp hnone)
  have hmem : true ∈ s.verdicts r id := by
    rw [hsplit]
    exact List.mem_append_right _ (List.mem_replicate.mpr ⟨hn, rfl⟩)
  exact absurd (hsettling.unknown hdir true (hsub.subset hmem)) (by simp)

/-- Rank 3 asks too early, loses what it learns on the second try, and asks again. -/
theorem found_is_not_denied_small : ∃ past s,
    Config.small.Run (fun past s l => Fifo s l ∧
      Each (fun _ _ v a => Entity.HostEmigrates v a ∧ a.unregisters = false) past s l) past s ∧
    (s.verdicts 3 42).length = 3 ∧
      ∃ m n, s.verdicts 3 42 = List.replicate m false ++ List.replicate n true := by
  obtain ⟨past, s, hrun, hlen, haway⟩ := Config.exists_run
    (show ∃ r ∈ Config.small.play (fun past s l => Fifo s l ∧
          Each (fun _ _ v a => Entity.HostEmigrates v a ∧ a.unregisters = false) past s l)
        [.call 3 (.entityExists 42 4), .deliver ⟨3, 0, ⟨42, .existsRequest 3⟩⟩,
          .call 1 (.registerEntity 42), .deliver ⟨1, 0, ⟨42, .updateHome 1⟩⟩,
          .deliver ⟨0, 3, ⟨42, .existsResponse false (-1)⟩⟩, .call 3 (.getLocation 42 5),
          .deliver ⟨3, 0, ⟨42, .locationRequest 3⟩⟩, .deliver ⟨0, 3, ⟨42, .resolveResponse 1⟩⟩,
          .call 3 .clearCache, .call 3 (.entityExists 42 6),
          .deliver ⟨3, 0, ⟨42, .existsRequest 3⟩⟩, .deliver ⟨0, 3, ⟨42, .existsResponse true 1⟩⟩],
        (r.2.verdicts 3 42).length = 3 ∧ ∀ l ∈ r.1, l.hostsOn 3 42 = false by decide +kernel)
  obtain ⟨m, n, hsplit, -⟩ := found_is_not_denied hrun (Or.inr haway)
  exact ⟨past, s, hrun, hlen, m, n, hsplit⟩

/-- A rank that hosts the entity may have a denial coming that is older than that. -/
theorem denied_after_found_small : ∃ past s,
    Config.small.Run (fun past s l => Fifo s l ∧
      Each (fun _ _ v a => Entity.HostEmigrates v a ∧ a.unregisters = false) past s l) past s ∧
    s.verdicts 3 42 = [true, false] :=
  Config.exists_run
    (show ∃ r ∈ Config.small.play (fun past s l => Fifo s l ∧
          Each (fun _ _ v a => Entity.HostEmigrates v a ∧ a.unregisters = false) past s l)
        [.call 3 (.entityExists 42 4), .deliver ⟨3, 0, ⟨42, .existsRequest 3⟩⟩,
          .call 3 (.registerEntity 42), .call 3 (.entityExists 42 5),
          .deliver ⟨0, 3, ⟨42, .existsResponse false (-1)⟩⟩],
        r.2.verdicts 3 42 = [true, false] by decide +kernel)

end Loc
