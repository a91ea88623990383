import Loc.Entity.Reads
import Loc.Refinement

/-!
# Loc.Guarantee.Reads

What a rank can rely on across **successive queries**: it is never told an older
location after a newer one.
-/

namespace Loc

variable {EntityID : Type} [DecidableEq EntityID] {cfg : Config EntityID}
  {past : List (Label EntityID)} {s : System EntityID}

/-- The locations of `id` that callbacks on `r` were told, oldest first. -/
def System.told (s : System EntityID) (r : NodeType) (id : EntityID) : List NodeType :=
  (answersAbout id s.answers).filterMap (Entity.read r)

/-- The label has `r` host `id`, or send it off. -/
def Label.hostsOn (r : NodeType) (id : EntityID) (l : Label EntityID) : Bool :=
  (l.about id).any (Entity.Act.hostsOn r)

/-- **Monotonic reads.** Under FIFO delivery, when only hosts emigrate entities: what the
callbacks on a rank are told, one after the other, by location and existence queries
alike, is what the home's directory held in successive states of the run, provided the
rank is not the home and neither hosts the entity nor sends it off. -/
theorem reads_are_monotone {id : EntityID} {r : NodeType}
    (h : cfg.Run (fun past s l => Fifo s l ∧
      Each (fun _ _ v a => Entity.HostEmigrates v a) past s l) past s)
    (hr : r ≠ cfg.home id) (haway : ∀ l ∈ past, l.hostsOn r id = false) :
    ∃ states, cfg.machine.Through (fun past s l => Fifo s l ∧
        Each (fun _ _ v a => Entity.HostEmigrates v a) past s l) [] cfg.init states past s ∧
      (s.told r id).map some =
        states.map fun t => (t.coord (cfg.home id)).directoryNode id := by
  have hview {past : List (Label EntityID)} {s : System EntityID}
      (hrun : cfg.Run (fun past s l => Fifo s l ∧
        Each (fun _ _ v a => Entity.HostEmigrates v a) past s l) past s) :=
    Config.run_fifo_each hrun id
  have htrail := Entity.trail_of_run (hview h) hr (fun _ _ _ ha => ha.1) (fun _ _ _ ha => ha.2)
    fun a ha => by
      obtain ⟨l, hl, hla⟩ := List.mem_filterMap.mp ha
      simpa [Label.hostsOn, hla] using haway l hl
  -- What was told comes first on the trail.
  have htold : Timeline.Follows (· <:+ ·) (Entity.homeRecord (cfg.home id)) (about id past)
      (s.told r id) := htrail.sublist (List.sublist_append_left ..)
  obtain ⟨moments, hpair, hmom, hread⟩ := htold.of_filterMap
  obtain ⟨states, hthrough, hall⟩ := h.through hpair fun m hm => ⟨List.nil_suffix, hmom m hm⟩
  refine ⟨states, hthrough, hread.trans ?_⟩
  clear hpair hmom hread hthrough
  induction hall with
  | nil => rfl
  | cons hrun _ ih =>
      rw [List.map_cons, List.map_cons, ih, ← Coordinator.site_dir]
      exact congrArg (· :: _) (congrFun (congrArg Entity.Ledger.dir
        (Entity.ledger_eq_of_run (hview hrun))) _).symm

/-- Rank 3 asks for entity 42, and again after the home has refreshed it. -/
theorem reads_are_monotone_small : ∃ past s,
    Config.small.Run (fun past s l => Fifo s l ∧
      Each (fun _ _ v a => Entity.HostEmigrates v a) past s l) past s ∧
    s.told 3 42 = [1, 2] ∧ ∃ states : List (System Nat),
      states.map (fun t => (t.coord 0).directoryNode 42) = [some 1, some 2] := by
  obtain ⟨past, s, hrun, htold, haway⟩ := Config.exists_run
    (show ∃ r ∈ Config.small.play (fun past s l => Fifo s l ∧
          Each (fun _ _ v a => Entity.HostEmigrates v a) past s l)
        [.call 1 (.registerEntity 42), .deliver ⟨1, 0, ⟨42, .updateHome 1⟩⟩,
          .call 3 (.getLocation 42 5), .deliver ⟨3, 0, ⟨42, .locationRequest 3⟩⟩,
          .deliver ⟨0, 3, ⟨42, .resolveResponse 1⟩⟩, .call 1 (.entityEmigrated 42 2),
          .call 2 (.entityImmigrated 42 1), .deliver ⟨2, 0, ⟨42, .updateHome 2⟩⟩,
          .deliver ⟨0, 3, ⟨42, .resolveResponse 2⟩⟩, .call 3 (.entityExists 42 6)],
        r.2.told 3 42 = [1, 2] ∧ ∀ l ∈ r.1, l.hostsOn 3 42 = false by decide +kernel)
  obtain ⟨states, -, hread⟩ := reads_are_monotone hrun (r := 3) (by decide) haway
  rw [show s.told 3 42 = [1, 2] from htold] at hread
  exact ⟨past, s, hrun, htold, states, hread.symm⟩

end Loc
