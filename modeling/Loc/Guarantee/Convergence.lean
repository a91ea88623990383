import Loc.Entity.Convergence
import Loc.Refinement

/-!
# Loc.Guarantee.Convergence

What the resolver promises about **the home's own record**, and when it keeps the
promise. An `updateHome` carries no order, so one that is overtaken by a later
host's makes the home forget the later host; the home knows the host as long as
that does not happen.
-/

namespace Loc

variable {EntityID : Type} [DecidableEq EntityID] {cfg : Config EntityID}
  {past : List (Label EntityID)} {s : System EntityID}

/-- **Home convergence.** In every run in which the embedder plays by the rules and
no stale update reaches a home after that of the current host, a home has the host
of each entity on record once nothing is in flight. -/
theorem home_converges
    (h : cfg.Run (Each fun id past v a =>
      Entity.Lawful past a ∧ Entity.OnTime (cfg.home id) past v a) past s)
    (hnet : s.Drained) :
    ∀ id r, id ∈ (s.coord r).localRegistered →
      (s.coord (cfg.home id)).directoryNode id = some r := by
  intro id r hr
  exact Entity.home_knows_host (Config.run_each h (fun _ _ _ hl => hl) id)
    (fun _ _ _ ha => ha) (System.view_net_of_drained hnet)
    (show ((s.view id).site r).hosts = true from decide_eq_true hr)

/-- A migration overlaps the update of the first host, which arrives in time. -/
theorem home_converges_small : ∃ past s,
    Config.small.Run (Each fun id past v a =>
      Entity.Lawful past a ∧ Entity.OnTime (Config.small.home id) past v a) past s ∧
      s.Drained ∧ (s.coord 0).directoryNode 42 = some 2 := by
  obtain ⟨past, s, hrun, hnet, hlocal⟩ := Config.exists_run
    (show ∃ r ∈ Config.small.play (Each fun id past v a =>
          Entity.Lawful past a ∧ Entity.OnTime (Config.small.home id) past v a)
        [.call 1 (.registerEntity 42), .call 1 (.entityEmigrated 42 2),
          .call 2 (.entityImmigrated 42 1), .deliver ⟨1, 0, ⟨42, .updateHome 1⟩⟩,
          .deliver ⟨2, 0, ⟨42, .updateHome 2⟩⟩],
        r.2.Drained ∧ 42 ∈ (r.2.coord 2).localRegistered by decide +kernel)
  exact ⟨past, s, hrun, hnet, home_converges hrun hnet 42 2 hlocal⟩

/-- The first host's update arrives last: nothing is in flight, rank 2 hosts the
entity, and the home has rank 1 on record. -/
theorem home_misled_small : ∃ past s,
    Config.small.Run (fun past s l => Fifo s l ∧
      Each (fun _ past _ a => Entity.Enduring past a) past s l) past s ∧
      s.Drained ∧ Entity.whereabouts (about 42 past) = .hosted 2 ∧
      42 ∈ (s.coord 2).localRegistered ∧ (s.coord 0).directoryNode 42 = some 1 :=
  Config.exists_run
    (show ∃ r ∈ Config.small.play (fun past s l => Fifo s l ∧
          Each (fun _ past _ a => Entity.Enduring past a) past s l)
        [.call 1 (.registerEntity 42), .call 1 (.entityEmigrated 42 2),
          .call 2 (.entityImmigrated 42 1), .deliver ⟨2, 0, ⟨42, .updateHome 2⟩⟩,
          .deliver ⟨1, 0, ⟨42, .updateHome 1⟩⟩],
        r.2.Drained ∧ Entity.whereabouts (about 42 r.1) = .hosted 2 ∧
        42 ∈ (r.2.coord 2).localRegistered ∧ (r.2.coord 0).directoryNode 42 = some 1
      by decide +kernel)

end Loc
