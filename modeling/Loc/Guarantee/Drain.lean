import Loc.Entity.Existence
import Loc.Guarantee.Waiters
import Loc.Harness

/-!
# Loc.Guarantee.Drain

What `drain` and `pump` promise when every poll delivers a message in flight, if there
is one (`Backend`): they end, whatever order the backend delivers in and whatever state
the ranks are in, and afterwards nobody waits for an entity that was announced.
-/

namespace Loc

open Entity (Query)

variable {EntityID : Type} [DecidableEq EntityID] {cfg : Config EntityID}
  {past : List (Label EntityID)} {s : System EntityID}

/-- **Draining ends.** From every state a run reaches, at most `workload` deliveries
follow one another, in any order, and every backend's `pump` and `drain` end, in the
same drained state, once they may poll that often. -/
theorem drain_ends {ok : Runs.Guard (System EntityID) (Label EntityID)} (hroomy : cfg.Roomy)
    (h : cfg.Run ok past s) :
    (∀ past' s', cfg.machine.Run (fun _ _ l => l.isDelivery) past s past' s' →
      past'.length + s'.workload ≤ past.length + s.workload) ∧
    ∀ b : Backend EntityID, ∃ s', s'.Drained ∧
      (∀ iters, s.workload ≤ iters → cfg.pump b iters s = some s') ∧
      ∀ fuel, s.workload < fuel → cfg.drain b fuel s = some s' := by
  have hplaced := cfg.placed_of_run h Config.init_placed
  have hroom := cfg.hasRoom_of_run hroomy h
  refine ⟨fun past' s' hrun => ?_, fun b => ?_⟩
  · refine hrun.length_add_le (fun _ t l t' ht hl hstep => ?_) fun _ _ hsilent => hsilent.elim
    have ht := cfg.placed_of_run ht hplaced
    cases l with
    | call r op => exact absurd hl (by simp [Label.isDelivery])
    | deliver p => exact Config.workload_lt ht hstep
  · have htires := cfg.tires b
    obtain ⟨s', hpump, -, hquiet⟩ := htires.turns_quiet ⟨hplaced, hroom⟩ le_rfl
    refine ⟨s', Backend.label_eq_none hquiet, fun iters hiters => ?_, fun fuel hfuel => ?_⟩
    · rw [Config.pump, ← htires.whileTurns_eq ⟨hplaced, hroom⟩ (Nat.lt_succ_self _) hiters,
        htires.whileTurns_eq ⟨hplaced, hroom⟩ (Nat.lt_succ_self _) le_rfl, hpump]
    · rw [Config.drain, htires.whileTurns_eq ⟨hplaced, hroom⟩ hfuel le_rfl, hpump]

/-- Two waiters, an update and a request in flight. -/
theorem drain_ends_small : ∃ past s, Config.small.Run Runs.free past s ∧ s.workload = 7 ∧
    ∃ s', s'.Drained ∧ Config.small.pump .inOrder 2000 s = some s' := by
  obtain ⟨past, s, hrun, hwork⟩ := Config.exists_run
    (show ∃ r ∈ Config.small.play Runs.free
        [.call 1 (.getLocation 42 5), .call 2 (.getLocation 42 6), .call 2 (.entityExists 42 7),
          .deliver ⟨2, 0, ⟨42, .locationRequest 2⟩⟩, .call 3 (.registerEntity 42)],
        r.2.workload = 7 by decide +kernel)
  obtain ⟨s', hdrained, hpump, -⟩ := (drain_ends (fun _ => Nat.one_pos) hrun).2 .inOrder
  exact ⟨past, s, hrun, hwork, s', hdrained, hpump 2000 (hwork.trans_le (by decide))⟩

/-! ### What a drain achieves -/

/-- Some rank has announced that it hosts `id`, and its home has not unregistered it
since. -/
def Config.Announced (cfg : Config EntityID) (past : List (Label EntityID)) (id : EntityID) :
    Prop :=
  Entity.announced (cfg.home id) (about id past) = true

instance (past : List (Label EntityID)) (id : EntityID) : Decidable (cfg.Announced past id) :=
  inferInstanceAs (Decidable (_ = _))

/-- Deliveries announce nothing. -/
theorem Config.Announced.deliveries {id : EntityID} {ls : List (Label EntityID)}
    (hls : ∀ l ∈ ls, ∃ p, l = .deliver p) (h : cfg.Announced past id) :
    cfg.Announced (ls ++ past) id := by
  induction ls with
  | nil => exact h
  | cons l ls ih =>
      obtain ⟨p, rfl⟩ := hls l List.mem_cons_self
      have hrest := ih fun l hl => hls l (List.mem_cons_of_mem _ hl)
      rw [List.cons_append, Config.Announced, about, List.filterMap_cons]
      cases habout : (Label.deliver p).about id with
      | none => exact hrest
      | some a =>
          obtain ⟨q, -, rfl⟩ := Option.map_eq_some_iff.mp habout
          exact hrest

theorem count_call_deliveries {ls : List (Label EntityID)} (hls : ∀ l ∈ ls, ∃ p, l = .deliver p)
    (r : NodeType) (op : Coordinator.Op EntityID) :
    (ls ++ past).count (.call r op) = past.count (.call r op) := by
  have hzero : ls.count (.call r op) = 0 := by
    rw [List.count_eq_zero]
    intro hmem
    obtain ⟨p, hp⟩ := hls _ hmem
    exact absurd hp (by simp)
  rw [List.count_append, hzero, Nat.zero_add]

/-- **A drain answers everyone.** When only hosts emigrate entities: once the
communicator was pumped often enough, in whatever order it delivers, every existence
callback ever passed was invoked exactly as often as it was passed, and so was every
location callback for an announced entity. -/
theorem drain_answers (hroomy : cfg.Roomy)
    (h : cfg.Run (Each fun _ _ v a => Entity.HostEmigrates v a) past s) (b : Backend EntityID)
    {iters : Nat} (hiters : s.workload ≤ iters) :
    ∃ s', cfg.pump b iters s = some s' ∧ s'.Drained ∧
      (∀ id r a, past.count (.call r (.entityExists id a)) =
        s'.answers.countP (Query.existence.invokedFor id r a)) ∧
      ∀ id, cfg.Announced past id → ∀ r a, past.count (.call r (.getLocation id a)) =
        s'.answers.countP (Query.location.invokedFor id r a) := by
  have hplaced := cfg.placed_of_run h Config.init_placed
  have hroom := cfg.hasRoom_of_run hroomy h
  obtain ⟨s', hpump, -, hquiet⟩ := (cfg.tires b).turns_quiet ⟨hplaced, hroom⟩ hiters
  have hdrained := Backend.label_eq_none hquiet
  -- The polls are deliveries, which the environment has no say in.
  have hok : ∀ past s l, b.label s = some l →
      Each (fun _ _ v a => Entity.HostEmigrates v a) past s l := by
    intro past s l hl id _ a ha
    obtain ⟨p, -, rfl⟩ := Backend.label_eq_some hl
    obtain ⟨q, -, rfl⟩ := Option.map_eq_some_iff.mp ha
    trivial
  obtain ⟨ls, hls, hrun⟩ := Runs.Machine.Run.of_turns hok h hpump
  have hls : ∀ l ∈ ls, ∃ p, l = .deliver p := by
    intro l hl
    obtain ⟨t, ht⟩ := hls l hl
    obtain ⟨p, -, hp⟩ := Backend.label_eq_some ht
    exact ⟨p, hp⟩
  have hnet : ∀ id, (s'.view id).net = [] := fun id => System.view_net_of_drained hdrained
  have hcount : ∀ (k : Query) id r a, ((k.queue ((s'.coord r).site id)) = []) →
      past.count (.call r ((k.call a).op id)) = s'.answers.countP (k.invokedFor id r a) := by
    intro k id r a hempty
    have hall := callbacks_accounted hrun k id r a
    rwa [hempty, List.count_nil, Nat.add_zero, count_call_deliveries hls] at hall
  refine ⟨s', hpump, hdrained, fun id r a => ?_, fun id hann r a => ?_⟩
  · exact hcount .existence id r a
      ((Entity.exchanging_of_run (Config.run_any hrun id)).settled (hnet id) r)
  · refine hcount .location id r a ?_
    have hatt := Entity.attended_of_run (Config.run_each hrun (fun _ _ _ hl => hl) id)
      fun _ _ _ ha => ha
    refine hatt.settled (hnet id) ?_ r
    -- Nothing is left on its way to the home, so the home itself has a record.
    rcases Entity.told_of_run (Config.run_any hrun id) (hann.deliveries hls) with hdir | ⟨n, hn⟩
    · obtain ⟨n, hn⟩ := Option.isSome_iff_exists.mp hdir
      rw [Entity.Site.served_of_node (n := n) (by rw [Entity.Site.node, hn]; rfl)]
      simp
    · rw [hnet id] at hn
      exact absurd hn (by simp)

/-- Two ranks wait for entity 42, which then registers on a third. -/
theorem drain_answers_small : ∃ past s,
    Config.small.Run (Each fun _ _ v a => Entity.HostEmigrates v a) past s ∧
      ∃ s', Config.small.pump .inOrder 2000 s = some s' ∧
        s'.answers.countP (Query.location.invokedFor 42 2 6) = 1 := by
  obtain ⟨past, s, hrun, hwork, hann, hcount⟩ := Config.exists_run
    (show ∃ r ∈ Config.small.play (Each fun _ _ v a => Entity.HostEmigrates v a)
        [.call 1 (.getLocation 42 5), .call 2 (.getLocation 42 6), .call 2 (.entityExists 42 7),
          .deliver ⟨2, 0, ⟨42, .locationRequest 2⟩⟩, .call 3 (.registerEntity 42)],
        r.2.workload = 7 ∧ Config.small.Announced r.1 42 ∧
          r.1.count (.call 2 (.getLocation 42 6)) = 1 by decide +kernel)
  have hiters : s.workload ≤ 2000 := hwork.trans_le (by decide)
  obtain ⟨s', hpump, -, -, hloc⟩ := drain_answers (fun _ => Nat.one_pos) hrun .inOrder hiters
  exact ⟨past, s, hrun, s', hpump, (hloc 42 hann 2 6).symm.trans hcount⟩

end Loc
