import Loc.Entity.Waiters
import Loc.Refinement

/-!
# Loc.Guarantee.Waiters

What the resolver promises about **location waiters**: a callback passed to
`getLocation` is invoked or queued, and a queued one is attended to until its
entity is known.
-/

namespace Loc

open Entity (Query)

variable {EntityID : Type} [DecidableEq EntityID] {cfg : Config EntityID}
  {past : List (Label EntityID)} {s : System EntityID}

/-! ### Counting callbacks across the refinement -/

/-- The invocations on `r` of the callback `a` passed for `id`. -/
def Entity.Query.invokedFor (k : Query) (id : EntityID) (r : NodeType) (a : Nat)
    (i : Invocation EntityID) : Bool :=
  i.id = id && k.invokes r a i.answer

theorem count_about (id : EntityID) (r : NodeType) (c : Entity.Call NodeType) :
    (about id past).count (.call r c) = past.count (.call r (c.op id)) := by
  rw [about, List.count_filterMap, List.count_eq_countP]
  refine List.countP_congr fun l _ => ?_
  rw [beq_iff_eq, beq_iff_eq]
  exact Label.about_eq_call

theorem countP_answersAbout (k : Query) (id : EntityID) (r : NodeType) (a : Nat)
    (log : List (Invocation EntityID)) :
    (answersAbout id log).countP (k.invokes r a) = log.countP (k.invokedFor id r a) := by
  rw [answersAbout, List.countP_filterMap]
  refine List.countP_congr fun i _ => ?_
  by_cases hid : i.id = id <;> simp [Query.invokedFor, hid]

/-- Every callback passed was invoked or is queued, as often as it was passed. -/
theorem callbacks_accounted {ok : Runs.Guard (System EntityID) (Label EntityID)}
    (h : cfg.Run ok past s) (k : Query) (id : EntityID) (r : NodeType) (a : Nat) :
    past.count (.call r ((k.call a).op id)) =
      s.answers.countP (k.invokedFor id r a) + (k.queue ((s.coord r).site id)).count a := by
  rw [← count_about, ← countP_answersAbout]
  exact Entity.accounted_of_run (Config.run_any h id) k r a

/-! ### No stranded waiter -/

theorem recs_exists_eq_false {c : Coordinator EntityID} {id : EntityID} {r : NodeType}
    (h : (c.site id).served r = none) : c.recs.exists id = false ∧ id ∉ c.localRegistered := by
  obtain ⟨hnode, hhosts⟩ := Entity.Site.served_eq_none.mp h
  exact ⟨by rw [Coordinator.exists_eq, hnode]; rfl, of_decide_eq_false hhosts⟩

/-- **No stranded location waiter.** When only hosts emigrate entities, and
whatever the order of deliveries: a waiter away from the home has its request in
flight, buffered or answered; the home keeps nobody waiting for what it knows;
every callback passed is invoked or queued exactly as often as it was passed; and
so, with nothing in flight, nobody waits for an entity its home knows. -/
theorem no_stranded_waiter
    (h : cfg.Run (Each fun _ _ v a => Entity.HostEmigrates v a) past s) :
    (∀ id r, r ≠ cfg.home id → (s.coord r).pending id ≠ [] →
      ⟨r, cfg.home id, ⟨id, .locationRequest r⟩⟩ ∈ s.net ∨
      r ∈ (s.coord (cfg.home id)).pendingHome id ∨
      ∃ n, ⟨cfg.home id, r, ⟨id, .resolveResponse n⟩⟩ ∈ s.net) ∧
    (∀ id, (s.coord (cfg.home id)).pendingHome id ≠ [] ∨ (s.coord (cfg.home id)).pending id ≠ [] →
      (s.coord (cfg.home id)).recs.exists id = false ∧
        id ∉ (s.coord (cfg.home id)).localRegistered) ∧
    (∀ id r a, past.count (.call r (.getLocation id a)) =
      s.answers.countP (Query.location.invokedFor id r a) + ((s.coord r).pending id).count a) ∧
    (s.Drained → ∀ id, (s.coord (cfg.home id)).isCached id = true →
      ∀ r, (s.coord r).pending id = []) := by
  have hatt := fun id => Entity.attended_of_run (Config.run_each h (fun _ _ _ hl => hl) id)
    fun _ _ _ ha => ha
  refine ⟨fun id r hr hwait => ?_, fun id hwait => ?_, fun id r a => ?_, fun hnet id hknown => ?_⟩
  · rcases (hatt id).away r hr hwait with hreq | hbuf | ⟨n, hresp⟩
    · exact Or.inl (System.mem_view_net.mp hreq)
    · exact Or.inr (Or.inl hbuf)
    · exact Or.inr (Or.inr ⟨n, System.mem_view_net.mp hresp⟩)
  · exact recs_exists_eq_false ((hatt id).idle hwait)
  · exact callbacks_accounted h .location id r a
  · refine (hatt id).settled (System.view_net_of_drained hnet) fun hnone => ?_
    obtain ⟨hrecs, hlocal⟩ := recs_exists_eq_false hnone
    simp [Coordinator.isCached, hrecs, hlocal] at hknown

/-- Two ranks ask before entity 42 exists; it registers on one of them. -/
theorem no_stranded_waiter_small : ∃ past s,
    Config.small.Run (Each fun _ _ v a => Entity.HostEmigrates v a) past s ∧
      s.Drained ∧ (s.coord 0).isCached 42 = true ∧ (s.coord 2).pending 42 = [] := by
  obtain ⟨past, s, hrun, hnet, hknown⟩ := Config.exists_run
    (show ∃ r ∈ Config.small.play (Each fun _ _ v a => Entity.HostEmigrates v a)
        [.call 1 (.getLocation 42 5), .call 2 (.getLocation 42 6), .call 2 (.getLocation 42 7),
          .deliver ⟨2, 0, ⟨42, .locationRequest 2⟩⟩, .call 1 (.registerEntity 42),
          .deliver ⟨1, 0, ⟨42, .updateHome 1⟩⟩, .deliver ⟨1, 0, ⟨42, .locationRequest 1⟩⟩,
          .deliver ⟨0, 1, ⟨42, .resolveResponse 1⟩⟩, .deliver ⟨0, 2, ⟨42, .resolveResponse 1⟩⟩],
        r.2.Drained ∧ (r.2.coord 0).isCached 42 = true by decide +kernel)
  exact ⟨past, s, hrun, hnet, hknown, (no_stranded_waiter hrun).2.2.2 hnet 42 hknown 2⟩

end Loc
