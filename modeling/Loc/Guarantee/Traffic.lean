import Loc.Entity.Traffic
import Loc.Refinement

/-!
# Loc.Guarantee.Traffic

What the resolver promises about its **messages**: who receives any, whom the home
refreshes, and how many there are.
-/

namespace Loc

open Channel (Packet)
open Coordinator (Op)
open Entity (Act)

variable {EntityID : Type} [DecidableEq EntityID] {cfg : Config EntityID}
  {past : List (Label EntityID)} {s : System EntityID}

/-! ### Who hears of an entity -/

/-- The label gives `r` a reason to hear where `id` is. -/
def Label.interests (r : NodeType) (id : EntityID) : Label EntityID → Bool
  | .call r' (.getLocation id' _) | .call r' (.entityExists id' _)
  | .call r' (.entityEmigrated id' _) => r' = r && id' = id
  | _ => false

/-- **Nobody hears of an entity unasked.** A rank other than the home that has neither
queried an entity nor sent it off has no record of it, nobody waiting for it and no
standing at its home, and no message about it has reached the rank or is on its way. -/
theorem uninterested_hear_nothing {ok : Runs.Guard (System EntityID) (Label EntityID)}
    (h : cfg.Run ok past s) {id : EntityID} {r : NodeType} (hr : r ≠ cfg.home id)
    (hquiet : ∀ l ∈ past, l.interests r id = false) :
    (s.coord r).recs.exists id = false ∧
    (s.coord r).pending id = [] ∧ (s.coord r).pendingExists id = [] ∧
    r ∉ (s.coord (cfg.home id)).locAsks id ∧ r ∉ (s.coord (cfg.home id)).pendingHome id ∧
    ∀ p : Packet NodeType (ControlMsg EntityID), p.body.id = id →
      p ∈ s.net ∨ .deliver p ∈ past → p.dst ≠ r := by
  have hrun := Config.run_any h id
  have hrouted := Entity.routed_of_run hrun Entity.routed_init
  have hint := Entity.interested_of_run hrun
  have hasked : ¬ Entity.Asked (about id past) r := by
    rintro ⟨a, ha⟩
    simpa [Label.interests, Entity.Call.op] using hquiet _ (mem_about_call.mp ha)
  have hinquired : ¬ Entity.Inquired (about id past) r := by
    rintro ⟨a, ha⟩
    simpa [Label.interests, Entity.Call.op] using hquiet _ (mem_about_call.mp ha)
  have hsent : ¬ Entity.SentOff (about id past) r := by
    rintro ⟨d, hd⟩
    simpa [Label.interests, Entity.Call.op] using hquiet _ (mem_about_call.mp hd)
  have hsite := hint.site r
  refine ⟨?_, ?_, ?_, fun hmem => hasked ((hint.site _).asks r hmem),
    fun hmem => hasked ((hint.site _).pendingHome r hmem), fun p hid hp hdst => ?_⟩
  · have hcached : ((s.coord r).site id).cached = none := by
      by_contra hsome
      rcases hsite.cached hsome with hyes | hyes | hyes
      · exact hasked hyes
      · exact hinquired hyes
      · exact hsent hyes
    have hnone : ((s.coord r).site id).node = none :=
      Entity.Site.node_eq_none.mpr ⟨(hrouted.site r).dir hr, hcached⟩
    rw [Coordinator.exists_eq, hnone]
    rfl
  · by_contra hwait
    exact hasked (hsite.pending hwait)
  · by_contra hwait
    exact hinquired (hsite.pendingExists hwait)
  · -- A message to `r` about `id`, in flight or delivered, would answer a query of `r`.
    subst hid hdst
    have hreason : Entity.Asked (about p.body.id past) p.dst ∨
        Entity.Inquired (about p.body.id past) p.dst := by
      rcases hp with hnet | hpast
      · exact hint.packet_dst (p := ⟨p.src, p.dst, p.body.msg⟩) hrouted
          (System.mem_view_net.mpr hnet) hr
      · exact Entity.delivered_dst_of_run (p := ⟨p.src, p.dst, p.body.msg⟩) hrun
          (mem_about_deliver.mpr hpast) hr
    rcases hreason with hyes | hyes
    · exact hasked hyes
    · exact hinquired hyes

/-- Rank 3 hosts other entities and asks for one of them, while 42 is resolved from
rank 2. -/
theorem uninterested_hear_nothing_small : ∃ past s, Config.small.Run Runs.free past s ∧
    (s.coord 2).recs.exists 42 = true ∧ (s.coord 3).recs.exists 42 = false := by
  obtain ⟨past, s, hrun, hknown, hquiet⟩ := Config.exists_run
    (show ∃ r ∈ Config.small.play Runs.free
        [.call 1 (.registerEntity 42), .deliver ⟨1, 0, ⟨42, .updateHome 1⟩⟩,
          .call 3 (.registerEntity 7), .call 3 (.getLocation 7 4), .call 2 (.getLocation 42 5),
          .deliver ⟨2, 0, ⟨42, .locationRequest 2⟩⟩, .deliver ⟨0, 2, ⟨42, .resolveResponse 1⟩⟩],
        (r.2.coord 2).recs.exists 42 = true ∧ ∀ l ∈ r.1, l.interests 3 42 = false
      by decide +kernel)
  exact ⟨past, s, hrun, hknown,
    (uninterested_hear_nothing hrun (r := 3) (by decide) hquiet).1⟩

/-! ### Whom the home refreshes -/

/-- **The askers are the ranks answered.** In every state a run reaches, the home's
`loc_asks_` holds, each once, exactly the ranks that it has sent a `resolveResponse`,
delivered or still in flight. -/
theorem askers_are_the_answered {ok : Runs.Guard (System EntityID) (Label EntityID)}
    (h : cfg.Run ok past s) (id : EntityID) :
    ((s.coord (cfg.home id)).locAsks id).Nodup ∧
    ∀ r, r ∈ (s.coord (cfg.home id)).locAsks id ↔
      ∃ n, .deliver ⟨cfg.home id, r, ⟨id, .resolveResponse n⟩⟩ ∈ past ∨
        ⟨cfg.home id, r, ⟨id, .resolveResponse n⟩⟩ ∈ s.net := by
  obtain ⟨hnodup, hasks⟩ := Entity.askersExact_of_run (Config.run_any h id)
  refine ⟨hnodup, fun r => (hasks r).trans (exists_congr fun n => ?_)⟩
  rw [mem_about_deliver, System.mem_view_net]

/-- Rank 2 is answered at once, rank 1 when the entity registers. -/
theorem askers_are_the_answered_small : ∃ past s, Config.small.Run Runs.free past s ∧
    (s.coord 0).locAsks 42 = [2, 1] ∧ ((s.coord 0).locAsks 42).Nodup := by
  obtain ⟨past, s, hrun, hasks⟩ := Config.exists_run
    (show ∃ r ∈ Config.small.play Runs.free
        [.call 1 (.getLocation 42 5), .deliver ⟨1, 0, ⟨42, .locationRequest 1⟩⟩,
          .call 0 (.registerEntity 42), .call 2 (.getLocation 42 6),
          .deliver ⟨2, 0, ⟨42, .locationRequest 2⟩⟩],
        (r.2.coord 0).locAsks 42 = [2, 1] by decide +kernel)
  exact ⟨past, s, hrun, hasks, (askers_are_the_answered hrun 42).1⟩

/-! ### How many messages there are -/

/-- The label is an event of `id` of the kind `P`. -/
def Label.isOf (id : EntityID) (P : Entity.Act NodeType → Bool) (l : Label EntityID) : Bool :=
  ((l.about id).map P).getD false

/-- The rank that asks where `id` is. -/
def Label.asker (id : EntityID) : Label EntityID → Option NodeType
  | .call r (.getLocation id' _) => if id' = id then some r else none
  | _ => none

theorem countP_about (id : EntityID) (P : Entity.Act NodeType → Bool) :
    (about id past).countP P = past.countP (Label.isOf id P) := by
  rw [about, List.countP_filterMap]
  rfl

theorem countP_view_net (id : EntityID) :
    (s.view id).net.length = s.net.countP fun p => p.body.id = id := by
  rw [System.view, Channel.restrict, List.length_filterMap_eq_countP]
  refine List.countP_congr fun p _ => ?_
  simp [Packet.restrict, ControlMsg.about]

/-- **The traffic is bounded.** In every run, the messages about an entity, delivered or
in flight, number at most two for each query, and for each announcement of a host one
and as many as there are ranks that ever asked where the entity is. -/
theorem traffic_bounded {ok : Runs.Guard (System EntityID) (Label EntityID)}
    (h : cfg.Run ok past s) (id : EntityID) {askers : List NodeType}
    (hask : ∀ l ∈ past, ∀ r ∈ l.asker id, r = cfg.home id ∨ r ∈ askers) :
    past.countP (Label.isOf id Act.isDelivery) + (s.net.countP fun p => p.body.id = id) ≤
      2 * past.countP (Label.isOf id Act.isQuery) +
        (askers.length + 1) * past.countP (Label.isOf id Act.announces) := by
  have hbill := Entity.bill_le_of_run (Config.run_any h id) (A := askers) fun r hr ⟨a, ha⟩ =>
    (hask _ (mem_about_call.mp ha) r (by simp [Label.asker, Entity.Call.op])).resolve_left hr
  have hnet : (s.view id).net.length ≤
      ((s.view id).net.map fun p => Entity.price askers.length p.body).sum := by
    have hone := List.sum_le_sum (l := (s.view id).net) (f := fun _ => 1)
      fun p _ => Entity.one_le_price (K := askers.length) p.body
    simpa using hone
  rw [← countP_view_net, ← countP_about, ← countP_about, ← countP_about]
  unfold Entity.bill Entity.allowance at hbill
  omega

/-- One migration under two askers: the refreshes are all there are. -/
theorem traffic_bounded_small : ∃ past s, Config.small.Run Runs.free past s ∧
    past.countP (Label.isOf 42 Act.isDelivery) + (s.net.countP fun p => p.body.id = 42) = 7 ∧
    past.countP (Label.isOf 42 Act.isDelivery) + (s.net.countP fun p => p.body.id = 42) ≤
      2 * past.countP (Label.isOf 42 Act.isQuery) +
        3 * past.countP (Label.isOf 42 Act.announces) := by
  obtain ⟨past, s, hrun, hcount, hask⟩ := Config.exists_run
    (show ∃ r ∈ Config.small.play Runs.free
        [.call 0 (.registerEntity 42), .call 1 (.getLocation 42 5), .call 2 (.getLocation 42 6),
          .deliver ⟨1, 0, ⟨42, .locationRequest 1⟩⟩, .deliver ⟨2, 0, ⟨42, .locationRequest 2⟩⟩,
          .call 0 (.entityEmigrated 42 3), .call 3 (.entityImmigrated 42 0),
          .deliver ⟨3, 0, ⟨42, .updateHome 3⟩⟩],
        r.1.countP (Label.isOf 42 Act.isDelivery) + (r.2.net.countP fun p => p.body.id = 42) = 7 ∧
        ∀ l ∈ r.1, ∀ q ∈ l.asker 42, q = Config.small.home 42 ∨ q ∈ [1, 2] by decide +kernel)
  exact ⟨past, s, hrun, hcount, traffic_bounded hrun 42 hask⟩

end Loc
