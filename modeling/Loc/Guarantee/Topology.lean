import Mathlib.Data.Int.Interval
import Loc.Entity.Interest
import Loc.Records

/-!
# Loc.Guarantee.Topology

**Who talks to whom, and what they keep.** The resolver is a star around the home of each
entity: every message about it has its home at exactly one end, and a rank of the
communicator at the other. Each rank stores no more than its cache holds, besides what
it answers for as the home.
-/

namespace Loc

open Channel (Packet posted)

variable {EntityID : Type} [DecidableEq EntityID] {cfg : Config EntityID}
  {past : List (Label EntityID)} {s : System EntityID}
  {ok : Runs.Guard (System EntityID) (Label EntityID)}

/-! ### Ranks -/

/-- Operations are called on ranks of the communicator. -/
theorem Config.isRank_of_call (h : cfg.Run ok past s) {r : NodeType} {op : Coordinator.Op EntityID}
    (hcall : .call r op ∈ past) : cfg.IsRank r := by
  refine h.invariant (I := fun past _ => ∀ r op, .call r op ∈ past → cfg.IsRank r) (by simp) ?_
    (fun _ _ _ _ hsilent => hsilent.elim) r op hcall
  intro past s l s' hpast _ hstep r op hmem
  rcases List.mem_cons.mp hmem with heq | hmem
  · rw [← heq] at hstep
    exact Config.enabled_of_step hstep
  · exact hpast r op hmem

/-- So every rank that is activated is one: messages go to the home, or to a rank that
has called an operation. -/
theorem Config.isRank_of_event (h : cfg.Run ok past s) {l : Label EntityID} (hl : l ∈ past) :
    cfg.IsRank l.rank := by
  cases l with
  | call r op => exact cfg.isRank_of_call h hl
  | deliver p =>
      by_cases hdst : p.dst = cfg.home p.body.id
      · rw [Label.rank, hdst]
        exact cfg.home_isRank p.body.id
      · have hreason := Entity.delivered_dst_of_run (p := ⟨p.src, p.dst, p.body.msg⟩)
          (Config.run_any h p.body.id) (mem_about_deliver.mpr hl) hdst
        rcases hreason with ⟨a, ha⟩ | ⟨a, ha⟩
        · exact cfg.isRank_of_call h (mem_about_call.mp ha)
        · exact cfg.isRank_of_call h (mem_about_call.mp ha)

/-- What is in flight was sent by a rank that was activated. -/
theorem Config.sender_of_run (h : cfg.Run ok past s)
    {p : Packet NodeType (ControlMsg EntityID)} (hp : p ∈ s.net) : ∃ l ∈ past, l.rank = p.src := by
  refine h.invariant (I := fun past s => ∀ p ∈ s.net, ∃ l ∈ past, l.rank = p.src)
    (by simp [Config.init]) ?_ (fun _ _ _ _ hsilent => hsilent.elim) p hp
  intro past s l s' hnet _ hstep p hp
  have hsent : p ∈ s.net ∨ l.rank = p.src := by
    cases l with
    | call r op =>
        obtain ⟨k, -, rfl⟩ := System.activate_eq_some (Option.ite_none_right_eq_some.mp hstep).2
        rcases List.mem_append.mp hp with hp | hp
        · exact Or.inl hp
        · exact Or.inr (Channel.mem_posted.mp hp).1.symm
    | deliver q =>
        obtain ⟨k, -, rfl⟩ := System.activate_eq_some (Option.ite_none_right_eq_some.mp hstep).2
        rcases List.mem_append.mp hp with hp | hp
        · exact Or.inl (List.mem_of_mem_erase hp)
        · exact Or.inr (Channel.mem_posted.mp hp).1.symm
  rcases hsent with hp | hsrc
  · exact (hnet p hp).imp fun l' hl' => ⟨List.mem_cons_of_mem _ hl'.1, hl'.2⟩
  · exact ⟨l, List.mem_cons_self, hsrc⟩

/-- What holds of every packet ever in flight holds of those delivered. -/
theorem Config.delivered_of_run {Q : Packet NodeType (ControlMsg EntityID) → Prop}
    (hnet : ∀ past s, cfg.Run ok past s → ∀ p ∈ s.net, Q p) (h : cfg.Run ok past s)
    {p : Packet NodeType (ControlMsg EntityID)} (hp : p ∈ s.net ∨ .deliver p ∈ past) : Q p := by
  rcases hp with hp | hp
  · exact hnet past s h p hp
  · induction h with
    | refl => exact absurd hp List.not_mem_nil
    | step hrun hok hstep ih =>
        rcases List.mem_cons.mp hp with rfl | hp
        · exact hnet _ _ hrun p (Config.enabled_of_step hstep)
        · exact ih hp
    | silent _ hs _ => exact hs.elim

/-! ### The star -/

/-- The packet has the home of its entity at one end, another rank at the other, and
names its sender where its message names one. -/
def Config.Radial (cfg : Config EntityID) (p : Packet NodeType (ControlMsg EntityID)) : Prop :=
  cfg.IsRank p.src ∧ cfg.IsRank p.dst ∧ p.src ≠ p.dst ∧
    match p.body.msg with
    | .updateHome n => p.src = n ∧ p.dst = cfg.home p.body.id
    | .locationRequest q | .existsRequest q => p.src = q ∧ p.dst = cfg.home p.body.id
    | .resolveResponse _ | .existsResponse _ _ => p.src = cfg.home p.body.id

/-- **The resolver is a star.** In every run every message about an entity, delivered or
in flight, travels between its home and another rank of the communicator: updates and
requests to the home, with the sender's own rank in them, and responses from it. -/
theorem star_topology (h : cfg.Run ok past s) {p : Packet NodeType (ControlMsg EntityID)}
    (hp : p ∈ s.net ∨ .deliver p ∈ past) : cfg.Radial p := by
  refine Config.delivered_of_run (fun past s h p hp => ?_) h hp
  have hrun := Config.run_any h p.body.id
  have hrouted := Entity.routed_of_run hrun Entity.routed_init
  have hview : (⟨p.src, p.dst, p.body.msg⟩ : Packet NodeType (Msg NodeType)) ∈
      (s.view p.body.id).net := System.mem_view_net.mpr hp
  have haddr := hrouted.packet _ hview
  have hsrc : cfg.IsRank p.src := by
    obtain ⟨l, hl, hrank⟩ := Config.sender_of_run h hp
    exact hrank ▸ cfg.isRank_of_event h hl
  have hdst : cfg.IsRank p.dst := by
    by_cases hdst : p.dst = cfg.home p.body.id
    · exact hdst ▸ cfg.home_isRank p.body.id
    · rcases (Entity.interested_of_run hrun).packet_dst hrouted hview hdst with ⟨a, ha⟩ | ⟨a, ha⟩
      · exact cfg.isRank_of_call h (mem_about_call.mp ha)
      · exact cfg.isRank_of_call h (mem_about_call.mp ha)
  obtain ⟨src, dst, id, msg⟩ := p
  refine ⟨hsrc, hdst, ?_⟩
  cases msg with
  | updateHome n | locationRequest n | existsRequest n =>
      obtain ⟨hfrom, hto, hne⟩ := haddr
      exact ⟨fun heq => hne (hfrom.symm.trans (heq.trans hto)), hfrom, hto⟩
  | resolveResponse n | existsResponse ex n =>
      obtain ⟨hfrom, hto⟩ := haddr
      exact ⟨fun heq => hto (heq.symm.trans hfrom), hfrom⟩

/-- The home answers rank 2, which it remembers, when entity 42 turns up on rank 1. -/
theorem star_topology_small : ∃ past s, Config.small.Run Runs.free past s ∧
    (⟨0, 2, ⟨42, .resolveResponse 1⟩⟩ : Packet NodeType (ControlMsg Nat)) ∈ s.net ∧
      Config.small.Radial ⟨0, 2, ⟨42, .resolveResponse 1⟩⟩ := by
  obtain ⟨past, s, hrun, hnet⟩ := Config.exists_run
    (show ∃ r ∈ Config.small.play Runs.free
        [.call 2 (.getLocation 42 5), .deliver ⟨2, 0, ⟨42, .locationRequest 2⟩⟩,
          .call 1 (.registerEntity 42), .deliver ⟨1, 0, ⟨42, .updateHome 1⟩⟩],
        ⟨0, 2, ⟨42, .resolveResponse 1⟩⟩ ∈ r.2.net by decide +kernel)
  exact ⟨past, s, hrun, hnet, star_topology hrun (Or.inl hnet)⟩

/-! ### What a rank keeps -/

/-- What the rank `r` keeps about `id`, besides its cached record and the callbacks that
wait there, it keeps as the home; and among the askers it keeps no rank twice. -/
structure Config.Frugal (cfg : Config EntityID) (r : NodeType) (c : Coordinator EntityID)
    (id : EntityID) : Prop where
  away : r ≠ cfg.home id →
    c.recs.directory.exists id = false ∧ c.locAsks id = [] ∧ c.pendingHome id = []
  home : r = cfg.home id → c.pendingExists id = []
  asks : (c.locAsks id).Nodup ∧ (c.locAsks id).length < cfg.numRanks

omit [DecidableEq EntityID] in
/-- There are fewer ranks to remember than there are ranks. -/
theorem Config.length_lt_numRanks {asks : List NodeType} {home : NodeType} (hnodup : asks.Nodup)
    (hhome : cfg.IsRank home) (hasks : ∀ q ∈ asks, cfg.IsRank q ∧ q ≠ home) :
    asks.length < cfg.numRanks := by
  have hsub : asks.toFinset ⊆ (Finset.Ico (0 : Int) cfg.numRanks).erase home := by
    intro q hq
    obtain ⟨hrank, hne⟩ := hasks q (List.mem_toFinset.mp hq)
    exact Finset.mem_erase.mpr ⟨hne, Finset.mem_Ico.mpr hrank⟩
  have hle := Finset.card_le_card hsub
  rw [List.toFinset_card_of_nodup hnodup,
    Finset.card_erase_of_mem (Finset.mem_Ico.mpr hhome), Int.card_Ico] at hle
  have hpos : 0 < cfg.numRanks := by
    have hlt := lt_of_le_of_lt hhome.1 hhome.2
    exact_mod_cast hlt
  omega

/-- **A rank keeps little.** In every state a run reaches, a rank caches no more records
than its capacity allows and keeps a directory, askers and buffered requesters only for
the entities it is home to, with each other rank at most once among the askers. -/
theorem footprint_bounded (h : cfg.Run ok past s) (r : NodeType) :
    (s.coord r).recs.cache.val.cache.length ≤ cfg.maxCacheSize r ∧
      (s.coord r).recs.cache.val.lookup.keys.card ≤ cfg.maxCacheSize r ∧
      ∀ id, cfg.Frugal r (s.coord r) id := by
  have hcoh := (s.coord r).recs.cache.coherent
  have hsize := (Config.sized_of_run h r).2
  refine ⟨hsize ▸ hcoh.length_le, hsize ▸ hcoh.card_keys.trans_le hcoh.length_le, fun id => ?_⟩
  have hrun := Config.run_any h id
  have hsite := (Entity.routed_of_run hrun Entity.routed_init).site r
  refine ⟨fun hr => ⟨?_, hsite.asks hr, hsite.pendingHome hr⟩, hsite.pendingExists, ?_⟩
  · have hdir : ((s.coord r).site id).dir = none := hsite.dir hr
    rw [Coordinator.directory_exists_eq, hdir]
    rfl
  · by_cases hr : r = cfg.home id
    · subst hr
      have hnodup : ((s.coord (cfg.home id)).locAsks id).Nodup := (Entity.askersExact_of_run hrun).1
      refine ⟨hnodup, Config.length_lt_numRanks hnodup (cfg.home_isRank id) fun q hq => ?_⟩
      obtain ⟨a, ha⟩ := ((Entity.interested_of_run hrun).site (cfg.home id)).asks q hq
      exact ⟨cfg.isRank_of_call h (mem_about_call.mp ha), hsite.asker_ne q hq⟩
    · have hnil : (s.coord r).locAsks id = [] := hsite.asks hr
      rw [hnil]
      have hhome := cfg.home_isRank id
      have hlt := lt_of_le_of_lt hhome.1 hhome.2
      exact ⟨List.nodup_nil, by exact_mod_cast hlt⟩

/-- The home remembers rank 2 once, which it has answered twice. -/
theorem footprint_bounded_small : ∃ past s, Config.small.Run Runs.free past s ∧
    (s.coord 0).locAsks 42 = [2] ∧ Config.small.Frugal 0 (s.coord 0) 42 := by
  obtain ⟨past, s, hrun, hasks⟩ := Config.exists_run
    (show ∃ r ∈ Config.small.play Runs.free
        [.call 0 (.registerEntity 42), .call 2 (.getLocation 42 5),
          .deliver ⟨2, 0, ⟨42, .locationRequest 2⟩⟩, .deliver ⟨0, 2, ⟨42, .resolveResponse 0⟩⟩,
          .call 2 .clearCache, .call 2 (.getLocation 42 6),
          .deliver ⟨2, 0, ⟨42, .locationRequest 2⟩⟩],
        (r.2.coord 0).locAsks 42 = [2] by decide +kernel)
  exact ⟨past, s, hrun, hasks, (footprint_bounded hrun 0).2.2 42⟩

end Loc
