import Loc.Entity.Forwarding
import Loc.Guarantee.Refresh
import Loc.Guarantee.Service
import Loc.Guarantee.Topology
import Loc.Lib.Pointers

/-!
# Loc.Guarantee.Forwarding

What a stale record is good for: **forwarding finds the entity**. A rank that sent an
entity off has its new location on record, so that whoever looks there is sent on. The
records of former hosts grow stale when the entity moves again, but following them from
rank to rank ends at the host.
-/

namespace Loc

variable {EntityID : Type} [DecidableEq EntityID] {cfg : Config EntityID}
  {past : List (Label EntityID)} {s : System EntityID} {id : EntityID} {host : NodeType}

/-! ### Asking around -/

/-- The node that the callback `a` of `r` was invoked with, if nothing else was. -/
def locatedAt (id : EntityID) (r : NodeType) (a : NodeAction) :
    List (Invocation EntityID) → Option NodeType
  | [⟨id', .located r' a' n⟩] => if id' = id ∧ r' = r ∧ a' = a then some n else none
  | _ => none

/-- Ask the rank one has come to where `id` is, poll for the answer, and go on to the rank
it names. -/
def Config.ask (cfg : Config EntityID) (b : Backend EntityID) (iters : Nat) (id : EntityID)
    (a : NodeAction) (x : NodeType × System EntityID) : Option (NodeType × System EntityID) := do
  let s₁ ← cfg.step x.2 (.call x.1 (.getLocation id a))
  let s' ← cfg.pump b iters s₁
  let n ← locatedAt id x.1 a (s'.answers.drop x.2.answers.length)
  return (n, s')

theorem Config.ask_of_answer {b : Backend EntityID} {iters : Nat} {a : NodeAction}
    {r n : NodeType} {s₁ s' : System EntityID}
    (hstep : cfg.step s (.call r (.getLocation id a)) = some s₁)
    (hpump : cfg.pump b iters s₁ = some s')
    (hanswer : s'.answers = s.answers ++ [⟨id, .located r a n⟩]) :
    cfg.ask b iters id a (r, s) = some (n, s') := by
  have hnew : locatedAt id r a (s'.answers.drop s.answers.length) = some n := by
    rw [hanswer, List.drop_left]
    exact if_pos ⟨rfl, rfl, rfl⟩
  simp only [ask, hstep, hpump, hnew, Option.bind_eq_bind, Option.bind_some, Option.pure_def]

/-- No former host has its record of `id` from existence queries alone. -/
def Untangled (past : List (Label EntityID)) (id : EntityID) : Prop :=
  ∀ r d, .call r (.entityEmigrated id d) ∈ past →
    (∀ src n, .deliver ⟨src, r, ⟨id, .existsResponse true n⟩⟩ ∉ past) ∨
      ∃ src n, .deliver ⟨src, r, ⟨id, .resolveResponse n⟩⟩ ∈ past

/-- What one asks around in: moves have waited for the news, nothing is in flight, `host`
has the entity, and no former host was misled. -/
structure Config.Traceable (cfg : Config EntityID) (id : EntityID) (host : NodeType)
    (past : List (Label EntityID)) (s : System EntityID) : Prop where
  run : cfg.Run (fun past s l => Fifo s l ∧
    Each (fun _ past v a => Entity.Enduring past a ∧ Entity.Paced v a) past s l) past s
  drained : s.Drained
  hosted : id ∈ (s.coord host).localRegistered
  untangled : Untangled past id

namespace Config.Traceable

variable {r : NodeType}

theorem whereabouts (h : cfg.Traceable id host past s) :
    Entity.whereabouts (about id past) = .hosted host :=
  (Entity.hosting_of_run (Config.run_fifo_each h.run id) (fun _ _ _ ha => ha.2.1.1) host).mp
    (show ((s.view id).site host).hosts = true from decide_eq_true h.hosted)

/-- **The answer leads closer**: whoever does not host the entity names a rank that has
hosted it since, or does. -/
theorem known_closer (h : cfg.Traceable id host past s) (hr : r ≠ host) :
    ∃ n, s.known cfg.home r id = some n ∧
      Entity.lag (about id past) n < Entity.lag (about id past) r := by
  have hrun := Config.run_fifo_each h.run id
  have hlast := (Entity.itinerary_of_run hrun fun _ _ _ ha => ha.2.1).2
  have hnot : ((s.coord r).site id).hosts ≠ true := fun hself =>
    hr (Entity.Whereabouts.hosted.inj (((Entity.hosting_of_run hrun
      (fun _ _ _ ha => ha.2.1.1) r).mp hself).symm.trans h.whereabouts))
  rw [System.known, Entity.Site.resolved, if_neg hnot]
  cases hnode : ((s.coord r).site id).node with
  | none =>
      -- Whoever has no record asks the home, which has the host.
      refine ⟨host, ?_, Entity.lag_host_lt hlast h.whereabouts hr⟩
      rw [Option.none_or]
      exact Config.served_of_paced h.run h.drained h.hosted
  | some n =>
      refine ⟨n, rfl, ?_⟩
      by_cases hhome : r = cfg.home id
      · subst hhome
        have hdir := Config.dir_of_paced h.run h.drained h.hosted
        rw [Entity.Site.node, show ((s.coord _).site id).dir = _ from hdir] at hnode
        exact Option.some.inj hnode ▸ Entity.lag_host_lt hlast h.whereabouts hr
      · have hcached := cached_of_recordedNode h.run hhome
          ((Coordinator.site_node ..).symm.trans hnode)
        refine Entity.forwards hrun (fun _ _ _ ha => ha) (System.view_net_of_drained h.drained)
          (show ((s.view id).site host).hosts = true from decide_eq_true h.hosted) hhome hr ?_
          hcached
        rintro ⟨d, hd⟩
        refine (h.untangled r d (mem_about_call.mp hd)).imp (fun hnone src n hin => ?_) ?_
        · exact hnone src n (mem_about_deliver.mp hin)
        · rintro ⟨src, n, hin⟩
          exact ⟨src, n, mem_about_deliver.mpr hin⟩

/-- A rank closer to the host than another has hosted the entity, so it is one. -/
theorem isRank_of_closer (h : cfg.Traceable id host past s) {n : NodeType}
    (hlt : Entity.lag (about id past) n < Entity.lag (about id past) r) : cfg.IsRank n := by
  have hin : n ∈ Entity.hostRanks (about id past) :=
    List.idxOf_lt_length_iff.mp (hlt.trans_le List.idxOf_le_length)
  obtain ⟨a, ha, hhosted⟩ := List.mem_filterMap.mp hin
  obtain ⟨c, rfl⟩ := Entity.Act.call_of_hostedAt hhosted
  exact cfg.isRank_of_call h.run (mem_about_call.mp ha)

/-- A query that is answered at once leaves everything traceable, and the hosts as they were. -/
theorem asked (h : cfg.Traceable id host past s) {s' : System EntityID} {a : NodeAction}
    (hstep : cfg.step s (.call r (.getLocation id a)) = some s') (hdrained : s'.Drained) :
    cfg.Traceable id host (.call r (.getLocation id a) :: past) s' ∧
      Entity.hostRanks (about id (.call r (.getLocation id a) :: past)) =
        Entity.hostRanks (about id past) := by
  have habout : about id (.call r (.getLocation id a) :: past) =
      .call r (.getLocation a) :: about id past :=
    about_cons_call id past r (.getLocation a)
  have hrun : cfg.Run (fun past s l => Fifo s l ∧
      Each (fun _ past v a => Entity.Enduring past a ∧ Entity.Paced v a) past s l)
      (.call r (.getLocation id a) :: past) s' := by
    refine .step h.run ⟨trivial, fun id' _ act hact => ?_⟩ hstep
    obtain ⟨c, hc, rfl⟩ := Option.map_eq_some_iff.mp hact
    obtain ⟨-, hc⟩ := Option.ite_none_right_eq_some.mp hc
    obtain rfl := Option.some.inj hc
    exact ⟨⟨trivial, rfl⟩, trivial⟩
  refine ⟨⟨hrun, hdrained, ?_, ?_⟩, ?_⟩
  · have hhosting := Entity.hosting_of_run (Config.run_fifo_each hrun id)
      (fun _ _ _ ha => ha.2.1.1) host
    exact of_decide_eq_true (hhosting.mpr (habout ▸ h.whereabouts))
  · intro q d hd
    simpa using h.untangled q d (by simpa using hd)
  · rw [habout]
    rfl

/-- **One question.** The answer is what the system knows; and unless it is the host, one
may go on asking. -/
theorem ask_known (h : cfg.Traceable id host past s) (hroomy : cfg.Roomy) (hr : cfg.IsRank r)
    {n : NodeType} (hknown : s.known cfg.home r id = some n) (b : Backend EntityID)
    (a : NodeAction) {iters : Nat} (hiters : 2 ≤ iters) :
    ∃ s', cfg.ask b iters id a (r, s) = some (n, s') ∧ (n = host ∨ ∃ past',
      cfg.Traceable id host past' s' ∧
        Entity.hostRanks (about id past') = Entity.hostRanks (about id past)) := by
  obtain ⟨iters, rfl⟩ : ∃ n, iters = n + 2 := ⟨iters - 2, by omega⟩
  have hplaced := cfg.placed_of_run h.run Config.init_placed
  have hroom := cfg.hasRoom_of_run hroomy h.run
  rw [System.known] at hknown
  cases hres : ((s.coord r).site id).resolved r with
  | some m =>
      obtain rfl : m = n := by rwa [hres, Option.some_or, Option.some.injEq] at hknown
      obtain ⟨s', hstep, hdrained, hanswer, -⟩ :=
        getLocation_here hplaced hroom h.drained hr hres a
      exact ⟨s', Config.ask_of_answer hstep (Config.pump_of_drained hdrained _) hanswer,
        Or.inr ⟨_, h.asked hstep hdrained⟩⟩
  | none =>
      -- Only the home is left to ask, and it has the host.
      have hserved := Config.served_of_paced h.run h.drained h.hosted
      obtain rfl : host = n := by rwa [hres, Option.none_or, hserved, Option.some.injEq] at hknown
      obtain ⟨s₁, s', hstep, hpump, -, hanswer, -⟩ := getLocation_away hplaced hroom h.drained hr
        hres hserved (Config.pending_of_paced h.run h.drained h.hosted r) a b iters
      exact ⟨s', Config.ask_of_answer hstep hpump hanswer, Or.inl rfl⟩

end Config.Traceable

/-- The search has come to the host, or to a rank to ask next. -/
def Config.Searching (cfg : Config EntityID) (id : EntityID) (host : NodeType)
    (ranks : List NodeType) (x : NodeType × System EntityID) : Prop :=
  x.1 = host ∨ cfg.IsRank x.1 ∧ ∃ past, cfg.Traceable id host past x.2 ∧
    Entity.hostRanks (about id past) = ranks

/-- **One step of the search** gets closer to the host. -/
theorem Config.Searching.ask {ranks : List NodeType} {x : NodeType × System EntityID}
    (hx : cfg.Searching id host ranks x) (hroomy : cfg.Roomy) (b : Backend EntityID)
    (a : NodeAction) {iters : Nat} (hiters : 2 ≤ iters) :
    x.1 = host ∨ ∃ y, cfg.ask b iters id a x = some y ∧ cfg.Searching id host ranks y ∧
      ranks.idxOf y.1 < ranks.idxOf x.1 := by
  obtain ⟨q, t⟩ := x
  obtain hq | ⟨hrank, past, ht, rfl⟩ := hx
  · exact Or.inl hq
  · by_cases hq : q = host
    · exact Or.inl hq
    · obtain ⟨n, hknown, hlt⟩ := ht.known_closer hq
      obtain ⟨t', hask, hnext⟩ := ht.ask_known hroomy hrank hknown b a hiters
      exact Or.inr ⟨(n, t'), hask, hnext.imp_right fun h => ⟨ht.isRank_of_closer hlt, h⟩, hlt⟩

/-- **Forwarding ends at the host.** Under FIFO delivery, when nothing is unregistered and
nobody takes an entity in while an update about it is in flight: with nothing in flight,
calling `getLocation` on any rank, then on the rank it answers, and so on, ends at the host
after no more queries than the entity had hosts. -/
theorem forwarding_reaches_the_host (hroomy : cfg.Roomy)
    (h : cfg.Run (fun past s l => Fifo s l ∧
      Each (fun _ past v a => Entity.Enduring past a ∧ Entity.Paced v a) past s l) past s)
    (hdrained : s.Drained) (hhost : id ∈ (s.coord host).localRegistered)
    (hpast : Untangled past id) {r : NodeType} (hr : cfg.IsRank r) (b : Backend EntityID)
    (a : NodeAction) {iters : Nat} (hiters : 2 ≤ iters) :
    ∃ k ≤ (Entity.hostRanks (about id past)).length, ∃ s',
      Pointers.chase (cfg.ask b iters id a) k (r, s) = some (host, s') := by
  have hstart : cfg.Searching id host (Entity.hostRanks (about id past)) (r, s) :=
    Or.inr ⟨hr, past, ⟨h, hdrained, hhost, hpast⟩, rfl⟩
  obtain ⟨k, hk, ⟨q, s'⟩, hchase, hq⟩ := Pointers.chase_reaches
    (fun _ hx => Config.Searching.ask hx hroomy b a hiters) hstart
  obtain rfl : q = host := hq
  exact ⟨k, hk.trans List.idxOf_le_length, s', hchase⟩

/-- Entity 42 moves from rank 1 to rank 2 and on to rank 3, and rank 1 still names rank 2. -/
theorem forwarding_reaches_the_host_small : ∃ past s,
    Config.small.Run (fun past s l => Fifo s l ∧
      Each (fun _ past v a => Entity.Enduring past a ∧ Entity.Paced v a) past s l) past s ∧
      s.known Config.small.home 1 42 = some 2 ∧
      ∃ k ≤ 3, ∃ s', Pointers.chase (Config.small.ask .inOrder 2 42 5) k (1, s) = some (3, s') := by
  obtain ⟨past, s, hrun, hdrained, hhost, hknown, hlength, hpast⟩ := Config.exists_run
    (show ∃ r ∈ Config.small.play (fun past s l => Fifo s l ∧
          Each (fun _ past v a => Entity.Enduring past a ∧ Entity.Paced v a) past s l)
        [.call 1 (.registerEntity 42), .deliver ⟨1, 0, ⟨42, .updateHome 1⟩⟩,
          .call 1 (.entityEmigrated 42 2), .call 2 (.entityImmigrated 42 1),
          .deliver ⟨2, 0, ⟨42, .updateHome 2⟩⟩, .call 2 (.entityEmigrated 42 3),
          .call 3 (.entityImmigrated 42 2), .deliver ⟨3, 0, ⟨42, .updateHome 3⟩⟩],
        r.2.Drained ∧ 42 ∈ (r.2.coord 3).localRegistered ∧
          r.2.known Config.small.home 1 42 = some 2 ∧
          (Entity.hostRanks (about 42 r.1)).length = 3 ∧
          r.1 = [.deliver ⟨3, 0, ⟨42, .updateHome 3⟩⟩, .call 3 (.entityImmigrated 42 2),
            .call 2 (.entityEmigrated 42 3), .deliver ⟨2, 0, ⟨42, .updateHome 2⟩⟩,
            .call 2 (.entityImmigrated 42 1), .call 1 (.entityEmigrated 42 2),
            .deliver ⟨1, 0, ⟨42, .updateHome 1⟩⟩, .call 1 (.registerEntity 42)]
      by decide +kernel)
  have huntangled : Untangled past 42 := by
    intro r d _
    refine Or.inl fun src n hin => ?_
    rw [show past = _ from hpast] at hin
    simp at hin
  obtain ⟨k, hk, hchase⟩ := forwarding_reaches_the_host (fun _ => Nat.one_pos) hrun hdrained
    hhost huntangled (r := 1) (by decide) .inOrder 5 le_rfl
  exact ⟨past, s, hrun, hknown, k, hk.trans_eq hlength, hchase⟩

/-- An answer older than rank 2's own hosting makes it name rank 1, which names rank 2. -/
theorem forwarding_circles_small : ∃ past s,
    Config.small.Run (fun past s l => Fifo s l ∧
      Each (fun _ past v a => Entity.Enduring past a ∧ Entity.Paced v a) past s l) past s ∧
      s.Drained ∧ 42 ∈ (s.coord 3).localRegistered ∧
      (Config.small.ask .inOrder 2 42 5 (1, s)).map Prod.fst = some 2 ∧
      (Config.small.ask .inOrder 2 42 5 (2, s)).map Prod.fst = some 1 :=
  Config.exists_run
    (show ∃ r ∈ Config.small.play (fun past s l => Fifo s l ∧
          Each (fun _ past v a => Entity.Enduring past a ∧ Entity.Paced v a) past s l)
        [.call 1 (.registerEntity 42), .deliver ⟨1, 0, ⟨42, .updateHome 1⟩⟩,
          .call 2 (.entityExists 42 5), .deliver ⟨2, 0, ⟨42, .existsRequest 2⟩⟩,
          .call 1 (.entityEmigrated 42 2), .call 2 (.entityImmigrated 42 1),
          .deliver ⟨2, 0, ⟨42, .updateHome 2⟩⟩, .call 2 (.entityEmigrated 42 3),
          .call 3 (.entityImmigrated 42 2), .deliver ⟨3, 0, ⟨42, .updateHome 3⟩⟩,
          .deliver ⟨0, 2, ⟨42, .existsResponse true 1⟩⟩],
        r.2.Drained ∧ 42 ∈ (r.2.coord 3).localRegistered ∧
          (Config.small.ask .inOrder 2 42 5 (1, r.2)).map Prod.fst = some 2 ∧
          (Config.small.ask .inOrder 2 42 5 (2, r.2)).map Prod.fst = some 1 by decide +kernel)

end Loc
