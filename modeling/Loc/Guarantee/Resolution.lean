import Loc.Entity.Existence
import Loc.Harness

/-!
# Loc.Guarantee.Resolution

What a **query** comes to, from the call to the callback. Issued while nothing is in
flight, it is answered after at most two deliveries, with what the asking rank knows
itself and otherwise with what the home knows (`System.known`), and nothing else
happens.
-/

namespace Loc

open Channel (Packet posted)

variable {EntityID : Type} [DecidableEq EntityID] {cfg : Config EntityID}
  {past : List (Label EntityID)} {s s' : System EntityID} {id : EntityID}

/-- Where the system has `id`, for the rank `r`: its own knowledge first, then the
home's. -/
def System.known (s : System EntityID) (home : EntityID → NodeType) (r : NodeType)
    (id : EntityID) : Option NodeType :=
  (((s.coord r).site id).resolved r).or (((s.coord (home id)).site id).served (home id))

/-! ### One activation at a time -/

/-- `s'` is what an activation on `r` that did `e` to `id` makes of `s`, when `net` was
left in flight. -/
structure System.After (s : System EntityID)
    (net : List (Packet NodeType (ControlMsg EntityID))) (id : EntityID) (r : NodeType)
    (e : Entity.Effect NodeType) (s' : System EntityID) : Prop where
  placed : s'.Placed
  room : s'.HasRoom
  site : (s'.coord r).site id = e.site
  elsewhere : ∀ q ≠ r, s'.coord q = s.coord q
  net : s'.net = net ++ posted r (e.outbox.map fun m => (m.1, ⟨id, m.2⟩))
  answers : s'.answers = s.answers ++ e.answers.map fun x => ⟨id, x⟩

theorem Does.after {r : NodeType} {k : Activation EntityID} {e : Entity.Effect NodeType}
    (h : Does id (s.coord r) k e) {net : List (Packet NodeType (ControlMsg EntityID))}
    (hs' : s' = ⟨Function.update s.coord r k.coord, net ++ posted r k.outbox,
      s.answers ++ k.answers⟩) (hplaced : s'.Placed) (hroom : s'.HasRoom) :
    s.After net id r e s' := by
  subst hs'
  refine ⟨hplaced, hroom, ?_, fun q hq => Function.update_of_ne hq _ _, ?_, ?_⟩
  · simpa using h.site
  · rw [h.outbox]
  · rw [h.answers]

namespace Config

/-- A public operation about `id` that is run while nothing is in flight. -/
theorem call_after (cfg : Config EntityID) (id : EntityID) (c : Entity.Call NodeType)
    {r : NodeType} (hs : s.Placed) (hroom : s.HasRoom) (hr : cfg.IsRank r) (hnet : s.Drained) :
    ∃ s', cfg.step s (.call r (c.op id)) = some s' ∧
      s.After [] id r (Entity.onCall (cfg.home id) noNode r c ((s.coord r).site id)) s' := by
  obtain ⟨s', hstep, hroom'⟩ := step_defined hroom (l := .call r (c.op id)) hr
  obtain ⟨k, hdoes, hs'⟩ := step_call hs (Coordinator.Op.about_eq_some.mpr rfl) hstep
  refine ⟨s', hstep, hdoes.after ?_ (step_placed hs hstep) hroom'⟩
  rw [hs', show s.net = [] from hnet]

/-- A poll with one message in flight delivers it. -/
theorem pump_of_single {b : Backend EntityID} {p : Packet NodeType (ControlMsg EntityID)}
    (hs : s.Placed) (hroom : s.HasRoom) (hnet : s.net = [p]) (n : Nat) :
    ∃ s', cfg.pump b (n + 1) s = cfg.pump b n s' ∧ s.After [] p.body.id p.dst
      (Entity.onMsg noNode p.dst p.body.msg ((s.coord p.dst).site p.body.id)) s' := by
  have hpick : b.label s = some (.deliver p) := by
    cases hl : b.label s with
    | none =>
        have hdrained := Backend.label_eq_none hl
        rw [System.Drained, hnet] at hdrained
        exact absurd hdrained (by simp)
    | some l =>
        obtain ⟨q, hq, rfl⟩ := Backend.label_eq_some hl
        rw [hnet, List.mem_singleton] at hq
        rw [hq]
  have hl : cfg.Enabled s (.deliver p) := by
    show p ∈ s.net
    rw [hnet]
    exact List.mem_singleton_self p
  obtain ⟨s', hstep, hroom'⟩ := step_defined hroom hl
  obtain ⟨-, k, hdoes, hs'⟩ := step_deliver hs hstep
  refine ⟨s', ?_, hdoes.after ?_ (step_placed hs hstep) hroom'⟩
  · rw [pump, Runs.turns, Runs.turn_of_some hpick hstep, Option.bind_some]
    rfl
  · rw [hs', hnet, List.erase_cons_head]

/-- With nothing in flight, polling changes nothing. -/
theorem pump_of_drained {b : Backend EntityID} (h : s.Drained) (n : Nat) :
    cfg.pump b n s = some s := by
  refine Runs.turns_idle ?_ n
  cases hl : b.label s with
  | none => rfl
  | some l =>
      obtain ⟨p, hp, -⟩ := Backend.label_eq_some hl
      rw [show s.net = [] from h] at hp
      exact absurd hp (by simp)

end Config

/-! ### Location queries -/

/-- A rank that has a record or a registration answers from it. -/
theorem isCached_of_resolved {c : Coordinator EntityID} {r n : NodeType}
    (h : (c.site id).resolved r = some n) : c.isCached id = true := by
  rw [Coordinator.isCached, Coordinator.exists_eq]
  cases hhosts : (c.site id).hosts with
  | true =>
      have hlocal : id ∈ c.localRegistered := of_decide_eq_true hhosts
      simp [hlocal]
  | false =>
      rw [Entity.Site.resolved, hhosts] at h
      have hnode : (c.site id).node = some n := by simpa using h
      simp [hnode]

/-- The home knows for itself what it serves to others. -/
theorem Entity.Site.resolved_eq_none_iff_served {r : NodeType} {t : Entity.Site NodeType} :
    t.resolved r = none ↔ t.served r = none := by
  rw [Entity.Site.resolved_eq_none, Entity.Site.served_eq_none, and_comm]

/-- A location request the home cannot answer ends in its buffer. -/
theorem locationRequest_buffered {r : NodeType} {b : Backend EntityID} (hs : s.Placed)
    (hroom : s.HasRoom) (hnet : s.net = [⟨r, cfg.home id, ⟨id, .locationRequest r⟩⟩])
    (hserved : ((s.coord (cfg.home id)).site id).served (cfg.home id) = none) (n : Nat) :
    ∃ s', cfg.pump b (n + 1) s = some s' ∧ s'.Drained ∧ s'.answers = s.answers ∧
      ∀ q ≠ cfg.home id, s'.coord q = s.coord q := by
  obtain ⟨s', hpump, h⟩ := Config.pump_of_single (b := b) hs hroom hnet n
  dsimp only at h
  rw [Entity.onMsg, Entity.locationRequest_of_none hserved] at h
  have hdrained : s'.Drained := h.net
  exact ⟨s', hpump.trans (Config.pump_of_drained hdrained n), hdrained, by simpa using h.answers,
    h.elsewhere⟩

/-- One the home can answer ends with the asker handling the response. -/
theorem locationRequest_answered {r m : NodeType} {b : Backend EntityID} (hs : s.Placed)
    (hroom : s.HasRoom) (hnet : s.net = [⟨r, cfg.home id, ⟨id, .locationRequest r⟩⟩])
    (hne : r ≠ cfg.home id)
    (hserved : ((s.coord (cfg.home id)).site id).served (cfg.home id) = some m) (n : Nat) :
    ∃ s', cfg.pump b (n + 2) s = some s' ∧ s'.Drained ∧
      (s'.coord r).site id = (Entity.resolveResponse r m ((s.coord r).site id)).site ∧
      s'.answers = s.answers ++ ((s.coord r).pending id).map fun a => ⟨id, .located r a m⟩ := by
  obtain ⟨s₂, hpump, h₂⟩ := Config.pump_of_single (b := b) hs hroom hnet (n + 1)
  dsimp only at h₂
  rw [Entity.onMsg, Entity.locationRequest_of_some hserved] at h₂
  obtain ⟨s', hpump', h⟩ := Config.pump_of_single (b := b) h₂.placed h₂.room h₂.net n
  dsimp only at h
  rw [h₂.elsewhere r hne, Entity.onMsg] at h
  have hdrained : s'.Drained := h.net
  refine ⟨s', hpump.trans (hpump'.trans (Config.pump_of_drained hdrained n)), hdrained, h.site, ?_⟩
  have hsame : s₂.answers = s.answers := by simpa using h₂.answers
  rw [h.answers, hsame, Entity.resolveResponse, List.map_map]
  rfl

/-- A location query about what the rank knows is answered at once. -/
theorem getLocation_here (hs : s.Placed) (hroom : s.HasRoom) (hdrained : s.Drained)
    {r n : NodeType} (hr : cfg.IsRank r) (hres : ((s.coord r).site id).resolved r = some n)
    (a : NodeAction) :
    ∃ s', cfg.step s (.call r (.getLocation id a)) = some s' ∧ s'.Drained ∧
      s'.answers = s.answers ++ [⟨id, .located r a n⟩] ∧ (s'.coord r).isCached id = true := by
  obtain ⟨s', hstep, h⟩ := cfg.call_after id (.getLocation a) hs hroom hr hdrained
  rw [Entity.onCall, Entity.getLocation_of_some hres] at h
  refine ⟨s', hstep, h.net, h.answers, ?_⟩
  exact isCached_of_resolved ((congrArg (Entity.Site.resolved r) h.site).trans hres)

/-- One about what only the home knows takes a request and a response, if nobody on the
rank waits for that already. -/
theorem getLocation_away (hs : s.Placed) (hroom : s.HasRoom) (hdrained : s.Drained)
    {r n : NodeType} (hr : cfg.IsRank r) (hres : ((s.coord r).site id).resolved r = none)
    (hserved : ((s.coord (cfg.home id)).site id).served (cfg.home id) = some n)
    (hempty : ((s.coord r).site id).pending = []) (a : NodeAction) (b : Backend EntityID)
    (iters : Nat) :
    ∃ s₁ s', cfg.step s (.call r (.getLocation id a)) = some s₁ ∧
      cfg.pump b (iters + 2) s₁ = some s' ∧ s'.Drained ∧
      s'.answers = s.answers ++ [⟨id, .located r a n⟩] ∧ (s'.coord r).isCached id = true := by
  obtain ⟨s₁, hstep, h₁⟩ := cfg.call_after id (.getLocation a) hs hroom hr hdrained
  rw [Entity.onCall, Entity.getLocation_of_none hres] at h₁
  have hpending : (s₁.coord r).pending id = [a] :=
    (congrArg Entity.Site.pending h₁.site).trans (by rw [hempty]; rfl)
  have hne : cfg.home id ≠ r := by
    intro heq
    subst heq
    rw [Entity.Site.resolved_eq_none_iff_served.mp hres] at hserved
    exact absurd hserved (by simp)
  have hnet := h₁.net
  rw [if_pos ⟨hempty, hne⟩] at hnet
  rw [← h₁.elsewhere _ hne] at hserved
  obtain ⟨s', hpump, hdrained', hsite, hall⟩ := locationRequest_answered (b := b)
    h₁.placed h₁.room hnet (Ne.symm hne) hserved iters
  refine ⟨s₁, s', hstep, hpump, hdrained', ?_, ?_⟩
  · rw [hall, hpending, show s₁.answers = s.answers by simpa using h₁.answers]
    rfl
  · have hnode : ((s'.coord r).site id).node.isSome = true := by
      rw [hsite, Entity.resolveResponse, Entity.Site.node]
      cases hd : ((s₁.coord r).site id).dir <;> simp [hd]
    rw [Coordinator.isCached, Coordinator.exists_eq, hnode, Bool.or_true]

/-- One about what neither knows waits. -/
theorem getLocation_waits (hs : s.Placed) (hroom : s.HasRoom) (hdrained : s.Drained)
    {r : NodeType} (hr : cfg.IsRank r) (hres : ((s.coord r).site id).resolved r = none)
    (hserved : ((s.coord (cfg.home id)).site id).served (cfg.home id) = none)
    (a : NodeAction) (b : Backend EntityID) (iters : Nat) :
    ∃ s₁ s', cfg.step s (.call r (.getLocation id a)) = some s₁ ∧
      cfg.pump b (iters + 1) s₁ = some s' ∧ s'.Drained ∧
      s'.answers = s.answers ∧ a ∈ (s'.coord r).pending id := by
  obtain ⟨s₁, hstep, h₁⟩ := cfg.call_after id (.getLocation a) hs hroom hr hdrained
  rw [Entity.onCall, Entity.getLocation_of_none hres] at h₁
  have hanswers : s₁.answers = s.answers := by simpa using h₁.answers
  have hwaits : a ∈ (s₁.coord r).pending id := by
    rw [show (s₁.coord r).pending id = _ from congrArg Entity.Site.pending h₁.site]
    exact List.mem_append_right _ (List.mem_singleton_self a)
  have hnet := h₁.net
  by_cases hsends : ((s.coord r).site id).pending = [] ∧ cfg.home id ≠ r
  · rw [if_pos hsends] at hnet
    rw [← h₁.elsewhere _ hsends.2] at hserved
    obtain ⟨s', hpump, hdrained', hsame, helse⟩ := locationRequest_buffered (b := b)
      h₁.placed h₁.room hnet hserved iters
    refine ⟨s₁, s', hstep, hpump, hdrained', hsame.trans hanswers, ?_⟩
    rwa [helse r (Ne.symm hsends.2)]
  · rw [if_neg hsends] at hnet
    exact ⟨s₁, s₁, hstep, Config.pump_of_drained hnet _, hnet, hanswers, hwaits⟩

/-- **A location query resolves.** Issued while nothing is in flight, it is answered
within two polls: once, and with what the rank knows or else with what the home knows;
the rank then knows it too. When neither knows, it waits. -/
theorem getLocation_resolves (hroomy : cfg.Roomy)
    (h : cfg.Run (Each fun _ _ v a => Entity.HostEmigrates v a) past s) (hdrained : s.Drained)
    {r : NodeType} (hr : cfg.IsRank r) (id : EntityID) (a : NodeAction) (b : Backend EntityID)
    {iters : Nat} (hiters : 2 ≤ iters) :
    ∃ s₁ s', cfg.step s (.call r (.getLocation id a)) = some s₁ ∧
      cfg.pump b iters s₁ = some s' ∧ s'.Drained ∧
      match s.known cfg.home r id with
      | some n => s'.answers = s.answers ++ [⟨id, .located r a n⟩] ∧
          (s'.coord r).isCached id = true
      | none => s'.answers = s.answers ∧ a ∈ (s'.coord r).pending id := by
  obtain ⟨iters, rfl⟩ : ∃ n, iters = n + 2 := ⟨iters - 2, by omega⟩
  have hplaced := cfg.placed_of_run h Config.init_placed
  have hroom := cfg.hasRoom_of_run hroomy h
  have hatt := Entity.attended_of_run (Config.run_each h (fun _ _ _ hl => hl) id)
    fun _ _ _ ha => ha
  rw [System.known]
  cases hres : ((s.coord r).site id).resolved r with
  | some n =>
      obtain ⟨s', hstep, hnet, hanswer⟩ := getLocation_here hplaced hroom hdrained hr hres a
      exact ⟨s', s', hstep, Config.pump_of_drained hnet _, hnet, hanswer⟩
  | none =>
      rw [Option.none_or]
      cases hserved : ((s.coord (cfg.home id)).site id).served (cfg.home id) with
      | none => exact getLocation_waits hplaced hroom hdrained hr hres hserved a b _
      | some n =>
          -- Nobody waits for what the home knows, so this waiter sends the request.
          have hempty : ((s.coord r).site id).pending = [] :=
            hatt.settled (System.view_net_of_drained hdrained)
              (by rw [show ((s.view id).site _).served _ = _ from hserved]; simp) r
          exact getLocation_away hplaced hroom hdrained hr hres hserved hempty a b iters

/-- Rank 2 asks its home for entity 42, which rank 1 hosts. -/
theorem getLocation_resolves_small : ∃ past s,
    Config.small.Run (Each fun _ _ v a => Entity.HostEmigrates v a) past s ∧
      ∃ s₁ s', Config.small.step s (.call 2 (.getLocation 42 5)) = some s₁ ∧
        Config.small.pump .inOrder 2 s₁ = some s' ∧
        s'.answers = s.answers ++ [⟨42, .located 2 5 1⟩] := by
  obtain ⟨past, s, hrun, hdrained, hknown⟩ := Config.exists_run
    (show ∃ r ∈ Config.small.play (Each fun _ _ v a => Entity.HostEmigrates v a)
        [.call 1 (.registerEntity 42), .deliver ⟨1, 0, ⟨42, .updateHome 1⟩⟩],
        r.2.Drained ∧ r.2.known (fun _ => 0) 2 42 = some 1 by decide +kernel)
  obtain ⟨s₁, s', hstep, hpump, -, hanswer⟩ := getLocation_resolves (fun _ => Nat.one_pos) hrun
    hdrained (r := 2) (by decide) 42 5 .inOrder le_rfl
  rw [show s.known Config.small.home 2 42 = some 1 from hknown] at hanswer
  exact ⟨past, s, hrun, s₁, s', hstep, hpump, hanswer.1⟩

/-! ### Existence queries -/

/-- An existence request ends with the asker handling the home's answer. -/
theorem existsRequest_answered {r : NodeType} {b : Backend EntityID} (hs : s.Placed)
    (hroom : s.HasRoom) (hnet : s.net = [⟨r, cfg.home id, ⟨id, .existsRequest r⟩⟩])
    (hne : r ≠ cfg.home id) {m : Option NodeType}
    (hserved : ((s.coord (cfg.home id)).site id).served (cfg.home id) = m) (n : Nat) :
    ∃ s', cfg.pump b (n + 2) s = some s' ∧ s'.Drained ∧
      s'.answers = s.answers ++ ((s.coord r).pendingExists id).map fun a =>
        ⟨id, .existence r a m.isSome (m.getD noNode)⟩ := by
  subst hserved
  obtain ⟨s₂, hpump, h₂⟩ := Config.pump_of_single (b := b) hs hroom hnet (n + 1)
  dsimp only at h₂
  rw [Entity.onMsg, Entity.existsRequest_eq] at h₂
  obtain ⟨s', hpump', h⟩ := Config.pump_of_single (b := b) h₂.placed h₂.room h₂.net n
  dsimp only at h
  rw [h₂.elsewhere r hne, Entity.onMsg] at h
  have hdrained : s'.Drained := h.net
  refine ⟨s', hpump.trans (hpump'.trans (Config.pump_of_drained hdrained n)), hdrained, ?_⟩
  have hsame : s₂.answers = s.answers := by simpa using h₂.answers
  rw [h.answers, hsame, Entity.existsResponse, List.map_map]
  rfl

/-- An existence query about what the rank knows is answered at once. -/
theorem entityExists_here (hs : s.Placed) (hroom : s.HasRoom) (hdrained : s.Drained)
    {r n : NodeType} (hr : cfg.IsRank r) (hres : ((s.coord r).site id).resolved r = some n)
    (a : ExistsAction) (b : Backend EntityID) (iters : Nat) :
    ∃ s₁ s', cfg.step s (.call r (.entityExists id a)) = some s₁ ∧
      cfg.pump b iters s₁ = some s' ∧ s'.Drained ∧
      s'.answers = s.answers ++ [⟨id, .existence r a true n⟩] := by
  obtain ⟨s₁, hstep, h₁⟩ := cfg.call_after id (.entityExists a) hs hroom hr hdrained
  rw [Entity.onCall, Entity.entityExists_of_some hres] at h₁
  have hnet : s₁.Drained := h₁.net
  exact ⟨s₁, s₁, hstep, Config.pump_of_drained hnet _, hnet, h₁.answers⟩

/-- Any other is answered by the home, if nobody on the rank waits for that already. -/
theorem entityExists_away (hs : s.Placed) (hroom : s.HasRoom) (hdrained : s.Drained)
    {r : NodeType} (hr : cfg.IsRank r) (hres : ((s.coord r).site id).resolved r = none)
    {m : Option NodeType}
    (hserved : ((s.coord (cfg.home id)).site id).served (cfg.home id) = m)
    (hempty : ((s.coord r).site id).pendingExists = []) (a : ExistsAction) (b : Backend EntityID)
    (iters : Nat) :
    ∃ s₁ s', cfg.step s (.call r (.entityExists id a)) = some s₁ ∧
      cfg.pump b (iters + 2) s₁ = some s' ∧ s'.Drained ∧
      s'.answers = s.answers ++ [⟨id, .existence r a m.isSome (m.getD noNode)⟩] := by
  obtain ⟨s₁, hstep, h₁⟩ := cfg.call_after id (.entityExists a) hs hroom hr hdrained
  rw [Entity.onCall] at h₁
  by_cases hne : cfg.home id = r
  · -- The home answers for itself what it would answer others.
    subst hne
    rw [Entity.Site.resolved_eq_none_iff_served.mp hres] at hserved
    rw [Entity.entityExists_home_of_none hres] at h₁
    have hnet : s₁.Drained := h₁.net
    subst hserved
    exact ⟨s₁, s₁, hstep, Config.pump_of_drained hnet _, hnet, h₁.answers⟩
  · rw [Entity.entityExists_of_none hne hres, if_pos hempty] at h₁
    rw [← h₁.elsewhere _ hne] at hserved
    obtain ⟨s', hpump, hdrained', hall⟩ := existsRequest_answered (b := b) h₁.placed h₁.room
      h₁.net (Ne.symm hne) hserved iters
    have hqueue : (s₁.coord r).pendingExists id = [a] :=
      (congrArg Entity.Site.pendingExists h₁.site).trans (by rw [hempty]; rfl)
    refine ⟨s₁, s', hstep, hpump, hdrained', ?_⟩
    rw [hall, hqueue, show s₁.answers = s.answers by simpa using h₁.answers]
    rfl

/-- **An existence query resolves.** Issued while nothing is in flight, it is answered
within two polls: once, and with what the rank knows or else with what the home knows,
which is that the entity does not exist when the home has never heard of it. -/
theorem entityExists_resolves {ok : Runs.Guard (System EntityID) (Label EntityID)}
    (hroomy : cfg.Roomy) (h : cfg.Run ok past s) (hdrained : s.Drained)
    {r : NodeType} (hr : cfg.IsRank r) (id : EntityID) (a : ExistsAction) (b : Backend EntityID)
    {iters : Nat} (hiters : 2 ≤ iters) :
    ∃ s₁ s', cfg.step s (.call r (.entityExists id a)) = some s₁ ∧
      cfg.pump b iters s₁ = some s' ∧ s'.Drained ∧
      s'.answers = s.answers ++ [⟨id, .existence r a (s.known cfg.home r id).isSome
        ((s.known cfg.home r id).getD noNode)⟩] := by
  obtain ⟨iters, rfl⟩ : ∃ n, iters = n + 2 := ⟨iters - 2, by omega⟩
  have hplaced := cfg.placed_of_run h Config.init_placed
  have hroom := cfg.hasRoom_of_run hroomy h
  -- An exchange is under way only for a rank with a queue, so this one starts its own.
  have hempty : ((s.coord r).site id).pendingExists = [] :=
    (Entity.exchanging_of_run (Config.run_any h id)).settled
      (System.view_net_of_drained hdrained) r
  rw [System.known]
  cases hres : ((s.coord r).site id).resolved r with
  | some n => exact entityExists_here hplaced hroom hdrained hr hres a b _
  | none =>
      rw [Option.none_or]
      exact entityExists_away hplaced hroom hdrained hr hres rfl hempty a b iters

/-- Rank 2 asks for an entity nobody registered. -/
theorem entityExists_resolves_small : ∃ past s, Config.small.Run Runs.free past s ∧
    ∃ s₁ s', Config.small.step s (.call 2 (.entityExists 7 5)) = some s₁ ∧
      Config.small.pump .inOrder 2 s₁ = some s' ∧
      s'.answers = s.answers ++ [⟨7, .existence 2 5 false noNode⟩] := by
  obtain ⟨past, s, hrun, hdrained, hknown⟩ := Config.exists_run
    (show ∃ r ∈ Config.small.play Runs.free
        [.call 1 (.registerEntity 42), .deliver ⟨1, 0, ⟨42, .updateHome 1⟩⟩],
        r.2.Drained ∧ r.2.known (fun _ => 0) 2 7 = none by decide +kernel)
  obtain ⟨s₁, s', hstep, hpump, -, hanswer⟩ := entityExists_resolves (fun _ => Nat.one_pos) hrun
    hdrained (r := 2) (by decide) 7 5 .inOrder le_rfl
  rw [show s.known Config.small.home 2 7 = none from hknown] at hanswer
  exact ⟨past, s, hrun, s₁, s', hstep, hpump, hanswer⟩

end Loc
