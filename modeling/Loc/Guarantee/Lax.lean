import Loc.Entity.Lax
import Loc.Progress
import Loc.Guarantee.Authority
import Loc.Guarantee.Provenance
import Loc.Guarantee.Waiters

/-!
# Loc.Guarantee.Lax

What the resolver promises **over any communicator**, however little that one promises:
messages may be delivered twice, out of order, late or never. Nobody may be answered
then, but nobody is answered twice or wrongly, and no home forgets what it was told.
-/

namespace Loc

open Entity (Query)
open Channel (Packet)

variable {EntityID : Type} [DecidableEq EntityID]

/-! ### The system over a network that promises nothing -/

/-- One step of the system over a network that keeps what it delivers: a message that was
ever sent may arrive at any time. -/
def Config.laxStep (cfg : Config EntityID) (s : System EntityID) :
    Label EntityID → Option (System EntityID)
  | .call r op => cfg.step s (.call r op)
  | .deliver p =>
      if s.net.contains p then s.activate p.dst (Coordinator.handle queueing p.body) else none

/-- The runs of the system over such a network, from its construction. -/
abbrev Config.LaxRun (cfg : Config EntityID)
    (ok : Runs.Guard (System EntityID) (Label EntityID)) (past : List (Label EntityID))
    (s : System EntityID) : Prop :=
  (Runs.Machine.ofFn cfg.laxStep).Run ok [] cfg.init past s

variable {cfg : Config EntityID} {past : List (Label EntityID)} {s s' t : System EntityID}
  {l : Label EntityID} {ok ok' : Runs.Guard (System EntityID) (Label EntityID)}

namespace System

/-- The system with a second copy of `p` in flight. -/
def duplicate (s : System EntityID) (p : Packet NodeType (ControlMsg EntityID)) :
    System EntityID :=
  { s with net := p :: s.net }

theorem thinned_duplicate {p : Packet NodeType (ControlMsg EntityID)} (hp : p ∈ s.net)
    (id : EntityID) : Entity.Thinned (s.view id) ((s.duplicate p).view id) := by
  refine ⟨rfl, rfl, fun q hq => ?_⟩
  rw [mem_view_net] at hq ⊢
  rcases List.mem_cons.mp hq with heq | hq
  · exact heq ▸ hp
  · exact hq

theorem view_duplicate_other {p : Packet NodeType (ControlMsg EntityID)} {id : EntityID}
    (h : (Label.deliver p).about id = none) : (s.duplicate p).view id = s.view id := by
  have hp : p.restrict (ControlMsg.about id) = none := by simpa [Label.about] using h
  simp [view, duplicate, Channel.restrict, List.filterMap_cons_none hp]

/-- The same coordinators and invocations, and at least as much in flight. -/
structure Covers (t s : System EntityID) : Prop where
  coord : t.coord = s.coord
  answers : t.answers = s.answers
  net : ∀ p ∈ s.net, p ∈ t.net

theorem Covers.activate {r : NodeType} {p : CoordM EntityID Unit} (h : t.Covers s)
    (hs : s.activate r p = some s') : ∃ t', t.activate r p = some t' ∧ t'.Covers s' := by
  obtain ⟨k, hk, rfl⟩ := activate_eq_some hs
  refine ⟨_, by rw [System.activate, h.coord, hk]; rfl, ?_, ?_, fun q hq => ?_⟩
  · simp
  · simp [h.answers]
  · simp only [List.mem_append] at hq ⊢
    exact hq.imp_left (h.net q)

end System

namespace Config

/-- A delivery over the lax network is one over the reliable network of a copy. -/
theorem laxStep_deliver {p : Packet NodeType (ControlMsg EntityID)} (hp : p ∈ s.net) :
    cfg.laxStep s (.deliver p) = cfg.step (s.duplicate p) (.deliver p) := by
  simp [laxStep, step, System.duplicate, hp]

/-- Every step of the lax system is one of the reliable system, from a state that looks
the same but for its network. -/
theorem laxStep_eq_some (h : cfg.laxStep s l = some s') :
    ∃ w : System EntityID, w.coord = s.coord ∧ (∀ id, Entity.Thinned (s.view id) (w.view id)) ∧
      (∀ id, l.about id = none → w.view id = s.view id) ∧ cfg.step w l = some s' := by
  cases l with
  | call r op => exact ⟨s, rfl, fun _ => ⟨rfl, rfl, fun _ hp => hp⟩, fun _ _ => rfl, h⟩
  | deliver p =>
      have hp : p ∈ s.net := List.contains_iff_mem.mp (Option.ite_none_right_eq_some.mp h).1
      exact ⟨s.duplicate p, rfl, System.thinned_duplicate hp,
        fun _ => System.view_duplicate_other, laxStep_deliver hp ▸ h⟩

/-- **Refinement**, over any network. -/
theorem laxRun_view {okE : Runs.Guard (Entity.View NodeType) (Entity.Act NodeType)} {id : EntityID}
    {past₀ : List (Label EntityID)} {s₀ : System EntityID}
    (h : (Runs.Machine.ofFn cfg.laxStep).Run ok past₀ s₀ past s) (h₀ : s₀.Placed)
    (hok : ∀ past s l a, ok past s l → l.about id = some a → okE (about id past) (s.view id) a) :
    (Entity.laxMachine (cfg.home id) noNode).Run okE (about id past₀) (s₀.view id)
      (about id past) (s.view id) := by
  refine (h.simulates (I := fun _ s => s.Placed) h₀ (fun past s l s' hs hl hstep => ?_)
    fun _ _ _ _ hsilent => hsilent.elim).1
  obtain ⟨w, hcoord, hthin, hother, hstep⟩ := laxStep_eq_some hstep
  have hw : w.Placed := fun r => by rw [hcoord]; exact hs r
  obtain ⟨hs', hview⟩ := step_view hw hstep id
  refine ⟨hs', ?_⟩
  cases habout : l.about id with
  | some a =>
      rw [habout] at hview
      exact ⟨hok past s l a hl habout, w.view id, hthin id, hview⟩
  | none =>
      rw [habout, hother id habout] at hview
      exact hview

/-- A lax run under any guard, seen through one entity. -/
theorem laxRun_any (h : cfg.LaxRun ok past s) (id : EntityID) :
    (Entity.laxMachine (cfg.home id) noNode).Run (fun _ _ _ => True) [] .init
      (about id past) (s.view id) :=
  laxRun_view h init_placed fun _ _ _ _ _ _ => trivial

theorem laxRun_each
    {rule : EntityID → Runs.Guard (Entity.View NodeType) (Entity.Act NodeType)}
    (h : cfg.LaxRun (Each rule) past s) (id : EntityID) :
    (Entity.laxMachine (cfg.home id) noNode).Run (rule id) [] .init (about id past) (s.view id) :=
  laxRun_view h init_placed fun _ _ _ _ hl ha => hl.view ha

theorem placed_of_laxRun (h : cfg.LaxRun ok past s) : s.Placed := by
  refine h.invariant (I := fun _ s => s.Placed) init_placed ?_ fun _ _ _ _ hsilent => hsilent.elim
  intro past s l s' hs _ hstep
  obtain ⟨w, hcoord, -, -, hstep⟩ := laxStep_eq_some hstep
  exact step_placed (fun r => by rw [hcoord]; exact hs r) hstep

/-- **The reliable system is a special case**: each of its runs is one of the lax system,
which has the same coordinators and invocations, and at least as much in flight. -/
theorem laxRun_of_run (h : cfg.Run ok past s)
    (hok : ∀ past s t l, t.Covers s → ok past s l → ok' past t l) :
    ∃ t, cfg.LaxRun ok' past t ∧ t.Covers s := by
  refine h.invariant (I := fun past s => ∃ t, cfg.LaxRun ok' past t ∧ t.Covers s) ?_ ?_
    fun _ _ _ _ hsilent => hsilent.elim
  · exact ⟨cfg.init, .refl, rfl, rfl, fun _ hp => hp⟩
  · rintro past s l s' ⟨t, hrun, hcovers⟩ hl hstep
    have hl' : ok' past t l := hok past s t l hcovers hl
    cases l with
    | call r op =>
        obtain ⟨hr, hstep⟩ := Option.ite_none_right_eq_some.mp hstep
        obtain ⟨t', ht', hcovers'⟩ := hcovers.activate hstep
        exact ⟨t', .step hrun hl' (Option.ite_none_right_eq_some.mpr ⟨hr, ht'⟩), hcovers'⟩
    | deliver p =>
        obtain ⟨hp, hstep⟩ := Option.ite_none_right_eq_some.mp hstep
        have herased : t.Covers { s with net := s.net.erase p } :=
          ⟨hcovers.coord, hcovers.answers, fun q hq => hcovers.net q (List.mem_of_mem_erase hq)⟩
        obtain ⟨t', ht', hcovers'⟩ := herased.activate hstep
        refine ⟨t', .step hrun hl' ?_, hcovers'⟩
        exact Option.ite_none_right_eq_some.mpr
          ⟨List.contains_iff_mem.mpr (hcovers.net p hp), ht'⟩

theorem laxStep_defined (hs : s.HasRoom) (hl : cfg.Enabled s l) :
    ∃ s', cfg.laxStep s l = some s' ∧ s'.HasRoom := by
  cases l with
  | call r op => exact step_defined hs hl
  | deliver p =>
      rw [laxStep, if_pos (List.contains_iff_mem.mpr hl)]
      exact hs.activate (Coordinator.defined_handle (hs p.dst) p.body)

theorem enabled_of_laxStep (h : cfg.laxStep s l = some s') : cfg.Enabled s l := by
  cases l with
  | call r op => exact enabled_of_step h
  | deliver p => exact List.contains_iff_mem.mp (Option.ite_none_right_eq_some.mp h).1

theorem hasRoom_of_laxRun (hroomy : cfg.Roomy) (h : cfg.LaxRun ok past s) : s.HasRoom := by
  refine h.invariant (I := fun _ s => s.HasRoom) ?_ ?_ fun _ _ _ _ hsilent => hsilent.elim
  · exact hasRoom_of_run hroomy (.refl : cfg.Run ok [] cfg.init)
  · intro past s l s' hs _ hstep
    obtain ⟨t, ht, hroom⟩ := laxStep_defined hs (enabled_of_laxStep hstep)
    have heq : some t = some s' := ht.symm.trans hstep
    exact Option.some.inj heq ▸ hroom

end Config

/-! ### The promises -/

/-- **Answers, over any network**, whatever it loses, repeats or reorders. With room in
every cache no step fails; every callback passed was invoked or is queued, exactly as
often as it was passed; and every answer names a rank the history has named, or, when it
is negative, none. -/
theorem any_network_answers (h : cfg.LaxRun ok past s) :
    (cfg.Roomy → ∀ l, cfg.Enabled s l → ∃ s', cfg.laxStep s l = some s') ∧
    (∀ (k : Query) id r a, past.count (.call r ((k.call a).op id)) =
      s.answers.countP (k.invokedFor id r a) + (k.queue ((s.coord r).site id)).count a) ∧
    (∀ id r a n, ⟨id, .located r a n⟩ ∈ s.answers → ∃ l ∈ past, l.Names id n) ∧
    (∀ id r a n, ⟨id, .existence r a true n⟩ ∈ s.answers → ∃ l ∈ past, l.Names id n) ∧
    ∀ id r a n, ⟨id, .existence r a false n⟩ ∈ s.answers → n = noNode := by
  have hprov := fun id => Entity.provenance_of_lax_run (Config.laxRun_any h id)
  refine ⟨fun hroomy l hl => ?_, fun k id r a => ?_, fun id r a n hx => ?_, fun id r a n hx => ?_,
    fun id r a n hx => (hprov id).answer _ (mem_answersAbout.mpr hx)⟩
  · obtain ⟨s', hs', -⟩ := Config.laxStep_defined (Config.hasRoom_of_laxRun hroomy h) hl
    exact ⟨s', hs'⟩
  · rw [← count_about, ← countP_answersAbout]
    exact Entity.accounted_of_lax_run (Config.laxRun_any h id) k r a
  · exact names_of_named ((hprov id).answer _ (mem_answersAbout.mpr hx))
  · exact names_of_named ((hprov id).answer _ (mem_answersAbout.mpr hx))

/-- The request of rank 2 is delivered twice, and so is each response: its callback is
still invoked once. -/
theorem any_network_answers_small : ∃ past s, Config.small.LaxRun (fun _ _ _ => True) past s ∧
    past.count (.deliver ⟨2, 0, ⟨42, .locationRequest 2⟩⟩) = 2 ∧
    past.count (.deliver ⟨0, 2, ⟨42, .resolveResponse 0⟩⟩) = 2 ∧
    s.answers.countP (Query.location.invokedFor 42 2 5) = 1 := by
  obtain ⟨past, s, hrun, hreq, hresp, hcall, hqueue⟩ := Runs.Machine.Run.exists_of_play
    (show ∃ r ∈ Runs.play Config.small.laxStep (fun _ _ _ => True) [] Config.small.init
        [.call 2 (.getLocation 42 5), .deliver ⟨2, 0, ⟨42, .locationRequest 2⟩⟩,
          .call 0 (.registerEntity 42), .deliver ⟨2, 0, ⟨42, .locationRequest 2⟩⟩,
          .deliver ⟨0, 2, ⟨42, .resolveResponse 0⟩⟩, .deliver ⟨0, 2, ⟨42, .resolveResponse 0⟩⟩],
        r.1.count (.deliver ⟨2, 0, ⟨42, .locationRequest 2⟩⟩) = 2 ∧
          r.1.count (.deliver ⟨0, 2, ⟨42, .resolveResponse 0⟩⟩) = 2 ∧
          r.1.count (.call 2 (.getLocation 42 5)) = 1 ∧
          ((r.2.coord 2).pending 42).count 5 = 0 by decide +kernel)
  have hcount : past.count (.call 2 (.getLocation 42 5)) =
      s.answers.countP (Query.location.invokedFor 42 2 5) + ((s.coord 2).pending 42).count 5 :=
    (any_network_answers hrun).2.1 .location 42 2 5
  exact ⟨past, s, hrun, hreq, hresp, by simp only at hcall hqueue; omega⟩

/-- **Authority, over any network.** When only hosts emigrate entities, a directory holds
only ids homed there and a cache none of them; and from the moment a home learns of an
entity until the home unregisters it, the home has a record, and answers every request
that reaches it, however often it does, at once. -/
theorem any_network_authority
    (h : cfg.LaxRun (Each fun _ _ v a => Entity.HostEmigrates v a) past s) :
    (∀ r id, (s.coord r).recs.directory.exists id = true → cfg.home id = r) ∧
    (∀ r id, (s.coord r).recs.cache.exists id = true → cfg.home id ≠ r) ∧
    ∀ id, cfg.Informed past id → ∃ n, (s.coord (cfg.home id)).directoryNode id = some n ∧
      ∀ p q, p ∈ s.net → p.dst = cfg.home id →
        (p.body = ⟨id, .locationRequest q⟩ → ∃ s', cfg.laxStep s (.deliver p) = some s' ∧
          s'.net = s.net ++ [⟨cfg.home id, q, ⟨id, .resolveResponse n⟩⟩]) ∧
        (p.body = ⟨id, .existsRequest q⟩ → ∃ s', cfg.laxStep s (.deliver p) = some s' ∧
          s'.net = s.net ++ [⟨cfg.home id, q, ⟨id, .existsResponse true n⟩⟩]) := by
  have hauth := fun id => Entity.authority_of_lax_run (Config.laxRun_each h id) fun _ _ _ ha => ha
  refine ⟨fun r id hdir => ?_, fun r id hcache hr => ?_, fun id hinf => ?_⟩
  · by_contra hr
    have hnone : ((s.coord r).site id).dir = none :=
      ((hauth id).site r).routed.dir (Ne.symm hr)
    rw [Coordinator.directory_exists_eq, hnone] at hdir
    exact absurd hdir (by simp)
  · have hnone : ((s.coord r).site id).cached = none := ((hauth id).site r).uncached hr.symm
    rw [Coordinator.cache_exists_eq, hnone] at hcache
    exact absurd hcache (by simp)
  · obtain ⟨n, hn⟩ := Option.isSome_iff_exists.mp
      (Entity.dir_isSome_of_informed_lax (Config.laxRun_each h id) hinf)
    refine ⟨n, hn, fun p q hp hdst => ?_⟩
    have hs : s.Placed := Config.placed_of_laxRun h
    have hplaced : (s.duplicate p).Placed := fun r => hs r
    have hin : p ∈ (s.duplicate p).net := List.mem_cons_self
    have hnet : (s.duplicate p).net.erase p = s.net := List.erase_cons_head ..
    rw [← hdst] at hn ⊢
    rw [← hnet, Config.laxStep_deliver hp]
    constructor
    · intro hbody
      obtain ⟨s', hstep, hreply, -⟩ := locationRequest_reply hplaced hin hbody hn
      exact ⟨s', hstep, hreply⟩
    · exact fun hbody => existsRequest_reply hplaced hin hbody hn

/-- The report that entity 42 is on rank 1 arrives again after it moved on to rank 3. -/
theorem any_network_authority_small : ∃ past s,
    Config.small.LaxRun (Each fun _ _ v a => Entity.HostEmigrates v a) past s ∧
      past.count (.deliver ⟨1, 0, ⟨42, .updateHome 1⟩⟩) = 2 ∧
      ∃ n, (s.coord 0).directoryNode 42 = some n := by
  obtain ⟨past, s, hrun, hinf, htwice⟩ := Runs.Machine.Run.exists_of_play
    (show ∃ r ∈ Runs.play Config.small.laxStep (Each fun _ _ v a => Entity.HostEmigrates v a)
        [] Config.small.init
        [.call 1 (.registerEntity 42), .deliver ⟨1, 0, ⟨42, .updateHome 1⟩⟩,
          .call 1 (.entityEmigrated 42 3), .call 3 (.entityImmigrated 42 1),
          .deliver ⟨3, 0, ⟨42, .updateHome 3⟩⟩, .deliver ⟨1, 0, ⟨42, .updateHome 1⟩⟩],
        Config.small.Informed r.1 42 ∧
          r.1.count (.deliver ⟨1, 0, ⟨42, .updateHome 1⟩⟩) = 2 by decide +kernel)
  obtain ⟨n, hn, -⟩ := (any_network_authority hrun).2.2 42 hinf
  exact ⟨past, s, hrun, htwice, n, hn⟩

end Loc
