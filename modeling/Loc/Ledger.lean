import Loc.Lib.Stateful
import Loc.Entity.Ledger
import Loc.Refinement

/-!
# Loc.Ledger

The **authoritative state** of the whole system: who hosts what, the directories, and
the updates in flight.

`Ledger.next` says what a label does to it, in terms of the ledger alone, and it does
nothing for a query, a request or a response (`ledger_step`). Hence the ledger is a
function of the authoritative part of the history (`ledger_of_run`).

The ledger has the node of each directory record. The rest of the record follows:
every directory record was made for its key by its own rank (`Genuine`).
-/

namespace Loc

open Channel (Packet posted)
open Coordinator (Op)
open Stateful (Maintains)

variable {EntityID : Type} [DecidableEq EntityID]

/-! ### The ledger and what changes it -/

/-- The message updates a directory. -/
def ControlMsg.isUpdate (m : ControlMsg EntityID) : Bool := Entity.isUpdate m.msg

/-- The updates among the packets. -/
def updatesIn (net : List (Packet NodeType (ControlMsg EntityID))) :
    List (Packet NodeType (ControlMsg EntityID)) :=
  net.filter fun p => p.body.isUpdate

/-- The public operation moves an entity. -/
def Coordinator.Op.authoritative : Op EntityID → Bool
  | .registerEntity _ => true
  | .entityImmigrated _ _ => true
  | .entityEmigrated _ _ => true
  | .unregisterEntity _ => true
  | .getLocation _ _ => false
  | .entityExists _ _ => false
  | .isCached _ => false
  | .clearCache => false

/-- The label is a move of an entity, or the delivery of an update. -/
def Label.authoritative : Label EntityID → Bool
  | .call _ op => op.authoritative
  | .deliver p => p.body.isUpdate

/-- The authoritative state. -/
@[ext]
structure Ledger (EntityID : Type) where
  entity : EntityID → Entity.Ledger NodeType
  updates : List (Packet NodeType (ControlMsg EntityID))

/-- The authoritative state of a system. -/
def System.ledger (s : System EntityID) : Ledger EntityID where
  entity id := (s.view id).ledger
  updates := updatesIn s.net

/-- The updates in flight after a label. -/
def Label.updates (home : EntityID → NodeType)
    (net : List (Packet NodeType (ControlMsg EntityID))) :
    Label EntityID → List (Packet NodeType (ControlMsg EntityID))
  | .call r (.registerEntity id) =>
      if home id = r then net else net ++ [⟨r, home id, ⟨id, .updateHome r⟩⟩]
  | .call r (.entityImmigrated id _) =>
      if home id = r then net else net ++ [⟨r, home id, ⟨id, .updateHome r⟩⟩]
  | .call _ _ => net
  | .deliver p => net.erase p

/-- What a label does to the authoritative state. -/
def Ledger.next (home : EntityID → NodeType) (g : Ledger EntityID) (l : Label EntityID) :
    Ledger EntityID where
  entity id := match l.about id with
    | some a => (g.entity id).next (home id) a
    | none => g.entity id
  updates := l.updates home g.updates

/-- The ledger as a machine of its own. -/
def ledgerMachine (home : EntityID → NodeType) :
    Runs.Machine (Ledger EntityID) (Label EntityID) :=
  .ofFn fun g l => some (g.next home l)

/-! ### One step -/

section Step

variable {cfg : Config EntityID} {s s' : System EntityID} {l : Label EntityID}

omit [DecidableEq EntityID] in
@[simp] theorem updatesIn_append (net net' : List (Packet NodeType (ControlMsg EntityID))) :
    updatesIn (net ++ net') = updatesIn net ++ updatesIn net' := List.filter_append ..

omit [DecidableEq EntityID] in
theorem updatesIn_posted (r : NodeType) (id : EntityID) (outbox : List (NodeType × Msg NodeType)) :
    updatesIn (posted r (outbox.map fun m => (m.1, (⟨id, m.2⟩ : ControlMsg EntityID)))) =
      posted r ((outbox.filter fun m => Entity.isUpdate m.2).map fun m => (m.1, ⟨id, m.2⟩)) := by
  rw [updatesIn, posted, posted, List.map_map, List.filter_map, List.map_map]
  rfl

/-- The updates in flight after an operation about `id`. -/
theorem updates_of_about {r : NodeType} {op : Op EntityID} {id : EntityID}
    {c : Entity.Call NodeType} (habout : op.about id = some c) (home : EntityID → NodeType)
    (net : List (Packet NodeType (ControlMsg EntityID))) :
    (Label.call r op).updates home net = net ++
      posted r (((Entity.Act.call r c).update (home id)).map fun m => (m.1, ⟨id, m.2⟩)) := by
  rw [Op.about_eq_some.mp habout]
  cases c with
  | registerEntity =>
      rw [Entity.Call.op, Label.updates, Entity.Act.update]
      split <;> simp
  | entityImmigrated src =>
      rw [Entity.Call.op, Label.updates, Entity.Act.update]
      split <;> simp
  | _ => exact (List.append_nil net).symm

theorem authoritative_of_about {id : EntityID} {a : Entity.Act NodeType}
    (h : l.about id = some a) : l.authoritative = a.authoritative := by
  cases a with
  | call r c =>
      rw [Label.about_eq_call.mp h]
      cases c <;> rfl
  | deliver p =>
      rw [Label.about_eq_deliver.mp h]
      obtain ⟨src, dst, msg⟩ := p
      cases msg <;> rfl

theorem entity_step (hs : s.Placed) {id : EntityID}
    (hrouted : Entity.Routed (cfg.home id) (s.view id)) (hstep : cfg.step s l = some s') :
    s'.ledger.entity id = (s.ledger.next cfg.home l).entity id := by
  have hview := (Config.step_view hs hstep id).2
  show (s'.view id).ledger = match l.about id with
    | some a => (s.view id).ledger.next (cfg.home id) a
    | none => (s.view id).ledger
  cases habout : l.about id with
  | some a =>
      rw [habout] at hview
      exact Entity.ledger_step hrouted hview
  | none =>
      refine Config.step_elsewhere (Q := fun v => v.ledger = (s.view id).ledger) hs hstep habout
        (fun v r hv => ?_) rfl
      rw [Entity.ledger_forget, hv]

theorem updates_step (hs : s.Placed) (hstep : cfg.step s l = some s') :
    updatesIn s'.net = l.updates cfg.home (updatesIn s.net) := by
  cases l with
  | call r op =>
      have hcall : ∀ id {c}, op.about id = some c →
          updatesIn s'.net = (Label.call r op).updates cfg.home (updatesIn s.net) := by
        intro id c habout
        obtain ⟨k, hdoes, rfl⟩ := Config.step_call hs habout hstep
        rw [updates_of_about habout, updatesIn_append, hdoes.outbox, updatesIn_posted,
          Entity.updates_onCall]
      have hsilent : (∀ k : Activation EntityID, op.run queueing cfg.home ⟨s.coord r, [], []⟩ =
          some ((), k) → k.outbox = []) → updatesIn s'.net = updatesIn s.net := by
        intro hout
        obtain ⟨k, hk, rfl⟩ :=
          System.activate_eq_some (Option.ite_none_right_eq_some.mp hstep).2
        simp [hout k hk]
      cases op with
      | registerEntity id => exact hcall id (if_pos rfl)
      | entityImmigrated id src => exact hcall id (if_pos rfl)
      | entityEmigrated id newNode => exact hcall id (if_pos rfl)
      | unregisterEntity id => exact hcall id (if_pos rfl)
      | getLocation id action => exact hcall id (if_pos rfl)
      | entityExists id action => exact hcall id (if_pos rfl)
      | isCached id =>
          refine hsilent fun k hk => ?_
          rw [← (Prod.mk.inj (Option.some.inj hk)).2]
      | clearCache =>
          refine hsilent fun k hk => ?_
          rw [← (Prod.mk.inj (Option.some.inj hk)).2]
  | deliver p =>
      obtain ⟨hp, k, hdoes, rfl⟩ := Config.step_deliver hs hstep
      show updatesIn (s.net.erase p ++ posted p.dst k.outbox) = (updatesIn s.net).erase p
      rw [updatesIn_append, hdoes.outbox, updatesIn_posted, Entity.updates_onMsg]
      simp [updatesIn, List.erase_filter]

/-- **One step** of the system, on the ledger. -/
theorem ledger_step (hs : s.Placed) (hrouted : ∀ id, Entity.Routed (cfg.home id) (s.view id))
    (hstep : cfg.step s l = some s') : s'.ledger = s.ledger.next cfg.home l :=
  Ledger.ext (funext fun id => entity_step hs (hrouted id) hstep) (updates_step hs hstep)

/-- A query, a request or a response does nothing to the ledger. -/
theorem next_of_not_authoritative (hl : l.authoritative = false) :
    s.ledger.next cfg.home l = s.ledger := by
  refine Ledger.ext (funext fun id => ?_) ?_
  · show (match l.about id with
      | some a => (s.view id).ledger.next (cfg.home id) a
      | none => (s.view id).ledger) = (s.view id).ledger
    cases habout : l.about id with
    | none => rfl
    | some a =>
        exact Entity.Ledger.next_of_not_authoritative (authoritative_of_about habout ▸ hl) ..
  · cases l with
    | call r op =>
        cases op <;> first
          | rfl
          | exact absurd hl (by simp [Label.authoritative, Op.authoritative])
    | deliver p =>
        refine List.erase_of_not_mem fun hp => ?_
        have hupd : p.body.isUpdate = true := (List.mem_filter.mp hp).2
        rw [show p.body.isUpdate = false from hl] at hupd
        exact absurd hupd (by simp)

end Step

/-! ### Runs -/

section Runs

variable {cfg : Config EntityID} {ok : Runs.Guard (System EntityID) (Label EntityID)}
  {past : List (Label EntityID)} {s : System EntityID}

/-- **The ledger runs on its own**, over the authoritative part of the history. -/
theorem ledger_of_run (h : cfg.Run ok past s) :
    (ledgerMachine cfg.home).Run Runs.free [] cfg.init.ledger
      (past.filter Label.authoritative) s.ledger := by
  rw [← List.filterMap_eq_filter]
  refine (h.simulates (I := fun _ s => s.Placed ∧ ∀ id, Entity.Routed (cfg.home id) (s.view id))
    ⟨Config.init_placed, fun id => Entity.routed_init⟩ (fun past s l s' hI _ hstep => ?_)
    (fun _ _ _ _ hsilent => hsilent.elim)).1
  have hnext := ledger_step hI.1 hI.2 hstep
  refine ⟨⟨Config.step_placed hI.1 hstep, fun id => ?_⟩, ?_⟩
  · have hview := (Config.step_view hI.1 hstep id).2
    cases habout : l.about id with
    | some a =>
        rw [habout] at hview
        exact (hI.2 id).step hview
    | none => exact Config.step_elsewhere hI.1 hstep habout (fun v r hv => hv.forget r) (hI.2 id)
  · cases hauth : l.authoritative with
    | true =>
        simp only [Option.guard, hauth, if_true]
        exact ⟨trivial, congrArg some hnext.symm⟩
    | false =>
        simp only [Option.guard, hauth]
        exact Or.inl (hnext.trans (next_of_not_authoritative hauth))

end Runs

/-! ### Directory records -/

namespace Coordinator

variable {α : Type} {id : EntityID} {node : NodeType}

/-- Every directory record was made for its key by this rank. -/
def Genuine (c : Coordinator EntityID) : Prop :=
  c.WellPlaced ∧ ∀ id record, (c.recs.slot id).dir = some record →
    record = c.makeRec id record.getRemoteNode

/-- Code that keeps the directory records genuine. -/
abbrev KeepsGenuine (p : CoordM EntityID α) : Prop := Maintains (fun k => k.coord.Genuine) p

/-- A write to the lookup keeps the records genuine if it leaves each key's directory
record alone, drops it, or replaces it by one made here. -/
theorem Genuine.recs {c : Coordinator EntityID} (h : c.Genuine)
    {recs : LocLookup EntityID (LocRecord EntityID)} (hnode : recs.thisNode = c.recs.thisNode)
    (hdir : ∀ id, (recs.slot id).dir = (c.recs.slot id).dir ∨ (recs.slot id).dir = none ∨
      ∃ node, (recs.slot id).dir = some (c.makeRec id node)) :
    Genuine { c with recs } := by
  refine ⟨hnode.trans h.1, fun id record hrec => ?_⟩
  have hrec : (recs.slot id).dir = some record := hrec
  rcases hdir id with hsame | hnone | ⟨node, hmade⟩
  · exact h.2 id record (hsame ▸ hrec)
  · rw [hnone] at hrec
    exact absurd hrec (by simp)
  · rw [hmade] at hrec
    obtain rfl := Option.some.inj hrec
    rfl

theorem keepsGenuine_modifyCoord {f : Coordinator EntityID → Coordinator EntityID}
    (hf : ∀ c, (f c).thisNode = c.thisNode ∧ (f c).recs = c.recs) :
    KeepsGenuine (modifyCoord f) := by
  refine .modify fun k hk => ?_
  obtain ⟨hnode, hrecs⟩ := hf k.coord
  simp only [Genuine, WellPlaced, makeRec, hnode, hrecs]
  exact hk

theorem keepsGenuine_recsGet : KeepsGenuine (recsGet id : CoordM EntityID _) := by
  intro k record k' hk h
  rw [recsGet_run] at h
  obtain ⟨⟨v, recs⟩, hget, h⟩ := Option.bind_eq_some_iff.mp h
  obtain ⟨-, rfl⟩ := Prod.mk.inj (Option.some.inj h)
  obtain ⟨-, hnode, hsame⟩ := LocLookup.get_some hget
  exact Genuine.recs hk hnode fun id => Or.inl (by rw [hsame])

theorem keepsGenuine_recsUpdate : KeepsGenuine (recsUpdate id node : CoordM EntityID _) := by
  intro k u k' hk h
  rw [recsUpdate_run] at h
  obtain ⟨recs, hupd, h⟩ := Option.bind_eq_some_iff.mp h
  obtain ⟨-, rfl⟩ := Prod.mk.inj (Option.some.inj h)
  obtain ⟨hnode, hself, hother⟩ := LocLookup.update_some hupd
  refine Genuine.recs hk hnode fun id' => ?_
  by_cases hid : id' = id
  · subst hid
    rw [hself, LocLookup.Slot.updated]
    split
    · exact Or.inr (Or.inr ⟨node, rfl⟩)
    · exact Or.inl rfl
  · rcases hother id' hid with hsame | hlost
    · exact Or.inl (by rw [hsame])
    · exact Or.inl (by rw [hlost]; rfl)

theorem keepsGenuine_recsInsert : KeepsGenuine (recsInsert id node : CoordM EntityID _) := by
  intro k u k' hk h
  rw [recsInsert_run, ← hk.1] at h
  obtain ⟨recs, hins, h⟩ := Option.bind_eq_some_iff.mp h
  obtain ⟨-, rfl⟩ := Prod.mk.inj (Option.some.inj h)
  obtain ⟨hnode, hself, hother⟩ := LocLookup.insert_some_home hins
  refine Genuine.recs hk hnode fun id' => ?_
  by_cases hid : id' = id
  · subst hid
    exact Or.inr (Or.inr ⟨node, by rw [hself]⟩)
  · exact Or.inl (by rw [hother id' hid])

theorem keepsGenuine_recsRemove : KeepsGenuine (recsRemove id : CoordM EntityID _) := by
  intro k u k' hk h
  rw [recsRemove_run] at h
  obtain ⟨recs, hrem, h⟩ := Option.bind_eq_some_iff.mp h
  obtain ⟨-, rfl⟩ := Prod.mk.inj (Option.some.inj h)
  obtain ⟨hnode, hself, hother⟩ := LocLookup.remove_some hrem
  refine Genuine.recs hk hnode fun id' => ?_
  by_cases hid : id' = id
  · subst hid
    exact Or.inr (Or.inl (by rw [hself]))
  · exact Or.inl (by rw [hother id' hid])

/-- Sending and invoking do not touch the coordinator. -/
theorem keepsGenuine_send (r : NodeType) (m : ControlMsg EntityID) :
    KeepsGenuine (queueing.send r m) := .modify fun _ hk => hk

theorem keepsGenuine_getCoord : KeepsGenuine (getCoord : CoordM EntityID _) :=
  .bind .get fun _ => .pure _

theorem keepsGenuine_invokeNodeAction (action : NodeAction) :
    KeepsGenuine (invokeNodeAction id action node : CoordM EntityID _) := .modify fun _ hk => hk

theorem keepsGenuine_invokeExistsAction (action : ExistsAction) (ex : Bool) :
    KeepsGenuine (invokeExistsAction id action ex node : CoordM EntityID _) :=
  .modify fun _ hk => hk

theorem keepsGenuine_flushPending : KeepsGenuine (flushPending id node : CoordM EntityID _) :=
  .bind keepsGenuine_getCoord fun _ =>
    .bind (.forM fun _ => keepsGenuine_invokeNodeAction _) fun _ =>
      keepsGenuine_modifyCoord fun _ => ⟨rfl, rfl⟩

theorem keepsGenuine_announceLocation :
    KeepsGenuine (announceLocation queueing id node : CoordM EntityID _) := by
  refine .bind keepsGenuine_recsInsert fun _ => .bind keepsGenuine_getCoord fun _ =>
    .bind (.forM fun _ => keepsGenuine_send _ _) fun _ => .bind keepsGenuine_getCoord fun _ =>
    .bind (.forM fun _ => .bind (keepsGenuine_send _ _) fun _ =>
      keepsGenuine_modifyCoord fun _ => ⟨rfl, rfl⟩) fun _ =>
    .bind (keepsGenuine_modifyCoord fun _ => ⟨rfl, rfl⟩) fun _ => keepsGenuine_flushPending

theorem keepsGenuine_registerEntity (home : NodeType) :
    KeepsGenuine (registerEntity queueing id home : CoordM EntityID _) := by
  refine .bind (keepsGenuine_modifyCoord fun _ => ⟨rfl, rfl⟩) fun _ =>
    .bind keepsGenuine_getCoord fun _ => .ite keepsGenuine_announceLocation ?_
  exact keepsGenuine_send _ _

theorem keepsGenuine_getLocation (home : NodeType) (action : NodeAction) :
    KeepsGenuine (getLocation queueing id home action : CoordM EntityID _) := by
  refine .bind keepsGenuine_getCoord fun _ => .ite (keepsGenuine_invokeNodeAction _) (.ite
    (.bind keepsGenuine_recsGet fun _ => keepsGenuine_invokeNodeAction _) ?_)
  exact .bind (keepsGenuine_modifyCoord fun _ => ⟨rfl, rfl⟩) fun _ =>
    .ite (keepsGenuine_send _ _) (.pure _)

theorem keepsGenuine_entityExists (home : NodeType) (action : ExistsAction) :
    KeepsGenuine (entityExists queueing id home action : CoordM EntityID _) := by
  refine .bind keepsGenuine_getCoord fun _ => .ite (keepsGenuine_invokeExistsAction _ _) (.ite
    (.bind keepsGenuine_recsGet fun _ => keepsGenuine_invokeExistsAction _ _) (.ite
    (keepsGenuine_invokeExistsAction _ _) ?_))
  exact .bind (keepsGenuine_modifyCoord fun _ => ⟨rfl, rfl⟩) fun _ =>
    .ite (keepsGenuine_send _ _) (.pure _)

/-- Every public operation keeps the directory records genuine. -/
theorem keepsGenuine_run (op : Op EntityID) (home : EntityID → NodeType) :
    KeepsGenuine (op.run queueing home) := by
  cases op with
  | registerEntity id => exact keepsGenuine_registerEntity (home id)
  | entityImmigrated id src => exact keepsGenuine_registerEntity (home id)
  | entityEmigrated id newNode =>
      exact .bind (keepsGenuine_modifyCoord fun _ => ⟨rfl, rfl⟩) fun _ => keepsGenuine_recsUpdate
  | unregisterEntity id =>
      exact .bind (keepsGenuine_modifyCoord fun _ => ⟨rfl, rfl⟩) fun _ => keepsGenuine_recsRemove
  | getLocation id action => exact keepsGenuine_getLocation (home id) action
  | entityExists id action => exact keepsGenuine_entityExists (home id) action
  | isCached id => exact .pure _
  | clearCache => exact .modify fun _ hk => hk

/-- So does every handler. -/
theorem keepsGenuine_handle (m : ControlMsg EntityID) : KeepsGenuine (handle queueing m) := by
  obtain ⟨id, msg⟩ := m
  cases msg with
  | updateHome n => exact keepsGenuine_announceLocation
  | locationRequest q =>
      refine .bind keepsGenuine_getCoord fun _ => .ite ?_ (.ite ?_ ?_)
      · exact .bind (keepsGenuine_modifyCoord fun _ => ⟨rfl, rfl⟩) fun _ =>
          .bind keepsGenuine_recsGet fun _ => keepsGenuine_send _ _
      · exact .bind (keepsGenuine_modifyCoord fun _ => ⟨rfl, rfl⟩) fun _ => keepsGenuine_send _ _
      · exact keepsGenuine_modifyCoord fun _ => ⟨rfl, rfl⟩
  | resolveResponse n => exact .bind keepsGenuine_recsUpdate fun _ => keepsGenuine_flushPending
  | existsRequest q =>
      refine .bind keepsGenuine_getCoord fun _ => .ite ?_ (.ite ?_ ?_)
      · exact .bind keepsGenuine_recsGet fun _ => keepsGenuine_send _ _
      · exact keepsGenuine_send _ _
      · exact keepsGenuine_send _ _
  | existsResponse ex n =>
      have hflush : KeepsGenuine (do
          let c ← getCoord
          (c.pendingExists id).forM fun action => invokeExistsAction id action ex n
          modifyCoord fun c =>
            { c with pendingExists := Function.update c.pendingExists id [] }) :=
        .bind keepsGenuine_getCoord fun _ =>
          .bind (.forM fun _ => keepsGenuine_invokeExistsAction _ _) fun _ =>
            keepsGenuine_modifyCoord fun _ => ⟨rfl, rfl⟩
      cases ex with
      | false => exact hflush
      | true => exact .bind keepsGenuine_recsUpdate fun _ => hflush

end Coordinator

open Coordinator in
/-- In every run, every directory record was made for its key by its own rank. -/
theorem genuine_of_run {cfg : Config EntityID}
    {ok : Runs.Guard (System EntityID) (Label EntityID)} {past : List (Label EntityID)}
    {s : System EntityID} (h : cfg.Run ok past s) (r : NodeType) : (s.coord r).Genuine := by
  have hactivate : ∀ {s s' : System EntityID} {q : NodeType} {p : CoordM EntityID Unit},
      KeepsGenuine p → (∀ r, (s.coord r).Genuine) → s.activate q p = some s' →
      ∀ r, (s'.coord r).Genuine := by
    intro s s' q p hp hs hact r
    obtain ⟨k, hk, rfl⟩ := System.activate_eq_some hact
    by_cases hr : r = q
    · subst hr
      simpa using hp _ _ _ (hs r) hk
    · simpa [hr] using hs r
  refine h.invariant (I := fun _ s => ∀ r, (s.coord r).Genuine) ?_ ?_ ?_ r
  · intro r
    exact ⟨rfl, fun id record hrec => absurd hrec (by simp [Config.init, Coordinator.new])⟩
  · intro past s l s' hs _ hstep
    cases l with
    | call q op =>
        exact hactivate (keepsGenuine_run op cfg.home) hs
          (Option.ite_none_right_eq_some.mp hstep).2
    | deliver p =>
        exact hactivate (s := { s with net := s.net.erase p }) (keepsGenuine_handle p.body) hs
          (Option.ite_none_right_eq_some.mp hstep).2
  · intro past s s' _ hsilent
    exact hsilent.elim

/-- Two genuine coordinators of one rank with the same directory nodes have the same
directory. -/
theorem Coordinator.Genuine.directory_eq {c c' : Coordinator EntityID} (h : c.Genuine)
    (h' : c'.Genuine) (hnode : c.thisNode = c'.thisNode)
    (hdir : ∀ id, (c.site id).dir = (c'.site id).dir) : c.recs.directory = c'.recs.directory := by
  have hget : ∀ id, c.recs.directory.getIter id = c'.recs.directory.getIter id := by
    intro id
    have hmap := hdir id
    cases hc : c.recs.directory.getIter id with
    | none =>
        cases hc' : c'.recs.directory.getIter id with
        | none => rfl
        | some record => simp [site, LocLookup.slot, hc, hc'] at hmap
    | some record =>
        cases hc' : c'.recs.directory.getIter id with
        | none => simp [site, LocLookup.slot, hc, hc'] at hmap
        | some record' =>
            have heq : record.getRemoteNode = record'.getRemoteNode := by
              simpa [site, LocLookup.slot, hc, hc'] using hmap
            rw [h.2 id record hc, h'.2 id record' hc', heq, makeRec, makeRec, hnode]
  have hlookup : c.recs.directory.dir = c'.recs.directory.dir := Finmap.ext_lookup hget
  cases hd : c.recs.directory
  cases hd' : c'.recs.directory
  simp_all

end Loc
