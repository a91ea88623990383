import Loc.System

/-!
# Loc.Refinement

**The coordinators run the entity protocol.** Seen through any one entity, every
step of the system is the step of `Loc.Entity.Protocol` that its label projects
to, or, when the label is about something else, the loss of at most one cached
record.

The first part evaluates coordinator code under the `queueing` backend. Each
function then gets one lemma saying what an activation of it does (`Does`): the
effect the protocol prescribes for its own entity, and nothing but a possible
eviction for every other one. `Config.run_view` lifts this to runs.
-/

namespace Loc

open Coordinator
open Channel (posted Packet Oldest)

variable {EntityID : Type} [DecidableEq EntityID]

/-! ### Running coordinator code -/

namespace Coordinator

section Run

variable {α β : Type} (k : Activation EntityID)

@[simp] theorem bind_run (p : CoordM EntityID α) (q : α → CoordM EntityID β) :
    (p >>= q) k = (p k).bind fun x => q x.1 x.2 := by
  rfl

@[simp] theorem pure_run (a : α) : (pure a : CoordM EntityID α) k = some (a, k) := rfl

@[simp] theorem map_run (f : α → β) (p : CoordM EntityID α) :
    (f <$> p) k = (p k).bind fun x => some (f x.1, x.2) := by
  rfl

@[simp] theorem ite_run (c : Prop) [Decidable c] (p q : CoordM EntityID α) :
    (if c then p else q) k = if c then p k else q k := by
  split <;> rfl

@[simp] theorem lift_run (o : Option α) :
    (liftM o : CoordM EntityID α) k = o.bind fun a => some (a, k) := by
  cases o <;> rfl

@[simp] theorem getCoord_run : (getCoord : CoordM EntityID _) k = some (k.coord, k) := rfl

@[simp] theorem modifyCoord_run (f : Coordinator EntityID → Coordinator EntityID) :
    modifyCoord f k = some ((), { k with coord := f k.coord }) := rfl

@[simp] theorem send_run (node : NodeType) (m : ControlMsg EntityID) :
    queueing.send node m k = some ((), { k with outbox := k.outbox ++ [(node, m)] }) := rfl

@[simp] theorem invokeNodeAction_run (id : EntityID) (a : NodeAction) (node : NodeType) :
    invokeNodeAction id a node k = some ((),
      { k with answers := k.answers ++ [⟨id, .located k.coord.thisNode a node⟩] }) := rfl

@[simp] theorem invokeExistsAction_run (id : EntityID) (a : ExistsAction) (ex : Bool)
    (node : NodeType) :
    invokeExistsAction id a ex node k = some ((),
      { k with answers := k.answers ++ [⟨id, .existence k.coord.thisNode a ex node⟩] }) := rfl

@[simp] theorem recsInsert_run (id : EntityID) (node : NodeType) :
    recsInsert id node k =
      (k.coord.recs.insert id k.coord.thisNode (k.coord.makeRec id node)).bind fun recs =>
        some ((), { k with coord := { k.coord with recs } }) := by
  simp [recsInsert, Option.bind_assoc]

@[simp] theorem recsUpdate_run (id : EntityID) (node : NodeType) :
    recsUpdate id node k =
      (k.coord.recs.update id (k.coord.makeRec id node)).bind fun recs =>
        some ((), { k with coord := { k.coord with recs } }) := by
  simp [recsUpdate, Option.bind_assoc]

@[simp] theorem recsRemove_run (id : EntityID) :
    recsRemove id k = (k.coord.recs.remove id).bind fun recs =>
        some ((), { k with coord := { k.coord with recs } }) := by
  simp [recsRemove, Option.bind_assoc]

@[simp] theorem recsGet_run (id : EntityID) :
    recsGet id k = (k.coord.recs.get id).bind fun x =>
        some (x.1, { k with coord := { k.coord with recs := x.2 } }) := by
  simp [recsGet, Option.bind_assoc]
end Run

/-! ### The loops -/

theorem forM_invokeNodeAction (l : List NodeAction) (id : EntityID) (node : NodeType)
    (k : Activation EntityID) :
    (forM l fun action => invokeNodeAction id action node) k =
      some ((), { k with answers :=
        k.answers ++ l.map fun a => ⟨id, .located k.coord.thisNode a node⟩ }) := by
  induction l generalizing k with
  | nil => simp
  | cons a l ih => simp [ih]

theorem forM_invokeExistsAction (l : List ExistsAction) (id : EntityID) (ex : Bool)
    (node : NodeType) (k : Activation EntityID) :
    (forM l fun action => invokeExistsAction id action ex node) k =
      some ((), { k with answers :=
        k.answers ++ l.map fun a => ⟨id, .existence k.coord.thisNode a ex node⟩ }) := by
  induction l generalizing k with
  | nil => simp
  | cons a l ih => simp [ih]

theorem forM_send (l : List NodeType) (m : ControlMsg EntityID) (k : Activation EntityID) :
    (forM l fun node => queueing.send node m) k =
      some ((), { k with outbox := k.outbox ++ l.map fun node => (node, m) }) := by
  induction l generalizing k with
  | nil => simp
  | cons node l ih => simp [ih]

theorem forM_remember (l : List NodeType) (id : EntityID) (m : ControlMsg EntityID)
    (k : Activation EntityID) :
    (forM l fun requester => do
      queueing.send requester m
      modifyCoord fun c =>
        { c with locAsks := Function.update c.locAsks id ((c.locAsks id).insert requester) }) k =
      some ((), { k with
        coord := { k.coord with
          locAsks := Function.update k.coord.locAsks id (Entity.remember (k.coord.locAsks id) l) }
        outbox := k.outbox ++ l.map fun node => (node, m) }) := by
  induction l generalizing k with
  | nil => simp [Entity.remember]
  | cons node l ih => simp [ih, Entity.remember]

theorem flushPending_run (id : EntityID) (node : NodeType) (k : Activation EntityID) :
    flushPending id node k = some ((), { k with
      coord := { k.coord with pending := Function.update k.coord.pending id [] }
      answers := k.answers ++
        (k.coord.pending id).map fun a => ⟨id, .located k.coord.thisNode a node⟩ }) := by
  simp [flushPending, forM_invokeNodeAction]

theorem announceLocation_run (id : EntityID) (node : NodeType) (k : Activation EntityID) :
    announceLocation queueing id node k =
      (k.coord.recs.insert id k.coord.thisNode (k.coord.makeRec id node)).bind fun recs =>
        some ((), {
          coord := { k.coord with
            recs
            pending := Function.update k.coord.pending id []
            pendingHome := Function.update k.coord.pendingHome id []
            locAsks := Function.update k.coord.locAsks id
              (Entity.remember (k.coord.locAsks id) (k.coord.pendingHome id)) }
          outbox := k.outbox ++ (k.coord.locAsks id ++ k.coord.pendingHome id).map fun q =>
            (q, ⟨id, .resolveResponse node⟩)
          answers := k.answers ++
            (k.coord.pending id).map fun a => ⟨id, .located k.coord.thisNode a node⟩ }) := by
  simp [announceLocation, forM_send, forM_remember, flushPending_run, Option.bind_assoc]

end Coordinator

/-! ### What an activation does -/

/-- The lookup knows which rank it is on. -/
def Coordinator.WellPlaced (c : Coordinator EntityID) : Prop := c.recs.thisNode = c.thisNode

/-- The activation that left `c` for `k` did `e` to `id`, and to every other
entity nothing, or an eviction. -/
structure Does (id : EntityID) (c : Coordinator EntityID) (k : Activation EntityID)
    (e : Entity.Effect NodeType) : Prop where
  thisNode : k.coord.thisNode = c.thisNode
  placed : k.coord.WellPlaced
  site : k.coord.site id = e.site
  outbox : k.outbox = e.outbox.map fun m => (m.1, ⟨id, m.2⟩)
  answers : k.answers = e.answers.map fun a => ⟨id, a⟩
  others : ∀ id' ≠ id,
    k.coord.site id' = c.site id' ∨ k.coord.site id' = (c.site id').forget

/-- Only the entity of the activation was prepared beforehand. -/
theorem Does.of_prepared {id : EntityID} {c c₁ : Coordinator EntityID} {k : Activation EntityID}
    {e : Entity.Effect NodeType} (h : Does id c₁ k e) (hnode : c₁.thisNode = c.thisNode)
    (hsame : ∀ id' ≠ id, c₁.site id' = c.site id') : Does id c k e :=
  { h with
    thisNode := h.thisNode.trans hnode
    others := fun id' hne => hsame id' hne ▸ h.others id' hne }

namespace Coordinator

variable {id : EntityID} {c : Coordinator EntityID} {k : Activation EntityID}

/-- The record is known to carry the node it was made for. -/
@[simp] theorem getRemoteNode_makeRec (c : Coordinator EntityID) (id : EntityID) (n : NodeType) :
    (c.makeRec id n).getRemoteNode = n := rfl

theorem site_node (c : Coordinator EntityID) (id : EntityID) :
    (c.site id).node = c.recordedNode id := by
  simp [site, Entity.Site.node, recordedNode, LocLookup.Slot.value, Option.map_or]

theorem site_dir (c : Coordinator EntityID) (id : EntityID) :
    (c.site id).dir = c.directoryNode id := rfl

theorem directory_exists_eq (c : Coordinator EntityID) (id : EntityID) :
    c.recs.directory.exists id = (c.site id).dir.isSome := by
  rw [site_dir, directoryNode, Option.isSome_map]
  rfl

theorem cache_exists_eq (c : Coordinator EntityID) (id : EntityID) :
    c.recs.cache.exists id = (c.site id).cached.isSome := by
  rw [CoherentCache.exists_eq, site, Option.isSome_map]
  rfl

theorem exists_eq (c : Coordinator EntityID) (id : EntityID) :
    c.recs.exists id = (c.site id).node.isSome := by
  rw [site_node, recordedNode, LocLookup.exists_eq, Option.isSome_map]

/-- `recs_.update` of the entity's own record. -/
theorem site_learn {d : Coordinator EntityID} {record : LocRecord EntityID}
    (h : d.recs.slot id = (c.recs.slot id).updated record)
    (hlocal : id ∈ d.localRegistered ↔ id ∈ c.localRegistered)
    (hpending : d.pending id = c.pending id) (hexists : d.pendingExists id = c.pendingExists id)
    (hhome : d.pendingHome id = c.pendingHome id) (hasks : d.locAsks id = c.locAsks id) :
    d.site id = (c.site id).learn record.getRemoteNode := by
  unfold Entity.Site.learn
  cases hd : (c.recs.slot id).dir <;>
    simp [site, h, LocLookup.Slot.updated, hd, hlocal, hpending, hexists, hhome, hasks]

/-- An entity the activation was not about, whose records were at most evicted. -/
theorem site_of_keeps {c' : Coordinator EntityID}
    (hrecs : LocLookup.Keeps c.recs c'.recs id)
    (hlocal : id ∈ c'.localRegistered ↔ id ∈ c.localRegistered)
    (hpending : c'.pending id = c.pending id) (hexists : c'.pendingExists id = c.pendingExists id)
    (hhome : c'.pendingHome id = c.pendingHome id) (hasks : c'.locAsks id = c.locAsks id) :
    c'.site id = c.site id ∨ c'.site id = (c.site id).forget := by
  rcases hrecs with h | h
  · exact Or.inl (by simp [site, h, hlocal, hpending, hexists, hhome, hasks])
  · exact Or.inr (by
      simp [site, Entity.Site.forget, LocLookup.Slot.evicted, h, hlocal, hpending, hexists, hhome,
        hasks])

theorem announceLocation_does {node : NodeType} (hc : c.WellPlaced)
    (h : announceLocation queueing id node ⟨c, [], []⟩ = some ((), k)) :
    Does id c k (Entity.announce c.thisNode node (c.site id)) := by
  rw [announceLocation_run] at h
  obtain ⟨recs, hins, h⟩ := Option.bind_eq_some_iff.mp h
  obtain rfl := (Prod.mk.inj (Option.some.inj h)).2
  rw [← hc] at hins
  obtain ⟨hnode, hself, hother⟩ := LocLookup.insert_some_home hins
  refine ⟨rfl, hnode.trans hc, ?_, ?_, ?_, ?_⟩
  · simp [site, Entity.announce, hself]
  · simp [Entity.announce, site, Function.comp_def]
  · simp [Entity.announce, site, Function.comp_def]
  · intro id' hne
    exact site_of_keeps (LocLookup.keeps_of_eq (hother id' hne)) Iff.rfl (by simp [hne]) rfl
      (by simp [hne]) (by simp [hne])

theorem registerEntity_does {home : NodeType} (hc : c.WellPlaced)
    (h : registerEntity queueing id home ⟨c, [], []⟩ = some ((), k)) :
    Does id c k (Entity.register home c.thisNode (c.site id)) := by
  have hsame : ∀ id' ≠ id,
      ({ c with localRegistered := insert id c.localRegistered } : Coordinator EntityID).site id' =
        c.site id' := by
    intro id' hne
    simp [site, hne]
  simp only [registerEntity, bind_run, modifyCoord_run, getCoord_run, ite_run, send_run,
    Option.bind_some] at h
  unfold Entity.register
  split at h
  · next hhome =>
    rw [if_pos hhome]
    have hdoes := announceLocation_does
      (c := { c with localRegistered := insert id c.localRegistered }) hc h
    simpa [site] using hdoes.of_prepared (c := c) rfl hsame
  · next hhome =>
    rw [if_neg hhome]
    obtain rfl := (Prod.mk.inj (Option.some.inj h)).2
    exact ⟨rfl, hc, by simp [site], by simp, by simp, fun id' hne => Or.inl (hsame id' hne)⟩

theorem entityEmigrated_does {newNode : NodeType} (hc : c.WellPlaced)
    (h : entityEmigrated id newNode ⟨c, [], []⟩ = some ((), k)) :
    Does id c k (Entity.emigrate newNode (c.site id)) := by
  simp only [entityEmigrated, bind_run, modifyCoord_run, recsUpdate_run, Option.bind_some] at h
  obtain ⟨recs, hupd, h⟩ := Option.bind_eq_some_iff.mp h
  obtain rfl := (Prod.mk.inj (Option.some.inj h)).2
  obtain ⟨hnode, hself, hother⟩ := LocLookup.update_some hupd
  refine ⟨rfl, hnode.trans hc, ?_, rfl, rfl, fun id' hne => ?_⟩
  · have hlearn := site_learn (c := { c with localRegistered := c.localRegistered.erase id })
      (d := { c with localRegistered := c.localRegistered.erase id, recs })
      hself Iff.rfl rfl rfl rfl rfl
    simpa [Entity.emigrate, site] using hlearn
  · exact site_of_keeps (hother id' hne) (by simp [hne]) rfl rfl rfl rfl

theorem unregisterEntity_does (hc : c.WellPlaced)
    (h : unregisterEntity id ⟨c, [], []⟩ = some ((), k)) :
    Does id c k (Entity.unregister (c.site id)) := by
  simp only [unregisterEntity, bind_run, modifyCoord_run, recsRemove_run, Option.bind_some] at h
  obtain ⟨recs, hrem, h⟩ := Option.bind_eq_some_iff.mp h
  obtain rfl := (Prod.mk.inj (Option.some.inj h)).2
  obtain ⟨hnode, hself, hother⟩ := LocLookup.remove_some hrem
  refine ⟨rfl, hnode.trans hc, ?_, rfl, rfl, fun id' hne => ?_⟩
  · simp [site, Entity.unregister, hself]
  · exact site_of_keeps (LocLookup.keeps_of_eq (hother id' hne)) (by simp [hne]) rfl rfl rfl rfl

/-- Reading a record only moves it in the recency order. -/
theorem site_of_get {record : LocRecord EntityID}
    {recs : LocLookup EntityID (LocRecord EntityID)}
    (h : c.recs.get id = some (record, recs)) :
    recs.thisNode = c.recs.thisNode ∧ (c.site id).node = some record.getRemoteNode ∧
      ∀ id', ({ c with recs } : Coordinator EntityID).site id' = c.site id' := by
  obtain ⟨hvalue, hnode, hslot⟩ := LocLookup.get_some h
  exact ⟨hnode, by rw [site_node, recordedNode, hvalue]; rfl, fun id' => by simp [site, hslot]⟩

theorem getLocation_does {home : NodeType} {action : NodeAction} (hc : c.WellPlaced)
    (h : getLocation queueing id home action ⟨c, [], []⟩ = some ((), k)) :
    Does id c k (Entity.getLocation home c.thisNode action (c.site id)) := by
  simp only [getLocation, bind_run, modifyCoord_run, getCoord_run, ite_run, send_run,
    invokeNodeAction_run, recsGet_run, pure_run, Option.bind_some, Option.bind_assoc,
    exists_eq] at h
  unfold Entity.getLocation
  have hhosts : (c.site id).hosts = decide (id ∈ c.localRegistered) := rfl
  split at h
  · next hlocal =>
    obtain rfl := (Prod.mk.inj (Option.some.inj h)).2
    rw [if_pos (by simpa [hhosts] using hlocal)]
    exact ⟨rfl, hc, rfl, rfl, rfl, fun _ _ => Or.inl rfl⟩
  · next hlocal =>
    rw [if_neg (by simpa [hhosts] using hlocal)]
    split at h
    · obtain ⟨⟨record, recs⟩, hget, h⟩ := Option.bind_eq_some_iff.mp h
      obtain rfl := (Prod.mk.inj (Option.some.inj h)).2
      obtain ⟨hnode, hvalue, hsite⟩ := site_of_get hget
      rw [hvalue]
      exact ⟨rfl, hnode.trans hc, hsite id, rfl, rfl, fun id' _ => Or.inl (hsite id')⟩
    · next hnone =>
      have hpending : (c.pending id ++ [action]).length = 1 ↔ (c.site id).pending = [] := by
        simp [site]
      rw [Option.not_isSome_iff_eq_none.mp hnone]
      simp only [hpending] at h
      split at h
      · next hfirst =>
        obtain rfl := (Prod.mk.inj (Option.some.inj h)).2
        rw [if_pos hfirst]
        refine ⟨rfl, hc, by simp [site], by simp, by simp, fun id' hne => Or.inl ?_⟩
        simp [site, hne]
      · next hfirst =>
        obtain rfl := (Prod.mk.inj (Option.some.inj h)).2
        rw [if_neg hfirst]
        refine ⟨rfl, hc, by simp [site], by simp, by simp, fun id' hne => Or.inl ?_⟩
        simp [site, hne]

theorem entityExists_does {home : NodeType} {action : ExistsAction} (hc : c.WellPlaced)
    (h : entityExists queueing id home action ⟨c, [], []⟩ = some ((), k)) :
    Does id c k (Entity.entityExists home noNode c.thisNode action (c.site id)) := by
  simp only [entityExists, bind_run, modifyCoord_run, getCoord_run, ite_run, send_run,
    invokeExistsAction_run, recsGet_run, pure_run, Option.bind_some, Option.bind_assoc,
    exists_eq] at h
  unfold Entity.entityExists
  have hhosts : (c.site id).hosts = decide (id ∈ c.localRegistered) := rfl
  split at h
  · next hlocal =>
    obtain rfl := (Prod.mk.inj (Option.some.inj h)).2
    rw [if_pos (by simpa [hhosts] using hlocal)]
    exact ⟨rfl, hc, rfl, rfl, rfl, fun _ _ => Or.inl rfl⟩
  · next hlocal =>
    rw [if_neg (by simpa [hhosts] using hlocal)]
    split at h
    · obtain ⟨⟨record, recs⟩, hget, h⟩ := Option.bind_eq_some_iff.mp h
      obtain rfl := (Prod.mk.inj (Option.some.inj h)).2
      obtain ⟨hnode, hvalue, hsite⟩ := site_of_get hget
      rw [hvalue]
      exact ⟨rfl, hnode.trans hc, hsite id, rfl, rfl, fun id' _ => Or.inl (hsite id')⟩
    · next hnone =>
      rw [Option.not_isSome_iff_eq_none.mp hnone]
      dsimp only
      split at h
      · next hhome =>
        obtain rfl := (Prod.mk.inj (Option.some.inj h)).2
        rw [if_pos hhome]
        exact ⟨rfl, hc, rfl, rfl, rfl, fun _ _ => Or.inl rfl⟩
      · next hhome =>
        have hpending :
            (c.pendingExists id ++ [action]).length = 1 ↔ (c.site id).pendingExists = [] := by
          simp [site]
        rw [if_neg hhome]
        simp only [hpending] at h
        split at h
        · next hfirst =>
          obtain rfl := (Prod.mk.inj (Option.some.inj h)).2
          rw [if_pos hfirst]
          refine ⟨rfl, hc, by simp [site], by simp, by simp, fun id' hne => Or.inl ?_⟩
          simp [site, hne]
        · next hfirst =>
          obtain rfl := (Prod.mk.inj (Option.some.inj h)).2
          rw [if_neg hfirst]
          refine ⟨rfl, hc, by simp [site], by simp, by simp, fun id' hne => Or.inl ?_⟩
          simp [site, hne]

theorem locationRequest_does {requester : NodeType} (hc : c.WellPlaced)
    (h : locationRequest queueing id requester ⟨c, [], []⟩ = some ((), k)) :
    Does id c k (Entity.locationRequest c.thisNode requester (c.site id)) := by
  simp only [locationRequest, bind_run, modifyCoord_run, getCoord_run, ite_run, send_run,
    recsGet_run, Option.bind_some, Option.bind_assoc, exists_eq] at h
  unfold Entity.locationRequest
  have hhosts : (c.site id).hosts = decide (id ∈ c.localRegistered) := rfl
  split at h
  · obtain ⟨⟨record, recs⟩, hget, h⟩ := Option.bind_eq_some_iff.mp h
    obtain rfl := (Prod.mk.inj (Option.some.inj h)).2
    obtain ⟨hvalue, hnode, hslot⟩ := LocLookup.get_some hget
    have hsite : (c.site id).node = some record.getRemoteNode := by
      rw [site_node, recordedNode, hvalue]
      rfl
    rw [hsite]
    refine ⟨rfl, hnode.trans hc, by simp [site, hslot], by simp, rfl, fun id' hne => Or.inl ?_⟩
    simp [site, hslot, hne]
  · next hnone =>
    rw [Option.not_isSome_iff_eq_none.mp hnone]
    dsimp only
    split at h
    · next hlocal =>
      obtain rfl := (Prod.mk.inj (Option.some.inj h)).2
      rw [if_pos (by simpa [hhosts] using hlocal)]
      refine ⟨rfl, hc, by simp [site], by simp, rfl, fun id' hne => Or.inl ?_⟩
      simp [site, hne]
    · next hlocal =>
      obtain rfl := (Prod.mk.inj (Option.some.inj h)).2
      rw [if_neg (by simpa [hhosts] using hlocal)]
      refine ⟨rfl, hc, by simp [site], rfl, rfl, fun id' hne => Or.inl ?_⟩
      simp [site, hne]

theorem resolveResponse_does {node : NodeType} (hc : c.WellPlaced)
    (h : resolveResponse id node ⟨c, [], []⟩ = some ((), k)) :
    Does id c k (Entity.resolveResponse c.thisNode node (c.site id)) := by
  simp only [resolveResponse, bind_run, recsUpdate_run, flushPending_run, Option.bind_assoc,
    Option.bind_some] at h
  obtain ⟨recs, hupd, h⟩ := Option.bind_eq_some_iff.mp h
  obtain rfl := (Prod.mk.inj (Option.some.inj h)).2
  obtain ⟨hnode, hself, hother⟩ := LocLookup.update_some hupd
  have hlearn := site_learn (d := { c with recs }) hself Iff.rfl rfl rfl rfl rfl
  rw [getRemoteNode_makeRec] at hlearn
  refine ⟨rfl, hnode.trans hc, ?_, rfl, by simp [Entity.resolveResponse, site, Function.comp_def],
    fun id' hne => ?_⟩
  · rw [Entity.resolveResponse, ← hlearn]
    simp [site]
  · exact site_of_keeps (hother id' hne) Iff.rfl (by simp [hne]) rfl rfl rfl

theorem existsRequest_does {requester : NodeType} (hc : c.WellPlaced)
    (h : existsRequest queueing id requester ⟨c, [], []⟩ = some ((), k)) :
    Does id c k (Entity.existsRequest noNode c.thisNode requester (c.site id)) := by
  simp only [existsRequest, bind_run, getCoord_run, ite_run, send_run, recsGet_run,
    Option.bind_some, Option.bind_assoc, exists_eq] at h
  unfold Entity.existsRequest
  have hhosts : (c.site id).hosts = decide (id ∈ c.localRegistered) := rfl
  split at h
  · obtain ⟨⟨record, recs⟩, hget, h⟩ := Option.bind_eq_some_iff.mp h
    obtain rfl := (Prod.mk.inj (Option.some.inj h)).2
    obtain ⟨hnode, hvalue, hsite⟩ := site_of_get hget
    rw [hvalue]
    exact ⟨rfl, hnode.trans hc, hsite id, rfl, rfl, fun id' _ => Or.inl (hsite id')⟩
  · next hnone =>
    rw [Option.not_isSome_iff_eq_none.mp hnone]
    dsimp only
    split at h
    · next hlocal =>
      obtain rfl := (Prod.mk.inj (Option.some.inj h)).2
      rw [if_pos (by simpa [hhosts] using hlocal)]
      exact ⟨rfl, hc, rfl, rfl, rfl, fun _ _ => Or.inl rfl⟩
    · next hlocal =>
      obtain rfl := (Prod.mk.inj (Option.some.inj h)).2
      rw [if_neg (by simpa [hhosts] using hlocal)]
      exact ⟨rfl, hc, rfl, rfl, rfl, fun _ _ => Or.inl rfl⟩

theorem existsResponse_does {ex : Bool} {node : NodeType} (hc : c.WellPlaced)
    (h : existsResponse id ex node ⟨c, [], []⟩ = some ((), k)) :
    Does id c k (Entity.existsResponse c.thisNode ex node (c.site id)) := by
  cases ex with
  | false =>
      simp [existsResponse, forM_invokeExistsAction] at h
      subst h
      refine ⟨rfl, hc, ?_, rfl, by simp [Entity.existsResponse, site, Function.comp_def],
        fun id' hne => Or.inl ?_⟩
      · simp [Entity.existsResponse, site]
      · simp [site, hne]
  | true =>
      simp only [existsResponse, List.forM_eq_forM, if_true, bind_run, recsUpdate_run,
        getCoord_run, modifyCoord_run, forM_invokeExistsAction, Option.bind_assoc,
        Option.bind_some] at h
      obtain ⟨recs, hupd, h⟩ := Option.bind_eq_some_iff.mp h
      obtain rfl := (Prod.mk.inj (Option.some.inj h)).2
      obtain ⟨hnode, hself, hother⟩ := LocLookup.update_some hupd
      have hlearn := site_learn (d := { c with recs }) hself Iff.rfl rfl rfl rfl rfl
      rw [getRemoteNode_makeRec] at hlearn
      refine ⟨rfl, hnode.trans hc, ?_, rfl,
        by simp [Entity.existsResponse, site, Function.comp_def], fun id' hne => ?_⟩
      · rw [Entity.existsResponse, if_pos rfl, ← hlearn]
        simp [site]
      · exact site_of_keeps (hother id' hne) Iff.rfl rfl (by simp [hne]) rfl rfl

/-- Every public operation about `id` does what the protocol prescribes. -/
theorem run_does {home : EntityID → NodeType} {op : Op EntityID} {call : Entity.Call NodeType}
    (habout : op.about id = some call) (hc : c.WellPlaced)
    (h : op.run queueing home ⟨c, [], []⟩ = some ((), k)) :
    Does id c k (Entity.onCall (home id) noNode c.thisNode call (c.site id)) := by
  cases op with
  | isCached _ => exact absurd habout (by simp [Op.about])
  | clearCache => exact absurd habout (by simp [Op.about])
  | registerEntity id' =>
      obtain ⟨rfl, hcall⟩ := Option.ite_none_right_eq_some.mp habout
      exact Option.some.inj hcall ▸ registerEntity_does hc h
  | entityImmigrated id' src =>
      obtain ⟨rfl, hcall⟩ := Option.ite_none_right_eq_some.mp habout
      exact Option.some.inj hcall ▸ registerEntity_does hc h
  | entityEmigrated id' newNode =>
      obtain ⟨rfl, hcall⟩ := Option.ite_none_right_eq_some.mp habout
      exact Option.some.inj hcall ▸ entityEmigrated_does hc h
  | unregisterEntity id' =>
      obtain ⟨rfl, hcall⟩ := Option.ite_none_right_eq_some.mp habout
      exact Option.some.inj hcall ▸ unregisterEntity_does hc h
  | getLocation id' action =>
      obtain ⟨rfl, hcall⟩ := Option.ite_none_right_eq_some.mp habout
      exact Option.some.inj hcall ▸ getLocation_does hc h
  | entityExists id' action =>
      obtain ⟨rfl, hcall⟩ := Option.ite_none_right_eq_some.mp habout
      exact Option.some.inj hcall ▸ entityExists_does hc h

/-- So does every handler. -/
theorem handle_does {m : ControlMsg EntityID} (hc : c.WellPlaced)
    (h : handle queueing m ⟨c, [], []⟩ = some ((), k)) :
    Does m.id c k (Entity.onMsg noNode c.thisNode m.msg (c.site m.id)) := by
  obtain ⟨id, msg⟩ := m
  cases msg with
  | updateHome node => exact announceLocation_does hc h
  | locationRequest requester => exact locationRequest_does hc h
  | resolveResponse node => exact resolveResponse_does hc h
  | existsRequest requester => exact existsRequest_does hc h
  | existsResponse ex node => exact existsResponse_does hc h

end Coordinator

/-! ### What an activation spares -/

/-- The activation that left `c` for `k` was not about `id`. -/
structure Spares (id : EntityID) (c : Coordinator EntityID) (k : Activation EntityID) : Prop where
  thisNode : k.coord.thisNode = c.thisNode
  placed : k.coord.WellPlaced
  site : k.coord.site id = c.site id ∨ k.coord.site id = (c.site id).forget
  outbox : ∀ m ∈ k.outbox, m.2.id ≠ id
  answers : ∀ i ∈ k.answers, i.id ≠ id

theorem Does.spares {id id' : EntityID} {c : Coordinator EntityID} {k : Activation EntityID}
    {e : Entity.Effect NodeType} (h : Does id' c k e) (hne : id ≠ id') : Spares id c k where
  thisNode := h.thisNode
  placed := h.placed
  site := h.others id hne
  outbox := by
    intro m hm
    rw [h.outbox] at hm
    obtain ⟨m, -, rfl⟩ := List.mem_map.mp hm
    exact hne.symm
  answers := by
    intro i hi
    rw [h.answers] at hi
    obtain ⟨a, -, rfl⟩ := List.mem_map.mp hi
    exact hne.symm

namespace Coordinator

variable {id : EntityID} {c : Coordinator EntityID} {k : Activation EntityID}

theorem run_spares {home : EntityID → NodeType} {op : Op EntityID} (habout : op.about id = none)
    (hc : c.WellPlaced) (h : op.run queueing home ⟨c, [], []⟩ = some ((), k)) :
    Spares id c k := by
  have other : ∀ (id' : EntityID) {call : Entity.Call NodeType},
      op.about id' = some call → Spares id c k := by
    intro id' call hop
    refine (run_does hop hc h).spares ?_
    intro heq
    subst heq
    rw [habout] at hop
    exact absurd hop (by simp)
  cases op with
  | isCached _ =>
      obtain rfl := (Prod.mk.inj (Option.some.inj h)).2
      exact ⟨rfl, hc, Or.inl rfl, by simp, by simp⟩
  | clearCache =>
      obtain rfl := (Prod.mk.inj (Option.some.inj h)).2
      exact ⟨rfl, hc, Or.inr rfl, by simp, by simp⟩
  | registerEntity id' => exact other id' (if_pos rfl)
  | entityImmigrated id' src => exact other id' (if_pos rfl)
  | entityEmigrated id' newNode => exact other id' (if_pos rfl)
  | unregisterEntity id' => exact other id' (if_pos rfl)
  | getLocation id' action => exact other id' (if_pos rfl)
  | entityExists id' action => exact other id' (if_pos rfl)

end Coordinator

/-! ### Steps and runs -/

namespace System

/-- Every rank runs its own coordinator. -/
def Placed (s : System EntityID) : Prop :=
  ∀ r, (s.coord r).thisNode = r ∧ (s.coord r).WellPlaced

/-- The outcome of an activation. -/
theorem activate_eq_some {s s' : System EntityID} {r : NodeType} {p : CoordM EntityID Unit}
    (h : s.activate r p = some s') :
    ∃ k, p ⟨s.coord r, [], []⟩ = some ((), k) ∧ s' = {
      coord := Function.update s.coord r k.coord
      net := s.net ++ posted r k.outbox
      answers := s.answers ++ k.answers } := by
  obtain ⟨⟨⟨⟩, k⟩, hk, h⟩ := Option.bind_eq_some_iff.mp h
  exact ⟨k, hk, (Option.some.inj h).symm⟩

variable {id : EntityID} {s : System EntityID} {r : NodeType} {k : Activation EntityID}

theorem Placed.update (h : s.Placed) (hnode : k.coord.thisNode = (s.coord r).thisNode)
    (hplaced : k.coord.WellPlaced) (net : List (Packet NodeType (ControlMsg EntityID)))
    (answers : List (Invocation EntityID)) :
    Placed ⟨Function.update s.coord r k.coord, net, answers⟩ := by
  intro r'
  by_cases hr : r' = r
  · subst hr
    simpa using ⟨hnode.trans (h r').1, hplaced⟩
  · simpa [hr] using h r'

theorem view_of_does {e : Entity.Effect NodeType} (h : Does id (s.coord r) k e) :
    view id {
      coord := Function.update s.coord r k.coord
      net := s.net ++ posted r k.outbox
      answers := s.answers ++ k.answers } = (view id s).post r e := by
  have hout : (k.outbox.filterMap fun m => (m.2.about id).map fun b => (m.1, b)) = e.outbox := by
    simp [h.outbox, List.filterMap_map, ControlMsg.about]
  have hans : answersAbout id k.answers = e.answers := by
    simp [answersAbout, h.answers, List.filterMap_map]
  rw [view, Entity.View.post, Channel.restrict_append, Channel.restrict_posted, hout, ← hans]
  refine Entity.View.mk.injEq .. ▸ ⟨?_, rfl, List.filterMap_append⟩
  funext r'
  by_cases hr : r' = r
  · subst hr
    simp [h.site]
  · simp [view, hr]

theorem view_of_spares (h : Spares id (s.coord r) k) :
    let s' : System EntityID := {
      coord := Function.update s.coord r k.coord
      net := s.net ++ posted r k.outbox
      answers := s.answers ++ k.answers }
    view id s' = view id s ∨ view id s' = (view id s).forget r := by
  have hout : (k.outbox.filterMap fun m => (m.2.about id).map fun b => (m.1, b)) = [] := by
    rw [List.filterMap_eq_nil_iff]
    intro m hm
    simp [ControlMsg.about, h.outbox m hm]
  have hans : answersAbout id k.answers = [] := by
    rw [answersAbout, List.filterMap_eq_nil_iff]
    intro i hi
    simp [h.answers i hi]
  have hnet : Channel.restrict (ControlMsg.about id) (s.net ++ posted r k.outbox) =
      Channel.restrict (ControlMsg.about id) s.net := by
    rw [Channel.restrict_append, Channel.restrict_posted, hout]
    simp
  have hanswers : answersAbout id (s.answers ++ k.answers) = answersAbout id s.answers := by
    rw [answersAbout, List.filterMap_append]
    exact (congrArg _ hans).trans (List.append_nil _)
  rcases h.site with hsite | hsite
  · left
    rw [view, hnet, hanswers]
    refine Entity.View.mk.injEq .. ▸ ⟨?_, rfl, rfl⟩
    funext r'
    by_cases hr : r' = r
    · subst hr
      simp [hsite]
    · simp [hr]
  · right
    rw [view, hnet, hanswers]
    refine Entity.View.mk.injEq .. ▸ ⟨?_, rfl, rfl⟩
    funext r'
    by_cases hr : r' = r
    · subst hr
      simp [view, hsite]
    · simp [view, hr]

theorem view_erase_about {p : Packet NodeType (ControlMsg EntityID)} (hp : p.body.id = id) :
    view id { s with net := s.net.erase p } = (view id s).take ⟨p.src, p.dst, p.body.msg⟩ := by
  rw [view, Entity.View.take, Channel.restrict_erase (b := p.body.msg)]
  · rfl
  · rintro ⟨i, m⟩ ⟨i', m'⟩ b h h'
    obtain ⟨rfl, hm⟩ := Option.ite_none_right_eq_some.mp h
    obtain ⟨rfl, hm'⟩ := Option.ite_none_right_eq_some.mp h'
    simp_all
  · exact if_pos hp

theorem view_erase_other {p : Packet NodeType (ControlMsg EntityID)} (hp : p.body.id ≠ id) :
    view id { s with net := s.net.erase p } = view id s := by
  rw [view, Channel.restrict_erase_of_none (if_neg hp)]
  rfl

theorem view_net_of_drained (h : s.Drained) : (view id s).net = [] := by
  rw [view, show s.net = [] from h]
  rfl

theorem mem_view_net {p : Packet NodeType (Msg NodeType)} : p ∈ (view id s).net ↔
    (⟨p.src, p.dst, ⟨id, p.body⟩⟩ : Packet _ (ControlMsg EntityID)) ∈ s.net := by
  rw [view, Channel.mem_restrict]
  constructor
  · intro h
    obtain ⟨⟨i, m⟩, hm, hb⟩ := h
    obtain ⟨hid, hmsg⟩ := Option.ite_none_right_eq_some.mp hb
    obtain rfl : i = id := hid
    obtain rfl : m = p.body := Option.some.inj hmsg
    exact hm
  · exact fun hm => ⟨_, hm, if_pos rfl⟩

end System

namespace Config

variable {cfg : Config EntityID} {s s' : System EntityID} {l : Label EntityID}

/-- What a public operation about `id` does. -/
theorem step_call {r : NodeType} {op : Op EntityID} {id : EntityID} {call : Entity.Call NodeType}
    (hs : s.Placed) (habout : op.about id = some call) (h : cfg.step s (.call r op) = some s') :
    ∃ k, Does id (s.coord r) k
        (Entity.onCall (cfg.home id) noNode r call ((s.coord r).site id)) ∧
      s' = {
        coord := Function.update s.coord r k.coord
        net := s.net ++ posted r k.outbox
        answers := s.answers ++ k.answers } := by
  rw [step] at h
  split at h
  · obtain ⟨k, hk, rfl⟩ := System.activate_eq_some h
    have hdoes := Coordinator.run_does habout (hs r).2 hk
    rw [(hs r).1] at hdoes
    exact ⟨k, hdoes, rfl⟩
  · exact absurd h (by simp)

/-- What the delivery of a message does. -/
theorem step_deliver {p : Packet NodeType (ControlMsg EntityID)} (hs : s.Placed)
    (h : cfg.step s (.deliver p) = some s') :
    p ∈ s.net ∧ ∃ k, Does p.body.id (s.coord p.dst) k
        (Entity.onMsg noNode p.dst p.body.msg ((s.coord p.dst).site p.body.id)) ∧
      s' = {
        coord := Function.update s.coord p.dst k.coord
        net := s.net.erase p ++ posted p.dst k.outbox
        answers := s.answers ++ k.answers } := by
  rw [step] at h
  split at h
  · next hp =>
    obtain ⟨k, hk, rfl⟩ := System.activate_eq_some h
    have hdoes := Coordinator.handle_does (hs p.dst).2 hk
    rw [(hs p.dst).1] at hdoes
    exact ⟨hp, k, hdoes, rfl⟩
  · exact absurd h (by simp)

/-- **One step of the system, seen through one entity**, is a step of its
protocol when the label is about it, and otherwise at most an eviction. -/
theorem step_view (hs : s.Placed) (h : cfg.step s l = some s') (id : EntityID) :
    s'.Placed ∧
      match l.about id with
      | some a => Entity.Step (cfg.home id) noNode (s.view id) a (s'.view id)
      | none => s'.view id = s.view id ∨ ∃ r, s'.view id = (s.view id).forget r := by
  cases l with
  | call r op =>
      cases hop : op.about id with
      | some call =>
          obtain ⟨k, hdoes, rfl⟩ := step_call hs hop h
          refine ⟨hs.update hdoes.thisNode hdoes.placed _ _, ?_⟩
          rw [System.view_of_does hdoes]
          simp only [Label.about, hop, Option.map_some]
          exact .call r call
      | none =>
          rw [step] at h
          split at h
          · obtain ⟨k, hk, rfl⟩ := System.activate_eq_some h
            have hspares := Coordinator.run_spares hop (hs r).2 hk
            refine ⟨hs.update hspares.thisNode hspares.placed _ _, ?_⟩
            simp only [Label.about, hop, Option.map_none]
            exact (System.view_of_spares hspares).imp_right fun h => ⟨r, h⟩
          · exact absurd h (by simp)
  | deliver p =>
      obtain ⟨hp, k, hdoes, rfl⟩ := step_deliver hs h
      refine ⟨hs.update hdoes.thisNode hdoes.placed _ _, ?_⟩
      by_cases hid : p.body.id = id
      · subst hid
        have habout : (Label.deliver p).about p.body.id =
            some (.deliver ⟨p.src, p.dst, p.body.msg⟩) := by
          simp [Label.about, Packet.restrict, ControlMsg.about]
        have hview := System.view_of_does (s := { s with net := s.net.erase p }) hdoes
        rw [habout, hview, System.view_erase_about rfl]
        exact .deliver _ (System.mem_view_net.mpr hp)
      · have habout : (Label.deliver p).about id = none := by
          simp [Label.about, Packet.restrict, ControlMsg.about, hid]
        have hview := System.view_of_spares (s := { s with net := s.net.erase p })
          (hdoes.spares (Ne.symm hid))
        rw [System.view_erase_other hid] at hview
        rw [habout]
        exact hview.imp_right fun h => ⟨p.dst, h⟩

/-- What losing a cached record keeps, a step about another entity keeps. -/
theorem step_elsewhere (hs : s.Placed) (h : cfg.step s l = some s') {id : EntityID}
    (habout : l.about id = none) {Q : Entity.View NodeType → Prop}
    (hforget : ∀ v r, Q v → Q (v.forget r)) (hQ : Q (s.view id)) : Q (s'.view id) := by
  have hview := (step_view hs h id).2
  rw [habout] at hview
  rcases hview with hsame | ⟨r, hlost⟩
  · rw [hsame]
    exact hQ
  · rw [hlost]
    exact hforget _ r hQ

/-- Every step keeps every coordinator in its place. -/
theorem step_placed (hs : s.Placed) (h : cfg.step s l = some s') : s'.Placed := by
  cases l with
  | deliver p => exact (step_view hs h p.body.id).1
  | call r op =>
      cases op with
      | clearCache =>
          obtain ⟨k, hk, rfl⟩ := System.activate_eq_some (Option.ite_none_right_eq_some.mp h).2
          obtain rfl := (Prod.mk.inj (Option.some.inj hk)).2
          exact hs.update rfl (hs r).2 _ _
      | registerEntity id => exact (step_view hs h id).1
      | entityImmigrated id src => exact (step_view hs h id).1
      | entityEmigrated id newNode => exact (step_view hs h id).1
      | unregisterEntity id => exact (step_view hs h id).1
      | getLocation id action => exact (step_view hs h id).1
      | entityExists id action => exact (step_view hs h id).1
      | isCached id => exact (step_view hs h id).1

theorem init_placed : cfg.init.Placed := fun _ => ⟨rfl, rfl⟩

@[simp] theorem init_view (id : EntityID) : cfg.init.view id = Entity.View.init := rfl

/-- Runs keep every coordinator in its place. -/
theorem placed_of_run {ok : Runs.Guard (System EntityID) (Label EntityID)}
    {past₀ past : List (Label EntityID)} {s₀ s : System EntityID}
    (h : cfg.machine.Run ok past₀ s₀ past s) (h₀ : s₀.Placed) : s.Placed :=
  h.invariant (I := fun _ s => s.Placed) h₀ (fun _ _ _ _ hs _ hstep => step_placed hs hstep)
    (fun _ _ _ _ hsilent => hsilent.elim)

/-- **Refinement.** A run of the system is, for every entity, a run of its
protocol over that entity's history, under any guard the system's guard implies. -/
theorem run_view {ok : Runs.Guard (System EntityID) (Label EntityID)}
    {okE : Runs.Guard (Entity.View NodeType) (Entity.Act NodeType)} {id : EntityID}
    {past₀ past : List (Label EntityID)} {s₀ s : System EntityID}
    (h : cfg.machine.Run ok past₀ s₀ past s) (h₀ : s₀.Placed)
    (hok : ∀ past s l a, ok past s l → l.about id = some a → okE (about id past) (s.view id) a) :
    (Entity.machine (cfg.home id) noNode).Run okE (about id past₀) (s₀.view id)
      (about id past) (s.view id) := by
  refine (h.simulates (I := fun _ s => s.Placed) h₀ (fun past s l s' hs hl hstep => ?_)
    (fun _ _ _ _ hsilent => hsilent.elim)).1
  obtain ⟨hs', hview⟩ := step_view hs hstep id
  refine ⟨hs', ?_⟩
  cases habout : l.about id with
  | some a =>
      rw [habout] at hview
      exact ⟨hok past s l a hl habout, hview⟩
  | none =>
      rw [habout] at hview
      exact hview

end Config

/-! ### Guards, seen through one entity -/

theorem Fifo.view {s : System EntityID} {l : Label EntityID} (h : Fifo s l) {id : EntityID}
    {a : Entity.Act NodeType} (ha : l.about id = some a) : Entity.Fifo (s.view id) a := by
  cases l with
  | call r op =>
      obtain ⟨c, -, rfl⟩ := Option.map_eq_some_iff.mp ha
      trivial
  | deliver p =>
      obtain ⟨q, hq, rfl⟩ := Option.map_eq_some_iff.mp ha
      obtain ⟨hsrc, hdst, hb⟩ := Channel.Packet.restrict_eq_some.mp hq
      have hold := Oldest.restrict (g := ControlMsg.about id) (p := p) (b := q.body) h hb
      rw [hsrc, hdst] at hold
      exact hold

/-- An event of an entity is about it. -/
theorem Label.entity_of_about {l : Label EntityID} {id : EntityID} {a : Entity.Act NodeType}
    (h : l.about id = some a) : id ∈ l.entity := by
  cases l with
  | call r op =>
      obtain ⟨c, hc, -⟩ := Option.map_eq_some_iff.mp h
      cases op <;> simp_all [Op.about, Label.entity]
  | deliver p =>
      obtain ⟨q, hq, -⟩ := Option.map_eq_some_iff.mp h
      obtain ⟨-, -, hb⟩ := Channel.Packet.restrict_eq_some.mp hq
      obtain ⟨rfl, -⟩ := Option.ite_none_right_eq_some.mp hb
      rfl

/-! ### Histories, seen through one entity -/

/-- The public operation a call stands for. -/
def Entity.Call.op (id : EntityID) : Entity.Call NodeType → Op EntityID
  | .registerEntity => .registerEntity id
  | .entityImmigrated src => .entityImmigrated id src
  | .entityEmigrated newNode => .entityEmigrated id newNode
  | .unregisterEntity => .unregisterEntity id
  | .getLocation action => .getLocation id action
  | .entityExists action => .entityExists id action

theorem Coordinator.Op.about_eq_some {id : EntityID} {op : Op EntityID}
    {c : Entity.Call NodeType} : op.about id = some c ↔ op = c.op id := by
  constructor
  · intro h
    cases op <;> simp only [Op.about, Option.ite_none_right_eq_some, reduceCtorEq] at h <;>
      (obtain ⟨rfl, hc⟩ := h; rw [← Option.some.inj hc]; rfl)
  · intro heq
    subst heq
    cases c <;> simp [Op.about, Entity.Call.op]

theorem Label.about_eq_call {id : EntityID} {l : Label EntityID} {r : NodeType}
    {c : Entity.Call NodeType} : l.about id = some (.call r c) ↔ l = .call r (c.op id) := by
  cases l with
  | call r' op =>
      simp only [Label.about, Option.map_eq_some_iff, Op.about_eq_some, Entity.Act.call.injEq,
        Label.call.injEq]
      constructor
      · intro h
        obtain ⟨c', rfl, rfl, rfl⟩ := h
        exact ⟨rfl, rfl⟩
      · intro h
        obtain ⟨rfl, rfl⟩ := h
        exact ⟨c, rfl, rfl, rfl⟩
  | deliver p => simp [Label.about]

theorem Label.about_eq_deliver {id : EntityID} {l : Label EntityID}
    {p : Packet NodeType (Msg NodeType)} :
    l.about id = some (.deliver p) ↔ l = .deliver ⟨p.src, p.dst, ⟨id, p.body⟩⟩ := by
  cases l with
  | call r op => simp [Label.about]
  | deliver q =>
      obtain ⟨src, dst, i, m⟩ := q
      obtain ⟨src', dst', m'⟩ := p
      simp only [Label.about, Option.map_eq_some_iff, Packet.restrict_eq_some,
        ControlMsg.about, Entity.Act.deliver.injEq, Label.deliver.injEq, Packet.mk.injEq,
        ControlMsg.mk.injEq]
      constructor
      · intro h
        obtain ⟨q, ⟨hsrc, hdst, hm⟩, rfl⟩ := h
        obtain ⟨hid, hm⟩ := Option.ite_none_right_eq_some.mp hm
        exact ⟨hsrc, hdst, hid, Option.some.inj hm⟩
      · intro h
        obtain ⟨rfl, rfl, rfl, rfl⟩ := h
        exact ⟨_, ⟨rfl, rfl, if_pos rfl⟩, rfl⟩

theorem mem_about_call {id : EntityID} {past : List (Label EntityID)} {r : NodeType}
    {c : Entity.Call NodeType} : .call r c ∈ about id past ↔ .call r (c.op id) ∈ past := by
  simp [about, Label.about_eq_call]

theorem mem_about_deliver {id : EntityID} {past : List (Label EntityID)}
    {p : Packet NodeType (Msg NodeType)} :
    .deliver p ∈ about id past ↔ .deliver ⟨p.src, p.dst, ⟨id, p.body⟩⟩ ∈ past := by
  simp [about, Label.about_eq_deliver]

theorem about_cons_call (id : EntityID) (past : List (Label EntityID)) (r : NodeType)
    (c : Entity.Call NodeType) :
    about id (.call r (c.op id) :: past) = .call r c :: about id past :=
  List.filterMap_cons_some (Label.about_eq_call.mpr rfl)

theorem mem_answersAbout {id : EntityID} {x : Answer NodeType} {log : List (Invocation EntityID)} :
    x ∈ answersAbout id log ↔ ⟨id, x⟩ ∈ log := by
  rw [answersAbout, List.mem_filterMap]
  constructor
  · intro h
    obtain ⟨⟨id', y⟩, hy, h⟩ := h
    obtain ⟨rfl, rfl⟩ : id' = id ∧ y = x := by simpa using h
    exact hy
  · intro h
    exact ⟨_, h, if_pos rfl⟩

/-- A call about an entity is a step of its protocol. -/
theorem Config.step_call_view {cfg : Config EntityID} {s s' : System EntityID} {id : EntityID}
    {r : NodeType} {c : Entity.Call NodeType} (hs : s.Placed)
    (h : cfg.step s (.call r (c.op id)) = some s') : s'.Placed ∧
      Entity.Step (cfg.home id) noNode (s.view id) (.call r c) (s'.view id) := by
  have hview := step_view hs h id
  rw [Label.about_eq_call.mpr rfl] at hview
  exact hview

section Each

variable {cfg : Config EntityID}
  {rule : EntityID → Runs.Guard (Entity.View NodeType) (Entity.Act NodeType)}
  {past : List (Label EntityID)} {s : System EntityID}

theorem Each.view {l : Label EntityID} (h : Each rule past s l) {id : EntityID}
    {a : Entity.Act NodeType} (ha : l.about id = some a) : rule id (about id past) (s.view id) a :=
  h id (Label.entity_of_about ha) a ha

/-- A stretch of a run in which every entity obeys its rule, seen through one of them. -/
theorem Config.run_each_from {past₀ : List (Label EntityID)} {s₀ : System EntityID}
    (h : cfg.machine.Run (Each rule) past₀ s₀ past s) (h₀ : s₀.Placed) (id : EntityID) :
    (Entity.machine (cfg.home id) noNode).Run (rule id)
      (about id past₀) (s₀.view id) (about id past) (s.view id) :=
  cfg.run_view h h₀ fun _ _ _ _ hl ha => hl.view ha

/-- The same for a whole run, under a guard that implies the rules. -/
theorem Config.run_each {ok : Runs.Guard (System EntityID) (Label EntityID)}
    (h : cfg.Run ok past s) (hok : ∀ past s l, ok past s l → Each rule past s l) (id : EntityID) :
    (Entity.machine (cfg.home id) noNode).Run (rule id) [] .init (about id past) (s.view id) :=
  run_each_from (h.mono hok) init_placed id

/-- The same under FIFO delivery. -/
theorem Config.run_fifo_each
    (h : cfg.Run (fun past s l => Fifo s l ∧ Each rule past s l) past s) (id : EntityID) :
    (Entity.machine (cfg.home id) noNode).Run (fun past v a => Entity.Fifo v a ∧ rule id past v a)
      [] .init (about id past) (s.view id) :=
  cfg.run_view h init_placed fun _ _ _ _ hl ha => ⟨hl.1.view ha, hl.2.view ha⟩

/-- A run under any guard, seen through one entity. -/
theorem Config.run_any {ok : Runs.Guard (System EntityID) (Label EntityID)}
    (h : cfg.Run ok past s) (id : EntityID) :
    (Entity.machine (cfg.home id) noNode).Run (fun _ _ _ => True) [] .init
      (about id past) (s.view id) :=
  cfg.run_view h init_placed fun _ _ _ _ _ _ => trivial

/-- **Exact conditions.** If a property of the system is one of the view of `id`, and a
step of that view keeps it exactly when it obeys `rule`, then the property holds in
every run that obeys `rule`, and those are the runs in which it holds after every
step. -/
theorem Config.exactly {ok : Runs.Guard (System EntityID) (Label EntityID)} {id : EntityID}
    {P : System EntityID → Prop} {Q : Entity.View NodeType → Prop}
    {ruleE : Runs.Guard (Entity.View NodeType) (Entity.Act NodeType)}
    (hPQ : ∀ s : System EntityID, s.Placed → (P s ↔ Q (s.view id))) (hinit : Q .init)
    (hforget : ∀ v r, Q v → Q (v.forget r))
    (hstep : ∀ past s l a v', cfg.Run ok past s → ok past s l → l.about id = some a →
      Q (s.view id) → Entity.Step (cfg.home id) noNode (s.view id) a v' →
      (Q v' ↔ ruleE (about id past) (s.view id) a)) :
    (cfg.Run (fun past s l => ok past s l ∧ ForEntity id ruleE past s l) past s → P s) ∧
    (cfg.Run (fun past s l => ok past s l ∧ ForEntity id ruleE past s l) past s ↔
      cfg.Run (fun past s l => ok past s l ∧ ∀ s', cfg.step s l = some s' → P s') past s) := by
  have hP₀ : P cfg.init := (hPQ _ init_placed).mpr hinit
  have hiff : ∀ past s l s', cfg.Run ok past s → P s → ok past s l → cfg.step s l = some s' →
      (P s' ↔ ForEntity id ruleE past s l) := by
    intro past s l s' hrun hP hl hs'
    have hs := cfg.placed_of_run hrun init_placed
    obtain ⟨hplaced, hview⟩ := step_view hs hs' id
    rw [hPQ s hs] at hP
    rw [hPQ s' hplaced]
    cases habout : l.about id with
    | some a =>
        rw [habout] at hview
        rw [hstep past s l a _ hrun hl habout hP hview]
        simp [ForEntity, habout]
    | none =>
        -- What is about another entity can only evict a record of this one.
        exact iff_of_true (step_elsewhere hs hs' habout hforget hP) (by simp [ForEntity, habout])
  have hexact : cfg.Run (fun past s l => ok past s l ∧ ForEntity id ruleE past s l) past s ↔
      cfg.Run (fun past s l => ok past s l ∧ ∀ s', cfg.step s l = some s' → P s') past s :=
    Runs.Machine.Run.guard_iff hP₀ (fun _ _ _ hsilent => hsilent.elim) hiff
  refine ⟨fun hrun => ?_, hexact⟩
  refine (hexact.mp hrun).invariant (I := fun _ s => P s) hP₀ ?_ ?_
  · intro past s l s' _ hl hs'
    exact hl.2 s' hs'
  · intro past s s' _ hsilent
    exact hsilent.elim

end Each

end Loc
