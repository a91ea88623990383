import Loc.Refinement

/-!
# Loc.Access

**How the resolver uses its records.** An activation makes at most one access to
`recs_`, of the entity it is about, and which one can be told before it runs
(`Coordinator.opAccess`, `Coordinator.msgAccess`). It returns if that access does.

So a query returns whatever the state of the records, and so does a request: they read
only what is there.
-/

namespace Loc

open Coordinator

variable {EntityID : Type} [DecidableEq EntityID]

/-- What an activation does to the records of its rank. -/
inductive Access (EntityID : Type)
  | idle
  | read (id : EntityID)
  | update (id : EntityID) (node : NodeType)
  | insert (id : EntityID) (node : NodeType)
  | remove (id : EntityID)
  | clear
  deriving DecidableEq, Repr

/-- The entity whose records are accessed. -/
def Access.entity : Access EntityID → Option EntityID
  | .idle | .clear => none
  | .read id | .update id _ | .insert id _ | .remove id => some id

namespace Coordinator

/-- The records after an access. -/
def access (c : Coordinator EntityID) :
    Access EntityID → Option (LocLookup EntityID (LocRecord EntityID))
  | .idle => some c.recs
  | .read id => (c.recs.get id).map Prod.snd
  | .update id node => c.recs.update id (c.makeRec id node)
  | .insert id node => c.recs.insert id c.thisNode (c.makeRec id node)
  | .remove id => c.recs.remove id
  | .clear => some c.recs.clearCache

/-- A record is read only if it exists. -/
def reading (c : Coordinator EntityID) (id : EntityID) : Access EntityID :=
  if c.recs.exists id then .read id else .idle

/-- The access a public operation makes. -/
def opAccess (c : Coordinator EntityID) (home : EntityID → NodeType) : Op EntityID → Access EntityID
  | .registerEntity id | .entityImmigrated id _ =>
      if home id = c.thisNode then .insert id c.thisNode else .idle
  | .entityEmigrated id newNode => .update id newNode
  | .unregisterEntity id => .remove id
  | .getLocation id _ | .entityExists id _ =>
      if id ∈ c.localRegistered then .idle else c.reading id
  | .isCached _ => .idle
  | .clearCache => .clear

/-- The access a handler makes. -/
def msgAccess (c : Coordinator EntityID) : ControlMsg EntityID → Access EntityID
  | ⟨id, .updateHome node⟩ => .insert id node
  | ⟨id, .locationRequest _⟩ | ⟨id, .existsRequest _⟩ => c.reading id
  | ⟨id, .resolveResponse node⟩ | ⟨id, .existsResponse true node⟩ => .update id node
  | ⟨_, .existsResponse false _⟩ => .idle

/-! ### One access per activation -/

/-- The code makes the access `a` and no other. -/
def Uses (a : Access EntityID) (p : CoordM EntityID Unit) (k : Activation EntityID) : Prop :=
  (p k).map (fun x => (x.2.coord.thisNode, x.2.coord.recs)) =
    (k.coord.access a).map fun recs => (k.coord.thisNode, recs)

section Uses

variable (k : Activation EntityID) (id : EntityID)

theorem uses_announceLocation (node : NodeType) :
    Uses (.insert id node) (announceLocation queueing id node) k := by
  rw [Uses, announceLocation_run, access]
  cases k.coord.recs.insert id k.coord.thisNode (k.coord.makeRec id node) <;> rfl

theorem uses_registerEntity (home : NodeType) :
    Uses (if home = k.coord.thisNode then .insert id k.coord.thisNode else .idle)
      (registerEntity queueing id home) k := by
  simp only [registerEntity, Uses, bind_run, modifyCoord_run, getCoord_run, ite_run, send_run,
    Option.bind_some]
  split
  · exact uses_announceLocation ⟨{ k.coord with
      localRegistered := insert id k.coord.localRegistered }, k.outbox, k.answers⟩ id _
  · rfl

theorem uses_entityEmigrated (newNode : NodeType) :
    Uses (.update id newNode) (entityEmigrated id newNode) k := by
  simp only [entityEmigrated, Uses, bind_run, modifyCoord_run, recsUpdate_run, Option.bind_some,
    access]
  change Option.map _ (Option.bind (k.coord.recs.update id (k.coord.makeRec id newNode)) _) = _
  cases k.coord.recs.update id (k.coord.makeRec id newNode) <;> rfl

theorem uses_unregisterEntity : Uses (.remove id) (unregisterEntity id) k := by
  simp only [unregisterEntity, Uses, bind_run, modifyCoord_run, recsRemove_run, Option.bind_some,
    access]
  cases k.coord.recs.remove id <;> rfl

/-- Reading a record and then touching no record again. -/
theorem uses_get {q : LocRecord EntityID → CoordM EntityID Unit}
    (hq : ∀ record k, ∃ k', q record k = some ((), k') ∧ k'.coord = k.coord) :
    Uses (.read id) (recsGet id >>= q) k := by
  simp only [Uses, bind_run, recsGet_run, access]
  cases k.coord.recs.get id with
  | none => rfl
  | some x =>
      obtain ⟨k', hrun, hcoord⟩ := hq x.1 { k with coord := { k.coord with recs := x.2 } }
      simp only [Option.bind_some, hrun, Option.map_some, hcoord]

theorem uses_getLocation (home : NodeType) (action : NodeAction) :
    Uses (if id ∈ k.coord.localRegistered then .idle else k.coord.reading id)
      (getLocation queueing id home action) k := by
  unfold getLocation reading
  rw [Uses, bind_run, getCoord_run, Option.bind_some, ite_run, ite_run]
  split
  · rfl
  · split
    · exact uses_get k id fun record k => ⟨_, rfl, rfl⟩
    · simp only [bind_run, modifyCoord_run, Option.bind_some, ite_run]
      split <;> rfl

theorem uses_entityExists (home : NodeType) (action : ExistsAction) :
    Uses (if id ∈ k.coord.localRegistered then .idle else k.coord.reading id)
      (entityExists queueing id home action) k := by
  unfold entityExists reading
  rw [Uses, bind_run, getCoord_run, Option.bind_some, ite_run, ite_run]
  split
  · rfl
  · split
    · exact uses_get k id fun record k => ⟨_, rfl, rfl⟩
    · rw [ite_run]
      split
      · rfl
      · simp only [bind_run, modifyCoord_run, Option.bind_some, ite_run]
        split <;> rfl

theorem uses_locationRequest (requester : NodeType) :
    Uses (k.coord.reading id) (locationRequest queueing id requester) k := by
  unfold locationRequest reading
  rw [Uses, bind_run, getCoord_run, Option.bind_some, ite_run]
  split
  · rw [bind_run, modifyCoord_run, Option.bind_some]
    -- The requester is remembered first, which no record notices.
    exact uses_get { k with coord := { k.coord with
      locAsks := Function.update k.coord.locAsks id ((k.coord.locAsks id).insert requester) } } id
      fun record k => ⟨_, rfl, rfl⟩
  · rw [ite_run]
    split <;> rfl

theorem uses_resolveResponse (node : NodeType) :
    Uses (.update id node) (resolveResponse id node) k := by
  simp only [resolveResponse, Uses, bind_run, recsUpdate_run, access]
  cases k.coord.recs.update id (k.coord.makeRec id node) with
  | none => rfl
  | some recs => simp only [Option.bind_some, flushPending_run, Option.map_some]

theorem uses_existsRequest (requester : NodeType) :
    Uses (k.coord.reading id) (existsRequest queueing id requester) k := by
  unfold existsRequest reading
  rw [Uses, bind_run, getCoord_run, Option.bind_some, ite_run]
  split
  · exact uses_get k id fun record k => ⟨_, rfl, rfl⟩
  · rw [ite_run]
    split <;> rfl

theorem uses_existsResponse (ex : Bool) (node : NodeType) :
    Uses (if ex then .update id node else .idle) (existsResponse id ex node) k := by
  cases ex with
  | false =>
      rw [Uses, existsResponse]
      simp [forM_invokeExistsAction, access]
  | true =>
      simp only [existsResponse, Uses, List.forM_eq_forM, if_true, bind_run, recsUpdate_run,
        getCoord_run, modifyCoord_run, forM_invokeExistsAction, Option.bind_some, access]
      cases k.coord.recs.update id (k.coord.makeRec id node) <;> rfl

/-- **A public operation makes the access that was foretold.** -/
theorem uses_run (op : Op EntityID) (home : EntityID → NodeType) :
    Uses (k.coord.opAccess home op) (op.run queueing home) k := by
  cases op with
  | registerEntity id => exact uses_registerEntity k id (home id)
  | entityImmigrated id src => exact uses_registerEntity k id (home id)
  | entityEmigrated id newNode => exact uses_entityEmigrated k id newNode
  | unregisterEntity id => exact uses_unregisterEntity k id
  | getLocation id action => exact uses_getLocation k id (home id) action
  | entityExists id action => exact uses_entityExists k id (home id) action
  | isCached id => rfl
  | clearCache => rfl

/-- **So does a handler.** -/
theorem uses_handle (m : ControlMsg EntityID) :
    Uses (k.coord.msgAccess m) (handle queueing m) k := by
  obtain ⟨id, msg⟩ := m
  cases msg with
  | updateHome n => exact uses_announceLocation k id n
  | locationRequest q => exact uses_locationRequest k id q
  | resolveResponse n => exact uses_resolveResponse k id n
  | existsRequest q => exact uses_existsRequest k id q
  | existsResponse ex n =>
      cases ex with
      | false => exact uses_existsResponse k id false n
      | true => exact uses_existsResponse k id true n

end Uses

/-- The code returns if the access does. -/
theorem Uses.returns {a : Access EntityID} {p : CoordM EntityID Unit} {k : Activation EntityID}
    (h : Uses a p k) (ha : (k.coord.access a).isSome = true) : ∃ k', p k = some ((), k') := by
  rw [Uses] at h
  cases hp : p k with
  | some x => exact ⟨x.2, rfl⟩
  | none =>
      rw [hp, Option.map_none, eq_comm, Option.map_eq_none_iff] at h
      exact absurd ha (by simp [h])

/-! ### Queries return -/

section Returns

variable (k : Activation EntityID) (id : EntityID)

/-- A query reads only a record that is there. -/
theorem access_reading_isSome (c : Coordinator EntityID) :
    (c.access (c.reading id)).isSome = true := by
  rw [reading]
  split
  · next hid =>
      obtain ⟨v, l', hget, -⟩ := LocLookup.get_isSome hid
      simp [access, hget]
  · rfl

theorem access_query_isSome (c : Coordinator EntityID) :
    (c.access (if id ∈ c.localRegistered then .idle else c.reading id)).isSome = true := by
  split
  · rfl
  · exact access_reading_isSome id c

/-- **A query returns**, whatever the coordinator's records and their capacity. -/
theorem getLocation_returns (home : NodeType) (action : NodeAction) :
    ∃ k', getLocation queueing id home action k = some ((), k') :=
  (uses_getLocation k id home action).returns (access_query_isSome id k.coord)

theorem entityExists_returns (home : NodeType) (action : ExistsAction) :
    ∃ k', entityExists queueing id home action k = some ((), k') :=
  (uses_entityExists k id home action).returns (access_query_isSome id k.coord)

/-- **So does a request.** -/
theorem locationRequest_returns (requester : NodeType) :
    ∃ k', locationRequest queueing id requester k = some ((), k') :=
  (uses_locationRequest k id requester).returns (access_reading_isSome id k.coord)

theorem existsRequest_returns (requester : NodeType) :
    ∃ k', existsRequest queueing id requester k = some ((), k') :=
  (uses_existsRequest k id requester).returns (access_reading_isSome id k.coord)

end Returns

end Coordinator

/-- A delivery whose handler returns has a result. -/
theorem Config.step_deliver_returns {cfg : Config EntityID} {s : System EntityID}
    {p : Channel.Packet NodeType (ControlMsg EntityID)}
    (hp : p ∈ s.net) (hret : ∃ k, handle queueing p.body ⟨s.coord p.dst, [], []⟩ = some ((), k)) :
    ∃ s', cfg.step s (.deliver p) = some s' := by
  obtain ⟨k, hk⟩ := hret
  simp only [step, if_pos hp, System.activate, hk]
  exact ⟨_, rfl⟩

end Loc
