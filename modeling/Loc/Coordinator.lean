import Loc.Lookup
import Loc.Message

/-!
# Loc.Coordinator

The distributed location resolver (`coordinator.h`, `coordinator.impl.h`):
its state, its public operations and its RPC handlers.

The code is translated into a state monad over an `Activation`: the coordinator
together with what the running public call or handler has done so far. Undefined
behaviour and failed assertions of the structures below abort the activation.
The communicator is injected as in the source: every function takes the `Comm`
it sends through, and `queueing` is the backend that only enqueues. User
callbacks do not re-enter the coordinator here (`Loc.Reentrancy` is about those that
do); invoking one is logged.

`std::unordered_map`s of queues are functions that send absent keys to the empty
queue: the source never distinguishes an absent key from an empty queue.
-/

namespace Loc

variable {EntityID : Type} [DecidableEq EntityID]

/-- Distributed location resolver for a set of migratable entities. -/
structure Coordinator (EntityID : Type) [DecidableEq EntityID] where
  thisNode : NodeType
  /-- Entities physically registered on this rank. -/
  localRegistered : Finset EntityID
  /-- Home directory + local cache of resolved locations. -/
  recs : LocLookup EntityID (LocRecord EntityID)
  /-- [asker] Location callbacks awaiting a response, keyed by entity. -/
  pending : EntityID → List NodeAction
  /-- [asker] Existence callbacks awaiting a response, keyed by entity. -/
  pendingExists : EntityID → List ExistsAction
  /-- [home] Requesters that asked before the entity was known. -/
  pendingHome : EntityID → List NodeType
  /-- [home] Ranks that have cached a resolution and want eager refreshes. A
  `std::unordered_set`, whose order is arbitrary. -/
  locAsks : EntityID → List NodeType

/-- What one activation of a coordinator has done so far, oldest first. -/
structure Activation (EntityID : Type) [DecidableEq EntityID] where
  coord : Coordinator EntityID
  outbox : List (NodeType × ControlMsg EntityID)
  answers : List (Invocation EntityID)

/-- Code running on a coordinator. -/
abbrev CoordM (EntityID : Type) [DecidableEq EntityID] := StateT (Activation EntityID) Option

/-- The injected communicator. -/
structure Comm (EntityID : Type) [DecidableEq EntityID] where
  send : NodeType → ControlMsg EntityID → CoordM EntityID Unit

/-- The backend that enqueues every message for later delivery. -/
def queueing : Comm EntityID where
  send node m := modify fun k => { k with outbox := k.outbox ++ [(node, m)] }

namespace Coordinator

/-- The constructor. -/
def new (thisNode : NodeType) (maxCacheSize : Nat := defaultMaxCacheSize) :
    Coordinator EntityID where
  thisNode
  localRegistered := ∅
  recs := .new maxCacheSize thisNode
  pending _ := []
  pendingExists _ := []
  pendingHome _ := []
  locAsks _ := []

/-- A record for `id` pointing at `node`, classified vs. this rank. -/
def makeRec (c : Coordinator EntityID) (id : EntityID) (node : NodeType) : LocRecord EntityID :=
  LocRecord.updateNode ⟨id, .invalid, noNode⟩ node c.thisNode

/-! ### Access to the members -/

def getCoord : CoordM EntityID (Coordinator EntityID) := return (← get).coord

def modifyCoord (f : Coordinator EntityID → Coordinator EntityID) : CoordM EntityID Unit :=
  modify fun k => { k with coord := f k.coord }

/-- `recs_.get(id)`. -/
def recsGet (id : EntityID) : CoordM EntityID (LocRecord EntityID) := do
  let c ← getCoord
  let (record, recs) ← c.recs.get id
  modifyCoord fun c => { c with recs }
  return record

/-- `recs_.update(id, makeRec(id, node))`. -/
def recsUpdate (id : EntityID) (node : NodeType) : CoordM EntityID Unit := do
  let c ← getCoord
  let recs ← c.recs.update id (c.makeRec id node)
  modifyCoord fun c => { c with recs }

/-- `recs_.insert(id, this_node_, makeRec(id, node))`. -/
def recsInsert (id : EntityID) (node : NodeType) : CoordM EntityID Unit := do
  let c ← getCoord
  let recs ← c.recs.insert id c.thisNode (c.makeRec id node)
  modifyCoord fun c => { c with recs }

/-- `recs_.remove(id)`. -/
def recsRemove (id : EntityID) : CoordM EntityID Unit := do
  let c ← getCoord
  let recs ← c.recs.remove id
  modifyCoord fun c => { c with recs }

/-- `action(node)`, for a location callback about `id`. -/
def invokeNodeAction (id : EntityID) (action : NodeAction) (node : NodeType) :
    CoordM EntityID Unit :=
  modify fun k =>
    { k with answers := k.answers ++ [⟨id, .located k.coord.thisNode action node⟩] }

/-- `action(exists, node)`, for an existence callback about `id`. -/
def invokeExistsAction (id : EntityID) (action : ExistsAction) (ex : Bool) (node : NodeType) :
    CoordM EntityID Unit :=
  modify fun k =>
    { k with answers := k.answers ++ [⟨id, .existence k.coord.thisNode action ex node⟩] }

/-! ### The source -/

section Source

variable (comm : Comm EntityID)

/-- Invoke and clear all pending node-actions buffered for `id`. -/
def flushPending (id : EntityID) (node : NodeType) : CoordM EntityID Unit := do
  let c ← getCoord
  (c.pending id).forM fun action => invokeNodeAction id action node
  modifyCoord fun c => { c with pending := Function.update c.pending id [] }

/-- [home] The authoritative location of `id` is now `node`. -/
def announceLocation (id : EntityID) (node : NodeType) : CoordM EntityID Unit := do
  recsInsert id node
  -- Eagerly refresh caches of ranks we have already answered.
  let c ← getCoord
  (c.locAsks id).forM fun asker => comm.send asker ⟨id, .resolveResponse node⟩
  -- Answer ranks that asked before the entity was known, and remember them.
  let c ← getCoord
  (c.pendingHome id).forM fun requester => do
    comm.send requester ⟨id, .resolveResponse node⟩
    modifyCoord fun c =>
      { c with locAsks := Function.update c.locAsks id ((c.locAsks id).insert requester) }
  modifyCoord fun c => { c with pendingHome := Function.update c.pendingHome id [] }
  -- Satisfy local waiters on this (home) rank.
  flushPending id node

def registerEntity (id : EntityID) (home : NodeType) : CoordM EntityID Unit := do
  modifyCoord fun c => { c with localRegistered := insert id c.localRegistered }
  let c ← getCoord
  if home = c.thisNode then
    announceLocation comm id c.thisNode
  else
    comm.send home ⟨id, .updateHome c.thisNode⟩

def entityImmigrated (id : EntityID) (home _src : NodeType) : CoordM EntityID Unit :=
  registerEntity comm id home

def entityEmigrated (id : EntityID) (newNode : NodeType) : CoordM EntityID Unit := do
  modifyCoord fun c => { c with localRegistered := c.localRegistered.erase id }
  recsUpdate id newNode

def unregisterEntity (id : EntityID) : CoordM EntityID Unit := do
  modifyCoord fun c => { c with localRegistered := c.localRegistered.erase id }
  recsRemove id

def getLocation (id : EntityID) (home : NodeType) (action : NodeAction) :
    CoordM EntityID Unit := do
  let c ← getCoord
  if id ∈ c.localRegistered then
    invokeNodeAction id action c.thisNode
  else if c.recs.exists id then
    let record ← recsGet id
    invokeNodeAction id action record.getRemoteNode
  else
    let list := c.pending id ++ [action]
    modifyCoord fun c => { c with pending := Function.update c.pending id list }
    -- Only the first waiter issues the request.
    if list.length = 1 ∧ home ≠ c.thisNode then
      comm.send home ⟨id, .locationRequest c.thisNode⟩

def entityExists (id : EntityID) (home : NodeType) (action : ExistsAction) :
    CoordM EntityID Unit := do
  let c ← getCoord
  if id ∈ c.localRegistered then
    invokeExistsAction id action true c.thisNode
  else if c.recs.exists id then
    let record ← recsGet id
    invokeExistsAction id action true record.getRemoteNode
  else if home = c.thisNode then
    -- The home is authoritative: unknown here means it does not exist.
    invokeExistsAction id action false noNode
  else
    let list := c.pendingExists id ++ [action]
    modifyCoord fun c => { c with pendingExists := Function.update c.pendingExists id list }
    if list.length = 1 then
      comm.send home ⟨id, .existsRequest c.thisNode⟩

/-- Whether a resolved location for `id` is held locally (local or cached). -/
def isCached (c : Coordinator EntityID) (id : EntityID) : Bool :=
  id ∈ c.localRegistered || c.recs.exists id

/-- Drop all cached (non-home) resolutions. -/
def clearCache : CoordM EntityID Unit :=
  modifyCoord fun c => { c with recs := c.recs.clearCache }

def updateHome (id : EntityID) (node : NodeType) : CoordM EntityID Unit :=
  announceLocation comm id node

def locationRequest (id : EntityID) (requester : NodeType) : CoordM EntityID Unit := do
  let c ← getCoord
  if c.recs.exists id then
    modifyCoord fun c =>
      { c with locAsks := Function.update c.locAsks id ((c.locAsks id).insert requester) }
    let record ← recsGet id
    comm.send requester ⟨id, .resolveResponse record.getRemoteNode⟩
  else if id ∈ c.localRegistered then
    modifyCoord fun c =>
      { c with locAsks := Function.update c.locAsks id ((c.locAsks id).insert requester) }
    comm.send requester ⟨id, .resolveResponse c.thisNode⟩
  else
    -- Not known yet: buffer until the entity registers / is updated here.
    modifyCoord fun c =>
      { c with pendingHome := Function.update c.pendingHome id (c.pendingHome id ++ [requester]) }

def resolveResponse (id : EntityID) (node : NodeType) : CoordM EntityID Unit := do
  recsUpdate id node
  flushPending id node

def existsRequest (id : EntityID) (requester : NodeType) : CoordM EntityID Unit := do
  let c ← getCoord
  if c.recs.exists id then
    let record ← recsGet id
    comm.send requester ⟨id, .existsResponse true record.getRemoteNode⟩
  else if id ∈ c.localRegistered then
    comm.send requester ⟨id, .existsResponse true c.thisNode⟩
  else
    comm.send requester ⟨id, .existsResponse false noNode⟩

def existsResponse (id : EntityID) (ex : Bool) (node : NodeType) : CoordM EntityID Unit := do
  if ex then
    recsUpdate id node
  let c ← getCoord
  (c.pendingExists id).forM fun action => invokeExistsAction id action ex node
  modifyCoord fun c => { c with pendingExists := Function.update c.pendingExists id [] }

/-- What the communicator runs on receipt of a message. -/
def handle : ControlMsg EntityID → CoordM EntityID Unit
  | ⟨id, .updateHome node⟩ => updateHome comm id node
  | ⟨id, .locationRequest requester⟩ => locationRequest comm id requester
  | ⟨id, .resolveResponse node⟩ => resolveResponse id node
  | ⟨id, .existsRequest requester⟩ => existsRequest comm id requester
  | ⟨id, .existsResponse ex node⟩ => existsResponse id ex node

end Source

/-- The public operations. -/
inductive Op (EntityID : Type)
  | registerEntity (id : EntityID)
  | entityImmigrated (id : EntityID) (src : NodeType)
  | entityEmigrated (id : EntityID) (newNode : NodeType)
  | unregisterEntity (id : EntityID)
  | getLocation (id : EntityID) (action : NodeAction)
  | entityExists (id : EntityID) (action : ExistsAction)
  | isCached (id : EntityID)
  | clearCache
  deriving DecidableEq, Repr

/-- Run a public operation, with the embedder's choice of homes. -/
def Op.run (comm : Comm EntityID) (home : EntityID → NodeType) :
    Op EntityID → CoordM EntityID Unit
  | .registerEntity id => Coordinator.registerEntity comm id (home id)
  | .entityImmigrated id src => Coordinator.entityImmigrated comm id (home id) src
  | .entityEmigrated id newNode => Coordinator.entityEmigrated id newNode
  | .unregisterEntity id => Coordinator.unregisterEntity id
  | .getLocation id action => Coordinator.getLocation comm id (home id) action
  | .entityExists id action => Coordinator.entityExists comm id (home id) action
  | .isCached _ => pure ()
  | .clearCache => Coordinator.clearCache

end Coordinator

end Loc
