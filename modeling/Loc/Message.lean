import Loc.Record

/-!
# Loc.Message

The control messages the coordinators exchange, and the callbacks users leave
with them.

A message is the handler it invokes with that handler's arguments after the
entity id; `Msg` is generic in the type of ranks so that the protocol of a
single entity can be stated over any such type. Callbacks are opaque: a callback
is a name, and invoking it is an `Answer` in a log.
-/

namespace Loc

/-- The name of a `std::function<void(NodeType)>`. -/
abbrev NodeAction := Nat

/-- The name of a `std::function<void(bool, NodeType)>`. -/
abbrev ExistsAction := Nat

/-- The RPC handlers, applied to everything but the entity id. -/
inductive Msg (N : Type)
  /-- [home] Learn/refresh where an entity lives. -/
  | updateHome (node : N)
  /-- [home] A rank asks where an entity lives. -/
  | locationRequest (requester : N)
  /-- [asker] Home answered a location request. -/
  | resolveResponse (node : N)
  /-- [home] A rank asks whether an entity exists. -/
  | existsRequest (requester : N)
  /-- [asker] Home answered an existence request. -/
  | existsResponse («exists» : Bool) (node : N)
  deriving DecidableEq, Repr

/-- A callback invocation: the rank it happened on, the callback, its arguments. -/
inductive Answer (N : Type)
  | located (rank : N) (action : NodeAction) (node : N)
  | existence (rank : N) (action : ExistsAction) («exists» : Bool) (node : N)
  deriving DecidableEq, Repr

/-- The rank the callback was passed to. -/
def Answer.rank {N : Type} : Answer N → N
  | .located rank _ _ => rank
  | .existence rank _ _ _ => rank

/-- A control message as it travels: the handler with all its arguments. -/
structure ControlMsg (EntityID : Type) where
  id : EntityID
  msg : Msg NodeType
  deriving DecidableEq, Repr

/-- A callback invocation together with the entity it was asked about. -/
structure Invocation (EntityID : Type) where
  id : EntityID
  answer : Answer NodeType
  deriving DecidableEq, Repr

end Loc
