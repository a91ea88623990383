import Mathlib.Data.Int.Init

/-!
# Loc.Record

Ranks and location records (`common.h`, `record/state.h`, `record/record.h`).
-/

namespace Loc

/-- A rank in the communicator (`int` in the source). -/
abbrev NodeType := Int

/-- Sentinel for an unset node. -/
def noNode : NodeType := -1

/-- Default maximum number of cached location records per coordinator. -/
def defaultMaxCacheSize : Nat := 4096

/-- Whether a location record refers to a local or a remote entity. -/
inductive LocState
  | local
  | remote
  | invalid
  deriving DecidableEq, Repr

/-- The last known node of an entity, classified against the rank that holds the
record. -/
structure LocRecord (EntityID : Type) where
  id : EntityID
  state : LocState
  curNode : NodeType
  deriving DecidableEq, Repr

namespace LocRecord

variable {EntityID : Type}

def getEntityID (rec : LocRecord EntityID) : EntityID := rec.id

/-- Point the record at `newNode`, classifying it relative to `thisNode`. -/
def updateNode (rec : LocRecord EntityID) (newNode thisNode : NodeType) : LocRecord EntityID :=
  { rec with
    state := if newNode = thisNode then .local else .remote
    curNode := newNode }

def isLocal (rec : LocRecord EntityID) : Bool := rec.state = .local

def isRemote (rec : LocRecord EntityID) : Bool := rec.state = .remote

def getRemoteNode (rec : LocRecord EntityID) : NodeType := rec.curNode

@[simp] theorem updateNode_id (rec : LocRecord EntityID) (n m : NodeType) :
    (rec.updateNode n m).id = rec.id := rfl

@[simp] theorem getRemoteNode_updateNode (rec : LocRecord EntityID) (n m : NodeType) :
    (rec.updateNode n m).getRemoteNode = n := rfl

/-- An updated record is never `invalid`: it is local exactly when it points at
the rank that holds it. -/
theorem isLocal_updateNode (rec : LocRecord EntityID) (n m : NodeType) :
    (rec.updateNode n m).isLocal = true ↔ n = m := by
  by_cases h : n = m <;> simp [isLocal, updateNode, h]

end LocRecord

end Loc
