import Loc.Refinement
import Loc.Lib.Flush

/-!
# Loc.Reentrancy

Callbacks that **call the coordinator that invokes them**.

A flush walks the queue of an entity and invokes what it finds; the callbacks may
call back while it does, through a backend that only enqueues. What a callback does
is given by the calls made while it runs, in the order they are made. A call that can
answer at once invokes its callback as the last thing it does, so the calls made by
that callback simply come next in the list.

The source walks a `std::vector` inside a `std::unordered_map` and holds iterators
into both: a call that makes either of them move leaves the flush without a result.
How much they take before they move is the `Flush.Room` a flush starts with.
-/

namespace Loc

namespace Reentrant

open Coordinator

variable {EntityID : Type} [DecidableEq EntityID]

/-! ### What callbacks call -/

/-- The calls a location callback makes. -/
inductive LocationCall (EntityID : Type)
  | getLocation (id : EntityID) (home : NodeType) (action : NodeAction)
  | entityEmigrated (id : EntityID) (newNode : NodeType)
  | clearCache
  deriving DecidableEq, Repr

/-- The call an existence callback makes: `entityExists(id, home, action)`. -/
structure ExistsCall (EntityID : Type) where
  id : EntityID
  home : NodeType
  action : ExistsAction
  deriving DecidableEq, Repr

/-- A table of waiting callbacks, with the calls that hand callbacks in. -/
structure Reception (EntityID : Type) [DecidableEq EntityID] (ι : Type) where
  queue : Coordinator EntityID → EntityID → List Nat
  /-- `map.erase(it)`. -/
  erase : EntityID → Coordinator EntityID → Coordinator EntityID
  run : ι → CoordM EntityID Unit
  /-- The callback a call hands in. -/
  asked : ι → Option (EntityID × Nat)
  /-- Whether the callback a call hands in is invoked at once. -/
  atOnce : Coordinator EntityID → ι → Bool
  /-- The callback of this table that was invoked. -/
  answered : Invocation EntityID → Option (EntityID × Nat)
  /-- What the first callback to wait sends, on the given rank. -/
  request : NodeType → ι → List (NodeType × ControlMsg EntityID)

/-- `pending_`. -/
def locations : Reception EntityID (LocationCall EntityID) where
  queue c := c.pending
  erase id c := { c with pending := Function.update c.pending id [] }
  run
    | .getLocation id home action => Coordinator.getLocation queueing id home action
    | .entityEmigrated id newNode => Coordinator.entityEmigrated id newNode
    | .clearCache => Coordinator.clearCache
  asked
    | .getLocation id _ action => some (id, action)
    | _ => none
  atOnce
    | c, .getLocation id _ _ => c.isCached id
    | _, _ => true
  answered
    | ⟨id, .located _ action _⟩ => some (id, action)
    | _ => none
  request
    | rank, .getLocation id home _ =>
        if home = rank then [] else [(home, ⟨id, .locationRequest rank⟩)]
    | _, _ => []

/-- `pending_exists_`. -/
def existences : Reception EntityID (ExistsCall EntityID) where
  queue c := c.pendingExists
  erase id c := { c with pendingExists := Function.update c.pendingExists id [] }
  run call := Coordinator.entityExists queueing call.id call.home call.action
  asked call := some (call.id, call.action)
  atOnce c call := c.isCached call.id || call.home = c.thisNode
  answered
    | ⟨id, .existence _ action _ _⟩ => some (id, action)
    | _ => none
  request rank call := [(call.home, ⟨call.id, .existsRequest rank⟩)]

/-! ### The loop -/

namespace Reception

variable {ι : Type} (R : Reception EntityID ι)

/-- The room that `call` leaves, during the flush of `id`. -/
def grow (id : EntityID) (call : ι) (before after : Coordinator EntityID) (room : Flush.Room) :
    Option Flush.Room :=
  match R.asked call with
  | some (key, _) => room.grow id key (R.queue before) (R.queue after)
  | none => some room

/-- The calls made while one callback runs, during the flush of `id`. -/
def reenter (id : EntityID) : List ι → Flush.Room → CoordM EntityID Flush.Room
  | [], room => pure room
  | call :: calls, room => do
      let before ← getCoord
      R.run call
      let after ← getCoord
      let room ← R.grow id call before after room
      reenter id calls room

/-- `for (auto& action : it->second)`, each callback with the calls it makes. -/
def walk (id : EntityID) (invoke : Nat → CoordM EntityID Unit) :
    List (Nat × List ι) → Flush.Room → CoordM EntityID Flush.Room
  | [], room => pure room
  | (action, calls) :: turns, room => do
      invoke action
      let room ← R.reenter id calls room
      walk id invoke turns room

/-- The callbacks that wait for `id`, the one at position `i` with the calls `react i`. -/
def turns (react : Nat → List ι) (c : Coordinator EntityID) (id : EntityID) :
    List (Nat × List ι) :=
  (R.queue c id).mapIdx fun i action => (action, react i)

/-- The calls made during a flush of `id`, in order. -/
def made (react : Nat → List ι) (c : Coordinator EntityID) (id : EntityID) : List ι :=
  ((R.turns react c id).map Prod.snd).flatten

/-- Invoke and clear the callbacks that wait for `id`. The callback at position `i`
makes the calls `react i`. -/
def flush (react : Nat → List ι) (room : Flush.Room) (id : EntityID)
    (invoke : Nat → CoordM EntityID Unit) : CoordM EntityID Unit := do
  let c ← getCoord
  let _ ← R.walk id invoke (R.turns react c id) room
  modifyCoord (R.erase id)

end Reception

/-! ### What a flush promises -/

namespace Reception

variable {ι : Type} (R : Reception EntityID ι)

/-- What becomes of the callback that `call` hands in at `c`. -/
def event (c : Coordinator EntityID) (call : ι) : Option (Flush.Event EntityID Nat) :=
  (R.asked call).map fun a =>
    if R.atOnce c call then .answered a.1 a.2 else .queued a.1 a.2

/-- The coordinator after `call`. -/
def after (c : Coordinator EntityID) (call : ι) : Coordinator EntityID :=
  match R.run call ⟨c, [], []⟩ with
  | some (_, k) => k.coord
  | none => c

/-- What becomes of the callbacks handed in by a list of calls, each made where the
calls before it led. -/
def trace (c : Coordinator EntityID) : List ι → List (Flush.Event EntityID Nat)
  | [] => []
  | call :: calls => (R.event c call).toList ++ trace (R.after c call) calls

/-- What a flush of `id` that began at `c` and ended in `k` promises. `invocation` is
the invocation of a callback that waited. -/
structure Served (c : Coordinator EntityID) (id : EntityID)
    (invocation : Nat → Invocation EntityID) (made : List ι) (k : Activation EntityID) : Prop where
  /-- Whoever waited is invoked with what arrived. -/
  invoked : ((R.queue c id).map invocation).Sublist k.answers
  /-- Whoever waited or was handed in is invoked or waits, as often as it was there. -/
  conserved : ∀ key action,
    (R.queue c key).count action + (made.filterMap R.asked).count (key, action) =
      (R.queue k.coord key).count action + (k.answers.filterMap R.answered).count (key, action)
  /-- Whoever is first in a queue that was opened has sent its request. -/
  requested : ∀ key action rest, R.queue k.coord key = action :: rest →
    (key ≠ id ∧ R.queue c key ≠ []) ∨
      ∃ call ∈ made, R.asked call = some (key, action) ∧ R.request c.thisNode call ⊆ k.outbox

/-- Whoever was handed in is invoked or waits. -/
theorem Served.mem {R : Reception EntityID ι} {c : Coordinator EntityID} {id key : EntityID}
    {invocation : Nat → Invocation EntityID} {made : List ι} {k : Activation EntityID}
    (h : R.Served c id invocation made k) {call : ι} (hcall : call ∈ made) {action : Nat}
    (hasked : R.asked call = some (key, action)) :
    action ∈ R.queue k.coord key ∨ (key, action) ∈ k.answers.filterMap R.answered := by
  have hpos : 0 < (made.filterMap R.asked).count (key, action) :=
    List.count_pos_iff.mpr (List.mem_filterMap.mpr ⟨call, hcall, hasked⟩)
  have hbalance := h.conserved key action
  by_contra hlost
  obtain ⟨hqueue, hlog⟩ := not_or.mp hlost
  rw [List.count_eq_zero_of_not_mem hqueue, List.count_eq_zero_of_not_mem hlog] at hbalance
  omega

theorem served_congr {R : Reception EntityID ι} {c c' : Coordinator EntityID} {id : EntityID}
    {invocation : Nat → Invocation EntityID} {made : List ι} {k : Activation EntityID}
    (hqueue : R.queue c' = R.queue c) (hnode : c'.thisNode = c.thisNode) :
    R.Served c' id invocation made k ↔ R.Served c id invocation made k := by
  constructor
  · rintro ⟨hinv, hcons, hreq⟩
    rw [hqueue] at hinv hcons hreq
    rw [hnode] at hreq
    exact ⟨hinv, hcons, hreq⟩
  · rintro ⟨hinv, hcons, hreq⟩
    rw [← hqueue] at hinv hcons hreq
    rw [← hnode] at hreq
    exact ⟨hinv, hcons, hreq⟩

end Reception

/-! ### The source -/

section Source

variable (room : Flush.Room) (id : EntityID) (node : NodeType)

def flushPending (react : Nat → List (LocationCall EntityID)) : CoordM EntityID Unit :=
  locations.flush react room id fun action => invokeNodeAction id action node

def announceLocation (react : Nat → List (LocationCall EntityID)) : CoordM EntityID Unit := do
  recsInsert id node
  let c ← getCoord
  (c.locAsks id).forM fun asker => queueing.send asker ⟨id, .resolveResponse node⟩
  let c ← getCoord
  (c.pendingHome id).forM fun requester => do
    queueing.send requester ⟨id, .resolveResponse node⟩
    modifyCoord fun c =>
      { c with locAsks := Function.update c.locAsks id ((c.locAsks id).insert requester) }
  modifyCoord fun c => { c with pendingHome := Function.update c.pendingHome id [] }
  flushPending room id node react

def resolveResponse (react : Nat → List (LocationCall EntityID)) : CoordM EntityID Unit := do
  recsUpdate id node
  flushPending room id node react

def existsResponse (ex : Bool) (react : Nat → List (ExistsCall EntityID)) :
    CoordM EntityID Unit := do
  if ex then
    recsUpdate id node
  existences.flush react room id fun action => invokeExistsAction id action ex node

end Source

section Promises

variable (c : Coordinator EntityID) (room : Flush.Room) (id : EntityID) (node : NodeType)

/-- `existsResponse` returns, and keeps what its flush promises. -/
def ExistsResponseServes (ex : Bool) (react : Nat → List (ExistsCall EntityID)) : Prop :=
  ∃ k, existsResponse room id node ex react ⟨c, [], []⟩ = some ((), k) ∧
    existences.Served c id (fun action => ⟨id, .existence c.thisNode action ex node⟩)
      (existences.made react c id) k

/-- `resolveResponse` returns, and keeps what its flush promises. -/
def ResolveResponseServes (react : Nat → List (LocationCall EntityID)) : Prop :=
  ∃ k, resolveResponse room id node react ⟨c, [], []⟩ = some ((), k) ∧
    locations.Served c id (fun action => ⟨id, .located c.thisNode action node⟩)
      (locations.made react c id) k

/-- `announceLocation` returns, and keeps what its flush promises. -/
def AnnounceLocationServes (react : Nat → List (LocationCall EntityID)) : Prop :=
  ∃ k, announceLocation room id node react ⟨c, [], []⟩ = some ((), k) ∧
    locations.Served c id (fun action => ⟨id, .located c.thisNode action node⟩)
      (locations.made react c id) k

end Promises

/-! ### Passive callbacks -/

section Passive

variable {ι : Type} (R : Reception EntityID ι)

theorem walk_passive (id : EntityID) (invoke : Nat → CoordM EntityID Unit) (room : Flush.Room)
    (l : List Nat) :
    R.walk id invoke (l.map fun action => (action, [])) room =
      l.forM invoke >>= fun _ => pure room := by
  induction l with
  | nil => rfl
  | cons action l ih =>
      funext k
      simp [Reception.walk, Reception.reenter, ih, Option.bind_assoc]

/-- A flush of callbacks that call nothing. -/
theorem flush_passive (room : Flush.Room) (id : EntityID)
    (invoke : Nat → CoordM EntityID Unit) (k : Activation EntityID) :
    R.flush (fun _ => []) room id invoke k =
      ((R.queue k.coord id).forM invoke >>= fun _ => modifyCoord (R.erase id)) k := by
  have hturns : R.turns (fun _ => []) k.coord id =
      (R.queue k.coord id).map fun action => (action, []) :=
    List.ext_getElem (by simp [Reception.turns]) fun i _ _ => by simp [Reception.turns]
  simp [Reception.flush, hturns, walk_passive, Option.bind_assoc]

/-- Callbacks that call nothing make the flush of `pending_` the one that knows of no
re-entry; likewise the handlers below. -/
theorem flushPending_passive (room : Flush.Room) (id : EntityID) (node : NodeType) :
    flushPending room id node (fun _ => []) = Coordinator.flushPending id node := by
  funext k
  exact flush_passive locations room id _ k

theorem resolveResponse_passive (room : Flush.Room) (id : EntityID) (node : NodeType) :
    resolveResponse room id node (fun _ => []) = Coordinator.resolveResponse id node := by
  rw [resolveResponse, flushPending_passive, Coordinator.resolveResponse]

theorem announceLocation_passive (room : Flush.Room) (id : EntityID) (node : NodeType) :
    announceLocation room id node (fun _ => []) =
      Coordinator.announceLocation queueing id node := by
  rw [announceLocation, flushPending_passive, Coordinator.announceLocation]

theorem existsResponse_passive (room : Flush.Room) (id : EntityID) (ex : Bool)
    (node : NodeType) :
    existsResponse room id node ex (fun _ => []) = Coordinator.existsResponse id ex node := by
  funext k
  cases ex with
  | true =>
      simp only [existsResponse, Coordinator.existsResponse, if_true, bind_run, flush_passive]
      rfl
  | false =>
      simp only [existsResponse, Coordinator.existsResponse, Bool.false_eq_true, if_false,
        bind_run, flush_passive]
      rfl

end Passive

end Reentrant

end Loc
