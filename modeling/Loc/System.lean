import Loc.Coordinator
import Loc.Entity.Protocol

/-!
# Loc.System

The **distributed system**: one coordinator per rank, the control messages in
flight between them, and the embedder's calls.

A step either runs a public operation on some rank or delivers one message in
flight; both run one activation of one coordinator, whose sends join the network.
The step function is partial: it has no result when the activation runs into
undefined behaviour, which `Config.step_isSome` rules out for caches of capacity
at least one.

`Label.about` and `view` cut one entity out of the system: its events and its
share of the state.
-/

namespace Loc

open Channel (Packet posted Oldest)
open Coordinator (Op)

variable {EntityID : Type} [DecidableEq EntityID]

/-- A deployment: how many ranks, where every entity's home is, and how large a
cache each rank constructs its coordinator with. -/
structure Config (EntityID : Type) where
  numRanks : Nat
  home : EntityID → NodeType
  maxCacheSize : NodeType → Nat
  home_isRank : ∀ id, 0 ≤ home id ∧ home id < numRanks

/-- `r` is a rank of the communicator. -/
def Config.IsRank (cfg : Config EntityID) (r : NodeType) : Prop := 0 ≤ r ∧ r < cfg.numRanks

instance (cfg : Config EntityID) (r : NodeType) : Decidable (cfg.IsRank r) :=
  inferInstanceAs (Decidable (_ ∧ _))

/-- The state of the whole system. `answers` logs every callback invocation. -/
structure System (EntityID : Type) [DecidableEq EntityID] where
  coord : NodeType → Coordinator EntityID
  net : List (Packet NodeType (ControlMsg EntityID))
  answers : List (Invocation EntityID)

/-- What happens: a public operation on a rank, or the delivery of a message. -/
inductive Label (EntityID : Type)
  | call (r : NodeType) (op : Op EntityID)
  | deliver (p : Packet NodeType (ControlMsg EntityID))
  deriving DecidableEq

namespace System

/-- Run an activation on rank `r` and put its sends on the network. -/
def activate (s : System EntityID) (r : NodeType) (p : CoordM EntityID Unit) :
    Option (System EntityID) := do
  let (_, k) ← p ⟨s.coord r, [], []⟩
  return {
    coord := Function.update s.coord r k.coord
    net := s.net ++ posted r k.outbox
    answers := s.answers ++ k.answers }

/-- No control message is in flight. -/
def Drained (s : System EntityID) : Prop := s.net = []

instance (s : System EntityID) : Decidable s.Drained := inferInstanceAs (Decidable (_ = _))

end System

namespace Config

variable (cfg : Config EntityID)

/-- Every rank has just constructed its coordinator. -/
def init : System EntityID where
  coord r := .new r (cfg.maxCacheSize r)
  net := []
  answers := []

/-- One step of the system. -/
def step (s : System EntityID) : Label EntityID → Option (System EntityID)
  | .call r op => if cfg.IsRank r then s.activate r (op.run queueing cfg.home) else none
  | .deliver p =>
      if p ∈ s.net then
        { s with net := s.net.erase p }.activate p.dst (Coordinator.handle queueing p.body)
      else none

/-- The system as a machine. -/
def machine : Runs.Machine (System EntityID) (Label EntityID) := .ofFn cfg.step

/-- The runs of the system from its construction, under a guard. -/
abbrev Run (ok : Runs.Guard (System EntityID) (Label EntityID)) (past : List (Label EntityID))
    (s : System EntityID) : Prop :=
  cfg.machine.Run ok [] cfg.init past s

/-- Replay a scenario from the construction of the system, under a guard. -/
abbrev play (ok : Runs.Guard (System EntityID) (Label EntityID))
    [∀ past s l, Decidable (ok past s l)] (ls : List (Label EntityID)) :
    Option (List (Label EntityID) × System EntityID) :=
  Runs.play cfg.step ok [] cfg.init ls

/-- A scenario that plays out and ends in `P` is a run that ends in `P`. -/
theorem exists_run {cfg : Config EntityID} {ok : Runs.Guard (System EntityID) (Label EntityID)}
    [∀ past s l, Decidable (ok past s l)] {ls : List (Label EntityID)}
    {P : List (Label EntityID) × System EntityID → Prop} (h : ∃ r ∈ cfg.play ok ls, P r) :
    ∃ past s, cfg.Run ok past s ∧ P (past, s) :=
  Runs.Machine.Run.exists_of_play h

/-- Every cache has room for at least one entry. -/
def Roomy : Prop := ∀ r, 0 < cfg.maxCacheSize r

end Config

/-- A small deployment: four ranks, rank 0 home to every entity, and room for one
record in each cache. -/
def Config.small : Config Nat where
  numRanks := 4
  home _ := 0
  maxCacheSize _ := 1
  home_isRank _ := by decide

/-- The node of the directory's record of `id`. -/
def Coordinator.directoryNode (c : Coordinator EntityID) (id : EntityID) : Option NodeType :=
  (c.recs.directory.getIter id).map LocRecord.getRemoteNode

/-- The node of the record of `id` a query on this rank reads, if it holds one. -/
def Coordinator.recordedNode (c : Coordinator EntityID) (id : EntityID) : Option NodeType :=
  (c.recs.slot id).value.map LocRecord.getRemoteNode

/-! ### One entity -/

/-- The public operation as a call about `id`, if it is one. -/
def Coordinator.Op.about (id : EntityID) : Op EntityID → Option (Entity.Call NodeType)
  | .registerEntity id' => if id' = id then some .registerEntity else none
  | .entityImmigrated id' src => if id' = id then some (.entityImmigrated src) else none
  | .entityEmigrated id' newNode => if id' = id then some (.entityEmigrated newNode) else none
  | .unregisterEntity id' => if id' = id then some .unregisterEntity else none
  | .getLocation id' action => if id' = id then some (.getLocation action) else none
  | .entityExists id' action => if id' = id then some (.entityExists action) else none
  | .isCached _ => none
  | .clearCache => none

/-- The message, if it is about `id`. -/
def ControlMsg.about (id : EntityID) (m : ControlMsg EntityID) : Option (Msg NodeType) :=
  if m.id = id then some m.msg else none

/-- The event as one of the entity `id`, if it is one. -/
def Label.about (id : EntityID) : Label EntityID → Option (Entity.Act NodeType)
  | .call r op => (op.about id).map (.call r)
  | .deliver p => (p.restrict (ControlMsg.about id)).map .deliver

/-- The history of `id`, newest event first. -/
def about (id : EntityID) (past : List (Label EntityID)) : List (Entity.Act NodeType) :=
  past.filterMap (Label.about id)

/-- What a coordinator knows and owes about `id`. -/
def Coordinator.site (c : Coordinator EntityID) (id : EntityID) : Entity.Site NodeType where
  hosts := id ∈ c.localRegistered
  dir := (c.recs.slot id).dir.map LocRecord.getRemoteNode
  cached := (c.recs.slot id).cached.map LocRecord.getRemoteNode
  pending := c.pending id
  pendingExists := c.pendingExists id
  pendingHome := c.pendingHome id
  asks := c.locAsks id

/-- The callback invocations about `id`. -/
def answersAbout (id : EntityID) (log : List (Invocation EntityID)) : List (Answer NodeType) :=
  log.filterMap fun i => if i.id = id then some i.answer else none

/-- The system seen through `id`. -/
def System.view (id : EntityID) (s : System EntityID) : Entity.View NodeType where
  site r := (s.coord r).site id
  net := Channel.restrict (ControlMsg.about id) s.net
  answers := answersAbout id s.answers

/-- The entity a label is about. -/
def Label.entity : Label EntityID → Option EntityID
  | .call _ (.registerEntity id) => some id
  | .call _ (.entityImmigrated id _) => some id
  | .call _ (.entityEmigrated id _) => some id
  | .call _ (.unregisterEntity id) => some id
  | .call _ (.getLocation id _) => some id
  | .call _ (.entityExists id _) => some id
  | .call _ (.isCached _) => none
  | .call _ .clearCache => none
  | .deliver p => some p.body.id

/-! ### Guards -/

/-- Delivery is FIFO per (sender, receiver) pair. -/
def Fifo (s : System EntityID) : Label EntityID → Prop
  | .call _ _ => True
  | .deliver p => Oldest s.net p

instance (s : System EntityID) (l : Label EntityID) : Decidable (Fifo s l) := by
  unfold Fifo
  split <;> infer_instance

/-- The events of `id` obey `rule`, which sees the history of `id` and its view of
the system. -/
def ForEntity (id : EntityID) (rule : Runs.Guard (Entity.View NodeType) (Entity.Act NodeType)) :
    Runs.Guard (System EntityID) (Label EntityID) := fun past s l =>
  ∀ a ∈ l.about id, rule (about id past) (s.view id) a

instance (id : EntityID) (rule : Runs.Guard (Entity.View NodeType) (Entity.Act NodeType))
    [∀ past v a, Decidable (rule past v a)] (past : List (Label EntityID))
    (s : System EntityID) (l : Label EntityID) : Decidable (ForEntity id rule past s l) := by
  unfold ForEntity
  infer_instance

/-- The events of every entity obey its rule. -/
def Each (rule : EntityID → Runs.Guard (Entity.View NodeType) (Entity.Act NodeType)) :
    Runs.Guard (System EntityID) (Label EntityID) := fun past s l =>
  ∀ id ∈ l.entity, ForEntity id (rule id) past s l

instance (rule : EntityID → Runs.Guard (Entity.View NodeType) (Entity.Act NodeType))
    [∀ id past v a, Decidable (rule id past v a)] (past : List (Label EntityID))
    (s : System EntityID) (l : Label EntityID) : Decidable (Each rule past s l) := by
  unfold Each
  infer_instance

end Loc
