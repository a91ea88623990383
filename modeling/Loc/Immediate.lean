import Loc.Refinement

/-!
# Loc.Immediate

The in-process backend of `tests/tpl`, and the **plain map** it makes of a coordinator.

The backend has one rank. A `send` ignores its target and runs the handler at once,
on the same coordinator, nested inside the caller. Handlers send in their turn, so
the backend is given the depth of nesting it may reach; two are enough.

A coordinator with this backend keeps every record in its directory and nothing in
its cache. `Glimpse` is all that the public operations show of its state, `tell` is
what an announcement does to it, and the lemmas below say that the nest of handlers
one operation runs amounts to no more than that.
-/

namespace Loc

open Coordinator

variable {EntityID : Type} [DecidableEq EntityID]

/-! ### The backend -/

/-- `LocalCommunicator`: a send is the call of its handler. `depth` bounds the
nesting, a deeper send has no result. -/
def immediate : Nat → Comm EntityID
  | 0 => { send := fun _ _ => liftM (none : Option Unit) }
  | depth + 1 => { send := fun _ m => handle (immediate depth) m }

/-- `LocalCommunicator::getRank`. -/
def localRank : NodeType := 0

@[simp] theorem immediate_send (depth : Nat) (r : NodeType) (m : ControlMsg EntityID)
    (k : Activation EntityID) :
    (immediate (depth + 1)).send r m k = handle (immediate depth) m k := rfl

/-! ### What shows of a coordinator -/

/-- What an activation shows: the known entities, the registered ones, the waiters and
the callbacks invoked. -/
@[ext]
structure Glimpse (EntityID : Type) where
  known : EntityID → Option NodeType
  waiting : EntityID → List NodeAction
  waitingExists : EntityID → List ExistsAction
  registered : Finset EntityID
  log : List (Invocation EntityID)

/-- What shows of an activation under way. -/
def Activation.glimpse (k : Activation EntityID) : Glimpse EntityID where
  known := k.coord.directoryNode
  waiting := k.coord.pending
  waitingExists := k.coord.pendingExists
  registered := k.coord.localRegistered
  log := k.answers

/-- The entity is at `node`, and its waiters are told. -/
def Glimpse.tell (g : Glimpse EntityID) (id : EntityID) (node : NodeType) : Glimpse EntityID :=
  { g with
    known := Function.update g.known id (some node)
    waiting := Function.update g.waiting id []
    log := g.log ++ (g.waiting id).map fun a => ⟨id, .located localRank a node⟩ }

/-- Told twice is told once: the second time nobody waits. -/
@[simp] theorem Glimpse.tell_tell (g : Glimpse EntityID) (id : EntityID) (node : NodeType) :
    (g.tell id node).tell id node = g.tell id node := by
  simp [tell]

@[simp] theorem Glimpse.tell_known (g : Glimpse EntityID) (id : EntityID) (node : NodeType) :
    (g.tell id node).known id = some node := by
  simp [tell]

/-- A coordinator on the backend's only rank, with nothing in its cache. -/
structure Coordinator.Tidy (c : Coordinator EntityID) : Prop where
  node : c.thisNode = localRank
  placed : c.WellPlaced
  uncached : ∀ id, (c.recs.slot id).cached = none

theorem Coordinator.Tidy.recordedNode {c : Coordinator EntityID} (h : c.Tidy) (id : EntityID) :
    c.recordedNode id = c.directoryNode id := by
  rw [Coordinator.recordedNode, LocLookup.Slot.value, h.uncached, Option.or_none]
  rfl

/-- A record is known when it exists. -/
theorem Coordinator.Tidy.exists_eq {c : Coordinator EntityID} (h : c.Tidy) (id : EntityID) :
    c.recs.exists id = (c.directoryNode id).isSome := by
  rw [← h.recordedNode, Coordinator.recordedNode, LocLookup.exists_eq, Option.isSome_map]

/-! ### The lookup of a tidy coordinator -/

section Lookup

variable {k : Activation EntityID} (hk : k.coord.Tidy) (id : EntityID) (node : NodeType)

/-- Reading a record that is there leaves everything as it is. -/
theorem recsGet_tidy (hid : k.glimpse.known id = some node) :
    ∃ record, recsGet id k = some (record, k) ∧ record.getRemoteNode = node := by
  obtain ⟨record, hrec, hnode⟩ := Option.map_eq_some_iff.mp hid
  refine ⟨record, ?_, hnode⟩
  rw [recsGet_run, LocLookup.get, hrec]
  rfl

theorem glimpse_recs {recs : LocLookup EntityID (LocRecord EntityID)}
    {known : EntityID → Option NodeType}
    (hknown : ∀ id, (recs.slot id).dir.map LocRecord.getRemoteNode = known id) :
    Activation.glimpse { k with coord := { k.coord with recs } } = { k.glimpse with known } := by
  refine Glimpse.ext (funext hknown) rfl rfl rfl rfl

include hk

/-- Writing the directory. -/
theorem directory_insert_tidy :
    let recs := { k.coord.recs with
      directory := k.coord.recs.directory.insert id (k.coord.makeRec id node) }
    Tidy { k.coord with recs } ∧ Activation.glimpse { k with coord := { k.coord with recs } } =
      { k.glimpse with known := Function.update k.glimpse.known id (some node) } := by
  refine ⟨⟨hk.node, hk.placed, fun id' => ?_⟩, glimpse_recs fun id' => ?_⟩
  · have hold := hk.uncached id'
    rw [LocLookup.slot_directory_insert]
    split
    · exact hold
    · exact hold
  · rw [LocLookup.slot_directory_insert]
    by_cases hid : id' = id
    · subst hid
      simp [makeRec]
    · rw [if_neg hid, Function.update_of_ne hid]
      rfl

/-- An update of a record that is there writes the directory. -/
theorem recsUpdate_tidy (hid : (k.glimpse.known id).isSome) :
    ∃ k', recsUpdate id node k = some ((), k') ∧ k'.coord.Tidy ∧
      k'.glimpse = { k.glimpse with known := Function.update k.glimpse.known id (some node) } := by
  obtain ⟨n, hn⟩ := Option.isSome_iff_exists.mp hid
  obtain ⟨record, hrec, -⟩ := Option.map_eq_some_iff.mp hn
  obtain ⟨htidy, hglimpse⟩ := directory_insert_tidy hk id node
  refine ⟨_, ?_, htidy, hglimpse⟩
  rw [recsUpdate_run, LocLookup.update, hrec]
  rfl

theorem recsInsert_tidy :
    ∃ k', recsInsert id node k = some ((), k') ∧ k'.coord.Tidy ∧
      k'.glimpse = { k.glimpse with known := Function.update k.glimpse.known id (some node) } := by
  obtain ⟨htidy, hglimpse⟩ := directory_insert_tidy hk id node
  refine ⟨_, ?_, htidy, hglimpse⟩
  rw [recsInsert_run, LocLookup.insert, if_pos (show _ = k.coord.thisNode from hk.placed)]
  rfl

theorem recsRemove_tidy :
    ∃ k', recsRemove id k = some ((), k') ∧ k'.coord.Tidy ∧
      k'.glimpse = { k.glimpse with known := Function.update k.glimpse.known id none } := by
  obtain ⟨cache, hcache⟩ := Option.isSome_iff_exists.mp (k.coord.recs.cache.remove_isSome id)
  obtain ⟨recs, hrem⟩ : ∃ recs, k.coord.recs.remove id = some recs :=
    ⟨_, by rw [LocLookup.remove, hcache]; rfl⟩
  obtain ⟨hnode, hself, hother⟩ := LocLookup.remove_some hrem
  refine ⟨{ k with coord := { k.coord with recs } }, by rw [recsRemove_run, hrem]; rfl,
    ⟨hk.node, hnode.trans hk.placed, fun id' => ?_⟩, glimpse_recs fun id' => ?_⟩
  · by_cases hid : id' = id
    · subst hid
      exact congrArg LocLookup.Slot.cached hself
    · exact (congrArg LocLookup.Slot.cached (hother id' hid)).trans (hk.uncached id')
  · by_cases hid : id' = id
    · subst hid
      rw [hself, Function.update_self]
      rfl
    · rw [hother id' hid, Function.update_of_ne hid]
      rfl

end Lookup

/-! ### Handlers -/

section Handlers

variable {k : Activation EntityID} (hk : k.coord.Tidy) (id : EntityID) (node : NodeType)

include hk

/-- Flushing the waiters of an entity that is on record. -/
theorem flushPending_tidy (hid : k.glimpse.known id = some node) :
    ∃ k', flushPending id node k = some ((), k') ∧ k'.coord.Tidy ∧
      k'.glimpse = k.glimpse.tell id node := by
  refine ⟨_, flushPending_run id node k, ⟨hk.node, hk.placed, hk.uncached⟩, ?_⟩
  refine Glimpse.ext ?_ rfl rfl rfl ?_
  · exact (Function.update_eq_self_iff.mpr hid.symm).symm
  · rw [hk.node]
    rfl

/-- A response about an entity on record tells its waiters. -/
theorem resolveResponse_tidy (hid : (k.glimpse.known id).isSome) :
    ∃ k', resolveResponse id node k = some ((), k') ∧ k'.coord.Tidy ∧
      k'.glimpse = k.glimpse.tell id node := by
  obtain ⟨k₁, hupd, htidy, hglimpse⟩ := recsUpdate_tidy hk id node hid
  obtain ⟨k₂, hflush, htidy₂, hglimpse₂⟩ := flushPending_tidy htidy id node (by
    rw [hglimpse]; exact Function.update_self ..)
  refine ⟨k₂, by rw [resolveResponse, bind_run, hupd]; exact hflush, htidy₂, ?_⟩
  rw [hglimpse₂, hglimpse]
  simp [Glimpse.tell]

end Handlers

/-- On the way to `target`: the entity is on record at `node`, and telling its waiters
is all that is left to show. -/
structure Telling (id : EntityID) (node : NodeType) (target : Glimpse EntityID)
    (k : Activation EntityID) : Prop where
  tidy : k.coord.Tidy
  known : k.glimpse.known id = some node
  told : k.glimpse.tell id node = target

section Announce

variable {k : Activation EntityID} {id : EntityID} {node : NodeType} {target : Glimpse EntityID}

/-- A response sent meanwhile tells the waiters now. -/
theorem Telling.send (h : Telling id node target k) (depth : Nat) (r : NodeType) :
    ∃ k', (immediate (depth + 1)).send r ⟨id, .resolveResponse node⟩ k = some ((), k') ∧
      Telling id node target k' := by
  obtain ⟨k', hrun, htidy, hglimpse⟩ := resolveResponse_tidy h.tidy id node (by rw [h.known]; rfl)
  refine ⟨k', hrun, htidy, ?_, ?_⟩
  · rw [hglimpse, Glimpse.tell_known]
  · rw [hglimpse, Glimpse.tell_tell, h.told]

/-- What nothing shows of may be changed. -/
theorem Telling.modifyCoord (h : Telling id node target k)
    {f : Coordinator EntityID → Coordinator EntityID}
    (htidy : (f k.coord).Tidy)
    (hglimpse : Activation.glimpse { k with coord := f k.coord } = k.glimpse) :
    Telling id node target { k with coord := f k.coord } :=
  ⟨htidy, hglimpse ▸ h.known, hglimpse ▸ h.told⟩

/-- A loop whose body is on the way is on the way. -/
theorem Telling.forM {l : List NodeType} {b : NodeType → CoordM EntityID Unit}
    (h : Telling id node target k)
    (hbody : ∀ q k, Telling id node target k →
      ∃ k', b q k = some ((), k') ∧ Telling id node target k') :
    ∃ k', (l.forM b) k = some ((), k') ∧ Telling id node target k' := by
  induction l generalizing k with
  | nil => exact ⟨k, rfl, h⟩
  | cons q l ih =>
      obtain ⟨k₁, hrun, h₁⟩ := hbody q k h
      obtain ⟨k₂, hrest, h₂⟩ := ih h₁
      refine ⟨k₂, ?_, h₂⟩
      show (b q >>= fun _ => l.forM b) k = _
      rw [bind_run, hrun]
      exact hrest

/-- **An announcement** tells the waiters, however many ranks are answered on the way. -/
theorem announceLocation_tidy (hk : k.coord.Tidy) (id : EntityID) (node : NodeType)
    (depth : Nat) : ∃ k', announceLocation (immediate (depth + 1)) id node k = some ((), k') ∧
      k'.coord.Tidy ∧ k'.glimpse = k.glimpse.tell id node := by
  obtain ⟨k₁, hins, htidy₁, hglimpse₁⟩ := recsInsert_tidy hk id node
  have h₁ : Telling id node (k.glimpse.tell id node) k₁ := by
    refine ⟨htidy₁, ?_, ?_⟩
    · rw [hglimpse₁]
      exact Function.update_self ..
    · rw [hglimpse₁]
      simp [Glimpse.tell]
  -- Whoever is answered first, the waiters are told by the handler the answer runs.
  obtain ⟨k₂, hasks, h₂⟩ := h₁.forM (l := k₁.coord.locAsks id) fun q _ h => h.send depth q
  obtain ⟨k₃, hhome, h₃⟩ := h₂.forM (l := k₂.coord.pendingHome id)
    (b := fun q => do
      (immediate (depth + 1)).send q ⟨id, .resolveResponse node⟩
      Coordinator.modifyCoord fun c =>
        { c with locAsks := Function.update c.locAsks id ((c.locAsks id).insert q) })
    fun q k h => by
      obtain ⟨k', hrun, h'⟩ := h.send depth q
      have hkept := h'.modifyCoord (f := fun c =>
        { c with locAsks := Function.update c.locAsks id ((c.locAsks id).insert q) })
        ⟨h'.tidy.node, h'.tidy.placed, h'.tidy.uncached⟩ rfl
      exact ⟨_, by rw [bind_run, hrun]; rfl, hkept⟩
  have h₄ := h₃.modifyCoord (f := fun c =>
    { c with pendingHome := Function.update c.pendingHome id [] })
    ⟨h₃.tidy.node, h₃.tidy.placed, h₃.tidy.uncached⟩ rfl
  obtain ⟨k₅, hflush, htidy₅, hglimpse₅⟩ := flushPending_tidy h₄.tidy id node h₄.known
  refine ⟨k₅, ?_, htidy₅, hglimpse₅.trans h₄.told⟩
  rw [announceLocation, bind_run, hins, Option.bind_some, bind_run, getCoord_run,
    Option.bind_some, bind_run, hasks, Option.bind_some, bind_run, getCoord_run,
    Option.bind_some, bind_run, hhome, Option.bind_some, bind_run, modifyCoord_run]
  exact hflush

end Announce

/-! ### The plain map -/

/-- What the coordinator amounts to: where each known entity is, and who waits for an
unknown one. -/
@[ext]
structure PlainMap (EntityID : Type) where
  known : EntityID → Option NodeType
  waiting : EntityID → List NodeAction

namespace PlainMap

/-- Nothing is known. -/
def empty : PlainMap EntityID := ⟨fun _ => none, fun _ => []⟩

/-- Every waiter is told that the entity is here, in the order queued. -/
def told (m : PlainMap EntityID) (id : EntityID) : List (Invocation EntityID) :=
  (m.waiting id).map fun a => ⟨id, .located localRank a localRank⟩

/-- The entity is here, and nobody waits for it. -/
def settle (m : PlainMap EntityID) (id : EntityID) : PlainMap EntityID :=
  ⟨Function.update m.known id (some localRank), Function.update m.waiting id []⟩

/-- An operation on the map, with the callbacks it invokes. Only a known entity may
emigrate. -/
def perform (m : PlainMap EntityID) :
    Op EntityID → Option (List (Invocation EntityID) × PlainMap EntityID)
  | .registerEntity id => some (m.told id, m.settle id)
  | .entityImmigrated id _ => some (m.told id, m.settle id)
  | .entityEmigrated id newNode =>
      if (m.known id).isSome then
        some ([], { m with known := Function.update m.known id (some newNode) })
      else none
  | .unregisterEntity id => some ([], { m with known := Function.update m.known id none })
  | .getLocation id action =>
      match m.known id with
      | some node => some ([⟨id, .located localRank action node⟩], m)
      | none => some ([],
          { m with waiting := Function.update m.waiting id (m.waiting id ++ [action]) })
  | .entityExists id action =>
      match m.known id with
      | some node => some ([⟨id, .existence localRank action true node⟩], m)
      | none => some ([⟨id, .existence localRank action false noNode⟩], m)
  | .isCached _ => some ([], m)
  | .clearCache => some ([], m)

/-- The map as a machine whose labels are operations and the callbacks they invoke. -/
def machine (EntityID : Type) [DecidableEq EntityID] :
    Runs.Machine (PlainMap EntityID) (Op EntityID × List (Invocation EntityID)) :=
  .observing perform

end PlainMap

namespace Coordinator

/-- A public operation with the immediate backend, and the callbacks it invokes. -/
def performImmediate (depth : Nat) (home : EntityID → NodeType) (c : Coordinator EntityID)
    (op : Op EntityID) : Option (List (Invocation EntityID) × Coordinator EntityID) :=
  (op.run (immediate depth) home ⟨c, [], []⟩).map fun x => (x.2.answers, x.2.coord)

/-- The coordinator as a machine whose labels are operations and the callbacks they
invoke. -/
def immediateMachine (depth : Nat) (home : EntityID → NodeType) :
    Runs.Machine (Coordinator EntityID) (Op EntityID × List (Invocation EntityID)) :=
  .observing (performImmediate depth home)

/-- The map a coordinator amounts to. -/
def plain (c : Coordinator EntityID) : PlainMap EntityID := ⟨c.directoryNode, c.pending⟩

@[simp] theorem plain_new (maxCacheSize : Nat) :
    (new localRank maxCacheSize : Coordinator EntityID).plain = .empty := rfl

/-- Only a known entity emigrates. -/
def EmigratesKnown (c : Coordinator EntityID) : Op EntityID → Prop
  | .entityEmigrated id _ => c.isCached id = true
  | _ => True

instance (c : Coordinator EntityID) : (op : Op EntityID) → Decidable (c.EmigratesKnown op)
  | .entityEmigrated id _ => inferInstanceAs (Decidable (c.isCached id = true))
  | .registerEntity _ => isTrue trivial
  | .entityImmigrated _ _ => isTrue trivial
  | .unregisterEntity _ => isTrue trivial
  | .getLocation _ _ => isTrue trivial
  | .entityExists _ _ => isTrue trivial
  | .isCached _ => isTrue trivial
  | .clearCache => isTrue trivial

/-- Between operations: a registered entity is on record here, and no existence
callback waits. -/
structure Settled (c : Coordinator EntityID) : Prop where
  tidy : c.Tidy
  registered : ∀ id ∈ c.localRegistered, c.directoryNode id = some localRank
  answered : ∀ id, c.pendingExists id = []

theorem settled_new (maxCacheSize : Nat) :
    (new localRank maxCacheSize : Coordinator EntityID).Settled where
  tidy := ⟨rfl, rfl, fun _ => rfl⟩
  registered id hid := absurd hid (Finset.notMem_empty id)
  answered _ := rfl

namespace Settled

variable {c : Coordinator EntityID} (hc : c.Settled) (id : EntityID)

include hc

theorem isCached_eq : c.isCached id = (c.plain.known id).isSome := by
  rw [isCached, hc.tidy.exists_eq]
  by_cases hlocal : id ∈ c.localRegistered
  · -- registered, so on record here too
    have hknown := hc.registered id hlocal
    simp [plain, hknown]
  · simp [hlocal, plain]

/-- A registration, by either of its names. -/
theorem registerEntity_run (depth : Nat) (home : NodeType) :
    ∃ k', Coordinator.registerEntity (immediate (depth + 2)) id home ⟨c, [], []⟩ = some ((), k') ∧
      k'.coord.Settled ∧ k'.coord.plain = c.plain.settle id ∧ k'.answers = c.plain.told id := by
  have hannounce : ∀ d, ∃ k', announceLocation (immediate (d + 1)) id c.thisNode
      ⟨{ c with localRegistered := insert id c.localRegistered }, [], []⟩ = some ((), k') ∧
      k'.coord.Settled ∧ k'.coord.plain = c.plain.settle id ∧ k'.answers = c.plain.told id := by
    intro d
    obtain ⟨k', hrun, htidy, hglimpse⟩ := announceLocation_tidy
      (k := ⟨{ c with localRegistered := insert id c.localRegistered }, [], []⟩)
      ⟨hc.tidy.node, hc.tidy.placed, hc.tidy.uncached⟩ id c.thisNode d
    rw [hc.tidy.node] at hglimpse
    have hknown : k'.coord.directoryNode = Function.update c.directoryNode id (some localRank) :=
      congrArg Glimpse.known hglimpse
    have hreg : k'.coord.localRegistered = insert id c.localRegistered :=
      congrArg Glimpse.registered hglimpse
    refine ⟨k', hrun, ⟨htidy, fun id' hid' => ?_, fun id' => ?_⟩,
      PlainMap.ext hknown (congrArg Glimpse.waiting hglimpse), congrArg Glimpse.log hglimpse⟩
    · rw [hreg, Finset.mem_insert] at hid'
      rw [hknown]
      by_cases hid : id' = id
      · subst hid
        exact Function.update_self ..
      · rw [Function.update_of_ne hid]
        exact hc.registered id' (hid'.resolve_left hid)
    · exact (congrFun (congrArg Glimpse.waitingExists hglimpse) id').trans (hc.answered id')
  simp only [Coordinator.registerEntity, bind_run, modifyCoord_run, getCoord_run, ite_run,
    Option.bind_some]
  -- Announced here, or by the handler of the message sent to itself.
  split
  · exact hannounce (depth + 1)
  · exact hannounce depth

/-- A registered entity is known to be here. -/
theorem node_of_registered {node : NodeType} (hlocal : id ∈ c.localRegistered)
    (hid : c.directoryNode id = some node) : node = localRank := by
  rw [hc.registered id hlocal] at hid
  exact (Option.some.inj hid).symm

theorem not_registered (hid : c.directoryNode id = none) : id ∉ c.localRegistered := by
  intro hlocal
  rw [hc.registered id hlocal] at hid
  exact absurd hid (by simp)

theorem exists_of_known {node : NodeType} (hid : c.directoryNode id = some node) :
    c.recs.exists id = true := by
  rw [hc.tidy.exists_eq, hid]
  rfl

theorem not_exists (hid : c.directoryNode id = none) : c.recs.exists id = false := by
  rw [hc.tidy.exists_eq, hid]
  rfl

/-- Reading the location of a known entity. -/
theorem getLocation_known {node : NodeType} (hid : c.directoryNode id = some node)
    (comm : Comm EntityID) (home : NodeType) (action : NodeAction) :
    Coordinator.getLocation comm id home action ⟨c, [], []⟩ =
      some ((), ⟨c, [], [⟨id, .located localRank action node⟩]⟩) := by
  simp only [Coordinator.getLocation, bind_run, getCoord_run, ite_run, Option.bind_some,
    invokeNodeAction_run, List.nil_append]
  by_cases hlocal : id ∈ c.localRegistered
  · rw [if_pos hlocal, hc.tidy.node, hc.node_of_registered id hlocal hid]
  · obtain ⟨record, hget, hnode⟩ := recsGet_tidy (k := ⟨c, [], []⟩) id node hid
    rw [if_neg hlocal, if_pos (hc.exists_of_known id hid), hget, Option.bind_some, hnode,
      hc.tidy.node]
    rfl

/-- A location callback for an unknown entity waits, and the request it sends to itself
comes back unanswered. -/
theorem getLocation_unknown (hid : c.directoryNode id = none) (depth : Nat) (home : NodeType)
    (action : NodeAction) :
    ∃ pendingHome, Coordinator.getLocation (immediate (depth + 2)) id home action ⟨c, [], []⟩ =
      some ((), ⟨{ c with
        pending := Function.update c.pending id (c.pending id ++ [action]), pendingHome },
        [], []⟩) := by
  have hlocal := hc.not_registered id hid
  have hex := hc.not_exists id hid
  simp only [Coordinator.getLocation, bind_run, getCoord_run, ite_run, Option.bind_some,
    modifyCoord_run, if_neg hlocal, hex, Bool.false_eq_true, if_false]
  split
  · -- the request finds nothing either, and is buffered on the home side
    simp only [immediate_send, handle, locationRequest, bind_run, getCoord_run, ite_run,
      Option.bind_some, modifyCoord_run, hex, Bool.false_eq_true, if_false, if_neg hlocal]
    exact ⟨_, rfl⟩
  · exact ⟨c.pendingHome, rfl⟩

theorem entityExists_known {node : NodeType} (hid : c.directoryNode id = some node)
    (comm : Comm EntityID) (home : NodeType) (action : ExistsAction) :
    Coordinator.entityExists comm id home action ⟨c, [], []⟩ =
      some ((), ⟨c, [], [⟨id, .existence localRank action true node⟩]⟩) := by
  simp only [Coordinator.entityExists, bind_run, getCoord_run, ite_run, Option.bind_some,
    invokeExistsAction_run, List.nil_append]
  by_cases hlocal : id ∈ c.localRegistered
  · rw [if_pos hlocal, hc.tidy.node, hc.node_of_registered id hlocal hid]
  · obtain ⟨record, hget, hnode⟩ := recsGet_tidy (k := ⟨c, [], []⟩) id node hid
    rw [if_neg hlocal, if_pos (hc.exists_of_known id hid), hget, Option.bind_some, hnode,
      hc.tidy.node]
    rfl

/-- An existence callback for an unknown entity is answered at once, by the home or by
the request sent to itself. -/
theorem entityExists_unknown (hid : c.directoryNode id = none) (depth : Nat) (home : NodeType)
    (action : ExistsAction) :
    Coordinator.entityExists (immediate (depth + 2)) id home action ⟨c, [], []⟩ =
      some ((), ⟨c, [], [⟨id, .existence localRank action false noNode⟩]⟩) := by
  have hlocal := hc.not_registered id hid
  have hex := hc.not_exists id hid
  simp only [Coordinator.entityExists, bind_run, getCoord_run, ite_run, Option.bind_some,
    modifyCoord_run, if_neg hlocal, hex, Bool.false_eq_true, if_false, hc.answered,
    List.nil_append, List.length_singleton, if_true, invokeExistsAction_run]
  split
  · rw [hc.tidy.node]
  · simp only [immediate_send, handle, existsRequest, existsResponse, bind_run, getCoord_run,
      ite_run, Option.bind_some, modifyCoord_run, hex, Bool.false_eq_true, if_false,
      if_neg hlocal, List.forM_eq_forM, forM_invokeExistsAction, Function.update_self,
      List.map_cons, List.map_nil, List.nil_append, Function.update_idem]
    -- The callback that was queued has been invoked, and its queue is empty as before.
    rw [Function.update_eq_self_iff.mpr (hc.answered id).symm, ← hc.tidy.node]

/-- An entity that is registered no longer may have any record, or none. -/
theorem of_erased {k' : Activation EntityID} {v : Option NodeType} (htidy : k'.coord.Tidy)
    (hglimpse : k'.glimpse =
      { Activation.glimpse ⟨{ c with localRegistered := c.localRegistered.erase id }, [], []⟩ with
        known := Function.update c.directoryNode id v }) :
    k'.coord.Settled ∧ k'.answers = [] ∧
      k'.coord.plain = { c.plain with known := Function.update c.plain.known id v } := by
  have hknown : k'.coord.directoryNode = Function.update c.directoryNode id v :=
    congrArg Glimpse.known hglimpse
  have hreg : k'.coord.localRegistered = c.localRegistered.erase id :=
    congrArg Glimpse.registered hglimpse
  refine ⟨⟨htidy, fun id' hid' => ?_, fun id' => ?_⟩, congrArg Glimpse.log hglimpse,
    PlainMap.ext hknown (congrArg Glimpse.waiting hglimpse)⟩
  · rw [hreg, Finset.mem_erase] at hid'
    rw [hknown, Function.update_of_ne hid'.1]
    exact hc.registered id' hid'.2
  · exact (congrFun (congrArg Glimpse.waitingExists hglimpse) id').trans (hc.answered id')

theorem entityEmigrated_run (newNode : NodeType) (hid : c.isCached id = true) :
    ∃ k', Coordinator.entityEmigrated id newNode ⟨c, [], []⟩ = some ((), k') ∧
      k'.coord.Settled ∧ k'.answers = [] ∧
      k'.coord.plain = { c.plain with
        known := Function.update c.plain.known id (some newNode) } := by
  rw [hc.isCached_eq] at hid
  obtain ⟨k', hrun, htidy, hglimpse⟩ := recsUpdate_tidy
    (k := ⟨{ c with localRegistered := c.localRegistered.erase id }, [], []⟩)
    ⟨hc.tidy.node, hc.tidy.placed, hc.tidy.uncached⟩ id newNode hid
  exact ⟨k', hrun, hc.of_erased id htidy hglimpse⟩

theorem unregisterEntity_run :
    ∃ k', Coordinator.unregisterEntity id ⟨c, [], []⟩ = some ((), k') ∧
      k'.coord.Settled ∧ k'.answers = [] ∧
      k'.coord.plain = { c.plain with known := Function.update c.plain.known id none } := by
  obtain ⟨k', hrun, htidy, hglimpse⟩ := recsRemove_tidy
    (k := ⟨{ c with localRegistered := c.localRegistered.erase id }, [], []⟩)
    ⟨hc.tidy.node, hc.tidy.placed, hc.tidy.uncached⟩ id
  exact ⟨k', hrun, hc.of_erased id htidy hglimpse⟩

/-- Dropping the cache drops nothing. -/
theorem clearCache : Settled { c with recs := c.recs.clearCache } where
  tidy := ⟨hc.tidy.node, hc.tidy.placed, fun id => by rw [LocLookup.slot_clearCache]; rfl⟩
  registered := hc.registered
  answered := hc.answered

end Settled

/-- **One operation.** It returns, and does what it does to the map. -/
theorem Settled.perform {c : Coordinator EntityID} (hc : c.Settled) (depth : Nat)
    (home : EntityID → NodeType) {op : Op EntityID} (hop : c.EmigratesKnown op) :
    ∃ answers c', performImmediate (depth + 2) home c op = some (answers, c') ∧ c'.Settled ∧
      c.plain.perform op = some (answers, c'.plain) := by
  have done : ∀ {k' : Activation EntityID},
      op.run (immediate (depth + 2)) home ⟨c, [], []⟩ = some ((), k') → k'.coord.Settled →
      c.plain.perform op = some (k'.answers, k'.coord.plain) →
      ∃ answers c', performImmediate (depth + 2) home c op = some (answers, c') ∧ c'.Settled ∧
        c.plain.perform op = some (answers, c'.plain) :=
    fun hrun hsettled hmap => ⟨_, _, by rw [performImmediate, hrun]; rfl, hsettled, hmap⟩
  cases op with
  | registerEntity id =>
      obtain ⟨k', hrun, hsettled, hplain, hlog⟩ := hc.registerEntity_run id depth (home id)
      exact done hrun hsettled (by rw [hplain, hlog]; rfl)
  | entityImmigrated id src =>
      obtain ⟨k', hrun, hsettled, hplain, hlog⟩ := hc.registerEntity_run id depth (home id)
      exact done hrun hsettled (by rw [hplain, hlog]; rfl)
  | entityEmigrated id newNode =>
      have hid : c.isCached id = true := hop
      obtain ⟨k', hrun, hsettled, hlog, hplain⟩ := hc.entityEmigrated_run id newNode hid
      rw [hc.isCached_eq] at hid
      exact done hrun hsettled (by rw [hplain, hlog, PlainMap.perform, if_pos hid])
  | unregisterEntity id =>
      obtain ⟨k', hrun, hsettled, hlog, hplain⟩ := hc.unregisterEntity_run id
      exact done hrun hsettled (by rw [hplain, hlog]; rfl)
  | getLocation id action =>
      cases hid : c.directoryNode id with
      | some node =>
          exact done (hc.getLocation_known id hid _ (home id) action) hc (by
            rw [PlainMap.perform, show c.plain.known id = some node from hid])
      | none =>
          obtain ⟨pendingHome, hrun⟩ := hc.getLocation_unknown id hid depth (home id) action
          -- requesters may be buffered, which the map does not show
          refine done hrun ⟨⟨hc.tidy.node, hc.tidy.placed, hc.tidy.uncached⟩, hc.registered,
            hc.answered⟩ ?_
          rw [PlainMap.perform, show c.plain.known id = none from hid]
          rfl
  | entityExists id action =>
      cases hid : c.directoryNode id with
      | some node =>
          exact done (hc.entityExists_known id hid _ (home id) action) hc (by
            rw [PlainMap.perform, show c.plain.known id = some node from hid])
      | none =>
          exact done (hc.entityExists_unknown id hid depth (home id) action) hc (by
            rw [PlainMap.perform, show c.plain.known id = none from hid])
  | isCached id => exact done rfl hc rfl
  | clearCache => exact done rfl hc.clearCache rfl

end Coordinator

end Loc
