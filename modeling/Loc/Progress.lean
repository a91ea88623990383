import Loc.Refinement

/-!
# Loc.Progress

**No activation is undefined**, as long as every cache has room for an entry. The
step function has no result when a public operation or a handler reads a key that
is not there, evicts from an empty list or trips an assertion; here none of that
happens, so a rank may run any operation and any message in flight can be delivered.
-/

namespace Loc

open Coordinator

variable {EntityID : Type} [DecidableEq EntityID]

/-- The code runs to its end from `k` and leaves a cache with room for an entry. -/
def Defined (p : CoordM EntityID Unit) (k : Activation EntityID) : Prop :=
  ∃ k', p k = some ((), k') ∧ k'.coord.recs.Roomy

namespace Coordinator

variable {k : Activation EntityID} (hk : k.coord.recs.Roomy) (id : EntityID)

include hk

/-- Reading a record that exists. -/
theorem recsGet_isSome (hid : k.coord.recs.exists id = true) :
    ∃ record recs, recsGet id k = some (record, { k with coord := { k.coord with recs } }) ∧
      recs.Roomy := by
  obtain ⟨record, recs, hget, hroomy⟩ := hk.get_isSome hid
  refine ⟨record, recs, ?_, hroomy⟩
  rw [recsGet_run, hget]
  rfl

theorem recsUpdate_isSome (node : NodeType) :
    ∃ recs, recsUpdate id node k = some ((), { k with coord := { k.coord with recs } }) ∧
      recs.Roomy := by
  obtain ⟨recs, hupd, hroomy⟩ := hk.update_isSome id (k.coord.makeRec id node)
  refine ⟨recs, ?_, hroomy⟩
  rw [recsUpdate_run, hupd]
  rfl

theorem defined_announceLocation (node : NodeType) :
    Defined (announceLocation queueing id node) k := by
  obtain ⟨recs, hins, hroomy⟩ := hk.insert_isSome id k.coord.thisNode (k.coord.makeRec id node)
  refine ⟨_, by rw [announceLocation_run, hins]; rfl, ?_⟩
  exact hroomy

theorem defined_registerEntity (home : NodeType) :
    Defined (registerEntity queueing id home) k := by
  simp only [registerEntity, Defined, bind_run, modifyCoord_run, getCoord_run, ite_run, send_run,
    Option.bind_some]
  split
  · exact defined_announceLocation (k := ⟨{ k.coord with
      localRegistered := insert id k.coord.localRegistered }, k.outbox, k.answers⟩) hk id _
  · exact ⟨_, rfl, hk⟩

theorem defined_entityEmigrated (newNode : NodeType) :
    Defined (entityEmigrated id newNode) k := by
  obtain ⟨recs, hupd, hroomy⟩ := recsUpdate_isSome (k := { k with coord := { k.coord with
    localRegistered := k.coord.localRegistered.erase id } }) hk id newNode
  refine ⟨_, by rw [entityEmigrated, bind_run, modifyCoord_run, Option.bind_some, hupd], ?_⟩
  exact hroomy

theorem defined_unregisterEntity : Defined (unregisterEntity id) k := by
  obtain ⟨recs, hrem, hroomy⟩ := hk.remove_isSome id
  refine ⟨⟨{ k.coord with localRegistered := k.coord.localRegistered.erase id, recs },
    k.outbox, k.answers⟩, ?_, hroomy⟩
  simp only [unregisterEntity, bind_run, modifyCoord_run, Option.bind_some, recsRemove_run]
  rw [hrem]
  rfl

theorem defined_getLocation (home : NodeType) (action : NodeAction) :
    Defined (getLocation queueing id home action) k := by
  simp only [getLocation, Defined, bind_run, getCoord_run, ite_run, Option.bind_some]
  split
  · exact ⟨_, rfl, hk⟩
  · split
    · next hid =>
      obtain ⟨record, recs, hget, hroomy⟩ := recsGet_isSome hk id hid
      refine ⟨_, by rw [hget]; rfl, ?_⟩
      exact hroomy
    · simp only [modifyCoord_run, Option.bind_some]
      split <;> exact ⟨_, rfl, hk⟩

theorem defined_entityExists (home : NodeType) (action : ExistsAction) :
    Defined (entityExists queueing id home action) k := by
  simp only [entityExists, Defined, bind_run, getCoord_run, ite_run, Option.bind_some]
  split
  · exact ⟨_, rfl, hk⟩
  · split
    · next hid =>
      obtain ⟨record, recs, hget, hroomy⟩ := recsGet_isSome hk id hid
      refine ⟨_, by rw [hget]; rfl, ?_⟩
      exact hroomy
    · split
      · exact ⟨_, rfl, hk⟩
      · simp only [modifyCoord_run, Option.bind_some]
        split <;> exact ⟨_, rfl, hk⟩

theorem defined_locationRequest (requester : NodeType) :
    Defined (locationRequest queueing id requester) k := by
  simp only [locationRequest, Defined, bind_run, getCoord_run, ite_run, modifyCoord_run,
    Option.bind_some]
  split
  · next hid =>
    obtain ⟨record, recs, hget, hroomy⟩ := recsGet_isSome (k := { k with coord := { k.coord with
      locAsks := Function.update k.coord.locAsks id ((k.coord.locAsks id).insert requester) } })
      hk id hid
    refine ⟨_, by rw [hget]; rfl, ?_⟩
    exact hroomy
  · split <;> exact ⟨_, rfl, hk⟩

theorem defined_resolveResponse (node : NodeType) : Defined (resolveResponse id node) k := by
  obtain ⟨recs, hupd, hroomy⟩ := recsUpdate_isSome hk id node
  refine ⟨_, by rw [resolveResponse, bind_run, hupd]; exact flushPending_run .., ?_⟩
  exact hroomy

theorem defined_existsRequest (requester : NodeType) :
    Defined (existsRequest queueing id requester) k := by
  simp only [existsRequest, Defined, bind_run, getCoord_run, ite_run, Option.bind_some]
  split
  · next hid =>
    obtain ⟨record, recs, hget, hroomy⟩ := recsGet_isSome hk id hid
    refine ⟨_, by rw [hget]; rfl, ?_⟩
    exact hroomy
  · split <;> exact ⟨_, rfl, hk⟩

theorem defined_existsResponse (ex : Bool) (node : NodeType) :
    Defined (existsResponse id ex node) k := by
  cases ex with
  | false =>
      refine ⟨_, by simp [existsResponse, forM_invokeExistsAction]; rfl, ?_⟩
      exact hk
  | true =>
      obtain ⟨recs, hupd, hroomy⟩ := recsUpdate_isSome hk id node
      refine ⟨_, by
        simp only [existsResponse, List.forM_eq_forM, if_true, bind_run, hupd, getCoord_run,
          modifyCoord_run, forM_invokeExistsAction, Option.bind_some]; rfl, ?_⟩
      exact hroomy

/-- Every public operation is defined. -/
theorem defined_run (op : Op EntityID) (home : EntityID → NodeType) :
    Defined (op.run queueing home) k := by
  cases op with
  | registerEntity id => exact defined_registerEntity hk id (home id)
  | entityImmigrated id src => exact defined_registerEntity hk id (home id)
  | entityEmigrated id newNode => exact defined_entityEmigrated hk id newNode
  | unregisterEntity id => exact defined_unregisterEntity hk id
  | getLocation id action => exact defined_getLocation hk id (home id) action
  | entityExists id action => exact defined_entityExists hk id (home id) action
  | isCached id => exact ⟨k, rfl, hk⟩
  | clearCache => exact ⟨_, rfl, hk.clearCache⟩

/-- So is every handler. -/
theorem defined_handle (m : ControlMsg EntityID) : Defined (handle queueing m) k := by
  obtain ⟨id, msg⟩ := m
  cases msg with
  | updateHome n => exact defined_announceLocation hk id n
  | locationRequest q => exact defined_locationRequest hk id q
  | resolveResponse n => exact defined_resolveResponse hk id n
  | existsRequest q => exact defined_existsRequest hk id q
  | existsResponse ex n => exact defined_existsResponse hk id ex n

end Coordinator

/-- Every cache of the system has room for an entry. -/
def System.HasRoom (s : System EntityID) : Prop := ∀ r, (s.coord r).recs.Roomy

theorem System.HasRoom.activate {s : System EntityID} (hs : s.HasRoom) {r : NodeType}
    {p : CoordM EntityID Unit} (hp : Defined p ⟨s.coord r, [], []⟩) :
    ∃ s', s.activate r p = some s' ∧ s'.HasRoom := by
  obtain ⟨k, hrun, hroomy⟩ := hp
  refine ⟨_, by rw [System.activate, hrun]; rfl, fun q => ?_⟩
  by_cases hq : q = r
  · subst hq
    simpa using hroomy
  · simpa [hq] using hs q

namespace Config

variable {cfg : Config EntityID} {past : List (Label EntityID)} {s s' : System EntityID}
  {l : Label EntityID}

/-- A step that may be taken: an operation on a rank, or a delivery from the network. -/
def Enabled (cfg : Config EntityID) (s : System EntityID) : Label EntityID → Prop
  | .call r _ => cfg.IsRank r
  | .deliver p => p ∈ s.net

theorem enabled_of_step (h : cfg.step s l = some s') : cfg.Enabled s l := by
  cases l with
  | call r op => exact (Option.ite_none_right_eq_some.mp h).1
  | deliver p => exact (Option.ite_none_right_eq_some.mp h).1

theorem step_defined (hs : s.HasRoom) (hl : cfg.Enabled s l) :
    ∃ s', cfg.step s l = some s' ∧ s'.HasRoom := by
  cases l with
  | call r op =>
      rw [step, if_pos (show cfg.IsRank r from hl)]
      exact hs.activate (defined_run (hs r) op cfg.home)
  | deliver p =>
      rw [step, if_pos (show p ∈ s.net from hl)]
      exact System.HasRoom.activate (s := { s with net := s.net.erase p }) hs
        (defined_handle (hs p.dst) p.body)

/-- Every cache has room in every state a run reaches. -/
theorem hasRoom_of_run {ok : Runs.Guard (System EntityID) (Label EntityID)} (hroomy : cfg.Roomy)
    (h : cfg.Run ok past s) : s.HasRoom := by
  refine h.invariant (I := fun _ s => s.HasRoom) ?_ ?_ ?_
  · intro r
    exact LocLookup.roomy_new (hroomy r) r
  · intro past s l s' hs _ hstep
    obtain ⟨t, ht, hroom⟩ := step_defined hs (enabled_of_step hstep)
    have heq : some t = some s' := ht.symm.trans hstep
    exact Option.some.inj heq ▸ hroom
  · intro past s s' _ hsilent
    exact hsilent.elim

/-- **Progress.** With room in every cache, exactly the enabled steps have a result, in
every state a run reaches. -/
theorem step_isSome {ok : Runs.Guard (System EntityID) (Label EntityID)} (hroomy : cfg.Roomy)
    (h : cfg.Run ok past s) : (cfg.step s l).isSome = true ↔ cfg.Enabled s l := by
  have hs : s.HasRoom := hasRoom_of_run hroomy h
  constructor
  · intro hsome
    obtain ⟨s', hstep⟩ := Option.isSome_iff_exists.mp hsome
    exact enabled_of_step hstep
  · intro hl
    obtain ⟨s', hstep, -⟩ := step_defined hs hl
    rw [hstep]
    rfl

end Config

end Loc
