import Loc.Reentrancy

/-!
# Loc.Serving

When a flush whose callbacks re-enter **serves everybody**.

One lemma for each call says what it does to the queues (`Handles`); by induction the
calls of a callback, and the walk of a queue, do to a `Flush.Desk` what their events do
(`reenter_desk`, `walk_desk`). `flush_served_iff` reads the exact condition off
`Flush.flush_conserves_iff`, and the last section turns it into conditions on what the
rank knows when it is asked.
-/

namespace Loc

namespace Reentrant

open Coordinator

variable {EntityID : Type} [DecidableEq EntityID]

/-! ### One call -/

namespace Reception

variable {ι : Type} (R : Reception EntityID ι)

/-- The queues of a reception and the invocations of its callbacks. -/
def desk (k : Activation EntityID) : Flush.Desk EntityID Nat :=
  ⟨R.queue k.coord, k.answers.filterMap R.answered⟩

/-- What `call` does at `c`: `e` is where it leads when nothing has been sent or invoked
before it. -/
structure Handles (c : Coordinator EntityID) (call : ι) (e : Activation EntityID) : Prop where
  run : ∀ outbox answers, R.run call ⟨c, outbox, answers⟩ =
    some ((), ⟨e.coord, outbox ++ e.outbox, answers ++ e.answers⟩)
  thisNode : e.coord.thisNode = c.thisNode
  desk : R.desk e = (R.desk ⟨c, [], []⟩).records (R.event c call).toList
  request : R.atOnce c call = false → ∀ key action, R.asked call = some (key, action) →
    R.queue c key = [] → R.request c.thisNode call ⊆ e.outbox

/-- Every call keeps `I` and does what it should where `I` holds. -/
structure Lawful (I : Coordinator EntityID → Prop) : Prop where
  handles : ∀ c call, I c → ∃ e, R.Handles c call e ∧ I e.coord
  erase : ∀ id c, R.queue (R.erase id c) = Function.update (R.queue c) id []
  erase_thisNode : ∀ id c, (R.erase id c).thisNode = c.thisNode

variable {R} {c : Coordinator EntityID} {call : ι} {e : Activation EntityID}

theorem Handles.after_eq (h : R.Handles c call e) : R.after c call = e.coord := by
  rw [after, h.run [] []]

/-- A call leaves the queues alone, or appends the callback it hands in. -/
theorem Handles.queue_cases (h : R.Handles c call e) :
    R.queue e.coord = R.queue c ∨
      ∃ key action, R.asked call = some (key, action) ∧ R.atOnce c call = false ∧
        R.queue e.coord = Function.update (R.queue c) key (R.queue c key ++ [action]) := by
  have hdesk := congrArg Flush.Desk.queue h.desk
  cases hasked : R.asked call with
  | none =>
      rw [event, hasked] at hdesk
      exact .inl hdesk
  | some entry =>
      obtain ⟨key, action⟩ := entry
      cases hnow : R.atOnce c call with
      | true =>
          rw [event, hasked, hnow] at hdesk
          exact .inl hdesk
      | false =>
          rw [event, hasked, hnow] at hdesk
          exact .inr ⟨key, action, rfl, rfl, hdesk⟩

end Reception

section Calls

/-- What is in the directory at `c` is in the directory at `c'`. -/
def KeepsDirectory (c c' : Coordinator EntityID) : Prop :=
  ∀ id, (c.recs.slot id).dir.isSome → (c'.recs.slot id).dir.isSome

variable {c : Coordinator EntityID} (id : EntityID) (home : NodeType)

/-- What is known is answered at once, and only moves in the recency order. -/
theorem isCached_cases (c : Coordinator EntityID) (id : EntityID) :
    (id ∈ c.localRegistered ∧ c.isCached id = true) ∨
    (id ∉ c.localRegistered ∧ c.recs.exists id = true ∧ c.isCached id = true) ∨
    (id ∉ c.localRegistered ∧ c.recs.exists id = false ∧ c.isCached id = false) := by
  by_cases hlocal : id ∈ c.localRegistered
  · exact .inl ⟨hlocal, by simp [isCached, hlocal]⟩
  · cases hex : c.recs.exists id with
    | true => exact .inr (.inl ⟨hlocal, rfl, by simp [isCached, hex]⟩)
    | false => exact .inr (.inr ⟨hlocal, rfl, by simp [isCached, hlocal, hex]⟩)

theorem getLocation_handles (action : NodeAction) (hc : c.recs.Roomy) :
    ∃ e, locations.Handles c (.getLocation id home action) e ∧ e.coord.recs.Roomy ∧
      KeepsDirectory c e.coord := by
  obtain ⟨hlocal, hknown⟩ | ⟨hlocal, hex, hknown⟩ | ⟨hlocal, hex, hknown⟩ := isCached_cases c id
  · refine ⟨⟨c, [], [⟨id, .located c.thisNode action c.thisNode⟩]⟩, ⟨?_, rfl, ?_, ?_⟩, hc,
      fun _ h => h⟩
    · intro outbox answers
      simp [locations, Coordinator.getLocation, hlocal]
    · simp [Reception.desk, Reception.event, locations, hknown, Flush.Desk.records,
        Flush.Desk.record]
    · intro hlater
      exact absurd (hknown.symm.trans hlater) (by simp)
  · obtain ⟨record, recs, hget, hroomy⟩ := hc.get_isSome hex
    obtain ⟨-, -, hslot⟩ := LocLookup.get_some hget
    refine ⟨⟨{ c with recs }, [], [⟨id, .located c.thisNode action record.getRemoteNode⟩]⟩,
      ⟨?_, rfl, ?_, ?_⟩, hroomy, fun key h => by rw [hslot]; exact h⟩
    · intro outbox answers
      simp [locations, Coordinator.getLocation, hlocal, hex, hget]
    · simp [Reception.desk, Reception.event, locations, hknown, Flush.Desk.records,
        Flush.Desk.record]
    · intro hlater
      exact absurd (hknown.symm.trans hlater) (by simp)
  · refine ⟨⟨{ c with pending := Function.update c.pending id (c.pending id ++ [action]) },
      if c.pending id = [] ∧ home ≠ c.thisNode then [(home, ⟨id, .locationRequest c.thisNode⟩)]
        else [], []⟩, ⟨?_, rfl, ?_, ?_⟩, hc, fun _ h => h⟩
    · intro outbox answers
      simp only [locations, Coordinator.getLocation, bind_run, getCoord_run, ite_run,
        Option.bind_some, modifyCoord_run, if_neg hlocal, hex, Bool.false_eq_true, if_false,
        List.length_append, List.length_singleton, Nat.add_eq_right, List.length_eq_zero_iff,
        send_run, List.append_nil]
      split <;> simp
    · simp [Reception.desk, Reception.event, locations, hknown, Flush.Desk.records,
        Flush.Desk.record]
    · rintro - key a hasked hempty
      obtain ⟨rfl, rfl⟩ := Prod.mk.inj (Option.some.inj hasked)
      by_cases hhome : home = c.thisNode
      · simp [locations, hhome]
      · have hpending : c.pending id = [] := hempty
        simp [locations, hhome, hpending]

theorem entityEmigrated_handles (newNode : NodeType) (hc : c.recs.Roomy) :
    ∃ e, locations.Handles c (.entityEmigrated id newNode) e ∧ e.coord.recs.Roomy ∧
      KeepsDirectory c e.coord := by
  obtain ⟨recs, hupd, hroomy⟩ := hc.update_isSome id (c.makeRec id newNode)
  refine ⟨⟨{ c with localRegistered := c.localRegistered.erase id, recs }, [], []⟩,
    ⟨?_, rfl, rfl, ?_⟩, hroomy, fun _ => LocLookup.update_some_dir hupd⟩
  · intro outbox answers
    have hrec : ({ c with localRegistered := c.localRegistered.erase id } :
        Coordinator EntityID).makeRec id newNode = c.makeRec id newNode := rfl
    simp [locations, Coordinator.entityEmigrated, hrec, hupd]
  · intro _ key action hasked
    exact absurd hasked (by simp [locations])

theorem clearCache_handles (hc : c.recs.Roomy) :
    ∃ e, locations.Handles c .clearCache e ∧ e.coord.recs.Roomy ∧ KeepsDirectory c e.coord := by
  refine ⟨⟨{ c with recs := c.recs.clearCache }, [], []⟩, ⟨?_, rfl, rfl, ?_⟩, hc.clearCache,
    fun _ h => h⟩
  · intro outbox answers
    simp [locations, Coordinator.clearCache]
  · intro _ key action hasked
    exact absurd hasked (by simp [locations])

theorem locations_handles (call : LocationCall EntityID) (hc : c.recs.Roomy) :
    ∃ e, locations.Handles c call e ∧ e.coord.recs.Roomy ∧ KeepsDirectory c e.coord :=
  match call with
  | .getLocation id home action => getLocation_handles id home action hc
  | .entityEmigrated id newNode => entityEmigrated_handles id newNode hc
  | .clearCache => clearCache_handles hc

theorem locations_lawful :
    locations.Lawful fun c : Coordinator EntityID => c.recs.Roomy where
  handles _ call hc :=
    let ⟨e, he, hroomy, _⟩ := locations_handles call hc
    ⟨e, he, hroomy⟩
  erase _ _ := rfl
  erase_thisNode _ _ := rfl

/-- An existence call leaves the coordinator knowing what it knew. -/
theorem entityExists_handles (c : Coordinator EntityID) (call : ExistsCall EntityID) :
    ∃ e, existences.Handles c call e ∧ ∀ id, e.coord.isCached id = c.isCached id := by
  obtain ⟨id, home, action⟩ := call
  obtain ⟨hlocal, hknown⟩ | ⟨hlocal, hex, hknown⟩ | ⟨hlocal, hex, hknown⟩ := isCached_cases c id
  · refine ⟨⟨c, [], [⟨id, .existence c.thisNode action true c.thisNode⟩]⟩, ⟨?_, rfl, ?_, ?_⟩,
      fun _ => rfl⟩
    · intro outbox answers
      simp [existences, Coordinator.entityExists, hlocal]
    · simp [Reception.desk, Reception.event, existences, hknown, Flush.Desk.records,
        Flush.Desk.record]
    · intro hlater
      exact absurd hlater (by simp [existences, hknown])
  · obtain ⟨record, recs, hget, -⟩ := LocLookup.get_isSome hex
    obtain ⟨-, -, hslot⟩ := LocLookup.get_some hget
    refine ⟨⟨{ c with recs }, [], [⟨id, .existence c.thisNode action true record.getRemoteNode⟩]⟩,
      ⟨?_, rfl, ?_, ?_⟩, fun id' => ?_⟩
    · intro outbox answers
      simp [existences, Coordinator.entityExists, hlocal, hex, hget]
    · simp [Reception.desk, Reception.event, existences, hknown, Flush.Desk.records,
        Flush.Desk.record]
    · intro hlater
      exact absurd hlater (by simp [existences, hknown])
    · simp [isCached, LocLookup.exists_eq, hslot]
  · by_cases hhome : home = c.thisNode
    · refine ⟨⟨c, [], [⟨id, .existence c.thisNode action false noNode⟩]⟩, ⟨?_, rfl, ?_, ?_⟩,
        fun _ => rfl⟩
      · intro outbox answers
        simp [existences, Coordinator.entityExists, hlocal, hex, hhome]
      · simp [Reception.desk, Reception.event, existences, hhome, Flush.Desk.records,
          Flush.Desk.record]
      · intro hlater
        exact absurd hlater (by simp [existences, hhome])
    · refine ⟨⟨{ c with
          pendingExists := Function.update c.pendingExists id (c.pendingExists id ++ [action]) },
        if c.pendingExists id = [] then [(home, ⟨id, .existsRequest c.thisNode⟩)] else [], []⟩,
        ⟨?_, rfl, ?_, ?_⟩, fun _ => rfl⟩
      · intro outbox answers
        simp only [existences, Coordinator.entityExists, bind_run, getCoord_run, ite_run,
          Option.bind_some, modifyCoord_run, if_neg hlocal, hex, Bool.false_eq_true, if_false,
          if_neg hhome, List.length_append, List.length_singleton, Nat.add_eq_right,
          List.length_eq_zero_iff, send_run, List.append_nil]
        split <;> simp
      · simp [Reception.desk, Reception.event, existences, hknown, hhome, Flush.Desk.records,
          Flush.Desk.record]
      · rintro - key a hasked hempty
        obtain ⟨rfl, rfl⟩ := Prod.mk.inj (Option.some.inj hasked)
        have hpending : c.pendingExists id = [] := hempty
        simp [existences, hpending]

theorem existences_lawful : existences.Lawful fun _ : Coordinator EntityID => True where
  handles c call _ :=
    let ⟨e, he, _⟩ := entityExists_handles c call
    ⟨e, he, trivial⟩
  erase _ _ := rfl
  erase_thisNode _ _ := rfl

end Calls

/-! ### The walk -/

namespace Reception

variable {ι : Type} {R : Reception EntityID ι} {I : Coordinator EntityID → Prop}
  {id : EntityID} {k k' : Activation EntityID} {room room' : Flush.Room}

/-- A call does to the queues what its event does to the desk. -/
theorem Handles.desk_append {c : Coordinator EntityID} {call : ι} {e : Activation EntityID}
    (h : R.Handles c call e) (outbox outbox' : List (NodeType × ControlMsg EntityID))
    (answers : List (Invocation EntityID)) :
    R.desk ⟨e.coord, outbox', answers ++ e.answers⟩ =
      (R.desk ⟨c, outbox, answers⟩).records (R.event c call).toList := by
  have hdesk := h.desk
  rw [Flush.Desk.records_eq] at hdesk ⊢
  have hqueue := congrArg Flush.Desk.queue hdesk
  refine Flush.Desk.ext hqueue ?_
  have hlog : e.answers.filterMap R.answered = [] ++ _ := congrArg Flush.Desk.log hdesk
  simp only [Reception.desk, List.filterMap_append, hlog]
  rfl

/-- **Calls made by one callback**: what they do, and the room they take, is what their
events do and take. -/
theorem reenter_desk (hR : R.Lawful I) (id : EntityID) (room : Flush.Room) (calls : List ι)
    (hI : I k.coord) :
    (R.reenter id calls room k).map (fun x => (R.desk x.2, x.1)) =
      (R.trace k.coord calls).foldlM (Flush.serve id) (R.desk k, room) := by
  induction calls generalizing k room with
  | nil => rfl
  | cons call calls ih =>
      obtain ⟨e, he, hIe⟩ := hR.handles k.coord call hI
      have hdesk := he.desk_append k.outbox (k.outbox ++ e.outbox) k.answers
      have ih' : ∀ room, (R.reenter id calls room
          ⟨e.coord, k.outbox ++ e.outbox, k.answers ++ e.answers⟩).map
            (fun x => (R.desk x.2, x.1)) =
            (R.trace e.coord calls).foldlM (Flush.serve id)
              ((R.desk k).records (R.event k.coord call).toList, room) := by
        intro room
        rw [← hdesk]
        exact ih (k := ⟨e.coord, k.outbox ++ e.outbox, k.answers ++ e.answers⟩) room hIe
      rw [trace, he.after_eq, List.foldlM_append, reenter]
      simp only [bind_run, getCoord_run, Option.bind_some, he.run k.outbox k.answers, lift_run,
        grow]
      cases hasked : R.asked call with
      | none =>
          -- nothing is handed in, so there is no event and no room is taken
          have hevent : R.event k.coord call = none := by rw [event, hasked]; rfl
          rw [hevent] at ih' ⊢
          exact ih' room
      | some entry =>
          obtain ⟨key, action⟩ := entry
          obtain ⟨ev, hevent, hkey⟩ :
              ∃ ev, R.event k.coord call = some ev ∧ ev.entry = (key, action) := by
            rw [event, hasked]
            exact ⟨_, rfl, by split <;> rfl⟩
          rw [hevent] at ih' hdesk ⊢
          have hqueue : R.queue e.coord = ((R.desk k).record ev).queue :=
            congrArg Flush.Desk.queue hdesk
          -- The event takes the room that the growth of the queue takes.
          have hserve : [ev].foldlM (Flush.serve id) (R.desk k, room) =
              (room.grow id key (R.queue k.coord) ((R.desk k).record ev).queue).map
                fun room => ((R.desk k).record ev, room) := by
            rw [show key = ev.entry.1 by rw [hkey]]
            exact bind_pure _
          rw [Option.toList_some, hserve, hqueue]
          dsimp only
          cases room.grow id key (R.queue k.coord) ((R.desk k).record ev).queue with
          | none => rfl
          | some room => exact ih' room

/-- What holds at `k`, in the course of a flush that began at `c` and during which the
calls `made` are made. -/
structure Underway (R : Reception EntityID ι) (I : Coordinator EntityID → Prop)
    (c : Coordinator EntityID) (made : List ι) (k : Activation EntityID) : Prop where
  inv : I k.coord
  thisNode : k.coord.thisNode = c.thisNode
  requested : ∀ key action rest, R.queue k.coord key = action :: rest → R.queue c key ≠ [] ∨
    ∃ call ∈ made, R.asked call = some (key, action) ∧ R.request c.thisNode call ⊆ k.outbox

section Underway

variable {c : Coordinator EntityID} {made : List ι}

theorem underway_refl (made : List ι) (hI : I c) (outbox : List (NodeType × ControlMsg EntityID))
    (answers : List (Invocation EntityID)) : R.Underway I c made ⟨c, outbox, answers⟩ where
  inv := hI
  thisNode := rfl
  requested key action rest hqueue := .inl (by rw [hqueue]; simp)

/-- One call keeps what holds. -/
theorem Underway.step (h : R.Underway I c made k) {call : ι} (hcall : call ∈ made)
    {e : Activation EntityID} (he : R.Handles k.coord call e) (hI : I e.coord) :
    R.Underway I c made ⟨e.coord, k.outbox ++ e.outbox, k.answers ++ e.answers⟩ := by
  refine ⟨hI, he.thisNode.trans h.thisNode, fun key action rest hqueue => ?_⟩
  have hkept : ∀ {rest}, R.queue k.coord key = action :: rest → R.queue c key ≠ [] ∨
      ∃ call ∈ made, R.asked call = some (key, action) ∧
        R.request c.thisNode call ⊆ k.outbox ++ e.outbox := by
    intro rest hold
    obtain hc | ⟨call', hmade, hasked, hreq⟩ := h.requested key action _ hold
    · exact .inl hc
    · exact .inr ⟨call', hmade, hasked, List.subset_append_of_subset_left _ hreq⟩
  have hnew : R.queue e.coord key = action :: rest := hqueue
  obtain hsame | ⟨key', action', hasked, hlater, hpush⟩ := he.queue_cases
  · exact hkept (by rw [← hsame]; exact hnew)
  · rw [hpush] at hnew
    by_cases hkey : key = key'
    · subst hkey
      rw [Function.update_self] at hnew
      cases hold : R.queue k.coord key with
      | nil =>
          -- The call opened this queue: it is the first and has sent the request.
          rw [hold] at hnew
          obtain ⟨rfl, -⟩ := List.cons.inj hnew
          have hreq := he.request hlater key action' hasked hold
          rw [h.thisNode] at hreq
          exact .inr ⟨call, hcall, hasked, List.subset_append_of_subset_right _ hreq⟩
      | cons first others =>
          -- Whoever was first still is.
          rw [hold] at hnew
          obtain ⟨rfl, -⟩ := List.cons.inj hnew
          exact hkept hold
    · rw [Function.update_of_ne hkey] at hnew
      exact hkept hnew

/-- The calls of one callback keep what holds, and only add invocations. -/
theorem reenter_some (hR : R.Lawful I) {calls : List ι} (hcalls : ∀ call ∈ calls, call ∈ made)
    (hk : R.Underway I c made k) (h : R.reenter id calls room k = some (room', k')) :
    R.Underway I c made k' ∧ k'.coord = calls.foldl R.after k.coord ∧
      k.answers <+: k'.answers := by
  induction calls generalizing k room with
  | nil =>
      obtain ⟨-, rfl⟩ := Prod.mk.inj (Option.some.inj h)
      exact ⟨hk, rfl, List.prefix_rfl⟩
  | cons call calls ih =>
      obtain ⟨e, he, hIe⟩ := hR.handles k.coord call hk.inv
      rw [reenter] at h
      simp only [bind_run, getCoord_run, Option.bind_some, he.run k.outbox k.answers, lift_run,
        Option.bind_assoc] at h
      have hstep := hk.step (hcalls call List.mem_cons_self) he hIe
      obtain ⟨room₁, -, hrest⟩ := Option.bind_eq_some_iff.mp h
      obtain ⟨hk', hcoord, hgrown⟩ :=
        ih (fun call h => hcalls call (List.mem_cons_of_mem _ h)) hstep hrest
      refine ⟨hk', ?_, (List.prefix_append ..).trans hgrown⟩
      rw [hcoord, List.foldl_cons, he.after_eq]

/-- The events of a walk: each callback that waited is invoked, then its calls are made. -/
def events (R : Reception EntityID ι) (id : EntityID) (c : Coordinator EntityID) :
    List (Nat × List ι) → List (Flush.Event EntityID Nat)
  | [] => []
  | (action, calls) :: turns =>
      .answered id action :: (R.trace c calls ++ events R id (calls.foldl R.after c) turns)

theorem trace_append (c : Coordinator EntityID) (l l' : List ι) :
    R.trace c (l ++ l') = R.trace c l ++ R.trace (l.foldl R.after c) l' := by
  induction l generalizing c with
  | nil => rfl
  | cons call l ih => simp [trace, ih]

/-- What a walk queues is what the calls queue. -/
theorem pushes_events (id : EntityID) (c : Coordinator EntityID) (turns : List (Nat × List ι)) :
    Flush.pushes (R.events id c turns) =
      Flush.pushes (R.trace c (turns.map Prod.snd).flatten) := by
  induction turns generalizing c with
  | nil => rfl
  | cons turn turns ih =>
      obtain ⟨action, calls⟩ := turn
      rw [events, Flush.pushes_answered, List.map_cons, List.flatten_cons, trace_append,
        Flush.pushes_append, Flush.pushes_append, ih]

/-- Every callback a call hands in has its event. -/
theorem trace_entries (c : Coordinator EntityID) (calls : List ι) :
    (R.trace c calls).map Flush.Event.entry = calls.filterMap R.asked := by
  induction calls generalizing c with
  | nil => rfl
  | cons call calls ih =>
      rw [trace, List.map_append, ih]
      cases hasked : R.asked call with
      | none => simp [event, hasked]
      | some entry =>
          simp only [event, hasked, List.filterMap_cons, Option.map_some, Option.toList_some,
            List.map_cons, List.map_nil, List.singleton_append, List.cons.injEq, and_true]
          split <;> rfl

/-- The events of a walk are the callbacks that waited, and those handed in. -/
theorem events_entries_perm (id : EntityID) (c : Coordinator EntityID)
    (turns : List (Nat × List ι)) :
    ((R.events id c turns).map Flush.Event.entry).Perm
      ((turns.map Prod.fst).map (Prod.mk id) ++
        ((turns.map Prod.snd).flatten).filterMap R.asked) := by
  induction turns generalizing c with
  | nil => exact .nil
  | cons turn turns ih =>
      obtain ⟨action, calls⟩ := turn
      simp only [events, List.map_cons, List.map_append, trace_entries, List.flatten_cons,
        List.filterMap_append, List.cons_append, Flush.Event.entry]
      refine List.Perm.cons _ ?_
      exact ((ih _).append_left _).trans (List.perm_append_comm_assoc ..)

section Walk

variable {invoke : Nat → CoordM EntityID Unit} {invocation : Nat → Invocation EntityID}
  {turns : List (Nat × List ι)} (hR : R.Lawful I)
  (hinvoke : ∀ action k, k.coord.thisNode = c.thisNode →
    invoke action k = some ((), { k with answers := k.answers ++ [invocation action] }))
  (hcalls : ∀ turn ∈ turns, ∀ call ∈ turn.2, call ∈ made)

include hR hinvoke hcalls

/-- A walk keeps what holds, and invokes whoever waited, in the order queued. -/
theorem walk_some (hk : R.Underway I c made k)
    (h : R.walk id invoke turns room k = some (room', k')) :
    R.Underway I c made k' ∧
      (k.answers ++ (turns.map Prod.fst).map invocation).Sublist k'.answers := by
  induction turns generalizing k room with
  | nil =>
      obtain ⟨-, rfl⟩ := Prod.mk.inj (Option.some.inj h)
      exact ⟨hk, by simp⟩
  | cons turn turns ih =>
      obtain ⟨action, calls⟩ := turn
      rw [walk, bind_run, hinvoke action k hk.thisNode, Option.bind_some, bind_run] at h
      obtain ⟨⟨room₁, k₁⟩, hreenter, hrest⟩ := Option.bind_eq_some_iff.mp h
      have hk₁ : R.Underway I c made { k with answers := k.answers ++ [invocation action] } :=
        ⟨hk.inv, hk.thisNode, hk.requested⟩
      obtain ⟨hk₂, -, hgrown⟩ := reenter_some hR (hcalls _ List.mem_cons_self) hk₁ hreenter
      obtain ⟨hk', hsub⟩ :=
        ih (fun turn hturn => hcalls turn (List.mem_cons_of_mem _ hturn)) hk₂ hrest
      refine ⟨hk', ?_⟩
      rw [List.map_cons, List.map_cons, List.append_cons]
      exact (hgrown.sublist.append_right _).trans hsub

/-- **A walk**: what it does, and the room it takes, is what its events do and take. -/
theorem walk_desk (hanswered : ∀ action, R.answered (invocation action) = some (id, action))
    (room : Flush.Room) (hk : R.Underway I c made k) :
    (R.walk id invoke turns room k).map (fun x => (R.desk x.2, x.1)) =
      (R.events id k.coord turns).foldlM (Flush.serve id) (R.desk k, room) := by
  induction turns generalizing k room with
  | nil => rfl
  | cons turn turns ih =>
      obtain ⟨action, calls⟩ := turn
      have hk₁ : R.Underway I c made { k with answers := k.answers ++ [invocation action] } :=
        ⟨hk.inv, hk.thisNode, hk.requested⟩
      have hdesk : R.desk { k with answers := k.answers ++ [invocation action] } =
          (R.desk k).record (.answered id action) := by
        simp [desk, Flush.Desk.record, hanswered]
      have hreenter := reenter_desk hR id room calls hk₁.inv
      rw [hdesk] at hreenter
      rw [walk, bind_run, hinvoke action k hk.thisNode, Option.bind_some, bind_run, events,
        List.foldlM_cons, Flush.serve_answered]
      show _ = (List.foldlM (Flush.serve id) _ (_ ++ _) : Option _)
      rw [List.foldlM_append, ← hreenter]
      cases hr : R.reenter id calls room
          { k with answers := k.answers ++ [invocation action] } with
      -- A container has moved under the loop.
      | none => rfl
      | some x =>
          obtain ⟨hk₂, hcoord, -⟩ := reenter_some hR (hcalls _ List.mem_cons_self) hk₁ hr
          rw [← hcoord]
          exact ih (fun turn hturn => hcalls turn (List.mem_cons_of_mem _ hturn)) _ hk₂

end Walk

/-- What a flush promises is what its walk left, if no callback was lost. -/
theorem served_iff (hR : R.Lawful I) {invocation : Nat → Invocation EntityID}
    (outbox : List (NodeType × ControlMsg EntityID)) (hk : R.Underway I c made k)
    (hsub : ((R.queue c id).map invocation).Sublist k.answers) :
    R.Served c id invocation made { k with coord := R.erase id k.coord } ↔
      Flush.Conserved (R.desk ⟨c, outbox, []⟩) ((R.desk k).erase id)
        (made.filterMap R.asked) := by
  have hqueue : R.queue (R.erase id k.coord) = ((R.desk k).erase id).queue := hR.erase id k.coord
  constructor
  · intro h key action
    rw [← hqueue]
    exact h.conserved key action
  · intro h
    refine ⟨hsub, fun key action => ?_, fun key action rest hnew => ?_⟩
    · rw [hqueue]
      exact h key action
    · -- The queue of `id` is erased, so whoever still waits does so for another entity.
      have hne : key ≠ id := by
        rintro rfl
        rw [hR.erase, Function.update_self] at hnew
        exact absurd hnew (by simp)
      rw [hR.erase, Function.update_of_ne hne] at hnew
      exact (hk.requested key action rest hnew).imp_left fun hold => ⟨hne, hold⟩

theorem turns_fst (react : Nat → List ι) (c : Coordinator EntityID) (id : EntityID) :
    (R.turns react c id).map Prod.fst = R.queue c id :=
  List.ext_getElem (by simp [turns]) fun i _ _ => by simp [turns]

/-- **Exactness of a flush.** It returns and keeps its promise exactly when no callback
is queued for the entity that is flushed, and the table has room for the queues opened. -/
theorem flush_served_iff (hR : R.Lawful I) {invoke : Nat → CoordM EntityID Unit}
    {invocation : Nat → Invocation EntityID} (react : Nat → List ι) (room : Flush.Room) (hI : I c)
    (hinvoke : ∀ action k, k.coord.thisNode = c.thisNode →
      invoke action k = some ((), { k with answers := k.answers ++ [invocation action] }))
    (hanswered : ∀ action, R.answered (invocation action) = some (id, action))
    (outbox : List (NodeType × ControlMsg EntityID)) :
    (∃ k, R.flush react room id invoke ⟨c, outbox, []⟩ = some ((), k) ∧
      R.Served c id invocation (R.made react c id) k) ↔
    (∀ action, .queued id action ∉ R.trace c (R.made react c id)) ∧
      (Flush.opened (R.queue c) (R.trace c (R.made react c id))).card ≤ room.slack := by
  have hcalls : ∀ turn ∈ R.turns react c id, ∀ call ∈ turn.2, call ∈ R.made react c id :=
    fun turn hturn call hcall => List.mem_flatten.mpr ⟨turn.2, List.mem_map_of_mem hturn, hcall⟩
  have hstart := underway_refl (R := R) (R.made react c id) hI outbox []
  have hdesk := walk_desk hR hinvoke hcalls hanswered room hstart
  have hpushes := pushes_events (R := R) id c (R.turns react c id)
  have hperm := events_entries_perm (R := R) id c (R.turns react c id)
  -- The events are those of the calls, and the invocations of whoever waited.
  have hsum := Flush.flush_conserves_iff (R.desk ⟨c, outbox, []⟩) room
    (by rw [turns_fst] at hperm; exact hperm)
  rw [Flush.not_queued_congr hpushes, Flush.opened_congr hpushes, Flush.flush, ← hdesk] at hsum
  refine Iff.trans ?_ hsum
  simp only [flush, bind_run, getCoord_run, Option.bind_some, modifyCoord_run]
  constructor
  · rintro ⟨k, hflush, hserved⟩
    obtain ⟨⟨room₁, k₁⟩, hwalk, hk⟩ := Option.bind_eq_some_iff.mp hflush
    obtain rfl := (Prod.mk.inj (Option.some.inj hk)).2
    obtain ⟨hk₁, hsub⟩ := walk_some hR hinvoke hcalls hstart hwalk
    refine ⟨(R.desk k₁).erase id, by rw [hwalk]; rfl, ?_⟩
    exact (served_iff hR outbox hk₁ (by simpa [turns_fst] using hsub)).mp hserved
  · rintro ⟨d, hflush, hcons⟩
    cases hwalk : R.walk id invoke (R.turns react c id) room ⟨c, outbox, []⟩ with
    | none =>
        rw [hwalk] at hflush
        exact absurd hflush (by simp)
    | some x =>
        obtain ⟨room₁, k₁⟩ := x
        rw [hwalk] at hflush
        obtain rfl : (R.desk k₁).erase id = d := Option.some.inj hflush
        obtain ⟨hk₁, hsub⟩ := walk_some hR hinvoke hcalls hstart hwalk
        exact ⟨_, rfl, (served_iff hR outbox hk₁ (by simpa [turns_fst] using hsub)).mpr hcons⟩

/-- The same for a flush that a handler begins at `c₁`, where it has touched neither the
queues nor the rank of `c`. -/
theorem flush_served_iff_from (hR : R.Lawful I) (c c₁ : Coordinator EntityID)
    (id : EntityID) (room : Flush.Room) (react : Nat → List ι)
    {invoke : Nat → CoordM EntityID Unit} {invocation : Nat → Invocation EntityID}
    (hI : I c₁) (hqueue : R.queue c₁ = R.queue c)
    (hnode : c₁.thisNode = c.thisNode)
    (hinvoke : ∀ action k, k.coord.thisNode = c.thisNode →
      invoke action k = some ((), { k with answers := k.answers ++ [invocation action] }))
    (hanswered : ∀ action, R.answered (invocation action) = some (id, action))
    (outbox : List (NodeType × ControlMsg EntityID)) :
    (∃ k, R.flush react room id invoke ⟨c₁, outbox, []⟩ = some ((), k) ∧
      R.Served c id invocation (R.made react c id) k) ↔
    (∀ action, .queued id action ∉ R.trace c₁ (R.made react c id)) ∧
      (Flush.opened (R.queue c) (R.trace c₁ (R.made react c id))).card ≤ room.slack := by
  have hmade : R.made react c₁ id = R.made react c id := by
    rw [made, turns, hqueue]
    rfl
  have hiff := flush_served_iff hR react room hI
    (fun action k hk => hinvoke action k (hk.trans hnode)) hanswered outbox
  rw [hmade, hqueue] at hiff
  rw [← hiff]
  simp only [served_congr hqueue hnode]

end Underway

end Reception

/-! ### When nothing is lost -/

section Conditions

/-- The coordinator that has stored a resolution. -/
def learned (c : Coordinator EntityID) (id : EntityID) (node : NodeType) :
    Coordinator EntityID :=
  { c with recs := (c.recs.update id (c.makeRec id node)).getD c.recs }

/-- The coordinator that has stored what an existence response says. -/
def heard (c : Coordinator EntityID) (id : EntityID) (ex : Bool) (node : NodeType) :
    Coordinator EntityID :=
  if ex then learned c id node else c

/-- The coordinator that has stored an announced location and answered those who asked. -/
def announced (c : Coordinator EntityID) (id : EntityID) (node : NodeType) :
    Coordinator EntityID :=
  { c with
    recs := (c.recs.insert id c.thisNode (c.makeRec id node)).getD c.recs
    pendingHome := Function.update c.pendingHome id []
    locAsks := Function.update c.locAsks id
      (Entity.remember (c.locAsks id) (c.pendingHome id)) }

/-- Whenever one of the calls asks for the location of `id`, it is known. -/
def KnownWhenAsked (id : EntityID) (c : Coordinator EntityID) :
    List (LocationCall EntityID) → Prop
  | [] => True
  | call :: calls =>
      ((locations.asked call).map Prod.fst = some id → c.isCached id = true) ∧
        KnownWhenAsked id (locations.after c call) calls

instance decidableKnownWhenAsked (id : EntityID) :
    (c : Coordinator EntityID) → (calls : List (LocationCall EntityID)) →
      Decidable (KnownWhenAsked id c calls)
  | _, [] => isTrue trivial
  | c, call :: calls =>
      @instDecidableAnd _ _ (inferInstanceAs (Decidable (_ → _)))
        (decidableKnownWhenAsked id (locations.after c call) calls)

/-- No location callback is queued for `id` exactly when `id` is known whenever it is
asked for. -/
theorem not_queued_iff {id : EntityID} {c : Coordinator EntityID}
    {calls : List (LocationCall EntityID)} :
    (∀ action, .queued id action ∉ locations.trace c calls) ↔ KnownWhenAsked id c calls := by
  induction calls generalizing c with
  | nil => simp [Reception.trace, KnownWhenAsked]
  | cons call calls ih =>
      simp only [Reception.trace, List.mem_append, not_or, forall_and, KnownWhenAsked, ih]
      refine and_congr_left fun _ => ?_
      cases call with
      | getLocation key home action =>
          cases hknown : c.isCached key with
          | true =>
              have hevent : locations.event c (.getLocation key home action) =
                  some (.answered key action) := by
                simp [Reception.event, locations, hknown]
              simp only [hevent, Option.toList_some, List.mem_singleton, reduceCtorEq,
                not_false_eq_true, implies_true, true_iff]
              intro hid
              obtain rfl : key = id := Option.some.inj hid
              exact hknown
          | false =>
              have hevent : locations.event c (.getLocation key home action) =
                  some (.queued key action) := by
                simp [Reception.event, locations, hknown]
              simp only [hevent, Option.toList_some, List.mem_singleton]
              constructor
              · intro hnone hid
                obtain rfl : key = id := Option.some.inj hid
                exact absurd rfl (hnone action)
              · rintro hid a heq
                obtain ⟨rfl, -⟩ := Flush.Event.queued.inj heq
                exact absurd (hknown.symm.trans (hid rfl)) (by simp)
      | entityEmigrated key newNode => simp [Reception.event, locations]
      | clearCache => simp [Reception.event, locations]

/-- What becomes of an existence callback depends on what the coordinator knows. -/
theorem existences_event_congr {c c' : Coordinator EntityID} (hnode : c'.thisNode = c.thisNode)
    (hknown : ∀ id, c'.isCached id = c.isCached id) :
    existences.event c' = existences.event c := by
  funext call
  simp [Reception.event, existences, hnode, hknown]

/-- Existence calls leave everything as known as it is, so what becomes of their callbacks
is settled where the flush begins. -/
theorem existences_trace (c : Coordinator EntityID) (calls : List (ExistsCall EntityID)) :
    existences.trace c calls = calls.filterMap (existences.event c) := by
  induction calls generalizing c with
  | nil => rfl
  | cons call calls ih =>
      obtain ⟨e, he, hknown⟩ := entityExists_handles c call
      rw [Reception.trace, he.after_eq, ih, existences_event_congr he.thisNode hknown,
        List.filterMap_cons]
      cases existences.event c call <;> rfl

theorem existences_not_queued_iff {id : EntityID} {c : Coordinator EntityID}
    {calls : List (ExistsCall EntityID)} :
    (∀ action, .queued id action ∉ existences.trace c calls) ↔
      ∀ call ∈ calls, call.id = id → c.isCached id = true ∨ call.home = c.thisNode := by
  rw [existences_trace]
  simp only [List.mem_filterMap, not_exists, not_and]
  constructor
  · rintro h call hcall rfl
    by_contra hlater
    refine h call.action call hcall ?_
    simp only [not_or, Bool.not_eq_true] at hlater
    simp [Reception.event, existences, hlater]
  · intro h action call hcall hevent
    cases hnow : existences.atOnce c call with
    | true =>
        rw [Reception.event, hnow] at hevent
        exact absurd hevent (by simp [existences])
    | false =>
        rw [Reception.event, hnow] at hevent
        obtain ⟨hid, -⟩ := Flush.Event.queued.inj (Option.some.inj hevent)
        have hlater := h call hcall hid
        simp only [existences, Bool.or_eq_false_iff, decide_eq_false_iff_not] at hnow
        rw [show call.id = id from hid] at hnow
        exact hlater.elim (fun hknown => absurd (hnow.1.symm.trans hknown) (by simp)) hnow.2

theorem isCached_heard {c : Coordinator EntityID} {id : EntityID} {ex : Bool} (node : NodeType)
    (hdef : ex = true → (c.recs.update id (c.makeRec id node)).isSome) :
    (heard c id ex node).isCached id = true ↔ ex = true ∨ c.isCached id = true := by
  cases ex with
  | false => simp [heard]
  | true =>
      obtain ⟨recs, hupd⟩ := Option.isSome_iff_exists.mp (hdef rfl)
      obtain ⟨-, hself, -⟩ := LocLookup.update_some hupd
      simp only [heard, learned, if_true, hupd, Option.getD_some, isCached, Bool.or_eq_true,
        true_or, iff_true]
      right
      rw [LocLookup.exists_eq, hself]
      unfold LocLookup.Slot.updated LocLookup.Slot.value
      cases (c.recs.slot id).dir <;> simp

theorem existsResponse_serves_iff (c : Coordinator EntityID) (room : Flush.Room) (id : EntityID)
    (node : NodeType) (ex : Bool) (react : Nat → List (ExistsCall EntityID)) :
    ExistsResponseServes c room id node ex react ↔
      (ex = true → (c.recs.update id (c.makeRec id node)).isSome) ∧
      (∀ action, .queued id action ∉
        existences.trace (heard c id ex node) (existences.made react c id)) ∧
      (Flush.opened c.pendingExists
        (existences.trace (heard c id ex node) (existences.made react c id))).card ≤
          room.slack := by
  have hinvoke : ∀ action (k : Activation EntityID), k.coord.thisNode = c.thisNode →
      invokeExistsAction id action ex node k = some ((), { k with answers :=
        k.answers ++ [⟨id, .existence c.thisNode action ex node⟩] }) := by
    intro action k hk
    rw [invokeExistsAction_run, hk]
  have hflush := fun c₁ hqueue hnode =>
    Reception.flush_served_iff_from existences_lawful c c₁ id room react trivial hqueue hnode
      hinvoke (fun _ => rfl) []
  cases ex with
  | false =>
      simp only [ExistsResponseServes, existsResponse, heard, Bool.false_eq_true, if_false,
        false_implies, true_and]
      exact hflush c rfl rfl
  | true =>
      simp only [ExistsResponseServes, existsResponse, heard, learned, if_true, bind_run,
        recsUpdate_run]
      cases hupd : c.recs.update id (c.makeRec id node) with
      | none => simp
      | some recs =>
          simp only [Option.bind_some, Option.isSome_some, implies_true, true_and,
            Option.getD_some]
          exact hflush { c with recs } rfl rfl

theorem invokeNodeAction_from {c : Coordinator EntityID} (id : EntityID) (node : NodeType)
    (action : NodeAction) (k : Activation EntityID) (hk : k.coord.thisNode = c.thisNode) :
    invokeNodeAction id action node k = some ((), { k with answers :=
      k.answers ++ [⟨id, .located c.thisNode action node⟩] }) := by
  rw [invokeNodeAction_run, hk]

theorem resolveResponse_serves_iff {c : Coordinator EntityID} (hc : c.recs.Roomy)
    (room : Flush.Room) (id : EntityID) (node : NodeType)
    (react : Nat → List (LocationCall EntityID)) :
    ResolveResponseServes c room id node react ↔
      KnownWhenAsked id (learned c id node) (locations.made react c id) ∧
      (Flush.opened c.pending
        (locations.trace (learned c id node) (locations.made react c id))).card ≤ room.slack := by
  obtain ⟨recs, hupd, hroomy⟩ := hc.update_isSome id (c.makeRec id node)
  have hlearned : learned c id node = { c with recs } := by rw [learned, hupd]; rfl
  rw [← not_queued_iff, hlearned]
  refine Iff.trans ?_ (Reception.flush_served_iff_from locations_lawful c { c with recs } id
    room react hroomy rfl rfl (invokeNodeAction_from id node) (fun _ => rfl) [])
  simp only [ResolveResponseServes, resolveResponse, bind_run, recsUpdate_run, hupd,
    Option.bind_some]
  rfl

theorem announceLocation_serves_iff {c : Coordinator EntityID} (hc : c.recs.Roomy)
    (room : Flush.Room) (id : EntityID) (node : NodeType)
    (react : Nat → List (LocationCall EntityID)) :
    AnnounceLocationServes c room id node react ↔
      KnownWhenAsked id (announced c id node) (locations.made react c id) ∧
      (Flush.opened c.pending
        (locations.trace (announced c id node) (locations.made react c id))).card ≤
          room.slack := by
  obtain ⟨recs, hins, hroomy⟩ := hc.insert_isSome id c.thisNode (c.makeRec id node)
  have hannounced : (announced c id node).recs = recs := by rw [announced, hins]; rfl
  rw [← not_queued_iff]
  refine Iff.trans ?_ (Reception.flush_served_iff_from locations_lawful c
    (announced c id node) id room react (by rw [hannounced]; exact hroomy) rfl rfl
    (invokeNodeAction_from id node) (fun _ => rfl)
    ((c.locAsks id ++ c.pendingHome id).map fun q => (q, ⟨id, .resolveResponse node⟩)))
  have hrun : announceLocation room id node react ⟨c, [], []⟩ =
      flushPending room id node react ⟨announced c id node,
        (c.locAsks id ++ c.pendingHome id).map fun q => (q, ⟨id, .resolveResponse node⟩), []⟩ := by
    simp [announceLocation, announced, hins, forM_send, forM_remember]
  rw [AnnounceLocationServes, hrun]
  rfl

/-- What is in the directory is known whenever it is asked for. -/
theorem knownWhenAsked_of_directory {c : Coordinator EntityID} {id : EntityID}
    (hc : c.recs.Roomy) (hdir : (c.recs.slot id).dir.isSome)
    (calls : List (LocationCall EntityID)) : KnownWhenAsked id c calls := by
  induction calls generalizing c with
  | nil => trivial
  | cons call calls ih =>
      obtain ⟨e, he, hroomy, hkept⟩ := locations_handles call hc
      refine ⟨fun _ => ?_, ?_⟩
      · -- the directory answers first, whatever the cache has lost
        simp [isCached, LocLookup.exists_eq, LocLookup.Slot.value, hdir]
      · rw [he.after_eq]
        exact ih hroomy (hkept id hdir)

/-- The home has in its directory what was announced to it. -/
theorem knownWhenAsked_announced {c : Coordinator EntityID} (hc : c.recs.Roomy)
    (hplaced : c.WellPlaced) (id : EntityID) (node : NodeType)
    (calls : List (LocationCall EntityID)) :
    KnownWhenAsked id (announced c id node) calls := by
  obtain ⟨recs, hins, hroomy⟩ := hc.insert_isSome id c.thisNode (c.makeRec id node)
  have hannounced : (announced c id node).recs = recs := by rw [announced, hins]; rfl
  rw [← hplaced] at hins
  obtain ⟨-, hself, -⟩ := LocLookup.insert_some_home hins
  refine knownWhenAsked_of_directory ?_ ?_ calls
  · rw [hannounced]
    exact hroomy
  · rw [hannounced, hself]
    rfl

end Conditions

end Reentrant

end Loc
