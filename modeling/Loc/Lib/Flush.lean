import Mathlib.Data.Finset.Card
import Mathlib.Data.Finset.Filter
import Mathlib.Data.List.Count
import Mathlib.Logic.Function.Basic

/-!
# Loc.Lib.Flush

Flushing a queue of callbacks **that may queue more callbacks** while they run.

There is a table of queues, one for every key. A flush walks the queue of one key,
invokes what it finds, and in the end erases the entry. What happens on the way is a
list of events: a callback is invoked, or queued. Walking a container that grows is
only allowed while the container stays where it is, which `Room` accounts for.

* `Desk.records_eq` — the log and the queues after a list of events.
* `flush_some_iff` — when a flush that queues nothing for its own key returns.
* `conserved_iff` — a flush loses no callback exactly when nothing was queued for
  the key it flushed.
* `flush_conserves_iff` — both together, in terms of the events alone.
-/

namespace Flush

/-- What the containers take before they move: callbacks in the queue being walked,
and queues in the table. -/
structure Room where
  spare : Nat
  slack : Nat
  deriving DecidableEq, Repr

/-- The queues, and the callbacks invoked so far. -/
@[ext]
structure Desk (K α : Type*) where
  queue : K → List α
  log : List (K × α)

/-- What becomes of a callback that is handed in. -/
inductive Event (K α : Type*)
  | answered (key : K) (a : α)
  | queued (key : K) (a : α)
  deriving DecidableEq, Repr

variable {K α : Type*}

namespace Event

/-- The callback, with its key. -/
def entry : Event K α → K × α
  | .answered key a => (key, a)
  | .queued key a => (key, a)

def answer? : Event K α → Option (K × α)
  | .answered key a => some (key, a)
  | .queued _ _ => none

def push? : Event K α → Option (K × α)
  | .answered _ _ => none
  | .queued key a => some (key, a)

end Event

/-- The callbacks that were invoked. -/
def answers (es : List (Event K α)) : List (K × α) := es.filterMap Event.answer?

/-- The callbacks that were queued. -/
def pushes (es : List (Event K α)) : List (K × α) := es.filterMap Event.push?

section Lists

variable (es : List (Event K α)) (key : K) (a : α)

@[simp] theorem answers_nil : answers ([] : List (Event K α)) = [] := rfl

@[simp] theorem answers_answered :
    answers (.answered key a :: es) = (key, a) :: answers es := rfl

@[simp] theorem answers_queued : answers (.queued key a :: es) = answers es := rfl

@[simp] theorem pushes_nil : pushes ([] : List (Event K α)) = [] := rfl

@[simp] theorem pushes_answered : pushes (.answered key a :: es) = pushes es := rfl

@[simp] theorem pushes_queued : pushes (.queued key a :: es) = (key, a) :: pushes es := rfl

theorem pushes_append (l l' : List (Event K α)) : pushes (l ++ l') = pushes l ++ pushes l' :=
  List.filterMap_append ..

/-- Every callback handed in was invoked or queued. -/
theorem answers_append_pushes_perm (es : List (Event K α)) :
    (answers es ++ pushes es).Perm (es.map Event.entry) := by
  induction es with
  | nil => exact .nil
  | cons e es ih =>
      cases e with
      | answered key a => exact ih.cons _
      | queued key a => exact List.perm_middle.trans (ih.cons _)

end Lists

variable [DecidableEq K]

/-- What was queued for one key, in order. -/
def pushesAt (key : K) (es : List (Event K α)) : List α :=
  ((pushes es).filter fun p => p.1 = key).map Prod.snd

@[simp] theorem pushesAt_nil (key : K) : pushesAt key ([] : List (Event K α)) = [] := rfl

@[simp] theorem pushesAt_answered (es : List (Event K α)) (key k : K) (a : α) :
    pushesAt key (.answered k a :: es) = pushesAt key es := rfl

theorem pushesAt_queued (es : List (Event K α)) (key k : K) (a : α) :
    pushesAt key (.queued k a :: es) =
      if k = key then a :: pushesAt key es else pushesAt key es := by
  by_cases h : k = key <;> simp [pushesAt, h]

/-- Nothing was queued for a key when every event for it is an answer. -/
theorem pushesAt_eq_nil_iff {key : K} {es : List (Event K α)} :
    pushesAt key es = [] ↔ ∀ a, .queued key a ∉ es := by
  induction es with
  | nil => simp
  | cons e es ih =>
      cases e with
      | answered k a => simp [ih]
      | queued k a =>
          rw [pushesAt_queued]
          by_cases h : k = key
          · subst h
            exact iff_of_false (by simp) fun hnone => hnone a List.mem_cons_self
          · simp [h, ih, Ne.symm h]

/-- Which callbacks are queued for a key is read off `pushes`. -/
theorem not_queued_congr {key : K} {l l' : List (Event K α)} (h : pushes l = pushes l') :
    (∀ a, .queued key a ∉ l) ↔ ∀ a, .queued key a ∉ l' := by
  rw [← pushesAt_eq_nil_iff, ← pushesAt_eq_nil_iff, pushesAt, pushesAt, h]

/-! ### The desk -/

namespace Desk

variable (d : Desk K α)

/-- Enter an event. -/
def record : Event K α → Desk K α
  | .answered key a => { d with log := d.log ++ [(key, a)] }
  | .queued key a => { d with queue := Function.update d.queue key (d.queue key ++ [a]) }

def records (es : List (Event K α)) : Desk K α := es.foldl record d

/-- Erase the entry of `key`. -/
def erase (key : K) : Desk K α := { d with queue := Function.update d.queue key [] }

/-- **Balance.** The log grew by what was invoked, the queues by what was queued. -/
theorem records_eq (es : List (Event K α)) :
    d.records es = ⟨fun key => d.queue key ++ pushesAt key es, d.log ++ answers es⟩ := by
  induction es generalizing d with
  | nil => simp [records]
  | cons e es ih =>
      rw [records, List.foldl_cons, ← records, ih]
      cases e with
      | answered key a => simp [record]
      | queued key a =>
          refine Desk.ext (funext fun k => ?_) rfl
          show (d.record (.queued key a)).queue k ++ pushesAt k es =
            d.queue k ++ pushesAt k (.queued key a :: es)
          rw [pushesAt_queued]
          by_cases hk : key = k
          · subst hk
            simp [record]
          · simp [record, hk, Ne.symm hk]

end Desk

/-! ### Room -/

/-- The room left after the queue of `key` grew, while the queue of `id` is walked. A
queue that moves while it is walked, or a table that does, has no result. -/
def Room.grow (room : Room) (id key : K) (before after : K → List α) : Option Room :=
  if (after key).length ≤ (before key).length then some room
  else if key = id then
    if room.spare = 0 then none else some { room with spare := room.spare - 1 }
  else if (before key).length = 0 then
    if room.slack = 0 then none else some { room with slack := room.slack - 1 }
  else some room

/-- Enter an event during the flush of `id`. -/
def serve (id : K) (s : Desk K α × Room) (e : Event K α) : Option (Desk K α × Room) :=
  (s.2.grow id e.entry.1 s.1.queue (s.1.record e).queue).map fun room => (s.1.record e, room)

/-- Enter events, then erase the entry of `id`. -/
def flush (id : K) (s : Desk K α × Room) (es : List (Event K α)) : Option (Desk K α) :=
  (es.foldlM (serve id) s).map fun s => s.1.erase id

/-- The keys whose queue was opened: they had none, and now have one. -/
def opened (queue : K → List α) (es : List (Event K α)) : Finset K :=
  ((pushes es).map Prod.fst).toFinset.filter fun key => (queue key).length = 0

theorem opened_congr {queue : K → List α} {l l' : List (Event K α)} (h : pushes l = pushes l') :
    opened queue l = opened queue l' := by
  rw [opened, opened, h]

section Serve

variable {id : K} {d d' : Desk K α} {room room' : Room}

@[simp] theorem serve_answered (key : K) (a : α) :
    serve id (d, room) (.answered key a) = some (d.record (.answered key a), room) := by
  simp [serve, Room.grow, Desk.record]

theorem serve_queued (key : K) (a : α) :
    serve id (d, room) (.queued key a) =
      (if key = id then
        if room.spare = 0 then none else some { room with spare := room.spare - 1 }
      else if (d.queue key).length = 0 then
        if room.slack = 0 then none else some { room with slack := room.slack - 1 }
      else some room).map fun room => (d.record (.queued key a), room) := by
  have hgrown : ¬ (d.queue key).length + 1 ≤ (d.queue key).length := Nat.not_succ_le_self _
  simp only [serve, Room.grow, Desk.record, Event.entry, Function.update_self,
    List.length_append, List.length_singleton, if_neg hgrown]

/-- Whatever the room, the desk records the events. -/
theorem foldlM_serve_desk {es : List (Event K α)}
    (h : es.foldlM (serve id) (d, room) = some (d', room')) : d' = d.records es := by
  induction es generalizing d room with
  | nil => exact (Prod.mk.inj (Option.some.inj h)).1.symm
  | cons e es ih =>
      rw [List.foldlM_cons] at h
      obtain ⟨⟨d₁, room₁⟩, hserve, hrest⟩ := Option.bind_eq_some_iff.mp h
      obtain ⟨room₂, -, heq⟩ := Option.map_eq_some_iff.mp hserve
      obtain ⟨rfl, -⟩ := Prod.mk.inj heq
      exact ih hrest

@[simp] theorem opened_answered (queue : K → List α) (es : List (Event K α)) (key : K) (a : α) :
    opened queue (.answered key a :: es) = opened queue es := rfl

/-- A queue that is there is not opened, whatever is queued. -/
theorem opened_record_of_nonempty {key : K} (es : List (Event K α)) (a : α)
    (h : (d.queue key).length ≠ 0) :
    opened d.queue (.queued key a :: es) = opened (d.record (.queued key a)).queue es := by
  ext k
  by_cases hk : k = key
  · subst hk
    simp [opened, Desk.record, List.length_eq_zero_iff.not.mp h]
  · simp [opened, Desk.record, hk]

/-- A queue that was not there is opened once. -/
theorem opened_record_of_empty {key : K} (es : List (Event K α)) (a : α)
    (h : (d.queue key).length = 0) :
    (opened d.queue (.queued key a :: es)).card =
      (opened (d.record (.queued key a)).queue es).card + 1 := by
  have hnew : key ∉ opened (d.record (.queued key a)).queue es := by
    simp [opened, Desk.record]
  rw [← Finset.card_insert_of_notMem hnew]
  congr 1
  ext k
  by_cases hk : k = key
  · subst hk
    simp [opened, List.length_eq_zero_iff.mp h]
  · simp [opened, Desk.record, hk]

/-- **Returning.** When nothing is queued for the key that is flushed, the walk returns
exactly when the table has room for the queues opened. -/
theorem foldlM_serve_isSome {es : List (Event K α)} (hself : pushesAt id es = []) :
    (es.foldlM (serve id) (d, room)).isSome ↔ (opened d.queue es).card ≤ room.slack := by
  induction es generalizing d room with
  | nil => simp [opened]
  | cons e es ih =>
      rw [List.foldlM_cons]
      cases e with
      | answered key a =>
          rw [serve_answered, opened_answered]
          exact ih hself
      | queued key a =>
          rw [pushesAt_queued] at hself
          by_cases hkey : key = id
          · -- excluded: nothing is queued for the key that is flushed
            rw [if_pos hkey] at hself
            exact absurd hself (by simp)
          · rw [if_neg hkey] at hself
            rw [serve_queued, if_neg hkey]
            by_cases hempty : (d.queue key).length = 0
            · -- One queue is opened here, and the rest of the slack is for the others.
              rw [if_pos hempty, opened_record_of_empty es a hempty]
              by_cases hslack : room.slack = 0
              · simp [hslack]
              · rw [if_neg hslack]
                refine (ih hself).trans ?_
                simp only
                omega
            · rw [if_neg hempty, opened_record_of_nonempty es a hempty]
              exact ih hself

end Serve

/-! ### Nothing is lost -/

section Conserve

variable [DecidableEq α] {id : K} {d d' : Desk K α} {room : Room} {es : List (Event K α)}

/-- From `d` to `d'`, every callback that was queued or is one of `asked` was invoked
or is still queued, as often as it was handed in. -/
def Conserved (d d' : Desk K α) (asked : List (K × α)) : Prop :=
  ∀ key a, (d.queue key).count a + asked.count (key, a) + d.log.count (key, a) =
    (d'.queue key).count a + d'.log.count (key, a)

theorem count_pushes (key : K) (a : α) :
    (pushes es).count (key, a) = (pushesAt key es).count a := by
  induction es with
  | nil => rfl
  | cons e es ih =>
      cases e with
      | answered k b => exact ih
      | queued k b =>
          rw [pushes_queued, pushesAt_queued, List.count_cons, ih]
          by_cases hk : k = key
          · subst hk
            simp [List.count_cons]
          · simp [hk]

/-- **Conservation.** The events are the invocations of the queue that is flushed, and
what became of the callbacks `asked` meanwhile. Erasing the entry loses exactly what
was queued in it. -/
theorem conserved_iff {asked : List (K × α)}
    (hes : (es.map Event.entry).Perm ((d.queue id).map (Prod.mk id) ++ asked)) :
    Conserved d ((d.records es).erase id) asked ↔ pushesAt id es = [] := by
  have htotal : ∀ key a, (answers es).count (key, a) + (pushesAt key es).count a =
      ((d.queue id).map (Prod.mk id)).count (key, a) + asked.count (key, a) := by
    intro key a
    rw [← count_pushes, ← List.count_append, ← List.count_append,
      (answers_append_pushes_perm es).count_eq, hes.count_eq]
  have hown : ∀ a, ((d.queue id).map (Prod.mk id)).count (id, a) = (d.queue id).count a :=
    fun a => List.count_map_of_injective _ _ (Prod.mk_right_injective id) a
  have hother : ∀ key ≠ id, ∀ a, ((d.queue id).map (Prod.mk id)).count (key, a) = 0 := by
    intro key hkey a
    refine List.count_eq_zero.mpr fun hmem => ?_
    obtain ⟨b, -, hb⟩ := List.mem_map.mp hmem
    exact hkey (Prod.mk.inj hb).1.symm
  rw [Desk.records_eq]
  constructor
  · intro h
    -- Whoever was queued for `id` is missing in the end: the entry is erased.
    refine List.eq_nil_iff_forall_not_mem.mpr fun a ha => ?_
    have hbal := h id a
    have hsum := htotal id a
    have hpos := List.count_pos_iff.mpr ha
    simp only [Desk.erase, Function.update_self, List.count_nil, List.count_append] at hbal
    rw [hown] at hsum
    omega
  · intro hnone key a
    have hsum := htotal key a
    by_cases hkey : key = id
    · -- The queue of `id` is gone, and all that was in it was invoked.
      subst hkey
      simp only [Desk.erase, Function.update_self, List.count_nil, List.count_append]
      rw [hown, hnone, List.count_nil] at hsum
      omega
    · simp only [Desk.erase, Function.update_of_ne hkey, List.count_append]
      rw [hother key hkey] at hsum
      omega

/-- **Exactness.** A flush returns and loses no callback exactly when nothing is queued
for the key it flushes and the table has room for the queues opened. -/
theorem flush_conserves_iff (d : Desk K α) (room : Room) {asked : List (K × α)}
    (hes : (es.map Event.entry).Perm ((d.queue id).map (Prod.mk id) ++ asked)) :
    (∃ d', flush id (d, room) es = some d' ∧ Conserved d d' asked) ↔
      (∀ a, .queued id a ∉ es) ∧ (opened d.queue es).card ≤ room.slack := by
  rw [← pushesAt_eq_nil_iff]
  constructor
  · rintro ⟨d', hflush, hcons⟩
    obtain ⟨⟨d₁, room₁⟩, hfold, rfl⟩ := Option.map_eq_some_iff.mp hflush
    obtain rfl := foldlM_serve_desk hfold
    have hself := (conserved_iff hes).mp hcons
    exact ⟨hself, (foldlM_serve_isSome hself).mp (by rw [hfold]; rfl)⟩
  · rintro ⟨hself, hroom⟩
    obtain ⟨⟨d₁, room₁⟩, hfold⟩ :=
      Option.isSome_iff_exists.mp ((foldlM_serve_isSome hself).mpr hroom)
    obtain rfl := foldlM_serve_desk hfold
    exact ⟨_, by rw [flush, hfold]; rfl, (conserved_iff hes).mpr hself⟩

end Conserve

end Flush
