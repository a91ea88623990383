import Loc.Records

/-!
# Loc.Guarantee.Records

**What is stored, and where storing it fails.**

Every record in a directory or a cache was made for the key it is stored under, and
classified against the rank that stores it. Nothing else about the records can go
wrong on the way: the only undefined behaviour the resolver ever runs into is a
location learned by a rank whose cache has no room at all.
-/

namespace Loc

open Coordinator

variable {EntityID : Type} [DecidableEq EntityID] {cfg : Config EntityID}
  {past : List (Label EntityID)} {s : System EntityID} {l : Label EntityID}

/-! ### Undefined behaviour -/

/-- The entity whose location the event teaches its rank: the calls of `recs_.update`. -/
def Label.teaches : Label EntityID → Option EntityID
  | .call _ (.entityEmigrated id _) => some id
  | .deliver ⟨_, _, id, .resolveResponse _⟩ => some id
  | .deliver ⟨_, _, id, .existsResponse true _⟩ => some id
  | _ => none

/-- What a public operation reads is there, and what it updates it was told to. -/
theorem Coordinator.opAccess_spec (c : Coordinator EntityID) (home : EntityID → NodeType)
    (op : Op EntityID) (id : EntityID) :
    (c.opAccess home op = .read id → c.recs.exists id = true) ∧
      ((∃ node, c.opAccess home op = .update id node) ↔ ∃ node, op = .entityEmigrated id node) := by
  cases op with
  | entityEmigrated id' newNode => simp [opAccess]
  | getLocation id' action | entityExists id' action =>
      simp only [opAccess]
      split
      · simp
      · obtain ⟨hread, hid⟩ | hidle := c.reading_cases id'
        · rw [hread]
          refine ⟨fun heq => Access.read.inj heq ▸ hid, by simp⟩
        · simp [hidle]
  | registerEntity id' | entityImmigrated id' src =>
      simp only [opAccess]
      split <;> simp
  | unregisterEntity id' => simp [opAccess]
  | isCached id' => simp [opAccess]
  | clearCache => simp [opAccess]

/-- So does a handler. -/
theorem Coordinator.msgAccess_spec (c : Coordinator EntityID) (m : ControlMsg EntityID)
    (id : EntityID) :
    (c.msgAccess m = .read id → c.recs.exists id = true) ∧
      ((∃ node, c.msgAccess m = .update id node) ↔
        ∃ node, m = ⟨id, .resolveResponse node⟩ ∨ m = ⟨id, .existsResponse true node⟩) := by
  obtain ⟨id', msg⟩ := m
  cases msg with
  | locationRequest q | existsRequest q =>
      simp only [msgAccess]
      obtain ⟨hread, hid⟩ | hidle := c.reading_cases id'
      · rw [hread]
        refine ⟨fun heq => Access.read.inj heq ▸ hid, by simp⟩
      · simp [hidle]
  | existsResponse ex n => cases ex <;> simp [msgAccess]
  | updateHome n => simp [msgAccess]
  | resolveResponse n => simp [msgAccess]

/-- No event reads a record that is not there. -/
theorem System.exists_of_access {home : EntityID → NodeType} {id : EntityID}
    (h : s.access home l = .read id) : (s.coord l.rank).recs.exists id = true := by
  cases l with
  | call r op => exact (opAccess_spec _ home op id).1 h
  | deliver p => exact (msgAccess_spec _ p.body id).1 h

/-- The updates are the events that teach a location. -/
theorem System.access_update {home : EntityID → NodeType} {id : EntityID} :
    (∃ node, s.access home l = .update id node) ↔ l.teaches = some id := by
  cases l with
  | call r op =>
      rw [show s.access home (.call r op) = (s.coord r).opAccess home op from rfl,
        (opAccess_spec _ home op id).2]
      cases op <;> simp [Label.teaches]
  | deliver p =>
      rw [show s.access home (.deliver p) = (s.coord p.dst).msgAccess p.body from rfl,
        (msgAccess_spec _ p.body id).2]
      obtain ⟨src, dst, id', msg⟩ := p
      cases msg with
      | existsResponse ex n => cases ex <;> simp [Label.teaches]
      | _ => simp [Label.teaches]

/-- **Undefined behaviour, exactly.** In every state that a run of any deployment
reaches, an event that may happen is undefined just when it teaches a location to a
rank that was constructed with capacity 0 and has no directory record to put it in. -/
theorem undefined_exactly {ok : Runs.Guard (System EntityID) (Label EntityID)}
    (h : cfg.Run ok past s) (hl : cfg.Enabled s l) :
    cfg.step s l = none ↔ ∃ id, l.teaches = some id ∧ cfg.maxCacheSize l.rank = 0 ∧
      (s.coord l.rank).recs.directory.exists id = false := by
  have hplaced := (cfg.placed_of_run h Config.init_placed l.rank).2
  have hsized := Config.sized_of_run h l.rank
  rw [Config.step_eq_none hl, access_eq_none hplaced fun id => System.exists_of_access]
  constructor
  · rintro ⟨id, node, hupd, hdir, hmax⟩
    exact ⟨id, System.access_update.mp ⟨node, hupd⟩, hsized.2.symm.trans hmax, hdir⟩
  · rintro ⟨id, hteach, hmax, hdir⟩
    obtain ⟨node, hupd⟩ := System.access_update.mpr hteach
    exact ⟨id, node, hupd, hdir, hsized.2.trans hmax⟩

/-- The small deployment without caches. -/
def Config.cacheless : Config Nat := { Config.small with maxCacheSize := fun _ => 0 }

/-- Rank 2 asks, and the answer is undefined. -/
theorem undefined_exactly_small : ∃ past s, Config.cacheless.Run Runs.free past s ∧
    Config.cacheless.step s (.deliver ⟨0, 2, ⟨42, .resolveResponse 0⟩⟩) = none := by
  obtain ⟨past, s, hrun, hl, hdir⟩ := Config.exists_run
    (show ∃ r ∈ Config.cacheless.play Runs.free
        [.call 0 (.registerEntity 42), .call 2 (.getLocation 42 5),
          .deliver ⟨2, 0, ⟨42, .locationRequest 2⟩⟩],
        ⟨0, 2, ⟨42, .resolveResponse 0⟩⟩ ∈ r.2.net ∧
          (r.2.coord 2).recs.directory.exists 42 = false by decide +kernel)
  have hl : Config.cacheless.Enabled s (.deliver ⟨0, 2, ⟨42, .resolveResponse 0⟩⟩) := hl
  exact ⟨past, s, hrun, (undefined_exactly hrun hl).mpr ⟨42, rfl, rfl, hdir⟩⟩

/-! ### Stored records -/

/-- **Stored records are well formed.** In every state a run reaches, a record found in
a directory or a cache is of the entity it is stored for, and says that the entity is
local exactly when it points at the rank that stores it, and else that it is remote. -/
theorem records_are_well_formed {ok : Runs.Guard (System EntityID) (Label EntityID)}
    (h : cfg.Run ok past s) {r : NodeType} {id : EntityID} {record : LocRecord EntityID}
    (hrec : Holds (s.coord r).recs id record) :
    record.getEntityID = id ∧ (record.isLocal = true ↔ record.getRemoteNode = r) ∧
      (record.isRemote = true ↔ record.getRemoteNode ≠ r) := by
  have hall := Config.records_of_run (J := fun r recs => ∀ id record, Holds recs id record →
      ∃ node, record = LocRecord.updateNode ⟨id, .invalid, noNode⟩ node r) h ?_ ?_ r id record hrec
  · obtain ⟨node, rfl⟩ := hall
    refine ⟨rfl, LocRecord.isLocal_updateNode _ _ _, ?_⟩
    by_cases hr : node = r <;>
      simp [LocRecord.isRemote, LocRecord.updateNode, LocRecord.getRemoteNode, hr]
  · intro r id record hnew
    exact absurd hnew (by simp [Holds, LocLookup.new, Directory.getIter, Directory.empty])
  · intro c a recs hc hJ hacc id record hrec
    rcases holds_of_access hc hacc hrec with hold | ⟨node, rfl⟩
    · exact hJ id record hold
    · exact ⟨node, rfl⟩

/-- The home's record follows the entity away from the home and back. -/
theorem records_are_well_formed_small : ∃ past s, Config.small.Run Runs.free past s ∧
    ∃ record, (s.coord 0).recs.directory.getIter 42 = some record ∧ record.isLocal = true := by
  obtain ⟨past, s, hrun, record, hrec, hnode⟩ := Config.exists_run
    (show ∃ r ∈ Config.small.play Runs.free
        [.call 1 (.registerEntity 42), .deliver ⟨1, 0, ⟨42, .updateHome 1⟩⟩,
          .call 1 (.entityEmigrated 42 0), .call 0 (.entityImmigrated 42 1)],
        ∃ record ∈ (r.2.coord 0).recs.directory.getIter 42, record.getRemoteNode = 0
      by decide +kernel)
  exact ⟨past, s, hrun, record, hrec,
    (records_are_well_formed hrun (Or.inl hrec)).2.1.mpr hnode⟩

end Loc
