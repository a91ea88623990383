import Loc.Access
import Loc.Progress

/-!
# Loc.Records

**What becomes of the records.** An activation is undefined exactly when its access to
them is.

So whatever concerns the records alone (which of them are well formed, which are
evicted, where `LocLookup` runs into undefined behaviour) is a matter of a handful
of lookup operations, and carries over to every run by `Config.records_of_run`.
-/

namespace Loc

open Coordinator

variable {EntityID : Type} [DecidableEq EntityID]

namespace Coordinator

/-! ### What an access leaves -/

section Access

variable {c : Coordinator EntityID} {a : Access EntityID}
  {recs : LocLookup EntityID (LocRecord EntityID)}

/-- The access of a query that is not answered from a registration. -/
theorem reading_cases (c : Coordinator EntityID) (id : EntityID) :
    (c.reading id = .read id ∧ c.recs.exists id = true) ∨ c.reading id = .idle := by
  unfold reading
  split
  · next hid => exact Or.inl ⟨rfl, hid⟩
  · exact Or.inr rfl

/-- **An access is undefined** exactly when it takes a record to a cache that has no
room, provided that it reads no record that is not there. -/
theorem access_eq_none (hc : c.WellPlaced) (hread : ∀ id, a = .read id → c.recs.exists id = true) :
    c.access a = none ↔ ∃ id node, a = .update id node ∧
      c.recs.directory.exists id = false ∧ c.recs.cache.val.maxSize = 0 := by
  cases a with
  | update id node =>
      have hupd : (c.recs.update id (c.makeRec id node)).isSome = true ↔ _ :=
        LocLookup.update_isSome_iff
      rw [access, ← Option.not_isSome_iff_eq_none, hupd, not_or, Bool.not_eq_true, not_lt,
        Nat.le_zero]
      constructor
      · exact fun h => ⟨id, node, rfl, h.1, h.2⟩
      · rintro ⟨_, _, heq, hdir, hmax⟩
        obtain ⟨rfl, rfl⟩ := Access.update.inj heq
        exact ⟨hdir, hmax⟩
  | read id =>
      obtain ⟨v, l', hget, -⟩ := LocLookup.get_isSome (hread id rfl)
      simp [access, hget]
  | insert id node =>
      rw [access, LocLookup.insert, if_pos (show c.recs.thisNode = c.thisNode from hc)]
      simp
  | remove id =>
      obtain ⟨cache, hrem⟩ := Option.isSome_iff_exists.mp (c.recs.cache.remove_isSome id)
      simp [access, LocLookup.remove, hrem]
  | idle => simp [access]
  | clear => simp [access]

/-- A record of the directory or of the cache. -/
def Holds (recs : LocLookup EntityID (LocRecord EntityID)) (id : EntityID)
    (record : LocRecord EntityID) : Prop :=
  recs.directory.getIter id = some record ∨ recs.cache.find id = some record

/-- **What an access leaves it found or made.** -/
theorem holds_of_access (hc : c.WellPlaced) (h : c.access a = some recs) {id : EntityID}
    {record : LocRecord EntityID} (hrec : Holds recs id record) :
    Holds c.recs id record ∨ ∃ node, record = c.makeRec id node := by
  have hslot : (recs.slot id).dir = some record ∨ (recs.slot id).cached = some record := hrec
  suffices hprev : ((c.recs.slot id).dir = some record ∨ (c.recs.slot id).cached = some record) ∨
      ∃ node, record = c.makeRec id node from hprev
  have hkeeps : LocLookup.Keeps c.recs recs id →
      (c.recs.slot id).dir = some record ∨ (c.recs.slot id).cached = some record := by
    rintro (hsame | hlost)
    · exact hsame ▸ hslot
    · rw [hlost] at hslot
      exact hslot.imp_right fun hnone => absurd hnone (by simp [LocLookup.Slot.evicted])
  cases a with
  | idle => exact Or.inl (Option.some.inj h ▸ hslot)
  | read id' =>
      obtain ⟨⟨v, l⟩, hget, rfl⟩ := Option.map_eq_some_iff.mp h
      exact Or.inl (hkeeps (.inl ((LocLookup.get_some hget).2.2 id)))
  | update id' node =>
      obtain ⟨-, hself, hother⟩ := LocLookup.update_some h
      by_cases hid : id = id'
      · subst hid
        rw [hself, LocLookup.Slot.updated] at hslot
        split at hslot
        · rcases hslot with heq | hcached
          · exact Or.inr ⟨node, (Option.some.inj heq).symm⟩
          · exact Or.inl (.inr hcached)
        · rcases hslot with hdir | heq
          · exact Or.inl (.inl hdir)
          · exact Or.inr ⟨node, (Option.some.inj heq).symm⟩
      · exact Or.inl (hkeeps (hother id hid))
  | insert id' node =>
      rw [access, ← show c.recs.thisNode = c.thisNode from hc] at h
      obtain ⟨-, hself, hother⟩ := LocLookup.insert_some_home h
      by_cases hid : id = id'
      · subst hid
        rw [hself] at hslot
        rcases hslot with heq | hcached
        · exact Or.inr ⟨node, (Option.some.inj heq).symm⟩
        · exact Or.inl (.inr hcached)
      · exact Or.inl (hkeeps (.inl (hother id hid)))
  | remove id' =>
      obtain ⟨-, hself, hother⟩ := LocLookup.remove_some h
      by_cases hid : id = id'
      · subst hid
        rw [hself] at hslot
        exact absurd hslot (by simp)
      · exact Or.inl (hkeeps (.inl (hother id hid)))
  | clear =>
      obtain rfl := Option.some.inj h
      exact Or.inl (hkeeps (.inr (LocLookup.slot_clearCache _ _)))

/-- The cache was built with this capacity, and is rebuilt with it. -/
structure Sized (n : Nat) (recs : LocLookup EntityID (LocRecord EntityID)) : Prop where
  maxCacheSize : recs.maxCacheSize = n
  maxSize : recs.cache.val.maxSize = n

theorem sized_of_access {n : Nat} (hc : c.WellPlaced) (h : c.access a = some recs)
    (hn : Sized n c.recs) : Sized n recs := by
  cases a with
  | idle => exact Option.some.inj h ▸ hn
  | read id =>
      obtain ⟨⟨v, l⟩, hget, rfl⟩ := Option.map_eq_some_iff.mp h
      rw [LocLookup.get] at hget
      split at hget
      · obtain ⟨-, rfl⟩ := Prod.mk.inj (Option.some.inj hget)
        exact hn
      · obtain ⟨⟨w, cache⟩, hcache, hl⟩ := Option.bind_eq_some_iff.mp hget
        obtain ⟨-, rfl⟩ := Prod.mk.inj (Option.some.inj hl)
        exact ⟨hn.1, (CoherentCache.get_some hcache).2.1.trans hn.2⟩
  | update id node =>
      rw [access, LocLookup.update] at h
      split at h
      · exact Option.some.inj h ▸ ⟨hn.1, hn.2⟩
      · obtain ⟨cache, hcache, hl⟩ := Option.bind_eq_some_iff.mp h
        exact Option.some.inj hl ▸ ⟨hn.1, (CoherentCache.insert_some hcache).1.trans hn.2⟩
  | insert id node =>
      rw [access, LocLookup.insert, if_pos (show c.recs.thisNode = c.thisNode from hc)] at h
      exact Option.some.inj h ▸ ⟨hn.1, hn.2⟩
  | remove id =>
      obtain ⟨cache, hcache, hl⟩ := Option.bind_eq_some_iff.mp h
      exact Option.some.inj hl ▸ ⟨hn.1, (CoherentCache.remove_some hcache).1.trans hn.2⟩
  | clear => exact Option.some.inj h ▸ ⟨hn.1, hn.1⟩

end Access

end Coordinator

/-! ### Steps and runs -/

/-- The rank whose coordinator a label activates. -/
def Label.rank : Label EntityID → NodeType
  | .call r _ => r
  | .deliver p => p.dst

/-- The access an event makes. -/
def System.access (s : System EntityID) (home : EntityID → NodeType) :
    Label EntityID → Access EntityID
  | .call r op => (s.coord r).opAccess home op
  | .deliver p => (s.coord p.dst).msgAccess p.body

namespace Config

variable {cfg : Config EntityID} {past : List (Label EntityID)} {s s' : System EntityID}
  {l : Label EntityID}

/-- The outcome of an activation, as far as the records go. -/
theorem activate_access {r : NodeType} {a : Access EntityID} {p : CoordM EntityID Unit}
    (hp : Uses a p ⟨s.coord r, [], []⟩) :
    (s.activate r p = none ↔ (s.coord r).access a = none) ∧
      ∀ s', s.activate r p = some s' → (s.coord r).access a = some (s'.coord r).recs ∧
        ∀ q ≠ r, s'.coord q = s.coord q := by
  rw [Uses] at hp
  rw [System.activate]
  cases hrun : p ⟨s.coord r, [], []⟩ with
  | none =>
      rw [hrun] at hp
      simp only [Option.map_none] at hp
      refine ⟨⟨fun _ => Option.map_eq_none_iff.mp hp.symm, fun _ => rfl⟩, ?_⟩
      intro s' hs'
      exact absurd hs' (by simp)
  | some x =>
      rw [hrun] at hp
      obtain ⟨recs, hrecs, heq⟩ := Option.map_eq_some_iff.mp hp.symm
      obtain ⟨-, rfl⟩ := Prod.mk.inj heq
      refine ⟨by simp [hrecs], ?_⟩
      intro s' hs'
      obtain rfl := Option.some.inj hs'
      exact ⟨by simpa using hrecs, fun q hq => by simp [hq]⟩

/-- **One step makes one access**, on the rank it activates. -/
theorem step_access (h : cfg.step s l = some s') :
    (s.coord l.rank).access (s.access cfg.home l) = some (s'.coord l.rank).recs ∧
      ∀ q ≠ l.rank, s'.coord q = s.coord q := by
  cases l with
  | call r op =>
      exact (activate_access (uses_run ⟨s.coord r, [], []⟩ op cfg.home)).2 s'
        (Option.ite_none_right_eq_some.mp h).2
  | deliver p =>
      have huses := uses_handle ⟨s.coord p.dst, [], []⟩ p.body
      exact (activate_access (s := { s with net := s.net.erase p }) huses).2 s'
        (Option.ite_none_right_eq_some.mp h).2

/-- A step that may be taken is undefined exactly when its access is. -/
theorem step_eq_none (hl : cfg.Enabled s l) :
    cfg.step s l = none ↔ (s.coord l.rank).access (s.access cfg.home l) = none := by
  cases l with
  | call r op =>
      rw [step, if_pos (show cfg.IsRank r from hl)]
      exact (activate_access (uses_run ⟨s.coord r, [], []⟩ op cfg.home)).1
  | deliver p =>
      have huses := uses_handle ⟨s.coord p.dst, [], []⟩ p.body
      rw [step, if_pos (show p ∈ s.net from hl)]
      exact (activate_access (s := { s with net := s.net.erase p }) huses).1

/-- **The induction rule for records.** What holds of a new lookup and is kept by
every access holds of every rank's records in every state a run reaches. -/
theorem records_of_run {ok : Runs.Guard (System EntityID) (Label EntityID)}
    {J : NodeType → LocLookup EntityID (LocRecord EntityID) → Prop}
    (h : cfg.Run ok past s) (hnew : ∀ r, J r (.new (cfg.maxCacheSize r) r))
    (haccess : ∀ (c : Coordinator EntityID) a recs, c.WellPlaced → J c.thisNode c.recs →
      c.access a = some recs → J c.thisNode recs) (r : NodeType) :
    J r (s.coord r).recs := by
  refine (h.invariant (I := fun _ s => s.Placed ∧ ∀ r, J r (s.coord r).recs)
    ⟨init_placed, hnew⟩ ?_ fun _ _ _ _ hsilent => hsilent.elim).2 r
  rintro past s l s' ⟨hs, hJ⟩ _ hstep
  refine ⟨step_placed hs hstep, fun r => ?_⟩
  obtain ⟨hacc, hother⟩ := step_access hstep
  by_cases hr : r = l.rank
  · subst hr
    have hnode := (hs l.rank).1
    have hkept := haccess _ _ _ (hs l.rank).2 (by rw [hnode]; exact hJ l.rank) hacc
    rwa [hnode] at hkept
  · rw [hother r hr]
    exact hJ r

/-- Every cache keeps the capacity it was constructed with. -/
theorem sized_of_run {ok : Runs.Guard (System EntityID) (Label EntityID)} (h : cfg.Run ok past s)
    (r : NodeType) : Sized (cfg.maxCacheSize r) (s.coord r).recs :=
  records_of_run (J := fun r recs => Sized (cfg.maxCacheSize r) recs) h (fun _ => ⟨rfl, rfl⟩)
    (fun _ _ _ hc hn hacc => sized_of_access hc hacc hn) r

end Config

end Loc
