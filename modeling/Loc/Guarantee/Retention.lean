import Loc.Lib.Residence
import Loc.Records

/-!
# Loc.Guarantee.Retention

**What eviction can and cannot do to an entity.**

A rank that uses the record of an entity keeps it while fewer other entities come up
on the rank than its cache has room for (`records_stay_while_used`). And where all the
entities that ever come up on a rank fit into its cache, entities have nothing to do
with each other: what the system knows and owes about one of them is a function of the
events of that entity alone (`entities_are_independent`).
-/

namespace Loc

open Coordinator

variable {EntityID : Type} [DecidableEq EntityID]

/-! ### The cache under an access -/

section Access

variable {c : Coordinator EntityID} {a : Access EntityID} {id : EntityID} {T : Finset EntityID}
  {recs : LocLookup EntityID (LocRecord EntityID)}

theorem CoherentCache.get_entries {K V : Type} [DecidableEq K] {c c' : CoherentCache K V} {key : K}
    {v : V} (h : c.get key = some (v, c')) : c'.val.entries = Recency.touch key c.val.entries := by
  obtain ⟨⟨w, c₁⟩, hget, h⟩ := Option.bind_eq_some_iff.mp h
  obtain ⟨c₂, hlift, h⟩ := Option.bind_eq_some_iff.mp h
  obtain ⟨rfl, rfl⟩ := Prod.mk.inj (Option.some.inj h)
  rw [CoherentCache.lift_eq_some, hget] at hlift
  obtain rfl : c₁ = c₂.val := Option.some.inj hlift
  cases hv : c.val.entries.lookup key with
  | none => rw [LocationCache.get_eq_none c.coherent hv] at hget; exact absurd hget (by simp)
  | some w' =>
      obtain ⟨c₃, hget', -, -, hent⟩ := LocationCache.get_spec c.coherent hv
      obtain ⟨-, rfl⟩ := Prod.mk.inj (Option.some.inj (hget'.symm.trans hget))
      exact hent

theorem CoherentCache.remove_entries {K V : Type} [DecidableEq K] {c c' : CoherentCache K V}
    {key : K} (h : c.remove key = some c') :
    c'.val.entries = Recency.erase key c.val.entries := by
  obtain ⟨c₁, hrem, -, -, hent⟩ := LocationCache.remove_spec c.coherent key
  obtain rfl : c₁ = c'.val := Option.some.inj (hrem.symm.trans (lift_eq_some.mp h))
  exact hent

theorem CoherentCache.insert_entries {K V : Type} [DecidableEq K] {c c' : CoherentCache K V}
    {key : K} {v : V} (h : c.insert key v = some c') :
    c'.val.entries = Recency.write c.val.maxSize key v c.val.entries := by
  have hpos := (CoherentCache.insert_isSome_iff key v).mp (Option.isSome_of_eq_some h)
  obtain ⟨c₁, hins, -, -, hent⟩ := LocationCache.insert_spec c.coherent hpos key v
  obtain rfl : c₁ = c'.val := Option.some.inj (hins.symm.trans (lift_eq_some.mp h))
  exact hent

/-- What an access does to the list of cached records. -/
theorem entries_of_access (hc : c.WellPlaced) (h : c.access a = some recs) :
    recs.cache.val.entries = c.recs.cache.val.entries ∨
    (∃ key, a.entity = some key ∧
      recs.cache.val.entries = Recency.touch key c.recs.cache.val.entries) ∨
    (∃ key v, a.entity = some key ∧ recs.cache.val.entries =
      Recency.write c.recs.cache.val.maxSize key v c.recs.cache.val.entries) ∨
    (∃ key, a = .remove key ∧
      recs.cache.val.entries = Recency.erase key c.recs.cache.val.entries) ∨
    (a = .clear ∧ recs.cache.val.entries = []) := by
  cases a with
  | idle => exact Or.inl (Option.some.inj h ▸ rfl)
  | read key =>
      obtain ⟨⟨v, l⟩, hget, rfl⟩ := Option.map_eq_some_iff.mp h
      rw [LocLookup.get] at hget
      split at hget
      · obtain ⟨-, rfl⟩ := Prod.mk.inj (Option.some.inj hget)
        exact Or.inl rfl
      · obtain ⟨⟨w, cache⟩, hcache, hl⟩ := Option.bind_eq_some_iff.mp hget
        obtain ⟨-, rfl⟩ := Prod.mk.inj (Option.some.inj hl)
        exact Or.inr (.inl ⟨key, rfl, CoherentCache.get_entries hcache⟩)
  | update key node =>
      rw [access, LocLookup.update] at h
      split at h
      · exact Or.inl (Option.some.inj h ▸ rfl)
      · obtain ⟨cache, hcache, hl⟩ := Option.bind_eq_some_iff.mp h
        obtain rfl := Option.some.inj hl
        exact Or.inr (.inr (.inl ⟨key, _, rfl, CoherentCache.insert_entries hcache⟩))
  | insert key node =>
      rw [access, LocLookup.insert, if_pos (show c.recs.thisNode = c.thisNode from hc)] at h
      exact Or.inl (Option.some.inj h ▸ rfl)
  | remove key =>
      obtain ⟨cache, hcache, hl⟩ := Option.bind_eq_some_iff.mp h
      obtain rfl := Option.some.inj hl
      exact Or.inr (.inr (.inr (.inl ⟨key, rfl, CoherentCache.remove_entries hcache⟩)))
  | clear => exact Or.inr (.inr (.inr (.inr ⟨rfl, Option.some.inj h ▸ rfl⟩)))

/-- Only a removal takes a record out of the directory. -/
theorem directory_of_access (hc : c.WellPlaced) (h : c.access a = some recs) (ha : a ≠ .remove id)
    (hdir : (c.recs.slot id).dir.isSome) : (recs.slot id).dir.isSome := by
  cases a with
  | idle => exact Option.some.inj h ▸ hdir
  | read key =>
      obtain ⟨⟨v, l⟩, hget, rfl⟩ := Option.map_eq_some_iff.mp h
      rw [(LocLookup.get_some hget).2.2 id]
      exact hdir
  | update key node => exact LocLookup.update_some_dir h hdir
  | insert key node =>
      rw [access, ← show c.recs.thisNode = c.thisNode from hc] at h
      obtain ⟨-, hself, hother⟩ := LocLookup.insert_some_home h
      by_cases hid : id = key
      · subst hid
        rw [hself]
        rfl
      · rw [hother id hid]
        exact hdir
  | remove key =>
      have hid : id ≠ key := fun heq => ha (by rw [heq])
      rw [(LocLookup.remove_some h).2.2 id hid]
      exact hdir
  | clear => exact Option.some.inj h ▸ hdir

/-- The entity has a record that does not make way before `T` is used up. -/
def Kept (T : Finset EntityID) (id : EntityID)
    (recs : LocLookup EntityID (LocRecord EntityID)) : Prop :=
  (recs.slot id).dir.isSome ∨ Recency.Resident T id recs.cache.val.entries

theorem Kept.exists (h : Kept T id recs) : recs.exists id = true := by
  rw [LocLookup.exists_eq, LocLookup.Slot.value, Option.isSome_or, Bool.or_eq_true]
  refine h.imp_right fun hres => ?_
  exact Recency.lookup_isSome_iff.mpr hres.mem

/-- An access uses the record of `id` when it reads or writes it. -/
def Access.uses (id : EntityID) : Access EntityID → Bool
  | .read id' | .update id' _ | .insert id' _ => id' = id
  | .remove _ | .idle | .clear => false

/-- **A record that was just used is kept**, whatever `T`. -/
theorem kept_of_use (hc : c.WellPlaced) (h : c.access a = some recs) (huse : a.uses id = true)
    (T : Finset EntityID) : Kept T id recs := by
  cases a with
  | read key =>
      obtain rfl : key = id := by simpa [Access.uses] using huse
      obtain ⟨⟨v, l⟩, hget, rfl⟩ := Option.map_eq_some_iff.mp h
      have hvalue := hget
      rw [LocLookup.get] at hget
      split at hget
      · next hdir =>
        obtain ⟨-, rfl⟩ := Prod.mk.inj (Option.some.inj hget)
        exact Or.inl (by simp [LocLookup.slot, hdir])
      · obtain ⟨⟨w, cache⟩, hcache, hl⟩ := Option.bind_eq_some_iff.mp hget
        obtain ⟨-, rfl⟩ := Prod.mk.inj (Option.some.inj hl)
        refine Or.inr ?_
        rw [CoherentCache.get_entries hcache]
        refine .touch_self T (Recency.lookup_isSome_iff.mp ?_)
        exact Option.isSome_of_eq_some (CoherentCache.get_some hcache).1
  | update key node =>
      obtain rfl : key = id := by simpa [Access.uses] using huse
      rw [access, LocLookup.update] at h
      split at h
      · refine Or.inl ?_
        obtain rfl := Option.some.inj h
        rw [LocLookup.slot_directory_insert, if_pos rfl]
        rfl
      · obtain ⟨cache, hcache, hl⟩ := Option.bind_eq_some_iff.mp h
        obtain rfl := Option.some.inj hl
        refine Or.inr ?_
        rw [CoherentCache.insert_entries hcache]
        exact .write_self T _ key _ _
  | insert key node =>
      obtain rfl : key = id := by simpa [Access.uses] using huse
      rw [access, ← show c.recs.thisNode = c.thisNode from hc] at h
      exact Or.inl (by rw [(LocLookup.insert_some_home h).2.1]; rfl)
  | _ => exact absurd huse (by simp [Access.uses])

/-- **And stays so** while nothing outside of `T` comes up, if `T` leaves room for it. -/
theorem Kept.access (hkept : Kept T id c.recs) (hc : c.WellPlaced) (h : c.access a = some recs)
    (hT : T.card < c.recs.cache.val.maxSize) (ha : ∀ key, a.entity = some key → key ∈ insert id T)
    (hremove : a ≠ .remove id) (hclear : a ≠ .clear) : Kept T id recs := by
  rcases hkept with hdir | hres
  · exact Or.inl (directory_of_access hc h hremove hdir)
  refine Or.inr ?_
  rcases entries_of_access hc h with heq | ⟨key, hkey, heq⟩ | ⟨key, v, hkey, heq⟩ |
    ⟨key, rfl, heq⟩ | ⟨rfl, -⟩
  · exact heq ▸ hres
  · exact heq ▸ hres.touch (ha key hkey)
  · exact heq ▸ hres.write c.recs.cache.coherent.entries_nodup (ha key hkey) hT v
  · exact heq ▸ hres.erase fun hid => hremove (by rw [hid])
  · exact absurd rfl hclear

end Access

/-! ### What an event accesses -/

section Events

variable {s : System EntityID} {home : EntityID → NodeType} {l : Label EntityID} {id : EntityID}

/-- The event is an operation of `r` that takes the record of `id` away: unregistering
`id`, or clearing the cache. -/
def Label.drops (r : NodeType) (id : EntityID) : Label EntityID → Bool
  | .call r' (.unregisterEntity id') => r' = r && id' = id
  | .call r' .clearCache => r' = r
  | _ => false

/-- The entity that comes up on `r`, if one does. -/
def Label.onRank (r : NodeType) (l : Label EntityID) : Option EntityID :=
  if l.rank = r then l.entity else none

/-- An event accesses the records of no entity but its own. -/
theorem System.entity_of_access (h : (s.access home l).entity = some id) : l.entity = some id := by
  have hreading : ∀ (c : Coordinator EntityID) id',
      (c.reading id').entity = some id → id' = id := by
    intro c id' heq
    obtain ⟨hread, -⟩ | hidle := c.reading_cases id'
    · rw [hread] at heq
      exact Option.some.inj heq
    · rw [hidle] at heq
      exact absurd heq (by simp [Access.entity])
  cases l with
  | call r op =>
      cases op with
      | registerEntity id' | entityImmigrated id' src =>
          simp only [System.access, opAccess] at h
          split at h
          · exact h
          · exact absurd h (by simp [Access.entity])
      | getLocation id' action | entityExists id' action =>
          simp only [System.access, opAccess] at h
          split at h
          · exact absurd h (by simp [Access.entity])
          · exact congrArg some (hreading _ id' h)
      | entityEmigrated id' newNode => exact h
      | unregisterEntity id' => exact h
      | isCached id' => exact absurd h (by simp [System.access, opAccess, Access.entity])
      | clearCache => exact absurd h (by simp [System.access, opAccess, Access.entity])
  | deliver p =>
      obtain ⟨src, dst, id', msg⟩ := p
      cases msg with
      | locationRequest q | existsRequest q => exact congrArg some (hreading _ id' h)
      | existsResponse ex n =>
          cases ex with
          | true => exact h
          | false => exact absurd h (by simp [System.access, msgAccess, Access.entity])
      | updateHome n => exact h
      | resolveResponse n => exact h

/-- Whose record an event accesses comes up on the rank of the event. -/
theorem System.onRank_of_access {ls : List (Label EntityID)} (hl : l ∈ ls)
    (h : (s.access home l).entity = some id) :
    id ∈ (ls.filterMap (Label.onRank l.rank)).toFinset := by
  refine List.mem_toFinset.mpr (List.mem_filterMap.mpr ⟨l, hl, ?_⟩)
  rw [Label.onRank, if_pos rfl, System.entity_of_access h]

/-- Records are removed by `unregisterEntity` and cleared by `clearCache` only. -/
theorem System.access_drops (s : System EntityID) (home : EntityID → NodeType)
    (l : Label EntityID) :
    (∀ id, s.access home l = .remove id → l = .call l.rank (.unregisterEntity id)) ∧
      (s.access home l = .clear → l = .call l.rank .clearCache) := by
  have hreading : ∀ (c : Coordinator EntityID) id', (∀ id, c.reading id' ≠ .remove id) ∧
      c.reading id' ≠ .clear := by
    intro c id'
    obtain ⟨hread, -⟩ | hidle := c.reading_cases id'
    · simp [hread]
    · simp [hidle]
  cases l with
  | call r op =>
      cases op with
      | unregisterEntity id' => simp [System.access, opAccess, Label.rank]
      | clearCache => simp [System.access, opAccess, Label.rank]
      | getLocation id' action | entityExists id' action =>
          simp only [System.access, opAccess]
          split
          · simp
          · exact ⟨fun id h => absurd h ((hreading _ id').1 id),
              fun h => absurd h (hreading _ id').2⟩
      | registerEntity id' | entityImmigrated id' src =>
          simp only [System.access, opAccess]
          split <;> simp
      | entityEmigrated id' newNode => simp [System.access, opAccess]
      | isCached id' => simp [System.access, opAccess]
  | deliver p =>
      obtain ⟨src, dst, id', msg⟩ := p
      cases msg with
      | locationRequest q | existsRequest q =>
          exact ⟨fun id h => absurd h ((hreading _ id').1 id),
            fun h => absurd h (hreading _ id').2⟩
      | existsResponse ex n => cases ex <;> simp [System.access, msgAccess]
      | updateHome n => simp [System.access, msgAccess]
      | resolveResponse n => simp [System.access, msgAccess]

end Events

variable {cfg : Config EntityID} {past₀ past ls : List (Label EntityID)}
  {s₀ s₁ s : System EntityID} {l₀ : Label EntityID}

/-! ### Records in use -/

/-- The entities other than `id` that come up on `r`. -/
def others (r : NodeType) (id : EntityID) (ls : List (Label EntityID)) : Finset EntityID :=
  (ls.filterMap (Label.onRank r)).toFinset.erase id

/-- **A record in use is not evicted.** Once an event reads or writes the record that
the rank `r` has of `id`, the rank keeps the entity resolved for as long as fewer other
entities come up there than its cache has room for, unless it is told to drop it. -/
theorem records_stay_while_used {ok₀ ok : Runs.Guard (System EntityID) (Label EntityID)}
    (h₀ : cfg.Run ok₀ past₀ s₀) (hstep : cfg.step s₀ l₀ = some s₁) {id : EntityID}
    (huse : (s₀.access cfg.home l₀).uses id = true)
    (h : cfg.machine.Run ok (l₀ :: past₀) s₁ (ls ++ l₀ :: past₀) s)
    (hdrops : ∀ l ∈ ls, l.drops l₀.rank id = false)
    (hfew : (others l₀.rank id ls).card < cfg.maxCacheSize l₀.rank) :
    (s.coord l₀.rank).isCached id = true := by
  have hplaced₀ := cfg.placed_of_run h₀ Config.init_placed
  have hrun₁ : cfg.Run Runs.free (l₀ :: past₀) s₁ :=
    .step (h₀.mono fun _ _ _ _ => trivial) trivial hstep
  have hkept : s.Placed ∧ Sized (cfg.maxCacheSize l₀.rank) (s.coord l₀.rank).recs ∧
      Kept (others l₀.rank id ls) id (s.coord l₀.rank).recs := by
    refine (h.with_labels (C := fun l => l ∈ ls) rfl fun l hl => hl).invariant
      (I := fun _ s => s.Placed ∧ Sized (cfg.maxCacheSize l₀.rank) (s.coord l₀.rank).recs ∧
        Kept (others l₀.rank id ls) id (s.coord l₀.rank).recs) ?_ ?_ fun _ _ _ _ hs => hs.elim
    · exact ⟨Config.step_placed hplaced₀ hstep, Config.sized_of_run hrun₁ _,
        kept_of_use (hplaced₀ _).2 (Config.step_access hstep).1 huse _⟩
    · rintro past t l t' ⟨ht, hsized, hkept⟩ ⟨-, hl⟩ hstep
      refine ⟨Config.step_placed ht hstep, ?_⟩
      obtain ⟨hacc, hother⟩ := Config.step_access hstep
      by_cases hr : l.rank = l₀.rank
      · rw [hr] at hacc
        have hplaced := (ht l₀.rank).2
        refine ⟨sized_of_access hplaced hacc hsized, ?_⟩
        refine hkept.access hplaced hacc (hsized.2.symm ▸ hfew) (fun key hkey => ?_) ?_ ?_
        · -- What comes up on the rank is `id` or one of the others.
          refine Finset.mem_insert.mpr (or_iff_not_imp_left.mpr fun hne => ?_)
          exact Finset.mem_erase.mpr ⟨hne, hr ▸ System.onRank_of_access hl hkey⟩
        · intro hremove
          have hdrop := hdrops l hl
          rw [(t.access_drops cfg.home l).1 id hremove, hr] at hdrop
          exact absurd hdrop (by simp [Label.drops])
        · intro hclear
          have hdrop := hdrops l hl
          rw [(t.access_drops cfg.home l).2 hclear, hr] at hdrop
          exact absurd hdrop (by simp [Label.drops])
      · rw [hother _ (Ne.symm hr)]
        exact ⟨hsized, hkept⟩
  rw [isCached, hkept.2.2.exists, Bool.or_true]

/-- The small deployment with room for two records in each cache. -/
def Config.pair : Config Nat := { Config.small with maxCacheSize := fun _ => 2 }

/-- Rank 2 resolves entity 7 while rank 1 clears its cache, newest event first. -/
def resolveSeven : List (Label Nat) :=
  [.deliver ⟨0, 2, ⟨7, .resolveResponse 0⟩⟩, .call 1 .clearCache,
    .deliver ⟨2, 0, ⟨7, .locationRequest 2⟩⟩, .call 2 (.getLocation 7 6)]

/-- Rank 2 has resolved entity 42 just before. -/
theorem records_stay_while_used_small : ∃ past s, Config.pair.Run Runs.free past s ∧
    (s.coord 2).isCached 42 = true := by
  obtain ⟨⟨past₀, s₀⟩, hplay₀, s₁, hstep, huse, ⟨past, s⟩, hplay, rfl, hdrops, hfew⟩ :=
    (show ∃ r₀ ∈ Config.pair.play Runs.free
        [.call 0 (.registerEntity 42), .call 0 (.registerEntity 7), .call 2 (.getLocation 42 5),
          .deliver ⟨2, 0, ⟨42, .locationRequest 2⟩⟩],
      ∃ s₁ ∈ Config.pair.step r₀.2 (.deliver ⟨0, 2, ⟨42, .resolveResponse 0⟩⟩),
        (r₀.2.access Config.pair.home (.deliver ⟨0, 2, ⟨42, .resolveResponse 0⟩⟩)).uses 42 = true ∧
        ∃ r ∈ Runs.play Config.pair.step Runs.free
            (.deliver ⟨0, 2, ⟨42, .resolveResponse 0⟩⟩ :: r₀.1) s₁ resolveSeven.reverse,
          r.1 = resolveSeven ++ .deliver ⟨0, 2, ⟨42, .resolveResponse 0⟩⟩ :: r₀.1 ∧
          (∀ l ∈ resolveSeven, l.drops 2 42 = false) ∧ (others 2 42 resolveSeven).card < 2
      by decide +kernel)
  have h₀ : Config.pair.Run Runs.free past₀ s₀ := .of_play .refl hplay₀
  have h₁ : Config.pair.Run Runs.free _ s₁ := .step h₀ trivial hstep
  exact ⟨_, s, .of_play h₁ hplay,
    records_stay_while_used h₀ hstep huse (.of_play .refl hplay) hdrops hfew⟩

/-! ### Entities that do not compete -/

/-- What happens to the entity `id`: an event about it, or the clearing of a cache. -/
def Label.concerning (id : EntityID) (l : Label EntityID) :
    Option (Entity.Act NodeType ⊕ NodeType) :=
  match l with
  | .call r .clearCache => some (.inr r)
  | l => (l.about id).map .inl

/-- The view that a history leads to when nothing is ever evicted. -/
def Entity.replay (home : NodeType) :
    List (Entity.Act NodeType ⊕ NodeType) → Entity.View NodeType
  | [] => .init
  | .inl (.call r c) :: past =>
      (replay home past).post r (onCall home noNode r c ((replay home past).site r))
  | .inl (.deliver p) :: past =>
      ((replay home past).take p).post p.dst
        (onMsg noNode p.dst p.body ((replay home past).site p.dst))
  | .inr r :: past => (replay home past).forget r

/-- All the entities that ever came up on a rank fit into its cache. -/
def Config.Fits (cfg : Config EntityID) (past : List (Label EntityID)) : Prop :=
  ∀ r, (past.filterMap (Label.onRank r)).toFinset.card ≤ cfg.maxCacheSize r

/-- It is enough that no more entities come up at all. -/
theorem Config.fits_of_subset {T : Finset EntityID}
    (hT : ∀ l ∈ past, ∀ id, l.entity = some id → id ∈ T) (hcap : ∀ r, T.card ≤ cfg.maxCacheSize r) :
    cfg.Fits past := by
  refine fun r => (Finset.card_le_card fun id hid => ?_).trans (hcap r)
  obtain ⟨l, hl, hon⟩ := List.mem_filterMap.mp (List.mem_toFinset.mp hid)
  exact hT l hl id (Option.ite_none_right_eq_some.mp hon).2

section Fits

variable {c : Coordinator EntityID} {a : Access EntityID} {id : EntityID} {T : Finset EntityID}
  {recs : LocLookup EntityID (LocRecord EntityID)}

/-- Where everything fits, an access touches no record but those of its entity. -/
theorem slot_of_access_other (hc : c.WellPlaced) (h : c.access a = some recs)
    (hsub : ∀ key ∈ Recency.keys c.recs.cache.val.entries, key ∈ T)
    (hcap : T.card ≤ c.recs.cache.val.maxSize) (ha : ∀ key, a.entity = some key → key ∈ T)
    (hid : a.entity ≠ some id) (hclear : a ≠ .clear) : recs.slot id = c.recs.slot id := by
  have hcached : recs.cache.find id = c.recs.cache.find id := by
    unfold CoherentCache.find
    rcases entries_of_access hc h with heq | ⟨key, hkey, heq⟩ | ⟨key, v, hkey, heq⟩ |
      ⟨key, rfl, heq⟩ | ⟨rfl, -⟩
    · rw [heq]
    · rw [heq, Recency.lookup_touch]
    · rw [heq]
      exact Recency.write_keeps c.recs.cache.coherent.entries_nodup hsub (ha key hkey) hcap v
        fun heq => hid (heq ▸ hkey)
    · rw [heq, Recency.lookup_erase_of_ne fun heq => hid (congrArg some heq.symm)]
    · exact absurd rfl hclear
  have hdir : (recs.slot id).dir = (c.recs.slot id).dir := by
    cases a with
    | idle => exact Option.some.inj h ▸ rfl
    | read key =>
        obtain ⟨⟨v, l⟩, hget, rfl⟩ := Option.map_eq_some_iff.mp h
        rw [(LocLookup.get_some hget).2.2 id]
    | update key node =>
        have hne : id ≠ key := fun heq => hid (congrArg some heq.symm)
        rcases (LocLookup.update_some h).2.2 id hne with heq | heq
        · rw [heq]
        · rw [heq]
          rfl
    | insert key node =>
        rw [access, ← show c.recs.thisNode = c.thisNode from hc] at h
        rw [(LocLookup.insert_some_home h).2.2 id fun heq => hid (congrArg some heq.symm)]
    | remove key => rw [(LocLookup.remove_some h).2.2 id fun heq => hid (congrArg some heq.symm)]
    | clear => exact absurd rfl hclear
  exact LocLookup.Slot.mk.injEq .. ▸ ⟨hdir, hcached⟩

/-- The keys of the cache come from what was accessed. -/
theorem keys_of_access (hc : c.WellPlaced) (h : c.access a = some recs)
    (hsub : ∀ key ∈ Recency.keys c.recs.cache.val.entries, key ∈ T)
    (ha : ∀ key, a.entity = some key → key ∈ T) :
    ∀ key ∈ Recency.keys recs.cache.val.entries, key ∈ T := by
  rcases entries_of_access hc h with heq | ⟨key, hkey, heq⟩ | ⟨key, v, hkey, heq⟩ |
    ⟨key, rfl, heq⟩ | ⟨rfl, heq⟩
  · rw [heq]
    exact hsub
  · rw [heq]
    exact Recency.keys_touch_subset hsub
  · rw [heq]
    exact Recency.keys_write_subset hsub (ha key hkey)
  · rw [heq]
    exact Recency.keys_erase_subset hsub
  · rw [heq]
    simp

end Fits

/-- Losing a record that is not there. -/
theorem Entity.View.forget_eq_self {v : Entity.View NodeType} {r : NodeType}
    (h : (v.site r).cached = none) : v.forget r = v := by
  have hsite : (v.site r).forget = v.site r := by
    rw [Entity.Site.forget, ← h]
  rw [Entity.View.forget, hsite, Function.update_eq_self]

/-- Clearing a cache loses the record of every entity. -/
theorem System.view_clearCache (s : System EntityID) (r : NodeType) (id : EntityID)
    (net : List (Channel.Packet NodeType (ControlMsg EntityID)))
    (hnet : net = s.net) (answers : List (Invocation EntityID)) (hanswers : answers = s.answers) :
    System.view id ⟨Function.update s.coord r
      { s.coord r with recs := (s.coord r).recs.clearCache }, net, answers⟩ =
      (s.view id).forget r := by
  subst hnet hanswers
  refine Entity.View.mk.injEq .. ▸ ⟨?_, rfl, rfl⟩
  funext q
  by_cases hq : q = r
  · subst hq
    simp [System.view, Coordinator.site, Entity.Site.forget, LocLookup.Slot.evicted]
  · simp [System.view, hq]

/-- An event of an entity is about it. -/
theorem Label.about_isSome {l : Label EntityID} {id : EntityID} (h : l.entity = some id) :
    (l.about id).isSome = true := by
  cases l with
  | call r op =>
      cases op with
      | isCached id' => exact absurd h (by simp [Label.entity])
      | clearCache => exact absurd h (by simp [Label.entity])
      | _ => simp_all [Label.entity, Label.about, Op.about]
  | deliver p =>
      obtain ⟨src, dst, id', msg⟩ := p
      simp_all [Label.entity, Label.about, Channel.Packet.restrict, ControlMsg.about]

/-- Clearing a cache is a step that forgets. -/
theorem Config.step_view_clear {s' : System EntityID} {l : Label EntityID} {id : EntityID}
    (hclear : s.access cfg.home l = .clear) (hstep : cfg.step s l = some s') :
    l.concerning id = some (.inr l.rank) ∧ s'.view id = (s.view id).forget l.rank := by
  have hcall := (s.access_drops cfg.home l).2 hclear
  refine ⟨by rw [hcall]; rfl, ?_⟩
  rw [hcall] at hstep
  obtain ⟨k, hk, rfl⟩ := System.activate_eq_some (Option.ite_none_right_eq_some.mp hstep).2
  obtain rfl := (Prod.mk.inj (Option.some.inj hk)).2
  exact s.view_clearCache l.rank id _ (List.append_nil _) _ (List.append_nil _)

/-- Where everything fits, a step about another entity touches no record of `id`. -/
theorem Config.step_slot_fits {s' : System EntityID} {l : Label EntityID} {id : EntityID}
    (hs : s.Placed) (hfits : cfg.Fits past) (hl : l ∈ past)
    (hsized : ∀ r, Sized (cfg.maxCacheSize r) (s.coord r).recs)
    (hsub : ∀ r, ∀ key ∈ Recency.keys (s.coord r).recs.cache.val.entries,
      key ∈ (past.filterMap (Label.onRank r)).toFinset)
    (hstep : cfg.step s l = some s') (habout : l.about id = none)
    (hclear : s.access cfg.home l ≠ .clear) (r : NodeType) :
    (s'.coord r).recs.slot id = (s.coord r).recs.slot id := by
  obtain ⟨hacc, hother⟩ := Config.step_access hstep
  by_cases hr : r = l.rank
  · subst hr
    refine slot_of_access_other (hs l.rank).2 hacc (hsub l.rank)
      ((hfits l.rank).trans_eq (hsized l.rank).2.symm)
      (fun key hkey => System.onRank_of_access hl hkey) ?_ hclear
    intro hid
    have hsome := Label.about_isSome (System.entity_of_access hid)
    rw [habout] at hsome
    exact absurd hsome (by simp)
  · rw [hother r hr]

/-- **One step, when everything fits.** -/
theorem Config.step_view_fits {s' : System EntityID} {l : Label EntityID} {id : EntityID}
    (hs : s.Placed) (hfits : cfg.Fits past) (hl : l ∈ past)
    (hsized : ∀ r, Sized (cfg.maxCacheSize r) (s.coord r).recs)
    (hsub : ∀ r, ∀ key ∈ Recency.keys (s.coord r).recs.cache.val.entries,
      key ∈ (past.filterMap (Label.onRank r)).toFinset)
    (hstep : cfg.step s l = some s') (hview : s.view id = Entity.replay (cfg.home id)
      (past₀.filterMap (Label.concerning id))) :
    s'.view id = Entity.replay (cfg.home id) ((l :: past₀).filterMap (Label.concerning id)) := by
  have hstepview := (Config.step_view hs hstep id).2
  cases habout : l.about id with
  | some a =>
      rw [habout] at hstepview
      have hconc : l.concerning id = some (.inl a) := by
        unfold Label.concerning
        split
        · exact absurd habout (by simp [Label.about, Op.about])
        · rw [habout]
          rfl
      rw [List.filterMap_cons_some hconc]
      generalize s'.view id = v' at hstepview ⊢
      rw [hview] at hstepview
      cases hstepview with
      | call r c => rfl
      | deliver p hp => rfl
  | none =>
      rw [habout] at hstepview
      by_cases hclear : s.access cfg.home l = .clear
      · obtain ⟨hconc, hforget⟩ := Config.step_view_clear hclear hstep
        rw [List.filterMap_cons_some hconc, Entity.replay, ← hview, hforget]
      · have hconc : l.concerning id = none := by
          unfold Label.concerning
          split
          · exact absurd rfl hclear
          · rw [habout]
            rfl
        rw [List.filterMap_cons_none hconc, ← hview]
        rcases hstepview with hsame | ⟨r, hlost⟩
        · exact hsame
        -- What was lost was not there.
        have hslot := Config.step_slot_fits hs hfits hl hsized hsub hstep habout hclear r
        rw [hlost]
        refine Entity.View.forget_eq_self ?_
        have hcached := congrArg (fun v : Entity.View NodeType => (v.site r).cached) hlost
        simp only [Entity.View.forget_site_self, Entity.Site.forget] at hcached
        rw [← hcached]
        exact congrArg (fun t => Option.map LocRecord.getRemoteNode t.cached) hslot.symm

/-- **Where everything fits, a view is a function of its entity's events.** -/
theorem Config.view_eq_replay {ok : Runs.Guard (System EntityID) (Label EntityID)}
    (h : cfg.Run ok past s) (hfits : cfg.Fits past) (id : EntityID) :
    s.view id = Entity.replay (cfg.home id) (past.filterMap (Label.concerning id)) := by
  have hlabels := h.with_labels (C := fun l => l ∈ past) (List.append_nil past).symm fun l hl => hl
  refine (hlabels.invariant (I := fun past' s => cfg.Run Runs.free past' s ∧ s.Placed ∧
    (∀ r, ∀ key ∈ Recency.keys (s.coord r).recs.cache.val.entries,
      key ∈ (past.filterMap (Label.onRank r)).toFinset) ∧
    s.view id = Entity.replay (cfg.home id) (past'.filterMap (Label.concerning id)))
    ⟨.refl, init_placed, ?_, rfl⟩ ?_ fun _ _ _ _ hsilent => hsilent.elim).2.2.2
  · intro r key hkey
    exact absurd hkey List.not_mem_nil
  · rintro past' s l s' ⟨hrun, hs, hsub, hview⟩ ⟨-, hl⟩ hstep
    refine ⟨.step hrun trivial hstep, step_placed hs hstep, fun r => ?_,
      step_view_fits hs hfits hl (sized_of_run hrun) hsub hstep hview⟩
    obtain ⟨hacc, hother⟩ := step_access hstep
    by_cases hr : r = l.rank
    · subst hr
      exact keys_of_access (hs l.rank).2 hacc (hsub l.rank) fun key hkey =>
        System.onRank_of_access hl hkey
    · rw [hother r hr]
      exact hsub r

/-- **Entities that do not compete are independent.** Take two runs, of deployments that
agree on the home of `id` and whose caches have room for every entity that comes up on
their rank. If the same happens to `id` in both, in the same order, then all that any
rank knows and owes about `id`, the messages about it in flight and the answers given
about it are the same, whatever happens to the other entities. -/
theorem entities_are_independent {cfg' : Config EntityID} {past' : List (Label EntityID)}
    {s' : System EntityID} {ok ok' : Runs.Guard (System EntityID) (Label EntityID)}
    (h : cfg.Run ok past s) (h' : cfg'.Run ok' past' s') (hfits : cfg.Fits past)
    (hfits' : cfg'.Fits past') {id : EntityID} (hhome : cfg.home id = cfg'.home id)
    (hsame : past.filterMap (Label.concerning id) = past'.filterMap (Label.concerning id)) :
    s.view id = s'.view id := by
  rw [cfg.view_eq_replay h hfits, cfg'.view_eq_replay h' hfits', hhome, hsame]

/-- Entity 42 is resolved from rank 2, in the second run in between events of entity 7. -/
theorem entities_are_independent_small : ∃ past past' s s',
    Config.pair.Run Runs.free past s ∧ Config.pair.Run Runs.free past' s' ∧ past ≠ past' ∧
      s.view 42 = s'.view 42 := by
  obtain ⟨past, s, hrun, hpast⟩ := Config.exists_run
    (show ∃ r ∈ Config.pair.play Runs.free
        [.call 1 (.registerEntity 42), .deliver ⟨1, 0, ⟨42, .updateHome 1⟩⟩,
          .call 2 (.entityExists 42 5), .deliver ⟨2, 0, ⟨42, .existsRequest 2⟩⟩],
        r.1 = [.deliver ⟨2, 0, ⟨42, .existsRequest 2⟩⟩, .call 2 (.entityExists 42 5),
          .deliver ⟨1, 0, ⟨42, .updateHome 1⟩⟩, .call 1 (.registerEntity 42)] by decide +kernel)
  obtain ⟨past', s', hrun', hpast'⟩ := Config.exists_run
    (show ∃ r ∈ Config.pair.play Runs.free
        [.call 1 (.registerEntity 42), .call 2 (.registerEntity 7),
          .deliver ⟨1, 0, ⟨42, .updateHome 1⟩⟩, .call 2 (.entityExists 42 5),
          .call 2 (.entityEmigrated 7 1), .deliver ⟨2, 0, ⟨42, .existsRequest 2⟩⟩],
        r.1 = [.deliver ⟨2, 0, ⟨42, .existsRequest 2⟩⟩, .call 2 (.entityEmigrated 7 1),
          .call 2 (.entityExists 42 5), .deliver ⟨1, 0, ⟨42, .updateHome 1⟩⟩,
          .call 2 (.registerEntity 7), .call 1 (.registerEntity 42)] by decide +kernel)
  have hpast : past = _ := hpast
  have hpast' : past' = _ := hpast'
  have hfits : ∀ ls : List (Label Nat), (∀ l ∈ ls, ∀ id, l.entity = some id → id ∈ ({42, 7} :
      Finset Nat)) → Config.pair.Fits ls := fun ls hls => Config.fits_of_subset hls fun _ => le_rfl
  refine ⟨past, past', s, s', hrun, hrun', ?_,
    entities_are_independent hrun hrun' (hfits _ ?_) (hfits _ ?_) rfl ?_⟩
  · rw [hpast, hpast']
    decide
  · rw [hpast]
    simp [Label.entity]
  · rw [hpast']
    simp [Label.entity]
  · rw [hpast, hpast']
    decide

end Loc
