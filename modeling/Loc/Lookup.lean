import Loc.Cache

/-!
# Loc.Lookup

The home directory (`directory/directory.h`) and the combined lookup over it and
the LRU cache (`lookup/lookup.h`).

`LocLookup.slot` is what a lookup holds for one key, in the directory and in the
cache. The `*_some` lemmas say what each operation does to the slot of its own
key and, up to eviction, to the slot of every other key; nothing above this file
looks at the cache's internals.
-/

namespace Loc

/-- Permanent, home-node directory of entity locations. It never evicts. -/
structure Directory (K V : Type) where
  dir : Finmap fun _ : K => V

namespace Directory

variable {K V : Type} [DecidableEq K]

def empty : Directory K V := ⟨∅⟩

def «exists» (d : Directory K V) (key : K) : Bool := (d.dir.lookup key).isSome

/-- The entry an iterator to `key` points to; `none` is `getIterEnd()`. -/
def getIter (d : Directory K V) (key : K) : Option V := d.dir.lookup key

def remove (d : Directory K V) (key : K) : Directory K V := ⟨d.dir.erase key⟩

/-- Both branches of the source, a fresh key and an overwritten one, leave `key`
mapped to `value`. -/
def insert (d : Directory K V) (key : K) (value : V) : Directory K V := ⟨d.dir.insert key value⟩

end Directory

/-- Combined lookup over the home-node directory and the local LRU cache. -/
structure LocLookup (K V : Type) [DecidableEq K] where
  maxCacheSize : Nat
  directory : Directory K V
  cache : CoherentCache K V
  thisNode : NodeType

namespace LocLookup

variable {K V : Type} [DecidableEq K]

def new (maxCacheSize : Nat) (thisNode : NodeType) : LocLookup K V where
  maxCacheSize
  directory := .empty
  cache := .new maxCacheSize
  thisNode

def «exists» (l : LocLookup K V) (key : K) : Bool := l.directory.exists key || l.cache.exists key

/-- The directory answers first. A cache hit promotes the key. -/
def get (l : LocLookup K V) (key : K) : Option (V × LocLookup K V) :=
  match l.directory.getIter key with
  | some value => some (value, l)
  | none => do
      let (value, cache) ← l.cache.get key
      return (value, { l with cache })

def remove (l : LocLookup K V) (key : K) : Option (LocLookup K V) := do
  let cache ← l.cache.remove key
  return { l with directory := l.directory.remove key, cache }

/-- On the home node the location goes to the permanent directory, elsewhere to
the cache. -/
def insert (l : LocLookup K V) (key : K) (home : NodeType) (value : V) :
    Option (LocLookup K V) :=
  if l.thisNode = home then
    some { l with directory := l.directory.insert key value }
  else do
    let cache ← l.cache.insert key value
    return { l with cache }

/-- The store is chosen by what is present, not by who the home is. -/
def update (l : LocLookup K V) (key : K) (value : V) : Option (LocLookup K V) :=
  match l.directory.getIter key with
  | some _ => some { l with directory := l.directory.insert key value }
  | none => do
      let cache ← l.cache.insert key value
      return { l with cache }

def clearCache (l : LocLookup K V) : LocLookup K V :=
  { l with cache := .new l.maxCacheSize }

/-! ### Slots -/

/-- What a lookup holds for one key. -/
structure Slot (V : Type) where
  dir : Option V
  cached : Option V
  deriving DecidableEq

namespace Slot

/-- What a read returns: the directory answers first. -/
def value (t : Slot V) : Option V := t.dir.or t.cached

/-- The slot after its cache entry was evicted. -/
def evicted (t : Slot V) : Slot V := { t with cached := none }

/-- The slot after `LocLookup::update`. -/
def updated (t : Slot V) (v : V) : Slot V :=
  if t.dir.isSome then { t with dir := some v } else { t with cached := some v }

end Slot

/-- The slot of `key`. -/
def slot (l : LocLookup K V) (key : K) : Slot V := ⟨l.directory.getIter key, l.cache.find key⟩

/-- The key is left alone by an operation on another one, except that it may be
evicted from the cache. -/
def Keeps (l l' : LocLookup K V) (key : K) : Prop :=
  l'.slot key = l.slot key ∨ l'.slot key = (l.slot key).evicted

theorem keeps_of_eq {l l' : LocLookup K V} {key : K} (h : l'.slot key = l.slot key) :
    Keeps l l' key := Or.inl h

/-- `insert` and `update` write through these two. -/
theorem slot_directory_insert (l : LocLookup K V) (key k : K) (value : V) :
    slot { l with directory := l.directory.insert key value } k =
      if k = key then { l.slot k with dir := some value } else l.slot k := by
  by_cases hk : k = key
  · subst hk
    simp [slot, Directory.insert, Directory.getIter]
  · simp [slot, Directory.insert, Directory.getIter, hk, Finmap.lookup_insert_of_ne]

theorem slot_cache_insert {l : LocLookup K V} {cache : CoherentCache K V} {key : K} {value : V}
    (h : l.cache.insert key value = some cache) :
    slot { l with cache } key = { l.slot key with cached := some value } ∧
      ∀ k, k ≠ key → Keeps l { l with cache } k := by
  obtain ⟨-, hself, hother⟩ := CoherentCache.insert_some h
  refine ⟨by simp [slot, hself], fun k hk => ?_⟩
  rcases hother k hk with hkeep | hlost
  · exact Or.inl (by simp [slot, hkeep])
  · exact Or.inr (by simp [slot, Slot.evicted, hlost])

@[simp] theorem slot_new (maxCacheSize : Nat) (thisNode : NodeType) (key : K) :
    (new maxCacheSize thisNode : LocLookup K V).slot key = ⟨none, none⟩ := rfl

theorem exists_eq (l : LocLookup K V) (key : K) : l.exists key = (l.slot key).value.isSome := by
  rw [LocLookup.exists, CoherentCache.exists_eq, Slot.value, Option.isSome_or]
  rfl

theorem get_some {l l' : LocLookup K V} {key : K} {v : V} (h : l.get key = some (v, l')) :
    (l.slot key).value = some v ∧ l'.thisNode = l.thisNode ∧ ∀ k, l'.slot k = l.slot k := by
  rw [get] at h
  cases hd : l.directory.getIter key with
  | some w =>
      rw [hd] at h
      obtain ⟨rfl, rfl⟩ := Prod.mk.inj (Option.some.inj h)
      exact ⟨by simp [slot, Slot.value, hd], rfl, fun _ => rfl⟩
  | none =>
      rw [hd] at h
      obtain ⟨⟨w, cache⟩, hget, h⟩ := Option.bind_eq_some_iff.mp h
      obtain ⟨rfl, rfl⟩ := Prod.mk.inj (Option.some.inj h)
      obtain ⟨hfind, -, hkeep⟩ := CoherentCache.get_some hget
      exact ⟨by simp [slot, Slot.value, hd, hfind], rfl, fun k => by simp [slot, hkeep]⟩

theorem remove_some {l l' : LocLookup K V} {key : K} (h : l.remove key = some l') :
    l'.thisNode = l.thisNode ∧ l'.slot key = ⟨none, none⟩ ∧
      ∀ k, k ≠ key → l'.slot k = l.slot k := by
  obtain ⟨cache, hrem, h⟩ := Option.bind_eq_some_iff.mp h
  obtain rfl := Option.some.inj h
  obtain ⟨-, hself, hother⟩ := CoherentCache.remove_some hrem
  refine ⟨rfl, ?_, fun k hk => ?_⟩
  · simp [slot, Directory.remove, Directory.getIter, Finmap.lookup_erase, hself]
  · simp [slot, Directory.remove, Directory.getIter, Finmap.lookup_erase_ne hk, hother k hk]

/-- `insert` with this node as the home writes the directory. -/
theorem insert_some_home {l l' : LocLookup K V} {key : K} {v : V}
    (h : l.insert key l.thisNode v = some l') :
    l'.thisNode = l.thisNode ∧ l'.slot key = { l.slot key with dir := some v } ∧
      ∀ k, k ≠ key → l'.slot k = l.slot k := by
  rw [insert, if_pos rfl] at h
  obtain rfl := Option.some.inj h
  refine ⟨rfl, ?_, fun k hk => ?_⟩
  · rw [slot_directory_insert, if_pos rfl]
  · rw [slot_directory_insert, if_neg hk]

/-- `insert` of a key with another home writes the cache. -/
theorem insert_some_away {l l' : LocLookup K V} {key : K} {home : NodeType} {v : V}
    (haway : l.thisNode ≠ home) (h : l.insert key home v = some l') :
    l'.thisNode = l.thisNode ∧ l'.slot key = { l.slot key with cached := some v } ∧
      ∀ k, k ≠ key → Keeps l l' k := by
  rw [insert, if_neg haway] at h
  obtain ⟨cache, hins, h⟩ := Option.bind_eq_some_iff.mp h
  obtain rfl := Option.some.inj h
  obtain ⟨hself, hother⟩ := slot_cache_insert hins
  exact ⟨rfl, hself, hother⟩

theorem update_some {l l' : LocLookup K V} {key : K} {v : V} (h : l.update key v = some l') :
    l'.thisNode = l.thisNode ∧ l'.slot key = (l.slot key).updated v ∧
      ∀ k, k ≠ key → Keeps l l' k := by
  rw [update] at h
  cases hd : l.directory.getIter key with
  | some w =>
      rw [hd] at h
      obtain rfl := Option.some.inj h
      refine ⟨rfl, ?_, fun k hk => keeps_of_eq ?_⟩
      · rw [slot_directory_insert, if_pos rfl]
        simp [Slot.updated, slot, hd]
      · rw [slot_directory_insert, if_neg hk]
  | none =>
      rw [hd] at h
      obtain ⟨cache, hins, h⟩ := Option.bind_eq_some_iff.mp h
      obtain rfl := Option.some.inj h
      obtain ⟨hself, hother⟩ := slot_cache_insert hins
      exact ⟨rfl, by rw [hself]; simp [Slot.updated, slot, hd], hother⟩

/-- An update takes nothing out of the directory. -/
theorem update_some_dir {l l' : LocLookup K V} {key : K} {v : V} (h : l.update key v = some l')
    {k : K} (hk : (l.slot k).dir.isSome) : (l'.slot k).dir.isSome := by
  obtain ⟨-, hself, hother⟩ := update_some h
  by_cases heq : k = key
  · subst heq
    rw [hself, Slot.updated, if_pos hk]
    rfl
  · obtain hsame | hevicted := hother k heq
    · rw [hsame]
      exact hk
    · rw [hevicted]
      exact hk

@[simp] theorem slot_clearCache (l : LocLookup K V) (key : K) :
    l.clearCache.slot key = (l.slot key).evicted := rfl

/-! ### With a capacity of at least one, no operation is undefined -/

/-- An update goes to the directory, or needs a cache that takes something. -/
theorem update_isSome_iff {l : LocLookup K V} {key : K} {v : V} :
    (l.update key v).isSome ↔ l.directory.exists key = true ∨ 0 < l.cache.val.maxSize := by
  rw [update, Directory.exists, ← Directory.getIter]
  cases l.directory.getIter key with
  | some w => simp
  | none =>
      rw [← CoherentCache.insert_isSome_iff key v]
      cases l.cache.insert key v <;> simp

/-- The cache was built with this lookup's capacity, and it is not zero. -/
structure Roomy (l : LocLookup K V) : Prop where
  pos : 0 < l.maxCacheSize
  cache : l.cache.val.maxSize = l.maxCacheSize

theorem Roomy.insert_isSome {l : LocLookup K V} (h : l.Roomy) (key : K) (home : NodeType) (v : V) :
    ∃ l', l.insert key home v = some l' ∧ l'.Roomy := by
  rw [insert]
  split
  · exact ⟨_, rfl, ⟨h.pos, h.cache⟩⟩
  · obtain ⟨cache, hins⟩ := Option.isSome_iff_exists.mp
      (CoherentCache.insert_isSome (h.cache ▸ h.pos) key v)
    exact ⟨{ l with cache }, by rw [hins]; rfl,
      ⟨h.pos, (CoherentCache.insert_some hins).1.trans h.cache⟩⟩

theorem Roomy.update_isSome {l : LocLookup K V} (h : l.Roomy) (key : K) (v : V) :
    ∃ l', l.update key v = some l' ∧ l'.Roomy := by
  rw [update]
  cases l.directory.getIter key with
  | some w => exact ⟨_, rfl, ⟨h.pos, h.cache⟩⟩
  | none =>
      obtain ⟨cache, hins⟩ := Option.isSome_iff_exists.mp
        (CoherentCache.insert_isSome (h.cache ▸ h.pos) key v)
      exact ⟨{ l with cache }, by rw [hins]; rfl,
      ⟨h.pos, (CoherentCache.insert_some hins).1.trans h.cache⟩⟩

theorem Roomy.remove_isSome {l : LocLookup K V} (h : l.Roomy) (key : K) :
    ∃ l', l.remove key = some l' ∧ l'.Roomy := by
  obtain ⟨cache, hrem⟩ := Option.isSome_iff_exists.mp (l.cache.remove_isSome key)
  exact ⟨{ l with directory := l.directory.remove key, cache }, by rw [remove, hrem]; rfl,
    ⟨h.pos, (CoherentCache.remove_some hrem).1.trans h.cache⟩⟩

/-- A key that exists can be read. -/
theorem get_isSome {l : LocLookup K V} {key : K} (hkey : l.exists key = true) :
    ∃ v l', l.get key = some (v, l') ∧ (l.Roomy → l'.Roomy) := by
  rw [get]
  cases hd : l.directory.getIter key with
  | some v => exact ⟨v, l, rfl, id⟩
  | none =>
      have hfind : (l.cache.find key).isSome := by
        rw [exists_eq] at hkey
        simpa [slot, Slot.value, hd] using hkey
      obtain ⟨⟨v, cache⟩, hget⟩ := Option.isSome_iff_exists.mp (CoherentCache.get_isSome hfind)
      exact ⟨v, { l with cache }, by rw [hget]; rfl,
        fun h => ⟨h.pos, (CoherentCache.get_some hget).2.1.trans h.cache⟩⟩

theorem Roomy.get_isSome {l : LocLookup K V} (h : l.Roomy) {key : K} (hkey : l.exists key = true) :
    ∃ v l', l.get key = some (v, l') ∧ l'.Roomy := by
  obtain ⟨v, l', hget, hroomy⟩ := LocLookup.get_isSome hkey
  exact ⟨v, l', hget, hroomy h⟩

theorem Roomy.clearCache {l : LocLookup K V} (h : l.Roomy) : l.clearCache.Roomy :=
  ⟨h.pos, rfl⟩

theorem roomy_new {maxCacheSize : Nat} (h : 0 < maxCacheSize) (thisNode : NodeType) :
    (new maxCacheSize thisNode : LocLookup K V).Roomy :=
  ⟨h, rfl⟩

end LocLookup

end Loc
