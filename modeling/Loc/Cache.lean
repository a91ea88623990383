import Mathlib.Data.Finmap
import Loc.Lib.Recency
import Loc.Record

/-!
# Loc.Cache

The LRU cache of resolved locations (`cache/cache.h`).

`LocationCache` keeps two structures that it updates separately: `cache`, a
`std::list` of key/value nodes in recency order, and `lookup`, a hash map from
keys to iterators into that list. A list node is modelled with its identity
(`ListNode.addr`), an iterator is the identity of the node it points to, and an
operation the standard library leaves undefined (dereferencing an iterator to a
node that is gone, popping an empty list) or that `locAssert` rejects has no
result: it returns `none`.

* `LocationCache.Coherent` is the agreement of the two structures.
* `get_spec`, `remove_spec`, `insert_spec` say that on a coherent cache every
  operation keeps the agreement and acts on `entries` as the recency list does.
* `CoherentCache` packages a cache with its coherence, so that the layers above
  never meet an incoherent one.
-/

namespace Loc

/-- A node of `std::list<std::tuple<KeyT, ValueT>>`. An iterator is an `addr`. -/
structure ListNode (K V : Type) where
  addr : Nat
  key : K
  value : V

/-! ### The operations of `std::list` the cache uses -/

namespace ListNode

variable {K V : Type}

/-- `*iter`. -/
def deref (l : List (ListNode K V)) (iter : Nat) : Option (ListNode K V) :=
  l.find? fun n => n.addr = iter

@[simp] theorem deref_cons_self (n : ListNode K V) (l : List (ListNode K V)) :
    deref (n :: l) n.addr = some n := by
  simp [deref]

/-- `list.erase(iter)`. -/
def eraseAt (l : List (ListNode K V)) (iter : Nat) : Option (List (ListNode K V)) := do
  let _ ← deref l iter
  return l.filter fun n => n.addr ≠ iter

/-- `list.splice(list.begin(), list, iter)`: the node keeps its identity. -/
def spliceFront (l : List (ListNode K V)) (iter : Nat) : Option (List (ListNode K V)) := do
  let n ← deref l iter
  return n :: l.filter fun n => n.addr ≠ iter

/-- `std::get<1>(*iter) = value`. -/
def assign (l : List (ListNode K V)) (iter : Nat) (value : V) :
    Option (List (ListNode K V)) := do
  let _ ← deref l iter
  return l.map fun n => if n.addr = iter then { n with value } else n

end ListNode

/-- The cache. `nextAddr` stands for the allocator: it is the identity the next
`push_front` gives its node. -/
structure LocationCache (K V : Type) where
  /-- Container for quick lookup. -/
  lookup : Finmap fun _ : K => Nat
  /-- The location records in LRU order, front = most recent. -/
  cache : List (ListNode K V)
  /-- The maximum size the cache is allowed to grow. -/
  maxSize : Nat
  nextAddr : Nat

namespace LocationCache

open ListNode

variable {K V : Type} [DecidableEq K]

/-- The constructor: any size is accepted. -/
def new (maxSize : Nat) : LocationCache K V where
  lookup := ∅
  cache := []
  maxSize
  nextAddr := 0

def «exists» (c : LocationCache K V) (key : K) : Bool := (c.lookup.lookup key).isSome

def getSize (c : LocationCache K V) : Nat := c.maxSize

/-- The value of `key`, which becomes the most recently used. A missing key is
rejected by `locAssert`. -/
def get (c : LocationCache K V) (key : K) : Option (V × LocationCache K V) :=
  match c.lookup.lookup key with
  | none => none
  | some iter => do
      let cache ← spliceFront c.cache iter
      let n ← deref cache iter
      return (n.value, { c with cache })

def remove (c : LocationCache K V) (key : K) : Option (LocationCache K V) :=
  match c.lookup.lookup key with
  | none => some c
  | some iter => do
      let cache ← eraseAt c.cache iter
      return { c with cache, lookup := c.lookup.erase key }

/-- Make room for one entry: read the key of the last node, drop it from
`lookup`, pop it from `cache`. On an empty list `*crbegin()` is undefined. -/
def evict (c : LocationCache K V) : Option (LocationCache K V) := do
  let last ← c.cache.getLast?
  return { c with lookup := c.lookup.erase last.key, cache := c.cache.dropLast }

/-- `push_front` followed by `lookup_.emplace` of a key that is absent. -/
def pushFront (c : LocationCache K V) (key : K) (value : V) : LocationCache K V :=
  { c with
    cache := ⟨c.nextAddr, key, value⟩ :: c.cache
    lookup := c.lookup.insert key c.nextAddr
    nextAddr := c.nextAddr + 1 }

def insert (c : LocationCache K V) (key : K) (value : V) : Option (LocationCache K V) :=
  match c.lookup.lookup key with
  | none => do
      let c ← if c.lookup.keys.card + 1 > c.maxSize then c.evict else some c
      return c.pushFront key value
  | some iter => do
      let cache ← assign c.cache iter value
      let cache ← spliceFront cache iter
      return { c with cache }

/-! ### Agreement of the two structures -/

/-- The key/value pairs of `cache`, most recently used first. -/
def entries (c : LocationCache K V) : List (K × V) := c.cache.map fun n => (n.key, n.value)

/-- `lookup` and `cache` describe the same entries: every key has one node, every
identity names one node, `lookup` sends each key to its node and nothing else,
the allocator will not reuse a live identity, and there is no more than `maxSize`
of them. -/
structure Coherent (c : LocationCache K V) : Prop where
  keys_nodup : (c.cache.map ListNode.key).Nodup
  addrs_nodup : (c.cache.map ListNode.addr).Nodup
  lookup_iff : ∀ k a, c.lookup.lookup k = some a ↔ ∃ n ∈ c.cache, n.key = k ∧ n.addr = a
  fresh : ∀ n ∈ c.cache, n.addr < c.nextAddr
  length_le : c.cache.length ≤ c.maxSize

theorem coherent_new (maxSize : Nat) : (new maxSize : LocationCache K V).Coherent where
  keys_nodup := List.nodup_nil
  addrs_nodup := List.nodup_nil
  lookup_iff := by simp [new]
  fresh := by simp [new]
  length_le := Nat.zero_le _

omit [DecidableEq K] in
@[simp] theorem entries_new (maxSize : Nat) :
    (new maxSize : LocationCache K V).entries = [] := rfl

omit [DecidableEq K] in
theorem keys_entries (c : LocationCache K V) :
    Recency.keys c.entries = c.cache.map ListNode.key := by
  simp [Recency.keys, entries, Function.comp_def]

namespace Coherent

variable {c : LocationCache K V}

theorem entries_nodup (h : c.Coherent) : (Recency.keys c.entries).Nodup := by
  rw [keys_entries]
  exact h.keys_nodup

/-- On a coherent cache `exists` looks at the entries. -/
theorem exists_eq (h : c.Coherent) (key : K) : c.exists key = (c.entries.lookup key).isSome := by
  rw [Bool.eq_iff_iff, Recency.lookup_isSome_iff, keys_entries, LocationCache.exists,
    Option.isSome_iff_exists]
  simp [h.lookup_iff]

/-- The keys of `lookup` are the keys of the nodes. -/
theorem keys_eq (h : c.Coherent) : c.lookup.keys = (c.cache.map ListNode.key).toFinset := by
  ext k
  rw [Finmap.mem_keys, ← Finmap.lookup_isSome, Option.isSome_iff_exists, List.mem_toFinset]
  simp [h.lookup_iff]

/-- `lookup_.size()` is the length of the list. -/
theorem card_keys (h : c.Coherent) : c.lookup.keys.card = c.cache.length := by
  rw [h.keys_eq, List.toFinset_card_of_nodup h.keys_nodup, List.length_map]

/-- The node `lookup` sends `key` to. -/
theorem node_of_lookup (h : c.Coherent) {key : K} {iter : Nat}
    (hl : c.lookup.lookup key = some iter) :
    ∃ n ∈ c.cache, n.key = key ∧ n.addr = iter ∧ c.entries.lookup key = some n.value := by
  obtain ⟨n, hn, hk, ha⟩ := (h.lookup_iff key iter).mp hl
  refine ⟨n, hn, hk, ha, ?_⟩
  rw [Recency.lookup_eq_some_iff h.entries_nodup]
  exact List.mem_map.mpr ⟨n, hn, by rw [hk]⟩

theorem lookup_entries_of_none (h : c.Coherent) {key : K} (hl : c.lookup.lookup key = none) :
    c.entries.lookup key = none := by
  have := h.exists_eq key
  rw [LocationCache.exists, hl] at this
  simpa using this.symm

/-- A cache of capacity 0 is empty, and so is its `lookup`. -/
theorem empty_of_zero (h : c.Coherent) (hzero : c.maxSize = 0) :
    c.cache = [] ∧ ∀ key, c.lookup.lookup key = none := by
  have hnil : c.cache = [] := by
    rw [← List.length_eq_zero_iff]
    have := h.length_le
    omega
  refine ⟨hnil, fun key => ?_⟩
  cases hl : c.lookup.lookup key with
  | none => rfl
  | some iter =>
      obtain ⟨n, hn, -⟩ := h.node_of_lookup hl
      rw [hnil] at hn
      exact absurd hn List.not_mem_nil

/-- Two live nodes share their identity exactly when they share their key. -/
theorem addr_eq_iff (h : c.Coherent) {n m : ListNode K V} (hn : n ∈ c.cache) (hm : m ∈ c.cache) :
    m.addr = n.addr ↔ m.key = n.key := by
  constructor
  · intro ha
    rw [List.inj_on_of_nodup_map h.addrs_nodup hm hn ha]
  · intro hk
    rw [List.inj_on_of_nodup_map h.keys_nodup hm hn hk]

theorem deref_eq (h : c.Coherent) {n : ListNode K V} (hn : n ∈ c.cache) :
    deref c.cache n.addr = some n := by
  cases hd : deref c.cache n.addr with
  | none =>
      have := List.find?_eq_none.mp hd n hn
      simp at this
  | some m =>
      have hm := List.mem_of_find?_eq_some hd
      have ha : m.addr = n.addr := by simpa using List.find?_some hd
      rw [List.inj_on_of_nodup_map h.addrs_nodup hm hn ha]

/-- Dropping the node of an iterator drops the pair of its key. -/
theorem entries_filter (h : c.Coherent) {n : ListNode K V} (hn : n ∈ c.cache) :
    (c.cache.filter fun m => m.addr ≠ n.addr).map (fun m => (m.key, m.value)) =
      Recency.erase n.key c.entries := by
  rw [Recency.erase, entries, List.filter_map]
  refine congrArg _ (List.filter_congr fun m hm => ?_)
  simp [h.addr_eq_iff hn hm]

end Coherent

/-! ### What each operation does to a coherent cache -/

section Ops

variable {c : LocationCache K V}

/-- Moving the node of `key` to the front, possibly with another value. -/
theorem Coherent.moveFront (h : c.Coherent) {n : ListNode K V} (hn : n ∈ c.cache) (value : V) :
    let c' := { c with
      cache := ⟨n.addr, n.key, value⟩ :: c.cache.filter fun m => m.addr ≠ n.addr }
    c'.Coherent ∧ c'.entries = (n.key, value) :: Recency.erase n.key c.entries := by
  refine ⟨⟨?_, ?_, ?_, ?_, ?_⟩, ?_⟩
  · have := Recency.nodup_erase h.entries_nodup n.key
    rw [← h.entries_filter hn] at this
    refine List.nodup_cons.mpr ⟨?_, by simpa [Recency.keys, Function.comp_def] using this⟩
    intro hm
    obtain ⟨m, hm, hk⟩ := List.mem_map.mp hm
    obtain ⟨hm, ha⟩ := List.mem_filter.mp hm
    exact absurd ((h.addr_eq_iff hn hm).mpr hk) (by simpa using ha)
  · refine List.nodup_cons.mpr ⟨by simp, ?_⟩
    exact (List.Sublist.map _ List.filter_sublist).nodup h.addrs_nodup
  · intro k a
    rw [h.lookup_iff]
    constructor
    · intro h
      obtain ⟨m, hm, rfl, rfl⟩ := h
      by_cases ha : m.addr = n.addr
      · exact ⟨_, List.mem_cons_self, ((h.addr_eq_iff hn hm).mp ha).symm, ha.symm⟩
      · exact ⟨m, List.mem_cons_of_mem _ (List.mem_filter.mpr ⟨hm, by simpa using ha⟩), rfl, rfl⟩
    · intro h
      obtain ⟨m, hm, rfl, rfl⟩ := h
      rcases List.mem_cons.mp hm with rfl | hm
      · exact ⟨n, hn, rfl, rfl⟩
      · exact ⟨m, (List.mem_filter.mp hm).1, rfl, rfl⟩
  · intro m hm
    rcases List.mem_cons.mp hm with rfl | hm
    · exact h.fresh n hn
    · exact h.fresh m (List.mem_filter.mp hm).1
  · have hlt : (c.cache.filter fun m => m.addr ≠ n.addr).length < c.cache.length :=
      List.length_filter_lt_length_iff_exists.mpr ⟨n, hn, by simp⟩
    exact hlt.trans_le h.length_le
  · exact congrArg _ (h.entries_filter hn)

/-- `get` of a present key returns its value and touches it. -/
theorem get_spec (h : c.Coherent) {key : K} {v : V} (hv : c.entries.lookup key = some v) :
    ∃ c', c.get key = some (v, c') ∧ c'.Coherent ∧ c'.maxSize = c.maxSize ∧
      c'.entries = Recency.touch key c.entries := by
  cases hl : c.lookup.lookup key with
  | none => rw [h.lookup_entries_of_none hl] at hv; exact absurd hv (by simp)
  | some iter =>
      obtain ⟨n, hn, rfl, rfl, hnv⟩ := h.node_of_lookup hl
      obtain rfl : n.value = v := by rw [hnv] at hv; exact Option.some.inj hv
      obtain ⟨hc', hent⟩ := h.moveFront hn n.value
      refine ⟨_, ?_, hc', rfl, ?_⟩
      · simp [get, hl, spliceFront, h.deref_eq hn]
      · rw [hent, Recency.touch, hnv]

/-- `get` of a missing key is rejected. -/
theorem get_eq_none (h : c.Coherent) {key : K} (hv : c.entries.lookup key = none) :
    c.get key = none := by
  have := h.exists_eq key
  rw [hv, LocationCache.exists, Option.isSome_none, Option.isSome_eq_false_iff,
    Option.isNone_iff_eq_none] at this
  rw [get, this]

theorem remove_spec (h : c.Coherent) (key : K) :
    ∃ c', c.remove key = some c' ∧ c'.Coherent ∧ c'.maxSize = c.maxSize ∧
      c'.entries = Recency.erase key c.entries := by
  cases hl : c.lookup.lookup key with
  | none =>
      refine ⟨c, by rw [remove, hl], h, rfl, ?_⟩
      have hk := Recency.lookup_eq_none_iff.mp (h.lookup_entries_of_none hl)
      rw [Recency.erase, List.filter_eq_self.mpr]
      intro e he
      simp only [ne_eq, decide_eq_true_eq]
      intro heq
      subst heq
      exact hk (List.mem_map.mpr ⟨e, he, rfl⟩)
  | some iter =>
      obtain ⟨n, hn, rfl, rfl, -⟩ := h.node_of_lookup hl
      refine ⟨{ c with
          cache := c.cache.filter fun m => m.addr ≠ n.addr
          lookup := c.lookup.erase n.key }, ?_, ⟨?_, ?_, ?_, ?_, ?_⟩, rfl, h.entries_filter hn⟩
      · simp [remove, hl, eraseAt, h.deref_eq hn]
      · exact (List.Sublist.map _ List.filter_sublist).nodup h.keys_nodup
      · exact (List.Sublist.map _ List.filter_sublist).nodup h.addrs_nodup
      · intro k a
        by_cases hk : k = n.key
        · subst hk
          rw [Finmap.lookup_erase]
          refine ⟨fun h' => absurd h' (by simp), ?_⟩
          rintro ⟨m, hm, hk, -⟩
          obtain ⟨hm, ha⟩ := List.mem_filter.mp hm
          exact absurd ((h.addr_eq_iff hn hm).mpr hk) (by simpa using ha)
        · rw [Finmap.lookup_erase_ne hk, h.lookup_iff]
          constructor
          · intro h
            obtain ⟨m, hm, rfl, rfl⟩ := h
            refine ⟨m, List.mem_filter.mpr ⟨hm, ?_⟩, rfl, rfl⟩
            simpa using fun ha => hk ((h.addr_eq_iff hn hm).mp ha)
          · intro h
            obtain ⟨m, hm, rfl, rfl⟩ := h
            exact ⟨m, (List.mem_filter.mp hm).1, rfl, rfl⟩
      · exact fun m hm => h.fresh m (List.mem_filter.mp hm).1
      · exact (List.length_filter_le ..).trans h.length_le

/-- Overwriting the value of a node before moving it to the front. -/
theorem Coherent.assign_splice (h : c.Coherent) {n : ListNode K V} (hn : n ∈ c.cache) (value : V) :
    (assign c.cache n.addr value).bind (fun l => spliceFront l n.addr) =
      some (⟨n.addr, n.key, value⟩ :: c.cache.filter fun m => m.addr ≠ n.addr) := by
  have hassign : assign c.cache n.addr value =
      some (c.cache.map fun m => if m.addr = n.addr then { m with value } else m) := by
    simp [assign, h.deref_eq hn]
  have haddr : ∀ m : ListNode K V,
      (if m.addr = n.addr then { m with value } else m).addr = m.addr := by
    intro m
    split <;> rfl
  have hderef : deref (c.cache.map fun m => if m.addr = n.addr then { m with value } else m)
      n.addr = some ⟨n.addr, n.key, value⟩ := by
    have hd := h.deref_eq hn
    rw [deref] at hd ⊢
    rw [List.find?_map, Function.comp_def]
    simp only [haddr, hd, Option.map_some]
    simp
  rw [hassign, Option.bind_some, spliceFront, hderef]
  simp only [Option.pure_def, Option.bind_eq_bind, Option.bind_some, Option.some.injEq,
    List.cons.injEq, true_and]
  rw [List.filter_map, Function.comp_def]
  simp only [haddr]
  refine (List.map_congr_left fun m hm => ?_).trans (List.map_id _)
  rw [if_neg (by simpa using (List.mem_filter.mp hm).2)]
  rfl

/-- A key that is not in `lookup` may be pushed, provided there is room for it. -/
theorem Coherent.pushFront (h : c.Coherent) {key : K} (hl : c.lookup.lookup key = none)
    (hroom : c.cache.length < c.maxSize) (value : V) : (c.pushFront key value).Coherent where
  keys_nodup := by
    refine List.nodup_cons.mpr ⟨?_, h.keys_nodup⟩
    rw [← keys_entries]
    exact Recency.lookup_eq_none_iff.mp (h.lookup_entries_of_none hl)
  addrs_nodup := by
    refine List.nodup_cons.mpr ⟨?_, h.addrs_nodup⟩
    intro hm
    obtain ⟨m, hm, ha⟩ := List.mem_map.mp hm
    exact absurd ha (Nat.ne_of_lt (h.fresh m hm))
  lookup_iff := by
    intro k a
    by_cases hk : k = key
    · subst hk
      have hnone : ∀ m ∈ c.cache, m.key ≠ k := by
        rintro m hm rfl
        rw [(h.lookup_iff m.key m.addr).mpr ⟨m, hm, rfl, rfl⟩] at hl
        exact absurd hl (by simp)
      simp only [LocationCache.pushFront, Finmap.lookup_insert, Option.some.injEq,
        List.mem_cons, exists_eq_or_imp, true_and]
      exact ⟨Or.inl, fun h' => h'.resolve_right fun ⟨m, hm, hk, _⟩ => hnone m hm hk⟩
    · simp only [LocationCache.pushFront, Finmap.lookup_insert_of_ne _ hk, h.lookup_iff,
        List.mem_cons, exists_eq_or_imp]
      exact ⟨Or.inr, fun h' => h'.resolve_left fun h'' => hk h''.1.symm⟩
  fresh := by
    intro m hm
    rcases List.mem_cons.mp hm with rfl | hm
    · exact Nat.lt_succ_self _
    · exact Nat.lt_succ_of_lt (h.fresh m hm)
  length_le := hroom

/-- Eviction from a non-empty cache drops the last pair. -/
theorem evict_spec (h : c.Coherent) (hne : c.cache ≠ []) :
    ∃ c', c.evict = some c' ∧ c'.Coherent ∧ c'.maxSize = c.maxSize ∧
      c'.entries = c.entries.dropLast ∧ c'.cache.length + 1 = c.cache.length := by
  obtain ⟨l, last, hcache⟩ : ∃ l last, c.cache = l ++ [last] :=
    ⟨_, _, (List.dropLast_append_getLast hne).symm⟩
  have hlast : last ∈ c.cache := by simp [hcache]
  -- No node that stays has the key that is erased from the table.
  have hother : ∀ m ∈ l, m.key ≠ last.key := by
    intro m hm hk
    have hnd := h.keys_nodup
    rw [hcache, List.map_append, List.nodup_append] at hnd
    exact hnd.2.2 _ (List.mem_map_of_mem hm) _ (by simp) hk
  refine ⟨{ c with lookup := c.lookup.erase last.key, cache := l }, ?_, ⟨?_, ?_, ?_, ?_, ?_⟩,
    rfl, ?_, ?_⟩
  · simp [evict, hcache]
  · have := h.keys_nodup
    rw [hcache, List.map_append] at this
    exact (List.nodup_append.mp this).1
  · have := h.addrs_nodup
    rw [hcache, List.map_append] at this
    exact (List.nodup_append.mp this).1
  · intro k a
    by_cases hk : k = last.key
    · subst hk
      rw [Finmap.lookup_erase]
      exact ⟨fun h' => absurd h' (by simp), fun ⟨m, hm, hk, _⟩ => absurd hk (hother m hm)⟩
    · rw [Finmap.lookup_erase_ne hk, h.lookup_iff, hcache]
      simp only [List.mem_append, List.mem_singleton]
      constructor
      · intro h
        obtain ⟨m, hm | rfl, hk', ha⟩ := h
        · exact ⟨m, hm, hk', ha⟩
        · exact absurd hk'.symm hk
      · intro h
        obtain ⟨m, hm, hk', ha⟩ := h
        exact ⟨m, Or.inl hm, hk', ha⟩
  · exact fun m hm => h.fresh m (by simp [hcache, hm])
  · have := h.length_le
    rw [hcache, List.length_append, List.length_singleton] at this
    exact Nat.le_of_succ_le this
  · simp [entries, hcache]
  · simp [hcache]

/-- With room for at least one entry, `insert` writes the key. -/
theorem insert_spec (h : c.Coherent) (hpos : 0 < c.maxSize) (key : K) (value : V) :
    ∃ c', c.insert key value = some c' ∧ c'.Coherent ∧ c'.maxSize = c.maxSize ∧
      c'.entries = Recency.write c.maxSize key value c.entries := by
  cases hl : c.lookup.lookup key with
  | some iter =>
      obtain ⟨n, hn, rfl, rfl, hnv⟩ := h.node_of_lookup hl
      obtain ⟨hc', hent⟩ := h.moveFront hn value
      refine ⟨_, ?_, hc', rfl, ?_⟩
      · have hcache := h.assign_splice hn value
        rw [insert, hl]
        simp only [Option.bind_eq_bind, Option.pure_def]
        rw [← Option.bind_assoc, hcache]
        rfl
      · have hk : n.key ∈ Recency.keys c.entries := by
          rw [← Recency.lookup_isSome_iff, hnv]
          rfl
        rw [hent, Recency.write, if_pos hk]
  | none =>
      have hk : key ∉ Recency.keys c.entries :=
        Recency.lookup_eq_none_iff.mp (h.lookup_entries_of_none hl)
      have hlen : c.entries.length = c.cache.length := List.length_map _
      rw [insert, hl, h.card_keys, Recency.write, if_neg hk, hlen]
      by_cases hfull : c.cache.length + 1 > c.maxSize
      · -- Full: the last pair goes before the new one comes.
        have hne : c.cache ≠ [] := by
          rintro hnil
          rw [hnil, List.length_nil] at hfull
          omega
        obtain ⟨c₁, hev, hc₁, hmax, hent, hlen₁⟩ := evict_spec h hne
        have hl₁ : c₁.lookup.lookup key = none := by
          rw [evict] at hev
          obtain ⟨last, -, hc⟩ := Option.bind_eq_some_iff.mp hev
          obtain rfl := Option.some.inj hc
          by_cases hkl : key = last.key
          · rw [hkl]
            exact Finmap.lookup_erase _ _
          · rw [← hl]
            exact Finmap.lookup_erase_ne hkl
        have hroom : c₁.cache.length < c₁.maxSize := by
          have := h.length_le
          omega
        refine ⟨c₁.pushFront key value, ?_, hc₁.pushFront hl₁ hroom value, hmax, ?_⟩
        · simp [hfull, hev]
        · rw [if_pos hfull, ← hent]
          rfl
      · refine ⟨c.pushFront key value, ?_, h.pushFront hl (by omega) value, rfl, ?_⟩
        · simp [hfull]
        · rw [if_neg hfull]
          rfl

/-- A cache of capacity 0 has nothing to evict: its `insert` runs into undefined
behaviour. -/
theorem insert_eq_none (h : c.Coherent) (hzero : c.maxSize = 0) (key : K) (value : V) :
    c.insert key value = none := by
  obtain ⟨hnil, hl⟩ := h.empty_of_zero hzero
  simp [insert, hl, h.card_keys, hnil, hzero, evict]

end Ops

end LocationCache

/-! ### Coherent caches -/

/-- A cache together with the agreement of its two structures. -/
structure CoherentCache (K V : Type) [DecidableEq K] where
  val : LocationCache K V
  coherent : val.Coherent

namespace CoherentCache

variable {K V : Type} [DecidableEq K]

/-- A cache operation that keeps coherence, as an operation on coherent caches. -/
def lift (r : Option (LocationCache K V)) (h : ∀ c', r = some c' → c'.Coherent) :
    Option (CoherentCache K V) :=
  match r, h with
  | none, _ => none
  | some c', h => some ⟨c', h c' rfl⟩

theorem lift_eq_some {r : Option (LocationCache K V)} {h : ∀ c', r = some c' → c'.Coherent}
    {c' : CoherentCache K V} : lift r h = some c' ↔ r = some c'.val := by
  cases r with
  | none => simp [lift]
  | some c₁ =>
      obtain ⟨c', hc'⟩ := c'
      simp [lift]

theorem lift_isSome {r : Option (LocationCache K V)} {h : ∀ c', r = some c' → c'.Coherent} :
    (lift r h).isSome = r.isSome := by
  cases r <;> rfl

def new (maxSize : Nat) : CoherentCache K V := ⟨.new maxSize, LocationCache.coherent_new maxSize⟩

def «exists» (c : CoherentCache K V) (key : K) : Bool := c.val.exists key

/-- What the cache holds for `key`, without touching it. -/
def find (c : CoherentCache K V) (key : K) : Option V := c.val.entries.lookup key

theorem get_coherent (c : CoherentCache K V) (key : K) :
    ∀ c', (c.val.get key).map Prod.snd = some c' → c'.Coherent := by
  intro c' hc'
  cases hv : c.val.entries.lookup key with
  | none => rw [LocationCache.get_eq_none c.coherent hv] at hc'; exact absurd hc' (by simp)
  | some v =>
      obtain ⟨c₁, hget, hcoh, -, -⟩ := LocationCache.get_spec c.coherent hv
      rw [hget] at hc'
      obtain rfl := Option.some.inj hc'
      exact hcoh

theorem remove_coherent (c : CoherentCache K V) (key : K) :
    ∀ c', c.val.remove key = some c' → c'.Coherent := by
  intro c' hc'
  obtain ⟨c₁, hrem, hcoh, -, -⟩ := LocationCache.remove_spec c.coherent key
  rw [hrem] at hc'
  exact Option.some.inj hc' ▸ hcoh

theorem insert_coherent (c : CoherentCache K V) (key : K) (value : V) :
    ∀ c', c.val.insert key value = some c' → c'.Coherent := by
  intro c' hc'
  rcases Nat.eq_zero_or_pos c.val.maxSize with hzero | hpos
  · rw [LocationCache.insert_eq_none c.coherent hzero] at hc'
    exact absurd hc' (by simp)
  · obtain ⟨c₁, hins, hcoh, -, -⟩ := LocationCache.insert_spec c.coherent hpos key value
    rw [hins] at hc'
    exact Option.some.inj hc' ▸ hcoh

def get (c : CoherentCache K V) (key : K) : Option (V × CoherentCache K V) := do
  let (v, _) ← c.val.get key
  let c' ← lift ((c.val.get key).map Prod.snd) (c.get_coherent key)
  return (v, c')

def remove (c : CoherentCache K V) (key : K) : Option (CoherentCache K V) :=
  lift (c.val.remove key) (c.remove_coherent key)

def insert (c : CoherentCache K V) (key : K) (value : V) : Option (CoherentCache K V) :=
  lift (c.val.insert key value) (c.insert_coherent key value)

@[simp] theorem find_new (maxSize : Nat) (key : K) :
    (new maxSize : CoherentCache K V).find key = none := rfl

@[simp] theorem maxSize_new (maxSize : Nat) :
    (new maxSize : CoherentCache K V).val.maxSize = maxSize := rfl

theorem exists_eq (c : CoherentCache K V) (key : K) : c.exists key = (c.find key).isSome :=
  c.coherent.exists_eq key

theorem get_some {c c' : CoherentCache K V} {key : K} {v : V} (h : c.get key = some (v, c')) :
    c.find key = some v ∧ c'.val.maxSize = c.val.maxSize ∧ ∀ k, c'.find k = c.find k := by
  obtain ⟨⟨v₁, c₁⟩, hget, h⟩ := Option.bind_eq_some_iff.mp h
  obtain ⟨c₂, hlift, h⟩ := Option.bind_eq_some_iff.mp h
  obtain ⟨rfl, rfl⟩ := Prod.mk.inj (Option.some.inj h)
  have hc₂ := lift_eq_some.mp hlift
  cases hv : c.val.entries.lookup key with
  | none => rw [LocationCache.get_eq_none c.coherent hv] at hget; exact absurd hget (by simp)
  | some w =>
      obtain ⟨c₃, hget', -, hmax, hent⟩ := LocationCache.get_spec c.coherent hv
      rw [hget'] at hget hc₂
      obtain ⟨rfl, rfl⟩ := Prod.mk.inj (Option.some.inj hget)
      obtain rfl := Option.some.inj hc₂
      exact ⟨hv, hmax, fun k => by rw [find, hent, Recency.lookup_touch]; rfl⟩

theorem get_isSome {c : CoherentCache K V} {key : K} (h : (c.find key).isSome) :
    (c.get key).isSome := by
  obtain ⟨v, hv⟩ := Option.isSome_iff_exists.mp h
  obtain ⟨c', hget, -, -, -⟩ := LocationCache.get_spec c.coherent hv
  have hlift : (lift ((c.val.get key).map Prod.snd) (c.get_coherent key)).isSome := by
    rw [lift_isSome, hget]
    rfl
  obtain ⟨c₂, hc₂⟩ := Option.isSome_iff_exists.mp hlift
  rw [get, hc₂, hget]
  rfl

theorem remove_some {c c' : CoherentCache K V} {key : K} (h : c.remove key = some c') :
    c'.val.maxSize = c.val.maxSize ∧ c'.find key = none ∧
      ∀ k, k ≠ key → c'.find k = c.find k := by
  obtain ⟨c₁, hrem, -, hmax, hent⟩ := LocationCache.remove_spec c.coherent key
  rw [lift_eq_some.mp h] at hrem
  obtain rfl := Option.some.inj hrem
  refine ⟨hmax, ?_, fun k hk => ?_⟩
  · rw [find, hent, Recency.lookup_erase_self]
  · rw [find, hent, Recency.lookup_erase_of_ne hk]
    rfl

theorem remove_isSome (c : CoherentCache K V) (key : K) : (c.remove key).isSome := by
  obtain ⟨c', hrem, -, -, -⟩ := LocationCache.remove_spec c.coherent key
  rw [remove, lift_isSome, hrem]
  rfl

theorem insert_some {c c' : CoherentCache K V} {key : K} {value : V}
    (h : c.insert key value = some c') :
    c'.val.maxSize = c.val.maxSize ∧ c'.find key = some value ∧
      ∀ k, k ≠ key → c'.find k = c.find k ∨ c'.find k = none := by
  have hins := lift_eq_some.mp h
  rcases Nat.eq_zero_or_pos c.val.maxSize with hzero | hpos
  · rw [LocationCache.insert_eq_none c.coherent hzero] at hins
    exact absurd hins (by simp)
  · obtain ⟨c₁, hins', -, hmax, hent⟩ := LocationCache.insert_spec c.coherent hpos key value
    rw [hins'] at hins
    obtain rfl := Option.some.inj hins
    refine ⟨hmax, ?_, fun k hk => ?_⟩
    · rw [find, hent, Recency.lookup_write_self]
    · rw [find, hent]
      exact Recency.lookup_write_of_ne c.coherent.entries_nodup hk _ _

theorem insert_isSome {c : CoherentCache K V} (h : 0 < c.val.maxSize) (key : K) (value : V) :
    (c.insert key value).isSome := by
  obtain ⟨c', hins, -, -, -⟩ := LocationCache.insert_spec c.coherent h key value
  rw [insert, lift_isSome, hins]
  rfl

/-- A cache of capacity zero takes nothing. -/
theorem insert_isSome_iff {c : CoherentCache K V} (key : K) (value : V) :
    (c.insert key value).isSome ↔ 0 < c.val.maxSize := by
  constructor
  · intro h
    refine Nat.pos_of_ne_zero fun hzero => ?_
    rw [insert, lift_isSome, LocationCache.insert_eq_none c.coherent hzero] at h
    exact absurd h (by simp)
  · exact fun h => insert_isSome h key value

end CoherentCache

end Loc
