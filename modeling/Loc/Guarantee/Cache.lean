import Loc.CacheRuns

/-!
# Loc.Guarantee.Cache

What the LRU cache guarantees **over every sequence of calls**.

* `cache_refines_recency_list` — the two structures agree, and the calls return what
  the recency list returns.
* `lru_retention` — which keys are present, in terms of the history alone.
* `eviction_safe_exactly` — the eviction step meets a node exactly when the capacity
  is not zero.
* `lru_inclusion` — a larger cache holds whatever a smaller one holds.
-/

namespace Loc

namespace LocationCache

variable {K V : Type} [DecidableEq K] {maxSize : Nat} {c : LocationCache K V}
  {past : List (Recency.Op K V × Recency.Result V)}

/-! ### Refinement of the recency list -/

/-- **The cache is a recency list.** After any sequence of calls, `lookup` has the
keys of the nodes, no key has two nodes, every iterator of `lookup` points to a live
node of its key, and the calls returned what they return on the recency list; the
next call returns what it returns there too, unless it is a `get` of a missing key. -/
theorem cache_refines_recency_list (hcap : 0 < maxSize)
    (hrun : (machine K V).Run Runs.free [] (new maxSize) past c) :
    c.lookup.keys = (c.cache.map ListNode.key).toFinset ∧
    (c.cache.map ListNode.key).Nodup ∧
    (∀ key iter, c.lookup.lookup key = some iter →
      ∃ n ∈ c.cache, ListNode.deref c.cache iter = some n ∧ n.key = key) ∧
    (Recency.machine K V maxSize).Run Runs.free [] [] past c.entries ∧
    ∀ op, (∀ key, op = .get key → c.exists key = true) →
      ∃ r c', c.perform op = some (r, c') ∧
        Recency.perform maxSize c.entries op = some (r, c'.entries) := by
  obtain ⟨hcoh, hmax⟩ := coherent_of_run hrun
  refine ⟨hcoh.keys_eq, hcoh.keys_nodup, fun key iter hl => ?_, entries_of_run hrun,
    fun op hget => ?_⟩
  · obtain ⟨n, hn, hk, ha, -⟩ := hcoh.node_of_lookup hl
    exact ⟨n, hn, ha ▸ hcoh.deref_eq hn, hk⟩
  · obtain ⟨⟨r, c'⟩, hstep⟩ := Option.isSome_iff_exists.mp
      (perform_isSome hcoh (hmax ▸ hcap) hget)
    obtain ⟨-, -, habs⟩ := perform_some hcoh hstep
    exact ⟨r, c', hstep, hmax ▸ habs⟩

/-- A cache of two slots after an eviction, a promotion, a removal and a re-insert. -/
theorem busy_run : ∃ past c, (machine Nat Nat).Run Runs.free [] (new 2) past c ∧
    c.entries = [(3, 31), (4, 40)] ∧ past.length = 8 := by
  have hreplay : ∃ r ∈ Runs.replay perform Runs.free [] (new 2 : LocationCache Nat Nat)
      [.insert 1 10, .insert 2 20, .get 1, .insert 3 30, .exists 2, .remove 1, .insert 4 40,
        .insert 3 31], r.2.entries = [(3, 31), (4, 40)] ∧ r.1.length = 8 := by
    decide +kernel
  exact Runs.Machine.Run.exists_of_replay hreplay

/-- The refinement at that cache. -/
theorem cache_refines_recency_list_busy : ∃ (past : Recency.History Nat Nat)
    (c : LocationCache Nat Nat), past.length = 8 ∧ c.entries = [(3, 31), (4, 40)] ∧
      (c.cache.map ListNode.key).Nodup ∧
      (Recency.machine Nat Nat 2).Run Runs.free [] [] past c.entries := by
  obtain ⟨past, c, hrun, hent, hlen⟩ := busy_run
  obtain ⟨-, hnd, -, habs, -⟩ := cache_refines_recency_list (by decide) hrun
  exact ⟨past, c, hlen, hent, hnd, habs⟩

/-! ### Retention -/

/-- **Retention.** A key that was inserted, not removed since, and passed by fewer
than `maxSize` other keys since its last touch is present with its last value; and
as long as nothing is removed, exactly the keys touched and passed by fewer than
`maxSize` others are present. -/
theorem lru_retention (hcap : 0 < maxSize)
    (hrun : (machine K V).Run Runs.free [] (new maxSize) past c) :
    (∀ key v, Recency.lastInserted key past = some v →
      (Recency.touchedSince key past).card < maxSize →
      c.exists key = true ∧ ∃ c', c.get key = some (v, c')) ∧
    (Recency.NoRemove past → ∀ key, c.exists key = true ↔
      Recency.Touched key past ∧ (Recency.touchedSince key past).card < maxSize) := by
  obtain ⟨hcoh, -⟩ := coherent_of_run hrun
  have habs := entries_of_run hrun
  constructor
  · intro key v hlast hfew
    have hv := Recency.retained hcap habs hlast hfew
    obtain ⟨c', hget, -, -, -⟩ := get_spec hcoh hv
    exact ⟨by rw [hcoh.exists_eq, hv]; rfl, c', hget⟩
  · intro hrem key
    rw [hcoh.exists_eq, Recency.lookup_isSome_iff]
    exact Recency.present_iff hcap habs hrem key

/-- In two slots, a key promoted by `get` outlives one that was not. -/
theorem lru_retention_promoted : ∃ (past : Recency.History Nat Nat) (c : LocationCache Nat Nat),
    past.length = 4 ∧ (∃ c', c.get 1 = some (10, c')) ∧ c.exists 2 ≠ true := by
  have hreplay : ∃ r ∈ Runs.replay perform Runs.free [] (new 2 : LocationCache Nat Nat)
      [.insert 1 10, .insert 2 20, .get 1, .insert 3 30],
      r.1.length = 4 ∧ Recency.NoRemove r.1 ∧ Recency.lastInserted 1 r.1 = some 10 ∧
      (Recency.touchedSince 1 r.1).card < 2 ∧ 2 ≤ (Recency.touchedSince 2 r.1).card := by
    decide +kernel
  obtain ⟨past, c, hrun, hlen, hrem, hlast, hfew, hmany⟩ :=
    Runs.Machine.Run.exists_of_replay hreplay
  obtain ⟨hkept, hiff⟩ := lru_retention (by decide) hrun
  exact ⟨past, c, hlen, (hkept 1 10 hlast hfew).2,
    fun h => absurd ((hiff hrem 2).mp h).2 (Nat.not_lt.mpr hmany)⟩

/-! ### Eviction -/

/-- **Eviction, exactly.** The number of entries never exceeds the capacity, and the
next call finds a node to evict, if it evicts at all, exactly when the capacity is
not zero or the call is not an `insert`. -/
theorem eviction_safe_exactly (hrun : (machine K V).Run Runs.free [] (new maxSize) past c) :
    c.cache.length ≤ maxSize ∧
      ∀ op, c.EvictsSafely op ↔ 0 < maxSize ∨ ∀ key value, op ≠ .insert key value := by
  obtain ⟨hcoh, hmax⟩ := coherent_of_run hrun
  refine ⟨hmax ▸ hcoh.length_le, fun op => ?_⟩
  rw [← hmax]
  exact evictsSafely_iff hcoh op

/-- The first `insert` into a cache of capacity 1 evicts safely. -/
theorem eviction_safe_exactly_one :
    (new 1 : LocationCache Nat Nat).EvictsSafely (.insert 7 70) :=
  ((eviction_safe_exactly (.refl : (machine Nat Nat).Run Runs.free [] (new 1) [] (new 1))).2
    _).mpr (Or.inl (by decide))

/-- The constructor accepts a capacity of 0, whose first `insert` evicts from an
empty list. -/
theorem eviction_unsafe_at_zero :
    ¬ ∀ (maxSize : Nat) (past : List (Recency.Op Nat Nat × Recency.Result Nat))
      (c : LocationCache Nat Nat), (machine Nat Nat).Run Runs.free [] (new maxSize) past c →
      c.cache.length ≤ maxSize ∧ ∀ op, c.EvictsSafely op := by
  intro h
  exact (h 0 [] (new 0) .refl).2 (.insert 7 70) 7 70 rfl ⟨rfl, by decide⟩ rfl

/-! ### Inclusion -/

/-- **Inclusion.** Over one sequence of accesses, a key present in the smaller cache
is present in the larger with the same value, the common keys are in the same
recency order, what hits in the smaller hits in the larger, and no access is
undefined in either. -/
theorem lru_inclusion {small large : Nat} (hsmall : 0 < small) (hle : small ≤ large)
    {past : List (Access K V)} {s l : LocationCache K V}
    (hs : (accessMachine K V).Run Runs.free [] (new small) past s)
    (hl : (accessMachine K V).Run Runs.free [] (new large) past l) :
    (∀ key, s.exists key = true → l.exists key = true ∧
      ∃ v s' l', s.get key = some (v, s') ∧ l.get key = some (v, l')) ∧
    (Recency.keys l.entries).filter (· ∈ Recency.keys s.entries) = Recency.keys s.entries ∧
    (∀ a v s', s.access a = some (some v, s') → ∃ l', l.access a = some (some v, l')) ∧
    ∀ a, (s.access a).isSome ∧ (l.access a).isSome := by
  obtain ⟨⟨hcs, hms⟩, ⟨hcl, hml⟩, hincl⟩ := included_of_runs hsmall hle hs hl
  have hlarge : 0 < l.maxSize := by omega
  refine ⟨fun key hkey => ?_, hincl.same_order, fun a v s' hacc => ?_, fun a => ?_⟩
  · rw [hcs.exists_eq] at hkey
    obtain ⟨v, hv⟩ := Option.isSome_iff_exists.mp hkey
    have hv' := hincl.lookup_large hv
    obtain ⟨s', hget, -, -, -⟩ := get_spec hcs hv
    obtain ⟨l', hget', -, -, -⟩ := get_spec hcl hv'
    exact ⟨by rw [hcl.exists_eq, hv']; rfl, v, s', l', hget, hget'⟩
  · obtain ⟨s₁, hacc₁, -, -, -⟩ := access_spec hcs (hms ▸ hsmall) a
    obtain ⟨l₁, hacc₂, -, -, -⟩ := access_spec hcl hlarge a
    rw [hacc] at hacc₁
    have hhit : a.hit s.entries = some v := (Prod.mk.inj (Option.some.inj hacc₁)).1.symm
    exact ⟨l₁, by rw [hacc₂, Access.hit_large hincl hhit]⟩
  · obtain ⟨s₁, hacc₁, -, -, -⟩ := access_spec hcs (hms ▸ hsmall) a
    obtain ⟨l₁, hacc₂, -, -, -⟩ := access_spec hcl hlarge a
    exact ⟨by rw [hacc₁]; rfl, by rw [hacc₂]; rfl⟩

/-- Two inserts, and a lookup that only finds its key if there is room for both. -/
def divergingAccesses : List (Access Nat Nat) := [.insert 1 10, .insert 2 20, .lookup 1]

/-- A cache of one slot and one of three that have diverged: the lookup of 1 missed
in the smaller and promoted in the larger. -/
theorem diverged_runs : ∃ (past : List (Access Nat Nat)) (s l : LocationCache Nat Nat),
    (accessMachine Nat Nat).Run Runs.free [] (new 1) past s ∧
    (accessMachine Nat Nat).Run Runs.free [] (new 3) past l ∧
    s.entries = [(2, 20)] ∧ l.entries = [(1, 10), (2, 20)] := by
  have hs : ∃ r ∈ Runs.play (fun c a => (access c a).map Prod.snd) Runs.free []
      (new 1) divergingAccesses, r.1 = divergingAccesses.reverse ∧ r.2.entries = [(2, 20)] := by
    decide +kernel
  have hl : ∃ r ∈ Runs.play (fun c a => (access c a).map Prod.snd) Runs.free []
      (new 3) divergingAccesses, r.1 = divergingAccesses.reverse ∧
      r.2.entries = [(1, 10), (2, 20)] := by
    decide +kernel
  obtain ⟨past, s, hruns, rfl, hents⟩ := Runs.Machine.Run.exists_of_play hs
  obtain ⟨past', l, hrunl, rfl, hentl⟩ := Runs.Machine.Run.exists_of_play hl
  exact ⟨_, s, l, hruns, hrunl, hents, hentl⟩

/-- The inclusion there: 2 is present in both and reads the same. -/
theorem lru_inclusion_diverged : ∃ s l : LocationCache Nat Nat,
    s.entries = [(2, 20)] ∧ l.entries = [(1, 10), (2, 20)] ∧
    ∃ v s' l', s.get 2 = some (v, s') ∧ l.get 2 = some (v, l') := by
  obtain ⟨past, s, l, hs, hl, hents, hentl⟩ := diverged_runs
  have hkey : s.exists 2 = true := by
    have hincl := included_of_runs (by decide) (by decide) hs hl
    rw [hincl.1.1.exists_eq, hents]
    rfl
  exact ⟨s, l, hents, hentl, ((lru_inclusion (by decide) (by decide) hs hl).1 2 hkey).2⟩

end LocationCache

end Loc
