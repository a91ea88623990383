import Loc.Cache
import Loc.Lib.Retention
import Loc.Lib.Inclusion

/-!
# Loc.CacheRuns

Runs of a `LocationCache`, and their **refinement** of the recency list.

`perform` is one call on a cache together with what it returns, and `access` the
way callers read it, with `get` behind `exists`. A run of a cache from its
constructor keeps the two structures coherent, and its `entries` perform the very
same calls, with the same results, as a recency list.
-/

namespace Loc

namespace LocationCache

variable {K V : Type} [DecidableEq K]

/-! ### Calls -/

/-- One call on the cache and what it returns. -/
def perform (c : LocationCache K V) :
    Recency.Op K V → Option (Recency.Result V × LocationCache K V)
  | .insert key value => (c.insert key value).map fun c => (.done, c)
  | .get key => (c.get key).map fun r => (.value r.1, r.2)
  | .remove key => (c.remove key).map fun c => (.done, c)
  | .exists key => some (.found (c.exists key), c)

/-- The cache as a machine whose labels are calls and their results. -/
def machine (K V : Type) [DecidableEq K] :
    Runs.Machine (LocationCache K V) (Recency.Op K V × Recency.Result V) :=
  .observing perform

variable {c c' : LocationCache K V} {op : Recency.Op K V} {r : Recency.Result V}

/-- A call that returns keeps the two structures coherent and is the call of the
recency list. -/
theorem perform_some (h : c.Coherent) (hstep : c.perform op = some (r, c')) :
    c'.Coherent ∧ c'.maxSize = c.maxSize ∧
      Recency.perform c.maxSize c.entries op = some (r, c'.entries) := by
  cases op with
  | insert key value =>
      obtain ⟨c₁, hins, heq⟩ := Option.map_eq_some_iff.mp hstep
      obtain ⟨rfl, rfl⟩ := Prod.mk.inj heq
      rcases Nat.eq_zero_or_pos c.maxSize with hzero | hpos
      · rw [insert_eq_none h hzero] at hins
        exact absurd hins (by simp)
      · obtain ⟨c₂, hins', hcoh, hmax, hent⟩ := insert_spec h hpos key value
        rw [hins'] at hins
        obtain rfl := Option.some.inj hins
        exact ⟨hcoh, hmax, by rw [hent]; rfl⟩
  | get key =>
      obtain ⟨⟨v, c₁⟩, hget, heq⟩ := Option.map_eq_some_iff.mp hstep
      obtain ⟨rfl, rfl⟩ := Prod.mk.inj heq
      cases hv : c.entries.lookup key with
      | none =>
          rw [get_eq_none h hv] at hget
          exact absurd hget (by simp)
      | some w =>
          obtain ⟨c₂, hget', hcoh, hmax, hent⟩ := get_spec h hv
          rw [hget'] at hget
          obtain ⟨rfl, rfl⟩ := Prod.mk.inj (Option.some.inj hget)
          exact ⟨hcoh, hmax, by rw [hent, Recency.perform, hv]; rfl⟩
  | remove key =>
      obtain ⟨c₁, hrem, heq⟩ := Option.map_eq_some_iff.mp hstep
      obtain ⟨rfl, rfl⟩ := Prod.mk.inj heq
      obtain ⟨c₂, hrem', hcoh, hmax, hent⟩ := remove_spec h key
      rw [hrem'] at hrem
      obtain rfl := Option.some.inj hrem
      exact ⟨hcoh, hmax, by rw [hent]; rfl⟩
  | «exists» key =>
      obtain ⟨rfl, rfl⟩ := Prod.mk.inj (Option.some.inj hstep)
      exact ⟨h, rfl, by rw [h.exists_eq]; rfl⟩

/-- With a capacity of at least one, every call but a `get` of a missing key
returns. -/
theorem perform_isSome (h : c.Coherent) (hpos : 0 < c.maxSize)
    (hget : ∀ key, op = .get key → c.exists key = true) : (c.perform op).isSome := by
  cases op with
  | insert key value =>
      obtain ⟨c₁, hins, -, -, -⟩ := insert_spec h hpos key value
      rw [perform, hins]
      rfl
  | get key =>
      have hkey := hget key rfl
      rw [h.exists_eq] at hkey
      obtain ⟨v, hv⟩ := Option.isSome_iff_exists.mp hkey
      obtain ⟨c₁, hget, -, -, -⟩ := get_spec h hv
      rw [perform, hget]
      rfl
  | remove key =>
      obtain ⟨c₁, hrem, -, -, -⟩ := remove_spec h key
      rw [perform, hrem]
      rfl
  | «exists» key => rfl

/-! ### The eviction step -/

/-- `insert` of `key` executes the eviction step: the key is new and the cache is at
its capacity. -/
def Evicts (c : LocationCache K V) (key : K) : Prop :=
  c.lookup.lookup key = none ∧ c.lookup.keys.card + 1 > c.maxSize

theorem insert_of_evicts {key : K} (h : c.Evicts key) (value : V) :
    c.insert key value = c.evict.map fun c => c.pushFront key value := by
  rw [insert, h.1]
  simp only [if_pos h.2]
  cases c.evict <;> rfl

theorem insert_of_new {key : K} (hnew : c.lookup.lookup key = none) (h : ¬ c.Evicts key)
    (value : V) : c.insert key value = some (c.pushFront key value) := by
  have hroom : ¬ c.lookup.keys.card + 1 > c.maxSize := fun hfull => h ⟨hnew, hfull⟩
  rw [insert, hnew]
  simp only [if_neg hroom]
  rfl

/-- If the next call executes the eviction step, it does so on a non-empty list. -/
def EvictsSafely (c : LocationCache K V) (op : Recency.Op K V) : Prop :=
  ∀ key value, op = .insert key value → c.Evicts key → c.cache ≠ []

/-- The eviction step finds a node exactly when there is room for one. -/
theorem evictsSafely_iff (h : c.Coherent) (op : Recency.Op K V) :
    c.EvictsSafely op ↔ 0 < c.maxSize ∨ ∀ key value, op ≠ .insert key value := by
  constructor
  · intro hsafe
    rcases Nat.eq_zero_or_pos c.maxSize with hzero | hpos
    · obtain ⟨hnil, hnew⟩ := h.empty_of_zero hzero
      exact Or.inr fun key value hop => hsafe key value hop ⟨hnew key, by omega⟩ hnil
    · exact Or.inl hpos
  · intro hcond key value hop hevicts hnil
    rcases hcond with hpos | hnot
    · have hfull := hevicts.2
      rw [h.card_keys, hnil, List.length_nil] at hfull
      omega
    · exact hnot key value hop

/-! ### Runs from the constructor -/

section Runs

variable {maxSize : Nat} {past : List (Recency.Op K V × Recency.Result V)}

/-- Every call of a run finds, and leaves, the two structures coherent. -/
theorem coherent_of_run (hrun : (machine K V).Run Runs.free [] (new maxSize) past c) :
    c.Coherent ∧ c.maxSize = maxSize := by
  refine hrun.invariant (I := fun _ c => c.Coherent ∧ c.maxSize = maxSize) ?_ ?_ ?_
  · exact ⟨coherent_new maxSize, rfl⟩
  · intro past c e c' hI _ hstep
    obtain ⟨hcoh, hmax, -⟩ := perform_some hI.1 hstep
    exact ⟨hcoh, hmax.trans hI.2⟩
  · intro _ _ _ _ hsilent
    exact absurd hsilent id

/-- **Refinement.** The calls of a run are, result by result, the calls of a run of
the recency list over the entries. -/
theorem entries_of_run (hrun : (machine K V).Run Runs.free [] (new maxSize) past c) :
    (Recency.machine K V maxSize).Run Runs.free [] [] past c.entries := by
  have hsim : (Recency.machine K V maxSize).Run Runs.free ([].filterMap some)
      (entries (new maxSize)) (past.filterMap some) (entries c) ∧ _ :=
    hrun.simulates (I := fun _ c => c.Coherent ∧ c.maxSize = maxSize)
      ⟨coherent_new maxSize, rfl⟩ ?_ ?_
  · simpa using hsim.1
  · intro past c e c' hI _ hstep
    obtain ⟨hcoh, hmax, habs⟩ := perform_some hI.1 hstep
    rw [hI.2] at habs
    exact ⟨⟨hcoh, hmax.trans hI.2⟩, trivial, habs⟩
  · intro _ _ _ _ hsilent
    exact absurd hsilent id

end Runs

/-! ### Accesses -/

/-- How the callers of a cache use it: they read a key only after `exists`. -/
inductive Access (K V : Type)
  | insert (key : K) (value : V)
  | remove (key : K)
  | lookup (key : K)
  deriving DecidableEq

/-- One access. A `lookup` returns the value it hits, or misses. -/
def access (c : LocationCache K V) : Access K V → Option (Option V × LocationCache K V)
  | .insert key value => (c.insert key value).map fun c => (none, c)
  | .remove key => (c.remove key).map fun c => (none, c)
  | .lookup key =>
      if c.exists key then (c.get key).map fun r => (some r.1, r.2) else some (none, c)

/-- The cache as a machine whose labels are accesses. -/
def accessMachine (K V : Type) [DecidableEq K] : Runs.Machine (LocationCache K V) (Access K V) :=
  .ofFn fun c a => (c.access a).map Prod.snd

/-- What an access does to the entries. -/
def Access.onEntries (maxSize : Nat) (l : List (K × V)) : Access K V → List (K × V)
  | .insert key value => Recency.write maxSize key value l
  | .remove key => Recency.erase key l
  | .lookup key => Recency.touch key l

/-- What an access returns, read off the entries. -/
def Access.hit (l : List (K × V)) : Access K V → Option V
  | .insert _ _ => none
  | .remove _ => none
  | .lookup key => l.lookup key

/-- With a capacity of at least one, every access returns, and does to the entries
what it does to a recency list. -/
theorem access_spec (h : c.Coherent) (hpos : 0 < c.maxSize) (a : Access K V) :
    ∃ c', c.access a = some (a.hit c.entries, c') ∧ c'.Coherent ∧ c'.maxSize = c.maxSize ∧
      c'.entries = a.onEntries c.maxSize c.entries := by
  cases a with
  | insert key value =>
      obtain ⟨c₁, hins, hcoh, hmax, hent⟩ := insert_spec h hpos key value
      exact ⟨c₁, by rw [access, hins]; rfl, hcoh, hmax, hent⟩
  | remove key =>
      obtain ⟨c₁, hrem, hcoh, hmax, hent⟩ := remove_spec h key
      exact ⟨c₁, by rw [access, hrem]; rfl, hcoh, hmax, hent⟩
  | lookup key =>
      have hex := h.exists_eq key
      cases hv : c.entries.lookup key with
      | none =>
          rw [hv] at hex
          refine ⟨c, by rw [access, hex, Access.hit, hv]; rfl, h, rfl, ?_⟩
          exact (Recency.touch_of_not_mem (Recency.lookup_eq_none_iff.mp hv)).symm
      | some v =>
          rw [hv] at hex
          obtain ⟨c₁, hget, hcoh, hmax, hent⟩ := get_spec h hv
          exact ⟨c₁, by rw [access, hex, hget, Access.hit, hv]; rfl, hcoh, hmax, hent⟩

/-- One access keeps the inclusion of two lists of entries. -/
theorem Access.included {small large : Nat} {l l' : List (K × V)} (hsmall : 0 < small)
    (h : Recency.Included small large l l') (a : Access K V) :
    Recency.Included small large (a.onEntries small l) (a.onEntries large l') := by
  cases a with
  | insert key value => exact h.write hsmall key value
  | remove key => exact h.erase key
  | lookup key => exact h.touch key

/-- What hits in the smaller list hits in the larger. -/
theorem Access.hit_large {small large : Nat} {l l' : List (K × V)}
    (h : Recency.Included small large l l') {a : Access K V} {v : V} (hhit : a.hit l = some v) :
    a.hit l' = some v := by
  cases a with
  | insert key value => exact hhit
  | remove key => exact hhit
  | lookup key => exact h.lookup_large hhit

/-- Two caches over one sequence of accesses: both stay coherent, and the entries of
the smaller stay included in those of the larger. -/
theorem included_of_runs {small large : Nat} (hsmall : 0 < small) (hle : small ≤ large)
    {past : List (Access K V)} {s l : LocationCache K V}
    (hs : (accessMachine K V).Run Runs.free [] (new small) past s)
    (hl : (accessMachine K V).Run Runs.free [] (new large) past l) :
    (s.Coherent ∧ s.maxSize = small) ∧ (l.Coherent ∧ l.maxSize = large) ∧
      Recency.Included small large s.entries l.entries := by
  refine Runs.Machine.Run.invariant₂ (R := fun _ s l =>
    (s.Coherent ∧ s.maxSize = small) ∧ (l.Coherent ∧ l.maxSize = large) ∧
      Recency.Included small large s.entries l.entries)
    (fun _ _ hf => hf) (fun _ _ hf => hf) hs hl ?_ ?_
  · exact ⟨⟨coherent_new small, rfl⟩, ⟨coherent_new large, rfl⟩, Recency.included_nil hle⟩
  · intro past s l a s' l' hR _ _ hstep hstep'
    obtain ⟨⟨hcs, hms⟩, ⟨hcl, hml⟩, hincl⟩ := hR
    obtain ⟨s₁, hacc, hcs', hms', hent⟩ := access_spec hcs (hms ▸ hsmall) a
    obtain ⟨l₁, hacc', hcl', hml', hent'⟩ := access_spec hcl (by omega) a
    obtain rfl : s₁ = s' := by simpa [accessMachine, Runs.Machine.ofFn, hacc] using hstep
    obtain rfl : l₁ = l' := by simpa [accessMachine, Runs.Machine.ofFn, hacc'] using hstep'
    refine ⟨⟨hcs', hms'.trans hms⟩, ⟨hcl', hml'.trans hml⟩, ?_⟩
    rw [hent, hent', hms, hml]
    exact a.included hsmall hincl

end LocationCache

end Loc
