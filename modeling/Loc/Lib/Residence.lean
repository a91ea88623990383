import Loc.Lib.Retention

/-!
# Loc.Lib.Residence

**How long a key stays** in a recency list that is watched from some moment on, its
history before that moment being unknown.

`Resident T k` says that `k` is there and that only keys of `T` are newer. From the
moment `k` is used it holds of every `T`, and it is kept as long as nothing outside of
`T` is used and `T` has fewer keys than the list has room (`Resident.write`).

When all the keys ever used fit into the list, nothing is lost at all (`write_keeps`).
-/

namespace Recency

variable {K V : Type*} [DecidableEq K] {T : Finset K} {k key : K} {v : V} {l : List (K × V)}

/-! ### A key that is used often enough -/

/-- `k` is present, and whatever is newer is in `T`. -/
structure Resident (T : Finset K) (k : K) (l : List (K × V)) : Prop where
  mem : k ∈ keys l
  newer : ∀ key ∈ newerThan k (keys l), key ∈ T

namespace Resident

/-- A key in front has nothing newer. -/
theorem front (T : Finset K) (k : K) (v : V) (l : List (K × V)) : Resident T k ((k, v) :: l) :=
  ⟨List.mem_cons_self, by simp⟩

/-- Using a key puts it in front. -/
theorem touch_self (T : Finset K) (h : k ∈ keys l) : Resident T k (Recency.touch k l) := by
  obtain ⟨v, hv⟩ := Option.isSome_iff_exists.mp (lookup_isSome_iff.mpr h)
  rw [touch_of_mem hv]
  exact front T k v _

theorem write_self (T : Finset K) (cap : Nat) (k : K) (v : V) (l : List (K × V)) :
    Resident T k (Recency.write cap k v l) := by
  unfold Recency.write
  split
  · exact front T k v _
  · exact front T k v _

/-- Another key of `T` moves to the front, or comes in there. -/
theorem cons (h : Resident T k l) (hne : key ≠ k) (hkey : key ∈ T) :
    Resident T k ((key, v) :: l) where
  mem := List.mem_cons_of_mem _ h.mem
  newer x hx := by
    rw [keys_cons, newerThan_cons_of_ne hne] at hx
    rcases List.mem_cons.mp hx with rfl | hx
    · exact hkey
    · exact h.newer x hx

theorem erase (h : Resident T k l) (hne : key ≠ k) : Resident T k (erase key l) where
  mem := by
    rw [keys_erase]
    exact List.mem_filter.mpr ⟨h.mem, by simpa using hne.symm⟩
  newer x hx := by
    rw [keys_erase, newerThan_filter hne] at hx
    exact h.newer x (List.mem_filter.mp hx).1

theorem touch (h : Resident T k l) (hkey : key ∈ insert k T) : Resident T k (touch key l) := by
  by_cases hne : key = k
  · subst hne
    exact touch_self T h.mem
  · cases hl : l.lookup key with
    | none =>
        rw [touch_of_not_mem (lookup_eq_none_iff.mp hl)]
        exact h
    | some w =>
        rw [touch_of_mem hl]
        exact (h.erase hne).cons hne ((Finset.mem_insert.mp hkey).resolve_left hne)

/-- **Fewer other keys than there is room.** The key that makes way is not `k`: all
the others are newer than it, and they are in `T`. -/
theorem write {cap : Nat} (h : Resident T k l) (hnd : (keys l).Nodup) (hkey : key ∈ insert k T)
    (hcap : T.card < cap) (v : V) : Resident T k (write cap key v l) := by
  by_cases hne : key = k
  · subst hne
    exact write_self T cap key v l
  have hT : key ∈ T := (Finset.mem_insert.mp hkey).resolve_left hne
  by_cases hmem : key ∈ keys l
  · rw [write_of_mem hmem]
    exact (h.erase hne).cons hne hT
  by_cases hfull : cap < l.length + 1
  · rw [write_of_full hmem hfull]
    have hdrop : keys l.dropLast = (keys l).dropLast := List.map_dropLast
    have hstay : k ∈ (keys l).dropLast := by
      by_contra hlost
      -- `key` and the keys that stay would all be in `T`.
      have hnewer := newerThan_of_lost h.mem hlost
      have hsub : (key :: (keys l).dropLast).toFinset ⊆ T := by
        intro x hx
        rw [List.mem_toFinset, List.mem_cons] at hx
        rcases hx with rfl | hx
        · exact hT
        · exact h.newer x (hnewer ▸ hx)
      have hnodup : (key :: (keys l).dropLast).Nodup :=
        List.nodup_cons.mpr ⟨fun hx => hmem (List.mem_of_mem_dropLast hx),
          hnd.sublist (List.dropLast_sublist _)⟩
      have hle := Finset.card_le_card hsub
      have hpos := List.length_pos_of_mem h.mem
      rw [List.toFinset_card_of_nodup hnodup, List.length_cons, List.length_dropLast] at hle
      rw [keys, List.length_map] at hle hpos
      omega
    refine Resident.cons ⟨by rwa [hdrop], fun x hx => ?_⟩ hne hT
    rw [hdrop, newerThan_dropLast hstay] at hx
    exact h.newer x hx
  · rw [write_of_room hmem hfull]
    exact h.cons hne hT

end Resident

/-! ### A list that never overflows -/

theorem keys_touch_subset (h : ∀ k ∈ keys l, k ∈ T) : ∀ k ∈ keys (touch key l), k ∈ T := by
  intro k hk
  refine h k ?_
  rw [← lookup_isSome_iff] at hk ⊢
  rwa [lookup_touch] at hk

theorem keys_erase_subset (h : ∀ k ∈ keys l, k ∈ T) : ∀ k ∈ keys (erase key l), k ∈ T := by
  intro k hk
  rw [keys_erase] at hk
  exact h k (List.mem_filter.mp hk).1

theorem keys_write_subset {cap : Nat} (h : ∀ k ∈ keys l, k ∈ T) (hkey : key ∈ T) :
    ∀ k ∈ keys (write cap key v l), k ∈ T := by
  intro k hk
  unfold write at hk
  split at hk
  · rcases List.mem_cons.mp hk with rfl | hk
    · exact hkey
    · exact keys_erase_subset h k hk
  · rcases List.mem_cons.mp hk with rfl | hk
    · exact hkey
    · split at hk
      · exact h k (((List.dropLast_sublist l).map Prod.fst).subset hk)
      · exact h k hk

/-- **Nothing is lost** by a write when every key in the list, and the new one, is in a
set that fits. -/
theorem write_keeps {cap : Nat} (hnd : (keys l).Nodup) (h : ∀ k ∈ keys l, k ∈ T) (hkey : key ∈ T)
    (hcap : T.card ≤ cap) (v : V) (hne : k ≠ key) : (write cap key v l).lookup k = l.lookup k := by
  by_cases hmem : key ∈ keys l
  · rw [write_of_mem hmem, lookup_cons_of_ne hne, lookup_erase_of_ne hne]
  · rw [write_of_room hmem ?_, lookup_cons_of_ne hne]
    have hsub : (key :: keys l).toFinset ⊆ T := by
      intro x hx
      rw [List.mem_toFinset, List.mem_cons] at hx
      rcases hx with rfl | hx
      · exact hkey
      · exact h x hx
    have hle := Finset.card_le_card hsub
    rw [List.toFinset_card_of_nodup (List.nodup_cons.mpr ⟨hmem, hnd⟩), List.length_cons, keys,
      List.length_map] at hle
    omega

end Recency
