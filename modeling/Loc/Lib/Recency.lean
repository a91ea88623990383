import Mathlib.Data.List.Nodup

/-!
# Loc.Lib.Recency

The **recency list**: the textbook picture of a bounded least-recently-used map.

A recency list is a list of key/value pairs, most recently used first, in which
no key occurs twice. It is read with `List.lookup`. Its operations are `touch`
(move a key to the front), `write` (overwrite or prepend, dropping the last pair
when the list is full) and `erase`.

The lemmas say what each operation does to the reading of every key: the key
operated on reads as it should, and every other key reads as before, except that
a `write` may lose one key altogether.
-/

namespace Recency

variable {K V : Type*}

/-- The keys of a recency list, most recently used first. -/
def keys (l : List (K × V)) : List K := l.map Prod.fst

@[simp] theorem keys_nil : keys ([] : List (K × V)) = [] := rfl

@[simp] theorem keys_cons (e : K × V) (l : List (K × V)) : keys (e :: l) = e.1 :: keys l := rfl

variable [DecidableEq K]

/-- Drop the pair of `k`. -/
def erase (k : K) (l : List (K × V)) : List (K × V) := l.filter fun e => e.1 ≠ k

/-- Move `k` to the front, if it is there. -/
def touch (k : K) (l : List (K × V)) : List (K × V) :=
  match l.lookup k with
  | some v => (k, v) :: erase k l
  | none => l

/-- Make `k` the most recently used key with value `v`, in a list of at most
`cap` pairs. -/
def write (cap : Nat) (k : K) (v : V) (l : List (K × V)) : List (K × V) :=
  if k ∈ keys l then (k, v) :: erase k l
  else (k, v) :: (if cap < l.length + 1 then l.dropLast else l)

/-! ### Reading -/

theorem lookup_cons_of_ne {k : K} {e : K × V} (h : k ≠ e.1) (l : List (K × V)) :
    (e :: l).lookup k = l.lookup k := by
  rw [List.lookup_cons, beq_eq_false_iff_ne.mpr h]

theorem lookup_isSome_iff {k : K} {l : List (K × V)} : (l.lookup k).isSome ↔ k ∈ keys l := by
  induction l with
  | nil => simp
  | cons e l ih =>
      rw [keys_cons, List.mem_cons, ← ih]
      by_cases he : k = e.1
      · simp [he]
      · simp [lookup_cons_of_ne he, he]

theorem lookup_eq_none_iff {k : K} {l : List (K × V)} : l.lookup k = none ↔ k ∉ keys l := by
  rw [← lookup_isSome_iff, Option.not_isSome_iff_eq_none]

/-- With unique keys, `k` reads exactly the value it is paired with. -/
theorem lookup_eq_some_iff {l : List (K × V)} (hnd : (keys l).Nodup) {k : K} {v : V} :
    l.lookup k = some v ↔ (k, v) ∈ l := by
  induction l with
  | nil => simp
  | cons e l ih =>
      obtain ⟨k', v'⟩ := e
      rw [keys_cons, List.nodup_cons] at hnd
      rw [List.mem_cons]
      by_cases hk : k = k'
      · subst hk
        have hnot : (k, v) ∉ l := fun hm => hnd.1 (List.mem_map.mpr ⟨(k, v), hm, rfl⟩)
        simp [hnot, eq_comm]
      · rw [lookup_cons_of_ne hk, ih hnd.2]
        simp [hk]

/-- Dropping the last pair loses at most one key and changes no other. -/
theorem lookup_dropLast {l : List (K × V)} (hnd : (keys l).Nodup) (k : K) :
    l.dropLast.lookup k = l.lookup k ∨ l.dropLast.lookup k = none := by
  have hsub : (keys l.dropLast).Nodup :=
    (List.Sublist.map _ (List.dropLast_sublist l)).nodup hnd
  cases h : l.dropLast.lookup k with
  | none => exact Or.inr rfl
  | some v =>
      have hmem := (List.dropLast_subset l) ((lookup_eq_some_iff hsub).mp h)
      exact Or.inl ((lookup_eq_some_iff hnd).mpr hmem).symm

/-! ### Erasing -/

@[simp] theorem lookup_erase_self (k : K) (l : List (K × V)) : (erase k l).lookup k = none := by
  rw [lookup_eq_none_iff]
  simp [keys, erase]

theorem lookup_erase_of_ne {k k' : K} (h : k' ≠ k) (l : List (K × V)) :
    (erase k l).lookup k' = l.lookup k' := by
  induction l with
  | nil => rfl
  | cons e l ih =>
      rw [erase, List.filter_cons]
      by_cases he : e.1 = k
      · rw [if_neg (by simpa using he), lookup_cons_of_ne (he ▸ h)]
        exact ih
      · rw [if_pos (by simpa using he), List.lookup_cons, List.lookup_cons, ← ih]
        rfl

theorem keys_erase (k : K) (l : List (K × V)) : keys (erase k l) = (keys l).filter (· ≠ k) := by
  rw [keys, keys, erase, List.filter_map]
  rfl

theorem nodup_erase {l : List (K × V)} (hnd : (keys l).Nodup) (k : K) :
    (keys (erase k l)).Nodup := by
  rw [keys_erase]
  exact hnd.filter _

theorem not_mem_keys_erase (k : K) (l : List (K × V)) : k ∉ keys (erase k l) := by
  simp [keys_erase]

theorem erase_of_not_mem {k : K} {l : List (K × V)} (h : k ∉ keys l) : erase k l = l := by
  rw [erase, List.filter_eq_self]
  intro e he
  simp only [ne_eq, decide_eq_true_eq]
  intro hk
  exact h (List.mem_map.mpr ⟨e, he, hk⟩)

theorem erase_sublist (k : K) (l : List (K × V)) : (erase k l).Sublist l := List.filter_sublist

/-- Erasing a key that is there shortens the list by one. -/
theorem length_erase_add_one {k : K} {l : List (K × V)} (hnd : (keys l).Nodup)
    (hk : k ∈ keys l) : (erase k l).length + 1 = l.length := by
  induction l with
  | nil => exact absurd hk List.not_mem_nil
  | cons e l ih =>
      rw [keys_cons, List.nodup_cons] at hnd
      rw [erase, List.filter_cons]
      by_cases he : e.1 = k
      · have hrest := erase_of_not_mem (he ▸ hnd.1)
        rw [erase] at hrest
        rw [if_neg (by simpa using he), hrest, List.length_cons]
      · rw [if_pos (by simpa using he), List.length_cons, List.length_cons, ← erase]
        rw [ih hnd.2 ((List.mem_cons.mp hk).resolve_left (Ne.symm he))]

theorem length_erase_le (k : K) (l : List (K × V)) : (erase k l).length ≤ l.length :=
  (erase_sublist k l).length_le

/-! ### Touching -/

@[simp] theorem lookup_touch (k k' : K) (l : List (K × V)) :
    (touch k l).lookup k' = l.lookup k' := by
  unfold touch
  cases h : l.lookup k with
  | none => rfl
  | some v =>
      by_cases hk : k' = k
      · simp [hk, h]
      · rw [lookup_cons_of_ne hk]
        exact lookup_erase_of_ne hk l

theorem touch_of_mem {k : K} {l : List (K × V)} {v : V} (h : l.lookup k = some v) :
    touch k l = (k, v) :: erase k l := by
  rw [touch, h]

theorem touch_of_not_mem {k : K} {l : List (K × V)} (h : k ∉ keys l) : touch k l = l := by
  rw [touch, lookup_eq_none_iff.mpr h]

theorem length_touch {l : List (K × V)} (hnd : (keys l).Nodup) (k : K) :
    (touch k l).length = l.length := by
  cases hk : l.lookup k with
  | none => rw [touch_of_not_mem (lookup_eq_none_iff.mp hk)]
  | some v =>
      rw [touch_of_mem hk, List.length_cons]
      exact length_erase_add_one hnd (lookup_isSome_iff.mp (by rw [hk]; rfl))

theorem nodup_touch {l : List (K × V)} (hnd : (keys l).Nodup) (k : K) :
    (keys (touch k l)).Nodup := by
  unfold touch
  cases l.lookup k with
  | none => exact hnd
  | some v => exact List.nodup_cons.mpr ⟨not_mem_keys_erase k l, nodup_erase hnd k⟩

/-! ### Writing -/

@[simp] theorem lookup_write_self (cap : Nat) (k : K) (v : V) (l : List (K × V)) :
    (write cap k v l).lookup k = some v := by
  unfold write
  split <;> simp

/-- A `write` to `k` leaves the reading of every other key alone, or loses it. -/
theorem lookup_write_of_ne {l : List (K × V)} (hnd : (keys l).Nodup) {k k' : K} (h : k' ≠ k)
    (cap : Nat) (v : V) :
    (write cap k v l).lookup k' = l.lookup k' ∨ (write cap k v l).lookup k' = none := by
  unfold write
  split
  · rw [lookup_cons_of_ne h]
    exact Or.inl (lookup_erase_of_ne h l)
  · rw [lookup_cons_of_ne h]
    split
    · exact lookup_dropLast hnd k'
    · exact Or.inl rfl

/-- A `write` of a key that is there moves it to the front. -/
theorem write_of_mem {k : K} {l : List (K × V)} (h : k ∈ keys l) (cap : Nat) (v : V) :
    write cap k v l = (k, v) :: erase k l := by
  rw [write, if_pos h]

/-- A `write` of a new key into a full list loses the last pair. -/
theorem write_of_full {cap : Nat} {k : K} {l : List (K × V)} (h : k ∉ keys l)
    (hfull : cap < l.length + 1) (v : V) : write cap k v l = (k, v) :: l.dropLast := by
  rw [write, if_neg h, if_pos hfull]

/-- A `write` of a new key into a list with room loses nothing. -/
theorem write_of_room {cap : Nat} {k : K} {l : List (K × V)} (h : k ∉ keys l)
    (hroom : ¬ cap < l.length + 1) (v : V) : write cap k v l = (k, v) :: l := by
  rw [write, if_neg h, if_neg hroom]

/-- A `write` of a new key adds a pair, up to the capacity. -/
theorem length_write {cap : Nat} (hcap : 0 < cap) {l : List (K × V)} (hnd : (keys l).Nodup)
    (hlen : l.length ≤ cap) (k : K) (v : V) :
    (write cap k v l).length = if k ∈ keys l then l.length else min (l.length + 1) cap := by
  by_cases hk : k ∈ keys l
  · rw [if_pos hk, write_of_mem hk, List.length_cons, length_erase_add_one hnd hk]
  · rw [if_neg hk]
    by_cases hfull : cap < l.length + 1
    · rw [write_of_full hk hfull, List.length_cons, List.length_dropLast]
      omega
    · rw [write_of_room hk hfull, List.length_cons]
      omega

theorem length_write_le {cap : Nat} (hcap : 0 < cap) {l : List (K × V)} (hnd : (keys l).Nodup)
    (hlen : l.length ≤ cap) (k : K) (v : V) : (write cap k v l).length ≤ cap := by
  rw [length_write hcap hnd hlen]
  split
  · exact hlen
  · exact Nat.min_le_right _ _

theorem nodup_write {l : List (K × V)} (hnd : (keys l).Nodup) (cap : Nat) (k : K) (v : V) :
    (keys (write cap k v l)).Nodup := by
  unfold write
  split
  · exact List.nodup_cons.mpr ⟨not_mem_keys_erase k l, nodup_erase hnd k⟩
  · next hk =>
    split
    · have hsub : (keys l.dropLast).Sublist (keys l) :=
        List.Sublist.map _ (List.dropLast_sublist l)
      exact List.nodup_cons.mpr ⟨fun hm => hk (hsub.subset hm), hsub.nodup hnd⟩
    · exact List.nodup_cons.mpr ⟨hk, hnd⟩

end Recency
