import Loc.Lib.Recency

/-!
# Loc.Lib.Inclusion

The **inclusion property** of recency lists of two capacities.

Two lists operated by the same writes, erasures and touches, one with room for `c`
pairs and one with room for `d ≥ c`, are related by `Included`: the smaller is a
sublist of the larger, so the common keys have the same values and the same order,
and the larger has at most `d - c` pairs more. The bound on the extra pairs is what
makes the larger list never evict while the smaller still has room.
-/

namespace Recency

variable {K V : Type*}

/-- The smaller list is contained in the larger, which is ahead by no more than the
difference of the capacities. -/
structure Included (c d : Nat) (small large : List (K × V)) : Prop where
  sublist : small.Sublist large
  nodup : (keys large).Nodup
  length_small : small.length ≤ c
  length_large : large.length ≤ d
  extra : large.length + c ≤ small.length + d

theorem included_nil {c d : Nat} (hcd : c ≤ d) : Included c d ([] : List (K × V)) [] :=
  ⟨.slnil, List.nodup_nil, Nat.zero_le _, Nat.zero_le _, by simpa using hcd⟩

theorem dropLast_sublist_dropLast {l l' : List (K × V)} (h : l.Sublist l') :
    l.dropLast.Sublist l'.dropLast := by
  have := h.reverse.tail.reverse
  rwa [List.tail_reverse, List.tail_reverse, List.reverse_reverse, List.reverse_reverse] at this

/-- Of a list of distinct elements, those that are in a sublist are the sublist. -/
theorem filter_mem_sublist {K : Type*} [DecidableEq K] {s l : List K} (h : s.Sublist l)
    (hnd : l.Nodup) : l.filter (· ∈ s) = s := by
  induction h with
  | slnil => rfl
  | @cons s l a h ih =>
      rw [List.nodup_cons] at hnd
      have ha : a ∉ s := fun hm => hnd.1 (h.subset hm)
      rw [List.filter_cons_of_neg (by simpa using ha)]
      exact ih hnd.2
  | @cons_cons s l a h ih =>
      rw [List.nodup_cons] at hnd
      rw [List.filter_cons_of_pos (by simp)]
      refine congrArg _ (Eq.trans (List.filter_congr fun x hx => ?_) (ih hnd.2))
      have hne : x ≠ a := fun heq => hnd.1 (heq ▸ hx)
      simp [hne]

namespace Included

variable [DecidableEq K] {c d : Nat} {small large : List (K × V)}

omit [DecidableEq K] in
theorem keys_sublist (h : Included c d small large) : (keys small).Sublist (keys large) :=
  h.sublist.map _

omit [DecidableEq K] in
theorem nodup_small (h : Included c d small large) : (keys small).Nodup :=
  h.keys_sublist.nodup h.nodup

omit [DecidableEq K] in
theorem mem_large (h : Included c d small large) {k : K} (hk : k ∈ keys small) : k ∈ keys large :=
  h.keys_sublist.subset hk

/-- What the smaller list reads, the larger reads. -/
theorem lookup_large (h : Included c d small large) {k : K} {v : V}
    (hv : small.lookup k = some v) : large.lookup k = some v := by
  rw [lookup_eq_some_iff h.nodup]
  exact h.sublist.subset ((lookup_eq_some_iff h.nodup_small).mp hv)

/-- The common keys are in the same order. -/
theorem same_order (h : Included c d small large) :
    (keys large).filter (· ∈ keys small) = keys small :=
  filter_mem_sublist h.keys_sublist h.nodup

theorem erase_sublist_erase (h : Included c d small large) (k : K) :
    (erase k small).Sublist (erase k large) := h.sublist.filter _

theorem erase (h : Included c d small large) (k : K) :
    Included c d (erase k small) (erase k large) := by
  refine ⟨h.erase_sublist_erase k, nodup_erase h.nodup k,
    Nat.le_trans (length_erase_le k small) h.length_small,
    Nat.le_trans (length_erase_le k large) h.length_large, ?_⟩
  have hextra := h.extra
  by_cases hl : k ∈ keys large
  · have hlarge := length_erase_add_one h.nodup hl
    by_cases hs : k ∈ keys small
    · have hsmall := length_erase_add_one h.nodup_small hs
      omega
    · rw [erase_of_not_mem hs]
      omega
  · rw [erase_of_not_mem hl, erase_of_not_mem fun hs => hl (h.mem_large hs)]
    exact hextra

/-- A key of both lists moves to the front of both; a key of the larger alone
becomes an extra pair at its front. -/
theorem touch (h : Included c d small large) (k : K) :
    Included c d (touch k small) (touch k large) := by
  refine ⟨?_, nodup_touch h.nodup k, ?_, ?_, ?_⟩
  · cases hs : small.lookup k with
    | some v =>
        rw [touch_of_mem hs, touch_of_mem (h.lookup_large hs)]
        exact (h.erase_sublist_erase k).cons_cons _
    | none =>
        have hout := lookup_eq_none_iff.mp hs
        rw [touch_of_not_mem hout]
        cases hl : large.lookup k with
        | none =>
            rw [touch_of_not_mem (lookup_eq_none_iff.mp hl)]
            exact h.sublist
        | some v =>
            rw [touch_of_mem hl]
            have hsub := h.erase_sublist_erase k
            rw [erase_of_not_mem hout] at hsub
            exact hsub.cons _
  · rw [length_touch h.nodup_small]
    exact h.length_small
  · rw [length_touch h.nodup]
    exact h.length_large
  · rw [length_touch h.nodup_small, length_touch h.nodup]
    exact h.extra

/-- Writing a key the larger list has: only the smaller may evict. -/
theorem write_old (h : Included c d small large) (hc : 0 < c) {k : K} (hl : k ∈ keys large)
    (v : V) : Included c d (write c k v small) (write d k v large) := by
  have hextra := h.extra
  have hsmall := h.length_small
  have hlarge := h.length_large
  obtain ⟨entry, hentry, -⟩ := List.mem_map.mp hl
  have hd : 0 < d := Nat.lt_of_lt_of_le (List.length_pos_of_mem hentry) hlarge
  have hsub := h.erase_sublist_erase k
  refine ⟨?_, nodup_write h.nodup d k v, length_write_le hc h.nodup_small hsmall k v,
    length_write_le hd h.nodup h.length_large k v, ?_⟩
  · rw [write_of_mem hl]
    by_cases hs : k ∈ keys small
    · rw [write_of_mem hs]
      exact hsub.cons_cons _
    · rw [erase_of_not_mem hs] at hsub
      by_cases hfull : c < small.length + 1
      · rw [write_of_full hs hfull]
        exact ((List.dropLast_sublist _).trans hsub).cons_cons _
      · rw [write_of_room hs hfull]
        exact hsub.cons_cons _
  · rw [length_write hc h.nodup_small hsmall, length_write hd h.nodup h.length_large, if_pos hl]
    split
    · exact hextra
    · omega

/-- Writing a key that is new to both. Where the larger list evicts, it is full, so
the smaller is full and evicts too. -/
theorem write_new (h : Included c d small large) (hc : 0 < c) {k : K} (hl : k ∉ keys large)
    (v : V) : Included c d (write c k v small) (write d k v large) := by
  have hextra := h.extra
  have hsmall := h.length_small
  have hlarge := h.length_large
  have hs : k ∉ keys small := fun hk => hl (h.mem_large hk)
  have hle := h.sublist.length_le
  have hd : 0 < d := by omega
  refine ⟨?_, nodup_write h.nodup d k v, length_write_le hc h.nodup_small hsmall k v,
    length_write_le hd h.nodup hlarge k v, ?_⟩
  · by_cases hfull' : d < large.length + 1
    · -- by `extra`, the smaller list is full too
      rw [write_of_full hl hfull', write_of_full hs (by omega)]
      exact (dropLast_sublist_dropLast h.sublist).cons_cons _
    · rw [write_of_room hl hfull']
      by_cases hfull : c < small.length + 1
      · rw [write_of_full hs hfull]
        exact ((List.dropLast_sublist _).trans h.sublist).cons_cons _
      · rw [write_of_room hs hfull]
        exact h.sublist.cons_cons _
  · rw [length_write hc h.nodup_small hsmall, length_write hd h.nodup hlarge, if_neg hs, if_neg hl]
    omega

/-- The same pair is written into both. -/
theorem write (h : Included c d small large) (hc : 0 < c) (k : K) (v : V) :
    Included c d (write c k v small) (write d k v large) := by
  by_cases hl : k ∈ keys large
  · exact h.write_old hc hl v
  · exact h.write_new hc hl v

end Included

end Recency
