import Mathlib.Data.List.Forall2
import Mathlib.Data.List.Infix
import Loc.Lib.Runs

/-!
# Loc.Lib.Timeline

Reading a record that changes over time.

A list of values `Follows` a record when its members are what the record held at
successive moments: a reader that sees them in this order never goes back in time. It
may see a value several times and miss others. Moments are ordered by any preorder.

The moments of a run are the histories it has gone through (`Follows.of_filterMap` moves
them from a projected history to the whole one). `Machine.Through` replaces them by the
states the run was in.
-/

namespace Timeline

variable {τ β : Type*}

/-- The values are what `record` held at successive moments, none after `now`. -/
def Follows (le : τ → τ → Prop) (record : τ → Option β) (now : τ) (values : List β) : Prop :=
  ∃ moments : List τ, moments.Pairwise le ∧ (∀ t ∈ moments, le t now) ∧
    values.map some = moments.map record

namespace Follows

variable {le : τ → τ → Prop} {record : τ → Option β} {now now' : τ} {l l' : List β} {b : β}

theorem nil : Follows le record now [] := ⟨[], .nil, by simp, rfl⟩

/-- Missing values is no going back. -/
theorem sublist (h : Follows le record now l) (hsub : l'.Sublist l) : Follows le record now l' := by
  obtain ⟨moments, hpair, hnow, hread⟩ := h
  have hmap : (l'.map some).Sublist (moments.map record) := hread ▸ hsub.map some
  obtain ⟨moments', hsub', hread'⟩ := List.sublist_map_iff.mp hmap
  exact ⟨moments', hpair.sublist hsub', fun t ht => hnow t (hsub'.subset ht), hread'⟩

variable [IsPreorder τ le]

/-- Time goes on. -/
theorem later (h : Follows le record now l) (hle : le now now') : Follows le record now' l := by
  obtain ⟨moments, hpair, hnow, hread⟩ := h
  exact ⟨moments, hpair, fun t ht => trans_of le (hnow t ht) hle, hread⟩

/-- A value read now. -/
theorem snoc (h : Follows le record now l) (hb : record now = some b) :
    Follows le record now (l ++ [b]) := by
  obtain ⟨moments, hpair, hnow, hread⟩ := h
  refine ⟨moments ++ [now], ?_, fun t ht => ?_, by simp [hread, hb]⟩
  · rw [List.pairwise_append]
    exact ⟨hpair, List.pairwise_singleton .., fun t ht u hu => List.mem_singleton.mp hu ▸ hnow t ht⟩
  · rcases List.mem_append.mp ht with ht | ht
    · exact hnow t ht
    · rw [List.mem_singleton.mp ht]
      exact refl_of le now

/-- Values read now. -/
theorem append (h : Follows le record now l) (hl' : ∀ b ∈ l', record now = some b) :
    Follows le record now (l ++ l') := by
  induction l' generalizing l with
  | nil => rwa [List.append_nil]
  | cons b l' ih =>
      rw [List.append_cons]
      exact ih (h.snoc (hl' b List.mem_cons_self)) fun c hc => hl' c (List.mem_cons_of_mem _ hc)

/-- Reading the same value once more, at the same moment. -/
theorem again (h : Follows le record now (l ++ b :: l')) :
    Follows le record now (l ++ b :: b :: l') := by
  obtain ⟨moments, hpair, hnow, hread⟩ := h
  rw [List.map_append, List.map_cons] at hread
  obtain ⟨before, rest, rfl, hbefore, hrest⟩ := List.map_eq_append_iff.mp hread.symm
  obtain ⟨t, after, rfl, ht, hafter⟩ := List.map_eq_cons_iff.mp hrest
  refine ⟨before ++ t :: t :: after, ?_, fun u hu => hnow u ?_, ?_⟩
  · rw [List.pairwise_append] at hpair ⊢
    refine ⟨hpair.1, List.pairwise_cons.mpr ⟨?_, hpair.2.1⟩, fun u hu w hw => ?_⟩
    · intro u hu
      rcases List.mem_cons.mp hu with rfl | hu
      · exact refl_of le u
      · exact (List.pairwise_cons.mp hpair.2.1).1 u hu
    · exact hpair.2.2 u hu w (by simpa using hw)
  · simpa using hu
  · simp [hbefore, ht, hafter]

/-- Reading the same value any number of times more. -/
theorem repeated (h : Follows le record now (l ++ b :: l')) (n : Nat) :
    Follows le record now (l ++ (List.replicate n b ++ b :: l')) := by
  induction n with
  | zero => exact h
  | succ n ih =>
      cases n with
      | zero => exact ih.again
      | succ n =>
          have hagain : Follows le record now (l ++ b :: (List.replicate n b ++ b :: l')) := ih
          exact hagain.again

end Follows

/-! ### Moments of a projected history -/

section Project

variable {α γ : Type*} {f : α → Option γ} {l : List α}

/-- The shortest suffix in which `f` reads `n` values. -/
def reach (f : α → Option γ) (n : Nat) : List α → List α
  | [] => []
  | a :: l => if (l.filterMap f).length < n then a :: l else reach f n l

theorem reach_suffix (f : α → Option γ) (n : Nat) (l : List α) : reach f n l <:+ l := by
  induction l with
  | nil => exact List.suffix_rfl
  | cons a l ih =>
      rw [reach]
      split
      · exact List.suffix_rfl
      · exact ih.trans (List.suffix_cons a l)

theorem reach_mono {n m : Nat} (h : n ≤ m) (l : List α) : reach f n l <:+ reach f m l := by
  induction l with
  | nil => exact List.suffix_rfl
  | cons a l ih =>
      rw [reach, reach]
      by_cases hm : (l.filterMap f).length < m
      · rw [if_pos hm]
        split
        · exact List.suffix_rfl
        · exact (reach_suffix f n l).trans (List.suffix_cons a l)
      · rw [if_neg hm, if_neg (by omega)]
        exact ih

/-- A suffix of the projected history is the projection of a moment. -/
theorem filterMap_reach {l' : List γ} (h : l' <:+ l.filterMap f) :
    (reach f l'.length l).filterMap f = l' := by
  induction l with
  | nil => exact (List.suffix_nil.mp h).symm
  | cons a l ih =>
      rw [reach]
      by_cases hlt : (l.filterMap f).length < l'.length
      · rw [if_pos hlt]
        refine (h.eq_of_length (Nat.le_antisymm h.length_le ?_)).symm
        have hle : ((a :: l).filterMap f).length ≤ (l.filterMap f).length + 1 := by
          rw [List.filterMap_cons]
          cases f a <;> simp
        omega
      · rw [if_neg hlt]
        refine ih ?_
        rw [List.filterMap_cons] at h
        cases hfa : f a with
        | none => rwa [hfa] at h
        | some b =>
            rw [hfa] at h
            rcases List.suffix_cons_iff.mp h with heq | h
            · rw [heq, List.length_cons] at hlt
              omega
            · exact h

/-- Moments of the projection are moments of the whole history. -/
theorem Follows.of_filterMap {record : List γ → Option β} {values : List β}
    (h : Follows (· <:+ ·) record (l.filterMap f) values) :
    Follows (· <:+ ·) (fun m => record (m.filterMap f)) l values := by
  obtain ⟨moments, hpair, hnow, hread⟩ := h
  refine ⟨moments.map fun m => reach f m.length l, ?_, fun t ht => ?_, ?_⟩
  · exact hpair.map _ fun m m' hm => reach_mono hm.length_le l
  · obtain ⟨m, -, rfl⟩ := List.mem_map.mp ht
    exact reach_suffix f _ l
  · rw [hread, List.map_map]
    refine List.map_congr_left fun m hm => ?_
    rw [Function.comp_apply, filterMap_reach (hnow m hm)]

end Project

end Timeline

namespace Runs.Machine

variable {σ ℓ : Type*} {M : Machine σ ℓ} {ok : Guard σ ℓ}

/-! ### States a run goes through -/

/-- The run from `s₀` goes through `states`, in this order. -/
def Through (M : Machine σ ℓ) (ok : Guard σ ℓ) (past₀ : List ℓ) (s₀ : σ) :
    List σ → List ℓ → σ → Prop
  | [], past, s => M.Run ok past₀ s₀ past s
  | t :: states, past, s =>
      ∃ past', M.Run ok past₀ s₀ past' t ∧ Through M ok past' t states past s

/-- A run has been in a state at each of its moments. -/
theorem Run.at_suffix {past₀ past past' : List ℓ} {s₀ s : σ} (h : M.Run ok past₀ s₀ past s)
    (h₀ : past₀ <:+ past') (hle : past' <:+ past) :
    ∃ t, M.Run ok past₀ s₀ past' t ∧ M.Run ok past' t past s := by
  induction h with
  | refl =>
      obtain rfl := h₀.eq_of_length (Nat.le_antisymm h₀.length_le hle.length_le)
      exact ⟨_, .refl, .refl⟩
  | step hrun hok hs ih =>
      rcases List.suffix_cons_iff.mp hle with rfl | hle
      · exact ⟨_, .step hrun hok hs, .refl⟩
      · obtain ⟨t, hto, hfrom⟩ := ih hle
        exact ⟨t, hto, .step hfrom hok hs⟩
  | silent _ hs ih =>
      obtain ⟨t, hto, hfrom⟩ := ih hle
      exact ⟨t, hto, .silent hfrom hs⟩

/-- Successive moments of a run are states it goes through. -/
theorem Run.through {past₀ past : List ℓ} {s₀ s : σ} (h : M.Run ok past₀ s₀ past s)
    {moments : List (List ℓ)} (hpair : moments.Pairwise (· <:+ ·))
    (hmom : ∀ m ∈ moments, past₀ <:+ m ∧ m <:+ past) :
    ∃ states, M.Through ok past₀ s₀ states past s ∧
      List.Forall₂ (fun m t => M.Run ok past₀ s₀ m t) moments states := by
  induction moments generalizing past₀ s₀ with
  | nil => exact ⟨[], h, .nil⟩
  | cons m moments ih =>
      obtain ⟨hfirst, hlast⟩ := hmom m List.mem_cons_self
      obtain ⟨t, hto, hfrom⟩ := h.at_suffix hfirst hlast
      obtain ⟨hhead, htail⟩ := List.pairwise_cons.mp hpair
      obtain ⟨states, hthrough, hall⟩ := ih hfrom htail fun m' hm' =>
        ⟨hhead m' hm', (hmom m' (List.mem_cons_of_mem _ hm')).2⟩
      refine ⟨t :: states, ⟨m, hto, hthrough⟩, .cons hto ?_⟩
      exact hall.imp fun m' t' hrun => hto.trans hrun

end Runs.Machine
