import Mathlib.Data.Finset.Card
import Loc.Lib.Recency
import Loc.Lib.Runs

/-!
# Loc.Lib.Retention

Runs of a recency list, and **what the history says about the contents**.

A recency list of capacity `cap` is operated by `insert`, `get` of a key that is
there, `remove` and `exists`. Two readings of the history decide whether a key is
there: the last value inserted for it (`lastInserted`) and the distinct other keys
touched since its own last touch (`touchedSince`).

* `retained` — a key that was inserted, not removed since, and passed by fewer
  than `cap` other keys is there with its last value.
* `present_iff` — without removals, a key is there exactly when it was touched and
  passed by fewer than `cap` other keys.
-/

namespace Recency

variable {K V : Type*}

/-- An operation on a bounded map. -/
inductive Op (K V : Type*)
  | insert (key : K) (value : V)
  | get (key : K)
  | remove (key : K)
  | exists (key : K)
  deriving DecidableEq

/-- What an operation returns. -/
inductive Result (V : Type*)
  | done
  | value (v : V)
  | found (b : Bool)
  deriving DecidableEq

/-- The key an operation makes the most recently used one. -/
def Op.touched : Op K V → Option K
  | .insert key _ => some key
  | .get key => some key
  | .remove _ => none
  | .exists _ => none

/-- The key an operation removes. -/
def Op.removed : Op K V → Option K
  | .insert _ _ => none
  | .get _ => none
  | .remove key => some key
  | .exists _ => none

variable [DecidableEq K]

/-- One operation on a recency list of at most `cap` pairs. Reading a key that is
not there has no result. -/
def perform (cap : Nat) (l : List (K × V)) : Op K V → Option (Result V × List (K × V))
  | .insert key v => some (.done, write cap key v l)
  | .get key => (l.lookup key).map fun v => (.value v, touch key l)
  | .remove key => some (.done, erase key l)
  | .exists key => some (.found (l.lookup key).isSome, l)

/-- The recency list as a machine. -/
def machine (K V : Type*) [DecidableEq K] (cap : Nat) :
    Runs.Machine (List (K × V)) (Op K V × Result V) :=
  .observing (perform cap)

/-! ### Reading the history -/

/-- What the operations of a history did, newest first. -/
abbrev History (K V : Type*) := List (Op K V × Result V)

/-- The value of the newest `insert` of `k`, unless `k` was removed after it. -/
def lastInserted (k : K) : History K V → Option V
  | [] => none
  | (.insert key v, _) :: past => if key = k then some v else lastInserted k past
  | (.remove key, _) :: past => if key = k then none else lastInserted k past
  | (.get _, _) :: past => lastInserted k past
  | (.exists _, _) :: past => lastInserted k past

/-- The distinct keys other than `k` touched since `k` was last touched. -/
def touchedSince (k : K) : History K V → Finset K
  | [] => ∅
  | (op, _) :: past =>
      match op.touched with
      | some key => if key = k then ∅ else insert key (touchedSince k past)
      | none => touchedSince k past

/-- `k` was touched at some point. -/
def Touched (k : K) (past : History K V) : Prop := ∃ e ∈ past, e.1.touched = some k

/-- No key was ever removed. -/
def NoRemove (past : History K V) : Prop := ∀ e ∈ past, e.1.removed = none

instance (k : K) (past : History K V) : Decidable (Touched k past) :=
  inferInstanceAs (Decidable (∃ e ∈ past, e.1.touched = some k))

instance (past : History K V) : Decidable (NoRemove past) :=
  inferInstanceAs (Decidable (∀ e ∈ past, e.1.removed = none))

/-! ### The keys newer than a key -/

/-- The keys more recently used than `k`. -/
def newerThan (k : K) (ks : List K) : List K := ks.takeWhile (· ≠ k)

@[simp] theorem newerThan_cons_self (k : K) (ks : List K) : newerThan k (k :: ks) = [] := by
  simp [newerThan]

theorem newerThan_cons_of_ne {k key : K} (h : key ≠ k) (ks : List K) :
    newerThan k (key :: ks) = key :: newerThan k ks := by
  simp [newerThan, h]

/-- Dropping another key drops it from the newer keys. -/
theorem newerThan_filter {k key : K} (h : key ≠ k) (ks : List K) :
    newerThan k (ks.filter (· ≠ key)) = (newerThan k ks).filter (· ≠ key) := by
  induction ks with
  | nil => rfl
  | cons a ks ih =>
      by_cases hkey : a = key
      · subst hkey
        rw [newerThan_cons_of_ne h]
        simpa using ih
      · rw [List.filter_cons_of_pos (by simpa using hkey)]
        by_cases hk : a = k
        · rw [hk, newerThan_cons_self, newerThan_cons_self, List.filter_nil]
        · rw [newerThan_cons_of_ne hk, newerThan_cons_of_ne hk, ih,
            List.filter_cons_of_pos (by simpa using hkey)]

theorem length_newerThan_lt {k : K} {ks : List K} (h : k ∈ ks) :
    (newerThan k ks).length < ks.length := by
  induction ks with
  | nil => exact absurd h List.not_mem_nil
  | cons a ks ih =>
      by_cases hk : a = k
      · simp [hk]
      · rw [newerThan_cons_of_ne hk, List.length_cons, List.length_cons]
        exact Nat.succ_lt_succ (ih ((List.mem_cons.mp h).resolve_left (Ne.symm hk)))

/-- Losing the last key changes nothing newer than a key that stays. -/
theorem newerThan_dropLast {k : K} {ks : List K} (h : k ∈ ks.dropLast) :
    newerThan k ks.dropLast = newerThan k ks := by
  induction ks with
  | nil => rfl
  | cons a ks ih =>
      cases ks with
      | nil => exact absurd h List.not_mem_nil
      | cons b ks =>
          rw [List.dropLast_cons_cons] at h ⊢
          by_cases hk : a = k
          · rw [hk, newerThan_cons_self, newerThan_cons_self]
          · rw [newerThan_cons_of_ne hk, newerThan_cons_of_ne hk,
              ih ((List.mem_cons.mp h).resolve_left (Ne.symm hk))]

/-- Every other key is newer than the one that is lost. -/
theorem newerThan_of_lost {k : K} {ks : List K} (h : k ∈ ks) (hlost : k ∉ ks.dropLast) :
    newerThan k ks = ks.dropLast := by
  induction ks with
  | nil => rfl
  | cons a ks ih =>
      cases ks with
      | nil =>
          obtain rfl := List.mem_singleton.mp h
          exact newerThan_cons_self k []
      | cons b ks =>
          rw [List.dropLast_cons_cons, List.mem_cons, not_or] at hlost
          have hk : a ≠ k := Ne.symm hlost.1
          rw [List.dropLast_cons_cons, newerThan_cons_of_ne hk,
            ih ((List.mem_cons.mp h).resolve_left (Ne.symm hk)) hlost.2]

/-! ### What the history says about one key -/

/-- What the contents `l` of a list of capacity `cap` owe to its history, about
the key `k`. -/
structure Recalls (cap : Nat) (past : History K V) (l : List (K × V)) (k : K) : Prop where
  /-- A key that is there has the last value inserted for it. -/
  value : ∀ v, l.lookup k = some v → lastInserted k past = some v
  /-- Whatever is newer was touched after it. -/
  newer : k ∈ keys l → ∀ key ∈ newerThan k (keys l), key ∈ touchedSince k past
  /-- A key that was lost was passed by at least `cap` others. -/
  lost : k ∉ keys l → (lastInserted k past).isSome → cap ≤ (touchedSince k past).card
  /-- Without removals, whatever was touched after it is newer. -/
  touched : NoRemove past → k ∈ keys l → ∀ key ∈ touchedSince k past, key ∈ newerThan k (keys l)

theorem recalls_nil (cap : Nat) (k : K) : Recalls cap [] ([] : List (K × V)) k where
  value := by simp
  newer := by simp
  lost := by simp [lastInserted]
  touched := by simp

omit [DecidableEq K] in
theorem NoRemove.tail {e : Op K V × Result V} {past : History K V} (h : NoRemove (e :: past)) :
    NoRemove past := fun a ha => h a (List.mem_cons_of_mem _ ha)

namespace Recalls

variable {cap : Nat} {past : History K V} {l l' : List (K × V)} {k key : K} {op : Op K V}
  {r : Result V}

/-- Touching `k` itself puts it in front. -/
theorem touch_self {v : V} {rest : List (K × V)} (htouched : op.touched = some k)
    (hlast : lastInserted k ((op, r) :: past) = some v) (hl' : l' = (k, v) :: rest) :
    Recalls cap ((op, r) :: past) l' k := by
  have hsince : touchedSince k ((op, r) :: past) = ∅ := by simp [touchedSince, htouched]
  subst hl'
  refine ⟨fun w hw => ?_, fun _ => ?_, fun hk => ?_, fun _ _ => ?_⟩
  · rw [List.lookup_cons_self] at hw
    rw [hlast, hw]
  · simp
  · exact absurd (by simp) hk
  · simp [hsince]

/-- Moving another key to the front: it becomes newer than `k`, and it is the only
one that does. -/
theorem touch_other (h : Recalls cap past l k) (hne : key ≠ k) (htouched : op.touched = some key)
    (hlast : lastInserted k ((op, r) :: past) = lastInserted k past)
    {v : V} (hl' : l' = (key, v) :: erase key l) : Recalls cap ((op, r) :: past) l' k := by
  have hsince : touchedSince k ((op, r) :: past) = insert key (touchedSince k past) := by
    simp [touchedSince, htouched, hne]
  have hkeys : keys l' = key :: (keys l).filter (· ≠ key) := by
    rw [hl', keys_cons, keys_erase]
  have hmem : k ∈ keys l' ↔ k ∈ keys l := by
    rw [hkeys, List.mem_cons, List.mem_filter]
    simp [hne.symm]
  have hnewer : newerThan k (keys l') = key :: (newerThan k (keys l)).filter (· ≠ key) := by
    rw [hkeys, newerThan_cons_of_ne hne, newerThan_filter hne]
  refine ⟨fun w hw => ?_, fun hk x hx => ?_, fun hk hsome => ?_, fun hrem hk x hx => ?_⟩
  · rw [hl', lookup_cons_of_ne hne.symm, lookup_erase_of_ne hne.symm] at hw
    rw [hlast, h.value w hw]
  · rw [hsince, Finset.mem_insert]
    rw [hnewer] at hx
    rcases List.mem_cons.mp hx with rfl | hx
    · exact Or.inl rfl
    · exact Or.inr (h.newer (hmem.mp hk) x (List.mem_filter.mp hx).1)
  · rw [hlast] at hsome
    rw [hsince]
    exact (h.lost (fun hk' => hk (hmem.mpr hk')) hsome).trans
      (Finset.card_le_card (Finset.subset_insert _ _))
  · rw [hnewer, List.mem_cons]
    rw [hsince, Finset.mem_insert] at hx
    by_cases hxk : x = key
    · exact Or.inl hxk
    · have hx' := h.touched hrem.tail (hmem.mp hk) x (hx.resolve_left hxk)
      exact Or.inr (List.mem_filter.mpr ⟨hx', by simpa using hxk⟩)

/-- Writing a new key into a full list: the last key is lost, and it was passed by
all the others. -/
theorem evict_other (h : Recalls cap past l k) (hnd : (keys l).Nodup) (hne : key ≠ k)
    (htouched : op.touched = some key)
    (hlast : lastInserted k ((op, r) :: past) = lastInserted k past)
    (hnew : key ∉ keys l) (hfull : cap < l.length + 1) {v : V}
    (hl' : l' = (key, v) :: l.dropLast) : Recalls cap ((op, r) :: past) l' k := by
  have hsince : touchedSince k ((op, r) :: past) = insert key (touchedSince k past) := by
    simp [touchedSince, htouched, hne]
  have hkeys : keys l' = key :: (keys l).dropLast := by
    rw [hl', keys_cons, keys, List.map_dropLast]
    rfl
  have hmem : k ∈ keys l' ↔ k ∈ (keys l).dropLast := by
    rw [hkeys, List.mem_cons, or_iff_right hne.symm]
  have hback : k ∈ keys l' → k ∈ keys l := fun hk => List.dropLast_subset _ (hmem.mp hk)
  have hnewer : k ∈ keys l' → newerThan k (keys l') = key :: newerThan k (keys l) := by
    intro hk
    rw [hkeys, newerThan_cons_of_ne hne, newerThan_dropLast (hmem.mp hk)]
  refine ⟨fun w hw => ?_, fun hk x hx => ?_, fun hk hsome => ?_, fun hrem hk x hx => ?_⟩
  · rw [hl', lookup_cons_of_ne hne.symm] at hw
    rcases lookup_dropLast hnd k with hkeep | hgone
    · rw [hlast, h.value w (hkeep ▸ hw)]
    · rw [hgone] at hw
      exact absurd hw (by simp)
  · rw [hsince, Finset.mem_insert]
    rw [hnewer hk] at hx
    rcases List.mem_cons.mp hx with rfl | hx
    · exact Or.inl rfl
    · exact Or.inr (h.newer (hback hk) x hx)
  · rw [hlast] at hsome
    rw [hsince]
    by_cases hin : k ∈ keys l
    · -- `k` was the last key: the other keys of the full list were touched after it
      have hall : newerThan k (keys l) = (keys l).dropLast :=
        newerThan_of_lost hin fun hk' => hk (hmem.mpr hk')
      have hsub : (keys l).dropLast.toFinset ⊆ touchedSince k past := by
        intro x hx
        exact h.newer hin x (hall ▸ List.mem_toFinset.mp hx)
      have hcard : (keys l).dropLast.toFinset.card = l.length - 1 := by
        rw [List.toFinset_card_of_nodup ((List.dropLast_sublist _).nodup hnd),
          List.length_dropLast, keys, List.length_map]
      have hout : key ∉ (keys l).dropLast.toFinset := by
        rw [List.mem_toFinset]
        exact fun hm => hnew (List.dropLast_subset _ hm)
      have hle := Finset.card_le_card (Finset.insert_subset_insert key hsub)
      rw [Finset.card_insert_of_notMem hout, hcard] at hle
      omega
    · exact (h.lost hin hsome).trans (Finset.card_le_card (Finset.subset_insert _ _))
  · rw [hnewer hk, List.mem_cons]
    rw [hsince, Finset.mem_insert] at hx
    exact hx.imp_right (h.touched hrem.tail (hback hk) x)

/-- Removing `k` forgets it. -/
theorem remove_self : Recalls cap ((.remove k, r) :: past) (erase k l) k := by
  have hout : k ∉ keys (erase k l) := not_mem_keys_erase k l
  refine ⟨fun w hw => ?_, fun hk => absurd hk hout, fun _ hsome => ?_,
    fun _ hk => absurd hk hout⟩
  · rw [lookup_erase_self] at hw
    exact absurd hw (by simp)
  · rw [lastInserted, if_pos rfl] at hsome
    exact absurd hsome (by simp)

/-- Removing another key leaves `k` where it is among the rest. -/
theorem remove_other (h : Recalls cap past l k) (hne : key ≠ k) :
    Recalls cap ((.remove key, r) :: past) (erase key l) k := by
  have hlast : lastInserted k ((Op.remove key, r) :: past) = lastInserted k past := by
    rw [lastInserted, if_neg hne]
  have hmem : k ∈ keys (erase key l) ↔ k ∈ keys l := by
    rw [keys_erase, List.mem_filter]
    simp [hne.symm]
  refine ⟨fun w hw => ?_, fun hk x hx => ?_, fun hk hsome => ?_, fun hrem => ?_⟩
  · rw [lookup_erase_of_ne hne.symm] at hw
    rw [hlast, h.value w hw]
  · rw [keys_erase, newerThan_filter hne] at hx
    exact h.newer (hmem.mp hk) x (List.mem_filter.mp hx).1
  · rw [hlast] at hsome
    exact h.lost (fun hk' => hk (hmem.mpr hk')) hsome
  · exact absurd (hrem _ List.mem_cons_self) (by simp [Op.removed])

/-- Looking without touching changes nothing. -/
theorem exists_any (h : Recalls cap past l k) : Recalls cap ((.exists key, r) :: past) l k where
  value := h.value
  newer := h.newer
  lost := h.lost
  touched hrem := h.touched hrem.tail

/-- **One step** keeps what the contents owe to the history. -/
theorem step (h : Recalls cap past l k) (hnd : (keys l).Nodup)
    (hstep : perform cap l op = some (r, l')) : Recalls cap ((op, r) :: past) l' k := by
  cases op with
  | insert key v =>
      obtain ⟨rfl, rfl⟩ := Prod.mk.inj (Option.some.inj hstep)
      by_cases hk : key = k
      · subst hk
        have hhead : ∃ rest, write cap key v l = (key, v) :: rest := by
          unfold write
          split <;> exact ⟨_, rfl⟩
        obtain ⟨rest, hrest⟩ := hhead
        exact touch_self rfl (by rw [lastInserted, if_pos rfl]) hrest
      · have hlast : lastInserted k ((Op.insert key v, Result.done) :: past) =
            lastInserted k past := by rw [lastInserted, if_neg hk]
        by_cases hin : key ∈ keys l
        · exact h.touch_other hk rfl hlast (write_of_mem hin cap v)
        · by_cases hfull : cap < l.length + 1
          · exact h.evict_other hnd hk rfl hlast hin hfull (write_of_full hin hfull v)
          · refine h.touch_other (v := v) hk rfl hlast ?_
            rw [write_of_room hin hfull, erase_of_not_mem hin]
  | get key =>
      obtain ⟨v, hv, heq⟩ := Option.map_eq_some_iff.mp hstep
      obtain ⟨rfl, rfl⟩ := Prod.mk.inj heq
      by_cases hk : key = k
      · subst hk
        refine touch_self rfl ?_ (touch_of_mem hv)
        rw [lastInserted, h.value v hv]
      · exact h.touch_other hk rfl rfl (touch_of_mem hv)
  | remove key =>
      obtain ⟨rfl, rfl⟩ := Prod.mk.inj (Option.some.inj hstep)
      by_cases hk : key = k
      · subst hk
        exact remove_self
      · exact h.remove_other hk
  | «exists» key =>
      obtain ⟨rfl, rfl⟩ := Prod.mk.inj (Option.some.inj hstep)
      exact h.exists_any

end Recalls

/-! ### Runs of a recency list -/

section Runs

variable {cap : Nat} {past : History K V} {l : List (K × V)}

theorem nodup_perform {l' : List (K × V)} {op : Op K V} {r : Result V} (hnd : (keys l).Nodup)
    (hstep : perform cap l op = some (r, l')) : (keys l').Nodup := by
  cases op with
  | insert key v =>
      obtain ⟨rfl, rfl⟩ := Prod.mk.inj (Option.some.inj hstep)
      exact nodup_write hnd cap key v
  | get key =>
      obtain ⟨v, -, heq⟩ := Option.map_eq_some_iff.mp hstep
      obtain ⟨rfl, rfl⟩ := Prod.mk.inj heq
      exact nodup_touch hnd key
  | remove key =>
      obtain ⟨rfl, rfl⟩ := Prod.mk.inj (Option.some.inj hstep)
      exact nodup_erase hnd key
  | «exists» key =>
      obtain ⟨rfl, rfl⟩ := Prod.mk.inj (Option.some.inj hstep)
      exact hnd

theorem length_perform_le {l' : List (K × V)} {op : Op K V} {r : Result V} (hcap : 0 < cap)
    (hnd : (keys l).Nodup) (hlen : l.length ≤ cap) (hstep : perform cap l op = some (r, l')) :
    l'.length ≤ cap := by
  cases op with
  | insert key v =>
      obtain ⟨rfl, rfl⟩ := Prod.mk.inj (Option.some.inj hstep)
      exact length_write_le hcap hnd hlen key v
  | get key =>
      obtain ⟨v, -, heq⟩ := Option.map_eq_some_iff.mp hstep
      obtain ⟨rfl, rfl⟩ := Prod.mk.inj heq
      rw [length_touch hnd]
      exact hlen
  | remove key =>
      obtain ⟨rfl, rfl⟩ := Prod.mk.inj (Option.some.inj hstep)
      exact (length_erase_le key l).trans hlen
  | «exists» key =>
      obtain ⟨rfl, rfl⟩ := Prod.mk.inj (Option.some.inj hstep)
      exact hlen

/-- A run from the empty list never holds a key twice, never exceeds the capacity,
and its contents recall its history. -/
theorem recalls_of_run (hcap : 0 < cap) (hrun : (machine K V cap).Run Runs.free [] [] past l) :
    (keys l).Nodup ∧ l.length ≤ cap ∧ ∀ k, Recalls cap past l k := by
  refine hrun.invariant (I := fun past l =>
    (keys l).Nodup ∧ l.length ≤ cap ∧ ∀ k, Recalls cap past l k) ?_ ?_ ?_
  · exact ⟨List.nodup_nil, Nat.zero_le _, recalls_nil cap⟩
  · intro past l e l' hI _ hstep
    exact ⟨nodup_perform hI.1 hstep, length_perform_le hcap hI.1 hI.2.1 hstep,
      fun k => (hI.2.2 k).step hI.1 hstep⟩
  · intro _ _ _ _ hsilent
    exact absurd hsilent id

/-- What was inserted and not removed was touched. -/
theorem touched_of_lastInserted {k : K} {past : History K V} (h : (lastInserted k past).isSome) :
    Touched k past := by
  induction past with
  | nil => exact absurd h (by simp [lastInserted])
  | cons e past ih =>
      have hrest : Touched k past → Touched k (e :: past) := fun ⟨a, ha, hk⟩ =>
        ⟨a, List.mem_cons_of_mem _ ha, hk⟩
      obtain ⟨op, r⟩ := e
      cases op with
      | insert key v =>
          by_cases hk : key = k
          · exact ⟨_, List.mem_cons_self, by rw [← hk]; rfl⟩
          · rw [lastInserted, if_neg hk] at h
            exact hrest (ih h)
      | get key => exact hrest (ih h)
      | remove key =>
          rw [lastInserted] at h
          split at h
          · exact absurd h (by simp)
          · exact hrest (ih h)
      | «exists» key => exact hrest (ih h)

/-- Without removals, a key that was touched was inserted. -/
theorem lastInserted_of_touched (hcap : 0 < cap)
    (hrun : (machine K V cap).Run Runs.free [] [] past l) :
    NoRemove past → ∀ k, Touched k past → (lastInserted k past).isSome := by
  refine (hrun.strengthen fun past l h => recalls_of_run hcap h).invariant
    (I := fun past _ => NoRemove past → ∀ k, Touched k past → (lastInserted k past).isSome)
    ?_ ?_ ?_
  · intro _ k htouched
    obtain ⟨e, he, -⟩ := htouched
    exact absurd he List.not_mem_nil
  · intro past l e l' ih hok hstep hrem k htouched
    obtain ⟨op, r⟩ := e
    have hrest : op.touched ≠ some k → (lastInserted k past).isSome := by
      intro hne
      obtain ⟨e, he, hk⟩ := htouched
      rcases List.mem_cons.mp he with rfl | he
      · exact absurd hk hne
      · exact ih hrem.tail k ⟨e, he, hk⟩
    cases op with
    | insert key v =>
        -- the key inserted, or one that was there before
        rw [lastInserted]
        split
        · rfl
        · next hk => exact hrest (by simpa [Op.touched] using hk)
    | get key =>
        by_cases hk : key = k
        · -- only a key that is there can be read, and what is there was inserted
          subst hk
          obtain ⟨v, hv, -⟩ := Option.map_eq_some_iff.mp hstep
          rw [lastInserted, (hok.2.2.2 key).value v hv]
          rfl
        · exact hrest (by simpa [Op.touched] using hk)
    | remove key => exact absurd (hrem _ List.mem_cons_self) (by simp [Op.removed])
    | «exists» key => exact hrest (by simp [Op.touched])
  · intro _ _ _ _ hsilent
    exact absurd hsilent id

/-- **Retention.** A key that was inserted, not removed since, and passed by fewer
than `cap` other keys since its last touch is there with its last value. -/
theorem retained (hcap : 0 < cap) (hrun : (machine K V cap).Run Runs.free [] [] past l)
    {k : K} {v : V} (hlast : lastInserted k past = some v)
    (hfew : (touchedSince k past).card < cap) : l.lookup k = some v := by
  obtain ⟨-, -, hrecalls⟩ := recalls_of_run hcap hrun
  cases hk : l.lookup k with
  | none =>
      have := (hrecalls k).lost (lookup_eq_none_iff.mp hk) (by rw [hlast]; rfl)
      omega
  | some w => rw [← hlast, (hrecalls k).value w hk]

/-- **Presence.** Without removals, a key is there exactly when it was touched and
passed by fewer than `cap` other keys since its last touch. -/
theorem present_iff (hcap : 0 < cap) (hrun : (machine K V cap).Run Runs.free [] [] past l)
    (hrem : NoRemove past) (k : K) :
    k ∈ keys l ↔ Touched k past ∧ (touchedSince k past).card < cap := by
  obtain ⟨-, hlen, hrecalls⟩ := recalls_of_run hcap hrun
  constructor
  · intro hk
    obtain ⟨v, hv⟩ := Option.isSome_iff_exists.mp (lookup_isSome_iff.mpr hk)
    have hsome : (lastInserted k past).isSome := by rw [(hrecalls k).value v hv]; rfl
    have hsub : touchedSince k past ⊆ (newerThan k (keys l)).toFinset := fun x hx =>
      List.mem_toFinset.mpr ((hrecalls k).touched hrem hk x hx)
    have hcard : (touchedSince k past).card ≤ (newerThan k (keys l)).length :=
      (Finset.card_le_card hsub).trans (List.toFinset_card_le _)
    have hlt : (newerThan k (keys l)).length < l.length := by
      have := length_newerThan_lt hk
      rwa [show (keys l).length = l.length from List.length_map _] at this
    exact ⟨touched_of_lastInserted hsome, by omega⟩
  · intro h
    obtain ⟨htouched, hfew⟩ := h
    obtain ⟨v, hv⟩ := Option.isSome_iff_exists.mp
      (lastInserted_of_touched hcap hrun hrem k htouched)
    rw [← lookup_isSome_iff, retained hcap hrun hv hfew]
    rfl

end Runs

end Recency
