import Loc.Lookup
import Loc.Lib.Retention

/-!
# Loc.Guarantee.Lookup

**Last write wins**: what the combined lookup returns, in terms of its history.

A key may be in the directory and in the cache at once, with different values: an
`update` may put a home key into the cache before an `insert` puts it into the
directory. `Remembers` is what every reachable slot owes to the history of its key;
the directory answers first, so the stale copy is never read, and `remove` drops
both.
-/

namespace Loc

namespace LocLookup

variable {K V : Type} [DecidableEq K]

/-! ### Calls and their history -/

/-- A call on the combined lookup. -/
inductive Op (K V : Type)
  | insert (key : K) (value : V)
  | update (key : K) (value : V)
  | remove (key : K)
  | get (key : K)
  | exists (key : K)
  | clearCache

/-- One call and what it returns. `insert` is given the home of its key. -/
def perform (home : K → NodeType) (l : LocLookup K V) :
    Op K V → Option (Recency.Result V × LocLookup K V)
  | .insert key value => (l.insert key (home key) value).map fun l => (.done, l)
  | .update key value => (l.update key value).map fun l => (.done, l)
  | .remove key => (l.remove key).map fun l => (.done, l)
  | .get key => (l.get key).map fun r => (.value r.1, r.2)
  | .exists key => some (.found (l.exists key), l)
  | .clearCache => some (.done, l.clearCache)

/-- The lookup as a machine whose labels are calls and their results. -/
def machine (V : Type) (home : K → NodeType) :
    Runs.Machine (LocLookup K V) (Op K V × Recency.Result V) :=
  .observing (perform home)

/-- The calls of a run and what they returned, newest first. -/
abbrev History (K V : Type) := List (Op K V × Recency.Result V)

/-- The value of the newest `insert` or `update` of `k`, unless `k` was removed after
it. -/
def lastWrite (k : K) : History K V → Option V
  | [] => none
  | (.insert key v, _) :: past => if key = k then some v else lastWrite k past
  | (.update key v, _) :: past => if key = k then some v else lastWrite k past
  | (.remove key, _) :: past => if key = k then none else lastWrite k past
  | (.get _, _) :: past => lastWrite k past
  | (.exists _, _) :: past => lastWrite k past
  | (.clearCache, _) :: past => lastWrite k past

/-- `k` was inserted, and not removed after that. -/
def insertedSince (k : K) : History K V → Bool
  | [] => false
  | (.insert key _, _) :: past => if key = k then true else insertedSince k past
  | (.remove key, _) :: past => if key = k then false else insertedSince k past
  | (.update _ _, _) :: past => insertedSince k past
  | (.get _, _) :: past => insertedSince k past
  | (.exists _, _) :: past => insertedSince k past
  | (.clearCache, _) :: past => insertedSince k past

/-! ### What a slot owes to the history of its key -/

/-- The readable copy is the last write; only a home key is ever in the directory,
and there it stays from its insertion to its removal. -/
structure Remembers (home : K → NodeType) (thisNode : NodeType) (past : History K V) (k : K)
    (t : Slot V) : Prop where
  value : ∀ v, t.value = some v → lastWrite k past = some v
  away : thisNode ≠ home k → t.dir = none
  permanent : thisNode = home k → insertedSince k past = true → t.dir.isSome

namespace Remembers

variable {home : K → NodeType} {thisNode : NodeType} {past past' : History K V} {k : K}
  {t : Slot V}

theorem nil : Remembers home thisNode ([] : History K V) k ⟨none, none⟩ where
  value := by simp [Slot.value]
  away _ := rfl
  permanent _ h := absurd h (by simp [insertedSince])

/-- A call about something else leaves the history of the key alone. -/
theorem of_history (h : Remembers home thisNode past k t)
    (hwrite : lastWrite k past' = lastWrite k past)
    (hins : insertedSince k past' = insertedSince k past) :
    Remembers home thisNode past' k t where
  value v hv := hwrite ▸ h.value v hv
  away := h.away
  permanent hhome hp := h.permanent hhome (hins ▸ hp)

/-- Losing the cached copy uncovers nothing: the directory answered first. -/
theorem evicted (h : Remembers home thisNode past k t) :
    Remembers home thisNode past k t.evicted where
  value v hv := by
    have hdir : t.dir = some v := by simpa [Slot.value, Slot.evicted] using hv
    exact h.value v (by simp [Slot.value, hdir])
  away := h.away
  permanent := h.permanent

/-- A slot left alone by a call about another key. -/
theorem keeps {l l' : LocLookup K V} (h : Remembers home thisNode past k (l.slot k))
    (hkeep : Keeps l l' k) : Remembers home thisNode past k (l'.slot k) := by
  rcases hkeep with hsame | hlost
  · exact hsame ▸ h
  · exact hlost ▸ h.evicted

end Remembers

/-- The lookup after a history: every slot remembers its key's part of it. -/
structure Faithful (home : K → NodeType) (thisNode : NodeType) (past : History K V)
    (l : LocLookup K V) : Prop where
  roomy : l.Roomy
  node : l.thisNode = thisNode
  remembers : ∀ k, Remembers home thisNode past k (l.slot k)

/-! ### Every call keeps it -/

section Steps

variable {home : K → NodeType} {thisNode : NodeType} {past : History K V} {l l' : LocLookup K V}
  {r : Recency.Result V} {key : K} {v : V}

theorem Faithful.insert (h : Faithful home thisNode past l)
    (hins : l.insert key (home key) v = some l') :
    Faithful home thisNode ((.insert key v, r) :: past) l' := by
  obtain ⟨l₁, hins₁, hroomy⟩ := h.roomy.insert_isSome key (home key) v
  obtain rfl : l₁ = l' := Option.some.inj (hins₁.symm.trans hins)
  have hhist : ∀ k, k ≠ key →
      Remembers home thisNode ((.insert key v, r) :: past) k (l.slot k) := by
    intro k hk
    refine (h.remembers k).of_history ?_ ?_
    · rw [lastWrite, if_neg hk.symm]
    · rw [insertedSince, if_neg hk.symm]
  have hlast : lastWrite key ((.insert key v, r) :: past) = some v := by
    rw [lastWrite, if_pos rfl]
  by_cases hhome : l.thisNode = home key
  · rw [← hhome] at hins
    obtain ⟨hthis, hself, hother⟩ := insert_some_home hins
    refine ⟨hroomy, hthis.trans h.node, fun k => ?_⟩
    by_cases hk : k = key
    · subst hk
      rw [hself]
      refine ⟨fun w hw => ?_, fun haway => absurd (h.node ▸ hhome) haway, fun _ _ => rfl⟩
      rw [hlast]
      simpa [Slot.value] using hw
    · rw [hother k hk]
      exact hhist k hk
  · obtain ⟨hthis, hself, hother⟩ := insert_some_away hhome hins
    refine ⟨hroomy, hthis.trans h.node, fun k => ?_⟩
    by_cases hk : k = key
    · -- the key was never in the directory, so the cached copy is the readable one
      subst hk
      have haway : thisNode ≠ home k := h.node ▸ hhome
      have hdir := (h.remembers k).away haway
      rw [hself]
      refine ⟨fun w hw => ?_, fun _ => hdir, fun hhome' => absurd hhome' haway⟩
      rw [hlast]
      simpa [Slot.value, hdir] using hw
    · exact (hhist k hk).keeps (hother k hk)

theorem Faithful.update (h : Faithful home thisNode past l) (hupd : l.update key v = some l') :
    Faithful home thisNode ((.update key v, r) :: past) l' := by
  obtain ⟨l₁, hupd₁, hroomy⟩ := h.roomy.update_isSome key v
  obtain rfl : l₁ = l' := Option.some.inj (hupd₁.symm.trans hupd)
  obtain ⟨hthis, hself, hother⟩ := update_some hupd
  refine ⟨hroomy, hthis.trans h.node, fun k => ?_⟩
  by_cases hk : k = key
  · subst hk
    have hlast : lastWrite k ((.update k v, r) :: past) = some v := by
      rw [lastWrite, if_pos rfl]
    obtain ⟨-, haway, hperm⟩ := h.remembers k
    rw [hself]
    cases hdir : (l.slot k).dir with
    | some w =>
        -- written to the directory, where the key already was
        refine ⟨fun w hw => ?_, fun ha => absurd (haway ha) (by simp [hdir]), fun _ _ => ?_⟩
        · rw [hlast]
          simpa [Slot.updated, Slot.value, hdir] using hw
        · simp [Slot.updated, hdir]
    | none =>
        -- written to the cache: had the key been inserted, it would be in the directory
        refine ⟨fun w hw => ?_, fun _ => ?_, fun hhome hins => ?_⟩
        · rw [hlast]
          simpa [Slot.updated, Slot.value, hdir] using hw
        · simp [Slot.updated, hdir]
        · rw [insertedSince] at hins
          exact absurd (hperm hhome hins) (by simp [hdir])
  · refine Remembers.keeps ((h.remembers k).of_history ?_ rfl) (hother k hk)
    rw [lastWrite, if_neg (Ne.symm hk)]

theorem Faithful.remove (h : Faithful home thisNode past l) (hrem : l.remove key = some l') :
    Faithful home thisNode ((.remove key, r) :: past) l' := by
  obtain ⟨l₁, hrem₁, hroomy⟩ := h.roomy.remove_isSome key
  obtain rfl : l₁ = l' := Option.some.inj (hrem₁.symm.trans hrem)
  obtain ⟨hthis, hself, hother⟩ := remove_some hrem
  refine ⟨hroomy, hthis.trans h.node, fun k => ?_⟩
  by_cases hk : k = key
  · subst hk
    rw [hself]
    refine ⟨fun w hw => absurd hw (by simp [Slot.value]), fun _ => rfl, fun _ hins => ?_⟩
    rw [insertedSince, if_pos rfl] at hins
    exact absurd hins (by simp)
  · rw [hother k hk]
    exact (h.remembers k).of_history (by rw [lastWrite, if_neg (Ne.symm hk)])
      (by rw [insertedSince, if_neg (Ne.symm hk)])

theorem Faithful.get (h : Faithful home thisNode past l) {w : V}
    (hget : l.get key = some (w, l')) : Faithful home thisNode ((.get key, r) :: past) l' := by
  obtain ⟨hval, hthis, hsame⟩ := get_some hget
  have hex : l.exists key = true := by rw [exists_eq, hval]; rfl
  obtain ⟨w₁, l₁, hget₁, hroomy⟩ := h.roomy.get_isSome hex
  obtain ⟨rfl, rfl⟩ := Prod.mk.inj (Option.some.inj (hget₁.symm.trans hget))
  refine ⟨hroomy, hthis.trans h.node, fun k => ?_⟩
  rw [hsame k]
  exact (h.remembers k).of_history rfl rfl

theorem Faithful.clearCache (h : Faithful home thisNode past l) :
    Faithful home thisNode ((.clearCache, r) :: past) l.clearCache :=
  ⟨h.roomy.clearCache, h.node, fun k => (h.remembers k).evicted.of_history rfl rfl⟩

/-- **One call** keeps every slot faithful to the history. -/
theorem Faithful.step (h : Faithful home thisNode past l) {op : Op K V}
    (hstep : l.perform home op = some (r, l')) :
    Faithful home thisNode ((op, r) :: past) l' := by
  cases op with
  | insert key v =>
      obtain ⟨l₁, hins, heq⟩ := Option.map_eq_some_iff.mp hstep
      obtain ⟨-, rfl⟩ := Prod.mk.inj heq
      exact h.insert hins
  | update key v =>
      obtain ⟨l₁, hupd, heq⟩ := Option.map_eq_some_iff.mp hstep
      obtain ⟨-, rfl⟩ := Prod.mk.inj heq
      exact h.update hupd
  | remove key =>
      obtain ⟨l₁, hrem, heq⟩ := Option.map_eq_some_iff.mp hstep
      obtain ⟨-, rfl⟩ := Prod.mk.inj heq
      exact h.remove hrem
  | get key =>
      obtain ⟨⟨w, l₁⟩, hget, heq⟩ := Option.map_eq_some_iff.mp hstep
      obtain ⟨-, rfl⟩ := Prod.mk.inj heq
      exact h.get hget
  | «exists» key =>
      obtain ⟨-, rfl⟩ := Prod.mk.inj (Option.some.inj hstep)
      exact ⟨h.roomy, h.node, fun k => (h.remembers k).of_history rfl rfl⟩
  | clearCache =>
      obtain ⟨-, rfl⟩ := Prod.mk.inj (Option.some.inj hstep)
      exact h.clearCache

/-- Every call returns, but a `get` of a missing key. -/
theorem Roomy.perform_isSome (h : l.Roomy) {op : Op K V}
    (hget : ∀ key, op = .get key → l.exists key = true) : (l.perform home op).isSome := by
  cases op with
  | insert key v =>
      obtain ⟨l₁, hins, -⟩ := h.insert_isSome key (home key) v
      rw [perform, hins]
      rfl
  | update key v =>
      obtain ⟨l₁, hupd, -⟩ := h.update_isSome key v
      rw [perform, hupd]
      rfl
  | remove key =>
      obtain ⟨l₁, hrem, -⟩ := h.remove_isSome key
      rw [perform, hrem]
      rfl
  | get key =>
      obtain ⟨v, l₁, hget, -⟩ := h.get_isSome (hget key rfl)
      rw [perform, hget]
      rfl
  | «exists» key => rfl
  | clearCache => rfl

end Steps

/-! ### Every run -/

theorem faithful_of_run {home : K → NodeType} {thisNode : NodeType} {cap : Nat} (hcap : 0 < cap)
    {past : History K V} {l : LocLookup K V}
    (hrun : (machine V home).Run Runs.free [] (new cap thisNode) past l) :
    Faithful home thisNode past l := by
  refine hrun.invariant (I := Faithful home thisNode) ?_ ?_ ?_
  · exact ⟨roomy_new hcap thisNode, rfl, fun k => Remembers.nil⟩
  · intro past l e l' hI _ hstep
    exact hI.step hstep
  · intro _ _ _ _ hsilent
    exact absurd hsilent id

/-- **Last write wins.** Whenever a key exists, `get` returns the value of its newest
`insert` or `update`, which no `remove` followed; a home key exists from its
insertion to its removal; and no call is undefined, but a `get` of a missing key. -/
theorem last_write_wins {home : K → NodeType} {thisNode : NodeType} {cap : Nat} (hcap : 0 < cap)
    {past : History K V} {l : LocLookup K V}
    (hrun : (machine V home).Run Runs.free [] (new cap thisNode) past l) :
    (∀ key, l.exists key = true →
      ∃ v l', l.get key = some (v, l') ∧ lastWrite key past = some v) ∧
    (∀ key, home key = thisNode → insertedSince key past = true → l.exists key = true) ∧
    ∀ op, (∀ key, op = .get key → l.exists key = true) → (l.perform home op).isSome := by
  have h := faithful_of_run hcap hrun
  refine ⟨fun key hkey => ?_, fun key hhome hins => ?_, fun op hget =>
    h.roomy.perform_isSome hget⟩
  · obtain ⟨v, l', hget, -⟩ := h.roomy.get_isSome hkey
    exact ⟨v, l', hget, (h.remembers key).value v (get_some hget).1⟩
  · have hdir := (h.remembers key).permanent hhome.symm hins
    rw [exists_eq, Slot.value, Option.isSome_or, hdir]
    rfl

/-- Key 1 has its home here and was updated into the cache before it was inserted
into the directory, then updated there; the cached copy is stale and not read. -/
theorem last_write_wins_over_stale : ∃ l : LocLookup Nat Nat,
    l.slot 1 = ⟨some 12, some 10⟩ ∧ ∃ v l', l.get 1 = some (v, l') ∧ v = 12 := by
  have hreplay : ∃ r ∈ Runs.replay
      (perform fun key : Nat => if key = 1 then 1 else 0) Runs.free []
      (new 2 1 : LocLookup Nat Nat) [.update 1 10, .insert 1 11, .insert 2 20, .update 1 12],
      lastWrite 1 r.1 = some 12 ∧ insertedSince 1 r.1 = true ∧
      r.2.slot 1 = ⟨some 12, some 10⟩ := by
    decide +kernel
  obtain ⟨past, l, hrun, hlast, hins, hslot⟩ := Runs.Machine.Run.exists_of_replay hreplay
  obtain ⟨hwins, hperm, -⟩ := last_write_wins (by decide) hrun
  obtain ⟨v, l', hget, hv⟩ := hwins 1 (hperm 1 rfl hins)
  exact ⟨l, hslot, v, l', hget, Option.some.inj (hv.symm.trans hlast)⟩

end LocLookup

end Loc
