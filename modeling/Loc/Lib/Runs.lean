import Mathlib.Data.List.Infix

/-!
# Loc.Lib.Runs

Runs of a labelled machine, recorded together with their **history**.

A `Machine` has labelled steps, which a run records, and silent steps, which it
does not. A run is restricted by a *guard*: a predicate on the history so far,
the current state and the label about to be taken. Delivery disciplines, the
obligations of an environment and the hypotheses of a theorem about runs are all
guards, so one run relation serves all of them.

* `Run.invariant` — the induction rule: what holds at the start and is preserved
  by every guarded step holds at the end.
* `Run.mono`, `Run.strengthen` — weakening a guard, and adding an invariant to it.
* `Run.invariant₂` — the induction rule for two runs over one history.
* `Run.guard_iff` — when a guard is exactly what a property of states needs.
* `Run.simulates` — a forward simulation that drops the labels the abstract
  machine does not see.
* `play` — a decidable replay of a list of labels, from which concrete runs are
  built.

Histories are lists of labels with the **newest first**.
-/

namespace Runs

/-- A machine with labelled steps and silent ones. -/
structure Machine (σ ℓ : Type*) where
  /-- `step s l s'`: taking `l` leads from `s` to `s'`. -/
  step : σ → ℓ → σ → Prop
  /-- A move that leaves no trace in the history. -/
  silent : σ → σ → Prop

/-- What a run may do next, given its history and its state. -/
abbrev Guard (σ ℓ : Type*) := List ℓ → σ → ℓ → Prop

namespace Machine

variable {σ ℓ : Type*} (M : Machine σ ℓ)

/-- The runs of `M` under `ok` that start in `s₀` with history `past₀`. -/
inductive Run (ok : Guard σ ℓ) (past₀ : List ℓ) (s₀ : σ) : List ℓ → σ → Prop
  | refl : Run ok past₀ s₀ past₀ s₀
  | step {past : List ℓ} {s s' : σ} {l : ℓ} :
      Run ok past₀ s₀ past s → ok past s l → M.step s l s' →
      Run ok past₀ s₀ (l :: past) s'
  | silent {past : List ℓ} {s s' : σ} :
      Run ok past₀ s₀ past s → M.silent s s' → Run ok past₀ s₀ past s'

end Machine

namespace Machine.Run

variable {σ ℓ : Type*} {M : Machine σ ℓ} {ok ok' : Guard σ ℓ}
  {past₀ past past' : List ℓ} {s₀ s s' : σ}

/-- The induction rule for runs. -/
theorem invariant {I : List ℓ → σ → Prop} (h : M.Run ok past₀ s₀ past s)
    (hinit : I past₀ s₀)
    (hstep : ∀ past s l s', I past s → ok past s l → M.step s l s' → I (l :: past) s')
    (hsilent : ∀ past s s', I past s → M.silent s s' → I past s') : I past s := by
  induction h with
  | refl => exact hinit
  | step _ hok hs ih => exact hstep _ _ _ _ ih hok hs
  | silent _ hs ih => exact hsilent _ _ _ ih hs

/-- The induction rule for two runs over the same history, by machines without
silent moves. -/
theorem invariant₂ {τ : Type*} {N : Machine τ ℓ} {okN : Guard τ ℓ} {t₀ t : τ}
    {R : List ℓ → σ → τ → Prop} (hM : ∀ s s', ¬ M.silent s s') (hN : ∀ t t', ¬ N.silent t t')
    (h : M.Run ok [] s₀ past s) (h' : N.Run okN [] t₀ past t) (hinit : R [] s₀ t₀)
    (hstep : ∀ past s t l s' t', R past s t → ok past s l → okN past t l → M.step s l s' →
      N.step t l t' → R (l :: past) s' t') : R past s t := by
  induction h generalizing t with
  | refl =>
      cases h' with
      | refl => exact hinit
      | silent _ hs => exact absurd hs (hN _ _)
  | step _ hok hs ih =>
      cases h' with
      | step h' hok' hs' => exact hstep _ _ _ _ _ _ (ih h') hok hok' hs hs'
      | silent _ hs' => exact absurd hs' (hN _ _)
  | silent _ hs => exact absurd hs (hM _ _)

/-- A run under a guard is a run under any weaker one. -/
theorem mono (h : M.Run ok past₀ s₀ past s)
    (himp : ∀ past s l, ok past s l → ok' past s l) : M.Run ok' past₀ s₀ past s := by
  induction h with
  | refl => exact .refl
  | step _ hok hs ih => exact .step ih (himp _ _ _ hok) hs
  | silent _ hs ih => exact .silent ih hs

/-- An invariant of the runs under `ok` may be added to the guard. -/
theorem strengthen {I : List ℓ → σ → Prop}
    (hI : ∀ past s, M.Run ok past₀ s₀ past s → I past s)
    (h : M.Run ok past₀ s₀ past s) :
    M.Run (fun past s l => ok past s l ∧ I past s) past₀ s₀ past s := by
  induction h with
  | refl => exact .refl
  | step hrun hok hs ih => exact .step ih ⟨hok, hI _ _ hrun⟩ hs
  | silent _ hs ih => exact .silent ih hs

/-- **Exact guards.** If a step from `P` ends in `P` exactly when it meets `cond`,
then the runs whose steps all meet `cond` are exactly the runs whose steps all end
in `P`. -/
theorem guard_iff {cond : Guard σ ℓ} {P : σ → Prop} (h₀ : P s₀)
    (hsilent : ∀ s s', P s → M.silent s s' → P s')
    (hiff : ∀ past s l s', M.Run ok past₀ s₀ past s → P s → ok past s l → M.step s l s' →
      (P s' ↔ cond past s l)) :
    M.Run (fun past s l => ok past s l ∧ cond past s l) past₀ s₀ past s ↔
      M.Run (fun past s l => ok past s l ∧ ∀ s', M.step s l s' → P s') past₀ s₀ past s := by
  constructor
  · intro h
    suffices hboth : M.Run (fun past s l => ok past s l ∧ ∀ s', M.step s l s' → P s')
        past₀ s₀ past s ∧ P s from hboth.1
    induction h with
    | refl => exact ⟨.refl, h₀⟩
    | @step past s s' l hrun hok hs ih =>
        have hstep : ∀ t, M.step s l t → P t := fun t ht =>
          (hiff past s l t (hrun.mono fun _ _ _ h => h.1) ih.2 hok.1 ht).mpr hok.2
        exact ⟨.step ih.1 ⟨hok.1, hstep⟩ hs, hstep s' hs⟩
    | silent _ hs ih => exact ⟨.silent ih.1 hs, hsilent _ _ ih.2 hs⟩
  · intro h
    suffices hboth : M.Run (fun past s l => ok past s l ∧ cond past s l) past₀ s₀ past s ∧ P s
      from hboth.1
    induction h with
    | refl => exact ⟨.refl, h₀⟩
    | @step past s s' l hrun hok hs ih =>
        have hcond := (hiff past s l s' (hrun.mono fun _ _ _ h => h.1) ih.2 hok.1 hs).mp
          (hok.2 s' hs)
        exact ⟨.step ih.1 ⟨hok.1, hcond⟩ hs, hok.2 s' hs⟩
    | silent _ hs ih => exact ⟨.silent ih.1 hs, hsilent _ _ ih.2 hs⟩

theorem trans {past₁ : List ℓ} {s₁ : σ} (h₁ : M.Run ok past₀ s₀ past₁ s₁)
    (h₂ : M.Run ok past₁ s₁ past s) : M.Run ok past₀ s₀ past s := by
  induction h₂ with
  | refl => exact h₁
  | step _ hok hs ih => exact .step ih hok hs
  | silent _ hs ih => exact .silent ih hs

/-- A run only ever extends its history. -/
theorem suffix (h : M.Run ok past₀ s₀ past s) : past₀ <:+ past := by
  induction h with
  | refl => exact List.suffix_rfl
  | step _ _ _ ih => exact ih.trans (List.suffix_cons ..)
  | silent _ _ ih => exact ih

/-- What holds of every label the run takes may be added to the guard. -/
theorem with_labels {C : ℓ → Prop} (h : M.Run ok past₀ s₀ past s) {l : List ℓ}
    (hpast : past = l ++ past₀) (hC : ∀ a ∈ l, C a) :
    M.Run (fun past s l => ok past s l ∧ C l) past₀ s₀ past s := by
  induction h generalizing l with
  | refl => exact .refl
  | @step past s s' a hrun hok hs ih =>
      cases l with
      | nil =>
          have hle := hrun.suffix.length_le
          rw [← show a :: past = past₀ from hpast, List.length_cons] at hle
          omega
      | cons b l =>
          obtain ⟨rfl, rfl⟩ := List.cons.inj hpast
          exact .step (ih rfl fun x hx => hC x (List.mem_cons_of_mem _ hx))
            ⟨hok, hC _ List.mem_cons_self⟩ hs
  | silent _ hs ih => exact .silent (ih hpast hC) hs

/-- **Forward simulation.** If every step of `M` is matched in `A` by the step
its label projects to, or by silence when it projects to none, then every run of
`M` is matched by a run of `A` over the projected history. The relation `R` ties
the states together and may depend on the concrete history. -/
theorem simulates {τ m : Type*} {A : Machine τ m} {okA : Guard τ m} {proj : ℓ → Option m}
    {view : σ → τ} {I : List ℓ → σ → Prop}
    (h : M.Run ok past₀ s₀ past s) (hinit : I past₀ s₀)
    (hstep : ∀ past s l s', I past s → ok past s l → M.step s l s' → I (l :: past) s' ∧
      match proj l with
      | some a => okA (past.filterMap proj) (view s) a ∧ A.step (view s) a (view s')
      | none => view s' = view s ∨ A.silent (view s) (view s'))
    (hsilent : ∀ past s s', I past s → M.silent s s' →
      I past s' ∧ (view s' = view s ∨ A.silent (view s) (view s'))) :
    A.Run okA (past₀.filterMap proj) (view s₀) (past.filterMap proj) (view s) ∧ I past s := by
  have quiet : ∀ {p : List m} {t t' : τ}, A.Run okA (past₀.filterMap proj) (view s₀) p t →
      (t' = t ∨ A.silent t t') → A.Run okA (past₀.filterMap proj) (view s₀) p t' := by
    rintro p t t' hrun (rfl | hs)
    · exact hrun
    · exact .silent hrun hs
  induction h with
  | refl => exact ⟨.refl, hinit⟩
  | @step past s s' l _ hok hs ih =>
      obtain ⟨hI, hmatch⟩ := hstep _ _ _ _ ih.2 hok hs
      refine ⟨?_, hI⟩
      cases hl : proj l with
      | none =>
          rw [hl] at hmatch
          rw [List.filterMap_cons_none hl]
          exact quiet ih.1 hmatch
      | some a =>
          rw [hl] at hmatch
          rw [List.filterMap_cons_some hl]
          exact .step ih.1 hmatch.1 hmatch.2
  | silent _ hs ih =>
      obtain ⟨hI, hmatch⟩ := hsilent _ _ _ ih.2 hs
      exact ⟨quiet ih.1 hmatch, hI⟩

end Machine.Run

/-! ### Machines given by a function -/

/-- The machine of a partial step function. It has no silent moves. -/
def Machine.ofFn {σ ℓ : Type*} (next : σ → ℓ → Option σ) : Machine σ ℓ where
  step s l s' := next s l = some s'
  silent _ _ := False

/-- The machine of operations that return a result. A label is an operation
together with what it returned. -/
def Machine.observing {σ ι ρ : Type*} (perform : σ → ι → Option (ρ × σ)) : Machine σ (ι × ρ) where
  step s l s' := perform s l.1 = some (l.2, s')
  silent _ _ := False

/-- No restriction on what a run does next. -/
def free {σ ℓ : Type*} : Guard σ ℓ := fun _ _ _ => True

instance {σ ℓ : Type*} (past : List ℓ) (s : σ) (l : ℓ) : Decidable (free past s l) := isTrue trivial

variable {σ ℓ : Type*}

/-- Replay `ls` (oldest label first), checking the guard before every step. -/
def play (next : σ → ℓ → Option σ) (ok : Guard σ ℓ) [∀ past s l, Decidable (ok past s l)]
    (past : List ℓ) (s : σ) : List ℓ → Option (List ℓ × σ)
  | [] => some (past, s)
  | l :: ls =>
      if ok past s l then
        match next s l with
        | some s' => play next ok (l :: past) s' ls
        | none => none
      else none

/-- Replay `is` (oldest operation first), recording what each returned and checking the
guard. -/
def replay {ι ρ : Type*} (perform : σ → ι → Option (ρ × σ)) (ok : Guard σ (ι × ρ))
    [∀ past s l, Decidable (ok past s l)] (past : List (ι × ρ)) (s : σ) :
    List ι → Option (List (ι × ρ) × σ)
  | [] => some (past, s)
  | i :: is =>
      match perform s i with
      | some (r, s') =>
          if ok past s (i, r) then replay perform ok ((i, r) :: past) s' is else none
      | none => none

/-- A successful replay of operations is a run. -/
theorem Machine.Run.of_replay {ι ρ : Type*} {perform : σ → ι → Option (ρ × σ)}
    {ok : Guard σ (ι × ρ)} [∀ past s l, Decidable (ok past s l)]
    {past₀ past past' : List (ι × ρ)} {s₀ s s' : σ} {is : List ι}
    (h : (Machine.observing perform).Run ok past₀ s₀ past s)
    (hreplay : replay perform ok past s is = some (past', s')) :
    (Machine.observing perform).Run ok past₀ s₀ past' s' := by
  induction is generalizing past s with
  | nil =>
      obtain ⟨rfl, rfl⟩ : past = past' ∧ s = s' := by simpa [replay] using hreplay
      exact h
  | cons i is ih =>
      rw [replay] at hreplay
      cases hp : perform s i with
      | none => rw [hp] at hreplay; exact absurd hreplay (by simp)
      | some r =>
          obtain ⟨r, t⟩ := r
          rw [hp] at hreplay
          by_cases hok : ok past s (i, r)
          · exact ih (.step (l := (i, r)) h hok hp) (by simpa [hok] using hreplay)
          · exact absurd hreplay (by simp [hok])

/-- A replay that ends in `P` is a run that ends in `P`. -/
theorem Machine.Run.exists_of_replay {ι ρ : Type*} {perform : σ → ι → Option (ρ × σ)}
    {ok : Guard σ (ι × ρ)} [∀ past s l, Decidable (ok past s l)]
    {past₀ : List (ι × ρ)} {s₀ : σ} {is : List ι} {P : List (ι × ρ) × σ → Prop}
    (h : ∃ r ∈ replay perform ok past₀ s₀ is, P r) :
    ∃ past s, (Machine.observing perform).Run ok past₀ s₀ past s ∧ P (past, s) := by
  obtain ⟨⟨past, s⟩, hr, hP⟩ := h
  exact ⟨past, s, .of_replay .refl hr, hP⟩

/-- A successful replay is a run. -/
theorem Machine.Run.of_play {next : σ → ℓ → Option σ} {ok : Guard σ ℓ}
    [∀ past s l, Decidable (ok past s l)] {past₀ past past' : List ℓ} {s₀ s s' : σ} {ls : List ℓ}
    (h : (Machine.ofFn next).Run ok past₀ s₀ past s)
    (hplay : play next ok past s ls = some (past', s')) :
    (Machine.ofFn next).Run ok past₀ s₀ past' s' := by
  induction ls generalizing past s with
  | nil =>
      obtain ⟨rfl, rfl⟩ : past = past' ∧ s = s' := by simpa [play] using hplay
      exact h
  | cons l ls ih =>
      rw [play] at hplay
      split at hplay
      · next hok =>
        cases hn : next s l with
        | none => rw [hn] at hplay; exact absurd hplay (by simp)
        | some t =>
            rw [hn] at hplay
            exact ih (.step h hok hn) hplay
      · exact absurd hplay (by simp)

/-- A replay that ends in `P` is a run that ends in `P`. -/
theorem Machine.Run.exists_of_play {next : σ → ℓ → Option σ} {ok : Guard σ ℓ}
    [∀ past s l, Decidable (ok past s l)] {past₀ : List ℓ} {s₀ : σ} {ls : List ℓ}
    {P : List ℓ × σ → Prop} (h : ∃ r ∈ play next ok past₀ s₀ ls, P r) :
    ∃ past s, (Machine.ofFn next).Run ok past₀ s₀ past s ∧ P (past, s) := by
  obtain ⟨⟨past, s⟩, hr, hP⟩ := h
  exact ⟨past, s, .of_play .refl hr, hP⟩

end Runs
