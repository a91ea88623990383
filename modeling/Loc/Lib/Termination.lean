import Loc.Lib.Runs

/-!
# Loc.Lib.Termination

**Runs that must end.**

A measure that every step lowers bounds the length of every run (`Run.length_add_le`).

A *driver* runs a machine by picking the next label itself, if there is one to pick.
`turns` lets it pick a fixed number of times, `whileTurns` for as long as it picks
something. A driver that `Tires` on an invariant lowers a measure whenever it picks,
so both loops end in the state where it has nothing left to pick.
-/

namespace Runs

variable {σ ℓ : Type*}

/-! ### Measures -/

section Measure

variable {M : Machine σ ℓ} {ok : Guard σ ℓ} {past₀ past : List ℓ} {s₀ s : σ} {μ : σ → Nat}

/-- A measure that every step lowers pays for the steps of a run. -/
theorem Machine.Run.length_add_le (h : M.Run ok past₀ s₀ past s)
    (hstep : ∀ past s l s', M.Run ok past₀ s₀ past s → ok past s l → M.step s l s' → μ s' < μ s)
    (hsilent : ∀ s s', M.silent s s' → μ s' ≤ μ s) :
    past.length + μ s ≤ past₀.length + μ s₀ := by
  induction h with
  | refl => exact le_rfl
  | step hrun hok hs ih =>
      have hlt := hstep _ _ _ _ hrun hok hs
      rw [List.length_cons]
      omega
  | silent _ hs ih =>
      have hle := hsilent _ _ hs
      omega

end Measure

/-! ### Drivers -/

section Driver

variable (next : σ → ℓ → Option σ) (pick : σ → Option ℓ)

/-- One turn: take the label the driver picks, and say whether it picked one. -/
def turn (s : σ) : Option (Bool × σ) :=
  match pick s with
  | none => some (false, s)
  | some l => (next s l).map fun s' => (true, s')

/-- `n` turns. -/
def turns : Nat → σ → Option σ
  | 0, s => some s
  | n + 1, s => (turn next pick s).bind fun x => turns n x.2

/-- Turns until one picks nothing; no result when `fuel` turns do not get that far. -/
def whileTurns : Nat → σ → Option σ
  | 0, _ => none
  | fuel + 1, s => (turn next pick s).bind fun x => if x.1 then whileTurns fuel x.2 else some x.2

/-- On `I` every pick can be taken, keeps `I` and lowers `μ`. -/
def Tires (I : σ → Prop) (μ : σ → Nat) : Prop :=
  ∀ s l, I s → pick s = some l → ∃ s', next s l = some s' ∧ I s' ∧ μ s' < μ s

variable {next pick} {I : σ → Prop} {μ : σ → Nat} {s s' : σ}

theorem turn_of_none (h : pick s = none) : turn next pick s = some (false, s) := by
  rw [turn, h]

theorem turn_of_some {l : ℓ} (h : pick s = some l) (hs : next s l = some s') :
    turn next pick s = some (true, s') := by
  rw [turn, h]
  simp [hs]

/-- A driver that has nothing to pick idles. -/
theorem turns_idle (h : pick s = none) (n : Nat) : turns next pick n s = some s := by
  induction n with
  | zero => rfl
  | succ n ih => rw [turns, turn_of_none h, Option.bind_some, ih]

/-- **The fixed loop ends quietly**, once it has as many turns as the measure. -/
theorem Tires.turns_quiet (h : Tires next pick I μ) (hs : I s) {n : Nat} (hn : μ s ≤ n) :
    ∃ s', turns next pick n s = some s' ∧ I s' ∧ pick s' = none := by
  induction n generalizing s with
  | zero =>
      cases hp : pick s with
      | none => exact ⟨s, rfl, hs, hp⟩
      | some l =>
          obtain ⟨s', -, -, hlt⟩ := h s l hs hp
          omega
  | succ n ih =>
      cases hp : pick s with
      | none => exact ⟨s, turns_idle hp _, hs, hp⟩
      | some l =>
          obtain ⟨t, ht, hI, hlt⟩ := h s l hs hp
          rw [turns, turn_of_some hp ht, Option.bind_some]
          exact ih hI (show μ t ≤ n by omega)

/-- **The open loop ends**, and where the fixed loop ends. -/
theorem Tires.whileTurns_eq (h : Tires next pick I μ) (hs : I s) {n m : Nat} (hn : μ s < n)
    (hm : μ s ≤ m) : whileTurns next pick n s = turns next pick m s := by
  induction n generalizing s m with
  | zero => omega
  | succ n ih =>
      cases hp : pick s with
      | none =>
          rw [whileTurns, turn_of_none hp, turns_idle hp]
          rfl
      | some l =>
          obtain ⟨t, ht, hI, hlt⟩ := h s l hs hp
          cases m with
          | zero => omega
          | succ m =>
              rw [whileTurns, turns, turn_of_some hp ht]
              exact ih hI (by omega) (by omega)

/-- The turns of a driver are a run over the labels it picked. -/
theorem Machine.Run.of_turns {ok : Guard σ ℓ} {past₀ past : List ℓ} {s₀ : σ}
    (hok : ∀ past s l, pick s = some l → ok past s l) {n : Nat}
    (h : (Machine.ofFn next).Run ok past₀ s₀ past s) (hturns : turns next pick n s = some s') :
    ∃ ls, (∀ l ∈ ls, ∃ t, pick t = some l) ∧
      (Machine.ofFn next).Run ok past₀ s₀ (ls ++ past) s' := by
  induction n generalizing past s with
  | zero =>
      obtain rfl := Option.some.inj hturns
      exact ⟨[], by simp, h⟩
  | succ n ih =>
      cases hp : pick s with
      | none =>
          rw [turns_idle hp] at hturns
          obtain rfl := Option.some.inj hturns
          exact ⟨[], by simp, h⟩
      | some l =>
          obtain ⟨x, hx, hturns⟩ := Option.bind_eq_some_iff.mp hturns
          rw [turn, hp] at hx
          obtain ⟨t, ht, rfl⟩ := Option.map_eq_some_iff.mp hx
          obtain ⟨ls, hls, hrun⟩ := ih (.step h (hok _ _ _ hp) ht) hturns
          refine ⟨ls ++ [l], fun a ha => ?_, by simpa using hrun⟩
          rcases List.mem_append.mp ha with ha | ha
          · exact hls a ha
          · exact ⟨s, by rw [hp, List.mem_singleton.mp ha]⟩

end Driver

end Runs
