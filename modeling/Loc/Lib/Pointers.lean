import Mathlib.Order.Basic

/-!
# Loc.Lib.Pointers

**Chasing pointers.** Where every place on the way points at another, and each pointer
leads closer to a goal, following them ends there.
-/

namespace Pointers

variable {α : Type*}

/-- The place `n` pointers on from `x`, if they lead so far. -/
def chase (next : α → Option α) : Nat → α → Option α
  | 0, x => some x
  | n + 1, x => (next x).bind (chase next n)

/-- **The chase ends**, after no more pointers than the distance. `I` is what holds on the
way. -/
theorem chase_reaches {next : α → Option α} {goal I : α → Prop} {distance : α → Nat}
    (h : ∀ x, I x → goal x ∨ ∃ y, next x = some y ∧ I y ∧ distance y < distance x) {x : α}
    (hx : I x) : ∃ n ≤ distance x, ∃ y, chase next n x = some y ∧ goal y := by
  induction hd : distance x using Nat.strongRecOn generalizing x with
  | ind d ih =>
      rcases h x hx with hgoal | ⟨y, hy, hI, hlt⟩
      · exact ⟨0, Nat.zero_le _, x, rfl, hgoal⟩
      · obtain ⟨n, hn, z, hchase, hgoal⟩ := ih (distance y) (hd ▸ hlt) hI rfl
        exact ⟨n + 1, by omega, z, by rw [chase, hy, Option.bind_some, hchase], hgoal⟩

end Pointers
