import Mathlib.Logic.Basic

/-!
# Loc.Lib.Stateful

**Invariants of stateful code that may abort.**

A program is a `StateT σ Option α`: it takes a state, and either aborts or returns a
value and a state. `Maintains I p` says that `p` ends, if it ends, in a state that
satisfies `I` whenever it starts in one. There is one rule for each way of building
a program.
-/

namespace Stateful

variable {σ α β : Type} {I : σ → Prop}

/-- Started in a state that satisfies `I`, the program does not end in any other. -/
def Maintains (I : σ → Prop) (p : StateT σ Option α) : Prop :=
  ∀ s a s', I s → p s = some (a, s') → I s'

namespace Maintains

theorem pure (a : α) : Maintains I (Pure.pure a : StateT σ Option α) := by
  intro s b s' hs h
  obtain ⟨-, rfl⟩ := Prod.mk.inj (Option.some.inj h)
  exact hs

theorem get : Maintains I (MonadState.get : StateT σ Option σ) := by
  intro s b s' hs h
  obtain ⟨-, rfl⟩ := Prod.mk.inj (Option.some.inj h)
  exact hs

theorem modify {f : σ → σ} (hf : ∀ s, I s → I (f s)) :
    Maintains I (modify f : StateT σ Option PUnit) := by
  intro s b s' hs h
  obtain ⟨-, rfl⟩ := Prod.mk.inj (Option.some.inj h)
  exact hf s hs

theorem bind {p : StateT σ Option α} {q : α → StateT σ Option β} (hp : Maintains I p)
    (hq : ∀ a, Maintains I (q a)) : Maintains I (p >>= q) := by
  intro s b s' hs h
  obtain ⟨⟨a, t⟩, hpt, hqt⟩ := Option.bind_eq_some_iff.mp h
  exact hq a t b s' (hp s a t hs hpt) hqt

theorem ite {c : Prop} [Decidable c] {p q : StateT σ Option α} (hp : Maintains I p)
    (hq : Maintains I q) : Maintains I (if c then p else q) := by
  split
  · exact hp
  · exact hq

theorem forM {l : List β} {f : β → StateT σ Option PUnit} (hf : ∀ b, Maintains I (f b)) :
    Maintains I (l.forM f) := by
  induction l with
  | nil => exact .pure _
  | cons b l ih => exact .bind (hf b) fun _ => ih

end Maintains

end Stateful
