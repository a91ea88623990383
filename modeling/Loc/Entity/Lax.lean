import Loc.Entity.Provenance
import Loc.Entity.Waiters

/-!
# Loc.Entity.Lax

The protocol over **a network that promises nothing**. The communicator is not part of the
repository, and its concept asks for no guarantee of delivery. Here a message that was
sent may be delivered any number of times, in any order, or never.

What is delivered may then have been delivered before, so the network of a state is
compared with others by the packets they have at all (`Thinned`). An invariant that does
not mind packets coming and going in this sense, and is kept by the steps of the protocol,
holds over such a network as well (`invariant_of_lax_run`).
-/

namespace Loc.Entity

open Channel (Packet)

variable {N : Type} [DecidableEq N] {home noNode : N}

/-- The same state over a network that has no packet of its own. -/
structure Thinned (v w : View N) : Prop where
  site : w.site = v.site
  answers : w.answers = v.answers
  net : ∀ p ∈ w.net, p ∈ v.net

/-- The protocol over a network that may have lost, repeated and reordered packets by the
time of the next step. -/
def laxMachine (home noNode : N) : Runs.Machine (View N) (Act N) where
  step v a v' := ∃ w, Thinned v w ∧ Step home noNode w a v'
  silent v v' := ∃ r, v' = v.forget r

/-- The induction rule for runs over such a network. -/
theorem invariant_of_lax_run {ok : Runs.Guard (View N) (Act N)} {past₀ past : List (Act N)}
    {v₀ v : View N} {I : List (Act N) → View N → Prop}
    (h : (laxMachine home noNode).Run ok past₀ v₀ past v) (hinit : I past₀ v₀)
    (hthin : ∀ past v w, I past v → Thinned v w → I past w)
    (hstep : ∀ past v w a v', I past w → Thinned v w → ok past v a → Step home noNode w a v' →
      I (a :: past) v')
    (hforget : ∀ past v r, I past v → I past (v.forget r)) : I past v := by
  refine h.invariant hinit ?_ ?_
  · rintro past v a v' hv ha ⟨w, hw, hs⟩
    exact hstep past v w a v' (hthin past v w hv hw) hw ha hs
  · rintro past v v' hv ⟨r, rfl⟩
    exact hforget past v r hv

variable {past : List (Act N)} {v w : View N} {ok : Runs.Guard (View N) (Act N)}

omit [DecidableEq N] in
theorem Everywhere.thin {S : N → Site N → Prop} {P : Packet N (Msg N) → Prop}
    {A : Answer N → Prop} (h : Everywhere S P A v) (hw : Thinned v w) : Everywhere S P A w where
  site r := hw.site ▸ h.site r
  packet p hp := h.packet p (hw.net p hp)
  answer x hx := h.answer x (hw.answers ▸ hx)

omit [DecidableEq N] in
theorem HostEmigrates.thin {a : Act N} (h : HostEmigrates v a) (hw : Thinned v w) :
    HostEmigrates w a := by
  unfold HostEmigrates at h ⊢
  rw [hw.site]
  exact h

/-- **Callbacks**: none is lost, and none is invoked twice. -/
theorem accounted_of_lax_run (h : (laxMachine home noNode).Run ok [] View.init past v) (k : Query) :
    Accounted k past v := by
  refine invariant_of_lax_run (I := fun past v => Accounted k past v) h ?_ ?_ ?_ ?_
  · exact accounted_of_run (.refl : (machine home noNode).Run ok [] View.init [] View.init) k
  · intro past v w hv hw r a
    rw [hw.answers, hw.site]
    exact hv r a
  · intro past v w a v' hv _ _ hs
    exact hv.step hs
  · intro past v q hv r a
    rw [View.forget_answers, hv r a]
    cases k with
    | location => rw [Query.queue, Query.queue, View.forget_pending]
    | existence => rw [Query.queue, Query.queue, View.forget_pendingExists]

/-- **Provenance.** -/
theorem provenance_of_lax_run (h : (laxMachine home noNode).Run ok [] View.init past v) :
    Provenance noNode past v := by
  refine invariant_of_lax_run (I := fun past v => Provenance noNode past v) h ?_ ?_ ?_ ?_
  · exact provenance_of_run (.refl : (machine home noNode).Run ok [] View.init [] View.init)
  · exact fun _ _ _ hv hw => hv.thin hw
  · exact fun _ _ _ _ _ hv _ _ hs => hv.step hs
  · intro past v r hv
    exact Everywhere.forget hv r fun t ht => ⟨ht.hosts, ht.dir, by simp [Site.forget]⟩

/-- **Authority**, when only hosts emigrate the entity. -/
theorem authority_of_lax_run (h : (laxMachine home noNode).Run ok [] View.init past v)
    (hok : ∀ past v a, ok past v a → HostEmigrates v a) : Authority home v :=
  invariant_of_lax_run (I := fun _ v => Authority home v) h authority_init
    (fun _ _ _ hv hw => hv.thin hw)
    (fun past v _ a _ hv hw ha hs => hv.step ((hok past v a ha).thin hw) hs)
    fun _ _ r hv => hv.forget r

/-- **The home does not forget** what it was told. -/
theorem dir_isSome_of_informed_lax (h : (laxMachine home noNode).Run ok [] View.init past v)
    (hinf : informed home past = true) : (v.site home).dir.isSome = true := by
  refine (invariant_of_lax_run (I := fun past v => Routed home v ∧
    (informed home past = true → (v.site home).dir.isSome = true)) h ?_ ?_ ?_ ?_).2 hinf
  · exact ⟨routed_init, by simp [informed]⟩
  · rintro past v w ⟨hrouted, hv⟩ hw
    exact ⟨hrouted.thin hw, hw.site ▸ hv⟩
  · rintro past v w a v' ⟨hrouted, hw⟩ _ _ hs
    exact ⟨hrouted.step hs, informed_step hrouted hw hs⟩
  · rintro past v r ⟨hrouted, hv⟩
    refine ⟨hrouted.forget r, fun hinf => ?_⟩
    rw [View.forget_dir]
    exact hv hinf

end Loc.Entity
