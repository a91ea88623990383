import Loc.Entity.Unregister
import Loc.Guarantee.Waiters

/-!
# Loc.Guarantee.Unregister

What becomes of an entity that is **unregistered**. `unregisterEntity` clears the
rank it runs on and tells nobody, unlike `registerEntity`, so the entity is gone
from the system only if that rank is its home, and even then not for the ranks
that hold a record of it.
-/

namespace Loc

open Entity (Query)

variable {EntityID : Type} [DecidableEq EntityID] {cfg : Config EntityID}
  {ok : Runs.Guard (System EntityID) (Label EntityID)}
  {id : EntityID} {h r : NodeType} {a : ExistsAction} {s₂ s : System EntityID}

/-- The host `h` of `id` unregisters it with nothing in flight. Later, in `s₂`, the
callback `a` is passed to `entityExists` on `r`, for the first and only time, and
everything settles in `s`. -/
inductive Unregistration (cfg : Config EntityID)
    (ok : Runs.Guard (System EntityID) (Label EntityID)) (id : EntityID) (h r : NodeType)
    (a : ExistsAction) (s₂ s : System EntityID) : Prop
  | intro {past₀ past₂ past : List (Label EntityID)} {s₀ s₁ s₃ : System EntityID}
      (before : cfg.Run ok past₀ s₀) (drained : s₀.Drained)
      (hosted : Entity.whereabouts (about id past₀) = .hosted h)
      (unregistered : cfg.step s₀ (.call h (.unregisterEntity id)) = some s₁)
      (between : cfg.machine.Run ok (.call h (.unregisterEntity id) :: past₀) s₁ past₂ s₂)
      (asked : cfg.step s₂ (.call r (.entityExists id a)) = some s₃)
      (after : cfg.machine.Run ok (.call r (.entityExists id a) :: past₂) s₃ past s)
      (settled : s.Drained) (once : past.count (.call r (.entityExists id a)) = 1) :
      Unregistration cfg ok id h r a s₂ s

/-- Replay such a scenario: the events before the unregistration, between it and the
question, and after that. -/
def Unregistration.play (cfg : Config EntityID)
    (ok : Runs.Guard (System EntityID) (Label EntityID)) [∀ past s l, Decidable (ok past s l)]
    (id : EntityID) (h r : NodeType) (a : ExistsAction) (ls₀ ls₂ ls : List (Label EntityID)) :
    Option (System EntityID × System EntityID) :=
  (cfg.play ok ls₀).bind fun (past₀, s₀) =>
  (cfg.step s₀ (.call h (.unregisterEntity id))).bind fun s₁ =>
  (Runs.play cfg.step ok (.call h (.unregisterEntity id) :: past₀) s₁ ls₂).bind
    fun (past₂, s₂) =>
  (cfg.step s₂ (.call r (.entityExists id a))).bind fun s₃ =>
  (Runs.play cfg.step ok (.call r (.entityExists id a) :: past₂) s₃ ls).bind fun (past, s) =>
  if s₀.Drained ∧ Entity.whereabouts (about id past₀) = .hosted h ∧ s.Drained ∧
      past.count (.call r (.entityExists id a)) = 1 then some (s₂, s)
  else none

theorem Unregistration.exists_of_play [∀ past s l, Decidable (ok past s l)]
    {ls₀ ls₂ ls : List (Label EntityID)} {P : System EntityID × System EntityID → Prop}
    (hplay : ∃ x ∈ Unregistration.play cfg ok id h r a ls₀ ls₂ ls, P x) :
    ∃ s₂ s, Unregistration cfg ok id h r a s₂ s ∧ P (s₂, s) := by
  obtain ⟨x, hx, hP⟩ := hplay
  obtain ⟨⟨past₀, s₀⟩, h₀, hx⟩ := Option.bind_eq_some_iff.mp hx
  obtain ⟨s₁, hunregister, hx⟩ := Option.bind_eq_some_iff.mp hx
  obtain ⟨⟨past₂, s₂⟩, h₂, hx⟩ := Option.bind_eq_some_iff.mp hx
  obtain ⟨s₃, hask, hx⟩ := Option.bind_eq_some_iff.mp hx
  obtain ⟨⟨past, s⟩, h', hx⟩ := Option.bind_eq_some_iff.mp hx
  obtain ⟨⟨hdrained, hw, hsettled, honce⟩, hx⟩ := Option.ite_none_right_eq_some.mp hx
  obtain rfl := Option.some.inj hx
  exact ⟨s₂, s, .intro (.of_play .refl h₀) hdrained hw hunregister (.of_play .refl h₂) hask
    (.of_play .refl h') hsettled honce, hP⟩

/-- **Unregistration, exactly.** In whatever order messages arrive, the callback is
invoked once. It is told that `id` does not exist exactly if the host was the home and
`r` had no record of `id` when it was asked. -/
theorem unregistered_denied_exactly
    (hgone : Unregistration cfg (Each fun _ past _ a => Entity.Lawful past a) id h r a s₂ s) :
    s.answers.countP (Query.existence.invokedFor id r a) = 1 ∧
      (⟨id, .existence r a false noNode⟩ ∈ s.answers ↔
        h = cfg.home id ∧ (s₂.coord r).recordedNode id = none) := by
  obtain @⟨past₀, past₂, past, s₀, s₁, s₃, h₀, hnet₀, hw, hunregister, h₂, hask, h₄, hnet₄,
    honce⟩ := hgone
  have hs₀ := cfg.placed_of_run h₀ Config.init_placed
  obtain ⟨hs₁, hunregister'⟩ := Config.step_call_view (c := .unregisterEntity) hs₀ hunregister
  have hs₂ := cfg.placed_of_run h₂ hs₁
  obtain ⟨hs₃, hask'⟩ := Config.step_call_view (c := .entityExists a) hs₂ hask
  have h₀' := Config.run_each h₀ (fun _ _ _ hl => hl) id
  have h₂' := Config.run_each_from h₂ hs₁ id
  have h₄' := Config.run_each_from h₄ hs₃ id
  have hpast₁ : about id (.call h (.unregisterEntity id) :: past₀) =
      .call h .unregisterEntity :: about id past₀ :=
    about_cons_call id past₀ h .unregisterEntity
  have hpast₃ : about id (.call r (.entityExists id a) :: past₂) =
      .call r (.entityExists a) :: about id past₂ :=
    about_cons_call id past₂ r (.entityExists a)
  rw [hpast₁] at h₂'
  rw [hpast₃] at h₄'
  have honce' := (count_about id r (.entityExists a)).trans honce
  obtain ⟨hone, hiff⟩ := Entity.answer_after_unregister (fun _ _ _ he => he) h₀'
    (System.view_net_of_drained hnet₀) hw hunregister' h₂' hask' h₄'
    (System.view_net_of_drained hnet₄) honce'
  refine ⟨?_, ?_⟩
  · rw [← countP_answersAbout]
    exact hone
  · rw [← mem_answersAbout, ← Coordinator.site_node]
    exact hiff

/-- The home hosts the entity and unregisters it while rank 3, which had asked before,
has dropped its record. -/
theorem unregistered_denied_small : ∃ s₂ s,
    Unregistration Config.small (Each fun _ past _ a => Entity.Lawful past a) 42 0 3 6 s₂ s ∧
      ⟨42, .existence 3 6 false noNode⟩ ∈ s.answers := by
  obtain ⟨s₂, s, hgone, hrec⟩ := Unregistration.exists_of_play
    (show ∃ x ∈ Unregistration.play Config.small (Each fun _ past _ a => Entity.Lawful past a)
        42 0 3 6
        [.call 1 (.registerEntity 42), .deliver ⟨1, 0, ⟨42, .updateHome 1⟩⟩,
          .call 1 (.entityEmigrated 42 0), .call 0 (.entityImmigrated 42 1),
          .call 3 (.entityExists 42 5), .deliver ⟨3, 0, ⟨42, .existsRequest 3⟩⟩,
          .deliver ⟨0, 3, ⟨42, .existsResponse true 0⟩⟩]
        [.call 3 .clearCache]
        [.deliver ⟨3, 0, ⟨42, .existsRequest 3⟩⟩,
          .deliver ⟨0, 3, ⟨42, .existsResponse false noNode⟩⟩],
        (x.1.coord 3).recordedNode 42 = none by decide +kernel)
  exact ⟨s₂, s, hgone, (unregistered_denied_exactly hgone).2.mpr ⟨rfl, hrec⟩⟩

/-- Rank 1 unregisters the entity. Its home, rank 0, tells rank 3, which has never
asked before, that the entity is still on rank 1. -/
theorem unregistered_confirmed_small : ∃ s₂ s,
    Unregistration Config.small (fun past s l => Fifo s l ∧
      Each (fun _ past _ a => Entity.Lawful past a) past s l) 42 1 3 5 s₂ s ∧
      s₂.Drained ∧ ⟨42, .existence 3 5 true 1⟩ ∈ s.answers ∧
      ⟨42, .existence 3 5 false noNode⟩ ∉ s.answers :=
  Unregistration.exists_of_play
    (show ∃ x ∈ Unregistration.play Config.small (fun past s l => Fifo s l ∧
          Each (fun _ past _ a => Entity.Lawful past a) past s l) 42 1 3 5
        [.call 1 (.registerEntity 42), .deliver ⟨1, 0, ⟨42, .updateHome 1⟩⟩] []
        [.deliver ⟨3, 0, ⟨42, .existsRequest 3⟩⟩,
          .deliver ⟨0, 3, ⟨42, .existsResponse true 1⟩⟩],
        x.1.Drained ∧ ⟨42, .existence 3 5 true 1⟩ ∈ x.2.answers ∧
          ⟨42, .existence 3 5 false noNode⟩ ∉ x.2.answers by decide +kernel)

end Loc
