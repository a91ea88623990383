import Loc.Entity.Provenance
import Loc.Refinement

/-!
# Loc.Guarantee.Provenance

What the resolver promises about the **integrity of its answers**: it answers only
ranks the embedder has named, and a negative answer names none.
-/

namespace Loc

variable {EntityID : Type} [DecidableEq EntityID] {cfg : Config EntityID}
  {past : List (Label EntityID)} {s : System EntityID}

/-- Rank `n` registered `id` or took it in, or some rank sent it off to `n`. -/
def Label.Names (id : EntityID) (n : NodeType) (l : Label EntityID) : Prop :=
  l = .call n (.registerEntity id) ∨ (∃ src, l = .call n (.entityImmigrated id src)) ∨
    ∃ r, l = .call r (.entityEmigrated id n)

theorem names_of_named {id : EntityID} {n : NodeType} (h : Entity.Named (about id past) n) :
    ∃ l ∈ past, l.Names id n := by
  obtain ⟨a, ha, hn⟩ := h
  cases a with
  | deliver p => exact hn.elim
  | call r c =>
      refine ⟨_, mem_about_call.mp ha, ?_⟩
      cases c with
      | registerEntity =>
          obtain rfl : r = n := hn
          exact Or.inl rfl
      | entityImmigrated src =>
          obtain rfl : r = n := hn
          exact Or.inr (Or.inl ⟨src, rfl⟩)
      | entityEmigrated newNode =>
          obtain rfl : newNode = n := hn
          exact Or.inr (Or.inr ⟨r, rfl⟩)
      | unregisterEntity => exact hn.elim
      | getLocation b => exact hn.elim
      | entityExists b => exact hn.elim

/-- **Answer integrity.** In every run, whatever the embedder does and in whatever
order messages arrive, a positive answer gives a rank the history has named, and a
negative one no rank. For an entity registered on one rank only that never
migrated, every positive answer is that rank. -/
theorem answers_are_named {ok : Runs.Guard (System EntityID) (Label EntityID)}
    (h : cfg.Run ok past s) :
    (∀ id r a n, ⟨id, .located r a n⟩ ∈ s.answers → ∃ l ∈ past, l.Names id n) ∧
    (∀ id r a n, ⟨id, .existence r a true n⟩ ∈ s.answers → ∃ l ∈ past, l.Names id n) ∧
    (∀ id r a n, ⟨id, .existence r a false n⟩ ∈ s.answers → n = noNode) ∧
    ∀ id r₀, (∀ r, .call r (.registerEntity id) ∈ past → r = r₀) →
      (∀ r src, .call r (.entityImmigrated id src) ∉ past) →
      (∀ r newNode, .call r (.entityEmigrated id newNode) ∉ past) →
      ∀ r a n, (⟨id, .located r a n⟩ ∈ s.answers ∨ ⟨id, .existence r a true n⟩ ∈ s.answers) →
        n = r₀ := by
  have hprov := fun id => Entity.provenance_of_run (Config.run_any h id)
  have hlocated : ∀ id r a n, ⟨id, .located r a n⟩ ∈ s.answers → ∃ l ∈ past, l.Names id n :=
    fun id r a n hx => names_of_named ((hprov id).answer _ (mem_answersAbout.mpr hx))
  have hexists : ∀ id r a n, ⟨id, .existence r a true n⟩ ∈ s.answers →
      ∃ l ∈ past, l.Names id n :=
    fun id r a n hx => names_of_named ((hprov id).answer _ (mem_answersAbout.mpr hx))
  refine ⟨hlocated, hexists, fun id r a n hx => (hprov id).answer _ (mem_answersAbout.mpr hx), ?_⟩
  intro id r₀ hreg himm hemi r a n hx
  have hnamed : ∃ l ∈ past, l.Names id n := hx.elim (hlocated id r a n) (hexists id r a n)
  obtain ⟨l, hl, rfl | ⟨src, rfl⟩ | ⟨r', rfl⟩⟩ := hnamed
  · exact hreg n hl
  · exact absurd hl (himm n src)
  · exact absurd hl (hemi r' n)

/-- Two entities share one cache entry on rank 2. -/
theorem answers_are_named_small : ∃ past s, Config.small.Run (fun _ _ _ => True) past s ∧
    ⟨42, .located 2 6 1⟩ ∈ s.answers ∧ ∃ l ∈ past, l.Names 42 1 := by
  obtain ⟨past, s, hrun, hx⟩ := Config.exists_run
    (show ∃ r ∈ Config.small.play (fun _ _ _ => True)
        [.call 1 (.registerEntity 42), .call 3 (.registerEntity 7),
          .deliver ⟨3, 0, ⟨7, .updateHome 3⟩⟩, .deliver ⟨1, 0, ⟨42, .updateHome 1⟩⟩,
          .call 2 (.entityExists 7 5), .deliver ⟨2, 0, ⟨7, .existsRequest 2⟩⟩,
          .deliver ⟨0, 2, ⟨7, .existsResponse true 3⟩⟩,
          .call 2 (.getLocation 42 6), .deliver ⟨2, 0, ⟨42, .locationRequest 2⟩⟩,
          .deliver ⟨0, 2, ⟨42, .resolveResponse 1⟩⟩],
        ⟨42, .located 2 6 1⟩ ∈ r.2.answers by decide +kernel)
  exact ⟨past, s, hrun, hx, (answers_are_named hrun).1 42 2 6 1 hx⟩

end Loc
