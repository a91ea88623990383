import Loc.Entity.Convergence
import Loc.Entity.Existence
import Loc.Entity.Provenance

/-!
# Loc.Entity.Unregister

**What remains of an unregistered entity.** Only the host forgets it. If the host
is the home, the home denies it from then on (`Denying`), and a rank answers
otherwise only from a record of its own. If the host is another rank, the home
never hears of it and confirms the entity for ever (`Confirming`).

`answer_after_unregister` puts both together: when exactly a query comes back
negative.
-/

namespace Loc.Entity

open Channel (Packet)

variable {N : Type} [DecidableEq N] {home noNode r : N} {a : ExistsAction}

/-! ### The home has heard of the entity -/

/-- While the entity is in the system, the home has a record of it or an update in
flight. -/
def Heard (home : N) (past : List (Act N)) (v : View N) : Prop :=
  whereabouts past ≠ .unborn → whereabouts past ≠ .gone →
    (v.site home).dir.isSome = true ∨ ∃ n, ⟨n, home, .updateHome n⟩ ∈ v.net

theorem heard_register {past : List (Act N)} {v : View N} {q : N} :
    Heard home past (v.post q (register home q (v.site q))) := by
  intro _ _
  by_cases hq : home = q
  · subst hq
    exact Or.inl (by simp [register, announce])
  · exact Or.inr ⟨q, by simp [register, hq]⟩

theorem Heard.step {past : List (Act N)} {v v' : View N} {a : Act N} (h : Heard home past v)
    (hv : Routed home v) (ha : Lawful past a) (hs : Step home noNode v a v') :
    Heard home (a :: past) v' := by
  cases hs with
  | call q c =>
      have hkept : c ≠ .unregisterEntity → whereabouts past ≠ .unborn →
          whereabouts past ≠ .gone →
          ((v.post q (onCall home noNode q c (v.site q))).site home).dir.isSome = true ∨
            ∃ n, ⟨n, home, .updateHome n⟩ ∈ (v.post q (onCall home noNode q c (v.site q))).net := by
        intro hc hborn hgone
        rcases h hborn hgone with hdir | ⟨n, hn⟩
        · refine Or.inl ?_
          by_cases hq : home = q
          · subst hq
            rw [View.post_site_self]
            exact dir_isSome_onCall hdir hc
          · rwa [View.post_site_of_ne _ _ hq]
        · exact Or.inr ⟨n, List.mem_append_left _ hn⟩
      cases c with
      | registerEntity => exact heard_register
      | entityImmigrated src => exact heard_register
      | entityEmigrated newNode =>
          intro _ _
          have hw : whereabouts past = .hosted q := ha.1
          exact hkept (by simp) (by simp [hw]) (by simp [hw])
      | unregisterEntity => exact fun _ hgone => absurd rfl hgone
      | getLocation b => exact fun hborn hgone => hkept (by simp) hborn hgone
      | entityExists b => exact fun hborn hgone => hkept (by simp) hborn hgone
  | deliver p hp =>
      intro hborn hgone
      have haddr := hv.packet p hp
      by_cases hup : ∃ n, p.body = .updateHome n
      · obtain ⟨n, hn⟩ := hup
        obtain ⟨src, dst, msg⟩ := p
        obtain rfl : msg = .updateHome n := hn
        obtain ⟨-, rfl, -⟩ := haddr
        exact Or.inl (by rw [View.post_site_self, onMsg_dir]; rfl)
      · rcases h hborn hgone with hdir | ⟨n, hn⟩
        · refine Or.inl ?_
          by_cases hq : home = p.dst
          · rw [hq, View.post_site_self, ← hq]
            exact dir_isSome_onMsg hdir
          · rwa [View.post_site_of_ne _ _ hq]
        · refine Or.inr ⟨n, List.mem_append_left _ ((List.mem_erase_of_ne ?_).mpr hn)⟩
          exact fun hpn => hup ⟨n, congrArg Packet.body hpn.symm⟩

/-- With nothing in flight, the home has a record of an entity that is hosted. -/
theorem home_has_record {ok : Runs.Guard (View N) (Act N)} {past : List (Act N)} {v : View N}
    (h : (machine home noNode).Run ok [] View.init past v)
    (hok : ∀ past v a, ok past v a → Lawful past a) (hnet : v.net = []) {q : N}
    (hw : whereabouts past = .hosted q) : (v.site home).dir.isSome = true := by
  have hinv : Routed home v ∧ Heard home past v := by
    refine invariant_of_run (I := fun past v => Routed home v ∧ Heard home past v) h ?_ ?_ ?_
    · exact ⟨routed_init, fun hborn => absurd rfl hborn⟩
    · intro past v a v' hv ha hs
      exact ⟨hv.1.step hs, hv.2.step hv.1 (hok past v a ha) hs⟩
    · intro past v q hv
      refine ⟨hv.1.forget q, fun hborn hgone => ?_⟩
      rw [View.forget_dir]
      exact hv.2 hborn hgone
  rcases hinv.2 (by simp [hw]) (by simp [hw]) with hdir | ⟨n, hn⟩
  · exact hdir
  · rw [hnet] at hn
    exact absurd hn (by simp)

/-! ### What is said about existence -/

/-- An existence callback is answered by its own call only from what the rank knows, or
in the negative on the home. -/
theorem existence_onCall {q q' n : N} {c : Call N} {t : Site N} {b : ExistsAction} {ex : Bool}
    (hx : .existence q' b ex n ∈ (onCall home noNode q c t).answers) :
    q' = q ∧ c = .entityExists b ∧
      if ex then t.resolved q = some n else home = q ∧ t.resolved q = none := by
  have hregister : .existence q' b ex n ∉ (register home q t).answers := by
    unfold register
    split <;> simp [announce]
  cases c with
  | registerEntity => exact absurd hx hregister
  | entityImmigrated src => exact absurd hx hregister
  | entityEmigrated newNode => exact absurd hx (by simp [onCall, emigrate])
  | unregisterEntity => exact absurd hx (by simp [onCall, unregister])
  | getLocation a =>
      rw [onCall] at hx
      cases hres : t.resolved q with
      | some m => rw [getLocation_of_some hres] at hx; exact absurd hx (by simp)
      | none => rw [getLocation_of_none hres] at hx; exact absurd hx (by simp)
  | entityExists a =>
      rw [onCall] at hx
      cases hres : t.resolved q with
      | some m =>
          rw [entityExists_of_some hres] at hx
          obtain ⟨rfl, rfl, rfl, rfl⟩ := Answer.existence.inj (List.mem_singleton.mp hx)
          exact ⟨rfl, rfl, rfl⟩
      | none =>
          by_cases hq : home = q
          · subst hq
            rw [entityExists_home_of_none hres] at hx
            obtain ⟨rfl, rfl, rfl, rfl⟩ := Answer.existence.inj (List.mem_singleton.mp hx)
            exact ⟨rfl, rfl, rfl, rfl⟩
          · rw [entityExists_of_none hq hres] at hx
            exact absurd hx (by simp)

/-- All others are answered by a response, as it says. -/
theorem existence_onMsg {q q' n : N} {m : Msg N} {t : Site N} {b : ExistsAction} {ex : Bool}
    (hx : .existence q' b ex n ∈ (onMsg noNode q m t).answers) : m = .existsResponse ex n := by
  cases m with
  | updateHome n' => exact absurd hx (by simp [onMsg, announce])
  | locationRequest q'' =>
      rw [onMsg] at hx
      cases hserved : t.served q with
      | some m => rw [locationRequest_of_some hserved] at hx; exact absurd hx (by simp)
      | none => rw [locationRequest_of_none hserved] at hx; exact absurd hx (by simp)
  | resolveResponse n' => exact absurd hx (by simp [onMsg, resolveResponse])
  | existsRequest q'' => rw [onMsg, existsRequest_eq] at hx; exact absurd hx (by simp)
  | existsResponse ex' n' =>
      obtain ⟨a, -, ha⟩ := List.mem_map.mp hx
      obtain ⟨-, -, rfl, rfl⟩ := Answer.existence.inj ha
      rfl

/-- A response answers a request, from what the rank serves. -/
theorem response_onMsg {q d n : N} {m : Msg N} {t : Site N} {ex : Bool}
    (hout : (d, .existsResponse ex n) ∈ (onMsg noNode q m t).outbox) :
    m = .existsRequest d ∧ ex = (t.served q).isSome := by
  cases m with
  | updateHome n' =>
      obtain ⟨q', -, hq'⟩ := List.mem_map.mp hout
      exact absurd (congrArg Prod.snd hq') (by simp)
  | locationRequest q' =>
      rw [onMsg] at hout
      cases hserved : t.served q with
      | some m => rw [locationRequest_of_some hserved] at hout; exact absurd hout (by simp)
      | none => rw [locationRequest_of_none hserved] at hout; exact absurd hout (by simp)
  | resolveResponse n' => exact absurd hout (by simp [onMsg, resolveResponse])
  | existsRequest q' =>
      rw [onMsg, existsRequest_eq] at hout
      obtain ⟨rfl, hmsg⟩ := Prod.mk.inj (List.mem_singleton.mp hout)
      exact ⟨rfl, (Msg.existsResponse.inj hmsg).1⟩
  | existsResponse ex' n' => exact absurd hout (by simp [onMsg, existsResponse])

/-! ### A home that denies -/

/-- The home has no trace of the entity, every existence response in flight is
negative, and the callback `a` passed to `r` has not been answered positively. -/
def Denying (home r : N) (a : ExistsAction) : View N → Prop :=
  Everywhere (fun q t => t.hosts = false ∧ (q = home → t.node = none))
    (fun p => match p.body with
      | .existsResponse ex _ => ex = false
      | .locationRequest _ => True
      | .existsRequest _ => True
      | _ => False)
    (fun x => ∀ n, x ≠ .existence r a true n)

/-- Queries and requests leave such a home in denial, unless `a` is passed to a rank
that has a record. -/
theorem Denying.step {v v' : View N} {e : Act N} (h : Denying home r a v) (hv : Routed home v)
    (hmoves : e.moves = none)
    (hblind : e = .call r (.entityExists a) → (v.site r).node = none)
    (hs : Step home noNode v e v') : Denying home r a v' := by
  refine Everywhere.step h hs (fun q c t he ht hsite => ?_) (fun p t hact hp ht _ => ?_)
  · subst he
    obtain ⟨hquery, hout⟩ := onCall_query home noNode (c := c) (r := q) hmoves t
    refine ⟨by rw [hquery]; exact ht, fun m hm => ?_, fun x hx n hxn => ?_⟩
    · rcases hout m hm with rfl | rfl <;> trivial
    · subst hxn
      obtain ⟨rfl, rfl, hres⟩ := existence_onCall hx
      have hnode := hblind rfl
      rw [hsite] at hnode
      rw [Site.resolved_eq_none.mpr ⟨ht.1, hnode⟩] at hres
      exact absurd hres (by simp)
  · have haddr : Addressed home p := hv.packet p (Step.mem_net (by rwa [hact] at hs))
    -- The home, and only the home, is asked, and it finds nothing.
    have hserved : p.dst = home → t.served p.dst = none :=
      fun hdst => Site.served_eq_none.mpr ⟨ht.2 hdst, ht.1⟩
    have hanswers : ∀ x ∈ (onMsg noNode p.dst p.body t).answers,
        ∀ n, x ≠ .existence r a true n := by
      intro x hx n hxn
      subst hxn
      rw [existence_onMsg hx] at hp
      exact absurd hp (by simp)
    obtain ⟨src, dst, msg⟩ := p
    cases msg with
    | updateHome n => exact hp.elim
    | resolveResponse n => exact hp.elim
    | locationRequest q' =>
        rw [onMsg, locationRequest_of_none (hserved haddr.2.1)]
        exact ⟨ht, by simp, by simp⟩
    | existsRequest q' =>
        rw [onMsg, existsRequest_eq, hserved haddr.2.1]
        refine ⟨ht, fun m hm => ?_, by simp⟩
        obtain rfl := List.mem_singleton.mp hm
        rfl
    | existsResponse ex n =>
        obtain rfl : ex = false := hp
        exact ⟨ht, by simp [onMsg, existsResponse], hanswers⟩

theorem Denying.forget {v : View N} (h : Denying home r a v) (q : N) :
    Denying home r a (v.forget q) := by
  refine Everywhere.forget h q fun t ht => ⟨ht.1, fun hr => ?_⟩
  have hnone := Site.node_eq_none.mp (ht.2 hr)
  exact Site.node_eq_none.mpr ⟨hnone.1, rfl⟩

/-! ### A home that confirms -/

/-- The home has a record of the entity, no existence response in flight is
negative, and the callback `a` passed to `r` has not been answered negatively. -/
def Confirming (home r : N) (a : ExistsAction) : View N → Prop :=
  Everywhere (fun q t => q = home → t.dir.isSome = true)
    (fun p => ∀ n, p.body ≠ .existsResponse false n)
    (fun x => ∀ n, x ≠ .existence r a false n)

theorem Confirming.step {v v' : View N} {e : Act N} (h : Confirming home r a v)
    (hv : Routed home v) (hmoves : e.moves = none) (hs : Step home noNode v e v') :
    Confirming home r a v' := by
  refine Everywhere.step h hs (fun q c t he ht _ => ?_) (fun p t hact hp ht _ => ?_)
  · subst he
    have hc : c ≠ .unregisterEntity := by
      intro heq
      subst heq
      simp [Act.moves, Call.moves] at hmoves
    obtain ⟨-, hout⟩ := onCall_query home noNode (c := c) (r := q) hmoves t
    refine ⟨fun hq => dir_isSome_onCall (ht hq) hc, fun m hm n => ?_, fun x hx n hxn => ?_⟩
    · rcases hout m hm with rfl | rfl <;> simp
    · -- Only the home could answer in the negative, and it has its record.
      subst hxn
      obtain ⟨-, -, hq, hres⟩ := existence_onCall hx
      have hdir := ht hq.symm
      rw [(Site.node_eq_none.mp (Site.resolved_eq_none.mp hres).2).1] at hdir
      exact absurd hdir (by simp)
  · have haddr : Addressed home p := hv.packet p (Step.mem_net (by rwa [hact] at hs))
    refine ⟨fun hq => dir_isSome_onMsg (ht hq), fun m hm n hmn => ?_, fun x hx n hxn => ?_⟩
    · obtain ⟨d, body⟩ := m
      obtain rfl : body = .existsResponse false n := hmn
      obtain ⟨hreq, hserved⟩ := response_onMsg hm
      -- Only the home is asked, and it finds its record.
      rw [Addressed, hreq] at haddr
      have hdir := ht haddr.2.1
      have hnone : t.served p.dst = none := by simpa using hserved
      rw [(Site.node_eq_none.mp (Site.served_eq_none.mp hnone).1).1] at hdir
      exact absurd hdir (by simp)
    · subst hxn
      exact hp n (existence_onMsg hx)

theorem Confirming.forget {v : View N} (h : Confirming home r a v) (q : N) :
    Confirming home r a (v.forget q) :=
  Everywhere.forget h q fun _ ht => ht

/-! ### After the host has unregistered the entity -/

omit [DecidableEq N] in
/-- Nothing but queries is lawful once the entity is gone. -/
theorem moves_of_gone {past : List (Act N)} {e : Act N} (hw : whereabouts past = .gone)
    (he : Lawful past e) : e.moves = none := by
  cases e with
  | deliver p => rfl
  | call q c =>
      cases c with
      | registerEntity => exact absurd (hw.symm.trans he) (by simp)
      | entityImmigrated src => exact absurd (hw.symm.trans he) (by simp)
      | entityEmigrated newNode => exact absurd (hw.symm.trans he.1) (by simp)
      | unregisterEntity => exact absurd (hw.symm.trans he) (by simp)
      | getLocation b => rfl
      | entityExists b => rfl

/-- What queries and deliveries preserve holds of every state from then on. -/
theorem after_gone {ok : Runs.Guard (View N) (Act N)} {past past' : List (Act N)}
    {v v' : View N} {P : View N → Prop} {C : View N → Act N → Prop}
    (h : (machine home noNode).Run ok past v past' v')
    (hok : ∀ past v e, ok past v e → Lawful past e ∧ C v e)
    (hw : whereabouts past = .gone) (hv : Routed home v) (hP : P v)
    (hstep : ∀ v e v', P v → Routed home v → e.moves = none → C v e →
      Step home noNode v e v' → P v')
    (hforget : ∀ v q, P v → P (v.forget q)) : P v' := by
  suffices hinv : whereabouts past' = .gone ∧ Routed home v' ∧ P v' from hinv.2.2
  refine invariant_of_run (I := fun past v => whereabouts past = .gone ∧ Routed home v ∧ P v) h
    ⟨hw, hv, hP⟩ ?_ ?_
  · intro past v e v' hinv he hs
    obtain ⟨hlawful, hC⟩ := hok past v e he
    have hmoves := moves_of_gone hinv.1 hlawful
    refine ⟨?_, hinv.2.1.step hs, hstep v e v' hinv.2.2 hinv.2.1 hmoves hC hs⟩
    rw [whereabouts, hmoves]
    exact hinv.1
  · intro past v q hinv
    exact ⟨hinv.1, hinv.2.1.forget q, hforget v q hinv.2.2⟩

/-- A callback that was never passed has no answer. -/
theorem unanswered {past : List (Act N)} {v : View N} (h : Accounted .existence past v)
    (hnever : past.count (.call r (.entityExists a)) = 0) (ex : Bool) (n : N) :
    .existence r a ex n ∉ v.answers := by
  intro hx
  have hcount : v.answers.countP (Query.existence.invokes r a) = 0 :=
    Nat.eq_zero_of_add_eq_zero_right ((h r a).symm.trans hnever)
  have hnot := List.countP_eq_zero.mp hcount _ hx
  exact hnot (by simp [Query.invokes])

/-- A callback that was passed once, and does not wait, has one answer. -/
theorem answered_once {past : List (Act N)} {v : View N} (h : Accounted .existence past v)
    (hidle : (v.site r).pendingExists = []) (honce : past.count (.call r (.entityExists a)) = 1) :
    v.answers.countP (Query.existence.invokes r a) = 1 := by
  have hcount := h r a
  rw [Query.queue, hidle, List.count_nil, Nat.add_zero] at hcount
  exact hcount.symm.trans honce

theorem exists_answer {v : View N}
    (honce : v.answers.countP (Query.existence.invokes r a) = 1) :
    ∃ ex n, .existence r a ex n ∈ v.answers := by
  obtain ⟨x, hx, hinvokes⟩ := List.countP_pos_iff.mp (show 0 < _ by rw [honce]; decide)
  cases x with
  | located r' b n => exact absurd hinvokes (by simp [Query.invokes])
  | existence r' b ex n =>
      obtain ⟨rfl, rfl⟩ : r' = r ∧ b = a := by simpa [Query.invokes] using hinvokes
      exact ⟨ex, n, hx⟩

theorem answer_unique {v : View N} (honce : v.answers.countP (Query.existence.invokes r a) = 1)
    {ex ex' : Bool} {n n' : N} (h : .existence r a ex n ∈ v.answers)
    (h' : .existence r a ex' n' ∈ v.answers) : ex = ex' := by
  rw [List.countP_eq_length_filter, List.length_eq_one_iff] at honce
  obtain ⟨x, hx⟩ := honce
  have hmem : ∀ ex n, .existence r a ex n ∈ v.answers → .existence r a ex n = x := by
    intro ex n hin
    have hfilter := List.mem_filter.mpr ⟨hin, show Query.existence.invokes r a _ = true by
      simp [Query.invokes]⟩
    rw [hx] at hfilter
    exact List.mem_singleton.mp hfilter
  have heq := (hmem ex n h).trans (hmem ex' n' h').symm
  exact (Answer.existence.inj heq).2.2.1

/-- No answer is ever taken back. -/
theorem mem_answers_of_run {ok : Runs.Guard (View N) (Act N)} {past past' : List (Act N)}
    {v v' : View N} (h : (machine home noNode).Run ok past v past' v') {x : Answer N}
    (hx : x ∈ v.answers) : x ∈ v'.answers := by
  refine invariant_of_run (I := fun _ v => x ∈ v.answers) h hx ?_ ?_
  · intro past v e v' hin _ hs
    exact hs.mem_answers hin
  · intro past v q hin
    exact hin

/-! ### The answer -/

section Answer

variable {past₀ past₂ past₄ : List (Act N)} {v₀ v₁ v₂ v₃ v₄ : View N} {h : N}

/-- The state a host leaves behind when it unregisters the entity with nothing in
flight. -/
theorem unregister_step (hs : Step home noNode v₀ (.call h .unregisterEntity) v₁) :
    v₁.net = v₀.net ∧ v₁.answers = v₀.answers ∧ v₁.site h = (unregister (v₀.site h)).site ∧
      ∀ q ≠ h, v₁.site q = v₀.site q := by
  cases hs with
  | call q c =>
      refine ⟨by simp [onCall, unregister], by simp [onCall, unregister], ?_, fun q hq => ?_⟩
      · rw [View.post_site_self]
        rfl
      · rw [View.post_site_of_ne _ _ hq]

/-- A home that was the host denies. -/
theorem denying_unregister (hhost : Hosting past₀ v₀) (hw : whereabouts past₀ = .hosted home)
    (hnet : v₀.net = []) (hnever : ∀ ex n, .existence r a ex n ∉ v₀.answers)
    (hs : Step home noNode v₀ (.call home .unregisterEntity) v₁) : Denying home r a v₁ := by
  obtain ⟨hnet₁, hanswers, hsite, hother⟩ := unregister_step hs
  refine ⟨fun q => ?_, by simp [hnet₁, hnet], fun x hx n hxn => ?_⟩
  · by_cases hq : q = home
    · subst hq
      rw [hsite]
      exact ⟨rfl, fun _ => rfl⟩
    · rw [hother q hq]
      refine ⟨Bool.eq_false_iff.mpr fun hhosts => ?_, fun hhome => absurd hhome hq⟩
      have hq' := (hhost q).mp hhosts
      rw [hw] at hq'
      exact hq (Whereabouts.hosted.inj hq').symm
  · rw [hanswers, hxn] at hx
    exact hnever true n hx

/-- A home that was not keeps its record and confirms. -/
theorem confirming_unregister (hdir : (v₀.site home).dir.isSome = true) (hne : h ≠ home)
    (hnet : v₀.net = []) (hnever : ∀ ex n, .existence r a ex n ∉ v₀.answers)
    (hs : Step home noNode v₀ (.call h .unregisterEntity) v₁) : Confirming home r a v₁ := by
  obtain ⟨hnet₁, hanswers, -, hother⟩ := unregister_step hs
  refine ⟨fun q hq => ?_, by simp [hnet₁, hnet], fun x hx n hxn => ?_⟩
  · subst hq
    rwa [hother q (Ne.symm hne)]
  · rw [hanswers, hxn] at hx
    exact hnever false n hx

/-- A rank that knows a place answers at once. -/
theorem positive_of_resolved {n : N} (hres : (v₂.site r).resolved r = some n)
    (hs : Step home noNode v₂ (.call r (.entityExists a)) v₃) :
    .existence r a true n ∈ v₃.answers := by
  cases hs with
  | call q c =>
      rw [View.post_answers, onCall, entityExists_of_some hres]
      exact List.mem_append_right _ (List.mem_singleton.mpr rfl)

/-- A callback that is passed only once is passed only in `v₂`. -/
theorem run_asking {ok : Runs.Guard (View N) (Act N)} {past₁ past₂ past₄ : List (Act N)}
    (hok : ∀ past v e, ok past v e → Lawful past e)
    (h₂ : (machine home noNode).Run ok past₁ v₁ past₂ v₂)
    (hask : Step home noNode v₂ (.call r (.entityExists a)) v₃)
    (h₄ : (machine home noNode).Run ok (.call r (.entityExists a) :: past₂) v₃ past₄ v₄)
    (honce : past₄.count (.call r (.entityExists a)) = 1) :
    past₁.count (.call r (.entityExists a)) = 0 ∧
      (machine home noNode).Run
        (fun past v e => Lawful past e ∧ (e = .call r (.entityExists a) → v = v₂))
        past₁ v₁ past₄ v₄ := by
  obtain ⟨l₄, hl₄⟩ := h₄.suffix
  obtain ⟨l₂, hl₂⟩ := h₂.suffix
  have hcount : l₄.count (.call r (.entityExists a)) = 0 ∧
      l₂.count (.call r (.entityExists a)) = 0 ∧
      past₁.count (.call r (.entityExists a)) = 0 := by
    rw [← hl₄, List.count_append, List.count_cons_self, ← hl₂, List.count_append] at honce
    omega
  have hother : ∀ {past past' : List (Act N)} {v v' : View N} {l : List (Act N)},
      (machine home noNode).Run ok past v past' v' → l ++ past = past' →
      l.count (.call r (.entityExists a)) = 0 →
      (machine home noNode).Run
        (fun past v e => Lawful past e ∧ (e = .call r (.entityExists a) → v = v₂))
        past v past' v' := by
    intro past past' v v' l hrun hl hzero
    refine (hrun.with_labels hl.symm (C := (· ≠ .call r (.entityExists a))) ?_).mono ?_
    · intro e he heq
      exact List.count_eq_zero.mp hzero (heq ▸ he)
    · intro past v e he
      exact ⟨hok past v e he.1, fun heq => absurd heq he.2⟩
  refine ⟨hcount.2.2, ?_⟩
  have hlawful : Lawful past₂ (.call r (.entityExists a)) := trivial
  exact ((hother h₂ hl₂ hcount.2.1).step ⟨hlawful, fun _ => rfl⟩ hask).trans
    (hother h₄ hl₄ hcount.1)

/-- **Unregistration, exactly.** The host `h` unregisters the entity with nothing in
flight; once all is quiet again, the callback `a` is passed to `r`, and all settles.
It is invoked once, and the answer is negative exactly when `h` is the home and `r`
has no record of its own. -/
theorem answer_after_unregister {ok : Runs.Guard (View N) (Act N)}
    (hok : ∀ past v e, ok past v e → Lawful past e)
    (h₀ : (machine home noNode).Run ok [] View.init past₀ v₀) (hnet₀ : v₀.net = [])
    (hw : whereabouts past₀ = .hosted h)
    (hunregister : Step home noNode v₀ (.call h .unregisterEntity) v₁)
    (h₂ : (machine home noNode).Run ok (.call h .unregisterEntity :: past₀) v₁ past₂ v₂)
    (hask : Step home noNode v₂ (.call r (.entityExists a)) v₃)
    (h₄ : (machine home noNode).Run ok (.call r (.entityExists a) :: past₂) v₃ past₄ v₄)
    (hnet₄ : v₄.net = []) (honce : past₄.count (.call r (.entityExists a)) = 1) :
    v₄.answers.countP (Query.existence.invokes r a) = 1 ∧
      (.existence r a false noNode ∈ v₄.answers ↔ h = home ∧ (v₂.site r).node = none) := by
  obtain ⟨hcount₁, hgone⟩ := run_asking hok h₂ hask h₄ honce
  rw [List.count_cons_of_ne (by simp)] at hcount₁
  have hnever := unanswered (accounted_of_run h₀ .existence) hcount₁
  have hrouted : Routed home v₁ := (routed_of_run h₀ routed_init).step hunregister
  have hlawful : Lawful past₀ (.call h .unregisterEntity) := hw
  have hwhole : (machine home noNode).Run (fun past _ e => Lawful past e) [] .init past₄ v₄ :=
    ((h₀.mono hok).step hlawful hunregister).trans (hgone.mono fun _ _ _ he => he.1)
  have hone := answered_once (accounted_of_run hwhole .existence)
    ((exchanging_of_run hwhole).settled hnet₄ r) honce
  refine ⟨hone, fun hnegative => ?_, fun hcond => ?_⟩
  · have hhome : h = home := by
      by_contra hne
      have hconfirming := after_gone (C := fun _ _ => True) hgone
        (fun past v e he => ⟨he.1, trivial⟩) rfl hrouted
        (confirming_unregister (home_has_record h₀ hok hnet₀ hw) hne hnet₀ hnever hunregister)
        (fun v e v' hv hrouted hmoves _ hs => hv.step hrouted hmoves hs)
        fun v q hv => hv.forget q
      exact hconfirming.answer _ hnegative noNode rfl
    refine ⟨hhome, ?_⟩
    -- A record at `r` would have given a positive answer as well.
    cases hres : (v₂.site r).resolved r with
    | none => exact (Site.resolved_eq_none.mp hres).2
    | some n =>
        have hpositive := mem_answers_of_run h₄ (positive_of_resolved hres hask)
        exact absurd (answer_unique hone hnegative hpositive) (by decide)
  · obtain ⟨rfl, hnode⟩ := hcond
    have hdenying := after_gone (C := fun v e => e = .call r (.entityExists a) → v = v₂) hgone
      (fun past v e he => he) rfl hrouted
      (denying_unregister (hosting_of_run h₀ hok) hw hnet₀ hnever hunregister)
      (fun v e v' hv hrouted hmoves honly hs =>
        hv.step hrouted hmoves (fun he => by rw [honly he]; exact hnode) hs)
      fun v q hv => hv.forget q
    obtain ⟨ex, n, hx⟩ := exists_answer hone
    cases ex with
    | true => exact absurd rfl (hdenying.answer _ hx n)
    | false =>
        have hn : n = noNode := (provenance_of_run hwhole).answer _ hx
        rwa [hn] at hx

end Answer

end Loc.Entity
