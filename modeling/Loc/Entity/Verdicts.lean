import Loc.Entity.Order
import Loc.Entity.Reads
import Loc.Entity.Unregister

/-!
# Loc.Entity.Verdicts

**What was found is not denied.** A rank answers its callbacks that the entity exists, or
that it does not. As long as the entity is not unregistered, the home goes from denying
it to confirming it and never back, and so does every rank that hears of it from the home
alone, in the order in which the home spoke.

The invariant (`Settling`) is about the verdicts the rank has given, the one in its cache
and those on their way to it, in this order: denials come before confirmations, and there
are only denials until the home has a record.
-/

namespace Loc.Entity

open Channel (Packet posted)

variable {N : Type} [DecidableEq N] {home noNode r : N}

/-! ### Denials first -/

/-- Nothing is denied after it was confirmed. -/
def DenialsFirst (l : List Bool) : Prop := l.Pairwise fun b c => b = true → c = true

namespace DenialsFirst

variable {l l' : List Bool}

theorem of_denials (h : ∀ b ∈ l, b = false) : DenialsFirst l :=
  List.pairwise_of_forall_mem_list fun b hb _ _ hb' => absurd hb' (by simp [h b hb])

theorem denials_append (h : ∀ b ∈ l, b = false) (h' : DenialsFirst l') :
    DenialsFirst (l ++ l') := by
  rw [DenialsFirst, List.pairwise_append]
  exact ⟨of_denials h, h', fun b hb _ _ hb' => absurd hb' (by simp [h b hb])⟩

theorem append_confirmed (h : DenialsFirst l) (h' : ∀ b ∈ l', b = true) :
    DenialsFirst (l ++ l') := by
  rw [DenialsFirst, List.pairwise_append]
  refine ⟨h, ?_, fun _ _ c hc _ => h' c hc⟩
  exact List.pairwise_of_forall_mem_list fun _ _ c hc _ => h' c hc

/-- Confirming what is confirmed next. -/
theorem repeated (h : DenialsFirst (l ++ true :: l')) (k : Nat) :
    DenialsFirst (l ++ (List.replicate k true ++ true :: l')) := by
  obtain ⟨hl, hl', -⟩ := List.pairwise_append.mp h
  have hafter : ∀ b ∈ l', b = true := fun b hb => (List.pairwise_cons.mp hl').1 b hb rfl
  refine append_confirmed hl fun b hb => ?_
  rcases List.mem_append.mp hb with hb | hb
  · exact List.eq_of_mem_replicate hb
  · exact (List.mem_cons.mp hb).elim id (hafter b)

/-- Before a denial there are only denials. -/
theorem before_denial (h : DenialsFirst (l ++ false :: l')) : ∀ b ∈ l, b = false := by
  intro b hb
  obtain ⟨-, -, hcross⟩ := List.pairwise_append.mp h
  cases b with
  | false => rfl
  | true => exact (hcross true hb false List.mem_cons_self rfl).symm

/-- Denials, and then confirmations. -/
theorem split (h : DenialsFirst l) :
    ∃ m n, l = List.replicate m false ++ List.replicate n true := by
  induction l with
  | nil => exact ⟨0, 0, rfl⟩
  | cons b l ih =>
      obtain ⟨hb, hl⟩ := List.pairwise_cons.mp h
      cases b with
      | false =>
          obtain ⟨m, n, rfl⟩ := ih hl
          exact ⟨m + 1, n, rfl⟩
      | true =>
          have hall : l = List.replicate l.length true :=
            List.eq_replicate_iff.mpr ⟨rfl, fun c hc => hb c hc rfl⟩
          exact ⟨0, l.length + 1, by rw [hall]; simp [List.replicate_succ]⟩

end DenialsFirst

/-! ### Verdicts -/

/-- Whether the answer, if it is one on `r`, says that the entity exists. -/
def verdict (r : N) : Answer N → Option Bool
  | .located r' _ _ => if r' = r then some true else none
  | .existence r' _ ex _ => if r' = r then some ex else none

/-- Whether the packet, if it brings `r` an answer of the home, says so. -/
def ruling (home r : N) (p : Packet N (Msg N)) : Option Bool :=
  if p.src = home ∧ p.dst = r then
    match p.body with
    | .resolveResponse _ => some true
    | .existsResponse ex _ => some ex
    | _ => none
  else none

/-- The verdicts `r` has given, the one it has cached, and those on their way to it. -/
def verdicts (home r : N) (v : View N) : List Bool :=
  v.answers.filterMap (verdict r) ++
    ((v.site r).cached.toList.map (fun _ => true) ++ v.net.filterMap (ruling home r))

/-- Denials come first, and there are only denials until the home has a record. -/
structure Settling (home r : N) (v : View N) : Prop where
  sorted : DenialsFirst (verdicts home r v)
  unknown : (v.site home).dir = none → ∀ b ∈ verdicts home r v, b = false

theorem verdict_of_ne {q : N} {l : List (Answer N)} (hq : q ≠ r) (hl : ∀ x ∈ l, x.rank = q) :
    l.filterMap (verdict r) = [] := by
  rw [List.filterMap_eq_nil_iff]
  intro x hx
  have hne : x.rank ≠ r := (hl x hx).symm ▸ hq
  cases x with
  | located r' a n => exact if_neg hne
  | existence r' a ex n => exact if_neg hne

theorem posted_ruling_of_ne {q : N} (hq : q ≠ home) (outbox : List (N × Msg N)) :
    (posted q outbox).filterMap (ruling home r) = [] := by
  rw [List.filterMap_eq_nil_iff]
  intro p hp
  exact if_neg fun hends => hq ((Channel.mem_posted.mp hp).1.symm.trans hends.1)

/-! ### The home rules by its record -/

/-- A confirmation is tidings, and a denial an existence response. -/
theorem ruling_eq_some {p : Packet N (Msg N)} {b : Bool} (h : ruling home r p = some b) :
    (∃ n, b = true ∧ tidings home r p = some n) ∨
      ∃ n, b = false ∧ p.body = .existsResponse b n := by
  obtain ⟨hends, hb⟩ := Option.ite_none_right_eq_some.mp h
  rw [tidings, if_pos hends]
  cases hm : p.body with
  | resolveResponse n =>
      rw [hm] at hb
      exact Or.inl ⟨n, (Option.some.inj hb).symm, rfl⟩
  | existsResponse ex n =>
      rw [hm] at hb
      obtain rfl := Option.some.inj hb
      cases ex with
      | true => exact Or.inl ⟨n, rfl, rfl⟩
      | false => exact Or.inr ⟨n, rfl, rfl⟩
  | _ => rw [hm] at hb; exact absurd hb (by simp)

/-- Public operations send no existence responses. -/
theorem response_onCall {q d n : N} {c : Call N} {t : Site N} {ex : Bool} :
    (d, .existsResponse ex n) ∉ (onCall home noNode q c t).outbox := by
  have hregister : (d, .existsResponse ex n) ∉ (register home q t).outbox := by
    unfold register
    split <;> simp [announce]
  have hquery : c.moves q = none → (d, .existsResponse ex n) ∉ (onCall home noNode q c t).outbox :=
    fun hc hin => ((onCall_query home noNode hc t).2 _ hin).elim
      (fun hm => absurd (congrArg Prod.snd hm) (by simp))
      fun hm => absurd (congrArg Prod.snd hm) (by simp)
  cases c with
  | registerEntity => exact hregister
  | entityImmigrated src => exact hregister
  | entityEmigrated newNode => simp [onCall, emigrate]
  | unregisterEntity => simp [onCall, unregister]
  | getLocation a => exact hquery rfl
  | entityExists a => exact hquery rfl

theorem ruling_onCall {b : Bool} {p : Packet N (Msg N)} {c : Call N} {t : Site N}
    (hp : p ∈ posted home (onCall home noNode home c t).outbox)
    (hb : ruling home r p = some b) : b = (onCall home noNode home c t).site.dir.isSome := by
  rcases ruling_eq_some hb with ⟨n, rfl, htid⟩ | ⟨n, -, hbody⟩
  · rw [tidings_onCall hp htid]
    rfl
  · have hin := (Channel.mem_posted.mp hp).2
    rw [hbody] at hin
    exact absurd hin response_onCall

theorem ruling_onMsg {b : Bool} {p q : Packet N (Msg N)} {t : Site N}
    (hserved : t.served home = t.dir) (hp : p ∈ posted home (onMsg noNode home q.body t).outbox)
    (hb : ruling home r p = some b) : b = (onMsg noNode home q.body t).site.dir.isSome := by
  rcases ruling_eq_some hb with ⟨n, rfl, htid⟩ | ⟨n, -, hbody⟩
  · rw [tidings_onMsg hserved hp htid]
    rfl
  · have hin := (Channel.mem_posted.mp hp).2
    rw [hbody] at hin
    obtain ⟨hq, hex⟩ := response_onMsg hin
    rw [hex, hserved, hq, onMsg, existsRequest_eq]

/-- The home does not forget an entity that nobody unregisters. -/
theorem dir_eq_none_of_step {v v' : View N} {a : Act N} (ha : a.unregisters = false)
    (hs : Step home noNode v a v') (h : (v'.site r).dir = none) : (v.site r).dir = none := by
  cases hs with
  | call q c =>
      by_cases hq : r = q
      · subst hq
        rw [View.post_site_self, onCall_dir] at h
        have hmoves : (if home = r then some r else (v.site r).dir) = none →
            (v.site r).dir = none := by
          intro h
          split at h
          · exact absurd h (by simp)
          · exact h
        cases c with
        | registerEntity => exact hmoves h
        | entityImmigrated src => exact hmoves h
        | entityEmigrated newNode => exact Option.map_eq_none_iff.mp h
        | unregisterEntity => exact absurd ha (by simp [Act.unregisters])
        | getLocation b => exact h
        | entityExists b => exact h
      · rwa [View.post_site_of_ne _ _ hq] at h
  | deliver p hp =>
      by_cases hq : r = p.dst
      · rw [hq, View.post_site_self, onMsg_dir] at h
        rw [hq]
        cases hb : p.body with
        | updateHome n => rw [hb] at h; exact absurd h (by simp)
        | resolveResponse n => rw [hb] at h; exact Option.map_eq_none_iff.mp h
        | existsResponse ex n => rw [hb] at h; cases ex <;> simpa using h
        | _ => rw [hb] at h; exact h
      · rwa [View.post_site_of_ne _ _ hq] at h

/-! ### One step -/

theorem verdicts_post_of_ne {v : View N} {q : N} {e : Effect N} (hq : q ≠ r)
    (hrank : ∀ x ∈ e.answers, x.rank = q) : verdicts home r (v.post q e) =
      verdicts home r v ++ (posted q e.outbox).filterMap (ruling home r) := by
  rw [verdicts, verdicts, View.post_answers, View.post_net, View.post_site_of_ne _ _ (Ne.symm hq),
    List.filterMap_append, List.filterMap_append, verdict_of_ne hq hrank, List.append_nil]
  simp only [List.append_assoc]

theorem verdicts_post_self {v : View N} {e : Effect N} (hr : r ≠ home) :
    verdicts home r (v.post r e) = v.answers.filterMap (verdict r) ++
      (e.answers.filterMap (verdict r) ++
        (e.site.cached.toList.map (fun _ => true) ++ v.net.filterMap (ruling home r))) := by
  rw [verdicts, View.post_answers, View.post_net, View.post_site_self, List.filterMap_append,
    List.filterMap_append, posted_ruling_of_ne hr, List.append_nil, List.append_assoc]

/-- Adding what the home's record says. -/
theorem Settling.grow {v v' : View N} (h : Settling home r v) (said : List Bool)
    (heq : verdicts home r v' = verdicts home r v ++ said)
    (hdir : (v'.site home).dir = none → (v.site home).dir = none)
    (hsaid : ∀ b ∈ said, b = (v'.site home).dir.isSome) : Settling home r v' := by
  cases hnew : (v'.site home).dir with
  | some n =>
      rw [hnew] at hsaid
      refine ⟨?_, fun hnone => absurd (hnew.symm.trans hnone) (by simp)⟩
      rw [heq]
      exact h.sorted.append_confirmed hsaid
  | none =>
      rw [hnew] at hsaid
      have hdenied : ∀ b ∈ verdicts home r v', b = false := by
        intro b hb
        rw [heq] at hb
        exact (List.mem_append.mp hb).elim (h.unknown (hdir hnew) b) (hsaid b)
      exact ⟨.of_denials hdenied, fun _ => hdenied⟩

/-- An activation on another rank adds at most what the home sends. -/
theorem Settling.elsewhere {v : View N} {q : N} {e : Effect N} (h : Settling home r v)
    (hq : q ≠ r) (hrank : ∀ x ∈ e.answers, x.rank = q)
    (hdir : ((v.post q e).site home).dir = none → (v.site home).dir = none)
    (hsent : q = home → ∀ p ∈ posted home e.outbox, ∀ b, ruling home r p = some b →
      b = e.site.dir.isSome) : Settling home r (v.post q e) := by
  refine h.grow _ (verdicts_post_of_ne hq hrank) hdir fun b hb => ?_
  by_cases hhome : q = home
  · subst hhome
    obtain ⟨p, hp, hb⟩ := List.mem_filterMap.mp hb
    rw [View.post_site_self]
    exact hsent rfl p hp b hb
  · rw [posted_ruling_of_ne hhome] at hb
    exact absurd hb List.not_mem_nil

/-- Saying again what was under way. -/
theorem Settling.of_subset {v v' : View N} (h : Settling home r v)
    (hsorted : DenialsFirst (verdicts home r v'))
    (hdir : (v'.site home).dir = none → (v.site home).dir = none)
    (hold : verdicts home r v' ⊆ verdicts home r v) : Settling home r v' :=
  ⟨hsorted, fun hnone b hb => h.unknown (hdir hnone) b (hold hb)⟩

/-- `r` itself runs a public operation. -/
theorem Settling.call_self {v : View N} {c : Call N} (h : Settling home r v) (hr : r ≠ home)
    (hv : Routed home v) (hhosts : (v.site r).hosts = false)
    (haway : (Act.call r c).hostsOn r = false) (hend : (Act.call r c).unregisters = false) :
    Settling home r (v.post r (onCall home noNode r c (v.site r))) := by
  have hdir := (hv.site r).dir hr
  have hpost := verdicts_post_self (v := v) (e := onCall home noNode r c (v.site r)) hr
  have hkept : ((v.post r (onCall home noNode r c (v.site r))).site home).dir = none →
      (v.site home).dir = none := by
    rw [View.post_site_of_ne _ _ (Ne.symm hr)]
    exact id
  -- A query that the rank answers gives the verdict in its cache.
  have hquery : ∀ {n : N}, (v.site r).resolved r = some n →
      verdicts home r (v.post r (onCall home noNode r c (v.site r))) =
        v.answers.filterMap (verdict r) ++
          ([true] ++ (true :: v.net.filterMap (ruling home r))) →
      Settling home r (v.post r (onCall home noNode r c (v.site r))) := by
    intro n hres heq
    have hcached := cached_of_resolved hhosts hdir hres
    have hwas : verdicts home r v = v.answers.filterMap (verdict r) ++
        (true :: v.net.filterMap (ruling home r)) := by
      rw [verdicts, hcached]
      rfl
    refine h.of_subset ?_ hkept ?_
    · rw [heq]
      exact (hwas ▸ h.sorted).repeated 1
    · rw [heq, hwas]
      intro b hb
      simpa using hb
  have hsilent : verdicts home r (v.post r (onCall home noNode r c (v.site r))) =
      verdicts home r v → Settling home r (v.post r (onCall home noNode r c (v.site r))) :=
    fun heq => h.of_subset (heq ▸ h.sorted) hkept (heq ▸ List.Subset.refl _)
  cases c with
  | registerEntity => exact absurd haway (by simp [Act.hostsOn])
  | entityImmigrated src => exact absurd haway (by simp [Act.hostsOn])
  | entityEmigrated newNode => exact absurd haway (by simp [Act.hostsOn])
  | unregisterEntity => exact absurd hend (by simp [Act.unregisters])
  | getLocation a =>
      cases hres : (v.site r).resolved r with
      | some n =>
          refine hquery hres ?_
          rw [hpost, onCall, getLocation_of_some hres, cached_of_resolved hhosts hdir hres]
          simp [verdict]
      | none =>
          refine hsilent ?_
          rw [hpost, onCall, getLocation_of_none hres]
          rfl
  | entityExists a =>
      cases hres : (v.site r).resolved r with
      | some n =>
          refine hquery hres ?_
          rw [hpost, onCall, entityExists_of_some hres, cached_of_resolved hhosts hdir hres]
          simp [verdict]
      | none =>
          refine hsilent ?_
          rw [hpost, onCall, entityExists_of_none (Ne.symm hr) hres]
          rfl

/-- FIFO delivery: what the packet says is the oldest on its way to `r`. -/
theorem ruling_front {v : View N} {p : Packet N (Msg N)} {b : Bool}
    (hfifo : Channel.Oldest v.net p) (hb : ruling home r p = some b) :
    v.net.filterMap (ruling home r) = b :: (v.net.erase p).filterMap (ruling home r) := by
  obtain ⟨hends, -⟩ := Option.ite_none_right_eq_some.mp hb
  rw [hfifo.filterMap_erase (fun q _ c hq => ?_), hb]
  · rfl
  · obtain ⟨hq, -⟩ := Option.ite_none_right_eq_some.mp hq
    exact ⟨hq.1.trans hends.1.symm, hq.2.trans hends.2.symm⟩

/-- What `r` does changes nothing at the home. -/
theorem dir_of_post_self {v : View N} {p : Packet N (Msg N)} {e : Effect N} (hr : r ≠ home)
    (h : (((v.take p).post r e).site home).dir = none) : (v.site home).dir = none := by
  rwa [View.post_site_of_ne _ _ (Ne.symm hr)] at h

/-- A confirmation is passed on to the waiters and cached. -/
theorem Settling.confirmed {v : View N} {p : Packet N (Msg N)} {e : Effect N} {k : Nat} {n : N}
    (h : Settling home r v) (hr : r ≠ home) (hfifo : Channel.Oldest v.net p)
    (htrue : ruling home r p = some true)
    (hread : e.answers.filterMap (verdict r) = List.replicate k true)
    (hcached : e.site.cached = some n) : Settling home r ((v.take p).post r e) := by
  have hnow : verdicts home r ((v.take p).post r e) = v.answers.filterMap (verdict r) ++
      (List.replicate k true ++ (true :: (v.net.erase p).filterMap (ruling home r))) := by
    rw [verdicts_post_self hr, hread, hcached]
    rfl
  have hsub : (v.answers.filterMap (verdict r) ++
      (true :: (v.net.erase p).filterMap (ruling home r))).Sublist (verdicts home r v) := by
    rw [verdicts, ruling_front hfifo htrue]
    exact (List.Sublist.refl _).append (List.sublist_append_right ..)
  have hsorted := DenialsFirst.repeated (h.sorted.sublist hsub) k
  refine h.of_subset (hnow ▸ hsorted) (dir_of_post_self hr) ?_
  rw [hnow]
  refine fun b hb => hsub.subset ?_
  simp only [List.mem_append, List.mem_cons, List.mem_replicate] at hb ⊢
  rcases hb with hb | ⟨-, hb⟩ | hb | hb
  · exact Or.inl hb
  · exact Or.inr (Or.inl hb)
  · exact Or.inr (Or.inl hb)
  · exact Or.inr (Or.inr hb)

/-- A denial is passed on to the waiters, and nothing was confirmed before it. -/
theorem Settling.denied {v : View N} {p : Packet N (Msg N)} {e : Effect N} {k : Nat}
    (h : Settling home r v) (hr : r ≠ home) (hfifo : Channel.Oldest v.net p)
    (hfalse : ruling home r p = some false)
    (hread : e.answers.filterMap (verdict r) = List.replicate k false)
    (hkept : e.site.cached = (v.site r).cached) : Settling home r ((v.take p).post r e) := by
  have hwas : verdicts home r v = (v.answers.filterMap (verdict r) ++
      (v.site r).cached.toList.map fun _ => true) ++
        false :: (v.net.erase p).filterMap (ruling home r) := by
    rw [verdicts, ruling_front hfifo hfalse, List.append_assoc]
  have hdenied := (hwas ▸ h.sorted).before_denial
  have hcached : (v.site r).cached = none := by
    cases hc : (v.site r).cached with
    | none => rfl
    | some m => exact absurd (hdenied true (by simp [hc])) (by simp)
  have hnow : verdicts home r ((v.take p).post r e) =
      (v.answers.filterMap (verdict r) ++ List.replicate k false) ++
        (v.net.erase p).filterMap (ruling home r) := by
    rw [verdicts_post_self hr, hread, hkept, hcached, List.append_assoc]
    rfl
  refine h.of_subset ?_ (dir_of_post_self hr) ?_
  · rw [hnow]
    refine .denials_append (fun b hb => ?_) (h.sorted.sublist ?_)
    · rcases List.mem_append.mp hb with hb | hb
      · exact hdenied b (List.mem_append_left _ hb)
      · exact List.eq_of_mem_replicate hb
    · rw [hwas]
      exact (List.sublist_cons_self ..).trans (List.sublist_append_right ..)
  · rw [hnow, hwas]
    intro b hb
    simp only [List.mem_append, List.mem_cons, List.mem_replicate] at hb ⊢
    rcases hb with (hb | ⟨-, hb⟩) | hb
    · exact Or.inl (Or.inl hb)
    · exact Or.inr (Or.inl hb)
    · exact Or.inr (Or.inr hb)

/-- `r` itself receives a message. -/
theorem Settling.deliver_self {v : View N} {p : Packet N (Msg N)} (h : Settling home r v)
    (hr : r ≠ home) (hv : Routed home v) (hfifo : Channel.Oldest v.net p) (hdst : p.dst = r) :
    Settling home r ((v.take p).post r (onMsg noNode r p.body (v.site r))) := by
  have haddr := hv.packet p hfifo.mem
  have hdir := (hv.site r).dir hr
  obtain ⟨src, dst, msg⟩ := p
  obtain rfl : dst = r := hdst
  cases msg with
  | updateHome n => exact absurd haddr.2.1 hr
  | locationRequest q => exact absurd haddr.2.1 hr
  | existsRequest q => exact absurd haddr.2.1 hr
  | resolveResponse n =>
      have hread : ((v.site dst).pending.map fun a => Answer.located dst a n).filterMap
          (verdict dst) = List.replicate (v.site dst).pending.length true := by
        simp [List.filterMap_map, verdict, Function.comp_def]
      exact h.confirmed hr hfifo (if_pos ⟨haddr.1, rfl⟩) hread
        (by rw [onMsg_cached, hdir]; rfl)
  | existsResponse ex n =>
      have hread : ((v.site dst).pendingExists.map fun a =>
          Answer.existence dst a ex n).filterMap (verdict dst) =
            List.replicate (v.site dst).pendingExists.length ex := by
        simp [List.filterMap_map, verdict, Function.comp_def]
      cases ex with
      | true =>
          exact h.confirmed hr hfifo (if_pos ⟨haddr.1, rfl⟩) hread
            (by rw [onMsg_cached, hdir]; rfl)
      | false => exact h.denied hr hfifo (if_pos ⟨haddr.1, rfl⟩) hread (onMsg_cached ..)

/-- **One step.** -/
theorem Settling.step {v v' : View N} {a : Act N} (h : Settling home r v) (hr : r ≠ home)
    (hv : Authority home v) (hhosts : (v.site r).hosts = false) (hfifo : Fifo v a)
    (haway : a.hostsOn r = false) (hend : a.unregisters = false)
    (hs : Step home noNode v a v') : Settling home r v' := by
  have hdir := fun hnone => dir_eq_none_of_step (r := home) hend hs hnone
  cases hs with
  | call q c =>
      by_cases hq : q = r
      · subst hq
        exact h.call_self hr hv.routed hhosts haway hend
      · refine h.elsewhere hq (rank_onCall c) hdir fun hhome p hp b hb => ?_
        subst hhome
        exact ruling_onCall hp hb
  | deliver p hp =>
      by_cases hq : p.dst = r
      · subst hq
        exact h.deliver_self hr hv.routed hfifo rfl
      · have hnone : ruling home r p = none := if_neg fun hends => hq hends.2
        have htake : verdicts home r (v.take p) = verdicts home r v := by
          rw [verdicts, View.take_net, Channel.filterMap_erase_of_none hnone]
          rfl
        have hw : Settling home r (v.take p) := ⟨htake ▸ h.sorted, htake ▸ h.unknown⟩
        refine hw.elsewhere hq (rank_onMsg _) hdir fun hhome q hq b hb => ?_
        rw [hhome] at hq ⊢
        exact ruling_onMsg hv.served hq hb

theorem Settling.forget {v : View N} (h : Settling home r v) (q : N) :
    Settling home r (v.forget q) := by
  have hsub : (verdicts home r (v.forget q)).Sublist (verdicts home r v) := by
    refine (List.Sublist.refl _).append (.append ?_ (.refl _))
    rcases v.forget_cached q r with hlost | hkept
    · rw [hlost]
      exact List.nil_sublist _
    · rw [hkept]
  exact h.of_subset (h.sorted.sublist hsub) (fun hnone => View.forget_dir v q home ▸ hnone)
    hsub.subset

/-- **Found once, never denied later**, away from the home. -/
theorem settling_of_run {ok : Runs.Guard (View N) (Act N)} {past : List (Act N)} {v : View N}
    (h : (machine home noNode).Run ok [] View.init past v) (hr : r ≠ home)
    (hok : ∀ past v a, ok past v a → Fifo v a ∧ HostEmigrates v a ∧ a.unregisters = false)
    (haway : ∀ a ∈ past, a.hostsOn r = false) : Settling home r v := by
  suffices hall : (Authority home v ∧ (v.site r).hosts = false) ∧ Settling home r v from hall.2
  refine invariant_of_run (I := fun _ v => (Authority home v ∧ (v.site r).hosts = false) ∧
    Settling home r v) (h.with_labels (List.append_nil past).symm haway) ?_ ?_ ?_
  · exact ⟨⟨authority_init, rfl⟩, .nil, fun _ b hb => absurd hb List.not_mem_nil⟩
  · rintro past v a v' ⟨⟨hauth, hhosts⟩, hv⟩ ⟨hl, ha⟩ hs
    obtain ⟨hfifo, hhost, hend⟩ := hok past v a hl
    exact ⟨⟨hauth.step hhost hs, hosts_step hhosts ha hs⟩,
      hv.step hr hauth hhosts hfifo ha hend hs⟩
  · rintro past v q ⟨⟨hauth, hhosts⟩, hv⟩
    exact ⟨⟨hauth.forget q, (View.forget_hosts v q r).trans hhosts⟩, hv.forget q⟩

/-! ### The home itself -/

/-- The home has heard from nobody but itself. -/
theorem verdicts_home {v : View N} (hv : Authority home v) :
    verdicts home home v = v.answers.filterMap (verdict home) := by
  have hnet : v.net.filterMap (ruling home home) = [] := by
    rw [List.filterMap_eq_nil_iff]
    intro p hp
    have haddr := hv.packet p hp
    cases hruling : ruling home home p with
    | none => rfl
    | some b =>
        obtain ⟨⟨-, hdst⟩, hb⟩ := Option.ite_none_right_eq_some.mp hruling
        obtain ⟨src, dst, msg⟩ := p
        cases msg with
        | resolveResponse n => exact absurd hdst haddr.2
        | existsResponse ex n => exact absurd hdst haddr.2
        | _ => exact absurd hb (by simp)
  rw [verdicts, hnet, (hv.site home).uncached rfl]
  simp

omit [DecidableEq N] in
theorem resolved_isSome_home {v : View N} (hv : Authority home v) :
    ((v.site home).resolved home).isSome = (v.site home).dir.isSome := by
  rw [← hv.served]
  cases hres : (v.site home).resolved home with
  | none =>
      obtain ⟨hhosts, hnode⟩ := Site.resolved_eq_none.mp hres
      rw [Site.served_eq_none.mpr ⟨hnode, hhosts⟩]
  | some n =>
      cases hserved : (v.site home).served home with
      | some m => rfl
      | none =>
          obtain ⟨hnode, hhosts⟩ := Site.served_eq_none.mp hserved
          rw [Site.resolved_eq_none.mpr ⟨hhosts, hnode⟩] at hres
          exact absurd hres (by simp)

theorem verdict_onCall {v : View N} (hv : Authority home v) (c : Call N) :
    ∀ b ∈ (onCall home noNode home c (v.site home)).answers.filterMap (verdict home),
      b = (onCall home noNode home c (v.site home)).site.dir.isSome := by
  have hknown := resolved_isSome_home hv
  have hregister : ∀ b ∈ (register home home (v.site home)).answers.filterMap (verdict home),
      b = (register home home (v.site home)).site.dir.isSome := by
    simp [register, announce, verdict]
  cases c with
  | registerEntity => exact hregister
  | entityImmigrated src => exact hregister
  | entityEmigrated newNode => simp [onCall, emigrate]
  | unregisterEntity => simp [onCall, unregister]
  | getLocation a =>
      cases hres : (v.site home).resolved home with
      | some n =>
          rw [hres] at hknown
          simp [onCall, getLocation_of_some hres, verdict, ← hknown]
      | none => simp [onCall, getLocation_of_none hres]
  | entityExists a =>
      cases hres : (v.site home).resolved home with
      | some n =>
          rw [hres] at hknown
          simp [onCall, entityExists_of_some hres, verdict, ← hknown]
      | none =>
          rw [hres] at hknown
          simp [onCall, entityExists_home_of_none hres, verdict, ← hknown]

theorem verdict_onMsg {p : Packet N (Msg N)} {t : Site N} (hp : Addressed home p)
    (hdst : p.dst = home) :
    ∀ b ∈ (onMsg noNode home p.body t).answers.filterMap (verdict home),
      b = (onMsg noNode home p.body t).site.dir.isSome := by
  obtain ⟨src, dst, msg⟩ := p
  cases msg with
  | updateHome n => simp [onMsg, announce, verdict]
  | locationRequest q =>
      cases hserved : t.served home with
      | some n => simp [onMsg, locationRequest_of_some hserved]
      | none => simp [onMsg, locationRequest_of_none hserved]
  | existsRequest q => simp [onMsg, existsRequest_eq]
  | resolveResponse n => exact absurd hdst hp.2
  | existsResponse ex n => exact absurd hdst hp.2

theorem Settling.step_home {v v' : View N} {a : Act N} (h : Settling home home v)
    (hv : Authority home v) (hv' : Authority home v') (hend : a.unregisters = false)
    (hs : Step home noNode v a v') : Settling home home v' := by
  have hdir := fun hnone => dir_eq_none_of_step (r := home) hend hs hnone
  have hgrow : ∀ {q : N} {e : Effect N} {w : View N}, v' = w.post q e → w.answers = v.answers →
      (∀ x ∈ e.answers, x.rank = q) →
      (q = home → ∀ b ∈ e.answers.filterMap (verdict home), b = e.site.dir.isSome) →
      Settling home home v' := by
    intro q e w heq hanswers hrank hsaid
    refine h.grow (e.answers.filterMap (verdict home)) ?_ hdir fun b hb => ?_
    · rw [verdicts_home hv, verdicts_home hv', heq, View.post_answers, List.filterMap_append,
        hanswers]
    · by_cases hq : q = home
      · rw [heq, ← hq, View.post_site_self]
        exact hsaid hq b hb
      · rw [verdict_of_ne hq hrank] at hb
        exact absurd hb List.not_mem_nil
  cases hs with
  | call q c =>
      refine hgrow rfl rfl (rank_onCall c) fun hq => ?_
      subst hq
      exact verdict_onCall hv c
  | deliver p hp =>
      refine hgrow rfl rfl (rank_onMsg _) fun hq => ?_
      rw [hq]
      exact verdict_onMsg (hv.packet p hp) hq

/-- **Found once, never denied later**, at the home, in any order of delivery. -/
theorem settling_home_of_run {ok : Runs.Guard (View N) (Act N)} {past : List (Act N)} {v : View N}
    (h : (machine home noNode).Run ok [] View.init past v)
    (hok : ∀ past v a, ok past v a → HostEmigrates v a ∧ a.unregisters = false) :
    Settling home home v := by
  refine (invariant_of_run (I := fun _ v => Authority home v ∧ Settling home home v) h
    ?_ ?_ ?_).2
  · exact ⟨authority_init, .nil, fun _ b hb => absurd hb List.not_mem_nil⟩
  · rintro past v a v' ⟨hauth, hv⟩ ha hs
    obtain ⟨hhost, hend⟩ := hok past v a ha
    have hauth' := hauth.step hhost hs
    exact ⟨hauth', hv.step_home hauth hauth' hend hs⟩
  · rintro past v q ⟨hauth, hv⟩
    exact ⟨hauth.forget q, hv.forget q⟩

end Loc.Entity
