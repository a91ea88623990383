import Loc.Entity.Interest
import Loc.Entity.Waiters

/-!
# Loc.Entity.Order

**First come, first served.** Callbacks wait in queues, but a callback passed while the
location is known is invoked at once, ahead of whoever still waits. That happens when
something other than an answer to the waiters makes the location known: the answer to a
query of the other kind, or a move of the entity to or from the rank.

Where nothing of the sort happens, and at the home always, nobody waits for what is
known (`Patient`), and then the callbacks invoked so far, followed by those that wait,
are the callbacks passed, in the order in which they were passed (`InOrder`).
-/

namespace Loc.Entity

open Channel (Packet)

variable {N : Type} [DecidableEq N] {home noNode r : N} {k : Query} {t : Site N}

namespace Query

/-- The callback of this kind that the answer invokes on `r`. -/
def servedTo (r : N) : Query → Answer N → Option Nat
  | .location, .located r' a _ => if r' = r then some a else none
  | .existence, .existence r' a _ _ => if r' = r then some a else none
  | _, _ => none

/-- The callback of this kind that a call passes. -/
def passes : Query → Call N → Option Nat
  | .location, .getLocation a => some a
  | .existence, .entityExists a => some a
  | _, _ => none

/-- The callback of this kind that the event passes to `r`. -/
def passedTo (r : N) (k : Query) : Act N → Option Nat
  | .call r' c => if r' = r then k.passes c else none
  | .deliver _ => none

theorem servedTo_of_ne {k : Query} {r : N} {x : Answer N} (h : x.rank ≠ r) :
    k.servedTo r x = none := by
  cases x with
  | located r' a n => cases k <;> simp_all [servedTo, Answer.rank]
  | existence r' a ex n => cases k <;> simp_all [servedTo, Answer.rank]

theorem servedTo_located (k : Query) (r n : N) (l : List NodeAction) :
    (l.map fun a => Answer.located r a n).filterMap (k.servedTo r) =
      if k = .location then l else [] := by
  rw [List.filterMap_map]
  cases k <;> simp [servedTo, Function.comp_def]

theorem servedTo_existence (k : Query) (r n : N) (ex : Bool) (l : List ExistsAction) :
    (l.map fun a => Answer.existence r a ex n).filterMap (k.servedTo r) =
      if k = .existence then l else [] := by
  rw [List.filterMap_map]
  cases k <;> simp [servedTo, Function.comp_def]

end Query

/-! ### One activation -/

/-- A rank invokes its own callbacks only. -/
theorem rank_onCall (c : Call N) : ∀ x ∈ (onCall home noNode r c t).answers, x.rank = r := by
  have hregister : ∀ x ∈ (register home r t).answers, x.rank = r := by
    unfold register
    split <;> simp [announce, Answer.rank]
  cases c with
  | registerEntity => exact hregister
  | entityImmigrated src => exact hregister
  | entityEmigrated newNode => simp [onCall, emigrate]
  | unregisterEntity => simp [onCall, unregister]
  | getLocation a =>
      rw [onCall]
      cases hres : t.resolved r with
      | some n => rw [getLocation_of_some hres]; simp [Answer.rank]
      | none => rw [getLocation_of_none hres]; simp
  | entityExists a =>
      rw [onCall]
      cases hres : t.resolved r with
      | some n => rw [entityExists_of_some hres]; simp [Answer.rank]
      | none =>
          by_cases hr : home = r
          · subst hr
            rw [entityExists_home_of_none hres]
            simp [Answer.rank]
          · rw [entityExists_of_none hr hres]
            simp

theorem rank_onMsg (m : Msg N) : ∀ x ∈ (onMsg noNode r m t).answers, x.rank = r := by
  cases m with
  | updateHome n => simp [onMsg, announce, Answer.rank]
  | locationRequest q =>
      rw [onMsg]
      cases hserved : t.served r with
      | some n => rw [locationRequest_of_some hserved]; simp
      | none => rw [locationRequest_of_none hserved]; simp
  | resolveResponse n => simp [onMsg, resolveResponse, Answer.rank]
  | existsRequest q => rw [onMsg, existsRequest_eq]; simp
  | existsResponse ex n => simp [onMsg, existsResponse, Answer.rank]

/-- An activation on `r` that starts on `t`, with the callbacks `fresh` passed to it,
serves them in order. -/
def Orderly (k : Query) (r : N) (t : Site N) (fresh : List Nat) (e : Effect N) : Prop :=
  e.answers.filterMap (k.servedTo r) ++ k.queue e.site = k.queue t ++ fresh

/-- A flush of the location waiters. -/
theorem orderly_located {n : N} {t' : Site N} {outbox : List (N × Msg N)}
    (hpending : t'.pending = []) (hexists : t'.pendingExists = t.pendingExists) :
    Orderly k r t [] ⟨t', outbox, t.pending.map fun a => .located r a n⟩ := by
  rw [Orderly, Query.servedTo_located]
  cases k <;> simp [Query.queue, hpending, hexists]

/-- A flush of the existence waiters. -/
theorem orderly_existence {n : N} {ex : Bool} {t' : Site N}
    (hpending : t'.pending = t.pending) (hexists : t'.pendingExists = []) :
    Orderly k r t [] ⟨t', [], t.pendingExists.map fun a => .existence r a ex n⟩ := by
  rw [Orderly, Query.servedTo_existence]
  cases k <;> simp [Query.queue, hpending, hexists]

/-- No callback passed and none invoked. -/
theorem orderly_idle {t' : Site N} {outbox : List (N × Msg N)}
    (hpending : t'.pending = t.pending) (hexists : t'.pendingExists = t.pendingExists) :
    Orderly k r t [] ⟨t', outbox, []⟩ := by
  cases k <;> simp [Orderly, Query.queue, hpending, hexists]

theorem orderly_register : Orderly k r t [] (register home r t) := by
  unfold register
  split
  · exact orderly_located rfl rfl
  · exact orderly_idle rfl rfl

/-- Nobody waits on `r` for what is known there. -/
def Patient (k : Query) (r : N) (t : Site N) : Prop := k.queue t ≠ [] → t.resolved r = none

/-- A callback is invoked at once only if nobody waits. -/
theorem orderly_onCall (ht : Patient k r t) (hhome : home = r → t.pendingExists = [])
    (c : Call N) : Orderly k r t (k.passes c).toList (onCall home noNode r c t) := by
  have hempty : ∀ n, t.resolved r = some n → k.queue t = [] := by
    intro n hn
    by_contra hwait
    rw [ht hwait] at hn
    exact absurd hn (by simp)
  cases c with
  | registerEntity => cases k <;> exact orderly_register
  | entityImmigrated src => cases k <;> exact orderly_register
  | entityEmigrated newNode => cases k <;> exact orderly_idle (by simp) (by simp)
  | unregisterEntity => cases k <;> exact orderly_idle rfl rfl
  | getLocation b =>
      rw [onCall]
      cases hres : t.resolved r with
      | some n =>
          rw [getLocation_of_some hres]
          cases k with
          | location => simp [Orderly, Query.servedTo, Query.passes, hempty n hres]
          | existence => simp [Orderly, Query.servedTo, Query.passes]
      | none =>
          rw [getLocation_of_none hres]
          cases k <;> simp [Orderly, Query.queue, Query.passes]
  | entityExists b =>
      rw [onCall]
      cases hres : t.resolved r with
      | some n =>
          rw [entityExists_of_some hres]
          cases k with
          | location => simp [Orderly, Query.servedTo, Query.passes]
          | existence => simp [Orderly, Query.servedTo, Query.passes, hempty n hres]
      | none =>
          by_cases hr : home = r
          · subst hr
            rw [entityExists_home_of_none hres]
            cases k <;> simp [Orderly, Query.servedTo, Query.passes, Query.queue, hhome rfl]
          · rw [entityExists_of_none hr hres]
            cases k <;> simp [Orderly, Query.queue, Query.passes]

theorem orderly_onMsg (m : Msg N) : Orderly k r t [] (onMsg noNode r m t) := by
  cases m with
  | updateHome n => exact orderly_located rfl rfl
  | locationRequest q =>
      rw [onMsg]
      cases hserved : t.served r with
      | some n => rw [locationRequest_of_some hserved]; exact orderly_idle rfl rfl
      | none => rw [locationRequest_of_none hserved]; exact orderly_idle rfl rfl
  | resolveResponse n => exact orderly_located rfl (by simp)
  | existsRequest q =>
      rw [onMsg, existsRequest_eq]
      exact orderly_idle rfl rfl
  | existsResponse ex n => exact orderly_existence (by cases ex <;> simp) rfl

/-! ### Runs -/

/-- The callbacks invoked on `r`, and then those that wait there, are those passed. -/
def InOrder (k : Query) (r : N) (past : List (Act N)) (v : View N) : Prop :=
  v.answers.filterMap (k.servedTo r) ++ k.queue (v.site r) =
    (past.filterMap (k.passedTo r)).reverse

theorem inOrder_init : InOrder k r [] (View.init : View N) := by
  cases k <;> rfl

variable {past : List (Act N)} {v v' : View N} {a : Act N}

theorem InOrder.post_self {fresh : List Nat} {e : Effect N} (h : InOrder k r past v)
    (he : Orderly k r (v.site r) fresh e) (hfresh : (k.passedTo r a).toList = fresh) :
    InOrder k r (a :: past) (v.post r e) := by
  have hpast : ((a :: past).filterMap (k.passedTo r)).reverse =
      (past.filterMap (k.passedTo r)).reverse ++ fresh := by
    rw [← hfresh, List.filterMap_cons]
    cases k.passedTo r a <;> simp
  rw [InOrder, hpast, ← show _ = _ from h, View.post_answers, View.post_site_self,
    List.filterMap_append, List.append_assoc, show _ = _ from he, List.append_assoc]

theorem InOrder.post_of_ne {q : N} {e : Effect N} (h : InOrder k r past v) (hq : q ≠ r)
    (he : ∀ x ∈ e.answers, x.rank = q) (hfresh : k.passedTo r a = none) :
    InOrder k r (a :: past) (v.post q e) := by
  have hnone : e.answers.filterMap (k.servedTo r) = [] :=
    List.filterMap_eq_nil_iff.mpr fun x hx => Query.servedTo_of_ne (he x hx ▸ hq)
  rw [InOrder, View.post_answers, List.filterMap_append, hnone, List.append_nil,
    View.post_site_of_ne _ _ (Ne.symm hq), List.filterMap_cons_none hfresh]
  exact h

/-- **One step**, if the rank is patient. -/
theorem InOrder.step (h : InOrder k r past v) (hv : Routed home v)
    (hpatient : Patient k r (v.site r)) (hs : Step home noNode v a v') :
    InOrder k r (a :: past) v' := by
  cases hs with
  | call q c =>
      by_cases hq : q = r
      · subst hq
        exact h.post_self (orderly_onCall hpatient (fun hr => (hv.site q).pendingExists hr.symm) c)
          (by simp [Query.passedTo])
      · exact h.post_of_ne hq (rank_onCall c) (by simp [Query.passedTo, hq])
  | deliver p hp =>
      have htake : InOrder k r past (v.take p) := h
      by_cases hq : p.dst = r
      · subst hq
        exact htake.post_self (orderly_onMsg p.body) rfl
      · exact htake.post_of_ne hq (rank_onMsg p.body) rfl

theorem Query.queue_forget (k : Query) (v : View N) (q r : N) :
    k.queue ((v.forget q).site r) = k.queue (v.site r) := by
  cases k with
  | location => exact View.forget_pending v q r
  | existence => exact View.forget_pendingExists v q r

theorem InOrder.forget (h : InOrder k r past v) (q : N) : InOrder k r past (v.forget q) := by
  rw [InOrder, k.queue_forget]
  exact h

/-- **In order at the home**, in every run in which only hosts emigrate the entity. -/
theorem inOrder_home_of_run {ok : Runs.Guard (View N) (Act N)}
    (h : (machine home noNode).Run ok [] View.init past v)
    (hok : ∀ past v a, ok past v a → HostEmigrates v a) : InOrder k home past v := by
  refine (invariant_of_run (I := fun past v =>
    (machine home noNode).Run ok [] View.init past v ∧ InOrder k home past v) h
    ⟨.refl, inOrder_init⟩ ?_ ?_).2
  · intro past v a v' ⟨hrun, hv⟩ ha hs
    have hrouted := routed_of_run hrun routed_init
    refine ⟨.step hrun ha hs, hv.step hrouted (fun hwait => ?_) hs⟩
    cases k with
    | location =>
        -- The home serves from the registration what a query on it finds there first.
        have hserved := (attended_of_run hrun hok).idle (Or.inr hwait)
        exact Site.resolved_eq_none.mpr (Site.served_eq_none.mp hserved).symm
    | existence => exact absurd ((hrouted.site home).pendingExists rfl) hwait
  · intro past v q ⟨hrun, hv⟩
    exact ⟨.silent hrun ⟨q, rfl⟩, hv.forget q⟩

/-! ### Ranks that keep to one kind of query -/

/-- The event is none by which `r` learns a location otherwise than by asking for it with
queries of kind `k`. -/
def Act.keepsTo (k : Query) (r : N) : Act N → Bool
  | .call r' (.getLocation _) => r' ≠ r || k = .location
  | .call r' (.entityExists _) => r' ≠ r || k = .existence
  | .call _ .unregisterEntity => true
  | .call r' _ => r' ≠ r
  | .deliver _ => true

/-- The rank does not host the entity, and is patient. -/
def Waiting (k : Query) (r : N) (t : Site N) : Prop := t.hosts = false ∧ Patient k r t

theorem Waiting.call (h : Waiting k r t) {c : Call N} (hc : (Act.call r c).keepsTo k r = true) :
    Waiting k r (onCall home noNode r c t).site := by
  obtain ⟨hhosts, ht⟩ := h
  cases c with
  | registerEntity => exact absurd hc (by simp [Act.keepsTo])
  | entityImmigrated src => exact absurd hc (by simp [Act.keepsTo])
  | entityEmigrated newNode => exact absurd hc (by simp [Act.keepsTo])
  | unregisterEntity => exact ⟨rfl, fun _ => rfl⟩
  | getLocation a =>
      obtain rfl : k = .location := by simpa [Act.keepsTo] using hc
      rw [onCall]
      cases hres : t.resolved r with
      | some n => rw [getLocation_of_some hres]; exact ⟨hhosts, ht⟩
      | none => rw [getLocation_of_none hres]; exact ⟨hhosts, fun _ => hres⟩
  | entityExists a =>
      obtain rfl : k = .existence := by simpa [Act.keepsTo] using hc
      rw [onCall]
      cases hres : t.resolved r with
      | some n => rw [entityExists_of_some hres]; exact ⟨hhosts, ht⟩
      | none =>
          by_cases hr : home = r
          · subst hr
            rw [entityExists_home_of_none hres]
            exact ⟨hhosts, ht⟩
          · rw [entityExists_of_none hr hres]
            exact ⟨hhosts, fun _ => hres⟩

/-- What such a rank learns from a message answers whoever waits. -/
theorem Waiting.deliver {p : Packet N (Msg N)} (h : Waiting k p.dst t) (haddr : Addressed home p)
    (hint : InterestedMsg past p) (hr : p.dst ≠ home)
    (hpast : ∀ a ∈ past, a.keepsTo k p.dst = true) :
    Waiting k p.dst (onMsg noNode p.dst p.body t).site := by
  refine ⟨by rw [onMsg_hosts]; exact h.1, ?_⟩
  obtain ⟨src, dst, msg⟩ := p
  cases msg with
  | updateHome n => exact absurd haddr.2.1 hr
  | locationRequest q => exact absurd haddr.2.1 hr
  | existsRequest q => exact absurd haddr.2.1 hr
  | resolveResponse n =>
      obtain ⟨a, ha⟩ := hint
      obtain rfl : k = .location := by simpa [Act.keepsTo] using hpast _ ha
      exact fun hwait => absurd rfl hwait
  | existsResponse ex n =>
      obtain ⟨a, ha⟩ := hint
      obtain rfl : k = .existence := by simpa [Act.keepsTo] using hpast _ ha
      exact fun hwait => absurd rfl hwait

/-- A lost record was not what anyone waited for. -/
theorem Waiting.forget (h : Waiting k r (v.site r)) (q : N) :
    Waiting k r ((v.forget q).site r) := by
  refine ⟨by rw [View.forget_hosts]; exact h.1, fun hwait => ?_⟩
  rw [k.queue_forget] at hwait
  have hnode := Site.node_eq_none.mp (Site.resolved_eq_none.mp (h.2 hwait)).2
  refine Site.resolved_eq_none.mpr ⟨by rw [View.forget_hosts]; exact h.1, ?_⟩
  rw [Site.node_eq_none, View.forget_dir]
  refine ⟨hnode.1, ?_⟩
  rcases v.forget_cached q r with hlost | hkept
  · exact hlost
  · rw [hkept]
    exact hnode.2

/-- **In order away from the home**, on a rank that keeps to queries of one kind. -/
theorem inOrder_away_of_run {ok : Runs.Guard (View N) (Act N)}
    (h : (machine home noNode).Run ok [] View.init past v) (hr : r ≠ home)
    (hpast : ∀ a ∈ past, a.keepsTo k r = true) : InOrder k r past v := by
  refine (invariant_of_run (I := fun past v => Routed home v ∧ Interested past v ∧
    ((∀ a ∈ past, a.keepsTo k r = true) → Waiting k r (v.site r) ∧ InOrder k r past v)) h
    ?_ ?_ ?_).2.2 hpast |>.2
  · refine ⟨routed_init, interested_init, fun _ => ⟨⟨rfl, fun hwait => ?_⟩, inOrder_init⟩⟩
    exact absurd (by cases k <;> rfl) hwait
  · rintro past v a v' ⟨hrouted, hint, hv⟩ _ hs
    refine ⟨hrouted.step hs, hint.step hs, fun hpast => ?_⟩
    have hbefore : ∀ a ∈ past, a.keepsTo k r = true := fun a ha =>
      hpast a (List.mem_cons_of_mem _ ha)
    obtain ⟨hwaiting, horder⟩ := hv hbefore
    refine ⟨?_, horder.step hrouted hwaiting.2 hs⟩
    cases hs with
    | call q c =>
        by_cases hq : q = r
        · subst hq
          rw [View.post_site_self]
          exact hwaiting.call (hpast _ List.mem_cons_self)
        · rw [View.post_site_of_ne _ _ (Ne.symm hq)]
          exact hwaiting
    | deliver p hp =>
        by_cases hq : p.dst = r
        · subst hq
          rw [View.post_site_self]
          exact hwaiting.deliver (hrouted.packet p hp) (hint.packet p hp) hr hbefore
        · rw [View.post_site_of_ne _ _ (Ne.symm hq)]
          exact hwaiting
  · rintro past v q ⟨hrouted, hint, hv⟩
    refine ⟨hrouted.forget q, hint.forget q, fun hpast => ?_⟩
    exact ⟨(hv hpast).1.forget q, (hv hpast).2.forget q⟩

end Loc.Entity
