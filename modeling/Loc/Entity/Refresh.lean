import Loc.Entity.Convergence
import Loc.Entity.News

/-!
# Loc.Entity.Refresh

**Which caches stay coherent.** The home pushes every location it announces to the
ranks it has answered by `resolveResponse`, and to no others.

* `asker_coherent` — a rank that has received a `resolveResponse` ends up with the
  home's record or none.
* `tracked_coherent` — so does a rank that knows the entity from an existence query
  alone, as long as the home's record does not change behind its back.
* `former_host_coherent` — so does a former host that has never asked, as long as
  the entity does not move on behind its back.
-/

namespace Loc.Entity

open Channel (Packet posted)

variable {N : Type} [DecidableEq N] {home noNode r : N}

/-! ### Settled states -/

/-- No migration is half done and no update is in flight. -/
def Settled (past : List (Act N)) (v : View N) : Prop :=
  (∀ src dst, whereabouts past ≠ .moving src dst) ∧ ∀ p ∈ v.net, ∀ n, p.body ≠ .updateHome n

/-- Only an announcement by the home settles anything. -/
theorem settled_of_step {past : List (Act N)} {v v' : View N} {a : Act N} (ha : Enduring past a)
    (hquiet : a.announced home = none) (hs : Step home noNode v a v')
    (h : Settled (a :: past) v') : Settled past v := by
  cases hs with
  | call q c =>
      have hnet : ∀ p ∈ v.net, ∀ n, p.body ≠ .updateHome n :=
        fun p hp => h.2 p (List.mem_append_left _ hp)
      -- A registration elsewhere would have sent an update.
      have hregister : register home q (v.site q) = onCall home noNode q c (v.site q) →
          q = home := by
        intro hc
        by_contra hq
        refine h.2 ⟨q, home, .updateHome q⟩ (List.mem_append_right _ ?_) q rfl
        rw [← hc, register, if_neg (Ne.symm hq)]
        simp
      cases c with
      | registerEntity => simp [Act.announced, hregister rfl] at hquiet
      | entityImmigrated src => simp [Act.announced, hregister rfl] at hquiet
      | entityEmigrated newNode => exact absurd rfl (h.1 q newNode)
      | unregisterEntity => exact absurd ha.2 (by simp [Act.unregisters])
      | getLocation b => exact ⟨h.1, hnet⟩
      | entityExists b => exact ⟨h.1, hnet⟩
  | deliver p hp =>
      refine ⟨h.1, fun q hq n hn => ?_⟩
      have hqp : q ≠ p := by
        intro heq
        subst heq
        obtain ⟨src, dst, msg⟩ := q
        obtain rfl : msg = .updateHome n := hn
        exact absurd hquiet (by simp [Act.announced])
      exact h.2 q (List.mem_append_left _ ((List.mem_erase_of_ne hqp).mpr hq)) n hn

/-! ### Ranks the home refreshes -/

/-- What `r` will know is the home's record. -/
def Fresh (home r : N) (v : View N) : Prop :=
  ∀ n, news home r v = some n → (v.site home).dir = some n

theorem Fresh.forget {v : View N} (h : Fresh home r v) (q : N) : Fresh home r (v.forget q) := by
  intro n hn
  rw [View.forget_dir]
  rcases news_forget home r v q with hnone | hsame
  · rw [hnone] at hn
    exact absurd hn (by simp)
  · exact h n (hsame ▸ hn)

/-- The locations the home has announced, newest first. -/
def learned (home : N) (past : List (Act N)) : List N := past.filterMap (Act.announced home)

/-- The ranks that have hosted the entity, newest first. -/
def hostRanks (past : List (Act N)) : List N := past.filterMap Act.hostedAt

/-- Once things have settled, a rank the home refreshes is fresh, and the home's
record is what it learned last. -/
structure Refreshed (home r : N) (past : List (Act N)) (v : View N) : Prop where
  fresh : Settled past v → r ∈ (v.site home).asks → Fresh home r v
  learned : Settled past v → (v.site home).dir = (learned home past).head?

theorem Refreshed.step {past : List (Act N)} {v v' : View N} {a : Act N}
    (h : Refreshed home r past v) (hr : r ≠ home) (hv : Authority home v) (hfifo : Fifo v a)
    (ha : Enduring past a) (hhost : HostEmigrates v a) (hs : Step home noNode v a v') :
    Refreshed home r (a :: past) v' := by
  have hbefore : a.announced home = none → Settled (a :: past) v' → Settled past v :=
    fun hquiet => settled_of_step ha hquiet hs
  cases turn_of_step hr hv hfifo hhost hs with
  | quiet hquiet hdir hasks hnews =>
      refine ⟨fun hset hin n hn => ?_, fun hset => ?_⟩
      · rw [hdir]
        exact h.fresh (hbefore hquiet hset) (hasks.mp hin) n (hnews ▸ hn)
      · rw [hdir, h.learned (hbefore hquiet hset), Entity.learned, Entity.learned,
          List.filterMap_cons_none hquiet]
  | lost hquiet hdir hasks hnews =>
      refine ⟨fun hset hin n hn => absurd (hnews ▸ hn) (by simp), fun hset => ?_⟩
      rw [hdir, h.learned (hbefore hquiet hset), Entity.learned, Entity.learned,
        List.filterMap_cons_none hquiet]
  | answered hquiet hold hdir hasks hnews =>
      refine ⟨fun hset hin n hn => ?_, fun hset => ?_⟩
      · rw [hdir, ← hnews, hn]
      · rw [hdir, ← hold, h.learned (hbefore hquiet hset), Entity.learned, Entity.learned,
          List.filterMap_cons_none hquiet]
  | announced hann hdir hasks hnews =>
      refine ⟨fun hset hin n hn => ?_, fun hset => ?_⟩
      · rw [hdir, ← hn, hnews, if_pos hin]
      · rw [hdir, Entity.learned, List.filterMap_cons_some hann]
        rfl
  | sentOff hact =>
      subst hact
      exact ⟨fun hset => absurd rfl (hset.1 _ _), fun hset => absurd rfl (hset.1 _ _)⟩
  | left hact =>
      subst hact
      exact ⟨fun hset => absurd rfl (hset.1 _ _), fun hset => absurd rfl (hset.1 _ _)⟩
  | dropped hact => exact absurd ha.2 (by simp [hact, Act.unregisters])

theorem Refreshed.forget {past : List (Act N)} {v : View N} (h : Refreshed home r past v) (q : N) :
    Refreshed home r past (v.forget q) where
  fresh hset hin := (h.fresh hset (View.forget_asks v q home ▸ hin)).forget q
  learned hset := (View.forget_dir v q home).trans (h.learned hset)

/-! ### Ranks that have been answered -/

/-- A rank to which a `resolveResponse` is in flight, or was delivered, is one the
home refreshes. -/
structure Remembered (home r : N) (past : List (Act N)) (v : View N) : Prop where
  sent : ∀ p ∈ v.net, ∀ n, p.dst = r → p.body = .resolveResponse n → r ∈ (v.site home).asks
  received : ∀ src n, .deliver ⟨src, r, .resolveResponse n⟩ ∈ past → r ∈ (v.site home).asks

/-- The home refreshes whom it answers, and goes on refreshing whom it refreshed. -/
theorem asks_onCall {q : N} {t : Site N} (c : Call N) :
    (r ∈ t.asks → r ∈ (onCall home noNode q c t).site.asks) ∧
      ∀ n, (r, .resolveResponse n) ∈ (onCall home noNode q c t).outbox →
        r ∈ (onCall home noNode q c t).site.asks := by
  have hregister : (r ∈ t.asks → r ∈ (register home q t).site.asks) ∧
      ∀ n, (r, .resolveResponse n) ∈ (register home q t).outbox →
        r ∈ (register home q t).site.asks := by
    unfold register
    split
    · refine ⟨fun h => mem_remember.mpr (Or.inl h), fun n hn => ?_⟩
      obtain ⟨q', hq', hsent⟩ := List.mem_map.mp hn
      obtain rfl : q' = r := congrArg Prod.fst hsent
      exact mem_remember.mpr (List.mem_append.mp hq')
    · exact ⟨fun h => h, fun n hn => absurd hn (by simp)⟩
  have hquery : c.moves q = none → (r ∈ t.asks → r ∈ (onCall home noNode q c t).site.asks) ∧
      ∀ n, (r, .resolveResponse n) ∈ (onCall home noNode q c t).outbox →
        r ∈ (onCall home noNode q c t).site.asks := by
    intro hc
    obtain ⟨hsite, hout⟩ := onCall_query home noNode hc t
    refine ⟨fun h => by rwa [hsite], fun n hn => ?_⟩
    rcases hout _ hn with h | h <;> exact absurd (congrArg Prod.snd h) (by simp)
  cases c with
  | registerEntity => exact hregister
  | entityImmigrated src => exact hregister
  | entityEmigrated newNode =>
      exact ⟨fun h => by simpa [onCall, emigrate] using h,
        fun n hn => absurd hn (by simp [onCall, emigrate])⟩
  | unregisterEntity => exact ⟨fun h => h, fun n hn => absurd hn (by simp [onCall, unregister])⟩
  | getLocation b => exact hquery rfl
  | entityExists b => exact hquery rfl

theorem asks_onMsg {q : N} {t : Site N} (m : Msg N) :
    (r ∈ t.asks → r ∈ (onMsg noNode q m t).site.asks) ∧
      ∀ n, (r, .resolveResponse n) ∈ (onMsg noNode q m t).outbox →
        r ∈ (onMsg noNode q m t).site.asks := by
  cases m with
  | updateHome n =>
      refine ⟨fun h => mem_remember.mpr (Or.inl h), fun n' hn => ?_⟩
      obtain ⟨q', hq', hsent⟩ := List.mem_map.mp hn
      obtain rfl : q' = r := congrArg Prod.fst hsent
      exact mem_remember.mpr (List.mem_append.mp hq')
  | locationRequest q' =>
      rw [onMsg]
      cases hserved : t.served q with
      | some n =>
          rw [locationRequest_of_some hserved]
          exact ⟨fun h => List.mem_insert_of_mem h, fun n' hn => by simp_all⟩
      | none =>
          rw [locationRequest_of_none hserved]
          exact ⟨fun h => h, fun n' hn => absurd hn (by simp)⟩
  | resolveResponse n =>
      exact ⟨fun h => by simpa [onMsg, resolveResponse] using h,
        fun n' hn => absurd hn (by simp [onMsg, resolveResponse])⟩
  | existsRequest q' =>
      rw [onMsg, existsRequest_eq]
      exact ⟨fun h => h, fun n' hn => absurd hn (by simp)⟩
  | existsResponse ex n =>
      exact ⟨fun h => by cases ex <;> simpa [onMsg, existsResponse] using h,
        fun n' hn => absurd hn (by simp [onMsg, existsResponse])⟩

theorem asks_step {v v' : View N} {a : Act N} (hs : Step home noNode v a v')
    (h : r ∈ (v.site home).asks) : r ∈ (v'.site home).asks := by
  cases hs with
  | call q c =>
      by_cases hq : home = q
      · subst hq
        rw [View.post_site_self]
        exact (asks_onCall c).1 h
      · rwa [View.post_site_of_ne _ _ hq]
  | deliver p hp =>
      by_cases hq : home = p.dst
      · rw [hq, View.post_site_self]
        exact (asks_onMsg p.body).1 (hq ▸ h)
      · rwa [View.post_site_of_ne _ _ hq]

theorem Remembered.step {past : List (Act N)} {v v' : View N} {a : Act N}
    (h : Remembered home r past v) (hv' : Routed home v') (hs : Step home noNode v a v') :
    Remembered home r (a :: past) v' where
  sent := by
    intro p hp n hdst hbody
    have haddr := hv'.packet p hp
    obtain ⟨src, dst, msg⟩ := p
    obtain rfl : dst = r := hdst
    obtain rfl : msg = .resolveResponse n := hbody
    -- Whoever sent it was the home, which then refreshes `r`.
    obtain rfl : src = home := haddr.1
    have hold : ∀ p ∈ v.net, p = ⟨src, dst, .resolveResponse n⟩ → dst ∈ (v'.site src).asks :=
      fun p hp hpe => asks_step hs (h.sent p hp n (hpe ▸ rfl) (hpe ▸ rfl))
    cases hs with
    | call q c =>
        rcases List.mem_append.mp hp with hp | hp
        · exact hold _ hp rfl
        · obtain ⟨hsrc, hout⟩ := Channel.mem_posted.mp hp
          obtain rfl : src = q := hsrc
          rw [View.post_site_self]
          exact (asks_onCall c).2 n hout
    | deliver p _ =>
        rcases List.mem_append.mp hp with hp | hp
        · exact hold _ (List.mem_of_mem_erase hp) rfl
        · obtain ⟨hsrc, hout⟩ := Channel.mem_posted.mp hp
          obtain rfl : src = p.dst := hsrc
          rw [View.post_site_self]
          exact (asks_onMsg p.body).2 n hout
  received := by
    intro src n hin
    refine asks_step hs ?_
    rcases List.mem_cons.mp hin with hnow | hpast
    · subst hnow
      cases hs with
      | deliver _ hp => exact h.sent _ hp n rfl rfl
    · exact h.received src n hpast

/-! ### The hosts, one after the other -/

/-- The host is the last rank that started to host. -/
def LastHost (past : List (Act N)) : Prop :=
  match whereabouts past with
  | .unborn => hostRanks past = []
  | .hosted h => (hostRanks past).head? = some h
  | .moving _ _ => True
  | .gone => False

omit [DecidableEq N] in
theorem lastHost_cons {past : List (Act N)} {a : Act N} (h : LastHost past)
    (ha : Enduring past a) : LastHost (a :: past) := by
  cases a with
  | deliver p => exact h
  | call q c =>
      cases c with
      | unregisterEntity => exact absurd ha.2 (by simp [Act.unregisters])
      | getLocation b => exact h
      | entityExists b => exact h
      | _ => simp [LastHost, whereabouts, Act.moves, Call.moves, hostRanks, Act.hostedAt]

/-- **Askers stay coherent.** Under FIFO delivery and with the entity never
unregistered, a rank that has received a `resolveResponse` has the home's record
cached, or none, once everything has settled. If the home learned of the hosts in
the order in which they hosted the entity, that record is the host. -/
theorem asker_coherent {ok : Runs.Guard (View N) (Act N)} {past : List (Act N)} {v : View N}
    (h : (machine home noNode).Run ok [] View.init past v)
    (hok : ∀ past v a, ok past v a → Fifo v a ∧ Enduring past a) (hr : r ≠ home)
    (hnet : v.net = []) (hmoved : ∀ src dst, whereabouts past ≠ .moving src dst)
    (hreceived : ∃ src n, .deliver ⟨src, r, .resolveResponse n⟩ ∈ past) {n : N}
    (hn : (v.site r).cached = some n) :
    (v.site home).dir = some n ∧
      (learned home past = hostRanks past → whereabouts past = .hosted n) := by
  have hstrong := h.strengthen (I := Hosting) fun _ _ hrun =>
    hosting_of_run hrun fun past v a ha => (hok past v a ha).2.1
  have hinv : (Authority home v ∧ LastHost past) ∧
      Refreshed home r past v ∧ Remembered home r past v := by
    refine invariant_of_run (I := fun past v => (Authority home v ∧ LastHost past) ∧
      Refreshed home r past v ∧ Remembered home r past v) hstrong ?_ ?_ ?_
    · refine ⟨⟨authority_init, rfl⟩, ⟨fun _ hin => ?_, fun _ => rfl⟩, ?_, ?_⟩
      · exact absurd hin (by simp [View.init, Site.blank])
      · exact fun p hp => absurd hp (by simp [View.init])
      · exact fun src n hin => absurd hin (by simp)
    · intro past v a v' hv ha hs
      obtain ⟨hfifo, hend⟩ := hok past v a ha.1
      have hhost := ha.2.hostEmigrates hend.1
      have hauth := hv.1.1.step hhost hs
      exact ⟨⟨hauth, lastHost_cons hv.1.2 hend⟩,
        hv.2.1.step hr hv.1.1 hfifo hend hhost hs, hv.2.2.step hauth.routed hs⟩
    · intro past v q hv
      refine ⟨⟨hv.1.1.forget q, hv.1.2⟩, hv.2.1.forget q, ?_, ?_⟩
      · exact fun p hp n hd hb => (View.forget_asks v q home).symm ▸ hv.2.2.sent p hp n hd hb
      · exact fun src n hin => (View.forget_asks v q home).symm ▸ hv.2.2.received src n hin
  obtain ⟨⟨-, hlast⟩, hrefreshed, hremembered⟩ := hinv
  have hset : Settled past v := ⟨hmoved, by simp [hnet]⟩
  obtain ⟨src, m, hin⟩ := hreceived
  have hdir : (v.site home).dir = some n :=
    hrefreshed.fresh hset (hremembered.received src m hin) n ((news_of_drained hnet).trans hn)
  refine ⟨hdir, fun horder => ?_⟩
  rw [hrefreshed.learned hset, horder] at hdir
  rw [LastHost] at hlast
  cases hw : whereabouts past with
  | unborn =>
      rw [hw] at hlast
      rw [show hostRanks past = [] from hlast] at hdir
      exact absurd hdir (by simp)
  | hosted q =>
      rw [hw] at hlast
      rw [Option.some.inj ((show _ = some q from hlast).symm.trans hdir)]
  | moving src dst => exact absurd hw (hmoved src dst)
  | gone =>
      rw [hw] at hlast
      exact hlast.elim

/-! ### Ranks the home does not refresh -/

/-- The location this step puts on the home's record, if it does. -/
def Act.homeWrite (home : N) : Act N → Option N
  | .call r (.entityEmigrated newNode) => if r = home then some newNode else none
  | a => a.announced home

/-- The home's record does not change behind the back of `r`: where it does change,
the home refreshes `r`, or `r` has no record and none under way. -/
def InSight (home r : N) (v : View N) (a : Act N) : Prop :=
  ∀ n ∈ a.homeWrite home, (v.site home).dir = some n ∨ r ∈ (v.site home).asks ∨
    news home r v = none

instance (v : View N) (a : Act N) : Decidable (InSight home r v a) := by
  unfold InSight
  infer_instance

/-- A rank the home does not refresh is fresh all the same. -/
def Tracked (home r : N) (v : View N) : Prop := r ∉ (v.site home).asks → Fresh home r v

theorem Tracked.step {past : List (Act N)} {v v' : View N} {a : Act N}
    (h : Tracked home r v) (hr : r ≠ home) (hv : Authority home v) (hfifo : Fifo v a)
    (ha : Enduring past a) (hhost : HostEmigrates v a) (hsight : InSight home r v a)
    (hhosts : (v.site r).hosts = false) (hs : Step home noNode v a v') : Tracked home r v' := by
  intro hout n hn
  have hchanged : ∀ m, a.homeWrite home = some m → r ∉ (v.site home).asks →
      news home r v = some n → m = n := by
    intro m hm hnot hnews
    rcases hsight m hm with hdir | hin | hnone
    · exact Option.some.inj (hdir.symm.trans (h hnot n hnews))
    · exact absurd hin hnot
    · exact absurd (hnone.symm.trans hnews) (by simp)
  cases turn_of_step hr hv hfifo hhost hs with
  | quiet hquiet hdir hasks hnews =>
      rw [hdir]
      exact h (fun hin => hout (hasks.mpr hin)) n (hnews ▸ hn)
  | lost hquiet hdir hasks hnews => exact absurd (hnews ▸ hn) (by simp)
  | answered hquiet hold hdir hasks hnews => rw [hdir, ← hnews, hn]
  | announced hann hdir hasks hnews =>
      rw [hnews, if_neg hout] at hn
      have hwrite : a.homeWrite home = a.announced home := by
        cases a with
        | deliver p => rfl
        | call q c => cases c <;> first | rfl | exact absurd hann (by simp [Act.announced])
      rw [hdir, hchanged _ (hwrite.trans hann) (fun hin => hout (hasks hin)) hn]
  | sentOff hact hdir hasks hnews =>
      subst hact
      rw [hdir, hchanged _ (if_pos rfl) (fun hin => hout (hasks.mpr hin)) (hnews ▸ hn)]
  | left hact =>
      subst hact
      exact absurd (show (v.site r).hosts = true from hhost) (by simp [hhosts])
  | dropped hact => exact absurd ha.2 (by simp [hact, Act.unregisters])

/-- **A tracked record stays coherent.** Under FIFO delivery and with the entity
never unregistered, a rank that never hosted it has the home's record cached, or
none, once everything has settled, if the home's record never changed behind its
back. -/
theorem tracked_coherent {ok : Runs.Guard (View N) (Act N)} {past : List (Act N)} {v : View N}
    (h : (machine home noNode).Run ok [] View.init past v)
    (hok : ∀ past v a, ok past v a → Fifo v a ∧ Enduring past a ∧ InSight home r v a)
    (hr : r ≠ home) (hhosted : ∀ a ∈ past, a.hostedAt ≠ some r)
    (hnet : v.net = []) (hmoved : ∀ src dst, whereabouts past ≠ .moving src dst) {n : N}
    (hn : (v.site r).cached = some n) : (v.site home).dir = some n := by
  have hlabels := h.with_labels (List.append_nil past).symm hhosted
  have hstrong := hlabels.strengthen (I := Hosting) fun _ _ hrun =>
    hosting_of_run hrun fun past v a ha => (hok past v a ha.1).2.1.1
  have hinv : (Authority home v ∧ whereabouts past ≠ .hosted r) ∧
      Refreshed home r past v ∧ Tracked home r v := by
    refine invariant_of_run (I := fun past v => (Authority home v ∧ whereabouts past ≠ .hosted r) ∧
      Refreshed home r past v ∧ Tracked home r v) hstrong ?_ ?_ ?_
    · refine ⟨⟨authority_init, by simp [whereabouts]⟩, ⟨fun _ hin => ?_, fun _ => rfl⟩, ?_⟩
      · exact absurd hin (by simp [View.init, Site.blank])
      · exact fun _ n hn => absurd hn (by simp [news, View.init, Site.blank])
    · intro past v a v' hv ha hs
      obtain ⟨hfifo, hend, hsight⟩ := hok past v a ha.1.1
      have hhost := ha.2.hostEmigrates hend.1
      have hfalse : (v.site r).hosts = false :=
        Bool.eq_false_iff.mpr fun hhosts => hv.1.2 ((ha.2 r).mp hhosts)
      refine ⟨⟨hv.1.1.step hhost hs, ?_⟩, hv.2.1.step hr hv.1.1 hfifo hend hhost hs,
        hv.2.2.step hr hv.1.1 hfifo hend hhost hsight hfalse hs⟩
      -- It does not start to host the entity now either.
      have hnot : a.hostedAt ≠ some r := ha.1.2
      cases a with
      | deliver p => exact hv.1.2
      | call q c =>
          cases c <;> simp_all [whereabouts, Act.moves, Call.moves, Act.hostedAt]
    · intro past v q hv
      refine ⟨⟨hv.1.1.forget q, hv.1.2⟩, hv.2.1.forget q, fun hout => ?_⟩
      exact (hv.2.2 (View.forget_asks v q home ▸ hout)).forget q
  obtain ⟨-, hrefreshed, htracked⟩ := hinv
  have hnews : news home r v = some n := (news_of_drained hnet).trans hn
  by_cases hin : r ∈ (v.site home).asks
  · exact hrefreshed.fresh ⟨hmoved, by simp [hnet]⟩ hin n hnews
  · exact htracked hin n hnews

/-! ### Former hosts -/

/-- The entity does not move on behind the back of `r`: nobody else sends it off
while `r` has a record of it. -/
def NotLeftBehind (r : N) (v : View N) : Act N → Prop
  | .call h (.entityEmigrated _) => h = r ∨ (v.site r).cached = none
  | _ => True

instance (v : View N) : ∀ a : Act N, Decidable (NotLeftBehind r v a)
  | .call _ (.entityEmigrated _) => inferInstanceAs (Decidable (_ ∨ _))
  | .call _ .registerEntity => .isTrue trivial
  | .call _ (.entityImmigrated _) => .isTrue trivial
  | .call _ .unregisterEntity => .isTrue trivial
  | .call _ (.getLocation _) => .isTrue trivial
  | .call _ (.entityExists _) => .isTrue trivial
  | .deliver _ => .isTrue trivial

/-- The home owes `r` nothing and sends it nothing. -/
def Unasked (r : N) : View N → Prop :=
  Everywhere (fun _ t => r ∉ t.asks ∧ r ∉ t.pendingHome)
    (fun p => p.dst = r → ∃ n, p.body = .updateHome n) fun _ => True

theorem unasked_announce {q n : N} {t : Site N} (h : r ∉ t.asks ∧ r ∉ t.pendingHome) :
    Good (fun _ t => r ∉ t.asks ∧ r ∉ t.pendingHome)
      (fun p => p.dst = r → ∃ n, p.body = .updateHome n) (fun _ => True) q (announce q n t) where
  site := ⟨fun hin => (mem_remember.mp hin).elim h.1 h.2, by simp [announce]⟩
  outbox := by
    intro m hm hdst
    obtain ⟨q', hq', rfl⟩ := List.mem_map.mp hm
    obtain rfl : q' = r := hdst
    exact ((List.mem_append.mp hq').elim h.1 h.2).elim
  answers := fun _ _ => trivial

theorem unasked_onCall {q : N} {t : Site N} (hr : r ≠ home)
    (h : r ∉ t.asks ∧ r ∉ t.pendingHome) (c : Call N) :
    Good (fun _ t => r ∉ t.asks ∧ r ∉ t.pendingHome)
      (fun p => p.dst = r → ∃ n, p.body = .updateHome n) (fun _ => True) q
      (onCall home noNode q c t) := by
  have hregister : Good (fun _ t => r ∉ t.asks ∧ r ∉ t.pendingHome)
      (fun p => p.dst = r → ∃ n, p.body = .updateHome n) (fun _ => True) q
      (register home q t) := by
    unfold register
    split
    · exact unasked_announce h
    · refine ⟨h, fun m hm _ => ?_, fun _ _ => trivial⟩
      obtain rfl := List.mem_singleton.mp hm
      exact ⟨q, rfl⟩
  have hquery : c.moves q = none → Good (fun _ t => r ∉ t.asks ∧ r ∉ t.pendingHome)
      (fun p => p.dst = r → ∃ n, p.body = .updateHome n) (fun _ => True) q
      (onCall home noNode q c t) := by
    intro hc
    obtain ⟨hsite, hout⟩ := onCall_query home noNode hc t
    refine ⟨by rwa [hsite], fun m hm hdst => ?_, fun _ _ => trivial⟩
    -- Requests go to the home, which is not `r`.
    rcases hout m hm with rfl | rfl
    · exact absurd hdst.symm hr
    · exact absurd hdst.symm hr
  cases c with
  | registerEntity => exact hregister
  | entityImmigrated src => exact hregister
  | entityEmigrated newNode =>
      exact ⟨by simpa [onCall, emigrate] using h, by simp [onCall, emigrate], fun _ _ => trivial⟩
  | unregisterEntity => exact ⟨h, by simp [onCall, unregister], fun _ _ => trivial⟩
  | getLocation b => exact hquery rfl
  | entityExists b => exact hquery rfl

theorem unasked_onMsg (noNode : N) {p : Packet N (Msg N)} {t : Site N}
    (h : r ∉ t.asks ∧ r ∉ t.pendingHome) (hp : (Act.deliver p).requester ≠ some r) :
    Good (fun _ t => r ∉ t.asks ∧ r ∉ t.pendingHome)
      (fun p => p.dst = r → ∃ n, p.body = .updateHome n) (fun _ => True) p.dst
      (onMsg noNode p.dst p.body t) := by
  obtain ⟨src, dst, msg⟩ := p
  cases msg with
  | updateHome n => exact unasked_announce h
  | locationRequest q =>
      have hq : r ≠ q := fun hrq => hp (congrArg some hrq.symm)
      rw [onMsg]
      cases hserved : t.served dst with
      | some n =>
          rw [locationRequest_of_some hserved]
          refine ⟨⟨by simp [hq, h.1], h.2⟩, fun m hm hdst => ?_, fun _ _ => trivial⟩
          obtain rfl := List.mem_singleton.mp hm
          exact absurd hdst.symm hq
      | none =>
          rw [locationRequest_of_none hserved]
          exact ⟨⟨h.1, by simp [hq, h.2]⟩, by simp, fun _ _ => trivial⟩
  | resolveResponse n =>
      exact ⟨by simpa [onMsg, resolveResponse] using h, by simp [onMsg, resolveResponse],
        fun _ _ => trivial⟩
  | existsRequest q =>
      have hq : r ≠ q := fun hrq => hp (congrArg some hrq.symm)
      rw [onMsg, existsRequest_eq]
      refine ⟨h, fun m hm hdst => ?_, fun _ _ => trivial⟩
      obtain rfl := List.mem_singleton.mp hm
      exact absurd hdst.symm hq
  | existsResponse ex n =>
      exact ⟨by cases ex <;> simpa [onMsg, existsResponse] using h,
        by simp [onMsg, existsResponse], fun _ _ => trivial⟩

theorem Unasked.step {v v' : View N} {a : Act N} (h : Unasked r v) (hr : r ≠ home)
    (ha : a.requester ≠ some r) (hs : Step home noNode v a v') : Unasked r v' := by
  refine Everywhere.step h hs (fun q c t _ ht _ => unasked_onCall hr ht c) ?_
  intro p t hact _ ht _
  subst hact
  exact unasked_onMsg noNode ht ha

/-- What the former host has cached is where the entity went. -/
def Follows (r : N) (past : List (Act N)) (v : View N) : Prop :=
  ∀ d, (v.site r).cached = some d → whereabouts past = .moving r d ∨ whereabouts past = .hosted d

theorem Follows.step {past : List (Act N)} {v v' : View N} {a : Act N} (h : Follows r past v)
    (hdir : (v.site r).dir = none) (hsent : ∀ p ∈ v.net, p.dst = r → ∃ n, p.body = .updateHome n)
    (ha : Enduring past a) (hleft : NotLeftBehind r v a) (hs : Step home noNode v a v') :
    Follows r (a :: past) v' := by
  cases hs with
  | deliver p hp =>
      have hsame :
          (((v.take p).post p.dst (onMsg noNode p.dst p.body (v.site p.dst))).site r).cached =
            (v.site r).cached := by
        by_cases hpr : r = p.dst
        · obtain ⟨n, hn⟩ := hsent p hp hpr.symm
          rw [hpr, View.post_site_self, onMsg_cached, hn]
        · rw [View.post_site_of_ne _ _ hpr]
          rfl
      intro d hd
      exact h d (hsame ▸ hd)
  | call q c =>
      have hsame : (∀ d, c ≠ .entityEmigrated d) → c ≠ .unregisterEntity →
          ((v.post q (onCall home noNode q c (v.site q))).site r).cached = (v.site r).cached := by
        intro hemi hunreg
        by_cases hq : r = q
        · subst hq
          rw [View.post_site_self, onCall_cached]
          cases c with
          | entityEmigrated d => exact absurd rfl (hemi d)
          | unregisterEntity => exact absurd rfl hunreg
          | _ => rfl
        · rw [View.post_site_of_ne _ _ hq]
      intro d hd
      cases c with
      | registerEntity =>
          rw [hsame (by simp) (by simp)] at hd
          rcases h d hd with hw | hw <;>
            exact absurd (hw.symm.trans (show _ = Whereabouts.unborn from ha.1)) (by simp)
      | entityImmigrated src =>
          rw [hsame (by simp) (by simp)] at hd
          have hmoving : whereabouts past = .moving src q := ha.1
          rcases h d hd with hw | hw
          · obtain ⟨-, rfl⟩ := Whereabouts.moving.inj (hw.symm.trans hmoving)
            exact Or.inr rfl
          · exact absurd (hw.symm.trans hmoving) (by simp)
      | entityEmigrated newNode =>
          by_cases hq : r = q
          · subst hq
            rw [View.post_site_self, onCall_cached] at hd
            simp only [hdir, Option.isSome_none, Bool.false_eq_true, if_false] at hd
            exact Or.inl (by rw [Option.some.inj hd]; rfl)
          · rw [View.post_site_of_ne _ _ hq] at hd
            rcases hleft with hself | hnone
            · exact absurd hself.symm hq
            · exact absurd (hnone.symm.trans hd) (by simp)
      | unregisterEntity => exact absurd ha.2 (by simp [Act.unregisters])
      | getLocation b =>
          rw [hsame (by simp) (by simp)] at hd
          exact h d hd
      | entityExists b =>
          rw [hsame (by simp) (by simp)] at hd
          exact h d hd

theorem Follows.forget {past : List (Act N)} {v : View N} (h : Follows r past v) (q : N) :
    Follows r past (v.forget q) := by
  intro d hd
  by_cases hq : r = q
  · subst hq
    rw [View.forget_site_self] at hd
    exact absurd hd (by simp [Site.forget])
  · rw [View.forget_site_of_ne _ hq] at hd
    exact h d hd

/-- **A former host stays coherent** if it never asks the home, updates reach the
home on time, and the entity does not move on behind its back. -/
theorem former_host_coherent {ok : Runs.Guard (View N) (Act N)} {past : List (Act N)}
    {v : View N} (h : (machine home noNode).Run ok [] View.init past v)
    (hok : ∀ past v a, ok past v a →
      Enduring past a ∧ OnTime home past v a ∧ NotLeftBehind r v a)
    (hr : r ≠ home) (hasked : ∀ a ∈ past, a.requester ≠ some r)
    (hnet : v.net = []) (hmoved : ∀ src dst, whereabouts past ≠ .moving src dst) {n : N}
    (hn : (v.site r).cached = some n) : (v.site home).dir = some n := by
  have hinv : (Routed home v ∧ Unasked r v) ∧ Follows r past v := by
    refine invariant_of_run (I := fun past v => (Routed home v ∧ Unasked r v) ∧ Follows r past v)
      (h.with_labels (List.append_nil past).symm hasked) ?_ ?_ ?_
    · refine ⟨⟨routed_init, ?_⟩, fun d hd => absurd hd (by simp [View.init, Site.blank])⟩
      exact ⟨by simp [View.init, Site.blank], by simp [View.init], by simp⟩
    · intro past v a v' hv ha hs
      obtain ⟨hend, -, hleft⟩ := hok past v a ha.1
      exact ⟨⟨hv.1.1.step hs, hv.1.2.step hr ha.2 hs⟩,
        hv.2.step ((hv.1.1.site r).dir hr) hv.1.2.packet hend hleft hs⟩
    · intro past v q hv
      exact ⟨⟨hv.1.1.forget q, Everywhere.forget hv.1.2 q fun _ ht => ht⟩, hv.2.forget q⟩
  have hlawful : ∀ past v a, ok past v a → Lawful past a ∧ OnTime home past v a :=
    fun past v a ha => ⟨(hok past v a ha).1.1, (hok past v a ha).2.1⟩
  rcases hinv.2 n hn with hw | hw
  · exact absurd hw (hmoved r n)
  · exact home_knows_host h hlawful hnet
      ((hosting_of_run h (fun past v a ha => (hlawful past v a ha).1) n).mpr hw)

end Loc.Entity
