import Loc.Entity.Authority

/-!
# Loc.Entity.News

What a rank other than the home **will know** once its channel from the home has
drained: the last location in flight to it, or else the one it has cached.

`Turn` says everything a step can do to that, to the home's record and to the set
of ranks the home refreshes. The results about caches (`Loc.Entity.Refresh`) only
look at turns.
-/

namespace Loc.Entity

open Channel (Packet posted latest)

variable {N : Type} [DecidableEq N] {home noNode r : N}

/-- The location a packet brings `r` from the home. -/
def tidings (home r : N) (p : Packet N (Msg N)) : Option N :=
  if p.src = home ∧ p.dst = r then
    match p.body with
    | .resolveResponse n => some n
    | .existsResponse true n => some n
    | _ => none
  else none

/-- The location `r` will have cached once its channel from the home has drained. -/
def news (home r : N) (v : View N) : Option N :=
  latest (tidings home r) v.net (v.site r).cached

theorem tidings_ends {p q : Packet N (Msg N)} {m n : N} (hp : tidings home r p = some m)
    (hq : tidings home r q = some n) : q.src = p.src ∧ q.dst = p.dst := by
  obtain ⟨hp, -⟩ := Option.ite_none_right_eq_some.mp hp
  obtain ⟨hq, -⟩ := Option.ite_none_right_eq_some.mp hq
  exact ⟨hq.1.trans hp.1.symm, hq.2.trans hp.2.symm⟩

/-- An activation of the home supersedes what is under way to `r` with what it
sends there. -/
theorem news_post_home (v : View N) (e : Effect N) (hr : r ≠ home) :
    news home r (v.post home e) =
      ((posted home e.outbox).filterMap (tidings home r)).getLast?.or (news home r v) := by
  rw [news, View.post_net, Channel.latest_append, View.post_site_of_ne _ _ hr]
  rfl

/-- Other ranks send no tidings, so what they do matters only to their own cache. -/
theorem news_post_of_ne (v : View N) {q : N} (e : Effect N) (hq : q ≠ home) :
    news home r (v.post q e) = latest (tidings home r) v.net ((v.post q e).site r).cached := by
  rw [news, View.post_net]
  refine Channel.latest_append_of_none fun p hp => if_neg fun hends => ?_
  exact hq ((Channel.mem_posted.mp hp).1.symm.trans hends.1)

/-- What the home sends when it learns of `n`. -/
theorem tidings_announce {n : N} (t : Site N) :
    ((posted home (announce home n t).outbox).filterMap (tidings home r)).getLast? =
      if r ∈ (announce home n t).site.asks then some n else none := by
  have hread : (posted home (announce home n t).outbox).filterMap (tidings home r) =
      ((t.asks ++ t.pendingHome).filter (· = r)).map fun _ => n := by
    rw [announce, posted, List.map_map, List.filterMap_map, ← List.filterMap_eq_map,
      List.filterMap_filter]
    refine List.filterMap_congr fun q _ => ?_
    by_cases hq : q = r <;> simp [tidings, hq]
  have hmem : r ∈ (announce home n t).site.asks ↔ r ∈ t.asks ++ t.pendingHome := by
    simp [announce]
  rw [hread, if_congr hmem rfl rfl]
  split
  · next hin =>
    have hne : (t.asks ++ t.pendingHome).filter (· = r) ≠ [] :=
      List.ne_nil_of_mem (List.mem_filter.mpr ⟨hin, by simp⟩)
    rw [List.getLast?_map, List.getLast?_eq_some_getLast hne]
    rfl
  · next hout =>
    have hnil : (t.asks ++ t.pendingHome).filter (· = r) = [] := by
      rw [List.filter_eq_nil_iff]
      intro q hq hqr
      exact hout (of_decide_eq_true hqr ▸ hq)
    rw [hnil]
    rfl

/-! ### Turns -/

/-- The location the home announces in this step, if it does. -/
def Act.announced (home : N) : Act N → Option N
  | .call r .registerEntity => if r = home then some r else none
  | .call r (.entityImmigrated _) => if r = home then some r else none
  | .deliver ⟨_, _, .updateHome n⟩ => some n
  | _ => none

/-- What a step does to the home's record, to whether the home refreshes `r`, and
to the news of `r`. -/
inductive Turn (home r : N) (v : View N) (a : Act N) (v' : View N) : Prop
  /-- Nothing. -/
  | quiet : a.announced home = none → (v'.site home).dir = (v.site home).dir →
      (r ∈ (v'.site home).asks ↔ r ∈ (v.site home).asks) → news home r v' = news home r v →
      Turn home r v a v'
  /-- `r` loses its cached record. -/
  | lost : a.announced home = none → (v'.site home).dir = (v.site home).dir →
      (r ∈ (v'.site home).asks ↔ r ∈ (v.site home).asks) → news home r v' = none →
      Turn home r v a v'
  /-- The home answers `r` from its record. -/
  | answered {n : N} : a.announced home = none → (v.site home).dir = some n →
      (v'.site home).dir = some n → (r ∈ (v.site home).asks → r ∈ (v'.site home).asks) →
      news home r v' = some n → Turn home r v a v'
  /-- The home announces a location to the ranks it refreshes. -/
  | announced {n : N} : a.announced home = some n → (v'.site home).dir = some n →
      (r ∈ (v.site home).asks → r ∈ (v'.site home).asks) →
      news home r v' = (if r ∈ (v'.site home).asks then some n else news home r v) →
      Turn home r v a v'
  /-- The home sends the entity off and tells nobody. -/
  | sentOff {n : N} : a = .call home (.entityEmigrated n) → (v'.site home).dir = some n →
      (r ∈ (v'.site home).asks ↔ r ∈ (v.site home).asks) → news home r v' = news home r v →
      Turn home r v a v'
  /-- `r` sends the entity off. -/
  | left {n : N} : a = .call r (.entityEmigrated n) →
      (v'.site home).dir = (v.site home).dir →
      (r ∈ (v'.site home).asks ↔ r ∈ (v.site home).asks) → Turn home r v a v'
  /-- The home unregisters the entity. -/
  | dropped : a = .call home .unregisterEntity → Turn home r v a v'

/-- A home that announces takes this turn. `w` is `v` without the message handled. -/
theorem turn_announce {v w : View N} {a : Act N} {n : N} {t : Site N} (hr : r ≠ home)
    (ha : a.announced home = some n) (hasks : t.asks = (v.site home).asks)
    (hw : news home r w = news home r v) :
    Turn home r v a (w.post home (announce home n t)) := by
  refine .announced ha (by simp [announce]) (fun h => ?_) ?_
  · rw [View.post_site_self]
    exact mem_remember.mpr (Or.inl (hasks ▸ h))
  · rw [news_post_home _ _ hr, tidings_announce, View.post_site_self, hw]
    split <;> rfl

theorem turn_register {v : View N} {a : Act N} {q : N} (hr : r ≠ home)
    (ha : a.announced home = if q = home then some q else none) :
    Turn home r v a (v.post q (register home q (v.site q))) := by
  by_cases hq : q = home
  · subst hq
    rw [register, if_pos rfl]
    exact turn_announce hr (by rw [ha, if_pos rfl]) rfl rfl
  · rw [if_neg hq] at ha
    rw [register, if_neg (Ne.symm hq)]
    refine .quiet ha (by rw [View.post_site_of_ne _ _ (Ne.symm hq)])
      (by rw [View.post_site_of_ne _ _ (Ne.symm hq)]) ?_
    rw [news_post_of_ne _ _ hq]
    by_cases hrq : r = q
    · subst hrq
      rw [View.post_site_self]
      rfl
    · rw [View.post_site_of_ne _ _ hrq]
      rfl

/-- A query is a quiet turn. -/
theorem turn_query {v : View N} {q : N} {c : Call N} (hr : r ≠ home) (hc : c.moves q = none) :
    Turn home r v (.call q c) (v.post q (onCall home noNode q c (v.site q))) := by
  obtain ⟨hsite, hout⟩ := onCall_query home noNode hc (v.site q)
  have hrecords : ∀ r', ((v.post q (onCall home noNode q c (v.site q))).site r').dir =
      (v.site r').dir ∧ ((v.post q (onCall home noNode q c (v.site q))).site r').cached =
      (v.site r').cached ∧ ((v.post q (onCall home noNode q c (v.site q))).site r').asks =
      (v.site r').asks := by
    intro r'
    by_cases hq : r' = q
    · subst hq
      rw [View.post_site_self, hsite]
      exact ⟨rfl, rfl, rfl⟩
    · rw [View.post_site_of_ne _ _ hq]
      exact ⟨rfl, rfl, rfl⟩
  refine .quiet ?_ (hrecords home).1 (by rw [(hrecords home).2.2]) ?_
  · cases c <;> first | rfl | exact absurd hc (by simp [Call.moves])
  · rw [news, (hrecords r).2.1, View.post_net]
    refine Channel.latest_append_of_none fun p hp => if_neg fun hends => ?_
    -- A query sends its request to the home, so not to `r`.
    rcases hout _ (Channel.mem_posted.mp hp).2 with h | h
    · exact hr (hends.2.symm.trans (congrArg Prod.fst h))
    · exact hr (hends.2.symm.trans (congrArg Prod.fst h))

theorem turn_call {v : View N} {q : N} {c : Call N} (hr : r ≠ home) (hv : Authority home v)
    (ha : HostEmigrates v (.call q c)) :
    Turn home r v (.call q c) (v.post q (onCall home noNode q c (v.site q))) := by
  cases c with
  | registerEntity => exact turn_register hr rfl
  | entityImmigrated src => exact turn_register hr rfl
  | getLocation b => exact turn_query hr rfl
  | entityExists b => exact turn_query hr rfl
  | unregisterEntity =>
      by_cases hq : q = home
      · subst hq
        exact .dropped rfl
      · have hhome : (v.post q (unregister (v.site q))).site home = v.site home :=
          View.post_site_of_ne _ _ (Ne.symm hq)
        have hnews := news_post_of_ne (r := r) v (unregister (v.site q)) hq
        by_cases hrq : r = q
        · subst hrq
          rw [View.post_site_self] at hnews
          rcases Channel.latest_none_or (tidings home r) v.net (v.site r).cached
            with hnone | hsame
          · exact .lost rfl (congrArg Site.dir hhome) (by rw [onCall, hhome]) (hnews.trans hnone)
          · exact .quiet rfl (congrArg Site.dir hhome) (by rw [onCall, hhome]) (hnews.trans hsame)
        · rw [View.post_site_of_ne _ _ hrq] at hnews
          exact .quiet rfl (congrArg Site.dir hhome) (by rw [onCall, hhome]) hnews
  | entityEmigrated newNode =>
      by_cases hq : q = home
      · subst hq
        refine .sentOff rfl ?_ ?_ ?_
        · rw [View.post_site_self, onCall_dir]
          obtain ⟨n, hn⟩ := Option.isSome_iff_exists.mp ((hv.site q).known rfl ha)
          simp [hn]
        · rw [View.post_site_self]
          simp [onCall, emigrate]
        · rw [news_post_home _ _ hr]
          rfl
      · have hhome : (v.post q (emigrate newNode (v.site q))).site home = v.site home :=
          View.post_site_of_ne _ _ (Ne.symm hq)
        by_cases hrq : r = q
        · subst hrq
          exact .left rfl (congrArg Site.dir hhome) (by rw [onCall, hhome])
        · have hnews := news_post_of_ne (r := r) v (emigrate newNode (v.site q)) hq
          rw [View.post_site_of_ne _ _ hrq] at hnews
          exact .quiet rfl (congrArg Site.dir hhome) (by rw [onCall, hhome]) hnews

omit [DecidableEq N] in
/-- What the home answers is its record. -/
theorem Authority.served {v : View N} (hv : Authority home v) :
    (v.site home).served home = (v.site home).dir := by
  rw [Site.served, Site.node, (hv.site home).uncached rfl, Option.or_none]
  cases hdir : (v.site home).dir with
  | some n => rfl
  | none =>
      refine if_neg fun hhosts => ?_
      have hknown := (hv.site home).known rfl hhosts
      rw [hdir] at hknown
      exact absurd hknown (by simp)

/-- A home that sends one message from its record leaves its record alone. -/
theorem turn_reply {v w : View N} {a : Act N} {q n : N} {m : Msg N} {t : Site N} (hr : r ≠ home)
    (ha : a.announced home = none) (hw : news home r w = news home r v)
    (hdir : (v.site home).dir = some n) (htdir : t.dir = some n)
    (hmono : ∀ q', q' ∈ (v.site home).asks → q' ∈ t.asks)
    (hasks : ∀ q', q' ∈ t.asks → q' = q ∨ q' ∈ (v.site home).asks)
    (hm : tidings home q ⟨home, q, m⟩ = some n) :
    Turn home r v a (w.post home ⟨t, [(q, m)], []⟩) := by
  have hpost := news_post_home (r := r) w ⟨t, [(q, m)], []⟩ hr
  by_cases hq : r = q
  · subst hq
    refine .answered ha hdir (by rw [View.post_site_self, htdir]) (fun h => ?_) ?_
    · rw [View.post_site_self]
      exact hmono r h
    · rw [hpost, Channel.posted_cons, List.filterMap_cons_some hm]
      rfl
  · have hnot : tidings home r ⟨home, q, m⟩ = none := if_neg fun hends => hq hends.2.symm
    refine .quiet ha (by rw [View.post_site_self, htdir, hdir]) ?_ ?_
    · rw [View.post_site_self]
      exact ⟨fun h => (hasks r h).resolve_left hq, hmono r⟩
    · rw [hpost, Channel.posted_cons, List.filterMap_cons_none hnot, hw]
      rfl

/-- The home handles a packet. -/
theorem turn_deliver_home {v : View N} {p : Packet N (Msg N)} (hr : r ≠ home)
    (hv : Authority home v) (hp : p ∈ v.net) (hdst : p.dst = home) :
    Turn home r v (.deliver p)
      ((v.take p).post home (onMsg noNode home p.body (v.site home))) := by
  have haddr := hv.packet p hp
  -- The packet was not on its way to `r`.
  have htake : news home r (v.take p) = news home r v :=
    Channel.latest_erase_of_none (if_neg fun hends => hr (hends.2.symm.trans hdst))
  have hpost := fun e => news_post_home (r := r) (v.take p) e hr
  rw [htake] at hpost
  obtain ⟨src, dst, msg⟩ := p
  cases msg with
  | updateHome n => exact turn_announce hr rfl rfl htake
  | locationRequest q =>
      rw [onMsg]
      cases hdir : (v.site home).dir with
      | none =>
          rw [locationRequest_of_none (hv.served.trans hdir)]
          exact .quiet rfl (by rw [View.post_site_self]) (by rw [View.post_site_self]) (hpost _)
      | some n =>
          rw [locationRequest_of_some (hv.served.trans hdir)]
          refine turn_reply hr rfl htake hdir hdir (fun q' hq' => ?_) (fun q' hq' => ?_) ?_
          · exact List.mem_insert_of_mem hq'
          · exact List.mem_insert_iff.mp hq'
          · exact if_pos ⟨rfl, rfl⟩
  | resolveResponse n => exact absurd hdst haddr.2
  | existsRequest q =>
      rw [onMsg, existsRequest_eq, hv.served]
      cases hdir : (v.site home).dir with
      | none =>
          refine .quiet rfl (by rw [View.post_site_self]) (by rw [View.post_site_self]) ?_
          have hnot : tidings home r ⟨home, q, .existsResponse false noNode⟩ = none := by
            simp [tidings]
          rw [hpost]
          show ([(⟨home, q, .existsResponse false noNode⟩ : Packet N (Msg N))].filterMap
            (tidings home r)).getLast?.or (news home r v) = news home r v
          rw [List.filterMap_cons_none hnot]
          rfl
      | some n =>
          refine turn_reply hr rfl htake hdir hdir (fun q' hq' => hq') (fun q' hq' => Or.inr hq') ?_
          exact if_pos ⟨rfl, rfl⟩
  | existsResponse ex n => exact absurd hdst haddr.2

/-- A rank without a directory record caches the tidings it receives. -/
theorem onMsg_cached_eq (noNode : N) {p : Packet N (Msg N)} {t : Site N} (hp : Addressed home p)
    (hdst : p.dst ≠ home) (hdir : t.dir = none) :
    (onMsg noNode p.dst p.body t).site.cached = (tidings home p.dst p).or t.cached := by
  obtain ⟨src, dst, msg⟩ := p
  rw [onMsg_cached]
  cases msg with
  | updateHome n => exact absurd hp.2.1 hdst
  | locationRequest q => exact absurd hp.2.1 hdst
  | resolveResponse n => simp [tidings, hdir, show src = home from hp.1]
  | existsRequest q => exact absurd hp.2.1 hdst
  | existsResponse ex n => cases ex <;> simp [tidings, hdir, show src = home from hp.1]

/-- Another rank handles a packet. If it is `r`, FIFO delivery makes what it caches
the oldest news under way. -/
theorem turn_deliver_of_ne {v : View N} {p : Packet N (Msg N)}
    (hv : Authority home v) (hfifo : Channel.Oldest v.net p) (hdst : p.dst ≠ home) :
    Turn home r v (.deliver p)
      ((v.take p).post p.dst (onMsg noNode p.dst p.body (v.site p.dst))) := by
  have haddr := hv.packet p hfifo.mem
  have hhome : ((v.take p).post p.dst (onMsg noNode p.dst p.body (v.site p.dst))).site home =
      v.site home := View.post_site_of_ne _ _ (Ne.symm hdst)
  have hquiet : (Act.deliver p).announced home = none := by
    obtain ⟨src, dst, msg⟩ := p
    cases msg with
    | updateHome n => exact absurd haddr.2.1 hdst
    | _ => rfl
  refine .quiet hquiet (by rw [hhome]) (by rw [hhome]) ?_
  rw [news_post_of_ne _ _ hdst]
  by_cases hpr : r = p.dst
  · subst hpr
    have hcached := onMsg_cached_eq noNode haddr hdst
      ((hv.site p.dst).routed.dir hdst)
    rw [View.post_site_self, hcached, View.take_net, news]
    cases htid : tidings home p.dst p with
    | none => exact Channel.latest_erase_of_none htid
    | some n => exact hfifo.latest_erase (fun q _ b hq => tidings_ends htid hq) htid
  · rw [View.post_site_of_ne _ _ hpr]
    exact Channel.latest_erase_of_none (if_neg fun hends => hpr hends.2.symm)

/-- **Every step is a turn**, under FIFO delivery and as long as only hosts emigrate
the entity. -/
theorem turn_of_step {v v' : View N} {a : Act N} (hr : r ≠ home) (hv : Authority home v)
    (hfifo : Fifo v a) (ha : HostEmigrates v a) (hs : Step home noNode v a v') :
    Turn home r v a v' := by
  cases hs with
  | call q c => exact turn_call hr hv ha
  | deliver p hp =>
      by_cases hdst : p.dst = home
      · rw [hdst]
        exact turn_deliver_home hr hv hp hdst
      · exact turn_deliver_of_ne hv hfifo hdst

/-- Losing a cached record leaves the news alone or leaves none. -/
theorem news_forget (home r : N) (v : View N) (q : N) :
    news home r (v.forget q) = none ∨ news home r (v.forget q) = news home r v := by
  rw [news, news, View.forget_net]
  by_cases hq : r = q
  · subst hq
    rw [View.forget_site_self]
    exact Channel.latest_none_or ..
  · rw [View.forget_site_of_ne _ hq]
    exact Or.inr rfl

/-- With nothing in flight the news is what is cached. -/
theorem news_of_drained {v : View N} (h : v.net = []) :
    news home r v = (v.site r).cached := by
  rw [news, h]
  rfl

end Loc.Entity
