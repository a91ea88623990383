import Mathlib.Data.List.Infix
import Loc.Entity.Ledger
import Loc.Entity.News
import Loc.Lib.Timeline

/-!
# Loc.Entity.Reads

**A rank never reads backwards.** Whatever a rank that does not host the entity answers
its callbacks, the home recorded at some moment of the run, and later answers were
recorded at later moments.

The moments are the histories the run has gone through, and the home's record at each
of them is a function of the history alone (`homeRecord`). The invariant (`Trail`) is
about more than the answers: what the rank has answered, what it has cached and what is
on its way to it, in this order, follows the home's record.
-/

namespace Loc.Entity

open Channel (Packet posted)
open Timeline (Follows)

variable {N : Type} [DecidableEq N] {home noNode r : N}

/-! ### The home's record as a function of the history -/

/-- Who hosts the entity and what the directories say after a history (newest event
first). -/
def ledgerOf (home : N) (past : List (Act N)) : Ledger N :=
  past.foldr (fun a g => g.next home a) (View.init : View N).ledger

/-- The node of the home's record after a history. -/
def homeRecord (home : N) (past : List (Act N)) : Option N := (ledgerOf home past).dir home

/-- What the history says is what the ranks have recorded, in every run. -/
theorem ledger_eq_of_run {ok : Runs.Guard (View N) (Act N)} {past : List (Act N)} {v : View N}
    (h : (machine home noNode).Run ok [] View.init past v) : v.ledger = ledgerOf home past := by
  induction h with
  | refl => rfl
  | @step past v v' a hrun _ hs ih =>
      rw [ledger_step (routed_of_run hrun routed_init) hs, ih]
      rfl
  | silent _ hs ih =>
      obtain ⟨q, rfl⟩ := hs
      rw [ledger_forget, ih]

/-! ### What a rank reads -/

/-- The location `r` is told by an answer, if it is told one. -/
def read (r : N) : Answer N → Option N
  | .located r' _ n => if r' = r then some n else none
  | .existence r' _ true n => if r' = r then some n else none
  | .existence _ _ false _ => none

/-- The event has `r` host the entity, or send it off. -/
def Act.hostsOn (r : N) : Act N → Bool
  | .call r' .registerEntity | .call r' (.entityImmigrated _) | .call r' (.entityEmigrated _) =>
      r' = r
  | _ => false

/-- What `r` has answered, then what it has cached, then what is on its way to it. -/
def trail (home r : N) (v : View N) : List N :=
  v.answers.filterMap (read r) ++
    ((v.site r).cached.toList ++ v.net.filterMap (tidings home r))

/-- The trail of `r` follows the home's record. -/
def Trail (home r : N) (past : List (Act N)) (v : View N) : Prop :=
  Follows (· <:+ ·) (homeRecord home) past (trail home r v)

/-! ### Other ranks leave no trail -/

/-- Callbacks flushed on another rank. -/
theorem read_located_of_ne {q n : N} (hq : q ≠ r) (l : List NodeAction) :
    (l.map fun a => Answer.located q a n).filterMap (read r) = [] := by
  simp [List.filterMap_map, List.filterMap_eq_nil_iff, read, hq]

theorem read_existence_of_ne {q n : N} {ex : Bool} (hq : q ≠ r) (l : List ExistsAction) :
    (l.map fun a => Answer.existence q a ex n).filterMap (read r) = [] := by
  cases ex <;> simp [List.filterMap_map, List.filterMap_eq_nil_iff, read, hq]

theorem read_onCall_of_ne {q : N} (hq : q ≠ r) (c : Call N) (t : Site N) :
    (onCall home noNode q c t).answers.filterMap (read r) = [] := by
  have hregister : (register home q t).answers.filterMap (read r) = [] := by
    unfold register
    split
    · exact read_located_of_ne hq _
    · rfl
  cases c with
  | registerEntity => exact hregister
  | entityImmigrated src => exact hregister
  | entityEmigrated newNode => rfl
  | unregisterEntity => rfl
  | getLocation a =>
      rw [onCall]
      cases hres : t.resolved q with
      | some n => rw [getLocation_of_some hres]; exact read_located_of_ne hq [a]
      | none => rw [getLocation_of_none hres]; rfl
  | entityExists a =>
      rw [onCall]
      cases hres : t.resolved q with
      | some n => rw [entityExists_of_some hres]; exact read_existence_of_ne hq [a]
      | none =>
          by_cases hhome : home = q
          · subst hhome
            rw [entityExists_home_of_none hres]
            exact read_existence_of_ne hq [a]
          · rw [entityExists_of_none hhome hres]
            rfl

theorem read_onMsg_of_ne {q : N} (hq : q ≠ r) (m : Msg N) (t : Site N) :
    (onMsg noNode q m t).answers.filterMap (read r) = [] := by
  cases m with
  | updateHome n => exact read_located_of_ne hq _
  | locationRequest q' =>
      rw [onMsg]
      cases hserved : t.served q with
      | some n => rw [locationRequest_of_some hserved]; rfl
      | none => rw [locationRequest_of_none hserved]; rfl
  | resolveResponse n => exact read_located_of_ne hq _
  | existsRequest q' => rw [onMsg, existsRequest_eq]; rfl
  | existsResponse ex n => exact read_existence_of_ne hq _

theorem posted_tidings_of_ne {q : N} (hq : q ≠ home) (outbox : List (N × Msg N)) :
    (posted q outbox).filterMap (tidings home r) = [] := by
  rw [List.filterMap_eq_nil_iff]
  intro p hp
  exact if_neg fun hends => hq ((Channel.mem_posted.mp hp).1.symm.trans hends.1)

/-! ### The home sends its record -/

/-- What the home tells anyone is its record. -/
theorem tidings_announce_eq {n b : N} {p : Packet N (Msg N)} (t : Site N)
    (hp : p ∈ posted home (announce home n t).outbox) (hb : tidings home r p = some b) :
    (announce home n t).site.dir = some b := by
  obtain ⟨q, -, hm⟩ := List.mem_map.mp (Channel.mem_posted.mp hp).2
  obtain ⟨-, hb⟩ := Option.ite_none_right_eq_some.mp hb
  rw [← (Prod.mk.inj hm).2] at hb
  exact hb

theorem tidings_onCall {b : N} {p : Packet N (Msg N)} {c : Call N} {t : Site N}
    (hp : p ∈ posted home (onCall home noNode home c t).outbox)
    (hb : tidings home r p = some b) : (onCall home noNode home c t).site.dir = some b := by
  have hregister : p ∈ posted home (register home home t).outbox →
      (register home home t).site.dir = some b := by
    intro hp
    rw [register, if_pos rfl] at hp ⊢
    exact tidings_announce_eq _ hp hb
  -- A query sends only its request.
  have hquery : c.moves home = none → (onCall home noNode home c t).site.dir = some b := by
    intro hc
    obtain ⟨-, hb⟩ := Option.ite_none_right_eq_some.mp hb
    rcases (onCall_query home noNode hc t).2 _ (Channel.mem_posted.mp hp).2 with hm | hm
    · rw [(Prod.mk.inj hm).2] at hb
      exact absurd hb (by simp)
    · rw [(Prod.mk.inj hm).2] at hb
      exact absurd hb (by simp)
  cases c with
  | registerEntity => exact hregister hp
  | entityImmigrated src => exact hregister hp
  | entityEmigrated newNode => exact absurd hp (by simp [onCall, emigrate])
  | unregisterEntity => exact absurd hp (by simp [onCall, unregister])
  | getLocation a => exact hquery rfl
  | entityExists a => exact hquery rfl

theorem tidings_onMsg {b : N} {p q : Packet N (Msg N)} {t : Site N}
    (hserved : t.served home = t.dir)
    (hp : p ∈ posted home (onMsg noNode home q.body t).outbox)
    (hb : tidings home r p = some b) : (onMsg noNode home q.body t).site.dir = some b := by
  have hpm := (Channel.mem_posted.mp hp).2
  cases hq : q.body with
  | updateHome n =>
      rw [hq] at hp
      exact tidings_announce_eq t hp hb
  | locationRequest q' =>
      rw [hq, onMsg] at hpm
      rw [onMsg, locationRequest_site]
      obtain ⟨-, hb⟩ := Option.ite_none_right_eq_some.mp hb
      cases hdir : t.dir with
      | none =>
          rw [locationRequest_of_none (hserved.trans hdir)] at hpm
          exact absurd hpm (by simp)
      | some n =>
          rw [locationRequest_of_some (hserved.trans hdir)] at hpm
          rw [(Prod.mk.inj (List.mem_singleton.mp hpm)).2] at hb
          exact hb
  | resolveResponse n => rw [hq] at hpm; exact absurd hpm (by simp [onMsg, resolveResponse])
  | existsRequest q' =>
      rw [hq, onMsg, existsRequest_eq, hserved] at hpm
      rw [onMsg, existsRequest_eq]
      obtain ⟨-, hb⟩ := Option.ite_none_right_eq_some.mp hb
      rw [(Prod.mk.inj (List.mem_singleton.mp hpm)).2] at hb
      cases hdir : t.dir with
      | none => rw [hdir] at hb; exact absurd hb (by simp)
      | some n => rw [hdir] at hb; exact hb
  | existsResponse ex n => rw [hq] at hpm; exact absurd hpm (by simp [onMsg, existsResponse])

/-! ### One step -/

theorem trail_post_of_ne {v : View N} {q : N} {e : Effect N} (hq : q ≠ r)
    (hread : e.answers.filterMap (read r) = []) : trail home r (v.post q e) =
      trail home r v ++ (posted q e.outbox).filterMap (tidings home r) := by
  rw [trail, trail, View.post_answers, View.post_net, View.post_site_of_ne _ _ (Ne.symm hq),
    List.filterMap_append, List.filterMap_append, hread, List.append_nil]
  simp only [List.append_assoc]

theorem trail_post_self {v : View N} {e : Effect N} (hr : r ≠ home) :
    trail home r (v.post r e) = v.answers.filterMap (read r) ++ (e.answers.filterMap (read r) ++
      (e.site.cached.toList ++ v.net.filterMap (tidings home r))) := by
  rw [trail, View.post_answers, View.post_net, View.post_site_self, List.filterMap_append,
    List.filterMap_append, posted_tidings_of_ne hr, List.append_nil, List.append_assoc]

/-- An activation on another rank adds at most what the home sends. -/
theorem Trail.elsewhere {past : List (Act N)} {v : View N} {a : Act N} {q : N} {e : Effect N}
    (h : Trail home r past v) (hq : q ≠ r) (hread : e.answers.filterMap (read r) = [])
    (hsent : q = home → ∀ p ∈ posted home e.outbox, ∀ b, tidings home r p = some b →
      homeRecord home (a :: past) = some b) : Trail home r (a :: past) (v.post q e) := by
  have hlater := h.later (List.suffix_cons a past)
  rw [Trail, trail_post_of_ne hq hread]
  by_cases hhome : q = home
  · refine hlater.append fun b hb => ?_
    obtain ⟨p, hp, hb⟩ := List.mem_filterMap.mp hb
    exact hsent hhome p (hhome ▸ hp) b hb
  · rw [posted_tidings_of_ne hhome, List.append_nil]
    exact hlater

omit [DecidableEq N] in
/-- What a rank without a registration or a directory record finds is cached. -/
theorem cached_of_resolved {t : Site N} {n : N} (hhosts : t.hosts = false) (hdir : t.dir = none)
    (h : t.resolved r = some n) : t.cached = some n := by
  rw [Site.resolved, if_neg (by simp [hhosts]), Site.node, hdir, Option.none_or] at h
  exact h

/-- `r` itself runs a public operation. -/
theorem Trail.call_self {past : List (Act N)} {v : View N} {c : Call N} (h : Trail home r past v)
    (hr : r ≠ home) (hv : Routed home v) (hhosts : (v.site r).hosts = false)
    (haway : (Act.call r c).hostsOn r = false) :
    Trail home r (.call r c :: past) (v.post r (onCall home noNode r c (v.site r))) := by
  have hlater : Follows (· <:+ ·) (homeRecord home) (.call r c :: past) (trail home r v) :=
    h.later (List.suffix_cons _ past)
  have hdir := (hv.site r).dir hr
  rw [Trail, trail_post_self hr]
  cases c with
  | registerEntity => exact absurd haway (by simp [Act.hostsOn])
  | entityImmigrated src => exact absurd haway (by simp [Act.hostsOn])
  | entityEmigrated newNode => exact absurd haway (by simp [Act.hostsOn])
  | unregisterEntity =>
      refine hlater.sublist ((List.Sublist.refl _).append ?_)
      exact List.sublist_append_right ..
  | getLocation a =>
      rw [onCall]
      cases hres : (v.site r).resolved r with
      | some n =>
          have hcached := cached_of_resolved hhosts hdir hres
          rw [trail, hcached] at hlater
          rw [getLocation_of_some hres, hcached]
          simpa [read] using hlater.again
      | none =>
          rw [getLocation_of_none hres]
          exact hlater
  | entityExists a =>
      rw [onCall]
      cases hres : (v.site r).resolved r with
      | some n =>
          have hcached := cached_of_resolved hhosts hdir hres
          rw [trail, hcached] at hlater
          rw [entityExists_of_some hres, hcached]
          simpa [read] using hlater.again
      | none =>
          rw [entityExists_of_none (Ne.symm hr) hres]
          exact hlater

/-- What `r` is told is passed on to the waiters and cached. By FIFO delivery it is the
oldest on its way to `r`. -/
theorem Trail.told {past : List (Act N)} {v : View N} {p : Packet N (Msg N)} {e : Effect N}
    {k : Nat} {n : N} (h : Trail home r past v) (hr : r ≠ home)
    (hfifo : Channel.Oldest v.net p) (htid : tidings home r p = some n)
    (hread : e.answers.filterMap (read r) = List.replicate k n) (hcached : e.site.cached = some n) :
    Trail home r (.deliver p :: past) ((v.take p).post r e) := by
  have hlater : Follows (· <:+ ·) (homeRecord home) (.deliver p :: past) (trail home r v) :=
    h.later (List.suffix_cons _ past)
  have hfront : v.net.filterMap (tidings home r) =
      n :: (v.net.erase p).filterMap (tidings home r) := by
    rw [hfifo.filterMap_erase fun q _ b hq => tidings_ends htid hq, htid]
    rfl
  rw [Trail, trail_post_self hr, hread, hcached]
  refine Follows.repeated (hlater.sublist ?_) k
  rw [trail, hfront]
  exact (List.Sublist.refl _).append (List.sublist_append_right ..)

/-- `r` itself receives a message. -/
theorem Trail.deliver_self {past : List (Act N)} {v : View N} {p : Packet N (Msg N)}
    (h : Trail home r past v) (hr : r ≠ home) (hv : Routed home v)
    (hfifo : Channel.Oldest v.net p) (hdst : p.dst = r) :
    Trail home r (.deliver p :: past)
      ((v.take p).post r (onMsg noNode r p.body (v.site r))) := by
  have haddr := hv.packet p hfifo.mem
  have hdir := (hv.site r).dir hr
  obtain ⟨src, dst, msg⟩ := p
  obtain rfl : dst = r := hdst
  cases msg with
  | updateHome n => exact absurd haddr.2.1 hr
  | locationRequest q => exact absurd haddr.2.1 hr
  | existsRequest q => exact absurd haddr.2.1 hr
  | resolveResponse n =>
      have hread : ((v.site dst).pending.map fun a => Answer.located dst a n).filterMap
          (read dst) = List.replicate (v.site dst).pending.length n := by
        simp [List.filterMap_map, read, Function.comp_def]
      exact h.told hr hfifo (if_pos ⟨haddr.1, rfl⟩) hread (by rw [onMsg_cached, hdir]; rfl)
  | existsResponse ex n =>
      cases ex with
      | false =>
          -- A denial leaves no trail.
          have htid : tidings home dst ⟨src, dst, .existsResponse false n⟩ = none := by
            simp [tidings]
          have hread : ((v.site dst).pendingExists.map fun a =>
              Answer.existence dst a false n).filterMap (read dst) = [] := by
            simp [List.filterMap_map, read, Function.comp_def]
          rw [Trail, trail_post_self hr, View.take_net, Channel.filterMap_erase_of_none htid,
            onMsg, existsResponse, hread]
          exact h.later (List.suffix_cons _ past)
      | true =>
          have hread : ((v.site dst).pendingExists.map fun a =>
              Answer.existence dst a true n).filterMap (read dst) =
              List.replicate (v.site dst).pendingExists.length n := by
            simp [List.filterMap_map, read, Function.comp_def]
          exact h.told hr hfifo (if_pos ⟨haddr.1, rfl⟩) hread (by rw [onMsg_cached, hdir]; rfl)

/-- **One step.** -/
theorem Trail.step {past : List (Act N)} {v v' : View N} {a : Act N} (h : Trail home r past v)
    (hr : r ≠ home) (hv : Authority home v) (hhosts : (v.site r).hosts = false)
    (hrec : (v'.site home).dir = homeRecord home (a :: past)) (hfifo : Fifo v a)
    (haway : a.hostsOn r = false) (hs : Step home noNode v a v') : Trail home r (a :: past) v' := by
  cases hs with
  | call q c =>
      by_cases hq : q = r
      · subst hq
        exact h.call_self hr hv.routed hhosts haway
      · refine h.elsewhere hq (read_onCall_of_ne hq c _) fun hhome p hp b hb => ?_
        subst hhome
        rw [← hrec, View.post_site_self]
        exact tidings_onCall hp hb
  | deliver p hp =>
      by_cases hq : p.dst = r
      · subst hq
        exact h.deliver_self hr hv.routed hfifo rfl
      · have htake : Trail home r past (v.take p) := by
          have hnone : tidings home r p = none := if_neg fun hends => hq hends.2
          rw [Trail, trail, View.take_net, Channel.filterMap_erase_of_none hnone]
          exact h
        refine htake.elsewhere hq (read_onMsg_of_ne hq _ _) fun hhome q hq b hb => ?_
        rw [hhome] at hrec hq
        rw [← hrec, View.post_site_self]
        exact tidings_onMsg hv.served hq hb

/-- A rank that does not host the entity goes on not hosting it. -/
theorem hosts_step {v v' : View N} {a : Act N} (h : (v.site r).hosts = false)
    (haway : a.hostsOn r = false) (hs : Step home noNode v a v') :
    (v'.site r).hosts = false := by
  cases hs with
  | call q c =>
      by_cases hq : r = q
      · subst hq
        rw [View.post_site_self, onCall_hosts]
        cases c with
        | registerEntity => exact absurd haway (by simp [Act.hostsOn])
        | entityImmigrated src => exact absurd haway (by simp [Act.hostsOn])
        | entityEmigrated newNode => rfl
        | unregisterEntity => rfl
        | getLocation b => exact h
        | entityExists b => exact h
      · rwa [View.post_site_of_ne _ _ hq]
  | deliver p hp =>
      by_cases hq : r = p.dst
      · rw [hq, View.post_site_self, onMsg_hosts, ← hq]
        exact h
      · rwa [View.post_site_of_ne _ _ hq]

theorem Trail.forget {past : List (Act N)} {v : View N} (h : Trail home r past v) (q : N) :
    Trail home r past (v.forget q) := by
  refine Follows.sublist h ((List.Sublist.refl _).append (.append ?_ (.refl _)))
  rcases v.forget_cached q r with hlost | hkept
  · rw [hlost]
    exact List.nil_sublist _
  · rw [hkept]

/-- **Monotonic reads**, in every run under FIFO delivery in which only hosts emigrate
the entity and `r` neither hosts it nor sends it off. -/
theorem trail_of_run {ok : Runs.Guard (View N) (Act N)} {past : List (Act N)} {v : View N}
    (h : (machine home noNode).Run ok [] View.init past v) (hr : r ≠ home)
    (hfifo : ∀ past v a, ok past v a → Fifo v a)
    (hhost : ∀ past v a, ok past v a → HostEmigrates v a)
    (haway : ∀ a ∈ past, a.hostsOn r = false) : Trail home r past v := by
  suffices hboth : (v.site r).hosts = false ∧ Trail home r past v from hboth.2
  induction h with
  | refl => exact ⟨rfl, .nil⟩
  | @step past v v' a hrun hok hs ih =>
      obtain ⟨hhosts, htrail⟩ := ih fun b hb => haway b (List.mem_cons_of_mem _ hb)
      have ha := haway a List.mem_cons_self
      have hv := authority_of_run hrun hhost authority_init
      refine ⟨hosts_step hhosts ha hs, htrail.step hr hv hhosts ?_ (hfifo _ _ _ hok) ha hs⟩
      exact congrFun (congrArg Ledger.dir (ledger_eq_of_run (.step hrun hok hs))) home
  | @silent past v v' hrun hs ih =>
      obtain ⟨q, rfl⟩ := hs
      obtain ⟨hhosts, htrail⟩ := ih haway
      exact ⟨(View.forget_hosts v q r).trans hhosts, htrail.forget q⟩

end Loc.Entity
