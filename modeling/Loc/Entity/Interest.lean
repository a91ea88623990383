import Mathlib.Data.List.Nodup
import Loc.Entity.Routing

/-!
# Loc.Entity.Interest

**Who hears of the entity.** A rank away from the home learns where the entity is only
because it asked, or because it sent the entity off itself.

* `interested_of_run` — behind every record, queue, request and response there is a
  call of the rank concerned.
* `askersExact_of_run` — the home's askers are exactly the ranks it has answered.
-/

namespace Loc.Entity

open Channel (Packet posted)

variable {N : Type} [DecidableEq N] {home noNode : N}

/-! ### Interest -/

/-- `r` has asked where the entity is. -/
def Asked (past : List (Act N)) (r : N) : Prop := ∃ a, .call r (.getLocation a) ∈ past

/-- `r` has asked whether the entity exists. -/
def Inquired (past : List (Act N)) (r : N) : Prop := ∃ a, .call r (.entityExists a) ∈ past

/-- `r` has sent the entity off to another rank. -/
def SentOff (past : List (Act N)) (r : N) : Prop := ∃ d, .call r (.entityEmigrated d) ∈ past

section Cons

variable {past : List (Act N)} {r : N}

omit [DecidableEq N] in
theorem Asked.cons (h : Asked past r) (x : Act N) : Asked (x :: past) r :=
  h.imp fun _ => List.mem_cons_of_mem x

omit [DecidableEq N] in
theorem Inquired.cons (h : Inquired past r) (x : Act N) : Inquired (x :: past) r :=
  h.imp fun _ => List.mem_cons_of_mem x

omit [DecidableEq N] in
theorem SentOff.cons (h : SentOff past r) (x : Act N) : SentOff (x :: past) r :=
  h.imp fun _ => List.mem_cons_of_mem x

end Cons

/-- Whoever waits at the site, is buffered or remembered there, or has a cached record
there, has a reason to. -/
structure InterestedSite (past : List (Act N)) (r : N) (t : Site N) : Prop where
  pending : t.pending ≠ [] → Asked past r
  pendingExists : t.pendingExists ≠ [] → Inquired past r
  pendingHome : ∀ q ∈ t.pendingHome, Asked past q
  asks : ∀ q ∈ t.asks, Asked past q
  cached : t.cached ≠ none → Asked past r ∨ Inquired past r ∨ SentOff past r

/-- A request comes from a rank that asked, and a response goes to one. -/
def InterestedMsg (past : List (Act N)) (p : Packet N (Msg N)) : Prop :=
  match p.body with
  | .updateHome _ => True
  | .locationRequest q => Asked past q
  | .resolveResponse _ => Asked past p.dst
  | .existsRequest q => Inquired past q
  | .existsResponse _ _ => Inquired past p.dst

/-- The interest invariant. -/
def Interested (past : List (Act N)) : View N → Prop :=
  Everywhere (InterestedSite past) (InterestedMsg past) fun _ => True

section Effects

variable {past : List (Act N)} {r : N} {t : Site N}

omit [DecidableEq N] in
theorem InterestedSite.cons (h : InterestedSite past r t) (x : Act N) :
    InterestedSite (x :: past) r t where
  pending ht := (h.pending ht).cons x
  pendingExists ht := (h.pendingExists ht).cons x
  pendingHome q hq := (h.pendingHome q hq).cons x
  asks q hq := (h.asks q hq).cons x
  cached ht := (h.cached ht).imp (·.cons x) (·.imp (·.cons x) (·.cons x))

omit [DecidableEq N] in
theorem InterestedMsg.cons {p : Packet N (Msg N)} (h : InterestedMsg past p) (x : Act N) :
    InterestedMsg (x :: past) p := by
  obtain ⟨src, dst, msg⟩ := p
  cases msg with
  | updateHome n => trivial
  | locationRequest q => exact Asked.cons h x
  | resolveResponse n => exact Asked.cons h x
  | existsRequest q => exact Inquired.cons h x
  | existsResponse ex n => exact Inquired.cons h x

omit [DecidableEq N] in
theorem Interested.cons {v : View N} (h : Interested past v) (x : Act N) :
    Interested (x :: past) v :=
  Everywhere.mono h (fun _ _ ht => ht.cons x) (fun _ hp => hp.cons x) fun _ hx => hx

/-- An announcement answers only ranks that asked. -/
theorem interested_announce (h : InterestedSite past r t) (n : N) :
    Good (InterestedSite past) (InterestedMsg past) (fun _ => True) r (announce r n t) where
  site := by
    refine ⟨fun ht => absurd rfl ht, h.pendingExists, by simp [announce], fun q hq => ?_, h.cached⟩
    rcases mem_remember.mp hq with hq | hq
    · exact h.asks q hq
    · exact h.pendingHome q hq
  outbox := by
    intro m hm
    obtain ⟨q, hq, rfl⟩ := List.mem_map.mp hm
    rcases List.mem_append.mp hq with hq | hq
    · exact h.asks q hq
    · exact h.pendingHome q hq
  answers := fun _ _ => trivial

theorem interested_register (h : InterestedSite past r t) :
    Good (InterestedSite past) (InterestedMsg past) (fun _ => True) r (register home r t) := by
  have hhosts : InterestedSite past r { t with hosts := true } :=
    ⟨h.pending, h.pendingExists, h.pendingHome, h.asks, h.cached⟩
  unfold register
  split
  · exact interested_announce hhosts r
  · exact ⟨hhosts, by simp [InterestedMsg], fun _ _ => trivial⟩

omit [DecidableEq N] in
/-- A record learned from elsewhere. -/
theorem InterestedSite.learn (h : InterestedSite past r t)
    (hr : Asked past r ∨ Inquired past r ∨ SentOff past r) (n : N) :
    InterestedSite past r (t.learn n) where
  pending ht := h.pending (by simpa using ht)
  pendingExists ht := h.pendingExists (by simpa using ht)
  pendingHome := by simpa using h.pendingHome
  asks := by simpa using h.asks
  cached _ := hr

theorem interested_onCall (h : InterestedSite past r t) {c : Call N} (hc : .call r c ∈ past) :
    Good (InterestedSite past) (InterestedMsg past) (fun _ => True) r
      (onCall home noNode r c t) := by
  cases c with
  | registerEntity => exact interested_register h
  | entityImmigrated src => exact interested_register h
  | entityEmigrated newNode =>
      refine ⟨InterestedSite.learn ?_ (Or.inr (Or.inr ⟨newNode, hc⟩)) newNode,
        by simp [onCall, emigrate], fun _ _ => trivial⟩
      exact ⟨h.pending, h.pendingExists, h.pendingHome, h.asks, h.cached⟩
  | unregisterEntity =>
      exact ⟨⟨h.pending, h.pendingExists, h.pendingHome, h.asks, fun ht => absurd rfl ht⟩,
        by simp [onCall, unregister], fun _ _ => trivial⟩
  | getLocation a =>
      have hasked : Asked past r := ⟨a, hc⟩
      rw [onCall]
      cases hres : t.resolved r with
      | some n =>
          rw [getLocation_of_some hres]
          exact ⟨h, by simp, fun _ _ => trivial⟩
      | none =>
          rw [getLocation_of_none hres]
          refine ⟨⟨fun _ => hasked, h.pendingExists, h.pendingHome, h.asks, h.cached⟩,
            fun m hm => ?_, fun _ _ => trivial⟩
          simp only [List.mem_ite_nil_right, List.mem_singleton] at hm
          rw [hm.2]
          exact hasked
  | entityExists a =>
      have hinquired : Inquired past r := ⟨a, hc⟩
      rw [onCall]
      cases hres : t.resolved r with
      | some n =>
          rw [entityExists_of_some hres]
          exact ⟨h, by simp, fun _ _ => trivial⟩
      | none =>
          by_cases hr : home = r
          · subst hr
            rw [entityExists_home_of_none hres]
            exact ⟨h, by simp, fun _ _ => trivial⟩
          · rw [entityExists_of_none hr hres]
            refine ⟨⟨h.pending, fun _ => hinquired, h.pendingHome, h.asks, h.cached⟩,
              fun m hm => ?_, fun _ _ => trivial⟩
            simp only [List.mem_ite_nil_right, List.mem_singleton] at hm
            rw [hm.2]
            exact hinquired

theorem interested_onMsg {p : Packet N (Msg N)} (hp : InterestedMsg past p)
    (h : InterestedSite past p.dst t) :
    Good (InterestedSite past) (InterestedMsg past) (fun _ => True) p.dst
      (onMsg noNode p.dst p.body t) := by
  obtain ⟨src, dst, msg⟩ := p
  cases msg with
  | updateHome n => exact interested_announce h n
  | locationRequest q =>
      rw [onMsg]
      cases hserved : t.served dst with
      | some n =>
          rw [locationRequest_of_some hserved]
          refine ⟨⟨h.pending, h.pendingExists, h.pendingHome, fun x hx => ?_, h.cached⟩,
            by simpa [InterestedMsg] using hp, fun _ _ => trivial⟩
          rcases List.mem_insert_iff.mp hx with rfl | hx
          · exact hp
          · exact h.asks x hx
      | none =>
          rw [locationRequest_of_none hserved]
          refine ⟨⟨h.pending, h.pendingExists, fun x hx => ?_, h.asks, h.cached⟩, by simp,
            fun _ _ => trivial⟩
          rcases List.mem_append.mp hx with hx | hx
          · exact h.pendingHome x hx
          · exact List.mem_singleton.mp hx ▸ hp
  | resolveResponse n =>
      have h' := h.learn (Or.inl hp) n
      exact ⟨⟨fun ht => absurd rfl ht, h'.pendingExists, h'.pendingHome, h'.asks, h'.cached⟩,
        by simp [onMsg, resolveResponse], fun _ _ => trivial⟩
  | existsRequest q =>
      rw [onMsg, existsRequest_eq]
      exact ⟨h, by simpa [InterestedMsg] using hp, fun _ _ => trivial⟩
  | existsResponse ex n =>
      have h' : InterestedSite past dst (if ex then t.learn n else t) := by
        split
        · exact h.learn (Or.inr (Or.inl hp)) n
        · exact h
      exact ⟨⟨h'.pending, fun ht => absurd rfl ht, h'.pendingHome, h'.asks, h'.cached⟩,
        by simp [onMsg, existsResponse], fun _ _ => trivial⟩

end Effects

omit [DecidableEq N] in
theorem interested_init : Interested [] (View.init : View N) where
  site _ := ⟨fun ht => absurd rfl ht, fun ht => absurd rfl ht, by simp [View.init, Site.blank],
    by simp [View.init, Site.blank], fun ht => absurd rfl ht⟩
  packet := by simp [View.init]
  answer := fun _ _ => trivial

theorem Interested.step {past : List (Act N)} {v v' : View N} {a : Act N} (h : Interested past v)
    (hs : Step home noNode v a v') : Interested (a :: past) v' :=
  Everywhere.step (h.cons a) hs
    (fun _ _ _ hact ht _ => interested_onCall ht (hact ▸ List.mem_cons_self))
    fun _ _ _ hp ht _ => interested_onMsg hp ht

theorem Interested.forget {past : List (Act N)} {v : View N} (h : Interested past v) (r : N) :
    Interested past (v.forget r) :=
  Everywhere.forget h r fun _ ht =>
    ⟨ht.pending, ht.pendingExists, ht.pendingHome, ht.asks, fun hc => absurd rfl hc⟩

/-- **Interest.** In every run, behind whatever a rank is owed, is sent or has cached
there is a call it made. -/
theorem interested_of_run {ok : Runs.Guard (View N) (Act N)} {past : List (Act N)} {v : View N}
    (h : (machine home noNode).Run ok [] View.init past v) : Interested past v :=
  invariant_of_run (I := fun past v => Interested past v) h interested_init
    (fun _ _ _ _ hv _ hs => hv.step hs) fun _ _ r hv => hv.forget r

omit [DecidableEq N] in
/-- A packet that travels to a rank other than the home has a reason to. -/
theorem Interested.packet_dst {past : List (Act N)} {v : View N} (h : Interested past v)
    (hv : Routed home v) {p : Packet N (Msg N)} (hp : p ∈ v.net) (hdst : p.dst ≠ home) :
    Asked past p.dst ∨ Inquired past p.dst := by
  have haddr := hv.packet p hp
  have hint := h.packet p hp
  obtain ⟨src, dst, msg⟩ := p
  cases msg with
  | updateHome n => exact absurd haddr.2.1 hdst
  | locationRequest q => exact absurd haddr.2.1 hdst
  | resolveResponse n => exact Or.inl hint
  | existsRequest q => exact absurd haddr.2.1 hdst
  | existsResponse ex n => exact Or.inr hint

/-- So had every packet it has received. -/
theorem delivered_dst_of_run {ok : Runs.Guard (View N) (Act N)} {past : List (Act N)} {v : View N}
    (h : (machine home noNode).Run ok [] View.init past v) {p : Packet N (Msg N)}
    (hp : .deliver p ∈ past) (hdst : p.dst ≠ home) : Asked past p.dst ∨ Inquired past p.dst := by
  refine (invariant_of_run (I := fun past v => (Routed home v ∧ Interested past v) ∧
    ∀ p, .deliver p ∈ past → p.dst ≠ home → Asked past p.dst ∨ Inquired past p.dst)
    h ?_ ?_ ?_).2 p hp hdst
  · exact ⟨⟨routed_init, interested_init⟩, by simp⟩
  · intro past v a v' hv _ hs
    refine ⟨⟨hv.1.1.step hs, hv.1.2.step hs⟩, fun p hp hdst => ?_⟩
    have hbefore : Asked past p.dst ∨ Inquired past p.dst := by
      rcases List.mem_cons.mp hp with heq | hp
      · subst heq
        exact hv.1.2.packet_dst hv.1.1 hs.mem_net hdst
      · exact hv.2 p hp hdst
    exact hbefore.imp (·.cons a) (·.cons a)
  · intro past v r hv
    exact ⟨⟨hv.1.1.forget r, hv.1.2.forget r⟩, hv.2⟩

/-! ### The ranks the home has answered -/

/-- A `resolveResponse` was sent to `r`, delivered or not. -/
def Answered (home : N) (past : List (Act N)) (v : View N) (r : N) : Prop :=
  ∃ n, .deliver ⟨home, r, .resolveResponse n⟩ ∈ past ∨ ⟨home, r, .resolveResponse n⟩ ∈ v.net

/-- The activation remembers exactly the ranks it answers, besides those remembered
before. -/
structure Remembers (t : Site N) (e : Effect N) : Prop where
  mem : ∀ q, q ∈ e.site.asks ↔ q ∈ t.asks ∨ ∃ n, (q, .resolveResponse n) ∈ e.outbox
  nodup : t.asks.Nodup → e.site.asks.Nodup

omit [DecidableEq N] in
/-- An activation that answers nobody remembers nobody new. -/
theorem remembers_silent {t : Site N} {e : Effect N} (hasks : e.site.asks = t.asks)
    (hout : ∀ m ∈ e.outbox, ∀ n, m.2 ≠ .resolveResponse n) : Remembers t e where
  mem q := by
    rw [hasks]
    exact ⟨Or.inl, fun h => h.resolve_right fun ⟨n, hn⟩ => hout _ hn n rfl⟩
  nodup h := by rwa [hasks]

theorem nodup_remember {asks answered : List N} (h : asks.Nodup) :
    (remember asks answered).Nodup := by
  induction answered generalizing asks with
  | nil => exact h
  | cons q answered ih => exact ih h.insert

theorem remembers_announce (r n : N) (t : Site N) : Remembers t (announce r n t) where
  mem q := by
    rw [announce, mem_remember]
    refine or_congr_right' fun hq => ?_
    simp [hq]
  nodup := nodup_remember

theorem remembers_register {r : N} (t : Site N) : Remembers t (register home r t) := by
  unfold register
  split
  · have h := remembers_announce r r { t with hosts := true }
    exact ⟨h.mem, h.nodup⟩
  · exact remembers_silent rfl (by simp)

theorem remembers_onCall {r : N} (c : Call N) (t : Site N) :
    Remembers t (onCall home noNode r c t) := by
  cases c with
  | registerEntity => exact remembers_register t
  | entityImmigrated src => exact remembers_register t
  | entityEmigrated newNode => exact remembers_silent (by simp [onCall, emigrate]) (by
      simp [onCall, emigrate])
  | unregisterEntity => exact remembers_silent rfl (by simp [onCall, unregister])
  | getLocation a =>
      refine remembers_silent (by rw [onCall, getLocation_site]) fun m hm n => ?_
      rcases (onCall_query home noNode (c := .getLocation a) rfl t).2 m hm with rfl | rfl <;> simp
  | entityExists a =>
      refine remembers_silent (by rw [onCall, entityExists_site]) fun m hm n => ?_
      rcases (onCall_query home noNode (c := .entityExists a) rfl t).2 m hm with rfl | rfl <;> simp

theorem remembers_onMsg {r : N} (m : Msg N) (t : Site N) : Remembers t (onMsg noNode r m t) := by
  cases m with
  | updateHome n => exact remembers_announce r n t
  | locationRequest q =>
      rw [onMsg]
      cases hserved : t.served r with
      | some n =>
          rw [locationRequest_of_some hserved]
          refine ⟨fun x => ?_, List.Nodup.insert⟩
          simp [List.mem_insert_iff, or_comm]
      | none =>
          rw [locationRequest_of_none hserved]
          exact remembers_silent rfl (by simp)
  | resolveResponse n => exact remembers_silent (by simp [onMsg, resolveResponse]) (by
      simp [onMsg, resolveResponse])
  | existsRequest q => rw [onMsg, existsRequest_eq]; exact remembers_silent rfl (by simp)
  | existsResponse ex n => exact remembers_silent (by cases ex <;> simp [onMsg, existsResponse]) (by
      simp [onMsg, existsResponse])

/-- The askers at the home are, each once, the ranks it has answered. -/
def AskersExact (home : N) (past : List (Act N)) (v : View N) : Prop :=
  (v.site home).asks.Nodup ∧ ∀ r, r ∈ (v.site home).asks ↔ Answered home past v r

theorem AskersExact.post {past past' : List (Act N)} {v w : View N} {r : N} {e : Effect N}
    (h : AskersExact home past v) (hsite : w.site = v.site) (he : Remembers (v.site r) e)
    (hkeep : ∀ q, Answered home past v q ↔ Answered home past' w q) :
    AskersExact home past' (w.post r e) := by
  have hsent : ∀ q, Answered home past' (w.post r e) q ↔
      Answered home past' w q ∨ r = home ∧ ∃ n, (q, .resolveResponse n) ∈ e.outbox := by
    intro q
    simp only [Answered, View.post_net, List.mem_append, Channel.mem_posted]
    constructor
    · rintro ⟨n, hpast | hnet | ⟨hr, hout⟩⟩
      · exact Or.inl ⟨n, Or.inl hpast⟩
      · exact Or.inl ⟨n, Or.inr hnet⟩
      · exact Or.inr ⟨hr.symm, n, hout⟩
    · rintro (⟨n, hpast | hnet⟩ | ⟨hr, n, hout⟩)
      · exact ⟨n, Or.inl hpast⟩
      · exact ⟨n, Or.inr (Or.inl hnet)⟩
      · exact ⟨n, Or.inr (Or.inr ⟨hr.symm, hout⟩)⟩
  by_cases hr : home = r
  · subst hr
    refine ⟨by simpa using he.nodup h.1, fun q => ?_⟩
    rw [View.post_site_self, he.mem, h.2, hkeep, hsent]
    simp
  · rw [AskersExact, View.post_site_of_ne _ _ hr, hsite]
    refine ⟨h.1, fun q => ?_⟩
    rw [h.2, hkeep, hsent]
    simp [Ne.symm hr]

theorem AskersExact.step {past : List (Act N)} {v v' : View N} {a : Act N}
    (h : AskersExact home past v) (hs : Step home noNode v a v') :
    AskersExact home (a :: past) v' := by
  cases hs with
  | call r c =>
      refine h.post rfl (remembers_onCall c _) fun q => ?_
      simp [Answered]
  | deliver p hp =>
      refine h.post rfl (remembers_onMsg p.body _) fun q => ?_
      -- A response counts as before while it is delivered.
      refine exists_congr fun n => ?_
      by_cases heq : (⟨home, q, .resolveResponse n⟩ : Packet N (Msg N)) = p
      · subst heq
        simp [hp]
      · rw [View.take_net, List.mem_erase_of_ne heq, List.mem_cons]
        simp [heq]

omit [DecidableEq N] in
theorem askersExact_init : AskersExact home [] (View.init : View N) := by
  simp [AskersExact, Answered, View.init, Site.blank]

theorem AskersExact.forget {past : List (Act N)} {v : View N} (h : AskersExact home past v)
    (r : N) : AskersExact home past (v.forget r) := by
  rw [AskersExact, View.forget_asks]
  exact h

/-- **The home remembers whom it has answered**, and nobody else, in every run. -/
theorem askersExact_of_run {ok : Runs.Guard (View N) (Act N)} {past : List (Act N)} {v : View N}
    (h : (machine home noNode).Run ok [] View.init past v) : AskersExact home past v :=
  invariant_of_run (I := fun past v => AskersExact home past v) h askersExact_init
    (fun _ _ _ _ hv _ hs => hv.step hs) fun _ _ r hv => hv.forget r

end Loc.Entity
