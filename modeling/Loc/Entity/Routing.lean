import Loc.Entity.Protocol

/-!
# Loc.Entity.Routing

The ground facts about the protocol of one entity, which hold in every run
whatever the embedder does and in whatever order messages arrive.

`Everywhere` is the shape most invariants of this protocol have: a property of
every site, of every packet in flight and of every answer given. It is preserved
as soon as every activation, started on a good site by a good packet, has a good
effect (`Everywhere.step`).

`Routed` is the first instance: requests and updates travel to the home, answers
travel from it, and only the home keeps a directory and its askers.
-/

namespace Loc.Entity

open Channel (Packet posted)

variable {N : Type} [DecidableEq N] {home noNode : N}

/-! ### Invariants of sites, packets and answers -/

/-- Every site, every packet and every answer is good. -/
structure Everywhere (S : N → Site N → Prop) (P : Packet N (Msg N) → Prop)
    (A : Answer N → Prop) (v : View N) : Prop where
  site : ∀ r, S r (v.site r)
  packet : ∀ p ∈ v.net, P p
  answer : ∀ x ∈ v.answers, A x

/-- An activation on `r` leaves good things behind. -/
structure Good (S : N → Site N → Prop) (P : Packet N (Msg N) → Prop) (A : Answer N → Prop)
    (r : N) (e : Effect N) : Prop where
  site : S r e.site
  outbox : ∀ m ∈ e.outbox, P ⟨r, m.1, m.2⟩
  answers : ∀ x ∈ e.answers, A x

namespace Everywhere

variable {S : N → Site N → Prop} {P : Packet N (Msg N) → Prop} {A : Answer N → Prop}
  {v v' : View N} {a : Act N}

theorem post (h : Everywhere S P A v) {r : N} {e : Effect N} (he : Good S P A r e) :
    Everywhere S P A (v.post r e) where
  site := by
    intro r'
    by_cases hr : r' = r
    · subst hr
      simpa using he.site
    · simpa [hr] using h.site r'
  packet := by
    intro p hp
    rw [View.post_net, List.mem_append, Channel.mem_posted] at hp
    rcases hp with hp | ⟨hsrc, hp⟩
    · exact h.packet p hp
    · obtain ⟨s, d, b⟩ := p
      obtain rfl : s = r := hsrc
      exact he.outbox _ hp
  answer := by
    intro x hx
    rcases List.mem_append.mp hx with hx | hx
    · exact h.answer x hx
    · exact he.answers x hx

theorem take (h : Everywhere S P A v) (p : Packet N (Msg N)) : Everywhere S P A (v.take p) :=
  { h with packet := fun q hq => h.packet q (List.mem_of_mem_erase hq) }

/-- The step rule: good activations keep everything good. -/
theorem step (h : Everywhere S P A v) (hs : Step home noNode v a v')
    (hcall : ∀ r c t, a = .call r c → S r t → v.site r = t →
      Good S P A r (onCall home noNode r c t))
    (hmsg : ∀ p t, a = .deliver p → P p → S p.dst t → v.site p.dst = t →
      Good S P A p.dst (onMsg noNode p.dst p.body t)) : Everywhere S P A v' := by
  cases hs with
  | call r c => exact h.post (hcall r c _ rfl (h.site r) rfl)
  | deliver p hp =>
      exact (h.take p).post (hmsg p _ rfl (h.packet p hp) (h.site p.dst) rfl)

/-- Losing a cached record keeps everything good, if it keeps the site good. -/
theorem forget (h : Everywhere S P A v) (r : N) (hforget : ∀ t, S r t → S r t.forget) :
    Everywhere S P A (v.forget r) where
  site := by
    intro r'
    by_cases hr : r' = r
    · subst hr
      simpa using hforget _ (h.site r')
    · simpa [hr] using h.site r'
  packet := h.packet
  answer := h.answer

omit [DecidableEq N] in
/-- Weaker properties hold everywhere too. -/
theorem mono {S' : N → Site N → Prop} {P' : Packet N (Msg N) → Prop} {A' : Answer N → Prop}
    (h : Everywhere S P A v) (hS : ∀ r t, S r t → S' r t) (hP : ∀ p, P p → P' p)
    (hA : ∀ x, A x → A' x) : Everywhere S' P' A' v where
  site r := hS r _ (h.site r)
  packet p hp := hP p (h.packet p hp)
  answer x hx := hA x (h.answer x hx)

end Everywhere

/-! ### Routing -/

/-- The packet travels between the ranks its handler is meant for. -/
def Addressed (home : N) (p : Packet N (Msg N)) : Prop :=
  match p.body with
  | .updateHome n => p.src = n ∧ p.dst = home ∧ n ≠ home
  | .locationRequest q => p.src = q ∧ p.dst = home ∧ q ≠ home
  | .existsRequest q => p.src = q ∧ p.dst = home ∧ q ≠ home
  | .resolveResponse _ => p.src = home ∧ p.dst ≠ home
  | .existsResponse _ _ => p.src = home ∧ p.dst ≠ home

/-- Only the home keeps a directory and askers, and it is never an asker. -/
structure RoutedSite (home : N) (r : N) (t : Site N) : Prop where
  dir : r ≠ home → t.dir = none
  pendingHome : r ≠ home → t.pendingHome = []
  asks : r ≠ home → t.asks = []
  asker_ne : ∀ q ∈ t.asks, q ≠ home
  buffered_ne : ∀ q ∈ t.pendingHome, q ≠ home
  pendingExists : r = home → t.pendingExists = []

/-- The routing invariant. -/
def Routed (home : N) : View N → Prop :=
  Everywhere (RoutedSite home) (Addressed home) fun _ => True

omit [DecidableEq N] in
theorem routed_init : Routed home (View.init : View N) where
  site _ := ⟨fun _ => rfl, fun _ => rfl, fun _ => rfl, by simp [View.init, Site.blank],
    by simp [View.init, Site.blank], fun _ => rfl⟩
  packet := by simp [View.init]
  answer := by simp

omit [DecidableEq N] in
theorem RoutedSite.learn {r : N} {t : Site N} (h : RoutedSite home r t) (n : N) :
    RoutedSite home r (t.learn n) where
  dir hr := by rw [Site.learn_of_none (h.dir hr)]; exact h.dir hr
  pendingHome hr := by simpa using h.pendingHome hr
  asks hr := by simpa using h.asks hr
  asker_ne := by simpa using h.asker_ne
  buffered_ne := by simpa using h.buffered_ne
  pendingExists hr := by simpa using h.pendingExists hr

theorem routed_announce {t : Site N} (h : RoutedSite home home t) (n : N) :
    Good (RoutedSite home) (Addressed home) (fun _ => True) home (announce home n t) where
  site := by
    refine ⟨fun hr => absurd rfl hr, fun hr => absurd rfl hr, fun hr => absurd rfl hr, ?_, ?_,
      fun _ => h.pendingExists rfl⟩
    · intro q hq
      rcases mem_remember.mp hq with hq | hq
      · exact h.asker_ne q hq
      · exact h.buffered_ne q hq
    · simp [announce]
  outbox := by
    intro m hm
    obtain ⟨q, hq, rfl⟩ := List.mem_map.mp hm
    rcases List.mem_append.mp hq with hq | hq
    · exact ⟨rfl, h.asker_ne q hq⟩
    · exact ⟨rfl, h.buffered_ne q hq⟩
  answers := fun _ _ => trivial

theorem routed_register {r : N} {t : Site N} (h : RoutedSite home r t) :
    Good (RoutedSite home) (Addressed home) (fun _ => True) r (register home r t) := by
  unfold register
  split
  · next hr =>
    subst hr
    exact routed_announce (t := { t with hosts := true })
      ⟨h.dir, h.pendingHome, h.asks, h.asker_ne, h.buffered_ne, h.pendingExists⟩ _
  · next hr =>
    refine ⟨⟨h.dir, h.pendingHome, h.asks, h.asker_ne, h.buffered_ne, h.pendingExists⟩, ?_,
      fun _ _ => trivial⟩
    simpa [Addressed] using Ne.symm hr

theorem routed_onCall (noNode : N) {r : N} {t : Site N} (h : RoutedSite home r t) (c : Call N) :
    Good (RoutedSite home) (Addressed home) (fun _ => True) r (onCall home noNode r c t) := by
  cases c with
  | registerEntity => exact routed_register h
  | entityImmigrated src => exact routed_register h
  | entityEmigrated newNode =>
      refine ⟨RoutedSite.learn ?_ _, by simp [onCall, emigrate], fun _ _ => trivial⟩
      exact ⟨h.dir, h.pendingHome, h.asks, h.asker_ne, h.buffered_ne, h.pendingExists⟩
  | unregisterEntity =>
      exact ⟨⟨fun _ => rfl, h.pendingHome, h.asks, h.asker_ne, h.buffered_ne, h.pendingExists⟩,
        by simp [onCall, unregister], fun _ _ => trivial⟩
  | getLocation action =>
      rw [onCall]
      cases hres : t.resolved r with
      | some n =>
          rw [getLocation_of_some hres]
          exact ⟨h, by simp, fun _ _ => trivial⟩
      | none =>
          rw [getLocation_of_none hres]
          refine ⟨⟨h.dir, h.pendingHome, h.asks, h.asker_ne, h.buffered_ne, h.pendingExists⟩,
            ?_, fun _ _ => trivial⟩
          intro m hm
          simp only [List.mem_ite_nil_right, List.mem_singleton] at hm
          obtain ⟨⟨-, hr⟩, rfl⟩ := hm
          exact ⟨rfl, rfl, Ne.symm hr⟩
  | entityExists action =>
      rw [onCall]
      cases hres : t.resolved r with
      | some n =>
          rw [entityExists_of_some hres]
          exact ⟨h, by simp, fun _ _ => trivial⟩
      | none =>
          by_cases hr : home = r
          · subst hr
            rw [entityExists_home_of_none hres]
            exact ⟨h, by simp, fun _ _ => trivial⟩
          · rw [entityExists_of_none hr hres]
            refine ⟨⟨h.dir, h.pendingHome, h.asks, h.asker_ne, h.buffered_ne,
              fun hr' => absurd hr'.symm hr⟩, ?_, fun _ _ => trivial⟩
            intro m hm
            simp only [List.mem_ite_nil_right, List.mem_singleton] at hm
            obtain ⟨-, rfl⟩ := hm
            exact ⟨rfl, rfl, Ne.symm hr⟩

theorem routed_onMsg (noNode : N) {p : Packet N (Msg N)} {t : Site N} (hp : Addressed home p)
    (h : RoutedSite home p.dst t) :
    Good (RoutedSite home) (Addressed home) (fun _ => True) p.dst
      (onMsg noNode p.dst p.body t) := by
  obtain ⟨src, dst, msg⟩ := p
  cases msg with
  | updateHome n =>
      obtain ⟨-, rfl, -⟩ := hp
      exact routed_announce h n
  | locationRequest q =>
      obtain ⟨-, rfl, hq⟩ := hp
      rw [onMsg]
      cases hserved : t.served dst with
      | some n =>
          rw [locationRequest_of_some hserved]
          refine ⟨⟨h.dir, h.pendingHome, fun hr => absurd rfl hr, ?_, h.buffered_ne,
            h.pendingExists⟩, by simpa [Addressed] using hq, fun _ _ => trivial⟩
          intro x hx
          rcases List.mem_insert_iff.mp hx with rfl | hx
          · exact hq
          · exact h.asker_ne x hx
      | none =>
          rw [locationRequest_of_none hserved]
          refine ⟨⟨h.dir, fun hr => absurd rfl hr, h.asks, h.asker_ne, ?_, h.pendingExists⟩,
            by simp, fun _ _ => trivial⟩
          intro x hx
          rcases List.mem_append.mp hx with hx | hx
          · exact h.buffered_ne x hx
          · exact List.mem_singleton.mp hx ▸ hq
  | resolveResponse n =>
      have h' := h.learn n
      exact ⟨⟨h'.dir, h'.pendingHome, h'.asks, h'.asker_ne, h'.buffered_ne, h'.pendingExists⟩,
        by simp [onMsg, resolveResponse], fun _ _ => trivial⟩
  | existsRequest q =>
      obtain ⟨-, rfl, hq⟩ := hp
      rw [onMsg, existsRequest_eq]
      exact ⟨h, by simpa [Addressed] using hq, fun _ _ => trivial⟩
  | existsResponse ex n =>
      have h' : RoutedSite home dst (if ex then t.learn n else t) := by
        split
        · exact h.learn n
        · exact h
      exact ⟨⟨h'.dir, h'.pendingHome, h'.asks, h'.asker_ne, h'.buffered_ne, fun _ => rfl⟩,
        by simp [onMsg, existsResponse], fun _ _ => trivial⟩

omit [DecidableEq N] in
theorem RoutedSite.forget {r : N} {t : Site N} (h : RoutedSite home r t) :
    RoutedSite home r t.forget :=
  ⟨h.dir, h.pendingHome, h.asks, h.asker_ne, h.buffered_ne, h.pendingExists⟩

/-- Every step, of any kind, keeps the traffic routed. -/
theorem Routed.step {v v' : View N} {a : Act N} (h : Routed home v)
    (hs : Step home noNode v a v') : Routed home v' :=
  Everywhere.step h hs (fun _ c _ _ ht _ => routed_onCall noNode ht c)
    (fun _ _ _ hp ht _ => routed_onMsg noNode hp ht)

theorem Routed.forget {v : View N} (h : Routed home v) (r : N) : Routed home (v.forget r) :=
  Everywhere.forget h r fun _ ht => ht.forget

/-- **Routing.** In every run, under any guard, the traffic is routed. -/
theorem routed_of_run {ok : Runs.Guard (View N) (Act N)} {past₀ past : List (Act N)}
    {v₀ v : View N} (h : (machine home noNode).Run ok past₀ v₀ past v) (h₀ : Routed home v₀) :
    Routed home v :=
  invariant_of_run (I := fun _ v => Routed home v) h h₀ (fun _ _ _ _ hv _ hs => hv.step hs)
    fun _ _ r hv => hv.forget r

end Loc.Entity
