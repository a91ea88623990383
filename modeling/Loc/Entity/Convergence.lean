import Loc.Entity.Authority

/-!
# Loc.Entity.Convergence

**The home learns where the entity is**, provided no update overtakes a later one.

When the embedder plays by the rules, the entity is hosted by the rank its history
says and by no other (`Hosting`). Its host announces itself to the home, and the
announcement is either processed or in flight; what can go wrong is that an update
from an earlier host arrives after it. `OnTime` excludes that, `Undisturbed` only
where the home itself is the host, and each is enough for what it says:

* `home_knows_host` — with nothing in flight, the home has the host on record.
* `KnowsItself.step` — a home that hosts the entity has itself on record.
-/

namespace Loc.Entity

open Channel (Packet posted)

variable {N : Type} [DecidableEq N] {home noNode : N}

/-! ### Hosting -/

/-- The entity is registered at the rank its history says, and nowhere else. -/
def Hosting (past : List (Act N)) (v : View N) : Prop :=
  ∀ r, (v.site r).hosts = true ↔ whereabouts past = .hosted r

theorem Hosting.step {past : List (Act N)} {v v' : View N} {a : Act N} (h : Hosting past v)
    (ha : Lawful past a) (hs : Step home noNode v a v') : Hosting (a :: past) v' := by
  intro q
  cases hs with
  | call r c =>
      by_cases hq : q = r
      · subst hq
        rw [View.post_site_self, onCall_hosts]
        cases c with
        | getLocation b => exact h q
        | entityExists b => exact h q
        | _ => simp [whereabouts, Act.moves, Call.moves]
      · rw [View.post_site_of_ne _ _ hq, h q]
        -- Before any of these calls the entity was not at `q`.
        cases c with
        | registerEntity =>
            rw [show whereabouts past = .unborn from ha]
            simp [whereabouts, Act.moves, Call.moves, Ne.symm hq]
        | entityImmigrated src =>
            rw [show whereabouts past = .moving src r from ha]
            simp [whereabouts, Act.moves, Call.moves, Ne.symm hq]
        | entityEmigrated newNode =>
            rw [show whereabouts past = .hosted r from ha.1]
            simp [whereabouts, Act.moves, Call.moves, Ne.symm hq]
        | unregisterEntity =>
            rw [show whereabouts past = .hosted r from ha]
            simp [whereabouts, Act.moves, Call.moves, Ne.symm hq]
        | getLocation b => rfl
        | entityExists b => rfl
  | deliver p hp =>
      by_cases hq : q = p.dst
      · subst hq
        rw [View.post_site_self, onMsg_hosts]
        exact h _
      · rw [View.post_site_of_ne _ _ hq]
        exact h q

/-- **One host at a time**, in every lawful run. -/
theorem hosting_of_run {ok : Runs.Guard (View N) (Act N)} {past : List (Act N)} {v : View N}
    (h : (machine home noNode).Run ok [] View.init past v)
    (hok : ∀ past v a, ok past v a → Lawful past a) : Hosting past v := by
  refine invariant_of_run (I := Hosting) h ?_ ?_ ?_
  · intro r
    simp [View.init, Site.blank, whereabouts]
  · intro past v a v' hv ha hs
    exact hv.step (hok past v a ha) hs
  · intro past v r hv q
    rw [View.forget_hosts]
    exact hv q

omit [DecidableEq N] in
/-- A lawful emigration is announced by the host. -/
theorem Hosting.hostEmigrates {past : List (Act N)} {v : View N} {a : Act N}
    (h : Hosting past v) (ha : Lawful past a) : HostEmigrates v a := by
  cases a with
  | deliver p => trivial
  | call r c =>
      cases c with
      | entityEmigrated newNode => exact (h r).mpr ha.1
      | _ => trivial

/-! ### The home's record of the host -/

/-- No update reaches the home after that of the current host: a stale one is
delivered only while the host's own is still in flight. -/
def OnTime (home : N) (past : List (Act N)) (v : View N) : Act N → Prop
  | .deliver ⟨_, _, .updateHome n⟩ => match whereabouts past with
      | .hosted h => n = h ∨ ⟨h, home, .updateHome h⟩ ∈ v.net
      | _ => True
  | _ => True

instance (past : List (Act N)) (v : View N) : ∀ a : Act N, Decidable (OnTime home past v a)
  | .deliver ⟨_, _, .updateHome n⟩ => by
      unfold OnTime
      cases whereabouts past <;> infer_instance
  | .deliver ⟨_, _, .locationRequest _⟩ => .isTrue trivial
  | .deliver ⟨_, _, .resolveResponse _⟩ => .isTrue trivial
  | .deliver ⟨_, _, .existsRequest _⟩ => .isTrue trivial
  | .deliver ⟨_, _, .existsResponse _ _⟩ => .isTrue trivial
  | .call _ _ => .isTrue trivial

/-- The home has the host on record, or the host's update is on its way. -/
def Announced (home : N) (past : List (Act N)) (v : View N) : Prop :=
  ∀ h, whereabouts past = .hosted h →
    (v.site home).dir = some h ∨ ⟨h, home, .updateHome h⟩ ∈ v.net

/-- A rank that takes the entity in makes itself known to the home. -/
theorem announced_register {past : List (Act N)} {v : View N} {r : N}
    (hpast : whereabouts past = .hosted r) :
    Announced home past (v.post r (register home r (v.site r))) := by
  intro h hh
  rw [hpast] at hh
  obtain rfl := Whereabouts.hosted.inj hh
  by_cases hr : home = r
  · subst hr
    exact Or.inl (by simp [register, announce])
  · exact Or.inr (by simp [register, hr])

theorem Announced.step {past : List (Act N)} {v v' : View N} {a : Act N}
    (h : Announced home past v) (hv : Routed home v) (ha : OnTime home past v a)
    (hs : Step home noNode v a v') : Announced home (a :: past) v' := by
  cases hs with
  | call r c =>
      have hquery : c.moves r = none → Announced home (.call r c :: past)
          (v.post r (onCall home noNode r c (v.site r))) := by
        intro hc q hq
        rcases h q (by simpa [whereabouts, Act.moves, hc] using hq) with hdir | hnet
        · refine Or.inl ?_
          by_cases hr : home = r
          · subst hr
            rwa [View.post_site_self, (onCall_query home noNode hc _).1]
          · rwa [View.post_site_of_ne _ _ hr]
        · exact Or.inr (List.mem_append_left _ hnet)
      cases c with
      | registerEntity => exact announced_register rfl
      | entityImmigrated src => exact announced_register rfl
      | entityEmigrated newNode =>
          intro q hq
          simp [whereabouts, Act.moves, Call.moves] at hq
      | unregisterEntity =>
          intro q hq
          simp [whereabouts, Act.moves, Call.moves] at hq
      | getLocation b => exact hquery rfl
      | entityExists b => exact hquery rfl
  | deliver p hp =>
      intro q hq
      have haddr := hv.packet p hp
      by_cases hpq : p = ⟨q, home, .updateHome q⟩
      · subst hpq
        exact Or.inl (by rw [View.post_site_self, onMsg_dir])
      rcases h q hq with hdir | hnet
      · by_cases hr : home = p.dst
        · obtain ⟨src, dst, msg⟩ := p
          obtain rfl : home = dst := hr
          rw [View.post_site_self, onMsg_dir]
          cases msg with
          | updateHome n =>
              -- Somebody else's update: the host's own must still be in flight.
              have hlate : n = q ∨ ⟨q, home, .updateHome q⟩ ∈ v.net := by
                simpa [OnTime, show whereabouts past = .hosted q from hq] using ha
              rcases hlate with rfl | hnet
              · exact Or.inl rfl
              · exact Or.inr (List.mem_append_left _
                  ((List.mem_erase_of_ne (Ne.symm hpq)).mpr hnet))
          | resolveResponse n => exact absurd rfl haddr.2
          | existsResponse ex n => exact absurd rfl haddr.2
          | _ => exact Or.inl hdir
        · exact Or.inl (by rwa [View.post_site_of_ne _ _ hr])
      · exact Or.inr (List.mem_append_left _ ((List.mem_erase_of_ne (Ne.symm hpq)).mpr hnet))

/-- **The home knows the host**, in every lawful run on time, once the updates have
arrived. -/
theorem home_knows_host {ok : Runs.Guard (View N) (Act N)} {past : List (Act N)} {v : View N}
    (h : (machine home noNode).Run ok [] View.init past v)
    (hok : ∀ past v a, ok past v a → Lawful past a ∧ OnTime home past v a) (hnet : v.net = [])
    {r : N} (hr : (v.site r).hosts = true) : (v.site home).dir = some r := by
  have hann : Routed home v ∧ Announced home past v := by
    refine invariant_of_run (I := fun past v => Routed home v ∧ Announced home past v) h ?_ ?_ ?_
    · exact ⟨routed_init, fun q hq => absurd hq (by simp [whereabouts])⟩
    · intro past v a v' hv ha hs
      exact ⟨hv.1.step hs, hv.2.step hv.1 (hok past v a ha).2 hs⟩
    · intro past v q hv
      refine ⟨hv.1.forget q, fun r' hr' => ?_⟩
      rw [View.forget_dir]
      exact hv.2 r' hr'
  have hhost := (hosting_of_run h (fun past v a ha => (hok past v a ha).1) r).mp hr
  rcases hann.2 r hhost with hdir | hin
  · exact hdir
  · rw [hnet] at hin
    exact absurd hin (by simp)

/-! ### A home that hosts the entity -/

/-- A home that hosts the entity has itself on record. -/
def KnowsItself (home : N) (v : View N) : Prop :=
  (v.site home).hosts = true → (v.site home).dir = some home

/-- No update arrives while the home hosts the entity. -/
def Undisturbed (home : N) (v : View N) : Act N → Prop
  | .deliver ⟨_, _, .updateHome _⟩ => (v.site home).hosts = false
  | _ => True

instance (v : View N) : ∀ a : Act N, Decidable (Undisturbed home v a)
  | .deliver ⟨_, _, .updateHome _⟩ => inferInstanceAs (Decidable (_ = _))
  | .deliver ⟨_, _, .locationRequest _⟩ => .isTrue trivial
  | .deliver ⟨_, _, .resolveResponse _⟩ => .isTrue trivial
  | .deliver ⟨_, _, .existsRequest _⟩ => .isTrue trivial
  | .deliver ⟨_, _, .existsResponse _ _⟩ => .isTrue trivial
  | .call _ _ => .isTrue trivial

theorem KnowsItself.step {v v' : View N} {a : Act N} (h : KnowsItself home v)
    (hv : Routed home v) (ha : Undisturbed home v a) (hs : Step home noNode v a v') :
    KnowsItself home v' := by
  cases hs with
  | call r c =>
      by_cases hr : home = r
      · subst hr
        rw [KnowsItself, View.post_site_self, onCall_hosts, onCall_dir]
        cases c with
        | registerEntity => simp
        | entityImmigrated src => simp
        | getLocation b => exact h
        | entityExists b => exact h
        | _ => exact fun hf => absurd hf (by simp)
      · rwa [KnowsItself, View.post_site_of_ne _ _ hr]
  | deliver p hp =>
      by_cases hr : home = p.dst
      · have haddr := hv.packet p hp
        obtain ⟨src, dst, msg⟩ := p
        obtain rfl : home = dst := hr
        rw [KnowsItself, View.post_site_self, onMsg_hosts, onMsg_dir]
        cases msg with
        | updateHome n => exact fun hhosts => absurd hhosts (by simp [show _ = false from ha])
        | resolveResponse n => exact absurd rfl haddr.2
        | existsResponse ex n => exact absurd rfl haddr.2
        | _ => exact h
      · rwa [KnowsItself, View.post_site_of_ne _ _ hr]

/-- The condition is exact: an update that does arrive there replaces the home's
record of itself. -/
theorem knowsItself_iff {v v' : View N} {a : Act N} (h : KnowsItself home v)
    (hv : Routed home v) (hs : Step home noNode v a v') :
    KnowsItself home v' ↔ Undisturbed home v a := by
  refine ⟨fun h' => ?_, fun ha => h.step hv ha hs⟩
  cases hs with
  | call r c => trivial
  | deliver p hp =>
      have haddr := hv.packet p hp
      obtain ⟨src, dst, msg⟩ := p
      cases msg with
      | updateHome n =>
          obtain ⟨-, rfl, hn⟩ := haddr
          rw [KnowsItself, View.post_site_self, onMsg_hosts, onMsg_dir] at h'
          exact Bool.eq_false_iff.mpr fun hhosts => hn (Option.some.inj (h' hhosts))
      | _ => trivial

end Loc.Entity
