import Loc.Entity.Routing

/-!
# Loc.Entity.Authority

**The home's record is authoritative.** As long as only a host emigrates the
entity, the home keeps what it knows in its directory and never in its cache, so
neither eviction nor clearing can make it forget.

`LocLookup::update` picks the store by what is present. The point of the
invariant is that at the home the directory entry is always already there when
an update arrives.
-/

namespace Loc.Entity

open Channel (Packet)

variable {N : Type} [DecidableEq N] {home noNode : N}

/-- At the home the record is in the directory, and it is there while the home
hosts the entity. -/
structure AuthoritySite (home r : N) (t : Site N) : Prop where
  routed : RoutedSite home r t
  uncached : r = home → t.cached = none
  known : r = home → t.hosts = true → t.dir.isSome = true

/-- The authority invariant. -/
def Authority (home : N) : View N → Prop :=
  Everywhere (AuthoritySite home) (Addressed home) fun _ => True

omit [DecidableEq N] in
theorem Authority.routed {v : View N} (h : Authority home v) : Routed home v :=
  Everywhere.mono h (fun _ _ ht => ht.routed) (fun _ hp => hp) fun _ hx => hx

omit [DecidableEq N] in
theorem authority_init : Authority home (View.init : View N) where
  site r :=
    ⟨routed_init.site r, fun _ => rfl, fun _ h => absurd h (by simp [View.init, Site.blank])⟩
  packet := by simp [View.init]
  answer := by simp

theorem Authority.step {v v' : View N} {a : Act N} (h : Authority home v)
    (ha : HostEmigrates v a) (hs : Step home noNode v a v') : Authority home v' := by
  refine Everywhere.step h hs (fun r c t hact ht hv => ?_) (fun p t _ hp ht _ => ?_)
  · subst hact hv
    have hgood := routed_onCall noNode ht.routed c
    refine ⟨⟨hgood.site, fun hr => ?_, fun hr => ?_⟩, hgood.outbox, hgood.answers⟩
    · rw [onCall_cached]
      cases c with
      | entityEmigrated newNode => exact (if_pos (ht.known hr ha)).trans (ht.uncached hr)
      | unregisterEntity => rfl
      | _ => exact ht.uncached hr
    · rw [onCall_hosts, onCall_dir]
      cases c with
      | registerEntity => simp [hr]
      | entityImmigrated src => simp [hr]
      | getLocation action => exact ht.known hr
      | entityExists action => exact ht.known hr
      | _ => exact fun hf => absurd hf (by simp)
  · have hgood := routed_onMsg noNode hp ht.routed
    refine ⟨⟨hgood.site, fun hr => ?_, fun hr => ?_⟩, hgood.outbox, hgood.answers⟩
    all_goals
      obtain ⟨src, dst, msg⟩ := p
      -- Responses are never addressed to the home.
      cases msg with
      | resolveResponse n => exact absurd hr hp.2
      | existsResponse ex n => exact absurd hr hp.2
      | updateHome n => first | exact ht.uncached hr | exact fun _ => rfl
      | _ =>
          simp only [onMsg_cached, onMsg_hosts, onMsg_dir]
          first | exact ht.uncached hr | exact ht.known hr

theorem Authority.forget {v : View N} (h : Authority home v) (r : N) :
    Authority home (v.forget r) :=
  Everywhere.forget h r fun _ ht => ⟨ht.routed.forget, fun _ => rfl, ht.known⟩

/-- **Authority.** In every run in which only hosts emigrate the entity, the
home's record lives in its directory. -/
theorem authority_of_run {ok : Runs.Guard (View N) (Act N)} {past₀ past : List (Act N)}
    {v₀ v : View N} (h : (machine home noNode).Run ok past₀ v₀ past v)
    (hok : ∀ past v a, ok past v a → HostEmigrates v a) (h₀ : Authority home v₀) :
    Authority home v :=
  invariant_of_run (I := fun _ v => Authority home v) h h₀
    (fun past v a _ hv ha hs => hv.step (hok past v a ha) hs)
    fun _ _ r hv => hv.forget r

/-! ### What the home has been told -/

/-- The home has processed a registration, and has not unregistered the entity
since. -/
def informed (home : N) : List (Act N) → Bool
  | [] => false
  | .call r .registerEntity :: past => r = home || informed home past
  | .call r (.entityImmigrated _) :: past => r = home || informed home past
  | .call r .unregisterEntity :: past => r ≠ home && informed home past
  | .deliver ⟨_, _, .updateHome _⟩ :: _ => true
  | _ :: past => informed home past

/-- An activation of the home other than its `unregisterEntity` keeps the
directory entry. -/
theorem dir_isSome_onCall {t : Site N} (h : t.dir.isSome = true) {c : Call N} {r : N}
    (hc : c ≠ .unregisterEntity) : (onCall home noNode r c t).site.dir.isSome = true := by
  rw [onCall_dir]
  cases c with
  | registerEntity => dsimp only; split <;> simp [h]
  | entityImmigrated src => dsimp only; split <;> simp [h]
  | entityEmigrated newNode => simpa using h
  | unregisterEntity => exact absurd rfl hc
  | _ => exact h

theorem dir_isSome_onMsg {t : Site N} (h : t.dir.isSome = true) {m : Msg N} {r : N} :
    (onMsg noNode r m t).site.dir.isSome = true := by
  rw [onMsg_dir]
  cases m with
  | updateHome n => rfl
  | resolveResponse n => simpa using h
  | existsResponse ex n => cases ex <;> simpa using h
  | _ => exact h

/-- An informed home has a directory entry. -/
theorem informed_step {past : List (Act N)} {v v' : View N} {a : Act N} (hv : Routed home v)
    (h : informed home past = true → (v.site home).dir.isSome = true)
    (hs : Step home noNode v a v') :
    informed home (a :: past) = true → (v'.site home).dir.isSome = true := by
  intro hinf
  cases hs with
  | call r c =>
      by_cases hr : home = r
      · subst hr
        rw [View.post_site_self]
        by_cases hreg : c = .registerEntity ∨ ∃ src, c = .entityImmigrated src
        · rcases hreg with rfl | ⟨src, rfl⟩ <;> simp [onCall, register, announce]
        · have hc : c ≠ .unregisterEntity := by
            intro heq
            subst heq
            simp [informed] at hinf
          refine dir_isSome_onCall (h ?_) hc
          cases c <;> simp_all [informed]
      · rw [View.post_site_of_ne _ _ hr]
        refine h ?_
        cases c <;> simp_all [informed, Ne.symm hr]
  | deliver p hp =>
      have haddr := hv.packet p hp
      obtain ⟨src, dst, msg⟩ := p
      by_cases hr : home = dst
      · subst hr
        rw [View.post_site_self]
        cases msg with
        | updateHome n => rfl
        | _ => exact dir_isSome_onMsg (h hinf)
      · rw [View.post_site_of_ne _ _ hr]
        cases msg with
        | updateHome n => exact absurd haddr.2.1.symm hr
        | _ => exact h hinf

/-- **The home does not forget.** -/
theorem dir_isSome_of_informed {ok : Runs.Guard (View N) (Act N)} {past : List (Act N)}
    {v : View N} (h : (machine home noNode).Run ok [] View.init past v)
    (hinf : informed home past = true) : (v.site home).dir.isSome = true := by
  refine (invariant_of_run (I := fun past v => Routed home v ∧
    (informed home past = true → (v.site home).dir.isSome = true)) h ?_ ?_ ?_).2 hinf
  · exact ⟨routed_init, by simp [informed]⟩
  · intro past v a v' hv _ hs
    exact ⟨hv.1.step hs, informed_step hv.1 hv.2 hs⟩
  · intro past v r hv
    refine ⟨hv.1.forget r, fun hinf => ?_⟩
    rw [View.forget_dir]
    exact hv.2 hinf

end Loc.Entity
