import Loc.Entity.Convergence

/-!
# Loc.Entity.SelfPointer

**A rank that points at itself** for an entity it does not host answers its own
queries with itself for good: no message will ever correct it.

A host never announces an emigration to itself, and an update never names the home
it travels to, so no rank points at itself of its own accord. The home, however,
answers and refreshes whoever asked, the new host included, with the new host's own
name; `NoSelfResponse` says that such a response finds its receiver still hosting
the entity. The condition is exact (`notSelf_iff`).
-/

namespace Loc.Entity

open Channel (Packet)

variable {N : Type} [DecidableEq N] {home noNode : N}

/-- A rank that does not host the entity holds no record that points at it. -/
def NotSelf (v : View N) : Prop :=
  ∀ r, (v.site r).hosts = false → (v.site r).dir ≠ some r ∧ (v.site r).cached ≠ some r

/-- Only a host emigrates the entity, and to another rank. -/
def Departs (v : View N) : Act N → Prop
  | .call r (.entityEmigrated newNode) => (v.site r).hosts = true ∧ newNode ≠ r
  | _ => True

instance (v : View N) : ∀ a : Act N, Decidable (Departs v a)
  | .call _ (.entityEmigrated _) => inferInstanceAs (Decidable (_ ∧ _))
  | .call _ .registerEntity => .isTrue trivial
  | .call _ (.entityImmigrated _) => .isTrue trivial
  | .call _ .unregisterEntity => .isTrue trivial
  | .call _ (.getLocation _) => .isTrue trivial
  | .call _ (.entityExists _) => .isTrue trivial
  | .deliver _ => .isTrue trivial

/-- A response that names its own receiver finds it hosting the entity. -/
def NoSelfResponse (v : View N) : Act N → Prop
  | .deliver ⟨_, dst, .resolveResponse n⟩ => n = dst → (v.site dst).hosts = true
  | .deliver ⟨_, dst, .existsResponse true n⟩ => n = dst → (v.site dst).hosts = true
  | _ => True

instance (v : View N) : ∀ a : Act N, Decidable (NoSelfResponse v a)
  | .deliver ⟨_, _, .resolveResponse _⟩ => inferInstanceAs (Decidable (_ → _))
  | .deliver ⟨_, _, .existsResponse true _⟩ => inferInstanceAs (Decidable (_ → _))
  | .deliver ⟨_, _, .existsResponse false _⟩ => .isTrue trivial
  | .deliver ⟨_, _, .updateHome _⟩ => .isTrue trivial
  | .deliver ⟨_, _, .locationRequest _⟩ => .isTrue trivial
  | .deliver ⟨_, _, .existsRequest _⟩ => .isTrue trivial
  | .call _ _ => .isTrue trivial

omit [DecidableEq N] in
theorem notSelf_init : NotSelf (View.init : View N) := by
  intro r _
  simp [View.init, Site.blank]

omit [DecidableEq N] in
theorem Departs.hostEmigrates {v : View N} {a : Act N} (h : Departs v a) : HostEmigrates v a := by
  cases a with
  | deliver p => trivial
  | call r c =>
      cases c with
      | entityEmigrated newNode => exact h.1
      | _ => trivial

omit [DecidableEq N] in
/-- The lawful moves are of this kind. -/
theorem Hosting.departs {past : List (Act N)} {v : View N} {a : Act N} (h : Hosting past v)
    (ha : Lawful past a) : Departs v a := by
  cases a with
  | deliver p => trivial
  | call r c =>
      cases c with
      | entityEmigrated newNode => exact ⟨(h r).mpr ha.1, ha.2⟩
      | _ => trivial

/-- A step at `r` on which nothing changes elsewhere: the other ranks keep their
records. -/
theorem NotSelf.post {v : View N} {r : N} {e : Effect N} (h : NotSelf v)
    (he : e.site.hosts = false → e.site.dir ≠ some r ∧ e.site.cached ≠ some r) :
    NotSelf (v.post r e) := by
  intro q hq
  by_cases hr : q = r
  · subst hr
    rw [View.post_site_self] at hq ⊢
    exact he hq
  · rw [View.post_site_of_ne _ _ hr] at hq ⊢
    exact h q hq

theorem NotSelf.step {v v' : View N} {a : Act N} (h : NotSelf v) (hv : Authority home v)
    (ha : Departs v a) (hresp : NoSelfResponse v a) (hs : Step home noNode v a v') :
    NotSelf v' := by
  cases hs with
  | call r c =>
      refine h.post fun hhosts => ?_
      rw [onCall_hosts] at hhosts
      rw [onCall_dir, onCall_cached]
      cases c with
      | registerEntity => exact absurd hhosts (by simp)
      | entityImmigrated src => exact absurd hhosts (by simp)
      | entityEmigrated newNode =>
          have hne : newNode ≠ r := ha.2
          cases hdir : (v.site r).dir with
          | none => simp [hne]
          | some n =>
              -- only the home has a directory record, and it caches none
              have hr : r = home := by
                by_contra hr
                rw [(hv.site r).routed.dir hr] at hdir
                exact absurd hdir (by simp)
              simp [hne, (hv.site r).uncached hr]
      | unregisterEntity => simp
      | getLocation b => exact h r hhosts
      | entityExists b => exact h r hhosts
  | deliver p hp =>
      have haddr := hv.packet p hp
      refine NotSelf.post (v := v.take p) h fun hhosts => ?_
      rw [onMsg_hosts] at hhosts
      rw [onMsg_dir, onMsg_cached]
      have hold := h p.dst hhosts
      obtain ⟨src, dst, msg⟩ := p
      cases msg with
      | updateHome n =>
          -- a home registers its own entities without a message
          obtain ⟨-, rfl, hn⟩ := haddr
          exact ⟨fun heq => hn (Option.some.inj heq), hold.2⟩
      | resolveResponse n =>
          have hdir := (hv.site dst).routed.dir haddr.2
          have hn : n ≠ dst := fun heq => absurd (hresp heq) (by simp [hhosts])
          simp [hdir, hn]
      | existsResponse ex n =>
          cases ex with
          | false => exact hold
          | true =>
              have hdir := (hv.site dst).routed.dir haddr.2
              have hn : n ≠ dst := fun heq => absurd (hresp heq) (by simp [hhosts])
              simp [hdir, hn]
      | locationRequest q => exact hold
      | existsRequest q => exact hold

/-- The condition is exact: a response that names a receiver which does not host the
entity makes it point at itself. -/
theorem notSelf_iff {v v' : View N} {a : Act N} (h : NotSelf v) (hv : Authority home v)
    (ha : Departs v a) (hs : Step home noNode v a v') : NotSelf v' ↔ NoSelfResponse v a := by
  refine ⟨fun h' => ?_, fun hresp => h.step hv ha hresp hs⟩
  cases hs with
  | call r c => trivial
  | deliver p hp =>
      have haddr := hv.packet p hp
      have hafter := h' p.dst
      rw [View.post_site_self, onMsg_hosts, onMsg_dir, onMsg_cached] at hafter
      obtain ⟨src, dst, msg⟩ := p
      cases msg with
      | resolveResponse n =>
          intro hn
          subst hn
          by_contra hhosts
          have hcached := (hafter (Bool.eq_false_iff.mpr hhosts)).2
          simp [(hv.site n).routed.dir haddr.2] at hcached
      | existsResponse ex n =>
          cases ex with
          | false => trivial
          | true =>
              intro hn
              subst hn
              by_contra hhosts
              have hcached := (hafter (Bool.eq_false_iff.mpr hhosts)).2
              simp [(hv.site n).routed.dir haddr.2] at hcached
      | _ => trivial

theorem NotSelf.forget {v : View N} (h : NotSelf v) (r : N) : NotSelf (v.forget r) := by
  intro q hq
  rw [View.forget_hosts] at hq
  by_cases hr : q = r
  · subst hr
    rw [View.forget_site_self]
    exact ⟨(h q hq).1, by simp [Site.forget]⟩
  · rw [View.forget_site_of_ne _ hr]
    exact h q hq

end Loc.Entity
