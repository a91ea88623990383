import Loc.Entity.Convergence
import Loc.Entity.Ledger

/-!
# Loc.Entity.Pace

**Moves that wait for the news.** An `updateHome` carries no order, so updates of two
hosts in flight at once may overtake each other. An embedder that lets the update of one
host arrive before the next rank takes the entity in (`Paced`) keeps the home up to date,
whatever the order of delivery: the only update in flight is that of the host, so every
update is on time (`onTime_of_paced`).

What a rank has cached then depends on where it has it from. `resolved_of_cached` says
when that is a response to a location request.
-/

namespace Loc.Entity

open Channel (Packet posted)

variable {N : Type} [DecidableEq N] {home noNode r : N}

/-! ### One update at a time -/

/-- The updates in flight. -/
def View.updates (v : View N) : List (Packet N (Msg N)) := v.net.filter fun p => isUpdate p.body

/-- No rank takes the entity in while an update is in flight. -/
def Paced (v : View N) : Act N → Prop
  | .call _ .registerEntity => v.updates = []
  | .call _ (.entityImmigrated _) => v.updates = []
  | _ => True

instance (v : View N) : ∀ a : Act N, Decidable (Paced v a)
  | .call _ .registerEntity => inferInstanceAs (Decidable (_ = []))
  | .call _ (.entityImmigrated _) => inferInstanceAs (Decidable (_ = []))
  | .call _ (.entityEmigrated _) => .isTrue trivial
  | .call _ .unregisterEntity => .isTrue trivial
  | .call _ (.getLocation _) => .isTrue trivial
  | .call _ (.entityExists _) => .isTrue trivial
  | .deliver _ => .isTrue trivial

/-- While the entity is hosted, the only update in flight is that of its host. -/
def Steady (home : N) (past : List (Act N)) (v : View N) : Prop :=
  ∀ h, whereabouts past = .hosted h → v.updates.Sublist [⟨h, home, .updateHome h⟩]

omit [DecidableEq N] in
theorem mem_updates {v : View N} {p : Packet N (Msg N)} {n : N} (hp : p ∈ v.net)
    (hn : p.body = .updateHome n) : p ∈ v.updates :=
  List.mem_filter.mpr ⟨hp, by rw [hn]; rfl⟩

theorem updates_call (v : View N) (r : N) (c : Call N) :
    (v.post r (onCall home noNode r c (v.site r))).updates =
      v.updates ++ posted r ((Act.call r c).update home) := by
  have hsent : (onCall home noNode r c (v.site r)).outbox.filter (fun m => isUpdate m.2) =
      (Act.call r c).update home := updates_onCall r c (v.site r)
  rw [View.updates, View.post_net, List.filter_append, ← hsent, posted, posted, List.filter_map]
  rfl

theorem updates_deliver (v : View N) (p : Packet N (Msg N)) :
    ((v.take p).post p.dst (onMsg noNode p.dst p.body (v.site p.dst))).updates.Sublist
      v.updates := by
  have hsent : (posted p.dst (onMsg noNode p.dst p.body (v.site p.dst)).outbox).filter
      (fun q => isUpdate q.body) = [] := by
    rw [posted, List.filter_map]
    exact List.map_eq_nil_iff.mpr (updates_onMsg p.dst p.body (v.site p.dst))
  rw [View.updates, View.post_net, List.filter_append, hsent, List.append_nil]
  exact List.erase_sublist.filter _

theorem Steady.step {past : List (Act N)} {v v' : View N} {a : Act N} (h : Steady home past v)
    (ha : Paced v a) (hs : Step home noNode v a v') : Steady home (a :: past) v' := by
  intro q hq
  cases hs with
  | deliver p hp => exact (updates_deliver v p).trans (h q hq)
  | call r c =>
      rw [updates_call]
      -- A rank that takes the entity in is the host, and sends the first update.
      have hmoves : v.updates = [] → r = q → (v.updates ++
          posted r (if home = r then [] else [(home, Msg.updateHome r)])).Sublist
            [⟨q, home, .updateHome q⟩] := by
        intro hnone hr
        rw [hnone, hr]
        split <;> simp
      cases c with
      | registerEntity => exact hmoves ha (Whereabouts.hosted.inj hq)
      | entityImmigrated src => exact hmoves ha (Whereabouts.hosted.inj hq)
      | entityEmigrated newNode => exact absurd hq (by simp [whereabouts, Act.moves, Call.moves])
      | unregisterEntity => exact absurd hq (by simp [whereabouts, Act.moves, Call.moves])
      | getLocation b => simpa [Act.update] using h q hq
      | entityExists b => simpa [Act.update] using h q hq

theorem steady_of_run {ok : Runs.Guard (View N) (Act N)} {past : List (Act N)} {v : View N}
    (h : (machine home noNode).Run ok [] View.init past v)
    (hok : ∀ past v a, ok past v a → Paced v a) : Steady home past v := by
  refine invariant_of_run (I := Steady home) h ?_ ?_ ?_
  · exact fun q hq => absurd hq (by simp [whereabouts])
  · exact fun past v a v' hv ha hs => hv.step (hok past v a ha) hs
  · exact fun past v q hv => hv

theorem Steady.onTime {past : List (Act N)} {v v' : View N} {a : Act N} (h : Steady home past v)
    (hs : Step home noNode v a v') : OnTime home past v a := by
  cases hs with
  | call r c => trivial
  | deliver p hp =>
      obtain ⟨src, dst, msg⟩ := p
      cases msg with
      | updateHome n =>
          rw [OnTime]
          cases hw : whereabouts past with
          | hosted q =>
              have hin := (h q hw).subset (mem_updates hp rfl)
              obtain ⟨-, -, hn⟩ := Packet.mk.inj (List.mem_singleton.mp hin)
              exact Or.inl (Msg.updateHome.inj hn)
          | _ => trivial
      | _ => trivial

/-- **Paced moves are on time**, in any order of delivery. -/
theorem onTime_of_paced {ok : Runs.Guard (View N) (Act N)} {past : List (Act N)} {v : View N}
    (h : (machine home noNode).Run ok [] View.init past v)
    (hok : ∀ past v a, ok past v a → Paced v a) :
    (machine home noNode).Run (fun past v a => ok past v a ∧ OnTime home past v a) []
      View.init past v := by
  induction h with
  | refl => exact .refl
  | step hrun ha hs ih => exact .step ih ⟨ha, (steady_of_run hrun hok).onTime hs⟩ hs
  | silent _ hs ih => exact .silent ih hs

/-- So the home has the host on record, or will hear from it. -/
theorem announced_of_paced {ok : Runs.Guard (View N) (Act N)} {past : List (Act N)} {v : View N}
    (h : (machine home noNode).Run ok [] View.init past v)
    (hok : ∀ past v a, ok past v a → Paced v a) : Announced home past v := by
  refine (invariant_of_run (I := fun past v => Routed home v ∧ Announced home past v)
    (onTime_of_paced h hok) ?_ ?_ ?_).2
  · exact ⟨routed_init, fun q hq => absurd hq (by simp [whereabouts])⟩
  · exact fun past v a v' hv ha hs => ⟨hv.1.step hs, hv.2.step hv.1 ha.2 hs⟩
  · refine fun past v q hv => ⟨hv.1.forget q, fun h hh => ?_⟩
    rw [View.forget_dir]
    exact hv.2 h hh

/-! ### Where a cached record comes from -/

/-- The event tells `r` a location. -/
def Act.tells (r : N) : Act N → Bool
  | .deliver ⟨_, dst, .resolveResponse _⟩ => dst = r
  | .deliver ⟨_, dst, .existsResponse true _⟩ => dst = r
  | _ => false

/-- A location comes with a positive answer of the home. -/
theorem told_by {a : Act N} (h : a.tells r = true) :
    (∃ src n, a = .deliver ⟨src, r, .resolveResponse n⟩) ∨
      ∃ src n, a = .deliver ⟨src, r, .existsResponse true n⟩ := by
  unfold Act.tells at h
  split at h
  · exact Or.inl ⟨_, _, by rw [of_decide_eq_true h]⟩
  · exact Or.inr ⟨_, _, by rw [of_decide_eq_true h]⟩
  · exact absurd h (by simp)

/-- An event that tells `r` nothing changes its record only by sending the entity off. -/
theorem cached_of_untold {v v' : View N} {a : Act N} (htells : a.tells r = false)
    (hs : Step home noNode v a v') (hsent : ∀ d, a ≠ .call r (.entityEmigrated d)) {d : N}
    (hd : (v'.site r).cached = some d) : (v.site r).cached = some d := by
  cases hs with
  | deliver p hp =>
      obtain ⟨src, dst, msg⟩ := p
      by_cases hr : r = dst
      · subst hr
        rw [View.post_site_self, onMsg_cached] at hd
        cases msg with
        | resolveResponse n => exact absurd htells (by simp [Act.tells])
        | existsResponse ex n =>
            cases ex with
            | true => exact absurd htells (by simp [Act.tells])
            | false => exact hd
        | _ => exact hd
      · rw [View.post_site_of_ne _ _ hr] at hd
        exact hd
  | call q c =>
      by_cases hr : r = q
      · subst hr
        rw [View.post_site_self, onCall_cached] at hd
        cases c with
        | entityEmigrated newNode => exact absurd rfl (hsent newNode)
        | unregisterEntity => exact absurd hd (by simp)
        | _ => exact hd
      · rw [View.post_site_of_ne _ _ hr] at hd
        exact hd

/-- The event may leave `r` with a record that the home does not keep up to date. -/
def Act.strays (r : N) : Act N → Bool
  | .call q (.entityEmigrated _) => q = r
  | .deliver ⟨_, dst, .existsResponse true _⟩ => dst = r
  | _ => false

/-- A cached record that no other event left there came with a response to a location
request. -/
theorem resolved_of_cached {ok : Runs.Guard (View N) (Act N)} {past : List (Act N)} {v : View N}
    (h : (machine home noNode).Run ok [] View.init past v)
    (hstrays : ∀ a ∈ past, a.strays r = false) {n : N} (hn : (v.site r).cached = some n) :
    ∃ src m, .deliver ⟨src, r, .resolveResponse m⟩ ∈ past := by
  refine invariant_of_run (I := fun past v => ∀ n, (v.site r).cached = some n →
    ∃ src m, .deliver ⟨src, r, .resolveResponse m⟩ ∈ past)
    (h.with_labels (List.append_nil past).symm hstrays) ?_ ?_ ?_ n hn
  · exact fun n hn => absurd hn (by simp [View.init, Site.blank])
  · rintro past v a v' hv ⟨-, ha⟩ hs n hn
    by_cases htells : a.tells r = true
    · rcases told_by htells with ⟨src, m, rfl⟩ | ⟨src, m, rfl⟩
      · exact ⟨src, m, List.mem_cons_self⟩
      · exact absurd ha (by simp [Act.strays])
    · have hsent : ∀ d, a ≠ .call r (.entityEmigrated d) := by
        rintro d rfl
        exact absurd ha (by simp [Act.strays])
      obtain ⟨src, m, hin⟩ := hv n (cached_of_untold (Bool.eq_false_iff.mpr htells) hs hsent hn)
      exact ⟨src, m, List.mem_cons_of_mem _ hin⟩
  · intro past v q hv n hn
    rcases v.forget_cached q r with hlost | hkept
    · exact absurd (hlost.symm.trans hn) (by simp)
    · exact hv n (hkept ▸ hn)

end Loc.Entity
