import Loc.Entity.Authority

/-!
# Loc.Entity.Drain

**What draining the network costs, and what it achieves.**

A request costs its own delivery and its answer's. An update costs its own delivery
and one answer for each rank its receiver may owe one by the time it arrives: the
past askers, the buffered requesters, and the requests still on their way there. No
delivery makes another packet dearer (`owed_le`), and a packet pays for everything
its handler sends (`outbox_lt_weight`).

Once everything is delivered, the home knows every entity that some rank has announced
(`told_of_run`).
-/

namespace Loc.Entity

open Channel (Packet posted)

variable {N : Type} [DecidableEq N] {home noNode : N}

/-! ### What a packet can still cost -/

/-- A location request on its way to `r`. -/
def requestTo (r : N) (p : Packet N (Msg N)) : Bool :=
  match p.body with
  | .locationRequest _ => p.dst = r
  | _ => false

/-- The message answers a request, or refreshes an earlier answer. -/
def isResponse : Msg N → Bool
  | .resolveResponse _ | .existsResponse _ _ => true
  | .updateHome _ | .locationRequest _ | .existsRequest _ => false

namespace View

/-- How many answers an update can set off at `r`, now or when it arrives. -/
def owed (v : View N) (r : N) : Nat :=
  (v.site r).asks.length + (v.site r).pendingHome.length + v.net.countP (requestTo r)

/-- How many deliveries `p` can still cause, its own included. -/
def weight (v : View N) (p : Packet N (Msg N)) : Nat :=
  match p.body with
  | .updateHome _ => 1 + v.owed p.dst
  | .locationRequest _ | .existsRequest _ => 2
  | .resolveResponse _ | .existsResponse _ _ => 1

theorem weight_of_isResponse {v : View N} {p : Packet N (Msg N)} (h : isResponse p.body = true) :
    v.weight p = 1 := by
  unfold weight
  cases hb : p.body with
  | updateHome n => rw [hb] at h; exact absurd h (by simp [isResponse])
  | locationRequest q => rw [hb] at h; exact absurd h (by simp [isResponse])
  | existsRequest q => rw [hb] at h; exact absurd h (by simp [isResponse])
  | resolveResponse n => rfl
  | existsResponse ex n => rfl

/-- A packet weighs no more where nobody is owed more. -/
theorem weight_mono {v v' : View N} (h : ∀ r, v'.owed r ≤ v.owed r) (p : Packet N (Msg N)) :
    v'.weight p ≤ v.weight p := by
  unfold weight
  cases p.body with
  | updateHome n => exact Nat.add_le_add_left (h p.dst) 1
  | locationRequest q => exact le_rfl
  | existsRequest q => exact le_rfl
  | resolveResponse n => exact le_rfl
  | existsResponse ex n => exact le_rfl

/-- Losing a cached record changes no weight. -/
theorem weight_forget (v : View N) (r : N) (p : Packet N (Msg N)) :
    (v.forget r).weight p = v.weight p := by
  simp [weight, owed]

end View

theorem length_insert_le (l : List N) (q : N) : (l.insert q).length ≤ l.length + 1 := by
  by_cases hq : q ∈ l
  · rw [List.insert_of_mem hq]
    omega
  · rw [List.insert_of_not_mem hq, List.length_cons]

theorem length_remember_le (asks answered : List N) :
    (remember asks answered).length ≤ asks.length + answered.length := by
  induction answered generalizing asks with
  | nil => exact le_rfl
  | cons q answered ih =>
      have hone := length_insert_le asks q
      have hrest := ih (asks.insert q)
      rw [remember, List.foldl_cons, ← remember, List.length_cons]
      omega

/-- A handler sends only responses. -/
theorem isResponse_onMsg {r : N} {m : Msg N} {t : Site N} {x : N × Msg N}
    (hx : x ∈ (onMsg noNode r m t).outbox) : isResponse x.2 = true := by
  cases m with
  | updateHome n =>
      obtain ⟨q, -, rfl⟩ := List.mem_map.mp hx
      rfl
  | locationRequest q =>
      rw [onMsg] at hx
      cases hserved : t.served r with
      | some n =>
          rw [locationRequest_of_some hserved] at hx
          obtain rfl := List.mem_singleton.mp hx
          rfl
      | none =>
          rw [locationRequest_of_none hserved] at hx
          exact absurd hx (by simp)
  | resolveResponse n => exact absurd hx (by simp [onMsg, resolveResponse])
  | existsRequest q =>
      rw [onMsg, existsRequest_eq] at hx
      obtain rfl := List.mem_singleton.mp hx
      rfl
  | existsResponse ex n => exact absurd hx (by simp [onMsg, existsResponse])

/-- No response is a request. -/
theorem countP_requestTo_posted {r q : N} {outbox : List (N × Msg N)}
    (h : ∀ x ∈ outbox, isResponse x.2 = true) : (posted r outbox).countP (requestTo q) = 0 := by
  rw [List.countP_eq_zero]
  intro p hp
  have hresp := h _ (Channel.mem_posted.mp hp).2
  unfold requestTo
  cases hb : p.body <;> simp_all [isResponse]

/-- What the receiver of a packet owes afterwards, the packet no longer on its way. -/
theorem owed_onMsg (noNode r : N) (m : Msg N) (t : Site N) :
    (onMsg noNode r m t).site.asks.length + (onMsg noNode r m t).site.pendingHome.length ≤
      t.asks.length + t.pendingHome.length + if requestTo r ⟨r, r, m⟩ then 1 else 0 := by
  cases m with
  | updateHome n => simpa [onMsg, announce, requestTo] using length_remember_le t.asks t.pendingHome
  | locationRequest q =>
      rw [onMsg, requestTo, if_pos (by simp)]
      cases hserved : t.served r with
      | some n =>
          have hle := length_insert_le t.asks q
          rw [locationRequest_of_some hserved]
          show (t.asks.insert q).length + t.pendingHome.length ≤ _
          omega
      | none =>
          rw [locationRequest_of_none hserved]
          simp only [List.length_append, List.length_singleton]
          omega
  | resolveResponse n => simp [onMsg, resolveResponse]
  | existsRequest q => rw [onMsg, existsRequest_eq]; exact Nat.le_add_right ..
  | existsResponse ex n => cases ex <;> simp [onMsg, existsResponse]

/-- **No delivery makes anyone owe more.** -/
theorem owed_le {v : View N} {p : Packet N (Msg N)} (hp : p ∈ v.net) (r : N) :
    ((v.take p).post p.dst (onMsg noNode p.dst p.body (v.site p.dst))).owed r ≤ v.owed r := by
  have hnet : v.net.countP (requestTo r) =
      (v.net.erase p).countP (requestTo r) + if requestTo r p then 1 else 0 := by
    rw [(List.perm_cons_erase hp).countP_eq, List.countP_cons]
  have hsent : (posted p.dst (onMsg noNode p.dst p.body (v.site p.dst)).outbox).countP
      (requestTo r) = 0 := countP_requestTo_posted fun x hx => isResponse_onMsg hx
  rw [View.owed, View.owed, View.post_net, View.take_net, List.countP_append, hsent, hnet]
  by_cases hr : r = p.dst
  · subst hr
    have hhere := owed_onMsg noNode p.dst p.body (v.site p.dst)
    have hkind : requestTo p.dst ⟨p.dst, p.dst, p.body⟩ = requestTo p.dst p := by
      unfold requestTo
      cases p.body <;> rfl
    rw [hkind] at hhere
    rw [View.post_site_self]
    omega
  · rw [View.post_site_of_ne _ _ hr, View.take_site]
    omega

/-- **A packet pays for what its handler sends.** -/
theorem outbox_lt_weight (v : View N) (p : Packet N (Msg N)) :
    (onMsg noNode p.dst p.body (v.site p.dst)).outbox.length < v.weight p := by
  unfold View.weight
  cases p.body with
  | updateHome n =>
      simp only [onMsg, announce, List.length_map, List.length_append, View.owed]
      omega
  | locationRequest q =>
      rw [onMsg]
      cases hserved : (v.site p.dst).served p.dst with
      | some n => rw [locationRequest_of_some hserved]; exact Nat.one_lt_two
      | none => rw [locationRequest_of_none hserved]; exact Nat.two_pos
  | resolveResponse n => exact Nat.one_pos
  | existsRequest q => rw [onMsg, existsRequest_eq]; exact Nat.one_lt_two
  | existsResponse ex n => exact Nat.one_pos

/-! ### What the home is about to know -/

/-- Some rank has announced that it hosts the entity, and the home has not unregistered
it since. -/
def announced (home : N) : List (Act N) → Bool
  | [] => false
  | .call _ .registerEntity :: _ => true
  | .call _ (.entityImmigrated _) :: _ => true
  | .call r .unregisterEntity :: past => r ≠ home && announced home past
  | _ :: past => announced home past

/-- The home has a record of an announced entity, or an update is on its way there. -/
def Told (home : N) (past : List (Act N)) (v : View N) : Prop :=
  announced home past = true →
    (v.site home).dir.isSome = true ∨ ∃ n, ⟨n, home, .updateHome n⟩ ∈ v.net

/-- Announcing records the entity at the home, or tells it. -/
theorem told_register (v : View N) (r : N) : Told home [.call r .registerEntity]
    (v.post r (register home r (v.site r))) := by
  intro _
  unfold register
  split
  · next hr =>
    subst hr
    exact Or.inl (by simp [announce])
  · exact Or.inr ⟨r, by simp⟩

theorem Told.step {past : List (Act N)} {v v' : View N} {a : Act N} (h : Told home past v)
    (hs : Step home noNode v a v') : Told home (a :: past) v' := by
  cases hs with
  | call r c =>
      -- What the home knew, or was about to be told, survives every other call.
      have keep (hc : r = home → c ≠ .unregisterEntity) (ha : announced home past = true) :
          ((v.post r (onCall home noNode r c (v.site r))).site home).dir.isSome = true ∨
            ∃ n, ⟨n, home, .updateHome n⟩ ∈ (v.post r (onCall home noNode r c (v.site r))).net := by
        rcases h ha with hdir | ⟨n, hn⟩
        · by_cases hr : home = r
          · subst hr
            rw [View.post_site_self]
            exact Or.inl (dir_isSome_onCall hdir (hc rfl))
          · rw [View.post_site_of_ne _ _ hr]
            exact Or.inl hdir
        · exact Or.inr ⟨n, List.mem_append_left _ hn⟩
      cases c with
      | registerEntity => exact told_register v r
      | entityImmigrated src => exact told_register v r
      | unregisterEntity =>
          intro ha
          obtain ⟨hr, ha⟩ : r ≠ home ∧ announced home past = true := by
            simpa [announced] using ha
          exact keep (fun heq => absurd heq hr) ha
      | entityEmigrated newNode => exact keep fun _ => by simp
      | getLocation action => exact keep fun _ => by simp
      | entityExists action => exact keep fun _ => by simp
  | deliver p hp =>
      intro ha
      rcases h ha with hdir | ⟨n, hn⟩
      · by_cases hr : home = p.dst
        · rw [hr, View.post_site_self, ← hr]
          exact Or.inl (dir_isSome_onMsg hdir)
        · rw [View.post_site_of_ne _ _ hr]
          exact Or.inl hdir
      · by_cases heq : (⟨n, home, .updateHome n⟩ : Packet N (Msg N)) = p
        · subst heq
          exact Or.inl (by simp [onMsg, announce])
        · exact Or.inr ⟨n, List.mem_append_left _ ((List.mem_erase_of_ne heq).mpr hn)⟩

/-- **The home is told.** In every run, the home knows every announced entity, or is
about to be told where it is. -/
theorem told_of_run {ok : Runs.Guard (View N) (Act N)} {past : List (Act N)} {v : View N}
    (h : (machine home noNode).Run ok [] View.init past v) : Told home past v := by
  refine invariant_of_run (I := fun past v => Told home past v) h ?_ ?_ ?_
  · exact fun ha => absurd ha (by simp [announced])
  · intro past v a v' hv _ hs
    exact hv.step hs
  · intro past v r hv ha
    rw [View.forget_dir, View.forget_net]
    exact hv ha

end Loc.Entity
