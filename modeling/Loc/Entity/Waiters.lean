import Loc.Entity.Authority

/-!
# Loc.Entity.Waiters

**Nobody waits in vain.** Callbacks queue at the rank they were passed to until
the location, or the existence, of the entity is known there.

* `accounted_of_run` — every callback passed is invoked or queued, exactly as
  often as it was passed, in every run of the protocol.
* `attended_of_run` — a location waiter away from the home is always attended to:
  its request is in flight, or buffered at the home, or answered by a response in
  flight. Only the first waiter sends a request, so this is what keeps the later
  ones from hanging.
* `Attended.settled` — with nothing in flight, nobody waits for an entity its home
  knows.
-/

namespace Loc.Entity

open Channel (Packet)

variable {N : Type} [DecidableEq N] {home noNode : N}

/-! ### Accounting for callbacks -/

/-- The two kinds of query a callback can be passed to. -/
inductive Query
  | location
  | existence
  deriving DecidableEq

namespace Query

/-- Where callbacks of this kind wait. -/
def queue : Query → Site N → List Nat
  | .location, t => t.pending
  | .existence, t => t.pendingExists

/-- The call that passes a callback. -/
def call : Query → Nat → Call N
  | .location, a => .getLocation a
  | .existence, a => .entityExists a

/-- The invocations of the callback `a` passed to `r`. -/
def invokes : Query → N → Nat → Answer N → Bool
  | .location, r, a, .located r' a' _ => r' = r && a' = a
  | .existence, r, a, .existence r' a' _ _ => r' = r && a' = a
  | _, _, _, _ => false

theorem countP_located (k : Query) (r r' n : N) (a : Nat) (l : List NodeAction) :
    (l.map fun b => Answer.located r b n).countP (k.invokes r' a) =
      if k = .location ∧ r = r' then l.count a else 0 := by
  rw [List.countP_map]
  cases k with
  | existence =>
      rw [if_neg (by simp)]
      exact List.countP_eq_zero.mpr fun b _ => by simp [invokes]
  | location =>
      by_cases hr : r = r'
      · simp [invokes, hr, List.count_eq_countP, Function.comp_def, beq_eq_decide]
      · rw [if_neg (by simp [hr])]
        exact List.countP_eq_zero.mpr fun b _ => by simp [invokes, hr]

theorem countP_existence (k : Query) (r r' n : N) (ex : Bool) (a : Nat) (l : List ExistsAction) :
    (l.map fun b => Answer.existence r b ex n).countP (k.invokes r' a) =
      if k = .existence ∧ r = r' then l.count a else 0 := by
  rw [List.countP_map]
  cases k with
  | location =>
      rw [if_neg (by simp)]
      exact List.countP_eq_zero.mpr fun b _ => by simp [invokes]
  | existence =>
      by_cases hr : r = r'
      · simp [invokes, hr, List.count_eq_countP, Function.comp_def, beq_eq_decide]
      · rw [if_neg (by simp [hr])]
        exact List.countP_eq_zero.mpr fun b _ => by simp [invokes, hr]

end Query

/-- An activation on `r` that starts on `t`, with `fresh a` copies of the callback
`a` passed to it, invokes or queues each callback, and invokes none of another
rank. -/
structure Balanced (k : Query) (r : N) (t : Site N) (fresh : Nat → Nat) (e : Effect N) : Prop where
  here : ∀ a, e.answers.countP (k.invokes r a) + (k.queue e.site).count a =
    (k.queue t).count a + fresh a
  elsewhere : ∀ r' ≠ r, ∀ a, e.answers.countP (k.invokes r' a) = 0

/-- A flush of the location waiters. -/
theorem balanced_located {k : Query} {r n : N} {t t' : Site N} {outbox : List (N × Msg N)}
    (hpending : t'.pending = []) (hexists : t'.pendingExists = t.pendingExists) :
    Balanced k r t (fun _ => 0) ⟨t', outbox, t.pending.map fun a => .located r a n⟩ where
  here := by
    intro a
    rw [Query.countP_located]
    cases k <;> simp [Query.queue, hpending, hexists]
  elsewhere := by
    intro r' hr a
    rw [Query.countP_located, if_neg fun h => hr h.2.symm]

/-- A flush of the existence waiters. -/
theorem balanced_existence {k : Query} {r n : N} {ex : Bool} {t t' : Site N}
    (hpending : t'.pending = t.pending) (hexists : t'.pendingExists = []) :
    Balanced k r t (fun _ => 0) ⟨t', [], t.pendingExists.map fun a => .existence r a ex n⟩ where
  here := by
    intro a
    rw [Query.countP_existence]
    cases k <;> simp [Query.queue, hpending, hexists]
  elsewhere := by
    intro r' hr a
    rw [Query.countP_existence, if_neg fun h => hr h.2.symm]

/-- No callback passed and none invoked. -/
theorem balanced_idle {k : Query} {r : N} {t t' : Site N} {outbox : List (N × Msg N)}
    (hpending : t'.pending = t.pending) (hexists : t'.pendingExists = t.pendingExists) :
    Balanced k r t (fun _ => 0) ⟨t', outbox, []⟩ where
  here := by
    intro a
    cases k <;> simp [Query.queue, hpending, hexists]
  elsewhere := by
    intro r' hr a
    rfl

theorem balanced_register {k : Query} {r : N} {t : Site N} :
    Balanced k r t (fun _ => 0) (register home r t) := by
  unfold register
  split
  · exact balanced_located rfl rfl
  · exact balanced_idle rfl rfl

theorem balanced_onCall {k : Query} {r : N} {t : Site N} (c : Call N) :
    Balanced k r t (fun a => if c = k.call a then 1 else 0) (onCall home noNode r c t) := by
  cases c with
  | registerEntity => cases k <;> exact balanced_register
  | entityImmigrated src => cases k <;> exact balanced_register
  | entityEmigrated newNode => cases k <;> exact balanced_idle (by simp) (by simp)
  | unregisterEntity => cases k <;> exact balanced_idle rfl rfl
  | getLocation b =>
      rw [onCall]
      refine ⟨fun a => ?_, fun r' hr a => ?_⟩
      · cases hres : t.resolved r with
        | some n =>
            rw [getLocation_of_some hres]
            cases k <;> by_cases hb : b = a <;>
              simp [Query.queue, Query.call, Query.invokes, hb, Nat.add_comm]
        | none =>
            rw [getLocation_of_none hres]
            cases k <;> by_cases hb : b = a <;>
              simp [Query.queue, Query.call, hb]
      · cases hres : t.resolved r with
        | some n =>
            rw [getLocation_of_some hres]
            cases k <;> simp [Query.invokes, Ne.symm hr]
        | none => rw [getLocation_of_none hres]; rfl
  | entityExists b =>
      rw [onCall]
      refine ⟨fun a => ?_, fun r' hr a => ?_⟩
      · cases hres : t.resolved r with
        | some n =>
            rw [entityExists_of_some hres]
            cases k <;> by_cases hb : b = a <;>
              simp [Query.queue, Query.call, Query.invokes, hb, Nat.add_comm]
        | none =>
            by_cases hhome : home = r
            · subst hhome
              rw [entityExists_home_of_none hres]
              cases k <;> by_cases hb : b = a <;>
                simp [Query.queue, Query.call, Query.invokes, hb, Nat.add_comm]
            · rw [entityExists_of_none hhome hres]
              cases k <;> by_cases hb : b = a <;>
                simp [Query.queue, Query.call, hb]
      · cases hres : t.resolved r with
        | some n =>
            rw [entityExists_of_some hres]
            cases k <;> simp [Query.invokes, Ne.symm hr]
        | none =>
            by_cases hhome : home = r
            · subst hhome
              rw [entityExists_home_of_none hres]
              cases k <;> simp [Query.invokes, Ne.symm hr]
            · rw [entityExists_of_none hhome hres]
              rfl

theorem balanced_onMsg {k : Query} {r : N} {t : Site N} (m : Msg N) :
    Balanced k r t (fun _ => 0) (onMsg noNode r m t) := by
  cases m with
  | updateHome n => exact balanced_located rfl rfl
  | locationRequest q =>
      rw [onMsg]
      cases hserved : t.served r with
      | some n => rw [locationRequest_of_some hserved]; exact balanced_idle rfl rfl
      | none => rw [locationRequest_of_none hserved]; exact balanced_idle rfl rfl
  | resolveResponse n => exact balanced_located rfl (by simp)
  | existsRequest q =>
      rw [onMsg, existsRequest_eq]
      exact balanced_idle rfl rfl
  | existsResponse ex n => exact balanced_existence (by cases ex <;> simp) rfl

/-- Every callback passed was invoked, or is queued, as often as it was passed. -/
def Accounted (k : Query) (past : List (Act N)) (v : View N) : Prop :=
  ∀ r a, past.count (.call r (k.call a)) =
    v.answers.countP (k.invokes r a) + (k.queue (v.site r)).count a

theorem Accounted.post {k : Query} {past past' : List (Act N)} {v : View N} {r : N}
    {fresh : Nat → Nat} {e : Effect N} (h : Accounted k past v)
    (he : Balanced k r (v.site r) fresh e)
    (hhere : ∀ a, past'.count (.call r (k.call a)) = past.count (.call r (k.call a)) + fresh a)
    (helse : ∀ r' ≠ r, ∀ a, past'.count (.call r' (k.call a)) = past.count (.call r' (k.call a))) :
    Accounted k past' (v.post r e) := by
  intro r' a
  rw [View.post_answers, List.countP_append]
  by_cases hr : r' = r
  · subst hr
    have hbal := he.here a
    rw [View.post_site_self, hhere, h]
    omega
  · rw [View.post_site_of_ne _ _ hr, helse r' hr, h, he.elsewhere r' hr]
    omega

theorem Accounted.step {k : Query} {past : List (Act N)} {v v' : View N} {a : Act N}
    (h : Accounted k past v) (hs : Step home noNode v a v') : Accounted k (a :: past) v' := by
  cases hs with
  | call r c =>
      refine h.post (balanced_onCall c) (fun b => ?_) (fun r' hr b => ?_)
      · rw [List.count_cons]
        simp
      · rw [List.count_cons_of_ne]
        simpa using fun hr' => absurd hr'.symm hr
  | deliver p hp =>
      have htake : Accounted k past (v.take p) := h
      refine htake.post (balanced_onMsg p.body) (fun b => ?_) (fun r' _ b => ?_)
      · exact List.count_cons_of_ne (by simp)
      · exact List.count_cons_of_ne (by simp)

/-- **No callback is lost or invoked twice**, in any run of the protocol. -/
theorem accounted_of_run {ok : Runs.Guard (View N) (Act N)} {past : List (Act N)} {v : View N}
    (h : (machine home noNode).Run ok [] View.init past v) (k : Query) : Accounted k past v := by
  refine invariant_of_run (I := fun past v => Accounted k past v) h ?_ ?_ ?_
  · intro r a
    cases k <;> simp [View.init, Site.blank, Query.queue]
  · intro past v a v' hv _ hs
    exact hv.step hs
  · intro past v q hv r a
    rw [View.forget_answers, hv r a]
    cases k with
    | location => rw [Query.queue, Query.queue, View.forget_pending]
    | existence => rw [Query.queue, Query.queue, View.forget_pendingExists]

/-! ### Location waiters are attended to -/

/-- The request of the waiters on `q` is in flight, buffered, or answered. -/
def Awaited (home : N) (v : View N) (q : N) : Prop :=
  ⟨q, home, .locationRequest q⟩ ∈ v.net ∨ q ∈ (v.site home).pendingHome ∨
    ∃ n, ⟨home, q, .resolveResponse n⟩ ∈ v.net

/-- The home keeps nobody waiting for what it knows. -/
def Idle (home : N) (t : Site N) : Prop :=
  t.pendingHome ≠ [] ∨ t.pending ≠ [] → t.served home = none

/-- Waiters away from the home are attended to, and the home itself is idle. -/
structure Attended (home : N) (v : View N) : Prop where
  away : ∀ q ≠ home, (v.site q).pending ≠ [] → Awaited home v q
  idle : Idle home (v.site home)

/-- A request the home has buffered stays buffered until it is answered. -/
theorem buffered_onCall {q r : N} {t : Site N} (h : q ∈ t.pendingHome) (c : Call N) :
    q ∈ (onCall home noNode r c t).site.pendingHome ∨
      ∃ n, (q, .resolveResponse n) ∈ (onCall home noNode r c t).outbox := by
  have hregister : q ∈ (register home r t).site.pendingHome ∨
      ∃ n, (q, .resolveResponse n) ∈ (register home r t).outbox := by
    unfold register
    split
    · exact Or.inr ⟨r, by simp [announce, h]⟩
    · exact Or.inl h
  cases c with
  | registerEntity => exact hregister
  | entityImmigrated src => exact hregister
  | entityEmigrated newNode => exact Or.inl (by simpa [onCall, emigrate] using h)
  | unregisterEntity => exact Or.inl h
  | getLocation a => rw [onCall, getLocation_site]; exact Or.inl h
  | entityExists a => rw [onCall, entityExists_site]; exact Or.inl h

theorem buffered_onMsg {q r : N} {t : Site N} (h : q ∈ t.pendingHome) (m : Msg N) :
    q ∈ (onMsg noNode r m t).site.pendingHome ∨
      ∃ n, (q, .resolveResponse n) ∈ (onMsg noNode r m t).outbox := by
  cases m with
  | updateHome n => exact Or.inr ⟨n, by simp [onMsg, announce, h]⟩
  | locationRequest q' =>
      rw [onMsg]
      cases hserved : t.served r with
      | some n => rw [locationRequest_of_some hserved]; exact Or.inl h
      | none => rw [locationRequest_of_none hserved]; exact Or.inl (List.mem_append_left _ h)
  | resolveResponse n => exact Or.inl (by simpa [onMsg, resolveResponse] using h)
  | existsRequest q' => rw [onMsg, existsRequest_eq]; exact Or.inl h
  | existsResponse ex n => exact Or.inl (by cases ex <;> simpa [onMsg, existsResponse] using h)

/-- The request itself is buffered or answered when it arrives. -/
theorem buffered_locationRequest {q r : N} (t : Site N) :
    q ∈ (onMsg noNode r (.locationRequest q) t).site.pendingHome ∨
      ∃ n, (q, .resolveResponse n) ∈ (onMsg noNode r (.locationRequest q) t).outbox := by
  rw [onMsg]
  cases hserved : t.served r with
  | some n => rw [locationRequest_of_some hserved]; exact Or.inr ⟨n, by simp⟩
  | none => rw [locationRequest_of_none hserved]; exact Or.inl (by simp)

/-- Attending to `q` survives an activation that keeps what the home buffered. -/
theorem awaited_post {v : View N} {q r : N} {e : Effect N}
    (h : ⟨q, home, .locationRequest q⟩ ∈ v.net ∨ (∃ n, ⟨home, q, .resolveResponse n⟩ ∈ v.net) ∨
      if r = home then q ∈ e.site.pendingHome ∨ ∃ n, (q, .resolveResponse n) ∈ e.outbox
      else q ∈ (v.site home).pendingHome) :
    Awaited home (v.post r e) q := by
  rcases h with hreq | ⟨n, hresp⟩ | hbuf
  · exact Or.inl (List.mem_append_left _ hreq)
  · exact Or.inr (Or.inr ⟨n, List.mem_append_left _ hresp⟩)
  · split at hbuf
    · next hr =>
      subst hr
      rcases hbuf with hbuf | ⟨n, hsent⟩
      · exact Or.inr (Or.inl (by rwa [View.post_site_self]))
      · exact Or.inr (Or.inr ⟨n, List.mem_append_right _ (by simp [hsent])⟩)
    · next hr =>
      exact Or.inr (Or.inl (by rwa [View.post_site_of_ne _ _ (Ne.symm hr)]))

theorem Awaited.call {v : View N} {q : N} (h : Awaited home v q) (r : N) (c : Call N) :
    Awaited home (v.post r (onCall home noNode r c (v.site r))) q := by
  refine awaited_post ?_
  rcases h with hreq | hbuf | hresp
  · exact Or.inl hreq
  · refine Or.inr (Or.inr ?_)
    split
    · next hr =>
      subst hr
      exact buffered_onCall hbuf c
    · exact hbuf
  · exact Or.inr (Or.inl hresp)

theorem Awaited.deliver {v : View N} {q : N} {p : Packet N (Msg N)} (h : Awaited home v q)
    (hp : ∀ n, p ≠ ⟨home, q, .resolveResponse n⟩) :
    Awaited home ((v.take p).post p.dst (onMsg noNode p.dst p.body (v.site p.dst))) q := by
  refine awaited_post ?_
  rcases h with hreq | hbuf | ⟨n, hresp⟩
  · by_cases hreqp : (⟨q, home, .locationRequest q⟩ : Packet N (Msg N)) = p
    · subst hreqp
      refine Or.inr (Or.inr ?_)
      rw [if_pos rfl]
      exact buffered_locationRequest _
    · exact Or.inl ((List.mem_erase_of_ne hreqp).mpr hreq)
  · refine Or.inr (Or.inr ?_)
    split
    · next hr =>
      rw [hr]
      exact buffered_onMsg hbuf p.body
    · exact hbuf
  · exact Or.inr (Or.inl ⟨n, (List.mem_erase_of_ne (Ne.symm (hp n))).mpr hresp⟩)

/-- Whoever starts to wait away from the home sends a request. -/
theorem waiting_onCall {r : N} {t : Site N} (hr : r ≠ home) (c : Call N)
    (h : (onCall home noNode r c t).site.pending ≠ []) :
    t.pending ≠ [] ∨ (home, .locationRequest r) ∈ (onCall home noNode r c t).outbox := by
  cases c with
  | registerEntity => left; simpa [onCall, register, Ne.symm hr] using h
  | entityImmigrated src => left; simpa [onCall, register, Ne.symm hr] using h
  | entityEmigrated newNode => left; simpa [onCall, emigrate] using h
  | unregisterEntity => exact Or.inl h
  | entityExists a => left; rwa [onCall, entityExists_site] at h
  | getLocation a =>
      rw [onCall] at h ⊢
      cases hres : t.resolved r with
      | some n => rw [getLocation_of_some hres] at h; exact Or.inl h
      | none =>
          rw [getLocation_of_none hres]
          by_cases hempty : t.pending = []
          · exact Or.inr (by simp [hempty, Ne.symm hr])
          · exact Or.inl hempty

/-- A response leaves nobody waiting, and no other message makes anyone wait. -/
theorem waiting_onMsg {r : N} {t : Site N} {m : Msg N}
    (h : (onMsg noNode r m t).site.pending ≠ []) :
    t.pending ≠ [] ∧ ∀ n, m ≠ .resolveResponse n := by
  cases m with
  | updateHome n => exact absurd rfl h
  | locationRequest q => rw [onMsg, locationRequest_site] at h; exact ⟨h, by simp⟩
  | resolveResponse n => exact absurd rfl h
  | existsRequest q => rw [onMsg, existsRequest_eq] at h; exact ⟨h, by simp⟩
  | existsResponse ex n => exact ⟨by cases ex <;> simpa [onMsg, existsResponse] using h, by simp⟩

/-- A call on the home leaves it idle, if only a host emigrates the entity. -/
theorem idle_onCall {t : Site N} (h : Idle home t) {c : Call N}
    (hc : ∀ d, c = .entityEmigrated d → t.hosts = true) :
    Idle home (onCall home noNode home c t).site := by
  cases c with
  | registerEntity => simp [Idle, onCall, register, announce]
  | entityImmigrated src => simp [Idle, onCall, register, announce]
  | entityEmigrated newNode =>
      -- A host knows where the entity is, so nobody waits here.
      intro hwait
      have hnone := h (by simpa [onCall, emigrate] using hwait)
      rw [Site.served_eq_none, hc newNode rfl] at hnone
      exact absurd hnone.2 (by simp)
  | unregisterEntity => intro _; rfl
  | getLocation a =>
      rw [onCall]
      cases hres : t.resolved home with
      | some n => rw [getLocation_of_some hres]; exact h
      | none =>
          rw [getLocation_of_none hres]
          intro _
          exact Site.served_eq_none.mpr (Site.resolved_eq_none.mp hres).symm
  | entityExists a => rw [onCall, entityExists_site]; exact h

/-- So does any message the home receives. -/
theorem idle_onMsg (noNode : N) {p : Packet N (Msg N)} {t : Site N} (hp : Addressed home p)
    (hdst : p.dst = home) (h : Idle home t) : Idle home (onMsg noNode p.dst p.body t).site := by
  obtain ⟨src, dst, msg⟩ := p
  subst hdst
  cases msg with
  | updateHome n => simp [Idle, onMsg, announce]
  | locationRequest q =>
      rw [onMsg]
      cases hserved : t.served dst with
      | some n => rw [locationRequest_of_some hserved]; exact h
      | none => rw [locationRequest_of_none hserved]; intro _; exact hserved
  | resolveResponse n => exact absurd rfl hp.2
  | existsRequest q => rw [onMsg, existsRequest_eq]; exact h
  | existsResponse ex n => exact absurd rfl hp.2

theorem Attended.step {v v' : View N} {a : Act N} (h : Attended home v) (hv : Routed home v)
    (ha : HostEmigrates v a) (hs : Step home noNode v a v') : Attended home v' := by
  cases hs with
  | call r c =>
      refine ⟨fun q hq hwait => ?_, ?_⟩
      · by_cases hqr : q = r
        · subst hqr
          rw [View.post_site_self] at hwait
          rcases waiting_onCall hq c hwait with hold | hsent
          · exact (h.away q hq hold).call q c
          · exact Or.inl (List.mem_append_right _ (by simp [hsent]))
        · rw [View.post_site_of_ne _ _ hqr] at hwait
          exact (h.away q hq hwait).call r c
      · by_cases hr : home = r
        · subst hr
          rw [View.post_site_self]
          refine idle_onCall h.idle fun d hd => ?_
          subst hd
          exact ha
        · rw [View.post_site_of_ne _ _ hr]
          exact h.idle
  | deliver p hp =>
      refine ⟨fun q hq hwait => ?_, ?_⟩
      · by_cases hqp : q = p.dst
        · subst hqp
          rw [View.post_site_self] at hwait
          obtain ⟨hold, hbody⟩ := waiting_onMsg hwait
          exact (h.away _ hq hold).deliver fun n hpn => hbody n (congrArg Packet.body hpn)
        · rw [View.post_site_of_ne _ _ hqp] at hwait
          exact (h.away q hq hwait).deliver fun n hpn => hqp (congrArg Packet.dst hpn).symm
      · by_cases hr : home = p.dst
        · rw [hr, View.post_site_self, ← hr]
          have hidle := idle_onMsg noNode (hv.packet p hp) hr.symm h.idle
          rwa [← hr] at hidle
        · rw [View.post_site_of_ne _ _ hr]
          exact h.idle

theorem Attended.forget {v : View N} (h : Attended home v) (hv : Authority home v) (r : N) :
    Attended home (v.forget r) where
  away := by
    intro q hq hwait
    rw [View.forget_pending] at hwait
    rw [Awaited, View.forget_pendingHome]
    exact h.away q hq hwait
  idle := by
    by_cases hr : home = r
    · subst hr
      have hforget : (v.site home).forget = v.site home := by
        rw [Site.forget, ← (hv.site home).uncached rfl]
      rw [View.forget_site_self, hforget]
      exact h.idle
    · rw [View.forget_site_of_ne _ hr]
      exact h.idle

/-- **No stranded waiter**, in any run in which only hosts emigrate the entity. -/
theorem attended_of_run {ok : Runs.Guard (View N) (Act N)} {past : List (Act N)} {v : View N}
    (h : (machine home noNode).Run ok [] View.init past v)
    (hok : ∀ past v a, ok past v a → HostEmigrates v a) : Attended home v := by
  refine (invariant_of_run (I := fun _ v => Authority home v ∧ Attended home v) h ?_ ?_ ?_).2
  · refine ⟨authority_init, fun q _ hwait => absurd rfl hwait, fun hwait => ?_⟩
    exact absurd hwait (by simp [View.init, Site.blank])
  · intro past v a v' hv ha hs
    have hhost := hok past v a ha
    exact ⟨hv.1.step hhost hs, hv.2.step hv.1.routed hhost hs⟩
  · intro past v r hv
    exact ⟨hv.1.forget r, hv.2.forget hv.1 r⟩

omit [DecidableEq N] in
/-- With nothing in flight, nobody waits for an entity its home knows. -/
theorem Attended.settled {v : View N} (h : Attended home v) (hnet : v.net = [])
    (hknown : (v.site home).served home ≠ none) (r : N) : (v.site r).pending = [] := by
  by_contra hwait
  by_cases hr : r = home
  · subst hr
    exact hknown (h.idle (Or.inr hwait))
  · have hbuffered : r ∈ (v.site home).pendingHome := by
      simpa [Awaited, hnet] using h.away r hr hwait
    exact hknown (h.idle (Or.inl (List.ne_nil_of_mem hbuffered)))

end Loc.Entity
