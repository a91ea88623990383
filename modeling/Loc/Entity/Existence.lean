import Loc.Entity.Waiters

/-!
# Loc.Entity.Existence

**One exchange per queue.** A rank with existence callbacks waiting has exactly
one exchange with the home under way, a request or its response in flight; a rank
with none has no exchange under way.

Requests and responses are counted together: handling a request turns it into a
response, so it leaves the count alone, and only the first waiter adds to it.
-/

namespace Loc.Entity

open Channel (Packet posted)

variable {N : Type} [DecidableEq N] {home noNode : N}

/-- The packet belongs to an existence exchange of `r`. -/
def exchanges (r : N) (p : Packet N (Msg N)) : Bool :=
  match p.body with
  | .existsRequest q => q = r
  | .existsResponse _ _ => p.dst = r
  | _ => false

/-- How many exchanges the rank should have under way. -/
def due (t : Site N) : Nat := if t.pendingExists = [] then 0 else 1

/-- Every rank has the exchange under way that its queue is due, and no other. -/
def Exchanging (v : View N) : Prop := ∀ r, v.net.countP (exchanges r) = due (v.site r)

/-- Sending a message that is no part of an exchange. -/
theorem countP_posted_eq_zero {r q : N} {outbox : List (N × Msg N)}
    (h : ∀ m ∈ outbox, ∀ d, exchanges q ⟨r, d, m.2⟩ = false) :
    (posted r outbox).countP (exchanges q) = 0 := by
  rw [List.countP_eq_zero]
  intro p hp
  rw [Channel.mem_posted] at hp
  obtain ⟨src, dst, body⟩ := p
  obtain ⟨rfl, hm⟩ := hp
  simp [h _ hm dst]

theorem countP_announce {r n q : N} (t : Site N) :
    (posted r (announce r n t).outbox).countP (exchanges q) = 0 := by
  refine countP_posted_eq_zero fun m hm d => ?_
  obtain ⟨q', -, rfl⟩ := List.mem_map.mp hm
  rfl

theorem countP_register {r q : N} (t : Site N) :
    (posted r (register home r t).outbox).countP (exchanges q) = 0 := by
  unfold register
  split
  · exact countP_announce _
  · rfl

theorem due_register {r : N} (t : Site N) : due (register home r t).site = due t := by
  unfold register
  split <;> rfl

/-- A call opens an exchange exactly when its queue becomes due one. -/
theorem exchanges_onCall (home noNode r : N) (t : Site N) (c : Call N) (q : N) :
    (posted r (onCall home noNode r c t).outbox).countP (exchanges q) +
      (if q = r then due t else 0) =
    if q = r then due (onCall home noNode r c t).site else 0 := by
  cases c with
  | registerEntity => rw [onCall, countP_register, Nat.zero_add, due_register]
  | entityImmigrated src => rw [onCall, countP_register, Nat.zero_add, due_register]
  | entityEmigrated newNode => simp [onCall, emigrate, due]
  | unregisterEntity => exact Nat.zero_add _
  | getLocation a =>
      have hout : (posted r (getLocation home r a t).outbox).countP (exchanges q) = 0 := by
        cases hres : t.resolved r with
        | some n => rw [getLocation_of_some hres]; rfl
        | none =>
            rw [getLocation_of_none hres]
            dsimp only
            split <;> rfl
      rw [onCall, hout, getLocation_site, Nat.zero_add]
      rfl
  | entityExists a =>
      rw [onCall]
      cases hres : t.resolved r with
      | some n =>
          rw [entityExists_of_some hres]
          exact Nat.zero_add _
      | none =>
          by_cases hr : home = r
          · subst hr
            rw [entityExists_home_of_none hres]
            exact Nat.zero_add _
          · rw [entityExists_of_none hr hres]
            by_cases hq : q = r
            · subst hq
              by_cases hempty : t.pendingExists = [] <;> simp [due, hempty, exchanges]
            · by_cases hempty : t.pendingExists = [] <;>
                simp [hempty, hq, exchanges, Ne.symm hq]

/-- Handling a request keeps its exchange under way, and a response ends it. -/
theorem exchanges_onMsg (noNode : N) {p : Packet N (Msg N)} (t : Site N) (q : N)
    (hdue : exchanges p.dst p = true → due t = 1) :
    (posted p.dst (onMsg noNode p.dst p.body t).outbox).countP (exchanges q) +
      (if q = p.dst then due t else 0) =
    (if exchanges q p = true then 1 else 0) +
      if q = p.dst then due (onMsg noNode p.dst p.body t).site else 0 := by
  obtain ⟨src, dst, msg⟩ := p
  cases msg with
  | updateHome n =>
      rw [onMsg, countP_announce]
      rfl
  | locationRequest q' =>
      have hout : (posted dst (locationRequest dst q' t).outbox).countP (exchanges q) = 0 := by
        cases hserved : t.served dst with
        | some n => rw [locationRequest_of_some hserved]; rfl
        | none => rw [locationRequest_of_none hserved]; rfl
      rw [onMsg, hout, locationRequest_site]
      rfl
  | resolveResponse n => simp [onMsg, resolveResponse, exchanges, due]
  | existsRequest q' =>
      rw [onMsg, existsRequest_eq]
      by_cases hq : q' = q <;> simp [exchanges, hq]
  | existsResponse ex n =>
      have hclosed : due (onMsg noNode dst (.existsResponse ex n) t).site = 0 := rfl
      have hopen : due t = 1 := by simpa [exchanges] using hdue
      rw [hclosed, hopen]
      by_cases hq : q = dst
      · simp [onMsg, existsResponse, exchanges, hq]
      · simp [onMsg, existsResponse, exchanges, hq, Ne.symm hq]

theorem Exchanging.step {v v' : View N} {a : Act N} (h : Exchanging v)
    (hs : Step home noNode v a v') : Exchanging v' := by
  intro q
  cases hs with
  | call r c =>
      have hcall := exchanges_onCall home noNode r (v.site r) c q
      rw [View.post_net, List.countP_append, h q]
      by_cases hq : q = r
      · subst hq
        rw [if_pos rfl, if_pos rfl] at hcall
        rw [View.post_site_self]
        omega
      · rw [if_neg hq, if_neg hq] at hcall
        rw [View.post_site_of_ne _ _ hq]
        omega
  | deliver p hp =>
      have herase : v.net.countP (exchanges q) =
          (v.net.erase p).countP (exchanges q) + if exchanges q p = true then 1 else 0 := by
        rw [(List.perm_cons_erase hp).countP_eq, List.countP_cons]
      -- A response in flight was due, and at most one exchange ever is.
      have hdue : exchanges p.dst p = true → due (v.site p.dst) = 1 := by
        intro hex
        have hpos : 0 < v.net.countP (exchanges p.dst) := List.countP_pos_iff.mpr ⟨p, hp, hex⟩
        rw [h p.dst] at hpos
        unfold due at hpos ⊢
        split
        · next hempty => simp [hempty] at hpos
        · rfl
      have hmsg := exchanges_onMsg noNode (v.site p.dst) q hdue
      have hq := h q
      rw [View.post_net, View.take_net, List.countP_append]
      by_cases hqd : q = p.dst
      · rw [if_pos hqd, if_pos hqd] at hmsg
        rw [← hqd] at hmsg
        rw [hqd, View.post_site_self, ← hqd]
        omega
      · rw [if_neg hqd, if_neg hqd] at hmsg
        rw [View.post_site_of_ne _ _ hqd]
        show _ = due (v.site q)
        omega

/-- **Exactly one exchange per non-empty queue**, in any run of the protocol. -/
theorem exchanging_of_run {ok : Runs.Guard (View N) (Act N)} {past : List (Act N)} {v : View N}
    (h : (machine home noNode).Run ok [] View.init past v) : Exchanging v := by
  refine invariant_of_run (I := fun _ v => Exchanging v) h ?_ ?_ ?_
  · intro r
    rfl
  · intro past v a v' hv _ hs
    exact hv.step hs
  · intro past v r hv q
    rw [View.forget_net, hv q, due, due, View.forget_pendingExists]

/-- With nothing in flight, nobody waits. -/
theorem Exchanging.settled {v : View N} (h : Exchanging v) (hnet : v.net = []) (r : N) :
    (v.site r).pendingExists = [] := by
  have hdue := h r
  rw [hnet, List.countP_nil, due] at hdue
  by_contra hne
  rw [if_neg hne] at hdue
  exact absurd hdue (by decide)

end Loc.Entity
