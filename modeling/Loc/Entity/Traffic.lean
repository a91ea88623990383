import Mathlib.Algebra.Order.BigOperators.Group.List
import Mathlib.Data.List.Perm.Subperm
import Mathlib.Algebra.Order.Group.Nat
import Mathlib.Tactic.Ring
import Loc.Entity.Interest

/-!
# Loc.Entity.Traffic

**How many messages the resolver sends.** Every query costs at most a request and a
response. Every announcement costs at most an update and a refresh of each rank that
has ever asked: the answers to buffered requests are paid for by the queries behind
them.

Each message in flight has a price that covers itself and what its handler will send
(`price`), each buffered request one response. `bill_step` says that an event adds to
what has been delivered and what is still owed no more than it is charged for.
-/

namespace Loc.Entity

open Channel (Packet posted)

variable {N : Type} [DecidableEq N] {home noNode : N} {K : Nat}

/-- What sending a message leads to, when the home refreshes at most `K` ranks. -/
def price (K : Nat) : Msg N → Nat
  | .updateHome _ => K + 1
  | .locationRequest _ | .existsRequest _ => 2
  | .resolveResponse _ | .existsResponse _ _ => 1

/-- The event is a delivery. -/
def Act.isDelivery : Act N → Bool
  | .call _ _ => false
  | .deliver _ => true

/-- The event is a query. -/
def Act.isQuery : Act N → Bool
  | .call _ (.getLocation _) | .call _ (.entityExists _) => true
  | _ => false

/-- A rank announces that it hosts the entity. -/
def Act.announces : Act N → Bool
  | .call _ .registerEntity | .call _ (.entityImmigrated _) => true
  | _ => false

/-- What a history may have cost. -/
def allowance (K : Nat) (past : List (Act N)) : Nat :=
  2 * past.countP Act.isQuery + (K + 1) * past.countP Act.announces

/-- What a history has cost, and what it still owes. -/
def bill (K : Nat) (home : N) (past : List (Act N)) (v : View N) : Nat :=
  past.countP Act.isDelivery + (v.net.map fun p => price K p.body).sum +
    (v.site home).pendingHome.length

/-- The prices of what an activation sends. -/
def Effect.price (K : Nat) (e : Effect N) : Nat := (e.outbox.map fun m => Entity.price K m.2).sum

omit [DecidableEq N] in
theorem one_le_price (m : Msg N) : 1 ≤ price K m := by
  cases m <;> simp [price]

/-! ### One activation -/

section Effects

variable {r : N} {t : Site N}

theorem price_announce (n : N) :
    (announce r n t).price K + (announce r n t).site.pendingHome.length =
      t.asks.length + t.pendingHome.length := by
  simp [Effect.price, announce, Function.comp_def, price]

theorem price_register (hasks : t.asks.length ≤ K) :
    (register home r t).price K + (register home r t).site.pendingHome.length ≤
      t.pendingHome.length + (K + 1) := by
  unfold register
  split
  · have heq := price_announce (K := K) (r := r) (t := { t with hosts := true }) r
    dsimp only at heq
    omega
  · simp [Effect.price, price]
    omega

/-- A call sends no more than it is charged for. -/
theorem price_onCall (home noNode r : N) (hasks : t.asks.length ≤ K) (c : Call N) :
    (onCall home noNode r c t).price K + (onCall home noNode r c t).site.pendingHome.length ≤
      t.pendingHome.length + allowance K [.call r c] := by
  cases c with
  | registerEntity => exact (price_register hasks).trans (by simp [allowance, Act.announces])
  | entityImmigrated src => exact (price_register hasks).trans (by simp [allowance, Act.announces])
  | entityEmigrated newNode => simp [onCall, emigrate, Effect.price]
  | unregisterEntity => simp [onCall, unregister, Effect.price]
  | getLocation a =>
      rw [onCall]
      cases hres : t.resolved r with
      | some n => rw [getLocation_of_some hres]; simp [Effect.price]
      | none =>
          rw [getLocation_of_none hres, Effect.price]
          dsimp only
          split <;> simp [price, allowance, Act.isQuery]
          omega
  | entityExists a =>
      rw [onCall]
      cases hres : t.resolved r with
      | some n => rw [entityExists_of_some hres]; simp [Effect.price]
      | none =>
          by_cases hr : home = r
          · subst hr
            rw [entityExists_home_of_none hres]
            simp [Effect.price]
          · rw [entityExists_of_none hr hres, Effect.price]
            dsimp only
            split <;> simp [price, allowance, Act.isQuery]
            omega

/-- A message pays for its own delivery and for what its handler sends. -/
theorem price_onMsg (noNode r : N) (hasks : t.asks.length ≤ K) (m : Msg N) :
    1 + (onMsg noNode r m t).price K + (onMsg noNode r m t).site.pendingHome.length ≤
      t.pendingHome.length + price K m := by
  cases m with
  | updateHome n =>
      have heq := price_announce (K := K) (r := r) (t := t) n
      rw [onMsg, price]
      omega
  | locationRequest q =>
      rw [onMsg]
      cases hserved : t.served r with
      | some n =>
          rw [locationRequest_of_some hserved]
          simp [Effect.price, price]
          omega
      | none =>
          rw [locationRequest_of_none hserved]
          simp [Effect.price, price]
          omega
  | resolveResponse n => simp [onMsg, resolveResponse, Effect.price, price]; omega
  | existsRequest q =>
      rw [onMsg, existsRequest_eq]
      simp [Effect.price, price]
      omega
  | existsResponse ex n =>
      cases ex <;> simp [onMsg, existsResponse, Effect.price, price] <;> omega

end Effects

/-! ### Runs -/

omit [DecidableEq N] in
theorem allowance_cons (a : Act N) (past : List (Act N)) :
    allowance K (a :: past) = allowance K past + allowance K [a] := by
  simp only [allowance, List.countP_cons, List.countP_nil]
  ring

omit [DecidableEq N] in
theorem price_posted (r : N) (e : Effect N) :
    ((posted r e.outbox).map fun p => price K p.body).sum = e.price K := by
  simp [posted, Effect.price, Function.comp_def]

/-- **No event costs more than it is charged for.** -/
theorem bill_step {past : List (Act N)} {v v' : View N} {a : Act N} (hv : Routed home v)
    (hasks : (v.site home).asks.length ≤ K)
    (hs : Step home noNode v a v') (h : bill K home past v ≤ allowance K past) :
    bill K home (a :: past) v' ≤ allowance K (a :: past) := by
  have hempty : ∀ r ≠ home, (v.site r).asks.length ≤ K ∧ (v.site r).pendingHome.length = 0 :=
    fun r hr => ⟨by simp [(hv.site r).asks hr], by simp [(hv.site r).pendingHome hr]⟩
  have hasks : ∀ r, (v.site r).asks.length ≤ K := fun r => by
    by_cases hr : r = home
    · exact hr ▸ hasks
    · exact (hempty r hr).1
  rw [allowance_cons]
  unfold bill at h ⊢
  cases hs with
  | call r c =>
      have hprice := price_onCall home noNode r (hasks r) c
      rw [View.post_net, List.map_append, List.sum_append, price_posted, List.countP_cons]
      by_cases hr : home = r
      · subst hr
        rw [View.post_site_self]
        simp only [Act.isDelivery, Bool.false_eq_true, if_false]
        omega
      · rw [View.post_site_of_ne _ _ hr]
        have hbuf := (hempty r (Ne.symm hr)).2
        simp only [Act.isDelivery, Bool.false_eq_true, if_false]
        omega
  | deliver p hp =>
      have hprice := price_onMsg noNode p.dst (hasks p.dst) p.body
      have herase : price K p.body + ((v.net.erase p).map fun q => price K q.body).sum =
          (v.net.map fun q => price K q.body).sum :=
        List.sum_map_erase (fun q => price K q.body) hp
      rw [View.post_net, View.take_net, List.map_append, List.sum_append, price_posted,
        List.countP_cons]
      by_cases hr : home = p.dst
      · rw [hr, View.post_site_self]
        rw [hr] at h
        simp only [Act.isDelivery, if_true]
        omega
      · rw [View.post_site_of_ne _ _ hr, View.take_site]
        have hbuf := (hempty p.dst (Ne.symm hr)).2
        simp only [Act.isDelivery, if_true]
        omega

/-- **The traffic is bounded**, in every run in which only the ranks of `A` ask where
the entity is. -/
theorem bill_le_of_run {ok : Runs.Guard (View N) (Act N)} {past : List (Act N)} {v : View N}
    (h : (machine home noNode).Run ok [] View.init past v) {A : List N}
    (hA : ∀ q ≠ home, Asked past q → q ∈ A) :
    bill A.length home past v ≤ allowance A.length past := by
  refine (invariant_of_run (I := fun past v => Routed home v ∧ Interested past v ∧
    AskersExact home past v ∧ ((∀ q ≠ home, Asked past q → q ∈ A) →
      bill A.length home past v ≤ allowance A.length past)) h ?_ ?_ ?_).2.2.2 hA
  · refine ⟨routed_init, interested_init, askersExact_init, fun _ => ?_⟩
    simp [bill, View.init, Site.blank]
  · rintro past v a v' ⟨hrouted, hint, hrem, hbill⟩ _ hs
    refine ⟨hrouted.step hs, hint.step hs, hrem.step hs, fun hA => ?_⟩
    have hA' : ∀ q ≠ home, Asked past q → q ∈ A := fun q hq hasked => hA q hq (hasked.cons a)
    refine bill_step hrouted ?_ hs (hbill hA')
    -- The askers are distinct ranks of `A`.
    refine (hrem.1.subperm fun q hq => ?_).length_le
    exact hA' q ((hrouted.site home).asker_ne q hq) ((hint.site home).asks q hq)
  · rintro past v r ⟨hrouted, hint, hrem, hbill⟩
    refine ⟨hrouted.forget r, hint.forget r, hrem.forget r, fun hA => ?_⟩
    rw [bill, View.forget_net, View.forget_pendingHome]
    exact hbill hA

end Loc.Entity
