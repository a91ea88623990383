import Loc.Entity.Routing

/-!
# Loc.Entity.Ledger

The **authoritative part** of one entity's protocol: which ranks host it, and what
the directories say.

`Ledger.next` is what an event does to it, in terms of the ledger alone. Queries,
requests and responses do nothing to it: a response writes wherever the entity is
already recorded, but responses are never addressed to the home, and no other rank
has a directory record for the write to hit.
-/

namespace Loc.Entity

variable {N : Type} [DecidableEq N] {home noNode : N}

/-- Who hosts the entity, and the nodes of the directory records. -/
@[ext]
structure Ledger (N : Type) where
  hosts : N → Bool
  dir : N → Option N

/-- The authoritative part of a view. -/
def View.ledger (v : View N) : Ledger N := ⟨fun r => (v.site r).hosts, fun r => (v.site r).dir⟩

/-- The event is a move of the entity, or an update of its home's record. -/
def Act.authoritative : Act N → Bool
  | .call _ .registerEntity => true
  | .call _ (.entityImmigrated _) => true
  | .call _ (.entityEmigrated _) => true
  | .call _ .unregisterEntity => true
  | .deliver ⟨_, _, .updateHome _⟩ => true
  | _ => false

namespace Ledger

/-- Write what `r` says. -/
def set (g : Ledger N) (r : N) (hosts : Bool) (dir : Option N) : Ledger N :=
  ⟨Function.update g.hosts r hosts, Function.update g.dir r dir⟩

/-- What an event does to the ledger. -/
def next (home : N) (g : Ledger N) : Act N → Ledger N
  | .call r .registerEntity => g.set r true (if home = r then some r else g.dir r)
  | .call r (.entityImmigrated _) => g.set r true (if home = r then some r else g.dir r)
  | .call r (.entityEmigrated newNode) => g.set r false ((g.dir r).map fun _ => newNode)
  | .call r .unregisterEntity => g.set r false none
  | .deliver ⟨_, dst, .updateHome n⟩ => g.set dst (g.hosts dst) (some n)
  | _ => g

theorem next_of_not_authoritative {a : Act N} (h : a.authoritative = false) (home : N)
    (g : Ledger N) : g.next home a = g := by
  cases a with
  | call r c => cases c <;> first | rfl | exact absurd h (by simp [Act.authoritative])
  | deliver p =>
      obtain ⟨src, dst, msg⟩ := p
      cases msg <;> first | rfl | exact absurd h (by simp [Act.authoritative])

/-- Writing what is there changes nothing. -/
theorem set_self (g : Ledger N) (r : N) : g.set r (g.hosts r) (g.dir r) = g := by
  simp [set]

end Ledger

theorem ledger_post (v : View N) (r : N) (e : Effect N) :
    (v.post r e).ledger = v.ledger.set r e.site.hosts e.site.dir := by
  ext r'
  · by_cases hr : r' = r
    · subst hr
      simp [View.ledger, Ledger.set]
    · simp [View.ledger, Ledger.set, hr]
  · by_cases hr : r' = r
    · subst hr
      simp [View.ledger, Ledger.set]
    · simp [View.ledger, Ledger.set, hr]

/-- **One step**, on the ledger. -/
theorem ledger_step {v v' : View N} {a : Act N} (hv : Routed home v)
    (hs : Step home noNode v a v') : v'.ledger = v.ledger.next home a := by
  cases hs with
  | call r c =>
      rw [ledger_post, onCall_hosts, onCall_dir]
      cases c with
      | getLocation b => exact v.ledger.set_self r
      | entityExists b => exact v.ledger.set_self r
      | _ => rfl
  | deliver p hp =>
      have haddr := hv.packet p hp
      rw [ledger_post, onMsg_hosts, onMsg_dir]
      obtain ⟨src, dst, msg⟩ := p
      -- A response goes to a rank that is not the home, whose directory is empty.
      have hresponse : dst ≠ home → ∀ n, v.ledger.set dst (v.site dst).hosts
          ((v.site dst).dir.map fun _ => n) = v.ledger := by
        intro hne n
        have hdir := (hv.site dst).dir hne
        rw [hdir, Option.map_none, ← hdir]
        exact v.ledger.set_self dst
      cases msg with
      | updateHome n => rfl
      | resolveResponse n => exact hresponse haddr.2 n
      | existsResponse ex n =>
          cases ex with
          | false => exact v.ledger.set_self dst
          | true => exact hresponse haddr.2 n
      | locationRequest q => exact v.ledger.set_self dst
      | existsRequest q => exact v.ledger.set_self dst

theorem ledger_forget (v : View N) (r : N) : (v.forget r).ledger = v.ledger := by
  ext r'
  · simp [View.ledger]
  · simp [View.ledger]

/-! ### Updates -/

/-- A message that updates the home's record. -/
def isUpdate : Msg N → Bool
  | .updateHome _ => true
  | _ => false

/-- The update an event sends. -/
def Act.update (home : N) : Act N → List (N × Msg N)
  | .call r .registerEntity => if home = r then [] else [(home, .updateHome r)]
  | .call r (.entityImmigrated _) => if home = r then [] else [(home, .updateHome r)]
  | _ => []

/-- Of what an activation sends, the updates are those. -/
theorem updates_onCall (r : N) (c : Call N) (t : Site N) :
    (onCall home noNode r c t).outbox.filter (fun m => isUpdate m.2) =
      (Act.call r c).update home := by
  have hregister : (register home r t).outbox.filter (fun m => isUpdate m.2) =
      if home = r then [] else [(home, .updateHome r)] := by
    unfold register
    split
    · rw [List.filter_eq_nil_iff]
      intro m hm
      obtain ⟨q, -, rfl⟩ := List.mem_map.mp hm
      simp [isUpdate]
    · rfl
  have hquery : c.moves r = none →
      (onCall home noNode r c t).outbox.filter (fun m => isUpdate m.2) = [] := by
    intro hc
    rw [List.filter_eq_nil_iff]
    intro m hm
    rcases (onCall_query home noNode hc t).2 m hm with rfl | rfl
    · simp [isUpdate]
    · simp [isUpdate]
  cases c with
  | registerEntity => exact hregister
  | entityImmigrated src => exact hregister
  | entityEmigrated newNode => rfl
  | unregisterEntity => rfl
  | getLocation b => exact hquery rfl
  | entityExists b => exact hquery rfl

theorem updates_onMsg (r : N) (m : Msg N) (t : Site N) :
    (onMsg noNode r m t).outbox.filter (fun m => isUpdate m.2) = [] := by
  rw [List.filter_eq_nil_iff]
  intro x hx
  cases m with
  | updateHome n =>
      obtain ⟨q, -, rfl⟩ := List.mem_map.mp hx
      simp [isUpdate]
  | locationRequest q =>
      rw [onMsg] at hx
      cases hserved : t.served r with
      | some n =>
          rw [locationRequest_of_some hserved] at hx
          rw [List.mem_singleton.mp hx]
          simp [isUpdate]
      | none =>
          rw [locationRequest_of_none hserved] at hx
          exact absurd hx List.not_mem_nil
  | resolveResponse n => exact absurd hx List.not_mem_nil
  | existsRequest q =>
      rw [onMsg, existsRequest_eq] at hx
      rw [List.mem_singleton.mp hx]
      simp [isUpdate]
  | existsResponse ex n => exact absurd hx List.not_mem_nil

end Loc.Entity
