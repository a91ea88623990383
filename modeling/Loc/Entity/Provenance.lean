import Loc.Entity.Routing

/-!
# Loc.Entity.Provenance

**No answer is invented.** Every node the protocol records, sends or answers was
named by the embedder before: the entity was registered there, immigrated there,
or was announced to be emigrating there.

The invariant follows a node through every place it can sit: a local
registration, both stores of a rank, every message in flight, every answer.
-/

namespace Loc.Entity

open Channel (Packet)

variable {N : Type} [DecidableEq N] {home noNode : N}

/-- The event names `n` as a place of the entity. -/
def Act.Names (n : N) : Act N → Prop
  | .call r .registerEntity => r = n
  | .call r (.entityImmigrated _) => r = n
  | .call _ (.entityEmigrated newNode) => newNode = n
  | _ => False

/-- Some event of the history names `n`. -/
def Named (past : List (Act N)) (n : N) : Prop := ∃ a ∈ past, a.Names n

omit [DecidableEq N] in
theorem Named.cons {past : List (Act N)} {n : N} (h : Named past n) (a : Act N) :
    Named (a :: past) n := by
  obtain ⟨b, hb, hn⟩ := h
  exact ⟨b, List.mem_cons_of_mem _ hb, hn⟩

/-- Every node a rank holds was named. -/
structure NamedSite (past : List (Act N)) (r : N) (t : Site N) : Prop where
  hosts : t.hosts = true → Named past r
  dir : ∀ n ∈ t.dir, Named past n
  cached : ∀ n ∈ t.cached, Named past n

/-- The node a message carries was named, and a negative answer carries none. -/
def NamedMsg (noNode : N) (past : List (Act N)) (p : Packet N (Msg N)) : Prop :=
  match p.body with
  | .updateHome n => Named past n
  | .resolveResponse n => Named past n
  | .existsResponse true n => Named past n
  | .existsResponse false n => n = noNode
  | .locationRequest _ => True
  | .existsRequest _ => True

/-- So was the node of an answer. -/
def NamedAnswer (noNode : N) (past : List (Act N)) : Answer N → Prop
  | .located _ _ n => Named past n
  | .existence _ _ true n => Named past n
  | .existence _ _ false n => n = noNode

/-- The provenance invariant. -/
def Provenance (noNode : N) (past : List (Act N)) : View N → Prop :=
  Everywhere (NamedSite past) (NamedMsg noNode past) (NamedAnswer noNode past)

section Named

variable {past : List (Act N)} {r : N} {t : Site N}

omit [DecidableEq N] in
theorem NamedSite.node (h : NamedSite past r t) {n : N} (hn : t.node = some n) :
    Named past n := by
  rcases Site.dir_or_cached_of_node hn with hdir | hcached
  · exact h.dir n hdir
  · exact h.cached n hcached

omit [DecidableEq N] in
theorem NamedSite.served (h : NamedSite past r t) {n : N} (hn : t.served r = some n) :
    Named past n := by
  rcases Option.or_eq_some_iff.mp hn with hnode | ⟨-, hhosts⟩
  · exact h.node hnode
  · obtain ⟨hhosts, hr⟩ := Option.ite_none_right_eq_some.mp hhosts
    exact Option.some.inj hr ▸ h.hosts hhosts

omit [DecidableEq N] in
theorem NamedSite.resolved (h : NamedSite past r t) {n : N} (hn : t.resolved r = some n) :
    Named past n := by
  unfold Site.resolved at hn
  split at hn
  · next hhosts => exact Option.some.inj hn ▸ h.hosts hhosts
  · exact h.node hn

omit [DecidableEq N] in
theorem NamedSite.learn (h : NamedSite past r t) {n : N} (hn : Named past n) :
    NamedSite past r (t.learn n) where
  hosts := by
    rw [Site.learn_hosts]
    exact h.hosts
  dir := by
    intro m hm
    rw [Site.learn_dir] at hm
    obtain ⟨-, -, rfl⟩ := Option.map_eq_some_iff.mp hm
    exact hn
  cached := by
    intro m hm
    rw [Site.learn_cached] at hm
    split at hm
    · exact h.cached m hm
    · exact Option.some.inj hm ▸ hn

theorem named_announce {n : N} (h : NamedSite past r t) (hn : Named past n) :
    Good (NamedSite past) (NamedMsg noNode past) (NamedAnswer noNode past) r
      (announce r n t) where
  site := ⟨h.hosts, fun m hm => Option.some.inj hm ▸ hn, h.cached⟩
  outbox := by
    intro m hm
    obtain ⟨q, -, rfl⟩ := List.mem_map.mp hm
    exact hn
  answers := by
    intro x hx
    obtain ⟨a, -, rfl⟩ := List.mem_map.mp hx
    exact hn

theorem named_register (h : NamedSite past r t) (hr : Named past r) :
    Good (NamedSite past) (NamedMsg noNode past) (NamedAnswer noNode past) r
      (register home r t) := by
  unfold register
  split
  · exact named_announce (t := { t with hosts := true }) ⟨fun _ => hr, h.dir, h.cached⟩ hr
  · refine ⟨⟨fun _ => hr, h.dir, h.cached⟩, fun m hm => ?_, by simp⟩
    obtain rfl := List.mem_singleton.mp hm
    exact hr

/-- A call leaves only named nodes behind: it names the ones it adds. -/
theorem named_onCall (noNode : N) (h : NamedSite past r t) {c : Call N}
    (hc : ∀ n, (Act.call r c).Names n → Named past n) :
    Good (NamedSite past) (NamedMsg noNode past) (NamedAnswer noNode past) r
      (onCall home noNode r c t) := by
  cases c with
  | registerEntity => exact named_register h (hc r rfl)
  | entityImmigrated src => exact named_register h (hc r rfl)
  | entityEmigrated newNode =>
      have hoff : NamedSite past r { t with hosts := false } :=
        ⟨fun hf => absurd hf (by simp), h.dir, h.cached⟩
      exact ⟨hoff.learn (hc newNode rfl), by simp [onCall, emigrate], by simp [onCall, emigrate]⟩
  | unregisterEntity =>
      exact ⟨⟨fun hf => absurd hf (by simp [onCall, unregister]), by simp [onCall, unregister],
        by simp [onCall, unregister]⟩, by simp [onCall, unregister], by simp [onCall, unregister]⟩
  | getLocation a =>
      rw [onCall]
      cases hres : t.resolved r with
      | some n =>
          rw [getLocation_of_some hres]
          exact ⟨h, by simp, by simpa [NamedAnswer] using h.resolved hres⟩
      | none =>
          rw [getLocation_of_none hres]
          refine ⟨⟨h.hosts, h.dir, h.cached⟩, fun m hm => ?_, by simp⟩
          simp only [List.mem_ite_nil_right, List.mem_singleton] at hm
          obtain ⟨-, rfl⟩ := hm
          trivial
  | entityExists a =>
      rw [onCall]
      cases hres : t.resolved r with
      | some n =>
          rw [entityExists_of_some hres]
          exact ⟨h, by simp, by simpa [NamedAnswer] using h.resolved hres⟩
      | none =>
          by_cases hr : home = r
          · subst hr
            rw [entityExists_home_of_none hres]
            exact ⟨h, by simp, by simp [NamedAnswer]⟩
          · rw [entityExists_of_none hr hres]
            refine ⟨⟨h.hosts, h.dir, h.cached⟩, fun m hm => ?_, by simp⟩
            simp only [List.mem_ite_nil_right, List.mem_singleton] at hm
            obtain ⟨-, rfl⟩ := hm
            trivial

/-- And so does a message: it passes on the node it carries or the one recorded. -/
theorem named_onMsg {p : Packet N (Msg N)} (h : NamedSite past p.dst t)
    (hp : NamedMsg noNode past p) :
    Good (NamedSite past) (NamedMsg noNode past) (NamedAnswer noNode past) p.dst
      (onMsg noNode p.dst p.body t) := by
  obtain ⟨src, dst, msg⟩ := p
  cases msg with
  | updateHome n => exact named_announce h hp
  | locationRequest q =>
      rw [onMsg]
      cases hserved : t.served dst with
      | some n =>
          rw [locationRequest_of_some hserved]
          exact ⟨⟨h.hosts, h.dir, h.cached⟩, by simpa [NamedMsg] using h.served hserved, by simp⟩
      | none =>
          rw [locationRequest_of_none hserved]
          exact ⟨⟨h.hosts, h.dir, h.cached⟩, by simp, by simp⟩
  | resolveResponse n =>
      have hlearn := h.learn (show Named past n from hp)
      refine ⟨⟨hlearn.hosts, hlearn.dir, hlearn.cached⟩, by simp [onMsg, resolveResponse], ?_⟩
      intro x hx
      obtain ⟨a, -, rfl⟩ := List.mem_map.mp hx
      exact hp
  | existsRequest q =>
      rw [onMsg, existsRequest_eq]
      refine ⟨h, fun m hm => ?_, by simp⟩
      obtain rfl := List.mem_singleton.mp hm
      cases hserved : t.served dst with
      | some n => exact h.served hserved
      | none => exact rfl
  | existsResponse ex n =>
      cases ex with
      | false =>
          refine ⟨⟨h.hosts, h.dir, h.cached⟩, by simp [onMsg, existsResponse], fun x hx => ?_⟩
          obtain ⟨a, -, rfl⟩ := List.mem_map.mp hx
          exact hp
      | true =>
          have hlearn := h.learn (show Named past n from hp)
          refine ⟨⟨hlearn.hosts, hlearn.dir, hlearn.cached⟩, by simp [onMsg, existsResponse],
            fun x hx => ?_⟩
          obtain ⟨a, -, rfl⟩ := List.mem_map.mp hx
          exact hp

end Named

omit [DecidableEq N] in
/-- What was named stays named. -/
theorem Provenance.cons {past : List (Act N)} {v : View N} (h : Provenance noNode past v)
    (a : Act N) : Provenance noNode (a :: past) v := by
  refine Everywhere.mono h (fun r t ht => ?_) (fun p hp => ?_) fun x hx => ?_
  · exact ⟨fun hhosts => (ht.hosts hhosts).cons a, fun n hn => (ht.dir n hn).cons a,
      fun n hn => (ht.cached n hn).cons a⟩
  · obtain ⟨src, dst, msg⟩ := p
    cases msg with
    | existsResponse ex n => cases ex <;> first | exact hp | exact Named.cons hp a
    | locationRequest q => trivial
    | existsRequest q => trivial
    | _ => exact Named.cons hp a
  · cases x with
    | located r b n => exact Named.cons hx a
    | existence r b ex n => cases ex <;> first | exact hx | exact Named.cons hx a

theorem Provenance.step {past : List (Act N)} {v v' : View N} {a : Act N}
    (h : Provenance noNode past v) (hs : Step home noNode v a v') :
    Provenance noNode (a :: past) v' := by
  refine Everywhere.step (h.cons a) hs (fun r c t ha ht _ => ?_) fun p t _ hp ht _ => ?_
  · subst ha
    exact named_onCall noNode ht fun n hn => ⟨_, List.mem_cons_self, hn⟩
  · exact named_onMsg ht hp

/-- **Provenance**, in every run of the protocol. -/
theorem provenance_of_run {ok : Runs.Guard (View N) (Act N)} {past : List (Act N)} {v : View N}
    (h : (machine home noNode).Run ok [] View.init past v) : Provenance noNode past v := by
  refine invariant_of_run (I := fun past v => Provenance noNode past v) h ?_ ?_ ?_
  · refine ⟨fun r => ?_, by simp [View.init], by simp [View.init]⟩
    exact ⟨by simp [View.init, Site.blank], by simp [View.init, Site.blank],
      by simp [View.init, Site.blank]⟩
  · intro past v a v' hv _ hs
    exact hv.step hs
  · intro past v r hv
    exact Everywhere.forget hv r fun t ht => ⟨ht.hosts, ht.dir, by simp [Site.forget]⟩

end Loc.Entity
