import Mathlib.Logic.Function.Basic
import Mathlib.Tactic.Tauto
import Loc.Lib.Channel
import Loc.Lib.Runs
import Loc.Message

/-!
# Loc.Entity.Protocol

The **protocol of a single entity**: what the resolver does about one entity,
with everything else forgotten.

Each rank has a `Site`: whether it hosts the entity, what its directory and its
cache say about it, who waits there. The packets are those about this entity. A
rank may `forget` its cached record at any time, which is all that eviction by
other entities and clearing of caches amount to. Nothing here mentions maps,
recency lists, or other entities, and the ranks are an arbitrary type.

`Loc.Refinement` shows that the coordinators, looked at through one entity, run
this protocol. The guarantees of the resolver are proved here and carried over.
-/

namespace Loc.Entity

open Channel (Packet posted)

variable {N : Type}

/-- What one rank knows and owes about the entity. -/
structure Site (N : Type) where
  /-- The entity is physically registered here. -/
  hosts : Bool
  /-- The node of the directory's record. -/
  dir : Option N
  /-- The node of the cache's record. -/
  cached : Option N
  pending : List NodeAction
  pendingExists : List ExistsAction
  pendingHome : List N
  asks : List N
  deriving DecidableEq, Repr

namespace Site

/-- A site that has never heard of the entity. -/
def blank : Site N := ⟨false, none, none, [], [], [], []⟩

/-- The recorded node: the directory answers first. -/
def node (t : Site N) : Option N := t.dir.or t.cached

/-- What a query on the rank `r` itself finds: a local registration first. -/
def resolved (r : N) (t : Site N) : Option N := if t.hosts then some r else t.node

/-- What the handlers on `r` answer other ranks: the record first. -/
def served (r : N) (t : Site N) : Option N := t.node.or (if t.hosts then some r else none)

/-- Lose the cached record. -/
def forget (t : Site N) : Site N := { t with cached := none }

/-- Record `n` wherever the entity is already recorded, else in the cache. -/
def learn (t : Site N) (n : N) : Site N :=
  if t.dir.isSome then { t with dir := some n } else { t with cached := some n }

@[simp] theorem learn_hosts (t : Site N) (n : N) : (t.learn n).hosts = t.hosts := by
  unfold learn; split <;> rfl

@[simp] theorem learn_pending (t : Site N) (n : N) : (t.learn n).pending = t.pending := by
  unfold learn; split <;> rfl

@[simp] theorem learn_pendingExists (t : Site N) (n : N) :
    (t.learn n).pendingExists = t.pendingExists := by
  unfold learn; split <;> rfl

@[simp] theorem learn_pendingHome (t : Site N) (n : N) :
    (t.learn n).pendingHome = t.pendingHome := by
  unfold learn; split <;> rfl

@[simp] theorem learn_asks (t : Site N) (n : N) : (t.learn n).asks = t.asks := by
  unfold learn; split <;> rfl

/-- A record in the directory follows. -/
@[simp] theorem learn_dir (t : Site N) (n : N) : (t.learn n).dir = t.dir.map fun _ => n := by
  unfold learn; cases t.dir <;> rfl

/-- The cache takes what the directory does not. -/
@[simp] theorem learn_cached (t : Site N) (n : N) :
    (t.learn n).cached = if t.dir.isSome then t.cached else some n := by
  unfold learn; split <;> rfl

theorem learn_of_none {t : Site N} (h : t.dir = none) (n : N) :
    t.learn n = { t with cached := some n } := by
  simp [learn, h]

@[simp] theorem node_eq_none {t : Site N} : t.node = none ↔ t.dir = none ∧ t.cached = none := by
  simp [node]

theorem resolved_eq_none {r : N} {t : Site N} :
    t.resolved r = none ↔ t.hosts = false ∧ t.node = none := by
  cases h : t.hosts <;> simp [resolved, h]

theorem served_eq_none {r : N} {t : Site N} :
    t.served r = none ↔ t.node = none ∧ t.hosts = false := by
  cases h : t.hosts <;> simp [served, h]

theorem served_of_node {r n : N} {t : Site N} (h : t.node = some n) : t.served r = some n := by
  simp [served, h]

/-- A record is in one of the two stores. -/
theorem dir_or_cached_of_node {t : Site N} {n : N} (h : t.node = some n) :
    t.dir = some n ∨ t.cached = some n := by
  rw [node, Option.or_eq_some_iff] at h
  exact h.imp_right And.right

end Site

/-- What an activation at a rank leaves behind. -/
structure Effect (N : Type) where
  site : Site N
  outbox : List (N × Msg N)
  answers : List (Answer N)

/-! ### Activations

Each takes the rank `r` it runs on and that rank's site. -/

variable [DecidableEq N]

/-- The past askers together with the ranks now being answered. -/
def remember (asks answered : List N) : List N :=
  answered.foldl (fun acc q => acc.insert q) asks

@[simp] theorem mem_remember {asks answered : List N} {q : N} :
    q ∈ remember asks answered ↔ q ∈ asks ∨ q ∈ answered := by
  induction answered generalizing asks with
  | nil => simp [remember]
  | cons p answered ih =>
      rw [remember, List.foldl_cons, ← remember, ih, List.mem_insert_iff, List.mem_cons]
      tauto

/-- The home learns that the entity is at `n`, and tells everyone concerned. -/
def announce (r n : N) (t : Site N) : Effect N where
  site := { t with
    dir := some n, pending := [], pendingHome := [], asks := remember t.asks t.pendingHome }
  outbox := (t.asks ++ t.pendingHome).map fun q => (q, .resolveResponse n)
  answers := t.pending.map fun a => .located r a n

def register (home r : N) (t : Site N) : Effect N :=
  if home = r then announce r r { t with hosts := true }
  else ⟨{ t with hosts := true }, [(home, .updateHome r)], []⟩

def emigrate (newNode : N) (t : Site N) : Effect N :=
  ⟨{ t with hosts := false }.learn newNode, [], []⟩

def unregister (t : Site N) : Effect N :=
  ⟨{ t with hosts := false, dir := none, cached := none }, [], []⟩

def getLocation (home r : N) (a : NodeAction) (t : Site N) : Effect N :=
  if t.hosts then ⟨t, [], [.located r a r]⟩
  else match t.node with
    | some n => ⟨t, [], [.located r a n]⟩
    | none =>
        ⟨{ t with pending := t.pending ++ [a] },
          if t.pending = [] ∧ home ≠ r then [(home, .locationRequest r)] else [], []⟩

def entityExists (home noNode r : N) (a : ExistsAction) (t : Site N) : Effect N :=
  if t.hosts then ⟨t, [], [.existence r a true r]⟩
  else match t.node with
    | some n => ⟨t, [], [.existence r a true n]⟩
    | none =>
        if home = r then ⟨t, [], [.existence r a false noNode]⟩
        else ⟨{ t with pendingExists := t.pendingExists ++ [a] },
          if t.pendingExists = [] then [(home, .existsRequest r)] else [], []⟩

def locationRequest (r q : N) (t : Site N) : Effect N :=
  match t.node with
  | some n => ⟨{ t with asks := t.asks.insert q }, [(q, .resolveResponse n)], []⟩
  | none =>
      if t.hosts then ⟨{ t with asks := t.asks.insert q }, [(q, .resolveResponse r)], []⟩
      else ⟨{ t with pendingHome := t.pendingHome ++ [q] }, [], []⟩

def resolveResponse (r n : N) (t : Site N) : Effect N :=
  ⟨{ t.learn n with pending := [] }, [], t.pending.map fun a => .located r a n⟩

def existsRequest (noNode r q : N) (t : Site N) : Effect N :=
  match t.node with
  | some n => ⟨t, [(q, .existsResponse true n)], []⟩
  | none =>
      if t.hosts then ⟨t, [(q, .existsResponse true r)], []⟩
      else ⟨t, [(q, .existsResponse false noNode)], []⟩

def existsResponse (r : N) (ex : Bool) (n : N) (t : Site N) : Effect N :=
  ⟨{ (if ex then t.learn n else t) with pendingExists := [] }, [],
    t.pendingExists.map fun a => .existence r a ex n⟩

/-! Queries and requests, sorted by what they find. -/

theorem getLocation_of_some {home r n : N} {t : Site N} (h : t.resolved r = some n)
    (a : NodeAction) : getLocation home r a t = ⟨t, [], [.located r a n]⟩ := by
  unfold Site.resolved at h
  unfold getLocation
  split at h
  · next hhosts => rw [if_pos hhosts, Option.some.inj h]
  · next hhosts => rw [if_neg hhosts, h]

theorem getLocation_of_none {home r : N} {t : Site N} (h : t.resolved r = none)
    (a : NodeAction) : getLocation home r a t = ⟨{ t with pending := t.pending ++ [a] },
      if t.pending = [] ∧ home ≠ r then [(home, .locationRequest r)] else [], []⟩ := by
  obtain ⟨hhosts, hnode⟩ := Site.resolved_eq_none.mp h
  rw [getLocation, if_neg (by simp [hhosts]), hnode]

theorem entityExists_of_some {home noNode r n : N} {t : Site N} (h : t.resolved r = some n)
    (a : ExistsAction) : entityExists home noNode r a t = ⟨t, [], [.existence r a true n]⟩ := by
  unfold Site.resolved at h
  unfold entityExists
  split at h
  · next hhosts => rw [if_pos hhosts, Option.some.inj h]
  · next hhosts => rw [if_neg hhosts, h]

theorem entityExists_home_of_none {noNode r : N} {t : Site N} (h : t.resolved r = none)
    (a : ExistsAction) :
    entityExists r noNode r a t = ⟨t, [], [.existence r a false noNode]⟩ := by
  obtain ⟨hhosts, hnode⟩ := Site.resolved_eq_none.mp h
  rw [entityExists, if_neg (by simp [hhosts]), hnode, if_pos rfl]

theorem entityExists_of_none {home noNode r : N} {t : Site N} (hr : home ≠ r)
    (h : t.resolved r = none) (a : ExistsAction) : entityExists home noNode r a t =
      ⟨{ t with pendingExists := t.pendingExists ++ [a] },
        if t.pendingExists = [] then [(home, .existsRequest r)] else [], []⟩ := by
  obtain ⟨hhosts, hnode⟩ := Site.resolved_eq_none.mp h
  rw [entityExists, if_neg (by simp [hhosts]), hnode, if_neg hr]

theorem locationRequest_of_some {r q n : N} {t : Site N} (h : t.served r = some n) :
    locationRequest r q t =
      ⟨{ t with asks := t.asks.insert q }, [(q, .resolveResponse n)], []⟩ := by
  unfold locationRequest
  cases hn : t.node with
  | some m => rw [Site.served_of_node hn] at h; rw [Option.some.inj h]
  | none =>
      rw [Site.served, hn, Option.none_or] at h
      obtain ⟨hhosts, hn⟩ := Option.ite_none_right_eq_some.mp h
      rw [if_pos hhosts, Option.some.inj hn]

theorem locationRequest_of_none {r q : N} {t : Site N} (h : t.served r = none) :
    locationRequest r q t = ⟨{ t with pendingHome := t.pendingHome ++ [q] }, [], []⟩ := by
  obtain ⟨hnode, hhosts⟩ := Site.served_eq_none.mp h
  rw [locationRequest, hnode, if_neg (by simp [hhosts])]

omit [DecidableEq N] in
/-- An existence request is always answered at once. -/
theorem existsRequest_eq (noNode r q : N) (t : Site N) : existsRequest noNode r q t =
    ⟨t, [(q, .existsResponse (t.served r).isSome ((t.served r).getD noNode))], []⟩ := by
  unfold existsRequest Site.served
  cases t.node with
  | some n => rfl
  | none => cases t.hosts <;> rfl

/-! ### The protocol -/

/-- The public operations, applied to this entity. -/
inductive Call (N : Type)
  | registerEntity
  | entityImmigrated (src : N)
  | entityEmigrated (newNode : N)
  | unregisterEntity
  | getLocation (action : NodeAction)
  | entityExists (action : ExistsAction)
  deriving DecidableEq, Repr

/-- What happens to the entity: a public operation on some rank, or the delivery
of a control message. -/
inductive Act (N : Type)
  | call (r : N) (c : Call N)
  | deliver (p : Packet N (Msg N))
  deriving DecidableEq, Repr

section Step

variable (home noNode : N)

def onCall (r : N) : Call N → Site N → Effect N
  | .registerEntity => register home r
  | .entityImmigrated _ => register home r
  | .entityEmigrated newNode => emigrate newNode
  | .unregisterEntity => unregister
  | .getLocation a => getLocation home r a
  | .entityExists a => entityExists home noNode r a

def onMsg (r : N) : Msg N → Site N → Effect N
  | .updateHome n => announce r n
  | .locationRequest q => locationRequest r q
  | .resolveResponse n => resolveResponse r n
  | .existsRequest q => existsRequest noNode r q
  | .existsResponse ex n => existsResponse r ex n

end Step

/-! What an activation does to the fields that say where the entity is. -/

section Fields

variable {home noNode r : N} {t : Site N}

theorem getLocation_site (a : NodeAction) : (getLocation home r a t).site =
    { t with pending := (getLocation home r a t).site.pending } := by
  cases h : t.resolved r with
  | some n => rw [getLocation_of_some h]
  | none => rw [getLocation_of_none h]

theorem entityExists_site (a : ExistsAction) : (entityExists home noNode r a t).site =
    { t with pendingExists := (entityExists home noNode r a t).site.pendingExists } := by
  cases h : t.resolved r with
  | some n => rw [entityExists_of_some h]
  | none =>
      by_cases hr : home = r
      · subst hr
        rw [entityExists_home_of_none h]
      · rw [entityExists_of_none hr h]

theorem locationRequest_site (q : N) : (locationRequest r q t).site =
    { t with
      pendingHome := (locationRequest r q t).site.pendingHome
      asks := (locationRequest r q t).site.asks } := by
  cases h : t.served r with
  | some n => rw [locationRequest_of_some h]
  | none => rw [locationRequest_of_none h]

theorem onCall_hosts (c : Call N) : (onCall home noNode r c t).site.hosts =
    match c with
    | .registerEntity | .entityImmigrated _ => true
    | .entityEmigrated _ | .unregisterEntity => false
    | .getLocation _ | .entityExists _ => t.hosts := by
  cases c with
  | registerEntity => simp only [onCall, register]; split <;> rfl
  | entityImmigrated src => simp only [onCall, register]; split <;> rfl
  | entityEmigrated newNode => simp [onCall, emigrate]
  | unregisterEntity => rfl
  | getLocation a => rw [onCall, getLocation_site]
  | entityExists a => rw [onCall, entityExists_site]

theorem onCall_dir (c : Call N) : (onCall home noNode r c t).site.dir =
    match c with
    | .registerEntity | .entityImmigrated _ => if home = r then some r else t.dir
    | .entityEmigrated newNode => t.dir.map fun _ => newNode
    | .unregisterEntity => none
    | .getLocation _ | .entityExists _ => t.dir := by
  cases c with
  | registerEntity => simp only [onCall, register]; split <;> rfl
  | entityImmigrated src => simp only [onCall, register]; split <;> rfl
  | entityEmigrated newNode => simp [onCall, emigrate]
  | unregisterEntity => rfl
  | getLocation a => rw [onCall, getLocation_site]
  | entityExists a => rw [onCall, entityExists_site]

theorem onCall_cached (c : Call N) : (onCall home noNode r c t).site.cached =
    match c with
    | .registerEntity | .entityImmigrated _ => t.cached
    | .entityEmigrated newNode => if t.dir.isSome then t.cached else some newNode
    | .unregisterEntity => none
    | .getLocation _ | .entityExists _ => t.cached := by
  cases c with
  | registerEntity => simp only [onCall, register]; split <;> rfl
  | entityImmigrated src => simp only [onCall, register]; split <;> rfl
  | entityEmigrated newNode => simp [onCall, emigrate]
  | unregisterEntity => rfl
  | getLocation a => rw [onCall, getLocation_site]
  | entityExists a => rw [onCall, entityExists_site]

theorem onMsg_hosts (m : Msg N) : (onMsg noNode r m t).site.hosts = t.hosts := by
  cases m with
  | updateHome n => rfl
  | locationRequest q => rw [onMsg, locationRequest_site]
  | resolveResponse n => simp [onMsg, resolveResponse]
  | existsRequest q => rw [onMsg, existsRequest_eq]
  | existsResponse ex n => cases ex <;> simp [onMsg, existsResponse]

theorem onMsg_dir (m : Msg N) : (onMsg noNode r m t).site.dir =
    match m with
    | .updateHome n => some n
    | .resolveResponse n | .existsResponse true n => t.dir.map fun _ => n
    | .existsResponse false _ | .locationRequest _ | .existsRequest _ => t.dir := by
  cases m with
  | updateHome n => rfl
  | locationRequest q => rw [onMsg, locationRequest_site]
  | resolveResponse n => simp [onMsg, resolveResponse]
  | existsRequest q => rw [onMsg, existsRequest_eq]
  | existsResponse ex n => cases ex <;> simp [onMsg, existsResponse]

theorem onMsg_cached (m : Msg N) : (onMsg noNode r m t).site.cached =
    match m with
    | .resolveResponse n | .existsResponse true n => if t.dir.isSome then t.cached else some n
    | .updateHome _ | .existsResponse false _ | .locationRequest _ | .existsRequest _ =>
        t.cached := by
  cases m with
  | updateHome n => rfl
  | locationRequest q => rw [onMsg, locationRequest_site]
  | resolveResponse n => simp [onMsg, resolveResponse]
  | existsRequest q => rw [onMsg, existsRequest_eq]
  | existsResponse ex n => cases ex <;> simp [onMsg, existsResponse]

end Fields

/-- The whole system, seen through one entity. -/
structure View (N : Type) where
  site : N → Site N
  net : List (Packet N (Msg N))
  answers : List (Answer N)

namespace View

/-- Before anything happened. -/
def init : View N := ⟨fun _ => .blank, [], []⟩

/-- Install the outcome of an activation at `r`. -/
def post (v : View N) (r : N) (e : Effect N) : View N where
  site := Function.update v.site r e.site
  net := v.net ++ posted r e.outbox
  answers := v.answers ++ e.answers

/-- Take a packet off the network. -/
def take (v : View N) (p : Packet N (Msg N)) : View N := { v with net := v.net.erase p }

/-- `r` loses its cached record. -/
def forget (v : View N) (r : N) : View N :=
  { v with site := Function.update v.site r (v.site r).forget }

@[simp] theorem post_site_self (v : View N) (r : N) (e : Effect N) :
    (v.post r e).site r = e.site := by simp [post]

@[simp] theorem post_site_of_ne (v : View N) {r r' : N} (e : Effect N) (h : r' ≠ r) :
    (v.post r e).site r' = v.site r' := by simp [post, h]

@[simp] theorem post_net (v : View N) (r : N) (e : Effect N) :
    (v.post r e).net = v.net ++ posted r e.outbox := rfl

@[simp] theorem post_answers (v : View N) (r : N) (e : Effect N) :
    (v.post r e).answers = v.answers ++ e.answers := rfl

@[simp] theorem take_site (v : View N) (p : Packet N (Msg N)) : (v.take p).site = v.site := rfl

@[simp] theorem take_net (v : View N) (p : Packet N (Msg N)) :
    (v.take p).net = v.net.erase p := rfl

@[simp] theorem take_answers (v : View N) (p : Packet N (Msg N)) :
    (v.take p).answers = v.answers := rfl

@[simp] theorem forget_site_self (v : View N) (r : N) :
    (v.forget r).site r = (v.site r).forget := by simp [forget]

@[simp] theorem forget_site_of_ne (v : View N) {r r' : N} (h : r' ≠ r) :
    (v.forget r).site r' = v.site r' := by simp [forget, h]

/-- Only the cached record goes. -/
theorem forget_site_eq (v : View N) (r r' : N) :
    (v.forget r).site r' = { v.site r' with cached := ((v.forget r).site r').cached } := by
  by_cases hr : r' = r
  · subst hr
    rw [forget_site_self]
    rfl
  · rw [forget_site_of_ne _ hr]

@[simp] theorem forget_hosts (v : View N) (r r' : N) :
    ((v.forget r).site r').hosts = (v.site r').hosts := by
  rw [forget_site_eq]

@[simp] theorem forget_dir (v : View N) (r r' : N) :
    ((v.forget r).site r').dir = (v.site r').dir := by
  rw [forget_site_eq]

/-- It goes on the rank that forgets, and stays on the others. -/
theorem forget_cached (v : View N) (r r' : N) : ((v.forget r).site r').cached = none ∨
    ((v.forget r).site r').cached = (v.site r').cached := by
  by_cases hr : r' = r
  · subst hr
    rw [forget_site_self]
    exact Or.inl rfl
  · rw [forget_site_of_ne _ hr]
    exact Or.inr rfl

@[simp] theorem forget_pending (v : View N) (r r' : N) :
    ((v.forget r).site r').pending = (v.site r').pending := by
  rw [forget_site_eq]

@[simp] theorem forget_pendingExists (v : View N) (r r' : N) :
    ((v.forget r).site r').pendingExists = (v.site r').pendingExists := by
  rw [forget_site_eq]

@[simp] theorem forget_pendingHome (v : View N) (r r' : N) :
    ((v.forget r).site r').pendingHome = (v.site r').pendingHome := by
  rw [forget_site_eq]

@[simp] theorem forget_asks (v : View N) (r r' : N) :
    ((v.forget r).site r').asks = (v.site r').asks := by
  rw [forget_site_eq]

@[simp] theorem forget_net (v : View N) (r : N) : (v.forget r).net = v.net := rfl

@[simp] theorem forget_answers (v : View N) (r : N) : (v.forget r).answers = v.answers := rfl

end View

section Machine

variable (home noNode : N)

/-- The labelled steps of the protocol. -/
inductive Step : View N → Act N → View N → Prop
  | call {v : View N} (r : N) (c : Call N) :
      Step v (.call r c) (v.post r (onCall home noNode r c (v.site r)))
  | deliver {v : View N} (p : Packet N (Msg N)) : p ∈ v.net →
      Step v (.deliver p) ((v.take p).post p.dst (onMsg noNode p.dst p.body (v.site p.dst)))

/-- Only packets in flight are delivered. -/
theorem Step.mem_net {home noNode : N} {v v' : View N} {p : Packet N (Msg N)}
    (hs : Step home noNode v (.deliver p) v') : p ∈ v.net := by
  cases hs with
  | deliver _ hp => exact hp

/-- No answer is taken back. -/
theorem Step.mem_answers {home noNode : N} {v v' : View N} {a : Act N} {x : Answer N}
    (hs : Step home noNode v a v') (hx : x ∈ v.answers) : x ∈ v'.answers := by
  cases hs with
  | call r c => exact List.mem_append_left _ hx
  | deliver p hp => exact List.mem_append_left _ hx

/-- The protocol as a machine. Its silent moves are losses of cached records. -/
def machine : Runs.Machine (View N) (Act N) where
  step := Step home noNode
  silent v v' := ∃ r, v' = v.forget r

end Machine

/-- The induction rule for runs of the protocol. -/
theorem invariant_of_run {home noNode : N} {ok : Runs.Guard (View N) (Act N)}
    {past₀ past : List (Act N)} {v₀ v : View N} {I : List (Act N) → View N → Prop}
    (h : (machine home noNode).Run ok past₀ v₀ past v) (hinit : I past₀ v₀)
    (hstep : ∀ past v a v', I past v → ok past v a → Step home noNode v a v' → I (a :: past) v')
    (hforget : ∀ past v r, I past v → I past (v.forget r)) : I past v := by
  refine h.invariant hinit hstep ?_
  intro past v v' hv hsilent
  obtain ⟨r, rfl⟩ := hsilent
  exact hforget past v r hv

/-! ### Where the entity is -/

/-- Where the embedder has the entity, going by the calls it made. -/
inductive Whereabouts (N : Type)
  | unborn
  | hosted (r : N)
  | moving (src dst : N)
  | gone
  deriving DecidableEq, Repr

/-- What a call says about the entity's whereabouts. Queries say nothing. -/
def Call.moves (r : N) : Call N → Option (Whereabouts N)
  | .registerEntity => some (.hosted r)
  | .entityImmigrated _ => some (.hosted r)
  | .entityEmigrated newNode => some (.moving r newNode)
  | .unregisterEntity => some .gone
  | .getLocation _ => none
  | .entityExists _ => none

/-- What an event says about the entity's whereabouts. -/
def Act.moves : Act N → Option (Whereabouts N)
  | .call r c => c.moves r
  | .deliver _ => none

/-- The entity's whereabouts after a history (newest first). -/
def whereabouts : List (Act N) → Whereabouts N
  | [] => .unborn
  | a :: past => a.moves.getD (whereabouts past)

/-- The embedder's side of the bargain: an entity is registered once, on one
rank; its host announces the emigration to another rank, and that rank then
announces the immigration; only the host unregisters. -/
def Lawful (past : List (Act N)) : Act N → Prop
  | .call _ .registerEntity => whereabouts past = .unborn
  | .call r (.entityImmigrated src) => whereabouts past = .moving src r
  | .call r (.entityEmigrated newNode) => whereabouts past = .hosted r ∧ newNode ≠ r
  | .call r .unregisterEntity => whereabouts past = .hosted r
  | _ => True

instance (past : List (Act N)) (a : Act N) : Decidable (Lawful past a) := by
  unfold Lawful
  split <;> infer_instance

/-- The event takes the entity out of the system. -/
def Act.unregisters : Act N → Bool
  | .call _ .unregisterEntity => true
  | _ => false

/-- The bargain, and the entity is never unregistered. -/
def Enduring (past : List (Act N)) (a : Act N) : Prop :=
  Lawful past a ∧ a.unregisters = false

instance (past : List (Act N)) (a : Act N) : Decidable (Enduring past a) :=
  inferInstanceAs (Decidable (_ ∧ _))

/-- The rank that starts to host the entity, if one does. -/
def Act.hostedAt : Act N → Option N
  | .call r .registerEntity => some r
  | .call r (.entityImmigrated _) => some r
  | _ => none

/-- The rank whose request the home handles, if it handles one. -/
def Act.requester : Act N → Option N
  | .deliver ⟨_, _, .locationRequest q⟩ => some q
  | .deliver ⟨_, _, .existsRequest q⟩ => some q
  | _ => none

/-- A call that says nothing about the whereabouts is a query. It changes nothing
but the queue it joins and sends nothing but its request. -/
theorem onCall_query (home noNode : N) {r : N} {c : Call N} (hc : c.moves r = none) (t : Site N) :
    (onCall home noNode r c t).site = { t with
      pending := (onCall home noNode r c t).site.pending
      pendingExists := (onCall home noNode r c t).site.pendingExists } ∧
    ∀ m ∈ (onCall home noNode r c t).outbox,
      m = (home, .locationRequest r) ∨ m = (home, .existsRequest r) := by
  cases c with
  | getLocation a =>
      refine ⟨by rw [onCall, getLocation_site], fun m hm => Or.inl ?_⟩
      rw [onCall] at hm
      cases hres : t.resolved r with
      | some n => rw [getLocation_of_some hres] at hm; exact absurd hm (by simp)
      | none =>
          rw [getLocation_of_none hres] at hm
          simp only [List.mem_ite_nil_right, List.mem_singleton] at hm
          exact hm.2
  | entityExists a =>
      refine ⟨by rw [onCall, entityExists_site], fun m hm => Or.inr ?_⟩
      rw [onCall] at hm
      cases hres : t.resolved r with
      | some n => rw [entityExists_of_some hres] at hm; exact absurd hm (by simp)
      | none =>
          by_cases hr : home = r
          · subst hr
            rw [entityExists_home_of_none hres] at hm
            exact absurd hm (by simp)
          · rw [entityExists_of_none hr hres] at hm
            simp only [List.mem_ite_nil_right, List.mem_singleton] at hm
            exact hm.2
  | _ => exact absurd hc (by simp [Call.moves])

/-- Delivery is FIFO per (sender, receiver) pair. -/
def Fifo (v : View N) : Act N → Prop
  | .call _ _ => True
  | .deliver p => Channel.Oldest v.net p

/-- Only a rank that hosts the entity announces its emigration. -/
def HostEmigrates (v : View N) : Act N → Prop
  | .call r (.entityEmigrated _) => (v.site r).hosts = true
  | _ => True

instance (v : View N) (a : Act N) : Decidable (HostEmigrates v a) := by
  unfold HostEmigrates
  split <;> infer_instance

end Loc.Entity
