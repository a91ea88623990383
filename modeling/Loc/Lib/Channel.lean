import Mathlib.Data.List.Basic

/-!
# Loc.Lib.Channel

Point-to-point messages in flight.

The whole network is one list of packets in the order in which they were sent.
A reliable network that delivers in any order removes an arbitrary packet; one
that is FIFO per (sender, receiver) pair removes a packet only when it is the
`Oldest` between its two ends. Both disciplines are predicates on the packet to
be delivered, so one representation serves them.

`restrict` keeps the packets whose body a partial function understands. It is
how the traffic about one subject is cut out of a shared network, and it
commutes with sending, with delivery and with the FIFO discipline.
-/

namespace Channel

/-- A message in flight from `src` to `dst`. -/
structure Packet (N M : Type*) where
  src : N
  dst : N
  body : M
  deriving DecidableEq, Repr

variable {N M M' β : Type*}

/-- What `src` puts on the network when it sends the messages of `outbox`. -/
def posted (src : N) (outbox : List (N × M)) : List (Packet N M) :=
  outbox.map fun m => ⟨src, m.1, m.2⟩

@[simp] theorem posted_nil (src : N) : posted src ([] : List (N × M)) = [] := rfl

@[simp] theorem posted_cons (src : N) (m : N × M) (outbox : List (N × M)) :
    posted src (m :: outbox) = ⟨src, m.1, m.2⟩ :: posted src outbox := rfl

@[simp] theorem mem_posted {src : N} {outbox : List (N × M)} {p : Packet N M} :
    p ∈ posted src outbox ↔ p.src = src ∧ (p.dst, p.body) ∈ outbox := by
  obtain ⟨s, d, b⟩ := p
  simp only [posted, List.mem_map, Packet.mk.injEq]
  constructor
  · intro h
    obtain ⟨m, hm, rfl, rfl, rfl⟩ := h
    exact ⟨rfl, hm⟩
  · intro h
    obtain ⟨rfl, hm⟩ := h
    exact ⟨(d, b), hm, rfl, rfl, rfl⟩

section Oldest

variable [DecidableEq N]

/-- `p` is the next packet its channel delivers: no packet between the same two
ends was sent before it. -/
def Oldest (net : List (Packet N M)) (p : Packet N M) : Prop :=
  net.find? (fun q => q.src = p.src ∧ q.dst = p.dst) = some p

instance [DecidableEq M] (net : List (Packet N M)) (p : Packet N M) : Decidable (Oldest net p) :=
  inferInstanceAs (Decidable (_ = _))

/-- The oldest packet of a channel splits the network: nothing before it shares
its ends. -/
theorem Oldest.split {net : List (Packet N M)} {p : Packet N M} (h : Oldest net p) :
    ∃ pre post, net = pre ++ p :: post ∧ ∀ q ∈ pre, ¬ (q.src = p.src ∧ q.dst = p.dst) := by
  obtain ⟨-, pre, post, hnet, hpre⟩ := List.find?_eq_some_iff_append.mp h
  exact ⟨pre, post, hnet, fun q hq ⟨hs, hd⟩ => by simpa [hs, hd] using hpre q hq⟩

theorem Oldest.mem {net : List (Packet N M)} {p : Packet N M} (h : Oldest net p) : p ∈ net :=
  List.mem_of_find?_eq_some h

/-- **FIFO reading.** When `f` reads only packets that travel between the ends of
`p`, delivering the oldest such packet `p` takes its reading off the front. -/
theorem Oldest.filterMap_erase [DecidableEq M] {net : List (Packet N M)} {p : Packet N M}
    (h : Oldest net p) {f : Packet N M → Option β}
    (hf : ∀ q ∈ net, ∀ b, f q = some b → q.src = p.src ∧ q.dst = p.dst) :
    net.filterMap f = (f p).toList ++ (net.erase p).filterMap f := by
  obtain ⟨pre, post, rfl, hpre⟩ := h.split
  have hpnot : p ∉ pre := fun hp => hpre p hp ⟨rfl, rfl⟩
  have hskip : pre.filterMap f = [] := by
    rw [List.filterMap_eq_nil_iff]
    intro q hq
    cases hfq : f q with
    | none => rfl
    | some b => exact absurd (hf q (by simp [hq]) b hfq) (hpre q hq)
  rw [List.erase_append_right _ hpnot, List.erase_cons_head, List.filterMap_append,
    List.filterMap_append, hskip, List.filterMap_cons]
  cases f p <;> rfl

end Oldest

/-- Delivering a packet that `f` does not read leaves the reading alone. -/
theorem filterMap_erase_of_none [DecidableEq N] [DecidableEq M] {net : List (Packet N M)}
    {p : Packet N M} {f : Packet N M → Option β} (hp : f p = none) :
    (net.erase p).filterMap f = net.filterMap f := by
  induction net with
  | nil => rfl
  | cons q net ih =>
      by_cases hqp : q = p
      · subst hqp
        rw [List.erase_cons_head, List.filterMap_cons_none hp]
      · rw [List.erase_cons_tail (by simpa using hqp), List.filterMap_cons, List.filterMap_cons, ih]

/-! ### The latest value under way

A receiver that overwrites what it stores with what arrives will end up with the
last value in flight, or keep what it has when there is none. Under FIFO delivery
that outcome is not affected by when the messages arrive. -/

/-- What a receiver storing `stored` will store once the values `f` reads in the
network have arrived. -/
def latest (f : Packet N M → Option β) (net : List (Packet N M)) (stored : Option β) : Option β :=
  (net.filterMap f).getLast?.or stored

section Latest

variable {f : Packet N M → Option β} {net net' : List (Packet N M)} {stored : Option β}

@[simp] theorem latest_nil : latest f [] stored = stored := rfl

/-- Sending supersedes what was under way. -/
theorem latest_append :
    latest f (net ++ net') stored = (net'.filterMap f).getLast?.or (latest f net stored) := by
  rw [latest, latest, List.filterMap_append, List.getLast?_append, Option.or_assoc]

theorem latest_append_of_none (h : ∀ p ∈ net', f p = none) :
    latest f (net ++ net') stored = latest f net stored := by
  rw [latest_append, List.filterMap_eq_nil_iff.mpr h]
  rfl

/-- Losing the stored value matters only when nothing is under way. -/
theorem latest_none_or (f : Packet N M → Option β) (net : List (Packet N M)) (stored : Option β) :
    latest f net none = none ∨ latest f net none = latest f net stored := by
  cases h : (net.filterMap f).getLast? with
  | none => exact Or.inl (by rw [latest, h]; rfl)
  | some b => exact Or.inr (by rw [latest, latest, h]; rfl)

variable [DecidableEq N] [DecidableEq M] {p : Packet N M}

theorem latest_erase_of_none (hp : f p = none) :
    latest f (net.erase p) stored = latest f net stored := by
  rw [latest, filterMap_erase_of_none hp]
  rfl

/-- **Arrival.** Storing the oldest value under way changes nothing. -/
theorem Oldest.latest_erase (h : Oldest net p)
    (hf : ∀ q ∈ net, ∀ b, f q = some b → q.src = p.src ∧ q.dst = p.dst) {b : β}
    (hp : f p = some b) : latest f (net.erase p) (some b) = latest f net stored := by
  rw [latest, latest, h.filterMap_erase hf, hp, Option.toList_some, List.singleton_append,
    List.getLast?_cons]
  cases ((net.erase p).filterMap f).getLast? <;> rfl

end Latest

/-! ### Cutting one subject out of the network -/

/-- The packet as `g` reads it, if it does. -/
def Packet.restrict (g : M → Option M') (p : Packet N M) : Option (Packet N M') :=
  (g p.body).map fun b => ⟨p.src, p.dst, b⟩

/-- The packets whose body `g` understands, in sending order. -/
def restrict (g : M → Option M') (net : List (Packet N M)) : List (Packet N M') :=
  net.filterMap (Packet.restrict g)

section Restrict

variable {g : M → Option M'}

@[simp] theorem Packet.restrict_eq_some {p : Packet N M} {q : Packet N M'} :
    p.restrict g = some q ↔ p.src = q.src ∧ p.dst = q.dst ∧ g p.body = some q.body := by
  obtain ⟨s, d, b⟩ := q
  simp only [Packet.restrict, Option.map_eq_some_iff, Packet.mk.injEq]
  constructor
  · intro h
    obtain ⟨b', hb, rfl, rfl, rfl⟩ := h
    exact ⟨rfl, rfl, hb⟩
  · intro h
    obtain ⟨rfl, rfl, hb⟩ := h
    exact ⟨b, hb, rfl, rfl, rfl⟩

@[simp] theorem Packet.restrict_eq_none {p : Packet N M} :
    p.restrict g = none ↔ g p.body = none := by
  simp [Packet.restrict]

@[simp] theorem restrict_nil : restrict g ([] : List (Packet N M)) = [] := rfl

@[simp] theorem restrict_append (net net' : List (Packet N M)) :
    restrict g (net ++ net') = restrict g net ++ restrict g net' :=
  List.filterMap_append

theorem mem_restrict {net : List (Packet N M)} {q : Packet N M'} :
    q ∈ restrict g net ↔ ∃ b, (⟨q.src, q.dst, b⟩ : Packet N M) ∈ net ∧ g b = some q.body := by
  simp only [restrict, List.mem_filterMap, Packet.restrict_eq_some]
  constructor
  · intro h
    obtain ⟨⟨s, d, b⟩, hp, rfl, rfl, hb⟩ := h
    exact ⟨b, hp, hb⟩
  · intro h
    obtain ⟨b, hp, hb⟩ := h
    exact ⟨_, hp, rfl, rfl, hb⟩

/-- Sending commutes with restriction. -/
theorem restrict_posted (src : N) (outbox : List (N × M)) :
    restrict g (posted src outbox) =
      posted src (outbox.filterMap fun m => (g m.2).map fun b => (m.1, b)) := by
  induction outbox with
  | nil => rfl
  | cons m outbox ih =>
      rw [restrict] at ih
      rw [posted_cons, restrict, List.filterMap_cons, List.filterMap_cons, ih]
      cases hg : g m.2 <;> simp [Packet.restrict, hg]

variable [DecidableEq N] [DecidableEq M]

/-- Delivering a packet about something else is invisible. -/
theorem restrict_erase_of_none {net : List (Packet N M)} {p : Packet N M} (hp : g p.body = none) :
    restrict g (net.erase p) = restrict g net :=
  filterMap_erase_of_none (Packet.restrict_eq_none.mpr hp)

/-- Delivering a packet that `g` reads delivers its reading, provided `g` does
not confuse two bodies. -/
theorem restrict_erase [DecidableEq M'] {net : List (Packet N M)} {p : Packet N M} {b : M'}
    (hg : ∀ m m' b, g m = some b → g m' = some b → m = m') (hp : g p.body = some b) :
    restrict g (net.erase p) = (restrict g net).erase ⟨p.src, p.dst, b⟩ := by
  have hpr : p.restrict g = some ⟨p.src, p.dst, b⟩ := by simp [hp]
  induction net with
  | nil => rfl
  | cons q net ih =>
      by_cases hqp : q = p
      · subst hqp
        rw [List.erase_cons_head, restrict, restrict, List.filterMap_cons_some hpr,
          List.erase_cons_head]
      · rw [List.erase_cons_tail (by simpa using hqp)]
        cases hq : q.restrict g with
        | none =>
            rw [restrict, restrict, List.filterMap_cons_none hq, List.filterMap_cons_none hq]
            exact ih
        | some q' =>
            have hne : q' ≠ ⟨p.src, p.dst, b⟩ := by
              intro heq
              subst heq
              obtain ⟨hs, hd, hb⟩ := Packet.restrict_eq_some.mp hq
              obtain ⟨s, d, m⟩ := q
              obtain ⟨s', d', m'⟩ := p
              exact hqp (by simp_all [hg m m' b hb hp])
            rw [restrict, restrict, List.filterMap_cons_some hq, List.filterMap_cons_some hq,
              List.erase_cons_tail (by simpa using hne)]
            exact congrArg _ ih

omit [DecidableEq M] in
/-- The FIFO discipline of the network is inherited by every restriction. -/
theorem Oldest.restrict {net : List (Packet N M)} {p : Packet N M} {b : M'}
    (h : Oldest net p) (hp : g p.body = some b) :
    Oldest (Channel.restrict g net) ⟨p.src, p.dst, b⟩ := by
  obtain ⟨pre, post, rfl, hpre⟩ := h.split
  have hpr : p.restrict g = some ⟨p.src, p.dst, b⟩ := by simp [hp]
  have hskip : (Channel.restrict g pre).find?
      (fun q : Packet N M' => q.src = p.src ∧ q.dst = p.dst) = none := by
    rw [List.find?_eq_none]
    intro q hq
    obtain ⟨m, hm, -⟩ := mem_restrict.mp hq
    simpa using hpre _ hm
  rw [Oldest, restrict_append, List.find?_append, hskip, Channel.restrict,
    List.filterMap_cons_some hpr, List.find?_cons_of_pos (by simp)]
  rfl

end Restrict

end Channel
