import Loc.Entity.Existence
import Loc.Guarantee.Waiters

/-!
# Loc.Guarantee.Existence

What the resolver promises about **existence queries**: one exchange with the home
per non-empty queue, and so an answer to every callback.
-/

namespace Loc

open Channel (Packet)
open Entity (Query)

variable {EntityID : Type} [DecidableEq EntityID] {cfg : Config EntityID}
  {past : List (Label EntityID)} {s : System EntityID}

/-- The packet is an `existsRequest` for `id` by `r`, or the `existsResponse` to it. -/
def existenceTraffic (id : EntityID) (r : NodeType) (p : Packet NodeType (ControlMsg EntityID)) :
    Bool :=
  p.body.id = id && Entity.exchanges r ⟨p.src, p.dst, p.body.msg⟩

theorem countP_existenceTraffic (id : EntityID) (r : NodeType)
    (net : List (Packet NodeType (ControlMsg EntityID))) :
    (Channel.restrict (ControlMsg.about id) net).countP (Entity.exchanges r) =
      net.countP (existenceTraffic id r) := by
  rw [Channel.restrict, List.countP_filterMap]
  refine List.countP_congr fun p _ => ?_
  by_cases hid : p.body.id = id <;>
    simp [Packet.restrict, ControlMsg.about, existenceTraffic, hid]

/-- **Exactly one exchange per non-empty queue.** In every run, whatever the
embedder does and in whatever order messages arrive, a rank has one existence
exchange in flight for each entity it has existence callbacks waiting for, and no
other. Every callback is invoked or queued exactly as often as it was passed, and
with nothing in flight none is queued. -/
theorem one_exchange_per_queue {ok : Runs.Guard (System EntityID) (Label EntityID)}
    (h : cfg.Run ok past s) :
    (∀ id r, s.net.countP (existenceTraffic id r) =
      if (s.coord r).pendingExists id = [] then 0 else 1) ∧
    (∀ id r a, past.count (.call r (.entityExists id a)) =
      s.answers.countP (Query.existence.invokedFor id r a) +
        ((s.coord r).pendingExists id).count a) ∧
    (s.Drained → ∀ id r, (s.coord r).pendingExists id = []) := by
  have hexchanging := fun id => Entity.exchanging_of_run (Config.run_any h id)
  refine ⟨fun id r => ?_, fun id r a => callbacks_accounted h .existence id r a, ?_⟩
  · rw [← countP_existenceTraffic]
    exact hexchanging id r
  · intro hnet id r
    exact (hexchanging id).settled (System.view_net_of_drained hnet) r

/-- Two callbacks share an exchange, and a third finds its answer cached. -/
theorem one_exchange_per_queue_small : ∃ past s,
    Config.small.Run (fun _ _ _ => True) past s ∧
      (s.coord 2).pendingExists 42 ≠ [] ∧ s.net.countP (existenceTraffic 42 2) = 1 := by
  obtain ⟨past, s, hrun, hwait⟩ := Config.exists_run
    (show ∃ r ∈ Config.small.play (fun _ _ _ => True)
        [.call 1 (.registerEntity 42), .call 2 (.entityExists 42 5),
          .deliver ⟨1, 0, ⟨42, .updateHome 1⟩⟩, .call 2 (.entityExists 42 6),
          .deliver ⟨2, 0, ⟨42, .existsRequest 2⟩⟩],
        (r.2.coord 2).pendingExists 42 ≠ [] by decide +kernel)
  exact ⟨past, s, hrun, hwait, ((one_exchange_per_queue hrun).1 42 2).trans (if_neg hwait)⟩

end Loc
