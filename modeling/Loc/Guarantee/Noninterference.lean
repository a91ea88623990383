import Loc.Ledger

/-!
# Loc.Guarantee.Noninterference

**Queries and cache sizes do not influence authoritative state.** Two runs that agree
on the moves of the entities and on the deliveries of updates agree on every
directory, on every set of local registrations and on the updates in flight, however
they differ in everything else.
-/

namespace Loc

variable {EntityID : Type} [DecidableEq EntityID]

/-- Two runs of the ledger over one history end in one state. -/
theorem ledger_unique {home : EntityID → NodeType}
    {okG okG' : Runs.Guard (Ledger EntityID) (Label EntityID)} {past : List (Label EntityID)}
    {g₀ g g' : Ledger EntityID} (h : (ledgerMachine home).Run okG [] g₀ past g)
    (h' : (ledgerMachine home).Run okG' [] g₀ past g') : g = g' := by
  refine Runs.Machine.Run.invariant₂ (R := fun _ g g' => g = g') (fun _ _ hf => hf)
    (fun _ _ hf => hf) h h' rfl ?_
  intro past g g' l t t' hg _ _ ht ht'
  subst hg
  exact Option.some.inj (ht.symm.trans ht')

/-- **Noninterference.** Two runs with the same homes, the same moves of entities and
the same deliveries of updates, in the same order, end with the same directories, the
same local registrations and the same updates in flight, whatever queries they make,
whichever other messages they deliver, and whatever the sizes of their caches. -/
theorem queries_do_not_interfere {cfg cfg' : Config EntityID} (hhome : cfg.home = cfg'.home)
    {ok ok' : Runs.Guard (System EntityID) (Label EntityID)} {past past' : List (Label EntityID)}
    {s s' : System EntityID} (h : cfg.Run ok past s) (h' : cfg'.Run ok' past' s')
    (hsame : past.filter Label.authoritative = past'.filter Label.authoritative) :
    (∀ r, (s.coord r).recs.directory = (s'.coord r).recs.directory) ∧
    (∀ r, (s.coord r).localRegistered = (s'.coord r).localRegistered) ∧
    updatesIn s.net = updatesIn s'.net := by
  have hledger : s.ledger = s'.ledger := by
    have hrun := ledger_of_run h
    have hrun' := ledger_of_run h'
    rw [hhome, hsame] at hrun
    exact ledger_unique hrun hrun'
  have hentity : ∀ id, (s.view id).ledger = (s'.view id).ledger := fun id =>
    congrFun (congrArg Ledger.entity hledger) id
  refine ⟨fun r => ?_, fun r => ?_, congrArg Ledger.updates hledger⟩
  · have hnode := (cfg.placed_of_run h Config.init_placed r).1
    have hnode' := (cfg'.placed_of_run h' Config.init_placed r).1
    exact (genuine_of_run h r).directory_eq (genuine_of_run h' r) (hnode.trans hnode'.symm)
      fun id => congrFun (congrArg Entity.Ledger.dir (hentity id)) r
  · ext id
    have hhosts : decide (id ∈ (s.coord r).localRegistered) =
        decide (id ∈ (s'.coord r).localRegistered) :=
      congrFun (congrArg Entity.Ledger.hosts (hentity id)) r
    exact decide_eq_decide.mp hhosts

/-- `Config.small` with room for three records in each cache. -/
def Config.roomier : Config Nat := { Config.small with maxCacheSize := fun _ => 3 }

/-- Entity 42 registers on rank 1, its home hears of it, and it emigrates. -/
def emigrationOf42 : List (Label Nat) :=
  [.call 1 (.registerEntity 42), .deliver ⟨1, 0, ⟨42, .updateHome 1⟩⟩,
    .call 1 (.entityEmigrated 42 3)]

/-- Rank 2 asks for two entities and clears its cache in one of the runs only. -/
theorem queries_do_not_interfere_small : ∃ (past past' : List (Label Nat)) (s s' : System Nat),
    past.length = 3 ∧ past'.length = 8 ∧ Config.small.Run Runs.free past s ∧
    Config.roomier.Run Runs.free past' s' ∧
    ∀ r, (s.coord r).recs.directory = (s'.coord r).recs.directory := by
  have hplay : ∃ r ∈ Config.small.play Runs.free emigrationOf42,
      r.1.length = 3 ∧ r.1.filter Label.authoritative = emigrationOf42.reverse := by
    decide +kernel
  have hplay' : ∃ r ∈ Config.roomier.play Runs.free
      [.call 2 (.getLocation 42 5), .call 1 (.registerEntity 42),
        .deliver ⟨2, 0, ⟨42, .locationRequest 2⟩⟩, .deliver ⟨1, 0, ⟨42, .updateHome 1⟩⟩,
        .deliver ⟨0, 2, ⟨42, .resolveResponse 1⟩⟩, .call 2 (.entityExists 7 6),
        .call 1 (.entityEmigrated 42 3), .call 2 .clearCache],
      r.1.length = 8 ∧ r.1.filter Label.authoritative = emigrationOf42.reverse := by
    decide +kernel
  have hhome : Config.small.home = Config.roomier.home := rfl
  obtain ⟨past, s, hrun, hlen, hmoves⟩ := Config.exists_run hplay
  obtain ⟨past', s', hrun', hlen', hmoves'⟩ := Config.exists_run hplay'
  exact ⟨past, past', s, s', hlen, hlen', hrun, hrun',
    (queries_do_not_interfere hhome hrun hrun' (hmoves.trans hmoves'.symm)).1⟩

end Loc
