import Loc.Entity.Interest
import Loc.Entity.Pace
import Loc.Entity.Provenance
import Loc.Entity.Refresh

/-!
# Loc.Entity.Forwarding

**Stale records lead onward.** A rank that sends the entity off records where it went,
and nobody refreshes that record. It still points at a rank that has hosted the entity
since, so that whoever follows such records gets closer to the host with each of them
(`forwards`), measured by how many hostings ago a rank last hosted it (`lag`).

A response to an existence query can spoil this: it may be older than the rank's own
hosting, and then it points back.
-/

namespace Loc.Entity

variable {N : Type} [DecidableEq N] {home noNode r : N}

/-! ### The itinerary -/

/-- Whatever the history names has hosted the entity, or is about to; and whoever has
hosted it still does, or has sent it off. -/
structure Itinerary (past : List (Act N)) : Prop where
  named : ∀ n, Named past n → n ∈ hostRanks past ∨ ∃ src, whereabouts past = .moving src n
  left : ∀ q ∈ hostRanks past, whereabouts past = .hosted q ∨ SentOff past q

omit [DecidableEq N] in
/-- Taking the entity in, by the rules. -/
theorem Itinerary.arrive {past : List (Act N)} {q : N} {c : Call N} (h : Itinerary past)
    (hhost : (Act.call q c).hostedAt = some q) (hnow : c.moves q = some (.hosted q))
    (hnames : ∀ n, (Act.call q c).Names n → n = q)
    (hbefore : whereabouts past = .unborn ∨ ∃ src, whereabouts past = .moving src q) :
    Itinerary (.call q c :: past) := by
  have hranks : hostRanks (.call q c :: past) = q :: hostRanks past :=
    List.filterMap_cons_some hhost
  have hw : whereabouts (.call q c :: past) = .hosted q := by
    rw [whereabouts, Act.moves, hnow]
    rfl
  refine ⟨fun n hn => Or.inl ?_, fun p hp => ?_⟩
  · rw [hranks]
    obtain ⟨a, ha, hn⟩ := hn
    rcases List.mem_cons.mp ha with rfl | ha
    · exact hnames n hn ▸ List.mem_cons_self
    · rcases h.named n ⟨a, ha, hn⟩ with hin | ⟨src, hmoving⟩
      · exact List.mem_cons_of_mem _ hin
      · rcases hbefore with hbefore | ⟨src', hbefore⟩
        · exact absurd (hmoving.symm.trans hbefore) (by simp)
        · obtain ⟨-, rfl⟩ := Whereabouts.moving.inj (hmoving.symm.trans hbefore)
          exact List.mem_cons_self
  · rw [hranks] at hp
    rcases List.mem_cons.mp hp with rfl | hp
    · exact Or.inl hw
    · rcases h.left p hp with hhosted | hsent
      · rcases hbefore with hbefore | ⟨src, hbefore⟩
        · exact absurd (hhosted.symm.trans hbefore) (by simp)
        · exact absurd (hhosted.symm.trans hbefore) (by simp)
      · exact Or.inr (hsent.cons _)

omit [DecidableEq N] in
/-- An event that neither names nor moves anything. -/
theorem Itinerary.stay {past : List (Act N)} {a : Act N} (h : Itinerary past)
    (hhost : a.hostedAt = none) (hmoves : a.moves = none) (hnames : ∀ n, ¬ a.Names n) :
    Itinerary (a :: past) := by
  have hranks : hostRanks (a :: past) = hostRanks past := List.filterMap_cons_none hhost
  have hw : whereabouts (a :: past) = whereabouts past := by rw [whereabouts, hmoves]; rfl
  refine ⟨fun n hn => ?_, fun p hp => ?_⟩
  · obtain ⟨b, hb, hn⟩ := hn
    rw [hranks, hw]
    rcases List.mem_cons.mp hb with rfl | hb
    · exact absurd hn (hnames n)
    · exact h.named n ⟨b, hb, hn⟩
  · rw [hranks] at hp
    rw [hw]
    exact (h.left p hp).imp_right fun hsent => hsent.cons a

omit [DecidableEq N] in
theorem Itinerary.cons {past : List (Act N)} {a : Act N} (h : Itinerary past)
    (ha : Enduring past a) : Itinerary (a :: past) := by
  cases a with
  | deliver p => exact h.stay rfl rfl fun _ => id
  | call q c =>
      cases c with
      | registerEntity => exact h.arrive rfl rfl (fun n hn => hn.symm) (Or.inl ha.1)
      | entityImmigrated src =>
          exact h.arrive rfl rfl (fun n hn => hn.symm) (Or.inr ⟨src, ha.1⟩)
      | unregisterEntity => exact absurd ha.2 (by simp [Act.unregisters])
      | getLocation b => exact h.stay rfl rfl fun _ => id
      | entityExists b => exact h.stay rfl rfl fun _ => id
      | entityEmigrated d =>
          have hbefore : whereabouts past = .hosted q := ha.1.1
          refine ⟨fun n hn => ?_, fun p hp => Or.inr ?_⟩
          · obtain ⟨b, hb, hn⟩ := hn
            rcases List.mem_cons.mp hb with rfl | hb
            · obtain rfl : d = n := hn
              exact Or.inr ⟨q, rfl⟩
            · rcases h.named n ⟨b, hb, hn⟩ with hin | ⟨src, hmoving⟩
              · exact Or.inl hin
              · exact absurd (hmoving.symm.trans hbefore) (by simp)
          · rcases h.left p hp with hhosted | hsent
            · obtain rfl := Whereabouts.hosted.inj (hhosted.symm.trans hbefore)
              exact ⟨d, List.mem_cons_self⟩
            · exact hsent.cons _

omit [DecidableEq N] in
theorem itinerary_nil : Itinerary ([] : List (Act N)) :=
  ⟨fun _ ⟨_, ha, _⟩ => absurd ha List.not_mem_nil, fun _ hq => absurd hq List.not_mem_nil⟩

/-! ### How long ago a rank hosted the entity -/

omit [DecidableEq N] in
/-- A rank hosts the entity by a call of its own. -/
theorem Act.call_of_hostedAt {a : Act N} (h : a.hostedAt = some r) : ∃ c, a = .call r c := by
  cases a with
  | deliver p => exact absurd h (by simp [hostedAt])
  | call q c =>
      have hq : q = r := by cases c <;> simp_all [hostedAt]
      exact ⟨c, by rw [hq]⟩

/-- How many hostings ago `r` last hosted the entity; all of them, if it never did. -/
def lag (past : List (Act N)) (r : N) : Nat := (hostRanks past).idxOf r

theorem lag_cons {past : List (Act N)} {a : Act N} {q : N} (ha : a.hostedAt = some q) (p : N) :
    lag (a :: past) p = if q = p then 0 else lag past p + 1 := by
  rw [lag, hostRanks, List.filterMap_cons_some ha, List.idxOf_cons, cond_eq_ite]
  simp only [beq_iff_eq]
  rfl

theorem lag_cons_none {past : List (Act N)} {a : Act N} (ha : a.hostedAt = none) (p : N) :
    lag (a :: past) p = lag past p := by
  rw [lag, hostRanks, List.filterMap_cons_none ha]
  rfl

/-- Everybody else hosted the entity before its host did. -/
theorem lag_host_lt {past : List (Act N)} {host : N} (hlast : LastHost past)
    (hw : whereabouts past = .hosted host) (hne : r ≠ host) : lag past host < lag past r := by
  rw [LastHost, hw] at hlast
  obtain ⟨ranks, hranks⟩ : ∃ ranks, hostRanks past = host :: ranks :=
    List.head?_eq_some_iff.mp hlast
  rw [lag, lag, hranks, List.idxOf_cons_self]
  simp [Ne.symm hne]

/-! ### Where a former host points -/

/-- Unless `r` hosts the entity, its record is where the entity went from there, on its
way or later on. -/
def Onward (r : N) (past : List (Act N)) (v : View N) : Prop :=
  ∀ d, (v.site r).cached = some d → whereabouts past = .hosted r ∨
    whereabouts past = .moving r d ∨ lag past d < lag past r

/-- What leaves the record of `r` alone, or drops it, and moves nothing. -/
theorem Onward.stay {past : List (Act N)} {v v' : View N} {a : Act N} (h : Onward r past v)
    (hhost : a.hostedAt = none) (hmoves : a.moves = none)
    (hcached : ∀ d, (v'.site r).cached = some d → (v.site r).cached = some d) :
    Onward r (a :: past) v' := by
  intro d hd
  have hw : whereabouts (a :: past) = whereabouts past := by rw [whereabouts, hmoves]; rfl
  rw [hw, lag_cons_none hhost, lag_cons_none hhost]
  exact h d (hcached d hd)

/-- **One step.** A new host is where the record of `r` leads at last, or one hosting
further on. -/
theorem Onward.step {past : List (Act N)} {v v' : View N} {a : Act N} (h : Onward r past v)
    (hdir : (v.site r).dir = none) (hlast : LastHost past) (htells : a.tells r = false)
    (ha : Enduring past a) (hs : Step home noNode v a v') : Onward r (a :: past) v' := by
  have hkept := fun hsent d => cached_of_untold (d := d) htells hs hsent
  cases a with
  | deliver p => exact h.stay rfl rfl (hkept (by simp))
  | call q c =>
      cases c with
      | getLocation b => exact h.stay rfl rfl (hkept (by simp))
      | entityExists b => exact h.stay rfl rfl (hkept (by simp))
      | unregisterEntity => exact absurd ha.2 (by simp [Act.unregisters])
      | registerEntity =>
          -- Nobody has a record of the entity yet.
          intro d hd
          have hw : whereabouts past = .unborn := ha.1
          rw [LastHost, hw] at hlast
          rcases h d (hkept (by simp) d hd) with hhosted | hmoving | hlag
          · exact absurd (hhosted.symm.trans hw) (by simp)
          · exact absurd (hmoving.symm.trans hw) (by simp)
          · exact absurd hlag (by simp [lag, show hostRanks past = [] from hlast])
      | entityImmigrated src =>
          intro d hd
          have hw : whereabouts past = .moving src q := ha.1
          by_cases hr : q = r
          · exact Or.inl (by rw [hr]; rfl)
          · refine Or.inr (Or.inr ?_)
            rw [lag_cons rfl, lag_cons rfl, if_neg hr]
            rcases h d (hkept (by simp) d hd) with hhosted | hmoving | hlag
            · exact absurd (hhosted.symm.trans hw) (by simp)
            · obtain ⟨-, rfl⟩ := Whereabouts.moving.inj (hmoving.symm.trans hw)
              simp
            · split <;> omega
      | entityEmigrated newNode =>
          intro d hd
          have hw : whereabouts past = .hosted q := ha.1.1
          by_cases hr : q = r
          · subst hr
            cases hs with
            | call =>
                rw [View.post_site_self, onCall_cached] at hd
                simp only [hdir, Option.isSome_none, Bool.false_eq_true, if_false] at hd
                exact Or.inr (Or.inl (by rw [Option.some.inj hd]; rfl))
          · rw [lag_cons_none rfl, lag_cons_none rfl]
            rcases h d (hkept (by simp [hr]) d hd) with hhosted | hmoving | hlag
            · exact absurd (Whereabouts.hosted.inj (hw.symm.trans hhosted)) hr
            · exact absurd (hmoving.symm.trans hw) (by simp)
            · exact Or.inr (Or.inr hlag)

theorem Onward.forget {past : List (Act N)} {v : View N} (h : Onward r past v) (q : N) :
    Onward r past (v.forget q) := by
  intro d hd
  rcases v.forget_cached q r with hlost | hkept
  · exact absurd (hlost.symm.trans hd) (by simp)
  · exact h d (hkept ▸ hd)

/-! ### Runs -/

theorem itinerary_of_run {ok : Runs.Guard (View N) (Act N)} {past : List (Act N)} {v : View N}
    (h : (machine home noNode).Run ok [] View.init past v)
    (hok : ∀ past v a, ok past v a → Enduring past a) : Itinerary past ∧ LastHost past := by
  refine invariant_of_run (I := fun past _ => Itinerary past ∧ LastHost past) h
    ⟨itinerary_nil, rfl⟩ ?_ fun _ _ _ hv => hv
  exact fun past v a v' hv ha _ =>
    ⟨hv.1.cons (hok past v a ha), lastHost_cons hv.2 (hok past v a ha)⟩

theorem onward_of_run {ok : Runs.Guard (View N) (Act N)} {past : List (Act N)} {v : View N}
    (h : (machine home noNode).Run ok [] View.init past v)
    (hok : ∀ past v a, ok past v a → Enduring past a) (hr : r ≠ home)
    (htold : ∀ a ∈ past, a.tells r = false) : Onward r past v := by
  refine (invariant_of_run (I := fun past v => (Routed home v ∧ LastHost past) ∧ Onward r past v)
    (h.with_labels (List.append_nil past).symm htold) ?_ ?_ ?_).2
  · exact ⟨⟨routed_init, rfl⟩, fun d hd => absurd hd (by simp [View.init, Site.blank])⟩
  · intro past v a v' hv ha hs
    have hend := hok past v a ha.1
    exact ⟨⟨hv.1.1.step hs, lastHost_cons hv.1.2 hend⟩,
      hv.2.step ((hv.1.1.site r).dir hr) hv.1.2 ha.2 hend hs⟩
  · exact fun past v q hv => ⟨⟨hv.1.1.forget q, hv.1.2⟩, hv.2.forget q⟩

/-- **Stale records lead onward.** Under FIFO delivery, when nothing is unregistered and
moves wait for the news: with nothing in flight and the entity hosted, the record of any
other rank than the home names one that has hosted the entity since that rank did, or is
the host. The record of a former host may come from an existence query only if the home
has answered one of its location requests as well. -/
theorem forwards {ok : Runs.Guard (View N) (Act N)} {past : List (Act N)} {v : View N}
    (h : (machine home noNode).Run ok [] View.init past v)
    (hok : ∀ past v a, ok past v a → Fifo v a ∧ Enduring past a ∧ Paced v a)
    (hnet : v.net = []) {host : N} (hhosts : (v.site host).hosts = true) (hr : r ≠ home)
    (hne : r ≠ host)
    (hqueried : SentOff past r →
      (∀ src n, .deliver ⟨src, r, .existsResponse true n⟩ ∉ past) ∨
        ∃ src n, .deliver ⟨src, r, .resolveResponse n⟩ ∈ past)
    {n : N} (hn : (v.site r).cached = some n) : lag past n < lag past r := by
  have hend : ∀ past v a, ok past v a → Enduring past a := fun past v a ha =>
    (hok past v a ha).2.1
  have hw := (hosting_of_run h (fun past v a ha => (hend past v a ha).1) host).mp hhosts
  obtain ⟨hitinerary, hlast⟩ := itinerary_of_run h hend
  by_cases hreceived : ∃ src n, .deliver ⟨src, r, .resolveResponse n⟩ ∈ past
  · have hcoherent := (asker_coherent h (fun past v a ha => ⟨(hok past v a ha).1, hend past v a ha⟩)
      hr hnet (by simp [hw]) hreceived hn).1
    have hdir := home_knows_host (onTime_of_paced h fun past v a ha => (hok past v a ha).2.2)
      (fun past v a ha => ⟨(hend past v a ha.1).1, ha.2⟩) hnet hhosts
    rw [Option.some.inj (hcoherent.symm.trans hdir)]
    exact lag_host_lt hlast hw hne
  · by_cases hsent : SentOff past r
    · have hexists := (hqueried hsent).resolve_right hreceived
      have htold : ∀ a ∈ past, a.tells r = false := by
        intro a ha
        rw [Bool.eq_false_iff]
        intro htells
        rcases told_by htells with ⟨src, m, rfl⟩ | ⟨src, m, rfl⟩
        · exact hreceived ⟨src, m, ha⟩
        · exact hexists src m ha
      rcases onward_of_run h hend hr htold n hn with hhosted | hmoving | hlag
      · exact absurd (Whereabouts.hosted.inj (hhosted.symm.trans hw)) hne
      · exact absurd (hmoving.symm.trans hw) (by simp)
      · exact hlag
    · -- It never hosted the entity, and whatever it was told of did.
      have hnamed := ((provenance_of_run h).site r).cached n hn
      have hin : n ∈ hostRanks past := (hitinerary.named n hnamed).resolve_right
        fun ⟨src, hmoving⟩ => absurd (hmoving.symm.trans hw) (by simp)
      have hout : r ∉ hostRanks past := by
        intro hin
        rcases hitinerary.left r hin with hhosted | hd
        · exact hne (Whereabouts.hosted.inj (hhosted.symm.trans hw))
        · exact hsent hd
      rw [lag, lag, List.idxOf_eq_length hout]
      exact List.idxOf_lt_length_iff.mpr hin

end Loc.Entity
