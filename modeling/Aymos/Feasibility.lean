import Aymos.Demand

/-!
When jobs that share one processor can meet their deadlines.

A processor that serves the earliest deadline first is itself a test of feasibility. As long as it
has let no deadline pass, the ticks it has given are an assignment for the jobs that were due
(`Prompt.feasible`). Where it is about to let one pass, some jobs demand more ticks than there are
between the first of their releases and the last of their deadlines (`Prompt.overload`), and no
assignment serves them all in time (`sum_demand_le`).
-/

namespace Aymos.Feasibility

open Finset Demand

variable {J : Type*} [DecidableEq J]

/-- **The invariant of a processor** that serves the earliest deadline first and has let no deadline
pass, with the jobs that were released up to a tick and those of them that are pending. -/
structure Prompt (T : Terms J) (g : ℕ → Option J) (now : ℕ) (Released Pending : J → Prop) :
    Prop where
  after : ∀ t j, g t = some j → t ≤ now ∧ T.release j < t ∧ Released j
  within : ∀ j, served g 0 now j ≤ T.demand j
  pending : ∀ j, Pending j → Released j ∧ T.release j ≤ now ∧ now < T.deadline j
  settled : ∀ j, Released j → Pending j ∨ Meets T g j
  busy : ∀ d, Busy T g now Pending d

variable {T : Terms J} {f g : ℕ → Option J} {now : ℕ}
  {Released Released' Pending Pending' : J → Prop} {j r : J}

/-- **An assignment for the jobs that were due** is the one that was followed. -/
theorem Prompt.feasible (h : Prompt T g now Released Pending) (hj : Released j)
    (hdue : T.deadline j ≤ now) : Meets T g j := by
  rcases h.settled j hj with hpending | hmeets
  · exact absurd (h.pending j hpending).2.2 (not_lt.mpr hdue)
  · exact hmeets

/-- A job has only been served since its release. -/
lemma Prompt.served_release (h : Prompt T g now Released Pending) :
    Demand.served g 0 now j = Demand.served g (T.release j) now j := by
  refine le_antisymm (card_le_card fun t ht => ?_) (served_mono (Nat.zero_le _) le_rfl)
  obtain ⟨hin, hj⟩ := mem_filter.mp ht
  exact mem_filter.mpr ⟨mem_Ioc.mpr ⟨(h.after t j hj).2.1, (mem_Ioc.mp hin).2⟩, hj⟩

/-- A job has been served at most all the time since its release. -/
lemma Prompt.served_le (h : Prompt T g now Released Pending) :
    Demand.served g 0 now j ≤ now - T.release j := by
  rw [h.served_release]
  exact served_le_length

/-- A job that is released now has not been served. -/
lemma Prompt.fresh (h : Prompt T g now Released Pending) (hrelease : now ≤ T.release j) :
    Demand.served g 0 now j = 0 := by
  have hle := @Prompt.served_le _ _ _ _ _ _ _ j h
  omega

/-- A job that has been served all it demands, before its deadline. -/
lemma Prompt.completes (h : Prompt T g now Released Pending) (hj : now < T.deadline j)
    (hfull : T.demand j ≤ Demand.served g 0 now j) : Meets T g j := by
  rw [h.served_release] at hfull
  refine hfull.trans (card_le_card fun t ht => ?_)
  obtain ⟨hin, ht⟩ := mem_filter.mp ht
  rw [mem_Ioc] at hin
  exact mem_filter.mpr ⟨mem_Ioo.mpr ⟨hin.1, hin.2.trans_lt hj⟩, ht⟩

/-- **A crowded window**: jobs that are released from `s` on and are due by `d`, and that demand
more ticks than there are. -/
structure Crowded (T : Terms J) (Released : J → Prop) (s d : ℕ) (S : Finset J) : Prop where
  jobs : ∀ j ∈ S, Released j ∧ s ≤ T.release j ∧ T.deadline j ≤ d
  crowd : d - 1 - s < ∑ j ∈ S, T.demand j

omit [DecidableEq J] in
lemma Crowded.mono {s d : ℕ} {S : Finset J} (h : Crowded T Released s d S)
    (hreleased : ∀ j, Released j → Released' j) : Crowded T Released' s d S :=
  ⟨fun j hj => (h.jobs j hj).imp_left (hreleased j), h.crowd⟩

/-- Jobs that an assignment serves in time demand no more ticks than there are. -/
lemma sum_demand_le {s d : ℕ} {S : Finset J} (hjobs : ∀ j ∈ S, s ≤ T.release j ∧ T.deadline j ≤ d)
    (hmeets : ∀ j ∈ S, Meets T f j) : ∑ j ∈ S, T.demand j ≤ d - 1 - s := calc
  ∑ j ∈ S, T.demand j ≤ ∑ j ∈ S, Demand.served f s (d - 1) j :=
    sum_le_sum fun j hj => (hmeets j hj).served (hjobs j hj).1 (by have := (hjobs j hj).2; omega)
  _ = #{t ∈ Ioc s (d - 1) | ∃ j ∈ S, f t = some j} := sum_served
  _ ≤ #(Ioc s (d - 1)) := card_filter_le _ _
  _ = d - 1 - s := Nat.card_Ioc _ _

/-- **A window is crowded** where the next tick is the deadline of a pending job that still lacks a
tick. -/
theorem Prompt.overload (h : Prompt T g now Released Pending) (hr : Pending r)
    (hlacks : Demand.served g 0 now r < T.demand r) (hdue : T.deadline r ≤ now + 1) :
    ∃ s S, Crowded T Released s (now + 1) S := by
  obtain ⟨s, hs, honly, hpending⟩ := h.busy (now + 1)
  -- the jobs that are served in the window, and the one that still lacks a tick
  obtain ⟨S, hS⟩ : ∃ S : Finset J, ∀ j, j ∈ S ↔ j = r ∨ ∃ t, s < t ∧ t ≤ now ∧ g t = some j := by
    refine ⟨insert r ((Ioc s now).biUnion fun t => (g t).toFinset), fun j => ?_⟩
    simp only [mem_insert, mem_biUnion, mem_Ioc, Option.mem_toFinset, Option.mem_def, and_assoc]
  have hwindow : ∀ j, Demand.served g s now j ≤ Demand.served g 0 now j := fun j =>
    served_mono (Nat.zero_le s) le_rfl
  have hall : {t ∈ Ioc s now | ∃ j ∈ S, g t = some j} = Ioc s now :=
    filter_true_of_mem fun t ht => by
      obtain ⟨hst, htn⟩ := mem_Ioc.mp ht
      obtain ⟨j, hj, -⟩ := honly t hst htn
      exact ⟨j, (hS j).mpr (Or.inr ⟨t, hst, htn, hj⟩), hj⟩
  refine ⟨s, S, fun j hj => ?_, ?_⟩
  · rcases (hS j).mp hj with rfl | ⟨t, hst, htn, hj⟩
    · exact ⟨(h.pending j hr).1, hpending j hr hdue, hdue⟩
    · obtain ⟨j', hj', hrel, hdead⟩ := honly t hst htn
      obtain rfl := Option.some.inj (hj.symm.trans hj')
      exact ⟨(h.after t j hj).2.2, hrel, hdead⟩
  · calc now + 1 - 1 - s = #(Ioc s now) := by rw [Nat.add_sub_cancel, Nat.card_Ioc]
      _ = ∑ j ∈ S, Demand.served g s now j := by rw [sum_served, hall]
      _ < ∑ j ∈ S, T.demand j := sum_lt_sum (fun j _ => (hwindow j).trans (h.within j))
        ⟨r, (hS r).mpr (Or.inl rfl), (hwindow r).trans_lt hlacks⟩

/-- Before the first tick. -/
lemma Prompt.start (hnone : ∀ j, ¬Released j) (hpending : ∀ j, ¬Pending j) :
    Prompt T (fun _ => none) 0 Released Pending where
  after t j hj := by cases hj
  within _ := (served_le_length.trans (Nat.sub_zero 0).le).trans (Nat.zero_le _)
  pending j hj := absurd hj (hpending j)
  settled j hj := absurd hj (hnone j)
  busy _ := ⟨0, le_rfl, fun _ hlt hle => absurd hlt (not_lt.mpr hle), fun j hj =>
    absurd hj (hpending j)⟩

/-- **Between ticks** jobs leave that have all they demand, and others are released. -/
lemma Prompt.between (h : Prompt T g now Released Pending)
    (hreleased : ∀ j, Released' j ↔ Released j ∨ Pending' j)
    (hnext : ∀ j, Pending' j → Pending j ∨ (T.release j = now ∧ now < T.deadline j))
    (hleft : ∀ j, Pending j → Pending' j ∨ T.demand j ≤ Demand.served g 0 now j) :
    Prompt T g now Released' Pending' where
  after t j hj := by
    obtain ⟨ht, hrelease, hj⟩ := h.after t j hj
    exact ⟨ht, hrelease, (hreleased j).mpr (Or.inl hj)⟩
  within := h.within
  pending j hj := by
    refine ⟨(hreleased j).mpr (Or.inr hj), ?_⟩
    rcases hnext j hj with hj | ⟨hrelease, hdeadline⟩
    · exact (h.pending j hj).2
    · exact ⟨hrelease.le, hdeadline⟩
  settled j hj := by
    rcases (hreleased j).mp hj with hj | hj
    · rcases h.settled j hj with hp | hmeets
      · exact (hleft j hp).imp_right fun hfull => h.completes (h.pending j hp).2.2 hfull
      · exact Or.inr hmeets
    · exact Or.inl hj
  busy d := by
    obtain ⟨s, hs, honly, hpending⟩ := h.busy d
    refine ⟨s, hs, honly, fun j hj hdue => ?_⟩
    rcases hnext j hj with hj | ⟨hrelease, -⟩
    · exact hpending j hj hdue
    · exact hs.trans hrelease.ge

/-- **A tick** that serves a pending job with the earliest deadline, if any is pending, and that is
not yet that deadline. -/
theorem Prompt.tick (h : Prompt T g now Released Pending) {o : Option J}
    (hserves : ∀ r ∈ o, Pending r ∧ Demand.served g 0 now r < T.demand r)
    (hearliest : ∀ j, Pending j → ∃ r ∈ o, T.deadline r ≤ T.deadline j)
    (hdue : ∀ r ∈ o, now + 1 < T.deadline r)
    (hreleased : ∀ j, Released' j ↔ Released j ∨ Pending' j)
    (hnext : ∀ j, Pending' j → Pending j ∨ (T.release j = now + 1 ∧ now + 1 < T.deadline j))
    (hstays : ∀ j, Pending j → Pending' j) :
    Prompt T (Function.update g (now + 1) o) (now + 1) Released' Pending' := by
  have hold : ∀ t, t ≠ now + 1 → Function.update g (now + 1) o t = g t := fun t ht =>
    Function.update_of_ne ht _ _
  have hnew : Function.update g (now + 1) o (now + 1) = o := Function.update_self ..
  have hsame : ∀ j, Demand.served (Function.update g (now + 1) o) 0 now j =
      Demand.served g 0 now j := fun j => served_congr fun t _ ht => hold t (by omega)
  refine ⟨fun t j hj => ?_, fun j => ?_, fun j hj => ⟨(hreleased j).mpr (Or.inr hj), ?_⟩,
    fun j hj => ?_, fun d => ?_⟩
  · by_cases ht : t = now + 1
    · subst ht
      obtain ⟨hin, hrelease, -⟩ := h.pending j (hserves j (hnew.symm.trans hj)).1
      exact ⟨le_rfl, Nat.lt_succ_of_le hrelease, (hreleased j).mpr (Or.inl hin)⟩
    · obtain ⟨hle, hrelease, hin⟩ := h.after t j ((hold t ht).symm.trans hj)
      exact ⟨hle.trans (Nat.le_succ now), hrelease, (hreleased j).mpr (Or.inl hin)⟩
  · rw [served_succ (Nat.zero_le now), hsame, hnew]
    split
    · next hj => exact (hserves j hj).2
    · exact h.within j
  · rcases hnext j hj with hj | ⟨hrelease, hdeadline⟩
    · obtain ⟨r, hr, hle⟩ := hearliest j hj
      exact ⟨(h.pending j hj).2.1.trans (Nat.le_succ now), (hdue r hr).trans_le hle⟩
    · exact ⟨hrelease.le, hdeadline⟩
  · rcases (hreleased j).mp hj with hj | hj
    · rcases h.settled j hj with hp | hmeets
      · exact Or.inl (hstays j hp)
      · -- no tick that was given is taken back
        refine Or.inr (hmeets.trans (card_le_card fun t ht => ?_))
        obtain ⟨hin, ht⟩ := mem_filter.mp ht
        have hne : t ≠ now + 1 := fun hx => by
          have hle := (h.after t j ht).1
          omega
        exact mem_filter.mpr ⟨hin, (hold t hne).trans ht⟩
    · exact Or.inl hj
  · by_cases hd : ∃ r ∈ o, T.deadline r ≤ d
    · -- the window goes on
      obtain ⟨r, hr, hd⟩ := hd
      obtain ⟨s, hs, honly, hpending⟩ := h.busy d
      refine ⟨s, hs.trans (Nat.le_succ now), fun t hst ht => ?_, fun j hj hdue => ?_⟩
      · rcases Nat.le_succ_iff.mp ht with ht | rfl
        · rw [hold t (by omega)]
          exact honly t hst ht
        · exact ⟨r, hnew.trans hr, hpending r (hserves r hr).1 hd, hd⟩
      · rcases hnext j hj with hj | ⟨hrelease, -⟩
        · exact hpending j hj hdue
        · exact (hs.trans (Nat.le_succ now)).trans hrelease.ge
    · -- no job that is due by `d` was pending
      refine ⟨now + 1, le_rfl, fun t hst ht => absurd hst (not_lt.mpr ht), fun j hj hd' => ?_⟩
      rcases hnext j hj with hj | ⟨hrelease, -⟩
      · obtain ⟨r, hr, hle⟩ := hearliest j hj
        exact absurd ⟨r, hr, hle.trans hd'⟩ hd
      · exact hrelease.ge

end Aymos.Feasibility
