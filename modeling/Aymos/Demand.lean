import Mathlib.Algebra.Order.BigOperators.Group.Finset
import Mathlib.Data.Nat.SuccPred
import Mathlib.Order.Interval.Finset.Nat
import Mathlib.Order.Interval.Finset.SuccPred

/-!
Jobs that share one processor, a tick at a time.

`served` counts the ticks that an assignment gives to a job. A window that only serves jobs which
have to be served inside it gives each of them all it demands, if any assignment could
(`served_eq_demand`). An assignment that always serves a pending job with the earliest deadline has
such a window before every deadline, so that no deadline passes (`OnTime.tick`).
-/

namespace Aymos.Demand

open Finset

variable {J : Type*} [DecidableEq J]

/-- How many of the ticks after `s`, up to `e`, an assignment gives to a job. -/
def served (f : ℕ → Option J) (s e : ℕ) (j : J) : ℕ := #{t ∈ Ioc s e | f t = some j}

section Counting

variable {f g : ℕ → Option J} {s s' e e' : ℕ} {j : J} {S : Finset J} {demand : J → ℕ}

lemma served_mono (hs : s' ≤ s) (he : e ≤ e') : served f s e j ≤ served f s' e' j :=
  card_le_card (filter_subset_filter _ (Ioc_subset_Ioc hs he))

lemma served_congr (h : ∀ t, s < t → t ≤ e → f t = g t) : served f s e j = served g s e j := by
  refine congrArg card (filter_congr fun t ht => ?_)
  rw [h t (mem_Ioc.mp ht).1 (mem_Ioc.mp ht).2]

lemma served_eq_zero (h : ∀ t, s < t → t ≤ e → f t ≠ some j) : served f s e j = 0 :=
  card_eq_zero.mpr (filter_eq_empty_iff.mpr fun t ht => h t (mem_Ioc.mp ht).1 (mem_Ioc.mp ht).2)

lemma served_succ (h : s ≤ e) :
    served f s (e + 1) j = served f s e j + if f (e + 1) = some j then 1 else 0 := by
  have hwindow : Ioc s (e + 1) = insert (e + 1) (Ioc s e) := (insert_Ioc_right_eq_Ioc_succ h).symm
  rw [served, hwindow, filter_insert]
  split
  · rw [card_insert_of_notMem fun hin => ?_]
    · rfl
    · have hle := (mem_Ioc.mp (mem_filter.mp hin).1).2
      omega
  · rfl

lemma served_le_length : served f s e j ≤ e - s :=
  (card_filter_le _ _).trans (Nat.card_Ioc s e).le

/-- The ticks that serve some jobs. -/
lemma sum_served : ∑ j ∈ S, served f s e j = #{t ∈ Ioc s e | ∃ j ∈ S, f t = some j} := by
  have hunion : {t ∈ Ioc s e | ∃ j ∈ S, f t = some j} =
      S.biUnion fun j => {t ∈ Ioc s e | f t = some j} := by
    ext t
    simp only [mem_filter, mem_biUnion]
    tauto
  rw [hunion, card_biUnion]
  · rfl
  · intro j _ j' _ hne
    refine disjoint_left.mpr fun t ht ht' => hne ?_
    have hj := (mem_filter.mp ht).2
    have hj' := (mem_filter.mp ht').2
    exact Option.some.inj (hj.symm.trans hj')

/-- **A window that only serves jobs which have to be served inside it** gives each of them all it
demands. -/
theorem served_eq_demand (honly : ∀ t, s < t → t ≤ e → ∃ j ∈ S, g t = some j)
    (hneed : ∀ j ∈ S, demand j ≤ served f s e j) (hmost : ∀ j ∈ S, served g s e j ≤ demand j) :
    ∀ j ∈ S, served g s e j = demand j := by
  have hall : {t ∈ Ioc s e | ∃ j ∈ S, g t = some j} = Ioc s e :=
    filter_true_of_mem fun t ht => honly t (mem_Ioc.mp ht).1 (mem_Ioc.mp ht).2
  have hle : ∑ j ∈ S, demand j ≤ ∑ j ∈ S, served g s e j := calc
    ∑ j ∈ S, demand j ≤ ∑ j ∈ S, served f s e j := sum_le_sum hneed
    _ = #{t ∈ Ioc s e | ∃ j ∈ S, f t = some j} := sum_served
    _ ≤ #(Ioc s e) := card_filter_le _ _
    _ = ∑ j ∈ S, served g s e j := by rw [sum_served, hall]
  exact (sum_eq_sum_iff_of_le hmost).mp (le_antisymm (sum_le_sum hmost) hle)

end Counting

/-! ### The earliest deadline first -/

/-- What a job asks for: its demand in ticks after its release and before its deadline. -/
structure Terms (J : Type*) where
  release : J → ℕ
  deadline : J → ℕ
  demand : J → ℕ

variable (T : Terms J) (f : ℕ → Option J)

/-- An assignment gives a job its demand in time. -/
def Meets (j : J) : Prop :=
  T.demand j ≤ #{t ∈ Ioo (T.release j) (T.deadline j) | f t = some j}

instance (j : J) : Decidable (Meets T f j) := inferInstanceAs (Decidable (_ ≤ _))

/-- The jobs that are due by `d` have kept the processor busy since a tick before which none of
them was released. -/
def Busy (g : ℕ → Option J) (now : ℕ) (Pending : J → Prop) (d : ℕ) : Prop :=
  ∃ s ≤ now, (∀ t, s < t → t ≤ now → ∃ j, g t = some j ∧ s ≤ T.release j ∧ T.deadline j ≤ d) ∧
    ∀ j, Pending j → T.deadline j ≤ d → s ≤ T.release j

/-- **The invariant of a processor** that serves the earliest deadline first, with the jobs that are
pending at a tick, where the assignment `f` meets every deadline. -/
structure OnTime (g : ℕ → Option J) (now : ℕ) (Pending : J → Prop) : Prop where
  meets : ∀ t ≤ now, ∀ j, g t = some j → T.release j < t ∧ Meets T f j
  within : ∀ j, served g 0 now j ≤ T.demand j
  pending : ∀ j, Pending j → now < T.deadline j ∧ T.release j ≤ now ∧ Meets T f j
  busy : ∀ d, Busy T g now Pending d

variable {T f} {g : ℕ → Option J} {now : ℕ} {Pending Pending' : J → Prop}

lemma Meets.served {j : J} (h : Meets T f j) {s e : ℕ} (hs : s ≤ T.release j)
    (he : T.deadline j ≤ e + 1) : T.demand j ≤ Demand.served f s e j := by
  refine h.trans (card_le_card fun t ht => ?_)
  obtain ⟨hin, hf⟩ := mem_filter.mp ht
  rw [mem_Ioo] at hin
  exact mem_filter.mpr ⟨mem_Ioc.mpr ⟨hs.trans_lt hin.1, by omega⟩, hf⟩

lemma Meets.demand_le {j : J} (h : Meets T f j) :
    T.demand j ≤ T.deadline j - T.release j - 1 :=
  h.trans ((card_filter_le _ _).trans (Nat.card_Ioo _ _).le)

/-- **No deadline passes** while a job with the earliest one still lacks a tick. -/
lemma OnTime.in_time (h : OnTime T f g now Pending) {r : J} (hr : Pending r)
    (hlacks : Demand.served g 0 now r < T.demand r) : now + 1 < T.deadline r := by
  by_contra hdue
  obtain ⟨s, hs, honly, hpending⟩ := h.busy (now + 1)
  obtain ⟨-, -, hmeets⟩ := h.pending r hr
  have hrelease : s ≤ T.release r := hpending r hr (by omega)
  -- the jobs that are served in the window, and the one that still lacks a tick
  obtain ⟨S, hS⟩ : ∃ S : Finset J, ∀ j, j ∈ S ↔ j = r ∨ ∃ t, s < t ∧ t ≤ now ∧ g t = some j := by
    refine ⟨insert r ((Ioc s now).biUnion fun t => (g t).toFinset), fun j => ?_⟩
    simp only [mem_insert, mem_biUnion, mem_Ioc, Option.mem_toFinset, Option.mem_def, and_assoc]
  have hneed : ∀ j ∈ S, T.demand j ≤ Demand.served f s now j := by
    intro j hj
    rcases (hS j).mp hj with rfl | ⟨t, hst, htn, hj⟩
    · exact hmeets.served hrelease (by omega)
    · obtain ⟨j', hj', hrel, hdead⟩ := honly t hst htn
      obtain rfl := Option.some.inj (hj.symm.trans hj')
      exact (h.meets t htn j hj).2.served hrel hdead
  have hfull := served_eq_demand (S := S) (fun t hst htn => by
    obtain ⟨j, hj, -⟩ := honly t hst htn
    exact ⟨j, (hS j).mpr (Or.inr ⟨t, hst, htn, hj⟩), hj⟩) hneed
    (fun j _ => (served_mono (Nat.zero_le s) le_rfl).trans (h.within j)) r ((hS r).mpr (Or.inl rfl))
  have hle : Demand.served g s now r ≤ Demand.served g 0 now r :=
    served_mono (Nat.zero_le s) le_rfl
  omega

/-- Before the first tick. -/
lemma OnTime.start (g : ℕ → Option J) (hnone : ∀ j, ¬Pending j) (hzero : ∀ j, g 0 ≠ some j) :
    OnTime T f g 0 Pending where
  meets _ ht j hj := absurd (Nat.le_zero.mp ht ▸ hj) (hzero j)
  within _ := (served_le_length.trans (Nat.sub_zero 0).le).trans (Nat.zero_le _)
  pending j hj := absurd hj (hnone j)
  busy _ := ⟨0, le_rfl, fun _ hlt hle => absurd hlt (not_lt.mpr hle), fun j hj => absurd hj (hnone j)⟩

/-- **Between ticks** jobs complete, and others are released. -/
lemma OnTime.between (h : OnTime T f g now Pending)
    (hnext : ∀ j, Pending' j → Pending j ∨
      (T.release j = now ∧ now < T.deadline j ∧ Meets T f j)) : OnTime T f g now Pending' where
  meets := h.meets
  within := h.within
  pending j hj := by
    rcases hnext j hj with hj | ⟨hrelease, hdeadline, hmeets⟩
    · exact h.pending j hj
    · exact ⟨hdeadline, hrelease.le, hmeets⟩
  busy d := by
    obtain ⟨s, hs, honly, hpending⟩ := h.busy d
    refine ⟨s, hs, honly, fun j hj hdue => ?_⟩
    rcases hnext j hj with hj | ⟨hrelease, -⟩
    · exact hpending j hj hdue
    · exact hs.trans hrelease.ge

/-- A job that is released now has not been served. -/
lemma OnTime.fresh (h : OnTime T f g now Pending) {j : J} (hrelease : now ≤ T.release j) :
    Demand.served g 0 now j = 0 :=
  served_eq_zero fun t _ ht hj => by
    have hlt := (h.meets t ht j hj).1
    omega

/-- **A tick** that serves a pending job with the earliest deadline, if any is pending. -/
theorem OnTime.tick (h : OnTime T f g now Pending) {o : Option J}
    (hserves : ∀ r ∈ o, Pending r ∧ Demand.served g 0 now r < T.demand r)
    (hearliest : ∀ j, Pending j → ∃ r ∈ o, T.deadline r ≤ T.deadline j)
    (hnext : ∀ j, Pending' j → Pending j ∨
      (T.release j = now + 1 ∧ now + 1 < T.deadline j ∧ Meets T f j)) :
    OnTime T f (Function.update g (now + 1) o) (now + 1) Pending' := by
  have hold : ∀ t ≤ now, Function.update g (now + 1) o t = g t := fun t ht =>
    Function.update_of_ne (by omega) _ _
  have hnew : Function.update g (now + 1) o (now + 1) = o := Function.update_self ..
  have hsame : ∀ j, Demand.served (Function.update g (now + 1) o) 0 now j =
      Demand.served g 0 now j := fun j => served_congr fun t _ ht => hold t ht
  refine ⟨fun t ht j hj => ?_, fun j => ?_, fun j hj => ?_, fun d => ?_⟩
  · rcases Nat.le_succ_iff.mp ht with ht | rfl
    · exact h.meets t ht j ((hold t ht).symm.trans hj)
    · obtain ⟨-, hrelease, hmeets⟩ := h.pending j (hserves j (hnew.symm.trans hj)).1
      exact ⟨Nat.lt_succ_of_le hrelease, hmeets⟩
  · rw [served_succ (Nat.zero_le now), hsame, hnew]
    split
    · next hj => exact (hserves j hj).2
    · exact h.within j
  · rcases hnext j hj with hj | ⟨hrelease, hdeadline, hmeets⟩
    · obtain ⟨r, hr, hle⟩ := hearliest j hj
      obtain ⟨hpending, hlacks⟩ := hserves r hr
      obtain ⟨-, hrelease, hmeets⟩ := h.pending j hj
      exact ⟨(h.in_time hpending hlacks).trans_le hle, hrelease.trans (Nat.le_succ now), hmeets⟩
    · exact ⟨hdeadline, hrelease.le, hmeets⟩
  · by_cases hdue : ∃ r ∈ o, T.deadline r ≤ d
    · -- the window goes on
      obtain ⟨r, hr, hdue⟩ := hdue
      obtain ⟨s, hs, honly, hpending⟩ := h.busy d
      refine ⟨s, hs.trans (Nat.le_succ now), fun t hst ht => ?_, fun j hj hdue => ?_⟩
      · rcases Nat.le_succ_iff.mp ht with ht | rfl
        · rw [hold t ht]
          exact honly t hst ht
        · exact ⟨r, hnew.trans hr, hpending r (hserves r hr).1 hdue, hdue⟩
      · rcases hnext j hj with hj | ⟨hrelease, -⟩
        · exact hpending j hj hdue
        · exact (hs.trans (Nat.le_succ now)).trans hrelease.ge
    · -- no job that is due by `d` was pending
      refine ⟨now + 1, le_rfl, fun t hst ht => absurd hst (not_lt.mpr ht), fun j hj hd => ?_⟩
      rcases hnext j hj with hj | ⟨hrelease, -⟩
      · obtain ⟨r, hr, hle⟩ := hearliest j hj
        exact absurd ⟨r, hr, hle.trans hd⟩ hdue
      · exact hrelease.ge

end Aymos.Demand
