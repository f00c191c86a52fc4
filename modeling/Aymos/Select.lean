import Aymos.LeastSearch
import Aymos.Scheduler
import Mathlib.Data.Prod.Lex

/-!
What the selection computes.

Ready user tasks are ordered by deadline, then priority, then identifier. `os_sched_outranks`
is that order, and `os_sched_select` finds its least element; the excluded task is taken
only when there is no other, and idle only when there is none at all.
-/

namespace Aymos.Select

open Words Scheduler LeastSearch

/-- The key of a task: its deadline, then its priority, then its identifier. -/
def key (t : SchedTask) : ℕ ×ₗ ℕ ×ₗ ℕ := toLex (t.absoluteDeadlineOrder, toLex (t.priority, t.id))

lemma key_lt_iff {s t : SchedTask} :
    key s < key t ↔ s.absoluteDeadlineOrder < t.absoluteDeadlineOrder ∨
      (s.absoluteDeadlineOrder = t.absoluteDeadlineOrder ∧
        (s.priority < t.priority ∨ (s.priority = t.priority ∧ s.id < t.id))) := by
  simp [key, Prod.Lex.toLex_lt_toLex]

/-- Ready with an active job. -/
def IsReady (t : SchedTask) : Prop := t.state = .ready ∧ t.jobActive = true

instance (t : SchedTask) : Decidable (IsReady t) := inferInstanceAs (Decidable (_ ∧ _))

/-- A task that a candidate can be compared with: active, and ready or running. -/
def IsContender (t : SchedTask) : Prop :=
  t.jobActive = true ∧ (t.state = .ready ∨ t.state = .running)

lemma IsReady.contender {t : SchedTask} (h : IsReady t) : IsContender t := ⟨h.2, Or.inl h.1⟩

/-- **`os_sched_outranks`** on user tasks is the order of the keys. -/
lemma osSchedOutranks_iff {c i : SchedTask} (hc : c.id ≠ taskIdIdle) (hi : i.id ≠ taskIdIdle)
    (hcont : IsContender i) : osSchedOutranks c i = true ↔ IsReady c ∧ key c < key i := by
  obtain ⟨hact, hstate⟩ := hcont
  rw [key_lt_iff, osSchedOutranks]
  by_cases hready : IsReady c
  · have hcomp : ¬(c.id = taskIdIdle ∨ (!i.jobActive) = true ∨
        (i.state ≠ .ready ∧ i.state ≠ .running)) := by
      simp only [hc, hact, false_or]
      rcases hstate with hs | hs <;> simp [hs]
    rw [if_neg (by simp [hready.1, hready.2]), if_neg hi, if_neg hcomp]
    simp only [hready, true_and, osTickBefore]
    split
    · simp only [decide_eq_true_eq]; omega
    · split
      · simp only [decide_eq_true_eq]; omega
      · simp only [decide_eq_true_eq]; omega
  · have hne : c.state ≠ .ready ∨ (!c.jobActive) = true := by
      unfold IsReady at hready
      cases hja : c.jobActive <;> simp_all
    rw [if_pos hne]
    simp [hready]

/-- Every ready user task outranks idle. -/
lemma osSchedOutranks_idle {c i : SchedTask} (hi : i.id = taskIdIdle) :
    osSchedOutranks c i = true ↔ IsReady c ∧ c.id ≠ taskIdIdle := by
  rw [osSchedOutranks]
  by_cases hready : IsReady c
  · rw [if_neg (by simp [hready.1, hready.2]), if_pos hi]
    simp [hready]
  · have hne : c.state ≠ .ready ∨ (!c.jobActive) = true := by
      unfold IsReady at hready
      cases hja : c.jobActive <;> simp_all
    rw [if_pos hne]
    simp [hready]

variable {tasks : ℕ → SchedTask} {excluded : ℕ}

/-- A task the search can stop at. -/
def Eligible (tasks : ℕ → SchedTask) (excluded index : ℕ) : Prop :=
  index ≠ excluded ∧ IsReady (tasks index)

/-- What the loop of `os_sched_select` has found among the first `m` user tasks. -/
def FoundBest (tasks : ℕ → SchedTask) (excluded m best : ℕ) : Prop :=
  (best = taskIdInvalid ∧ ∀ j, 1 ≤ j → j ≤ m → ¬Eligible tasks excluded j) ∨
    (1 ≤ best ∧ best ≤ m ∧ Eligible tasks excluded best ∧
      ∀ j, 1 ≤ j → j ≤ m → Eligible tasks excluded j → key (tasks best) ≤ key (tasks j))

/-- The body of the loop is a step of a search. -/
lemma selectStep_searches {n : ℕ} (hn : n < taskIdInvalid) (hid : ∀ i ≤ n, (tasks i).id = i) :
    Searches (Eligible tasks excluded) (fun i => key (tasks i)) taskIdInvalid
      (selectStep tasks excluded) n := by
  have hskip : ∀ i ≤ n, (tasks i).id ≠ i ∨ (tasks i).id = excluded ∨ (tasks i).state ≠ .ready ∨
      (!(tasks i).jobActive) = true ↔ ¬Eligible tasks excluded i := fun i hi => by
    rw [hid i hi, Eligible, IsReady]
    cases (tasks i).jobActive
    · simp
    · simp
      tauto
  refine ⟨fun best i _ hi hp => ?_, fun i _ hi hp => ?_, fun best i hb1 hbi hi hpb hp => ?_⟩
  · rw [selectStep, if_pos ((hskip i hi).mpr hp)]
  · rw [selectStep, if_neg (by rw [hskip i hi]; exact not_not.mpr hp), hid i hi,
      if_pos (Or.inl rfl)]
  · have hib : (tasks best).id = best := hid best (hbi.le.trans hi)
    have hout : osSchedOutranks (tasks i) (tasks best) = true ↔ key (tasks i) < key (tasks best) := by
      rw [osSchedOutranks_iff (by rw [hid i hi]; unfold taskIdIdle; omega)
        (by rw [hib]; unfold taskIdIdle; omega) hpb.2.contender]
      exact and_iff_right hp.2
    rw [selectStep, if_neg (by rw [hskip i hi]; exact not_not.mpr hp), hid i hi]
    refine if_congr ?_ rfl rfl
    rw [hout]
    exact or_iff_right (by omega)

/-- **The loop** finds the least eligible task. -/
lemma selectLoop_found {m : ℕ} (hm : m < taskIdInvalid) (hid : ∀ i ≤ m, (tasks i).id = i) :
    FoundBest tasks excluded m
      ((List.range' 1 m).foldl (selectStep tasks excluded) taskIdInvalid) :=
  found_foldl (selectStep_searches hm hid) le_rfl

/-- What `os_sched_select` returns on a table of `n` tasks. -/
inductive Selected (tasks : ℕ → SchedTask) (n excluded : ℕ) : ℕ → Prop
  /-- The least ready user task that is not excluded. -/
  | best {r : ℕ} : 1 ≤ r → r < n → Eligible tasks excluded r →
    (∀ j, 1 ≤ j → j < n → Eligible tasks excluded j → key (tasks r) ≤ key (tasks j)) →
    Selected tasks n excluded r
  /-- The excluded task, when it is the only one ready. -/
  | fallback : 1 ≤ excluded → excluded < n → IsReady (tasks excluded) →
    (∀ j, 1 ≤ j → j < n → ¬Eligible tasks excluded j) → Selected tasks n excluded excluded
  /-- Idle, when no user task is ready. -/
  | idle : (tasks taskIdIdle).state = .ready → (∀ j, 1 ≤ j → j < n → ¬IsReady (tasks j)) →
    Selected tasks n excluded taskIdIdle
  /-- Nothing, when idle is not ready either. -/
  | none : (tasks taskIdIdle).state ≠ .ready → (∀ j, 1 ≤ j → j < n → ¬IsReady (tasks j)) →
    Selected tasks n excluded taskIdInvalid

/-- **`os_sched_select`** on a table whose entries carry their index. -/
theorem osSchedSelect_selected {n : ℕ} (hn : 0 < n) (hn' : n ≤ taskIdInvalid)
    (hid : ∀ i < n, (tasks i).id = i) :
    Selected tasks n excluded (osSchedSelect tasks n excluded) := by
  have hloop := @selectLoop_found tasks excluded (n - 1)
    (by omega) fun i hi => hid i (by omega)
  have hidle : (tasks taskIdIdle).id = taskIdIdle := hid 0 hn
  rw [osSchedSelect, if_neg (by omega)]
  simp only
  rcases hloop with ⟨hb, hnone⟩ | ⟨h1, h2, hb, hleast⟩
  · rw [hb]
    by_cases hex : 1 ≤ excluded ∧ excluded < n ∧ IsReady (tasks excluded)
    · obtain ⟨he1, hen, her⟩ := hex
      have hcond : taskIdInvalid = taskIdInvalid ∧ excluded ≠ taskIdInvalid ∧ excluded < n ∧
          excluded ≠ taskIdIdle ∧ (tasks excluded).id = excluded ∧
          (tasks excluded).state = .ready ∧ (tasks excluded).jobActive = true :=
        ⟨rfl, by omega, hen, by unfold taskIdIdle; omega, hid _ hen, her.1, her.2⟩
      rw [if_pos hcond, if_neg (by omega)]
      exact .fallback he1 hen her fun j hj hjn => hnone j hj (by omega)
    · have hcond : ¬(taskIdInvalid = taskIdInvalid ∧ excluded ≠ taskIdInvalid ∧ excluded < n ∧
          excluded ≠ taskIdIdle ∧ (tasks excluded).id = excluded ∧
          (tasks excluded).state = .ready ∧ (tasks excluded).jobActive = true) := by
        rintro ⟨-, -, hen, he0, -, hs, ha⟩
        exact hex ⟨by unfold taskIdIdle at he0; omega, hen, hs, ha⟩
      have hall : ∀ j, 1 ≤ j → j < n → ¬IsReady (tasks j) := by
        intro j hj hjn hr
        by_cases hje : j = excluded
        · exact hex ⟨by omega, by omega, hje ▸ hr⟩
        · exact hnone j hj (by omega) ⟨hje, hr⟩
      rw [if_neg hcond]
      by_cases hs : (tasks taskIdIdle).state = .ready
      · rw [if_pos ⟨rfl, hidle, hs⟩]
        exact .idle hs hall
      · rw [if_neg (by tauto)]
        exact .none hs hall
  · have hne : ((List.range' 1 (n - 1)).foldl (selectStep tasks excluded) taskIdInvalid) ≠
        taskIdInvalid := by omega
    simp only [hne, false_and, if_false]
    exact .best h1 (by omega) hb fun j hj hjn => hleast j hj (by omega)

/-- The selection is an index of the table or no task. -/
lemma osSchedSelect_lt {n : ℕ} (hn : 0 < n) (hn' : n ≤ taskIdInvalid)
    (hid : ∀ i < n, (tasks i).id = i) (h : osSchedSelect tasks n excluded ≠ taskIdInvalid) :
    osSchedSelect tasks n excluded < n := by
  have hs := @osSchedSelect_selected _ excluded _ hn hn' hid
  generalize osSchedSelect tasks n excluded = r at hs h
  cases hs with
  | best _ h2 => exact h2
  | fallback _ h2 => exact h2
  | idle => exact hn
  | none => exact absurd rfl h

end Aymos.Select
