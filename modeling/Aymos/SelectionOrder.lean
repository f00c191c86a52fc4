import Aymos.Select
import Mathlib.Data.Set.Basic
import Mathlib.Order.RelIso.Basic

/-!
The order that the selection follows.

On the ready tasks of a table `os_sched_outranks` is a strict total order, that of the keys. The
selection takes the least of them and looks at no display tick.
-/

namespace Aymos.SelectionOrder

open Words Scheduler Select

/-- The ready user tasks of a table of `n` entries. -/
def ReadyTasks (tasks : ℕ → SchedTask) (n : ℕ) : Set ℕ := {i | 1 ≤ i ∧ i < n ∧ IsReady (tasks i)}

/-- `os_sched_outranks` between the ready tasks of a table. -/
def Outranks (tasks : ℕ → SchedTask) (n : ℕ) (i j : ReadyTasks tasks n) : Prop :=
  osSchedOutranks (tasks i) (tasks j) = true

/-- A record without its display ticks. -/
def withoutDisplay (t : SchedTask) : SchedTask :=
  { t with releaseTick := 0, nextReleaseTick := 0, wakeTick := 0, absoluteDeadlineTick := 0 }

variable {tasks tasks' : ℕ → SchedTask} {n excluded : ℕ}

section Order

variable (hid : ∀ i < n, (tasks i).id = i)

include hid

/-- **Between ready tasks** `os_sched_outranks` compares keys. -/
lemma outranks_iff (i j : ReadyTasks tasks n) :
    Outranks tasks n i j ↔ key (tasks i) < key (tasks j) := by
  obtain ⟨i, hi1, hin, hi⟩ := i
  obtain ⟨j, hj1, hjn, hj⟩ := j
  have hne : ∀ m, 1 ≤ m → m < n → (tasks m).id ≠ taskIdIdle := fun m hm hmn => by
    rw [hid m hmn]
    exact Nat.pos_iff_ne_zero.mp hm
  have h := osSchedOutranks_iff (hne i hi1 hin) (hne j hj1 hjn) hj.contender
  exact h.trans (and_iff_right hi)

lemma key_injective : Function.Injective fun i : ReadyTasks tasks n => key (tasks i) := by
  rintro ⟨i, hi1, hin, hi⟩ ⟨j, hj1, hjn, hj⟩ h
  have hkeys : (tasks i).id = (tasks j).id := by
    simp only [key, toLex_inj, Prod.mk.injEq] at h
    exact h.2.2
  rw [hid i hin, hid j hjn] at hkeys
  exact Subtype.ext hkeys

/-- **The ready tasks are strictly and totally ordered.** -/
lemma outranks_strictTotal : IsStrictTotalOrder (ReadyTasks tasks n) (Outranks tasks n) := by
  have hembeds : Outranks tasks n ↪r ((· < ·) : ℕ ×ₗ ℕ ×ₗ ℕ → ℕ ×ₗ ℕ ×ₗ ℕ → Prop) :=
    { toFun := fun i => key (tasks i)
      inj' := key_injective hid
      map_rel_iff' := fun {i j} => (outranks_iff hid i j).symm }
  exact hembeds.isStrictTotalOrder

end Order

/-- The comparison looks at no display tick. -/
lemma outranks_withoutDisplay (s t : SchedTask) :
    osSchedOutranks (withoutDisplay s) (withoutDisplay t) = osSchedOutranks s t := rfl

/-- Nor does the selection. -/
lemma select_withoutDisplay (tasks : ℕ → SchedTask) (n excluded : ℕ) :
    osSchedSelect (fun i => withoutDisplay (tasks i)) n excluded =
      osSchedSelect tasks n excluded := by
  have hstep : selectStep (fun i => withoutDisplay (tasks i)) excluded =
      selectStep tasks excluded := rfl
  unfold osSchedSelect
  rw [hstep]
  rfl

/-- **What the selection finds**, by the order of the ready tasks. -/
inductive Finds (tasks : ℕ → SchedTask) (n excluded : ℕ) : ℕ → Prop
  /-- A ready task that outranks every other, the excluded one apart. -/
  | least {r : ReadyTasks tasks n} : (r : ℕ) ≠ excluded →
    (∀ j : ReadyTasks tasks n, (j : ℕ) ≠ excluded → j ≠ r → Outranks tasks n r j) →
    Finds tasks n excluded r
  /-- The excluded task, when it is the only one ready. -/
  | excluded : excluded ∈ ReadyTasks tasks n → (∀ j ∈ ReadyTasks tasks n, j = excluded) →
    Finds tasks n excluded excluded
  | idle : ReadyTasks tasks n = ∅ → (tasks taskIdIdle).state = .ready →
    Finds tasks n excluded taskIdIdle
  | none : ReadyTasks tasks n = ∅ → (tasks taskIdIdle).state ≠ .ready →
    Finds tasks n excluded taskIdInvalid

lemma readyTasks_eq_empty (h : ∀ j, 1 ≤ j → j < n → ¬IsReady (tasks j)) :
    ReadyTasks tasks n = ∅ :=
  Set.eq_empty_of_forall_notMem fun j hj => h j hj.1 hj.2.1 hj.2.2

lemma finds_of_selected (hid : ∀ i < n, (tasks i).id = i) {r : ℕ}
    (h : Selected tasks n excluded r) : Finds tasks n excluded r := by
  cases h with
  | best h1 hlt he hleast =>
    refine .least (r := ⟨r, h1, hlt, he.2⟩) he.1 fun j hj hne => ?_
    have hle := hleast j j.2.1 j.2.2.1 ⟨hj, j.2.2.2⟩
    rw [outranks_iff hid]
    exact lt_of_le_of_ne hle fun heq => hne (key_injective hid heq.symm)
  | fallback h1 hlt hr hnone =>
    refine .excluded ⟨h1, hlt, hr⟩ fun j hj => ?_
    by_contra hne
    exact hnone j hj.1 hj.2.1 ⟨hne, hj.2.2⟩
  | idle hs hnone => exact .idle (readyTasks_eq_empty hnone) hs
  | none hs hnone => exact .none (readyTasks_eq_empty hnone) hs

/-- **The selection is the least of a strict total order**, whatever the display ticks. -/
theorem selection_least (hn : 1 ≤ n) (hn' : n ≤ 255) (hid : ∀ i < n, (tasks i).id = i)
    (excluded : ℕ) :
    IsStrictTotalOrder (ReadyTasks tasks n) (Outranks tasks n) ∧
      (∀ i j, Outranks tasks n i j ↔ key (tasks i) < key (tasks j)) ∧
      Finds tasks n excluded (osSchedSelect tasks n excluded) ∧
      ∀ tasks', (∀ i, withoutDisplay (tasks' i) = withoutDisplay (tasks i)) →
        osSchedSelect tasks' n excluded = osSchedSelect tasks n excluded ∧
          ∀ i j, osSchedOutranks (tasks' i) (tasks' j) = osSchedOutranks (tasks i) (tasks j) := by
  refine ⟨outranks_strictTotal hid, outranks_iff hid,
    finds_of_selected hid (osSchedSelect_selected hn hn' hid), fun tasks' hsame => ⟨?_, fun i j => ?_⟩⟩
  · calc osSchedSelect tasks' n excluded
        = osSchedSelect (fun i => withoutDisplay (tasks' i)) n excluded :=
          (select_withoutDisplay ..).symm
      _ = osSchedSelect (fun i => withoutDisplay (tasks i)) n excluded := by
          rw [funext hsame]
      _ = osSchedSelect tasks n excluded := select_withoutDisplay ..
  · calc osSchedOutranks (tasks' i) (tasks' j)
        = osSchedOutranks (withoutDisplay (tasks' i)) (withoutDisplay (tasks' j)) :=
          (outranks_withoutDisplay ..).symm
      _ = osSchedOutranks (withoutDisplay (tasks i)) (withoutDisplay (tasks j)) := by
          rw [hsame i, hsame j]
      _ = osSchedOutranks (tasks i) (tasks j) := outranks_withoutDisplay ..

/-- Ready tasks of which the last has the earliest deadline. -/
def descending (i : ℕ) : SchedTask :=
  { osSchedTaskReset i with state := .ready, jobActive := true, absoluteDeadlineOrder := 10 - i }

theorem selection_least_descending : Finds descending 5 taskIdInvalid 4 :=
  (selection_least (by decide) (by decide) (fun _ _ => rfl) taskIdInvalid).2.2.1

end Aymos.SelectionOrder
