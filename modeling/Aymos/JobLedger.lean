import Aymos.SlotSteps
import Aymos.Validate

/-!
The ledger of the jobs of one task.

`Told` is what the records of a task may say of its jobs: which are released, how each is judged
and when it completes. Every statement about the outcomes of jobs is read off it by induction.
-/

namespace Aymos.JobLedger

open Scheduler Trace Validate EmissionLog

/-- What is known of the job that was released last. -/
inductive Phase
  | idle
  | active (deadline : ℕ) (missed : Bool)
  deriving DecidableEq, Repr

/-- The jobs of a task so far. -/
@[ext]
structure Ledger where
  sequence : ℕ
  phase : Phase
  misses : ℕ
  completed : ℕ
  deriving DecidableEq, Repr

/-- The job that a record of its release or of its outcome names: its number and its deadline. -/
def jobOf (r : TraceInput) : ℕ × ℕ := (r.value2, deadline r.value0 r.value1)

/-- A record that completes the active job. -/
def Completes (r : TraceInput) : Prop :=
  r.event = TraceEvent.taskExit.code ∨ r.event = TraceEvent.taskWaitPeriod.code

instance (r : TraceInput) : Decidable (Completes r) := inferInstanceAs (Decidable (_ ∨ _))

/-- A record of the outcome of a job. -/
def Judges (r : TraceInput) : Prop :=
  r.event = TraceEvent.deadlineMet.code ∨ r.event = TraceEvent.deadlineMiss.code

instance (r : TraceInput) : Decidable (Judges r) := inferInstanceAs (Decidable (_ ∨ _))

/-- A record that says nothing about the jobs. -/
def Neutral (r : TraceInput) : Prop :=
  r.event ≠ TraceEvent.taskRelease.code ∧ ¬Judges r ∧ ¬Completes r

/-- **The records of a task**, with the ledger of its jobs. A job is missed at its deadline, or
met before it right before it completes. -/
inductive Told : Log → Ledger → Prop
  | nil : Told [] ⟨0, .idle, 0, 0⟩
  | neutral {log : Log} {L : Ledger} {tick : ℕ} {r : TraceInput} : Told log L → Neutral r →
    Told (log ++ [(tick, r)]) L
  | release {log : Log} {n d m c tick : ℕ} {r : TraceInput} : Told log ⟨n, .idle, m, c⟩ →
    r.event = TraceEvent.taskRelease.code → jobOf r = (n + 1, d) →
    Told (log ++ [(tick, r)]) ⟨n + 1, .active d false, m, c⟩
  | miss {log : Log} {n d m c : ℕ} {r : TraceInput} : Told log ⟨n, .active d false, m, c⟩ →
    r.event = TraceEvent.deadlineMiss.code → jobOf r = (n, d) →
    Told (log ++ [(d, r)]) ⟨n, .active d true, m + 1, c⟩
  | overdue {log : Log} {n d m c tick : ℕ} {r : TraceInput} : Told log ⟨n, .active d true, m, c⟩ →
    Completes r → Told (log ++ [(tick, r)]) ⟨n, .idle, m, c + 1⟩
  | met {log : Log} {n d m c tick : ℕ} {r r' : TraceInput} : Told log ⟨n, .active d false, m, c⟩ →
    r.event = TraceEvent.deadlineMet.code → jobOf r = (n, d) → tick < d → Completes r' →
    Told (log ++ [(tick, r)] ++ [(tick, r')]) ⟨n, .idle, m, c + 1⟩

variable {log : Log} {L : Ledger}

/-! ### Counts -/

/-- How many records of a log are of an event. -/
def count (event : TraceEvent) (log : Log) : ℕ := log.countP fun e => e.2.event == event.code

/-- How many records of a log complete a job. -/
def completions (log : Log) : ℕ := log.countP fun e => decide (Completes e.2)

/-- How many records of a log judge the job with the number `n`. -/
def outcomes (n : ℕ) (log : Log) : ℕ := log.countP fun e => decide (Judges e.2 ∧ e.2.value2 = n)

/-- The numbers of the jobs that a log releases, in its order. -/
def releasedJobs (log : Log) : List ℕ :=
  (log.filter fun e => e.2.event == TraceEvent.taskRelease.code).map fun e => e.2.value2

/-- The active job past one more record. -/
def trackJob (job : Option (ℕ × ℕ)) (e : ℕ × TraceInput) : Option (ℕ × ℕ) :=
  if e.2.event = TraceEvent.taskRelease.code then some (jobOf e.2)
  else if Completes e.2 then none
  else job

/-- The job that is active after the records of a log. -/
def activeJob (log : Log) : Option (ℕ × ℕ) := log.foldl trackJob none

section Snoc

variable (e : ℕ × TraceInput)

lemma activeJob_snoc : activeJob (log ++ [e]) = trackJob (activeJob log) e := by
  rw [activeJob, List.foldl_append]
  rfl

lemma count_snoc (event : TraceEvent) : count event (log ++ [e]) =
    count event log + if e.2.event = event.code then 1 else 0 := by
  simp [count, List.countP_append, List.countP_cons]

lemma completions_snoc : completions (log ++ [e]) =
    completions log + if Completes e.2 then 1 else 0 := by
  simp [completions, List.countP_append, List.countP_cons]

lemma outcomes_snoc (n : ℕ) : outcomes n (log ++ [e]) =
    outcomes n log + if Judges e.2 ∧ e.2.value2 = n then 1 else 0 := by
  simp [outcomes, List.countP_append, List.countP_cons]

lemma releasedJobs_snoc : releasedJobs (log ++ [e]) = releasedJobs log ++
    if e.2.event = TraceEvent.taskRelease.code then [e.2.value2] else [] := by
  rw [releasedJobs, List.filter_append, List.map_append]
  refine congrArg (_ ++ ·) ?_
  by_cases h : e.2.event = TraceEvent.taskRelease.code
  · simp [h]
  · simp [h]

end Snoc

/-! ### What a ledger says -/

/-- How often the job with the number `n` has been judged. -/
def judged (n : ℕ) : Phase → ℕ → ℕ
  | .idle, last => if 1 ≤ n ∧ n ≤ last then 1 else 0
  | .active _ missed, last => if n = last then missed.toNat else if 1 ≤ n ∧ n ≤ last then 1 else 0

/-- The active job. -/
def openJob (L : Ledger) : Option (ℕ × ℕ) :=
  match L.phase with
  | .idle => none
  | .active d _ => some (L.sequence, d)

/-- The jobs that have not been missed, or have not completed. -/
def pending : Phase → ℕ × ℕ
  | .idle => (0, 0)
  | .active _ missed => ((!missed).toNat, 1)

/-- **What the ledger counts.** -/
structure Counts (log : Log) (L : Ledger) : Prop where
  releases : releasedJobs log = List.range' 1 L.sequence
  misses : count .deadlineMiss log = L.misses
  completed : completions log = L.completed
  active : activeJob log = openJob L
  missed_le : L.misses + (pending L.phase).1 ≤ L.sequence
  completed_eq : L.completed + (pending L.phase).2 = L.sequence
  outcomes : ∀ n, outcomes n log = judged n L.phase L.sequence

/-- The codes of the events that tell of jobs are distinct. -/
lemma release_ne {r : TraceInput} (h : r.event = TraceEvent.taskRelease.code) :
    ¬Judges r ∧ ¬Completes r ∧ r.event ≠ TraceEvent.deadlineMiss.code := by
  simp [Judges, Completes, h, TraceEvent.code]

lemma completes_ne {r : TraceInput} (h : Completes r) :
    ¬Judges r ∧ r.event ≠ TraceEvent.taskRelease.code ∧
      r.event ≠ TraceEvent.deadlineMiss.code := by
  rcases h with h | h <;> simp [Judges, h, TraceEvent.code]

lemma judges_ne {r : TraceInput} (h : Judges r) :
    ¬Completes r ∧ r.event ≠ TraceEvent.taskRelease.code := by
  rcases h with h | h <;> simp [Completes, h, TraceEvent.code]

lemma counts_neutral {tick : ℕ} {r : TraceInput} (h : Counts log L) (hr : Neutral r) :
    Counts (log ++ [(tick, r)]) L := by
  obtain ⟨h1, h2, h3⟩ := hr
  have hmiss : r.event ≠ TraceEvent.deadlineMiss.code := fun he => h2 (Or.inr he)
  refine ⟨?_, ?_, ?_, ?_, h.missed_le, h.completed_eq, fun n => ?_⟩
  · rw [releasedJobs_snoc, if_neg h1, List.append_nil, h.releases]
  · rw [count_snoc, if_neg hmiss, h.misses]
    rfl
  · rw [completions_snoc, if_neg h3, h.completed]
    rfl
  · rw [activeJob_snoc, trackJob, if_neg h1, if_neg h3, h.active]
  · rw [outcomes_snoc, if_neg (fun hj => h2 hj.1), h.outcomes]
    rfl

lemma counts_release {n d m c tick : ℕ} {r : TraceInput} (h : Counts log ⟨n, .idle, m, c⟩)
    (hr : r.event = TraceEvent.taskRelease.code) (hjob : jobOf r = (n + 1, d)) :
    Counts (log ++ [(tick, r)]) ⟨n + 1, .active d false, m, c⟩ := by
  obtain ⟨hj, hc, hmiss⟩ := release_ne hr
  have hle := h.missed_le
  have heq := h.completed_eq
  simp only [pending] at hle heq
  refine ⟨?_, ?_, ?_, ?_, ?_, ?_, fun k => ?_⟩
  · rw [releasedJobs_snoc, if_pos hr, h.releases, List.range'_1_concat,
      show r.value2 = n + 1 from (Prod.mk.inj hjob).1, Nat.add_comm 1 n]
  · rw [count_snoc, if_neg hmiss, h.misses]
    rfl
  · rw [completions_snoc, if_neg hc, h.completed]
    rfl
  · rw [activeJob_snoc, trackJob, if_pos hr, hjob]
    rfl
  · simp only [pending, Bool.not_false, Bool.toNat_true]
    omega
  · simp only [pending]
    omega
  · rw [outcomes_snoc, if_neg (fun hjr => hj hjr.1), h.outcomes]
    simp only [judged, Bool.toNat_false]
    split_ifs <;> omega

lemma counts_miss {n d m c : ℕ} {r : TraceInput} (h : Counts log ⟨n, .active d false, m, c⟩)
    (hr : r.event = TraceEvent.deadlineMiss.code) (hjob : jobOf r = (n, d)) :
    Counts (log ++ [(d, r)]) ⟨n, .active d true, m + 1, c⟩ := by
  have hj : Judges r := Or.inr hr
  obtain ⟨hc, hrel⟩ := judges_ne hj
  have hn : r.value2 = n := (Prod.mk.inj hjob).1
  have hle := h.missed_le
  have heq := h.completed_eq
  simp only [pending, Bool.not_false, Bool.toNat_true] at hle heq
  refine ⟨?_, ?_, ?_, ?_, ?_, ?_, fun k => ?_⟩
  · rw [releasedJobs_snoc, if_neg hrel, List.append_nil, h.releases]
  · rw [count_snoc, if_pos hr, h.misses]
  · rw [completions_snoc, if_neg hc, h.completed]
    rfl
  · rw [activeJob_snoc, trackJob, if_neg hrel, if_neg hc, h.active]
    rfl
  · simp only [pending, Bool.not_true, Bool.toNat_false]
    omega
  · simp only [pending]
    omega
  · rw [outcomes_snoc, h.outcomes, hn]
    simp only [judged, Bool.toNat_false, Bool.toNat_true, hj, true_and]
    split_ifs <;> omega

lemma counts_overdue {n d m c tick : ℕ} {r : TraceInput}
    (h : Counts log ⟨n, .active d true, m, c⟩) (hr : Completes r) :
    Counts (log ++ [(tick, r)]) ⟨n, .idle, m, c + 1⟩ := by
  obtain ⟨hj, hrel, hmiss⟩ := completes_ne hr
  have hle := h.missed_le
  have heq := h.completed_eq
  simp only [pending, Bool.not_true, Bool.toNat_false] at hle heq
  refine ⟨?_, ?_, ?_, ?_, ?_, ?_, fun k => ?_⟩
  · rw [releasedJobs_snoc, if_neg hrel, List.append_nil, h.releases]
  · rw [count_snoc, if_neg hmiss, h.misses]
    rfl
  · rw [completions_snoc, if_pos hr, h.completed]
  · rw [activeJob_snoc, trackJob, if_neg hrel, if_pos hr]
    rfl
  · simp only [pending]
    omega
  · simp only [pending]
    omega
  · rw [outcomes_snoc, if_neg (fun hjr => hj hjr.1), h.outcomes]
    simp only [judged, Bool.toNat_true]
    split_ifs <;> omega

/-- A job that is met stands as one that was missed, but for the count. -/
lemma counts_met {n d m c tick : ℕ} {r r' : TraceInput}
    (h : Counts log ⟨n, .active d false, m, c⟩) (hr : r.event = TraceEvent.deadlineMet.code)
    (hjob : jobOf r = (n, d)) (hr' : Completes r') :
    Counts (log ++ [(tick, r)] ++ [(tick, r')]) ⟨n, .idle, m, c + 1⟩ := by
  have hj : Judges r := Or.inl hr
  obtain ⟨hc, hrel⟩ := judges_ne hj
  have hmiss : r.event ≠ TraceEvent.deadlineMiss.code := by simp [hr, TraceEvent.code]
  have hn : r.value2 = n := (Prod.mk.inj hjob).1
  have hle := h.missed_le
  have heq := h.completed_eq
  simp only [pending, Bool.not_false, Bool.toNat_true] at hle heq
  refine counts_overdue (d := d) ⟨?_, ?_, ?_, ?_, ?_, ?_, fun k => ?_⟩ hr'
  · rw [releasedJobs_snoc, if_neg hrel, List.append_nil, h.releases]
  · rw [count_snoc, if_neg hmiss, h.misses]
    rfl
  · rw [completions_snoc, if_neg hc, h.completed]
    rfl
  · rw [activeJob_snoc, trackJob, if_neg hrel, if_neg hc, h.active]
    rfl
  · simp only [pending, Bool.not_true, Bool.toNat_false]
    omega
  · simp only [pending]
    omega
  · rw [outcomes_snoc, h.outcomes, hn]
    simp only [judged, Bool.toNat_false, Bool.toNat_true, hj, true_and]
    split_ifs <;> omega

/-- **What the ledger counts** is what the records say. -/
theorem Told.counts (h : Told log L) : Counts log L := by
  induction h with
  | nil =>
    refine ⟨rfl, rfl, rfl, rfl, le_rfl, rfl, fun n => ?_⟩
    have hno : ¬(1 ≤ n ∧ n ≤ 0) := by omega
    exact (if_neg hno).symm
  | neutral _ hr ih => exact counts_neutral ih hr
  | release _ hr hjob ih => exact counts_release ih hr hjob
  | miss _ hr hjob ih => exact counts_miss ih hr hjob
  | overdue _ hr ih => exact counts_overdue ih hr
  | met _ hr hjob _ hr' ih => exact counts_met ih hr hjob hr'

/-! ### What each record says -/

/-- A record among the others of a log. -/
lemma snoc_split {e x : ℕ × TraceInput} {before after : Log}
    (h : log ++ [e] = before ++ x :: after) :
    (before = log ∧ x = e ∧ after = []) ∨ ∃ rest, after = rest ++ [e] ∧ log = before ++ x :: rest := by
  rcases List.eq_nil_or_concat after with rfl | ⟨rest, e', rfl⟩
  · obtain ⟨h1, h2⟩ := List.append_inj' h rfl
    exact Or.inl ⟨h1.symm, (List.singleton_inj.mp h2).symm, rfl⟩
  · rw [List.concat_eq_append, ← List.cons_append, ← List.append_assoc] at h
    obtain ⟨h1, h2⟩ := List.append_inj' h rfl
    exact Or.inr ⟨rest, by rw [List.concat_eq_append, List.singleton_inj.mp h2], h1⟩

/-- **What a record says of the job that is active before it.** -/
structure Timely (before : Log) (e : ℕ × TraceInput) (after : Log) : Prop where
  miss : e.2.event = TraceEvent.deadlineMiss.code →
    activeJob before = some (jobOf e.2) ∧ e.1 = (jobOf e.2).2
  met : e.2.event = TraceEvent.deadlineMet.code →
    activeJob before = some (jobOf e.2) ∧ e.1 < (jobOf e.2).2 ∧
      ∃ r' rest, after = (e.1, r') :: rest ∧ Completes r'
  completes : Completes e.2 → ∃ job, activeJob before = some job ∧ outcomes job.1 before = 1

/-- A record that does not judge a job and completes none. -/
lemma timely_of_not {before after : Log} {e : ℕ × TraceInput} (hj : ¬Judges e.2)
    (hc : ¬Completes e.2) : Timely before e after :=
  ⟨fun h => absurd (Or.inr h) hj, fun h => absurd (Or.inl h) hj, fun h => absurd h hc⟩

lemma Timely.append {before after : Log} {e e' : ℕ × TraceInput} (h : Timely before e after) :
    Timely before e (after ++ [e']) :=
  ⟨h.miss, fun he => by
    obtain ⟨hjob, hlt, r', rest, rfl, hr'⟩ := h.met he
    exact ⟨hjob, hlt, r', rest ++ [e'], rfl, hr'⟩, h.completes⟩

/-- **Every record of a task is timely.** -/
theorem Told.timely (h : Told log L) : ∀ before e after, log = before ++ e :: after →
    Timely before e after := by
  induction h with
  | nil => exact fun before e after h => absurd h (by simp)
  | neutral _ hr ih =>
    intro before e after h
    rcases snoc_split h with ⟨-, rfl, -⟩ | ⟨rest, rfl, hlog⟩
    · exact timely_of_not hr.2.1 hr.2.2
    · exact (ih _ _ _ hlog).append
  | release _ hr _ ih =>
    intro before e after h
    rcases snoc_split h with ⟨-, rfl, -⟩ | ⟨rest, rfl, hlog⟩
    · exact timely_of_not (release_ne hr).1 (release_ne hr).2.1
    · exact (ih _ _ _ hlog).append
  | miss hold hr hjob ih =>
    intro before e after h
    rcases snoc_split h with ⟨rfl, rfl, -⟩ | ⟨rest, rfl, hlog⟩
    · have hj : Judges _ := Or.inr hr
      refine ⟨fun _ => ⟨?_, ?_⟩, fun hm => ?_, fun hc => absurd hc (judges_ne hj).1⟩
      · rw [hold.counts.active, hjob]
        rfl
      · rw [hjob]
      · exact absurd (hr.symm.trans hm) (by decide)
    · exact (ih _ _ _ hlog).append
  | overdue hold hr ih =>
    intro before e after h
    rcases snoc_split h with ⟨rfl, rfl, -⟩ | ⟨rest, rfl, hlog⟩
    · obtain ⟨hj, -, hmiss⟩ := completes_ne hr
      refine ⟨fun hm => absurd hm hmiss, fun hm => absurd (Or.inl hm) hj, fun _ =>
        ⟨_, hold.counts.active, ?_⟩⟩
      rw [hold.counts.outcomes]
      simp [judged]
    · exact (ih _ _ _ hlog).append
  | @met log n d m c tick r r' hold hr hjob hlt hr' ih =>
    intro before e after h
    have hj : Judges r := Or.inl hr
    have hmiss : r.event ≠ TraceEvent.deadlineMiss.code := by simp [hr, TraceEvent.code]
    rcases snoc_split h with ⟨rfl, rfl, -⟩ | ⟨rest, rfl, hlog⟩
    · obtain ⟨hj', -, hmiss'⟩ := completes_ne hr'
      refine ⟨fun hm => absurd hm hmiss', fun hm => absurd (Or.inl hm) hj', fun _ =>
        ⟨(n, d), ?_, ?_⟩⟩
      · rw [activeJob_snoc, trackJob, if_neg (judges_ne hj).2, if_neg (judges_ne hj).1,
          hold.counts.active]
        rfl
      · rw [outcomes_snoc, if_pos ⟨hj, (Prod.mk.inj hjob).1⟩, hold.counts.outcomes]
        simp [judged]
    · rcases snoc_split hlog with ⟨rfl, rfl, rfl⟩ | ⟨rest', rfl, hlog'⟩
      · refine ⟨fun hm => absurd hm hmiss, fun _ => ⟨?_, ?_, r', [], rfl, hr'⟩, fun hc =>
          absurd hc (judges_ne hj).1⟩
        · rw [hold.counts.active, hjob]
          rfl
        · rw [hjob]
          exact hlt
      · exact (ih _ _ _ hlog').append.append

end Aymos.JobLedger
