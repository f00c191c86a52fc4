import Aymos.JobLedger
import Aymos.Occupancy
import Aymos.Snapshot

/-!
The outcomes of the jobs of a slot.

The records of an occupant keep the ledger of its jobs, and the record of its slot is what the
ledger says.
-/

namespace Aymos.Outcomes

open Words Allocator Scheduler Trace Validate WordMem Kernel Machine Handlers Frames Services Switch
  Slots Control Boot Ownership EmissionLog Safety Startup SlotSteps Timing Scenario Script Occupancy
  Snapshot JobLedger

/-- The ledger that the record of a slot keeps. -/
def ledgerOf (t : SchedTask) : Ledger :=
  { sequence := t.jobSequence
    phase := if t.jobActive then .active t.absoluteDeadlineOrder t.deadlineMissLatched else .idle
    misses := t.deadlineMissCount
    completed := t.completedJobCount }

variable {now i : ℕ} {t t' : SchedTask} {log : Log} {L : Ledger}

lemma ledgerOf_active (ha : t.jobActive = true) : ledgerOf t =
    ⟨t.jobSequence, .active t.absoluteDeadlineOrder t.deadlineMissLatched, t.deadlineMissCount,
      t.completedJobCount⟩ := by
  rw [ledgerOf, if_pos ha]

lemma ledgerOf_idle (ha : t.jobActive = false) : ledgerOf t =
    ⟨t.jobSequence, .idle, t.deadlineMissCount, t.completedJobCount⟩ := by
  rw [ledgerOf, ha]
  rfl

/-- The state of a task is none of its ledger's concern. -/
lemma ledgerOf_inState (s : TaskState) : ledgerOf (inState t s) = ledgerOf t := rfl

/-! ### Records -/

lemma stamped_append {rs rs' : List TraceInput} :
    stamped now (rs ++ rs') = stamped now rs ++ stamped now rs' := List.map_append

/-- A record of an event that says nothing about jobs. -/
lemma neutral_record {event : TraceEvent} (he : event ∉ [TraceEvent.taskRelease, .deadlineMet,
    .deadlineMiss, .taskExit, .taskWaitPeriod]) (task related v0 v1 v2 : ℕ) :
    Neutral (record event task related v0 v1 v2) := by
  have hcode : ∀ other ∈ [TraceEvent.taskRelease, .deadlineMet, .deadlineMiss, .taskExit,
      .taskWaitPeriod], event.code ≠ other.code := fun other ho heq =>
    he (TraceEvent.code_injective heq ▸ ho)
  refine ⟨hcode _ (by decide), ?_, ?_⟩
  · rintro (h | h)
    · exact hcode _ (by decide) h
    · exact hcode _ (by decide) h
  · rintro (h | h)
    · exact hcode _ (by decide) h
    · exact hcode _ (by decide) h

lemma told_neutral (h : Told log L) {rs : List TraceInput} (hrs : ∀ r ∈ rs, Neutral r) :
    Told (log ++ stamped now rs) L := by
  induction rs generalizing log with
  | nil => exact (List.append_nil log).symm ▸ h
  | cons r rs ih =>
    have hone : Told (log ++ [(now, r)]) L := h.neutral (hrs r List.mem_cons_self)
    have hall := ih hone fun r' hr' => hrs r' (List.mem_cons_of_mem _ hr')
    rw [List.append_assoc] at hall
    exact hall

/-- A record that is made in one case only. -/
lemma told_ite (tick : ℕ) (h : Told log L) {p : Prop} [Decidable p] {r : TraceInput}
    (hr : Neutral r) : Told (log ++ stamped tick (if p then [[r]] else []).flatten) L := by
  refine told_neutral h fun r' hr' => ?_
  split at hr'
  · rw [List.mem_singleton.mp hr']
    exact hr
  · exact absurd hr' List.not_mem_nil

/-- The job that a record of a slot names. -/
lemma jobOf_deadlineRecord {e : TraceEvent} (hd : t.absoluteDeadlineOrder < 2 ^ 64) :
    jobOf (deadlineRecord e i t) = (t.jobSequence, t.absoluteDeadlineOrder) :=
  Prod.ext rfl (deadline_halves hd)

/-! ### Steps of the job -/

/-- **A release.** -/
lemma told_release (h : Told log (ledgerOf t)) (ha : t.jobActive = false)
    (hfew : (startJob t).jobSequence < uint32Max) (hrec : Recordable (startJob t)) :
    Told (log ++ [(now, deadlineRecord .taskRelease i (startJob t))]) (ledgerOf (startJob t)) := by
  have hseq : (startJob t).jobSequence = t.jobSequence + 1 := by
    refine incrementSaturating_of_lt ?_
    have hle := le_incrementSaturating t.jobSequence
    rw [startJob_jobSequence] at hfew
    omega
  rw [ledgerOf_idle ha] at h
  have hjob := jobOf_deadlineRecord (e := .taskRelease) (i := i) (hrec.deadline rfl)
  rw [hseq] at hjob
  have hnew : Told (log ++ [(now, deadlineRecord .taskRelease i (startJob t))]) _ :=
    h.release rfl hjob
  rw [ledgerOf_active rfl, hseq]
  exact hnew

/-- An active job has not been counted yet. -/
lemma not_full (h : Told log (ledgerOf t)) (ha : t.jobActive = true)
    (hfew : t.jobSequence < uint32Max) : t.completedJobCount < uint32Max ∧
      (t.deadlineMissLatched = false → t.deadlineMissCount < uint32Max) := by
  have hc := h.counts
  rw [ledgerOf_active ha] at hc
  have hcompleted := hc.completed_eq
  have hmissed := hc.missed_le
  simp only [pending] at hcompleted hmissed
  refine ⟨by omega, fun hl => ?_⟩
  rw [hl] at hmissed
  simp only [Bool.not_false, Bool.toNat_true] at hmissed
  omega

/-- **The miss check of a tick.** -/
lemma told_miss (h : Told log (ledgerOf t)) (hslot : SlotInv now t) (hrec : Recordable t)
    (ha : t.jobActive = true) (hfew : t.jobSequence < uint32Max) :
    Told (log ++ stamped (now + 1) (if ticksMiss (now + 1) t then
        [[deadlineRecord .deadlineMiss i (checked (now + 1) t)]] else []).flatten)
      ⟨t.jobSequence, .active t.absoluteDeadlineOrder
        (decide (t.absoluteDeadlineOrder ≤ now + 1)),
        if t.absoluteDeadlineOrder = now + 1 then incrementSaturating t.deadlineMissCount
        else t.deadlineMissCount, t.completedJobCount⟩ := by
  have hlatch := hslot.latch ha
  have hdue := miss_due hslot
  rw [ha, eq_self, true_and] at hdue
  have hcount := (not_full h ha hfew).2
  rw [ledgerOf_active ha] at h
  by_cases hd : t.absoluteDeadlineOrder = now + 1
  · have hl : t.deadlineMissLatched = false := by
      rw [← Bool.not_eq_true, hlatch]
      omega
    have hs := checked_sameJob (n := now + 1) (t := t)
    have hjob : jobOf (deadlineRecord .deadlineMiss i (checked (now + 1) t)) =
        (t.jobSequence, t.absoluteDeadlineOrder) := by
      rw [jobOf_deadlineRecord (by rw [hs.deadline]; exact hrec.deadline ha), hs.sequence,
        hs.deadline]
    rw [hl, hd] at h
    rw [hd] at hjob
    have hnew := h.miss rfl hjob
    rw [if_pos (hdue.mpr hd), if_pos hd, incrementSaturating_of_lt (hcount hl), decide_eq_true hd.le,
      hd]
    exact hnew
  · have hsame : t.deadlineMissLatched = decide (t.absoluteDeadlineOrder ≤ now + 1) := by
      refine Bool.eq_iff_iff.mpr (hlatch.trans ?_)
      rw [decide_eq_true_eq]
      omega
    rw [if_neg fun hm => hd (hdue.mp hm), if_neg hd, ← hsame]
    exact (List.append_nil log).symm ▸ h

/-- **A tick.** -/
lemma told_tick (h : Told log (ledgerOf t)) (hslot : SlotInv now t) (hrec : Recordable t)
    (hx : tickExhausts (now + 1) t = false)
    (hfew : (tickTask (now + 1) t).jobSequence < uint32Max) :
    Told (log ++ stamped (now + 1) (tickBatches (now + 1) i t).flatten)
      (ledgerOf (tickTask (now + 1) t)) := by
  have hskip : Neutral (skipRecord i (skipped (now + 1) t)) := neutral_record (by decide) ..
  have hwake : Neutral (deadlineRecord .taskWake i (tickTask (now + 1) t)) :=
    neutral_record (by decide) ..
  simp only [tickBatches, List.flatten_append, stamped_append, ← List.append_assoc]
  cases ha : t.jobActive with
  | true =>
    have hjob := job_tick hslot hx ha
    have hs := hjob.job
    have hrel : ticksRelease (now + 1) t = false := by
      rw [← Bool.not_eq_true, release_due hslot hx]
      rintro ⟨hw, -⟩
      rw [SlotInv.waiting_inactive hslot hw] at ha
      cases ha
    have hseq : (tickTask (now + 1) t).jobSequence = t.jobSequence :=
      hs.sequence.trans (inState_jobSequence ..)
    rw [hseq] at hfew
    have hmiss := told_miss (i := i) h hslot hrec ha hfew
    have hactive : (tickTask (now + 1) t).jobActive = true :=
      (hs.jobActive.trans (inState_jobActive ..)).trans ha
    have hend : ledgerOf (tickTask (now + 1) t) = ⟨t.jobSequence, .active t.absoluteDeadlineOrder
        (decide (t.absoluteDeadlineOrder ≤ now + 1)),
        if t.absoluteDeadlineOrder = now + 1 then incrementSaturating t.deadlineMissCount
        else t.deadlineMissCount, t.completedJobCount⟩ := by
      have hdead : (tickTask (now + 1) t).absoluteDeadlineOrder = t.absoluteDeadlineOrder :=
        hs.deadline.trans (inState_absoluteDeadlineOrder ..)
      have hdone : (tickTask (now + 1) t).completedJobCount = t.completedJobCount :=
        hs.completed.trans (inState_completedJobCount ..)
      have hl : (tickTask (now + 1) t).deadlineMissLatched =
          decide (t.absoluteDeadlineOrder ≤ now + 1) := by
        rw [Bool.eq_iff_iff, decide_eq_true_eq]
        exact hjob.latch
      rw [ledgerOf_active hactive, hseq, hdead, hl, hdone, hjob.misses]
    rw [hrel, hend]
    have hrest := told_ite (now + 1) (p := ticksSkip (now + 1) t = true) hmiss hskip
    have hlast := told_ite (now + 1) (p := ticksWake (now + 1) t = true) hrest hwake
    simpa [stamped] using hlast
  | false =>
    obtain ⟨-, hmiss, hsk⟩ := skipped_of_inactive (n := now + 1) ha
    rw [hmiss, hsk]
    by_cases hw : t.state = .waitingRelease
    · obtain ⟨hwk, htick, hrel, -⟩ := waiting_due hslot hx hw
      rw [hwk]
      by_cases hdue : t.nextReleaseOrder = now + 1
      · rw [if_pos hdue] at hrel
        obtain ⟨hstart, hyes⟩ := Prod.mk.inj hrel
        have hrec' := hrec.tick hslot hx
        rw [htick, hstart] at hfew hrec' ⊢
        rw [hyes]
        have hsame : ledgerOf (redate t) = ledgerOf t := rfl
        have hnew := @told_release (now + 1) i (redate t) _ (hsame ▸ h) ha hfew hrec'
        simpa [stamped] using hnew
      · rw [if_neg hdue] at hrel
        obtain ⟨hstart, hno⟩ := Prod.mk.inj hrel
        rw [htick, hstart, hno]
        simpa [stamped] using h
    · obtain ⟨htick, hwk⟩ := tickTask_of_inactive (n := now + 1) hw ha
      have hrel := (tickTask_of_not_waiting (n := now + 1) hw).1
      rw [htick, hwk, hrel]
      simpa [stamped] using h

/-- **A call that completes the job.** -/
lemma told_complete (h : Told log (ledgerOf t)) (hslot : SlotInv now t) (hrec : Recordable t)
    (ha : t.jobActive = true) (hfew : t.jobSequence < uint32Max) {r : TraceInput}
    (hr : Completes r) {s : TaskState} :
    Told (log ++ stamped now (outcomeRecords i t (inState (finishJob t) s) ++ [r]))
      (ledgerOf (inState (finishJob t) s)) := by
  have hdone := (not_full h ha hfew).1
  have hend : ledgerOf (inState (finishJob t) s) =
      ⟨t.jobSequence, .idle, t.deadlineMissCount, t.completedJobCount + 1⟩ := by
    rw [ledgerOf_idle rfl, ← incrementSaturating_of_lt hdone]
    rfl
  rw [ledgerOf_active ha] at h
  rw [hend, stamped_append, ← List.append_assoc, outcomeRecords, outcomeBatches]
  cases hl : t.deadlineMissLatched with
  | true =>
    rw [hl] at h
    have hnew : Told (log ++ [(now, r)]) _ := h.overdue hr
    simpa [hl, stamped] using hnew
  | false =>
    rw [hl] at h
    have hlt : now < t.absoluteDeadlineOrder := by
      by_contra hle
      have := (hslot.latch ha).mpr (not_lt.mp hle)
      rw [hl] at this
      cases this
    have hjob := jobOf_deadlineRecord (e := .deadlineMet) (i := i)
      (t := inState (finishJob t) s) (hrec.deadline ha)
    have hnew : Told (log ++ [(now, deadlineRecord .deadlineMet i (inState (finishJob t) s))] ++
        [(now, r)]) _ := h.met rfl hjob hlt hr
    simpa [hl, stamped] using hnew

/-- A release only adds to the jobs. -/
lemma sequence_le {l : Label} {now' : ℕ} {records : List TraceInput} (hslot : SlotInv now t)
    (hd : t.state ≠ .dormant) (hd' : t'.state ≠ .dormant)
    (hstep : SlotStep i now t l now' t' records) : t.jobSequence ≤ t'.jobSequence := by
  have htick : tickExhausts (now + 1) t = false →
      t.jobSequence ≤ (tickTask (now + 1) t).jobSequence := fun hx => by
    cases ha : t.jobActive with
    | true => exact ((job_tick hslot hx ha).job.sequence.trans (inState_jobSequence ..)).ge
    | false =>
      by_cases hw : t.state = .waitingRelease
      · obtain ⟨-, htick, hrel, -⟩ := waiting_due hslot hx hw
        rw [htick]
        split at hrel
        · rw [(Prod.mk.inj hrel).1]
          exact le_incrementSaturating _
        · rw [(Prod.mk.inj hrel).1]
      · rw [(tickTask_of_inactive hw ha).1]
  cases hstep with
  | same => exact le_rfl
  | ticked hx => exact htick hx
  | preempted hx =>
    rw [inState_jobSequence]
    exact htick hx
  | retired => exact le_rfl
  | resumed => exact le_rfl
  | reclaimed => exact absurd rfl hd'
  | cleared => exact absurd rfl hd'
  | created hst => exact absurd hst hd
  | yielded => exact le_rfl
  | slept hsleep =>
    obtain ⟨-, rfl⟩ := osSchedSleep_eq_true.mp hsleep
    exact le_rfl
  | waited hwait =>
    obtain ⟨⟨-, -, ha⟩, rfl⟩ := osSchedWaitNextPeriod_eq_true.mp hwait
    rw [hslot.recordDeadlineMiss ha]
    exact le_rfl
  | exited hdone =>
    obtain ⟨⟨-, ha⟩, rfl⟩ := osSchedCompleteJob_eq_true.mp hdone
    rw [hslot.recordDeadlineMiss ha]
    exact le_rfl

/-- **Every step keeps the ledger.** -/
lemma told_step {l : Label} {now' : ℕ} {records : List TraceInput} (h : Told log (ledgerOf t))
    (hslot : SlotInv now t) (hrec : Recordable t) (hd : t.state ≠ .dormant)
    (hd' : t'.state ≠ .dormant) (hfew : t'.jobSequence < uint32Max)
    (hstep : SlotStep i now t l now' t' records) :
    Told (log ++ stamped now' records) (ledgerOf t') := by
  have hold := (sequence_le hslot hd hd' hstep).trans_lt hfew
  cases hstep with
  | same => exact (List.append_nil log).symm ▸ h
  | ticked hx => exact told_tick h hslot hrec hx hfew
  | preempted hx =>
    rw [inState_jobSequence] at hfew
    rw [ledgerOf_inState]
    exact told_tick h hslot hrec hx hfew
  | retired =>
    rw [ledgerOf_inState]
    exact (List.append_nil log).symm ▸ h
  | resumed =>
    rw [ledgerOf_inState]
    exact (List.append_nil log).symm ▸ h
  | reclaimed => exact absurd rfl hd'
  | cleared => exact absurd rfl hd'
  | created hst => exact absurd hst hd
  | yielded => exact h.neutral (neutral_record (by decide) ..)
  | slept hsleep =>
    obtain ⟨-, rfl⟩ := osSchedSleep_eq_true.mp hsleep
    exact Told.neutral (L := ledgerOf t) h (neutral_record (by decide) ..)
  | waited hwait =>
    obtain ⟨⟨-, -, ha⟩, rfl⟩ := osSchedWaitNextPeriod_eq_true.mp hwait
    rw [hslot.recordDeadlineMiss ha]
    exact told_complete h hslot hrec ha hold (Or.inr rfl)
  | exited hdone =>
    obtain ⟨⟨-, ha⟩, rfl⟩ := osSchedCompleteJob_eq_true.mp hdone
    rw [hslot.recordDeadlineMiss ha]
    exact told_complete (s := .exiting) h hslot hrec ha hold (Or.inl rfl)

/-- The creation of a task. -/
lemma told_configure {config : TaskTimingConfig} {t₀ related : ℕ}
    (h : osSchedTaskConfigure t config t₀ = (t', true)) :
    Told (stamped t₀ (creationRecords i related t')) (ledgerOf t') := by
  have hrec := recordable_configure h
  obtain ⟨-, -, -, rfl⟩ := osSchedTaskConfigure_eq_true h
  have hcreate : ∀ {s v0 v1 v2 : ℕ}, Told [(t₀, record .taskCreate i s v0 v1 v2)]
      ⟨0, .idle, 0, 0⟩ := Told.nil.neutral (neutral_record (by decide) ..)
  by_cases h0 : config.initialReleaseDelayTicks = 0
  · rw [if_pos h0] at hrec ⊢
    have hone : incrementSaturating 0 < uint32Max := by decide
    exact told_release (t := armed t.id config t₀) hcreate rfl hone hrec
  · rw [if_neg h0]
    exact hcreate

/-! ### Along runs -/

variable {img : Image} {P : KernelState → Label → Prop} {config : TaskConfig} {t₀ : ℕ}
  {k k' : KernelState} {l : Label} {bs : List (List TraceInput)}

/-- The ledger of the occupant of a slot. -/
lemma told_of_occupied (h : Occupied img P i config t₀ k log)
    (hfew : (k.schedules i).jobSequence < uint32Max) :
    Told (own i log) (ledgerOf (k.schedules i)) :=
  h.induction (Q := fun _ t own => t.jobSequence < uint32Max → Told own (ledgerOf t))
    (fun hconf _ => told_configure hconf)
    (fun hslot hrec hd hd' hq hstep hfew =>
      told_step (hq ((sequence_le hslot hd hd' hstep).trans_lt hfew)) hslot hrec hd hd' hfew hstep)
    hfew

/-- In a list of records every met job completes in the very next record, which is about the same
task. -/
def MetClosed (log : Log) : Prop :=
  ∀ before tick r after, log = before ++ (tick, r) :: after →
    r.event = TraceEvent.deadlineMet.code →
    ∃ r' rest, after = (tick, r') :: rest ∧ r'.task = r.task ∧ Completes r'

lemma MetClosed.append {log' : Log} (h : MetClosed log) (h' : MetClosed log') :
    MetClosed (log ++ log') := by
  intro before tick r after hsplit he
  rcases List.append_eq_append_iff.mp hsplit with ⟨mid, rfl, hmid⟩ | ⟨mid, rfl, hmid⟩
  · exact h' _ _ _ _ hmid he
  · rcases List.cons_eq_append_iff.mp hmid with ⟨rfl, hlog'⟩ | ⟨mid, rfl, rfl⟩
    · exact h' [] _ _ _ hlog' he
    · obtain ⟨r', rest, rfl, htask, hr'⟩ := h _ _ _ _ rfl he
      exact ⟨r', rest ++ log', rfl, htask, hr'⟩

lemma metClosed_of_not (h : ∀ e ∈ log, e.2.event ≠ TraceEvent.deadlineMet.code) : MetClosed log := by
  rintro before tick r after rfl he
  exact absurd he (h (tick, r) (by simp))

/-- The outcome of a job is followed by the record that completes it. -/
lemma metClosed_outcome {tick : ℕ} {r : TraceInput} (hr : Completes r) (htask : r.task = i) :
    MetClosed (entries tick (outcomeBatches t.deadlineMissLatched i t' ++ [[r]])) := by
  have hne : r.event ≠ TraceEvent.deadlineMet.code := fun he => (completes_ne hr).1 (Or.inl he)
  rw [outcomeBatches]
  split
  · refine metClosed_of_not fun e he => ?_
    rcases List.mem_cons.mp he with rfl | he
    · exact (by decide : TraceEvent.deadlineMiss.code ≠ TraceEvent.deadlineMet.code)
    · rw [List.mem_singleton.mp he]
      exact hne
  · split
    · intro before tick' r' after hsplit he
      rcases List.cons_eq_append_iff.mp hsplit with ⟨rfl, hcons⟩ | ⟨before, rfl, hrest⟩
      · obtain ⟨hfirst, rfl⟩ := List.cons.inj hcons
        obtain ⟨rfl, rfl⟩ := Prod.mk.inj hfirst
        exact ⟨r, [], rfl, htask, hr⟩
      · have hmem : (tick', r') ∈ [(tick, r)] := by
          rw [show [(tick, r)] = before ++ (tick', r') :: after from hrest]
          simp
        rw [(Prod.mk.inj (List.mem_singleton.mp hmem)).2] at he
        exact absurd he hne
    · refine metClosed_of_not fun e he => ?_
      rw [List.mem_singleton.mp he]
      exact hne

/-- Only the completion of a job meets one. -/
lemma met_site {c : Ctl} {b : List TraceInput} (h : Site c l b) {input : TraceInput}
    (hi : input ∈ b) (hmet : input.event = TraceEvent.deadlineMet.code) :
    l = .waitNextPeriod ∨ l = .taskExit := by
  rcases site_emits h hi hmet with hl | hl | hl
  · cases l <;> first | exact Or.inl rfl | exact Or.inr rfl | exact absurd hl (by simp [emits])
  · cases hl
  · cases hl

/-- **A step closes the jobs it meets.** -/
lemma metClosed_step {c c' : Ctl} (h : CtlStep c l c' bs) (tick : ℕ) :
    MetClosed (entries tick bs) := by
  have hother : ¬(l = .waitNextPeriod ∨ l = .taskExit) → MetClosed (entries tick bs) := fun hl =>
    metClosed_of_not fun e he hmet => by
      obtain ⟨input, hi, rfl⟩ := List.mem_map.mp he
      obtain ⟨b, hb, hi⟩ := List.mem_flatten.mp hi
      exact hl (met_site (site_of_mem h b hb) hi hmet)
  cases h with
  | quiet => exact metClosed_of_not fun e he => absurd he List.not_mem_nil
  | memory hq hrec =>
    obtain ⟨event, task, related, v0, v1, v2, hev, rfl⟩ := hrec
    refine metClosed_of_not fun e he => ?_
    rw [List.mem_singleton.mp he]
    rcases hev with rfl | rfl <;> exact fun hmet => by cases hmet
  | waitNextPeriod => exact metClosed_outcome (Or.inr rfl) rfl
  | taskExit => exact metClosed_outcome (Or.inl rfl) rfl
  | _ => exact hother (by rintro (hl | hl) <;> cases hl)

lemma metClosed_of_occupied (h : Occupied img P i config t₀ k log) : MetClosed log := by
  induction h with
  | created _ _ _ he => exact metClosed_step he.control _
  | step _ _ _ he _ ih => exact ih.append (metClosed_step he.control _)

/-- **What the trace of an occupant says of its jobs**, by the records `own` about it and the record
`t` of its slot. -/
structure OneOutcome (own : Log) (t : SchedTask) : Prop where
  releases : releasedJobs own = List.range' 1 t.jobSequence
  once : ∀ n, outcomes n own ≤ 1
  timely : ∀ before e after, own = before ++ e :: after → Timely before e after
  misses : t.deadlineMissCount = count .deadlineMiss own
  completed : t.completedJobCount = completions own

/-- **Every job gets exactly one deadline outcome.** -/
theorem one_outcome_per_job (h : Occupied img P i config t₀ k log)
    (hfew : (k.schedules i).jobSequence < 2 ^ 32 - 1) :
    OneOutcome (own i log) (k.schedules i) ∧ MetClosed log ∧
      ∃ labels before, Logged img P labels k (before ++ log) ∧
        (k.traceRing.dropped = 0 → k.traceRing.records = stampLog 0 (before ++ log)) := by
  have htold := told_of_occupied h hfew
  have hc := htold.counts
  obtain ⟨labels, before, hlog⟩ := h.logged
  refine ⟨⟨hc.releases, fun n => ?_, htold.timely, hc.misses.symm, hc.completed.symm⟩,
    metClosed_of_occupied h, labels, before, hlog, fun h0 => (hlog.recorded.lossless h0).2.2.2⟩
  rw [hc.outcomes]
  cases (ledgerOf (k.schedules i)).phase with
  | idle =>
    simp only [judged]
    split_ifs <;> omega
  | active d missed =>
    simp only [judged]
    have hle := Bool.toNat_le missed
    split_ifs <;> omega

/-- A job that misses its deadline, and one that meets it. -/
theorem one_outcome_per_job_skipping : ∃ k log,
    Occupied sampleImage Disciplined 1 (sampleConfig (periodic 2 2)) 0 k log ∧
      (k.schedules 1).deadlineMissCount = 1 ∧ (k.schedules 1).completedJobCount = 2 ∧
      outcomes 1 (own 1 log) = 1 ∧ outcomes 2 (own 1 log) = 1 ∧
      OneOutcome (own 1 log) (k.schedules 1) ∧ MetClosed log := by
  obtain ⟨c, log, ⟨labels, k, -, rfl, -, hocc⟩, hview⟩ :=
    @tenant_of_script (periodic 2 2) skipping _
    (fun r => (((r.1.schedules 1).jobSequence, (r.1.schedules 1).deadlineMissCount,
      (r.1.schedules 1).completedJobCount), outcomes 1 (own 1 r.2), outcomes 2 (own 1 r.2)))
    ((2, 1, 2), 1, 1) (by decide +kernel)
  simp only [Prod.mk.injEq] at hview
  obtain ⟨⟨hjobs, hmissed, hcompleted⟩, hfirst, hsecond⟩ := hview
  have hfew : (k.schedules 1).jobSequence < 2 ^ 32 - 1 := by
    rw [show (k.schedules 1).jobSequence = 2 from hjobs]
    decide
  obtain ⟨hone, hclosed, -⟩ := one_outcome_per_job hocc hfew
  exact ⟨k, log, hocc, hmissed, hcompleted, hfirst, hsecond, hone, hclosed⟩

end Aymos.Outcomes
