import Aymos.Causes
import Aymos.Lifecycle
import Aymos.SlotRecords

/-!
The fields of the records.

A record goes over the wire in fields of fixed width. The counters of a slot saturate, orders are
recorded as two halves, and every task that a record names is a slot or nobody, so that each record
of a run fits the fields it is sent in.
-/

namespace Aymos.RecordRange

open Words BitFields Allocator Scheduler Trace WordMem Kernel Machine Handlers Frames Services Switch
  Slots Select Control Boot Ownership EmissionLog Safety Startup SlotSteps Timing RingHistory Wire
  Decoder RoundTrip Validate Acceptance Snapshot Replay Selections Lifecycle Causes

variable {c c' : Ctl} {l : Label} {b : List TraceInput} {bs : List (List TraceInput)} {i : ℕ}

/-! ### The counters of a slot -/

/-- The counters that the records show fit in 32 bits. -/
structure Counted (t : SchedTask) : Prop where
  completed : t.completedJobCount < 2 ^ 32
  misses : t.deadlineMissCount < 2 ^ 32
  missed : t.missedReleaseCount < 2 ^ 32
  sequence : t.jobSequence < 2 ^ 32

lemma incrementSaturating_lt {n : ℕ} (h : n < 2 ^ 32) : incrementSaturating n < 2 ^ 32 := by
  unfold incrementSaturating uint32Max
  split <;> omega

section Counters

variable {t t' : SchedTask} {now : ℕ}

lemma counted_reset (id : ℕ) : Counted (osSchedTaskReset id) :=
  ⟨Nat.two_pow_pos 32, Nat.two_pow_pos 32, Nat.two_pow_pos 32, Nat.two_pow_pos 32⟩

lemma Counted.inState (h : Counted t) (s : TaskState) : Counted (inState t s) := { h with }

lemma Counted.startJob (h : Counted t) : Counted (startJob t) :=
  { h with sequence := incrementSaturating_lt h.sequence }

lemma Counted.activateJob (h : Counted t) : Counted (activateJob t).1 := by
  rw [activateJob_eq]
  split
  · split
    · exact { h with }
    · exact h.startJob
  · exact h

lemma Counted.accounted (h : Counted t) : Counted (accounted t) := by
  rw [Handlers.accounted, osSchedAccountRunningTick_eq]
  split
  · exact { h with }
  · exact h

lemma Counted.recordDeadlineMiss (h : Counted t) (now : ℕ) :
    Counted (osSchedRecordDeadlineMiss t now).1 := by
  rw [osSchedRecordDeadlineMiss_eq]
  split
  · exact { h with misses := incrementSaturating_lt h.misses }
  · exact h

lemma Counted.checked (h : Counted t) (now : ℕ) : Counted (checked now t) :=
  h.accounted.recordDeadlineMiss now

lemma Counted.skipped (h : Counted t) (now : ℕ) : Counted (skipped now t) := by
  rw [Handlers.skipped, osSchedRecordActiveRelease_eq]
  split
  · split
    · exact { h.checked now with }
    · exact { h.checked now with missed := incrementSaturating_lt (h.checked now).missed }
  · exact h.checked now

lemma Counted.released (h : Counted t) (now : ℕ) : Counted (released now t) := by
  rw [Handlers.released, osSchedReleaseDue_eq]
  split
  · split
    · exact { h.skipped now with }
    · exact (show Counted (redate _) from { h.skipped now with }).startJob
  · exact h.skipped now

/-- **A tick.** -/
lemma Counted.tick (h : Counted t) (now : ℕ) : Counted (tickTask now t) := by
  rw [tickTask, osSchedWakeDue_eq]
  split
  · exact (h.released now).inState _
  · exact h.released now

lemma Counted.sleep (h : Counted t) {ticks : ℕ} (hs : osSchedSleep t now ticks = (t', true)) :
    Counted t' := by
  obtain ⟨-, rfl⟩ := osSchedSleep_eq_true.mp hs
  exact { h with }

lemma Counted.completeJob (h : Counted t) (hs : osSchedCompleteJob t now = (t', true)) :
    Counted t' := by
  obtain ⟨-, rfl⟩ := osSchedCompleteJob_eq_true.mp hs
  have hmiss := h.recordDeadlineMiss now
  exact { hmiss with completed := incrementSaturating_lt hmiss.completed }

lemma Counted.waitNextPeriod (h : Counted t) (hs : osSchedWaitNextPeriod t now = (t', true)) :
    Counted t' := by
  obtain ⟨⟨-, hst, ha⟩, rfl⟩ := osSchedWaitNextPeriod_eq_true.mp hs
  exact (h.completeJob (osSchedCompleteJob_eq_true.mpr ⟨⟨hst, ha⟩, rfl⟩)).inState _

lemma counted_configure {config : TaskTimingConfig}
    (hs : osSchedTaskConfigure t config now = (t', true)) : Counted t' := by
  obtain ⟨-, -, -, hcases⟩ := osSchedTaskConfigure_cases hs
  have harmed : Counted (armed t.id config now) := { counted_reset t.id with }
  rcases hcases with ⟨-, ha⟩ | ⟨-, rfl⟩
  · have hstart := harmed.activateJob
    rw [ha] at hstart
    exact hstart
  · exact harmed

/-- **A step of a slot.** -/
lemma Counted.step {now' : ℕ} {records : List TraceInput} (h : Counted t)
    (hstep : SlotStep i now t l now' t' records) : Counted t' := by
  cases hstep with
  | same => exact h
  | ticked => exact h.tick _
  | preempted => exact (h.tick _).inState _
  | retired => exact h.inState _
  | resumed => exact h.inState _
  | reclaimed => exact counted_reset i
  | cleared => exact counted_reset i
  | created _ hconf => exact counted_configure hconf
  | yielded => exact h.inState _
  | slept hsleep => exact h.sleep hsleep
  | waited hwait => exact h.waitNextPeriod hwait
  | exited hdone => exact (h.completeJob hdone).inState _

end Counters

variable {img : Image} {P : KernelState → Label → Prop} {labels : List Label} {k k' : KernelState}
  {log : Log}

/-- **The counters of every slot fit**, along every run. -/
theorem counted_of_reaches (h : Reaches img P labels k) (hi : i ∈ userSlots) :
    Counted (k.schedules i) :=
  slot_induction (Q := fun _ _ t => Counted t) h hi (fun _ => counted_reset i)
    fun _ _ hq hstep => hq.step hstep

/-! ### The cause of a switch -/

lemma requestCause_le (sources : ℕ) : requestCause sources ≤ 8 := (requestCause_isCause sources).2

/-- No step records a cause beyond those of the source. -/
lemma cause_step (h : c.cause ≤ 8) (hstep : CtlStep c l c' bs) : c'.cause ≤ 8 := by
  cases hstep with
  | tickPreempt => exact requestCause_le _
  | pendCommit => exact Nat.zero_le _
  | kernelStart => exact (by decide : switchStart ≤ 8)
  | create =>
    rw [announced]
    split
    · exact requestCause_le _
    · exact h
  | yield => exact (by decide : switchYield ≤ 8)
  | sleep => exact (by decide : switchSleep ≤ 8)
  | waitNextPeriod => exact (by decide : switchWaitPeriod ≤ 8)
  | taskExit => exact (by decide : switchExit ≤ 8)
  | _ => exact h

lemma cause_le (h : Reaches img P labels k) : k.pendingSwitchCause ≤ 8 := by
  refine h.induction (Q := fun _ k => (ctl k).cause ≤ 8) (fun m ram pc _ => Nat.zero_le _) ?_
  intro labels k l k' hr ih _ hs
  obtain ⟨bs, hctl, -⟩ := control_step img (ControlInv.wellIndexed hr.control) hs
  exact cause_step ih hctl

/-! ### The records of a step -/

/-- A task that a record names: a slot or nobody. -/
def Named (task : ℕ) : Prop := task < osTaskCount ∨ task = traceTaskInvalid

/-- A record that fits the fields it is sent in. -/
structure Sized (input : TraceInput) : Prop where
  task : Named input.task
  related : Named input.related
  value0 : input.value0 < 2 ^ 32
  value1 : input.value1 < 2 ^ 32
  value2 : input.value2 < 2 ^ 32

lemma named_slot (hi : i ∈ userSlots) : Named i := Or.inl (mem_userSlots.mp hi).2

lemma named_idle : Named taskIdIdle := Or.inl (by decide)

lemma named_none : Named traceTaskInvalid := Or.inr rfl

lemma zero_small : (0 : ℕ) < 2 ^ 32 := Nat.two_pow_pos 32

lemma named_current (h : ControlInv c) : Named (traceTask c.current) := by
  rcases h.current with hlt | hcur
  · rw [traceTask, if_neg (ne_invalid_of_lt hlt)]
    exact Or.inl hlt
  · rw [hcur]
    exact named_none

/-- A record that names slot `i` and no other task. -/
lemma sized_slot {event : TraceEvent} {v0 v1 v2 : ℕ} (hi : i ∈ userSlots) (h0 : v0 < 2 ^ 32)
    (h1 : v1 < 2 ^ 32) (h2 : v2 < 2 ^ 32) : Sized (record event i traceTaskInvalid v0 v1 v2) :=
  ⟨named_slot hi, named_none, h0, h1, h2⟩

lemma sized_deadline {event : TraceEvent} {t : SchedTask} (hi : i ∈ userSlots) (ht : Counted t) :
    Sized (deadlineRecord event i t) := sized_slot hi (u32_lt _) (u32_lt _) ht.sequence

lemma state_code_small (s : TaskState) : s.code < 2 ^ 32 :=
  (state_code_lt s).trans (by decide)

/-- **The records of a selection fit.** -/
lemma sized_selection {tasks : ℕ → SchedTask} {selected incumbent excluded : ℕ}
    {purpose : SelectPurpose} (hfits : Fits tasks) (hs : selected < osTaskCount)
    (hinc : incumbent < osTaskCount ∨ incumbent = taskIdInvalid) (hx : Excludable excluded)
    {input : TraceInput}
    (hi : input ∈ selectionInputs tasks osTaskCount selected incumbent excluded purpose) :
    Sized input := by
  rw [selectionInputs_eq] at hi
  rcases List.mem_cons.mp hi with rfl | hi
  · have hmask : readyMask tasks osTaskCount < 2 ^ 32 := by
      have hand : readyMask tasks osTaskCount &&& 0x1E = readyMask tasks osTaskCount := readyMask_and
      have hle := Nat.and_le_right (n := readyMask tasks osTaskCount) (m := 0x1E)
      rw [hand] at hle
      exact hle.trans_lt (by decide)
    have hrel : Named (if incumbent = taskIdInvalid then traceTaskInvalid else incumbent) := by
      split
      · exact named_none
      · next hne => exact Or.inl (hinc.resolve_right hne)
    have hexc : (if excluded = taskIdInvalid then uint8Max else excluded) < 2 ^ 8 := by
      split
      · decide
      · exact hx.lt
    have hnum : (eligible tasks incumbent excluded purpose).length < 2 ^ 8 :=
      eligible_length_le.trans_lt (by decide)
    refine ⟨Or.inl hs, hrel, hmask, ?_, candidates_length_le.trans_lt (by decide)⟩
    change _ ||| _ ||| _ ||| _ < 2 ^ 32
    rw [join_four 8]
    exact join_lt (v := 24) (reason_code_lt _) (join_lt (v := 16) (purpose_code_lt _)
      (join_lt (v := 8) hexc hnum))
  · obtain ⟨j, hj, rfl⟩ := List.mem_map.mp hi
    have hu := (candidate_active hj).1
    obtain ⟨-, -, -, -, -, hlt⟩ := @candidate_flags _ selected incumbent excluded _ hfits hu _ rfl
    exact ⟨named_slot hu, Or.inl hs, u32_lt _, u32_lt _, hlt.trans (by decide)⟩

/-- What the records of a step are made from. -/
structure Measured (c : Ctl) : Prop extends Fitting c where
  counted : ∀ i ∈ userSlots, Counted (c.schedules i)
  cause : c.cause ≤ 8
  stays : IdleStays c

lemma Measured.retired_counted (h : Measured c) :
    ∀ i ∈ userSlots, Counted ((retired c).schedules i) := by
  intro i hi
  by_cases hic : i = c.current
  · subst hic
    rw [Control.retired, if_neg (ne_invalid_of_lt (mem_userSlots.mp hi).2)]
    split_ifs
    · rw [show (Control.setTask c c.current _).schedules c.current = _ from
        Function.update_self ..]
      exact (h.counted _ hi).inState _
    · rw [show (cleared c c.current).schedules c.current = _ from Function.update_self ..]
      exact counted_reset _
    · exact h.counted _ hi
  · rw [retired_other hic]
    exact h.counted i hi

lemma Measured.completed (h : Measured c) {t : SchedTask} (hc : Completes c t) :
    c.current ∈ userSlots ∧ Counted t := by
  have hu := (h.inv.incumbent_active hc.call hc.user).1
  have hcounted : Counted (incumbent c) := h.counted _ hu
  refine ⟨hu, ?_⟩
  rcases hc.completed with hdone | hdone
  · exact hcounted.completeJob hdone
  · exact hcounted.waitNextPeriod hdone

lemma measured_of_reaches (h : Reaches img Lively labels k) : Measured (ctl k) :=
  { fitting_of_reaches h with
    counted := fun _ hi => counted_of_reaches h hi
    cause := cause_le h
    stays := by
      obtain ⟨log, hlog⟩ := Logged.of_reaches h
      exact idleStays_of_reaches (hlog.mono fun _ _ _ hp => hp.1).reaches }

/-- The events of the memory calls. -/
def IsMemory (input : TraceInput) : Prop :=
  input.event = TraceEvent.alloc.code ∨ input.event = TraceEvent.free.code

/-- **The records of the sites fit**, those of the memory calls and of a reclaim apart. -/
lemma site_sized (h : Measured c) (hsite : Site c l b) {input : TraceInput} (hi : input ∈ b)
    (hyield : l = .yield → c.current ≠ taskIdIdle) (hmem : ¬IsMemory input)
    (hx : l = .tick → anyExhausts (c.ticks + 1) c.schedules userSlots = false)
    (hrelease : input.event ≠ TraceEvent.ownerRelease.code) : Sized input := by
  have hnext := h.inv.next_ready.1
  cases hsite with
  | memory _ hrec =>
    obtain ⟨event, task, related, v0, v1, v2, hev, rfl⟩ := hrec
    rw [List.mem_singleton.mp hi] at hmem
    rcases hev with rfl | rfl
    · exact absurd (Or.inl rfl) hmem
    · exact absurd (Or.inr rfl) hmem
  | kernelStart =>
    rw [List.mem_singleton.mp hi]
    exact ⟨named_none, named_none, by decide, by decide, by decide⟩
  | miss hu =>
    rw [List.mem_singleton.mp hi]
    exact sized_deadline hu ((h.counted _ hu).checked _)
  | skip hu =>
    rw [List.mem_singleton.mp hi]
    exact sized_slot hu (u32_lt _) (u32_lt _) ((h.counted _ hu).skipped _).missed
  | release hu =>
    rw [List.mem_singleton.mp hi]
    exact sized_deadline hu ((h.counted _ hu).released _)
  | wake hu =>
    rw [List.mem_singleton.mp hi]
    exact sized_deadline hu ((h.counted _ hu).tick _)
  | tickProbe hhit =>
    obtain ⟨hbatch, -⟩ := tickProbe_wins h.toFitting (hx rfl) hhit
    exact sized_selection hbatch.fits hbatch.selected_lt hbatch.incumbent_lt hbatch.excludable hi
  | ownerRelease =>
    rw [List.mem_singleton.mp hi] at hrelease
    exact absurd rfl hrelease
  | dispatch =>
    exact sized_selection h.retired hnext h.inv.current (excludable h.inv h.stays) hi
  | idleStop =>
    rw [List.mem_singleton.mp hi]
    exact ⟨named_idle, Or.inl hnext, zero_small, zero_small, zero_small⟩
  | idleStart =>
    rw [List.mem_singleton.mp hi]
    exact ⟨named_idle, named_current h.inv, zero_small, zero_small, zero_small⟩
  | preempt hsrc =>
    rw [List.mem_singleton.mp hi]
    have hact := (h.inv.request hsrc).2.2.1
    have hcur := h.inv.current.resolve_right (h.inv.active.mp hact)
    exact ⟨Or.inl hcur, Or.inl hnext, h.inv.sources.trans_lt (by decide), zero_small,
      zero_small⟩
  | switch =>
    rw [List.mem_singleton.mp hi]
    exact ⟨named_current h.inv, Or.inl hnext, h.cause.trans_lt (by decide), state_code_small _,
      zero_small⟩
  | start hn =>
    rw [List.mem_singleton.mp hi]
    have hu := userSlot_of_ne_idle hnext hn
    exact sized_deadline hu (h.retired_counted _ hu)
  | @create config i t hcr =>
    rw [List.mem_singleton.mp hi]
    have hpriority := (recordable_configure hcr.configured).priority
    have hcreator : Named (traceTask (if c.running then c.current else taskIdInvalid)) := by
      split
      · exact named_current h.inv
      · exact named_none
    have hkind : t.kind.code < 2 ^ 32 := by cases t.kind <;> decide
    exact ⟨named_slot hcr.slot, hcreator, hkind, hpriority.trans (by decide), state_code_small _⟩
  | createRelease hcr =>
    rw [List.mem_singleton.mp hi]
    exact sized_deadline hcr.slot (counted_configure hcr.configured)
  | createProbe hcr =>
    have hfits := h.filled hcr.slot hcr.configured
    exact sized_selection hfits (mem_userSlots.mp hcr.slot).2 h.inv.current (Or.inl rfl) hi
  | yield hcall =>
    rw [List.mem_singleton.mp hi]
    exact sized_slot (userSlot_of_ne_idle hcall.2.2.1 (hyield rfl)) (by decide) (by decide)
      (by decide)
  | sleep hcall hsleep =>
    obtain ⟨⟨-, ha, -, hle, -⟩, rfl⟩ := osSchedSleep_eq_true.mp hsleep
    rw [List.mem_singleton.mp hi]
    have hne : c.current ≠ taskIdIdle := fun h0 => by
      rw [incumbent, h0, h.inv.table.idle.1] at ha
      cases ha
    refine sized_slot (userSlot_of_ne_idle hcall.2.2.1 hne) (u32_lt _) (u32_lt _) ?_
    exact hle.trans_lt (by decide)
  | outcomeMiss _ hcompl =>
    rw [List.mem_singleton.mp hi]
    obtain ⟨hu, ht⟩ := h.completed hcompl
    exact sized_deadline hu ht
  | outcomeMet _ hcompl =>
    rw [List.mem_singleton.mp hi]
    obtain ⟨hu, ht⟩ := h.completed hcompl
    exact sized_deadline hu ht
  | waitNextPeriod hcall hne =>
    rw [List.mem_singleton.mp hi]
    exact sized_slot (userSlot_of_ne_idle hcall.2.2.1 hne) (u32_lt _) (u32_lt _) (by decide)
  | taskExit hcall hne hdone =>
    rw [List.mem_singleton.mp hi]
    obtain ⟨hu, ht⟩ := h.completed ⟨hcall, hne, Or.inl hdone⟩
    exact sized_slot hu ht.completed ht.misses (by decide)

/-- A slot that a record shows as a user task. -/
lemma slot_of_shown {task : ℕ} (h : isUser (optionalTask task) = true) : task ∈ userSlots := by
  rw [optionalTask] at h
  split at h
  · cases h
  · rw [isUser, Bool.and_eq_true, decide_eq_true_eq, decide_eq_true_eq] at h
    exact mem_userSlots.mpr ⟨h.1, Nat.lt_succ_of_le h.2⟩

/-- The record of a reclaim fits. -/
lemma ownerRelease_sized (h : Reaches img Lively labels k) (he : Emitted k l k' bs)
    {input : TraceInput} (hb : b ∈ bs) (hi : input ∈ b)
    (hevent : input.event = TraceEvent.ownerRelease.code) : Sized input := by
  have hsite := site_of_mem he.control b hb
  have hacc : Accepted (decodedInput k'.monotonicTicks 0 input) :=
    ownerRelease_accepted h.control (MemoryTrace.arena_of_reaches h).1 he
      (ownerRelease_label hsite hi hevent) hb hi hevent
  have hroles := hacc.roles
  cases hsite with
  | ownerRelease =>
    rw [List.mem_singleton.mp hi] at hroles ⊢
    rw [rolesValid, decodedInput_event] at hroles
    simp only [decodedInput_task, Bool.and_eq_true] at hroles
    have hu := slot_of_shown hroles.1
    exact sized_slot hu (u32_lt _) ((mem_userSlots.mp hu).2.trans (by decide)) (by decide)
  | memory _ hrec =>
    obtain ⟨event, task, related, v0, v1, v2, hev, rfl⟩ := hrec
    rw [List.mem_singleton.mp hi] at hevent
    rcases hev with rfl | rfl <;> cases hevent
  | tickProbe => rcases selection_event hi with hs | hs <;> rw [hs] at hevent <;> cases hevent
  | dispatch => rcases selection_event hi with hs | hs <;> rw [hs] at hevent <;> cases hevent
  | createProbe => rcases selection_event hi with hs | hs <;> rw [hs] at hevent <;> cases hevent
  | _ =>
    rw [List.mem_singleton.mp hi] at hevent
    cases hevent

/-- **Every record of a step fits**, but for those of the memory calls. -/
theorem emitted_sized (h : Reaches img Lively labels k) (hp : Lively k l)
    (he : Emitted k l k' bs) {input : TraceInput} (hi : input ∈ bs.flatten)
    (hmem : ¬IsMemory input) : Sized input := by
  obtain ⟨b, hb, hi⟩ := List.mem_flatten.mp hi
  by_cases hevent : input.event = TraceEvent.ownerRelease.code
  · exact ownerRelease_sized h he hb hi hevent
  · refine site_sized (measured_of_reaches h) (site_of_mem he.control b hb) hi hp.1 hmem ?_ hevent
    rintro rfl
    have hctl := he.control
    generalize ctl k' = c' at hctl
    cases hctl with
    | quiet hq => cases hq
    | memory hq => cases hq
    | bootTick => exact absurd hb List.not_mem_nil
    | tick _ _ _ hx => exact hx
    | tickPreempt _ _ _ hx => exact hx

end Aymos.RecordRange
