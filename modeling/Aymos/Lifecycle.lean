import Aymos.MemoryTrace
import Aymos.Selections

/-!
The records of the lives of tasks, as the decoder checks them.

The decoder's rules for the payload of a record are invariants of the kernel: a job that starts has
a number, a release to come lies ahead of the clock, and nothing is preempted for idle. Each site
that emits such a record keeps them.
-/

namespace Aymos.Lifecycle

open Words Allocator HeapRepr HeapOps HeapCalls Scheduler Trace WordMem Kernel Machine Handlers
  Frames Services Switch Slots Select Control Boot Ownership EmissionLog Safety Startup SlotSteps
  Timing RingHistory Decoder RoundTrip Validate Scenario Acceptance Snapshot Replay Selections

variable {i tick s : ℕ} {t : SchedTask}

/-! ### Records that are accepted -/

/-- A record that carries the deadline and the number of a job. -/
lemma accepted_job {event : TraceEvent} (he : event = .taskRelease ∨ event = .taskStart ∨
    event = .taskWake ∨ event = .deadlineMet ∨ event = .deadlineMiss) (hi : i ∈ userSlots)
    (hseq : 0 < t.jobSequence) : Accepted (decodedInput tick s (deadlineRecord event i t)) := by
  have hu := (isUser_slot hi).2
  rcases he with rfl | rfl | rfl | rfl | rfl
  all_goals
    constructor
    · simp [rolesValid, deadlineRecord, hu]
    · simp [payloadValid, deadlineRecord, hseq]
    · simp [metadataValid, deadlineRecord]

lemma accepted_skip (hi : i ∈ userSlots) (hm : 0 < t.missedReleaseCount) :
    Accepted (decodedInput tick s (skipRecord i t)) := by
  have hu := (isUser_slot hi).2
  constructor
  · simp [rolesValid, skipRecord, hu]
  · simp [payloadValid, skipRecord, hm]
  · simp [metadataValid, skipRecord]

/-- A task as the records show it. -/
lemma shown_task {task : ℕ} (h : task ∈ userSlots ∨ task = taskIdInvalid) :
    optionalTask (traceTask task) = none ∨ isUser (optionalTask (traceTask task)) = true := by
  rcases h with h | rfl
  · refine Or.inr ?_
    rw [traceTask, if_neg (ne_invalid_of_lt (mem_userSlots.mp h).2)]
    exact (isUser_slot h).2
  · exact Or.inl rfl

lemma accepted_create {creator : ℕ} (hi : i ∈ userSlots)
    (hc : creator ∈ userSlots ∨ creator = taskIdInvalid) (hp : t.priority < 2 ^ 8)
    (hs : t.state = .ready ∨ t.state = .waitingRelease) :
    Accepted (decodedInput tick s (record .taskCreate i (traceTask creator) t.kind.code t.priority
      t.state.code)) := by
  have hu := (isUser_slot hi).2
  have hkind : [0, 1].contains t.kind.code = true := by cases t.kind <;> decide
  have hstate : [1, 2].contains t.state.code = true := by rcases hs with hs | hs <;> rw [hs] <;> rfl
  have hrelated := shown_task hc
  refine ⟨?_, ?_, ?_⟩
  · simpa [rolesValid, hu] using hrelated
  · rw [payloadValid, decodedInput_event]
    change ([0, 1].contains t.kind.code && decide (t.priority ≤ 0xFF) &&
      [1, 2].contains t.state.code) = true
    rw [hkind, hstate, Bool.true_and, Bool.and_true, decide_eq_true_iff]
    exact Nat.le_of_lt_succ hp
  · simp [metadataValid]

lemma accepted_preempt {task related sources : ℕ} (ht : task < osTaskCount)
    (hr : related ∈ userSlots) (hs : sources ≤ 3) (hs0 : sources ≠ 0) :
    Accepted (decodedInput tick s (record .taskPreempt task related sources 0 0)) := by
  have hu := (isUser_slot hr).2
  have ht' : optionalTask task = some task := optionalTask_of_lt ht
  have hsources : [1, 2, 3].contains sources = true := by
    have hall : ∀ n ≤ 3, n ≠ 0 → [1, 2, 3].contains n = true := by decide
    exact hall sources hs hs0
  refine ⟨?_, ?_, ?_⟩
  · simp [rolesValid, hu, ht', isUserOrIdle_of_lt ht]
  · simp only [payloadValid, decodedInput_event, decodedInput_value0, decodedInput_value1,
      decodedInput_value2, hsources]
    rfl
  · simp [metadataValid]

lemma accepted_yield (hi : i ∈ userSlots) :
    Accepted (decodedInput tick s (record .taskYield i traceTaskInvalid 0 0 0)) := by
  have hu := (isUser_slot hi).2
  refine ⟨?_, ?_, ?_⟩
  · simp [rolesValid, hu]
  · simp [payloadValid]
  · simp [metadataValid]

lemma accepted_sleep {order ticks : ℕ} (hi : i ∈ userSlots) (hpos : 0 < ticks)
    (hle : tick ≤ order) (hfit : order < 2 ^ 64) :
    Accepted (decodedInput tick s (record .taskSleep i traceTaskInvalid (u32 order)
      (u32 (order / 2 ^ 32)) ticks)) := by
  have hu := (isUser_slot hi).2
  have horder := deadline_halves hfit
  generalize u32 order = low, u32 (order / 2 ^ 32) = high at horder
  refine ⟨?_, ?_, ?_⟩
  · simp [rolesValid, hu]
  · simp [payloadValid, horder, hpos, hle]
  · simp [metadataValid]

lemma accepted_wait {order : ℕ} (hi : i ∈ userSlots) (hlt : tick < order) (hfit : order < 2 ^ 64) :
    Accepted (decodedInput tick s (record .taskWaitPeriod i traceTaskInvalid (u32 order)
      (u32 (order / 2 ^ 32)) 0)) := by
  have hu := (isUser_slot hi).2
  have horder := deadline_halves hfit
  generalize u32 order = low, u32 (order / 2 ^ 32) = high at horder
  refine ⟨?_, ?_, ?_⟩
  · simp [rolesValid, hu]
  · simp [payloadValid, horder, hlt]
  · simp [metadataValid]

lemma accepted_exit {completed missed : ℕ} (hi : i ∈ userSlots) (hc : 0 < completed) :
    Accepted (decodedInput tick s (record .taskExit i traceTaskInvalid completed missed 0)) := by
  have hu := (isUser_slot hi).2
  refine ⟨?_, ?_, ?_⟩
  · simp [rolesValid, hu]
  · simp [payloadValid, hc]
  · simp [metadataValid]

lemma accepted_idleStart {outgoing : ℕ} (ho : outgoing ∈ userSlots ∨ outgoing = taskIdInvalid) :
    Accepted (decodedInput tick s (record .idleStart taskIdIdle (traceTask outgoing) 0 0 0)) := by
  have hrelated := shown_task ho
  have hidle : optionalTask taskIdIdle = some 0 := rfl
  refine ⟨?_, ?_, ?_⟩
  · simpa [rolesValid, hidle] using hrelated
  · simp [payloadValid]
  · simp [metadataValid]

lemma accepted_idleStop {next : ℕ} (hn : next ∈ userSlots) :
    Accepted (decodedInput tick s (record .idleStop taskIdIdle next 0 0 0)) := by
  have hu := (isUser_slot hn).2
  have hidle : optionalTask taskIdIdle = some 0 := rfl
  refine ⟨?_, ?_, ?_⟩
  · simp [rolesValid, hidle, hu]
  · simp [payloadValid]
  · simp [metadataValid]

lemma accepted_ownerRelease {released : ℕ} (hi : i ∈ userSlots) (hpos : released ≠ 0)
    (hlt : released < 2 ^ 32) :
    Accepted (decodedInput tick s (record .ownerRelease i traceTaskInvalid (u32 released) i 1)) := by
  have hu := isUser_slot hi
  have hr : u32 released = released := Nat.mod_eq_of_lt hlt
  refine ⟨?_, ?_, ?_⟩
  · simp [rolesValid, hu.2]
  · simp [payloadValid, hu.1, hr, Nat.pos_iff_ne_zero, hpos]
  · simp [metadataValid]

/-! ### What holds at the sites -/

variable {c c' : Ctl} {l : Label} {bs : List (List TraceInput)} {b : List TraceInput}

/-- A tick releases a job with a number. -/
lemma released_sequence {now : ℕ} (h : ticksRelease now t = true) :
    0 < (released now t).jobSequence := by
  rw [ticksRelease, osSchedReleaseDue_eq] at h
  rw [released, osSchedReleaseDue_eq]
  split at h
  · next hdue =>
    rw [if_pos hdue]
    split at h
    · cases h
    · next hfit =>
      rw [if_neg hfit]
      exact incrementSaturating_pos _
  · cases h

/-- A tick counts the release that it skips. -/
lemma skipped_count {now : ℕ} (h : ticksSkip now t = true) :
    0 < (skipped now t).missedReleaseCount := by
  rw [ticksSkip, osSchedRecordActiveRelease_eq] at h
  rw [skipped, osSchedRecordActiveRelease_eq]
  split at h
  · next hdue =>
    rw [if_pos hdue]
    split at h
    · cases h
    · next hfit =>
      rw [if_neg hfit]
      exact incrementSaturating_pos _
  · cases h

/-- A tick wakes an active job. -/
lemma woken_sequence {now : ℕ} (hr : Recordable t)
    (hw : t.state = .waitingRelease → t.jobActive = false) (h : ticksWake now t = true) :
    0 < (tickTask now t).jobSequence := by
  by_cases hst : t.state = .waitingRelease
  · rw [(tickTask_of_waiting hst (hw hst)).1] at h
    cases h
  · have hwake := (tickTask_of_not_waiting (n := now) hst).2.2
    split at hwake
    · next hdue =>
      rw [(Prod.mk.inj hwake).1, inState_jobSequence, skipped_sameJob.sequence]
      exact hr.sequence hdue.2.1
    · rw [(Prod.mk.inj hwake).2] at h
      cases h

/-- **Nothing is preempted for idle.** -/
lemma preempt_user (h : ControlInv c) (hsrc : c.sources ≠ 0) : next (retired c) ∈ userSlots := by
  obtain ⟨-, -, -, -, j, hj, hjc, hurgent⟩ := h.request hsrc
  obtain ⟨hj1, hj5⟩ := mem_userSlots.mp hj
  have hready : IsReady ((retired c).schedules j) := by
    rw [retired_other hjc]
    exact hurgent.1
  have hsel := h.selected
  generalize next (retired c) = n at hsel
  cases hsel with
  | best h1 hlt => exact mem_userSlots.mpr ⟨h1, hlt⟩
  | fallback h1 hlt => exact mem_userSlots.mpr ⟨h1, hlt⟩
  | idle _ hno => exact absurd hready (hno j hj1 hj5)
  | none hne => exact absurd h.idle_ready hne

/-- A job that a call completes. -/
lemma completes_sequence (h : Fitting c) (hc : Completes c t) :
    c.current ∈ userSlots ∧ 0 < t.jobSequence := by
  obtain ⟨hu, ha⟩ := h.inv.incumbent_active hc.call hc.user
  have hslot := h.inv.table.slots _ hu
  have hseq := (h.slots _ hu).sequence ha
  refine ⟨hu, ?_⟩
  rcases hc.completed with hdone | hdone
  · obtain ⟨-, rfl⟩ := osSchedCompleteJob_eq_true.mp hdone
    rw [show incumbent c = c.schedules c.current from rfl, hslot.recordDeadlineMiss ha]
    exact hseq
  · obtain ⟨-, rfl⟩ := osSchedWaitNextPeriod_eq_true.mp hdone
    rw [show incumbent c = c.schedules c.current from rfl, hslot.recordDeadlineMiss ha]
    exact hseq

/-- The events of the lives of tasks. -/
def lives : List TraceEvent :=
  [.taskCreate, .taskRelease, .taskStart, .taskPreempt, .taskYield, .taskSleep, .taskWake,
    .taskExit, .taskWaitPeriod, .taskReleaseSkipped, .idleStart, .idleStop, .deadlineMet,
    .deadlineMiss, .ownerRelease]

/-- A record of the life of a task. -/
def IsLife (input : TraceInput) : Prop := ∃ event ∈ lives, input.event = event.code

lemma not_life_of_event {e : TraceEvent} (he : e ∉ lives) {input : TraceInput}
    (hinput : input.event = e.code) : ¬IsLife input := by
  rintro ⟨event, hevent, hcode⟩
  refine he ?_
  have hall : ∀ e e' : TraceEvent, e.code = e'.code → e = e' := by
    intro e e' h
    have h' := congrArg eventOfCode h
    rw [eventOfCode_code, eventOfCode_code] at h'
    exact Option.some.inj h'
  rwa [hall e event (hinput.symm.trans hcode)]

lemma not_isLife {e : TraceEvent} (he : e ∉ lives) {task related v0 v1 v2 : ℕ} :
    ¬IsLife (record e task related v0 v1 v2) := not_life_of_event he rfl

lemma selection_not_life {schedules : ℕ → SchedTask} {n selected incumbent excluded : ℕ}
    {purpose : SelectPurpose} {input : TraceInput}
    (h : input ∈ selectionInputs schedules n selected incumbent excluded purpose) :
    ¬IsLife input := by
  rcases selection_event h with hs | hs
  · exact not_life_of_event (e := .taskSelect) (by decide) hs
  · exact not_life_of_event (e := .selectCandidate) (by decide) hs

/-- **The records of the sites are accepted**, but for the number of blocks that a reclaim shows. -/
lemma site_accepted (h : Fitting c) (hsite : Site c l b) {input : TraceInput} (hi : input ∈ b)
    (hlife : IsLife input) (hyield : l = .yield → c.current ≠ taskIdIdle)
    (hnow : l ≠ .tick → tick = c.ticks) (hclock : c.ticks < 2 ^ 63)
    (hrelease : input.event ≠ TraceEvent.ownerRelease.code) :
    Accepted (decodedInput tick s input) := by
  have hslot : ∀ i ∈ userSlots, SlotInv c.ticks (c.schedules i) := h.inv.table.slots
  cases hsite with
  | memory _ hrec =>
    obtain ⟨event, task, related, v0, v1, v2, hev, rfl⟩ := hrec
    rw [List.mem_singleton.mp hi] at hlife
    rcases hev with rfl | rfl
    · exact absurd hlife (not_isLife (by decide))
    · exact absurd hlife (not_isLife (by decide))
  | kernelStart =>
    rw [List.mem_singleton.mp hi] at hlife
    exact absurd hlife (not_isLife (by decide))
  | @miss i hu hmiss =>
    rw [List.mem_singleton.mp hi]
    refine accepted_job (by simp) hu ?_
    rw [checked_sameJob.sequence]
    exact (h.slots i hu).sequence (Slots.ticksMiss_iff.mp hmiss).1
  | skip hu hskip =>
    rw [List.mem_singleton.mp hi]
    exact accepted_skip hu (skipped_count hskip)
  | release hu hrel =>
    rw [List.mem_singleton.mp hi]
    exact accepted_job (by simp) hu (released_sequence hrel)
  | @wake i hu hwake =>
    rw [List.mem_singleton.mp hi]
    exact accepted_job (by simp) hu (woken_sequence (h.slots i hu)
      (fun hw => SlotInv.waiting_inactive (hslot i hu) hw) hwake)
  | tickProbe => exact absurd hlife (selection_not_life hi)
  | ownerRelease =>
    rw [List.mem_singleton.mp hi] at hrelease
    exact absurd rfl hrelease
  | dispatch => exact absurd hlife (selection_not_life hi)
  | idleStop _ hn =>
    rw [List.mem_singleton.mp hi]
    exact accepted_idleStop (userSlot_of_ne_idle h.inv.next_ready.1 hn)
  | idleStart _ hcur =>
    rw [List.mem_singleton.mp hi]
    exact accepted_idleStart (h.inv.current.imp_left fun hlt => userSlot_of_ne_idle hlt hcur)
  | preempt hsrc =>
    rw [List.mem_singleton.mp hi]
    have hact := (h.inv.request hsrc).2.2.1
    exact accepted_preempt (h.inv.current.resolve_right (h.inv.active.mp hact))
      (preempt_user h.inv hsrc) h.inv.sources hsrc
  | switch =>
    rw [List.mem_singleton.mp hi] at hlife
    exact absurd hlife (not_isLife (by decide))
  | start hn _ =>
    rw [List.mem_singleton.mp hi]
    have hu := userSlot_of_ne_idle h.inv.next_ready.1 hn
    refine accepted_job (by simp) hu ((h.retired_slots _ hu).sequence ?_)
    exact (h.inv.retired_table.slots _ hu).active.mpr (Or.inl h.inv.next_ready.2)
  | @create config i t hcr =>
    rw [List.mem_singleton.mp hi]
    refine accepted_create hcr.slot ?_ (recordable_configure hcr.configured).priority
      (configured_state hcr.configured)
    split
    · next hrun =>
      obtain ⟨-, -, hlt, -, -, hne⟩ := hcr.caller hrun
      exact Or.inl (userSlot_of_ne_idle hlt hne)
    · exact Or.inr rfl
  | createRelease hcr hready =>
    rw [List.mem_singleton.mp hi]
    exact accepted_job (by simp) hcr.slot ((recordable_configure hcr.configured).sequence
      ((slotInv_configure hcr.configured).active.mpr (Or.inl hready)))
  | createProbe => exact absurd hlife (selection_not_life hi)
  | yield hcall =>
    rw [List.mem_singleton.mp hi]
    exact accepted_yield (userSlot_of_ne_idle hcall.2.2.1 (hyield rfl))
  | sleep hcall hsleep =>
    obtain ⟨⟨hrun, ha, hpos, hle, hfit⟩, rfl⟩ := osSchedSleep_eq_true.mp hsleep
    rw [List.mem_singleton.mp hi, hnow (by simp)]
    have hne : c.current ≠ taskIdIdle := fun h0 => by
      rw [incumbent, h0, h.inv.table.idle.1] at ha
      cases ha
    refine accepted_sleep (userSlot_of_ne_idle hcall.2.2.1 hne) hpos ?_ ?_
    · exact Nat.le_add_right _ _
    · rw [sleepUntil_wakeOrder]
      unfold maxTimeInterval int32Max at hle
      omega
  | outcomeMiss _ hcompl =>
    rw [List.mem_singleton.mp hi]
    obtain ⟨hu, hseq⟩ := completes_sequence h hcompl
    exact accepted_job (by simp) hu hseq
  | outcomeMet _ hcompl =>
    rw [List.mem_singleton.mp hi]
    obtain ⟨hu, hseq⟩ := completes_sequence h hcompl
    exact accepted_job (by simp) hu hseq
  | waitNextPeriod hcall hne hwait =>
    obtain ⟨⟨hk, -, ha⟩, rfl⟩ := osSchedWaitNextPeriod_eq_true.mp hwait
    have hu := (h.inv.incumbent_active hcall hne).1
    rw [List.mem_singleton.mp hi, hnow (by simp)]
    have hn := (hslot _ hu).next ha hk
    have hp := (hslot _ hu).period_le
    have heq : (osSchedRecordDeadlineMiss (incumbent c) c.ticks).1 = c.schedules c.current := by
      rw [incumbent, (hslot _ hu).recordDeadlineMiss ha]
    rw [heq]
    refine accepted_wait hu hn.1 ?_
    change (c.schedules c.current).nextReleaseOrder < 2 ^ 64
    unfold maxTimeInterval int32Max at hp
    omega
  | taskExit hcall hne hdone =>
    obtain ⟨-, rfl⟩ := osSchedCompleteJob_eq_true.mp hdone
    rw [List.mem_singleton.mp hi]
    exact accepted_exit (h.inv.incumbent_active hcall hne).1 (incrementSaturating_pos _)

/-! ### The number of blocks that a reclaim shows -/

variable {img : Image} {k k' : KernelState} {labels : List Label} {log : Log}

lemma released_lt (h : HeapOwned k) {owner released : ℕ} {heap : Heap}
    (hrel : osAllocatorReleaseOwner .arm32 k.memoryAllocator owner = some (heap, released)) :
    released < 2 ^ 32 := by
  obtain ⟨blocks, hi, -⟩ := h
  obtain ⟨heap', hrel', -⟩ := releaseOwner_spec hi owner
  rw [hrel', Option.some.injEq, Prod.mk.injEq] at hrel
  rw [← hrel.2]
  have hheld : heldBy owner blocks ≤ blocks.length := List.countP_le_length
  have hlen := hi.length_le hi.minimum
  have hmax : maximumBlocks .arm32 k.memoryAllocator.ctl ≤ k.memoryAllocator.ctl.heapEnd :=
    (Nat.div_le_self _ _).trans (Nat.sub_le _ _)
  exact (hheld.trans (hlen.trans hmax)).trans_lt hi.geometry.fits

/-- The record of a reclaim is accepted. -/
lemma ownerRelease_accepted (h : ControlInv (ctl k)) (hheap : HeapOwned k)
    (he : Emitted k l k' bs) (hl : l = .pendCommit) (hb : b ∈ bs) {input : TraceInput}
    (hi : input ∈ b) (hevent : input.event = TraceEvent.ownerRelease.code) :
    Accepted (decodedInput tick s input) := by
  obtain ⟨freed, hfreed, rfl⟩ := he.commit hl
  have hother : ∀ {event : TraceEvent} {task related v0 v1 v2 : ℕ}, event ≠ .ownerRelease →
      b = [record event task related v0 v1 v2] → False := by
    intro event task related v0 v1 v2 hne heq
    subst heq
    rw [List.mem_singleton.mp hi] at hevent
    have hcode := congrArg eventOfCode (show event.code = TraceEvent.ownerRelease.code from hevent)
    rw [eventOfCode_code, eventOfCode_code] at hcode
    exact hne (Option.some.inj hcode)
  simp only [commitBatches, switchBatches, List.mem_append] at hb
  rcases hb with hb | (hb | ((hb | hb) | hb) | hb) | hb
  · rcases hfreed with ⟨-, rfl⟩ | ⟨hexit, heap, released, hrel, rfl⟩
    · cases hb
    · obtain ⟨hne, rfl⟩ := mem_ite hb
      rw [List.mem_singleton.mp hi]
      exact accepted_ownerRelease (h.exiting_user hexit.1 hexit.2) hne (released_lt hheap hrel)
  · rw [List.mem_singleton.mp hb] at hi
    rcases selection_event hi with hs | hs <;> rw [hs] at hevent <;> cases hevent
  · exact (hother (by decide) (mem_ite hb).2).elim
  · exact (hother (by decide) (mem_ite hb).2).elim
  · exact (hother (by decide) (mem_ite hb).2).elim
  · exact (hother (by decide) (List.mem_singleton.mp hb)).elim
  · exact (hother (by decide) (mem_ite hb).2).elim

/-! ### Every run -/

/-- Idle never yields, and the clock stays below `2 ^ 63`. -/
def Lively (k : KernelState) (l : Label) : Prop :=
  IdleNeverYields k l ∧ (l = .tick → k.monotonicTicks + 1 < 2 ^ 63)

lemma clock_lt (h : Reaches img Lively labels k) : k.monotonicTicks < 2 ^ 63 := by
  refine h.induction (Q := fun _ k => k.monotonicTicks < 2 ^ 63) (fun m ram pc _ => Nat.two_pow_pos 63)
    ?_
  intro labels k l k' hr ih hp hs
  obtain ⟨bs, hctl, -⟩ := control_step img (ControlInv.wellIndexed hr.control) hs
  rcases hctl.clock with hclock | ⟨rfl, hclock⟩
  · exact hclock.trans_lt ih
  · exact hclock.trans_lt (hp.2 rfl)

/-- A reclaim is shown by a commit only. -/
lemma ownerRelease_label {c : Ctl} (hsite : Site c l b) {input : TraceInput} (hi : input ∈ b)
    (hevent : input.event = TraceEvent.ownerRelease.code) : l = .pendCommit := by
  rcases site_emits hsite hi hevent with hl | hl | hl
  · cases l <;> first | rfl | exact absurd hl (by simp [emits])
  · cases hl
  · cases hl

/-- What a step emits about the lives of tasks is accepted. -/
lemma emitted_accepted (h : Reaches img Lively labels k) (hp : Lively k l) (he : Emitted k l k' bs)
    {input : TraceInput} (hi : input ∈ bs.flatten) (hlife : IsLife input) :
    Accepted (decodedInput k'.monotonicTicks s input) := by
  obtain ⟨b, hb, hi⟩ := List.mem_flatten.mp hi
  have hsite := site_of_mem he.control b hb
  have hclock := clock_lt h
  by_cases hevent : input.event = TraceEvent.ownerRelease.code
  · exact ownerRelease_accepted h.control (MemoryTrace.arena_of_reaches h).1 he
      (ownerRelease_label hsite hi hevent) hb hi hevent
  · refine site_accepted (fitting_of_reaches h) hsite hi hlife hp.1 (fun hl => ?_) hclock hevent
    exact he.control.clock.resolve_right fun hno => hl hno.1

/-- **Lifecycle events are always decodable.** In every run in which idle never yields and the clock
stays below `2 ^ 63`, every record of the life of a task passes the checks of roles and payloads,
when it is emitted and when it is in the ring, and ticks never decrease. -/
theorem lifecycle_decodable (h : Logged img Lively labels k log) :
    (∀ e ∈ log, IsLife e.2 → ∀ sequence, Accepted (decodedInput e.1 sequence e.2)) ∧
      (∀ r ∈ k.traceRing.records, (∃ event ∈ lives, r.event = event.code) →
        Accepted (decoded r)) ∧
      (log.Pairwise fun e e' => e.1 ≤ e'.1) ∧
      k.traceRing.records.Pairwise fun r r' => r.tick ≤ r'.tick := by
  have hlog : ∀ e ∈ log, IsLife e.2 → ∀ sequence, Accepted (decodedInput e.1 sequence e.2) := by
    induction h with
    | boot => exact fun e he => absurd he List.not_mem_nil
    | step hr hp _ hem ih =>
      intro e he hlife sequence
      rcases List.mem_append.mp he with he | he
      · exact ih e he hlife sequence
      · obtain ⟨input, hi, rfl⟩ := List.mem_map.mp he
        exact emitted_accepted hr.reaches hp hem hi hlife
  have hrec := h.recorded
  refine ⟨hlog, fun r hr hevent => ?_, h.ticks.1, hrec.sorted⟩
  rcases hrec.known r hr with hover | ⟨e, he, sequence, rfl⟩
  · obtain ⟨event, hin, hcode⟩ := hevent
    have hcode' := congrArg eventOfCode (hcode.symm.trans hover)
    rw [eventOfCode_code, eventOfCode_code] at hcode'
    rw [Option.some.inj hcode'] at hin
    exact absurd hin (by decide)
  · obtain ⟨event, hin, hcode⟩ := hevent
    have hlt : e.2.event < 2 ^ 8 := by
      have hvalid := (h.valid e he).1
      rw [osTraceEventValid, Bool.and_eq_true, decide_eq_true_eq, decide_eq_true_eq] at hvalid
      exact hvalid.2.trans_lt (by decide)
    have hlife : IsLife e.2 := ⟨event, hin, (Nat.mod_eq_of_lt hlt).symm.trans hcode⟩
    exact hlog e he hlife sequence

lemma lively_of_disciplined (h : Logged img Disciplined labels k log) :
    Logged img Lively labels k log :=
  h.mono fun _ _ _ hd => ⟨fun hl => by
    subst hl
    exact hd.1.2, fun hl => by
    subst hl
    exact hd⟩

/-- A run with one task. -/
theorem lifecycle_decodable_solo : ∃ labels k log, Logged sampleImage Lively labels k log ∧
    log ≠ [] ∧ ∀ e ∈ log, IsLife e.2 → ∀ sequence, Accepted (decodedInput e.1 sequence e.2) := by
  obtain ⟨labels, k, hr, -⟩ := stage_launched (oneShot 0 100) (by decide) (by decide)
  have hlively := lively_of_disciplined hr
  exact ⟨labels, k, _, hlively, by simp [launchBatches, entries],
    (lifecycle_decodable hlively).1⟩

end Aymos.Lifecycle
