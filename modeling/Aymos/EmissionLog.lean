import Aymos.Ownership
import Aymos.Sites
import Aymos.RingHistory

/-!
What a run emits.

Along a run the batches of every step are logged, each with its tick. The log is the trace with
nothing lost: while the ring has dropped nothing it holds the records of the log, and whatever
has been dropped, what it holds comes from the log or reports a loss.
-/

namespace Aymos.EmissionLog

open Words Allocator Scheduler Trace RingHistory WordMem Kernel Machine Handlers Frames Services
  Switch Control Slots Boot Ownership

variable {img : Image} {k k' : KernelState} {l : Label} {bs : List (List TraceInput)}

/-! ### Batches -/

/-- A record of its own. -/
def Single (b : List TraceInput) : Prop :=
  ∃ event task related v0 v1 v2, b = [record event task related v0 v1 v2]

/-- The batch of a selection. -/
def Selection (b : List TraceInput) : Prop :=
  ∃ schedules selected incumbent excluded purpose,
    b = selectionInputs schedules osTaskCount selected incumbent excluded purpose

lemma single_record (event : TraceEvent) (task related v0 v1 v2 : ℕ) :
    Single [record event task related v0 v1 v2] := ⟨_, _, _, _, _, _, rfl⟩

lemma selection_event {schedules : ℕ → SchedTask} {n selected incumbent excluded : ℕ}
    {purpose : SelectPurpose} {input : TraceInput}
    (h : input ∈ selectionInputs schedules n selected incumbent excluded purpose) :
    input.event = TraceEvent.taskSelect.code ∨ input.event = TraceEvent.selectCandidate.code := by
  rcases List.mem_cons.mp h with rfl | h
  · exact Or.inl rfl
  · obtain ⟨i, -, rfl⟩ := List.mem_map.mp h
    exact Or.inr rfl

/-- **Every batch** is a record of its own or that of a selection. -/
lemma site_shape {c : Ctl} {b : List TraceInput} (h : Site c l b) : Single b ∨ Selection b := by
  cases h with
  | memory _ hrec =>
    obtain ⟨event, task, related, v0, v1, v2, -, rfl⟩ := hrec
    exact Or.inl (single_record ..)
  | tickProbe => exact Or.inr ⟨_, _, _, _, _, rfl⟩
  | dispatch => exact Or.inr ⟨_, _, _, _, _, rfl⟩
  | createProbe => exact Or.inr ⟨_, _, _, _, _, rfl⟩
  | _ => exact Or.inl (single_record ..)

/-- The events that the steps of a label record, those of the memory calls apart. -/
def emits : Label → List TraceEvent
  | .kernelStart => [.kernelStart]
  | .tick => [.deadlineMiss, .taskReleaseSkipped, .taskRelease, .taskWake, .taskSelect,
      .selectCandidate]
  | .pendCommit => [.ownerRelease, .taskSelect, .selectCandidate, .idleStop, .idleStart,
      .taskPreempt, .contextSwitch, .taskStart]
  | .create _ => [.taskCreate, .taskRelease, .taskSelect, .selectCandidate]
  | .yield => [.taskYield]
  | .sleep _ => [.taskSleep]
  | .waitNextPeriod => [.deadlineMiss, .deadlineMet, .taskWaitPeriod]
  | .taskExit => [.deadlineMiss, .deadlineMet, .taskExit]
  | _ => []

/-- **What a site records** is among the events of its label. -/
lemma site_emits {c : Ctl} {b : List TraceInput} (h : Site c l b) {input : TraceInput}
    (hi : input ∈ b) {event : TraceEvent} (he : input.event = event.code) :
    event ∈ emits l ∨ event = .alloc ∨ event = .free := by
  cases h with
  | memory _ hrec =>
    obtain ⟨e, task, related, v0, v1, v2, hev, rfl⟩ := hrec
    obtain rfl := List.mem_singleton.mp hi
    obtain rfl : e = event := TraceEvent.code_injective he
    exact Or.inr hev
  | tickProbe =>
    rcases selection_event hi with hs | hs <;>
      exact TraceEvent.code_injective (hs.symm.trans he) ▸ Or.inl (by simp [emits])
  | dispatch =>
    rcases selection_event hi with hs | hs <;>
      exact TraceEvent.code_injective (hs.symm.trans he) ▸ Or.inl (by simp [emits])
  | createProbe =>
    rcases selection_event hi with hs | hs <;>
      exact TraceEvent.code_injective (hs.symm.trans he) ▸ Or.inl (by simp [emits])
  | outcomeMiss hl =>
    obtain rfl := List.mem_singleton.mp hi
    obtain rfl : .deadlineMiss = event := TraceEvent.code_injective he
    rcases hl with rfl | rfl <;> exact Or.inl (by decide)
  | outcomeMet hl =>
    obtain rfl := List.mem_singleton.mp hi
    obtain rfl : .deadlineMet = event := TraceEvent.code_injective he
    rcases hl with rfl | rfl <;> exact Or.inl (by decide)
  | _ =>
    obtain rfl := List.mem_singleton.mp hi
    simp only [record, deadlineRecord, skipRecord] at he
    obtain rfl := TraceEvent.code_injective he
    exact Or.inl (by simp [emits])

/-- A batch that the ring never refuses for its form. -/
structure Formed (b : List TraceInput) : Prop where
  nonempty : 1 ≤ b.length
  fits : b.length ≤ traceMaxBatchRecords
  valid : ∀ input ∈ b, InputValid input

lemma eventValid_code (event : TraceEvent) : osTraceEventValid event.code = true := by
  cases event <;> rfl

lemma Single.formed {b : List TraceInput} (h : Single b) : Formed b := by
  obtain ⟨event, task, related, v0, v1, v2, rfl⟩ := h
  refine ⟨le_refl 1, Nat.le_add_left 1 4, fun input hi => ?_⟩
  rw [List.mem_singleton.mp hi]
  exact ⟨eventValid_code event, rfl⟩

lemma Selection.formed {b : List TraceInput} (h : Selection b) : Formed b := by
  obtain ⟨schedules, selected, incumbent, excluded, purpose, rfl⟩ := h
  refine ⟨Nat.le_add_left 1 _, ?_, fun input hi => ?_⟩
  · simp only [selectionInputs, List.length_cons, List.length_map]
    have hle := List.length_filter_le (isCandidate schedules incumbent purpose)
      (List.range' 1 (osTaskCount - 1))
    rw [List.length_range'] at hle
    exact Nat.succ_le_succ hle
  · rcases List.mem_cons.mp hi with rfl | hi
    · exact ⟨eventValid_code .taskSelect, rfl⟩
    · obtain ⟨i, -, rfl⟩ := List.mem_map.mp hi
      exact ⟨eventValid_code .selectCandidate, rfl⟩

lemma ctlStep_formed {c c' : Ctl} (h : CtlStep c l c' bs) : ∀ b ∈ bs, Formed b := fun b hb =>
  (site_shape (site_of_mem h b hb)).elim Single.formed Selection.formed

/-! ### What a step emits -/

/-- The batches that a step of the kernel emits. -/
structure Emitted (k : KernelState) (l : Label) (k' : KernelState) (bs : List (List TraceInput)) :
    Prop where
  control : CtlStep (ctl k) l (ctl k') bs
  ring : Emits k k' bs
  commit : l = .pendCommit → ∃ freed, Freed k freed ∧
    bs = commitBatches (ctl k) (retired (ctl k)) freed

lemma emitted_of_step (hc : ControlInv (ctl k)) (hs : Step img k l k') : ∃ bs, Emitted k l k' bs := by
  by_cases hl : l = .pendCommit
  · subst hl
    obtain ⟨freed, hfreed, hctl, hring⟩ :=
      pendsvCommit_emits (by simpa [enabled] using hs.enabled) hs.exec
    exact ⟨_, hctl, hring, fun _ => ⟨freed, hfreed, rfl⟩⟩
  · obtain ⟨bs, hctl, hring⟩ := control_step img (ControlInv.wellIndexed hc) hs
    exact ⟨bs, hctl, hring, fun h => absurd h hl⟩

/-- The records of a run, each with its tick, in the order they are emitted. -/
abbrev Log := List (ℕ × TraceInput)

/-- The entries of the batches of a step. -/
def entries (tick : ℕ) (bs : List (List TraceInput)) : Log := bs.flatten.map fun input => (tick, input)

variable (img) in
/-- The runs from `os_kernel_init` by steps that all meet `P`, with their logs. -/
inductive Logged (P : KernelState → Label → Prop) : List Label → KernelState → Log → Prop
  | boot {m : ByteMem.Mem} {ram : Ram} {pc : ℕ} : isUserPc img pc = true →
    Logged P [] (booted img m ram pc) []
  | step {labels : List Label} {log : Log} {k k' : KernelState} {l : Label}
    {bs : List (List TraceInput)} : Logged P labels k log → P k l → Step img k l k' →
    Emitted k l k' bs → Logged P (l :: labels) k' (log ++ entries k'.monotonicTicks bs)

variable {P : KernelState → Label → Prop} {labels : List Label} {log : Log}

lemma Logged.reaches (h : Logged img P labels k log) : Reaches img P labels k := by
  induction h with
  | boot hpc => exact ⟨_, _, _, _, hpc, osKernelInit_powerOn img _ _ _, .nil⟩
  | step _ hp hs _ ih => exact ih.step hp hs

lemma Logged.mono {Q : KernelState → Label → Prop} (h : Logged img P labels k log)
    (hpq : ∀ k, ∀ l ∈ labels, P k l → Q k l) : Logged img Q labels k log := by
  induction h with
  | boot hpc => exact .boot hpc
  | step _ hp hs he ih =>
    exact (ih fun k l hl => hpq k l (List.mem_cons_of_mem _ hl)).step
      (hpq _ _ List.mem_cons_self hp) hs he

/-- Every run has a log. -/
theorem Logged.of_reaches (h : Reaches img P labels k) : ∃ log, Logged img P labels k log := by
  refine h.induction (Q := fun labels k => ∃ log, Logged img P labels k log)
    (fun m ram pc hpc => ⟨[], .boot hpc⟩) ?_
  rintro labels k l k' hr ⟨log, hlog⟩ hp hs
  obtain ⟨bs, he⟩ := emitted_of_step hr.control hs
  exact ⟨_, hlog.step hp hs he⟩

/-! ### What the ring holds -/

/-- The records of a log in which nothing is missing. -/
def stampLog (sequence : ℕ) : Log → List TraceRecord
  | [] => []
  | (tick, input) :: log => recordOf tick (u32 sequence) input :: stampLog (sequence + 1) log

@[simp] lemma stampLog_length (sequence : ℕ) (log : Log) :
    (stampLog sequence log).length = log.length := by
  induction log generalizing sequence with
  | nil => rfl
  | cons e log ih => simp [stampLog, ih]

lemma stampLog_append (sequence : ℕ) (log log' : Log) : stampLog sequence (log ++ log') =
    stampLog sequence log ++ stampLog (sequence + log.length) log' := by
  induction log generalizing sequence with
  | nil => rfl
  | cons e log ih =>
    have hs : sequence + (e :: log).length = sequence + 1 + log.length := by
      rw [List.length_cons]
      omega
    rw [hs, List.cons_append, stampLog, ih, stampLog, List.cons_append]

lemma stampLog_map (tick sequence : ℕ) (inputs : List TraceInput) :
    stampLog sequence (inputs.map fun input => (tick, input)) = stamp tick sequence inputs := by
  induction inputs generalizing sequence with
  | nil => rfl
  | cons input inputs ih => exact congrArg _ (ih _)

/-- A record that comes from the log. -/
def FromLog (log : Log) (r : TraceRecord) : Prop :=
  ∃ e ∈ log, ∃ sequence, r = recordOf e.1 sequence e.2

lemma mem_stamp_recordOf {tick sequence : ℕ} {inputs : List TraceInput} {r : TraceRecord}
    (h : r ∈ stamp tick sequence inputs) : ∃ input ∈ inputs, ∃ s, r = recordOf tick s input := by
  induction inputs generalizing sequence with
  | nil => cases h
  | cons input inputs ih =>
    rcases List.mem_cons.mp h with rfl | h
    · exact ⟨input, List.mem_cons_self, _, rfl⟩
    · obtain ⟨i, hi, hr⟩ := ih h
      exact ⟨i, List.mem_cons_of_mem _ hi, hr⟩

/-- **What the ring holds** of a log, at a tick. -/
structure Recorded (ring : TraceRing) (log : Log) (now : ℕ) : Prop where
  indexed : Indexed ring
  capacity : ring.capacity = traceCapacity
  enabled : ring.enabled = true
  number : ring.nextSequence < 2 ^ 32
  /-- While nothing has been dropped the ring holds the log. -/
  lossless : ring.dropped = 0 → ring.reportedDropped = 0 ∧ ring.sequenceExhausted = false ∧
    ring.nextSequence = log.length ∧ ring.records = stampLog 0 log
  known : ∀ r ∈ ring.records, r.event = TraceEvent.overflow.code ∨ FromLog log r
  sorted : ring.records.Pairwise fun r s => r.tick ≤ s.tick
  past : ∀ r ∈ ring.records, r.tick ≤ now

lemma FromLog.append {log : Log} {r : TraceRecord} (h : FromLog log r) (log' : Log) :
    FromLog (log ++ log') r := by
  obtain ⟨e, he, hr⟩ := h
  exact ⟨e, List.mem_append_left _ he, hr⟩

lemma incrementSaturating_iterate_ne_zero {n : ℕ} (hn : 1 ≤ n) (a : ℕ) :
    incrementSaturating^[n] a ≠ 0 := by
  obtain ⟨n, rfl⟩ := Nat.exists_eq_add_of_le' hn
  rw [Function.iterate_succ_apply']
  exact (incrementSaturating_pos _).ne'

section Push

variable {ring : TraceRing} {now tick : ℕ} {b : List TraceInput}

lemma Recorded.attempted (h : Recorded ring log now) (hb : Formed b) : (fifo ring).Attempted b :=
  have hcap : (fifo ring).capacity = traceCapacity := h.capacity
  ⟨h.enabled, hb.nonempty, le_min hb.fits (hb.fits.trans (hcap ▸ by decide)), hb.valid⟩

/-- A push that loses its batch. -/
lemma Recorded.lose (h : Recorded ring log now) (ht : now ≤ tick) {ring' : TraceRing} (log' : Log)
    (hs : SameStorage ring ring') (ho : ring'.enabled = ring.enabled)
    (hn : ring'.nextSequence < 2 ^ 32) (hd : ring'.dropped ≠ 0) :
    Recorded ring' (log ++ log') tick where
  indexed := hs.indexed h.indexed
  capacity := hs.2.1.trans h.capacity
  enabled := ho.trans h.enabled
  number := hn
  lossless h0 := absurd h0 hd
  known r hr := (h.known r (hs.records ▸ hr)).imp_right fun hl => hl.append log'
  sorted := hs.records ▸ h.sorted
  past r hr := (h.past r (hs.records ▸ hr)).trans ht

/-- Records of one tick at the end. -/
lemma Recorded.sorted_append (h : Recorded ring log now) (ht : now ≤ tick) (sequence : ℕ)
    (b : List TraceInput) :
    ((ring.records ++ stamp tick sequence b).Pairwise fun r s => r.tick ≤ s.tick) ∧
      ∀ r ∈ ring.records ++ stamp tick sequence b, r.tick ≤ tick := by
  have htick : ∀ r ∈ stamp tick sequence b, r.tick = tick := fun r hr => by
    obtain ⟨input, -, s, rfl⟩ := mem_stamp_recordOf hr
    rfl
  refine ⟨List.pairwise_append.mpr ⟨h.sorted, ?_, fun r hr s hs => ?_⟩, fun r hr => ?_⟩
  · exact List.Pairwise.imp_of_mem (fun hr hs _ => ((htick _ hr).trans (htick _ hs).symm).le)
      (List.pairwise_of_forall fun _ _ => trivial)
  · exact ((h.past r hr).trans ht).trans (htick s hs).ge
  · rcases List.mem_append.mp hr with hr | hr
    · exact (h.past r hr).trans ht
    · exact (htick r hr).le

/-- **A batch is logged**, whether or not the ring stores it. -/
lemma Recorded.push (h : Recorded ring log now) (ht : now ≤ tick) (hb : Formed b) :
    Recorded (osTraceRingPushBatch ring tick b).1 (log ++ b.map fun input => (tick, input)) tick := by
  have hr := pushBatch_result h.indexed tick b
  have happ := hr.appended h.indexed
  have hkept := hr.kept
  generalize osTraceRingPushBatch ring tick b = result at hr happ hkept
  have hlose := incrementSaturating_iterate_ne_zero hb.nonempty ring.dropped
  cases hr with
  | refused hno => exact absurd (h.attempted hb) hno
  | spent => exact h.lose ht _ (hkept rfl).1 (hkept rfl).2 h.number hlose
  | full => exact h.lose ht _ (hkept rfl).1 (hkept rfl).2 (u32_lt _) hlose
  | stored htakes =>
    obtain ⟨hindexed, -, hrec⟩ := happ rfl
    obtain ⟨hsorted, hpast⟩ := h.sorted_append ht ring.nextSequence b
    refine ⟨hindexed, h.capacity, h.enabled, u32_lt _, fun h0 => ?_, fun r hr => ?_,
      hrec ▸ hsorted, fun r hr => hpast r (hrec ▸ hr)⟩
    · obtain ⟨hrep, hspent, hnext, hold⟩ := h.lossless h0
      have hroom : b.length ≤ ring.capacity - ring.count := by
        have hr := htakes.room
        simpa only [fifo, records_length] using hr
      have hcount : ring.count = log.length := by
        rw [← records_length, hold, stampLog_length]
      have hcap : ring.capacity = 256 := h.capacity
      have hbounded := h.indexed.bounded
      have hnum : ring.nextSequence + b.length < 2 ^ 32 := by omega
      have hu : u32 (ring.nextSequence + b.length) = ring.nextSequence + b.length :=
        Nat.mod_eq_of_lt hnum
      have hpos := hb.nonempty
      refine ⟨hrep, ?_, ?_, ?_⟩
      · simp only [attemptedCounters, hspent, hu, Bool.false_or, beq_eq_false_iff_ne, ne_eq]
        omega
      · rw [List.length_append, List.length_map, ← hnext]
        exact hu
      · rw [hrec, hold, stampLog_append, stampLog_map, hnext, Nat.zero_add]
    · rw [hrec] at hr
      rcases List.mem_append.mp hr with hr | hr
      · exact (h.known r hr).imp_right fun hl => hl.append _
      · obtain ⟨input, hi, s, rfl⟩ := mem_stamp_recordOf hr
        exact Or.inr ⟨(tick, input), List.mem_append_right _ (List.mem_map_of_mem hi), s, rfl⟩

/-- A report of losses adds nothing to the log. -/
lemma Recorded.report (h : Recorded ring log now) (ht : now ≤ tick) :
    Recorded (osTraceRingReportOverflow ring tick).1 log tick := by
  rw [reportOverflow_eq h.indexed h.number]
  split
  · case isTrue hreports =>
    have hd : ring.dropped ≠ 0 := fun h0 =>
      hreports.2.2.2.2 (h0.trans (h.lossless h0).1.symm)
    have hr := pushBatch_result h.indexed tick [overflowInput ring]
    have hstores := hr.success_iff.mpr (reports_takes hreports h.number)
    obtain ⟨hindexed, -, hrec⟩ := hr.appended h.indexed hstores
    obtain ⟨hsorted, hpast⟩ := h.sorted_append ht ring.nextSequence [overflowInput ring]
    rw [← hrec] at hsorted hpast
    have hknown : ∀ r ∈ (osTraceRingPushBatch ring tick [overflowInput ring]).1.records,
        r.event = TraceEvent.overflow.code ∨ FromLog log r := fun r hr => by
      rcases List.mem_append.mp (hrec ▸ hr) with hr | hr
      · exact h.known r hr
      · obtain ⟨input, hi, s, rfl⟩ := mem_stamp_recordOf hr
        rw [List.mem_singleton.mp hi]
        exact Or.inl rfl
    generalize osTraceRingPushBatch ring tick [overflowInput ring] = result at *
    cases hr with
    | refused => exact absurd hstores Bool.false_ne_true
    | spent => exact absurd hstores Bool.false_ne_true
    | full => exact absurd hstores Bool.false_ne_true
    | stored =>
      exact ⟨⟨hindexed.positive, hindexed.bounded, hindexed.read, hindexed.write⟩, h.capacity,
        h.enabled, u32_lt _, fun h0 => absurd h0 hd, hknown, hsorted, hpast⟩
  · exact ⟨h.indexed, h.capacity, h.enabled, h.number, h.lossless, h.known, h.sorted,
      fun r hr => (h.past r hr).trans ht⟩

/-- **The batches of a step are logged.** -/
theorem Recorded.emitAll (hb : ∀ b ∈ bs, Formed b) (h : Recorded ring log now) (ht : now ≤ tick) :
    Recorded (Handlers.emitAll ring tick bs) (log ++ entries tick bs) tick := by
  induction bs generalizing ring log now with
  | nil =>
    rw [entries, List.flatten_nil, List.map_nil, List.append_nil]
    exact ⟨h.indexed, h.capacity, h.enabled, h.number, h.lossless, h.known, h.sorted,
      fun r hr => (h.past r hr).trans ht⟩
  | cons b bs ih =>
    have hone := (h.report ht).push le_rfl (hb b List.mem_cons_self)
    have hall := ih (fun b hb' => hb b (List.mem_cons_of_mem _ hb')) hone le_rfl
    rw [entries, List.flatten_cons, List.map_append, ← List.append_assoc]
    exact hall

/-- A batch that still fits is not lost. -/
lemma Recorded.push_lossless (h : Recorded ring log now) (hb : Formed b) (h0 : ring.dropped = 0)
    (hfits : log.length + b.length ≤ traceCapacity) (tick : ℕ) :
    (osTraceRingPushBatch ring tick b).1.dropped = 0 := by
  obtain ⟨-, hspent, hnext, hold⟩ := h.lossless h0
  have hcount : ring.count = log.length := by
    rw [← records_length, hold, stampLog_length]
  have hcap := h.capacity
  have hbound : traceCapacity = 256 := rfl
  have hr := pushBatch_result h.indexed tick b
  generalize osTraceRingPushBatch ring tick b = result at hr
  cases hr with
  | refused hno => exact absurd (h.attempted hb) hno
  | spent _ hn =>
    refine absurd ⟨hspent, ?_⟩ hn
    simp only [fifo, hnext]
    omega
  | full _ _ hroom => exact absurd (by omega) hroom
  | stored => exact h0

lemma Recorded.report_lossless (h : Recorded ring log now) (h0 : ring.dropped = 0) (tick : ℕ) :
    (osTraceRingReportOverflow ring tick).1 = ring := by
  rw [reportOverflow_eq h.indexed h.number,
    if_neg fun hreports => hreports.2.2.2.2 (h0.trans (h.lossless h0).1.symm)]

lemma Recorded.emitAll_lossless (hb : ∀ b ∈ bs, Formed b) (h : Recorded ring log now)
    (ht : now ≤ tick) (h0 : ring.dropped = 0)
    (hfits : (log ++ entries tick bs).length ≤ traceCapacity) :
    (Handlers.emitAll ring tick bs).dropped = 0 := by
  induction bs generalizing ring log now with
  | nil => exact h0
  | cons b bs ih =>
    have hsame := h.report_lossless h0 tick
    have hone := (h.report ht).push le_rfl (hb b List.mem_cons_self)
    rw [hsame] at hone
    rw [entries, List.flatten_cons, List.map_append, ← List.append_assoc] at hfits
    have hroom : log.length + b.length ≤ traceCapacity := by
      simp only [List.length_append, List.length_map] at hfits
      omega
    refine (congrArg (fun r => (Handlers.emitAll (osTraceRingPushBatch r tick b).1 tick bs).dropped)
      hsame).trans (ih (fun b hb' => hb b (List.mem_cons_of_mem _ hb')) hone le_rfl ?_ hfits)
    exact h.push_lossless (hb b List.mem_cons_self) h0 hroom tick

end Push

/-- The clock never goes back. -/
lemma ctlStep_clock_le {c c' : Ctl} (h : CtlStep c l c' bs) : c.ticks ≤ c'.ticks := by
  rcases h.clock with h | ⟨-, h⟩ <;> omega

/-- **The ring along a run.** -/
theorem Logged.recorded (h : Logged img P labels k log) :
    Recorded k.traceRing log k.monotonicTicks := by
  induction h with
  | boot =>
    have hnil : freshRing.records = [] := rfl
    have hpos : 0 < traceCapacity := by decide
    refine ⟨⟨hpos, Nat.zero_le _, hpos, rfl⟩, rfl, rfl, Nat.two_pow_pos 32,
      fun _ => ⟨rfl, rfl, rfl, rfl⟩, fun r hr => ?_, ?_, fun r hr => ?_⟩
    · cases hr
    · exact hnil ▸ List.Pairwise.nil
    · cases hr
  | step _ _ _ he ih =>
    rw [show _ = _ from he.ring]
    exact ih.emitAll (ctlStep_formed he.control) (ctlStep_clock_le he.control)

/-- **A log that fits the ring is stored whole.** -/
theorem Logged.lossless (h : Logged img P labels k log) (hfits : log.length ≤ traceCapacity) :
    k.traceRing.dropped = 0 := by
  induction h with
  | boot => rfl
  | step hlog _ _ he ih =>
    have hless := ih ((List.length_append ▸ Nat.le_add_right _ _).trans hfits)
    rw [show _ = _ from he.ring]
    exact hlog.recorded.emitAll_lossless (ctlStep_formed he.control)
      (ctlStep_clock_le he.control) hless hfits

/-- The ring takes every record of a log. -/
lemma Logged.valid (h : Logged img P labels k log) : ∀ e ∈ log, InputValid e.2 := by
  induction h with
  | boot => exact fun e he => absurd he List.not_mem_nil
  | step _ _ _ hem ih =>
    intro e he
    rcases List.mem_append.mp he with he | he
    · exact ih e he
    · obtain ⟨input, hi, rfl⟩ := List.mem_map.mp he
      obtain ⟨b, hb, hi⟩ := List.mem_flatten.mp hi
      exact (ctlStep_formed hem.control b hb).valid input hi

/-- The ticks of a log never decrease, and none is later than the clock. -/
lemma Logged.ticks (h : Logged img P labels k log) :
    (log.Pairwise fun e e' => e.1 ≤ e'.1) ∧ ∀ e ∈ log, e.1 ≤ k.monotonicTicks := by
  induction h with
  | boot => exact ⟨.nil, fun e he => by cases he⟩
  | @step labels log k k' l bs _ _ _ he ih =>
    have hle : k.monotonicTicks ≤ k'.monotonicTicks := ctlStep_clock_le he.control
    have hnew : ∀ e ∈ entries k'.monotonicTicks bs, e.1 = k'.monotonicTicks := fun e he => by
      obtain ⟨input, -, rfl⟩ := List.mem_map.mp he
      rfl
    refine ⟨List.pairwise_append.mpr ⟨ih.1, ?_, fun e he e' he' => ?_⟩, fun e he => ?_⟩
    · exact List.Pairwise.imp_of_mem (fun he he' _ => ((hnew _ he).trans (hnew _ he').symm).le)
        (List.pairwise_of_forall fun _ _ => trivial)
    · exact ((ih.2 e he).trans hle).trans (hnew e' he').ge
    · rcases List.mem_append.mp he with he | he
      · exact (ih.2 e he).trans hle
      · exact (hnew e he).le

end Aymos.EmissionLog
