import Aymos.HostRuns
import Aymos.Occupancy

/-!
The time of a task, as the kernel charges it and as a host measures it.

The kernel charges a tick to the task it finds running; a host adds up the ticks between the
committed switches. They differ by the ticks that come between the call with which a task gives up
the processor and the switch that takes it away.
-/

namespace Aymos.Accounting

open Words Allocator Scheduler Trace Decoder Validate RoundTrip RingHistory WordMem Kernel Machine
  Handlers Frames Services Switch Slots Select Control Boot Ownership EmissionLog SlotSteps Timing
  Acceptance Snapshot Replay FoldAlong HostStates Timeline Scenario Script Stacks Safety Startup
  HostRuns Occupancy

/-- The steps of a history, with the states they are taken in. -/
abbrev History := List (KernelState × Label)

variable (img : Image) (P : KernelState → Label → Prop) (i t₀ : ℕ)

/-- The states that follow the creation of a task in slot `i` at the tick `t₀`, up to the one that
finds the slot reclaimed, with the steps since the creation. -/
inductive Tenure : KernelState → History → Prop
  | created {labels : List Label} {k k' : KernelState} {l : Label} : Reaches img P labels k →
    P k l → Step img k l k' → (k.schedules i).state = .dormant →
    (k'.schedules i).state ≠ .dormant → k.monotonicTicks = t₀ → Tenure k' []
  | step {k k' : KernelState} {steps : History} {l : Label} : Tenure k steps →
    (k.schedules i).state ≠ .dormant → P k l → Step img k l k' → Tenure k' (steps ++ [(k, l)])

/-- How many ticks of a history find the kernel running and the condition met. -/
def ticksWhere (p : KernelState → Bool) (steps : History) : ℕ :=
  steps.countP fun e => e.2 == .tick && e.1.running && p e.1

/-- The condition under which `os_sched_account_running_tick` charges slot `i`. -/
def charges (k : KernelState) : Bool :=
  (k.schedules i).state == .running && (k.schedules i).jobActive

/-- Slot `i` holds the task that was switched to last. -/
def holds (k : KernelState) : Bool := k.currentTask == i

/-- **No tick comes between a call** with which the task of slot `i` gives up the processor, or a
tick that preempts it, and the switch. -/
def Settled (steps : History) : Prop :=
  ∀ e ∈ steps, e.2 = .tick → e.1.running = true → e.1.currentTask = i →
    (e.1.schedules i).state = .running

variable {img P i t₀} {k k' : KernelState} {l : Label} {steps : History} {labels : List Label}

lemma Tenure.reaches (h : Tenure img P i t₀ k steps) : ∃ labels, Reaches img P labels k := by
  induction h with
  | created hr hp hs => exact ⟨_, hr.step hp hs⟩
  | step _ _ hp hs ih =>
    obtain ⟨labels, hr⟩ := ih
    exact ⟨_, hr.step hp hs⟩

/-- The states of a history are those of a run. -/
lemma Tenure.visited (h : Tenure img P i t₀ k steps) :
    ∀ e ∈ steps, ∃ labels, Reaches img P labels e.1 := by
  induction h with
  | created => exact fun e he => absurd he List.not_mem_nil
  | step htenure _ _ _ ih =>
    intro e he
    rcases List.mem_append.mp he with he | he
    · exact ih e he
    · rw [List.mem_singleton.mp he]
      exact htenure.reaches

lemma ticksWhere_concat (p : KernelState → Bool) (k : KernelState) (l : Label) :
    ticksWhere p (steps ++ [(k, l)]) =
      ticksWhere p steps + if l = .tick ∧ k.running = true ∧ p k = true then 1 else 0 := by
  rw [ticksWhere, List.countP_append, List.countP_singleton]
  refine congrArg (_ + ·) (if_congr ?_ rfl rfl)
  rw [Bool.and_eq_true, Bool.and_eq_true, beq_iff_eq, and_assoc]

/-! ### What the kernel charges -/

/-- A tick of the running kernel moves its clock by one. -/
lemma clock_step {c c' : Ctl} {bs : List (List TraceInput)} (h : CtlStep c l c' bs) :
    c'.ticks = c.ticks + if l = .tick ∧ c.running = true then 1 else 0 := by
  cases h with
  | quiet hq =>
    have hno : l ≠ .tick := fun hl => by
      rw [hl] at hq
      cases hq
    rw [if_neg fun hx => hno hx.1, Nat.add_zero]
  | memory hq =>
    have hno : l ≠ .tick := fun hl => by
      rw [hl] at hq
      cases hq
    rw [if_neg fun hx => hno hx.1, Nat.add_zero]
  | bootTick hno => rw [if_neg fun hx => absurd (hx.2.symm.trans hno) (by decide), Nat.add_zero]
  | tick hrun => rw [if_pos ⟨rfl, hrun⟩]; rfl
  | tickPreempt hrun => rw [if_pos ⟨rfl, hrun⟩]; rfl
  | pendCommit => exact retired_ticks c
  | create => exact announced_clock
  | _ => rfl

/-- A tick of a slot charges it at most once. -/
lemma tickTask_total (now : ℕ) (t : SchedTask) : (tickTask now t).totalExecutionTicks =
    if t.state = .running ∧ t.jobActive = true then incrementSaturating t.totalExecutionTicks
    else t.totalExecutionTicks := by
  have haccounted : (accounted t).totalExecutionTicks =
      if t.state = .running ∧ t.jobActive = true then incrementSaturating t.totalExecutionTicks
      else t.totalExecutionTicks := by
    rw [accounted_eq]
    split <;> rfl
  have hchecked : (checked now t).totalExecutionTicks = (accounted t).totalExecutionTicks := by
    rw [checked_eq]
    split <;> rfl
  have hskipped : (skipped now t).totalExecutionTicks = (checked now t).totalExecutionTicks := by
    rw [skipped, osSchedRecordActiveRelease_eq]
    split_ifs <;> rfl
  have hreleased : (released now t).totalExecutionTicks = (skipped now t).totalExecutionTicks := by
    rw [released, osSchedReleaseDue_eq]
    split_ifs <;> rfl
  have hwoken : (tickTask now t).totalExecutionTicks = (released now t).totalExecutionTicks := by
    rw [tickTask, osSchedWakeDue_eq]
    split <;> rfl
  rw [hwoken, hreleased, hskipped, hchecked, haccounted]

lemma recordMiss_total (now : ℕ) (t : SchedTask) :
    (osSchedRecordDeadlineMiss t now).1.totalExecutionTicks = t.totalExecutionTicks := by
  rw [osSchedRecordDeadlineMiss_eq]
  split <;> rfl

/-- **What a step charges** to a slot that it leaves occupied. -/
lemma total_step {now now' : ℕ} {t t' : SchedTask} {records : List TraceInput}
    (h : SlotStep i now t l now' t' records) (hd : t.state ≠ .dormant) (hd' : t'.state ≠ .dormant) :
    t'.totalExecutionTicks =
      if now' = now + 1 ∧ t.state = .running ∧ t.jobActive = true then
        incrementSaturating t.totalExecutionTicks else t.totalExecutionTicks := by
  have hstay : ∀ {t' : SchedTask}, t'.totalExecutionTicks = t.totalExecutionTicks →
      t'.totalExecutionTicks = if now = now + 1 ∧ t.state = .running ∧ t.jobActive = true then
        incrementSaturating t.totalExecutionTicks else t.totalExecutionTicks := fun heq => by
    rw [if_neg fun hx => absurd hx.1 (Nat.ne_of_lt (Nat.lt_succ_self now)), heq]
  have htick : (tickTask (now + 1) t).totalExecutionTicks =
      if now + 1 = now + 1 ∧ t.state = .running ∧ t.jobActive = true then
        incrementSaturating t.totalExecutionTicks else t.totalExecutionTicks := by
    rw [tickTask_total]
    exact if_congr (and_iff_right rfl).symm rfl rfl
  cases h with
  | same => exact hstay rfl
  | ticked => exact htick
  | preempted =>
    rw [inState_totalExecutionTicks]
    exact htick
  | retired => exact hstay rfl
  | resumed => exact hstay rfl
  | reclaimed => exact absurd rfl hd'
  | cleared hdormant => exact absurd hdormant hd
  | created hdormant => exact absurd hdormant hd
  | yielded => exact hstay rfl
  | slept hsleep =>
    rw [(osSchedSleep_eq_true.mp hsleep).2]
    exact hstay rfl
  | waited hwait =>
    rw [(osSchedWaitNextPeriod_eq_true.mp hwait).2]
    exact hstay (recordMiss_total now t)
  | exited hdone =>
    rw [(osSchedCompleteJob_eq_true.mp hdone).2]
    exact hstay (recordMiss_total now t)

/-- **The counter of a task** has the ticks charged to it, while they fit. -/
lemma Tenure.total (h : Tenure img P i t₀ k steps) (hi : i ∈ userSlots)
    (hn : (k.schedules i).state ≠ .dormant) : (k.schedules i).totalExecutionTicks =
      min (ticksWhere (charges i) steps) uint32Max := by
  induction h with
  | @created _ k k' _ hr hp hs hd =>
    obtain ⟨bs, he⟩ := emitted_of_step hr.control hs
    have hslot := slotStep_of_step hr.control he.control hi
    obtain ⟨config, rfl⟩ := create_of_slotStep (hr.control.table.slots i hi) hslot hd hn
    obtain ⟨-, hconf, -⟩ := created_of_slotStep hslot hd hn
    have hnew : k'.schedules i = _ := (osSchedTaskConfigure_eq_true hconf).2.2.2
    rw [hnew]
    split <;> rfl
  | @step k k' steps l htenure hd hp hs ih =>
    obtain ⟨labels, hr⟩ := htenure.reaches
    obtain ⟨bs, he⟩ := emitted_of_step hr.control hs
    have hslot := slotStep_of_step hr.control he.control hi
    have hclock : k'.monotonicTicks = k.monotonicTicks + if l = .tick ∧ k.running = true then 1
      else 0 := clock_step he.control
    have htotal : (k'.schedules i).totalExecutionTicks =
      if k'.monotonicTicks = k.monotonicTicks + 1 ∧ (k.schedules i).state = .running ∧
        (k.schedules i).jobActive = true then incrementSaturating (k.schedules i).totalExecutionTicks
      else (k.schedules i).totalExecutionTicks := total_step hslot hd hn
    have hguard : (k'.monotonicTicks = k.monotonicTicks + 1 ∧ (k.schedules i).state = .running ∧
        (k.schedules i).jobActive = true) ↔ l = .tick ∧ k.running = true ∧ charges i k = true := by
      rw [hclock, charges, Bool.and_eq_true, beq_iff_eq, ← and_assoc (a := l = .tick)]
      refine and_congr_left' ?_
      split <;> simp [*]
    rw [ticksWhere_concat, htotal, ih hd, if_congr hguard rfl rfl]
    split
    · exact incrementSaturating_min _
    · rfl

/-! ### What the host measures -/

lemma host_running (rs : List DecodedRecord) :
    (host rs).running = lastIncoming (switches rs) := by
  induction rs using List.reverseRecOn with
  | nil => rfl
  | append_singleton rs r ih =>
    rw [host, List.foldl_append, switches, List.filter_append]
    by_cases he : r.event = .contextSwitch
    · have hone : [r].filter (fun record => record.event == .contextSwitch) = [r] := by simp [he]
      rw [hone, lastIncoming, List.getLast?_append]
      have hrun : (hostStep (host rs) r).running = r.related := by rw [hostStep, he]
      exact hrun
    · have hone : [r].filter (fun record => record.event == .contextSwitch) = [] := by simp [he]
      rw [hone, List.append_nil]
      exact (running_step he).trans ih

lemma switches_append (rs rs' : List DecodedRecord) :
    switches (rs ++ rs') = switches rs ++ switches rs' := List.filter_append ..

/-- Only a commit has records of switches. -/
lemma switches_step {c c' : Ctl} {bs : List (List TraceInput)} (h : CtlStep c l c' bs)
    (hl : l ≠ .pendCommit) (tick n : ℕ) : switches (decodedBatch tick n bs.flatten) = [] := by
  refine List.filter_eq_nil_iff.mpr fun r hr hswitch => ?_
  obtain ⟨input, hinput, s, rfl⟩ := mem_decodedBatch hr
  exact (plain_of_step h hl input hinput).event.1 (beq_iff_eq.mp hswitch)

/-- The task that is created in a slot is not on the processor. -/
lemma created_off {c c' : Ctl} {config : TaskConfig} {bs : List (List TraceInput)}
    (hc : ControlInv c) (h : CtlStep c (.create config) c' bs) (hi : i ∈ userSlots)
    (hd : (c.schedules i).state = .dormant) (hn : (c'.schedules i).state ≠ .dormant) :
    c.current ≠ i := by
  intro hcur
  cases h with
  | quiet => exact hn hd
  | memory => exact hn hd
  | @createFails _ j =>
    have hcleared : ((cleared c j).schedules i).state = .dormant := by
      by_cases hij : i = j
      · rw [hij, show (cleared c j).schedules j = osSchedTaskReset j from Function.update_self ..]
        rfl
      · rw [show (cleared c j).schedules i = c.schedules i from Function.update_of_ne hij _ _]
        exact hd
    exact hn hcleared
  | create _ hcaller =>
    have hactive : c.active = true := hc.active.mpr (hcur ▸ ne_invalid_of_lt (userSlot_lt hi))
    have hruns : (incumbent c).state = .running := (hcaller (hc.started hactive)).2.2.2.1
    rw [incumbent, hcur, hd] at hruns
    cases hruns

/-- **The records of a run** in two parts, the second one since a task was created in slot `i`. -/
structure Parted (i t₀ : ℕ) (k : KernelState) (held : ℕ) (earlier own : List DecodedRecord) :
    Prop where
  past : ∀ r ∈ earlier, r.tick ≤ t₀
  since : ∀ r ∈ own, t₀ ≤ r.tick ∧ r.tick ≤ k.monotonicTicks
  start : lastIncoming (switches earlier) ≠ some i
  spent : runTicks i (segments k.monotonicTicks (switches own)) = held

variable {log : Log} {bs : List (List TraceInput)}

/-- The task of the last switch. -/
lemma incoming_of_logged (h : Logged img P labels k log) (hi : i ∈ userSlots) :
    lastIncoming (switches (shown log)) = some i ↔ k.currentTask = i := by
  rw [← host_running]
  exact (knows_of_logged h).2.running_iff h.reaches.control hi

lemma shown_step (hticks : ∀ e ∈ log, e.1 ≤ k.monotonicTicks) :
    ∀ r ∈ shown log, r.tick ≤ k.monotonicTicks := by
  intro r hr
  have hr : r.tick ∈ (shown log).map DecodedRecord.tick := List.mem_map_of_mem hr
  rw [shown, shown_ticks] at hr
  obtain ⟨e, he, heq⟩ := List.mem_map.mp hr
  exact heq ▸ hticks e he

/-- **The host's measure** follows each step. -/
lemma Parted.step {held : ℕ} {earlier own : List DecodedRecord}
    (h : Parted i t₀ k held earlier own) (hlog : Logged img P labels k log)
    (hshown : shown log = earlier ++ own) (hi : i ∈ userSlots) (hp : P k l) (hs : Step img k l k')
    (he : Emitted k l k' bs) (hle : t₀ ≤ k.monotonicTicks) :
    Parted i t₀ k' (held + if l = .tick ∧ k.running = true ∧ holds i k = true then 1 else 0) earlier
      (own ++ decodedBatch k'.monotonicTicks log.length bs.flatten) := by
  have hclock : k'.monotonicTicks = k.monotonicTicks + if l = .tick ∧ k.running = true then 1
    else 0 := clock_step he.control
  have hchained := (chained_of_logged hlog).1
  rw [hshown, switches_append] at hchained
  have hown : Chained k.monotonicTicks (switches own) := hchained.right
  have hlast : lastIncoming (switches own) = some i ↔ k.currentTask = i := by
    rw [← incoming_of_logged hlog hi, hshown, switches_append]
    rcases List.eq_nil_or_concat (switches own) with hnil | ⟨ss, s, hcons⟩
    · rw [hnil, List.append_nil]
      exact iff_of_false (fun hx => nomatch hx) h.start
    · rw [hcons, lastIncoming, lastIncoming, List.concat_eq_append, ← List.append_assoc,
        List.getLast?_concat, List.getLast?_concat]
  refine ⟨h.past, fun r hr => ?_, h.start, ?_⟩
  · rcases List.mem_append.mp hr with hr | hr
    · have hbounds := h.since r hr
      omega
    · obtain ⟨input, -, s, rfl⟩ := mem_decodedBatch hr
      have htick : (decodedInput k'.monotonicTicks s input).tick = k'.monotonicTicks := rfl
      omega
  · by_cases hl : l = .pendCommit
    · have hsame : k'.monotonicTicks = k.monotonicTicks := by
        have hno : l ≠ .tick := fun hx => by
          rw [hl] at hx
          cases hx
        rw [hclock, if_neg fun hx => hno hx.1, Nat.add_zero]
      have hchained' := (chained_of_logged (hlog.step hp hs he)).1
      rw [shown_entries, hshown, List.append_assoc, switches_append, switches_append] at hchained'
      rw [switches_append, runTicks_instant i hchained'.right, hsame, h.spent, if_neg]
      · rfl
      · rintro ⟨htick, -⟩
        rw [hl] at htick
        cases htick
      · intro r hr
        obtain ⟨input, -, s, rfl⟩ := mem_decodedBatch (List.mem_filter.mp hr).1
        rfl
    · rw [switches_append, switches_step he.control hl, List.append_nil,
        runTicks_later i hown (by omega), h.spent, hclock, holds]
      refine congrArg (held + ·) ?_
      by_cases htick : l = .tick ∧ k.running = true
      · simp [htick, hlast]
      · rw [if_neg htick, Nat.add_zero, Nat.sub_self, ite_self, if_neg fun hx => htick ⟨hx.1, hx.2.1⟩]

lemma Tenure.start_le (h : Tenure img P i t₀ k steps) : t₀ ≤ k.monotonicTicks := by
  induction h with
  | created hr hp hs hd hn ht =>
    obtain ⟨bs, he⟩ := emitted_of_step hr.control hs
    exact ht ▸ ctlStep_clock_le he.control
  | step htenure hd hp hs ih =>
    obtain ⟨labels, hr⟩ := htenure.reaches
    obtain ⟨bs, he⟩ := emitted_of_step hr.control hs
    exact ih.trans (ctlStep_clock_le he.control)

/-- **What the host measures** of a task is the ticks since it was created that find it on the
processor. -/
lemma Tenure.parted (h : Tenure img P i t₀ k steps) (hi : i ∈ userSlots) :
    ∃ labels log earlier own, Logged img P labels k log ∧ shown log = earlier ++ own ∧
      Parted i t₀ k (ticksWhere (holds i) steps) earlier own := by
  induction h with
  | @created labels k k' l hr hp hs hd hn ht =>
    obtain ⟨log, hlog⟩ := Logged.of_reaches hr
    obtain ⟨bs, he⟩ := emitted_of_step hr.control hs
    obtain ⟨config, rfl⟩ := create_of_slotStep (hr.control.table.slots i hi)
      (slotStep_of_step hr.control he.control hi) hd hn
    have hsame : k'.monotonicTicks = k.monotonicTicks := clock_step he.control
    have hoff : k.currentTask ≠ i := created_off hr.control he.control hi hd hn
    refine ⟨_, _, shown log, _, hlog.step hp hs he, shown_entries .., fun r hr => ?_,
      fun r hr => ?_, fun hx => hoff ((incoming_of_logged hlog hi).mp hx), ?_⟩
    · exact ht ▸ shown_step hlog.ticks.2 r hr
    · obtain ⟨input, -, s, rfl⟩ := mem_decodedBatch hr
      have htick : (decodedInput k'.monotonicTicks s input).tick = k'.monotonicTicks := rfl
      omega
    · rw [switches_step he.control (by simp)]
      rfl
  | @step k k' steps l htenure hd hp hs ih =>
    obtain ⟨labels, log, earlier, own, hlog, hshown, hparted⟩ := ih
    obtain ⟨bs, he⟩ := emitted_of_step hlog.reaches.control hs
    have hnext := hparted.step hlog hshown hi hp hs he htenure.start_le
    rw [← ticksWhere_concat] at hnext
    refine ⟨_, _, earlier, _, hlog.step hp hs he, ?_, hnext⟩
    rw [shown_entries, hshown, List.append_assoc]

/-- A later state of a run, with the records since. -/
lemma Logged.later (h : Logged img P labels k log) {more : List Label} (hrun : Run img P k more k') :
    ∃ labels log', Logged img P labels k' (log ++ log') ∧ ∀ e ∈ log', k.monotonicTicks ≤ e.1 := by
  suffices hall : k.monotonicTicks ≤ k'.monotonicTicks ∧ ∃ labels log',
      Logged img P labels k' (log ++ log') ∧ ∀ e ∈ log', k.monotonicTicks ≤ e.1 from hall.2
  induction hrun with
  | nil => exact ⟨le_rfl, labels, [], (List.append_nil log).symm ▸ h, fun e he => by cases he⟩
  | @step _ k' k'' l _ hp hs ih =>
    obtain ⟨hle, labels, log', hlog, hlater⟩ := ih
    obtain ⟨bs, he⟩ := emitted_of_step hlog.reaches.control hs
    have hclock : k'.monotonicTicks ≤ k''.monotonicTicks := ctlStep_clock_le he.control
    refine ⟨hle.trans hclock, _, _, List.append_assoc log log' _ ▸ hlog.step hp hs he,
      fun e he => ?_⟩
    rcases List.mem_append.mp he with he | he
    · exact hlater e he
    · obtain ⟨input, -, rfl⟩ := List.mem_map.mp he
      exact hle.trans hclock

/-! ### When they agree -/

lemma countP_eq_iff {α : Type*} {p q : α → Bool} {l : List α}
    (h : ∀ x ∈ l, q x = true → p x = true) :
    l.countP p = l.countP q ↔ ∀ x ∈ l, p x = true → q x = true := by
  induction l with
  | nil => simp
  | cons x l ih =>
    have hrest := ih fun y hy => h y (List.mem_cons_of_mem _ hy)
    have hle : l.countP q ≤ l.countP p :=
      List.countP_mono_left fun y hy => h y (List.mem_cons_of_mem _ hy)
    rw [List.countP_cons, List.countP_cons, List.forall_mem_cons, ← hrest]
    have hx := h x List.mem_cons_self
    cases hp : p x with
    | false =>
      have hq : q x = false := by
        rw [← Bool.not_eq_true]
        intro hq
        exact absurd ((hx hq).symm.trans hp) (by decide)
      simp [hq]
    | true =>
      cases hq : q x with
      | false => simp; omega
      | true => simp

/-- **The two counts** of a task are the same exactly when no tick comes in between. -/
lemma Tenure.settled_iff (h : Tenure img P i t₀ k steps) (hi : i ∈ userSlots) :
    ticksWhere (holds i) steps = ticksWhere (charges i) steps ↔ Settled i steps := by
  have hcharges : ∀ {k}, charges i k = true ↔
      (k.schedules i).state = .running ∧ (k.schedules i).jobActive = true := fun {k} => by
    rw [charges, Bool.and_eq_true, beq_iff_eq]
  have hholds : ∀ {k}, holds i k = true ↔ k.currentTask = i := fun {k} => beq_iff_eq
  rw [ticksWhere, ticksWhere, countP_eq_iff, Settled]
  · refine forall₂_congr fun e he => ?_
    obtain ⟨labels, hr⟩ := h.visited e he
    simp only [Bool.and_eq_true, beq_iff_eq, hcharges, hholds, and_imp]
    refine forall₃_congr fun htick hrun hcur => ⟨fun hx => hx.2.1, fun hs => ⟨⟨htick, hrun⟩, hs, ?_⟩⟩
    exact (hr.control.table.slots i hi).active.mpr (Or.inr (Or.inl hs))
  · intro e he hx
    obtain ⟨labels, hr⟩ := h.visited e he
    simp only [Bool.and_eq_true, beq_iff_eq, hcharges, hholds] at hx ⊢
    exact ⟨hx.1, (hr.control.runs i (userSlot_lt hi) hx.2.1).symm⟩

/-- **When the host and the kernel agree** on the time of a task that is off the processor: exactly
when every tick that found it on the processor found it running. -/
theorem running_time_iff (h : Tenure img P i t₀ k steps) (hi : i ∈ userSlots)
    (hoff : k.currentTask ≠ i) (hrun : Run img P k labels k') (hloss : k'.traceRing.dropped = 0)
    {trace : DecodedTrace} (hrecords : trace.records = k'.traceRing.records.map decoded)
    (hfinal : trace.footer.finalTick = k'.monotonicTicks) :
    ∃ intervals, runningIntervals trace = .ok intervals ∧
      ((k.schedules i).state ≠ .dormant → (k.schedules i).totalExecutionTicks =
        min (ticksWhere (charges i) steps) uint32Max) ∧
      (runTicks i (within t₀ k.monotonicTicks intervals) = ticksWhere (charges i) steps ↔
        Settled i steps) := by
  obtain ⟨_, log, earlier, own, hlog, hshown, hparted⟩ := h.parted hi
  obtain ⟨_, log', hlog', hlater⟩ := Logged.later hlog hrun
  obtain ⟨later, htrace, htime⟩ : ∃ later, trace.records = earlier ++ own ++ later ∧
      ∀ r ∈ later, k.monotonicTicks ≤ r.tick := by
    refine ⟨(stampLog log.length log').map decoded, ?_, fun r hr => ?_⟩
    · rw [hrecords, (hlog'.recorded.lossless hloss).2.2.2, stampLog_append, List.map_append,
        Nat.zero_add, ← hshown, shown]
    · have hr : r.tick ∈ ((stampLog log.length log').map decoded).map DecodedRecord.tick :=
        List.mem_map_of_mem hr
      rw [shown_ticks] at hr
      obtain ⟨e, he, heq⟩ := List.mem_map.mp hr
      exact heq ▸ hlater e he
  have hall : shown (log ++ log') = trace.records := by
    rw [hrecords, (hlog'.recorded.lossless hloss).2.2.2, shown]
  have hchained := (chained_of_logged hlog').1
  rw [hall, ← hfinal] at hchained
  have hok : runningIntervals trace =
      .ok (segments trace.footer.finalTick (switches trace.records)) :=
    intervalsFrom_ok none hchained fun p hp => by cases hp
  refine ⟨_, hok, h.total hi, ?_⟩
  rw [htrace, switches_append, switches_append] at hchained ⊢
  have hend : lastIncoming (switches earlier ++ switches own) ≠ some i := by
    rw [← switches_append, ← hshown]
    exact fun hx => hoff ((incoming_of_logged hlog hi).mp hx)
  rw [runTicks_part h.start_le hchained (fun s hs => hparted.past s (List.mem_filter.mp hs).1)
    (fun s hs => hparted.since s (List.mem_filter.mp hs).1)
    (fun s hs => htime s (List.mem_filter.mp hs).1) hparted.start hend, hparted.spent]
  exact h.settled_iff hi

/-- An occupant has the history of its tenure. -/
lemma Occupied.tenure {config : TaskConfig} (h : Occupied img P i config t₀ k log) :
    ∃ steps, Tenure img P i t₀ k steps := by
  induction h with
  | created hr hp hs _ hd hn ht => exact ⟨[], .created hr hp hs hd hn ht⟩
  | step hocc hp hs _ _ ih =>
    obtain ⟨steps, h⟩ := ih
    exact ⟨_, h.step hocc.occupied hp hs⟩

/-- A task that every tick finds running while it is on the processor. -/
theorem running_time_iff_settled : ∃ k steps trace intervals,
    Tenure sampleImage Disciplined 1 0 k steps ∧
      trace.records = k.traceRing.records.map decoded ∧
      runningIntervals trace = .ok intervals ∧
      runTicks 1 (within 0 k.monotonicTicks intervals) = 4 ∧
      ticksWhere (charges 1) steps = 4 ∧ Settled 1 steps := by
  obtain ⟨c, log, ⟨labels, k, hlog, rfl, -, hocc⟩, hview⟩ := @tenant_of_script (periodic 2 2)
    skipping _
    (fun r => ((r.1.ticks, r.1.current, r.2.length),
      ((r.1.schedules 1).state, (r.1.schedules 1).totalExecutionTicks),
      (runningIntervals ⟨⟨0, 0, 0, 0, 0, 5⟩, (stampLog 0 r.2).map decoded, []⟩).toOption.map
        fun intervals => runTicks 1 (within 0 5 intervals)))
    ((5, 0, 26), (.waitingRelease, 4), some 4) (by decide +kernel)
  simp only [Prod.mk.injEq] at hview
  obtain ⟨⟨hticks, hcurrent, hlength⟩, ⟨hstate, htotal⟩, hmeasured⟩ := hview
  have hticks : k.monotonicTicks = 5 := hticks
  have hloss : k.traceRing.dropped = 0 := hlog.lossless (by rw [hlength]; decide)
  have hoff : k.currentTask ≠ 1 := by
    rw [show k.currentTask = 0 from hcurrent]
    decide
  have hlive : (k.schedules 1).state ≠ .dormant := by
    rw [show (k.schedules 1).state = .waitingRelease from hstate]
    decide
  obtain ⟨trace, htrace⟩ : ∃ trace : DecodedTrace,
      trace = ⟨⟨0, 0, 0, 0, 0, 5⟩, (stampLog 0 log).map decoded, []⟩ := ⟨_, rfl⟩
  have hrecords : trace.records = k.traceRing.records.map decoded := by
    rw [htrace, (hlog.recorded.lossless hloss).2.2.2]
  have hfinal : trace.footer.finalTick = k.monotonicTicks := by
    rw [htrace, hticks]
  obtain ⟨steps, htenure⟩ := Occupied.tenure hocc
  obtain ⟨intervals, hok, htotal', hiff⟩ := running_time_iff htenure (by decide) hoff .nil hloss
    hrecords hfinal
  have hcharged : ticksWhere (charges 1) steps = 4 := by
    have htotal' := htotal' hlive
    rw [show (k.schedules 1).totalExecutionTicks = 4 from htotal] at htotal'
    have hmax : uint32Max = 4294967295 := rfl
    omega
  rw [← htrace, hok] at hmeasured
  have hmeasured : runTicks 1 (within 0 k.monotonicTicks intervals) = 4 := by
    rw [hticks]
    exact Option.some.inj hmeasured
  exact ⟨k, steps, trace, intervals, htenure, hrecords, hok, hmeasured, hcharged,
    hiff.mp (hmeasured.trans hcharged.symm)⟩

/-! ### A tick between the call and the switch -/

/-- Two tasks, the first of which goes before the other. -/
def rivalCtl : Ctl := announced (createIn (soloCtl (oneShot 0 5)) 2 (oneShot 0 100)) 2

/-- The first task has yielded. -/
def yieldedCtl : Ctl :=
  { called (launched rivalCtl) switchYield (inState (incumbent (launched rivalCtl)) .ready) with
    excluded := (launched rivalCtl).current }

/-- A tick comes before the switch to the second task. -/
def lateCtl : Ctl := { ticked yieldedCtl with mode := .pendsvEntry, pendsv := false }

def lateLog : Log :=
  soloLog (oneShot 0 5) ++ entries 0 (creationBatches (createIn (soloCtl (oneShot 0 5)) 2
    (oneShot 0 100)) 2) ++ entries 0 (launchBatches rivalCtl) ++
    entries 0 [[record .taskYield 1 traceTaskInvalid 0 0 0]] ++
    entries 1 (tickAllBatches 1 yieldedCtl.schedules userSlots) ++
    entries 1 (commitBatches lateCtl (retired lateCtl) [])

/-- From the creation of the second task to the switch, which comes after the tick. -/
def late : List Act :=
  [.create (oneShot 0 100)] ++ start ++ [.yield, .tick, .pendEnter, .pendCommit]

/-- The history of the first task, which has been charged nothing. -/
lemma tenure_late : ∃ k steps, Tenure sampleImage Disciplined 1 0 k steps ∧ k.currentTask = 2 ∧
    k.monotonicTicks = 1 ∧ k.traceRing.dropped = 0 ∧
    k.traceRing.records = stampLog 0 lateLog ∧ ticksWhere (charges 1) steps = 0 := by
  obtain ⟨c, log, ⟨labels, k, hlog, rfl, -, hocc⟩, hview⟩ := @tenant_of_script (oneShot 0 5) late _
    (fun r => ((r.1.current, r.1.ticks),
      ((r.1.schedules 1).state, (r.1.schedules 1).totalExecutionTicks), r.2))
    ((2, 1), (.ready, 0), lateLog) (by decide +kernel)
  simp only [Prod.mk.injEq] at hview
  obtain ⟨⟨hcurrent, hticks⟩, ⟨hstate, hzero⟩, rfl⟩ := hview
  have hloss : k.traceRing.dropped = 0 := hlog.lossless (by decide +kernel)
  have hlive : (k.schedules 1).state ≠ .dormant := by
    rw [show (k.schedules 1).state = .ready from hstate]
    decide
  obtain ⟨steps, htenure⟩ := Occupied.tenure hocc
  refine ⟨k, steps, htenure, hcurrent, hticks, hloss, (hlog.recorded.lossless hloss).2.2.2, ?_⟩
  have htotal := htenure.total (by decide) hlive
  have hzero : (k.schedules 1).totalExecutionTicks = 0 := hzero
  have hmax : uint32Max = 4294967295 := rfl
  omega

/-- The trace of the sample. -/
def lateTrace : DecodedTrace :=
  { footer := ⟨0, 0, 0, 0, 0, 1⟩
    records := (stampLog 0 lateLog).map decoded
    rawRecords := [] }

/-- **A tick that nobody is charged for.** The first task yields, and a tick comes before the
switch: the host gives the tick to the task, the kernel does not. -/
theorem running_time_uncharged : ∃ k steps intervals,
    Tenure sampleImage Disciplined 1 0 k steps ∧ k.currentTask ≠ 1 ∧ k.traceRing.dropped = 0 ∧
      lateTrace.records = k.traceRing.records.map decoded ∧
      lateTrace.footer.finalTick = k.monotonicTicks ∧
      runningIntervals lateTrace = .ok intervals ∧
      runTicks 1 (within 0 k.monotonicTicks intervals) = 1 ∧
      ticksWhere (charges 1) steps = 0 := by
  obtain ⟨k, steps, htenure, hcurrent, hticks, hloss, hrecords, hcharged⟩ := tenure_late
  refine ⟨k, steps, [⟨1, 0, 1⟩], htenure, hcurrent.trans_ne (by decide), hloss, ?_, hticks.symm, ?_,
    ?_, hcharged⟩
  · rw [hrecords]
    rfl
  · decide +kernel
  · rw [hticks]
    decide

end Aymos.Accounting
