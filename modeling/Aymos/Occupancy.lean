import Aymos.Selections

/-!
The occupant of a slot, from its creation on.

An occupant is followed through the steps of the kernel for as long as its slot is not dormant,
with the log since its creation. What every step of a slot keeps of it is proved by one induction.
-/

namespace Aymos.Occupancy

open Words Allocator Scheduler Trace WordMem Kernel Machine Handlers Frames Services Switch Slots
  Select Control Boot Ownership EmissionLog Safety Startup SlotSteps Timing Scenario Script
  Selections

variable (img : Image) (P : KernelState → Label → Prop) (i : ℕ) (config : TaskConfig) (t₀ : ℕ)

/-- The states in which slot `i` holds the task that `config` created at the tick `t₀`, with the
log since then. -/
inductive Occupied : KernelState → Log → Prop
  | created {labels : List Label} {k k' : KernelState} {bs : List (List TraceInput)} :
    Reaches img P labels k → P k (.create config) → Step img k (.create config) k' →
    Emitted k (.create config) k' bs → (k.schedules i).state = .dormant →
    (k'.schedules i).state ≠ .dormant → k.monotonicTicks = t₀ →
    Occupied k' (entries k'.monotonicTicks bs)
  | step {k k' : KernelState} {log : Log} {l : Label} {bs : List (List TraceInput)} :
    Occupied k log → P k l → Step img k l k' → Emitted k l k' bs →
    (k'.schedules i).state ≠ .dormant → Occupied k' (log ++ entries k'.monotonicTicks bs)

/-- The records of a log that tell of slot `i`. -/
def own (i : ℕ) (log : Log) : Log := log.filter fun e => concerns i e.2

/-- The records of one tick. -/
def stamped (now : ℕ) (records : List TraceInput) : Log := records.map fun input => (now, input)

variable {img P i config t₀} {k k' : KernelState} {l : Label} {log log' : Log} {labels : List Label}

lemma own_append : own i (log ++ log') = own i log ++ own i log' := List.filter_append ..

lemma own_entries (tick : ℕ) (bs : List (List TraceInput)) :
    own i (entries tick bs) = stamped tick (about i bs) := by
  rw [own, entries, List.filter_map]
  rfl

lemma Occupied.reaches (h : Occupied img P i config t₀ k log) : ∃ labels, Reaches img P labels k := by
  induction h with
  | created hr hp hs => exact ⟨_, hr.step hp hs⟩
  | step _ hp hs _ _ ih =>
    obtain ⟨labels, hr⟩ := ih
    exact ⟨_, hr.step hp hs⟩

/-- The log of an occupant ends that of the run. -/
lemma Occupied.logged (h : Occupied img P i config t₀ k log) :
    ∃ labels before, Logged img P labels k (before ++ log) := by
  induction h with
  | created hr hp hs he =>
    obtain ⟨log, hlog⟩ := Logged.of_reaches hr
    exact ⟨_, log, hlog.step hp hs he⟩
  | @step _ _ _ l _ _ hp hs he _ ih =>
    obtain ⟨labels, before, hlog⟩ := ih
    refine ⟨l :: labels, before, ?_⟩
    rw [← List.append_assoc]
    exact hlog.step hp hs he

lemma Occupied.occupied (h : Occupied img P i config t₀ k log) :
    (k.schedules i).state ≠ .dormant := by
  cases h with
  | created _ _ _ _ _ hn => exact hn
  | step _ _ _ _ hn => exact hn

lemma Occupied.slot (h : Occupied img P i config t₀ k log) : i ∈ userSlots := by
  induction h with
  | created hr _ hs _ hd hn =>
    obtain ⟨h1, hlt, -⟩ := freeSlot_some (filled_slot hr.control hs hd hn)
    exact mem_userSlots.mpr ⟨h1, hlt⟩
  | step _ _ _ _ _ ih => exact ih

/-- The records of the creation of a task. -/
def creationRecords (i related : ℕ) (t : SchedTask) : List TraceInput :=
  record .taskCreate i related t.kind.code t.priority t.state.code ::
    if t.state = .ready then [deadlineRecord .taskRelease i t] else []

/-- A step that fills the slot. -/
lemma created_of_slotStep {now now' : ℕ} {t t' : SchedTask} {records : List TraceInput}
    (h : SlotStep i now t (.create config) now' t' records) (hd : t.state = .dormant)
    (hn : t'.state ≠ .dormant) : now' = now ∧
      osSchedTaskConfigure t config.timing now = (t', true) ∧
      ∃ related, records = creationRecords i related t' := by
  cases h with
  | same => exact absurd hd hn
  | cleared => exact absurd rfl hn
  | created _ hconf => exact ⟨rfl, hconf, _, rfl⟩

/-- Only a creation fills a slot. -/
lemma create_of_slotStep {now now' : ℕ} {t t' : SchedTask} {records : List TraceInput}
    (hslot : SlotInv now t) (h : SlotStep i now t l now' t' records) (hd : t.state = .dormant)
    (hn : t'.state ≠ .dormant) : ∃ config, l = .create config := by
  cases h with
  | same => exact absurd hd hn
  | ticked =>
    have ha : t.jobActive = false := by
      rw [← Bool.not_eq_true, hslot.active]
      simp [hd]
    rw [(tickTask_of_inactive (by simp [hd]) ha).1] at hn
    exact absurd hd hn
  | preempted _ hrun => exact absurd (hd.symm.trans hrun) (by decide)
  | retired hrun => exact absurd (hd.symm.trans hrun) (by decide)
  | resumed hst => rcases hst with hst | hst <;> exact absurd (hd.symm.trans hst) (by decide)
  | reclaimed => exact absurd rfl hn
  | cleared => exact absurd rfl hn
  | created => exact ⟨_, rfl⟩
  | yielded hrun => exact absurd (hd.symm.trans hrun) (by decide)
  | slept hsleep =>
    exact absurd (hd.symm.trans (osSchedSleep_eq_true.mp hsleep).1.1) (by decide)
  | waited hwait =>
    exact absurd (hd.symm.trans (osSchedWaitNextPeriod_eq_true.mp hwait).1.2.1) (by decide)
  | exited hdone =>
    exact absurd (hd.symm.trans (osSchedCompleteJob_eq_true.mp hdone).1.1) (by decide)

/-- **What every step of a slot keeps of its occupant holds as long as it is there.** -/
theorem Occupied.induction {Q : ℕ → SchedTask → Log → Prop}
    (h : Occupied img P i config t₀ k log)
    (hcreated : ∀ {t t' related}, osSchedTaskConfigure t config.timing t₀ = (t', true) →
      Q t₀ t' (stamped t₀ (creationRecords i related t')))
    (hstep : ∀ {now t l now' t' records own}, SlotInv now t → Recordable t →
      t.state ≠ .dormant → t'.state ≠ .dormant → Q now t own →
      SlotStep i now t l now' t' records → Q now' t' (own ++ stamped now' records)) :
    Q k.monotonicTicks (k.schedules i) (own i log) := by
  have hi := h.slot
  induction h with
  | @created _ k k' _ hr _ _ he hd hn ht =>
    obtain ⟨hticks, hconf, related, hrec⟩ :=
      created_of_slotStep (slotStep_of_step hr.control he.control hi) hd hn
    have hnow : k'.monotonicTicks = t₀ := hticks.trans ht
    have hconf : osSchedTaskConfigure (k.schedules i) config.timing k.monotonicTicks =
      (k'.schedules i, true) := hconf
    rw [own_entries, hrec, hnow]
    rw [ht] at hconf
    exact hcreated hconf
  | step hocc _ _ he hn ih =>
    obtain ⟨labels, hr⟩ := hocc.reaches
    rw [own_append, own_entries]
    exact hstep (hr.control.table.slots i hi) (recordable_of_reaches hr hi) hocc.occupied hn ih
      (slotStep_of_step hr.control he.control hi)

/-- **Every task that holds a slot was created in it.** -/
theorem Occupied.of_reaches (h : Reaches img P labels k) (hi : i ∈ userSlots)
    (hn : (k.schedules i).state ≠ .dormant) :
    ∃ config t₀ log, Occupied img P i config t₀ k log := by
  refine h.induction (Q := fun _ k => (k.schedules i).state ≠ .dormant →
    ∃ config t₀ log, Occupied img P i config t₀ k log) (fun m ram pc _ hn => ?_) ?_ hn
  · rw [booted_slot hi] at hn
    exact absurd rfl hn
  · intro labels k l k' hr ih hp hs hn
    obtain ⟨bs, he⟩ := emitted_of_step hr.control hs
    by_cases hd : (k.schedules i).state = .dormant
    · obtain ⟨config, rfl⟩ := create_of_slotStep (hr.control.table.slots i hi)
        (slotStep_of_step hr.control he.control hi) hd hn
      exact ⟨config, _, _, .created hr hp hs he hd hn rfl⟩
    · obtain ⟨config, t₀, log, hocc⟩ := ih hd
      exact ⟨config, t₀, _, hocc.step hp hs he hn⟩

/-! ### The occupant of a script -/

/-- A run to the control `c` that starts with the creation of a task in the first slot, which it
holds all along. -/
def Tenant (timing : TaskTimingConfig) (c : Ctl) (log : Log) : Prop :=
  ∃ labels k, Logged sampleImage Disciplined labels k log ∧ ctl k = c ∧ Unowned k ∧
    Occupied sampleImage Disciplined 1 (sampleConfig timing) 0 k log

/-- The first slot is still held. -/
def stays : Ctl → Act → Ctl → Bool := fun _ _ c => (c.schedules 1).state != .dormant

/-- **One more step** of the occupant. -/
lemma Tenant.go {timing : TaskTimingConfig} {c c' : Ctl} {bs : List (List TraceInput)}
    (h : Tenant timing c log) (hg : Goes c log l c' bs)
    (hn : (c'.schedules 1).state ≠ .dormant) : Tenant timing c' (log ++ entries c'.ticks bs) := by
  obtain ⟨labels, k, hr, hctl, hnone, hocc⟩ := h
  obtain ⟨labels₁, k₁, k', hset, hr₁, hctl₁, hd, hs, he, rfl, hkeeps⟩ :=
    hg labels k hr hctl fun _ => hnone
  have hocc₁ : Occupied sampleImage Disciplined 1 (sampleConfig timing) 0 k₁ log := by
    rcases hset with ⟨-, rfl⟩ | ⟨-, hs₀, he₀⟩
    · exact hocc
    · have hn₁ : (k₁.schedules 1).state ≠ .dormant := by
        rw [show k₁.schedules 1 = k.schedules 1 from
          congrArg (fun c => c.schedules 1) (hctl₁.trans hctl.symm)]
        exact hocc.occupied
      have hstep := hocc.step (l := .trampoline) trivial hs₀ he₀ hn₁
      rwa [show entries _ [] = [] from rfl, List.append_nil] at hstep
  exact ⟨_, k', hr₁.step hd hs he, rfl, hkeeps hnone, hocc₁.step hd hs he hn⟩

/-- A task that is released every other tick: its first job overruns, so that the second release is
skipped, and its second job completes in time. -/
def skipping : List Act :=
  start ++ [.tick, .tick, .tick, .waitNextPeriod] ++ switch ++ [.tick] ++ switch ++
    [.tick, .waitNextPeriod] ++ switch

/-- What a script leads to that starts with the creation of a task and keeps it. -/
lemma tenant_of_script {timing : TaskTimingConfig} {script : List Act} {α : Type}
    {view : Ctl × Log → α} {v : α}
    (hv : ((act bootCtl (.create timing)).bind fun r => (play stays script r.1).map fun r' =>
      (r.1.schedules 1 |>.state, view (r'.1, entries 0 r.2 ++ r'.2))) = some (.ready, v)) :
    ∃ c log, Tenant timing c log ∧ view (c, log) = v := by
  obtain ⟨⟨c₀, bs⟩, ha, hplay⟩ := Option.bind_eq_some_iff.mp hv
  obtain ⟨⟨c, log⟩, hp, hview⟩ := Option.map_eq_some_iff.mp hplay
  obtain ⟨hready, hview⟩ := Prod.mk.inj hview
  obtain ⟨labels, k, k', hr, hctl, hd, hs, he, rfl, hnone⟩ := stage_boot.step (goes_of_act ha)
  have hticks : k.monotonicTicks = 0 := congrArg Ctl.ticks hctl
  have hdormant : (k.schedules 1).state = .dormant := by
    rw [show k.schedules 1 = osSchedTaskReset 1 from congrArg (fun c => c.schedules 1) hctl]
    rfl
  have hready : (k'.schedules 1).state = .ready := hready
  have hlive : (k'.schedules 1).state ≠ .dormant := by
    rw [hready]
    decide
  have hocc := @Occupied.created _ _ _ _ 0 _ _ _ _ hr.reaches hd hs he hdormant hlive hticks
  have hlog := hr.step hd hs he
  have hzero : k'.monotonicTicks = 0 := by
    obtain ⟨hnow, -⟩ := created_of_slotStep
      (slotStep_of_step hr.reaches.control he.control (by decide)) hdormant hlive
    exact hnow.trans hticks
  rw [hzero] at hocc hlog
  exact ⟨c, _, play_induction (Q := Tenant timing) ⟨_, k', hlog, rfl, hnone, hocc⟩ hp
    fun h hok hg => h.go hg (by simpa [stays] using hok), hview⟩

end Aymos.Occupancy
