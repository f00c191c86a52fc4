import Aymos.Control

/-!
Where the kernel emits records.

`Site` lists the places that emit a batch, each with what holds there. What is proved of every
site holds of every record of every run.
-/

namespace Aymos.Control

open Words Allocator Scheduler Trace WordMem Kernel Machine Handlers Frames Services Switch

variable (c : Ctl)

/-- A creation that fills slot `i` with `t`. -/
structure Creates (config : TaskConfig) (i : ℕ) (t : SchedTask) : Prop where
  caller : c.running = true → userCalls c
  slot : i ∈ userSlots
  dormant : (c.schedules i).state = .dormant
  configured : osSchedTaskConfigure (c.schedules i) config.timing c.ticks = (t, true)

/-- The job of the running user task is completed. -/
structure Completes (t : SchedTask) : Prop where
  call : supervisorCalls c
  user : c.current ≠ taskIdIdle
  completed : osSchedCompleteJob (incumbent c) c.ticks = (t, true) ∨
    osSchedWaitNextPeriod (incumbent c) c.ticks = (t, true)

/-- A batch that a step of the control emits. -/
inductive Site : Label → List TraceInput → Prop
  | memory {l : Label} {b : List TraceInput} : Control.quiet l = true → memoryRecord b → Site l b
  | kernelStart :
    Site .kernelStart [record .kernelStart traceTaskInvalid traceTaskInvalid 0 osTaskCount 0]
  | miss {i : ℕ} : i ∈ userSlots → ticksMiss (c.ticks + 1) (c.schedules i) = true →
    Site .tick [deadlineRecord .deadlineMiss i (checked (c.ticks + 1) (c.schedules i))]
  | skip {i : ℕ} : i ∈ userSlots → ticksSkip (c.ticks + 1) (c.schedules i) = true →
    Site .tick [skipRecord i (skipped (c.ticks + 1) (c.schedules i))]
  | release {i : ℕ} : i ∈ userSlots → ticksRelease (c.ticks + 1) (c.schedules i) = true →
    Site .tick [deadlineRecord .taskRelease i (released (c.ticks + 1) (c.schedules i))]
  | wake {i : ℕ} : i ∈ userSlots → ticksWake (c.ticks + 1) (c.schedules i) = true →
    Site .tick [deadlineRecord .taskWake i (tickTask (c.ticks + 1) (c.schedules i))]
  | tickProbe : tickHits c = true →
    Site .tick (selectionInputs (ticked c).schedules osTaskCount
      (probeCandidate (ticked c).schedules) c.current taskIdInvalid .systickProbe)
  | ownerRelease {released : ℕ} : released ≠ 0 →
    Site .pendCommit [record .ownerRelease c.current traceTaskInvalid (u32 released) c.current 1]
  | dispatch : Site .pendCommit (selectionInputs (retired c).schedules osTaskCount
      (next (retired c)) c.current c.excluded .dispatch)
  | idleStop : c.current = taskIdIdle → next (retired c) ≠ taskIdIdle →
    Site .pendCommit [record .idleStop taskIdIdle (next (retired c)) 0 0 0]
  | idleStart : next (retired c) = taskIdIdle → c.current ≠ taskIdIdle →
    Site .pendCommit [record .idleStart taskIdIdle (traceTask c.current) 0 0 0]
  | preempt : c.sources ≠ 0 →
    Site .pendCommit [record .taskPreempt c.current (next (retired c)) c.sources 0 0]
  | switch : Site .pendCommit [record .contextSwitch (traceTask c.current) (next (retired c))
      c.cause (outgoing c).code 0]
  | start : next (retired c) ≠ taskIdIdle → (retired c).started (next (retired c)) = false →
    Site .pendCommit [deadlineRecord .taskStart (next (retired c))
      ((retired c).schedules (next (retired c)))]
  | create {config : TaskConfig} {i : ℕ} {t : SchedTask} : Creates c config i t →
    Site (.create config) [record .taskCreate i
      (traceTask (if c.running then c.current else taskIdInvalid)) t.kind.code t.priority
      t.state.code]
  | createRelease {config : TaskConfig} {i : ℕ} {t : SchedTask} : Creates c config i t →
    t.state = .ready → Site (.create config) [deadlineRecord .taskRelease i t]
  | createProbe {config : TaskConfig} {i : ℕ} {t : SchedTask} : Creates c config i t →
    createHits (filled c i t) i = true →
    Site (.create config) (selectionInputs (filled c i t).schedules osTaskCount i c.current
      taskIdInvalid .runtimeCreateProbe)
  | yield : supervisorCalls c → Site .yield [record .taskYield c.current traceTaskInvalid 0 0 0]
  | sleep {ticks : ℕ} {t : SchedTask} : supervisorCalls c →
    osSchedSleep (incumbent c) c.ticks ticks = (t, true) →
    Site (.sleep ticks) [record .taskSleep c.current traceTaskInvalid (u32 t.wakeOrder)
      (u32 (t.wakeOrder / 2 ^ 32)) ticks]
  | outcomeMiss {l : Label} {t : SchedTask} : l = .waitNextPeriod ∨ l = .taskExit →
    Completes c t → (incumbent c).deadlineMissLatched = false → t.deadlineMissLatched = true →
    Site l [deadlineRecord .deadlineMiss c.current t]
  | outcomeMet {l : Label} {t : SchedTask} : l = .waitNextPeriod ∨ l = .taskExit →
    Completes c t → t.deadlineMissLatched = false →
    Site l [deadlineRecord .deadlineMet c.current t]
  | waitNextPeriod {t : SchedTask} : supervisorCalls c → c.current ≠ taskIdIdle →
    osSchedWaitNextPeriod (incumbent c) c.ticks = (t, true) →
    Site .waitNextPeriod [record .taskWaitPeriod c.current traceTaskInvalid
      (u32 t.nextReleaseOrder) (u32 (t.nextReleaseOrder / 2 ^ 32)) 0]
  | taskExit {t : SchedTask} : supervisorCalls c → c.current ≠ taskIdIdle →
    osSchedCompleteJob (incumbent c) c.ticks = (t, true) →
    Site .taskExit [record .taskExit c.current traceTaskInvalid t.completedJobCount
      t.deadlineMissCount 0]

variable {c} {c' : Ctl} {l : Label} {bs : List (List TraceInput)} {b : List TraceInput}

/-- A batch that is emitted in one case only. -/
lemma mem_ite {p : Prop} [Decidable p] {b' : List TraceInput} (h : b ∈ if p then [b'] else []) :
    p ∧ b = b' := by
  split at h
  · exact ⟨‹_›, List.mem_singleton.mp h⟩
  · cases h

lemma site_tick (h : b ∈ tickAllBatches (c.ticks + 1) c.schedules userSlots) : Site c .tick b := by
  obtain ⟨i, hi, h⟩ := List.mem_flatMap.mp h
  simp only [tickBatches, List.mem_append] at h
  rcases h with ((h | h) | h) | h <;> obtain ⟨hp, rfl⟩ := mem_ite h
  · exact .miss hi hp
  · exact .skip hi hp
  · exact .release hi hp
  · exact .wake hi hp

lemma site_commit {freed : List (List TraceInput)}
    (hfreed : freed = [] ∨ ∃ released, freed = releaseBatches c.current released)
    (h : b ∈ commitBatches c (retired c) freed) : Site c .pendCommit b := by
  simp only [commitBatches, switchBatches, List.mem_append] at h
  rcases h with h | (h | ((h | h) | h) | h) | h
  · rcases hfreed with rfl | ⟨released, rfl⟩
    · cases h
    · obtain ⟨hne, rfl⟩ := mem_ite h
      exact .ownerRelease hne
  · rw [List.mem_singleton.mp h, retired_excluded]
    exact .dispatch
  · obtain ⟨⟨hcur, hn⟩, rfl⟩ := mem_ite h
    exact .idleStop hcur hn
  · obtain ⟨⟨hn, hcur⟩, rfl⟩ := mem_ite h
    exact .idleStart hn hcur
  · obtain ⟨hs, rfl⟩ := mem_ite h
    exact .preempt hs
  · rw [List.mem_singleton.mp h, retired_cause]
    exact .switch
  · obtain ⟨⟨hn, hst⟩, rfl⟩ := mem_ite h
    exact .start hn hst

lemma site_creation {config : TaskConfig} {i : ℕ} {t : SchedTask} (hcr : Creates c config i t)
    (h : b ∈ creationBatches (filled c i t) i) : Site c (.create config) b := by
  have ht : (filled c i t).schedules i = t := Function.update_self ..
  simp only [creationBatches, ht, List.mem_append] at h
  rcases h with (h | h) | h
  · rw [List.mem_singleton.mp h]
    exact .create hcr
  · obtain ⟨hs, rfl⟩ := mem_ite h
    exact .createRelease hcr hs
  · obtain ⟨hp, rfl⟩ := mem_ite h
    exact .createProbe hcr hp

lemma site_outcome {t : SchedTask} (hl : l = .waitNextPeriod ∨ l = .taskExit)
    (hcompl : Completes c t)
    (h : b ∈ outcomeBatches (incumbent c).deadlineMissLatched c.current t) : Site c l b := by
  unfold outcomeBatches at h
  split at h
  · next hmiss =>
    simp only [Bool.and_eq_true, Bool.not_eq_true'] at hmiss
    rw [List.mem_singleton.mp h]
    exact .outcomeMiss hl hcompl hmiss.1 hmiss.2
  · obtain ⟨hmet, rfl⟩ := mem_ite h
    exact .outcomeMet hl hcompl (by simpa using hmet)

/-- **Every batch of a step comes from a site.** -/
theorem site_of_mem (h : CtlStep c l c' bs) : ∀ b ∈ bs, Site c l b := by
  intro b hb
  cases h with
  | memory hq hrec => exact List.mem_singleton.mp hb ▸ .memory hq hrec
  | tick => exact site_tick hb
  | tickPreempt _ _ _ _ hhit =>
    rcases List.mem_append.mp hb with hb | hb
    · exact site_tick hb
    · exact List.mem_singleton.mp hb ▸ .tickProbe hhit
  | pendCommit _ _ _ _ _ _ _ hfreed => exact site_commit hfreed hb
  | kernelStart => exact List.mem_singleton.mp hb ▸ .kernelStart
  | create _ hcaller h1 hlt hd _ hconf =>
    exact site_creation ⟨hcaller, mem_userSlots.mpr ⟨h1, hlt⟩, hd, hconf⟩ hb
  | yield hcall => exact List.mem_singleton.mp hb ▸ .yield hcall
  | sleep hcall hsleep => exact List.mem_singleton.mp hb ▸ .sleep hcall hsleep
  | waitNextPeriod hcall hidle hwait =>
    rcases List.mem_append.mp hb with hb | hb
    · exact site_outcome (Or.inl rfl) ⟨hcall, hidle, Or.inr hwait⟩ hb
    · exact List.mem_singleton.mp hb ▸ .waitNextPeriod hcall hidle hwait
  | taskExit hcall hidle hdone =>
    rcases List.mem_append.mp hb with hb | hb
    · exact site_outcome (Or.inr rfl) ⟨hcall, hidle, Or.inl hdone⟩ hb
    · exact List.mem_singleton.mp hb ▸ .taskExit hcall hidle hdone
  | _ => cases hb

end Aymos.Control
