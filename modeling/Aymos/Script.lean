import Aymos.Scenario

/-!
Scripts of the sample image.

An act is an exception that is taken, or what the thread on the processor does. A script of acts is
carried out on the control alone, by evaluation, and a run of the kernel follows it.
-/

namespace Aymos.Script

open Words Scheduler Trace Kernel Machine Handlers Services Switch Control Boot EmissionLog Safety
  Startup Scenario

inductive Act
  | tick
  | pendEnter
  | pendCommit
  | pendReturn
  | primask (masked : Bool)
  | create (timing : TaskTimingConfig)
  | kernelStart
  | startSvc
  | yield
  | sleep (ticks : ℕ)
  | waitNextPeriod
  | taskExit

variable {c c' : Ctl} {log log' : Log} {a : Act} {bs : List (List TraceInput)} {script : List Act}

instance : Decidable (executing c) := inferInstanceAs (Decidable (_ ∧ (_ → _)))

instance : Decidable (userCalls c) := inferInstanceAs (Decidable (_ ∧ _ ∧ _ ∧ _ ∧ _ ∧ _))

/-- What an act makes of a control, and what it emits. -/
def act (c : Ctl) : Act → Option (Ctl × List (List TraceInput))
  | .tick =>
    if c.running = true ∧ c.masked = false ∧ c.ticks + 1 < 2 ^ 63 then
      let batches := tickAllBatches (c.ticks + 1) c.schedules userSlots
      if tickHits c then
        some (preempt (ticked c), batches ++ [selectionInputs (ticked c).schedules osTaskCount
          (probeCandidate (ticked c).schedules) c.current taskIdInvalid .systickProbe])
      else some (ticked c, batches)
    else none
  | .pendEnter =>
    if c.mode = .thread ∧ c.pendsv = true ∧ c.masked = false then
      some ({ c with mode := .pendsvEntry, pendsv := false }, [])
    else none
  | .pendCommit =>
    if c.mode = .pendsvEntry then
      some (resumed (retired c) (next (retired c)), commitBatches c (retired c) [])
    else none
  | .pendReturn => if c.mode = .pendsvExit then some ({ c with mode := .thread }, []) else none
  | .primask masked =>
    if executing c ∧ (c.running = true → c.active = true) then
      some ({ c with masked := masked }, [])
    else none
  | .create timing =>
    if executing c ∧ (c.running = true → userCalls c) ∧ osSchedConfigValid timing = true then
      match slotOf c with
      | none => none
      | some i =>
        if (osSchedTaskConfigure (c.schedules i) timing c.ticks).2 = true then
          some (announced (createIn c i timing) i, creationBatches (createIn c i timing) i)
        else none
    else none
  | .kernelStart =>
    if executing c ∧ c.running = false ∧ c.masked = false then
      some ({ c with running := true, cause := switchStart },
        [[record .kernelStart traceTaskInvalid traceTaskInvalid 0 osTaskCount 0]])
    else none
  | .startSvc =>
    if executing c ∧ c.running = true ∧ c.active = false ∧ c.pendsv = false then
      some ({ c with pendsv := true }, [])
    else none
  | .yield =>
    if executing c ∧ userCalls c ∧ c.masked = false then
      some ({ called c switchYield (inState (incumbent c) .ready) with excluded := c.current },
        [[record .taskYield c.current traceTaskInvalid 0 0 0]])
    else none
  | .sleep ticks =>
    if executing c ∧ userCalls c ∧ c.masked = false ∧ 0 < ticks ∧ ticks ≤ maxSleepTicks then
      match osSchedSleep (incumbent c) c.ticks ticks with
      | (_, false) => none
      | (t, true) => some (called c switchSleep t,
        [[record .taskSleep c.current traceTaskInvalid (u32 t.wakeOrder)
          (u32 (t.wakeOrder / 2 ^ 32)) ticks]])
    else none
  | .waitNextPeriod =>
    if executing c ∧ userCalls c ∧ c.masked = false ∧ (incumbent c).kind = .periodic then
      match osSchedWaitNextPeriod (incumbent c) c.ticks with
      | (_, false) => none
      | (t, true) => some (called c switchWaitPeriod t,
        outcomeBatches (incumbent c).deadlineMissLatched c.current t ++
          [[record .taskWaitPeriod c.current traceTaskInvalid (u32 t.nextReleaseOrder)
            (u32 (t.nextReleaseOrder / 2 ^ 32)) 0]])
    else none
  | .taskExit =>
    if executing c ∧ userCalls c ∧ c.masked = false then
      match osSchedCompleteJob (incumbent c) c.ticks with
      | (_, false) => none
      | (t, true) => some (called c switchExit (inState t .exiting),
        outcomeBatches (incumbent c).deadlineMissLatched c.current t ++
          [[record .taskExit c.current traceTaskInvalid t.completedJobCount t.deadlineMissCount 0]])
    else none

/-- The step of the kernel that an act is. -/
def Act.label : Act → Label
  | .tick => .tick
  | .pendEnter => .pendEnter
  | .pendCommit => .pendCommit
  | .pendReturn => .pendReturn
  | .primask masked => .primask masked
  | .create timing => .create (sampleConfig timing)
  | .kernelStart => .kernelStart
  | .startSvc => .startSvc
  | .yield => .yield
  | .sleep ticks => .sleep ticks
  | .waitNextPeriod => .waitNextPeriod
  | .taskExit => .taskExit

/-- **An act is a step of the kernel.** -/
lemma goes_of_act (ha : act c a = some (c', bs)) : Goes c log a.label c' bs := by
  cases a with
  | tick =>
    obtain ⟨⟨hrun, hmask, hclock⟩, ha⟩ := Option.ite_none_right_eq_some.mp ha
    split at ha
    · next hit =>
      obtain ⟨rfl, rfl⟩ := Prod.mk.inj (Option.some.inj ha)
      exact .tickPreempt hrun hmask hclock hit
    · next hit =>
      obtain ⟨rfl, rfl⟩ := Prod.mk.inj (Option.some.inj ha)
      exact .tick hrun hmask hclock (Bool.not_eq_true _ ▸ hit)
  | pendEnter =>
    obtain ⟨⟨hm, hp, hmask⟩, ha⟩ := Option.ite_none_right_eq_some.mp ha
    obtain ⟨rfl, rfl⟩ := Prod.mk.inj (Option.some.inj ha)
    exact .pendEnter hm hp hmask
  | pendCommit =>
    obtain ⟨hm, ha⟩ := Option.ite_none_right_eq_some.mp ha
    obtain ⟨rfl, rfl⟩ := Prod.mk.inj (Option.some.inj ha)
    exact .pendCommit hm
  | pendReturn =>
    obtain ⟨hm, ha⟩ := Option.ite_none_right_eq_some.mp ha
    obtain ⟨rfl, rfl⟩ := Prod.mk.inj (Option.some.inj ha)
    exact .pendReturn hm
  | primask masked =>
    obtain ⟨⟨hex, hact⟩, ha⟩ := Option.ite_none_right_eq_some.mp ha
    obtain ⟨rfl, rfl⟩ := Prod.mk.inj (Option.some.inj ha)
    exact .primask hex hact masked
  | create timing =>
    obtain ⟨⟨hex, hcaller, hvalid⟩, ha⟩ := Option.ite_none_right_eq_some.mp ha
    split at ha
    · cases ha
    · next i hslot =>
      obtain ⟨hconf, ha⟩ := Option.ite_none_right_eq_some.mp ha
      obtain ⟨rfl, rfl⟩ := Prod.mk.inj (Option.some.inj ha)
      exact .create timing hex hcaller hvalid hslot hconf
  | kernelStart =>
    obtain ⟨⟨hex, hrun, hmask⟩, ha⟩ := Option.ite_none_right_eq_some.mp ha
    obtain ⟨rfl, rfl⟩ := Prod.mk.inj (Option.some.inj ha)
    exact .kernelStart hex hrun hmask
  | startSvc =>
    obtain ⟨⟨hex, hrun, hact, hpend⟩, ha⟩ := Option.ite_none_right_eq_some.mp ha
    obtain ⟨rfl, rfl⟩ := Prod.mk.inj (Option.some.inj ha)
    exact .startSvc hex hrun hact hpend
  | yield =>
    obtain ⟨⟨hex, hcaller, hmask⟩, ha⟩ := Option.ite_none_right_eq_some.mp ha
    obtain ⟨rfl, rfl⟩ := Prod.mk.inj (Option.some.inj ha)
    exact .yield hex hcaller hmask
  | sleep ticks =>
    obtain ⟨⟨hex, hcaller, hmask, hpos, hmax⟩, ha⟩ := Option.ite_none_right_eq_some.mp ha
    split at ha
    · cases ha
    · next t hsleep =>
      obtain ⟨rfl, rfl⟩ := Prod.mk.inj (Option.some.inj ha)
      exact .sleep hex hcaller hmask hpos hmax hsleep
  | waitNextPeriod =>
    obtain ⟨⟨hex, hcaller, hmask, hkind⟩, ha⟩ := Option.ite_none_right_eq_some.mp ha
    split at ha
    · cases ha
    · next t hwait =>
      obtain ⟨rfl, rfl⟩ := Prod.mk.inj (Option.some.inj ha)
      exact .waitNextPeriod hex hcaller hmask hkind hwait
  | taskExit =>
    obtain ⟨⟨hex, hcaller, hmask⟩, ha⟩ := Option.ite_none_right_eq_some.mp ha
    split at ha
    · cases ha
    · next t hjob =>
      obtain ⟨rfl, rfl⟩ := Prod.mk.inj (Option.some.inj ha)
      exact .taskExit hex hcaller hmask hjob

/-! ### Evaluation

A value that is matched before it goes on is evaluated once, and not at each of its uses. -/

section Evaluation

variable {α : Type}

def withNat (n : ℕ) (go : ℕ → α) : α :=
  match n with
  | 0 => go 0
  | n + 1 => go (n + 1)

def withBool (b : Bool) (go : Bool → α) : α :=
  match b with
  | false => go false
  | true => go true

def withState (state : TaskState) (go : TaskState → α) : α :=
  match state with
  | .dormant => go .dormant
  | .waitingRelease => go .waitingRelease
  | .ready => go .ready
  | .running => go .running
  | .sleeping => go .sleeping
  | .exiting => go .exiting

def withKind (kind : TaskKind) (go : TaskKind → α) : α :=
  match kind with
  | .oneShot => go .oneShot
  | .periodic => go .periodic

def withMode (mode : Mode) (go : Mode → α) : α :=
  match mode with
  | .thread => go .thread
  | .pendsvEntry => go .pendsvEntry
  | .pendsvExit => go .pendsvExit

def withTask (t : SchedTask) (go : SchedTask → α) : α :=
  withNat t.releaseOrder fun releaseOrder =>
  withNat t.nextReleaseOrder fun nextReleaseOrder =>
  withNat t.wakeOrder fun wakeOrder =>
  withNat t.absoluteDeadlineOrder fun absoluteDeadlineOrder =>
  withNat t.releaseTick fun releaseTick =>
  withNat t.nextReleaseTick fun nextReleaseTick =>
  withNat t.wakeTick fun wakeTick =>
  withNat t.periodTicks fun periodTicks =>
  withNat t.relativeDeadlineTicks fun relativeDeadlineTicks =>
  withNat t.absoluteDeadlineTick fun absoluteDeadlineTick =>
  withNat t.executionBudgetTicks fun executionBudgetTicks =>
  withNat t.totalExecutionTicks fun totalExecutionTicks =>
  withNat t.jobExecutionTicks fun jobExecutionTicks =>
  withNat t.completedJobCount fun completedJobCount =>
  withNat t.deadlineMissCount fun deadlineMissCount =>
  withNat t.missedReleaseCount fun missedReleaseCount =>
  withNat t.jobSequence fun jobSequence =>
  withNat t.id fun id =>
  withState t.state fun state =>
  withKind t.kind fun kind =>
  withNat t.priority fun priority =>
  withBool t.jobActive fun jobActive =>
  withBool t.deadlineMissLatched fun deadlineMissLatched =>
  withBool t.timeRangeExhausted fun timeRangeExhausted =>
    go { releaseOrder, nextReleaseOrder, wakeOrder, absoluteDeadlineOrder, releaseTick,
         nextReleaseTick, wakeTick, periodTicks, relativeDeadlineTicks, absoluteDeadlineTick,
         executionBudgetTicks, totalExecutionTicks, jobExecutionTicks, completedJobCount,
         deadlineMissCount, missedReleaseCount, jobSequence, id, state, kind, priority, jobActive,
         deadlineMissLatched, timeRangeExhausted }

/-- A table of the five slots. -/
def withSlots {β : Type} (eval : β → (β → α) → α) (f : ℕ → β) (go : (ℕ → β) → α) : α :=
  eval (f 0) fun t₀ => eval (f 1) fun t₁ => eval (f 2) fun t₂ => eval (f 3) fun t₃ =>
  eval (f 4) fun t₄ => go fun i =>
    match i with
    | 0 => t₀
    | 1 => t₁
    | 2 => t₂
    | 3 => t₃
    | 4 => t₄
    | i + 5 => f (i + 5)

def withCtl (c : Ctl) (go : Ctl → α) : α :=
  withSlots withTask c.schedules fun schedules =>
  withSlots withBool c.claimed fun claimed =>
  withSlots withBool c.started fun started =>
  withNat c.current fun current =>
  withNat c.excluded fun excluded =>
  withNat c.cause fun cause =>
  withNat c.sources fun sources =>
  withNat c.ticks fun ticks =>
  withBool c.running fun running =>
  withBool c.active fun active =>
  withBool c.pendsv fun pendsv =>
  withBool c.masked fun masked =>
  withMode c.mode fun mode =>
    go { schedules, claimed, started, current, excluded, cause, sources, ticks, running, active,
         pendsv, masked, mode }

@[simp] lemma withNat_eq (n : ℕ) (go : ℕ → α) : withNat n go = go n := by cases n <;> rfl
@[simp] lemma withBool_eq (b : Bool) (go : Bool → α) : withBool b go = go b := by cases b <;> rfl
@[simp] lemma withState_eq (s : TaskState) (go : TaskState → α) : withState s go = go s := by
  cases s <;> rfl
@[simp] lemma withKind_eq (s : TaskKind) (go : TaskKind → α) : withKind s go = go s := by
  cases s <;> rfl
@[simp] lemma withMode_eq (s : Mode) (go : Mode → α) : withMode s go = go s := by cases s <;> rfl

@[simp] lemma withTask_eq (t : SchedTask) (go : SchedTask → α) : withTask t go = go t := by
  simp only [withTask, withNat_eq, withBool_eq, withState_eq, withKind_eq]

lemma withSlots_eq {β : Type} {eval : β → (β → α) → α} (h : ∀ t go, eval t go = go t)
    (f : ℕ → β) (go : (ℕ → β) → α) : withSlots eval f go = go f := by
  simp only [withSlots, h]
  refine congrArg go (funext fun i => ?_)
  split <;> rfl

lemma withCtl_eq (c : Ctl) (go : Ctl → α) : withCtl c go = go c := by
  simp only [withCtl, withSlots_eq withTask_eq, withSlots_eq withBool_eq, withNat_eq, withBool_eq,
    withMode_eq]

end Evaluation

/-! ### Scripts -/

/-- The acts of a script, one after the other, for as long as `ok` lets them pass, and what they
leave in the log. -/
def play (ok : Ctl → Act → Ctl → Bool) : List Act → Ctl → Option (Ctl × Log)
  | [], c => some (c, [])
  | a :: script, c => do
    let (c₁, bs) ← act c a
    guard (ok c a c₁)
    let (c', log) ← withCtl c₁ (play ok script)
    some (c', entries c₁.ticks bs ++ log)

variable {ok : Ctl → Act → Ctl → Bool}

/-- The first act of a script, and the rest. -/
lemma play_cons (hp : play ok (a :: script) c = some (c', log)) : ∃ c₁ bs log₁,
    act c a = some (c₁, bs) ∧ ok c a c₁ = true ∧ play ok script c₁ = some (c', log₁) ∧
      log = entries c₁.ticks bs ++ log₁ := by
  obtain ⟨⟨c₁, bs⟩, ha, hrest⟩ := Option.bind_eq_some_iff.mp hp
  obtain ⟨_, hok, hrest⟩ := Option.bind_eq_some_iff.mp hrest
  obtain ⟨⟨c₂, log₁⟩, hscript, hend⟩ := Option.bind_eq_some_iff.mp hrest
  obtain ⟨rfl, rfl⟩ := Prod.mk.inj (Option.some.inj hend)
  rw [withCtl_eq] at hscript
  have hok : ok c a c₁ = true := by
    by_contra hno
    rw [guard, if_neg hno] at hok
    cases hok
  exact ⟨c₁, bs, log₁, ha, hok, hscript, rfl⟩

/-- **What every act keeps**, a script keeps. -/
theorem play_induction {Q : Ctl → Log → Prop} (h : Q c log)
    (hp : play ok script c = some (c', log'))
    (hgo : ∀ {c log a c' bs}, Q c log → ok c a c' = true → Goes c log a.label c' bs →
      Q c' (log ++ entries c'.ticks bs)) : Q c' (log ++ log') := by
  induction script generalizing c log log' with
  | nil =>
    obtain ⟨rfl, rfl⟩ := Prod.mk.inj (Option.some.inj hp)
    rwa [List.append_nil]
  | cons a script ih =>
    obtain ⟨c₁, bs, log₁, ha, hok, hscript, rfl⟩ := play_cons hp
    rw [← List.append_assoc]
    exact ih (hgo h hok (goes_of_act ha)) hscript

/-- **A script that can be played is a run of the kernel.** -/
theorem stage_of_play (h : Stage c log) (hp : play ok script c = some (c', log')) :
    Stage c' (log ++ log') :=
  play_induction h hp fun h _ hg => h.go hg

/-- Every act passes. -/
def always : Ctl → Act → Ctl → Bool := fun _ _ _ => true

/-- What a script from the boot leads to. -/
lemma stage_of_script {α : Type} {view : Ctl × Log → α} {v : α}
    (hv : (play always script bootCtl).map view = some v) :
    ∃ c log, Stage c log ∧ view (c, log) = v := by
  obtain ⟨⟨c, log⟩, hp, hview⟩ := Option.map_eq_some_iff.mp hv
  exact ⟨c, log, stage_of_play stage_boot hp, hview⟩

/-- The step that follows a script from the boot. -/
lemma step_of_script {α : Type} {view : Ctl → Ctl → α} {v : α}
    (hv : ((play always script bootCtl).bind fun r => (act r.1 a).map fun r' => view r.1 r'.1) =
      some v) :
    ∃ labels k k' log bs, Logged sampleImage Disciplined labels k log ∧ Disciplined k a.label ∧
      Step sampleImage k a.label k' ∧ Emitted k a.label k' bs ∧ view (ctl k) (ctl k') = v := by
  obtain ⟨⟨c, log⟩, hp, hnext⟩ := Option.bind_eq_some_iff.mp hv
  obtain ⟨⟨c', bs⟩, ha, hview⟩ := Option.map_eq_some_iff.mp hnext
  obtain ⟨labels, k, k', hr, rfl, hd, hs, he, rfl, -⟩ :=
    (stage_of_play stage_boot hp).step (goes_of_act ha)
  exact ⟨labels, k, k', _, bs, hr, hd, hs, he, hview⟩

/-- The switch that has been requested. -/
def switch : List Act := [.pendEnter, .pendCommit, .pendReturn]

/-- The start, up to the first task. -/
def start : List Act := [.kernelStart, .startSvc] ++ switch

/-- A periodic task. -/
def periodic (period deadline : ℕ) : TaskTimingConfig :=
  { kind := .periodic
    initialReleaseDelayTicks := 0
    periodTicks := period
    relativeDeadlineTicks := deadline
    executionBudgetTicks := 1
    priority := 0 }

end Aymos.Script
