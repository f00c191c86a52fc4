import Aymos.Scenario

/-!
The causes of switches.

A request of a switch leaves its cause for the commit, which takes it and clears it. A tick that
preempts between the entry of `PendSV_Handler` and its commit pends a second switch whose cause
the first commit has taken.
-/

namespace Aymos.Causes

open Words Allocator Scheduler Trace WordMem Kernel Machine Handlers Frames Services Switch Slots
  Control Boot EmissionLog Safety Startup Scenario

variable {img : Image} {c c' : Ctl} {l : Label} {bs : List (List TraceInput)}
  {labels : List Label} {k : KernelState} {log : Log}

/-- The causes that the trace format knows. -/
def IsCause (cause : ℕ) : Prop := 1 ≤ cause ∧ cause ≤ 8

instance (cause : ℕ) : Decidable (IsCause cause) := inferInstanceAs (Decidable (_ ∧ _))

/-- No tick preempts between the entry of `PendSV_Handler` and its commit. -/
def Undisturbed (k : KernelState) (l : Label) : Prop :=
  l = .tick → k.mode = .pendsvEntry → tickPreempts k = false

/-- A switch that is requested, or the first one, has a cause, and a switch that is being made
is the only one requested. -/
structure CauseInv (c : Ctl) : Prop where
  cause : c.running = true → c.active = false ∨ c.pendsv = true ∨ c.mode = .pendsvEntry →
    IsCause c.cause
  single : c.mode = .pendsvEntry → c.pendsv = false

lemma requestCause_isCause (sources : ℕ) : IsCause (requestCause sources) := by
  unfold requestCause
  split_ifs <;> decide

lemma CauseInv.called (hex : executing c) {cause : ℕ} (h : IsCause cause) (t : SchedTask)
    (excluded : ℕ) : CauseInv { Control.called c cause t with excluded := excluded } :=
  ⟨fun _ _ => h, fun hm => absurd (hex.1.symm.trans hm) (by decide)⟩

/-- **Every step keeps the causes**, but for a preempting tick in the window. -/
lemma CauseInv.step (h : CauseInv c) (hstep : CtlStep c l c' bs)
    (hquiet : l = .tick → c.mode = .pendsvEntry → tickHits c = false) : CauseInv c' := by
  cases hstep with
  | quiet => exact h
  | memory => exact h
  | primask => exact ⟨h.cause, h.single⟩
  | bootTick => exact h
  | tick => exact ⟨h.cause, h.single⟩
  | tickPreempt _ _ _ _ hhit =>
    refine ⟨fun _ _ => requestCause_isCause _, fun hm => ?_⟩
    exact absurd (hhit.symm.trans (hquiet rfl hm)) (by decide)
  | pendEnter hm hp => exact ⟨fun hr _ => h.cause hr (Or.inr (Or.inl hp)), fun _ => rfl⟩
  | pendCommit hm =>
    have hpend : (retired c).pendsv = false := (retired_pendsv c).trans (h.single hm)
    refine ⟨fun _ hd => ?_, fun hm' => by cases hm'⟩
    rcases hd with hact | hp | hm'
    · cases hact
    · exact absurd (hpend.symm.trans hp) (by decide)
    · cases hm'
  | pendReturn hm =>
    refine ⟨fun hr hd => h.cause hr ?_, fun hm' => by cases hm'⟩
    rcases hd with hact | hp | hm'
    · exact Or.inl hact
    · exact Or.inr (Or.inl hp)
    · cases hm'
  | kernelStart _ hrun => exact ⟨fun _ _ => (by decide : IsCause switchStart), h.single⟩
  | startSvc hex _ _ hact =>
    exact ⟨fun hr _ => h.cause hr (Or.inl hact), fun hm => absurd (hex.1.symm.trans hm) (by decide)⟩
  | createFails => exact ⟨h.cause, h.single⟩
  | create hex =>
    rw [announced]
    split
    · refine ⟨fun _ _ => requestCause_isCause _, fun hm => ?_⟩
      exact absurd (hex.1.symm.trans hm) (by decide)
    · exact ⟨h.cause, h.single⟩
  | yield hcall => exact .called hcall.1 (by decide) _ _
  | sleep hcall => exact .called hcall.1 (by decide) _ c.excluded
  | waitNextPeriod hcall => exact .called hcall.1 (by decide) _ c.excluded
  | taskExit hcall => exact .called hcall.1 (by decide) _ c.excluded

lemma causeInv_of_reaches (h : Reaches img Undisturbed labels k) : CauseInv (ctl k) := by
  refine h.induction (Q := fun _ k => CauseInv (ctl k))
    (fun m ram pc _ => ⟨fun hr => (nomatch hr), fun hm => (nomatch hm)⟩) ?_
  intro labels k l k' hr ih hquiet hs
  obtain ⟨bs, hctl, -⟩ := control_step img (ControlInv.wellIndexed hr.control) hs
  exact ih.step hctl hquiet

/-- The record of a switch carries the cause that has been recorded. -/
lemma switch_value {b : List TraceInput} {input : TraceInput} (h : Site c l b) (hi : input ∈ b)
    (he : input.event = TraceEvent.contextSwitch.code) :
    l = .pendCommit ∧ input.value0 = c.cause := by
  cases h with
  | switch =>
    rw [List.mem_singleton.mp hi]
    exact ⟨rfl, rfl⟩
  | memory _ hrec =>
    obtain ⟨event, task, related, v0, v1, v2, hev, rfl⟩ := hrec
    rw [List.mem_singleton.mp hi] at he
    rcases hev with rfl | rfl <;> cases he
  | tickProbe => rcases selection_event hi with h | h <;> rw [h] at he <;> cases he
  | dispatch => rcases selection_event hi with h | h <;> rw [h] at he <;> cases he
  | createProbe => rcases selection_event hi with h | h <;> rw [h] at he <;> cases he
  | _ =>
    rw [List.mem_singleton.mp hi] at he
    cases he

/-- **Every switch has a cause**, in every run in which no tick preempts the running task between
the entry of `PendSV_Handler` and its commit. -/
theorem switch_causes (h : Logged img Undisturbed labels k log) :
    ∀ e ∈ log, e.2.event = TraceEvent.contextSwitch.code → IsCause e.2.value0 := by
  induction h with
  | boot => exact fun e he => absurd he List.not_mem_nil
  | @step labels log k k' l bs hr _ _ hem ih =>
    intro e he hev
    rcases List.mem_append.mp he with he | he
    · exact ih e he hev
    · obtain ⟨input, hi, rfl⟩ := List.mem_map.mp he
      obtain ⟨b, hb, hi⟩ := List.mem_flatten.mp hi
      obtain ⟨rfl, hval⟩ := switch_value (site_of_mem hem.control b hb) hi hev
      have hcommit := commit_inv hem.control
      rw [hval]
      exact (causeInv_of_reaches hr.reaches).cause hcommit.running (Or.inr (Or.inr hcommit.mode))

/-- Up to the first dispatch of a run with a task. -/
theorem switch_causes_started : ∃ k log,
    Logged sampleImage Undisturbed (startLabels ++ [.create samplePeriodic]) k log ∧
      ∀ e ∈ log, e.2.event = TraceEvent.contextSwitch.code → IsCause e.2.value0 := by
  obtain ⟨k, hr, hctl, -, hat, hmask⟩ :=
    sample_create (P := Disciplined) (fun _ _ => trivial) (fun _ => 0) (fun _ => 0)
  obtain ⟨k', hr', -⟩ := first_commit hr hat (congrArg Ctl.running hctl) hmask
  obtain ⟨log, hlog⟩ := Logged.of_reaches hr'
  have hquiet : Logged sampleImage Undisturbed _ k' log := hlog.mono fun _ l hl _ htick => by
    subst htick
    exact absurd hl (by decide)
  exact ⟨k', log, hquiet, switch_causes hquiet⟩

/-! ### A switch without a cause -/

/-- Two tasks, the second of which is released one tick after the start and goes first. -/
def pairCtl : Ctl := announced (createIn (soloCtl (oneShot 0 100)) 2 (oneShot 1 50)) 2

/-- The first task has created one that goes before both others, and `PendSV_Handler` is entered. -/
def windowCtl : Ctl :=
  { announced (createIn (launched pairCtl) 3 (oneShot 0 10)) 3 with
    mode := .pendsvEntry, pendsv := false }

lemma stage_window : ∃ log, Stage windowCtl log := by
  have hsolo := stage_solo (oneShot 0 100) (by decide) (by decide)
  have hpair : Stage pairCtl _ := hsolo.go (.create _ ⟨rfl, fun h => nomatch h⟩
    (fun h => nomatch h) (by decide) (by decide) (by decide))
  have hlaunch := hpair.launch ⟨rfl, fun h => nomatch h⟩ rfl rfl rfl rfl rfl
  have hcreate := hlaunch.go (.create (oneShot 0 10) (i := 3) ⟨rfl, fun h => nomatch h⟩
    (fun _ => ⟨rfl, rfl, by decide, by decide, rfl, by decide⟩) (by decide) (by decide)
    (by decide))
  exact ⟨_, hcreate.pass (.pendEnter (by decide) (by decide) (by decide))⟩

/-- The tick in the window, and the two switches that follow. -/
def switchedCtl (c : Ctl) : Ctl := resumed (retired c) (next (retired c))

def secondCtl : Ctl :=
  { switchedCtl (preempt (ticked windowCtl)) with mode := .pendsvEntry, pendsv := false }

/-- **A switch without a cause.** A task creates a more urgent one, and a tick that releases a third
one preempts between the entry of `PendSV_Handler` and its commit. The commit takes the causes of
both requests, and the second switch, which the tick has pended, records none. -/
theorem switch_without_cause : ∃ labels k log, Logged sampleImage Disciplined labels k log ∧
    ∃ e ∈ log, e.2.event = TraceEvent.contextSwitch.code ∧ e.2.value0 = 0 := by
  obtain ⟨log, hwindow⟩ := stage_window
  have htick := hwindow.go (.tickPreempt rfl rfl (by decide) (by decide))
  have hfirst := htick.go (.pendCommit rfl)
  have hreturn := hfirst.pass (.pendReturn rfl)
  have hentry : Stage secondCtl _ := hreturn.pass (.pendEnter rfl rfl rfl)
  obtain ⟨labels, k, hr, -⟩ := hentry.go (.pendCommit rfl)
  refine ⟨labels, k, _, hr, (secondCtl.ticks, record .contextSwitch (traceTask secondCtl.current)
    (next (retired secondCtl)) secondCtl.cause (outgoing secondCtl).code 0),
    List.mem_append_right _ (List.mem_map_of_mem ?_), rfl, rfl⟩
  refine List.mem_flatten.mpr ⟨_, ?_, List.mem_singleton_self _⟩
  rw [commitBatches, switchBatches, retired_cause]
  simp

end Aymos.Causes
