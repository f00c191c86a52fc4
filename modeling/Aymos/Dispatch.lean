import Aymos.Script

/-!
Which task a dispatch runs.

A commit runs the most urgent of the tasks that are ready or running; the commit after a yield puts
the task that has yielded behind all others, and no later commit does. Without yields the running
task is the most urgent one whenever a thread executes and no switch is pending.
-/

namespace Aymos.Dispatch

open Words Allocator Scheduler Trace WordMem Kernel Machine Handlers Frames Services Switch Select
  Slots Control Boot Ownership EmissionLog Stacks Safety Startup Scenario Script

variable {c c' : Ctl} {l : Label} {bs : List (List TraceInput)}

/-! ### Contenders -/

/-- The user tasks a switch chooses from: ready, or running until the switch. -/
def Contends (schedules : ℕ → SchedTask) (j : ℕ) : Prop :=
  j ∈ userSlots ∧ IsContender (schedules j)

/-- The first in the order of deadline, priority and identifier. -/
def MostUrgent (schedules : ℕ → SchedTask) (S : ℕ → Prop) (r : ℕ) : Prop :=
  S r ∧ ∀ j, S j → key (schedules r) ≤ key (schedules j)

/-- The table once the outgoing task has left the processor. -/
lemma retired_ready (h : ControlInv c) {j : ℕ} (hj : j ∈ userSlots) :
    (IsReady ((retired c).schedules j) ↔ IsContender (c.schedules j)) ∧
      (IsContender (c.schedules j) → key ((retired c).schedules j) = key (c.schedules j)) := by
  have hlt := (mem_userSlots.mp hj).2
  by_cases hjc : j = c.current
  · subst hjc
    rw [retired, if_neg (ne_invalid_of_lt hlt)]
    split_ifs with hrun hexit
    · have hrun : (c.schedules c.current).state = .running := hrun
      simp [Control.setTask, IsReady, IsContender, hrun, incumbent, key, inState]
    · have hexit : (c.schedules c.current).state = .exiting := hexit
      simp [cleared, IsReady, IsContender, osSchedTaskReset, hexit]
    · have hrun : (c.schedules c.current).state ≠ .running := hrun
      refine ⟨?_, fun _ => rfl⟩
      simp only [IsReady, IsContender, hrun, or_false]
      tauto
  · have hrun : (c.schedules j).state ≠ .running := fun hs => hjc (h.runs j hlt hs)
    rw [retired_other hjc]
    refine ⟨?_, fun _ => rfl⟩
    simp only [IsReady, IsContender, hrun, or_false]
    tauto

/-- **What a commit chooses**, in terms of the table it finds. -/
lemma next_law (h : ControlInv c) :
    (next (retired c) = taskIdIdle ↔ ∀ j, ¬Contends c.schedules j) ∧
      ((∃ j, Contends c.schedules j ∧ j ≠ c.excluded) →
        MostUrgent c.schedules (fun j => Contends c.schedules j ∧ j ≠ c.excluded)
          (next (retired c))) ∧
      ((∀ j, Contends c.schedules j → j = c.excluded) → (∃ j, Contends c.schedules j) →
        next (retired c) = c.excluded) := by
  have hsel := h.selected
  have hiff : ∀ j, Contends c.schedules j ↔ 1 ≤ j ∧ j < osTaskCount ∧
      IsReady ((retired c).schedules j) := by
    intro j
    constructor
    · rintro ⟨hj, hcont⟩
      exact ⟨(mem_userSlots.mp hj).1, (mem_userSlots.mp hj).2, (retired_ready h hj).1.mpr hcont⟩
    · rintro ⟨h1, h2, hr⟩
      have hj := mem_userSlots.mpr ⟨h1, h2⟩
      exact ⟨hj, (retired_ready h hj).1.mp hr⟩
  have hkey : ∀ j, Contends c.schedules j → key ((retired c).schedules j) = key (c.schedules j) :=
    fun j hj => (retired_ready h hj.1).2 hj.2
  generalize next (retired c) = r at hsel
  cases hsel with
  | best h1 h2 he hleast =>
    have hr : Contends c.schedules r := (hiff r).mpr ⟨h1, h2, he.2⟩
    refine ⟨⟨fun h0 => ?_, fun hno => absurd hr (hno r)⟩, fun _ => ⟨⟨hr, he.1⟩, ?_⟩,
      fun hall _ => absurd (hall r hr) he.1⟩
    · unfold taskIdIdle at h0
      omega
    · rintro j ⟨hj, hjx⟩
      obtain ⟨hj1, hj2, hjr⟩ := (hiff j).mp hj
      rw [← hkey r hr, ← hkey j hj]
      exact hleast j hj1 hj2 ⟨hjx, hjr⟩
  | fallback h1 h2 hr hno =>
    have hxc : Contends c.schedules c.excluded := (hiff _).mpr ⟨h1, h2, hr⟩
    refine ⟨⟨fun h0 => ?_, fun hnone => absurd hxc (hnone _)⟩, ?_, fun _ _ => rfl⟩
    · unfold taskIdIdle at h0
      omega
    · rintro ⟨j, hj, hjx⟩
      obtain ⟨hj1, hj2, hjr⟩ := (hiff j).mp hj
      exact absurd ⟨hjx, hjr⟩ (hno j hj1 hj2)
  | idle _ hno =>
    have hnone : ∀ j, ¬Contends c.schedules j := fun j hj => by
      obtain ⟨hj1, hj2, hjr⟩ := (hiff j).mp hj
      exact hno j hj1 hj2 hjr
    exact ⟨⟨fun _ => hnone, fun _ => rfl⟩, fun ⟨j, hj, _⟩ => absurd hj (hnone j),
      fun _ ⟨j, hj⟩ => absurd hj (hnone j)⟩
  | none hne _ => exact absurd h.idle_ready hne

/-- A commit makes the task it chooses the current one. -/
lemma commit_current (h : CtlStep c .pendCommit c' bs) :
    c'.current = next (retired c) := by
  cases h with
  | quiet hq => cases hq
  | memory hq => cases hq
  | pendCommit _ hn => exact hn

/-! ### The exclusion -/

/-- Since the last yield, if there was one, nothing has been committed. -/
def afterYield : List Label → Bool
  | [] => false
  | .yield :: _ => true
  | .pendCommit :: _ => false
  | _ :: labels => afterYield labels

/-- What a step does to the exclusion and, but for a commit, to the current task. -/
lemma excluded_step (hstep : CtlStep c l c' bs) :
    (l = .yield ∧ c'.excluded = c'.current ∧ c'.current = c.current) ∨
      (l = .pendCommit ∧ c'.excluded = taskIdInvalid) ∨
      (l ≠ .yield ∧ l ≠ .pendCommit ∧ c'.excluded = c.excluded ∧ c'.current = c.current) := by
  cases hstep with
  | quiet hq =>
    refine Or.inr (Or.inr ⟨?_, ?_, rfl, rfl⟩) <;> rintro rfl <;> cases hq
  | memory hq =>
    refine Or.inr (Or.inr ⟨?_, ?_, rfl, rfl⟩) <;> rintro rfl <;> cases hq
  | pendCommit => exact Or.inr (Or.inl ⟨rfl, rfl⟩)
  | yield => exact Or.inl ⟨rfl, rfl, rfl⟩
  | create =>
    refine Or.inr (Or.inr ⟨by simp, by simp, ?_, ?_⟩) <;> rw [announced] <;> split_ifs <;> rfl
  | _ => exact Or.inr (Or.inr ⟨by simp, by simp, rfl, rfl⟩)

variable {img : Image} {P : KernelState → Label → Prop} {labels : List Label} {k : KernelState}

/-- **The exclusion lasts from a yield to the next commit.** -/
theorem excluded_of_reaches (h : Reaches img P labels k) :
    k.yieldExcludedTask = if afterYield labels then k.currentTask else taskIdInvalid := by
  refine h.induction (Q := fun labels k => k.yieldExcludedTask =
    if afterYield labels then k.currentTask else taskIdInvalid) (fun _ _ _ _ => rfl) ?_
  intro labels k l k' hr ih _ hs
  obtain ⟨bs, hctl, -⟩ := control_step img (ControlInv.wellIndexed hr.control) hs
  rcases excluded_step hctl with ⟨rfl, he, -⟩ | ⟨rfl, he⟩ | ⟨hy, hp, he, hcur⟩
  · rw [afterYield, if_pos rfl]
    exact he
  · rw [afterYield, if_neg Bool.false_ne_true]
    exact he
  · have hafter : afterYield (l :: labels) = afterYield labels := by
      cases l <;> first | rfl | exact absurd rfl hy | exact absurd rfl hp
    rw [hafter, show k'.currentTask = k.currentTask from hcur]
    exact (show k'.yieldExcludedTask = k.yieldExcludedTask from he).trans ih

/-- **The law of dispatch.** A commit runs the most urgent contender, or idle when there is none;
the commit after a yield runs the most urgent other contender, or the task that has yielded when
there is no other. No exclusion is left outside the span from a yield to the next commit. -/
theorem dispatch_law (h : Reaches img P labels k) :
    (afterYield labels = false → k.yieldExcludedTask = taskIdInvalid) ∧
      ∀ k', Step img k .pendCommit k' →
        (k'.currentTask = taskIdIdle ↔ ∀ j, ¬Contends k.schedules j) ∧
        (afterYield labels = false → (∃ j, Contends k.schedules j) →
          MostUrgent k.schedules (Contends k.schedules) k'.currentTask) ∧
        (afterYield labels = true →
          ((∃ j, Contends k.schedules j ∧ j ≠ k.currentTask) →
            MostUrgent k.schedules (fun j => Contends k.schedules j ∧ j ≠ k.currentTask)
              k'.currentTask) ∧
          ((∀ j, Contends k.schedules j → j = k.currentTask) → (∃ j, Contends k.schedules j) →
            k'.currentTask = k.currentTask)) := by
  have hex := excluded_of_reaches h
  refine ⟨fun hy => by rw [hex, hy]; rfl, fun k' hs => ?_⟩
  obtain ⟨bs, hctl, -⟩ := control_step img (ControlInv.wellIndexed h.control) hs
  have hcur : k'.currentTask = next (retired (ctl k)) := commit_current hctl
  obtain ⟨hidle, hbest, hfall⟩ := next_law h.control
  rw [hcur]
  refine ⟨hidle, fun hy ⟨j, hj⟩ => ?_, fun hy => ?_⟩
  · have hinv : k.yieldExcludedTask = taskIdInvalid := by rw [hex, hy]; rfl
    have hall : ∀ i, Contends k.schedules i → i ≠ k.yieldExcludedTask := fun i hi => by
      rw [hinv]
      exact ne_invalid_of_lt (mem_userSlots.mp hi.1).2
    obtain ⟨⟨hr, -⟩, hleast⟩ := hbest ⟨j, hj, hall j hj⟩
    exact ⟨hr, fun i hi => hleast i ⟨hi, hall i hi⟩⟩
  · have heq : k.yieldExcludedTask = k.currentTask := by rw [hex, hy]; rfl
    rw [← heq]
    exact ⟨hbest, hfall⟩

/-- The most urgent of two tasks yields, up to the switch. -/
def yielding : List Act :=
  [.create (oneShot 0 5), .create (oneShot 0 100)] ++ start ++ [.yield, .pendEnter]

/-- The commit after a yield runs the other task, and ends the exclusion. -/
theorem dispatch_law_yielded : ∃ labels k k', Reaches sampleImage Disciplined labels k ∧
    afterYield labels = true ∧ k.currentTask = 1 ∧ Contends k.schedules 1 ∧
    key (k.schedules 1) < key (k.schedules 2) ∧ Step sampleImage k .pendCommit k' ∧
    k'.currentTask = 2 ∧
    MostUrgent k.schedules (fun j => Contends k.schedules j ∧ j ≠ k.currentTask) k'.currentTask ∧
    k'.yieldExcludedTask = taskIdInvalid := by
  obtain ⟨labels, k, k', log, bs, hr, hd, hs, -, hview⟩ := @step_of_script .pendCommit yielding _
    (fun c c' => ((c.current, c.excluded, c'.current), [1, 2].map fun i =>
      ((c.schedules i).jobActive, (c.schedules i).state, (c.schedules i).absoluteDeadlineOrder)))
    ((1, 1, 2), [(true, .ready, 5), (true, .ready, 100)]) (by decide +kernel)
  simp only [Prod.mk.injEq, List.map_cons, List.map_nil, List.cons.injEq, and_true] at hview
  obtain ⟨⟨hcurrent, hexcluded, hnext⟩, ⟨hact₁, hready₁, hdead₁⟩, hact₂, hready₂, hdead₂⟩ := hview
  have hcurrent : k.currentTask = 1 := hcurrent
  have hyield : afterYield labels = true := by
    by_contra hno
    have hex := excluded_of_reaches hr.reaches
    rw [if_neg hno] at hex
    exact absurd (hexcluded.symm.trans hex) (by decide)
  have hother : Contends k.schedules 2 ∧ 2 ≠ k.currentTask :=
    ⟨⟨by decide, hact₂, Or.inl hready₂⟩, by rw [hcurrent]; decide⟩
  obtain ⟨-, hlaw⟩ := dispatch_law hr.reaches
  obtain ⟨-, -, hyields⟩ := hlaw k' hs
  obtain ⟨hclear, -⟩ := dispatch_law (hr.reaches.step hd hs)
  refine ⟨labels, k, k', hr.reaches, hyield, hcurrent, ⟨by decide, hact₁, Or.inl hready₁⟩,
    key_lt_iff.mpr (Or.inl ?_), hs, hnext, (hyields hyield).1 ⟨2, hother⟩, hclear rfl⟩
  have hdead₁ : (k.schedules 1).absoluteDeadlineOrder = 5 := hdead₁
  have hdead₂ : (k.schedules 2).absoluteDeadlineOrder = 100 := hdead₂
  omega

/-! ### Runs without yields -/

/-- While no switch is pending, no ready task goes before the current one. -/
structure EdfInv (c : Ctl) : Prop where
  excluded : c.excluded = taskIdInvalid
  urgent : c.active = true → c.pendsv = false → c.mode ≠ .pendsvEntry →
    ∀ j ∈ userSlots, ¬Urgent (c.schedules j) (incumbent c)

/-- A ready task that goes before a running one outranks it. -/
lemma outranks_of_urgent {t u : SchedTask} (h : Urgent t u)
    (hu : u.id = taskIdIdle ∨ IsContender u) : osSchedOutranks t u = true := by
  obtain ⟨hready, hid, hkey⟩ := h
  rcases hkey with hidle | hlt
  · exact (osSchedOutranks_idle hidle).mpr ⟨hready, hid⟩
  · by_cases hidle : u.id = taskIdIdle
    · exact (osSchedOutranks_idle hidle).mpr ⟨hready, hid⟩
    · exact (osSchedOutranks_iff hid hidle (hu.resolve_left hidle)).mpr ⟨hready, hlt⟩

/-- The probe of a tick finds a task whenever there is one to find. -/
lemma probeHits_of_urgent {schedules : ℕ → SchedTask} {current j : ℕ}
    (hid : ∀ i < osTaskCount, (schedules i).id = i) (hcur : current ≠ taskIdInvalid)
    (hrun : (schedules current).state = .running)
    (hcont : (schedules current).id = taskIdIdle ∨ IsContender (schedules current))
    (hj : j ∈ userSlots) (h : Urgent (schedules j) (schedules current)) :
    probeHits schedules current = true := by
  obtain ⟨hj1, hj5⟩ := mem_userSlots.mp hj
  have hsel := @osSchedSelect_selected schedules taskIdInvalid osTaskCount (by decide) (by decide)
    hid
  rw [← probeCandidate.eq_1] at hsel
  generalize hr : probeCandidate schedules = r at hsel
  cases hsel with
  | best h1 h5 he hleast =>
    have hle := hleast j hj1 hj5 ⟨ne_invalid_of_lt hj5, h.1⟩
    have hidle : r ≠ taskIdIdle := by
      unfold taskIdIdle
      omega
    have hurgent : Urgent (schedules r) (schedules current) :=
      ⟨he.2, by rwa [hid r h5], h.2.2.imp_right hle.trans_lt⟩
    simp [probeHits, hcur, hrun, hr, ne_invalid_of_lt h5, hidle, outranks_of_urgent hurgent hcont]
  | fallback _ hlt => exact absurd rfl (ne_invalid_of_lt hlt)
  | idle _ hno => exact absurd h.1 (hno j hj1 hj5)
  | none _ hno => exact absurd h.1 (hno j hj1 hj5)

/-- The incumbent can be compared with. -/
lemma incumbent_comparable (h : ControlInv c) (hact : c.active = true)
    (hrun : (incumbent c).state = .running) :
    (incumbent c).id = taskIdIdle ∨ IsContender (incumbent c) := by
  rcases h.incumbent_contender hact (Or.inl hrun) with hidle | ⟨-, hcont⟩
  · exact Or.inl ((h.incumbent_id hact).trans hidle)
  · exact Or.inr hcont

/-- **A tick without a request leaves no task that goes before the running one.** -/
lemma EdfInv.ticked (h : ControlInv c) (he : EdfInv c)
    (hx : anyExhausts (c.ticks + 1) c.schedules userSlots = false) (hhit : tickHits c = false) :
    EdfInv (Control.ticked c) where
  excluded := he.excluded
  urgent hact hp hm j hj hu := by
    have hrun : (incumbent c).state = .running := h.runner hact (Or.inl ⟨hp, hm⟩)
    have hrun' : (incumbent (Control.ticked c)).state = .running :=
      (h.incumbent_tick hact (Or.inl hrun)).trans hrun
    have hinv := h.ticked hx
    rw [tickHits, Bool.and_eq_false_iff] at hhit
    rcases hhit with hready | hprobe
    · -- nothing became ready, so the task was ready before
      have hjlt := (mem_userSlots.mp hj).2
      have htj : (Control.ticked c).schedules j = tickTask (c.ticks + 1) (c.schedules j) :=
        tickSchedules_user hj
      rcases h.table.tick_state hjlt (c.ticks + 1) with hst | ⟨-, -, ht, -⟩
      · refine he.urgent hact hp hm j hj ?_
        have hst' : ((Control.ticked c).schedules j).state = (c.schedules j).state := hst
        have hjr : (c.schedules j).state = .ready := hst'.symm.trans hu.1.1
        have hja : (c.schedules j).jobActive = true :=
          (h.table.slots j hj).active.mpr (Or.inl hjr)
        obtain ⟨-, -, hkj⟩ := tickTask_of_contender (n := c.ticks + 1)
          (⟨hja, Or.inl hjr⟩ : IsContender (c.schedules j))
        have hid : (c.schedules j).id ≠ taskIdIdle := by
          rw [h.table.id j hjlt]
          exact (userSlot_ne_idle hj).symm
        refine ⟨⟨hjr, hja⟩, hid, ?_⟩
        rcases h.incumbent_contender hact (Or.inl hrun) with hidle | ⟨hcu, hcont⟩
        · exact Or.inl ((h.incumbent_id hact).trans hidle)
        · have hti : incumbent (Control.ticked c) = tickTask (c.ticks + 1) (incumbent c) :=
            tickSchedules_user hcu
          have hkey := hu.2.2
          rw [hti, tickTask_id, htj, hkj, (tickTask_of_contender hcont).2.2] at hkey
          exact hkey
      · exact absurd ht (List.any_eq_false.mp hready j hj)
    · have hfound := probeHits_of_urgent hinv.table.id (hinv.active.mp hact) hrun'
        (incumbent_comparable hinv hact hrun') hj hu
      exact absurd (hfound.symm.trans hprobe) (by decide)

/-- **A commit leaves no task that goes before the one it runs.** -/
lemma EdfInv.resumed (h : ControlInv c) (he : EdfInv c) :
    EdfInv (Control.resumed (retired c) (next (retired c))) where
  excluded := rfl
  urgent _ _ _ j hj hu := by
    obtain ⟨hj1, hj5⟩ := mem_userSlots.mp hj
    obtain ⟨r, hr⟩ : ∃ r, r = next (retired c) := ⟨_, rfl⟩
    have hsel := h.selected
    rw [← hr, he.excluded] at hsel
    rw [← hr] at hu
    have hinc : incumbent (Control.resumed (retired c) r) =
        inState ((retired c).schedules r) .running := by
      simp [incumbent, Control.resumed]
    have hjr : j ≠ r := fun heq => by
      have hs := hu.1.1
      rw [heq, show (Control.resumed (retired c) r).schedules r = _ from hinc] at hs
      cases hs
    rw [hinc, show (Control.resumed (retired c) r).schedules j = (retired c).schedules j from
      Function.update_of_ne hjr _ _] at hu
    cases hsel with
    | best h1 h5 _ hleast =>
      rcases hu.2.2 with hidle | hlt
      · have : ((retired c).schedules r).id = r := h.retired_table.id r h5
        rw [inState_id, this] at hidle
        unfold taskIdIdle at hidle
        omega
      · exact absurd (hleast j hj1 hj5 ⟨ne_invalid_of_lt hj5, hu.1⟩) (not_le.mpr hlt)
    | fallback _ hlt => exact ne_invalid_of_lt hlt rfl
    | idle _ hno => exact hno j hj1 hj5 hu.1
    | none hne _ => exact hne h.idle_ready

/-- **A creation without a request** adds no task that goes before its creator. -/
lemma EdfInv.filled (h : ControlInv c) (he : EdfInv c) {i : ℕ} {t : SchedTask}
    (hcaller : c.running = true → userCalls c) (hd : (c.schedules i).state = .dormant)
    (hhit : createHits (Control.filled c i t) i = false) :
    EdfInv (Control.filled c i t) where
  excluded := he.excluded
  urgent hact hp hm j hj hu := by
    obtain ⟨-, hrun, -, hs, -, -⟩ := hcaller (h.started hact)
    have hne : c.current ≠ i := fun heq => by
      rw [incumbent, heq, hd] at hs
      cases hs
    have hinc : incumbent (Control.filled c i t) = incumbent c := Function.update_of_ne hne _ _
    rw [hinc] at hu
    by_cases hji : j = i
    · subst hji
      have hout := outranks_of_urgent hu (incumbent_comparable h hact hs)
      rw [← hinc] at hout
      have hready := hu.1.1
      simp only [createHits, Bool.and_eq_false_iff] at hhit
      rcases hhit with (hf | hf) | hf
      · exact absurd (hrun.symm.trans hf) (by decide)
      · simp [hready] at hf
      · exact absurd (hout.symm.trans hf) (by decide)
    · rw [show (Control.filled c i t).schedules j = c.schedules j from
        Function.update_of_ne hji _ _] at hu
      exact he.urgent hact hp hm j hj hu

/-- **Every step but a yield keeps it.** -/
theorem EdfInv.step (h : ControlInv c) (he : EdfInv c) (hstep : CtlStep c l c' bs)
    (hl : l ≠ .yield) : EdfInv c' := by
  cases hstep with
  | quiet => exact he
  | memory => exact he
  | primask => exact ⟨he.excluded, he.urgent⟩
  | bootTick => exact he
  | tick _ _ _ hx hhit => exact he.ticked h hx hhit
  | tickPreempt => exact ⟨he.excluded, fun _ hp => by cases hp⟩
  | pendEnter => exact ⟨he.excluded, fun _ _ hm => absurd rfl hm⟩
  | pendCommit _ hn => exact hn ▸ he.resumed h
  | pendReturn hm =>
    exact ⟨he.excluded, fun hact hp _ => he.urgent hact hp (by rw [hm]; decide)⟩
  | kernelStart _ hrun =>
    exact ⟨he.excluded, fun hact => absurd ((h.started hact).symm.trans hrun) (by decide)⟩
  | startSvc => exact ⟨he.excluded, fun _ hp => by cases hp⟩
  | @createFails config i h1 hlt hd _ =>
    refine ⟨he.excluded, fun hact hp hm j hj hu => ?_⟩
    have hrun : (incumbent c).state = .running := h.runner hact (Or.inl ⟨hp, hm⟩)
    have hne : c.current ≠ i := fun heq => by
      rw [incumbent, heq, hd] at hrun
      cases hrun
    have hinc : incumbent (cleared c i) = incumbent c := Function.update_of_ne hne _ _
    rw [hinc] at hu
    by_cases hji : j = i
    · subst hji
      have hs := hu.1.1
      simp [cleared, osSchedTaskReset] at hs
    · rw [show (cleared c i).schedules j = c.schedules j from Function.update_of_ne hji _ _] at hu
      exact he.urgent hact hp hm j hj hu
  | @create config i t _ hcaller h1 hlt hd _ hconf =>
    rw [announced]
    split
    · exact ⟨he.excluded, fun _ hp => by cases hp⟩
    · next hhit => exact he.filled h hcaller hd (by simpa using hhit)
  | yield => exact absurd rfl hl
  | sleep => exact ⟨he.excluded, fun _ hp => by cases hp⟩
  | waitNextPeriod => exact ⟨he.excluded, fun _ hp => by cases hp⟩
  | taskExit => exact ⟨he.excluded, fun _ hp => by cases hp⟩

lemma edfInv_of_reaches (h : Reaches img P labels k) (hy : .yield ∉ labels) : EdfInv (ctl k) := by
  refine h.induction (Q := fun labels k => .yield ∉ labels → EdfInv (ctl k)) (fun m ram pc _ _ => ?_)
    (fun labels k l k' hr ih _ hs hy => ?_) hy
  · exact ⟨rfl, fun hact => by cases hact⟩
  · rw [List.mem_cons, not_or] at hy
    obtain ⟨bs, hctl, -⟩ := control_step img (ControlInv.wellIndexed hr.control) hs
    exact (ih hy.2).step hr.control hctl (Ne.symm hy.1)

/-- **Without yields the running task is the most urgent one.** Whenever the thread of a task
executes and no switch is pending, that task runs, no ready task outranks it, a user task has the
least key of all that are ready or running, and idle runs only when no user task is ready. -/
theorem edf_invariant (h : Reaches img P labels k) (hy : .yield ∉ labels)
    (hex : executes k = true) (hact : k.hasActiveContext = true) (hpend : k.cpu.pendsv = false) :
    (k.schedules k.currentTask).state = .running ∧
      (∀ j < osTaskCount, osSchedOutranks (k.schedules j) (k.schedules k.currentTask) = false) ∧
      (k.currentTask ≠ taskIdIdle →
        MostUrgent k.schedules (Contends k.schedules) k.currentTask) ∧
      (k.currentTask = taskIdIdle → ∀ j ∈ userSlots, (k.schedules j).state ≠ .ready) := by
  have hc := h.control
  have hedf := edfInv_of_reaches h hy
  have hrun := runs_of_executes hc hact hex
  have hlt : k.currentTask < osTaskCount := hc.current_lt (hc.active.mp hact)
  have hmode : k.mode ≠ .pendsvEntry := by
    rw [show k.mode = .thread from (executing_of_executes hex).1]
    decide
  have hno : ∀ j ∈ userSlots, ¬Urgent (k.schedules j) (k.schedules k.currentTask) :=
    hedf.urgent hact hpend hmode
  have hid : (k.schedules k.currentTask).id = k.currentTask := hc.incumbent_id hact
  have hready : ∀ j ∈ userSlots, (k.schedules j).state = .ready → IsReady (k.schedules j) :=
    fun j hj hs => ⟨hs, (hc.table.slots j hj).active.mpr (Or.inl hs)⟩
  have huser : ∀ j ∈ userSlots, (k.schedules j).id ≠ taskIdIdle := fun j hj => by
    rw [show (k.schedules j).id = j from hc.table.id j (mem_userSlots.mp hj).2]
    exact (userSlot_ne_idle hj).symm
  refine ⟨hrun, fun j hj => ?_, fun hidle => ⟨⟨userSlot_of_ne_idle hlt hidle, ?_⟩, ?_⟩,
    fun hidle j hj hs => ?_⟩
  · rw [← Bool.not_eq_true]
    intro hout
    have hu := urgent_of_outranks hout
    have hji : j ≠ taskIdIdle := fun heq => hu.2.1 (by
      rw [show (k.schedules j).id = j from hc.table.id j hj]
      exact heq)
    exact hno j (userSlot_of_ne_idle hj hji) hu
  · exact ((hc.incumbent_contender hact (Or.inl hrun)).resolve_left hidle).2
  · rintro j ⟨hj, hact', hs⟩
    rcases hs with hs | hs
    · exact not_lt.mp fun hlt' => hno j hj ⟨hready j hj hs, huser j hj, Or.inr hlt'⟩
    · rw [show j = k.currentTask from hc.runs j (mem_userSlots.mp hj).2 hs]
  · exact hno j hj ⟨hready j hj hs, huser j hj, Or.inl (hid.trans hidle)⟩

/-- At the first instruction of the sample task. -/
theorem edf_invariant_started : ∃ k,
    Reaches sampleImage Disciplined (.pendReturn :: startLabels ++ [.create samplePeriodic]) k ∧
      (k.schedules k.currentTask).state = .running ∧
      ∀ j < osTaskCount, osSchedOutranks (k.schedules j) (k.schedules k.currentTask) = false := by
  obtain ⟨k, hr, hctl, -, hat, hmask⟩ :=
    sample_create (P := Disciplined) (fun _ _ => trivial) (fun _ => 0) (fun _ => 0)
  have hrun : k.running = false := congrArg Ctl.running hctl
  obtain ⟨k₁, hr₁, hctl₁⟩ := first_commit hr hat hrun hmask
  obtain ⟨k₂, hr₂, hctl₂⟩ := first_return hr₁ (congrArg Ctl.mode hctl₁)
  have hact : k₂.hasActiveContext = true := by
    rw [show k₂.hasActiveContext = (ctl k₂).active from rfl, hctl₂, hctl₁]
    rfl
  have hpend : k₂.cpu.pendsv = false := by
    rw [show k₂.cpu.pendsv = (ctl k₂).pendsv from rfl, hctl₂, hctl₁]
    rfl
  have hmode : k₂.mode = .thread := congrArg Ctl.mode hctl₂
  have hex : executes k₂ = true := by simp [executes, hmode, hpend]
  obtain ⟨hruns, hout, -⟩ := edf_invariant hr₂ (by simp [startLabels]) hex hact hpend
  exact ⟨k₂, hr₂, hruns, hout⟩

end Aymos.Dispatch
