import Aymos.ControlSim
import Aymos.Slots

/-!
The invariant of the control.

`TableInv` is about the table of slots: their timing, which slots are free, what idle is. `FlowInv`
is about the flow of control: who may run, when a switch is pending, and what a preemption request
and an exclusion promise. Both hold in every state reached.
-/

namespace Aymos.Control

open Words Allocator Scheduler Trace WordMem Kernel Machine Handlers Frames Services Switch Select
  Slots

/-! ### Precedence -/

/-- A ready user task that goes before `u`. -/
def Urgent (t u : SchedTask) : Prop :=
  IsReady t ∧ t.id ≠ taskIdIdle ∧ (u.id = taskIdIdle ∨ key t < key u)

lemma urgent_of_outranks {t u : SchedTask} (h : osSchedOutranks t u = true) : Urgent t u := by
  by_cases hu : u.id = taskIdIdle
  · obtain ⟨hr, ht⟩ := (osSchedOutranks_idle hu).mp h
    exact ⟨hr, ht, Or.inl hu⟩
  · have hguard : t.id ≠ taskIdIdle ∧ IsContender u := by
      rw [osSchedOutranks] at h
      split_ifs at h with h1 h2
      all_goals
        simp only [not_or, Bool.not_eq_true', Bool.not_eq_false, not_and, not_not] at h2
        refine ⟨h2.1, h2.2.1, ?_⟩
        by_cases hr : u.state = .ready
        · exact Or.inl hr
        · exact Or.inr (h2.2.2 hr)
    obtain ⟨hr, hlt⟩ := (osSchedOutranks_iff hguard.1 hu hguard.2).mp h
    exact ⟨hr, hguard.1, Or.inr hlt⟩

/-! ### The table -/

structure TableInv (now : ℕ) (schedules : ℕ → SchedTask) (claimed : ℕ → Bool) : Prop where
  id : ∀ i < osTaskCount, (schedules i).id = i
  slots : ∀ i ∈ userSlots, SlotInv now (schedules i)
  idle : (schedules taskIdIdle).jobActive = false ∧
    ((schedules taskIdIdle).state = .ready ∨ (schedules taskIdIdle).state = .running)
  free : ∀ i ∈ userSlots, ((schedules i).state = .dormant ↔ claimed i = false)
  reset : ∀ i ∈ userSlots, (schedules i).state = .dormant → schedules i = osSchedTaskReset i

section Table

variable {now : ℕ} {schedules : ℕ → SchedTask} {claimed : ℕ → Bool} {i : ℕ} {t : SchedTask}

lemma userSlot_ne_idle (hi : i ∈ userSlots) : taskIdIdle ≠ i := by
  have := (mem_userSlots.mp hi).1
  unfold taskIdIdle
  omega

lemma userSlot_of_ne_idle (hi : i < osTaskCount) (h : i ≠ taskIdIdle) : i ∈ userSlots := by
  unfold taskIdIdle at h
  exact mem_userSlots.mpr ⟨by omega, hi⟩

/-- A slot gets the record of a task that is not dormant. -/
lemma TableInv.fill (h : TableInv now schedules claimed) (hi : i ∈ userSlots) (hid : t.id = i)
    (hslot : SlotInv now t) (hd : t.state ≠ .dormant) :
    TableInv now (Function.update schedules i t) (Function.update claimed i true) where
  id j hj := by
    by_cases hji : j = i
    · subst hji; simpa using hid
    · simpa [hji] using h.id j hj
  slots j hj := by
    by_cases hji : j = i
    · subst hji; simpa using hslot
    · simpa [hji] using h.slots j hj
  idle := by simpa [userSlot_ne_idle hi] using h.idle
  free j hj := by
    by_cases hji : j = i
    · subst hji; simpa using hd
    · simpa [hji] using h.free j hj
  reset j hj := by
    by_cases hji : j = i
    · subst hji; simp [hd]
    · simpa [hji] using h.reset j hj

/-- A slot that is not dormant is claimed. -/
lemma TableInv.claimed_of_busy (h : TableInv now schedules claimed) (hi : i ∈ userSlots)
    (hs : (schedules i).state ≠ .dormant) : claimed i = true := by
  rw [← Bool.not_eq_false]
  exact fun hf => hs ((h.free i hi).mpr hf)

/-- A claimed slot changes its record. -/
lemma TableInv.set (h : TableInv now schedules claimed) (hi : i ∈ userSlots) (hid : t.id = i)
    (hslot : SlotInv now t) (hd : t.state ≠ .dormant) (hold : (schedules i).state ≠ .dormant) :
    TableInv now (Function.update schedules i t) claimed := by
  have := h.fill hi hid hslot hd
  rwa [← h.claimed_of_busy hi hold, Function.update_eq_self] at this

lemma TableInv.clear (h : TableInv now schedules claimed) (hi : i ∈ userSlots) :
    TableInv now (Function.update schedules i (osSchedTaskReset i))
      (Function.update claimed i false) where
  id j hj := by
    by_cases hji : j = i
    · subst hji; simp [osSchedTaskReset]
    · simpa [hji] using h.id j hj
  slots j hj := by
    by_cases hji : j = i
    · subst hji; simpa using slotInv_reset now j
    · simpa [hji] using h.slots j hj
  idle := by simpa [userSlot_ne_idle hi] using h.idle
  free j hj := by
    by_cases hji : j = i
    · subst hji; simp [osSchedTaskReset]
    · simpa [hji] using h.free j hj
  reset j hj := by
    by_cases hji : j = i
    · subst hji; simp
    · simpa [hji] using h.reset j hj

/-- Idle changes between ready and running. -/
lemma TableInv.setIdle (h : TableInv now schedules claimed) {s : TaskState}
    (hs : s = .ready ∨ s = .running) :
    TableInv now (Function.update schedules taskIdIdle (inState (schedules taskIdIdle) s))
      claimed where
  id j hj := by
    by_cases hji : j = taskIdIdle
    · subst hji; simpa using h.id _ hj
    · simpa [hji] using h.id j hj
  slots j hj := by simpa [(userSlot_ne_idle hj).symm] using h.slots j hj
  idle := by simpa [h.idle.1] using hs
  free j hj := by simpa [(userSlot_ne_idle hj).symm] using h.free j hj
  reset j hj := by simpa [(userSlot_ne_idle hj).symm] using h.reset j hj

/-- Any slot changes between ready and running. -/
lemma TableInv.setState (h : TableInv now schedules claimed) (hi : i < osTaskCount)
    (hold : (schedules i).state = .ready ∨ (schedules i).state = .running) {s : TaskState}
    (hs : s = .ready ∨ s = .running) :
    TableInv now (Function.update schedules i (inState (schedules i) s)) claimed := by
  by_cases hidle : i = taskIdIdle
  · subst hidle
    exact h.setIdle hs
  · have hu := userSlot_of_ne_idle hi hidle
    have hslot := h.slots i hu
    refine h.set hu (h.id i hi) (hslot.inState (hslot.active.mpr (by tauto)) hs) ?_ ?_
    · rcases hs with rfl | rfl <;> simp
    · rcases hold with hst | hst <;> simp [hst]

lemma SlotInv.waiting_inactive (h : SlotInv now t) (hw : t.state = .waitingRelease) :
    t.jobActive = false := by
  rw [← Bool.not_eq_true, h.active]
  simp [hw]

lemma tickSchedules_user {n : ℕ} (hi : i ∈ userSlots) :
    tickSchedules n schedules userSlots i = tickTask n (schedules i) := if_pos hi

lemma tickSchedules_idle {n : ℕ} :
    tickSchedules n schedules userSlots taskIdIdle = schedules taskIdIdle :=
  if_neg (by decide)

/-- What a tick can do to the state of a slot. -/
lemma TableInv.tick_state (h : TableInv now schedules claimed) (hi : i < osTaskCount) (n : ℕ) :
    (tickSchedules n schedules userSlots i).state = (schedules i).state ∨
      (((schedules i).state = .waitingRelease ∨ (schedules i).state = .sleeping) ∧
        (tickSchedules n schedules userSlots i).state = .ready ∧
        tickReady n (schedules i) = true ∧ i ∈ userSlots) := by
  by_cases hidle : i = taskIdIdle
  · subst hidle
    rw [tickSchedules_idle]
    exact Or.inl rfl
  · have hu := userSlot_of_ne_idle hi hidle
    rw [tickSchedules_user hu]
    rcases tickTask_state (n := n) fun hw => SlotInv.waiting_inactive (h.slots i hu) hw with
      hs | ⟨hs, hr, ht⟩
    · exact Or.inl hs
    · exact Or.inr ⟨hs, hr, ht, hu⟩

lemma TableInv.tick (h : TableInv now schedules claimed)
    (hx : anyExhausts (now + 1) schedules userSlots = false) :
    TableInv (now + 1) (tickSchedules (now + 1) schedules userSlots) claimed where
  id i hi := by
    rw [tickSchedules]
    split <;> simpa using h.id i hi
  slots i hi := by
    rw [tickSchedules_user hi]
    refine (h.slots i hi).tick ?_
    rw [← Bool.not_eq_true]
    exact List.any_eq_false.mp hx i hi
  idle := by
    rw [tickSchedules_idle]
    exact h.idle
  free i hi := by
    rw [← h.free i hi]
    rcases h.tick_state (mem_userSlots.mp hi).2 (now + 1) with hs | ⟨hs, hr, -, -⟩
    · rw [hs]
    · rw [hr]
      rcases hs with hs | hs <;> simp [hs]
  reset i hi hd := by
    have hold : (schedules i).state = .dormant := by
      rcases h.tick_state (mem_userSlots.mp hi).2 (now + 1) with hs | ⟨-, hr, -, -⟩
      · rw [← hs, hd]
      · rw [hr] at hd
        cases hd
    have ht := h.reset i hi hold
    rw [tickSchedules_user hi, ht, (tickTask_of_inactive (by simp [osSchedTaskReset]) rfl).1]

end Table

/-! ### The flow -/

variable {c c' : Ctl} {l : Label} {bs : List (List TraceInput)}

/-- Some ready task goes before the current one. -/
def Outranked (c : Ctl) : Prop :=
  ∃ j ∈ userSlots, j ≠ c.current ∧ Urgent (c.schedules j) (incumbent c)

structure FlowInv (c : Ctl) : Prop where
  sources : c.sources ≤ 3
  current : c.current < osTaskCount ∨ c.current = taskIdInvalid
  active : c.active = true ↔ c.current ≠ taskIdInvalid
  started : c.active = true → c.running = true
  runs : ∀ i < osTaskCount, (c.schedules i).state = .running → i = c.current
  exits : ∀ i < osTaskCount, (c.schedules i).state = .exiting → i = c.current
  masked : c.masked = true → c.mode = .thread
  /-- The current task runs unless a switch is pending. -/
  runner : c.active = true →
    (c.pendsv = false ∧ c.mode ≠ .pendsvEntry) ∨ c.masked = true → (incumbent c).state = .running
  /-- A preemption request waits for a switch that will find another task. -/
  request : c.sources ≠ 0 → (c.pendsv = true ∨ c.mode = .pendsvEntry) ∧
    c.excluded = taskIdInvalid ∧ c.active = true ∧
    ((incumbent c).state = .running ∨ (incumbent c).state = .ready) ∧ Outranked c
  /-- An exclusion waits for the switch that follows its yield. -/
  exclusion : c.excluded ≠ taskIdInvalid → c.excluded = c.current ∧ (incumbent c).state = .ready ∧
    (c.pendsv = true ∨ c.mode = .pendsvEntry) ∧ c.sources = 0 ∧ c.active = true

/-- **The invariant of the control.** -/
structure ControlInv (c : Ctl) : Prop extends FlowInv c where
  table : TableInv c.ticks c.schedules c.claimed

/-! ### Ticks -/

lemma ControlInv.incumbent_id (h : ControlInv c) (hact : c.active = true) :
    (incumbent c).id = c.current :=
  h.table.id _ (h.current.resolve_right (h.active.mp hact))

/-- A current task that is ready or running is idle or can be compared with. -/
lemma ControlInv.incumbent_contender (h : ControlInv c) (hact : c.active = true)
    (hs : (incumbent c).state = .running ∨ (incumbent c).state = .ready) :
    c.current = taskIdIdle ∨ (c.current ∈ userSlots ∧ IsContender (incumbent c)) := by
  have hlt := h.current.resolve_right (h.active.mp hact)
  by_cases hidle : c.current = taskIdIdle
  · exact Or.inl hidle
  · have hu := userSlot_of_ne_idle hlt hidle
    exact Or.inr ⟨hu, (h.table.slots _ hu).active.mpr (by rw [← incumbent]; tauto), hs.symm⟩

/-- A task that is ready stays ready, and the current task stays behind it, through a tick. -/
lemma ControlInv.outranked_tick (h : ControlInv c) (hact : c.active = true)
    (hs : (incumbent c).state = .running ∨ (incumbent c).state = .ready) (ho : Outranked c) :
    Outranked (ticked c) := by
  obtain ⟨j, hj, hne, hready, hid, hkey⟩ := ho
  have htj : (ticked c).schedules j = tickTask (c.ticks + 1) (c.schedules j) :=
    tickSchedules_user hj
  obtain ⟨hsj, haj, hkj⟩ := tickTask_of_contender (n := c.ticks + 1) hready.contender
  refine ⟨j, hj, hne, ?_, ?_, ?_⟩
  · rw [htj]
    exact ⟨hsj.trans hready.1, haj⟩
  · rw [htj, tickTask_id]
    exact hid
  · rcases h.incumbent_contender hact hs with hidle | ⟨hu, hcont⟩
    · left
      rw [incumbent, show (ticked c).current = taskIdIdle from hidle,
        show (ticked c).schedules taskIdIdle = c.schedules taskIdIdle from
          tickSchedules_idle (n := c.ticks + 1)]
      exact h.table.id _ (by decide)
    · have hti : incumbent (ticked c) = tickTask (c.ticks + 1) (incumbent c) :=
        tickSchedules_user hu
      rw [hti, tickTask_id, htj, hkj, (tickTask_of_contender hcont).2.2]
      exact hkey

lemma ControlInv.incumbent_tick (h : ControlInv c) (hact : c.active = true)
    (hs : (incumbent c).state = .running ∨ (incumbent c).state = .ready) :
    (incumbent (ticked c)).state = (incumbent c).state := by
  have hlt := h.current.resolve_right (h.active.mp hact)
  rcases h.table.tick_state hlt (c.ticks + 1) with hst | ⟨hst, -, -, -⟩
  · exact hst
  · rw [← incumbent] at hst
    rcases hs with hs | hs <;> simp [hs] at hst

lemma ControlInv.ticked (h : ControlInv c)
    (hx : anyExhausts (c.ticks + 1) c.schedules userSlots = false) :
    ControlInv (Control.ticked c) where
  sources := h.sources
  current := h.current
  active := h.active
  started := h.started
  runs i hi hs := by
    rcases h.table.tick_state hi (c.ticks + 1) with hst | ⟨-, hst, -, -⟩
    · exact h.runs i hi (hst ▸ hs)
    · rw [show (Control.ticked c).schedules i = _ from rfl] at hs
      exact absurd (hst.symm.trans hs) (by decide)
  exits i hi hs := by
    rcases h.table.tick_state hi (c.ticks + 1) with hst | ⟨-, hst, -, -⟩
    · exact h.exits i hi (hst ▸ hs)
    · exact absurd (hst.symm.trans hs) (by decide)
  masked := h.masked
  runner hact hp := by
    have hr := h.runner hact hp
    rw [h.incumbent_tick hact (Or.inl hr)]
    exact hr
  request hsrc := by
    obtain ⟨hp, hex, hact, hs, ho⟩ := h.request hsrc
    exact ⟨hp, hex, hact, by rwa [h.incumbent_tick hact hs], h.outranked_tick hact hs ho⟩
  exclusion hex := by
    obtain ⟨hcur, hs, hp, hsrc, hact⟩ := h.exclusion hex
    exact ⟨hcur, by rwa [h.incumbent_tick hact (Or.inr hs)], hp, hsrc, hact⟩
  table := h.table.tick hx

/-- The probe of a tick finds a task that goes before the running one. -/
lemma probeHits_spec {schedules : ℕ → SchedTask} {current : ℕ}
    (hid : ∀ i < osTaskCount, (schedules i).id = i) (h : probeHits schedules current = true) :
    current ≠ taskIdInvalid ∧ (schedules current).state = .running ∧
      probeCandidate schedules ∈ userSlots ∧
      Urgent (schedules (probeCandidate schedules)) (schedules current) := by
  simp only [probeHits, Bool.and_eq_true, bne_iff_ne, ne_eq, beq_iff_eq] at h
  obtain ⟨⟨⟨⟨hcur, hs⟩, hinv⟩, hidle⟩, hout⟩ := h
  have hlt : probeCandidate schedules < osTaskCount :=
    osSchedSelect_lt (by decide) (by decide) hid hinv
  exact ⟨hcur, hs, userSlot_of_ne_idle hlt hidle, urgent_of_outranks hout⟩

lemma requestCause_sources {sources source : ℕ} (h : sources ≤ 3)
    (hs : source = preemptSourceSystick ∨ source = preemptSourceRuntimeCreate) :
    sources ||| source ≤ 3 ∧ sources ||| source ≠ 0 := by
  rcases sources_or h hs with h | h | h <;> rw [h] <;> decide

/-- The request that a tick makes. -/
lemma ControlInv.preempt (h : ControlInv c) (hmask : c.masked = false)
    (hit : probeHits c.schedules c.current = true) : ControlInv (Control.preempt c) := by
  obtain ⟨hcur, hrun, hu, hurgent⟩ := probeHits_spec h.table.id hit
  have hact := h.active.mpr hcur
  have hlt := h.current.resolve_right hcur
  have hincumbent : incumbent (Control.preempt c) = inState (incumbent c) .ready := by
    simp [incumbent, Control.preempt, setTask, request]
  have hother : ∀ i, i ≠ c.current → (Control.preempt c).schedules i = c.schedules i := fun i hi =>
    Function.update_of_ne hi _ _
  have hexcl : c.excluded = taskIdInvalid := by
    by_contra hex
    have := (h.exclusion hex).2.1
    rw [incumbent, hrun] at this
    cases this
  have hne : probeCandidate c.schedules ≠ c.current := fun heq => by
    have := hurgent.1.1
    rw [heq, hrun] at this
    cases this
  exact
    { sources := (requestCause_sources h.sources (Or.inl rfl)).1
      current := h.current
      active := h.active
      started := h.started
      runs := fun i hi hs => by
        by_cases hic : i = c.current
        · exact hic
        · exact h.runs i hi (by rwa [hother i hic] at hs)
      exits := fun i hi hs => by
        by_cases hic : i = c.current
        · exact hic
        · exact h.exits i hi (by rwa [hother i hic] at hs)
      masked := h.masked
      runner := fun _ hp => by
        rcases hp with ⟨hp, -⟩ | hm
        · cases hp
        · rw [show (Control.preempt c).masked = c.masked from rfl, hmask] at hm
          cases hm
      request := fun _ => by
        refine ⟨Or.inl rfl, hexcl, hact, Or.inr (by rw [hincumbent]; rfl), ?_⟩
        refine ⟨_, hu, hne, ?_⟩
        rw [hincumbent, hother _ hne]
        exact hurgent
      exclusion := fun hex => absurd hexcl hex
      table := h.table.setState hlt (Or.inr hrun) (Or.inl rfl) }

/-! ### Creation -/

/-- The flow does not depend on a dormant slot. -/
lemma FlowInv.setDormant (h : FlowInv c) {i : ℕ} {t : SchedTask} {claimed started : ℕ → Bool}
    (hd : (c.schedules i).state = .dormant) (hr : t.state ≠ .running) (he : t.state ≠ .exiting) :
    FlowInv { c with
      schedules := Function.update c.schedules i t, claimed := claimed, started := started } := by
  have hne : ∀ j, (c.schedules j).state ≠ .dormant →
      Function.update c.schedules i t j = c.schedules j := by
    intro j hj
    exact Function.update_of_ne (fun heq => hj (by rw [heq, hd])) _ _
  have hst : ∀ j, (Function.update c.schedules i t j).state = .running ∨
      (Function.update c.schedules i t j).state = .exiting →
        Function.update c.schedules i t j = c.schedules j := by
    intro j hj
    by_cases hji : j = i
    · subst hji
      simp only [Function.update_self] at hj
      tauto
    · simp [hji]
  exact
    { sources := h.sources
      current := h.current
      active := h.active
      started := h.started
      runs := fun j hj hs => h.runs j hj (hst j (Or.inl hs) ▸ hs)
      exits := fun j hj hs => h.exits j hj (hst j (Or.inr hs) ▸ hs)
      masked := h.masked
      runner := fun hact hp => by
        have hrun : (c.schedules c.current).state = .running := h.runner hact hp
        change (Function.update c.schedules i t c.current).state = _
        rwa [hne _ (by rw [hrun]; decide)]
      request := fun hsrc => by
        obtain ⟨hp, hex, hact, hs, j, hj, hjc, hu⟩ := h.request hsrc
        have hinc : Function.update c.schedules i t c.current = incumbent c :=
          hne c.current (by
            change (incumbent c).state ≠ _
            rcases hs with hs | hs <;> simp [hs])
        refine ⟨hp, hex, hact, ?_, j, hj, hjc, ?_⟩
        · change (Function.update c.schedules i t c.current).state = _ ∨
            (Function.update c.schedules i t c.current).state = _
          rwa [hinc]
        · change Urgent (Function.update c.schedules i t j)
            (Function.update c.schedules i t c.current)
          rwa [hinc, hne j (by rw [hu.1.1]; decide)]
      exclusion := fun hex => by
        obtain ⟨hcur, hs, hp, hsrc, hact⟩ := h.exclusion hex
        refine ⟨hcur, ?_, hp, hsrc, hact⟩
        change (Function.update c.schedules i t c.current).state = _
        have hs : (c.schedules c.current).state = .ready := hs
        rwa [hne _ (by rw [hs]; decide)] }

lemma ControlInv.cleared (h : ControlInv c) {i : ℕ} (hi : i ∈ userSlots)
    (hd : (c.schedules i).state = .dormant) : ControlInv (Control.cleared c i) :=
  ⟨h.toFlowInv.setDormant hd (by simp [osSchedTaskReset]) (by simp [osSchedTaskReset]),
    h.table.clear hi⟩

lemma ControlInv.filled (h : ControlInv c) {i : ℕ} {t : SchedTask} (hi : i ∈ userSlots)
    (hd : (c.schedules i).state = .dormant) (hid : t.id = i) (hslot : SlotInv c.ticks t)
    (ht : t.state = .ready ∨ t.state = .waitingRelease) : ControlInv (Control.filled c i t) := by
  refine ⟨h.toFlowInv.setDormant hd ?_ ?_, h.table.fill hi hid hslot ?_⟩
  all_goals rcases ht with ht | ht <;> simp [ht]

/-- The state a task is created in. -/
lemma configured_state {t t' : SchedTask} {config : TaskTimingConfig} {now : ℕ}
    (h : osSchedTaskConfigure t config now = (t', true)) :
    t'.state = .ready ∨ t'.state = .waitingRelease := by
  obtain ⟨-, -, -, rfl⟩ := osSchedTaskConfigure_eq_true h
  split
  · exact Or.inl rfl
  · exact Or.inr rfl

/-- The request that a creation makes. -/
lemma ControlInv.announced (h : ControlInv c) {i : ℕ} (hi : i ∈ userSlots)
    (hcaller : c.running = true → userCalls c) : ControlInv (Control.announced c i) := by
  rw [Control.announced]
  split
  · next hit =>
    simp only [createHits, Bool.and_eq_true, beq_iff_eq] at hit
    obtain ⟨⟨hrun, hready⟩, hout⟩ := hit
    obtain ⟨hmode, -, hlt, hstate, hact, -⟩ := hcaller hrun
    have hexcl : c.excluded = taskIdInvalid := by
      by_contra hex
      have := (h.exclusion hex).2.1
      rw [hstate] at this
      cases this
    have hne : i ≠ c.current := fun heq => by
      rw [incumbent, ← heq, hready] at hstate
      cases hstate
    exact
      { sources := (requestCause_sources h.sources (Or.inr rfl)).1
        current := h.current
        active := h.active
        started := h.started
        runs := h.runs
        exits := h.exits
        masked := h.masked
        runner := fun _ _ => hstate
        request := fun _ =>
          ⟨Or.inl rfl, hexcl, hact, Or.inl hstate, i, hi, hne, urgent_of_outranks hout⟩
        exclusion := fun hex => absurd hexcl hex
        table := h.table }
  · exact h

/-! ### Supervisor calls -/

/-- When a supervisor call is accepted, no switch is pending. -/
lemma FlowInv.calls (h : FlowInv c) (hcall : supervisorCalls c) :
    c.pendsv = false ∧ c.mode = .thread ∧ c.active = true ∧ c.sources = 0 ∧
      c.excluded = taskIdInvalid := by
  obtain ⟨⟨hmode, hpend⟩, hmask, hlt, -⟩ := hcall
  have hp : c.pendsv = false := by
    rw [← Bool.not_eq_true]
    intro hp
    rw [hpend hp] at hmask
    cases hmask
  have hcur := ne_invalid_of_lt hlt
  have hno : ¬(c.pendsv = true ∨ c.mode = .pendsvEntry) := by simp [hp, hmode]
  refine ⟨hp, hmode, h.active.mpr hcur, ?_, ?_⟩
  · by_contra hsrc
    exact hno (h.request hsrc).1
  · by_contra hex
    exact hno (h.exclusion hex).2.2.1

lemma ControlInv.called (h : ControlInv c) (hcall : supervisorCalls c) {cause excluded : ℕ}
    {t : SchedTask} (htable : TableInv c.ticks (Function.update c.schedules c.current t) c.claimed)
    (hex : excluded = taskIdInvalid ∨ (excluded = c.current ∧ t.state = .ready)) :
    ControlInv { Control.called c cause t with excluded := excluded } := by
  obtain ⟨hp, hmode, hact, hsrc, -⟩ := h.calls hcall
  have hmask : c.masked = false := hcall.2.1
  exact
    { sources := h.sources
      current := h.current
      active := h.active
      started := h.started
      runs := fun i hi hs => by
        by_cases hic : i = c.current
        · exact hic
        · refine h.runs i hi ?_
          rw [← hs]
          simp [Control.called, setTask, hic]
      exits := fun i hi hs => by
        by_cases hic : i = c.current
        · exact hic
        · refine h.exits i hi ?_
          rw [← hs]
          simp [Control.called, setTask, hic]
      masked := h.masked
      runner := fun _ hp => by
        rcases hp with ⟨hp, -⟩ | hm
        · cases hp
        · rw [show ({ Control.called c cause t with excluded := excluded } : Ctl).masked = c.masked
            from rfl, hmask] at hm
          cases hm
      request := fun hs => absurd hsrc hs
      exclusion := fun hne => by
        obtain ⟨rfl, hready⟩ := hex.resolve_left hne
        refine ⟨rfl, ?_, Or.inl rfl, hsrc, hact⟩
        simpa [incumbent, Control.called, setTask] using hready
      table := htable }

/-! ### The switch -/

lemma ControlInv.current_lt (h : ControlInv c) (hne : c.current ≠ taskIdInvalid) :
    c.current < osTaskCount :=
  h.current.resolve_right hne

/-- Idle never exits. -/
lemma ControlInv.exiting_user (h : ControlInv c) (hne : c.current ≠ taskIdInvalid)
    (hs : (incumbent c).state = .exiting) : c.current ∈ userSlots := by
  refine userSlot_of_ne_idle (h.current_lt hne) fun hidle => ?_
  rw [incumbent, hidle] at hs
  rcases h.table.idle.2 with hst | hst <;> simp [hst] at hs

lemma ControlInv.retired_table (h : ControlInv c) :
    TableInv c.ticks (retired c).schedules (retired c).claimed := by
  rw [retired]
  split_ifs with hne hrun hexit
  · exact h.table
  · exact h.table.setState (h.current_lt hne) (Or.inr hrun) (Or.inl rfl)
  · exact h.table.clear (h.exiting_user hne hexit)
  · exact h.table

lemma retired_other {j : ℕ} (hj : j ≠ c.current) : (retired c).schedules j = c.schedules j := by
  rw [retired]
  split_ifs <;> simp [setTask, Control.cleared, hj]

/-- With the outgoing task gone, nothing runs and nothing exits. -/
lemma ControlInv.retired_state (h : ControlInv c) {i : ℕ} (hi : i < osTaskCount) :
    ((retired c).schedules i).state ≠ .running ∧ ((retired c).schedules i).state ≠ .exiting := by
  by_cases hic : i = c.current
  · subst hic
    rw [retired, if_neg (ne_invalid_of_lt hi)]
    split_ifs with hrun hexit
    · simp [setTask]
    · simp [Control.cleared, osSchedTaskReset]
    · exact ⟨hrun, hexit⟩
  · rw [retired_other hic]
    exact ⟨fun hs => hic (h.runs i hi hs), fun hs => hic (h.exits i hi hs)⟩

/-- A current task that is ready or running stands in the table as before, but for its state. -/
lemma ControlInv.retired_incumbent (h : ControlInv c) (hact : c.active = true)
    (hs : (incumbent c).state = .running ∨ (incumbent c).state = .ready) :
    (retired c).schedules c.current = inState (incumbent c) .ready := by
  rw [retired, if_neg (h.active.mp hact)]
  rcases hs with hs | hs
  · rw [if_pos hs]
    simp [setTask]
  · rw [if_neg (by simp [hs]), if_neg (by simp [hs])]
    change incumbent c = _
    rw [inState, ← hs]

lemma ControlInv.resumed (h : ControlInv c) (hmode : c.mode = .pendsvEntry) (hrun : c.running = true)
    {n : ℕ} (hn : n < osTaskCount) (hready : ((retired c).schedules n).state = .ready) :
    ControlInv (Control.resumed (retired c) n) := by
  have hmask : c.masked = false := by
    rw [← Bool.not_eq_true]
    intro hm
    rw [h.masked hm] at hmode
    cases hmode
  have hne := ne_invalid_of_lt hn
  have hother : ∀ i, i ≠ n →
      (Control.resumed (retired c) n).schedules i = (retired c).schedules i := fun i hi =>
    Function.update_of_ne hi _ _
  exact
    { sources := by simp [Control.resumed]
      current := Or.inl hn
      active := by simp [Control.resumed, hne]
      started := fun _ => by simp [Control.resumed, hrun]
      runs := fun i hi hs => by
        by_cases hin : i = n
        · exact hin
        · rw [hother i hin] at hs
          exact absurd hs (h.retired_state hi).1
      exits := fun i hi hs => by
        by_cases hin : i = n
        · exact hin
        · rw [hother i hin] at hs
          exact absurd hs (h.retired_state hi).2
      masked := fun hm => by
        rw [show (Control.resumed (retired c) n).masked = c.masked by simp [Control.resumed],
          hmask] at hm
        cases hm
      runner := fun _ _ => by simp [incumbent, Control.resumed]
      request := fun hs => absurd rfl hs
      exclusion := fun hs => absurd rfl hs
      table := by
        have := h.retired_table.setState hn (Or.inl hready) (Or.inr rfl)
        simpa [Control.resumed] using this }

/-! ### The selection -/

lemma ControlInv.idle_ready (h : ControlInv c) :
    ((retired c).schedules taskIdIdle).state = .ready :=
  h.retired_table.idle.2.resolve_right (h.retired_state (by decide)).1

/-- **A switch always finds a task**, as `os_sched_select` describes. -/
lemma ControlInv.selected (h : ControlInv c) :
    Selected (retired c).schedules osTaskCount c.excluded (next (retired c)) := by
  have hsel := @osSchedSelect_selected (retired c).schedules c.excluded osTaskCount (by decide)
    (by decide) h.retired_table.id
  have hne : osSchedSelect (retired c).schedules osTaskCount c.excluded ≠ taskIdInvalid := by
    intro heq
    rw [heq] at hsel
    generalize hx : taskIdInvalid = x at hsel
    cases hsel with
    | best _ hlt => exact ne_invalid_of_lt hlt hx.symm
    | fallback _ hlt => exact ne_invalid_of_lt hlt hx.symm
    | idle => cases hx
    | none hidle => exact hidle h.idle_ready
  rw [next]
  simp only [retired_excluded]
  rwa [if_neg hne]

lemma Selected.lt {tasks : ℕ → SchedTask} {excluded r : ℕ}
    (hidle : (tasks taskIdIdle).state = .ready) (h : Selected tasks osTaskCount excluded r) :
    r < osTaskCount ∧ (tasks r).state = .ready := by
  cases h with
  | best _ hlt he => exact ⟨hlt, he.2.1⟩
  | fallback _ hlt hr => exact ⟨hlt, hr.1⟩
  | idle => exact ⟨by decide, hidle⟩
  | none hne => exact absurd hidle hne

lemma ControlInv.next_ready (h : ControlInv c) :
    next (retired c) < osTaskCount ∧ ((retired c).schedules (next (retired c))).state = .ready :=
  Selected.lt h.idle_ready h.selected

/-- **A switch that was requested finds another task.** -/
lemma ControlInv.next_ne_current (h : ControlInv c) (hsrc : c.sources ≠ 0) :
    next (retired c) ≠ c.current := by
  obtain ⟨-, hex, hact, hs, j, hj, hjc, hurgent⟩ := h.request hsrc
  have hsel := h.selected
  have hrj : (retired c).schedules j = c.schedules j := retired_other hjc
  have hrc := h.retired_incumbent hact hs
  obtain ⟨hj1, hj5⟩ := mem_userSlots.mp hj
  intro heq
  rw [heq, hex] at hsel
  generalize hx : c.current = x at hsel hrc
  cases hsel with
  | best h1 hlt _ hleast =>
    have hle := hleast j hj1 hj5 ⟨ne_invalid_of_lt hj5, hrj ▸ hurgent.1⟩
    rw [hrc, hrj] at hle
    rcases hurgent.2.2 with hidle | hkey
    · rw [h.incumbent_id hact] at hidle
      unfold taskIdIdle at hidle
      omega
    · exact absurd hle (not_le.mpr hkey)
  | fallback _ hlt => exact ne_invalid_of_lt hlt rfl
  | idle _ hno => exact hno j hj1 hj5 (hrj ▸ hurgent.1)
  | none hne => exact hne h.idle_ready

/-! ### Every step -/

/-- A running task that is not idle has an active job. -/
lemma ControlInv.incumbent_active (h : ControlInv c) (hcall : supervisorCalls c)
    (hidle : c.current ≠ taskIdIdle) : c.current ∈ userSlots ∧ (incumbent c).jobActive = true := by
  have hu := userSlot_of_ne_idle hcall.2.2.1 hidle
  exact ⟨hu, (h.table.slots _ hu).active.mpr (Or.inr (Or.inl hcall.2.2.2))⟩

/-- The table after a call that completes the job of the running task. -/
lemma ControlInv.finish_table (h : ControlInv c) (hcall : supervisorCalls c)
    (hidle : c.current ≠ taskIdIdle) {s : TaskState}
    (hs : s = .exiting ∨ (s = .waitingRelease ∧ (incumbent c).kind = .periodic)) :
    TableInv c.ticks (Function.update c.schedules c.current
      (inState (finishJob (osSchedRecordDeadlineMiss (incumbent c) c.ticks).1) s)) c.claimed := by
  obtain ⟨hu, ha⟩ := h.incumbent_active hcall hidle
  have hslot := h.table.slots _ hu
  have hrun : (c.schedules c.current).state = .running := hcall.2.2.2
  rw [show incumbent c = c.schedules c.current from rfl] at hs ha ⊢
  rw [hslot.recordDeadlineMiss ha]
  refine h.table.set hu (h.table.id _ hcall.2.2.1) (hslot.finishJob ha hs) ?_ (by simp [hrun])
  rcases hs with rfl | ⟨rfl, -⟩ <;> simp

/-- **The invariant is kept by every step of the control.** -/
theorem ControlInv.step (h : ControlInv c) (hstep : CtlStep c l c' bs) : ControlInv c' := by
  cases hstep with
  | quiet => exact h
  | memory => exact h
  | primask masked hex =>
    exact { h with
      masked := fun _ => hex.1
      runner := fun hact _ => by
        cases hp : c.pendsv with
        | false => exact h.runner hact (Or.inl ⟨hp, by simp [hex.1]⟩)
        | true => exact h.runner hact (Or.inr (hex.2 hp)) }
  | bootTick => exact h
  | tick _ _ _ hx _ => exact h.ticked hx
  | tickPreempt _ hmask _ hx hit =>
    simp only [tickHits, Bool.and_eq_true] at hit
    exact (h.ticked hx).preempt hmask hit.2
  | pendEnter hmode hp hmask =>
    exact { h with
      masked := fun hm => by rw [show _ = c.masked from rfl, hmask] at hm; cases hm
      runner := fun _ hq => by
        rcases hq with ⟨-, hq⟩ | hm
        · exact absurd rfl hq
        · rw [show _ = c.masked from rfl, hmask] at hm
          cases hm
      request := fun hsrc => ⟨Or.inr rfl, (h.request hsrc).2⟩
      exclusion := fun hex => by
        obtain ⟨hcur, hs, -, hrest⟩ := h.exclusion hex
        exact ⟨hcur, hs, Or.inr rfl, hrest⟩ }
  | pendCommit hmode hn hlt hready _ _ hrun _ => exact h.resumed hmode hrun hlt hready
  | pendReturn hmode =>
    have hpend : c.pendsv = true ∨ c.mode = .pendsvEntry → c.pendsv = true := by simp [hmode]
    exact { h with
      masked := fun _ => rfl
      runner := fun hact hq => h.runner hact (by
        rcases hq with ⟨hp, -⟩ | hm
        · exact Or.inl ⟨hp, by simp [hmode]⟩
        · exact Or.inr hm)
      request := fun hsrc => by
        obtain ⟨hp, hrest⟩ := h.request hsrc
        exact ⟨Or.inl (hpend hp), hrest⟩
      exclusion := fun hex => by
        obtain ⟨hcur, hs, hp, hrest⟩ := h.exclusion hex
        exact ⟨hcur, hs, Or.inl (hpend hp), hrest⟩ }
  | kernelStart _ hrun => exact { h with started := fun _ => rfl }
  | startSvc hex hmask hcur hact =>
    exact { h with
      runner := fun ha _ => by rw [show _ = c.active from rfl, hact] at ha; cases ha
      request := fun hsrc => ⟨Or.inl rfl, (h.request hsrc).2⟩
      exclusion := fun hx => by
        obtain ⟨hc, hs, -, hrest⟩ := h.exclusion hx
        exact ⟨hc, hs, Or.inl rfl, hrest⟩ }
  | createFails h1 hlt hd _ => exact h.cleared (mem_userSlots.mpr ⟨h1, hlt⟩) hd
  | @create config i t _ hcaller h1 hlt hd _ hconf =>
    have hi := mem_userSlots.mpr ⟨h1, hlt⟩
    have hid : t.id = i := by
      have := osSchedTaskConfigure_id (c.schedules i) c.ticks config.timing
      rw [hconf] at this
      exact this.trans (h.table.id i hlt)
    have hfilled := h.filled hi hd hid (slotInv_configure hconf) (configured_state hconf)
    refine hfilled.announced hi fun hrun => ?_
    obtain ⟨hmode, hr, hcur, hs, hact, hidle⟩ := hcaller hrun
    have hne : c.current ≠ i := fun heq => by
      rw [incumbent, heq, hd] at hs
      cases hs
    exact ⟨hmode, hr, hcur, by simpa [incumbent, Control.filled, hne] using hs, hact, hidle⟩
  | yield hcall =>
    exact h.called hcall (h.table.setState hcall.2.2.1 (Or.inr hcall.2.2.2) (Or.inl rfl))
      (Or.inr ⟨rfl, rfl⟩)
  | @sleep ticks t hcall hsleep =>
    obtain ⟨⟨hrun, ha, hpos, -, -⟩, rfl⟩ := osSchedSleep_eq_true.mp hsleep
    have hidle : c.current ≠ taskIdIdle := fun heq => by
      rw [incumbent, heq, h.table.idle.1] at ha
      cases ha
    obtain ⟨hu, -⟩ := h.incumbent_active hcall hidle
    have hslot := (h.table.slots _ hu).sleepUntil ha (Nat.lt_add_of_pos_right hpos)
    have htable := h.table.set (t := sleepUntil (incumbent c) (c.ticks + ticks)) hu
      (h.table.id _ hcall.2.2.1) hslot (by simp) (by rw [← incumbent, hrun]; decide)
    exact h.called hcall htable (Or.inl (h.calls hcall).2.2.2.2)
  | waitNextPeriod hcall hidle hwait =>
    obtain ⟨⟨hk, -, -⟩, rfl⟩ := osSchedWaitNextPeriod_eq_true.mp hwait
    exact h.called hcall (h.finish_table hcall hidle (Or.inr ⟨rfl, hk⟩))
      (Or.inl (h.calls hcall).2.2.2.2)
  | taskExit hcall hidle hexit =>
    obtain ⟨-, rfl⟩ := osSchedCompleteJob_eq_true.mp hexit
    exact h.called hcall (h.finish_table hcall hidle (Or.inl rfl))
      (Or.inl (h.calls hcall).2.2.2.2)

/-! ### Occupied slots -/

lemma called_state {cause i : ℕ} {t : SchedTask} (ht : t.state ≠ .dormant)
    (hi : (c.schedules i).state ≠ .dormant) :
    ((Control.called c cause t).schedules i).state ≠ .dormant := by
  by_cases hic : i = c.current
  · subst hic
    simpa [Control.called, setTask] using ht
  · simpa [Control.called, setTask, hic] using hi

lemma resumed_state {r : Ctl} {n i : ℕ} (hi : (r.schedules i).state ≠ .dormant) :
    ((Control.resumed r n).schedules i).state ≠ .dormant := by
  by_cases hin : i = n
  · subst hin
    simp [Control.resumed]
  · simpa [Control.resumed, hin] using hi

/-- **An occupied slot stays occupied**, unless the switch reclaims it from its exiting task. -/
lemma CtlStep.occupied (h : ControlInv c) (hstep : CtlStep c l c' bs) {i : ℕ} (hi : i ∈ userSlots)
    (hn : (c.schedules i).state ≠ .dormant) :
    (c'.schedules i).state ≠ .dormant ∨
      (l = .pendCommit ∧ i = c.current ∧ (incumbent c).state = .exiting) := by
  have htick : ((ticked c).schedules i).state ≠ .dormant := by
    rcases h.table.tick_state (mem_userSlots.mp hi).2 (c.ticks + 1) with hst | ⟨-, hst, -, -⟩
    · exact fun hd => hn (hst.symm.trans hd)
    · exact fun hd => absurd (hst.symm.trans hd) (by decide)
  cases hstep with
  | quiet => exact Or.inl hn
  | memory => exact Or.inl hn
  | primask => exact Or.inl hn
  | bootTick => exact Or.inl hn
  | tick => exact Or.inl htick
  | tickPreempt =>
    left
    by_cases hic : i = c.current
    · subst hic
      simp [Control.preempt, setTask, request, ticked]
    · simpa [Control.preempt, setTask, request, ticked, hic] using htick
  | pendEnter => exact Or.inl hn
  | pendCommit hmode _ hlt hready _ hact hrun _ =>
    by_cases hic : i = c.current
    · subst hic
      by_cases hexit : (incumbent c).state = .exiting
      · exact Or.inr ⟨rfl, rfl, hexit⟩
      · left
        refine resumed_state ?_
        rw [retired]
        split_ifs with hinv hr
        · exact hn
        · simp [setTask]
        · exact hn
    · left
      refine resumed_state ?_
      rwa [retired_other hic]
  | pendReturn => exact Or.inl hn
  | kernelStart => exact Or.inl hn
  | startSvc => exact Or.inl hn
  | @createFails config j h1 hlt hd _ =>
    left
    have hij : i ≠ j := fun heq => hn (heq ▸ hd)
    simpa [Control.cleared, hij] using hn
  | @create config j t _ _ h1 hlt hd _ hconf =>
    left
    have hij : i ≠ j := fun heq => hn (heq ▸ hd)
    rw [Control.announced]
    split_ifs <;> simpa [Control.filled, request, hij] using hn
  | yield => exact Or.inl (@called_state _ switchYield _ _ (by simp) hn)
  | sleep _ hsleep =>
    obtain ⟨-, rfl⟩ := osSchedSleep_eq_true.mp hsleep
    exact Or.inl (called_state (by simp) hn)
  | waitNextPeriod _ _ hwait =>
    obtain ⟨-, rfl⟩ := osSchedWaitNextPeriod_eq_true.mp hwait
    exact Or.inl (called_state (by simp) hn)
  | taskExit => exact Or.inl (called_state (by simp) hn)

/-- An exiting task waits for the switch that reclaims it. -/
lemma CtlStep.exiting (h : ControlInv c) (hstep : CtlStep c l c' bs) (hl : l ≠ .pendCommit)
    (hact : c.active = true) (hexit : (incumbent c).state = .exiting) :
    (c'.schedules c.current).state = .exiting := by
  have hlt := h.current.resolve_right (h.active.mp hact)
  have hnot : ¬supervisorCalls c := fun hcall => by
    rw [hcall.2.2.2] at hexit
    cases hexit
  have htick : ((ticked c).schedules c.current).state = .exiting := by
    rcases h.table.tick_state hlt (c.ticks + 1) with hst | ⟨hst, -, -, -⟩
    · exact hst.trans hexit
    · rw [← incumbent, hexit] at hst
      simp at hst
  cases hstep with
  | quiet => exact hexit
  | memory => exact hexit
  | primask => exact hexit
  | bootTick => exact hexit
  | tick => exact htick
  | tickPreempt _ _ _ hx hit =>
    simp only [tickHits, Bool.and_eq_true] at hit
    have hrun := (probeHits_spec (h.ticked hx).table.id hit.2).2.1
    rw [htick] at hrun
    cases hrun
  | pendEnter => exact hexit
  | pendCommit => exact absurd rfl hl
  | pendReturn => exact hexit
  | kernelStart => exact hexit
  | startSvc => exact hexit
  | @createFails config j h1 _ hd _ =>
    have hne : c.current ≠ j := fun heq => by
      rw [incumbent, heq, hd] at hexit
      cases hexit
    simpa [Control.cleared, hne, incumbent] using hexit
  | @create config j t _ _ h1 _ hd _ hconf =>
    have hne : c.current ≠ j := fun heq => by
      rw [incumbent, heq, hd] at hexit
      cases hexit
    rw [Control.announced]
    split_ifs <;> simpa [Control.filled, request, hne, incumbent] using hexit
  | yield hcall => exact absurd hcall hnot
  | sleep hcall => exact absurd hcall hnot
  | waitNextPeriod hcall => exact absurd hcall hnot
  | taskExit hcall => exact absurd hcall hnot

/-- A tick requests a switch only from a running task. -/
lemma CtlStep.tick_pendsv (h : ControlInv c) (hstep : CtlStep c .tick c' bs)
    (hact : c.active = false) : c'.pendsv = c.pendsv := by
  cases hstep with
  | quiet => rfl
  | memory => rfl
  | bootTick => rfl
  | tick => rfl
  | tickPreempt _ _ _ hx hit =>
    simp only [tickHits, Bool.and_eq_true] at hit
    have hne := (probeHits_spec (h.ticked hx).table.id hit.2).1
    exact absurd ((h.active.mpr hne).symm.trans hact) (by decide)

/-- Only a tick moves the clock. -/
lemma CtlStep.clock (hstep : CtlStep c l c' bs) :
    c'.ticks = c.ticks ∨ (l = .tick ∧ c'.ticks = c.ticks + 1) := by
  cases hstep
  case tick => exact Or.inr ⟨rfl, rfl⟩
  case tickPreempt => exact Or.inr ⟨rfl, rfl⟩
  case pendCommit => exact Or.inl (retired_ticks c)
  case create =>
    rw [Control.announced]
    split_ifs <;> exact Or.inl rfl
  all_goals exact Or.inl rfl

end Aymos.Control
