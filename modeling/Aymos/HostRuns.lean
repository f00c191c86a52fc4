import Aymos.HostStates
import Aymos.Scenario
import Aymos.Timeline

/-!
What a host reads off the trace of a run.

The fold of the trace keeps up with the kernel through every step: a step that is no switch by
its effect on each slot, a switch by its batches in order. On a run that lost no record the host
therefore knows the tasks, and the switches form a chain whose intervals tile the time.
-/

namespace Aymos.HostRuns

open Words Allocator Scheduler Trace Decoder Validate RoundTrip RingHistory WordMem Kernel Machine
  Handlers Frames Services Switch Slots Select Control Boot Ownership EmissionLog SlotSteps Timing
  Acceptance Snapshot Replay FoldAlong HostStates Timeline Scenario Stacks Safety Startup

variable {c c' : Ctl} {l : Label} {bs : List (List TraceInput)} {b : List TraceInput} {h : Host}
  {i : ℕ}

/-! ### The invariant -/

/-- **What the host knows** of the control. -/
structure Knows (h : Host) (c : Ctl) : Prop where
  running : h.running = optionalTask (traceTask c.current)
  idle : h.idle = true ↔ c.current = taskIdIdle
  slots : ∀ j ∈ h.ready, j ∈ userSlots
  tracks : ∀ i ∈ userSlots,
    Tracks (i = c.current) (c.schedules i).state (decide (i ∈ h.ready)) h.parked

lemma traceTask_of_lt {task : ℕ} (ht : task < osTaskCount) : traceTask task = task :=
  if_neg (ne_invalid_of_lt ht)

lemma traceTask_invalid : traceTask taskIdInvalid = traceTaskInvalid := rfl

lemma running_slot (hi : i ∈ userSlots) (hcur : c.current = i) :
    optionalTask (traceTask c.current) = some i := by
  rw [hcur, traceTask_of_lt (userSlot_lt hi)]
  exact optionalTask_of_lt (userSlot_lt hi)

/-! ### Steps that are no switch -/

/-- A record that such a step emits. -/
structure Plain (input : TraceInput) : Prop where
  valid : InputValid input
  event : (view input).event ≠ .contextSwitch ∧ (view input).event ≠ .idleStart ∧
    (view input).event ≠ .idleStop
  purpose : (view input).event = .taskSelect →
    (selectDetails (view input)).purpose ≠ some .dispatch
  slot : (view input).event ∈ [TraceEvent.taskRelease, .taskWake, .taskYield] →
    input.task = taskIdIdle ∨ input.task ∈ userSlots

lemma plain_record {e : TraceEvent}
    (he : e ∉ [TraceEvent.contextSwitch, .idleStart, .idleStop, .taskSelect])
    {task related v0 v1 v2 : ℕ} (hslot : e ∈ [TraceEvent.taskRelease, .taskWake, .taskYield] →
      task = taskIdIdle ∨ task ∈ userSlots) : Plain (record e task related v0 v1 v2) := by
  simp only [List.mem_cons, List.not_mem_nil, or_false, not_or] at he
  refine ⟨⟨eventValid_code e, rfl⟩, ?_, fun hs => ?_, fun hs => hslot ?_⟩
  · rw [view_event]
    exact ⟨he.1, he.2.1, he.2.2.1⟩
  · rw [view_event] at hs
    exact absurd hs he.2.2.2
  · rwa [view_event] at hs

/-- The records of a probe. -/
lemma plain_probe {tasks : ℕ → SchedTask} {selected incumbent : ℕ} {purpose : SelectPurpose}
    (hp : purpose ≠ .dispatch) {input : TraceInput} (hinput : input ∈ selectionInputs tasks
      osTaskCount selected incumbent taskIdInvalid purpose) : Plain input := by
  rw [selectionInputs_eq] at hinput
  rcases List.mem_cons.mp hinput with rfl | hinput
  · have hevent : (view (selectInput tasks selected incumbent taskIdInvalid purpose)).event =
      .taskSelect := view_event ..
    refine ⟨⟨rfl, rfl⟩, by simp [hevent], fun _ => ?_, fun hs => ?_⟩
    · rw [view, selectDetails_eq (Or.inl rfl)]
      exact fun heq => hp (Option.some.inj heq)
    · rw [hevent] at hs
      exact absurd hs (by decide)
  · obtain ⟨j, -, rfl⟩ := List.mem_map.mp hinput
    exact plain_record (e := .selectCandidate) (by decide) (fun hs => absurd hs (by decide))

/-- **The records of a step that is no switch.** -/
lemma plain_of_site (hsite : Site c l b) (hl : l ≠ .pendCommit) : ∀ input ∈ b, Plain input := by
  have hone : ∀ {r input : TraceInput}, Plain r → input ∈ [r] → Plain input := fun hr hi =>
    List.mem_singleton.mp hi ▸ hr
  have huser : ∀ {i}, i ∈ userSlots → i = taskIdIdle ∨ i ∈ userSlots := fun hi => Or.inr hi
  intro input hinput
  cases hsite with
  | memory _ hrec =>
    obtain ⟨event, task, related, v0, v1, v2, hev, rfl⟩ := hrec
    refine hone (plain_record ?_ ?_) hinput
    · rcases hev with rfl | rfl <;> decide
    · rcases hev with rfl | rfl <;> exact fun hs => absurd hs (by decide)
  | kernelStart => exact hone (plain_record (e := .kernelStart) (by decide) fun hs =>
      absurd hs (by decide)) hinput
  | miss hi => exact hone (plain_record (e := .deadlineMiss) (by decide) fun _ => huser hi) hinput
  | skip hi =>
    exact hone (plain_record (e := .taskReleaseSkipped) (by decide) fun _ => huser hi) hinput
  | release hi => exact hone (plain_record (e := .taskRelease) (by decide) fun _ => huser hi) hinput
  | wake hi => exact hone (plain_record (e := .taskWake) (by decide) fun _ => huser hi) hinput
  | tickProbe => exact plain_probe (by decide) hinput
  | create hcr =>
    exact hone (plain_record (e := .taskCreate) (by decide) fun _ => huser hcr.slot) hinput
  | createRelease hcr =>
    exact hone (plain_record (e := .taskRelease) (by decide) fun _ => huser hcr.slot) hinput
  | createProbe => exact plain_probe (by decide) hinput
  | yield hcall =>
    refine hone (plain_record (e := .taskYield) (by decide) fun _ => ?_) hinput
    by_cases hidle : c.current = taskIdIdle
    · exact Or.inl hidle
    · exact Or.inr (userSlot_of_ne_idle hcall.2.2.1 hidle)
  | sleep => exact hone (plain_record (e := .taskSleep) (by decide) fun hs =>
      absurd hs (by decide)) hinput
  | outcomeMiss => exact hone (plain_record (e := .deadlineMiss) (by decide) fun hs =>
      absurd hs (by decide)) hinput
  | outcomeMet => exact hone (plain_record (e := .deadlineMet) (by decide) fun hs =>
      absurd hs (by decide)) hinput
  | waitNextPeriod => exact hone (plain_record (e := .taskWaitPeriod) (by decide) fun hs =>
      absurd hs (by decide)) hinput
  | taskExit => exact hone (plain_record (e := .taskExit) (by decide) fun hs =>
      absurd hs (by decide)) hinput
  | _ => exact absurd rfl hl

lemma plain_of_step (hstep : CtlStep c l c' bs) (hl : l ≠ .pendCommit) :
    ∀ input ∈ bs.flatten, Plain input := fun input hinput => by
  obtain ⟨b, hb, hinput⟩ := List.mem_flatten.mp hinput
  exact plain_of_site (site_of_mem hstep b hb) hl input hinput

/-- Only a switch changes the current task. -/
lemma current_of_step (hstep : CtlStep c l c' bs) (hl : l ≠ .pendCommit) :
    c'.current = c.current := by
  cases hstep with
  | pendCommit => exact absurd rfl hl
  | create =>
    rw [announced]
    split <;> rfl
  | _ => rfl

variable {inputs inputs' : List TraceInput} {h' h'' : Host}

/-- Records that agree with a host, and the host after them. -/
structure Leads (h : Host) (inputs : List TraceInput) (h' : Host) : Prop where
  along : Along stepInput AgreesInput h inputs
  fold : inputs.foldl stepInput h = h'

lemma Leads.append (hleads : Leads h inputs h') (hmore : Leads h' inputs' h'') :
    Leads h (inputs ++ inputs') h'' := by
  refine ⟨along_append.mpr ⟨hleads.along, ?_⟩, ?_⟩
  · rw [hleads.fold]
    exact hmore.along
  · rw [List.foldl_append, hleads.fold]
    exact hmore.fold

lemma agrees_plain {input : TraceInput} (hp : Plain input) (h : Host) : AgreesInput h input where
  switch he := absurd he hp.event.1
  idleStart he := absurd he hp.event.2.1
  idleStop he := absurd he hp.event.2.2
  dispatch he hd := absurd hd (hp.purpose he)

/-- What plain records leave alone. -/
lemma plain_fold (hall : ∀ input ∈ inputs, Plain input) (hs : ∀ j ∈ h.ready, j ∈ userSlots) :
    (inputs.foldl stepInput h).running = h.running ∧ (inputs.foldl stepInput h).idle = h.idle ∧
      ∀ j ∈ (inputs.foldl stepInput h).ready, j ∈ userSlots := by
  induction inputs generalizing h with
  | nil => exact ⟨rfl, rfl, hs⟩
  | cons input inputs ih =>
    have hp := hall input List.mem_cons_self
    obtain ⟨h1, h2, h3⟩ := ih (fun r hr => hall r (List.mem_cons_of_mem _ hr))
      (slots_step hs hp.valid hp.slot hp.event.1)
    exact ⟨h1.trans (running_step hp.event.1), h2.trans (idle_step hp.event.2), h3⟩

/-- A slot that is not current does not depend on the mark. -/
lemma Tracks.other {current : Prop} {s : TaskState} {ready parked : Bool}
    (ht : Tracks current s ready parked) (hno : ¬current) (parked' : Bool) :
    Tracks current s ready parked' :=
  ⟨fun hc => absurd hc hno, ht.2⟩

/-- **The host keeps up with every step that is no switch.** -/
lemma Knows.step (hk : Knows h c) (hc : ControlInv c) (hstep : CtlStep c l c' bs)
    (hl : l ≠ .pendCommit) :
    Along stepInput AgreesInput h bs.flatten ∧ Knows (bs.flatten.foldl stepInput h) c' := by
  have hplain := plain_of_step hstep hl
  have hcurrent := current_of_step hstep hl
  obtain ⟨hrunning, hidle, hslots⟩ := plain_fold hplain hk.slots
  refine ⟨along_of_forall fun h r hr => agrees_plain (hplain r hr) h, ?_, ?_, hslots,
    fun i hi => ?_⟩
  · rw [hrunning, hcurrent]
    exact hk.running
  · rw [hidle, hcurrent]
    exact hk.idle
  · have hall : ∀ r ∈ bs.flatten, InputValid r ∧ (view r).event ≠ .contextSwitch := fun r hr =>
      ⟨(hplain r hr).valid, (hplain r hr).event.1⟩
    have hruns : (c.schedules i).state = .running → i = c.current := hc.runs i (userSlot_lt hi)
    have htracks := Tracks.step (hk.tracks i hi) (hc.table.slots i hi) hruns hl
      (slotStep_of_step hc hstep hi)
    rw [hcurrent, ready_fold hi hall]
    by_cases hcur : i = c.current
    · have hrun : h.running = some i := hk.running.trans (running_slot hi hcur.symm)
      rw [parked_fold hi hrun hall]
      exact htracks
    · exact Tracks.other htracks hcur _

/-! ### The switch -/

lemma Knows.eligible_slots (hk : Knows h c) (hc : ControlInv c) (hi : i ∈ h.eligible) :
    i ∈ userSlots := by
  rw [Host.eligible] at hi
  split at hi
  · exact hk.slots i hi
  · rcases Finset.mem_union.mp hi with hi | hi
    · exact hk.slots i hi
    · rw [hk.running, users, Finset.mem_erase, Option.mem_toFinset, Option.mem_def,
        optionalTask] at hi
      obtain ⟨hne, hi⟩ := hi
      split at hi
      · cases hi
      · next hinv =>
        rw [Option.some.injEq] at hi
        rw [← hi] at hne ⊢
        have hcur : c.current ≠ taskIdInvalid := fun heq => hinv (by rw [heq]; rfl)
        rw [traceTask_of_lt (hc.current_lt hcur)] at hne ⊢
        exact userSlot_of_ne_idle (hc.current_lt hcur) hne

/-- The task that runs as the host reckons it. -/
lemma Knows.running_iff (hk : Knows h c) (hc : ControlInv c) (hi : i ∈ userSlots) :
    h.running = some i ↔ c.current = i := by
  refine ⟨fun hrun => ?_, fun hcur => hk.running.trans (running_slot hi hcur)⟩
  rw [hk.running, optionalTask_eq_some hi] at hrun
  by_cases hinv : c.current = taskIdInvalid
  · rw [hinv, traceTask_invalid] at hrun
    have hlt := userSlot_lt hi
    rw [← hrun] at hlt
    exact absurd hlt (by decide)
  · rwa [traceTask_of_lt (hc.current_lt hinv)] at hrun

/-- **The ready tasks as the host reckons them.** -/
lemma Knows.eligible_iff (hk : Knows h c) (hc : ControlInv c) (hi : i ∈ userSlots) :
    i ∈ h.eligible ↔ (c.schedules i).state = .ready ∨ (c.schedules i).state = .running := by
  have htracks := hk.tracks i hi
  by_cases hcur : i = c.current
  · have hrun : h.running = some i := hk.running.trans (running_slot hi hcur.symm)
    rw [← htracks.1 hcur, Host.eligible]
    cases h.parked <;> simp [hrun, mem_users hi]
  · have hrun : ¬h.running = some i := fun hrun => hcur ((hk.running_iff hc hi).mp hrun).symm
    have hmem : i ∈ h.eligible ↔ i ∈ h.ready := by
      rw [Host.eligible]
      split
      · exact Iff.rfl
      · rw [Finset.mem_union, mem_users hi, or_iff_left hrun]
    rw [hmem, or_iff_left fun hs => hcur (hc.runs i (userSlot_lt hi) hs), ← htracks.2 hcur,
      decide_eq_true_eq]

/-- The tasks that are ready once the outgoing one has left. -/
lemma retired_ready (hc : ControlInv c) (hi : i ∈ userSlots) :
    ((retired c).schedules i).state = .ready ↔
      (c.schedules i).state = .ready ∨ (c.schedules i).state = .running := by
  by_cases hcur : i = c.current
  · have hinc : incumbent c = c.schedules i := by
      rw [hcur]
      rfl
    rw [retired, if_neg (hcur ▸ ne_invalid_of_lt (userSlot_lt hi)), hinc]
    split_ifs with hr hx
    · rw [← hcur, show (Control.setTask c i _).schedules i = _ from Function.update_self ..]
      exact iff_of_true rfl (Or.inr hr)
    · rw [← hcur, show (cleared c i).schedules i = _ from Function.update_self .., hx]
      exact iff_of_false (by simp [osSchedTaskReset]) (by simp)
    · exact (or_iff_left hr).symm
  · rw [retired_other hcur, or_iff_left fun hs => hcur (hc.runs i (userSlot_lt hi) hs)]

lemma Knows.mem_eligible (hk : Knows h c) (hc : ControlInv c) :
    i ∈ h.eligible ↔ i ∈ userSlots ∧ IsReady ((retired c).schedules i) := by
  by_cases hi : i ∈ userSlots
  · have hready : IsReady ((retired c).schedules i) ↔ ((retired c).schedules i).state = .ready :=
      ⟨fun hr => hr.1, fun hs => ⟨hs, (hc.retired_table.slots i hi).active.mpr (Or.inl hs)⟩⟩
    rw [hready, and_iff_right hi, retired_ready hc hi]
    exact hk.eligible_iff hc hi
  · exact iff_of_false (fun he => hi (hk.eligible_slots hc he)) fun he => hi he.1

lemma leads_aside (hall : ∀ r ∈ inputs, Aside (view r).event ∧ (view r).event ≠ .taskSelect) :
    Leads h inputs h := ⟨(along_aside hall).1, (along_aside hall).2⟩

lemma leads_record {e : TraceEvent} (he : Aside e ∧ e ≠ .taskSelect) {task related v0 v1 v2 : ℕ} :
    Leads h [record e task related v0 v1 v2] h :=
  leads_aside fun r hr => by
    rw [List.mem_singleton.mp hr, view_event]
    exact he

lemma leads_nil : Leads h [] h := ⟨trivial, rfl⟩

/-- The selection of a switch shows the tasks that the host takes to be ready. -/
lemma Knows.leads_selection (hk : Knows h c) (hc : ControlInv c) (selected : ℕ) :
    Leads h (selectionInputs (retired c).schedules osTaskCount selected c.current c.excluded
      .dispatch) h := by
  have hselect : (view (selectInput (retired c).schedules selected c.current c.excluded
    .dispatch)).event = .taskSelect := view_event ..
  have hrest : Leads h ((candidates (retired c).schedules c.current .dispatch).map
      (candidateInput (retired c).schedules selected c.current c.excluded)) h :=
    leads_aside fun r hr => by
      obtain ⟨j, -, rfl⟩ := List.mem_map.mp hr
      have hevent : (view (candidateInput (retired c).schedules selected c.current c.excluded
        j)).event = .selectCandidate := decodedInput_event ..
      rw [hevent]
      exact ⟨by decide, by decide⟩
  have haside : stepInput h (selectInput (retired c).schedules selected c.current c.excluded
      .dispatch) = h := hostStep_aside (by rw [hselect]; decide)
  rw [selectionInputs_eq]
  refine ⟨⟨⟨fun he => ?_, fun he => ?_, fun he => ?_, fun _ _ i => ?_⟩, ?_⟩, ?_⟩
  · rw [hselect] at he
    cases he
  · rw [hselect] at he
    cases he
  · rw [hselect] at he
    cases he
  · have hmask : (selectDetails (view (selectInput (retired c).schedules selected c.current
        c.excluded .dispatch))).readyMask = readyMask (retired c).schedules osTaskCount := rfl
    rw [hk.mem_eligible hc, hmask, readyMask_testBit, decide_eq_true_eq]
  · rw [haside]
    exact hrest.along
  · rw [List.foldl_cons, haside]
    exact hrest.fold

/-- The records of the idle task at a switch to `n`. -/
lemma leads_idle (hidle : h.idle = true ↔ c.current = taskIdIdle) (n : ℕ) :
    Leads h ((if c.current = taskIdIdle ∧ n ≠ taskIdIdle then
        [[record .idleStop taskIdIdle n 0 0 0]] else []) ++
      if n = taskIdIdle ∧ c.current ≠ taskIdIdle then
        [[record .idleStart taskIdIdle (traceTask c.current) 0 0 0]] else []).flatten
      { h with idle := decide (n = taskIdIdle) } := by
  have hsame : ∀ idle, h.idle = idle → { h with idle := idle } = h := fun idle hi => by
    rw [← hi]
  have hoff : c.current ≠ taskIdIdle → h.idle = false := fun hcur => by
    rw [← Bool.not_eq_true]
    exact fun hi => hcur (hidle.mp hi)
  by_cases hcur : c.current = taskIdIdle <;> by_cases hn : n = taskIdIdle
  · rw [if_neg fun hx => hx.2 hn, if_neg fun hx => hx.2 hcur,
      hsame _ ((hidle.mpr hcur).trans (decide_eq_true hn).symm)]
    exact leads_nil
  · rw [if_pos ⟨hcur, hn⟩, if_neg fun hx => hn hx.1, decide_eq_false hn]
    exact ⟨⟨⟨fun he => absurd he (view_event_ne (by decide)),
      fun he => absurd he (view_event_ne (by decide)), fun _ => hidle.mpr hcur,
      fun he => absurd he (view_event_ne (by decide))⟩, trivial⟩, rfl⟩
  · rw [if_neg fun hx => hcur hx.1, if_pos ⟨hn, hcur⟩, decide_eq_true hn]
    exact ⟨⟨⟨fun he => absurd he (view_event_ne (by decide)), fun _ => hoff hcur,
      fun he => absurd he (view_event_ne (by decide)),
      fun he => absurd he (view_event_ne (by decide))⟩, trivial⟩, rfl⟩
  · rw [if_neg fun hx => hcur hx.1, if_neg fun hx => hn hx.1,
      hsame _ ((hoff hcur).trans (decide_eq_false hn).symm)]
    exact leads_nil

/-- The record of the switch. -/
lemma leads_switch {n : ℕ} (hn : n < osTaskCount)
    (hrun : h.running = optionalTask (traceTask c.current))
    (hidle : h.idle = true ↔ n = taskIdIdle) (cause code : ℕ) :
    Leads h [record .contextSwitch (traceTask c.current) n cause code 0]
      { h with running := some n, ready := h.eligible \ {n}, parked := false } := by
  have hrelated : optionalTask n = some n := optionalTask_of_lt hn
  refine ⟨⟨⟨fun _ => ⟨?_, ?_, ?_⟩, fun he => absurd he (view_event_ne (by decide)),
    fun he => absurd he (view_event_ne (by decide)),
    fun he => absurd he (view_event_ne (by decide))⟩, trivial⟩, ?_⟩
  · rw [view_task, hrun]
  · rw [view_related, hrelated]
    rfl
  · rw [view_related, hrelated, Option.some.injEq]
    exact hidle
  · have hset : (some n).toFinset = {n} := rfl
    rw [List.foldl_cons, List.foldl_nil, stepInput, hostStep, view_event]
    simp only [view_related, hrelated, hset]

/-- The host after a switch to `n`. -/
def Host.switched (h : Host) (n : ℕ) : Host :=
  { running := some n, ready := h.eligible \ {n}, parked := false, idle := decide (n = taskIdIdle) }

/-- What the host knows after a switch. -/
lemma Knows.resumed (hk : Knows h c) (hc : ControlInv c) {n : ℕ} (hn : n < osTaskCount) :
    Knows (Host.switched h n) (resumed (retired c) n) where
  running := by
    rw [show (Control.resumed (retired c) n).current = n from rfl, traceTask_of_lt hn]
    exact (optionalTask_of_lt hn).symm
  idle := decide_eq_true_iff
  slots j hj := hk.eligible_slots hc (Finset.mem_sdiff.mp hj).1
  tracks i hi := by
    have hmem : i ∈ (Host.switched h n).ready ↔ i ∈ h.eligible ∧ i ≠ n := by
      rw [Host.switched, Finset.mem_sdiff, Finset.mem_singleton]
    refine ⟨fun hin => ?_, fun hin => ?_⟩
    · have hself : (Control.resumed (retired c) n).schedules n =
        inState ((retired c).schedules n) .running := Function.update_self ..
      have hrun : ((Control.resumed (retired c) n).schedules i).state = .running := by
        rw [show i = n from hin, hself]
        rfl
      exact iff_of_true (Bool.or_true _) (Or.inr hrun)
    · have hin : i ≠ n := hin
      have hstate : (Control.resumed (retired c) n).schedules i = (retired c).schedules i :=
        Function.update_of_ne hin _ _
      rw [hstate, decide_eq_true_eq, hmem, hk.mem_eligible hc, and_iff_left hin,
        and_iff_right hi]
      exact ⟨fun hr => hr.1, fun hs => ⟨hs, (hc.retired_table.slots i hi).active.mpr (Or.inl hs)⟩⟩

/-- **The host keeps up with every switch.** -/
lemma Knows.commit (hk : Knows h c) (hc : ControlInv c) (hstep : CtlStep c .pendCommit c' bs) :
    Along stepInput AgreesInput h bs.flatten ∧ Knows (bs.flatten.foldl stepInput h) c' := by
  have hcom := commit_inv hstep
  obtain ⟨freed, hfreed, rfl⟩ := hcom.batches
  obtain ⟨n, hn⟩ : ∃ n, n = next (retired c) := ⟨_, rfl⟩
  have hlt : n < osTaskCount := hn ▸ hcom.next_lt
  have hleads : Leads h (commitBatches c (retired c) freed).flatten (Host.switched h n) := by
    have hreclaim : Leads h freed.flatten h := by
      rcases hfreed with rfl | ⟨released, rfl⟩
      · exact leads_nil
      · rw [releaseBatches]
        split
        · exact leads_record (e := .ownerRelease) (by decide)
        · exact leads_nil
    have hpreempt : ∀ h, Leads h (if c.sources ≠ 0 then
        [[record .taskPreempt c.current n c.sources 0 0]] else []).flatten h := fun h => by
      split
      · exact leads_record (e := .taskPreempt) (by decide)
      · exact leads_nil
    have hswitch := @leads_switch c { h with idle := decide (n = taskIdIdle) } n hlt hk.running
      decide_eq_true_iff c.cause (outgoing c).code
    have hstart : ∀ h, Leads h (if n ≠ taskIdIdle ∧ (retired c).started n = false then
        [[deadlineRecord .taskStart n ((retired c).schedules n)]] else []).flatten h := fun h => by
      split
      · exact leads_record (e := .taskStart) (by decide)
      · exact leads_nil
    have hall := hreclaim.append ((((hk.leads_selection hc n).append
      (leads_idle hk.idle n)).append ((hpreempt _).append hswitch)).append (hstart _))
    rw [commitBatches, switchBatches, retired_excluded, retired_cause, ← hn]
    simp only [List.flatten_append, List.flatten_cons, List.flatten_nil, List.append_nil,
      List.append_assoc] at hall ⊢
    exact hall
  refine ⟨hleads.along, ?_⟩
  rw [hleads.fold, hcom.after, ← hn]
  exact hk.resumed hc hlt

/-! ### Runs -/

/-- The records of a log as the decoder shows them. -/
def shown (log : Log) : List DecodedRecord := (stampLog 0 log).map decoded

lemma shown_entries (log : Log) (tick : ℕ) (bs : List (List TraceInput)) :
    shown (log ++ entries tick bs) = shown log ++ decodedBatch tick log.length bs.flatten := by
  rw [shown, stampLog_append, List.map_append, Nat.zero_add, entries, stampLog_map]
  rfl

variable {img : Image} {P : KernelState → Label → Prop} {labels : List Label} {k : KernelState}
  {log : Log}

/-- **The host keeps up with every run.** -/
theorem knows_of_logged (h : Logged img P labels k log) :
    Along hostStep Agrees hostStart (shown log) ∧ Knows (host (shown log)) (ctl k) := by
  induction h with
  | @boot m ram pc hpc =>
    have hcurrent : (ctl (booted img m ram pc)).current = taskIdInvalid := rfl
    refine ⟨trivial, rfl, ?_, fun j hj => absurd hj (Finset.notMem_empty j), fun i hi => ?_⟩
    · rw [hcurrent]
      decide
    have hslot : (ctl (booted img m ram pc)).schedules i = osSchedTaskReset i :=
      @booted_slot i img hi m ram pc
    rw [hslot]
    refine ⟨fun hcur => ?_, fun _ => by simp [osSchedTaskReset, host, shown, stampLog, hostStart]⟩
    exact absurd (hcur.trans hcurrent) (ne_invalid_of_lt (userSlot_lt hi))
  | @step labels log k k' l bs hlog _ hs he ih =>
    have hc := hlog.reaches.control
    have hone : Along stepInput AgreesInput (host (shown log)) bs.flatten ∧
        Knows (bs.flatten.foldl stepInput (host (shown log))) (ctl k') := by
      by_cases hl : l = .pendCommit
      · subst hl
        exact ih.2.commit hc he.control
      · exact ih.2.step hc he.control hl
    have hhost : host (shown (log ++ entries k'.monotonicTicks bs)) =
        bs.flatten.foldl stepInput (host (shown log)) := by
      rw [shown_entries, host, List.foldl_append, fold_batch]
      rfl
    refine ⟨?_, hhost ▸ hone.2⟩
    rw [shown_entries, along_append]
    exact ⟨ih.1, (along_batch ..).mpr hone.1⟩

/-! ### The chain of switches -/

/-- **The switches of a trace that agrees with the host** take over from one another. -/
lemma chain_of_along {s : Host} {rs : List DecodedRecord} (h : Along hostStep Agrees s rs)
    (hsorted : rs.Pairwise fun r r' => r.tick ≤ r'.tick) :
    (switches rs).IsChain (fun r r' => r'.task = r.related ∧ r.tick ≤ r'.tick) ∧
      (∀ r ∈ (switches rs).head?, r.task = s.running) ∧
      ∀ r ∈ switches rs, r.related.isSome = true := by
  induction rs generalizing s with
  | nil => exact ⟨.nil, fun r hr => absurd hr (Option.not_mem_none r), fun r hr => absurd hr List.not_mem_nil⟩
  | cons r rs ih =>
    rw [List.pairwise_cons] at hsorted
    obtain ⟨hchain, hhead, hsome⟩ := ih h.2 hsorted.2
    by_cases he : r.event = .contextSwitch
    · obtain ⟨htask, hrelated, -⟩ := h.1.switch he
      have hcons : switches (r :: rs) = r :: switches rs := by simp [switches, he]
      have hrun : (hostStep s r).running = r.related := by rw [hostStep, he]
      rw [hcons]
      refine ⟨List.isChain_cons.mpr ⟨fun r' hr' => ⟨?_, ?_⟩, hchain⟩, fun r' hr' => ?_, ?_⟩
      · rw [hhead r' hr', hrun]
      · exact hsorted.1 r' (List.mem_filter.mp (List.mem_of_mem_head? hr')).1
      · obtain rfl := Option.some.inj hr'
        exact htask
      · intro r' hr'
        rcases List.mem_cons.mp hr' with rfl | hr'
        · exact hrelated
        · exact hsome r' hr'
    · have hcons : switches (r :: rs) = switches rs := by simp [switches, he]
      rw [hcons]
      refine ⟨hchain, fun r' hr' => ?_, hsome⟩
      rw [hhead r' hr', running_step he]

/-- The records of a log have its ticks. -/
lemma shown_ticks (log : Log) (n : ℕ) :
    ((stampLog n log).map decoded).map DecodedRecord.tick = log.map Prod.fst := by
  induction log generalizing n with
  | nil => rfl
  | cons e log ih => exact congrArg (_ :: ·) (ih (n + 1))

/-- **The switches of a run** form a chain. -/
lemma chained_of_logged (h : Logged img P labels k log) :
    Chained k.monotonicTicks (switches (shown log)) ∧
      ∀ r ∈ (switches (shown log)).head?, r.task = none := by
  have hticks := h.ticks
  have hsorted : (shown log).Pairwise fun r r' => r.tick ≤ r'.tick := by
    rw [← List.pairwise_map (f := DecodedRecord.tick), shown, shown_ticks, List.pairwise_map]
    exact hticks.1
  obtain ⟨hchain, hhead, hsome⟩ := chain_of_along (knows_of_logged h).1 hsorted
  refine ⟨⟨hsome, hchain, fun r hr => ?_⟩, hhead⟩
  have hr : r.tick ∈ (shown log).map DecodedRecord.tick :=
    List.mem_map_of_mem (List.mem_filter.mp hr).1
  rw [shown, shown_ticks] at hr
  obtain ⟨e, he, heq⟩ := List.mem_map.mp hr
  exact heq ▸ hticks.2 e he

/-- **What a host reads** off the trace of a kernel. -/
structure Reads (trace : DecodedTrace) (k : KernelState) : Prop where
  /-- Every record says what the host has reckoned from those before it. -/
  agrees : ∀ before r after, trace.records = before ++ r :: after → Agrees (host before) r
  running : (host trace.records).running = optionalTask (traceTask k.currentTask)
  idle : (host trace.records).idle = true ↔ k.currentTask = taskIdIdle
  eligible : ∀ i ∈ userSlots, i ∈ (host trace.records).eligible ↔
    (k.schedules i).state = .ready ∨ (k.schedules i).state = .running
  first : ∀ r ∈ (switches trace.records).head?, r.task = none
  chain : (switches trace.records).IsChain fun r r' => r'.task = r.related
  intervals : ∃ intervals, runningIntervals trace = .ok intervals ∧
    ∀ r ∈ (switches trace.records).head?, Tiles r.tick intervals trace.footer.finalTick

/-- **The trace determines the states of the tasks** on every run that lost no record, whenever
the trace is closed. -/
theorem host_reads (h : Reaches img P labels k) (hloss : k.traceRing.dropped = 0)
    {trace : DecodedTrace} (hrecords : trace.records = k.traceRing.records.map decoded)
    (hfinal : trace.footer.finalTick = k.monotonicTicks) : Reads trace k := by
  obtain ⟨log, hlog⟩ := Logged.of_reaches h
  have hshown : trace.records = shown log := by
    rw [hrecords, (hlog.recorded.lossless hloss).2.2.2, shown]
  obtain ⟨halong, hk⟩ := knows_of_logged hlog
  obtain ⟨hchained, hhead⟩ := chained_of_logged hlog
  rw [← hshown] at halong hk hchained hhead
  rw [← hfinal] at hchained
  refine ⟨along_iff.mp halong, hk.running, hk.idle, fun i hi => hk.eligible_iff h.control hi, hhead,
    hchained.chain.imp fun _ _ hr => hr.1, segments trace.footer.finalTick (switches trace.records), ?_, ?_⟩
  · exact intervalsFrom_ok none hchained fun p hp => by cases hp
  · intro r hr
    obtain ⟨rs, hrs⟩ := List.head?_eq_some_iff.mp hr
    rw [hrs] at hchained ⊢
    exact tiles_segments hchained

/-- The trace of a boot and the dispatch of a task. -/
theorem host_reads_launched : ∃ labels k trace, Reaches sampleImage Disciplined labels k ∧
    k.currentTask = 1 ∧ k.traceRing.dropped = 0 ∧
    trace.records = k.traceRing.records.map decoded ∧ Reads trace k := by
  obtain ⟨labels, k, hlog, hctl, -⟩ := stage_launched (oneShot 0 5) (by decide) (by decide)
  have hloss : k.traceRing.dropped = 0 := hlog.lossless (by decide)
  obtain ⟨trace, hrecords, hfinal⟩ : ∃ trace : DecodedTrace,
      trace.records = k.traceRing.records.map decoded ∧
        trace.footer.finalTick = k.monotonicTicks :=
    ⟨{ footer := ⟨0, 0, 0, 0, 0, k.monotonicTicks⟩
       records := k.traceRing.records.map decoded
       rawRecords := [] }, rfl, rfl⟩
  exact ⟨labels, k, trace, hlog.reaches, congrArg Ctl.current hctl, hloss, hrecords,
    host_reads hlog.reaches hloss hrecords hfinal⟩

end Aymos.HostRuns
