import Aymos.Replay
import Aymos.Timing
import Aymos.Scenario

/-!
The selections of the kernel, replayed by the decoder.

A dispatch and the probe of a tick name the task that `os_sched_select` finds, which is the least of
the candidates they list, so that the decoder accepts their batches.
-/

namespace Aymos.Selections

open Words Allocator Scheduler Trace WordMem Kernel Machine Handlers Frames Services Switch Slots
  Select Control Boot Ownership EmissionLog Safety Startup SlotSteps Timing RingHistory Decoder
  RoundTrip Validate Scenario Acceptance Snapshot Replay

variable {c c' : Ctl} {l : Label} {bs : List (List TraceInput)} {i : ℕ}

/-! ### The tables that are selected from -/

/-- A control whose slots fit in the records. -/
structure Fitting (c : Ctl) : Prop where
  inv : ControlInv c
  slots : ∀ i ∈ userSlots, Recordable (c.schedules i)

lemma fits_of {tasks : ℕ → SchedTask} (hid : ∀ i < osTaskCount, (tasks i).id = i)
    (hr : ∀ i ∈ userSlots, Recordable (tasks i)) : Fits tasks :=
  ⟨hid, fun i hi => (hr i hi).priority, fun i hi => (hr i hi).deadline⟩

lemma fitting_of_reaches {img : Image} {P : KernelState → Label → Prop} {labels : List Label}
    {k : KernelState} (h : Reaches img P labels k) : Fitting (ctl k) :=
  ⟨h.control, fun _ hi => recordable_of_reaches h hi⟩

lemma Fitting.retired_slots (h : Fitting c) :
    ∀ i ∈ userSlots, Recordable ((retired c).schedules i) := by
  intro i hi
  by_cases hic : i = c.current
  · subst hic
    rw [Control.retired, if_neg (ne_invalid_of_lt (mem_userSlots.mp hi).2)]
    split_ifs
    · rw [show (Control.setTask c c.current _).schedules c.current = _ from
        Function.update_self ..]
      exact (h.slots _ hi).inState _
    · rw [show (cleared c c.current).schedules c.current = _ from Function.update_self ..]
      exact recordable_reset _
    · exact h.slots _ hi
  · rw [retired_other hic]
    exact h.slots i hi

lemma Fitting.retired (h : Fitting c) : Fits (retired c).schedules :=
  fits_of h.inv.retired_table.id h.retired_slots

lemma Fitting.ticked (h : Fitting c) (hx : anyExhausts (c.ticks + 1) c.schedules userSlots = false) :
    Fits (ticked c).schedules := by
  refine fits_of (h.inv.table.tick hx).id fun i hi => ?_
  rw [show (Control.ticked c).schedules i = tickTask (c.ticks + 1) (c.schedules i) from
    tickSchedules_user hi]
  exact (h.slots i hi).tick (h.inv.table.slots i hi) (tickExhausts_of_any hi hx)

lemma Fitting.filled (h : Fitting c) {config : TaskConfig} {t : SchedTask} (hi : i ∈ userSlots)
    (hconf : osSchedTaskConfigure (c.schedules i) config.timing c.ticks = (t, true)) :
    Fits (filled c i t).schedules := by
  have hid : t.id = i := by
    have hid := osSchedTaskConfigure_id (c.schedules i) c.ticks config.timing
    rw [hconf] at hid
    exact hid.trans (h.inv.table.id i (mem_userSlots.mp hi).2)
  refine fits_of (fun j hj => ?_) fun j hj => ?_
  · by_cases hji : j = i
    · subst hji
      rw [show (Control.filled c j t).schedules j = t from Function.update_self ..]
      exact hid
    · rw [show (Control.filled c i t).schedules j = c.schedules j from
        Function.update_of_ne hji _ _]
      exact h.inv.table.id j hj
  · by_cases hji : j = i
    · subst hji
      rw [show (Control.filled c j t).schedules j = t from Function.update_self ..]
      exact recordable_configure hconf
    · rw [show (Control.filled c i t).schedules j = c.schedules j from
        Function.update_of_ne hji _ _]
      exact h.slots j hj

/-! ### The dispatch -/

/-- Idle is not excluded. -/
def IdleStays (c : Ctl) : Prop := c.excluded ≠ taskIdIdle

lemma IdleStays.step (h : IdleStays c) (hstep : CtlStep c l c' bs)
    (hyield : l = .yield → c.current ≠ taskIdIdle) : IdleStays c' := by
  cases hstep with
  | pendCommit => exact (by decide : taskIdInvalid ≠ taskIdIdle)
  | create =>
    rw [announced]
    split <;> exact h
  | yield => exact hyield rfl
  | _ => exact h

lemma excludable (h : ControlInv c) (hidle : IdleStays c) : Excludable c.excluded := by
  by_cases hex : c.excluded = taskIdInvalid
  · exact Or.inl hex
  · obtain ⟨hcur, -, -, -, hact⟩ := h.exclusion hex
    rw [hcur]
    exact Or.inr (userSlot_of_ne_idle (h.current.resolve_right (h.active.mp hact))
      fun h0 => hidle (hcur.trans h0))

lemma dispatch_batch (h : Fitting c) (hidle : IdleStays c) :
    Batch (retired c).schedules (next (retired c)) c.current c.excluded .dispatch where
  fits := h.retired
  selected_lt := h.inv.next_ready.1
  incumbent_lt := h.inv.current
  excludable := excludable h.inv hidle
  probe hp := absurd rfl hp

/-- The candidates of a dispatch are the ready tasks. -/
lemma mem_dispatch {tasks : ℕ → SchedTask} {incumbent : ℕ} :
    i ∈ candidates tasks incumbent .dispatch ↔ i ∈ userSlots ∧ IsReady (tasks i) := by
  rw [mem_candidates]
  simp

/-- **A dispatch names its least candidate**, unless it falls back on the task that yields or finds
none at all. -/
lemma dispatch_wins (h : ControlInv c) (hidle : IdleStays c) :
    Wins (retired c).schedules (next (retired c)) c.current c.excluded .dispatch := by
  have hsel := h.selected
  generalize next (retired c) = n at hsel
  have hel : ∀ j, j ∈ eligible (retired c).schedules c.current c.excluded .dispatch ↔
      1 ≤ j ∧ j < osTaskCount ∧ Eligible (retired c).schedules c.excluded j := fun j => by
    rw [mem_eligible, mem_dispatch, mem_userSlots, Eligible]
    tauto
  cases hsel with
  | best h1 hlt he hleast =>
    refine .least ((hel n).mpr ⟨h1, hlt, he⟩) fun j hj => ?_
    obtain ⟨hj1, hjlt, hje⟩ := (hel j).mp hj
    exact hleast j hj1 hjlt hje
  | fallback h1 hlt hr hno =>
    refine .fallback rfl (mem_dispatch.mpr ⟨mem_userSlots.mpr ⟨h1, hlt⟩, hr⟩) ?_
    refine List.eq_nil_iff_forall_not_mem.mpr fun j hj => ?_
    obtain ⟨hj1, hjlt, hje⟩ := (hel j).mp hj
    exact hno j hj1 hjlt hje
  | idle _ hno =>
    refine .idle rfl rfl ?_ ?_
    · by_contra hex
      obtain ⟨hcur, hs, -, -, hact⟩ := h.exclusion hex
      have hu := (excludable h hidle).resolve_left hex
      rw [hcur] at hu
      obtain ⟨h1, hlt⟩ := mem_userSlots.mp hu
      have hr := h.retired_incumbent hact (Or.inr hs)
      refine hno c.current h1 hlt ⟨by rw [hr]; rfl, ?_⟩
      rw [hr, inState_jobActive]
      exact (h.table.slots _ hu).active.mpr (Or.inl hs)
    · refine List.eq_nil_iff_forall_not_mem.mpr fun j hj => ?_
      obtain ⟨hu, hr⟩ := mem_dispatch.mp hj
      obtain ⟨h1, hlt⟩ := mem_userSlots.mp hu
      exact hno j h1 hlt hr
  | none hne => exact absurd h.idle_ready hne

/-! ### The probe of a tick -/

/-- A running task that a probe is made against. -/
lemma probed {tasks : ℕ → SchedTask} {current now : ℕ} {claimed : ℕ → Bool}
    (h : TableInv now tasks claimed) (hlt : current < osTaskCount)
    (hrun : (tasks current).state = .running) : Probed tasks current := by
  by_cases hidle : current = taskIdIdle
  · exact Or.inl hidle
  · have hu := userSlot_of_ne_idle hlt hidle
    exact Or.inr ⟨hu, hrun, (h.slots _ hu).active.mpr (Or.inr (Or.inl hrun))⟩

/-- Nothing is excluded from a probe. -/
lemma mem_probe {tasks : ℕ → SchedTask} {incumbent : ℕ} {purpose : SelectPurpose} :
    i ∈ eligible tasks incumbent taskIdInvalid purpose ↔ i ∈ candidates tasks incumbent purpose := by
  rw [mem_eligible]
  exact and_iff_left_of_imp fun hi => ne_invalid_of_lt (mem_userSlots.mp (candidate_active hi).1).2

/-- A probe that names a ready task which goes before the running one. -/
lemma probe_batch {tasks : ℕ → SchedTask} {current selected now : ℕ} {claimed : ℕ → Bool}
    {purpose : SelectPurpose} (hfits : Fits tasks) (h : TableInv now tasks claimed)
    (hlt : current < osTaskCount) (hrun : (tasks current).state = .running) (hs : selected ∈ userSlots)
    (hr : IsReady (tasks selected)) : Batch tasks selected current taskIdInvalid purpose where
  fits := hfits
  selected_lt := (mem_userSlots.mp hs).2
  incumbent_lt := Or.inl hlt
  excludable := Or.inl rfl
  probe _ := by
    refine ⟨rfl, probed h hlt hrun, mem_candidates.mpr ⟨hs, Or.inl hr⟩, fun heq => ?_⟩
    have hst := hr.1
    rw [heq, hrun] at hst
    cases hst

/-- **The probe of a tick names its least candidate.** -/
lemma tickProbe_wins (h : Fitting c)
    (hx : anyExhausts (c.ticks + 1) c.schedules userSlots = false) (hit : tickHits c = true) :
    Batch (ticked c).schedules (probeCandidate (ticked c).schedules) c.current taskIdInvalid
        .systickProbe ∧
      Wins (ticked c).schedules (probeCandidate (ticked c).schedules) c.current taskIdInvalid
        .systickProbe := by
  simp only [tickHits, Bool.and_eq_true] at hit
  have hinv := h.inv.ticked hx
  obtain ⟨hcur, hrun, hs, hurgent⟩ := probeHits_spec hinv.table.id hit.2
  have hlt := hinv.current.resolve_right hcur
  have hsel := @osSchedSelect_selected _ taskIdInvalid osTaskCount (by decide)
    (by decide) hinv.table.id
  change Selected _ _ _ (probeCandidate (ticked c).schedules) at hsel
  generalize probeCandidate (ticked c).schedules = n at hs hurgent hsel
  refine ⟨probe_batch (h.ticked hx) hinv.table hlt hrun hs hurgent.1, ?_⟩
  refine .least (mem_probe.mpr (mem_candidates.mpr ⟨hs, Or.inl hurgent.1⟩)) fun j hj => ?_
  obtain ⟨hu, hr | ⟨rfl, -, ha, -⟩⟩ := mem_candidates.mp (mem_probe.mp hj)
  · obtain ⟨h1, hj5⟩ := mem_userSlots.mp hu
    cases hsel with
    | best _ _ _ hleast => exact hleast j h1 hj5 ⟨ne_invalid_of_lt hj5, hr⟩
    | fallback _ hlt => exact absurd rfl (ne_invalid_of_lt hlt)
    | idle _ hno => exact absurd hr (hno j h1 hj5)
    | none _ hno => exact absurd hr (hno j h1 hj5)
  · have hid := hinv.table.id _ hlt
    have hne : c.current ≠ taskIdIdle := userSlot_ne_zero hu
    exact (hurgent.2.2.resolve_left fun h0 => hne (hid.symm.trans h0)).le

/-! ### Dispatches and ticks, replayed -/

variable {img : Image} {P : KernelState → Label → Prop} {labels : List Label} {k k' : KernelState}

/-- A step in which idle does not yield. -/
def IdleNeverYields (k : KernelState) (l : Label) : Prop :=
  l = .yield → k.currentTask ≠ taskIdIdle

lemma idleStays_of_reaches (h : Reaches img IdleNeverYields labels k) : IdleStays (ctl k) := by
  refine h.induction (Q := fun _ k => IdleStays (ctl k))
    (fun m ram pc _ => (by decide : taskIdInvalid ≠ taskIdIdle)) ?_
  intro labels k l k' hr ih hyield hs
  obtain ⟨bs, hctl, -⟩ := control_step img (ControlInv.wellIndexed hr.control) hs
  exact ih.step hctl hyield

/-- The table that a step selects from. -/
def selectedFrom (c : Ctl) : Label → ℕ → SchedTask
  | .tick => (ticked c).schedules
  | _ => (retired c).schedules

/-- What a selection of a dispatch or of a tick's probe is to list. -/
def Listed (c : Ctl) (l : Label) (i : ℕ) : Prop :=
  i ∈ userSlots ∧ (IsReady (selectedFrom c l i) ∨
    (l = .tick ∧ i = c.current ∧ (selectedFrom c l i).state = .running ∧
      (selectedFrom c l i).jobActive = true))

/-- A batch that lists the tasks it has to, each once, and that the decoder accepts. -/
structure Replays (listed : ℕ → Prop) (b : List TraceInput) : Prop where
  length : b.length ≤ 5
  nodup : (b.tail.map (·.task)).Nodup
  lists : ∀ i, i ∈ b.tail.map (·.task) ↔ listed i
  snapshots : ∀ tick sequence, validateSelectionSnapshots (decodedBatch tick sequence b) = .ok ()
  payloads : ∀ tick sequence, ∀ d ∈ decodedBatch tick sequence b, Accepted d

lemma replays_of_wins {tasks : ℕ → SchedTask} {selected incumbent excluded : ℕ}
    {purpose : SelectPurpose} {listed : ℕ → Prop}
    (hb : Batch tasks selected incumbent excluded purpose)
    (hw : Wins tasks selected incumbent excluded purpose)
    (hl : ∀ i, i ∈ candidates tasks incumbent purpose ↔ listed i) :
    Replays listed (selectionInputs tasks osTaskCount selected incumbent excluded purpose) := by
  have hmap : (selectionInputs tasks osTaskCount selected incumbent excluded purpose).tail.map
      (·.task) = candidates tasks incumbent purpose := by
    rw [selectionInputs_eq, List.tail_cons, List.map_map]
    exact List.map_id _
  refine ⟨?_, ?_, fun i => ?_, fun tick sequence => ?_, fun tick sequence => ?_⟩
  · rw [selectionInputs_eq, List.length_cons, List.length_map]
    exact Nat.succ_le_succ candidates_length_le
  · rw [hmap]
    exact candidates_nodup
  · rw [hmap]
    exact hl i
  · exact (batch_accepted hb hw).1
  · exact (batch_accepted hb hw).2

/-- The selections of a commit and of a tick. -/
lemma selection_site {b : List TraceInput} (h : Site c l b) (hl : l = .pendCommit ∨ l = .tick)
    (hsel : ∃ input ∈ b, input.event = TraceEvent.taskSelect.code) :
    (l = .pendCommit ∧ b = selectionInputs (retired c).schedules osTaskCount (next (retired c))
      c.current c.excluded .dispatch) ∨
    (l = .tick ∧ tickHits c = true ∧ b = selectionInputs (ticked c).schedules osTaskCount
      (probeCandidate (ticked c).schedules) c.current taskIdInvalid .systickProbe) := by
  obtain ⟨input, hi, he⟩ := hsel
  cases h with
  | dispatch => exact Or.inl ⟨rfl, rfl⟩
  | tickProbe hhit => exact Or.inr ⟨rfl, hhit, rfl⟩
  | memory _ hrec =>
    obtain ⟨event, task, related, v0, v1, v2, hev, rfl⟩ := hrec
    rw [List.mem_singleton.mp hi] at he
    rcases hev with rfl | rfl <;> cases he
  | createProbe => rcases hl with hl | hl <;> cases hl
  | _ =>
    rw [List.mem_singleton.mp hi] at he
    cases he

/-- **Dispatch and tick selections always replay**, in every run in which idle never yields. -/
theorem selections_replay (h : Reaches img IdleNeverYields labels k) {b : List TraceInput}
    (he : Emitted k l k' bs) (hl : l = .pendCommit ∨ l = .tick) (hb : b ∈ bs)
    (hsel : ∃ input ∈ b, input.event = TraceEvent.taskSelect.code) :
    Replays (Listed (ctl k) l) b := by
  have hfit := fitting_of_reaches h
  have hidle := idleStays_of_reaches h
  rcases selection_site (site_of_mem he.control b hb) hl hsel with ⟨rfl, rfl⟩ | ⟨rfl, hhit, rfl⟩
  · refine replays_of_wins (dispatch_batch hfit hidle) (dispatch_wins hfit.inv hidle) fun i => ?_
    rw [mem_dispatch, Listed]
    simp [selectedFrom]
  · have hx : anyExhausts ((ctl k).ticks + 1) (ctl k).schedules userSlots = false := by
      have hctl := he.control
      generalize ctl k' = c' at hctl
      cases hctl with
      | quiet hq => cases hq
      | memory hq => cases hq
      | bootTick => exact absurd hb List.not_mem_nil
      | tick _ _ _ hx => exact hx
      | tickPreempt _ _ _ hx => exact hx
    obtain ⟨hbatch, hwins⟩ := tickProbe_wins hfit hx hhit
    refine replays_of_wins hbatch hwins fun i => ?_
    rw [mem_candidates, Listed, selectedFrom]
    simp

/-- The control that is about to dispatch the only task. -/
def aboutToDispatch : Ctl := startedCtl (soloCtl (oneShot 0 10))

lemma idleNeverYields_of_disciplined {log : Log} (h : Logged img Disciplined labels k log) :
    Logged img IdleNeverYields labels k log :=
  h.mono fun _ _ _ hd hl => by
    subst hl
    exact hd.1.2

/-- The first dispatch of a run with one task. -/
theorem selections_replay_first : ∃ labels k k' bs b, Reaches sampleImage IdleNeverYields labels k ∧
    Step sampleImage k .pendCommit k' ∧ Emitted k .pendCommit k' bs ∧ b ∈ bs ∧
      Replays (Listed (ctl k) .pendCommit) b := by
  have hsolo := stage_solo (oneShot 0 10) (by decide) (by decide)
  have hstart := hsolo.go (.kernelStart ⟨rfl, fun h => nomatch h⟩ rfl rfl)
  have hsvc := hstart.pass (.startSvc ⟨rfl, fun h => nomatch h⟩ rfl rfl rfl)
  have hentry : Stage aboutToDispatch _ := hsvc.pass (.pendEnter rfl rfl rfl)
  obtain ⟨labels, k, hr, hctl, -⟩ := hentry
  have hinv := safeInv_of_reaches hr.reaches
  have hm : k.mode = .pendsvEntry := congrArg Ctl.mode hctl
  have hen : enabled sampleImage k .pendCommit = true := by simp [enabled, hm]
  obtain ⟨k', hexec, -⟩ := hinv.progress hen trivial
  obtain ⟨bs, he⟩ := emitted_of_step hinv.control ⟨hen, hexec⟩
  obtain ⟨freed, -, hbs⟩ := he.commit rfl
  have hb : selectionInputs (retired (ctl k)).schedules osTaskCount (next (retired (ctl k)))
      (ctl k).current (retired (ctl k)).excluded .dispatch ∈ bs := by
    rw [hbs, commitBatches]
    simp
  have hreaches := (idleNeverYields_of_disciplined hr).reaches
  exact ⟨labels, k, k', bs, _, hreaches, ⟨hen, hexec⟩, he, hb,
    selections_replay hreaches he (Or.inl rfl) hb ⟨_, List.mem_cons_self, rfl⟩⟩

/-! ### The probe of a creation -/

/-- The key of a task that is created at once. -/
def createdKey (now i : ℕ) (timing : TaskTimingConfig) : ℕ ×ₗ ℕ ×ₗ ℕ :=
  toLex (now + timing.relativeDeadlineTicks, toLex (timing.priority.toNat, i))

/-- A batch that names its least candidate as selected, and that the decoder accepts. -/
structure Consistent (b : List TraceInput) : Prop where
  least : ∀ tick sequence, ∃ d ds, decodedBatch tick sequence b = d :: ds ∧
    ∃ c ∈ ds.map candidateDetails, c.task = d.task ∧ ∀ c' ∈ ds.map candidateDetails, KeyLe c c'
  snapshots : ∀ tick sequence, validateSelectionSnapshots (decodedBatch tick sequence b) = .ok ()

/-- The key of a task as it is created. -/
lemma created_key {t t' : SchedTask} {config : TaskTimingConfig} {now : ℕ} (hid : t.id = i)
    (h : osSchedTaskConfigure t config now = (t', true)) (hr : t'.state = .ready) :
    key t' = createdKey now i config := by
  obtain ⟨-, -, -, rfl⟩ := osSchedTaskConfigure_eq_true h
  split at hr
  · next h0 =>
    rw [if_pos h0, key, createdKey, ← hid]
    simp [h0, osSchedTaskReset]
  · cases hr

/-- **A probe's batch is consistent when its winner is the least candidate.** -/
lemma consistent_iff {tasks : ℕ → SchedTask} {selected incumbent : ℕ} {purpose : SelectPurpose}
    (hb : Batch tasks selected incumbent taskIdInvalid purpose)
    (hs : selected ∈ candidates tasks incumbent purpose) :
    Consistent (selectionInputs tasks osTaskCount selected incumbent taskIdInvalid purpose) ↔
      ∀ j ∈ candidates tasks incumbent purpose, key (tasks selected) ≤ key (tasks j) := by
  have hel : ∀ j, j ∈ eligible tasks incumbent taskIdInvalid purpose ↔
      j ∈ candidates tasks incumbent purpose := fun _ => mem_probe
  have hcheck : ∀ tick sequence, checkWinner (decodedInput tick (u32 sequence)
      (selectInput tasks selected incumbent taskIdInvalid purpose))
      (batchItems tasks selected incumbent taskIdInvalid purpose tick (sequence + 1)) = .ok () ↔
        ∀ j ∈ candidates tasks incumbent purpose, key (tasks selected) ≤ key (tasks j) := by
    intro tick sequence
    have hwin := @checkWinner_eligible _ _ _ _ _ tick (u32 sequence) _ hb.fits hb.excludable
      (@items_entries _ selected _ _ _ tick (sequence + 1) hb.fits)
      ((hel selected).mpr hs)
    simp only [hel] at hwin
    exact hwin
  have hsnap : ∀ tick sequence, validateSelectionSnapshots (decodedBatch tick sequence
      (selectionInputs tasks osTaskCount selected incumbent taskIdInvalid purpose)) = .ok () ↔
        ∀ j ∈ candidates tasks incumbent purpose, key (tasks selected) ≤ key (tasks j) := by
    intro tick sequence
    have hbatch := @validateSnapshots_batch _ _ _ _ _ tick sequence hb []
    rw [List.append_nil] at hbatch
    rw [validateSelectionSnapshots, hbatch, hcheck]
    exact and_iff_left rfl
  refine ⟨fun h => (hsnap 0 0).mp (h.snapshots 0 0), fun hleast =>
    ⟨fun tick sequence => ?_, fun tick sequence => (hsnap tick sequence).mpr hleast⟩⟩
  have hitems := @items_entries _ selected incumbent taskIdInvalid purpose tick (sequence + 1)
    hb.fits
  obtain ⟨c, hc, hct⟩ : ∃ c ∈ (candidateEntries tasks selected incumbent taskIdInvalid purpose tick
      (sequence + 1)).map candidateDetails, itemTask c = selected := by
    have hmem : selected ∈ ((candidateEntries tasks selected incumbent taskIdInvalid purpose tick
      (sequence + 1)).map candidateDetails).map itemTask := by rwa [hitems.listed]
    exact List.mem_map.mp hmem
  have hshows := hitems.shows c hc
  refine ⟨_, _, batch_eq, c, hc, ?_, fun c' hc' => ?_⟩
  · rw [hshows.task, hct, selectInput_task hb.selected_lt]
  · have hj := hitems.mem hc'
    rw [keyLe_iff hb.fits hshows (hitems.shows c' hc') (candidate_active (hitems.mem hc)).1
      (candidate_active hj).1, hct]
    exact hleast _ hj

/-- The slot that a creation fills. -/
lemma filled_slot (hc : ControlInv (ctl k)) {config : TaskConfig}
    (hs : Step img k (.create config) k') (hd : (k.schedules i).state = .dormant)
    (hn : (k'.schedules i).state ≠ .dormant) : freeSlot k = some i := by
  obtain ⟨⟨k₁, r⟩, hcreate, rfl⟩ := map_eq_ok.mp hs.exec
  rcases osTaskCreate_cases img (ControlInv.wellIndexed hc) hcreate with
    rfl | ⟨j, -, rfl⟩ | ⟨j, t, -, hslot, -, rfl⟩
  · exact absurd hd hn
  · refine absurd ?_ hn
    change (Function.update k.schedules j (osSchedTaskReset j) i).state = .dormant
    by_cases hij : i = j
    · subst hij
      rw [Function.update_self]
      rfl
    · rw [Function.update_of_ne hij]
      exact hd
  · by_cases hij : i = j
    · exact hij ▸ hslot
    · have hsame : (ctl (created (placed img k config j t) j)).schedules i = k.schedules i := by
        rw [ctl_created, ctl_placed img, announced]
        split <;> exact Function.update_of_ne hij _ _
      rw [show (created (placed img k config j t) j).schedules i = k.schedules i from hsame] at hn
      exact absurd hd hn

/-- The batch of a probe among those of a creation. -/
lemma creation_probe {b : List TraceInput} (hb : b ∈ creationBatches c i)
    (hsel : ∃ input ∈ b, input.event = TraceEvent.taskSelect.code) : createHits c i = true ∧
      b = selectionInputs c.schedules osTaskCount i c.current taskIdInvalid
        .runtimeCreateProbe := by
  obtain ⟨input, hi, he⟩ := hsel
  simp only [creationBatches, List.mem_append] at hb
  rcases hb with (hb | hb) | hb
  · rw [List.mem_singleton.mp hb] at hi
    rw [List.mem_singleton.mp hi] at he
    cases he
  · obtain ⟨-, rfl⟩ := mem_ite hb
    rw [List.mem_singleton.mp hi] at he
    cases he
  · exact mem_ite hb

/-- **The probe of a creation is consistent when the new task goes before every ready one.** -/
lemma createProbe_iff (h : Fitting c) (config : TaskConfig) {t : SchedTask} (hi : i ∈ userSlots)
    (hd : (c.schedules i).state = .dormant) (hcaller : c.running = true → userCalls c)
    (hconf : osSchedTaskConfigure (c.schedules i) config.timing c.ticks = (t, true))
    (hit : createHits (filled c i t) i = true) :
    Consistent (selectionInputs (filled c i t).schedules osTaskCount i c.current taskIdInvalid
      .runtimeCreateProbe) ↔ ∀ j ∈ userSlots, IsReady (c.schedules j) →
        createdKey c.ticks i config.timing < key (c.schedules j) := by
  have hid : t.id = i := by
    have hid := osSchedTaskConfigure_id (c.schedules i) c.ticks config.timing
    rw [hconf] at hid
    exact hid.trans (h.inv.table.id i (mem_userSlots.mp hi).2)
  have hfilled := h.inv.filled hi hd hid (slotInv_configure hconf) (configured_state hconf)
  have hself : (filled c i t).schedules i = t := Function.update_self ..
  have hother : ∀ j, j ≠ i → (filled c i t).schedules j = c.schedules j := fun j hj =>
    Function.update_of_ne hj _ _
  have hfits := h.filled hi hconf
  simp only [createHits, Bool.and_eq_true, beq_iff_eq] at hit
  obtain ⟨⟨hrun, hready⟩, hout⟩ := hit
  have hurgent := urgent_of_outranks hout
  obtain ⟨-, -, hlt, hstate, -, hne⟩ := hcaller hrun
  have hci : c.current ≠ i := fun heq => by
    rw [incumbent, heq, hd] at hstate
    cases hstate
  have hstate' : ((filled c i t).schedules c.current).state = .running := by
    rw [hother _ hci]
    exact hstate
  have hbatch := @probe_batch _ _ _ _ _ .runtimeCreateProbe hfits hfilled.table hlt hstate' hi
    hurgent.1
  have hcand : i ∈ candidates (filled c i t).schedules c.current .runtimeCreateProbe :=
    mem_candidates.mpr ⟨hi, Or.inl hurgent.1⟩
  have hkey : key ((filled c i t).schedules i) = createdKey c.ticks i config.timing := by
    rw [hself] at hready ⊢
    exact created_key (h.inv.table.id i (mem_userSlots.mp hi).2) hconf hready
  rw [consistent_iff hbatch hcand, hkey]
  constructor
  · intro hleast j hj hr
    have hji : j ≠ i := fun heq => by
      have hst := hr.1
      rw [heq, hd] at hst
      cases hst
    have hle := hleast j (mem_candidates.mpr ⟨hj, Or.inl (by rwa [hother j hji])⟩)
    rw [hother j hji] at hle
    refine lt_of_le_of_ne hle fun heq => hji ?_
    rw [← hkey, ← hother j hji] at heq
    exact (key_index hfits hi hj heq).symm
  · intro hlast j hj
    by_cases hji : j = i
    · rw [hji, hkey]
    · obtain ⟨hu, hr | ⟨rfl, -⟩⟩ := mem_candidates.mp hj
      · rw [hother j hji] at hr ⊢
        exact (hlast j hu hr).le
      · rw [← hkey]
        have hcid : ((filled c i t).schedules c.current).id = c.current := hfilled.table.id _ hlt
        exact (hurgent.2.2.resolve_left fun h0 => hne (hcid.symm.trans h0)).le

/-- **When the probe of a creation replays.** In every state reached, the batch of the probe that a
creation makes names its least candidate and is accepted by the decoder exactly when the key of the
new task is below those of all tasks that were ready before. -/
theorem create_probe_consistent (h : Reaches img P labels k) {config : TaskConfig}
    (hs : Step img k (.create config) k') (he : Emitted k (.create config) k' bs)
    (hslot : freeSlot k = some i) {b : List TraceInput} (hb : b ∈ bs)
    (hsel : ∃ input ∈ b, input.event = TraceEvent.taskSelect.code) :
    Consistent b ↔ ∀ j ∈ userSlots, IsReady (k.schedules j) →
      createdKey k.monotonicTicks i config.timing < key (k.schedules j) := by
  have hfit := fitting_of_reaches h
  have hctl := he.control
  generalize hk' : ctl k' = c' at hctl
  cases hctl with
  | quiet => exact absurd hb List.not_mem_nil
  | memory _ hrec =>
    obtain ⟨event, task, related, v0, v1, v2, hev, rfl⟩ := hrec
    obtain ⟨input, hin, hie⟩ := hsel
    rw [List.mem_singleton.mp hb] at hin
    rw [List.mem_singleton.mp hin] at hie
    rcases hev with rfl | rfl <;> cases hie
  | createFails => exact absurd hb List.not_mem_nil
  | @create _ j t _ hcaller h1 hlt hd _ hconf =>
    have hsched : (k'.schedules j).state ≠ .dormant := by
      rw [show k'.schedules = (announced (filled (ctl k) j t) j).schedules from
        congrArg Ctl.schedules hk']
      have hann : (announced (filled (ctl k) j t) j).schedules j = t := by
        rw [announced]
        split <;> exact Function.update_self ..
      rw [hann]
      rcases configured_state hconf with hst | hst <;> simp [hst]
    have hji : j = i := by
      rw [filled_slot hfit.inv hs hd hsched, Option.some.injEq] at hslot
      exact hslot
    subst hji
    obtain ⟨hit, rfl⟩ := creation_probe hb hsel
    exact createProbe_iff hfit _ (mem_userSlots.mpr ⟨h1, hlt⟩) hd hcaller hconf hit

/-- A task that runs alone. -/
def soloRunning : Ctl := launched (soloCtl (oneShot 0 100))

lemma stage_soloRunning : ∃ log, Stage soloRunning log :=
  ⟨_, stage_launched (oneShot 0 100) (by decide) (by decide)⟩

/-- The batch of the probe of a creation. -/
def probeBatch (c : Ctl) (i : ℕ) : List TraceInput :=
  selectionInputs c.schedules osTaskCount i c.current taskIdInvalid .runtimeCreateProbe

lemma probe_mem (h : createHits c i = true) : probeBatch c i ∈ creationBatches c i := by
  rw [creationBatches, if_pos h]
  exact List.mem_append_right _ (List.mem_singleton_self _)

lemma selects_probe (c : Ctl) (i : ℕ) :
    ∃ input ∈ probeBatch c i, input.event = TraceEvent.taskSelect.code :=
  ⟨_, List.mem_cons_self, rfl⟩

/-- A task that runs alone creates one that goes before it. -/
theorem create_probe_consistent_solo : ∃ labels k k' bs b,
    Reaches sampleImage Disciplined labels k ∧
      Emitted k (.create (sampleConfig (oneShot 0 10))) k' bs ∧ b ∈ bs ∧
      (∃ input ∈ b, input.event = TraceEvent.taskSelect.code) ∧ Consistent b := by
  obtain ⟨log, hrunning⟩ := stage_soloRunning
  obtain ⟨labels, k, k', hr, hctl, -, hs, he, -⟩ := hrunning.step (.create (oneShot 0 10)
    (i := 2) ⟨rfl, fun h => nomatch h⟩ (fun _ => ⟨rfl, rfl, by decide, by decide, rfl, by decide⟩)
    (by decide) (by decide) (by decide))
  have hslot : freeSlot k = some 2 := (congrArg slotOf hctl).trans (by decide)
  have hhit : createHits (createIn soloRunning 2 (oneShot 0 10)) 2 = true := by decide
  have hb := probe_mem hhit
  refine ⟨labels, k, k', _, _, hr.reaches, he, hb, selects_probe _ _,
    (create_probe_consistent hr.reaches hs he hslot hb (selects_probe _ _)).mpr ?_⟩
  have hsched : k.schedules = soloRunning.schedules := congrArg Ctl.schedules hctl
  have hticks : k.monotonicTicks = 0 := congrArg Ctl.ticks hctl
  rw [hsched, hticks]
  decide

/-- The task that runs alone has created one that goes before it, with interrupts masked. -/
def maskedCtl : Ctl := announced (createIn { soloRunning with masked := true } 2 (oneShot 0 10)) 2

lemma stage_masked : ∃ log, Stage maskedCtl log := by
  obtain ⟨log, hrunning⟩ := stage_soloRunning
  have hex : executing soloRunning := ⟨rfl, fun h => nomatch h⟩
  have hmasked := hrunning.pass (.primask hex (fun _ => rfl) true)
  exact ⟨_, hmasked.go (.create (oneShot 0 10) (i := 2) ⟨rfl, fun _ => rfl⟩
    (fun _ => ⟨rfl, rfl, by decide, by decide, rfl, by decide⟩) (by decide) (by decide)
    (by decide))⟩

/-- **A probe that names another than its least candidate.** With interrupts masked a running task
creates one with an early deadline, then one with a deadline between that and its own. The second
probe names the second task, although the first one goes before it, and the decoder rejects it. -/
theorem create_probe_inconsistent : ∃ labels k k' bs b,
    Reaches sampleImage Disciplined labels k ∧
      Step sampleImage k (.create (sampleConfig (oneShot 0 50))) k' ∧
      Emitted k (.create (sampleConfig (oneShot 0 50))) k' bs ∧ b ∈ bs ∧
      (∃ input ∈ b, input.event = TraceEvent.taskSelect.code) ∧ ¬Consistent b := by
  obtain ⟨log, hmasked⟩ := stage_masked
  obtain ⟨labels, k, k', hr, hctl, -, hs, he, -⟩ := hmasked.step (.create (oneShot 0 50)
    (i := 3) ⟨rfl, fun _ => rfl⟩ (fun _ => ⟨rfl, rfl, by decide, by decide, rfl, by decide⟩)
    (by decide) (by decide) (by decide))
  have hhit : createHits (createIn maskedCtl 3 (oneShot 0 50)) 3 = true := by decide
  have hfit := fitting_of_reaches hr.reaches
  rw [hctl] at hfit
  have hiff := createProbe_iff (i := 3) hfit (sampleConfig (oneShot 0 50)) (by decide)
    (by decide) (fun _ => ⟨rfl, rfl, by decide, by decide, rfl, by decide⟩)
    (Prod.ext rfl (by decide)) hhit
  refine ⟨labels, k, k', _, _, hr.reaches, hs, he, probe_mem hhit, selects_probe _ _, fun hcon => ?_⟩
  have hlast := hiff.mp hcon 2 (by decide) (by decide)
  exact absurd hlast (by decide)

end Aymos.Selections
