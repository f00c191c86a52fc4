import Aymos.RecordRange
import Aymos.MemoryTrace

/-!
What the decoder makes of the records of a step.

The validators go over a trace batch by batch, so that a trace passes exactly when the records of
each step do. Those of a step are rejected in four situations only: a switch without a cause, the
probe of a creation that names another than its least candidate, a request for no bytes, and a
release of the null pointer.
-/

namespace Aymos.TraceVerdict

open Words Allocator HeapBlocks HeapCalls Scheduler Trace WordMem Kernel Machine Handlers Frames
  Services Switch Slots Select Control Boot Ownership EmissionLog Safety Startup SlotSteps Timing RingHistory
  Wire Decoder RoundTrip Validate Acceptance Snapshot Replay Selections MemoryTrace Lifecycle Causes
  RecordRange

variable {c c' : Ctl} {l : Label} {b : List TraceInput} {bs : List (List TraceInput)}
  {tick s i : ℕ} {ds es : List DecodedRecord}

/-! ### Batch by batch -/

/-- Records that the validators accept. -/
structure Checked (ds : List DecodedRecord) : Prop where
  snapshots : validateSelectionSnapshots ds = .ok ()
  accepted : ∀ d ∈ ds, Accepted d

/-- Records after which the validator of the snapshots goes on as from the start. -/
def Framed (ds : List DecodedRecord) : Prop :=
  ∀ rest, validateSelectionSnapshots (ds ++ rest) = .ok () ↔
    validateSelectionSnapshots ds = .ok () ∧ validateSelectionSnapshots rest = .ok ()

lemma checked_nil : Checked [] := ⟨rfl, fun _ hd => absurd hd List.not_mem_nil⟩

lemma framed_nil : Framed [] := fun _ => (and_iff_right rfl).symm

lemma Framed.append (h : Framed ds) (h' : Framed es) : Framed (ds ++ es) := fun rest => by
  rw [List.append_assoc, h, h', h, and_assoc]

/-- **A trace passes when its parts do.** -/
lemma Framed.checked_append (h : Framed ds) : Checked (ds ++ es) ↔ Checked ds ∧ Checked es := by
  constructor
  · rintro ⟨hsnap, hacc⟩
    obtain ⟨hds, hes⟩ := (h es).mp hsnap
    exact ⟨⟨hds, fun d hd => hacc d (List.mem_append_left _ hd)⟩,
      ⟨hes, fun d hd => hacc d (List.mem_append_right _ hd)⟩⟩
  · rintro ⟨⟨hds, hacc⟩, ⟨hes, hacc'⟩⟩
    exact ⟨(h es).mpr ⟨hds, hes⟩, fun d hd => (List.mem_append.mp hd).elim (hacc d) (hacc' d)⟩

lemma decodedBatch_append (tick s : ℕ) (b b' : List TraceInput) :
    decodedBatch tick s (b ++ b') =
      decodedBatch tick s b ++ decodedBatch tick (s + b.length) b' := by
  induction b generalizing s with
  | nil => rfl
  | cons input b ih =>
    have hs : s + (input :: b).length = s + 1 + b.length := by
      rw [List.length_cons]
      omega
    rw [hs, List.cons_append, decodedBatch_cons, ih, decodedBatch_cons, List.cons_append]

/-- The validators' verdict on a batch, whatever its numbers are. -/
structure Judged (tick : ℕ) (b : List TraceInput) (verdict : Prop) : Prop where
  framed : ∀ s, Framed (decodedBatch tick s b)
  checked : ∀ s, Checked (decodedBatch tick s b) ↔ verdict

lemma Judged.congr {p q : Prop} (h : Judged tick b p) (hpq : p ↔ q) : Judged tick b q :=
  ⟨h.framed, fun s => (h.checked s).trans hpq⟩

lemma judged_nil : Judged tick [] True :=
  ⟨fun _ => framed_nil, fun _ => iff_true_intro checked_nil⟩

/-- **The verdict on a step** is that on each of its batches. -/
theorem judged_flatten {verdict : List TraceInput → Prop} (h : ∀ b ∈ bs, Judged tick b (verdict b)) :
    Judged tick bs.flatten (∀ b ∈ bs, verdict b) := by
  induction bs with
  | nil => exact judged_nil.congr (by simp)
  | cons b bs ih =>
    obtain ⟨hframed, hchecked⟩ := h b List.mem_cons_self
    obtain ⟨hframed', hchecked'⟩ := ih fun b hb => h b (List.mem_cons_of_mem _ hb)
    constructor
    · intro s
      rw [List.flatten_cons, decodedBatch_append]
      exact (hframed s).append (hframed' _)
    · intro s
      rw [List.flatten_cons, decodedBatch_append, (hframed s).checked_append, hchecked, hchecked',
        List.forall_mem_cons]

/-! ### Records of their own -/

section Single

variable {event : TraceEvent} {task related v0 v1 v2 : ℕ}

/-- The validator of the snapshots passes over a record that is not of a selection. -/
lemma snapshots_cons {d : DecodedRecord} (h1 : d.event ≠ .taskSelect)
    (h2 : d.event ≠ .selectCandidate) (rest : List DecodedRecord) :
    validateSelectionSnapshots (d :: rest) = validateSelectionSnapshots rest := by
  rw [validateSelectionSnapshots, validateSnapshotsFrom, if_pos h1, if_neg h2]
  rfl

/-- A record of its own is judged by its roles and its payload. -/
lemma judged_record {verdict : Prop} (h1 : event ≠ .taskSelect) (h2 : event ≠ .selectCandidate)
    (h : ∀ s, Accepted (decodedInput tick s (record event task related v0 v1 v2)) ↔ verdict) :
    Judged tick [record event task related v0 v1 v2] verdict := by
  have hbatch : ∀ s, decodedBatch tick s [record event task related v0 v1 v2] =
      [decodedInput tick (u32 s) (record event task related v0 v1 v2)] := fun s => rfl
  have hskip : ∀ s rest, validateSelectionSnapshots
      (decodedInput tick s (record event task related v0 v1 v2) :: rest) =
        validateSelectionSnapshots rest := fun s rest =>
    snapshots_cons (by rwa [decodedInput_event]) (by rwa [decodedInput_event]) rest
  constructor
  · intro s rest
    rw [hbatch, List.singleton_append, hskip, hskip]
    exact (and_iff_right rfl).symm
  · intro s
    rw [hbatch, ← h (u32 s)]
    refine ⟨fun hc => hc.accepted _ (List.mem_singleton_self _), fun ha => ⟨hskip _ _, ?_⟩⟩
    intro d hd
    rw [List.mem_singleton.mp hd]
    exact ha

/-- The record of the start of the kernel. -/
lemma accepted_kernelStart (s : ℕ) : Accepted (decodedInput tick s
    (record .kernelStart traceTaskInvalid traceTaskInvalid 0 osTaskCount 0)) := by
  rw [accepted_iff]
  simp [rolesValid, payloadValid, metadataValid, osTaskCount, maxUserTasks]

/-- The record of a switch is accepted when it has a cause. -/
lemma accepted_switch_iff {outgoing next cause s : ℕ} {state : TaskState}
    (ho : outgoing < osTaskCount ∨ outgoing = taskIdInvalid) (hn : next < osTaskCount) :
    Accepted (decodedInput tick s
      (record .contextSwitch (traceTask outgoing) next cause state.code 0)) ↔ IsCause cause := by
  have hnext : isUserOrIdle (optionalTask next) = true := by
    rw [optionalTask_of_lt hn]
    exact isUserOrIdle_of_lt hn
  have hout : optionalTask (traceTask outgoing) = none ∨
      isUserOrIdle (optionalTask (traceTask outgoing)) = true := by
    rcases ho with hlt | rfl
    · rw [traceTask, if_neg (ne_invalid_of_lt hlt), optionalTask_of_lt hlt]
      exact Or.inr (isUserOrIdle_of_lt hlt)
    · exact Or.inl rfl
  have hstate : state.code < 6 := by cases state <;> decide
  rw [accepted_iff]
  simp only [rolesValid, payloadValid, metadataValid, decodedInput_event, decodedInput_task,
    decodedInput_related, decodedInput_value0, decodedInput_value1, decodedInput_value2, hnext,
    hstate, Bool.and_true, Bool.or_eq_true, beq_iff_eq, Bool.and_eq_true, decide_eq_true_eq,
    decide_true, beq_self_eq_true, and_true, IsCause, Nat.lt_succ_iff]
  rw [and_iff_right hout]
  exact and_congr decide_eq_true_iff Iff.rfl

end Single

/-! ### Selections -/

section Selection

variable {tasks : ℕ → SchedTask} {selected incumbent excluded : ℕ} {purpose : SelectPurpose}

/-- A selection is judged by the check of its winner. -/
lemma judged_selection {verdict : Prop} (hb : Batch tasks selected incumbent excluded purpose)
    (h : ∀ s, checkWinner
      (decodedInput tick (u32 s) (selectInput tasks selected incumbent excluded purpose))
      (batchItems tasks selected incumbent excluded purpose tick (s + 1)) = .ok () ↔ verdict) :
    Judged tick (selectionInputs tasks osTaskCount selected incumbent excluded purpose) verdict := by
  have hnil : ∀ s, validateSelectionSnapshots (decodedBatch tick s
      (selectionInputs tasks osTaskCount selected incumbent excluded purpose)) = .ok () ↔ verdict := by
    intro s
    have hbatch := @validateSnapshots_batch _ _ _ _ _ tick s hb []
    rw [List.append_nil] at hbatch
    rw [validateSelectionSnapshots, hbatch, ← h s]
    exact and_iff_left rfl
  constructor
  · intro s rest
    rw [hnil, ← h s]
    exact validateSnapshots_batch hb rest
  · refine fun s => ⟨fun hc => (hnil s).mp hc.snapshots, fun hv => ⟨(hnil s).mpr hv, ?_⟩⟩
    rw [batch_eq]
    intro d hd
    rcases List.mem_cons.mp hd with rfl | hd
    · exact accepted_select hb _
    · obtain ⟨j, hj, s, rfl⟩ := mem_candidateEntries hd
      exact accepted_candidate hb hj s

/-- A selection of the least candidate passes. -/
lemma judged_wins (hb : Batch tasks selected incumbent excluded purpose)
    (hw : Wins tasks selected incumbent excluded purpose) :
    Judged tick (selectionInputs tasks osTaskCount selected incumbent excluded purpose) True :=
  judged_selection hb fun _ => iff_true_intro (checkWinner_ok hb hw _)

end Selection

/-! ### The verdict on a step -/

variable {img : Image} {labels : List Label} {k k' : KernelState} {log : Log}

/-- What happens in a step whose records the validators accept. -/
def Decodable (img : Image) (k : KernelState) : Label → Prop
  | .pendCommit => IsCause k.pendingSwitchCause
  | .create config => ∀ k' i, Step img k (.create config) k' → (k.schedules i).state = .dormant →
      createHits (ctl k') i = true → ∀ j ∈ userSlots, IsReady (k.schedules j) →
        key (k'.schedules i) < key (k.schedules j)
  | .alloc size => memoryCallValid k → u32 size ≠ 0
  | .free pointer => memoryCallValid k → pointer ≠ 0
  | _ => True

/-- The record of a switch. -/
def switchRecord (c : Ctl) : TraceInput :=
  record .contextSwitch (traceTask c.current) (next (retired c)) c.cause (outgoing c).code 0

/-- The records of the life of a task pass. -/
lemma judged_life (h : Reaches img Lively labels k) (hp : Lively k l) (he : Emitted k l k' bs)
    {event : TraceEvent} {task related v0 v1 v2 : ℕ} (hlife : event ∈ lives)
    (hb : [record event task related v0 v1 v2] ∈ bs) :
    Judged k'.monotonicTicks [record event task related v0 v1 v2] True := by
  have hin : record event task related v0 v1 v2 ∈ bs.flatten :=
    List.mem_flatten.mpr ⟨_, hb, List.mem_singleton_self _⟩
  refine judged_record (fun h0 => ?_) (fun h0 => ?_)
    fun s => iff_true_intro (emitted_accepted h hp he hin ⟨event, hlife, rfl⟩)
  · subst h0
    exact absurd hlife (by decide)
  · subst h0
    exact absurd hlife (by decide)

/-- **The batches of the sites pass**, but for those of the memory calls and of two other sites. -/
lemma site_judged (h : Reaches img Lively labels k) (hp : Lively k l) (he : Emitted k l k' bs)
    (hb : b ∈ bs) (hmem : ¬memoryRecord b) : Judged k'.monotonicTicks b True ∨
      (l = .pendCommit ∧ b = [switchRecord (ctl k)]) ∨
      ∃ config i t, l = .create config ∧ Creates (ctl k) config i t ∧
        createHits (filled (ctl k) i t) i = true ∧ b = probeBatch (filled (ctl k) i t) i := by
  have hmeasured := measured_of_reaches h
  have hlife : ∀ {event : TraceEvent} {task related v0 v1 v2 : ℕ}, event ∈ lives →
      b = [record event task related v0 v1 v2] → Judged k'.monotonicTicks b True := by
    rintro event task related v0 v1 v2 hlife rfl
    exact judged_life h hp he hlife hb
  have hsite := site_of_mem he.control b hb
  cases hsite with
  | memory _ hrec => exact absurd hrec hmem
  | kernelStart =>
    exact Or.inl (judged_record (by decide) (by decide) fun s =>
      iff_true_intro (accepted_kernelStart s))
  | tickProbe hhit =>
    have hx : anyExhausts ((ctl k).ticks + 1) (ctl k).schedules userSlots = false := by
      have hctl := he.control
      generalize ctl k' = c' at hctl
      cases hctl with
      | quiet hq => cases hq
      | memory hq => cases hq
      | bootTick => exact absurd hb List.not_mem_nil
      | tick _ _ _ hx => exact hx
      | tickPreempt _ _ _ hx => exact hx
    obtain ⟨hbatch, hwins⟩ := tickProbe_wins hmeasured.toFitting hx hhit
    exact Or.inl (judged_wins hbatch hwins)
  | dispatch =>
    exact Or.inl (judged_wins (dispatch_batch hmeasured.toFitting hmeasured.stays)
      (dispatch_wins hmeasured.inv hmeasured.stays))
  | switch => exact Or.inr (Or.inl ⟨rfl, rfl⟩)
  | createProbe hcr hhit => exact Or.inr (Or.inr ⟨_, _, _, rfl, hcr, hhit, rfl⟩)
  | _ => exact Or.inl (hlife (by decide) rfl)

lemma record_not_memory {event : TraceEvent} {task related v0 v1 v2 : ℕ} (h1 : event ≠ .alloc)
    (h2 : event ≠ .free) : ¬memoryRecord [record event task related v0 v1 v2] := by
  rintro ⟨e, _, _, _, _, _, he, heq⟩
  obtain rfl : event = e :=
    TraceEvent.code_injective (congrArg TraceInput.event (List.singleton_inj.mp heq))
  exact he.elim h1 h2

lemma selection_not_memory {tasks : ℕ → SchedTask} {selected incumbent excluded : ℕ}
    {purpose : SelectPurpose} :
    ¬memoryRecord (selectionInputs tasks osTaskCount selected incumbent excluded purpose) := by
  rintro ⟨e, _, _, _, _, _, he, heq⟩
  obtain rfl : .taskSelect = e := TraceEvent.code_injective
    (congrArg TraceInput.event (List.cons.inj (selectionInputs_eq.symm.trans heq)).1)
  exact he.elim (by decide) (by decide)

/-- Only a label that may leave the control alone has records of memory calls. -/
lemma site_not_memory (hq : Control.quiet l = false) (hsite : Site c l b) : ¬memoryRecord b := by
  cases hsite with
  | memory hq' => exact absurd (hq.symm.trans hq') Bool.false_ne_true
  | tickProbe => exact selection_not_memory
  | dispatch => exact selection_not_memory
  | createProbe => exact selection_not_memory
  | _ => exact record_not_memory (by decide) (by decide)

/-! ### Commits and creations -/

/-- The records of a commit pass when the switch has a cause. -/
lemma commit_judged (h : Reaches img Lively labels k) (hp : Lively k .pendCommit)
    (he : Emitted k .pendCommit k' bs) :
    Judged k'.monotonicTicks bs.flatten (IsCause k.pendingSwitchCause) := by
  have hcommit := commit_inv he.control
  have hswitch : Judged k'.monotonicTicks [switchRecord (ctl k)] (IsCause k.pendingSwitchCause) :=
    judged_record (by decide) (by decide) fun s =>
      accepted_switch_iff h.control.current hcommit.next_lt
  have hall : ∀ b ∈ bs, Judged k'.monotonicTicks b
      (b = [switchRecord (ctl k)] → IsCause k.pendingSwitchCause) := by
    intro b hb
    by_cases hbs : b = [switchRecord (ctl k)]
    · rw [hbs]
      exact hswitch.congr (by simp)
    · refine Judged.congr ?_ (iff_of_true trivial fun h0 => absurd h0 hbs)
      rcases site_judged h hp he hb (site_not_memory rfl (site_of_mem he.control b hb)) with
        htrue | ⟨-, h0⟩ | ⟨config, i, t, hl, -⟩
      · exact htrue
      · exact absurd h0 hbs
      · cases hl
  refine (judged_flatten hall).congr ⟨fun hv => hv _ ?_ rfl, fun hv b _ _ => hv⟩
  obtain ⟨freed, -, hbs⟩ := hcommit.batches
  rw [hbs, commitBatches, switchBatches, retired_cause]
  simp [switchRecord]

lemma announced_schedules (c : Ctl) (i : ℕ) : (announced c i).schedules = c.schedules := by
  rw [announced]
  split <;> rfl

lemma createHits_announced (c : Ctl) (i j : ℕ) : createHits (announced c i) j = createHits c j := by
  rw [announced]
  split <;> rfl

/-- The batch of a probe passes when the new task goes before every ready one. -/
lemma probe_judged (h : Fitting c) {config : TaskConfig} {t : SchedTask}
    (hcr : Creates c config i t) (hit : createHits (filled c i t) i = true) :
    Judged tick (probeBatch (filled c i t) i)
      (∀ j ∈ userSlots, IsReady (c.schedules j) → key t < key (c.schedules j)) := by
  obtain ⟨hcaller, hi, hd, hconf⟩ := hcr
  have hid : t.id = i := by
    have hid := osSchedTaskConfigure_id (c.schedules i) c.ticks config.timing
    rw [hconf] at hid
    exact hid.trans (h.inv.table.id i (mem_userSlots.mp hi).2)
  have hfilled := h.inv.filled hi hd hid (slotInv_configure hconf) (configured_state hconf)
  have hself : (filled c i t).schedules i = t := Function.update_self ..
  have hparts := hit
  simp only [createHits, Bool.and_eq_true, beq_iff_eq] at hparts
  obtain ⟨⟨hrun, hready⟩, hout⟩ := hparts
  obtain ⟨-, -, hlt, hstate, -, -⟩ := hcaller hrun
  have hci : c.current ≠ i := fun heq => by
    rw [incumbent, heq, hd] at hstate
    cases hstate
  have hrunning : ((filled c i t).schedules c.current).state = .running := by
    rw [show (filled c i t).schedules c.current = c.schedules c.current from
      Function.update_of_ne hci _ _]
    exact hstate
  have hisReady := (urgent_of_outranks hout).1
  have hbatch := @probe_batch _ _ _ _ _ .runtimeCreateProbe (h.filled hi hconf) hfilled.table hlt
    hrunning hi hisReady
  have hcand : i ∈ candidates (filled c i t).schedules c.current .runtimeCreateProbe :=
    mem_candidates.mpr ⟨hi, Or.inl hisReady⟩
  have hkey : key t = createdKey c.ticks i config.timing := by
    rw [hself] at hready
    exact created_key (h.inv.table.id i (mem_userSlots.mp hi).2) hconf hready
  have hconsistent := createProbe_iff h config hi hd hcaller hconf hit
  rw [consistent_iff hbatch hcand] at hconsistent
  rw [hkey]
  refine Judged.congr (judged_selection hbatch fun s => ?_) hconsistent
  have hwin := @checkWinner_eligible _ _ _ _ _ tick (u32 s) _ hbatch.fits hbatch.excludable
    (@items_entries _ i _ _ _ tick (s + 1) hbatch.fits) (mem_probe.mpr hcand)
  simp only [mem_probe] at hwin
  exact hwin

/-- What a creation leaves to check, when it does not fill a slot. -/
lemma decodable_unfilled {config : TaskConfig} (hs : Step img k (.create config) k')
    (hno : ∀ i, (k.schedules i).state = .dormant → (k'.schedules i).state = .dormant) :
    Decodable img k (.create config) := by
  intro k'' i hs'' hd hit
  obtain rfl : k'' = k' := Except.ok.inj (hs''.exec.symm.trans hs.exec)
  simp only [createHits, Bool.and_eq_true, beq_iff_eq] at hit
  have hst : (k''.schedules i).state = .ready := hit.1.2
  rw [hno i hd] at hst
  cases hst

/-- The records of a creation that fills slot `i`. -/
lemma filling_judged (h : Reaches img Lively labels k) {config : TaskConfig} {t : SchedTask}
    (hp : Lively k (.create config)) (hs : Step img k (.create config) k')
    (he : Emitted k (.create config) k' (creationBatches (filled (ctl k) i t) i))
    (hcr : Creates (ctl k) config i t) (hctl : ctl k' = announced (filled (ctl k) i t) i)
    (hmem : ∀ b ∈ creationBatches (filled (ctl k) i t) i, ¬memoryRecord b) :
    Judged k'.monotonicTicks (creationBatches (filled (ctl k) i t) i).flatten
      (Decodable img k (.create config)) := by
  have hfit := fitting_of_reaches h
  have hsched : k'.schedules = Function.update k.schedules i t :=
    (congrArg Ctl.schedules hctl).trans (announced_schedules _ _)
  have hself : k'.schedules i = t := by rw [hsched, Function.update_self]
  have hhits : ∀ j, createHits (ctl k') j = createHits (filled (ctl k) i t) j := fun j => by
    rw [hctl, createHits_announced]
  have hall : ∀ b ∈ creationBatches (filled (ctl k) i t) i, Judged k'.monotonicTicks b
      ((∃ input ∈ b, input.event = TraceEvent.taskSelect.code) →
        ∀ j ∈ userSlots, IsReady (k.schedules j) → key t < key (k.schedules j)) := by
    intro b hb
    by_cases hsel : ∃ input ∈ b, input.event = TraceEvent.taskSelect.code
    · obtain ⟨hit, rfl⟩ := creation_probe hb hsel
      exact (probe_judged hfit hcr hit).congr ⟨fun hv _ => hv, fun hv => hv hsel⟩
    · refine Judged.congr ?_ (iff_of_true trivial fun h0 => absurd h0 hsel)
      rcases site_judged h hp he hb (hmem b hb) with htrue | ⟨hl, -⟩ | ⟨_, _, _, -, -, -, rfl⟩
      · exact htrue
      · cases hl
      · exact absurd (selects_probe _ _) hsel
  refine (judged_flatten hall).congr ⟨fun hv k'' j hs'' hd hit => ?_, fun hv b hb hsel => ?_⟩
  · obtain rfl : k'' = k' := Except.ok.inj (hs''.exec.symm.trans hs.exec)
    have hji : j = i := by
      by_contra hne
      have hst := hit
      simp only [createHits, Bool.and_eq_true, beq_iff_eq] at hst
      have hready : (k''.schedules j).state = .ready := hst.1.2
      rw [hsched, Function.update_of_ne hne, hd] at hready
      cases hready
    subst hji
    rw [hhits] at hit
    rw [hself]
    exact hv _ (probe_mem hit) (selects_probe _ _)
  · obtain ⟨hit, -⟩ := creation_probe hb hsel
    have hgoal := hv k' i hs hcr.dormant ((hhits i).trans hit)
    rwa [hself] at hgoal

/-- The records of a creation pass when its probe does. -/
lemma create_judged (h : Reaches img Lively labels k) {config : TaskConfig}
    (hp : Lively k (.create config)) (hs : Step img k (.create config) k') :
    ∃ bs, Emitted k (.create config) k' bs ∧ (∀ b ∈ bs, ¬memoryRecord b) ∧
      Judged k'.monotonicTicks bs.flatten (Decodable img k (.create config)) := by
  have hstep := hs
  obtain ⟨⟨k₁, r⟩, hcreate, rfl⟩ := map_eq_ok.mp hs.exec
  have hex : executes k = true := by
    have hen := hs.enabled
    simp only [enabled, Bool.and_eq_true] at hen
    exact executes_of_atUser img hen.1
  rcases osTaskCreate_cases img (ControlInv.wellIndexed h.control) hcreate with
    rfl | ⟨i, hslot, rfl⟩ | ⟨i, t, href, hslot, hconf, rfl⟩
  · exact ⟨[], ⟨.quiet rfl, rfl, fun h => absurd h (by simp)⟩, by simp,
      judged_nil.congr (iff_of_true trivial (decodable_unfilled hstep fun _ hd => hd))⟩
  · -- the slot is claimed and given up again
    obtain ⟨h1, hlt, hd, hc⟩ := freeSlot_some hslot
    refine ⟨[], ⟨?_, rfl, fun h => absurd h (by simp)⟩, by simp,
      judged_nil.congr (iff_of_true trivial (decodable_unfilled hstep fun j hj => ?_))⟩
    · rw [ctl_resetTask, ctl_claimSlot]
      exact .createFails h1 hlt hd hc
    · change (Function.update k.schedules i (osSchedTaskReset i) j).state = .dormant
      by_cases hji : j = i
      · subst hji
        rw [Function.update_self]
        rfl
      · rwa [Function.update_of_ne hji]
  · obtain ⟨hctl, hring⟩ := created_simulates img hex href hslot hconf
    obtain ⟨h1, hlt, hd, -⟩ := freeSlot_some hslot
    have he : Emitted k (.create config) (created (placed img k config i t) i)
      (creationBatches (filled (ctl k) i t) i) := ⟨hctl, hring, fun h => absurd h (by simp)⟩
    have hmem : ∀ b ∈ creationBatches (filled (ctl k) i t) i, ¬memoryRecord b := by
      intro b hb
      simp only [creationBatches, List.mem_append] at hb
      rcases hb with (hb | hb) | hb
      · rw [List.mem_singleton.mp hb]
        exact record_not_memory (by decide) (by decide)
      · obtain ⟨-, rfl⟩ := mem_ite hb
        exact record_not_memory (by decide) (by decide)
      · obtain ⟨-, rfl⟩ := mem_ite hb
        exact selection_not_memory
    have hcaller : (ctl k).running = true → userCalls (ctl k) := fun hrun => by
      obtain ⟨-, -, -, -, -, -, hmode, hcaller⟩ := createRefused_eq_false.mp href
      obtain ⟨hcall, hidle⟩ := hcaller hrun
      obtain ⟨-, hcur, hst, hact⟩ := callerIsRunningTask_iff.mp hcall
      exact ⟨hmode, hrun, hcur, hst, hact, hidle⟩
    refine ⟨_, he, hmem, filling_judged h hp hstep he
      ⟨hcaller, mem_userSlots.mpr ⟨h1, hlt⟩, hd, hconf⟩ ?_ hmem⟩
    rw [ctl_created, ctl_placed]

/-! ### Memory calls -/

lemma tracePointerOffset_lt (img : Image) (pointer : ℕ) : tracePointerOffset img pointer < 2 ^ 32 := by
  rw [tracePointerOffset]
  split_ifs
  · decide
  · decide
  · exact u32_lt _

/-- The records of a call of `os_memory_alloc` pass unless no bytes are asked for. -/
lemma alloc_judged (h : Reaches img Lively labels k) {size : ℕ} (hs : Step img k (.alloc size) k') :
    ∃ bs, Emitted k (.alloc size) k' bs ∧ (∀ input ∈ bs.flatten, Sized input) ∧
      Judged k'.monotonicTicks bs.flatten (Decodable img k (.alloc size)) := by
  obtain ⟨⟨k₁, r⟩, hcall, rfl⟩ := map_eq_ok.mp hs.exec
  by_cases hvalid : memoryCallValid k
  · obtain ⟨⟨blocks, hi, -⟩, hbegin, hend⟩ := arena_of_reaches h
    have hu := (memoryCallValid.slot hvalid).1
    obtain ⟨heap, result, hrun⟩ := alloc_returns hi size (owner_le hu)
    rw [osMemoryAlloc_eq, if_pos hvalid, hrun, Except.ok.injEq, Prod.mk.injEq] at hcall
    obtain ⟨rfl, rfl⟩ := hcall
    refine ⟨[[allocRecord img k.currentTask size result]],
      ⟨.memory rfl ⟨_, _, _, _, _, _, Or.inl rfl, rfl⟩, rfl, fun h => absurd h (by simp)⟩,
      fun input hin => ?_, ?_⟩
    · rw [List.flatten_singleton, List.mem_singleton] at hin
      rw [hin]
      exact sized_slot hu (u32_lt _) (tracePointerOffset_lt img _) (by split <;> decide)
    · refine judged_record (by decide) (by decide) fun s => ?_
      rw [alloc_accepted_iff hu]
      refine ⟨fun hacc _ => Nat.pos_iff_ne_zero.mp hacc.1,
        fun hne => ⟨Nat.pos_of_ne_zero (hne hvalid), ?_⟩⟩
      rcases (alloc_layout hi (owner_le hu) hrun).2 with rfl | ⟨h1, h2⟩
      · exact Or.inl ⟨rfl, rfl⟩
      · have hr : result ≠ 0 := fun h0 => by
          have hpos := hi.geometry.pos
          omega
        rw [hbegin] at h1
        rw [hend] at h2
        exact Or.inr ⟨if_pos hr, tracePointerOffset_inside h1 h2⟩
  · rw [osMemoryAlloc_eq, if_neg hvalid, Except.ok.injEq, Prod.mk.injEq] at hcall
    obtain ⟨rfl, -⟩ := hcall
    exact ⟨[], ⟨.quiet rfl, rfl, fun h => absurd h (by simp)⟩, by simp,
      judged_nil.congr (iff_of_true trivial fun hv => absurd hv hvalid)⟩

/-- The records of a call of `os_memory_free` pass unless the pointer is null. -/
lemma free_judged (h : Reaches img Lively labels k) {pointer : ℕ}
    (hs : Step img k (.free pointer) k') :
    ∃ bs, Emitted k (.free pointer) k' bs ∧ (∀ input ∈ bs.flatten, Sized input) ∧
      Judged k'.monotonicTicks bs.flatten (Decodable img k (.free pointer)) := by
  obtain ⟨⟨k₁, r⟩, hcall, rfl⟩ := map_eq_ok.mp hs.exec
  by_cases hvalid : memoryCallValid k
  · obtain ⟨k₂, r₂, hfree, hverdict⟩ := free_verdict h hvalid pointer
    obtain ⟨rfl, rfl⟩ := Prod.mk.inj (Except.ok.inj (hcall.symm.trans hfree))
    have hu := (memoryCallValid.slot hvalid).1
    have hctl : ctl k₁ = ctl k := by
      rcases osMemoryFree_cases img hcall with heq | ⟨-, heap, result, -, heq⟩
      · exact congrArg ctl heq
      · exact (congrArg ctl heq).trans rfl
    refine ⟨[[freeRecord img k.currentTask pointer r]],
      ⟨hctl ▸ .memory rfl ⟨_, _, _, _, _, _, Or.inr rfl, rfl⟩, hverdict.emits,
        fun h => absurd h (by simp)⟩,
      fun input hin => ?_, ?_⟩
    · rw [List.flatten_singleton, List.mem_singleton] at hin
      rw [hin]
      exact sized_slot hu (tracePointerOffset_lt img _) (by decide) (by split <;> decide)
    · exact judged_record (by decide) (by decide) fun s =>
        (hverdict.accepted_iff s).trans ⟨fun hne _ => hne, fun hne => hne hvalid⟩
  · rw [osMemoryFree_eq, if_neg hvalid, Except.ok.injEq, Prod.mk.injEq] at hcall
    obtain ⟨rfl, -⟩ := hcall
    exact ⟨[], ⟨.quiet rfl, rfl, fun h => absurd h (by simp)⟩, by simp,
      judged_nil.congr (iff_of_true trivial fun hv => absurd hv hvalid)⟩

/-! ### Every step -/

/-- The batches of a step, none of which is of a memory call. -/
def Plain (k : KernelState) (l : Label) (k' : KernelState) : Prop :=
  ∃ bs, Emitted k l k' bs ∧ ∀ b ∈ bs, ¬memoryRecord b

lemma plain_silent (hq : Control.quiet l = true) (hctl : ctl k' = ctl k)
    (hring : k'.traceRing = k.traceRing) (hl : l ≠ .pendCommit) : Plain k l k' :=
  ⟨[], ⟨hctl ▸ .quiet hq, by rw [Emits, hring, emitAll_nil], fun h0 => absurd h0 hl⟩, by simp⟩

lemma plain_loud (hc : ControlInv (ctl k)) (hs : Step img k l k') (hq : Control.quiet l = false) :
    Plain k l k' := by
  obtain ⟨bs, he⟩ := emitted_of_step hc hs
  exact ⟨bs, he, fun b hb => site_not_memory hq (site_of_mem he.control b hb)⟩

lemma plain_sleep (hc : ControlInv (ctl k)) {ticks : ℕ} (hs : Step img k (.sleep ticks) k') :
    Plain k (.sleep ticks) k' := by
  have hsleep : osSleep img k ticks = .ok k' := hs.exec
  rw [osSleep] at hsleep
  split at hsleep
  · rw [Except.ok.injEq] at hsleep
    exact plain_silent rfl (by rw [hsleep]) (by rw [hsleep]) (by simp)
  · obtain ⟨hmask, -, k₁, hrun, rfl⟩ := (supervisorCall_eq_ok img (by decide)).mp hsleep
    obtain ⟨hfrom, -, -, hok, rfl⟩ := osSvcSleep_eq_ok.mp hrun
    have hcall : supervisorCalls (ctl k) := @supervisorCalls_of k (excReturn k)
      (ControlInv.wellIndexed hc) (executes_of_atUser img hs.enabled) hmask hfrom
    refine ⟨_, ⟨.sleep hcall (Prod.ext rfl hok), rfl, fun h => absurd h (by simp)⟩, fun b hb => ?_⟩
    rw [List.mem_singleton.mp hb]
    exact record_not_memory (by decide) (by decide)

lemma plain_waitNextPeriod (hc : ControlInv (ctl k)) (hs : Step img k .waitNextPeriod k') :
    Plain k .waitNextPeriod k' := by
  have hwait : osWaitNextPeriod img k = .ok k' := hs.exec
  rw [osWaitNextPeriod] at hwait
  split at hwait
  · rw [Except.ok.injEq] at hwait
    exact plain_silent rfl (by rw [hwait]) (by rw [hwait]) (by simp)
  · obtain ⟨hmask, -, k₁, hrun, rfl⟩ := (supervisorCall_eq_ok img (by decide)).mp hwait
    obtain ⟨hfrom, hidle, hok, rfl⟩ := osSvcWaitNextPeriod_eq_ok.mp hrun
    have hcall : supervisorCalls (ctl k) := @supervisorCalls_of k (excReturn k)
      (ControlInv.wellIndexed hc) (executes_of_atUser img hs.enabled) hmask hfrom
    refine ⟨_, ⟨.waitNextPeriod hcall hidle (Prod.ext rfl hok), rfl, fun h => absurd h (by simp)⟩,
      fun b hb => ?_⟩
    rcases List.mem_append.mp hb with hb | hb
    · rw [outcomeBatches] at hb
      split at hb
      · rw [List.mem_singleton.mp hb]
        exact record_not_memory (by decide) (by decide)
      · obtain ⟨-, rfl⟩ := mem_ite hb
        exact record_not_memory (by decide) (by decide)
    · rw [List.mem_singleton.mp hb]
      exact record_not_memory (by decide) (by decide)

/-- **No memory call without its label.** -/
lemma plain_of_step (hc : ControlInv (ctl k)) (hs : Step img k l k')
    (halloc : ∀ size, l ≠ .alloc size) (hfree : ∀ pointer, l ≠ .free pointer)
    (hcreate : ∀ config, l ≠ .create config) : Plain k l k' := by
  have hexec := hs.exec
  cases l with
  | alloc size => exact absurd rfl (halloc size)
  | free pointer => exact absurd rfl (hfree pointer)
  | create config => exact absurd rfl (hcreate config)
  | sleep ticks => exact plain_sleep hc hs
  | waitNextPeriod => exact plain_waitNextPeriod hc hs
  | trampoline =>
    simp only [exec, taskEntryTrampoline, ite_error_eq_ok, Except.ok.injEq] at hexec
    obtain ⟨-, rfl⟩ := hexec
    exact plain_silent rfl rfl rfl (by simp)
  | compute callee hw psp =>
    cases hexec
    exact plain_silent rfl rfl rfl (by simp)
  | stackWrite addr value =>
    cases hexec
    exact plain_silent rfl rfl rfl (by simp)
  | heapWrite addr value =>
    cases hexec
    exact plain_silent rfl rfl rfl (by simp)
  | _ => exact plain_loud hc hs rfl

/-- The records of a step that makes no memory call fit the fields they are sent in. -/
lemma plain_sized (h : Reaches img Lively labels k) (hp : Lively k l) (he : Emitted k l k' bs)
    (hmem : ∀ b ∈ bs, ¬memoryRecord b) : ∀ input ∈ bs.flatten, Sized input := by
  intro input hin
  refine emitted_sized h hp he hin fun hevent => ?_
  obtain ⟨b, hb, hi⟩ := List.mem_flatten.mp hin
  rcases site_shape (site_of_mem he.control b hb) with
    ⟨event, task, related, v0, v1, v2, rfl⟩ | ⟨tasks, selected, incumbent, excluded, purpose, rfl⟩
  · rw [List.mem_singleton.mp hi] at hevent
    refine hmem _ hb ⟨event, task, related, v0, v1, v2, ?_, rfl⟩
    exact hevent.imp (fun h0 => TraceEvent.code_injective h0) fun h0 => TraceEvent.code_injective h0
  · rcases selection_event hi with h0 | h0 <;> rcases hevent with h1 | h1 <;>
      exact absurd (TraceEvent.code_injective (h0.symm.trans h1)) (by decide)

/-- The records of a step that does not commit, create or call the allocator pass. -/
lemma plain_judged (h : Reaches img Lively labels k) (hp : Lively k l) (he : Emitted k l k' bs)
    (hmem : ∀ b ∈ bs, ¬memoryRecord b) (hl : l ≠ .pendCommit) (hl' : ∀ config, l ≠ .create config) :
    Judged k'.monotonicTicks bs.flatten True := by
  have hall : ∀ b ∈ bs, Judged k'.monotonicTicks b True := by
    intro b hb
    rcases site_judged h hp he hb (hmem b hb) with htrue | ⟨h0, -⟩ | ⟨config, i, t, h0, -⟩
    · exact htrue
    · exact absurd h0 hl
    · exact absurd h0 (hl' config)
  exact (judged_flatten hall).congr (iff_true_intro fun _ _ => trivial)

/-- **The verdict on a step.** Its records fit the fields they are sent in, and the validators
accept them exactly when the step is decodable. -/
theorem step_judged (h : Reaches img Lively labels k) (hp : Lively k l) (hs : Step img k l k') :
    ∃ bs, Emitted k l k' bs ∧ (∀ input ∈ bs.flatten, Sized input) ∧
      Judged k'.monotonicTicks bs.flatten (Decodable img k l) := by
  by_cases halloc : ∃ size, l = .alloc size
  · obtain ⟨size, rfl⟩ := halloc
    exact alloc_judged h hs
  by_cases hfree : ∃ pointer, l = .free pointer
  · obtain ⟨pointer, rfl⟩ := hfree
    exact free_judged h hs
  by_cases hcreate : ∃ config, l = .create config
  · obtain ⟨config, rfl⟩ := hcreate
    obtain ⟨bs, he, hmem, hjudged⟩ := create_judged h hp hs
    exact ⟨bs, he, plain_sized h hp he hmem, hjudged⟩
  rw [not_exists] at halloc hfree hcreate
  obtain ⟨bs, he, hmem⟩ := plain_of_step h.control hs halloc hfree hcreate
  refine ⟨bs, he, plain_sized h hp he hmem, ?_⟩
  by_cases hl : l = .pendCommit
  · subst hl
    exact commit_judged h hp he
  · refine (plain_judged h hp he hmem hl hcreate).congr (iff_of_true trivial ?_)
    cases l with
    | alloc size => exact absurd rfl (halloc size)
    | free pointer => exact absurd rfl (hfree pointer)
    | create config => exact absurd rfl (hcreate config)
    | pendCommit => exact absurd rfl hl
    | _ => trivial

end Aymos.TraceVerdict
