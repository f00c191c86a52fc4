import Aymos.Pipeline
import Aymos.Timeline

/-!
The correlation checks of `validate_schedule_projection` in `tools/aymos_lab/deadline_lab.py`.

The host pairs the dispatches of a trace with its switches, in order. Each commit of the kernel
emits one of either, so that on the trace of a run the pairs are those of the commits, and the
checks raise nothing.
-/

namespace Aymos.Correlation

open Words Scheduler Trace WordMem Kernel Machine Handlers Switch Slots Select Control Boot
  EmissionLog Safety Startup Scenario RingHistory Wire Decoder RoundTrip Validate Acceptance
  Snapshot Replay Selections Lifecycle RecordRange TraceVerdict Pipeline Timeline

/-! ### The checks -/

/-- The selections that were made to dispatch. -/
def dispatches (records : List DecodedRecord) : List DecodedRecord :=
  records.filter fun r => r.event == .taskSelect && (selectDetails r).purpose == some .dispatch

/-- `_expect`, with how a value is shown. -/
def expect {α : Type} [DecidableEq α] (shown : α → String) (actual expected : α) (label : String) :
    Except String Unit :=
  if actual ≠ expected then
    .error ("Scheduling workload " ++ label ++ " mismatch: got " ++ shown actual ++ ", expected " ++
      shown expected)
  else .ok ()

def showTask : Option ℕ → String
  | none => "None"
  | some task => s!"{task}"

/-- A tuple of a tick and two tasks. -/
def showProjection (p : ℕ × Option ℕ × Option ℕ) : String :=
  "(" ++ toString p.1 ++ ", " ++ showTask p.2.1 ++ ", " ++ showTask p.2.2 ++ ")"

/-- The loop over the pairs of a dispatch and a switch. -/
def checkPairs : List (DecodedRecord × DecodedRecord) → Except String Unit
  | [] => .ok ()
  | (dispatch, switch) :: pairs => do
    expect showProjection (dispatch.tick, dispatch.task, dispatch.related)
      (switch.tick, switch.related, switch.task) "dispatch/switch correlation"
    if dispatch.sequence ≥ switch.sequence then
      .error "Scheduler dispatch does not precede its committed switch"
    else checkPairs pairs

/-- The part of `validate_schedule_projection` that is not about one workload. -/
def validateCorrelation (records : List DecodedRecord) : Except String Unit := do
  expect toString (dispatches records).length (switches records).length "dispatch/switch count"
  checkPairs ((dispatches records).zip (switches records))

/-- A dispatch and the switch that commits it. -/
structure Pairs (dispatch switch : DecodedRecord) : Prop where
  tick : dispatch.tick = switch.tick
  incoming : dispatch.task = switch.related
  outgoing : dispatch.related = switch.task
  before : dispatch.sequence < switch.sequence

/-- **The checks accept paired lists.** -/
lemma checkPairs_ok {ds ss : List DecodedRecord} (h : List.Forall₂ Pairs ds ss) :
    checkPairs (ds.zip ss) = .ok () := by
  induction h with
  | nil => rfl
  | @cons d t ds ss hp _ ih =>
    have hsame : expect showProjection (d.tick, d.task, d.related) (t.tick, t.related, t.task)
        "dispatch/switch correlation" = .ok () := by
      rw [expect, hp.tick, hp.incoming, hp.outgoing, if_neg (not_not.mpr rfl)]
    rw [List.zip_cons_cons, checkPairs, hsame]
    exact (if_neg (not_le.mpr hp.before)).trans ih

lemma validateCorrelation_ok {records : List DecodedRecord}
    (h : List.Forall₂ Pairs (dispatches records) (switches records)) :
    validateCorrelation records = .ok () := by
  have hcount : expect toString (dispatches records).length (switches records).length
      "dispatch/switch count" = .ok () := if_neg (not_not.mpr h.length_eq)
  rw [validateCorrelation, hcount]
  exact checkPairs_ok h

/-! ### The records of a step -/

variable {img : Image} {P : KernelState → Label → Prop} {labels : List Label} {k k' : KernelState}
  {c : Ctl} {l : Label} {log : Log} {b : List TraceInput} {bs : List (List TraceInput)} {tick s : ℕ}

/-- Records that are neither dispatches nor switches. -/
def Aside (ds : List DecodedRecord) : Prop := dispatches ds = [] ∧ switches ds = []

lemma aside_nil : Aside [] := ⟨rfl, rfl⟩

lemma dispatches_append (ds es : List DecodedRecord) :
    dispatches (ds ++ es) = dispatches ds ++ dispatches es := List.filter_append ..

lemma switches_append (ds es : List DecodedRecord) :
    switches (ds ++ es) = switches ds ++ switches es := List.filter_append ..

lemma Aside.append {ds es : List DecodedRecord} (h : Aside ds) (h' : Aside es) :
    Aside (ds ++ es) :=
  ⟨by rw [dispatches_append, h.1, h'.1]; rfl, by rw [switches_append, h.2, h'.2]; rfl⟩

lemma aside_record {event : TraceEvent} {task related v0 v1 v2 : ℕ} (h1 : event ≠ .taskSelect)
    (h2 : event ≠ .contextSwitch) :
    Aside (decodedBatch tick s [record event task related v0 v1 v2]) := by
  have hbatch : decodedBatch tick s [record event task related v0 v1 v2] =
      [decodedInput tick (u32 s) (record event task related v0 v1 v2)] := rfl
  rw [hbatch]
  constructor
  · simp [dispatches, h1]
  · simp [switches, h2]

section Selection

variable {tasks : ℕ → SchedTask} {selected incumbent excluded : ℕ} {purpose : SelectPurpose}

lemma aside_candidates : Aside (candidateEntries tasks selected incumbent excluded purpose tick s) := by
  have hevent : ∀ d ∈ candidateEntries tasks selected incumbent excluded purpose tick s,
      d.event = .selectCandidate := fun d hd => by
    obtain ⟨i, -, n, rfl⟩ := mem_candidateEntries hd
    exact decodedInput_event ..
  constructor <;> refine List.filter_eq_nil_iff.mpr fun d hd => ?_
  · simp [hevent d hd]
  · simp [hevent d hd]

/-- What a selection adds to the dispatches. -/
lemma dispatches_selection (hx : Excludable excluded) :
    dispatches (decodedBatch tick s
      (selectionInputs tasks osTaskCount selected incumbent excluded purpose)) =
        (if purpose = .dispatch then
          [decodedInput tick (u32 s) (selectInput tasks selected incumbent excluded purpose)]
        else []) ∧
      switches (decodedBatch tick s
        (selectionInputs tasks osTaskCount selected incumbent excluded purpose)) = [] := by
  have hdet := @selectDetails_eq tasks selected incumbent _ purpose tick (u32 s) hx
  have hevent : (decodedInput tick (u32 s)
      (selectInput tasks selected incumbent excluded purpose)).event = .taskSelect :=
    decodedInput_event ..
  have hpurpose : (selectDetails (decodedInput tick (u32 s)
      (selectInput tasks selected incumbent excluded purpose))).purpose = some purpose := by
    rw [hdet]
    rfl
  obtain ⟨hd, hs⟩ := @aside_candidates tick (s + 1) tasks selected incumbent excluded purpose
  rw [dispatches] at hd
  rw [switches] at hs
  rw [batch_eq, dispatches, switches, List.filter_cons, List.filter_cons, hd, hs, hevent, hpurpose]
  refine ⟨?_, rfl⟩
  by_cases hp : purpose = .dispatch <;> simp [hp]

end Selection

/-- The sites outside a commit show neither dispatches nor switches. -/
lemma site_aside (hsite : Site c l b) (hl : l ≠ .pendCommit) : Aside (decodedBatch tick s b) := by
  cases hsite with
  | memory _ hrec =>
    obtain ⟨event, task, related, v0, v1, v2, hev, rfl⟩ := hrec
    rcases hev with rfl | rfl
    · exact aside_record (by decide) (by decide)
    · exact aside_record (by decide) (by decide)
  | tickProbe => exact dispatches_selection (Or.inl rfl)
  | createProbe => exact dispatches_selection (Or.inl rfl)
  | ownerRelease => exact absurd rfl hl
  | dispatch => exact absurd rfl hl
  | idleStop => exact absurd rfl hl
  | idleStart => exact absurd rfl hl
  | preempt => exact absurd rfl hl
  | switch => exact absurd rfl hl
  | start => exact absurd rfl hl
  | _ => exact aside_record (by decide) (by decide)

lemma aside_flatten (h : ∀ b ∈ bs, ∀ s, Aside (decodedBatch tick s b)) (s : ℕ) :
    Aside (decodedBatch tick s bs.flatten) := by
  induction bs generalizing s with
  | nil => exact aside_nil
  | cons b bs ih =>
    rw [List.flatten_cons, decodedBatch_append]
    exact (h b List.mem_cons_self s).append (ih (fun b hb => h b (List.mem_cons_of_mem _ hb)) _)

/-- The records between the dispatch of a commit and its switch. -/
def between (c : Ctl) (n : ℕ) : List (List TraceInput) :=
  (if c.current = taskIdIdle ∧ n ≠ taskIdIdle then [[record .idleStop taskIdIdle n 0 0 0]]
    else []) ++
  (if n = taskIdIdle ∧ c.current ≠ taskIdIdle then
    [[record .idleStart taskIdIdle (traceTask c.current) 0 0 0]] else []) ++
  (if c.sources ≠ 0 then [[record .taskPreempt c.current n c.sources 0 0]] else [])

/-- The record of a first start. -/
def starts (c : Ctl) (n : ℕ) : List (List TraceInput) :=
  if n ≠ taskIdIdle ∧ (retired c).started n = false then
    [[deadlineRecord .taskStart n ((retired c).schedules n)]] else []

/-- The dispatch of a commit. -/
def dispatchInputs (c : Ctl) : List TraceInput :=
  selectionInputs (retired c).schedules osTaskCount (next (retired c)) c.current c.excluded .dispatch

lemma commit_flatten (c : Ctl) (freed : List (List TraceInput)) :
    (commitBatches c (retired c) freed).flatten = freed.flatten ++ (dispatchInputs c ++
      ((between c (next (retired c))).flatten ++ ([switchRecord c] ++
        (starts c (next (retired c))).flatten))) := by
  rw [commitBatches, switchBatches, retired_cause, retired_excluded]
  simp only [List.flatten_append, List.flatten_singleton, List.append_assoc, dispatchInputs,
    between, starts, switchRecord]

lemma aside_between (n : ℕ) : Aside (decodedBatch tick s (between c n).flatten) := by
  refine aside_flatten (fun b hb s => ?_) s
  simp only [between, List.mem_append] at hb
  rcases hb with (hb | hb) | hb
  · rw [(mem_ite hb).2]
    exact aside_record (by decide) (by decide)
  · rw [(mem_ite hb).2]
    exact aside_record (by decide) (by decide)
  · rw [(mem_ite hb).2]
    exact aside_record (by decide) (by decide)

lemma aside_starts (n : ℕ) : Aside (decodedBatch tick s (starts c n).flatten) := by
  refine aside_flatten (fun b hb s => ?_) s
  rw [(mem_ite hb).2]
  exact aside_record (by decide) (by decide)

lemma aside_freed {freed : List (List TraceInput)}
    (hfreed : freed = [] ∨ ∃ released, freed = releaseBatches c.current released) :
    Aside (decodedBatch tick s freed.flatten) := by
  rcases hfreed with rfl | ⟨released, rfl⟩
  · exact aside_nil
  · refine aside_flatten (fun b hb s => ?_) s
    rw [(mem_ite hb).2]
    exact aside_record (by decide) (by decide)

/-- What a switch adds. -/
lemma switches_switch : dispatches (decodedBatch tick s [switchRecord c]) = [] ∧
    switches (decodedBatch tick s [switchRecord c]) =
      [decodedInput tick (u32 s) (switchRecord c)] := by
  have hbatch : decodedBatch tick s [switchRecord c] =
      [decodedInput tick (u32 s) (switchRecord c)] := rfl
  have hevent : (decodedInput tick (u32 s) (switchRecord c)).event = .contextSwitch :=
    decodedInput_event ..
  rw [hbatch]
  constructor
  · simp [dispatches, hevent]
  · simp [switches, hevent]

/-- **A commit shows its dispatch, then its switch**, and no other of either. -/
lemma commit_pairs (hinv : ControlInv c) (hstays : IdleStays c) {freed : List (List TraceInput)}
    (hfreed : freed = [] ∨ ∃ released, freed = releaseBatches c.current released)
    (hroom : s + (commitBatches c (retired c) freed).flatten.length ≤ 2 ^ 32) :
    ∃ d t, dispatches (decodedBatch tick s (commitBatches c (retired c) freed).flatten) = [d] ∧
      switches (decodedBatch tick s (commitBatches c (retired c) freed).flatten) = [t] ∧
      Pairs d t := by
  rw [commit_flatten] at hroom ⊢
  simp only [List.length_append, List.length_singleton] at hroom
  have hpos : 1 ≤ (dispatchInputs c).length := Nat.le_add_left 1 _
  have hx := excludable hinv hstays
  simp only [decodedBatch_append, dispatches_append, switches_append, (aside_freed hfreed).1,
    (aside_freed hfreed).2, (aside_between _).1, (aside_between _).2, (aside_starts _).1,
    (aside_starts _).2, switches_switch.1, switches_switch.2, dispatchInputs,
    (dispatches_selection hx).1, (dispatches_selection hx).2, if_true, List.nil_append,
    List.append_nil]
  refine ⟨_, _, rfl, rfl, rfl, rfl, rfl, ?_⟩
  have hu : ∀ n, n < 2 ^ 32 → u32 n = n := fun n hn => Nat.mod_eq_of_lt hn
  rw [dispatchInputs] at hroom hpos
  rw [decodedInput_sequence, decodedInput_sequence, hu _ (by omega), hu _ (by omega)]
  omega

/-! ### The trace of a run -/

def isCommit : Label → Bool
  | .pendCommit => true
  | _ => false

/-- **The pairs of a run** are those of its commits. -/
theorem paired (h : Logged img Lively labels k log) (hfits : log.length ≤ 2 ^ 32) :
    List.Forall₂ Pairs (dispatches (decodedLog log)) (switches (decodedLog log)) ∧
      (switches (decodedLog log)).length = labels.countP isCommit := by
  induction h with
  | boot => exact ⟨.nil, rfl⟩
  | @step labels log k k' l bs hr hp hs he ih =>
    have hlen : (log ++ entries k'.monotonicTicks bs).length = log.length + bs.flatten.length := by
      rw [List.length_append, entries, List.length_map]
    obtain ⟨hpairs, hcount⟩ := ih (by omega)
    rw [decodedLog_append, dispatches_append, switches_append]
    by_cases hl : l = .pendCommit
    · subst hl
      have hmeasured := measured_of_reaches hr.reaches
      obtain ⟨freed, hfreed, hbs⟩ := (commit_inv he.control).batches
      rw [hlen, hbs] at hfits
      obtain ⟨d, t, hd, ht, hpair⟩ := @commit_pairs (ctl k) k'.monotonicTicks log.length
        hmeasured.inv hmeasured.stays freed hfreed hfits
      rw [hbs, hd, ht, List.length_append, hcount, List.countP_cons_of_pos rfl]
      exact ⟨List.rel_append hpairs (.cons hpair .nil), rfl⟩
    · have hno : isCommit l = false := by
        cases l with
        | pendCommit => exact absurd rfl hl
        | _ => rfl
      obtain ⟨hd, ht⟩ := @aside_flatten bs k'.monotonicTicks
        (fun b hb s => site_aside (site_of_mem he.control b hb) hl) log.length
      rw [hd, ht, List.append_nil, List.append_nil, List.countP_cons_of_neg (by simp [hno])]
      exact ⟨hpairs, hcount⟩

/-- **The correlation checks pass.** On the trace of a run that the decoder accepts, the dispatches
and the switches are as many as the commits, and each pair agrees on its tick and its two tasks, the
dispatch first. -/
theorem correlation_holds (h : Logged img Lively labels k log) {trace : DecodedTrace}
    (hd : decode (received k) = .ok trace) : validateCorrelation trace.records = .ok () ∧
      (switches trace.records).length = labels.countP isCommit := by
  have hfits := decode_lost h hd
  obtain ⟨rfl, -⟩ := (decode_fits h hfits).mp hd
  obtain ⟨hpairs, hcount⟩ := paired h (hfits.trans (by decide))
  exact ⟨validateCorrelation_ok hpairs, hcount⟩

/-- A run with one task, up to its first instruction: one dispatch and one switch. -/
theorem correlation_holds_solo : ∃ labels k log trace, Logged sampleImage Lively labels k log ∧
    decode (received k) = .ok trace ∧ (switches trace.records).length = 1 ∧
      validateCorrelation trace.records = .ok () ∧
        (switches trace.records).length = labels.countP isCommit := by
  obtain ⟨labels, k, hr, -⟩ := stage_launched (oneShot 0 100) (by decide) (by decide)
  have hlively := lively_of_disciplined hr
  have hd := (decode_fits hlively (by decide)).mpr ⟨rfl, by rfl, by decide⟩
  exact ⟨labels, k, _, _, hlively, hd, by rfl, correlation_holds hlively hd⟩

end Aymos.Correlation
