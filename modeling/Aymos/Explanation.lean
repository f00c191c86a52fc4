import Aymos.Canonical
import Aymos.Correlation

/-!
The explanations of `tools/aymos_lab/deadline_lab.py`.

Each selection of a trace is explained by the reason it states. Of a trace that has been accepted
the explanations are true: each says of the selected candidate what tells it from every other one.
-/

namespace Aymos.Explanation

open Scheduler Trace EmissionLog Decoder Validate Canonical Replay Scenario Lifecycle TraceVerdict
  Pipeline

/-! ### The sentences -/

/-- The names of `TASKS`, and of the tasks that it lacks. -/
def taskName : Option ℕ → String
  | some 0 => "idle"
  | some 1 => "sampler"
  | some 2 => "controller"
  | some 3 => "telemetry"
  | some 4 => "load"
  | some task => "task " ++ toString task
  | none => "task None"

/-- The reason texts. -/
def reasonText : SelectReason → Option String
  | .onlyReady => some "it was the only eligible task"
  | .deadline => some "it had the earliest absolute deadline"
  | .priority => some "its priority broke an equal-deadline tie"
  | .stableTid => some "its stable task ID broke the remaining tie"
  | .excludedFallback => some "the voluntary-yield exclusion had no alternative"
  | .idle => none

/-- How a reason is written. -/
def shownReason (details : SelectDetails) : String :=
  match details.reason with
  | some reason => reasonName reason
  | none => "unknown:" ++ toString details.reasonCode

/-- The candidates of an explanation. -/
def choices (candidates : List Candidate) : String :=
  String.intercalate ", " (candidates.map fun candidate =>
    taskName candidate.task ++ " (deadline " ++ toString candidate.absoluteDeadline ++
      ", priority " ++ toString candidate.priority ++ ")")

/-- The last sentence of an explanation. -/
def suffix (candidates : List Candidate) : String :=
  if choices candidates = "" then "" else " Candidates: " ++ choices candidates ++ "."

/-- `explain_selection`. -/
def explainSelection (record : DecodedRecord) (candidates : List Candidate) : String :=
  if record.task = some 0 then "The kernel selected idle because no user task was ready."
  else
    let details := selectDetails record
    let text := (details.reason.bind reasonText).getD
      ("the trace reported reason " ++ shownReason details)
    "The kernel selected " ++ taskName record.task ++ " because " ++ text ++ "." ++
      suffix candidates

/-- One selection, explained. -/
structure Decision where
  tick : ℕ
  sequence : ℕ
  selected : Option ℕ
  incumbent : Option ℕ
  purpose : Option SelectPurpose
  reason : Option SelectReason
  explanation : String

/-- The candidates of a selection, among the records that follow it. -/
def candidatesOf (record : DecodedRecord) (records : List DecodedRecord) : List Candidate :=
  (records.take (selectDetails record).candidateCount).map candidateDetails

def decision (record : DecodedRecord) (records : List DecodedRecord) : Decision :=
  { tick := record.tick
    sequence := record.sequence
    selected := record.task
    incumbent := record.related
    purpose := (selectDetails record).purpose
    reason := (selectDetails record).reason
    explanation := explainSelection record (candidatesOf record records) }

/-- `selection_decisions`. -/
def selectionDecisions : List DecodedRecord → List Decision
  | [] => []
  | record :: records =>
    if record.event ≠ .taskSelect then selectionDecisions records
    else decision record records :: selectionDecisions records

/-! ### What a reason says -/

/-- **What a reason says** of a candidate that is selected, among all of them. -/
def Says (items : List Candidate) (excluded : Option ℕ) (c : Candidate) : SelectReason → Prop
  | .onlyReady => items.filter (·.task ≠ excluded) = [c]
  | .deadline => (∃ d ∈ items, d.task ≠ excluded ∧ d.task ≠ c.task) ∧
    ∀ d ∈ items, d.task ≠ excluded → d.task ≠ c.task → c.absoluteDeadline < d.absoluteDeadline
  | .priority => (∃ d ∈ items, d.task ≠ excluded ∧ d.task ≠ c.task ∧
      d.absoluteDeadline = c.absoluteDeadline) ∧
    ∀ d ∈ items, d.task ≠ excluded → d.task ≠ c.task → c.absoluteDeadline < d.absoluteDeadline ∨
      c.absoluteDeadline = d.absoluteDeadline ∧ c.priority < d.priority
  | .stableTid => (∃ d ∈ items, d.task ≠ excluded ∧ d.task ≠ c.task ∧
      d.absoluteDeadline = c.absoluteDeadline ∧ d.priority = c.priority) ∧
    ∀ d ∈ items, d.task ≠ excluded → d.task ≠ c.task → KeyLe c d ∧
      (d.absoluteDeadline = c.absoluteDeadline → d.priority = c.priority →
        c.task.getD 0 < d.task.getD 0)
  | .excludedFallback => c.task = excluded ∧ ∀ d ∈ items, d.task = excluded
  | .idle => False

variable {record : DecodedRecord} {records candidates : List DecodedRecord}
  {items : List Candidate} {c : Candidate}

/-! ### The winner -/

instance : Std.Total KeyLe := ⟨fun a b => by unfold KeyLe; omega⟩

instance : IsTrans Candidate KeyLe := ⟨fun a b c => by unfold KeyLe; omega⟩

lemma keyLe_refl (a : Candidate) : KeyLe a a := Or.inr ⟨rfl, Or.inr ⟨rfl, le_rfl⟩⟩

/-- The first of the sorted candidates goes before the second, and the second before the rest. -/
lemma sorted_least {first second d : Candidate} {rest : List Candidate}
    (h : items.insertionSort KeyLe = first :: second :: rest) (hd : d ∈ items) (hne : d ≠ first) :
    KeyLe first second ∧ KeyLe second d := by
  have hpair := List.pairwise_insertionSort KeyLe items
  rw [← List.mem_insertionSort KeyLe, h] at hd
  rw [h, List.pairwise_cons, List.pairwise_cons] at hpair
  refine ⟨hpair.1 second List.mem_cons_self, ?_⟩
  rcases List.mem_cons.mp ((List.mem_cons.mp hd).resolve_left hne) with rfl | hd
  · exact keyLe_refl _
  · exact hpair.2.1 d hd

/-- Candidates have a task, and no two have the same. -/
structure Named (items : List Candidate) : Prop where
  distinct : (items.map (·.task)).Nodup
  some : ∀ c ∈ items, c.task ≠ none

lemma Named.task_ne {d : Candidate} (h : Named items) (hc : c ∈ items) (hd : d ∈ items)
    (hne : c.task ≠ d.task) : c.task.getD 0 ≠ d.task.getD 0 := by
  obtain ⟨i, hi⟩ := Option.ne_none_iff_exists'.mp (h.some c hc)
  obtain ⟨j, hj⟩ := Option.ne_none_iff_exists'.mp (h.some d hd)
  rw [hi, hj] at hne ⊢
  exact fun heq => hne (congrArg Option.some heq)

/-- The tasks of some of the candidates, sorted, are distinct as well. -/
lemma Named.sorted (h : Named items) (p : Candidate → Bool) :
    (((items.filter p).insertionSort KeyLe).map (·.task)).Nodup :=
  ((List.perm_insertionSort _ _).map _).nodup_iff.mpr
    (h.distinct.sublist (List.filter_sublist.map _))

/-- **The reason of a selection among several** is true of the first. -/
lemma says_of_sorted {excluded : Option ℕ} {first second : Candidate} {rest : List Candidate}
    (hnamed : Named items)
    (h : (items.filter (·.task ≠ excluded)).insertionSort KeyLe = first :: second :: rest) :
    Says items excluded first (expectedReason false (first :: second :: rest)) := by
  have hmem : ∀ d, d ∈ first :: second :: rest ↔ d ∈ items ∧ d.task ≠ excluded := fun d => by
    rw [← h, List.mem_insertionSort, List.mem_filter, decide_eq_true_eq]
  obtain ⟨hfirst, -⟩ := (hmem first).mp List.mem_cons_self
  obtain ⟨hsecond, hallowed⟩ := (hmem second).mp (List.mem_cons_of_mem _ List.mem_cons_self)
  have hne : second.task ≠ first.task := by
    have hnodup := hnamed.sorted fun c => c.task ≠ excluded
    rw [h, List.map_cons, List.map_cons, List.nodup_cons] at hnodup
    exact fun heq => hnodup.1 (heq ▸ List.mem_cons_self)
  have hleast : ∀ d ∈ items, d.task ≠ excluded → d.task ≠ first.task →
      KeyLe first second ∧ KeyLe second d := fun d hd hd' hdne =>
    sorted_least h (List.mem_filter.mpr ⟨hd, decide_eq_true hd'⟩) fun heq => hdne (heq ▸ rfl)
  rw [expectedReason]
  split
  · next hdead =>
    refine ⟨⟨second, hsecond, hallowed, hne⟩, fun d hd hd' hdne => ?_⟩
    obtain ⟨h1, h2⟩ := hleast d hd hd' hdne
    unfold KeyLe at h1 h2
    omega
  · next hdead =>
    rw [not_not] at hdead
    split
    · next hpriority =>
      refine ⟨⟨second, hsecond, hallowed, hne, hdead.symm⟩, fun d hd hd' hdne => ?_⟩
      obtain ⟨h1, h2⟩ := hleast d hd hd' hdne
      unfold KeyLe at h1 h2
      omega
    · next hpriority =>
      rw [not_not] at hpriority
      refine ⟨⟨second, hsecond, hallowed, hne, hdead.symm, hpriority.symm⟩,
        fun d hd hd' hdne => ?_⟩
      obtain ⟨h1, h2⟩ := hleast d hd hd' hdne
      have hle : KeyLe first d := IsTrans.trans _ _ _ h1 h2
      have htask := hnamed.task_ne hd hfirst hdne
      refine ⟨hle, fun hd1 hd2 => ?_⟩
      unfold KeyLe at hle
      omega

/-- **The reason of a selection** is true of the candidate that is selected. -/
lemma says_of_winner (hnamed : Named items)
    (heligible : ∀ c ∈ items, c.eligible = (c.task != (selectDetails record).excluded))
    (hzero : record.task ≠ some 0) (h : checkWinner record items = .ok ()) :
    ∃ c ∈ items, ∃ reason, c.task = record.task ∧ (selectDetails record).reason = some reason ∧
      Says items (selectDetails record).excluded c reason := by
  obtain ⟨excluded, hexcluded⟩ : ∃ excluded, excluded = (selectDetails record).excluded := ⟨_, rfl⟩
  have hfilter : items.filter (·.eligible) = items.filter (·.task ≠ excluded) :=
    List.filter_congr fun c hc => by
      rw [heligible c hc, hexcluded, Bool.eq_iff_iff, bne_iff_ne, decide_eq_true_eq]
  rw [checkWinner, if_neg hzero] at h
  dsimp only at h
  rw [hfilter, ← hexcluded] at h
  obtain ⟨-, h⟩ := ok_of_guard h
  obtain ⟨hhead, h⟩ := ok_of_guard h
  obtain ⟨hreason, -⟩ := ok_of_guard h
  rw [not_not] at hhead hreason
  rw [hreason, ← hexcluded]
  by_cases hfallback :
      ((items.filter (·.task ≠ excluded)).isEmpty && record.task == excluded) = true
  · -- only the task that yields is there
    rw [if_pos hfallback] at hhead ⊢
    obtain ⟨hempty, hyields⟩ := Bool.and_eq_true_iff.mp hfallback
    rw [List.isEmpty_iff] at hempty
    rw [beq_iff_eq] at hyields
    have hall : ∀ d ∈ items, d.task = excluded := fun d hd => by
      by_contra hne
      exact absurd hempty (List.ne_nil_of_mem (List.mem_filter.mpr ⟨hd, decide_eq_true hne⟩))
    have hnodup := hnamed.sorted fun c => c.task == record.task
    rw [hfallback]
    cases hsorted : (items.filter (·.task == record.task)).insertionSort KeyLe with
    | nil =>
      rw [hsorted] at hhead
      cases hhead
    | cons first rest =>
      rw [hsorted] at hhead hnodup
      have hmem : ∀ d ∈ first :: rest, d ∈ items := fun d hd => by
        rw [← hsorted, List.mem_insertionSort] at hd
        exact (List.mem_filter.mp hd).1
      refine ⟨first, hmem first List.mem_cons_self, _, Option.some.inj hhead, rfl, ?_⟩
      cases rest with
      | nil => exact ⟨hall first (hmem first List.mem_cons_self), hall⟩
      | cons second rest =>
        rw [List.map_cons, List.map_cons, List.nodup_cons] at hnodup
        have hsecond := hall second (hmem second (List.mem_cons_of_mem _ List.mem_cons_self))
        have hfirst := hall first (hmem first List.mem_cons_self)
        exact absurd (hfirst.trans hsecond.symm ▸ List.mem_cons_self) hnodup.1
  · rw [if_neg hfallback] at hhead ⊢
    rw [Bool.not_eq_true] at hfallback
    rw [hfallback]
    cases hsorted : (items.filter (·.task ≠ excluded)).insertionSort KeyLe with
    | nil =>
      rw [hsorted] at hhead
      cases hhead
    | cons first rest =>
      rw [hsorted] at hhead
      have hfirst : first.task = record.task := Option.some.inj hhead
      have hmem : first ∈ items := by
        have hin : first ∈ (items.filter (·.task ≠ excluded)).insertionSort KeyLe := by
          rw [hsorted]
          exact List.mem_cons_self
        exact (List.mem_filter.mp ((List.mem_insertionSort _).mp hin)).1
      refine ⟨first, hmem, _, hfirst, rfl, ?_⟩
      cases rest with
      | nil =>
        have hperm := List.perm_insertionSort KeyLe (items.filter (·.task ≠ excluded))
        rw [hsorted] at hperm
        exact List.perm_singleton.mp hperm.symm
      | cons second rest => exact says_of_sorted hnamed hsorted

/-! ### Accepted snapshots -/

/-- A check that is passed. -/
lemma ok_of_check {p : Prop} [Decidable p] {sequence : ℕ} {message : String}
    {rest : Except String Unit}
    (h : (if p then (do snapshotError sequence message; rest) else rest) = .ok ()) :
    ¬p ∧ rest = .ok () := by
  split at h
  · cases h
  · next hp => exact ⟨hp, h⟩

lemma named_of_links {seen : List (Option ℕ)} (h : checkLinks record seen candidates = .ok ()) :
    (candidates.map (·.task)).Nodup ∧ ∀ e ∈ candidates, e.task ≠ none ∧ e.task ∉ seen := by
  induction candidates generalizing seen with
  | nil => exact ⟨List.nodup_nil, fun e he => absurd he List.not_mem_nil⟩
  | cons e candidates ih =>
    rw [checkLinks] at h
    obtain ⟨htask, h⟩ := ok_of_guard h
    obtain ⟨-, h⟩ := ok_of_guard h
    obtain ⟨hnodup, hseen⟩ := ih h
    rw [not_or, not_or] at htask
    refine ⟨List.nodup_cons.mpr ⟨fun hin => ?_, hnodup⟩, List.forall_mem_cons.mpr
      ⟨⟨htask.1, htask.2.2⟩, fun e' he' => ?_⟩⟩
    · obtain ⟨e', he', heq⟩ := List.mem_map.mp hin
      exact (hseen e' he').2 (heq ▸ List.mem_cons_self)
    · obtain ⟨hsome, hnew⟩ := hseen e' he'
      exact ⟨hsome, fun hin => hnew (List.mem_cons_of_mem _ hin)⟩

lemma none_of_rejectAny {bad : Candidate → Bool} {message : String}
    (h : rejectAny items bad message = .ok ()) : ∀ c ∈ items, bad c = false := by
  rw [rejectAny] at h
  split at h
  · cases h
  · next hnone => exact fun c hc => by simpa using List.find?_eq_none.mp hnone c hc

/-- **What is checked of a snapshot.** -/
structure Snapshot (record : DecodedRecord) (items : List Candidate) : Prop where
  named : Named items
  eligible : ∀ c ∈ items, c.eligible = (c.task != (selectDetails record).excluded)
  winner : checkWinner record items = .ok ()

lemma snapshot_of_ok (h : checkSnapshot record candidates = .ok ()) :
    Snapshot record (candidates.map candidateDetails) := by
  rw [checkSnapshot] at h
  dsimp only at h
  obtain ⟨-, h⟩ := ok_of_check h
  obtain ⟨hlinks, h⟩ := bind_unit_eq_ok.mp h
  obtain ⟨-, h⟩ := ok_of_check h
  obtain ⟨-, h⟩ := ok_of_check h
  obtain ⟨-, h⟩ := bind_unit_eq_ok.mp h
  obtain ⟨-, h⟩ := bind_unit_eq_ok.mp h
  obtain ⟨heligible, hwinner⟩ := bind_unit_eq_ok.mp h
  obtain ⟨hnodup, hsome⟩ := named_of_links hlinks
  refine ⟨⟨?_, ?_⟩, fun c hc => ?_, hwinner⟩
  · rw [List.map_map]
    exact hnodup
  · exact List.forall_mem_map.mpr fun e he => (hsome e he).1
  · exact bne_eq_false_iff_eq.mp (none_of_rejectAny heligible c hc)

/-- An idle selection has no candidate. -/
lemma Snapshot.idle (h : Snapshot record items) (hzero : record.task = some 0) :
    items = [] ∧ (selectDetails record).readyMask = 0 := by
  have hwinner := h.winner
  rw [checkWinner, if_pos hzero] at hwinner
  obtain ⟨hno, -⟩ := ok_of_guard hwinner
  simp only [not_or, not_not] at hno
  exact ⟨hno.1, hno.2.2.1⟩

/-- **Every selection of the records** has been checked. -/
lemma snapshots_checked {skip : ℕ} (h : validateSnapshotsFrom skip records = .ok ())
    (hskip : ∀ r ∈ records.take skip, r.event = .selectCandidate) {d : Decision}
    (hd : d ∈ selectionDecisions records) : ∃ before record after,
      records = before ++ record :: after ∧ record.event = .taskSelect ∧
        d = decision record after ∧ Snapshot record (candidatesOf record after) := by
  induction records generalizing skip with
  | nil => exact absurd hd List.not_mem_nil
  | cons record records ih =>
    have hlater : ∀ {skip}, validateSnapshotsFrom skip records = .ok () →
        (∀ r ∈ records.take skip, r.event = .selectCandidate) → d ∈ selectionDecisions records →
        ∃ before record' after, record :: records = before ++ record' :: after ∧
          record'.event = .taskSelect ∧ d = decision record' after ∧
            Snapshot record' (candidatesOf record' after) := by
      intro skip h hskip hd
      obtain ⟨before, record', after, heq, hevent, hd, hsnap⟩ := ih h hskip hd
      exact ⟨record :: before, record', after, congrArg (record :: ·) heq, hevent, hd, hsnap⟩
    rw [selectionDecisions] at hd
    cases skip with
    | succ skip =>
      rw [List.take_succ_cons, List.forall_mem_cons] at hskip
      have hne : record.event ≠ .taskSelect := by
        rw [hskip.1]
        decide
      rw [if_pos hne] at hd
      exact hlater h hskip.2 hd
    | zero =>
      rw [validateSnapshotsFrom] at h
      split at hd
      · next hne =>
        rw [if_pos hne] at h
        obtain ⟨-, h⟩ := ok_of_guard h
        exact hlater h (fun r hr => absurd hr (by simp)) hd
      · next hselect =>
        rw [if_neg hselect] at h
        dsimp only at h
        obtain ⟨-, h⟩ := ok_of_guard h
        obtain ⟨hall, h⟩ := ok_of_guard h
        obtain ⟨hsnap, h⟩ := bind_unit_eq_ok.mp h
        rw [not_or, Bool.not_eq_true, List.any_eq_false] at hall
        rcases List.mem_cons.mp hd with rfl | hd
        · exact ⟨[], record, records, rfl, not_not.mp hselect, rfl, snapshot_of_ok hsnap⟩
        · refine hlater h (fun r hr => ?_) hd
          simpa using hall.2 r hr

/-- **The explanations of an accepted trace are true.** Each is about a selection of the trace and
the candidates after it. Idle is selected where there is no candidate; otherwise the stated reason is
one of the known ones, and tells the selected candidate from all the others. -/
theorem explanations_true {data : List UInt8} {trace : DecodedTrace} (h : decode data = .ok trace)
    {d : Decision} (hd : d ∈ selectionDecisions trace.records) : ∃ before record after,
      trace.records = before ++ record :: after ∧ record.event = .taskSelect ∧
        d = decision record after ∧
        ((d.selected = some 0 ∧ candidatesOf record after = [] ∧
            (selectDetails record).readyMask = 0 ∧
            d.explanation = "The kernel selected idle because no user task was ready.") ∨
          ∃ c ∈ candidatesOf record after, ∃ reason text, c.task = d.selected ∧
            d.reason = some reason ∧ reasonText reason = some text ∧
            Says (candidatesOf record after) (selectDetails record).excluded c reason ∧
            d.explanation = "The kernel selected " ++ taskName d.selected ++ " because " ++ text ++
              "." ++ suffix (candidatesOf record after)) := by
  have hsnap : validateSelectionSnapshots trace.records = .ok () :=
    (decode_ok_iff.mp h).2.1.snapshots
  obtain ⟨before, record, after, hrecords, hevent, rfl, hsnap⟩ :=
    snapshots_checked hsnap (fun r hr => absurd hr (by simp)) hd
  refine ⟨before, record, after, hrecords, hevent, rfl, ?_⟩
  by_cases hzero : record.task = some 0
  · obtain ⟨hnone, hmask⟩ := hsnap.idle hzero
    exact Or.inl ⟨hzero, hnone, hmask, if_pos hzero⟩
  · obtain ⟨c, hc, reason, htask, hreason, hsays⟩ :=
      says_of_winner hsnap.named hsnap.eligible hzero hsnap.winner
    obtain ⟨text, htext⟩ : ∃ text, reasonText reason = some text := by
      cases reason with
      | idle => exact absurd hsays id
      | _ => exact ⟨_, rfl⟩
    refine Or.inr ⟨c, hc, reason, text, htask, hreason, htext, hsays, ?_⟩
    show explainSelection record _ = _
    rw [explainSelection, if_neg hzero]
    simp only [hreason, Option.bind_some, htext, Option.getD_some]
    rfl

/-- A run with one task, up to its first instruction. -/
theorem explanations_true_solo : ∃ data trace d, decode data = .ok trace ∧
    d ∈ selectionDecisions trace.records ∧
    d.explanation = "The kernel selected sampler because it was the only eligible task." ++
      " Candidates: sampler (deadline 100, priority 0)." ∧
    ∃ before record after, trace.records = before ++ record :: after ∧
      record.event = .taskSelect ∧ d = decision record after := by
  obtain ⟨labels, k, hr, -⟩ := stage_launched (oneShot 0 100) (by decide) (by decide)
  have hlively := lively_of_disciplined hr
  have hd := (decode_fits hlively (by decide)).mpr ⟨rfl, by rfl, by decide⟩
  obtain ⟨before, record, after, hrecords, hevent, hdecision, -⟩ :=
    explanations_true hd List.mem_cons_self
  exact ⟨_, _, _, hd, List.mem_cons_self, rfl, before, record, after, hrecords, hevent, hdecision⟩

end Aymos.Explanation
