import Aymos.Acceptance
import Aymos.BitFields

/-!
Selection batches and the decoder's replay of them.

The decoder sorts the candidates of a batch by their keys and compares the winner and the reason
with those the kernel found by its own searches. On a table whose keys fit the fields of the
records everything else it checks holds, and the winner is accepted exactly when it is the least.
-/

namespace Aymos.Snapshot

open Words BitFields LeastSearch Scheduler Trace Decoder RoundTrip Validate Select RingHistory
  Kernel Handlers Acceptance

/-- A table whose keys fit the fields of the records. -/
structure Fits (tasks : ℕ → SchedTask) : Prop where
  id : ∀ i < osTaskCount, (tasks i).id = i
  priority : ∀ i ∈ userSlots, (tasks i).priority < 2 ^ 8
  deadline : ∀ i ∈ userSlots, (tasks i).jobActive = true → (tasks i).absoluteDeadlineOrder < 2 ^ 64

variable {tasks : ℕ → SchedTask} {selected incumbent excluded : ℕ} {purpose : SelectPurpose}
  {tick sequence i : ℕ}

/-- The tasks that a batch lists. -/
def candidates (tasks : ℕ → SchedTask) (incumbent : ℕ) (purpose : SelectPurpose) : List ℕ :=
  userSlots.filter (isCandidate tasks incumbent purpose)

/-- Those that are not excluded. -/
def eligible (tasks : ℕ → SchedTask) (incumbent excluded : ℕ) (purpose : SelectPurpose) : List ℕ :=
  (candidates tasks incumbent purpose).filter fun i => i ≠ excluded

/-- The reason that the kernel records. -/
def reason (tasks : ℕ → SchedTask) (selected incumbent excluded : ℕ) (purpose : SelectPurpose) :
    SelectReason :=
  selectionReason tasks osTaskCount selected incumbent excluded purpose
    (eligible tasks incumbent excluded purpose).length

/-- The first record of a batch. -/
def selectInput (tasks : ℕ → SchedTask) (selected incumbent excluded : ℕ)
    (purpose : SelectPurpose) : TraceInput :=
  record .taskSelect selected (if incumbent = taskIdInvalid then traceTaskInvalid else incumbent)
    (readyMask tasks osTaskCount)
    ((reason tasks selected incumbent excluded purpose).code ||| (purpose.code <<< 8) |||
      ((if excluded = taskIdInvalid then uint8Max else excluded) <<< 16) |||
      ((eligible tasks incumbent excluded purpose).length <<< 24))
    (candidates tasks incumbent purpose).length

lemma selectionInputs_eq : selectionInputs tasks osTaskCount selected incumbent excluded purpose =
    selectInput tasks selected incumbent excluded purpose ::
      (candidates tasks incumbent purpose).map (candidateInput tasks selected incumbent excluded) :=
  rfl

/-! ### Candidates -/

lemma candidates_nodup : (candidates tasks incumbent purpose).Nodup := userSlots_nodup.filter _

lemma mem_candidates : i ∈ candidates tasks incumbent purpose ↔
    i ∈ userSlots ∧ (IsReady (tasks i) ∨
      (i = incumbent ∧ (tasks i).state = .running ∧ (tasks i).jobActive = true ∧
        purpose ≠ .dispatch)) := by
  simp only [candidates, List.mem_filter, isCandidate, Bool.or_eq_true, Bool.and_eq_true,
    beq_iff_eq, bne_iff_ne, ne_eq, IsReady, and_assoc]

lemma mem_eligible : i ∈ eligible tasks incumbent excluded purpose ↔
    i ∈ candidates tasks incumbent purpose ∧ i ≠ excluded := by
  simp only [eligible, List.mem_filter, decide_eq_true_eq]

lemma candidate_active (h : i ∈ candidates tasks incumbent purpose) :
    i ∈ userSlots ∧ (tasks i).jobActive = true ∧
      ((tasks i).state = .ready ∨ (tasks i).state = .running) := by
  obtain ⟨hu, hr | ⟨-, hs, ha, -⟩⟩ := mem_candidates.mp h
  · exact ⟨hu, hr.2, Or.inl hr.1⟩
  · exact ⟨hu, ha, Or.inr hs⟩

lemma candidates_length_le : (candidates tasks incumbent purpose).length ≤ 4 := by
  exact List.length_filter_le _ userSlots

lemma eligible_length_le : (eligible tasks incumbent excluded purpose).length ≤ 4 :=
  (List.length_filter_le _ _).trans candidates_length_le

lemma userSlot_lt (h : i ∈ userSlots) : i < 5 := (mem_userSlots.mp h).2

lemma userSlot_pos (h : i ∈ userSlots) : 1 ≤ i := (mem_userSlots.mp h).1

/-- Two tasks of the table with the same key are the same. -/
lemma key_index (h : Fits tasks) {i j : ℕ} (hi : i ∈ userSlots) (hj : j ∈ userSlots)
    (hk : key (tasks i) = key (tasks j)) : i = j := by
  have hid : (tasks i).id = (tasks j).id := by
    simp only [key, toLex_inj, Prod.mk.injEq] at hk
    exact hk.2.2
  rwa [h.id i (userSlot_lt hi), h.id j (userSlot_lt hj)] at hid

/-! ### Reading the first record -/

/-- The excluded task as the decoder shows it. -/
def shownExcluded (excluded : ℕ) : Option ℕ :=
  if excluded = taskIdInvalid then none else some excluded

/-- An exclusion that the records can show. -/
def Excludable (excluded : ℕ) : Prop := excluded = taskIdInvalid ∨ excluded ∈ userSlots

lemma Excludable.lt (h : Excludable excluded) : excluded < 2 ^ 8 := by
  rcases h with rfl | h
  · decide
  · exact (userSlot_lt h).trans (by decide)

lemma reason_code_lt (r : SelectReason) : r.code < 2 ^ 8 := by cases r <;> decide

lemma purpose_code_lt (p : SelectPurpose) : p.code < 2 ^ 8 := by cases p <;> decide

/-- The fields of the second value of the first record. -/
lemma select_value1 (hx : Excludable excluded) {r : SelectReason} {p : SelectPurpose} {n v : ℕ}
    (hv : v = r.code ||| (p.code <<< 8) |||
      ((if excluded = taskIdInvalid then uint8Max else excluded) <<< 16) ||| (n <<< 24))
    (hn : n < 2 ^ 8) :
    v &&& 0xFF = r.code ∧ (v >>> 8) &&& 0xFF = p.code ∧ (v >>> 16) &&& 0xFF = excluded ∧
      (v >>> 24) &&& 0xFF = n := by
  have hexc : (if excluded = taskIdInvalid then uint8Max else excluded) = excluded := by
    split
    · next h => exact h.symm
    · rfl
  have hjoin : v = join 8 r.code (join 8 p.code (join 8 excluded n)) := by
    rw [hv, hexc]
    exact join_four 8 _ _ _ _
  have h1 := reason_code_lt r
  have h2 := purpose_code_lt p
  have h3 := hx.lt
  have hs1 : v >>> 8 = join 8 p.code (join 8 excluded n) := by rw [hjoin, join_shiftRight h1]
  have hs2 : v >>> 16 = join 8 excluded n := by
    rw [show 16 = 8 + 8 from rfl, Nat.shiftRight_add, hs1, join_shiftRight h2]
  have hs3 : v >>> 24 = n := by
    rw [show 24 = 16 + 8 from rfl, Nat.shiftRight_add, hs2, join_shiftRight h3]
  refine ⟨?_, ?_, ?_, ?_⟩
  · rw [hjoin]
    exact join_and h1
  · rw [hs1]
    exact join_and h2
  · rw [hs2]
    exact join_and h3
  · rw [hs3, Nat.and_two_pow_sub_one_eq_mod n 8, Nat.mod_eq_of_lt hn]

lemma reasonOfCode_code (r : SelectReason) : reasonOfCode r.code = some r := by cases r <;> rfl

lemma purposeOfCode_code (p : SelectPurpose) : purposeOfCode p.code = some p := by cases p <;> rfl

variable (tasks selected incumbent excluded purpose) in
/-- What the decoder reads in the first record of a batch. -/
def shownDetails : SelectDetails :=
  { readyMask := readyMask tasks osTaskCount
    reasonCode := (reason tasks selected incumbent excluded purpose).code
    reason := some (reason tasks selected incumbent excluded purpose)
    purpose := some purpose
    excluded := shownExcluded excluded
    eligibleCount := (eligible tasks incumbent excluded purpose).length
    candidateCount := (candidates tasks incumbent purpose).length }

lemma selectDetails_eq (hx : Excludable excluded) :
    selectDetails (decodedInput tick sequence
      (selectInput tasks selected incumbent excluded purpose)) =
      shownDetails tasks selected incumbent excluded purpose := by
  obtain ⟨h1, h2, h3, h4⟩ := select_value1 (n := (eligible tasks incumbent excluded purpose).length)
    hx rfl (eligible_length_le.trans_lt (by decide))
  rw [selectDetails, selectInput, decodedInput_value0, decodedInput_value1, decodedInput_value2, h1,
    h2, h3, h4, reasonOfCode_code, purposeOfCode_code]
  rfl

/-! ### Reading a candidate -/

/-- A candidate as the table has it. -/
structure Shows (tasks : ℕ → SchedTask) (incumbent excluded : ℕ) (c : Candidate) (i : ℕ) :
    Prop where
  task : c.task = some i
  deadline : c.absoluteDeadline = (tasks i).absoluteDeadlineOrder
  priority : c.priority = (tasks i).priority
  state : c.state = (tasks i).state.code
  isExcluded : c.excluded = decide (i = excluded)
  isIncumbent : c.incumbent = decide (i = incumbent)
  isEligible : c.eligible = decide (i ≠ excluded)

lemma and_bit_ne_zero (v n : ℕ) : (v &&& (1 <<< n) != 0) = v.testBit n := by
  rw [Nat.one_shiftLeft, Nat.and_two_pow]
  cases v.testBit n <;> simp

lemma state_code_lt (s : TaskState) : s.code < 2 ^ 8 := by cases s <;> decide

/-- The flags of a candidate. -/
def marks (excluded incumbent : Prop) [Decidable excluded] [Decidable incumbent] : ℕ :=
  (if excluded then 1 else 0) ||| ((if incumbent then 1 else 0) <<< 1) |||
    ((if ¬excluded then 1 else 0) <<< 2)

lemma marks_bits (excluded incumbent : Prop) [Decidable excluded] [Decidable incumbent] :
    (marks excluded incumbent).testBit 0 = decide excluded ∧
      (marks excluded incumbent).testBit 1 = decide incumbent ∧
      (marks excluded incumbent).testBit 2 = decide ¬excluded ∧
      marks excluded incumbent < 2 ^ 3 := by
  unfold marks
  by_cases hx : excluded <;> by_cases hi : incumbent <;> simp [hx, hi] <;> decide

lemma candidate_value2 : (candidateInput tasks selected incumbent excluded i).value2 =
    join 8 (tasks i).priority (join 8 (tasks i).state.code
      (marks (i = excluded) (i = incumbent))) := by
  rw [candidateInput, join, join, marks]
  simp only [Nat.shiftLeft_or_distrib, ← Nat.shiftLeft_add, Nat.or_assoc]

/-- A deadline comes back from its two halves. -/
lemma deadline_halves {n : ℕ} (h : n < 2 ^ 64) : deadline (u32 n) (u32 (n / 2 ^ 32)) = n := by
  have hhigh : n / 2 ^ 32 < 2 ^ 32 := Nat.div_lt_of_lt_mul (by omega)
  rw [deadline, u32, u32, Nat.mod_eq_of_lt hhigh]
  exact join_split 32 n

lemma candidate_flags (h : Fits tasks) (hi : i ∈ userSlots) {v : ℕ}
    (hv : v = (candidateInput tasks selected incumbent excluded i).value2) :
    v &&& 0xFF = (tasks i).priority ∧ (v >>> 8) &&& 0xFF = (tasks i).state.code ∧
      (v &&& (1 <<< 16) != 0) = decide (i = excluded) ∧
      (v &&& (1 <<< 17) != 0) = decide (i = incumbent) ∧
      (v &&& (1 <<< 18) != 0) = decide (i ≠ excluded) ∧ v < 2 ^ 19 := by
  have hp := h.priority i hi
  have hs := state_code_lt (tasks i).state
  obtain ⟨h0, h1, h2, hlt⟩ := marks_bits (i = excluded) (i = incumbent)
  rw [candidate_value2] at hv
  have hbit : ∀ n, v.testBit (16 + n) = (marks (i = excluded) (i = incumbent)).testBit n := by
    intro n
    rw [hv, show 16 + n = 8 + (8 + n) from Nat.add_assoc 8 8 n, join_testBit hp, join_testBit hs]
  refine ⟨?_, ?_, ?_, ?_, ?_, ?_⟩
  · rw [hv]
    exact join_and hp
  · rw [hv, join_shiftRight hp]
    exact join_and hs
  · rw [and_bit_ne_zero, ← h0]
    exact hbit 0
  · rw [and_bit_ne_zero, ← h1]
    exact hbit 1
  · rw [and_bit_ne_zero, ← h2]
    exact hbit 2
  · rw [hv]
    exact join_lt hp (join_lt hs hlt)

lemma optionalTask_of_lt {task : ℕ} (h : task < 5) : optionalTask task = some task :=
  if_neg (by unfold invalidTaskId; omega)

/-- **A candidate is read back.** -/
lemma shows_candidate (h : Fits tasks) (hi : i ∈ userSlots) (ha : (tasks i).jobActive = true)
    (tick s : ℕ) : Shows tasks incumbent excluded (candidateDetails (decodedInput tick s
      (candidateInput tasks selected incumbent excluded i))) i := by
  obtain ⟨h1, h2, h3, h4, h5, -⟩ := candidate_flags h hi
    (rfl : (candidateInput tasks selected incumbent excluded i).value2 = _)
  exact ⟨optionalTask_of_lt (userSlot_lt hi), deadline_halves (h.deadline i hi ha), h1, h2, h3, h4,
    h5⟩

/-! ### The items of a batch -/

/-- The task of a candidate. -/
def itemTask (c : Candidate) : ℕ := c.task.getD 0

/-- The candidates that the decoder lists show the tasks `is` of the table. -/
structure Items (tasks : ℕ → SchedTask) (incumbent excluded : ℕ) (items : List Candidate)
    (is : List ℕ) : Prop where
  listed : items.map itemTask = is
  shows : ∀ c ∈ items, Shows tasks incumbent excluded c (itemTask c)

section Items

variable {items : List Candidate} {is : List ℕ}

lemma Items.length (h : Items tasks incumbent excluded items is) : items.length = is.length := by
  rw [← h.listed, List.length_map]

lemma Items.mem (h : Items tasks incumbent excluded items is) {c : Candidate} (hc : c ∈ items) :
    itemTask c ∈ is := h.listed ▸ List.mem_map_of_mem hc

/-- A filter of the items is a filter of their tasks. -/
lemma Items.filter (h : Items tasks incumbent excluded items is) {q : Candidate → Bool}
    {p : ℕ → Bool} (hq : ∀ c ∈ items, q c = p (itemTask c)) :
    Items tasks incumbent excluded (items.filter q) (is.filter p) where
  listed := by
    rw [← h.listed, List.filter_map]
    exact congrArg _ (List.filter_congr hq)
  shows c hc := h.shows c (List.mem_filter.mp hc).1

/-- The tasks as the decoder shows them. -/
lemma Items.shown (h : Items tasks incumbent excluded items is) :
    items.map (·.task) = is.map some := by
  rw [← h.listed, List.map_map]
  exact List.map_congr_left fun c hc => (h.shows c hc).task

end Items

/-- The entries of the candidates of a batch. -/
def candidateEntries (tasks : ℕ → SchedTask) (selected incumbent excluded : ℕ)
    (purpose : SelectPurpose) (tick sequence : ℕ) : List DecodedRecord :=
  decodedBatch tick sequence
    ((candidates tasks incumbent purpose).map (candidateInput tasks selected incumbent excluded))

lemma batch_eq : decodedBatch tick sequence
    (selectionInputs tasks osTaskCount selected incumbent excluded purpose) =
      decodedInput tick (u32 sequence) (selectInput tasks selected incumbent excluded purpose) ::
        candidateEntries tasks selected incumbent excluded purpose tick (sequence + 1) := rfl

lemma mem_candidateEntries {d : DecodedRecord} (h : d ∈ candidateEntries tasks selected incumbent
    excluded purpose tick sequence) : ∃ i ∈ candidates tasks incumbent purpose, ∃ s,
      d = decodedInput tick s (candidateInput tasks selected incumbent excluded i) := by
  obtain ⟨input, hinput, s, rfl⟩ := mem_decodedBatch h
  obtain ⟨i, hi, rfl⟩ := List.mem_map.mp hinput
  exact ⟨i, hi, s, rfl⟩

/-- **The decoder reads the candidates back.** -/
lemma items_entries (h : Fits tasks) : Items tasks incumbent excluded
    ((candidateEntries tasks selected incumbent excluded purpose tick sequence).map
      candidateDetails) (candidates tasks incumbent purpose) where
  listed := by
    have hmap : (candidateEntries tasks selected incumbent excluded purpose tick sequence).map
        (itemTask ∘ candidateDetails) =
          ((candidates tasks incumbent purpose).map
            (candidateInput tasks selected incumbent excluded)).map TraceInput.task := by
      refine map_decodedBatch _ _ fun input hinput s => ?_
      obtain ⟨i, hi, rfl⟩ := List.mem_map.mp hinput
      have ht : optionalTask i = some i :=
        optionalTask_of_lt (userSlot_lt (candidate_active hi).1)
      exact congrArg (fun t => Option.getD t 0) ht
    rw [List.map_map, hmap, List.map_map]
    exact List.map_id _
  shows c hc := by
    obtain ⟨d, hd, rfl⟩ := List.mem_map.mp hc
    obtain ⟨i, hi, s, rfl⟩ := mem_candidateEntries hd
    obtain ⟨hu, ha, -⟩ := candidate_active hi
    have hs := @shows_candidate _ selected incumbent excluded _ h hu ha tick s
    have ht : itemTask (candidateDetails (decodedInput tick s
        (candidateInput tasks selected incumbent excluded i))) = i :=
      congrArg (fun t => Option.getD t 0) hs.task
    rw [ht]
    exact hs

/-! ### The runner-up -/

lemma snapshotOutranks_iff {s t : SchedTask} : snapshotOutranks s t = true ↔ key s < key t := by
  rw [key_lt_iff, snapshotOutranks]
  split_ifs with h1 h2 <;> simp only [decide_eq_true_eq] <;> omega

/-- The tasks that the search for the runner-up goes over. -/
def Rival (tasks : ℕ → SchedTask) (selected incumbent excluded : ℕ) (purpose : SelectPurpose)
    (i : ℕ) : Prop :=
  i ≠ selected ∧ i ≠ excluded ∧ isCandidate tasks incumbent purpose i = true

lemma runnerUpStep_searches (n : ℕ) (hn : n < taskIdInvalid) :
    Searches (Rival tasks selected incumbent excluded purpose) (fun i => key (tasks i))
      taskIdInvalid (runnerUpStep tasks selected incumbent excluded purpose) n := by
  have hskip : ∀ i, (i = selected ∨ i = excluded ∨
      (!isCandidate tasks incumbent purpose i) = true) ↔
        ¬Rival tasks selected incumbent excluded purpose i := fun i => by
    rw [Rival]
    cases isCandidate tasks incumbent purpose i <;> simp
    tauto
  refine ⟨fun best i _ _ hp => ?_, fun i _ _ hp => ?_, fun best i hb1 hbi hi _ hp => ?_⟩
  · rw [runnerUpStep, if_pos ((hskip i).mpr hp)]
  · rw [runnerUpStep, if_neg (by rw [hskip i]; exact not_not.mpr hp), if_pos (Or.inl rfl)]
  · rw [runnerUpStep, if_neg (by rw [hskip i]; exact not_not.mpr hp)]
    refine if_congr ?_ rfl rfl
    rw [snapshotOutranks_iff]
    exact or_iff_right (by omega)

lemma mem_userSlots_iff_rival : Rival tasks selected incumbent excluded purpose i ∧ i ∈ userSlots ↔
    i ∈ eligible tasks incumbent excluded purpose ∧ i ≠ selected := by
  simp only [Rival, mem_eligible, candidates, List.mem_filter]
  tauto

/-- The runner-up that the kernel finds. -/
def runnerUp (tasks : ℕ → SchedTask) (selected incumbent excluded : ℕ) (purpose : SelectPurpose) :
    ℕ :=
  userSlots.foldl (runnerUpStep tasks selected incumbent excluded purpose) taskIdInvalid

/-- **The runner-up** is the least of the other eligible tasks. -/
lemma runnerUp_eq (h : Fits tasks) {r : ℕ} (hr : r ∈ eligible tasks incumbent excluded purpose)
    (hne : r ≠ selected)
    (hleast : ∀ j ∈ eligible tasks incumbent excluded purpose, j ≠ selected →
      key (tasks r) ≤ key (tasks j)) :
    runnerUp tasks selected incumbent excluded purpose = r := by
  have hfound := found_foldl (@runnerUpStep_searches tasks selected incumbent excluded purpose
    maxUserTasks (by decide))
    le_rfl
  obtain ⟨hrival, hru⟩ := mem_userSlots_iff_rival.mpr ⟨hr, hne⟩
  have hr4 := userSlot_lt hru
  change Found _ _ _ _ (runnerUp tasks selected incumbent excluded purpose) at hfound
  rcases hfound with ⟨-, hno⟩ | ⟨h1, h4, hp, hall⟩
  · exact absurd hrival (hno r (userSlot_pos hru) (Nat.le_of_lt_succ hr4))
  · generalize runnerUp tasks selected incumbent excluded purpose = b at h1 h4 hp hall
    have hbu : b ∈ userSlots := mem_userSlots.mpr ⟨h1, Nat.lt_succ_of_le h4⟩
    obtain ⟨hbe, hbne⟩ := mem_userSlots_iff_rival.mp ⟨hp, hbu⟩
    have hkey : key (tasks b) = key (tasks r) :=
      le_antisymm (hall r (userSlot_pos hru) (Nat.le_of_lt_succ hr4) hrival) (hleast b hbe hbne)
    exact key_index h hbu hru hkey

/-! ### The winner -/

/-- The order of the keys on the tasks of the table. -/
def Before (tasks : ℕ → SchedTask) (i j : ℕ) : Prop := key (tasks i) ≤ key (tasks j)

instance : DecidableRel (Before tasks) := fun _ _ => inferInstanceAs (Decidable (_ ≤ _))
instance : Std.Total (Before tasks) := ⟨fun _ _ => le_total _ _⟩
instance : IsTrans ℕ (Before tasks) := ⟨fun _ _ _ => le_trans⟩

lemma keyLe_iff (h : Fits tasks) {c d : Candidate} {i j : ℕ}
    (hc : Shows tasks incumbent excluded c i) (hd : Shows tasks incumbent excluded d j)
    (hi : i ∈ userSlots) (hj : j ∈ userSlots) : KeyLe c d ↔ Before tasks i j := by
  rw [KeyLe, Before, key, key, Prod.Lex.toLex_le_toLex, Prod.Lex.toLex_le_toLex, hc.deadline,
    hd.deadline, hc.priority, hd.priority, hc.task, hd.task, h.id i (userSlot_lt hi),
    h.id j (userSlot_lt hj)]
  rfl

/-- The sorted items are those of the sorted tasks. -/
lemma Items.sorted {items : List Candidate} {is : List ℕ} (h : Fits tasks)
    (hi : Items tasks incumbent excluded items is) (hu : ∀ i ∈ is, i ∈ userSlots) :
    Items tasks incumbent excluded (items.insertionSort KeyLe)
      (is.insertionSort (Before tasks)) where
  listed := by
    rw [← hi.listed]
    exact List.map_insertionSort _ _ itemTask items fun c hc d hd =>
      keyLe_iff h (hi.shows c hc) (hi.shows d hd) (hu _ (hi.mem hc)) (hu _ (hi.mem hd))
  shows c hc := hi.shows c ((List.mem_insertionSort _).mp hc)

/-- The first of the sorted tasks is the least. -/
lemma sorted_head {is : List ℕ} (h : Fits tasks) (hu : ∀ i ∈ is, i ∈ userSlots)
    (hs : selected ∈ is) : (is.insertionSort (Before tasks)).head? = some selected ↔
      ∀ j ∈ is, key (tasks selected) ≤ key (tasks j) := by
  have hpair := List.pairwise_insertionSort (Before tasks) is
  have hmem : ∀ j, j ∈ is.insertionSort (Before tasks) ↔ j ∈ is := fun j =>
    List.mem_insertionSort _
  generalize is.insertionSort (Before tasks) = os at hpair hmem
  cases os with
  | nil => exact absurd ((hmem selected).mpr hs) List.not_mem_nil
  | cons x rest =>
    rw [List.pairwise_cons] at hpair
    rw [List.head?_cons, Option.some.injEq]
    constructor
    · rintro rfl j hj
      rcases List.mem_cons.mp ((hmem j).mpr hj) with rfl | hj
      · exact le_rfl
      · exact hpair.1 j hj
    · intro hleast
      rcases List.mem_cons.mp ((hmem selected).mpr hs) with rfl | hin
      · rfl
      · have hx : x ∈ is := (hmem x).mp List.mem_cons_self
        exact key_index h (hu x hx) (hu _ hs) (le_antisymm (hpair.1 _ hin) (hleast x hx))

/-- The kernel's reason, when there is more than one eligible task. -/
lemma reason_of_runnerUp {r : ℕ} (hidle : selected ≠ taskIdIdle)
    (hcount : 1 < (eligible tasks incumbent excluded purpose).length)
    (hr : runnerUp tasks selected incumbent excluded purpose = r) (hne : r ≠ taskIdInvalid) :
    reason tasks selected incumbent excluded purpose =
      if (tasks selected).absoluteDeadlineOrder ≠ (tasks r).absoluteDeadlineOrder then .deadline
      else if (tasks selected).priority ≠ (tasks r).priority then .priority
      else .stableTid := by
  rw [reason, selectionReason, if_neg hidle, if_neg (by omega), if_neg (by omega)]
  have hfold : (List.range' 1 (osTaskCount - 1)).foldl
      (runnerUpStep tasks selected incumbent excluded purpose) taskIdInvalid = r := hr
  simp only [hfold, hne, false_or]

/-- **The reasons agree** on the sorted eligible tasks. -/
lemma expectedReason_eq (h : Fits tasks) {items : List Candidate} {rest : List ℕ}
    (hitems : Items tasks incumbent excluded items (selected :: rest))
    (hsort : (eligible tasks incumbent excluded purpose).insertionSort (Before tasks) =
      selected :: rest) (hu : selected ∈ userSlots) :
    expectedReason false items = reason tasks selected incumbent excluded purpose := by
  have hidle : selected ≠ taskIdIdle := fun h0 => by
    have := userSlot_pos hu
    unfold taskIdIdle at h0
    omega
  have hperm := List.perm_insertionSort (Before tasks) (eligible tasks incumbent excluded purpose)
  have hpair := List.pairwise_insertionSort (Before tasks)
    (eligible tasks incumbent excluded purpose)
  rw [hsort] at hperm hpair
  have hlen := hperm.length_eq
  have hnodup := hperm.nodup_iff.mpr (candidates_nodup.filter _)
  cases rest with
  | nil =>
    have h1 : (eligible tasks incumbent excluded purpose).length = 1 := hlen.symm
    obtain ⟨c, rfl⟩ := List.length_eq_one_iff.mp hitems.length
    rw [reason, selectionReason, if_neg hidle, if_neg (by omega), if_pos h1.le]
    rfl
  | cons r rest =>
    have hcount : 1 < (eligible tasks incumbent excluded purpose).length := by
      rw [← hlen]
      simp
    have hr : r ∈ eligible tasks incumbent excluded purpose := hperm.mem_iff.mp (by simp)
    rw [List.nodup_cons] at hnodup
    have hne : r ≠ selected := fun heq => hnodup.1 (heq ▸ List.mem_cons_self)
    have hrunner : runnerUp tasks selected incumbent excluded purpose = r := by
      refine runnerUp_eq h hr hne fun j hj hjs => ?_
      rw [List.pairwise_cons, List.pairwise_cons] at hpair
      rcases List.mem_cons.mp (hperm.mem_iff.mpr hj) with rfl | hj
      · exact absurd rfl hjs
      · rcases List.mem_cons.mp hj with rfl | hj
        · exact le_rfl
        · exact hpair.2.1 j hj
    have hru : r ∈ userSlots := (candidate_active (mem_eligible.mp hr).1).1
    rw [reason_of_runnerUp hidle hcount hrunner (ne_invalid_of_lt (userSlot_lt hru))]
    match items, hitems with
    | [], hi => exact absurd hi.length (by simp)
    | [_], hi => exact absurd hi.length (by simp)
    | c :: d :: _, hi =>
      have hl := hi.listed
      simp only [List.map_cons, List.cons.injEq] at hl
      have hc := hi.shows c (by simp)
      have hd := hi.shows d (by simp)
      rw [hl.1] at hc
      rw [hl.2.1] at hd
      rw [expectedReason, hc.deadline, hd.deadline, hc.priority, hd.priority]

end Aymos.Snapshot
