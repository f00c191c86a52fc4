import Aymos.Snapshot

/-!
The decoder's checks of a selection batch.

Each check is passed by every batch that the kernel can emit, but for the check of the winner,
which is passed when the winner is the least of the eligible tasks.
-/

namespace Aymos.Replay

open Words BitFields Scheduler Trace Decoder RoundTrip Validate Select RingHistory Kernel Handlers
  Acceptance Snapshot

variable {tasks : ℕ → SchedTask} {selected incumbent excluded : ℕ} {purpose : SelectPurpose}
  {tick sequence i : ℕ} {items : List Candidate} {entries : List DecodedRecord}

/-! ### The winner -/

lemma userSlot_ne_zero (h : i ∈ userSlots) : i ≠ 0 := Nat.pos_iff_ne_zero.mp (userSlot_pos h)

/-- The items that the decoder takes for eligible. -/
lemma eligible_items
    (h : Items tasks incumbent excluded items (candidates tasks incumbent purpose)) :
    Items tasks incumbent excluded (items.filter (·.eligible))
      (eligible tasks incumbent excluded purpose) :=
  h.filter fun c hc => (h.shows c hc).isEligible

lemma eligible_user (h : i ∈ eligible tasks incumbent excluded purpose) : i ∈ userSlots :=
  (candidate_active (mem_eligible.mp h).1).1

lemma selectInput_task (ht : selected < 5) : (decodedInput tick sequence
    (selectInput tasks selected incumbent excluded purpose)).task = some selected :=
  optionalTask_of_lt ht

/-- **The winner among several eligible tasks** is accepted when it is the least. -/
lemma checkWinner_eligible (h : Fits tasks) (hx : Excludable excluded)
    (hitems : Items tasks incumbent excluded items (candidates tasks incumbent purpose))
    (hs : selected ∈ eligible tasks incumbent excluded purpose) :
    checkWinner (decodedInput tick sequence
      (selectInput tasks selected incumbent excluded purpose)) items = .ok () ↔
        ∀ j ∈ eligible tasks incumbent excluded purpose, key (tasks selected) ≤ key (tasks j) := by
  have hu := eligible_user hs
  have htask := @selectInput_task tasks _ incumbent excluded purpose tick sequence (userSlot_lt hu)
  have hdet := @selectDetails_eq tasks selected incumbent _ purpose tick sequence hx
  generalize decodedInput tick sequence (selectInput tasks selected incumbent excluded purpose) = d
    at htask hdet
  have hel := eligible_items hitems
  have hmem : some selected ∈ items.map (·.task) := by
    rw [hitems.shown]
    exact List.mem_map_of_mem (mem_eligible.mp hs).1
  have hfallback : (items.filter (·.eligible)).isEmpty = false := by
    rw [List.isEmpty_eq_false_iff_exists_mem]
    refine List.exists_mem_of_length_pos ?_
    rw [hel.length]
    exact List.length_pos_of_mem hs
  have hsorted := Items.sorted h hel fun i => eligible_user
  have hhead := sorted_head h (fun i => eligible_user) hs
  have hshown := hsorted.shown
  rw [checkWinner]
  simp only [htask, hdet, hfallback, Bool.false_and, Bool.false_eq_true, if_false, not_true_eq_false,
    hmem, Option.some.injEq, userSlot_ne_zero hu, hshown, List.head?_map]
  rw [← hhead]
  generalize hsort : (eligible tasks incumbent excluded purpose).insertionSort (Before tasks) = os
    at hsorted
  cases os with
  | nil => exact ⟨fun hno => (nomatch hno), fun hno => (nomatch hno)⟩
  | cons x rest =>
    simp only [List.head?_cons, Option.map_some, ne_eq, Option.some.injEq]
    by_cases hxs : x = selected
    · subst hxs
      have hreason := expectedReason_eq h hsorted hsort hu
      simp [hreason, shownDetails]
    · simp [hxs, snapshotError]

/-- The winner that is taken although it is excluded, because there is no other. -/
lemma checkWinner_fallback (hx : Excludable excluded)
    (hitems : Items tasks incumbent excluded items (candidates tasks incumbent purpose))
    (hs : selected ∈ candidates tasks incumbent purpose) (hexc : selected = excluded)
    (hnone : eligible tasks incumbent excluded purpose = []) :
    checkWinner (decodedInput tick sequence
      (selectInput tasks selected incumbent excluded purpose)) items = .ok () := by
  have hu := (candidate_active hs).1
  have htask := @selectInput_task tasks _ incumbent excluded purpose tick sequence (userSlot_lt hu)
  have hdet := @selectDetails_eq tasks selected incumbent _ purpose tick sequence hx
  have hreason : reason tasks selected incumbent excluded purpose = .excludedFallback := by
    have hidle : selected ≠ taskIdIdle := userSlot_ne_zero hu
    rw [reason, selectionReason, if_neg hidle, if_pos ⟨hexc, by rw [hnone]; rfl⟩]
  have hshown : shownExcluded excluded = some selected := by
    rw [shownExcluded, if_neg (hexc ▸ ne_invalid_of_lt (userSlot_lt hu)), hexc]
  generalize decodedInput tick sequence (selectInput tasks selected incumbent excluded purpose) = d
    at htask hdet
  have hel := eligible_items hitems
  have hmem : some selected ∈ items.map (·.task) := by
    rw [hitems.shown]
    exact List.mem_map_of_mem hs
  have hempty : items.filter (·.eligible) = [] := by
    rw [← List.length_eq_zero_iff, hel.length, hnone]
    rfl
  have hone : Items tasks incumbent excluded (items.filter (·.task == some selected)) [selected] := by
    have hf := hitems.filter (q := (·.task == some selected)) (p := (· == selected)) fun c hc => by
      rw [(hitems.shows c hc).task]
      rfl
    rwa [List.filter_beq, List.count_eq_one_of_mem candidates_nodup hs] at hf
  obtain ⟨c, hc⟩ := List.length_eq_one_iff.mp hone.length
  have ht : c.task = some selected := by
    have hl := hone.shown
    rw [hc] at hl
    simpa using hl
  rw [checkWinner]
  simp only [htask, hdet, shownDetails, hshown, hempty, hreason]
  simp [userSlot_ne_zero hu, hmem, hc, expectedReason, ht]

/-- Idle is selected when no task is ready. -/
lemma checkWinner_idle (hx : excluded = taskIdInvalid)
    (hnone : candidates tasks incumbent .dispatch = [])
    (hmask : readyMask tasks osTaskCount = 0) :
    checkWinner (decodedInput tick sequence
      (selectInput tasks taskIdIdle incumbent excluded .dispatch)) [] = .ok () := by
  have htask := @selectInput_task tasks taskIdIdle incumbent excluded .dispatch tick sequence
    (by decide)
  have hdet := @selectDetails_eq tasks taskIdIdle incumbent _ .dispatch tick sequence (Or.inl hx)
  have hreason : reason tasks taskIdIdle incumbent excluded .dispatch = .idle := by
    rw [reason, selectionReason, if_pos rfl]
  generalize decodedInput tick sequence (selectInput tasks taskIdIdle incumbent excluded .dispatch)
    = d at htask hdet
  rw [checkWinner]
  simp only [htask, hdet, shownDetails, hmask, hreason, shownExcluded, if_pos hx, eligible, hnone]
  simp [taskIdIdle]

/-! ### The ready tasks -/

lemma readyMask_testBit : (readyMask tasks osTaskCount).testBit i =
    decide (i ∈ userSlots ∧ IsReady (tasks i)) := by
  rw [readyMask, testBit_mask, Nat.zero_testBit, Bool.false_or]
  rfl

/-- The mask has bits for user tasks only. -/
lemma readyMask_and : readyMask tasks osTaskCount &&& 0x1E = readyMask tasks osTaskCount := by
  refine Nat.eq_of_testBit_eq fun i => ?_
  rw [Nat.testBit_and, readyMask_testBit]
  by_cases hi : i ∈ userSlots
  · have hbit : ∀ j ∈ userSlots, Nat.testBit 0x1E j = true := by decide
    rw [hbit i hi, Bool.and_true]
  · simp [hi]

lemma readyMask_eq_zero (h : ∀ i ∈ userSlots, ¬IsReady (tasks i)) :
    readyMask tasks osTaskCount = 0 := by
  refine Nat.eq_of_testBit_eq fun i => ?_
  rw [readyMask_testBit, Nat.zero_testBit, decide_eq_false_iff_not]
  exact fun hi => h i hi.1 hi.2

lemma state_code_eq_two {s : TaskState} : s.code = 2 ↔ s = .ready := by cases s <;> decide

/-- The mask and the candidates agree on the ready tasks. -/
lemma ready_shown
    (hitems : Items tasks incumbent excluded items (candidates tasks incumbent purpose)) :
    (items.filter (·.state == 2)).map (·.task) =
      (userSlots.filter ((readyMask tasks osTaskCount).testBit ·)).map some := by
  have hready := hitems.filter (q := (·.state == 2)) (p := fun i => (tasks i).state = .ready)
    fun c hc => by
      rw [(hitems.shows c hc).state, Bool.eq_iff_iff, beq_iff_eq, state_code_eq_two,
        decide_eq_true_eq]
  rw [hready.shown, candidates, List.filter_filter]
  refine congrArg _ (List.filter_congr fun i hi => ?_)
  rw [readyMask_testBit, Bool.eq_iff_iff, Bool.and_eq_true, decide_eq_true_eq, decide_eq_true_eq]
  constructor
  · rintro ⟨hs, hc⟩
    exact ⟨hi, hs, (candidate_active (List.mem_filter.mpr ⟨hi, hc⟩)).2.1⟩
  · rintro ⟨-, hr⟩
    exact ⟨hr.1, (List.mem_filter.mp (mem_candidates.mpr ⟨hi, Or.inl hr⟩)).2⟩

/-! ### Links -/

/-- Distinct candidates that name the selection they belong to. -/
lemma checkLinks_ok {d : DecodedRecord} {seen : List (Option ℕ)}
    (htask : ∀ e ∈ entries, e.task ≠ none ∧ e.task ≠ some 0 ∧ e.task ∉ seen)
    (hnodup : (entries.map (·.task)).Nodup)
    (hlink : ∀ e ∈ entries, e.related = d.task ∧ e.tick = d.tick) :
    checkLinks d seen entries = .ok () := by
  induction entries generalizing seen with
  | nil => rfl
  | cons e entries ih =>
    obtain ⟨hnone, hzero, hseen⟩ := htask e List.mem_cons_self
    obtain ⟨hrelated, htick⟩ := hlink e List.mem_cons_self
    rw [List.map_cons, List.nodup_cons] at hnodup
    rw [checkLinks, if_neg (by simp [hnone, hzero, hseen]), if_neg (by simp [hrelated, htick])]
    refine ih (fun e' he' => ?_) hnodup.2 fun e' he' => hlink e' (List.mem_cons_of_mem _ he')
    obtain ⟨hnone', hzero', hseen'⟩ := htask e' (List.mem_cons_of_mem _ he')
    refine ⟨hnone', hzero', fun hin => ?_⟩
    rcases List.mem_cons.mp hin with heq | hin
    · exact hnodup.1 (heq ▸ List.mem_map_of_mem he')
    · exact hseen' hin

lemma candidateInput_task (hi : i ∈ userSlots) (tick s : ℕ) : (decodedInput tick s
    (candidateInput tasks selected incumbent excluded i)).task = some i :=
  optionalTask_of_lt (userSlot_lt hi)

lemma candidateEntries_tasks : (candidateEntries tasks selected incumbent excluded purpose tick
    sequence).map (·.task) = (candidates tasks incumbent purpose).map some := by
  rw [candidateEntries, map_decodedBatch (g := fun input => some input.task) _ _ fun input hinput s => ?_,
    List.map_map]
  · rfl
  · obtain ⟨i, hi, rfl⟩ := List.mem_map.mp hinput
    exact candidateInput_task (candidate_active hi).1 tick s

lemma checkLinks_entries (ht : selected < 5) (s : ℕ) :
    checkLinks (decodedInput tick s (selectInput tasks selected incumbent excluded purpose)) []
      (candidateEntries tasks selected incumbent excluded purpose tick sequence) = .ok () := by
  refine checkLinks_ok (fun e he => ?_) ?_ fun e he => ?_
  · obtain ⟨i, hi, s, rfl⟩ := mem_candidateEntries he
    have hu := (candidate_active hi).1
    rw [candidateInput_task hu]
    simpa using userSlot_ne_zero hu
  · rw [candidateEntries_tasks]
    exact candidates_nodup.map (Option.some_injective _)
  · obtain ⟨i, -, s', rfl⟩ := mem_candidateEntries he
    refine ⟨?_, rfl⟩
    rw [selectInput_task ht]
    exact optionalTask_of_lt ht

/-! ### The purpose -/

lemma rejectAny_ok {bad : Candidate → Bool} {message : String} (h : ∀ c ∈ items, bad c = false) :
    rejectAny items bad message = .ok () := by
  have hfind : items.find? bad = none := List.find?_eq_none.mpr fun c hc => by simp [h c hc]
  rw [rejectAny, hfind]

/-- The incumbent as the decoder shows it. -/
def shownIncumbent (incumbent : ℕ) : Option ℕ :=
  if incumbent = taskIdInvalid then none else some incumbent

lemma selectInput_related (h : incumbent < 5 ∨ incumbent = taskIdInvalid) :
    (decodedInput tick sequence (selectInput tasks selected incumbent excluded purpose)).related =
      shownIncumbent incumbent := by
  rw [selectInput, decodedInput_related, shownIncumbent]
  split
  · rfl
  · next hne => exact optionalTask_of_lt (h.resolve_right hne)

/-- The items that are marked as the incumbent. -/
lemma marked_items
    (hitems : Items tasks incumbent excluded items (candidates tasks incumbent purpose)) :
    Items tasks incumbent excluded (items.filter (·.incumbent))
      (if incumbent ∈ candidates tasks incumbent purpose then [incumbent] else []) := by
  have hmarked := hitems.filter (q := (·.incumbent)) (p := (· == incumbent)) fun c hc => by
    rw [(hitems.shows c hc).isIncumbent]
    rfl
  rw [List.filter_beq] at hmarked
  split
  · next hin => rwa [List.count_eq_one_of_mem candidates_nodup hin] at hmarked
  · next hout => rwa [List.count_eq_zero_of_not_mem hout] at hmarked

lemma ready_item (hitems : Items tasks incumbent excluded items (candidates tasks incumbent purpose))
    {c : Candidate} (hc : c ∈ items) (h : itemTask c ≠ incumbent ∨ purpose = .dispatch) :
    (c.state != 2) = false := by
  have hready : (tasks (itemTask c)).state = .ready := by
    rcases (mem_candidates.mp (hitems.mem hc)).2 with hr | ⟨heq, -, -, hp⟩
    · exact hr.1
    · exact absurd hp (not_not.mpr (h.resolve_left (not_not.mpr heq)))
  rw [(hitems.shows c hc).state, hready]
  rfl

/-- A dispatch shows ready tasks and marks the incumbent that is one of them. -/
lemma checkPurpose_dispatch (hx : Excludable excluded)
    (hinc : incumbent < 5 ∨ incumbent = taskIdInvalid)
    (hitems : Items tasks incumbent excluded items (candidates tasks incumbent .dispatch)) :
    checkPurpose (decodedInput tick sequence
      (selectInput tasks selected incumbent excluded .dispatch)) items = .ok () := by
  have hdet := @selectDetails_eq tasks selected incumbent _ .dispatch tick sequence hx
  have hrel := @selectInput_related tasks selected _ excluded .dispatch tick sequence hinc
  generalize decodedInput tick sequence (selectInput tasks selected incumbent excluded .dispatch)
    = d at hdet hrel
  have hstates : (items.any fun item => item.state != 2) = false :=
    List.any_eq_false.mpr fun c hc => by simpa using ready_item hitems hc (Or.inr rfl)
  have hmarked : (items.filter (·.incumbent)).map (·.task) =
      if shownIncumbent incumbent ∈ items.map (·.task) then [shownIncumbent incumbent] else [] := by
    rw [(marked_items hitems).shown, hitems.shown]
    by_cases hin : incumbent ∈ candidates tasks incumbent .dispatch
    · have hshown : shownIncumbent incumbent = some incumbent :=
        if_neg (ne_invalid_of_lt (userSlot_lt (candidate_active hin).1))
      rw [if_pos hin, hshown, if_pos (List.mem_map_of_mem hin)]
      rfl
    · rw [if_neg hin, if_neg fun hmem => ?_]
      · rfl
      · obtain ⟨i, hi, heq⟩ := List.mem_map.mp hmem
        rw [shownIncumbent] at heq
        split at heq
        · cases heq
        · cases heq
          exact hin hi
  rw [checkPurpose]
  simp only [hdet, shownDetails, hrel, hstates, Bool.false_eq_true, if_false, hmarked, ne_eq,
    not_true_eq_false]

/-- An incumbent that a probe can be made against. -/
def Probed (tasks : ℕ → SchedTask) (incumbent : ℕ) : Prop :=
  incumbent = taskIdIdle ∨
    (incumbent ∈ userSlots ∧ (tasks incumbent).state = .running ∧
      (tasks incumbent).jobActive = true)

lemma Probed.lt (h : Probed tasks incumbent) : incumbent < 5 := by
  rcases h with rfl | ⟨hu, -⟩
  · decide
  · exact userSlot_lt hu

/-- A probe against idle shows ready tasks only. -/
lemma probe_idle (hidle : incumbent = taskIdIdle)
    (hitems : Items tasks incumbent excluded items (candidates tasks incumbent purpose)) :
    items.filter (·.incumbent) = [] ∧ (items.any fun item => item.state != 2) = false := by
  have hout : incumbent ∉ candidates tasks incumbent purpose := fun hin =>
    userSlot_ne_zero (candidate_active hin).1 hidle
  have hmarked := marked_items hitems
  rw [if_neg hout] at hmarked
  refine ⟨List.eq_nil_of_length_eq_zero hmarked.length, List.any_eq_false.mpr fun c hc => ?_⟩
  have hne : itemTask c ≠ incumbent := fun heq => hout (heq ▸ hitems.mem hc)
  simpa using ready_item hitems hc (Or.inl hne)

/-- A probe against a user task shows it, and ready tasks besides. -/
lemma probe_user (hp : purpose ≠ .dispatch) (hu : incumbent ∈ userSlots)
    (hrun : (tasks incumbent).state = .running) (ha : (tasks incumbent).jobActive = true)
    (hs : selected ∈ candidates tasks incumbent purpose) (hne : selected ≠ incumbent)
    (hitems : Items tasks incumbent excluded items (candidates tasks incumbent purpose)) :
    1 < items.length ∧
      (∃ c, items.filter (·.incumbent) = [c] ∧ c.task = some incumbent ∧ c.state = 3) ∧
      (items.any fun item => item.task != some incumbent && item.state != 2) = false := by
  have hin : incumbent ∈ candidates tasks incumbent purpose :=
    mem_candidates.mpr ⟨hu, Or.inr ⟨rfl, hrun, ha, hp⟩⟩
  have hmarked := marked_items hitems
  rw [if_pos hin] at hmarked
  refine ⟨?_, ?_, List.any_eq_false.mpr fun e he => ?_⟩
  · rw [hitems.length]
    have hsub : [selected, incumbent] ⊆ candidates tasks incumbent purpose := by simp [hs, hin]
    exact (List.subperm_of_subset (by simp [hne]) hsub).length_le
  · obtain ⟨c, hc⟩ := List.length_eq_one_iff.mp hmarked.length
    have hct : itemTask c = incumbent := by
      have hl := hmarked.listed
      rw [hc] at hl
      simpa using hl
    have hcs := hmarked.shows c (hc ▸ List.mem_singleton_self c)
    rw [hct] at hcs
    refine ⟨c, hc, hcs.task, ?_⟩
    rw [hcs.state, hrun]
    rfl
  · have het := (hitems.shows e he).task
    by_cases heq : itemTask e = incumbent
    · simp [het, heq]
    · simpa [het, heq] using ready_item hitems he (Or.inl heq)

/-- A probe shows ready tasks, and its incumbent unless it is idle. -/
lemma checkPurpose_probe (hp : purpose ≠ .dispatch) (hinc : Probed tasks incumbent)
    (hs : selected ∈ candidates tasks incumbent purpose) (hne : selected ≠ incumbent)
    (hexc : excluded = taskIdInvalid)
    (hitems : Items tasks incumbent excluded items (candidates tasks incumbent purpose)) :
    checkPurpose (decodedInput tick sequence
      (selectInput tasks selected incumbent excluded purpose)) items = .ok () := by
  have htask := @selectInput_task tasks _ incumbent excluded purpose tick sequence
    (userSlot_lt (candidate_active hs).1)
  have hdet := @selectDetails_eq tasks selected incumbent _ purpose tick sequence (Or.inl hexc)
  have hrel := @selectInput_related tasks selected _ excluded purpose tick sequence (Or.inl hinc.lt)
  have hshown : shownIncumbent incumbent = some incumbent := if_neg (ne_invalid_of_lt hinc.lt)
  generalize decodedInput tick sequence (selectInput tasks selected incumbent excluded purpose)
    = d at htask hdet hrel
  have hguard : ¬(shownExcluded excluded ≠ none ∨ d.related = none ∨ d.task = d.related) := by
    rw [hrel, htask, hshown, shownExcluded, if_pos hexc]
    simp [hne]
  rw [checkPurpose]
  simp only [hdet, shownDetails]
  rcases hinc with hidle | ⟨hu, hrun, ha⟩
  · obtain ⟨hmarked, hstates⟩ := probe_idle hidle hitems
    have hzero : d.related = some 0 := by rw [hrel, hshown, hidle, taskIdIdle]
    cases purpose with
    | dispatch => exact absurd rfl hp
    | _ =>
      simp only [if_neg hguard, if_pos hzero]
      exact if_neg (by simp [hmarked, hstates])
  · obtain ⟨hlength, ⟨c, hmarked, hct, hcs⟩, hstates⟩ := probe_user hp hu hrun ha hs hne hitems
    have hzero : d.related ≠ some 0 := by
      rw [hrel, hshown]
      simpa using userSlot_ne_zero hu
    have hno : ¬(items.length < 2 ∨ (items.filter (·.incumbent)).length ≠ 1 ∨
        ((items.filter (·.incumbent)).map (·.task)).head? ≠ some d.related ∨
        ((items.filter (·.incumbent)).map (·.state)).head? ≠ some 3 ∨
        (items.any fun item => item.task != d.related && item.state != 2) = true) := by
      rw [hrel, hshown, hmarked]
      simp only [not_or, hct, hcs, hstates, List.length_singleton, List.map_cons, List.map_nil,
        List.head?_cons, ne_eq, not_true_eq_false, not_false_eq_true, Bool.false_eq_true, and_true]
      exact not_lt.mpr hlength
    cases purpose with
    | dispatch => exact absurd rfl hp
    | _ =>
      simp only [if_neg hguard, if_neg hzero]
      exact if_neg hno

/-! ### The whole batch -/

/-- What holds of the batches that the kernel emits. -/
structure Batch (tasks : ℕ → SchedTask) (selected incumbent excluded : ℕ)
    (purpose : SelectPurpose) : Prop where
  fits : Fits tasks
  selected_lt : selected < 5
  incumbent_lt : incumbent < 5 ∨ incumbent = taskIdInvalid
  excludable : Excludable excluded
  probe : purpose ≠ .dispatch → excluded = taskIdInvalid ∧ Probed tasks incumbent ∧
    selected ∈ candidates tasks incumbent purpose ∧ selected ≠ incumbent

/-- The items that the decoder reads in a batch. -/
def batchItems (tasks : ℕ → SchedTask) (selected incumbent excluded : ℕ)
    (purpose : SelectPurpose) (tick sequence : ℕ) : List Candidate :=
  (candidateEntries tasks selected incumbent excluded purpose tick sequence).map candidateDetails

/-- **Only the winner is left to check.** -/
lemma checkSnapshot_eq (h : Batch tasks selected incumbent excluded purpose) (s : ℕ) :
    checkSnapshot (decodedInput tick s (selectInput tasks selected incumbent excluded purpose))
      (candidateEntries tasks selected incumbent excluded purpose tick sequence) =
    checkWinner (decodedInput tick s (selectInput tasks selected incumbent excluded purpose))
      (batchItems tasks selected incumbent excluded purpose tick sequence) := by
  have hitems := @items_entries _ selected incumbent excluded purpose tick sequence h.fits
  have hdet := @selectDetails_eq tasks selected incumbent _ purpose tick s h.excludable
  have hlinks := @checkLinks_entries tasks _ incumbent excluded purpose tick sequence
    h.selected_lt s
  have hready := ready_shown hitems
  have hcount := (eligible_items hitems).length
  have hpurpose : checkPurpose (decodedInput tick s
      (selectInput tasks selected incumbent excluded purpose))
      ((candidateEntries tasks selected incumbent excluded purpose tick sequence).map
        candidateDetails) = .ok () := by
    by_cases hp : purpose = .dispatch
    · subst hp
      exact checkPurpose_dispatch h.excludable h.incumbent_lt hitems
    · obtain ⟨hexc, hinc, hs, hne⟩ := h.probe hp
      exact checkPurpose_probe hp hinc hs hne hexc hitems
  rw [batchItems]
  generalize hmap : (candidateEntries tasks selected incumbent excluded purpose tick sequence).map
    candidateDetails = items at hitems hready hcount hpurpose
  generalize decodedInput tick s (selectInput tasks selected incumbent excluded purpose) = d
    at hdet hlinks hpurpose
  have hexcluded : ∀ c ∈ items, (c.task == shownExcluded excluded) = c.excluded ∧
      (c.task != shownExcluded excluded) = c.eligible := by
    intro c hc
    have hlt := userSlot_lt (candidate_active (hitems.mem hc)).1
    rw [(hitems.shows c hc).task, (hitems.shows c hc).isExcluded, (hitems.shows c hc).isEligible,
      shownExcluded]
    split
    · next heq =>
      have hne : itemTask c ≠ excluded := heq ▸ ne_invalid_of_lt hlt
      simp [hne]
    · by_cases heq : itemTask c = excluded <;> simp [heq]
  have hmark : rejectAny items (fun item => item.excluded != (item.task == shownExcluded excluded))
      "excluded marker differs" = .ok () := rejectAny_ok fun c hc => by
    rw [(hexcluded c hc).1, bne_self_eq_false]
  have heligible : rejectAny items
      (fun item => item.eligible != (item.task != shownExcluded excluded))
      "eligibility marker differs" = .ok () := rejectAny_ok fun c hc => by
    rw [(hexcluded c hc).2, bne_self_eq_false]
  have hmask : ¬(readyMask tasks osTaskCount &&& 0x1E ≠ readyMask tasks osTaskCount) :=
    not_not.mpr readyMask_and
  have hset : ((items.filter (·.state == 2)).map (·.task)).toFinset =
      (((List.range' 1 maxTaskId).filter ((readyMask tasks osTaskCount).testBit ·)).map
        some).toFinset := congrArg _ hready
  rw [checkSnapshot]
  simp only [hmap, hdet, shownDetails, if_neg hmask, hlinks, hset, hcount, hmark, hpurpose,
    heligible, ne_eq, not_true_eq_false, if_false]
  rfl

/-- What the loop over the records skips. -/
lemma validateSnapshots_skip (entries rest : List DecodedRecord) :
    validateSnapshotsFrom entries.length (entries ++ rest) = validateSnapshotsFrom 0 rest := by
  induction entries with
  | nil => rfl
  | cons e entries ih => exact ih

lemma bind_unit_eq_ok {x y : Except String Unit} :
    (do x; y) = .ok () ↔ x = .ok () ∧ y = .ok () := by
  cases x with
  | error e => exact ⟨fun h => (nomatch h), fun h => (nomatch h.1)⟩
  | ok u => exact ⟨fun h => ⟨rfl, h⟩, fun h => h.2⟩

/-- **A batch passes when its winner does**, whatever follows it. -/
theorem validateSnapshots_batch (h : Batch tasks selected incumbent excluded purpose)
    (rest : List DecodedRecord) :
    validateSnapshotsFrom 0 (decodedBatch tick sequence
      (selectionInputs tasks osTaskCount selected incumbent excluded purpose) ++ rest) = .ok () ↔
    checkWinner (decodedInput tick (u32 sequence)
        (selectInput tasks selected incumbent excluded purpose))
        (batchItems tasks selected incumbent excluded purpose tick (sequence + 1)) = .ok () ∧
      validateSnapshotsFrom 0 rest = .ok () := by
  have hdet := @selectDetails_eq tasks selected incumbent _ purpose tick (u32 sequence) h.excludable
  have hevent : (decodedInput tick (u32 sequence)
      (selectInput tasks selected incumbent excluded purpose)).event = .taskSelect :=
    decodedInput_event ..
  have hsnap := @checkSnapshot_eq _ _ _ _ _ tick (sequence + 1) h (u32 sequence)
  have hlen : (candidateEntries tasks selected incumbent excluded purpose tick
      (sequence + 1)).length = (candidates tasks incumbent purpose).length := by
    rw [candidateEntries, decodedBatch_length, List.length_map]
  have hcand : (candidateEntries tasks selected incumbent excluded purpose tick
      (sequence + 1)).any (fun item => item.event != .selectCandidate) = false :=
    List.any_eq_false.mpr fun e he => by
      obtain ⟨i, -, s, rfl⟩ := mem_candidateEntries he
      have he' : (decodedInput tick s (candidateInput tasks selected incumbent excluded i)).event =
        .selectCandidate := decodedInput_event ..
      rw [he']
      decide
  have hle : ¬(candidates tasks incumbent purpose).length > maxTaskId :=
    not_lt.mpr candidates_length_le
  rw [batch_eq, List.cons_append]
  generalize candidateEntries tasks selected incumbent excluded purpose tick (sequence + 1)
    = entries at hsnap hlen hcand
  generalize decodedInput tick (u32 sequence)
    (selectInput tasks selected incumbent excluded purpose) = d at hdet hevent hsnap
  have htake : (entries ++ rest).take (candidates tasks incumbent purpose).length = entries :=
    List.take_left' hlen
  rw [validateSnapshotsFrom, if_neg (not_not.mpr hevent)]
  simp only [hdet, shownDetails, if_neg hle, htake, hlen, hcand, ne_eq, not_true_eq_false,
    Bool.false_eq_true, or_self, if_false, hsnap]
  rw [bind_unit_eq_ok, ← hlen, validateSnapshots_skip]

/-- How a batch names its winner. -/
inductive Wins (tasks : ℕ → SchedTask) (selected incumbent excluded : ℕ)
    (purpose : SelectPurpose) : Prop
  | least : selected ∈ eligible tasks incumbent excluded purpose →
    (∀ j ∈ eligible tasks incumbent excluded purpose, key (tasks selected) ≤ key (tasks j)) →
    Wins tasks selected incumbent excluded purpose
  | fallback : selected = excluded → selected ∈ candidates tasks incumbent purpose →
    eligible tasks incumbent excluded purpose = [] → Wins tasks selected incumbent excluded purpose
  | idle : selected = taskIdIdle → purpose = .dispatch → excluded = taskIdInvalid →
    candidates tasks incumbent purpose = [] → Wins tasks selected incumbent excluded purpose

/-- **A winner that is the least passes.** -/
lemma checkWinner_ok (h : Batch tasks selected incumbent excluded purpose)
    (hw : Wins tasks selected incumbent excluded purpose) (s : ℕ) :
    checkWinner (decodedInput tick s (selectInput tasks selected incumbent excluded purpose))
      (batchItems tasks selected incumbent excluded purpose tick sequence) = .ok () := by
  have hitems := @items_entries _ selected incumbent excluded purpose tick sequence h.fits
  cases hw with
  | least hs hleast => exact (checkWinner_eligible h.fits h.excludable hitems hs).mpr hleast
  | fallback hexc hs hnone => exact checkWinner_fallback h.excludable hitems hs hexc hnone
  | idle hs hp hexc hnone =>
    subst hs hp
    have hempty : batchItems tasks taskIdIdle incumbent excluded .dispatch tick sequence = [] := by
      rw [batchItems, candidateEntries, hnone]
      rfl
    rw [hempty]
    refine checkWinner_idle hexc hnone (readyMask_eq_zero fun i hi hr => ?_)
    exact List.not_mem_nil (hnone ▸ mem_candidates.mpr ⟨hi, Or.inl hr⟩)

/-! ### Roles and payloads -/

lemma isUserOrIdle_of_lt {task : ℕ} (h : task < 5) : isUserOrIdle (some task) = true := by
  have hall : ∀ t < 5, isUserOrIdle (some t) = true := by decide
  exact hall task h

/-- **The first record** passes the checks of roles and payloads. -/
lemma accepted_select (h : Batch tasks selected incumbent excluded purpose) (s : ℕ) :
    Accepted (decodedInput tick s (selectInput tasks selected incumbent excluded purpose)) where
  roles := by
    have hrel : shownIncumbent incumbent = none ∨
        isUserOrIdle (shownIncumbent incumbent) = true := by
      rw [shownIncumbent]
      split
      · exact Or.inl rfl
      · next hne => exact Or.inr (isUserOrIdle_of_lt (h.incumbent_lt.resolve_right hne))
    rw [rolesValid, selectInput_task h.selected_lt, selectInput_related h.incumbent_lt,
      selectInput, decodedInput_event]
    simpa [isUserOrIdle_of_lt h.selected_lt] using hrel
  payload := by rw [payloadValid, selectInput, decodedInput_event]
  metadata := by
    obtain ⟨h1, h2, h3, -⟩ := select_value1
      (n := (eligible tasks incumbent excluded purpose).length) h.excludable
      (r := reason tasks selected incumbent excluded purpose) (p := purpose) rfl
      (eligible_length_le.trans_lt (by decide))
    have hpurpose : [1, 2, 3].contains purpose.code = true := by cases purpose <;> decide
    have hexcluded : [1, 2, 3, 4, 0xFF].contains excluded = true := by
      rcases h.excludable with rfl | hu
      · decide
      · have hall : ∀ i ∈ userSlots, [1, 2, 3, 4, 0xFF].contains i = true := by decide
        exact hall _ hu
    rw [metadataValid, selectInput, decodedInput_event]
    simp only [decodedInput_value1]
    rw [h1, h2, h3, reasonOfCode_code, hpurpose, hexcluded]
    rfl

/-- **The record of a candidate** passes the checks of roles and payloads. -/
lemma accepted_candidate (h : Batch tasks selected incumbent excluded purpose)
    (hi : i ∈ candidates tasks incumbent purpose) (s : ℕ) :
    Accepted (decodedInput tick s (candidateInput tasks selected incumbent excluded i)) := by
  obtain ⟨hu, -, hstate⟩ := candidate_active hi
  obtain ⟨-, h2, -, -, -, hlt⟩ :=
    @candidate_flags _ selected incumbent excluded _ h.fits hu _ rfl
  have hevent : (decodedInput tick s (candidateInput tasks selected incumbent excluded i)).event =
    .selectCandidate := decodedInput_event ..
  have hrelated : (decodedInput tick s
      (candidateInput tasks selected incumbent excluded i)).related = some selected :=
    optionalTask_of_lt h.selected_lt
  have hvalue : (decodedInput tick s (candidateInput tasks selected incumbent excluded i)).value2 =
    (candidateInput tasks selected incumbent excluded i).value2 := rfl
  have hcode : [2, 3].contains (tasks i).state.code = true := by
    rcases hstate with hs | hs <;> rw [hs] <;> decide
  have hmask : (candidateInput tasks selected incumbent excluded i).value2 &&& 0x7FFFF =
      (candidateInput tasks selected incumbent excluded i).value2 := by
    rw [Nat.and_two_pow_sub_one_eq_mod _ 19, Nat.mod_eq_of_lt hlt]
  refine ⟨?_, ?_, ?_⟩
  · rw [rolesValid, hevent, candidateInput_task hu, hrelated]
    simp only [isUserOrIdle_of_lt h.selected_lt, Bool.and_true]
    exact (optionalTask_of_lt (userSlot_lt hu)) ▸ (isUser_slot hu).2
  · rw [payloadValid, hevent]
  · rw [metadataValid, hevent]
    simp only [hvalue]
    rw [hmask, h2, hcode]
    simp

/-- **A batch with its least task as the winner passes every check.** -/
theorem batch_accepted (h : Batch tasks selected incumbent excluded purpose)
    (hw : Wins tasks selected incumbent excluded purpose) :
    validateSelectionSnapshots (decodedBatch tick sequence
      (selectionInputs tasks osTaskCount selected incumbent excluded purpose)) = .ok () ∧
    ∀ d ∈ decodedBatch tick sequence
      (selectionInputs tasks osTaskCount selected incumbent excluded purpose), Accepted d := by
  constructor
  · have hbatch := (@validateSnapshots_batch _ _ _ _ _ tick sequence h []).mpr
      ⟨checkWinner_ok h hw _, rfl⟩
    rwa [List.append_nil] at hbatch
  · rw [batch_eq]
    intro d hd
    rcases List.mem_cons.mp hd with rfl | hd
    · exact accepted_select h _
    · obtain ⟨i, hi, s, rfl⟩ := mem_candidateEntries hd
      exact accepted_candidate h hi s

end Aymos.Replay
