import Aymos.RingHistory

/-!
The reports of lost records, over any history of the trace ring.

A history is kept with the reports that were made in it. The ring makes a report exactly when a record
has been lost since the last one, there is a slot for it and there are sequence numbers left; so the
losses that the reports show increase from one to the next.
-/

namespace Aymos.OverflowReports

open Words Trace CircularBuffer RingHistory

/-- The records attempted and not stored. -/
def lost (log : RingLog) : ℕ := log.attempts - log.stored.length

/-- A report, with the totals of the log it was made at. -/
structure Report where
  lost : ℕ
  attempts : ℕ
  stored : ℕ
  record : TraceRecord

/-- The report a call makes. -/
def reportsOf (ring : TraceRing) (log : RingLog) : RingOp → List Report
  | .reportOverflow tick =>
    (RingOp.stores ring (.reportOverflow tick)).map
      (Report.mk (lost log) log.attempts log.stored.length)
  | _ => []

/-- A history, with its calls, the last one first, and with the reports made in it, the first one
first. -/
inductive Reported (capacity : ℕ) : List RingOp → TraceRing → RingLog → List Report → Prop
  | init {ring : TraceRing} (h : osTraceRingInit capacity = some ring) :
    Reported capacity [] ring ⟨0, [], []⟩ []
  | call {ops : List RingOp} {ring : TraceRing} {log : RingLog} {reports : List Report}
    (h : Reported capacity ops ring log reports) (op : RingOp) :
    Reported capacity (op :: ops) (op.call ring).1 (log.add ring op)
      (reports ++ reportsOf ring log op)

/-- The losses that the last report shows. -/
def lastLost (reports : List Report) : ℕ := (reports.getLast?.map Report.lost).getD 0

/-- The call pushes the record of an overflow, as only a report should. -/
def Forges : RingOp → Prop
  | .push _ input => input.event = TraceEvent.overflow.code
  | .pushBatch _ inputs => ∃ input ∈ inputs, input.event = TraceEvent.overflow.code
  | _ => False

/-- The record of an overflow. -/
def overflowRecord (ring : TraceRing) (tick : ℕ) : TraceRecord :=
  recordOf tick ring.nextSequence (overflowInput ring)

/-- The ring with a report in it. -/
def reported (ring : TraceRing) (tick : ℕ) : TraceRing :=
  { ring with
    slots := Function.update ring.slots ring.writeIndex (overflowRecord ring tick)
    writeIndex := (ring.writeIndex + 1) % ring.capacity
    count := ring.count + 1
    nextSequence := u32 (ring.nextSequence + 1)
    sequenceExhausted := u32 (ring.nextSequence + 1) == 0
    attempted := incrementSaturating ring.attempted
    emitted := incrementSaturating ring.emitted
    reportedDropped := ring.dropped }

variable {capacity tick : ℕ} {ring : TraceRing} {log : RingLog} {ops : List RingOp}
  {reports : List Report}

/-- Every history of the ring is one with its reports. -/
lemma History.reported (h : History capacity ring log) :
    ∃ ops reports, Reported capacity ops ring log reports := by
  induction h with
  | init h => exact ⟨_, _, .init h⟩
  | call _ op ih =>
    obtain ⟨ops, reports, h⟩ := ih
    exact ⟨_, _, h.call op⟩

/-! ### One report -/

/-- **A report** is made, or nothing changes. -/
lemma report_eq (hl : Ledger capacity ring log) (tick : ℕ) :
    osTraceRingReportOverflow ring tick =
      if Reports ring then (reported ring tick, true) else (ring, false) := by
  rw [reportOverflow_eq hl.indexed hl.next_lt]
  split
  · next hr =>
    have htakes := reports_takes hr hl.next_lt
    have hseq : u32 ring.nextSequence = ring.nextSequence := Nat.mod_eq_of_lt hl.next_lt
    have hexhausted : ring.sequenceExhausted = false := hr.2.2.2.1
    have hpush := pushBatch_result hl.indexed tick [overflowInput ring]
    generalize osTraceRingPushBatch ring tick [overflowInput ring] = result at hpush
    cases hpush with
    | refused h => exact absurd htakes.attempted h
    | spent _ h => exact absurd htakes.numbers h
    | full _ _ h =>
      have hroom := htakes.room
      simp only [fifo, records_length] at hroom
      exact absurd hroom h
    | stored =>
      simp [reported, overflowRecord, attemptedCounters, stamp, writeAll, hseq, hexhausted]
  · rfl

/-- The counter of losses is exact until the sequence numbers are used up. -/
lemma dropped_eq (hl : Ledger capacity ring log) (hx : ring.sequenceExhausted = false) :
    ring.dropped = lost log ∧ ring.attempted = log.attempts ∧ ring.emitted = log.stored.length := by
  have hnext := hl.next hx
  have hlt := hl.next_lt
  have hle := hl.stored_le
  have hmax : log.attempts ≤ uint32Max := by
    unfold uint32Max
    omega
  rw [hl.dropped, hl.attempted, hl.emitted, lost]
  exact ⟨Nat.min_eq_left (by omega), Nat.min_eq_left hmax, Nat.min_eq_left (by omega)⟩

/-- A report stores its record, behind the others. -/
lemma reported_records (hl : Ledger capacity ring log) (hr : Reports ring) (tick : ℕ) :
    (reported ring tick).records = ring.records ++ [overflowRecord ring tick] := by
  have hpush := pushBatch_result hl.indexed tick [overflowInput ring]
  have hs := hpush.success_iff.mpr (reports_takes hr hl.next_lt)
  have happended := (hpush.appended hl.indexed hs).2.2
  have hseq : u32 ring.nextSequence = ring.nextSequence := Nat.mod_eq_of_lt hl.next_lt
  have heq := (report_eq hl tick).symm.trans (reportOverflow_eq hl.indexed hl.next_lt tick)
  rw [if_pos hr, if_pos hr, Prod.mk.injEq] at heq
  rw [heq.1]
  rw [stamp, stamp, hseq] at happended
  exact happended

/-- The call of a report, with what the log makes of it. -/
lemma report_call (hl : Ledger capacity ring log) (tick : ℕ) :
    (Reports ring ∧ (RingOp.call ring (.reportOverflow tick)).1 = reported ring tick ∧
      RingOp.stores ring (.reportOverflow tick) = [overflowRecord ring tick] ∧
      log.add ring (.reportOverflow tick) =
        ⟨log.attempts + 1, log.stored ++ [overflowRecord ring tick], log.popped⟩) ∨
    (¬ Reports ring ∧ (RingOp.call ring (.reportOverflow tick)).1 = ring ∧
      RingOp.stores ring (.reportOverflow tick) = [] ∧
      log.add ring (.reportOverflow tick) = log) := by
  have hcall : RingOp.call ring (.reportOverflow tick) =
      (osTraceRingReportOverflow ring tick).map id .stored := rfl
  rw [report_eq hl] at hcall
  by_cases hr : Reports ring
  · rw [if_pos hr] at hcall
    have hattempted := (reports_takes hr hl.next_lt).attempted
    have hseq : u32 ring.nextSequence = ring.nextSequence := Nat.mod_eq_of_lt hl.next_lt
    have hstores : RingOp.stores ring (.reportOverflow tick) = [overflowRecord ring tick] := by
      rw [RingOp.stores, hcall, RingOp.batch, if_pos hr]
      simp [stamp, overflowRecord, hseq]
    refine Or.inl ⟨hr, by rw [hcall]; rfl, hstores, ?_⟩
    rw [RingLog.add, hstores, RingOp.attempts, RingOp.batch, if_pos hr, if_pos hattempted,
      RingOp.takesOut, hcall]
    simp
  · rw [if_neg hr] at hcall
    have hstores : RingOp.stores ring (.reportOverflow tick) = [] := by
      rw [RingOp.stores, hcall]
      rfl
    refine Or.inr ⟨hr, by rw [hcall]; rfl, hstores, ?_⟩
    rw [RingLog.add, hstores, RingOp.attempts, RingOp.batch, if_neg hr,
      if_neg (not_attempted_nil _), RingOp.takesOut, hcall]
    simp

/-! ### Histories -/

/-- The report shows the totals it was made at. -/
structure Truthful (r : Report) : Prop where
  event : r.record.event = TraceEvent.overflow.code
  dropped : r.record.value0 = r.lost
  attempted : r.record.value1 = r.attempts
  emitted : r.record.value2 = r.stored

/-- **What the ring knows about the reports made**: the losses that the last one shows. -/
structure Tracked (capacity : ℕ) (ring : TraceRing) (log : RingLog) (reports : List Report) :
    Prop where
  ledger : Ledger capacity ring log
  last : ring.reportedDropped = lastLost reports
  last_le : lastLost reports ≤ lost log
  truthful : ∀ r ∈ reports, Truthful r
  lost_le : ∀ r ∈ reports, r.lost ≤ lastLost reports
  increasing : reports.Pairwise fun a b => a.lost < b.lost

lemma tracked_init (h : osTraceRingInit capacity = some ring) :
    Tracked capacity ring ⟨0, [], []⟩ [] where
  ledger := ledger_init h
  last := by
    unfold osTraceRingInit at h
    split at h
    · cases h
    · obtain rfl := Option.some.inj h
      rfl
  last_le := Nat.zero_le _
  truthful _ hr := absurd hr (List.not_mem_nil)
  lost_le _ hr := absurd hr (List.not_mem_nil)
  increasing := .nil

/-- **When a report is made**: a record has been lost since the last one, and there is room. -/
lemma Tracked.reports_iff (h : Tracked capacity ring log reports) :
    Reports ring ↔ ring.enabled = true ∧ ring.records.length < capacity ∧
      ring.sequenceExhausted = false ∧ lastLost reports < lost log := by
  have hpos : ring.capacity ≠ 0 := h.ledger.indexed.positive.ne'
  have hle := h.last_le
  rw [Reports, records_length, ← h.ledger.capacity, h.last]
  constructor
  · rintro ⟨ho, -, hroom, hx, hd⟩
    rw [(dropped_eq h.ledger hx).1] at hd
    exact ⟨ho, hroom, hx, by omega⟩
  · rintro ⟨ho, hroom, hx, hlost⟩
    refine ⟨ho, hpos, hroom, hx, ?_⟩
    rw [(dropped_eq h.ledger hx).1]
    omega

lemma lastLost_append (reports : List Report) (r : Report) : lastLost (reports ++ [r]) = r.lost := by
  simp [lastLost]

lemma Tracked.report (h : Tracked capacity ring log reports) (tick : ℕ) :
    Tracked capacity (RingOp.call ring (.reportOverflow tick)).1
      (log.add ring (.reportOverflow tick))
      (reports ++ reportsOf ring log (.reportOverflow tick)) := by
  have hl := h.ledger.call (.reportOverflow tick)
  have hle := h.ledger.stored_le
  rcases report_call h.ledger tick with ⟨hr, hring, hstores, hlog⟩ | ⟨-, hring, hstores, hlog⟩
  · obtain ⟨-, -, hx, hlost⟩ := h.reports_iff.mp hr
    obtain ⟨hdropped, hattempted, hemitted⟩ := dropped_eq h.ledger hx
    rw [reportsOf, hstores, List.map_singleton]
    rw [hring, hlog] at hl ⊢
    refine
      { ledger := hl
        last := by rw [lastLost_append]; exact hdropped
        last_le := ?_
        truthful := fun r hmem => ?_
        lost_le := fun r hmem => ?_
        increasing := ?_ }
    · rw [lastLost_append]
      simp only [lost, List.length_append, List.length_singleton]
      omega
    · rcases List.mem_append.mp hmem with hmem | hmem
      · exact h.truthful r hmem
      · obtain rfl := List.mem_singleton.mp hmem
        exact ⟨rfl, hdropped, hattempted, hemitted⟩
    · rw [lastLost_append]
      rcases List.mem_append.mp hmem with hmem | hmem
      · have := h.lost_le r hmem
        simp only
        omega
      · obtain rfl := List.mem_singleton.mp hmem
        exact le_refl _
    · refine List.pairwise_append.mpr ⟨h.increasing, List.pairwise_singleton _ _, fun a ha b hb => ?_⟩
      obtain rfl := List.mem_singleton.mp hb
      exact (h.lost_le a ha).trans_lt hlost
  · rw [reportsOf, hstores, List.map_nil, List.append_nil, hring, hlog]
    exact h

/-- A call that is no report keeps the mark of the last one, and loses no count of losses. -/
lemma other_call (hl : Ledger capacity ring log) {op : RingOp}
    (hop : ∀ tick, op ≠ .reportOverflow tick) :
    (op.call ring).1.reportedDropped = ring.reportedDropped ∧ lost log ≤ lost (log.add ring op) ∧
      reportsOf ring log op = [] := by
  have hle := hl.stored_le
  have hgrow : (op.stores ring).length ≤ op.attempts ring → lost log ≤ lost (log.add ring op) := by
    intro hs
    simp only [lost, RingLog.add, List.length_append]
    omega
  have hpush : ∀ tick inputs,
      (osTraceRingPushBatch ring tick inputs).1.reportedDropped = ring.reportedDropped := by
    intro tick inputs
    have hr := pushBatch_result hl.indexed tick inputs
    generalize osTraceRingPushBatch ring tick inputs = result at hr
    cases hr <;> rfl
  have hbatch : ∀ tick inputs, (op.call ring).2 =
      .stored (osTraceRingPushBatch ring tick inputs).2 → op.batch ring = (tick, inputs) →
        (op.stores ring).length ≤ op.attempts ring := by
    intro tick inputs hreply hb
    have hr := pushBatch_result hl.indexed tick inputs
    rw [RingOp.stores, RingOp.attempts, hreply, hb]
    cases hok : (osTraceRingPushBatch ring tick inputs).2 with
    | false => exact Nat.zero_le _
    | true =>
      rw [if_pos (hr.success_iff.mp hok).attempted]
      exact (stamp_length _ _ _).le
  cases op with
  | push tick input => exact ⟨hpush tick [input], hgrow (hbatch tick [input] rfl rfl), rfl⟩
  | pushBatch tick inputs => exact ⟨hpush tick inputs, hgrow (hbatch tick inputs rfl rfl), rfl⟩
  | reportOverflow tick => exact absurd rfl (hop tick)
  | pop =>
    refine ⟨?_, hgrow ?_, rfl⟩
    · rw [RingOp.call, osTraceRingPop]
      split <;> rfl
    · rw [RingOp.stores, RingOp.call, osTraceRingPop]
      split <;> exact Nat.zero_le _
  | close tick =>
    refine ⟨?_, hgrow ?_, rfl⟩
    · rw [RingOp.call, osTraceRingClose]
      split <;> rfl
    · rw [RingOp.stores, RingOp.call, osTraceRingClose]
      split <;> exact Nat.zero_le _

lemma Tracked.call (h : Tracked capacity ring log reports) (op : RingOp) :
    Tracked capacity (op.call ring).1 (log.add ring op) (reports ++ reportsOf ring log op) := by
  by_cases hop : ∃ tick, op = .reportOverflow tick
  · obtain ⟨tick, rfl⟩ := hop
    exact h.report tick
  · obtain ⟨hlast, hlost, hreports⟩ := other_call h.ledger fun tick ht => hop ⟨tick, ht⟩
    rw [hreports, List.append_nil]
    exact
      { ledger := h.ledger.call op
        last := hlast.trans h.last
        last_le := h.last_le.trans hlost
        truthful := h.truthful
        lost_le := h.lost_le
        increasing := h.increasing }

theorem tracked_of_reported (h : Reported capacity ops ring log reports) :
    Tracked capacity ring log reports := by
  induction h with
  | init h => exact tracked_init h
  | call _ op ih => exact ih.call op

/-! ### The records of overflows -/

/-- Whether a record is that of an overflow. -/
def isOverflow (record : TraceRecord) : Bool := record.event == TraceEvent.overflow.code

/-- A batch without the event makes no record of it. -/
lemma stamp_filter {inputs : List TraceInput} (tick sequence : ℕ)
    (h : ∀ input ∈ inputs, InputValid input ∧ input.event ≠ TraceEvent.overflow.code) :
    (stamp tick sequence inputs).filter isOverflow = [] := by
  induction inputs generalizing sequence with
  | nil => rfl
  | cons input inputs ih =>
    obtain ⟨⟨hvalid, -⟩, hne⟩ := h input (List.mem_cons_self ..)
    have hlt : input.event < 2 ^ 8 := by
      have hcode : TraceEvent.overflow.code = 22 := rfl
      simp only [osTraceEventValid, Bool.and_eq_true, decide_eq_true_eq] at hvalid
      omega
    have hno : isOverflow (recordOf tick (u32 sequence) input) = false := by
      rw [isOverflow, beq_eq_false_iff_ne]
      simp only [recordOf, Nat.mod_eq_of_lt hlt]
      exact hne
    rw [stamp, List.filter_cons_of_neg (by rw [hno]; decide)]
    exact ih _ fun input hmem => h input (List.mem_cons_of_mem _ hmem)

/-- A call that does not forge one stores the record of an overflow as a report only. -/
lemma stores_filter (hl : Ledger capacity ring log) {op : RingOp} (hop : ¬Forges op) :
    (op.stores ring).filter isOverflow = (reportsOf ring log op).map Report.record := by
  have hbatch : ∀ tick inputs, (op.call ring).2 =
      .stored (osTraceRingPushBatch ring tick inputs).2 → op.batch ring = (tick, inputs) →
        (∀ input ∈ inputs, input.event ≠ TraceEvent.overflow.code) →
          (op.stores ring).filter isOverflow = [] := by
    intro tick inputs hreply hb hne
    have hr := pushBatch_result hl.indexed tick inputs
    rw [RingOp.stores, hreply, hb]
    cases hok : (osTraceRingPushBatch ring tick inputs).2 with
    | false => rfl
    | true =>
      have hvalid := (hr.success_iff.mp hok).attempted.valid
      exact stamp_filter tick _ fun input hmem => ⟨hvalid input hmem, hne input hmem⟩
  cases op with
  | push tick input =>
    refine hbatch tick [input] rfl rfl fun i hi => ?_
    rw [List.mem_singleton.mp hi]
    exact hop
  | pushBatch tick inputs =>
    exact hbatch tick inputs rfl rfl fun i hi he => hop ⟨i, hi, he⟩
  | reportOverflow tick =>
    rcases report_call hl tick with ⟨-, -, hstores, -⟩ | ⟨-, -, hstores, -⟩
    · rw [reportsOf, hstores]
      rfl
    · rw [reportsOf, hstores]
      rfl
  | pop =>
    rw [RingOp.stores, RingOp.call, osTraceRingPop]
    split <;> rfl
  | close tick =>
    rw [RingOp.stores, RingOp.call, osTraceRingClose]
    split <;> rfl

/-- Where no call forges one, the records of overflows are those of the reports. -/
lemma overflow_records (h : Reported capacity ops ring log reports)
    (hops : ∀ op ∈ ops, ¬Forges op) :
    log.stored.filter isOverflow = reports.map Report.record := by
  induction h with
  | init h => rfl
  | call h op ih =>
    have hop := stores_filter (tracked_of_reported h).ledger (hops op (List.mem_cons_self ..))
    rw [RingLog.add, List.filter_append, List.map_append, hop,
      ih fun o ho => hops o (List.mem_cons_of_mem _ ho)]

/-! ### Emission -/

/-- **A report that takes the last slot** loses the event it comes before, and that loss waits for
the next report. -/
lemma emit_last_slot (h : Reported capacity ops ring log reports) (hr : Reports ring)
    (hlast : ring.count + 1 = capacity) (tick : ℕ) (event : TraceEvent)
    (task related value0 value1 value2 : ℕ) :
    (osTraceEmit ring tick event task related value0 value1 value2).records =
        ring.records ++ [overflowRecord ring tick] ∧
      ∃ ops' log' reports', Reported capacity ops'
          (osTraceEmit ring tick event task related value0 value1 value2) log' reports' ∧
        lastLost reports' < lost log' := by
  have ht := tracked_of_reported h
  have hle := ht.ledger.stored_le
  obtain ⟨-, hring, hstores, hlog⟩ := (report_call ht.ledger tick).resolve_right fun hn => hn.1 hr
  have hreported := h.call (.reportOverflow tick)
  rw [reportsOf, hstores, List.map_singleton, hring, hlog] at hreported
  obtain ⟨input, hinput⟩ : ∃ input : TraceInput,
    input = ⟨event.code, 0, task, related, value0, value1, value2⟩ := ⟨_, rfl⟩
  have hemit : osTraceEmit ring tick event task related value0 value1 value2 =
      (RingOp.call (reported ring tick) (.push tick input)).1 := by
    have hreport : (osTraceRingReportOverflow ring tick).1 = reported ring tick := hring
    rw [osTraceEmit, hreport, hinput]
    rfl
  have hpush := pushBatch_result (tracked_of_reported hreported).ledger.indexed tick [input]
  -- there is no slot left for the event
  have hfull : (osTraceRingPushBatch (reported ring tick) tick [input]).2 = false := by
    rw [← Bool.not_eq_true, hpush.success_iff]
    intro htakes
    have hroom := htakes.room
    have hcap : ring.capacity = capacity := ht.ledger.capacity
    simp only [fifo, records_length, reported, List.length_singleton] at hroom
    omega
  have hattempted : (fifo (reported ring tick)).Attempted [input] := by
    refine ⟨hr.1, le_refl _, le_min (Nat.le_add_left 1 4) (Nat.pos_of_ne_zero hr.2.1), fun i hi => ?_⟩
    rw [List.mem_singleton.mp hi, hinput]
    exact ⟨by cases event <;> rfl, rfl⟩
  rw [hemit]
  refine ⟨?_, _, _, _, hreported.call (.push tick input), ?_⟩
  · exact (hpush.kept hfull).1.records.trans (reported_records ht.ledger hr tick)
  · have hnone : RingOp.stores (reported ring tick) (.push tick input) = [] := by
      rw [RingOp.stores]
      have hreply : (RingOp.call (reported ring tick) (.push tick input)).2 = .stored false :=
        congrArg RingReply.stored hfull
      rw [hreply]
    have hno : ∀ log, reportsOf (reported ring tick) log (.push tick input) = [] := fun _ => rfl
    rw [hno, List.append_nil, lastLost_append, lost, RingLog.add, hnone, RingOp.attempts,
      RingOp.batch, if_pos hattempted]
    simp only [lost, List.append_nil, List.length_append, List.length_singleton]
    omega

/-- **Reports of losses are exact**, over every history of the ring. A report appends one record that
shows the totals, or changes nothing; it is made exactly when a record has been lost since the last
report, and the ring is open, has a slot and has a sequence number; from one report to the next the
losses increase; the records of overflows are those of the reports, unless a caller pushes one
itself; and a report that takes the last slot leaves the loss of its event to the next one. -/
theorem overflow_reports_exact (h : Reported capacity ops ring log reports) :
    (∀ tick, osTraceRingReportOverflow ring tick = (ring, false) ∨
        (osTraceRingReportOverflow ring tick = (reported ring tick, true) ∧
          (reported ring tick).records = ring.records ++ [overflowRecord ring tick] ∧
          Truthful ⟨ring.dropped, ring.attempted, ring.emitted, overflowRecord ring tick⟩ ∧
          ring.dropped = lost log ∧ ring.attempted = log.attempts ∧
          ring.emitted = log.stored.length)) ∧
      (∀ tick, (osTraceRingReportOverflow ring tick).2 = true ↔
        ring.enabled = true ∧ ring.records.length < capacity ∧ ring.sequenceExhausted = false ∧
          lastLost reports < lost log) ∧
      (∀ r ∈ reports, Truthful r) ∧
      (reports.Pairwise fun a b => a.lost < b.lost ∧ a.record.value0 < b.record.value0) ∧
      ((∀ op ∈ ops, ¬Forges op) → log.stored.filter isOverflow = reports.map Report.record) ∧
      (∀ tick event task related value0 value1 value2, Reports ring → ring.count + 1 = capacity →
        (osTraceEmit ring tick event task related value0 value1 value2).records =
            ring.records ++ [overflowRecord ring tick] ∧
          ∃ ops' log' reports', Reported capacity ops'
              (osTraceEmit ring tick event task related value0 value1 value2) log' reports' ∧
            lastLost reports' < lost log') := by
  have ht := tracked_of_reported h
  refine ⟨fun tick => ?_, fun tick => ?_, ht.truthful, ?_, overflow_records h,
    fun tick event task related value0 value1 value2 hr hlast =>
      emit_last_slot h hr hlast tick event task related value0 value1 value2⟩
  · rw [report_eq ht.ledger]
    by_cases hr : Reports ring
    · rw [if_pos hr]
      have hx := (ht.reports_iff.mp hr).2.2.1
      exact Or.inr ⟨rfl, reported_records ht.ledger hr tick, ⟨rfl, rfl, rfl, rfl⟩,
        dropped_eq ht.ledger hx⟩
    · rw [if_neg hr]
      exact Or.inl rfl
  · rw [report_eq ht.ledger, ← ht.reports_iff]
    by_cases hr : Reports ring
    · simp [hr]
    · simp [hr]
  · refine ht.increasing.imp_of_mem fun ha hb hlt => ⟨hlt, ?_⟩
    rw [(ht.truthful _ ha).dropped, (ht.truthful _ hb).dropped]
    exact hlt

/-- A ring of one slot: a record is lost while the slot is taken, and the report is made once it is
free. -/
theorem overflow_reports_exact_pop : ∃ ops ring log reports, Reported 1 ops ring log reports ∧
    (osTraceRingReportOverflow ring 9).2 = true :=
  let input : TraceInput := ⟨TraceEvent.kernelStart.code, 0, traceTaskInvalid, traceTaskInvalid, 0, 5, 0⟩
  have h : Reported 1 _ _ _ _ := .call (.call (.call (.init rfl) (.push 7 input)) (.push 8 input)) .pop
  ⟨_, _, _, _, h, ((overflow_reports_exact h).2.1 9).mpr ⟨rfl, by decide, rfl, by decide⟩⟩

end Aymos.OverflowReports
