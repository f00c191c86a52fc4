import Aymos.CircularBuffer
import Aymos.Trace

/-!
The trace ring over any history of calls.

`Fifo` is what the ring is for: a bounded queue that takes whole batches or nothing, stamps the
records of a batch with one tick and consecutive sequence numbers, and hands them out in order.
A history of calls is logged with what was attempted, stored and popped; the counters of the ring
and the totals it reports are compared with the log.
-/

namespace Aymos.RingHistory

open Words Trace CircularBuffer

/-- The calls on a ring. -/
inductive RingOp
  | push (tick : ℕ) (input : TraceInput)
  | pushBatch (tick : ℕ) (inputs : List TraceInput)
  | reportOverflow (tick : ℕ)
  | pop
  | close (finalTick : ℕ)

/-- What a call returns. -/
inductive RingReply
  | stored (success : Bool)
  | popped (record : Option TraceRecord)
  | closed (final : Option TraceFinal)

/-- A call on the ring. -/
def RingOp.call (ring : TraceRing) : RingOp → TraceRing × RingReply
  | .push tick input => (osTraceRingPush ring tick input).map id .stored
  | .pushBatch tick inputs => (osTraceRingPushBatch ring tick inputs).map id .stored
  | .reportOverflow tick => (osTraceRingReportOverflow ring tick).map id .stored
  | .pop => (osTraceRingPop ring).map id .popped
  | .close finalTick => (osTraceRingClose ring finalTick).map id .closed

/-! ### The queue -/

/-- A bounded queue of stamped records. `next` is the sequence number after the last one given
out, and `spent` says that there are no more of them. -/
structure Fifo where
  capacity : ℕ
  items : List TraceRecord
  isOpen : Bool
  next : ℕ
  spent : Bool

/-- What the ring holds, as a queue. -/
def fifo (ring : TraceRing) : Fifo :=
  { capacity := ring.capacity
    items := ring.records
    isOpen := ring.enabled
    next := ring.nextSequence
    spent := ring.sequenceExhausted }

def InputValid (input : TraceInput) : Prop :=
  osTraceEventValid input.event = true ∧ input.flags = 0

/-- A batch an open queue gives sequence numbers to, whether or not there is room for it. -/
structure Fifo.Attempted (q : Fifo) (inputs : List TraceInput) : Prop where
  isOpen : q.isOpen = true
  nonempty : 1 ≤ inputs.length
  fits : inputs.length ≤ min traceMaxBatchRecords q.capacity
  valid : ∀ input ∈ inputs, InputValid input

/-- There are sequence numbers left for a batch of `n` records. -/
def Fifo.HasNumbers (q : Fifo) (n : ℕ) : Prop :=
  q.spent = false ∧ q.next + n ≤ 2 ^ 32

/-- **A batch the queue takes.** -/
structure Fifo.Takes (q : Fifo) (inputs : List TraceInput) : Prop where
  attempted : q.Attempted inputs
  numbers : q.HasNumbers inputs.length
  room : inputs.length ≤ q.capacity - q.items.length

/-- The records a batch becomes, at one tick and with consecutive sequence numbers. -/
def stamp (tick sequence : ℕ) : List TraceInput → List TraceRecord
  | [] => []
  | input :: inputs => recordOf tick (u32 sequence) input :: stamp tick (sequence + 1) inputs

@[simp] lemma stamp_length (tick sequence : ℕ) (inputs : List TraceInput) :
    (stamp tick sequence inputs).length = inputs.length := by
  induction inputs generalizing sequence with
  | nil => rfl
  | cons input inputs ih => simp [stamp, ih]

/-- The sequence numbers of a batch are those from `sequence` on. -/
lemma stamp_sequences {sequence : ℕ} {inputs : List TraceInput}
    (h : sequence + inputs.length ≤ 2 ^ 32) (tick : ℕ) :
    (stamp tick sequence inputs).map TraceRecord.sequence =
      List.range' sequence inputs.length := by
  induction inputs generalizing sequence with
  | nil => rfl
  | cons input inputs ih =>
    have hl : (input :: inputs).length = inputs.length + 1 := rfl
    rw [hl] at h
    have hs : u32 sequence = sequence := Nat.mod_eq_of_lt (by omega)
    rw [stamp, List.map_cons, ih (by omega), hl, List.range'_succ]
    simp [recordOf, hs]

lemma records_eq (ring : TraceRing) :
    ring.records = contents ring.slots ring.capacity ring.readIndex ring.count := rfl

lemma records_length (ring : TraceRing) : ring.records.length = ring.count := by
  rw [records_eq, contents_length]

/-- The loop that writes a batch writes the records the batch becomes. -/
lemma writeRecords_eq (capacity tick : ℕ) (slots : ℕ → TraceRecord) (write sequence : ℕ)
    (inputs : List TraceInput) :
    writeRecords capacity tick slots write sequence inputs =
      writeAll capacity slots write (stamp tick sequence inputs) := by
  induction inputs generalizing slots write sequence with
  | nil => rfl
  | cons input inputs ih => exact ih _ _ _

/-! ### The storage -/

/-- **The indices of the ring**: it holds at most its capacity, and the next record is written
behind the ones it holds. -/
structure Indexed (ring : TraceRing) : Prop where
  positive : 0 < ring.capacity
  bounded : ring.count ≤ ring.capacity
  read : ring.readIndex < ring.capacity
  write : ring.writeIndex = (ring.readIndex + ring.count) % ring.capacity

/-- Two rings with the same storage. -/
def SameStorage (ring ring' : TraceRing) : Prop :=
  ring'.slots = ring.slots ∧ ring'.capacity = ring.capacity ∧ ring'.readIndex = ring.readIndex ∧
    ring'.writeIndex = ring.writeIndex ∧ ring'.count = ring.count

lemma SameStorage.refl (ring : TraceRing) : SameStorage ring ring := ⟨rfl, rfl, rfl, rfl, rfl⟩

lemma SameStorage.records {ring ring' : TraceRing} (h : SameStorage ring ring') :
    ring'.records = ring.records := by
  obtain ⟨hs, hc, hr, -, hn⟩ := h
  unfold TraceRing.records
  rw [hs, hc, hr, hn]

lemma SameStorage.indexed {ring ring' : TraceRing} (h : SameStorage ring ring')
    (hi : Indexed ring) : Indexed ring' := by
  obtain ⟨hs, hc, hr, hw, hn⟩ := h
  exact ⟨hc ▸ hi.positive, hc ▸ hn ▸ hi.bounded, hc ▸ hr ▸ hi.read, by rw [hw, hr, hn, hc, hi.write]⟩

/-! ### One push -/

/-- The counters of the ring after an attempt of `n` records. -/
def attemptedCounters (ring : TraceRing) (n : ℕ) : TraceRing :=
  { ring with
    attempted := incrementSaturating^[n] ring.attempted
    nextSequence := u32 (ring.nextSequence + n)
    sequenceExhausted := ring.sequenceExhausted || u32 (ring.nextSequence + n) == 0 }

/-- The numbers of a batch that does not use up the last one. -/
lemma attempted_next {ring : TraceRing} {n : ℕ} (h : (fifo ring).HasNumbers n)
    (hx : (attemptedCounters ring n).sequenceExhausted = false) :
    (attemptedCounters ring n).nextSequence = ring.nextSequence + n := by
  have hroom : ring.nextSequence + n ≤ 2 ^ 32 := h.2
  have hne : u32 (ring.nextSequence + n) ≠ 0 := by
    simp only [attemptedCounters, Bool.or_eq_false_iff] at hx
    simpa using hx.2
  refine Nat.mod_eq_of_lt (lt_of_le_of_ne hroom fun he => hne ?_)
  rw [he]
  rfl

/-- What a push does: nothing, or it counts an attempt for which there are no numbers or no
room, or it appends the batch. -/
inductive PushResult (ring : TraceRing) (tick : ℕ) (inputs : List TraceInput) :
    TraceRing × Bool → Prop
  | refused (h : ¬ (fifo ring).Attempted inputs) : PushResult ring tick inputs (ring, false)
  | spent (h : (fifo ring).Attempted inputs) (hn : ¬ (fifo ring).HasNumbers inputs.length) :
    PushResult ring tick inputs
      ({ ring with
          sequenceExhausted := true
          attempted := incrementSaturating^[inputs.length] ring.attempted
          dropped := incrementSaturating^[inputs.length] ring.dropped }, false)
  | full (h : (fifo ring).Attempted inputs) (hn : (fifo ring).HasNumbers inputs.length)
    (hr : ¬ inputs.length ≤ ring.capacity - ring.count) :
    PushResult ring tick inputs
      ({ attemptedCounters ring inputs.length with
          dropped := incrementSaturating^[inputs.length] ring.dropped }, false)
  | stored (h : (fifo ring).Takes inputs) :
    PushResult ring tick inputs
      ({ attemptedCounters ring inputs.length with
          slots := (writeAll ring.capacity ring.slots ring.writeIndex
            (stamp tick ring.nextSequence inputs)).1
          writeIndex := (writeAll ring.capacity ring.slots ring.writeIndex
            (stamp tick ring.nextSequence inputs)).2
          count := ring.count + inputs.length
          emitted := incrementSaturating^[inputs.length] ring.emitted }, true)

lemma inputs_valid_iff (inputs : List TraceInput) :
    (inputs.any fun input => !osTraceEventValid input.event || input.flags != 0) = false ↔
      ∀ input ∈ inputs, InputValid input := by
  simp [InputValid]

/-- **What a push does**, by cases. -/
theorem pushBatch_result {ring : TraceRing} (hi : Indexed ring) (tick : ℕ)
    (inputs : List TraceInput) :
    PushResult ring tick inputs (osTraceRingPushBatch ring tick inputs) := by
  unfold osTraceRingPushBatch
  dsimp only
  split
  · case isTrue h =>
    refine .refused fun ha => ?_
    have hf := ha.fits
    have hn := ha.nonempty
    have ho : ring.enabled = true := ha.isOpen
    have hp := hi.positive
    simp only [fifo, le_min_iff] at hf
    simp only [ho] at h
    rcases h with h | h | h | h | h <;> first | omega | simp at h
  · case isFalse h =>
    simp only [not_or, Bool.not_eq_true', Bool.not_eq_false] at h
    obtain ⟨hp, ho, h0, hc, hm⟩ := h
    split
    · case isTrue hv =>
      refine .refused fun ha => ?_
      rw [(inputs_valid_iff inputs).mpr ha.valid] at hv
      exact absurd hv (by decide)
    · case isFalse hv =>
      have ha : (fifo ring).Attempted inputs :=
        ⟨ho, by omega, le_min (by omega) (Nat.le_of_not_lt hc),
          (inputs_valid_iff inputs).mp (Bool.eq_false_of_not_eq_true hv)⟩
      have hlen := ha.nonempty
      split
      · case isTrue hs =>
        refine .spent ha fun hn => ?_
        obtain ⟨hx, hb⟩ := hn
        simp only [fifo] at hx hb
        rcases hs with hs | hs
        · exact absurd (hs.symm.trans hx) (by decide)
        · unfold uint32Max at hs
          omega
      · case isFalse hs =>
        simp only [not_or, Bool.not_eq_true] at hs
        obtain ⟨hx, hb⟩ := hs
        have hn : (fifo ring).HasNumbers inputs.length :=
          ⟨hx, by simp only [fifo]; unfold uint32Max traceMaxBatchRecords at *; omega⟩
        split
        · case isTrue hr => exact .full ha hn (by omega)
        · case isFalse hr =>
          rw [writeRecords_eq]
          exact .stored ⟨ha, hn, by simp only [fifo, records_length]; omega⟩

section Push

variable {ring : TraceRing} {tick : ℕ} {inputs : List TraceInput} {result : TraceRing × Bool}

lemma PushResult.success_iff (h : PushResult ring tick inputs result) :
    result.2 = true ↔ (fifo ring).Takes inputs := by
  have hlen : (fifo ring).items.length = ring.count := records_length ring
  cases h with
  | refused h => exact ⟨fun hs => absurd hs Bool.false_ne_true, fun ht => absurd ht.attempted h⟩
  | spent h hn => exact ⟨fun hs => absurd hs Bool.false_ne_true, fun ht => absurd ht.numbers hn⟩
  | full h hn hr => exact ⟨fun hs => absurd hs Bool.false_ne_true, fun ht => absurd (hlen ▸ ht.room) hr⟩
  | stored h => exact ⟨fun _ => h, fun _ => rfl⟩

/-- A push that stores nothing leaves the storage. -/
lemma PushResult.kept (h : PushResult ring tick inputs result) (hf : result.2 = false) :
    SameStorage ring result.1 ∧ result.1.enabled = ring.enabled := by
  cases h with
  | refused => exact ⟨.refl ring, rfl⟩
  | spent => exact ⟨⟨rfl, rfl, rfl, rfl, rfl⟩, rfl⟩
  | full => exact ⟨⟨rfl, rfl, rfl, rfl, rfl⟩, rfl⟩
  | stored => exact absurd hf.symm Bool.false_ne_true

/-- A push that stores its batch appends it. -/
lemma PushResult.appended (h : PushResult ring tick inputs result) (hi : Indexed ring)
    (hs : result.2 = true) :
    Indexed result.1 ∧ result.1.readIndex = ring.readIndex ∧
      result.1.records = ring.records ++ stamp tick ring.nextSequence inputs := by
  cases h with
  | refused => exact absurd hs Bool.false_ne_true
  | spent => exact absurd hs Bool.false_ne_true
  | full => exact absurd hs Bool.false_ne_true
  | stored h =>
    have hroom : inputs.length ≤ ring.capacity - ring.count := by
      have hr := h.room
      simpa only [fifo, records_length] using hr
    have hb := hi.bounded
    have hfit : ring.count + (stamp tick ring.nextSequence inputs).length ≤ ring.capacity := by
      rw [stamp_length]
      omega
    obtain ⟨hc, hw⟩ := @contents_writeAll _ ring.slots _ ring.readIndex _ _ hfit
    rw [← hi.write, stamp_length] at hc hw
    exact ⟨⟨hi.positive, by simp only [attemptedCounters]; omega, hi.read, hw⟩, rfl, hc⟩

lemma PushResult.indexed (h : PushResult ring tick inputs result) (hi : Indexed ring) :
    Indexed result.1 ∧ result.1.readIndex = ring.readIndex := by
  cases hs : result.2 with
  | false =>
    have hk := (h.kept hs).1
    exact ⟨hk.indexed hi, hk.2.2.1⟩
  | true => exact ⟨(h.appended hi hs).1, (h.appended hi hs).2.1⟩

end Push

/-! ### The other calls -/

/-- The ring has losses to report and room for the report. -/
def Reports (ring : TraceRing) : Prop :=
  ring.enabled = true ∧ ring.capacity ≠ 0 ∧ ring.count < ring.capacity ∧
    ring.sequenceExhausted = false ∧ ring.dropped ≠ ring.reportedDropped

instance (ring : TraceRing) : Decidable (Reports ring) := by unfold Reports; infer_instance

def overflowInput (ring : TraceRing) : TraceInput :=
  ⟨TraceEvent.overflow.code, 0, traceTaskInvalid, traceTaskInvalid,
    ring.dropped, ring.attempted, ring.emitted⟩

lemma reports_takes {ring : TraceRing} (h : Reports ring) (hn : ring.nextSequence < 2 ^ 32) :
    (fifo ring).Takes [overflowInput ring] := by
  obtain ⟨ho, hc, hroom, hx, -⟩ := h
  refine ⟨⟨ho, le_refl _, le_min (Nat.le_add_left 1 4) (Nat.pos_of_ne_zero hc), ?_⟩, ⟨hx, hn⟩, ?_⟩
  · intro input hi
    rw [List.mem_singleton.mp hi]
    exact ⟨rfl, rfl⟩
  · simp only [fifo, records_length, List.length_singleton]
    omega

/-- A report of losses is a push that stores, or nothing. -/
lemma reportOverflow_eq {ring : TraceRing} (hi : Indexed ring) (hn : ring.nextSequence < 2 ^ 32)
    (tick : ℕ) : osTraceRingReportOverflow ring tick =
      if Reports ring then
        ({ (osTraceRingPushBatch ring tick [overflowInput ring]).1 with
            reportedDropped := ring.dropped }, true)
      else (ring, false) := by
  unfold osTraceRingReportOverflow
  by_cases h : Reports ring
  · rw [if_pos h, if_neg]
    · have hs := (pushBatch_result hi tick [overflowInput ring]).success_iff.mpr (reports_takes h hn)
      have hpush : osTraceRingPush ring tick ⟨TraceEvent.overflow.code, 0, traceTaskInvalid,
          traceTaskInvalid, ring.dropped, ring.attempted, ring.emitted⟩ =
            ((osTraceRingPushBatch ring tick [overflowInput ring]).1, true) := Prod.ext rfl hs
      rw [hpush]
    · obtain ⟨ho, hc, hroom, hx, hd⟩ := h
      simp only [ho, hx, hd, Bool.not_true, Bool.false_eq_true, false_or, or_false, not_or]
      omega
  · rw [if_neg h, if_pos]
    by_contra hne
    simp only [not_or, Bool.not_eq_true', Bool.not_eq_false, Bool.not_eq_true] at hne
    exact h ⟨hne.1, hne.2.1, by omega, hne.2.2.2.1, hne.2.2.2.2⟩

lemma pop_empty {ring : TraceRing} (h : ring.count = 0) : osTraceRingPop ring = (ring, none) :=
  if_pos h

/-- The ring without its oldest record. -/
def dropOldest (ring : TraceRing) : TraceRing :=
  { ring with
    readIndex := (ring.readIndex + 1) % ring.capacity
    count := ring.count - 1 }

/-- A pop takes the oldest record out. -/
lemma pop_record {ring : TraceRing} (hi : Indexed ring) (h : ring.count ≠ 0) :
    ∃ record, osTraceRingPop ring = (dropOldest ring, some record) ∧ Indexed (dropOldest ring) ∧
      ring.records = record :: (dropOldest ring).records := by
  have hb := hi.bounded
  obtain ⟨n, hn⟩ := Nat.exists_eq_succ_of_ne_zero h
  refine ⟨_, if_neg h, ⟨hi.positive, ?_, Nat.mod_lt _ hi.positive, ?_⟩, ?_⟩
  · simp only [dropOldest]
    omega
  · simp only [dropOldest, hi.write]
    rw [Nat.mod_add_mod]
    congr 1
    omega
  · rw [records_eq, records_eq, dropOldest, hn]
    exact contents_eq_cons hi.read

/-! ### Refinement -/

/-- The queue with a batch appended. -/
def Fifo.append (q : Fifo) (tick : ℕ) (inputs : List TraceInput) : Fifo :=
  { q with
    items := q.items ++ stamp tick q.next inputs
    next := u32 (q.next + inputs.length)
    spent := q.spent || u32 (q.next + inputs.length) == 0 }

/-- What the queue keeps when a push fails: all but the numbers. -/
def Fifo.Keeps (q q' : Fifo) : Prop :=
  q'.capacity = q.capacity ∧ q'.items = q.items ∧ q'.isOpen = q.isOpen

/-- **A push on the queue**: it succeeds exactly when the queue takes the batch, and then the
batch is appended. -/
def Fifo.Push (q : Fifo) (tick : ℕ) (inputs : List TraceInput) (ok : Bool) (q' : Fifo) : Prop :=
  (ok = true ↔ q.Takes inputs) ∧
    (ok = true → q' = q.append tick inputs) ∧ (ok = false → q.Keeps q')

/-- What each call may do to the queue, given what it returns. -/
def Fifo.Call (q : Fifo) (op : RingOp) (reply : RingReply) (q' : Fifo) : Prop :=
  match op, reply with
  | .push tick input, .stored ok => q.Push tick [input] ok q'
  | .pushBatch tick inputs, .stored ok => q.Push tick inputs ok q'
  | .reportOverflow tick, .stored true =>
    ∃ input, input.event = TraceEvent.overflow.code ∧ q.Push tick [input] true q'
  | .reportOverflow _, .stored false => q' = q
  | .pop, .popped (some record) => q.items = record :: q'.items ∧ q' = { q with items := q'.items }
  | .pop, .popped none => q.items = [] ∧ q' = q
  | .close _, .closed (some _) => q.isOpen = true ∧ q' = { q with isOpen := false }
  | .close _, .closed none => q.isOpen = false ∧ q' = q
  | _, _ => False

lemma PushResult.call {ring : TraceRing} {tick : ℕ} {inputs : List TraceInput}
    {result : TraceRing × Bool} (h : PushResult ring tick inputs result) (hi : Indexed ring) :
    (fifo ring).Push tick inputs result.2 (fifo result.1) := by
  refine ⟨h.success_iff, fun hs => ?_, fun hf => ?_⟩
  · have ha := (h.appended hi hs).2.2
    cases h with
    | refused => exact absurd hs Bool.false_ne_true
    | spent => exact absurd hs Bool.false_ne_true
    | full => exact absurd hs Bool.false_ne_true
    | stored =>
      unfold fifo Fifo.append
      rw [ha]
      rfl
  · obtain ⟨hk, ho⟩ := h.kept hf
    exact ⟨hk.2.1, hk.records, ho⟩

lemma push_call {ring : TraceRing} (hi : Indexed ring) (tick : ℕ) (inputs : List TraceInput) :
    (fifo ring).Push tick inputs (osTraceRingPushBatch ring tick inputs).2
      (fifo (osTraceRingPushBatch ring tick inputs).1) :=
  (pushBatch_result hi tick inputs).call hi

/-- **Every call on the ring is one on the queue.** -/
theorem call_refines {ring : TraceRing} (hi : Indexed ring) (hn : ring.nextSequence < 2 ^ 32)
    (op : RingOp) : (fifo ring).Call op (op.call ring).2 (fifo (op.call ring).1) := by
  cases op with
  | push tick input => exact push_call hi tick [input]
  | pushBatch tick inputs => exact push_call hi tick inputs
  | reportOverflow tick =>
    rw [RingOp.call, reportOverflow_eq hi hn]
    split
    · case isTrue h =>
      have hp := push_call hi tick [overflowInput ring]
      rw [hp.1.mpr (reports_takes h hn)] at hp
      exact ⟨overflowInput ring, rfl, hp⟩
    · case isFalse => exact rfl
  | pop =>
    rw [RingOp.call]
    by_cases h : ring.count = 0
    · rw [pop_empty h]
      exact ⟨List.length_eq_zero_iff.mp ((records_length ring).trans h), rfl⟩
    · obtain ⟨record, he, -, hr⟩ := pop_record hi h
      rw [he]
      exact ⟨hr, rfl⟩
  | close tick =>
    rw [RingOp.call, osTraceRingClose]
    cases ho : ring.enabled with
    | true => exact ⟨ho, rfl⟩
    | false => exact ⟨ho, rfl⟩

/-! ### Histories -/

instance (q : Fifo) (inputs : List TraceInput) : Decidable (q.Attempted inputs) :=
  decidable_of_iff (q.isOpen = true ∧ 1 ≤ inputs.length ∧
      inputs.length ≤ min traceMaxBatchRecords q.capacity ∧
      ∀ input ∈ inputs, osTraceEventValid input.event = true ∧ input.flags = 0)
    ⟨fun h => ⟨h.1, h.2.1, h.2.2.1, h.2.2.2⟩, fun h => ⟨h.1, h.2, h.3, h.4⟩⟩

/-- What has been attempted, stored and taken out since the ring was initialized. -/
structure RingLog where
  attempts : ℕ
  stored : List TraceRecord
  popped : List TraceRecord

/-- The batch a call pushes, and its tick. -/
def RingOp.batch (ring : TraceRing) : RingOp → ℕ × List TraceInput
  | .push tick input => (tick, [input])
  | .pushBatch tick inputs => (tick, inputs)
  | .reportOverflow tick => (tick, if Reports ring then [overflowInput ring] else [])
  | .pop => (0, [])
  | .close tick => (tick, [])

/-- The records that a call attempts to store. -/
def RingOp.attempts (ring : TraceRing) (op : RingOp) : ℕ :=
  if (fifo ring).Attempted (op.batch ring).2 then (op.batch ring).2.length else 0

/-- The records that a call stores. -/
def RingOp.stores (ring : TraceRing) (op : RingOp) : List TraceRecord :=
  match (op.call ring).2 with
  | .stored true => stamp (op.batch ring).1 ring.nextSequence (op.batch ring).2
  | _ => []

/-- The records that a call takes out. -/
def RingOp.takesOut (ring : TraceRing) (op : RingOp) : List TraceRecord :=
  match (op.call ring).2 with
  | .popped (some record) => [record]
  | _ => []

/-- The log after one more call. -/
def RingLog.add (log : RingLog) (ring : TraceRing) (op : RingOp) : RingLog :=
  { attempts := log.attempts + op.attempts ring
    stored := log.stored ++ op.stores ring
    popped := log.popped ++ op.takesOut ring }

/-- **Any sequence of calls** on a ring initialized with `capacity` slots, with its log. -/
inductive History (capacity : ℕ) : TraceRing → RingLog → Prop
  | init {ring : TraceRing} (h : osTraceRingInit capacity = some ring) :
    History capacity ring ⟨0, [], []⟩
  | call {ring : TraceRing} {log : RingLog} (h : History capacity ring log) (op : RingOp) :
    History capacity (op.call ring).1 (log.add ring op)

/-- What a call leaves in the ring and in the log, by cases on what it does. -/
inductive CallResult (ring : TraceRing) (op : RingOp) : Prop
  | pushed (tick : ℕ) (inputs : List TraceInput) (reported : ℕ)
    (hring : (op.call ring).1 =
      { (osTraceRingPushBatch ring tick inputs).1 with reportedDropped := reported })
    (hreply : (op.call ring).2 = .stored (osTraceRingPushBatch ring tick inputs).2)
    (hbatch : op.batch ring = (tick, inputs))
  | idle (hring : (op.call ring).1 = ring) (hattempts : op.attempts ring = 0)
    (hstores : op.stores ring = []) (htakes : op.takesOut ring = [])
  | popped (record : TraceRecord) (hcall : op.call ring = (dropOldest ring, .popped (some record)))
    (hindexed : Indexed (dropOldest ring))
    (hrecords : ring.records = record :: (dropOldest ring).records)
    (hbatch : (op.batch ring).2 = [])
  | closed (final : TraceFinal) (hring : (op.call ring).1 = { ring with enabled := false })
    (hreply : (op.call ring).2 = .closed (some final)) (hbatch : (op.batch ring).2 = [])

lemma not_attempted_nil (q : Fifo) : ¬ q.Attempted [] := fun h => absurd h.nonempty (by decide)

lemma call_result {ring : TraceRing} (hi : Indexed ring) (hn : ring.nextSequence < 2 ^ 32)
    (op : RingOp) : CallResult ring op := by
  cases op with
  | push tick input => exact .pushed tick [input] _ rfl rfl rfl
  | pushBatch tick inputs => exact .pushed tick inputs _ rfl rfl rfl
  | reportOverflow tick =>
    have he := reportOverflow_eq hi hn tick
    by_cases h : Reports ring
    · have hs := (pushBatch_result hi tick [overflowInput ring]).success_iff.mpr
        (reports_takes h hn)
      rw [if_pos h] at he
      refine .pushed tick [overflowInput ring] ring.dropped ?_ ?_ ?_
      · rw [RingOp.call, he]
        rfl
      · rw [RingOp.call, he, hs]
        rfl
      · rw [RingOp.batch, if_pos h]
    · rw [if_neg h] at he
      have hc : RingOp.call ring (.reportOverflow tick) = (ring, .stored false) := by
        rw [RingOp.call, he]
        rfl
      refine .idle (by rw [hc]) ?_ (by rw [RingOp.stores, hc]) (by rw [RingOp.takesOut, hc])
      rw [RingOp.attempts, if_neg]
      rw [RingOp.batch, if_neg h]
      exact not_attempted_nil _
  | pop =>
    by_cases h : ring.count = 0
    · have hc : RingOp.call ring .pop = (ring, .popped none) := by
        rw [RingOp.call, pop_empty h]
        rfl
      exact .idle (by rw [hc]) (if_neg (not_attempted_nil _)) (by rw [RingOp.stores, hc])
        (by rw [RingOp.takesOut, hc])
    · obtain ⟨record, he, hd, hr⟩ := pop_record hi h
      exact .popped record (by rw [RingOp.call, he]; rfl) hd hr rfl
  | close tick =>
    cases ho : ring.enabled with
    | true =>
      have hc : ∃ final, RingOp.call ring (.close tick) =
          ({ ring with enabled := false }, .closed (some final)) :=
        ⟨_, by rw [RingOp.call, osTraceRingClose, ho]; rfl⟩
      obtain ⟨final, hc⟩ := hc
      exact .closed final (by rw [hc]) (by rw [hc]) rfl
    | false =>
      have hc : RingOp.call ring (.close tick) = (ring, .closed none) := by
        rw [RingOp.call, osTraceRingClose, ho]
        rfl
      exact .idle (by rw [hc]) (if_neg (not_attempted_nil _)) (by rw [RingOp.stores, hc])
        (by rw [RingOp.takesOut, hc])

/-- **What the ring's counters say about the log.** -/
structure Ledger (capacity : ℕ) (ring : TraceRing) (log : RingLog) : Prop where
  indexed : Indexed ring
  capacity : ring.capacity = capacity
  queue : log.stored = log.popped ++ ring.records
  stored_le : log.stored.length ≤ log.attempts
  attempted : ring.attempted = min log.attempts uint32Max
  emitted : ring.emitted = min log.stored.length uint32Max
  dropped : ring.dropped = min (log.attempts - log.stored.length) uint32Max
  next_lt : ring.nextSequence < 2 ^ 32
  next : ring.sequenceExhausted = false → ring.nextSequence = log.attempts
  increasing : (log.stored.map TraceRecord.sequence).Pairwise (· < ·)
  below : ∀ record ∈ log.stored, record.sequence < 2 ^ 32 ∧
    (ring.sequenceExhausted = false → record.sequence < ring.nextSequence)

section Ledger

variable {capacity : ℕ} {ring : TraceRing} {log : RingLog}

lemma ledger_init (h : osTraceRingInit capacity = some ring) :
    Ledger capacity ring ⟨0, [], []⟩ := by
  unfold osTraceRingInit at h
  split at h
  · exact absurd h (by simp)
  · case isFalse hc =>
    obtain rfl := Option.some.inj h
    have hp : 0 < capacity := by omega
    exact ⟨⟨hp, Nat.zero_le _, hp, (Nat.zero_mod _).symm⟩, rfl, rfl, le_refl _, rfl, rfl, rfl,
      Nat.two_pow_pos 32, fun _ => rfl, .nil, by simp⟩

/-- The log after a push of a batch. -/
def RingLog.pushed (log : RingLog) (ring : TraceRing) (tick : ℕ) (inputs : List TraceInput)
    (ok : Bool) : RingLog :=
  { log with
    attempts := log.attempts + if (fifo ring).Attempted inputs then inputs.length else 0
    stored := log.stored ++ if ok then stamp tick ring.nextSequence inputs else [] }

lemma mem_stamp {tick sequence : ℕ} {inputs : List TraceInput}
    (hb : sequence + inputs.length ≤ 2 ^ 32) {record : TraceRecord}
    (h : record ∈ stamp tick sequence inputs) :
    sequence ≤ record.sequence ∧ record.sequence < sequence + inputs.length := by
  have hm := List.mem_map_of_mem (f := TraceRecord.sequence) h
  rw [stamp_sequences hb, List.mem_range'_1] at hm
  exact hm

lemma Ledger.push (h : Ledger capacity ring log) {tick : ℕ} {inputs : List TraceInput}
    {result : TraceRing × Bool} (hr : PushResult ring tick inputs result) :
    Ledger capacity result.1 (log.pushed ring tick inputs result.2) := by
  have hle := h.stored_le
  have hindexed := (hr.indexed h.indexed).1
  have happended := hr.appended h.indexed
  cases hr with
  | refused ha =>
    have hlog : log.pushed ring tick inputs false = log := by
      unfold RingLog.pushed
      rw [if_neg ha, Nat.add_zero, if_neg Bool.false_ne_true, List.append_nil]
    change Ledger capacity ring (log.pushed ring tick inputs false)
    rw [hlog]
    exact h
  | spent ha hn =>
    unfold RingLog.pushed
    rw [if_pos ha, if_neg Bool.false_ne_true, List.append_nil]
    refine ⟨hindexed, h.capacity, h.queue, by simp only; omega, ?_, h.emitted, ?_, h.next_lt,
      fun hx => absurd hx.symm Bool.false_ne_true, h.increasing,
      fun r hr => ⟨(h.below r hr).1, fun hx => absurd hx.symm Bool.false_ne_true⟩⟩
    · simp only [h.attempted, incrementSaturating_iterate]
    · simp only [h.dropped, incrementSaturating_iterate]
      congr 1
      omega
  | full ha hn hroom =>
    have hpos := ha.nonempty
    unfold RingLog.pushed
    rw [if_pos ha, if_neg Bool.false_ne_true, List.append_nil]
    refine ⟨hindexed, h.capacity, h.queue, by simp only; omega, ?_, h.emitted, ?_, u32_lt _,
      fun hx => ?_, h.increasing, fun r hr => ⟨(h.below r hr).1, fun hx => ?_⟩⟩
    · simp only [attemptedCounters, h.attempted, incrementSaturating_iterate]
    · simp only [h.dropped, incrementSaturating_iterate]
      congr 1
      omega
    · exact (attempted_next hn hx).trans (congrArg (· + inputs.length) (h.next hn.1))
    · exact ((h.below r hr).2 hn.1).trans_le
        ((Nat.le_add_right _ _).trans_eq (attempted_next hn hx).symm)
  | stored ht =>
    have hn := ht.numbers
    have hpos := ht.attempted.nonempty
    have hroom : ring.nextSequence + inputs.length ≤ 2 ^ 32 := hn.2
    have hlen := stamp_length tick ring.nextSequence inputs
    unfold RingLog.pushed
    rw [if_pos ht.attempted, if_pos rfl]
    refine ⟨hindexed, h.capacity, ?_, ?_, ?_, ?_, ?_, u32_lt _, fun hx => ?_, ?_, ?_⟩
    · simp only [h.queue, (happended rfl).2.2, List.append_assoc]
    · rw [List.length_append, hlen]
      simp only
      omega
    · simp only [attemptedCounters, h.attempted, incrementSaturating_iterate]
    · simp only [h.emitted, incrementSaturating_iterate, List.length_append, hlen]
    · simp only [attemptedCounters, h.dropped, List.length_append, hlen]
      congr 1
      omega
    · exact (attempted_next hn hx).trans (congrArg (· + inputs.length) (h.next hn.1))
    · -- the new numbers are consecutive and above the old ones
      rw [List.map_append, stamp_sequences hroom, List.pairwise_append]
      refine ⟨h.increasing, List.pairwise_lt_range', fun a ha b hb => ?_⟩
      obtain ⟨r, hr, rfl⟩ := List.mem_map.mp ha
      rw [List.mem_range'_1] at hb
      exact lt_of_lt_of_le ((h.below r hr).2 hn.1) hb.1
    · intro r hr
      rcases List.mem_append.mp hr with hr | hr
      · exact ⟨(h.below r hr).1, fun hx => ((h.below r hr).2 hn.1).trans_le
          ((Nat.le_add_right _ _).trans_eq (attempted_next hn hx).symm)⟩
      · have hb := mem_stamp hroom hr
        exact ⟨by omega, fun hx => hb.2.trans_eq (attempted_next hn hx).symm⟩

lemma Ledger.call (h : Ledger capacity ring log) (op : RingOp) :
    Ledger capacity (op.call ring).1 (log.add ring op) := by
  cases call_result h.indexed h.next_lt op with
  | pushed tick inputs reported hring hreply hbatch =>
    have hp := h.push (pushBatch_result h.indexed tick inputs)
    have hlog : log.add ring op =
        log.pushed ring tick inputs (osTraceRingPushBatch ring tick inputs).2 := by
      unfold RingLog.add RingLog.pushed RingOp.attempts RingOp.stores RingOp.takesOut
      rw [hreply, hbatch, List.append_nil]
      cases (osTraceRingPushBatch ring tick inputs).2 <;> rfl
    rw [hring, hlog]
    exact ⟨⟨hp.indexed.1, hp.indexed.2, hp.indexed.3, hp.indexed.4⟩, hp.capacity, hp.queue, hp.stored_le, hp.attempted, hp.emitted, hp.dropped,
      hp.next_lt, hp.next, hp.increasing, hp.below⟩
  | idle hring hattempts hstores htakes =>
    rw [hring, RingLog.add, hattempts, hstores, htakes, Nat.add_zero, List.append_nil,
      List.append_nil]
    exact h
  | popped record hcall hindexed hrecords hbatch =>
    have hlog : log.add ring op = { log with popped := log.popped ++ [record] } := by
      unfold RingLog.add RingOp.attempts RingOp.stores RingOp.takesOut
      rw [hcall, hbatch, if_neg (not_attempted_nil _), List.append_nil]
      rfl
    rw [hcall, hlog]
    refine ⟨hindexed, h.capacity, ?_, h.stored_le, h.attempted, h.emitted, h.dropped,
      h.next_lt, h.next, h.increasing, h.below⟩
    rw [h.queue, hrecords, List.append_assoc]
    rfl
  | closed final hring hreply hbatch =>
    have hlog : log.add ring op = log := by
      unfold RingLog.add RingOp.attempts RingOp.stores RingOp.takesOut
      rw [hreply, hbatch, if_neg (not_attempted_nil _), List.append_nil, List.append_nil]
      rfl
    rw [hring, hlog]
    exact ⟨⟨h.indexed.1, h.indexed.2, h.indexed.3, h.indexed.4⟩, h.capacity, h.queue, h.stored_le, h.attempted, h.emitted, h.dropped,
      h.next_lt, h.next, h.increasing, h.below⟩

theorem ledger_of_history (h : History capacity ring log) : Ledger capacity ring log := by
  induction h with
  | init h => exact ledger_init h
  | call _ op ih => exact ih.call op

/-- A call that neither stores nor takes out leaves the storage. -/
lemma Ledger.kept (h : Ledger capacity ring log) {op : RingOp} (hs : op.stores ring = [])
    (ht : op.takesOut ring = []) : SameStorage ring (op.call ring).1 := by
  cases call_result h.indexed h.next_lt op with
  | pushed tick inputs reported hring hreply hbatch =>
    have hr := pushBatch_result h.indexed tick inputs
    have hf : (osTraceRingPushBatch ring tick inputs).2 = false := by
      rw [← Bool.not_eq_true]
      intro hok
      rw [RingOp.stores, hreply, hok, hbatch] at hs
      have hpos := (hr.success_iff.mp hok).attempted.nonempty
      have hnil : stamp tick ring.nextSequence inputs = [] := hs
      rw [← stamp_length tick ring.nextSequence, hnil] at hpos
      exact absurd hpos (by decide)
    rw [hring]
    exact (hr.kept hf).1
  | idle hring =>
    rw [hring]
    exact .refl ring
  | popped record hcall => exact absurd ht (by rw [RingOp.takesOut, hcall]; simp)
  | closed final hring =>
    rw [hring]
    exact ⟨rfl, rfl, rfl, rfl, rfl⟩

/-- **The trace ring refines a bounded queue with atomic batches**, after any calls: its indices
stay in step, a push is stored exactly when the queue takes it, every call is one on the queue,
a call that neither stores nor takes out leaves the storage, and the records come out in the
order in which they went in, each of them once. -/
theorem ring_refines_fifo (h : History capacity ring log) :
    (ring.capacity = capacity ∧ ring.count ≤ capacity ∧
        ring.writeIndex = (ring.readIndex + ring.count) % capacity) ∧
      (∀ tick inputs, (osTraceRingPushBatch ring tick inputs).2 = true ↔
        (fifo ring).Takes inputs) ∧
      (∀ op : RingOp, (fifo ring).Call op (op.call ring).2 (fifo (op.call ring).1)) ∧
      (∀ op : RingOp, op.stores ring = [] → op.takesOut ring = [] →
        SameStorage ring (op.call ring).1) ∧
      log.stored = log.popped ++ ring.records := by
  have hl := ledger_of_history h
  have hi := hl.indexed
  refine ⟨⟨hl.capacity, hl.capacity ▸ hi.bounded, hl.capacity ▸ hi.write⟩, fun tick inputs => ?_,
    fun op => call_refines hi hl.next_lt op, fun op hs ht => hl.kept hs ht, hl.queue⟩
  exact (pushBatch_result hi tick inputs).success_iff

/-- A ring of two slots after a record went in and came out. -/
theorem ring_refines_fifo_pop :
    ∃ ring log, History 2 ring log ∧ log.stored = log.popped ++ ring.records :=
  have h : History 2 _ _ := .call (.call (.init rfl)
    (.push 7 ⟨TraceEvent.kernelStart.code, 0, traceTaskInvalid, traceTaskInvalid, 0, 5, 0⟩)) .pop
  ⟨_, _, h, (ring_refines_fifo h).2.2.2.2⟩

end Ledger

end Aymos.RingHistory
