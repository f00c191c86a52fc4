import Aymos.Footer
import Aymos.TraceVerdict

/-!
From the kernel to the decoder.

The ring of a run is a history of calls. When the run ends its records are framed, sent, and
decoded on the host. The decoder accepts what is sent exactly when the run emits no more records
than the ring holds and every step of it is decodable, and then it lists what the run has emitted.
-/

namespace Aymos.Pipeline

open Words Scheduler Trace WordMem Kernel Machine Handlers Control Boot EmissionLog Safety Startup
  Scenario RingHistory Wire Decoder RoundTrip Footer Validate Acceptance Snapshot Lifecycle
  RecordRange TraceVerdict

/-! ### The bytes of a ring -/

section Bytes

variable {ring : TraceRing} {final : TraceFinal} {records : List TraceRecord}

/-- The frames of records. -/
def recordFrames (records : List TraceRecord) : List UInt8 :=
  records.flatMap fun r => frame frameRecord (encodeRecord r)

/-- **The loop sends the records**, oldest first. -/
lemma sendRecords_eq {turns : ℕ} (hi : Indexed ring) (hturns : ring.count < turns) :
    ∃ ring', sendRecords turns ring = some (ring', recordFrames ring.records) := by
  induction turns generalizing ring with
  | zero => exact absurd hturns (Nat.not_lt_zero _)
  | succ turns ih =>
    rw [sendRecords]
    by_cases h0 : ring.count = 0
    · have hnil : ring.records = [] := by
        rw [← List.length_eq_zero_iff, records_length, h0]
      rw [pop_empty h0, hnil]
      exact ⟨ring, rfl⟩
    · obtain ⟨r, hpop, hdrop, hrecords⟩ := pop_record hi h0
      have hless : (dropOldest ring).count < turns := by
        simp only [dropOldest]
        omega
      obtain ⟨ring', hsend⟩ := ih hdrop hless
      rw [hpop, hrecords]
      simp only [sendFrame_record, hsend]
      exact ⟨ring', rfl⟩

/-- The totals that are reported when a ring is closed. -/
def finalOf (ring : TraceRing) (tick : ℕ) : TraceFinal :=
  { attempted := ring.attempted
    emitted := ring.emitted
    dropped := ring.dropped
    finalSequence :=
      if ring.attempted = 0 then uint32Max
      else if ring.sequenceExhausted then uint32Max
      else u32 (ring.nextSequence + uint32Max)
    flags := if ring.sequenceExhausted then 1 else 0
    finalTick := tick }

/-- **What `os_trace_finish` sends**: a frame for each record, and the footer. -/
theorem osTraceFinish_eq (hi : Indexed ring) (ho : ring.enabled = true) (tick : ℕ) :
    osTraceFinish true ring tick = some (recordFrames ring.records ++
      frame frameFooter (encodeFooter (finalOf ring tick))) := by
  have hclose : osTraceRingClose ring tick =
      ({ ring with enabled := false }, some (finalOf ring tick)) := by
    rw [osTraceRingClose, ho]
    rfl
  obtain ⟨ring', hsend⟩ := @sendRecords_eq { ring with enabled := false } (ring.count + 1)
    ⟨hi.positive, hi.bounded, hi.read, hi.write⟩ (Nat.lt_succ_self _)
  rw [osTraceFinish, hclose]
  simp only [Bool.not_true, Bool.false_eq_true, if_false, hsend, sendFrame_footer]
  rfl

/-- The bytes between the lines of the application. -/
lemma framesOf_eq (records : List TraceRecord) (final : TraceFinal) :
    preamble ++ (recordFrames records ++ frame frameFooter (encodeFooter final)) ++ trailer =
      preamble ++ framesOf records final := by
  simp only [framesOf, recordFrames, List.append_assoc]

end Bytes

/-! ### What the decoder reads -/

section Decode

variable {records : List TraceRecord} {final : TraceFinal} {data : List UInt8}

/-- **A stream that lost nothing decodes**, up to the validators. -/
lemma decodeStream_framesOf (hn : records.length ≤ traceCapacity)
    (hrecords : ∀ r ∈ records, Sendable r)
    (hseq : records.map TraceRecord.sequence = List.range' 0 records.length)
    (hticks : (records.map TraceRecord.tick).Pairwise (· ≤ ·)) (hfinal : ZeroLoss records final) :
    decodeStream (preamble ++ framesOf records final) =
      .ok ⟨final, records.map decoded, records.flatMap encodeRecord⟩ := by
  have hcap : traceCapacity = 256 := rfl
  have hp : preamble.length = 26 := rfl
  have hlen : (preamble ++ framesOf records final).length = 48 * records.length + 88 := by
    rw [List.length_append, framesOf_length, hp]
    omega
  have hmore : records.length < maxFrames := by
    rw [maxFrames]
    omega
  have hdrop : (preamble ++ framesOf records final).drop preamble.length =
    framesOf records final := List.drop_left
  obtain ⟨s, hs, hf, hrec, hraw, hend⟩ := takeFrames_framesOf
    (s := ⟨preamble.length, [], none, 0, 0, 0, 0, []⟩) (hfinal.typed (hn.trans (by decide))) hmore
    hdrop rfl hrecords hseq hticks (fun hne => absurd rfl hne)
  have hprefix : preamble.isPrefixOf (preamble ++ framesOf records final) = true := by
    rw [List.isPrefixOf_iff_prefix]
    exact List.prefix_append _ _
  have hcheck := checkFooter_zeroLoss hfinal s.footerEnd s.frameIndex
  have hstop : checkEnd (preamble ++ framesOf records final) true s = .ok () := by
    rw [checkEnd, if_pos rfl, if_neg (not_not.mpr hend)]
  rw [decodeStream, if_neg (by rw [hlen, maxInputBytes]; omega), if_pos hprefix, decodeFrom, hs]
  dsimp only [bind, Except.bind]
  simp only [hf, hrec, hraw, List.nil_append, hcheck, hstop]

/-- A frame of a record is refused, or it leads to the next frame. -/
lemma takeFrame_record {s s' : DecodeState} {r : TraceRecord} {rest : List UInt8}
    (hdata : data.drop s.offset = frame frameRecord (encodeRecord r) ++ rest)
    (hfooter : s.footer = none) (h : takeFrame data s = .ok s') :
    s'.footer = none ∧ data.drop s'.offset = rest := by
  rw [takeFrame_frame hdata (.inl ⟨rfl, rfl⟩), if_neg (by decide), takeRecord, hfooter] at h
  simp only [Option.isSome_none, Bool.false_eq_true, if_false] at h
  split at h
  · cases h
  split at h
  · cases h
  iterate 4
    split at h
    · cases h
  obtain rfl := Except.ok.inj h
  refine ⟨rfl, ?_⟩
  rw [← List.drop_drop, hdata, List.drop_left]

/-- **No stream is decoded past its footer**: what is accepted reports the totals sent. -/
lemma takeFrames_footer (hfinal : TypedFinal final) {s s' : DecodeState} {more : ℕ}
    (hmore : records.length < more) (hdata : data.drop s.offset = framesOf records final)
    (hfooter : s.footer = none) (h : takeFrames data true more s = .ok s') :
    s'.footer = some final := by
  induction records generalizing s more with
  | nil =>
    obtain ⟨more, rfl⟩ := Nat.exists_eq_succ_of_ne_zero (Nat.ne_zero_of_lt hmore)
    have hleft : data.drop s.offset = frame frameFooter (encodeFooter final) ++ trailer := hdata
    rw [takeFrames_frame hleft, takeFrame_frame hleft (.inr ⟨rfl, rfl⟩), if_pos rfl, takeFooter,
      hfooter, if_neg (by simp), unpackFooter_encode hfinal] at h
    simp only [Option.isSome_some, if_true] at h
    obtain rfl := Except.ok.inj h
    rfl
  | cons r records ih =>
    have hleft : data.drop s.offset =
        frame frameRecord (encodeRecord r) ++ framesOf records final := by
      rw [hdata, framesOf, List.flatMap_cons, List.append_assoc]
      rfl
    obtain ⟨more, rfl⟩ := Nat.exists_eq_succ_of_ne_zero (Nat.ne_zero_of_lt hmore)
    rw [takeFrames_frame hleft] at h
    cases hstep : takeFrame data s with
    | error e =>
      rw [hstep] at h
      cases h
    | ok s₁ =>
      obtain ⟨hnone, hnext⟩ := takeFrame_record hleft hfooter hstep
      simp only [hstep, hnone, Option.isSome_none, Bool.false_eq_true, if_false] at h
      exact ih (Nat.lt_of_succ_lt_succ hmore) hnext hnone h

/-- A stream that decodes is that of a run that lost nothing. -/
lemma decodeStream_final {trace : DecodedTrace} (hfinal : TypedFinal final)
    (hn : records.length ≤ traceCapacity)
    (h : decodeStream (preamble ++ framesOf records final) = .ok trace) : final.dropped = 0 := by
  have hdrop := decodeStream_footer h
  have hcap : traceCapacity = 256 := rfl
  have hmore : records.length < maxFrames := by
    rw [maxFrames]
    omega
  have hprefix : preamble.isPrefixOf (preamble ++ framesOf records final) = true := by
    rw [List.isPrefixOf_iff_prefix]
    exact List.prefix_append _ _
  rw [decodeStream, if_pos hprefix] at h
  split at h
  · cases h
  · obtain ⟨s, hs, hf, -⟩ := decodeFrom_ok h
    have hfinal' := takeFrames_footer hfinal hmore List.drop_left rfl hs
    obtain rfl : trace.footer = final := Option.some.inj (hf.symm.trans hfinal')
    exact hdrop

/-- **What the validators add.** -/
lemma decode_ok_iff {trace : DecodedTrace} : decode data = .ok trace ↔
    decodeStream data = .ok trace ∧ Checked trace.records ∧
      ∀ r ∈ trace.records, r.event ≠ .overflow := by
  rw [decode]
  cases hs : decodeStream data with
  | error e => exact ⟨fun h => (nomatch h), fun h => (nomatch h.1)⟩
  | ok t =>
    have hvalid := validators_ok_iff t.records
    have hover : (t.records.any fun r => r.event == .overflow) = false ↔
        ∀ r ∈ t.records, r.event ≠ .overflow := by simp
    dsimp only [bind, Except.bind]
    constructor
    · intro h
      cases h1 : validateSelectionSnapshots t.records with
      | error e => simp [h1] at h
      | ok u1 =>
        cases h2 : validateEventRoles t.records with
        | error e => simp [h1, h2] at h
        | ok u2 =>
          cases h3 : validateEventPayloads t.records with
          | error e => simp [h1, h2, h3] at h
          | ok u3 =>
            cases h4 : t.records.any fun r => r.event == .overflow with
            | true => simp [h1, h2, h3, h4] at h
            | false =>
              simp only [h1, h2, h3, h4, Bool.false_eq_true, if_false] at h
              obtain rfl := Except.ok.inj h
              exact ⟨rfl, ⟨h1, hvalid.mp ⟨h2, h3⟩⟩, hover.mp h4⟩
    · rintro ⟨heq, ⟨h1, hacc⟩, hno⟩
      obtain rfl := Except.ok.inj heq
      obtain ⟨h2, h3⟩ := hvalid.mpr hacc
      simp only [h1, h2, h3, hover.mpr hno, Bool.false_eq_true, if_false]

end Decode

/-! ### The ring of a run -/

section Run

variable {img : Image} {P : KernelState → Label → Prop} {labels : List Label} {k k' : KernelState}
  {l : Label} {log : Log} {bs bs' : List (List TraceInput)}

lemma history_emitAll {ring : TraceRing} {calls : RingLog} (h : History traceCapacity ring calls)
    (tick : ℕ) (bs : List (List TraceInput)) :
    ∃ calls', History traceCapacity (emitAll ring tick bs) calls' := by
  induction bs generalizing ring calls with
  | nil => exact ⟨calls, h⟩
  | cons b bs ih =>
    have hreport := History.call h (.reportOverflow tick)
    exact ih (History.call hreport (.pushBatch tick b))

/-- **The kernel only calls its ring.** -/
lemma history_of_logged (h : Logged img P labels k log) :
    ∃ calls, History traceCapacity k.traceRing calls := by
  induction h with
  | boot => exact ⟨_, .init rfl⟩
  | step _ _ _ he ih =>
    obtain ⟨calls, hcalls⟩ := ih
    rw [show _ = _ from he.ring]
    exact history_emitAll hcalls _ _

/-- The footer of a run fits its fields. -/
lemma finalOf_typed (h : Logged img Lively labels k log) :
    TypedFinal (finalOf k.traceRing k.monotonicTicks) := by
  obtain ⟨calls, hcalls⟩ := history_of_logged h
  have hledger := ledger_of_history hcalls
  have hmin : ∀ n, min n uint32Max < 2 ^ 32 := fun n => by
    unfold uint32Max
    omega
  have hclock := clock_lt h.reaches
  refine ⟨?_, ?_, ?_, ?_, ?_, ?_⟩
  · exact hledger.attempted.trans_lt (hmin _)
  · exact hledger.emitted.trans_lt (hmin _)
  · exact hledger.dropped.trans_lt (hmin _)
  · simp only [finalOf]
    split_ifs
    · decide
    · decide
    · exact u32_lt _
  · simp only [finalOf]
    split <;> decide
  · simp only [finalOf]
    omega

/-- A run that lost nothing emits no more than the ring holds. -/
lemma fits_of_lossless (h : Logged img P labels k log) (h0 : k.traceRing.dropped = 0) :
    log.length ≤ traceCapacity := by
  have hrec := h.recorded
  have hlen := congrArg List.length (hrec.lossless h0).2.2.2
  rw [stampLog_length, records_length] at hlen
  exact hlen ▸ hrec.capacity ▸ hrec.indexed.bounded

/-- **The footer of a run that lost nothing.** -/
lemma zeroLoss_of_fits (h : Logged img Lively labels k log) (hfits : log.length ≤ traceCapacity) :
    ZeroLoss k.traceRing.records (finalOf k.traceRing k.monotonicTicks) := by
  have h0 := h.lossless hfits
  have hrec := h.recorded
  obtain ⟨-, hspent, hnext, hold⟩ := hrec.lossless h0
  obtain ⟨calls, hcalls⟩ := history_of_logged h
  obtain ⟨hattempted, hsum⟩ := counters_exact (ledger_of_history hcalls) hspent
  have hlen : k.traceRing.records.length = log.length := by rw [hold, stampLog_length]
  have hclock := clock_lt h.reaches
  have hcap : traceCapacity = 256 := rfl
  refine ⟨?_, ?_, h0, ?_, ?_, hclock.trans (by decide), fun last hlast => ?_⟩
  · simp only [finalOf]
    omega
  · simp only [finalOf]
    omega
  · simp only [finalOf, hspent, Bool.false_eq_true, if_false, hlen, ← hattempted, hnext]
    split
    · rfl
    · unfold u32 uint32Max
      omega
  · simp only [finalOf, hspent, Bool.false_eq_true, if_false]
  · exact hrec.past last (List.mem_of_getLast? hlast)

/-! ### The records of a step -/

/-- The ring knows what a step has emitted. -/
lemma stamp_unique (h : Logged img P labels k log) (hp : P k l) (hs : Step img k l k')
    (he : Emitted k l k' bs) (he' : Emitted k l k' bs') (h0 : k'.traceRing.dropped = 0) :
    stamp k'.monotonicTicks log.length bs.flatten =
      stamp k'.monotonicTicks log.length bs'.flatten := by
  have hone := ((h.step hp hs he).recorded.lossless h0).2.2.2
  have htwo := ((h.step hp hs he').recorded.lossless h0).2.2.2
  rw [hone, stampLog_append, stampLog_append, entries, entries, stampLog_map, stampLog_map,
    Nat.zero_add] at htwo
  exact List.append_cancel_left htwo

/-- A record that fits its fields passes the checks of one record. -/
lemma sendable_record {tick : ℕ} {input : TraceInput} (ht : tick < 2 ^ 64) (h : Sized input)
    (hv : InputValid input) (s : ℕ) : Sendable (recordOf tick (u32 s) input) := by
  obtain ⟨hevent, hflags⟩ := hv
  have hnamed : ∀ {task : ℕ}, Named task →
      task < 2 ^ 16 ∧ (task ≤ maxTaskId ∨ task = invalidTaskId) := by
    intro task hn
    rcases hn with hlt | rfl
    · have hle : task ≤ maxTaskId := Nat.le_of_lt_succ hlt
      exact ⟨hle.trans_lt (by decide), Or.inl hle⟩
    · exact ⟨by decide, Or.inr rfl⟩
  have hcode : input.event % 2 ^ 8 = input.event := by
    obtain ⟨event, -, hcode⟩ := eventOfCode_valid hevent
    rw [← hcode]
    cases event <;> rfl
  refine ⟨⟨ht, u32_lt _, (by decide : traceSchemaVersion < 2 ^ 16), Nat.mod_lt _ (by decide), ?_, (hnamed h.task).1,
    (hnamed h.related).1, h.value0, h.value1, h.value2⟩, rfl, ?_, hflags, (hnamed h.task).2,
    (hnamed h.related).2⟩
  · exact hflags.trans_lt (by decide)
  · change osTraceEventValid (input.event % 2 ^ 8) = true
    rwa [hcode]

lemma sendable_stamp {tick : ℕ} {inputs : List TraceInput} (ht : tick < 2 ^ 64)
    (h : ∀ input ∈ inputs, Sized input ∧ InputValid input) (s : ℕ) :
    ∀ r ∈ stamp tick s inputs, Sendable r := by
  induction inputs generalizing s with
  | nil => exact fun r hr => absurd hr List.not_mem_nil
  | cons input inputs ih =>
    intro r hr
    rcases List.mem_cons.mp hr with rfl | hr
    · obtain ⟨hsized, hvalid⟩ := h input List.mem_cons_self
      exact sendable_record ht hsized hvalid s
    · exact ih (fun i hi => h i (List.mem_cons_of_mem _ hi)) (s + 1) r hr

/-- The entries that the decoder makes of a log. -/
def decodedLog (log : Log) : List DecodedRecord := (stampLog 0 log).map decoded

lemma decodedLog_append (log : Log) (tick : ℕ) (bs : List (List TraceInput)) :
    decodedLog (log ++ entries tick bs) =
      decodedLog log ++ decodedBatch tick log.length bs.flatten := by
  rw [decodedLog, stampLog_append, Nat.zero_add, entries, stampLog_map, List.map_append]
  rfl

/-- **One more step of a run that fits the ring.** -/
lemma step_verdict (h : Logged img Lively labels k log) (hp : Lively k l) (hs : Step img k l k')
    (he : Emitted k l k' bs)
    (hfits : (log ++ entries k'.monotonicTicks bs).length ≤ traceCapacity) :
    Framed (decodedBatch k'.monotonicTicks log.length bs.flatten) ∧
      (Checked (decodedBatch k'.monotonicTicks log.length bs.flatten) ↔ Decodable img k l) ∧
      ∀ r ∈ stamp k'.monotonicTicks log.length bs.flatten, Sendable r := by
  obtain ⟨bs₀, he₀, hsized, hjudged⟩ := step_judged h.reaches hp hs
  have hstep := h.step hp hs he
  have hsame := stamp_unique h hp hs he he₀ (hstep.lossless hfits)
  have hclock := clock_lt hstep.reaches
  have hdecoded : decodedBatch k'.monotonicTicks log.length bs.flatten =
      decodedBatch k'.monotonicTicks log.length bs₀.flatten := congrArg (List.map decoded) hsame
  rw [hdecoded, hsame]
  refine ⟨hjudged.framed _, hjudged.checked _, sendable_stamp (by omega) (fun input hin => ?_) _⟩
  obtain ⟨b, hb, hi⟩ := List.mem_flatten.mp hin
  exact ⟨hsized input hin, (ctlStep_formed he₀.control b hb).valid input hi⟩

/-! ### The trace of a run -/

/-- A step of a lively run that is decodable. -/
def LivelyDecodable (img : Image) (k : KernelState) (l : Label) : Prop :=
  Lively k l ∧ Decodable img k l

lemma fits_before {t : ℕ} (hfits : (log ++ entries t bs).length ≤ traceCapacity) :
    log.length ≤ traceCapacity :=
  (List.length_append ▸ Nat.le_add_right _ _).trans hfits

/-- The records of a run that fits the ring can be sent, and the validators go on after them. -/
lemma log_framed (h : Logged img Lively labels k log) (hfits : log.length ≤ traceCapacity) :
    Framed (decodedLog log) ∧ ∀ r ∈ stampLog 0 log, Sendable r := by
  induction h with
  | boot => exact ⟨framed_nil, fun r hr => absurd hr List.not_mem_nil⟩
  | @step labels log k k' l bs hr hp hs he ih =>
    obtain ⟨hframed, hsend⟩ := ih (fits_before hfits)
    obtain ⟨hframed', -, hsend'⟩ := step_verdict hr hp hs he hfits
    constructor
    · rw [decodedLog_append]
      exact hframed.append hframed'
    · intro r hr
      rw [stampLog_append, Nat.zero_add, entries, stampLog_map] at hr
      exact (List.mem_append.mp hr).elim (hsend r) (hsend' r)

/-- **Decodable steps make an accepted trace.** -/
theorem checked_of_decodable (h : Logged img (LivelyDecodable img) labels k log)
    (hfits : log.length ≤ traceCapacity) : Checked (decodedLog log) := by
  induction h with
  | boot => exact checked_nil
  | @step labels log k k' l bs hr hp hs he ih =>
    have hlively := hr.mono fun _ _ _ hd => hd.1
    have hold := fits_before hfits
    obtain ⟨-, hchecked, -⟩ := step_verdict hlively hp.1 hs he hfits
    rw [decodedLog_append, (log_framed hlively hold).1.checked_append]
    exact ⟨ih hold, hchecked.mpr hp.2⟩

/-- **An accepted trace has been made by decodable steps.** -/
theorem decodable_of_checked (h : Logged img Lively labels k log)
    (hfits : log.length ≤ traceCapacity) (hc : Checked (decodedLog log)) :
    Logged img (LivelyDecodable img) labels k log := by
  induction h with
  | boot hpc => exact .boot hpc
  | @step labels log k k' l bs hr hp hs he ih =>
    have hold := fits_before hfits
    obtain ⟨-, hchecked, -⟩ := step_verdict hr hp hs he hfits
    rw [decodedLog_append, (log_framed hr hold).1.checked_append] at hc
    exact (ih hold hc.1).step ⟨hp, hchecked.mp hc.2⟩ hs he

lemma stampLog_sequences {s : ℕ} (h : s + log.length ≤ 2 ^ 32) :
    (stampLog s log).map TraceRecord.sequence = List.range' s log.length := by
  induction log generalizing s with
  | nil => rfl
  | cons e log ih =>
    have hl : (e :: log).length = log.length + 1 := rfl
    rw [hl] at h
    have hs : u32 s = s := Nat.mod_eq_of_lt (by omega)
    rw [stampLog, List.map_cons, ih (by omega), hl, List.range'_succ]
    simp [recordOf, hs]

lemma mem_stampLog {s : ℕ} {r : TraceRecord} (h : r ∈ stampLog s log) : FromLog log r := by
  induction log generalizing s with
  | nil => cases h
  | cons e log ih =>
    rcases List.mem_cons.mp h with rfl | h
    · exact ⟨e, List.mem_cons_self, _, rfl⟩
    · obtain ⟨e', he, hr⟩ := ih h
      exact ⟨e', List.mem_cons_of_mem _ he, hr⟩

/-- No step reports a loss of its own. -/
lemma Logged.no_overflow (h : Logged img P labels k log) :
    ∀ e ∈ log, e.2.event ≠ TraceEvent.overflow.code := by
  induction h with
  | boot => exact fun e he => absurd he List.not_mem_nil
  | @step labels log k k' l bs _ _ _ hem ih =>
    intro e he
    rcases List.mem_append.mp he with he | he
    · exact ih e he
    · obtain ⟨input, hi, rfl⟩ := List.mem_map.mp he
      obtain ⟨b, hb, hi⟩ := List.mem_flatten.mp hi
      intro hevent
      have hnot : TraceEvent.overflow ∉ emits l := by cases l <;> simp [emits]
      rcases site_emits (site_of_mem hem.control b hb) hi hevent with hin | hin | hin
      · exact hnot hin
      · cases hin
      · cases hin

lemma decodedLog_no_overflow (h : Logged img P labels k log)
    (hsend : ∀ r ∈ stampLog 0 log, Sendable r) : ∀ d ∈ decodedLog log, d.event ≠ .overflow := by
  intro d hd hevent
  obtain ⟨r, hr, rfl⟩ := List.mem_map.mp hd
  have hcode := (hsend r hr).recovers.event
  obtain ⟨e, he, s, rfl⟩ := mem_stampLog hr
  refine Logged.no_overflow h e he ?_
  obtain ⟨event, -, hvalid⟩ := eventOfCode_valid (h.valid e he).1
  have hsmall : event.code % 2 ^ 8 = event.code := by cases event <;> rfl
  rw [hevent, recordOf, ← hvalid, hsmall] at hcode
  rw [← hvalid, hcode]

/-- What the host receives of a run. -/
def received (k : KernelState) : List UInt8 :=
  preamble ++ framesOf k.traceRing.records (finalOf k.traceRing k.monotonicTicks)

lemma ring_length_le (h : Logged img P labels k log) :
    k.traceRing.records.length ≤ traceCapacity := by
  have hrec := h.recorded
  rw [records_length]
  exact hrec.capacity ▸ hrec.indexed.bounded

/-- **What a run that fits the ring decodes to**, if the validators accept its records. -/
lemma decode_fits (h : Logged img Lively labels k log) (hfits : log.length ≤ traceCapacity)
    {trace : DecodedTrace} : decode (received k) = .ok trace ↔
      trace = ⟨finalOf k.traceRing k.monotonicTicks, decodedLog log,
        (stampLog 0 log).flatMap encodeRecord⟩ ∧ Checked (decodedLog log) := by
  obtain ⟨-, hsend⟩ := log_framed h hfits
  have hrec := h.recorded
  have hold : k.traceRing.records = stampLog 0 log := (hrec.lossless (h.lossless hfits)).2.2.2
  have hcap : traceCapacity = 256 := rfl
  have hstream : decodeStream (received k) = .ok ⟨finalOf k.traceRing k.monotonicTicks,
      k.traceRing.records.map decoded, k.traceRing.records.flatMap encodeRecord⟩ := by
    refine decodeStream_framesOf (ring_length_le h) (hold ▸ hsend) ?_ ?_ (zeroLoss_of_fits h hfits)
    · rw [hold, stampLog_length]
      exact stampLog_sequences (by omega)
    · exact List.pairwise_map.mpr hrec.sorted
  rw [hold] at hstream
  rw [decode_ok_iff, hstream, Except.ok.injEq]
  constructor
  · rintro ⟨rfl, hchecked, -⟩
    exact ⟨rfl, hchecked⟩
  · rintro ⟨rfl, hchecked⟩
    exact ⟨rfl, hchecked, decodedLog_no_overflow h hsend⟩

/-- The footer of a run that does not fit the ring says so. -/
lemma decode_lost (h : Logged img Lively labels k log) {trace : DecodedTrace}
    (ht : decode (received k) = .ok trace) : log.length ≤ traceCapacity :=
  fits_of_lossless h (decodeStream_final (finalOf_typed h) (ring_length_le h) (decode_ok_iff.mp ht).1)

/-- **The whole way of a trace.** Whatever the run, `os_trace_finish` has bytes to send. The
decoder accepts them between the lines of the application exactly when the run has emitted no more
than 256 records and each of its steps is decodable, and what it lists are then the records that the
run has emitted, in order, none of them missing. -/
theorem trace_decodes_iff (h : Logged img Lively labels k log) :
    ∃ bytes, osTraceFinish true k.traceRing k.monotonicTicks = some bytes ∧
      ((∃ trace, decode (preamble ++ bytes ++ trailer) = .ok trace) ↔
        log.length ≤ traceCapacity ∧ Logged img (LivelyDecodable img) labels k log) ∧
      ∀ trace, decode (preamble ++ bytes ++ trailer) = .ok trace →
        List.Forall₂ Recovers trace.records (stampLog 0 log) ∧
          trace.footer.attempted = log.length ∧ trace.footer.dropped = 0 := by
  have hrec := h.recorded
  refine ⟨_, osTraceFinish_eq hrec.indexed hrec.enabled _, ?_⟩
  rw [framesOf_eq, ← received]
  refine ⟨⟨fun ⟨trace, ht⟩ => ?_, fun ⟨hfits, hd⟩ => ?_⟩, fun trace ht => ?_⟩
  · have hfits := decode_lost h ht
    exact ⟨hfits, decodable_of_checked h hfits ((decode_fits h hfits).mp ht).2⟩
  · exact ⟨_, (decode_fits h hfits).mpr ⟨rfl, checked_of_decodable hd hfits⟩⟩
  · have hfits := decode_lost h ht
    obtain ⟨rfl, -⟩ := (decode_fits h hfits).mp ht
    have hzero := zeroLoss_of_fits h hfits
    obtain ⟨-, hsend⟩ := log_framed h hfits
    refine ⟨?_, ?_, hzero.dropped⟩
    · rw [decodedLog, List.forall₂_map_left_iff]
      exact List.forall₂_same.mpr fun r hr => (hsend r hr).recovers
    · rw [hzero.attempted, (hrec.lossless (h.lossless hfits)).2.2.2, stampLog_length]

/-- A run with one task, up to its first instruction. -/
theorem trace_decodes_iff_solo : ∃ labels k log bytes, Logged sampleImage Lively labels k log ∧
    log ≠ [] ∧ osTraceFinish true k.traceRing k.monotonicTicks = some bytes ∧
      ((∃ trace, decode (preamble ++ bytes ++ trailer) = .ok trace) ↔
        log.length ≤ traceCapacity ∧
          Logged sampleImage (LivelyDecodable sampleImage) labels k log) := by
  obtain ⟨labels, k, hr, -⟩ := stage_launched (oneShot 0 100) (by decide) (by decide)
  have hlively := lively_of_disciplined hr
  obtain ⟨bytes, hbytes, hiff, -⟩ := trace_decodes_iff hlively
  exact ⟨labels, k, _, bytes, hlively, by simp [launchBatches, entries], hbytes, hiff⟩

end Run

end Aymos.Pipeline
