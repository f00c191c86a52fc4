import Aymos.RingHistory
import Aymos.RoundTrip

/-!
What the footer says about a history of the ring, and what the decoder makes of it.
-/

namespace Aymos.Footer

open Words Trace Wire Decoder RingHistory RoundTrip

/-- A footer that is accepted reports no loss. -/
lemma checkFooter_dropped {footer : TraceFinal} {records : List DecodedRecord}
    {footerEnd frameIndex : ℕ} (h : checkFooter footer records footerEnd frameIndex = .ok ()) :
    footer.dropped = 0 := by
  by_contra hd
  unfold checkFooter at h
  dsimp only at h
  generalize (if footer.attempted = 0 then 0xFFFFFFFF else footer.attempted - 1) = expected at h
  rw [if_pos hd] at h
  split at h
  · cases h
  split at h
  · cases h
  split at h
  · cases h
  split at h <;> cases h

lemma decodeFrom_footer {data : List UInt8} {offset : ℕ} {requireTrailer : Bool}
    {trace : DecodedTrace} (h : decodeFrom data offset requireTrailer = .ok trace) :
    trace.footer.dropped = 0 := by
  obtain ⟨s, -, -, -, -, hc, -⟩ := decodeFrom_ok h
  exact checkFooter_dropped hc

/-- **A stream that decodes lost nothing.** -/
theorem decodeStream_footer {data : List UInt8} {trace : DecodedTrace}
    (h : decodeStream data = .ok trace) : trace.footer.dropped = 0 := by
  unfold decodeStream at h
  split at h
  · cases h
  split at h
  · exact decodeFrom_footer h
  split at h
  · exact decodeFrom_footer h
  · cases h

variable {capacity : ℕ} {ring : TraceRing} {log : RingLog}

/-- The totals that are reported when the ring is closed. -/
lemma close_final {tick : ℕ} {ring' : TraceRing} {final : TraceFinal}
    (h : osTraceRingClose ring tick = (ring', some final)) :
    final.attempted = ring.attempted ∧ final.emitted = ring.emitted ∧
      final.dropped = ring.dropped ∧ final.flags = (if ring.sequenceExhausted then 1 else 0) ∧
      final.finalSequence = if ring.attempted = 0 then uint32Max
        else if ring.sequenceExhausted then uint32Max else u32 (ring.nextSequence + uint32Max) := by
  unfold osTraceRingClose at h
  split at h
  · cases h
  · cases h
    exact ⟨rfl, rfl, rfl, rfl, rfl⟩

/-- An open ring is closed with a report. -/
lemma close_open (h : ring.enabled = true) (tick : ℕ) :
    ∃ final, osTraceRingClose ring tick = ({ ring with enabled := false }, some final) ∧
      final.finalTick = tick := by
  unfold osTraceRingClose
  rw [h]
  exact ⟨_, rfl, rfl⟩

/-- While there are sequence numbers left the counters are exact. -/
lemma counters_exact (h : Ledger capacity ring log) (hx : ring.sequenceExhausted = false) :
    ring.nextSequence = ring.attempted ∧ ring.attempted = ring.emitted + ring.dropped := by
  have hn := h.next hx
  have hlt := h.next_lt
  have hle := h.stored_le
  rw [h.attempted, h.emitted, h.dropped]
  unfold uint32Max
  omega

/-- **The footer tells the truth about loss**, after any calls. The records stored have strictly
increasing sequence numbers. The counters are the totals of the log, as far as 32 bits hold them,
and are exact while there are numbers left. An open ring reports them when it is closed. The footer
then ends with the last number given out, and if a record was lost it says so, so that no stream
with that footer decodes. -/
theorem footer_truthful (h : History capacity ring log) :
    (log.stored.map TraceRecord.sequence).Pairwise (· < ·) ∧
      ring.attempted = min log.attempts uint32Max ∧
      ring.emitted = min log.stored.length uint32Max ∧
      ring.dropped = min (log.attempts - log.stored.length) uint32Max ∧
      (ring.sequenceExhausted = false →
        ring.nextSequence = ring.attempted ∧ ring.attempted = ring.emitted + ring.dropped) ∧
      (ring.enabled = true → ∀ tick, ∃ final,
        osTraceRingClose ring tick = ({ ring with enabled := false }, some final) ∧
          final.finalTick = tick) ∧
      ∀ tick ring' final, osTraceRingClose ring tick = (ring', some final) →
        (final.attempted = ring.attempted ∧ final.emitted = ring.emitted ∧
          final.dropped = ring.dropped) ∧
        (ring.sequenceExhausted = false → final.flags = 0 ∧
          final.finalSequence =
            if ring.attempted = 0 then uint32Max else ring.attempted - 1) ∧
        (log.stored.length < log.attempts → 0 < final.dropped ∧
          ∀ data trace, decodeStream data = .ok trace → trace.footer ≠ final) := by
  have hl := ledger_of_history h
  refine ⟨hl.increasing, hl.attempted, hl.emitted, hl.dropped, counters_exact hl,
    fun hopen tick => close_open hopen tick, fun tick ring' final hclose => ?_⟩
  obtain ⟨ha, he, hd, hflags, hseq⟩ := close_final hclose
  refine ⟨⟨ha, he, hd⟩, fun hx => ⟨?_, ?_⟩, fun hlost => ?_⟩
  · rw [hflags, hx]
    rfl
  · have hn := (counters_exact hl hx).1
    have hlt := hl.next_lt
    rw [hseq, hx, if_neg Bool.false_ne_true]
    split
    · rfl
    · unfold u32 uint32Max
      omega
  · have hpos : 0 < final.dropped := by
      rw [hd, hl.dropped]
      unfold uint32Max
      omega
    refine ⟨hpos, fun data trace hdata htrace => ?_⟩
    have hz := decodeStream_footer hdata
    rw [htrace] at hz
    omega

/-- A ring of one slot that lost a record, and the footer it is closed with. -/
theorem footer_truthful_lost :
    ∃ ring log final, History 1 ring log ∧ log.stored.length < log.attempts ∧
      osTraceRingClose ring 9 = ({ ring with enabled := false }, some final) ∧
      final = ⟨2, 1, 1, 1, 0, 9⟩ ∧
      ∀ data trace, decodeStream data = .ok trace → trace.footer ≠ final := by
  have h : History 1 _ _ := .call (.call (.init rfl)
    (.push 7 ⟨TraceEvent.kernelStart.code, 0, traceTaskInvalid, traceTaskInvalid, 0, 5, 0⟩))
    (.push 8 ⟨TraceEvent.idleStart.code, 0, 0, traceTaskInvalid, 0, 0, 0⟩)
  obtain ⟨-, -, -, -, -, hopen, hclose⟩ := footer_truthful h
  obtain ⟨final, hreport, -⟩ := hopen rfl 9
  obtain ⟨-, hrefused⟩ := (hclose 9 _ _ hreport).2.2 (by decide)
  refine ⟨_, _, final, h, by decide, hreport, ?_, hrefused⟩
  exact (Option.some.inj (congrArg Prod.snd hreport)).symm

end Aymos.Footer
