import Aymos.Exceptions

/-!
Streams with a few bytes damaged.

The lengths leave a damaged stream no other framing than its own, so that its frames stand where
they stood. A window of four bytes is no longer than the checksum of a frame, which detects every
burst of that length.
-/

namespace Aymos.Damage

open Words Trace Wire Decoder RoundTrip Canonical Exceptions

/-- Strings that agree outside the four bytes from `start` on. -/
def AgreeOutside (start : ℕ) (xs ys : List UInt8) : Prop :=
  ∀ i, i < start ∨ start + 4 ≤ i → xs[i]? = ys[i]?

/-! ### Strings that agree outside a window -/

section Agree

variable {start : ℕ} {xs xs' ys ys' : List UInt8}

lemma AgreeOutside.left (h : AgreeOutside start (xs ++ ys) (xs' ++ ys'))
    (hlen : xs.length = xs'.length) : AgreeOutside start xs xs' := by
  intro i hi
  by_cases hlt : i < xs.length
  · rw [← List.getElem?_append_left hlt, h i hi, List.getElem?_append_left (by omega)]
  · rw [List.getElem?_eq_none (by omega), List.getElem?_eq_none (by omega)]

lemma AgreeOutside.right (h : AgreeOutside start (xs ++ ys) (xs' ++ ys'))
    (hlen : xs.length = xs'.length) : AgreeOutside (start - xs.length) ys ys' := by
  intro i hi
  have hwindow := h (xs.length + i) (by omega)
  rwa [List.getElem?_append_right (by omega), List.getElem?_append_right (by omega), ← hlen,
    Nat.add_sub_cancel_left] at hwindow

lemma AgreeOutside.take_eq (h : AgreeOutside start xs xs') : xs.take start = xs'.take start := by
  apply List.ext_getElem?
  intro i
  by_cases hi : i < start
  · rw [List.getElem?_take_of_lt hi, List.getElem?_take_of_lt hi, h i (Or.inl hi)]
  · rw [List.getElem?_take_eq_none (by omega), List.getElem?_take_eq_none (by omega)]

lemma AgreeOutside.drop_eq (h : AgreeOutside start xs xs') :
    xs.drop (start + 4) = xs'.drop (start + 4) := by
  apply List.ext_getElem?
  intro i
  rw [List.getElem?_drop, List.getElem?_drop, h _ (Or.inr (by omega))]

end Agree

lemma split_window (start : ℕ) (xs : List UInt8) :
    xs = xs.take start ++ (xs.drop start).take 4 ++ xs.drop (start + 4) := by
  rw [List.append_assoc, ← List.drop_drop, List.take_append_drop, List.take_append_drop]

/-! ### Bytes and their bits -/

def byteBits (bytes : List UInt8) : List Bool := bytes.flatMap fun byte => Crc.bits byte.toBitVec

@[simp] lemma byteBits_append (xs ys : List UInt8) :
    byteBits (xs ++ ys) = byteBits xs ++ byteBits ys := List.flatMap_append

lemma byteBits_length (bytes : List UInt8) : (byteBits bytes).length = 8 * bytes.length := by
  induction bytes with
  | nil => rfl
  | cons byte bytes ih =>
    have hcons : byteBits (byte :: bytes) = Crc.bits byte.toBitVec ++ byteBits bytes := rfl
    rw [hcons, List.length_append, Crc.bits_length, ih, List.length_cons]
    omega

lemma byteBits_injective {xs ys : List UInt8} (h : byteBits xs = byteBits ys) : xs = ys := by
  have hlen : xs.length = ys.length := by
    have hbits := congrArg List.length h
    rw [byteBits_length, byteBits_length] at hbits
    omega
  induction xs generalizing ys with
  | nil => exact (List.eq_nil_of_length_eq_zero hlen.symm).symm
  | cons x xs ih =>
    cases ys with
    | nil => cases hlen
    | cons y ys =>
      have hcons (byte : UInt8) (bytes : List UInt8) :
          byteBits (byte :: bytes) = Crc.bits byte.toBitVec ++ byteBits bytes := rfl
      rw [hcons, hcons] at h
      obtain ⟨hx, hxs⟩ := List.append_inj h (by rw [Crc.bits_length, Crc.bits_length])
      have hbyte : x = y := by
        apply UInt8.toBitVec_inj.mp
        apply BitVec.eq_of_getLsbD_eq
        intro i hi
        exact List.map_inj_left.mp hx i (List.mem_range.mpr hi)
      rw [hbyte, ih hxs (Nat.succ.inj hlen)]

lemma bits_shifted (crc : BitVec 32) (k : ℕ) :
    Crc.bits (UInt8.ofNat (crc.toNat >>> k)).toBitVec =
      (List.range' k 8).map crc.getLsbD := by
  rw [Crc.bits, List.range'_eq_map_range, List.map_map]
  apply List.map_congr_left
  intro i hi
  have hbyte : (UInt8.ofNat (crc.toNat >>> k)).toBitVec = BitVec.ofNat 8 (crc.toNat >>> k) := rfl
  rw [hbyte, BitVec.getLsbD_ofNat, Nat.testBit_shiftRight, BitVec.testBit_toNat,
    decide_eq_true (List.mem_range.mp hi), Bool.true_and]
  rfl

/-- The bytes of a checksum are its bits. -/
lemma byteBits_putU32 (crc : BitVec 32) : byteBits (putU32 crc.toNat) = Crc.bits crc := by
  have hrange : List.range 32 =
      List.range' 0 8 ++ (List.range' 8 8 ++ (List.range' 16 8 ++ (List.range' 24 8 ++ []))) := rfl
  rw [Crc.bits, hrange, List.map_append, List.map_append, List.map_append, List.map_append,
    ← bits_shifted, ← bits_shifted, ← bits_shifted, ← bits_shifted]
  rfl

/-! ### Frames -/

lemma byteBits_checked (body : List UInt8) :
    byteBits (body ++ putU32 (crc32 body).toNat) = Crc.codeword ieeePolynomial (byteBits body) := by
  rw [byteBits_append, byteBits_putU32, crc32_eq_ieee]
  rfl

/-- **Two frames** of one type and length that agree outside a window of four bytes are equal. -/
lemma frame_eq {start type : ℕ} {payload payload' : List UInt8}
    (hlen : payload.length = payload'.length)
    (h : AgreeOutside start (frame type payload) (frame type payload')) :
    frame type payload = frame type payload' := by
  unfold frame at *
  rw [List.append_assoc, List.append_assoc] at *
  have hchecked := h.right rfl
  generalize start - frameSync.length = start at hchecked
  have hbits := byteBits_checked (frameBody type payload)
  have hbits' := byteBits_checked (frameBody type payload')
  have hbody : (frameBody type payload).length = (frameBody type payload').length := by
    rw [frameBody_length, frameBody_length, hlen]
  have hsize : (frameBody type payload ++ putU32 (crc32 (frameBody type payload)).toNat).length =
      (frameBody type payload' ++ putU32 (crc32 (frameBody type payload')).toNat).length := by
    rw [List.length_append, List.length_append, hbody]
    rfl
  generalize frameBody type payload ++ putU32 (crc32 (frameBody type payload)).toNat = xs at *
  generalize frameBody type payload' ++ putU32 (crc32 (frameBody type payload')).toNat = ys at *
  have hwindow : ((xs.drop start).take 4).length = ((ys.drop start).take 4).length := by
    rw [List.length_take, List.length_take, List.length_drop, List.length_drop, hsize]
  have hburst : byteBits ((xs.drop start).take 4) = byteBits ((ys.drop start).take 4) := by
    have hx : Crc.codeword ieeePolynomial (byteBits (frameBody type payload)) =
        byteBits (xs.take start) ++ byteBits ((xs.drop start).take 4) ++
          byteBits (xs.drop (start + 4)) := by
      rw [← hbits, ← byteBits_append, ← byteBits_append, ← split_window]
    have hy : Crc.codeword ieeePolynomial (byteBits (frameBody type payload')) =
        byteBits (xs.take start) ++ byteBits ((ys.drop start).take 4) ++
          byteBits (xs.drop (start + 4)) := by
      rw [← hbits', ← byteBits_append, ← byteBits_append, hchecked.take_eq, hchecked.drop_eq,
        ← split_window]
    refine Crc.burst_detected (by decide) (by decide) ?_ hx hy ?_ ?_
    · rw [byteBits_length, byteBits_length, hbody]
    · rw [byteBits_length, byteBits_length, hwindow]
    · rw [byteBits_length, List.length_take]
      omega
  rw [split_window start xs, split_window start ys, hchecked.take_eq, hchecked.drop_eq,
    byteBits_injective hburst]

lemma recordFrame_length (d : DecodedRecord) : (recordFrame d).length = 48 := by
  rw [recordFrame, frame_length, encodeRecord_length, recordSize]

lemma recordFrames_length (records : List DecodedRecord) :
    (records.flatMap recordFrame).length = 48 * records.length := by
  induction records with
  | nil => rfl
  | cons d records ih =>
    rw [List.flatMap_cons, List.length_append, recordFrame_length, ih, List.length_cons]
    omega

lemma footerFrame_length (footer : TraceFinal) : (footerFrame footer).length = 44 := by
  rw [footerFrame, frame_length, encodeFooter_length, footerPayloadSize]

/-- The frames of as many records, when the streams that begin with them agree outside a
window. -/
lemma recordFrames_eq {start : ℕ} {records records' : List DecodedRecord} {rest rest' : List UInt8}
    (hlen : records.length = records'.length)
    (h : AgreeOutside start (records.flatMap recordFrame ++ rest)
      (records'.flatMap recordFrame ++ rest')) :
    records.flatMap recordFrame = records'.flatMap recordFrame ∧
      ∃ start', AgreeOutside start' rest rest' := by
  induction records generalizing records' start with
  | nil =>
    obtain rfl := List.eq_nil_of_length_eq_zero hlen.symm
    exact ⟨rfl, start, h⟩
  | cons d records ih =>
    cases records' with
    | nil => cases hlen
    | cons d' records' =>
      rw [List.flatMap_cons, List.flatMap_cons, List.append_assoc, List.append_assoc] at h
      have hsize : (recordFrame d).length = (recordFrame d').length := by
        rw [recordFrame_length, recordFrame_length]
      have hframe : recordFrame d = recordFrame d' := frame_eq rfl (h.left hsize)
      obtain ⟨hframes, hrest⟩ := ih (Nat.succ.inj hlen) (h.right hsize)
      refine ⟨?_, hrest⟩
      rw [List.flatMap_cons, List.flatMap_cons, hframe, hframes]

/-! ### Streams -/

lemma encodeTrace_length (framed : Bool) (trace : DecodedTrace) :
    (encodeTrace framed trace).length =
      48 * trace.records.length + 44 + if framed then 44 else 0 := by
  have hpreamble : preamble.length = 26 := rfl
  have htrailer : trailer.length = 18 := rfl
  unfold encodeTrace
  rw [List.length_append, List.length_append, List.length_append, recordFrames_length,
    footerFrame_length]
  cases framed with
  | false => simp
  | true =>
    rw [if_pos rfl, if_pos rfl, if_pos rfl, hpreamble, htrailer]
    omega

/-- Two framings of one length that agree outside a window of four bytes, the first within the
lines of the application, are equal. -/
lemma encodeTrace_eq {start : ℕ} {framed : Bool} {trace trace' : DecodedTrace}
    (hlen : (encodeTrace framed trace').length = (encodeTrace true trace).length)
    (h : AgreeOutside start (encodeTrace framed trace') (encodeTrace true trace)) :
    encodeTrace framed trace' = encodeTrace true trace := by
  rw [encodeTrace_length, encodeTrace_length, if_pos rfl] at hlen
  cases framed with
  | false =>
    -- the lines are shorter than a frame
    rw [if_neg (by decide)] at hlen
    omega
  | true =>
    rw [if_pos rfl] at hlen
    simp only [encodeTrace, if_true, List.append_assoc] at h ⊢
    obtain ⟨hrecords, start', hrest⟩ := recordFrames_eq (by omega) (h.right rfl)
    have hsize : (footerFrame trace'.footer).length = (footerFrame trace.footer).length := by
      rw [footerFrame_length, footerFrame_length]
    have hfooter : footerFrame trace'.footer = footerFrame trace.footer :=
      frame_eq rfl (hrest.left hsize)
    rw [hrecords, hfooter]

/-- **No small corruption is accepted**: a stream within the lines of the application that decodes
decodes no more once any of four consecutive bytes of it are changed. -/
theorem damage_rejected {data damaged : List UInt8} {trace : DecodedTrace} {start : ℕ}
    (h : decodeRaising data = .ok trace) (hpreamble : preamble.isPrefixOf data = true)
    (hlen : damaged.length = data.length) (hne : damaged ≠ data)
    (hwindow : ∀ i, i < start ∨ start + 4 ≤ i → damaged[i]? = data[i]?) :
    ∃ message, decodeRaising damaged = .error (.traceError message) := by
  obtain ⟨hdata, -⟩ := decodeStream_canonical (decodeRaising_ok h)
  rw [hpreamble] at hdata
  cases hdecode : decodeRaising damaged with
  | ok trace' =>
    obtain ⟨hdamaged, -⟩ := decodeStream_canonical (decodeRaising_ok hdecode)
    refine absurd ?_ hne
    rw [← hdamaged, ← hdata] at hlen hwindow ⊢
    exact encodeTrace_eq hlen hwindow
  | error e =>
    rw [decodeRaising_eq] at hdecode
    obtain ⟨message, rfl⟩ := raising_error_inv hdecode
    exact ⟨message, rfl⟩

/-- The start of the kernel, and the creation of a task nine ticks later. -/
def sampleTrace : DecodedTrace :=
  { footer := ⟨2, 2, 0, 1, 0, 9⟩
    records := [decoded ⟨0, 0, 1, 1, 0, 0xFFFF, 0xFFFF, 0, 5, 0⟩,
      decoded ⟨9, 1, 1, 2, 0, 1, 0xFFFF, 1, 3, 2⟩]
    rawRecords := [] }

def sampleStream : List UInt8 := encodeTrace true sampleTrace

lemma sampleStream_accepted : (decodeRaising sampleStream).toBool = true := by decide +kernel

/-- The last two bytes of the first record and the first two of its checksum are changed. -/
theorem damage_rejected_record : ∃ message,
    decodeRaising (sampleStream.take 68 ++ [1, 0, 0, 0] ++ sampleStream.drop 72) =
      .error (.traceError message) := by
  have hok := sampleStream_accepted
  cases h : decodeRaising sampleStream with
  | error e =>
    rw [h] at hok
    cases hok
  | ok trace =>
    have hlen : sampleStream.length = 184 := by decide +kernel
    refine @damage_rejected sampleStream _ trace 68 h (by decide +kernel) (by decide +kernel)
      (by decide +kernel) fun i hi => ?_
    rcases hi with hi | hi
    · rw [List.append_assoc, List.getElem?_append_left, List.getElem?_take_of_lt hi]
      rw [List.length_take]
      omega
    · have hfront : (sampleStream.take 68 ++ [1, 0, 0, 0]).length = 72 := by decide +kernel
      rw [List.getElem?_append_right (by omega), hfront, List.getElem?_drop, Nat.add_sub_cancel' hi]

end Aymos.Damage
