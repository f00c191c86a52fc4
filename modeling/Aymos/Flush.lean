import Aymos.Canonical
import Aymos.Pipeline
import Aymos.StreamCode

/-!
The flush of a trace over a serial line that may fail.

`board_uart_write` hands its bytes to the HAL in chunks, and `os_trace_finish` gives up at the first
frame that is not taken. What the application writes then, the line of its trailer or that of a
panic, follows what was sent. The host accepts it only if nothing at all is missing.
-/

namespace Aymos.Flush

open Words Scheduler Trace Kernel Machine Boot EmissionLog Safety Startup Scenario RingHistory Wire
  Decoder RoundTrip Validate Canonical Acceptance Lifecycle TraceVerdict Pipeline StreamCode

/-! ### The serial line -/

/-- `HAL_StatusTypeDef`. -/
inductive HalStatus
  | ok
  | error
  | busy
  | timeout
  deriving DecidableEq, Repr

/-- `HAL_UART_Transmit`, on a device with states in `σ`. The bytes that it puts on the line come
first in those it is given, and they are all of them where it succeeds. -/
structure Uart (σ : Type) where
  transmit : σ → List UInt8 → HalStatus × List UInt8 × σ
  sent_prefix : ∀ s data, (transmit s data).2.1 <+: data
  sent_all : ∀ s data, (transmit s data).1 = .ok → (transmit s data).2.1 = data

/-- The device, and what it has put on the line. -/
structure Port (σ : Type) where
  device : σ
  wire : List UInt8

def uartChunkMax : ℕ := 0xFFFF

variable {σ : Type} (uart : Uart σ)

/-- The loop of `board_uart_write`, on the bytes that remain. The bound is the number of turns. -/
def uartChunks : ℕ → List UInt8 → Port σ → HalStatus × Port σ
  | 0, _, port => (.ok, port)
  | turns + 1, remaining, port =>
    if remaining = [] then (.ok, port)
    else
      let chunk :=
        if remaining.length > uartChunkMax then uartChunkMax else u16 remaining.length
      let (status, sent, device) := uart.transmit port.device (remaining.take chunk)
      let port := ⟨device, port.wire ++ sent⟩
      if status ≠ .ok then (status, port) else uartChunks turns (remaining.drop chunk) port

/-- `board_uart_write`. No data is a null pointer. -/
def boardUartWrite (data : Option (List UInt8)) (length : ℕ) (port : Port σ) :
    HalStatus × Port σ :=
  match data with
  | none => if length ≠ 0 then (.error, port) else (.ok, port)
  | some data => uartChunks uart length (data.take length) port

/-- `send_frame`. -/
def sendFrameTo (type : ℕ) (payload : List UInt8) (port : Port σ) : Bool × Port σ :=
  match sendFrame type payload with
  | none => (false, port)
  | some frame =>
    let (status, port) := boardUartWrite uart (some frame) frame.length port
    (status == .ok, port)

/-- The loop of `os_trace_finish`. The bound is the number of turns. -/
def flushRecords : ℕ → TraceRing → Port σ → Bool × TraceRing × Port σ
  | 0, ring, port => (true, ring, port)
  | turns + 1, ring, port =>
    match osTraceRingPop ring with
    | (ring, none) => (true, ring, port)
    | (ring, some record) =>
      match sendFrameTo uart frameRecord (encodeRecord record) port with
      | (false, port) => (false, ring, port)
      | (true, port) => flushRecords turns ring port

/-- `os_trace_finish`, with whether it runs in the idle thread. -/
def osTraceFinishTo (inIdle : Bool) (ring : TraceRing) (tick : ℕ) (port : Port σ) :
    Bool × TraceRing × Port σ :=
  if !inIdle then (false, ring, port)
  else
    match osTraceRingClose ring tick with
    | (ring, none) => (false, ring, port)
    | (ring, some final) =>
      match flushRecords uart (ring.count + 1) ring port with
      | (false, ring, port) => (false, ring, port)
      | (true, ring, port) =>
        let (sent, port) := sendFrameTo uart frameFooter (encodeFooter final) port
        (sent, ring, port)

/-! ### The application -/

/-- What `board_kernel_panic` puts on the line. Each of its three writes polls the line and gives up
when it stays busy, after as many bytes as here. -/
def panicBytes (reason : List UInt8) (n₁ n₂ n₃ : ℕ) : List UInt8 :=
  (ascii ['A', 'Y', 'M', 'O', 'S', ' ', 'P', 'A', 'N', 'I', 'C', ' ']).take n₁ ++ reason.take n₂ ++
    crlf.take n₃

def flushReason : List UInt8 := ascii ['T', 'R', 'A', 'C', 'E', '_', 'F', 'L', 'U', 'S', 'H']

def uartReason : List UInt8 := ascii ['U', 'A', 'R', 'T']

def pspReason : List UInt8 := ascii ['I', 'D', 'L', 'E', '_', 'P', 'S', 'P']

def completeReason : List UInt8 :=
  ascii ['T', 'R', 'A', 'C', 'E', '_', 'C', 'O', 'M', 'P', 'L', 'E', 'T', 'E']

/-- The end of `board_lifecycle_idle_hook` in `apps/trace/main.c`: the flush, and the last line. -/
def finishTrace (ring : TraceRing) (tick : ℕ) (port : Port σ) (n₁ n₂ n₃ : ℕ) : Port σ :=
  match osTraceFinishTo uart true ring tick port with
  | (false, _, port) => { port with wire := port.wire ++ panicBytes flushReason n₁ n₂ n₃ }
  | (true, _, port) =>
    match boardUartWrite uart (some trailer) trailer.length port with
    | (.ok, port) => port
    | (_, port) => { port with wire := port.wire ++ panicBytes uartReason n₁ n₂ n₃ }

/-- `board_lifecycle_idle_hook` in `apps/trace/main.c`, when task A has finished and the trace has not
been sent. The two conditions are what its first two checks find. -/
def lifecycleIdleHook (usesPsp complete : Bool) (ring : TraceRing) (tick : ℕ) (port : Port σ)
    (n₁ n₂ n₃ : ℕ) : Port σ :=
  if !usesPsp then { port with wire := port.wire ++ panicBytes pspReason n₁ n₂ n₃ }
  else if !complete then { port with wire := port.wire ++ panicBytes completeReason n₁ n₂ n₃ }
  else finishTrace uart ring tick port n₁ n₂ n₃

/-! ### What reaches the line -/

/-- A write puts a beginning of its bytes on the line, and all of them where it succeeds. -/
structure Sends (data : List UInt8) (port : Port σ) (ok : Bool) (port' : Port σ) : Prop where
  sent : ∃ sent, port'.wire = port.wire ++ sent ∧ sent <+: data ∧ (ok = true → sent = data)

variable {uart} {port port' port'' : Port σ} {data data' remaining payload : List UInt8} {ok : Bool}
  {ring : TraceRing} {turns type : ℕ}

lemma Sends.nothing : Sends [] port true port :=
  ⟨[], (List.append_nil _).symm, List.prefix_rfl, fun _ => rfl⟩

/-- **One write after another**, where the first has succeeded. -/
lemma Sends.append (h : Sends data port true port') (h' : Sends data' port' ok port'') :
    Sends (data ++ data') port ok port'' := by
  obtain ⟨sent, hwire, -, hall⟩ := h.sent
  obtain ⟨sent', hwire', hprefix, hall'⟩ := h'.sent
  refine ⟨data ++ sent', ?_, ?_, fun hok => by rw [hall' hok]⟩
  · rw [hwire', hwire, hall rfl, List.append_assoc]
  · exact (List.prefix_append_right_inj data).mpr hprefix

/-- A write that fails, with more to come. -/
lemma Sends.stop (h : Sends data port false port') : Sends (data ++ data') port false port' := by
  obtain ⟨sent, hwire, hprefix, -⟩ := h.sent
  exact ⟨sent, hwire, hprefix.trans (List.prefix_append _ _), fun hx => by cases hx⟩

/-- A turn of the loop. -/
lemma uartChunks_succ (hne : remaining ≠ []) : ∃ chunk, 0 < chunk ∧ ∀ status sent device,
    uart.transmit port.device (remaining.take chunk) = (status, sent, device) →
      uartChunks uart (turns + 1) remaining port =
        if status ≠ .ok then (status, ⟨device, port.wire ++ sent⟩)
        else uartChunks uart turns (remaining.drop chunk) ⟨device, port.wire ++ sent⟩ := by
  have hpos : 0 < remaining.length := List.length_pos_iff.mpr hne
  refine ⟨if remaining.length > uartChunkMax then uartChunkMax else u16 remaining.length, ?_,
    fun status sent device h => ?_⟩
  · rw [uartChunkMax, u16]
    split <;> omega
  · rw [uartChunks, if_neg hne]
    simp only [h]

/-- **The chunks** make up the bytes. -/
lemma uartChunks_sends (hturns : remaining.length ≤ turns) :
    Sends remaining port ((uartChunks uart turns remaining port).1 == .ok)
      (uartChunks uart turns remaining port).2 := by
  induction turns generalizing remaining port with
  | zero =>
    obtain rfl := List.eq_nil_of_length_eq_zero (Nat.le_zero.mp hturns)
    exact .nothing
  | succ turns ih =>
    by_cases hne : remaining = []
    · subst hne
      exact .nothing
    · obtain ⟨chunk, hpos, hturn⟩ := @uartChunks_succ σ uart port remaining turns hne
      rcases hresult : uart.transmit port.device (remaining.take chunk) with ⟨status, sent, device⟩
      rw [hturn status sent device hresult]
      have hprefix : sent <+: remaining.take chunk := by
        simpa [hresult] using uart.sent_prefix port.device (remaining.take chunk)
      have hall : status = .ok → sent = remaining.take chunk := by
        simpa [hresult] using uart.sent_all port.device (remaining.take chunk)
      by_cases hok : status = .ok
      · have hfirst : Sends (remaining.take chunk) port true ⟨device, port.wire ++ sent⟩ :=
          ⟨sent, rfl, hprefix, fun _ => hall hok⟩
        have hshorter : (remaining.drop chunk).length ≤ turns := by
          rw [List.length_drop]
          omega
        have hrest := hfirst.append (@ih ⟨device, port.wire ++ sent⟩ (remaining.drop chunk) hshorter)
        rw [List.take_append_drop] at hrest
        rwa [if_neg (not_not.mpr hok)]
      · rw [if_pos hok]
        refine ⟨sent, rfl, hprefix.trans (List.take_prefix _ _), fun hx => ?_⟩
        exact absurd (beq_iff_eq.mp hx) hok

lemma boardUartWrite_sends : Sends data port
    ((boardUartWrite uart (some data) data.length port).1 == .ok)
    (boardUartWrite uart (some data) data.length port).2 := by
  have h := @uartChunks_sends σ uart port (data.take data.length) data.length
    (List.length_take_le _ _)
  rw [List.take_length] at h
  rw [boardUartWrite, List.take_length]
  exact h

/-- A frame on the line. -/
lemma sendFrameTo_sends (hframe : sendFrame type payload = some data) :
    Sends data port (sendFrameTo uart type payload port).1
      (sendFrameTo uart type payload port).2 := by
  rw [sendFrameTo, hframe]
  exact boardUartWrite_sends

/-- **The records on the line**, oldest first. -/
lemma flushRecords_sends (hi : Indexed ring) (hturns : ring.count < turns) :
    Sends (recordFrames ring.records) port (flushRecords uart turns ring port).1
      (flushRecords uart turns ring port).2.2 := by
  induction turns generalizing ring port with
  | zero => exact absurd hturns (Nat.not_lt_zero _)
  | succ turns ih =>
    rw [flushRecords]
    by_cases h0 : ring.count = 0
    · have hnil : ring.records = [] := by
        rw [← List.length_eq_zero_iff, records_length, h0]
      rw [pop_empty h0, hnil]
      exact .nothing
    · obtain ⟨r, hpop, hdrop, hrecords⟩ := pop_record hi h0
      have hless : (dropOldest ring).count < turns := by
        simp only [dropOldest]
        omega
      have hframe := @sendFrameTo_sends σ uart port _ _ frameRecord (sendFrame_record r)
      rw [hpop, hrecords]
      dsimp only
      generalize sendFrameTo uart frameRecord (encodeRecord r) port = result at hframe ⊢
      obtain ⟨sent, port₁⟩ := result
      cases sent with
      | false => exact hframe.stop
      | true => exact hframe.append (ih hdrop hless)

/-- What a flush has to send. -/
def flushBytes (ring : TraceRing) (tick : ℕ) : List UInt8 :=
  recordFrames ring.records ++ frame frameFooter (encodeFooter (finalOf ring tick))

/-- **The flush of an open ring**, whatever the line does. -/
lemma osTraceFinishTo_sends (hi : Indexed ring) (ho : ring.enabled = true) (tick : ℕ) :
    Sends (flushBytes ring tick) port (osTraceFinishTo uart true ring tick port).1
      (osTraceFinishTo uart true ring tick port).2.2 := by
  have hclose : osTraceRingClose ring tick =
      ({ ring with enabled := false }, some (finalOf ring tick)) := by
    rw [osTraceRingClose, ho]
    rfl
  have hrecords := @flushRecords_sends σ uart port { ring with enabled := false } (ring.count + 1)
    ⟨hi.positive, hi.bounded, hi.read, hi.write⟩ (Nat.lt_succ_self _)
  rw [osTraceFinishTo, hclose]
  simp only [Bool.not_true, Bool.false_eq_true, if_false]
  generalize flushRecords uart (ring.count + 1) { ring with enabled := false } port = result
    at hrecords ⊢
  obtain ⟨sent, ring₁, port₁⟩ := result
  cases sent with
  | false => exact hrecords.stop
  | true => exact hrecords.append (sendFrameTo_sends (sendFrame_footer _))

/-! ### What the host accepts of it -/

/-- The frames of records, and the frame of a footer. -/
lemma frames_closed : Closed (fun r : TraceRecord => frame frameRecord (encodeRecord r))
    (fun f : TraceFinal => frame frameFooter (encodeFooter f)) where
  cancel a b t u h := by
    refine List.append_inj_left h ?_
    rw [frame_length, frame_length, encodeRecord_length, encodeRecord_length]
  closes c d t u h := by
    refine List.append_inj_left h ?_
    rw [frame_length, frame_length, encodeFooter_length, encodeFooter_length]
  apart a c t u h := by
    -- the types differ
    have hat := congrArg (fun bytes => bytes[5]?) h
    have hrecord : (frame frameRecord (encodeRecord a) ++ t)[5]? = some 1 := rfl
    have hfooter : (frame frameFooter (encodeFooter c) ++ u)[5]? = some 2 := rfl
    simp only [hrecord, hfooter] at hat
    exact absurd hat (by decide)

/-- A stream with the lines of the application that is accepted: frames, and the trailer. -/
lemma accepted_frames {bytes : List UInt8} {trace : DecodedTrace}
    (hd : decodeStream (preamble ++ bytes) = .ok trace) :
    bytes = ((trace.records.map Canonical.recordOf).flatMap fun r =>
      frame frameRecord (encodeRecord r)) ++ (frame frameFooter (encodeFooter trace.footer) ++
        trailer) := by
  obtain ⟨hcanon, -⟩ := decodeStream_canonical hd
  have hp : preamble.isPrefixOf (preamble ++ bytes) = true :=
    List.isPrefixOf_iff_prefix.mpr (List.prefix_append _ _)
  rw [hp, encodeTrace, if_pos rfl, if_pos rfl, List.append_assoc, List.append_assoc] at hcanon
  rw [← List.append_cancel_left hcanon, List.flatMap_map]
  rfl

/-- After a whole flush only the trailer is accepted. -/
lemma accepted_whole {tick : ℕ} {tail : List UInt8} {trace : DecodedTrace}
    (hd : decodeStream (preamble ++ (flushBytes ring tick ++ tail)) = .ok trace) :
    tail = trailer := by
  have heq := accepted_frames hd
  rw [flushBytes, recordFrames, List.append_assoc] at heq
  exact (frames_closed.inj heq).2.2

/-- **After part of a flush** only what ends with the trailer is accepted. -/
lemma accepted_part {tick : ℕ} {sent tail : List UInt8} {trace : DecodedTrace}
    (hd : decodeStream (preamble ++ (sent ++ tail)) = .ok trace)
    (hsent : sent <+: flushBytes ring tick) : trailer <:+ tail := by
  have heq := accepted_frames hd
  rw [← List.append_assoc] at heq
  rcases le_total trailer.length tail.length with hlong | hshort
  · exact List.suffix_of_suffix_length_le (heq ▸ List.suffix_append _ _)
      (List.suffix_append sent tail) hlong
  · -- the frames that were accepted are among those that were sent, and so they are all of them
    obtain ⟨middle, hmiddle⟩ := List.suffix_of_suffix_length_le (List.suffix_append sent tail)
      (heq ▸ List.suffix_append _ _) hshort
    rw [← hmiddle, ← List.append_assoc] at heq
    obtain ⟨rest, hrest⟩ := hsent
    rw [List.append_cancel_right heq, flushBytes, recordFrames, List.append_assoc,
      List.append_assoc] at hrest
    have hnil := (frames_closed.inj (hrest.trans (congrArg (_ ++ ·) (List.append_nil _).symm))).2.2
    rw [← hmiddle, (List.append_eq_nil_iff.mp hnil).1, List.nil_append]

/-- The panic of a check that fails does not end with the trailer, wherever it is cut off. -/
lemma panic_untrailed {reason : List UInt8}
    (hreason : reason ∈ [flushReason, pspReason, completeReason]) (n₁ n₂ n₃ : ℕ) :
    ¬trailer <:+ panicBytes reason n₁ n₂ n₃ := by
  have hall : ∀ reason ∈ [flushReason, pspReason, completeReason], ∀ n₁ < 13,
      ∀ n₂ < reason.length + 1, ∀ n₃ < 3, ¬trailer <:+ panicBytes reason n₁ n₂ n₃ := by
    decide +kernel
  have hcut : ∀ (bytes : List UInt8) (n : ℕ), bytes.take n = bytes.take (min n bytes.length) :=
    fun bytes n => List.take_eq_take_iff.mpr (by omega)
  rw [panicBytes, hcut, hcut reason, hcut crlf]
  refine hall _ hreason _ (Nat.lt_succ_of_le (min_le_right _ _)) _
    (Nat.lt_succ_of_le (min_le_right _ _)) _ (Nat.lt_succ_of_le (min_le_right _ _))

variable {img : Image} {labels : List Label} {k : KernelState} {log : Log}

/-- **A whole flush, or nothing**: what the end of the hook puts on the line is accepted only if
`os_trace_finish` has succeeded and its bytes have all been sent. -/
lemma finishTrace_accepted (h : Logged img Lively labels k log) (hport : port.wire = preamble)
    {n₁ n₂ n₃ : ℕ} {trace : DecodedTrace} (hstream :
      decodeStream (finishTrace uart k.traceRing k.monotonicTicks port n₁ n₂ n₃).wire = .ok trace) :
    (osTraceFinishTo uart true k.traceRing k.monotonicTicks port).1 = true ∧
      (finishTrace uart k.traceRing k.monotonicTicks port n₁ n₂ n₃).wire = received k := by
  have hrec := h.recorded
  have hflush := @osTraceFinishTo_sends σ uart port k.traceRing hrec.indexed hrec.enabled
    k.monotonicTicks
  have hreceived : received k =
      preamble ++ (flushBytes k.traceRing k.monotonicTicks ++ trailer) := by
    rw [received, ← framesOf_eq, flushBytes, List.append_assoc]
  rw [finishTrace] at hstream ⊢
  generalize osTraceFinishTo uart true k.traceRing k.monotonicTicks port = result
    at hflush hstream ⊢
  obtain ⟨finished, ring, port₁⟩ := result
  obtain ⟨sent, hwire, hprefix, hwhole⟩ := hflush.sent
  dsimp only at hwire hwhole hstream ⊢
  cases finished with
  | false =>
    dsimp only at hstream
    rw [hwire, hport, List.append_assoc] at hstream
    exact absurd (accepted_part hstream hprefix) (panic_untrailed (by simp) n₁ n₂ n₃)
  | true =>
    refine ⟨rfl, ?_⟩
    dsimp only at hstream ⊢
    have htrailer := @boardUartWrite_sends σ uart port₁ trailer
    generalize boardUartWrite uart (some trailer) trailer.length port₁ = written
      at htrailer hstream ⊢
    obtain ⟨status, port₂⟩ := written
    obtain ⟨last, hlast, -, hlastAll⟩ := htrailer.sent
    rw [hwire, hport, hwhole rfl] at hlast
    cases status with
    | ok =>
      dsimp only at hlast ⊢
      rw [hreceived, hlast, hlastAll rfl, List.append_assoc]
    | _ =>
      dsimp only at hlast hstream ⊢
      rw [hlast, List.append_assoc, List.append_assoc] at hstream ⊢
      rw [accepted_whole hstream, hreceived]

/-- A panic after the preamble is not accepted. -/
lemma panic_rejected (ring : TraceRing) {reason : List UInt8}
    (hreason : reason ∈ [flushReason, pspReason, completeReason]) (n₁ n₂ n₃ : ℕ)
    (trace : DecodedTrace) : decodeStream (preamble ++ panicBytes reason n₁ n₂ n₃) ≠ .ok trace :=
  fun h => panic_untrailed hreason n₁ n₂ n₃
    (@accepted_part ring 0 [] _ _ h List.nil_prefix)

/-- **Only a whole flush is accepted.** Whatever the checks of the idle hook find, whatever the serial
line does during the flush of a run and after it, and however much of a panic it carries, the host
accepts what it receives only if the checks hold, `os_trace_finish` has succeeded and nothing is
missing or added, and then it lists what the run has emitted. -/
theorem flush_accepted (h : Logged img Lively labels k log) (hport : port.wire = preamble)
    (usesPsp complete : Bool) (n₁ n₂ n₃ : ℕ) {trace : DecodedTrace}
    (hd : decode (lifecycleIdleHook uart usesPsp complete k.traceRing k.monotonicTicks port
      n₁ n₂ n₃).wire = .ok trace) :
    (usesPsp = true ∧ complete = true) ∧
      (osTraceFinishTo uart true k.traceRing k.monotonicTicks port).1 = true ∧
        (lifecycleIdleHook uart usesPsp complete k.traceRing k.monotonicTicks port n₁ n₂ n₃).wire =
          received k ∧ log.length ≤ traceCapacity ∧ trace.records = decodedLog log := by
  have hstream := (decode_ok_iff.mp hd).1
  rw [lifecycleIdleHook] at hd hstream ⊢
  cases usesPsp with
  | false =>
    simp only [Bool.not_false, if_true, hport] at hstream
    exact absurd hstream (panic_rejected k.traceRing (by simp) n₁ n₂ n₃ trace)
  | true =>
    cases complete with
    | false =>
      simp only [Bool.not_true, Bool.not_false, Bool.false_eq_true, if_true, if_false, hport]
        at hstream
      exact absurd hstream (panic_rejected k.traceRing (by simp) n₁ n₂ n₃ trace)
    | true =>
      refine ⟨⟨rfl, rfl⟩, ?_⟩
      simp only [Bool.not_true, Bool.false_eq_true, if_false] at hd hstream ⊢
      obtain ⟨hfinished, hwire⟩ := finishTrace_accepted h hport hstream
      rw [hwire] at hd
      have hfits := decode_lost h hd
      obtain ⟨rfl, -⟩ := (decode_fits h hfits).mp hd
      exact ⟨hfinished, hwire, hfits, rfl⟩

/-! ### A line that takes every byte -/

/-- Every transmission succeeds. -/
def Reliable (uart : Uart σ) : Prop := ∀ s data, (uart.transmit s data).1 = .ok

lemma uartChunks_ok (hu : Reliable uart) (turns : ℕ) (remaining : List UInt8) (port : Port σ) :
    (uartChunks uart turns remaining port).1 = .ok := by
  induction turns generalizing remaining port with
  | zero => rfl
  | succ turns ih =>
    by_cases hne : remaining = []
    · rw [uartChunks, if_pos hne]
    · obtain ⟨chunk, -, hturn⟩ := @uartChunks_succ σ uart port remaining turns hne
      have hok := hu port.device (remaining.take chunk)
      rcases hresult : uart.transmit port.device (remaining.take chunk) with ⟨status, sent, device⟩
      rw [hresult] at hok
      rw [hturn status sent device hresult, if_neg (not_not.mpr hok)]
      exact ih _ _

lemma sendFrameTo_ok (hu : Reliable uart) (hframe : sendFrame type payload = some data)
    (port : Port σ) : (sendFrameTo uart type payload port).1 = true := by
  rw [sendFrameTo, hframe]
  exact beq_iff_eq.mpr (uartChunks_ok hu _ _ port)

lemma flushRecords_ok (hu : Reliable uart) (turns : ℕ) (ring : TraceRing) (port : Port σ) :
    (flushRecords uart turns ring port).1 = true := by
  induction turns generalizing ring port with
  | zero => rfl
  | succ turns ih =>
    rw [flushRecords]
    generalize osTraceRingPop ring = popped
    obtain ⟨ring₁, _ | record⟩ := popped
    · rfl
    · have hframe := sendFrameTo_ok hu (sendFrame_record record) port
      dsimp only
      generalize sendFrameTo uart frameRecord (encodeRecord record) port = result at hframe ⊢
      obtain ⟨sent, port₁⟩ := result
      obtain rfl : sent = true := hframe
      exact ih _ _

lemma osTraceFinishTo_ok (hu : Reliable uart) (ho : ring.enabled = true) (tick : ℕ)
    (port : Port σ) : (osTraceFinishTo uart true ring tick port).1 = true := by
  have hclose : osTraceRingClose ring tick =
      ({ ring with enabled := false }, some (finalOf ring tick)) := by
    rw [osTraceRingClose, ho]
    rfl
  have hrecords := flushRecords_ok hu (ring.count + 1) { ring with enabled := false } port
  rw [osTraceFinishTo, hclose]
  simp only [Bool.not_true, Bool.false_eq_true, if_false]
  generalize flushRecords uart (ring.count + 1) { ring with enabled := false } port = result
    at hrecords ⊢
  obtain ⟨sent, ring₁, port₁⟩ := result
  obtain rfl : sent = true := hrecords
  exact sendFrameTo_ok hu (sendFrame_footer _) _

/-- **What a reliable line carries** is what the host has to receive. -/
lemma finishTrace_reliable (hu : Reliable uart) (h : Logged img Lively labels k log)
    (hport : port.wire = preamble) (n₁ n₂ n₃ : ℕ) :
    (finishTrace uart k.traceRing k.monotonicTicks port n₁ n₂ n₃).wire = received k := by
  have hrec := h.recorded
  have hflush := @osTraceFinishTo_sends σ uart port k.traceRing hrec.indexed hrec.enabled
    k.monotonicTicks
  have hok := osTraceFinishTo_ok hu hrec.enabled k.monotonicTicks port
  rw [finishTrace]
  generalize osTraceFinishTo uart true k.traceRing k.monotonicTicks port = result at hflush hok ⊢
  obtain ⟨finished, ring, port₁⟩ := result
  obtain rfl : finished = true := hok
  obtain ⟨sent, hwire, -, hwhole⟩ := hflush.sent
  have htrailer := @boardUartWrite_sends σ uart port₁ trailer
  have hwritten : (boardUartWrite uart (some trailer) trailer.length port₁).1 = .ok :=
    uartChunks_ok hu _ _ port₁
  dsimp only at hwire ⊢
  generalize boardUartWrite uart (some trailer) trailer.length port₁ = written
    at htrailer hwritten ⊢
  obtain ⟨status, port₂⟩ := written
  obtain rfl : status = .ok := hwritten
  obtain ⟨last, hlast, -, hall⟩ := htrailer.sent
  dsimp only at hlast ⊢
  rw [hlast, hall rfl, hwire, hport, hwhole rfl, received, ← framesOf_eq, flushBytes]

/-- A line without a state that takes every byte. -/
def openLine : Uart Unit where
  transmit _ data := (.ok, data, ())
  sent_prefix _ _ := List.prefix_rfl
  sent_all _ _ _ := rfl

/-- The flush of a run with one task, up to its first instruction, over such a line. -/
theorem flush_accepted_solo : ∃ labels k log trace, Logged sampleImage Lively labels k log ∧
    decode (lifecycleIdleHook openLine true true k.traceRing k.monotonicTicks ⟨(), preamble⟩
      0 0 0).wire = .ok trace ∧ log ≠ [] ∧ trace.records = decodedLog log := by
  obtain ⟨labels, k, hr, -⟩ := stage_launched (oneShot 0 100) (by decide) (by decide)
  have hlively := lively_of_disciplined hr
  have hd := (decode_fits hlively (by decide)).mpr ⟨rfl, by rfl, by decide⟩
  have hwire := @finishTrace_reliable _ openLine ⟨(), preamble⟩ _ _ _ _ (fun _ _ => rfl) hlively
    rfl 0 0 0
  rw [← hwire] at hd
  exact ⟨labels, k, _, _, hlively, hd, by simp [launchBatches, entries],
    (flush_accepted hlively rfl true true 0 0 0 hd).2.2.2.2⟩

end Aymos.Flush
