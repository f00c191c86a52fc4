import Aymos.SignalVectors

/-!
What the signal lab guarantees, in whatever order its tasks are dispatched.

A run that has not panicked has computed the checksums of the stream, frame by frame. A task panics
exactly when it is dispatched out of turn or the kernel does not answer as it asks, and from every
state the lab can be brought to its end.
-/

namespace Aymos.SignalLab

open ByteMem Words FirQ15 FirAgreement FirMemory Wire ResultLine SignalTasks SignalRun SignalVectors
  Turns

variable {L : Layout} {fir : Fir} {mem : Mem} {turns : List (Task × Answers)} {s s' : System}
  {answers : Answers}

/-! ### Safety -/

lemma allSamples_eq (frames : ℕ) :
    allSamples frames = (List.range (sampleCount * frames)).map sample := by
  induction frames with
  | zero => rfl
  | succ frames ih =>
    rw [allSamples, List.range_succ, List.flatMap_append, List.flatMap_singleton, ← allSamples, ih,
      Nat.mul_succ, List.range_add, List.map_append, List.map_map]
    rfl

lemma count_le_done {α : Type} (p : Place α) : p.count ≤ p.done := by
  cases p with
  | check | work | wait | returned => exact le_rfl
  | publish => exact Nat.le_succ _

lemma eq_returned {α : Type} {p : Place α} (h : p.over = true) : p = .returned := by
  cases p with
  | returned => rfl
  | check | work | publish | wait => cases h

/-- The sums of the tasks that have returned. -/
lemma aggregates_of_inv (h : Inv L s)
    (hsampler : s.sampler.done = frameCount ∧ s.sampler.inside = false)
    (hprocessor : s.processor.done = frameCount) :
    ~~~s.lab.aggregateInputState = crc32 (bytesOf (allSamples frameCount)) ∧
      ~~~s.lab.aggregateOutputState = crc32 (bytesOf (allOutputs frameCount)) := by
  have hdrawn : drawn s.sampler = sampleCount * frameCount := by
    obtain ⟨hdone, hout⟩ := hsampler
    cases hp : s.sampler with
    | work | publish =>
      rw [hp] at hout
      cases hout
    | check | wait | returned =>
      rw [hp] at hdone
      exact congrArg (sampleCount * ·) hdone
  rw [h.sampled.aggregate, h.processed.aggregate, hdrawn, hprocessor, ← allSamples_eq,
    crc32Q15_bytes, crc32Q15_bytes]
  exact ⟨rfl, rfl⟩

/-- **The lab is safe.** In every state of every run the tasks have kept their turns, the processor
finds the samples of its frame, and the checksums are those of the stream. -/
theorem lab_safe (h : (System.start L mem).run L fir turns = .ok s) :
    Ordered (roundsOf s) ∧
      (∀ frame locals, s.processor = .work frame locals →
        ∀ i < sampleCount, at16 s.lab.mem L.samples i = frameSample frame i) ∧
      (∀ frame < s.lab.sampledGeneration,
        s.lab.frameInputCrc frame = ieeeCrc32 (bytesOf (frameSamples frame))) ∧
      (∀ frame < s.lab.processedGeneration,
        s.lab.frameOutputCrc frame = ieeeCrc32 (bytesOf (frameOutputs frame))) ∧
      (s.lab.samplerFinished = true → s.lab.processorFinished = true →
        ~~~s.lab.aggregateInputState = ieeeCrc32 (bytesOf (allSamples frameCount)) ∧
          ~~~s.lab.aggregateOutputState = ieeeCrc32 (bytesOf (allOutputs frameCount))) := by
  have hinv := (inv_start L mem).run h
  simp only [← crc32_eq_ieee]
  refine ⟨hinv.ordered, fun frame locals hp => hinv.holds hp, fun frame hf => ?_,
    fun frame hf => ?_, fun hsampler hprocessor => ?_⟩
  · rw [hinv.sampled.generation] at hf
    exact hinv.sampled.crc frame (hf.trans_le (count_le_done _))
  · rw [hinv.processed.generation] at hf
    exact hinv.processed.crc frame (hf.trans_le (count_le_done _))
  · have hs := eq_returned (hinv.sampled.finished.symm.trans hsampler)
    have hp := eq_returned (hinv.processed.finished.symm.trans hprocessor)
    exact aggregates_of_inv hinv (hs ▸ ⟨rfl, rfl⟩) (hp ▸ rfl)

/-! ### Panics -/

/-- The frame that a task is about to check. -/
def checking {α : Type} : Place α → Option ℕ
  | .check frame => some frame
  | .work _ _ | .publish _ | .wait _ | .returned => none

/-- The frame that a task of the lab is about to check. -/
def checkingOf (s : System) : Task → Option ℕ
  | .sampler => checking s.sampler
  | .processor => checking s.processor
  | .verifier => checking s.verifier

/-- The place of a task in the turns. -/
def partyOf : Task → Fin 3
  | .sampler => 0
  | .processor => 1
  | .verifier => 2

/-- A task is in turn unless it is about to check a frame in another's turn. -/
def InTurn (s : System) (task : Task) : Prop :=
  ∀ frame, checkingOf s task = some frame → (roundsOf s).count = Turn.count ⟨frame, partyOf task⟩

/-- A turn of the wait for a tick finds interrupts disabled and its task running, and no more than
one tick charged, in time. -/
def Charged (answers : Answers) : Prop :=
  (answers.primask = 1 ∧ answers.infoStatus = 1 ∧ answers.jobActive = true ∧
    answers.state = .running) ∧
  (answers.jobExecutionTicks ≠ 0 → answers.jobExecutionTicks = 1 ∧ answers.deadlineMissCount = 0)

/-- **The kernel answers a task** at its place as the task asks. -/
def AnsweredAt {α : Type} (task : ℕ) (answers : Answers) : Place α → Prop
  | .check frame => frame = 0 →
    answers.argument = 0 ∧ answers.currentTask = task ∧ answers.threadUsesPsp = true
  | .wait frame => Charged answers ∧
    (answers.jobExecutionTicks ≠ 0 → frame + 1 ≠ frameCount → answers.waitNextPeriod = 1)
  | .work _ _ | .publish _ | .returned => True

/-- The kernel answers a task of the lab as the task asks. -/
def Answered (s : System) (answers : Answers) : Task → Prop
  | .sampler => AnsweredAt taskSampler answers s.sampler
  | .processor => AnsweredAt taskProcessor answers s.processor
  | .verifier => AnsweredAt taskVerifier answers s.verifier

lemma enter_ok_iff {α : Type} {b : Body α} {frame : ℕ} : b.enter answers frame = .ok () ↔
    AnsweredAt b.task answers (.check frame : Place α) := by
  rw [Body.enter, AnsweredAt]
  split
  · next hz => exact require_ok.trans ⟨fun h _ => h, fun h => h hz⟩
  · next hz => exact iff_of_true rfl fun h => absurd h hz

/-- **When a turn of the wait goes through**, and whether it is the last one. -/
lemma wait_ok_iff {last : Bool} : waitForOneExecutionTick answers = .ok last ↔
    Charged answers ∧ last = decide (answers.jobExecutionTicks ≠ 0) := by
  rw [waitForOneExecutionTick, require_bind, Charged]
  by_cases hzero : answers.jobExecutionTicks = 0
  · rw [if_pos hzero, decide_eq_false (not_not.mpr hzero)]
    exact ⟨fun ⟨hinfo, h⟩ => ⟨⟨hinfo, fun hne => absurd hzero hne⟩, (Except.ok.inj h).symm⟩,
      fun ⟨hcharged, h⟩ => ⟨hcharged.1, congrArg Except.ok h.symm⟩⟩
  · rw [if_neg hzero, decide_eq_true hzero, require_bind]
    exact ⟨fun ⟨hinfo, htick, h⟩ => ⟨⟨hinfo, fun _ => htick⟩, (Except.ok.inj h).symm⟩,
      fun ⟨hcharged, h⟩ => ⟨hcharged.1, hcharged.2 hzero, congrArg Except.ok h.symm⟩⟩

/-- **When a task that waits for a tick can go on**, to its next frame or to its end. -/
lemma wait_step_iff {α : Type} {b : Body α} {frame : ℕ} {lab : Lab}
    (hfinish : frame + 1 = frameCount → ∃ lab', b.finish lab = .ok lab') :
    (∃ r, b.step answers (.wait frame) lab = .ok r) ↔
      AnsweredAt b.task answers (.wait frame : Place α) := by
  rw [Body.step, AnsweredAt]
  constructor
  · rintro ⟨r, hr⟩
    obtain ⟨last, hwait, hr⟩ := bind_ok_iff.mp hr
    obtain ⟨hcharged, rfl⟩ := wait_ok_iff.mp hwait
    refine ⟨hcharged, fun hne hlast => ?_⟩
    rw [decide_eq_true hne, if_pos rfl, if_neg hlast] at hr
    exact (require_bind.mp hr).1
  · rintro ⟨hcharged, hperiod⟩
    rw [wait_ok_iff.mpr ⟨hcharged, rfl⟩]
    by_cases hzero : answers.jobExecutionTicks = 0
    · rw [decide_eq_false (not_not.mpr hzero)]
      exact ⟨_, rfl⟩
    · rw [decide_eq_true hzero]
      by_cases hlast : frame + 1 = frameCount
      · obtain ⟨lab', hl⟩ := hfinish hlast
        refine ⟨(.returned, lab'), bind_ok_iff.mpr ⟨true, rfl, ?_⟩⟩
        rw [if_pos rfl, if_pos hlast, hl]
        rfl
      · refine ⟨(.check (frame + 1), lab), bind_ok_iff.mpr ⟨true, rfl, ?_⟩⟩
        rw [if_pos rfl, if_neg hlast]
        exact require_bind.mpr ⟨hperiod hzero hlast, rfl⟩

/-- **When a task can go on.** -/
lemma step_ok_iff {α : Type} {b : Body α} {p : Place α} {lab : Lab} {C : ℕ → Prop}
    (hwithin : p.Within)
    (hcheck : ∀ frame, p = .check frame → (b.check frame lab = .ok () ↔ C frame))
    (hwork : ∀ frame l, p = .work frame l → ∃ r, b.work frame l lab = .ok r)
    (hfinish : ∀ frame, p = .wait frame → frame + 1 = frameCount →
      ∃ lab', b.finish lab = .ok lab') :
    (∃ r, b.step answers p lab = .ok r) ↔
      (∀ frame, checking p = some frame → C frame) ∧ AnsweredAt b.task answers p := by
  cases p with
  | check frame =>
    have hf : frame < frameCount := hwithin
    rw [Body.step, if_pos hf, ← enter_ok_iff]
    constructor
    · rintro ⟨r, hr⟩
      obtain ⟨_, henter, hr⟩ := bind_ok_iff.mp hr
      obtain ⟨_, hc, -⟩ := bind_ok_iff.mp hr
      refine ⟨fun f hf => ?_, henter⟩
      obtain rfl := Option.some.inj hf
      exact (hcheck frame rfl).mp hc
    · rintro ⟨hturn, henter⟩
      rw [henter, (hcheck frame rfl).mpr (hturn frame rfl)]
      exact ⟨_, rfl⟩
  | work frame l =>
    refine iff_of_true ?_ ⟨fun f hf => (by cases hf), trivial⟩
    obtain ⟨⟨next, lab'⟩, hr⟩ := hwork frame l rfl
    rw [Body.step, hr]
    cases next with
    | none => exact ⟨_, rfl⟩
    | some l' => exact ⟨_, rfl⟩
  | publish frame => exact iff_of_true ⟨_, rfl⟩ ⟨fun f hf => (by cases hf), trivial⟩
  | wait frame =>
    rw [wait_step_iff (hfinish frame rfl)]
    exact ⟨fun h => ⟨fun f hf => (by cases hf), h⟩, And.right⟩
  | returned => exact iff_of_true ⟨_, rfl⟩ ⟨fun f hf => (by cases hf), trivial⟩

lemma exists_bind_iff {α β ε : Type} {x : Except ε α} {f : α → β} :
    (∃ y, (x >>= fun a => .ok (f a)) = .ok y) ↔ ∃ a, x = .ok a := by
  cases x with
  | error e => exact iff_of_false (fun ⟨_, h⟩ => by cases h) fun ⟨_, h⟩ => by cases h
  | ok a => exact iff_of_true ⟨_, rfl⟩ ⟨a, rfl⟩

lemma work_sampler (frame : ℕ) (l : SamplerLocals) (lab : Lab) :
    ∃ r, (samplerTask L).work frame l lab = .ok r := by
  simp only [samplerTask]
  split
  · exact ⟨_, rfl⟩
  · exact ⟨_, rfl⟩

lemma work_processor (frame : ℕ) (l : ProcessorLocals) (lab : Lab) :
    ∃ r, (processorTask L fir).work frame l lab = .ok r := by
  cases l with
  | call => exact ⟨_, work_call⟩
  | filter k =>
    by_cases hk : k < ResultLine.validOutputCount
    · exact ⟨_, work_filter hk⟩
    · exact ⟨_, work_filter_end hk⟩
  | checksum => exact ⟨_, rfl⟩

/-- **The verifier has nothing to object to.** -/
lemma verifier_check_iff (h : Inv L s) {frame : ℕ} (hp : s.verifier = .check frame) :
    verifierTask.check frame s.lab = .ok () ↔
      (roundsOf s).count = Turn.count ⟨frame, partyOf .verifier⟩ := by
  have hf : frame < frameCount := by
    have hw := h.verifierWithin
    rw [hp] at hw
    exact hw
  have hturn : (roundsOf s).count = Turn.count ⟨frame, partyOf .verifier⟩ ↔
      s.lab.sampledGeneration = frame + 1 ∧ s.lab.processedGeneration = frame + 1 ∧
        s.lab.verifiedGeneration = frame := by
    rw [partyOf, count_verifier]
    exact counts_eq
  rw [hturn]
  refine require_ok.trans ⟨fun ⟨h0, h1, h2, _⟩ => ⟨h0, h1, h2⟩, fun ⟨h0, h1, h2⟩ => ?_⟩
  -- The frame has been published by the others, so that its checksums are those of the source.
  obtain ⟨hinput, houtput⟩ := frame_checksums frame hf
  have hsampler : frame < s.sampler.done := by
    have hle := count_le_done s.sampler
    rw [← h.sampled.generation, h0] at hle
    exact hle
  have hprocessor : frame < s.processor.done := by
    have hle := count_le_done s.processor
    rw [← h.processed.generation, h1] at hle
    exact hle
  exact ⟨h0, h1, h2, (h.sampled.crc frame hsampler).trans hinput,
    (h.processed.crc frame hprocessor).trans houtput⟩

/-- Whoever has published all frames and is not inside has no frame left. -/
lemma done_of_count {α : Type} {p : Place α} (hw : p.Within) (h : p.count = frameCount) :
    p.done = frameCount ∧ p.inside = false := by
  cases p with
  | check frame | work frame | publish frame => exact absurd h (ne_of_lt hw)
  | wait | returned => exact ⟨h, rfl⟩

lemma sums_expected (h : Inv L s) (hsampler : s.sampler.count = frameCount)
    (hprocessor : s.processor.count = frameCount) :
    (~~~s.lab.aggregateInputState).toNat = expectedInputCrc ∧
      (~~~s.lab.aggregateOutputState).toNat = expectedOutputCrc := by
  obtain ⟨hinput, houtput⟩ := aggregates_of_inv h (done_of_count h.samplerWithin hsampler)
    (done_of_count h.processorWithin hprocessor).1
  rw [hinput, houtput]
  exact aggregate_checksums

lemma verifier_finishes (h : Inv L s) {frame : ℕ} (hp : s.verifier = .wait frame)
    (hf : frame + 1 = frameCount) : ∃ lab', verifierTask.finish s.lab = .ok lab' := by
  have hcount : s.verifier.count = frameCount := by rw [hp, ← hf, Place.count]
  -- The verifier is last in its round, so that the others have published as many frames.
  obtain ⟨t, ht, -⟩ := h.ordered
  have hlast : frameCount ≤ t.count 2 := by
    rw [← ht, ← hcount, ← h.verified.generation]
    exact le_rfl
  have hbound : ∀ {α : Type} {p : Place α}, p.Within → p.count ≤ frameCount := by
    intro α p hw
    cases p with
    | check | work | publish => exact le_of_lt hw
    | wait => exact hw
    | returned => exact le_rfl
  have hsampler : s.sampler.count = frameCount := by
    refine le_antisymm (hbound h.samplerWithin) ?_
    rw [← h.sampled.generation]
    exact hlast.trans ((t.count_antitone (by decide : (0 : Fin 3) ≤ 2)).trans (congrFun ht 0).ge)
  have hprocessor : s.processor.count = frameCount := by
    refine le_antisymm (hbound h.processorWithin) ?_
    rw [← h.processed.generation]
    exact hlast.trans ((t.count_antitone (by decide : (1 : Fin 3) ≤ 2)).trans (congrFun ht 1).ge)
  have hsums := sums_expected h hsampler hprocessor
  exact ⟨_, by simp only [verifierTask, require, if_pos hsums]; rfl⟩

/-- **A task of the lab goes on exactly when it is in turn.** -/
lemma task_steps_iff (h : Inv L s) (task : Task) :
    (∃ s', s.step L fir task answers = .ok s') ↔ InTurn s task ∧ Answered s answers task := by
  cases task with
  | sampler =>
    refine exists_bind_iff.trans (step_ok_iff h.samplerWithin (fun frame _ => ?_)
      (fun frame l _ => work_sampler frame l s.lab) fun frame _ _ => ⟨_, rfl⟩)
    rw [partyOf, count_sampler]
    exact require_ok.trans counts_eq.symm
  | processor =>
    refine exists_bind_iff.trans (step_ok_iff h.processorWithin (fun frame _ => ?_)
      (fun frame l _ => work_processor frame l s.lab) fun frame _ _ => ⟨_, rfl⟩)
    rw [partyOf, count_processor]
    exact require_ok.trans counts_eq.symm
  | verifier =>
    exact exists_bind_iff.trans (step_ok_iff h.verifierWithin
      (fun frame hp => verifier_check_iff h hp) (fun frame l _ => ⟨_, rfl⟩)
      fun frame hp hf => verifier_finishes h hp hf)

/-! ### Progress -/

/-- The steps that a task has left at most, with a bound for each place of its inner loop. -/
def left {α : Type} (bound : α → ℕ) : Place α → ℕ
  | .check frame => 200 * (frameCount - frame)
  | .work frame l => 200 * (frameCount - 1 - frame) + bound l + 3
  | .publish frame => 200 * (frameCount - 1 - frame) + 2
  | .wait frame => 200 * (frameCount - 1 - frame) + 1
  | .returned => 0

/-- A task that has been charged a tick waits no longer. -/
lemma step_goes {α : Type} {b : Body α} {frame : ℕ} {p' : Place α} {lab lab' : Lab}
    (h : b.step answers (.wait frame) lab = .ok (p', lab'))
    (hticks : answers.jobExecutionTicks ≠ 0) : p' ≠ .wait frame := by
  rw [Body.step] at h
  obtain ⟨last, hwait, h⟩ := bind_ok_iff.mp h
  obtain ⟨-, rfl⟩ := wait_ok_iff.mp hwait
  rw [decide_eq_true hticks, if_pos rfl] at h
  split at h
  · obtain ⟨_, -, h⟩ := bind_ok_iff.mp h
    rw [← (Prod.mk.inj (Except.ok.inj h)).1]
    intro heq
    cases heq
  · obtain ⟨-, h⟩ := require_bind.mp h
    rw [← (Prod.mk.inj (Except.ok.inj h)).1]
    intro heq
    cases heq

/-- **Every step of a task that has not returned is one less.** -/
lemma left_lt {α : Type} {b : Body α} {p p' : Place α} {lab lab' : Lab} {bound : α → ℕ}
    (h : b.step answers p lab = .ok (p', lab')) (hticks : answers.jobExecutionTicks ≠ 0)
    (hw : p.Within) (hp : p.over = false) (hinit : bound b.init ≤ 190)
    (hturn : ∀ frame l l' lab', b.work frame l lab = .ok (some l', lab') → bound l' < bound l) :
    left bound p' < left bound p := by
  have hcount : frameCount = 4 := rfl
  cases step_moves h with
  | @enter frame _ hf _ =>
    simp only [left]
    omega
  | @turn frame l l' _ _ h =>
    have hlt := hturn frame l l' lab' h
    simp only [left]
    omega
  | leave h =>
    simp only [left]
    omega
  | publish =>
    simp only [left]
    omega
  | spin => exact absurd rfl (step_goes h hticks)
  | @again frame _ hf =>
    have hlt : frame < frameCount := hw
    simp only [left]
    omega
  | @finish frame _ _ hf _ =>
    simp only [left]
    omega
  | rest => cases hp

def samplerBound (l : SamplerLocals) : ℕ := sampleCount - l.index

def processorBound : ProcessorLocals → ℕ
  | .call => 115
  | .filter k => 113 - k + 1
  | .checksum => 0

def leftOf (s : System) : ℕ :=
  left samplerBound s.sampler + left processorBound s.processor + left (fun _ => 0) s.verifier

lemma sampler_turn {frame : ℕ} {l l' : SamplerLocals} {lab lab' : Lab}
    (h : (samplerTask L).work frame l lab = .ok (some l', lab')) :
    samplerBound l' < samplerBound l := by
  simp only [samplerTask] at h
  split at h
  · next hlt =>
    obtain rfl := Option.some.inj (Prod.mk.inj (Except.ok.inj h)).1
    exact Nat.sub_succ_lt_self _ _ hlt
  · cases (Prod.mk.inj (Except.ok.inj h)).1

lemma processor_turn {frame : ℕ} {l l' : ProcessorLocals} {lab lab' : Lab}
    (h : (processorTask L fir).work frame l lab = .ok (some l', lab')) :
    processorBound l' < processorBound l := by
  have hcount : ResultLine.validOutputCount = 113 := rfl
  cases l with
  | call =>
    obtain rfl := Option.some.inj (Prod.mk.inj (Except.ok.inj (work_call.symm.trans h))).1
    decide
  | filter k =>
    by_cases hk : k < ResultLine.validOutputCount
    · obtain rfl := Option.some.inj (Prod.mk.inj (Except.ok.inj ((work_filter hk).symm.trans h))).1
      simp only [processorBound]
      omega
    · obtain rfl :=
        Option.some.inj (Prod.mk.inj (Except.ok.inj ((work_filter_end hk).symm.trans h))).1
      simp only [processorBound]
      omega
  | checksum => cases (Prod.mk.inj (Except.ok.inj h)).1

/-- Whether a task of the lab has returned. -/
def overOf (s : System) : Task → Bool
  | .sampler => s.sampler.over
  | .processor => s.processor.over
  | .verifier => s.verifier.over

/-- **A step of a task that has not returned** leaves less to do. -/
lemma leftOf_lt (h : Inv L s) {task : Task} (hs : s.step L fir task answers = .ok s')
    (hticks : answers.jobExecutionTicks ≠ 0) (hover : overOf s task = false) :
    leftOf s' < leftOf s := by
  cases task with
  | sampler =>
    obtain ⟨p, lab, hstep, rfl⟩ := step_sampler hs
    have hinit : samplerBound (samplerTask L).init ≤ 190 := (by decide : sampleCount - 0 ≤ 190)
    have hlt := left_lt hstep hticks h.samplerWithin hover hinit
      fun frame l l' lab' hw => sampler_turn hw
    simp only [leftOf]
    omega
  | processor =>
    obtain ⟨p, lab, hstep, rfl⟩ := step_processor hs
    have hinit : processorBound (processorTask L fir).init ≤ 190 := (by decide : 115 ≤ 190)
    have hlt := left_lt hstep hticks h.processorWithin hover hinit
      fun frame l l' lab' hw => processor_turn hw
    simp only [leftOf]
    omega
  | verifier =>
    obtain ⟨p, lab, hstep, rfl⟩ := step_verifier hs
    have hlt := @left_lt _ _ _ _ _ _ _ (fun _ => 0) hstep hticks h.verifierWithin hover (Nat.zero_le _)
      fun frame l l' lab' hw => by cases (Prod.mk.inj (Except.ok.inj hw)).1
    simp only [leftOf]
    omega

lemma place_cases {α : Type} {p : Place α} (hw : p.Within) :
    (p.over = true ∧ p.count = frameCount) ∨ (p.over = false ∧ checking p = none) ∨
      (p.over = false ∧ ∃ frame < frameCount, checking p = some frame ∧ p.count = frame) := by
  cases p with
  | returned => exact Or.inl ⟨rfl, rfl⟩
  | work | publish | wait => exact Or.inr (Or.inl ⟨rfl, rfl⟩)
  | check frame => exact Or.inr (Or.inr ⟨rfl, frame, hw, rfl, rfl⟩)

/-- A task has returned, or is at a check, or can go on anyhow. -/
lemma task_cases (h : Inv L s) (task : Task) :
    (overOf s task = true ∧ (roundsOf s).count (partyOf task) = frameCount) ∨
      (overOf s task = false ∧ checkingOf s task = none) ∨
      (overOf s task = false ∧ ∃ frame < frameCount, checkingOf s task = some frame ∧
        (roundsOf s).count (partyOf task) = frame) := by
  cases task with
  | sampler =>
    have hcount : (roundsOf s).count (partyOf .sampler) = s.sampler.count := h.sampled.generation
    rw [hcount]
    exact place_cases h.samplerWithin
  | processor =>
    have hcount : (roundsOf s).count (partyOf .processor) = s.processor.count :=
      h.processed.generation
    rw [hcount]
    exact place_cases h.processorWithin
  | verifier =>
    have hcount : (roundsOf s).count (partyOf .verifier) = s.verifier.count := h.verified.generation
    rw [hcount]
    exact place_cases h.verifierWithin

lemma exists_party (i : Fin 3) : ∃ task, partyOf task = i := by
  fin_cases i
  · exact ⟨.sampler, rfl⟩
  · exact ⟨.processor, rfl⟩
  · exact ⟨.verifier, rfl⟩

/-- **Some task can go on** while there is one that has not returned. -/
lemma exists_inTurn (h : Inv L s) {task : Task} (hover : overOf s task = false) :
    ∃ task, overOf s task = false ∧ InTurn s task := by
  have hfree : ∀ task, overOf s task = false → checkingOf s task = none →
      ∃ task, overOf s task = false ∧ InTurn s task := fun task ho hc =>
    ⟨task, ho, fun frame hf => by rw [hc] at hf; cases hf⟩
  obtain ⟨t, ht, -⟩ := h.ordered
  obtain ⟨holder, hholder⟩ := exists_party t.party
  have hround : (roundsOf s).count (partyOf holder) = t.round := by
    rw [ht, hholder, Turn.count_party]
  rcases task_cases h holder with ⟨-, hc⟩ | ⟨ho, hc⟩ | ⟨ho, frame, hf, hcheck, hc⟩
  · -- All frames are published, so that nobody is at a check.
    rcases task_cases h task with ⟨ho, -⟩ | ⟨ho, hn⟩ | ⟨-, frame, hf, -, hc'⟩
    · rw [hover] at ho
      cases ho
    · exact hfree task ho hn
    · have hle := (t.count_le (partyOf task)).1
      rw [← ht, hc', ← hround, hc] at hle
      exact absurd hf (not_lt.mpr hle)
  · exact hfree holder ho hc
  · refine ⟨holder, ho, fun f hf' => ?_⟩
    obtain rfl := Option.some.inj (hcheck.symm.trans hf')
    rw [ht, hholder, ← hc, hround]

/-- What a task asks for. -/
def wanted (task : Task) : Answers where
  argument := 0
  currentTask :=
    match task with
    | .sampler => taskSampler
    | .processor => taskProcessor
    | .verifier => taskVerifier
  threadUsesPsp := true
  primask := 1
  infoStatus := 1
  jobActive := true
  state := .running
  jobExecutionTicks := 1
  deadlineMissCount := 0
  waitNextPeriod := 1

lemma answered_wanted (s : System) (task : Task) : Answered s (wanted task) task := by
  have hall : ∀ {α : Type} {p : Place α} {id : ℕ}, (wanted task).currentTask = id →
      AnsweredAt id (wanted task) p := by
    intro α p id hid
    cases p with
    | check => exact fun _ => ⟨rfl, hid, rfl⟩
    | wait => exact ⟨⟨⟨rfl, rfl, rfl, rfl⟩, fun _ => ⟨rfl, rfl⟩⟩, fun _ _ => rfl⟩
    | work | publish | returned => trivial
  cases task with
  | sampler | processor | verifier => exact hall rfl

/-- **From every state the lab can be brought to its end.** -/
lemma run_to_end (h : Inv L s) : ∃ turns s', s.run L fir turns = .ok s' ∧
    ∀ task, overOf s' task = true := by
  induction hn : leftOf s using Nat.strong_induction_on generalizing s with
  | _ n ih =>
    by_cases hall : ∀ task, overOf s task = true
    · exact ⟨[], s, rfl, hall⟩
    · obtain ⟨task, htask⟩ := not_forall.mp hall
      obtain ⟨next, hover, hturn⟩ := exists_inTurn h (Bool.not_eq_true _ ▸ htask)
      obtain ⟨s₁, hs₁⟩ := (task_steps_iff h next).mpr ⟨hturn, answered_wanted s next⟩
      obtain ⟨turns, s', hrun, hend⟩ :=
        ih (leftOf s₁) (hn ▸ leftOf_lt h hs₁ Nat.one_ne_zero hover) (h.step hs₁) rfl
      refine ⟨(next, wanted next) :: turns, s', ?_, hend⟩
      rw [System.run, hs₁]
      exact hrun

/-! ### The idle hook -/

/-- The kernel answers the idle hook as it asks. -/
structure Awaited (answers : IdleAnswers) : Prop where
  threadUsesPsp : answers.threadUsesPsp = true
  tickCount : answers.tickCount = finalTick
  reclaimCount : answers.reclaimCount = 3
  lastReclaimedTask : answers.lastReclaimedTask = taskVerifier

/-- All tasks say that they have finished. -/
def Finished (lab : Lab) : Prop :=
  lab.samplerFinished = true ∧ lab.processorFinished = true ∧ lab.verifierFinished = true

/-- **What the idle hook finds** once the tasks have finished. -/
lemma complete_iff (h : Inv L s) (hfinished : Finished s.lab) {answers : IdleAnswers} :
    s.lab.complete false answers = .ok true ↔ Awaited answers := by
  have hsampler := eq_returned (h.sampled.finished.symm.trans hfinished.1)
  have hprocessor := eq_returned (h.processed.finished.symm.trans hfinished.2.1)
  have hverifier := eq_returned (h.verified.finished.symm.trans hfinished.2.2)
  have hgen0 : s.lab.sampledGeneration = frameCount := by
    rw [h.sampled.generation, hsampler]
    rfl
  have hgen1 : s.lab.processedGeneration = frameCount := by
    rw [h.processed.generation, hprocessor]
    rfl
  have hgen2 : s.lab.verifiedGeneration = frameCount := by
    rw [h.verified.generation, hverifier]
    rfl
  have hsums := sums_expected h (hsampler ▸ rfl) (hprocessor ▸ rfl)
  have hgo : ¬(false = true ∨ ¬(s.lab.samplerFinished ∧ s.lab.processorFinished ∧
      s.lab.verifierFinished)) := by
    rintro (hflushed | hnot)
    · cases hflushed
    · exact hnot hfinished
  rw [Lab.complete, if_neg hgo, require_bind]
  exact ⟨fun ⟨⟨h0, h1, h2, h3, _⟩, _⟩ => ⟨h0, h1, h2, h3⟩, fun ⟨h0, h1, h2, h3⟩ =>
    ⟨⟨h0, h1, h2, h3, hgen0, hgen1, hgen2, hsums.1, hsums.2⟩, rfl⟩⟩

lemma finished_of_over (h : Inv L s) (hall : ∀ task, overOf s task = true) : Finished s.lab :=
  ⟨h.sampled.finished.trans (hall .sampler), h.processed.finished.trans (hall .processor),
    h.verified.finished.trans (hall .verifier)⟩

/-- **A task panics exactly when it is out of turn**, or the kernel does not answer as it asks. In
every state of every run a task goes on if and only if it is not about to check a frame in another's
turn and is answered; once all have finished the idle hook goes on if and only if it is answered; and
the lab can be brought to that end. -/
theorem panic_iff_out_of_turn (h : (System.start L mem).run L fir turns = .ok s) :
    (∀ task answers, (∃ s', s.step L fir task answers = .ok s') ↔
      InTurn s task ∧ Answered s answers task) ∧
    (Finished s.lab → ∀ answers, s.lab.complete false answers = .ok true ↔ Awaited answers) ∧
      ∃ more s', s.run L fir more = .ok s' ∧ (∀ task, overOf s' task = true) ∧
        ∀ answers, s'.lab.complete false answers = .ok true ↔ Awaited answers := by
  have hinv := (inv_start L mem).run h
  obtain ⟨more, s', hrun, hend⟩ := run_to_end hinv
  have hlast := hinv.run hrun
  exact ⟨fun task answers => task_steps_iff hinv task,
    fun hfinished answers => complete_iff hinv hfinished,
    more, s', hrun, hend, fun answers => complete_iff hlast (finished_of_over hlast hend)⟩

/-- A layout of the arrays. -/
def sampleLayout : Layout where
  samples := 0x20000100
  coefficients := 0x08004000
  outputs := 0x20000200
  valid := ⟨by decide, by decide, by decide, by decide, by decide, by decide, by decide, by decide,
    by decide, by decide, by decide, by decide⟩
  apart := by decide

/-- Within the sampler's first frame the sampler goes on, and the processor panics. -/
theorem panic_iff_out_of_turn_inside :
    ∃ s, (System.start sampleLayout fun _ => 0).run sampleLayout (.m4 documented)
        [(.sampler, wanted .sampler), (.sampler, wanted .sampler)] = .ok s ∧
      s.sampler.inside = true ∧
      (∀ answers, ∃ s', s.step sampleLayout (.m4 documented) .sampler answers = .ok s') ∧
      (∀ answers, ¬∃ s', s.step sampleLayout (.m4 documented) .processor answers = .ok s') ∧
      ∃ more s', s.run sampleLayout (.m4 documented) more = .ok s' ∧
        s'.lab.complete false ⟨true, 21, 3, 3⟩ = .ok true := by
  obtain ⟨s, hrun, hsampler, hprocessor, hcount⟩ : ∃ s, (System.start sampleLayout fun _ => 0).run
      sampleLayout (.m4 documented) [(.sampler, wanted .sampler), (.sampler, wanted .sampler)] =
        .ok s ∧ (∃ locals, s.sampler = .work 0 locals) ∧ s.processor = .check 0 ∧
      s.lab.sampledGeneration = 0 := ⟨_, rfl, ⟨_, rfl⟩, rfl, rfl⟩
  obtain ⟨locals, hsampler⟩ := hsampler
  obtain ⟨hsteps, -, more, s', hmore, -, hhook⟩ := panic_iff_out_of_turn hrun
  refine ⟨s, hrun, congrArg Place.inside hsampler, fun answers => (hsteps .sampler answers).mpr ?_,
    fun answers hgoes => ?_, more, s', hmore, (hhook _).mpr ⟨rfl, rfl, rfl, rfl⟩⟩
  · refine ⟨fun frame hf => ?_, ?_⟩
    · rw [checkingOf, hsampler] at hf
      cases hf
    · rw [Answered, hsampler]
      trivial
  · obtain ⟨hturn, -⟩ := (hsteps .processor answers).mp hgoes
    have hturn := congrFun (hturn 0 (congrArg checking hprocessor)) 0
    rw [partyOf, count_processor] at hturn
    exact absurd (hcount.symm.trans hturn) (by decide)

/-- A run to the end, with the packed filter. -/
theorem lab_safe_to_end :
    ∃ turns s, (System.start sampleLayout fun _ => 0).run sampleLayout (.m4 documented) turns =
      .ok s ∧ s.lab.complete false ⟨true, 21, 3, 3⟩ = .ok true ∧
        ~~~s.lab.aggregateOutputState = ieeeCrc32 (bytesOf (allOutputs frameCount)) := by
  have hinv := inv_start sampleLayout fun _ => 0
  obtain ⟨turns, s, hrun, hend⟩ := @run_to_end _ (.m4 documented) _ hinv
  have hlast := hinv.run hrun
  have hfinished := finished_of_over hlast hend
  obtain ⟨-, -, -, -, hsums⟩ := lab_safe hrun
  exact ⟨turns, s, hrun, (complete_iff hlast hfinished).mpr ⟨rfl, rfl, rfl, rfl⟩,
    (hsums hfinished.1 hfinished.2.1).2⟩

end Aymos.SignalLab
