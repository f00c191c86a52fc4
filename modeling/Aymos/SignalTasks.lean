import Aymos.FirMemory
import Aymos.ResultLine

/-!
The three tasks of `apps/signal_lab/main.c`.

The sampler fills the sample buffer, the processor filters it and the verifier compares checksums.
A step is a turn of one task's loop, or one of the statements around it: the check of the
generations, the write of the task's own generation, a turn of the wait for a tick. Any task may
take the next step, and the kernel may answer what it is asked in any way.
-/

namespace Aymos.SignalTasks

open ByteMem Words Allocator Scheduler FirQ15 FirMemory Wire ResultLine

/-! ### Samples and checksums -/

/-- `lfsr_next`: the next state, which is also what it returns. -/
def lfsrNext (state : BitVec 32) : BitVec 32 :=
  let feedback := 0#32 - (state &&& 1#32)
  (state >>> 1) ^^^ (0x80200003#32 &&& feedback)

/-- `signed_sample`. -/
def signedSample (bits : ℕ) : ℤ := if bits ≤ 32767 then bits else -1 - (65535 - bits : ℕ)

/-- `crc32_q15`. -/
def crc32Q15 (state : BitVec 32) (values : List ℤ) : BitVec 32 :=
  values.foldl (fun state value =>
    let bits := toUint16 value
    crc32Byte (crc32Byte state (UInt8.ofNat bits)) (UInt8.ofNat (bits >>> 8))) state

/-- `coefficients`. -/
def coefficients : List ℤ :=
  [-128, -256, -256, 256, 1280, 3072, 5120, 7296, 7296, 5120, 3072, 1280, 256, -256, -256, -128]

/-- `expected_frame_input_crc`. -/
def expectedFrameInputCrc : List (BitVec 32) := [0x730ADC09, 0x516D1F6C, 0xB4AAC437, 0x241DBA95]

/-- `expected_frame_output_crc`. -/
def expectedFrameOutputCrc : List (BitVec 32) := [0x4C2C86C2, 0x0D108262, 0x65642ED9, 0x469B7F1A]

/-! ### What the tasks share -/

/-- Where the linker has put the arrays, apart from one another. -/
structure Layout where
  samples : ℕ
  coefficients : ℕ
  outputs : ℕ
  valid : FirAgreement.ValidCall .arm32
    ⟨samples, sampleCount, coefficients, tapCount, outputs, ResultLine.validOutputCount⟩
  apart : samples + 2 * sampleCount ≤ coefficients ∨ coefficients + 2 * tapCount ≤ samples

/-- The call of the filter. -/
def Layout.call (L : Layout) : Call :=
  ⟨L.samples, sampleCount, L.coefficients, tapCount, L.outputs, ResultLine.validOutputCount⟩

/-- The static variables. -/
structure Lab where
  mem : Mem
  frameInputCrc : ℕ → BitVec 32
  frameOutputCrc : ℕ → BitVec 32
  sampledGeneration : ℕ
  processedGeneration : ℕ
  verifiedGeneration : ℕ
  samplerFinished : Bool
  processorFinished : Bool
  verifierFinished : Bool
  lfsrState : BitVec 32
  aggregateInputState : BitVec 32
  aggregateOutputState : BitVec 32

/-- `require`. -/
def require (condition : Prop) [Decidable condition] (reason : String) : Except String Unit :=
  if condition then .ok () else .error reason

lemma require_ok {condition : Prop} [Decidable condition] {reason : String} :
    require condition reason = .ok () ↔ condition := by
  rw [require]
  split
  · next h => exact iff_of_true rfl h
  · next h => exact iff_of_false (fun h => by cases h) h

lemma bind_ok_iff {α β : Type} {x : Except String α} {f : α → Except String β} {b : β} :
    (x >>= f) = .ok b ↔ ∃ a, x = .ok a ∧ f a = .ok b := by
  cases x with
  | error e => exact iff_of_false (fun h => by cases h) fun ⟨_, h, _⟩ => by cases h
  | ok a => exact ⟨fun h => ⟨a, rfl, h⟩, fun ⟨_, ha, h⟩ => by cases ha; exact h⟩

lemma require_bind {condition : Prop} [Decidable condition] {reason : String} {β : Type}
    {f : Unit → Except String β} {b : β} :
    (require condition reason >>= f) = .ok b ↔ condition ∧ f () = .ok b := by
  rw [bind_ok_iff]
  exact ⟨fun ⟨_, hr, h⟩ => ⟨require_ok.mp hr, h⟩, fun ⟨hc, h⟩ => ⟨(), require_ok.mpr hc, h⟩⟩

/-! ### What the kernel is asked -/

def taskSampler : ℕ := 1
def taskProcessor : ℕ := 2
def taskVerifier : ℕ := 3
def finalTick : ℕ := 21

/-- What a task is handed and what the kernel answers it in one step. -/
structure Answers where
  argument : ℕ
  currentTask : ℕ
  threadUsesPsp : Bool
  /-- Of `__get_PRIMASK`, once interrupts are disabled. -/
  primask : ℕ
  infoStatus : ℤ
  jobActive : Bool
  state : TaskState
  jobExecutionTicks : ℕ
  deadlineMissCount : ℕ
  waitNextPeriod : ℤ

/-- A turn of `wait_for_one_execution_tick`, with whether it is the last one. -/
def waitForOneExecutionTick (answers : Answers) : Except String Bool := do
  require (answers.primask = 1 ∧ answers.infoStatus = 1 ∧ answers.jobActive = true ∧
    answers.state = .running) "EXECUTION_INFO"
  if answers.jobExecutionTicks = 0 then .ok false
  else do
    require (answers.jobExecutionTicks = 1 ∧ answers.deadlineMissCount = 0) "EXECUTION_TICK"
    .ok true

/-! ### Tasks -/

/-- Where a task is in its loop over the frames. -/
inductive Place (α : Type)
  | check (frame : ℕ)
  | work (frame : ℕ) (locals : α)
  | publish (frame : ℕ)
  | wait (frame : ℕ)
  | returned

section Place

variable {α : Type}

/-- The frames that a task has published. -/
def Place.count : Place α → ℕ
  | .check frame | .work frame _ | .publish frame => frame
  | .wait frame => frame + 1
  | .returned => frameCount

/-- The frames whose work is over. -/
def Place.done : Place α → ℕ
  | .check frame | .work frame _ => frame
  | .publish frame | .wait frame => frame + 1
  | .returned => frameCount

/-- Between the check of a frame and its publication. -/
def Place.inside : Place α → Bool
  | .work _ _ | .publish _ => true
  | .check _ | .wait _ | .returned => false

def Place.over : Place α → Bool
  | .returned => true
  | .check _ | .work _ _ | .publish _ | .wait _ => false

/-- The frame is one of the loop's. -/
def Place.Within : Place α → Prop
  | .check frame | .work frame _ | .publish frame | .wait frame => frame < frameCount
  | .returned => True

end Place

/-- What is a task's own in the loop that the three tasks have in common. -/
structure Body (α : Type) where
  task : ℕ
  /-- The reason of the panic before the loop. -/
  start : String
  /-- The check of the generations. -/
  check : ℕ → Lab → Except String Unit
  init : α
  /-- A turn of the inner loop, with no locals where it ends. -/
  work : ℕ → α → Lab → Except String (Option α × Lab)
  publish : ℕ → Lab → Lab
  /-- What comes before the return. -/
  finish : Lab → Except String Lab
  /-- The reason of the panic where the next period is not waited for. -/
  wait : String
  /-- The reason of the panic after the loop. -/
  loop : String

/-- What comes before the loop. -/
def Body.enter {α : Type} (b : Body α) (answers : Answers) (frame : ℕ) : Except String Unit :=
  if frame = 0 then
    require (answers.argument = 0 ∧ answers.currentTask = b.task ∧ answers.threadUsesPsp = true)
      b.start
  else .ok ()

/-- A step of a task. -/
def Body.step {α : Type} (b : Body α) (answers : Answers) :
    Place α → Lab → Except String (Place α × Lab)
  | .check frame, lab =>
    if frame < frameCount then do
      b.enter answers frame
      b.check frame lab
      .ok (.work frame b.init, lab)
    else .error b.loop
  | .work frame locals, lab => do
    match ← b.work frame locals lab with
    | (some locals, lab) => .ok (.work frame locals, lab)
    | (none, lab) => .ok (.publish frame, lab)
  | .publish frame, lab => .ok (.wait frame, b.publish frame lab)
  | .wait frame, lab => do
    if ← waitForOneExecutionTick answers then
      if frame + 1 = frameCount then do
        let lab ← b.finish lab
        .ok (.returned, lab)
      else do
        require (answers.waitNextPeriod = 1) b.wait
        .ok (.check (frame + 1), lab)
    else .ok (.wait frame, lab)
  | .returned, lab => .ok (.returned, lab)

/-- The locals of the sampler's inner loop. -/
structure SamplerLocals where
  index : ℕ
  frameState : BitVec 32

/-- `sampler_task`. -/
def samplerTask (L : Layout) : Body SamplerLocals where
  task := taskSampler
  start := "SAMPLER_START"
  check frame lab := require (lab.sampledGeneration = frame ∧ lab.processedGeneration = frame ∧
    lab.verifiedGeneration = frame) "SAMPLER_GENERATION"
  init := ⟨0, 0xFFFFFFFF#32⟩
  work frame locals lab :=
    if locals.index < sampleCount then
      let state := lfsrNext lab.lfsrState
      let mem := store lab.mem (L.samples + 2 * locals.index) 2
        (toUint16 (signedSample (u16 state.toNat)))
      let sample := at16 mem L.samples locals.index
      .ok (some ⟨locals.index + 1, crc32Q15 locals.frameState [sample]⟩,
        { lab with
          mem
          lfsrState := state
          aggregateInputState := crc32Q15 lab.aggregateInputState [sample] })
    else
      .ok (none,
        { lab with
          frameInputCrc := Function.update lab.frameInputCrc frame (~~~locals.frameState) })
  publish frame lab := { lab with sampledGeneration := frame + 1 }
  finish lab := .ok { lab with samplerFinished := true }
  wait := "SAMPLER_WAIT"
  loop := "SAMPLER_LOOP"

/-- Where the processor is in its frame. -/
inductive ProcessorLocals
  | call
  | filter (sampleIndex : ℕ)
  | checksum

/-- The outputs as they are in memory. -/
def outputsIn (L : Layout) (mem : Mem) : List ℤ :=
  (List.range ResultLine.validOutputCount).map (at16 mem L.outputs)

/-- `processor_task`. A step of the filter that has no result in the source ends the run. -/
def processorTask (L : Layout) (fir : Fir) : Body ProcessorLocals where
  task := taskProcessor
  start := "PROCESSOR_START"
  check frame lab := require (lab.sampledGeneration = frame + 1 ∧ lab.processedGeneration = frame ∧
    lab.verifiedGeneration = frame) "PROCESSOR_GENERATION"
  init := .call
  work frame locals lab :=
    match locals with
    | .call => do
      require (validate .arm32 L.call = .ok) "FIR"
      .ok (some (.filter 0), lab)
    | .filter sampleIndex =>
      if sampleIndex < FirQ15.validOutputCount sampleCount tapCount then
        match fir.filter L.call lab.mem sampleIndex with
        | none => .error "undefined"
        | some value =>
          .ok (some (.filter (sampleIndex + 1)),
            { lab with mem := store lab.mem (L.outputs + 2 * sampleIndex) 2 (toUint16 value) })
      else .ok (some .checksum, lab)
    | .checksum =>
      let outputs := outputsIn L lab.mem
      .ok (none,
        { lab with
          aggregateOutputState := crc32Q15 lab.aggregateOutputState outputs
          frameOutputCrc :=
            Function.update lab.frameOutputCrc frame (~~~crc32Q15 0xFFFFFFFF#32 outputs) })
  publish frame lab := { lab with processedGeneration := frame + 1 }
  finish lab := .ok { lab with processorFinished := true }
  wait := "PROCESSOR_WAIT"
  loop := "PROCESSOR_LOOP"

/-- `verifier_task`. -/
def verifierTask : Body Unit where
  task := taskVerifier
  start := "VERIFIER_START"
  check frame lab := require (lab.sampledGeneration = frame + 1 ∧
    lab.processedGeneration = frame + 1 ∧ lab.verifiedGeneration = frame ∧
    lab.frameInputCrc frame = expectedFrameInputCrc.getD frame 0 ∧
    lab.frameOutputCrc frame = expectedFrameOutputCrc.getD frame 0) "VERIFY_FRAME"
  init := ()
  work _ _ lab := .ok (none, lab)
  publish frame lab := { lab with verifiedGeneration := frame + 1 }
  finish lab := do
    require ((~~~lab.aggregateInputState).toNat = expectedInputCrc ∧
      (~~~lab.aggregateOutputState).toNat = expectedOutputCrc) "VERIFY_AGGREGATE"
    .ok { lab with verifierFinished := true }
  wait := "VERIFIER_WAIT"
  loop := "VERIFIER_LOOP"

/-! ### The lab -/

inductive Task
  | sampler
  | processor
  | verifier
  deriving DecidableEq

/-- The static variables, and where the tasks are. -/
structure System where
  lab : Lab
  sampler : Place SamplerLocals
  processor : Place ProcessorLocals
  verifier : Place Unit

/-- The lab before its first step, over the memory that the startup code has left. -/
def System.start (L : Layout) (mem : Mem) : System where
  lab :=
    { mem := FirAgreement.written mem L.coefficients (fun i => coefficients.getD i 0) tapCount
      frameInputCrc := fun _ => 0
      frameOutputCrc := fun _ => 0
      sampledGeneration := 0
      processedGeneration := 0
      verifiedGeneration := 0
      samplerFinished := false
      processorFinished := false
      verifierFinished := false
      lfsrState := BitVec.ofNat 32 signalSeed
      aggregateInputState := 0xFFFFFFFF#32
      aggregateOutputState := 0xFFFFFFFF#32 }
  sampler := .check 0
  processor := .check 0
  verifier := .check 0

/-- A step of the lab. -/
def System.step (L : Layout) (fir : Fir) (task : Task) (answers : Answers) (s : System) :
    Except String System :=
  match task with
  | .sampler => do
    let (sampler, lab) ← (samplerTask L).step answers s.sampler s.lab
    .ok { s with sampler, lab }
  | .processor => do
    let (processor, lab) ← (processorTask L fir).step answers s.processor s.lab
    .ok { s with processor, lab }
  | .verifier => do
    let (verifier, lab) ← verifierTask.step answers s.verifier s.lab
    .ok { s with verifier, lab }

/-- A run in which the tasks take their steps in some order. -/
def System.run (L : Layout) (fir : Fir) : List (Task × Answers) → System → Except String System
  | [], s => .ok s
  | (task, answers) :: turns, s => do System.run L fir turns (← s.step L fir task answers)

/-- What the kernel answers the idle hook. -/
structure IdleAnswers where
  threadUsesPsp : Bool
  tickCount : ℕ
  reclaimCount : ℕ
  lastReclaimedTask : ℕ

/-- What `board_lifecycle_idle_hook` requires before it sends the trace, and whether it gets so far. -/
def Lab.complete (traceFlushed : Bool) (answers : IdleAnswers) (lab : Lab) : Except String Bool :=
  if traceFlushed = true ∨
      ¬(lab.samplerFinished ∧ lab.processorFinished ∧ lab.verifierFinished) then
    .ok false
  else do
    require (answers.threadUsesPsp = true ∧ answers.tickCount = finalTick ∧
      answers.reclaimCount = 3 ∧ answers.lastReclaimedTask = taskVerifier ∧
      lab.sampledGeneration = frameCount ∧ lab.processedGeneration = frameCount ∧
      lab.verifiedGeneration = frameCount ∧
      (~~~lab.aggregateInputState).toNat = expectedInputCrc ∧
      (~~~lab.aggregateOutputState).toNat = expectedOutputCrc) "LAB_COMPLETE"
    .ok true

end Aymos.SignalTasks
