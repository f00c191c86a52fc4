import Aymos.SignalTasks
import Aymos.Turns

/-!
Runs of the signal lab.

The generations make the three tasks take turns, so that the processor reads the samples of one
frame and the verifier compares the checksums of that frame, in whatever order the tasks are
dispatched. A task panics exactly when it is dispatched out of turn.
-/

namespace Aymos.SignalRun

open ByteMem Words Allocator FirQ15 FirAgreement FirMemory Wire ResultLine SignalTasks Turns

/-! ### What the tasks compute -/

/-- The state of the generator after some samples. -/
def stateAfter (n : ℕ) : BitVec 32 := lfsrNext^[n] (BitVec.ofNat 32 signalSeed)

/-- A sample of the stream. -/
def sample (n : ℕ) : ℤ := signedSample (u16 (stateAfter (n + 1)).toNat)

/-- A sample of a frame. -/
def frameSample (frame i : ℕ) : ℤ := sample (sampleCount * frame + i)

/-- An output of a frame: the dot product over 32768, cut to 16 bits. -/
def frameOutput (frame k : ℕ) : ℤ :=
  max (-2 ^ 15) (min ((dot (fun i => frameSample frame (k + i)) (fun i => coefficients.getD i 0)
    tapCount).tdiv 32768) (2 ^ 15 - 1))

def frameSamples (frame : ℕ) : List ℤ := (List.range sampleCount).map (frameSample frame)

def frameOutputs (frame : ℕ) : List ℤ :=
  (List.range ResultLine.validOutputCount).map (frameOutput frame)

/-- The samples of the first frames. -/
def allSamples (frames : ℕ) : List ℤ := (List.range frames).flatMap frameSamples

/-- The outputs of the first frames. -/
def allOutputs (frames : ℕ) : List ℤ := (List.range frames).flatMap frameOutputs

/-- Numbers in memory order. -/
def bytesOf (values : List ℤ) : List UInt8 := values.flatMap fun value => putU16 (toUint16 value)

lemma crc32Q15_append (state : BitVec 32) (values values' : List ℤ) :
    crc32Q15 state (values ++ values') = crc32Q15 (crc32Q15 state values) values' :=
  List.foldl_append

/-- **The checksum of numbers** is that of their bytes. -/
lemma crc32Q15_bytes (values : List ℤ) :
    ~~~crc32Q15 0xFFFFFFFF#32 values = crc32 (bytesOf values) := by
  rw [crc32, bytesOf, List.foldl_flatMap]
  rfl

lemma stateAfter_succ (n : ℕ) : stateAfter (n + 1) = lfsrNext (stateAfter n) :=
  Function.iterate_succ_apply' _ _ _

lemma signedSample_eq {bits : ℕ} (h : bits < 2 ^ 16) : signedSample bits = toInt16 bits :=
  signedLane_eq h

lemma sample_narrow (n : ℕ) : Narrow (sample n) := by
  have hbits : u16 (stateAfter (n + 1)).toNat < 2 ^ 16 := Nat.mod_lt _ (by decide)
  rw [sample, signedSample_eq hbits]
  exact toInt16_narrow _

lemma frameOutput_narrow (frame k : ℕ) : Narrow (frameOutput frame k) := by
  unfold Narrow frameOutput
  omega

/-- What has been stored is read back. -/
lemma at16_store {m : Mem} {array i : ℕ} {z : ℤ} (hz : Narrow z) :
    at16 (store m (array + 2 * i) 2 (toUint16 z)) array i = z := by
  have hbits : toUint16 z % 256 ^ 2 = toUint16 z := Nat.mod_eq_of_lt (toUint16_lt z)
  rw [at16, readInt16, load_store_self, hbits, toInt16_toUint16, toInt16_eq hz]

/-- A store elsewhere is not seen. -/
lemma at16_store_apart {m : Mem} {array i a v : ℕ}
    (h : a + 2 ≤ array + 2 * i ∨ array + 2 * i + 2 ≤ a) :
    at16 (store m a 2 v) array i = at16 m array i :=
  at16_congr fun x hx hx' => store_apply_of_notMem (by omega)

/-! ### Steps of a task -/

section Moves

variable {α : Type} {b : Body α} {p p' : Place α} {lab lab' : Lab}

/-- What a step of a task is. -/
inductive Moves (b : Body α) : Place α → Lab → Place α → Lab → Prop
  | enter {frame : ℕ} {lab : Lab} (hf : frame < frameCount) (h : b.check frame lab = .ok ()) :
    Moves b (.check frame) lab (.work frame b.init) lab
  | turn {frame : ℕ} {l l' : α} {lab lab' : Lab} (h : b.work frame l lab = .ok (some l', lab')) :
    Moves b (.work frame l) lab (.work frame l') lab'
  | leave {frame : ℕ} {l : α} {lab lab' : Lab} (h : b.work frame l lab = .ok (none, lab')) :
    Moves b (.work frame l) lab (.publish frame) lab'
  | publish {frame : ℕ} {lab : Lab} :
    Moves b (.publish frame) lab (.wait frame) (b.publish frame lab)
  | spin {frame : ℕ} {lab : Lab} : Moves b (.wait frame) lab (.wait frame) lab
  | again {frame : ℕ} {lab : Lab} (hf : frame + 1 ≠ frameCount) :
    Moves b (.wait frame) lab (.check (frame + 1)) lab
  | finish {frame : ℕ} {lab lab' : Lab} (hf : frame + 1 = frameCount)
    (h : b.finish lab = .ok lab') :
    Moves b (.wait frame) lab .returned lab'
  | rest {lab : Lab} : Moves b .returned lab .returned lab

lemma step_moves {answers : Answers} (h : b.step answers p lab = .ok (p', lab')) :
    Moves b p lab p' lab' := by
  cases p with
  | check frame =>
    rw [Body.step] at h
    split at h
    · next hf =>
      obtain ⟨-, -, h⟩ := bind_ok_iff.mp h
      obtain ⟨_, hc, h⟩ := bind_ok_iff.mp h
      obtain ⟨rfl, rfl⟩ := Prod.mk.inj (Except.ok.inj h)
      exact .enter hf hc
    · cases h
  | work frame l =>
    rw [Body.step] at h
    obtain ⟨⟨next, lab₁⟩, hw, h⟩ := bind_ok_iff.mp h
    cases next with
    | none =>
      obtain ⟨rfl, rfl⟩ := Prod.mk.inj (Except.ok.inj h)
      exact .leave hw
    | some l' =>
      obtain ⟨rfl, rfl⟩ := Prod.mk.inj (Except.ok.inj h)
      exact .turn hw
  | publish frame =>
    obtain ⟨rfl, rfl⟩ := Prod.mk.inj (Except.ok.inj h)
    exact .publish
  | wait frame =>
    rw [Body.step] at h
    obtain ⟨last, -, h⟩ := bind_ok_iff.mp h
    cases last with
    | false =>
      obtain ⟨rfl, rfl⟩ := Prod.mk.inj (Except.ok.inj h)
      exact .spin
    | true =>
      rw [if_pos rfl] at h
      split at h
      · next hf =>
        obtain ⟨lab₁, hl, h⟩ := bind_ok_iff.mp h
        obtain ⟨rfl, rfl⟩ := Prod.mk.inj (Except.ok.inj h)
        exact .finish hf hl
      · next hf =>
        obtain ⟨-, -, h⟩ := bind_ok_iff.mp h
        obtain ⟨rfl, rfl⟩ := Prod.mk.inj (Except.ok.inj h)
        exact .again hf
  | returned =>
    obtain ⟨rfl, rfl⟩ := Prod.mk.inj (Except.ok.inj h)
    exact .rest

lemma Moves.within (h : Moves b p lab p' lab') (hp : p.Within) : p'.Within := by
  cases h with
  | enter hf => exact hf
  | turn | leave | publish | spin => exact hp
  | again hf => exact lt_of_le_of_ne (Nat.succ_le_of_lt hp) hf
  | finish | rest => exact trivial

/-- **A task moves as the turns do**, if its check is about them. -/
lemma Moves.ordered {n : ℕ} {count : Fin n → ℕ} {inside : Fin n → Bool} {i : Fin n}
    (h : Moves b p lab p' lab') (ho : Ordered ⟨count, inside⟩) (hcount : count i = p.count)
    (hinside : inside i = p.inside)
    (hcheck : ∀ frame, b.check frame lab = .ok () → count = Turn.count ⟨frame, i⟩) :
    Ordered ⟨Function.update count i p'.count, Function.update inside i p'.inside⟩ := by
  have hsame : ∀ {p' : Place α}, p'.count = p.count → p'.inside = p.inside →
      Ordered ⟨Function.update count i p'.count, Function.update inside i p'.inside⟩ := by
    intro p' hc hi
    rw [hc, hi, ← hcount, ← hinside, Function.update_eq_self, Function.update_eq_self]
    exact ho
  cases h with
  | @enter frame _ hf h =>
    have hc := Step.enter ⟨frame, i⟩ (s := ⟨count, inside⟩) (hcheck frame h)
    have hsame' : (Place.work frame b.init).count = count i := hcount.symm
    rw [hsame', Function.update_eq_self]
    exact hc.ordered ho
  | turn | leave | spin | rest => exact hsame rfl rfl
  | @publish frame =>
    have hl := Step.leave i (s := ⟨count, inside⟩) hinside
    have hnext : (Place.wait frame : Place α).count = count i + 1 := by
      rw [hcount]
      rfl
    rw [hnext]
    exact hl.ordered ho
  | again => exact hsame rfl rfl
  | finish hf => exact hsame hf.symm rfl

end Moves

/-! ### The sampler -/

variable {L : Layout} {lab lab' : Lab}

/-- The samples that the sampler has drawn. -/
def drawn : Place SamplerLocals → ℕ
  | .work frame l => sampleCount * frame + l.index
  | p => sampleCount * p.done

/-- The buffer holds the first samples of a frame. -/
def Holds (L : Layout) (mem : Mem) (frame n : ℕ) : Prop :=
  ∀ i < n, at16 mem L.samples i = frameSample frame i

/-- What the sampler keeps in its buffer and in its locals. -/
def SamplerBuffer (L : Layout) (mem : Mem) : Place SamplerLocals → Prop
  | .work frame l => l.index ≤ sampleCount ∧
    l.frameState = crc32Q15 0xFFFFFFFF#32 ((List.range l.index).map (frameSample frame)) ∧
      Holds L mem frame l.index
  | p => ∀ frame, p.done = frame + 1 → Holds L mem frame sampleCount

/-- **What the sampler keeps.** -/
structure Sampled (L : Layout) (p : Place SamplerLocals) (lab : Lab) : Prop where
  lfsr : lab.lfsrState = stateAfter (drawn p)
  aggregate : lab.aggregateInputState =
    crc32Q15 0xFFFFFFFF#32 ((List.range (drawn p)).map sample)
  crc : ∀ frame < p.done, lab.frameInputCrc frame = crc32 (bytesOf (frameSamples frame))
  buffer : SamplerBuffer L lab.mem p
  generation : lab.sampledGeneration = p.count
  finished : lab.samplerFinished = p.over

/-- The sampler's variables are as they were. -/
structure SamplerSame (L : Layout) (lab lab' : Lab) : Prop where
  lfsr : lab'.lfsrState = lab.lfsrState
  aggregate : lab'.aggregateInputState = lab.aggregateInputState
  crc : lab'.frameInputCrc = lab.frameInputCrc
  buffer : ∀ i < sampleCount, at16 lab'.mem L.samples i = at16 lab.mem L.samples i
  generation : lab'.sampledGeneration = lab.sampledGeneration
  finished : lab'.samplerFinished = lab.samplerFinished

lemma SamplerSame.refl (lab : Lab) : SamplerSame L lab lab :=
  ⟨rfl, rfl, rfl, fun _ _ => rfl, rfl, rfl⟩

lemma Holds.congr {mem mem' : Mem} {frame n : ℕ} (h : Holds L mem frame n) (hn : n ≤ sampleCount)
    (hsame : ∀ i < sampleCount, at16 mem' L.samples i = at16 mem L.samples i) :
    Holds L mem' frame n := fun i hi => (hsame i (hi.trans_le hn)).trans (h i hi)

/-- What the other tasks do does not concern the sampler. -/
lemma Sampled.congr {p : Place SamplerLocals} (h : Sampled L p lab)
    (hs : SamplerSame L lab lab') : Sampled L p lab' := by
  refine ⟨hs.lfsr ▸ h.lfsr, hs.aggregate ▸ h.aggregate, hs.crc ▸ h.crc, ?_,
    hs.generation ▸ h.generation, hs.finished ▸ h.finished⟩
  have hb := h.buffer
  cases p with
  | work frame l => exact ⟨hb.1, hb.2.1, hb.2.2.congr hb.1 hs.buffer⟩
  | check | publish | wait | returned => exact fun f hf => (hb f hf).congr le_rfl hs.buffer

/-- **The sampler's step.** -/
lemma Moves.sampled {p p' : Place SamplerLocals} (h : Moves (samplerTask L) p lab p' lab')
    (hs : Sampled L p lab) : Sampled L p' lab' := by
  cases h with
  | @enter frame _ hf _ =>
    refine ⟨hs.lfsr, hs.aggregate, hs.crc, ⟨Nat.zero_le _, rfl, fun i hi => ?_⟩, hs.generation,
      hs.finished⟩
    exact absurd hi (Nat.not_lt_zero i)
  | @turn frame l l' _ _ h =>
    obtain ⟨hle, hstate, hholds⟩ := hs.buffer
    simp only [samplerTask] at h
    split at h
    · next hlt =>
      obtain ⟨hl', rfl⟩ := Prod.mk.inj (Except.ok.inj h)
      obtain rfl := Option.some.inj hl'
      -- The sample that is stored is the next one of the stream, and is read back.
      have hnext : lfsrNext lab.lfsrState = stateAfter (sampleCount * frame + l.index + 1) := by
        rw [stateAfter_succ, hs.lfsr, drawn]
      have hvalue : signedSample (u16 (lfsrNext lab.lfsrState).toNat) =
          frameSample frame l.index := by
        rw [hnext, frameSample, sample]
      have hread := @at16_store lab.mem L.samples l.index _
        (sample_narrow (sampleCount * frame + l.index))
      rw [← frameSample] at hread
      refine ⟨hnext, ?_, hs.crc, ⟨hlt, ?_, fun i hi => ?_⟩, hs.generation, hs.finished⟩
      · dsimp only
        rw [hvalue, hread, hs.aggregate, drawn, drawn, ← Nat.add_assoc, List.range_succ,
          List.map_append, crc32Q15_append]
        rfl
      · dsimp only
        rw [hvalue, hread, hstate, List.range_succ, List.map_append, crc32Q15_append]
        rfl
      · dsimp only at hi ⊢
        rw [hvalue]
        rcases Nat.lt_succ_iff_lt_or_eq.mp hi with hi | rfl
        · rw [at16_store_apart (by omega), hholds i hi]
        · exact hread
    · cases (Prod.mk.inj (Except.ok.inj h)).1
  | @leave frame l _ _ h =>
    obtain ⟨hle, hstate, hholds⟩ := hs.buffer
    simp only [samplerTask] at h
    split at h
    · cases (Prod.mk.inj (Except.ok.inj h)).1
    · next hlt =>
      obtain rfl := (Prod.mk.inj (Except.ok.inj h)).2
      have hend : l.index = sampleCount := le_antisymm hle (not_lt.mp hlt)
      have hdrawn : drawn (.publish frame) = drawn (.work frame l) := by
        rw [drawn, hend]
        rfl
      refine ⟨hdrawn ▸ hs.lfsr, hdrawn ▸ hs.aggregate, fun f hf => ?_, fun f hf => ?_,
        hs.generation, hs.finished⟩
      · dsimp only
        rcases Nat.lt_succ_iff_lt_or_eq.mp hf with hf | rfl
        · rw [Function.update_of_ne hf.ne]
          exact hs.crc f hf
        · rw [Function.update_self, hstate, hend, crc32Q15_bytes]
          rfl
      · obtain rfl : f = frame := (Nat.succ.inj hf).symm
        rw [hend] at hholds
        exact hholds
  | publish => exact ⟨hs.lfsr, hs.aggregate, hs.crc, hs.buffer, rfl, hs.finished⟩
  | again => exact ⟨hs.lfsr, hs.aggregate, hs.crc, hs.buffer, hs.generation, hs.finished⟩
  | @finish frame _ _ hf h =>
    obtain rfl := Except.ok.inj h
    have hdone : (Place.returned : Place SamplerLocals).done =
        (Place.wait frame : Place SamplerLocals).done := hf.symm
    have hdrawn : drawn .returned = drawn (.wait frame) := congrArg (sampleCount * ·) hdone
    exact ⟨hdrawn ▸ hs.lfsr, hdrawn ▸ hs.aggregate, hdone ▸ hs.crc,
      fun f hf' => hs.buffer f (hdone ▸ hf'), hs.generation.trans hdone.symm, rfl⟩
  | spin | rest => exact hs

/-! ### The processor -/

variable {fir : Fir}

/-- What the processor keeps in its buffer. -/
def ProcessorBuffer (L : Layout) (mem : Mem) : Place ProcessorLocals → Prop
  | .work frame (.filter k) => k ≤ ResultLine.validOutputCount ∧
    ∀ i < k, at16 mem L.outputs i = frameOutput frame i
  | .work frame .checksum =>
    ∀ i < ResultLine.validOutputCount, at16 mem L.outputs i = frameOutput frame i
  | _ => True

/-- **What the processor keeps.** -/
structure Processed (L : Layout) (p : Place ProcessorLocals) (lab : Lab) : Prop where
  aggregate : lab.aggregateOutputState = crc32Q15 0xFFFFFFFF#32 (allOutputs p.done)
  crc : ∀ frame < p.done, lab.frameOutputCrc frame = crc32 (bytesOf (frameOutputs frame))
  buffer : ProcessorBuffer L lab.mem p
  generation : lab.processedGeneration = p.count
  finished : lab.processorFinished = p.over

/-- The processor's variables are as they were. -/
structure ProcessorSame (L : Layout) (lab lab' : Lab) : Prop where
  aggregate : lab'.aggregateOutputState = lab.aggregateOutputState
  crc : lab'.frameOutputCrc = lab.frameOutputCrc
  buffer : ∀ i < ResultLine.validOutputCount, at16 lab'.mem L.outputs i = at16 lab.mem L.outputs i
  generation : lab'.processedGeneration = lab.processedGeneration
  finished : lab'.processorFinished = lab.processorFinished

lemma ProcessorSame.refl (lab : Lab) : ProcessorSame L lab lab :=
  ⟨rfl, rfl, fun _ _ => rfl, rfl, rfl⟩

/-- What the other tasks do does not concern the processor. -/
lemma Processed.congr {p : Place ProcessorLocals} (h : Processed L p lab)
    (hs : ProcessorSame L lab lab') : Processed L p lab' := by
  refine ⟨hs.aggregate ▸ h.aggregate, hs.crc ▸ h.crc, ?_, hs.generation ▸ h.generation,
    hs.finished ▸ h.finished⟩
  have hb := h.buffer
  cases p with
  | work frame l =>
    cases l with
    | call => trivial
    | filter k => exact ⟨hb.1, fun i hi => (hs.buffer i (hi.trans_le hb.1)).trans (hb.2 i hi)⟩
    | checksum => exact fun i hi => (hs.buffer i hi).trans (hb i hi)
  | check | publish | wait | returned => trivial

/-- The coefficients are in their place. -/
def CoefficientsIn (L : Layout) (mem : Mem) : Prop :=
  ∀ i < tapCount, at16 mem L.coefficients i = coefficients.getD i 0

/-- **An output of a frame that is in the buffer.** -/
lemma outputValue_frame {mem : Mem} {frame k : ℕ} (hc : CoefficientsIn L mem)
    (hh : Holds L mem frame sampleCount) (hk : k < ResultLine.validOutputCount) :
    outputValue L.call mem k = frameOutput frame k := by
  have hsum : partialSum L.call mem k L.call.tapCount =
      dot (fun i => frameSample frame (k + i)) (fun i => coefficients.getD i 0) tapCount := by
    rw [partialSum, dot, dot]
    have htaps : L.call.tapCount = tapCount := rfl
    rw [htaps]
    refine Finset.sum_congr rfl fun i hi => ?_
    have hi : i < tapCount := Finset.mem_range.mp hi
    have hcount : ResultLine.validOutputCount + tapCount = sampleCount + 1 := rfl
    have hsample : window L.call mem k i = frameSample frame (k + i) := hh (k + i) (by omega)
    have hcoefficient : at16 mem L.call.coefficients i = coefficients.getD i 0 := hc i hi
    simp only [hsample, hcoefficient]
  rw [outputValue, hsum, frameOutput]

lemma allOutputs_succ (frames : ℕ) :
    allOutputs (frames + 1) = allOutputs frames ++ frameOutputs frames := by
  rw [allOutputs, List.range_succ, List.flatMap_append, List.flatMap_singleton, allOutputs]

lemma work_call {frame : ℕ} : (processorTask L fir).work frame .call lab =
    .ok (some (.filter 0), lab) := by
  have hvalid : validate .arm32 L.call = .ok := L.valid.validate
  simp only [processorTask, require, hvalid, if_true]
  rfl

lemma work_filter {frame k : ℕ} (hk : k < ResultLine.validOutputCount) :
    (processorTask L fir).work frame (.filter k) lab = .ok (some (.filter (k + 1)),
      { lab with
        mem := store lab.mem (L.outputs + 2 * k) 2
          (toUint16 (outputValue L.call lab.mem k)) }) := by
  have hcount : FirQ15.validOutputCount sampleCount tapCount = ResultLine.validOutputCount := rfl
  have hfilter : fir.filter L.call lab.mem k = some (outputValue L.call lab.mem k) :=
    filter_eq fir L.valid.taps lab.mem k
  simp only [processorTask, hcount, hfilter, if_pos hk]

lemma work_filter_end {frame k : ℕ} (hk : ¬k < ResultLine.validOutputCount) :
    (processorTask L fir).work frame (.filter k) lab = .ok (some .checksum, lab) := by
  have hcount : FirQ15.validOutputCount sampleCount tapCount = ResultLine.validOutputCount := rfl
  simp only [processorTask, hcount, if_neg hk]

/-- **The processor's step**, while the buffer holds the samples of its frame. -/
lemma Moves.processed {p p' : Place ProcessorLocals}
    (h : Moves (processorTask L fir) p lab p' lab') (hs : Processed L p lab)
    (hc : CoefficientsIn L lab.mem)
    (hh : ∀ frame l, p = .work frame l → Holds L lab.mem frame sampleCount) :
    Processed L p' lab' := by
  cases h with
  | enter => exact ⟨hs.aggregate, hs.crc, trivial, hs.generation, hs.finished⟩
  | @turn frame l l' _ _ h =>
    have hb := hs.buffer
    cases l with
    | call =>
      obtain ⟨hl', rfl⟩ := Prod.mk.inj (Except.ok.inj (work_call.symm.trans h))
      obtain rfl := Option.some.inj hl'
      exact ⟨hs.aggregate, hs.crc, ⟨Nat.zero_le _, fun i hi => absurd hi (Nat.not_lt_zero i)⟩,
        hs.generation, hs.finished⟩
    | filter k =>
      by_cases hlt : k < ResultLine.validOutputCount
      · obtain ⟨hl', rfl⟩ := Prod.mk.inj (Except.ok.inj ((work_filter hlt).symm.trans h))
        obtain rfl := Option.some.inj hl'
        rw [outputValue_frame hc (hh frame _ rfl) hlt]
        refine ⟨hs.aggregate, hs.crc, ⟨hlt, fun i hi => ?_⟩, hs.generation, hs.finished⟩
        dsimp only
        rcases Nat.lt_succ_iff_lt_or_eq.mp hi with hi | rfl
        · rw [at16_store_apart (by omega), hb.2 i hi]
        · exact at16_store (frameOutput_narrow frame i)
      · obtain ⟨hl', rfl⟩ := Prod.mk.inj (Except.ok.inj ((work_filter_end hlt).symm.trans h))
        obtain rfl := Option.some.inj hl'
        exact ⟨hs.aggregate, hs.crc, fun i hi => hb.2 i (hi.trans_le (not_lt.mp hlt)),
          hs.generation, hs.finished⟩
    | checksum => cases (Prod.mk.inj (Except.ok.inj h)).1
  | @leave frame l _ _ h =>
    have hb := hs.buffer
    cases l with
    | call => cases (Prod.mk.inj (Except.ok.inj (work_call.symm.trans h))).1
    | filter k =>
      by_cases hlt : k < ResultLine.validOutputCount
      · cases (Prod.mk.inj (Except.ok.inj ((work_filter hlt).symm.trans h))).1
      · cases (Prod.mk.inj (Except.ok.inj ((work_filter_end hlt).symm.trans h))).1
    | checksum =>
      obtain rfl := (Prod.mk.inj (Except.ok.inj h)).2
      have houtputs : outputsIn L lab.mem = frameOutputs frame :=
        List.map_congr_left fun i hi => hb i (List.mem_range.mp hi)
      refine ⟨?_, fun f hf => ?_, trivial, hs.generation, hs.finished⟩
      · dsimp only
        rw [houtputs, hs.aggregate]
        exact (crc32Q15_append _ _ _).symm.trans (congrArg _ (allOutputs_succ frame).symm)
      · dsimp only
        rcases Nat.lt_succ_iff_lt_or_eq.mp hf with hf | rfl
        · rw [Function.update_of_ne hf.ne]
          exact hs.crc f hf
        · rw [Function.update_self, houtputs, crc32Q15_bytes]
  | publish => exact ⟨hs.aggregate, hs.crc, trivial, rfl, hs.finished⟩
  | again => exact ⟨hs.aggregate, hs.crc, trivial, hs.generation, hs.finished⟩
  | @finish frame _ _ hf h =>
    obtain rfl := Except.ok.inj h
    have hdone : (Place.returned : Place ProcessorLocals).done =
        (Place.wait frame : Place ProcessorLocals).done := hf.symm
    exact ⟨hdone ▸ hs.aggregate, hdone ▸ hs.crc, trivial, hs.generation.trans hdone.symm, rfl⟩
  | spin | rest => exact hs

/-! ### What a task leaves alone -/

/-- What the verifier keeps. -/
structure Verified (p : Place Unit) (lab : Lab) : Prop where
  generation : lab.verifiedGeneration = p.count
  finished : lab.verifierFinished = p.over

structure VerifierSame (lab lab' : Lab) : Prop where
  generation : lab'.verifiedGeneration = lab.verifiedGeneration
  finished : lab'.verifierFinished = lab.verifierFinished

lemma Verified.congr {p : Place Unit} (h : Verified p lab) (hs : VerifierSame lab lab') :
    Verified p lab' := ⟨hs.generation ▸ h.generation, hs.finished ▸ h.finished⟩

/-- Memory after a store into the buffer of samples. -/
lemma store_sample {m : Mem} {i v : ℕ} (hi : i < sampleCount) :
    (∀ k < ResultLine.validOutputCount,
      at16 (store m (L.samples + 2 * i) 2 v) L.outputs k = at16 m L.outputs k) ∧
      (CoefficientsIn L m → CoefficientsIn L (store m (L.samples + 2 * i) 2 v)) := by
  have hapart := L.valid.apartSamples
  have hapart' := L.apart
  have hcount : sampleCount - tapCount + 1 = ResultLine.validOutputCount := rfl
  dsimp only at hapart
  rw [hcount] at hapart
  refine ⟨fun k hk => at16_store_apart (by omega), fun hc k hk => ?_⟩
  rw [at16_store_apart (by omega)]
  exact hc k hk

/-- Memory after a store into the buffer of outputs. -/
lemma store_output {m : Mem} {i v : ℕ} (hi : i < ResultLine.validOutputCount) :
    (∀ k < sampleCount,
      at16 (store m (L.outputs + 2 * i) 2 v) L.samples k = at16 m L.samples k) ∧
      (CoefficientsIn L m → CoefficientsIn L (store m (L.outputs + 2 * i) 2 v)) := by
  have hapart := L.valid.apartSamples
  have hapart' := L.valid.apartCoefficients
  have hcount : sampleCount - tapCount + 1 = ResultLine.validOutputCount := rfl
  dsimp only at hapart hapart'
  rw [hcount] at hapart hapart'
  refine ⟨fun k hk => at16_store_apart (by omega), fun hc k hk => ?_⟩
  rw [at16_store_apart (by omega)]
  exact hc k hk

lemma Moves.sampler_leaves {p p' : Place SamplerLocals}
    (h : Moves (samplerTask L) p lab p' lab') :
    ProcessorSame L lab lab' ∧ VerifierSame lab lab' ∧
      (CoefficientsIn L lab.mem → CoefficientsIn L lab'.mem) := by
  have hrefl : ∀ lab : Lab, ProcessorSame L lab lab ∧ VerifierSame lab lab ∧
      (CoefficientsIn L lab.mem → CoefficientsIn L lab.mem) :=
    fun lab => ⟨.refl lab, ⟨rfl, rfl⟩, id⟩
  cases h with
  | enter | spin | again | rest => exact hrefl lab
  | publish => exact ⟨⟨rfl, rfl, fun _ _ => rfl, rfl, rfl⟩, ⟨rfl, rfl⟩, id⟩
  | finish hf h =>
    obtain rfl := Except.ok.inj h
    exact ⟨⟨rfl, rfl, fun _ _ => rfl, rfl, rfl⟩, ⟨rfl, rfl⟩, id⟩
  | turn h =>
    simp only [samplerTask] at h
    split at h
    · next hlt =>
      obtain rfl := (Prod.mk.inj (Except.ok.inj h)).2
      obtain ⟨hbuffer, hcoefficients⟩ := store_sample hlt
      exact ⟨⟨rfl, rfl, hbuffer, rfl, rfl⟩, ⟨rfl, rfl⟩, hcoefficients⟩
    · cases (Prod.mk.inj (Except.ok.inj h)).1
  | leave h =>
    simp only [samplerTask] at h
    split at h
    · cases (Prod.mk.inj (Except.ok.inj h)).1
    · obtain rfl := (Prod.mk.inj (Except.ok.inj h)).2
      exact ⟨⟨rfl, rfl, fun _ _ => rfl, rfl, rfl⟩, ⟨rfl, rfl⟩, id⟩

lemma Moves.processor_leaves {p p' : Place ProcessorLocals}
    (h : Moves (processorTask L fir) p lab p' lab') :
    SamplerSame L lab lab' ∧ VerifierSame lab lab' ∧
      (CoefficientsIn L lab.mem → CoefficientsIn L lab'.mem) := by
  have hrefl : ∀ lab : Lab, SamplerSame L lab lab ∧ VerifierSame lab lab ∧
      (CoefficientsIn L lab.mem → CoefficientsIn L lab.mem) :=
    fun lab => ⟨.refl lab, ⟨rfl, rfl⟩, id⟩
  have hwork : ∀ {frame l r}, (processorTask L fir).work frame l lab = .ok (r, lab') →
      SamplerSame L lab lab' ∧ VerifierSame lab lab' ∧
        (CoefficientsIn L lab.mem → CoefficientsIn L lab'.mem) := by
    intro frame l r h
    cases l with
    | call =>
      obtain rfl := (Prod.mk.inj (Except.ok.inj (work_call.symm.trans h))).2
      exact hrefl lab
    | filter k =>
      by_cases hlt : k < ResultLine.validOutputCount
      · obtain rfl := (Prod.mk.inj (Except.ok.inj ((work_filter hlt).symm.trans h))).2
        obtain ⟨hbuffer, hcoefficients⟩ := @store_output L lab.mem k _ hlt
        exact ⟨⟨rfl, rfl, rfl, hbuffer, rfl, rfl⟩, ⟨rfl, rfl⟩, hcoefficients⟩
      · obtain rfl := (Prod.mk.inj (Except.ok.inj ((work_filter_end hlt).symm.trans h))).2
        exact hrefl lab
    | checksum =>
      obtain rfl := (Prod.mk.inj (Except.ok.inj h)).2
      exact ⟨⟨rfl, rfl, rfl, fun _ _ => rfl, rfl, rfl⟩, ⟨rfl, rfl⟩, id⟩
  cases h with
  | enter | spin | again | rest => exact hrefl lab
  | publish => exact ⟨⟨rfl, rfl, rfl, fun _ _ => rfl, rfl, rfl⟩, ⟨rfl, rfl⟩, id⟩
  | finish hf h =>
    obtain rfl := Except.ok.inj h
    exact ⟨⟨rfl, rfl, rfl, fun _ _ => rfl, rfl, rfl⟩, ⟨rfl, rfl⟩, id⟩
  | turn h => exact hwork h
  | leave h => exact hwork h

lemma finish_verifier (h : verifierTask.finish lab = .ok lab') :
    lab' = { lab with verifierFinished := true } := by
  simp only [verifierTask, require] at h
  split at h
  · exact (Except.ok.inj h).symm
  · cases h

lemma Moves.verifier_leaves {p p' : Place Unit} (h : Moves verifierTask p lab p' lab') :
    SamplerSame L lab lab' ∧ ProcessorSame L lab lab' ∧ lab'.mem = lab.mem := by
  cases h with
  | enter | spin | again | rest => exact ⟨.refl lab, .refl lab, rfl⟩
  | publish =>
    exact ⟨⟨rfl, rfl, rfl, fun _ _ => rfl, rfl, rfl⟩, ⟨rfl, rfl, fun _ _ => rfl, rfl, rfl⟩, rfl⟩
  | turn h => cases (Prod.mk.inj (Except.ok.inj h)).1
  | leave h =>
    obtain rfl := (Prod.mk.inj (Except.ok.inj h)).2
    exact ⟨.refl _, .refl _, rfl⟩
  | finish hf h =>
    obtain rfl := finish_verifier h
    exact ⟨⟨rfl, rfl, rfl, fun _ _ => rfl, rfl, rfl⟩, ⟨rfl, rfl, fun _ _ => rfl, rfl, rfl⟩, rfl⟩

/-- The verifier's step. -/
lemma Moves.verified {p p' : Place Unit} (h : Moves verifierTask p lab p' lab')
    (hs : Verified p lab) : Verified p' lab' := by
  cases h with
  | enter | spin | again | rest => exact ⟨hs.generation, hs.finished⟩
  | publish => exact ⟨rfl, hs.finished⟩
  | turn h => cases (Prod.mk.inj (Except.ok.inj h)).1
  | leave h =>
    obtain rfl := (Prod.mk.inj (Except.ok.inj h)).2
    exact ⟨hs.generation, hs.finished⟩
  | finish hf h =>
    obtain rfl := finish_verifier h
    exact ⟨hs.generation.trans hf, rfl⟩

/-! ### The three tasks -/

/-- The turns that the tasks take. -/
def roundsOf (s : System) : Rounds 3 where
  count := ![s.lab.sampledGeneration, s.lab.processedGeneration, s.lab.verifiedGeneration]
  inside := ![s.sampler.inside, s.processor.inside, s.verifier.inside]

lemma count_sampler (r : ℕ) : Turn.count (⟨r, 0⟩ : Turn 3) = ![r, r, r] := by
  ext i
  fin_cases i <;> rfl

lemma count_processor (r : ℕ) : Turn.count (⟨r, 1⟩ : Turn 3) = ![r + 1, r, r] := by
  ext i
  fin_cases i <;> rfl

lemma count_verifier (r : ℕ) : Turn.count (⟨r, 2⟩ : Turn 3) = ![r + 1, r + 1, r] := by
  ext i
  fin_cases i <;> rfl

lemma counts_eq {a b c a' b' c' : ℕ} : ![a, b, c] = ![a', b', c'] ↔ a = a' ∧ b = b' ∧ c = c' := by
  constructor
  · intro h
    exact ⟨congrFun h 0, congrFun h 1, congrFun h 2⟩
  · rintro ⟨rfl, rfl, rfl⟩
    rfl

lemma update_sampler {β : Type} (a b c a' : β) :
    Function.update ![a, b, c] 0 a' = ![a', b, c] := by
  ext i
  fin_cases i <;> rfl

lemma update_processor {β : Type} (a b c b' : β) :
    Function.update ![a, b, c] 1 b' = ![a, b', c] := by
  ext i
  fin_cases i <;> rfl

lemma update_verifier {β : Type} (a b c c' : β) :
    Function.update ![a, b, c] 2 c' = ![a, b, c'] := by
  ext i
  fin_cases i <;> rfl

/-- **What holds in every state of the lab.** -/
structure Inv (L : Layout) (s : System) : Prop where
  sampled : Sampled L s.sampler s.lab
  processed : Processed L s.processor s.lab
  verified : Verified s.verifier s.lab
  coefficients : CoefficientsIn L s.lab.mem
  ordered : Ordered (roundsOf s)
  samplerWithin : s.sampler.Within
  processorWithin : s.processor.Within
  verifierWithin : s.verifier.Within

lemma done_of_outside {α : Type} {p : Place α} (h : p.inside = false) : p.done = p.count := by
  cases p with
  | work | publish => cases h
  | check | wait | returned => rfl

lemma SamplerBuffer.holds {mem : Mem} {p : Place SamplerLocals} {frame : ℕ}
    (h : SamplerBuffer L mem p) (hi : p.inside = false) (hd : p.done = frame + 1) :
    Holds L mem frame sampleCount := by
  cases p with
  | work | publish => cases hi
  | check | wait | returned => exact h frame hd

variable {s s' : System} {answers : Answers}

/-- **The buffer belongs to the processor** while it is at work on a frame. -/
lemma Inv.holds (h : Inv L s) {frame : ℕ} {l : ProcessorLocals}
    (hp : s.processor = .work frame l) : Holds L s.lab.mem frame sampleCount := by
  have hin : (roundsOf s).inside 1 = true := congrArg Place.inside hp
  have hgen : (roundsOf s).count 1 = frame := h.processed.generation.trans (congrArg Place.count hp)
  have hcount := h.ordered.count_inside hin
  rw [hgen, count_processor] at hcount
  have hout : s.sampler.inside = false := by
    rw [← Bool.not_eq_true]
    intro hs
    exact absurd (h.ordered.unique (i := 0) hs hin) (by decide)
  refine h.sampled.buffer.holds hout ?_
  rw [done_of_outside hout, ← h.sampled.generation]
  exact congrFun hcount 0

lemma step_sampler (h : s.step L fir .sampler answers = .ok s') : ∃ p lab,
    (samplerTask L).step answers s.sampler s.lab = .ok (p, lab) ∧
      s' = { s with sampler := p, lab } := by
  obtain ⟨r, hstep, heq⟩ := bind_ok_iff.mp h
  exact ⟨r.1, r.2, hstep, (Except.ok.inj heq).symm⟩

lemma step_processor (h : s.step L fir .processor answers = .ok s') : ∃ p lab,
    (processorTask L fir).step answers s.processor s.lab = .ok (p, lab) ∧
      s' = { s with processor := p, lab } := by
  obtain ⟨r, hstep, heq⟩ := bind_ok_iff.mp h
  exact ⟨r.1, r.2, hstep, (Except.ok.inj heq).symm⟩

lemma step_verifier (h : s.step L fir .verifier answers = .ok s') : ∃ p lab,
    verifierTask.step answers s.verifier s.lab = .ok (p, lab) ∧
      s' = { s with verifier := p, lab } := by
  obtain ⟨r, hstep, heq⟩ := bind_ok_iff.mp h
  exact ⟨r.1, r.2, hstep, (Except.ok.inj heq).symm⟩

/-- **Every step of every task keeps the invariant.** -/
lemma Inv.step (h : Inv L s) {task : Task} (hs : s.step L fir task answers = .ok s') :
    Inv L s' := by
  cases task with
  | sampler =>
    obtain ⟨p, lab, hstep, rfl⟩ := step_sampler hs
    have hm := step_moves hstep
    obtain ⟨hprocessor, hverifier, hcoefficients⟩ := hm.sampler_leaves
    have hsampled := hm.sampled h.sampled
    refine ⟨hsampled, h.processed.congr hprocessor, h.verified.congr hverifier,
      hcoefficients h.coefficients, ?_, hm.within h.samplerWithin, h.processorWithin,
      h.verifierWithin⟩
    have ho := hm.ordered (i := 0) h.ordered h.sampled.generation rfl fun frame hf => by
      rw [count_sampler]
      exact counts_eq.mpr (require_ok.mp hf)
    rw [update_sampler, update_sampler, ← hsampled.generation, ← hprocessor.generation,
      ← hverifier.generation] at ho
    exact ho
  | processor =>
    obtain ⟨p, lab, hstep, rfl⟩ := step_processor hs
    have hm := step_moves hstep
    obtain ⟨hsampler, hverifier, hcoefficients⟩ := hm.processor_leaves
    have hprocessed := hm.processed h.processed h.coefficients fun frame l hp => h.holds hp
    refine ⟨h.sampled.congr hsampler, hprocessed, h.verified.congr hverifier,
      hcoefficients h.coefficients, ?_, h.samplerWithin, hm.within h.processorWithin,
      h.verifierWithin⟩
    have ho := hm.ordered (i := 1) h.ordered h.processed.generation rfl fun frame hf => by
      rw [count_processor]
      exact counts_eq.mpr (require_ok.mp hf)
    rw [update_processor, update_processor, ← hprocessed.generation,
      ← hsampler.generation, ← hverifier.generation] at ho
    exact ho
  | verifier =>
    obtain ⟨p, lab, hstep, rfl⟩ := step_verifier hs
    have hm := step_moves hstep
    obtain ⟨hsampler, hprocessor, hmem⟩ := hm.verifier_leaves
    have hverified := hm.verified h.verified
    refine ⟨h.sampled.congr hsampler, h.processed.congr hprocessor, hverified,
      hmem ▸ h.coefficients, ?_, h.samplerWithin, h.processorWithin, hm.within h.verifierWithin⟩
    have ho := hm.ordered (i := 2) h.ordered h.verified.generation rfl fun frame hf => by
      obtain ⟨h0, h1, h2, -⟩ := require_ok.mp hf
      rw [count_verifier]
      exact counts_eq.mpr ⟨h0, h1, h2⟩
    rw [update_verifier, update_verifier, ← hverified.generation, ← hsampler.generation,
      ← hprocessor.generation] at ho
    exact ho

lemma coefficient_narrow (i : ℕ) : Narrow (coefficients.getD i 0) := by
  have hall : ∀ z ∈ coefficients, -2 ^ 15 ≤ z ∧ z < 2 ^ 15 := by decide
  rw [List.getD_eq_getElem?_getD]
  cases h : coefficients[i]? with
  | none => exact ⟨by decide, by decide⟩
  | some z => exact hall z (List.mem_of_getElem? h)

lemma inv_start (L : Layout) (mem : Mem) : Inv L (System.start L mem) := by
  refine ⟨⟨rfl, rfl, fun f hf => absurd hf (Nat.not_lt_zero f), fun f hf => ?_, rfl, rfl⟩,
    ⟨rfl, fun f hf => absurd hf (Nat.not_lt_zero f), trivial, rfl, rfl⟩, ⟨rfl, rfl⟩,
    fun i hi => at16_written coefficient_narrow hi, ?_, ?_, ?_, ?_⟩
  · exact absurd hf (Nat.succ_ne_zero f).symm
  · have hstart : roundsOf (System.start L mem) = Rounds.start 3 := by
      refine congrArg₂ Rounds.mk ?_ ?_ <;> ext i <;> fin_cases i <;> rfl
    rw [hstart]
    exact ordered_start (by decide)
  · exact (by decide : 0 < frameCount)
  · exact (by decide : 0 < frameCount)
  · exact (by decide : 0 < frameCount)

/-- **Every run keeps the invariant.** -/
lemma Inv.run (h : Inv L s) {turns : List (Task × Answers)} (hs : s.run L fir turns = .ok s') :
    Inv L s' := by
  induction turns generalizing s with
  | nil =>
    obtain rfl := Except.ok.inj hs
    exact h
  | cons turn turns ih =>
    obtain ⟨s₁, hstep, hrun⟩ := bind_ok_iff.mp hs
    exact ih (h.step hstep) hrun

end Aymos.SignalRun
