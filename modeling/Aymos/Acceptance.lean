import Aymos.EmissionLog
import Aymos.RoundTrip
import Aymos.Validate

/-!
Which records of the kernel the decoder's validators accept.

The roles and the payload of a record are checked record by record, so that a trace passes
when each of its records does.
-/

namespace Aymos.Acceptance

open Words Scheduler Trace Decoder RoundTrip Validate Handlers RingHistory EmissionLog

/-- A record that passes the checks of its roles and of its payload. -/
structure Accepted (d : DecodedRecord) : Prop where
  roles : rolesValid d = true
  payload : payloadValid d = true
  metadata : metadataValid d = true

lemma accepted_iff (d : DecodedRecord) :
    Accepted d ↔ rolesValid d = true ∧ payloadValid d = true ∧ metadataValid d = true :=
  ⟨fun h => ⟨h.1, h.2, h.3⟩, fun h => ⟨h.1, h.2.1, h.2.2⟩⟩

instance (d : DecodedRecord) : Decidable (Accepted d) := decidable_of_iff' _ (accepted_iff d)

/-- A check of every record succeeds when it succeeds for each. -/
lemma forM_ok_iff {α : Type} {check : α → Except String Unit} {xs : List α} :
    xs.forM check = .ok () ↔ ∀ x ∈ xs, check x = .ok () := by
  induction xs with
  | nil => exact ⟨fun _ x hx => (List.not_mem_nil hx).elim, fun _ => rfl⟩
  | cons x xs ih =>
    rw [List.forall_mem_cons, ← ih, List.forM]
    cases check x with
    | error e => exact ⟨fun h => (nomatch h), fun h => (nomatch h.1)⟩
    | ok u => exact ⟨fun h => ⟨rfl, h⟩, fun h => h.2⟩

/-- **The validators of roles and payloads** go record by record. -/
theorem validators_ok_iff (records : List DecodedRecord) :
    (validateEventRoles records = .ok () ∧ validateEventPayloads records = .ok ()) ↔
      ∀ d ∈ records, Accepted d := by
  rw [validateEventRoles, validateEventPayloads, forM_ok_iff, forM_ok_iff, ← forall₂_and]
  refine forall₂_congr fun d _ => ?_
  rw [accepted_iff]
  cases rolesValid d <;> cases payloadValid d <;> cases metadataValid d <;> simp
  all_goals split <;> simp

/-! ### Decoding what the kernel emits -/

/-- The entry of a record that the kernel emits. -/
def decodedInput (tick sequence : ℕ) (input : TraceInput) : DecodedRecord :=
  decoded (recordOf tick sequence input)

/-- The entries of a batch. -/
def decodedBatch (tick sequence : ℕ) (inputs : List TraceInput) : List DecodedRecord :=
  (stamp tick sequence inputs).map decoded

lemma decodedBatch_cons (tick sequence : ℕ) (input : TraceInput) (inputs : List TraceInput) :
    decodedBatch tick sequence (input :: inputs) =
      decodedInput tick (u32 sequence) input :: decodedBatch tick (sequence + 1) inputs := rfl

lemma decodedBatch_length (tick sequence : ℕ) (inputs : List TraceInput) :
    (decodedBatch tick sequence inputs).length = inputs.length := by
  rw [decodedBatch, List.length_map, stamp_length]

lemma mem_decodedBatch {tick sequence : ℕ} {inputs : List TraceInput} {d : DecodedRecord}
    (h : d ∈ decodedBatch tick sequence inputs) :
    ∃ input ∈ inputs, ∃ s, d = decodedInput tick s input := by
  obtain ⟨r, hr, rfl⟩ := List.mem_map.mp h
  obtain ⟨input, hi, s, rfl⟩ := mem_stamp_recordOf hr
  exact ⟨input, hi, s, rfl⟩

/-- What does not depend on the sequence number. -/
lemma map_decodedBatch {α : Type*} {f : DecodedRecord → α} {g : TraceInput → α} {tick : ℕ}
    (sequence : ℕ) (inputs : List TraceInput)
    (h : ∀ input ∈ inputs, ∀ s, f (decodedInput tick s input) = g input) :
    (decodedBatch tick sequence inputs).map f = inputs.map g := by
  induction inputs generalizing sequence with
  | nil => rfl
  | cons input inputs ih =>
    rw [decodedBatch_cons, List.map_cons, List.map_cons, h input List.mem_cons_self,
      ih _ fun i hi => h i (List.mem_cons_of_mem _ hi)]

section Fields

variable (tick sequence : ℕ) (event : TraceEvent) (task related value0 value1 value2 : ℕ)

@[simp] lemma decodedInput_event :
    (decodedInput tick sequence (record event task related value0 value1 value2)).event = event := by
  have hcode : event.code % 2 ^ 8 = event.code := by cases event <;> rfl
  rw [decodedInput, decoded, recordOf, record, hcode, eventOfCode_code]
  rfl

@[simp] lemma decodedInput_tick (input : TraceInput) :
    (decodedInput tick sequence input).tick = tick := rfl

@[simp] lemma decodedInput_sequence (input : TraceInput) :
    (decodedInput tick sequence input).sequence = sequence := rfl

@[simp] lemma decodedInput_task :
    (decodedInput tick sequence (record event task related value0 value1 value2)).task =
      optionalTask task := rfl

@[simp] lemma decodedInput_related :
    (decodedInput tick sequence (record event task related value0 value1 value2)).related =
      optionalTask related := rfl

@[simp] lemma decodedInput_value0 :
    (decodedInput tick sequence (record event task related value0 value1 value2)).value0 =
      value0 := rfl

@[simp] lemma decodedInput_value1 :
    (decodedInput tick sequence (record event task related value0 value1 value2)).value1 =
      value1 := rfl

@[simp] lemma decodedInput_value2 :
    (decodedInput tick sequence (record event task related value0 value1 value2)).value2 =
      value2 := rfl

end Fields

@[simp] lemma optionalTask_invalid : optionalTask traceTaskInvalid = none := rfl

/-- A user slot is shown as a user task. -/
lemma isUser_slot {i : ℕ} (hi : i ∈ userSlots) :
    optionalTask i = some i ∧ isUser (optionalTask i) = true := by
  obtain ⟨h1, h5⟩ := mem_userSlots.mp hi
  have hlt : i < 5 := h5
  have hne : i ≠ invalidTaskId := by
    unfold invalidTaskId
    omega
  have ho : optionalTask i = some i := if_neg hne
  refine ⟨ho, ?_⟩
  rw [ho, isUser, Bool.and_eq_true, decide_eq_true_eq, decide_eq_true_eq]
  exact ⟨h1, Nat.le_of_lt_succ hlt⟩

end Aymos.Acceptance
