import Aymos.Acceptance
import Aymos.Scenario

/-!
The records of the memory calls.

A memory call that is not turned away emits one record. The decoder rejects the record of a
request for no bytes, which the allocator refuses, and that of the release of the null pointer,
which the allocator accepts; it accepts every other one.
-/

namespace Aymos.MemoryTrace

open Words Allocator HeapRepr HeapBlocks HeapCalls Tiling Scheduler Trace Decoder Validate WordMem
  Kernel Machine Handlers Frames Services Switch Control Boot Ownership EmissionLog Acceptance
  Startup Scenario Safety

/-! ### The arena stays where it is -/

section Calls

variable {T : Target} {h h' : Heap} {bs : List Blk}

/-- The payload of a block lies in the arena. -/
lemma payload_inside (hi : HeapInv T h bs) {b : Blk} (hb : b ∈ bs) :
    h.ctl.heapBegin ≤ b.payload T.headerSize ∧ b.payload T.headerSize < h.ctl.heapEnd := by
  have hbounds := hi.tiles.bounds hb
  have hmin := hi.minimum b hb
  unfold Block.stop at hbounds
  unfold Block.payload
  omega

lemma alloc_layout (hi : HeapInv T h bs) {size owner r : ℕ} (ho : owner ≤ uint16Max)
    (hrun : osAllocatorAlloc T h size owner = some (h', r)) :
    layout h'.ctl = layout h.ctl ∧ (r = 0 ∨ h.ctl.heapBegin ≤ r ∧ r < h.ctl.heapEnd) := by
  rcases alloc_cases hi size ho with hfail | ⟨pre, b, post, n, rfl, hfree, hlt, hn, hfit, hok⟩
  · rw [hfail, Option.some.injEq, Prod.mk.injEq] at hrun
    obtain ⟨rfl, rfl⟩ := hrun
    exact ⟨rfl, Or.inl rfl⟩
  · rw [hok, Option.some.injEq, Prod.mk.injEq] at hrun
    obtain ⟨rfl, rfl⟩ := hrun
    obtain ⟨hn8, hn'⟩ := alignUpSize_mod hn
    obtain ⟨-, hctl, -⟩ := takeBlock_spec hi hfree hn8 hn' hfit hlt
    exact ⟨by rw [hctl]; rfl, Or.inr (payload_inside hi (by simp))⟩

lemma free_layout (hi : HeapInv T h bs) {pointer owner : ℕ} {r : Bool}
    (hrun : osAllocatorFree T h pointer owner = some (h', r)) :
    layout h'.ctl = layout h.ctl ∧
      (r = false ∨ pointer = 0 ∨ h.ctl.heapBegin ≤ pointer ∧ pointer < h.ctl.heapEnd) := by
  rcases free_cases hi pointer owner with ⟨h0, hnull⟩ | ⟨-, hbad⟩ | ⟨pre, b, post, rfl, hown, rfl⟩
  · rw [hnull, Option.some.injEq, Prod.mk.injEq] at hrun
    obtain ⟨rfl, rfl⟩ := hrun
    exact ⟨rfl, Or.inr (Or.inl h0)⟩
  · rw [hbad, Option.some.injEq, Prod.mk.injEq] at hrun
    obtain ⟨rfl, rfl⟩ := hrun
    exact ⟨rfl, Or.inl rfl⟩
  · obtain ⟨h₁, hacc, -, hctl, -⟩ := free_accepted hi hown
    rw [hacc, Option.some.injEq, Prod.mk.injEq] at hrun
    obtain ⟨rfl, rfl⟩ := hrun
    exact ⟨by rw [hctl]; rfl, Or.inr (Or.inr (payload_inside hi (by simp)))⟩

lemma releaseOwner_layout (hi : HeapInv T h bs) {owner released : ℕ}
    (hrun : osAllocatorReleaseOwner T h owner = some (h', released)) :
    layout h'.ctl = layout h.ctl := by
  obtain ⟨h₁, hrel, -, hctl, -⟩ := releaseOwner_spec hi owner
  rw [hrel, Option.some.injEq, Prod.mk.injEq] at hrun
  obtain ⟨rfl, rfl⟩ := hrun
  rw [hctl]
  rfl

end Calls

variable {img : Image} {k k' : KernelState} {l : Label} {P : KernelState → Label → Prop}
  {labels : List Label}

/-- **No step moves the arena.** -/
lemma layout_step (hc : ControlInv (ctl k)) (h : HeapOwned k) (hs : Step img k l k') :
    layout k'.memoryAllocator.ctl = layout k.memoryAllocator.ctl := by
  obtain ⟨bs, hi, -⟩ := h
  by_cases hreach : reachesHeap l = false
  · rw [memory_frame img (ControlInv.wellIndexed hc) hs hreach]
  cases l with
  | alloc size =>
    obtain ⟨r, hcall, rfl⟩ := map_eq_ok.mp hs.exec
    rcases osMemoryAlloc_cases img hcall with heq | ⟨hvalid, heap, result, hrun, heq⟩
    · rw [heq]
    · rw [heq]
      exact (alloc_layout hi (owner_le (memoryCallValid.slot hvalid).1) hrun).1
  | free pointer =>
    obtain ⟨r, hcall, rfl⟩ := map_eq_ok.mp hs.exec
    rcases osMemoryFree_cases img hcall with heq | ⟨-, heap, result, hrun, heq⟩
    · rw [heq]
    · rw [heq]
      exact (free_layout hi hrun).1
  | heapWrite addr value =>
    cases hs.exec
    rfl
  | pendCommit =>
    obtain ⟨k₁, k₂, hmem, -, -, hret, hk'⟩ := pendsvCommit_retired hs.exec
    rw [hk']
    rcases hret with _ | _ | ⟨-, -, hrec⟩
    · rw [hmem]
    · exact congrArg (fun h => layout (Heap.ctl h)) hmem
    · obtain ⟨-, -, heap, released, hrel, -, rfl⟩ := reclaimExitingTask_eq_ok.mp hrec
      rw [hmem] at hrel
      exact releaseOwner_layout hi hrel
  | _ => exact absurd rfl hreach

/-- **The arena is that of the image** and every block belongs to an occupied slot. -/
theorem arena_of_reaches (h : Reaches img P labels k) :
    HeapOwned k ∧ k.memoryAllocator.ctl.heapBegin = img.heapStart ∧
      k.memoryAllocator.ctl.heapEnd = img.heapEnd := by
  have hall : HeapOwned k ∧ ∃ m, layout k.memoryAllocator.ctl =
      layout (freshHeap .arm32 m img.heapStart img.heapEnd).ctl := by
    refine h.induction (Q := fun _ k => HeapOwned k ∧ ∃ m, layout k.memoryAllocator.ctl =
      layout (freshHeap .arm32 m img.heapStart img.heapEnd).ctl)
      (fun m ram pc _ => ⟨heapOwned_booted img m ram pc, m, rfl⟩) ?_
    rintro labels k l k' hr ⟨ho, m, hl⟩ _ hs
    exact ⟨ho.step hr.control hs, m, (layout_step hr.control ho hs).trans hl⟩
  obtain ⟨ho, m, hl⟩ := hall
  exact ⟨ho, congrArg Prod.fst hl, congrArg (fun p => p.2.1) hl⟩

/-! ### The records -/

/-- The record of an allocation. -/
def allocRecord (img : Image) (task size result : ℕ) : TraceInput :=
  record .alloc task traceTaskInvalid (u32 size) (tracePointerOffset img result)
    (if result ≠ 0 then 1 else 0)

/-- The record of a release. -/
def freeRecord (img : Image) (task pointer : ℕ) (result : Bool) : TraceInput :=
  record .free task traceTaskInvalid (tracePointerOffset img pointer) 1 (if result then 1 else 0)

lemma tracePointerOffset_inside {pointer : ℕ} (h1 : img.heapStart ≤ pointer)
    (h2 : pointer < img.heapEnd) : tracePointerOffset img pointer ≠ uint32Max := by
  have hpos := img.stacks_pos
  have hbelow := img.stacks_below
  have hend := img.heap_below
  have hroom := img.boot_room
  have htop := img.boot_below
  have hfits : img.mspTop < 2 ^ 32 := img.top_fits
  rw [tracePointerOffset, if_neg (by omega), if_neg (by omega), u32, Nat.mod_eq_of_lt (by omega)]
  unfold uint32Max
  omega

lemma alloc_accepted_iff {i size offset flag tick sequence : ℕ} (hi : i ∈ userSlots) :
    Accepted (decodedInput tick sequence (record .alloc i traceTaskInvalid size offset flag)) ↔
      0 < size ∧ (flag = 0 ∧ offset = uint32Max ∨ flag = 1 ∧ offset ≠ uint32Max) := by
  have huser := (isUser_slot hi).2
  rw [accepted_iff]
  simp [rolesValid, payloadValid, metadataValid, huser, uint32Max]
  exact fun _ => decide_eq_true_iff

lemma free_accepted_iff {i offset flag tick sequence : ℕ} (hi : i ∈ userSlots) (hf : flag ≤ 1) :
    Accepted (decodedInput tick sequence (record .free i traceTaskInvalid offset 1 flag)) ↔
      flag = 0 ∨ offset ≠ uint32Max := by
  have huser := (isUser_slot hi).2
  rw [accepted_iff]
  simp [rolesValid, payloadValid, metadataValid, huser, uint32Max]
  omega

/-! ### The verdict of the decoder -/

/-- What a memory call emits and when the decoder accepts it. -/
structure Verdict (k k' : KernelState) (input : TraceInput) (accepted : Prop) : Prop where
  emits : Emits k k' [[input]]
  accepted_iff : ∀ sequence,
    Accepted (decodedInput k'.monotonicTicks sequence input) ↔ accepted

/-- **The record of an allocation** is accepted unless no bytes were asked for. -/
lemma alloc_verdict (h : Reaches img P labels k) (hcall : memoryCallValid k) {size : ℕ}
    (hsize : size ≤ uint32Max) : ∃ k' r, osMemoryAlloc img k size = .ok (k', r) ∧
      Verdict k k' (allocRecord img k.currentTask size r) (size ≠ 0) := by
  obtain ⟨⟨bs, hi, -⟩, hbegin, hend⟩ := arena_of_reaches h
  have hu := (memoryCallValid.slot hcall).1
  obtain ⟨heap, r, hrun⟩ := alloc_returns hi size (owner_le hu)
  refine ⟨allocated img k heap size r, r, ?_, rfl, fun sequence => ?_⟩
  · rw [osMemoryAlloc_eq, if_pos hcall, hrun]
  rw [allocRecord, alloc_accepted_iff hu, u32_of_le hsize]
  refine ⟨fun h => Nat.pos_iff_ne_zero.mp h.1, fun hne => ⟨Nat.pos_of_ne_zero hne, ?_⟩⟩
  rcases (alloc_layout hi (owner_le hu) hrun).2 with rfl | ⟨h1, h2⟩
  · exact Or.inl ⟨rfl, rfl⟩
  · have hr : r ≠ 0 := fun h0 => by
      have hpos := hi.geometry.pos
      omega
    rw [hbegin] at h1
    rw [hend] at h2
    exact Or.inr ⟨if_pos hr, tracePointerOffset_inside h1 h2⟩

/-- **The record of a release** is accepted unless the pointer is null. -/
lemma free_verdict (h : Reaches img P labels k) (hcall : memoryCallValid k) (pointer : ℕ) :
    ∃ k' r, osMemoryFree img k pointer = .ok (k', r) ∧
      Verdict k k' (freeRecord img k.currentTask pointer r) (pointer ≠ 0) := by
  obtain ⟨⟨bs, hi, -⟩, hbegin, hend⟩ := arena_of_reaches h
  have hu := (memoryCallValid.slot hcall).1
  obtain ⟨heap, r, hrun⟩ := free_returns hi pointer k.currentTask
  refine ⟨freed img k heap pointer r, r, ?_, rfl, fun sequence => ?_⟩
  · rw [osMemoryFree_eq, if_pos hcall, hrun]
  have hflag : (if r = true then 1 else 0) ≤ 1 := by split <;> decide
  rw [freeRecord, free_accepted_iff hu hflag]
  by_cases hp : pointer = 0
  · -- the null pointer is released with success, and has no offset
    subst hp
    rw [free_null hi, Option.some.injEq, Prod.mk.injEq] at hrun
    obtain ⟨-, rfl⟩ := hrun
    simp [tracePointerOffset]
  · refine iff_of_true ?_ hp
    rcases (free_layout hi hrun).2 with rfl | h0 | ⟨h1, h2⟩
    · exact Or.inl rfl
    · exact absurd h0 hp
    · rw [hbegin] at h1
      rw [hend] at h2
      exact Or.inr (tracePointerOffset_inside h1 h2)

lemma memoryCallValid_of_userCalls (h : userCalls (ctl k)) : memoryCallValid k :=
  ⟨h.1, callerIsRunningTask_iff.mpr ⟨h.2.1, h.2.2.1, h.2.2.2.1, h.2.2.2.2.1⟩, h.2.2.2.2.2⟩

/-- A run in which a task can call. -/
lemma caller_reached : ∃ labels k, Reaches sampleImage Disciplined labels k ∧ memoryCallValid k := by
  obtain ⟨labels, k, hr, hctl, -⟩ := stage_launched (oneShot 0 10) (by decide) (by decide)
  refine ⟨labels, k, hr.reaches, memoryCallValid_of_userCalls ?_⟩
  rw [hctl]
  exact ⟨rfl, rfl, by decide, by decide, rfl, by decide⟩

/-- **When the records of the memory calls are decodable.** In every state reached, a call of a
running user task that is not turned away returns and emits one record; the validators accept that
of `os_memory_alloc` exactly when bytes were asked for, and that of `os_memory_free` exactly when
the pointer is not null, whether or not the allocator accepted the call. -/
theorem memory_records_decodable (h : Reaches img P labels k) (hcall : memoryCallValid k) :
    (∀ size ≤ uint32Max, ∃ k' r, osMemoryAlloc img k size = .ok (k', r) ∧
        Verdict k k' (allocRecord img k.currentTask size r) (size ≠ 0)) ∧
      ∀ pointer ≤ uint32Max, ∃ k' r, osMemoryFree img k pointer = .ok (k', r) ∧
        Verdict k k' (freeRecord img k.currentTask pointer r) (pointer ≠ 0) :=
  ⟨fun _ hsize => alloc_verdict h hcall hsize, fun pointer _ => free_verdict h hcall pointer⟩

/-- In a run with one task, for a request of one byte and the release of address 8. -/
theorem memory_records_decodable_one : ∃ labels k, Reaches sampleImage Disciplined labels k ∧
    (∃ k' r, osMemoryAlloc sampleImage k 1 = .ok (k', r) ∧
      Verdict k k' (allocRecord sampleImage k.currentTask 1 r) (1 ≠ 0)) ∧
    ∃ k' r, osMemoryFree sampleImage k 8 = .ok (k', r) ∧
      Verdict k k' (freeRecord sampleImage k.currentTask 8 r) (8 ≠ 0) := by
  obtain ⟨labels, k, hr, hcall⟩ := caller_reached
  obtain ⟨halloc, hfree⟩ := memory_records_decodable hr hcall
  exact ⟨labels, k, hr, halloc 1 (by decide), hfree 8 (by decide)⟩

/-- **A call that the decoder rejects.** In a run with one task, a request for no bytes and the
release of the null pointer, which succeeds, emit records that fail the checks of payloads. -/
theorem memory_records_rejected : ∃ labels k, Reaches sampleImage Disciplined labels k ∧
    (∃ k' r, osMemoryAlloc sampleImage k 0 = .ok (k', r) ∧
      Emits k k' [[allocRecord sampleImage k.currentTask 0 r]] ∧
      ∀ sequence, ¬Accepted (decodedInput k'.monotonicTicks sequence
        (allocRecord sampleImage k.currentTask 0 r))) ∧
    ∃ k' r, osMemoryFree sampleImage k 0 = .ok (k', r) ∧
      Emits k k' [[freeRecord sampleImage k.currentTask 0 r]] ∧
      ∀ sequence, ¬Accepted (decodedInput k'.monotonicTicks sequence
        (freeRecord sampleImage k.currentTask 0 r)) := by
  obtain ⟨labels, k, hr, hcall⟩ := caller_reached
  obtain ⟨k₁, r₁, h₁, hv₁⟩ := alloc_verdict hr hcall (Nat.zero_le _)
  obtain ⟨k₂, r₂, h₂, hv₂⟩ := free_verdict hr hcall 0
  exact ⟨labels, k, hr, ⟨k₁, r₁, h₁, hv₁.emits, fun s ha => (hv₁.accepted_iff s).mp ha rfl⟩,
    k₂, r₂, h₂, hv₂.emits, fun s ha => (hv₂.accepted_iff s).mp ha rfl⟩

end Aymos.MemoryTrace
