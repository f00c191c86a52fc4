import Aymos.HeapRun

/-!
The validator on arbitrary memory.

Nothing is assumed of the arena here: its bytes, the links and the allocator's counters may hold
anything. The loop is run with the counter the source keeps, and a record of the headers it
reads; what it accepts is a chain, and where it refuses no call writes to the arena.
-/

namespace Aymos.HeapValidate

open Aymos.ByteMem Aymos.Allocator Aymos.Tiling Aymos.Words Aymos.HeapRepr Aymos.HeapRun

variable (T : Target)

/-- What a run of the validator leaves: its answer, how many blocks it visited and which headers
it read. -/
structure Report where
  answer : Bool
  visited : ℕ
  read : List ℕ

/-- `while (block != NULL)`, as the source counts; `none` when fuel runs out. -/
def chainRun (h : Heap) : ℕ → ℕ → ℕ → ℕ → Bool → ℕ → Option Report
  | 0, _, _, _, _, _ => none
  | fuel + 1, visited, block, previous, foundNextFit, computedAllocated =>
    if block = 0 then
      some ⟨foundNextFit && computedAllocated == h.ctl.allocatedBytes &&
        h.ctl.allocatedBytes ≤ h.ctl.highWatermarkBytes, visited, []⟩
    else if visited + 1 > maximumBlocks T h.ctl || !addressCanHoldBlock T h.ctl block then
      some ⟨false, visited + 1, []⟩
    else if !headerOk T h block previous || !nextOk T h block then
      some ⟨false, visited + 1, [block]⟩
    else if h.get T block .allocated ≠ 0 ∧
        computedAllocated > T.sizeMax - h.get T block .capacity then
      some ⟨false, visited + 1, [block]⟩
    else
      (chainRun h fuel (visited + 1) (h.get T block .next) block
        (foundNextFit || block == h.ctl.nextFit)
        (computedAllocated +
          if h.get T block .allocated ≠ 0 then h.get T block .capacity else 0)).map
        fun report => { report with read := block :: report.read }

/-- `os_allocator_validate` with its loop run as the source counts. -/
def validateRun (h : Heap) (fuel : ℕ) : Option Report :=
  let a := h.ctl
  if !a.initialized || a.heapBegin == 0 || a.heapEnd == 0 || a.firstBlock == 0 ||
      a.nextFit == 0 then some ⟨false, 0, []⟩
  else if a.heapEnd ≤ a.heapBegin ∨ a.heapBegin % memoryAlignment ≠ 0 ∨
      a.heapEnd % memoryAlignment ≠ 0 ∨ a.firstBlock ≠ a.heapBegin ∨
      !addressCanHoldBlock T a a.nextFit then some ⟨false, 0, []⟩
  else chainRun T h fuel 0 a.firstBlock 0 false 0

variable {T} {h : Heap}

/-! ### Termination and reads -/

/-- The header at `block` lies wholly inside the heap. -/
def InHeap (T : Target) (a : OsAllocator) (block : ℕ) : Prop :=
  a.heapBegin ≤ block ∧ block + T.headerSize ≤ a.heapEnd

/-- Two memories hold the same header at `block`. -/
def SameHeader (T : Target) (m m' : Mem) (block : ℕ) : Prop :=
  ∀ x, block ≤ x → x < block + T.headerSize → m' x = m x

lemma inHeap_of_canHold {a : OsAllocator} {block : ℕ}
    (hhold : addressCanHoldBlock T a block = true) : InHeap T a block := by
  simp only [addressCanHoldBlock, Bool.and_eq_true, decide_eq_true_eq] at hhold
  obtain ⟨⟨⟨h1, -⟩, h3⟩, h4⟩ := hhold
  exact ⟨h1, by omega⟩

lemma getField_congr {m m' : Mem} {block : ℕ} (hm : SameHeader T m m' block) (f : Field) :
    getField T m' block f = getField T m block f := by
  have hfits := field_fits T f
  exact load_congr fun x hx hx' => hm x (by omega) (by omega)

lemma get_congr {m' : Mem} {block : ℕ} (hm : SameHeader T h.mem m' block) (f : Field) :
    Heap.get T { h with mem := m' } block f = h.get T block f := getField_congr hm f

/-- What is tested at a block depends on its own header. -/
lemma headerOk_congr {m' : Mem} {block : ℕ} (hm : SameHeader T h.mem m' block) (previous : ℕ) :
    headerOk T { h with mem := m' } block previous = headerOk T h block previous := by
  have hreserved : reservedBytesClear T m' block = reservedBytesClear T h.mem block := by
    rw [Bool.eq_iff_iff, reservedBytesClear_iff, reservedBytesClear_iff, getField_congr hm]
  simp only [headerOk, Heap.get, getField_congr hm, hreserved]
  rfl

lemma nextOk_congr {m' : Mem} {block : ℕ} (hm : SameHeader T h.mem m' block) :
    nextOk T { h with mem := m' } block = nextOk T h block := by
  simp only [nextOk, Heap.get, getField_congr hm]
  rfl

lemma headerOk_of_not_canHold {block previous : ℕ}
    (hhold : addressCanHoldBlock T h.ctl block = false) : headerOk T h block previous = false := by
  simp [headerOk, hhold]

/-- **A run of the loop** ends, visits no more blocks than fit, reads headers inside the heap
only, and answers what the bounded loop answers. -/
lemma chainRun_spec : ∀ (remaining visited block previous : ℕ) (found : Bool)
    (computed : ℕ), visited + remaining = maximumBlocks T h.ctl →
    ∃ report, report.answer = blockChainLoop T h remaining block previous found computed ∧
      report.visited ≤ maximumBlocks T h.ctl + 1 ∧
      (∀ b ∈ report.read, InHeap T h.ctl b) ∧
      ∀ m', (∀ b ∈ report.read, SameHeader T h.mem m' b) → ∀ fuel, remaining + 2 ≤ fuel →
        chainRun T { h with mem := m' } fuel visited block previous found computed =
          some report := by
  intro remaining
  induction remaining with
  | zero =>
    intro visited block previous found computed hvisited
    by_cases hblock : block = 0
    · refine ⟨⟨found && computed == h.ctl.allocatedBytes &&
        decide (h.ctl.allocatedBytes ≤ h.ctl.highWatermarkBytes), visited, []⟩, ?_,
        by simp only; omega, by simp, fun m' _ fuel hfuel => ?_⟩
      · simp [blockChainLoop, hblock]
      · obtain ⟨k, rfl⟩ : ∃ k, fuel = k + 1 := ⟨fuel - 1, by omega⟩
        exact if_pos hblock
    · -- one block more than fits: the counter stops the loop before a read
      refine ⟨⟨false, visited + 1, []⟩, ?_, by simp only; omega, by simp, fun m' _ fuel hfuel => ?_⟩
      · simp [blockChainLoop, hblock]
      · obtain ⟨k, rfl⟩ : ∃ k, fuel = k + 1 := ⟨fuel - 1, by omega⟩
        rw [chainRun, if_neg hblock, if_pos]
        rw [decide_eq_true (by simp only; omega), Bool.true_or]
  | succ remaining ih =>
    intro visited block previous found computed hvisited
    have hcount : decide (visited + 1 > maximumBlocks T h.ctl) = false :=
      decide_eq_false (by omega)
    by_cases hblock : block = 0
    · refine ⟨⟨found && computed == h.ctl.allocatedBytes &&
        decide (h.ctl.allocatedBytes ≤ h.ctl.highWatermarkBytes), visited, []⟩, ?_,
        by simp only; omega, by simp, fun m' _ fuel hfuel => ?_⟩
      · rw [blockChainLoop, if_pos hblock]
      · obtain ⟨k, rfl⟩ : ∃ k, fuel = k + 1 := ⟨fuel - 1, by omega⟩
        exact if_pos hblock
    cases hhold : addressCanHoldBlock T h.ctl block with
    | false =>
      refine ⟨⟨false, visited + 1, []⟩, ?_, by simp only; omega, by simp, fun m' _ fuel hfuel => ?_⟩
      · rw [blockChainLoop, if_neg hblock, headerOk_of_not_canHold hhold]
        rfl
      · obtain ⟨k, rfl⟩ : ∃ k, fuel = k + 1 := ⟨fuel - 1, by omega⟩
        rw [chainRun, if_neg hblock]
        simp only [hhold, Bool.not_false, Bool.or_true, if_true]
    | true =>
      have hin := inHeap_of_canHold hhold
      have hguard : (decide (visited + 1 > maximumBlocks T h.ctl) ||
          !addressCanHoldBlock T h.ctl block) ≠ true := by
        rw [hcount, hhold]
        exact Bool.false_ne_true
      -- from here on the run reads the header at `block`
      by_cases hok : (!headerOk T h block previous || !nextOk T h block) = true
      · refine ⟨⟨false, visited + 1, [block]⟩, ?_, by simp only; omega, by simpa using hin,
          fun m' hm fuel hfuel => ?_⟩
        · rw [blockChainLoop, if_neg hblock, if_pos hok]
        · obtain ⟨k, rfl⟩ : ∃ k, fuel = k + 1 := ⟨fuel - 1, by omega⟩
          have hsame := hm block (by simp)
          rw [chainRun, if_neg hblock, if_neg hguard, headerOk_congr hsame, nextOk_congr hsame,
            if_pos hok]
      by_cases hover : h.get T block .allocated ≠ 0 ∧
          computed > T.sizeMax - h.get T block .capacity
      · refine ⟨⟨false, visited + 1, [block]⟩, ?_, by simp only; omega, by simpa using hin,
          fun m' hm fuel hfuel => ?_⟩
        · rw [blockChainLoop, if_neg hblock, if_neg hok, if_pos hover]
        · obtain ⟨k, rfl⟩ : ∃ k, fuel = k + 1 := ⟨fuel - 1, by omega⟩
          have hsame := hm block (by simp)
          rw [chainRun, if_neg hblock, if_neg hguard, headerOk_congr hsame, nextOk_congr hsame,
            if_neg hok, get_congr hsame, get_congr hsame, if_pos hover]
      · obtain ⟨report, hanswer, hvisits, hread, hrun⟩ := ih (visited + 1)
          (h.get T block .next) block (found || block == h.ctl.nextFit)
          (computed + if h.get T block .allocated ≠ 0 then h.get T block .capacity else 0)
          (by omega)
        refine ⟨{ report with read := block :: report.read }, ?_, hvisits,
          List.forall_mem_cons.mpr ⟨hin, hread⟩, fun m' hm fuel hfuel => ?_⟩
        · rw [blockChainLoop, if_neg hblock, if_neg hok, if_neg hover]
          exact hanswer
        · obtain ⟨k, rfl⟩ : ∃ k, fuel = k + 1 := ⟨fuel - 1, by omega⟩
          have hhere := hm block (by simp)
          have hrest := hrun m' (fun b hb => hm b (by simp [hb])) k (by omega)
          rw [chainRun, if_neg hblock, if_neg hguard, headerOk_congr hhere, nextOk_congr hhere,
            if_neg hok, get_congr hhere, get_congr hhere, get_congr hhere, if_neg hover, hrest,
            Option.map_some]

/-- **The validator** ends, visits no more blocks than fit and one, reads headers inside the heap
only, and does the same on every memory that holds these headers. -/
lemma validateRun_spec (h : Heap) : ∃ report,
    report.answer = osAllocatorValidate T h ∧
      report.visited ≤ maximumBlocks T h.ctl + 1 ∧
      (∀ b ∈ report.read, InHeap T h.ctl b) ∧
      ∀ m', (∀ b ∈ report.read, SameHeader T h.mem m' b) →
        ∀ fuel, maximumBlocks T h.ctl + 2 ≤ fuel →
          validateRun T { h with mem := m' } fuel = some report := by
  unfold osAllocatorValidate blockChainValid validateRun
  dsimp only
  split
  · exact ⟨⟨false, 0, []⟩, rfl, Nat.zero_le _, by simp, fun _ _ _ _ => rfl⟩
  split
  · exact ⟨⟨false, 0, []⟩, rfl, Nat.zero_le _, by simp, fun _ _ _ _ => rfl⟩
  exact chainRun_spec (maximumBlocks T h.ctl) 0 h.ctl.firstBlock 0 false 0 (Nat.zero_add _)

/-! ### What is accepted -/

/-- The checks on one header say what it holds. -/
lemma header_of_ok {block previous : ℕ} (hok : headerOk T h block previous = true) :
    HeaderIs T h.ctl.cookie h.mem (blockAt T h block) previous (h.get T block .next) ∧
      addressCanHoldBlock T h.ctl block = true ∧ h.get T block .capacity % 8 = 0 ∧
      ∀ o ∈ (blockAt T h block).owner, o < memoryOwnerNone := by
  simp only [headerOk, memoryAlignment, Bool.and_eq_true, Bool.or_eq_true, beq_iff_eq,
    decide_eq_true_eq, Bool.not_eq_true', Bool.and_eq_false_iff, beq_eq_false_iff_ne, ne_eq,
    bne_eq_false_iff_eq] at hok
  obtain ⟨⟨⟨⟨⟨⟨⟨⟨hhold, hmarker⟩, hprev⟩, hstate⟩, hres⟩, hcap⟩, -⟩, hfree⟩, hheld⟩ := hok
  have hreserved := reservedBytesClear_iff.mp hres
  have howner : h.get T block .owner < 256 ^ 2 := load_lt ..
  refine ⟨fun f => ?_, hhold, hcap, fun o ho => ?_⟩
  · by_cases hzero : h.get T block .allocated = 0
    · have hnone : h.get T block .owner = memoryOwnerNone := hfree.resolve_left (not_not.mpr hzero)
      cases f with
      | marker => exact hmarker
      | capacity => rfl
      | next => rfl
      | previous => exact hprev
      | owner => simp only [headerField, blockAt, hzero, if_true]; exact hnone
      | allocated => simp only [headerField, blockAt, hzero, if_true]; exact hzero
      | reserved => exact hreserved
    · have hone : h.get T block .allocated = 1 := hstate.resolve_left hzero
      cases f with
      | marker => exact hmarker
      | capacity => rfl
      | next => rfl
      | previous => exact hprev
      | owner => simp only [headerField, blockAt, hzero, if_false]; rfl
      | allocated => simp only [headerField, blockAt, hzero, if_false]; exact hone
      | reserved => exact hreserved
  · by_cases hzero : h.get T block .allocated = 0
    · simp [blockAt, hzero] at ho
    · have hne := hheld.resolve_left hzero
      simp only [blockAt, if_neg hzero, Option.mem_def, Option.some.injEq] at ho
      unfold memoryOwnerNone uint16Max at hne ⊢
      omega

/-- What a run of the loop that accepts has seen. -/
structure Accepted (T : Target) (h : Heap) (block previous : ℕ) (found : Bool)
    (computed : ℕ) (bs : List Blk) : Prop where
  tiles : Tiles T.headerSize block bs h.ctl.heapEnd
  linked : Linked T h.ctl.cookie h.mem previous bs 0
  head : headAddr 0 bs = block
  aligned : ∀ b ∈ bs, b.capacity % 8 = 0
  owners : ∀ b ∈ bs, ∀ o ∈ b.owner, o < memoryOwnerNone
  cursor : found = true ∨ ∃ b ∈ bs, b.addr = h.ctl.nextFit
  allocated : computed + ownedBytes bs = h.ctl.allocatedBytes
  watermark : h.ctl.allocatedBytes ≤ h.ctl.highWatermarkBytes
  walk : ∀ fuel, bs.length ≤ fuel → blocksFrom T h fuel block = bs

/-- **The loop accepts chains only.** -/
lemma chainLoop_sound : ∀ (remaining block previous : ℕ) (found : Bool) (computed : ℕ),
    blockChainLoop T h remaining block previous found computed = true → block ≠ 0 →
    ∃ bs, bs.length ≤ remaining ∧ Accepted T h block previous found computed bs := by
  intro remaining
  induction remaining with
  | zero =>
    intro block previous found computed hloop hblock
    simp [blockChainLoop, hblock] at hloop
  | succ remaining ih =>
    intro block previous found computed hloop hblock
    rw [blockChainLoop, if_neg hblock] at hloop
    split at hloop
    · cases hloop
    next hok =>
    split at hloop
    · cases hloop
    simp only [Bool.or_eq_true, Bool.not_eq_true', not_or, Bool.not_eq_false] at hok
    obtain ⟨hheader, hnext⟩ := hok
    obtain ⟨hhead, hhold, hcap, howners⟩ := header_of_ok hheader
    have hhdr := headerSize_pos T
    have hstop : (blockAt T h block).stop T.headerSize =
        block + T.headerSize + h.get T block .capacity := rfl
    have howned : ∀ bs, computed + ownedBytes (blockAt T h block :: bs) =
        computed + (if h.get T block .allocated ≠ 0 then h.get T block .capacity else 0) +
          ownedBytes bs := by
      intro bs
      rw [ownedBytes_cons, ← Nat.add_assoc]
      by_cases hzero : h.get T block .allocated = 0 <;> simp [blockAt, hzero]
    have hcursor : (found || block == h.ctl.nextFit) = true →
        found = true ∨ ∃ b ∈ [blockAt T h block], b.addr = h.ctl.nextFit := by
      intro hf
      rcases Bool.or_eq_true _ _ ▸ hf with hf | hf
      · exact Or.inl hf
      · exact Or.inr ⟨blockAt T h block, by simp, by simpa [blockAt] using hf⟩
    rw [nextOk] at hnext
    split at hnext
    · -- the block reaches the end of the heap and is the last
      next hend =>
      rw [beq_iff_eq] at hnext
      have hlast : (blockAt T h block).stop T.headerSize = h.ctl.heapEnd := hend
      have hfinal : ((found || block == h.ctl.nextFit) &&
          computed + (if h.get T block .allocated ≠ 0 then h.get T block .capacity else 0) ==
            h.ctl.allocatedBytes &&
          decide (h.ctl.allocatedBytes ≤ h.ctl.highWatermarkBytes)) = true := by
        rw [hnext] at hloop
        cases remaining with
        | zero => simpa [blockChainLoop] using hloop
        | succ r => simpa [blockChainLoop] using hloop
      simp only [Bool.and_eq_true, beq_iff_eq, decide_eq_true_eq] at hfinal
      obtain ⟨⟨hfound, hsum⟩, hwater⟩ := hfinal
      refine ⟨[blockAt T h block], by simp, ⟨rfl, hlast⟩, ⟨?_, trivial⟩, rfl,
        List.forall_mem_singleton.mpr hcap, List.forall_mem_singleton.mpr howners, hcursor hfound, ?_, hwater, ?_⟩
      · rw [headAddr, ← hnext]
        exact hhead
      · rw [howned]
        simpa [ownedBytes] using hsum
      · intro fuel hfuel
        obtain ⟨k, rfl⟩ : ∃ k, fuel = k + 1 := ⟨fuel - 1, by simp at hfuel; omega⟩
        rw [blocksFrom, if_neg hblock, hnext]
        cases k <;> simp [blocksFrom]
    · -- the next header starts where the block stops
      simp only [Bool.and_eq_true, beq_iff_eq] at hnext
      obtain ⟨-, hnext⟩ := hnext
      obtain ⟨bs, hlen, hacc⟩ := ih _ _ _ _ hloop (by omega)
      refine ⟨blockAt T h block :: bs, by simpa using hlen, ⟨rfl, ?_⟩, ⟨?_, hacc.linked⟩, rfl,
        List.forall_mem_cons.mpr ⟨hcap, hacc.aligned⟩,
        List.forall_mem_cons.mpr ⟨howners, hacc.owners⟩, ?_, ?_, hacc.watermark, ?_⟩
      · rw [hstop, ← hnext]
        exact hacc.tiles
      · rw [hacc.head]
        exact hhead
      · rcases hacc.cursor with hf | ⟨b, hb, hcur⟩
        · rcases hcursor hf with hf | ⟨b, hb, hcur⟩
          · exact Or.inl hf
          · exact Or.inr ⟨b, by simp [List.mem_singleton.mp hb], hcur⟩
        · exact Or.inr ⟨b, by simp [hb], hcur⟩
      · rw [howned]
        exact hacc.allocated
      · intro fuel hfuel
        rw [List.length_cons] at hfuel
        obtain ⟨k, rfl⟩ : ∃ k, fuel = k + 1 := ⟨fuel - 1, by omega⟩
        rw [blocksFrom, if_neg hblock, hacc.walk k (by omega)]

/-- What the fields of the allocator object are: machine words. -/
structure WordFields (T : Target) (a : OsAllocator) : Prop where
  heapEnd : a.heapEnd < T.modulus
  cookie : a.cookie < T.modulus

/-- **What the validator accepts is a chain** that fills the heap, with the totals it says. -/
lemma validate_sound (hw : WordFields T h.ctl) (hvalid : osAllocatorValidate T h = true) :
    Chained T h (blocks T h) ∧ h.ctl.allocatedBytes = ownedBytes (blocks T h) ∧
      h.ctl.allocatedBytes ≤ h.ctl.highWatermarkBytes := by
  rw [osAllocatorValidate, blockChainValid] at hvalid
  split at hvalid
  · cases hvalid
  next h1 =>
  split at hvalid
  · cases hvalid
  next h2 =>
  simp only [Bool.or_eq_true, Bool.not_eq_true', beq_iff_eq, not_or, Bool.not_eq_false,
    memoryAlignment, not_le, not_not, ne_eq] at h1 h2
  obtain ⟨⟨⟨⟨hinit, hbegin⟩, hend⟩, hfirst⟩, hcur⟩ := h1
  obtain ⟨hlt, halign, halign', hfirst', hhold⟩ := h2
  obtain ⟨bs, hlen, hacc⟩ := chainLoop_sound _ _ _ _ _ hvalid hfirst
  have hblocks : blocks T h = bs := hacc.walk _ hlen
  have hroom : h.ctl.heapBegin + T.headerSize + 8 ≤ h.ctl.heapEnd := by
    have hpos : 0 < bs.length := by
      rw [List.length_pos_iff]
      rintro rfl
      exact hfirst hacc.head.symm
    have hone : 1 ≤ (h.ctl.heapEnd - h.ctl.heapBegin) / (T.headerSize + 8) :=
      Nat.le_trans hpos hlen
    have := (Nat.le_div_iff_mul_le (by omega)).mp hone
    omega
  rw [hblocks]
  refine ⟨⟨⟨hinit, by omega, halign, halign', hroom, hw.heapEnd, hfirst', hw.cookie⟩,
    hfirst' ▸ hacc.tiles, hacc.linked, hacc.aligned, hacc.owners, ?_⟩, ?_, hacc.watermark⟩
  · exact hacc.cursor.resolve_left Bool.false_ne_true
  · rw [← hacc.allocated, Nat.zero_add]

/-! ### Failing closed -/

/-- **Where the validator refuses**, no call hands out, takes back or writes anything. -/
structure FailsClosed (T : Target) (h : Heap) : Prop where
  alloc : ∀ size owner, ∃ h', osAllocatorAlloc T h size owner = some (h', 0) ∧ h'.mem = h.mem
  free : ∀ ptr owner, ptr ≠ 0 →
    ∃ h', osAllocatorFree T h ptr owner = some (h', false) ∧ h'.mem = h.mem
  releaseOwner : ∀ owner,
    ∃ h', osAllocatorReleaseOwner T h owner = some (h', 0) ∧ h'.mem = h.mem

lemma failsClosed (hinvalid : osAllocatorValidate T h = false) : FailsClosed T h := by
  have hchain : blockChainValid T h = false := hinvalid
  refine ⟨fun size owner => ?_, fun ptr owner hptr => ?_, fun owner => ?_⟩
  · by_cases hinit : h.ctl.initialized = true
    · exact ⟨incFailed h, by simp [osAllocatorAlloc, hinit, hchain], rfl⟩
    · exact ⟨h, by simp [osAllocatorAlloc, hinit], rfl⟩
  · by_cases hinit : h.ctl.initialized = true
    · exact ⟨incInvalid h, by simp [osAllocatorFree, hinit, hptr, hchain], rfl⟩
    · exact ⟨h, by simp [osAllocatorFree, hinit], rfl⟩
  · exact ⟨h, by simp [osAllocatorReleaseOwner, hchain], rfl⟩

/-- **The validator on arbitrary memory**: it ends, reads headers inside the heap and nothing
else, accepts chains only, and where it refuses the allocator fails closed. -/
theorem validate_arbitrary (h : Heap) (hw : WordFields T h.ctl) :
    (∃ report : Report,
      (∀ fuel, maximumBlocks T h.ctl + 2 ≤ fuel → validateRun T h fuel = some report) ∧
        report.answer = osAllocatorValidate T h ∧
        report.visited ≤ (h.ctl.heapEnd - h.ctl.heapBegin) / (T.headerSize + 8) + 1 ∧
        (∀ b ∈ report.read, InHeap T h.ctl b) ∧
        ∀ m', (∀ b ∈ report.read, SameHeader T h.mem m' b) →
          osAllocatorValidate T { h with mem := m' } = osAllocatorValidate T h) ∧
      (osAllocatorValidate T h = true →
        Chained T h (blocks T h) ∧ h.ctl.allocatedBytes = ownedBytes (blocks T h) ∧
          h.ctl.allocatedBytes ≤ h.ctl.highWatermarkBytes) ∧
      (osAllocatorValidate T h = false → FailsClosed T h) := by
  refine ⟨?_, validate_sound hw, failsClosed⟩
  obtain ⟨report, hanswer, hvisits, hread, hrun⟩ := validateRun_spec (T := T) h
  refine ⟨report, hrun h.mem fun _ _ _ _ _ => rfl, hanswer, hvisits, hread, fun m' hm => ?_⟩
  -- the run on the other memory is the same run
  obtain ⟨report', hanswer', -, -, hrun'⟩ := validateRun_spec (T := T) { h with mem := m' }
  have hsame := hrun m' hm _ le_rfl
  have hself := hrun' m' (fun _ _ _ _ _ => rfl) _ le_rfl
  rw [hsame, Option.some.injEq] at hself
  rw [← hanswer', ← hself, hanswer]

/-- An arena wiped after its initialisation. -/
def wiped : Heap := ⟨(osAllocatorInit .arm32 (fun _ => 0) 0x20001000 256).1.ctl, fun _ => 0⟩

theorem validate_arbitrary_wiped :
    osAllocatorValidate .arm32 wiped = false ∧ FailsClosed .arm32 wiped := by
  have hinvalid : osAllocatorValidate .arm32 wiped = false := by decide +kernel
  have hw : WordFields .arm32 wiped.ctl := ⟨by decide +kernel, by decide +kernel⟩
  exact ⟨hinvalid, (validate_arbitrary wiped hw).2.2 hinvalid⟩

end Aymos.HeapValidate
