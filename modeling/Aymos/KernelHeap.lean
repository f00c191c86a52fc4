import Aymos.Creation
import Aymos.HeapSearch
import Aymos.HeapSweep
import Aymos.MemoryTrace

/-!
The heap along the runs of the kernel.

The memory queries of the kernel see in every state a heap that is well formed and whose allocated
bytes are those of the tasks that hold a slot. Once no slot is occupied the arena is again one free
block. A block stays where it is, with its bytes, for as long as its owner keeps it.
-/

namespace Aymos.KernelHeap

open Words ByteMem Allocator HeapRepr HeapBlocks HeapOps HeapCalls HeapRun HeapStats HeapSearch
  HeapSweep Tiling Scheduler Trace WordMem Kernel Machine Handlers Frames Services Switch Slots
  Control Boot Ownership EmissionLog Startup Scenario Safety Creation MemoryTrace

/-! ### The queries -/

/-- `os_memory_stats` for the place `stats`; the inner `none` for a call that returns zero. -/
def osMemoryStats (k : KernelState) (stats : ℕ) : Option (Option OsMemoryStats) :=
  if !k.initialized || k.mode != .thread || stats == 0 then some none
  else osAllocatorGetStats .arm32 k.memoryAllocator

def osMemoryCountFragments (k : KernelState) (requestedSize : ℕ) : Option ℕ :=
  if !k.initialized || k.mode != .thread then some 0
  else osAllocatorCountFragments .arm32 k.memoryAllocator requestedSize

def osMemoryValidate (k : KernelState) : Bool :=
  if !k.initialized || k.mode != .thread then false
  else osAllocatorValidate .arm32 k.memoryAllocator

/-- The user slots that hold a task. -/
def occupiedSlots (k : KernelState) : List ℕ :=
  userSlots.filter fun i => (k.schedules i).state ≠ .dormant

/-! ### Bytes by owner -/

section Owners

variable {T : Target} {h : Heap} {bs : List Blk}

lemma heldBytes_cons (owner : ℕ) (b : Blk) (bs : List Blk) :
    heldBytes owner (b :: bs) = (if b.owner = some owner then b.capacity else 0) +
      heldBytes owner bs := by
  by_cases hown : b.owner = some owner <;> simp [heldBytes, heldBlocks, hown]

lemma sum_ite_eq (owners : List ℕ) (o n : ℕ) :
    (owners.map fun x => if some o = some x then n else 0).sum = owners.count o * n := by
  induction owners with
  | nil => simp
  | cons x owners ih =>
    rw [List.map_cons, List.sum_cons, ih, List.count_cons, Nat.add_mul, Nat.add_comm]
    by_cases hx : o = x
    · subst hx
      simp
    · simp [hx, Ne.symm hx]

/-- What one block adds to the holdings of a list of owners. -/
lemma sum_share {owners : List ℕ} (hnd : owners.Nodup) (b : Blk)
    (hown : ∀ o, b.owner = some o → o ∈ owners) :
    (owners.map fun o => if b.owner = some o then b.capacity else 0).sum =
      if b.owner.isSome then b.capacity else 0 := by
  cases ho : b.owner with
  | none => simp
  | some o =>
    rw [sum_ite_eq owners o, List.count_eq_one_of_mem hnd (hown o ho), Nat.one_mul]
    rfl

/-- **The owned bytes** are those of any list of owners without repetition that covers them. -/
lemma ownedBytes_eq_sum {owners : List ℕ} (hnd : owners.Nodup)
    (hown : ∀ b ∈ bs, ∀ o, b.owner = some o → o ∈ owners) :
    ownedBytes bs = (owners.map fun o => heldBytes o bs).sum := by
  induction bs with
  | nil => simp [ownedBytes, heldBytes, heldBlocks]
  | cons b bs ih =>
    have hrest := ih fun c hc => hown c (by simp [hc])
    have hfirst := sum_share hnd b (hown b (by simp))
    calc ownedBytes (b :: bs)
        = (if b.owner.isSome then b.capacity else 0) + ownedBytes bs := ownedBytes_cons b bs
      _ = (owners.map fun o => if b.owner = some o then b.capacity else 0).sum +
            (owners.map fun o => heldBytes o bs).sum := by rw [hfirst, hrest]
      _ = (owners.map fun o => heldBytes o (b :: bs)).sum := by
          rw [← List.sum_map_add]
          simp only [heldBytes_cons]

/-- **A heap without owners** is one free block. -/
lemma blocks_unowned (hi : HeapInv T h bs) (hfree : ∀ b ∈ bs, b.owner = none) :
    bs = [⟨h.ctl.heapBegin, h.ctl.heapEnd - h.ctl.heapBegin - T.headerSize, none⟩] := by
  have htiles := hi.tiles
  have hsep := hi.separated
  cases bs with
  | nil => exact absurd rfl hi.ne_nil
  | cons b rest =>
    cases rest with
    | cons c rest =>
      exact absurd ⟨hfree b (by simp), hfree c (by simp)⟩ (List.isChain_cons_cons.mp hsep).1
    | nil =>
      obtain ⟨haddr, hstop⟩ := htiles
      have hstop : b.addr + T.headerSize + b.capacity = h.ctl.heapEnd := hstop
      have hnone := hfree b (by simp)
      obtain ⟨addr, capacity, owner⟩ := b
      simp only at haddr hstop hnone
      subst haddr hnone
      have hcapacity : h.ctl.heapEnd - h.ctl.heapBegin - T.headerSize = capacity := by omega
      rw [hcapacity]

/-- Free blocks are kept apart by blocks in use. -/
lemma freeCount_le (hsep : Separated bs) : freeCount bs ≤ ownedCount bs + 1 := by
  -- after a block in use the free blocks do not outnumber the others
  suffices hstrong : ∀ bs : List Blk, Separated bs → freeCount bs ≤ ownedCount bs + 1 ∧
      ((∀ b ∈ bs.head?, b.owner ≠ none) → freeCount bs ≤ ownedCount bs) from (hstrong bs hsep).1
  intro bs
  induction bs with
  | nil => exact fun _ => ⟨by simp [freeCount], fun _ => by simp [freeCount]⟩
  | cons b bs ih =>
    intro hsep
    obtain ⟨hle, hlead⟩ := ih hsep.tail
    have hfree : freeCount (b :: bs) = freeCount bs + if b.owner.isNone then 1 else 0 :=
      List.countP_cons
    have hused : ownedCount (b :: bs) = ownedCount bs + if b.owner.isSome then 1 else 0 :=
      List.countP_cons
    rw [hfree, hused]
    cases ho : b.owner with
    | some o => exact ⟨by simp; omega, fun _ => by simp; omega⟩
    | none =>
      have hnext : ∀ c ∈ bs.head?, c.owner ≠ none := by
        intro c hc hnone
        cases bs with
        | nil => cases hc
        | cons d bs =>
          obtain rfl : d = c := by simpa using hc
          exact (List.isChain_cons_cons.mp hsep).1 ⟨ho, hnone⟩
      have hrest := hlead hnext
      exact ⟨by simp; omega, fun hhead => absurd ho (hhead b (by simp))⟩

/-- The free bytes are at most as many of the largest free block as there are free blocks. -/
lemma freeBytes_le (bs : List Blk) : freeBytes bs ≤ freeCount bs * largestFree bs := by
  have hbound : ∀ cs : List ℕ, cs.sum ≤ cs.length * cs.foldr max 0 := by
    intro cs
    induction cs with
    | nil => simp
    | cons c cs ih =>
      have hmono : cs.length * cs.foldr max 0 ≤ cs.length * max c (cs.foldr max 0) :=
        Nat.mul_le_mul_left _ (le_max_right _ _)
      have hc : c ≤ max c (cs.foldr max 0) := le_max_left _ _
      rw [List.sum_cons, List.length_cons, List.foldr_cons, Nat.add_mul, Nat.one_mul]
      omega
  have h := hbound ((bs.filter fun b => b.owner.isNone).map Block.capacity)
  rwa [List.length_map, ← List.countP_eq_length_filter] at h

/-- Something fits exactly when the largest free block does. -/
lemma firstFit_largest (hi : HeapInv T h bs) {n : ℕ} (hn : 0 < n) :
    firstFit T h n ≠ none ↔ n ≤ largestFree bs := by
  have hmax : ∀ cs : List ℕ, n ≤ cs.foldr max 0 ↔ ∃ c ∈ cs, n ≤ c := by
    intro cs
    induction cs with
    | nil => simp; omega
    | cons c cs ih => simp [ih]
  rw [ne_eq, firstFit_eq_none hi, largestFree, hmax]
  simp only [not_forall, not_not, List.mem_map, List.mem_filter, Option.isNone_iff_eq_none]
  constructor
  · rintro ⟨b, hb, hfree, hfit⟩
    exact ⟨b.capacity, ⟨b, ⟨hb, hfree⟩, rfl⟩, hfit⟩
  · rintro ⟨_, ⟨b, ⟨hb, hfree⟩, rfl⟩, hfit⟩
    exact ⟨b, hb, hfree, hfit⟩

/-- **How much room is enough** for a request, however the heap is cut up. -/
lemma fits_of_room (hi : HeapInv T h bs) {n : ℕ} (hn : 0 < n)
    (hroom : (ownedCount bs + 1) * n ≤ freeBytes bs) : firstFit T h n ≠ none := by
  rw [firstFit_largest hi hn]
  by_contra hlt
  have hlt : largestFree bs < n := by omega
  have hcount := freeCount_le hi.separated
  have hfew : freeBytes bs ≤ (ownedCount bs + 1) * largestFree bs :=
    (freeBytes_le bs).trans (Nat.mul_le_mul_right _ hcount)
  have hless : (ownedCount bs + 1) * largestFree bs < (ownedCount bs + 1) * n :=
    Nat.mul_lt_mul_of_pos_left hlt (by omega)
  omega

end Owners

variable {img : Image} {k k' : KernelState} {l : Label} {P Q : KernelState → Label → Prop}
  {labels more : List Label}

/-! ### A task that holds a block -/

/-- A caller has a number that the heap takes for an owner. -/
lemma memoryCallValid.owner_lt (h : memoryCallValid k) : k.currentTask < memoryOwnerNone :=
  (mem_userSlots.mp (memoryCallValid.slot h).1).2.trans (by decide)

/-- A call for one byte when nobody owns a block. -/
lemma alloc_first {bs : List Blk} (hi : HeapInv .arm32 k.memoryAllocator bs)
    (hfree : ∀ b ∈ bs, b.owner = none) (hcall : memoryCallValid k) (hat : atUser img k = true)
    (hroom : k.memoryAllocator.ctl.heapBegin + Target.headerSize .arm32 + 8 ≤
      k.memoryAllocator.ctl.heapEnd) :
    ∃ k' b, Step img k (.alloc 1) k' ∧ b ∈ blocks .arm32 k'.memoryAllocator ∧
      b.owner = some k.currentTask ∧ ctl k' = ctl k := by
  have hone := blocks_unowned hi hfree
  have hfit : firstFit .arm32 k.memoryAllocator 8 ≠ none := by
    refine fits_of_room hi (by decide) ?_
    rw [hone]
    simp [ownedCount, freeBytes]
    omega
  obtain ⟨b, hb⟩ := Option.ne_none_iff_exists'.mp hfit
  have howner := memoryCallValid.owner_lt hcall
  have hrun := @alloc_eq _ _ _ hi 1 _ 8 (by decide) howner (by decide)
  rw [hb] at hrun
  obtain ⟨hbm, hbfree, hbfit⟩ : b ∈ bs ∧ b.owner = none ∧ 8 ≤ b.capacity := by
    have hfound := List.find?_some hb
    simp only [fits, Bool.and_eq_true, Option.isNone_iff_eq_none, decide_eq_true_eq] at hfound
    exact ⟨(payload_pos hi hb).1, hfound⟩
  obtain ⟨pre, post, rfl⟩ := List.append_of_mem hbm
  obtain ⟨hinv, -, -⟩ := takeBlock_spec hi hbfree (by decide) (by decide) hbfit howner
  obtain ⟨rest, hcarve⟩ := carve_eq (T := .arm32) b 8 k.currentTask
  rw [hcarve] at hinv
  have hexec : exec img k (.alloc 1) = .ok (allocated img k
      (takeBlock .arm32 k.memoryAllocator b.addr 8 k.currentTask) 1
      (b.payload (Target.headerSize .arm32))) := by
    rw [exec, osMemoryAlloc_eq, if_pos hcall, hrun]
    rfl
  refine ⟨_, ⟨b.addr, carvedCapacity .arm32 b 8, some k.currentTask⟩, ⟨hat, hexec⟩, ?_, rfl, rfl⟩
  change _ ∈ blocks .arm32 (takeBlock .arm32 k.memoryAllocator b.addr 8 k.currentTask)
  rw [blocks_eq hinv]
  exact List.mem_append_right _ (List.mem_append_left _ (List.mem_cons_self ..))

/-- A task that runs alone. -/
def holding : Ctl := launched (soloCtl (oneShot 0 10))

/-- A run in which it holds a block. -/
lemma holder_reached : ∃ labels k b, Reaches sampleImage Disciplined labels k ∧ ctl k = holding ∧
    b ∈ blocks .arm32 k.memoryAllocator ∧ b.owner = some 1 := by
  obtain ⟨labels, k, hr, hctl, hnone⟩ := stage_launched (oneShot 0 10) (by decide) (by decide)
  obtain ⟨labels₁, k₁, hset, hr₁, hctl₁, hat⟩ := settle hr (hctl ▸ ⟨rfl, fun h => nomatch h⟩)
    fun _ => congrArg Ctl.active hctl
  have hctl₁ : ctl k₁ = holding := hctl₁.trans hctl
  obtain ⟨bs, hi, hfree⟩ := hset.unowned hr.reaches.control hnone
  have hcall : memoryCallValid k₁ := memoryCallValid_of_userCalls (by
    rw [hctl₁]
    exact ⟨rfl, rfl, by decide, by decide, rfl, by decide⟩)
  obtain ⟨-, hbegin, hend⟩ := arena_of_reaches hr₁.reaches
  obtain ⟨k₂, b, hs, hb, hown, hctl₂⟩ :=
    alloc_first hi hfree hcall hat (by rw [hbegin, hend]; exact sampleImage.heap_room)
  have hcurrent : k₁.currentTask = 1 := congrArg Ctl.current hctl₁
  exact ⟨_, k₂, b, hr₁.reaches.step (l := .alloc 1) trivial hs, hctl₂.trans hctl₁, hb,
    hown.trans (congrArg some hcurrent)⟩

/-- A step that does not reach the heap, at the end of a run. -/
lemma Goes.run {c c' : Ctl} {log : Log} {bs : List (List TraceInput)} {k₀ : KernelState}
    (hg : Goes c log l c' bs) (hr : Logged sampleImage Disciplined labels k log) (hctl : ctl k = c)
    (hl : reachesHeap l = false) (hrun : Run sampleImage Disciplined k₀ more k) :
    ∃ labels' more' k', Logged sampleImage Disciplined labels' k' (log ++ entries c'.ticks bs) ∧
      Run sampleImage Disciplined k₀ more' k' ∧ ctl k' = c' ∧
      k'.memoryAllocator = k.memoryAllocator := by
  have hcommit : l = .pendCommit → Unowned k := fun heq => by
    rw [heq] at hl
    cases hl
  obtain ⟨labels₁, k₁, k', hset, hr₁, -, hd, hs, he, rfl, -⟩ := hg labels k hr hctl hcommit
  have hmem := memory_frame sampleImage (ControlInv.wellIndexed hr₁.reaches.control) hs hl
  have hlog := hr₁.step hd hs he
  rcases hset with ⟨-, rfl⟩ | ⟨-, hs₀, -⟩
  · exact ⟨_, _, k', hlog, hrun.step hd hs, rfl, hmem⟩
  · have hmem₀ := memory_frame sampleImage (ControlInv.wellIndexed hr.reaches.control) hs₀ rfl
    exact ⟨_, _, k', hlog, (hrun.step (l := .trampoline) trivial hs₀).step hd hs, rfl,
      hmem.trans hmem₀⟩

/-- The task has exited, and `PendSV_Handler` is entered. -/
def leaving : Ctl :=
  { called holding switchExit (inState (osSchedCompleteJob (incumbent holding) 0).1 .exiting) with
    mode := .pendsvEntry, pendsv := false }

/-- A run in which the task that holds a block exits. -/
lemma holder_exits : ∃ labels k b labels' more k', Reaches sampleImage Disciplined labels k ∧
    ctl k = holding ∧ b ∈ blocks .arm32 k.memoryAllocator ∧ b.owner = some 1 ∧
    Reaches sampleImage Disciplined labels' k' ∧ Run sampleImage Disciplined k more k' ∧
    ctl k' = leaving ∧ k'.memoryAllocator = k.memoryAllocator := by
  obtain ⟨labels, k, b, hr, hctl, hb, hown⟩ := holder_reached
  obtain ⟨log, hlog⟩ := Logged.of_reaches hr
  have hex : executing holding := ⟨rfl, fun h => nomatch h⟩
  obtain ⟨labels₁, more₁, k₁, hlog₁, hrun₁, hctl₁, hmem₁⟩ := Goes.run (.taskExit hex
    ⟨rfl, rfl, by decide, by decide, rfl, by decide⟩ rfl (Prod.ext rfl (by decide))) hlog hctl rfl
    .nil
  obtain ⟨labels₂, more₂, k₂, hlog₂, hrun₂, hctl₂, hmem₂⟩ :=
    Goes.run (.pendEnter rfl rfl rfl) hlog₁ hctl₁ rfl hrun₁
  exact ⟨labels, k, b, labels₂, more₂, k₂, hr, hctl, hb, hown, hlog₂.reaches, hrun₂, hctl₂,
    hmem₂.trans hmem₁⟩

/-! ### What the queries answer -/

/-- Every owner holds an occupied slot. -/
lemma owner_occupied {bs : List Blk} (hown : ∀ b ∈ bs, ∀ o, b.owner = some o →
    o ∈ userSlots ∧ (k.schedules o).state ≠ .dormant) :
    ∀ b ∈ bs, ∀ o, b.owner = some o → o ∈ occupiedSlots k := by
  intro b hb o ho
  obtain ⟨hu, hn⟩ := hown b hb o ho
  exact List.mem_filter.mpr ⟨hu, by simpa using hn⟩

/-- What the memory queries answer in a state. -/
structure Accounts (img : Image) (k : KernelState) : Prop where
  valid : osMemoryValidate k = true
  stats : ∀ place ≠ 0, ∃ stats, osMemoryStats k place = some (some stats) ∧
    stats.heapBytes = img.heapEnd - img.heapStart ∧
    stats.allocatedBytes =
      ((occupiedSlots k).map fun i => heldBytes i (blocks .arm32 k.memoryAllocator)).sum ∧
    stats.payloadCapacityBytes = stats.allocatedBytes + stats.freeBytes

/-- **The memory queries** of the kernel account for every byte by the slot that holds it, in every
state reached in which a thread runs; and as soon as no slot is occupied, whatever was allocated
before and in whatever order it was given back, the arena is one free block again. -/
theorem memory_accounted (h : Reaches img P labels k) (hmode : k.mode = .thread) :
    Accounts img k ∧ (occupiedSlots k = [] →
      blocks .arm32 k.memoryAllocator =
        [⟨img.heapStart, img.heapEnd - img.heapStart - Target.headerSize .arm32, none⟩]) := by
  have hinit := (vacated_of_reaches h).initialized
  obtain ⟨⟨bs, hi, hown⟩, hbegin, hend⟩ := arena_of_reaches h
  have hcover := owner_occupied hown
  have hnodup : (occupiedSlots k).Nodup := (by decide : userSlots.Nodup).filter _
  refine ⟨⟨?_, fun place hplace => ?_⟩, fun hempty => ?_⟩
  · rw [osMemoryValidate, if_neg (by simp [hinit, hmode])]
    exact hi.valid
  · have hstats := getStats_eq hi
    rw [osMemoryStats, if_neg (by simp [hinit, hmode, hplace])]
    refine ⟨_, hstats, by rw [← hbegin, ← hend], ?_, ?_⟩
    · rw [blocks_eq hi, ← ownedBytes_eq_sum hnodup hcover]
      exact hi.allocated
    · simp only [hi.allocated]
      exact payloadBytes_eq bs
  · rw [blocks_eq hi, ← hbegin, ← hend]
    refine blocks_unowned hi fun b hb => ?_
    cases ho : b.owner with
    | none => rfl
    | some o =>
      have hmem := hcover b hb o ho
      rw [hempty] at hmem
      cases hmem

/-- While a task holds a block, and when that task, the last one, has exited. -/
theorem memory_accounted_reclaimed : ∃ labels k b more k', Reaches sampleImage Disciplined labels k ∧
    Accounts sampleImage k ∧ b ∈ blocks .arm32 k.memoryAllocator ∧ b.owner = some 1 ∧
    Run sampleImage Disciplined k more k' ∧ Accounts sampleImage k' ∧
    blocks .arm32 k'.memoryAllocator = [⟨sampleImage.heapStart,
      sampleImage.heapEnd - sampleImage.heapStart - Target.headerSize .arm32, none⟩] := by
  obtain ⟨labels, k, b, labels₁, more, k₁, hr, hctl, hb, hown, hr₁, hrun, hctl₁, -⟩ := holder_exits
  -- the reclaim
  have hen : enabled sampleImage k₁ .pendCommit = true := by
    have hm : k₁.mode = .pendsvEntry := congrArg Ctl.mode hctl₁
    simp [enabled, hm]
  obtain ⟨k₂, hexec, -⟩ := (safeInv_of_reaches hr₁).progress hen trivial
  have hr₂ := hr₁.step (l := .pendCommit) trivial ⟨hen, hexec⟩
  obtain ⟨bs, he⟩ := emitted_of_step hr₁.control ⟨hen, hexec⟩
  have hctl₂ : ctl k₂ = resumed (retired leaving) (next (retired leaving)) :=
    hctl₁ ▸ (commit_inv he.control).after
  obtain ⟨log, hlog⟩ := Logged.of_reaches hr₂
  obtain ⟨labels₃, more₃, k₃, hlog₃, hrun₃, hctl₃, -⟩ := Goes.run (.pendReturn rfl) hlog hctl₂ rfl
    (hrun.step (l := .pendCommit) trivial ⟨hen, hexec⟩)
  have hslots : occupiedSlots k₃ = [] := by
    have hsched : k₃.schedules = (resumed (retired leaving) (next (retired leaving))).schedules :=
      congrArg Ctl.schedules hctl₃
    rw [occupiedSlots, hsched]
    decide
  obtain ⟨haccounts, -⟩ := memory_accounted hr (congrArg Ctl.mode hctl)
  obtain ⟨haccounts', hempty⟩ := memory_accounted hlog₃.reaches (congrArg Ctl.mode hctl₃)
  exact ⟨labels, k, b, more₃, k₃, hr, haccounts, hb, hown, hrun₃, haccounts', hempty hslots⟩

/-! ### Admission -/

/-- The queries foretell the answer `r` to a request of `size` bytes. -/
structure Foretold (stats : OsMemoryStats) (fragments size r : ℕ) : Prop where
  largest : r ≠ 0 ↔ roundedSize size ≤ stats.largestFreeBlockBytes
  fragments : r ≠ 0 ↔ fragments < stats.freeBlocks
  scattered : stats.freeBlocks ≤ stats.allocatedBlocks + 1
  enough : (stats.allocatedBlocks + 1) * roundedSize size ≤ stats.freeBytes → r ≠ 0

/-- **The queries foretell every allocation.** In every state reached, a request of a running user
task is granted exactly when its rounded size is at most the largest free block, which is exactly
when some free block is not one of the fragments counted for it. Free blocks are never more than
one in excess of those in use, so that a request is granted however the heap is cut up once the
free bytes would hold it that many times. -/
theorem alloc_foretold (h : Reaches img P labels k) (hcall : memoryCallValid k)
    {size place : ℕ} (hsize : 0 < size) (hmax : size ≤ Target.sizeMax .arm32 - 7)
    (hplace : place ≠ 0) :
    ∃ stats fragments k' r, osMemoryStats k place = some (some stats) ∧
      osMemoryCountFragments k size = some fragments ∧ osMemoryAlloc img k size = .ok (k', r) ∧
      Foretold stats fragments size r := by
  have hinit := (vacated_of_reaches h).initialized
  obtain ⟨⟨bs, hi, -⟩, -, -⟩ := arena_of_reaches h
  have hmode := hcall.1
  have hlt := memoryCallValid.owner_lt hcall
  -- no rounding is clipped on the target
  have hclip : clippedSize size = roundedSize size := by
    refine clippedSize_of_lt ?_
    unfold Target.sizeMax Target.modulus Target.wordBytes at hmax
    simp only at hmax
    omega
  have hpos : 0 < roundedSize size := by
    unfold roundedSize
    omega
  have halign : alignUpSize .arm32 size = some (roundedSize size) := by
    rw [alignUpSize_eq hmax, hclip, if_neg (by omega)]
  have hstats : osMemoryStats k place = osAllocatorGetStats .arm32 k.memoryAllocator := by
    rw [osMemoryStats, if_neg (by simp [hinit, hmode, hplace])]
  have hcount : osMemoryCountFragments k size = some (smallCount (roundedSize size) bs) := by
    rw [osMemoryCountFragments, if_neg (by simp [hinit, hmode])]
    exact countFragments_eq hi (by omega) halign
  have hfrag := firstFit_none_iff hi (n := roundedSize size)
  have hsmall : smallCount (roundedSize size) bs ≤ freeCount bs :=
    List.countP_mono_left fun b _ hb => (Bool.and_eq_true _ _ ▸ hb).1
  have hgranted : ∃ k' r, osMemoryAlloc img k size = .ok (k', r) ∧
      (r ≠ 0 ↔ firstFit .arm32 k.memoryAllocator (roundedSize size) ≠ none) := by
    rw [osMemoryAlloc_eq, if_pos hcall, alloc_eq hi (by omega) hlt halign]
    cases hfit : firstFit .arm32 k.memoryAllocator (roundedSize size) with
    | none => exact ⟨_, _, rfl, by simp⟩
    | some b =>
      have := (payload_pos hi hfit).2
      exact ⟨_, _, rfl, by simp only [ne_eq, reduceCtorEq, not_false_eq_true, iff_true]; omega⟩
  obtain ⟨k', r, hrun, hr⟩ := hgranted
  refine ⟨_, _, k', r, hstats.trans (getStats_eq hi), hcount, hrun, ⟨?_, ?_, ?_, ?_⟩⟩
  · rw [hr]
    exact firstFit_largest hi hpos
  · rw [hr, ne_eq, hfrag]
    exact ⟨fun hne => lt_of_le_of_ne hsmall hne, fun hless heq => absurd heq (Nat.ne_of_lt hless)⟩
  · exact freeCount_le hi.separated
  · exact fun hroom => hr.mpr (fits_of_room hi hpos hroom)

/-- For a request of twenty bytes in a run with one task. -/
theorem alloc_foretold_twenty : ∃ labels k, Reaches sampleImage Disciplined labels k ∧
    ∃ stats fragments k' r, osMemoryStats k 8 = some (some stats) ∧
      osMemoryCountFragments k 20 = some fragments ∧
      osMemoryAlloc sampleImage k 20 = .ok (k', r) ∧ Foretold stats fragments 20 r := by
  obtain ⟨labels, k, hr, hcall⟩ := caller_reached
  exact ⟨labels, k, hr, alloc_foretold hr hcall (by decide) (by decide) (by decide)⟩

/-! ### The life of a block -/

/-- The step neither gives the block `b` back, nor reclaims its owner, nor writes to its payload. -/
def Spares (b : Blk) (k : KernelState) : Label → Prop
  | .free pointer => pointer = b.payload (Target.headerSize .arm32) → b.owner ≠ some k.currentTask
  | .pendCommit => Exits k → b.owner ≠ some k.currentTask
  | .heapWrite addr _ =>
    addr < b.payload (Target.headerSize .arm32) ∨ b.stop (Target.headerSize .arm32) ≤ addr
  | _ => True

/-- `b` is a block of the heap of both kernels, with the same bytes. -/
structure Survives (b : Blk) (k k' : KernelState) : Prop where
  block : b ∈ blocks .arm32 k'.memoryAllocator
  bytes : ∀ x, b.payload (Target.headerSize .arm32) ≤ x → x < b.stop (Target.headerSize .arm32) →
    k'.memoryAllocator.mem x = k.memoryAllocator.mem x

section Calls

variable {T : Target} {h h' : Heap} {bs : List Blk} {b : Blk}

/-- An allocation leaves the blocks in use as they are. -/
lemma alloc_spares (hi : HeapInv T h bs) (hb : b ∈ bs) (hown : b.owner ≠ none) {size owner r : ℕ}
    (ho : owner ≤ uint16Max) (hrun : osAllocatorAlloc T h size owner = some (h', r)) :
    b ∈ blocks T h' ∧ ∀ x, b.payload T.headerSize ≤ x → x < b.stop T.headerSize →
      h'.mem x = h.mem x := by
  rcases alloc_cases hi size ho with hfail | ⟨pre, c, post, n, rfl, hfree, hlt, hn, hfit, hok⟩
  · rw [hfail, Option.some.injEq, Prod.mk.injEq] at hrun
    obtain ⟨rfl, rfl⟩ := hrun
    have hinv : HeapInv T (incFailed h) bs := heapInv_of_ctl hi rfl rfl rfl rfl
    exact ⟨by rwa [blocks_eq hinv], fun x _ _ => rfl⟩
  · rw [hok, Option.some.injEq, Prod.mk.injEq] at hrun
    obtain ⟨rfl, rfl⟩ := hrun
    obtain ⟨hn8, hn'⟩ := alignUpSize_mod hn
    obtain ⟨hinv, -, hmem⟩ := takeBlock_spec hi hfree hn8 hn' hfit hlt
    -- the block carved was free, so it is another one
    have hb' : b ∈ pre ++ (carve T c n owner ++ post) := by
      simp only [List.mem_append, List.mem_cons] at hb ⊢
      rcases hb with hb | rfl | hb
      · exact Or.inl hb
      · exact absurd hfree hown
      · exact Or.inr (Or.inr hb)
    refine ⟨by rwa [blocks_eq hinv], fun x h1 h2 => hmem x ?_⟩
    exact outside_of_payload hinv.tiles hb' h1 h2

/-- A release leaves every other block in use as it is. -/
lemma free_spares (hi : HeapInv T h bs) (hb : b ∈ bs) (hown : b.owner ≠ none)
    {pointer owner : ℕ} {r : Bool}
    (hspare : pointer = b.payload T.headerSize → b.owner ≠ some owner)
    (hrun : osAllocatorFree T h pointer owner = some (h', r)) :
    b ∈ blocks T h' ∧ ∀ x, b.payload T.headerSize ≤ x → x < b.stop T.headerSize →
      h'.mem x = h.mem x := by
  rcases free_cases hi pointer owner with ⟨-, hnull⟩ | ⟨-, hbad⟩ | ⟨pre, c, post, rfl, hc, rfl⟩
  · rw [hnull, Option.some.injEq, Prod.mk.injEq] at hrun
    obtain ⟨rfl, rfl⟩ := hrun
    exact ⟨by rwa [blocks_eq hi], fun x _ _ => rfl⟩
  · rw [hbad, Option.some.injEq, Prod.mk.injEq] at hrun
    obtain ⟨rfl, rfl⟩ := hrun
    have hinv : HeapInv T (incInvalid h) bs := heapInv_of_ctl hi rfl rfl rfl rfl
    exact ⟨by rwa [blocks_eq hinv], fun x _ _ => rfl⟩
  · obtain ⟨h₁, hacc, hinv, -, hmem⟩ := free_accepted hi hc
    rw [hacc, Option.some.injEq, Prod.mk.injEq] at hrun
    obtain ⟨rfl, rfl⟩ := hrun
    have hne : b ≠ c := fun heq => hspare (by rw [heq]) (by rw [heq, hc])
    refine ⟨?_, fun x h1 h2 => hmem x (outside_of_payload hi.tiles hb h1 h2)⟩
    rw [blocks_eq hinv]
    refine mem_coalesce ?_ hown
    simp only [List.mem_append, List.mem_cons] at hb ⊢
    rcases hb with hb | rfl | hb
    · exact Or.inl hb
    · exact absurd rfl hne
    · exact Or.inr (Or.inr hb)

end Calls

variable {b : Blk}

/-- **A step that spares a block** leaves it as it is. -/
lemma survives_step (hc : ControlInv (ctl k)) (ho : HeapOwned k) (hs : Step img k l k')
    (hb : b ∈ blocks .arm32 k.memoryAllocator) (hown : b.owner ≠ none) (hspare : Spares b k l) :
    Survives b k k' := by
  obtain ⟨bs, hi, -⟩ := ho
  by_cases hreach : reachesHeap l = false
  · rw [← memory_frame img (ControlInv.wellIndexed hc) hs hreach] at hb
    exact ⟨hb, fun x _ _ => by rw [memory_frame img (ControlInv.wellIndexed hc) hs hreach]⟩
  have hb' := hb
  rw [blocks_eq hi] at hb'
  cases l with
  | alloc size =>
    obtain ⟨r, hcall, rfl⟩ := map_eq_ok.mp hs.exec
    rcases osMemoryAlloc_cases img hcall with heq | ⟨hvalid, heap, result, hrun, heq⟩
    · rw [heq]
      exact ⟨hb, fun _ _ _ => rfl⟩
    · rw [heq]
      obtain ⟨hmem, hbytes⟩ :=
        alloc_spares hi hb' hown (owner_le (memoryCallValid.slot hvalid).1) hrun
      exact ⟨hmem, hbytes⟩
  | free pointer =>
    obtain ⟨r, hcall, rfl⟩ := map_eq_ok.mp hs.exec
    rcases osMemoryFree_cases img hcall with heq | ⟨-, heap, result, hrun, heq⟩
    · rw [heq]
      exact ⟨hb, fun _ _ _ => rfl⟩
    · rw [heq]
      obtain ⟨hmem, hbytes⟩ := free_spares hi hb' hown hspare hrun
      exact ⟨hmem, hbytes⟩
  | heapWrite addr value =>
    have hen := hs.enabled
    simp only [enabled, blocks_eq hi, Bool.and_eq_true, List.all_eq_true, Bool.or_eq_true,
      decide_eq_true_eq] at hen
    cases hs.exec
    have hinv : HeapInv .arm32 { k.memoryAllocator with
        mem := Function.update k.memoryAllocator.mem addr value } bs :=
      heapInv_congr hi fun x hx => Function.update_of_ne
        (fun heq : x = addr => hx fun c hcm => heq ▸ hen.2 c hcm) _ _
    refine ⟨by rwa [blocks_eq hinv], fun x h1 h2 => Function.update_of_ne (fun heq => ?_) _ _⟩
    subst heq
    rcases hspare with hlt | hge
    · exact absurd h1 (by omega)
    · exact absurd h2 (by omega)
  | pendCommit =>
    by_cases hexit : Exits k
    · obtain ⟨bs', hi', hblocks, hmem⟩ := reclaim_blocks hi hs.exec hexit
      obtain ⟨o, ho⟩ := Option.ne_none_iff_exists'.mp hown
      have hne : o ≠ k.currentTask := fun heq => hspare hexit (by rw [ho, heq])
      refine ⟨?_, fun x h1 h2 => hmem x (outside_of_payload hi.tiles hb' h1 h2)⟩
      rw [blocks_eq hi']
      exact (hblocks b o ho).mpr ⟨hb', hne⟩
    · rw [← commit_memory hs.exec hexit] at hb
      exact ⟨hb, fun x _ _ => by rw [commit_memory hs.exec hexit]⟩
  | _ => exact absurd rfl hreach

/-- **A block outlives whatever the other tasks do.** From any state reached on, however the tasks
call and whichever pointers they pass, a block in use stays where it is, with its capacity, its
owner and its bytes, as long as its owner does not give it back, its owner is not reclaimed and
nobody writes to its payload. -/
theorem block_outlives (h : Reaches img P labels k) (hrun : Run img Q k more k')
    (hspare : ∀ k l, Q k l → Spares b k l) (hb : b ∈ blocks .arm32 k.memoryAllocator)
    (hown : b.owner ≠ none) : Survives b k k' := by
  have hall : ControlInv (ctl k') ∧ HeapOwned k' ∧ Survives b k k' := by
    induction hrun with
    | nil => exact ⟨h.control, (arena_of_reaches h).1, hb, fun _ _ _ => rfl⟩
    | step hrun hq hs ih =>
      obtain ⟨hc, ho, hsurvives⟩ := ih
      obtain ⟨bs, hctl, -⟩ := control_step img (ControlInv.wellIndexed hc) hs
      have hstep := survives_step hc ho hs hsurvives.block hown (hspare _ _ hq)
      exact ⟨hc.step hctl, ho.step hc hs, hstep.block,
        fun x h1 h2 => (hstep.bytes x h1 h2).trans (hsurvives.bytes x h1 h2)⟩
  exact hall.2.2

/-- A block over one tick of the clock. -/
theorem block_outlives_tick : ∃ labels k b k', Reaches sampleImage Disciplined labels k ∧
    b ∈ blocks .arm32 k.memoryAllocator ∧ Run sampleImage (Spares b) k [.tick] k' ∧
    Survives b k k' := by
  obtain ⟨labels, k, b, hr, hctl, hb, hown⟩ := holder_reached
  have hen : enabled sampleImage k .tick = true := by
    have hmask : k.cpu.primask = false := congrArg Ctl.masked hctl
    simp [enabled, hmask]
  have hd : Disciplined k .tick := by
    have hticks : k.monotonicTicks = 0 := congrArg Ctl.ticks hctl
    rw [Disciplined, hticks]
    decide
  obtain ⟨k', hexec, -⟩ := (safeInv_of_reaches hr).progress hen hd
  have hrun : Run sampleImage (Spares b) k [.tick] k' := .step .nil trivial ⟨hen, hexec⟩
  exact ⟨labels, k, b, k', hr, hb, hrun,
    block_outlives hr hrun (fun _ _ h => h) hb (by rw [hown]; exact Option.some_ne_none 1)⟩

end Aymos.KernelHeap
