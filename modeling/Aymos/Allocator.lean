import Aymos.ByteMem
import Aymos.Words

/-!
The next-fit allocator of `kernel/src/allocator.c`.

Block headers live in the arena between the payloads, so the model keeps the arena as raw
bytes and reads and writes header fields through them. The same source is compiled for the
32-bit firmware and for the 64-bit hosts that run the native tests; `Target` fixes the width
of pointers and of `size_t`. Pointers are addresses and `NULL` is zero. The loops that follow
`next` pointers carry fuel and return `none` when it runs out.
-/

namespace Aymos.Allocator

open ByteMem Words

/-- What the allocator is compiled for. -/
inductive Target
  | arm32
  | host64
  deriving DecidableEq, Repr

/-- `sizeof(uintptr_t)`, which is also `sizeof(size_t)`. -/
def Target.wordBytes : Target → ℕ
  | .arm32 => 4
  | .host64 => 8

def Target.modulus (T : Target) : ℕ := 256 ^ T.wordBytes

/-- `SIZE_MAX` and `UINTPTR_MAX`. -/
def Target.sizeMax (T : Target) : ℕ := T.modulus - 1

/-- `sizeof(os_memory_block_t)`. -/
def Target.headerSize (T : Target) : ℕ := 4 * T.wordBytes + 8

/-- Word addition and subtraction, as the machine wraps them. -/
def Target.wadd (T : Target) (a b : ℕ) : ℕ := (a + b) % T.modulus
def Target.wsub (T : Target) (a b : ℕ) : ℕ := (a + T.modulus - b) % T.modulus

def memoryAlignment : ℕ := 8
def memoryOwnerNone : ℕ := uint16Max
def memoryBlockMarker : ℕ := 0xA94D4F53

/-- The fields of `os_memory_block_t`. -/
inductive Field
  | marker
  | capacity
  | next
  | previous
  | owner
  | allocated
  | reserved
  deriving DecidableEq, Repr

def Field.offset (T : Target) : Field → ℕ
  | .marker => 0
  | .capacity => T.wordBytes
  | .next => 2 * T.wordBytes
  | .previous => 3 * T.wordBytes
  | .owner => 4 * T.wordBytes
  | .allocated => 4 * T.wordBytes + 2
  | .reserved => 4 * T.wordBytes + 3

def Field.size (T : Target) : Field → ℕ
  | .marker | .capacity | .next | .previous => T.wordBytes
  | .owner => 2
  | .allocated => 1
  | .reserved => 5

/-- `os_allocator_t`. -/
structure OsAllocator where
  heapBegin : ℕ
  heapEnd : ℕ
  firstBlock : ℕ
  nextFit : ℕ
  allocatedBytes : ℕ
  highWatermarkBytes : ℕ
  successfulAllocations : ℕ
  successfulFrees : ℕ
  failedAllocations : ℕ
  invalidFrees : ℕ
  cookie : ℕ
  initialized : Bool
  deriving DecidableEq, Repr

/-- `memset(allocator, 0, sizeof(*allocator))`. -/
def OsAllocator.zero : OsAllocator := ⟨0, 0, 0, 0, 0, 0, 0, 0, 0, 0, 0, false⟩

/-- An allocator object and the memory its arena lies in. -/
structure Heap where
  ctl : OsAllocator
  mem : Mem

variable (T : Target)

def getField (m : Mem) (block : ℕ) (f : Field) : ℕ := load m (block + f.offset T) (f.size T)

def setField (m : Mem) (block : ℕ) (f : Field) (v : ℕ) : Mem :=
  store m (block + f.offset T) (f.size T) v

def Heap.get (h : Heap) (block : ℕ) (f : Field) : ℕ := getField T h.mem block f

def Heap.set (h : Heap) (block : ℕ) (f : Field) (v : ℕ) : Heap :=
  { h with mem := setField T h.mem block f v }

/-- The mask is `~(OS_MEMORY_ALIGNMENT - 1U)`, a 32-bit `unsigned int` on both targets: it is
extended with zeros to the width of `size_t`. -/
def alignUpSize (value : ℕ) : Option ℕ :=
  if value > T.sizeMax - (memoryAlignment - 1) then none
  else
    let aligned := (value + (memoryAlignment - 1)) &&& 0xFFFFFFF8
    if aligned ≠ 0 then some aligned else none

def alignUpAddress (value : ℕ) : ℕ :=
  if value > T.sizeMax - (memoryAlignment - 1) then T.sizeMax
  else (value + (memoryAlignment - 1)) - (value + (memoryAlignment - 1)) % memoryAlignment

def alignDownAddress (value : ℕ) : ℕ := value - value % memoryAlignment

def blockMarker (a : OsAllocator) (block : ℕ) : ℕ := a.cookie ^^^ block ^^^ memoryBlockMarker

def addressCanHoldBlock (a : OsAllocator) (address : ℕ) : Bool :=
  a.heapBegin ≤ address && address % memoryAlignment == 0 && address ≤ a.heapEnd &&
    T.headerSize ≤ a.heapEnd - address

def reservedBytesClear (m : Mem) (block : ℕ) : Bool :=
  (List.range 5).all fun index => m (block + Field.offset T .reserved + index) == 0

def payloadAddress (block : ℕ) : ℕ := T.wadd block T.headerSize

def setFree (h : Heap) (block : ℕ) : Heap :=
  ((h.set T block .owner memoryOwnerNone).set T block .allocated 0).set T block .reserved 0

/-- Writes the header of a new free block. -/
def newBlock (h : Heap) (block capacity next previous : ℕ) : Heap :=
  let h := h.set T block .marker (blockMarker h.ctl block)
  let h := h.set T block .capacity capacity
  let h := h.set T block .next next
  let h := h.set T block .previous previous
  setFree T h block

def maximumBlocks (a : OsAllocator) : ℕ :=
  (a.heapEnd - a.heapBegin) / (T.headerSize + memoryAlignment)

/-- The checks the validator makes on one header. -/
def headerOk (h : Heap) (block previous : ℕ) : Bool :=
  addressCanHoldBlock T h.ctl block &&
  h.get T block .marker == blockMarker h.ctl block &&
  h.get T block .previous == previous &&
  (h.get T block .allocated == 0 || h.get T block .allocated == 1) &&
  reservedBytesClear T h.mem block &&
  h.get T block .capacity % memoryAlignment == 0 &&
  h.get T block .capacity ≤ h.ctl.heapEnd - block - T.headerSize &&
  !(h.get T block .allocated == 0 && h.get T block .owner != memoryOwnerNone) &&
  !(h.get T block .allocated != 0 && h.get T block .owner == memoryOwnerNone)

/-- The check that a block is followed by the header it says it is followed by. -/
def nextOk (h : Heap) (block : ℕ) : Bool :=
  let expectedNext := block + T.headerSize + h.get T block .capacity
  if expectedNext = h.ctl.heapEnd then h.get T block .next == 0
  else addressCanHoldBlock T h.ctl expectedNext && h.get T block .next == expectedNext

/-- The loop of `block_chain_valid`. The first argument is how many more blocks may be
visited before `visited` exceeds `maximum_blocks`. -/
def blockChainLoop (h : Heap) : ℕ → ℕ → ℕ → Bool → ℕ → Bool
  | 0, block, _, foundNextFit, computedAllocated =>
    block == 0 && foundNextFit && computedAllocated == h.ctl.allocatedBytes &&
      h.ctl.allocatedBytes ≤ h.ctl.highWatermarkBytes
  | remaining + 1, block, previous, foundNextFit, computedAllocated =>
    if block = 0 then
      foundNextFit && computedAllocated == h.ctl.allocatedBytes &&
        h.ctl.allocatedBytes ≤ h.ctl.highWatermarkBytes
    else if !headerOk T h block previous || !nextOk T h block then false
    else if h.get T block .allocated ≠ 0 ∧
        computedAllocated > T.sizeMax - h.get T block .capacity then false
    else
      blockChainLoop h remaining (h.get T block .next) block
        (foundNextFit || block == h.ctl.nextFit)
        (computedAllocated +
          if h.get T block .allocated ≠ 0 then h.get T block .capacity else 0)

def blockChainValid (h : Heap) : Bool :=
  let a := h.ctl
  if !a.initialized || a.heapBegin == 0 || a.heapEnd == 0 || a.firstBlock == 0 ||
      a.nextFit == 0 then false
  else if a.heapEnd ≤ a.heapBegin ∨ a.heapBegin % memoryAlignment ≠ 0 ∨
      a.heapEnd % memoryAlignment ≠ 0 ∨ a.firstBlock ≠ a.heapBegin ∨
      !addressCanHoldBlock T a a.nextFit then false
  else blockChainLoop T h (maximumBlocks T a) a.firstBlock 0 false 0

def osAllocatorValidate (h : Heap) : Bool := blockChainValid T h

def osAllocatorInit (m : Mem) (arena arenaSize : ℕ) : Heap × Bool :=
  let fail : Heap × Bool := (⟨OsAllocator.zero, m⟩, false)
  if arena = 0 ∨ arenaSize < memoryAlignment then fail
  else
    let rawBegin := arena
    if arenaSize > T.sizeMax - rawBegin then fail
    else
      let rawEnd := rawBegin + arenaSize
      let begin := alignUpAddress T rawBegin
      let stop := alignDownAddress rawEnd
      if begin < rawBegin ∨ stop > rawEnd ∨ stop ≤ begin ∨
          stop - begin < T.headerSize + memoryAlignment then fail
      else
        let a := { OsAllocator.zero with
          heapBegin := begin, heapEnd := stop, cookie := begin ^^^ stop ^^^ memoryBlockMarker }
        let block := begin
        let h : Heap := ⟨a, m⟩
        let h := newBlock T h block (stop - begin - T.headerSize) 0 0
        let h : Heap := { h with
          ctl := { a with firstBlock := block, nextFit := block, initialized := true } }
        if !blockChainValid T h then (⟨OsAllocator.zero, h.mem⟩, false)
        else (h, true)

def incFailed (h : Heap) : Heap :=
  { h with ctl := { h.ctl with failedAllocations := incrementSaturating h.ctl.failedAllocations } }

def incInvalid (h : Heap) : Heap :=
  { h with ctl := { h.ctl with invalidFrees := incrementSaturating h.ctl.invalidFrees } }

/-- The `do … while (block != start)` search of `os_allocator_alloc`: the block it stops at,
`some none` when it is back at `start`, `none` when fuel runs out. -/
def searchLoop (h : Heap) (start alignedSize : ℕ) : ℕ → ℕ → Option (Option ℕ)
  | 0, _ => none
  | fuel + 1, block =>
    if h.get T block .allocated = 0 ∧ alignedSize ≤ h.get T block .capacity then some (some block)
    else
      let block' := if h.get T block .next ≠ 0 then h.get T block .next else h.ctl.firstBlock
      if block' = start then some none else searchLoop h start alignedSize fuel block'

/-- `if (next != NULL) next->previous = previous`. -/
def relink (h : Heap) (next previous : ℕ) : Heap :=
  if next ≠ 0 then h.set T next .previous previous else h

/-- Cuts a block to `alignedSize` and makes a free block of the remainder, which the cursor
advances to. -/
def splitBlock (h : Heap) (block alignedSize : ℕ) : Heap :=
  let remainder := h.get T block .capacity - alignedSize
  let split := T.wadd (payloadAddress T block) alignedSize
  let next := h.get T block .next
  let h := newBlock T h split (remainder - T.headerSize) next block
  let h := relink T h next split
  let h := h.set T block .capacity alignedSize
  let h := h.set T block .next split
  { h with ctl := { h.ctl with nextFit := split } }

/-- Moves the cursor past a block that is used whole, with wrap. -/
def advanceCursor (h : Heap) (block : ℕ) : Heap :=
  let next := h.get T block .next
  { h with ctl := { h.ctl with nextFit := if next ≠ 0 then next else h.ctl.firstBlock } }

/-- Marks a block allocated and accounts for it. -/
def claimBlock (h : Heap) (block owner : ℕ) : Heap :=
  let h := h.set T block .allocated 1
  let h := h.set T block .owner owner
  let allocatedBytes := T.wadd h.ctl.allocatedBytes (h.get T block .capacity)
  { h with ctl := { h.ctl with
      allocatedBytes := allocatedBytes
      highWatermarkBytes :=
        if allocatedBytes > h.ctl.highWatermarkBytes then allocatedBytes
        else h.ctl.highWatermarkBytes
      successfulAllocations := incrementSaturating h.ctl.successfulAllocations } }

/-- What `os_allocator_alloc` does to the block its search stops at, up to the last
validation. -/
def takeBlock (h : Heap) (block alignedSize owner : ℕ) : Heap :=
  let remainder := h.get T block .capacity - alignedSize
  let h :=
    if T.headerSize + memoryAlignment ≤ remainder then splitBlock T h block alignedSize
    else advanceCursor T h block
  claimBlock T h block owner

/-- The new heap and the pointer returned. -/
def osAllocatorAlloc (h : Heap) (size owner : ℕ) : Option (Heap × ℕ) :=
  if !h.ctl.initialized then some (h, 0)
  else if !blockChainValid T h || size == 0 || owner == memoryOwnerNone then
    some (incFailed h, 0)
  else
    match alignUpSize T size with
    | none => some (incFailed h, 0)
    | some alignedSize =>
      let start := h.ctl.nextFit
      if start = 0 then some (incFailed h, 0)
      else
        match searchLoop T h start alignedSize (maximumBlocks T h.ctl + 1) start with
        | none => none
        | some none => some (incFailed h, 0)
        | some (some block) =>
          let h := takeBlock T h block alignedSize owner
          if !blockChainValid T h then some (h, 0) else some (h, payloadAddress T block)

/-- The walk of `find_payload_block`. -/
def findPayloadLoop (h : Heap) (address : ℕ) : ℕ → ℕ → Option ℕ
  | 0, block => if block = 0 then some 0 else none
  | fuel + 1, block =>
    if block = 0 then some 0
    else if payloadAddress T block = address then some block
    else findPayloadLoop h address fuel (h.get T block .next)

def findPayloadBlock (h : Heap) (pointer : ℕ) : Option ℕ :=
  if pointer % memoryAlignment ≠ 0 ∨ pointer < T.wadd h.ctl.heapBegin T.headerSize ∨
      h.ctl.heapEnd ≤ pointer then some 0
  else findPayloadLoop T h pointer (maximumBlocks T h.ctl) h.ctl.firstBlock

def mergeWithNext (h : Heap) (block : ℕ) : Heap :=
  let removed := h.get T block .next
  if removed = 0 ∨ h.get T block .allocated ≠ 0 ∨ h.get T removed .allocated ≠ 0 then h
  else
    let h : Heap :=
      if h.ctl.nextFit = removed then { h with ctl := { h.ctl with nextFit := block } } else h
    let h := h.set T block .capacity (T.wadd (h.get T block .capacity)
      (T.wadd T.headerSize (h.get T removed .capacity)))
    let h := h.set T block .next (h.get T removed .next)
    relink T h (h.get T block .next) block

/-- The loop of `coalesce_all`. -/
def coalesceLoop : ℕ → Heap → ℕ → Option Heap
  | 0, _, _ => none
  | fuel + 1, h, block =>
    if block ≠ 0 ∧ h.get T block .next ≠ 0 then
      if h.get T block .allocated = 0 ∧ h.get T (h.get T block .next) .allocated = 0 then
        coalesceLoop fuel (mergeWithNext T h block) block
      else coalesceLoop fuel h (h.get T block .next)
    else some h

def coalesceAll (h : Heap) : Option Heap :=
  coalesceLoop T (maximumBlocks T h.ctl + 1) h h.ctl.firstBlock

/-- The new heap and the result. -/
def osAllocatorFree (h : Heap) (pointer owner : ℕ) : Option (Heap × Bool) :=
  if !h.ctl.initialized then some (h, false)
  else if pointer = 0 then some (h, true)
  else if !blockChainValid T h || owner == memoryOwnerNone then some (incInvalid h, false)
  else
    match findPayloadBlock T h pointer with
    | none => none
    | some block =>
      if block = 0 ∨ h.get T block .allocated = 0 ∨ h.get T block .owner ≠ owner then
        some (incInvalid h, false)
      else
        let h : Heap := { h with ctl := { h.ctl with
          allocatedBytes := T.wsub h.ctl.allocatedBytes (h.get T block .capacity) } }
        let h := setFree T h block
        match coalesceAll T h with
        | none => none
        | some h =>
          let h : Heap := { h with ctl := { h.ctl with
            successfulFrees := incrementSaturating h.ctl.successfulFrees } }
          some (h, blockChainValid T h)

/-- The sweep of `os_allocator_release_owner`: the heap and the number of blocks freed. -/
def releaseLoop (owner : ℕ) : ℕ → Heap → ℕ → ℕ → Option (Heap × ℕ)
  | 0, h, block, released => if block = 0 then some (h, released) else none
  | fuel + 1, h, block, released =>
    if block = 0 then some (h, released)
    else if h.get T block .allocated ≠ 0 ∧ h.get T block .owner = owner then
      let h : Heap := { h with ctl := { h.ctl with
        allocatedBytes := T.wsub h.ctl.allocatedBytes (h.get T block .capacity) } }
      let h := setFree T h block
      let h : Heap := { h with ctl := { h.ctl with
        successfulFrees := incrementSaturating h.ctl.successfulFrees } }
      releaseLoop owner fuel h (h.get T block .next) (T.wadd released 1)
    else releaseLoop owner fuel h (h.get T block .next) released

/-- The new heap and the number of blocks released. -/
def osAllocatorReleaseOwner (h : Heap) (owner : ℕ) : Option (Heap × ℕ) :=
  if !h.ctl.initialized || owner == memoryOwnerNone || !blockChainValid T h then some (h, 0)
  else
    match releaseLoop T owner (maximumBlocks T h.ctl) h h.ctl.firstBlock 0 with
    | none => none
    | some (h, released) =>
      let swept : Option Heap :=
        if released ≠ 0 then
          (coalesceAll T h).map fun h =>
            { h with ctl := { h.ctl with nextFit := h.ctl.firstBlock } }
        else some h
      match swept with
      | none => none
      | some h => if !blockChainValid T h then some (h, 0) else some (h, released)

end Aymos.Allocator
