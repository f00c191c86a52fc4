import Aymos.HeapRun

/-!
The allocator's statistics.

`os_allocator_get_stats` and `os_allocator_count_fragments` walk the chain once and count what
they see.
-/

namespace Aymos.HeapStats

open Aymos.Allocator Aymos.Tiling Aymos.HeapRepr Aymos.HeapOps Aymos.HeapCalls Aymos.HeapRun

variable (T : Target)

/-- `os_memory_stats_t`. -/
structure OsMemoryStats where
  heapBytes : ℕ
  payloadCapacityBytes : ℕ
  allocatedBytes : ℕ
  freeBytes : ℕ
  largestFreeBlockBytes : ℕ
  highWatermarkBytes : ℕ
  allocatedBlocks : ℕ
  freeBlocks : ℕ
  successfulAllocations : ℕ
  successfulFrees : ℕ
  failedAllocations : ℕ
  invalidFrees : ℕ
  deriving DecidableEq, Repr

/-- `for (block = first_block(allocator); block != NULL; block = block->next)`. -/
def foldChain {β : Type} (h : Heap) (f : β → ℕ → β) : ℕ → ℕ → β → Option β
  | 0, block, acc => if block = 0 then some acc else none
  | fuel + 1, block, acc =>
    if block = 0 then some acc else foldChain h f fuel (h.get T block .next) (f acc block)

/-- What `os_allocator_get_stats` counts at one block. -/
def countBlock (h : Heap) (stats : OsMemoryStats) (block : ℕ) : OsMemoryStats :=
  let capacity := h.get T block .capacity
  let stats := { stats with
    payloadCapacityBytes := T.wadd stats.payloadCapacityBytes capacity }
  if h.get T block .allocated ≠ 0 then
    { stats with allocatedBlocks := T.wadd stats.allocatedBlocks 1 }
  else
    { stats with
      freeBlocks := T.wadd stats.freeBlocks 1
      freeBytes := T.wadd stats.freeBytes capacity
      largestFreeBlockBytes :=
        if capacity > stats.largestFreeBlockBytes then capacity
        else stats.largestFreeBlockBytes }

/-- `none` for a call that returns `false` and leaves the statistics as they are. -/
def osAllocatorGetStats (h : Heap) : Option (Option OsMemoryStats) :=
  if !h.ctl.initialized || !blockChainValid T h then some none
  else
    let stats : OsMemoryStats := {
      heapBytes := h.ctl.heapEnd - h.ctl.heapBegin
      payloadCapacityBytes := 0
      allocatedBytes := h.ctl.allocatedBytes
      freeBytes := 0
      largestFreeBlockBytes := 0
      highWatermarkBytes := h.ctl.highWatermarkBytes
      allocatedBlocks := 0
      freeBlocks := 0
      successfulAllocations := h.ctl.successfulAllocations
      successfulFrees := h.ctl.successfulFrees
      failedAllocations := h.ctl.failedAllocations
      invalidFrees := h.ctl.invalidFrees }
    (foldChain T h (countBlock T h) (maximumBlocks T h.ctl) h.ctl.firstBlock stats).map some

/-- What `os_allocator_count_fragments` counts at one block. -/
def countFragment (h : Heap) (alignedSize count block : ℕ) : ℕ :=
  if h.get T block .allocated = 0 ∧ h.get T block .capacity < alignedSize then T.wadd count 1
  else count

def osAllocatorCountFragments (h : Heap) (requestedSize : ℕ) : Option ℕ :=
  if !h.ctl.initialized || requestedSize == 0 then some 0
  else
    match alignUpSize T requestedSize with
    | none => some 0
    | some alignedSize =>
      if !blockChainValid T h then some 0
      else
        foldChain T h (countFragment T h alignedSize) (maximumBlocks T h.ctl) h.ctl.firstBlock 0

/-! ### Walks -/

variable {T} {h : Heap} {bs : List Blk}

/-- A walk from any block on visits the rest of the chain. -/
lemma foldChain_eq {β : Type} (f : β → ℕ → β) : ∀ (cur pre : List Blk) (fuel : ℕ) (acc : β),
    cur.length ≤ fuel → Chained T h (pre ++ cur) →
    foldChain T h f fuel (headAddr 0 cur) acc =
      some (cur.foldl (fun acc b => f acc b.addr) acc) := by
  intro cur
  induction cur with
  | nil => intro pre fuel acc _ _; cases fuel <;> simp [foldChain, headAddr]
  | cons b rest ih =>
    intro pre fuel acc hlen hc
    obtain ⟨k, rfl⟩ : ∃ k, fuel = k + 1 :=
      ⟨fuel - 1, by simp only [List.length_cons] at hlen; omega⟩
    have hpos := hc.addr_pos (b := b) (by simp)
    have hrec := ih (pre ++ [b]) k (f acc b.addr) (by simp only [List.length_cons] at hlen; omega)
      (by rwa [List.append_assoc])
    rw [headAddr, foldChain, if_neg (by omega), hc.get_next, hrec, List.foldl_cons]

/-- **A walk over the heap** visits every block once, in the order of the chain. -/
lemma walk_eq {β : Type} (hi : HeapInv T h bs) (f : β → ℕ → β) (acc : β) :
    foldChain T h f (maximumBlocks T h.ctl) h.ctl.firstBlock acc =
      some (bs.foldl (fun acc b => f acc b.addr) acc) := by
  have := foldChain_eq f bs [] (maximumBlocks T h.ctl) acc (hi.length_le hi.minimum) hi.toChained
  rwa [hi.headAddr_eq] at this

/-- A count of blocks does not wrap. -/
lemma length_lt (hi : HeapInv T h bs) : bs.length < T.modulus := by
  have hle := hi.tiles.ownedBytes_le
  have hfits := hi.geometry.fits
  have hmul : bs.length * 1 ≤ bs.length * T.headerSize :=
    Nat.mul_le_mul_left _ (headerSize_pos T)
  omega

/-- Counting the blocks that satisfy `p`. -/
lemma foldl_count (p : Blk → Bool) (step : ℕ → Blk → ℕ) (acc : ℕ)
    (hlen : acc + bs.length < T.modulus)
    (hstep : ∀ b ∈ bs, ∀ n, step n b = if p b then T.wadd n 1 else n) :
    bs.foldl step acc = acc + bs.countP p := by
  induction bs generalizing acc with
  | nil => rfl
  | cons b bs ih =>
    rw [List.length_cons] at hlen
    rw [List.foldl_cons, hstep b (by simp), List.countP_cons]
    by_cases hp : p b = true
    · have hadd : T.wadd acc 1 = acc + 1 := Nat.mod_eq_of_lt (by omega)
      rw [if_pos hp, if_pos hp, hadd, ih _ (by omega) fun c hc => hstep c (by simp [hc])]
      omega
    · rw [if_neg hp, if_neg hp, ih _ (by omega) fun c hc => hstep c (by simp [hc])]
      rfl

/-- The blocks that are free. -/
def freeCount (bs : List Blk) : ℕ := bs.countP fun b => b.owner.isNone

/-- The free blocks too small for `n` bytes. -/
def smallCount (n : ℕ) (bs : List Blk) : ℕ :=
  bs.countP fun b => b.owner.isNone && decide (b.capacity < n)

/-- The blocks that are allocated. -/
def ownedCount (bs : List Blk) : ℕ := bs.countP fun b => b.owner.isSome

/-- The capacity of the largest free block, zero when there is none. -/
def largestFree (bs : List Blk) : ℕ :=
  ((bs.filter fun b => b.owner.isNone).map Block.capacity).foldr max 0

/-- What the walk adds to the statistics. -/
def surveyed (stats : OsMemoryStats) (bs : List Blk) : OsMemoryStats :=
  { stats with
    payloadCapacityBytes := stats.payloadCapacityBytes + payloadBytes bs
    freeBytes := stats.freeBytes + freeBytes bs
    largestFreeBlockBytes := max stats.largestFreeBlockBytes (largestFree bs)
    allocatedBlocks := stats.allocatedBlocks + ownedCount bs
    freeBlocks := stats.freeBlocks + freeCount bs }

/-- One block more. -/
lemma surveyed_cons (stats : OsMemoryStats) {b : Blk} (cur : List Blk) (hb : b ∈ bs)
    (hi : HeapInv T h bs) (hbytes : stats.payloadCapacityBytes + b.capacity < T.modulus)
    (hfree : stats.freeBytes + b.capacity < T.modulus)
    (hblocks : stats.allocatedBlocks + 1 < T.modulus ∧ stats.freeBlocks + 1 < T.modulus) :
    surveyed (countBlock T h stats b.addr) cur = surveyed stats (b :: cur) := by
  have halloc := hi.get_allocated hb
  have hcap := hi.get_capacity hb
  have hadd : ∀ x y, x + y < T.modulus → T.wadd x y = x + y := fun x y hlt => Nat.mod_eq_of_lt hlt
  have hmax : ∀ x y : ℕ, (if x > y then x else y) = max y x := by
    intro x y
    split <;> omega
  rw [countBlock]
  simp only [hcap, hadd _ _ hbytes, hadd _ _ hfree, hadd _ _ hblocks.1, hadd _ _ hblocks.2, hmax]
  cases ho : b.owner with
  | none =>
    rw [if_neg (not_not.mpr (halloc.mpr ho))]
    simp only [surveyed, OsMemoryStats.mk.injEq, payloadBytes, freeBytes, largestFree, ownedCount,
      freeCount, List.map_cons, List.sum_cons, List.filter_cons, List.countP_cons, ho,
      Option.isNone_none, Option.isSome_none, if_true, List.foldr_cons, true_and, and_true,
      Bool.false_eq_true, if_false]
    omega
  | some o =>
    rw [if_pos fun h0 => by simpa [ho] using halloc.mp h0]
    simp only [surveyed, OsMemoryStats.mk.injEq, payloadBytes, freeBytes, largestFree, ownedCount,
      freeCount, List.map_cons, List.sum_cons, List.filter_cons, List.countP_cons, ho,
      Option.isNone_some, Option.isSome_some, if_true, true_and, and_true, Bool.false_eq_true,
      if_false]
    omega

/-- The walk of `os_allocator_get_stats` counts without wrapping. -/
lemma foldl_countBlock (hi : HeapInv T h bs) : ∀ (cur : List Blk) (stats : OsMemoryStats),
    (∀ b ∈ cur, b ∈ bs) → stats.payloadCapacityBytes + payloadBytes cur < T.modulus →
    stats.freeBytes + payloadBytes cur < T.modulus →
    stats.allocatedBlocks + cur.length < T.modulus →
    stats.freeBlocks + cur.length < T.modulus →
    cur.foldl (fun acc b => countBlock T h acc b.addr) stats = surveyed stats cur := by
  intro cur
  induction cur with
  | nil =>
    intro stats _ _ _ _ _
    simp [surveyed, payloadBytes, freeBytes, largestFree, ownedCount, freeCount]
  | cons b cur ih =>
    intro stats hmem hbytes hfree hblocks hfrees
    have hsum : payloadBytes (b :: cur) = b.capacity + payloadBytes cur := by simp [payloadBytes]
    rw [hsum] at hbytes hfree
    rw [List.length_cons] at hblocks hfrees
    have hstep := surveyed_cons stats cur (hmem b (by simp)) hi (by omega) (by omega)
      ⟨by omega, by omega⟩
    have hadd : ∀ x y, x + y < T.modulus → T.wadd x y = x + y :=
      fun x y hlt => Nat.mod_eq_of_lt hlt
    have hcap := hi.get_capacity (hmem b (by simp))
    have hp : (countBlock T h stats b.addr).payloadCapacityBytes =
        stats.payloadCapacityBytes + b.capacity := by
      rw [countBlock]
      split <;> simp only [hcap] <;> exact hadd _ _ (by omega)
    have hf : (countBlock T h stats b.addr).freeBytes ≤ stats.freeBytes + b.capacity := by
      rw [countBlock]
      split
      · exact Nat.le_add_right _ _
      · simp only [hcap]
        rw [hadd _ _ (by omega)]
    have ha : (countBlock T h stats b.addr).allocatedBlocks ≤ stats.allocatedBlocks + 1 := by
      rw [countBlock]
      split
      · simp only
        rw [hadd _ _ (by omega)]
      · exact Nat.le_add_right _ _
    have hfr : (countBlock T h stats b.addr).freeBlocks ≤ stats.freeBlocks + 1 := by
      rw [countBlock]
      split
      · exact Nat.le_add_right _ _
      · simp only
        rw [hadd _ _ (by omega)]
    rw [List.foldl_cons, ih _ (fun c hc => hmem c (by simp [hc])) (by omega) (by omega) (by omega)
      (by omega), hstep]

/-- **The statistics** are those of the chain, with the totals and counters of the allocator. -/
lemma getStats_eq (hi : HeapInv T h bs) : osAllocatorGetStats T h = some (some {
    heapBytes := h.ctl.heapEnd - h.ctl.heapBegin
    payloadCapacityBytes := payloadBytes bs
    allocatedBytes := h.ctl.allocatedBytes
    freeBytes := freeBytes bs
    largestFreeBlockBytes := largestFree bs
    highWatermarkBytes := h.ctl.highWatermarkBytes
    allocatedBlocks := ownedCount bs
    freeBlocks := freeCount bs
    successfulAllocations := h.ctl.successfulAllocations
    successfulFrees := h.ctl.successfulFrees
    failedAllocations := h.ctl.failedAllocations
    invalidFrees := h.ctl.invalidFrees }) := by
  have hlen := length_lt hi
  have hspan := hi.tiles.span
  have hfits := hi.geometry.fits
  rw [osAllocatorGetStats, if_neg (by simp [hi.geometry.initialized, hi.valid])]
  simp only [walk_eq hi, Option.map_some]
  rw [foldl_countBlock hi bs _ (fun _ hb => hb) (by simp only; omega) (by simp only; omega)
    (by simp only; omega) (by simp only; omega)]
  simp only [surveyed, Nat.zero_add, Nat.zero_max]

/-- The statistics count the free blocks. -/
lemma getStats_freeBlocks (hi : HeapInv T h bs) :
    ∃ stats, osAllocatorGetStats T h = some (some stats) ∧ stats.freeBlocks = freeCount bs :=
  ⟨_, getStats_eq hi, rfl⟩

/-- **The fragments** of a request are the free blocks too small for it. -/
lemma countFragments_eq (hi : HeapInv T h bs) {size n : ℕ} (hsize : size ≠ 0)
    (hn : alignUpSize T size = some n) :
    osAllocatorCountFragments T h size = some (smallCount n bs) := by
  have hlen := length_lt hi
  rw [osAllocatorCountFragments, if_neg (by simp [hi.geometry.initialized, hsize]), hn]
  simp only [hi.valid, Bool.not_true, Bool.false_eq_true, if_false]
  have hstep : ∀ b ∈ bs, ∀ count, countFragment T h n count b.addr =
      if b.owner.isNone && decide (b.capacity < n) then T.wadd count 1 else count := by
    intro b hb count
    simp [countFragment, hi.get_allocated hb, hi.get_capacity hb]
  rw [walk_eq hi, foldl_count (T := T) _ _ 0 (by omega) hstep, Nat.zero_add, smallCount]

end Aymos.HeapStats
