import Aymos.HeapRun

/-!
What `os_allocator_free` accepts, over every history of calls.

The walk along the chain reaches live headers only, so stale headers inside merged free space
never count. A refused call leaves the heap alone; an accepted one gives up one block.
-/

namespace Aymos.HeapFree

open Aymos.ByteMem Aymos.Allocator Aymos.Tiling Aymos.Words Aymos.HeapRepr Aymos.HeapBlocks
  Aymos.HeapOps Aymos.HeapCalls Aymos.HeapRun

variable {T : Target} {h : Heap} {bs : List Blk}

/-- The blocks that are allocated. -/
def allocatedBlocks (bs : List Blk) : List Blk := bs.filter fun b => b.owner.isSome

/-- What an accepted free makes of the heap: the block `b` is given up, nothing else. -/
structure GivesUp (T : Target) (h h' : Heap) (b : Blk) : Prop where
  allocated : allocatedBlocks (blocks T h') = (allocatedBlocks (blocks T h)).filter (· ≠ b)
  free : ∃ c ∈ blocks T h', c.owner = none ∧ c.addr ≤ b.addr ∧
    b.stop T.headerSize ≤ c.stop T.headerSize
  payloads : ∀ c ∈ allocatedBlocks (blocks T h), c ≠ b →
    ∀ x, c.payload T.headerSize ≤ x → x < c.stop T.headerSize → h'.mem x = h.mem x
  bytes : h'.ctl.allocatedBytes + b.capacity = h.ctl.allocatedBytes

/-- `ptr` is the payload address of a block that `owner` holds. -/
def IsLiveBase (T : Target) (h : Heap) (ptr owner : ℕ) (b : Blk) : Prop :=
  b ∈ blocks T h ∧ b.owner = some owner ∧ b.payload T.headerSize = ptr

/-! ### Giving up one block -/

/-- Releasing one block leaves the other allocated blocks. -/
lemma allocated_release {pre post : List Blk} {b : Blk} {a z : ℕ}
    (ht : Tiles T.headerSize a (pre ++ b :: post) z) :
    allocatedBlocks (pre ++ release b :: post) =
      (allocatedBlocks (pre ++ b :: post)).filter (· ≠ b) := by
  have hhdr := headerSize_pos T
  have hne : ∀ c ∈ pre ++ post, c ≠ b := by
    rintro c hc rfl
    rcases List.mem_append.mp hc with hc | hc
    · have := ht.around.1 c hc
      unfold Block.stop at this
      omega
    · have := ht.around.2 c hc
      unfold Block.stop at this
      omega
  have hkeep : ∀ xs : List Blk, (∀ c ∈ xs, c ∈ pre ++ post) →
      (allocatedBlocks xs).filter (· ≠ b) = allocatedBlocks xs := by
    intro xs hxs
    rw [List.filter_eq_self]
    intro c hc
    exact decide_eq_true (hne c (hxs c (List.mem_filter.mp hc).1))
  have hpre := hkeep pre fun c hc => List.mem_append_left _ hc
  have hpost := hkeep post fun c hc => List.mem_append_right _ hc
  have hb : allocatedBlocks (b :: post) =
      (if b.owner.isSome then [b] else []) ++ allocatedBlocks post := by
    by_cases hown : b.owner.isSome <;> simp [allocatedBlocks, hown]
  have hr : allocatedBlocks (release b :: post) = allocatedBlocks post := by
    simp [allocatedBlocks, release]
  have happ : ∀ xs ys, allocatedBlocks (xs ++ ys) = allocatedBlocks xs ++ allocatedBlocks ys :=
    fun xs ys => List.filter_append ..
  rw [happ, happ, hb, hr, List.filter_append, List.filter_append, hpre, hpost]
  by_cases hown : b.owner.isSome <;> simp [hown]

/-- **An accepted free** gives up the block. -/
lemma givesUp_of_accepted {pre post : List Blk} {b : Blk} {owner : ℕ}
    (hi : HeapInv T h (pre ++ b :: post)) (hown : b.owner = some owner) :
    ∃ h', osAllocatorFree T h (b.payload T.headerSize) owner = some (h', true) ∧
      GivesUp T h h' b := by
  obtain ⟨h', hrun, hinv, hctl, hmem⟩ := free_accepted hi hown
  have hb : b ∈ pre ++ b :: post := by simp
  refine ⟨h', hrun, ?_, ?_, fun c hc hne x hx hx' => ?_, ?_⟩
  · rw [blocks_eq hinv, blocks_eq hi, allocatedBlocks, owned_coalesce]
    exact allocated_release hi.tiles
  · rw [blocks_eq hinv]
    have hnew : Tiles T.headerSize b.addr [release b] (b.stop T.headerSize) := ⟨rfl, rfl⟩
    have htiles := hi.tiles.replace hnew
    obtain ⟨c, hc, haddr, hstop, hfree⟩ := coalesce_covers htiles (b := release b) (by simp)
    exact ⟨c, hc, hfree rfl, haddr, hstop⟩
  · rw [blocks_eq hi] at hc
    exact hmem x (outside_of_payload hi.tiles (List.mem_filter.mp hc).1 hx hx')
  · have hbytes := @ownedBytes_release pre post b (by simp [hown])
    have hsum := hi.allocated
    rw [hctl]
    simp only
    omega

/-- **A free is exact** on a heap: what it accepts, what a refusal leaves and what an acceptance
changes. -/
def FreeExact (T : Target) (h : Heap) (ptr owner : ℕ) : Prop :=
  ∃ h' ok, osAllocatorFree T h ptr owner = some (h', ok) ∧
    (ok = true ↔ ∃ b, IsLiveBase T h ptr owner b) ∧
    (ok = false → h' = incInvalid h) ∧
    (ok = true → ∀ b, IsLiveBase T h ptr owner b → GivesUp T h h' b)

lemma freeExact_of_inv (hi : HeapInv T h bs) {ptr : ℕ} (owner : ℕ) (hptr : ptr ≠ 0) :
    FreeExact T h ptr owner := by
  have hbs := blocks_eq hi
  by_cases hlive : ∃ b, IsLiveBase T h ptr owner b
  · obtain ⟨b, hb, hown, rfl⟩ := id hlive
    rw [hbs] at hb
    obtain ⟨pre, post, rfl⟩ := List.append_of_mem hb
    obtain ⟨h', hrun, hgives⟩ := givesUp_of_accepted hi hown
    refine ⟨h', true, hrun, iff_of_true rfl hlive, (fun hfalse => by cases hfalse), ?_⟩
    rintro - c ⟨hc, -, hpay⟩
    rw [hbs] at hc
    unfold Block.payload at hpay
    rwa [hi.tiles.eq_of_addr (headerSize_pos T) hc hb (by omega)]
  · have hrun : osAllocatorFree T h ptr owner = some (incInvalid h, false) :=
      free_refused hi hptr fun b hb hpay hown => hlive ⟨b, hbs ▸ hb, hown, hpay⟩
    exact ⟨_, false, hrun, iff_of_false (by simp) hlive, fun _ => rfl, fun htrue => by cases htrue⟩

/-- **Free accepts exactly the live base pointers of the owner**, over every history. -/
theorem free_exact {m : Mem} {arena arenaSize : ℕ} {calls : List Call} {c : Client}
    (hh : History T m arena arenaSize calls c) (ptr : ℕ) (owner : UInt16) (hptr : ptr ≠ 0) :
    FreeExact T c.heap ptr owner.toNat := by
  obtain ⟨bs, hi⟩ := hh.inv
  exact freeExact_of_inv hi.heap owner.toNat hptr

/-- A pointer into the middle of a small arena's first payload. -/
theorem free_exact_interior : ∃ c : Client,
    History .arm32 (fun _ => 0) 0x20001000 256 [.alloc 20 1] c ∧
      FreeExact .arm32 c.heap 0x20001020 (1 : UInt16).toNat := by
  obtain ⟨h, -, hh⟩ := @History.start_alloc .arm32 (fun _ => 0) 0x20001000 256 0x20001018
    (by decide +kernel) 20 1 (by decide +kernel) (by decide)
  exact ⟨_, hh, free_exact hh 0x20001020 1 (by decide)⟩

end Aymos.HeapFree
