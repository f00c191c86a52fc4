import Aymos.HeapStats

/-!
The next-fit search over every history of calls.

The search, the fragment count and the statistics agree on what fits, as long as the mask that
rounds the request does not change which block comes first.
-/

namespace Aymos.HeapSearch

open Aymos.ByteMem Aymos.Allocator Aymos.Tiling Aymos.Words Aymos.HeapRepr Aymos.HeapOps
  Aymos.HeapCalls Aymos.HeapRun Aymos.HeapStats

variable (T : Target)

/-- The blocks in the order the search visits them. -/
def cyclicBlocks (h : Heap) : List Blk :=
  (blocks T h).dropWhile (fun b => b.addr != h.ctl.nextFit) ++
    (blocks T h).takeWhile fun b => b.addr != h.ctl.nextFit

/-- The first free block of at least `n` bytes, in cyclic order from the cursor. -/
def firstFit (h : Heap) (n : ℕ) : Option Blk := (cyclicBlocks T h).find? (fits n)

/-- A size rounded up to the alignment. -/
def roundedSize (size : ℕ) : ℕ := (size + 7) / 8 * 8

/-- What the 32-bit mask makes of a size. -/
def clippedSize (size : ℕ) : ℕ := (size + 7) % 2 ^ 32 / 8 * 8

/-- **What an allocation promises**: the first block that fits, or `NULL` where there is none,
which is where every free block is a fragment. -/
def SearchComplete (h : Heap) (size owner : ℕ) : Prop :=
  ∃ h' p count stats, osAllocatorAlloc T h size owner = some (h', p) ∧
    osAllocatorCountFragments T h size = some count ∧
    osAllocatorGetStats T h = some (some stats) ∧
    p = ((firstFit T h (roundedSize size)).map (Block.payload T.headerSize)).getD 0 ∧
    (p = 0 ↔ firstFit T h (roundedSize size) = none) ∧
    (p = 0 ↔ count = stats.freeBlocks) ∧
    (p = 0 → h' = incFailed h)

/-- **Clipping does no harm**: nothing is clipped, or the same block comes first. -/
def ClippingHarmless (h : Heap) (size : ℕ) : Prop :=
  size + 7 < 2 ^ 32 ∨
    if clippedSize size = 0 then ∀ b ∈ blocks T h, b.owner ≠ none
    else firstFit T h (clippedSize size) = firstFit T h (roundedSize size)

variable {T} {h : Heap} {bs : List Blk}

/-! ### The order of the search -/

lemma cyclicBlocks_eq {pre suf : List Blk} {s : Blk} (hi : HeapInv T h (pre ++ s :: suf))
    (hs : s.addr = h.ctl.nextFit) : cyclicBlocks T h = rotated pre (s :: suf) := by
  have hpre : ∀ b ∈ pre, (b.addr != h.ctl.nextFit) = true := by
    intro b hb
    have hbefore := hi.tiles.around.1 b hb
    have hhdr := headerSize_pos T
    unfold Block.stop at hbefore
    rw [bne_iff_ne, ← hs]
    omega
  have hstop : (s.addr != h.ctl.nextFit) = false := by rw [hs, bne_self_eq_false]
  rw [cyclicBlocks, blocks_eq hi, List.dropWhile_append_of_pos hpre,
    List.takeWhile_append_of_pos hpre, List.dropWhile_cons, List.takeWhile_cons, hstop]
  simp [rotated]

lemma mem_cyclicBlocks (hi : HeapInv T h bs) {b : Blk} : b ∈ cyclicBlocks T h ↔ b ∈ bs := by
  rw [cyclicBlocks, blocks_eq hi, List.mem_append, or_comm, ← List.mem_append,
    List.takeWhile_append_dropWhile]

lemma firstFit_eq_none (hi : HeapInv T h bs) {n : ℕ} :
    firstFit T h n = none ↔ ∀ b ∈ bs, ¬(b.owner = none ∧ n ≤ b.capacity) := by
  rw [firstFit, List.find?_eq_none]
  simp only [mem_cyclicBlocks hi, fits, Bool.and_eq_true, Option.isNone_iff_eq_none,
    decide_eq_true_eq]

/-- Nothing fits where every free block is too small. -/
lemma firstFit_none_iff (hi : HeapInv T h bs) {n : ℕ} :
    firstFit T h n = none ↔ smallCount n bs = freeCount bs := by
  have hsmall : smallCount n bs = (bs.filter fun b => b.owner.isNone).countP
      fun b => decide (b.capacity < n) := by
    rw [List.countP_filter, smallCount]
    congr 1
    funext b
    rw [Bool.and_comm]
  rw [hsmall, freeCount, List.countP_eq_length_filter (p := fun b : Blk => b.owner.isNone),
    List.countP_eq_length, firstFit_eq_none hi]
  simp only [List.mem_filter, Option.isNone_iff_eq_none, decide_eq_true_eq, not_and, not_le,
    and_imp]

/-! ### Allocations -/

/-- **An allocation** takes the first block that holds the size its rounding gives. -/
lemma alloc_eq (hi : HeapInv T h bs) {size owner n : ℕ} (hsize : size ≠ 0)
    (howner : owner < memoryOwnerNone) (hn : alignUpSize T size = some n) :
    osAllocatorAlloc T h size owner =
      match firstFit T h n with
      | none => some (incFailed h, 0)
      | some b => some (takeBlock T h b.addr n owner, b.payload T.headerSize) := by
  obtain ⟨s, hsm, hs⟩ := hi.cursor
  obtain ⟨pre, suf, rfl⟩ := List.append_of_mem hsm
  have hfit : firstFit T h n = (rotated pre (s :: suf)).find? (fits n) := by
    rw [firstFit, cyclicBlocks_eq hi hs]
  have halloc := osAllocatorAlloc_eq hi hs hsize howner hn
  rw [← hfit] at halloc
  cases hfound : firstFit T h n with
  | none => simp only [halloc, hfound]
  | some b => simp only [halloc, hfound]

lemma alignUpSize_eq {size : ℕ} (hmax : size ≤ T.sizeMax - 7) :
    alignUpSize T size = if clippedSize size = 0 then none else some (clippedSize size) := by
  rw [alignUpSize, memoryAlignment, if_neg (by omega), mask_eq]
  by_cases hzero : clippedSize size = 0
  · rw [if_pos hzero]
    exact if_neg (not_not.mpr hzero)
  · rw [if_neg hzero]
    exact if_pos hzero

lemma clippedSize_of_lt {size : ℕ} (hlt : size + 7 < 2 ^ 32) :
    clippedSize size = roundedSize size := by
  rw [clippedSize, roundedSize, Nat.mod_eq_of_lt hlt]

lemma payload_pos (hi : HeapInv T h bs) {n : ℕ} {b : Blk} (hb : firstFit T h n = some b) :
    b ∈ bs ∧ 0 < b.payload T.headerSize := by
  have hbm := (mem_cyclicBlocks hi).mp (List.mem_of_find?_eq_some hb)
  have hpos := hi.addr_pos hbm
  refine ⟨hbm, ?_⟩
  unfold Block.payload
  omega

/-- A pointer tells which block came first. -/
lemma firstFit_injective (hi : HeapInv T h bs) {n k : ℕ}
    (heq : ((firstFit T h n).map (Block.payload T.headerSize)).getD 0 =
      ((firstFit T h k).map (Block.payload T.headerSize)).getD 0) :
    firstFit T h n = firstFit T h k := by
  cases hn : firstFit T h n with
  | none =>
    cases hk : firstFit T h k with
    | none => rfl
    | some c =>
      have := (payload_pos hi hk).2
      simp only [hn, hk, Option.map_none, Option.map_some, Option.getD_none,
        Option.getD_some] at heq
      omega
  | some b =>
    obtain ⟨hb, hpos⟩ := payload_pos hi hn
    cases hk : firstFit T h k with
    | none =>
      simp only [hn, hk, Option.map_none, Option.map_some, Option.getD_none,
        Option.getD_some] at heq
      omega
    | some c =>
      obtain ⟨hc, -⟩ := payload_pos hi hk
      simp only [hn, hk, Option.map_some, Option.getD_some, Block.payload] at heq
      rw [hi.tiles.eq_of_addr (headerSize_pos T) hb hc (by omega)]

/-- A request whose clipped size is zero fails. -/
lemma complete_of_zero (hi : HeapInv T h bs) {size owner : ℕ} (hsize : size ≠ 0)
    (howner : owner < memoryOwnerNone) (hn : alignUpSize T size = none) :
    SearchComplete T h size owner ↔ ∀ b ∈ bs, b.owner ≠ none := by
  have halloc : osAllocatorAlloc T h size owner = some (incFailed h, 0) := by
    have hne : (owner == memoryOwnerNone) = false := beq_false_of_ne (by omega)
    simp [osAllocatorAlloc, hi.geometry.initialized, hi.valid, hsize, hne, hn]
  have hcount : osAllocatorCountFragments T h size = some 0 := by
    rw [osAllocatorCountFragments, if_neg (by simp [hi.geometry.initialized, hsize]), hn]
  obtain ⟨stats, hstats, hfree⟩ := getStats_freeBlocks hi
  have hfull : freeCount bs = 0 ↔ ∀ b ∈ bs, b.owner ≠ none := by
    rw [freeCount, List.countP_eq_zero]
    simp only [Option.isNone_iff_eq_none, ne_eq]
  constructor
  · rintro ⟨h', p, count, stats', ha, hc, hs, -, -, hfrag, -⟩
    rw [halloc, Option.some.injEq, Prod.mk.injEq] at ha
    rw [hcount, Option.some.injEq] at hc
    rw [hstats, Option.some.injEq, Option.some.injEq] at hs
    rw [← hfull, ← hfree, hs, hc]
    exact (hfrag.mp ha.2.symm).symm
  · intro hall
    have hnone : firstFit T h (roundedSize size) = none :=
      (firstFit_eq_none hi).mpr fun b hb hf => hall b hb hf.1
    refine ⟨_, _, _, _, halloc, hcount, hstats, ?_, ?_, ?_, fun _ => rfl⟩
    · rw [hnone]
      rfl
    · simp only [hnone]
    · rw [hfree, hfull.mpr hall]

/-- Otherwise a request is answered for its clipped size. -/
lemma complete_of_some (hi : HeapInv T h bs) {size owner n : ℕ} (hsize : size ≠ 0)
    (howner : owner < memoryOwnerNone) (hn : alignUpSize T size = some n) :
    SearchComplete T h size owner ↔ firstFit T h n = firstFit T h (roundedSize size) := by
  obtain ⟨stats, hstats, hfree⟩ := getStats_freeBlocks hi
  have hcount := countFragments_eq hi hsize hn
  have halloc : ∃ h', osAllocatorAlloc T h size owner =
      some (h', ((firstFit T h n).map (Block.payload T.headerSize)).getD 0) ∧
      (firstFit T h n = none → h' = incFailed h) := by
    rw [alloc_eq hi hsize howner hn]
    cases hfit : firstFit T h n with
    | none => exact ⟨_, rfl, fun _ => rfl⟩
    | some b => exact ⟨_, rfl, fun hnone => by cases hnone⟩
  have hnull : ((firstFit T h n).map (Block.payload T.headerSize)).getD 0 = 0 ↔
      firstFit T h n = none := by
    cases hfit : firstFit T h n with
    | none => simp
    | some b =>
      have := (payload_pos hi hfit).2
      simp only [Option.map_some, Option.getD_some, reduceCtorEq, iff_false]
      omega
  obtain ⟨h', hrun, hfail⟩ := halloc
  constructor
  · rintro ⟨h'', p, count, stats', ha, -, -, hp, -, -, -⟩
    rw [hrun, Option.some.injEq, Prod.mk.injEq] at ha
    exact firstFit_injective hi (ha.2.trans hp)
  · intro heq
    refine ⟨_, _, _, _, hrun, hcount, hstats, by rw [heq], by rw [hnull, heq], ?_,
      fun h0 => hfail (hnull.mp h0)⟩
    rw [hnull, hfree, firstFit_none_iff hi]

/-- **The search is complete** over every history, where clipping does no harm and only there. -/
theorem search_complete {m : Mem} {arena arenaSize : ℕ} {calls : List Call} {c : Client}
    (hh : History T m arena arenaSize calls c) {size : ℕ} {owner : UInt16}
    (howner : owner.toNat ≠ memoryOwnerNone) (hsize : 1 ≤ size) (hmax : size ≤ T.sizeMax - 7) :
    SearchComplete T c.heap size owner.toNat ↔ ClippingHarmless T c.heap size := by
  obtain ⟨bs, hi⟩ := hh.inv
  have hlt : owner.toNat < memoryOwnerNone := by
    have := owner.toNat_lt
    unfold memoryOwnerNone uint16Max at howner ⊢
    omega
  have hround := alignUpSize_eq hmax
  by_cases hzero : clippedSize size = 0
  · have hclip : ¬size + 7 < 2 ^ 32 := fun hfits => by
      unfold clippedSize at hzero
      omega
    rw [if_pos hzero] at hround
    rw [complete_of_zero hi.heap (by omega) hlt hround, ClippingHarmless, if_pos hzero,
      or_iff_right hclip, blocks_eq hi.heap]
  · rw [if_neg hzero] at hround
    rw [complete_of_some hi.heap (by omega) hlt hround, ClippingHarmless, if_neg hzero]
    constructor
    · exact Or.inr
    · rintro (hfits | heq)
      · rw [clippedSize_of_lt hfits]
      · exact heq

/-- A request among several blocks, two of them free, and one that no block can hold. -/
theorem search_complete_sample :
    SearchComplete .arm32 sampleClient.heap 20 (3 : UInt16).toNat ∧
      SearchComplete .arm32 sampleClient.heap 120 (3 : UInt16).toNat := by
  have hiff := @search_complete .arm32 _ _ _ _ _ history_sample 20 3 (by decide) (by decide)
    (by decide)
  have hiff' := @search_complete .arm32 _ _ _ _ _ history_sample 120 3 (by decide) (by decide)
    (by decide)
  exact ⟨hiff.mpr (Or.inl (by decide)), hiff'.mpr (Or.inl (by decide))⟩

/-- **A clipped request takes a block that is too small**: on a 64-bit host a request for
2^32 + 8 bytes is served from an arena of 512. -/
theorem clipped_request_served : ∃ c : Client,
    History .host64 (fun _ => 0) 0x1000 512 [] c ∧
      ¬SearchComplete .host64 c.heap 0x100000008 (1 : UInt16).toNat := by
  refine ⟨_, History.start (by decide +kernel), ?_⟩
  rintro ⟨h', p, count, stats, halloc, -, -, hp, -⟩
  have hserved : (osAllocatorAlloc .host64 (osAllocatorInit .host64 (fun _ => 0) 0x1000 512).1
      0x100000008 (1 : UInt16).toNat).map Prod.snd = some 0x1028 := by decide +kernel
  have hnone : firstFit .host64 (osAllocatorInit .host64 (fun _ => 0) 0x1000 512).1
      (roundedSize 0x100000008) = none := by decide +kernel
  rw [halloc] at hserved
  rw [hnone] at hp
  simp [hp] at hserved

end Aymos.HeapSearch
