import Aymos.HeapOps

/-!
What each call of the allocator does to the chain in its arena.

Every call on an arena that satisfies the invariant returns, and leaves an arena that
satisfies it on a chain that the lemmas name: an allocation carves one free block, a free
releases one owned block, and the owner sweep releases all of one owner's, the last two
followed by coalescing. The validation at the end of each call therefore succeeds.
-/

namespace Aymos.HeapCalls

open Aymos.ByteMem Aymos.Allocator Aymos.Tiling Aymos.Words Aymos.HeapRepr Aymos.HeapBlocks
  Aymos.HeapOps

variable {T : Target} {h : Heap}

/-! ### Rounding a size -/

/-- The mask keeps bits 3 to 31. -/
lemma mask_eq (n : ℕ) : n &&& 0xFFFFFFF8 = n % 2 ^ 32 / 8 * 8 := by
  have hmask : (0xFFFFFFF8 : ℕ) = (2 ^ 29 - 1) <<< 3 := by decide
  have hdiv : n % 2 ^ 32 / 8 * 8 = ((n % 2 ^ 32) >>> 3) <<< 3 := by
    rw [Nat.shiftRight_eq_div_pow, Nat.shiftLeft_eq]
  rw [hmask, hdiv]
  refine Nat.eq_of_testBit_eq fun i => ?_
  simp only [Nat.testBit_and, Nat.testBit_shiftLeft, Nat.testBit_shiftRight,
    Nat.testBit_mod_two_pow, Nat.testBit_two_pow_sub_one]
  by_cases hi : 3 ≤ i
  · by_cases hi' : i < 32
    · have h1 : i - 3 < 29 := by omega
      simp [hi, hi', h1]
    · have h1 : ¬i - 3 < 29 := by omega
      simp [hi, hi', h1]
  · simp [hi]

lemma alignUpSize_some {n k : ℕ} (h : alignUpSize T n = some k) :
    n + 7 ≤ T.sizeMax ∧ k = (n + 7) % 2 ^ 32 / 8 * 8 ∧ k ≠ 0 := by
  have hmax : 7 ≤ T.sizeMax := by cases T <;> decide
  unfold alignUpSize memoryAlignment at h
  rw [mask_eq] at h
  split at h
  · simp at h
  · simp only [Option.ite_none_right_eq_some, Option.some.injEq] at h
    obtain ⟨hne, rfl⟩ := h
    exact ⟨by omega, rfl, hne⟩

/-- A rounded size is a positive multiple of the alignment. -/
lemma alignUpSize_mod {n k : ℕ} (h : alignUpSize T n = some k) : k % 8 = 0 ∧ 8 ≤ k := by
  obtain ⟨-, hk, hne⟩ := alignUpSize_some h
  omega

/-- **Rounding reaches the request** exactly when nothing is cut off the top. -/
lemma le_alignUpSize_iff {n k : ℕ} (h : alignUpSize T n = some k) :
    n ≤ k ↔ n + 7 < 2 ^ 32 := by
  obtain ⟨-, hk, hne⟩ := alignUpSize_some h
  omega

/-! ### Allocating -/

/-- The blocks an allocation of `n` bytes for `owner` makes of a free block. -/
def carve (T : Target) (b : Blk) (n owner : ℕ) : List Blk :=
  if T.headerSize + memoryAlignment ≤ b.capacity - n then
    [grant (cutFront b n) owner, cutRest T b n]
  else [grant b owner]

/-- The capacity of the block handed out. -/
def carvedCapacity (T : Target) (b : Blk) (n : ℕ) : ℕ :=
  if T.headerSize + memoryAlignment ≤ b.capacity - n then n else b.capacity

/-- Where the cursor stands afterwards. -/
def carvedCursor (T : Target) (first : ℕ) (b : Blk) (n : ℕ) (post : List Blk) : ℕ :=
  if T.headerSize + memoryAlignment ≤ b.capacity - n then (cutRest T b n).addr
  else headAddr first post

lemma carve_eq (b : Blk) (n owner : ℕ) :
    ∃ rest, carve T b n owner = ⟨b.addr, carvedCapacity T b n, some owner⟩ :: rest := by
  unfold carve carvedCapacity
  split
  · exact ⟨[cutRest T b n], rfl⟩
  · exact ⟨[], rfl⟩

/-- Claiming a free block of a chain. -/
lemma claimBlock_spec {pre post : List Blk} {b : Blk} {owner : ℕ}
    (hc : Chained T h (pre ++ b :: post)) (hfree : b.owner = none)
    (howner : owner < memoryOwnerNone) (hsum : h.ctl.allocatedBytes = ownedBytes (pre ++ b :: post)) :
    Chained T (claimBlock T h b.addr owner) (pre ++ grant b owner :: post) ∧
      (claimBlock T h b.addr owner).ctl = { h.ctl with
        allocatedBytes := ownedBytes (pre ++ grant b owner :: post)
        highWatermarkBytes :=
          max h.ctl.highWatermarkBytes (ownedBytes (pre ++ grant b owner :: post))
        successfulAllocations := incrementSaturating h.ctl.successfulAllocations } ∧
      ∀ x, x < b.addr ∨ b.addr + T.headerSize ≤ x →
        (claimBlock T h b.addr owner).mem x = h.mem x := by
  have hg := chained_grant hc howner
  have hcap : ((h.set T b.addr .allocated 1).set T b.addr .owner owner).get T b.addr .capacity =
      b.capacity := hg.get_capacity (b := grant b owner) (by simp)
  have howned : ownedBytes (pre ++ grant b owner :: post) =
      ownedBytes (pre ++ b :: post) + b.capacity := by
    simp only [ownedBytes_append, ownedBytes_cons, hfree, grant]
    simp
    omega
  have hle := hg.tiles.ownedBytes_le
  have hfits := hc.geometry.fits
  simp only [set_ctl] at hle
  have hadd : T.wadd h.ctl.allocatedBytes b.capacity =
      ownedBytes (pre ++ grant b owner :: post) := by
    rw [Target.wadd, hsum, ← howned, Nat.mod_eq_of_lt (by omega)]
  have hctl : (claimBlock T h b.addr owner).ctl = { h.ctl with
        allocatedBytes := ownedBytes (pre ++ grant b owner :: post)
        highWatermarkBytes :=
          max h.ctl.highWatermarkBytes (ownedBytes (pre ++ grant b owner :: post))
        successfulAllocations := incrementSaturating h.ctl.successfulAllocations } := by
    have hmax : ∀ x y : ℕ, (if x > y then x else y) = max y x := by
      intro x y
      split <;> omega
    simp only [claimBlock, hcap, set_ctl, hadd, hmax]
  refine ⟨?_, hctl, fun x hx => ?_⟩
  · refine chained_of_ctl hg rfl ?_
    exact hg.cursor
  · change ((h.set T b.addr .allocated 1).set T b.addr .owner owner).mem x = h.mem x
    rw [set_mem_apply hx, set_mem_apply hx]

/-- **Taking a block**: what the search stopped at is carved, and the totals follow. -/
lemma takeBlock_spec {pre post : List Blk} {b : Blk} {n owner : ℕ}
    (hi : HeapInv T h (pre ++ b :: post)) (hfree : b.owner = none) (hn8 : n % 8 = 0)
    (hn : 8 ≤ n) (hfit : n ≤ b.capacity) (howner : owner < memoryOwnerNone) :
    HeapInv T (takeBlock T h b.addr n owner) (pre ++ (carve T b n owner ++ post)) ∧
      (takeBlock T h b.addr n owner).ctl = { h.ctl with
        nextFit := carvedCursor T h.ctl.firstBlock b n post
        allocatedBytes := ownedBytes (pre ++ (carve T b n owner ++ post))
        highWatermarkBytes := max h.ctl.highWatermarkBytes
          (ownedBytes (pre ++ (carve T b n owner ++ post)))
        successfulAllocations := incrementSaturating h.ctl.successfulAllocations } ∧
      ∀ x, Outside T.headerSize (pre ++ (carve T b n owner ++ post)) x →
        (takeBlock T h b.addr n owner).mem x = h.mem x := by
  have hb : b ∈ pre ++ b :: post := by simp
  have hc := hi.toChained
  have hcap := hc.get_capacity hb
  have hsum : h.ctl.allocatedBytes = ownedBytes pre + ownedBytes post := by
    rw [hi.allocated, ownedBytes_append, ownedBytes_cons, hfree]
    simp
  by_cases hroom : T.headerSize + memoryAlignment ≤ b.capacity - n
  · have hroom' : n + T.headerSize + 8 ≤ b.capacity := by
      unfold memoryAlignment at hroom; omega
    obtain ⟨hs, hsctl, hsmem⟩ := chained_splitBlock hc hfree hn8 hroom'
    simp only [List.cons_append, List.nil_append] at hs hsmem
    have hcarve : carve T b n owner ++ post =
        grant (cutFront b n) owner :: cutRest T b n :: post := by
      rw [carve, if_pos hroom]; rfl
    have htake : takeBlock T h b.addr n owner =
        claimBlock T (splitBlock T h b.addr n) (cutFront b n).addr owner := by
      simp only [takeBlock, hcap, if_pos hroom]
      rfl
    obtain ⟨hcl, hctl, hmem⟩ := claimBlock_spec (b := cutFront b n) hs hfree howner
      (by
        simp only [hsctl, hsum, ownedBytes_append, ownedBytes_cons, cutFront, cutRest, hfree]
        simp)
    rw [← hcarve] at hcl hctl
    rw [← htake] at hcl hctl hmem
    refine ⟨⟨hcl, ?_, ?_, ?_, ?_⟩, ?_, fun x hx => ?_⟩
    · rw [hcarve]
      refine forall_mem_replace [b] [grant (cutFront b n) owner, cutRest T b n] hi.minimum ?_
      simp only [List.forall_mem_cons, cutRest]
      exact ⟨hn, by omega, fun c hcm => absurd hcm List.not_mem_nil⟩
    · rw [hcarve]
      exact hi.separated.own_front hfree (by simp [grant])
    · rw [hctl]
    · rw [hctl]; exact le_max_right _ _
    · rw [hctl, hsctl, carvedCursor, if_pos hroom]
    · rw [hmem x (hx (grant (cutFront b n) owner) (by rw [hcarve]; simp)), hsmem x]
      intro c hcm
      simp only [List.mem_append, List.mem_cons] at hcm
      rcases hcm with hcm | rfl | hcm
      · exact hx c (by simp [hcm])
      · exact hx (grant (cutFront b n) owner) (by rw [hcarve]; simp)
      · exact hx c (by rw [hcarve]; simp [hcm])
  · -- the block is used whole and the cursor moves past it
    have hadv : advanceCursor T h b.addr =
        { h with ctl := { h.ctl with nextFit := headAddr h.ctl.firstBlock post } } := by
      have := cyclicNext_eq hc
      rw [cyclicNext] at this
      simp only [advanceCursor, this]
    have hcur : ∃ c ∈ pre ++ b :: post, c.addr = headAddr h.ctl.firstBlock post := by
      cases post with
      | nil =>
        obtain ⟨c, cs, hcs⟩ := List.exists_cons_of_ne_nil hc.ne_nil
        have := hc.headAddr_eq 0
        rw [hcs, headAddr] at this
        exact ⟨c, by rw [hcs]; simp, this⟩
      | cons c post => exact ⟨c, by simp, rfl⟩
    have hcarve : carve T b n owner ++ post = grant b owner :: post := by
      rw [carve, if_neg hroom]; rfl
    have htake : takeBlock T h b.addr n owner =
        claimBlock T (advanceCursor T h b.addr) b.addr owner := by
      simp only [takeBlock, hcap, if_neg hroom]
    have hadvc : Chained T (advanceCursor T h b.addr) (pre ++ b :: post) := by
      rw [hadv]
      exact chained_of_ctl hc rfl hcur
    obtain ⟨hcl, hctl, hmem⟩ := claimBlock_spec hadvc hfree howner
      (by rw [hadv]; exact hi.allocated)
    rw [← hcarve] at hcl hctl
    rw [← htake] at hcl hctl hmem
    refine ⟨⟨hcl, ?_, ?_, ?_, ?_⟩, ?_, fun x hx => ?_⟩
    · rw [hcarve]
      exact forall_mem_replace [b] [grant b owner] hi.minimum
        (List.forall_mem_singleton.mpr (hi.minimum b hb))
    · rw [hcarve]
      exact hi.separated.own (by simp [grant])
    · rw [hctl]
    · rw [hctl]; exact le_max_right _ _
    · rw [hctl, hadv, carvedCursor, if_neg hroom]
    · rw [hmem x (hx (grant b owner) (by rw [hcarve]; simp)), hadv]

/-- **`os_allocator_alloc`** takes the first block that fits, in cyclic order from the cursor,
or fails and counts the failure. -/
lemma osAllocatorAlloc_eq {pre suf : List Blk} {s : Blk} {size owner n : ℕ}
    (hi : HeapInv T h (pre ++ s :: suf)) (hs : s.addr = h.ctl.nextFit) (hsize : size ≠ 0)
    (howner : owner < memoryOwnerNone) (hn : alignUpSize T size = some n) :
    osAllocatorAlloc T h size owner =
      match (rotated pre (s :: suf)).find? (fits n) with
      | none => some (incFailed h, 0)
      | some b => some (takeBlock T h b.addr n owner, b.payload T.headerSize) := by
  have hcur : h.ctl.nextFit ≠ 0 := by
    have := hi.addr_pos (b := s) (by simp)
    omega
  have hsearch := search_spec hi.toChained hi.minimum hs n
  simp only [osAllocatorAlloc, hi.geometry.initialized, hi.valid, hn, if_neg hcur, hsearch]
  rw [if_neg (by simp), if_neg (by simp [hsize]; omega)]
  cases hfind : (rotated pre (s :: suf)).find? (fits n) with
  | none => rfl
  | some b =>
    obtain ⟨hb, hfree, hroom⟩ := found_fits hfind
    have hpay := payloadAddress_eq hi.toChained hb
    obtain ⟨xs, ys, hsplit⟩ := List.append_of_mem hb
    rw [hsplit] at hi
    obtain ⟨hn8, hn⟩ := alignUpSize_mod hn
    obtain ⟨hinv, -, -⟩ := takeBlock_spec hi hfree hn8 hn hroom howner
    simp [hinv.valid, hpay]

/-- An allocation fails and counts the failure, or carves a free block that fits. -/
lemma alloc_cases {bs : List Blk} (hi : HeapInv T h bs) (size : ℕ) {owner : ℕ}
    (howner : owner ≤ uint16Max) :
    osAllocatorAlloc T h size owner = some (incFailed h, 0) ∨
      ∃ pre b post n, bs = pre ++ b :: post ∧ b.owner = none ∧ owner < memoryOwnerNone ∧
        alignUpSize T size = some n ∧ n ≤ b.capacity ∧
        osAllocatorAlloc T h size owner =
          some (takeBlock T h b.addr n owner, b.payload T.headerSize) := by
  by_cases hbad : size = 0 ∨ owner = memoryOwnerNone ∨ alignUpSize T size = none
  · left
    simp only [osAllocatorAlloc, hi.geometry.initialized, hi.valid]
    rw [if_neg (by simp)]
    by_cases hbad' : size = 0 ∨ owner = memoryOwnerNone
    · rw [if_pos (by simpa using hbad')]
    · have hnone : alignUpSize T size = none := by tauto
      rw [if_neg (by simpa using hbad'), hnone]
  · simp only [not_or] at hbad
    obtain ⟨hsize, hown, hsome⟩ := hbad
    obtain ⟨n, hn⟩ := Option.ne_none_iff_exists'.mp hsome
    have hlt : owner < memoryOwnerNone := by unfold memoryOwnerNone at hown ⊢; omega
    obtain ⟨s, hsm, hs⟩ := hi.cursor
    obtain ⟨pre, suf, rfl⟩ := List.append_of_mem hsm
    rw [osAllocatorAlloc_eq hi hs hsize hlt hn]
    cases hfind : (rotated pre (s :: suf)).find? (fits n) with
    | none => exact Or.inl rfl
    | some b =>
      right
      obtain ⟨hb, hfree, hroom⟩ := found_fits hfind
      obtain ⟨xs, ys, hsplit⟩ := List.append_of_mem hb
      exact ⟨xs, b, ys, n, hsplit, hfree, hlt, hn, hroom, rfl⟩

/-! ### Freeing -/

/-- Coalescing a chain whose totals are settled restores the invariant. -/
lemma coalesced_inv {bs : List Blk} (hc : Chained T h bs) (hmin : ∀ b ∈ bs, 8 ≤ b.capacity)
    (hsum : h.ctl.allocatedBytes = ownedBytes bs)
    (hwater : h.ctl.allocatedBytes ≤ h.ctl.highWatermarkBytes) :
    ∃ h', coalesceAll T h = some h' ∧ HeapInv T h' (coalesce T.headerSize bs) ∧
      SameButCursor h h' ∧ ∀ x, Outside T.headerSize bs x → h'.mem x = h.mem x := by
  obtain ⟨h', hrun, hc', hsame, hmem⟩ := coalesceAll_spec hc hmin
  refine ⟨h', hrun, ⟨hc', ?_, separated_coalesce bs, ?_, ?_⟩, hsame, hmem⟩
  · exact capacity_coalesce (p := fun n => 8 ≤ n) (fun m n hm _ => by omega) hmin
  · rw [hsame, ownedBytes_coalesce]; exact hsum
  · rw [hsame]; exact hwater

/-- The invariant depends on the allocator object through its layout, cursor and totals. -/
lemma heapInv_of_ctl {bs : List Blk} {a : OsAllocator} (hi : HeapInv T h bs)
    (hl : layout a = layout h.ctl) (hn : a.nextFit = h.ctl.nextFit)
    (ha : a.allocatedBytes = h.ctl.allocatedBytes)
    (hw : a.highWatermarkBytes = h.ctl.highWatermarkBytes) : HeapInv T { h with ctl := a } bs := by
  refine ⟨chained_of_ctl hi.toChained hl (by rw [hn]; exact hi.cursor), hi.minimum, hi.separated,
    ?_, ?_⟩
  · rw [← hi.allocated, ← ha]
  · have := hi.watermark
    simp only [ha, hw]
    exact this

/-- What one block of a chain becoming free does to the totals. -/
lemma ownedBytes_release {pre post : List Blk} {b : Blk} (hb : b.owner ≠ none) :
    ownedBytes (pre ++ b :: post) = b.capacity + ownedBytes (pre ++ release b :: post) := by
  have hs : b.owner.isSome = true := Option.isSome_iff_ne_none.mpr hb
  simp only [ownedBytes_append, ownedBytes_cons, release, hs]
  simp
  omega

/-- Freeing one owned block of a chain, and coalescing. -/
lemma freeBlock_spec {pre post : List Blk} {b : Blk} (hi : HeapInv T h (pre ++ b :: post))
    (hown : b.owner ≠ none) :
    ∃ h', coalesceAll T (setFree T { h with ctl := { h.ctl with
          allocatedBytes := T.wsub h.ctl.allocatedBytes (h.get T b.addr .capacity) } } b.addr) =
        some h' ∧
      HeapInv T h' (coalesce T.headerSize (pre ++ release b :: post)) ∧
      h'.ctl = { h.ctl with
        nextFit := h'.ctl.nextFit
        allocatedBytes := h.ctl.allocatedBytes - b.capacity } ∧
      ∀ x, Outside T.headerSize (pre ++ b :: post) x → h'.mem x = h.mem x := by
  have hb : b ∈ pre ++ b :: post := by simp
  have hc := hi.toChained
  have hbytes := @ownedBytes_release pre post _ hown
  have hsum := hi.allocated
  have hle := hi.tiles.ownedBytes_le
  have hfits := hi.geometry.fits
  have hsub := wsub_capacity hc hb (by omega : b.capacity ≤ h.ctl.allocatedBytes) (by omega)
  rw [hsub]
  have hc₁ : Chained T { h with ctl := { h.ctl with
      allocatedBytes := h.ctl.allocatedBytes - b.capacity } } (pre ++ b :: post) :=
    chained_of_ctl hc rfl hc.cursor
  have hmin : ∀ c ∈ pre ++ release b :: post, 8 ≤ c.capacity := by
    intro c hcm
    rcases List.mem_append.mp hcm with hcm | hcm
    · exact hi.minimum c (by simp [hcm])
    · rcases List.mem_cons.mp hcm with rfl | hcm
      · exact hi.minimum b hb
      · exact hi.minimum c (by simp [hcm])
  obtain ⟨h', hrun, hinv, hsame, hmem⟩ := coalesced_inv (chained_setFree hc₁) hmin
    (by simp only [setFree_ctl]; omega)
    (by have := hi.watermark; simp only [setFree_ctl]; omega)
  refine ⟨h', hrun, hinv, hsame, fun x hx => ?_⟩
  rw [hmem x, setFree_mem_apply (hx b hb)]
  intro c hcm
  rcases List.mem_append.mp hcm with hcm | hcm
  · exact hx c (by simp [hcm])
  · rcases List.mem_cons.mp hcm with rfl | hcm
    · exact hx b hb
    · exact hx c (by simp [hcm])

/-- A call that frees nothing: a null pointer, or one that is no payload of the owner's. -/
lemma free_refused {bs : List Blk} (hi : HeapInv T h bs) {p owner : ℕ} (hp : p ≠ 0)
    (hno : ∀ b ∈ bs, b.payload T.headerSize = p → b.owner ≠ some owner) :
    osAllocatorFree T h p owner = some (incInvalid h, false) := by
  by_cases hnone : owner = memoryOwnerNone
  · simp [osAllocatorFree, hi.geometry.initialized, hp, hnone]
  have hfind := findPayloadBlock_spec hi.toChained hi.minimum p
  rw [osAllocatorFree, if_neg (by simp [hi.geometry.initialized]), if_neg hp,
    if_neg (by simp [hi.valid, hnone]), hfind]
  cases hb : bs.find? fun b => b.payload T.headerSize == p with
  | none => simp
  | some b =>
    have hbm := List.mem_of_find?_eq_some hb
    have hbp : b.payload T.headerSize = p := by simpa using List.find?_some hb
    have hown := hno b hbm hbp
    have hguard : b.addr = 0 ∨ h.get T b.addr .allocated = 0 ∨ h.get T b.addr .owner ≠ owner := by
      rw [hi.get_allocated hbm, hi.get_owner hbm]
      cases ho : b.owner with
      | none => simp
      | some o => simp only [ho, ne_eq, Option.some.injEq] at hown; simp [hown]
    simp [hguard]

/-- **`os_allocator_free`** of a payload its owner holds. -/
lemma free_accepted {pre post : List Blk} {b : Blk} {owner : ℕ}
    (hi : HeapInv T h (pre ++ b :: post)) (hown : b.owner = some owner) :
    ∃ h', osAllocatorFree T h (b.payload T.headerSize) owner = some (h', true) ∧
      HeapInv T h' (coalesce T.headerSize (pre ++ release b :: post)) ∧
      h'.ctl = { h.ctl with
        nextFit := h'.ctl.nextFit
        allocatedBytes := h.ctl.allocatedBytes - b.capacity
        successfulFrees := incrementSaturating h.ctl.successfulFrees } ∧
      ∀ x, Outside T.headerSize (pre ++ b :: post) x → h'.mem x = h.mem x := by
  have hb : b ∈ pre ++ b :: post := by simp
  have hpos := hi.addr_pos hb
  have hlt := hi.owners b hb owner (by simp [hown])
  have hfind := findPayloadBlock_spec hi.toChained hi.minimum (b.payload T.headerSize)
  have hthe : ((pre ++ b :: post).find? fun c => c.payload T.headerSize == b.payload T.headerSize)
      = some b := by
    cases hf : (pre ++ b :: post).find? fun c => c.payload T.headerSize == b.payload T.headerSize with
    | none => exact absurd (List.find?_eq_none.mp hf b hb) (by simp)
    | some c =>
      have hcm := List.mem_of_find?_eq_some hf
      have hcp : c.payload T.headerSize = b.payload T.headerSize := by simpa using List.find?_some hf
      unfold Block.payload at hcp
      rw [hi.tiles.eq_of_addr (headerSize_pos T) hcm hb (by omega)]
  obtain ⟨h', hrun, hinv, hctl, hmem⟩ := freeBlock_spec hi (by simp [hown])
  have hguard : ¬(b.addr = 0 ∨ h.get T b.addr .allocated = 0 ∨
      h.get T b.addr .owner ≠ owner) := by
    rw [hi.get_allocated hb, hi.get_owner hb, hown]
    simp
    omega
  have hfinal : HeapInv T { h' with ctl := { h'.ctl with
      successfulFrees := incrementSaturating h'.ctl.successfulFrees } }
      (coalesce T.headerSize (pre ++ release b :: post)) :=
    heapInv_of_ctl hinv rfl rfl rfl rfl
  refine ⟨_, ?_, hfinal, ?_, hmem⟩
  · rw [osAllocatorFree, if_neg (by simp [hi.geometry.initialized]),
      if_neg (by unfold Block.payload; omega), if_neg (by simp [hi.valid]; omega), hfind, hthe]
    simp only [Option.map_some, Option.getD_some, if_neg hguard, hrun]
    rw [hfinal.valid]
  · rw [hctl]

/-- A free of a non-null pointer is refused or releases the block with that payload. -/
lemma free_cases {bs : List Blk} (hi : HeapInv T h bs) (p owner : ℕ) :
    (p = 0 ∧ osAllocatorFree T h p owner = some (h, true)) ∨
      (p ≠ 0 ∧ osAllocatorFree T h p owner = some (incInvalid h, false)) ∨
      ∃ pre b post, bs = pre ++ b :: post ∧ b.owner = some owner ∧
        p = b.payload T.headerSize := by
  by_cases hp : p = 0
  · exact Or.inl ⟨hp, by simp [osAllocatorFree, hi.geometry.initialized, hp]⟩
  right
  by_cases hex : ∃ b ∈ bs, b.payload T.headerSize = p ∧ b.owner = some owner
  · obtain ⟨b, hb, hbp, hown⟩ := hex
    obtain ⟨pre, post, rfl⟩ := List.append_of_mem hb
    exact Or.inr ⟨pre, b, post, rfl, hown, hbp.symm⟩
  · push Not at hex
    exact Or.inl ⟨hp, free_refused hi hp hex⟩

/-- The calls return. -/
lemma alloc_returns {bs : List Blk} (hi : HeapInv T h bs) (size : ℕ) {owner : ℕ}
    (howner : owner ≤ uint16Max) : ∃ h' r, osAllocatorAlloc T h size owner = some (h', r) := by
  rcases alloc_cases hi size howner with hfail | ⟨_, _, _, _, -, -, -, -, -, hok⟩
  · exact ⟨_, _, hfail⟩
  · exact ⟨_, _, hok⟩

lemma free_null {bs : List Blk} (hi : HeapInv T h bs) (owner : ℕ) :
    osAllocatorFree T h 0 owner = some (h, true) := by
  simp [osAllocatorFree, hi.geometry.initialized]

lemma free_returns {bs : List Blk} (hi : HeapInv T h bs) (p owner : ℕ) :
    ∃ h' r, osAllocatorFree T h p owner = some (h', r) := by
  rcases free_cases hi p owner with ⟨-, hnull⟩ | ⟨-, hbad⟩ | ⟨pre, b, post, rfl, hown, rfl⟩
  · exact ⟨_, _, hnull⟩
  · exact ⟨_, _, hbad⟩
  · obtain ⟨h', hacc, -⟩ := free_accepted hi hown
    exact ⟨_, _, hacc⟩

/-! ### Releasing an owner -/

lemma ownedBytes_surrender_le (owner : ℕ) (bs : List Blk) :
    ownedBytes (bs.map (surrender owner)) ≤ ownedBytes bs := by
  induction bs with
  | nil => exact le_rfl
  | cons b bs ih =>
    have hone : (if (surrender owner b).owner.isSome then (surrender owner b).capacity else 0) ≤
        if b.owner.isSome then b.capacity else 0 := by
      unfold surrender
      split
      · simp [release]
      · exact le_rfl
    rw [List.map_cons, ownedBytes_cons, ownedBytes_cons]
    omega

/-- **`os_allocator_release_owner`** frees every block of the owner and coalesces. -/
lemma releaseOwner_spec {bs : List Blk} (hi : HeapInv T h bs) (owner : ℕ) :
    ∃ h', osAllocatorReleaseOwner T h owner = some (h', heldBy owner bs) ∧
      HeapInv T h' (coalesce T.headerSize (bs.map (surrender owner))) ∧
      h'.ctl = { h.ctl with
        nextFit := if heldBy owner bs = 0 then h.ctl.nextFit else h.ctl.firstBlock
        allocatedBytes := ownedBytes (bs.map (surrender owner))
        successfulFrees := incrementSaturating^[heldBy owner bs] h.ctl.successfulFrees } ∧
      (∀ x, Outside T.headerSize bs x → h'.mem x = h.mem x) ∧
      (heldBy owner bs = 0 → h' = h) := by
  by_cases hnone : owner = memoryOwnerNone
  · -- no block is owned by the tag of free blocks
    have hheld : heldBy owner bs = 0 := by
      rw [heldBy, List.countP_eq_zero]
      intro b hb ho
      have := hi.owners b hb owner (by simpa using ho)
      omega
    refine ⟨h, by simp [osAllocatorReleaseOwner, hnone, ← hheld], ?_, ?_, fun x _ => rfl,
      fun _ => rfl⟩
    · rw [surrender_of_not_held hheld, coalesce_of_separated hi.separated]
      exact hi
    · rw [surrender_of_not_held hheld, ← hi.allocated, hheld]
      rfl
  have hlen := hi.length_le hi.minimum
  have htot := hi.tiles.ownedBytes_le
  have hfits := hi.geometry.fits
  have hsum := hi.allocated
  have hcount : bs.length ≤ bs.length * T.headerSize :=
    Nat.le_mul_of_pos_right _ (headerSize_pos T)
  obtain ⟨h₁, hrun, hc₁, hctl₁, hmem₁, hsame₁⟩ := releaseLoop_spec owner bs h []
    (maximumBlocks T h.ctl) 0 hlen (by omega) hi.toChained (by omega) (by omega)
  rw [hi.headAddr_eq, zero_add] at hrun
  rw [List.nil_append] at hc₁
  have hguard : ¬((!h.ctl.initialized || owner == memoryOwnerNone || !blockChainValid T h) = true) := by
    simp [hi.geometry.initialized, hi.valid, hnone]
  by_cases hheld : heldBy owner bs = 0
  · obtain rfl := hsame₁ hheld
    refine ⟨h₁, ?_, ?_, ?_, fun x _ => rfl, fun _ => rfl⟩
    · rw [osAllocatorReleaseOwner, if_neg hguard, hrun, hheld]
      simp [hi.valid]
    · rw [surrender_of_not_held hheld, coalesce_of_separated hi.separated]
      exact hi
    · rw [surrender_of_not_held hheld, ← hi.allocated, hheld]
      rfl
  · have hless : ownedBytes (bs.map (surrender owner)) ≤ ownedBytes bs :=
      ownedBytes_surrender_le owner bs
    have hsum₁ : h₁.ctl.allocatedBytes = ownedBytes (bs.map (surrender owner)) := by
      rw [hctl₁]
      simp only
      omega
    obtain ⟨h₂, hco, hinv, hsame, hmem₂⟩ := coalesced_inv hc₁
      (by
        intro b hb
        obtain ⟨c, hc, rfl⟩ := List.mem_map.mp hb
        rw [surrender_capacity]
        exact hi.minimum c hc) hsum₁
      (by
        have := hi.watermark
        rw [hsum₁, hctl₁]
        simp only
        omega)
    have hfinal : HeapInv T { h₂ with ctl := { h₂.ctl with nextFit := h₂.ctl.firstBlock } }
        (coalesce T.headerSize (bs.map (surrender owner))) := by
      refine ⟨chained_of_ctl hinv.toChained rfl ?_, hinv.minimum, hinv.separated, hinv.allocated,
        hinv.watermark⟩
      obtain ⟨c, cs, hcs⟩ := List.exists_cons_of_ne_nil hinv.ne_nil
      have := hinv.headAddr_eq 0
      rw [hcs, headAddr] at this
      exact ⟨c, by rw [hcs]; simp, this⟩
    refine ⟨_, ?_, hfinal, ?_, fun x hx => ?_, fun h0 => absurd h0 hheld⟩
    · rw [osAllocatorReleaseOwner, if_neg hguard, hrun]
      simp [hheld, hco, hfinal.valid]
    · rw [if_neg hheld, hsame, hctl₁]
      simp only [OsAllocator.mk.injEq, true_and, and_true]
      omega
    · simp only
      rw [hmem₂ x, hmem₁ x hx]
      intro b hb
      obtain ⟨c, hc, rfl⟩ := List.mem_map.mp hb
      rw [surrender_addr]
      exact hx c hc

/-! ### Initialising -/

/-- The arena with one free block that `os_allocator_init` lays out in `[a, z)`. -/
def freshHeap (T : Target) (m : Mem) (a z : ℕ) : Heap :=
  let ctl := { OsAllocator.zero with
    heapBegin := a, heapEnd := z, cookie := a ^^^ z ^^^ memoryBlockMarker }
  { newBlock T ⟨ctl, m⟩ a (z - a - T.headerSize) 0 0 with
    ctl := { ctl with firstBlock := a, nextFit := a, initialized := true } }

lemma freshHeap_inv {m : Mem} {a z : ℕ} (ha : 0 < a) (ha8 : a % 8 = 0) (hz8 : z % 8 = 0)
    (hroom : a + T.headerSize + 8 ≤ z) (hz : z < T.modulus) :
    HeapInv T (freshHeap T m a z) [⟨a, z - a - T.headerSize, none⟩] := by
  have hhdr := headerSize_mod T
  have hcookie : a ^^^ z ^^^ memoryBlockMarker < T.modulus := by
    have hpow : T.modulus = 2 ^ (8 * T.wordBytes) := by cases T <;> decide
    have hmark : memoryBlockMarker < T.modulus := by cases T <;> decide
    rw [hpow] at hz hmark ⊢
    exact Nat.xor_lt_two_pow (Nat.xor_lt_two_pow (by omega) hz) hmark
  have hhead := @header_newBlock T ⟨{ OsAllocator.zero with
      heapBegin := a, heapEnd := z, cookie := a ^^^ z ^^^ memoryBlockMarker }, m⟩ a
    (z - a - T.headerSize) 0 0 hcookie (by omega) (by omega)
    (by omega) (by omega)
  refine ⟨⟨⟨rfl, ha, ha8, hz8, hroom, hz, rfl, hcookie⟩, ⟨rfl, ?_⟩, ⟨hhead, trivial⟩, ?_, ?_, ?_⟩,
    ?_, List.isChain_singleton _, rfl, le_rfl⟩
  · simp only [tiles_nil, Block.stop, freshHeap]
    omega
  · simp; omega
  · simp
  · exact ⟨⟨a, z - a - T.headerSize, none⟩, by simp, rfl⟩
  · simp; omega

/-- **`os_allocator_init`** rounds the arena inwards to the alignment and lays out one free
block, unless that leaves no room for a header and the least payload. -/
lemma osAllocatorInit_eq (m : Mem) (arena arenaSize : ℕ) :
    (∃ m', osAllocatorInit T m arena arenaSize = (⟨OsAllocator.zero, m'⟩, false)) ∨
      ∃ a z, osAllocatorInit T m arena arenaSize = (freshHeap T m a z, true) ∧
        arena ≤ a ∧ z ≤ arena + arenaSize ∧
        HeapInv T (freshHeap T m a z) [⟨a, z - a - T.headerSize, none⟩] := by
  have hmax : T.sizeMax + 1 = T.modulus ∧ 7 < T.sizeMax := by cases T <;> decide
  unfold osAllocatorInit
  simp only
  split
  · exact Or.inl ⟨_, rfl⟩
  next h1 =>
  split
  · exact Or.inl ⟨_, rfl⟩
  next h2 =>
  split
  · exact Or.inl ⟨_, rfl⟩
  next h3 =>
  right
  have hinv : HeapInv T (freshHeap T m (alignUpAddress T arena) (alignDownAddress (arena + arenaSize)))
      [⟨alignUpAddress T arena, alignDownAddress (arena + arenaSize) - alignUpAddress T arena -
        T.headerSize, none⟩] := by
    simp only [not_or, memoryAlignment] at h1 h3
    have hup : alignUpAddress T arena = T.sizeMax ∨ alignUpAddress T arena % 8 = 0 := by
      unfold alignUpAddress memoryAlignment
      split <;> omega
    have hdown : alignDownAddress (arena + arenaSize) ≤ arena + arenaSize := Nat.sub_le _ _
    -- an arena whose start cannot be rounded up has no room left
    refine freshHeap_inv (by omega) (by omega) ?_ (by omega) (by omega)
    simp only [alignDownAddress, memoryAlignment]
    omega
  have hvalid := hinv.valid
  refine ⟨_, _, ?_, ?_, ?_, hinv⟩
  · rw [if_neg]
    · rfl
    · simpa [freshHeap] using hvalid
  · omega
  · omega

/-- An aligned arena is used as it is. -/
lemma osAllocatorInit_aligned {m : Mem} {a z : ℕ} (ha : 0 < a) (ha8 : a % 8 = 0)
    (hz8 : z % 8 = 0) (hroom : a + T.headerSize + 8 ≤ z) (hz : z < T.modulus) :
    osAllocatorInit T m a (z - a) = (freshHeap T m a z, true) := by
  have hmax : T.sizeMax + 1 = T.modulus ∧ T.modulus % 8 = 0 := by cases T <;> decide
  have hup : alignUpAddress T a = a := by
    unfold alignUpAddress memoryAlignment
    rw [if_neg (by omega)]
    omega
  have hdown : alignDownAddress z = z := by
    unfold alignDownAddress memoryAlignment
    omega
  have hvalid := (freshHeap_inv (m := m) ha ha8 hz8 hroom hz).valid
  unfold osAllocatorInit
  simp only [show a + (z - a) = z by omega, hup, hdown]
  rw [if_neg (by unfold memoryAlignment; omega), if_neg (by omega),
    if_neg (by unfold memoryAlignment; omega), if_neg]
  · rfl
  · simpa [freshHeap] using hvalid

end Aymos.HeapCalls
