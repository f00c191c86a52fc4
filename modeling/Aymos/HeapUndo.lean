import Aymos.HeapRun

/-!
Freeing undoes allocating.

An allocation carves a free block in two, or takes it whole. Neither neighbour of a free block
is free, so when the block handed out comes back, coalescing joins the two parts and nothing
else: the partition is the one there was.
-/

namespace Aymos.HeapUndo

open Aymos.ByteMem Aymos.Allocator Aymos.Tiling Aymos.Words Aymos.HeapRepr Aymos.HeapBlocks
  Aymos.HeapOps Aymos.HeapCalls Aymos.HeapRun

variable (T : Target)

/-- Two heaps with the same blocks, under headers whose fields are the same. -/
structure SamePartition (h h' : Heap) : Prop where
  blocks : blocks T h' = blocks T h
  headers : ∀ b ∈ HeapRun.blocks T h, ∀ f, h'.get T b.addr f = h.get T b.addr f

/-- What an allocation that was taken back leaves of the heap it was made on. -/
structure Restored (h h' : Heap) : Prop extends SamePartition T h h' where
  payloads : ∀ b ∈ HeapRun.blocks T h, b.owner ≠ none →
    ∀ x, b.payload T.headerSize ≤ x → x < b.stop T.headerSize → h'.mem x = h.mem x
  ctl : h'.ctl = { h.ctl with
    nextFit := h'.ctl.nextFit
    highWatermarkBytes := h'.ctl.highWatermarkBytes
    successfulAllocations := incrementSaturating h.ctl.successfulAllocations
    successfulFrees := incrementSaturating h.ctl.successfulFrees }

variable {T} {h h' : Heap}

/-! ### Partitions -/

/-- The headers of a chain are determined by its blocks. -/
lemma header_unique {bs : List Blk} (hc : Chained T h bs) (hc' : Chained T h' bs)
    (hcookie : h'.ctl.cookie = h.ctl.cookie) {b : Blk} (hb : b ∈ bs) (f : Field) :
    h'.get T b.addr f = h.get T b.addr f := by
  obtain ⟨pre, post, rfl⟩ := List.append_of_mem hb
  have hfield := hc.header f
  have hfield' := hc'.header f
  rw [hcookie] at hfield'
  rw [Heap.get, Heap.get, hfield, hfield']

lemma samePartition_of_inv {bs : List Blk} (hi : HeapInv T h bs) (hi' : HeapInv T h' bs)
    (hcookie : h'.ctl.cookie = h.ctl.cookie) : SamePartition T h h' := by
  refine ⟨by rw [blocks_eq hi, blocks_eq hi'], fun b hb f => ?_⟩
  rw [blocks_eq hi] at hb
  exact header_unique hi.toChained hi'.toChained hcookie hb f

/-! ### Taking a block back -/

/-- The parts of a carved block are joined to what it was. -/
lemma coalesce_carve {b : Blk} {n owner : ℕ} {blk : Blk} {rest : List Blk} (hfree : b.owner = none)
    (hcarve : carve T b n owner = blk :: rest) (post : List Blk) :
    coalesce T.headerSize (release blk :: (rest ++ post)) = coalesce T.headerSize (b :: post) := by
  unfold carve at hcarve
  split at hcarve
  · next hroom =>
    obtain ⟨rfl, rfl⟩ := List.cons.inj hcarve
    have hfront : release (grant (cutFront b n) owner) = cutFront b n := by
      simp [release, grant, cutFront, hfree]
    have hjoin : merge T.headerSize (cutFront b n) (cutRest T b n) = b := by
      unfold memoryAlignment at hroom
      rcases b with ⟨addr, capacity, o⟩
      simp only [merge, cutFront, cutRest, Block.mk.injEq, true_and] at hroom hfree ⊢
      exact ⟨by omega, hfree.symm⟩
    have hmerge := @coalesce_merge _ T.headerSize (cutFront b n) (cutRest T b n) post hfree rfl
    rw [hjoin] at hmerge
    rw [hfront, hmerge]
    rfl
  · obtain ⟨rfl, rfl⟩ := List.cons.inj hcarve
    have hback : release (grant b owner) = b := by
      rcases b with ⟨addr, capacity, o⟩
      simp only [release, grant, Block.mk.injEq, true_and]
      exact hfree.symm
    rw [hback]
    rfl

/-- **The free neighbours stay apart**: what is coalesced is the block that was carved. -/
lemma coalesce_undo {pre post rest : List Blk} {b blk : Blk} {n owner : ℕ}
    (hsep : Separated (pre ++ b :: post)) (hfree : b.owner = none)
    (hcarve : carve T b n owner = blk :: rest) :
    coalesce T.headerSize (pre ++ release blk :: (rest ++ post)) = pre ++ b :: post := by
  rw [coalesce_append_congr pre (coalesce_carve hfree hcarve post), coalesce_of_separated hsep]

/-- What is left of a heap when the block carved from it is free again. -/
lemma restored_of {pre post : List Blk} {b : Blk} {n owner : ℕ} {h₁ : Heap}
    (hi : HeapInv T h (pre ++ b :: post)) (hfree : b.owner = none) (hn : 8 ≤ n)
    (hn8 : n % 8 = 0) (hfit : n ≤ b.capacity) (howner : owner < memoryOwnerNone)
    (hi' : HeapInv T h₁ (pre ++ b :: post))
    (hctl : h₁.ctl = { (takeBlock T h b.addr n owner).ctl with
      nextFit := h₁.ctl.nextFit
      allocatedBytes := h₁.ctl.allocatedBytes
      successfulFrees := incrementSaturating (takeBlock T h b.addr n owner).ctl.successfulFrees })
    (hmem : ∀ x, Outside T.headerSize (pre ++ (carve T b n owner ++ post)) x →
      h₁.mem x = (takeBlock T h b.addr n owner).mem x) : Restored T h h₁ := by
  obtain ⟨htake, hctl₁, hmem₁⟩ := takeBlock_spec hi hfree hn8 hn hfit howner
  have hbytes : h₁.ctl.allocatedBytes = h.ctl.allocatedBytes := by
    rw [hi'.allocated, hi.allocated]
  refine ⟨samePartition_of_inv hi hi' (by rw [hctl, hctl₁]), fun c hc hown x hx hx' => ?_, ?_⟩
  · rw [blocks_eq hi] at hc
    have hkeep : c ∈ pre ++ (carve T b n owner ++ post) := by
      rcases List.mem_append.mp hc with hc | hc
      · exact List.mem_append_left _ hc
      · rcases List.mem_cons.mp hc with rfl | hc
        · exact absurd hfree hown
        · exact List.mem_append_right _ (List.mem_append_right _ hc)
    have hout := outside_of_payload htake.tiles hkeep hx hx'
    rw [hmem x hout, hmem₁ x hout]
  · rw [hctl, hbytes, hctl₁]

/-- **An immediate free** takes the block back. -/
lemma free_restores {pre post : List Blk} {b : Blk} {n owner : ℕ}
    (hi : HeapInv T h (pre ++ b :: post)) (hfree : b.owner = none) (hn : 8 ≤ n)
    (hn8 : n % 8 = 0) (hfit : n ≤ b.capacity) (howner : owner < memoryOwnerNone) :
    ∃ h', osAllocatorFree T (takeBlock T h b.addr n owner) (b.payload T.headerSize) owner =
      some (h', true) ∧ Restored T h h' := by
  obtain ⟨htake, -, -⟩ := takeBlock_spec hi hfree hn8 hn hfit howner
  obtain ⟨rest, hcarve⟩ := carve_eq (T := T) b n owner
  have hlist : pre ++ (carve T b n owner ++ post) =
      pre ++ ⟨b.addr, carvedCapacity T b n, some owner⟩ :: (rest ++ post) := by rw [hcarve]; rfl
  rw [hlist] at htake
  obtain ⟨h', hrun, hinv, hctl, hmem⟩ := free_accepted htake rfl
  rw [coalesce_undo hi.separated hfree hcarve] at hinv
  refine ⟨h', hrun, restored_of hi hfree hn hn8 hfit howner hinv ?_ ?_⟩
  · rw [hctl]
  · rw [hlist]
    exact hmem

lemma surrender_none {bs : List Blk} {owner : ℕ} (hno : ∀ b ∈ bs, b.owner ≠ some owner) :
    bs.map (surrender owner) = bs :=
  surrender_of_not_held (List.countP_eq_zero.mpr fun b hb => by simpa using hno b hb)

/-- What is left over when a block is carved is free. -/
lemma carve_rest_free {b blk : Blk} {n owner : ℕ} {rest : List Blk}
    (hcarve : carve T b n owner = blk :: rest) : ∀ c ∈ rest, c.owner = none := by
  unfold carve at hcarve
  split at hcarve
  · obtain ⟨rfl, rfl⟩ := List.cons.inj hcarve
    exact List.forall_mem_singleton.mpr rfl
  · obtain ⟨rfl, rfl⟩ := List.cons.inj hcarve
    simp

/-- **An immediate sweep** takes the block back, when its owner held no other. -/
lemma sweep_restores {pre post : List Blk} {b : Blk} {n owner : ℕ}
    (hi : HeapInv T h (pre ++ b :: post)) (hfree : b.owner = none) (hn : 8 ≤ n)
    (hn8 : n % 8 = 0) (hfit : n ≤ b.capacity) (howner : owner < memoryOwnerNone)
    (hno : ∀ c ∈ pre ++ b :: post, c.owner ≠ some owner) :
    ∃ h', osAllocatorReleaseOwner T (takeBlock T h b.addr n owner) owner = some (h', 1) ∧
      Restored T h h' := by
  obtain ⟨htake, -, -⟩ := takeBlock_spec hi hfree hn8 hn hfit howner
  obtain ⟨rest, hcarve⟩ := carve_eq (T := T) b n owner
  obtain ⟨blk, hblk⟩ : ∃ blk : Blk, blk = ⟨b.addr, carvedCapacity T b n, some owner⟩ := ⟨_, rfl⟩
  rw [← hblk] at hcarve
  have hown : blk.owner = some owner := by rw [hblk]
  have hlist : pre ++ (carve T b n owner ++ post) = pre ++ blk :: (rest ++ post) := by
    rw [hcarve]; rfl
  -- the owner holds the block handed out and no other
  have hothers : ∀ c ∈ pre ++ (rest ++ post), c.owner ≠ some owner := by
    intro c hc
    rcases List.mem_append.mp hc with hc | hc
    · exact hno c (by simp [hc])
    · rcases List.mem_append.mp hc with hc | hc
      · rw [carve_rest_free hcarve c hc]
        simp
      · exact hno c (by simp [hc])
  have hheld : heldBy owner (pre ++ blk :: (rest ++ post)) = 1 := by
    have hzero : heldBy owner (pre ++ (rest ++ post)) = 0 :=
      List.countP_eq_zero.mpr fun c hc => by simpa using hothers c hc
    rw [heldBy, List.countP_append] at hzero ⊢
    rw [List.countP_cons, hown, beq_self_eq_true, if_pos rfl]
    omega
  have hmap : (pre ++ blk :: (rest ++ post)).map (surrender owner) =
      pre ++ release blk :: (rest ++ post) := by
    rw [List.map_append, List.map_cons,
      surrender_none fun c hc => hothers c (List.mem_append_left _ hc),
      surrender_none fun c hc => hothers c (List.mem_append_right _ hc), surrender, if_pos hown]
  rw [hlist] at htake
  obtain ⟨h', hrun, hinv, hctl, hmem, -⟩ := releaseOwner_spec htake owner
  rw [hheld] at hrun hctl
  rw [hmap, coalesce_undo hi.separated hfree hcarve] at hinv
  refine ⟨h', hrun, restored_of hi hfree hn hn8 hfit howner hinv ?_ ?_⟩
  · rw [hctl]
    rfl
  · rw [hlist]
    exact hmem

/-- **Freeing undoes allocating**, over every history; and so does sweeping an owner that held
nothing before. -/
theorem free_undoes_alloc {m : Mem} {arena arenaSize : ℕ} {calls : List Call} {c : Client}
    (hh : History T m arena arenaSize calls c) {size : ℕ} {owner : UInt16} {h : Heap} {p : ℕ}
    (halloc : osAllocatorAlloc T c.heap size owner.toNat = some (h, p)) (hp : p ≠ 0) :
    (∃ h', osAllocatorFree T h p owner.toNat = some (h', true) ∧ Restored T c.heap h') ∧
      ((∀ b ∈ blocks T c.heap, b.owner ≠ some owner.toNat) →
        ∃ h', osAllocatorReleaseOwner T h owner.toNat = some (h', 1) ∧ Restored T c.heap h') := by
  obtain ⟨bs, hi⟩ := hh.inv
  have hinv := hi.heap
  have howner := toNat_le_uint16Max owner
  rcases alloc_cases hinv size howner with hfail | ⟨pre, b, post, n, rfl, hfree, hlt, hn, hfit, hok⟩
  · rw [hfail, Option.some.injEq, Prod.mk.injEq] at halloc
    exact absurd halloc.2.symm hp
  · rw [hok, Option.some.injEq, Prod.mk.injEq] at halloc
    obtain ⟨rfl, rfl⟩ := halloc
    obtain ⟨hn8, hn'⟩ := alignUpSize_mod hn
    refine ⟨free_restores hinv hfree hn' hn8 hfit hlt, fun hno => ?_⟩
    rw [blocks_eq hinv] at hno
    exact sweep_restores hinv hfree hn' hn8 hfit hlt hno

/-- An allocation among several blocks, taken back either way. -/
theorem free_undoes_alloc_sample : ∃ h h' h'',
    osAllocatorAlloc .arm32 sampleClient.heap 20 (3 : UInt16).toNat = some (h, 0x20001090) ∧
      osAllocatorFree .arm32 h 0x20001090 (3 : UInt16).toNat = some (h', true) ∧
      osAllocatorReleaseOwner .arm32 h (3 : UInt16).toNat = some (h'', 1) ∧
      blocks .arm32 h' = blocks .arm32 sampleClient.heap ∧
      blocks .arm32 h'' = blocks .arm32 sampleClient.heap := by
  have hp : (osAllocatorAlloc .arm32 sampleClient.heap 20 (3 : UInt16).toNat).map Prod.snd =
      some 0x20001090 := by decide +kernel
  obtain ⟨⟨h, p⟩, hrun, hp⟩ := Option.map_eq_some_iff.mp hp
  obtain rfl : p = 0x20001090 := hp
  obtain ⟨⟨h', hfree, hback⟩, hsweep⟩ := free_undoes_alloc history_sample hrun (by decide)
  have hno : ∀ b ∈ blocks .arm32 sampleClient.heap, b.owner ≠ some (3 : UInt16).toNat := by
    rw [blocks_sample]
    decide
  obtain ⟨h'', hrel, hback'⟩ := hsweep hno
  exact ⟨h, h', h'', hrun, hfree, hrel, hback.blocks, hback'.blocks⟩

end Aymos.HeapUndo
