import Aymos.HeapUndo

/-!
The owner sweep against single frees.

The sweep marks every block of an owner before one coalescing pass; freeing the same blocks one
by one coalesces after each. A free changes owned blocks only, so it may be made before a
coalescing pass or after it, and every order of frees ends in the partition of the sweep.
-/

namespace Aymos.HeapSweep

open Aymos.ByteMem Aymos.Allocator Aymos.Tiling Aymos.Words Aymos.HeapRepr Aymos.HeapBlocks
  Aymos.HeapOps Aymos.HeapCalls Aymos.HeapRun Aymos.HeapUndo

/-- The blocks an owner holds. -/
def heldBlocks (owner : ℕ) (bs : List Blk) : List Blk := bs.filter fun b => b.owner == some owner

/-- What they amount to. -/
def heldBytes (owner : ℕ) (bs : List Blk) : ℕ := ((heldBlocks owner bs).map Block.capacity).sum

/-- The pointers to them. -/
def heldPointers (T : Target) (owner : ℕ) (bs : List Blk) : List ℕ :=
  (heldBlocks owner bs).map (Block.payload T.headerSize)

variable (T : Target)

/-- `os_allocator_free` called on each pointer in turn; `none` when one of the calls refuses. -/
def freeEach (owner : ℕ) : List ℕ → Heap → Option Heap
  | [], h => some h
  | p :: ps, h =>
    match osAllocatorFree T h p owner with
    | some (h', true) => freeEach owner ps h'
    | _ => none

/-- **What a sweep does**: it counts the owner's blocks, leaves none of them and all the others,
and ends where single frees end. -/
structure SweepExact (h : Heap) (owner : ℕ) (h' : Heap) (released : ℕ) : Prop where
  count : released = (heldBlocks owner (blocks T h)).length
  swept : ∀ b ∈ blocks T h', b.owner ≠ some owner
  others : ∀ b ∈ blocks T h, ∀ o, b.owner = some o → o ≠ owner → b ∈ blocks T h' ∧
    ∀ x, b.payload T.headerSize ≤ x → x < b.stop T.headerSize → h'.mem x = h.mem x
  bytes : h'.ctl.allocatedBytes + heldBytes owner (blocks T h) = h.ctl.allocatedBytes
  anyOrder : ∀ order : List ℕ, order.Perm (heldPointers T owner (blocks T h)) →
    ∃ h'', freeEach T owner order h = some h'' ∧ SamePartition T h' h'' ∧
      h''.ctl.allocatedBytes = h'.ctl.allocatedBytes

variable {T} {h : Heap} {bs : List Blk}

/-! ### Single frees -/

/-- A block after the pointers in `ps` have been freed. -/
def discharge (T : Target) (ps : List ℕ) (b : Blk) : Blk :=
  if b.payload T.headerSize ∈ ps then release b else b

lemma release_free {b : Blk} (hfree : b.owner = none) : release b = b := by
  rcases b with ⟨addr, capacity, o⟩
  simp only [release, Block.mk.injEq, true_and]
  exact hfree.symm

lemma discharge_free {ps : List ℕ} {b : Blk} (hfree : b.owner = none) : discharge T ps b = b := by
  unfold discharge
  split
  · exact release_free hfree
  · rfl

lemma discharge_of_notMem {ps : List ℕ} {b : Blk} (hb : b.payload T.headerSize ∉ ps) :
    discharge T ps b = b := if_neg hb

lemma discharge_congr {ps qs : List ℕ} (hmem : ∀ p, p ∈ ps ↔ p ∈ qs) :
    discharge T ps = discharge T qs := by
  funext b
  simp only [discharge, hmem]

lemma discharge_cons (p : ℕ) (ps : List ℕ) (b : Blk) :
    discharge T [p] (discharge T ps b) = discharge T (p :: ps) b := by
  by_cases hps : b.payload T.headerSize ∈ ps
  · have hfreed : discharge T ps b = release b := if_pos hps
    have hstill : discharge T (p :: ps) b = release b := if_pos (List.mem_cons_of_mem _ hps)
    rw [hfreed, hstill, discharge_free rfl]
  · rw [discharge_of_notMem hps, discharge, discharge]
    refine if_congr ?_ rfl rfl
    simp only [List.mem_cons, List.not_mem_nil, or_false, hps]

/-- Freeing one pointer of a tiling frees the block it points to. -/
lemma map_discharge {pre post : List Blk} {b : Blk} {a z : ℕ}
    (ht : Tiles T.headerSize a (pre ++ b :: post) z) :
    (pre ++ b :: post).map (discharge T [b.payload T.headerSize]) = pre ++ release b :: post := by
  have hhdr := headerSize_pos T
  have hother : ∀ xs : List Blk, (∀ c ∈ xs, c.addr ≠ b.addr) →
      xs.map (discharge T [b.payload T.headerSize]) = xs := by
    intro xs hxs
    conv_rhs => rw [← List.map_id xs]
    refine List.map_congr_left fun c hc => discharge_of_notMem fun hmem => hxs c hc ?_
    rw [List.mem_singleton] at hmem
    unfold Block.payload at hmem
    omega
  have hpre := hother pre fun c hc => by
    have := ht.around.1 c hc
    unfold Block.stop at this
    omega
  have hpost := hother post fun c hc => by
    have := ht.around.2 c hc
    unfold Block.stop at this
    omega
  rw [List.map_append, List.map_cons, hpre, hpost, discharge, if_pos (List.mem_singleton.mpr rfl)]

/-- One more free: the pointer joins those freed before. -/
lemma freeOne_spec {owner p : ℕ} {done : List ℕ} {b : Blk}
    (hi : HeapInv T h (coalesce T.headerSize (bs.map (discharge T done)))) (hb : b ∈ bs)
    (hown : b.owner = some owner) (hp : b.payload T.headerSize = p) (hnew : p ∉ done) :
    ∃ h', osAllocatorFree T h p owner = some (h', true) ∧
      HeapInv T h' (coalesce T.headerSize (bs.map (discharge T (p :: done)))) ∧
      h'.ctl.cookie = h.ctl.cookie := by
  subst hp
  have hkeep : b ∈ coalesce T.headerSize (bs.map (discharge T done)) :=
    mem_coalesce (List.mem_map.mpr ⟨b, hb, discharge_of_notMem hnew⟩) (by simp [hown])
  obtain ⟨pre, post, hsplit⟩ := List.append_of_mem hkeep
  have hi' := hi
  rw [hsplit] at hi'
  obtain ⟨h', hrun, hinv, hctl, -⟩ := free_accepted hi' hown
  have hcomp : discharge T [b.payload T.headerSize] ∘ discharge T done =
      discharge T (b.payload T.headerSize :: done) :=
    funext fun c => discharge_cons (b.payload T.headerSize) done c
  rw [← map_discharge hi'.tiles, ← hsplit, coalesce_map_coalesce fun c hc => discharge_free hc,
    List.map_map, hcomp] at hinv
  exact ⟨h', hrun, hinv, by rw [hctl]⟩

/-- **Freeing pointers one by one** is accepted and frees their blocks. -/
lemma freeEach_spec {owner : ℕ} : ∀ (ps done : List ℕ) (h : Heap), ps.Nodup →
    (∀ p ∈ ps, p ∉ done ∧ ∃ b ∈ bs, b.owner = some owner ∧ b.payload T.headerSize = p) →
    HeapInv T h (coalesce T.headerSize (bs.map (discharge T done))) →
    ∃ h', freeEach T owner ps h = some h' ∧
      HeapInv T h' (coalesce T.headerSize (bs.map (discharge T (ps ++ done)))) ∧
      h'.ctl.cookie = h.ctl.cookie := by
  intro ps
  induction ps with
  | nil => exact fun done h _ _ hi => ⟨h, rfl, hi, rfl⟩
  | cons p ps ih =>
    intro done h hnodup hheld hi
    obtain ⟨hnew, b, hb, hown, hp⟩ := hheld p (by simp)
    obtain ⟨hp', hnodup⟩ := List.nodup_cons.mp hnodup
    obtain ⟨h₁, hrun, hinv, hcookie⟩ := freeOne_spec hi hb hown hp hnew
    obtain ⟨h', hrest, hinv', hcookie'⟩ := ih (p :: done) h₁ hnodup (fun q hq => by
      obtain ⟨hqd, hqb⟩ := hheld q (by simp [hq])
      refine ⟨?_, hqb⟩
      rw [List.mem_cons, not_or]
      exact ⟨fun heq => hp' (heq ▸ hq), hqd⟩) hinv
    refine ⟨h', by rw [freeEach, hrun]; exact hrest, ?_, hcookie'.trans hcookie⟩
    have hsame : discharge T (ps ++ p :: done) = discharge T (p :: ps ++ done) :=
      discharge_congr fun q => by simp only [List.mem_append, List.mem_cons]; tauto
    rwa [hsame] at hinv'

/-! ### The sweep -/

lemma mem_heldPointers {owner p : ℕ} :
    p ∈ heldPointers T owner bs ↔ ∃ b ∈ bs, b.owner = some owner ∧ b.payload T.headerSize = p := by
  simp only [heldPointers, heldBlocks, List.mem_map, List.mem_filter, beq_iff_eq, and_assoc]

lemma heldPointers_nodup {a z : ℕ} (ht : Tiles T.headerSize a bs z) (owner : ℕ) :
    (heldPointers T owner bs).Nodup := by
  have haddr := ht.addr_nodup (headerSize_pos T)
  rw [List.nodup_iff_pairwise_ne, List.pairwise_map] at haddr
  rw [heldPointers, heldBlocks, List.nodup_iff_pairwise_ne, List.pairwise_map]
  refine (haddr.filter _).imp fun {b c} hne heq => hne ?_
  unfold Block.payload at heq
  omega

/-- The sweep frees the blocks its owner's pointers point to. -/
lemma discharge_held {a z : ℕ} (ht : Tiles T.headerSize a bs z) (owner : ℕ) :
    bs.map (discharge T (heldPointers T owner bs)) = bs.map (surrender owner) := by
  refine List.map_congr_left fun b hb => ?_
  rw [discharge, surrender]
  refine if_congr ?_ rfl rfl
  rw [mem_heldPointers]
  constructor
  · rintro ⟨c, hc, hown, hpay⟩
    unfold Block.payload at hpay
    rwa [← ht.eq_of_addr (headerSize_pos T) hc hb (by omega)]
  · exact fun hown => ⟨b, hb, hown, rfl⟩

lemma ownedBytes_surrender (owner : ℕ) (bs : List Blk) :
    ownedBytes (bs.map (surrender owner)) + heldBytes owner bs = ownedBytes bs := by
  induction bs with
  | nil => rfl
  | cons b bs ih =>
    have hheld : heldBytes owner (b :: bs) =
        (if b.owner = some owner then b.capacity else 0) + heldBytes owner bs := by
      by_cases hown : b.owner = some owner <;> simp [heldBytes, heldBlocks, hown]
    rw [List.map_cons, ownedBytes_cons, ownedBytes_cons, hheld, surrender]
    by_cases hown : b.owner = some owner
    · simp only [release, hown, Option.isSome_some, Option.isSome_none, if_true]
      simp only [Bool.false_eq_true, if_false]
      omega
    · simp only [if_neg hown]
      omega

lemma sweepExact_of_inv (hi : HeapInv T h bs) (owner : ℕ) :
    ∃ h' released, osAllocatorReleaseOwner T h owner = some (h', released) ∧
      SweepExact T h owner h' released := by
  obtain ⟨h', hrun, hinv, hctl, hmem, -⟩ := releaseOwner_spec hi owner
  have hbs := blocks_eq hi
  have hbs' := blocks_eq hinv
  refine ⟨h', _, hrun, ?_, fun b hb hown => ?_, fun b hb o hown hne => ?_, ?_,
    fun order hperm => ?_⟩
  · rw [hbs, heldBlocks, heldBy, List.countP_eq_length_filter]
  · rw [hbs'] at hb
    have hb := mem_of_coalesce hb (by simp [hown])
    obtain ⟨c, -, rfl⟩ := List.mem_map.mp hb
    unfold surrender at hown
    split at hown
    · simp [release] at hown
    · contradiction
  · rw [hbs] at hb
    have hstay : surrender owner b = b := if_neg (by rw [hown, Option.some.injEq]; exact hne)
    rw [hbs']
    exact ⟨mem_coalesce (List.mem_map.mpr ⟨b, hb, hstay⟩) (by simp [hown]),
      fun x hx hx' => hmem x (outside_of_payload hi.tiles hb hx hx')⟩
  · rw [hbs, hctl, hi.allocated]
    exact ownedBytes_surrender owner bs
  · rw [hbs] at hperm
    have hnodup := hperm.nodup_iff.mpr (heldPointers_nodup hi.tiles owner)
    have hnone : discharge T [] = (id : Blk → Blk) :=
      funext fun b => discharge_of_notMem List.not_mem_nil
    have hstart : HeapInv T h (coalesce T.headerSize (bs.map (discharge T []))) := by
      rw [hnone, List.map_id, coalesce_of_separated hi.separated]
      exact hi
    obtain ⟨h'', hfree, hinv', hcookie⟩ := freeEach_spec order [] h hnodup
      (fun p hp => ⟨List.not_mem_nil, mem_heldPointers.mp (hperm.mem_iff.mp hp)⟩) hstart
    rw [List.append_nil, discharge_congr fun p => hperm.mem_iff, discharge_held hi.tiles] at hinv'
    refine ⟨h'', hfree, samePartition_of_inv hinv hinv' (by rw [hcookie, hctl]), ?_⟩
    rw [hinv'.allocated, hinv.allocated]

/-- **The sweep is exact**, over every history and for every owner; there is nothing to sweep
for the tag of free blocks. -/
theorem sweep_exact {m : Mem} {arena arenaSize : ℕ} {calls : List Call} {c : Client}
    (hh : History T m arena arenaSize calls c) (owner : UInt16) :
    ∃ h' released, osAllocatorReleaseOwner T c.heap owner.toNat = some (h', released) ∧
      SweepExact T c.heap owner.toNat h' released := by
  obtain ⟨bs, hi⟩ := hh.inv
  exact sweepExact_of_inv hi.heap owner.toNat

/-- An owner of one block on a small firmware arena. -/
theorem sweep_exact_alloc : ∃ (c : Client) (h' : Heap),
    History .arm32 (fun _ => 0) 0x20001000 256 [.alloc 20 1] c ∧
      SweepExact .arm32 c.heap (1 : UInt16).toNat h' 1 := by
  obtain ⟨h, hrun, hh⟩ := @History.start_alloc .arm32 (fun _ => 0) 0x20001000 256 0x20001018
    (by decide +kernel) 20 1 (by decide +kernel) (by decide)
  obtain ⟨h', released, -, hexact⟩ := sweep_exact hh 1
  have hone : (osAllocatorAlloc .arm32 (osAllocatorInit .arm32 (fun _ => 0) 0x20001000 256).1 20
      (1 : UInt16).toNat).map
      (fun r => (heldBlocks (1 : UInt16).toNat (blocks .arm32 r.1)).length) = some 1 := by
    decide +kernel
  rw [hrun, Option.map_some, Option.some.injEq] at hone
  have hcount : released = 1 := hexact.count.trans hone
  exact ⟨_, h', hh, hcount ▸ hexact⟩

end Aymos.HeapSweep
