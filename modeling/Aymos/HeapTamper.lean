import Aymos.HeapValidate
import Aymos.HeapCalls

/-!
Changing one header field.

Headers carry no checksum. The validator works out each marker, each back link and each `next`
from the addresses it has walked through, so a header that disagrees with its neighbours in any
one field is found out. The one field that nothing else determines is the tag of an allocated
block, as long as it is not the tag of free blocks.
-/

namespace Aymos.HeapTamper

open Aymos.ByteMem Aymos.Allocator Aymos.Tiling Aymos.Words Aymos.HeapRepr Aymos.HeapBlocks
  Aymos.HeapCalls Aymos.HeapRun Aymos.HeapValidate

variable {T : Target} {h : Heap} {bs : List Blk}

/-- The change gives an allocated block another owner. -/
def Retags (b : Blk) (f : Field) (v : ℕ) : Prop :=
  f = .owner ∧ b.owner ≠ none ∧ v ≠ memoryOwnerNone

/-! ### What neighbours determine -/

lemma lastAddr_congr {xs ys : List Blk} (prev : ℕ)
    (hmap : xs.map Block.addr = ys.map Block.addr) : lastAddr prev xs = lastAddr prev ys := by
  induction xs generalizing prev ys with
  | nil =>
    rw [List.map_nil, eq_comm, List.map_eq_nil_iff] at hmap
    rw [hmap]
  | cons b xs ih =>
    cases ys with
    | nil => simp at hmap
    | cons c ys =>
      rw [List.map_cons, List.map_cons, List.cons.injEq] at hmap
      rw [lastAddr, lastAddr, hmap.1]
      exact ih c.addr hmap.2

/-- Where a chain goes on is determined by where it has got to. -/
lemma headAddr_of_tiles {stop z : ℕ} {post : List Blk} (ht : Tiles T.headerSize stop post z) :
    headAddr 0 post = if stop = z then 0 else stop := by
  cases post with
  | nil => exact (if_pos ht).symm
  | cons c post =>
    obtain ⟨rfl, htail⟩ := ht
    have hle := htail.le
    have hhdr := headerSize_pos T
    unfold Block.stop at hle
    rw [if_neg (by omega), headAddr]

/-- A heap that is valid after the change has a header where the changed one is. -/
lemma header_after {pre post : List Blk} {b : Blk} {f : Field} {v : ℕ}
    (hi : HeapInv T h (pre ++ b :: post))
    (hvalid : osAllocatorValidate T (h.set T b.addr f v) = true) :
    ∃ (b' : Blk) (next : ℕ), b'.addr = b.addr ∧
      HeaderIs T h.ctl.cookie (h.set T b.addr f v).mem b' (lastAddr 0 pre) next ∧
      (∀ o ∈ b'.owner, o < memoryOwnerNone) ∧
      next = if b'.stop T.headerSize = h.ctl.heapEnd then 0 else b'.stop T.headerSize := by
  have hw : WordFields T (h.set T b.addr f v).ctl := ⟨hi.geometry.fits, hi.geometry.cookie⟩
  obtain ⟨hc, -, -⟩ := validate_sound hw hvalid
  -- the headers before the changed one are as they were
  have hcap : ∀ c ∈ pre, ∀ d ∈ blocks T (h.set T b.addr f v), d.addr = c.addr →
      d.capacity = c.capacity := by
    intro c hcm d hd haddr
    have hbefore := hi.tiles.around.1 c hcm
    unfold Block.stop at hbefore
    rw [← hc.get_capacity hd, haddr, get_set_apart (by omega)]
    exact hi.get_capacity (List.mem_append_left _ hcm)
  obtain ⟨pre', b', post', hsplit, haddr, hmap⟩ :=
    hi.tiles.share (headerSize_pos T) hc.tiles hcap
  rw [hsplit] at hc
  have hhead := hc.header
  rw [lastAddr_congr 0 hmap] at hhead
  exact ⟨b', _, haddr, hhead, hc.owners b' (by simp),
    headAddr_of_tiles (tiles_append.mp hc.tiles).2.2⟩

/-! ### Detection -/

/-- **A change of one field is found out** unless it gives an allocated block another owner. -/
lemma invalid_of_changed {pre post : List Blk} {b : Blk} {f : Field} {v : ℕ}
    (hi : HeapInv T h (pre ++ b :: post)) (hv : v < 256 ^ f.size T)
    (hne : v ≠ h.get T b.addr f) (htag : ¬Retags b f v) :
    osAllocatorValidate T (h.set T b.addr f v) = false := by
  rw [← Bool.not_eq_true]
  intro hvalid
  obtain ⟨b', next, haddr, hhead, howners, hnext⟩ := header_after hi hvalid
  have hold := hi.header
  have hb : b ∈ pre ++ b :: post := by simp
  have hheld := hi.owners b hb
  have htail := headAddr_of_tiles (tiles_append.mp hi.tiles).2.2
  -- the new header reads back as changed in `f` and as before elsewhere
  have hnew : v = headerField h.ctl.cookie b' (lastAddr 0 pre) next f := by
    have hread := hhead f
    change (h.set T b.addr f v).get T b'.addr f = _ at hread
    rw [haddr, get_set, if_pos rfl, Nat.mod_eq_of_lt hv] at hread
    exact hread
  have hsame : ∀ g, g ≠ f → headerField h.ctl.cookie b (lastAddr 0 pre) (headAddr 0 post) g =
      headerField h.ctl.cookie b' (lastAddr 0 pre) next g := by
    intro g hg
    have hread := hhead g
    change (h.set T b.addr f v).get T b'.addr g = _ at hread
    rw [haddr, get_set, if_neg hg] at hread
    rw [← hread]
    exact (hold g).symm
  have hwas : h.get T b.addr f =
      headerField h.ctl.cookie b (lastAddr 0 pre) (headAddr 0 post) f := hold f
  rw [hwas] at hne
  have hpos := hi.addr_pos hb
  cases f with
  | marker => exact hne (by rw [hnew, headerField, headerField, haddr])
  | previous => exact hne hnew
  | reserved => exact hne hnew
  | capacity =>
    have hlink := hsame .next (by decide)
    simp only [headerField, hnext, htail] at hlink hne hnew
    unfold Block.stop at hlink
    split at hlink <;> split at hlink <;> omega
  | next =>
    have hcap := hsame .capacity (by decide)
    simp only [headerField] at hcap hne hnew
    rw [hnew, hnext, htail] at hne
    unfold Block.stop at hne
    rw [haddr, ← hcap] at hne
    exact hne rfl
  | owner =>
    have hflag := hsame .allocated (by decide)
    simp only [headerField] at hflag hne hnew
    simp only [Retags, true_and, not_and, not_not] at htag
    cases ho : b.owner with
    | none =>
      cases ho' : b'.owner with
      | none => exact hne (by rw [hnew, ho, ho'])
      | some o' => simp [ho, ho'] at hflag
    | some o =>
      have hlt := hheld o (by simp [ho])
      have hnone := htag (by simp [ho])
      cases ho' : b'.owner with
      | none => simp [ho, ho'] at hflag
      | some o' =>
        have hlt' := howners o' (by simp [ho'])
        rw [ho', Option.getD_some] at hnew
        omega
  | allocated =>
    have htagged := hsame .owner (by decide)
    simp only [headerField] at htagged hne hnew
    cases ho : b.owner with
    | none =>
      cases ho' : b'.owner with
      | none => exact hne (by rw [hnew, ho, ho'])
      | some o' =>
        have hlt' := howners o' (by simp [ho'])
        simp only [ho, ho', Option.getD_none, Option.getD_some] at htagged
        omega
    | some o =>
      have hlt := hheld o (by simp [ho])
      cases ho' : b'.owner with
      | none =>
        simp only [ho, ho', Option.getD_none, Option.getD_some] at htagged
        omega
      | some o' => exact hne (by rw [hnew, ho, ho']; rfl)

/-- **Another owner is not found out.** -/
lemma valid_of_retagged {pre post : List Blk} {b : Blk} {v : ℕ}
    (hi : HeapInv T h (pre ++ b :: post)) (hv : v < 256 ^ Field.size T .owner)
    (hown : b.owner ≠ none) (hne : v ≠ memoryOwnerNone) :
    osAllocatorValidate T (h.set T b.addr .owner v) = true := by
  have hlt : v < memoryOwnerNone := by
    simp only [Field.size] at hv
    unfold memoryOwnerNone uint16Max at hne ⊢
    omega
  obtain ⟨o, ho⟩ := Option.ne_none_iff_exists'.mp hown
  have hc : Chained T (h.set T b.addr .owner v) (pre ++ grant b v :: post) := by
    refine chained_rewrite hi.toChained rfl rfl rfl (by simpa [grant] using hlt) (fun f => ?_)
      fun c hcb f => getField_setField_of_apart hcb
    have hold := hi.header f
    change (h.set T b.addr .owner v).get T b.addr f = _
    rw [get_set]
    cases f <;> simp only [reduceCtorEq, if_false, if_true] <;> try exact hold
    · rw [Nat.mod_eq_of_lt hv]
      rfl
    · change getField T h.mem b.addr .allocated = _
      rw [hold]
      simp [headerField, grant, ho]
  have hbytes : ownedBytes (pre ++ grant b v :: post) = ownedBytes (pre ++ b :: post) := by
    simp [ownedBytes_append, ownedBytes_cons, grant, ho]
  refine HeapInv.valid (T := T) ⟨hc, fun c hcm => ?_, hi.separated.own (by simp [grant]), ?_,
    hi.watermark⟩
  · rcases List.mem_append.mp hcm with hcm | hcm
    · exact hi.minimum c (by simp [hcm])
    · rcases List.mem_cons.mp hcm with rfl | hcm
      · exact hi.minimum b (by simp)
      · exact hi.minimum c (by simp [hcm])
  · rw [hbytes]
    exact hi.allocated

/-- **Every corruption of one header field is detected**, over every history, and only a new
owner for an allocated block is not. -/
theorem corruption_detected {m : Mem} {arena arenaSize : ℕ} {calls : List Call} {c : Client}
    (hh : History T m arena arenaSize calls c) {b : Blk} (hb : b ∈ blocks T c.heap) {f : Field}
    {v : ℕ} (hv : v < 256 ^ f.size T) (hne : v ≠ c.heap.get T b.addr f) :
    osAllocatorValidate T (c.heap.set T b.addr f v) = false ↔ ¬Retags b f v := by
  obtain ⟨bs, hi⟩ := hh.inv
  rw [blocks_eq hi.heap] at hb
  obtain ⟨pre, post, rfl⟩ := List.append_of_mem hb
  constructor
  · rintro hfalse ⟨rfl, hown, hnone⟩
    rw [valid_of_retagged hi.heap hv hown hnone] at hfalse
    cases hfalse
  · exact invalid_of_changed hi.heap hv hne

/-- A block between two others whose header loses its predecessor, and one that is in use and
changes its owner. -/
theorem corruption_detected_sample :
    osAllocatorValidate .arm32 (sampleClient.heap.set .arm32 0x20001050 .previous 0x20001000) =
        false ∧
      osAllocatorValidate .arm32 (sampleClient.heap.set .arm32 0x20001050 .owner 2) ≠ false := by
  have hb : (⟨0x20001050, 16, some 1⟩ : Blk) ∈ blocks .arm32 sampleClient.heap := by
    rw [blocks_sample]
    decide
  have hprevious := @corruption_detected .arm32 _ _ _ _ _ history_sample _ hb .previous 0x20001000
    (by decide) (by decide +kernel)
  have howner := @corruption_detected .arm32 _ _ _ _ _ history_sample _ hb .owner 2 (by decide)
    (by decide +kernel)
  refine ⟨hprevious.mpr (fun hretag => nomatch hretag.1), fun hfalse => ?_⟩
  exact howner.mp hfalse ⟨rfl, by decide, by decide⟩

end Aymos.HeapTamper
