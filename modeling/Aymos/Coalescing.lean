import Aymos.FreeRuns
import Aymos.HeapCalls

/-!
What `coalesce_all` makes of a heap.

The loop leaves the normal form of the chain it finds, in as many passes as the chain has blocks,
whichever blocks are free and wherever the cursor stands.
-/

namespace Aymos.Coalescing

open Allocator Tiling Words HeapRepr HeapBlocks HeapOps HeapCalls FreeRuns

variable {T : Target} {h h' : Heap} {bs cs : List Blk}

/-- **The heap `h` with the chain `bs` has been coalesced** to `h'` with the chain `cs`. -/
structure Normalized (T : Target) (h : Heap) (bs : List Blk) (h' : Heap) (cs : List Blk) :
    Prop where
  normal : NormalForm T.headerSize bs cs
  /-- The blocks tile the heap, and their headers are linked both ways and marked. -/
  chained : Chained T h' cs
  owned : owned cs = owned bs
  /-- An allocated block may get another neighbour before it. -/
  header : ∀ b ∈ bs, b.owner ≠ none → ∀ f, f ≠ .previous → h'.get T b.addr f = h.get T b.addr f
  mem : ∀ x, Outside T.headerSize bs x → h'.mem x = h.mem x
  ctl : SameButCursor h h'
  /-- The cursor goes with its block to the start of the block's run. -/
  cursor : ∀ r ∈ runs bs, (∃ b ∈ r, b.addr = h.ctl.nextFit) →
    r.head?.map Block.addr = some h'.ctl.nextFit
  stays : (∃ c ∈ cs, c.addr = h.ctl.nextFit) → h'.ctl.nextFit = h.ctl.nextFit

/-- A cursor inside a block of the chain has gone to the start of that block. -/
lemma cursor_eq (hc : Chained T h' cs) {nf : ℕ} (hn : Absorbs T.headerSize cs nf h'.ctl.nextFit)
    {c : Blk} (hcm : c ∈ cs) (hle : c.addr ≤ nf) (hlt : nf < c.stop T.headerSize) :
    h'.ctl.nextFit = c.addr := by
  obtain ⟨d, hd, hcur, hdle, hdlt⟩ := hn
  rcases hc.tiles.apart hcm hd with rfl | hapart | hapart
  · exact hcur.symm
  · omega
  · omega

lemma lt_stop (b : Blk) : b.addr < b.stop T.headerSize := by
  have := headerSize_pos T
  unfold Block.stop
  omega

/-- A run has become one block of the normal form. -/
lemma joined_of_run (hn : NormalForm T.headerSize bs cs) {r : List Blk} (hr : r ∈ runs bs) :
    ∃ c ∈ cs, Joined T.headerSize r c := by
  obtain ⟨n, hlt, rfl⟩ := List.getElem_of_mem hr
  have hlt' : n < cs.length := hn.length_eq ▸ hlt
  exact ⟨cs[n], List.getElem_mem hlt', List.Forall₂.get hn hlt hlt'⟩

/-- The header of an allocated block, but for its back link. -/
lemma header_owned (hc : Chained T h bs) (hc' : Chained T h' (coalesce T.headerSize bs))
    (hsame : SameButCursor h h') {b : Blk} (hb : b ∈ bs) (ho : b.owner ≠ none) {f : Field}
    (hf : f ≠ .previous) : h'.get T b.addr f = h.get T b.addr f := by
  obtain ⟨pre, post, rfl⟩ := List.append_of_mem hb
  rw [coalesce_append_owned pre post ho] at hc'
  have hnext : headAddr 0 (coalesce T.headerSize post) = headAddr 0 post := by
    have htiles := (tiles_append.mp hc.tiles).2.2
    cases post with
    | nil => rfl
    | cons c post =>
      obtain ⟨d, ds, hd, -⟩ := @coalesce_head _ T.headerSize c post
      have htiles' := tiles_coalesce htiles
      rw [hd] at htiles' ⊢
      exact htiles'.1.trans htiles.1.symm
  have hcookie : h'.ctl.cookie = h.ctl.cookie := by rw [hsame]
  have hold : h.get T b.addr f = _ := hc.header f
  have hnew : h'.get T b.addr f = _ := hc'.header f
  rw [hold, hnew, hnext, hcookie]
  cases f with
  | previous => exact absurd rfl hf
  | _ => rfl

/-- What the loop leaves is normalized. -/
lemma normalized_of_joining (hc : Chained T h bs) (hc' : Chained T h' (coalesce T.headerSize bs))
    (hjoin : Joining T bs (coalesce T.headerSize bs) h h') :
    Normalized T h bs h' (coalesce T.headerSize bs) := by
  have hnormal := normalForm_coalesce hc.tiles
  have hstart : Absorbs T.headerSize bs h.ctl.nextFit h.ctl.nextFit := by
    obtain ⟨b, hb, hcur⟩ := hc.cursor
    exact ⟨b, hb, hcur, hcur.le, hcur ▸ lt_stop b⟩
  have hend := hjoin.cursor _ hstart
  refine ⟨hnormal, hc', owned_coalesce bs, fun b hb ho f hf => header_owned hc hc' hjoin.ctl hb ho hf,
    hjoin.mem, hjoin.ctl, ?_, ?_⟩
  · rintro r hr ⟨b, hb, hcur⟩
    obtain ⟨c, hcm, hrc⟩ := joined_of_run hnormal hr
    have hinside := hrc.tiles.bounds hb
    have hbstop := lt_stop (T := T) b
    rw [cursor_eq hc' hend hcm (by omega) (by omega), hrc.addr_eq,
      List.head?_eq_some_head hrc.nonempty]
    rfl
  · rintro ⟨c, hcm, hcur⟩
    have hcstop := lt_stop (T := T) c
    rw [cursor_eq hc' hend hcm (by omega) (by omega), hcur]

/-- **`coalesce_all` computes the normal form** of the chain `bs`. The loop ends after one pass for
each block; what it leaves is the one result of joining each maximal run of free blocks, and the
one tiling of the heap that keeps the allocated blocks and has no two free neighbours. -/
def CoalesceExact (T : Target) (h : Heap) (bs : List Blk) : Prop :=
  ∃ h' cs,
    (∀ fuel, coalesceLoop T fuel h h.ctl.firstBlock =
      if bs.length ≤ fuel then some h' else none) ∧
    (bs.length ≤ maximumBlocks T h.ctl + 1 → coalesceAll T h = some h') ∧
    Normalized T h bs h' cs ∧
    (∀ ds, NormalForm T.headerSize bs ds → ds = cs) ∧
    ∀ ds, Tiles T.headerSize h.ctl.heapBegin ds h.ctl.heapEnd → Separated ds →
      owned ds = owned bs → ds = cs

/-- **Every chain is coalesced to its normal form**, whichever of its blocks are free and at
whichever the cursor stands. -/
theorem coalesce_all_normalizes (hc : Chained T h bs) : CoalesceExact T h bs := by
  obtain ⟨h', hrun, hc', hjoin⟩ := coalesceLoop_spec bs h [] hc.ne_nil hc
  rw [hc.headAddr_eq] at hrun
  refine ⟨h', coalesce T.headerSize bs, hrun, fun hlen => ?_, normalized_of_joining hc hc' hjoin,
    fun ds hds => hds.unique (normalForm_coalesce hc.tiles), fun ds htiles hsep hown => ?_⟩
  · rw [coalesceAll, hrun, if_pos hlen]
  · exact (eq_coalesce_iff (headerSize_pos T) hc.tiles).mpr ⟨htiles, hsep, hown⟩

/-- An allocated block before two free ones, with the cursor at the last. -/
theorem coalesce_all_normalizes_three : ∃ h : Heap, h.ctl.nextFit = 0x20001040 ∧
    CoalesceExact .arm32 h [⟨0x20001000, 8, some 1⟩, ⟨0x20001020, 8, none⟩,
      ⟨0x20001040, 168, none⟩] := by
  have hfresh := (@freshHeap_inv .arm32 (fun _ => 0) 0x20001000 0x20001100 (by decide) (by decide)
    (by decide) (by decide) (by decide)).toChained
  obtain ⟨h₁, -, -⟩ := @chained_splitBlock .arm32 _ [] [] _ 8 hfresh rfl (by decide) (by decide)
  obtain ⟨h₂, hcur, -⟩ := @chained_splitBlock .arm32 _
    [cutFront ⟨0x20001000, 232, none⟩ 8] [] _ 8 h₁ rfl (by decide) (by decide)
  have h₃ := @chained_grant .arm32 _ [] _ _ 1 h₂ (by decide)
  refine ⟨_, ?_, coalesce_all_normalizes h₃⟩
  exact congrArg OsAllocator.nextFit hcur

end Aymos.Coalescing
