import Aymos.HeapBlocks

/-!
The allocator's loops, on an arena that holds a chain: the coalescing pass, the search, the
walk to a payload and the owner sweep. None of them runs out of fuel.
-/

namespace Aymos.HeapOps

open Aymos.ByteMem Aymos.Allocator Aymos.Tiling Aymos.Words Aymos.HeapRepr Aymos.HeapBlocks

variable {T : Target}

/-- The cursor stands at the block that covers the address `nf`. -/
def Absorbs (hdr : ℕ) (bs : List Blk) (nf nf' : ℕ) : Prop :=
  ∃ b ∈ bs, b.addr = nf' ∧ b.addr ≤ nf ∧ nf < b.stop hdr

/-- Two heaps whose allocator objects differ in the cursor at most. -/
def SameButCursor (h h' : Heap) : Prop := h'.ctl = { h.ctl with nextFit := h'.ctl.nextFit }

lemma SameButCursor.refl (h : Heap) : SameButCursor h h := rfl

lemma SameButCursor.trans {h h' h'' : Heap} (h1 : SameButCursor h h') (h2 : SameButCursor h' h'') :
    SameButCursor h h'' := by
  unfold SameButCursor at *
  rw [h2, h1]

/-! ### Coalescing -/

lemma outside_merge {hdr : ℕ} {pre post : List Blk} {b c : Blk} {x : ℕ}
    (hx : Outside hdr (pre ++ b :: c :: post) x) :
    Outside hdr (pre ++ merge hdr b c :: post) x := by
  refine forall_mem_replace [b, c] [merge hdr b c] hx (List.forall_mem_singleton.mpr ?_)
  exact hx b (by simp)

lemma absorbs_merge {h : Heap} {pre post : List Blk} {b c : Blk} {nf : ℕ}
    (hc : Chained T h (pre ++ b :: c :: post))
    (hn : Absorbs T.headerSize (pre ++ b :: c :: post) nf h.ctl.nextFit) :
    Absorbs T.headerSize (pre ++ merge T.headerSize b c :: post) nf
      (if h.ctl.nextFit = c.addr then b.addr else h.ctl.nextFit) := by
  have hcaddr : c.addr = b.stop T.headerSize := (tiles_append.mp hc.tiles).2.2.1
  have hstop : (merge T.headerSize b c).stop T.headerSize = c.stop T.headerSize := merge_stop hcaddr
  have hbc : b.addr ≤ b.stop T.headerSize := by unfold Block.stop; omega
  have hcs : c.addr ≤ c.stop T.headerSize := by unfold Block.stop; omega
  have haddr : (merge T.headerSize b c).addr = b.addr := rfl
  obtain ⟨d, hd, hcur, hle, hlt⟩ := hn
  simp only [List.mem_append, List.mem_cons] at hd
  by_cases hcc : h.ctl.nextFit = c.addr
  · rw [if_pos hcc]
    have hdc : d = c := hc.tiles.eq_of_addr (headerSize_pos T) (by simp [hd]) (by simp) (by omega)
    subst hdc
    exact ⟨merge T.headerSize b d, by simp, rfl, by omega, by omega⟩
  · rw [if_neg hcc]
    rcases hd with hd | rfl | rfl | hd
    · exact ⟨d, by simp [hd], hcur, hle, hlt⟩
    · exact ⟨merge T.headerSize d c, by simp, hcur, hle, by omega⟩
    · exact absurd hcur.symm hcc
    · exact ⟨d, by simp [hd], hcur, hle, hlt⟩

/-- What stays between two heaps while blocks are joined: the allocator object but for its cursor,
the bytes outside the headers, and the block that a cursor is in. -/
structure Joining (T : Target) (bs bs' : List Blk) (h h' : Heap) : Prop where
  ctl : SameButCursor h h'
  mem : ∀ x, Outside T.headerSize bs x → h'.mem x = h.mem x
  cursor : ∀ nf, Absorbs T.headerSize bs nf h.ctl.nextFit →
    Absorbs T.headerSize bs' nf h'.ctl.nextFit

/-- **A pass of the coalescing loop** at a block that is not the last: it joins the block to the
next or moves on, and one block less remains. -/
lemma coalesceLoop_step {h : Heap} {pre rest : List Blk} {b c : Blk}
    (hc : Chained T h (pre ++ b :: c :: rest)) :
    ∃ (h₁ : Heap) (pre₁ cur₁ : List Blk), cur₁.length = (c :: rest).length ∧
      (∀ fuel, coalesceLoop T (fuel + 1) h b.addr = coalesceLoop T fuel h₁ (headAddr 0 cur₁)) ∧
      Chained T h₁ (pre₁ ++ cur₁) ∧
      pre₁ ++ coalesce T.headerSize cur₁ = pre ++ coalesce T.headerSize (b :: c :: rest) ∧
      Joining T (pre ++ b :: c :: rest) (pre₁ ++ cur₁) h h₁ ∧
      ∀ x, Outside T.headerSize (pre ++ b :: c :: rest) x → Outside T.headerSize (pre₁ ++ cur₁) x := by
  have hbm : b ∈ pre ++ b :: c :: rest := by simp
  have hcm : c ∈ pre ++ b :: c :: rest := by simp
  have hbpos := hc.addr_pos hbm
  have hcpos := hc.addr_pos hcm
  have hnext : h.get T b.addr .next = c.addr := hc.get_next
  have hcond : (h.get T b.addr .allocated = 0 ∧ h.get T c.addr .allocated = 0) ↔
      (b.owner = none ∧ c.owner = none) := by
    rw [hc.get_allocated hbm, hc.get_allocated hcm]
  have hpass : ∀ fuel, coalesceLoop T (fuel + 1) h b.addr =
      if h.get T b.addr .allocated = 0 ∧ h.get T c.addr .allocated = 0 then
        coalesceLoop T fuel (mergeWithNext T h b.addr) b.addr
      else coalesceLoop T fuel h c.addr := fun fuel => by
    rw [coalesceLoop, hnext, if_pos ⟨by omega, by omega⟩]
  by_cases hfree : b.owner = none ∧ c.owner = none
  · obtain ⟨hm, hctl, hmem⟩ := chained_mergeWithNext hc hfree.1 hfree.2
    have hsame : SameButCursor h (mergeWithNext T h b.addr) := by
      unfold SameButCursor
      rw [hctl]
    refine ⟨mergeWithNext T h b.addr, pre, merge T.headerSize b c :: rest, rfl, fun fuel => ?_, hm,
      ?_, ⟨hsame, hmem, fun nf hn => ?_⟩, fun x => outside_merge⟩
    · rw [hpass, if_pos (hcond.mpr hfree)]
      rfl
    · rw [coalesce_merge hfree.1 hfree.2]
    · rw [hctl]
      exact absorbs_merge hc hn
  · have hassoc : ∀ l : List Blk, pre ++ b :: l = (pre ++ [b]) ++ l := by simp
    refine ⟨h, pre ++ [b], c :: rest, rfl, fun fuel => ?_, hassoc (c :: rest) ▸ hc, ?_,
      ⟨SameButCursor.refl h, fun x _ => rfl, fun nf hn => ?_⟩, fun x hx => ?_⟩
    · rw [hpass, if_neg fun hf => hfree (hcond.mp hf)]
      rfl
    · rw [coalesce_cons_of_not rest hfree]
      exact (hassoc _).symm
    · rwa [hassoc (c :: rest)] at hn
    · rwa [hassoc (c :: rest)] at hx

/-- **The coalescing loop** from any block on: the blocks from there are coalesced, in as many
passes as there are blocks. -/
lemma coalesceLoop_spec : ∀ (cur : List Blk) (h : Heap) (pre : List Blk), cur ≠ [] →
    Chained T h (pre ++ cur) →
    ∃ h', (∀ fuel, coalesceLoop T fuel h (headAddr 0 cur) =
        if cur.length ≤ fuel then some h' else none) ∧
      Chained T h' (pre ++ coalesce T.headerSize cur) ∧
      Joining T (pre ++ cur) (pre ++ coalesce T.headerSize cur) h h' := by
  intro cur
  induction hn : cur.length generalizing cur with
  | zero => intro h pre hne; exact absurd (List.length_eq_zero_iff.mp hn) hne
  | succ n ih =>
    intro h pre hne hc
    obtain ⟨b, rest, rfl⟩ := List.exists_cons_of_ne_nil hne
    cases rest with
    | nil =>
      have hone : n = 0 := by simpa using hn.symm
      refine ⟨h, fun fuel => ?_, hc, SameButCursor.refl h, fun x _ => rfl, fun nf hnf => hnf⟩
      cases fuel with
      | zero => rfl
      | succ fuel =>
        rw [headAddr, coalesceLoop, hc.get_next, if_pos (show n + 1 ≤ fuel + 1 by omega)]
        simp [headAddr]
    | cons c rest =>
      obtain ⟨h₁, pre₁, cur₁, hlen, hpass, hc₁, hco, hjoin, hout⟩ := coalesceLoop_step hc
      have hlen₁ : cur₁.length = n := by simpa [hlen] using hn
      have hne₁ : cur₁ ≠ [] := fun hnil => by simp [hnil] at hlen
      obtain ⟨h', hrun, hc', hjoin'⟩ := ih cur₁ hlen₁ h₁ pre₁ hne₁ hc₁
      rw [hco] at hc' hjoin'
      refine ⟨h', fun fuel => ?_, hc', hjoin.ctl.trans hjoin'.ctl, fun x hx => ?_, fun nf hnf => ?_⟩
      · cases fuel with
        | zero => rfl
        | succ fuel =>
          rw [headAddr, hpass, hrun]
          exact if_congr (by omega) rfl rfl
      · rw [hjoin'.mem x (hout x hx), hjoin.mem x hx]
      · exact hjoin'.cursor nf (hjoin.cursor nf hnf)

/-- **`coalesce_all`** coalesces the chain. -/
lemma coalesceAll_spec {h : Heap} {bs : List Blk} (hc : Chained T h bs)
    (hmin : ∀ b ∈ bs, 8 ≤ b.capacity) :
    ∃ h', coalesceAll T h = some h' ∧ Chained T h' (coalesce T.headerSize bs) ∧
      SameButCursor h h' ∧ ∀ x, Outside T.headerSize bs x → h'.mem x = h.mem x := by
  have hlen := hc.length_le hmin
  obtain ⟨h', hrun, hc', hjoin⟩ := coalesceLoop_spec bs h [] hc.ne_nil hc
  refine ⟨h', ?_, hc', hjoin.ctl, hjoin.mem⟩
  rw [coalesceAll, ← hc.headAddr_eq 0, hrun, if_pos (by omega)]

/-! ### Searching -/

/-- A block that a request for `n` bytes can take. -/
def fits (n : ℕ) (b : Blk) : Bool := b.owner.isNone && n ≤ b.capacity

/-- The block the search looks at after this one. -/
def cyclicNext (T : Target) (h : Heap) (block : ℕ) : ℕ :=
  if h.get T block .next ≠ 0 then h.get T block .next else h.ctl.firstBlock

lemma cyclicNext_eq {h : Heap} {pre post : List Blk} {b : Blk}
    (hc : Chained T h (pre ++ b :: post)) :
    cyclicNext T h b.addr = headAddr h.ctl.firstBlock post := by
  rw [cyclicNext, hc.get_next]
  cases post with
  | nil => simp [headAddr]
  | cons c post =>
    have := hc.addr_pos (b := c) (by simp)
    rw [headAddr, if_pos (by omega)]
    rfl

/-- The search over the blocks `cur` still to be looked at before `start` comes round. -/
lemma searchLoop_spec {h : Heap} {bs : List Blk} (hc : Chained T h bs) (start n : ℕ) :
    ∀ (fuel : ℕ) (cur : List Blk), cur ≠ [] → cur.length ≤ fuel → (∀ b ∈ cur, b ∈ bs) →
      (∀ b ∈ cur.tail, b.addr ≠ start) →
      (∀ pre b post, cur = pre ++ b :: post →
        cyclicNext T h b.addr = headAddr start post) →
      searchLoop T h start n fuel (headAddr 0 cur) =
        some ((cur.find? (fits n)).map Block.addr) := by
  intro fuel
  induction fuel with
  | zero => intro cur hne hlen; exact absurd (List.length_eq_zero_iff.mp (by omega)) hne
  | succ fuel ih =>
    intro cur hne hlen hmem hstart hnext
    obtain ⟨b, rest, rfl⟩ := List.exists_cons_of_ne_nil hne
    have hb := hmem b (by simp)
    have hfits : (h.get T b.addr .allocated = 0 ∧ n ≤ h.get T b.addr .capacity) ↔
        fits n b = true := by
      rw [hc.get_allocated hb, hc.get_capacity hb]
      simp [fits]
    rw [headAddr, searchLoop, List.find?_cons]
    by_cases hfit : fits n b = true
    · rw [if_pos (hfits.mpr hfit), hfit]
      rfl
    · have hn : cyclicNext T h b.addr = headAddr start rest := hnext [] b rest rfl
      rw [cyclicNext] at hn
      rw [if_neg fun hf => hfit (hfits.mp hf), Bool.not_eq_true _ |>.mp hfit]
      simp only [hn]
      cases rest with
      | nil => simp [headAddr]
      | cons c rest =>
        have hcs : c.addr ≠ start := hstart c (by simp)
        rw [headAddr, if_neg hcs]
        refine ih (c :: rest) (by simp) (by simp only [List.length_cons] at hlen ⊢; omega)
          (fun d hd => hmem d (by simp [hd])) (fun d hd => hstart d ?_) fun pre d post hsplit => ?_
        · simp only [List.tail_cons] at hd ⊢
          exact List.mem_cons_of_mem _ hd
        · exact hnext (b :: pre) d post (by rw [hsplit]; rfl)

/-- The chain in the order the search visits it. -/
def rotated (pre suf : List Blk) : List Blk := suf ++ pre

/-- A block the search finds is a free block of the chain with room for the request. -/
lemma found_fits {pre suf : List Blk} {n : ℕ} {b : Blk}
    (hfind : (rotated pre suf).find? (fits n) = some b) :
    b ∈ pre ++ suf ∧ b.owner = none ∧ n ≤ b.capacity := by
  have hb := List.mem_of_find?_eq_some hfind
  have hfits := List.find?_some hfind
  simp only [fits, Bool.and_eq_true, Option.isNone_iff_eq_none, decide_eq_true_eq] at hfits
  refine ⟨?_, hfits⟩
  rw [rotated, List.mem_append] at hb
  exact List.mem_append.mpr hb.symm

/-- **The search** finds the first block that fits, in cyclic order from the cursor. -/
lemma search_spec {h : Heap} {pre suf : List Blk} {s : Blk} (hc : Chained T h (pre ++ s :: suf))
    (hmin : ∀ b ∈ pre ++ s :: suf, 8 ≤ b.capacity) (hs : s.addr = h.ctl.nextFit) (n : ℕ) :
    searchLoop T h h.ctl.nextFit n (maximumBlocks T h.ctl + 1) h.ctl.nextFit =
      some (((rotated pre (s :: suf)).find? (fits n)).map Block.addr) := by
  have hlen := hc.length_le hmin
  have key := searchLoop_spec hc h.ctl.nextFit n (maximumBlocks T h.ctl + 1)
    (rotated pre (s :: suf)) (by simp [rotated]) ?_ ?_ ?_ ?_
  · rwa [rotated, List.cons_append, headAddr, hs] at key
  · simp only [rotated, List.length_append, List.length_cons] at hlen ⊢
    omega
  · intro b hb
    simp only [rotated, List.mem_append, List.mem_cons] at hb ⊢
    tauto
  · intro b hb
    simp only [rotated, List.cons_append, List.tail_cons, List.mem_append] at hb
    have hhdr := headerSize_pos T
    rcases hb with hb | hb
    · have := hc.tiles.around.2 b hb
      unfold Block.stop at this
      omega
    · have := hc.tiles.around.1 b hb
      unfold Block.stop at this
      omega
  · -- the successor in the rotation is the successor in the chain, or the first block
    intro xs b ys hsplit
    rw [rotated] at hsplit
    have hfirst : headAddr h.ctl.nextFit pre = h.ctl.firstBlock := by
      rw [← hc.headAddr_eq 0, headAddr_append, headAddr, hs]
    rcases List.append_eq_append_iff.mp hsplit with ⟨zs, hxs, hpre⟩ | ⟨zs, hsuf, hys⟩
    · subst hxs hpre
      rw [List.append_assoc, List.cons_append] at hc
      rw [cyclicNext_eq hc]
      cases ys with
      | nil => rw [List.nil_append, headAddr, headAddr, hs]
      | cons c ys => rfl
    · cases zs with
      | nil =>
        rw [List.nil_append] at hys
        subst hys
        rw [List.cons_append] at hc
        rw [@cyclicNext_eq _ _ [] _ _ hc]
        cases ys with
        | nil => rw [List.nil_append, headAddr, headAddr, hs]
        | cons c ys => rfl
      | cons d zs =>
        rw [List.cons_append, List.cons.injEq] at hys
        obtain ⟨rfl, rfl⟩ := hys
        rw [hsuf, ← List.append_assoc] at hc
        rw [cyclicNext_eq hc]
        cases zs with
        | cons c zs => rfl
        | nil =>
          rw [List.nil_append, hfirst]
          rfl

/-! ### Walking to a payload -/

lemma payloadAddress_eq {h : Heap} {bs : List Blk} (hc : Chained T h bs) {b : Blk} (hb : b ∈ bs) :
    payloadAddress T b.addr = b.payload T.headerSize := by
  have := hc.stop_lt hb
  rw [payloadAddress, Target.wadd, Nat.mod_eq_of_lt (by omega)]
  rfl

/-- The walk from any block on finds the block whose payload starts at `p`. -/
lemma findPayloadLoop_spec {h : Heap} (p : ℕ) :
    ∀ (cur pre : List Blk) (fuel : ℕ), cur.length ≤ fuel → Chained T h (pre ++ cur) →
      findPayloadLoop T h p fuel (headAddr 0 cur) =
        some (((cur.find? fun b => b.payload T.headerSize == p).map Block.addr).getD 0) := by
  intro cur
  induction cur with
  | nil => intro pre fuel _ _; cases fuel <;> simp [findPayloadLoop, headAddr]
  | cons b rest ih =>
    intro pre fuel hlen hc
    obtain ⟨f, rfl⟩ : ∃ f, fuel = f + 1 :=
      ⟨fuel - 1, by simp only [List.length_cons] at hlen; omega⟩
    have hb : b ∈ pre ++ b :: rest := by simp
    have hpos := hc.addr_pos hb
    have hrec := ih (pre ++ [b]) f (by simp only [List.length_cons] at hlen; omega)
      (by rwa [List.append_assoc])
    rw [headAddr, findPayloadLoop, if_neg (by omega), payloadAddress_eq hc hb, hc.get_next, hrec,
      List.find?_cons]
    by_cases hp : b.payload T.headerSize = p
    · simp [hp]
    · rw [if_neg hp, beq_false_of_ne hp]

/-- **`find_payload_block`** finds the block with that payload, if there is one. -/
lemma findPayloadBlock_spec {h : Heap} {bs : List Blk} (hc : Chained T h bs)
    (hmin : ∀ b ∈ bs, 8 ≤ b.capacity) (p : ℕ) :
    findPayloadBlock T h p =
      some (((bs.find? fun b => b.payload T.headerSize == p).map Block.addr).getD 0) := by
  have hroom := hc.geometry.room
  have hfits := hc.geometry.fits
  have hlow : T.wadd h.ctl.heapBegin T.headerSize = h.ctl.heapBegin + T.headerSize :=
    Nat.mod_eq_of_lt (by omega)
  unfold findPayloadBlock
  rw [hlow]
  split
  · next hguard =>
    -- no payload starts at an address the guard refuses
    have hnone : (bs.find? fun b => b.payload T.headerSize == p) = none := by
      rw [List.find?_eq_none]
      intro b hb heq
      rw [beq_iff_eq, Block.payload] at heq
      have h1 := hc.tiles.bounds hb
      have h2 := hmin b hb
      have h3 := hc.addr_mod b hb
      have h4 := headerSize_mod T
      unfold Block.stop at h1
      unfold memoryAlignment at hguard
      omega
    rw [hnone]
    rfl
  · have hrun := findPayloadLoop_spec p bs [] (maximumBlocks T h.ctl) (hc.length_le hmin) hc
    rwa [hc.headAddr_eq] at hrun

/-! ### Sweeping an owner -/

/-- A block after its owner has given up all it has. -/
def surrender (owner : ℕ) (b : Blk) : Blk := if b.owner = some owner then release b else b

/-- The number of blocks the sweep frees. -/
def heldBy (owner : ℕ) (bs : List Blk) : ℕ := bs.countP fun b => b.owner == some owner

lemma surrender_addr (owner : ℕ) (b : Blk) : (surrender owner b).addr = b.addr := by
  unfold surrender; split <;> rfl

lemma surrender_capacity (owner : ℕ) (b : Blk) : (surrender owner b).capacity = b.capacity := by
  unfold surrender; split <;> rfl

lemma surrender_of_not_held {owner : ℕ} {bs : List Blk} (h : heldBy owner bs = 0) :
    bs.map (surrender owner) = bs := by
  rw [heldBy, List.countP_eq_zero] at h
  conv_rhs => rw [← List.map_id bs]
  refine List.map_congr_left fun b hb => ?_
  have := h b hb
  rw [beq_iff_eq] at this
  exact if_neg this

/-- The test of the sweep. -/
lemma held_iff {h : Heap} {bs : List Blk} (hc : Chained T h bs) {b : Blk} (hb : b ∈ bs)
    (owner : ℕ) : (h.get T b.addr .allocated ≠ 0 ∧ h.get T b.addr .owner = owner) ↔
      b.owner = some owner := by
  rw [ne_eq, hc.get_allocated hb, hc.get_owner hb]
  cases ho : b.owner with
  | none => simp
  | some o => simp

/-- A total that counts a block can give it back without borrowing. -/
lemma wsub_capacity {h : Heap} {bs : List Blk} (hc : Chained T h bs) {b : Blk} (hb : b ∈ bs)
    {total : ℕ} (hsum : b.capacity ≤ total) (hlt : total < T.modulus) :
    T.wsub total (h.get T b.addr .capacity) = total - b.capacity := by
  have hwrap : total + T.modulus - b.capacity = total - b.capacity + T.modulus := by omega
  rw [hc.get_capacity hb, Target.wsub, hwrap, Nat.add_mod_right]
  exact Nat.mod_eq_of_lt (by omega)

/-- **A pass of the sweep** at a block of the owner: the block becomes free and is counted. -/
lemma releaseLoop_held {h : Heap} {pre rest : List Blk} {b : Blk} {owner released : ℕ}
    (hc : Chained T h (pre ++ b :: rest)) (hown : b.owner = some owner)
    (hcount : released + 1 < T.modulus) (hsum : b.capacity ≤ h.ctl.allocatedBytes)
    (hlt : h.ctl.allocatedBytes < T.modulus) :
    ∃ h₁, (∀ fuel, releaseLoop T owner (fuel + 1) h b.addr released =
        releaseLoop T owner fuel h₁ (headAddr 0 rest) (released + 1)) ∧
      Chained T h₁ (pre ++ release b :: rest) ∧
      h₁.ctl = { h.ctl with
        allocatedBytes := h.ctl.allocatedBytes - b.capacity
        successfulFrees := incrementSaturating h.ctl.successfulFrees } ∧
      ∀ x, Outside T.headerSize (pre ++ b :: rest) x → h₁.mem x = h.mem x := by
  have hb : b ∈ pre ++ b :: rest := by simp
  have hpos := hc.addr_pos hb
  have hsub := wsub_capacity hc hb hsum hlt
  have hadd : T.wadd released 1 = released + 1 := Nat.mod_eq_of_lt hcount
  -- the heap after the three writes and the two counters
  obtain ⟨h₁, hh₁⟩ : ∃ h₁ : Heap, h₁ = { setFree T h b.addr with ctl := { h.ctl with
    allocatedBytes := h.ctl.allocatedBytes - b.capacity
    successfulFrees := incrementSaturating h.ctl.successfulFrees } } := ⟨_, rfl⟩
  have hstep := chained_setFree hc
  have hc₁ : Chained T h₁ (pre ++ release b :: rest) := by
    rw [hh₁]
    exact chained_of_ctl hstep rfl hstep.cursor
  have hnext : h₁.get T b.addr .next = headAddr 0 rest := hc₁.get_next (b := release b)
  refine ⟨h₁, fun fuel => ?_, hc₁, by rw [hh₁], fun x hx => ?_⟩
  · rw [releaseLoop, if_neg (by omega), if_pos ((held_iff hc hb owner).mpr hown), ← hnext, hsub,
      hadd, hh₁]
    rfl
  · rw [hh₁]
    exact setFree_mem_apply (hx b hb)

/-- A pass at a block of another owner. -/
lemma releaseLoop_skip {h : Heap} {pre rest : List Blk} {b : Blk} {owner released fuel : ℕ}
    (hc : Chained T h (pre ++ b :: rest)) (hown : b.owner ≠ some owner) :
    releaseLoop T owner (fuel + 1) h b.addr released =
      releaseLoop T owner fuel h (headAddr 0 rest) released := by
  have hb : b ∈ pre ++ b :: rest := by simp
  have hpos := hc.addr_pos hb
  rw [releaseLoop, if_neg (by omega), if_neg fun hf => hown ((held_iff hc hb owner).mp hf),
    hc.get_next]

/-- **The owner sweep** from any block on: the owner's blocks become free, each is counted,
and the total drops by what they held. -/
lemma releaseLoop_spec (owner : ℕ) :
    ∀ (cur : List Blk) (h : Heap) (pre : List Blk) (fuel released : ℕ), cur.length ≤ fuel →
      released + cur.length < T.modulus → Chained T h (pre ++ cur) →
      ownedBytes cur ≤ h.ctl.allocatedBytes → h.ctl.allocatedBytes < T.modulus →
      ∃ h', releaseLoop T owner fuel h (headAddr 0 cur) released =
          some (h', released + heldBy owner cur) ∧
        Chained T h' (pre ++ cur.map (surrender owner)) ∧
        h'.ctl = { h.ctl with
          allocatedBytes := h.ctl.allocatedBytes + ownedBytes (cur.map (surrender owner)) -
            ownedBytes cur
          successfulFrees := incrementSaturating^[heldBy owner cur] h.ctl.successfulFrees } ∧
        (∀ x, Outside T.headerSize (pre ++ cur) x → h'.mem x = h.mem x) ∧
        (heldBy owner cur = 0 → h' = h) := by
  intro cur
  induction cur with
  | nil =>
    intro h pre fuel released _ _ hc _ _
    refine ⟨h, ?_, hc, ?_, fun x _ => rfl, fun _ => rfl⟩
    · cases fuel <;> simp [releaseLoop, headAddr, heldBy]
    · simp [heldBy, ownedBytes]
  | cons b rest ih =>
    intro h pre fuel released hlen hcount hc hsum hlt
    obtain ⟨f, rfl⟩ : ∃ f, fuel = f + 1 :=
      ⟨fuel - 1, by simp only [List.length_cons] at hlen; omega⟩
    simp only [List.length_cons] at hlen hcount
    have hassoc : ∀ (c : Blk) (l : List Blk), pre ++ c :: l = (pre ++ [c]) ++ l := by simp
    rw [ownedBytes_cons] at hsum
    by_cases hown : b.owner = some owner
    · have hsur : surrender owner b = release b := if_pos hown
      have hheld : heldBy owner (b :: rest) = heldBy owner rest + 1 := by
        simp [heldBy, hown]
      rw [hown, Option.isSome_some, if_pos rfl] at hsum
      obtain ⟨h₁, hpass, hc₁, hctl₁, hmem₁⟩ :=
        @releaseLoop_held T h pre rest b owner released hc hown (by omega) (by omega) hlt
      have hsum₁ : h₁.ctl.allocatedBytes = h.ctl.allocatedBytes - b.capacity := by rw [hctl₁]
      rw [hassoc] at hc₁
      obtain ⟨h', hrun, hc', hctl, hmem, -⟩ := ih h₁ (pre ++ [release b]) f (released + 1)
        (by omega) (by omega) hc₁ (by omega) (by omega)
      refine ⟨h', ?_, ?_, ?_, fun x hx => ?_, fun h0 => by omega⟩
      · rw [headAddr, hpass, hrun, hheld, Nat.add_right_comm, Nat.add_assoc]
      · rw [List.map_cons, hsur, hassoc]
        exact hc'
      · have hzero : ownedBytes (release b :: rest.map (surrender owner)) =
            ownedBytes (rest.map (surrender owner)) := by
          simp [ownedBytes_cons, release]
        rw [hctl, hctl₁, hheld, List.map_cons, hsur, hzero, ownedBytes_cons, hown]
        simp only [Function.iterate_succ, Function.comp_apply, Option.isSome_some, if_true]
        congr 1
        omega
      · rw [hmem x ?_, hmem₁ x hx]
        rw [← hassoc]
        exact forall_mem_replace [b] [release b] hx (List.forall_mem_singleton.mpr (hx b (by simp)))
    · have hsur : surrender owner b = b := if_neg hown
      have hheld : heldBy owner (b :: rest) = heldBy owner rest := by
        simp [heldBy, hown]
      have hpass := @releaseLoop_skip T h pre rest b owner released f hc hown
      rw [hassoc] at hc
      obtain ⟨h', hrun, hc', hctl, hmem, hsame⟩ := ih h (pre ++ [b]) f released (by omega)
        (by omega) hc (by omega) hlt
      refine ⟨h', by rw [headAddr, hpass, hheld, hrun], ?_, ?_, fun x hx => hmem x (by rwa [← hassoc]),
        by rwa [hheld]⟩
      · rw [List.map_cons, hsur, hassoc]
        exact hc'
      · rw [hctl, hheld, List.map_cons, hsur, ownedBytes_cons, ownedBytes_cons]
        simp only [OsAllocator.mk.injEq, true_and, and_true]
        omega

end Aymos.HeapOps
