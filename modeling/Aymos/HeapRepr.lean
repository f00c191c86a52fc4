import Aymos.Allocator
import Aymos.Tiling
import Mathlib.Data.Nat.Bitwise
import Mathlib.Tactic.IntervalCases

/-!
How the bytes of an arena represent a list of blocks.

`Linked` says that the headers found in memory, each reached from the one before through its
`next` field, are those of the given blocks. Every write the allocator makes is to one header
field, so what a write does to `Linked` comes down to two facts: a field reads back what was
written to it, and a write to one header does not touch a header that lies apart from it.
-/

namespace Aymos.HeapRepr

open Aymos.ByteMem Aymos.Allocator Aymos.Tiling Aymos.Words

/-- Blocks of the arena are owned by 16-bit tags. -/
abbrev Blk := Block ℕ

variable (T : Target)

/-! ### Header fields -/

lemma headerSize_pos : 0 < T.headerSize := by cases T <;> decide
lemma headerSize_mod : T.headerSize % 8 = 0 := by cases T <;> decide

lemma field_fits (f : Field) : f.offset T + f.size T ≤ T.headerSize := by
  cases T <;> cases f <;> decide

lemma fields_apart {f g : Field} (h : f ≠ g) :
    f.offset T + f.size T ≤ g.offset T ∨ g.offset T + g.size T ≤ f.offset T := by
  cases T <;> revert h <;> cases f <;> cases g <;> decide

variable {T}

lemma getField_setField (m : Mem) (b : ℕ) (f g : Field) (v : ℕ) :
    getField T (setField T m b f v) b g =
      if g = f then v % 256 ^ f.size T else getField T m b g := by
  by_cases h : g = f
  · subst h
    rw [if_pos rfl, getField, setField, load_store_self]
  · rw [if_neg h]
    have := fields_apart T h
    exact load_store_of_disjoint (by omega)

/-- A write to one header leaves the headers apart from it alone. -/
lemma getField_setField_of_apart {m : Mem} {b c : ℕ} {f g : Field} {v : ℕ}
    (h : b + T.headerSize ≤ c ∨ c + T.headerSize ≤ b) :
    getField T (setField T m b f v) c g = getField T m c g := by
  have := field_fits T f
  have := field_fits T g
  exact load_store_of_disjoint (by omega)

/-- A write to a header leaves the bytes outside it alone. -/
lemma setField_apply {m : Mem} {b x : ℕ} {f : Field} {v : ℕ}
    (h : x < b ∨ b + T.headerSize ≤ x) : setField T m b f v x = m x := by
  have := field_fits T f
  exact store_apply_of_notMem (by omega)

lemma reservedBytesClear_iff {m : Mem} {b : ℕ} :
    reservedBytesClear T m b = true ↔ getField T m b .reserved = 0 := by
  rw [reservedBytesClear, getField, load_eq_zero_iff, List.all_eq_true]
  simp only [List.mem_range, beq_iff_eq, Field.size]
  constructor
  · intro h x hx hx'
    have := h (x - (b + Field.offset T .reserved)) (by omega)
    rwa [show b + Field.offset T .reserved + (x - (b + Field.offset T .reserved)) = x by omega]
      at this
  · exact fun h i hi => h _ (by omega) (by omega)

/-! ### Headers of a list of blocks -/

/-- What the header of a block between `prev` and `next` holds. -/
def headerField (cookie : ℕ) (b : Blk) (prev next : ℕ) : Field → ℕ
  | .marker => cookie ^^^ b.addr ^^^ memoryBlockMarker
  | .capacity => b.capacity
  | .next => next
  | .previous => prev
  | .owner => b.owner.getD memoryOwnerNone
  | .allocated => if b.owner.isSome then 1 else 0
  | .reserved => 0

variable (T)

def HeaderIs (cookie : ℕ) (m : Mem) (b : Blk) (prev next : ℕ) : Prop :=
  ∀ f, getField T m b.addr f = headerField cookie b prev next f

/-- The address of the first block, or `tail` when there is none. -/
def headAddr (tail : ℕ) : List Blk → ℕ
  | [] => tail
  | b :: _ => b.addr

/-- The address of the last block, or `prev` when there is none. -/
def lastAddr (prev : ℕ) : List Blk → ℕ
  | [] => prev
  | b :: bs => lastAddr b.addr bs

/-- The headers of `bs` are in memory, linked both ways; `prev` comes before the first and
`tail` after the last. -/
def Linked (cookie : ℕ) (m : Mem) : ℕ → List Blk → ℕ → Prop
  | _, [], _ => True
  | prev, b :: bs, tail =>
    HeaderIs T cookie m b prev (headAddr tail bs) ∧ Linked cookie m b.addr bs tail

variable {T}

lemma headAddr_append (tail : ℕ) (xs ys : List Blk) :
    headAddr tail (xs ++ ys) = headAddr (headAddr tail ys) xs := by
  cases xs <;> rfl

lemma lastAddr_append (prev : ℕ) (xs ys : List Blk) :
    lastAddr prev (xs ++ ys) = lastAddr (lastAddr prev xs) ys := by
  induction xs generalizing prev with
  | nil => rfl
  | cons b xs ih => exact ih b.addr

lemma linked_append {cookie : ℕ} {m : Mem} {prev tail : ℕ} {xs ys : List Blk} :
    Linked T cookie m prev (xs ++ ys) tail ↔
      Linked T cookie m prev xs (headAddr tail ys) ∧ Linked T cookie m (lastAddr prev xs) ys tail := by
  induction xs generalizing prev with
  | nil => simp [Linked, lastAddr]
  | cons b xs ih => simp [Linked, lastAddr, ih, headAddr_append, and_assoc]

/-- The links of a chain depend on its headers only. -/
lemma Linked.congr {cookie : ℕ} {m m' : Mem} {prev tail : ℕ} {bs : List Blk}
    (h : Linked T cookie m prev bs tail)
    (hm : ∀ b ∈ bs, ∀ f, getField T m' b.addr f = getField T m b.addr f) :
    Linked T cookie m' prev bs tail := by
  induction bs generalizing prev with
  | nil => trivial
  | cons b bs ih =>
    refine ⟨fun f => ?_, ih h.2 fun c hc => hm c (by simp [hc])⟩
    rw [hm b (by simp), h.1 f]

/-- `x` is no byte of a header. -/
def Outside (hdr : ℕ) (bs : List Blk) (x : ℕ) : Prop :=
  ∀ b ∈ bs, x < b.addr ∨ b.addr + hdr ≤ x

/-- The payload bytes of a block are outside every header of its tiling. -/
lemma outside_of_payload {hdr a z : ℕ} {bs : List Blk} (h : Tiles hdr a bs z) {b : Blk}
    (hb : b ∈ bs) {x : ℕ} (hx : b.payload hdr ≤ x) (hx' : x < b.stop hdr) :
    Outside hdr bs x := by
  intro c hc
  unfold Block.payload at hx
  rcases h.apart hb hc with rfl | hlt | hlt
  · exact Or.inr hx
  · exact Or.inl (by omega)
  · unfold Block.stop at hlt; exact Or.inr (by omega)

/-! ### Representation -/

/-- The geometry `os_allocator_init` settles and no later call changes. -/
structure Geometry (T : Target) (a : OsAllocator) : Prop where
  initialized : a.initialized = true
  pos : 0 < a.heapBegin
  beginAligned : a.heapBegin % 8 = 0
  endAligned : a.heapEnd % 8 = 0
  room : a.heapBegin + T.headerSize + 8 ≤ a.heapEnd
  fits : a.heapEnd < T.modulus
  first : a.firstBlock = a.heapBegin
  cookie : a.cookie < T.modulus

/-- **The arena holds the chain `bs`**: its blocks tile the heap, their headers are in memory
and linked, and the cursor is at one of them. -/
structure Chained (T : Target) (h : Heap) (bs : List Blk) : Prop where
  geometry : Geometry T h.ctl
  tiles : Tiles T.headerSize h.ctl.heapBegin bs h.ctl.heapEnd
  linked : Linked T h.ctl.cookie h.mem 0 bs 0
  aligned : ∀ b ∈ bs, b.capacity % 8 = 0
  owners : ∀ b ∈ bs, ∀ o ∈ b.owner, o < memoryOwnerNone
  cursor : ∃ b ∈ bs, b.addr = h.ctl.nextFit

lemma Chained.addr_pos {h : Heap} {bs : List Blk} (hc : Chained T h bs) {b : Blk} (hb : b ∈ bs) :
    0 < b.addr :=
  lt_of_lt_of_le hc.geometry.pos (hc.tiles.bounds hb).1

lemma Chained.stop_lt {h : Heap} {bs : List Blk} (hc : Chained T h bs) {b : Blk} (hb : b ∈ bs) :
    b.addr + T.headerSize + b.capacity < T.modulus :=
  lt_of_le_of_lt (hc.tiles.bounds hb).2 hc.geometry.fits

lemma tiles_addr_mod {a z : ℕ} {bs : List Blk} (h : Tiles T.headerSize a bs z)
    (ha : a % 8 = 0) (hcap : ∀ b ∈ bs, b.capacity % 8 = 0) : ∀ b ∈ bs, b.addr % 8 = 0 := by
  have hhdr := headerSize_mod T
  induction bs generalizing a with
  | nil => simp
  | cons c bs ih =>
    obtain ⟨rfl, h⟩ := h
    have hc := hcap c (by simp)
    intro b hb
    rcases List.mem_cons.mp hb with rfl | hb
    · exact ha
    · refine ih h ?_ (fun d hd => hcap d (by simp [hd])) b hb
      unfold Block.stop
      omega

lemma Chained.addr_mod {h : Heap} {bs : List Blk} (hc : Chained T h bs) :
    ∀ b ∈ bs, b.addr % 8 = 0 :=
  tiles_addr_mod hc.tiles hc.geometry.beginAligned hc.aligned

lemma Chained.ne_nil {h : Heap} {bs : List Blk} (hc : Chained T h bs) : bs ≠ [] := by
  rintro rfl
  obtain ⟨b, hb, -⟩ := hc.cursor
  simp at hb

lemma Chained.headAddr_eq {h : Heap} {bs : List Blk} (hc : Chained T h bs) (t : ℕ) :
    headAddr t bs = h.ctl.firstBlock := by
  cases bs with
  | nil => exact absurd rfl hc.ne_nil
  | cons b bs => rw [headAddr, hc.tiles.1, hc.geometry.first]

/-- The header of a block in the middle of a chain. -/
lemma Chained.header {h : Heap} {pre post : List Blk} {b : Blk}
    (hc : Chained T h (pre ++ b :: post)) :
    HeaderIs T h.ctl.cookie h.mem b (lastAddr 0 pre) (headAddr 0 post) :=
  (linked_append.mp hc.linked).2.1

lemma Chained.get_capacity {h : Heap} {bs : List Blk} (hc : Chained T h bs) {b : Blk}
    (hb : b ∈ bs) : h.get T b.addr .capacity = b.capacity := by
  obtain ⟨pre, post, rfl⟩ := List.append_of_mem hb
  exact hc.header .capacity

lemma Chained.get_allocated {h : Heap} {bs : List Blk} (hc : Chained T h bs) {b : Blk}
    (hb : b ∈ bs) : h.get T b.addr .allocated = 0 ↔ b.owner = none := by
  obtain ⟨pre, post, rfl⟩ := List.append_of_mem hb
  have := hc.header .allocated
  rw [Heap.get, this, headerField]
  cases b.owner <;> simp

lemma Chained.get_owner {h : Heap} {bs : List Blk} (hc : Chained T h bs) {b : Blk}
    (hb : b ∈ bs) : h.get T b.addr .owner = b.owner.getD memoryOwnerNone := by
  obtain ⟨pre, post, rfl⟩ := List.append_of_mem hb
  exact hc.header .owner

lemma Chained.get_next {h : Heap} {pre post : List Blk} {b : Blk}
    (hc : Chained T h (pre ++ b :: post)) : h.get T b.addr .next = headAddr 0 post :=
  hc.header .next

/-- **The allocator's invariant** on the chain `bs`. -/
structure HeapInv (T : Target) (h : Heap) (bs : List Blk) : Prop extends Chained T h bs where
  minimum : ∀ b ∈ bs, 8 ≤ b.capacity
  separated : Separated bs
  allocated : h.ctl.allocatedBytes = ownedBytes bs
  watermark : h.ctl.allocatedBytes ≤ h.ctl.highWatermarkBytes

/-- Blocks of minimum capacity bound the length of the chain. -/
lemma Chained.length_le {h : Heap} {bs : List Blk} (hc : Chained T h bs)
    (hmin : ∀ b ∈ bs, 8 ≤ b.capacity) : bs.length ≤ maximumBlocks T h.ctl := by
  have key : ∀ (xs : List Blk) (a z : ℕ), Tiles T.headerSize a xs z → (∀ b ∈ xs, 8 ≤ b.capacity) →
      xs.length * (T.headerSize + 8) + a ≤ z := by
    intro xs
    induction xs with
    | nil => intro a z h _; simpa using h.le
    | cons b xs ih =>
      intro a z h hmin
      obtain ⟨rfl, h⟩ := h
      have h1 := ih _ _ h fun c hc => hmin c (by simp [hc])
      have h2 := hmin b (by simp)
      rw [List.length_cons, Nat.succ_mul]
      unfold Block.stop at h1
      omega
  have := key bs _ _ hc.tiles hmin
  rw [maximumBlocks, memoryAlignment, Nat.le_div_iff_mul_le (by omega)]
  omega

/-! ### The validator accepts a chain -/

lemma addressCanHoldBlock_of {a : OsAllocator} {x : ℕ} (h1 : a.heapBegin ≤ x) (h2 : x % 8 = 0)
    (h3 : x + T.headerSize ≤ a.heapEnd) : addressCanHoldBlock T a x = true := by
  have h4 : x ≤ a.heapEnd := by omega
  have h5 : T.headerSize ≤ a.heapEnd - x := by omega
  simp [addressCanHoldBlock, memoryAlignment, h1, h2, h4, h5]

lemma Chained.canHold {h : Heap} {bs : List Blk} (hc : Chained T h bs) {b : Blk} (hb : b ∈ bs) :
    addressCanHoldBlock T h.ctl b.addr = true := by
  have hbd := hc.tiles.bounds hb
  unfold Block.stop at hbd
  exact addressCanHoldBlock_of hbd.1 (hc.addr_mod b hb) (by omega)

lemma Chained.headerOk {h : Heap} {pre post : List Blk} {b : Blk}
    (hc : Chained T h (pre ++ b :: post)) :
    headerOk T h b.addr (lastAddr 0 pre) = true := by
  have hb : b ∈ pre ++ b :: post := by simp
  have hh := hc.header
  have hbd := (hc.tiles.bounds hb).2
  have hres : reservedBytesClear T h.mem b.addr = true := reservedBytesClear_iff.mpr (hh .reserved)
  have hcap := hc.aligned b hb
  have hown := hc.owners b hb
  unfold Block.stop at hbd
  simp only [Allocator.headerOk, hc.canHold hb, hres, Heap.get, hh .marker, hh .previous,
    hh .allocated, hh .capacity, hh .owner, headerField, blockMarker, memoryAlignment, hcap,
    beq_self_eq_true, Bool.true_and, Bool.and_true]
  rcases ho : b.owner with _ | o
  · simp; omega
  · have := hown o (by simp [ho])
    have hne : o ≠ memoryOwnerNone := by omega
    simp [hne]; omega

lemma Chained.nextOk {h : Heap} {pre post : List Blk} {b : Blk}
    (hc : Chained T h (pre ++ b :: post)) : nextOk T h b.addr = true := by
  have hb : b ∈ pre ++ b :: post := by simp
  have hcap := hc.get_capacity hb
  have hnext := hc.get_next
  have htl : Tiles T.headerSize (b.stop T.headerSize) post h.ctl.heapEnd :=
    (tiles_append.mp hc.tiles).2.2
  have hstop : b.addr + T.headerSize + b.capacity = b.stop T.headerSize := rfl
  cases post with
  | nil =>
    have hend : b.stop T.headerSize = h.ctl.heapEnd := htl
    simp [Allocator.nextOk, hcap, hnext, hstop, hend, headAddr]
  | cons c post =>
    have hcaddr : c.addr = b.stop T.headerSize := htl.1
    have hcm : c ∈ pre ++ b :: c :: post := by simp
    have hcb := (hc.tiles.bounds hcm).2
    have hhdr := headerSize_pos T
    have hne : b.stop T.headerSize ≠ h.ctl.heapEnd := by
      unfold Block.stop at hcb hcaddr ⊢
      omega
    have hhold := hc.canHold hcm
    rw [hcaddr] at hhold
    simp [Allocator.nextOk, hcap, hnext, hstop, hne, hhold, headAddr, hcaddr]

/-- The loop of the validator, started at any block of a chain. -/
lemma Chained.loop_eq {h : Heap} {bs : List Blk} (hc : Chained T h bs) :
    ∀ (rest pre : List Blk) (remaining : ℕ) (found : Bool) (computed : ℕ), bs = pre ++ rest →
      rest.length ≤ remaining → computed + ownedBytes rest ≤ T.sizeMax →
      blockChainLoop T h remaining (headAddr 0 rest) (lastAddr 0 pre) found computed =
        ((found || rest.any fun b => b.addr == h.ctl.nextFit) &&
          computed + ownedBytes rest == h.ctl.allocatedBytes &&
          decide (h.ctl.allocatedBytes ≤ h.ctl.highWatermarkBytes)) := by
  intro rest
  induction rest with
  | nil =>
    intro pre remaining found computed _ _ _
    cases remaining <;> simp [blockChainLoop, headAddr, ownedBytes]
  | cons b rest ih =>
    intro pre remaining found computed hbs hlen hsum
    subst hbs
    have hb : b ∈ pre ++ b :: rest := by simp
    obtain ⟨r, rfl⟩ : ∃ r, remaining = r + 1 :=
      ⟨remaining - 1, by simp only [List.length_cons] at hlen; omega⟩
    have hpos := hc.addr_pos hb
    have hih := ih (pre ++ [b]) r (found || b.addr == h.ctl.nextFit)
      (computed + if b.owner.isSome then b.capacity else 0) (by simp)
      (by simp only [List.length_cons] at hlen; omega)
      (by rw [ownedBytes_cons] at hsum; omega)
    rw [lastAddr_append] at hih
    have hcap := hc.get_capacity hb
    have halloc : (h.get T b.addr .allocated ≠ 0) = (b.owner.isSome = true) := by
      rw [ne_eq, hc.get_allocated hb]
      cases b.owner <;> simp
    have hfit : ¬(b.owner.isSome = true ∧ computed > T.sizeMax - b.capacity) := by
      rintro ⟨ho, hgt⟩
      rw [ownedBytes_cons, if_pos ho] at hsum
      omega
    rw [headAddr, blockChainLoop, if_neg (by omega), hc.headerOk, hc.nextOk, hc.get_next]
    simp only [Bool.not_true, Bool.or_self, Bool.false_eq_true, if_false, halloc, hcap]
    rw [if_neg hfit, show lastAddr (lastAddr 0 pre) [b] = b.addr from rfl] at *
    rw [hih, ownedBytes_cons, List.any_cons, Bool.or_assoc, Nat.add_assoc]

/-- **A chain is valid** when the totals agree with it. -/
theorem Chained.valid {h : Heap} {bs : List Blk} (hc : Chained T h bs)
    (hmin : ∀ b ∈ bs, 8 ≤ b.capacity) (halloc : h.ctl.allocatedBytes = ownedBytes bs)
    (hwater : h.ctl.allocatedBytes ≤ h.ctl.highWatermarkBytes) : blockChainValid T h = true := by
  have hg := hc.geometry
  obtain ⟨c, hcm, hcur⟩ := hc.cursor
  have hcpos := hc.addr_pos hcm
  have hhold := hc.canHold hcm
  have hroom := hg.room
  have hown := hc.tiles.ownedBytes_le
  have hfits := hg.fits
  have hloop := hc.loop_eq bs [] (maximumBlocks T h.ctl) false 0 rfl (hc.length_le hmin)
    (by unfold Target.sizeMax; omega)
  rw [hc.headAddr_eq] at hloop
  have hany : (bs.any fun b => b.addr == h.ctl.nextFit) = true :=
    List.any_eq_true.mpr ⟨c, hcm, by simpa using hcur⟩
  have h1 : h.ctl.heapBegin ≠ 0 := by have := hg.pos; omega
  have h2 : h.ctl.heapEnd ≠ 0 := by omega
  have h3 : h.ctl.nextFit ≠ 0 := by omega
  have h4 : ¬h.ctl.heapEnd ≤ h.ctl.heapBegin := by omega
  rw [hcur] at hhold
  rw [hg.first, lastAddr, hany, ← halloc] at hloop
  simp only [blockChainValid, hg.initialized, memoryAlignment, hg.beginAligned, hg.endAligned,
    hhold, h4]
  simp only [Bool.not_true, beq_iff_eq, Bool.or_eq_true, Bool.false_eq_true, h1, h2, h3,
    or_self, if_false, hg.first, ne_eq, not_true_eq_false]
  rw [hloop]
  simp [hwater]

theorem HeapInv.valid {h : Heap} {bs : List Blk} (hi : HeapInv T h bs) :
    blockChainValid T h = true :=
  hi.toChained.valid hi.minimum hi.allocated hi.watermark

end Aymos.HeapRepr
