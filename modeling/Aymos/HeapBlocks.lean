import Aymos.HeapRepr

/-!
What the allocator's writes do to the chain: freeing, splitting, claiming and joining blocks.

Each lemma takes an arena that holds a chain and says which chain it holds afterwards, what
became of the allocator object, and that no byte outside the headers moved.
-/

namespace Aymos.HeapBlocks

open Aymos.ByteMem Aymos.Allocator Aymos.Tiling Aymos.Words Aymos.HeapRepr

variable {T : Target} {h : Heap}

/-! ### Single writes -/

lemma word_mod {f : Field} {v : ℕ} (hf : f.size T = T.wordBytes) (hv : v < T.modulus) :
    v % 256 ^ f.size T = v := by
  rw [hf]
  exact Nat.mod_eq_of_lt hv

/-- The marker of a header fits a word. -/
lemma marker_lt {a : OsAllocator} {b : ℕ} (ha : a.cookie < T.modulus) (hb : b < T.modulus) :
    blockMarker a b < T.modulus := by
  have hpow : T.modulus = 2 ^ (8 * T.wordBytes) := by cases T <;> decide
  have hmark : memoryBlockMarker < T.modulus := by cases T <;> decide
  unfold blockMarker
  rw [hpow] at ha hb hmark ⊢
  exact Nat.xor_lt_two_pow (Nat.xor_lt_two_pow ha hb) hmark

@[simp] lemma set_ctl (b : ℕ) (f : Field) (v : ℕ) : (h.set T b f v).ctl = h.ctl := rfl

lemma get_set (b : ℕ) (f g : Field) (v : ℕ) :
    (h.set T b f v).get T b g = if g = f then v % 256 ^ f.size T else h.get T b g :=
  getField_setField h.mem b f g v

lemma get_set_apart {b c : ℕ} {f g : Field} {v : ℕ}
    (hbc : b + T.headerSize ≤ c ∨ c + T.headerSize ≤ b) :
    (h.set T b f v).get T c g = h.get T c g :=
  getField_setField_of_apart hbc

lemma set_mem_apply {b x : ℕ} {f : Field} {v : ℕ} (hx : x < b ∨ b + T.headerSize ≤ x) :
    (h.set T b f v).mem x = h.mem x :=
  setField_apply hx

@[simp] lemma setFree_ctl (b : ℕ) : (setFree T h b).ctl = h.ctl := rfl

lemma get_setFree (b : ℕ) (g : Field) :
    (setFree T h b).get T b g =
      match g with
      | .owner => memoryOwnerNone
      | .allocated => 0
      | .reserved => 0
      | g => h.get T b g := by
  cases g <;> simp only [setFree, get_set] <;> simp [Field.size, memoryOwnerNone, uint16Max]

lemma get_setFree_apart {b c : ℕ} {g : Field}
    (hbc : b + T.headerSize ≤ c ∨ c + T.headerSize ≤ b) :
    (setFree T h b).get T c g = h.get T c g := by
  rw [setFree, get_set_apart hbc, get_set_apart hbc, get_set_apart hbc]

lemma setFree_mem_apply {b x : ℕ} (hx : x < b ∨ b + T.headerSize ≤ x) :
    (setFree T h b).mem x = h.mem x := by
  rw [setFree, set_mem_apply hx, set_mem_apply hx, set_mem_apply hx]

@[simp] lemma relink_ctl (n p : ℕ) : (relink T h n p).ctl = h.ctl := by
  unfold relink; split <;> rfl

lemma get_relink_apart {n p c : ℕ} {g : Field}
    (hnc : n = 0 ∨ n + T.headerSize ≤ c ∨ c + T.headerSize ≤ n) :
    (relink T h n p).get T c g = h.get T c g := by
  unfold relink
  split
  · exact get_set_apart (by omega)
  · rfl

lemma relink_mem_apply {n p x : ℕ} (hx : n = 0 ∨ x < n ∨ n + T.headerSize ≤ x) :
    (relink T h n p).mem x = h.mem x := by
  unfold relink
  split
  · exact set_mem_apply (by omega)
  · rfl

@[simp] lemma newBlock_ctl (b cap n p : ℕ) : (newBlock T h b cap n p).ctl = h.ctl := rfl

lemma get_newBlock_apart {b cap n p c : ℕ} {g : Field}
    (hbc : b + T.headerSize ≤ c ∨ c + T.headerSize ≤ b) :
    (newBlock T h b cap n p).get T c g = h.get T c g := by
  rw [newBlock, get_setFree_apart hbc, get_set_apart hbc, get_set_apart hbc, get_set_apart hbc,
    get_set_apart hbc]

lemma newBlock_mem_apply {b cap n p x : ℕ} (hx : x < b ∨ b + T.headerSize ≤ x) :
    (newBlock T h b cap n p).mem x = h.mem x := by
  rw [newBlock, setFree_mem_apply hx, set_mem_apply hx, set_mem_apply hx, set_mem_apply hx,
    set_mem_apply hx]

lemma header_newBlock {b cap n p : ℕ} (hcookie : h.ctl.cookie < T.modulus) (hb : b < T.modulus)
    (hcap : cap < T.modulus) (hn : n < T.modulus) (hp : p < T.modulus) :
    HeaderIs T h.ctl.cookie (newBlock T h b cap n p).mem ⟨b, cap, none⟩ p n := by
  intro f
  change (newBlock T h b cap n p).get T b f = _
  rw [newBlock, get_setFree]
  cases f <;> simp only [get_set, reduceCtorEq, if_false, if_true] <;> try rfl
  · exact word_mod rfl (marker_lt hcookie hb)
  · exact word_mod rfl hcap
  · exact word_mod rfl hn
  · exact word_mod rfl hp

/-- Relinking the head of a chain segment gives it a new predecessor. -/
lemma linked_relink {cookie prev prev' tail a z : ℕ} {bs : List Blk} (ha : 0 < a)
    (htiles : Tiles T.headerSize a bs z) (hprev : prev' < T.modulus)
    (hl : Linked T cookie h.mem prev bs tail) :
    Linked T cookie (relink T h (headAddr 0 bs) prev').mem prev' bs tail := by
  cases bs with
  | nil => trivial
  | cons b bs =>
    obtain ⟨rfl, htl⟩ := htiles
    rw [headAddr, relink, if_pos (by omega)]
    refine ⟨fun f => ?_, hl.2.congr fun c hc f => ?_⟩
    · have hf := hl.1 f
      change (h.set T b.addr .previous prev').get T b.addr f = _
      rw [get_set]
      split
      · next heq => subst heq; exact word_mod rfl hprev
      · next hne =>
        change getField T h.mem b.addr f = _
        rw [hf]
        cases f <;> first | rfl | exact absurd rfl hne
    · have := (htl.bounds hc).1
      unfold Block.stop at this
      exact get_set_apart (h := h) (by omega)

/-! ### Geometry -/

/-- What the geometry reads of the allocator object. -/
def layout (a : OsAllocator) : ℕ × ℕ × ℕ × ℕ × Bool :=
  (a.heapBegin, a.heapEnd, a.firstBlock, a.cookie, a.initialized)

lemma geometry_congr {a a' : OsAllocator} (hg : Geometry T a) (hl : layout a' = layout a) :
    Geometry T a' := by
  simp only [layout, Prod.mk.injEq] at hl
  obtain ⟨h1, h2, h3, h4, h5⟩ := hl
  constructor
  · rw [h5]; exact hg.initialized
  · rw [h1]; exact hg.pos
  · rw [h1]; exact hg.beginAligned
  · rw [h2]; exact hg.endAligned
  · rw [h1, h2]; exact hg.room
  · rw [h2]; exact hg.fits
  · rw [h1, h3]; exact hg.first
  · rw [h4]; exact hg.cookie

/-- A chain stays where it is when only the totals of the allocator object change. -/
lemma chained_of_ctl {bs : List Blk} {a : OsAllocator} (hc : Chained T h bs)
    (hl : layout a = layout h.ctl) (hn : ∃ b ∈ bs, b.addr = a.nextFit) :
    Chained T { h with ctl := a } bs := by
  have hg := geometry_congr hc.geometry hl
  simp only [layout, Prod.mk.injEq] at hl
  obtain ⟨h1, h2, -, h4, -⟩ := hl
  have htiles := hc.tiles
  have hlinked := hc.linked
  rw [← h1, ← h2] at htiles
  rw [← h4] at hlinked
  exact ⟨hg, htiles, hlinked, hc.aligned, hc.owners, hn⟩

/-- The blocks of a chain around one of them lie apart from it. -/
lemma chained_apart {pre post : List Blk} {b : Blk} (hc : Chained T h (pre ++ b :: post)) {c : Blk}
    (hm : c ∈ pre ∨ c ∈ post) :
    b.stop T.headerSize ≤ c.addr ∨ c.stop T.headerSize ≤ b.addr := by
  rcases hm with hm | hm
  · exact Or.inr (hc.tiles.around.1 c hm)
  · exact Or.inl (hc.tiles.around.2 c hm)

/-! ### Replacing the header of one block -/

/-- What holds of every block before and after a change holds of every block. -/
lemma forall_mem_replace {P : Blk → Prop} {pre post : List Blk} (old mid : List Blk)
    (h : ∀ c ∈ pre ++ (old ++ post), P c) (hmid : ∀ c ∈ mid, P c) :
    ∀ c ∈ pre ++ (mid ++ post), P c := by
  simp only [List.forall_mem_append] at h ⊢
  exact ⟨h.1, hmid, h.2.2⟩

/-- Rewriting the header of one block to that of another of the same extent. -/
lemma chained_rewrite {h' : Heap} {pre post : List Blk} {b b' : Blk}
    (hc : Chained T h (pre ++ b :: post)) (hctl : h'.ctl = h.ctl) (haddr : b'.addr = b.addr)
    (hcap : b'.capacity = b.capacity) (hown : ∀ o ∈ b'.owner, o < memoryOwnerNone)
    (hhead : HeaderIs T h.ctl.cookie h'.mem b' (lastAddr 0 pre) (headAddr 0 post))
    (hrest : ∀ c, b.addr + T.headerSize ≤ c ∨ c + T.headerSize ≤ b.addr → ∀ f,
      getField T h'.mem c f = getField T h.mem c f) :
    Chained T h' (pre ++ b' :: post) := by
  have happ : ∀ c ∈ pre ++ post, b.addr + T.headerSize ≤ c.addr ∨ c.addr + T.headerSize ≤ b.addr := by
    intro c hcm
    have := chained_apart hc (List.mem_append.mp hcm)
    unfold Block.stop at this
    omega
  have hstop : b'.stop T.headerSize = b.stop T.headerSize := by
    unfold Block.stop; omega
  obtain ⟨hl1, -, hl2⟩ := linked_append.mp hc.linked
  refine ⟨by rw [hctl]; exact hc.geometry, ?_, ?_, ?_, ?_, ?_⟩
  · rw [hctl]
    have hnew : Tiles T.headerSize b.addr [b'] (b.stop T.headerSize) := ⟨haddr, hstop⟩
    exact hc.tiles.replace hnew
  · rw [hctl]
    refine linked_append.mpr ⟨?_, hhead, ?_⟩
    · rw [headAddr, haddr]
      exact hl1.congr fun c hcm f => hrest _ (happ c (by simp [hcm])) f
    · rw [haddr]
      exact hl2.congr fun c hcm f => hrest _ (happ c (by simp [hcm])) f
  · refine forall_mem_replace [b] [b'] hc.aligned (List.forall_mem_singleton.mpr ?_)
    rw [hcap]
    exact hc.aligned b (by simp)
  · exact forall_mem_replace [b] [b'] hc.owners (List.forall_mem_singleton.mpr hown)
  · obtain ⟨c, hcm, hcur⟩ := hc.cursor
    rw [hctl]
    rcases List.mem_append.mp hcm with hcm | hcm
    · exact ⟨c, by simp [hcm], hcur⟩
    · rcases List.mem_cons.mp hcm with rfl | hcm
      · exact ⟨b', by simp, by rw [haddr, hcur]⟩
      · exact ⟨c, by simp [hcm], hcur⟩

/-- The address that a chain segment ends with is that of one of its blocks. -/
lemma lastAddr_mem (b : Blk) (bs : List Blk) : ∃ c ∈ b :: bs, c.addr = lastAddr b.addr bs := by
  induction bs generalizing b with
  | nil => exact ⟨b, by simp, rfl⟩
  | cons c bs ih =>
    obtain ⟨d, hd, hlast⟩ := ih c
    exact ⟨d, List.mem_cons_of_mem _ hd, hlast⟩

/-- Relinking looks at no more than the header it writes to. -/
lemma get_relink_congr {h' : Heap} {n p d : ℕ} {f : Field}
    (hd : n = d ∨ n + T.headerSize ≤ d ∨ d + T.headerSize ≤ n) (heq : h'.get T d f = h.get T d f) :
    (relink T h' n p).get T d f = (relink T h n p).get T d f := by
  rcases hd with rfl | hd
  · unfold relink
    split
    · rw [get_set, get_set, heq]
    · exact heq
  · rw [get_relink_apart (Or.inr hd), get_relink_apart (Or.inr hd), heq]

/-- The head of the blocks after a block lies apart from every block before it. -/
lemma headAddr_apart {pre post : List Blk} {b d : Blk} (hc : Chained T h (pre ++ b :: post))
    (hd : d ∈ pre) : headAddr 0 post = 0 ∨ headAddr 0 post + T.headerSize ≤ d.addr ∨
      d.addr + T.headerSize ≤ headAddr 0 post := by
  cases post with
  | nil => exact Or.inl rfl
  | cons c post =>
    have h1 := hc.tiles.around.1 d hd
    have h2 := hc.tiles.around.2 c (by simp)
    unfold Block.stop at h1 h2
    simp only [headAddr]
    omega

/-- A block after another is the next one or lies apart from the next one. -/
lemma head_or_apart {pre post : List Blk} {b d : Blk} (hc : Chained T h (pre ++ b :: post))
    (hd : d ∈ post) : headAddr 0 post = d.addr ∨ headAddr 0 post + T.headerSize ≤ d.addr ∨
      d.addr + T.headerSize ≤ headAddr 0 post := by
  cases post with
  | nil => exact absurd hd List.not_mem_nil
  | cons c post =>
    rcases List.mem_cons.mp hd with rfl | hd
    · exact Or.inl rfl
    · have htiles := (tiles_append.mp hc.tiles).2.2.2
      have hle := (htiles.bounds hd).1
      unfold Block.stop at hle
      simp only [headAddr]
      omega

/-- **Replacing** blocks of a chain by others over their range: the headers of the new ones are in
memory, the block after them has been relinked, and no other header has changed. -/
lemma chained_replace {h' : Heap} {pre os ns post : List Blk} {o n : Blk}
    (hc : Chained T h (pre ++ (o :: os ++ post))) (hlay : layout h'.ctl = layout h.ctl)
    (htiles : ∀ a z, Tiles T.headerSize a (o :: os) z → Tiles T.headerSize a (n :: ns) z)
    (hnew : Linked T h.ctl.cookie h'.mem (lastAddr 0 pre) (n :: ns) (headAddr 0 post))
    (hpre : ∀ d ∈ pre, ∀ f, h'.get T d.addr f = h.get T d.addr f)
    (hpost : ∀ d ∈ post, ∀ f, h'.get T d.addr f =
      (relink T h (headAddr 0 post) (lastAddr n.addr ns)).get T d.addr f)
    (haligned : ∀ b ∈ n :: ns, b.capacity % 8 = 0)
    (howners : ∀ b ∈ n :: ns, ∀ w ∈ b.owner, w < memoryOwnerNone)
    (hcursor : ∃ b ∈ pre ++ (n :: ns ++ post), b.addr = h'.ctl.nextFit) :
    Chained T h' (pre ++ (n :: ns ++ post)) := by
  have hall := hc.tiles.replaceRun htiles
  obtain ⟨-, ⟨hoaddr, -⟩, htail⟩ := tiles_append.mp hc.tiles |>.imp_right tiles_append.mp
  obtain ⟨-, ⟨hnaddr, -⟩, -⟩ := tiles_append.mp hall |>.imp_right tiles_append.mp
  obtain ⟨hl1, -, hl2⟩ := linked_append.mp hc.linked |>.imp_right linked_append.mp
  have hstart : 0 < reach T.headerSize (reach T.headerSize h.ctl.heapBegin pre) (o :: os) := by
    have hpos := hc.geometry.pos
    have hle := (tiles_append.mp (tiles_append.mp hc.tiles).2).1.le
    have hle' := (tiles_append.mp hc.tiles).1.le
    omega
  have hlast : lastAddr n.addr ns < T.modulus := by
    obtain ⟨d, hd, hlast⟩ := lastAddr_mem n ns
    have hbounds := hall.bounds (List.mem_append_right pre (List.mem_append_left post hd))
    have hfits := hc.geometry.fits
    unfold Block.stop at hbounds
    omega
  have hcookie : h'.ctl.cookie = h.ctl.cookie := congrArg (fun l => l.2.2.2.1) hlay
  refine ⟨geometry_congr hc.geometry hlay, ?_, ?_, forall_mem_replace (o :: os) _ hc.aligned haligned,
    forall_mem_replace (o :: os) _ hc.owners howners, hcursor⟩
  · rw [show h'.ctl.heapBegin = h.ctl.heapBegin from congrArg (fun l => l.1) hlay,
      show h'.ctl.heapEnd = h.ctl.heapEnd from congrArg (fun l => l.2.1) hlay]
    exact hall
  · rw [hcookie]
    refine linked_append.mpr ⟨?_, linked_append.mpr ⟨hnew, ?_⟩⟩
    · rw [List.cons_append, headAddr, hnaddr, ← hoaddr]
      exact hl1.congr hpre
    · exact (linked_relink hstart htail hlast hl2).congr hpost

/-- The block given up. -/
def release (b : Blk) : Blk := { b with owner := none }

/-- The block given to `owner`. -/
def grant (b : Blk) (owner : ℕ) : Blk := { b with owner := some owner }

lemma chained_setFree {pre post : List Blk} {b : Blk} (hc : Chained T h (pre ++ b :: post)) :
    Chained T (setFree T h b.addr) (pre ++ release b :: post) := by
  refine chained_rewrite hc rfl rfl rfl (by simp [release]) (fun f => ?_)
    fun c hcb f => get_setFree_apart hcb
  have hh := hc.header f
  change (setFree T h b.addr).get T b.addr f = _
  rw [get_setFree]
  cases f <;> first | exact hh | rfl

/-- Setting `allocated` and `owner` of a block. -/
lemma chained_grant {pre post : List Blk} {b : Blk} {owner : ℕ}
    (hc : Chained T h (pre ++ b :: post)) (howner : owner < memoryOwnerNone) :
    Chained T ((h.set T b.addr .allocated 1).set T b.addr .owner owner)
      (pre ++ grant b owner :: post) := by
  refine chained_rewrite hc rfl rfl rfl (by simpa [grant] using howner) (fun f => ?_)
    fun c hcb f => ?_
  · have hh := hc.header f
    change ((h.set T b.addr .allocated 1).set T b.addr .owner owner).get T b.addr f = _
    rw [get_set, get_set]
    unfold memoryOwnerNone uint16Max at howner
    cases f <;> simp only [reduceCtorEq, if_false, if_true] <;>
      first | exact hh | simp [headerField, grant, Field.size]
    omega
  · change ((h.set T b.addr .allocated 1).set T b.addr .owner owner).get T c f = _
    rw [get_set_apart hcb, get_set_apart hcb]
    rfl

/-! ### Splitting -/

/-- The two blocks a free block of more than `n` bytes is cut into. -/
def cutFront (b : Blk) (n : ℕ) : Blk := { b with capacity := n }
def cutRest (T : Target) (b : Blk) (n : ℕ) : Blk :=
  { addr := b.addr + T.headerSize + n, capacity := b.capacity - n - T.headerSize, owner := none }

lemma cut_tiles {b : Blk} {n : ℕ} (hn : n + T.headerSize ≤ b.capacity) :
    Tiles T.headerSize b.addr [cutFront b n, cutRest T b n] (b.stop T.headerSize) := by
  refine ⟨rfl, rfl, ?_⟩
  simp only [tiles_nil, cutRest, Block.stop]
  omega

/-- The header of the block that comes next, if there is one, is among the headers. -/
lemma outside_headAddr {hdr x : ℕ} {post : List Blk} (hx : Outside hdr post x) :
    headAddr 0 post = 0 ∨ x < headAddr 0 post ∨ headAddr 0 post + hdr ≤ x := by
  cases post with
  | nil => exact Or.inl rfl
  | cons d post => exact Or.inr (hx d (List.mem_cons_self ..))

/-- The remainder of a block fits where the block was. -/
lemma cutRest_bounds {pre post : List Blk} {b : Blk} {n : ℕ} (hc : Chained T h (pre ++ b :: post))
    (hroom : n + T.headerSize + 8 ≤ b.capacity) :
    (cutRest T b n).addr = b.addr + T.headerSize + n ∧
      (cutRest T b n).addr + T.headerSize ≤ b.stop T.headerSize ∧
      b.stop T.headerSize < T.modulus := by
  refine ⟨rfl, ?_, hc.stop_lt (by simp)⟩
  simp only [cutRest, Block.stop]
  omega

/-- The writes of a split. -/
lemma splitBlock_eq {pre post : List Blk} {b : Blk} {n s : ℕ} (hc : Chained T h (pre ++ b :: post))
    (hroom : n + T.headerSize + 8 ≤ b.capacity) (hs : (cutRest T b n).addr = s) :
    splitBlock T h b.addr n =
      { ((relink T (newBlock T h s (b.capacity - n - T.headerSize) (headAddr 0 post) b.addr)
          (headAddr 0 post) s).set T b.addr .capacity n).set T b.addr .next s with
        ctl := { h.ctl with nextFit := s } } := by
  obtain ⟨haddr, hin, hlt⟩ := cutRest_bounds hc hroom
  have hsplit : T.wadd (payloadAddress T b.addr) n = s := by
    rw [Target.wadd, payloadAddress, Target.wadd, Nat.mod_eq_of_lt (a := b.addr + T.headerSize)
      (by omega), Nat.mod_eq_of_lt (by omega), ← hs, haddr]
  simp [splitBlock, hsplit, hc.get_next, hc.get_capacity (b := b) (by simp)]

/-- **Splitting** replaces the block by its front and a free remainder. -/
lemma chained_splitBlock {pre post : List Blk} {b : Blk} {n : ℕ}
    (hc : Chained T h (pre ++ b :: post)) (hfree : b.owner = none) (hn8 : n % 8 = 0)
    (hroom : n + T.headerSize + 8 ≤ b.capacity) :
    Chained T (splitBlock T h b.addr n) (pre ++ ([cutFront b n, cutRest T b n] ++ post)) ∧
      (splitBlock T h b.addr n).ctl = { h.ctl with nextFit := (cutRest T b n).addr } ∧
      ∀ x, Outside T.headerSize (pre ++ ([cutFront b n, cutRest T b n] ++ post)) x →
        (splitBlock T h b.addr n).mem x = h.mem x := by
  have hb : b ∈ pre ++ b :: post := by simp
  have hpos := hc.addr_pos hb
  have hhdr8 := headerSize_mod T
  have hcap8 := hc.aligned b hb
  obtain ⟨haddr, hin, hlt⟩ := cutRest_bounds hc hroom
  obtain ⟨s, hs⟩ : ∃ s, (cutRest T b n).addr = s := ⟨_, rfl⟩
  rw [hs] at haddr hin
  -- the blocks around the one being split lie apart from both of its halves
  have happ : ∀ c, c ∈ pre ∨ c ∈ post →
      (s + T.headerSize ≤ c.addr ∨ c.addr + T.headerSize ≤ s) ∧
      (b.addr + T.headerSize ≤ c.addr ∨ c.addr + T.headerSize ≤ b.addr) := by
    intro c hcm
    have := chained_apart hc hcm
    unfold Block.stop at this hin
    omega
  have hnext : headAddr 0 post = 0 ∨
      ((headAddr 0 post + T.headerSize ≤ b.addr ∨ b.addr + T.headerSize ≤ headAddr 0 post) ∧
      (headAddr 0 post + T.headerSize ≤ s ∨ s + T.headerSize ≤ headAddr 0 post)) := by
    cases post with
    | nil => exact Or.inl rfl
    | cons c post => have := happ c (by simp); simp only [headAddr]; omega
  have hnlt : headAddr 0 post < T.modulus := by
    cases post with
    | nil => exact lt_of_le_of_lt (Nat.zero_le _) hlt
    | cons c post => have := hc.stop_lt (b := c) (by simp); simp only [headAddr]; omega
  have hdef := splitBlock_eq hc hroom hs
  set h₁ := newBlock T h s (b.capacity - n - T.headerSize) (headAddr 0 post) b.addr with hh₁
  set h₂ := relink T h₁ (headAddr 0 post) s with hh₂
  -- what the last two writes leave alone
  have hlast : ∀ c, b.addr + T.headerSize ≤ c ∨ c + T.headerSize ≤ b.addr → ∀ f,
      (splitBlock T h b.addr n).get T c f = h₂.get T c f := by
    intro c hcb f
    rw [hdef]
    change ((h₂.set T b.addr .capacity n).set T b.addr .next s).get T c f = _
    rw [get_set_apart hcb, get_set_apart hcb]
  have hrest : HeaderIs T h.ctl.cookie (splitBlock T h b.addr n).mem (cutRest T b n) b.addr
      (headAddr 0 post) := by
    intro f
    have hnewf := @header_newBlock _ h s (b.capacity - n - T.headerSize) (headAddr 0 post) b.addr
      hc.geometry.cookie (by omega) (by unfold Block.stop at hlt; omega) hnlt (by omega) f
    change (splitBlock T h b.addr n).get T (cutRest T b n).addr f = _
    rw [hs, hlast s (by omega), hh₂, get_relink_apart (by omega), cutRest, ← haddr]
    exact hnewf
  have hfront : HeaderIs T h.ctl.cookie (splitBlock T h b.addr n).mem (cutFront b n)
      (lastAddr 0 pre) (cutRest T b n).addr := by
    rw [hs]
    intro f
    have hbf : h₂.get T b.addr f = headerField h.ctl.cookie b (lastAddr 0 pre) (headAddr 0 post) f := by
      rw [hh₂, get_relink_apart (by omega), hh₁, get_newBlock_apart (by omega)]
      exact hc.header f
    rw [hdef]
    change ((h₂.set T b.addr .capacity n).set T b.addr .next s).get T b.addr f = _
    rw [get_set, get_set, hbf]
    cases f <;> simp only [reduceCtorEq, if_false, if_true] <;> try rfl
    · exact word_mod rfl (by omega)
    · exact word_mod rfl (by omega)
  have hone : Chained T h (pre ++ ([b] ++ post)) := hc
  refine ⟨chained_replace hone ?_ ?_ ⟨hfront, hrest, trivial⟩ (fun d hd f => ?_) (fun d hd f => ?_)
    ?_ ?_ ?_, ?_, ?_⟩
  · rw [hdef]
    rfl
  · rintro a z ⟨rfl, rfl⟩
    exact cut_tiles (by omega)
  · have hd' := happ d (Or.inl hd)
    rw [hlast _ hd'.2, hh₂, get_relink_apart (headAddr_apart hc hd), hh₁, get_newBlock_apart hd'.1]
  · have hd' := happ d (Or.inr hd)
    rw [hlast _ hd'.2, show lastAddr (cutFront b n).addr [cutRest T b n] = s from hs]
    exact get_relink_congr (head_or_apart hc hd) (get_newBlock_apart hd'.1)
  · simp only [List.forall_mem_cons, cutFront, cutRest]
    exact ⟨hn8, by omega, fun c hcm => absurd hcm List.not_mem_nil⟩
  · simp [cutFront, cutRest, hfree]
  · exact ⟨cutRest T b n, by simp, by rw [hdef]; exact hs⟩
  · rw [hdef, hs]
  · intro x hx
    have hxb : x < b.addr ∨ b.addr + T.headerSize ≤ x := hx (cutFront b n) (by simp)
    have hxs := hx (cutRest T b n) (by simp)
    rw [hs] at hxs
    rw [hdef]
    change ((h₂.set T b.addr .capacity n).set T b.addr .next s).mem x = h.mem x
    rw [set_mem_apply hxb, set_mem_apply hxb, hh₂, relink_mem_apply, hh₁, newBlock_mem_apply hxs]
    exact outside_headAddr fun d hd => hx d (by simp [hd])

/-! ### Joining -/

/-- The block after two neighbours, if there is one, starts where the second stops. -/
lemma headAddr_stop {pre post : List Blk} {b : Blk} (hc : Chained T h (pre ++ b :: post)) :
    headAddr 0 post = 0 ∨ headAddr 0 post = b.stop T.headerSize := by
  have htiles := (tiles_append.mp hc.tiles).2.2
  cases post with
  | nil => exact Or.inl rfl
  | cons c post => exact Or.inr htiles.1

/-- The writes of a join. -/
lemma mergeWithNext_eq {pre post : List Blk} {b c : Blk} (hc : Chained T h (pre ++ b :: c :: post))
    (hb : b.owner = none) (hcf : c.owner = none) {h₁ : Heap}
    (hh₁ : h₁ = { h with ctl := { h.ctl with
      nextFit := if h.ctl.nextFit = c.addr then b.addr else h.ctl.nextFit } }) :
    mergeWithNext T h b.addr =
      relink T ((h₁.set T b.addr .capacity (b.capacity + (T.headerSize + c.capacity))).set T b.addr
        .next (headAddr 0 post)) (headAddr 0 post) b.addr := by
  have hc' : Chained T h ((pre ++ [b]) ++ c :: post) := by simpa using hc
  have hbm : b ∈ pre ++ b :: c :: post := by simp
  have hcm : c ∈ pre ++ b :: c :: post := by simp
  have hcstop := hc.stop_lt hcm
  have hcpos := hc.addr_pos hcm
  have hn := headAddr_stop hc'
  obtain ⟨-, -, hcaddr, -⟩ := tiles_append.mp hc.tiles
  unfold Block.stop at hn hcaddr
  have hnlt : headAddr 0 post < T.modulus := by omega
  have hcap : T.wadd b.capacity (T.wadd T.headerSize c.capacity) =
      b.capacity + (T.headerSize + c.capacity) := by
    rw [Target.wadd, Target.wadd, Nat.mod_eq_of_lt (a := T.headerSize + c.capacity) (by omega),
      Nat.mod_eq_of_lt (by omega)]
  have hnextb : h.get T b.addr .next = c.addr := hc.get_next
  have hnextc : h.get T c.addr .next = headAddr 0 post := hc'.get_next
  have hcapart : b.addr + T.headerSize ≤ c.addr ∨ c.addr + T.headerSize ≤ b.addr := by omega
  have hcur : (if h.ctl.nextFit = c.addr then
      { h with ctl := { h.ctl with nextFit := b.addr } } else h) = h₁ := by
    rw [hh₁]
    split <;> rfl
  have hget : ∀ x f, h₁.get T x f = h.get T x f := fun _ _ => by rw [hh₁]; rfl
  simp only [mergeWithNext, hnextb, (hc.get_allocated hbm).mpr hb, (hc.get_allocated hcm).mpr hcf,
    hcur]
  rw [if_neg (by omega)]
  simp only [hget, hc.get_capacity hbm, hc.get_capacity hcm, hcap, get_set_apart hcapart, hnextc,
    get_set, if_true]
  rw [word_mod rfl hnlt]

/-- **Joining** two free neighbours: the first absorbs the second, and the cursor with it. -/
lemma chained_mergeWithNext {pre post : List Blk} {b c : Blk}
    (hc : Chained T h (pre ++ b :: c :: post)) (hb : b.owner = none) (hcf : c.owner = none) :
    Chained T (mergeWithNext T h b.addr) (pre ++ merge T.headerSize b c :: post) ∧
      (mergeWithNext T h b.addr).ctl = { h.ctl with
        nextFit := if h.ctl.nextFit = c.addr then b.addr else h.ctl.nextFit } ∧
      ∀ x, Outside T.headerSize (pre ++ b :: c :: post) x →
        (mergeWithNext T h b.addr).mem x = h.mem x := by
  have hc' : Chained T h ((pre ++ [b]) ++ c :: post) := by simpa using hc
  have hbm : b ∈ pre ++ b :: c :: post := by simp
  have hcm : c ∈ pre ++ b :: c :: post := by simp
  have hcstop := hc.stop_lt hcm
  have hhdr := headerSize_pos T
  have hhdr8 := headerSize_mod T
  have hn := headAddr_stop hc'
  obtain ⟨-, -, hcaddr, -⟩ := tiles_append.mp hc.tiles
  unfold Block.stop at hn hcaddr
  have happ : ∀ d, d ∈ pre ∨ d ∈ post →
      b.addr + T.headerSize ≤ d.addr ∨ d.addr + T.headerSize ≤ b.addr := by
    intro d hd
    have := chained_apart hc (c := d) (by rcases hd with hd | hd <;> simp [hd])
    unfold Block.stop at this
    omega
  obtain ⟨h₁, hh₁⟩ : ∃ h₁ : Heap, h₁ = { h with ctl := { h.ctl with
    nextFit := if h.ctl.nextFit = c.addr then b.addr else h.ctl.nextFit } } := ⟨_, rfl⟩
  have hdef := mergeWithNext_eq hc hb hcf hh₁
  have hctl : (mergeWithNext T h b.addr).ctl = h₁.ctl := by
    rw [hdef, relink_ctl]
    rfl
  have hget : ∀ x f, h₁.get T x f = h.get T x f := fun _ _ => by rw [hh₁]; rfl
  have hhead : HeaderIs T h.ctl.cookie (mergeWithNext T h b.addr).mem (merge T.headerSize b c)
      (lastAddr 0 pre) (headAddr 0 post) := by
    intro f
    have hbf : h.get T b.addr f = _ := hc.header f
    change (mergeWithNext T h b.addr).get T b.addr f = _
    rw [hdef, get_relink_apart (by omega), get_set, get_set, hget, hbf]
    cases f <;> simp only [reduceCtorEq, if_false, if_true] <;> try rfl
    · exact word_mod rfl (by omega)
    · exact word_mod rfl (by omega)
    · simp [headerField, merge, hb]
    · simp [headerField, merge, hb]
  have hkept : ∀ d, b.addr + T.headerSize ≤ d ∨ d + T.headerSize ≤ b.addr → ∀ f,
      ((h₁.set T b.addr .capacity (b.capacity + (T.headerSize + c.capacity))).set T b.addr
        .next (headAddr 0 post)).get T d f = h.get T d f := by
    intro d hd f
    rw [get_set_apart hd, get_set_apart hd, hget]
  have htwo : Chained T h (pre ++ ([b, c] ++ post)) := hc
  have hjoined : Chained T (mergeWithNext T h b.addr) (pre ++ ([merge T.headerSize b c] ++ post)) := by
    refine chained_replace htwo ?_ ?_ ⟨hhead, trivial⟩ (fun d hd f => ?_) (fun d hd f => ?_) ?_ ?_ ?_
    · rw [hctl, hh₁]
      rfl
    · rintro a z ⟨rfl, hcb, rfl⟩
      exact ⟨rfl, merge_stop hcb⟩
    · rw [hdef, get_relink_apart (headAddr_apart hc' (by simp [hd])), hkept _ (happ d (Or.inl hd))]
    · rw [hdef]
      exact get_relink_congr (head_or_apart hc' hd) (hkept _ (happ d (Or.inr hd)) f)
    · have h1 := hc.aligned b hbm
      have h2 := hc.aligned c hcm
      simp only [List.forall_mem_singleton, merge]
      omega
    · simp [merge]
    · obtain ⟨d, hd, hcur⟩ := hc.cursor
      rw [hctl, hh₁]
      simp only [List.mem_append, List.mem_cons] at hd
      by_cases hcc : h.ctl.nextFit = c.addr
      · exact ⟨merge T.headerSize b c, by simp, by rw [if_pos hcc]; rfl⟩
      · rw [if_neg hcc]
        rcases hd with hd | rfl | rfl | hd
        · exact ⟨d, by simp [hd], hcur⟩
        · exact ⟨merge T.headerSize d c, by simp, hcur⟩
        · exact absurd hcur.symm hcc
        · exact ⟨d, by simp [hd], hcur⟩
  refine ⟨hjoined, by rw [hctl, hh₁], fun x hx => ?_⟩
  have hxb := hx b hbm
  rw [hdef, relink_mem_apply, set_mem_apply hxb, set_mem_apply hxb, hh₁]
  exact outside_headAddr fun d hd => hx d (by simp [hd])

end Aymos.HeapBlocks
