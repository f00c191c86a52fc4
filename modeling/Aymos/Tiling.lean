import Mathlib.Algebra.GroupWithZero.Nat
import Mathlib.Data.List.Chain
import Mathlib.Algebra.BigOperators.Group.List.Basic
import Mathlib.Data.Nat.Notation

/-!
Blocks that tile an address range.

A block is a header of `hdr` bytes followed by `capacity` payload bytes, either free or
owned. A list of blocks tiles `[a, z)` when each block starts where its predecessor stops.
Coalescing joins every run of adjacent free blocks into one; what it must keep (the range,
the owned blocks) and what it reaches (no two free neighbours) is settled here for any
header size and any type of owners.
-/

namespace Aymos.Tiling

structure Block (ω : Type*) where
  addr : ℕ
  capacity : ℕ
  /-- `none` for a free block. -/
  owner : Option ω
  deriving DecidableEq, Repr

variable {ω : Type*} (hdr : ℕ)

/-- The first address after the block. -/
def Block.stop (b : Block ω) : ℕ := b.addr + hdr + b.capacity

/-- The first payload address. -/
def Block.payload (b : Block ω) : ℕ := b.addr + hdr

/-- The blocks lie end to end from `a` to `z`. -/
def Tiles : ℕ → List (Block ω) → ℕ → Prop
  | a, [], z => a = z
  | a, b :: bs, z => b.addr = a ∧ Tiles (b.stop hdr) bs z

@[simp] lemma tiles_nil {a z : ℕ} : Tiles hdr a ([] : List (Block ω)) z ↔ a = z := Iff.rfl
@[simp] lemma tiles_cons {a z : ℕ} {b : Block ω} {bs : List (Block ω)} :
    Tiles hdr a (b :: bs) z ↔ b.addr = a ∧ Tiles hdr (b.stop hdr) bs z := Iff.rfl

/-- Where a tiling starting at `a` reaches. -/
def reach : ℕ → List (Block ω) → ℕ
  | a, [] => a
  | _, b :: bs => reach (b.stop hdr) bs

variable {hdr}

lemma tiles_append {a z : ℕ} {xs ys : List (Block ω)} :
    Tiles hdr a (xs ++ ys) z ↔ Tiles hdr a xs (reach hdr a xs) ∧ Tiles hdr (reach hdr a xs) ys z := by
  induction xs generalizing a with
  | nil => simp [reach]
  | cons b xs ih => simp [reach, ih, and_assoc]

lemma Tiles.reach_eq {a z : ℕ} {bs : List (Block ω)} (h : Tiles hdr a bs z) :
    reach hdr a bs = z := by
  induction bs generalizing a with
  | nil => exact h
  | cons b bs ih => exact ih h.2

lemma Tiles.le {a z : ℕ} {bs : List (Block ω)} (h : Tiles hdr a bs z) : a ≤ z := by
  induction bs generalizing a with
  | nil => exact le_of_eq h
  | cons b bs ih =>
    obtain ⟨rfl, h⟩ := h
    have := ih h
    unfold Block.stop at this
    omega

/-- Every block of a tiling lies inside the range. -/
lemma Tiles.bounds {a z : ℕ} {bs : List (Block ω)} (h : Tiles hdr a bs z) {b : Block ω}
    (hb : b ∈ bs) : a ≤ b.addr ∧ b.stop hdr ≤ z := by
  induction bs generalizing a with
  | nil => simp at hb
  | cons c bs ih =>
    obtain ⟨rfl, h⟩ := h
    have hle : c.addr ≤ c.stop hdr := by unfold Block.stop; omega
    rcases List.mem_cons.mp hb with rfl | hb
    · exact ⟨le_rfl, h.le⟩
    · have := ih h hb
      omega

lemma Tiles.pairwise {a z : ℕ} {bs : List (Block ω)} (h : Tiles hdr a bs z) :
    bs.Pairwise fun b c => b.stop hdr ≤ c.addr := by
  induction bs generalizing a with
  | nil => exact List.Pairwise.nil
  | cons b bs ih => exact List.pairwise_cons.mpr ⟨fun c hc => (h.2.bounds hc).1, ih h.2⟩

/-- Two blocks of a tiling are the same or lie apart. -/
lemma Tiles.apart {a z : ℕ} {bs : List (Block ω)} (h : Tiles hdr a bs z) {b c : Block ω}
    (hb : b ∈ bs) (hc : c ∈ bs) : b = c ∨ b.stop hdr ≤ c.addr ∨ c.stop hdr ≤ b.addr := by
  induction bs generalizing a with
  | nil => simp at hb
  | cons d bs ih =>
    obtain ⟨rfl, h⟩ := h
    rcases List.mem_cons.mp hb with rfl | hb' <;> rcases List.mem_cons.mp hc with rfl | hc'
    · exact Or.inl rfl
    · exact Or.inr (Or.inl (h.bounds hc').1)
    · exact Or.inr (Or.inr (h.bounds hb').1)
    · exact ih h hb' hc'

/-- With a header of positive size a block is determined by its address. -/
lemma Tiles.eq_of_addr {a z : ℕ} {bs : List (Block ω)} (h : Tiles hdr a bs z) (hpos : 0 < hdr)
    {b c : Block ω} (hb : b ∈ bs) (hc : c ∈ bs) (haddr : b.addr = c.addr) : b = c := by
  rcases h.apart hb hc with heq | hlt | hlt
  · exact heq
  · unfold Block.stop at hlt; omega
  · unfold Block.stop at hlt; omega

lemma Tiles.addr_nodup {a z : ℕ} {bs : List (Block ω)} (h : Tiles hdr a bs z) (hpos : 0 < hdr) :
    (bs.map Block.addr).Nodup := by
  rw [List.nodup_iff_pairwise_ne, List.pairwise_map]
  exact h.pairwise.imp fun {b c} hbc => by unfold Block.stop at hbc; omega

/-- The blocks listed before a block stop where it starts or earlier, those after it start
where it stops or later. -/
lemma Tiles.around {a z : ℕ} {pre post : List (Block ω)} {b : Block ω}
    (h : Tiles hdr a (pre ++ b :: post) z) :
    (∀ c ∈ pre, c.stop hdr ≤ b.addr) ∧ ∀ c ∈ post, b.stop hdr ≤ c.addr := by
  have hp := List.pairwise_append.mp h.pairwise
  exact ⟨fun c hc => hp.2.2 c hc b (by simp), (List.pairwise_cons.mp hp.2.1).1⟩

/-- Two tilings of a range whose blocks have the same capacities up to some address both have a
block there. -/
lemma Tiles.share {a z : ℕ} {pre post cs : List (Block ω)} {b : Block ω} (hpos : 0 < hdr)
    (h : Tiles hdr a (pre ++ b :: post) z) (h' : Tiles hdr a cs z)
    (hcap : ∀ c ∈ pre, ∀ d ∈ cs, d.addr = c.addr → d.capacity = c.capacity) :
    ∃ pre' b' post', cs = pre' ++ b' :: post' ∧ b'.addr = b.addr ∧
      pre'.map Block.addr = pre.map Block.addr := by
  induction pre generalizing a cs with
  | nil =>
    obtain ⟨rfl, htail⟩ := h
    cases cs with
    | nil =>
      have hle := htail.le
      have hempty : b.addr = z := h'
      unfold Block.stop at hle
      omega
    | cons d ds => exact ⟨[], d, ds, rfl, h'.1, rfl⟩
  | cons c pre ih =>
    obtain ⟨rfl, htail⟩ := h
    cases cs with
    | nil =>
      have hle := htail.le
      have hempty : c.addr = z := h'
      unfold Block.stop at hle
      omega
    | cons d ds =>
      obtain ⟨haddr, htail'⟩ := h'
      have hstop : d.stop hdr = c.stop hdr := by
        have := hcap c (by simp) d (by simp) haddr
        unfold Block.stop
        omega
      rw [hstop] at htail'
      obtain ⟨pre', b', post', rfl, hb', hmap⟩ := ih htail htail'
        fun e he f hf => hcap e (by simp [he]) f (by simp [hf])
      exact ⟨d :: pre', b', post', rfl, hb', by rw [List.map_cons, List.map_cons, hmap, haddr]⟩

/-- Replacing blocks by others over their range keeps the tiling. -/
lemma Tiles.replaceRun {a z : ℕ} {pre old new post : List (Block ω)}
    (h : Tiles hdr a (pre ++ (old ++ post)) z)
    (hnew : ∀ a' z', Tiles hdr a' old z' → Tiles hdr a' new z') :
    Tiles hdr a (pre ++ (new ++ post)) z := by
  rw [tiles_append, tiles_append] at h
  obtain ⟨hpre, hold, hpost⟩ := h
  have hnew := hnew _ _ hold
  rw [tiles_append, tiles_append, hnew.reach_eq]
  exact ⟨hpre, hnew, hpost⟩

/-- Replacing a block by a tiling of its range keeps the tiling. -/
lemma Tiles.replace {a z : ℕ} {pre post new : List (Block ω)} {b : Block ω}
    (h : Tiles hdr a (pre ++ b :: post) z) (hnew : Tiles hdr b.addr new (b.stop hdr)) :
    Tiles hdr a (pre ++ (new ++ post)) z := by
  have hone : Tiles hdr a (pre ++ ([b] ++ post)) z := h
  refine hone.replaceRun fun a' z' hb => ?_
  obtain ⟨rfl, rfl⟩ := hb
  exact hnew

/-- Total capacity of the owned blocks. -/
def ownedBytes (bs : List (Block ω)) : ℕ :=
  ((bs.filter fun b => b.owner.isSome).map Block.capacity).sum

lemma ownedBytes_append (xs ys : List (Block ω)) :
    ownedBytes (xs ++ ys) = ownedBytes xs + ownedBytes ys := by
  simp [ownedBytes]

lemma ownedBytes_cons (b : Block ω) (bs : List (Block ω)) :
    ownedBytes (b :: bs) = (if b.owner.isSome then b.capacity else 0) + ownedBytes bs := by
  by_cases h : b.owner.isSome <;> simp [ownedBytes, h]

/-- Total capacity of all blocks, and of the free ones. -/
def payloadBytes (bs : List (Block ω)) : ℕ := (bs.map Block.capacity).sum
def freeBytes (bs : List (Block ω)) : ℕ :=
  ((bs.filter fun b => b.owner.isNone).map Block.capacity).sum

lemma payloadBytes_eq (bs : List (Block ω)) : payloadBytes bs = ownedBytes bs + freeBytes bs := by
  induction bs with
  | nil => rfl
  | cons b bs ih =>
    have hfree : freeBytes (b :: bs) =
        (if b.owner.isNone then b.capacity else 0) + freeBytes bs := by
      by_cases h : b.owner.isNone <;> simp [freeBytes, h]
    rw [payloadBytes, List.map_cons, List.sum_cons, ← payloadBytes, ih, ownedBytes_cons, hfree]
    cases b.owner <;> simp <;> omega

/-- Headers and payloads fill the range. -/
lemma Tiles.span {a z : ℕ} {bs : List (Block ω)} (h : Tiles hdr a bs z) :
    a + bs.length * hdr + payloadBytes bs = z := by
  induction bs generalizing a with
  | nil => simpa [payloadBytes] using h
  | cons b bs ih =>
    obtain ⟨rfl, h⟩ := h
    have := ih h
    rw [payloadBytes, List.map_cons, List.sum_cons, ← payloadBytes, List.length_cons, Nat.succ_mul]
    unfold Block.stop at this
    omega

lemma Tiles.ownedBytes_le {a z : ℕ} {bs : List (Block ω)} (h : Tiles hdr a bs z) :
    a + bs.length * hdr + ownedBytes bs ≤ z := by
  induction bs generalizing a with
  | nil => simpa [ownedBytes] using h.le
  | cons b bs ih =>
    obtain ⟨rfl, h⟩ := h
    have := ih h
    rw [ownedBytes_cons, List.length_cons, Nat.succ_mul]
    unfold Block.stop at this
    split <;> omega

/-! ### Coalescing -/

/-- No two neighbours are both free. -/
def Separated (bs : List (Block ω)) : Prop :=
  bs.IsChain fun b c => ¬(b.owner = none ∧ c.owner = none)

variable (hdr)

/-- `c` joined onto the free block `b` before it. -/
def merge (b c : Block ω) : Block ω :=
  { addr := b.addr, capacity := b.capacity + (hdr + c.capacity), owner := none }

/-- Puts a block before a coalesced list, joining it to a free head if it is free. -/
def push (b : Block ω) : List (Block ω) → List (Block ω)
  | [] => [b]
  | c :: bs => if b.owner = none ∧ c.owner = none then merge hdr b c :: bs else b :: c :: bs

/-- Every maximal run of adjacent free blocks joined into one. -/
def coalesce (bs : List (Block ω)) : List (Block ω) := bs.foldr (push hdr) []

variable {hdr}

@[simp] lemma coalesce_nil : coalesce hdr ([] : List (Block ω)) = [] := rfl
@[simp] lemma coalesce_cons (b : Block ω) (bs : List (Block ω)) :
    coalesce hdr (b :: bs) = push hdr b (coalesce hdr bs) := rfl

lemma merge_stop {b c : Block ω} (h : c.addr = b.stop hdr) :
    (merge hdr b c).stop hdr = c.stop hdr := by
  simp only [merge, Block.stop] at h ⊢
  omega

lemma tiles_push {a z : ℕ} {b : Block ω} {bs : List (Block ω)}
    (h : Tiles hdr a (b :: bs) z) : Tiles hdr a (push hdr b bs) z := by
  obtain ⟨rfl, h⟩ := h
  cases bs with
  | nil => exact ⟨rfl, h⟩
  | cons c bs =>
    rw [push]
    split
    · exact ⟨rfl, by rw [merge_stop h.1]; exact h.2⟩
    · exact ⟨rfl, h⟩

lemma tiles_coalesce {a z : ℕ} {bs : List (Block ω)} (h : Tiles hdr a bs z) :
    Tiles hdr a (coalesce hdr bs) z := by
  induction bs generalizing a with
  | nil => exact h
  | cons b bs ih => exact tiles_push ⟨h.1, ih h.2⟩

lemma separated_push {b : Block ω} {bs : List (Block ω)} (h : Separated bs) :
    Separated (push hdr b bs) := by
  cases bs with
  | nil => exact List.isChain_singleton b
  | cons c bs =>
    rw [push]
    split
    · next hfree =>
      cases bs with
      | nil => exact List.isChain_singleton _
      | cons d bs =>
        rw [Separated, List.isChain_cons_cons] at h ⊢
        exact ⟨fun hmd => h.1 ⟨hfree.2, hmd.2⟩, h.2⟩
    · next hfree => exact List.isChain_cons_cons.mpr ⟨hfree, h⟩

/-- **Coalescing leaves no two free neighbours.** -/
lemma separated_coalesce (bs : List (Block ω)) : Separated (coalesce hdr bs) := by
  induction bs with
  | nil => exact List.isChain_nil
  | cons b bs ih => exact separated_push ih

/-- Coalescing a list without free neighbours does nothing. -/
lemma coalesce_of_separated {bs : List (Block ω)} (h : Separated bs) : coalesce hdr bs = bs := by
  induction bs with
  | nil => rfl
  | cons b bs ih =>
    rw [coalesce_cons, ih (List.IsChain.of_cons h)]
    cases bs with
    | nil => rfl
    | cons c bs => exact if_neg (List.isChain_cons_cons.mp h).1

/-- Joining the first two blocks by hand does not change the outcome. -/
lemma coalesce_merge {b c : Block ω} {bs : List (Block ω)} (hb : b.owner = none)
    (hc : c.owner = none) : coalesce hdr (merge hdr b c :: bs) = coalesce hdr (b :: c :: bs) := by
  simp only [coalesce_cons]
  cases coalesce hdr bs with
  | nil => simp [push, hb, hc]
  | cons d ds =>
    by_cases hd : d.owner = none
    · simp [push, hb, hc, hd, merge]
      omega
    · simp [push, hb, hc, hd, merge]

/-- Owning a block keeps the list separated, also when a free block is left after it. -/
lemma Separated.own {pre post : List (Block ω)} {b c : Block ω}
    (h : Separated (pre ++ b :: post)) (hc : c.owner ≠ none) : Separated (pre ++ c :: post) := by
  rw [Separated, List.isChain_append, List.isChain_cons] at h ⊢
  obtain ⟨h1, ⟨-, h2⟩, -⟩ := h
  exact ⟨h1, ⟨fun d _ hf => hc hf.1, h2⟩, fun x _ y hy hf => by simp_all⟩

lemma Separated.own_front {pre post : List (Block ω)} {b c d : Block ω}
    (h : Separated (pre ++ b :: post)) (hb : b.owner = none) (hc : c.owner ≠ none) :
    Separated (pre ++ c :: d :: post) := by
  have hpost := h
  rw [Separated, List.isChain_append, List.isChain_cons] at hpost ⊢
  obtain ⟨h1, ⟨hnext, h2⟩, -⟩ := hpost
  refine ⟨h1, ⟨fun e _ hf => hc hf.1, List.isChain_cons.mpr ⟨fun e he hf => ?_, h2⟩⟩,
    fun x _ y hy hf => by simp_all⟩
  exact hnext e he ⟨hb, hf.2⟩

/-- The head of a coalesced list is free exactly when the head of the list was. -/
lemma coalesce_head (b : Block ω) (bs : List (Block ω)) :
    ∃ c cs, coalesce hdr (b :: bs) = c :: cs ∧ (c.owner = none ↔ b.owner = none) := by
  rw [coalesce_cons]
  cases coalesce hdr bs with
  | nil => exact ⟨b, [], rfl, Iff.rfl⟩
  | cons d ds =>
    rw [push]
    split
    · next hfree => exact ⟨_, _, rfl, by simp [merge, hfree.1]⟩
    · exact ⟨b, _, rfl, Iff.rfl⟩

/-- A block that is not to be joined to the next one stays. -/
lemma coalesce_cons_of_not {b c : Block ω} (bs : List (Block ω))
    (h : ¬(b.owner = none ∧ c.owner = none)) :
    coalesce hdr (b :: c :: bs) = b :: coalesce hdr (c :: bs) := by
  obtain ⟨d, ds, hd, hdc⟩ := @coalesce_head _ hdr c bs
  rw [coalesce_cons, hd, push, if_neg (by rwa [hdc])]

lemma owned_push (b : Block ω) (bs : List (Block ω)) :
    (push hdr b bs).filter (fun b => b.owner.isSome) =
      (b :: bs).filter fun b => b.owner.isSome := by
  cases bs with
  | nil => rfl
  | cons c bs =>
    rw [push]
    split
    · next h => simp [merge, h.1, h.2]
    · rfl

/-- **Coalescing keeps the owned blocks**, each with its address, capacity and owner. -/
lemma owned_coalesce (bs : List (Block ω)) :
    (coalesce hdr bs).filter (fun b => b.owner.isSome) = bs.filter fun b => b.owner.isSome := by
  induction bs with
  | nil => rfl
  | cons b bs ih => rw [coalesce_cons, owned_push, List.filter_cons, List.filter_cons, ih]

lemma mem_coalesce {bs : List (Block ω)} {b : Block ω} (hb : b ∈ bs) (hown : b.owner ≠ none) :
    b ∈ coalesce hdr bs := by
  have hmem : b ∈ bs.filter fun b => b.owner.isSome :=
    List.mem_filter.mpr ⟨hb, Option.isSome_iff_ne_none.mpr hown⟩
  rw [← @owned_coalesce _ hdr] at hmem
  exact (List.mem_filter.mp hmem).1

lemma mem_of_coalesce {bs : List (Block ω)} {b : Block ω} (hb : b ∈ coalesce hdr bs)
    (hown : b.owner ≠ none) : b ∈ bs := by
  have hmem : b ∈ (coalesce hdr bs).filter fun b => b.owner.isSome :=
    List.mem_filter.mpr ⟨hb, Option.isSome_iff_ne_none.mpr hown⟩
  rw [owned_coalesce] at hmem
  exact (List.mem_filter.mp hmem).1

lemma ownedBytes_coalesce (bs : List (Block ω)) :
    ownedBytes (coalesce hdr bs) = ownedBytes bs := by
  rw [ownedBytes, owned_coalesce, ownedBytes]

/-- A property of capacities that sums inherit holds after coalescing. -/
lemma capacity_coalesce {p : ℕ → Prop} (hp : ∀ m n, p m → p n → p (m + (hdr + n)))
    {bs : List (Block ω)} (h : ∀ b ∈ bs, p b.capacity) :
    ∀ b ∈ coalesce hdr bs, p b.capacity := by
  induction bs with
  | nil => simp
  | cons c bs ih =>
    have hc : p c.capacity := h c (by simp)
    have ih := ih fun b hb => h b (by simp [hb])
    rw [coalesce_cons]
    cases hcs : coalesce hdr bs with
    | nil => simpa [push] using hc
    | cons d ds =>
      rw [hcs] at ih
      intro b hb
      rw [push] at hb
      split at hb
      · rcases List.mem_cons.mp hb with rfl | hb
        · exact hp _ _ hc (ih d (by simp))
        · exact ih b (by simp [hb])
      · rcases List.mem_cons.mp hb with rfl | hb
        · exact hc
        · exact ih b hb

/-- What coalescing makes of a list depends on what it makes of the tail. -/
lemma coalesce_append_congr {ys zs : List (Block ω)} (xs : List (Block ω))
    (h : coalesce hdr ys = coalesce hdr zs) : coalesce hdr (xs ++ ys) = coalesce hdr (xs ++ zs) := by
  induction xs with
  | nil => exact h
  | cons b xs ih => rw [List.cons_append, List.cons_append, coalesce_cons, coalesce_cons, ih]

lemma coalesce_map_push {g : Block ω → Block ω} (hg : ∀ b, b.owner = none → g b = b)
    (b : Block ω) (cs : List (Block ω)) :
    coalesce hdr ((push hdr b cs).map g) = coalesce hdr ((b :: cs).map g) := by
  cases cs with
  | nil => rfl
  | cons c cs =>
    rw [push]
    split
    · next hfree =>
      rw [List.map_cons, List.map_cons, List.map_cons, hg b hfree.1, hg c hfree.2,
        hg (merge hdr b c) rfl, coalesce_merge hfree.1 hfree.2]
    · rfl

/-- **Freeing after coalescing**: a change to owned blocks alone may be made before a list is
coalesced or after it, if it is coalesced again. -/
lemma coalesce_map_coalesce {g : Block ω → Block ω} (hg : ∀ b, b.owner = none → g b = b)
    (bs : List (Block ω)) : coalesce hdr ((coalesce hdr bs).map g) = coalesce hdr (bs.map g) := by
  induction bs with
  | nil => rfl
  | cons b bs ih =>
    rw [coalesce_cons, coalesce_map_push hg, List.map_cons, List.map_cons, coalesce_cons, ih,
      coalesce_cons]

/-- Every block lies inside one of the coalesced list, a free block inside a free one. -/
lemma coalesce_covers {a z : ℕ} {bs : List (Block ω)} (h : Tiles hdr a bs z) {b : Block ω}
    (hb : b ∈ bs) : ∃ c ∈ coalesce hdr bs, c.addr ≤ b.addr ∧ b.stop hdr ≤ c.stop hdr ∧
      (b.owner = none → c.owner = none) := by
  induction bs generalizing a with
  | nil => simp at hb
  | cons d ds ih =>
    obtain ⟨rfl, h⟩ := h
    have htail := tiles_coalesce h
    rw [coalesce_cons]
    cases hcs : coalesce hdr ds with
    | nil =>
      rcases List.mem_cons.mp hb with rfl | hb
      · exact ⟨b, by simp [push], le_rfl, le_rfl, id⟩
      · obtain ⟨c, hc, -⟩ := ih h hb
        simp [hcs] at hc
    | cons e es =>
      rw [hcs] at htail ih
      obtain ⟨haddr, htail⟩ := htail
      have hstop : e.addr ≤ e.stop hdr := by unfold Block.stop; omega
      have hle : d.addr ≤ d.stop hdr := by unfold Block.stop; omega
      rw [push]
      split
      · next hfree =>
        have hmerged : (merge hdr d e).stop hdr = e.stop hdr := merge_stop haddr
        rcases List.mem_cons.mp hb with rfl | hb
        · exact ⟨_, List.mem_cons_self, le_rfl, by omega, fun _ => rfl⟩
        · obtain ⟨c, hc, h1, h2, h3⟩ := ih h hb
          rcases List.mem_cons.mp hc with rfl | hc
          · exact ⟨_, List.mem_cons_self, by simp only [merge]; omega, by omega, fun _ => rfl⟩
          · exact ⟨c, List.mem_cons_of_mem _ hc, h1, h2, h3⟩
      · rcases List.mem_cons.mp hb with rfl | hb
        · exact ⟨b, List.mem_cons_self, le_rfl, le_rfl, id⟩
        · obtain ⟨c, hc, h1, h2, h3⟩ := ih h hb
          exact ⟨c, List.mem_cons_of_mem _ hc, h1, h2, h3⟩

end Aymos.Tiling
