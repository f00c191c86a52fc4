import Aymos.Tiling
import Mathlib.Data.List.Forall2
import Mathlib.Data.List.SplitBy

/-!
The normal form of a tiling.

The blocks of a tiling fall into maximal runs of adjacent free blocks, with each owned block
apart. In the normal form every run has become one block over the same range. Coalescing computes
it, and no other tiling of the range keeps the owned blocks and has no two free neighbours.
-/

namespace Aymos.FreeRuns

open Tiling

variable {ω : Type*} {hdr a z : ℕ}

def bothFree (b c : Block ω) : Bool := b.owner.isNone && c.owner.isNone

lemma bothFree_iff {b c : Block ω} : bothFree b c = true ↔ b.owner = none ∧ c.owner = none := by
  simp [bothFree]

/-- The maximal runs of adjacent free blocks. An owned block is a run of its own. -/
def runs (bs : List (Block ω)) : List (List (Block ω)) := bs.splitBy bothFree

/-- The run `r` has become the block `c`: a free block over the range of its free blocks, or the
one owned block it is made of. -/
structure Joined (hdr : ℕ) (r : List (Block ω)) (c : Block ω) : Prop where
  nonempty : r ≠ []
  tiles : Tiles hdr c.addr r (c.stop hdr)
  kind : (c.owner = none ∧ ∀ b ∈ r, b.owner = none) ∨ r = [c]

/-- **`cs` is the normal form of `bs`.** -/
def NormalForm (hdr : ℕ) (bs cs : List (Block ω)) : Prop := List.Forall₂ (Joined hdr) (runs bs) cs

/-- A block is where it starts, where it stops and whose it is. -/
lemma block_eq {b c : Block ω} (haddr : b.addr = c.addr) (hstop : b.stop hdr = c.stop hdr)
    (howner : b.owner = c.owner) : b = c := by
  obtain ⟨ba, bc, bo⟩ := b
  obtain ⟨ca, cc, co⟩ := c
  simp only [Block.stop] at haddr hstop howner
  rw [haddr, howner, show bc = cc by omega]

/-- A joined block stands where its run begins. -/
lemma Joined.addr_eq {r : List (Block ω)} {c : Block ω} (h : Joined hdr r c) :
    c.addr = (r.head h.nonempty).addr := by
  have htiles := h.tiles
  obtain ⟨b, bs, rfl⟩ := List.exists_cons_of_ne_nil h.nonempty
  exact htiles.1.symm

lemma Joined.unique {r : List (Block ω)} {c d : Block ω} (hc : Joined hdr r c)
    (hd : Joined hdr r d) : c = d := by
  have haddr : c.addr = d.addr := hc.addr_eq.trans hd.addr_eq.symm
  have hstop : c.stop hdr = d.stop hdr := calc
    c.stop hdr = reach hdr c.addr r := hc.tiles.reach_eq.symm
    _ = reach hdr d.addr r := by rw [haddr]
    _ = d.stop hdr := hd.tiles.reach_eq
  refine block_eq haddr hstop ?_
  rcases hc.kind with ⟨hcf, hrc⟩ | hrc <;> rcases hd.kind with ⟨hdf, hrd⟩ | hrd
  · rw [hcf, hdf]
  · rw [hcf, hrc d (by simp [hrd])]
  · rw [hdf, hrd c (by simp [hrc])]
  · rw [hrc, List.cons.injEq] at hrd
    rw [hrd.1]

/-- A list has at most one normal form. -/
lemma NormalForm.unique {bs cs ds : List (Block ω)} (hc : NormalForm hdr bs cs)
    (hd : NormalForm hdr bs ds) : cs = ds :=
  List.right_unique_forall₂' (fun _ _ _ hc hd => hc.unique hd) hc hd

/-! ### Coalescing computes the normal form -/

lemma runs_cons_of_not {b c : Block ω} (bs : List (Block ω))
    (h : ¬(b.owner = none ∧ c.owner = none)) : runs (b :: c :: bs) = [b] :: runs (c :: bs) := by
  have hcut : bothFree b c = false := by rwa [← Bool.not_eq_true, bothFree_iff]
  have happ := List.splitBy_append (r := bothFree) (l := [b]) (m := c :: bs) (by simpa using hcut)
  exact happ

/-- A free block before a free block belongs to its run. -/
lemma runs_cons_of_free {b c : Block ω} (bs : List (Block ω)) (hb : b.owner = none)
    (hc : c.owner = none) :
    ∃ r rs, runs (c :: bs) = (c :: r) :: rs ∧ runs (b :: c :: bs) = (b :: c :: r) :: rs := by
  obtain ⟨hflat, hnil, hchain, hcut⟩ := List.splitBy_eq_iff.mp (Eq.refl (runs (c :: bs)))
  cases hruns : runs (c :: bs) with
  | nil => simp [runs] at hruns
  | cons m rs =>
    rw [hruns] at hflat hnil hchain hcut
    cases m with
    | nil => simp at hnil
    | cons d r =>
      rw [List.flatten_cons, List.cons_append, List.cons.injEq] at hflat
      obtain ⟨rfl, hflat⟩ := hflat
      refine ⟨r, rs, rfl, List.splitBy_eq_iff.mpr ⟨by simp [hflat], by simpa using hnil, ?_, ?_⟩⟩
      · refine List.forall_mem_cons.mpr ⟨?_, (List.forall_mem_cons.mp hchain).2⟩
        exact List.isChain_cons_cons.mpr ⟨bothFree_iff.mpr ⟨hb, hc⟩, hchain _ (by simp)⟩
      · cases rs with
        | nil => exact List.isChain_singleton _
        | cons r' rs =>
          rw [List.isChain_cons_cons] at hcut ⊢
          obtain ⟨⟨hr, hr', hlast⟩, hcut⟩ := hcut
          exact ⟨⟨by simp, hr', by simpa using hlast⟩, hcut⟩

/-- **Coalescing computes the normal form** of a tiling. -/
lemma normalForm_coalesce {bs : List (Block ω)} (h : Tiles hdr a bs z) :
    NormalForm hdr bs (coalesce hdr bs) := by
  induction bs generalizing a with
  | nil => exact List.Forall₂.nil
  | cons b bs ih =>
    obtain ⟨rfl, htail⟩ := h
    have ih := ih htail
    cases bs with
    | nil => exact List.Forall₂.cons ⟨by simp, ⟨rfl, rfl⟩, Or.inr rfl⟩ List.Forall₂.nil
    | cons c bs =>
      by_cases hfree : b.owner = none ∧ c.owner = none
      · obtain ⟨r, rs, hruns, hruns'⟩ := runs_cons_of_free bs hfree.1 hfree.2
        obtain ⟨d, ds, hd, hdc⟩ := @coalesce_head _ hdr c bs
        have hdaddr : d.addr = b.stop hdr := by
          have htiles := tiles_coalesce htail
          rw [hd] at htiles
          exact htiles.1
        rw [NormalForm, hruns, hd] at ih
        obtain ⟨hjoin, hrest⟩ := List.forall₂_cons.mp ih
        rw [NormalForm, hruns', coalesce_cons, hd, push, if_pos ⟨hfree.1, hdc.mpr hfree.2⟩]
        refine List.Forall₂.cons ⟨by simp, ⟨rfl, ?_⟩, Or.inl ⟨rfl, ?_⟩⟩ hrest
        · rw [merge_stop hdaddr, ← hdaddr]
          exact hjoin.tiles
        · refine List.forall_mem_cons.mpr ⟨hfree.1, ?_⟩
          rcases hjoin.kind with ⟨-, hall⟩ | hone
          · exact hall
          · rw [hone]
            exact List.forall_mem_singleton.mpr (hdc.mpr hfree.2)
      · rw [NormalForm, runs_cons_of_not bs hfree, coalesce_cons_of_not bs hfree]
        exact List.Forall₂.cons ⟨by simp, ⟨rfl, rfl⟩, Or.inr rfl⟩ ih

/-! ### No other tiling -/

/-- The owned blocks, in order. -/
def owned (bs : List (Block ω)) : List (Block ω) := bs.filter fun b => b.owner.isSome

lemma owned_cons_free {b : Block ω} (bs : List (Block ω)) (h : b.owner = none) :
    owned (b :: bs) = owned bs := by simp [owned, h]

lemma owned_cons_owned {b : Block ω} (bs : List (Block ω)) (h : b.owner ≠ none) :
    owned (b :: bs) = b :: owned bs := by simp [owned, Option.isSome_iff_ne_none.mpr h]

/-- Tilings of a range begin together. -/
lemma tiles_start {b : Block ω} {bs cs : List (Block ω)} (hpos : 0 < hdr)
    (hb : Tiles hdr a (b :: bs) z) (hc : Tiles hdr a cs z) :
    ∃ c ds, cs = c :: ds ∧ c.addr = b.addr := by
  cases cs with
  | nil =>
    have hle := hb.2.le
    have haddr := hb.1
    have hempty : a = z := hc
    unfold Block.stop at hle
    omega
  | cons c ds => exact ⟨c, ds, rfl, hc.1.trans hb.1.symm⟩

/-- An owned block that a tiling begins with stands at the beginning of every tiling with the same
owned blocks. -/
lemma owned_start {b c : Block ω} {bs cs : List (Block ω)} (hpos : 0 < hdr)
    (hb : Tiles hdr a (b :: bs) z) (hc : Tiles hdr a (c :: cs) z)
    (hown : owned (c :: cs) = owned (b :: bs)) (hbo : b.owner ≠ none) : c.owner ≠ none := by
  intro hco
  rw [owned_cons_free cs hco, owned_cons_owned bs hbo] at hown
  have hmem : b ∈ owned cs := by simp [hown]
  have hle := (hc.2.bounds (List.mem_filter.mp hmem).1).1
  have haddr := hc.1.trans hb.1.symm
  unfold Block.stop at hle
  omega

/-- A free block reaches as far in every separated tiling with the same owned blocks. -/
lemma free_reach {b c : Block ω} {bs cs : List (Block ω)} (hbs : Separated (b :: bs))
    (hcs : Separated (c :: cs)) (hb : b.owner = none) (hc : c.owner = none)
    (htb : Tiles hdr (b.stop hdr) bs z) (htc : Tiles hdr (c.stop hdr) cs z)
    (hown : owned cs = owned bs) : c.stop hdr = b.stop hdr := by
  have hnext : ∀ {e : Block ω} {es : List (Block ω)}, e.owner = none → Separated (e :: es) →
      ∀ d ds, es = d :: ds → d.owner ≠ none := by
    rintro e es he hsep d ds rfl hd
    exact (List.isChain_cons_cons.mp hsep).1 ⟨he, hd⟩
  cases bs with
  | nil =>
    cases cs with
    | nil => exact htc.trans htb.symm
    | cons d ds =>
      rw [owned_cons_owned ds (hnext hc hcs d ds rfl)] at hown
      cases hown
  | cons e es =>
    have heo := hnext hb hbs e es rfl
    cases cs with
    | nil =>
      rw [owned_cons_owned es heo] at hown
      cases hown
    | cons d ds =>
      rw [owned_cons_owned ds (hnext hc hcs d ds rfl), owned_cons_owned es heo,
        List.cons.injEq] at hown
      rw [← htb.1, ← htc.1, hown.1]

/-- **A separated tiling is determined by its owned blocks.** -/
lemma separated_unique {bs cs : List (Block ω)} (hpos : 0 < hdr) (hb : Tiles hdr a bs z)
    (hc : Tiles hdr a cs z) (hbs : Separated bs) (hcs : Separated cs)
    (hown : owned cs = owned bs) : cs = bs := by
  induction bs generalizing a cs with
  | nil =>
    cases cs with
    | nil => rfl
    | cons c cs =>
      obtain ⟨b, bs, hnil, -⟩ := tiles_start hpos hc hb
      cases hnil
  | cons b bs ih =>
    obtain ⟨c, cs, rfl, haddr⟩ := tiles_start hpos hb hc
    have htail : c = b → c :: cs = b :: bs := by
      rintro rfl
      have hrest : owned cs = owned bs := by
        by_cases hfree : c.owner = none
        · rwa [owned_cons_free cs hfree, owned_cons_free bs hfree] at hown
        · rw [owned_cons_owned cs hfree, owned_cons_owned bs hfree] at hown
          exact (List.cons.inj hown).2
      rw [ih hb.2 hc.2 (List.IsChain.of_cons hbs) (List.IsChain.of_cons hcs) hrest]
    refine htail ?_
    by_cases hbo : b.owner = none
    · have hco : c.owner = none := by
        by_contra hco
        exact owned_start hpos hc hb hown.symm hco hbo
      rw [owned_cons_free cs hco, owned_cons_free bs hbo] at hown
      exact block_eq haddr (free_reach hbs hcs hbo hco hb.2 hc.2 hown) (hco.trans hbo.symm)
    · have hco := owned_start hpos hb hc hown hbo
      rw [owned_cons_owned cs hco, owned_cons_owned bs hbo] at hown
      exact (List.cons.inj hown).1

/-- **The normal form is the one tiling** of the range that keeps the owned blocks and has no two
free neighbours. -/
theorem eq_coalesce_iff {bs cs : List (Block ω)} (hpos : 0 < hdr) (h : Tiles hdr a bs z) :
    cs = coalesce hdr bs ↔ Tiles hdr a cs z ∧ Separated cs ∧ owned cs = owned bs := by
  constructor
  · rintro rfl
    exact ⟨tiles_coalesce h, separated_coalesce bs, owned_coalesce bs⟩
  · rintro ⟨htiles, hsep, hown⟩
    exact separated_unique hpos (tiles_coalesce h) htiles (separated_coalesce bs) hsep
      (hown.trans (owned_coalesce bs).symm)

/-- An owned block divides what is coalesced. -/
lemma coalesce_append_owned {b : Block ω} (pre post : List (Block ω)) (hb : b.owner ≠ none) :
    coalesce hdr (pre ++ b :: post) = coalesce hdr pre ++ b :: coalesce hdr post := by
  have hhead : coalesce hdr (b :: post) = b :: coalesce hdr post := by
    rw [coalesce_cons]
    cases coalesce hdr post with
    | nil => rfl
    | cons c cs => exact if_neg fun hfree => hb hfree.1
  induction pre with
  | nil => exact hhead
  | cons c pre ih =>
    rw [List.cons_append, coalesce_cons, coalesce_cons, ih]
    cases coalesce hdr pre with
    | nil => exact if_neg fun hfree => hb hfree.2
    | cons d ds =>
      simp only [List.cons_append, push]
      split <;> rfl

end Aymos.FreeRuns
