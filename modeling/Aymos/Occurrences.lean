import Mathlib.Data.List.Basic
import Mathlib.Data.List.Forall2
import Mathlib.Data.Nat.Notation
import Mathlib.Order.Nat

/-!
Where a word occurs in a text.

The occurrences that do not overlap are counted from the left. A text in which letters that the word
cannot begin with are never far apart does not contain it (`Covered.absent`), and a word of which no
end is a beginning occurs at a border only as a whole (`Absent.border`).
-/

namespace Aymos.Occurrences

variable {α : Type} {word xs ys : List α}

/-- The occurrences of a word, from the left and none of them overlapping. The bound is the length
of the text. -/
def countUpTo [DecidableEq α] (word : List α) : ℕ → List α → ℕ
  | 0, _ => 0
  | _ + 1, [] => 0
  | n + 1, x :: xs =>
    if word.isPrefixOf (x :: xs) then 1 + countUpTo word n ((x :: xs).drop word.length)
    else countUpTo word n xs

def count [DecidableEq α] (word text : List α) : ℕ := countUpTo word text.length text

/-- The word does not begin in the first of two texts. -/
def Absent (word xs ys : List α) : Prop := ∀ i < xs.length, ¬word <+: (xs ++ ys).drop i

lemma absent_cons {x : α} :
    Absent word (x :: xs) ys ↔ ¬word <+: x :: (xs ++ ys) ∧ Absent word xs ys := by
  constructor
  · intro h
    exact ⟨h 0 (Nat.succ_pos _), fun i hi => h (i + 1) (Nat.succ_lt_succ hi)⟩
  · rintro ⟨h0, h⟩ i hi
    cases i with
    | zero => exact h0
    | succ i => exact h i (Nat.lt_of_succ_lt_succ hi)

/-- **A text in which the word does not begin** counts for nothing. -/
lemma countUpTo_absent [DecidableEq α] {n : ℕ} (h : Absent word xs ys) :
    countUpTo word (xs.length + n) (xs ++ ys) = countUpTo word n ys := by
  induction xs with
  | nil => rw [List.length_nil, Nat.zero_add, List.nil_append]
  | cons x xs ih =>
    obtain ⟨h0, hrest⟩ := absent_cons.mp h
    have hturn : (x :: xs).length + n = xs.length + n + 1 := by
      rw [List.length_cons]
      omega
    rw [hturn, List.cons_append, countUpTo, if_neg fun hp => h0 (List.isPrefixOf_iff_prefix.mp hp)]
    exact ih hrest

/-- **One occurrence.** -/
theorem count_once [DecidableEq α] (hne : word ≠ []) (hbefore : Absent word xs (word ++ ys))
    (hafter : Absent word ys []) : count word (xs ++ (word ++ ys)) = 1 := by
  obtain ⟨x, rest, rfl⟩ := List.exists_cons_of_ne_nil hne
  have hlen : (xs ++ (x :: rest ++ ys)).length = xs.length + (ys.length + rest.length + 1) := by
    simp only [List.length_append, List.length_cons]
    omega
  have hfirst : (x :: rest).isPrefixOf (x :: (rest ++ ys)) = true :=
    List.isPrefixOf_iff_prefix.mpr (List.prefix_append (x :: rest) ys)
  have hdrop : (x :: (rest ++ ys)).drop (x :: rest).length = ys ++ [] := by
    rw [List.append_nil]
    exact @List.drop_left _ (x :: rest) ys
  rw [count, hlen, countUpTo_absent hbefore, List.cons_append, countUpTo, if_pos hfirst, hdrop,
    countUpTo_absent hafter]
  cases rest.length <;> rfl

/-! ### Letters that the word does not begin with -/

/-- Marks that stand at letters of a kind, though perhaps not at all of them. -/
def Marks (kind : α → Bool) : List Bool → List α → Prop :=
  List.Forall₂ fun mark x => mark = true → kind x = true

variable {kind : α → Bool} {marks : List Bool} {limit gap : ℕ}

/-- No stretch of letters between the marks is as long as the limit, when one has begun. -/
def covered (limit : ℕ) : ℕ → List Bool → Bool
  | _, [] => true
  | gap, mark :: marks =>
    if mark then covered limit 0 marks else gap + 1 < limit && covered limit (gap + 1) marks

lemma marks_self (xs : List α) : Marks kind (xs.map kind) xs := by
  rw [Marks, List.forall₂_map_left_iff]
  exact List.forall₂_same.mpr fun _ _ h => h

lemma marks_none (xs : List α) : Marks kind (List.replicate xs.length false) xs := by
  induction xs with
  | nil => exact .nil
  | cons x xs ih => exact .cons (fun h => by cases h) ih

/-- A stretch of letters of the other kind ends before the limit. -/
lemma covered_stretch (hc : covered limit gap marks = true) (hm : Marks kind marks xs)
    (hgap : gap < limit) {n : ℕ} (hn : n ≤ xs.length)
    (hother : ∀ x ∈ xs.take n, kind x = false) : gap + n < limit := by
  induction hm generalizing gap n with
  | nil =>
    obtain rfl := Nat.le_zero.mp hn
    exact hgap
  | @cons mark x marks xs hmark hm ih =>
    cases n with
    | zero => exact hgap
    | succ n =>
      rw [List.take_succ_cons, List.forall_mem_cons] at hother
      have hfalse : mark = false := by
        cases mark with
        | false => rfl
        | true => exact absurd (hmark rfl) (by rw [hother.1]; decide)
      rw [hfalse, covered, if_neg (by decide), Bool.and_eq_true, decide_eq_true_eq] at hc
      have hrest := ih hc.2 hc.1 (Nat.le_of_succ_le_succ hn) hother.2
      omega

lemma covered_drop (hc : covered limit gap marks = true) (hgap : gap < limit) (i : ℕ) :
    ∃ gap' < limit, covered limit gap' (marks.drop i) = true := by
  induction marks generalizing gap i with
  | nil => exact ⟨gap, hgap, by rw [List.drop_nil]; exact hc⟩
  | cons mark marks ih =>
    cases i with
    | zero => exact ⟨gap, hgap, hc⟩
    | succ i =>
      rw [covered] at hc
      split at hc
      · exact ih hc (Nat.zero_lt_of_lt hgap) i
      · rw [Bool.and_eq_true, decide_eq_true_eq] at hc
        exact ih hc.2 hc.1 i

/-- **A word with a long beginning of the other kind** is not in a text that is covered. -/
theorem covered_absent (hc : covered limit 0 marks = true) (hm : Marks kind marks xs)
    (hpos : 0 < limit) (hlimit : limit ≤ word.length)
    (hword : ∀ x ∈ word.take limit, kind x = false) (i : ℕ) : ¬word <+: xs.drop i := by
  intro hp
  obtain ⟨gap, hgap, hcover⟩ := covered_drop hc hpos i
  have htake : (xs.drop i).take limit = word.take limit := by
    obtain ⟨rest, hrest⟩ := hp
    rw [← hrest, List.take_append_of_le_length hlimit]
  have hstretch := covered_stretch hcover (List.forall₂_drop i hm) hgap
    (hlimit.trans hp.length_le) (by rw [htake]; exact hword)
  omega

/-- **A word of which no end is a beginning** does not begin in a text that it follows, if it is
not in that text. -/
theorem absent_border (hinside : ∀ i, ¬word <+: xs.drop i)
    (hborder : ∀ k < word.length, 0 < k → ¬word.drop k <+: word) : Absent word xs (word ++ ys) := by
  intro i hi hp
  rw [List.drop_append_of_le_length hi.le] at hp
  rcases le_or_gt word.length (xs.drop i).length with hlong | hshort
  · exact hinside i (List.prefix_of_prefix_length_le hp (List.prefix_append _ _) hlong)
  · -- the end of the occurrence is a beginning of the word that follows
    obtain ⟨rest, hrest⟩ := hp
    have hsplit := congrArg (List.drop (xs.drop i).length) hrest
    rw [List.drop_append_of_le_length hshort.le, List.drop_left] at hsplit
    refine hborder _ hshort (by rw [List.length_drop]; omega) ?_
    refine List.prefix_of_prefix_length_le ⟨rest, hsplit⟩ (List.prefix_append word ys) ?_
    rw [List.length_drop]
    omega

end Aymos.Occurrences
