import Mathlib.Data.Fin.Basic
import Mathlib.Order.Fin.Basic
import Mathlib.Tactic.SplitIfs

/-!
Parties that take turns by counting.

Each party counts the rounds it has finished, and reads the counts of the others before it enters
its next one. It may enter when those before it have finished the round that it is about to do and
those after it have not. However the parties interleave, one of them at most is then inside, and
they enter in order.
-/

namespace Aymos.Turns

variable {n : ℕ}

/-- Whose turn it is, and in which round. -/
@[ext]
structure Turn (n : ℕ) where
  round : ℕ
  party : Fin n

/-- The rounds that a party has finished at a turn. -/
def Turn.count (t : Turn n) (i : Fin n) : ℕ := if i < t.party then t.round + 1 else t.round

/-- The turn after. -/
def Turn.next (t : Turn n) : Turn n :=
  if h : t.party + 1 < n then ⟨t.round, t.party + 1, h⟩
  else ⟨t.round + 1, 0, Nat.zero_lt_of_lt t.party.isLt⟩

variable {t u : Turn n} {i j : Fin n}

@[simp] lemma Turn.count_party (t : Turn n) : t.count t.party = t.round := if_neg (lt_irrefl _)

lemma Turn.count_antitone (h : i ≤ j) : t.count j ≤ t.count i := by
  unfold Turn.count
  split_ifs with hj hi
  · exact le_rfl
  · exact absurd (h.trans_lt hj) hi
  · exact Nat.le_succ _
  · exact le_rfl

lemma Turn.count_le (i : Fin n) : t.round ≤ t.count i ∧ t.count i ≤ t.round + 1 := by
  unfold Turn.count
  split_ifs <;> omega

/-- **The counts tell whose turn it is.** -/
lemma Turn.count_injective : Function.Injective (Turn.count : Turn n → Fin n → ℕ) := by
  intro t u h
  have hle : ∀ {t u : Turn n}, t.count = u.count → t.round ≤ u.round ∧ t.party ≤ u.party := by
    intro t u h
    have hparty := congrFun h u.party
    have hlow := (t.count_le u.party).1
    rw [Turn.count_party] at hparty
    refine ⟨hparty ▸ hlow, le_of_not_gt fun hlt => ?_⟩
    -- Someone who has finished the round in one has not in the other.
    have hafter := congrFun h t.party
    have hround := (u.count_le t.party).1
    rw [Turn.count_party] at hafter
    rw [Turn.count, if_pos hlt] at hparty
    omega
  obtain ⟨hr, hp⟩ := hle h
  obtain ⟨hr', hp'⟩ := hle h.symm
  exact Turn.ext (le_antisymm hr hr') (le_antisymm hp hp')

/-- **A turn that is over is counted** by the party whose turn it was. -/
lemma Turn.count_next (t : Turn n) :
    t.next.count = Function.update t.count t.party (t.count t.party + 1) := by
  ext i
  rw [Turn.count_party]
  have hi := i.isLt
  rcases eq_or_ne i t.party with rfl | hne
  · rw [Function.update_self, Turn.next]
    split_ifs with h
    · exact if_pos (Fin.mk_lt_mk.mpr (Nat.lt_succ_self _))
    · exact if_neg (Nat.not_lt_zero _)
  · have hval : (i : ℕ) ≠ t.party := fun h => hne (Fin.ext h)
    rw [Function.update_of_ne hne, Turn.next]
    split_ifs with h
    · simp only [Turn.count, Fin.lt_def]
      split_ifs <;> omega
    · simp only [Turn.count, Fin.lt_def, Nat.not_lt_zero, if_false]
      rw [if_pos]
      omega

/-- The counts of the parties, and who is inside. -/
structure Rounds (n : ℕ) where
  count : Fin n → ℕ
  inside : Fin n → Bool

def Rounds.start (n : ℕ) : Rounds n := ⟨fun _ => 0, fun _ => false⟩

/-- What a party does to the counts. -/
inductive Step : Rounds n → Rounds n → Prop
  | enter {s : Rounds n} (t : Turn n) (h : s.count = t.count) :
    Step s ⟨s.count, Function.update s.inside t.party true⟩
  | leave {s : Rounds n} (i : Fin n) (h : s.inside i = true) :
    Step s ⟨Function.update s.count i (s.count i + 1), Function.update s.inside i false⟩

/-- It is somebody's turn, and no one else is inside. -/
def Ordered (s : Rounds n) : Prop :=
  ∃ t : Turn n, s.count = t.count ∧ ∀ i, s.inside i = true → i = t.party

variable {s s' : Rounds n}

lemma ordered_start (h : 0 < n) : Ordered (Rounds.start n) :=
  ⟨⟨0, 0, h⟩, funext fun _ => (if_neg (Nat.not_lt_zero _)).symm,
    fun _ hi => absurd hi Bool.false_ne_true⟩

/-- **A step keeps the order.** -/
theorem Step.ordered (h : Step s s') (hs : Ordered s) : Ordered s' := by
  obtain ⟨t, hcount, hinside⟩ := hs
  cases h with
  | enter u hu =>
    obtain rfl : t = u := Turn.count_injective (hcount.symm.trans hu)
    refine ⟨t, hcount, fun i hi => ?_⟩
    dsimp only at hi
    rcases eq_or_ne i t.party with rfl | hne
    · rfl
    · rw [Function.update_of_ne hne] at hi
      exact hinside i hi
  | leave j hj =>
    obtain rfl := hinside j hj
    refine ⟨t.next, ?_, fun i hi => ?_⟩
    · rw [Turn.count_next, hcount]
    · -- Whoever else is inside would be the same party.
      dsimp only at hi
      rcases eq_or_ne i t.party with rfl | hne
      · rw [Function.update_self] at hi
        cases hi
      · rw [Function.update_of_ne hne] at hi
        exact absurd (hinside i hi) hne

/-- **Two parties are not inside at once.** -/
theorem Ordered.unique (h : Ordered s) (hi : s.inside i = true) (hj : s.inside j = true) :
    i = j := by
  obtain ⟨t, -, hinside⟩ := h
  rw [hinside i hi, hinside j hj]

/-- While a party is inside, the counts are those with which it has entered. -/
theorem Ordered.count_inside (h : Ordered s) (hi : s.inside i = true) :
    s.count = Turn.count ⟨s.count i, i⟩ := by
  obtain ⟨t, hcount, hinside⟩ := h
  obtain rfl := hinside i hi
  rw [hcount, Turn.count_party]

end Aymos.Turns
