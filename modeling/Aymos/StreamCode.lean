import Mathlib.Data.List.Basic
import Mathlib.Data.Nat.Notation
import Mathlib.Order.Nat

/-!
Streams of words that tell where they end, and the loops that read them.

A loop reads one word at a time, from a position that only grows, until the stream ends. What it
returns is settled here: the words of the stream, taken one by one, and no others.
-/

namespace Aymos.StreamCode

variable {α β γ σ ε : Type}

/-- No word is empty, and no word begins another one. -/
structure Delimited (code : α → List β) : Prop where
  ne_nil : ∀ a, code a ≠ []
  cancel : ∀ a b t u, code a ++ t = code b ++ u → a = b

/-- **A stream has one reading.** -/
theorem Delimited.flatMap_inj {code : α → List β} (h : Delimited code) {as bs : List α}
    (heq : as.flatMap code = bs.flatMap code) : as = bs := by
  induction as generalizing bs with
  | nil =>
    cases bs with
    | nil => rfl
    | cons b bs =>
      rw [List.flatMap_nil, List.flatMap_cons] at heq
      exact absurd (List.append_eq_nil_iff.mp heq.symm).1 (h.ne_nil b)
  | cons a as ih =>
    cases bs with
    | nil =>
      rw [List.flatMap_nil, List.flatMap_cons] at heq
      exact absurd (List.append_eq_nil_iff.mp heq).1 (h.ne_nil a)
    | cons b bs =>
      rw [List.flatMap_cons, List.flatMap_cons] at heq
      obtain rfl := h.cancel a b _ _ heq
      rw [ih (List.append_cancel_left heq)]

/-- Words of which none begins another one, and words that close a stream of them. -/
structure Closed (code : α → List β) (last : γ → List β) : Prop where
  cancel : ∀ a b t u, code a ++ t = code b ++ u → code a = code b
  closes : ∀ c d t u, last c ++ t = last d ++ u → last c = last d
  apart : ∀ a c t u, code a ++ t ≠ last c ++ u

/-- **A closed stream has one reading**, whatever follows it. -/
theorem Closed.inj {code : α → List β} {last : γ → List β} (h : Closed code last) {as bs : List α}
    {c d : γ} {t u : List β}
    (heq : as.flatMap code ++ (last c ++ t) = bs.flatMap code ++ (last d ++ u)) :
    as.flatMap code = bs.flatMap code ∧ last c = last d ∧ t = u := by
  induction as generalizing bs with
  | nil =>
    cases bs with
    | nil =>
      have hlast := h.closes c d t u heq
      rw [hlast] at heq
      exact ⟨rfl, hlast, List.append_cancel_left heq⟩
    | cons b bs =>
      rw [List.flatMap_cons, List.append_assoc] at heq
      exact absurd heq.symm (h.apart b c _ t)
  | cons a as ih =>
    rw [List.flatMap_cons, List.append_assoc] at heq
    cases bs with
    | nil => exact absurd heq (h.apart a d _ u)
    | cons b bs =>
      rw [List.flatMap_cons, List.append_assoc] at heq
      have hword := h.cancel a b _ _ heq
      rw [hword] at heq
      obtain ⟨hwords, hlast, hrest⟩ := ih (List.append_cancel_left heq)
      exact ⟨by rw [List.flatMap_cons, List.flatMap_cons, hword, hwords], hlast, hrest⟩

/-! ### The loop -/

section Scan

variable {size : ℕ} {offset : σ → ℕ} {step : σ → Except ε σ}

/-- Takes steps while the position is before the end. -/
def scan (size : ℕ) (offset : σ → ℕ) (step : σ → Except ε σ)
    (advances : ∀ s s', offset s < size → step s = .ok s' → offset s < offset s') (s : σ) :
    Except ε σ :=
  if _ : offset s < size then
    match _ : step s with
    | .error e => .error e
    | .ok s' => scan size offset step advances s'
  else .ok s
termination_by size - offset s
decreasing_by exact Nat.sub_lt_sub_left ‹_› (advances _ _ ‹_› ‹_›)

variable (advances : ∀ s s', offset s < size → step s = .ok s' → offset s < offset s')

lemma scan_end {s : σ} (h : ¬ offset s < size) : scan size offset step advances s = .ok s := by
  rw [scan, dif_neg h]

lemma scan_ok {s s' : σ} (hlt : offset s < size) (h : step s = .ok s') :
    scan size offset step advances s = scan size offset step advances s' := by
  rw [scan, dif_pos hlt]
  split
  · next e he => rw [h] at he; cases he
  · next t ht => rw [h] at ht; cases ht; rfl

lemma scan_error {s : σ} {e : ε} (hlt : offset s < size) (h : step s = .error e) :
    scan size offset step advances s = .error e := by
  rw [scan, dif_pos hlt]
  split
  · next e' he => rw [h] at he; cases he; rfl
  · next t ht => rw [h] at ht; cases ht

include advances in
/-- The loop ends: what holds after it is shown by induction on what is left. -/
lemma scan_induction {motive : σ → Prop} (done : ∀ s, ¬ offset s < size → motive s)
    (error : ∀ s e, offset s < size → step s = .error e → motive s)
    (ok : ∀ s s', offset s < size → step s = .ok s' → motive s' → motive s) (s : σ) : motive s := by
  induction hm : size - offset s using Nat.strong_induction_on generalizing s with
  | h m ih =>
    by_cases hlt : offset s < size
    · cases h : step s with
      | error e => exact error s e hlt h
      | ok s' =>
        have hadvance := advances s s' hlt h
        exact ok s s' hlt h (ih (size - offset s') (by omega) s' rfl)
    · exact done s hlt

/-- What the loop raises, one of its steps raises. -/
theorem raised_of_scan {s : σ} {e : ε} (h : scan size offset step advances s = .error e) :
    ∃ s', offset s' < size ∧ step s' = .error e := by
  induction s using scan_induction advances with
  | done s hend => rw [scan_end advances hend] at h; cases h
  | error s e' hlt herror =>
    rw [scan_error advances hlt herror] at h
    cases h
    exact ⟨s, hlt, herror⟩
  | ok s s' hlt hstep ih => exact ih ((scan_ok advances hlt hstep).symm.trans h)

end Scan

/-- **The loop reads exactly the words of the stream**, where one step reads one word and does what
`next` does with it. -/
theorem scan_ok_iff {stream : List β} {offset : σ → ℕ} {step : σ → Except ε σ}
    {code : α → List β} {next : σ → α → Option σ} (hcode : Delimited code)
    (advances : ∀ s s', offset s < stream.length → step s = .ok s' → offset s < offset s')
    (hnext : ∀ s a s', next s a = some s' → offset s' = offset s + (code a).length)
    (hstep : ∀ s s', offset s < stream.length →
      (step s = .ok s' ↔ ∃ a, code a <+: stream.drop (offset s) ∧ next s a = some s'))
    (s s' : σ) :
    scan stream.length offset step advances s = .ok s' ↔
      ∃ as : List α, stream.drop (offset s) = as.flatMap code ∧ as.foldlM next s = some s' := by
  -- a first word is read by a step, and what comes after it by the rest
  have hfirst : ∀ {s a rest}, stream.drop (offset s) = code a ++ rest → offset s < stream.length := by
    intro s a rest heq
    by_contra hend
    rw [List.drop_eq_nil_of_le (not_lt.mp hend)] at heq
    exact hcode.ne_nil a (List.append_eq_nil_iff.mp heq.symm).1
  have hrest : ∀ {s a s₁ rest}, stream.drop (offset s) = code a ++ rest → next s a = some s₁ →
      stream.drop (offset s₁) = rest := by
    intro s a s₁ rest heq h
    rw [hnext s a s₁ h, ← List.drop_drop, heq, List.drop_left]
  constructor
  · intro h
    induction s using scan_induction advances with
    | done s hend =>
      rw [scan_end advances hend] at h
      cases h
      exact ⟨[], List.drop_eq_nil_of_le (not_lt.mp hend), rfl⟩
    | error s e hlt herror =>
      rw [scan_error advances hlt herror] at h
      cases h
    | ok s s₁ hlt hok ih =>
      rw [scan_ok advances hlt hok] at h
      obtain ⟨as, heq, hfold⟩ := ih h
      obtain ⟨a, ⟨rest, hword⟩, ha⟩ := (hstep s s₁ hlt).mp hok
      refine ⟨a :: as, ?_, ?_⟩
      · rw [List.flatMap_cons, ← heq, hrest hword.symm ha, hword]
      · rw [List.foldlM_cons, ha]
        exact hfold
  · rintro ⟨as, heq, hfold⟩
    induction as generalizing s with
    | nil =>
      have hend : ¬ offset s < stream.length := not_lt.mpr (List.drop_eq_nil_iff.mp heq)
      cases hfold
      exact scan_end advances hend
    | cons a as ih =>
      rw [List.flatMap_cons] at heq
      rw [List.foldlM_cons] at hfold
      cases ha : next s a with
      | none => rw [ha] at hfold; cases hfold
      | some s₁ =>
        rw [ha] at hfold
        have hlt := hfirst heq
        rw [scan_ok advances hlt ((hstep s s₁ hlt).mpr ⟨a, ⟨_, heq.symm⟩, ha⟩)]
        exact ih s₁ (hrest heq ha) hfold

end Aymos.StreamCode
