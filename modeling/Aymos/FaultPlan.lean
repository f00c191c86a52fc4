import Mathlib.Data.List.Basic
import Mathlib.Data.Nat.Notation
import Mathlib.Order.Nat

/-!
Sequences of operations that a plan can make fail.

Every operation has a number, in the order in which the operations are tried. The plan says which of
them are refused, and with what message. An operation that is not refused may still fail a check
of its own. The first failure ends the sequence.
-/

namespace Aymos.FaultPlan

variable {ε : Type}

/-- The message with which the operation of a number is refused, if it is. -/
abbrev Plan := ℕ → Option String

/-- One operation: what it raises when it is refused, or when the condition it checks fails. -/
structure Step (ε : Type) where
  raised : String → ε
  holds : Bool

/-- Tries operations from the number `n` on. Gives the failure that ended them, if any, and the
number of the next operation. -/
def perform (plan : Plan) : List (Step ε) → ℕ → Option ε × ℕ
  | [], n => (none, n)
  | step :: steps, n =>
    match plan n with
    | some message => (some (step.raised message), n + 1)
    | none => if step.holds then perform plan steps (n + 1) else (some (step.raised ""), n + 1)

/-- The plan refuses no operation from `n` on and before `m`. -/
def Clear (plan : Plan) (n m : ℕ) : Prop := ∀ i, n ≤ i → i < m → plan i = none

/-- The first operation refused from `n` on is `f`. -/
structure FirstFrom (plan : Plan) (n f : ℕ) : Prop where
  le : n ≤ f
  refused : (plan f).isSome = true
  clear : Clear plan n f

variable {plan : Plan} {n m k f g : ℕ}

lemma Clear.append (h : Clear plan n m) (h' : Clear plan m k) : Clear plan n k := fun i h1 h2 =>
  if hm : i < m then h i h1 hm else h' i (not_lt.mp hm) h2

lemma clear_self : Clear plan n n := fun _ h1 h2 => absurd (h1.trans_lt h2) (lt_irrefl n)

/-- What comes before is clear as well. -/
lemma FirstFrom.after (h : FirstFrom plan m f) (hc : Clear plan n m) (hn : n ≤ m) :
    FirstFrom plan n f :=
  ⟨hn.trans h.le, h.refused, hc.append h.clear⟩

lemma FirstFrom.unique (h : FirstFrom plan n f) (h' : FirstFrom plan n g) : f = g := by
  rcases lt_trichotomy f g with hlt | heq | hlt
  · have hnone := h'.clear f h.le hlt
    have hsome := h.refused
    rw [hnone] at hsome
    cases hsome
  · exact heq
  · have hnone := h.clear g h'.le hlt
    have hsome := h'.refused
    rw [hnone] at hsome
    cases hsome

/-- **The operations all succeed, or the first one that is refused ends them**, where every check
holds. -/
lemma perform_cases (plan : Plan) {steps : List (Step ε)}
    (hsteps : ∀ s ∈ steps, s.holds = true) (n : ℕ) :
    (Clear plan n (n + steps.length) ∧ perform plan steps n = (none, n + steps.length)) ∨
      ∃ f e, FirstFrom plan n f ∧ f < n + steps.length ∧ perform plan steps n = (some e, f + 1) := by
  induction steps generalizing n with
  | nil => exact Or.inl ⟨clear_self, rfl⟩
  | cons step steps ih =>
    have hlen : n + (step :: steps).length = n + 1 + steps.length := by
      rw [List.length_cons]
      omega
    rw [perform, hlen]
    cases hp : plan n with
    | some message =>
      exact Or.inr ⟨n, _, ⟨le_refl n, by rw [hp]; rfl, clear_self⟩, by omega, rfl⟩
    | none =>
      have hone : Clear plan n (n + 1) := fun i h1 h2 => by
        rw [show i = n by omega]
        exact hp
      simp only [hsteps step (List.mem_cons_self ..), if_true]
      rcases ih (fun s hs => hsteps s (List.mem_cons_of_mem _ hs)) (n + 1) with
        ⟨hclear, hrun⟩ | ⟨f, e, hfirst, hlt, hrun⟩
      · exact Or.inl ⟨hone.append hclear, hrun⟩
      · exact Or.inr ⟨f, e, hfirst.after hone (Nat.le_succ n), hlt, hrun⟩

/-- Operations that all succeed are refused nowhere, and every check holds. -/
lemma perform_none {steps : List (Step ε)} (h : (perform plan steps n).1 = none) :
    ∀ s ∈ steps, s.holds = true := by
  induction steps generalizing n with
  | nil => exact fun s hs => absurd hs List.not_mem_nil
  | cons step steps ih =>
    rw [perform] at h
    split at h
    · cases h
    · split at h
      · next hs =>
        refine fun s hmem => ?_
        rcases List.mem_cons.mp hmem with rfl | hmem
        · exact hs
        · exact ih h s hmem
      · cases h

end Aymos.FaultPlan
