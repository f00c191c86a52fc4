import Mathlib.Logic.Function.Basic
import Mathlib.Data.List.Basic
import Mathlib.Data.Nat.Notation

/-!
Memory read and written in words of four bytes.

A memory maps the address of each word to its content. A run of words is written and read
from its lowest address up; reading where a run was written gives the run back, and a run
that lies apart is left alone.
-/

namespace Aymos.WordMem

/-- The word at each word address. -/
abbrev Ram := ℕ → ℕ

/-- Writes `words` from `a` up. -/
def writeWords (m : Ram) : ℕ → List ℕ → Ram
  | _, [] => m
  | a, w :: ws => Function.update (writeWords m (a + 4) ws) a w

/-- The `n` words from `a` up. -/
def readWords (m : Ram) : ℕ → ℕ → List ℕ
  | _, 0 => []
  | a, n + 1 => m a :: readWords m (a + 4) n

lemma writeWords_apply {m : Ram} {a x : ℕ} {ws : List ℕ} (h : x < a ∨ a + 4 * ws.length ≤ x) :
    writeWords m a ws x = m x := by
  induction ws generalizing a with
  | nil => rfl
  | cons w ws ih =>
    simp only [List.length_cons] at h
    have hne : x ≠ a := by omega
    rw [writeWords, Function.update_of_ne hne, ih (by omega)]

lemma readWords_congr {m m' : Ram} {a n : ℕ} (h : ∀ x, a ≤ x → x < a + 4 * n → m x = m' x) :
    readWords m a n = readWords m' a n := by
  induction n generalizing a with
  | zero => rfl
  | succ n ih =>
    rw [readWords, readWords, h a (Nat.le_refl a) (by omega), ih fun x hx hx' => h x (by omega) (by omega)]

/-- Reading a run back. -/
lemma readWords_writeWords (m : Ram) (a : ℕ) (ws : List ℕ) :
    readWords (writeWords m a ws) a ws.length = ws := by
  induction ws generalizing a with
  | nil => rfl
  | cons w ws ih =>
    rw [List.length_cons, readWords, writeWords, Function.update_self, List.cons.injEq]
    refine ⟨rfl, ?_⟩
    rw [@readWords_congr _ (writeWords m (a + 4) ws) _ _ fun x hx _ =>
      Function.update_of_ne (show x ≠ a by omega) _ _]
    exact ih (a + 4)

end Aymos.WordMem
