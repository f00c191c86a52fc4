import Mathlib.Data.List.Basic
import Mathlib.Data.Nat.Notation

/-!
Programs that a sudden stop can cut short.

A program is a sequence of steps on a state. A run records the state after every step, so that the
states in which a stop can leave the world are at hand, and it ends with a result or an exception.
-/

namespace Aymos.StopPoints

/-- What a run leaves: the states after its steps, in order, and its result. -/
structure Outcome (σ ε α : Type) where
  visited : List σ
  result : Except ε α

/-- A program on states `σ` with exceptions `ε`. -/
def Program (σ ε α : Type) := σ → Outcome σ ε α

variable {σ ε α β : Type}

/-- The state in which a run ends. -/
def Outcome.final (o : Outcome σ ε α) (s : σ) : σ := o.visited.getLastD s

namespace Program

/-- The program without steps. -/
def done (a : α) : Program σ ε α := fun _ => ⟨[], .ok a⟩

def fail (e : ε) : Program σ ε α := fun _ => ⟨[], .error e⟩

/-- A look at the state. -/
def look : Program σ ε σ := fun s => ⟨[], .ok s⟩

/-- One step. -/
def step (f : σ → σ) : Program σ ε Unit := fun s => ⟨[f s], .ok ()⟩

def andThen (p : Program σ ε α) (f : α → Program σ ε β) : Program σ ε β := fun s =>
  let o := p s
  match o.result with
  | .error e => ⟨o.visited, .error e⟩
  | .ok a =>
    let o' := f a (o.final s)
    ⟨o.visited ++ o'.visited, o'.result⟩

instance : Monad (Program σ ε) where
  pure := done
  bind := andThen

/-- `except: handler; raise`. -/
def onError (p : Program σ ε α) (handler : Program σ ε Unit) : Program σ ε α := fun s =>
  let o := p s
  match o.result with
  | .ok a => ⟨o.visited, .ok a⟩
  | .error e =>
    let o' := handler (o.final s)
    match o'.result with
    | .ok () => ⟨o.visited ++ o'.visited, .error e⟩
    | .error e' => ⟨o.visited ++ o'.visited, .error e'⟩

/-- `finally: cleanup`. -/
def finallyDo (p : Program σ ε α) (cleanup : Program σ ε Unit) : Program σ ε α := fun s =>
  let o := p s
  let o' := cleanup (o.final s)
  match o'.result with
  | .ok () => ⟨o.visited ++ o'.visited, o.result⟩
  | .error e' => ⟨o.visited ++ o'.visited, .error e'⟩

/-- The states in which a stop can leave the world. -/
def stops (p : Program σ ε α) (s : σ) : List σ := s :: (p s).visited

/-- The state a run from `s` ends in. -/
def final (p : Program σ ε α) (s : σ) : σ := (p s).final s

/-- The run from `s` succeeds. -/
def Succeeds (p : Program σ ε α) (s : σ) : Prop := ∃ a, (p s).result = .ok a

/-! ### Runs -/

variable {p : Program σ ε α} {f : α → Program σ ε β} {s : σ} {a : α} {e : ε}

lemma getLastD_append (xs ys : List σ) (s : σ) :
    (xs ++ ys).getLastD s = ys.getLastD (xs.getLastD s) := by
  rw [List.getLastD_eq_getLast?, List.getLastD_eq_getLast?, List.getLastD_eq_getLast?,
    List.getLast?_append]
  cases ys.getLast? <;> rfl

/-- **A run goes on** where its first part ends. -/
lemma bind_ok (h : (p s).result = .ok a) :
    (p >>= f) s = ⟨(p s).visited ++ (f a (p.final s)).visited, (f a (p.final s)).result⟩ := by
  change andThen p f s = _
  rw [andThen]
  simp only [h]
  rfl

lemma bind_error (h : (p s).result = .error e) :
    (p >>= f) s = ⟨(p s).visited, .error e⟩ := by
  change andThen p f s = _
  rw [andThen]
  simp only [h]

/-- A first part without steps. -/
lemma bind_of_eq (h : p s = ⟨[], .ok a⟩) : (p >>= f) s = f a s := by
  have hr : (p s).result = .ok a := congrArg Outcome.result h
  have hf : p.final s = s := by
    rw [final, Outcome.final, h]
    rfl
  rw [bind_ok hr, hf, h, List.nil_append]

lemma look_bind (f : σ → Program σ ε β) (s : σ) : (look >>= f) s = f s s := bind_of_eq rfl

lemma step_bind (g : σ → σ) (f : Unit → Program σ ε β) (s : σ) :
    (step g >>= f) s = ⟨g s :: (f () (g s)).visited, (f () (g s)).result⟩ := bind_ok rfl

lemma step_final (g : σ → σ) (s : σ) : (step g : Program σ ε Unit).final s = g s := rfl

lemma bind_final (h : (p s).result = .ok a) : (p >>= f).final s = (f a).final (p.final s) := by
  rw [final, Outcome.final, bind_ok h, getLastD_append]
  rfl

/-- A run can be stopped where it ends. -/
lemma final_mem_stops (p : Program σ ε α) (s : σ) : p.final s ∈ p.stops s := by
  rw [final, Outcome.final, stops, List.getLastD_eq_getLast?]
  cases hv : (p s).visited.getLast? with
  | none => exact List.mem_cons_self
  | some s' => exact List.mem_cons_of_mem _ (List.mem_of_getLast? hv)

/-- **Where a run can be stopped**: in its first part or in what follows it. -/
lemma bind_stops (h : (p s).result = .ok a) {s' : σ} :
    s' ∈ (p >>= f).stops s ↔ s' ∈ p.stops s ∨ s' ∈ (f a).stops (p.final s) := by
  have hlast := final_mem_stops p s
  rw [stops, bind_ok h, ← List.cons_append, List.mem_append]
  constructor
  · rintro (hs | hs)
    · exact Or.inl hs
    · exact Or.inr (List.mem_cons_of_mem _ hs)
  · rintro (hs | hs)
    · exact Or.inl hs
    · rcases List.mem_cons.mp hs with rfl | hs
      · exact Or.inl hlast
      · exact Or.inr hs

lemma stops_of_eq (h : p s = ⟨[], .ok a⟩) : (p >>= f).stops s = (f a).stops s := by
  rw [stops, bind_of_eq h, stops]

lemma look_stops (f : σ → Program σ ε β) (s : σ) : (look >>= f).stops s = (f s).stops s :=
  stops_of_eq rfl

lemma step_stops (g : σ → σ) {s' : σ} :
    s' ∈ (step g : Program σ ε Unit).stops s ↔ s' = s ∨ s' = g s := by
  simp [stops, step]

/-- A run begins with the steps of its first part. -/
lemma bind_begins (p : Program σ ε α) (f : α → Program σ ε β) (s : σ) :
    (p s).visited <+: ((p >>= f) s).visited := by
  cases hr : (p s).result with
  | error e =>
    simp only [bind_error hr, List.prefix_refl]
  | ok a =>
    rw [bind_ok hr]
    exact List.prefix_append _ _

lemma onError_begins (p : Program σ ε α) (handler : Program σ ε Unit) (s : σ) :
    (p s).visited <+: (p.onError handler s).visited := by
  rw [onError]
  cases hr : (p s).result with
  | ok a => exact List.prefix_refl _
  | error e =>
    dsimp only
    split <;> exact List.prefix_append _ _

/-- A program whose run raises nothing never handles an exception. -/
lemma onError_of_ok {handler : Program σ ε Unit} (h : (p s).result = .ok a) :
    p.onError handler s = p s := by
  rw [onError]
  simp only [h]
  rw [← h]

/-! ### What a program leaves alone -/

section Keeps

variable {γ : Type} {g : σ → γ}

/-- No step of the program changes what `g` reads of the state. -/
def Keeps (g : σ → γ) (p : Program σ ε α) : Prop := ∀ s, ∀ s' ∈ p.stops s, g s' = g s

lemma Keeps.final (h : Keeps g p) (s : σ) : g (p.final s) = g s := h s _ (final_mem_stops p s)

lemma keeps_done (a : α) : Keeps g (done a : Program σ ε α) := fun s s' hs => by
  rw [List.mem_singleton.mp hs]

lemma keeps_fail (e : ε) : Keeps g (fail e : Program σ ε α) := fun s s' hs => by
  rw [List.mem_singleton.mp hs]

lemma keeps_look : Keeps g (look : Program σ ε σ) := fun s s' hs => by
  rw [List.mem_singleton.mp hs]

lemma keeps_step {u : σ → σ} (h : ∀ s, g (u s) = g s) : Keeps g (step u : Program σ ε Unit) := by
  intro s s' hs
  rcases (step_stops u).mp hs with rfl | rfl
  · rfl
  · exact h s

lemma Keeps.bind (hp : Keeps g p) (hf : ∀ a, Keeps g (f a)) : Keeps g (p >>= f) := by
  intro s s' hs
  cases hr : (p s).result with
  | error e =>
    rw [stops, bind_error hr] at hs
    exact hp s s' hs
  | ok a =>
    rcases (bind_stops hr).mp hs with hs | hs
    · exact hp s s' hs
    · exact (hf a _ s' hs).trans (hp.final s)

/-- Where a program with a handler can be stopped. -/
lemma onError_stops {handler : Program σ ε Unit} {s' : σ} (h : s' ∈ (p.onError handler).stops s) :
    s' ∈ p.stops s ∨ s' ∈ handler.stops (p.final s) := by
  rw [stops, onError] at h
  cases hr : (p s).result with
  | ok a =>
    simp only [hr] at h
    exact Or.inl h
  | error e =>
    simp only [hr] at h
    have hvisited : s' ∈ p.stops s ++ (handler (p.final s)).visited := by
      cases hr' : (handler ((p s).final s)).result with
      | ok a => simpa [hr', stops, final, or_assoc] using h
      | error e' => simpa [hr', stops, final, or_assoc] using h
    rcases List.mem_append.mp hvisited with hs | hs
    · exact Or.inl hs
    · exact Or.inr (List.mem_cons_of_mem _ hs)

lemma Keeps.onError {handler : Program σ ε Unit} (hp : Keeps g p) (hh : Keeps g handler) :
    Keeps g (p.onError handler) := by
  intro s s' hs
  rcases onError_stops hs with hs | hs
  · exact hp s s' hs
  · exact (hh _ s' hs).trans (hp.final s)

/-- A cleanup of one step comes last, whatever came before it. -/
lemma finallyDo_step (p : Program σ ε α) (u : σ → σ) (s : σ) :
    (p.finallyDo (step u)).stops s = p.stops s ++ [u (p.final s)] := rfl

end Keeps

end Program

end Aymos.StopPoints
