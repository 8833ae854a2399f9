import Columnlet.Error

/-!
Computations on a shared state that may fail. What one has changed before it fails stays changed,
as it does in memory that others share; the result carries the state on both outcomes.
-/

namespace Columnlet

/-- A computation that may fail and that keeps what it changed when it does. -/
abbrev Attempt (σ α : Type) := EStateM Error σ α

namespace Attempt

/-- What a computation answers from a state, and the state that it leaves. -/
def perform {σ α : Type} (a : Attempt σ α) (s : σ) : Except Error α × σ :=
  match a.run s with
  | .ok x s => (.ok x, s)
  | .error e s => (.error e, s)

/-- The computation with a given answer on every state. -/
def ofPerform {σ α : Type} (f : σ → Except Error α × σ) : Attempt σ α := fun s =>
  match f s with
  | (.ok x, s) => .ok x s
  | (.error e, s) => .error e s

/-- A computation that does not depend on the state. -/
def ofExcept {σ α : Type} (x : Except Error α) : Attempt σ α := fun s =>
  match x with
  | .ok x => .ok x s
  | .error e => .error e s

/-- The answer of a partial function of the state, or a failure that leaves the state as it is. -/
def asks {σ α : Type} (f : σ → Option α) (e : Error) : Attempt σ α := fun s =>
  match f s with
  | some x => .ok x s
  | none => .error e s

/-- A partial change of the state, or a failure that leaves the state as it is. -/
def changes {σ : Type} (f : σ → Option σ) (e : Error) : Attempt σ Unit := fun s =>
  match f s with
  | some s => .ok () s
  | none => .error e s

/-- A computation that changes the state once more if it fails. -/
def onError {σ α : Type} (a : Attempt σ α) (f : σ → σ) : Attempt σ α := fun s =>
  match a s with
  | .ok x s => .ok x s
  | .error e s => .error e (f s)

theorem perform_ofPerform {σ α : Type} (f : σ → Except Error α × σ) :
    (ofPerform f).perform = f := by
  funext s
  rcases h : f s with ⟨_ | _, _⟩ <;> simp [perform, ofPerform, EStateM.run, h]

end Attempt

end Columnlet
