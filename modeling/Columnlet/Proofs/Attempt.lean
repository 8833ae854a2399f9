import Columnlet.Files

/-! # Steps of computations

What a sequence of two computations comes to, and what a window leaves of the files. -/

namespace Columnlet

theorem except_bind_eq_ok_iff {ε α β : Type} {x : Except ε α} {f : α → Except ε β} {y : β} :
    x >>= f = .ok y ↔ ∃ a, x = .ok a ∧ f a = .ok y := by
  cases x with
  | ok a =>
      constructor
      · intro h
        exact ⟨a, rfl, h⟩
      · rintro ⟨b, hb, h⟩
        cases hb
        exact h
  | error e =>
      constructor
      · intro h
        cases h
      · rintro ⟨b, hb, _⟩
        cases hb

theorem except_bind_eq_error_iff {ε α β : Type} {x : Except ε α} {f : α → Except ε β} {e : ε} :
    x >>= f = .error e ↔ x = .error e ∨ ∃ a, x = .ok a ∧ f a = .error e := by
  cases x with
  | ok a =>
      constructor
      · intro h
        exact .inr ⟨a, rfl, h⟩
      · rintro (hx | ⟨b, hb, h⟩)
        · cases hx
        · cases hb
          exact h
  | error e' =>
      constructor
      · intro h
        cases h
        exact .inl rfl
      · rintro (hx | ⟨b, hb, _⟩)
        · cases hx
          rfl
        · cases hb

theorem except_map_eq_ok_iff {ε α β : Type} {x : Except ε α} {f : α → β} {y : β} :
    x.map f = .ok y ↔ ∃ a, x = .ok a ∧ f a = y := by
  cases x <;> simp [Except.map]

theorem except_eq_ok_of_toOption {ε α : Type} {x : Except ε α} {y : α}
    (h : x.toOption = some y) : x = .ok y := by
  cases x with
  | error e => cases h
  | ok a => rw [Option.some.inj h]

namespace Attempt

variable {σ α β : Type}

theorem bind_of_ok {a : Attempt σ α} {f : α → Attempt σ β} {s after : σ} {x : α}
    (h : a s = .ok x after) : (a >>= f) s = f x after := by
  change EStateM.bind a f s = _
  rw [EStateM.bind, h]

theorem bind_of_error {a : Attempt σ α} {f : α → Attempt σ β} {s after : σ} {e : Error}
    (h : a s = .error e after) : (a >>= f) s = .error e after := by
  change EStateM.bind a f s = _
  rw [EStateM.bind, h]

theorem bind_eq_ok_iff {a : Attempt σ α} {f : α → Attempt σ β} {s after : σ} {y : β} :
    (a >>= f) s = .ok y after ↔ ∃ x s', a s = .ok x s' ∧ f x s' = .ok y after := by
  cases h : a s with
  | ok x s' =>
      rw [bind_of_ok h]
      constructor
      · intro hf
        exact ⟨x, s', rfl, hf⟩
      · rintro ⟨z, t, hz, hf⟩
        cases hz
        exact hf
  | error e s' =>
      rw [bind_of_error h]
      constructor
      · intro hf
        cases hf
      · rintro ⟨z, t, hz, _⟩
        cases hz

theorem bind_eq_error_iff {a : Attempt σ α} {f : α → Attempt σ β} {s after : σ} {e : Error} :
    (a >>= f) s = .error e after ↔
      a s = .error e after ∨ ∃ x s', a s = .ok x s' ∧ f x s' = .error e after := by
  cases h : a s with
  | ok x s' =>
      rw [bind_of_ok h]
      constructor
      · intro hf
        exact .inr ⟨x, s', rfl, hf⟩
      · rintro (ha | ⟨z, t, hz, hf⟩)
        · cases ha
        · cases hz
          exact hf
  | error e' s' =>
      rw [bind_of_error h]
      constructor
      · intro ha
        cases ha
        exact .inl rfl
      · rintro (ha | ⟨z, t, hz, _⟩)
        · cases ha
          rfl
        · cases hz

theorem ofExcept_eq_error_iff {x : Except Error α} {s after : σ} {e : Error} :
    (ofExcept x : Attempt σ α) s = .error e after ↔ x = .error e ∧ after = s := by
  cases x <;> simp [ofExcept, eq_comm]

theorem changes_eq_error_iff {f : σ → Option σ} {e e' : Error} {s after : σ} :
    changes f e s = .error e' after ↔ f s = none ∧ e' = e ∧ after = s := by
  unfold changes
  cases f s <;> simp [eq_comm]

theorem ofExcept_eq_ok_iff {x : Except Error α} {s after : σ} {y : α} :
    (ofExcept x : Attempt σ α) s = .ok y after ↔ x = .ok y ∧ after = s := by
  cases x <;> simp [ofExcept, eq_comm]

theorem asks_eq_ok_iff {f : σ → Option α} {e : Error} {s after : σ} {x : α} :
    asks f e s = .ok x after ↔ f s = some x ∧ after = s := by
  unfold asks
  cases f s <;> simp [eq_comm]

theorem changes_eq_ok_iff {f : σ → Option σ} {e : Error} {s after : σ} {u : Unit} :
    changes f e s = .ok u after ↔ f s = some after := by
  unfold changes
  cases h : f s <;> simp

theorem eq_ok_of_perform {a : Attempt σ α} {s : σ} {x : α}
    (h : (a.perform s).1.toOption = some x) : a s = .ok x (a.perform s).2 := by
  rw [perform, EStateM.run] at h ⊢
  cases hrun : a s with
  | ok y after =>
      rw [hrun] at h
      cases h
      rfl
  | error e after =>
      rw [hrun] at h
      cases h

theorem eq_error_of_perform {a : Attempt σ α} {s : σ} {e : Error}
    (h : (match (a.perform s).1 with | .ok _ => none | .error e => some e) = some e) :
    a s = .error e (a.perform s).2 := by
  rw [perform, EStateM.run] at h ⊢
  cases hrun : a s with
  | ok y after =>
      rw [hrun] at h
      cases h
  | error e' after =>
      rw [hrun] at h
      cases h
      rfl

/-- Whether it succeeds or not, a computation leaves a state that is related to where it began. -/
def Moves (R : σ → σ → Prop) (a : Attempt σ α) : Prop := ∀ s, R s (a.perform s).2

theorem Moves.of_ok {R : σ → σ → Prop} {a : Attempt σ α} (h : a.Moves R) {s after : σ} {x : α}
    (hrun : a s = .ok x after) : R s after := by
  have hmoved := h s
  rw [perform, EStateM.run, hrun] at hmoved
  exact hmoved

theorem Moves.of_error {R : σ → σ → Prop} {a : Attempt σ α} (h : a.Moves R) {s after : σ}
    {e : Error} (hrun : a s = .error e after) : R s after := by
  have hmoved := h s
  rw [perform, EStateM.run, hrun] at hmoved
  exact hmoved

theorem Moves.pure {R : σ → σ → Prop} (hrefl : ∀ s, R s s) (x : α) : Moves R (Pure.pure x) :=
  fun s => hrefl s

theorem Moves.get {R : σ → σ → Prop} (hrefl : ∀ s, R s s) : Moves R (MonadState.get) :=
  fun s => hrefl s

theorem Moves.ofExcept {R : σ → σ → Prop} (hrefl : ∀ s, R s s) (x : Except Error α) :
    Moves R (Attempt.ofExcept x) := by
  intro s
  cases x <;> exact hrefl s

theorem Moves.bind_of_ok {R : σ → σ → Prop} (htrans : ∀ s t u, R s t → R t u → R s u)
    {a : Attempt σ α} {f : α → Attempt σ β} (ha : a.Moves R)
    (hf : ∀ s x after, a s = .ok x after → R after ((f x).perform after).2) :
    (a >>= f).Moves R := by
  intro s
  rw [perform, EStateM.run]
  cases h : a s with
  | error e after =>
      rw [Attempt.bind_of_error h]
      exact ha.of_error h
  | ok x after =>
      rw [Attempt.bind_of_ok h]
      exact htrans s after _ (ha.of_ok h) (hf s x after h)

theorem Moves.bind {R : σ → σ → Prop} (htrans : ∀ s t u, R s t → R t u → R s u)
    {a : Attempt σ α} {f : α → Attempt σ β} (ha : a.Moves R) (hf : ∀ x, (f x).Moves R) :
    (a >>= f).Moves R :=
  ha.bind_of_ok htrans fun _ x after _ => hf x after

theorem onError_of_ok {a : Attempt σ α} {f : σ → σ} {s after : σ} {x : α}
    (h : a s = .ok x after) : a.onError f s = .ok x after := by
  rw [onError, h]

end Attempt

/-! ## Windows -/

theorem Mapping.attempt_of_ok {α : Type} {m : Mapping} {a : Attempt (Region m.size) α}
    {files : Files} {x : α} {r : Region m.size} (h : a (files.view m) = .ok x r) :
    m.attempt a files = .ok x (files.commit m r) := by
  rw [Mapping.attempt, h]

theorem Mapping.attempt_of_error {α : Type} {m : Mapping} {a : Attempt (Region m.size) α}
    {files : Files} {e : Error} {r : Region m.size} (h : a (files.view m) = .error e r) :
    m.attempt a files = .error e (files.commit m r) := by
  rw [Mapping.attempt, h]

theorem Mapping.attempt_eq_ok_iff {α : Type} {m : Mapping} {a : Attempt (Region m.size) α}
    {files after : Files} {x : α} :
    m.attempt a files = .ok x after ↔
      ∃ r, a (files.view m) = .ok x r ∧ after = files.commit m r := by
  unfold Mapping.attempt
  cases h : a (files.view m) with
  | ok y r => simp [eq_comm, and_assoc]
  | error e r => simp

theorem Mapping.attempt_eq_error_iff {α : Type} {m : Mapping} {a : Attempt (Region m.size) α}
    {files after : Files} {e : Error} :
    m.attempt a files = .error e after ↔
      ∃ r, a (files.view m) = .error e r ∧ after = files.commit m r := by
  unfold Mapping.attempt
  cases h : a (files.view m) with
  | ok y r => simp
  | error e' r => simp [eq_comm, and_assoc]

theorem Mapping.require_eq_ok_iff {m : Mapping} {size : Nat} :
    m.require size = .ok () ↔ size ≤ m.size := by
  unfold require
  split <;> simp <;> omega

theorem Mapping.require_eq_error_iff {m : Mapping} {size : Nat} {e : Error} :
    m.require size = .error e ↔ m.size < size ∧ e = .regionTooSmall m.path size m.size := by
  unfold require
  split <;> simp [*, eq_comm]

theorem Mapping.requireWord_of_le {m : Mapping} {width offset : Nat} (haligned : offset % width = 0)
    (hfits : offset + width ≤ m.size) (cause : ConfigError) :
    m.requireWord width offset cause = .ok () := if_pos ⟨haligned, hfits⟩

theorem Mapping.perform_attempt {α : Type} (m : Mapping) (a : Attempt (Region m.size) α)
    (files : Files) :
    ((m.attempt a).perform files).2 = files.commit m (a.perform (files.view m)).2 := by
  rw [Attempt.perform, Attempt.perform, EStateM.run, EStateM.run, Mapping.attempt]
  cases a (files.view m) <;> rfl

namespace Files

@[simp] theorem view_commit_self (files : Files) (m : Mapping) (r : Region m.size) :
    (files.commit m r).view m = r := by
  simp [view_commit]

theorem putEntry_putEntry {α β : Type} [BEq α] [LawfulBEq α] (key : α) (value before : β)
    (entries : List (α × β)) :
    putEntry key value (putEntry key before entries) = putEntry key value entries := by
  induction entries with
  | nil => simp [putEntry]
  | cons entry rest ih =>
      cases h : entry.1 == key with
      | true => simp [putEntry, h]
      | false => simp [putEntry, h, ih]

/-- Of two regions written back through one window the second stays. -/
@[simp] theorem commit_commit (files : Files) (m : Mapping) (r s : Region m.size) :
    (files.commit m r).commit m s = files.commit m s := by
  simp [commit, put, file, get?, lookup_putEntry, putEntry_putEntry]

theorem file_commit_of_ne {files : Files} {m : Mapping} {r : Region m.size} {l : Location}
    (h : l ≠ m.location) : (files.commit m r).file l = files.file l := by
  rw [file, file, commit, get?_put, if_neg h]

/-- Writing a region back as it is changes no file. -/
theorem file_commit_view (files : Files) (m : Mapping) (l : Location) :
    (files.commit m (files.view m)).file l = files.file l := by
  by_cases h : l = m.location
  · rw [file, commit, get?_put, if_pos h, h]
    rfl
  · exact file_commit_of_ne h

theorem view_eq_of_file_eq {files after : Files} {m : Mapping}
    (h : after.file m.location = files.file m.location) : after.view m = files.view m := by
  rw [view, view, h]

end Files

end Columnlet
