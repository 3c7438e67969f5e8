/-
Reading back how something succeeded.

Loads, key changes and settings are computed in steps of which each may be refused.
That such a computation succeeded says that its first step did, and the rest after it;
proofs take the steps apart with this and never by cases on every step.
-/
set_option autoImplicit false

namespace ChipEight

variable {ε δ α β : Type}

/-- Two steps succeed exactly when the first does, and the second with its result. -/
theorem bind_eq_ok_iff {x : Except ε α} {f : α → Except ε β} {b : β} :
    (x >>= f) = .ok b ↔ ∃ a, x = .ok a ∧ f a = .ok b := by
  rcases x with e | a
  · simp [bind, Except.bind]
  · simp [bind, Except.bind]

/-- A result that something becomes of is the image of the one before. -/
theorem map_eq_ok_iff {x : Except ε α} {f : α → β} {b : β} :
    x.map f = .ok b ↔ ∃ a, x = .ok a ∧ b = f a := by
  rcases x with e | a
  · simp [Except.map]
  · simp [Except.map, eq_comm]

/-- What becomes of a result changes no error. -/
theorem map_eq_error_iff {x : Except ε α} {f : α → β} {e : ε} :
    x.map f = .error e ↔ x = .error e := by
  rcases x with d | a
  · simp [Except.map]
  · simp [Except.map]

/-- What every step keeps is kept by all of them, if none is refused. -/
theorem foldlM_invariant {f : β → α → Except ε β} (P : β → Prop)
    (hstep : ∀ {b a b'}, P b → f b a = .ok b' → P b') :
    ∀ {l : List α} {b b' : β}, P b → l.foldlM f b = .ok b' → P b'
  | [], b, b', hb, h => by
    cases h
    exact hb
  | a :: l, b, b', hb, h => by
    obtain ⟨next, hnext, hrest⟩ := bind_eq_ok_iff.mp h
    exact foldlM_invariant P hstep (hstep hb hnext) hrest

/-- Another wording of the errors changes no success. -/
theorem mapError_eq_ok_iff {x : Except ε α} {f : ε → δ} {a : α} :
    x.mapError f = .ok a ↔ x = .ok a := by
  rcases x with e | b
  · constructor
    · rintro ⟨⟩
    · rintro ⟨⟩
  · constructor
    · rintro ⟨⟩
      rfl
    · rintro ⟨⟩
      rfl

/-- And every error is the new wording of an old one. -/
theorem mapError_eq_error_iff {x : Except ε α} {f : ε → δ} {d : δ} :
    x.mapError f = .error d ↔ ∃ e, x = .error e ∧ d = f e := by
  rcases x with e | b
  · constructor
    · rintro ⟨⟩
      exact ⟨e, rfl, rfl⟩
    · rintro ⟨_, ⟨⟩, rfl⟩
      rfl
  · constructor
    · rintro ⟨⟩
    · rintro ⟨_, ⟨⟩, _⟩

end ChipEight
