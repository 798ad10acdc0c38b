/-!
# Steps one after the other

Reading tokens, executing instructions and acting on the console are all made of steps that change a
state and may fail. These lemmas take a sequence of steps apart and put one together.
-/

namespace IonLang

variable {ε σ α β : Type} {p : EStateM ε σ α} {s s' : σ}

theorem bind_ok {f : α → EStateM ε σ β} {b : β} (h : (p >>= f) s = .ok b s') :
    ∃ a s₁, p s = .ok a s₁ ∧ f a s₁ = .ok b s' := by
  simp only [Bind.bind, EStateM.bind] at h
  split at h
  · next a s₁ read => exact ⟨a, s₁, read, h⟩
  · cases h

theorem bind_error {f : α → EStateM ε σ β} {e : ε} (h : (p >>= f) s = .error e s') :
    p s = .error e s' ∨ ∃ a s₁, p s = .ok a s₁ ∧ f a s₁ = .error e s' := by
  simp only [Bind.bind, EStateM.bind] at h
  split at h
  · next a s₁ done => exact .inr ⟨a, s₁, done, h⟩
  · next stopped =>
    cases h
    exact .inl stopped

theorem bind_run {f : α → EStateM ε σ β} {a : α} (h : p s = .ok a s') : (p >>= f) s = f a s' := by
  simp only [Bind.bind, EStateM.bind, h]

theorem map_run {f : α → β} {a : α} (h : p s = .ok a s') : (f <$> p) s = .ok (f a) s' := by
  simp only [Functor.map, EStateM.map, h]

theorem map_ok {f : α → β} {b : β} (h : (f <$> p) s = .ok b s') : ∃ a, p s = .ok a s' ∧ f a = b := by
  simp only [Functor.map, EStateM.map] at h
  split at h
  · next a s₁ read => cases h; exact ⟨a, read, rfl⟩
  · cases h

theorem eq_ok_of_toOption {x : Except ε α} {a : α} (h : x.toOption = some a) : x = .ok a := by
  cases x with
  | error e => cases h
  | ok b => exact congrArg Except.ok (Option.some.inj h)

end IonLang
