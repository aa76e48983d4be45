/-!
# What can fail

How a computation that can fail gives what it gives: the parts that it is made of do not fail, or one
of them fails in the same way.
-/

namespace ArchFacts

variable {ε ε' α β : Type} {result first : Except ε α} {next : α → Except ε β} {e : ε} {a : α} {b : β}

/-- What two computations in sequence give, if neither fails. -/
theorem bind_eq_ok :
    first >>= next = .ok b ↔ ∃ a, first = .ok a ∧ next a = .ok b := by
  cases first with
  | error e =>
    refine ⟨fun h => ?_, fun ⟨_, h, _⟩ => ?_⟩
    · cases h
    · cases h
  | ok a => exact ⟨fun h => ⟨a, rfl, h⟩, fun ⟨_, rfl, h⟩ => h⟩

/-- How two computations in sequence fail. -/
theorem bind_eq_error :
    first >>= next = .error e ↔ first = .error e ∨ ∃ a, first = .ok a ∧ next a = .error e := by
  cases first with
  | error e' =>
    refine ⟨fun h => Or.inl (congrArg Except.error (Except.error.inj h)), ?_⟩
    rintro (h | ⟨_, h, _⟩)
    · exact congrArg Except.error (Except.error.inj h)
    · cases h
  | ok a =>
    refine ⟨fun h => Or.inr ⟨a, rfl, h⟩, ?_⟩
    rintro (h | ⟨_, h, hnext⟩)
    · cases h
    · rwa [← Except.ok.inj h] at hnext

theorem map_eq_ok {f : α → β} : result.map f = .ok b ↔ ∃ a, result = .ok a ∧ f a = b := by
  cases result with
  | error e => exact iff_of_false nofun nofun
  | ok a => exact ⟨fun h => ⟨a, rfl, Except.ok.inj h⟩, fun ⟨_, rfl, h⟩ => congrArg Except.ok h⟩

theorem mapError_eq_ok {f : ε → ε'} : result.mapError f = .ok a ↔ result = .ok a := by
  cases result with
  | error e => exact iff_of_false nofun nofun
  | ok a =>
    refine ⟨fun h => ?_, fun h => ?_⟩
    all_goals exact congrArg Except.ok (Except.ok.inj h)

end ArchFacts
