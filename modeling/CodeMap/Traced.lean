import CodeMap.Event
import CodeMap.Failure

/-! # Traced computations

A traced computation ends with a value or with an error, and either way it has recorded events.
What follows an error is not done; the events before it remain.
-/

namespace CodeMap

/-- The end of a computation and the events on the way. -/
structure Traced (ε α : Type) where
  result : Except ε α
  events : List Event

/-- A traced computation that may fail. -/
abbrev Attempted (α : Type) := Traced Failure α

namespace Traced

variable {ε δ α β : Type}

instance : Monad (Traced ε) where
  pure a := ⟨.ok a, []⟩
  bind x f := match x.result with
    | .ok a => ⟨(f a).result, x.events ++ (f a).events⟩
    | .error e => ⟨.error e, x.events⟩

@[simp] theorem result_pure (a : α) : (pure a : Traced ε α).result = .ok a := rfl

theorem bind_eq (x : Traced ε α) (f : α → Traced ε β) :
    x >>= f = match x.result with
      | .ok a => ⟨(f a).result, x.events ++ (f a).events⟩
      | .error e => ⟨.error e, x.events⟩ := rfl

theorem result_bind (x : Traced ε α) (f : α → Traced ε β) :
    (x >>= f).result = match x.result with
      | .ok a => (f a).result
      | .error e => .error e := by
  rw [bind_eq]
  split <;> rfl

/-- A computation in two parts has a value if both parts have one. -/
theorem result_bind_eq_ok {x : Traced ε α} {f : α → Traced ε β} {b : β} :
    (x >>= f).result = .ok b ↔ ∃ a, x.result = .ok a ∧ (f a).result = .ok b := by
  rw [result_bind]
  cases x.result with
  | error e => exact ⟨nofun, nofun⟩
  | ok a =>
    constructor
    · exact fun h => ⟨a, rfl, h⟩
    · rintro ⟨_, ha, h⟩
      cases ha
      exact h

/-- Records events. -/
def record (events : List Event) : Traced ε Unit := ⟨.ok (), events⟩

/-- A result without events. -/
def ofExcept (result : Except ε α) : Traced ε α := ⟨result, []⟩

/-- The computation with its error put in other words. -/
def mapError (f : ε → δ) (x : Traced ε α) : Traced δ α :=
  ⟨match x.result with
    | .ok a => .ok a
    | .error e => .error (f e), x.events⟩

@[simp] theorem result_record (events : List Event) :
    (record events : Traced ε Unit).result = .ok () := rfl

@[simp] theorem result_ofExcept (result : Except ε α) : (ofExcept result).result = result := rfl

theorem result_mapError_eq_ok {f : ε → δ} {x : Traced ε α} {a : α} :
    (x.mapError f).result = .ok a ↔ x.result = .ok a := by
  rw [mapError]
  cases x.result with
  | error e => exact ⟨nofun, nofun⟩
  | ok => exact ⟨congrArg _ ∘ Except.ok.inj, congrArg _ ∘ Except.ok.inj⟩

end Traced

end CodeMap
