/-! # Computations in place

A computation works on a state and may fail. What it has changed by then stays changed, and what
would have followed is not done. A computation that cannot fail is done for the members of a list
one after another, each on the state that the one before has left.
-/

namespace CodeMap.InPlace

variable {ε σ α β : Type} {x : ExceptT ε (StateM σ) α} {f : α → ExceptT ε (StateM σ) β}
  {s next : σ}

theorem run_bind_of_ok {a : α} (h : x.run s = (.ok a, next)) :
    (x >>= f).run s = (f a).run next := by
  rw [ExceptT.run_bind]
  simp only [bind, StateT.bind, h]

/-- What a computation has done before it failed is done. -/
theorem run_bind_of_error {e : ε} (h : x.run s = (.error e, next)) :
    (x >>= f).run s = (.error e, next) := by
  rw [ExceptT.run_bind]
  simp only [bind, StateT.bind, h]
  rfl

/-! ## Without failures -/

variable {step : α → StateM σ β} {a : α} {b : β} {rest : List α} {results : List β} {last : σ}

theorem run_bind {x : StateM σ α} (h : x.run s = (a, next)) :
    (x >>= step).run s = (step a).run next := by
  rw [StateT.run_bind, h]
  rfl

theorem run_mapM_nil (step : α → StateM σ β) (s : σ) : (List.mapM step []).run s = ([], s) := rfl

theorem run_mapM_cons (hstep : (step a).run s = (b, next))
    (hrest : (rest.mapM step).run next = (results, last)) :
    ((a :: rest).mapM step).run s = (b :: results, last) := by
  rw [List.mapM_cons, run_bind hstep, run_bind hrest]
  rfl

end CodeMap.InPlace
