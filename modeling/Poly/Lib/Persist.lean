import Poly.Lib.Reader

/-! Programs that may stop with an error and whose state stays as it is at that point. -/
namespace Poly.Lib

variable {ε σ α β : Type}

abbrev Persist (ε σ : Type) := ExceptT ε (StateM σ)

namespace Persist

/-- The outcome of a run together with the state that it leaves, also when it stops. -/
def runFrom (x : Persist ε σ α) (s : σ) : Except ε α × σ := x.run.run s

/-- A computation that does not touch the state. -/
def lift (r : Except ε α) : Persist ε σ α := ExceptT.mk (pure r)

/-- The same program with its outcome changed. -/
def mapOutcome (f : Except ε α → Except ε β) (x : Persist ε σ α) : Persist ε σ β :=
  ExceptT.mk (f <$> x.run)

variable {x : Persist ε σ α} {f : α → Persist ε σ β} {s t u : σ}

@[simp] theorem runFrom_pure (a : α) (s : σ) : runFrom (pure a : Persist ε σ α) s = (.ok a, s) := rfl

@[simp] theorem runFrom_lift (r : Except ε α) (s : σ) : runFrom (lift r) s = (r, s) := rfl

@[simp] theorem runFrom_get (s : σ) : runFrom (get : Persist ε σ σ) s = (.ok s, s) := rfl

@[simp] theorem runFrom_modify (g : σ → σ) (s : σ) :
    runFrom (modify g : Persist ε σ Unit) s = (.ok (), g s) := rfl

@[simp] theorem runFrom_mapOutcome (g : Except ε α → Except ε β) (x : Persist ε σ α) (s : σ) :
    runFrom (mapOutcome g x) s = (g (runFrom x s).1, (runFrom x s).2) := rfl

theorem runFrom_bind_of_ok {a : α} (h : runFrom x s = (.ok a, t)) :
    runFrom (x >>= f) s = runFrom (f a) t := by
  change (ExceptT.run (x >>= f)).run s = _
  simp only [runFrom] at h ⊢
  rw [ExceptT.run_bind, StateT.run_bind, h]
  rfl

theorem runFrom_bind_of_error {e : ε} (h : runFrom x s = (.error e, t)) :
    runFrom (x >>= f) s = (.error e, t) := by
  change (ExceptT.run (x >>= f)).run s = _
  simp only [runFrom] at h
  rw [ExceptT.run_bind, StateT.run_bind, h]
  rfl

/-- A sequence stops in its first part, or goes on from the state that the first part leaves. -/
theorem runFrom_bind {r : Except ε β} :
    runFrom (x >>= f) s = (r, u) ↔
      (∃ e, r = .error e ∧ runFrom x s = (.error e, u)) ∨
        ∃ a t, runFrom x s = (.ok a, t) ∧ runFrom (f a) t = (r, u) := by
  cases hx : runFrom x s with
  | mk res t =>
    cases res with
    | error e =>
      rw [runFrom_bind_of_error hx]
      constructor
      · intro h
        cases h
        exact .inl ⟨e, rfl, rfl⟩
      · rintro (⟨e', rfl, h⟩ | ⟨a, t', h, -⟩)
        · cases h
          rfl
        · cases h
    | ok a =>
      rw [runFrom_bind_of_ok hx]
      constructor
      · intro h
        exact .inr ⟨a, t, rfl, h⟩
      · rintro (⟨e, -, h⟩ | ⟨a', t', h, hf⟩)
        · cases h
        · cases h
          exact hf

/-- Where the first part does not touch the state. -/
theorem runFrom_lift_bind {r : Except ε α} {r' : Except ε β}
    (h : runFrom (lift r >>= f) s = (r', u)) :
    (∃ e, r = .error e ∧ r' = .error e ∧ u = s) ∨ ∃ a, r = .ok a ∧ runFrom (f a) s = (r', u) := by
  cases r with
  | error e =>
    cases h
    exact .inl ⟨e, rfl, rfl, rfl⟩
  | ok a => exact .inr ⟨a, rfl, h⟩

theorem runFrom_failIf_bind {c : Prop} [Decidable c] {e : ε} {f : Unit → Persist ε σ β}
    {r : Except ε β} (h : runFrom (failIf c e >>= f) s = (r, u)) :
    (c ∧ r = .error e ∧ u = s) ∨ ¬ c ∧ runFrom (f ()) s = (r, u) := by
  unfold failIf at h
  split at h
  · cases h
    exact .inl ⟨‹_›, rfl, rfl⟩
  · exact .inr ⟨‹_›, h⟩

end Persist

end Poly.Lib
