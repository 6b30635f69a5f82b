import StackScript.Machine.Context

/-!
# Computations on a state

Builtins, conversions and operators work in three monads over the same store; `Stateful` says what
they have in common, so that the rules of a judgement on computations are stated once.
-/
namespace StackScript

/-- Computations that change a state with a store in it and can fail. -/
class Stateful (M : Type → Type) [Monad M] [MonadExceptOf Fault M] where
  State : Type
  run {α : Type} : M α → State → Except Fault α × State
  store : State → Store
  run_pure {α : Type} (a : α) (s : State) : run (pure a : M α) s = (.ok a, s)
  run_throw {α : Type} (f : Fault) (s : State) : run (throw f : M α) s = (.error f, s)
  run_bind {α β : Type} (m : M α) (k : α → M β) (s : State) :
    run (m >>= k) s = match run m s with
      | (.ok a, s) => run (k a) s
      | (.error f, s) => (.error f, s)

instance : Stateful StoreM where
  State := Store
  run m s := m s
  store s := s
  run_pure _ _ := rfl
  run_throw _ _ := rfl
  run_bind m k s := by
    simp only [Bind.bind, ExceptT.bind, ExceptT.mk, StateT.bind]
    rcases m s with ⟨r, s⟩
    cases r <;> rfl

instance : Stateful WorldM where
  State := World × Store
  run m s := ((m s.1 s.2).1.1, (m s.1 s.2).1.2, (m s.1 s.2).2)
  store s := s.2
  run_pure _ _ := rfl
  run_throw _ _ := rfl
  run_bind m k s := by
    simp only [Bind.bind, ExceptT.bind, ExceptT.mk, StateT.bind]
    rcases m s.1 s.2 with ⟨⟨r, w⟩, s⟩
    cases r <;> rfl

instance : Stateful Exec where
  State := Context × World × Store
  run m s := ((m s.1 s.2.1 s.2.2).1.1.1, (m s.1 s.2.1 s.2.2).1.1.2, (m s.1 s.2.1 s.2.2).1.2,
    (m s.1 s.2.1 s.2.2).2)
  store s := s.2.2
  run_pure _ _ := rfl
  run_throw _ _ := rfl
  run_bind m k s := by
    simp only [Bind.bind, ExceptT.bind, ExceptT.mk, StateT.bind]
    rcases m s.1 s.2.1 s.2.2 with ⟨⟨⟨r, c⟩, w⟩, s⟩
    cases r <;> rfl

/-! ## Units that are added -/

/-- Units may be added; those that are there stay. -/
def Store.Grows (s s' : Store) : Prop := ∃ more : Array Code, s'.codes = s.codes ++ more

namespace Store.Grows

variable {s s' s'' : Store}

theorem of_codes (h : s'.codes = s.codes) : s.Grows s' := ⟨#[], by simpa using h⟩

theorem trans (first : s.Grows s') (second : s'.Grows s'') : s.Grows s'' := by
  obtain ⟨more, h⟩ := first
  obtain ⟨more', h'⟩ := second
  exact ⟨more ++ more', by rw [h', h, Array.append_assoc]⟩

theorem size_le (h : s.Grows s') : s.codes.size ≤ s'.codes.size := by
  obtain ⟨more, h⟩ := h
  simp [h]

theorem newCode (code : Code) : s.Grows (s.newCode code).2 := ⟨#[code], Array.push_eq_append⟩

end Store.Grows

end StackScript
