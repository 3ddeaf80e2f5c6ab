/-
# Pools of objects

The objects that a program has made and not destroyed yet, under the names it has for them.
What holds of every object of a pool still does after one of them is replaced by an object it
holds of, and after one is dropped.
-/
import Mathlib.Data.List.Basic
import Mathlib.Logic.Function.Basic

namespace InternetProgramming.Interaction

/-- Objects under their names. -/
abbrev Pool (σ : Type) := ℕ → Option σ

namespace Pool

variable {σ : Type} {p : Pool σ} {P : σ → Prop} {i : ℕ} {x : σ}

/-- No objects. -/
def empty : Pool σ := fun _ => none

/-- The pool with `x` under the name `i`, in place of what was there. -/
def put (p : Pool σ) (i : ℕ) (x : σ) : Pool σ := Function.update p i (some x)

/-- The pool with nothing under the name `i`. -/
def drop (p : Pool σ) (i : ℕ) : Pool σ := Function.update p i none

theorem put_self : p.put i x i = some x := Function.update_self _ _ _

/-- `P` holds of every object. -/
def All (P : σ → Prop) (p : Pool σ) : Prop := ∀ i x, p i = some x → P x

theorem All.empty : All P (empty : Pool σ) := by
  intro i x hx
  cases hx

theorem All.put (h : All P p) (hx : P x) : All P (p.put i x) := by
  intro j y hy
  by_cases hj : j = i
  · rw [hj, put_self] at hy
    exact Option.some.inj hy ▸ hx
  · rw [Pool.put, Function.update_of_ne hj] at hy
    exact h j y hy

theorem All.drop (h : All P p) : All P (p.drop i) := by
  intro j y hy
  by_cases hj : j = i
  · rw [hj, Pool.drop, Function.update_self] at hy
    cases hy
  · rw [Pool.drop, Function.update_of_ne hj] at hy
    exact h j y hy

end Pool

end InternetProgramming.Interaction
