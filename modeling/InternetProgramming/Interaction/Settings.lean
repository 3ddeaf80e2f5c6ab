/-
# Settings and the writes to them

A bank of settings is a function from names to values; a write replaces the value of one name.
What a list of writes leaves depends on their order only where two of them give one name
different values.  Where all writes of a name agree, the result is read off directly: what was
written to the names that were written, and the old value elsewhere (`settle_apply`).  So such
writes may be reordered, split and repeated.
-/
import Mathlib.Data.List.Basic
import Mathlib.Logic.Function.Basic

namespace InternetProgramming.Interaction

variable {κ ν : Type} [DecidableEq κ] {st : κ → ν} {ws ws' : List (κ × ν)} {val : κ → ν}

/-- The settings after the writes `ws`. -/
def settle (st : κ → ν) (ws : List (κ × ν)) : κ → ν :=
  ws.foldl (fun st w => Function.update st w.1 w.2) st

@[simp] theorem settle_nil : settle st [] = st := rfl

@[simp] theorem settle_cons {w : κ × ν} :
    settle st (w :: ws) = settle (Function.update st w.1 w.2) ws := rfl

/-- Every write gives its name the value `val` has for it. -/
def Agree (val : κ → ν) (ws : List (κ × ν)) : Prop := ∀ w ∈ ws, w.2 = val w.1

/-- **What agreeing writes leave.** -/
theorem settle_apply (h : Agree val ws) (k : κ) :
    settle st ws k = if k ∈ ws.map Prod.fst then val k else st k := by
  induction ws generalizing st with
  | nil => rfl
  | cons w ws ih =>
    obtain ⟨hw, hws⟩ := List.forall_mem_cons.mp h
    rw [settle_cons, ih hws, List.map_cons]
    by_cases hmem : k ∈ ws.map Prod.fst
    · rw [if_pos hmem, if_pos (List.mem_cons_of_mem _ hmem)]
    · by_cases hk : k = w.1
      · subst hk
        rw [if_neg hmem, if_pos List.mem_cons_self, Function.update_self, hw]
      · rw [if_neg hmem, if_neg (by simp [hk, hmem]), Function.update_of_ne hk]

/-- Agreeing writes to the same names leave the same settings. -/
theorem settle_congr (h : Agree val ws) (h' : Agree val ws')
    (hkeys : ∀ k, k ∈ ws.map Prod.fst ↔ k ∈ ws'.map Prod.fst) : settle st ws = settle st ws' := by
  funext k
  rw [settle_apply h, settle_apply h']
  simp only [hkeys]

end InternetProgramming.Interaction
