/-
# Registries: sets edited one element at a time

A family of sets, indexed by `κ`, that is edited by adding and removing single elements.
`registered` is its meaning as the result of all the edits in order; `mem_registered_iff`
says the same thing without an order: an element is in a set exactly when the last edit of
that element in that set was an addition.  In particular an edit of one set or of another
element has no bearing on it.
-/
import Mathlib.Data.List.Induction
import Mathlib.Data.Set.Insert
import Mathlib.Logic.Function.Basic

namespace InternetProgramming.Interaction

variable {κ α : Type}

/-- One edit of the family. -/
inductive Edit (κ α : Type) where
  | add (k : κ) (a : α)
  | remove (k : κ) (a : α)
deriving DecidableEq

/-- What the edit does to the family `R`. -/
def Edit.apply [DecidableEq κ] (R : κ → Set α) : Edit κ α → κ → Set α
  | .add k a => Function.update R k (insert a (R k))
  | .remove k a => Function.update R k (R k \ {a})

/-- The family after the edits `es`, starting with empty sets. -/
def registered [DecidableEq κ] (es : List (Edit κ α)) : κ → Set α := es.foldl Edit.apply fun _ => ∅

/-- What the edit says about the element `a` of the set `k`: added, removed, or nothing. -/
def Edit.about [DecidableEq κ] [DecidableEq α] (k : κ) (a : α) : Edit κ α → Option Bool
  | .add k' a' => if k' = k ∧ a' = a then some true else none
  | .remove k' a' => if k' = k ∧ a' = a then some false else none

/-- The last edit of the element `a` of the set `k`, if there was one: `true` for an
addition, `false` for a removal. -/
def lastEdit [DecidableEq κ] [DecidableEq α] (k : κ) (a : α) (es : List (Edit κ α)) : Option Bool :=
  (es.filterMap (Edit.about k a)).getLast?

variable [DecidableEq κ]

@[simp] theorem registered_nil (k : κ) : registered ([] : List (Edit κ α)) k = ∅ := rfl

@[simp] theorem registered_append_singleton (es : List (Edit κ α)) (e : Edit κ α) :
    registered (es ++ [e]) = e.apply (registered es) := by
  simp [registered]

variable [DecidableEq α]

theorem lastEdit_append_singleton (k : κ) (a : α) (es : List (Edit κ α)) (e : Edit κ α) :
    lastEdit k a (es ++ [e]) = (e.about k a).or (lastEdit k a es) := by
  simp only [lastEdit, List.filterMap_append, List.getLast?_append]
  cases h : e.about k a <;> simp [h]

/-- One edit, seen from one element of one set. -/
theorem mem_apply_iff {R : κ → Set α} {e : Edit κ α} {k : κ} {a : α} :
    a ∈ e.apply R k ↔ match e.about k a with | some b => b = true | none => a ∈ R k := by
  cases e with
  | add k' a' =>
    by_cases hk : k' = k
    · subst hk
      by_cases ha : a' = a
      · simp [Edit.apply, Edit.about, ha]
      · simp [Edit.apply, Edit.about, ha, Ne.symm ha]
    · simp [Edit.apply, Edit.about, hk, Function.update_of_ne (Ne.symm hk)]
  | remove k' a' =>
    by_cases hk : k' = k
    · subst hk
      by_cases ha : a' = a
      · simp [Edit.apply, Edit.about, ha]
      · simp [Edit.apply, Edit.about, ha, Ne.symm ha]
    · simp [Edit.apply, Edit.about, hk, Function.update_of_ne (Ne.symm hk)]

/-- **The last edit decides.** -/
theorem mem_registered_iff {es : List (Edit κ α)} {k : κ} {a : α} :
    a ∈ registered es k ↔ lastEdit k a es = some true := by
  induction es using List.reverseRecOn with
  | nil => simp [lastEdit]
  | append_singleton es e ih =>
    rw [registered_append_singleton, lastEdit_append_singleton, mem_apply_iff]
    cases e.about k a with
    | some b => simp
    | none => simp [ih]

end InternetProgramming.Interaction
