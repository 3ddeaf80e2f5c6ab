/-
# Dense tables, and a sweep over one

An array whose first cells are in use.  A new element goes behind them, and one is taken out by
moving the last into its place.  A loop that visits all elements and takes some of them out stays
where it has taken one out: what has been moved there is still to be visited.

* `lastFirst b`: the elements behind the place, once the last of them has moved into it.
* `cells_set`: what one store and one decrement make of the array.
* `Sweep`: the visits of such a loop.  Whatever they take out and add, each element that was in the
  table or was added is visited once (`Sweep.perm`).
-/
import InternetProgramming.Interaction.Trace
import Mathlib.Data.List.Induction

namespace InternetProgramming.Interaction

variable {α β : Type} {x y : α} {a b rest : List α}

/-! ## 1. Taking an element out -/

/-- The last element comes first. -/
def lastFirst (b : List α) : List α := b.getLast?.toList ++ b.dropLast

@[simp] theorem lastFirst_nil : lastFirst ([] : List α) = [] := rfl

@[simp] theorem lastFirst_concat : lastFirst (b ++ [y]) = y :: b := by
  rw [lastFirst, List.getLast?_concat, List.dropLast_concat]
  rfl

theorem lastFirst_perm (b : List α) : (lastFirst b).Perm b := by
  induction b using List.reverseRecOn with
  | nil => exact .refl _
  | append_singleton b y _ =>
    rw [lastFirst_concat]
    exact (List.perm_append_singleton y b).symm

@[simp] theorem mem_lastFirst : x ∈ lastFirst b ↔ x ∈ b := (lastFirst_perm b).mem_iff

theorem map_lastFirst (f : α → β) (b : List α) : (lastFirst b).map f = lastFirst (b.map f) := by
  induction b using List.reverseRecOn with
  | nil => rfl
  | append_singleton b y _ => simp

/-- The array after the last element has been stored in the place of `x`.  The table ends one cell
earlier, where the last element still is. -/
theorem cells_set (x : α) (a b c : List α) :
    (a ++ x :: b ++ c).set a.length ((x :: b).getLast (List.cons_ne_nil x b)) =
      a ++ lastFirst b ++ (x :: b).getLast (List.cons_ne_nil x b) :: c := by
  induction b using List.reverseRecOn with
  | nil => simp
  | append_singleton b y _ =>
    rw [List.getLast_cons (by simp), List.getLast_append_singleton, lastFirst_concat]
    simp

/-- Where the last element is. -/
theorem getElem?_last (x : α) (a b c : List α) :
    (a ++ x :: b ++ c)[a.length + b.length]? = some ((x :: b).getLast (List.cons_ne_nil x b)) := by
  rw [List.append_assoc, List.getElem?_append_right (Nat.le_add_right _ _), Nat.add_sub_cancel_left,
    List.getElem?_append_left (by simp), List.getLast_eq_getElem]
  simp

/-! ## 2. Sweeps -/

/-- What a visit does: it leaves the element, takes it out, or adds another one. -/
inductive Visit (α : Type) where
  | keep (x : α)
  | drop (x : α)
  | add (x y : α)

def Visit.visited : Visit α → α
  | .keep x | .drop x | .add x _ => x

def Visit.added : Visit α → List α
  | .keep _ | .drop _ => []
  | .add _ y => [y]

/-- A visit, with the elements that are left before and after it. -/
inductive Sweep : List α → Visit α → List α → Prop
  | keep (x : α) (rest : List α) : Sweep (x :: rest) (.keep x) rest
  | drop (x : α) (rest : List α) : Sweep (x :: rest) (.drop x) (lastFirst rest)
  | add (x y : α) (rest : List α) : Sweep (x :: rest) (.add x y) (rest ++ [y])

theorem Sweep.perm_step {visit : Visit α} (h : Sweep a visit b) :
    (visit.visited :: b).Perm (a ++ visit.added) := by
  cases h with
  | keep x => rw [Visit.added, List.append_nil]; rfl
  | drop x rest =>
    rw [Visit.added, List.append_nil]
    exact (lastFirst_perm rest).cons x
  | add x y rest => exact .refl _

/-- **Each element is visited once**: those that have been visited and those that are left are those
that were there and those that were added. -/
theorem Sweep.perm {visits : List (Visit α)} (h : Path Sweep a visits rest) :
    (visits.map Visit.visited ++ rest).Perm (a ++ visits.flatMap Visit.added) := by
  induction visits generalizing a with
  | nil =>
    rw [h]
    simp
  | cons visit visits ih =>
    obtain ⟨b, hstep, hpath⟩ := h
    have hrest := (ih hpath).cons visit.visited
    have hvisit := hstep.perm_step.append_right (visits.flatMap Visit.added)
    rw [List.flatMap_cons, ← List.append_assoc]
    exact hrest.trans hvisit

end InternetProgramming.Interaction
