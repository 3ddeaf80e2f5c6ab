/-
# Slot tables

A fixed number of slots that hold handles, where `0` marks a free slot.  A new handle takes
the first free slot; a handle is dropped by zeroing the slot that holds it.  The table is
meant to hold the set of live handles, each in one slot.

* `Holds slots H`: whatever is in the table is in `H`, and nothing is there twice.  Claiming
  and freeing keep this, whatever the table looks like.
* `missing slots H`: what is in `H` and in no slot.  Freeing does not change it; claiming
  adds to it exactly when no slot is free, and then the handle is missing for good.
-/
import Mathlib.Data.Finset.Basic
import Mathlib.Data.List.Count
import Mathlib.Data.List.GetD

namespace InternetProgramming.Interaction

variable {α : Type} [DecidableEq α] {a b : α} {slots : List α} {H : Finset α}

/-- The live handles that are in no slot. -/
def missing (slots : List α) (H : Finset α) : Finset α := H.filter fun a => a ∉ slots

theorem mem_missing : a ∈ missing slots H ↔ a ∈ H ∧ a ∉ slots := Finset.mem_filter

variable [Zero α]

/-- The first free slot takes the handle; without one nothing happens. -/
def claim (a : α) : List α → List α
  | [] => []
  | x :: slots => if x = 0 then a :: slots else x :: claim a slots

/-! ## 1. Counting -/

/-- How often a handle is in the table after a claim. -/
theorem count_claim (hb : b ≠ 0) (slots : List α) :
    (claim a slots).count b = slots.count b + if a = b ∧ 0 ∈ slots then 1 else 0 := by
  induction slots with
  | nil => simp [claim]
  | cons x slots ih =>
    unfold claim
    by_cases hx : x = 0
    · subst hx
      simp [List.count_cons, hb.symm]
    · rw [if_neg hx, List.count_cons, List.count_cons, ih]
      have hmem : (0 : α) ∈ x :: slots ↔ 0 ∈ slots := by simp [Ne.symm hx]
      simp only [hmem]
      omega

/-- How often it was there before its slot was freed. -/
theorem count_set_zero (hb : b ≠ 0) (slots : List α) (i : ℕ) :
    slots.count b = (slots.set i 0).count b + if slots.getD i 0 = b then 1 else 0 := by
  induction slots generalizing i with
  | nil => simp [hb.symm]
  | cons x slots ih =>
    cases i with
    | zero => simp [List.count_cons, hb.symm]
    | succ i =>
      have hrest := ih i
      simp only [List.set_cons_succ, List.count_cons, List.getD_cons_succ]
      omega

theorem mem_claim (hb : b ≠ 0) : b ∈ claim a slots ↔ b ∈ slots ∨ (a = b ∧ 0 ∈ slots) := by
  rw [← List.count_pos_iff, ← List.count_pos_iff (l := slots), count_claim hb]
  split
  · rename_i h
    simp [h]
  · rename_i h
    simp [h]

/-- Claiming for the mark of a free slot does nothing. -/
theorem claim_zero (slots : List α) : claim 0 slots = slots := by
  induction slots with
  | nil => rfl
  | cons x slots ih =>
    unfold claim
    split
    · rename_i hx
      rw [hx]
    · rw [ih]

omit [DecidableEq α] in
/-- What an occupied slot shows is in the table. -/
theorem getD_mem {i : ℕ} (h : slots.getD i 0 ≠ 0) : slots.getD i 0 ∈ slots := by
  rcases Nat.lt_or_ge i slots.length with hi | hi
  · rw [List.getD_eq_getElem _ _ hi]
    exact List.getElem_mem hi
  · exact absurd (List.getD_eq_default _ _ hi) h

/-! ## 2. Holding the live handles -/

/-- The table holds only live handles, and none of them twice. -/
structure Holds (slots : List α) (H : Finset α) : Prop where
  zero : 0 ∉ H
  once : ∀ a, a ≠ 0 → slots.count a ≤ 1
  live : ∀ a ∈ slots, a ≠ 0 → a ∈ H

theorem Holds.ne_zero (h : Holds slots H) (ha : a ∈ H) : a ≠ 0 := fun e => h.zero (e ▸ ha)

/-- Claiming for a new handle. -/
theorem Holds.claim (h : Holds slots H) (h0 : a ≠ 0) (ha : a ∉ H) :
    Holds (claim a slots) (insert a H) := by
  refine ⟨fun hz => ?_, fun b hb => ?_, fun b hb hb0 => ?_⟩
  · rcases Finset.mem_insert.mp hz with hz | hz
    · exact h0 hz.symm
    · exact h.zero hz
  · rw [count_claim hb]
    have hle := h.once b hb
    split
    · rename_i hab
      have hnot : b ∉ slots := fun hmem => ha (hab.1 ▸ h.live b hmem hb)
      rw [List.count_eq_zero_of_not_mem hnot]
    · omega
  · rcases (mem_claim hb0).mp hb with hb | ⟨rfl, -⟩
    · exact Finset.mem_insert_of_mem (h.live b hb hb0)
    · exact Finset.mem_insert_self _ _

/-- **What a claim loses.**  Nothing, if a slot was free; the new handle, if none was. -/
theorem missing_claim (h : Holds slots H) (h0 : a ≠ 0) (ha : a ∉ H) :
    missing (claim a slots) (insert a H) =
      if 0 ∈ slots then missing slots H else insert a (missing slots H) := by
  have hslots : a ∉ slots := fun hmem => ha (h.live a hmem h0)
  ext b
  by_cases hb0 : b = 0
  · subst hb0
    have hz := h.zero
    split <;> simp [mem_missing, hz, h0.symm]
  · rw [mem_missing, mem_claim hb0, Finset.mem_insert]
    by_cases hab : a = b
    · subst hab
      split <;> simp_all [mem_missing]
    · have hba : b ≠ a := Ne.symm hab
      split <;> simp [mem_missing, hab, hba]

/-- Freeing a slot takes the handle in it out of the table. -/
theorem Holds.mem_free (h : Holds slots H) {i : ℕ} (hb : b ≠ 0) :
    b ∈ slots.set i 0 ↔ b ∈ slots ∧ b ≠ slots.getD i 0 := by
  have hcount := count_set_zero hb slots i
  have hle := h.once b hb
  rw [← List.count_pos_iff, ← List.count_pos_iff (l := slots)]
  split at hcount
  · rename_i heq
    simp only [heq, ne_eq, not_true, and_false, iff_false]
    omega
  · rename_i hne
    rw [hcount, Nat.add_zero]
    exact ⟨fun hpos => ⟨hpos, Ne.symm hne⟩, And.left⟩

/-- Freeing a slot drops the handle in it, and loses nothing. -/
theorem Holds.free (h : Holds slots H) {i : ℕ} :
    Holds (slots.set i 0) (H.erase (slots.getD i 0)) ∧
      missing (slots.set i 0) (H.erase (slots.getD i 0)) = missing slots H := by
  refine ⟨⟨fun hz => h.zero (Finset.mem_of_mem_erase hz), fun b hb => ?_, fun b hb hb0 => ?_⟩, ?_⟩
  · have hcount := count_set_zero hb slots i
    have hle := h.once b hb
    omega
  · obtain ⟨hmem, hne⟩ := (h.mem_free hb0).mp hb
    exact Finset.mem_erase.mpr ⟨hne, h.live b hmem hb0⟩
  · ext b
    by_cases hb0 : b = 0
    · subst hb0
      simp [mem_missing, h.zero]
    · rw [mem_missing, mem_missing, h.mem_free hb0, Finset.mem_erase]
      constructor
      · rintro ⟨⟨hne, hmem⟩, hnot⟩
        exact ⟨hmem, fun hin => hnot ⟨hin, hne⟩⟩
      · rintro ⟨hmem, hnot⟩
        refine ⟨⟨fun heq => hnot ?_, hmem⟩, fun hin => hnot hin.1⟩
        -- a handle other than `0` that a slot shows is in the table
        rw [heq]
        rw [heq] at hb0
        exact getD_mem hb0

end InternetProgramming.Interaction
