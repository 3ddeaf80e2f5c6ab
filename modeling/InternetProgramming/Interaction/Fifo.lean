/-
# Segmented streams

A byte stream has no message boundaries.  A sender puts blocks in, a receiver takes blocks
out, and the two cut the stream at different places.

* `flow_conserved`: what was put is what was taken and what is still pending, in order.
* `segments_full`: if every block taken is as long as the message it is meant to be, then
  nothing was cut short on either side, and the blocks ARE the messages.  Only lengths are
  compared; the contents follow.
* `flatMap_eq_iff`: two outputs that agree as a whole agree step by step, if one of them never
  writes less than the other.
-/
import InternetProgramming.Interaction.Trace
import Mathlib.Data.List.Forall2

namespace InternetProgramming.Interaction

variable {α : Type}

/-! ## 1. Conservation -/

/-- What an entry of a trace does to a stream. -/
inductive Flow (α : Type) where
  | put (xs : List α)
  | take (xs : List α)
  | idle

/-- One step of a stream whose pending elements are `q`. -/
def Flow.Step : List α → Flow α → List α → Prop
  | q, .put xs, q' => q' = q ++ xs
  | q, .take xs, q' => q = xs ++ q'
  | q, .idle, q' => q' = q

/-- Everything put into the stream. -/
def putAll (fs : List (Flow α)) : List α :=
  fs.flatMap fun f => match f with | .put xs => xs | _ => []

/-- Everything taken out of the stream. -/
def takenAll (fs : List (Flow α)) : List α :=
  fs.flatMap fun f => match f with | .take xs => xs | _ => []

/-- **Nothing is lost or reordered.** -/
theorem flow_conserved : ∀ {fs : List (Flow α)} {q q' : List α},
    Path Flow.Step q fs q' → q ++ putAll fs = takenAll fs ++ q'
  | [], q, q', h => by
    obtain rfl : q' = q := h
    simp [putAll, takenAll]
  | .put xs :: fs, q, q', ⟨q₁, h₁, h₂⟩ => by
    obtain rfl : q₁ = q ++ xs := h₁
    have ih := flow_conserved h₂
    simpa [putAll, takenAll] using ih
  | .take xs :: fs, q, q', ⟨q₁, h₁, h₂⟩ => by
    obtain rfl : q = xs ++ q₁ := h₁
    have ih := flow_conserved h₂
    simpa [putAll, takenAll] using ih
  | .idle :: fs, q, q', ⟨q₁, h₁, h₂⟩ => by
    obtain rfl : q₁ = q := h₁
    have ih := flow_conserved h₂
    simpa [putAll, takenAll] using ih

/-! ## 2. Segments -/

/-- Prefixes of the messages are no longer than the messages, in total. -/
theorem length_flatten_le {as ms : List (List α)} (h : List.Forall₂ (· <+: ·) as ms) :
    as.flatten.length ≤ ms.flatten.length := by
  induction h with
  | nil => exact Nat.le_refl _
  | cons hp h ih =>
    simp only [List.flatten_cons, List.length_append]
    exact Nat.add_le_add hp.length_le ih

/-- Blocks that are prefixes of the messages, and as long in total, are the messages. -/
theorem eq_of_forall₂_prefix {as ms : List (List α)} (h : List.Forall₂ (· <+: ·) as ms)
    (hlen : ms.flatten.length ≤ as.flatten.length) : as = ms := by
  induction h with
  | nil => rfl
  | cons hp h ih =>
    have hhead := hp.length_le
    have hrest := length_flatten_le h
    simp only [List.flatten_cons, List.length_append] at hlen
    rw [hp.eq_of_length (by omega), ih (by omega)]

/-- **Full blocks are the messages.**  `as` are the prefixes of the messages `ms` that went
into the stream, `rs` the blocks that came out of it.  If every block is as long as its
message, both cuts are the cut into messages. -/
theorem segments_full {ms as rs : List (List α)} (ha : List.Forall₂ (· <+: ·) as ms)
    (hr : rs.map List.length = ms.map List.length) (hp : rs.flatten <+: as.flatten) :
    as = ms ∧ rs = ms := by
  have hlen : rs.flatten.length = ms.flatten.length := by
    rw [List.length_flatten, List.length_flatten, hr]
  have has : as = ms := eq_of_forall₂_prefix ha (hlen ▸ hp.length_le)
  subst has
  exact ⟨rfl, List.eq_iff_flatten_eq.mpr ⟨hp.eq_of_length hlen, hr⟩⟩

/-! ## 3. Two outputs of the same steps -/

theorem length_flatMap_le {β : Type} {f g : β → List α} {l : List β}
    (h : ∀ x ∈ l, (g x).length ≤ (f x).length) :
    (l.flatMap g).length ≤ (l.flatMap f).length := by
  induction l with
  | nil => exact Nat.le_refl _
  | cons x l ih =>
    obtain ⟨hx, hl⟩ := List.forall_mem_cons.mp h
    simp only [List.flatMap_cons, List.length_append]
    exact Nat.add_le_add hx (ih hl)

/-- **Two outputs agree as a whole only if they agree step by step**, where no step of the one
writes less than the same step of the other. -/
theorem flatMap_eq_iff {β : Type} {f g : β → List α} {l : List β}
    (h : ∀ x ∈ l, (g x).length ≤ (f x).length) :
    l.flatMap f = l.flatMap g ↔ ∀ x ∈ l, f x = g x := by
  induction l with
  | nil => simp
  | cons x l ih =>
    obtain ⟨hx, hl⟩ := List.forall_mem_cons.mp h
    rw [List.forall_mem_cons, ← ih hl, List.flatMap_cons, List.flatMap_cons]
    constructor
    · intro heq
      have hlen := congrArg List.length heq
      have hle := length_flatMap_le hl
      simp only [List.length_append] at hlen
      exact List.append_inj heq (by omega)
    · rintro ⟨h₁, h₂⟩
      rw [h₁, h₂]

end InternetProgramming.Interaction
