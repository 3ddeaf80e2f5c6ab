/-
# Ledgers of handles

A resource manager hands out handles and takes them back; a number that was given back may be
handed out again.  So a handle NUMBER says nothing by itself: what counts is the stretch of
the trace between an acquisition of the number and the next acquisition of the same number.

* `held t`: the handles acquired and not yet released after the acts `t`.
* `releases a t`: how often `a` is released before it is handed out again.
* `ReleasedOnce t`: every acquisition is followed by exactly one release of what it acquired.

`releasedOnce_iff` is the main result: where the manager hands out only what is free
(`Fresh`) and the client releases only what it holds (`Owned`), exactly-once is the same as
holding nothing at the end.  The two hypotheses are the manager's promise and the client's
discipline, and neither follows from the other.
-/
import InternetProgramming.Interaction.Trace
import Mathlib.Data.Finset.Basic

namespace InternetProgramming.Interaction

variable {α : Type} [DecidableEq α]

/-- What an entry of a trace means for the handles `α`. -/
inductive Act (α : Type) where
  | acquire (a : α)
  | release (a : α)
  | other
deriving DecidableEq

/-! ## 1. What is held -/

/-- The handles held after one more act. -/
def Act.apply (H : Finset α) : Act α → Finset α
  | .acquire a => insert a H
  | .release a => H.erase a
  | .other => H

/-- The handles held after the acts `t`, starting from `H`. -/
def heldFrom (H : Finset α) (t : List (Act α)) : Finset α := t.foldl Act.apply H

/-- The handles held after the acts `t`, starting with none. -/
abbrev held (t : List (Act α)) : Finset α := heldFrom ∅ t

@[simp] theorem heldFrom_nil (H : Finset α) : heldFrom H [] = H := rfl

@[simp] theorem heldFrom_cons (H : Finset α) (e : Act α) (t : List (Act α)) :
    heldFrom H (e :: t) = heldFrom (e.apply H) t := rfl

@[simp] theorem heldFrom_append (H : Finset α) (t₁ t₂ : List (Act α)) :
    heldFrom H (t₁ ++ t₂) = heldFrom (heldFrom H t₁) t₂ := List.foldl_append

/-! ## 2. The two disciplines -/

/-- The manager hands out only handles that are not held, starting from `H`. -/
def FreshFrom (H : Finset α) (t : List (Act α)) : Prop :=
  Along (fun pre e => ∀ a, e = .acquire a → a ∉ heldFrom H pre) t

/-- The client releases only handles that it holds, starting from `H`. -/
def OwnedFrom (H : Finset α) (t : List (Act α)) : Prop :=
  Along (fun pre e => ∀ a, e = .release a → a ∈ heldFrom H pre) t

theorem freshFrom_cons {H : Finset α} {e : Act α} {t : List (Act α)} :
    FreshFrom H (e :: t) ↔ (∀ a, e = .acquire a → a ∉ H) ∧ FreshFrom (e.apply H) t :=
  along_cons

theorem ownedFrom_cons {H : Finset α} {e : Act α} {t : List (Act α)} :
    OwnedFrom H (e :: t) ↔ (∀ a, e = .release a → a ∈ H) ∧ OwnedFrom (e.apply H) t :=
  along_cons

theorem freshFrom_append {H : Finset α} {t₁ t₂ : List (Act α)} :
    FreshFrom H (t₁ ++ t₂) ↔ FreshFrom H t₁ ∧ FreshFrom (heldFrom H t₁) t₂ := by
  simp only [FreshFrom, along_append, heldFrom_append]

theorem ownedFrom_append {H : Finset α} {t₁ t₂ : List (Act α)} :
    OwnedFrom H (t₁ ++ t₂) ↔ OwnedFrom H t₁ ∧ OwnedFrom (heldFrom H t₁) t₂ := by
  simp only [OwnedFrom, along_append, heldFrom_append]

/-- **The ledger of a path**, where each step tells what it does to the handles. -/
theorem Path.ledger {σ ε : Type} {step : σ → ε → σ → Prop} {I : σ → Prop} (H : σ → Finset α)
    (acts : ε → List (Act α))
    (hI : ∀ s e s', I s → step s e s' → I s' ∧ H s' = heldFrom (H s) (acts e) ∧
      FreshFrom (H s) (acts e) ∧ OwnedFrom (H s) (acts e))
    {es : List ε} {s s' : σ} (h : I s) (hp : Path step s es s') :
    H s' = heldFrom (H s) (es.flatMap acts) ∧
      FreshFrom (H s) (es.flatMap acts) ∧ OwnedFrom (H s) (es.flatMap acts) := by
  induction es generalizing s with
  | nil => exact ⟨congrArg H hp, along_nil, along_nil⟩
  | cons e es ih =>
    obtain ⟨s₁, hs, hp⟩ := hp
    obtain ⟨h₁, hheld, hfresh, howned⟩ := hI s e s₁ h hs
    obtain ⟨hheld', hfresh', howned'⟩ := ih h₁ hp
    rw [List.flatMap_cons, heldFrom_append, ← hheld]
    exact ⟨hheld', freshFrom_append.mpr ⟨hfresh, hheld ▸ hfresh'⟩,
      ownedFrom_append.mpr ⟨howned, hheld ▸ howned'⟩⟩

/-! ## 3. Exactly once -/

/-- How often `a` is released in `t` before it is handed out again. -/
def releases (a : α) : List (Act α) → ℕ
  | [] => 0
  | .acquire b :: t => if b = a then 0 else releases a t
  | .release b :: t => (if b = a then 1 else 0) + releases a t
  | .other :: t => releases a t

/-- Every handle acquired is released exactly once before its number is handed out again. -/
def ReleasedOnce (t : List (Act α)) : Prop :=
  ∀ pre a post, t = pre ++ .acquire a :: post → releases a post = 1

theorem releasedOnce_cons {e : Act α} {t : List (Act α)} :
    ReleasedOnce (e :: t) ↔ (∀ a, e = .acquire a → releases a t = 1) ∧ ReleasedOnce t := by
  constructor
  · intro h
    refine ⟨?_, fun pre a post he => h (e :: pre) a post (by simp [he])⟩
    rintro a rfl
    exact h [] a t rfl
  · rintro ⟨h₁, h₂⟩ pre a post he
    cases pre with
    | nil =>
      obtain ⟨rfl, rfl⟩ : e = .acquire a ∧ t = post := by simpa using he
      exact h₁ a rfl
    | cons d pre =>
      obtain ⟨-, rfl⟩ : e = d ∧ t = pre ++ .acquire a :: post := by simpa using he
      exact h₂ pre a post rfl

/-- A client that releases only what it holds does not release a handle it does not hold. -/
theorem releases_eq_zero {a : α} : ∀ {t : List (Act α)} {H : Finset α},
    a ∉ H → OwnedFrom H t → releases a t = 0
  | [], _, _, _ => rfl
  | .acquire b :: t, H, ha, ho => by
    simp only [releases]
    split
    · rfl
    · rename_i hb
      have ha' : a ∉ insert b H := by simp [ha, Ne.symm hb]
      exact releases_eq_zero ha' (ownedFrom_cons.mp ho).2
  | .release b :: t, H, ha, ho => by
    obtain ⟨h₁, h₂⟩ := ownedFrom_cons.mp ho
    have hb : b ≠ a := fun e => ha (e ▸ h₁ b rfl)
    simp only [releases, if_neg hb, Nat.zero_add]
    exact releases_eq_zero (fun h => ha (Finset.mem_of_mem_erase h)) h₂
  | .other :: t, _, ha, ho => releases_eq_zero (t := t) ha (ownedFrom_cons.mp ho).2

/-- The general form of `releasedOnce_iff`, for an owner that starts with the handles `H`:
those must be released once as well. -/
theorem releasedOnce_from_iff : ∀ {t : List (Act α)} {H : Finset α},
    FreshFrom H t → OwnedFrom H t →
      ((ReleasedOnce t ∧ ∀ a ∈ H, releases a t = 1) ↔ heldFrom H t = ∅)
  | [], H, _, _ => by
    have hnil : ReleasedOnce ([] : List (Act α)) := fun pre a post h => by simp at h
    simp only [hnil, true_and, releases, heldFrom_nil, Finset.eq_empty_iff_forall_notMem]
    exact ⟨fun h a ha => absurd (h a ha) (by simp), fun h a ha => absurd ha (h a)⟩
  | .acquire b :: t, H, hf, ho => by
    obtain ⟨hb, hf'⟩ := freshFrom_cons.mp hf
    have ih := releasedOnce_from_iff (t := t) (H := insert b H) hf' (ownedFrom_cons.mp ho).2
    have hne : ∀ a ∈ H, b ≠ a := fun a ha e => hb b rfl (e ▸ ha)
    rw [heldFrom_cons, Act.apply, ← ih, releasedOnce_cons]
    simp only [Act.acquire.injEq, forall_eq', Finset.forall_mem_insert]
    constructor
    · rintro ⟨⟨h₁, h₂⟩, h₃⟩
      refine ⟨h₂, h₁, fun a ha => ?_⟩
      simpa [releases, hne a ha] using h₃ a ha
    · rintro ⟨h₂, h₁, h₃⟩
      refine ⟨⟨h₁, h₂⟩, fun a ha => ?_⟩
      simpa [releases, hne a ha] using h₃ a ha
  | .release b :: t, H, hf, ho => by
    obtain ⟨hb, ho'⟩ := ownedFrom_cons.mp ho
    have ih := releasedOnce_from_iff (t := t) (H := H.erase b) (freshFrom_cons.mp hf).2 ho'
    -- the one release of `b` is the one just made: it holds `b` no longer
    have hb0 : releases b t = 0 := releases_eq_zero (Finset.notMem_erase b H) ho'
    rw [heldFrom_cons, Act.apply, ← ih, releasedOnce_cons]
    simp only [reduceCtorEq, false_imp_iff, implies_true, true_and]
    refine and_congr_right fun _ => ⟨fun h a ha => ?_, fun h a ha => ?_⟩
    · obtain ⟨hab, haH⟩ := Finset.mem_erase.mp ha
      simpa [releases, Ne.symm hab] using h a haH
    · by_cases hab : b = a
      · subst hab; simp [releases, hb0]
      · simpa [releases, hab] using h a (Finset.mem_erase.mpr ⟨Ne.symm hab, ha⟩)
  | .other :: t, H, hf, ho => by
    have ih := releasedOnce_from_iff (t := t) (H := H) (freshFrom_cons.mp hf).2
      (ownedFrom_cons.mp ho).2
    rw [heldFrom_cons, Act.apply, ← ih, releasedOnce_cons]
    simp [releases]

/-- **Exactly once is holding nothing at the end**, for a manager that hands out only free
handles and a client that releases only its own. -/
theorem releasedOnce_iff {t : List (Act α)} (hf : FreshFrom ∅ t) (ho : OwnedFrom ∅ t) :
    ReleasedOnce t ↔ held t = ∅ := by
  rw [← releasedOnce_from_iff hf ho]
  simp

end InternetProgramming.Interaction
