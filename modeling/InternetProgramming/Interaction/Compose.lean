/-
# Properties that hold of a run because they hold of its parts

Some properties of a trace need no invariant: they hold of the empty trace, and of two traces
one after the other if they hold of each.  Such a property holds of everything a program can
leave as soon as it holds of everything its statements can leave, and the rules below, one for
each construct, take a program apart into its statements.

Where two statements have the property only together, the rule for `>>=` is not applied between
them: what is needed is a lemma about the pair.
-/
import InternetProgramming.Interaction.Prog

namespace InternetProgramming.Interaction

/-- `P` holds of a concatenation because it holds of the parts. -/
structure Composes {ε : Type} (P : List ε → Prop) : Prop where
  nil : P []
  append : ∀ {tr₁ tr₂ : List ε}, P tr₁ → P tr₂ → P (tr₁ ++ tr₂)

theorem Composes.flatMap {ε γ : Type} {P : List ε → Prop} (hP : Composes P) {f : γ → List ε}
    {l : List γ} (h : ∀ c ∈ l, P (f c)) : P (l.flatMap f) := by
  induction l with
  | nil => exact hP.nil
  | cons c l ih =>
    obtain ⟨hc, hl⟩ := List.forall_mem_cons.mp h
    rw [List.flatMap_cons]
    exact hP.append hc (ih hl)

/-- Two properties of single entries hold together of a whole trace. -/
theorem composes_forall_iff {ε : Type} {F G : ε → Prop} :
    Composes fun tr => (∀ e ∈ tr, F e) ↔ ∀ e ∈ tr, G e := by
  refine ⟨by simp, fun h₁ h₂ => ?_⟩
  simp only [List.mem_append, or_imp, forall_and]
  exact and_congr h₁ h₂

variable {ι : Type} {ρ : ι → Type} {ε σ τ α β : Type} {P : List (Event ι ρ) → Prop}

/-! ## 1. Programs -/

namespace Prog

/-- Every trace that the program leaves has the property. -/
def Always (p : Prog ι ρ α) (P : List (Event ι ρ) → Prop) : Prop := ∀ tr a, p.Run tr a → P tr

theorem always_pure (hP : Composes P) {a : α} : Always (Pure.pure a : Prog ι ρ α) P := by
  intro tr b h
  rw [(run_pure.mp h).1]
  exact hP.nil

theorem always_perform {i : ι} (h : ∀ r, P [⟨i, r⟩]) : Always (perform i) P := by
  intro tr r hrun
  rw [run_perform.mp hrun]
  exact h r

theorem always_bind (hP : Composes P) {p : Prog ι ρ α} {f : α → Prog ι ρ β}
    (hp : Always p P) (hf : ∀ a, Always (f a) P) : Always (p >>= f) P := by
  intro tr b h
  obtain ⟨a, tr₁, tr₂, rfl, h₁, h₂⟩ := run_bind.mp h
  exact hP.append (hp tr₁ a h₁) (hf a tr₂ b h₂)

theorem always_ite {c : Prop} [Decidable c] {p q : Prog ι ρ α} (hp : Always p P)
    (hq : Always q P) : Always (if c then p else q) P := by
  split
  · exact hp
  · exact hq

end Prog

/-! ## 2. Methods -/

namespace Meth

/-- Every trace that the method leaves has the property, whether it returns or throws. -/
def Always (m : Meth ι ρ ε σ α) (P : List (Event ι ρ) → Prop) : Prop :=
  ∀ s tr r s', Run m s tr r s' → P tr

theorem always_pure (hP : Composes P) {a : α} : Always (pure a : Meth ι ρ ε σ α) P := by
  intro s tr r s' h
  rw [(run_pure.mp h).1]
  exact hP.nil

/-- A method called by a program that is no method itself. -/
theorem always_run {m : Meth ι ρ ε σ α} (hm : Always m P) {s : σ} : (m.run.run s).Always P :=
  fun tr p h => hm s tr p.1 p.2 h

theorem always_liftM {p : Prog ι ρ α} (hp : p.Always P) :
    Always (liftM p : Meth ι ρ ε σ α) P := by
  intro s tr r s' h
  obtain ⟨a, hrun, -, -⟩ := run_liftM.mp h
  exact hp tr a hrun

theorem always_bind (hP : Composes P) {m : Meth ι ρ ε σ α} {f : α → Meth ι ρ ε σ β}
    (hm : Always m P) (hf : ∀ a, Always (f a) P) : Always (m >>= f) P := by
  intro s tr r s' h
  rcases run_bind.mp h with ⟨e, h, -⟩ | ⟨a, s₁, tr₁, tr₂, rfl, h₁, h₂⟩
  · exact hm s tr _ s' h
  · exact hP.append (hm s tr₁ _ s₁ h₁) (hf a s₁ tr₂ r s' h₂)

theorem always_ite {c : Prop} [Decidable c] {m n : Meth ι ρ ε σ α} (hm : Always m P)
    (hn : Always n P) : Always (if c then m else n) P := by
  split
  · exact hm
  · exact hn

theorem always_zoom {get : τ → σ} {set : σ → τ → τ} {m : Meth ι ρ ε σ α} (hm : Always m P) :
    Always (zoom get set m) P := by
  intro t tr r t' h
  obtain ⟨s', hrun, -⟩ := run_zoom.mp h
  exact hm (get t) tr r s' hrun

theorem always_forM (hP : Composes P) {γ : Type} {body : γ → Meth ι ρ ε σ Unit} {l : List γ}
    (hbody : ∀ i, Always (body i) P) : Always (l.forM body) P := by
  induction l with
  | nil => exact always_pure hP
  | cons i l ih => exact always_bind hP (hbody i) fun _ => ih

end Meth

end InternetProgramming.Interaction
