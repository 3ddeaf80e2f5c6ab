/-
# Programs that call an environment

A program that talks to an operating system is a tree: it has finished with a value, or it
issues a call and goes on with the answer.  What the environment answers is not the
program's business, so a program denotes the set of its RUNS: the finite traces of calls
with their answers, and the value each trace ends in.

* `Prog ι ρ α`: programs issuing calls `i : ι`, answered in `ρ i`, that end in `α`.
* `Prog.Run p tr a`: `p` can leave the trace `tr` and end in `a`.
* `Meth ι ρ ε σ α`: a method of an object with fields `σ`.  It may throw an `ε`, and the
  fields it has written before it threw STAY written, as in C++.
* `Meth.Run m s tr r s'`: called on the object `s`, the method leaves `tr`, returns or throws
  `r`, and the object is then `s'`.

`run_bind` is the composition rule at both levels; everything a method can do is read off
with it once, in the method's own `run_` lemma, and callers use that lemma.
-/
import Mathlib.Data.List.Basic

namespace InternetProgramming.Interaction

/-! ## 1. Programs and their runs -/

/-- A program over the calls `ι`, where the call `i` is answered by an element of `ρ i`. -/
inductive Prog (ι : Type) (ρ : ι → Type) (α : Type) where
  | pure (a : α)
  | call (i : ι) (k : ρ i → Prog ι ρ α)

/-- One entry of a trace: a call and the answer it got. -/
abbrev Event (ι : Type) (ρ : ι → Type) := (i : ι) × ρ i

namespace Prog

variable {ι : Type} {ρ : ι → Type} {α β : Type}

/-- Run the first program, then the one its value selects. -/
def bind : Prog ι ρ α → (α → Prog ι ρ β) → Prog ι ρ β
  | .pure a, f => f a
  | .call i k, f => .call i fun r => (k r).bind f

instance : Monad (Prog ι ρ) where
  pure := .pure
  bind := .bind

/-- Issue one call and return its answer. -/
def perform (i : ι) : Prog ι ρ (ρ i) := .call i .pure

/-- `p.Run tr a`: the program can leave the trace `tr` and end in `a`. -/
def Run : Prog ι ρ α → List (Event ι ρ) → α → Prop
  | .pure a, tr, b => tr = [] ∧ b = a
  | .call i k, tr, b => ∃ r tr', tr = ⟨i, r⟩ :: tr' ∧ (k r).Run tr' b

@[simp] theorem run_pure {a b : α} {tr : List (Event ι ρ)} :
    (Pure.pure a : Prog ι ρ α).Run tr b ↔ tr = [] ∧ b = a := Iff.rfl

@[simp] theorem run_perform {i : ι} {b : ρ i} {tr : List (Event ι ρ)} :
    (perform i : Prog ι ρ (ρ i)).Run tr b ↔ tr = [⟨i, b⟩] := by
  simp only [perform, Run]
  constructor
  · rintro ⟨r, tr', rfl, rfl, rfl⟩; rfl
  · rintro rfl; exact ⟨b, [], rfl, rfl, rfl⟩

/-- **Composition.**  A run of `p >>= f` is a run of `p` followed by one of the continuation
at the value `p` ended in. -/
theorem run_bind {p : Prog ι ρ α} {f : α → Prog ι ρ β} {tr : List (Event ι ρ)} {b : β} :
    (p >>= f).Run tr b ↔
      ∃ a tr₁ tr₂, tr = tr₁ ++ tr₂ ∧ p.Run tr₁ a ∧ (f a).Run tr₂ b := by
  change (p.bind f).Run tr b ↔ _
  induction p generalizing tr with
  | pure a =>
    simp only [bind, Run]
    constructor
    · intro h; exact ⟨a, [], tr, rfl, ⟨rfl, rfl⟩, h⟩
    · rintro ⟨_, _, tr₂, rfl, ⟨rfl, rfl⟩, h⟩; exact h
  | call i k ih =>
    simp only [bind, Run, ih]
    constructor
    · rintro ⟨r, _, rfl, a, tr₁, tr₂, rfl, h₁, h₂⟩
      exact ⟨a, ⟨i, r⟩ :: tr₁, tr₂, rfl, ⟨r, tr₁, rfl, h₁⟩, h₂⟩
    · rintro ⟨a, _, tr₂, rfl, ⟨r, tr₁, rfl, h₁⟩, h₂⟩
      exact ⟨r, tr₁ ++ tr₂, rfl, a, tr₁, tr₂, rfl, h₁, h₂⟩

@[simp] theorem run_perform_bind {i : ι} {f : ρ i → Prog ι ρ β} {tr : List (Event ι ρ)}
    {b : β} :
    (perform i >>= f).Run tr b ↔ ∃ r tr', tr = ⟨i, r⟩ :: tr' ∧ (f r).Run tr' b := by
  rw [run_bind]
  constructor
  · rintro ⟨r, tr₁, tr₂, rfl, h₁, h₂⟩
    obtain rfl := run_perform.mp h₁
    exact ⟨r, tr₂, rfl, h₂⟩
  · rintro ⟨r, tr', rfl, h⟩
    exact ⟨r, [⟨i, r⟩], tr', rfl, run_perform.mpr rfl, h⟩

/-- **A program never gets stuck**: as long as every call is answered, it has a run. -/
theorem exists_run [∀ i, Nonempty (ρ i)] (p : Prog ι ρ α) : ∃ tr a, p.Run tr a := by
  induction p with
  | pure a => exact ⟨[], a, rfl, rfl⟩
  | call i k ih =>
    obtain ⟨r⟩ : Nonempty (ρ i) := inferInstance
    obtain ⟨tr, a, h⟩ := ih r
    exact ⟨⟨i, r⟩ :: tr, a, r, tr, rfl, h⟩

/-- A program that gives up under `c` and otherwise goes on, seen from its success. -/
theorem run_error_if {ε : Type} {c : Prop} [Decidable c] {e : ε} {a : α}
    {p : Prog ι ρ (Except ε α)} {tr : List (Event ι ρ)} :
    (if c then Pure.pure (.error e) else p).Run tr (.ok a) ↔ ¬ c ∧ p.Run tr (.ok a) := by
  split
  · rename_i hc
    simp [hc]
  · rename_i hc
    simp [hc]

end Prog

/-! ## 2. Methods: fields that survive an exception -/

/-- A method on an object with fields `σ` that returns an `α` or throws an `ε`.  The state is
UNDER the exception, so a throw keeps the fields as they are at that point. -/
abbrev Meth (ι : Type) (ρ : ι → Type) (ε σ α : Type) := ExceptT ε (StateT σ (Prog ι ρ)) α

namespace Meth

variable {ι : Type} {ρ : ι → Type} {ε σ τ α β : Type}
variable {s s' : σ} {tr : List (Event ι ρ)}

/-- `Run m s tr r s'`: called on `s`, the method leaves the trace `tr`, returns or throws `r`,
and leaves the object as `s'`. -/
def Run (m : Meth ι ρ ε σ α) (s : σ) (tr : List (Event ι ρ)) (r : Except ε α) (s' : σ) : Prop :=
  Prog.Run (m.run.run s) tr (r, s')

/-- A base-class method called on a derived object: `get` finds the base part and `set`
writes it back, whether or not the method threw. -/
def zoom (get : τ → σ) (set : σ → τ → τ) (m : Meth ι ρ ε σ α) : Meth ι ρ ε τ α :=
  ExceptT.mk fun t => m.run.run (get t) >>= fun p => pure (p.1, set p.2 t)

@[simp] theorem run_pure {a : α} {r : Except ε α} :
    Run (pure a : Meth ι ρ ε σ α) s tr r s' ↔ tr = [] ∧ r = .ok a ∧ s' = s := by
  change tr = [] ∧ (r, s') = (.ok a, s) ↔ _
  rw [Prod.mk.injEq]

@[simp] theorem run_throw {e : ε} {r : Except ε α} :
    Run (throw e : Meth ι ρ ε σ α) s tr r s' ↔ tr = [] ∧ r = .error e ∧ s' = s := by
  change tr = [] ∧ (r, s') = (.error e, s) ↔ _
  rw [Prod.mk.injEq]

@[simp] theorem run_get {r : Except ε σ} :
    Run (get : Meth ι ρ ε σ σ) s tr r s' ↔ tr = [] ∧ r = .ok s ∧ s' = s := by
  change tr = [] ∧ (r, s') = (.ok s, s) ↔ _
  rw [Prod.mk.injEq]

@[simp] theorem run_modify {f : σ → σ} {r : Except ε PUnit} :
    Run (modify f : Meth ι ρ ε σ PUnit) s tr r s' ↔ tr = [] ∧ r = .ok ⟨⟩ ∧ s' = f s := by
  change tr = [] ∧ (r, s') = (.ok ⟨⟩, f s) ↔ _
  rw [Prod.mk.injEq]

/-- A plain program called from a method neither throws nor touches the fields. -/
@[simp] theorem run_liftM {p : Prog ι ρ α} {r : Except ε α} :
    Run (liftM p : Meth ι ρ ε σ α) s tr r s' ↔ ∃ a, p.Run tr a ∧ r = .ok a ∧ s' = s := by
  change Prog.Run ((p >>= fun a => pure (a, s)) >>= fun q => pure (Except.ok q.1, q.2))
    tr (r, s') ↔ _
  simp only [Prog.run_bind, Prog.run_pure, Prod.mk.injEq]
  constructor
  · rintro ⟨_, _, _, rfl, ⟨a, _, _, rfl, hp, rfl, rfl⟩, rfl, rfl, rfl⟩
    exact ⟨a, by simpa using hp, rfl, rfl⟩
  · rintro ⟨a, hp, rfl, rfl⟩
    exact ⟨(a, s'), tr, [], by simp, ⟨a, tr, [], by simp, hp, rfl, rfl⟩, rfl, rfl, rfl⟩

/-- **Composition of methods.**  Either the first one throws, and the second is not called;
or it returns, and the second one runs on the fields it left. -/
theorem run_bind {m : Meth ι ρ ε σ α} {f : α → Meth ι ρ ε σ β} {r : Except ε β} :
    Run (m >>= f) s tr r s' ↔
      (∃ e, Run m s tr (.error e) s' ∧ r = .error e) ∨
      ∃ a s₁ tr₁ tr₂, tr = tr₁ ++ tr₂ ∧ Run m s tr₁ (.ok a) s₁ ∧ Run (f a) s₁ tr₂ r s' := by
  change Prog.Run ((m.run.run s : Prog ι ρ _) >>= fun p => (ExceptT.bindCont f p.1).run p.2)
    tr (r, s') ↔ _
  rw [Prog.run_bind]
  constructor
  · rintro ⟨⟨e | a, s₁⟩, tr₁, tr₂, rfl, h₁, h₂⟩
    · obtain ⟨rfl, h⟩ : tr₂ = [] ∧ (r, s') = (.error e, s₁) := h₂
      obtain ⟨rfl, rfl⟩ := Prod.mk.inj h
      exact Or.inl ⟨e, by simpa [Run] using h₁, rfl⟩
    · exact Or.inr ⟨a, s₁, tr₁, tr₂, rfl, h₁, h₂⟩
  · rintro (⟨e, h, rfl⟩ | ⟨a, s₁, tr₁, tr₂, rfl, h₁, h₂⟩)
    · exact ⟨(.error e, s'), tr, [], by simp, h, rfl, rfl⟩
    · exact ⟨(.ok a, s₁), tr₁, tr₂, rfl, h₁, h₂⟩

/-- A call that returned, and the rest of the method after it. -/
theorem Run.bind {m : Meth ι ρ ε σ α} {f : α → Meth ι ρ ε σ β} {a : α} {s₁ : σ}
    {tr₁ tr₂ : List (Event ι ρ)} {r : Except ε β} (h₁ : Run m s tr₁ (.ok a) s₁)
    (h₂ : Run (f a) s₁ tr₂ r s') : Run (m >>= f) s (tr₁ ++ tr₂) r s' :=
  run_bind.mpr (Or.inr ⟨a, s₁, tr₁, tr₂, rfl, h₁, h₂⟩)

/-- A method whose value is passed through a function. -/
theorem run_map {m : Meth ι ρ ε σ α} {g : α → β} {r : Except ε β} :
    Run (do pure (g (← m))) s tr r s' ↔ ∃ r₀, Run m s tr r₀ s' ∧ r = r₀.map g := by
  rw [run_bind]
  constructor
  · rintro (⟨e, h, rfl⟩ | ⟨a, s₁, tr₁, tr₂, rfl, h, h'⟩)
    · exact ⟨.error e, h, rfl⟩
    · obtain ⟨rfl, rfl, rfl⟩ := run_pure.mp h'
      exact ⟨.ok a, by simpa using h, rfl⟩
  · rintro ⟨r₀ | a, h, rfl⟩
    · exact Or.inl ⟨_, h, rfl⟩
    · exact Or.inr ⟨a, s', tr, [], by simp, h, by simp [Except.map]⟩

@[simp] theorem run_get_bind {f : σ → Meth ι ρ ε σ β} {r : Except ε β} :
    Run (get >>= f) s tr r s' ↔ Run (f s) s tr r s' := by
  simp [run_bind]

@[simp] theorem run_modify_bind {g : σ → σ} {f : PUnit → Meth ι ρ ε σ β} {r : Except ε β} :
    Run (modify g >>= f) s tr r s' ↔ Run (f ⟨⟩) (g s) tr r s' := by
  rw [run_bind]
  constructor
  · rintro (⟨e, he, -⟩ | ⟨_, _, _, tr₂, rfl, hg, h⟩)
    · exact absurd (run_modify.mp he).2.1 (by simp)
    · obtain ⟨rfl, -, rfl⟩ := run_modify.mp hg
      exact h
  · intro h
    exact Or.inr ⟨⟨⟩, g s, [], tr, rfl, run_modify.mpr ⟨rfl, rfl, rfl⟩, h⟩

@[simp] theorem run_liftM_bind {p : Prog ι ρ α} {f : α → Meth ι ρ ε σ β} {r : Except ε β} :
    Run (liftM p >>= f) s tr r s' ↔
      ∃ a tr₁ tr₂, tr = tr₁ ++ tr₂ ∧ p.Run tr₁ a ∧ Run (f a) s tr₂ r s' := by
  simp only [run_bind, run_liftM]
  constructor
  · rintro (⟨e, ⟨b, -, hb, -⟩, -⟩ | ⟨a, s₁, tr₁, tr₂, rfl, ⟨b, hp, hab, rfl⟩, hf⟩)
    · exact absurd hb (by simp)
    · obtain rfl := Except.ok.inj hab
      exact ⟨a, tr₁, tr₂, rfl, hp, hf⟩
  · rintro ⟨a, tr₁, tr₂, rfl, hp, hf⟩
    exact Or.inr ⟨a, s, tr₁, tr₂, rfl, ⟨a, hp, rfl, rfl⟩, hf⟩

/-- The check that ends most methods: throw if the call failed, return otherwise. -/
@[simp] theorem run_throw_if {c : Prop} [Decidable c] {e : ε} {a : α} {r : Except ε α} :
    Run (if c then throw e else pure a : Meth ι ρ ε σ α) s tr r s' ↔
      tr = [] ∧ r = (if c then .error e else .ok a) ∧ s' = s := by
  split <;> simp

theorem run_ite {c : Prop} [Decidable c] {m n : Meth ι ρ ε σ α} {r : Except ε α} :
    Run (if c then m else n) s tr r s' ↔ if c then Run m s tr r s' else Run n s tr r s' := by
  split <;> rfl

/-- **The rule of a `for` loop** whose body never throws.  `I` speaks of what is left of the
list, of the fields and of the trace since the loop was entered. -/
theorem run_forM_left {γ : Type} {body : γ → Meth ι ρ ε σ Unit}
    {I : List γ → σ → List (Event ι ρ) → Prop}
    (hbody : ∀ i l s pre tr r s', I (i :: l) s pre → Run (body i) s tr r s' →
      r = .ok () ∧ I l s' (pre ++ tr)) {l : List γ} :
    ∀ (pre : List (Event ι ρ)) {s s' : σ} {tr : List (Event ι ρ)} {r : Except ε Unit}, I l s pre →
      Run (l.forM body) s tr r s' → r = .ok () ∧ I [] s' (pre ++ tr) := by
  induction l with
  | nil =>
    intro pre s s' tr r hI h
    obtain ⟨rfl, rfl, rfl⟩ := run_pure.mp h
    exact ⟨rfl, by simpa using hI⟩
  | cons i l ih =>
    intro pre s s' tr r hI h
    have h' : Run (body i >>= fun _ => l.forM body) s tr r s' := h
    rcases run_bind.mp h' with ⟨e, he, -⟩ | ⟨u, s₁, tr₁, tr₂, rfl, h₁, h₂⟩
    · exact absurd (hbody i l s pre tr _ s' hI he).1 (by simp)
    · obtain ⟨-, hI₁⟩ := hbody i l s pre tr₁ _ s₁ hI h₁
      rw [← List.append_assoc]
      exact ih (pre ++ tr₁) hI₁ h₂

/-- ...where every round keeps the same invariant. -/
theorem run_forM {γ : Type} {body : γ → Meth ι ρ ε σ Unit} {I : σ → List (Event ι ρ) → Prop}
    {l : List γ} {r : Except ε Unit}
    (hbody : ∀ i ∈ l, ∀ s pre tr r s', I s pre → Run (body i) s tr r s' →
      r = .ok () ∧ I s' (pre ++ tr))
    (hI : I s []) (h : Run (l.forM body) s tr r s') : r = .ok () ∧ I s' tr := by
  have hrun := run_forM_left (I := fun left s pre => left ⊆ l ∧ I s pre)
    (fun i left s pre tr r s' hI h => ?_) [] ⟨List.Subset.refl l, hI⟩ h
  · exact ⟨hrun.1, hrun.2.2⟩
  · obtain ⟨hi, hleft⟩ := List.cons_subset.mp hI.1
    obtain ⟨hr, hI'⟩ := hbody i hi s pre tr r s' hI.2 h
    exact ⟨hr, hleft, hI'⟩

/-- A `for` loop in which no round does anything. -/
theorem run_forM_skip {γ : Type} {body : γ → Meth ι ρ ε σ Unit} {l : List γ} {s : σ}
    (h : ∀ i ∈ l, Run (body i) s [] (.ok ()) s) : Run (l.forM body) s [] (.ok ()) s := by
  induction l with
  | nil => exact run_pure.mpr ⟨rfl, rfl, rfl⟩
  | cons i l ih =>
    obtain ⟨hi, hl⟩ := List.forall_mem_cons.mp h
    exact hi.bind (ih hl)

/-- A base-class method does to the base part what it does to a base object. -/
@[simp] theorem run_zoom {get : τ → σ} {set : σ → τ → τ} {m : Meth ι ρ ε σ α} {t t' : τ}
    {r : Except ε α} :
    Run (zoom get set m) t tr r t' ↔ ∃ s', Run m (get t) tr r s' ∧ t' = set s' t := by
  change Prog.Run (m.run.run (get t) >>= fun p => pure (p.1, set p.2 t)) tr (r, t') ↔ _
  rw [Prog.run_bind]
  constructor
  · rintro ⟨⟨r', s'⟩, tr₁, _, rfl, h, rfl, h'⟩
    obtain ⟨rfl, rfl⟩ := Prod.mk.inj h'
    exact ⟨s', by simpa [Run] using h, rfl⟩
  · rintro ⟨s', h, rfl⟩
    exact ⟨(r, s'), tr, [], by simp, h, rfl, rfl⟩

end Meth

end InternetProgramming.Interaction
