/-
# Traces, paths and call histories

Four ways to speak about whole runs, none of which knows what is being run.

* `Along P tr`: `P` holds of every entry of the trace, given the entries before it.  Every
  temporal statement of the development has this form.
* `Path step s ls s'`: a labelled transition relation, iterated.
* `History exec s h s'`: an object used through its public methods in any order, where the
  caller catches every exception.  `h` lists the calls, each with the object before and after.
* `LoopRun body s h s'`: the iterations of `while (true) { body }`, which only an exception
  ends.

Each comes with its append rule and its invariant rule, so that an induction over a run is
done here once.
-/
import Mathlib.Algebra.Group.Defs
import InternetProgramming.Interaction.Prog

namespace InternetProgramming.Interaction

/-! ## 1. Properties of every entry, given the entries before it -/

section Along

variable {ε : Type}

/-- `P pre e` at every point of the trace, with `pre` what came before `e`. -/
def Along (P : List ε → ε → Prop) (tr : List ε) : Prop :=
  ∀ pre e post, tr = pre ++ e :: post → P pre e

@[simp] theorem along_nil {P : List ε → ε → Prop} : Along P [] := by
  intro pre e post h
  simp at h

theorem along_append {P : List ε → ε → Prop} {tr₁ tr₂ : List ε} :
    Along P (tr₁ ++ tr₂) ↔ Along P tr₁ ∧ Along (fun pre => P (tr₁ ++ pre)) tr₂ := by
  constructor
  · intro h
    refine ⟨fun pre e post he => h pre e (post ++ tr₂) (by simp [he]), ?_⟩
    intro pre e post he
    exact h (tr₁ ++ pre) e post (by simp [he])
  · rintro ⟨h₁, h₂⟩ pre e post he
    rcases List.append_eq_append_iff.mp he with ⟨mid, rfl, h⟩ | ⟨mid, h, h'⟩
    · exact h₂ mid e post h
    · cases mid with
      | nil =>
        obtain rfl : tr₁ = pre := by simpa using h
        simpa using h₂ [] e post (by simpa using h'.symm)
      | cons d mid =>
        obtain ⟨rfl, -⟩ : e = d ∧ post = mid ++ tr₂ := by simpa using h'
        exact h₁ pre e mid h

theorem along_cons {P : List ε → ε → Prop} {e : ε} {tr : List ε} :
    Along P (e :: tr) ↔ P [] e ∧ Along (fun pre => P (e :: pre)) tr := by
  have h1 : Along P [e] ↔ P [] e := by
    constructor
    · intro h; exact h [] e [] rfl
    · rintro h pre d post hd
      cases pre with
      | nil => obtain ⟨rfl, -⟩ : e = d ∧ post = [] := by simpa using hd
               exact h
      | cons c pre => simp at hd
  rw [← List.singleton_append, along_append, h1]
  rfl

theorem Along.mono {P Q : List ε → ε → Prop} {tr : List ε} (h : Along P tr)
    (hPQ : ∀ pre e, P pre e → Q pre e) : Along Q tr :=
  fun pre e post he => hPQ pre e (h pre e post he)

/-- A property of the entries' images is a property of the entries. -/
theorem along_map {δ : Type} {f : ε → δ} {P : List δ → δ → Prop} {tr : List ε} :
    Along P (tr.map f) ↔ Along (fun pre e => P (pre.map f) (f e)) tr := by
  constructor
  · intro h pre e post he
    exact h (pre.map f) (f e) (post.map f) (by simp [he])
  · intro h pre d post hd
    obtain ⟨pre', post', rfl, rfl, h'⟩ := List.map_eq_append_iff.mp hd
    obtain ⟨e, post'', rfl, rfl, -⟩ := List.map_eq_cons_iff.mp h'
    exact h pre' e post'' rfl

/-- A property of the entries that `f` selects is a property of the whole trace. -/
theorem along_filterMap {δ : Type} {f : ε → Option δ} {tr : List ε} {P : List δ → δ → Prop} :
    Along P (tr.filterMap f) ↔
      Along (fun pre e => ∀ d, f e = some d → P (pre.filterMap f) d) tr := by
  induction tr generalizing P with
  | nil => simp
  | cons e tr ih =>
    rw [along_cons]
    cases he : f e with
    | none =>
      rw [List.filterMap_cons_none he, ih]
      simp [he]
    | some d =>
      rw [List.filterMap_cons_some he, along_cons, ih]
      simp [he]

/-! ### The latest report -/

variable {δ : Type} {f : ε → Option δ} {d : δ}

/-- The last value that an entry of the trace reports, or `d` if none does. -/
def latest (f : ε → Option δ) (d : δ) (tr : List ε) : δ := tr.foldl (fun d e => (f e).getD d) d

@[simp] theorem latest_nil : latest f d [] = d := rfl

theorem latest_cons {e : ε} {tr : List ε} :
    latest f d (e :: tr) = latest f ((f e).getD d) tr := rfl

theorem latest_append {tr₁ tr₂ : List ε} :
    latest f d (tr₁ ++ tr₂) = latest f (latest f d tr₁) tr₂ := List.foldl_append

/-- Entries that report nothing leave the last report as it is. -/
theorem latest_of_none {tr : List ε} (h : ∀ e ∈ tr, f e = none) : latest f d tr = d := by
  induction tr with
  | nil => rfl
  | cons e tr ih =>
    obtain ⟨he, htr⟩ := List.forall_mem_cons.mp h
    rw [latest_cons, he]
    exact ih htr

/-- ...so what is said of them and of the last report is said of each of them. -/
theorem along_latest_of_none {P : δ → ε → Prop} {tr : List ε} (h : ∀ e ∈ tr, f e = none) :
    Along (fun pre e => P (latest f d pre) e) tr ↔ ∀ e ∈ tr, P d e := by
  induction tr with
  | nil => simp
  | cons e tr ih =>
    obtain ⟨he, htr⟩ := List.forall_mem_cons.mp h
    rw [along_cons, List.forall_mem_cons, ← ih htr]
    simp only [latest_cons, he, latest_nil, Option.getD_none]

/-- A single report in the middle splits the trace in two. -/
theorem along_latest_of_one {P : δ → ε → Prop} {tr₁ tr₂ : List ε} {e : ε} {d' : δ}
    (h₁ : ∀ e ∈ tr₁, f e = none) (he : f e = some d') (h₂ : ∀ e ∈ tr₂, f e = none) :
    Along (fun pre e => P (latest f d pre) e) (tr₁ ++ e :: tr₂) ↔
      (∀ e ∈ tr₁, P d e) ∧ P d e ∧ ∀ e ∈ tr₂, P d' e := by
  rw [along_append, along_cons, along_latest_of_none h₁, ← along_latest_of_none h₂]
  simp only [latest_append, latest_of_none h₁, latest_cons, latest_nil, he, Option.getD_some]

end Along

/-! ## 2. Paths of a labelled transition relation -/

section Path

variable {σ ε : Type} {step : σ → ε → σ → Prop}

/-- `step` along a list of labels. -/
def Path (step : σ → ε → σ → Prop) : σ → List ε → σ → Prop
  | s, [], s' => s' = s
  | s, e :: es, s' => ∃ s₁, step s e s₁ ∧ Path step s₁ es s'

theorem Path.append {es₁ es₂ : List ε} {s s₁ s' : σ} (h₁ : Path step s es₁ s₁)
    (h₂ : Path step s₁ es₂ s') : Path step s (es₁ ++ es₂) s' := by
  induction es₁ generalizing s with
  | nil => exact h₁ ▸ h₂
  | cons e es₁ ih =>
    obtain ⟨s₂, hs, hp⟩ := h₁
    exact ⟨s₂, hs, ih hp⟩

/-- **The simulation rule.**  What one step simulates, a path simulates. -/
theorem path_map {τ δ : Type} {step' : τ → δ → τ → Prop} {f : σ → τ} {g : ε → δ}
    (hf : ∀ s e s', step s e s' → step' (f s) (g e) (f s')) {es : List ε} {s s' : σ}
    (h : Path step s es s') : Path step' (f s) (es.map g) (f s') := by
  induction es generalizing s with
  | nil => exact congrArg f h
  | cons e es ih =>
    obtain ⟨s₁, hs, hp⟩ := h
    exact ⟨f s₁, hf s e s₁ hs, ih hp⟩

/-- ...also where the two are only related, so that the other path is to be found. -/
theorem Path.simulate {τ : Type} {step' : τ → ε → τ → Prop} {R : σ → τ → Prop}
    (hR : ∀ s e s' t, R s t → step s e s' → ∃ t', step' t e t' ∧ R s' t')
    {es : List ε} {s s' : σ} {t : τ} (h : R s t) (hp : Path step s es s') :
    ∃ t', Path step' t es t' ∧ R s' t' := by
  induction es generalizing s t with
  | nil => exact ⟨t, rfl, hp ▸ h⟩
  | cons e es ih =>
    obtain ⟨s₁, hs, hp⟩ := hp
    obtain ⟨t₁, ht, h₁⟩ := hR s e s₁ t h hs
    obtain ⟨t', hpath, h'⟩ := ih h₁ hp
    exact ⟨t', ⟨t₁, ht, hpath⟩, h'⟩

/-- **The invariant rule.**  What one step preserves, a path preserves. -/
theorem Path.invariant {I : σ → Prop} (hI : ∀ s e s', I s → step s e s' → I s')
    {es : List ε} {s s' : σ} (h : I s) (hp : Path step s es s') : I s' := by
  induction es generalizing s with
  | nil => exact hp ▸ h
  | cons e es ih =>
    obtain ⟨s₁, hs, hp⟩ := hp
    exact ih (hI s e s₁ h hs) hp

/-- ...also where it speaks of the labels so far. -/
theorem Path.record {I : List ε → σ → Prop}
    (hI : ∀ pre s e s', I pre s → step s e s' → I (pre ++ [e]) s') {es : List ε} {s s' : σ}
    (h : I [] s) (hp : Path step s es s') : I es s' := by
  have hfrom (pre es : List ε) (s : σ) (h : I pre s) (hp : Path step s es s') :
      I (pre ++ es) s' := by
    induction es generalizing pre s with
    | nil => simpa only [List.append_nil] using hp ▸ h
    | cons e es ih =>
      obtain ⟨s₁, hs, hp⟩ := hp
      rw [List.append_cons]
      exact ih (pre ++ [e]) s₁ (hI pre s e s₁ h hs) hp
  exact hfrom [] es s h hp

/-- What it tells of a label and of those before holds along the path. -/
theorem Path.along {I : List ε → σ → Prop} {P : List ε → ε → Prop}
    (hI : ∀ pre s e s', I pre s → step s e s' → P pre e ∧ I (pre ++ [e]) s') {es : List ε}
    {s s' : σ} (h : I [] s) (hp : Path step s es s') : Along P es := by
  have hrecord := Path.record (I := fun pre s => Along P pre ∧ I pre s)
    (fun pre s e s' ⟨halong, h⟩ hs => by
      obtain ⟨hP, h'⟩ := hI pre s e s' h hs
      refine ⟨along_append.mpr ⟨halong, along_cons.mpr ⟨?_, along_nil⟩⟩, h'⟩
      rwa [List.append_nil])
    ⟨along_nil, h⟩ hp
  exact hrecord.1

/-- An invariant that also tells something about the label taken tells it about them all. -/
theorem Path.forall_mem {I : σ → Prop} {P : ε → Prop}
    (hI : ∀ s e s', I s → step s e s' → P e ∧ I s') {es : List ε} {s s' : σ} (h : I s)
    (hp : Path step s es s') : ∀ e ∈ es, P e := by
  induction es generalizing s with
  | nil => simp
  | cons e es ih =>
    obtain ⟨s₁, hs, hp⟩ := hp
    obtain ⟨hPe, h₁⟩ := hI s e s₁ h hs
    exact List.forall_mem_cons.mpr ⟨hPe, ih h₁ hp⟩

/-- **The accounting rule.**  What each step adds to a balance adds up along a path. -/
theorem Path.account {β : Type} [AddMonoid β] {I : σ → Prop} (balance : σ → β) (gain : ε → β)
    (hI : ∀ s e s', I s → step s e s' → balance s' = balance s + gain e ∧ I s')
    {es : List ε} {s s' : σ} (h : I s) (hp : Path step s es s') :
    balance s' = balance s + (es.map gain).sum := by
  induction es generalizing s with
  | nil =>
    rw [hp]
    exact (add_zero _).symm
  | cons e es ih =>
    obtain ⟨s₁, hs, hp⟩ := hp
    obtain ⟨hgain, h₁⟩ := hI s e s₁ h hs
    rw [ih h₁ hp, hgain, List.map_cons, List.sum_cons, add_assoc]

/-- ...and what each step appends to a record. -/
theorem Path.collect {α : Type} (record : σ → List α) (gain : ε → List α)
    (hstep : ∀ s e s', step s e s' → record s' = record s ++ gain e)
    {es : List ε} {s s' : σ} (hp : Path step s es s') :
    record s' = record s ++ es.flatMap gain := by
  induction es generalizing s with
  | nil =>
    rw [hp]
    exact (List.append_nil _).symm
  | cons e es ih =>
    obtain ⟨s₁, hs, hp⟩ := hp
    rw [ih hp, hstep s e s₁ hs, List.flatMap_cons, List.append_assoc]

end Path

/-! ## 3. Histories of method calls -/

section History

variable {Op ι : Type} {ρ : ι → Type} {ε σ α : Type}

/-- One method call: the object before it, what was called, what it did and gave back, and
the object after it. -/
structure Call (Op ι : Type) (ρ : ι → Type) (ε σ α : Type) where
  pre : σ
  op : Op
  trace : List (Event ι ρ)
  res : Except ε α
  post : σ

/-- The call is one the method can make. -/
def Call.Valid (exec : Op → Meth ι ρ ε σ α) (c : Call Op ι ρ ε σ α) : Prop :=
  Meth.Run (exec c.op) c.pre c.trace c.res c.post

/-- An object used through its methods: the calls of `h` in order, from `s` to `s'`, whatever
each returned or threw. -/
def History (exec : Op → Meth ι ρ ε σ α) : σ → List (Call Op ι ρ ε σ α) → σ → Prop :=
  Path fun s c s' => c.pre = s ∧ c.Valid exec ∧ c.post = s'

/-- Everything the environment saw of a history. -/
def traceOf (h : List (Call Op ι ρ ε σ α)) : List (Event ι ρ) := h.flatMap Call.trace

@[simp] theorem traceOf_nil : traceOf ([] : List (Call Op ι ρ ε σ α)) = [] := rfl

@[simp] theorem traceOf_cons (c : Call Op ι ρ ε σ α) (h : List (Call Op ι ρ ε σ α)) :
    traceOf (c :: h) = c.trace ++ traceOf h := rfl

theorem history_cons {exec : Op → Meth ι ρ ε σ α} {s s' : σ} {c : Call Op ι ρ ε σ α}
    {h : List (Call Op ι ρ ε σ α)} :
    History exec s (c :: h) s' ↔ c.pre = s ∧ c.Valid exec ∧ History exec c.post h s' := by
  constructor
  · rintro ⟨s₁, ⟨h₁, h₂, rfl⟩, h₃⟩; exact ⟨h₁, h₂, h₃⟩
  · rintro ⟨h₁, h₂, h₃⟩; exact ⟨c.post, ⟨h₁, h₂, rfl⟩, h₃⟩

/-- Every call of a history is one that its method can make. -/
theorem History.valid {exec : Op → Meth ι ρ ε σ α} {h : List (Call Op ι ρ ε σ α)} {s s' : σ}
    (hh : History exec s h s') : ∀ c ∈ h, c.Valid exec := by
  induction h generalizing s with
  | nil => simp
  | cons c h ih =>
    obtain ⟨-, hv, hrest⟩ := history_cons.mp hh
    exact List.forall_mem_cons.mpr ⟨hv, ih hrest⟩

/-- Every call of a history is made on what the calls before it left. -/
theorem History.before {exec : Op → Meth ι ρ ε σ α} {h₁ h₂ : List (Call Op ι ρ ε σ α)}
    {c : Call Op ι ρ ε σ α} {s s' : σ} (hh : History exec s (h₁ ++ c :: h₂) s') :
    History exec s h₁ c.pre ∧ c.Valid exec := by
  induction h₁ generalizing s with
  | nil =>
    obtain ⟨rfl, hv, -⟩ := history_cons.mp hh
    exact ⟨rfl, hv⟩
  | cons d h₁ ih =>
    obtain ⟨rfl, hv, hrest⟩ := history_cons.mp hh
    obtain ⟨hbefore, hc⟩ := ih hrest
    exact ⟨history_cons.mpr ⟨rfl, hv, hbefore⟩, hc⟩

/-- **The refinement rule.**  An abstract object that follows each call by `f`, and that each
method keeps related to the fields, is related to them after every history.  `P` is what the
callers promise of each call. -/
theorem History.refines {exec : Op → Meth ι ρ ε σ α} {τ : Type} {f : τ → Op → τ}
    {R : σ → τ → Prop} {P : Op → Prop}
    (hR : ∀ (c : Call Op ι ρ ε σ α) t, c.Valid exec → P c.op → R c.pre t →
      R c.post (f t c.op))
    {h : List (Call Op ι ρ ε σ α)} {s s' : σ} {t : τ} (hP : ∀ c ∈ h, P c.op) (hs : R s t)
    (hh : History exec s h s') : R s' ((h.map Call.op).foldl f t) := by
  induction h generalizing s t with
  | nil => exact hh ▸ hs
  | cons c h ih =>
    obtain ⟨rfl, hv, hrest⟩ := history_cons.mp hh
    obtain ⟨hc, hP⟩ := List.forall_mem_cons.mp hP
    change R s' ((h.map Call.op).foldl f (f t c.op))
    exact ih hP (hR c t hv hc hs) hrest

/-- **The invariant rule.**  An invariant of every method holds after every history, and what
it implies of a single call holds of every call. -/
theorem History.forall_mem {exec : Op → Meth ι ρ ε σ α} {I : σ → Prop}
    {Q : Call Op ι ρ ε σ α → Prop}
    (hI : ∀ c : Call Op ι ρ ε σ α, c.Valid exec → I c.pre → Q c ∧ I c.post)
    {s s' : σ} {h : List (Call Op ι ρ ε σ α)} (hs : I s) (hh : History exec s h s') :
    I s' ∧ ∀ c ∈ h, Q c :=
  ⟨Path.invariant (fun _ c _ hp ⟨h₁, h₂, h₃⟩ => h₃ ▸ (hI c h₂ (h₁ ▸ hp)).2) hs hh,
    Path.forall_mem (fun _ c _ hp ⟨h₁, h₂, h₃⟩ =>
      ⟨(hI c h₂ (h₁ ▸ hp)).1, h₃ ▸ (hI c h₂ (h₁ ▸ hp)).2⟩) hs hh⟩

end History

/-! ## 4. `while (true)` -/

section Loop

variable {ι : Type} {ρ : ι → Type} {ε σ : Type}

/-- One iteration of a loop, as a call of its body. -/
abbrev Iteration (ι : Type) (ρ : ι → Type) (ε σ : Type) := Call Unit ι ρ ε σ Unit

/-- The iterations of `while (true) { body }` so far.  An iteration that throws is the last. -/
def LoopRun (body : Meth ι ρ ε σ Unit) : σ → List (Iteration ι ρ ε σ) → σ → Prop
  | s, [], s' => s' = s
  | s, c :: h, s' => c.pre = s ∧ c.Valid (fun _ => body) ∧
      match c.res with
      | .ok _ => LoopRun body c.post h s'
      | .error _ => h = [] ∧ s' = c.post

/-- The loop is at the top of its next iteration: no iteration so far has thrown. -/
def AtTop (h : List (Iteration ι ρ ε σ)) : Prop := ∀ c ∈ h, c.res = .ok ()

/-- **The loop rule.**  An invariant of the top of the loop, and what it implies of the
iteration about to run. -/
theorem LoopRun.forall_mem {body : Meth ι ρ ε σ Unit} {I : σ → Prop}
    {P : Iteration ι ρ ε σ → Prop}
    (hI : ∀ c : Iteration ι ρ ε σ, c.Valid (fun _ => body) → I c.pre →
      P c ∧ (c.res = .ok () → I c.post))
    {h : List (Iteration ι ρ ε σ)} {s s' : σ} (hs : I s) (hl : LoopRun body s h s') :
    ∀ c ∈ h, P c := by
  induction h generalizing s with
  | nil => simp
  | cons c h ih =>
    obtain ⟨rfl, hv, hrest⟩ := hl
    obtain ⟨hP, hpost⟩ := hI c hv hs
    refine List.forall_mem_cons.mpr ⟨hP, ?_⟩
    cases hr : c.res with
    | ok u =>
      rw [hr] at hrest
      exact ih (hpost hr) hrest
    | error e =>
      rw [hr] at hrest
      simp [hrest.1]

theorem LoopRun.valid {body : Meth ι ρ ε σ Unit} {h : List (Iteration ι ρ ε σ)} {s s' : σ}
    (hl : LoopRun body s h s') : ∀ c ∈ h, c.Valid fun _ => body :=
  LoopRun.forall_mem (I := fun _ => True) (fun _ hv _ => ⟨hv, fun _ => trivial⟩) trivial hl

end Loop

end InternetProgramming.Interaction
