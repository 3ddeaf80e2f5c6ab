/-
# C strings inside a buffer

A pointer into a buffer is an index, and the text it points to ends at the first terminator from
there on.  The functions of `<string.h>` read cell by cell and know no bounds: here they are
`none` when they read or write a cell that is not there.

* `Buffer.strpbrk`, `strspn`, `strchr`, `strcasecmp`, `strncasecmp`, `textFrom`: the functions,
  reading as far as the C ones do.
* `Buffer.TextAt b p t`: the text at `p` is `t`, and its terminator is in the buffer.

Where there is a text, each function is one on lists (section 3), and cutting a text in two at a
character makes two texts of it (`TextAt.cut`).
-/
import InternetProgramming.Interaction.Buffer
import Mathlib.Data.UInt

namespace InternetProgramming.Interaction

namespace Buffer

variable {n : ℕ}

/-! ## 1. Cells -/

section Cells

variable {α : Type}

/-- `b[i]`. -/
def load (b : Buffer α n) (i : ℕ) : Option α := b.cells[i]?

/-- `b[i] = a;` -/
def store (b : Buffer α n) (i : ℕ) (a : α) : Option (Buffer α n) :=
  if i < n then some (b.set i a) else none

/-- An incoming block is stored from cell `i` on, as far as it fits. -/
def writeAt (b : Buffer α n) (i : ℕ) (data : List α) : Buffer α n where
  cells := (b.cells.take i ++ data ++ b.cells.drop (i + data.length)).take n
  length_eq := by
    have := b.length_eq
    simp only [List.length_take, List.length_append, List.length_drop]
    omega

/-- The first cell from `p` on that has the property. -/
def scan (b : Buffer α n) (stop : α → Bool) (p : ℕ) : Option ℕ :=
  ((b.cells.drop p).findIdx? stop).map (p + ·)

variable {b : Buffer α n} {pre l post : List α} {a : α}

theorem load_of_cells (h : b.cells = pre ++ a :: post) : b.load pre.length = some a := by
  rw [load, h]
  simp

theorem store_of_cells (h : b.cells = pre ++ a :: post) (c : α) :
    ∃ b', b.store pre.length c = some b' ∧ b'.cells = pre ++ c :: post := by
  have hlen := b.length_eq
  rw [h, List.length_append, List.length_cons] at hlen
  refine ⟨b.set pre.length c, if_pos (by omega), ?_⟩
  change b.cells.set pre.length c = _
  rw [h, List.set_append_right _ _ (Nat.le_refl _), Nat.sub_self, List.set_cons_zero]

theorem writeAt_cells (h : b.cells = pre ++ l ++ post) {data : List α}
    (hlen : l.length = data.length) : (b.writeAt pre.length data).cells = pre ++ data ++ post := by
  have hn := b.length_eq
  have hcells : b.cells.take pre.length ++ data ++ b.cells.drop (pre.length + data.length) =
      pre ++ data ++ post := by
    rw [h, List.append_assoc pre l, List.take_left, ← List.drop_drop, List.drop_left, ← hlen,
      List.drop_left]
  rw [h] at hn
  change (b.cells.take pre.length ++ data ++ b.cells.drop (pre.length + data.length)).take n = _
  rw [hcells]
  refine List.take_of_length_le ?_
  simp only [List.length_append] at hn ⊢
  omega

end Cells

/-! ## 2. The functions of `<string.h>` -/

/-- `tolower` in the C locale. -/
def toLower (c : UInt8) : UInt8 := if 65 ≤ c ∧ c ≤ 90 then c + 32 else c

/-- Only the terminator is one in lower case. -/
theorem toLower_eq_zero_iff {c : UInt8} : toLower c = 0 ↔ c = 0 := by
  unfold toLower
  split
  · rename_i h
    simp only [UInt8.le_iff_toNat_le, ← UInt8.toNat_inj, UInt8.toNat_add] at h ⊢
    simp only [UInt8.reduceToNat] at h ⊢
    omega
  · rfl

/-- The same text, whatever the case of its letters. -/
def EqFold (t s : List UInt8) : Prop := t.map toLower = s.map toLower

instance (t s : List UInt8) : Decidable (EqFold t s) :=
  inferInstanceAs (Decidable (t.map toLower = s.map toLower))

@[simp] theorem eqFold_nil {t : List UInt8} : EqFold t [] ↔ t = [] := by
  simp [EqFold]

@[simp] theorem eqFold_cons {t s : List UInt8} {c d : UInt8} :
    EqFold (d :: t) (c :: s) ↔ toLower d = toLower c ∧ EqFold t s := by
  simp [EqFold]

@[simp] theorem not_eqFold_nil_cons {s : List UInt8} {c : UInt8} : ¬ EqFold [] (c :: s) := by
  simp [EqFold]

theorem EqFold.length_eq {t s : List UInt8} (h : EqFold t s) : t.length = s.length := by
  simpa using congrArg List.length h

/-- `strpbrk(b + p, accept)`: a null pointer is `some none`. -/
def strpbrk (b : Buffer UInt8 n) (accept : List UInt8) (p : ℕ) : Option (Option ℕ) := do
  let i ← b.scan (fun c => c ∈ accept ∨ c = 0) p
  let c ← b.load i
  if c = 0 then pure none else pure (some i)

/-- `strspn(b + p, accept)`. -/
def strspn (b : Buffer UInt8 n) (accept : List UInt8) (p : ℕ) : Option ℕ := do
  let i ← b.scan (fun c => c ∉ accept) p
  pure (i - p)

/-- `strchr(b + p, c)`. -/
def strchr (b : Buffer UInt8 n) (c : UInt8) (p : ℕ) : Option (Option ℕ) := b.strpbrk [c] p

/-- `strncasecmp(b + p, s, strlen(s)) == 0`. -/
def strncasecmp (b : Buffer UInt8 n) : ℕ → List UInt8 → Option Bool
  | _, [] => some true
  | p, c :: s => do
    let d ← b.load p
    if toLower d = toLower c then b.strncasecmp (p + 1) s else pure false

/-- `strcasecmp(b + p, s) == 0`. -/
def strcasecmp (b : Buffer UInt8 n) : ℕ → List UInt8 → Option Bool
  | p, [] => do
    let d ← b.load p
    pure (d = 0)
  | p, c :: s => do
    let d ← b.load p
    if toLower d = toLower c then b.strcasecmp (p + 1) s else pure false

/-- What `printf("%s", b + p)` prints. -/
def textFrom (b : Buffer UInt8 n) (p : ℕ) : Option (List UInt8) := do
  let i ← b.scan (fun c => c = 0) p
  pure ((b.cells.drop p).take (i - p))

/-! ## 3. Texts -/

/-- The text at `p` is `t`. -/
def TextAt (b : Buffer UInt8 n) (p : ℕ) (t : List UInt8) : Prop :=
  0 ∉ t ∧ ∃ rest, b.cells.drop p = t ++ 0 :: rest

namespace TextAt

variable {b b' : Buffer UInt8 n} {p : ℕ} {t t₁ t₂ accept s : List UInt8} {c : UInt8}

theorem of_cells {pre rest : List UInt8} (h : b.cells = pre ++ t ++ 0 :: rest) (h0 : 0 ∉ t) :
    b.TextAt pre.length t :=
  ⟨h0, rest, by rw [h, List.append_assoc, List.drop_left]⟩

/-- The text from a later pointer on. -/
theorem drop (h : b.TextAt p (t₁ ++ t₂)) : b.TextAt (p + t₁.length) t₂ := by
  obtain ⟨h0, rest, hrest⟩ := h
  refine ⟨fun hmem => h0 (List.mem_append_right _ hmem), rest, ?_⟩
  rw [← List.drop_drop, hrest, List.append_assoc, List.drop_left]

/-- The first character is the cell that the pointer leads to. -/
theorem load_eq (h : b.TextAt p t) : b.load p = some (t.head?.getD 0) := by
  obtain ⟨-, rest, hrest⟩ := h
  rw [load, ← List.head?_drop, hrest]
  cases t <;> rfl

/-- A scan that passes `t₁` and stops behind it. -/
theorem scan_eq {stop : UInt8 → Bool} {rest : List UInt8} (h : b.cells.drop p = t₁ ++ c :: rest)
    (hpass : ∀ a ∈ t₁, stop a = false) (hstop : stop c = true) :
    b.scan stop p = some (p + t₁.length) := by
  have hfind : (t₁ ++ c :: rest).findIdx? stop = some t₁.length := by
    rw [List.findIdx?_append, List.findIdx?_eq_none_iff.mpr hpass, List.findIdx?_cons, hstop]
    simp
  rw [scan, h, hfind]
  rfl

/-- The text from its first character without the property on. -/
theorem dropWhile (h : b.TextAt p t) (q : UInt8 → Bool) :
    b.TextAt (p + (t.takeWhile q).length) (t.dropWhile q) :=
  drop (by rwa [List.takeWhile_append_dropWhile])

/-- The first character that is looked for, if there is one. -/
theorem strpbrk_eq (h : b.TextAt p t) : b.strpbrk accept p =
    some (if t.dropWhile (· ∉ accept) = [] then none
      else some (p + (t.takeWhile (· ∉ accept)).length)) := by
  have htext := h.dropWhile (· ∉ accept)
  obtain ⟨h0, rest, hrest⟩ := h
  have hpass : ∀ a ∈ t.takeWhile (· ∉ accept), decide (a ∈ accept ∨ a = 0) = false := by
    intro a ha
    have hnot : a ∉ accept := of_decide_eq_true (List.mem_takeWhile_imp (p := (· ∉ accept)) ha)
    have ha0 : a ≠ 0 := fun e => h0 (e ▸ (List.takeWhile_sublist _).mem ha)
    exact decide_eq_false (not_or.mpr ⟨hnot, ha0⟩)
  rw [← List.takeWhile_append_dropWhile (p := (· ∉ accept)) (l := t), List.append_assoc] at hrest
  have hscan : b.scan (fun c => c ∈ accept ∨ c = 0) p =
      some (p + (t.takeWhile (· ∉ accept)).length) := by
    cases hdrop : t.dropWhile (· ∉ accept) with
    | nil =>
      rw [hdrop] at hrest
      exact scan_eq hrest hpass (by simp)
    | cons c r =>
      have hc := List.head_dropWhile_not (l := t) (· ∉ accept) (by rw [hdrop]; simp)
      simp only [hdrop, List.head_cons, decide_eq_false_iff_not, not_not] at hc
      rw [hdrop] at hrest
      exact scan_eq hrest hpass (by simp [hc])
  rw [strpbrk, hscan]
  change (b.load (p + (t.takeWhile (· ∉ accept)).length) >>= _) = _
  rw [htext.load_eq]
  cases hdrop : t.dropWhile (· ∉ accept) with
  | nil => rfl
  | cons c r =>
    have hc0 : c ≠ 0 := fun e => h0 ((List.dropWhile_sublist _).mem (by rw [hdrop, e]; simp))
    simp [hc0]

theorem strchr_eq (h : b.TextAt p t) : b.strchr c p =
    some (if t.dropWhile (· ≠ c) = [] then none
      else some (p + (t.takeWhile (· ≠ c)).length)) := by
  rw [strchr, h.strpbrk_eq]
  simp only [List.mem_singleton]

/-- The characters that `strspn` passes over, and those it leaves. -/
theorem strspn_eq (h : b.TextAt p t) (h0 : 0 ∉ accept) :
    b.strspn accept p = some (t.takeWhile (· ∈ accept)).length ∧
      b.TextAt (p + (t.takeWhile (· ∈ accept)).length) (t.dropWhile (· ∈ accept)) := by
  refine ⟨?_, h.dropWhile _⟩
  obtain ⟨-, rest, hrest⟩ := h
  have hpass : ∀ a ∈ t.takeWhile (· ∈ accept), decide (a ∉ accept) = false := by
    intro a ha
    have hin : a ∈ accept := of_decide_eq_true (List.mem_takeWhile_imp (p := (· ∈ accept)) ha)
    exact decide_eq_false fun hnot => hnot hin
  rw [← List.takeWhile_append_dropWhile (p := (· ∈ accept)) (l := t), List.append_assoc] at hrest
  have hscan : b.scan (fun c => c ∉ accept) p =
      some (p + (t.takeWhile (· ∈ accept)).length) := by
    cases hdrop : t.dropWhile (· ∈ accept) with
    | nil =>
      rw [hdrop] at hrest
      exact scan_eq hrest hpass (decide_eq_true h0)
    | cons c r =>
      have hc := List.head_dropWhile_not (l := t) (· ∈ accept) (by rw [hdrop]; simp)
      simp only [hdrop, List.head_cons] at hc
      rw [hdrop] at hrest
      exact scan_eq hrest hpass (decide_eq_true (of_decide_eq_false hc))
  rw [strspn, hscan]
  exact congrArg some (Nat.add_sub_cancel_left ..)

/-- Comparing with the start of the text. -/
theorem strncasecmp_eq (h : b.TextAt p t) (hs : 0 ∉ s) :
    b.strncasecmp p s = some (decide (EqFold (t.take s.length) s)) := by
  induction s generalizing p t with
  | nil => simp [strncasecmp]
  | cons c s ih =>
    obtain ⟨hc, hs⟩ := not_or.mp fun hmem => hs (List.mem_cons.mpr hmem)
    rw [strncasecmp, h.load_eq]
    cases t with
    | nil =>
      have hne : toLower 0 ≠ toLower c := fun e => hc (toLower_eq_zero_iff.mp e.symm).symm
      simp [hne]
    | cons d t =>
      have htail : b.TextAt (p + 1) t := drop (show b.TextAt p ([d] ++ t) from h)
      by_cases hd : toLower d = toLower c
      · simp [hd, ih htail hs]
      · simp [hd]

/-- Comparing with the whole text. -/
theorem strcasecmp_eq (h : b.TextAt p t) (hs : 0 ∉ s) :
    b.strcasecmp p s = some (decide (EqFold t s)) := by
  induction s generalizing p t with
  | nil =>
    have h0 := h.1
    rw [strcasecmp, h.load_eq]
    cases t with
    | nil => rfl
    | cons d t => simpa using Ne.symm (not_or.mp fun hmem => h0 (List.mem_cons.mpr hmem)).1
  | cons c s ih =>
    obtain ⟨hc, hs⟩ := not_or.mp fun hmem => hs (List.mem_cons.mpr hmem)
    rw [strcasecmp, h.load_eq]
    cases t with
    | nil =>
      have hne : toLower 0 ≠ toLower c := fun e => hc (toLower_eq_zero_iff.mp e.symm).symm
      simp [hne]
    | cons d t =>
      have htail : b.TextAt (p + 1) t := drop (show b.TextAt p ([d] ++ t) from h)
      by_cases hd : toLower d = toLower c
      · simp [hd, ih htail hs]
      · simp [hd]

/-- The whole text. -/
theorem textFrom_eq (h : b.TextAt p t) : b.textFrom p = some t := by
  obtain ⟨h0, rest, hrest⟩ := h
  have hscan : b.scan (fun c => c = 0) p = some (p + t.length) :=
    scan_eq hrest (fun a ha => decide_eq_false fun e => h0 (e ▸ ha)) (by simp)
  rw [textFrom, hscan, hrest]
  simp

/-- **Cutting** a text in two at one of its characters. -/
theorem cut {pre rest : List UInt8} (h : b.cells = pre ++ t₁ ++ c :: t₂ ++ 0 :: rest)
    (h0 : 0 ∉ t₁ ++ c :: t₂) :
    ∃ b', b.store (pre.length + t₁.length) 0 = some b' ∧
      b'.cells = pre ++ t₁ ++ 0 :: t₂ ++ 0 :: rest ∧ b'.TextAt pre.length t₁ ∧
      b'.TextAt (pre.length + t₁.length + 1) t₂ := by
  have hcells : b.cells = (pre ++ t₁) ++ c :: (t₂ ++ 0 :: rest) := by rw [h]; simp
  obtain ⟨b', hstore, hb'⟩ := store_of_cells hcells 0
  rw [List.length_append] at hstore
  refine ⟨b', hstore, by rw [hb']; simp, ?_, ?_⟩
  · exact of_cells hb' fun hmem => h0 (List.mem_append_left _ hmem)
  · have hb'' : b'.cells = (pre ++ t₁ ++ [0]) ++ t₂ ++ 0 :: rest := by rw [hb']; simp
    have htext := of_cells hb'' fun hmem => h0 (by simp [hmem])
    simpa [Nat.add_assoc] using htext

end TextAt

end Buffer

end InternetProgramming.Interaction
