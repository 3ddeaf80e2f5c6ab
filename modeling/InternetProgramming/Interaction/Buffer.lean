/-
# Fixed-size buffers and terminated text

A C array of characters has a size and no length.  What is read from it as text ends at the
first terminator, and nothing guarantees that there is one.

* `Buffer α n`: `n` cells; the size is part of the type, so no operation can change it.
* `Buffer.write b data`: an incoming block of `data` overwrites the front of `b` and leaves
  the rest as it was.  This is what makes stale text possible.
* `Buffer.text? b`: the text the buffer holds, or `none` when no terminator is inside it and
  reading the text would leave the buffer.

The terminator is the `0` of the character type.
-/
import Mathlib.Algebra.Group.Defs
import Mathlib.Data.List.Basic
import Mathlib.Data.List.TakeWhile

namespace InternetProgramming.Interaction

/-- `n` cells of type `α`. -/
structure Buffer (α : Type) (n : ℕ) where
  cells : List α
  length_eq : cells.length = n
deriving DecidableEq

namespace Buffer

variable {α : Type} {n : ℕ}

@[ext] theorem ext {b b' : Buffer α n} (h : b.cells = b'.cells) : b = b' := by
  cases b; cases b'; simpa using h

/-! ## 1. Writing -/

/-- All cells hold `a`. -/
def replicate (n : ℕ) (a : α) : Buffer α n := ⟨List.replicate n a, List.length_replicate⟩

/-- The front of the buffer is overwritten by `data`, as far as it fits. -/
def write (b : Buffer α n) (data : List α) : Buffer α n where
  cells := (data ++ b.cells.drop data.length).take n
  length_eq := by
    have := b.length_eq
    simp only [List.length_take, List.length_append, List.length_drop]
    omega

/-- Cell `i` is overwritten by `a`; an index outside the buffer changes nothing in it. -/
def set (b : Buffer α n) (i : ℕ) (a : α) : Buffer α n where
  cells := b.cells.set i a
  length_eq := by rw [List.length_set, b.length_eq]

theorem write_cells {b : Buffer α n} {data : List α} (h : data.length ≤ n) :
    (b.write data).cells = data ++ b.cells.drop data.length := by
  have := b.length_eq
  refine List.take_of_length_le ?_
  simp only [List.length_append, List.length_drop]
  omega

@[simp] theorem write_nil (b : Buffer α n) : b.write [] = b := by
  ext1
  rw [write_cells (Nat.zero_le n)]
  simp

/-- A block that fills the buffer leaves nothing of what was there. -/
theorem write_cells_of_length_eq {b : Buffer α n} {data : List α} (h : data.length = n) :
    (b.write data).cells = data := by
  have := b.length_eq
  rw [write_cells h.le, List.drop_of_length_le (by omega), List.append_nil]

/-- **A buffer shows a block exactly, whatever it held before, only if the block filled it.**
The cells past a shorter block are the old ones, and those can be anything. -/
theorem length_eq_of_write_cells {flip : α → α} (hflip : ∀ a, flip a ≠ a) {m data : List α}
    (hm : m.length = n) (hd : data.length ≤ n)
    (h : ((⟨m.map flip, by simpa using hm⟩ : Buffer α n).write data).cells = m) :
    data.length = n := by
  rw [write_cells hd] at h
  by_contra hne
  have hlt : data.length < m.length := by omega
  have hcell : (data ++ (m.map flip).drop data.length)[data.length]? = m[data.length]? := by
    rw [h]
  rw [List.getElem?_append_right (Nat.le_refl _), Nat.sub_self, List.getElem?_drop,
    Nat.add_zero, List.getElem?_map, List.getElem?_eq_getElem hlt] at hcell
  exact hflip _ (Option.some.inj hcell)

/-! ## 2. Text -/

variable [DecidableEq α] [Zero α]

/-- The text in the buffer: the cells before the first terminator, if there is one. -/
def text? (b : Buffer α n) : Option (List α) :=
  if 0 ∈ b.cells then some (b.cells.takeWhile (· ≠ 0)) else none

theorem mem_of_text? {b : Buffer α n} {s : List α} (h : b.text? = some s) : 0 ∈ b.cells := by
  by_contra hnot
  rw [text?, if_neg hnot] at h
  cases h

/-- Nothing is cut off text without terminators. -/
theorem takeWhile_eq_self_iff {data : List α} :
    data.takeWhile (· ≠ 0) = data ↔ 0 ∉ data := by
  rw [List.takeWhile_eq_self_iff]
  constructor
  · intro hne h0
    exact absurd (hne 0 h0) (by simp)
  · intro h0 a ha
    exact decide_eq_true fun ha0 => h0 (ha0 ▸ ha)

theorem text?_eq_some_iff {b : Buffer α n} {s : List α} :
    b.text? = some s ↔ 0 ∉ s ∧ s ++ [0] <+: b.cells := by
  constructor
  · intro h
    simp only [text?] at h
    split at h
    · rename_i hz
      obtain rfl := Option.some.inj h
      refine ⟨fun h0 => by simpa using List.mem_takeWhile_imp h0, ?_⟩
      have hsplit := List.takeWhile_append_dropWhile (p := fun a : α => decide (a ≠ 0))
        (l := b.cells)
      cases hdrop : b.cells.dropWhile (fun a => decide (a ≠ 0)) with
      | nil =>
        rw [hdrop, List.append_nil] at hsplit
        rw [← hsplit] at hz
        exact absurd (List.mem_takeWhile_imp hz) (by simp)
      | cons a rest =>
        have ha := List.head_dropWhile_not (l := b.cells) (fun a : α => decide (a ≠ 0))
          (by rw [hdrop]; simp)
        simp only [hdrop, List.head_cons, decide_eq_false_iff_not, not_not] at ha
        refine ⟨rest, ?_⟩
        rw [hdrop, ha] at hsplit
        rw [List.append_assoc, List.singleton_append]
        exact hsplit
    · simp at h
  · rintro ⟨h0, rest, hr⟩
    have hz : (0 : α) ∈ b.cells := by rw [← hr]; simp
    have hs : ∀ a ∈ s, decide (a ≠ 0) = true := fun a ha =>
      decide_eq_true fun e => h0 (e ▸ ha)
    rw [text?, if_pos hz, ← hr, List.append_assoc, List.takeWhile_append_of_pos hs]
    simp

/-- **When a block reads back as text.**  The block must be free of terminators, and the cell
after it must already hold one. -/
theorem text?_write {b : Buffer α n} {data : List α} (h : data.length ≤ n) :
    (b.write data).text? = some data ↔ 0 ∉ data ∧ b.cells[data.length]? = some 0 := by
  rw [text?_eq_some_iff, write_cells h, List.prefix_append_right_inj]
  refine and_congr_right fun _ => ?_
  rw [← List.head?_drop]
  cases b.cells.drop data.length with
  | nil => simp
  | cons a rest => simp [List.cons_prefix_cons, eq_comm]

omit [DecidableEq α] in
/-- A cleared buffer has a terminator left, unless the block filled it and has none. -/
theorem zero_mem_write_replicate {data : List α} (h : data.length ≤ n) :
    0 ∈ ((replicate n (0 : α)).write data).cells ↔ data.length < n ∨ 0 ∈ data := by
  rw [write_cells h, List.mem_append, replicate, List.drop_replicate, List.mem_replicate, or_comm]
  simp only [and_true, ne_eq, Nat.sub_eq_zero_iff_le, Nat.not_le]

/-- A block without terminators moves none in front of its end, and behind its end leaves them
where they were. -/
theorem terminator_write {b : Buffer α n} {data : List α} (h : data.length ≤ n) (h0 : 0 ∉ data)
    {k : ℕ} : (b.write data).cells[k]? = some 0 ↔
      data.length ≤ k ∧ b.cells[k]? = some 0 := by
  rw [write_cells h]
  rcases Nat.lt_or_ge k data.length with hk | hk
  · rw [List.getElem?_append_left hk]
    constructor
    · intro hz
      exact absurd (List.mem_of_getElem? hz) h0
    · intro hz
      omega
  · rw [List.getElem?_append_right hk, List.getElem?_drop, Nat.add_sub_cancel' hk]
    simp [hk]

/-- Text ends in front of the first terminator. -/
theorem text?_of_cells {b : Buffer α n} {s rest : List α} (h : b.cells = s ++ 0 :: rest) :
    b.text? = some (s.takeWhile (· ≠ 0)) := by
  rw [text?, if_pos (by rw [h]; simp), h, List.takeWhile_append]
  split
  · rename_i hlen
    rw [(List.takeWhile_prefix _).eq_of_length hlen]
    simp
  · rfl

/-- A terminated buffer holds its text, a terminator, and something. -/
theorem exists_cells_of_text? {b : Buffer α n} {s : List α} (h : b.text? = some s) :
    ∃ rest, b.cells = s ++ 0 :: rest := by
  obtain ⟨-, rest, hcells⟩ := text?_eq_some_iff.mp h
  exact ⟨rest, by rw [← hcells, List.append_assoc, List.singleton_append]⟩

theorem length_lt_of_text? {b : Buffer α n} {s : List α} (h : b.text? = some s) :
    s.length < n := by
  obtain ⟨rest, hcells⟩ := exists_cells_of_text? h
  have hlen := b.length_eq
  rw [hcells] at hlen
  simp only [List.length_append, List.length_cons] at hlen
  omega

/-- Terminating text where it ends does nothing. -/
theorem set_text? {b : Buffer α n} {s : List α} (h : b.text? = some s) :
    b.set s.length 0 = b := by
  obtain ⟨rest, hcells⟩ := exists_cells_of_text? h
  ext1
  change b.cells.set s.length 0 = b.cells
  rw [hcells, List.set_append_right _ _ (Nat.le_refl _), Nat.sub_self, List.set_cons_zero]

omit [DecidableEq α] in
/-- A block that leaves room, and a terminator behind it. -/
theorem set_write_cells {b : Buffer α n} {data : List α} (h : data.length < n) :
    ((b.write data).set data.length 0).cells =
      data ++ 0 :: b.cells.drop (data.length + 1) := by
  have hlen := b.length_eq
  have hdrop : b.cells.drop data.length
      = b.cells[data.length] :: b.cells.drop (data.length + 1) :=
    List.drop_eq_getElem_cons (by omega)
  change (b.write data).cells.set data.length 0 = _
  rw [write_cells h.le, hdrop, List.set_append_right _ _ (Nat.le_refl _), Nat.sub_self,
    List.set_cons_zero]

/-- Terminating a block that leaves room makes it readable, up to its first terminator. -/
theorem text?_set_write {b : Buffer α n} {data : List α} (h : data.length < n) :
    ((b.write data).set data.length 0).text? = some (data.takeWhile (· ≠ 0)) :=
  text?_of_cells (set_write_cells h)

/-- ...and so does a block that brings its terminator along. -/
theorem text?_write_append {b : Buffer α n} {data : List α} (h : data.length < n) :
    (b.write (data ++ [0])).text? = some (data.takeWhile (· ≠ 0)) := by
  have hle : (data ++ [0]).length ≤ n := by
    rw [List.length_append]
    exact h
  have hcells := write_cells (b := b) hle
  rw [List.append_assoc, List.singleton_append] at hcells
  exact text?_of_cells hcells

/-- A block in a cleared buffer is readable too, if it leaves room. -/
theorem text?_write_replicate {data : List α} (h : data.length < n) :
    ((replicate n (0 : α)).write data).text? = some (data.takeWhile (· ≠ 0)) := by
  have hcells : ((replicate n (0 : α)).write data).cells =
      data ++ 0 :: List.replicate (n - data.length - 1) 0 := by
    rw [write_cells h.le, replicate, List.drop_replicate, ← List.replicate_succ,
      Nat.sub_add_cancel (by omega)]
  exact text?_of_cells hcells

/-- **A block over older text** reads on in the older text where the block ends. -/
theorem text?_write_of_text? {b : Buffer α n} {s data : List α} (h : b.text? = some s)
    (hle : data.length ≤ s.length) :
    (b.write data).text? = some ((data ++ s.drop data.length).takeWhile (· ≠ 0)) := by
  obtain ⟨rest, hcells⟩ := exists_cells_of_text? h
  have hlt := length_lt_of_text? h
  have hwritten : (b.write data).cells = (data ++ s.drop data.length) ++ 0 :: rest := by
    rw [write_cells (by omega), hcells, List.drop_append_of_le_length hle, List.append_assoc]
  exact text?_of_cells hwritten

/-- A cleared buffer holds no text. -/
theorem text?_replicate (h : 0 < n) : (replicate n (0 : α)).text? = some [] := by
  obtain ⟨m, rfl⟩ := Nat.exists_eq_succ_of_ne_zero h.ne'
  have hcells : (replicate (m + 1) (0 : α)).cells = [] ++ 0 :: List.replicate m 0 :=
    List.replicate_succ
  exact text?_of_cells hcells

end Buffer

end InternetProgramming.Interaction
