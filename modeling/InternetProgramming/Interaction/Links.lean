/-
# Doubly linked lists in a store

A list built of nodes is a claim about a store: from each node the next one is found, and from
that one the way back.  An operation on it changes a few fields of a few nodes, and what it
does to the list is to be proved, not defined.

* `Store α β`: the allocated nodes, by address.  A freed address holds nothing.
* `Segment s p l q`: the nodes `l` are linked in this order, with `p` before them and `q` behind
  them.  `l` gives the addresses together with what the nodes carry, so the segment is all there
  is to know about them.
* `IsList s l`: `l` is a whole list, with nothing before it and nothing behind it.

`segment_append` cuts a segment anywhere.  The rules of section 3 are the edits: each cuts the
list at the nodes whose fields are written and leaves the rest to `Segment.frame`.
-/
import Mathlib.Data.List.Nodup
import Mathlib.Logic.Function.Basic

namespace InternetProgramming.Interaction

variable {α β : Type}

/-- A node: its neighbours, and what it carries. -/
structure Node (α β : Type) where
  prev : Option α
  next : Option α
  data : β
deriving DecidableEq

/-- The allocated nodes. -/
abbrev Store (α β : Type) := α → Option (Node α β)

/-! ## 1. Writing to nodes -/

namespace Store

variable [DecidableEq α] {s : Store α β} {x y : α} {q : Option α}

/-- A new node, or a new content of an old one. -/
def put (s : Store α β) (x : α) (n : Node α β) : Store α β := Function.update s x (some n)

/-- The node is given back. -/
def free (s : Store α β) (x : α) : Store α β := Function.update s x none

/-- `x->next = q`. -/
def setNext (s : Store α β) (x : α) (q : Option α) : Store α β :=
  Function.update s x ((s x).map fun n => { n with next := q })

/-- `x->prev = q`. -/
def setPrev (s : Store α β) (x : α) (q : Option α) : Store α β :=
  Function.update s x ((s x).map fun n => { n with prev := q })

@[simp] theorem put_self {n : Node α β} : s.put x n x = some n := Function.update_self ..

@[simp] theorem free_self : s.free x x = none := Function.update_self ..

@[simp] theorem setNext_self : s.setNext x q x = (s x).map fun n => { n with next := q } :=
  Function.update_self ..

@[simp] theorem setPrev_self : s.setPrev x q x = (s x).map fun n => { n with prev := q } :=
  Function.update_self ..

theorem put_of_ne {n : Node α β} (h : y ≠ x) : s.put x n y = s y := Function.update_of_ne h ..

theorem free_of_ne (h : y ≠ x) : s.free x y = s y := Function.update_of_ne h ..

theorem setNext_of_ne (h : y ≠ x) : s.setNext x q y = s y := Function.update_of_ne h ..

theorem setPrev_of_ne (h : y ≠ x) : s.setPrev x q y = s y := Function.update_of_ne h ..

/-- A write allocates nothing and frees nothing. -/
@[simp] theorem isSome_setNext : (s.setNext x q y).isSome = (s y).isSome := by
  by_cases h : y = x
  · subst h
    rw [setNext_self, Option.isSome_map]
  · rw [setNext_of_ne h]

@[simp] theorem isSome_setPrev : (s.setPrev x q y).isSome = (s y).isSome := by
  by_cases h : y = x
  · subst h
    rw [setPrev_self, Option.isSome_map]
  · rw [setPrev_of_ne h]

end Store

/-- The nodes that are met from `p` on, `n` of them at most. -/
def Store.follow (s : Store α β) : ℕ → Option α → List (α × β)
  | 0, _ => []
  | _ + 1, none => []
  | n + 1, some x => match s x with
    | some node => (x, node.data) :: s.follow n node.next
    | none => []

/-! ## 2. Segments -/

/-- The addresses of the nodes. -/
def addrs (l : List (α × β)) : List α := l.map Prod.fst

/-- Where the first node is, or `q` if there is none. -/
def firstOf : List (α × β) → Option α → Option α
  | [], q => q
  | a :: _, _ => some a.1

/-- Where the last node is, or `p` if there is none. -/
def lastOf : Option α → List (α × β) → Option α
  | p, [] => p
  | _, a :: l => lastOf (some a.1) l

/-- The nodes are linked in this order, with `p` before them and `q` behind them. -/
def Segment (s : Store α β) : Option α → List (α × β) → Option α → Prop
  | _, [], _ => True
  | p, a :: l, q => s a.1 = some ⟨p, firstOf l q, a.2⟩ ∧ Segment s (some a.1) l q

section Segment

variable {s s' : Store α β} {p q p' q' : Option α} {a b : α × β} {l l₁ l₂ : List (α × β)}

@[simp] theorem addrs_nil : addrs ([] : List (α × β)) = [] := rfl

@[simp] theorem addrs_cons : addrs (a :: l) = a.1 :: addrs l := rfl

@[simp] theorem addrs_append : addrs (l₁ ++ l₂) = addrs l₁ ++ addrs l₂ := List.map_append

@[simp] theorem firstOf_nil : firstOf ([] : List (α × β)) q = q := rfl

@[simp] theorem firstOf_cons : firstOf (a :: l) q = some a.1 := rfl

@[simp] theorem lastOf_nil : lastOf p ([] : List (α × β)) = p := rfl

@[simp] theorem lastOf_cons : lastOf p (a :: l) = lastOf (some a.1) l := rfl

@[simp] theorem segment_nil : Segment s p [] q := trivial

theorem segment_cons : Segment s p (a :: l) q ↔
    s a.1 = some ⟨p, firstOf l q, a.2⟩ ∧ Segment s (some a.1) l q := Iff.rfl

@[simp] theorem firstOf_append : firstOf (l₁ ++ l₂) q = firstOf l₁ (firstOf l₂ q) := by
  cases l₁ with
  | nil => rfl
  | cons a l₁ => rfl

@[simp] theorem lastOf_append : lastOf p (l₁ ++ l₂) = lastOf (lastOf p l₁) l₂ := by
  induction l₁ generalizing p with
  | nil => rfl
  | cons a l₁ ih => exact ih

theorem exists_firstOf (hl : l ≠ []) : ∃ a ∈ l, firstOf l q = some a.1 := by
  cases l with
  | nil => exact absurd rfl hl
  | cons a l => exact ⟨a, List.mem_cons_self, rfl⟩

theorem exists_lastOf (hl : l ≠ []) : ∃ a ∈ l, lastOf p l = some a.1 := by
  obtain ⟨l, a, rfl⟩ := (List.eq_nil_or_concat' l).resolve_left hl
  exact ⟨a, by simp, by simp⟩

/-- **A segment can be cut anywhere.** -/
theorem segment_append : Segment s p (l₁ ++ l₂) q ↔
    Segment s p l₁ (firstOf l₂ q) ∧ Segment s (lastOf p l₁) l₂ q := by
  induction l₁ generalizing p with
  | nil => simp
  | cons a l₁ ih =>
    rw [List.cons_append, segment_cons, segment_cons, ih, firstOf_append, lastOf_cons, and_assoc]

/-- **The frame rule.**  A segment depends on its own nodes only. -/
theorem Segment.frame (h : Segment s p l q) (hag : ∀ x ∈ addrs l, s' x = s x) :
    Segment s' p l q := by
  induction l generalizing p with
  | nil => trivial
  | cons a l ih =>
    obtain ⟨ha, hl⟩ := List.forall_mem_cons.mp hag
    exact ⟨ha.trans h.1, ih h.2 hl⟩

/-- What a node of the segment holds. -/
theorem Segment.get (h : Segment s p (l₁ ++ a :: l₂) q) :
    s a.1 = some ⟨lastOf p l₁, firstOf l₂ q, a.2⟩ := (segment_append.mp h).2.1

theorem Segment.next (h : Segment s p (l₁ ++ a :: b :: l₂) q) :
    s b.1 = some ⟨some a.1, firstOf l₂ q, b.2⟩ := (segment_append.mp h).2.2.1

theorem Segment.isSome (h : Segment s p l q) : ∀ x ∈ addrs l, (s x).isSome := by
  induction l generalizing p with
  | nil => simp
  | cons a l ih =>
    refine List.forall_mem_cons.mpr ⟨?_, ih h.2⟩
    rw [h.1]
    rfl

/-- Following the links gives the segment. -/
theorem Segment.follow_eq (h : Segment s p l none) {n : ℕ} (hn : l.length ≤ n) :
    s.follow n (firstOf l none) = l := by
  induction l generalizing p n with
  | nil => cases n <;> rfl
  | cons a l ih =>
    obtain ⟨n, rfl⟩ : ∃ m, n = m + 1 := ⟨n - 1, by rw [List.length_cons] at hn; omega⟩
    rw [firstOf_cons, Store.follow, h.1]
    exact congrArg (a :: ·) (ih h.2 (by simpa using hn))

variable [DecidableEq α]

/-- Another predecessor for the first node. -/
theorem Segment.setPrev (h : Segment s p (a :: l) q) (hnodup : (addrs (a :: l)).Nodup) :
    Segment (s.setPrev a.1 p') p' (a :: l) q := by
  obtain ⟨hnot, -⟩ := List.nodup_cons.mp hnodup
  refine ⟨?_, h.2.frame fun x hx => ?_⟩
  · rw [Store.setPrev_self, h.1]
    rfl
  · exact Store.setPrev_of_ne fun e => hnot (e ▸ hx)

/-- Another successor for the last node. -/
theorem Segment.setNext (h : Segment s p (l ++ [a]) q) (hnodup : (addrs (l ++ [a])).Nodup) :
    Segment (s.setNext a.1 q') p (l ++ [a]) q' := by
  rw [segment_append] at h ⊢
  refine ⟨h.1.frame fun x hx => ?_, ?_, trivial⟩
  · rw [addrs_append, List.nodup_append] at hnodup
    exact Store.setNext_of_ne (hnodup.2.2 x hx a.1 (by simp))
  · rw [Store.setNext_self, h.2.1]
    rfl

end Segment

/-! ## 3. Lists and what can be done to them -/

/-- The nodes `l` are a whole list. -/
structure IsList (s : Store α β) (l : List (α × β)) : Prop where
  nodup : (addrs l).Nodup
  seg : Segment s none l none

namespace IsList

variable {s s' : Store α β} {a b t : α × β} {l l₁ l₂ : List (α × β)}

theorem nil : IsList s ([] : List (α × β)) := ⟨List.nodup_nil, trivial⟩

theorem frame (h : IsList s l) (hag : ∀ x ∈ addrs l, s' x = s x) : IsList s' l :=
  ⟨h.nodup, h.seg.frame hag⟩

theorem get (h : IsList s (l₁ ++ a :: l₂)) :
    s a.1 = some ⟨lastOf none l₁, firstOf l₂ none, a.2⟩ := h.seg.get

/-- The addresses on the two sides of a cut are different. -/
theorem ne (h : IsList s (l₁ ++ l₂)) {x y : α} (hx : x ∈ addrs l₁) (hy : y ∈ addrs l₂) : x ≠ y := by
  have hnodup := h.nodup
  rw [addrs_append, List.nodup_append] at hnodup
  exact hnodup.2.2 x hx y hy

/-- A list of one node. -/
theorem single (h : s t.1 = some ⟨none, none, t.2⟩) : IsList s [t] :=
  ⟨List.nodup_singleton t.1, h, trivial⟩

variable [DecidableEq α]

/-- A node outside the list is freed. -/
theorem free (h : IsList s l) {x : α} (hx : x ∉ addrs l) : IsList (s.free x) l :=
  h.frame fun _ hy => Store.free_of_ne fun e => hx (e ▸ hy)

/-- A node of the list carries something else from now on. -/
theorem put (h : IsList s (l₁ ++ a :: l₂)) {d : β} :
    IsList (s.put a.1 ⟨lastOf none l₁, firstOf l₂ none, d⟩) (l₁ ++ (a.1, d) :: l₂) := by
  have hnodup := (List.perm_middle.map Prod.fst).nodup_iff.mp h.nodup
  obtain ⟨hnot, -⟩ : a.1 ∉ addrs (l₁ ++ l₂) ∧ _ := List.nodup_cons.mp hnodup
  rw [addrs_append, List.mem_append, not_or] at hnot
  obtain ⟨hl₁, -, hl₂⟩ := segment_append.mp h.seg
  refine ⟨?_, segment_append.mpr ⟨hl₁.frame fun x hx => ?_, Store.put_self,
    hl₂.frame fun x hx => ?_⟩⟩
  · simpa using h.nodup
  · exact Store.put_of_ne fun e => hnot.1 (e ▸ hx)
  · exact Store.put_of_ne fun e => hnot.2 (e ▸ hx)

/-- **Appending** a node that has no successor. -/
theorem append (h : IsList s (l ++ [a])) {pv : Option α} (ht : s t.1 = some ⟨pv, none, t.2⟩)
    (hnew : t.1 ∉ addrs (l ++ [a])) :
    IsList ((s.setNext a.1 (some t.1)).setPrev t.1 (some a.1)) (l ++ [a] ++ [t]) := by
  have hta : t.1 ≠ a.1 := fun e => hnew (by simp [e])
  refine ⟨?_, segment_append.mpr ⟨?_, ?_, trivial⟩⟩
  · rw [addrs_append, List.nodup_append]
    refine ⟨h.nodup, by simp, fun x hx y hy e => ?_⟩
    obtain rfl : y = t.1 := by simpa using hy
    exact hnew (e ▸ hx)
  · refine (h.seg.setNext h.nodup).frame fun x hx => ?_
    exact Store.setPrev_of_ne fun e => hnew (e ▸ hx)
  · rw [Store.setPrev_self, Store.setNext_of_ne hta, ht]
    simp

/-- **Linking in** a node between two others. -/
theorem link (h : IsList s (l₁ ++ [a] ++ b :: l₂)) {pv nx : Option α}
    (ht : s t.1 = some ⟨pv, nx, t.2⟩) (hnew : t.1 ∉ addrs (l₁ ++ [a] ++ b :: l₂)) :
    IsList ((((s.setNext t.1 (some b.1)).setPrev t.1 (some a.1)).setNext a.1 (some t.1)).setPrev
      b.1 (some t.1)) (l₁ ++ [a] ++ t :: b :: l₂) := by
  obtain ⟨hleft, hright⟩ := segment_append.mp h.seg
  have hnodup := h.nodup
  rw [addrs_append, List.nodup_append] at hnodup
  obtain ⟨hnodup₁, hnodup₂, -⟩ := hnodup
  have hnew' : t.1 ∉ addrs (l₁ ++ [a]) ∧ t.1 ∉ addrs (b :: l₂) := by
    rwa [addrs_append, List.mem_append, not_or] at hnew
  have hta : t.1 ≠ a.1 := fun e => hnew'.1 (by simp [e])
  have htb : t.1 ≠ b.1 := fun e => hnew'.2 (by simp [e])
  refine ⟨?_, segment_append.mpr ⟨?_, ?_, ?_⟩⟩
  · have hperm : (addrs (l₁ ++ [a] ++ t :: b :: l₂)).Perm
        (t.1 :: addrs (l₁ ++ [a] ++ b :: l₂)) := List.perm_middle.map Prod.fst
    exact hperm.nodup_iff.mpr (List.nodup_cons.mpr ⟨hnew, h.nodup⟩)
  · refine (hleft.setNext hnodup₁).frame fun x hx => ?_
    have hxb : x ≠ b.1 := h.ne hx (by simp)
    have hxt : x ≠ t.1 := fun e => hnew'.1 (e ▸ hx)
    rw [Store.setPrev_of_ne hxb]
    by_cases hxa : x = a.1
    · subst hxa
      simp [Store.setPrev_of_ne hxt, Store.setNext_of_ne hxt]
    · rw [Store.setNext_of_ne hxa, Store.setPrev_of_ne hxt, Store.setNext_of_ne hxt,
        Store.setNext_of_ne hxa]
  · rw [Store.setPrev_of_ne htb, Store.setNext_of_ne hta, Store.setPrev_self, Store.setNext_self,
      ht]
    simp
  · refine (hright.setPrev hnodup₂).frame fun x hx => ?_
    have hxa : x ≠ a.1 := (h.ne (by simp) hx).symm
    have hxt : x ≠ t.1 := fun e => hnew'.2 (e ▸ hx)
    by_cases hxb : x = b.1
    · subst hxb
      simp [Store.setNext_of_ne hxa, Store.setPrev_of_ne hxt, Store.setNext_of_ne hxt]
    · rw [Store.setPrev_of_ne hxb, Store.setNext_of_ne hxa, Store.setPrev_of_ne hxt,
        Store.setNext_of_ne hxt, Store.setPrev_of_ne hxb]

/-- **Unlinking** a node between two others.  Its own fields stay. -/
theorem unlink (h : IsList s (l₁ ++ [a] ++ t :: b :: l₂)) :
    IsList ((s.setNext a.1 (some b.1)).setPrev b.1 (some a.1)) (l₁ ++ [a] ++ b :: l₂) ∧
      (s.setNext a.1 (some b.1)).setPrev b.1 (some a.1) t.1 = s t.1 := by
  have hta : t.1 ≠ a.1 := (h.ne (by simp) (by simp)).symm
  obtain ⟨hleft, hright⟩ := segment_append.mp h.seg
  have hnodup : (t.1 :: addrs (l₁ ++ [a] ++ b :: l₂)).Nodup :=
    (List.perm_middle.map Prod.fst).nodup_iff.mp h.nodup
  obtain ⟨hnot, hnodup⟩ := List.nodup_cons.mp hnodup
  have htb : t.1 ≠ b.1 := fun e => hnot (by simp [e])
  have hparts := hnodup
  rw [addrs_append, List.nodup_append] at hparts
  obtain ⟨hnodup₁, hnodup₂, hne⟩ := hparts
  refine ⟨⟨hnodup, segment_append.mpr ⟨?_, ?_⟩⟩, ?_⟩
  · refine (hleft.setNext hnodup₁).frame fun x hx => ?_
    exact Store.setPrev_of_ne (hne x hx b.1 (by simp))
  · refine (hright.2.setPrev hnodup₂).frame fun x hx => ?_
    have hxa : x ≠ a.1 := (hne a.1 (by simp) x hx).symm
    by_cases hxb : x = b.1
    · subst hxb
      simp [Store.setNext_of_ne hxa]
    · rw [Store.setPrev_of_ne hxb, Store.setNext_of_ne hxa, Store.setPrev_of_ne hxb]
  · rw [Store.setPrev_of_ne htb, Store.setNext_of_ne hta]

/-- Dropping the first of several nodes. -/
theorem tail (h : IsList s (t :: b :: l)) :
    IsList (s.setPrev b.1 none) (b :: l) ∧ s.setPrev b.1 none t.1 = s t.1 := by
  obtain ⟨hnot, hnodup⟩ := List.nodup_cons.mp h.nodup
  have htb : t.1 ≠ b.1 := fun e => hnot (by simp [e])
  exact ⟨⟨hnodup, h.seg.2.setPrev hnodup⟩, Store.setPrev_of_ne htb⟩

/-- Dropping the last of several nodes. -/
theorem dropLast (h : IsList s (l ++ [a] ++ [t])) :
    IsList (s.setNext a.1 none) (l ++ [a]) ∧ s.setNext a.1 none t.1 = s t.1 := by
  have hta : t.1 ≠ a.1 := (h.ne (by simp) (by simp)).symm
  have hnodup := h.nodup
  rw [addrs_append, List.nodup_append] at hnodup
  exact ⟨⟨hnodup.1, (segment_append.mp h.seg).1.setNext hnodup.1⟩, Store.setNext_of_ne hta⟩

end IsList

end InternetProgramming.Interaction
