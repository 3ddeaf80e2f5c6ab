/-
# What the operations of the timer list do to it

`Represents s l` says that the pointers of `s` are the list `l`.  Each operation is followed
through the store once, and then only the list counts.

* `del_timer` and `tick` are right on every list (`represents_delTimer`, `represents_tick`).
* `add_timer` keeps the list sorted unless the new timer expires first of several, or together
  with the first (`addTimer_iff`).
* `adjust_timer` keeps it sorted unless a timer is moved from the middle to the end, or the
  first one is to stay in front of an equal one (`adjustTimer_iff`).

Where they are wrong, the first node is used as if it had a predecessor, or a node moved to the
end keeps the successor it had in the middle.  In the second case the links form a circle, and
the next timer to be added walks along it for ever
(`addTimer_endless_of_adjustTimer`).
-/
import InternetProgramming.TimerList
import Mathlib.Data.List.Sort

namespace InternetProgramming

open Interaction

namespace TimerList

variable {s s' : TimerList} {x t : Addr} {p q : Option Addr} {n : Node Addr Timer} {d : Timer}
variable {l l₁ l₂ ps r₁ r₂ : List (Addr × Timer)} {a b : Addr × Timer} {fuel : ℕ}

/-! ## 1. Following pointers that are allocated -/

theorem deref_of_eq (h : s.heap x = some n) : s.deref (some x) = .ok n := by
  simp only [deref, h]

theorem setNext_of_isSome (h : (s.heap x).isSome) :
    s.setNext (some x) q = .ok { s with heap := s.heap.setNext x q } := by
  obtain ⟨n, hn⟩ := Option.isSome_iff_exists.mp h
  simp only [setNext, hn]

theorem setPrev_of_isSome (h : (s.heap x).isSome) :
    s.setPrev (some x) q = .ok { s with heap := s.heap.setPrev x q } := by
  obtain ⟨n, hn⟩ := Option.isSome_iff_exists.mp h
  simp only [setPrev, hn]

theorem delete_of_isSome (h : (s.heap x).isSome) :
    s.delete (some x) = .ok { s with heap := s.heap.free x } := by
  obtain ⟨n, hn⟩ := Option.isSome_iff_exists.mp h
  simp only [delete, hn]

/-- A step that succeeds hands its result on. -/
theorem bind_ok {α β : Type} {r : Except Fault α} {v : α} {f : α → Except Fault β}
    (h : r = .ok v) : (r >>= f) = f v := by
  rw [h]
  rfl

/-! ## 2. The list that the pointers are -/

/-- The pointers are the list `l`.  (`tail` of an empty list is not looked at.) -/
structure Represents (s : TimerList) (l : List (Addr × Timer)) : Prop where
  list : IsList s.heap l
  head : s.head = firstOf l none
  tail : l ≠ [] → s.tail = lastOf none l

/-- The order of the list. -/
abbrev Sooner (a b : Addr × Timer) : Prop := a.2.expire ≤ b.2.expire

/-- The same nodes are allocated. -/
def SameNodes (s s' : TimerList) : Prop := ∀ x, (s'.heap x).isSome = (s.heap x).isSome

theorem Represents.isSome (h : Represents s l) (hx : x ∈ addrs l) : (s.heap x).isSome :=
  h.list.seg.isSome x hx

/-- A list without nodes and one with some. -/
theorem Represents.head_eq_none_iff (h : Represents s l) : s.head = none ↔ l = [] := by
  rw [h.head]
  cases l with
  | nil => simp
  | cons a l => simp

/-- Only the first node is at `head`... -/
theorem Represents.head_eq_iff (h : Represents s (l₁ ++ (t, d) :: l₂)) :
    some t = s.head ↔ l₁ = [] := by
  rw [h.head]
  cases l₁ with
  | nil => simp
  | cons a l₁ =>
    refine iff_of_false (fun e => ?_) (by simp)
    exact h.list.ne (x := a.1) (y := t) (by simp) (by simp) (Option.some.inj e).symm

/-- ...and only the last one at `tail`. -/
theorem Represents.tail_eq_iff (h : Represents s (l₁ ++ (t, d) :: l₂)) :
    some t = s.tail ↔ l₂ = [] := by
  rw [h.tail (by simp), lastOf_append, lastOf_cons]
  cases l₂ with
  | nil => simp
  | cons b l₂ =>
    refine iff_of_false (fun e => ?_) (by simp)
    obtain ⟨c, hc, hlast⟩ := exists_lastOf (p := some t) (l := b :: l₂) (by simp)
    have hlist := h.list
    rw [← List.singleton_append, ← List.append_assoc] at hlist
    exact hlist.ne (x := t) (y := c.1) (by simp) (List.mem_map_of_mem hc)
      (Option.some.inj (e.trans hlast))

/-- A new node is none of the list. -/
theorem Represents.alloc (h : Represents s l) (hnew : t ∉ addrs l) : Represents (s.alloc t d) l :=
  ⟨h.list.frame fun _ hx => Store.put_of_ne fun e => hnew (e ▸ hx), h.head, h.tail⟩

theorem represents_empty : Represents {} [] := ⟨.nil, rfl, fun h => absurd rfl h⟩

/-! ## 3. `add_timer(timer, lst_head)` -/

/-- The loop passes over timers that expire earlier. -/
theorem addTimerFrom_walk (hseg : Segment s.heap p (r₁ ++ b :: r₂) none)
    (ht : s.heap t = some n) (hlt : ∀ a ∈ r₁, a.2.expire < n.data.expire) :
    addTimerFrom (some t) (fuel + r₁.length) (firstOf (r₁ ++ b :: r₂) none) s =
      addTimerFrom (some t) fuel (some b.1) s := by
  induction r₁ generalizing p with
  | nil => rfl
  | cons a r₁ ih =>
    rw [List.cons_append] at hseg
    obtain ⟨ha, hrest⟩ := hseg
    obtain ⟨hlt₁, hlt⟩ := List.forall_mem_cons.mp hlt
    have hnext : firstOf (r₁ ++ b :: r₂) (none : Option Addr) ≠ none := by
      cases r₁ <;> simp
    rw [List.length_cons, ← Nat.add_assoc, List.cons_append, firstOf_cons, addTimerFrom,
      bind_ok (deref_of_eq ht), bind_ok (deref_of_eq ha), if_pos hlt₁, if_pos hnext, ih hrest hlt]

/-- Behind the last node, the timer is appended. -/
theorem addTimerFrom_append (hb : s.heap b.1 = some ⟨p, none, b.2⟩) (ht : s.heap t = some n)
    (hlt : b.2.expire < n.data.expire) :
    addTimerFrom (some t) (fuel + 1) (some b.1) s = s.appendTimer (some t) := by
  rw [addTimerFrom, bind_ok (deref_of_eq ht), bind_ok (deref_of_eq hb), if_pos hlt,
    if_neg (by simp)]

/-- In front of a node that does not expire earlier, it is inserted. -/
theorem addTimerFrom_insert (hb : s.heap b.1 = some ⟨p, q, b.2⟩) (ht : s.heap t = some n)
    (hle : n.data.expire ≤ b.2.expire) :
    addTimerFrom (some t) (fuel + 1) (some b.1) s = s.insertBefore (some t) (some b.1) := by
  rw [addTimerFrom, bind_ok (deref_of_eq ht), bind_ok (deref_of_eq hb),
    if_neg (Int.not_lt.mpr hle)]

/-- **Appending.**  The node must have no successor yet. -/
theorem represents_appendTimer (h : Represents s (l ++ [a])) (ht : s.heap t = some ⟨p, none, d⟩)
    (hnew : t ∉ addrs (l ++ [a])) :
    ∃ s', s.appendTimer (some t) = .ok s' ∧ Represents s' (l ++ [a] ++ [(t, d)]) ∧
      SameNodes s s' := by
  have ha : (s.heap a.1).isSome := h.isSome (by simp)
  have hlist := h.list.append (t := (t, d)) ht hnew
  have ht' : (s.heap t).isSome := by rw [ht]; rfl
  obtain ⟨heap, head, tail⟩ := s
  obtain rfl : tail = some a.1 := by simpa using h.tail (by simp)
  refine ⟨⟨(heap.setNext a.1 (some t)).setPrev t (some a.1), head, some t⟩, ?_,
    ⟨hlist, ?_, fun _ => by simp⟩, fun x => by simp⟩
  · rw [appendTimer, bind_ok (setNext_of_isSome ha),
      bind_ok (setPrev_of_isSome (by simpa using ht'))]
    rfl
  · exact h.head.trans (by simp)

/-- **Inserting** in front of `b`, which is not the first node. -/
theorem represents_insertBefore (h : Represents s (l₁ ++ [a] ++ b :: l₂))
    (ht : s.heap t = some ⟨p, q, d⟩) (hnew : t ∉ addrs (l₁ ++ [a] ++ b :: l₂)) :
    ∃ s', s.insertBefore (some t) (some b.1) = .ok s' ∧
      Represents s' (l₁ ++ [a] ++ (t, d) :: b :: l₂) ∧ SameNodes s s' := by
  have ht' : (s.heap t).isSome := by rw [ht]; rfl
  have hbt : b.1 ≠ t := fun e => hnew (by simp [← e])
  have hb : s.heap b.1 = some ⟨some a.1, firstOf l₂ none, b.2⟩ := by simpa using h.list.get
  have ha : (s.heap a.1).isSome := h.isSome (by simp)
  have hlist := h.list.link (t := (t, d)) ht hnew
  refine ⟨{ s with heap := (((s.heap.setNext t (some b.1)).setPrev t (some a.1)).setNext a.1
    (some t)).setPrev b.1 (some t) }, ?_, ⟨hlist, ?_, fun _ => ?_⟩, fun x => by simp⟩
  · have hb₁ := (Store.setNext_of_ne (q := some b.1) hbt).trans hb
    have hb₂ := (Store.setPrev_of_ne (q := some a.1) hbt).trans hb₁
    rw [insertBefore, bind_ok (setNext_of_isSome ht'), bind_ok (deref_of_eq hb₁),
      bind_ok (setPrev_of_isSome (by simpa using ht')), bind_ok (deref_of_eq hb₂),
      bind_ok (setNext_of_isSome (by simpa using ha)), setPrev_of_isSome (by simp [hb])]
  · rw [h.head]
    simp
  · rw [h.tail (by simp)]
    simp

/-- Inserting in front of the first node follows its null predecessor. -/
theorem insertBefore_first (hb : s.heap b.1 = some ⟨none, q, b.2⟩) (ht : (s.heap t).isSome)
    (hne : b.1 ≠ t) : s.insertBefore (some t) (some b.1) = .error .null := by
  have hb₁ := (Store.setNext_of_ne (q := some b.1) hne).trans hb
  have hb₂ := (Store.setPrev_of_ne (q := none) hne).trans hb₁
  rw [insertBefore, bind_ok (setNext_of_isSome ht), bind_ok (deref_of_eq hb₁),
    bind_ok (setPrev_of_isSome (by simpa using ht)), bind_ok (deref_of_eq hb₂)]
  rfl

/-! ## 4. Where a timer belongs -/

/-- Either every timer of the list expires before `d`, or there is a first one that does not. -/
theorem exists_place (d : Timer) (l : List (Addr × Timer)) :
    (∀ a ∈ l, a.2.expire < d.expire) ∨ ∃ r₁ b r₂, l = r₁ ++ b :: r₂ ∧
      (∀ a ∈ r₁, a.2.expire < d.expire) ∧ d.expire ≤ b.2.expire := by
  induction l with
  | nil => exact Or.inl (by simp)
  | cons a l ih =>
    rcases lt_or_ge a.2.expire d.expire with ha | ha
    · rcases ih with hall | ⟨r₁, b, r₂, rfl, hlt, hle⟩
      · exact Or.inl (List.forall_mem_cons.mpr ⟨ha, hall⟩)
      · exact Or.inr ⟨a :: r₁, b, r₂, rfl, List.forall_mem_cons.mpr ⟨ha, hlt⟩, hle⟩
    · exact Or.inr ⟨[], a, l, rfl, by simp, ha⟩

/-- A sorted list with a timer put where it belongs. -/
theorem pairwise_place (h : (l₁ ++ l₂).Pairwise Sooner) (h₁ : ∀ a ∈ l₁, a.2.expire ≤ d.expire)
    (h₂ : ∀ a ∈ l₂, d.expire ≤ a.2.expire) : (l₁ ++ (t, d) :: l₂).Pairwise Sooner := by
  obtain ⟨hl₁, hl₂, hle⟩ := List.pairwise_append.mp h
  refine List.pairwise_append.mpr ⟨hl₁, List.pairwise_cons.mpr ⟨h₂, hl₂⟩, fun a ha c hc => ?_⟩
  rcases List.mem_cons.mp hc with rfl | hc
  · exact h₁ a ha
  · exact hle a ha c hc

/-- The operation came back with the timers `l`, linked and sorted, in the nodes it was given. -/
def Sorts (s : TimerList) (r : Except Fault TimerList) (l : List (Addr × Timer)) : Prop :=
  ∃ s' l', r = .ok s' ∧ SameNodes s s' ∧ s'.Represents l' ∧ l'.Perm l ∧ l'.Pairwise Sooner

theorem not_sorts_error {f : Fault} : ¬ Sorts s (.error f) l := by
  rintro ⟨s', l', h, -⟩
  cases h

/-- **The walk from `r` on**, behind the timers `ps`, ends with the timer in its place: unless it
would have to go in front of the very first one, or to the end with a successor of its own. -/
theorem sorts_addTimerFrom (h : Represents s (ps ++ r₁)) (hr : r₁ ≠ [])
    (hsorted : (ps ++ r₁).Pairwise Sooner) (hps : ∀ a ∈ ps, a.2.expire ≤ d.expire)
    (ht : s.heap t = some ⟨p, q, d⟩) (hnew : t ∉ addrs (ps ++ r₁)) (hfuel : r₁.length ≤ fuel)
    (hfirst : ps = [] → ∀ b ∈ r₁.head?, b.2.expire < d.expire)
    (hlast : q = none ∨ ∃ b ∈ r₁, d.expire ≤ b.2.expire) :
    Sorts s (addTimerFrom (some t) fuel (firstOf r₁ none) s) ((t, d) :: (ps ++ r₁)) := by
  have hseg := (segment_append.mp h.list.seg).2
  rcases exists_place d r₁ with hall | ⟨l₁, b, l₂, rfl, hlt, hle⟩
  · -- all of them expire earlier, so the timer goes to the end
    obtain rfl : q = none := by
      refine hlast.resolve_right ?_
      rintro ⟨b, hb, hle⟩
      exact absurd (hall b hb) (Int.not_lt.mpr hle)
    obtain ⟨l₁, b, rfl⟩ := (List.eq_nil_or_concat' r₁).resolve_left hr
    obtain ⟨k, rfl⟩ : ∃ k, fuel = k + 1 + l₁.length := by
      rw [List.length_append] at hfuel
      exact ⟨fuel - 1 - l₁.length, by simp only [List.length_singleton] at hfuel; omega⟩
    have hb : s.heap b.1 = some ⟨lastOf none (ps ++ l₁), none, b.2⟩ := by
      rw [← List.append_assoc] at h
      exact h.list.get
    rw [← List.append_assoc] at h hnew hsorted
    obtain ⟨s', hrun, hrep, hsame⟩ := represents_appendTimer h ht hnew
    refine ⟨s', _, ?_, hsame, hrep, ?_, ?_⟩
    · rw [addTimerFrom_walk hseg ht fun a ha => hall a (List.mem_append_left _ ha),
        addTimerFrom_append hb ht (hall b (by simp)), hrun]
    · rw [← List.append_assoc]
      exact List.perm_append_singleton (t, d) _
    · refine pairwise_place (by simpa using hsorted) (fun a ha => ?_) (by simp)
      rw [List.append_assoc] at ha
      rcases List.mem_append.mp ha with ha | ha
      · exact hps a ha
      · exact (hall a ha).le
  · -- it goes in front of `b`, which is not the first one
    obtain ⟨k, rfl⟩ : ∃ k, fuel = k + 1 + l₁.length := by
      rw [List.length_append, List.length_cons] at hfuel
      exact ⟨fuel - 1 - l₁.length, by omega⟩
    rw [← List.append_assoc] at h hnew hsorted
    have hne : ps ++ l₁ ≠ [] := by
      intro hnil
      obtain ⟨rfl, rfl⟩ := List.append_eq_nil_iff.mp hnil
      exact absurd (hfirst rfl b (by simp)) (Int.not_lt.mpr hle)
    have hb := h.list.get
    obtain ⟨l₀, a, hcut⟩ := (List.eq_nil_or_concat' (ps ++ l₁)).resolve_left hne
    rw [hcut] at h hnew
    obtain ⟨s', hrun, hrep, hsame⟩ := represents_insertBefore h ht hnew
    refine ⟨s', _, ?_, hsame, hrep, ?_, ?_⟩
    · rw [addTimerFrom_walk hseg ht hlt, addTimerFrom_insert hb ht hle, hrun]
    · rw [← hcut, ← List.append_assoc]
      exact List.perm_middle
    · rw [← hcut]
      obtain ⟨-, hcons, -⟩ := List.pairwise_append.mp hsorted
      refine pairwise_place hsorted (fun a ha => ?_) fun a ha => ?_
      · rcases List.mem_append.mp ha with ha | ha
        · exact hps a ha
        · exact (hlt a ha).le
      · rcases List.mem_cons.mp ha with rfl | ha
        · exact hle
        · exact hle.trans ((List.pairwise_cons.mp hcons).1 a ha)

/-! ## 5. `add_timer(timer)` -/

/-- Where `add_timer` can put a timer that expires at `d`: into an empty list, behind the first
timer, or in front of the only one. -/
def Placeable (d : Timer) : List (Addr × Timer) → Prop
  | [] => True
  | [a] => d.expire ≠ a.2.expire
  | a :: _ :: _ => a.2.expire < d.expire

theorem addTimer_empty (h : s.head = none) :
    s.addTimer fuel (some t) = .ok { s with head := some t, tail := some t } := by
  rw [addTimer, if_neg (by simp), if_pos h]
  rfl

/-- The first branch: the new node becomes the head, linked to the LAST node. -/
theorem addTimer_front {y : Addr} {m : Node Addr Timer} (hhead : s.head = some x)
    (hx : s.heap x = some m) (htail : s.tail = some y) (hy : (s.heap y).isSome)
    (ht : s.heap t = some n) (hlt : n.data.expire < m.data.expire) :
    s.addTimer fuel (some t) = .ok { s with
      heap := (s.heap.setNext t (some y)).setPrev y (some t), head := some t } := by
  obtain ⟨heap, head, tail⟩ := s
  obtain rfl : head = some x := hhead
  obtain rfl : tail = some y := htail
  have ht' : (heap t).isSome := Option.isSome_iff_exists.mpr ⟨n, ht⟩
  rw [addTimer, if_neg (by simp), if_neg (by simp), bind_ok (deref_of_eq ht),
    bind_ok (deref_of_eq hx), if_pos hlt]
  refine (bind_ok (setNext_of_isSome ht')).trans (setPrev_of_isSome ?_)
  rw [Store.isSome_setNext]
  exact hy

theorem addTimer_walk {m : Node Addr Timer} (hhead : s.head = some x) (hx : s.heap x = some m)
    (ht : s.heap t = some n) (hle : m.data.expire ≤ n.data.expire) :
    s.addTimer fuel (some t) = addTimerFrom (some t) fuel (some x) s := by
  rw [addTimer, if_neg (by simp), if_neg (by simp [hhead]), bind_ok (deref_of_eq ht), hhead,
    bind_ok (deref_of_eq hx), if_neg (Int.not_lt.mpr hle)]

/-- **In front of the first timer**, the new one is linked to the last: the two are all that is left
of the list. -/
theorem addTimer_earlier (fuel : ℕ) {c : Addr × Timer} (h : Represents s (l ++ [c]))
    (ht : s.heap t = some ⟨none, none, d⟩) (hnew : t ∉ addrs (l ++ [c]))
    (hlt : ∀ a ∈ (l ++ [c]).head?, d.expire < a.2.expire) :
    ∃ s', s.addTimer fuel (some t) = .ok s' ∧ SameNodes s s' ∧ Represents s' [(t, d), c] := by
  have htc : t ≠ c.1 := fun e => hnew (by simp [e])
  have hc : s.heap c.1 = some ⟨lastOf none l, none, c.2⟩ := h.list.get
  have htail : s.tail = some c.1 := by simpa using h.tail (by simp)
  obtain ⟨a, r, hcut⟩ := List.exists_cons_of_ne_nil (List.concat_ne_nil c l)
  rw [hcut] at h hlt
  have ha : s.heap a.1 = some ⟨none, firstOf r none, a.2⟩ := h.list.seg.1
  refine ⟨_, addTimer_front h.head ha htail (by rw [hc]; rfl) ht (hlt a rfl), fun x => by simp,
    ⟨⟨by simp [htc], ?_, ?_, trivial⟩, rfl, fun _ => htail⟩⟩
  · change (s.heap.setNext t (some c.1)).setPrev c.1 (some t) t = _
    rw [Store.setPrev_of_ne htc, Store.setNext_self, ht]
    rfl
  · change (s.heap.setNext t (some c.1)).setPrev c.1 (some t) c.1 = _
    rw [Store.setPrev_self, Store.setNext_of_ne htc.symm, hc]
    rfl

/-- **`add_timer` where it works.** -/
theorem sorts_addTimer (h : Represents s l) (hsorted : l.Pairwise Sooner)
    (ht : s.heap t = some ⟨none, none, d⟩) (hnew : t ∉ addrs l) (hfuel : l.length ≤ fuel)
    (hplace : Placeable d l) : Sorts s (s.addTimer fuel (some t)) ((t, d) :: l) := by
  cases l with
  | nil =>
    exact ⟨_, [(t, d)], addTimer_empty h.head, fun _ => rfl,
      ⟨.single ht, rfl, fun _ => rfl⟩, .refl _, List.pairwise_singleton ..⟩
  | cons a l =>
    have hhead : s.head = some a.1 := h.head
    have ha : s.heap a.1 = some ⟨none, firstOf l none, a.2⟩ := h.list.seg.1
    by_cases hlt : d.expire < a.2.expire
    · -- in front of the only one
      cases l with
      | cons b l => exact absurd hplace (Int.not_lt.mpr hlt.le)
      | nil =>
        obtain ⟨s', hrun, hsame, hrep⟩ :=
          addTimer_earlier (l := []) fuel h ht hnew (by simpa using hlt)
        exact ⟨s', _, hrun, hsame, hrep, .refl _, by simpa using hlt.le⟩
    · have hlt' : a.2.expire < d.expire := by
        cases l with
        | nil => exact lt_of_le_of_ne (Int.not_lt.mp hlt) (Ne.symm hplace)
        | cons b l => exact hplace
      rw [addTimer_walk hhead ha ht (Int.not_lt.mp hlt)]
      have hfirst : ∀ b ∈ (a :: l).head?, b.2.expire < d.expire := by simpa using hlt'
      have hps : ∀ a ∈ ([] : List (Addr × Timer)), a.2.expire ≤ d.expire := by simp
      exact sorts_addTimerFrom h (by simp) hsorted hps ht hnew hfuel (fun _ => hfirst)
        (Or.inl rfl)

/-- The pointers are one list. -/
theorem Represents.unique (h₁ : Represents s l₁) (h₂ : Represents s l₂) : l₁ = l₂ := by
  have hfirst : firstOf l₁ none = firstOf l₂ none := h₁.head.symm.trans h₂.head
  have hfollow := h₂.list.seg.follow_eq (Nat.le_max_right l₁.length l₂.length)
  rw [← hfirst, h₁.list.seg.follow_eq (Nat.le_max_left l₁.length l₂.length)] at hfollow
  exact hfollow

/-- A new timer cannot be put in front of an equal one that is the first. -/
theorem addTimer_first_equal (h : Represents s (a :: l)) (ht : s.heap t = some ⟨none, none, d⟩)
    (hnew : t ∉ addrs (a :: l)) (heq : d.expire = a.2.expire) (hfuel : 0 < fuel) :
    s.addTimer fuel (some t) = .error .null := by
  obtain ⟨k, rfl⟩ : ∃ k, fuel = k + 1 := ⟨fuel - 1, by omega⟩
  have ha := h.list.seg.1
  have hta : a.1 ≠ t := fun e => hnew (by simp [← e])
  rw [addTimer_walk h.head ha ht heq.ge, addTimerFrom_insert ha ht heq.le,
    insertBefore_first ha (by rw [ht]; rfl) hta]

/-- **Where `add_timer` does not work**, it follows a null pointer, or keeps none of the timers but
the new one and the last. -/
theorem addTimer_loses (h : Represents s l) (ht : s.heap t = some ⟨none, none, d⟩)
    (hnew : t ∉ addrs l) (hfuel : l.length ≤ fuel) (hplace : ¬ Placeable d l) :
    (∃ a r, l = a :: r ∧ d.expire = a.2.expire ∧ s.addTimer fuel (some t) = .error .null) ∨
      ∃ a r c s', l = a :: r ∧ r.getLast? = some c ∧ d.expire < a.2.expire ∧
        s.addTimer fuel (some t) = .ok s' ∧ s'.Represents [(t, d), c] := by
  cases l with
  | nil => exact absurd trivial hplace
  | cons a l =>
    rcases lt_or_ge d.expire a.2.expire with hlt | hle
    · -- the nodes between the first and the last are lost
      cases l with
      | nil => exact absurd hlt.ne hplace
      | cons b l =>
        obtain ⟨l₀, c, hc⟩ := (List.eq_nil_or_concat' (b :: l)).resolve_left (by simp)
        rw [hc, ← List.cons_append] at h hnew
        obtain ⟨s', hrun, -, hrep⟩ := addTimer_earlier fuel h ht hnew (by simpa using hlt)
        exact Or.inr ⟨a, b :: l, c, s', rfl, by rw [hc]; simp, hlt, hrun, hrep⟩
    · -- the first timer would get a predecessor, but it has none
      have heq : d.expire = a.2.expire := by
        cases l with
        | nil => exact not_not.mp hplace
        | cons b l => exact le_antisymm (Int.not_lt.mp hplace) hle
      exact Or.inl ⟨a, l, rfl, heq,
        addTimer_first_equal h ht hnew heq (Nat.lt_of_lt_of_le (Nat.succ_pos _) hfuel)⟩

/-- **When `add_timer` keeps the list sorted**, and what it does where it does not: a null pointer
is followed if the new timer expires together with the first, and all but the last of the timers
are lost if it expires before the first of several. -/
theorem addTimer_iff (h : Represents s l) (hsorted : l.Pairwise Sooner)
    (ht : s.heap t = some ⟨none, none, d⟩) (hnew : t ∉ addrs l) (hfuel : l.length ≤ fuel) :
    (Sorts s (s.addTimer fuel (some t)) ((t, d) :: l) ↔ Placeable d l) ∧
      (¬ Placeable d l →
        (∃ a r, l = a :: r ∧ d.expire = a.2.expire ∧ s.addTimer fuel (some t) = .error .null) ∨
          ∃ a r c s', l = a :: r ∧ r.getLast? = some c ∧ d.expire < a.2.expire ∧
            s.addTimer fuel (some t) = .ok s' ∧ s'.Represents [(t, d), c]) := by
  refine ⟨⟨fun hsorts => ?_, sorts_addTimer h hsorted ht hnew hfuel⟩,
    addTimer_loses h ht hnew hfuel⟩
  by_contra hplace
  obtain ⟨s₁, l', hok, -, hrep, hperm, -⟩ := hsorts
  rcases addTimer_loses h ht hnew hfuel hplace with
    ⟨a, r, -, -, hnull⟩ | ⟨a, r, c, s', rfl, hlast, -, hrun, hrep'⟩
  · cases hok.symm.trans hnull
  · -- two timers are left of at least three
    obtain rfl := Except.ok.inj (hrun.symm.trans hok)
    have hlength := hperm.length_eq
    rw [← hrep'.unique hrep] at hlength
    obtain rfl : r = [] := by simpa using hlength
    cases hlast

/-- Three timers, and a fourth that expires before them. -/
def sortedTimers : TimerList where
  heap
    | 0 => some ⟨none, some 1, ⟨115, 5⟩⟩
    | 1 => some ⟨some 0, some 2, ⟨121, 6⟩⟩
    | 2 => some ⟨some 1, none, ⟨125, 7⟩⟩
    | _ => none
  head := some 0
  tail := some 2

theorem represents_sortedTimers :
    sortedTimers.Represents [(0, ⟨115, 5⟩), (1, ⟨121, 6⟩), (2, ⟨125, 7⟩)] :=
  ⟨⟨by decide, rfl, rfl, rfl, trivial⟩, rfl, fun _ => rfl⟩

theorem addTimer_iff_earlier : ∃ s', (sortedTimers.alloc 3 ⟨110, 8⟩).addTimer 3 (some 3) = .ok s' ∧
    s'.Represents [(3, ⟨110, 8⟩), (2, ⟨125, 7⟩)] := by
  have hnew : 3 ∉ addrs [((0 : Addr), (⟨115, 5⟩ : Timer)), (1, ⟨121, 6⟩), (2, ⟨125, 7⟩)] := by
    decide
  have hplace : ¬ Placeable ⟨110, 8⟩ [((0 : Addr), (⟨115, 5⟩ : Timer)), (1, ⟨121, 6⟩),
      (2, ⟨125, 7⟩)] := by
    unfold Placeable
    decide
  rcases (addTimer_iff (represents_sortedTimers.alloc hnew) (by decide) Store.put_self hnew
    (le_refl 3)).2 hplace with
    ⟨a, r, hl, heq, -⟩ | ⟨a, r, c, s', hl, hlast, -, hrun, hrep⟩
  · cases hl
    exact absurd heq (by decide)
  · cases hl
    obtain rfl : (2, ⟨125, 7⟩) = c := Option.some.inj hlast
    exact ⟨s', hrun, hrep⟩

/-! ## 6. Links that form a circle -/

/-- The list starts in `l`, and from each node of `l` the links lead to a node of `l`. -/
structure Circular (s : TimerList) (l : List (Addr × Timer)) : Prop where
  head : ∃ a ∈ l, s.head = some a.1
  next : ∀ a ∈ l, ∃ b ∈ l, ∃ p, s.heap a.1 = some ⟨p, some b.1, a.2⟩

/-- **A circle is not a list**: it has no last node. -/
theorem Circular.not_represents (hc : Circular s l) : ¬ Represents s l₁ := by
  intro h
  have hfirst : ∀ {p : Option Addr} {r : List (Addr × Timer)}, Segment s.heap p r none →
      ∀ a ∈ l, firstOf r none ≠ some a.1 := by
    intro p r hseg
    induction r generalizing p with
    | nil => exact fun a _ => nofun
    | cons b r ih =>
      rintro ⟨x, d⟩ ha heq
      obtain rfl : b.1 = x := Option.some.inj heq
      obtain ⟨c, hc', q, hnext⟩ := hc.next _ ha
      have hnode := hseg.1.symm.trans hnext
      exact ih hseg.2 c hc' (congrArg (fun n => n.next) (Option.some.inj hnode))
  obtain ⟨a, ha, hhead⟩ := hc.head
  exact hfirst h.list.seg a ha (h.head.symm.trans hhead)

theorem Circular.alloc (hc : Circular s l) (hnew : t ∉ addrs l) : Circular (s.alloc t d) l := by
  refine ⟨hc.head, fun a ha => ?_⟩
  obtain ⟨b, hb, p, hnext⟩ := hc.next a ha
  have hne : a.1 ≠ t := fun e => hnew (e ▸ List.mem_map_of_mem ha)
  exact ⟨b, hb, p, (Store.put_of_ne hne).trans hnext⟩

/-- **The walk along a circle never ends** when the timer expires behind all of it. -/
theorem Circular.addTimerFrom_endless (hc : Circular s l) (ht : s.heap t = some n)
    (hlt : ∀ a ∈ l, a.2.expire < n.data.expire) :
    ∀ a ∈ l, addTimerFrom (some t) fuel (some a.1) s = .error .endless := by
  induction fuel with
  | zero => exact fun _ _ => rfl
  | succ fuel ih =>
    intro a ha
    obtain ⟨b, hb, p, hnext⟩ := hc.next a ha
    rw [addTimerFrom, bind_ok (deref_of_eq ht), bind_ok (deref_of_eq hnext), if_pos (hlt a ha),
      if_pos (by simp), ih b hb]

theorem Circular.addTimer_endless (hc : Circular s l) (ht : s.heap t = some n)
    (hlt : ∀ a ∈ l, a.2.expire < n.data.expire) :
    s.addTimer fuel (some t) = .error .endless := by
  obtain ⟨a, ha, hhead⟩ := hc.head
  obtain ⟨b, -, p, hnode⟩ := hc.next a ha
  rw [addTimer_walk hhead hnode ht (hlt a ha).le]
  exact hc.addTimerFrom_endless ht hlt a ha

/-- Appending a node that still has a successor closes the circle. -/
theorem circular_appendTimer (h : Represents s (l ++ [a])) (ht : s.heap t = some ⟨p, some b.1, d⟩)
    (hb : b ∈ l ++ [a]) (hnew : t ∉ addrs (l ++ [a])) :
    ∃ s', s.appendTimer (some t) = .ok s' ∧ Circular s' ((t, d) :: (l ++ [a])) := by
  have ha : (s.heap a.1).isSome := h.isSome (by simp)
  have ht' : (s.heap t).isSome := by rw [ht]; rfl
  have hta : t ≠ a.1 := fun e => hnew (by simp [e])
  have hlist := h.list
  have htail : s.tail = some a.1 := by simpa using h.tail (by simp)
  refine ⟨{ s with
    heap := (s.heap.setNext a.1 (some t)).setPrev t (some a.1), tail := some t }, ?_, ?_, ?_⟩
  · rw [appendTimer, htail, bind_ok (setNext_of_isSome ha)]
    change (setPrev _ _ s.tail >>= _) = _
    rw [htail, bind_ok (setPrev_of_isSome (by simpa using ht'))]
    rfl
  · obtain ⟨c, hc, hfirst⟩ := exists_firstOf (q := none) (l := l ++ [a]) (by simp)
    exact ⟨c, List.mem_cons_of_mem _ hc, h.head.trans hfirst⟩
  · refine List.forall_mem_cons.mpr ⟨⟨b, List.mem_cons_of_mem _ hb, some a.1, ?_⟩, ?_⟩
    · change (s.heap.setNext a.1 (some t)).setPrev t (some a.1) t = _
      rw [Store.setPrev_self, Store.setNext_of_ne hta, ht]
      rfl
    · intro c hc
      have hct : c.1 ≠ t := fun e => hnew (e ▸ List.mem_map_of_mem hc)
      rcases List.mem_append.mp hc with hc | hc
      · obtain ⟨r₁, r₂, rfl⟩ := List.append_of_mem hc
        obtain ⟨e, he, hfirst⟩ := exists_firstOf (q := none) (l := r₂ ++ [a]) (by simp)
        have hca : c.1 ≠ a.1 := hlist.ne (by simp) (by simp)
        rw [List.append_assoc, List.cons_append] at hlist
        refine ⟨e, by simp only [List.mem_cons, List.mem_append] at he ⊢; tauto,
          lastOf none r₁, ?_⟩
        change (s.heap.setNext a.1 (some t)).setPrev t (some a.1) c.1 = _
        rw [Store.setPrev_of_ne hct, Store.setNext_of_ne hca, hlist.get, hfirst]
      · -- the last one is linked to the new one
        obtain rfl := List.mem_singleton.mp hc
        refine ⟨(t, d), by simp, lastOf none l, ?_⟩
        change (s.heap.setNext c.1 (some t)).setPrev t (some c.1) c.1 = _
        rw [Store.setPrev_of_ne hct, Store.setNext_self, hlist.get]
        rfl

/-! ## 7. `adjust_timer` -/

/-- A timer that is not among the nodes of `l` is linked to no one else. -/
theorem Sorts.of_sameNodes {r : Except Fault TimerList} (h : Sorts s' r l) (hs : SameNodes s s') :
    Sorts s r l := by
  obtain ⟨s'', l', hr, hs', hrest⟩ := h
  exact ⟨s'', l', hr, fun x => (hs' x).trans (hs x), hrest⟩

theorem SameNodes.sorts_iff {r : Except Fault TimerList} (hs : SameNodes s s') :
    Sorts s r l ↔ Sorts s' r l :=
  ⟨fun h => h.of_sameNodes fun x => (hs x).symm, fun h => h.of_sameNodes hs⟩

theorem Sorts.of_perm {r : Except Fault TimerList} (h : Sorts s r l₁) (hperm : l₁.Perm l₂) :
    Sorts s r l₂ := by
  obtain ⟨s', l', hr, hs, hrep, hl, hsorted⟩ := h
  exact ⟨s', l', hr, hs, hrep, hl.trans hperm, hsorted⟩

/-- The last timer stays where it is. -/
theorem adjustTimer_last (h : Represents s (l₁ ++ [(t, d)])) :
    s.adjustTimer fuel (some t) = .ok s := by
  rw [adjustTimer, if_neg (by simp), bind_ok (deref_of_eq h.list.get),
    if_pos (h.tail_eq_iff.mpr rfl)]
  rfl

/-- So does one that still expires before the next. -/
theorem adjustTimer_stay (h : Represents s (l₁ ++ (t, d) :: b :: l₂))
    (hlt : d.expire < b.2.expire) : s.adjustTimer fuel (some t) = .ok s := by
  have ht : s.heap t = some ⟨lastOf none l₁, some b.1, d⟩ := h.list.get
  have hb : s.heap b.1 = some ⟨some t, firstOf l₂ none, b.2⟩ := h.list.seg.next
  have htail : some t ≠ s.tail := fun e => absurd (h.tail_eq_iff.mp e) (by simp)
  rw [adjustTimer, if_neg (by simp), bind_ok (deref_of_eq ht), if_neg htail,
    bind_ok (deref_of_eq hb), if_pos hlt]
  rfl

/-- Any other is moved. -/
theorem adjustTimer_move (h : Represents s (l₁ ++ (t, d) :: b :: l₂))
    (hle : b.2.expire ≤ d.expire) : s.adjustTimer fuel (some t) = s.moveTimer fuel (some t) := by
  have ht : s.heap t = some ⟨lastOf none l₁, some b.1, d⟩ := h.list.get
  have hb : s.heap b.1 = some ⟨some t, firstOf l₂ none, b.2⟩ := h.list.seg.next
  have htail : some t ≠ s.tail := fun e => absurd (h.tail_eq_iff.mp e) (by simp)
  rw [adjustTimer, if_neg (by simp), bind_ok (deref_of_eq ht), if_neg htail,
    bind_ok (deref_of_eq hb), if_neg (Int.not_lt.mpr hle)]

/-- The first timer is taken off and walks along the rest. -/
theorem moveTimer_first (fuel : ℕ) (h : Represents s ((t, d) :: b :: l)) :
    ∃ s', s.moveTimer fuel (some t) = addTimerFrom (some t) fuel (some b.1) s' ∧
      Represents s' (b :: l) ∧ s'.heap t = some ⟨none, none, d⟩ ∧ SameNodes s s' := by
  obtain ⟨hlist, hkeep⟩ := h.list.tail
  have ht : s.heap t = some ⟨none, some b.1, d⟩ := h.list.seg.1
  obtain ⟨hnot, -⟩ := List.nodup_cons.mp h.list.nodup
  have hb : (s.heap b.1).isSome := h.isSome (by simp)
  have hhead : s.head = some t := h.head
  refine ⟨{ s with heap := (s.heap.setPrev b.1 none).setNext t none, head := some b.1 }, ?_,
    ⟨hlist.frame fun x hx => Store.setNext_of_ne fun e => hnot (e ▸ hx), rfl, fun _ => ?_⟩, ?_,
    fun x => by simp⟩
  · rw [moveTimer, if_pos hhead.symm, hhead, bind_ok (deref_of_eq ht)]
    refine (bind_ok (setPrev_of_isSome (s := { s with head := some b.1 }) hb)).trans ?_
    have ht' : ((s.heap.setPrev b.1 none) t).isSome := by
      rw [Store.isSome_setPrev, ht]
      rfl
    exact bind_ok (setNext_of_isSome ht')
  · exact (h.tail (by simp)).trans (by simp)
  · change (s.heap.setPrev b.1 none).setNext t none t = _
    rw [Store.setNext_self, hkeep, ht]
    rfl

/-- One in the middle is unlinked, but keeps its own links. -/
theorem moveTimer_middle (fuel : ℕ) (h : Represents s (l₁ ++ [a] ++ (t, d) :: b :: l₂)) :
    ∃ s', s.moveTimer fuel (some t) = addTimerFrom (some t) fuel (some b.1) s' ∧
      Represents s' (l₁ ++ [a] ++ b :: l₂) ∧ s'.heap t = some ⟨some a.1, some b.1, d⟩ ∧
      SameNodes s s' := by
  obtain ⟨hlist, hkeep⟩ := h.list.unlink
  have ht : s.heap t = some ⟨some a.1, some b.1, d⟩ := by simpa using h.list.get
  have hta : t ≠ a.1 := (h.list.ne (by simp) (by simp)).symm
  have hhead : some t ≠ s.head := fun e => absurd (h.head_eq_iff.mp e) (by simp)
  have ha : (s.heap a.1).isSome := h.isSome (by simp)
  have hb : (s.heap b.1).isSome := h.isSome (by simp)
  refine ⟨{ s with heap := (s.heap.setNext a.1 (some b.1)).setPrev b.1 (some a.1) }, ?_,
    ⟨hlist, ?_, fun _ => ?_⟩, hkeep.trans ht, fun x => by simp⟩
  · have ht₁ := (Store.setNext_of_ne (q := some b.1) hta).trans ht
    rw [moveTimer, if_neg hhead, bind_ok (deref_of_eq ht), bind_ok (setNext_of_isSome ha),
      bind_ok (deref_of_eq ht₁), bind_ok (setPrev_of_isSome (by simpa using hb)),
      bind_ok (deref_of_eq (hkeep.trans ht))]
  · exact h.head.trans (by simp)
  · exact (h.tail (by simp)).trans (by simp)

/-- The expiry of a timer is set, and nothing else. -/
theorem represents_setExpire (h : Represents s (l₁ ++ (t, d) :: l₂)) (e : ℤ) :
    ∃ s', s.setExpire (some t) e = .ok s' ∧
      Represents s' (l₁ ++ (t, { d with expire := e }) :: l₂) ∧ SameNodes s s' := by
  have ht := h.list.get
  refine ⟨{ s with heap := s.heap.put t ⟨lastOf none l₁, firstOf l₂ none, { d with expire := e }⟩ },
    by simp only [setExpire, ht], ⟨h.list.put, h.head.trans (by simp), fun _ => ?_⟩, fun x => ?_⟩
  · exact (h.tail (by simp)).trans (by simp)
  · by_cases hx : x = t
    · subst hx
      change (s.heap.put x _ x).isSome = _
      rw [Store.put_self, ht]
      rfl
    · exact congrArg _ (Store.put_of_ne hx)

/-- Where `adjust_timer` can move a timer that now expires at `d`, from between `l₁` and `l₂`: not
back in front of an equal one that becomes the first, and from the middle not to the end. -/
def Adjustable (d : Timer) (l₁ : List (Addr × Timer)) : List (Addr × Timer) → Prop
  | [] => True
  | b :: l₂ => (l₁ = [] → d.expire ≠ b.2.expire) ∧
    (l₁ ≠ [] → ∃ c ∈ b :: l₂, d.expire ≤ c.2.expire)

/-- **Moving the last of the middle to the end**: the list becomes a circle, and the operation
returns as if nothing had happened. -/
theorem adjustTimer_circular (h : Represents s (l₁ ++ [a] ++ (t, d) :: b :: l₂))
    (hlt : ∀ c ∈ b :: l₂, c.2.expire < d.expire) (hfuel : (b :: l₂).length ≤ fuel) :
    ∃ s', s.adjustTimer fuel (some t) = .ok s' ∧
      Circular s' ((t, d) :: (l₁ ++ [a] ++ b :: l₂)) := by
  have hnew : t ∉ addrs (l₁ ++ [a] ++ b :: l₂) :=
    (List.nodup_cons.mp ((List.perm_middle.map Prod.fst).nodup_iff.mp h.list.nodup)).1
  obtain ⟨s₁, hmove, h₁, ht, -⟩ := moveTimer_middle fuel h
  have hseg := (segment_append.mp h₁.list.seg).2
  obtain ⟨r, c, hcut⟩ := (List.eq_nil_or_concat' (b :: l₂)).resolve_left (by simp)
  have hlast : s₁.heap c.1 = some ⟨lastOf none (l₁ ++ [a] ++ r), none, c.2⟩ := by
    have hlist := h₁.list
    rw [hcut, ← List.append_assoc] at hlist
    exact hlist.get
  obtain ⟨k, rfl⟩ : ∃ k, fuel = k + 1 + r.length := by
    rw [hcut, List.length_append, List.length_singleton] at hfuel
    exact ⟨fuel - 1 - r.length, by omega⟩
  have hfirst : firstOf (r ++ [c]) none = some b.1 := by rw [← hcut]; rfl
  rw [hcut, ← List.append_assoc] at h₁ hnew
  rw [hcut] at hseg hlt
  obtain ⟨s', hrun, hcirc⟩ := circular_appendTimer h₁ ht
    (by rw [List.append_assoc, ← hcut]; simp) hnew
  refine ⟨s', ?_, ?_⟩
  · rw [adjustTimer_move h (hlt b (by rw [← hcut]; simp)).le, hmove, ← hfirst,
      addTimerFrom_walk hseg ht fun e he => hlt e (List.mem_append_left _ he),
      addTimerFrom_append hlast ht (hlt c (by simp)), hrun]
  · rwa [hcut, ← List.append_assoc]

/-- **`adjust_timer` where it works.** -/
theorem sorts_adjustTimer (h : Represents s (l₁ ++ (t, d) :: l₂))
    (hsorted : (l₁ ++ l₂).Pairwise Sooner) (hle : ∀ a ∈ l₁, a.2.expire ≤ d.expire)
    (hfuel : l₂.length ≤ fuel) (hadj : Adjustable d l₁ l₂) :
    Sorts s (s.adjustTimer fuel (some t)) (l₁ ++ (t, d) :: l₂) := by
  have hnew : t ∉ addrs (l₁ ++ l₂) :=
    (List.nodup_cons.mp ((List.perm_middle.map Prod.fst).nodup_iff.mp h.list.nodup)).1
  cases l₂ with
  | nil =>
    exact ⟨s, _, adjustTimer_last h, fun _ => rfl, h, .refl _, pairwise_place hsorted hle (by simp)⟩
  | cons b l₂ =>
    obtain ⟨hfirst, hmiddle⟩ := hadj
    have hafter := (List.pairwise_append.mp hsorted).2.1
    rcases lt_or_ge d.expire b.2.expire with hlt | hb
    · -- it stays
      have hd : ∀ c ∈ b :: l₂, d.expire ≤ c.2.expire := List.forall_mem_cons.mpr
        ⟨hlt.le, fun c hc => hlt.le.trans ((List.pairwise_cons.mp hafter).1 c hc)⟩
      exact ⟨s, _, adjustTimer_stay h hlt, fun _ => rfl, h, .refl _, pairwise_place hsorted hle hd⟩
    · rw [adjustTimer_move h hb]
      rcases List.eq_nil_or_concat' l₁ with rfl | ⟨l₁, a, rfl⟩
      · -- the first one walks along the rest
        obtain ⟨s₁, hmove, h₁, ht, hsame⟩ := moveTimer_first fuel h
        have hlt : ∀ c ∈ (b :: l₂).head?, c.2.expire < d.expire := by
          simpa using lt_of_le_of_ne hb (hfirst rfl).symm
        rw [hmove, hsame.sorts_iff]
        exact sorts_addTimerFrom h₁ (by simp) hsorted (by simp) ht hnew hfuel (fun _ => hlt)
          (Or.inl rfl)
      · obtain ⟨s₁, hmove, h₁, ht, hsame⟩ := moveTimer_middle fuel h
        have hsorts := sorts_addTimerFrom h₁ (by simp) hsorted hle ht hnew hfuel
          (fun hnil => absurd hnil (by simp)) (Or.inr (hmiddle (by simp)))
        rw [hmove, hsame.sorts_iff]
        exact hsorts.of_perm List.perm_middle.symm

/-- The first timer cannot be put back in front of an equal one. -/
theorem adjustTimer_first_equal (h : Represents s ((t, d) :: b :: l))
    (heq : d.expire = b.2.expire) (hfuel : 0 < fuel) :
    s.adjustTimer fuel (some t) = .error .null := by
  obtain ⟨k, rfl⟩ : ∃ k, fuel = k + 1 := ⟨fuel - 1, by omega⟩
  obtain ⟨s₁, hmove, h₁, ht, -⟩ := moveTimer_first (k + 1) h
  obtain ⟨hnot, -⟩ := List.nodup_cons.mp h.list.nodup
  have hbt : b.1 ≠ t := fun e => hnot (by simp [← e])
  have h' : Represents s ([] ++ (t, d) :: b :: l) := h
  rw [adjustTimer_move h' heq.ge, hmove, addTimerFrom_insert h₁.list.seg.1 ht heq.le,
    insertBefore_first h₁.list.seg.1 (by rw [ht]; rfl) hbt]

/-- **When `adjust_timer` keeps the list sorted.** -/
theorem adjustTimer_iff (h : Represents s (l₁ ++ (t, d) :: l₂))
    (hsorted : (l₁ ++ l₂).Pairwise Sooner) (hle : ∀ a ∈ l₁, a.2.expire ≤ d.expire)
    (hfuel : l₂.length ≤ fuel) :
    Sorts s (s.adjustTimer fuel (some t)) (l₁ ++ (t, d) :: l₂) ↔ Adjustable d l₁ l₂ := by
  refine ⟨fun hsorts => ?_, sorts_adjustTimer h hsorted hle hfuel⟩
  cases l₂ with
  | nil => trivial
  | cons b l₂ =>
    refine ⟨?_, fun hne => ?_⟩
    · rintro rfl heq
      rw [adjustTimer_first_equal h heq (Nat.lt_of_lt_of_le (Nat.succ_pos _) hfuel)] at hsorts
      exact not_sorts_error hsorts
    · -- a circle is no list
      obtain ⟨l₁, a, rfl⟩ := (List.eq_nil_or_concat' l₁).resolve_left hne
      by_contra hnone
      obtain ⟨s', hrun, hcirc⟩ := adjustTimer_circular h
        (fun c hc => Int.not_le.mp fun hd => hnone ⟨c, hc, hd⟩) hfuel
      obtain ⟨s'', l', hrun', -, hrep, -⟩ := hsorts
      obtain rfl := Except.ok.inj (hrun.symm.trans hrun')
      exact hcirc.not_represents hrep

/-- Three timers, of which the second has just been set to expire last. -/
def threeTimers : TimerList where
  heap
    | 0 => some ⟨none, some 1, ⟨115, 5⟩⟩
    | 1 => some ⟨some 0, some 2, ⟨125, 6⟩⟩
    | 2 => some ⟨some 1, none, ⟨121, 7⟩⟩
    | _ => none
  head := some 0
  tail := some 2

theorem represents_threeTimers :
    threeTimers.Represents ([] ++ [(0, ⟨115, 5⟩)] ++ (1, ⟨125, 6⟩) :: (2, ⟨121, 7⟩) :: []) :=
  ⟨⟨by decide, rfl, rfl, rfl, trivial⟩, rfl, fun _ => rfl⟩

theorem adjustTimer_iff_three : ¬ Sorts threeTimers (threeTimers.adjustTimer 1 (some 1))
    [(0, ⟨115, 5⟩), (1, ⟨125, 6⟩), (2, ⟨121, 7⟩)] := by
  intro h
  obtain ⟨-, hlater⟩ := (adjustTimer_iff represents_threeTimers (by decide) (by decide)
    (le_refl 1)).mp h
  exact absurd (hlater (by simp)) (by decide)

/-- **A timer that was moved from the middle to the end** makes the next `add_timer` of a later
timer walk along the circle for ever. -/
theorem addTimer_endless_of_adjustTimer (h : Represents s (l₁ ++ [a] ++ (t, d) :: b :: l₂))
    (hsorted : (l₁ ++ [a] ++ b :: l₂).Pairwise Sooner)
    (hlt : ∀ c ∈ b :: l₂, c.2.expire < d.expire) (hfuel : (b :: l₂).length ≤ fuel) {u : Addr}
    (hu : u ∉ addrs (l₁ ++ [a] ++ (t, d) :: b :: l₂)) {d' : Timer} (hd' : d.expire < d'.expire) :
    ∃ s', s.adjustTimer fuel (some t) = .ok s' ∧ ∀ fuel',
      (s'.alloc u d').addTimer fuel' (some u) = .error .endless := by
  obtain ⟨s', hrun, hcirc⟩ := adjustTimer_circular h hlt hfuel
  refine ⟨s', hrun, fun fuel' => ?_⟩
  have hu' : u ∉ addrs ((t, d) :: (l₁ ++ [a] ++ b :: l₂)) := fun hmem =>
    hu ((List.perm_middle.map Prod.fst).mem_iff.mpr hmem)
  have hcirc' := hcirc.alloc (d := d') hu'
  have hlate : ∀ c ∈ (t, d) :: (l₁ ++ [a] ++ b :: l₂), c.2.expire < d'.expire := by
    refine List.forall_mem_cons.mpr ⟨hd', fun c hc => ?_⟩
    rcases List.mem_append.mp hc with hc | hc
    · exact ((List.pairwise_append.mp hsorted).2.2 c hc b (by simp)).trans_lt
        ((hlt b (by simp)).trans hd')
    · exact (hlt c hc).trans hd'
  exact hcirc'.addTimer_endless Store.put_self hlate

theorem addTimer_endless_of_adjustTimer_three :
    ∃ s', threeTimers.adjustTimer 1 (some 1) = .ok s' ∧ ∀ fuel',
      (s'.alloc 3 ⟨130, 8⟩).addTimer fuel' (some 3) = .error .endless :=
  addTimer_endless_of_adjustTimer represents_threeTimers (by decide) (by decide) (le_refl 1)
    (by decide) (by decide)

/-! ## 8. `del_timer` and `tick` -/

/-- The nodes `xs` have been freed, and no others. -/
def Frees (xs : List Addr) (s s' : TimerList) : Prop :=
  ∀ x, (s'.heap x).isSome ↔ (s.heap x).isSome ∧ x ∉ xs

/-- A few writes to nodes, and then one of them is freed. -/
theorem frees_free {heap : Store Addr Timer} (h : ∀ x, (heap x).isSome = (s.heap x).isSome)
    {head tail : Option Addr} : Frees [t] s ⟨heap.free t, head, tail⟩ := by
  intro x
  by_cases hx : x = t
  · subst hx
    simp
  · simp [Store.free_of_ne hx, h, hx]

theorem delTimer_only (h : Represents s [(t, d)]) :
    ∃ s', s.delTimer (some t) = .ok s' ∧ Represents s' [] ∧ Frees [t] s s' := by
  have hhead : some t = s.head := h.head.symm
  have htail : some t = s.tail := (h.tail (by simp)).symm
  refine ⟨⟨s.heap.free t, none, none⟩, ?_, ⟨.nil, rfl, fun hne => absurd rfl hne⟩,
    frees_free fun _ => rfl⟩
  rw [delTimer, if_neg (by simp), if_pos ⟨hhead, htail⟩,
    bind_ok (delete_of_isSome (h.isSome (by simp)))]
  rfl

theorem delTimer_first (h : Represents s ((t, d) :: b :: l)) :
    ∃ s', s.delTimer (some t) = .ok s' ∧ Represents s' (b :: l) ∧ Frees [t] s s' := by
  obtain ⟨hnot, -⟩ := List.nodup_cons.mp h.list.nodup
  have hhead : s.head = some t := h.head
  have h' : Represents s ([] ++ (t, d) :: b :: l) := h
  have htail : some t ≠ s.tail := fun e => absurd (h'.tail_eq_iff.mp e) (by simp)
  have ht : s.heap t = some ⟨none, some b.1, d⟩ := h.list.seg.1
  have hb : (s.heap b.1).isSome := h.isSome (by simp)
  refine ⟨⟨(s.heap.setPrev b.1 none).free t, some b.1, s.tail⟩, ?_,
    ⟨h.list.tail.1.free hnot, rfl, fun _ => (h.tail (by simp)).trans (by simp)⟩,
    frees_free fun x => by simp⟩
  rw [delTimer, if_neg (by simp), if_neg fun e => htail e.2, if_pos hhead.symm, hhead,
    bind_ok (deref_of_eq ht)]
  refine (bind_ok (setPrev_of_isSome (s := { s with head := some b.1 }) hb)).trans ?_
  exact delete_of_isSome (by simp [ht])

theorem delTimer_last (h : Represents s (l ++ [a] ++ [(t, d)])) :
    ∃ s', s.delTimer (some t) = .ok s' ∧ Represents s' (l ++ [a]) ∧ Frees [t] s s' := by
  have hnot : t ∉ addrs (l ++ [a]) := fun hmem => h.list.ne hmem (by simp) rfl
  have hhead : some t ≠ s.head := fun e => absurd (h.head_eq_iff.mp e) (by simp)
  have htail : s.tail = some t := (h.tail_eq_iff.mpr rfl).symm
  have ht : s.heap t = some ⟨some a.1, none, d⟩ := by simpa using h.list.get
  have ha : (s.heap a.1).isSome := h.isSome (by simp)
  refine ⟨⟨(s.heap.setNext a.1 none).free t, s.head, some a.1⟩, ?_,
    ⟨h.list.dropLast.1.free hnot, h.head.trans (by simp), fun _ => by simp⟩,
    frees_free fun x => by simp⟩
  rw [delTimer, if_neg (by simp), if_neg fun e => hhead e.1, if_neg hhead, if_pos htail.symm, htail,
    bind_ok (deref_of_eq ht)]
  refine (bind_ok (setNext_of_isSome (s := { s with tail := some a.1 }) ha)).trans ?_
  exact delete_of_isSome (by simp [ht])

theorem delTimer_middle (h : Represents s (l₁ ++ [a] ++ (t, d) :: b :: l₂)) :
    ∃ s', s.delTimer (some t) = .ok s' ∧ Represents s' (l₁ ++ [a] ++ b :: l₂) ∧
      Frees [t] s s' := by
  have hnot : t ∉ addrs (l₁ ++ [a] ++ b :: l₂) :=
    (List.nodup_cons.mp ((List.perm_middle.map Prod.fst).nodup_iff.mp h.list.nodup)).1
  have hhead : some t ≠ s.head := fun e => absurd (h.head_eq_iff.mp e) (by simp)
  have htail : some t ≠ s.tail := fun e => absurd (h.tail_eq_iff.mp e) (by simp)
  have ht : s.heap t = some ⟨some a.1, some b.1, d⟩ := by simpa using h.list.get
  have hta : t ≠ a.1 := (h.list.ne (by simp) (by simp)).symm
  have ha : (s.heap a.1).isSome := h.isSome (by simp)
  have hb : (s.heap b.1).isSome := h.isSome (by simp)
  refine ⟨⟨((s.heap.setNext a.1 (some b.1)).setPrev b.1 (some a.1)).free t, s.head, s.tail⟩, ?_,
    ⟨h.list.unlink.1.free hnot, h.head.trans (by simp),
      fun _ => (h.tail (by simp)).trans (by simp)⟩, frees_free fun x => by simp⟩
  have ht₁ := (Store.setNext_of_ne (q := some b.1) hta).trans ht
  rw [delTimer, if_neg (by simp), if_neg fun e => hhead e.1, if_neg hhead, if_neg htail,
    bind_ok (deref_of_eq ht), bind_ok (setNext_of_isSome ha), bind_ok (deref_of_eq ht₁),
    bind_ok (setPrev_of_isSome (by simpa using hb))]
  exact delete_of_isSome (by simp [ht])

/-- **Deleting** a timer, wherever it is. -/
theorem represents_delTimer (h : Represents s (l₁ ++ (t, d) :: l₂)) :
    ∃ s', s.delTimer (some t) = .ok s' ∧ Represents s' (l₁ ++ l₂) ∧ Frees [t] s s' := by
  rcases List.eq_nil_or_concat' l₁ with rfl | ⟨l₁, a, rfl⟩
  · cases l₂ with
    | nil => exact delTimer_only h
    | cons b l₂ => exact delTimer_first h
  · cases l₂ with
    | nil => simpa using delTimer_last h
    | cons b l₂ => exact delTimer_middle h

/-- One round of `tick` takes off the first timer. -/
theorem represents_popTimer (h : Represents s (a :: l)) :
    ∃ s', s.popTimer (some a.1) = .ok s' ∧ Represents s' l ∧ Frees [a.1] s s' := by
  obtain ⟨hnot, -⟩ := List.nodup_cons.mp h.list.nodup
  have ha := h.list.seg.1
  cases l with
  | nil =>
    refine ⟨⟨s.heap.free a.1, none, s.tail⟩, ?_, ⟨.nil, rfl, fun hne => absurd rfl hne⟩,
      frees_free fun _ => rfl⟩
    rw [popTimer, bind_ok (deref_of_eq ha)]
    exact delete_of_isSome (h.isSome (by simp))
  | cons b l =>
    have hb : (s.heap b.1).isSome := h.isSome (by simp)
    refine ⟨⟨(s.heap.setPrev b.1 none).free a.1, some b.1, s.tail⟩, ?_,
      ⟨h.list.tail.1.free hnot, rfl, fun _ => (h.tail (by simp)).trans (by simp)⟩,
      frees_free fun x => by simp⟩
    rw [popTimer, bind_ok (deref_of_eq ha)]
    refine (bind_ok (setPrev_of_isSome (s := { s with head := some b.1 }) hb)).trans ?_
    exact delete_of_isSome (by simp [ha])

/-- **A tick** calls back for the timers at the front that have expired, and frees them. -/
theorem represents_tick (cur : ℤ) (h : Represents s l) (hfuel : l.length < fuel) :
    ∃ s', tick cur fuel s =
        ((l.takeWhile (·.2.expire ≤ cur)).map (·.2.userData), .ok s') ∧
      Represents s' (l.dropWhile (·.2.expire ≤ cur)) ∧
      Frees (addrs (l.takeWhile (·.2.expire ≤ cur))) s s' := by
  induction l generalizing s fuel with
  | nil =>
    obtain ⟨fuel, rfl⟩ : ∃ k, fuel = k + 1 := ⟨fuel - 1, by simp at hfuel; omega⟩
    refine ⟨s, ?_, h, fun x => by simp⟩
    rw [tick, if_pos (h.head_eq_none_iff.mpr rfl)]
    rfl
  | cons a l ih =>
    obtain ⟨fuel, rfl⟩ : ∃ k, fuel = k + 1 := ⟨fuel - 1, by simp at hfuel; omega⟩
    have hhead : s.head = some a.1 := h.head
    rw [tick, if_neg (by simp [hhead]), hhead, deref_of_eq h.list.seg.1]
    by_cases hcur : cur < a.2.expire
    · have hnot : ¬ a.2.expire ≤ cur := Int.not_le.mpr hcur
      refine ⟨s, ?_, ?_, fun x => ?_⟩
      · simp [hcur, hnot]
      · simpa [List.dropWhile_cons, hnot] using h
      · simp [hnot]
    · have hle : a.2.expire ≤ cur := Int.not_lt.mp hcur
      obtain ⟨s₁, hpop, h₁, hfree₁⟩ := represents_popTimer h
      obtain ⟨s', htick, h', hfree⟩ := ih h₁ (by simpa using hfuel)
      refine ⟨s', ?_, ?_, fun x => ?_⟩
      · simp [hcur, hle, hpop, htick]
      · simpa [List.dropWhile_cons, hle] using h'
      · rw [hfree x, hfree₁ x]
        simp [hle, and_assoc]

/-- In a sorted list, the timers at the front that have expired are all that have. -/
theorem mem_takeWhile_expired {cur : ℤ} (h : l.Pairwise Sooner) :
    a ∈ l.takeWhile (·.2.expire ≤ cur) ↔ a ∈ l ∧ a.2.expire ≤ cur := by
  induction l with
  | nil => simp
  | cons b l ih =>
    obtain ⟨hb, hl⟩ := List.pairwise_cons.mp h
    by_cases hcur : b.2.expire ≤ cur
    · rw [List.takeWhile_cons_of_pos (by simpa using hcur), List.mem_cons, List.mem_cons, ih hl]
      constructor
      · rintro (rfl | ⟨ha, hle⟩)
        · exact ⟨.inl rfl, hcur⟩
        · exact ⟨.inr ha, hle⟩
      · rintro ⟨rfl | ha, hle⟩
        · exact .inl rfl
        · exact .inr ⟨ha, hle⟩
    · rw [List.takeWhile_cons_of_neg (by simpa using hcur)]
      refine iff_of_false (by simp) ?_
      rintro ⟨ha, hle⟩
      rcases List.mem_cons.mp ha with rfl | ha
      · exact hcur hle
      · exact hcur ((hb a ha).trans hle)

/-- ...and those behind them are all that have not. -/
theorem mem_dropWhile_expired {cur : ℤ} (h : l.Pairwise Sooner) :
    a ∈ l.dropWhile (·.2.expire ≤ cur) ↔ a ∈ l ∧ cur < a.2.expire := by
  induction l with
  | nil => simp
  | cons b l ih =>
    obtain ⟨hb, hl⟩ := List.pairwise_cons.mp h
    by_cases hcur : b.2.expire ≤ cur
    · rw [List.dropWhile_cons_of_pos (by simpa using hcur), ih hl, List.mem_cons]
      constructor
      · exact fun ⟨ha, hlt⟩ => ⟨.inr ha, hlt⟩
      · rintro ⟨rfl | ha, hlt⟩
        · exact absurd hcur (Int.not_le.mpr hlt)
        · exact ⟨ha, hlt⟩
    · rw [List.dropWhile_cons_of_neg (by simpa using hcur)]
      refine ⟨fun ha => ⟨ha, ?_⟩, And.left⟩
      rcases List.mem_cons.mp ha with rfl | ha
      · exact Int.not_le.mp hcur
      · exact (Int.not_le.mp hcur).trans_le (hb a ha)

/-- The destructor reads `next` of the node it has just deleted. -/
theorem destroy_cons (h : Represents s (a :: l)) : destroy (fuel + 1) s = .error .freed := by
  have hhead : s.head = some a.1 := h.head
  rw [destroy, if_neg (by simp [hhead]), hhead, bind_ok (delete_of_isSome (h.isSome (by simp)))]
  simp only [deref, Store.free_self]
  rfl

end TimerList

end InternetProgramming
