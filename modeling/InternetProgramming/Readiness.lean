/-
# `SelectWrapper` against three sets of descriptors

What a `SelectWrapper` is for: it holds three independent sets of descriptors, hands them to
`::select`, and then says which of the members are ready.  The abstract object is the family
`registered`, edited by the six add and remove methods; `Agrees` connects it to the fields.

* The sets that reach the kernel are the three sets, and the bound `nfds` covers them all
  (`select_scans_registered`).  The bound never comes down again, which is harmless: it
  only has to be large enough.
* The second half of the purpose is not met.  `select` works on copies and the queries read
  the REGISTERED sets, so a query tells what was asked about and not what is ready.
  `reportsReady_iff` says when the two are the same: when nothing registered was idle.

Both are about callers that pass only numbers that have a bit (`SelectOp.InRange`).  Which
callers do is the subject of `WatchedFds`.
-/
import InternetProgramming.Select

namespace InternetProgramming

open Interaction

variable {tr : List Ev}

/-! ## 1. What each method does -/

namespace SelectWrapper

variable {s s' : SelectWrapper} {k : FdKind}

@[simp] theorem fds_withFds {set : FdSet} :
    (s.withFds set k).fds = Function.update s.fds k set := by
  funext k'
  cases k <;> cases k' <;> rfl

@[simp] theorem maxFd_withFds {set : FdSet} : (s.withFds set k).maxFd = s.maxFd := by
  cases k <;> rfl

theorem run_addFd {fd : ℤ} {r : Except Thrown Unit} (h : Meth.Run (addFd k fd) s tr r s') :
    s'.fds = Function.update s.fds k (insert fd (s.fds k)) ∧ s'.maxFd = max s.maxFd fd := by
  simp only [addFd, Meth.run_get_bind, Meth.run_liftM_bind, run_fdSet, Meth.run_modify_bind,
    Meth.run_modify] at h
  obtain ⟨_, _, _, rfl, ⟨rfl, rfl⟩, rfl, rfl, rfl⟩ := h
  split
  · rename_i hfd
    exact ⟨fds_withFds, (max_eq_right (le_of_lt (by simpa using hfd))).symm⟩
  · rename_i hfd
    exact ⟨fds_withFds, (max_eq_left (by simpa using hfd)).symm ▸ maxFd_withFds⟩

theorem run_removeFd {fd : ℤ} {r : Except Thrown Unit}
    (h : Meth.Run (removeFd k fd) s tr r s') :
    s'.fds = Function.update s.fds k ((s.fds k).erase fd) ∧ s'.maxFd = s.maxFd := by
  simp only [removeFd, Meth.run_get_bind, Meth.run_liftM_bind, run_fdClr, Meth.run_modify] at h
  obtain ⟨_, _, _, rfl, ⟨rfl, rfl⟩, rfl, rfl, rfl⟩ := h
  exact ⟨fds_withFds, maxFd_withFds⟩

theorem trace_addFd {fd : ℤ} {r : Except Thrown Unit} (h : Meth.Run (addFd k fd) s tr r s') :
    tr = bitTrace fd := by
  simp only [addFd, Meth.run_get_bind, Meth.run_liftM_bind, run_fdSet, Meth.run_modify_bind,
    Meth.run_modify] at h
  obtain ⟨_, _, _, rfl, ⟨rfl, -⟩, rfl, -, -⟩ := h
  exact List.append_nil _

theorem exists_run_addFd (s : SelectWrapper) (k : FdKind) (fd : ℤ) :
    ∃ s', Meth.Run (addFd k fd) s (bitTrace fd) (.ok ()) s' ∧ fd ∈ s'.fds k := by
  obtain ⟨s', h⟩ : ∃ s', Meth.Run (addFd k fd) s (bitTrace fd) (.ok ()) s' := by
    simp [addFd]
  refine ⟨s', h, ?_⟩
  rw [(run_addFd h).1, Function.update_self]
  exact Finset.mem_insert_self _ _

theorem trace_removeFd {fd : ℤ} {r : Except Thrown Unit}
    (h : Meth.Run (removeFd k fd) s tr r s') : tr = bitTrace fd := by
  simp only [removeFd, Meth.run_get_bind, Meth.run_liftM_bind, run_fdClr, Meth.run_modify] at h
  obtain ⟨_, _, _, rfl, ⟨rfl, -⟩, rfl, -, -⟩ := h
  exact List.append_nil _

/-- The kernel is handed the three sets and one more than the bound; the object stays as it
is whatever the kernel leaves in the copies. -/
theorem run_select {timeoutSec timeoutUsec : ℤ} {r : Except Thrown ℤ} :
    Meth.Run (select timeoutSec timeoutUsec) s tr r s' ↔
      ∃ a, tr = [⟨.select (s.maxFd + 1) (s.fds .read) (s.fds .write) (s.fds .except)
          (if timeoutSec = 0 ∧ timeoutUsec = 0 then none
            else some ⟨timeoutSec, timeoutUsec⟩), a⟩] ∧
        r = .ok a.ret ∧ s' = s := by
  simp [select, fds]

/-- A query reads the registered set. -/
theorem run_hasFd {fd : ℤ} {r : Except Thrown Bool} :
    Meth.Run (hasFd k fd) s tr r s' ↔
      tr = bitTrace fd ∧ r = .ok (decide (fd ∈ s.fds k)) ∧ s' = s := by
  simp [hasFd, and_assoc]

end SelectWrapper

/-- One call of a public method of a `SelectWrapper`. -/
abbrev SelectCall := Call SelectOp Sys Sys.Ret Thrown SelectWrapper Val

/-- What a call does to the object. -/
inductive SelectEffect (c : SelectCall) : Prop where
  | add (k : FdKind) (fd : ℤ) (edit : c.op.edit? = some (.add k fd)) (arg : c.op.fd? = some fd)
      (fds : c.post.fds = Function.update c.pre.fds k (insert fd (c.pre.fds k)))
      (maxFd : c.post.maxFd = max c.pre.maxFd fd)
  | remove (k : FdKind) (fd : ℤ) (edit : c.op.edit? = some (.remove k fd))
      (fds : c.post.fds = Function.update c.pre.fds k ((c.pre.fds k).erase fd))
      (maxFd : c.post.maxFd = c.pre.maxFd)
  | keep (edit : c.op.edit? = none) (post : c.post = c.pre)

/-- **The effect of every operation.** -/
theorem selectEffect {c : SelectCall} (h : c.Valid SelectOp.exec) : SelectEffect c := by
  obtain ⟨pre, op, tr, res, post⟩ := c
  change Meth.Run (SelectOp.exec op) pre tr res post at h
  cases op with
  | addReadFd fd | addWriteFd fd | addExceptFd fd =>
    obtain ⟨_, hm, -⟩ := Meth.run_map.mp h
    obtain ⟨hfds, hmax⟩ := SelectWrapper.run_addFd hm
    exact .add _ fd rfl rfl hfds hmax
  | removeReadFd fd | removeWriteFd fd | removeExceptFd fd =>
    obtain ⟨_, hm, -⟩ := Meth.run_map.mp h
    obtain ⟨hfds, hmax⟩ := SelectWrapper.run_removeFd hm
    exact .remove _ fd rfl hfds hmax
  | select timeoutSec timeoutUsec =>
    obtain ⟨_, hm, -⟩ := Meth.run_map.mp h
    obtain ⟨_, -, -, hpost⟩ := SelectWrapper.run_select.mp hm
    exact .keep rfl hpost
  | isReadable fd | isWritable fd | hasException fd =>
    obtain ⟨_, hm, -⟩ := Meth.run_map.mp h
    exact .keep rfl (SelectWrapper.run_hasFd.mp hm).2.2

/-! ## 2. The abstract sets -/

/-- The edits a history of calls asks for, in order. -/
def editsOf (h : List SelectCall) : List (Edit FdKind ℤ) := (h.map Call.op).filterMap SelectOp.edit?

/-- The fields hold the abstract sets. -/
def Agrees (s : SelectWrapper) (R : FdKind → Set ℤ) : Prop := ∀ k fd, fd ∈ s.fds k ↔ fd ∈ R k

/-- What an operation does to the abstract sets. -/
def SelectOp.applyTo (R : FdKind → Set ℤ) (op : SelectOp) : FdKind → Set ℤ :=
  match op.edit? with
  | some e => e.apply R
  | none => R

/-- Each operation keeps the fields in agreement with the abstract sets. -/
theorem agrees_step {c : SelectCall} {R : FdKind → Set ℤ} (hc : c.Valid SelectOp.exec)
    (h : Agrees c.pre R) : Agrees c.post (c.op.applyTo R) := by
  intro k' fd'
  unfold SelectOp.applyTo
  cases selectEffect hc with
  | add k fd edit arg fds maxFd =>
    rw [edit, fds]
    by_cases hk : k' = k
    · subst hk
      simp [Edit.apply, h k' fd']
    · simpa [Edit.apply, Function.update_of_ne hk] using h k' fd'
  | remove k fd edit fds maxFd =>
    rw [edit, fds]
    by_cases hk : k' = k
    · subst hk
      simp [Edit.apply, h k' fd', and_comm]
    · simpa [Edit.apply, Function.update_of_ne hk] using h k' fd'
  | keep edit post =>
    rw [edit, post]
    exact h k' fd'

/-- **`SelectWrapper` refines three sets.**  After any history a descriptor is in a set exactly
when its last edit on that set added it. -/
theorem mem_fds_iff {h : List SelectCall} {s : SelectWrapper}
    (hh : History SelectOp.exec SelectWrapper.new h s) {k : FdKind} {fd : ℤ} :
    fd ∈ s.fds k ↔ lastEdit k fd (editsOf h) = some true := by
  have hnew : Agrees SelectWrapper.new fun _ => ∅ := by
    intro k fd
    cases k <;> simp [SelectWrapper.new, SelectWrapper.fds]
  have hs : Agrees s ((h.map Call.op).foldl SelectOp.applyTo fun _ => ∅) :=
    History.refines (P := fun _ => True) (fun c R hc _ hR => agrees_step hc hR)
      (fun _ _ => trivial) hnew hh
  have hfold : (h.map Call.op).foldl SelectOp.applyTo (fun _ => ∅) = registered (editsOf h) := by
    rw [registered, editsOf, List.foldl_filterMap]
    congr 1
    funext R op
    unfold SelectOp.applyTo
    cases op.edit? <;> rfl
  rw [hs k fd, hfold, mem_registered_iff]

/-! ## 3. The bound -/

/-- The descriptors an operation hands to `FD_*` macros lie inside an `fd_set`. -/
def SelectOp.InRange (op : SelectOp) : Prop := ∀ fd, op.fd? = some fd → InFdSet fd

/-- **The invariant of the bound.**  It dominates all three sets, which hold no negative number,
and it is never raised past the last index of an `fd_set`. -/
structure Bounded (s : SelectWrapper) : Prop where
  nonneg : ∀ k, ∀ fd ∈ s.fds k, 0 ≤ fd
  le : ∀ k, ∀ fd ∈ s.fds k, fd ≤ s.maxFd
  lt : s.maxFd < fdSetsize

/-- What is registered has a bit. -/
theorem Bounded.inFdSet {s : SelectWrapper} (h : Bounded s) {k : FdKind} {fd : ℤ}
    (hfd : fd ∈ s.fds k) : InFdSet fd :=
  ⟨h.nonneg k fd hfd, (h.le k fd hfd).trans_lt h.lt⟩

theorem bounded_new : Bounded SelectWrapper.new where
  nonneg k fd hfd := by cases k <;> simp [SelectWrapper.new, SelectWrapper.fds] at hfd
  le k fd hfd := by cases k <;> simp [SelectWrapper.new, SelectWrapper.fds] at hfd
  lt := by decide

theorem bounded_step {c : SelectCall} (hc : c.Valid SelectOp.exec) (hr : c.op.InRange)
    (h : Bounded c.pre) : Bounded c.post := by
  cases selectEffect hc with
  | add k fd edit arg fds maxFd =>
    obtain ⟨hpos, hlt⟩ := hr fd arg
    have hmem : ∀ k', ∀ fd' ∈ c.post.fds k', fd' = fd ∨ fd' ∈ c.pre.fds k' := by
      intro k' fd' hfd'
      by_cases hk : k' = k
      · subst hk
        rw [fds, Function.update_self] at hfd'
        exact Finset.mem_insert.mp hfd'
      · rw [fds, Function.update_of_ne hk] at hfd'
        exact Or.inr hfd'
    refine ⟨fun k' fd' hfd' => ?_, fun k' fd' hfd' => ?_, maxFd ▸ max_lt h.lt hlt⟩
    · rcases hmem k' fd' hfd' with rfl | hold
      · exact hpos
      · exact h.nonneg k' fd' hold
    · rw [maxFd]
      rcases hmem k' fd' hfd' with rfl | hold
      · exact le_max_right _ _
      · exact le_max_of_le_left (h.le k' fd' hold)
  | remove k fd edit fds maxFd =>
    have hsub : ∀ k', c.post.fds k' ⊆ c.pre.fds k' := by
      intro k' fd' hfd'
      by_cases hk : k' = k
      · subst hk
        rw [fds, Function.update_self] at hfd'
        exact Finset.mem_of_mem_erase hfd'
      · rwa [fds, Function.update_of_ne hk] at hfd'
    exact ⟨fun k' fd' hfd' => h.nonneg k' fd' (hsub k' hfd'),
      fun k' fd' hfd' => maxFd ▸ h.le k' fd' (hsub k' hfd'), maxFd ▸ h.lt⟩
  | keep edit post => exact post ▸ h

theorem bounded_of_history {h : List SelectCall} {s : SelectWrapper}
    (hh : History SelectOp.exec SelectWrapper.new h s) (hr : ∀ c ∈ h, c.op.InRange) :
    Bounded s :=
  History.refines (f := fun _ _ => ()) (R := fun s _ => Bounded s) (t := ())
    (fun _ _ hc hP hpre => bounded_step hc hP hpre) hr bounded_new hh

/-! ## 4. What reaches the kernel -/

/-- Only an edit of a set changes it. -/
theorem fds_eq_of_not_edited {c : SelectCall} (hc : c.Valid SelectOp.exec) {k : FdKind}
    (hk : ∀ fd, c.op.edit? ≠ some (.add k fd) ∧ c.op.edit? ≠ some (.remove k fd)) :
    c.post.fds k = c.pre.fds k := by
  cases selectEffect hc with
  | add k' fd edit arg fds maxFd =>
    have hne : k ≠ k' := fun e => (hk fd).1 (e ▸ edit)
    rw [fds, Function.update_of_ne hne]
  | remove k' fd edit fds maxFd =>
    have hne : k ≠ k' := fun e => (hk fd).2 (e ▸ edit)
    rw [fds, Function.update_of_ne hne]
  | keep edit post => rw [post]

/-- Descriptors 3 and 4 are watched for input. -/
def watchTwo : List SelectCall :=
  [⟨.new, .addReadFd 3, [], .ok .unit, ⟨{3}, ∅, ∅, 3⟩⟩,
    ⟨⟨{3}, ∅, ∅, 3⟩, .addReadFd 4, [], .ok .unit, ⟨{3, 4}, ∅, ∅, 4⟩⟩]

theorem addReadFd_valid {s : SelectWrapper} {fd : ℤ} (hfd : InFdSet fd) :
    Call.Valid SelectOp.exec ⟨s, .addReadFd fd, [], .ok .unit,
      { s with readFds := insert fd s.readFds, maxFd := max s.maxFd fd }⟩ := by
  refine Meth.run_map.mpr ⟨.ok (), ?_, rfl⟩
  simp only [SelectWrapper.addReadFd, SelectWrapper.addFd, Meth.run_get_bind,
    Meth.run_liftM_bind, run_fdSet, Meth.run_modify_bind, Meth.run_modify]
  refine ⟨insert fd s.readFds, [], [], rfl, ⟨by simp [bitTrace, hfd], rfl⟩, rfl, trivial, ?_⟩
  split
  · rename_i hlt
    exact congrArg (SelectWrapper.mk _ _ _) (max_eq_right (le_of_lt hlt))
  · rename_i hge
    exact congrArg (SelectWrapper.mk _ _ _) (max_eq_left (not_lt.mp hge))

theorem history_watchTwo : History SelectOp.exec .new watchTwo ⟨{3, 4}, ∅, ∅, 4⟩ := by
  refine ⟨_, ⟨rfl, addReadFd_valid (s := .new) (by decide), rfl⟩, _, ⟨rfl, ?_, rfl⟩, rfl⟩
  have h := @addReadFd_valid ⟨{3}, ∅, ∅, 3⟩ 4 (by decide)
  rwa [Finset.pair_comm] at h

theorem watchTwo_inRange : ∀ c ∈ watchTwo, c.op.InRange := by
  simp [watchTwo, SelectOp.InRange, SelectOp.fd?, InFdSet, fdSetsize]

/-- What `::select` leaves for `watchTwo` when the descriptors `ready` have input. -/
def answerTwo (ready : FdSet) (h : ready ⊆ {3, 4}) : SelectRet {3, 4} ∅ ∅ :=
  .ready ready ∅ ∅ h (Finset.Subset.refl _) (Finset.Subset.refl _)

theorem run_select_watchTwo {a : SelectRet {3, 4} ∅ ∅} :
    Meth.Run (SelectWrapper.select 5 0) ⟨{3, 4}, ∅, ∅, 4⟩
      [⟨.select 5 {3, 4} ∅ ∅ (some ⟨5, 0⟩), a⟩] (.ok a.ret) ⟨{3, 4}, ∅, ∅, 4⟩ :=
  SelectWrapper.run_select.mpr ⟨a, rfl, rfl, rfl⟩

/-- **Every registered descriptor is scanned.**  The next `select` hands the kernel exactly the
three abstract sets and a bound that covers them and no more than an `fd_set`; edits of one
set leave the others alone, and calls that edit nothing leave all three. -/
theorem select_scans_registered {h : List SelectCall} {s s' : SelectWrapper}
    (hh : History SelectOp.exec SelectWrapper.new h s) (hr : ∀ c ∈ h, c.op.InRange)
    {timeoutSec timeoutUsec : ℤ} {r : Except Thrown ℤ}
    (hc : Meth.Run (SelectWrapper.select timeoutSec timeoutUsec) s tr r s') :
    (∃ nfds readfds writefds exceptfds timeout a,
      tr = [⟨.select nfds readfds writefds exceptfds timeout, a⟩] ∧
      (∀ fd, fd ∈ readfds ↔ lastEdit .read fd (editsOf h) = some true) ∧
      (∀ fd, fd ∈ writefds ↔ lastEdit .write fd (editsOf h) = some true) ∧
      (∀ fd, fd ∈ exceptfds ↔ lastEdit .except fd (editsOf h) = some true) ∧
      (∀ fd, fd ∈ readfds ∨ fd ∈ writefds ∨ fd ∈ exceptfds → fd < nfds) ∧ nfds ≤ fdSetsize) ∧
    s' = s ∧
    ∀ c ∈ h, ∀ k, (∀ fd, c.op.edit? ≠ some (.add k fd) ∧ c.op.edit? ≠ some (.remove k fd)) →
      c.post.fds k = c.pre.fds k := by
  obtain ⟨a, rfl, -, rfl⟩ := SelectWrapper.run_select.mp hc
  have hb : Bounded s' := bounded_of_history hh hr
  refine ⟨⟨_, _, _, _, _, a, rfl, fun _ => mem_fds_iff hh, fun _ => mem_fds_iff hh,
    fun _ => mem_fds_iff hh, ?_, ?_⟩, rfl, ?_⟩
  · rintro fd (hfd | hfd | hfd)
    · exact Int.lt_add_one_of_le (hb.le .read fd hfd)
    · exact Int.lt_add_one_of_le (hb.le .write fd hfd)
    · exact Int.lt_add_one_of_le (hb.le .except fd hfd)
  · exact Int.add_one_le_of_lt hb.lt
  · exact fun c hc k hk => fds_eq_of_not_edited (hh.valid c hc) hk

/-- With 3 and 4 watched for input, the kernel is handed both. -/
theorem select_scans_registered_watchTwo :
    ∃ nfds readfds writefds exceptfds timeout a,
      [⟨.select 5 {3, 4} ∅ ∅ (some ⟨5, 0⟩), .failed⟩] =
        ([⟨.select nfds readfds writefds exceptfds timeout, a⟩] : List Ev) ∧
      (∀ fd, fd ∈ readfds ↔ lastEdit .read fd (editsOf watchTwo) = some true) ∧
      (∀ fd, fd ∈ writefds ↔ lastEdit .write fd (editsOf watchTwo) = some true) ∧
      (∀ fd, fd ∈ exceptfds ↔ lastEdit .except fd (editsOf watchTwo) = some true) ∧
      (∀ fd, fd ∈ readfds ∨ fd ∈ writefds ∨ fd ∈ exceptfds → fd < nfds) ∧ nfds ≤ fdSetsize :=
  (select_scans_registered history_watchTwo watchTwo_inRange run_select_watchTwo).1

/-! ## 5. What the queries report -/

/-- The three queries answer membership in `left`, for every descriptor that has a bit.  A
query for another one reads outside the set, and C++ does not say what it answers. -/
structure ReportsReady (s : SelectWrapper) (left : FdKind → FdSet) : Prop where
  readable : ∀ fd, InFdSet fd → ∀ tr b s',
    Meth.Run (SelectWrapper.isReadable fd) s tr (.ok b) s' → (b = true ↔ fd ∈ left .read)
  writable : ∀ fd, InFdSet fd → ∀ tr b s',
    Meth.Run (SelectWrapper.isWritable fd) s tr (.ok b) s' → (b = true ↔ fd ∈ left .write)
  exception : ∀ fd, InFdSet fd → ∀ tr b s',
    Meth.Run (SelectWrapper.hasException fd) s tr (.ok b) s' → (b = true ↔ fd ∈ left .except)

theorem query_iff {s : SelectWrapper} {k : FdKind} {set : FdSet} :
    (∀ fd, InFdSet fd → ∀ tr b s', Meth.Run (SelectWrapper.hasFd k fd) s tr (.ok b) s' →
      (b = true ↔ fd ∈ set)) ↔ ∀ fd, InFdSet fd → (fd ∈ s.fds k ↔ fd ∈ set) := by
  constructor
  · intro h fd hfd
    simpa using h fd hfd _ _ s (SelectWrapper.run_hasFd.mpr ⟨rfl, rfl, rfl⟩)
  · intro heq fd hfd tr b s' h
    obtain ⟨-, hb, -⟩ := SelectWrapper.run_hasFd.mp h
    obtain rfl := Except.ok.inj hb
    simpa using heq fd hfd

theorem reportsReady_iff_fds {s : SelectWrapper} {left : FdKind → FdSet} :
    ReportsReady s left ↔ ∀ k fd, InFdSet fd → (fd ∈ s.fds k ↔ fd ∈ left k) := by
  constructor
  · intro h k
    cases k with
    | read => exact query_iff.mp h.readable
    | write => exact query_iff.mp h.writable
    | except => exact query_iff.mp h.exception
  · intro h
    exact ⟨query_iff.mpr (h .read), query_iff.mpr (h .write), query_iff.mpr (h .except)⟩

/-- The kernel leaves nothing in a set that was not handed to it. -/
theorem left_subset_fds {s s' : SelectWrapper} {timeoutSec timeoutUsec nfds : ℤ}
    {readfds writefds exceptfds : FdSet} {timeout : Option Timeval}
    {a : SelectRet readfds writefds exceptfds} {r : Except Thrown ℤ}
    (hc : Meth.Run (SelectWrapper.select timeoutSec timeoutUsec) s
      [⟨.select nfds readfds writefds exceptfds timeout, a⟩] r s') :
    s' = s ∧ ∀ k, a.left k ⊆ s.fds k := by
  obtain ⟨_, htr, -, hs⟩ := SelectWrapper.run_select.mp hc
  have hcall := congrArg Sigma.fst (List.head_eq_of_cons_eq htr)
  obtain ⟨-, rfl, rfl, rfl, -⟩ := Sys.select.inj hcall
  refine ⟨hs, fun k => ?_⟩
  cases a with
  | ready r w e hr hw he =>
    cases k with
    | read => exact hr
    | write => exact hw
    | except => exact he
  | failed => cases k <;> exact Finset.Subset.refl _

/-- **When the queries report readiness.**  After a `select` they tell what the kernel left,
for every descriptor, exactly when the kernel left every registered descriptor: they tell
idle descriptors from ready ones only where nothing is idle. -/
theorem reportsReady_iff {h : List SelectCall} {s s' : SelectWrapper}
    (hh : History SelectOp.exec SelectWrapper.new h s) (hr : ∀ c ∈ h, c.op.InRange)
    {timeoutSec timeoutUsec nfds : ℤ} {readfds writefds exceptfds : FdSet}
    {timeout : Option Timeval} {a : SelectRet readfds writefds exceptfds} {r : Except Thrown ℤ}
    (hc : Meth.Run (SelectWrapper.select timeoutSec timeoutUsec) s
      [⟨.select nfds readfds writefds exceptfds timeout, a⟩] r s') :
    ReportsReady s' a.left ↔
      ∀ k fd, lastEdit k fd (editsOf h) = some true → fd ∈ a.left k := by
  obtain ⟨rfl, hsub⟩ := left_subset_fds hc
  rw [reportsReady_iff_fds]
  constructor
  · intro heq k fd hlast
    have hfd := (mem_fds_iff hh).mpr hlast
    exact (heq k fd ((bounded_of_history hh hr).inFdSet hfd)).mp hfd
  · intro hall k fd _
    exact ⟨fun hfd => hall k fd ((mem_fds_iff hh).mp hfd), fun hfd => hsub k hfd⟩

/-- The kernel reports descriptor 3 and leaves the idle 4 out; `isReadable` reports both. -/
theorem isReadable_idle :
    ¬ ∀ (h : List SelectCall) (s s' : SelectWrapper) (timeoutSec timeoutUsec nfds : ℤ)
      (readfds writefds exceptfds : FdSet) (timeout : Option Timeval)
      (a : SelectRet readfds writefds exceptfds) (r : Except Thrown ℤ),
      History SelectOp.exec .new h s → (∀ c ∈ h, c.op.InRange) →
      Meth.Run (SelectWrapper.select timeoutSec timeoutUsec) s
        [⟨.select nfds readfds writefds exceptfds timeout, a⟩] r s' →
      0 ≤ a.ret → ReportsReady s' a.left := by
  intro hall
  have hready := hall watchTwo _ _ 5 0 5 {3, 4} ∅ ∅ _ (answerTwo {3} (by decide)) _
    history_watchTwo watchTwo_inRange run_select_watchTwo (by decide)
  have hfour := hready.readable 4 (by decide) [] true _ (SelectWrapper.run_hasFd.mpr ⟨rfl, rfl, rfl⟩)
  exact absurd (hfour.mp rfl) (by decide)

/-- Where both have input, the queries are right. -/
theorem reportsReady_iff_watchTwo :
    ReportsReady ⟨{3, 4}, ∅, ∅, 4⟩ (answerTwo {3, 4} (by decide)).left ↔
      ∀ k fd, lastEdit k fd (editsOf watchTwo) = some true →
        fd ∈ (answerTwo {3, 4} (by decide)).left k :=
  reportsReady_iff history_watchTwo watchTwo_inRange run_select_watchTwo

end InternetProgramming
