/-
# The client table of the select server

Every connection the server has open should be in exactly one slot: the slots are all the
server knows of its clients, so a connection in no slot is never watched, never read and never
closed, and one in two slots would be served twice and closed twice.

`TableExact` says that the slots and the open connections are the same.  Each iteration keeps
half of it without any condition (`Holds`: nothing in the table is stale or doubled), through
slot reuse and several disconnects in one pass.  The other half depends on the free slots:
`accept` is called whether or not there is one, and a connection that finds none is forgotten
while it is open.  And being in a slot is being watched only below `FD_SETSIZE`.
`tableExact_iff` says what it takes: free slots, and the limits of `ServerLimits`.
-/
import InternetProgramming.ServerLimits

namespace InternetProgramming

open Interaction

namespace SelectServer

variable {tr : List Ev} {H : Finset ℤ}

/-! ## 1. The parts of an iteration and the table -/

/-- Entries that do not concern the table: they hand out no descriptor and close none. -/
def Aside (tr : List Ev) : Prop := ∀ e ∈ tr, actOf e = .other

theorem Aside.not_accepts (h : Aside tr) : ¬ Accepts tr := by
  rintro ⟨fd, n, peer, hmem⟩
  cases h _ hmem

/-- Marks hand out no descriptor and close none. -/
theorem aside_of_marks (h : Marks tr) : Aside tr :=
  h.forall_mem (fun _ _ => rfl) fun _ => rfl

theorem BitMarks.aside (h : BitMarks tr) : Aside tr := aside_of_marks h.marks

@[simp] theorem aside_append {tr₁ tr₂ : List Ev} :
    Aside (tr₁ ++ tr₂) ↔ Aside tr₁ ∧ Aside tr₂ := by
  simp [Aside, or_imp, forall_and]

@[simp] theorem aside_cons {e : Ev} : Aside (e :: tr) ↔ actOf e = .other ∧ Aside tr := by
  simp [Aside]

@[simp] theorem aside_nil : Aside [] := by simp [Aside]

/-- **The third loop on a slot** either leaves the table and the descriptors alone, or frees
the slot and closes what was in it. -/
theorem ServiceEffect.table {readfds : FdSet} {i : ℕ} {s s' : SelectServer}
    (h : ServiceEffect readfds s i tr s') :
    (heldAfter H tr = H ∧ s'.clientSockets = s.clientSockets) ∨
      (heldAfter H tr = H.erase (s.slot i) ∧ s'.clientSockets = s.clientSockets.set i 0) := by
  have hbit : Aside (bitTrace (s.slot i)) := bitMarks_bitTrace.aside
  cases h with
  | idle notReady trace post =>
    subst trace post
    exact Or.inl ⟨heldAfter_of_other hbit, rfl⟩
  | closed ready a₁ a₂ trace post =>
    subst trace post
    refine Or.inr ⟨?_, rfl⟩
    rw [heldAfter_append, heldAfter_of_other hbit]
    rfl
  | answered ready a ne t₀ t₁ t₂ text reply buffer sent trace store print measure post =>
    have haside : Aside tr := by
      rw [trace]
      simp [hbit, aside_of_marks (marks_storeZero store), aside_of_marks (marks_cString print),
        aside_of_marks (marks_cString measure), actOf]
    subst post
    exact Or.inl ⟨heldAfter_of_other haside, rfl⟩

/-! ## 2. What every iteration keeps -/

/-- **The invariant.**  `H` are the connections the server has accepted and not closed. -/
structure Tracks (s : SelectServer) (H : Finset ℤ) : Prop where
  holds : Holds s.clientSockets.cells H
  pos : ∀ fd ∈ H, 0 < fd

/-- The open connections that the table has lost. -/
def untracked (s : SelectServer) (H : Finset ℤ) : Finset ℤ := missing s.clientSockets.cells H

/-- A successful `accept` returns a descriptor greater than zero. -/
def PositiveAccepts (tr : List Ev) : Prop :=
  ∀ fd n peer, (⟨.accept fd, .accepted n peer⟩ : Ev) ∈ tr → 0 < n

/-- The third loop on one slot. -/
theorem tracks_serviceClient {readfds : FdSet} {i : ℕ} {s s' : SelectServer}
    (h : ServiceEffect readfds s i tr s') (ht : s.Tracks H) :
    s'.Tracks (heldAfter H tr) ∧ s'.untracked (heldAfter H tr) = s.untracked H := by
  rcases h.table with ⟨hheld, htable⟩ | ⟨hheld, htable⟩
  · rw [hheld]
    refine ⟨⟨?_, ht.pos⟩, ?_⟩
    · rw [htable]
      exact ht.holds
    · rw [untracked, htable]
      rfl
  · obtain ⟨hholds, hmissing⟩ := ht.holds.free (i := i)
    have hcells : s'.clientSockets.cells = s.clientSockets.cells.set i 0 := by
      rw [htable]
      rfl
    rw [hheld]
    refine ⟨⟨?_, fun fd hfd => ht.pos fd (Finset.mem_of_mem_erase hfd)⟩, ?_⟩
    · rw [hcells]
      exact hholds
    · rw [untracked, hcells]
      exact hmissing

/-- The third loop. -/
theorem tracks_serviceClients {readfds : FdSet} {s s' : SelectServer} {r : Except Thrown Unit}
    (h : Meth.Run (serviceClients readfds) s tr r s') (ht : s.Tracks H) :
    s'.Tracks (heldAfter H tr) ∧ s'.untracked (heldAfter H tr) = s.untracked H := by
  have hloop := Meth.run_forM
    (I := fun t pre => t.Tracks (heldAfter H pre) ∧
      t.untracked (heldAfter H pre) = s.untracked H)
    (fun i _ t pre tr r t' hI hrun => ?_) ⟨ht, rfl⟩ h
  · exact hloop.2
  · obtain ⟨htracks, huntracked⟩ := hI
    obtain ⟨hr, heffect⟩ := serviceEffect hrun
    obtain ⟨htracks', huntracked'⟩ := tracks_serviceClient heffect htracks
    rw [heldAfter_append]
    exact ⟨hr, htracks', huntracked'.trans huntracked⟩

/-- The second loop.  A connection that finds no free slot is lost to the table. -/
theorem tracks_arrival {ready : FdSet} {s s' : SelectServer} (h : Arrival s ready tr s')
    (ht : s.Tracks H) (hf : FreshFrom H (tr.map actOf)) (hp : PositiveAccepts tr) :
    s'.Tracks (heldAfter H tr) ∧ (s'.untracked (heldAfter H tr) = ∅ ↔
      s.untracked H = ∅ ∧ (Accepts tr → 0 ∈ s.clientSockets.cells)) := by
  cases h with
  | nobody notReady trace post =>
    subst trace post
    simp [ht, Accepts]
  | somebody isReady n peer trace post =>
    subst trace post
    have hn : (n : ℤ) ∉ H := (freshFrom_cons.mp hf).1 n rfl
    have hpos : 0 < n := hp _ n peer List.mem_cons_self
    have hn0 : (n : ℤ) ≠ 0 := by omega
    have haccepts : Accepts [⟨.accept s.serverFd, .accepted n peer⟩] :=
      ⟨_, n, peer, List.mem_cons_self⟩
    have hmissing := missing_claim ht.holds hn0 hn
    change (s.withClient n).Tracks (insert (n : ℤ) H) ∧
      (missing (storeClient n s.clientSockets.cells) (insert (n : ℤ) H) = ∅ ↔ _)
    rw [storeClient_eq_claim, hmissing]
    refine ⟨⟨?_, fun fd hfd => ?_⟩, ?_⟩
    · change Holds (storeClient n s.clientSockets.cells) _
      rw [storeClient_eq_claim]
      exact ht.holds.claim hn0 hn
    · rcases Finset.mem_insert.mp hfd with rfl | hfd
      · omega
      · exact ht.pos fd hfd
    · by_cases hfree : 0 ∈ s.clientSockets.cells
      · simp [hfree, untracked]
      · simp [hfree, haccepts]

/-- Entries that do not concern the table leave what follows them fresh. -/
theorem Aside.freshFrom {head : List Ev} (h : Aside head)
    (hf : FreshFrom H ((head ++ tr).map actOf)) : FreshFrom H (tr.map actOf) := by
  have hheld : heldFrom H (head.map actOf) = H := heldAfter_of_other h
  rw [List.map_append, freshFrom_append, hheld] at hf
  exact hf.2

/-- An iteration that is not the last one consists of entries that do not concern the table,
the second loop and the third. -/
theorem run_iteration_ok {s s' : SelectServer} (h : Meth.Run iteration s tr (.ok ()) s') :
    ∃ head ready s₁ t₁ t₂, tr = head ++ (t₁ ++ t₂) ∧ Aside head ∧ Arrival s ready t₁ s₁ ∧
      Meth.Run (serviceClients ready) s₁ t₂ (.ok ()) s' := by
  obtain ⟨tr₁, nfds, readfds, a, tr₂, rfl, hprepares, -, hafter⟩ := run_iteration h
  cases hafter with
  | exited isReady trace res post => cases res
  | served s₁ t₁ t₂ trace arrival service =>
    refine ⟨tr₁ ++ ⟨.select nfds readfds ∅ ∅ none, a⟩ :: bitTrace s.serverFd, a.readfds', s₁, t₁,
      t₂, by simp [trace], ?_, arrival, service⟩
    simp [hprepares.marks.aside, bitMarks_bitTrace.aside, actOf]

/-- **One iteration** keeps the invariant, and loses a connection exactly if it accepts one
with no slot free. -/
theorem tracks_iteration {s s' : SelectServer} (h : Meth.Run iteration s tr (.ok ()) s')
    (ht : s.Tracks H) (hf : FreshFrom H (tr.map actOf)) (hp : PositiveAccepts tr) :
    s'.Tracks (heldAfter H tr) ∧ (s'.untracked (heldAfter H tr) = ∅ ↔
      s.untracked H = ∅ ∧ (Accepts tr → 0 ∈ s.clientSockets.cells)) := by
  obtain ⟨head, ready, s₁, t₁, t₂, rfl, hhead, arrival, service⟩ := run_iteration_ok h
  have hf' := hhead.freshFrom hf
  rw [List.map_append, freshFrom_append] at hf'
  obtain ⟨htracks, huntracked⟩ := tracks_arrival arrival ht hf'.1
    fun fd n peer hmem => hp fd n peer (by simp [hmem])
  obtain ⟨htracks', huntracked'⟩ := tracks_serviceClients service htracks
  have hnone := (inSets_serviceClients service).1
  have haccepts : Accepts (head ++ (t₁ ++ t₂)) ↔ Accepts t₁ := by
    rw [Accepts.append, Accepts.append]
    simp [hhead.not_accepts, hnone]
  rw [heldAfter_append, heldAfter_append, heldAfter_of_other hhead, haccepts, huntracked']
  exact ⟨htracks', huntracked⟩

/-! ## 3. Every run of the loop -/

/-- Every iteration that accepted a connection had a free slot at its top. -/
def AcceptsIntoFreeSlot (h : List Pass) : Prop :=
  ∀ c ∈ h, Accepts c.trace → 0 ∈ c.pre.clientSockets.cells

/-- **The run lemma.** -/
theorem tracks_loopRun {h : List Pass} {s s' : SelectServer} (hl : LoopRun iteration s h s')
    (htop : AtTop h) (ht : s.Tracks H) (hf : FreshFrom H ((traceOf h).map actOf))
    (hp : PositiveAccepts (traceOf h)) :
    s'.Tracks (heldAfter H (traceOf h)) ∧ (s'.untracked (heldAfter H (traceOf h)) = ∅ ↔
      s.untracked H = ∅ ∧ AcceptsIntoFreeSlot h) := by
  induction h generalizing s H with
  | nil =>
    obtain rfl : s' = s := hl
    simp [ht, AcceptsIntoFreeSlot]
  | cons c h ih =>
    obtain ⟨rfl, hv, hrest⟩ := hl
    obtain ⟨hres, htop⟩ := List.forall_mem_cons.mp htop
    rw [hres] at hrest
    rw [traceOf_cons, List.map_append, freshFrom_append] at hf
    have hrun : Meth.Run iteration c.pre c.trace (.ok ()) c.post := hres ▸ hv
    obtain ⟨htracks, hlost⟩ := tracks_iteration hrun ht hf.1
      fun fd n peer hmem => hp fd n peer (by simp [hmem])
    obtain ⟨htracks', hlost'⟩ := ih hrest htop htracks hf.2
      fun fd n peer hmem => hp fd n peer (by simp [hmem])
    rw [traceOf_cons, heldAfter_append]
    refine ⟨htracks', ?_⟩
    rw [hlost', hlost, and_assoc]
    exact and_congr_right fun _ => (List.forall_mem_cons (p := fun c : Pass =>
      Accepts c.trace → 0 ∈ c.pre.clientSockets.cells)).symm

/-- **What the table is for.**  The slots hold the open connections `H`, each in one slot, and
the next iteration begins with a `select` that watches them all. -/
structure TableExact (s : SelectServer) (H : Finset ℤ) : Prop where
  distinct : ∀ fd, fd ≠ 0 → s.clientSockets.cells.count fd ≤ 1
  isOpen : ∀ fd ∈ s.clientSockets.cells, fd ≠ 0 → fd ∈ H
  inOneSlot : ∀ fd ∈ H, s.clientSockets.cells.count fd = 1
  watched : ∀ tr r s', Meth.Run iteration s tr r s' →
    ∃ nfds readfds a tr₂, tr = ⟨.select nfds readfds ∅ ∅ none, a⟩ :: tr₂ ∧
      ∀ fd ∈ H, fd ∈ readfds ∧ fd < nfds

/-- A table that tracks the open connections and has lost none is exact, if all of them and the
listening socket are inside the set. -/
theorem Tracks.tableExact {s : SelectServer} (h : s.Tracks H) (hlost : s.untracked H = ∅)
    (hserver : InFdSet s.serverFd) (hfits : s.TableFits) : s.TableExact H := by
  have hmem : ∀ fd ∈ H, fd ∈ s.clientSockets.cells := by
    intro fd hfd
    by_contra hnot
    have hin : fd ∈ s.untracked H := mem_missing.mpr ⟨hfd, hnot⟩
    rw [hlost] at hin
    exact absurd hin (Finset.notMem_empty fd)
  refine ⟨h.holds.once, h.holds.live, fun fd hfd => ?_, fun tr r s' hrun => ?_⟩
  · have hpos := List.count_pos_iff.mpr (hmem fd hfd)
    have hle := h.holds.once fd (h.holds.ne_zero hfd)
    omega
  · obtain ⟨tr₁, nfds, readfds, a, tr₂, rfl, hprepares, hwatches, -⟩ := run_iteration hrun
    obtain rfl : tr₁ = [] :=
      hprepares.marks.eq_nil (hprepares.inSets.mpr ⟨hserver, fun fd hfd _ => hfits fd hfd⟩)
    refine ⟨nfds, readfds, a, tr₂, rfl, fun fd hfd => ?_⟩
    have hin : fd ∈ readfds := (hwatches.mem fd).mpr (Or.inr ⟨h.pos fd hfd, hmem fd hfd⟩)
    exact ⟨hin, hwatches.lt fd hin⟩

/-- In front of `select` nothing has been marked, the listening socket included. -/
theorem TableExact.listening {s : SelectServer} (h : s.TableExact H) : InFdSet s.serverFd := by
  obtain ⟨tr, p, hrun⟩ := Prog.exists_run (iteration.run.run s)
  obtain ⟨nfds, readfds, a, tr₂, htr, -⟩ := h.watched tr p.1 p.2 hrun
  obtain ⟨tr₁, nfds', readfds', a', tr₂', rfl, hprepares, -, -⟩ := run_iteration hrun
  cases tr₁ with
  | nil => exact (hprepares.inSets.mp inSets_nil).1
  | cons e tr₁ =>
    obtain ⟨fd, hfd⟩ := hprepares.marks e List.mem_cons_self
    rw [List.cons_append, List.cons.injEq] at htr
    rw [htr.1] at hfd
    cases hfd

theorem TableExact.untracked {s : SelectServer} (h : s.TableExact H) : s.untracked H = ∅ := by
  refine Finset.eq_empty_of_forall_notMem fun fd hfd => ?_
  obtain ⟨hmem, hnot⟩ := mem_missing.mp hfd
  have hone := h.inOneSlot fd hmem
  rw [List.count_eq_zero_of_not_mem hnot] at hone
  omega

theorem tracks_start (serverFd : ℤ) :
    (start serverFd).Tracks ∅ ∧ (start serverFd).untracked ∅ = ∅ := by
  refine ⟨⟨⟨Finset.notMem_empty 0, fun fd hfd => ?_, fun fd hmem hfd => ?_⟩, by simp⟩, rfl⟩
  · change (List.replicate maxClients (0 : ℤ)).count fd ≤ 1
    rw [List.count_replicate, if_neg (by simpa using hfd.symm)]
    omega
  · exact absurd (List.eq_of_mem_replicate hmem) hfd

/-- **When no connection is lost.**  In every run of the server that has reached the top of an
iteration, nothing has been accessed outside its object so far and the table is exact, if and only
if the listening socket is inside an `fd_set`, every iteration was within the limits, and every
connection accepted so far found a free slot.  Of the kernel it is assumed that `accept` returns
descriptors that are positive and not open. -/
theorem tableExact_iff {tr₀ : List Ev} {h : List Pass} {s₀ s : SelectServer}
    (hstart : startup.Run tr₀ (.ok s₀)) (hl : LoopRun iteration s₀ h s) (htop : AtTop h)
    (hf : FreshFrom ∅ ((traceOf h).map actOf)) (hp : PositiveAccepts (traceOf h)) :
    Defined (traceOf h) ∧ s.TableExact (openFds (traceOf h)) ↔
      InFdSet s₀.serverFd ∧ (∀ c ∈ h, c.pre.WithinLimits c.trace) ∧ AcceptsIntoFreeSlot h := by
  obtain ⟨serverFd, -, rfl⟩ := run_startup hstart
  obtain ⟨htracks₀, hlost₀⟩ := tracks_start serverFd
  obtain ⟨htracks, hlost⟩ := tracks_loopRun hl htop htracks₀ hf hp
  obtain ⟨hlimits, hfits⟩ := defined_loopRun hl tableFits_start
  have hserver := serverFd_loopRun hl
  rw [defined_traceOf]
  constructor
  · rintro ⟨hdefined, hexact⟩
    exact ⟨hserver ▸ hexact.listening, hlimits.mp hdefined, (hlost.mp hexact.untracked).2⟩
  · rintro ⟨hlistening, hwithin, hfree⟩
    have hdefined := hlimits.mpr hwithin
    exact ⟨hdefined, htracks.tableExact (hlost.mpr ⟨hlost₀, hfree⟩) (hserver ▸ hlistening)
      (hfits hdefined)⟩

/-! ## 4. More connections than slots -/

/-- The descriptor acts of `k` iterations that each accept a connection, numbered from `n`. -/
def arrivals (n : ℕ) : ℕ → List (Act ℤ)
  | 0 => []
  | k + 1 => .other :: .acquire n :: arrivals (n + 1) k

theorem freshFrom_arrivals {k n : ℕ} {H : Finset ℤ} (h : ∀ fd ∈ H, fd < n) :
    FreshFrom H (arrivals n k) := by
  induction k generalizing n H with
  | zero => exact along_nil
  | succ k ih =>
    have hn : (n : ℤ) ∉ H := fun hmem => by have := h n hmem; omega
    refine freshFrom_cons.mpr ⟨by simp, freshFrom_cons.mpr ⟨?_, ih ?_⟩⟩
    · intro a ha
      obtain rfl := Act.acquire.inj ha
      exact hn
    · intro fd hfd
      rcases Finset.mem_insert.mp hfd with rfl | hfd
      · push_cast; omega
      · have := h fd hfd
        push_cast; omega

/-- The table holds nothing from `n` on. -/
def Below (s : SelectServer) (n : ℕ) : Prop :=
  s.serverFd = 3 ∧ ∀ fd ∈ s.clientSockets.cells, 0 ≤ fd ∧ fd < n ∧ fd ≠ 3

theorem Below.ordinary {s : SelectServer} {n : ℕ} (h : s.Below n) (hn : n ≤ 1024) :
    s.Ordinary := by
  obtain ⟨hserver, hslots⟩ := h
  refine ⟨hserver ▸ by decide, fun fd hfd => ?_⟩
  obtain ⟨h1, h2, h3⟩ := hslots fd hfd
  rw [hserver]
  exact ⟨⟨h1, by unfold fdSetsize; omega⟩, h3⟩

theorem Below.withClient {s : SelectServer} {n : ℕ} (h : s.Below n) (hn : 3 < n) :
    (s.withClient n).Below (n + 1) := by
  refine ⟨h.1, fun fd hfd => ?_⟩
  have hmem : fd ∈ claim (n : ℤ) s.clientSockets.cells := by
    rw [← storeClient_eq_claim]
    exact hfd
  by_cases h0 : fd = 0
  · subst h0
    exact ⟨le_refl _, by omega, by omega⟩
  · rcases (mem_claim h0).mp hmem with hold | ⟨rfl, -⟩
    · obtain ⟨h1, h2, h3⟩ := h.2 fd hold
      exact ⟨h1, by push_cast; omega, h3⟩
    · exact ⟨by omega, by push_cast; omega, by omega⟩

theorem le_of_mem_arrivals {k n : ℕ} {fd : ℤ} (h : Act.acquire fd ∈ arrivals n k) : n ≤ fd := by
  induction k generalizing n with
  | zero => simp [arrivals] at h
  | succ k ih =>
    rcases List.mem_cons.mp h with h | h
    · cases h
    · rcases List.mem_cons.mp h with h | h
      · exact le_of_eq (Act.acquire.inj h).symm
      · have hle := ih h
        push_cast at hle
        omega

theorem positiveAccepts_arrivals {k n : ℕ} (h : tr.map actOf = arrivals n k) (hn : 0 < n) :
    PositiveAccepts tr := by
  intro fd m peer hmem
  have hact : Act.acquire (m : ℤ) ∈ arrivals n k := h ▸ List.mem_map_of_mem (f := actOf) hmem
  have hle := le_of_mem_arrivals hact
  omega

/-- **The server accepts any number of connections**, one after the other. -/
theorem exists_loopRun_arrivals {k n : ℕ} {s : SelectServer} (hs : s.Below n) (hn : 3 < n)
    (hk : n + k ≤ 1024) : ∃ (h : List Pass) (s' : SelectServer), LoopRun iteration s h s' ∧
      AtTop h ∧ Defined (traceOf h) ∧ (traceOf h).map actOf = arrivals n k := by
  induction k generalizing n s with
  | zero => exact ⟨[], s, rfl, by simp [AtTop], defined_nil, rfl⟩
  | succ k ih =>
    have hs' := hs.withClient hn
    obtain ⟨nfds, readfds, a, hrun⟩ :=
      exists_run_accept (hs.ordinary (by omega)) (hs'.ordinary (by omega))
    obtain ⟨h, s', hl, htop, hdefined, hacts⟩ := ih hs' (by omega) (by omega)
    refine ⟨⟨s, (), _, .ok (), s.withClient n⟩ :: h, s', ⟨rfl, hrun, hl⟩,
      List.forall_mem_cons.mpr ⟨rfl, htop⟩, ?_, ?_⟩
    · rw [traceOf_cons]
      exact defined_cons.mpr ⟨rfl, defined_cons.mpr ⟨rfl, hdefined⟩⟩
    · rw [traceOf_cons, List.map_append, hacts]
      rfl

theorem below_start : (start 3).Below 4 := by
  refine ⟨rfl, fun fd hfd => ?_⟩
  obtain rfl := List.eq_of_mem_replicate hfd
  decide

/-- The run in which one connection arrives. -/
theorem tableExact_iff_one : ∃ (h : List Pass) (s : SelectServer),
    (traceOf h).map actOf = [.other, .acquire 4] ∧
      (Defined (traceOf h) ∧ s.TableExact (openFds (traceOf h)) ↔ InFdSet 3 ∧
        (∀ c ∈ h, c.pre.WithinLimits c.trace) ∧ AcceptsIntoFreeSlot h) := by
  obtain ⟨h, s, hl, htop, -, hacts⟩ :=
    exists_loopRun_arrivals (k := 1) below_start (by omega) (by omega)
  exact ⟨h, s, hacts, tableExact_iff run_startup_three hl htop
    (hacts ▸ freshFrom_arrivals (by simp)) (positiveAccepts_arrivals hacts (by omega))⟩

/-- An exact table has a slot for every open connection. -/
theorem TableExact.card_le {s : SelectServer} (h : s.TableExact H) : H.card ≤ maxClients := by
  have hsub : H ⊆ s.clientSockets.cells.toFinset := by
    intro fd hfd
    have hone := h.inOneSlot fd hfd
    exact List.mem_toFinset.mpr (List.count_pos_iff.mp (by omega))
  calc H.card ≤ s.clientSockets.cells.toFinset.card := Finset.card_le_card hsub
    _ ≤ s.clientSockets.cells.length := List.toFinset_card_le _
    _ = maxClients := s.clientSockets.length_eq

/-- Thirty-one connections arrive, and the table has thirty slots.  Nothing is accessed outside its
object. -/
theorem thirty_first_connection_lost :
    ¬ ∀ (tr₀ : List Ev) (h : List Pass) (s₀ s : SelectServer), startup.Run tr₀ (.ok s₀) →
      LoopRun iteration s₀ h s → AtTop h → FreshFrom {s₀.serverFd} ((traceOf h).map actOf) →
      PositiveAccepts (traceOf h) → Defined (traceOf h) →
      s.TableExact (openFds (traceOf h)) := by
  intro hall
  obtain ⟨h, s, hl, htop, hdefined, hacts⟩ :=
    exists_loopRun_arrivals (k := 31) below_start (by omega) (by omega)
  have hexact := hall startTrace h _ s run_startup_three hl htop
    (hacts ▸ freshFrom_arrivals (by decide)) (positiveAccepts_arrivals hacts (by omega)) hdefined
  have hcard := hexact.card_le
  unfold openFds heldAfter at hcard
  rw [hacts] at hcard
  exact absurd hcard (by decide)

end SelectServer

end InternetProgramming
