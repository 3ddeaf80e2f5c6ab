/-
# What the multi-client server has room for

`main` addresses two objects by numbers that it does not choose: `readfds` by the descriptors in
its table, and `buffer` by the result of `read`.  An access outside them ends what can be said of
the server: `readfds` and `buffer` are neighbours, and a byte stored past the one is a bit of the
other.

`WithinLimits` says which numbers an iteration can cope with, and `defined_iteration` that it
stays inside its objects for these and for no others.  The results about the server ask for both:
that nothing was accessed outside, and that the server did what it should.
-/
import InternetProgramming.Interaction.Slots
import InternetProgramming.ReceivePaths

namespace InternetProgramming

open Interaction

namespace SelectServer

variable {tr : List Ev}

/-! ## 1. The limits -/

/-- Every descriptor in the table is inside an `fd_set`. -/
def TableFits (s : SelectServer) : Prop := ∀ fd ∈ s.clientSockets.cells, InFdSet fd

/-- **What an iteration can cope with.**  The listening socket is inside an `fd_set`, and so is a
new connection if there is a slot for it; and every `read` succeeds and leaves room for a
terminator. -/
structure WithinLimits (s : SelectServer) (tr : List Ev) : Prop where
  listening : InFdSet s.serverFd
  accepts : ∀ fd n peer, (⟨.accept fd, .accepted n peer⟩ : Ev) ∈ tr →
    0 ∈ s.clientSockets.cells → InFdSet n
  reads : ∀ e ∈ tr, ReadRoom e

theorem tableFits_start {serverFd : ℤ} : (start serverFd).TableFits := by
  intro fd hfd
  obtain rfl := List.eq_of_mem_replicate hfd
  decide

/-! ## 2. Accepting -/

/-- The trace accepts a connection. -/
def Accepts (tr : List Ev) : Prop := ∃ fd n peer, (⟨.accept fd, .accepted n peer⟩ : Ev) ∈ tr

theorem Accepts.append {tr₁ tr₂ : List Ev} : Accepts (tr₁ ++ tr₂) ↔ Accepts tr₁ ∨ Accepts tr₂ := by
  simp only [Accepts, List.mem_append]
  constructor
  · rintro ⟨fd, n, peer, h | h⟩
    · exact Or.inl ⟨fd, n, peer, h⟩
    · exact Or.inr ⟨fd, n, peer, h⟩
  · rintro (⟨fd, n, peer, h⟩ | ⟨fd, n, peer, h⟩)
    · exact ⟨fd, n, peer, Or.inl h⟩
    · exact ⟨fd, n, peer, Or.inr h⟩

theorem not_accepts_of_marks (h : Marks tr) : ¬ Accepts tr := by
  rintro ⟨fd, n, peer, hmem⟩
  cases h _ hmem

theorem storeClient_eq_claim {newSocket : ℤ} {slots : List ℤ} :
    storeClient newSocket slots = claim newSocket slots := by
  induction slots with
  | nil => rfl
  | cons sd slots ih => rw [storeClient, claim, ih]

/-- A table with a new connection fits if the old one did and the connection does. -/
theorem tableFits_withClient {s : SelectServer} (hs : s.TableFits) (n : ℕ) :
    (s.withClient n).TableFits ↔ (0 ∈ s.clientSockets.cells → InFdSet n) := by
  have hmem : ∀ {fd : ℤ}, fd ≠ 0 → (fd ∈ (s.withClient n).clientSockets.cells ↔
      fd ∈ s.clientSockets.cells ∨ ((n : ℤ) = fd ∧ 0 ∈ s.clientSockets.cells)) := by
    intro fd hfd
    change fd ∈ storeClient n s.clientSockets.cells ↔ _
    rw [storeClient_eq_claim]
    exact mem_claim hfd
  constructor
  · intro hfits hfree
    by_cases hzero : (n : ℤ) = 0
    · rw [hzero]
      decide
    · exact hfits n ((hmem hzero).mpr (Or.inr ⟨rfl, hfree⟩))
  · intro hnew fd hfd
    by_cases hzero : fd = 0
    · subst hzero
      decide
    · rcases (hmem hzero).mp hfd with hold | ⟨rfl, hfree⟩
      · exact hs fd hold
      · exact hnew hfree

/-! ## 3. The third loop -/

/-- What the third loop does on a slot, it does to nothing else; and it accepts nobody. -/
theorem ServiceEffect.frame {readfds : FdSet} {i : ℕ} {s s' : SelectServer}
    (h : ServiceEffect readfds s i tr s') :
    s'.serverFd = s.serverFd ∧ (∀ j, j ≠ i → s'.slot j = s.slot j) ∧ ¬ Accepts tr := by
  have hbit : ¬ Accepts (bitTrace (s.slot i)) := not_accepts_of_marks bitMarks_bitTrace.marks
  cases h with
  | idle notReady trace post =>
    subst trace post
    exact ⟨rfl, fun _ _ => rfl, hbit⟩
  | closed ready a₁ a₂ trace post =>
    subst trace post
    refine ⟨rfl, fun j hj => ?_, ?_⟩
    · change (s.clientSockets.cells.set i 0).getD j 0 = _
      rw [List.getD_eq_getElem?_getD, List.getElem?_set_ne hj.symm, ← List.getD_eq_getElem?_getD]
      rfl
    · rw [Accepts.append, not_or]
      exact ⟨hbit, by simp [Accepts]⟩
  | answered ready a ne t₀ t₁ t₂ text reply buffer sent trace store print measure post =>
    subst trace post
    have h₀ := not_accepts_of_marks (marks_storeZero store)
    have h₁ := not_accepts_of_marks (marks_cString print)
    have h₂ := not_accepts_of_marks (marks_cString measure)
    simp only [Accepts, not_exists] at hbit h₀ h₁ h₂
    refine ⟨rfl, fun _ _ => rfl, ?_⟩
    simp [Accepts, hbit, h₀, h₁, h₂]

/-- **The third loop on a slot** stays inside `readfds` if the descriptor in it does. -/
theorem ServiceEffect.inSets {readfds : FdSet} {i : ℕ} {s s' : SelectServer}
    (h : ServiceEffect readfds s i tr s') : InSets tr ↔ InFdSet (s.slot i) := by
  cases h with
  | idle notReady trace post => rw [trace, inSets_bitTrace]
  | closed ready a₁ a₂ trace post =>
    have hrest : InSets [⟨.read (s.slot i) bufferSize, .received [] (Nat.zero_le _)⟩,
        ⟨.getpeername (s.slot i), a₁⟩, ⟨.close (s.slot i), a₂⟩] := by simp [InSets]
    rw [trace, inSets_append, inSets_bitTrace, and_iff_left hrest]
  | answered ready a ne t₀ t₁ t₂ text reply buffer sent trace store print measure post =>
    have h₀ := inSets_storeZero store
    have h₁ := inSets_cString print
    have h₂ := inSets_cString measure
    have hlast : InSets [⟨.send (s.slot i) reply, sent⟩] := by simp [InSets]
    rw [trace, inSets_append, inSets_bitTrace, inSets_cons (by simp), inSets_append, inSets_append,
      inSets_cons (by simp), inSets_append]
    exact and_iff_left ⟨h₀, h₁, h₂, hlast⟩

theorem ServiceEffect.tableFits {readfds : FdSet} {i : ℕ} {s s' : SelectServer}
    (h : ServiceEffect readfds s i tr s') (hs : s.TableFits) : s'.TableFits := by
  cases h with
  | idle notReady trace post => exact post ▸ hs
  | closed ready a₁ a₂ trace post =>
    subst post
    intro fd hfd
    rcases List.mem_or_eq_of_mem_set hfd with hold | rfl
    · exact hs fd hold
    · decide
  | answered ready a ne t₀ t₁ t₂ text reply buffer sent trace store print measure post =>
    exact post ▸ hs

/-- The slots in order are the table. -/
theorem map_slot (s : SelectServer) :
    (List.range maxClients).map s.slot = s.clientSockets.cells := by
  refine List.ext_getElem ?_ fun i hi hi' => ?_
  · rw [List.length_map, List.length_range, s.clientSockets.length_eq]
  · rw [List.getElem_map, List.getElem_range]
    exact List.getD_eq_getElem _ _ hi'

/-- **The rule of the third loop.**  `I` speaks of the slots that are left and of the trace; each
slot is met as it was when the loop was entered. -/
theorem run_serviceClients {ready : FdSet} {s s' : SelectServer} {r : Except Thrown Unit}
    {I : List ℕ → List Ev → Prop}
    (hI : ∀ i left pre tr s₁ s₂, I (i :: left) pre → s₁.slot i = s.slot i →
      ServiceEffect ready s₁ i tr s₂ → I left (pre ++ tr))
    (hstart : I (List.range maxClients) [])
    (h : Meth.Run (serviceClients ready) s tr r s') : I [] tr := by
  have hloop := Meth.run_forM_left
    (I := fun left t pre => left.Nodup ∧ (∀ i ∈ left, t.slot i = s.slot i) ∧ I left pre)
    (fun i left t pre tr r t' hpre hrun => ?_) [] ⟨List.nodup_range, fun _ _ => rfl, hstart⟩ h
  · exact hloop.2.2.2
  · obtain ⟨hnodup, hslots, hpre⟩ := hpre
    obtain ⟨hi, hnodup⟩ := List.nodup_cons.mp hnodup
    obtain ⟨hslot, hslots⟩ := List.forall_mem_cons.mp hslots
    obtain ⟨hr, heffect⟩ := serviceEffect hrun
    refine ⟨hr, hnodup, fun j hj => ?_, hI i left pre tr t t' hpre hslot heffect⟩
    have hji : j ≠ i := fun heq => hi (heq ▸ hj)
    rw [heffect.frame.2.1 j hji, hslots j hj]

/-- The third loop accepts nobody, and stays inside `readfds` if the table does. -/
theorem inSets_serviceClients {ready : FdSet} {s s' : SelectServer} {r : Except Thrown Unit}
    (h : Meth.Run (serviceClients ready) s tr r s') :
    ¬ Accepts tr ∧ (InSets tr ↔ s.TableFits) := by
  have hfits : (∀ i ∈ List.range maxClients, InFdSet (s.slot i)) ↔ s.TableFits := by
    rw [TableFits, ← map_slot, List.forall_mem_map]
  refine run_serviceClients (I := fun left pre => ¬ Accepts pre ∧
    (InSets pre ∧ (∀ i ∈ left, InFdSet (s.slot i)) ↔ s.TableFits)) ?_ ?_ h |>.imp_right ?_
  · rintro i left pre tr s₁ s₂ ⟨hnone, hin⟩ hslot heffect
    rw [Accepts.append, inSets_append, heffect.inSets, hslot, and_assoc,
      ← List.forall_mem_cons (p := fun j => InFdSet (s.slot j))]
    exact ⟨not_or.mpr ⟨hnone, heffect.frame.2.2⟩, hin⟩
  · exact ⟨by simp [Accepts], by rw [hfits, and_iff_right inSets_nil]⟩
  · intro hin
    simpa using hin

/-- What the third loop leaves as it is. -/
theorem serviceClients_keeps {ready : FdSet} {s s' : SelectServer} {r : Except Thrown Unit}
    (h : Meth.Run (serviceClients ready) s tr r s') :
    s'.serverFd = s.serverFd ∧ (s.TableFits → s'.TableFits) := by
  have hloop := Meth.run_forM
    (I := fun t _ => t.serverFd = s.serverFd ∧ (s.TableFits → t.TableFits))
    (fun i _ t pre tr r t' hI hrun => ?_) ⟨rfl, id⟩ h
  · exact hloop.2
  · obtain ⟨hr, heffect⟩ := serviceEffect hrun
    exact ⟨hr, heffect.frame.1.trans hI.1, fun hs => heffect.tableFits (hI.2 hs)⟩

/-! ## 4. An iteration -/

theorem AfterSelect.serverFd {ready : FdSet} {s s' : SelectServer} {r : Except Thrown Unit}
    (h : AfterSelect s ready tr r s') : s'.serverFd = s.serverFd := by
  cases h with
  | exited isReady trace res post => rw [post]
  | served s₁ t₁ t₂ trace arrival service =>
    rw [(serviceClients_keeps service).1]
    cases arrival with
    | nobody notReady trace post => rw [post]
    | somebody isReady n peer trace post => rw [post]; rfl

theorem serverFd_iteration {s s' : SelectServer} {r : Except Thrown Unit}
    (h : Meth.Run iteration s tr r s') : s'.serverFd = s.serverFd := by
  obtain ⟨_, _, _, _, _, -, -, -, hafter⟩ := run_iteration h
  exact hafter.serverFd

/-- **After `select`**, `readfds` is not left if the listening socket and the new connection fit. -/
theorem AfterSelect.inSets {ready : FdSet} {s s' : SelectServer} {r : Except Thrown Unit}
    (h : AfterSelect s ready tr r s') (hs : s.TableFits) :
    (InSets tr ↔ InFdSet s.serverFd ∧ ∀ fd n peer, (⟨.accept fd, .accepted n peer⟩ : Ev) ∈ tr →
      0 ∈ s.clientSockets.cells → InFdSet n) ∧ (InSets tr → s'.TableFits) := by
  have hbit := not_accepts_of_marks (@bitMarks_bitTrace s.serverFd).marks
  cases h with
  | exited isReady trace res post =>
    subst trace post
    refine ⟨?_, fun _ => hs⟩
    rw [inSets_append, inSets_bitTrace, and_iff_left (by simp [InSets]), iff_self_and]
    intro _ fd n peer hmem
    rcases List.mem_append.mp hmem with hmem | hmem
    · exact absurd ⟨fd, n, peer, hmem⟩ hbit
    · simp at hmem
  | served s₁ t₁ t₂ trace arrival service =>
    subst trace
    obtain ⟨hnone, hin⟩ := inSets_serviceClients service
    have hkeeps := (serviceClients_keeps service).2
    have haccept : ∀ fd n peer, (⟨.accept fd, .accepted n peer⟩ : Ev) ∈
        bitTrace s.serverFd ++ (t₁ ++ t₂) ↔ (⟨.accept fd, .accepted n peer⟩ : Ev) ∈ t₁ := by
      intro fd n peer
      have h₁ : _ ∉ bitTrace s.serverFd := fun hmem => hbit ⟨fd, n, peer, hmem⟩
      have h₂ : _ ∉ t₂ := fun hmem => hnone ⟨fd, n, peer, hmem⟩
      simp [h₁, h₂]
    have harrival : InSets t₁ ∧ (s₁.TableFits ↔ ∀ fd n peer,
        (⟨.accept fd, .accepted n peer⟩ : Ev) ∈ t₁ → 0 ∈ s.clientSockets.cells → InFdSet n) := by
      cases arrival with
      | nobody notReady trace post =>
        subst trace post
        exact ⟨inSets_nil, iff_of_true hs (by simp)⟩
      | somebody isReady n peer trace post =>
        subst trace post
        refine ⟨by simp [InSets], (tableFits_withClient hs n).trans ?_⟩
        constructor
        · intro hn fd m peer' hmem
          have hact := congrArg actOf (List.mem_singleton.mp hmem)
          rw [Act.acquire.inj hact]
          exact hn
        · exact fun hall => hall _ n peer List.mem_cons_self
    simp only [haccept, inSets_append, inSets_bitTrace, hin, and_iff_right harrival.1]
    exact ⟨and_congr_right fun _ => harrival.2, fun hfits => hkeeps hfits.2⟩

/-- **An iteration stays inside its objects** if it is within the limits, and only then. -/
theorem defined_iteration {s s' : SelectServer} {r : Except Thrown Unit}
    (h : Meth.Run iteration s tr r s') (hs : s.TableFits) :
    (Defined tr ↔ s.WithinLimits tr) ∧ (Defined tr → s'.TableFits) := by
  have hbuf : InBuffers tr ↔ ∀ e ∈ tr, ReadRoom e := balanced_iteration h
  obtain ⟨tr₁, nfds, readfds, a, tr₂, rfl, hprepares, -, hafter⟩ := run_iteration h
  obtain ⟨hin, hfits⟩ := hafter.inSets hs
  have hfirst : InSets tr₁ ↔ InFdSet s.serverFd :=
    hprepares.inSets.trans (and_iff_left fun fd hfd _ => hs fd hfd)
  have haccept : ∀ fd n peer, (⟨.accept fd, .accepted n peer⟩ : Ev) ∈
      tr₁ ++ ⟨.select nfds readfds ∅ ∅ none, a⟩ :: tr₂ ↔
        (⟨.accept fd, .accepted n peer⟩ : Ev) ∈ tr₂ := by
    intro fd n peer
    have h₁ : (⟨.accept fd, .accepted n peer⟩ : Ev) ∉ tr₁ := fun hmem =>
      not_accepts_of_marks hprepares.marks.marks ⟨fd, n, peer, hmem⟩
    simp [h₁]
  rw [defined_iff, hbuf, inSets_append, inSets_cons (by simp), hfirst]
  refine ⟨⟨?_, ?_⟩, fun hdefined => hfits hdefined.2.2⟩
  · rintro ⟨hreads, hserver, hrest⟩
    exact ⟨hserver, fun fd n peer hmem => (hin.mp hrest).2 fd n peer ((haccept fd n peer).mp hmem),
      hreads⟩
  · intro hlimits
    exact ⟨hlimits.reads, hlimits.listening, hin.mpr ⟨hlimits.listening,
      fun fd n peer hmem => hlimits.accepts fd n peer ((haccept fd n peer).mpr hmem)⟩⟩

/-! ## 5. Every run of the loop -/

/-- **The run lemma.** -/
theorem defined_loopRun {h : List Pass} {s s' : SelectServer} (hl : LoopRun iteration s h s')
    (hs : s.TableFits) :
    ((∀ c ∈ h, Defined c.trace) ↔ ∀ c ∈ h, c.pre.WithinLimits c.trace) ∧
      ((∀ c ∈ h, Defined c.trace) → s'.TableFits) := by
  induction h generalizing s with
  | nil =>
    obtain rfl : s' = s := hl
    simp [hs]
  | cons c h ih =>
    obtain ⟨rfl, hv, hrest⟩ := hl
    obtain ⟨hiff, hfits⟩ := defined_iteration hv hs
    simp only [List.forall_mem_cons]
    cases hres : c.res with
    | ok u =>
      rw [hres] at hrest
      constructor
      · rw [← hiff]
        exact and_congr_right fun hdefined => (ih hrest (hfits hdefined)).1
      · exact fun hdefined => (ih hrest (hfits hdefined.1)).2 hdefined.2
    | error e =>
      rw [hres] at hrest
      obtain ⟨rfl, rfl⟩ := hrest
      simp only [List.not_mem_nil, false_implies, implies_true, and_true]
      exact ⟨hiff, hfits⟩

theorem serverFd_loopRun {h : List Pass} {s s' : SelectServer} (hl : LoopRun iteration s h s') :
    s'.serverFd = s.serverFd := by
  induction h generalizing s with
  | nil => exact congrArg serverFd hl
  | cons c h ih =>
    obtain ⟨rfl, hv, hrest⟩ := hl
    have hserver := serverFd_iteration hv
    cases hres : c.res with
    | ok u =>
      rw [hres] at hrest
      exact (ih hrest).trans hserver
    | error e =>
      rw [hres] at hrest
      exact hrest.2 ▸ hserver

end SelectServer

end InternetProgramming
