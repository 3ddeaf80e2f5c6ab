/-
# What the select server waits for

`accept` and `read` wait until there is something to accept or to read.  The server has one
thread and many clients, so it must not call them for a descriptor with nothing to offer; the
set that `select` leaves is there to tell.

* The third loop reads exactly the slots that are in the set, each client once, because the
  slots hold different clients (`Aligned`) and a slot that is freed or filled on the way was
  not in the set in its new use.
* The set is not always what `select` reported.  A `select` that fails leaves it as it was
  passed, the listening socket included; the server logs the failure and goes on, and then
  `accept` waits for nobody.
* A failed `accept` ends the program before the third loop.
* Whatever is stored or tested outside `readfds` and `buffer` may change the set, too
  (`ServerLimits`).

`readyOnly_iff` says that this is all.
-/
import InternetProgramming.ClientTable

namespace InternetProgramming

open Interaction

/-- The read set that `select` reported: none if it failed. -/
def SelectRet.reported {readfds writefds exceptfds : FdSet} :
    SelectRet readfds writefds exceptfds → FdSet
  | .ready r _ _ _ _ _ => r
  | .failed => ∅

/-- The read set that an entry reports. -/
def reportOf : Ev → Option FdSet
  | ⟨.select _ _ _ _ _, a⟩ => some a.reported
  | _ => none

/-- What the last `select` reported. -/
def reported (tr : List Ev) : FdSet := latest reportOf ∅ tr

namespace SelectServer

variable {tr : List Ev} {H : Finset ℤ}

/-! ## 1. The property -/

/-- The call does not wait if the descriptors `ready` are. -/
def MayCall (s : SelectServer) (ready : FdSet) : Sys → Prop
  | .accept fd => fd = s.serverFd ∧ fd ∈ ready
  | .read fd _ => fd ∈ ready
  | _ => True

/-- The call reads from `fd`. -/
def readsFrom (fd : ℤ) : Sys → Bool
  | .read fd' _ => fd' = fd
  | _ => false

/-- How often `fd` is read. -/
def readsOf (fd : ℤ) (tr : List Ev) : ℕ := tr.countP fun e => readsFrom fd e.1

@[simp] theorem readsOf_nil {fd : ℤ} : readsOf fd [] = 0 := rfl

@[simp] theorem readsOf_cons {fd : ℤ} {e : Ev} :
    readsOf fd (e :: tr) = readsOf fd tr + if readsFrom fd e.1 then 1 else 0 :=
  List.countP_cons

@[simp] theorem readsOf_append {fd : ℤ} {tr₁ tr₂ : List Ev} :
    readsOf fd (tr₁ ++ tr₂) = readsOf fd tr₁ + readsOf fd tr₂ := List.countP_append

/-- **The property.**  In an iteration on `s` that leaves `tr`, no call waits; each client in
the table that was reported is read once; and a client that has just arrived is not read. -/
structure ReadyOnly (s : SelectServer) (tr : List Ev) : Prop where
  calls : Along (fun pre e => s.MayCall (reported pre) e.1) tr
  once : ∀ fd ∈ reported tr, fd ∈ s.clientSockets.cells → fd ≠ 0 → readsOf fd tr = 1
  fresh : ∀ fd n peer, (⟨.accept fd, .accepted n peer⟩ : Ev) ∈ tr → readsOf n tr = 0

/-- A `select` failed. -/
def SelectFails (tr : List Ev) : Prop :=
  ∃ nfds readfds writefds exceptfds timeout,
    (⟨.select nfds readfds writefds exceptfds timeout, .failed⟩ : Ev) ∈ tr

/-- An `accept` failed. -/
def AcceptFails (tr : List Ev) : Prop := ∃ fd, (⟨.accept fd, .failed⟩ : Ev) ∈ tr

/-! ## 2. Entries that do not wait -/

/-- The call waits, or tells for what to. -/
def waits : Sys → Bool
  | .select _ _ _ _ _ | .accept _ | .read _ _ => true
  | _ => false

/-- Nothing in the trace waits. -/
def Prompt (tr : List Ev) : Prop := ∀ e ∈ tr, waits e.1 = false

@[simp] theorem prompt_nil : Prompt [] := by simp [Prompt]

@[simp] theorem prompt_cons {e : Ev} : Prompt (e :: tr) ↔ waits e.1 = false ∧ Prompt tr := by
  simp [Prompt]

@[simp] theorem prompt_append {tr₁ tr₂ : List Ev} :
    Prompt (tr₁ ++ tr₂) ↔ Prompt tr₁ ∧ Prompt tr₂ := by
  simp [Prompt, or_imp, forall_and]

theorem prompt_of_marks (h : Marks tr) : Prompt tr := h.forall_mem (fun _ _ => rfl) fun _ => rfl

theorem BitMarks.prompt (h : BitMarks tr) : Prompt tr := prompt_of_marks h.marks

theorem Prompt.readsOf (h : Prompt tr) {fd : ℤ} : readsOf fd tr = 0 := by
  refine List.countP_eq_zero.mpr fun e he => ?_
  have hwaits := h e he
  unfold readsFrom
  split
  · rename_i heq
    rw [heq] at hwaits
    cases hwaits
  · simp

/-- In the third loop: nothing is accepted, and only ready clients are read. -/
def Serves (ready : FdSet) (e : Ev) : Prop :=
  waits e.1 = true → ∃ fd size, e.1 = .read fd size ∧ fd ∈ ready

theorem Prompt.serves (h : Prompt tr) {ready : FdSet} : ∀ e ∈ tr, Serves ready e := by
  intro e he hwaits
  rw [h e he] at hwaits
  cases hwaits

/-- What reports nothing and does not wait in vain. -/
def InTurn (s : SelectServer) (ready : FdSet) (e : Ev) : Prop :=
  reportOf e = none ∧ s.MayCall ready e.1

theorem Serves.inTurn {ready : FdSet} {e : Ev} (h : Serves ready e) (s : SelectServer) :
    s.InTurn ready e := by
  obtain ⟨call, a⟩ := e
  cases call with
  | read fd size =>
    obtain ⟨fd', size', heq, hmem⟩ := h rfl
    obtain ⟨rfl, -⟩ := Sys.read.inj heq
    exact ⟨rfl, hmem⟩
  | accept fd | select nfds readfds writefds exceptfds timeout =>
    obtain ⟨fd', size', heq, -⟩ := h rfl
    cases heq
  | _ => exact ⟨rfl, trivial⟩

/-! ## 3. The third loop -/

/-- One read of a ready client, among entries that do not wait. -/
theorem serves_read {ready : FdSet} {sd : ℤ} {a : RecvRet bufferSize} {tr₁ tr₂ : List Ev}
    (hready : sd ∈ ready) (h₁ : Prompt tr₁) (h₂ : Prompt tr₂) :
    (∀ e ∈ tr₁ ++ ⟨.read sd bufferSize, a⟩ :: tr₂, Serves ready e) ∧
      ∀ fd, readsOf fd (tr₁ ++ ⟨.read sd bufferSize, a⟩ :: tr₂) = if sd = fd then 1 else 0 := by
  constructor
  · simp only [List.forall_mem_append, List.forall_mem_cons]
    exact ⟨h₁.serves, fun _ => ⟨sd, bufferSize, rfl, hready⟩, h₂.serves⟩
  · intro fd
    rw [readsOf_append, readsOf_cons, h₁.readsOf, h₂.readsOf]
    simp [readsFrom]

/-- **The third loop on a slot** reads it once if it is in the set. -/
theorem ServiceEffect.serves {ready : FdSet} {i : ℕ} {s s' : SelectServer}
    (h : ServiceEffect ready s i tr s') :
    (∀ e ∈ tr, Serves ready e) ∧
      ∀ fd, readsOf fd tr = if s.slot i = fd ∧ fd ∈ ready then 1 else 0 := by
  have hbit : Prompt (bitTrace (s.slot i)) := bitMarks_bitTrace.prompt
  have hone : s.slot i ∈ ready → ∀ fd, (if s.slot i = fd then 1 else 0 : ℕ) =
      if s.slot i = fd ∧ fd ∈ ready then 1 else 0 := by
    intro hready fd
    by_cases hfd : s.slot i = fd
    · subst hfd
      simp [hready]
    · simp [hfd]
  cases h with
  | idle notReady trace post =>
    subst trace post
    refine ⟨hbit.serves, fun fd => ?_⟩
    rw [hbit.readsOf, if_neg]
    rintro ⟨rfl, hready⟩
    exact notReady hready
  | closed ready a₁ a₂ trace post =>
    subst trace post
    have hrest : Prompt [⟨.getpeername (s.slot i), a₁⟩, ⟨.close (s.slot i), a₂⟩] := by
      simp [waits]
    obtain ⟨hserves, hreads⟩ := serves_read ready hbit (a := .received [] (Nat.zero_le _)) hrest
    exact ⟨hserves, fun fd => (hreads fd).trans (hone ready fd)⟩
  | answered ready a ne t₀ t₁ t₂ text reply buffer sent trace store print measure post =>
    subst trace post
    have hrest : Prompt (t₀ ++ (t₁ ++ (⟨.cout "Received from client: " text, ()⟩ ::
        (t₂ ++ [⟨.send (s.slot i) reply, sent⟩])))) := by
      simp [waits, prompt_of_marks (marks_storeZero store),
        prompt_of_marks (marks_cString print), prompt_of_marks (marks_cString measure)]
    obtain ⟨hserves, hreads⟩ := serves_read ready hbit (a := a) hrest
    exact ⟨hserves, fun fd => (hreads fd).trans (hone ready fd)⟩

/-- **The third loop** reads each slot once that is in the set. -/
theorem serves_serviceClients {ready : FdSet} {s s' : SelectServer} {r : Except Thrown Unit}
    (h : Meth.Run (serviceClients ready) s tr r s') :
    (∀ e ∈ tr, Serves ready e) ∧
      ∀ fd, readsOf fd tr = if fd ∈ ready then s.clientSockets.cells.count fd else 0 := by
  have hloop := run_serviceClients
    (I := fun left pre => (∀ e ∈ pre, Serves ready e) ∧
      ∀ fd, readsOf fd pre + left.countP (fun i => s.slot i = fd ∧ fd ∈ ready) =
        (List.range maxClients).countP fun i => s.slot i = fd ∧ fd ∈ ready)
    (fun i left pre tr s₁ s₂ hI hslot heffect => ?_) ⟨by simp, by simp⟩ h
  · obtain ⟨hserves, hreads⟩ := hloop
    refine ⟨hserves, fun fd => ?_⟩
    have hfd := hreads fd
    rw [List.countP_nil, Nat.add_zero] at hfd
    rw [hfd, ← map_slot, List.count_eq_countP, List.countP_map]
    by_cases hmem : fd ∈ ready
    · simp [hmem, Function.comp_def, beq_eq_decide]
    · simp [hmem]
  · obtain ⟨hserves, hreads⟩ := hI
    obtain ⟨hserves', hreads'⟩ := heffect.serves
    refine ⟨List.forall_mem_append.mpr ⟨hserves, hserves'⟩, fun fd => ?_⟩
    have hfd := hreads fd
    rw [List.countP_cons] at hfd
    rw [readsOf_append, hreads' fd, hslot]
    simp only [decide_eq_true_eq] at hfd
    omega

/-! ## 4. What every iteration keeps -/

/-- The descriptors that can be clients, of those that are open. -/
def clients (s : SelectServer) (H : Finset ℤ) : Finset ℤ := (H.erase 0).erase s.serverFd

/-- **The invariant.**  The listening socket is open and is not `0`, which marks free slots;
and the table holds other open descriptors, none of them twice. -/
structure Aligned (s : SelectServer) (H : Finset ℤ) : Prop where
  server : s.serverFd ≠ 0
  listening : s.serverFd ∈ H
  holds : Holds s.clientSockets.cells (s.clients H)

theorem aligned_start {serverFd : ℤ} (h : serverFd ≠ 0) :
    (start serverFd).Aligned {serverFd} := by
  have hclients : (start serverFd).clients {serverFd} = ∅ := by
    rw [clients, Finset.erase_right_comm, start, Finset.erase_singleton]
    exact Finset.erase_eq_of_notMem (Finset.notMem_empty 0)
  refine ⟨h, Finset.mem_singleton_self _, ?_⟩
  rw [hclients]
  exact (tracks_start serverFd).1.holds

/-- The third loop on a slot. -/
theorem Aligned.service {ready : FdSet} {i : ℕ} {s s' : SelectServer} (ha : s.Aligned H)
    (h : ServiceEffect ready s i tr s') : s'.Aligned (heldAfter H tr) := by
  have hserver : s'.serverFd = s.serverFd := h.frame.1
  rcases h.table with ⟨hheld, htable⟩ | ⟨hheld, htable⟩
  · rw [hheld]
    refine ⟨hserver ▸ ha.server, hserver ▸ ha.listening, ?_⟩
    rw [clients, hserver, htable]
    exact ha.holds
  · have hslot : s.serverFd ≠ s.slot i := by
      intro heq
      have hne : s.slot i ≠ 0 := heq ▸ ha.server
      have hmem := ha.holds.live _ (getD_mem hne) hne
      exact (Finset.mem_erase.mp hmem).1 heq.symm
    rw [hheld]
    refine ⟨hserver ▸ ha.server, hserver ▸ Finset.mem_erase.mpr ⟨hslot, ha.listening⟩, ?_⟩
    have hclients : s'.clients (H.erase (s.slot i)) = (s.clients H).erase (s.slot i) := by
      rw [clients, clients, hserver, Finset.erase_right_comm (a := s.slot i),
        Finset.erase_right_comm (a := s.slot i)]
    rw [hclients, htable]
    exact ha.holds.free.1

/-- The second loop. -/
theorem Aligned.arrival {ready : FdSet} {s s' : SelectServer} (ha : s.Aligned H)
    (h : Arrival s ready tr s') (hf : FreshFrom H (tr.map actOf)) :
    s'.Aligned (heldAfter H tr) := by
  cases h with
  | nobody notReady trace post =>
    subst trace post
    exact ha
  | somebody isReady n peer trace post =>
    subst trace post
    have hn : (n : ℤ) ∉ H := (freshFrom_cons.mp hf).1 n rfl
    refine ⟨ha.server, Finset.mem_insert_of_mem ha.listening, ?_⟩
    change Holds (storeClient n s.clientSockets.cells)
      (((insert (n : ℤ) H).erase 0).erase s.serverFd)
    rw [storeClient_eq_claim]
    by_cases hzero : (n : ℤ) = 0
    · -- a connection on descriptor `0` looks like a free slot
      rw [hzero, claim_zero, Finset.erase_insert_eq_erase]
      exact ha.holds
    · have hserver : s.serverFd ≠ n := fun heq => hn (heq ▸ ha.listening)
      rw [Finset.erase_insert_of_ne hzero, Finset.erase_insert_of_ne hserver.symm]
      refine ha.holds.claim hzero fun hmem => hn ?_
      exact Finset.mem_of_mem_erase (Finset.mem_of_mem_erase hmem)

/-- **One iteration** keeps the invariant. -/
theorem Aligned.iteration {s s' : SelectServer} (ha : s.Aligned H)
    (h : Meth.Run iteration s tr (.ok ()) s') (hf : FreshFrom H (tr.map actOf)) :
    s'.Aligned (heldAfter H tr) := by
  obtain ⟨head, ready, s₁, t₁, t₂, rfl, hhead, arrival, service⟩ := run_iteration_ok h
  have hf' := hhead.freshFrom hf
  rw [List.map_append, freshFrom_append] at hf'
  have ha₁ := ha.arrival arrival hf'.1
  rw [heldAfter_append, heldAfter_append, heldAfter_of_other hhead]
  have hloop := Meth.run_forM (I := fun t pre => t.Aligned (heldAfter (heldAfter H t₁) pre))
    (fun i _ t pre tr r t' hI hrun => ?_) ha₁ service
  · exact hloop.2
  · obtain ⟨hr, heffect⟩ := serviceEffect hrun
    rw [heldAfter_append]
    exact ⟨hr, hI.service heffect⟩

/-! ## 5. One iteration -/

/-- After `select` nothing else reports, and no call waits for what is not in the set. -/
theorem AfterSelect.inTurn {ready : FdSet} {s s' : SelectServer} {r : Except Thrown Unit}
    (h : AfterSelect s ready tr r s') : ∀ e ∈ tr, s.InTurn ready e := by
  have hbit : ∀ e ∈ bitTrace s.serverFd, s.InTurn ready e := fun e he =>
    (bitMarks_bitTrace.prompt.serves e he).inTurn s
  cases h with
  | exited isReady trace res post =>
    subst trace
    exact List.forall_mem_append.mpr
      ⟨hbit, List.forall_mem_singleton.mpr ⟨rfl, rfl, isReady⟩⟩
  | served s₁ t₁ t₂ trace arrival service =>
    subst trace
    have hservice : ∀ e ∈ t₂, s.InTurn ready e := fun e he =>
      ((serves_serviceClients service).1 e he).inTurn s
    refine List.forall_mem_append.mpr ⟨hbit, List.forall_mem_append.mpr ⟨?_, hservice⟩⟩
    cases arrival with
    | nobody notReady trace post => simp [trace]
    | somebody isReady n peer trace post =>
      rw [trace]
      exact List.forall_mem_singleton.mpr ⟨rfl, rfl, isReady⟩

/-- If the listening socket is in the set, `accept` is called. -/
theorem AfterSelect.accepts {ready : FdSet} {s s' : SelectServer} {r : Except Thrown Unit}
    (h : AfterSelect s ready tr r s') (hready : s.serverFd ∈ ready) :
    ∃ a, (⟨.accept s.serverFd, a⟩ : Ev) ∈ tr := by
  cases h with
  | exited isReady trace res post => exact ⟨.failed, by simp [trace]⟩
  | served s₁ t₁ t₂ trace arrival service =>
    cases arrival with
    | nobody notReady trace post => exact absurd hready notReady
    | somebody isReady n peer trace' post => exact ⟨.accepted n peer, by simp [trace, trace']⟩

theorem arrival_fresh {ready : FdSet} {s s' : SelectServer} {fd : ℤ} {n : ℕ} {peer : SockaddrIn}
    (h : Arrival s ready tr s') (hf : FreshFrom H (tr.map actOf))
    (hmem : (⟨.accept fd, .accepted n peer⟩ : Ev) ∈ tr) : (n : ℤ) ∉ H := by
  cases h with
  | nobody notReady trace post =>
    rw [trace] at hmem
    cases hmem
  | somebody isReady m peer' trace post =>
    subst trace
    have hact := congrArg actOf (List.mem_singleton.mp hmem)
    rw [Act.acquire.inj hact]
    exact (freshFrom_cons.mp hf).1 m rfl

/-- **After `select`** either `accept` fails and nobody is read, or the third loop reads each
client of the set once, those that have just arrived excepted. -/
theorem AfterSelect.reads {ready : FdSet} {s s' : SelectServer} {r : Except Thrown Unit}
    (h : AfterSelect s ready tr r s') (ha : s.Aligned H) (hf : FreshFrom H (tr.map actOf))
    (hready : ∀ fd ∈ ready, fd = s.serverFd ∨ (0 < fd ∧ fd ∈ s.clientSockets.cells)) :
    (AcceptFails tr ∧ ∀ fd, readsOf fd tr = 0) ∨
      (¬ AcceptFails tr ∧
        (∀ fd ∈ ready, fd ∈ s.clientSockets.cells → fd ≠ 0 → readsOf fd tr = 1) ∧
        ∀ fd n peer, (⟨.accept fd, .accepted n peer⟩ : Ev) ∈ tr → readsOf n tr = 0) := by
  have hbit : Prompt (bitTrace s.serverFd) := bitMarks_bitTrace.prompt
  cases h with
  | exited isReady trace res post =>
    subst trace
    refine Or.inl ⟨⟨s.serverFd, by simp⟩, fun fd => ?_⟩
    rw [readsOf_append, hbit.readsOf]
    rfl
  | served s₁ t₁ t₂ trace arrival service =>
    subst trace
    obtain ⟨hserves, hreads⟩ := serves_serviceClients service
    have hf' := bitMarks_bitTrace.aside.freshFrom hf
    rw [List.map_append, freshFrom_append] at hf'
    have ha₁ := ha.arrival arrival hf'.1
    have hall : ∀ fd, readsOf fd (bitTrace s.serverFd ++ (t₁ ++ t₂)) =
        if fd ∈ ready then s₁.clientSockets.cells.count fd else 0 := by
      intro fd
      have harrival : readsOf fd t₁ = 0 := by
        cases arrival with
        | nobody notReady trace post => rw [trace, readsOf_nil]
        | somebody isReady n peer trace post => rw [trace]; rfl
      rw [readsOf_append, readsOf_append, hbit.readsOf, harrival, hreads]
      simp
    -- the only `accept` is that of the second loop
    have haccept : ∀ fd a, (⟨.accept fd, a⟩ : Ev) ∈ bitTrace s.serverFd ++ (t₁ ++ t₂) →
        (⟨.accept fd, a⟩ : Ev) ∈ t₁ := by
      intro fd a hmem
      simp only [List.mem_append] at hmem
      rcases hmem with hmem | hmem | hmem
      · cases hbit _ hmem
      · exact hmem
      · obtain ⟨_, _, heq, -⟩ := hserves _ hmem rfl
        cases heq
    refine Or.inr ⟨?_, fun fd hfd hcell hne => ?_, fun fd n peer hmem => ?_⟩
    · rintro ⟨fd, hmem⟩
      have hfailed := haccept fd _ hmem
      cases arrival with
      | nobody notReady trace post => simp [trace] at hfailed
      | somebody isReady n peer trace post => simp [trace] at hfailed
    · have hmem : fd ∈ s₁.clientSockets.cells := by
        cases arrival with
        | nobody notReady trace post => exact post ▸ hcell
        | somebody isReady n peer trace post =>
          rw [post]
          change fd ∈ storeClient n s.clientSockets.cells
          rw [storeClient_eq_claim]
          exact (mem_claim hne).mpr (Or.inl hcell)
      have hpos := List.count_pos_iff.mpr hmem
      have hle := ha₁.holds.once fd hne
      rw [hall, if_pos hfd]
      omega
    · have hnew := arrival_fresh arrival hf'.1 (haccept fd _ hmem)
      rw [hall, if_neg]
      intro hin
      rcases hready n hin with heq | ⟨hpos, hcell⟩
      · exact hnew (heq ▸ ha.listening)
      · have hclient := ha.holds.live n hcell (by omega)
        exact hnew (Finset.mem_of_mem_erase (Finset.mem_of_mem_erase hclient))

theorem selectFails_iff {tr₁ tr₂ : List Ev} (nfds : ℤ) {readfds : FdSet}
    (a : SelectRet readfds ∅ ∅) (h₁ : ∀ e ∈ tr₁, reportOf e = none)
    (h₂ : ∀ e ∈ tr₂, reportOf e = none) :
    SelectFails (tr₁ ++ ⟨.select nfds readfds ∅ ∅ none, a⟩ :: tr₂) ↔ a = .failed := by
  constructor
  · rintro ⟨_, _, _, _, _, hmem⟩
    rcases List.mem_append.mp hmem with hmem | hmem
    · cases h₁ _ hmem
    · rcases List.mem_cons.mp hmem with heq | hmem
      · cases heq
        rfl
      · cases h₂ _ hmem
  · rintro rfl
    exact ⟨nfds, readfds, ∅, ∅, none, by simp⟩

/-- **When an iteration waits for nothing.**  Its `select` succeeded, and its `accept`, if it
failed, left no client behind that was reported. -/
theorem readyOnly_iteration {s s' : SelectServer} {r : Except Thrown Unit}
    (h : Meth.Run iteration s tr r s') (ha : s.Aligned H) (hf : FreshFrom H (tr.map actOf)) :
    s.ReadyOnly tr ↔ ¬ SelectFails tr ∧
      (AcceptFails tr → ∀ fd ∈ reported tr, fd ∈ s.clientSockets.cells → fd = 0) := by
  obtain ⟨tr₁, nfds, readfds, a, tr₂, rfl, hprepares, hwatches, hafter⟩ := run_iteration h
  have hmarks : BitMarks tr₁ := hprepares.marks
  have hturn₁ : ∀ e ∈ tr₁, s.InTurn ∅ e := fun e he => (hmarks.prompt.serves e he).inTurn s
  have hturn₂ : ∀ e ∈ tr₂, s.InTurn a.readfds' e := hafter.inTurn
  have hsilent₁ : ∀ e ∈ tr₁, reportOf e = none := fun e he => (hturn₁ e he).1
  have hsilent₂ : ∀ e ∈ tr₂, reportOf e = none := fun e he => (hturn₂ e he).1
  have hhead : Aside (tr₁ ++ [⟨.select nfds readfds ∅ ∅ none, a⟩]) := by
    simp [hmarks.aside, actOf]
  have hf' : FreshFrom H (tr₂.map actOf) := hhead.freshFrom (by simpa using hf)
  have hfails := selectFails_iff nfds a hsilent₁ hsilent₂
  generalize htr : tr₁ ++ ⟨.select nfds readfds ∅ ∅ none, a⟩ :: tr₂ = tr at *
  have hcalls : Along (fun pre e => s.MayCall (reported pre) e.1) tr ↔ _ :=
    htr ▸ along_latest_of_one (d := ∅) (P := fun ready (e : Ev) => s.MayCall ready e.1)
      hsilent₁ rfl hsilent₂
  have hreported : reported tr = a.reported := by
    rw [← htr, reported, latest_append, latest_cons, latest_of_none hsilent₂]
    rfl
  have hreads : ∀ fd, readsOf fd tr = readsOf fd tr₂ := by
    intro fd
    rw [← htr, readsOf_append, readsOf_cons, hmarks.prompt.readsOf]
    simp [readsFrom]
  have haccept : ∀ fd b, (⟨.accept fd, b⟩ : Ev) ∈ tr ↔ (⟨.accept fd, b⟩ : Ev) ∈ tr₂ := by
    intro fd b
    have hnot : (⟨.accept fd, b⟩ : Ev) ∉ tr₁ := fun hmem => by cases hmarks.prompt _ hmem
    rw [← htr]
    simp [hnot]
  rw [hfails]
  cases a with
  | failed =>
    refine ⟨fun hready => ?_, fun hok => absurd rfl hok.1⟩
    obtain ⟨b, hmem⟩ := hafter.accepts ((hwatches.mem s.serverFd).mpr (Or.inl rfl))
    have hcall : s.MayCall ∅ (.accept s.serverFd) := (hcalls.mp hready.calls).2.2 _ hmem
    exact absurd hcall.2 (Finset.notMem_empty _)
  | ready left w e hleft hw he =>
    have hcalls' := hcalls.mpr
      ⟨fun e he => (hturn₁ e he).2, trivial, fun e he => (hturn₂ e he).2⟩
    have hclients := hafter.reads ha hf' fun fd hfd => (hwatches.mem fd).mp (hleft hfd)
    rw [hreported]
    rcases hclients with ⟨⟨fd₀, hfd₀⟩, hnone⟩ | ⟨hsucceeds, honce, hfresh⟩
    · have hnone' : ∀ fd, readsOf fd tr = 0 := fun fd => (hreads fd).trans (hnone fd)
      constructor
      · intro hready
        refine ⟨by simp, fun _ fd hfd hcell => ?_⟩
        by_contra hne
        have hone := hready.once fd (hreported ▸ hfd) hcell hne
        rw [hnone'] at hone
        cases hone
      · rintro ⟨-, hempty⟩
        refine ⟨hcalls', fun fd hfd hcell hne => ?_, fun _ n _ _ => hnone' n⟩
        exact absurd (hempty ⟨fd₀, (haccept _ _).mpr hfd₀⟩ fd (hreported ▸ hfd) hcell) hne
    · constructor
      · rintro -
        refine ⟨by simp, ?_⟩
        rintro ⟨fd, hfd⟩
        exact absurd ⟨fd, (haccept _ _).mp hfd⟩ hsucceeds
      · rintro -
        refine ⟨hcalls', fun fd hfd hcell hne => ?_, fun fd n peer hmem => ?_⟩
        · rw [hreported] at hfd
          exact (hreads fd).trans (honce fd hfd hcell hne)
        · exact (hreads n).trans (hfresh fd n peer ((haccept _ _).mp hmem))

/-! ## 6. Every run of the loop -/

/-- **The run lemma.** -/
theorem readyOnly_loopRun {h : List Pass} {s s' : SelectServer} (hl : LoopRun iteration s h s')
    (ha : s.Aligned H) (hf : FreshFrom H ((traceOf h).map actOf)) :
    ∀ c ∈ h, c.pre.ReadyOnly c.trace ↔ ¬ SelectFails c.trace ∧
      (AcceptFails c.trace → ∀ fd ∈ reported c.trace, fd ∈ c.pre.clientSockets.cells →
        fd = 0) := by
  induction h generalizing s H with
  | nil => simp
  | cons c h ih =>
    obtain ⟨rfl, hv, hrest⟩ := hl
    rw [traceOf_cons, List.map_append, freshFrom_append] at hf
    refine List.forall_mem_cons.mpr ⟨readyOnly_iteration hv ha hf.1, ?_⟩
    cases hres : c.res with
    | ok u =>
      rw [hres] at hrest
      have hrun : Meth.Run iteration c.pre c.trace (.ok ()) c.post := hres ▸ hv
      exact ih hrest (ha.iteration hrun hf.1) hf.2
    | error e =>
      rw [hres] at hrest
      simp [hrest.1]

/-- **When the server waits for nothing.**  In every run of the server, every iteration stays
inside its objects, calls `accept` and `read` for reported descriptors only, and reads each reported
client once and a new one not yet, if and only if every iteration is within the limits, no `select`
failed, and no failed `accept` left a reported client behind.  Of the kernel it is assumed that
`accept` returns descriptors that are not open, and that `send` to a client that is gone fails: it
does not end the process with `SIGPIPE`. -/
theorem readyOnly_iff {tr₀ : List Ev} {h : List Pass} {s₀ s : SelectServer}
    (hstart : startup.Run tr₀ (.ok s₀)) (hl : LoopRun iteration s₀ h s)
    (hf : FreshFrom {s₀.serverFd} ((traceOf h).map actOf)) :
    (∀ c ∈ h, Defined c.trace ∧ c.pre.ReadyOnly c.trace) ↔
      ∀ c ∈ h, c.pre.WithinLimits c.trace ∧ ¬ SelectFails c.trace ∧
        (AcceptFails c.trace → ∀ fd ∈ reported c.trace, fd ∈ c.pre.clientSockets.cells →
          fd = 0) := by
  obtain ⟨serverFd, hserver, rfl⟩ := run_startup hstart
  have hlimits := (defined_loopRun hl tableFits_start).1
  have hready := forall₂_congr (readyOnly_loopRun hl (aligned_start hserver) hf)
  rw [forall₂_and, forall₂_and, hlimits, hready]

/-! ## 7. An interrupted `select` -/

/-- `select` is interrupted, and the server goes on to `accept`. -/
theorem exists_run_interrupted {s : SelectServer} (h : s.Ordinary) :
    ∃ nfds readfds, Meth.Run iteration s
      [⟨.select nfds readfds ∅ ∅ none, .failed⟩, ⟨.accept s.serverFd, .failed⟩]
      (.error (.exit exitFailure)) s := by
  obtain ⟨nfds, readfds, hwatches, hiteration⟩ := exists_run_select h
  have hserver : s.serverFd ∈ readfds := (hwatches.mem s.serverFd).mpr (Or.inl rfl)
  refine ⟨nfds, readfds, hiteration .failed _ _ _ ?_⟩
  rw [handleReady, Meth.run_get_bind]
  refine Meth.run_liftM_bind.mpr ⟨true, [], _, rfl,
    run_fdIsset.mpr ⟨(bitTrace_of_inFdSet h.1).symm, ?_⟩, ?_⟩
  · exact (decide_eq_true hserver).symm
  · refine Meth.run_bind.mpr (Or.inl ⟨_, ?_, rfl⟩)
    exact run_acceptClient.mpr (Or.inl ⟨rfl, rfl, rfl⟩)

/-- The run in which one connection arrives. -/
theorem readyOnly_iff_one : ∃ h : List Pass, (traceOf h).map actOf = [.other, .acquire 4] ∧
    ((∀ c ∈ h, Defined c.trace ∧ c.pre.ReadyOnly c.trace) ↔
      ∀ c ∈ h, c.pre.WithinLimits c.trace ∧ ¬ SelectFails c.trace ∧
        (AcceptFails c.trace → ∀ fd ∈ reported c.trace, fd ∈ c.pre.clientSockets.cells →
          fd = 0)) := by
  obtain ⟨h, s, hl, htop, -, hacts⟩ :=
    exists_loopRun_arrivals (k := 1) below_start (by omega) (by omega)
  exact ⟨h, hacts, readyOnly_iff run_startup_three hl
    (hacts ▸ freshFrom_arrivals (by decide))⟩

/-- A signal arrives before any client does, and the server waits in `accept`.  Nothing is accessed
outside its object. -/
theorem accept_after_failed_select :
    ¬ ∀ (tr₀ : List Ev) (h : List Pass) (s₀ s : SelectServer), startup.Run tr₀ (.ok s₀) →
      LoopRun iteration s₀ h s → FreshFrom {s₀.serverFd} ((traceOf h).map actOf) →
      Defined (traceOf h) → ∀ c ∈ h, c.pre.ReadyOnly c.trace := by
  intro hall
  obtain ⟨nfds, readfds, hrun⟩ := exists_run_interrupted (below_start.ordinary (by omega))
  have hloop : LoopRun iteration (start 3) [⟨start 3, (), _, _, start 3⟩] (start 3) :=
    ⟨rfl, hrun, rfl, rfl⟩
  have hfresh : FreshFrom {(start 3).serverFd} [.other, .other] :=
    freshFrom_cons.mpr ⟨by simp, freshFrom_cons.mpr ⟨by simp, along_nil⟩⟩
  have hdefined : Defined [⟨.select nfds readfds ∅ ∅ none, .failed⟩,
      ⟨.accept (start 3).serverFd, .failed⟩] := by simp [Sys.isMark]
  have hready := hall startTrace _ _ _ run_startup_three hloop hfresh hdefined _ List.mem_cons_self
  have hcall := hready.calls [⟨.select nfds readfds ∅ ∅ none, .failed⟩] _ [] rfl
  exact absurd hcall.2 (Finset.notMem_empty _)

end SelectServer

end InternetProgramming
