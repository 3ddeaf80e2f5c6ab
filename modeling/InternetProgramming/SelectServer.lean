/-
# The multi-client server: `app/case4_poll/server/src/main.cpp.bak`

One process, one listening socket, thirty slots for connections and one buffer for all of
them.  Every iteration rebuilds the read set from the slots, hands it to `select`, then
consults what is left of it: first for the listening socket, then for each slot in turn.

The variables of `main` are the fields of `SelectServer`; `main` up to the loop is `startup`
and the body of `while (true)` is `iteration`, split into the three `for` loops of the source.
A slot that holds `0` is free.  Each definition follows the source statement by statement,
including those a reader may wonder about: a negative result of `select` is only logged, the
result of `read` is tested for `0` and for nothing else, and `close` is the only way out of
the table.

Not modelled: the address of the peer, which is only printed.
-/
import InternetProgramming.Interaction.Compose
import InternetProgramming.Posix
import Mathlib.Data.List.GetD

namespace InternetProgramming

open Interaction

variable {tr : List Ev}

/-- `MAX_CLIENTS`. -/
def maxClients : ℕ := 30

/-- `BUFFER_SIZE`. -/
def bufferSize : ℕ := 1024

/-- `EXIT_FAILURE`. -/
def exitFailure : ℤ := 1

/-- The variables of `main`. -/
structure SelectServer where
  serverFd : ℤ
  clientSockets : Buffer ℤ maxClients
  buffer : Buffer UInt8 bufferSize

namespace SelectServer

/-! ## 1. The program -/

/-- What `main` enters the loop with. -/
def start (serverFd : ℤ) : SelectServer where
  serverFd := serverFd
  clientSockets := .replicate maxClients 0
  buffer := .replicate bufferSize 0

/-- `main` up to the loop.  The test of `socket` is for `0`, not for a failure; the option is
`SO_REUSEADDR | SO_REUSEPORT`, passed as one number. -/
def startup : SysM (Except Thrown SelectServer) := do
  let serverFd := (← sys (.socket .stream)).ret
  if serverFd = 0 then
    return .error (.exit exitFailure)
  let opt ← sys (.setsockopt serverFd (soReuseaddr ||| soReuseport) (.int 1))
  if opt.ret ≠ 0 then
    return .error (.exit exitFailure)
  let bound ← sys (.bind serverFd ⟨afInet, htons 8888, inaddrAny⟩)
  if bound.ret < 0 then
    return .error (.exit exitFailure)
  let listening ← sys (.listen serverFd 3)
  if listening.ret < 0 then
    return .error (.exit exitFailure)
  return .ok (start serverFd)

/-- `if (sd > 0) FD_SET(sd, &readfds);` -/
def watchClient (sd : ℤ) (readfds : FdSet) : SysM FdSet :=
  if sd > 0 then fdSet sd readfds else pure readfds

/-- The first loop: the clients join the set, and `max_sd` is raised to the largest. -/
def watchClients : List ℤ → FdSet → ℤ → SysM (FdSet × ℤ)
  | [], readfds, maxSd => pure (readfds, maxSd)
  | sd :: rest, readfds, maxSd => do
    let readfds ← watchClient sd readfds
    watchClients rest readfds (if sd > maxSd then sd else maxSd)

/-- The second loop: the first free slot takes the new connection.  If there is none, nothing
happens. -/
def storeClient (newSocket : ℤ) : List ℤ → List ℤ
  | [] => []
  | sd :: rest => if sd = 0 then newSocket :: rest else sd :: storeClient newSocket rest

theorem length_storeClient {newSocket : ℤ} {slots : List ℤ} :
    (storeClient newSocket slots).length = slots.length := by
  induction slots with
  | nil => rfl
  | cons sd rest ih =>
    unfold storeClient
    split
    · rfl
    · rw [List.length_cons, ih, List.length_cons]

/-- The table with the new connection stored. -/
def withClient (s : SelectServer) (newSocket : ℤ) : SelectServer :=
  { s with clientSockets :=
      ⟨storeClient newSocket s.clientSockets.cells,
        length_storeClient.trans s.clientSockets.length_eq⟩ }

/-- `accept`, and the second loop. -/
def acceptClient : Method SelectServer Unit := do
  let s ← get
  let newSocket ← sys (.accept s.serverFd)
  if newSocket.ret < 0 then
    throw (.exit exitFailure)
  else
    modify fun s => s.withClient newSocket.ret

/-- `client_sockets[i]`. -/
def slot (s : SelectServer) (i : ℕ) : ℤ := s.clientSockets.cells.getD i 0

/-- What the third loop does with a connection that `read` found closed. -/
def dropClient (i : ℕ) (sd : ℤ) : Method SelectServer Unit := do
  let _ ← sys (.getpeername sd)
  let _ ← sys (.close sd)
  modify fun s => { s with clientSockets := s.clientSockets.set i 0 }

/-- What the third loop does with every other result of `read`, `-1` included. -/
def answerClient (sd valread : ℤ) : Method SelectServer Unit := do
  let s ← get
  let buffer ← storeZero s.buffer valread
  modify fun s => { s with buffer := buffer }
  let received ← cString buffer
  let _ ← sys (.cout "Received from client: " received)
  let data ← cString buffer
  let _ ← sys (.send sd data)

/-- The body of the third loop. -/
def serviceClient (readfds : FdSet) (i : ℕ) : Method SelectServer Unit := do
  let s ← get
  let sd := s.slot i
  let ready ← fdIsset sd readfds
  if ready then
    let valread ← sys (.read sd bufferSize)
    modify fun s => { s with buffer := s.buffer.write valread.data }
    if valread.ret = 0 then
      dropClient i sd
    else
      answerClient sd valread.ret

/-- The third loop. -/
def serviceClients (readfds : FdSet) : Method SelectServer Unit :=
  (List.range maxClients).forM (serviceClient readfds)

/-- The iteration after `select`, with what `select` left of the set. -/
def handleReady (readfds : FdSet) : Method SelectServer Unit := do
  let s ← get
  let incoming ← fdIsset s.serverFd readfds
  if incoming then
    acceptClient
  serviceClients readfds

/-- The body of `while (true)`. -/
def iteration : Method SelectServer Unit := do
  let s ← get
  let readfds ← fdSet s.serverFd ∅
  let watched ← watchClients s.clientSockets.cells readfds s.serverFd
  let activity ← sys (.select (watched.2 + 1) watched.1 ∅ ∅ none)
  handleReady activity.readfds'

/-- One iteration. -/
abbrev Pass := Iteration Sys Sys.Ret Thrown SelectServer

/-! ## 2. What each part can do -/

/-- The loop is entered with an empty table, whatever the calls before it answered. -/
theorem run_startup {s : SelectServer} (h : startup.Run tr (.ok s)) :
    ∃ serverFd, serverFd ≠ 0 ∧ s = start serverFd := by
  simp only [startup, Prog.run_perform_bind, Prog.run_error_if, Prog.run_pure] at h
  obtain ⟨a, _, -, h0, _, _, -, -, _, _, -, -, _, _, -, -, -, hs⟩ := h
  exact ⟨a.ret, h0, Except.ok.inj hs⟩

/-- The trace holds nothing but marks of `FD_*` macros on indices outside their set. -/
def BitMarks (tr : List Ev) : Prop := ∀ e ∈ tr, ∃ fd, e.1 = .stray (.fdBit fd)

theorem bitMarks_bitTrace {fd : ℤ} : BitMarks (bitTrace fd) := by
  intro e he
  unfold bitTrace at he
  split at he
  · cases he
  · exact ⟨fd, by rw [List.mem_singleton.mp he]⟩

theorem BitMarks.marks (h : BitMarks tr) : Marks tr := by
  intro e he
  obtain ⟨fd, hfd⟩ := h e he
  rw [hfd]
  rfl

theorem BitMarks.append {tr₁ tr₂ : List Ev} (h₁ : BitMarks tr₁) (h₂ : BitMarks tr₂) :
    BitMarks (tr₁ ++ tr₂) :=
  List.forall_mem_append.mpr ⟨h₁, h₂⟩

theorem BitMarks.eq_nil (h : BitMarks tr) (hin : InSets tr) : tr = [] := by
  refine List.eq_nil_iff_forall_not_mem.mpr fun ⟨i, a⟩ he => ?_
  obtain ⟨fd, hfd⟩ := h _ he
  obtain rfl : i = .stray (.fdBit fd) := hfd
  exact hin fd he

theorem run_watchClient {sd : ℤ} {readfds readfds' : FdSet}
    (h : (watchClient sd readfds).Run tr readfds') :
    BitMarks tr ∧ (InSets tr ↔ (0 < sd → InFdSet sd)) ∧
      ∀ fd, fd ∈ readfds' ↔ fd ∈ readfds ∨ (0 < fd ∧ fd = sd) := by
  unfold watchClient at h
  split at h
  · rename_i hpos
    obtain ⟨rfl, rfl⟩ := run_fdSet.mp h
    refine ⟨bitMarks_bitTrace, inSets_bitTrace.trans (by simp [hpos]), fun fd => ?_⟩
    rw [Finset.mem_insert]
    constructor
    · rintro (rfl | hfd)
      · exact Or.inr ⟨hpos, rfl⟩
      · exact Or.inl hfd
    · rintro (hfd | ⟨-, rfl⟩)
      · exact Or.inr hfd
      · exact Or.inl rfl
  · rename_i hneg
    obtain ⟨rfl, rfl⟩ := Prog.run_pure.mp h
    refine ⟨by simp [BitMarks], iff_of_true inSets_nil fun hpos => absurd hpos hneg,
      fun fd => ⟨Or.inl, ?_⟩⟩
    rintro (hfd | ⟨hpos, rfl⟩)
    · exact hfd
    · exact absurd hpos hneg

/-- **The first loop** adds the occupied slots to the set and bounds them all. -/
theorem run_watchClients {slots : List ℤ} {readfds : FdSet} {maxSd : ℤ} {p : FdSet × ℤ}
    (h : (watchClients slots readfds maxSd).Run tr p) :
    BitMarks tr ∧ (InSets tr ↔ ∀ fd ∈ slots, 0 < fd → InFdSet fd) ∧
      (∀ fd, fd ∈ p.1 ↔ fd ∈ readfds ∨ (0 < fd ∧ fd ∈ slots)) ∧
      maxSd ≤ p.2 ∧ ∀ fd ∈ slots, fd ≤ p.2 := by
  induction slots generalizing readfds maxSd tr with
  | nil =>
    obtain ⟨rfl, rfl⟩ := Prog.run_pure.mp h
    simp [BitMarks]
  | cons sd slots ih =>
    rw [watchClients, Prog.run_bind] at h
    obtain ⟨readfds₁, tr₁, tr₂, rfl, h₁, h₂⟩ := h
    obtain ⟨hmarks, hin, hset, hmax, hall⟩ := ih h₂
    obtain ⟨hmarks₁, hin₁, hset₁⟩ := run_watchClient h₁
    refine ⟨hmarks₁.append hmarks, ?_, fun fd => ?_, ?_, ?_⟩
    · rw [inSets_append, hin₁, hin, List.forall_mem_cons]
    · rw [hset, hset₁, List.mem_cons, or_assoc, ← and_or_left]
    · split at hmax <;> omega
    · intro fd hfd
      rcases List.mem_cons.mp hfd with rfl | hfd
      · split at hmax <;> omega
      · exact hall fd hfd

/-- What the body of the third loop does to slot `i`: nothing, if the slot was not reported;
else a `read`, and then either the connection is closed and the slot freed, or the text in
the buffer is sent. -/
inductive ServiceEffect (readfds : FdSet) (s : SelectServer) (i : ℕ) (tr : List Ev)
    (s' : SelectServer) : Prop where
  | idle (notReady : s.slot i ∉ readfds) (trace : tr = bitTrace (s.slot i)) (post : s' = s)
  | closed (ready : s.slot i ∈ readfds) (a₁ a₂ : Status)
      (trace : tr = bitTrace (s.slot i) ++
        [⟨.read (s.slot i) bufferSize, .received [] (Nat.zero_le _)⟩,
          ⟨.getpeername (s.slot i), a₁⟩, ⟨.close (s.slot i), a₂⟩])
      (post : s' = { s with clientSockets := s.clientSockets.set i 0 })
  | answered (ready : s.slot i ∈ readfds) (a : RecvRet bufferSize) (ne : a.ret ≠ 0)
      (t₀ t₁ t₂ : List Ev) (text reply : Bytes) (buffer : Buffer UInt8 bufferSize)
      (sent : SendRet reply.length)
      (trace : tr = bitTrace (s.slot i) ++ ⟨.read (s.slot i) bufferSize, a⟩ ::
        (t₀ ++ (t₁ ++ (⟨.cout "Received from client: " text, ()⟩ ::
          (t₂ ++ [⟨.send (s.slot i) reply, sent⟩])))))
      (store : (storeZero (s.buffer.write a.data) a.ret).Run t₀ buffer)
      (print : (cString buffer).Run t₁ text) (measure : (cString buffer).Run t₂ reply)
      (post : s' = { s with buffer := buffer })

theorem ret_eq_zero_iff {size : ℕ} {a : RecvRet size} :
    a.ret = 0 ↔ a = .received [] (Nat.zero_le _) := by
  cases a with
  | failed => simp [RecvRet.ret]
  | received data le =>
    simp only [RecvRet.ret, RecvRet.received.injEq]
    rw [Int.natCast_eq_zero, List.length_eq_zero_iff]

/-- **The effect of the third loop on a slot.** -/
theorem serviceEffect {readfds : FdSet} {i : ℕ} {s s' : SelectServer} {r : Except Thrown Unit}
    (h : Meth.Run (serviceClient readfds i) s tr r s') :
    r = .ok () ∧ ServiceEffect readfds s i tr s' := by
  rw [serviceClient, Meth.run_get_bind, Meth.run_liftM_bind] at h
  obtain ⟨ready, tr₁, tr₂, rfl, hready, h⟩ := h
  obtain ⟨rfl, rfl⟩ := run_fdIsset.mp hready
  by_cases hmem : s.slot i ∈ readfds
  · simp only [hmem, decide_true, if_true, Meth.run_liftM_bind, Meth.run_modify_bind,
      Prog.run_perform, Meth.run_ite] at h
    obtain ⟨a, _, tr₃, rfl, rfl, h⟩ := h
    by_cases hzero : a.ret = 0
    · obtain rfl := ret_eq_zero_iff.mp hzero
      rw [if_pos hzero] at h
      simp only [dropClient, Meth.run_liftM_bind, Prog.run_perform, Meth.run_modify] at h
      obtain ⟨a₁, _, _, rfl, rfl, a₂, _, _, rfl, rfl, rfl, rfl, rfl⟩ := h
      refine ⟨rfl, .closed hmem a₁ a₂ rfl ?_⟩
      simp [RecvRet.data]
    · rw [if_neg hzero] at h
      simp only [answerClient, Meth.run_get_bind, Meth.run_liftM_bind, Meth.run_modify_bind,
        Prog.run_perform, Meth.run_pure] at h
      obtain ⟨buffer, t₀, _, rfl, hstore, text, t₁, _, rfl, hprint, _, _, _, rfl, rfl, reply,
        t₂, _, rfl, hmeasure, sent, _, _, rfl, rfl, rfl, rfl, rfl⟩ := h
      exact ⟨rfl, .answered hmem a hzero t₀ t₁ t₂ text reply buffer sent rfl hstore hprint
        hmeasure rfl⟩
  · simp only [hmem, decide_false] at h
    obtain ⟨rfl, rfl, rfl⟩ := Meth.run_pure.mp h
    exact ⟨rfl, .idle hmem (by simp) rfl⟩

/-- What `select` is asked: the listening socket and every occupied slot, all below `nfds`. -/
structure Watches (s : SelectServer) (nfds : ℤ) (readfds : FdSet) : Prop where
  mem : ∀ fd, fd ∈ readfds ↔ fd = s.serverFd ∨ (0 < fd ∧ fd ∈ s.clientSockets.cells)
  lt : ∀ fd ∈ readfds, fd < nfds

/-- What happens between `select` and the third loop, when the program does not exit. -/
inductive Arrival (s : SelectServer) (ready : FdSet) (tr : List Ev) (s' : SelectServer) :
    Prop where
  | nobody (notReady : s.serverFd ∉ ready) (trace : tr = []) (post : s' = s)
  | somebody (isReady : s.serverFd ∈ ready) (n : ℕ) (peer : SockaddrIn)
      (trace : tr = [⟨.accept s.serverFd, .accepted n peer⟩]) (post : s' = s.withClient n)

/-- What happens after `select`: `accept` fails and the program exits, or the third loop is
reached. -/
inductive AfterSelect (s : SelectServer) (ready : FdSet) (tr : List Ev) (r : Except Thrown Unit)
    (s' : SelectServer) : Prop where
  | exited (isReady : s.serverFd ∈ ready)
      (trace : tr = bitTrace s.serverFd ++ [⟨.accept s.serverFd, .failed⟩])
      (res : r = .error (.exit exitFailure)) (post : s' = s)
  | served (s₁ : SelectServer) (tr₁ tr₂ : List Ev)
      (trace : tr = bitTrace s.serverFd ++ (tr₁ ++ tr₂)) (arrival : Arrival s ready tr₁ s₁)
      (service : Meth.Run (serviceClients ready) s₁ tr₂ r s')

theorem run_acceptClient {s s' : SelectServer} {r : Except Thrown Unit} :
    Meth.Run acceptClient s tr r s' ↔
      (tr = [⟨.accept s.serverFd, .failed⟩] ∧ r = .error (.exit exitFailure) ∧ s' = s) ∨
      ∃ n peer, tr = [⟨.accept s.serverFd, .accepted n peer⟩] ∧ r = .ok () ∧
        s' = s.withClient n := by
  simp only [acceptClient, Meth.run_get_bind, Meth.run_liftM_bind, Prog.run_perform,
    Meth.run_ite, Meth.run_throw, Meth.run_modify]
  constructor
  · rintro ⟨a, _, _, rfl, rfl, h⟩
    cases a with
    | failed =>
      obtain ⟨rfl, rfl, rfl⟩ := (if_pos (by simp)).mp h
      exact Or.inl ⟨rfl, rfl, rfl⟩
    | accepted n peer =>
      obtain ⟨rfl, rfl, rfl⟩ := (if_neg (by simp)).mp h
      exact Or.inr ⟨n, peer, rfl, rfl, rfl⟩
  · rintro (⟨rfl, rfl, rfl⟩ | ⟨n, peer, rfl, rfl, rfl⟩)
    · exact ⟨.failed, _, [], rfl, rfl, by simp⟩
    · refine ⟨.accepted n peer, _, [], rfl, rfl, ?_⟩
      rw [if_neg (by simp)]
      exact ⟨rfl, rfl, rfl⟩

theorem afterSelect {s s' : SelectServer} {ready : FdSet} {r : Except Thrown Unit}
    (h : Meth.Run (handleReady ready) s tr r s') : AfterSelect s ready tr r s' := by
  rw [handleReady, Meth.run_get_bind, Meth.run_liftM_bind] at h
  obtain ⟨incoming, tr₁, tr₂, rfl, hbit, h⟩ := h
  obtain ⟨rfl, rfl⟩ := run_fdIsset.mp hbit
  by_cases hmem : s.serverFd ∈ ready
  · simp only [hmem, decide_true, if_true] at h
    rcases Meth.run_bind.mp h with ⟨e, haccept, rfl⟩ | ⟨_, s₁, t₁, t₂, rfl, haccept, h⟩
    · rcases run_acceptClient.mp haccept with ⟨rfl, he, rfl⟩ | ⟨n, peer, -, he, -⟩
      · exact .exited hmem rfl he rfl
      · cases he
    · rcases run_acceptClient.mp haccept with ⟨-, he, -⟩ | ⟨n, peer, rfl, -, rfl⟩
      · cases he
      · exact .served _ _ t₂ rfl (.somebody hmem n peer rfl rfl) h
  · simp only [hmem, decide_false] at h
    exact .served s [] tr₂ rfl (.nobody hmem rfl rfl) h

theorem watches_of_watchClients {s : SelectServer} {p : FdSet × ℤ}
    (hmem : ∀ fd, fd ∈ p.1 ↔ fd ∈ (insert s.serverFd ∅ : FdSet) ∨
      (0 < fd ∧ fd ∈ s.clientSockets.cells))
    (hmax : s.serverFd ≤ p.2) (hle : ∀ fd ∈ s.clientSockets.cells, fd ≤ p.2) :
    s.Watches (p.2 + 1) p.1 := by
  refine ⟨fun fd => by simp [hmem], fun fd hfd => ?_⟩
  rcases (hmem fd).mp hfd with hfd | ⟨-, hfd⟩
  · obtain rfl : fd = s.serverFd := by simpa using hfd
    omega
  · have := hle fd hfd
    omega

/-- What building the set leaves in the trace: marks, one for each descriptor outside the set. -/
structure Prepares (s : SelectServer) (tr : List Ev) : Prop where
  marks : BitMarks tr
  inSets : InSets tr ↔ InFdSet s.serverFd ∧ ∀ fd ∈ s.clientSockets.cells, 0 < fd → InFdSet fd

/-- **One iteration.** -/
theorem run_iteration {s s' : SelectServer} {r : Except Thrown Unit}
    (h : Meth.Run iteration s tr r s') :
    ∃ tr₁ nfds readfds a tr₂, tr = tr₁ ++ ⟨.select nfds readfds ∅ ∅ none, a⟩ :: tr₂ ∧
      s.Prepares tr₁ ∧ s.Watches nfds readfds ∧ AfterSelect s a.readfds' tr₂ r s' := by
  rw [iteration, Meth.run_get_bind, Meth.run_liftM_bind] at h
  obtain ⟨readfds, t₀, _, rfl, h₀, h⟩ := h
  obtain ⟨rfl, rfl⟩ := run_fdSet.mp h₀
  rw [Meth.run_liftM_bind] at h
  obtain ⟨watched, t₁, _, rfl, h₁, h⟩ := h
  rw [Meth.run_liftM_bind] at h
  obtain ⟨a, _, t₂, rfl, h₂, h⟩ := h
  obtain rfl := Prog.run_perform.mp h₂
  obtain ⟨hmarks, hin, hmem, hmax, hle⟩ := run_watchClients h₁
  refine ⟨bitTrace s.serverFd ++ t₁, watched.2 + 1, watched.1, a, t₂, by simp, ?_,
    watches_of_watchClients hmem hmax hle, afterSelect h⟩
  exact ⟨bitMarks_bitTrace.append hmarks, by rw [inSets_append, inSets_bitTrace, hin]⟩

/-- **What composes holds of an iteration** as soon as it holds of marks, of `select`, of
`accept` and of the third loop on every slot. -/
theorem always_iteration {P : List Ev → Prop} (hP : Composes P)
    (hmarks : ∀ tr, BitMarks tr → P tr)
    (hselect : ∀ nfds readfds a, P [⟨.select nfds readfds ∅ ∅ none, a⟩])
    (haccept : ∀ fd a, P [⟨.accept fd, a⟩])
    (hservice : ∀ readfds s i tr s', ServiceEffect readfds s i tr s' → P tr) :
    Meth.Always iteration P := by
  have hloop : ∀ readfds, Meth.Always (serviceClients readfds) P := fun readfds =>
    Meth.always_forM hP fun i s tr r s' h => hservice readfds s i tr s' (serviceEffect h).2
  intro s tr r s' h
  obtain ⟨tr₁, nfds, readfds, a, tr₂, rfl, hm, -, hafter⟩ := run_iteration h
  refine hP.append (hmarks tr₁ hm.marks) (hP.append (hselect nfds readfds a) ?_)
  have hbit : P (bitTrace s.serverFd) := hmarks _ bitMarks_bitTrace
  cases hafter with
  | exited isReady trace res post =>
    rw [trace]
    exact hP.append hbit (haccept _ _)
  | served s₁ t₁ t₂ trace arrival service =>
    rw [trace]
    refine hP.append hbit (hP.append ?_ (hloop _ s₁ t₂ r s' service))
    cases arrival with
    | nobody notReady trace post =>
      rw [trace]
      exact hP.nil
    | somebody isReady n peer trace post =>
      rw [trace]
      exact haccept _ _

/-! ## 3. Runs of the parts -/

/-- The calls before the loop, all of them answered with success. -/
def startTrace : List Ev :=
  [⟨.socket .stream, .fd 3⟩, ⟨.setsockopt 3 (soReuseaddr ||| soReuseport) (.int 1), .ok⟩,
    ⟨.bind 3 ⟨afInet, htons 8888, inaddrAny⟩, .ok⟩, ⟨.listen 3 3, .ok⟩]

theorem run_startup_three : startup.Run startTrace (.ok (start 3)) := by
  simp only [startup, Prog.run_perform_bind, Prog.run_error_if, Prog.run_pure]
  exact ⟨.fd 3, _, rfl, by decide, .ok, _, rfl, by decide, .ok, _, rfl, by decide, .ok, _, rfl,
    by decide, rfl, rfl⟩

/-- Every descriptor in the table is inside an `fd_set`, and none is the listening socket. -/
def Ordinary (s : SelectServer) : Prop :=
  InFdSet s.serverFd ∧ ∀ fd ∈ s.clientSockets.cells, InFdSet fd ∧ fd ≠ s.serverFd

theorem bitTrace_of_inFdSet {fd : ℤ} (h : InFdSet fd) : bitTrace fd = [] := if_pos h

theorem slot_mem {s : SelectServer} {i : ℕ} (hi : i < maxClients) :
    s.slot i ∈ s.clientSockets.cells := by
  have hlen : i < s.clientSockets.cells.length := by rw [s.clientSockets.length_eq]; exact hi
  have hslot : s.slot i = s.clientSockets.cells[i] := List.getD_eq_getElem _ _ hlen
  rw [hslot]
  exact List.getElem_mem hlen

theorem slot_ordinary {s : SelectServer} (h : s.Ordinary) {i : ℕ} (hi : i < maxClients) :
    InFdSet (s.slot i) ∧ s.slot i ≠ s.serverFd :=
  h.2 _ (slot_mem hi)

/-- The first loop touches no index outside the set. -/
theorem exists_run_watchClients (slots : List ℤ) (readfds : FdSet) (maxSd : ℤ)
    (h : ∀ fd ∈ slots, InFdSet fd) : ∃ p, (watchClients slots readfds maxSd).Run [] p := by
  induction slots generalizing readfds maxSd with
  | nil => exact ⟨_, Prog.run_pure.mpr ⟨rfl, rfl⟩⟩
  | cons sd slots ih =>
    obtain ⟨hsd, hslots⟩ := List.forall_mem_cons.mp h
    have hwatch : ∃ readfds', (watchClient sd readfds).Run [] readfds' := by
      unfold watchClient
      split
      · exact ⟨_, run_fdSet.mpr ⟨(bitTrace_of_inFdSet hsd).symm, rfl⟩⟩
      · exact ⟨_, Prog.run_pure.mpr ⟨rfl, rfl⟩⟩
    obtain ⟨readfds', hrun⟩ := hwatch
    obtain ⟨p, hp⟩ := ih readfds' (if sd > maxSd then sd else maxSd) hslots
    exact ⟨p, Prog.run_bind.mpr ⟨readfds', [], [], rfl, hrun, hp⟩⟩

/-- The third loop does nothing on a slot that was not reported. -/
theorem run_serviceClient_idle {s : SelectServer} {readfds : FdSet} {i : ℕ} (h : s.Ordinary)
    (hi : i < maxClients) (hidle : s.slot i ∉ readfds) :
    Meth.Run (serviceClient readfds i) s [] (.ok ()) s := by
  have hbit := bitTrace_of_inFdSet (slot_ordinary h hi).1
  rw [serviceClient, Meth.run_get_bind, Meth.run_liftM_bind]
  refine ⟨false, [], [], rfl, run_fdIsset.mpr ⟨hbit.symm, ?_⟩, ?_⟩
  · rw [decide_eq_false hidle]
  · exact Meth.run_pure.mpr ⟨rfl, rfl, rfl⟩

/-- The third loop does nothing when only the listening socket was reported. -/
theorem run_serviceClients_idle {s : SelectServer} (h : s.Ordinary) :
    Meth.Run (serviceClients {s.serverFd}) s [] (.ok ()) s := by
  refine Meth.run_forM_skip fun i hi => ?_
  have hi' : i < maxClients := List.mem_range.mp hi
  have hnot : s.slot i ∉ ({s.serverFd} : FdSet) := by
    rw [Finset.mem_singleton]
    exact (slot_ordinary h hi').2
  exact run_serviceClient_idle h hi' hnot

/-- What follows `select` is an iteration, whatever `select` answers. -/
theorem exists_run_select {s : SelectServer} (h : s.Ordinary) :
    ∃ (nfds : ℤ) (readfds : FdSet), s.Watches nfds readfds ∧
      ∀ (a : SelectRet readfds ∅ ∅) tr r s', Meth.Run (handleReady a.readfds') s tr r s' →
        Meth.Run iteration s (⟨.select nfds readfds ∅ ∅ none, a⟩ :: tr) r s' := by
  obtain ⟨p, hwatch⟩ := exists_run_watchClients s.clientSockets.cells (insert s.serverFd ∅)
    s.serverFd fun fd hfd => (h.2 fd hfd).1
  have hiteration : ∀ (a : SelectRet p.1 ∅ ∅) tr r s',
      Meth.Run (handleReady a.readfds') s tr r s' →
        Meth.Run iteration s (⟨.select (p.2 + 1) p.1 ∅ ∅ none, a⟩ :: tr) r s' := by
    intro a tr r s' hrun
    rw [iteration, Meth.run_get_bind]
    refine Meth.run_liftM_bind.mpr ⟨_, [], _, rfl,
      run_fdSet.mpr ⟨(bitTrace_of_inFdSet h.1).symm, rfl⟩, ?_⟩
    refine Meth.run_liftM_bind.mpr ⟨p, [], _, rfl, hwatch, ?_⟩
    exact Meth.run_liftM_bind.mpr ⟨a, [_], _, rfl, Prog.run_perform.mpr rfl, hrun⟩
  obtain ⟨-, -, hmem, hmax, hle⟩ := run_watchClients hwatch
  exact ⟨p.2 + 1, p.1, watches_of_watchClients hmem hmax hle, hiteration⟩

/-- ...in particular whatever watched descriptors are reported. -/
theorem exists_run_iteration {s s' : SelectServer} {r : Except Thrown Unit} (ready : FdSet)
    (h : s.Ordinary)
    (hready : ∀ fd ∈ ready, fd = s.serverFd ∨ (0 < fd ∧ fd ∈ s.clientSockets.cells))
    (hrun : Meth.Run (handleReady ready) s tr r s') :
    ∃ nfds readfds a,
      Meth.Run iteration s (⟨.select nfds readfds ∅ ∅ none, a⟩ :: tr) r s' := by
  obtain ⟨nfds, readfds, hwatches, hiteration⟩ := exists_run_select h
  have hsub : ready ⊆ readfds := fun fd hfd => (hwatches.mem fd).mpr (hready fd hfd)
  exact ⟨nfds, readfds, .ready ready ∅ ∅ hsub (Finset.Subset.refl _) (Finset.Subset.refl _),
    hiteration _ tr r s' hrun⟩

/-- A connection arrives and nothing else happens. -/
theorem exists_run_accept {s : SelectServer} {n : ℕ} (h : s.Ordinary)
    (h' : (s.withClient n).Ordinary) :
    ∃ nfds readfds a, Meth.Run iteration s
      [⟨.select nfds readfds ∅ ∅ none, a⟩, ⟨.accept s.serverFd, .accepted n {}⟩]
      (.ok ()) (s.withClient n) := by
  refine exists_run_iteration {s.serverFd} h
    (fun fd hfd => Or.inl (Finset.mem_singleton.mp hfd)) ?_
  rw [handleReady, Meth.run_get_bind]
  refine Meth.run_liftM_bind.mpr ⟨true, [], _, rfl,
    run_fdIsset.mpr ⟨(bitTrace_of_inFdSet h.1).symm, by simp⟩, ?_⟩
  have haccept : Meth.Run acceptClient s [⟨.accept s.serverFd, .accepted n {}⟩] (.ok ())
      (s.withClient n) := run_acceptClient.mpr (Or.inr ⟨n, {}, rfl, rfl, rfl⟩)
  exact haccept.bind (run_serviceClients_idle h')

end SelectServer

end InternetProgramming
