/-
# The receive paths of the applications

Four programs and one buffer in each of them.  The server of `case1` prints what it received
from a buffer that it had cleared; the programs of `case3`, `case4` and `case5` put a terminator
behind what they received; the multi-client server does that too, whatever `read` returned.
All of them ask for as many bytes as the buffer has.

So each path is safe up to a bound that lies one short of what the peer can send, and
`inBuffers_iff` says for each program which results of `recv` and `read` it can cope with:

* `case1`: all but a full buffer without a zero byte in it;
* `case3`, `case4`, `case5`: all but a full buffer;
* the multi-client server: all but a full buffer and a failure.
-/
import InternetProgramming.Interaction.Compose
import InternetProgramming.Readiness
import InternetProgramming.SelectServer
import InternetProgramming.SocketSpec

namespace InternetProgramming

open Interaction

variable {tr : List Ev} {F : Ev → Prop}

/-! ## 1. The programs -/

/-- `TCPSocket socket(type);` and what follows it in `main`.  Nobody catches anything: a
constructor or a body that throws ends the program. -/
def TCPSocket.scope (type : SocketType)
    (body : TCPSocket → SysM (Except Thrown Unit × TCPSocket)) : SysM (Except Thrown Unit) := do
  match ← TCPSocket.new type with
  | .error e => pure (.error e)
  | .ok s => do
    let p ← body s
    match p.1 with
    | .error e => pure (.error e)
    | .ok _ => do
      p.2.destroy
      pure (.ok ())

/-- `app/case1_socket_tcp/server/src/main.cpp` from `buffer` on, which is zeroed. -/
def greet : Method TCPSocket Unit := do
  let buffer ← TCPSocket.receiveData (.replicate bufferSize 0) bufferSize
  let message ← cString buffer
  let _ ← sys (.cout "Message from client: " message)
  TCPSocket.sendData "Hello from server".toUTF8.toList

/-- `app/case1_socket_tcp/server/src/main.cpp` behind the constructor. -/
def acceptAndGreet : Method TCPSocket Unit := do
  TCPSocket.onBase (Socket.setSocketOption (optReuseaddr ||| optReuseport) 1)
  TCPSocket.onBase (Socket.bindSocket 8080)
  TCPSocket.listenSocket 3
  let _ ← TCPSocket.acceptConnection
  greet

/-- `main` of `app/case1_socket_tcp/server`. -/
def case1Server : SysM (Except Thrown Unit) :=
  TCPSocket.scope .server fun s => acceptAndGreet.run.run s

/-- What `case3`, `case4` and `case5` do with a readable descriptor.  `buffer` is not
initialised. -/
def receiveText (buffer : Buffer UInt8 bufferSize) (fd : ℤ) : SysM Unit := do
  let bytesRead ← sys (.recv fd bufferSize)
  if bytesRead.ret > 0 then do
    let buffer ← storeZero (buffer.write bytesRead.data) bytesRead.ret
    let received ← cString buffer
    sys (.cout "Received: " received)
  else
    pure ()

/-- What they do with `selector`, from `addReadFd` on.  (`case3` asks for the descriptor again
before each use; it stays the same.) -/
def watchAndReceive (buffer : Buffer UInt8 bufferSize) (fd : ℤ) : Method SelectWrapper Unit := do
  SelectWrapper.addReadFd fd
  let result ← SelectWrapper.select 5 0
  if result = -1 then
    pure ()
  else if result > 0 then do
    let readable ← SelectWrapper.isReadable fd
    if readable then
      receiveText buffer fd
    else
      pure ()
  else
    pure ()

/-- The objects of `app/case3_select/server/src/main.cpp`. -/
structure SelectApp where
  socket : TCPSocket
  selector : SelectWrapper

namespace SelectApp

/-- A method of `socket`. -/
def onSocket {α : Type} (m : Method TCPSocket α) : Method SelectApp α :=
  Meth.zoom socket (fun t s => { s with socket := t }) m

/-- A method of `selector`. -/
def onSelector {α : Type} (m : Method SelectWrapper α) : Method SelectApp α :=
  Meth.zoom selector (fun t s => { s with selector := t }) m

/-- `app/case3_select/server/src/main.cpp` behind the constructors. -/
def bindAndSelect (buffer : Buffer UInt8 bufferSize) : Method SelectApp Unit := do
  onSocket (TCPSocket.onBase (Socket.bindSocket 8080))
  let fd ← onSocket (TCPSocket.onBase Socket.getSocketFd)
  onSelector (watchAndReceive buffer fd)
  let fd ← onSocket (TCPSocket.onBase Socket.getSocketFd)
  let _ ← sys (.close fd)

end SelectApp

/-- `main` of `app/case3_select/server`. -/
def case3Server (buffer : Buffer UInt8 bufferSize) : SysM (Except Thrown Unit) :=
  TCPSocket.scope .server fun s => do
    let p ← (SelectApp.bindAndSelect buffer).run.run ⟨s, .new⟩
    pure (p.1, p.2.socket)

/-- The `main` that `case4` and `case5` have in common.  `sin_addr` is not initialised. -/
def connectAndSelect (sinAddr : UInt32) (buffer : Buffer UInt8 bufferSize) : SysM ℤ := do
  let sockfd ← sys (.socket .stream)
  if sockfd.ret = -1 then
    pure 1
  else do
    let parsed ← sys (.inetPton "127.0.0.1")
    let connected ← sys (.connect sockfd.ret ⟨afInet, htons 8080, parsed.getD sinAddr⟩)
    if connected.ret = -1 then do
      let _ ← sys (.close sockfd.ret)
      pure 1
    else do
      let _ ← (watchAndReceive buffer sockfd.ret).run.run .new
      let _ ← sys (.close sockfd.ret)
      pure 0

/-- `main` of `app/case4_poll/server`. -/
def case4Server (sinAddr : UInt32) (buffer : Buffer UInt8 bufferSize) : SysM ℤ :=
  connectAndSelect sinAddr buffer

/-- `main` of `app/case5_epoll/server`. -/
def case5Server (sinAddr : UInt32) (buffer : Buffer UInt8 bufferSize) : SysM ℤ :=
  connectAndSelect sinAddr buffer

/-- The programs that receive. -/
inductive App where
  | case1
  | case3
  | case4
  | case5
  | multiClient
deriving DecidableEq

/-- The program can leave this trace; one that does not end can leave it up to the top of
some iteration. -/
def App.Runs (tr : List Ev) : App → Prop
  | .case1 => ∃ r, case1Server.Run tr r
  | .case3 => ∃ buffer r, (case3Server buffer).Run tr r
  | .case4 => ∃ sinAddr buffer r, (case4Server sinAddr buffer).Run tr r
  | .case5 => ∃ sinAddr buffer r, (case5Server sinAddr buffer).Run tr r
  | .multiClient => (∃ e, SelectServer.startup.Run tr (.error e)) ∨
      ∃ tr₀ s₀ h s, SelectServer.startup.Run tr₀ (.ok s₀) ∧
        LoopRun SelectServer.iteration s₀ h s ∧ tr = tr₀ ++ traceOf h

/-! ## 2. What fits -/

/-- A received block leaves room for a terminator. -/
def Room : Ev → Prop
  | ⟨.recv _ _, .received data _⟩ => data.length < bufferSize
  | _ => True

/-- A received block leaves room for a terminator, or has one in it. -/
def RoomOrZero : Ev → Prop
  | ⟨.recv _ _, .received data _⟩ => data.length < bufferSize ∨ 0 ∈ data
  | _ => True

/-- A `read` succeeded, and left room for a terminator. -/
def ReadRoom : Ev → Prop
  | ⟨.read _ _, .received data _⟩ => data.length < bufferSize
  | ⟨.read _ _, .failed⟩ => False
  | _ => True

/-- What an application can cope with. -/
def App.Fits : App → Ev → Prop
  | .case1 => RoomOrZero
  | .case3 | .case4 | .case5 => Room
  | .multiClient => ReadRoom

/-- The call fills a buffer. -/
def Sys.receives : Sys → Bool
  | .recv _ _ | .read _ _ => true
  | _ => false

/-- `F` is about what is received, and about nothing else. -/
def JudgesReceipts (F : Ev → Prop) : Prop := ∀ e : Ev, e.1.receives = false → F e

theorem judges_room : JudgesReceipts Room := by
  intro e he
  unfold Room
  split
  · cases he
  · trivial

theorem judges_roomOrZero : JudgesReceipts RoomOrZero := by
  intro e he
  unfold RoomOrZero
  split
  · cases he
  · trivial

theorem judges_readRoom : JudgesReceipts ReadRoom := by
  intro e he
  unfold ReadRoom
  split
  · cases he
  · cases he
  · trivial

/-- The trace stays inside the buffers exactly if all that it received fits. -/
def Balanced (F : Ev → Prop) (tr : List Ev) : Prop := InBuffers tr ↔ ∀ e ∈ tr, F e

theorem composes_balanced : Composes (Balanced F) := composes_forall_iff

/-- Nothing is received, and no buffer is left. -/
def Plain (tr : List Ev) : Prop := ∀ e ∈ tr, e.1.leavesBuffer = false ∧ e.1.receives = false

theorem Plain.balanced (h : Plain tr) (hF : JudgesReceipts F) : Balanced F tr :=
  ⟨fun _ e he => hF e (h e he).2, fun _ e he => (h e he).1⟩

theorem plain_bitTrace {fd : ℤ} : Plain (bitTrace fd) := by
  unfold bitTrace
  split
  · simp [Plain]
  · simp [Plain, Sys.leavesBuffer, Sys.receives]

theorem inBuffers_cString_iff_mem {n : ℕ} {buffer : Buffer UInt8 n} {text : Bytes}
    (h : (cString buffer).Run tr text) : InBuffers tr ↔ 0 ∈ buffer.cells := by
  rw [inBuffers_cString h]
  constructor
  · intro htext
    by_contra hnot
    rw [Buffer.text?, if_neg hnot] at htext
    cases htext
  · intro hmem
    rcases run_cString.mp h with ⟨htext, -⟩ | ⟨hnone, -⟩
    · exact htext
    · rw [Buffer.text?, if_pos hmem] at hnone
      cases hnone

/-! ## 3. The receive paths -/

/-- **Terminating what was received.**  Either it left room, and the buffer is then terminated;
or the terminator is stored outside. -/
theorem storeZero_cases {buffer buffer' : Buffer UInt8 bufferSize} {a : RecvRet bufferSize}
    (h : (storeZero (buffer.write a.data) a.ret).Run tr buffer') :
    (∃ data le, a = .received data le ∧ data.length < bufferSize ∧ tr = [] ∧
        0 ∈ buffer'.cells) ∨
      ((∀ data le, a = .received data le → ¬ data.length < bufferSize) ∧ ¬ InBuffers tr) := by
  rcases run_storeZero.mp h with ⟨hindex, rfl, rfl⟩ | ⟨hindex, rfl, rfl⟩
  · cases a with
    | failed => simp [RecvRet.ret] at hindex
    | received data le =>
      have hlt : data.length < bufferSize := by
        simpa [RecvRet.ret] using hindex
      have htext := Buffer.text?_set_write (b := buffer) hlt
      refine Or.inl ⟨data, le, rfl, hlt, rfl, ?_⟩
      exact Buffer.mem_of_text? htext
  · refine Or.inr ⟨?_, by simp [Sys.leavesBuffer]⟩
    rintro data le rfl hlt
    simp [RecvRet.ret, hlt] at hindex

/-- `F` does not mind marks. -/
theorem JudgesReceipts.of_marks (hF : JudgesReceipts F) (h : Marks tr) : ∀ e ∈ tr, F e :=
  h.forall_mem (fun _ _ => hF _ rfl) fun _ => hF _ rfl

/-- The path of `case3`, `case4` and `case5`. -/
theorem always_receiveText {buffer : Buffer UInt8 bufferSize} {fd : ℤ} :
    (receiveText buffer fd).Always (Balanced Room) := by
  intro tr u h
  rw [receiveText, Prog.run_perform_bind] at h
  obtain ⟨a, tr', rfl, h⟩ := h
  by_cases hpos : a.ret > 0
  · rw [if_pos hpos, Prog.run_bind] at h
    obtain ⟨buffer', t₀, _, rfl, hstore, h⟩ := h
    rw [Prog.run_bind] at h
    obtain ⟨text, t₁, t₂, rfl, hprint, h⟩ := h
    obtain rfl := Prog.run_perform.mp h
    have hroom : ∀ e ∈ t₀ ++ (t₁ ++ [(⟨.cout "Received: " text, u⟩ : Ev)]), Room e := by
      simp only [List.forall_mem_append, List.forall_mem_singleton]
      exact ⟨judges_room.of_marks (marks_storeZero hstore),
        judges_room.of_marks (marks_cString hprint), trivial⟩
    rw [Balanced, List.forall_mem_cons, and_iff_left hroom]
    rcases storeZero_cases hstore with ⟨data, le, rfl, hlt, rfl, hzero⟩ | ⟨hfull, hout⟩
    · have hin := (inBuffers_cString_iff_mem hprint).mpr hzero
      simp [hin, Sys.leavesBuffer, Room, hlt]
    · cases a with
      | failed => simp [RecvRet.ret] at hpos
      | received data le => simp [hout, Sys.leavesBuffer, Room, hfull data le rfl]
  · rw [if_neg hpos] at h
    obtain ⟨rfl, -⟩ := Prog.run_pure.mp h
    cases a with
    | failed => simp [Balanced, Sys.leavesBuffer, Room]
    | received data le =>
      have hdata : data.length < bufferSize := by
        simp only [RecvRet.ret, gt_iff_lt, not_lt] at hpos
        have hzero : data.length = 0 := by omega
        rw [hzero]
        decide
      simp [Balanced, Sys.leavesBuffer, Room, hdata]

/-- The path of `case1`. -/
theorem always_greet : Meth.Always greet (Balanced RoomOrZero) := by
  intro s tr r s' h
  rw [greet, Meth.run_bind] at h
  rcases h with ⟨e, hrecv, -⟩ | ⟨buffer, s₁, t₁, t₂, rfl, hrecv, h⟩
  · obtain ⟨-, ⟨rfl, -⟩ | ⟨_, _, _, _, -, -, hr⟩⟩ := TCPSocket.run_receiveData.mp hrecv
    · simp [Balanced, Sys.leavesBuffer, RoomOrZero]
    · cases hr
  · obtain ⟨-, ⟨-, hr⟩ | ⟨data, le, t₀, buffer', rfl, hcopy, hr⟩⟩ :=
      TCPSocket.run_receiveData.mp hrecv
    · cases hr
    · obtain rfl := Except.ok.inj hr
      obtain ⟨rfl, rfl⟩ := (run_copyIn_of_le le).mp hcopy
      simp only [Meth.run_liftM_bind, Prog.run_perform] at h
      obtain ⟨text, t₁, _, rfl, hprint, u, _, t₃, rfl, rfl, hsend⟩ := h
      obtain ⟨a, rfl, -, -⟩ := TCPSocket.run_sendData.mp hsend
      have hrest : ∀ e ∈ t₁ ++ ([(⟨.cout "Message from client: " text, u⟩ : Ev)] ++
          [⟨.send s₁.dataFd "Hello from server".toUTF8.toList, a⟩]), RoomOrZero e := by
        simp only [List.forall_mem_append, List.forall_mem_singleton]
        exact ⟨judges_roomOrZero.of_marks (marks_cString hprint), trivial, trivial⟩
      have hzero := inBuffers_cString_iff_mem hprint
      rw [Buffer.zero_mem_write_replicate le] at hzero
      rw [Balanced, List.cons_append, List.forall_mem_cons, List.nil_append, and_iff_left hrest]
      simp [hzero, Sys.leavesBuffer, RoomOrZero]

/-- The path of the multi-client server, for one slot. -/
theorem balanced_service {readfds : FdSet} {s s' : SelectServer} {i : ℕ}
    (h : SelectServer.ServiceEffect readfds s i tr s') : Balanced ReadRoom tr := by
  have hbit : Balanced ReadRoom (bitTrace (s.slot i)) := plain_bitTrace.balanced judges_readRoom
  cases h with
  | idle notReady trace post =>
    rw [trace]
    exact hbit
  | closed ready a₁ a₂ trace post =>
    rw [trace]
    refine composes_balanced.append hbit ?_
    have hroom : 0 < bufferSize := by decide
    simp [Balanced, Sys.leavesBuffer, ReadRoom, hroom]
  | answered ready a ne t₀ t₁ t₂ text reply buffer sent trace store print measure post =>
    rw [trace]
    refine composes_balanced.append hbit ?_
    have hrest : ∀ e ∈ t₀ ++ (t₁ ++ (⟨.cout "Received from client: " text, ()⟩ ::
        (t₂ ++ [⟨.send (s.slot i) reply, sent⟩]))), ReadRoom e := by
      simp only [List.forall_mem_append, List.forall_mem_cons]
      exact ⟨judges_readRoom.of_marks (marks_storeZero store),
        judges_readRoom.of_marks (marks_cString print), trivial,
        judges_readRoom.of_marks (marks_cString measure), trivial, by simp⟩
    rw [Balanced, List.forall_mem_cons, and_iff_left hrest]
    rcases storeZero_cases store with ⟨data, le, rfl, hlt, rfl, hzero⟩ | ⟨hfull, hout⟩
    · have hprint := (inBuffers_cString_iff_mem print).mpr hzero
      have hmeasure := (inBuffers_cString_iff_mem measure).mpr hzero
      simp [hprint, hmeasure, Sys.leavesBuffer, ReadRoom, hlt]
    · cases a with
      | failed => simp [hout, ReadRoom]
      | received data le => simp [hout, ReadRoom, hfull data le rfl]

/-! ## 4. The programs around them -/

section Around

variable (hF : JudgesReceipts F)
include hF

theorem always_setSocketOption {option : BitVec 32} {value : ℤ} :
    Meth.Always (Socket.setSocketOption option value) (Balanced F) := by
  intro s tr r s' h
  refine Plain.balanced (fun e he => ?_) hF
  obtain ⟨optname, optval, hcall⟩ := (Socket.run_setSocketOption h).1 e he
  rw [hcall]
  exact ⟨rfl, rfl⟩

theorem always_bindSocket {port : ℤ} : Meth.Always (Socket.bindSocket port) (Balanced F) := by
  intro s tr r s' h
  obtain ⟨a, rfl, -, -⟩ := Socket.run_bindSocket.mp h
  exact Plain.balanced (by simp [Plain, Sys.leavesBuffer, Sys.receives]) hF

omit hF in
theorem always_getSocketFd : Meth.Always Socket.getSocketFd (Balanced F) := by
  intro s tr r s' h
  obtain ⟨rfl, -, -⟩ := Socket.run_getSocketFd.mp h
  exact composes_balanced.nil

theorem always_listenSocket {backlog : ℤ} :
    Meth.Always (TCPSocket.listenSocket backlog) (Balanced F) := by
  intro s tr r s' h
  obtain ⟨a, rfl, -, -⟩ := TCPSocket.run_listenSocket.mp h
  exact Plain.balanced (by simp [Plain, Sys.leavesBuffer, Sys.receives]) hF

theorem always_acceptConnection : Meth.Always TCPSocket.acceptConnection (Balanced F) := by
  intro s tr r s' h
  obtain ⟨a, rfl, -, -⟩ := TCPSocket.run_acceptConnection.mp h
  exact Plain.balanced (by simp [Plain, Sys.leavesBuffer, Sys.receives]) hF

/-- A call that neither receives nor leaves a buffer. -/
theorem always_sys {i : Sys} (h : i.leavesBuffer = false ∧ i.receives = false) :
    (sys i).Always (Balanced F) :=
  Prog.always_perform fun _ => Plain.balanced (List.forall_mem_singleton.mpr h) hF

theorem always_closeFd {fd : ℤ} : (closeFd fd).Always (Balanced F) := by
  refine Prog.always_ite ?_ (Prog.always_pure composes_balanced)
  refine Prog.always_bind composes_balanced (always_sys hF ⟨rfl, rfl⟩) fun _ => ?_
  exact Prog.always_pure composes_balanced

theorem always_new {type : SocketType} : (TCPSocket.new type).Always (Balanced F) := by
  refine Prog.always_bind composes_balanced (always_sys hF ⟨rfl, rfl⟩) fun _ => ?_
  exact Prog.always_ite (Prog.always_pure composes_balanced) (Prog.always_pure composes_balanced)

theorem always_destroy {s : TCPSocket} : s.destroy.Always (Balanced F) := by
  refine Prog.always_bind composes_balanced (always_closeFd hF) fun _ => ?_
  refine Prog.always_bind composes_balanced (always_closeFd hF) fun _ => ?_
  exact Prog.always_pure composes_balanced

theorem always_scope {type : SocketType}
    {body : TCPSocket → SysM (Except Thrown Unit × TCPSocket)}
    (hbody : ∀ s, (body s).Always (Balanced F)) :
    (TCPSocket.scope type body).Always (Balanced F) := by
  refine Prog.always_bind composes_balanced (always_new hF) fun r => ?_
  cases r with
  | error e => exact Prog.always_pure composes_balanced
  | ok s =>
    refine Prog.always_bind composes_balanced (hbody s) fun p => ?_
    cases p.1 with
    | error e => exact Prog.always_pure composes_balanced
    | ok _ =>
      refine Prog.always_bind composes_balanced (always_destroy hF) fun _ => ?_
      exact Prog.always_pure composes_balanced

theorem always_addReadFd {fd : ℤ} :
    Meth.Always (SelectWrapper.addReadFd fd) (Balanced F) := by
  intro s tr r s' h
  rw [SelectWrapper.trace_addFd h]
  exact plain_bitTrace.balanced hF

theorem always_select {timeoutSec timeoutUsec : ℤ} :
    Meth.Always (SelectWrapper.select timeoutSec timeoutUsec) (Balanced F) := by
  intro s tr r s' h
  obtain ⟨a, rfl, -, -⟩ := SelectWrapper.run_select.mp h
  exact Plain.balanced (by simp [Plain, Sys.leavesBuffer, Sys.receives]) hF

theorem always_isReadable {fd : ℤ} :
    Meth.Always (SelectWrapper.isReadable fd) (Balanced F) := by
  intro s tr r s' h
  obtain ⟨rfl, -, -⟩ := SelectWrapper.run_hasFd.mp h
  exact plain_bitTrace.balanced hF

theorem always_startup : SelectServer.startup.Always (Balanced F) := by
  have hgiveUp : ∀ {α : Type} {r : Except Thrown α},
      (pure r : SysM (Except Thrown α)).Always (Balanced F) :=
    Prog.always_pure composes_balanced
  refine Prog.always_bind composes_balanced (always_sys hF ⟨rfl, rfl⟩) fun serverFd => ?_
  refine Prog.always_ite hgiveUp ?_
  refine Prog.always_bind composes_balanced (always_sys hF ⟨rfl, rfl⟩) fun opt => ?_
  refine Prog.always_ite hgiveUp ?_
  refine Prog.always_bind composes_balanced (always_sys hF ⟨rfl, rfl⟩) fun bound => ?_
  refine Prog.always_ite hgiveUp ?_
  refine Prog.always_bind composes_balanced (always_sys hF ⟨rfl, rfl⟩) fun listening => ?_
  exact Prog.always_ite hgiveUp hgiveUp

end Around

/-! ## 5. The whole programs -/

theorem always_case1Server : case1Server.Always (Balanced RoomOrZero) := by
  refine always_scope judges_roomOrZero fun s => Meth.always_run ?_
  refine Meth.always_bind composes_balanced
    (Meth.always_zoom (always_setSocketOption judges_roomOrZero)) fun _ => ?_
  refine Meth.always_bind composes_balanced
    (Meth.always_zoom (always_bindSocket judges_roomOrZero)) fun _ => ?_
  refine Meth.always_bind composes_balanced (always_listenSocket judges_roomOrZero) fun _ => ?_
  refine Meth.always_bind composes_balanced (always_acceptConnection judges_roomOrZero)
    fun _ => ?_
  exact always_greet

theorem always_watchAndReceive {buffer : Buffer UInt8 bufferSize} {fd : ℤ} :
    Meth.Always (watchAndReceive buffer fd) (Balanced Room) := by
  have hnothing : Meth.Always (pure () : Method SelectWrapper Unit) (Balanced Room) :=
    Meth.always_pure composes_balanced
  refine Meth.always_bind composes_balanced (always_addReadFd judges_room) fun _ => ?_
  refine Meth.always_bind composes_balanced (always_select judges_room) fun result => ?_
  refine Meth.always_ite hnothing (Meth.always_ite ?_ hnothing)
  refine Meth.always_bind composes_balanced (always_isReadable judges_room) fun readable => ?_
  exact Meth.always_ite (Meth.always_liftM always_receiveText) hnothing

theorem always_case3Server {buffer : Buffer UInt8 bufferSize} :
    (case3Server buffer).Always (Balanced Room) := by
  refine always_scope judges_room fun s => ?_
  refine Prog.always_bind composes_balanced (Meth.always_run ?_) fun p =>
    Prog.always_pure composes_balanced
  have hfd : Meth.Always (SelectApp.onSocket (TCPSocket.onBase Socket.getSocketFd))
      (Balanced Room) := Meth.always_zoom (Meth.always_zoom always_getSocketFd)
  refine Meth.always_bind composes_balanced
    (Meth.always_zoom (Meth.always_zoom (always_bindSocket judges_room))) fun _ => ?_
  refine Meth.always_bind composes_balanced hfd fun fd => ?_
  refine Meth.always_bind composes_balanced (Meth.always_zoom always_watchAndReceive)
    fun _ => ?_
  refine Meth.always_bind composes_balanced hfd fun fd => ?_
  refine Meth.always_bind composes_balanced
    (Meth.always_liftM (always_sys judges_room ⟨rfl, rfl⟩)) fun _ => ?_
  exact Meth.always_pure composes_balanced

/-- `case4` and `case5`. -/
theorem always_connectAndSelect {sinAddr : UInt32} {buffer : Buffer UInt8 bufferSize} :
    (connectAndSelect sinAddr buffer).Always (Balanced Room) := by
  have hend : ∀ {n : ℤ}, (pure n : SysM ℤ).Always (Balanced Room) :=
    Prog.always_pure composes_balanced
  have hclose : ∀ {fd n : ℤ}, (do let _ ← sys (.close fd); pure n : SysM ℤ).Always
      (Balanced Room) :=
    Prog.always_bind composes_balanced (always_sys judges_room ⟨rfl, rfl⟩) fun _ => hend
  refine Prog.always_bind composes_balanced (always_sys judges_room ⟨rfl, rfl⟩) fun sockfd => ?_
  refine Prog.always_ite hend ?_
  refine Prog.always_bind composes_balanced (always_sys judges_room ⟨rfl, rfl⟩) fun parsed => ?_
  refine Prog.always_bind composes_balanced (always_sys judges_room ⟨rfl, rfl⟩)
    fun connected => ?_
  refine Prog.always_ite hclose ?_
  exact Prog.always_bind composes_balanced (Meth.always_run always_watchAndReceive)
    fun _ => hclose

/-- An iteration of the multi-client server. -/
theorem balanced_iteration {s s' : SelectServer} {r : Except Thrown Unit}
    (h : Meth.Run SelectServer.iteration s tr r s') : Balanced ReadRoom tr := by
  have hplain : ∀ {e : Ev}, e.1.leavesBuffer = false ∧ e.1.receives = false →
      Balanced ReadRoom [e] := fun he =>
    Plain.balanced (List.forall_mem_singleton.mpr he) judges_readRoom
  refine SelectServer.always_iteration composes_balanced (fun tr hmarks => ?_)
    (fun _ _ _ => hplain ⟨rfl, rfl⟩) (fun _ _ => hplain ⟨rfl, rfl⟩)
    (fun _ _ _ _ _ heffect => balanced_service heffect) s tr r s' h
  refine Plain.balanced (fun e he => ?_) judges_readRoom
  obtain ⟨fd, hfd⟩ := hmarks e he
  rw [hfd]
  exact ⟨rfl, rfl⟩

theorem balanced_loopRun {h : List SelectServer.Pass} {s s' : SelectServer}
    (hl : LoopRun SelectServer.iteration s h s') : Balanced ReadRoom (traceOf h) :=
  composes_balanced.flatMap fun c hc => balanced_iteration (hl.valid c hc)

/-- **When no access leaves a buffer.**  In every run of every program, whatever the peer sends
in whatever pieces, and whatever `recv` and `read` return: the terminators are stored inside
the buffers, and what is printed or measured is terminated inside its buffer, if and only if
all that was received is what the program can cope with. -/
theorem inBuffers_iff {app : App} (h : app.Runs tr) : InBuffers tr ↔ ∀ e ∈ tr, app.Fits e := by
  cases app with
  | case1 =>
    obtain ⟨r, hrun⟩ := h
    exact always_case1Server tr r hrun
  | case3 =>
    obtain ⟨buffer, r, hrun⟩ := h
    exact always_case3Server tr r hrun
  | case4 | case5 =>
    obtain ⟨sinAddr, buffer, r, hrun⟩ := h
    exact always_connectAndSelect tr r hrun
  | multiClient =>
    rcases h with ⟨e, hstart⟩ | ⟨tr₀, s₀, passes, s, hstart, hl, rfl⟩
    · exact always_startup judges_readRoom tr _ hstart
    · exact composes_balanced.append (always_startup judges_readRoom tr₀ _ hstart)
        (balanced_loopRun hl)

/-! ## 6. A block from the server -/

/-- Whatever `recv` answers, the rest of the path can be run. -/
theorem exists_run_receiveText (buffer : Buffer UInt8 bufferSize) (fd : ℤ)
    (a : RecvRet bufferSize) :
    ∃ tr, (receiveText buffer fd).Run (⟨.recv fd bufferSize, a⟩ :: tr) () := by
  obtain ⟨tr, u, hrest⟩ := Prog.exists_run (if a.ret > 0 then do
      let buffer ← storeZero (buffer.write a.data) a.ret
      let received ← cString buffer
      sys (.cout "Received: " received)
    else pure () : SysM Unit)
  exact ⟨tr, Prog.run_perform_bind.mpr ⟨a, tr, rfl, hrest⟩⟩

/-- The descriptor becomes readable, and `recv` gives this answer. -/
theorem exists_run_watchAndReceive (buffer : Buffer UInt8 bufferSize) (fd : ℤ)
    (a : RecvRet bufferSize) :
    ∃ tr p, ((watchAndReceive buffer fd).run.run .new).Run tr p ∧
      ⟨.recv fd bufferSize, a⟩ ∈ tr := by
  obtain ⟨s, hadd, hfd⟩ := SelectWrapper.exists_run_addFd .new .read fd
  obtain ⟨tr, hreceive⟩ := exists_run_receiveText buffer fd a
  obtain ⟨left, hleft⟩ :
      ∃ left : SelectRet (s.fds .read) (s.fds .write) (s.fds .except), 0 < left.ret := by
    refine ⟨.ready (s.fds .read) ∅ ∅ (Finset.Subset.refl _) (Finset.empty_subset _)
      (Finset.empty_subset _), ?_⟩
    have hcard : 0 < (s.fds .read).card := Finset.card_pos.mpr ⟨fd, hfd⟩
    simpa [SelectRet.ret] using hcard
  have hselect : Meth.Run (SelectWrapper.select 5 0) s _ (.ok left.ret) s :=
    SelectWrapper.run_select.mpr ⟨left, rfl, rfl, rfl⟩
  have hasked : Meth.Run (SelectWrapper.isReadable fd) s _ (.ok true) s :=
    SelectWrapper.run_hasFd.mpr ⟨rfl, by rw [decide_eq_true hfd], rfl⟩
  have hpath : Meth.Run (liftM (receiveText buffer fd) : Method SelectWrapper Unit) s _ _ s :=
    Meth.run_liftM.mpr ⟨(), hreceive, rfl, rfl⟩
  refine ⟨bitTrace fd ++ ([_] ++ (bitTrace fd ++ ⟨.recv fd bufferSize, a⟩ :: tr)), (.ok (), s),
    hadd.bind (hselect.bind ?_), ?_⟩
  · rw [if_neg (by omega), if_pos hleft]
    exact hasked.bind hpath
  · simp

/-- A server accepts the connection and sends a block. -/
theorem exists_run_case4Server (sinAddr : UInt32) (buffer : Buffer UInt8 bufferSize)
    (a : RecvRet bufferSize) :
    ∃ tr r, (case4Server sinAddr buffer).Run tr r ∧ ⟨.recv 3 bufferSize, a⟩ ∈ tr := by
  obtain ⟨t, p, hreceive, hmem⟩ := exists_run_watchAndReceive buffer 3 a
  refine ⟨⟨.socket .stream, .fd 3⟩ :: ⟨.inetPton "127.0.0.1", none⟩ ::
    ⟨.connect 3 ⟨afInet, htons 8080, sinAddr⟩, .ok⟩ :: (t ++ [⟨.close 3, .ok⟩]), 0, ?_, by
      simp [hmem]⟩
  refine Prog.run_perform_bind.mpr ⟨.fd 3, _, rfl, ?_⟩
  rw [if_neg (by decide)]
  refine Prog.run_perform_bind.mpr ⟨none, _, rfl, ?_⟩
  refine Prog.run_perform_bind.mpr ⟨.ok, _, rfl, ?_⟩
  rw [if_neg (by decide)]
  refine Prog.run_bind.mpr ⟨p, t, _, rfl, hreceive, ?_⟩
  exact Prog.run_perform_bind.mpr ⟨.ok, [], rfl, Prog.run_pure.mpr ⟨rfl, rfl⟩⟩

/-- A server says `hi`. -/
theorem inBuffers_iff_hi : ∃ tr, App.Runs tr .case4 ∧
    (⟨.recv 3 bufferSize, .received [0x68, 0x69] (by decide)⟩ : Ev) ∈ tr ∧
      (InBuffers tr ↔ ∀ e ∈ tr, App.Fits .case4 e) := by
  obtain ⟨tr, r, hrun, hmem⟩ := exists_run_case4Server 0 (.replicate bufferSize 0)
    (.received [0x68, 0x69] (by decide))
  have hruns : App.Runs tr .case4 := ⟨_, _, _, hrun⟩
  exact ⟨tr, hruns, hmem, inBuffers_iff hruns⟩

/-- A server sends a full block: the terminator is stored one past the end. -/
theorem full_block_overruns : ¬ ∀ app tr, App.Runs tr app → InBuffers tr := by
  intro hall
  obtain ⟨tr, r, hrun, hmem⟩ := exists_run_case4Server 0 (.replicate bufferSize 0)
    (.received (List.replicate bufferSize 1) (List.length_replicate).le)
  have hin : InBuffers tr := hall .case4 tr ⟨_, _, _, hrun⟩
  have hroom : Room _ := (always_connectAndSelect tr r hrun).mp hin _ hmem
  have hlt : (List.replicate bufferSize (1 : UInt8)).length < bufferSize := hroom
  rw [List.length_replicate] at hlt
  exact absurd hlt (Nat.lt_irrefl _)

end InternetProgramming
