/-
# Level- and edge-triggered reading: `CODELIST9-3`

The two programs of directory 10 differ in the function that `main` calls for the events of a
round: `lt` reads once from each connection that is reported, `et` reads until there is nothing
left.  Each registers its connections accordingly.  Both register `listenfd` with `EPOLLET`, and
accept one connection for each report.

`Control` is where the server is between two calls, and `resume` is what it does with the answer.
`Kernel` is the other side: the connections with their bytes, and what is still to be reported.  A
`World` is both, and peers may connect, send and finish between any two calls.

Not modelled: the set-up before the loop, `setnonblocking` (every socket is non-blocking), and
what is printed (fixed texts, and each block that is received).
-/
import InternetProgramming.Posix

namespace InternetProgramming

open Interaction

/-- Which of the functions `lt` and `et` is called. -/
inductive Trigger where
  | level
  | edge
deriving DecidableEq

namespace EpollServer

/-- `BUFFER_SIZE`. -/
def bufferSize : ℕ := 10

/-- `epoll_event`: the descriptor, and whether `EPOLLIN` is set. -/
structure EpollEvent where
  fd : ℤ
  readable : Bool
deriving DecidableEq

/-! ## 1. The server -/

/-- The calls it makes. -/
inductive Call where
  | wait
  | accept
  | addfd (fd : ℤ)
  | recv (fd : ℤ)
  | close (fd : ℤ)
deriving DecidableEq

inductive Answer where
  | events (events : List EpollEvent)
  | fd (n : ℕ)
  /-- No bytes at all mean end of stream. -/
  | received (data : Bytes)
  /-- `EAGAIN`. -/
  | again
  | done
  | failed
deriving DecidableEq

/-- Where the server is, with the events that are left of this round. -/
inductive Control where
  /-- `epoll_wait`. -/
  | wait
  | accept (rest : List EpollEvent)
  | addfd (connfd : ℤ) (rest : List EpollEvent)
  | recv (sockfd : ℤ) (rest : List EpollEvent)
  /-- `close(sockfd)`, inside `while(1)` or as its last call. -/
  | close (sockfd : ℤ) (loop : Bool) (rest : List EpollEvent)
  /-- The loop in `main` was left. -/
  | stopped
deriving DecidableEq

/-- The call that comes next. -/
def Control.call : Control → Option Call
  | .wait => some .wait
  | .accept _ => some .accept
  | .addfd connfd _ => some (.addfd connfd)
  | .recv sockfd _ => some (.recv sockfd)
  | .close sockfd _ _ => some (.close sockfd)
  | .stopped => none

/-- The `for` loop of `lt` and `et`, up to its next call. -/
def forLoop (listenfd : ℤ) : List EpollEvent → Control
  | [] => .wait
  | event :: rest =>
    if event.fd = listenfd then
      .accept rest
    else if event.readable then
      .recv event.fd rest
    else
      forLoop listenfd rest

/-- What is done with the answer.  `et` stays in `while(1)` until there is nothing left to read, and
so it does behind the end of a connection; for `lt` no bytes and `EAGAIN` are the same. -/
def resume (trigger : Trigger) (listenfd : ℤ) : Control → Answer → Option Control
  | .wait, .events events => some (forLoop listenfd events)
  | .wait, .failed => some .stopped
  | .accept rest, .fd n => some (.addfd n rest)
  | .accept rest, .failed => some (.addfd (-1) rest)
  | .addfd _ rest, _ => some (forLoop listenfd rest)
  | .recv sockfd rest, .received data =>
    some (if data = [] then .close sockfd (trigger = .edge) rest
      else if trigger = .edge then .recv sockfd rest
      else forLoop listenfd rest)
  | .recv sockfd rest, .again =>
    some (if trigger = .edge then forLoop listenfd rest else .close sockfd false rest)
  | .recv sockfd rest, .failed => some (.close sockfd false rest)
  | .close sockfd loop rest, _ =>
    some (if loop then .recv sockfd rest else forLoop listenfd rest)
  | _, _ => none

/-! ## 2. The kernel -/

/-- A connection. -/
structure Conn where
  /-- What the server has read of it. -/
  got : Bytes := []
  /-- What it has not read yet. -/
  unread : Bytes := []
  /-- The peer has finished sending. -/
  fin : Bool := false
  /-- Something has happened that is still to be reported. -/
  armed : Bool := false

/-- There is something to read, be it the end. -/
def Conn.Ready (c : Conn) : Prop := c.unread ≠ [] ∨ c.fin = true

instance (c : Conn) : Decidable c.Ready := inferInstanceAs (Decidable (_ ∨ _))

structure Kernel where
  /-- The connections, in the order of their arrival. -/
  conns : ℕ → Conn := fun _ => {}
  arrived : ℕ := 0
  accepted : ℕ := 0
  /-- A connection has arrived since `listenfd` was last reported. -/
  listenArmed : Bool := false
  /-- The connections behind the descriptors that are open. -/
  fds : ℤ → Option ℕ := fun _ => none
  /-- The descriptors that `epoll` watches. -/
  watched : Finset ℤ := ∅

namespace Kernel

def setConn (k : Kernel) (id : ℕ) (c : Conn) : Kernel :=
  { k with conns := Function.update k.conns id c }

/-- A peer connects. -/
def connect (k : Kernel) : Kernel := { k with arrived := k.arrived + 1, listenArmed := true }

/-- Bytes arrive. -/
def send (k : Kernel) (id : ℕ) (data : Bytes) : Kernel :=
  let c := k.conns id
  k.setConn id { c with unread := c.unread ++ data, armed := true }

/-- A peer finishes sending. -/
def finish (k : Kernel) (id : ℕ) : Kernel :=
  k.setConn id { k.conns id with fin := true, armed := true }

/-- `accept`. -/
def accept (k : Kernel) (n : ℤ) : Kernel :=
  { k with fds := Function.update k.fds n (some k.accepted), accepted := k.accepted + 1 }

/-- `EPOLL_CTL_ADD` reports what is there already. -/
def watch (k : Kernel) (fd : ℤ) (id : ℕ) : Kernel :=
  { k.setConn id { k.conns id with armed := decide (k.conns id).Ready } with
    watched := insert fd k.watched }

/-- Bytes are read. -/
def take (k : Kernel) (id : ℕ) (data more : Bytes) : Kernel :=
  k.setConn id { k.conns id with got := (k.conns id).got ++ data, unread := more }

/-- `close`. -/
def drop (k : Kernel) (fd : ℤ) : Kernel :=
  { k with fds := Function.update k.fds fd none, watched := k.watched.erase fd }

/-- How many connections wait for `accept`. -/
def waiting (k : Kernel) : ℕ := k.arrived - k.accepted

/-- The event can be reported. -/
def Reports (trigger : Trigger) (listenfd : ℤ) (k : Kernel) (event : EpollEvent) : Prop :=
  if event.fd = listenfd then
    k.listenArmed = true
  else
    event.fd ∈ k.watched ∧ ∃ id, k.fds event.fd = some id ∧
      (match trigger with
        | .level => (k.conns id).Ready
        | .edge => (k.conns id).armed = true) ∧
      ((k.conns id).Ready → event.readable = true)

/-- These connections have been reported. -/
def report (listenfd : ℤ) (k : Kernel) (events : List EpollEvent) : Kernel :=
  { k with
    listenArmed := k.listenArmed && decide (listenfd ∉ events.map EpollEvent.fd)
    conns := fun id =>
      if ∃ fd ∈ events.map EpollEvent.fd, k.fds fd = some id then
        { k.conns id with armed := false }
      else
        k.conns id }

/-- What the kernel can answer, and how it goes on. -/
inductive Answers (trigger : Trigger) (listenfd : ℤ) (k : Kernel) : Call → Answer → Kernel → Prop
  | events (events : List EpollEvent) (ne : events ≠ [])
      (nodup : (events.map EpollEvent.fd).Nodup)
      (ready : ∀ event ∈ events, k.Reports trigger listenfd event) :
      Answers trigger listenfd k .wait (.events events) (k.report listenfd events)
  | waitFailed : Answers trigger listenfd k .wait .failed k
  | accepted (n : ℕ) (waiting : k.accepted < k.arrived) (fresh : k.fds n = none)
      (other : (n : ℤ) ≠ listenfd) :
      Answers trigger listenfd k .accept (.fd n) (k.accept n)
  | acceptFailed : Answers trigger listenfd k .accept .failed k
  | added (fd : ℤ) (id : ℕ) (isOpen : k.fds fd = some id) :
      Answers trigger listenfd k (.addfd fd) .done (k.watch fd id)
  | addFailed (fd : ℤ) : Answers trigger listenfd k (.addfd fd) .failed k
  | received (fd : ℤ) (id : ℕ) (data more : Bytes) (isOpen : k.fds fd = some id)
      (ne : data ≠ []) (le : data.length ≤ bufferSize - 1)
      (unread : (k.conns id).unread = data ++ more) :
      Answers trigger listenfd k (.recv fd) (.received data) (k.take id data more)
  | ended (fd : ℤ) (id : ℕ) (isOpen : k.fds fd = some id) (unread : (k.conns id).unread = [])
      (fin : (k.conns id).fin = true) : Answers trigger listenfd k (.recv fd) (.received []) k
  | again (fd : ℤ) (id : ℕ) (isOpen : k.fds fd = some id) (idle : ¬ (k.conns id).Ready) :
      Answers trigger listenfd k (.recv fd) .again k
  | recvFailed (fd : ℤ) : Answers trigger listenfd k (.recv fd) .failed k
  | closed (fd : ℤ) (isOpen : (k.fds fd).isSome) :
      Answers trigger listenfd k (.close fd) .done (k.drop fd)
  | closeFailed (fd : ℤ) (isClosed : k.fds fd = none) :
      Answers trigger listenfd k (.close fd) .failed k

end Kernel

/-! ## 3. The world -/

/-- What can happen. -/
inductive Label where
  /-- A peer connects.  `crowded` says that an earlier one has not been reported yet. -/
  | connect (crowded : Bool)
  | send (id : ℕ) (data : Bytes)
  | finish (id : ℕ)
  /-- The server makes a call. -/
  | call (call : Call) (answer : Answer)
deriving DecidableEq

structure World where
  kernel : Kernel := {}
  control : Control := .wait

/-- One step of the world. -/
inductive Step (trigger : Trigger) (listenfd : ℤ) : World → Label → World → Prop
  | connect (w : World) : Step trigger listenfd w (.connect w.kernel.listenArmed)
      { w with kernel := w.kernel.connect }
  | send (w : World) (id : ℕ) (data : Bytes) (arrived : id < w.kernel.arrived)
      (ne : data ≠ []) (isOpen : (w.kernel.conns id).fin = false) :
      Step trigger listenfd w (.send id data) { w with kernel := w.kernel.send id data }
  | finish (w : World) (id : ℕ) (arrived : id < w.kernel.arrived) :
      Step trigger listenfd w (.finish id) { w with kernel := w.kernel.finish id }
  | call (w : World) (call : Call) (answer : Answer) (k : Kernel) (control : Control)
      (calls : w.control.call = some call)
      (answers : w.kernel.Answers trigger listenfd call answer k)
      (resumes : resume trigger listenfd w.control answer = some control) :
      Step trigger listenfd w (.call call answer) ⟨k, control⟩

/-- A run of the server, with everything that happens meanwhile. -/
abbrev Run (trigger : Trigger) (listenfd : ℤ) : List Label → World → Prop :=
  Path (Step trigger listenfd) {}

end EpollServer

end InternetProgramming
