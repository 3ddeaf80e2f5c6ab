/-
# The server that closes idle clients: `main.cpp` and its timers

The server of directory 12 gives each client 15 seconds.  Accepting a client starts its timer, data
from it sets the timer anew, and a tick closes the clients whose timer has run out.

`Sessions` says what it is for: which clients are connected, and when each of them will be closed.
`IdleServer` is the program: the table `users`, and the timer list with its pointers.  A `World`
adds what the kernel knows: the descriptors that are open, and the time.

* `Refines` relates them.  It holds as long as every step is `Safe` (`refines_of_safe`), and no
  longer: a step that is not safe ends it (`step_refines_iff`).
* What is not safe: a client that `accept` failed for or that `users` has no place for; a client in
  the second in which all others were active, too; and data from a client in the middle of the list
  if none behind it was active in this second, or from the first one if all others were.
* Data that is not safe stops the server at once, or leaves the timers in a circle.  If the next
  event is then a client in a later second, it is accepted for ever (`unsafe_receive_stops`).
* Stopping the server uses freed memory unless no client is left (`shutdown_iff`).

All of it is about runs in which time does not run backwards (`World.Allowed`).

Not modelled: the set-up before the loop, events without `EPOLLIN`, which do nothing,
`users[fd].address`, which nothing reads, and the texts that are printed without reading a buffer.
-/
import InternetProgramming.Posix
import InternetProgramming.TimerListSpec
import Mathlib.Order.Interval.Finset.Basic
import Mathlib.Data.Int.Interval

namespace InternetProgramming

open Interaction

/-! ## 1. The program -/

/-- `FD_LIMIT` and `TIMESLOT`. -/
def fdLimit : ℤ := 65535
def timeslot : ℤ := 5

/-- More rounds than a list of all clients has nodes. -/
def loopFuel : ℕ := 65536

/-- `SIGALRM` and `SIGTERM`. -/
def sigalrm : UInt8 := 14
def sigterm : UInt8 := 15

/-- `struct client_data`. -/
structure ClientData where
  sockfd : ℤ
  buf : Buffer UInt8 1024
  timer : Option Addr

/-- What `main` keeps while it runs. -/
structure IdleServer where
  users : ℤ → ClientData
  timerLst : TimerList := {}
  timeout : Bool := false
  stopServer : Bool := false

namespace IdleServer

/-- The calls it makes. -/
inductive Effect where
  /-- `epoll_ctl` with `EPOLL_CTL_ADD` or `EPOLL_CTL_DEL`. -/
  | epollAdd (fd : ℤ)
  | epollDel (fd : ℤ)
  | close (fd : ℤ)
  /-- `printf("get %d bytes of client data %s from %d\n", ...)`. -/
  | got (ret : ℤ) (text : Bytes) (sockfd : ℤ)
  | alarm (seconds : ℤ)
deriving DecidableEq

/-- What happens to it: an event, with what the calls answer that it makes then. -/
inductive Input where
  /-- A client at `listenfd`.  The new timer is at the address `timer`. -/
  | accept (newfd : ℤ) (timer : Addr) (now : ℤ)
  /-- Signals in the pipe; none if `recv` failed or found the end. -/
  | signals (sigs : Bytes)
  /-- A client can be read.  `again` is `errno == EAGAIN`, when `recv` failed. -/
  | receive (sockfd : ℤ) (ret : RecvRet 1023) (again : Bool) (cur : ℤ)
  /-- All events of `epoll_wait` have been handled. -/
  | endEvents (cur : ℤ)

/-- `users[fd]`. -/
def user (s : IdleServer) (fd : ℤ) : Except Fault ClientData :=
  if 0 ≤ fd ∧ fd < fdLimit then .ok (s.users fd) else .error .bounds

/-- `users[fd] = data;` -/
def setUser (s : IdleServer) (fd : ℤ) (data : ClientData) : Except Fault IdleServer :=
  if 0 ≤ fd ∧ fd < fdLimit then
    .ok { s with users := Function.update s.users fd data }
  else
    .error .bounds

/-- `cb_func(&users[fd])`. -/
def cbFunc (s : IdleServer) (fd : ℤ) : Except Fault (List Effect) := do
  let user ← s.user fd
  pure [.epollDel user.sockfd, .close user.sockfd]

/-- An event on `listenfd`. -/
def acceptClient (fuel : ℕ) (s : IdleServer) (newfd : ℤ) (timer : Addr) (now : ℤ) :
    Except Fault (List Effect × IdleServer) := do
  let lst := s.timerLst.alloc timer { expire := now + timeslot * 3, userData := newfd }
  let user ← s.user newfd
  let s ← s.setUser newfd { user with sockfd := newfd, timer := some timer }
  let lst ← lst.addTimer fuel (some timer)
  pure ([.epollAdd newfd], { s with timerLst := lst })

/-- The end of a client: `cb_func(&users[sockfd])`, and `del_timer` if there is a timer. -/
def dropClient (s : IdleServer) (sockfd : ℤ) (timer : Option Addr) :
    Except Fault (List Effect × IdleServer) := do
  let effects ← s.cbFunc sockfd
  if timer ≠ none then
    let lst ← s.timerLst.delTimer timer
    pure (effects, { s with timerLst := lst })
  else
    pure (effects, s)

/-- Data from a client: its timer is set anew. -/
def refreshClient (s : IdleServer) (timer : Option Addr) (cur : ℤ) :
    Except Fault (List Effect × IdleServer) :=
  if timer ≠ none then do
    let lst ← s.timerLst.setExpire timer (cur + 3 * timeslot)
    let lst ← lst.adjustTimer loopFuel timer
    pure ([], { s with timerLst := lst })
  else
    pure ([], s)

/-- An event on the descriptor of a client. -/
def receiveData (s : IdleServer) (sockfd : ℤ) (ret : RecvRet 1023) (again : Bool) (cur : ℤ) :
    Except Fault (List Effect × IdleServer) := do
  let user ← s.user sockfd
  let user := { user with buf := (Buffer.replicate 1024 0).write ret.data }
  let s ← s.setUser sockfd user
  let text ← match user.buf.text? with
    | some text => pure text
    | none => throw .bounds
  let (effects, s) ←
    if ret.ret < 0 then
      if again then pure ([], s) else s.dropClient sockfd user.timer
    else if ret.ret = 0 then
      s.dropClient sockfd user.timer
    else
      s.refreshClient user.timer cur
  pure (.got ret.ret text sockfd :: effects, s)

/-- The signals that were written to the pipe. -/
def handleSignals (s : IdleServer) (sigs : Bytes) : IdleServer :=
  { s with
    timeout := s.timeout || sigs.contains sigalrm
    stopServer := s.stopServer || sigs.contains sigterm }

/-- `timer_handler()`. -/
def timerHandler (s : IdleServer) (cur : ℤ) : Except Fault (List Effect × IdleServer) := do
  let (expired, result) := s.timerLst.tick cur loopFuel
  let effects ← expired.mapM s.cbFunc
  let lst ← result
  pure (effects.flatten ++ [.alarm timeslot], { s with timerLst := lst })

/-- One step of the loop in `main`. -/
def step (s : IdleServer) : Input → Except Fault (List Effect × IdleServer)
  | .accept newfd timer now => s.acceptClient loopFuel newfd timer now
  | .signals sigs => pure ([], s.handleSignals sigs)
  | .receive sockfd ret again cur => s.receiveData sockfd ret again cur
  | .endEvents cur =>
    if s.timeout then do
      let (effects, s) ← s.timerHandler cur
      pure (effects, { s with timeout := false })
    else
      pure ([], s)

/-! ## 2. What it is for -/

/-- The connected clients, with the time at which each is to be closed, and whether a tick is
due. -/
structure Sessions where
  timeout : Bool := false
  deadline : ℤ → Option ℤ := fun _ => none

/-- A client that connects or sends something has 15 seconds from then on; one that has closed its
end or whose connection failed is gone; and a tick closes those whose time has come. -/
def Sessions.step (a : Sessions) : Input → Sessions
  | .accept fd _ now => { a with deadline := Function.update a.deadline fd (some (now + 15)) }
  | .signals sigs => { a with timeout := a.timeout || sigs.contains sigalrm }
  | .receive fd ret again cur =>
    if 0 < ret.ret then
      { a with deadline := Function.update a.deadline fd (some (cur + 15)) }
    else if ret.ret < 0 ∧ again then
      a
    else
      { a with deadline := Function.update a.deadline fd none }
  | .endEvents cur =>
    if a.timeout then
      { timeout := false, deadline := fun fd => (a.deadline fd).filter fun e => cur < e }
    else
      a

/-! ## 3. The world around it -/

/-- The server, the descriptors of its clients that are open, and the time. -/
structure World where
  server : IdleServer
  clients : Finset ℤ
  clock : ℤ

/-- What a call means for the descriptors. -/
def Effect.act : Effect → Act ℤ
  | .epollAdd fd => .acquire fd
  | .close fd => .release fd
  | _ => .other

/-- When it happens. -/
def Input.time (clock : ℤ) : Input → ℤ
  | .accept _ _ now => now
  | .signals _ => clock
  | .receive _ _ _ cur => cur
  | .endEvents cur => cur

namespace World

/-- What may happen next: `accept` fails with `-1` or returns a descriptor that is free, and `new`
an address that is; only clients that are open can be read; and time does not run backwards. -/
def Allowed (w : World) : Input → Prop
  | .accept newfd timer now =>
    newfd ∉ w.clients ∧ -1 ≤ newfd ∧ w.server.timerLst.heap timer = none ∧ w.clock ≤ now
  | .signals _ => True
  | .receive sockfd _ _ cur => sockfd ∈ w.clients ∧ w.clock ≤ cur
  | .endEvents cur => w.clock ≤ cur

/-- The world behind a step. -/
def after (w : World) (i : Input) (effects : List Effect) (s : IdleServer) : World where
  server := s
  clients := heldFrom w.clients (effects.map Effect.act)
  clock := i.time w.clock

/-- A step: something happens, and the server deals with it. -/
def Step (w : World) (e : Input × List Effect) (w' : World) : Prop :=
  w.Allowed e.1 ∧ ∃ s, w.server.step e.1 = .ok (e.2, s) ∧ w' = w.after e.1 e.2 s

/-- Before the first event.  The table of clients holds anything. -/
def start (users : ℤ → ClientData) (clock : ℤ) : World := ⟨{ users }, ∅, clock⟩

end World

/-- The timers, as `tick` would meet them. -/
def timers (s : IdleServer) : List (Addr × Timer) :=
  s.timerLst.heap.follow loopFuel s.timerLst.head

/-- What the server can cope with.  `accept` has succeeded, there is a place in `users`, and the
first timer expires earlier than the new one will; and the timer of a client that has sent
something can be moved. -/
def Safe (s : IdleServer) : Input → Prop
  | .accept newfd _ now => 0 ≤ newfd ∧ newfd < fdLimit ∧ ∀ b ∈ s.timers.head?, b.2.expire < now + 15
  | .receive fd ret _ cur => 0 < ret.ret →
    TimerList.Adjustable ⟨cur + 15, fd⟩ (s.timers.takeWhile (·.2.userData ≠ fd))
      (s.timers.dropWhile (·.2.userData ≠ fd)).tail
  | _ => True

end IdleServer

end InternetProgramming
