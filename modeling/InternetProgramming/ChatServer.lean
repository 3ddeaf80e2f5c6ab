/-
# The chat room: `CHAT_SERVER.c`

The server of directory 11 passes on what a client says to all others.  `fds` is what it gives to
`poll`: the listening socket, and behind it the clients, of which there are `user_count`.  What a
client has said stays in its own buffer, and `write_buff` of the others points there until they can
be written to.

A `State` is what `main` keeps, with the place where it is; `turn` is one turn of its `for` loop.  A
`World` is the server with the clients whose descriptors are open, and a `Run` is a sequence of
rounds: `poll`, and then the turns.

Not modelled: the set-up before the loop, `setnonblocking`, the addresses of the clients, which
nothing reads, the text of `info`, and what is printed.
-/
import InternetProgramming.Posix

namespace InternetProgramming.ChatServer

open Interaction

/-! ## 1. The server -/

/-- `USER_LIMIT`, `BUFFER_SIZE` and `FD_LIMIT`. -/
def userLimit : ℕ := 5
def bufferSize : ℕ := 64
def fdLimit : ℤ := 65535

/-- The bits of `events` and `revents`. -/
def pollin : BitVec 16 := 0x0001
def pollout : BitVec 16 := 0x0004
def pollerr : BitVec 16 := 0x0008
def pollhup : BitVec 16 := 0x0010
def pollnval : BitVec 16 := 0x0020
def pollrdhup : BitVec 16 := 0x2000

/-- `struct pollfd`. -/
structure PollFd where
  fd : ℤ
  events : BitVec 16
  revents : BitVec 16
deriving DecidableEq

/-- `fds[i].revents & bit`. -/
def PollFd.has (entry : PollFd) (bit : BitVec 16) : Prop := entry.revents &&& bit ≠ 0

instance (entry : PollFd) (bit : BitVec 16) : Decidable (entry.has bit) :=
  inferInstanceAs (Decidable (_ ≠ _))

/-- `client_data`. -/
structure ClientData where
  /-- Whose `buf` it points to; `none` is `nullptr`. -/
  writeBuff : Option ℤ
  buf : Buffer UInt8 bufferSize

/-- Where `main` is. -/
inductive Control where
  | poll
  /-- In the `for` loop, with this `i`. -/
  | turn (i : ℕ)
  | stopped
deriving DecidableEq

structure State where
  users : ℤ → ClientData
  fds : Buffer PollFd (userLimit + 1)
  userCount : ℕ := 0
  control : Control := .poll

/-- What the calls of a turn answer. -/
structure Answer where
  /-- `accept`. -/
  connfd : ℤ
  /-- `recv`. -/
  ret : RecvRet (bufferSize - 1)
  /-- `errno == EAGAIN`. -/
  again : Bool

/-- What a turn comes to, with the calls it makes. -/
inductive Deed where
  /-- `accept`, which fails. -/
  | missed
  /-- `accept`, `send(connfd, info, ..)` and `close(connfd)`. -/
  | refused (connfd : ℤ)
  /-- `accept` and `setnonblocking(connfd)`. -/
  | came (connfd : ℤ)
  /-- `getsockopt`. -/
  | checked (fd : ℤ)
  /-- `close`.  The data of `last` are stored in the place of those of `fd`. -/
  | left (fd last : ℤ)
  /-- `recv`, which fails, and `close`, with the same. -/
  | failed (fd last : ℤ)
  /-- `recv`, which finds nothing. -/
  | blank (fd : ℤ)
  /-- `recv`. -/
  | heard (fd : ℤ) (data : Bytes)
  /-- `send`. -/
  | sent (fd : ℤ) (text : Bytes)
  /-- No call: there is nothing to be sent. -/
  | quiet (fd : ℤ)
  /-- No call: nothing has happened. -/
  | idle (fd : ℤ)
deriving DecidableEq

namespace State

variable (s : State)

/-- `users[fd]`. -/
def user (fd : ℤ) : Option ClientData :=
  if 0 ≤ fd ∧ fd < fdLimit then some (s.users fd) else none

/-- `users[fd] = data;` -/
def setUser (fd : ℤ) (data : ClientData) : Option State :=
  if 0 ≤ fd ∧ fd < fdLimit then some { s with users := Function.update s.users fd data } else none

/-- `fds[i]`. -/
def entry (i : ℕ) : Option PollFd := s.fds.cells[i]?

/-- `fds[i] = entry;` -/
def setEntry (i : ℕ) (entry : PollFd) : Option State :=
  if i < userLimit + 1 then some { s with fds := s.fds.set i entry } else none

/-- The test of the `for` loop. -/
def goOn (i : ℕ) : State :=
  { s with control := if i < s.userCount + 1 then .turn i else .poll }

/-- An event on the listening socket. -/
def acceptClient (i : ℕ) (connfd : ℤ) : Option (Deed × State) :=
  if connfd < 0 then
    some (.missed, s.goOn (i + 1))
  else if userLimit ≤ s.userCount then
    some (.refused connfd, s.goOn (i + 1))
  else do
    let s := { s with userCount := s.userCount + 1 }
    let _ ← s.user connfd
    let s ← s.setEntry s.userCount ⟨connfd, pollin ||| pollrdhup ||| pollerr, 0⟩
    some (.came connfd, s.goOn (i + 1))

/-- The last client, whose descriptor is given back, takes the place of this one, and the loop stays
there. -/
def dropClient (i : ℕ) : Option (ℤ × State) := do
  let entry ← s.entry i
  let last ← s.entry s.userCount
  let data ← s.user last.fd
  let s ← s.setUser entry.fd data
  let s ← s.setEntry i last
  some (last.fd, { s with userCount := s.userCount - 1 }.goOn i)

/-- The clients `j`, `j + 1`, .., `n` of them, except `connfd`, are to be told what it has said. -/
def tellFrom (connfd : ℤ) : ℕ → ℕ → State → Option State
  | 0, _, s => some s
  | n + 1, j, s => do
    let entry ← s.entry j
    if entry.fd = connfd then
      tellFrom connfd n (j + 1) s
    else
      let s ← s.setEntry j { entry with events := entry.events ||| ~~~pollin ||| pollout }
      let user ← s.user entry.fd
      let s ← s.setUser entry.fd { user with writeBuff := some connfd }
      tellFrom connfd n (j + 1) s

/-- A client can be read. -/
def readClient (i : ℕ) (connfd : ℤ) (ret : RecvRet (bufferSize - 1)) (again : Bool) :
    Option (Deed × State) := do
  let user ← s.user connfd
  let s ← s.setUser connfd { user with buf := (Buffer.replicate bufferSize 0).write ret.data }
  if ret.ret < 0 then
    if again then
      some (.blank connfd, s.goOn (i + 1))
    else
      let (last, s) ← s.dropClient i
      some (.failed connfd last, s)
  else if ret.ret = 0 then
    some (.blank connfd, s.goOn (i + 1))
  else
    let s ← tellFrom connfd s.userCount 1 s
    some (.heard connfd ret.data, s.goOn (i + 1))

/-- A client can be written to. -/
def writeClient (i : ℕ) (entry : PollFd) : Option (Deed × State) := do
  let user ← s.user entry.fd
  match user.writeBuff with
  | none => some (.quiet entry.fd, s.goOn (i + 1))
  | some sender =>
    let data ← s.user sender
    let text ← data.buf.text?
    let s ← s.setUser entry.fd { user with writeBuff := none }
    let s ← s.setEntry i { entry with events := entry.events ||| ~~~pollout ||| pollin }
    some (.sent entry.fd text, s.goOn (i + 1))

/-- One turn of the `for` loop. -/
def turn (sockfd : ℤ) (i : ℕ) (answer : Answer) : Option (Deed × State) := do
  let entry ← s.entry i
  if entry.fd = sockfd ∧ entry.has pollin then
    s.acceptClient i answer.connfd
  else if entry.has pollerr then
    some (.checked entry.fd, s.goOn (i + 1))
  else if entry.has pollrdhup then
    let (last, s) ← s.dropClient i
    some (.left entry.fd last, s)
  else if entry.has pollin then
    s.readClient i entry.fd answer.ret answer.again
  else if entry.has pollout then
    s.writeClient i entry
  else
    some (.idle entry.fd, s.goOn (i + 1))

/-- What `poll` is given: the first `user_count + 1` entries. -/
def table : List PollFd := s.fds.cells.take (s.userCount + 1)

/-- The entries of the clients. -/
def members : List PollFd := s.table.tail

/-- `poll` has stored its answers. -/
def polled (revents : List (BitVec 16)) : State :=
  { s with
    fds := s.fds.write (List.zipWith (fun entry r => { entry with revents := r }) s.table revents)
    control := .turn 0 }

/-- `main` before its loop.  What `new` and the stack give can hold anything. -/
def start (users : ℤ → ClientData) (fds : Buffer PollFd (userLimit + 1)) (sockfd : ℤ) : State where
  users := users
  fds := Buffer.set ⟨fds.cells.map fun entry => { entry with fd := -1, events := 0 },
    by rw [List.length_map, fds.length_eq]⟩ 0 ⟨sockfd, pollin ||| pollerr, 0⟩

end State

/-! ## 2. The world around it -/

/-- What a turn means for the descriptors of clients. -/
def Deed.acts : Deed → List (Act ℤ)
  | .refused connfd => [.acquire connfd, .release connfd]
  | .came connfd => [.acquire connfd]
  | .left fd _ | .failed fd _ => [.release fd]
  | _ => []

/-- The descriptor that `accept` has returned. -/
def Deed.accepted? : Deed → Option ℤ
  | .refused connfd | .came connfd => some connfd
  | _ => none

/-- A call of `poll`, or a turn of the loop at an entry. -/
inductive Label where
  | poll (table : List PollFd)
  | pollFailed
  | turn (entry : PollFd) (deed : Deed)
deriving DecidableEq

/-- The server, and the clients that are connected. -/
structure World where
  server : State
  clients : Finset ℤ := ∅

/-- `poll` reports what it was asked for, and errors. -/
def PollFd.Reports (entry : PollFd) (revents : BitVec 16) : Prop :=
  revents &&& ~~~(entry.events ||| pollerr ||| pollhup ||| pollnval) = 0

instance (entry : PollFd) (revents : BitVec 16) : Decidable (entry.Reports revents) :=
  inferInstanceAs (Decidable (_ = _))

/-- One step.  `accept` returns a descriptor that is not in use. -/
inductive Step (sockfd : ℤ) : World → Label → World → Prop
  | poll (w : World) (revents : List (BitVec 16)) (control : w.server.control = .poll)
      (reports : List.Forall₂ PollFd.Reports w.server.table revents) :
      Step sockfd w (.poll (w.server.polled revents).table)
        { w with server := w.server.polled revents }
  | pollFailed (w : World) (control : w.server.control = .poll) :
      Step sockfd w .pollFailed { w with server := { w.server with control := .stopped } }
  | turn (w : World) (i : ℕ) (entry : PollFd) (answer : Answer) (deed : Deed) (s : State)
      (control : w.server.control = .turn i) (entry_eq : w.server.entry i = some entry)
      (turns : w.server.turn sockfd i answer = some (deed, s))
      (fresh : ∀ fd ∈ deed.accepted?, fd ∉ w.clients ∧ fd ≠ sockfd) :
      Step sockfd w (.turn entry deed) ⟨s, heldFrom w.clients deed.acts⟩

/-- The rounds of the server. -/
abbrev Run (sockfd : ℤ) (users : ℤ → ClientData) (fds : Buffer PollFd (userLimit + 1)) :
    List Label → World → Prop :=
  Path (Step sockfd) { server := State.start users fds sockfd }

/-- What the calls answer in a step. -/
inductive Input where
  | poll (revents : List (BitVec 16))
  | turn (answer : Answer)

/-- The step that these answers lead to. -/
def World.play (sockfd : ℤ) (w : World) : Input → Option (Label × World)
  | .poll revents =>
    if w.server.control = .poll ∧ w.server.table.length = revents.length ∧
        ∀ pair ∈ w.server.table.zip revents, pair.1.Reports pair.2 then
      some (.poll (w.server.polled revents).table, { w with server := w.server.polled revents })
    else
      none
  | .turn answer =>
    match w.server.control with
    | .turn i => do
      let entry ← w.server.entry i
      let (deed, s) ← w.server.turn sockfd i answer
      if ∀ fd ∈ deed.accepted?, fd ∉ w.clients ∧ fd ≠ sockfd then
        some (.turn entry deed, ⟨s, heldFrom w.clients deed.acts⟩)
      else
        none
    | _ => none

/-- The steps that some answers lead to. -/
def World.plays (sockfd : ℤ) (w : World) : List Input → Option (List Label × World)
  | [] => some ([], w)
  | input :: inputs => do
    let (label, w) ← w.play sockfd input
    let (labels, w) ← w.plays sockfd inputs
    some (label :: labels, w)

/-! ## 3. What it is for -/

/-- What a client is to be told: who has said it, and what, unless that is lost. -/
structure Letter where
  sender : ℤ
  text : Option Bytes

/-- The letter that waits for each client. -/
abbrev Room := ℤ → Option Letter

/-- Every other client gets a letter with what has been said, in place of one that it still has.  A
letter is taken away when it is sent.  One whose sender has left may say anything, and one whose
sender was found to have said nothing new is empty. -/
def Room.step (room : Room) : Deed → Room
  | .came fd | .sent fd _ => Function.update room fd none
  | .heard fd data => fun client =>
    if client = fd then room client else some ⟨fd, some (data.takeWhile (· ≠ 0))⟩
  | .left fd _ | .failed fd _ => fun client =>
    (room client).map fun letter => if letter.sender = fd then ⟨fd, none⟩ else letter
  | .blank fd => fun client =>
    (room client).map fun letter => if letter.sender = fd then ⟨fd, some []⟩ else letter
  | _ => room

/-- The room after some steps. -/
def Room.after (labels : List Label) : Room :=
  labels.foldl (fun room label => match label with
    | .turn _ deed => room.step deed
    | _ => room) fun _ => none

/-- The last words in each buffer, as far as any have been said since the server was started. -/
abbrev Words := ℤ → Option Bytes

/-- One who leaves gets the words of another. -/
def Words.step (words : Words) : Deed → Words
  | .heard fd data => Function.update words fd (some (data.takeWhile (· ≠ 0)))
  | .blank fd => Function.update words fd (some [])
  | .left fd last => Function.update words fd (words last)
  | .failed fd last => Function.update words fd (if last = fd then some [] else words last)
  | _ => words

/-- The words after some steps. -/
def Words.after (labels : List Label) : Words :=
  labels.foldl (fun words label => match label with
    | .turn _ deed => words.step deed
    | _ => words) fun _ => none

end InternetProgramming.ChatServer
