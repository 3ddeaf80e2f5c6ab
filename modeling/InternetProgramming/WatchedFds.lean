/-
# Sockets and `SelectWrapper` in one program

The values that reach `SelectWrapper` come from the sockets: `getSocketFd` returns the field as
it is, and `acceptConnection` the new descriptor.  The wrapper hands them to the `FD_*` macros
without a look, and these address a bit of a set that has 1024 of them.  So whether a bit
outside the set is touched depends on how the value came about:

* a `TCPSocket` that has been closed returns `-1`, and a `UDPSocket` always does;
* the kernel's own numbers are right up to 1023, and in a process with many descriptors open
  they go on from there.

A program stays inside its sets exactly when it passes none of these (`watched_iff`).
-/
import InternetProgramming.Interaction.Pool
import InternetProgramming.Readiness
import InternetProgramming.UdpIdentity

namespace InternetProgramming

open Interaction

variable {tr : List Ev}

/-! ## 1. Programs -/

/-- Where a value that was returned to the program comes from. -/
inductive Origin where
  /-- `getSocketFd` of a `TCPSocket` that is not closed, and `socket()` had returned `n`. -/
  | opened (n : ℕ)
  /-- `acceptConnection`, and `accept4` had returned `n`. -/
  | accepted (n : ℕ)
  /-- `getSocketFd` of a `TCPSocket` after `closeSocket`. -/
  | closed
  /-- `getSocketFd` of a `UDPSocket`. -/
  | udp
deriving DecidableEq

/-- The value has a bit in an `fd_set`. -/
def Origin.Watchable : Origin → Prop
  | .opened n | .accepted n => n < fdSetsize
  | .closed | .udp => False

/-- A `TCPSocket` of the program.  What `socket()` returned and whether `closeSocket` was
called is recorded for the sake of `Origin`; the code has no such fields. -/
structure TcpObject where
  socket : TCPSocket
  number : ℕ
  closed : Bool

namespace TcpObject

/-- The object after a call of one of its methods. -/
def after (x : TcpObject) (c : TcpCall) : TcpObject where
  socket := c.post
  number := x.number
  closed := match c.op with
    | .closeSocket => true
    | _ => x.closed

/-- What `getSocketFd` returns now. -/
def origin (x : TcpObject) : Origin := if x.closed then .closed else .opened x.number

/-- The value that the program obtains from a call, if it is a descriptor. -/
def obtained (x : TcpObject) (c : TcpCall) : List (ℤ × Origin) :=
  match c.op, c.res, c.trace with
  | .getSocketFd, .ok (.int fd), _ => [(fd, x.origin)]
  | .acceptConnection, .ok (.int fd), [⟨.accept4 _, .accepted n _⟩] => [(fd, .accepted n)]
  | _, _, _ => []

end TcpObject

/-- The value that the program obtains from a call of a `UDPSocket`, if it is a descriptor. -/
def UdpCall.obtained (c : UdpCall) : List (ℤ × Origin) :=
  match c.op, c.res with
  | .getSocketFd, .ok (.int fd) => [(fd, .udp)]
  | _, _ => []

/-- The objects of a program, and the values it has obtained from them. -/
structure World where
  tcp : Pool TcpObject
  udp : Pool UDPSocket
  selectors : Pool SelectWrapper
  values : List (ℤ × Origin)

/-- What a step of a program shows. -/
inductive Move where
  | socket (tr : List Ev)
  | select (c : SelectCall) (passed : Option Origin)

namespace World

/-- `main` starts with nothing. -/
def start : World := ⟨.empty, .empty, .empty, []⟩

/-- A program makes and destroys objects, calls their methods, and passes any of the values
that it has obtained, whenever it likes. -/
inductive Step : World → Move → World → Prop where
  | newTcp {w : World} {type : SocketType} {tr : List Ev} {s : TCPSocket} {n : ℕ} (i : ℕ)
      (free : w.tcp i = none)
      (run : (TCPSocket.new type).Run tr (.ok s)) (number : tr = [⟨.socket .stream, .fd n⟩]) :
      Step w (.socket tr) { w with tcp := w.tcp.put i ⟨s, n, false⟩ }
  | newTcpThrows {w : World} {type : SocketType} {tr : List Ev} {e : Thrown}
      (run : (TCPSocket.new type).Run tr (.error e)) :
      Step w (.socket tr) w
  | newUdp {w : World} {type : SocketType} {tr : List Ev} {s : UDPSocket} (i : ℕ)
      (free : w.udp i = none)
      (run : (UDPSocket.new type).Run tr (.ok s)) :
      Step w (.socket tr) { w with udp := w.udp.put i s }
  | newUdpThrows {w : World} {type : SocketType} {tr : List Ev} {e : Thrown}
      (run : (UDPSocket.new type).Run tr (.error e)) :
      Step w (.socket tr) w
  | newSelector {w : World} (i : ℕ) (free : w.selectors i = none) :
      Step w (.socket []) { w with selectors := w.selectors.put i .new }
  | tcp {w : World} {x : TcpObject} {c : TcpCall} (i : ℕ) (object : w.tcp i = some x)
      (pre : c.pre = x.socket) (valid : c.Valid TcpOp.exec) :
      Step w (.socket c.trace)
        { w with tcp := w.tcp.put i (x.after c), values := x.obtained c ++ w.values }
  | udp {w : World} {c : UdpCall} (i : ℕ) (object : w.udp i = some c.pre)
      (valid : c.Valid UdpOp.exec) :
      Step w (.socket c.trace)
        { w with udp := w.udp.put i c.post, values := c.obtained ++ w.values }
  | destroyTcp {w : World} {x : TcpObject} {tr : List Ev} (i : ℕ) (object : w.tcp i = some x)
      (run : x.socket.destroy.Run tr ()) :
      Step w (.socket tr) { w with tcp := w.tcp.drop i }
  | destroyUdp {w : World} {x : UDPSocket} {tr : List Ev} (i : ℕ) (object : w.udp i = some x)
      (run : x.destroy.Run tr ()) :
      Step w (.socket tr) { w with udp := w.udp.drop i }
  | select {w : World} {c : SelectCall} (i : ℕ) (object : w.selectors i = some c.pre)
      (valid : c.Valid SelectOp.exec) (op : c.op.fd? = none) :
      Step w (.select c none) { w with selectors := w.selectors.put i c.post }
  | pass {w : World} {c : SelectCall} {fd : ℤ} {o : Origin} (i : ℕ)
      (object : w.selectors i = some c.pre)
      (valid : c.Valid SelectOp.exec) (op : c.op.fd? = some fd) (value : (fd, o) ∈ w.values) :
      Step w (.select c (some o)) { w with selectors := w.selectors.put i c.post }

end World

/-! ## 2. What one method does -/

/-- Nothing but `closeSocket` touches the listening descriptor. -/
theorem sockfd_of_not_close {c : TcpCall} (hc : c.Valid TcpOp.exec) (hop : c.op ≠ .closeSocket) :
    c.post.base.sockfd = c.pre.base.sockfd := by
  obtain ⟨pre, op, tr, res, post⟩ := c
  change Meth.Run (TcpOp.exec op) pre tr res post at hc
  cases op with
  | bindSocket port =>
    obtain ⟨_, hm, -⟩ := Meth.run_map.mp hc
    obtain ⟨_, hb, rfl⟩ := TCPSocket.run_onBase.mp hm
    obtain ⟨_, -, -, rfl⟩ := Socket.run_bindSocket.mp hb
    rfl
  | getSocketFd =>
    obtain ⟨_, hm, -⟩ := Meth.run_map.mp hc
    obtain ⟨_, hb, rfl⟩ := TCPSocket.run_onBase.mp hm
    obtain ⟨-, -, rfl⟩ := Socket.run_getSocketFd.mp hb
    rfl
  | setSocketOption option value =>
    obtain ⟨_, hm, -⟩ := Meth.run_map.mp hc
    obtain ⟨_, hb, rfl⟩ := TCPSocket.run_onBase.mp hm
    obtain ⟨-, -, -, rfl⟩ := Socket.run_setSocketOption hb
    rfl
  | connectToServer ip port =>
    obtain ⟨_, hm, -⟩ := Meth.run_map.mp hc
    rcases TCPSocket.run_connectToServer.mp hm with ⟨-, -, rfl⟩ | ⟨_, _, -, -, rfl⟩
    · rfl
    · rfl
  | sendData data =>
    obtain ⟨_, hm, -⟩ := Meth.run_map.mp hc
    obtain ⟨_, -, -, rfl⟩ := TCPSocket.run_sendData.mp hm
    rfl
  | receiveData n buffer size =>
    obtain ⟨_, hm, -⟩ := Meth.run_map.mp hc
    obtain ⟨rfl, -⟩ := TCPSocket.run_receiveData.mp hm
    rfl
  | listenSocket backlog =>
    obtain ⟨_, hm, -⟩ := Meth.run_map.mp hc
    obtain ⟨_, -, -, rfl⟩ := TCPSocket.run_listenSocket.mp hm
    rfl
  | acceptConnection =>
    obtain ⟨_, hm, -⟩ := Meth.run_map.mp hc
    obtain ⟨_, -, -, rfl⟩ := TCPSocket.run_acceptConnection.mp hm
    rfl
  | closeSocket => exact absurd rfl hop

theorem sockfd_of_close {c : TcpCall} (hc : c.Valid TcpOp.exec) (hop : c.op = .closeSocket)
    (hle : -1 ≤ c.pre.base.sockfd) : c.post.base.sockfd = -1 := by
  obtain ⟨pre, op, tr, res, post⟩ := c
  obtain rfl : op = _ := hop
  change Meth.Run (TcpOp.exec _) pre tr res post at hc
  obtain ⟨_, hm, -⟩ := Meth.run_map.mp hc
  obtain ⟨_, _, fd, _, -, hclose, -, -, rfl⟩ := TCPSocket.run_closeSocket.mp hm
  rcases run_closeFd.mp hclose with ⟨hneg, -, hfd⟩ | ⟨-, _, -, hfd⟩
  · change -1 ≤ pre.base.sockfd at hle
    change fd = -1
    omega
  · exact hfd

/-- An operation of `SelectWrapper` touches the bit of the descriptor that it was passed. -/
theorem trace_of_fd {c : SelectCall} (hc : c.Valid SelectOp.exec) {fd : ℤ}
    (hop : c.op.fd? = some fd) : c.trace = bitTrace fd := by
  obtain ⟨pre, op, tr, res, post⟩ := c
  change Meth.Run (SelectOp.exec op) pre tr res post at hc
  cases op with
  | addReadFd fd' | addWriteFd fd' | addExceptFd fd' =>
    obtain rfl := Option.some.inj hop
    obtain ⟨_, hm, -⟩ := Meth.run_map.mp hc
    exact SelectWrapper.trace_addFd hm
  | removeReadFd fd' | removeWriteFd fd' | removeExceptFd fd' =>
    obtain rfl := Option.some.inj hop
    obtain ⟨_, hm, -⟩ := Meth.run_map.mp hc
    exact SelectWrapper.trace_removeFd hm
  | select timeoutSec timeoutUsec => cases hop
  | isReadable fd' | isWritable fd' | hasException fd' =>
    obtain rfl := Option.some.inj hop
    obtain ⟨_, hm, -⟩ := Meth.run_map.mp hc
    exact (SelectWrapper.run_hasFd.mp hm).1

/-- `SelectWrapper::select` touches no bit. -/
theorem inSets_of_no_fd {c : SelectCall} (hc : c.Valid SelectOp.exec) (hop : c.op.fd? = none) :
    InSets c.trace := by
  obtain ⟨pre, op, tr, res, post⟩ := c
  change Meth.Run (SelectOp.exec op) pre tr res post at hc
  cases op with
  | select timeoutSec timeoutUsec =>
    obtain ⟨_, hm, -⟩ := Meth.run_map.mp hc
    obtain ⟨a, rfl, -, -⟩ := SelectWrapper.run_select.mp hm
    simp [InSets]
  | _ => cases hop

/-! ## 3. Where values come from -/

/-- The number that a value of this origin is. -/
def Origin.number : Origin → ℤ
  | .opened n | .accepted n => n
  | .closed | .udp => -1

/-- A value has a bit in an `fd_set` if its origin says so. -/
theorem Origin.inFdSet_number {o : Origin} : InFdSet o.number ↔ o.Watchable := by
  cases o with
  | opened n | accepted n => simp [InFdSet, Origin.number, Origin.Watchable]
  | closed | udp => simp [InFdSet, Origin.number, Origin.Watchable]

/-- The field of a `TCPSocket` is what `getSocketFd` should return. -/
def TcpObject.Sound (x : TcpObject) : Prop := x.socket.base.sockfd = x.origin.number

/-- A `UDPSocket` has its descriptor in a field of its own, and `-1` in the inherited one. -/
def UdpSound (s : UDPSocket) : Prop := ∃ n : ℕ, Shadowed n s

theorem TcpObject.sound_after {x : TcpObject} {c : TcpCall} (hc : c.Valid TcpOp.exec)
    (hpre : c.pre = x.socket) (h : x.Sound) : (x.after c).Sound := by
  by_cases hop : c.op = .closeSocket
  · have hclosed : (x.after c).closed = true := by simp [after, hop]
    have hle : -1 ≤ c.pre.base.sockfd := by
      rw [hpre, h]
      cases x.origin with
      | opened n | accepted n => simp [Origin.number]
      | closed | udp => simp [Origin.number]
    rw [Sound, origin, if_pos hclosed]
    exact sockfd_of_close hc hop hle
  · have hclosed : (x.after c).closed = x.closed := by simp only [after]
    have hsockfd : (x.after c).socket.base.sockfd = x.socket.base.sockfd := by
      rw [← hpre]
      exact sockfd_of_not_close hc hop
    rw [Sound, hsockfd, h, origin, origin, hclosed, after]

theorem getSocketFd_value {c : TcpCall} (hc : c.Valid TcpOp.exec) (hop : c.op = .getSocketFd)
    {fd : ℤ} (hres : c.res = .ok (.int fd)) : fd = c.pre.base.sockfd := by
  obtain ⟨pre, op, tr, res, post⟩ := c
  obtain rfl : op = _ := hop
  obtain rfl : res = _ := hres
  change Meth.Run (TcpOp.exec _) pre tr _ post at hc
  obtain ⟨r, hm, hr⟩ := Meth.run_map.mp hc
  obtain ⟨_, hb, -⟩ := TCPSocket.run_onBase.mp hm
  obtain ⟨-, rfl, -⟩ := Socket.run_getSocketFd.mp hb
  exact Val.int.inj (Except.ok.inj hr)

theorem acceptConnection_value {c : TcpCall} (hc : c.Valid TcpOp.exec)
    (hop : c.op = .acceptConnection) {fd fd' : ℤ} {n : ℕ} {peer : SockaddrIn}
    (hres : c.res = .ok (.int fd)) (htr : c.trace = [⟨.accept4 fd', .accepted n peer⟩]) :
    fd = n := by
  obtain ⟨pre, op, tr, res, post⟩ := c
  obtain rfl : op = _ := hop
  obtain rfl : res = _ := hres
  change Meth.Run (TcpOp.exec _) pre tr _ post at hc
  obtain ⟨r, hm, hr⟩ := Meth.run_map.mp hc
  obtain ⟨a, htr', rfl, -⟩ := TCPSocket.run_acceptConnection.mp hm
  obtain ⟨-, ha⟩ := Sigma.mk.inj (List.head_eq_of_cons_eq (htr'.symm.trans htr))
  obtain rfl := eq_of_heq ha
  exact Val.int.inj (Except.ok.inj hr)

/-- What is obtained from a `TCPSocket` is what its origin says. -/
theorem TcpObject.obtained_eq {x : TcpObject} {c : TcpCall} (hc : c.Valid TcpOp.exec)
    (hpre : c.pre = x.socket) (h : x.Sound) : ∀ p ∈ x.obtained c, p.1 = p.2.number := by
  intro p hp
  unfold obtained at hp
  split at hp
  · rename_i fd hop hres
    obtain rfl := List.mem_singleton.mp hp
    rw [getSocketFd_value hc hop hres, hpre]
    exact h
  · rename_i fd fd' n peer hop hres htr
    obtain rfl := List.mem_singleton.mp hp
    exact acceptConnection_value hc hop hres htr
  · cases hp

/-- What is obtained from a `UDPSocket` is `-1`. -/
theorem UdpCall.obtained_eq {c : UdpCall} (hc : c.Valid UdpOp.exec) (h : UdpSound c.pre) :
    ∀ p ∈ c.obtained, p.1 = p.2.number := by
  obtain ⟨pre, op, tr, res, post⟩ := c
  obtain ⟨n, -, hbase⟩ := h
  change Meth.Run (UdpOp.exec op) pre tr res post at hc
  intro p hp
  unfold obtained at hp
  split at hp
  · rename_i fd hop hres
    obtain rfl : op = _ := hop
    obtain rfl : res = _ := hres
    obtain rfl := List.mem_singleton.mp hp
    obtain ⟨r, hm, hr⟩ := Meth.run_map.mp hc
    obtain ⟨_, hb, -⟩ := UDPSocket.run_onBase.mp hm
    obtain ⟨-, rfl, -⟩ := Socket.run_getSocketFd.mp hb
    exact (Val.int.inj (Except.ok.inj hr)).trans hbase
  · cases hp

namespace World

/-- **The invariant.** -/
structure Sound (w : World) : Prop where
  tcp : w.tcp.All TcpObject.Sound
  udp : w.udp.All UdpSound
  values : ∀ p ∈ w.values, p.1 = p.2.number

theorem sound_start : start.Sound :=
  ⟨Pool.All.empty, Pool.All.empty, fun _ hp => by cases hp⟩

theorem Sound.more {w : World} (h : w.Sound) {new : List (ℤ × Origin)}
    (hnew : ∀ p ∈ new, p.1 = p.2.number) : ∀ p ∈ new ++ w.values, p.1 = p.2.number := by
  intro p hp
  rcases List.mem_append.mp hp with hp | hp
  · exact hnew p hp
  · exact h.values p hp

/-- The operation of `SelectWrapper` stays inside its sets exactly if what it was passed, if
anything, can be watched. -/
def MoveOk : Move → Prop
  | .socket _ => True
  | .select c passed => InSets c.trace ↔ ∀ o, passed = some o → o.Watchable

/-- **One step.** -/
theorem sound_step {w w' : World} {m : Move} (h : w.Sound) (hs : Step w m w') :
    MoveOk m ∧ w'.Sound := by
  cases hs with
  | newTcp i free run number =>
    rcases TCPSocket.run_new.mp run with ⟨-, hs⟩ | ⟨n, htr, hs⟩
    · cases hs
    · obtain rfl := Except.ok.inj hs
      rw [htr] at number
      obtain rfl : n = _ := by simpa using number
      exact ⟨trivial, h.tcp.put rfl, h.udp, h.values⟩
  | newTcpThrows run => exact ⟨trivial, h⟩
  | newUdp i free run =>
    rcases UDPSocket.run_new.mp run with ⟨-, hs⟩ | ⟨n, -, hs⟩
    · cases hs
    · obtain rfl := Except.ok.inj hs
      exact ⟨trivial, h.tcp, h.udp.put ⟨n, rfl, rfl⟩, h.values⟩
  | newUdpThrows run => exact ⟨trivial, h⟩
  | newSelector i free => exact ⟨trivial, h.tcp, h.udp, h.values⟩
  | tcp i object pre valid =>
    have hx := h.tcp i _ object
    exact ⟨trivial, h.tcp.put (TcpObject.sound_after valid pre hx), h.udp,
      h.more (TcpObject.obtained_eq valid pre hx)⟩
  | udp i object valid =>
    have hnew := UdpCall.obtained_eq valid (h.udp i _ object)
    obtain ⟨n, hn⟩ := h.udp i _ object
    exact ⟨trivial, h.tcp, h.udp.put ⟨n, (shadowed_step valid hn).2⟩, h.more hnew⟩
  | destroyTcp i object run => exact ⟨trivial, h.tcp.drop, h.udp, h.values⟩
  | destroyUdp i object run => exact ⟨trivial, h.tcp, h.udp.drop, h.values⟩
  | select i object valid op =>
    refine ⟨?_, h.tcp, h.udp, h.values⟩
    simp [MoveOk, inSets_of_no_fd valid op]
  | @pass c fd o i object valid op value =>
    have hnumber : fd = o.number := h.values _ value
    refine ⟨?_, h.tcp, h.udp, h.values⟩
    simp only [MoveOk, Option.some.injEq, forall_eq']
    rw [trace_of_fd valid op, inSets_bitTrace, hnumber, Origin.inFdSet_number]

/-! ## 4. Every program -/

/-- **When a program stays inside its sets.**  Every `FD_*` macro of every `SelectWrapper`
operation is on an index of its set if and only if no value passed came from a closed
`TCPSocket` or a `UDPSocket`, and none is a number from `FD_SETSIZE` on. -/
theorem watched_iff {ms : List Move} {w : World} (h : Path Step start ms w) :
    (∀ c passed, Move.select c passed ∈ ms → InSets c.trace) ↔
      ∀ c o, Move.select c (some o) ∈ ms → o.Watchable := by
  have hok := Path.forall_mem (I := Sound) (P := MoveOk) (fun _ _ _ hw hs => sound_step hw hs)
    sound_start h
  constructor
  · intro hall c o hmem
    exact (hok _ hmem).mp (hall c _ hmem) o rfl
  · intro hall c passed hmem
    refine (hok _ hmem).mpr fun o ho => ?_
    rw [ho] at hmem
    exact hall c o hmem

/-- `addReadFd` returns, whatever the descriptor. -/
theorem exists_addReadFd (fd : ℤ) : ∃ c : SelectCall, c.pre = .new ∧ c.op = .addReadFd fd ∧
    c.Valid SelectOp.exec := by
  obtain ⟨s, hs, -⟩ := SelectWrapper.exists_run_addFd .new .read fd
  exact ⟨⟨.new, .addReadFd fd, bitTrace fd, .ok .unit, s⟩, rfl, rfl,
    Meth.run_map.mpr ⟨.ok (), hs, rfl⟩⟩

/-- A new socket with descriptor `n`. -/
def socketOf (n : ℕ) : TCPSocket := { base := { type := .server, sockfd := n } }

theorem run_new_socketOf {n : ℕ} :
    (TCPSocket.new .server).Run [⟨.socket .stream, .fd n⟩] (.ok (socketOf n)) :=
  TCPSocket.run_new.mpr (Or.inr ⟨n, rfl, rfl⟩)

/-- `getSocketFd` of it. -/
def askCall (n : ℕ) : TcpCall := ⟨socketOf n, .getSocketFd, [], .ok (.int n), socketOf n⟩

theorem askCall_valid {n : ℕ} : (askCall n).Valid TcpOp.exec :=
  Meth.run_map.mpr ⟨_, TCPSocket.run_onBase.mpr
    ⟨_, Socket.run_getSocketFd.mpr ⟨rfl, rfl, rfl⟩, rfl⟩, rfl⟩

/-- After its first step. -/
def made (n : ℕ) : World := { start with tcp := start.tcp.put 0 ⟨socketOf n, n, false⟩ }

/-- After its second. -/
def asked (n : ℕ) : World :=
  { made n with
    tcp := (made n).tcp.put 0 ⟨socketOf n, n, false⟩
    values := [((n : ℤ), .opened n)] }

/-- After its third. -/
def ready (n : ℕ) : World :=
  { asked n with selectors := (asked n).selectors.put 0 .new }

/-- What the kernel sees of a program. -/
def trace (ms : List Move) : List Ev := ms.flatMap fun
  | .socket tr => tr
  | .select c _ => c.trace

/-- **A program watches a new `TCPSocket`**, whatever the number of its descriptor. -/
theorem exists_watch (n : ℕ) : ∃ (ms : List Move) (w : World) (c : SelectCall),
    Path Step start ms w ∧ .select c (some (.opened n)) ∈ ms ∧ c.trace = bitTrace n ∧
      trace ms = ⟨.socket .stream, .fd n⟩ :: bitTrace n := by
  obtain ⟨c, hpre, hop, hcall⟩ := exists_addReadFd n
  have hmade : Step start (.socket [⟨.socket .stream, .fd n⟩]) (made n) :=
    .newTcp 0 rfl run_new_socketOf rfl
  have hobject : (made n).tcp 0 = some ⟨socketOf n, n, false⟩ := by
    simp [made, Pool.put_self]
  have hasked : Step (made n) (.socket []) (asked n) := .tcp 0 hobject rfl (@askCall_valid n)
  have hready : Step (asked n) (.socket []) (ready n) := .newSelector 0 rfl
  have hselector : (ready n).selectors 0 = some c.pre := by
    simp [ready, Pool.put_self, hpre]
  have hfd : c.op.fd? = some (n : ℤ) := by
    rw [hop, SelectOp.fd?]
  have hvalue : ((n : ℤ), Origin.opened n) ∈ (ready n).values := List.mem_cons_self
  have hpass : Step (ready n) (.select c (some (.opened n))) _ :=
    .pass 0 hselector hcall hfd hvalue
  have htrace := trace_of_fd hcall hfd
  refine ⟨[.socket [⟨.socket .stream, .fd n⟩], .socket [], .socket [], .select c _], _, c,
    ⟨_, hmade, _, hasked, _, hready, _, hpass, rfl⟩, by simp, htrace, ?_⟩
  simp [trace, htrace]

/-- Descriptor 3 is watched. -/
theorem watched_iff_three : ∃ (ms : List Move) (c : SelectCall),
    .select c (some (.opened 3)) ∈ ms ∧
      ((∀ c passed, Move.select c passed ∈ ms → InSets c.trace) ↔
        ∀ c o, Move.select c (some o) ∈ ms → o.Watchable) := by
  obtain ⟨ms, w, c, hpath, hmem, -⟩ := exists_watch 3
  exact ⟨ms, c, hmem, watched_iff hpath⟩

/-- In a process with 1024 open descriptors, the bit behind the set is set. -/
theorem watch_beyond_set :
    ¬ ∀ (ms : List Move) (w : World), Path Step start ms w →
      FreshFrom ∅ ((trace ms).map actOf) → ∀ c passed, Move.select c passed ∈ ms →
        InSets c.trace := by
  intro hall
  obtain ⟨ms, w, c, hpath, hmem, hc, htrace⟩ := exists_watch 1024
  have hacts : (trace ms).map actOf = [.acquire 1024, .other] := by
    rw [htrace]
    simp [bitTrace, InFdSet, fdSetsize, actOf]
  have hfresh : FreshFrom ∅ ((trace ms).map actOf) := by
    rw [hacts]
    refine freshFrom_cons.mpr ⟨fun a _ => Finset.notMem_empty a, freshFrom_cons.mpr ⟨?_, ?_⟩⟩
    · intro a ha
      cases ha
    · exact along_nil
  have hin := hall ms w hpath hfresh c _ hmem
  rw [hc, inSets_bitTrace] at hin
  exact absurd hin.2 (by decide)

end World

end InternetProgramming
