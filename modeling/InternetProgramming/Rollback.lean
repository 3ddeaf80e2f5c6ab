/-
# What a throwing operation leaves behind

`sendData`, `receiveData` and `listenSocket` test the result of their call and throw with
nothing stored.  The other three operations store first and test afterwards:

* `bindSocket` writes the whole of `m_serverAddr` before `bind` is tried;
* `connectToServer` writes family and port before the address is parsed, and the address
  before `connect` is tried, so a throw can leave HALF of a new endpoint;
* `acceptConnection` writes the result of `accept4`, failure included, over the connection
  the object had.

So a throw keeps descriptors and endpoints exactly when the operation happened to store what
was there already (`TcpCall.AlreadyStored`).  This is settled call by call, for every call of
every history (`throw_keeps_iff`).
-/
import InternetProgramming.SocketSpec

namespace InternetProgramming

open Interaction

/-! ## 1. Endpoints -/

theorem SockaddrIn.eq_iff {a : SockaddrIn} {f p : UInt16} {x : UInt32} :
    ⟨f, p, x⟩ = a ↔ a.sinFamily = f ∧ a.sinPort = p ∧ a.sinAddr = x := by
  cases a
  simp only [SockaddrIn.mk.injEq, eq_comm]

/-! ## 2. `TCPSocket` -/

namespace TcpCall

/-- The call left the descriptors and the stored endpoints as they were. -/
def Keeps (c : TcpCall) : Prop :=
  c.post.base.sockfd = c.pre.base.sockfd ∧ c.post.clientSockfd = c.pre.clientSockfd ∧
    c.post.base.serverAddr = c.pre.base.serverAddr ∧
    c.post.base.clientAddr = c.pre.base.clientAddr

/-- What the operation stores before it can fail is there already. -/
def AlreadyStored (c : TcpCall) : Prop :=
  match c.op with
  | .bindSocket port => c.pre.base.serverAddr = ⟨afInet, htons port, inaddrAny⟩
  | .connectToServer ip port =>
    c.pre.base.serverAddr.sinFamily = afInet ∧ c.pre.base.serverAddr.sinPort = htons port ∧
      ∀ addr, (⟨.inetPton ip, some addr⟩ : Ev) ∈ c.trace → c.pre.base.serverAddr.sinAddr = addr
  | .acceptConnection => c.pre.clientSockfd = -1
  | _ => True

end TcpCall

/-- **A throwing call of a `TCPSocket`.** -/
theorem tcp_throw_keeps_iff {c : TcpCall} (hc : c.Valid TcpOp.exec) (ht : Throws c) :
    c.Keeps ↔ c.AlreadyStored := by
  obtain ⟨pre, op, tr, res, post⟩ := c
  change Meth.Run (TcpOp.exec op) pre tr res post at hc
  cases op with
  | bindSocket port =>
    obtain ⟨r, hm, -⟩ := Meth.run_map.mp hc
    obtain ⟨b, hb, rfl⟩ := TCPSocket.run_onBase.mp hm
    obtain ⟨a, -, -, rfl⟩ := Socket.run_bindSocket.mp hb
    simp [TcpCall.Keeps, TcpCall.AlreadyStored, eq_comm]
  | getSocketFd =>
    obtain ⟨r, hm, -⟩ := Meth.run_map.mp hc
    obtain ⟨b, hb, rfl⟩ := TCPSocket.run_onBase.mp hm
    obtain ⟨-, -, rfl⟩ := Socket.run_getSocketFd.mp hb
    simp [TcpCall.Keeps, TcpCall.AlreadyStored]
  | setSocketOption option value =>
    obtain ⟨r, hm, -⟩ := Meth.run_map.mp hc
    obtain ⟨b, hb, rfl⟩ := TCPSocket.run_onBase.mp hm
    obtain ⟨-, -, -, rfl⟩ := Socket.run_setSocketOption hb
    simp [TcpCall.Keeps, TcpCall.AlreadyStored]
  | connectToServer ip port =>
    obtain ⟨r, hm, -⟩ := Meth.run_map.mp hc
    rcases TCPSocket.run_connectToServer.mp hm with ⟨rfl, -, rfl⟩ | ⟨addr, b, rfl, -, rfl⟩
    · -- the address was not parsed: the stored one stays
      simp [TcpCall.Keeps, TcpCall.AlreadyStored, TCPSocket.withServerAddr, SockaddrIn.eq_iff]
    · simp [TcpCall.Keeps, TcpCall.AlreadyStored, TCPSocket.withServerAddr, SockaddrIn.eq_iff]
  | sendData data =>
    obtain ⟨r, hm, -⟩ := Meth.run_map.mp hc
    obtain ⟨a, -, -, rfl⟩ := TCPSocket.run_sendData.mp hm
    simp [TcpCall.Keeps, TcpCall.AlreadyStored]
  | receiveData n buffer size =>
    obtain ⟨r, hm, -⟩ := Meth.run_map.mp hc
    obtain ⟨rfl, -⟩ := TCPSocket.run_receiveData.mp hm
    simp [TcpCall.Keeps, TcpCall.AlreadyStored]
  | listenSocket backlog =>
    obtain ⟨r, hm, -⟩ := Meth.run_map.mp hc
    obtain ⟨a, -, -, rfl⟩ := TCPSocket.run_listenSocket.mp hm
    simp [TcpCall.Keeps, TcpCall.AlreadyStored]
  | acceptConnection =>
    obtain ⟨r, hm, hres⟩ := Meth.run_map.mp hc
    obtain ⟨a, -, rfl, rfl⟩ := TCPSocket.run_acceptConnection.mp hm
    obtain ⟨e, he⟩ := ht.error hres
    obtain rfl := failed_of_error he
    simp [TcpCall.Keeps, TcpCall.AlreadyStored, AcceptRet.ret, AcceptRet.peer, eq_comm]
  | closeSocket =>
    obtain ⟨r, hm, hres⟩ := Meth.run_map.mp hc
    obtain ⟨_, _, _, _, -, -, -, rfl, -⟩ := TCPSocket.run_closeSocket.mp hm
    obtain ⟨e, he⟩ := ht.error hres
    cases he

/-! ## 3. `UDPSocket` -/

namespace UdpCall

/-- The call left the descriptors and the stored endpoints as they were. -/
def Keeps (c : UdpCall) : Prop :=
  c.post.sockfd = c.pre.sockfd ∧ c.post.base.sockfd = c.pre.base.sockfd ∧
    c.post.base.serverAddr = c.pre.base.serverAddr ∧
    c.post.base.clientAddr = c.pre.base.clientAddr

/-- What the operation stores before it can fail is there already. -/
def AlreadyStored (c : UdpCall) : Prop :=
  match c.op with
  | .bindSocket port => c.pre.base.serverAddr = ⟨afInet, htons port, inaddrAny⟩
  | _ => True

end UdpCall

/-- **A throwing call of a `UDPSocket`.** -/
theorem udp_throw_keeps_iff {c : UdpCall} (hc : c.Valid UdpOp.exec) (ht : Throws c) :
    c.Keeps ↔ c.AlreadyStored := by
  obtain ⟨pre, op, tr, res, post⟩ := c
  change Meth.Run (UdpOp.exec op) pre tr res post at hc
  cases op with
  | bindSocket port =>
    obtain ⟨r, hm, -⟩ := Meth.run_map.mp hc
    obtain ⟨b, hb, rfl⟩ := UDPSocket.run_onBase.mp hm
    obtain ⟨a, -, -, rfl⟩ := Socket.run_bindSocket.mp hb
    simp [UdpCall.Keeps, UdpCall.AlreadyStored, eq_comm]
  | getSocketFd =>
    obtain ⟨r, hm, -⟩ := Meth.run_map.mp hc
    obtain ⟨b, hb, rfl⟩ := UDPSocket.run_onBase.mp hm
    obtain ⟨-, -, rfl⟩ := Socket.run_getSocketFd.mp hb
    simp [UdpCall.Keeps, UdpCall.AlreadyStored]
  | setSocketOption option value =>
    obtain ⟨r, hm, -⟩ := Meth.run_map.mp hc
    obtain ⟨b, hb, rfl⟩ := UDPSocket.run_onBase.mp hm
    obtain ⟨-, -, -, rfl⟩ := Socket.run_setSocketOption hb
    simp [UdpCall.Keeps, UdpCall.AlreadyStored]
  | sendData data =>
    obtain ⟨r, hm, -⟩ := Meth.run_map.mp hc
    obtain ⟨a, -, -, rfl⟩ := UDPSocket.run_sendData.mp hm
    simp [UdpCall.Keeps, UdpCall.AlreadyStored]
  | receiveData n buffer size =>
    obtain ⟨r, hm, hres⟩ := Meth.run_map.mp hc
    rcases UDPSocket.run_receiveData.mp hm with ⟨-, -, rfl⟩ | ⟨_, _, _, _, _, -, -, rfl, -⟩
    · simp [UdpCall.Keeps, UdpCall.AlreadyStored]
    · obtain ⟨e, he⟩ := ht.error hres
      cases he

/-! ## 4. Every run -/

/-- **When a throw keeps the object.**  In every history of an object of either class, a call
that throws leaves descriptors and endpoints as they were exactly when what it stored before
it failed was there already. -/
theorem throw_keeps_iff {ht : List TcpCall} {hu : List UdpCall} {s s' : TCPSocket}
    {u u' : UDPSocket} (htcp : History TcpOp.exec s ht s') (hudp : History UdpOp.exec u hu u') :
    (∀ c ∈ ht, Throws c → (c.Keeps ↔ c.AlreadyStored)) ∧
      (∀ c ∈ hu, Throws c → (c.Keeps ↔ c.AlreadyStored)) := by
  constructor
  · intro c hc hthrows
    exact tcp_throw_keeps_iff (htcp.valid c hc) hthrows
  · intro c hc hthrows
    exact udp_throw_keeps_iff (hudp.valid c hc) hthrows

/-- A server that accepted a connection, when a second `acceptConnection` fails. -/
def acceptThenFail : List TcpCall := [acceptFour, acceptCall acceptFour.post .failed]

theorem history_acceptThenFail : History TcpOp.exec serverThree acceptThenFail
    (acceptCall acceptFour.post .failed).post :=
  ⟨_, ⟨rfl, acceptCall_valid, rfl⟩, _, ⟨rfl, acceptCall_valid, rfl⟩, rfl⟩

/-- A datagram socket whose `bindSocket` fails. -/
def bindFails : UdpCall where
  pre := { base := { type := .server }, sockfd := 3 }
  op := .bindSocket 8888
  trace := [⟨.bind (-1) ⟨afInet, htons 8888, inaddrAny⟩, .failed⟩]
  res := .error (.runtimeError "Bind failed")
  post := {
    base := { type := .server, serverAddr := ⟨afInet, htons 8888, inaddrAny⟩ }
    sockfd := 3 }

theorem history_bindFails : History UdpOp.exec bindFails.pre [bindFails] bindFails.post := by
  refine ⟨_, ⟨rfl, ?_, rfl⟩, rfl⟩
  refine Meth.run_map.mpr ⟨.error (.runtimeError "Bind failed"), ?_, rfl⟩
  exact UDPSocket.run_onBase.mpr ⟨_, Socket.run_bindSocket.mpr ⟨.failed, rfl, rfl, rfl⟩, rfl⟩

/-- The first accepted connection was not the `-1` that the failure stores, and the address of
the new datagram socket was not the one that `bindSocket` stores. -/
theorem throw_keeps_iff_acceptThenFail :
    (∀ c ∈ acceptThenFail, Throws c → (c.Keeps ↔ c.AlreadyStored)) ∧
      (∀ c ∈ [bindFails], Throws c → (c.Keeps ↔ c.AlreadyStored)) :=
  throw_keeps_iff history_acceptThenFail history_bindFails

/-- The failed `acceptConnection` has lost the connection the server was talking to. -/
theorem accept_failure_loses_connection :
    ¬ ((∀ (type : SocketType) (tr : List Ev) (h : List TcpCall) (s s' : TCPSocket),
        (TCPSocket.new type).Run tr (.ok s) → History TcpOp.exec s h s' →
        ∀ c ∈ h, Throws c → c.Keeps) ∧
      (∀ (type : SocketType) (tr : List Ev) (h : List UdpCall) (s s' : UDPSocket),
        (UDPSocket.new type).Run tr (.ok s) → History UdpOp.exec s h s' →
        ∀ c ∈ h, Throws c → c.Keeps)) := by
  intro hall
  have hkeeps := hall.1 .server _ acceptThenFail _ _
    run_new_serverThree history_acceptThenFail
    _ (List.mem_cons_of_mem _ List.mem_cons_self) ⟨_, rfl⟩
  exact absurd hkeeps.2.1 (by decide)

end InternetProgramming
