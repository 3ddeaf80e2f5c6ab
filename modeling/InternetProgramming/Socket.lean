/-
# The socket classes: `lib/Socket/include/Socket.h`, `lib/Socket/src/Socket.cpp`

`Socket` is the base class, `TCPSocket` and `UDPSocket` derive from it.  A derived object
holds its base part in the field `base`; an inherited method runs on that part only
(`onBase`), exactly as the C++ one does.  The distinction matters for `UDPSocket`, which
declares an `m_sockfd` of its own: `UDPSocket::m_sockfd` is `u.sockfd` here and
`Socket::m_sockfd` is `u.base.sockfd`, and they are two different fields.

Fields drop the `m_` of the source.  A method that throws has first logged the same text with
`spdlog::error`; the log is not modelled.
-/
import InternetProgramming.Posix

namespace InternetProgramming

open Interaction

/-- `enum SocketType`. -/
inductive SocketType where
  | server
  | client
deriving DecidableEq

/-! ## 1. `Socket` -/

/-- `enum SocketOption`: the bits of the option mask. -/
def optReuseaddr : BitVec 32 := 1 <<< 0
def optKeepalive : BitVec 32 := 1 <<< 1
def optLinger : BitVec 32 := 1 <<< 2
def optRcvbuf : BitVec 32 := 1 <<< 3
def optSndbuf : BitVec 32 := 1 <<< 4
def optReuseport : BitVec 32 := 1 <<< 5

/-- `class Socket`, with its member initialisers. -/
structure Socket where
  type : SocketType
  sockfd : ℤ := -1
  serverAddr : SockaddrIn := {}
  clientAddr : SockaddrIn := {}
  addrLen : ℕ := 0
deriving DecidableEq

/-- `sizeof(struct sockaddr_in)`. -/
def sizeofSockaddrIn : ℕ := 16

namespace Socket

/-- `Socket::bindSocket`. -/
def bindSocket (port : ℤ) : Method Socket Unit := do
  modify fun s =>
    { s with serverAddr :=
        { s.serverAddr with sinFamily := afInet, sinAddr := inaddrAny, sinPort := htons port } }
  let s ← get
  let r ← sys (.bind s.sockfd s.serverAddr)
  if r.ret < 0 then
    throw (.runtimeError "Bind failed")

/-- `Socket::getSocketFd`. -/
def getSocketFd : Method Socket ℤ := do
  let s ← get
  pure s.sockfd

/-- One `if (option & bit) { setsockopt(m_sockfd, SOL_SOCKET, ...); }` of `setSocketOption`.
The result of the call is dropped. -/
def applyOption (option bit : BitVec 32) (optname : ℕ) (optval : OptVal) :
    Method Socket Unit := do
  if option &&& bit ≠ 0 then
    let s ← get
    let _ ← sys (.setsockopt s.sockfd optname optval)

/-- `Socket::setSocketOption`. -/
def setSocketOption (option : BitVec 32) (value : ℤ) : Method Socket Unit := do
  applyOption option optReuseaddr soReuseaddr (.int value)
  applyOption option optReuseport soReuseport (.int value)
  applyOption option optKeepalive soKeepalive (.int value)
  applyOption option optLinger soLinger (.linger 1 value)
  applyOption option optRcvbuf soRcvbuf (.int value)
  applyOption option optSndbuf soSndbuf (.int value)

end Socket

/-- `if (fd >= 0) { close(fd); fd = -1; }`, as the new value of the field. -/
def closeFd (fd : ℤ) : SysM ℤ :=
  if 0 ≤ fd then do
    let _ ← sys (.close fd)
    pure (-1)
  else
    pure fd

/-! ## 2. `TCPSocket` -/

/-- `class TCPSocket`.  It declares its own `m_addrLen`, which hides the one of `Socket`. -/
structure TCPSocket where
  base : Socket
  clientSockfd : ℤ := -1
  addrLen : ℕ := 0
deriving DecidableEq

namespace TCPSocket

/-- An inherited method. -/
def onBase {α : Type} (m : Method Socket α) : Method TCPSocket α :=
  Meth.zoom base (fun b s => { s with base := b }) m

/-- `TCPSocket::TCPSocket`.  A constructor that throws leaves no object. -/
def new (type : SocketType) : SysM (Except Thrown TCPSocket) := do
  let r ← sys (.socket .stream)
  let s : TCPSocket := { base := { type := type, sockfd := r.ret }, clientSockfd := -1 }
  if s.base.sockfd < 0 then
    pure (.error (.runtimeError "Socket creation failed"))
  else
    pure (.ok s)

/-- `TCPSocket::~TCPSocket`. -/
def destroy (s : TCPSocket) : SysM Unit := do
  let _ ← closeFd s.base.sockfd
  let _ ← closeFd s.clientSockfd

/-- `(m_type == Server) ? m_clientSockfd : m_sockfd`. -/
def dataFd (s : TCPSocket) : ℤ :=
  match s.base.type with
  | .server => s.clientSockfd
  | .client => s.base.sockfd

/-- `TCPSocket::connectToServer`. -/
def connectToServer (ip : String) (port : ℤ) : Method TCPSocket Unit := do
  modify fun s =>
    { s with base.serverAddr :=
        { s.base.serverAddr with sinFamily := afInet, sinPort := htons port } }
  match ← sys (.inetPton ip) with
  | none => throw (.runtimeError "Invalid address")
  | some addr =>
    modify fun s => { s with base.serverAddr := { s.base.serverAddr with sinAddr := addr } }
    let s ← get
    let r ← sys (.connect s.base.sockfd s.base.serverAddr)
    if r.ret < 0 then
      throw (.runtimeError "Connect failed")

/-- `TCPSocket::sendData`; `data` is the `size` bytes at the pointer. -/
def sendData (data : Bytes) : Method TCPSocket Unit := do
  let s ← get
  let r ← sys (.send s.dataFd data)
  if r.ret < 0 then
    throw (.runtimeError "Send failed")

/-- `TCPSocket::receiveData`.  The caller's buffer is passed in and handed back. -/
def receiveData {n : ℕ} (buffer : Buffer UInt8 n) (size : ℕ) :
    Method TCPSocket (Buffer UInt8 n) := do
  let s ← get
  let r ← sys (.recv s.dataFd size)
  if r.ret < 0 then
    throw (.runtimeError "Recv failed")
  else
    copyIn buffer r.data

/-- `TCPSocket::listenSocket`. -/
def listenSocket (backlog : ℤ) : Method TCPSocket Unit := do
  let s ← get
  let r ← sys (.listen s.base.sockfd backlog)
  if r.ret < 0 then
    throw (.runtimeError "Listen failed")

/-- `TCPSocket::acceptConnection`. -/
def acceptConnection : Method TCPSocket ℤ := do
  modify fun s => { s with addrLen := sizeofSockaddrIn }
  let s ← get
  let a ← sys (.accept4 s.base.sockfd)
  modify fun s =>
    { s with clientSockfd := a.ret, base.clientAddr := a.peer s.base.clientAddr }
  if a.ret < 0 then
    throw (.runtimeError "Accept failed")
  else
    pure a.ret

/-- `TCPSocket::closeSocket`. -/
def closeSocket : Method TCPSocket Unit := do
  let s ← get
  let sockfd ← closeFd s.base.sockfd
  modify fun s => { s with base.sockfd := sockfd }
  let clientSockfd ← closeFd s.clientSockfd
  modify fun s => { s with clientSockfd := clientSockfd }

end TCPSocket

/-! ## 3. `UDPSocket` -/

/-- `class UDPSocket`, with the `m_sockfd` it declares besides the inherited one. -/
structure UDPSocket where
  base : Socket
  sockfd : ℤ
deriving DecidableEq

namespace UDPSocket

/-- An inherited method. -/
def onBase {α : Type} (m : Method Socket α) : Method UDPSocket α :=
  Meth.zoom base (fun b s => { s with base := b }) m

/-- `UDPSocket::UDPSocket`: the descriptor goes to `UDPSocket::m_sockfd`, and
`Socket::m_sockfd` keeps its initial `-1`. -/
def new (type : SocketType) : SysM (Except Thrown UDPSocket) := do
  let r ← sys (.socket .dgram)
  let s : UDPSocket := { base := { type := type }, sockfd := r.ret }
  if s.sockfd < 0 then
    pure (.error (.runtimeError "Socket creation failed"))
  else
    pure (.ok s)

/-- `UDPSocket::~UDPSocket`. -/
def destroy (s : UDPSocket) : SysM Unit := do
  let _ ← closeFd s.sockfd

/-- `UDPSocket::sendData`. -/
def sendData (data : Bytes) : Method UDPSocket Unit := do
  let s ← get
  let r ← sys (.sendto s.sockfd data s.base.serverAddr)
  if r.ret < 0 then
    throw (.runtimeError "Send failed")

/-- `UDPSocket::receiveData`. -/
def receiveData {n : ℕ} (buffer : Buffer UInt8 n) (size : ℕ) :
    Method UDPSocket (Buffer UInt8 n) := do
  modify fun s => { s with base.addrLen := sizeofSockaddrIn }
  let s ← get
  let r ← sys (.recvfrom s.sockfd size)
  modify fun s => { s with base.clientAddr := r.src s.base.clientAddr }
  if r.ret < 0 then
    throw (.runtimeError "Recv failed")
  else
    copyIn buffer r.data

end UDPSocket

/-! ## 4. The public operations -/

/-- What an operation can return. -/
inductive Val where
  | unit
  | bool (b : Bool)
  | int (n : ℤ)
  | bytes (b : Bytes)
deriving DecidableEq

/-- A call of a public method of `TCPSocket`. -/
inductive TcpOp where
  | bindSocket (port : ℤ)
  | getSocketFd
  | setSocketOption (option : BitVec 32) (value : ℤ)
  | connectToServer (ip : String) (port : ℤ)
  | sendData (data : Bytes)
  | receiveData (n : ℕ) (buffer : Buffer UInt8 n) (size : ℕ)
  | listenSocket (backlog : ℤ)
  | acceptConnection
  | closeSocket

def TcpOp.exec : TcpOp → Method TCPSocket Val
  | .bindSocket port => do TCPSocket.onBase (Socket.bindSocket port); pure .unit
  | .getSocketFd => do pure (.int (← TCPSocket.onBase Socket.getSocketFd))
  | .setSocketOption option value => do
    TCPSocket.onBase (Socket.setSocketOption option value); pure .unit
  | .connectToServer ip port => do TCPSocket.connectToServer ip port; pure .unit
  | .sendData data => do TCPSocket.sendData data; pure .unit
  | .receiveData _ buffer size => do
    pure (.bytes (← TCPSocket.receiveData buffer size).cells)
  | .listenSocket backlog => do TCPSocket.listenSocket backlog; pure .unit
  | .acceptConnection => do pure (.int (← TCPSocket.acceptConnection))
  | .closeSocket => do TCPSocket.closeSocket; pure .unit

/-- A call of a public method of `UDPSocket`. -/
inductive UdpOp where
  | bindSocket (port : ℤ)
  | getSocketFd
  | setSocketOption (option : BitVec 32) (value : ℤ)
  | sendData (data : Bytes)
  | receiveData (n : ℕ) (buffer : Buffer UInt8 n) (size : ℕ)

def UdpOp.exec : UdpOp → Method UDPSocket Val
  | .bindSocket port => do UDPSocket.onBase (Socket.bindSocket port); pure .unit
  | .getSocketFd => do pure (.int (← UDPSocket.onBase Socket.getSocketFd))
  | .setSocketOption option value => do
    UDPSocket.onBase (Socket.setSocketOption option value); pure .unit
  | .sendData data => do UDPSocket.sendData data; pure .unit
  | .receiveData _ buffer size => do
    pure (.bytes (← UDPSocket.receiveData buffer size).cells)

end InternetProgramming
