/-
# What each method of the socket classes can do

One lemma for each method: the calls it leaves, what it returns or throws, and the fields
afterwards, for every answer of the kernel.  These are equivalences, so nothing about a method
is lost by citing its lemma, and no later module opens a method again.

Section 5 draws the conclusion that the modules on descriptors start from: which descriptors an
operation may name, and which of the descriptor fields it may change.
-/
import InternetProgramming.Socket

namespace InternetProgramming

open Interaction

variable {tr : List Ev}

/-! ## 1. Pieces -/

/-- `close` is issued on a descriptor that is not negative, and the field is reset. -/
theorem run_closeFd {fd fd' : ℤ} :
    (closeFd fd).Run tr fd' ↔
      (fd < 0 ∧ tr = [] ∧ fd' = fd) ∨ (0 ≤ fd ∧ ∃ a, tr = [⟨.close fd, a⟩] ∧ fd' = -1) := by
  unfold closeFd
  by_cases h : 0 ≤ fd
  · simp [h]
  · simp [h, Int.not_le.mp h]

/-- Storing a received block leaves at most the mark of an undefined access. -/
theorem copyIn_quiet {n : ℕ} {buffer buffer' : Buffer UInt8 n} {data : Bytes}
    (h : (copyIn buffer data).Run tr buffer') :
    (∀ e ∈ tr, actOf e = .other ∧ e.1.fd? = none) ∧ buffer' = buffer.write data := by
  obtain ⟨hmarks, hbuffer⟩ := marks_copyIn h
  exact ⟨hmarks.forall_mem (fun _ _ => ⟨rfl, rfl⟩) fun _ => ⟨rfl, rfl⟩, hbuffer⟩

/-! ## 2. `Socket` -/

namespace Socket

variable {s s' : Socket}

theorem run_bindSocket {port : ℤ} {r : Except Thrown Unit} :
    Meth.Run (bindSocket port) s tr r s' ↔
      ∃ a, tr = [⟨.bind s.sockfd ⟨afInet, htons port, inaddrAny⟩, a⟩] ∧
        r = (if a = .failed then .error (.runtimeError "Bind failed") else .ok ()) ∧
        s' = { s with serverAddr := ⟨afInet, htons port, inaddrAny⟩ } := by
  simp [bindSocket]

theorem run_getSocketFd {r : Except Thrown ℤ} :
    Meth.Run getSocketFd s tr r s' ↔ tr = [] ∧ r = .ok s.sockfd ∧ s' = s := by
  simp [getSocketFd]

/-- What one `if (option & bit)` of `setSocketOption` leaves. -/
def OptTrace (fd : ℤ) (option bit : BitVec 32) (optname : ℕ) (optval : OptVal)
    (tr : List Ev) : Prop :=
  if option &&& bit ≠ 0 then ∃ a, tr = [⟨.setsockopt fd optname optval, a⟩] else tr = []

section OptTrace

variable {fd : ℤ} {option bit : BitVec 32} {optname : ℕ} {optval : OptVal}

theorem OptTrace.eq_setsockopt (h : OptTrace fd option bit optname optval tr) :
    ∀ e ∈ tr, ∃ optname optval, e.1 = .setsockopt fd optname optval := by
  unfold OptTrace at h
  split at h
  · obtain ⟨a, rfl⟩ := h
    intro e he
    obtain rfl := List.mem_singleton.mp he
    exact ⟨optname, optval, rfl⟩
  · simp [h]

theorem OptTrace.ne_nil_iff (h : OptTrace fd option bit optname optval tr) :
    tr ≠ [] ↔ option &&& bit ≠ 0 := by
  unfold OptTrace at h
  split at h
  · rename_i hbit
    obtain ⟨a, rfl⟩ := h
    exact ⟨fun _ => hbit, fun _ => by simp⟩
  · rename_i hbit
    exact ⟨fun hn => absurd h hn, fun hn => absurd hn hbit⟩

theorem run_applyOption {r : Except Thrown Unit} :
    Meth.Run (applyOption option bit optname optval) s tr r s' ↔
      OptTrace s.sockfd option bit optname optval tr ∧ r = .ok () ∧ s' = s := by
  unfold applyOption OptTrace
  split <;> simp

theorem run_applyOption_bind {f : Unit → Method Socket Unit} {r : Except Thrown Unit} :
    Meth.Run (applyOption option bit optname optval >>= f) s tr r s' ↔
      ∃ tr₁ tr₂, tr = tr₁ ++ tr₂ ∧ OptTrace s.sockfd option bit optname optval tr₁ ∧
        Meth.Run (f ()) s tr₂ r s' := by
  rw [Meth.run_bind]
  constructor
  · rintro (⟨e, he, -⟩ | ⟨u, s₁, tr₁, tr₂, rfl, h₁, h₂⟩)
    · exact absurd (run_applyOption.mp he).2.1 (by simp)
    · obtain ⟨h, -, rfl⟩ := run_applyOption.mp h₁
      exact ⟨tr₁, tr₂, rfl, h, h₂⟩
  · rintro ⟨tr₁, tr₂, rfl, h₁, h₂⟩
    exact Or.inr ⟨(), s, tr₁, tr₂, rfl, run_applyOption.mpr ⟨h₁, rfl, rfl⟩, h₂⟩

end OptTrace

/-- The option mask names at least one option. -/
def NamesOption (option : BitVec 32) : Prop :=
  option &&& optReuseaddr ≠ 0 ∨ option &&& optReuseport ≠ 0 ∨ option &&& optKeepalive ≠ 0 ∨
    option &&& optLinger ≠ 0 ∨ option &&& optRcvbuf ≠ 0 ∨ option &&& optSndbuf ≠ 0

instance (option : BitVec 32) : Decidable (NamesOption option) := by
  unfold NamesOption; infer_instance

/-- `setSocketOption` calls nothing but `setsockopt`, on `m_sockfd`, and it does call it if
the mask names an option.  Failures are dropped. -/
theorem run_setSocketOption {option : BitVec 32} {value : ℤ} {r : Except Thrown Unit}
    (h : Meth.Run (setSocketOption option value) s tr r s') :
    (∀ e ∈ tr, ∃ optname optval, e.1 = .setsockopt s.sockfd optname optval) ∧
      (tr ≠ [] ↔ NamesOption option) ∧ r = .ok () ∧ s' = s := by
  simp only [setSocketOption, run_applyOption_bind, run_applyOption] at h
  obtain ⟨t₁, _, rfl, h₁, t₂, _, rfl, h₂, t₃, _, rfl, h₃, t₄, _, rfl, h₄, t₅, t₆, rfl, h₅, h₆,
    hr, hs⟩ := h
  refine ⟨?_, ?_, hr, hs⟩
  · intro e he
    simp only [List.mem_append] at he
    rcases he with he | he | he | he | he | he
    · exact h₁.eq_setsockopt e he
    · exact h₂.eq_setsockopt e he
    · exact h₃.eq_setsockopt e he
    · exact h₄.eq_setsockopt e he
    · exact h₅.eq_setsockopt e he
    · exact h₆.eq_setsockopt e he
  · simp only [NamesOption, ← h₁.ne_nil_iff, ← h₂.ne_nil_iff, ← h₃.ne_nil_iff, ← h₄.ne_nil_iff,
      ← h₅.ne_nil_iff, ← h₆.ne_nil_iff, ne_eq, List.append_eq_nil_iff, not_and_or]

end Socket

/-! ## 3. `TCPSocket` -/

namespace TCPSocket

variable {s s' : TCPSocket}

theorem run_onBase {α : Type} {m : Method Socket α} {r : Except Thrown α} :
    Meth.Run (onBase m) s tr r s' ↔ ∃ b, Meth.Run m s.base tr r b ∧ s' = { s with base := b } :=
  Meth.run_zoom

/-- The object with the address `a` stored as the server's. -/
def withServerAddr (s : TCPSocket) (a : SockaddrIn) : TCPSocket := { s with base.serverAddr := a }

/-- Family and port are stored before the address is parsed, and the address before
`connect` is tried.  Each failure keeps what was stored so far. -/
theorem run_connectToServer {ip : String} {port : ℤ} {r : Except Thrown Unit} :
    Meth.Run (connectToServer ip port) s tr r s' ↔
      (tr = [⟨.inetPton ip, none⟩] ∧ r = .error (.runtimeError "Invalid address") ∧
        s' = s.withServerAddr ⟨afInet, htons port, s.base.serverAddr.sinAddr⟩) ∨
      ∃ addr b, tr = [⟨.inetPton ip, some addr⟩,
          ⟨.connect s.base.sockfd ⟨afInet, htons port, addr⟩, b⟩] ∧
        r = (if b = .failed then .error (.runtimeError "Connect failed") else .ok ()) ∧
        s' = s.withServerAddr ⟨afInet, htons port, addr⟩ := by
  simp only [connectToServer, Meth.run_modify_bind, Meth.run_liftM_bind, Prog.run_perform]
  constructor
  · rintro ⟨a, _, tr₂, rfl, rfl, h⟩
    cases a with
    | none =>
      obtain ⟨rfl, rfl, rfl⟩ := Meth.run_throw.mp h
      exact Or.inl ⟨rfl, rfl, rfl⟩
    | some addr =>
      simp only [Meth.run_modify_bind, Meth.run_get_bind, Meth.run_liftM_bind,
        Prog.run_perform, Meth.run_throw_if, Status.ret_neg_iff] at h
      obtain ⟨b, _, _, rfl, rfl, rfl, rfl, rfl⟩ := h
      exact Or.inr ⟨addr, b, rfl, rfl, rfl⟩
  · rintro (⟨rfl, rfl, rfl⟩ | ⟨addr, b, rfl, rfl, rfl⟩)
    · exact ⟨none, _, [], rfl, rfl, Meth.run_throw.mpr ⟨rfl, rfl, rfl⟩⟩
    · refine ⟨some addr, _, [_], rfl, rfl, ?_⟩
      simp [withServerAddr]

theorem run_sendData {data : Bytes} {r : Except Thrown Unit} :
    Meth.Run (sendData data) s tr r s' ↔
      ∃ a, tr = [⟨.send s.dataFd data, a⟩] ∧
        r = (if a = .failed then .error (.runtimeError "Send failed") else .ok ()) ∧
        s' = s := by
  simp only [sendData, Meth.run_get_bind, Meth.run_liftM_bind, Prog.run_perform,
    Meth.run_throw_if, SendRet.ret_neg_iff]
  constructor
  · rintro ⟨a, _, _, rfl, rfl, rfl, rfl, rfl⟩; exact ⟨a, rfl, rfl, rfl⟩
  · rintro ⟨a, rfl, rfl, rfl⟩; exact ⟨a, _, [], rfl, rfl, rfl, rfl, rfl⟩

theorem run_receiveData {n size : ℕ} {buffer : Buffer UInt8 n}
    {r : Except Thrown (Buffer UInt8 n)} :
    Meth.Run (receiveData buffer size) s tr r s' ↔ s' = s ∧
      ((tr = [⟨.recv s.dataFd size, .failed⟩] ∧ r = .error (.runtimeError "Recv failed")) ∨
      ∃ data le tr' buffer', tr = ⟨.recv s.dataFd size, .received data le⟩ :: tr' ∧
        (copyIn buffer data).Run tr' buffer' ∧ r = .ok buffer') := by
  simp only [receiveData, Meth.run_get_bind, Meth.run_liftM_bind, Prog.run_perform,
    Meth.run_ite, Meth.run_throw, Meth.run_liftM]
  constructor
  · rintro ⟨a, _, tr₂, rfl, rfl, h⟩
    cases a with
    | failed =>
      obtain ⟨rfl, rfl, rfl⟩ := (if_pos (by simp)).mp h
      exact ⟨rfl, Or.inl ⟨rfl, rfl⟩⟩
    | received data le =>
      obtain ⟨buffer', hc, rfl, rfl⟩ := (if_neg (by simp)).mp h
      exact ⟨rfl, Or.inr ⟨data, le, tr₂, buffer', rfl, hc, rfl⟩⟩
  · rintro ⟨rfl, ⟨rfl, rfl⟩ | ⟨data, le, tr', buffer', rfl, h, rfl⟩⟩
    · exact ⟨.failed, _, [], rfl, rfl, by simp⟩
    · refine ⟨.received data le, _, tr', rfl, rfl, ?_⟩
      rw [if_neg (by simp)]
      exact ⟨buffer', h, rfl, rfl⟩

theorem run_listenSocket {backlog : ℤ} {r : Except Thrown Unit} :
    Meth.Run (listenSocket backlog) s tr r s' ↔
      ∃ a, tr = [⟨.listen s.base.sockfd backlog, a⟩] ∧
        r = (if a = .failed then .error (.runtimeError "Listen failed") else .ok ()) ∧
        s' = s := by
  simp [listenSocket]

/-- The result of `accept4` goes to `m_clientSockfd` before it is looked at. -/
theorem run_acceptConnection {r : Except Thrown ℤ} :
    Meth.Run acceptConnection s tr r s' ↔
      ∃ a, tr = [⟨.accept4 s.base.sockfd, a⟩] ∧
        r = (if a = .failed then .error (.runtimeError "Accept failed") else .ok a.ret) ∧
        s' = { s with
          base.clientAddr := a.peer s.base.clientAddr,
          clientSockfd := a.ret, addrLen := sizeofSockaddrIn } := by
  simp [acceptConnection]

theorem run_closeSocket {r : Except Thrown Unit} :
    Meth.Run closeSocket s tr r s' ↔
      ∃ tr₁ tr₂ fd₁ fd₂, tr = tr₁ ++ tr₂ ∧ (closeFd s.base.sockfd).Run tr₁ fd₁ ∧
        (closeFd s.clientSockfd).Run tr₂ fd₂ ∧ r = .ok () ∧
        s' = { s with base.sockfd := fd₁, clientSockfd := fd₂ } := by
  simp only [closeSocket, Meth.run_get_bind, Meth.run_liftM_bind, Meth.run_modify_bind,
    Meth.run_modify]
  constructor
  · rintro ⟨fd₁, tr₁, _, rfl, h₁, fd₂, tr₂, _, rfl, h₂, rfl, rfl, rfl⟩
    exact ⟨tr₁, tr₂, fd₁, fd₂, by simp, h₁, h₂, rfl, rfl⟩
  · rintro ⟨tr₁, tr₂, fd₁, fd₂, rfl, h₁, h₂, rfl, rfl⟩
    exact ⟨fd₁, tr₁, tr₂, rfl, h₁, fd₂, tr₂, [], by simp, h₂, rfl, rfl, rfl⟩

theorem run_new {type : SocketType} {r : Except Thrown TCPSocket} :
    (new type).Run tr r ↔
      (tr = [⟨.socket .stream, .failed⟩] ∧
        r = .error (.runtimeError "Socket creation failed")) ∨
      ∃ n : ℕ, tr = [⟨.socket .stream, .fd n⟩] ∧
        r = .ok { base := { type := type, sockfd := n } } := by
  simp only [new, Prog.run_perform_bind]
  constructor
  · rintro ⟨a, tr', rfl, h⟩
    cases a with
    | failed => obtain ⟨rfl, rfl⟩ := Prog.run_pure.mp h; exact Or.inl ⟨rfl, rfl⟩
    | fd n => obtain ⟨rfl, rfl⟩ := Prog.run_pure.mp h; exact Or.inr ⟨n, rfl, rfl⟩
  · rintro (⟨rfl, rfl⟩ | ⟨n, rfl, rfl⟩)
    · exact ⟨.failed, [], rfl, rfl, rfl⟩
    · exact ⟨.fd n, [], rfl, rfl, rfl⟩

theorem run_destroy {u : Unit} :
    (destroy s).Run tr u ↔ ∃ tr₁ tr₂ fd₁ fd₂, tr = tr₁ ++ tr₂ ∧
      (closeFd s.base.sockfd).Run tr₁ fd₁ ∧ (closeFd s.clientSockfd).Run tr₂ fd₂ := by
  simp only [destroy, Prog.run_bind, Prog.run_pure]
  constructor
  · rintro ⟨fd₁, tr₁, _, rfl, h₁, fd₂, tr₂, _, rfl, h₂, rfl, -⟩
    exact ⟨tr₁, tr₂, fd₁, fd₂, by simp, h₁, h₂⟩
  · rintro ⟨tr₁, tr₂, fd₁, fd₂, rfl, h₁, h₂⟩
    exact ⟨fd₁, tr₁, tr₂, rfl, h₁, fd₂, tr₂, [], by simp, h₂, rfl, trivial⟩

end TCPSocket

/-! ## 4. `UDPSocket` -/

namespace UDPSocket

variable {s s' : UDPSocket}

theorem run_onBase {α : Type} {m : Method Socket α} {r : Except Thrown α} :
    Meth.Run (onBase m) s tr r s' ↔ ∃ b, Meth.Run m s.base tr r b ∧ s' = { s with base := b } :=
  Meth.run_zoom

theorem run_sendData {data : Bytes} {r : Except Thrown Unit} :
    Meth.Run (sendData data) s tr r s' ↔
      ∃ a, tr = [⟨.sendto s.sockfd data s.base.serverAddr, a⟩] ∧
        r = (if a = .failed then .error (.runtimeError "Send failed") else .ok ()) ∧
        s' = s := by
  simp only [sendData, Meth.run_get_bind, Meth.run_liftM_bind, Prog.run_perform,
    Meth.run_throw_if, SendRet.ret_neg_iff]
  constructor
  · rintro ⟨a, _, _, rfl, rfl, rfl, rfl, rfl⟩; exact ⟨a, rfl, rfl, rfl⟩
  · rintro ⟨a, rfl, rfl, rfl⟩; exact ⟨a, _, [], rfl, rfl, rfl, rfl, rfl⟩

theorem run_receiveData {n size : ℕ} {buffer : Buffer UInt8 n}
    {r : Except Thrown (Buffer UInt8 n)} :
    Meth.Run (receiveData buffer size) s tr r s' ↔
      (tr = [⟨.recvfrom s.sockfd size, .failed⟩] ∧ r = .error (.runtimeError "Recv failed") ∧
        s' = { s with base.addrLen := sizeofSockaddrIn }) ∨
      ∃ data le src tr' buffer', tr = ⟨.recvfrom s.sockfd size, .received data le src⟩ :: tr' ∧
        (copyIn buffer data).Run tr' buffer' ∧ r = .ok buffer' ∧
        s' = { s with base.addrLen := sizeofSockaddrIn, base.clientAddr := src } := by
  simp only [receiveData, Meth.run_get_bind, Meth.run_liftM_bind, Meth.run_modify_bind,
    Prog.run_perform, Meth.run_ite, Meth.run_throw, Meth.run_liftM]
  constructor
  · rintro ⟨a, _, tr₂, rfl, rfl, h⟩
    cases a with
    | failed =>
      obtain ⟨rfl, rfl, rfl⟩ := (if_pos (by simp)).mp h
      exact Or.inl ⟨rfl, rfl, rfl⟩
    | received data le src =>
      obtain ⟨buffer', hc, rfl, rfl⟩ := (if_neg (by simp)).mp h
      exact Or.inr ⟨data, le, src, tr₂, buffer', rfl, hc, rfl, rfl⟩
  · rintro (⟨rfl, rfl, rfl⟩ | ⟨data, le, src, tr', buffer', rfl, h, rfl, rfl⟩)
    · refine ⟨.failed, _, [], rfl, rfl, ?_⟩
      rw [if_pos (by simp)]
      exact ⟨rfl, rfl, rfl⟩
    · refine ⟨.received data le src, _, tr', rfl, rfl, ?_⟩
      rw [if_neg (by simp)]
      exact ⟨buffer', h, rfl, rfl⟩

theorem run_new {type : SocketType} {r : Except Thrown UDPSocket} :
    (new type).Run tr r ↔
      (tr = [⟨.socket .dgram, .failed⟩] ∧
        r = .error (.runtimeError "Socket creation failed")) ∨
      ∃ n : ℕ, tr = [⟨.socket .dgram, .fd n⟩] ∧
        r = .ok { base := { type := type }, sockfd := n } := by
  simp only [new, Prog.run_perform_bind]
  constructor
  · rintro ⟨a, tr', rfl, h⟩
    cases a with
    | failed => obtain ⟨rfl, rfl⟩ := Prog.run_pure.mp h; exact Or.inl ⟨rfl, rfl⟩
    | fd n => obtain ⟨rfl, rfl⟩ := Prog.run_pure.mp h; exact Or.inr ⟨n, rfl, rfl⟩
  · rintro (⟨rfl, rfl⟩ | ⟨n, rfl, rfl⟩)
    · exact ⟨.failed, [], rfl, rfl, rfl⟩
    · exact ⟨.fd n, [], rfl, rfl, rfl⟩

end UDPSocket

/-- One call of a public method of a `UDPSocket`. -/
abbrev UdpCall := Call UdpOp Sys Sys.Ret Thrown UDPSocket Val

/-! ## 5. What a `TCPSocket` operation does to the two descriptors -/

/-- One call of a public method of a `TCPSocket`. -/
abbrev TcpCall := Call TcpOp Sys Sys.Ret Thrown TCPSocket Val

/-- The trace names no descriptor but the object's own two, and hands none out or back. -/
def TCPSocket.Quiet (s : TCPSocket) (tr : List Ev) : Prop :=
  ∀ e ∈ tr, actOf e = .other ∧
    ∀ fd, e.1.fd? = some fd → fd = s.base.sockfd ∨ fd = s.clientSockfd

/-- What a call does to the descriptors: nothing, unless it is `acceptConnection` or
`closeSocket`. -/
inductive TcpEffect (c : TcpCall) : Prop where
  | quiet (op : c.op ≠ .acceptConnection) (trace : c.pre.Quiet c.trace)
      (sockfd : c.post.base.sockfd = c.pre.base.sockfd)
      (clientSockfd : c.post.clientSockfd = c.pre.clientSockfd)
  | accept (a : AcceptRet) (op : c.op = .acceptConnection)
      (trace : c.trace = [⟨.accept4 c.pre.base.sockfd, a⟩])
      (sockfd : c.post.base.sockfd = c.pre.base.sockfd) (clientSockfd : c.post.clientSockfd = a.ret)
  | close (tr₁ tr₂ : List Ev) (op : c.op ≠ .acceptConnection) (trace : c.trace = tr₁ ++ tr₂)
      (sockfd : (closeFd c.pre.base.sockfd).Run tr₁ c.post.base.sockfd)
      (clientSockfd : (closeFd c.pre.clientSockfd).Run tr₂ c.post.clientSockfd)

theorem TCPSocket.dataFd_eq (s : TCPSocket) :
    s.dataFd = s.base.sockfd ∨ s.dataFd = s.clientSockfd := by
  unfold dataFd
  cases s.base.type with
  | server => exact Or.inr rfl
  | client => exact Or.inl rfl

/-- **The effect of every operation.** -/
theorem tcpEffect {c : TcpCall} (h : c.Valid TcpOp.exec) : TcpEffect c := by
  obtain ⟨pre, op, tr, res, post⟩ := c
  change Meth.Run (TcpOp.exec op) pre tr res post at h
  cases op with
  | bindSocket port =>
    obtain ⟨_, hm, -⟩ := Meth.run_map.mp h
    obtain ⟨_, hb, rfl⟩ := TCPSocket.run_onBase.mp hm
    obtain ⟨a, rfl, -, rfl⟩ := Socket.run_bindSocket.mp hb
    exact .quiet (by simp) (by simp [TCPSocket.Quiet, actOf, Sys.fd?]) rfl rfl
  | getSocketFd =>
    obtain ⟨_, hm, -⟩ := Meth.run_map.mp h
    obtain ⟨_, hb, rfl⟩ := TCPSocket.run_onBase.mp hm
    obtain ⟨rfl, -, rfl⟩ := Socket.run_getSocketFd.mp hb
    exact .quiet (by simp) (by simp [TCPSocket.Quiet]) rfl rfl
  | setSocketOption option value =>
    obtain ⟨_, hm, -⟩ := Meth.run_map.mp h
    obtain ⟨_, hb, rfl⟩ := TCPSocket.run_onBase.mp hm
    obtain ⟨htr, -, -, rfl⟩ := Socket.run_setSocketOption hb
    refine .quiet (by simp) ?_ rfl rfl
    intro e he
    obtain ⟨_, _, hcall⟩ := htr e he
    obtain ⟨i, a⟩ := e
    obtain rfl : i = _ := hcall
    exact ⟨rfl, fun fd hfd => Or.inl (Option.some.inj hfd).symm⟩
  | connectToServer ip port =>
    obtain ⟨_, hm, -⟩ := Meth.run_map.mp h
    rcases TCPSocket.run_connectToServer.mp hm with ⟨rfl, -, rfl⟩ | ⟨addr, b, rfl, -, rfl⟩
    · exact .quiet (by simp) (by simp [TCPSocket.Quiet, actOf, Sys.fd?]) rfl rfl
    · exact .quiet (by simp) (by simp [TCPSocket.Quiet, actOf, Sys.fd?]) rfl rfl
  | sendData data =>
    obtain ⟨_, hm, -⟩ := Meth.run_map.mp h
    obtain ⟨a, rfl, -, rfl⟩ := TCPSocket.run_sendData.mp hm
    have hfd := post.dataFd_eq
    exact .quiet (by simp) (by simpa [TCPSocket.Quiet, actOf, Sys.fd?] using hfd) rfl rfl
  | receiveData n buffer size =>
    obtain ⟨_, hm, -⟩ := Meth.run_map.mp h
    have hfd := pre.dataFd_eq
    obtain ⟨rfl, ⟨rfl, -⟩ | ⟨data, le, tr', buffer', rfl, hc, -⟩⟩ :=
      TCPSocket.run_receiveData.mp hm
    · exact .quiet (by simp) (by simpa [TCPSocket.Quiet, actOf, Sys.fd?] using hfd) rfl rfl
    · refine .quiet (by simp) ?_ rfl rfl
      intro e he
      rcases List.mem_cons.mp he with rfl | he
      · simpa [actOf, Sys.fd?] using hfd
      · obtain ⟨h₁, h₂⟩ := (copyIn_quiet hc).1 e he
        simp [h₁, h₂]
  | listenSocket backlog =>
    obtain ⟨_, hm, -⟩ := Meth.run_map.mp h
    obtain ⟨a, rfl, -, rfl⟩ := TCPSocket.run_listenSocket.mp hm
    exact .quiet (by simp) (by simp [TCPSocket.Quiet, actOf, Sys.fd?]) rfl rfl
  | acceptConnection =>
    obtain ⟨_, hm, -⟩ := Meth.run_map.mp h
    obtain ⟨a, rfl, -, rfl⟩ := TCPSocket.run_acceptConnection.mp hm
    exact .accept a rfl rfl rfl rfl
  | closeSocket =>
    obtain ⟨_, hm, -⟩ := Meth.run_map.mp h
    obtain ⟨tr₁, tr₂, fd₁, fd₂, rfl, h₁, h₂, -, rfl⟩ := TCPSocket.run_closeSocket.mp hm
    exact .close tr₁ tr₂ (by simp) rfl h₁ h₂

/-- `acceptConnection` on `s`, answered by `a`. -/
def acceptCall (s : TCPSocket) (a : AcceptRet) : TcpCall where
  pre := s
  op := .acceptConnection
  trace := [⟨.accept4 s.base.sockfd, a⟩]
  res := if a = .failed then .error (.runtimeError "Accept failed") else .ok (.int a.ret)
  post := { s with
    base.clientAddr := a.peer s.base.clientAddr
    clientSockfd := a.ret
    addrLen := sizeofSockaddrIn }

theorem acceptCall_valid {s : TCPSocket} {a : AcceptRet} : (acceptCall s a).Valid TcpOp.exec := by
  refine Meth.run_map.mpr ⟨_, TCPSocket.run_acceptConnection.mpr ⟨a, rfl, rfl, rfl⟩, ?_⟩
  cases a <;> rfl

/-- A new server with descriptor 3. -/
def serverThree : TCPSocket := { base := { type := .server, sockfd := 3 } }

theorem run_new_serverThree : (TCPSocket.new .server).Run [⟨.socket .stream, .fd 3⟩]
    (.ok serverThree) :=
  TCPSocket.run_new.mpr (Or.inr ⟨3, rfl, rfl⟩)

/-- It accepts a connection with descriptor 4. -/
def acceptFour : TcpCall := acceptCall serverThree (.accepted 4 {})

/-! ## 6. What a trace received -/

/-- The block an entry of the trace received, which is empty at end of stream. -/
def received? : Ev → Option Bytes
  | ⟨.recv _ _, .received data _⟩ => some data
  | _ => none

/-- The blocks received, in order. -/
def receipts (tr : List Ev) : List Bytes := tr.filterMap received?

@[simp] theorem receipts_nil : receipts [] = [] := rfl

@[simp] theorem receipts_cons {e : Ev} :
    receipts (e :: tr) = (received? e).toList ++ receipts tr := by
  unfold receipts
  rw [List.filterMap_cons]
  cases received? e <;> rfl

@[simp] theorem receipts_append {tr₁ tr₂ : List Ev} :
    receipts (tr₁ ++ tr₂) = receipts tr₁ ++ receipts tr₂ :=
  List.filterMap_append

/-! ## 7. Throwing -/

/-- The call ended in an exception. -/
def Throws {Op σ : Type} (c : Call Op Sys Sys.Ret Thrown σ Val) : Prop := ∃ e, c.res = .error e

theorem not_throws_of_ok {Op σ : Type} {c : Call Op Sys Sys.Ret Thrown σ Val} {v : Val}
    (h : c.res = .ok v) : ¬ Throws c := by
  rintro ⟨e, he⟩
  rw [h] at he
  cases he

theorem Throws.error {Op σ α : Type} {c : Call Op Sys Sys.Ret Thrown σ Val} (h : Throws c)
    {r : Except Thrown α} {g : α → Val} (hr : c.res = r.map g) : ∃ e, r = .error e := by
  obtain ⟨e, he⟩ := h
  cases r with
  | error e' => exact ⟨e', rfl⟩
  | ok a => rw [hr] at he; cases he

/-- A check that threw is a check that failed. -/
theorem failed_of_error {α : Type} {p : Prop} [Decidable p] {e e' : Thrown} {a : α}
    (h : (if p then .error e else .ok a : Except Thrown α) = .error e') : p := by
  by_contra hp
  rw [if_neg hp] at h
  cases h

/-- A call that ends in a check throws exactly if the check failed. -/
theorem throws_iff_of_check {Op σ α : Type} {c : Call Op Sys Sys.Ret Thrown σ Val} {p : Prop}
    [Decidable p] {e : Thrown} {a : α} {g : α → Val}
    (hr : c.res = (if p then .error e else .ok a : Except Thrown α).map g) : Throws c ↔ p := by
  constructor
  · intro h
    obtain ⟨e', he⟩ := h.error hr
    exact failed_of_error he
  · intro hp
    rw [if_pos hp] at hr
    exact ⟨e, hr⟩

end InternetProgramming
