/-
# Whom a `UDPSocket` server answers

`receiveData` stores the sender of the datagram in `m_clientAddr`, and nothing ever reads it
again.  `sendData` sends to `m_serverAddr`, whatever the role of the socket; on a server that is
the address `bindSocket` was last asked to bind, or zeros.  (`TCPSocket` looks at the role, and a
server of that class does answer its client.)

So the answer goes to the sender in one case only: the sender's address happens to be the one
that the server was to bind, and binding it did not succeed (`answers_iff`).
-/
import InternetProgramming.UdpIdentity

namespace InternetProgramming

open Interaction

/-! ## 1. Senders and bound addresses -/

/-- The sender of the datagram that an entry of the trace received. -/
def sender? : Ev → Option SockaddrIn
  | ⟨.recvfrom _ _, .received _ _ src⟩ => some src
  | _ => none

/-- The sender of the last datagram received. -/
def lastSender (tr : List Ev) : Option SockaddrIn := (tr.filterMap sender?).getLast?

/-- The address that an entry of the trace bound. -/
def boundAddr? : Ev → Option SockaddrIn
  | ⟨.bind _ addr, .ok⟩ => some addr
  | _ => none

/-- The addresses that were bound. -/
def boundAddrs (tr : List Ev) : List SockaddrIn := tr.filterMap boundAddr?

/-- What an operation makes of the address that is to be bound. -/
def UdpOp.toBind (addr : SockaddrIn) : UdpOp → SockaddrIn
  | .bindSocket port => ⟨afInet, htons port, inaddrAny⟩
  | _ => addr

/-- The address that the last `bindSocket` was to bind; zeros if there was none. -/
def lastToBind (ops : List UdpOp) : SockaddrIn := ops.foldl UdpOp.toBind {}

namespace UdpCall

/-- If a datagram was received before this `sendData`, its sender is sent to, and that is not
an address of the server. -/
def Answers (before : List UdpCall) (c : UdpCall) : Prop :=
  ∀ data src, c.op = .sendData data → lastSender (traceOf before) = some src →
    (∃ a, c.trace = [⟨.sendto c.pre.sockfd data src, a⟩]) ∧ src ∉ boundAddrs (traceOf before)

/-- If a datagram was received before this `sendData`, its sender is the address that the
server was to bind and did not. -/
def FromOwnAddress (before : List UdpCall) (c : UdpCall) : Prop :=
  ∀ data src, c.op = .sendData data → lastSender (traceOf before) = some src →
    lastToBind (before.map Call.op) = src ∧ src ∉ boundAddrs (traceOf before)

/-! ## 2. What `sendData` sends to -/

/-- **One call** stores the address that is to be bound, and no other. -/
theorem serverAddr_step {c : UdpCall} (hc : c.Valid UdpOp.exec) :
    c.post.base.serverAddr = c.op.toBind c.pre.base.serverAddr := by
  obtain ⟨pre, op, tr, res, post⟩ := c
  change Meth.Run (UdpOp.exec op) pre tr res post at hc
  cases op with
  | bindSocket port =>
    obtain ⟨r, hm, -⟩ := Meth.run_map.mp hc
    obtain ⟨b, hb, rfl⟩ := UDPSocket.run_onBase.mp hm
    obtain ⟨a, -, -, rfl⟩ := Socket.run_bindSocket.mp hb
    rfl
  | getSocketFd =>
    obtain ⟨r, hm, -⟩ := Meth.run_map.mp hc
    obtain ⟨b, hb, rfl⟩ := UDPSocket.run_onBase.mp hm
    obtain ⟨-, -, rfl⟩ := Socket.run_getSocketFd.mp hb
    rfl
  | setSocketOption option value =>
    obtain ⟨r, hm, -⟩ := Meth.run_map.mp hc
    obtain ⟨b, hb, rfl⟩ := UDPSocket.run_onBase.mp hm
    obtain ⟨-, -, -, rfl⟩ := Socket.run_setSocketOption hb
    rfl
  | sendData data =>
    obtain ⟨r, hm, -⟩ := Meth.run_map.mp hc
    obtain ⟨a, -, -, rfl⟩ := UDPSocket.run_sendData.mp hm
    rfl
  | receiveData n buffer size =>
    obtain ⟨r, hm, -⟩ := Meth.run_map.mp hc
    rcases UDPSocket.run_receiveData.mp hm with ⟨-, -, rfl⟩ | ⟨_, _, _, _, _, -, -, -, rfl⟩
    · rfl
    · rfl

/-- **Every run** ends with the last of them. -/
theorem serverAddr_history {h : List UdpCall} {type : SocketType} {tr₀ : List Ev}
    {s s' : UDPSocket} (hnew : (UDPSocket.new type).Run tr₀ (.ok s))
    (hh : History UdpOp.exec s h s') : s'.base.serverAddr = lastToBind (h.map Call.op) := by
  have hs : s.base.serverAddr = {} := by
    rcases UDPSocket.run_new.mp hnew with ⟨-, hs⟩ | ⟨n, -, hs⟩
    · cases hs
    · rw [Except.ok.inj hs]
  refine History.refines (f := UdpOp.toBind) (R := fun s addr => s.base.serverAddr = addr)
    (P := fun _ => True) (fun c addr hc _ hR => ?_) (fun _ _ => trivial) hs hh
  rw [serverAddr_step hc, hR]

theorem answers_iff_fromOwnAddress {before : List UdpCall} {c : UdpCall}
    (hc : c.Valid UdpOp.exec) (hs : c.pre.base.serverAddr = lastToBind (before.map Call.op)) :
    c.Answers before ↔ c.FromOwnAddress before := by
  refine forall_congr' fun data => forall_congr' fun src => forall_congr' fun hop => ?_
  refine imp_congr_right fun _ => and_congr_left fun _ => ?_
  have hrun : Meth.Run (UdpOp.exec (.sendData data)) c.pre c.trace c.res c.post := hop ▸ hc
  obtain ⟨r, hm, -⟩ := Meth.run_map.mp hrun
  obtain ⟨a, htr, -, -⟩ := UDPSocket.run_sendData.mp hm
  rw [← hs, htr]
  constructor
  · rintro ⟨a', heq⟩
    have hcall := congrArg Sigma.fst (List.head_eq_of_cons_eq heq)
    exact (Sys.sendto.inj hcall).2.2
  · rintro rfl
    exact ⟨a, rfl⟩

end UdpCall

/-! ## 3. Every run -/

/-- **When a server answers whoever asked.**  In every run of a server, each `sendData` after a
received datagram goes to the sender of the last one, and not to an address of the server, if
and only if that sender had the address that the server was last asked to bind, and had not
bound. -/
theorem answers_iff {tr₀ : List Ev} {h : List UdpCall} {s s' : UDPSocket}
    (hnew : (UDPSocket.new .server).Run tr₀ (.ok s)) (hh : History UdpOp.exec s h s') :
    Along (fun before c => UdpCall.Answers before c) h ↔
      Along (fun before c => UdpCall.FromOwnAddress before c) h := by
  have hstep : ∀ before c after, h = before ++ c :: after →
      (UdpCall.Answers before c ↔ UdpCall.FromOwnAddress before c) := by
    rintro before c after rfl
    obtain ⟨hbefore, hc⟩ := hh.before
    exact UdpCall.answers_iff_fromOwnAddress hc (UdpCall.serverAddr_history hnew hbefore)
  constructor
  · intro hall before c after heq
    exact (hstep before c after heq).mp (hall before c after heq)
  · intro hall before c after heq
    exact (hstep before c after heq).mpr (hall before c after heq)

/-- After a `bindSocket` that failed, a datagram from `src`. -/
def askedBy (src : SockaddrIn) : UdpCall where
  pre := bindCall.post
  op := .receiveData 2 (.replicate 2 0) 2
  trace := [⟨.recvfrom 3 2, .received [104, 105] (by decide) src⟩]
  res := .ok (.bytes [104, 105])
  post := { bindCall.post with base.addrLen := sizeofSockaddrIn, base.clientAddr := src }

/-- And the reply. -/
def replyTo (src : SockaddrIn) : UdpCall where
  pre := (askedBy src).post
  op := .sendData [1]
  trace := [⟨.sendto 3 [1] ⟨afInet, htons 6000, inaddrAny⟩, .failed⟩]
  res := .error (.runtimeError "Send failed")
  post := (askedBy src).post

theorem askedBy_valid {src : SockaddrIn} : (askedBy src).Valid UdpOp.exec := by
  refine Meth.run_map.mpr ⟨.ok ((Buffer.replicate 2 0).write [104, 105]), ?_, rfl⟩
  exact UDPSocket.run_receiveData.mpr (Or.inr ⟨[104, 105], by decide, src, [], _, rfl,
    (run_copyIn_of_le (by decide)).mpr ⟨rfl, rfl⟩, rfl, rfl⟩)

theorem replyTo_valid {src : SockaddrIn} : (replyTo src).Valid UdpOp.exec :=
  Meth.run_map.mpr ⟨_, UDPSocket.run_sendData.mpr ⟨.failed, rfl, rfl, rfl⟩, rfl⟩

theorem history_replyTo {src : SockaddrIn} : History UdpOp.exec (udpThree .server)
    [bindCall, askedBy src, replyTo src] (replyTo src).post :=
  ⟨_, ⟨rfl, bindCall_valid, rfl⟩, _, ⟨rfl, askedBy_valid, rfl⟩, _, ⟨rfl, replyTo_valid, rfl⟩, rfl⟩

/-- A sender with the very address that was not bound. -/
theorem answers_iff_ownAddress :
    Along (fun before c => UdpCall.Answers before c)
        [bindCall, askedBy ⟨afInet, htons 6000, inaddrAny⟩,
          replyTo ⟨afInet, htons 6000, inaddrAny⟩] ↔
      Along (fun before c => UdpCall.FromOwnAddress before c)
        [bindCall, askedBy ⟨afInet, htons 6000, inaddrAny⟩,
          replyTo ⟨afInet, htons 6000, inaddrAny⟩] :=
  answers_iff run_new_udpThree history_replyTo

/-- Port 5000 of the host `10.0.0.1` asks, and the reply goes to port 6000 of this one. -/
theorem reply_to_self :
    ¬ ∀ (tr₀ : List Ev) (h : List UdpCall) (s s' : UDPSocket),
      (UDPSocket.new .server).Run tr₀ (.ok s) → History UdpOp.exec s h s' →
        Along (fun before c => UdpCall.Answers before c) h := by
  intro hall
  have hanswers := hall _ _ _ _ run_new_udpThree
    (@history_replyTo ⟨afInet, htons 5000, 0x0100000a⟩)
    [bindCall, askedBy ⟨afInet, htons 5000, 0x0100000a⟩] _ [] rfl
  obtain ⟨⟨a, htr⟩, -⟩ := hanswers [1] _ rfl rfl
  have hcall := congrArg Sigma.fst (List.head_eq_of_cons_eq htr)
  exact absurd (Sys.sendto.inj hcall).2.2 (by decide)

end InternetProgramming
