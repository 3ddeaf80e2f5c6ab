/-
# Which socket is a `UDPSocket`?

`UDPSocket` declares an `m_sockfd` although it inherits one.  Its constructor, `sendData`,
`receiveData` and the destructor mean the declared one; `bindSocket`, `setSocketOption` and
`getSocketFd` are `Socket`'s and mean the inherited one, which nothing ever sets.  So the
object presents two descriptors to its callers, the one the kernel gave it and `-1`, and it
is one socket exactly as long as nobody calls an inherited method that has an effect
(`udp_one_socket_iff`).
-/
import InternetProgramming.SocketSpec

namespace InternetProgramming

open Interaction

/-! ## 1. The two fields -/

/-- The operation speaks of the inherited `m_sockfd`. -/
def UdpOp.UsesInherited : UdpOp → Prop
  | .bindSocket _ | .getSocketFd => True
  | .setSocketOption option _ => Socket.NamesOption option
  | .sendData _ | .receiveData _ _ _ => False

/-- The descriptor an operation speaks of: what it issues its calls on, or what it returns. -/
def UdpCall.SpeaksOf (c : UdpCall) (n : ℤ) : Prop :=
  (∀ e ∈ c.trace, ∀ fd, e.1.fd? = some fd → fd = n) ∧
    (c.op = .getSocketFd → c.res = .ok (.int n))

/-- **The invariant.**  The object's own field holds what the constructor was given, and the
inherited one its initial `-1`. -/
def Shadowed (n : ℤ) (s : UDPSocket) : Prop := s.sockfd = n ∧ s.base.sockfd = -1

theorem shadowed_new {type : SocketType} {n : ℕ} {s : UDPSocket}
    (h : (UDPSocket.new type).Run [⟨.socket .dgram, .fd n⟩] (.ok s)) : Shadowed n s := by
  rcases UDPSocket.run_new.mp h with ⟨-, hs⟩ | ⟨m, htr, hs⟩
  · cases hs
  · obtain rfl : n = m := by simpa using htr
    obtain rfl := Except.ok.inj hs
    exact ⟨rfl, rfl⟩

/-- **One call.**  No operation touches either field, and it speaks of the constructor's
descriptor unless it uses the inherited field. -/
theorem shadowed_step {c : UdpCall} {n : ℕ} (hc : c.Valid UdpOp.exec) (hs : Shadowed n c.pre) :
    (c.SpeaksOf n ↔ ¬ c.op.UsesInherited) ∧ Shadowed n c.post := by
  have hn : (n : ℤ) ≠ -1 := by omega
  obtain ⟨pre, op, tr, res, post⟩ := c
  obtain ⟨hown, hbase⟩ := hs
  change pre.sockfd = n at hown
  change pre.base.sockfd = -1 at hbase
  change Meth.Run (UdpOp.exec op) pre tr res post at hc
  cases op with
  | bindSocket port =>
    obtain ⟨r, hm, -⟩ := Meth.run_map.mp hc
    obtain ⟨b, hb, rfl⟩ := UDPSocket.run_onBase.mp hm
    obtain ⟨a, rfl, -, rfl⟩ := Socket.run_bindSocket.mp hb
    refine ⟨?_, hown, hbase⟩
    simp only [UdpOp.UsesInherited, not_true, iff_false]
    intro hspeak
    have hfd := hspeak.1 _ List.mem_cons_self pre.base.sockfd rfl
    omega
  | getSocketFd =>
    obtain ⟨r, hm, rfl⟩ := Meth.run_map.mp hc
    obtain ⟨b, hb, rfl⟩ := UDPSocket.run_onBase.mp hm
    obtain ⟨rfl, rfl, rfl⟩ := Socket.run_getSocketFd.mp hb
    refine ⟨?_, hown, hbase⟩
    simp only [UdpOp.UsesInherited, not_true, iff_false]
    intro hspeak
    have hret : (Except.ok (Val.int pre.base.sockfd) : Except Thrown Val) = .ok (.int n) :=
      hspeak.2 rfl
    have hfd := Val.int.inj (Except.ok.inj hret)
    omega
  | setSocketOption option value =>
    obtain ⟨r, hm, -⟩ := Meth.run_map.mp hc
    obtain ⟨b, hb, rfl⟩ := UDPSocket.run_onBase.mp hm
    obtain ⟨htr, hnil, -, rfl⟩ := Socket.run_setSocketOption hb
    refine ⟨?_, hown, hbase⟩
    change _ ↔ ¬ Socket.NamesOption option
    rw [← hnil, not_not]
    constructor
    · -- any call at all is on the inherited field, which is not `n`
      intro hspeak
      refine List.eq_nil_iff_forall_not_mem.mpr fun e he => ?_
      obtain ⟨optname, optval, hcall⟩ := htr e he
      have hfd := hspeak.1 e he pre.base.sockfd (by rw [hcall]; rfl)
      omega
    · rintro rfl
      exact ⟨by simp, fun h => by cases h⟩
  | sendData data =>
    obtain ⟨r, hm, -⟩ := Meth.run_map.mp hc
    obtain ⟨a, rfl, -, rfl⟩ := UDPSocket.run_sendData.mp hm
    refine ⟨?_, hown, hbase⟩
    simp [UdpCall.SpeaksOf, UdpOp.UsesInherited, Sys.fd?, hown]
  | receiveData size buffer limit =>
    obtain ⟨r, hm, -⟩ := Meth.run_map.mp hc
    rcases UDPSocket.run_receiveData.mp hm with
      ⟨rfl, -, rfl⟩ | ⟨data, le, src, tr', buffer', rfl, hcopy, -, rfl⟩
    · refine ⟨?_, hown, hbase⟩
      simp [UdpCall.SpeaksOf, UdpOp.UsesInherited, Sys.fd?, hown]
    · refine ⟨?_, hown, hbase⟩
      simp only [UdpOp.UsesInherited, not_false_eq_true, iff_true]
      refine ⟨fun e he fd hfd => ?_, fun h => by cases h⟩
      rcases List.mem_cons.mp he with rfl | he
      · exact (Option.some.inj hfd).symm.trans hown
      · rw [((copyIn_quiet hcopy).1 e he).2] at hfd
        cases hfd

/-! ## 2. Every run -/

/-- **When a `UDPSocket` is one socket.**  Every call of a run speaks of the descriptor the
constructor obtained if and only if no call binds, asks for the descriptor, or sets an
option. -/
theorem udp_one_socket_iff {type : SocketType} {n : ℕ} {s s' : UDPSocket} {h : List UdpCall}
    (hnew : (UDPSocket.new type).Run [⟨.socket .dgram, .fd n⟩] (.ok s))
    (hh : History UdpOp.exec s h s') :
    (∀ c ∈ h, c.SpeaksOf n) ↔ ∀ c ∈ h, ¬ c.op.UsesInherited := by
  have hrun := (History.forall_mem (I := Shadowed n)
    (Q := fun c : UdpCall => c.SpeaksOf n ↔ ¬ c.op.UsesInherited)
    (fun _ hc hs => shadowed_step hc hs) (shadowed_new hnew) hh).2
  exact forall₂_congr hrun

/-- A new object with descriptor 3. -/
def udpThree (type : SocketType) : UDPSocket := { base := { type := type }, sockfd := 3 }

theorem run_new_udpThree {type : SocketType} :
    (UDPSocket.new type).Run [⟨.socket .dgram, .fd 3⟩] (.ok (udpThree type)) :=
  UDPSocket.run_new.mpr (Or.inr ⟨3, rfl, rfl⟩)

/-- `sendData` on it, with nobody to send to. -/
def sendCall : UdpCall where
  pre := udpThree .client
  op := .sendData [1]
  trace := [⟨.sendto 3 [1] {}, .failed⟩]
  res := .error (.runtimeError "Send failed")
  post := udpThree .client

/-- `bindSocket` on it. -/
def bindCall : UdpCall where
  pre := udpThree .server
  op := .bindSocket 6000
  trace := [⟨.bind (-1) ⟨afInet, htons 6000, inaddrAny⟩, .failed⟩]
  res := .error (.runtimeError "Bind failed")
  post := { udpThree .server with base.serverAddr := ⟨afInet, htons 6000, inaddrAny⟩ }

theorem sendCall_valid : sendCall.Valid UdpOp.exec :=
  Meth.run_map.mpr ⟨_, UDPSocket.run_sendData.mpr ⟨.failed, rfl, rfl, rfl⟩, rfl⟩

theorem bindCall_valid : bindCall.Valid UdpOp.exec :=
  Meth.run_map.mpr ⟨_, UDPSocket.run_onBase.mpr
    ⟨_, Socket.run_bindSocket.mpr ⟨.failed, rfl, rfl, rfl⟩, rfl⟩, rfl⟩

theorem history_sendCall :
    History UdpOp.exec (udpThree .client) [sendCall] (udpThree .client) :=
  ⟨_, ⟨rfl, sendCall_valid, rfl⟩, rfl⟩

/-- A client that only sends is one socket. -/
theorem udp_one_socket_iff_sender :
    (∀ c ∈ [sendCall], UdpCall.SpeaksOf c (3 : ℕ)) ↔ ∀ c ∈ [sendCall], ¬ c.op.UsesInherited :=
  udp_one_socket_iff run_new_udpThree history_sendCall

/-- A server that binds calls `bind` on `-1`. -/
theorem udp_bind_inherited :
    ¬ ∀ (type : SocketType) (n : ℕ) (s s' : UDPSocket) (h : List UdpCall),
      (UDPSocket.new type).Run [⟨.socket .dgram, .fd n⟩] (.ok s) →
      History UdpOp.exec s h s' → ∀ c ∈ h, c.SpeaksOf n := by
  intro hall
  have hbind := hall .server 3 _ _ [bindCall] run_new_udpThree
    ⟨_, ⟨rfl, bindCall_valid, rfl⟩, rfl⟩ bindCall List.mem_cons_self
  exact absurd (hbind.1 _ List.mem_cons_self (-1) rfl) (by decide)

end InternetProgramming
