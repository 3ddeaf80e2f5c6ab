/-
# Ports and hosts on their way into `sockaddr_in`

`bindSocket` and `connectToServer` take the port as an `int` and store it with `htons`, which
has sixteen bits to put it in.  Nothing looks at the number first: the host that does not parse
is refused, the port that does not fit is reduced modulo 65536, and the call goes to the kernel
with a port that nobody asked for.

Everything else about the address is right, whatever the object went through before: all three
fields are written anew by each call that returns.  So the endpoint is the one that was asked
for, or the call throws, exactly when the port fits or the kernel refuses the call anyway
(`endpoints_exact_iff`).
-/
import InternetProgramming.UdpIdentity

namespace InternetProgramming

open Interaction

variable {tr : List Ev}

/-! ## 1. Network order -/

/-- `ntohs` on a little-endian host. -/
def ntohs (netshort : UInt16) : UInt16 := netshort <<< 8 ||| netshort >>> 8

/-- Exchanging the two bytes, as arithmetic. -/
theorem toNat_swap (h : UInt16) :
    (h <<< 8 ||| h >>> 8).toNat = h.toNat % 256 * 256 + h.toNat / 256 := by
  have hlt : h.toNat < 65536 := h.toNat_lt
  have hupper : (h <<< 8).toNat = (h.toNat % 256) <<< 8 := by
    rw [UInt16.toNat_shiftLeft, Nat.shiftLeft_eq, Nat.shiftLeft_eq]
    change h.toNat * 2 ^ 8 % 2 ^ 16 = _
    omega
  have hlower : (h >>> 8).toNat = h.toNat / 256 := by
    rw [UInt16.toNat_shiftRight, Nat.shiftRight_eq_div_pow]
    rfl
  have hbyte : h.toNat / 256 < 2 ^ 8 := by omega
  rw [UInt16.toNat_or, hupper, hlower, ← Nat.shiftLeft_add_eq_or_of_lt hbyte, Nat.shiftLeft_eq]

theorem ntohs_swap (h : UInt16) : ntohs (h <<< 8 ||| h >>> 8) = h := by
  have hlt : h.toNat < 65536 := h.toNat_lt
  refine UInt16.toNat_inj.mp ?_
  rw [ntohs, toNat_swap, toNat_swap]
  omega

/-- **What comes back.**  A port is read back modulo 65536. -/
theorem ntohs_htons (port : ℤ) : ((ntohs (htons port)).toNat : ℤ) = port % 65536 := by
  rw [htons, ntohs_swap]
  change ((BitVec.ofNat 16 (port % 65536).toNat).toNat : ℤ) = _
  rw [BitVec.toNat_ofNat]
  omega

/-- The numbers that are ports. -/
def IsPort (port : ℤ) : Prop := 0 ≤ port ∧ port ≤ 65535

theorem ntohs_htons_eq_iff {port : ℤ} :
    ((ntohs (htons port)).toNat : ℤ) = port ↔ IsPort port := by
  rw [ntohs_htons, IsPort]
  omega

/-! ## 2. What is asked for and what is handed over -/

/-- The endpoint that an operation names. -/
inductive Endpoint where
  | anyHost (port : ℤ)
  | host (ip : String) (port : ℤ)

namespace Endpoint

def port : Endpoint → ℤ
  | .anyHost port => port
  | .host _ port => port

/-- `addr` is the host address: `INADDR_ANY`, or what `inet_pton` parsed from the string. -/
def IsHost (p : Endpoint) (tr : List Ev) (addr : UInt32) : Prop :=
  match p with
  | .anyHost _ => addr = inaddrAny
  | .host ip _ => (⟨.inetPton ip, some addr⟩ : Ev) ∈ tr

/-- `addr` is this endpoint in every field, its port read back with `ntohs`. -/
structure Exact (p : Endpoint) (tr : List Ev) (addr : SockaddrIn) : Prop where
  family : addr.sinFamily = afInet
  port : ((ntohs addr.sinPort).toNat : ℤ) = p.port
  host : p.IsHost tr addr.sinAddr

end Endpoint

def TcpOp.endpoint? : TcpOp → Option Endpoint
  | .bindSocket port => some (.anyHost port)
  | .connectToServer ip port => some (.host ip port)
  | _ => none

def UdpOp.endpoint? : UdpOp → Option Endpoint
  | .bindSocket port => some (.anyHost port)
  | _ => none

/-- The address an entry of the trace hands to `bind` or `connect`. -/
def handed? : Ev → Option SockaddrIn
  | ⟨.bind _ addr, _⟩ => some addr
  | ⟨.connect _ addr, _⟩ => some addr
  | _ => none

def handed (tr : List Ev) : List SockaddrIn := tr.filterMap handed?

/-- `bind`, `connect` or `inet_pton` refused what it was given. -/
def refuses : Ev → Prop
  | ⟨.bind _ _, a⟩ => a = .failed
  | ⟨.connect _ _, a⟩ => a = .failed
  | ⟨.inetPton _, a⟩ => a = none
  | _ => False

def Refused (tr : List Ev) : Prop := ∃ e ∈ tr, refuses e

/-! ## 3. One call -/

section Call

variable {Op σ : Type} {c : Call Op Sys Sys.Ret Thrown σ Val} {p : Endpoint}

/-- If the call returned, it handed over the endpoint that was asked for; and it did not return
if that is no endpoint. -/
structure ExactOrRefused (c : Call Op Sys Sys.Ret Thrown σ Val) (p : Endpoint) : Prop where
  exact : ¬ Throws c → ∃ addr, handed c.trace = [addr] ∧ p.Exact c.trace addr
  refused : ¬ IsPort p.port → Throws c

/-- What a call that names an endpoint does: it throws because something was refused, or it
hands over three fresh fields and returns. -/
inductive EndpointEffect (c : Call Op Sys Sys.Ret Thrown σ Val) (p : Endpoint) : Prop where
  | refused (refused : Refused c.trace) (throws : Throws c)
  | handed (host : UInt32) (handed : handed c.trace = [⟨afInet, htons p.port, host⟩])
      (means : p.IsHost c.trace host) (accepted : ¬ Refused c.trace) (returns : ¬ Throws c)

/-- A call that hands over the endpoint it means and ends in a check of the answer. -/
theorem endpointEffect_of_check {host : UInt32} {a : Status} {e : Thrown} {g : Unit → Val}
    (hhanded : handed c.trace = [⟨afInet, htons p.port, host⟩]) (hhost : p.IsHost c.trace host)
    (hrefused : Refused c.trace ↔ a = .failed)
    (hres : c.res = (if a = .failed then .error e else .ok () : Except Thrown Unit).map g) :
    EndpointEffect c p := by
  have hthrows := throws_iff_of_check hres
  cases a with
  | ok => exact .handed host hhanded hhost (by simp [hrefused]) (by simp [hthrows])
  | failed => exact .refused (hrefused.mpr rfl) (hthrows.mpr rfl)

/-- **When one call is exact.** -/
theorem EndpointEffect.exactOrRefused (h : EndpointEffect c p) :
    ExactOrRefused c p ↔ IsPort p.port ∨ Refused c.trace := by
  cases h with
  | refused refused throws =>
    constructor
    · intro _
      exact Or.inr refused
    · intro _
      exact ⟨fun hreturns => absurd throws hreturns, fun _ => throws⟩
  | handed host handed means accepted returns =>
    constructor
    · intro h
      by_contra hnot
      exact returns (h.refused fun hport => hnot (Or.inl hport))
    · rintro (hport | hrefused)
      · refine ⟨fun _ => ⟨_, handed, rfl, ntohs_htons_eq_iff.mpr hport, means⟩, ?_⟩
        intro hnot
        exact absurd hport hnot
      · exact absurd hrefused accepted

end Call

theorem tcpEndpointEffect {c : TcpCall} (hc : c.Valid TcpOp.exec) {p : Endpoint}
    (hp : c.op.endpoint? = some p) : EndpointEffect c p := by
  obtain ⟨pre, op, tr, res, post⟩ := c
  change Meth.Run (TcpOp.exec op) pre tr res post at hc
  cases op with
  | bindSocket port =>
    obtain rfl := Option.some.inj hp
    obtain ⟨r, hm, hres⟩ := Meth.run_map.mp hc
    obtain ⟨b, hb, rfl⟩ := TCPSocket.run_onBase.mp hm
    obtain ⟨a, rfl, rfl, -⟩ := Socket.run_bindSocket.mp hb
    exact endpointEffect_of_check rfl rfl (by simp [Refused, refuses]) hres
  | connectToServer ip port =>
    obtain rfl := Option.some.inj hp
    obtain ⟨r, hm, hres⟩ := Meth.run_map.mp hc
    rcases TCPSocket.run_connectToServer.mp hm with ⟨rfl, rfl, -⟩ | ⟨addr, a, rfl, rfl, -⟩
    · exact .refused (by simp [Refused, refuses]) ⟨_, hres⟩
    · exact endpointEffect_of_check rfl (by simp [Endpoint.IsHost]) (by simp [Refused, refuses])
        hres
  | _ => cases hp

theorem udpEndpointEffect {c : UdpCall} (hc : c.Valid UdpOp.exec) {p : Endpoint}
    (hp : c.op.endpoint? = some p) : EndpointEffect c p := by
  obtain ⟨pre, op, tr, res, post⟩ := c
  change Meth.Run (UdpOp.exec op) pre tr res post at hc
  cases op with
  | bindSocket port =>
    obtain rfl := Option.some.inj hp
    obtain ⟨r, hm, hres⟩ := Meth.run_map.mp hc
    obtain ⟨b, hb, rfl⟩ := UDPSocket.run_onBase.mp hm
    obtain ⟨a, rfl, rfl, -⟩ := Socket.run_bindSocket.mp hb
    exact endpointEffect_of_check rfl rfl (by simp [Refused, refuses]) hres
  | _ => cases hp

/-! ## 4. Every run -/

/-- **When endpoints are exact.**  In every history of an object of either class, a call of
`bindSocket` or `connectToServer` hands over exactly the endpoint it was given, or throws, if
and only if the port is one or the call was refused. -/
theorem endpoints_exact_iff {ht : List TcpCall} {hu : List UdpCall} {s s' : TCPSocket}
    {u u' : UDPSocket} (htcp : History TcpOp.exec s ht s') (hudp : History UdpOp.exec u hu u') :
    (∀ c ∈ ht, ∀ p, c.op.endpoint? = some p →
      (ExactOrRefused c p ↔ IsPort p.port ∨ Refused c.trace)) ∧
    (∀ c ∈ hu, ∀ p, c.op.endpoint? = some p →
      (ExactOrRefused c p ↔ IsPort p.port ∨ Refused c.trace)) := by
  constructor
  · intro c hc p hp
    exact (tcpEndpointEffect (htcp.valid c hc) hp).exactOrRefused
  · intro c hc p hp
    exact (udpEndpointEffect (hudp.valid c hc) hp).exactOrRefused

/-- A new server whose `bindSocket` succeeds. -/
def bindPort (port : ℤ) : TcpCall where
  pre := serverThree
  op := .bindSocket port
  trace := [⟨.bind 3 ⟨afInet, htons port, inaddrAny⟩, .ok⟩]
  res := .ok .unit
  post := serverThree.withServerAddr ⟨afInet, htons port, inaddrAny⟩

theorem history_bindPort {port : ℤ} :
    History TcpOp.exec serverThree [bindPort port] (bindPort port).post := by
  refine ⟨_, ⟨rfl, ?_, rfl⟩, rfl⟩
  exact Meth.run_map.mpr ⟨.ok (), TCPSocket.run_onBase.mpr
    ⟨_, Socket.run_bindSocket.mpr ⟨.ok, rfl, rfl, rfl⟩, rfl⟩, rfl⟩

/-- Port 8080 on a stream socket; on a datagram socket the call was refused. -/
theorem endpoints_exact_iff_bindPort :
    (∀ c ∈ [bindPort 8080], ∀ p, c.op.endpoint? = some p →
      (ExactOrRefused c p ↔ IsPort p.port ∨ Refused c.trace)) ∧
    (∀ c ∈ [bindCall], ∀ p, c.op.endpoint? = some p →
      (ExactOrRefused c p ↔ IsPort p.port ∨ Refused c.trace)) :=
  endpoints_exact_iff history_bindPort
    (⟨_, ⟨rfl, bindCall_valid, rfl⟩, rfl⟩ : History UdpOp.exec _ [bindCall] _)

/-- 73616 is asked for, and 8080 is bound. -/
theorem port_reduced :
    ¬ ((∀ (type : SocketType) (tr : List Ev) (h : List TcpCall) (s s' : TCPSocket),
        (TCPSocket.new type).Run tr (.ok s) → History TcpOp.exec s h s' →
        ∀ c ∈ h, ∀ p, c.op.endpoint? = some p → ExactOrRefused c p) ∧
      (∀ (type : SocketType) (tr : List Ev) (h : List UdpCall) (s s' : UDPSocket),
        (UDPSocket.new type).Run tr (.ok s) → History UdpOp.exec s h s' →
        ∀ c ∈ h, ∀ p, c.op.endpoint? = some p → ExactOrRefused c p)) := by
  intro hall
  have hexact := hall.1 .server _ [bindPort 73616] _ _ run_new_serverThree history_bindPort
    _ List.mem_cons_self _ rfl
  have hnot : ¬ IsPort 73616 := by unfold IsPort; omega
  obtain ⟨e, he⟩ := hexact.refused hnot
  cases he

end InternetProgramming
