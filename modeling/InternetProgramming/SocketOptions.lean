/-
# What `setSocketOption` leaves of the options

The mask is turned into up to six `setsockopt` calls, one for each bit, and the result of every
one of them is dropped: `setSocketOption` is the only operation of `Socket` that cannot fail.
So the options asked for are in force, and the others as they were, exactly when the kernel
took every call; where it refused one, the caller is not told (`setSocketOption_exact_iff`).

Taken for granted is that a `setsockopt` which returns 0 has put the value it was given in force.
Linux goes its own way with some values (a switch is read back as 0 or 1, a buffer size is
doubled and kept within limits), and nothing here is about what `getsockopt` would tell.

A `UDPSocket` is worse off.  The calls go to the inherited `m_sockfd`, which is not its
descriptor, so its options never change whatever the kernel says.
-/
import InternetProgramming.Interaction.Settings
import InternetProgramming.UdpIdentity

namespace InternetProgramming

open Interaction

variable {tr : List Ev} {fd : ℤ} {option : BitVec 32} {value : ℤ} {st : ℕ → OptVal}

/-! ## 1. The options of a socket -/

/-- The option that an entry of the trace set on `fd`, with the value it was given: a call that
succeeded is assumed to have put just that value in force. -/
def optionSet? (fd : ℤ) : Ev → Option (ℕ × OptVal)
  | ⟨.setsockopt fd' optname optval, .ok⟩ => if fd' = fd then some (optname, optval) else none
  | _ => none

/-- The options set on `fd`, in order. -/
def optionsSet (fd : ℤ) (tr : List Ev) : List (ℕ × OptVal) := tr.filterMap (optionSet? fd)

/-- The options of `fd` after the trace, if they were `st` before it. -/
def optionsAfter (fd : ℤ) (st : ℕ → OptVal) (tr : List Ev) : ℕ → OptVal :=
  settle st (optionsSet fd tr)

/-- No `setsockopt` failed. -/
def AllApplied (tr : List Ev) : Prop :=
  ∀ fd optname optval, (⟨.setsockopt fd optname optval, .failed⟩ : Ev) ∉ tr

/-- One bit of the mask, with the option it stands for. -/
structure SockOpt where
  bit : BitVec 32
  optname : ℕ
  optval : ℤ → OptVal

/-- The six bits, in the order in which `setSocketOption` looks at them. -/
def sockOpts : List SockOpt :=
  [⟨optReuseaddr, soReuseaddr, .int⟩, ⟨optReuseport, soReuseport, .int⟩,
    ⟨optKeepalive, soKeepalive, .int⟩, ⟨optLinger, soLinger, .linger 1⟩,
    ⟨optRcvbuf, soRcvbuf, .int⟩, ⟨optSndbuf, soSndbuf, .int⟩]

/-- What the option `optname` is set to when `setSocketOption` is given `value`. -/
def valueFor (value : ℤ) (optname : ℕ) : OptVal :=
  if optname = soLinger then .linger 1 value else .int value

theorem optval_eq_valueFor : ∀ o ∈ sockOpts, o.optval value = valueFor value o.optname := by
  simp [sockOpts, valueFor, soReuseaddr, soReuseport, soKeepalive, soLinger, soRcvbuf, soSndbuf]

theorem nodup_optnames : (sockOpts.map SockOpt.optname).Nodup := by decide

/-- The mask names the option. -/
def Names (option : BitVec 32) (o : SockOpt) : Prop := option &&& o.bit ≠ 0

instance (option : BitVec 32) (o : SockOpt) : Decidable (Names option o) :=
  inferInstanceAs (Decidable (option &&& o.bit ≠ 0))

/-- A union of masks names what either of them names. -/
theorem names_or {a b : BitVec 32} {o : SockOpt} :
    Names (a ||| b) o ↔ Names a o ∨ Names b o := by
  unfold Names
  rw [BitVec.and_comm, BitVec.and_or_distrib_left, BitVec.and_comm o.bit a,
    BitVec.and_comm o.bit b]
  exact (not_congr BitVec.or_eq_zero_iff).trans not_and_or

theorem namesOption_iff : Socket.NamesOption option ↔ ∃ o ∈ sockOpts, Names option o := by
  simp [Socket.NamesOption, sockOpts, Names]

/-- The options that the mask asks for. -/
def requested (option : BitVec 32) : List SockOpt := sockOpts.filter fun o => Names option o

theorem mem_requested {o : SockOpt} : o ∈ requested option ↔ o ∈ sockOpts ∧ Names option o := by
  simp [requested]

/-- The call that asks for one option. -/
def SockOpt.call (fd value : ℤ) (o : SockOpt) : Sys := .setsockopt fd o.optname (o.optval value)

/-! ## 2. The calls of `setSocketOption` -/

namespace Socket

variable {s s' : Socket}

theorem OptTrace.calls {o : SockOpt} (h : OptTrace fd option o.bit o.optname (o.optval value) tr) :
    tr.map Sigma.fst = if Names option o then [o.call fd value] else [] := by
  unfold OptTrace at h
  split at h
  · rename_i hbit
    have hnames : Names option o := hbit
    obtain ⟨a, rfl⟩ := h
    rw [if_pos hnames]
    rfl
  · rename_i hbit
    have hnames : ¬ Names option o := hbit
    rw [if_neg hnames, h]
    rfl

theorem calls_requested : (requested option).map (SockOpt.call fd value) =
    sockOpts.flatMap fun o => if Names option o then [o.call fd value] else [] := by
  unfold requested
  induction sockOpts with
  | nil => rfl
  | cons o os ih =>
    by_cases ho : Names option o
    · rw [List.filter_cons_of_pos (by simpa using ho), List.map_cons, ih, List.flatMap_cons,
        if_pos ho]
      rfl
    · rw [List.filter_cons_of_neg (by simpa using ho), ih, List.flatMap_cons, if_neg ho]
      rfl

/-- `setSocketOption` issues one call for each option that the mask asks for, in order. -/
theorem calls_setSocketOption {r : Except Thrown Unit}
    (h : Meth.Run (setSocketOption option value) s tr r s') :
    tr.map Sigma.fst = (requested option).map (SockOpt.call s.sockfd value) := by
  simp only [setSocketOption, run_applyOption_bind, run_applyOption] at h
  obtain ⟨t₁, _, rfl, h₁, t₂, _, rfl, h₂, t₃, _, rfl, h₃, t₄, _, rfl, h₄, t₅, t₆, rfl, h₅, h₆,
    -, -⟩ := h
  rw [calls_requested]
  simp only [sockOpts, List.flatMap_cons, List.flatMap_nil, List.map_append]
  rw [← h₁.calls, ← h₂.calls, ← h₃.calls,
    ← OptTrace.calls (o := ⟨optLinger, soLinger, .linger 1⟩) h₄,
    ← h₅.calls, ← h₆.calls, List.append_nil]

end Socket

/-- No option is asked for twice. -/
theorem nodup_calls : ((requested option).map (SockOpt.call fd value)).Nodup := by
  have hnames : ((requested option).map SockOpt.optname).Nodup :=
    nodup_optnames.sublist (List.filter_sublist.map _)
  refine List.Nodup.map_on (fun o ho o' ho' heq => ?_) hnames.of_map
  exact List.inj_on_of_nodup_map hnames ho ho' (Sys.setsockopt.inj heq).2.1

/-! ## 3. Exact or reported -/

/-- The options that the mask asks for, with their values. -/
def settings (option : BitVec 32) (value : ℤ) : List (ℕ × OptVal) :=
  (requested option).map fun o => (o.optname, o.optval value)

theorem agree_settings : Agree (valueFor value) (settings option value) := by
  intro w hw
  obtain ⟨o, ho, rfl⟩ := List.mem_map.mp hw
  exact optval_eq_valueFor o (mem_requested.mp ho).1

theorem mem_keys_settings {optname : ℕ} : optname ∈ (settings option value).map Prod.fst ↔
    ∃ o ∈ sockOpts, Names option o ∧ o.optname = optname := by
  simp [settings, mem_requested, and_assoc]

/-- If every call was taken, what was set is what was asked for. -/
theorem optionsSet_of_applied {os : List SockOpt}
    (hcalls : tr.map Sigma.fst = os.map (SockOpt.call fd value)) (h : AllApplied tr) :
    optionsSet fd tr = os.map fun o => (o.optname, o.optval value) := by
  induction os generalizing tr with
  | nil =>
    obtain rfl := List.map_eq_nil_iff.mp hcalls
    rfl
  | cons o os ih =>
    obtain ⟨⟨i, a⟩, tr', rfl, hi, hrest⟩ := List.map_eq_cons_iff.mp hcalls
    obtain rfl : i = o.call fd value := hi
    have hrest' := ih hrest fun fd optname optval hmem => h _ _ _ (List.mem_cons_of_mem _ hmem)
    cases a with
    | failed => exact absurd List.mem_cons_self (h _ _ _)
    | ok =>
      rw [List.map_cons, ← hrest']
      exact List.filterMap_cons_some (if_pos rfl)

section Call

variable {Op σ : Type} {c : Call Op Sys Sys.Ret Thrown σ Val}

/-- What a call of `setSocketOption` on the socket `fd` owes its caller. -/
structure AppliesExactly (fd : ℤ) (option : BitVec 32) (value : ℤ)
    (c : Call Op Sys Sys.Ret Thrown σ Val) : Prop where
  inForce : ¬ Throws c → ∀ st, ∀ o ∈ sockOpts, Names option o →
    optionsAfter fd st c.trace o.optname = o.optval value
  untouched : ¬ Throws c → ∀ st optname,
    (∀ o ∈ sockOpts, Names option o → o.optname ≠ optname) →
      optionsAfter fd st c.trace optname = st optname
  reported : (∃ o ∈ sockOpts, Names option o ∧
    (o.optname, o.optval value) ∉ optionsSet fd c.trace) → Throws c

/-- What was set is what was asked for. -/
theorem appliesExactly_of_settings (h : optionsSet fd c.trace = settings option value) :
    AppliesExactly fd option value c := by
  refine ⟨fun _ st o ho hnames => ?_, fun _ st optname hnot => ?_, ?_⟩
  · rw [optionsAfter, h, settle_apply agree_settings,
      if_pos (mem_keys_settings.mpr ⟨o, ho, hnames, rfl⟩), optval_eq_valueFor o ho]
  · rw [optionsAfter, h, settle_apply agree_settings, if_neg]
    intro hmem
    obtain ⟨o, ho, hnames, heq⟩ := mem_keys_settings.mp hmem
    exact hnot o ho hnames heq
  · rintro ⟨o, ho, hnames, hnot⟩
    refine absurd ?_ hnot
    rw [h]
    exact List.mem_map.mpr ⟨o, mem_requested.mpr ⟨ho, hnames⟩, rfl⟩

theorem mem_of_optionsSet {optname : ℕ} {optval : OptVal}
    (h : (optname, optval) ∈ optionsSet fd tr) :
    (⟨.setsockopt fd optname optval, .ok⟩ : Ev) ∈ tr := by
  obtain ⟨⟨i, a⟩, he, hset⟩ := List.mem_filterMap.mp h
  unfold optionSet? at hset
  split at hset
  · rename_i fd' n v heq
    split at hset
    · rename_i hfd
      obtain ⟨rfl, rfl⟩ := Prod.mk.inj (Option.some.inj hset)
      rw [heq, hfd] at he
      exact he
    · cases hset
  · cases hset

/-- **When one call is exact**, if it is on the socket's descriptor. -/
theorem appliesExactly_iff (hcalls : c.trace.map Sigma.fst =
      (requested option).map (SockOpt.call fd value)) (hreturns : ¬ Throws c) :
    AppliesExactly fd option value c ↔ AllApplied c.trace := by
  constructor
  · intro h fd' optname optval hfailed
    have hcall : Sys.setsockopt fd' optname optval ∈ c.trace.map Sigma.fst :=
      List.mem_map_of_mem (f := Sigma.fst) hfailed
    rw [hcalls] at hcall
    obtain ⟨o, ho, heq⟩ := List.mem_map.mp hcall
    obtain ⟨rfl, rfl, rfl⟩ := Sys.setsockopt.inj heq
    -- the call returned, so the same option was also set; but it was asked for only once
    have hset : (o.optname, o.optval value) ∈ optionsSet fd c.trace := by
      by_contra hnot
      obtain ⟨hmem, hnames⟩ := mem_requested.mp ho
      exact hreturns (h.reported ⟨o, hmem, hnames, hnot⟩)
    have hnodup : (c.trace.map Sigma.fst).Nodup := hcalls ▸ nodup_calls
    have hsame := List.inj_on_of_nodup_map hnodup hfailed (mem_of_optionsSet hset) rfl
    cases hsame
  · intro h
    exact appliesExactly_of_settings (optionsSet_of_applied hcalls h)

/-- **When one call is exact**, if it is on another descriptor: when it asks for nothing. -/
theorem appliesExactly_elsewhere_iff {fd' : ℤ} (hne : fd' ≠ fd) (hcalls : c.trace.map Sigma.fst =
      (requested option).map (SockOpt.call fd' value)) (hreturns : ¬ Throws c) :
    AppliesExactly fd option value c ↔ ¬ Socket.NamesOption option := by
  rw [namesOption_iff]
  constructor
  · rintro h ⟨o, ho, hnames⟩
    refine hreturns (h.reported ⟨o, ho, hnames, fun hset => hne ?_⟩)
    have hcall := List.mem_map_of_mem (f := Sigma.fst) (mem_of_optionsSet hset)
    rw [hcalls] at hcall
    obtain ⟨o', -, heq⟩ := List.mem_map.mp hcall
    exact (Sys.setsockopt.inj heq).1
  · intro h
    have hnone : requested option = [] := by
      refine List.eq_nil_iff_forall_not_mem.mpr fun o ho => h ⟨o, ?_⟩
      exact mem_requested.mp ho
    have htr : c.trace = [] := by simpa [hnone] using hcalls
    refine appliesExactly_of_settings ?_
    rw [htr, settings, hnone]
    rfl

end Call

/-- Two masks one after the other ask for what their union asks for. -/
theorem settle_or {a b : BitVec 32} : settle st (settings (a ||| b) value) =
    settle st (settings a value ++ settings b value) := by
  refine settle_congr agree_settings ?_ fun optname => ?_
  · intro w hw
    rcases List.mem_append.mp hw with hw | hw
    · exact agree_settings w hw
    · exact agree_settings w hw
  · rw [List.map_append, List.mem_append, mem_keys_settings, mem_keys_settings, mem_keys_settings]
    simp only [names_or, or_and_right, and_or_left, exists_or]

/-! ## 4. Every run -/

theorem tcp_setSocketOption {c : TcpCall} (hc : c.Valid TcpOp.exec)
    (hop : c.op = .setSocketOption option value) :
    c.trace.map Sigma.fst = (requested option).map (SockOpt.call c.pre.base.sockfd value) ∧
      ¬ Throws c ∧ c.post = c.pre := by
  obtain ⟨pre, op, tr, res, post⟩ := c
  obtain rfl : op = _ := hop
  change Meth.Run (TcpOp.exec _) pre tr res post at hc
  obtain ⟨r, hm, rfl⟩ := Meth.run_map.mp hc
  obtain ⟨b, hb, rfl⟩ := TCPSocket.run_onBase.mp hm
  obtain ⟨-, -, rfl, rfl⟩ := Socket.run_setSocketOption hb
  exact ⟨Socket.calls_setSocketOption hb, not_throws_of_ok rfl, rfl⟩

theorem udp_setSocketOption {c : UdpCall} (hc : c.Valid UdpOp.exec)
    (hop : c.op = .setSocketOption option value) :
    c.trace.map Sigma.fst = (requested option).map (SockOpt.call c.pre.base.sockfd value) ∧
      ¬ Throws c := by
  obtain ⟨pre, op, tr, res, post⟩ := c
  obtain rfl : op = _ := hop
  change Meth.Run (UdpOp.exec _) pre tr res post at hc
  obtain ⟨r, hm, rfl⟩ := Meth.run_map.mp hc
  obtain ⟨b, hb, rfl⟩ := UDPSocket.run_onBase.mp hm
  obtain ⟨-, -, rfl, -⟩ := Socket.run_setSocketOption hb
  exact ⟨Socket.calls_setSocketOption hb, not_throws_of_ok rfl⟩

/-- One call for `a | b` leaves the options that a call for `a` and then one for `b` leave. -/
def SplitsMask (c c₁ c₂ : TcpCall) : Prop :=
  ∀ st, optionsAfter c.pre.base.sockfd st c.trace =
    optionsAfter c.pre.base.sockfd st (c₁.trace ++ c₂.trace)

theorem splitsMask_of_applied {c c₁ c₂ : TcpCall} (hc : c.Valid TcpOp.exec)
    (hc₁ : c₁.Valid TcpOp.exec) (hc₂ : c₂.Valid TcpOp.exec) (hpre₁ : c₁.pre = c.pre)
    (hpre₂ : c₂.pre = c₁.post) {a b : BitVec 32} (hop : c.op = .setSocketOption (a ||| b) value)
    (hop₁ : c₁.op = .setSocketOption a value) (hop₂ : c₂.op = .setSocketOption b value)
    (h : AllApplied c.trace) (h₁ : AllApplied c₁.trace) (h₂ : AllApplied c₂.trace) :
    SplitsMask c c₁ c₂ := by
  obtain ⟨hcalls, -, -⟩ := tcp_setSocketOption hc hop
  obtain ⟨hcalls₁, -, hpost₁⟩ := tcp_setSocketOption hc₁ hop₁
  obtain ⟨hcalls₂, -, -⟩ := tcp_setSocketOption hc₂ hop₂
  rw [hpre₁] at hcalls₁
  rw [hpre₂, hpost₁, hpre₁] at hcalls₂
  intro st
  have hset := optionsSet_of_applied hcalls h
  have hset₁ := optionsSet_of_applied hcalls₁ h₁
  have hset₂ := optionsSet_of_applied hcalls₂ h₂
  have hboth : optionsSet c.pre.base.sockfd (c₁.trace ++ c₂.trace) =
      settings a value ++ settings b value := by
    unfold optionsSet at hset₁ hset₂ ⊢
    rw [List.filterMap_append, hset₁, hset₂]
    rfl
  rw [optionsAfter, optionsAfter, hset, hboth]
  exact settle_or

/-- **When `setSocketOption` is exact.**  In every history of a `TCPSocket` a call of
`setSocketOption` applies what was asked, and nothing else, or throws, if and only if the
kernel took every `setsockopt` it issued, and masks can then be split.  A `UDPSocket` does so
if and only if the mask names no option.  What a call applies is the value it is given. -/
theorem setSocketOption_exact_iff {type : SocketType} {tr₀ : List Ev} {ht : List TcpCall}
    {hu : List UdpCall} {s s' : TCPSocket} {u u' : UDPSocket}
    (htcp : History TcpOp.exec s ht s') (hnew : (UDPSocket.new type).Run tr₀ (.ok u))
    (hudp : History UdpOp.exec u hu u') :
    (∀ c ∈ ht, ∀ option value, c.op = .setSocketOption option value →
      (AppliesExactly c.pre.base.sockfd option value c ↔ AllApplied c.trace)) ∧
    (∀ c ∈ hu, ∀ option value, c.op = .setSocketOption option value →
      (AppliesExactly c.pre.sockfd option value c ↔ ¬ Socket.NamesOption option)) ∧
    ∀ c c₁ c₂ : TcpCall, c.Valid TcpOp.exec → c₁.Valid TcpOp.exec → c₂.Valid TcpOp.exec →
      c₁.pre = c.pre → c₂.pre = c₁.post → ∀ a b value, c.op = .setSocketOption (a ||| b) value →
      c₁.op = .setSocketOption a value → c₂.op = .setSocketOption b value →
      AllApplied c.trace → AllApplied c₁.trace → AllApplied c₂.trace → SplitsMask c c₁ c₂ := by
  refine ⟨fun c hc option value hop => ?_, ?_, ?_⟩
  · obtain ⟨hcalls, hreturns, -⟩ := tcp_setSocketOption (htcp.valid c hc) hop
    exact appliesExactly_iff hcalls hreturns
  · rcases UDPSocket.run_new.mp hnew with ⟨-, hs⟩ | ⟨n, rfl, hs⟩
    · cases hs
    obtain rfl := Except.ok.inj hs
    have hshadowed := (History.forall_mem (I := Shadowed n)
      (Q := fun c => c.Valid UdpOp.exec ∧ Shadowed n c.pre)
      (fun c hv hpre => ⟨⟨hv, hpre⟩, (shadowed_step hv hpre).2⟩) ⟨rfl, rfl⟩ hudp).2
    intro c hc option value hop
    obtain ⟨hv, hown, hbase⟩ := hshadowed c hc
    obtain ⟨hcalls, hreturns⟩ := udp_setSocketOption hv hop
    refine appliesExactly_elsewhere_iff ?_ hcalls hreturns
    rw [hown, hbase]
    omega
  · intro c c₁ c₂ hc hc₁ hc₂ hpre₁ hpre₂ a b value hop hop₁ hop₂ h h₁ h₂
    exact splitsMask_of_applied hc hc₁ hc₂ hpre₁ hpre₂ hop hop₁ hop₂ h h₁ h₂

/-- `SO_REUSEADDR` is taken, and `SO_REUSEPORT` is answered by `a`. -/
theorem run_setSocketOption_reuse {s : Socket} {a : Status} :
    Meth.Run (Socket.setSocketOption (optReuseaddr ||| optReuseport) value) s
      [⟨.setsockopt s.sockfd soReuseaddr (.int value), .ok⟩,
        ⟨.setsockopt s.sockfd soReuseport (.int value), a⟩] (.ok ()) s := by
  simp only [Socket.setSocketOption, Socket.run_applyOption_bind, Socket.run_applyOption]
  refine ⟨[_], [_], rfl, ⟨.ok, rfl⟩, [_], [], rfl, ⟨a, rfl⟩, [], [], rfl, rfl, [], [], rfl, rfl,
    [], [], rfl, rfl, rfl, trivial, trivial⟩

/-- What the first server does with its socket before it binds it. -/
def reuseCall (a : Status) : TcpCall where
  pre := serverThree
  op := .setSocketOption (optReuseaddr ||| optReuseport) 1
  trace := [⟨.setsockopt 3 soReuseaddr (.int 1), .ok⟩, ⟨.setsockopt 3 soReuseport (.int 1), a⟩]
  res := .ok .unit
  post := serverThree

theorem history_reuseCall {a : Status} :
    History TcpOp.exec serverThree [reuseCall a] serverThree := by
  refine ⟨_, ⟨rfl, ?_, rfl⟩, rfl⟩
  exact Meth.run_map.mpr
    ⟨.ok (), TCPSocket.run_onBase.mpr ⟨_, run_setSocketOption_reuse, rfl⟩, rfl⟩

/-- Both options are taken. -/
theorem setSocketOption_exact_iff_reuse :
    AppliesExactly 3 (optReuseaddr ||| optReuseport) 1 (reuseCall .ok) ↔
      AllApplied (reuseCall .ok).trace :=
  (setSocketOption_exact_iff history_reuseCall (@run_new_udpThree .client)
    history_sendCall).1 (reuseCall .ok) List.mem_cons_self _ _ rfl

/-- `SO_REUSEPORT` is refused, and the call returns as if nothing had happened. -/
theorem refused_option_unreported :
    ¬ ∀ (type : SocketType) (tr : List Ev) (h : List TcpCall) (s s' : TCPSocket),
      (TCPSocket.new type).Run tr (.ok s) → History TcpOp.exec s h s' → ∀ c ∈ h,
        ∀ option value, c.op = .setSocketOption option value →
          AppliesExactly c.pre.base.sockfd option value c := by
  intro hall
  have hexact := hall .server _ [reuseCall .failed] _ _ run_new_serverThree history_reuseCall
    _ List.mem_cons_self _ _ rfl
  obtain ⟨e, he⟩ := hexact.reported ⟨⟨optReuseport, soReuseport, .int⟩, by simp [sockOpts],
    by decide, by decide⟩
  cases he

end InternetProgramming
