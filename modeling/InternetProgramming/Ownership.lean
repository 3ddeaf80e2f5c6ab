/-
# Who owns which descriptor: the life of a `TCPSocket`

A `TCPSocket` obtains descriptors from `socket` and `accept4`, keeps at most two of them in
its fields, and closes what its fields hold.  This module follows the descriptors through a
whole life of the object: constructor, any calls of its methods with any outcome, destructor.

* `Owns s H` is the invariant: what the two fields hold is `-1` or among the descriptors `H`
  obtained and not yet closed, and the two fields never hold the same one.  It gives
  `tcpSocket_uses_own`: no call is ever issued on a descriptor that was given up, although
  the rest of the process may have been handed its number meanwhile.
* `lost s H` is what is in `H` and in neither field.  Nothing can close it any more, so it is
  what the object leaks.  Only `acceptConnection` can make it grow, by overwriting a
  descriptor in `m_clientSockfd`; `releasedOnce_iff_accept` says that this is the only leak.
-/
import InternetProgramming.SocketSpec

namespace InternetProgramming

open Interaction

variable {tr : List Ev} {H : Finset ℤ}

/-! ## 1. Calls on one's own descriptors -/

/-- The call is issued on `-1` or on a descriptor of `H`, and what it closes is in `H`. -/
def Own (H : Finset ℤ) (e : Ev) : Prop :=
  (∀ fd, e.1.fd? = some fd → fd = -1 ∨ fd ∈ H) ∧ ∀ a, actOf e = .release a → a ∈ H

/-- Every call of the trace is issued on a descriptor held at that point. -/
def UsesOwn (H : Finset ℤ) (tr : List Ev) : Prop :=
  Along (fun pre e => Own (heldAfter H pre) e) tr

theorem usesOwn_cons {e : Ev} :
    UsesOwn H (e :: tr) ↔ Own H e ∧ UsesOwn ((actOf e).apply H) tr :=
  along_cons

theorem usesOwn_append {tr₁ tr₂ : List Ev} :
    UsesOwn H (tr₁ ++ tr₂) ↔ UsesOwn H tr₁ ∧ UsesOwn (heldAfter H tr₁) tr₂ := by
  simp only [UsesOwn, along_append, heldAfter_append]

/-- Who uses only his own descriptors releases only his own. -/
theorem UsesOwn.ownedFrom (h : UsesOwn H tr) : OwnedFrom H (tr.map actOf) := by
  unfold OwnedFrom
  rw [along_map]
  exact h.mono fun pre e he a ha => he.2 a ha

/-- A trace that hands nothing out or back leaves the descriptors as they are. -/
theorem usesOwn_of_other (h : ∀ e ∈ tr, actOf e = .other ∧
    ∀ fd, e.1.fd? = some fd → fd = -1 ∨ fd ∈ H) : UsesOwn H tr ∧ heldAfter H tr = H := by
  induction tr with
  | nil => exact ⟨along_nil, rfl⟩
  | cons e tr ih =>
    obtain ⟨⟨hact, hfd⟩, htr⟩ := List.forall_mem_cons.mp h
    obtain ⟨huse, -⟩ := ih htr
    have happly : (actOf e).apply H = H := by rw [hact]; rfl
    refine ⟨usesOwn_cons.mpr ⟨⟨hfd, ?_⟩, happly.symm ▸ huse⟩,
      heldAfter_of_other fun d hd => (h d hd).1⟩
    intro a ha
    rw [hact] at ha
    cases ha

/-! ## 2. The invariant of the two fields -/

/-- Closing a field that holds `-1` or an own descriptor. -/
theorem run_closeFd_own {fd fd' : ℤ} (h : (closeFd fd).Run tr fd') (hfd : fd = -1 ∨ fd ∈ H)
    (hH : ∀ a ∈ H, 0 ≤ a) : fd' = -1 ∧ UsesOwn H tr ∧ heldAfter H tr = H.erase fd := by
  rcases run_closeFd.mp h with ⟨hneg, rfl, rfl⟩ | ⟨hpos, a, rfl, rfl⟩
  · have hnot : fd' ∉ H := fun hmem => by have := hH fd' hmem; omega
    obtain rfl : fd' = -1 := hfd.resolve_right hnot
    exact ⟨rfl, along_nil, (Finset.erase_eq_of_notMem hnot).symm⟩
  · have hmem : fd ∈ H := hfd.resolve_left (by omega)
    refine ⟨rfl, usesOwn_cons.mpr ⟨⟨?_, ?_⟩, along_nil⟩, rfl⟩
    · intro fd' hfd'
      obtain rfl := Option.some.inj hfd'
      exact Or.inr hmem
    · intro a' ha'
      obtain rfl := Act.release.inj ha'
      exact hmem

/-- **The invariant.**  `H` are the descriptors obtained and not yet closed. -/
structure Owns (s : TCPSocket) (H : Finset ℤ) : Prop where
  nonneg : ∀ a ∈ H, 0 ≤ a
  sockfd : s.base.sockfd = -1 ∨ s.base.sockfd ∈ H
  clientSockfd : s.clientSockfd = -1 ∨ s.clientSockfd ∈ H
  ne : s.base.sockfd ≠ -1 → s.clientSockfd ≠ s.base.sockfd

/-- The open descriptors that are in neither field. -/
def lost (s : TCPSocket) (H : Finset ℤ) : Finset ℤ := (H.erase s.base.sockfd).erase s.clientSockfd

/-- Once the first field is closed, the second one is still owned. -/
theorem Owns.client_of_erase {s : TCPSocket} (h : Owns s H) :
    s.clientSockfd = -1 ∨ s.clientSockfd ∈ H.erase s.base.sockfd := by
  rcases h.clientSockfd with hc | hc
  · exact Or.inl hc
  · refine Or.inr (Finset.mem_erase.mpr ⟨?_, hc⟩)
    intro heq
    have hpos := h.nonneg _ hc
    exact h.ne (by omega) heq

/-- Closing both fields leaves what was lost. -/
theorem run_closeFds {s : TCPSocket} {tr₁ tr₂ : List Ev} {fd₁ fd₂ : ℤ} (h : Owns s H)
    (h₁ : (closeFd s.base.sockfd).Run tr₁ fd₁) (h₂ : (closeFd s.clientSockfd).Run tr₂ fd₂) :
    fd₁ = -1 ∧ fd₂ = -1 ∧ UsesOwn H (tr₁ ++ tr₂) ∧ heldAfter H (tr₁ ++ tr₂) = lost s H := by
  obtain ⟨hfd₁, huse₁, hheld₁⟩ := run_closeFd_own h₁ h.sockfd h.nonneg
  obtain ⟨hfd₂, huse₂, hheld₂⟩ := run_closeFd_own h₂ h.client_of_erase
    fun a ha => h.nonneg a (Finset.mem_of_mem_erase ha)
  refine ⟨hfd₁, hfd₂, usesOwn_append.mpr ⟨huse₁, ?_⟩, ?_⟩
  · rw [hheld₁]
    exact huse₂
  · rw [heldAfter_append, hheld₁, hheld₂]
    rfl

/-- `accept4` overwrites `m_clientSockfd`: afterwards everything but `m_sockfd` and the new
descriptor is lost. -/
theorem owns_accept {s s' : TCPSocket} {a : AcceptRet} (ho : Owns s H)
    (hf : FreshFrom H ([⟨.accept4 s.base.sockfd, a⟩].map actOf))
    (hs : s'.base.sockfd = s.base.sockfd) (hc : s'.clientSockfd = a.ret) :
    Owns s' (heldAfter H [⟨.accept4 s.base.sockfd, a⟩]) ∧
      lost s' (heldAfter H [⟨.accept4 s.base.sockfd, a⟩]) = H.erase s.base.sockfd := by
  have hneg : (-1 : ℤ) ∉ H := fun hmem => by have := ho.nonneg _ hmem; omega
  cases a with
  | failed =>
    change Owns s' H ∧ lost s' H = H.erase s.base.sockfd
    refine ⟨⟨ho.nonneg, hs ▸ ho.sockfd, Or.inl hc, ?_⟩, ?_⟩
    · intro hne
      rw [hc]
      exact hne.symm
    · rw [lost, hs, hc]
      exact Finset.erase_eq_of_notMem fun hmem => hneg (Finset.mem_of_mem_erase hmem)
  | accepted n peer =>
    have hn : (n : ℤ) ∉ H := (freshFrom_cons.mp hf).1 n rfl
    change Owns s' (insert (n : ℤ) H) ∧ lost s' (insert (n : ℤ) H) = H.erase s.base.sockfd
    have hne : s.base.sockfd ≠ -1 → (n : ℤ) ≠ s.base.sockfd := fun hne heq =>
      hn (heq ▸ ho.sockfd.resolve_left hne)
    refine ⟨⟨?_, ?_, Or.inr ?_, ?_⟩, ?_⟩
    · intro a ha
      rcases Finset.mem_insert.mp ha with rfl | ha
      · exact Int.natCast_nonneg n
      · exact ho.nonneg a ha
    · rw [hs]
      exact ho.sockfd.imp_right Finset.mem_insert_of_mem
    · rw [hc]
      exact Finset.mem_insert_self _ _
    · rw [hs, hc]
      exact hne
    · have hn' : (n : ℤ) ≠ s.base.sockfd := by
        by_cases h1 : s.base.sockfd = -1
        · omega
        · exact hne h1
      rw [lost, hs, hc]
      change ((insert (n : ℤ) H).erase s.base.sockfd).erase (n : ℤ) = _
      rw [Finset.erase_insert_of_ne hn', Finset.erase_insert]
      exact fun hmem => hn (Finset.mem_of_mem_erase hmem)

/-- **One call preserves the invariant**, uses only own descriptors, and loses one exactly if
it is an `acceptConnection` that finds `m_clientSockfd` occupied. -/
theorem owns_step {c : TcpCall} (hc : c.Valid TcpOp.exec) (ho : Owns c.pre H)
    (hf : FreshFrom H (c.trace.map actOf)) :
    UsesOwn H c.trace ∧ Owns c.post (heldAfter H c.trace) ∧
      (lost c.post (heldAfter H c.trace) = ∅ ↔
        lost c.pre H = ∅ ∧ (c.op = .acceptConnection → c.pre.clientSockfd < 0)) := by
  cases tcpEffect hc with
  | quiet op trace sockfd clientSockfd =>
    obtain ⟨huse, hheld⟩ := usesOwn_of_other (H := H) fun e he => by
      refine ⟨(trace e he).1, fun fd hfd => ?_⟩
      rcases (trace e he).2 fd hfd with rfl | rfl
      · exact ho.sockfd
      · exact ho.clientSockfd
    rw [hheld]
    refine ⟨huse, ⟨ho.nonneg, ?_, ?_, ?_⟩, ?_⟩
    · rw [sockfd]; exact ho.sockfd
    · rw [clientSockfd]; exact ho.clientSockfd
    · rw [sockfd, clientSockfd]; exact ho.ne
    · simp [lost, sockfd, clientSockfd, op]
  | accept a op trace sockfd clientSockfd =>
    rw [trace] at hf ⊢
    obtain ⟨hpost, hlost⟩ := owns_accept ho hf sockfd clientSockfd
    refine ⟨usesOwn_cons.mpr ⟨⟨?_, ?_⟩, along_nil⟩, hpost, ?_⟩
    · intro fd hfd
      obtain rfl := Option.some.inj hfd
      exact ho.sockfd
    · intro b hb
      cases a <;> cases hb
    · rw [hlost]
      unfold lost
      constructor
      · intro hempty
        refine ⟨by rw [hempty]; rfl, fun _ => ?_⟩
        rcases ho.client_of_erase with hneg | hmem
        · omega
        · rw [hempty] at hmem
          exact absurd hmem (Finset.notMem_empty _)
      · rintro ⟨hempty, hneg⟩
        rwa [Finset.erase_eq_of_notMem] at hempty
        intro hmem
        have hpos := ho.nonneg _ (Finset.mem_of_mem_erase hmem)
        have hlt := hneg op
        omega
  | close tr₁ tr₂ op trace sockfd clientSockfd =>
    obtain ⟨hfd₁, hfd₂, huse, hheld⟩ := run_closeFds ho sockfd clientSockfd
    rw [trace, hheld]
    have hpos : ∀ a ∈ lost c.pre H, 0 ≤ a := fun a ha =>
      ho.nonneg a (Finset.mem_of_mem_erase (Finset.mem_of_mem_erase ha))
    have hnot : (-1 : ℤ) ∉ lost c.pre H := fun hmem => by have := hpos _ hmem; omega
    refine ⟨huse, ⟨hpos, Or.inl hfd₁, Or.inl hfd₂, fun hne => absurd hfd₁ hne⟩, ?_⟩
    rw [lost, hfd₁, hfd₂, Finset.erase_eq_of_notMem hnot, Finset.erase_eq_of_notMem hnot]
    simp [op]

/-! ## 3. Whole lives -/

/-- `acceptConnection` is only called while `m_clientSockfd` holds no descriptor. -/
def AcceptsWhenFree (h : List TcpCall) : Prop :=
  ∀ c ∈ h, c.op = .acceptConnection → c.pre.clientSockfd < 0

theorem acceptsWhenFree_cons {c : TcpCall} {h : List TcpCall} :
    AcceptsWhenFree (c :: h) ↔
      (c.op = .acceptConnection → c.pre.clientSockfd < 0) ∧ AcceptsWhenFree h :=
  List.forall_mem_cons

/-- **Any calls in any order preserve the invariant.** -/
theorem owns_history {h : List TcpCall} {s s' : TCPSocket} (hh : History TcpOp.exec s h s')
    (ho : Owns s H) (hf : FreshFrom H ((traceOf h).map actOf)) :
    UsesOwn H (traceOf h) ∧ Owns s' (heldAfter H (traceOf h)) ∧
      (lost s' (heldAfter H (traceOf h)) = ∅ ↔ lost s H = ∅ ∧ AcceptsWhenFree h) := by
  induction h generalizing s H with
  | nil =>
    obtain rfl : s' = s := hh
    exact ⟨along_nil, ho, by simp [AcceptsWhenFree]⟩
  | cons c h ih =>
    obtain ⟨rfl, hv, hrest⟩ := history_cons.mp hh
    rw [traceOf_cons, List.map_append, freshFrom_append] at hf
    obtain ⟨huse, hpost, hlost⟩ := owns_step hv ho hf.1
    obtain ⟨huse', hpost', hlost'⟩ := ih hrest hpost hf.2
    rw [traceOf_cons, heldAfter_append]
    refine ⟨usesOwn_append.mpr ⟨huse, huse'⟩, hpost', ?_⟩
    rw [hlost', hlost, acceptsWhenFree_cons, and_assoc]

/-- The life of a `TCPSocket` that leaves the trace `tr`: a constructor that throws, or one
that returns, then the calls `h`, then the destructor. -/
inductive TcpLife (type : SocketType) : List TcpCall → List Ev → Prop where
  | unborn {e : Thrown} {tr : List Ev} (new : (TCPSocket.new type).Run tr (.error e)) :
      TcpLife type [] tr
  | lived {s s' : TCPSocket} {h : List TcpCall} {tr₁ tr₂ : List Ev}
      (new : (TCPSocket.new type).Run tr₁ (.ok s)) (calls : History TcpOp.exec s h s')
      (destroy : s'.destroy.Run tr₂ ()) : TcpLife type h (tr₁ ++ traceOf h ++ tr₂)

/-- A new object owns the one descriptor it was given. -/
theorem owns_new {type : SocketType} {s : TCPSocket}
    (h : (TCPSocket.new type).Run tr (.ok s)) :
    UsesOwn ∅ tr ∧ Owns s (heldAfter ∅ tr) ∧ lost s (heldAfter ∅ tr) = ∅ := by
  rcases TCPSocket.run_new.mp h with ⟨-, hs⟩ | ⟨n, rfl, hs⟩
  · cases hs
  · obtain rfl := Except.ok.inj hs
    refine ⟨usesOwn_cons.mpr ⟨⟨?_, ?_⟩, along_nil⟩, ⟨?_, ?_, Or.inl rfl, ?_⟩, ?_⟩
    · intro fd hfd; cases hfd
    · intro a ha; cases ha
    · intro a ha
      obtain rfl : a = (n : ℤ) := by simpa [actOf, Act.apply] using ha
      exact Int.natCast_nonneg n
    · exact Or.inr (Finset.mem_insert_self _ _)
    · exact fun hne => hne.symm
    · simp [lost, actOf, Act.apply]

/-- **A whole life.**  Only own descriptors are used, and at the end nothing is held exactly
if no `acceptConnection` found `m_clientSockfd` occupied. -/
theorem tcpLife_owns {type : SocketType} {h : List TcpCall} (hl : TcpLife type h tr)
    (hf : FreshFrom ∅ (tr.map actOf)) :
    UsesOwn ∅ tr ∧ (heldAfter ∅ tr = ∅ ↔ AcceptsWhenFree h) := by
  cases hl with
  | unborn new =>
    rcases TCPSocket.run_new.mp new with ⟨rfl, -⟩ | ⟨n, -, hs⟩
    · refine ⟨(usesOwn_of_other fun e he => ?_).1, by simp [actOf, Act.apply, AcceptsWhenFree]⟩
      obtain rfl := List.mem_singleton.mp he
      exact ⟨rfl, fun fd hfd => by cases hfd⟩
    · cases hs
  | lived new calls destroy =>
    rw [List.map_append, List.map_append, freshFrom_append, freshFrom_append] at hf
    obtain ⟨hunew, honew, hlnew⟩ := owns_new new
    obtain ⟨hucalls, hocalls, hlcalls⟩ := owns_history calls honew hf.1.2
    obtain ⟨t₁, t₂, fd₁, fd₂, rfl, h₁, h₂⟩ := TCPSocket.run_destroy.mp destroy
    obtain ⟨-, -, hudestroy, hheld⟩ := run_closeFds hocalls h₁ h₂
    refine ⟨usesOwn_append.mpr ⟨usesOwn_append.mpr ⟨hunew, hucalls⟩, ?_⟩, ?_⟩
    · rw [heldAfter_append]
      exact hudestroy
    · simp only [heldAfter_append] at hheld ⊢
      rw [hheld, hlcalls]
      simp [hlnew]

/-! ## 4. Exactly once -/

/-- **The one leak.**  Every descriptor the kernel gave the object is closed by it exactly
once, if and only if `acceptConnection` was never called while `m_clientSockfd` held one.
The kernel is assumed to hand out numbers that are free. -/
theorem releasedOnce_iff_accept {type : SocketType} {h : List TcpCall}
    (hl : TcpLife type h tr) (hf : FreshFrom ∅ (tr.map actOf)) :
    ReleasedOnce (tr.map actOf) ↔ AcceptsWhenFree h := by
  obtain ⟨huse, hheld⟩ := tcpLife_owns hl hf
  rw [releasedOnce_iff hf huse.ownedFrom, ← hheld]
  rfl

/-- A server accepts one connection. -/
def acceptOnce : List TcpCall := [acceptFour]

/-- A server accepts a second connection after the first. -/
def acceptTwice : List TcpCall := [acceptFour, acceptCall acceptFour.post (.accepted 5 {})]

theorem tcpLife_acceptOnce : TcpLife .server acceptOnce
    [⟨.socket .stream, .fd 3⟩, ⟨.accept4 3, .accepted 4 {}⟩, ⟨.close 3, .ok⟩, ⟨.close 4, .ok⟩] :=
  .lived run_new_serverThree ⟨_, ⟨rfl, acceptCall_valid, rfl⟩, rfl⟩
    (TCPSocket.run_destroy.mpr ⟨[_], [_], -1, -1, rfl,
      run_closeFd.mpr (Or.inr ⟨by decide, .ok, rfl, rfl⟩),
      run_closeFd.mpr (Or.inr ⟨by decide, .ok, rfl, rfl⟩)⟩)

theorem tcpLife_acceptTwice : TcpLife .server acceptTwice
    [⟨.socket .stream, .fd 3⟩, ⟨.accept4 3, .accepted 4 {}⟩, ⟨.accept4 3, .accepted 5 {}⟩,
      ⟨.close 3, .ok⟩, ⟨.close 5, .ok⟩] :=
  .lived run_new_serverThree
    ⟨_, ⟨rfl, acceptCall_valid, rfl⟩, _, ⟨rfl, acceptCall_valid, rfl⟩, rfl⟩
    (TCPSocket.run_destroy.mpr ⟨[_], [_], -1, -1, rfl,
      run_closeFd.mpr (Or.inr ⟨by decide, .ok, rfl, rfl⟩),
      run_closeFd.mpr (Or.inr ⟨by decide, .ok, rfl, rfl⟩)⟩)

/-- The server that accepts once closes what it was given. -/
theorem releasedOnce_acceptOnce :
    ReleasedOnce [Act.acquire (3 : ℤ), .acquire 4, .release 3, .release 4] ↔
      AcceptsWhenFree acceptOnce :=
  releasedOnce_iff_accept tcpLife_acceptOnce
    (by simp [FreshFrom, along_cons, actOf, Act.apply])

/-- The server that accepts twice never closes descriptor 4. -/
theorem acceptTwice_leaks :
    ¬ ∀ (type : SocketType) (h : List TcpCall) (tr : List Ev), TcpLife type h tr →
      FreshFrom ∅ (tr.map actOf) → ReleasedOnce (tr.map actOf) := by
  intro hall
  have honce := hall _ _ _ tcpLife_acceptTwice
    (by simp [FreshFrom, along_cons, actOf, Act.apply])
  exact absurd (honce [.acquire 3] 4 [.acquire 5, .release 3, .release 5] rfl) (by decide)

/-! ## 5. The rest of the process -/

/-- An entry of the trace of the whole process: a call the object makes, or a descriptor that
the rest of the process opens or closes. -/
inductive ProcEv where
  | own (e : Ev)
  | restOpen (fd : ℤ)
  | restClose (fd : ℤ)

def ProcEv.own? : ProcEv → Option Ev
  | .own e => some e
  | _ => none

/-- The object's part of a process trace. -/
def ownTrace (pt : List ProcEv) : List Ev := pt.filterMap ProcEv.own?

/-- What an entry means for the descriptors of the rest of the process. -/
def ProcEv.restAct : ProcEv → Act ℤ
  | .own _ => .other
  | .restOpen fd => .acquire fd
  | .restClose fd => .release fd

/-- The descriptors open in the rest of the process. -/
def restFds (pt : List ProcEv) : Finset ℤ := held (pt.map ProcEv.restAct)

/-- The descriptor an entry hands out, to the object or to the rest of the process. -/
def ProcEv.opened? : ProcEv → Option ℤ
  | .own e => match actOf e with | .acquire fd => some fd | _ => none
  | .restOpen fd => some fd
  | .restClose _ => none

/-- The kernel hands out only numbers that are free in the whole process. -/
def KernelFresh (pt : List ProcEv) : Prop :=
  Along (fun pre p => ∀ fd, p.opened? = some fd →
    fd ∉ heldAfter ∅ (ownTrace pre) ∧ fd ∉ restFds pre) pt

/-- What the object is given is free among its own descriptors. -/
theorem KernelFresh.freshFrom {pt : List ProcEv} (hk : KernelFresh pt) :
    FreshFrom ∅ ((ownTrace pt).map actOf) := by
  unfold FreshFrom ownTrace
  rw [along_map, along_filterMap]
  refine hk.mono fun pre p hp e he a ha => ?_
  cases p with
  | own e' =>
    obtain rfl := Option.some.inj he
    exact (hp a (by simp [ProcEv.opened?, ha])).1
  | restOpen fd => cases he
  | restClose fd => cases he

theorem KernelFresh.of_append {pt₁ pt₂ : List ProcEv} (hk : KernelFresh (pt₁ ++ pt₂)) :
    KernelFresh pt₁ :=
  (along_append.mp hk).1

/-- **Nobody shares a descriptor with the object.** -/
theorem KernelFresh.disjoint {pt : List ProcEv} (hk : KernelFresh pt) :
    Disjoint (heldAfter ∅ (ownTrace pt)) (restFds pt) := by
  induction pt using List.reverseRecOn with
  | nil => exact Finset.disjoint_empty_left _
  | append_singleton pt p ih =>
    have hd := ih hk.of_append
    have hfresh := hk pt p [] rfl
    have hown : heldAfter ∅ (ownTrace (pt ++ [p])) =
        match p with
        | .own e => (actOf e).apply (heldAfter ∅ (ownTrace pt))
        | _ => heldAfter ∅ (ownTrace pt) := by
      unfold ownTrace
      rw [List.filterMap_append, heldAfter_append]
      cases p <;> rfl
    have hrest : restFds (pt ++ [p]) = p.restAct.apply (restFds pt) := by
      simp [restFds]
    rw [hown, hrest]
    cases p with
    | own e =>
      change Disjoint ((actOf e).apply (heldAfter ∅ (ownTrace pt))) (restFds pt)
      cases hact : actOf e with
      | acquire a =>
        have ha := (hfresh a (by simp [ProcEv.opened?, hact])).2
        exact Finset.disjoint_insert_left.mpr ⟨ha, hd⟩
      | release a => exact hd.mono_left (Finset.erase_subset _ _)
      | other => exact hd
    | restOpen a =>
      have ha := (hfresh a rfl).1
      exact Finset.disjoint_insert_right.mpr ⟨ha, hd⟩
    | restClose a => exact hd.mono_right (Finset.erase_subset _ _)

/-- **Nothing is used after it was given up.**  In any life of the object inside a process that
opens and closes descriptors at any point, every call of the object is issued on `-1` or on a
descriptor that the kernel gave the object and the object has not closed; and never on one
that the rest of the process has open. -/
theorem tcpSocket_uses_own {type : SocketType} {h : List TcpCall} {pt : List ProcEv}
    (hl : TcpLife type h (ownTrace pt)) (hk : KernelFresh pt) :
    ∀ pre e post fd, pt = pre ++ .own e :: post → e.1.fd? = some fd →
      fd = -1 ∨ (fd ∈ openFds (ownTrace pre) ∧ fd ∉ restFds pre) := by
  intro pre e post fd hpt hfd
  subst hpt
  have huse : UsesOwn ∅ (ownTrace (pre ++ .own e :: post)) := (tcpLife_owns hl hk.freshFrom).1
  have hown := along_filterMap.mp huse pre (.own e) post rfl e rfl
  rcases hown.1 fd hfd with hneg | hmem
  · exact Or.inl hneg
  · exact Or.inr ⟨hmem, Finset.disjoint_left.mp hk.of_append.disjoint hmem⟩

/-- The server that accepts once, in a process that opens 3 again as soon as it is closed: the
last call is still on the server's own 4. -/
theorem tcpSocket_uses_own_acceptOnce :
    (4 : ℤ) = -1 ∨
      ((4 : ℤ) ∈ openFds (ownTrace [.own ⟨.socket .stream, .fd 3⟩,
        .own ⟨.accept4 3, .accepted 4 {}⟩, .own ⟨.close 3, .ok⟩, .restOpen 3]) ∧
      (4 : ℤ) ∉ restFds [.own ⟨.socket .stream, .fd 3⟩, .own ⟨.accept4 3, .accepted 4 {}⟩,
        .own ⟨.close 3, .ok⟩, .restOpen 3]) :=
  tcpSocket_uses_own tcpLife_acceptOnce (by
    simp [KernelFresh, along_cons, ProcEv.opened?, actOf, ownTrace, ProcEv.own?, restFds,
      ProcEv.restAct, Act.apply]) _ ⟨.close 4, .ok⟩ [] 4 rfl rfl

end InternetProgramming
