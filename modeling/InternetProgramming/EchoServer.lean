/-
# The echo loop: `app/case2_socket_udp/server/src/main.cpp`

The server reads into one buffer, measures what it read with `strlen`, and sends that back.
Nothing in the loop looks at how much was received: `receiveData` does not tell.  So what is
sent is the TEXT in the buffer, and the buffer still holds the tail of whatever longer block
came before, or nothing that ends the text at all.

`echo_iff` is the exact condition under which the loop echoes: no block is empty (the peer
never closes), no block contains a zero byte, no block is shorter than one before it, and the
cell just behind each block was zero when the loop was entered.
-/
import InternetProgramming.Interaction.Fifo
import InternetProgramming.SocketSpec

namespace InternetProgramming

open Interaction

variable {tr : List Ev}

/-! ## 1. The program -/

/-- `MAX_LINE`. -/
def maxLine : ℕ := 2048

/-- The variables of `main`: the socket and the buffer `msg`, which is not initialised. -/
structure EchoServer where
  socket : TCPSocket
  msg : Buffer UInt8 maxLine

namespace EchoServer

/-- A method of `socket`. -/
def onSocket {α : Type} (m : Method TCPSocket α) : Method EchoServer α :=
  Meth.zoom socket (fun t s => { s with socket := t }) m

/-- The iteration after `receiveData`: print, send back, print.  `strlen(msg)` and the two
prints each read `msg` as a C string. -/
def answer (msg : Buffer UInt8 maxLine) : Method EchoServer Unit := do
  let received ← cString msg
  let _ ← sys (.cout "Received: " received)
  let data ← cString msg
  onSocket (TCPSocket.sendData data)
  let sent ← cString msg
  let _ ← sys (.cout "Sent: " sent)

/-- The body of `while (true)`. -/
def iteration : Method EchoServer Unit := do
  let s ← get
  let msg ← onSocket (TCPSocket.receiveData s.msg maxLine)
  modify fun s => { s with msg := msg }
  answer msg

end EchoServer

/-! ## 2. What an iteration receives and sends -/

/-- The block an entry of the trace hands to `send`. -/
def sent? (e : Ev) : Option Bytes :=
  match e.1 with
  | .send _ data => some data
  | _ => none

/-- The blocks handed to `send`, in order. -/
def sends (tr : List Ev) : List Bytes := tr.filterMap sent?

/-- The blocks received before the end of the stream. -/
def chunks (tr : List Ev) : List Bytes := (receipts tr).filter fun data => data ≠ []

@[simp] theorem sends_nil : sends [] = [] := rfl

@[simp] theorem sends_cons {e : Ev} : sends (e :: tr) = (sent? e).toList ++ sends tr := by
  unfold sends
  rw [List.filterMap_cons]
  cases sent? e <;> rfl

@[simp] theorem sends_append {tr₁ tr₂ : List Ev} : sends (tr₁ ++ tr₂) = sends tr₁ ++ sends tr₂ :=
  List.filterMap_append

/-- Reading a C string neither sends nor receives. -/
theorem cString_silent {n : ℕ} {buffer : Buffer UInt8 n} {text : Bytes}
    (h : (cString buffer).Run tr text) : sends tr = [] ∧ receipts tr = [] := by
  have hmarks := marks_cString h
  constructor
  · exact List.filterMap_eq_nil_iff.mpr (hmarks.forall_mem (fun _ _ => rfl) fun _ => rfl)
  · exact List.filterMap_eq_nil_iff.mpr (hmarks.forall_mem (fun _ _ => rfl) fun _ => rfl)

/-- One iteration. -/
abbrev EchoPass := Iteration Sys Sys.Ret Thrown EchoServer

/-- What an iteration does: either `recv` fails and the loop ends, or a block is received and
the text that is then in the buffer is sent. -/
inductive EchoEffect (c : EchoPass) : Prop where
  | failed (res : ∃ e, c.res = .error e) (receipts : receipts c.trace = [])
      (sends : sends c.trace = []) (inside : InBuffers c.trace)
  | answered (data reply : Bytes) (le : data.length ≤ maxLine)
      (receipts : receipts c.trace = [data]) (sends : sends c.trace = [reply])
      (msg : c.post.msg = c.pre.msg.write data)
      (inside : InBuffers c.trace ↔ c.post.msg.text? = some reply)
      (text : ∀ text, c.post.msg.text? = some text → reply = text)

/-- Whatever becomes of the `send`, the text in `msg` is handed to it, and the iteration stays
inside `msg` exactly when that text ends there. -/
theorem run_answer {msg : Buffer UInt8 maxLine} {s s' : EchoServer} {r : Except Thrown Unit}
    (h : Meth.Run (EchoServer.answer msg) s tr r s') :
    receipts tr = [] ∧ s'.msg = s.msg ∧
      ∃ reply, sends tr = [reply] ∧ (InBuffers tr ↔ msg.text? = some reply) ∧
        ∀ text, msg.text? = some text → reply = text := by
  simp only [EchoServer.answer, Meth.run_liftM_bind, Prog.run_perform] at h
  obtain ⟨text, t₁, _, rfl, h₁, _, _, _, rfl, rfl, reply, t₂, _, rfl, h₂, h⟩ := h
  obtain ⟨hs₁, hr₁⟩ := cString_silent h₁
  obtain ⟨hs₂, hr₂⟩ := cString_silent h₂
  rw [Meth.run_bind] at h
  rcases h with ⟨e, hsend, rfl⟩ | ⟨_, s₁, t₃, _, rfl, hsend, h⟩
  · -- `send` failed, and nothing is printed
    obtain ⟨t, ht, rfl⟩ := Meth.run_zoom.mp hsend
    obtain ⟨a, rfl, -, rfl⟩ := TCPSocket.run_sendData.mp ht
    refine ⟨by simp [hr₁, hr₂, received?], rfl, reply, by simp [hs₁, hs₂, sent?], ?_,
      fun _ => cString_eq_text h₂⟩
    rw [← inBuffers_cString h₂]
    simp [inBuffers_cString_congr h₁ h₂, Sys.leavesBuffer]
  · obtain ⟨t, ht, rfl⟩ := Meth.run_zoom.mp hsend
    obtain ⟨a, rfl, -, rfl⟩ := TCPSocket.run_sendData.mp ht
    simp only [Meth.run_liftM_bind, Prog.run_perform, Meth.run_pure] at h
    obtain ⟨text', t₄, _, rfl, h₄, _, _, _, rfl, rfl, rfl, -, rfl⟩ := h
    obtain ⟨hs₄, hr₄⟩ := cString_silent h₄
    refine ⟨by simp [hr₁, hr₂, hr₄, received?], rfl, reply, by simp [hs₁, hs₂, hs₄, sent?], ?_,
      fun _ => cString_eq_text h₂⟩
    rw [← inBuffers_cString h₂]
    simp [inBuffers_cString_congr h₁ h₂, inBuffers_cString_congr h₄ h₂, Sys.leavesBuffer]

/-- **The effect of every iteration.** -/
theorem echoEffect {c : EchoPass} (h : c.Valid fun _ => EchoServer.iteration) :
    EchoEffect c := by
  obtain ⟨pre, op, tr, res, post⟩ := c
  change Meth.Run EchoServer.iteration pre tr res post at h
  rw [EchoServer.iteration, Meth.run_get_bind, Meth.run_bind] at h
  rcases h with ⟨e, hrecv, rfl⟩ | ⟨msg, s₁, tr₁, tr₂, rfl, hrecv, h⟩
  · obtain ⟨t, ht, rfl⟩ := Meth.run_zoom.mp hrecv
    obtain ⟨-, ⟨rfl, -⟩ | ⟨_, _, _, _, -, -, hr⟩⟩ := TCPSocket.run_receiveData.mp ht
    · exact .failed ⟨e, rfl⟩ rfl rfl (by simp [Sys.leavesBuffer])
    · cases hr
  · obtain ⟨t, ht, rfl⟩ := Meth.run_zoom.mp hrecv
    obtain ⟨rfl, ⟨-, hr⟩ | ⟨data, le, tr', msg', rfl, hcopy, hr⟩⟩ :=
      TCPSocket.run_receiveData.mp ht
    · cases hr
    · obtain rfl := Except.ok.inj hr
      obtain ⟨rfl, rfl⟩ := (run_copyIn_of_le le).mp hcopy
      rw [Meth.run_modify_bind] at h
      obtain ⟨hrec, hmsg, reply, hsend, hinside, htext⟩ := run_answer h
      refine .answered data reply le (by simp [hrec, received?]) (by simp [hsend, sent?]) hmsg
        ?_ ?_
      · rw [hmsg]
        simpa [Sys.leavesBuffer] using hinside
      · rw [hmsg]
        exact htext

/-! ## 3. When an iteration echoes -/

/-- What was received is sent back, and nothing else, and nothing outside `msg` is read. -/
def Echoes (tr : List Ev) : Prop := sends tr = chunks tr ∧ InBuffers tr

/-- The block can be sent back from `msg`: it is not empty, it contains no zero, and the cell
behind it is one. -/
def Answerable (msg : Buffer UInt8 maxLine) (data : Bytes) : Prop :=
  data ≠ [] ∧ 0 ∉ data ∧ msg.cells[data.length]? = some 0

/-- **One iteration.** -/
theorem echoes_iteration_iff {c : EchoPass} (h : c.Valid fun _ => EchoServer.iteration) :
    Echoes c.trace ↔ ∀ data ∈ receipts c.trace, Answerable c.pre.msg data := by
  cases echoEffect h with
  | failed res receipts sends inside => simp [Echoes, chunks, receipts, sends, inside]
  | answered data reply le receipts sends msg inside text =>
    rw [Echoes, chunks, receipts, sends, inside, List.forall_mem_singleton, Answerable,
      ← Buffer.text?_write le, ← msg]
    by_cases hdata : data = []
    · simp [hdata]
    · simp only [ne_eq, hdata, not_false_eq_true, decide_true, List.filter_cons_of_pos,
        List.filter_nil, List.cons.injEq, and_true, true_and]
      constructor
      · rintro ⟨rfl, htext⟩
        exact htext
      · intro htext
        have hreply : reply = data := text data htext
        exact ⟨hreply, hreply.symm ▸ htext⟩

/-! ## 4. When the loop echoes -/

/-- The blocks can be sent back one after the other from one `msg`: each is answerable from
what `msg` held at first, and none is shorter than one before it. -/
def Echoable (msg : Buffer UInt8 maxLine) (blocks : List Bytes) : Prop :=
  (∀ data ∈ blocks, Answerable msg data) ∧
    blocks.Pairwise fun data later => data.length ≤ later.length

/-- **What a block does to the blocks after it.**  They are received into the buffer the block
was stored in, which has lost its zeros up to the block's end. -/
theorem echoable_cons {msg : Buffer UInt8 maxLine} {data : Bytes} {blocks : List Bytes}
    (le : data.length ≤ maxLine) :
    Echoable msg (data :: blocks) ↔
      Answerable msg data ∧ Echoable (msg.write data) blocks := by
  unfold Echoable
  rw [List.forall_mem_cons, List.pairwise_cons]
  constructor
  · rintro ⟨⟨hdata, hall⟩, hle, hpair⟩
    refine ⟨hdata, fun later hmem => ?_, hpair⟩
    obtain ⟨hne, h0, hz⟩ := hall later hmem
    exact ⟨hne, h0, (Buffer.terminator_write le hdata.2.1).mpr ⟨hle later hmem, hz⟩⟩
  · rintro ⟨hdata, hall, hpair⟩
    have hz : ∀ later ∈ blocks, data.length ≤ later.length ∧
        msg.cells[later.length]? = some 0 := fun later hmem =>
      (Buffer.terminator_write le hdata.2.1).mp (hall later hmem).2.2
    refine ⟨⟨hdata, fun later hmem => ?_⟩, fun later hmem => (hz later hmem).1, hpair⟩
    obtain ⟨hne, h0, -⟩ := hall later hmem
    exact ⟨hne, h0, (hz later hmem).2⟩

/-- Every iteration of the loop echoes if and only if the blocks are echoable. -/
theorem echoes_iterations_iff {h : List EchoPass} {s s' : EchoServer}
    (hl : LoopRun EchoServer.iteration s h s') :
    (∀ c ∈ h, Echoes c.trace) ↔ Echoable s.msg (receipts (traceOf h)) := by
  induction h generalizing s with
  | nil => simp [Echoable]
  | cons c h ih =>
    obtain ⟨rfl, hv, hrest⟩ := hl
    have htail : (∀ c ∈ h, Echoes c.trace) ↔ Echoable c.post.msg (receipts (traceOf h)) := by
      cases hres : c.res with
      | ok u =>
        rw [hres] at hrest
        exact ih hrest
      | error e =>
        rw [hres] at hrest
        obtain ⟨rfl, -⟩ := hrest
        simp [Echoable]
    rw [List.forall_mem_cons, htail, echoes_iteration_iff hv, traceOf_cons, receipts_append]
    cases echoEffect hv with
    | failed res receipts sends inside =>
      -- nothing was received, and there is no next iteration
      obtain ⟨e, he⟩ := res
      rw [he] at hrest
      obtain ⟨rfl, -⟩ := hrest
      simp [receipts, Echoable]
    | answered data reply le receipts sends msg inside text =>
      rw [receipts, msg, List.singleton_append, echoable_cons le, List.forall_mem_singleton]

/-- No iteration sends less than it received. -/
theorem length_chunks_le {c : EchoPass} (h : c.Valid fun _ => EchoServer.iteration) :
    (chunks c.trace).length ≤ (sends c.trace).length := by
  cases echoEffect h with
  | failed res receipts sends inside => simp [chunks, receipts]
  | answered data reply le receipts sends msg inside text =>
    rw [sends, chunks, receipts]
    exact List.length_filter_le _ _

theorem sends_traceOf {h : List EchoPass} :
    sends (traceOf h) = h.flatMap fun c => sends c.trace := by
  induction h with
  | nil => rfl
  | cons c h ih => rw [traceOf_cons, sends_append, ih, List.flatMap_cons]

theorem chunks_traceOf {h : List EchoPass} :
    chunks (traceOf h) = h.flatMap fun c => chunks c.trace := by
  induction h with
  | nil => rfl
  | cons c h ih =>
    rw [List.flatMap_cons, ← ih, traceOf_cons]
    simp only [chunks, receipts_append, List.filter_append]

/-- **When the loop echoes.**  In any run of the loop, the byte strings sent are the blocks
received, and nothing outside `msg` is read, if and only if no block is empty, none contains a
zero byte, none is shorter than one before it, and the cell of `msg` behind each of them was
zero when the loop was entered. -/
theorem echo_iff {h : List EchoPass} {s s' : EchoServer}
    (hl : LoopRun EchoServer.iteration s h s') :
    Echoes (traceOf h) ↔ Echoable s.msg (receipts (traceOf h)) := by
  have hle : ∀ c ∈ h, (chunks c.trace).length ≤ (sends c.trace).length := fun c hc =>
    length_chunks_le (hl.valid c hc)
  rw [← echoes_iterations_iff hl, Echoes, sends_traceOf, chunks_traceOf, flatMap_eq_iff hle,
    inBuffers_traceOf]
  exact forall₂_and.symm

/-- An iteration that receives `data` while the buffer holds the text `text` after it. -/
def echoPass (s : EchoServer) (data text : Bytes) (le : data.length ≤ maxLine) : EchoPass where
  pre := s
  op := ()
  trace := [⟨.recv s.socket.dataFd maxLine, .received data le⟩, ⟨.cout "Received: " text, ()⟩,
    ⟨.send s.socket.dataFd text, .sent text.length (Nat.le_refl _)⟩, ⟨.cout "Sent: " text, ()⟩]
  res := .ok ()
  post := { s with msg := s.msg.write data }

theorem echoPass_valid {s : EchoServer} {data text : Bytes} {le : data.length ≤ maxLine}
    (htext : (s.msg.write data).text? = some text) :
    (echoPass s data text le).Valid fun _ => EchoServer.iteration := by
  have hread : (cString (s.msg.write data)).Run [] text := run_cString.mpr (Or.inl ⟨htext, rfl⟩)
  have hrecv : Meth.Run (EchoServer.onSocket (TCPSocket.receiveData s.msg maxLine)) s
      [⟨.recv s.socket.dataFd maxLine, .received data le⟩] (.ok (s.msg.write data)) s :=
    Meth.run_zoom.mpr ⟨_, TCPSocket.run_receiveData.mpr ⟨rfl, Or.inr ⟨data, le, [], _, rfl,
      (run_copyIn_of_le le).mpr ⟨rfl, rfl⟩, rfl⟩⟩, rfl⟩
  have hsend : Meth.Run (EchoServer.onSocket (TCPSocket.sendData text))
      { s with msg := s.msg.write data }
      [⟨.send s.socket.dataFd text, .sent text.length (Nat.le_refl _)⟩] (.ok ())
      { s with msg := s.msg.write data } :=
    Meth.run_zoom.mpr ⟨_, TCPSocket.run_sendData.mpr
      ⟨.sent text.length (Nat.le_refl _), rfl, rfl, rfl⟩, rfl⟩
  change Meth.Run EchoServer.iteration s _ _ _
  rw [EchoServer.iteration, Meth.run_get_bind]
  refine hrecv.bind ?_
  rw [Meth.run_modify_bind, EchoServer.answer]
  refine Meth.run_liftM_bind.mpr ⟨text, [], _, rfl, hread, ?_⟩
  refine Meth.run_liftM_bind.mpr ⟨(), [_], _, rfl, Prog.run_perform.mpr rfl, ?_⟩
  refine Meth.run_liftM_bind.mpr ⟨text, [], _, rfl, hread, ?_⟩
  refine hsend.bind ?_
  refine Meth.run_liftM_bind.mpr ⟨text, [], _, rfl, hread, ?_⟩
  refine Meth.run_liftM_bind.mpr ⟨(), [_], [], rfl, Prog.run_perform.mpr rfl, ?_⟩
  exact Meth.run_pure.mpr ⟨rfl, rfl, rfl⟩

/-- A server that accepted a connection, with a buffer of zeros. -/
def echoStart : EchoServer := ⟨acceptFour.post, .replicate maxLine 0⟩

/-- The peer sends `hi`. -/
def hiPass : EchoPass := echoPass echoStart [104, 105] [104, 105] (by decide)

/-- Then it closes. -/
def eofPass : EchoPass := echoPass hiPass.post [] [104, 105] (Nat.zero_le _)

theorem text_hi : (echoStart.msg.write [104, 105]).text? = some [104, 105] := by
  exact (Buffer.text?_write (by decide)).mpr ⟨by decide, List.getElem?_replicate_of_lt (by decide)⟩

theorem loopRun_hi_eof :
    LoopRun EchoServer.iteration echoStart [hiPass, eofPass] eofPass.post := by
  refine ⟨rfl, echoPass_valid text_hi, rfl, echoPass_valid ?_, rfl⟩
  change ((echoStart.msg.write [104, 105]).write []).text? = _
  rw [Buffer.write_nil]
  exact text_hi

/-- Or it sends `hey`, which is stored over `hi`. -/
def heyPass : EchoPass := echoPass hiPass.post [104, 101, 121] [104, 101, 121] (by decide)

theorem zero_echoStart {i : ℕ} (hi : i < maxLine) : echoStart.msg.cells[i]? = some 0 :=
  List.getElem?_replicate_of_lt hi

theorem loopRun_hi_hey :
    LoopRun EchoServer.iteration echoStart [hiPass, heyPass] heyPass.post := by
  refine ⟨rfl, echoPass_valid text_hi, rfl, echoPass_valid ?_, rfl⟩
  refine (Buffer.text?_write (by decide)).mpr ⟨by decide, ?_⟩
  exact (Buffer.terminator_write (by decide) (by decide)).mpr
    ⟨by decide, zero_echoStart (by decide)⟩

theorem echoable_hi_hey : Echoable echoStart.msg [[104, 105], [104, 101, 121]] := by
  refine ⟨List.forall_mem_cons.mpr ⟨⟨by decide, by decide, ?_⟩, List.forall_mem_singleton.mpr
    ⟨by decide, by decide, ?_⟩⟩, by decide⟩
  · exact zero_echoStart (by decide)
  · exact zero_echoStart (by decide)

/-- Two blocks, of which the second is longer, come back. -/
theorem echo_iff_hi : Echoes (traceOf [hiPass, heyPass]) :=
  (echo_iff loopRun_hi_hey).mpr echoable_hi_hey

/-- The peer sends `hi` and closes, and is sent `hi` twice. -/
theorem echo_after_close :
    ¬ ∀ (h : List EchoPass) (s s' : EchoServer), s.socket.base.type = .server →
      0 ≤ s.socket.clientSockfd → LoopRun EchoServer.iteration s h s' →
      sends (traceOf h) = chunks (traceOf h) := by
  intro hall
  have hsends := hall _ _ _ rfl (by decide) loopRun_hi_eof
  exact absurd hsends (by decide)

end InternetProgramming
