/-
# The line client

`case2`, `case3`, `case4` and `case5` have one client: it sends each line it is given, and a
newline behind it, and prints what it receives.  How much it asks for is `strlen(recvline)`,
the length of the reply BEFORE; for the first line that is whatever lies in an array nobody
has initialised.  And since a received block has no terminator, what it prints is the block
and then the rest of the reply before.

So against a peer that echoes, it stays in step exactly as long as the old text and the
received block together are the new reply (`TurnsInto`): they have the same length, the block
is the reply's beginning, and where it stops short the old text happens to end as the reply
does.  `inStep_iff` proves this for all runs, and `inStep_iff_fitsFrom` puts it in terms of the
first text, the lines and the blocks alone; in particular the lines must all have the same length
(`inStep_length`).
-/
import InternetProgramming.SelectServer
import InternetProgramming.SocketSpec

namespace InternetProgramming

open Interaction

variable {tr : List Ev}

/-! ## 1. The program -/

/-- `'\n'`. -/
def newline : UInt8 := 10

/-- What `fgets(sendLine, BUFFER_SIZE, stdin)` can read: at least one byte, fewer than the size,
and nothing behind a newline. -/
structure Line where
  bytes : Bytes
  lt : bytes.length < bufferSize
  ne : bytes ≠ []
  newlineLast : newline ∉ bytes.dropLast

/-- The line up to its first zero byte, which is what `strlen` makes of it. -/
def Line.text (line : Line) : Bytes := line.bytes.takeWhile (· ≠ 0)

/-- What should be printed for it: the newline that is sent behind it comes back as well. -/
def Line.reply (line : Line) : Bytes := line.bytes ++ [newline]

/-- The objects of `main`. -/
structure LineClient where
  socket : TCPSocket
  sendLine : Buffer UInt8 bufferSize
  recvline : Buffer UInt8 (bufferSize + 1)

namespace LineClient

/-- A method of `socket`. -/
def onSocket {α : Type} (m : Method TCPSocket α) : Method LineClient α :=
  Meth.zoom socket (fun t s => { s with socket := t }) m

/-- `main` up to the loop.  Neither array is initialised. -/
def startup (sendLine : Buffer UInt8 bufferSize) (recvline : Buffer UInt8 (bufferSize + 1)) :
    SysM (Except Thrown LineClient) := do
  match ← TCPSocket.new .client with
  | .error e => pure (.error e)
  | .ok s => do
    let p ← (TCPSocket.connectToServer "127.0.0.1" 8080).run.run s
    pure (p.1.map fun _ => ⟨p.2, sendLine, recvline⟩)

/-- `recvline[strlen(recvline)] = '\0';` -/
def terminate {n : ℕ} (recvline : Buffer UInt8 n) : SysM (Buffer UInt8 n) := do
  let received ← cString recvline
  storeZero recvline received.length

/-- One iteration of the loop: what `fgets` has read into `sendLine`, and the body. -/
def exchange (line : Line) : Method LineClient Unit := do
  modify fun s => { s with sendLine := s.sendLine.write (line.bytes ++ [0]) }
  let s ← get
  let sending ← cString s.sendLine
  onSocket (TCPSocket.sendData sending)
  onSocket (TCPSocket.sendData [newline])
  let s ← get
  let stale ← cString s.recvline
  let recvline ← onSocket (TCPSocket.receiveData s.recvline stale.length)
  let recvline ← terminate recvline
  modify fun s => { s with recvline := recvline }
  let reply ← cString recvline
  sys (.cout "" reply)

/-- One iteration. -/
abbrev Exchange := Call Line Sys Sys.Ret Thrown LineClient Unit

/-- The iterations so far.  One that throws is the last. -/
def Session (s : LineClient) (h : List Exchange) (s' : LineClient) : Prop :=
  History exchange s h s' ∧ ∀ c ∈ h.dropLast, c.res = .ok ()

/-! ## 2. What is said about it -/

/-- What the entry prints. -/
def printedBy : Ev → Bytes
  | ⟨.cout _ text, _⟩ => text
  | _ => []

/-- Everything printed. -/
def printed (tr : List Ev) : Bytes := tr.flatMap printedBy

/-- The bytes the peer owes after one more entry: what it was sent and has not sent back. -/
def owed (q : Bytes) : Ev → Bytes
  | ⟨.send _ data, .sent count _⟩ => q ++ data.take count
  | ⟨.recv _ _, .received data _⟩ => q.drop data.length
  | _ => q

/-- The peer echoes, owing `q` at first: a block received is the beginning of what it owes, and
an empty one only where nothing was asked for. -/
def EchoesFrom (q : Bytes) (tr : List Ev) : Prop :=
  Along (fun pre e => ∀ fd size data le, e = ⟨.recv fd size, .received data le⟩ →
    data <+: pre.foldl owed q ∧ (0 < size → data ≠ [])) tr

/-- The peer echoes. -/
abbrev Echoes (tr : List Ev) : Prop := EchoesFrom [] tr

/-- **The property.**  No access leaves an array; and after each iteration what has been printed
are the lines so far, each with the newline sent behind it. -/
structure InStep (h : List Exchange) : Prop where
  inside : InBuffers (traceOf h)
  inOrder : ∀ h₁ h₂, h = h₁ ++ h₂ → (∀ c ∈ h₁, c.res = .ok ()) →
    printed (traceOf h₁) = (h₁.map Call.op).flatMap Line.reply

/-- A block received over an old text makes it the reply: the old text has the reply's length,
the block is the reply's beginning, and the old text goes on as the reply does. -/
structure TurnsInto (old data reply : Bytes) : Prop where
  size : old.length = reply.length
  front : data <+: reply
  back : old.drop data.length = reply.drop data.length

/-- If the iteration gets as far as `recv`, `recvline` holds some text; and what `recv` gives
turns that text into the reply. -/
def Fits (c : Exchange) : Prop :=
  ∀ fd size a, (⟨.recv fd size, a⟩ : Ev) ∈ c.trace →
    ∃ old, c.pre.recvline.text? = some old ∧
      ∀ data le, a = .received data le → TurnsInto old data c.op.reply

theorem turnsInto_iff {old data reply : Bytes} (hle : data.length ≤ old.length) :
    TurnsInto old data reply ↔ data ++ old.drop data.length = reply := by
  constructor
  · rintro ⟨-, ⟨rest, rfl⟩, hback⟩
    rw [hback, List.drop_left]
  · rintro rfl
    refine ⟨?_, List.prefix_append _ _, ?_⟩
    · rw [List.length_append, List.length_drop]
      omega
    · rw [List.drop_left]

/-! ## 3. What an echo cannot contain -/

theorem echoesFrom_cons {q : Bytes} {e : Ev} :
    EchoesFrom q (e :: tr) ↔ (∀ fd size data le, e = ⟨.recv fd size, .received data le⟩ →
      data <+: q ∧ (0 < size → data ≠ [])) ∧ EchoesFrom (owed q e) tr := along_cons

/-- The entry sends no zero byte. -/
def SendsText (e : Ev) : Prop := ∀ fd data, e.1 = .send fd data → 0 ∉ data

/-- The entry receives no zero byte. -/
def ReceivesText (e : Ev) : Prop :=
  ∀ fd size data le, e = ⟨.recv fd size, .received data le⟩ → 0 ∉ data

/-- A peer that owes text and is sent text owes text. -/
theorem zero_notMem_owed {q : Bytes} {e : Ev} (hq : 0 ∉ q) (he : SendsText e) :
    0 ∉ owed q e := by
  unfold owed
  split
  · rename_i fd data count le
    rw [List.mem_append, not_or]
    exact ⟨hq, fun hmem => he fd data rfl (List.mem_of_mem_take hmem)⟩
  · exact fun hmem => hq (List.mem_of_mem_drop hmem)
  · exact hq

/-- **A peer that is sent text sends text.** -/
theorem receivesText {q : Bytes} (h : EchoesFrom q tr) (hq : 0 ∉ q)
    (htr : ∀ e ∈ tr, SendsText e) : ∀ e ∈ tr, ReceivesText e := by
  induction tr generalizing q with
  | nil => simp
  | cons e tr ih =>
    obtain ⟨he, htr⟩ := List.forall_mem_cons.mp htr
    obtain ⟨hrecv, hrest⟩ := echoesFrom_cons.mp h
    refine List.forall_mem_cons.mpr ⟨?_, ih hrest (zero_notMem_owed hq he) htr⟩
    intro fd size data le heq hmem
    exact hq ((hrecv fd size data le heq).1.subset hmem)

/-! ## 4. One iteration -/

/-- The entries of `sendData`, for the line and for the newline. -/
def Sends (line : Line) (tr : List Ev) : Prop :=
  ∀ e ∈ tr, ∃ fd data, e.1 = .send fd data ∧ (data = line.text ∨ data = [newline])

/-- What an iteration can do: a `send` fails, `recv` fails, or the reply is printed. -/
inductive ExchangeEffect (s : LineClient) (line : Line) (tr : List Ev) (r : Except Thrown Unit)
    (s' : LineClient) : Prop where
  | unsent (sends : Sends line tr) (res : r ≠ .ok ())
  | unanswered (t t₁ : List Ev) (old : Bytes) (fd : ℤ)
      (trace : tr = t ++ (t₁ ++ [⟨.recv fd old.length, .failed⟩])) (sends : Sends line t)
      (measure : (cString s.recvline).Run t₁ old) (res : r ≠ .ok ())
  | answered (t t₁ t₂ t₃ t₄ : List Ev) (old data reply : Bytes) (fd : ℤ)
      (le : data.length ≤ old.length) (recvline recvline' : Buffer UInt8 (bufferSize + 1))
      (trace : tr = t ++ (t₁ ++ (⟨.recv fd old.length, .received data le⟩ ::
        (t₂ ++ (t₃ ++ (t₄ ++ [⟨.cout "" reply, ()⟩]))))))
      (sends : Sends line t) (measure : (cString s.recvline).Run t₁ old)
      (store : (copyIn s.recvline data).Run t₂ recvline)
      (again : (terminate recvline).Run t₃ recvline')
      (print : (cString recvline').Run t₄ reply) (res : r = .ok ())
      (post : s'.recvline = recvline')

theorem run_send {s s' : LineClient} {data : Bytes} {r : Except Thrown Unit} :
    Meth.Run (onSocket (TCPSocket.sendData data)) s tr r s' ↔
      ∃ a, tr = [⟨.send s.socket.dataFd data, a⟩] ∧
        r = (if a = .failed then .error (.runtimeError "Send failed") else .ok ()) ∧ s' = s := by
  rw [onSocket, Meth.run_zoom]
  constructor
  · rintro ⟨t, hrun, rfl⟩
    obtain ⟨a, rfl, rfl, rfl⟩ := TCPSocket.run_sendData.mp hrun
    exact ⟨a, rfl, rfl, rfl⟩
  · rintro ⟨a, rfl, rfl, rfl⟩
    exact ⟨s'.socket, TCPSocket.run_sendData.mpr ⟨a, rfl, rfl, rfl⟩, rfl⟩

theorem run_receive {s s' : LineClient} {n size : ℕ} {buffer : Buffer UInt8 n}
    {r : Except Thrown (Buffer UInt8 n)} :
    Meth.Run (onSocket (TCPSocket.receiveData buffer size)) s tr r s' ↔ s' = s ∧
      ((tr = [⟨.recv s.socket.dataFd size, .failed⟩] ∧
          r = .error (.runtimeError "Recv failed")) ∨
        ∃ data le tr' buffer', tr = ⟨.recv s.socket.dataFd size, .received data le⟩ :: tr' ∧
          (copyIn buffer data).Run tr' buffer' ∧ r = .ok buffer') := by
  rw [onSocket, Meth.run_zoom]
  constructor
  · rintro ⟨t, hrun, rfl⟩
    obtain ⟨rfl, hcases⟩ := TCPSocket.run_receiveData.mp hrun
    exact ⟨rfl, hcases⟩
  · rintro ⟨rfl, hcases⟩
    exact ⟨s'.socket, TCPSocket.run_receiveData.mpr ⟨rfl, hcases⟩, rfl⟩

theorem sends_of_send {line : Line} {fd : ℤ} {data : Bytes} {a : SendRet data.length}
    (h : data = line.text ∨ data = [newline]) : Sends line [⟨.send fd data, a⟩] := by
  intro e he
  obtain rfl := List.mem_singleton.mp he
  exact ⟨fd, data, rfl, h⟩

theorem Sends.append {line : Line} {tr₁ tr₂ : List Ev} (h₁ : Sends line tr₁)
    (h₂ : Sends line tr₂) : Sends line (tr₁ ++ tr₂) := List.forall_mem_append.mpr ⟨h₁, h₂⟩

/-- **The effect of an iteration.** -/
theorem exchangeEffect {s s' : LineClient} {line : Line} {r : Except Thrown Unit}
    (h : Meth.Run (exchange line) s tr r s') : ExchangeEffect s line tr r s' := by
  have htext : (s.sendLine.write (line.bytes ++ [0])).text? = some line.text :=
    Buffer.text?_write_append line.lt
  rw [exchange, Meth.run_modify_bind, Meth.run_get_bind, Meth.run_liftM_bind] at h
  obtain ⟨sending, t₀, t, rfl, hsending, h⟩ := h
  obtain ⟨rfl, rfl⟩ := (run_cString_of_text htext).mp hsending
  rw [List.nil_append]
  rcases Meth.run_bind.mp h with ⟨e, hsend, rfl⟩ | ⟨_, s₁, t₁, t₂, rfl, hsend, h⟩
  · obtain ⟨a, rfl, -, -⟩ := run_send.mp hsend
    exact .unsent (sends_of_send (Or.inl rfl)) (by simp)
  obtain ⟨a, rfl, -, rfl⟩ := run_send.mp hsend
  have hline : Sends line [⟨.send s.socket.dataFd line.text, a⟩] := sends_of_send (Or.inl rfl)
  rcases Meth.run_bind.mp h with ⟨e, hsend, rfl⟩ | ⟨_, s₂, t₃, t₄, rfl, hsend', h⟩
  · obtain ⟨b, rfl, -, -⟩ := run_send.mp hsend
    exact .unsent (hline.append (sends_of_send (Or.inr rfl))) (by simp)
  obtain ⟨b, rfl, -, rfl⟩ := run_send.mp hsend'
  have hnewline : Sends line [⟨.send s.socket.dataFd [newline], b⟩] := sends_of_send (Or.inr rfl)
  have hsends := hline.append hnewline
  rw [← List.append_assoc]
  rw [Meth.run_get_bind, Meth.run_liftM_bind] at h
  obtain ⟨old, t₅, t₆, rfl, hold, h⟩ := h
  rcases Meth.run_bind.mp h with ⟨e, hrecv, rfl⟩ | ⟨recvline, s₃, t₇, t₈, rfl, hrecv, hrest⟩
  · obtain ⟨-, ⟨rfl, -⟩ | ⟨_, _, _, _, -, -, hr⟩⟩ := run_receive.mp hrecv
    · exact .unanswered _ t₅ old s.socket.dataFd rfl hsends hold (by simp)
    · cases hr
  · obtain ⟨rfl, ⟨-, hr⟩ | ⟨data, le, t₉, buffer, rfl, hcopy, hr⟩⟩ := run_receive.mp hrecv
    · cases hr
    · obtain rfl := Except.ok.inj hr
      simp only [Meth.run_liftM_bind, Meth.run_modify_bind, Meth.run_liftM, Prog.run_perform]
        at hrest
      obtain ⟨recvline', t₁₀, _, rfl, hterm, reply, t₁₁, _, rfl, hprint, u, rfl, rfl, rfl⟩ := hrest
      refine .answered _ t₅ t₉ t₁₀ t₁₁ old data reply s.socket.dataFd le recvline recvline' ?_
        hsends hold hcopy hterm hprint rfl rfl
      simp

/-! ## 5. When an iteration prints the reply -/

@[simp] theorem printed_append {tr₁ tr₂ : List Ev} :
    printed (tr₁ ++ tr₂) = printed tr₁ ++ printed tr₂ := List.flatMap_append

@[simp] theorem printed_cons {e : Ev} : printed (e :: tr) = printedBy e ++ printed tr := rfl

@[simp] theorem printed_nil : printed [] = [] := rfl

/-- Nothing is received. -/
def Unread (tr : List Ev) : Prop := ∀ fd size a, (⟨.recv fd size, a⟩ : Ev) ∉ tr

theorem unread_append {tr₁ tr₂ : List Ev} : Unread (tr₁ ++ tr₂) ↔ Unread tr₁ ∧ Unread tr₂ := by
  simp only [Unread, List.mem_append, not_or, forall_and]

/-- Entries around `recv`: they print nothing, receive nothing and send text. -/
structure Around (tr : List Ev) : Prop where
  printed : printed tr = []
  unread : Unread tr
  sends : ∀ e ∈ tr, SendsText e

theorem around_of_marks (h : Marks tr) : Around tr := by
  refine ⟨List.flatMap_eq_nil_iff.mpr ?_, fun fd size a hmem => ?_, ?_⟩
  · exact h.forall_mem (fun _ _ => rfl) fun _ => rfl
  · cases h _ hmem
  · exact h.forall_mem (fun _ _ _ _ heq => by cases heq) fun _ _ _ heq => by cases heq

theorem Line.zero_notMem_text (line : Line) : 0 ∉ line.text := by
  intro hmem
  have hne := List.mem_takeWhile_imp hmem
  simp at hne

theorem Sends.around {line : Line} (h : Sends line tr) : Around tr := by
  refine ⟨List.flatMap_eq_nil_iff.mpr fun e he => ?_, fun fd size a hmem => ?_, fun e he => ?_⟩
  · obtain ⟨call, a⟩ := e
    obtain ⟨fd, data, rfl, -⟩ := h _ he
    rfl
  · obtain ⟨fd', data, heq, -⟩ := h _ hmem
    cases heq
  · intro fd data heq
    obtain ⟨fd', data', heq', hdata⟩ := h e he
    obtain ⟨-, rfl⟩ := Sys.send.inj (heq.symm.trans heq')
    rcases hdata with rfl | rfl
    · exact Line.zero_notMem_text line
    · decide

theorem Sends.inBuffers {line : Line} (h : Sends line tr) : InBuffers tr := by
  intro e he
  obtain ⟨fd, data, heq, -⟩ := h e he
  rw [heq]
  rfl

theorem marks_terminate {n : ℕ} {recvline recvline' : Buffer UInt8 n}
    (h : (terminate recvline).Run tr recvline') : Marks tr := by
  obtain ⟨received, t₁, t₂, rfl, hmeasure, hstore⟩ := Prog.run_bind.mp h
  exact List.forall_mem_append.mpr ⟨marks_cString hmeasure, marks_storeZero hstore⟩

/-- Text that ends somewhere is already terminated there. -/
theorem run_terminate_of_text {n : ℕ} {recvline recvline' : Buffer UInt8 n} {s : Bytes}
    (hs : recvline.text? = some s) :
    (terminate recvline).Run tr recvline' ↔ tr = [] ∧ recvline' = recvline := by
  have hlt : (s.length : ℤ) < n := by exact_mod_cast Buffer.length_lt_of_text? hs
  have hset : recvline.set (s.length : ℤ).toNat 0 = recvline := by
    rw [Int.toNat_natCast, Buffer.set_text? hs]
  rw [terminate, Prog.run_bind]
  constructor
  · rintro ⟨received, t₁, t₂, rfl, hmeasure, hstore⟩
    obtain ⟨rfl, rfl⟩ := (run_cString_of_text hs).mp hmeasure
    rcases run_storeZero.mp hstore with ⟨-, rfl, rfl⟩ | ⟨hindex, -, -⟩
    · exact ⟨rfl, hset⟩
    · exact absurd ⟨Int.natCast_nonneg _, hlt⟩ hindex
  · rintro ⟨rfl, rfl⟩
    refine ⟨s, [], [], rfl, (run_cString_of_text hs).mpr ⟨rfl, rfl⟩, ?_⟩
    exact run_storeZero.mpr (Or.inl ⟨⟨Int.natCast_nonneg _, hlt⟩, rfl, hset.symm⟩)

/-- Text over text is text. -/
theorem text?_over {n : ℕ} {recvline : Buffer UInt8 n} {old data : Bytes}
    (hold : recvline.text? = some old) (hle : data.length ≤ old.length) (hdata : 0 ∉ data) :
    (recvline.write data).text? = some (data ++ old.drop data.length) := by
  have hzero : 0 ∉ data ++ old.drop data.length := by
    rw [List.mem_append, not_or]
    exact ⟨hdata, fun hmem =>
      (Buffer.text?_eq_some_iff.mp hold).1 (List.mem_of_mem_drop hmem)⟩
  rw [Buffer.text?_write_of_text? hold hle, Buffer.takeWhile_eq_self_iff.mpr hzero]

/-- **What is printed.**  Where `recvline` held text and text is received over it, every access
is inside it, and the printed text, which it then holds, is the block and the rest of the old
text. -/
theorem printed_over {n : ℕ} {recvline recvline₁ recvline₂ : Buffer UInt8 n}
    {old data reply : Bytes} {t₂ t₃ t₄ : List Ev} (hold : recvline.text? = some old)
    (hle : data.length ≤ old.length) (hdata : 0 ∉ data)
    (hstore : (copyIn recvline data).Run t₂ recvline₁)
    (hagain : (terminate recvline₁).Run t₃ recvline₂) (hprint : (cString recvline₂).Run t₄ reply) :
    InBuffers (t₂ ++ (t₃ ++ t₄)) ∧ reply = data ++ old.drop data.length ∧
      recvline₂.text? = some reply := by
  have hlt := Buffer.length_lt_of_text? hold
  have htext := text?_over hold hle hdata
  obtain ⟨rfl, rfl⟩ := (run_copyIn_of_le (by omega)).mp hstore
  obtain ⟨rfl, rfl⟩ := (run_terminate_of_text htext).mp hagain
  obtain ⟨rfl, rfl⟩ := (run_cString_of_text htext).mp hprint
  exact ⟨inBuffers_nil, rfl, htext⟩

/-- An iteration sends text. -/
theorem sendsText_exchange {c : Exchange} (hc : c.Valid exchange) :
    ∀ e ∈ c.trace, SendsText e := by
  have hrecv : ∀ fd size a, SendsText ⟨.recv fd size, a⟩ := fun _ _ _ _ _ heq => by cases heq
  have hprint : ∀ text, SendsText ⟨.cout "" text, ()⟩ := fun _ _ _ heq => by cases heq
  cases exchangeEffect hc with
  | unsent sends res => exact sends.around.sends
  | unanswered t t₁ old fd trace sends measure res =>
    rw [trace]
    simp only [List.forall_mem_append, List.forall_mem_singleton]
    exact ⟨sends.around.sends, (around_of_marks (marks_cString measure)).sends, hrecv _ _ _⟩
  | answered t t₁ t₂ t₃ t₄ old data reply fd le recvline recvline' trace sends measure store again
      print res post =>
    rw [trace]
    simp only [List.forall_mem_append, List.forall_mem_cons]
    exact ⟨sends.around.sends, (around_of_marks (marks_cString measure)).sends, hrecv _ _ _,
      (around_of_marks (marks_copyIn store).1).sends,
      (around_of_marks (marks_terminate again)).sends,
      (around_of_marks (marks_cString print)).sends, hprint _, List.forall_mem_nil _⟩

/-- There is one `recv` to look at. -/
theorem fits_of_trace {c : Exchange} {t t' : List Ev} {fd : ℤ} {size : ℕ} {a : RecvRet size}
    (trace : c.trace = t ++ ⟨.recv fd size, a⟩ :: t') (h : Unread t) (h' : Unread t') :
    Fits c ↔ ∃ old, c.pre.recvline.text? = some old ∧
      ∀ data le, a = .received data le → TurnsInto old data c.op.reply := by
  constructor
  · intro hfits
    exact hfits fd size a (by simp [trace])
  · intro hone fd' size' a' hmem
    rw [trace] at hmem
    rcases List.mem_append.mp hmem with hmem | hmem
    · exact absurd hmem (h fd' size' a')
    · rcases List.mem_cons.mp hmem with heq | hmem
      · cases heq
        exact hone
      · exact absurd hmem (h' fd' size' a')

/-- **When an iteration is right**: it stays inside the arrays and, if it is completed, prints
the reply, exactly if what it received fits. -/
theorem exchange_iff {c : Exchange} (hc : c.Valid exchange)
    (htext : ∀ e ∈ c.trace, ReceivesText e) :
    InBuffers c.trace ∧ (c.res = .ok () → printed c.trace = c.op.reply) ↔ Fits c := by
  cases exchangeEffect hc with
  | unsent sends res =>
    have hfits : Fits c := fun fd size a hmem => absurd hmem (sends.around.unread fd size a)
    exact ⟨fun _ => hfits, fun _ => ⟨sends.inBuffers, fun hok => absurd hok res⟩⟩
  | unanswered t t₁ old fd trace sends measure res =>
    have hin : InBuffers c.trace ↔ c.pre.recvline.text? = some old := by
      rw [← inBuffers_cString measure, trace]
      simp [sends.inBuffers, Sys.leavesBuffer]
    have hbefore : Unread (t ++ t₁) :=
      unread_append.mpr ⟨sends.around.unread, (around_of_marks (marks_cString measure)).unread⟩
    have hafter : Unread [] := fun _ _ _ hmem => by cases hmem
    rw [fits_of_trace (trace.trans (List.append_assoc _ _ _).symm) hbefore hafter]
    constructor
    · rintro ⟨hinside, -⟩
      refine ⟨old, hin.mp hinside, fun data le heq => ?_⟩
      cases heq
    · rintro ⟨old', hold, -⟩
      obtain rfl := cString_eq_text measure hold
      exact ⟨hin.mpr hold, fun hok => absurd hok res⟩
  | answered t t₁ t₂ t₃ t₄ old data reply fd le recvline recvline' trace sends measure store again
      print res post =>
    have hmeasure := around_of_marks (marks_cString measure)
    have hstore := around_of_marks (marks_copyIn store).1
    have hagain := around_of_marks (marks_terminate again)
    have hprint := around_of_marks (marks_cString print)
    have hbefore : Unread (t ++ t₁) := unread_append.mpr ⟨sends.around.unread, hmeasure.unread⟩
    have hafter : Unread (t₂ ++ (t₃ ++ (t₄ ++ [⟨.cout "" reply, ()⟩]))) := by
      simp only [unread_append]
      refine ⟨hstore.unread, hagain.unread, hprint.unread, fun _ _ _ hmem => ?_⟩
      cases List.mem_singleton.mp hmem
    have hprinted : printed c.trace = reply := by
      rw [trace]
      simp [sends.around.printed, hmeasure.printed, hstore.printed, hagain.printed,
        hprint.printed, printedBy]
    have hin : InBuffers c.trace ↔ InBuffers t₁ ∧ InBuffers (t₂ ++ (t₃ ++ t₄)) := by
      rw [trace]
      simp [sends.inBuffers, Sys.leavesBuffer]
    have hdata : 0 ∉ data := htext _ (by simp [trace]) fd old.length data le rfl
    rw [fits_of_trace (trace.trans (List.append_assoc _ _ _).symm) hbefore hafter]
    constructor
    · rintro ⟨hinside, hreply⟩
      have hold := (inBuffers_cString measure).mp (hin.mp hinside).1
      obtain ⟨-, hover, -⟩ := printed_over hold le hdata store again print
      refine ⟨old, hold, fun data' le' heq => ?_⟩
      cases heq
      rw [turnsInto_iff le, ← hover, ← hprinted]
      exact hreply res
    · rintro ⟨old', hold, hturns⟩
      obtain rfl := cString_eq_text measure hold
      obtain ⟨hinside, hover, -⟩ := printed_over hold le hdata store again print
      refine ⟨hin.mpr ⟨(inBuffers_cString measure).mpr hold, hinside⟩, fun _ => ?_⟩
      rw [hprinted, hover]
      exact (turnsInto_iff le).mp (hturns data le rfl)

/-- A completed iteration that fits leaves its reply in `recvline`, and found as much text
there. -/
theorem recvline_of_fits {c : Exchange} (hc : c.Valid exchange)
    (htext : ∀ e ∈ c.trace, ReceivesText e) (hfits : Fits c) (hres : c.res = .ok ()) :
    ∃ old, c.pre.recvline.text? = some old ∧ old.length = c.op.reply.length ∧
      c.post.recvline.text? = some c.op.reply := by
  cases exchangeEffect hc with
  | unsent sends res => exact absurd hres res
  | unanswered t t₁ old fd trace sends measure res => exact absurd hres res
  | answered t t₁ t₂ t₃ t₄ old data reply fd le recvline recvline' trace sends measure store again
      print res post =>
    have hmem : (⟨.recv fd old.length, .received data le⟩ : Ev) ∈ c.trace := by simp [trace]
    obtain ⟨old', hold, hturns⟩ := hfits _ _ _ hmem
    obtain rfl := cString_eq_text measure hold
    have hdata : 0 ∉ data := htext _ hmem fd old.length data le rfl
    obtain ⟨-, hover, hafter⟩ := printed_over hold le hdata store again print
    have hturn := hturns data le rfl
    refine ⟨old, hold, hturn.size, ?_⟩
    rw [post, hafter, hover, (turnsInto_iff le).mp hturn]

/-! ## 6. Every run of the loop -/

theorem printed_traceOf {h : List Exchange} :
    printed (traceOf h) = h.flatMap fun c => printed c.trace := List.flatMap_assoc

/-- What is printed is in order exactly if each iteration prints its own reply. -/
theorem inStep_iff_forall {h : List Exchange} (hok : ∀ c ∈ h.dropLast, c.res = .ok ()) :
    InStep h ↔
      ∀ c ∈ h, InBuffers c.trace ∧ (c.res = .ok () → printed c.trace = c.op.reply) := by
  constructor
  · rintro ⟨hinside, horder⟩ c hc
    refine ⟨inBuffers_traceOf.mp hinside c hc, fun hres => ?_⟩
    obtain ⟨h₁, h₂, rfl⟩ := List.append_of_mem hc
    have hbefore : ∀ d ∈ h₁, d.res = .ok () := by
      intro d hd
      refine hok d ?_
      rw [List.dropLast_append_of_ne_nil (by simp)]
      exact List.mem_append_left _ hd
    have hupTo : ∀ d ∈ h₁ ++ [c], d.res = .ok () := by
      intro d hd
      rcases List.mem_append.mp hd with hd | hd
      · exact hbefore d hd
      · rw [List.mem_singleton.mp hd]
        exact hres
    have hwith := horder (h₁ ++ [c]) h₂ (by simp) hupTo
    rw [printed_traceOf, List.flatMap_append, List.map_append, List.flatMap_append,
      ← printed_traceOf, horder h₁ (c :: h₂) rfl hbefore] at hwith
    simpa using hwith
  · intro hall
    refine ⟨inBuffers_traceOf.mpr fun c hc => (hall c hc).1, fun h₁ h₂ heq hres => ?_⟩
    rw [printed_traceOf, List.flatMap_map]
    refine List.flatMap_congr fun c hc => (hall c ?_).2 (hres c hc)
    rw [heq]
    exact List.mem_append_left _ hc

/-- What an echoing peer sends is text. -/
theorem Session.receivesText {h : List Exchange} {s s' : LineClient} (hs : Session s h s')
    (hecho : Echoes (traceOf h)) : ∀ c ∈ h, ∀ e ∈ c.trace, ReceivesText e := by
  have hsends : ∀ e ∈ traceOf h, SendsText e :=
    List.forall_mem_flatMap.mpr fun c hc => sendsText_exchange (hs.1.valid c hc)
  exact List.forall_mem_flatMap.mp
    (LineClient.receivesText hecho (List.not_mem_nil (a := 0)) hsends)

/-- **When the client stays in step.**  In every run against an echoing peer, whatever lay in
the arrays at first, however the replies arrive and whatever fails: all accesses are inside
the arrays and the printed text is always that of the lines so far, if and only if what each
iteration received turned the text it found in `recvline` into its reply. -/
theorem inStep_iff {h : List Exchange} {s s' : LineClient} (hs : Session s h s')
    (hecho : Echoes (traceOf h)) : InStep h ↔ ∀ c ∈ h, Fits c := by
  have htext := hs.receivesText hecho
  rw [inStep_iff_forall hs.2]
  exact forall₂_congr fun c hc => exchange_iff (hs.1.valid c hc) (htext c hc)

/-- The same, said of nothing but what the client was given: `old` is the text that lay in `recvline`
at first, and behind each iteration it is the reply to its line. -/
def FitsFrom : Option Bytes → List Exchange → Prop
  | _, [] => True
  | old, c :: h => (∀ fd size a, (⟨.recv fd size, a⟩ : Ev) ∈ c.trace → ∃ text, old = some text ∧
      ∀ data le, a = .received data le → TurnsInto text data c.op.reply) ∧
    FitsFrom (some c.op.reply) h

theorem forall_fits_iff {h : List Exchange} {s s' : LineClient} (hs : Session s h s')
    (htext : ∀ c ∈ h, ∀ e ∈ c.trace, ReceivesText e) :
    (∀ c ∈ h, Fits c) ↔ FitsFrom s.recvline.text? h := by
  induction h generalizing s with
  | nil => simp [FitsFrom]
  | cons c h ih =>
    obtain ⟨rfl, hv, hrest⟩ := history_cons.mp hs.1
    obtain ⟨htext₁, htext⟩ := List.forall_mem_cons.mp htext
    rw [List.forall_mem_cons, FitsFrom]
    refine and_congr_right fun hfits => ?_
    rcases List.eq_nil_or_concat' h with rfl | ⟨h₁, d, hcut⟩
    · simp [FitsFrom]
    · -- an iteration followed by another one was completed
      have hok := hs.2
      rw [List.dropLast_cons_of_ne_nil (by simp [hcut])] at hok
      obtain ⟨hok₁, hok⟩ := List.forall_mem_cons.mp hok
      obtain ⟨-, -, -, hpost⟩ := recvline_of_fits hv htext₁ hfits hok₁
      rw [ih ⟨hrest, hok⟩ htext, hpost]

/-- **When the client stays in step**, by what it was given: the text that lay in `recvline` at
first, the lines, and the blocks that were received. -/
theorem inStep_iff_fitsFrom {h : List Exchange} {s s' : LineClient} (hs : Session s h s')
    (hecho : Echoes (traceOf h)) : InStep h ↔ FitsFrom s.recvline.text? h := by
  have htext := hs.receivesText hecho
  rw [← forall_fits_iff hs htext, inStep_iff_forall hs.2]
  exact forall₂_congr fun c hc => exchange_iff (hs.1.valid c hc) (htext c hc)

/-- As long as every iteration fits, all replies are as long as the text that lay in `recvline`
at first. -/
theorem length_of_fits {h : List Exchange} {s s' : LineClient} (hs : Session s h s')
    (htext : ∀ c ∈ h, ∀ e ∈ c.trace, ReceivesText e) (hfits : ∀ c ∈ h, Fits c) :
    ∀ c ∈ h, c.res = .ok () →
      ∃ old, s.recvline.text? = some old ∧ old.length = c.op.reply.length := by
  induction h generalizing s with
  | nil => simp
  | cons c h ih =>
    obtain ⟨rfl, hv, hrest⟩ := history_cons.mp hs.1
    obtain ⟨htext₁, htext⟩ := List.forall_mem_cons.mp htext
    obtain ⟨hfits₁, hfits⟩ := List.forall_mem_cons.mp hfits
    intro d hd hres
    rcases List.mem_cons.mp hd with rfl | hd
    · obtain ⟨old, hold, hlen, -⟩ := recvline_of_fits hv htext₁ hfits₁ hres
      exact ⟨old, hold, hlen⟩
    · -- an iteration followed by another one was completed
      have hne : h ≠ [] := List.ne_nil_of_mem hd
      have hok := hs.2
      rw [List.dropLast_cons_of_ne_nil hne] at hok
      obtain ⟨hok₁, hok⟩ := List.forall_mem_cons.mp hok
      obtain ⟨old, hold, hlen, hpost⟩ := recvline_of_fits hv htext₁ hfits₁ hok₁
      obtain ⟨old', hold', hlen'⟩ := ih ⟨hrest, hok⟩ htext hfits d hd hres
      rw [hpost] at hold'
      obtain rfl := Option.some.inj hold'
      exact ⟨old, hold, hlen.trans hlen'⟩

/-- **Lines of one length.**  A client that stays in step has been given lines of one length,
and that length is the one of the garbage it started with. -/
theorem inStep_length {h : List Exchange} {s s' : LineClient} (hs : Session s h s')
    (hecho : Echoes (traceOf h)) (hin : InStep h) : ∀ c ∈ h, c.res = .ok () →
      ∃ old, s.recvline.text? = some old ∧ old.length = c.op.bytes.length + 1 := by
  have htext := hs.receivesText hecho
  have hfits : ∀ c ∈ h, Fits c := fun c hc =>
    (exchange_iff (hs.1.valid c hc) (htext c hc)).mp ((inStep_iff_forall hs.2).mp hin c hc)
  intro c hc hres
  obtain ⟨old, hold, hlen⟩ := length_of_fits hs htext hfits c hc hres
  exact ⟨old, hold, by rw [hlen, Line.reply, List.length_append, List.length_singleton]⟩

/-! ## 7. One line -/

/-- The client behind its startup: descriptor 3 is connected to `127.0.0.1`. -/
def connected (recvline : Buffer UInt8 (bufferSize + 1)) : LineClient where
  socket := TCPSocket.withServerAddr { base := { type := .client, sockfd := 3 } }
    ⟨afInet, htons 8080, 16777343⟩
  sendLine := .replicate bufferSize 0
  recvline := recvline

theorem exists_run_startup (recvline : Buffer UInt8 (bufferSize + 1)) :
    ∃ tr, (startup (.replicate bufferSize 0) recvline).Run tr (.ok (connected recvline)) := by
  obtain ⟨t, hconnect⟩ : ∃ t, Meth.Run (TCPSocket.connectToServer "127.0.0.1" 8080)
      { base := { type := .client, sockfd := 3 } } t (.ok ()) (connected recvline).socket :=
    ⟨_, TCPSocket.run_connectToServer.mpr (Or.inr ⟨16777343, .ok, rfl, rfl, rfl⟩)⟩
  exact ⟨_, Prog.run_bind.mpr ⟨_, [⟨.socket .stream, .fd 3⟩], _, rfl,
    TCPSocket.run_new.mpr (Or.inr ⟨3, rfl, rfl⟩),
    Prog.run_bind.mpr ⟨_, t, [], rfl, hconnect, Prog.run_pure.mpr ⟨rfl, rfl⟩⟩⟩⟩

/-- The line and the newline are accepted whole, and the peer answers with `data`. -/
theorem exists_run_exchange {s : LineClient} {old data : Bytes} (line : Line)
    (hold : s.recvline.text? = some old) (hle : data.length ≤ old.length) (hdata : 0 ∉ data) :
    ∃ s', Meth.Run (exchange line) s
      ([⟨.send s.socket.dataFd line.text, .sent line.text.length (Nat.le_refl _)⟩] ++
        ([⟨.send s.socket.dataFd [newline], .sent 1 (Nat.le_refl _)⟩] ++
          ([⟨.recv s.socket.dataFd old.length, .received data hle⟩] ++
            [⟨.cout "" (data ++ old.drop data.length), ()⟩]))) (.ok ()) s' := by
  have htext : (s.sendLine.write (line.bytes ++ [0])).text? = some line.text :=
    Buffer.text?_write_append line.lt
  have hlt := Buffer.length_lt_of_text? hold
  have hover := text?_over hold hle hdata
  refine ⟨{ s with
    sendLine := s.sendLine.write (line.bytes ++ [0]), recvline := s.recvline.write data }, ?_⟩
  rw [exchange, Meth.run_modify_bind, Meth.run_get_bind]
  refine Meth.run_liftM_bind.mpr ⟨line.text, [], _, rfl,
    (run_cString_of_text htext).mpr ⟨rfl, rfl⟩, ?_⟩
  refine Meth.Run.bind (run_send.mpr ⟨_, rfl, rfl, rfl⟩) ?_
  refine Meth.Run.bind (run_send.mpr ⟨_, rfl, rfl, rfl⟩) ?_
  rw [Meth.run_get_bind]
  refine Meth.run_liftM_bind.mpr ⟨old, [], _, rfl,
    (run_cString_of_text hold).mpr ⟨rfl, rfl⟩, ?_⟩
  refine Meth.Run.bind (run_receive.mpr ⟨rfl, Or.inr ⟨data, hle, [], _, rfl,
    (run_copyIn_of_le (by omega)).mpr ⟨rfl, rfl⟩, rfl⟩⟩) ?_
  refine Meth.run_liftM_bind.mpr ⟨_, [], _, rfl,
    (run_terminate_of_text hover).mpr ⟨rfl, rfl⟩, ?_⟩
  rw [Meth.run_modify_bind]
  refine Meth.run_liftM_bind.mpr ⟨_, [], _, rfl,
    (run_cString_of_text hover).mpr ⟨rfl, rfl⟩, ?_⟩
  exact Meth.run_liftM.mpr ⟨(), Prog.run_perform.mpr rfl, rfl, rfl⟩

/-- ...and that is a session with an echoing peer, if `data` is the beginning of the line. -/
theorem exists_session {recvline : Buffer UInt8 (bufferSize + 1)} {old : Bytes} (line : Line)
    (data : Bytes) (hold : recvline.text? = some old) (hle : data.length ≤ old.length)
    (hecho : data <+: line.text ++ [newline]) (hne : old ≠ [] → data ≠ []) :
    ∃ h s, Session (connected recvline) h s ∧ Echoes (traceOf h) ∧ (∀ c ∈ h, c.res = .ok ()) ∧
      h.map Call.op = [line] ∧ printed (traceOf h) = data ++ old.drop data.length := by
  have hdata : 0 ∉ data := by
    intro hmem
    rcases List.mem_append.mp (hecho.subset hmem) with hmem | hmem
    · exact Line.zero_notMem_text line hmem
    · exact absurd (List.mem_singleton.mp hmem) (by decide)
  obtain ⟨s', hrun⟩ := exists_run_exchange (s := connected recvline) line hold hle hdata
  refine ⟨[⟨connected recvline, line, _, .ok (), s'⟩], s', ⟨⟨s', ⟨rfl, hrun, rfl⟩, rfl⟩, by simp⟩,
    ?_, by simp, rfl, ?_⟩
  · simp only [traceOf_cons, traceOf_nil, List.append_nil, List.singleton_append]
    refine echoesFrom_cons.mpr ⟨fun _ _ _ _ heq => (by cases heq), ?_⟩
    refine echoesFrom_cons.mpr ⟨fun _ _ _ _ heq => (by cases heq), ?_⟩
    refine echoesFrom_cons.mpr ⟨fun _ _ _ _ heq => ?_, ?_⟩
    · cases heq
      refine ⟨?_, fun hpos => hne (List.ne_nil_of_length_pos hpos)⟩
      simpa [owed] using hecho
    · exact echoesFrom_cons.mpr ⟨fun _ _ _ _ heq => (by cases heq), along_nil⟩
  · simp [printedBy]

/-- The line `hi`. -/
def hi : Line := ⟨[0x68, 0x69, newline], by decide, by decide, by decide⟩

/-- Four bytes of garbage are as long as the reply to `hi`. -/
theorem inStep_iff_hi : ∃ (h : List Exchange) (s s' : LineClient), Session s h s' ∧
    Echoes (traceOf h) ∧ h.map Call.op = [hi] ∧ printed (traceOf h) = hi.reply ∧
      (InStep h ↔ ∀ c ∈ h, Fits c) := by
  have hgarbage : ((Buffer.replicate (bufferSize + 1) 0).write
      [1, 1, 1, 1] : Buffer UInt8 (bufferSize + 1)).text? = some [1, 1, 1, 1] :=
    (Buffer.text?_write (by decide)).mpr
      ⟨by decide, List.getElem?_replicate_of_lt (by decide)⟩
  obtain ⟨h, s, hs, hecho, -, hops, hprinted⟩ := exists_session hi hi.reply hgarbage
    (by decide) (by decide) (by decide)
  exact ⟨h, _, s, hs, hecho, hops, hprinted.trans (by decide), inStep_iff hs hecho⟩

/-- Where there is no garbage, nothing is asked for and nothing is printed. -/
theorem first_reply_lost :
    ¬ ∀ (sendLine : Buffer UInt8 bufferSize) (recvline : Buffer UInt8 (bufferSize + 1))
      (tr₀ : List Ev) (h : List Exchange) (s s' : LineClient),
      (startup sendLine recvline).Run tr₀ (.ok s) → Session s h s' → Echoes (traceOf h) →
        InStep h := by
  intro hall
  have hempty : (Buffer.replicate (bufferSize + 1) (0 : UInt8)).text? = some [] :=
    Buffer.text?_replicate (Nat.succ_pos _)
  obtain ⟨tr₀, hstart⟩ := exists_run_startup (.replicate (bufferSize + 1) 0)
  obtain ⟨h, s', hs, hecho, hok, hops, hprinted⟩ := exists_session hi [] hempty
    (Nat.le_refl _) (List.nil_prefix) (fun hne => absurd rfl hne)
  have hin := hall _ _ tr₀ h _ s' hstart hs hecho
  have horder := hin.inOrder h [] (List.append_nil _).symm hok
  rw [hprinted, hops] at horder
  exact absurd horder (by decide)

end LineClient

end InternetProgramming
