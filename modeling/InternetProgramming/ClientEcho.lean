/-
# What the select server sends to whom

All connections share one buffer, which is never cleared, and what is sent is the text in it.
Unlike the echo loop this one stores a terminator behind what it read, so nothing of an older
block is left in front of it.  What goes wrong is the place of the terminator and its meaning:

* it is stored at index `valread`, which is `-1` when `read` failed and one past the end when
  the buffer was filled;
* a zero byte in the data ends the text early.

`ownBytes_iff` says that this is all: in every run, each pass sends every client exactly what
it read from that client, inside the buffer, if and only if every `read` succeeded, left room
for the terminator and delivered no zero byte.
-/
import InternetProgramming.Interaction.Fifo
import InternetProgramming.SelectServer

namespace InternetProgramming

open Interaction

namespace SelectServer

variable {tr : List Ev} {fd : ℤ}

/-! ## 1. Bytes to and from a client -/

/-- The bytes an entry of the trace passes to `send` for the client `fd`. -/
def sentBytes (fd : ℤ) (e : Ev) : Bytes :=
  match e.1 with
  | .send fd' data => if fd' = fd then data else []
  | _ => []

/-- The bytes an entry of the trace reads from the client `fd`. -/
def readBytes (fd : ℤ) : Ev → Bytes
  | ⟨.read fd' _, a⟩ => if fd' = fd then a.data else []
  | _ => []

/-- Everything passed to `send` for the client `fd`, in order. -/
def sentTo (fd : ℤ) (tr : List Ev) : Bytes := tr.flatMap (sentBytes fd)

/-- Everything read from the client `fd`, in order. -/
def readFrom (fd : ℤ) (tr : List Ev) : Bytes := tr.flatMap (readBytes fd)

@[simp] theorem sentTo_nil : sentTo fd [] = [] := rfl

@[simp] theorem readFrom_nil : readFrom fd [] = [] := rfl

@[simp] theorem sentTo_cons {e : Ev} : sentTo fd (e :: tr) = sentBytes fd e ++ sentTo fd tr := rfl

@[simp] theorem readFrom_cons {e : Ev} :
    readFrom fd (e :: tr) = readBytes fd e ++ readFrom fd tr := rfl

@[simp] theorem sentTo_append {tr₁ tr₂ : List Ev} :
    sentTo fd (tr₁ ++ tr₂) = sentTo fd tr₁ ++ sentTo fd tr₂ := List.flatMap_append

@[simp] theorem readFrom_append {tr₁ tr₂ : List Ev} :
    readFrom fd (tr₁ ++ tr₂) = readFrom fd tr₁ ++ readFrom fd tr₂ := List.flatMap_append

theorem sentTo_traceOf {h : List Pass} :
    sentTo fd (traceOf h) = h.flatMap fun c => sentTo fd c.trace :=
  List.flatMap_assoc

theorem readFrom_traceOf {h : List Pass} :
    readFrom fd (traceOf h) = h.flatMap fun c => readFrom fd c.trace :=
  List.flatMap_assoc

/-- **The property.**  Every client is sent exactly its own bytes, and no access leaves a
buffer. -/
def OwnBytes (tr : List Ev) : Prop := InBuffers tr ∧ ∀ fd, sentTo fd tr = readFrom fd tr

/-- The result of `read` succeeded, left room for a terminator and contains none. -/
def CleanResult {size : ℕ} (a : RecvRet size) : Prop :=
  ∃ data le, a = .received data le ∧ data.length < bufferSize ∧ 0 ∉ data

/-- The entry is clean: if it is a `read`, its result is. -/
def CleanEntry : Ev → Prop
  | ⟨.read _ _, a⟩ => CleanResult a
  | _ => True

/-- Every `read` of the trace was clean. -/
def CleanReads (tr : List Ev) : Prop := ∀ e ∈ tr, CleanEntry e

@[simp] theorem cleanReads_nil : CleanReads [] := by simp [CleanReads]

@[simp] theorem cleanReads_cons {e : Ev} :
    CleanReads (e :: tr) ↔ CleanEntry e ∧ CleanReads tr := by
  simp [CleanReads]

@[simp] theorem cleanReads_append {tr₁ tr₂ : List Ev} :
    CleanReads (tr₁ ++ tr₂) ↔ CleanReads tr₁ ∧ CleanReads tr₂ := by
  simp [CleanReads, or_imp, forall_and]

theorem cleanReads_traceOf {h : List Pass} :
    CleanReads (traceOf h) ↔ ∀ c ∈ h, CleanReads c.trace :=
  List.forall_mem_flatMap

/-! ## 2. Entries that move no bytes -/

/-- The call moves bytes from or to a client. -/
def movesBytes : Sys → Bool
  | .read _ _ | .send _ _ => true
  | _ => false

/-- The trace neither reads from a client nor sends to one. -/
def Mute (tr : List Ev) : Prop := ∀ e ∈ tr, movesBytes e.1 = false

@[simp] theorem mute_nil : Mute [] := by simp [Mute]

@[simp] theorem mute_cons {e : Ev} : Mute (e :: tr) ↔ movesBytes e.1 = false ∧ Mute tr := by
  simp [Mute]

theorem Mute.sentTo (h : Mute tr) : sentTo fd tr = [] := by
  refine List.flatMap_eq_nil_iff.mpr fun e he => ?_
  have hmute := h e he
  unfold sentBytes
  split
  · rename_i heq
    rw [heq] at hmute
    cases hmute
  · rfl

theorem Mute.readFrom (h : Mute tr) : readFrom fd tr = [] := by
  refine List.flatMap_eq_nil_iff.mpr fun e he => ?_
  have hmute := h e he
  unfold readBytes
  split
  · cases hmute
  · rfl

theorem Mute.cleanReads (h : Mute tr) : CleanReads tr := by
  intro e he
  have hmute := h e he
  unfold CleanEntry
  split
  · cases hmute
  · trivial

/-- Marks move no bytes. -/
theorem mute_of_marks (h : Marks tr) : Mute tr :=
  h.forall_mem (fun _ _ => rfl) fun _ => rfl

/-! ## 3. What each piece of an iteration keeps -/

/-- **The invariant of the loops.**  The property holds of the trace so far exactly if its
reads are clean; and as long as it stays inside the buffer it has sent no client more than it
has read from that client.  The second half makes the first one compose. -/
structure Accounted (tr : List Ev) : Prop where
  ownBytes : OwnBytes tr ↔ CleanReads tr
  noExcess : InBuffers tr → ∀ fd, (sentTo fd tr).length ≤ (readFrom fd tr).length

theorem Accounted.append {tr₁ tr₂ : List Ev} (h₁ : Accounted tr₁) (h₂ : Accounted tr₂) :
    Accounted (tr₁ ++ tr₂) := by
  refine ⟨?_, fun hin fd => ?_⟩
  · rw [cleanReads_append, ← h₁.ownBytes, ← h₂.ownBytes]
    constructor
    · rintro ⟨hin, hall⟩
      obtain ⟨hin₁, hin₂⟩ := inBuffers_append.mp hin
      have hparts : ∀ fd, sentTo fd tr₁ = readFrom fd tr₁ ∧ sentTo fd tr₂ = readFrom fd tr₂ := by
        intro fd
        have hfd := hall fd
        rw [sentTo_append, readFrom_append] at hfd
        have hlen := congrArg List.length hfd
        simp only [List.length_append] at hlen
        have hle₁ := h₁.noExcess hin₁ fd
        have hle₂ := h₂.noExcess hin₂ fd
        exact List.append_inj hfd (by omega)
      exact ⟨⟨hin₁, fun fd => (hparts fd).1⟩, ⟨hin₂, fun fd => (hparts fd).2⟩⟩
    · rintro ⟨⟨hin₁, hall₁⟩, ⟨hin₂, hall₂⟩⟩
      refine ⟨inBuffers_append.mpr ⟨hin₁, hin₂⟩, fun fd => ?_⟩
      rw [sentTo_append, readFrom_append, hall₁, hall₂]
  · obtain ⟨hin₁, hin₂⟩ := inBuffers_append.mp hin
    simp only [sentTo_append, readFrom_append, List.length_append]
    exact Nat.add_le_add (h₁.noExcess hin₁ fd) (h₂.noExcess hin₂ fd)

/-- A piece that moves no bytes and stays inside the buffer. -/
theorem Mute.accounted (h : Mute tr) (hin : InBuffers tr) : Accounted tr := by
  refine ⟨⟨fun _ => h.cleanReads, fun _ => ⟨hin, fun fd => ?_⟩⟩, fun _ fd => ?_⟩
  · rw [h.sentTo, h.readFrom]
  · rw [h.sentTo]
    exact Nat.zero_le _

theorem accounted_nil : Accounted [] := mute_nil.accounted inBuffers_nil

theorem Accounted.cons {e : Ev} (hmute : movesBytes e.1 = false)
    (hin : e.1.leavesBuffer = false) (h : Accounted tr) : Accounted (e :: tr) := by
  have hentry : Accounted [e] :=
    Mute.accounted (mute_cons.mpr ⟨hmute, mute_nil⟩) (inBuffers_cons.mpr ⟨hin, inBuffers_nil⟩)
  exact hentry.append h

theorem BitMarks.accounted (h : BitMarks tr) : Accounted tr := by
  refine (mute_of_marks h.marks).accounted fun e he => ?_
  obtain ⟨fd, hfd⟩ := h e he
  rw [hfd]
  rfl

/-- **Terminating the buffer and reading it back.**  Either the terminator is stored outside
the buffer, or what is sent is what was read up to its first zero byte. -/
theorem answer_cases {buffer buffer' : Buffer UInt8 bufferSize} {a : RecvRet bufferSize}
    {t₀ t₁ t₂ : List Ev} {text reply : Bytes}
    (store : (storeZero (buffer.write a.data) a.ret).Run t₀ buffer')
    (print : (cString buffer').Run t₁ text) (measure : (cString buffer').Run t₂ reply) :
    (¬ InBuffers t₀ ∧ ¬ CleanResult a) ∨
      ((t₀ = [] ∧ InBuffers t₁ ∧ InBuffers t₂) ∧ reply = a.data.takeWhile (· ≠ 0) ∧
        (CleanResult a ↔ 0 ∉ a.data)) := by
  rcases run_storeZero.mp store with ⟨hindex, rfl, rfl⟩ | ⟨hindex, rfl, rfl⟩
  · cases a with
    | failed => simp [RecvRet.ret] at hindex
    | received data le =>
      have hlt : data.length < bufferSize := by
        simpa [RecvRet.ret] using hindex
      have htext := Buffer.text?_set_write (b := buffer) hlt
      have hprint := cString_eq_text print htext
      have hmeasure := cString_eq_text measure htext
      refine Or.inr ⟨⟨rfl, ?_, ?_⟩, hmeasure, ?_⟩
      · rw [inBuffers_cString print, hprint]
        exact htext
      · rw [inBuffers_cString measure, hmeasure]
        exact htext
      · simp [CleanResult, RecvRet.data, hlt, le]
  · refine Or.inl ⟨by simp [Sys.leavesBuffer], ?_⟩
    rintro ⟨data, le, rfl, hlt, -⟩
    simp [RecvRet.ret, hlt] at hindex

/-- A connection that is answered. -/
theorem accounted_answer {sd : ℤ} {buffer buffer' : Buffer UInt8 bufferSize}
    {a : RecvRet bufferSize} {t₀ t₁ t₂ : List Ev} {text reply : Bytes}
    {sent : SendRet reply.length}
    (store : (storeZero (buffer.write a.data) a.ret).Run t₀ buffer')
    (print : (cString buffer').Run t₁ text) (measure : (cString buffer').Run t₂ reply) :
    Accounted (⟨.read sd bufferSize, a⟩ :: (t₀ ++ (t₁ ++
      (⟨.cout "Received from client: " text, ()⟩ :: (t₂ ++ [⟨.send sd reply, sent⟩]))))) := by
  have hmute₀ := mute_of_marks (marks_storeZero store)
  have hmute₁ := mute_of_marks (marks_cString print)
  have hmute₂ := mute_of_marks (marks_cString measure)
  have hcases := answer_cases store print measure
  have htake := (List.takeWhile_prefix (l := a.data) fun b => decide (b ≠ 0)).length_le
  generalize htr : (⟨.read sd bufferSize, a⟩ :: _ : List Ev) = tr
  have hin : InBuffers tr ↔ InBuffers t₀ ∧ InBuffers t₁ ∧ InBuffers t₂ := by
    simp [← htr, Sys.leavesBuffer]
  have hclean : CleanReads tr ↔ CleanResult a := by
    simp [← htr, CleanEntry, hmute₀.cleanReads, hmute₁.cleanReads, hmute₂.cleanReads]
  have hsent : ∀ fd, sentTo fd tr = if sd = fd then reply else [] := by
    intro fd
    simp [← htr, hmute₀.sentTo, hmute₁.sentTo, hmute₂.sentTo, sentBytes]
  have hread : ∀ fd, readFrom fd tr = if sd = fd then a.data else [] := by
    intro fd
    simp [← htr, hmute₀.readFrom, hmute₁.readFrom, hmute₂.readFrom, readBytes]
  rcases hcases with ⟨hout, hdirty⟩ | ⟨hinside, rfl, hresult⟩
  · have hout' : ¬ InBuffers tr := fun hbuf => hout (hin.mp hbuf).1
    exact ⟨⟨fun h => absurd h.1 hout', fun h => absurd (hclean.mp h) hdirty⟩,
      fun hbuf => absurd hbuf hout'⟩
  · have hbuf : InBuffers tr := hin.mpr ⟨hinside.1 ▸ inBuffers_nil, hinside.2⟩
    refine ⟨?_, fun _ fd => ?_⟩
    · rw [hclean, hresult, ← Buffer.takeWhile_eq_self_iff]
      constructor
      · rintro ⟨-, hall⟩
        have h := hall sd
        rw [hsent, hread, if_pos rfl, if_pos rfl] at h
        exact h
      · intro h
        exact ⟨hbuf, fun fd => by rw [hsent, hread, h]⟩
    · rw [hsent, hread]
      split
      · exact htake
      · exact Nat.le_refl _

/-- **The third loop on a slot.** -/
theorem ServiceEffect.accounted {readfds : FdSet} {i : ℕ} {s s' : SelectServer}
    (h : ServiceEffect readfds s i tr s') : Accounted tr := by
  have hbit : Accounted (bitTrace (s.slot i)) := bitMarks_bitTrace.accounted
  cases h with
  | idle notReady trace post =>
    rw [trace]
    exact hbit
  | closed ready a₁ a₂ trace post =>
    have hclean : CleanResult (.received [] (Nat.zero_le bufferSize)) :=
      ⟨[], Nat.zero_le _, rfl, by decide, by simp⟩
    rw [trace]
    refine hbit.append (Accounted.mk ?_ fun _ fd => ?_)
    · simp [OwnBytes, CleanEntry, hclean, sentBytes, readBytes, RecvRet.data, Sys.leavesBuffer]
    · simp [sentBytes]
  | answered ready a ne t₀ t₁ t₂ text reply buffer sent trace store print measure post =>
    rw [trace]
    exact hbit.append (accounted_answer store print measure)

theorem composes_accounted : Composes Accounted := ⟨accounted_nil, Accounted.append⟩

/-- **One iteration**, whether or not it is the last one. -/
theorem accounted_iteration {s s' : SelectServer} {r : Except Thrown Unit}
    (h : Meth.Run iteration s tr r s') : Accounted tr :=
  always_iteration composes_accounted (fun _ hmarks => hmarks.accounted)
    (fun _ _ _ => accounted_nil.cons rfl rfl) (fun _ _ => accounted_nil.cons rfl rfl)
    (fun _ _ _ _ _ heffect => heffect.accounted) s tr r s' h

/-! ## 4. Every run of the loop -/

/-- **When every client gets its own bytes back.**  In every run of the server, each pass
sends every client exactly what it read from that client, without leaving the buffer, if and
only if every `read` was clean. -/
theorem ownBytes_iff {h : List Pass} {s s' : SelectServer} (hl : LoopRun iteration s h s') :
    (∀ c ∈ h, OwnBytes c.trace) ↔ CleanReads (traceOf h) := by
  have haccounted : ∀ c ∈ h, (OwnBytes c.trace ↔ CleanReads c.trace) := fun c hc =>
    (accounted_iteration (hl.valid c hc)).ownBytes
  rw [cleanReads_traceOf]
  exact forall₂_congr haccounted

/-! ## 5. One client, one block -/

/-- The buffer after a block that leaves room for its terminator. -/
def terminated (buffer : Buffer UInt8 bufferSize) (data : Bytes) : Buffer UInt8 bufferSize :=
  (buffer.write data).set data.length 0

/-- A client that sent such a block is answered with its text. -/
theorem run_serviceClient_answer {s : SelectServer} {i : ℕ} {fd : ℤ} (data : Bytes)
    (a : RecvRet bufferSize) (hfd : InFdSet fd) (hslot : s.slot i = fd) (hdata : a.data = data)
    (hret : a.ret = data.length) (hne : data ≠ []) (hlt : data.length < bufferSize) :
    Meth.Run (serviceClient {fd} i) s
      [⟨.read fd bufferSize, a⟩, ⟨.cout "Received from client: " (data.takeWhile (· ≠ 0)), ()⟩,
        ⟨.send fd (data.takeWhile (· ≠ 0)), .failed⟩]
      (.ok ()) { s with buffer := terminated s.buffer data } := by
  have htext : (terminated s.buffer data).text? = some (data.takeWhile (· ≠ 0)) :=
    Buffer.text?_set_write hlt
  have hread : (cString (terminated s.buffer data)).Run [] (data.takeWhile (· ≠ 0)) :=
    run_cString.mpr (Or.inl ⟨htext, rfl⟩)
  have hret0 : (data.length : ℤ) ≠ 0 := by simpa using hne
  rw [serviceClient, Meth.run_get_bind, Meth.run_liftM_bind, hslot]
  refine ⟨true, [], _, rfl, run_fdIsset.mpr ⟨(bitTrace_of_inFdSet hfd).symm, by simp⟩, ?_⟩
  simp only [if_true, Meth.run_liftM_bind, Meth.run_modify_bind, Prog.run_perform, Meth.run_ite]
  refine ⟨a, [_], _, rfl, rfl, ?_⟩
  rw [hdata, hret, if_neg hret0]
  simp only [answerClient, Meth.run_get_bind, Meth.run_liftM_bind, Meth.run_modify_bind,
    Prog.run_perform, Meth.run_pure]
  refine ⟨terminated s.buffer data, [], _, rfl, ?_, _, [], _, rfl, hread, (), [_], _, rfl, rfl, _,
    [], _, rfl, hread, .failed, [_], [], rfl, rfl, rfl, trivial, rfl⟩
  rw [run_storeZero]
  left
  refine ⟨⟨Int.natCast_nonneg _, ?_⟩, rfl, ?_⟩
  · exact_mod_cast hlt
  · rw [Int.toNat_natCast, terminated]

/-- What an iteration does that finds a block from the client in slot `0` and nothing else. -/
theorem exists_run_answer {s : SelectServer} {fd : ℤ} {data : Bytes} (h : s.Ordinary)
    (hpos : 0 < fd) (hslot : s.slot 0 = fd)
    (hother : ∀ i < maxClients, i ≠ 0 → s.slot i ≠ fd) (hne : data ≠ [])
    (hlt : data.length < bufferSize) :
    ∃ nfds readfds a₁ a₂ s', Meth.Run iteration s
      [⟨.select nfds readfds ∅ ∅ none, a₁⟩, ⟨.read fd bufferSize, a₂⟩,
        ⟨.cout "Received from client: " (data.takeWhile (· ≠ 0)), ()⟩,
        ⟨.send fd (data.takeWhile (· ≠ 0)), .failed⟩]
      (.ok ()) s' ∧ a₂.data = data := by
  obtain ⟨hin, hserver⟩ := slot_ordinary h (i := 0) (by decide)
  have hmem : s.slot 0 ∈ s.clientSockets.cells := slot_mem (by decide)
  rw [hslot] at hin hserver hmem
  have hservice := run_serviceClient_answer data (.received data hlt.le) hin hslot rfl rfl hne hlt
  generalize hs' : ({ s with buffer := terminated s.buffer data } : SelectServer) = s' at hservice
  have hidle : ∀ i ∈ (List.range 29).map Nat.succ,
      Meth.Run (serviceClient {fd} i) s' [] (.ok ()) s' := by
    intro i hi
    obtain ⟨j, hj, rfl⟩ := List.mem_map.mp hi
    have hj' : j + 1 < maxClients := Nat.succ_lt_succ (List.mem_range.mp hj)
    have hnot : s'.slot (j + 1) ∉ ({fd} : FdSet) := by
      rw [Finset.mem_singleton, ← hs']
      exact hother (j + 1) hj' (Nat.succ_ne_zero j)
    exact run_serviceClient_idle (hs' ▸ h) hj' hnot
  have hloop : Meth.Run (serviceClients {fd}) s _ (.ok ()) s' :=
    hservice.bind (Meth.run_forM_skip hidle)
  have hready : ∀ t, Meth.Run (serviceClients {fd}) s t (.ok ()) s' →
      Meth.Run (handleReady {fd}) s t (.ok ()) s' := by
    intro t ht
    rw [handleReady, Meth.run_get_bind]
    refine Meth.run_liftM_bind.mpr ⟨false, [], t, rfl,
      run_fdIsset.mpr ⟨(bitTrace_of_inFdSet h.1).symm, ?_⟩, ht⟩
    simp [hserver.symm]
  have hwatched : ∀ fd' ∈ ({fd} : FdSet), fd' = s.serverFd ∨
      (0 < fd' ∧ fd' ∈ s.clientSockets.cells) := by
    intro fd' hfd'
    obtain rfl := Finset.mem_singleton.mp hfd'
    exact Or.inr ⟨hpos, hmem⟩
  obtain ⟨nfds, readfds, a, hrun⟩ := exists_run_iteration {fd} h hwatched (hready _ hloop)
  exact ⟨nfds, readfds, a, .received data hlt.le, s', hrun, rfl⟩

/-- The first client connects and sends a block. -/
theorem exists_loopRun_answer (data : Bytes) (hne : data ≠ []) (hlt : data.length < bufferSize) :
    ∃ (h : List Pass) (s : SelectServer), LoopRun iteration (start 3) h s ∧
      sentTo 4 (traceOf h) = data.takeWhile (· ≠ 0) ∧ readFrom 4 (traceOf h) = data := by
  have hstart : (start 3).Ordinary := by unfold Ordinary; decide
  have hclient : ((start 3).withClient 4).Ordinary := by unfold Ordinary; decide
  obtain ⟨nfds₁, readfds₁, a, haccept⟩ := exists_run_accept (n := 4) hstart hclient
  have hslot : ((start 3).withClient 4).slot 0 = 4 := by decide
  obtain ⟨nfds₂, readfds₂, a₁, a₂, s', hanswer, hdata⟩ :=
    exists_run_answer hclient (by decide) hslot (by decide) hne hlt
  refine ⟨[⟨_, (), _, .ok (), _⟩, ⟨_, (), _, .ok (), s'⟩], s',
    ⟨rfl, haccept, rfl, hanswer, rfl⟩, ?_, ?_⟩
  · simp [sentBytes]
  · simp [readBytes, hdata]

/-- A client that sends text gets it back. -/
theorem ownBytes_iff_hi : ∃ h : List Pass,
    sentTo 4 (traceOf h) = [0x68, 0x69] ∧
      ((∀ c ∈ h, OwnBytes c.trace) ↔ CleanReads (traceOf h)) := by
  obtain ⟨h, s, hl, hsent, -⟩ :=
    exists_loopRun_answer [0x68, 0x69] (by decide) (by decide)
  exact ⟨h, hsent, ownBytes_iff hl⟩

/-- A client that sends `a`, a zero byte and `b` gets only the `a` back. -/
theorem zero_byte_truncates :
    ¬ ∀ (tr₀ : List Ev) (h : List Pass) (s₀ s : SelectServer), startup.Run tr₀ (.ok s₀) →
      LoopRun iteration s₀ h s → ∀ c ∈ h, ∀ fd, sentTo fd c.trace = readFrom fd c.trace := by
  intro hall
  obtain ⟨h, s, hl, hsent, hread⟩ :=
    exists_loopRun_answer [0x61, 0, 0x62] (by decide) (by decide)
  have hsame : sentTo 4 (traceOf h) = readFrom 4 (traceOf h) := by
    rw [sentTo_traceOf, readFrom_traceOf]
    exact List.flatMap_congr fun c hc => hall startTrace h _ s run_startup_three hl c hc 4
  rw [hsent, hread] at hsame
  exact absurd hsame (by decide)

end SelectServer

end InternetProgramming
