/-
# A transfer over TCP

One end calls `sendData` on each message in turn, the other calls `receiveData` with buffers of
the messages' sizes.  Between them is a byte stream: `send` puts a non-empty prefix of what it
is given into it, `recv` takes a non-empty prefix of what is pending out of it, and both may
fail.  The two programs run interleaved in any way.

`sendData` and `receiveData` look at nothing but the sign of the results, so a call that moved
only a part of its message returns as normally as one that moved it all.  `lossless_iff` says
what that costs: the buffers hold the messages, whatever they held before, if and only if every
`recv` filled its buffer.  A short `send` is never made up for, so then there was none either.
-/
import InternetProgramming.Interaction.Fifo
import InternetProgramming.SocketSpec

namespace InternetProgramming

open Interaction

variable {tr : List Ev} {s s' t t' : TCPSocket}

/-! ## 1. The two programs -/

/-- `sendData(m, |m|)` for each message. -/
def sendAll (ms : List Bytes) : Method TCPSocket Unit := ms.forM TCPSocket.sendData

/-- `receiveData(buffer, |buffer|)` for each buffer.  The buffers are given by what they hold
before, and returned as what they hold after. -/
def receiveAll : List Bytes → Method TCPSocket (List Bytes)
  | [] => pure []
  | old :: olds => do
    let buffer ← TCPSocket.receiveData (⟨old, rfl⟩ : Buffer UInt8 old.length) old.length
    let buffers ← receiveAll olds
    pure (buffer.cells :: buffers)

/-- What a buffer holds after a block was stored in it. -/
def overwrite (data old : Bytes) : Bytes :=
  ((⟨old, rfl⟩ : Buffer UInt8 old.length).write data).cells

/-- The sender goes on only after a `send` that did not fail. -/
theorem run_sendAll_cons {m : Bytes} {ms : List Bytes} :
    Meth.Run (sendAll (m :: ms)) s tr (.ok ()) s' ↔
      ∃ count le tr', tr = ⟨.send s.dataFd m, .sent count le⟩ :: tr' ∧
        Meth.Run (sendAll ms) s tr' (.ok ()) s' := by
  change Meth.Run (TCPSocket.sendData m >>= fun _ => sendAll ms) s tr (.ok ()) s' ↔ _
  rw [Meth.run_bind]
  constructor
  · rintro (⟨e, -, he⟩ | ⟨_, _, _, tr', rfl, hsend, hrest⟩)
    · cases he
    · obtain ⟨a, rfl, hres, rfl⟩ := TCPSocket.run_sendData.mp hsend
      cases a with
      | failed => simp at hres
      | sent count le => exact ⟨count, le, tr', rfl, hrest⟩
  · rintro ⟨count, le, tr', rfl, hrest⟩
    refine Or.inr ⟨(), s, [_], tr', rfl, ?_, hrest⟩
    exact TCPSocket.run_sendData.mpr ⟨.sent count le, rfl, rfl, rfl⟩

/-- The receiver goes on only after a `recv` that did not fail. -/
theorem run_receiveAll_cons {old : Bytes} {olds buffers : List Bytes} :
    Meth.Run (receiveAll (old :: olds)) t tr (.ok buffers) t' ↔
      ∃ data le tr' rest, tr = ⟨.recv t.dataFd old.length, .received data le⟩ :: tr' ∧
        Meth.Run (receiveAll olds) t tr' (.ok rest) t' ∧ buffers = overwrite data old :: rest := by
  rw [receiveAll, Meth.run_bind]
  constructor
  · rintro (⟨e, -, he⟩ | ⟨buffer, t₁, _, tr₂, rfl, hrecv, hrest⟩)
    · cases he
    · obtain ⟨rfl, ⟨-, hres⟩ | ⟨data, le, _, buffer', rfl, hcopy, hres⟩⟩ :=
        TCPSocket.run_receiveData.mp hrecv
      · cases hres
      · obtain ⟨rfl, rfl⟩ := (run_copyIn_of_le le).mp hcopy
        obtain rfl := Except.ok.inj hres
        obtain ⟨r, hrun, hmap⟩ := Meth.run_map.mp hrest
        cases r with
        | error e => cases hmap
        | ok rest => exact ⟨data, le, tr₂, rest, rfl, hrun, Except.ok.inj hmap⟩
  · rintro ⟨data, le, tr', rest, rfl, hrun, rfl⟩
    refine Or.inr ⟨_, t, [_], tr', rfl, ?_, Meth.run_map.mpr ⟨.ok rest, hrun, rfl⟩⟩
    exact TCPSocket.run_receiveData.mpr ⟨rfl, Or.inr ⟨data, le, [], _, rfl,
      (run_copyIn_of_le le).mpr ⟨rfl, rfl⟩, rfl⟩⟩

/-! ## 2. The connection -/

/-- A byte stream in one direction: what was sent and not yet received, and whether the
sending end is closed. -/
structure Stream where
  pending : Bytes := []
  closed : Bool := false

/-- What happens on the connection: a call of the sender, a call of the receiver, or the
sending end closes. -/
inductive Wire where
  | sender (e : Ev)
  | receiver (e : Ev)
  | shutdown

/-- The sender's part. -/
def senderTrace (w : List Wire) : List Ev :=
  w.filterMap fun l => match l with | .sender e => some e | _ => none

/-- The receiver's part. -/
def receiverTrace (w : List Wire) : List Ev :=
  w.filterMap fun l => match l with | .receiver e => some e | _ => none

/-- What a stream socket promises of each call. -/
inductive Stream.Step : Stream → Wire → Stream → Prop where
  | send {q : Stream} {fd : ℤ} {data : Bytes} {count : ℕ} {le : count ≤ data.length}
      (isOpen : q.closed = false) (pos : 0 < count) :
      Step q (.sender ⟨.send fd data, .sent count le⟩)
        { q with pending := q.pending ++ data.take count }
  | sendFailed {q : Stream} {fd : ℤ} {data : Bytes} : Step q (.sender ⟨.send fd data, .failed⟩) q
  | recv {q : Stream} {fd : ℤ} {size : ℕ} {data rest : Bytes} {le : data.length ≤ size}
      (ne : data ≠ []) (front : q.pending = data ++ rest) :
      Step q (.receiver ⟨.recv fd size, .received data le⟩) { q with pending := rest }
  | recvEof {q : Stream} {fd : ℤ} {size : ℕ} (drained : q.pending = [])
      (atEnd : q.closed = true) :
      Step q (.receiver ⟨.recv fd size, .received [] (Nat.zero_le size)⟩) q
  | recvFailed {q : Stream} {fd : ℤ} {size : ℕ} :
      Step q (.receiver ⟨.recv fd size, .failed⟩) q
  | shutdown {q : Stream} : Step q .shutdown { q with closed := true }

/-- The block an entry of the trace sent: as much of its message as `send` accepted. -/
def accepted? : Ev → Option Bytes
  | ⟨.send _ data, .sent count _⟩ => some (data.take count)
  | _ => none

/-- The blocks sent, in order. -/
def accepted (tr : List Ev) : List Bytes := tr.filterMap accepted?

/-- What each event moves. -/
def Wire.flow : Wire → Flow UInt8
  | .sender e => match accepted? e with | some data => .put data | none => .idle
  | .receiver e => match received? e with | some data => .take data | none => .idle
  | .shutdown => .idle

/-- The stream forgets everything but what it carries. -/
theorem Stream.Step.flow {q q' : Stream} {l : Wire} (h : Stream.Step q l q') :
    Flow.Step q.pending l.flow q'.pending := by
  cases h with
  | send isOpen pos => rfl
  | sendFailed => rfl
  | recv ne front => exact front
  | recvEof drained atEnd => rfl
  | recvFailed => rfl
  | shutdown => rfl

theorem putAll_flow {w : List Wire} :
    putAll (w.map Wire.flow) = (accepted (senderTrace w)).flatten := by
  induction w with
  | nil => rfl
  | cons l w ih =>
    simp only [putAll, accepted, senderTrace] at ih ⊢
    cases l with
    | sender e => cases he : accepted? e <;> simp [Wire.flow, he, ih]
    | receiver e => cases he : received? e <;> simp [Wire.flow, he, ih]
    | shutdown => simp [Wire.flow, ih]

theorem takenAll_flow {w : List Wire} :
    takenAll (w.map Wire.flow) = (receipts (receiverTrace w)).flatten := by
  induction w with
  | nil => rfl
  | cons l w ih =>
    simp only [takenAll, receipts, receiverTrace] at ih ⊢
    cases l with
    | sender e => cases he : accepted? e <;> simp [Wire.flow, he, ih]
    | receiver e => cases he : received? e <;> simp [Wire.flow, he, ih]
    | shutdown => simp [Wire.flow, ih]

/-- **What arrives is a prefix of what was sent**, however the two ends cut it. -/
theorem receipts_prefix_accepted {w : List Wire} {q : Stream} (h : Path Stream.Step {} w q) :
    (receipts (receiverTrace w)).flatten <+: (accepted (senderTrace w)).flatten := by
  have hflow : Path Flow.Step [] (w.map Wire.flow) q.pending :=
    path_map (f := Stream.pending) (g := Wire.flow) (fun _ _ _ hstep => hstep.flow) h
  have hconserved := flow_conserved hflow
  rw [putAll_flow, takenAll_flow, List.nil_append] at hconserved
  exact ⟨q.pending, hconserved.symm⟩

/-! ## 3. The two ends -/

/-- Every `send` that did not fail sent a prefix of its message. -/
theorem run_sendAll {ms : List Bytes} (h : Meth.Run (sendAll ms) s tr (.ok ()) s') :
    List.Forall₂ (· <+: ·) (accepted tr) ms := by
  induction ms generalizing tr with
  | nil =>
    obtain ⟨rfl, -, -⟩ := Meth.run_pure.mp h
    exact .nil
  | cons m ms ih =>
    obtain ⟨count, le, tr', rfl, hrest⟩ := run_sendAll_cons.mp h
    exact .cons (List.take_prefix count m) (ih hrest)

/-- A `recv` filled its buffer. -/
def FilledBuffer : Ev → Prop
  | ⟨.recv _ size, a⟩ => a.ret = size
  | _ => True

/-- Every `recv` of the trace filled its buffer. -/
def FullReceives (tr : List Ev) : Prop := ∀ e ∈ tr, FilledBuffer e

/-- **What a receiver ends with.**  The blocks received are no longer than the buffers, each
is stored over what its buffer held, and they are as long as the buffers if every `recv`
filled its own. -/
theorem run_receiveAll {olds buffers : List Bytes}
    (h : Meth.Run (receiveAll olds) t tr (.ok buffers) t') :
    List.Forall₂ (fun data old => data.length ≤ old.length) (receipts tr) olds ∧
      buffers = List.zipWith overwrite (receipts tr) olds ∧
      (FullReceives tr ↔ (receipts tr).map List.length = olds.map List.length) := by
  induction olds generalizing tr buffers with
  | nil =>
    obtain ⟨rfl, hres, -⟩ := Meth.run_pure.mp h
    exact ⟨.nil, Except.ok.inj hres, by simp [FullReceives]⟩
  | cons old olds ih =>
    obtain ⟨data, le, tr', rest, rfl, hrest, rfl⟩ := run_receiveAll_cons.mp h
    obtain ⟨hle, rfl, hfull⟩ := ih hrest
    refine ⟨.cons le hle, rfl, ?_⟩
    have hentry : FilledBuffer ⟨.recv t.dataFd old.length, .received data le⟩ ↔
        data.length = old.length := Int.ofNat_inj
    rw [FullReceives, List.forall_mem_cons, hentry]
    change _ ∧ FullReceives tr' ↔ data.length :: (receipts tr').map List.length = _
    rw [hfull, List.map_cons, List.cons.injEq]

/-- The calls of a receiver depend on the sizes of its buffers only. -/
theorem run_receiveAll_congr : ∀ {olds olds' buffers : List Bytes} {tr : List Ev},
    olds'.map List.length = olds.map List.length →
      Meth.Run (receiveAll olds) t tr (.ok buffers) t' →
      ∃ buffers', Meth.Run (receiveAll olds') t tr (.ok buffers') t'
  | [], [], _, _, _, h => ⟨_, h⟩
  | old :: olds, old' :: olds', _, _, hlen, h => by
    obtain ⟨data, le, tr', rest, rfl, hrest, -⟩ := run_receiveAll_cons.mp h
    obtain ⟨hold, holds⟩ := List.cons.inj hlen
    obtain ⟨rest', hrest'⟩ := run_receiveAll_congr holds hrest
    have hentry : ∀ n (le' : data.length ≤ n), n = old.length →
        (⟨.recv t.dataFd old.length, .received data le⟩ : Ev) =
          ⟨.recv t.dataFd n, .received data le'⟩ := by
      intro n le' hn
      subst hn
      rfl
    refine ⟨_, run_receiveAll_cons.mpr ⟨data, hold ▸ le, tr', rest', ?_, hrest', rfl⟩⟩
    rw [hentry old'.length (hold ▸ le) hold]

/-! ## 4. The whole transfer -/

/-- **A transfer** of the messages `ms` from `s` to `t`, in which every call returned normally.
`w` is everything that happened on the connection. -/
structure Transfer (s t : TCPSocket) (ms : List Bytes) (w : List Wire) : Prop where
  stream : ∃ q, Path Stream.Step {} w q
  sent : ∃ s', Meth.Run (sendAll ms) s (senderTrace w) (.ok ()) s'
  received : ∃ olds buffers t', olds.map List.length = ms.map List.length ∧
    Meth.Run (receiveAll olds) t (receiverTrace w) (.ok buffers) t'

/-- **The property.**  The buffers hold the messages, whatever they held before. -/
def Lossless (t : TCPSocket) (ms : List Bytes) (w : List Wire) : Prop :=
  ∀ olds buffers t', olds.map List.length = ms.map List.length →
    Meth.Run (receiveAll olds) t (receiverTrace w) (.ok buffers) t' → buffers = ms

/-- Every byte changed. -/
def flip (b : UInt8) : UInt8 := if b = 0 then 1 else 0

theorem flip_ne (b : UInt8) : flip b ≠ b := by
  unfold flip
  split
  · rename_i h
    rw [h]
    decide
  · rename_i h
    exact Ne.symm h

/-- Buffers without a right byte in them show the messages only if the blocks stored in them
are as long. -/
theorem length_eq_of_overwrite_flip : ∀ {rs ms : List Bytes},
    List.Forall₂ (fun data old => data.length ≤ old.length) rs (ms.map (List.map flip)) →
      List.zipWith overwrite rs (ms.map (List.map flip)) = ms →
      rs.map List.length = ms.map List.length
  | [], [], _, _ => rfl
  | r :: rs, m :: ms, .cons hle hrest, heq => by
    obtain ⟨hhead, htail⟩ := List.cons.inj heq
    have hm : (m.map flip).length = m.length := List.length_map flip
    have hlen := Buffer.length_eq_of_write_cells flip_ne hm.symm hle hhead
    rw [List.map_cons, List.map_cons, hlen.trans hm, length_eq_of_overwrite_flip hrest htail]

/-- A block that fills its buffer is all the buffer shows. -/
theorem overwrite_of_full : ∀ {rs olds : List Bytes},
    rs.map List.length = olds.map List.length → List.zipWith overwrite rs olds = rs
  | [], [], _ => rfl
  | r :: rs, old :: olds, h => by
    obtain ⟨hlen, hrest⟩ := List.cons.inj h
    rw [List.zipWith_cons_cons, overwrite_of_full hrest, overwrite,
      Buffer.write_cells_of_length_eq hlen]

/-- **Full buffers leave no room for a short `send`.** -/
theorem Transfer.full {ms : List Bytes} {w : List Wire} (h : Transfer s t ms w)
    (hfull : FullReceives (receiverTrace w)) :
    accepted (senderTrace w) = ms ∧ receipts (receiverTrace w) = ms := by
  obtain ⟨⟨q, hpath⟩, ⟨s', hsend⟩, ⟨olds, buffers, t', hlen, hrecv⟩⟩ := h
  have hsizes := (run_receiveAll hrecv).2.2.mp hfull
  exact segments_full (run_sendAll hsend) (hsizes.trans hlen) (receipts_prefix_accepted hpath)

/-- **When a transfer is lossless.**  In every transfer in which all calls returned normally,
the buffers hold the messages, whatever they held before, if and only if every `recv` filled
its buffer. -/
theorem lossless_iff {ms : List Bytes} {w : List Wire} (h : Transfer s t ms w) :
    Lossless t ms w ↔ FullReceives (receiverTrace w) := by
  constructor
  · intro hlossless
    obtain ⟨olds₀, buffers₀, t', hlen₀, hrecv₀⟩ := h.received
    -- the buffers that give a short block away
    have hflip : (ms.map (List.map flip)).map List.length = ms.map List.length := by
      rw [List.map_map]
      exact List.map_congr_left fun m _ => List.length_map flip
    obtain ⟨buffers, hrecv⟩ := run_receiveAll_congr (hflip.trans hlen₀.symm) hrecv₀
    have hms := hlossless _ buffers t' hflip hrecv
    obtain ⟨hle, hbuffers, hfull⟩ := run_receiveAll hrecv
    have hsizes := length_eq_of_overwrite_flip hle (hbuffers.symm.trans hms)
    exact hfull.mpr (hsizes.trans hflip.symm)
  · intro hfull olds buffers t' hlen hrecv
    obtain ⟨-, rfl, hiff⟩ := run_receiveAll hrecv
    rw [overwrite_of_full (hiff.mp hfull)]
    exact (h.full hfull).2

/-- A connected client with descriptor 3. -/
def clientThree : TCPSocket := { base := { type := .client, sockfd := 3 } }

/-- `hi` is to be sent, `send` accepts `data` of it, and that arrives at a server's connection
with descriptor 4. -/
def hiWire (data : Bytes) (le : data.length ≤ 2) : List Wire :=
  [.sender ⟨.send 3 [104, 105], .sent data.length le⟩,
    .receiver ⟨.recv 4 2, .received data le⟩]

theorem run_receive_hi {data : Bytes} (le : data.length ≤ 2) :
    Meth.Run (receiveAll [[0, 0]]) acceptFour.post (receiverTrace (hiWire data le))
      (.ok [overwrite data [0, 0]]) acceptFour.post :=
  run_receiveAll_cons.mpr ⟨data, le, [], [], rfl, Meth.run_pure.mpr ⟨rfl, rfl, rfl⟩, rfl⟩

theorem transfer_hi {data : Bytes} {le : data.length ≤ 2} (ne : data ≠ [])
    (htake : [104, 105].take data.length = data) :
    Transfer clientThree acceptFour.post [[104, 105]] (hiWire data le) where
  stream := by
    have hpos : 0 < data.length := List.length_pos_iff.mpr ne
    have hfront : [] ++ [104, 105].take data.length = data ++ [] := by
      rw [List.nil_append, List.append_nil, htake]
    exact ⟨_, _, .send rfl hpos, _, .recv ne hfront, rfl⟩
  sent := ⟨clientThree, run_sendAll_cons.mpr
    ⟨data.length, le, [], rfl, Meth.run_pure.mpr ⟨rfl, rfl, rfl⟩⟩⟩
  received := ⟨[[0, 0]], _, _, rfl, run_receive_hi le⟩

/-- The whole of `hi` is sent and arrives. -/
theorem lossless_iff_hi : Lossless acceptFour.post [[104, 105]] (hiWire [104, 105] (by decide)) ↔
    FullReceives (receiverTrace (hiWire [104, 105] (by decide))) :=
  lossless_iff (transfer_hi (by decide) rfl)

/-- Only the `h` is sent, and both calls return normally. -/
theorem short_send_loses_byte :
    ¬ ∀ (s t : TCPSocket) (ms : List Bytes) (w : List Wire), (∀ m ∈ ms, m ≠ []) →
      Transfer s t ms w → Lossless t ms w := by
  intro hall
  have htransfer : Transfer clientThree acceptFour.post [[104, 105]] (hiWire [104] (by decide)) :=
    transfer_hi (by decide) rfl
  have hbuffers := hall _ _ _ _ (by decide) htransfer [[0, 0]] _ _ rfl
    (run_receive_hi (by decide))
  exact absurd hbuffers (by decide)

end InternetProgramming
