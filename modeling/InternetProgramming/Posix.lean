/-
# The operating system, as the programs of this repository see it

Every call that `Socket.cpp`, `select.h` and the sample applications make, with what it can
answer.  The answers are typed by what the manual promises and nothing more: a call that
returns a descriptor returns one or `-1`, `recv` returns at most the bytes it was asked for,
`select` hands back subsets of the sets it was given.  WHICH answer comes is left open.

Two further entries are not calls at all.  `stray` and `overread` mark the accesses C++ does
not define: an `FD_*` macro on an index outside its set, a store outside its array, text read
past the end of its array.  A program that makes one goes on with its own variables as they
are, and the trace says that it happened.  So "no index is out of bounds" is a statement
about traces (`Defined`).  What follows such an access in a trace need not happen in C++, where
it may have changed a neighbouring variable; a result that rests on what follows asks that there
was none, or makes that a part of what it proves.

Diagnostics (`spdlog`, `perror`, fixed texts on `std::cout`) are not modelled; output that
reads a buffer is.
-/
import InternetProgramming.Interaction.Buffer
import InternetProgramming.Interaction.Ledger
import Mathlib.Algebra.Order.Ring.Int
import Mathlib.Data.Finset.Card
import Mathlib.Data.UInt

namespace InternetProgramming

open Interaction

abbrev Bytes := List UInt8

/-! ## 1. What is handed to the kernel -/

/-- `SOCK_STREAM` or `SOCK_DGRAM`. -/
inductive SockType where
  | stream
  | dgram
deriving DecidableEq

/-- `struct sockaddr_in`, with port and address in network order. -/
structure SockaddrIn where
  sinFamily : UInt16 := 0
  sinPort : UInt16 := 0
  sinAddr : UInt32 := 0
deriving DecidableEq

def afInet : UInt16 := 2

def inaddrAny : UInt32 := 0

/-- `htons` on a little-endian host.  Its parameter is a `uint16_t`, so an `int` argument is
first reduced modulo 65536. -/
def htons (hostshort : ℤ) : UInt16 :=
  let h := UInt16.ofInt hostshort
  h <<< 8 ||| h >>> 8

/-- The option names of `SOL_SOCKET` on Linux. -/
def soReuseaddr : ℕ := 2
def soSndbuf : ℕ := 7
def soRcvbuf : ℕ := 8
def soKeepalive : ℕ := 9
def soLinger : ℕ := 13
def soReuseport : ℕ := 15

/-- What `setsockopt` is given: an `int`, or a `struct linger`. -/
inductive OptVal where
  | int (value : ℤ)
  | linger (onoff time : ℤ)
deriving DecidableEq

/-- `struct timeval`. -/
structure Timeval where
  tvSec : ℤ
  tvUsec : ℤ
deriving DecidableEq

/-- `FD_SETSIZE`. -/
def fdSetsize : ℤ := 1024

/-- An `fd_set`: the indices whose bit is one. -/
abbrev FdSet := Finset ℤ

/-! ## 2. What the kernel answers -/

/-- `0`, or `-1` on failure. -/
inductive Status where
  | ok
  | failed
deriving DecidableEq

def Status.ret : Status → ℤ
  | .ok => 0
  | .failed => -1

/-- A new descriptor, or `-1` on failure. -/
inductive FdRet where
  | fd (n : ℕ)
  | failed
deriving DecidableEq

def FdRet.ret : FdRet → ℤ
  | .fd n => n
  | .failed => -1

/-- The descriptor of a new connection with the address of its peer, or `-1` on failure. -/
inductive AcceptRet where
  | accepted (n : ℕ) (peer : SockaddrIn)
  | failed
deriving DecidableEq

def AcceptRet.ret : AcceptRet → ℤ
  | .accepted n _ => n
  | .failed => -1

/-- The caller's address buffer after the call, which a failure does not touch. -/
def AcceptRet.peer (a : AcceptRet) (old : SockaddrIn) : SockaddrIn :=
  match a with
  | .accepted _ peer => peer
  | .failed => old

/-- How many of the `size` bytes were taken, or `-1` on failure. -/
inductive SendRet (size : ℕ) where
  | sent (count : ℕ) (le : count ≤ size)
  | failed
deriving DecidableEq

def SendRet.ret {size : ℕ} : SendRet size → ℤ
  | .sent count _ => count
  | .failed => -1

/-- At most `size` bytes, or `-1` on failure.  No bytes at all mean end of stream. -/
inductive RecvRet (size : ℕ) where
  | received (data : Bytes) (le : data.length ≤ size)
  | failed
deriving DecidableEq

def RecvRet.ret {size : ℕ} : RecvRet size → ℤ
  | .received data _ => data.length
  | .failed => -1

/-- The bytes that were stored in the caller's buffer: none on failure. -/
def RecvRet.data {size : ℕ} : RecvRet size → Bytes
  | .received data _ => data
  | .failed => []

/-- A datagram cut to at most `size` bytes, with its sender, or `-1` on failure. -/
inductive RecvfromRet (size : ℕ) where
  | received (data : Bytes) (le : data.length ≤ size) (src : SockaddrIn)
  | failed
deriving DecidableEq

def RecvfromRet.ret {size : ℕ} : RecvfromRet size → ℤ
  | .received data _ _ => data.length
  | .failed => -1

def RecvfromRet.data {size : ℕ} : RecvfromRet size → Bytes
  | .received data _ _ => data
  | .failed => []

/-- The caller's address buffer after the call, which a failure does not touch. -/
def RecvfromRet.src {size : ℕ} (a : RecvfromRet size) (old : SockaddrIn) : SockaddrIn :=
  match a with
  | .received _ _ src => src
  | .failed => old

/-- What `select` leaves of the three sets it is handed: some members of each, or on failure
the sets as they were. -/
inductive SelectRet (readfds writefds exceptfds : FdSet) where
  | ready (r w e : FdSet) (hr : r ⊆ readfds) (hw : w ⊆ writefds) (he : e ⊆ exceptfds)
  | failed

section SelectRet

variable {readfds writefds exceptfds : FdSet}

/-- The number of bits left in the three sets, or `-1` on failure. -/
def SelectRet.ret : SelectRet readfds writefds exceptfds → ℤ
  | .ready r w e _ _ _ => r.card + w.card + e.card
  | .failed => -1

/-- The read set as the call leaves it. -/
def SelectRet.readfds' : SelectRet readfds writefds exceptfds → FdSet
  | .ready r _ _ _ _ _ => r
  | .failed => readfds

end SelectRet

@[simp] theorem FdRet.ret_neg_iff {a : FdRet} : a.ret < 0 ↔ a = .failed := by
  cases a <;> simp [FdRet.ret]

@[simp] theorem AcceptRet.ret_neg_iff {a : AcceptRet} : a.ret < 0 ↔ a = .failed := by
  cases a <;> simp [AcceptRet.ret]

@[simp] theorem Status.ret_neg_iff {a : Status} : a.ret < 0 ↔ a = .failed := by
  cases a <;> simp [Status.ret]

@[simp] theorem SendRet.ret_neg_iff {size : ℕ} {a : SendRet size} :
    a.ret < 0 ↔ a = .failed := by
  cases a <;> simp [SendRet.ret]

@[simp] theorem RecvRet.ret_neg_iff {size : ℕ} {a : RecvRet size} :
    a.ret < 0 ↔ a = .failed := by
  cases a <;> simp [RecvRet.ret]

@[simp] theorem RecvfromRet.ret_neg_iff {size : ℕ} {a : RecvfromRet size} :
    a.ret < 0 ↔ a = .failed := by
  cases a <;> simp [RecvfromRet.ret]

/-! ## 3. The calls -/

/-- An access outside the object it was meant for. -/
inductive Stray where
  /-- `FD_SET`, `FD_CLR` or `FD_ISSET` on this index. -/
  | fdBit (fd : ℤ)
  /-- A store to this index of an array. -/
  | byte (index : ℤ)
deriving DecidableEq

/-- The calls, with their arguments. -/
inductive Sys where
  | socket (type : SockType)
  | bind (fd : ℤ) (addr : SockaddrIn)
  | setsockopt (fd : ℤ) (optname : ℕ) (optval : OptVal)
  | connect (fd : ℤ) (addr : SockaddrIn)
  | listen (fd : ℤ) (backlog : ℤ)
  | accept (fd : ℤ)
  | accept4 (fd : ℤ)
  | send (fd : ℤ) (data : Bytes)
  | sendto (fd : ℤ) (data : Bytes) (dest : SockaddrIn)
  | recv (fd : ℤ) (size : ℕ)
  | recvfrom (fd : ℤ) (size : ℕ)
  | read (fd : ℤ) (size : ℕ)
  | close (fd : ℤ)
  | getpeername (fd : ℤ)
  | select (nfds : ℤ) (readfds writefds exceptfds : FdSet) (timeout : Option Timeval)
  | inetPton (src : String)
  /-- Output that reads a buffer: a fixed label, then the text. -/
  | cout (label : String) (text : Bytes)
  | stray (access : Stray)
  /-- Text read past the end of its array; the answer is what lies there, up to a zero. -/
  | overread
deriving DecidableEq

/-- The answer to a call. -/
@[reducible] def Sys.Ret : Sys → Type
  | .socket _ => FdRet
  | .accept _ | .accept4 _ => AcceptRet
  | .bind _ _ | .setsockopt _ _ _ | .connect _ _ | .listen _ _ | .close _ | .getpeername _ => Status
  | .send _ data | .sendto _ data _ => SendRet data.length
  | .recv _ size | .read _ size => RecvRet size
  | .recvfrom _ size => RecvfromRet size
  | .select _ readfds writefds exceptfds _ => SelectRet readfds writefds exceptfds
  | .inetPton _ => Option UInt32
  | .cout _ _ | .stray _ => Unit
  | .overread => Bytes

instance : ∀ i : Sys, Nonempty i.Ret
  | .socket _ => ⟨FdRet.failed⟩
  | .accept _ | .accept4 _ => ⟨AcceptRet.failed⟩
  | .bind _ _ | .setsockopt _ _ _ | .connect _ _ | .listen _ _ | .close _ | .getpeername _ =>
    ⟨Status.failed⟩
  | .send _ _ | .sendto _ _ _ => ⟨SendRet.failed⟩
  | .recv _ _ | .read _ _ => ⟨RecvRet.failed⟩
  | .recvfrom _ _ => ⟨RecvfromRet.failed⟩
  | .select _ _ _ _ _ => ⟨SelectRet.failed⟩
  | .inetPton _ => ⟨none⟩
  | .cout _ _ | .stray _ => ⟨()⟩
  | .overread => ⟨[]⟩

/-- A program on this system, an entry of its trace, and a method on it. -/
abbrev SysM (α : Type) := Prog Sys Sys.Ret α
abbrev Ev := Event Sys Sys.Ret

/-- What leaves a function other than by returning: a `std::runtime_error`, or `exit`. -/
inductive Thrown where
  | runtimeError (what : String)
  | exit (status : ℤ)
deriving DecidableEq

abbrev Method (σ α : Type) := Meth Sys Sys.Ret Thrown σ α

/-- Issue a call. -/
abbrev sys (c : Sys) : SysM c.Ret := Prog.perform c

/-! ## 4. What an entry of a trace says about descriptors -/

/-- The descriptor a call is issued on. -/
def Sys.fd? : Sys → Option ℤ
  | .bind fd _ | .setsockopt fd _ _ | .connect fd _ | .listen fd _ | .accept fd | .accept4 fd
  | .send fd _ | .sendto fd _ _ | .recv fd _ | .recvfrom fd _ | .read fd _ | .close fd
  | .getpeername fd => some fd
  | _ => none

/-- The descriptor an entry of the trace hands out or gives back. -/
def actOf : Ev → Act ℤ
  | ⟨.socket _, .fd n⟩ => .acquire n
  | ⟨.accept _, .accepted n _⟩ => .acquire n
  | ⟨.accept4 _, .accepted n _⟩ => .acquire n
  | ⟨.close fd, _⟩ => .release fd
  | _ => .other

section Held

variable {H : Finset ℤ} {tr : List Ev}

/-- The descriptors held after the trace `tr`, starting from `H`. -/
def heldAfter (H : Finset ℤ) (tr : List Ev) : Finset ℤ := heldFrom H (tr.map actOf)

/-- The descriptors obtained and not yet closed, after the trace `tr`. -/
abbrev openFds (tr : List Ev) : Finset ℤ := heldAfter ∅ tr

@[simp] theorem heldAfter_nil : heldAfter H [] = H := rfl

@[simp] theorem heldAfter_cons {e : Ev} :
    heldAfter H (e :: tr) = heldAfter ((actOf e).apply H) tr := rfl

@[simp] theorem heldAfter_append {tr₁ tr₂ : List Ev} :
    heldAfter H (tr₁ ++ tr₂) = heldAfter (heldAfter H tr₁) tr₂ := by
  unfold heldAfter
  rw [List.map_append, heldFrom_append]

/-- Calls that hand nothing out or back leave the descriptors as they are. -/
theorem heldAfter_of_other (h : ∀ e ∈ tr, actOf e = .other) : heldAfter H tr = H := by
  induction tr with
  | nil => rfl
  | cons e tr ih =>
    obtain ⟨he, htr⟩ := List.forall_mem_cons.mp h
    rw [heldAfter_cons, he]
    exact ih htr

end Held

/-- An access outside a buffer. -/
def Sys.leavesBuffer : Sys → Bool
  | .stray (.byte _) | .overread => true
  | _ => false

/-- Every access to a buffer in the trace was inside it. -/
def InBuffers (tr : List Ev) : Prop := ∀ e ∈ tr, e.1.leavesBuffer = false

@[simp] theorem inBuffers_nil : InBuffers [] := by simp [InBuffers]

@[simp] theorem inBuffers_cons {e : Ev} {tr : List Ev} :
    InBuffers (e :: tr) ↔ e.1.leavesBuffer = false ∧ InBuffers tr := by
  simp [InBuffers]

@[simp] theorem inBuffers_append {tr₁ tr₂ : List Ev} :
    InBuffers (tr₁ ++ tr₂) ↔ InBuffers tr₁ ∧ InBuffers tr₂ := by
  simp [InBuffers, or_imp, forall_and]

theorem inBuffers_traceOf {Op σ α : Type} {h : List (Call Op Sys Sys.Ret Thrown σ α)} :
    InBuffers (traceOf h) ↔ ∀ c ∈ h, InBuffers c.trace :=
  List.forall_mem_flatMap

/-! ## 5. The `FD_*` macros, buffers and C strings -/

/-- Index `fd` lies inside an `fd_set`. -/
def InFdSet (fd : ℤ) : Prop := 0 ≤ fd ∧ fd < fdSetsize

instance (fd : ℤ) : Decidable (InFdSet fd) := inferInstanceAs (Decidable (0 ≤ fd ∧ fd < fdSetsize))

/-- What every `FD_*` macro does first: address the bit.  Outside the set the access is
recorded. -/
def touchBit (fd : ℤ) : SysM Unit :=
  if InFdSet fd then pure () else sys (.stray (.fdBit fd))

/-- `FD_SET`. -/
def fdSet (fd : ℤ) (set : FdSet) : SysM FdSet := do
  touchBit fd
  pure (insert fd set)

/-- `FD_CLR`. -/
def fdClr (fd : ℤ) (set : FdSet) : SysM FdSet := do
  touchBit fd
  pure (set.erase fd)

/-- `FD_ISSET`. -/
def fdIsset (fd : ℤ) (set : FdSet) : SysM Bool := do
  touchBit fd
  pure (decide (fd ∈ set))

/-- The kernel stores the bytes of an incoming block at the front of `buffer`.  A block longer
than the buffer runs over its end. -/
def copyIn {n : ℕ} (buffer : Buffer UInt8 n) (data : Bytes) : SysM (Buffer UInt8 n) :=
  if data.length ≤ n then
    pure (buffer.write data)
  else do
    sys (.stray (.byte n))
    pure (buffer.write data)

/-- The bytes a function reads that is handed `buffer` as a C string. -/
def cString {n : ℕ} (buffer : Buffer UInt8 n) : SysM Bytes :=
  match buffer.text? with
  | some text => pure text
  | none => do
    let beyond ← sys .overread
    pure (buffer.cells ++ beyond)

/-- `buffer[index] = '\0'`. -/
def storeZero {n : ℕ} (buffer : Buffer UInt8 n) (index : ℤ) : SysM (Buffer UInt8 n) :=
  if 0 ≤ index ∧ index < n then
    pure (buffer.set index.toNat 0)
  else do
    sys (.stray (.byte index))
    pure buffer

/-- The entries `touchBit` leaves. -/
def bitTrace (fd : ℤ) : List Ev := if InFdSet fd then [] else [⟨.stray (.fdBit fd), ()⟩]

/-- The trace holds no mark of an `FD_*` macro on an index outside its set. -/
def InSets (tr : List Ev) : Prop := ∀ fd, (⟨.stray (.fdBit fd), ()⟩ : Ev) ∉ tr

@[simp] theorem inSets_nil : InSets [] := by simp [InSets]

@[simp] theorem inSets_append {tr₁ tr₂ : List Ev} :
    InSets (tr₁ ++ tr₂) ↔ InSets tr₁ ∧ InSets tr₂ := by
  simp [InSets, forall_and]

theorem inSets_cons {e : Ev} {tr : List Ev} (he : ∀ fd, e.1 ≠ .stray (.fdBit fd)) :
    InSets (e :: tr) ↔ InSets tr := by
  refine forall_congr' fun fd => not_congr ?_
  rw [List.mem_cons, or_iff_right]
  intro heq
  exact he fd (congrArg Sigma.fst heq).symm

theorem inSets_bitTrace {fd : ℤ} : InSets (bitTrace fd) ↔ InFdSet fd := by
  unfold bitTrace
  split
  · rename_i hin
    simp [InSets, hin]
  · rename_i hout
    simp [InSets, hout]

@[simp] theorem run_touchBit {fd : ℤ} {tr : List Ev} {u : Unit} :
    (touchBit fd).Run tr u ↔ tr = bitTrace fd := by
  unfold touchBit bitTrace
  split <;> simp

@[simp] theorem run_fdSet {fd : ℤ} {set set' : FdSet} {tr : List Ev} :
    (fdSet fd set).Run tr set' ↔ tr = bitTrace fd ∧ set' = insert fd set := by
  simp [fdSet, Prog.run_bind]

@[simp] theorem run_fdClr {fd : ℤ} {set set' : FdSet} {tr : List Ev} :
    (fdClr fd set).Run tr set' ↔ tr = bitTrace fd ∧ set' = set.erase fd := by
  simp [fdClr, Prog.run_bind]

@[simp] theorem run_fdIsset {fd : ℤ} {set : FdSet} {b : Bool} {tr : List Ev} :
    (fdIsset fd set).Run tr b ↔ tr = bitTrace fd ∧ b = decide (fd ∈ set) := by
  simp [fdIsset, Prog.run_bind]

/-- A block that fits is stored, and nothing else happens. -/
theorem run_copyIn_of_le {n : ℕ} {buffer buffer' : Buffer UInt8 n} {data : Bytes} {tr : List Ev}
    (h : data.length ≤ n) :
    (copyIn buffer data).Run tr buffer' ↔ tr = [] ∧ buffer' = buffer.write data := by
  simp [copyIn, h]

/-- **Reading a C string.**  A terminated buffer is read as its text and nothing else happens;
one without a terminator is read beyond its end. -/
theorem run_cString {n : ℕ} {buffer : Buffer UInt8 n} {text : Bytes} {tr : List Ev} :
    (cString buffer).Run tr text ↔
      (buffer.text? = some text ∧ tr = []) ∨
      (buffer.text? = none ∧ ∃ beyond, tr = [⟨.overread, beyond⟩] ∧
        text = buffer.cells ++ beyond) := by
  unfold cString
  cases buffer.text? with
  | some s => simp [eq_comm, and_comm]
  | none => simp [Prog.run_bind]

theorem cString_eq_text {n : ℕ} {buffer : Buffer UInt8 n} {text s : Bytes} {tr : List Ev}
    (h : (cString buffer).Run tr text) (hs : buffer.text? = some s) : text = s := by
  rcases run_cString.mp h with ⟨htext, -⟩ | ⟨hnone, -⟩
  · exact Option.some.inj (htext.symm.trans hs)
  · rw [hs] at hnone
    cases hnone

/-- Reading the text of a terminated buffer leaves no entry. -/
theorem run_cString_of_text {n : ℕ} {buffer : Buffer UInt8 n} {text s : Bytes} {tr : List Ev}
    (hs : buffer.text? = some s) : (cString buffer).Run tr text ↔ tr = [] ∧ text = s := by
  simp [run_cString, hs, eq_comm, and_comm]

/-- ...so staying inside the buffer and reading its text are the same thing. -/
theorem inBuffers_cString {n : ℕ} {buffer : Buffer UInt8 n} {text : Bytes} {tr : List Ev}
    (h : (cString buffer).Run tr text) : InBuffers tr ↔ buffer.text? = some text := by
  rcases run_cString.mp h with ⟨htext, rfl⟩ | ⟨htext, beyond, rfl, -⟩
  · simp [htext]
  · simp [htext, Sys.leavesBuffer]

/-- Reading a buffer touches no set. -/
theorem inSets_cString {n : ℕ} {buffer : Buffer UInt8 n} {text : Bytes} {tr : List Ev}
    (h : (cString buffer).Run tr text) : InSets tr := by
  rcases run_cString.mp h with ⟨-, rfl⟩ | ⟨-, beyond, rfl, -⟩
  · exact inSets_nil
  · simp [InSets]

/-- Two readings of a buffer stay inside it or leave it together. -/
theorem inBuffers_cString_congr {n : ℕ} {buffer : Buffer UInt8 n} {text₁ text₂ : Bytes}
    {tr₁ tr₂ : List Ev} (h₁ : (cString buffer).Run tr₁ text₁)
    (h₂ : (cString buffer).Run tr₂ text₂) : InBuffers tr₁ ↔ InBuffers tr₂ := by
  rw [inBuffers_cString h₁, inBuffers_cString h₂]
  constructor
  · intro h
    rw [cString_eq_text h₂ h, h]
  · intro h
    rw [cString_eq_text h₁ h, h]

/-- Storing a terminator inside the buffer, or a mark of a store outside it. -/
theorem run_storeZero {n : ℕ} {buffer buffer' : Buffer UInt8 n} {index : ℤ} {tr : List Ev} :
    (storeZero buffer index).Run tr buffer' ↔
      ((0 ≤ index ∧ index < n) ∧ tr = [] ∧ buffer' = buffer.set index.toNat 0) ∨
      (¬ (0 ≤ index ∧ index < n) ∧ tr = [⟨.stray (.byte index), ()⟩] ∧ buffer' = buffer) := by
  unfold storeZero
  split
  · rename_i h
    simp [h]
  · rename_i h
    constructor
    · intro hrun
      obtain ⟨u, tr', rfl, hrest⟩ := Prog.run_perform_bind.mp hrun
      obtain ⟨rfl, rfl⟩ := Prog.run_pure.mp hrest
      exact Or.inr ⟨h, rfl, rfl⟩
    · rintro (⟨h', -⟩ | ⟨-, rfl, rfl⟩)
      · exact absurd h' h
      · exact Prog.run_perform_bind.mpr ⟨(), [], rfl, rfl, rfl⟩

/-- Neither does storing a terminator. -/
theorem inSets_storeZero {n : ℕ} {buffer buffer' : Buffer UInt8 n} {index : ℤ} {tr : List Ev}
    (h : (storeZero buffer index).Run tr buffer') : InSets tr := by
  rcases run_storeZero.mp h with ⟨-, rfl, -⟩ | ⟨-, rfl, -⟩
  · exact inSets_nil
  · simp [InSets]

/-! ## 6. Marks -/

/-- The entry is no call but the mark of an access that C++ does not define. -/
def Sys.isMark : Sys → Bool
  | .stray _ | .overread => true
  | _ => false

/-- The trace holds nothing but marks. -/
def Marks (tr : List Ev) : Prop := ∀ e ∈ tr, e.1.isMark = true

/-- What holds of every mark holds all along the trace. -/
theorem Marks.forall_mem {tr : List Ev} {P : Ev → Prop} (h : Marks tr)
    (hstray : ∀ access a, P ⟨.stray access, a⟩) (hoverread : ∀ a, P ⟨.overread, a⟩) :
    ∀ e ∈ tr, P e := by
  rintro ⟨i, a⟩ he
  have hmark := h _ he
  cases i with
  | stray access => exact hstray access a
  | overread => exact hoverread a
  | _ => cases hmark

theorem marks_cString {n : ℕ} {buffer : Buffer UInt8 n} {text : Bytes} {tr : List Ev}
    (h : (cString buffer).Run tr text) : Marks tr := by
  rcases run_cString.mp h with ⟨-, rfl⟩ | ⟨-, beyond, rfl, -⟩
  · simp [Marks]
  · simp [Marks, Sys.isMark]

theorem marks_copyIn {n : ℕ} {buffer buffer' : Buffer UInt8 n} {data : Bytes} {tr : List Ev}
    (h : (copyIn buffer data).Run tr buffer') : Marks tr ∧ buffer' = buffer.write data := by
  unfold copyIn at h
  split at h
  · obtain ⟨rfl, rfl⟩ := Prog.run_pure.mp h
    simp [Marks]
  · obtain ⟨u, tr', rfl, h'⟩ := Prog.run_perform_bind.mp h
    obtain ⟨rfl, rfl⟩ := Prog.run_pure.mp h'
    simp [Marks, Sys.isMark]

theorem marks_storeZero {n : ℕ} {buffer buffer' : Buffer UInt8 n} {index : ℤ} {tr : List Ev}
    (h : (storeZero buffer index).Run tr buffer') : Marks tr := by
  rcases run_storeZero.mp h with ⟨-, rfl, -⟩ | ⟨-, rfl, -⟩
  · simp [Marks]
  · simp [Marks, Sys.isMark]

/-- C++ defines everything in the trace: no access has left its object.  A run that is to say what
the program does is one of these. -/
def Defined (tr : List Ev) : Prop := ∀ e ∈ tr, e.1.isMark = false

@[simp] theorem defined_nil : Defined [] := by simp [Defined]

@[simp] theorem defined_cons {e : Ev} {tr : List Ev} :
    Defined (e :: tr) ↔ e.1.isMark = false ∧ Defined tr := by
  simp [Defined]

theorem defined_traceOf {Op σ α : Type} {h : List (Call Op Sys Sys.Ret Thrown σ α)} :
    Defined (traceOf h) ↔ ∀ c ∈ h, Defined c.trace :=
  List.forall_mem_flatMap

/-- An access leaves a buffer or a set. -/
theorem defined_iff {tr : List Ev} : Defined tr ↔ InBuffers tr ∧ InSets tr := by
  constructor
  · intro h
    refine ⟨fun e he => ?_, fun fd he => by cases h _ he⟩
    have hmark := h e he
    obtain ⟨i, a⟩ := e
    cases i with
    | stray access => cases hmark
    | overread => cases hmark
    | _ => rfl
  · rintro ⟨hbuf, hset⟩ ⟨i, a⟩ he
    have hin := hbuf _ he
    cases i with
    | stray access =>
      cases access with
      | fdBit fd => exact absurd he (hset fd)
      | byte index => cases hin
    | overread => cases hin
    | _ => rfl

end InternetProgramming
