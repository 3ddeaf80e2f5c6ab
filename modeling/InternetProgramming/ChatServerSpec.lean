/-
# The table of the chat room, and a round

`View` is what the state shows, with the entries of the clients as a list, and `Move` is what a
step can be.  Every step of the server is one of these (`step_shows`), so that the arrays are left
behind.

* What is given to `poll` is the listening socket and then each client that is connected, once, and
  each descriptor is closed once (`table_lists`).
* The `for` loop serves each entry that was given to `poll` once, although it moves entries about
  while it runs (`round_serves`).

`Books` is the invariant behind both.
-/
import InternetProgramming.ChatServer
import InternetProgramming.Interaction.Dense

namespace InternetProgramming.ChatServer

open Interaction

variable {sockfd fd connfd : ℤ} {s s' : State} {w w' : World} {entry : PollFd}
variable {members before after unused : List PollFd} {i : ℕ} {deed : Deed} {label : Label}
variable {labels : List Label} {users : ℤ → ClientData} {control : Control} {answer : Answer}
variable {v v' : View}

/-! ## 1. The server without its arrays -/

/-- What the state shows, with the entries of the clients as a list. -/
structure View where
  users : ℤ → ClientData
  /-- `fds[0].revents`. -/
  listener : BitVec 16
  members : List PollFd
  control : Control
  clients : Finset ℤ

/-- `fds[0]`. -/
def listenerEntry (sockfd : ℤ) (revents : BitVec 16) : PollFd :=
  ⟨sockfd, pollin ||| pollerr, revents⟩

/-- A new client. -/
def newcomer (connfd : ℤ) : PollFd := ⟨connfd, pollin ||| pollrdhup ||| pollerr, 0⟩

/-- The entry of a client that is to be told something. -/
def told (connfd : ℤ) (entry : PollFd) : PollFd :=
  if entry.fd = connfd then entry
  else { entry with events := entry.events ||| ~~~pollin ||| pollout }

/-- ...and its data. -/
def pointed (connfd : ℤ) (members : List PollFd) (users : ℤ → ClientData) (fd : ℤ) : ClientData :=
  if fd ≠ connfd ∧ fd ∈ members.map PollFd.fd then
    { users fd with writeBuff := some connfd }
  else
    users fd

/-- The test of the `for` loop. -/
def View.goOn (v : View) (i : ℕ) : View :=
  { v with control := if i < v.members.length + 1 then .turn i else .poll }

/-- The state is the one that is shown. -/
structure Shows (sockfd : ℤ) (s : State) (v : View) : Prop where
  users : s.users = v.users
  cells : ∃ unused, s.fds.cells = listenerEntry sockfd v.listener :: (v.members ++ unused)
  count : s.userCount = v.members.length
  control : s.control = v.control

/-- The loop is at the entry of a client. -/
structure View.At (v : View) (before : List PollFd) (entry : PollFd) (after : List PollFd) :
    Prop where
  members : v.members = before ++ entry :: after
  control : v.control = .turn (before.length + 1)

/-- **What a step can be.** -/
inductive Move (sockfd : ℤ) (v : View) : Label → View → Prop
  | poll (r : BitVec 16) (members : List PollFd) (control : v.control = .poll)
      (listens : (listenerEntry sockfd v.listener).Reports r)
      (reports : List.Forall₂ (fun entry entry' : PollFd =>
        ∃ r, entry.Reports r ∧ entry' = { entry with revents := r }) v.members members) :
      Move sockfd v (.poll (listenerEntry sockfd r :: members))
        { v with listener := r, members, control := .turn 0 }
  | pollFailed (control : v.control = .poll) :
      Move sockfd v .pollFailed { v with control := .stopped }
  | listened (deed : Deed) (control : v.control = .turn 0)
      (nothing : deed = .missed ∨ deed = .checked sockfd ∨ deed = .idle sockfd) :
      Move sockfd v (.turn (listenerEntry sockfd v.listener) deed)
        (v.goOn 1)
  | refused (connfd : ℤ) (control : v.control = .turn 0) (fresh : connfd ∉ v.clients) :
      Move sockfd v (.turn (listenerEntry sockfd v.listener) (.refused connfd))
        (v.goOn 1)
  | came (connfd : ℤ) (control : v.control = .turn 0) (fresh : connfd ∉ v.clients)
      (other : connfd ≠ sockfd) (place : v.members.length < userLimit) (inTable : 0 ≤ connfd)
      (lt : connfd < fdLimit) :
      Move sockfd v (.turn (listenerEntry sockfd v.listener) (.came connfd))
        (View.goOn { v with
          members := v.members ++ [newcomer connfd]
          clients := insert connfd v.clients } 1)
  | passed (before after : List PollFd) (entry : PollFd) (deed : Deed)
      (place : v.At before entry after)
      (nothing : deed = .checked entry.fd ∨ deed = .idle entry.fd) :
      Move sockfd v (.turn entry deed) (v.goOn (before.length + 2))
  | quiet (before after : List PollFd) (entry : PollFd) (place : v.At before entry after)
      (ready : entry.has pollout) (nothing : (v.users entry.fd).writeBuff = none) :
      Move sockfd v (.turn entry (.quiet entry.fd))
        (v.goOn (before.length + 2))
  | sent (before after : List PollFd) (entry : PollFd) (sender : ℤ) (text : Bytes)
      (place : v.At before entry after) (ready : entry.has pollout)
      (pending : (v.users entry.fd).writeBuff = some sender)
      (text_eq : (v.users sender).buf.text? = some text) :
      Move sockfd v (.turn entry (.sent entry.fd text))
        (View.goOn { v with
          users := Function.update v.users entry.fd { v.users entry.fd with writeBuff := none }
          members := before ++
            { entry with events := entry.events ||| ~~~pollout ||| pollin } :: after }
          (before.length + 2))
  | blank (before after : List PollFd) (entry : PollFd) (place : v.At before entry after) :
      Move sockfd v (.turn entry (.blank entry.fd))
        (View.goOn { v with
          users := Function.update v.users entry.fd
            { v.users entry.fd with buf := .replicate bufferSize 0 } } (before.length + 2))
  | heard (before after : List PollFd) (entry : PollFd) (data : Bytes)
      (place : v.At before entry after) (ne : data ≠ []) (le : data.length < bufferSize) :
      Move sockfd v (.turn entry (.heard entry.fd data))
        (View.goOn { v with
          users := pointed entry.fd v.members (Function.update v.users entry.fd
            { v.users entry.fd with buf := (Buffer.replicate bufferSize 0).write data })
          members := v.members.map (told entry.fd) } (before.length + 2))
  | left (before after : List PollFd) (entry last : PollFd) (place : v.At before entry after)
      (last_eq : (entry :: after).getLast (List.cons_ne_nil _ _) = last) :
      Move sockfd v (.turn entry (.left entry.fd last.fd))
        (View.goOn { v with
          users := Function.update v.users entry.fd (v.users last.fd)
          members := before ++ lastFirst after
          clients := v.clients.erase entry.fd } (before.length + 1))
  | failed (before after : List PollFd) (entry last : PollFd) (users : ℤ → ClientData)
      (place : v.At before entry after)
      (last_eq : (entry :: after).getLast (List.cons_ne_nil _ _) = last)
      (cleared : users = Function.update v.users entry.fd
        { v.users entry.fd with buf := .replicate bufferSize 0 }) :
      Move sockfd v (.turn entry (.failed entry.fd last.fd))
        (View.goOn { v with
          users := Function.update users entry.fd (users last.fd)
          members := before ++ lastFirst after
          clients := v.clients.erase entry.fd } (before.length + 1))

/-- Each client has an entry. -/
structure Seats (sockfd : ℤ) (members : List PollFd) (clients : Finset ℤ) : Prop where
  nodup : (members.map PollFd.fd).Nodup
  mem_iff : ∀ fd, fd ∈ clients ↔ fd ∈ members.map PollFd.fd
  other : sockfd ∉ clients
  inTable : ∀ fd ∈ clients, 0 ≤ fd ∧ fd < fdLimit
  count : members.length ≤ userLimit

/-- **The books of the room.** -/
structure Books (sockfd : ℤ) (v : View) : Prop extends Seats sockfd v.members v.clients where
  listens : (listenerEntry sockfd v.listener).Reports v.listener
  control : ∀ i, v.control = .turn i → i ≤ v.members.length

/-! ### The operations -/

theorem user_eq_some {data : ClientData} :
    s.user fd = some data ↔ (0 ≤ fd ∧ fd < fdLimit) ∧ s.users fd = data := by
  rw [State.user, Option.ite_none_right_eq_some, Option.some_inj]

theorem setUser_eq_some {data : ClientData} :
    s.setUser fd data = some s' ↔
      (0 ≤ fd ∧ fd < fdLimit) ∧ { s with users := Function.update s.users fd data } = s' := by
  rw [State.setUser, Option.ite_none_right_eq_some, Option.some_inj]

theorem setEntry_eq_some :
    s.setEntry i entry = some s' ↔
      i < userLimit + 1 ∧ { s with fds := s.fds.set i entry } = s' := by
  rw [State.setEntry, Option.ite_none_right_eq_some, Option.some_inj]

/-- `told` and `pointed` are what the inner loop does. -/
theorem tellFrom_eq_some {a b c : List PollFd} (hcells : s.fds.cells = a ++ b ++ c)
    (h : State.tellFrom connfd b.length a.length s = some s') :
    s'.fds.cells = a ++ b.map (told connfd) ++ c ∧ s'.users = pointed connfd b s.users ∧
      s'.userCount = s.userCount ∧ s'.control = s.control := by
  induction b generalizing a s with
  | nil =>
    cases h
    exact ⟨hcells, by funext fd; simp [pointed], rfl, rfl⟩
  | cons entry b ih =>
    have hentry : s.entry a.length = some entry := by
      rw [State.entry, hcells]
      simp
    have hsplit : a ++ entry :: b ++ c = (a ++ [entry]) ++ b ++ c := by simp
    rw [List.length_cons, State.tellFrom, hentry, Option.bind_eq_bind, Option.bind_some] at h
    by_cases hfd : entry.fd = connfd
    · rw [if_pos hfd] at h
      obtain ⟨hcells', husers, hcount, hcontrol⟩ := ih (a := a ++ [entry]) (hcells.trans hsplit)
        (by rwa [List.length_append, List.length_singleton])
      refine ⟨?_, ?_, hcount, hcontrol⟩
      · rw [hcells', List.map_cons, told, if_pos hfd]
        simp
      · rw [husers]
        funext fd
        by_cases hne : fd = connfd
        · simp [pointed, hne]
        · have : fd ≠ entry.fd := fun e => hne (e.trans hfd)
          simp [pointed, hne, this]
    · rw [if_neg hfd] at h
      simp only [Option.bind_eq_bind, Option.bind_eq_some_iff, setEntry_eq_some, user_eq_some,
        setUser_eq_some] at h
      obtain ⟨_, ⟨-, rfl⟩, _, ⟨-, rfl⟩, _, ⟨-, rfl⟩, h⟩ := h
      have hset : (s.fds.set a.length
          { entry with events := entry.events ||| ~~~pollin ||| pollout }).cells =
            (a ++ [told connfd entry]) ++ b ++ c := by
        simp [Buffer.set, hcells, told, hfd]
      have hlength : a.length + 1 = (a ++ [told connfd entry]).length := by simp
      rw [hlength] at h
      obtain ⟨hcells', husers, hcount, hcontrol⟩ := ih hset h
      refine ⟨?_, ?_, hcount, hcontrol⟩
      · rw [hcells']
        simp
      · rw [husers]
        funext fd
        by_cases hentry : fd = entry.fd
        · subst hentry
          simp [pointed, hfd]
        · simp [pointed, hentry]

theorem View.At.mem (hat : v.At before entry after) : entry ∈ v.members := by
  rw [hat.members]
  exact List.mem_append_right _ List.mem_cons_self

/-- Behind the listening socket the loop is at a client. -/
theorem View.exists_at (hcontrol : v.control = .turn (i + 1)) (hi : i + 1 ≤ v.members.length) :
    ∃ before entry after, before.length = i ∧ v.At before entry after := by
  have hlength : (v.members.take i).length = i := by
    rw [List.length_take]
    omega
  exact ⟨_, v.members[i], v.members.drop (i + 1), hlength, by simp, by rw [hcontrol, hlength]⟩

theorem Books.mem_clients (hb : Books sockfd v) (hat : v.At before entry after) :
    entry.fd ∈ v.clients :=
  (hb.mem_iff _).mpr (List.mem_map_of_mem hat.mem)

/-! ### The entries of the array -/

theorem Shows.goOn (h : Shows sockfd s v) : Shows sockfd (s.goOn i) (v.goOn i) :=
  ⟨h.users, h.cells, h.count, by rw [State.goOn, h.count]; rfl⟩

theorem Shows.entry_zero (h : Shows sockfd s v) :
    s.entry 0 = some (listenerEntry sockfd v.listener) := by
  obtain ⟨unused, hcells⟩ := h.cells
  rw [State.entry, hcells]
  rfl

theorem Shows.entry_at (h : Shows sockfd s v) (hat : v.At before entry after) :
    s.entry (before.length + 1) = some entry := by
  obtain ⟨unused, hcells⟩ := h.cells
  rw [State.entry, hcells, hat.members]
  simp

/-- Another entry is stored. -/
theorem Shows.set (h : Shows sockfd s v) (hat : v.At before entry after) (entry' : PollFd) :
    Shows sockfd { s with fds := s.fds.set (before.length + 1) entry' }
      { v with members := before ++ entry' :: after } := by
  obtain ⟨unused, hcells⟩ := h.cells
  refine ⟨h.users, ⟨unused, ?_⟩, ?_, h.control⟩
  · change s.fds.cells.set _ _ = _
    rw [hcells, hat.members]
    simp
  · rw [h.count, hat.members]
    simp

/-- Where the last entry is. -/
theorem Shows.entry_last (h : Shows sockfd s v) (hat : v.At before entry after) :
    s.entry s.userCount = some ((entry :: after).getLast (List.cons_ne_nil _ _)) := by
  obtain ⟨unused, hcells⟩ := h.cells
  have hsplit : s.fds.cells =
      (listenerEntry sockfd v.listener :: before) ++ entry :: after ++ unused := by
    rw [hcells, hat.members]
    simp
  have hcount :
      s.userCount = (listenerEntry sockfd v.listener :: before).length + after.length := by
    rw [h.count, hat.members]
    simp
    omega
  rw [State.entry, hsplit, hcount]
  exact getElem?_last ..

/-- The last entry has moved. -/
theorem Shows.dropClient {last : ℤ} (h : Shows sockfd s v) (hat : v.At before entry after)
    (hs : s.dropClient (before.length + 1) = some (last, s')) :
    ∃ e, (entry :: after).getLast (List.cons_ne_nil _ _) = e ∧ e.fd = last ∧
      Shows sockfd s' (View.goOn { v with
        users := Function.update v.users entry.fd (v.users e.fd)
        members := before ++ lastFirst after } (before.length + 1)) := by
  obtain ⟨unused, hcells⟩ := h.cells
  have hsplit : s.fds.cells =
      (listenerEntry sockfd v.listener :: before) ++ entry :: after ++ unused := by
    rw [hcells, hat.members]
    simp
  simp only [State.dropClient, h.entry_at hat, h.entry_last hat, Option.bind_eq_bind,
    Option.bind_some, Option.bind_eq_some_iff, user_eq_some, setUser_eq_some, setEntry_eq_some,
    Option.some_inj, Prod.mk.injEq] at hs
  obtain ⟨_, ⟨-, rfl⟩, _, ⟨-, rfl⟩, _, ⟨-, rfl⟩, hfd, rfl⟩ := hs
  refine ⟨_, rfl, hfd, Shows.goOn ⟨by rw [h.users], ?_, ?_, h.control⟩⟩
  · refine ⟨(entry :: after).getLast (List.cons_ne_nil _ _) :: unused, ?_⟩
    change s.fds.cells.set _ _ = _
    rw [hsplit]
    exact cells_set entry (listenerEntry sockfd v.listener :: before) after unused
  · change s.userCount - 1 = (before ++ lastFirst after).length
    rw [h.count, hat.members]
    simp [(lastFirst_perm after).length_eq]

/-! ### The turns -/

theorem and_eq_zero_of {r m bit : BitVec 16} (h : r &&& ~~~m = 0) (hbit : bit &&& ~~~m = bit) :
    r &&& bit = 0 := by
  rw [← hbit, BitVec.and_comm bit, ← BitVec.and_assoc, h]
  exact BitVec.zero_and

/-- The turn is one that is listed. -/
def Turned (sockfd : ℤ) (v : View) (entry : PollFd) (deed : Deed) (s' : State) : Prop :=
  ∃ v', Move sockfd v (.turn entry deed) v' ∧ Shows sockfd s' v' ∧
    v'.clients = heldFrom v.clients deed.acts

theorem acceptClient_turned (h : Shows sockfd s v) (hcontrol : v.control = .turn 0)
    (hs : s.acceptClient 0 connfd = some (deed, s'))
    (fresh : ∀ fd ∈ deed.accepted?, fd ∉ v.clients ∧ fd ≠ sockfd) :
    Turned sockfd v (listenerEntry sockfd v.listener) deed s' := by
  rw [State.acceptClient] at hs
  split at hs
  · cases hs
    exact ⟨_, .listened _ hcontrol (.inl rfl), h.goOn, rfl⟩
  · rename_i hpos
    split at hs
    · cases hs
      obtain ⟨hfresh, -⟩ := fresh connfd rfl
      refine ⟨_, .refused connfd hcontrol hfresh, h.goOn, ?_⟩
      exact (Finset.erase_insert hfresh).symm
    · rename_i hfull
      rw [h.count] at hfull
      simp only [Option.bind_eq_bind, Option.bind_eq_some_iff, user_eq_some,
        setEntry_eq_some, Option.some_inj] at hs
      obtain ⟨_, ⟨hrange, rfl⟩, _, ⟨hplace, rfl⟩, hs⟩ := hs
      cases hs
      obtain ⟨hfresh, hother⟩ := fresh connfd rfl
      refine ⟨_, .came connfd hcontrol hfresh hother (Nat.lt_of_not_le hfull) hrange.1 hrange.2,
        ?_, rfl⟩
      refine Shows.goOn (v := { v with
        members := v.members ++ [newcomer connfd]
        clients := insert connfd v.clients }) ⟨h.users, ?_, ?_, h.control⟩
      · obtain ⟨unused, hcells⟩ := h.cells
        have hlength := s.fds.length_eq
        rw [hcells, List.length_cons, List.length_append] at hlength
        cases unused with
        | nil =>
          rw [List.length_nil] at hlength
          omega
        | cons entry unused =>
          refine ⟨unused, ?_⟩
          change s.fds.cells.set (s.userCount + 1) (newcomer connfd) = _
          rw [hcells, h.count]
          simp
      · change s.userCount + 1 = _
        rw [h.count]
        simp

/-- `poll` does not report of the listening socket what it was not asked for. -/
theorem Books.listener_has (hb : Books sockfd v) :
    ¬ (listenerEntry sockfd v.listener).has pollrdhup ∧
      ¬ (listenerEntry sockfd v.listener).has pollout :=
  ⟨not_not_intro (and_eq_zero_of (m := pollin ||| pollerr ||| pollerr ||| pollhup ||| pollnval)
      hb.listens (by decide)),
    not_not_intro (and_eq_zero_of (m := pollin ||| pollerr ||| pollerr ||| pollhup ||| pollnval)
      hb.listens (by decide))⟩

/-- The turn of the listening socket. -/
theorem turn_listener (h : Shows sockfd s v) (hb : Books sockfd v)
    (hcontrol : v.control = .turn 0) (hs : s.turn sockfd 0 answer = some (deed, s'))
    (fresh : ∀ fd ∈ deed.accepted?, fd ∉ v.clients ∧ fd ≠ sockfd) :
    Turned sockfd v (listenerEntry sockfd v.listener) deed s' := by
  obtain ⟨hrdhup, hout⟩ := hb.listener_has
  rw [State.turn, h.entry_zero, Option.bind_eq_bind, Option.bind_some] at hs
  by_cases hin : (listenerEntry sockfd v.listener).has pollin
  · rw [if_pos ⟨rfl, hin⟩] at hs
    exact acceptClient_turned h hcontrol hs fresh
  · rw [if_neg fun hand => hin hand.2] at hs
    by_cases herr : (listenerEntry sockfd v.listener).has pollerr
    · rw [if_pos herr] at hs
      cases hs
      exact ⟨_, .listened _ hcontrol (.inr (.inl rfl)), h.goOn, rfl⟩
    · rw [if_neg herr, if_neg hrdhup, if_neg hin, if_neg hout] at hs
      cases hs
      exact ⟨_, .listened _ hcontrol (.inr (.inr rfl)), h.goOn, rfl⟩

/-- A client is read. -/
theorem readClient_turned {ret : RecvRet (bufferSize - 1)} {again : Bool}
    (h : Shows sockfd s v) (hat : v.At before entry after)
    (hs : s.readClient (before.length + 1) entry.fd ret again = some (deed, s')) :
    Turned sockfd v entry deed s' := by
  simp only [State.readClient, Option.bind_eq_bind, Option.bind_eq_some_iff, user_eq_some,
    setUser_eq_some] at hs
  obtain ⟨_, ⟨-, rfl⟩, _, ⟨-, rfl⟩, hs⟩ := hs
  rw [h.users] at hs
  set users := Function.update v.users entry.fd
    { v.users entry.fd with buf := (Buffer.replicate bufferSize 0).write ret.data } with husers
  have hread : Shows sockfd { s with users := users } { v with users := users } :=
    ⟨rfl, h.cells, h.count, h.control⟩
  cases ret with
  | failed =>
    rw [if_pos (by decide)] at hs
    rw [RecvRet.data, Buffer.write_nil] at husers
    by_cases hagain : again = true
    · rw [if_pos hagain] at hs
      cases hs
      exact ⟨_, husers ▸ .blank before after entry hat, hread.goOn, rfl⟩
    · rw [if_neg hagain] at hs
      simp only [Option.bind_eq_some_iff, Option.some_inj] at hs
      obtain ⟨⟨last, s''⟩, hdrop, hs⟩ := hs
      cases hs
      obtain ⟨e, hlast, rfl, hshows⟩ := hread.dropClient ⟨hat.members, hat.control⟩ hdrop
      exact ⟨_, .failed before after entry e users hat hlast husers,
        ⟨hshows.users, hshows.cells, hshows.count, hshows.control⟩, rfl⟩
  | received data le =>
    rw [if_neg (by simp [RecvRet.ret])] at hs
    by_cases hdata : data = []
    · subst hdata
      have hzero : (RecvRet.received [] le).ret = 0 := rfl
      rw [if_pos hzero] at hs
      cases hs
      rw [RecvRet.data, Buffer.write_nil] at husers
      exact ⟨_, husers ▸ .blank before after entry hat, hread.goOn, rfl⟩
    · rw [if_neg (by simpa [RecvRet.ret] using hdata)] at hs
      simp only [Option.bind_eq_some_iff, Option.some_inj] at hs
      obtain ⟨s'', htell, hs⟩ := hs
      cases hs
      obtain ⟨unused, hcells⟩ := h.cells
      rw [h.count] at htell
      obtain ⟨hcells', husers', hcount, hcontrol⟩ :=
        tellFrom_eq_some (a := [listenerEntry sockfd v.listener]) (c := unused) (by simpa) htell
      refine ⟨_, .heard before after entry data hat hdata (Nat.lt_succ_of_le le),
        Shows.goOn ⟨husers', ⟨unused, by simpa using hcells'⟩, ?_, hcontrol.trans h.control⟩, rfl⟩
      exact hcount.trans (List.length_map _).symm

/-- A client is written to. -/
theorem writeClient_turned (h : Shows sockfd s v) (hat : v.At before entry after)
    (ready : entry.has pollout)
    (hs : s.writeClient (before.length + 1) entry = some (deed, s')) :
    Turned sockfd v entry deed s' := by
  simp only [State.writeClient, Option.bind_eq_bind, Option.bind_eq_some_iff, user_eq_some] at hs
  obtain ⟨_, ⟨-, rfl⟩, hs⟩ := hs
  rw [h.users] at hs
  cases hpending : (v.users entry.fd).writeBuff with
  | none =>
    simp only [hpending] at hs
    cases hs
    exact ⟨_, .quiet before after entry hat ready hpending, h.goOn, rfl⟩
  | some sender =>
    simp only [hpending, Option.bind_eq_some_iff, user_eq_some, setUser_eq_some,
      setEntry_eq_some, Option.some_inj] at hs
    obtain ⟨_, ⟨-, rfl⟩, text, htext, _, ⟨-, rfl⟩, _, ⟨-, rfl⟩, hs⟩ := hs
    cases hs
    rw [h.users] at htext
    refine ⟨_, .sent before after entry sender text hat ready hpending htext, Shows.goOn ?_, rfl⟩
    have hset := h.set hat { entry with events := entry.events ||| ~~~pollout ||| pollin }
    exact ⟨by rw [h.users], hset.cells, hset.count, hset.control⟩

/-- A client is not the listening socket. -/
theorem Books.fd_ne (hb : Books sockfd v) (hat : v.At before entry after) : entry.fd ≠ sockfd := by
  rintro rfl
  exact hb.other (hb.mem_clients hat)

/-- The turn of a client. -/
theorem turn_member (h : Shows sockfd s v) (hb : Books sockfd v) (hat : v.At before entry after)
    (hs : s.turn sockfd (before.length + 1) answer = some (deed, s')) :
    Turned sockfd v entry deed s' := by
  rw [State.turn, h.entry_at hat, Option.bind_eq_bind, Option.bind_some,
    if_neg fun hand => hb.fd_ne hat hand.1] at hs
  split at hs
  · cases hs
    exact ⟨_, .passed before after entry _ hat (.inl rfl), h.goOn, rfl⟩
  · split at hs
    · simp only [Option.bind_eq_bind, Option.bind_eq_some_iff, Option.some_inj] at hs
      obtain ⟨⟨last, s''⟩, hdrop, hs⟩ := hs
      cases hs
      obtain ⟨e, hlast, rfl, hshows⟩ := h.dropClient hat hdrop
      exact ⟨_, .left before after entry e hat hlast,
        ⟨hshows.users, hshows.cells, hshows.count, hshows.control⟩, rfl⟩
    · split at hs
      · exact readClient_turned h hat hs
      · split at hs
        · rename_i ready
          exact writeClient_turned h hat ready hs
        · cases hs
          exact ⟨_, .passed before after entry _ hat (.inr rfl), h.goOn, rfl⟩

/-- What `poll` is given. -/
theorem Shows.table (h : Shows sockfd s v) :
    s.table = listenerEntry sockfd v.listener :: v.members := by
  obtain ⟨unused, hcells⟩ := h.cells
  rw [State.table, hcells, h.count]
  simp

/-- The entries after `poll`. -/
theorem reported_zipWith {entries : List PollFd} {revents : List (BitVec 16)}
    (reports : List.Forall₂ PollFd.Reports entries revents) :
    List.Forall₂ (fun entry entry' : PollFd =>
        ∃ r, entry.Reports r ∧ entry' = { entry with revents := r }) entries
      (List.zipWith (fun entry r => { entry with revents := r }) entries revents) := by
  induction reports with
  | nil => exact .nil
  | cons hreports _ ih => exact .cons ⟨_, hreports, rfl⟩ ih

/-- What `poll` has stored. -/
theorem Shows.polled {revents : List (BitVec 16)} (h : Shows sockfd s v)
    (reports : List.Forall₂ PollFd.Reports s.table revents) :
    ∃ r members, (listenerEntry sockfd v.listener).Reports r ∧
      List.Forall₂ (fun entry entry' : PollFd =>
        ∃ r, entry.Reports r ∧ entry' = { entry with revents := r }) v.members members ∧
      Shows sockfd (s.polled revents)
        { v with listener := r, members, control := .turn 0 } := by
  have htable := h.table
  obtain ⟨unused, hcells⟩ := h.cells
  have hlength := s.fds.length_eq
  rw [hcells, List.length_cons, List.length_append] at hlength
  rw [htable] at reports
  cases reports with
  | @cons _ r _ rs hlistener hmembers =>
    have hzip := reported_zipWith hmembers
    refine ⟨r, _, hlistener, hzip, h.users, ⟨unused, ?_⟩, ?_, rfl⟩
    · change (s.fds.write (List.zipWith _ s.table (r :: rs))).cells = _
      rw [htable, List.zipWith_cons_cons, Buffer.write_cells, hcells]
      · rw [List.length_cons, ← hzip.length_eq, List.drop_succ_cons, List.drop_left]
        rfl
      · rw [List.length_cons, ← hzip.length_eq]
        omega
    · exact h.count.trans hzip.length_eq

/-- Every step of the server is one that is listed. -/
theorem step_shows (h : Shows sockfd w.server v) (hb : Books sockfd v)
    (hclients : w.clients = v.clients) (hs : Step sockfd w label w') :
    ∃ v', Move sockfd v label v' ∧ Shows sockfd w'.server v' ∧ w'.clients = v'.clients := by
  cases hs with
  | poll revents control reports =>
    obtain ⟨r, members, hlistener, hmembers, hshows⟩ := h.polled reports
    refine ⟨_, ?_, hshows, hclients⟩
    rw [hshows.table]
    exact .poll r members (h.control ▸ control) hlistener hmembers
  | pollFailed control =>
    exact ⟨_, .pollFailed (h.control ▸ control), ⟨h.users, h.cells, h.count, rfl⟩, hclients⟩
  | turn i entry answer deed s control entry_eq turns fresh =>
    rw [hclients] at fresh
    rw [h.control] at control
    have hle := hb.control i control
    suffices hturned : Turned sockfd v entry deed s by
      obtain ⟨v', hmove, hshows, hclients'⟩ := hturned
      exact ⟨v', hmove, hshows, by rw [hclients', hclients]⟩
    cases i with
    | zero =>
      obtain rfl : listenerEntry sockfd v.listener = entry :=
        Option.some.inj (h.entry_zero.symm.trans entry_eq)
      exact turn_listener h hb control turns fresh
    | succ i =>
      obtain ⟨before, entry', after, rfl, hat⟩ := View.exists_at control hle
      obtain rfl : entry' = entry := Option.some.inj ((h.entry_at hat).symm.trans entry_eq)
      exact turn_member h hb hat turns

/-! ## 2. The table -/

/-- The entries may change, but not their descriptors. -/
theorem Seats.of_map {clients : Finset ℤ} {members' : List PollFd}
    (h : Seats sockfd members clients)
    (hmap : members'.map PollFd.fd = members.map PollFd.fd) : Seats sockfd members' clients := by
  refine ⟨hmap ▸ h.nodup, hmap ▸ h.mem_iff, h.other, h.inTable, ?_⟩
  rw [← List.length_map PollFd.fd, hmap, List.length_map]
  exact h.count

/-- A place is taken. -/
theorem Seats.came {clients : Finset ℤ} (h : Seats sockfd members clients)
    (fresh : connfd ∉ clients) (other : connfd ≠ sockfd) (place : members.length < userLimit)
    (inTable : 0 ≤ connfd ∧ connfd < fdLimit) :
    Seats sockfd (members ++ [newcomer connfd]) (insert connfd clients) where
  nodup := by
    rw [List.map_append, List.map_singleton, List.nodup_append]
    refine ⟨h.nodup, List.nodup_singleton _, fun fd hfd fd' hfd' heq => ?_⟩
    obtain rfl := List.mem_singleton.mp hfd'
    subst heq
    exact fresh ((h.mem_iff _).mpr hfd)
  mem_iff fd := by
    rw [Finset.mem_insert, h.mem_iff, List.map_append, List.mem_append, List.map_singleton,
      List.mem_singleton, or_comm]
    rfl
  other := by
    rw [Finset.mem_insert, not_or]
    exact ⟨Ne.symm other, h.other⟩
  inTable := (Finset.forall_mem_insert ..).mpr ⟨inTable, h.inTable⟩
  count := by
    rw [List.length_append, List.length_singleton]
    exact place

/-- A place is free again. -/
theorem Seats.gone {clients : Finset ℤ} (h : Seats sockfd (before ++ entry :: after) clients) :
    Seats sockfd (before ++ lastFirst after) (clients.erase entry.fd) := by
  have hperm : ((before ++ entry :: after).map PollFd.fd).Perm
      (entry.fd :: (before ++ lastFirst after).map PollFd.fd) := by
    rw [← List.map_cons]
    refine List.Perm.map _ (List.perm_middle.trans ?_)
    exact ((lastFirst_perm after).symm.append_left before).cons entry
  have hnodup := hperm.nodup_iff.mp h.nodup
  rw [List.nodup_cons] at hnodup
  refine ⟨hnodup.2, fun fd => ?_, fun hmem => h.other (Finset.mem_of_mem_erase hmem),
    fun fd hfd => h.inTable fd (Finset.mem_of_mem_erase hfd), ?_⟩
  · rw [Finset.mem_erase, h.mem_iff, hperm.mem_iff, List.mem_cons]
    constructor
    · rintro ⟨hne, heq | hmem⟩
      · exact absurd heq hne
      · exact hmem
    · intro hmem
      exact ⟨fun heq => hnodup.1 (heq ▸ hmem), .inr hmem⟩
  · have hlength := hperm.length_eq
    have hcount := h.count
    rw [List.length_map, List.length_cons, List.length_map] at hlength
    omega

/-- The loop goes on. -/
theorem Seats.goOn (h : Seats sockfd v.members v.clients)
    (listens : (listenerEntry sockfd v.listener).Reports v.listener) :
    Books sockfd (v.goOn i) where
  toSeats := h
  listens := listens
  control j hj := by
    change (if i < v.members.length + 1 then Control.turn i else .poll) = .turn j at hj
    split at hj
    · cases hj
      change i ≤ v.members.length
      omega
    · cases hj

theorem map_fd_reported {members' : List PollFd}
    (h : List.Forall₂ (fun entry entry' : PollFd =>
      ∃ r, entry.Reports r ∧ entry' = { entry with revents := r }) members members') :
    members'.map PollFd.fd = members.map PollFd.fd := by
  induction h with
  | nil => rfl
  | cons hentry _ ih =>
    obtain ⟨r, -, rfl⟩ := hentry
    rw [List.map_cons, List.map_cons, ih]

theorem fd_told : (told connfd entry).fd = entry.fd := by
  rw [told]
  split <;> rfl

theorem map_fd_told : (members.map (told connfd)).map PollFd.fd = members.map PollFd.fd := by
  rw [List.map_map]
  exact List.map_congr_left fun _ _ => fd_told

/-- Every step keeps the books. -/
theorem Books.move (h : Books sockfd v) (hm : Move sockfd v label v') : Books sockfd v' := by
  cases hm with
  | poll r members control listens reports =>
    refine ⟨h.of_map (map_fd_reported reports), listens, ?_⟩
    rintro _ ⟨⟩
    exact Nat.zero_le _
  | pollFailed => exact ⟨h.toSeats, h.listens, nofun⟩
  | listened | refused | passed | quiet => exact h.toSeats.goOn h.listens
  | came connfd control fresh other place inTable lt =>
    exact Seats.goOn (h.toSeats.came fresh other place ⟨inTable, lt⟩) h.listens
  | sent before after entry sender text place =>
    refine Seats.goOn (h.of_map ?_) h.listens
    rw [place.members, List.map_append, List.map_append]
    rfl
  | blank => exact Seats.goOn h.toSeats h.listens
  | heard before after entry data place => exact Seats.goOn (h.of_map map_fd_told) h.listens
  | left before after entry last place | failed before after entry last users place =>
    have hseats := h.toSeats
    rw [place.members] at hseats
    exact Seats.goOn hseats.gone h.listens

/-! ### Playing -/

theorem play_step (input : Input) (h : w.play sockfd input = some (label, w')) :
    Step sockfd w label w' := by
  cases input with
  | poll revents =>
    rw [World.play, Option.ite_none_right_eq_some] at h
    obtain ⟨⟨control, hlength, hreports⟩, h⟩ := h
    cases h
    refine .poll w revents control (List.forall₂_iff_zip.mpr ⟨hlength, fun hmem => ?_⟩)
    exact hreports _ hmem
  | turn answer =>
    rw [World.play] at h
    split at h
    · rename_i i control
      simp only [Option.bind_eq_bind, Option.bind_eq_some_iff,
        Option.ite_none_right_eq_some] at h
      obtain ⟨entry, hentry, ⟨deed, s⟩, hturn, hfresh, h⟩ := h
      cases h
      exact .turn w i entry answer deed s control hentry hturn hfresh
    · cases h

/-- What is played is a run. -/
theorem plays_path {inputs : List Input} (h : w.plays sockfd inputs = some (labels, w')) :
    Path (Step sockfd) w labels w' := by
  induction inputs generalizing w labels with
  | nil =>
    cases h
    rfl
  | cons input inputs ih =>
    simp only [World.plays, Option.bind_eq_bind, Option.bind_eq_some_iff, Option.some_inj,
      Prod.mk.injEq] at h
    obtain ⟨⟨label, w₁⟩, hplay, ⟨labels, w₂⟩, hplays, rfl, rfl⟩ := h
    exact ⟨w₁, play_step input hplay, ih hplays⟩

theorem plays_get {inputs : List Input} (h : (w.plays sockfd inputs).isSome) :
    Path (Step sockfd) w ((w.plays sockfd inputs).get h).1 ((w.plays sockfd inputs).get h).2 :=
  plays_path (Option.some_get h).symm

/-- What a step does to the descriptors of clients. -/
def Label.acts : Label → List (Act ℤ)
  | .turn _ deed => deed.acts
  | _ => []

theorem Books.ledger (h : Books sockfd v) (hm : Move sockfd v label v') :
    v'.clients = heldFrom v.clients label.acts ∧ FreshFrom v.clients label.acts ∧
      OwnedFrom v.clients label.acts := by
  cases hm with
  | poll | pollFailed | quiet | sent | blank | heard => exact ⟨rfl, along_nil, along_nil⟩
  | listened deed control nothing =>
    rcases nothing with rfl | rfl | rfl <;> exact ⟨rfl, along_nil, along_nil⟩
  | passed before after entry deed place nothing =>
    rcases nothing with rfl | rfl <;> exact ⟨rfl, along_nil, along_nil⟩
  | refused connfd control fresh =>
    refine ⟨(Finset.erase_insert fresh).symm, ?_, ?_⟩
    · refine freshFrom_cons.mpr ⟨?_, freshFrom_cons.mpr ⟨nofun, along_nil⟩⟩
      rintro _ ⟨⟩
      exact fresh
    · refine ownedFrom_cons.mpr ⟨nofun, ownedFrom_cons.mpr ⟨?_, along_nil⟩⟩
      rintro _ ⟨⟩
      exact Finset.mem_insert_self _ _
  | came connfd control fresh =>
    refine ⟨rfl, freshFrom_cons.mpr ⟨?_, along_nil⟩, ownedFrom_cons.mpr ⟨nofun, along_nil⟩⟩
    rintro _ ⟨⟩
    exact fresh
  | left before after entry last place | failed before after entry last users place =>
    have howned : OwnedFrom v.clients [.release entry.fd] := by
      refine ownedFrom_cons.mpr ⟨?_, along_nil⟩
      rintro _ ⟨⟩
      exact h.mem_clients place
    exact ⟨rfl, freshFrom_cons.mpr ⟨nofun, along_nil⟩, howned⟩

variable {garbage : Buffer PollFd (userLimit + 1)}

/-- What is shown before the first round. -/
def View.start (users : ℤ → ClientData) : View := ⟨users, 0, [], .poll, ∅⟩

theorem books_start : Books sockfd (View.start users) where
  nodup := List.nodup_nil
  mem_iff fd := by simp [View.start]
  other := Finset.notMem_empty _
  inTable := by simp [View.start]
  count := Nat.zero_le _
  listens := by
    change (0 : BitVec 16) &&& _ = 0
    exact BitVec.zero_and
  control := nofun

theorem shows_start : Shows sockfd (State.start users garbage sockfd) (View.start users) := by
  refine ⟨rfl, ?_, rfl, rfl⟩
  obtain ⟨cells, hlength⟩ := garbage
  cases cells with
  | nil => cases hlength
  | cons entry cells => exact ⟨cells.map fun entry => { entry with fd := -1, events := 0 }, rfl⟩

/-- **The arrays hold the room**, and its books are kept. -/
def Shown (sockfd : ℤ) (w : World) (v : View) : Prop :=
  Shows sockfd w.server v ∧ Books sockfd v ∧ w.clients = v.clients

theorem Shown.step (h : Shown sockfd w v) (hs : Step sockfd w label w') :
    ∃ v', Move sockfd v label v' ∧ Shown sockfd w' v' := by
  obtain ⟨hshows, hbooks, hclients⟩ := h
  obtain ⟨v', hmove, hshows', hclients'⟩ := step_shows hshows hbooks hclients hs
  exact ⟨v', hmove, hshows', hbooks.move hmove, hclients'⟩

/-- **Every run of the server is one of the room.** -/
theorem run_shows (hr : Run sockfd users garbage labels w) :
    ∃ v, Path (Move sockfd) (View.start users) labels v ∧ Shown sockfd w v :=
  Path.simulate (fun _ _ _ _ h hs => h.step hs) ⟨shows_start, books_start, rfl⟩ hr

theorem Shows.members_eq (h : Shows sockfd s v) : s.members = v.members := by
  rw [State.members, h.table, List.tail_cons]

/-- **`poll` watches who is there.**  After any run its table is the listening socket and then each
connected client once, of whom there are at most `USER_LIMIT`; and if none is left, each descriptor
that `accept` has returned was closed exactly once (and not otherwise). -/
theorem table_lists (hr : Run sockfd users garbage labels w) :
    (∃ r, w.server.table = listenerEntry sockfd r :: w.server.members) ∧
      (w.server.members.map PollFd.fd).Nodup ∧
      (w.server.members.map PollFd.fd).toFinset = w.clients ∧ w.clients.card ≤ userLimit ∧
      (ReleasedOnce (labels.flatMap Label.acts) ↔ w.clients = ∅) := by
  obtain ⟨v, hpath, hshows, hbooks, hclients⟩ := run_shows hr
  have hset : (v.members.map PollFd.fd).toFinset = v.clients := by
    ext fd
    rw [List.mem_toFinset, hbooks.mem_iff]
  obtain ⟨hheld, hfresh, howned⟩ := Path.ledger (I := Books sockfd) View.clients Label.acts
    (fun _ _ _ h hm => ⟨h.move hm, h.ledger hm⟩) books_start hpath
  rw [hclients, hshows.members_eq]
  refine ⟨⟨v.listener, hshows.table⟩, hbooks.nodup, hset, ?_, ?_⟩
  · rw [← hset, List.toFinset_card_of_nodup hbooks.nodup, List.length_map]
    exact hbooks.count
  · rw [hheld]
    exact releasedOnce_iff hfresh howned

/-- An empty room, and answers for a turn. -/
def noUsers : ℤ → ClientData := fun _ => ⟨none, .replicate bufferSize 0⟩

def noFds : Buffer PollFd (userLimit + 1) := .replicate _ ⟨0, 0, 0⟩

def emptyRoom : World := { server := State.start noUsers noFds 3 }

def nothing : Input := .turn ⟨-1, .failed, true⟩

def comes (connfd : ℤ) : Input := .turn ⟨connfd, .failed, true⟩

def speaks (data : Bytes) (le : data.length ≤ bufferSize - 1) : Input :=
  .turn ⟨-1, .received data le, true⟩

/-- Two clients come. -/
def arrival : List Input := [.poll [pollin], comes 5, nothing, .poll [pollin, 0], comes 6, nothing,
  nothing]

def arrived : List Label × World := (emptyRoom.plays 3 arrival).get (by decide)

theorem run_arrived : Run 3 noUsers noFds arrived.1 arrived.2 := plays_get _

theorem table_lists_two :
    (∃ r, arrived.2.server.table = listenerEntry 3 r :: arrived.2.server.members) ∧
      (arrived.2.server.members.map PollFd.fd).Nodup ∧
      (arrived.2.server.members.map PollFd.fd).toFinset = arrived.2.clients ∧
      arrived.2.clients.card ≤ userLimit ∧
      (ReleasedOnce (arrived.1.flatMap Label.acts) ↔ arrived.2.clients = ∅) :=
  table_lists run_arrived

/-! ## 3. A round -/

/-- What `poll` has said of an entry. -/
def PollFd.asked (entry : PollFd) : ℤ × BitVec 16 := (entry.fd, entry.revents)

/-- What the loop has not come to. -/
def View.due (v : View) (sockfd : ℤ) : List (ℤ × BitVec 16) :=
  match v.control with
  | .turn i => ((listenerEntry sockfd v.listener :: v.members).drop i).map PollFd.asked
  | _ => []

theorem due_goOn : (v.goOn i).due sockfd =
    ((listenerEntry sockfd v.listener :: v.members).drop i).map PollFd.asked := by
  by_cases hi : i < v.members.length + 1
  · rw [View.due, View.goOn, if_pos hi]
  · rw [View.due, View.goOn, if_neg hi, List.drop_of_length_le]
    · rfl
    · rw [List.length_cons]
      omega

/-- A turn as a visit. -/
def visit (entry : PollFd) : Deed → Visit (ℤ × BitVec 16)
  | .came connfd => .add entry.asked (connfd, 0)
  | .left _ _ | .failed _ _ => .drop entry.asked
  | _ => .keep entry.asked

theorem asked_told : (told connfd entry).asked = entry.asked := by
  rw [told]
  split <;> rfl

theorem View.At.due (hat : v.At before entry after) :
    v.due sockfd = entry.asked :: after.map PollFd.asked := by
  rw [View.due, hat.control, hat.members]
  simp

/-- Behind an entry. -/
theorem due_behind (hmembers : v.members = before ++ entry :: after) :
    (v.goOn (before.length + 2)).due sockfd = after.map PollFd.asked := by
  rw [due_goOn, hmembers]
  simp

/-- **The loop is a sweep.** -/
theorem sweep_turn (hm : Move sockfd v (.turn entry deed) v') :
    Sweep (v.due sockfd) (visit entry deed) (v'.due sockfd) := by
  have hlisten (hcontrol : v.control = .turn 0) : v.due sockfd =
      (listenerEntry sockfd v.listener).asked :: v.members.map PollFd.asked := by
    rw [View.due, hcontrol]
    rfl
  cases hm with
  | listened deed control nothing =>
    rw [hlisten control, due_goOn]
    rcases nothing with rfl | rfl | rfl <;> exact .keep _ _
  | refused connfd control fresh =>
    rw [hlisten control, due_goOn]
    exact .keep _ _
  | came connfd control fresh =>
    rw [hlisten control, due_goOn, List.drop_one, List.tail_cons, List.map_append]
    exact .add _ _ _
  | passed before after entry deed place nothing =>
    rw [place.due, due_behind place.members]
    rcases nothing with rfl | rfl <;> exact .keep _ _
  | quiet before after entry place =>
    rw [place.due, due_behind place.members]
    exact .keep _ _
  | sent before after entry sender text place =>
    rw [place.due, due_behind rfl]
    exact .keep _ _
  | blank before after entry place =>
    change Sweep _ _ ((v.goOn (before.length + 2)).due sockfd)
    rw [place.due, due_behind place.members]
    exact .keep _ _
  | heard before after entry data place =>
    have hmembers : v.members.map (told entry.fd) =
        before.map (told entry.fd) ++ told entry.fd entry :: after.map (told entry.fd) := by
      rw [place.members, List.map_append, List.map_cons]
    have hafter : (after.map (told entry.fd)).map PollFd.asked = after.map PollFd.asked := by
      rw [List.map_map]
      exact List.map_congr_left fun _ _ => asked_told
    rw [place.due, ← List.length_map (told entry.fd), due_behind hmembers, hafter]
    exact .keep _ _
  | left before after entry last place | failed before after entry last users place =>
    rw [place.due, due_goOn]
    simp only [List.drop_succ_cons, List.drop_left, map_lastFirst]
    exact .drop _ _

/-- Who has come in a turn, without `revents`. -/
def Deed.arrivals : Deed → List (ℤ × BitVec 16)
  | .came connfd => [(connfd, 0)]
  | _ => []

theorem visited_visit : (visit entry deed).visited = entry.asked := by
  cases deed <;> rfl

theorem added_visit : (visit entry deed).added = deed.arrivals := by
  cases deed <;> rfl

/-- Somebody can still come: the loop is at the listening socket. -/
def View.mayCome (v : View) : ℕ := if v.control = .turn 0 then 1 else 0

@[simp] theorem mayCome_goOn : (v.goOn (i + 1)).mayCome = 0 := by
  refine if_neg ?_
  change ¬ (if i + 1 < v.members.length + 1 then Control.turn (i + 1) else .poll) = .turn 0
  split <;> nofun

theorem mayCome_turn (hm : Move sockfd v (.turn entry deed) v') :
    deed.arrivals.length + v'.mayCome ≤ v.mayCome := by
  cases hm with
  | listened deed control nothing =>
    rcases nothing with rfl | rfl | rfl <;> simp [Deed.arrivals]
  | came connfd control =>
    rw [mayCome_goOn, View.mayCome, if_pos control]
    rfl
  | passed before after entry deed place nothing =>
    rcases nothing with rfl | rfl <;> simp [Deed.arrivals]
  | refused | quiet | sent | blank | heard | left | failed => simp [Deed.arrivals]

variable {turns : List (PollFd × Deed)}

theorem arrivals_path
    (hp : Path (fun v turn v' => Move sockfd v (.turn turn.1 turn.2) v') v turns v') :
    (turns.flatMap fun turn => turn.2.arrivals).length + v'.mayCome ≤ v.mayCome := by
  induction turns generalizing v with
  | nil => simp [show v' = v from hp]
  | cons turn turns ih =>
    obtain ⟨v₁, hmove, hpath⟩ := hp
    have hturn := mayCome_turn hmove
    have hrest := ih hpath
    rw [List.flatMap_cons, List.length_append]
    omega

/-- Turns of the `for` loop. -/
abbrev Turns (sockfd : ℤ) : World → List (PollFd × Deed) → World → Prop :=
  Path fun w turn => Step sockfd w (.turn turn.1 turn.2)

/-- **A round serves each entry once**, with what `poll` has said of it, although clients are taken
out and one may come meanwhile; and it comes to an end. -/
theorem round_serves {table : List PollFd} {w₁ w₂ : World}
    (hr : Run sockfd users garbage labels w) (hpoll : Step sockfd w (.poll table) w₁)
    (hturns : Turns sockfd w₁ turns w₂) :
    turns.length ≤ table.length + 1 ∧ (w₂.server.control = .poll →
      (turns.map fun turn => turn.1.asked).Perm
        (table.map PollFd.asked ++ turns.flatMap fun turn => turn.2.arrivals)) := by
  obtain ⟨v, -, hshown⟩ := run_shows hr
  obtain ⟨v₁, hmove, hshows₁, hbooks₁, hclients₁⟩ := hshown.step hpoll
  obtain ⟨v₂, hpath, hshows₂, -⟩ : ∃ v₂,
      Path (fun v (turn : PollFd × Deed) => Move sockfd v (.turn turn.1 turn.2)) v₁ turns v₂ ∧
        Shown sockfd w₂ v₂ :=
    Path.simulate (fun _ _ _ _ h hs => h.step hs) ⟨hshows₁, hbooks₁, hclients₁⟩ hturns
  have hdue : v₁.due sockfd = table.map PollFd.asked := by
    cases hmove
    rfl
  have hsweep : Path Sweep (v₁.due sockfd) (turns.map fun turn => visit turn.1 turn.2)
      (v₂.due sockfd) :=
    path_map (f := fun v => v.due sockfd) (fun _ _ _ => sweep_turn) hpath
  have hperm := Sweep.perm hsweep
  simp only [hdue, List.map_map, List.flatMap_map, Function.comp_def, visited_visit,
    added_visit] at hperm
  refine ⟨?_, fun hend => ?_⟩
  · have hlength := hperm.length_eq
    have harrivals := arrivals_path hpath
    have hmay : v₁.mayCome ≤ 1 := by
      rw [View.mayCome]
      split <;> omega
    simp only [List.length_append, List.length_map] at hlength
    omega
  · have hnothing : v₂.due sockfd = [] := by
      rw [View.due, ← hshows₂.control, hend]
    rwa [hnothing, List.append_nil] at hperm

/-- The first of the two says something. -/
def polled : Label × World := (arrived.2.play 3 (.poll [0, pollin, 0])).get (by decide)

def hearing : List (PollFd × Deed) :=
  [(listenerEntry 3 0, .idle 3), (⟨5, (newcomer 5).events, pollin⟩, .heard 5 [104, 105]),
    (⟨6, 0xffff, 0⟩, .idle 6)]

theorem round_serves_two : ∃ w : World, hearing.length ≤ 3 + 1 ∧ (w.server.control = .poll →
    (hearing.map fun turn => turn.1.asked).Perm
      ([(3, 0), (5, pollin), (6, 0)] ++ hearing.flatMap fun turn => turn.2.arrivals)) := by
  have hturns : ∃ w, Turns 3 polled.2 hearing w :=
    ⟨_, _, play_step nothing rfl, _, play_step (speaks [104, 105] (by decide)) rfl, _,
      play_step nothing rfl, rfl⟩
  obtain ⟨w, hturns⟩ := hturns
  exact ⟨w, round_serves run_arrived (play_step (.poll [0, pollin, 0]) rfl) hturns⟩

end InternetProgramming.ChatServer
