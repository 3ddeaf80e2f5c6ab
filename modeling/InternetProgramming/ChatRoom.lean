/-
# Who hears what

The runs of the chat server beside the room that it is meant to be.

* A client that has been told something is polled for everything from then on (`asks_of_run`): the
  two `|=` set bits where one was to be cleared.
* What is sent to a client is what another one has said last, and it is sent once, unless the one
  who has said it has left meanwhile (`run_delivers`).  Then it is what the client in the last place
  has said, which can be the one it is sent to (`run_utters`).
* No turn leaves the arrays, if the descriptors fit and nobody leaves a letter behind
  (`turn_goes_on`).

`Kept` is what all runs keep: `Books`, what the entries ask for, and where the letters are.
-/
import InternetProgramming.ChatServerSpec

namespace InternetProgramming.ChatServer

open Interaction

variable {sockfd fd connfd : ℤ} {w : World} {v v' : View} {entry : PollFd} {deed : Deed}
variable {members : List PollFd} {label : Label} {labels : List Label} {users : ℤ → ClientData}
variable {garbage : Buffer PollFd (userLimit + 1)}

/-! ## 1. What `poll` is asked for -/

/-- The client has come, or somebody else has said something. -/
def Label.addresses (fd : ℤ) : Label → Option Bool
  | .turn _ (.came connfd) => if connfd = fd then some false else none
  | .turn _ (.heard sender _) => if sender = fd then none else some true
  | _ => none

/-- Somebody else has said something since the client has come. -/
def addressed (fd : ℤ) (labels : List Label) : Bool := latest (Label.addresses fd) false labels

theorem addressed_concat :
    addressed fd (labels ++ [label]) = (label.addresses fd).getD (addressed fd labels) := by
  rw [addressed, latest_append]
  rfl

/-- `events`, without and with what the others have done to it. -/
def asking : Bool → BitVec 16
  | false => pollin ||| pollrdhup ||| pollerr
  | true => BitVec.allOnes 16

theorem asking_told (b : Bool) : asking b ||| ~~~pollin ||| pollout = asking true := by
  cases b <;> decide

/-- What the clients are polled for. -/
structure Asks (labels : List Label) (members : List PollFd) : Prop where
  events : ∀ entry ∈ members, entry.events = asking (addressed entry.fd labels)
  ready : ∀ entry ∈ members, entry.has pollout → addressed entry.fd labels = true

/-- Nobody is addressed. -/
theorem Asks.silent (h : Asks labels members)
    (hsilent : ∀ entry ∈ members, label.addresses entry.fd = none) :
    Asks (labels ++ [label]) members := by
  constructor
  · intro entry hmem
    rw [addressed_concat, hsilent entry hmem]
    exact h.events entry hmem
  · intro entry hmem hready
    rw [addressed_concat, hsilent entry hmem]
    exact h.ready entry hmem hready

theorem Asks.subset {members' : List PollFd} (h : Asks labels members)
    (hsubset : members' ⊆ members) : Asks labels members' :=
  ⟨fun entry hmem => h.events entry (hsubset hmem),
    fun entry hmem => h.ready entry (hsubset hmem)⟩

theorem mem_reported {members' : List PollFd}
    (reports : List.Forall₂ (fun entry entry' : PollFd =>
      ∃ r, entry.Reports r ∧ entry' = { entry with revents := r }) members members') :
    ∀ entry' ∈ members', ∃ entry ∈ members, ∃ r, entry.Reports r ∧
      entry' = { entry with revents := r } := by
  induction reports with
  | nil => simp
  | cons hentry _ ih =>
    refine List.forall_mem_cons.mpr ⟨⟨_, List.mem_cons_self, hentry⟩, fun entry' hmem => ?_⟩
    obtain ⟨entry, hentry, hreports⟩ := ih entry' hmem
    exact ⟨entry, List.mem_cons_of_mem _ hentry, hreports⟩

/-- `poll` reports `POLLOUT` only of those that have been addressed. -/
theorem Asks.poll {members' : List PollFd} (h : Asks labels members)
    (reports : List.Forall₂ (fun entry entry' : PollFd =>
      ∃ r, entry.Reports r ∧ entry' = { entry with revents := r }) members members') :
    Asks labels members' := by
  constructor
  · intro entry' hmem
    obtain ⟨entry, hentry, r, -, rfl⟩ := mem_reported reports entry' hmem
    exact h.events entry hentry
  · intro entry' hmem hready
    obtain ⟨entry, hentry, r, hreports, rfl⟩ := mem_reported reports entry' hmem
    by_contra hnot
    have hevents := h.events entry hentry
    rw [Bool.not_eq_true] at hnot
    rw [hnot] at hevents
    rw [PollFd.Reports, hevents] at hreports
    exact hready (and_eq_zero_of hreports (by decide))

/-- A client is told something. -/
theorem Asks.heard {data : Bytes} (h : Asks labels members) :
    Asks (labels ++ [.turn entry (.heard connfd data)]) (members.map (told connfd)) := by
  constructor
  · intro entry' hmem
    obtain ⟨entry, hentry, rfl⟩ := List.mem_map.mp hmem
    rw [fd_told, addressed_concat, Label.addresses]
    by_cases hfd : entry.fd = connfd
    · rw [told, if_pos hfd, if_pos hfd.symm]
      exact h.events entry hentry
    · rw [told, if_neg hfd, if_neg (Ne.symm hfd), h.events entry hentry]
      exact asking_told _
  · intro entry' hmem hready
    obtain ⟨entry, hentry, rfl⟩ := List.mem_map.mp hmem
    rw [fd_told, addressed_concat, Label.addresses]
    by_cases hfd : entry.fd = connfd
    · rw [told, if_pos hfd] at hready
      rw [if_pos hfd.symm]
      exact h.ready entry hentry hready
    · rw [if_neg (Ne.symm hfd)]
      rfl

/-- Those who stay were there, and have other descriptors. -/
theorem Books.leave {before after : List PollFd} (hb : Books sockfd v)
    (place : v.At before entry after) :
    (∀ entry' ∈ before ++ lastFirst after, entry' ∈ v.members) ∧
      ∀ entry' ∈ before ++ lastFirst after, entry'.fd ≠ entry.fd := by
  have hseats := hb.toSeats
  rw [place.members] at hseats
  refine ⟨fun entry' hmem => ?_, fun entry' hmem => ?_⟩
  · rw [List.mem_append, mem_lastFirst] at hmem
    rw [place.members, List.mem_append, List.mem_cons]
    exact hmem.imp_right .inr
  · exact Finset.ne_of_mem_erase ((hseats.gone.mem_iff _).mpr (List.mem_map_of_mem hmem))

/-- Every step keeps what is asked for. -/
theorem Asks.move (h : Asks labels v.members) (hb : Books sockfd v)
    (hm : Move sockfd v label v') : Asks (labels ++ [label]) v'.members := by
  cases hm with
  | poll r members control listens reports => exact (h.poll reports).silent fun _ _ => rfl
  | pollFailed | refused | quiet | blank => exact h.silent fun _ _ => rfl
  | listened deed control nothing =>
    rcases nothing with rfl | rfl | rfl <;> exact h.silent fun _ _ => rfl
  | passed before after entry deed place nothing =>
    rcases nothing with rfl | rfl <;> exact h.silent fun _ _ => rfl
  | came connfd control fresh =>
    have hsilent : ∀ entry ∈ v.members, connfd ≠ entry.fd := by
      rintro entry hmem rfl
      exact fresh ((hb.mem_iff _).mpr (List.mem_map_of_mem hmem))
    have hold : Asks (labels ++ [.turn (listenerEntry sockfd v.listener) (.came connfd)])
        v.members := h.silent fun entry hmem => if_neg (hsilent entry hmem)
    constructor
    · refine List.forall_mem_append.mpr ⟨hold.events, List.forall_mem_singleton.mpr ?_⟩
      rw [addressed_concat, Label.addresses, newcomer, if_pos rfl]
      rfl
    · refine List.forall_mem_append.mpr ⟨hold.ready, List.forall_mem_singleton.mpr ?_⟩
      intro hready
      exact absurd BitVec.zero_and hready
  | sent before after entry sender text place ready =>
    have haddressed := h.ready entry place.mem ready
    have hentry : { entry with events := entry.events ||| ~~~pollout ||| pollin } = entry := by
      have hevents := h.events entry place.mem
      have hall : asking true ||| ~~~pollout ||| pollin = asking true := by decide
      rw [haddressed] at hevents
      rw [hevents, hall, ← hevents]
    change Asks _ (before ++ _ :: after)
    rw [hentry, ← place.members]
    exact h.silent fun _ _ => rfl
  | heard => exact h.heard
  | left before after entry last place | failed before after entry last users place =>
    exact (h.subset fun _ hmem => (hb.leave place).1 _ hmem).silent fun _ _ => rfl

/-! ## 2. What waits for a client -/

/-- The room after one more step. -/
def Room.next (room : Room) : Label → Room
  | .turn _ deed => room.step deed
  | _ => room

theorem after_concat : Room.after (labels ++ [label]) = (Room.after labels).next label := by
  rw [Room.after, List.foldl_append]
  cases label <;> rfl

/-- A letter is in the buffer of its sender. -/
def Letter.Lies (letter : Letter) (users : ℤ → ClientData) : Prop :=
  ∀ text ∈ letter.text, (users letter.sender).buf.text? = some text

/-- The pointers and the buffers hold the room. -/
structure Holds (labels : List Label) (room : Room) (v : View) : Prop where
  pending : ∀ entry ∈ v.members, addressed entry.fd labels = true →
    (v.users entry.fd).writeBuff = (room entry.fd).map Letter.sender
  silent : ∀ entry ∈ v.members, addressed entry.fd labels = false → room entry.fd = none
  lies : ∀ fd, ∀ letter ∈ room fd, letter.Lies v.users
  inTable : ∀ fd, ∀ letter ∈ room fd, 0 ≤ letter.sender ∧ letter.sender < fdLimit
  other : ∀ fd, ∀ letter ∈ room fd, letter.sender ≠ fd

variable {room : Room}

/-- Nothing is said or sent. -/
theorem Holds.silence (h : Holds labels room v) (hnext : room.next label = room)
    (hsilent : ∀ fd, label.addresses fd = none)
    (hmembers : ∀ entry' ∈ v'.members, ∃ entry ∈ v.members, entry.fd = entry'.fd)
    (husers : v'.users = v.users) : Holds (labels ++ [label]) (room.next label) v' := by
  rw [hnext]
  refine ⟨fun entry' hmem haddressed => ?_, fun entry' hmem haddressed => ?_, ?_, h.inTable,
    h.other⟩
  · obtain ⟨entry, hentry, hfd⟩ := hmembers entry' hmem
    rw [addressed_concat, hsilent] at haddressed
    rw [husers, ← hfd]
    exact h.pending entry hentry (hfd ▸ haddressed)
  · obtain ⟨entry, hentry, hfd⟩ := hmembers entry' hmem
    rw [addressed_concat, hsilent] at haddressed
    rw [← hfd]
    exact h.silent entry hentry (hfd ▸ haddressed)
  · rw [husers]
    exact h.lies

/-- The buffer of `fd` is overwritten, and with it what has been said there. -/
theorem Holds.spoil {t : Option Bytes} (h : Holds labels room v)
    (hnext : ∀ client, room.next label client = (room client).map fun letter =>
      if letter.sender = fd then ⟨fd, t⟩ else letter)
    (hsilent : ∀ fd, label.addresses fd = none)
    (hmembers : ∀ entry ∈ v'.members, entry ∈ v.members)
    (hpointer : ∀ entry ∈ v'.members,
      (v'.users entry.fd).writeBuff = (v.users entry.fd).writeBuff)
    (hothers : ∀ fd' ≠ fd, v'.users fd' = v.users fd')
    (htext : ∀ text ∈ t, (v'.users fd).buf.text? = some text) :
    Holds (labels ++ [label]) (room.next label) v' := by
  constructor
  · intro entry hmem haddressed
    rw [addressed_concat, hsilent] at haddressed
    rw [hpointer entry hmem, h.pending entry (hmembers entry hmem) haddressed, hnext,
      Option.map_map]
    congr 1
    funext letter
    change letter.sender = (if letter.sender = fd then _ else letter : Letter).sender
    split
    · assumption
    · rfl
  · intro entry hmem haddressed
    rw [addressed_concat, hsilent] at haddressed
    rw [hnext, h.silent entry (hmembers entry hmem) haddressed]
    rfl
  · intro client letter hletter
    rw [hnext] at hletter
    obtain ⟨old, hold, rfl⟩ := Option.map_eq_some_iff.mp hletter
    split
    · exact htext
    · rename_i hne
      rw [Letter.Lies, hothers _ hne]
      exact h.lies client old hold
  · intro client letter hletter
    rw [hnext] at hletter
    obtain ⟨old, hold, rfl⟩ := Option.map_eq_some_iff.mp hletter
    have hinTable := h.inTable client old hold
    split
    · rename_i heq
      exact heq ▸ hinTable
    · exact hinTable
  · intro client letter hletter
    rw [hnext] at hletter
    obtain ⟨old, hold, rfl⟩ := Option.map_eq_some_iff.mp hletter
    have hother := h.other client old hold
    split
    · rename_i heq
      exact heq ▸ hother
    · exact hother

/-- What is not for this client stays. -/
theorem Holds.taken (fd : ℤ) (h : Holds labels room v)
    (hnext : room.next label = Function.update room fd none)
    (hsilent : ∀ entry ∈ v'.members, entry.fd ≠ fd →
      label.addresses entry.fd = none ∧ ∃ entry' ∈ v.members, entry'.fd = entry.fd)
    (hpointer : ∀ entry ∈ v'.members, entry.fd = fd → addressed fd (labels ++ [label]) = true →
      (v'.users fd).writeBuff = none)
    (hothers : ∀ fd' ≠ fd, v'.users fd' = v.users fd')
    (hbuf : (v'.users fd).buf = (v.users fd).buf) :
    Holds (labels ++ [label]) (room.next label) v' := by
  rw [hnext]
  constructor
  · intro entry hmem haddressed
    by_cases hfd : entry.fd = fd
    · rw [hfd] at haddressed ⊢
      rw [hpointer entry hmem hfd haddressed, Function.update_self]
      rfl
    · obtain ⟨hnone, entry', hmem', hfd'⟩ := hsilent entry hmem hfd
      rw [addressed_concat, hnone] at haddressed
      rw [hothers _ hfd, Function.update_of_ne hfd, ← hfd']
      exact h.pending entry' hmem' (hfd' ▸ haddressed)
  · intro entry hmem haddressed
    by_cases hfd : entry.fd = fd
    · rw [hfd, Function.update_self]
    · obtain ⟨hnone, entry', hmem', hfd'⟩ := hsilent entry hmem hfd
      rw [addressed_concat, hnone] at haddressed
      rw [Function.update_of_ne hfd, ← hfd']
      exact h.silent entry' hmem' (hfd' ▸ haddressed)
  · intro client letter hletter
    have hold : letter ∈ room client := by
      by_cases hclient : client = fd
      · rw [hclient, Function.update_self] at hletter
        cases hletter
      · rwa [Function.update_of_ne hclient] at hletter
    have hlies := h.lies client letter hold
    by_cases hfd : letter.sender = fd
    · rw [Letter.Lies, hfd, hbuf, ← hfd]
      exact hlies
    · rw [Letter.Lies, hothers _ hfd]
      exact hlies
  · intro client letter hletter
    by_cases hclient : client = fd
    · rw [hclient, Function.update_self] at hletter
      cases hletter
    · rw [Function.update_of_ne hclient] at hletter
      exact h.inTable client letter hletter
  · intro client letter hletter
    by_cases hclient : client = fd
    · rw [hclient, Function.update_self] at hletter
      cases hletter
    · rw [Function.update_of_ne hclient] at hletter
      exact h.other client letter hletter

theorem pointed_self : pointed fd members users fd = users fd := if_neg fun hand => hand.1 rfl

theorem buf_pointed {fd' : ℤ} : (pointed fd members users fd').buf = (users fd').buf := by
  rw [pointed]
  split <;> rfl

/-- Somebody says something. -/
theorem Holds.heard {data : Bytes} {i : ℕ} (h : Holds labels room v)
    (hfd : 0 ≤ fd ∧ fd < fdLimit) (le : data.length < bufferSize) :
    Holds (labels ++ [.turn entry (.heard fd data)]) (room.next (.turn entry (.heard fd data)))
      (View.goOn { v with
        users := pointed fd v.members (Function.update v.users fd
          { v.users fd with buf := (Buffer.replicate bufferSize 0).write data })
        members := v.members.map (told fd) } i) := by
  set buf := (Buffer.replicate bufferSize 0).write data with hbuf
  have htext : buf.text? = some (data.takeWhile (· ≠ 0)) := Buffer.text?_write_replicate le
  constructor
  · intro entry' hmem haddressed
    obtain ⟨entry, hentry, rfl⟩ := List.mem_map.mp hmem
    rw [fd_told] at haddressed ⊢
    change (pointed fd v.members _ entry.fd).writeBuff =
      Option.map _ (if entry.fd = fd then _ else _)
    rw [addressed_concat, Label.addresses] at haddressed
    by_cases hfd : entry.fd = fd
    · rw [if_pos hfd.symm] at haddressed
      rw [if_pos hfd, hfd, pointed_self, Function.update_self, ← hfd]
      exact h.pending entry hentry haddressed
    · rw [if_neg hfd, pointed, if_pos ⟨hfd, List.mem_map_of_mem hentry⟩]
      rfl
  · intro entry' hmem haddressed
    obtain ⟨entry, hentry, rfl⟩ := List.mem_map.mp hmem
    rw [fd_told] at haddressed ⊢
    change (if entry.fd = fd then _ else _) = none
    rw [addressed_concat, Label.addresses] at haddressed
    by_cases hfd : entry.fd = fd
    · rw [if_pos hfd.symm] at haddressed
      rw [if_pos hfd]
      exact h.silent entry hentry haddressed
    · rw [if_neg (Ne.symm hfd)] at haddressed
      cases haddressed
  · intro client letter hletter
    change letter ∈ (if client = fd then _ else _ : Option Letter) at hletter
    change ∀ text ∈ letter.text, (pointed fd v.members _ letter.sender).buf.text? = some text
    rw [buf_pointed]
    by_cases hclient : client = fd
    · rw [if_pos hclient] at hletter
      have hother : letter.sender ≠ fd := hclient ▸ h.other client letter hletter
      rw [Function.update_of_ne hother]
      exact h.lies client letter hletter
    · rw [if_neg hclient] at hletter
      cases hletter
      rw [Function.update_self]
      rintro _ ⟨⟩
      exact htext
  · intro client letter hletter
    change letter ∈ (if client = fd then _ else _ : Option Letter) at hletter
    by_cases hclient : client = fd
    · rw [if_pos hclient] at hletter
      exact h.inTable client letter hletter
    · rw [if_neg hclient] at hletter
      cases hletter
      exact hfd
  · intro client letter hletter
    change letter ∈ (if client = fd then _ else _ : Option Letter) at hletter
    by_cases hclient : client = fd
    · rw [if_pos hclient] at hletter
      exact h.other client letter hletter
    · rw [if_neg hclient] at hletter
      cases hletter
      exact Ne.symm hclient

/-- Every step keeps it. -/
theorem Holds.move (h : Holds labels room v) (hb : Books sockfd v) (hm : Move sockfd v label v') :
    Holds (labels ++ [label]) (room.next label) v' := by
  have hsame : ∀ entry ∈ v.members, ∃ entry' ∈ v.members, entry'.fd = entry.fd :=
    fun entry hmem => ⟨entry, hmem, rfl⟩
  cases hm with
  | poll r members control listens reports =>
    refine h.silence rfl (fun _ => rfl) (fun entry hmem => ?_) rfl
    obtain ⟨entry', hmem', -, -, rfl⟩ := mem_reported reports entry hmem
    exact ⟨entry', hmem', rfl⟩
  | pollFailed | refused | quiet => exact h.silence rfl (fun _ => rfl) hsame rfl
  | blank before after entry place =>
    refine h.spoil (t := some []) (fun _ => rfl) (fun _ => rfl) (fun _ hmem => hmem)
      (fun entry' _ => ?_) (fun fd' hfd' => Function.update_of_ne hfd' _ _) ?_
    · by_cases hfd : entry'.fd = entry.fd
      · simp [View.goOn, hfd]
      · simp [View.goOn, hfd]
    · rintro _ ⟨⟩
      simp only [View.goOn, Function.update_self]
      exact Buffer.text?_replicate (by decide)
  | listened deed control nothing =>
    rcases nothing with rfl | rfl | rfl <;> exact h.silence rfl (fun _ => rfl) hsame rfl
  | passed before after entry deed place nothing =>
    rcases nothing with rfl | rfl <;> exact h.silence rfl (fun _ => rfl) hsame rfl
  | came connfd control fresh =>
    refine h.taken connfd rfl (fun entry hmem hne => ?_) (fun _ _ _ haddressed => ?_)
      (fun _ _ => rfl) rfl
    · rcases List.mem_append.mp hmem with hold | hnew
      · exact ⟨if_neg (Ne.symm hne), entry, hold, rfl⟩
      · exact absurd (congrArg PollFd.fd (List.mem_singleton.mp hnew)) hne
    · rw [addressed_concat, Label.addresses, if_pos rfl] at haddressed
      cases haddressed
  | sent before after entry sender text place ready =>
    refine h.taken entry.fd rfl (fun entry' hmem hne => ⟨rfl, ?_⟩) (fun _ _ _ _ => ?_)
      (fun fd' hfd' => Function.update_of_ne hfd' _ _) ?_
    · change entry' ∈ before ++ _ :: after at hmem
      refine ⟨entry', ?_, rfl⟩
      rw [place.members]
      rw [List.mem_append, List.mem_cons] at hmem ⊢
      refine hmem.imp_right fun hmem => hmem.imp_left ?_
      rintro rfl
      exact absurd rfl hne
    · simp [View.goOn]
    · simp [View.goOn]
  | heard before after entry data place ne le =>
    exact h.heard (hb.inTable _ (hb.mem_clients place)) le
  | left before after entry last place =>
    obtain ⟨hmembers, hne⟩ := hb.leave place
    exact h.spoil (t := none) (fun _ => rfl) (fun _ => rfl) hmembers
      (fun entry' hmem => congrArg _ (Function.update_of_ne (hne entry' hmem) _ _))
      (fun fd' hfd' => Function.update_of_ne hfd' _ _) (by simp)
  | failed before after entry last users place last_eq cleared =>
    obtain ⟨hmembers, hne⟩ := hb.leave place
    have hothers : ∀ fd' ≠ entry.fd,
        Function.update users entry.fd (users last.fd) fd' = v.users fd' := by
      intro fd' hfd'
      rw [cleared, Function.update_of_ne hfd', Function.update_of_ne hfd']
    exact h.spoil (t := none) (fun _ => rfl) (fun _ => rfl) hmembers
      (fun entry' hmem => congrArg _ (hothers _ (hne entry' hmem))) hothers (by simp)

/-! ## 3. What is sent -/

/-- What a step sends is the letter, unless it was lost; and where nothing waits, none does. -/
def Delivers (before : List Label) : Label → Prop
  | .turn _ (.sent fd text) =>
    ∃ letter ∈ Room.after before fd, ∀ written ∈ letter.text, text = written
  | .turn _ (.quiet fd) => Room.after before fd = none
  | _ => True

/-- What an entry points to is its letter. -/
theorem Holds.letter_of_pending {before after : List PollFd} {sender : ℤ} (h : Holds labels room v)
    (ha : Asks labels v.members) (place : v.At before entry after) (ready : entry.has pollout)
    (pending : (v.users entry.fd).writeBuff = some sender) :
    ∃ letter ∈ room entry.fd, letter.sender = sender := by
  have hpending := h.pending entry place.mem (ha.ready entry place.mem ready)
  rw [pending] at hpending
  exact Option.map_eq_some_iff.mp hpending.symm

theorem Holds.delivers (h : Holds labels (Room.after labels) v) (ha : Asks labels v.members)
    (hm : Move sockfd v label v') : Delivers labels label := by
  cases hm with
  | poll | pollFailed | refused | blank | came | heard | left | failed => trivial
  | listened deed control nothing => rcases nothing with rfl | rfl | rfl <;> trivial
  | passed before after entry deed place nothing => rcases nothing with rfl | rfl <;> trivial
  | quiet before after entry place ready nothing =>
    have hpending := h.pending entry place.mem (ha.ready entry place.mem ready)
    rw [nothing] at hpending
    exact Option.map_eq_none_iff.mp hpending.symm
  | sent before after entry sender text place ready pending text_eq =>
    obtain ⟨letter, hletter, rfl⟩ := h.letter_of_pending ha place ready pending
    refine ⟨letter, hletter, fun written hwritten => ?_⟩
    exact Option.some.inj (text_eq.symm.trans (h.lies entry.fd letter hletter written hwritten))

/-! ## 4. What is in the buffers -/

/-- The words after one more step. -/
def Words.next (words : Words) : Label → Words
  | .turn _ deed => words.step deed
  | _ => words

theorem words_concat : Words.after (labels ++ [label]) = (Words.after labels).next label := by
  rw [Words.after, List.foldl_append]
  cases label <;> rfl

/-- The words are in the buffers. -/
def Words.Lie (words : Words) (users : ℤ → ClientData) : Prop :=
  ∀ fd, ∀ text ∈ words fd, (users fd).buf.text? = some text

variable {words : Words}

/-- One buffer is overwritten. -/
theorem Words.Lie.update {data : ClientData} {t : Option Bytes} (h : words.Lie users)
    (htext : ∀ text ∈ t, data.buf.text? = some text) :
    Words.Lie (Function.update words fd t) (Function.update users fd data) := by
  intro fd' text hmem
  by_cases hfd : fd' = fd
  · rw [hfd, Function.update_self] at hmem ⊢
    exact htext text hmem
  · rw [Function.update_of_ne hfd] at hmem ⊢
    exact h fd' text hmem

theorem Words.Lie.move (h : words.Lie v.users) (hm : Move sockfd v label v') :
    (words.next label).Lie v'.users := by
  cases hm with
  | poll | pollFailed | refused | quiet | came => exact h
  | listened deed control nothing => rcases nothing with rfl | rfl | rfl <;> exact h
  | passed before after entry deed place nothing => rcases nothing with rfl | rfl <;> exact h
  | sent before after entry sender text place =>
    intro fd text hmem
    have hbuf : (Function.update v.users entry.fd
        { v.users entry.fd with writeBuff := none } fd).buf = (v.users fd).buf := by
      rw [Function.update_apply]
      split
      · rename_i hfd
        rw [hfd]
      · rfl
    exact hbuf ▸ h fd text hmem
  | blank before after entry place =>
    refine h.update ?_
    rintro _ ⟨⟩
    exact Buffer.text?_replicate (by decide)
  | heard before after entry data place ne le =>
    have hupdate : Words.Lie (words.next (.turn entry (.heard entry.fd data)))
        (Function.update v.users entry.fd
          { v.users entry.fd with buf := (Buffer.replicate bufferSize 0).write data }) := by
      refine h.update ?_
      rintro _ ⟨⟩
      exact Buffer.text?_write_replicate le
    intro fd text hmem
    change (pointed entry.fd v.members _ fd).buf.text? = some text
    rw [buf_pointed]
    exact hupdate fd text hmem
  | left before after entry last => exact h.update (h last.fd)
  | failed before after entry last users place last_eq cleared =>
    have hcleared : Words.Lie (Function.update words entry.fd (some [])) users := by
      rw [cleared]
      refine h.update ?_
      rintro _ ⟨⟩
      exact Buffer.text?_replicate (by decide)
    have hwords : words.next (.turn entry (.failed entry.fd last.fd)) =
        Function.update (Function.update words entry.fd (some [])) entry.fd
          (Function.update words entry.fd (some []) last.fd) := by
      rw [Function.update_idem, Function.update_apply]
      rfl
    rw [hwords]
    exact hcleared.update (hcleared last.fd)

/-- What a step sends is what is in the buffer of the one who has said it. -/
def Utters (before : List Label) : Label → Prop
  | .turn _ (.sent fd text) => ∃ letter ∈ Room.after before fd,
    ∀ words ∈ Words.after before letter.sender, text = words
  | _ => True

theorem Holds.utters (h : Holds labels (Room.after labels) v) (ha : Asks labels v.members)
    (hw : (Words.after labels).Lie v.users) (hm : Move sockfd v label v') :
    Utters labels label := by
  cases hm with
  | poll | pollFailed | refused | blank | came | heard | left | failed | quiet => trivial
  | listened deed control nothing => rcases nothing with rfl | rfl | rfl <;> trivial
  | passed before after entry deed place nothing => rcases nothing with rfl | rfl <;> trivial
  | sent before after entry sender text place ready pending text_eq =>
    obtain ⟨letter, hletter, rfl⟩ := h.letter_of_pending ha place ready pending
    refine ⟨letter, hletter, fun words hwords => ?_⟩
    exact Option.some.inj (text_eq.symm.trans (hw letter.sender words hwords))

/-! ## 5. Runs -/

/-- What all runs keep. -/
structure Kept (sockfd : ℤ) (labels : List Label) (v : View) : Prop where
  books : Books sockfd v
  asks : Asks labels v.members
  holds : Holds labels (Room.after labels) v
  words : (Words.after labels).Lie v.users

theorem Kept.move (h : Kept sockfd labels v) (hm : Move sockfd v label v') :
    Kept sockfd (labels ++ [label]) v' where
  books := h.books.move hm
  asks := h.asks.move h.books hm
  holds := after_concat ▸ h.holds.move h.books hm
  words := words_concat ▸ h.words.move hm

theorem kept_start : Kept sockfd [] (View.start users) where
  books := books_start
  asks := ⟨by simp [View.start], by simp [View.start]⟩
  holds := ⟨by simp [View.start], by simp [View.start], nofun, nofun, nofun⟩
  words := nofun

theorem run_kept (hr : Run sockfd users garbage labels w) :
    ∃ v, Shown sockfd w v ∧ Kept sockfd labels v := by
  obtain ⟨v, hpath, hshown⟩ := run_shows hr
  exact ⟨v, hshown, Path.record (fun _ _ _ _ h hm => h.move hm) kept_start hpath⟩

/-- **A client that has been told something is polled for everything, for good.**  Up to then it is
polled for input and errors; the two `|= ~` set all other bits and clear none. -/
theorem asks_of_run (hr : Run sockfd users garbage labels w) :
    ∀ entry ∈ w.server.members, entry.events = asking (addressed entry.fd labels) := by
  obtain ⟨v, ⟨hshows, -⟩, hkept⟩ := run_kept hr
  rw [hshows.members_eq]
  exact hkept.asks.events

/-- The first of two clients says something, and the other one is told. -/
def greeting : List Input := arrival ++ [.poll [0, pollin, 0], nothing,
  speaks [104, 105] (by decide), nothing, .poll [0, 0, pollout], nothing, nothing, nothing]

def greeted : List Label × World := (emptyRoom.plays 3 greeting).get (by decide)

theorem run_greeted : Run 3 noUsers noFds greeted.1 greeted.2 := plays_get _

theorem asks_of_run_greeted : 0xffff = asking (addressed 6 greeted.1) :=
  asks_of_run run_greeted ⟨6, 0xffff, pollout⟩ (by decide)

/-- **The server delivers.**  In every run, what it sends to a client is what another one has said
last, and it sends it once; only what has been said by a client that has left since may have become
something else. -/
theorem run_delivers (hr : Run sockfd users garbage labels w) : Along Delivers labels := by
  obtain ⟨v, hpath, -⟩ := run_shows hr
  exact Path.along (fun _ _ _ _ h hm => ⟨h.holds.delivers h.asks hm, h.move hm⟩) kept_start hpath

theorem run_delivers_greeted : Along Delivers greeted.1 ∧
    .turn ⟨6, 0xffff, pollout⟩ (.sent 6 [104, 105]) ∈ greeted.1 :=
  ⟨run_delivers run_greeted, by decide⟩

/-- **What has become of it**: the words of the client that was last in the table when the sender
left.  That can be the one it is sent to. -/
theorem run_utters (hr : Run sockfd users garbage labels w) : Along Utters labels := by
  obtain ⟨v, hpath, -⟩ := run_shows hr
  exact Path.along (fun _ _ _ _ h hm => ⟨h.holds.utters h.asks h.words hm, h.move hm⟩) kept_start
    hpath

/-- Both say something, and the first leaves before the other is told. -/
def parting : List Input := arrival ++ [.poll [0, pollin, pollin], nothing,
  speaks [104, 105] (by decide), speaks [121, 111] (by decide), .poll [0, pollrdhup, pollout],
  nothing, nothing, nothing]

def parted : List Label × World := (emptyRoom.plays 3 parting).get (by decide)

theorem run_parted : Run 3 noUsers noFds parted.1 parted.2 := plays_get _

/-- The second is told what it has said itself. -/
theorem run_utters_parted : Along Utters parted.1 ∧
    .turn ⟨6, 0xffff, pollin⟩ (.heard 6 [121, 111]) ∈ parted.1 ∧
    .turn ⟨6, 0xffff, pollout⟩ (.sent 6 [121, 111]) ∈ parted.1 :=
  ⟨run_utters run_parted, by decide, by decide⟩

/-! ## 6. It goes on -/

variable {s : State} {before after : List PollFd} {answer : Answer} {i : ℕ}

theorem user_of_inTable (hfd : 0 ≤ fd ∧ fd < fdLimit) : s.user fd = some (s.users fd) := if_pos hfd

theorem setUser_of_inTable {data : ClientData} (hfd : 0 ≤ fd ∧ fd < fdLimit) :
    s.setUser fd data = some { s with users := Function.update s.users fd data } := if_pos hfd

theorem setEntry_of_lt (hi : i < userLimit + 1) :
    s.setEntry i entry = some { s with fds := s.fds.set i entry } := if_pos hi

theorem Books.inTable_of_mem (hb : Books sockfd v) (hmem : entry ∈ v.members) :
    0 ≤ entry.fd ∧ entry.fd < fdLimit :=
  hb.inTable _ ((hb.mem_iff _).mpr (List.mem_map_of_mem hmem))

theorem Books.place_lt (hb : Books sockfd v) (hat : v.At before entry after) :
    before.length + 1 < userLimit + 1 := by
  have hcount := hb.count
  rw [hat.members, List.length_append, List.length_cons] at hcount
  omega

theorem tellFrom_goes_on {a b c : List PollFd} (hcells : s.fds.cells = a ++ b ++ c)
    (hinTable : ∀ entry ∈ b, 0 ≤ entry.fd ∧ entry.fd < fdLimit) :
    ∃ s', State.tellFrom connfd b.length a.length s = some s' := by
  induction b generalizing a s with
  | nil => exact ⟨s, rfl⟩
  | cons entry b ih =>
    obtain ⟨hentry, hinTable⟩ := List.forall_mem_cons.mp hinTable
    have hfound : s.entry a.length = some entry := by
      rw [State.entry, hcells]
      simp
    have hlt : a.length < userLimit + 1 := by
      have hlength := s.fds.length_eq
      rw [hcells] at hlength
      simp only [List.length_append, List.length_cons] at hlength
      omega
    rw [List.length_cons, State.tellFrom, hfound, Option.bind_eq_bind, Option.bind_some]
    by_cases hfd : entry.fd = connfd
    · rw [if_pos hfd]
      have hsplit : s.fds.cells = (a ++ [entry]) ++ b ++ c := by
        rw [hcells]
        simp
      simpa only [List.length_append, List.length_singleton] using ih hsplit hinTable
    · simp only [if_neg hfd, setEntry_of_lt hlt, user_of_inTable hentry,
        setUser_of_inTable hentry, Option.bind_eq_bind, Option.bind_some]
      have hset : (s.fds.set a.length (told connfd entry)).cells =
          (a ++ [told connfd entry]) ++ b ++ c := by
        simp [Buffer.set, hcells]
      rw [told, if_neg hfd] at hset
      simpa only [List.length_append, List.length_singleton] using
        ih (s := { s with
          users := Function.update s.users entry.fd
            { s.users entry.fd with writeBuff := some connfd }
          fds := s.fds.set a.length
            { entry with events := entry.events ||| ~~~pollin ||| pollout } }) hset hinTable

/-- The place of a client can be taken. -/
theorem dropClient_goes_on (h : Shows sockfd s v) (hb : Books sockfd v)
    (hat : v.At before entry after) : ∃ r, s.dropClient (before.length + 1) = some r := by
  have hlast : (entry :: after).getLast (List.cons_ne_nil _ _) ∈ v.members := by
    rw [hat.members]
    exact List.mem_append_right _ (List.getLast_mem _)
  simp only [State.dropClient, h.entry_at hat, h.entry_last hat,
    user_of_inTable (hb.inTable_of_mem hlast), setUser_of_inTable (hb.inTable_of_mem hat.mem),
    setEntry_of_lt (hb.place_lt hat), Option.bind_eq_bind, Option.bind_some]
  exact ⟨_, rfl⟩

/-- Nothing waits for a client of the table whose sender has left. -/
def Room.Whole (room : Room) (members : List PollFd) : Prop :=
  ∀ entry ∈ members, ∀ letter ∈ room entry.fd, letter.text ≠ none

theorem readClient_goes_on {ret : RecvRet (bufferSize - 1)} {again : Bool}
    (h : Shows sockfd s v) (hb : Books sockfd v) (hat : v.At before entry after) :
    ∃ r, s.readClient (before.length + 1) entry.fd ret again = some r := by
  have hinTable := hb.inTable_of_mem hat.mem
  simp only [State.readClient, user_of_inTable hinTable, setUser_of_inTable hinTable,
    Option.bind_eq_bind, Option.bind_some]
  set users := Function.update s.users entry.fd
    { s.users entry.fd with buf := (Buffer.replicate bufferSize 0).write ret.data }
  have hread : Shows sockfd { s with users := users } { v with users := users } :=
    ⟨rfl, h.cells, h.count, h.control⟩
  have hbooks : Books sockfd { v with users := users } := ⟨hb.toSeats, hb.listens, hb.control⟩
  split
  · split
    · exact ⟨_, rfl⟩
    · obtain ⟨⟨last, s'⟩, hdrop⟩ := dropClient_goes_on hread hbooks ⟨hat.members, hat.control⟩
      rw [hdrop]
      exact ⟨_, rfl⟩
  · split
    · exact ⟨_, rfl⟩
    · obtain ⟨unused, hcells⟩ := h.cells
      have hsplit : s.fds.cells = [listenerEntry sockfd v.listener] ++ v.members ++ unused := by
        rw [hcells]
        simp
      obtain ⟨s', htell⟩ : ∃ s', State.tellFrom entry.fd v.members.length 1
          { s with users := users } = some s' :=
        tellFrom_goes_on (a := [listenerEntry sockfd v.listener]) hsplit
          fun _ hmem => hb.inTable_of_mem hmem
      rw [← h.count] at htell
      rw [htell]
      exact ⟨_, rfl⟩

theorem writeClient_goes_on (h : Shows sockfd s v) (hk : Kept sockfd labels v)
    (hwhole : (Room.after labels).Whole v.members) (hat : v.At before entry after)
    (ready : entry.has pollout) :
    ∃ r, s.writeClient (before.length + 1) entry = some r := by
  have hinTable := hk.books.inTable_of_mem hat.mem
  rw [State.writeClient, user_of_inTable hinTable, Option.bind_eq_bind, Option.bind_some, h.users]
  cases hpending : (v.users entry.fd).writeBuff with
  | none => exact ⟨_, rfl⟩
  | some sender =>
    obtain ⟨letter, hletter, rfl⟩ := hk.holds.letter_of_pending hk.asks hat ready hpending
    obtain ⟨text, htext⟩ := Option.ne_none_iff_exists'.mp (hwhole entry hat.mem letter hletter)
    have hbuf := hk.holds.lies entry.fd letter hletter text htext
    simp only [user_of_inTable (hk.holds.inTable entry.fd letter hletter), h.users, hbuf,
      setUser_of_inTable hinTable, setEntry_of_lt (hk.books.place_lt hat),
      Option.bind_eq_bind, Option.bind_some]
    exact ⟨_, rfl⟩

/-- The turn of a client can be taken. -/
theorem turn_goes_on_at (h : Shows sockfd s v) (hk : Kept sockfd labels v)
    (hwhole : (Room.after labels).Whole v.members) (hat : v.At before entry after) :
    ∃ r, s.turn sockfd (before.length + 1) answer = some r := by
  rw [State.turn, h.entry_at hat, Option.bind_eq_bind, Option.bind_some,
    if_neg fun hand => hk.books.fd_ne hat hand.1]
  split
  · exact ⟨_, rfl⟩
  · split
    · obtain ⟨⟨last, s'⟩, hdrop⟩ := dropClient_goes_on h hk.books hat
      rw [hdrop]
      exact ⟨_, rfl⟩
    · split
      · exact readClient_goes_on h hk.books hat
      · split
        · rename_i ready
          exact writeClient_goes_on h hk hwhole hat ready
        · exact ⟨_, rfl⟩

theorem acceptClient_goes_on (hfits : connfd < fdLimit) :
    ∃ r, s.acceptClient 0 connfd = some r := by
  rw [State.acceptClient]
  split
  · exact ⟨_, rfl⟩
  · rename_i hpos
    split
    · exact ⟨_, rfl⟩
    · rename_i hfull
      simp only [user_of_inTable ⟨Int.not_lt.mp hpos, hfits⟩, setEntry_of_lt (show
        s.userCount + 1 < userLimit + 1 by omega), Option.bind_eq_bind, Option.bind_some]
      exact ⟨_, rfl⟩

/-- ...and so can that of the listening socket. -/
theorem turn_goes_on_listener (h : Shows sockfd s v) (hb : Books sockfd v)
    (hfits : answer.connfd < fdLimit) : ∃ r, s.turn sockfd 0 answer = some r := by
  obtain ⟨hrdhup, hout⟩ := hb.listener_has
  rw [State.turn, h.entry_zero, Option.bind_eq_bind, Option.bind_some]
  by_cases hin : (listenerEntry sockfd v.listener).has pollin
  · rw [if_pos ⟨rfl, hin⟩]
    exact acceptClient_goes_on hfits
  · rw [if_neg fun hand => hin hand.2, if_neg hrdhup, if_neg hin, if_neg hout]
    split <;> exact ⟨_, rfl⟩

/-- **The server goes on.**  After any run the next turn stays inside the arrays, and inside the
buffer from which it sends, if the descriptor that `accept` may return has a place in `users` and
nothing waits for a client whose sender has left. -/
theorem turn_goes_on (hr : Run sockfd users garbage labels w)
    (hcontrol : w.server.control = .turn i) (hfits : answer.connfd < fdLimit)
    (hwhole : (Room.after labels).Whole w.server.members) :
    ∃ r, w.server.turn sockfd i answer = some r := by
  obtain ⟨v, ⟨hshows, hbooks, -⟩, hkept⟩ := run_kept hr
  rw [hshows.members_eq] at hwhole
  rw [hshows.control] at hcontrol
  have hle := hbooks.control i hcontrol
  cases i with
  | zero => exact turn_goes_on_listener hshows hbooks hfits
  | succ i =>
    obtain ⟨before, entry, after, rfl, hat⟩ := View.exists_at hcontrol hle
    exact turn_goes_on_at hshows hkept hwhole hat

/-- The first of three clients says something, the others are told, and it leaves; then the second
says something, and the third is about to be told. -/
def telling : List Input := arrival ++ [.poll [pollin, 0, 0], comes 7, nothing, nothing, nothing,
  .poll [0, pollin, 0, 0], nothing, speaks [104, 105] (by decide), nothing, nothing,
  .poll [0, 0, pollout, pollout], nothing, nothing, nothing, nothing,
  .poll [0, pollrdhup, 0, 0], nothing, nothing, nothing, nothing,
  .poll [0, 0, pollin], nothing, nothing, speaks [121, 111] (by decide),
  .poll [0, pollout, 0], nothing]

def aboutToTell : List Label × World := (emptyRoom.plays 3 telling).get (by decide)

theorem run_aboutToTell : Run 3 noUsers noFds aboutToTell.1 aboutToTell.2 := plays_get _

theorem turn_goes_on_telling : ∃ r, aboutToTell.2.server.turn 3 1 ⟨-1, .failed, true⟩ = some r :=
  turn_goes_on run_aboutToTell (by decide) (by decide) (by unfold Room.Whole; decide)

/-- A letter that was left behind: `buf` of the third client, which has said nothing, is what `new`
has given, and has no end. -/
example :
    let room : World :=
      { server := State.start (fun _ => ⟨none, .replicate bufferSize 1⟩) noFds 3 }
    let inputs : List Input := arrival ++ [.poll [pollin, 0, 0], comes 7, nothing, nothing, nothing,
      .poll [0, pollin, 0, 0], nothing, speaks [104, 105] (by decide), nothing, nothing,
      .poll [0, pollrdhup, pollout, 0], nothing, nothing, nothing]
    (room.plays 3 inputs).isSome ∧ (room.plays 3 (inputs ++ [nothing])).isNone := by
  decide

end InternetProgramming.ChatServer
