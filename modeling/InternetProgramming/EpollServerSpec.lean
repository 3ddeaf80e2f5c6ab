/-
# What the two triggers come to

The runs are those of `EpollServer`: peers may connect, send and finish between any two calls.

* `et` overlooks nothing that was sent: when it waits, each connection that it watches either will
  be reported, or everything from its peer has been read (`edge_attends`).  It pays for the end of
  a connection with a second `close` of the same descriptor (`edge_closes`).
* `lt` never asks for bytes that are not there, and closes each descriptor once (`level_closes`).
* Both overlook clients.  One that connects while another one is still to be reported is accepted
  only when a later one connects, which then waits in its place (`waiting_eq`).

`Books` is the invariant behind all of them.
-/
import InternetProgramming.EpollServer

namespace InternetProgramming.EpollServer

open Interaction

variable {trigger : Trigger} {listenfd fd : ℤ} {k k' : Kernel} {w w' : World}
variable {events : List EpollEvent} {event : EpollEvent} {answer : Answer} {call : Call}
variable {label : Label} {labels : List Label} {id : ℕ} {data : Bytes} {control : Control}

/-! ## 1. The kernel -/

@[simp] theorem conns_setConn {c : Conn} {id' : ℕ} :
    (k.setConn id c).conns id' = if id' = id then c else k.conns id' := by
  change Function.update k.conns id c id' = _
  rw [Function.update_apply]

@[simp] theorem fds_setConn {c : Conn} : (k.setConn id c).fds = k.fds := rfl

@[simp] theorem watched_setConn {c : Conn} : (k.setConn id c).watched = k.watched := rfl

/-- **What a step can be**, with the control before and after it. -/
inductive Move (trigger : Trigger) (listenfd : ℤ) (k : Kernel) :
    Control → Label → Kernel → Control → Prop
  | connect (c : Control) : Move trigger listenfd k c (.connect k.listenArmed) k.connect c
  | send (c : Control) (id : ℕ) (data : Bytes) (ne : data ≠ []) :
      Move trigger listenfd k c (.send id data) (k.send id data) c
  | finish (c : Control) (id : ℕ) : Move trigger listenfd k c (.finish id) (k.finish id) c
  | report (events : List EpollEvent) (nodup : (events.map EpollEvent.fd).Nodup)
      (ready : ∀ event ∈ events, k.Reports trigger listenfd event) :
      Move trigger listenfd k .wait (.call .wait (.events events)) (k.report listenfd events)
        (forLoop listenfd events)
  | stop : Move trigger listenfd k .wait (.call .wait .failed) k .stopped
  | accepted (n : ℕ) (rest : List EpollEvent) (waiting : k.accepted < k.arrived)
      (fresh : k.fds n = none) (other : (n : ℤ) ≠ listenfd) :
      Move trigger listenfd k (.accept rest) (.call .accept (.fd n)) (k.accept n) (.addfd n rest)
  | refused (rest : List EpollEvent) :
      Move trigger listenfd k (.accept rest) (.call .accept .failed) k (.addfd (-1) rest)
  | added (fd : ℤ) (id : ℕ) (rest : List EpollEvent) (isOpen : k.fds fd = some id) :
      Move trigger listenfd k (.addfd fd rest) (.call (.addfd fd) .done) (k.watch fd id)
        (forLoop listenfd rest)
  | addFailed (fd : ℤ) (rest : List EpollEvent) :
      Move trigger listenfd k (.addfd fd rest) (.call (.addfd fd) .failed) k
        (forLoop listenfd rest)
  | received (fd : ℤ) (id : ℕ) (data more : Bytes) (rest : List EpollEvent)
      (isOpen : k.fds fd = some id) (ne : data ≠ []) (le : data.length ≤ bufferSize - 1)
      (unread : (k.conns id).unread = data ++ more) :
      Move trigger listenfd k (.recv fd rest) (.call (.recv fd) (.received data))
        (k.take id data more)
        (if trigger = .edge then .recv fd rest else forLoop listenfd rest)
  | ended (fd : ℤ) (id : ℕ) (rest : List EpollEvent) (isOpen : k.fds fd = some id)
      (unread : (k.conns id).unread = []) (fin : (k.conns id).fin = true) :
      Move trigger listenfd k (.recv fd rest) (.call (.recv fd) (.received [])) k
        (.close fd (trigger = .edge) rest)
  | again (fd : ℤ) (id : ℕ) (rest : List EpollEvent) (isOpen : k.fds fd = some id)
      (idle : ¬ (k.conns id).Ready) :
      Move trigger listenfd k (.recv fd rest) (.call (.recv fd) .again) k
        (if trigger = .edge then forLoop listenfd rest else .close fd false rest)
  | recvFailed (fd : ℤ) (rest : List EpollEvent) :
      Move trigger listenfd k (.recv fd rest) (.call (.recv fd) .failed) k (.close fd false rest)
  | closed (fd : ℤ) (loop : Bool) (rest : List EpollEvent) (isOpen : (k.fds fd).isSome) :
      Move trigger listenfd k (.close fd loop rest) (.call (.close fd) .done) (k.drop fd)
        (if loop then .recv fd rest else forLoop listenfd rest)
  | closeFailed (fd : ℤ) (loop : Bool) (rest : List EpollEvent) (isClosed : k.fds fd = none) :
      Move trigger listenfd k (.close fd loop rest) (.call (.close fd) .failed) k
        (if loop then .recv fd rest else forLoop listenfd rest)

theorem step_cases (hs : Step trigger listenfd w label w') :
    Move trigger listenfd w.kernel w.control label w'.kernel w'.control := by
  cases hs with
  | connect => exact .connect _
  | send id data arrived ne isOpen => exact .send _ id data ne
  | finish id arrived => exact .finish _ id
  | call call answer k control calls answers resumes =>
    obtain ⟨kernel, c⟩ := w
    cases c with
    | wait =>
      cases calls
      cases answers with
      | events events ne nodup ready =>
        cases resumes
        exact .report events nodup ready
      | waitFailed =>
        cases resumes
        exact .stop
    | accept rest =>
      cases calls
      cases answers with
      | accepted n waiting fresh other =>
        cases resumes
        exact .accepted n rest waiting fresh other
      | acceptFailed =>
        cases resumes
        exact .refused rest
    | addfd fd rest =>
      cases calls
      cases answers with
      | added _ id isOpen =>
        cases resumes
        exact .added fd id rest isOpen
      | addFailed =>
        cases resumes
        exact .addFailed fd rest
    | recv fd rest =>
      cases calls
      cases answers with
      | received _ id data more isOpen ne le unread =>
        rw [resume, if_neg ne] at resumes
        cases resumes
        exact .received fd id data more rest isOpen ne le unread
      | ended _ id isOpen unread fin =>
        cases resumes
        exact .ended fd id rest isOpen unread fin
      | again _ id isOpen idle =>
        cases resumes
        exact .again fd id rest isOpen idle
      | recvFailed =>
        cases resumes
        exact .recvFailed fd rest
    | close fd loop rest =>
      cases calls
      cases answers with
      | closed _ isOpen =>
        cases resumes
        exact .closed fd loop rest isOpen
      | closeFailed _ isClosed =>
        cases resumes
        exact .closeFailed fd loop rest isClosed
    | stopped => cases calls

/-- A report changes nothing that can be read. -/
theorem ready_report : ((k.report listenfd events).conns id).Ready ↔ (k.conns id).Ready := by
  change Conn.Ready (if _ then _ else _) ↔ _
  split <;> rfl

/-! ## 2. What is left of a round -/

/-- The events that the `for` loop has not come to. -/
def Control.rest : Control → List EpollEvent
  | .accept rest | .addfd _ rest | .recv _ rest | .close _ _ rest => rest
  | .wait | .stopped => []

/-- The connection that is dealt with. -/
def Control.sockfd? : Control → Option ℤ
  | .recv sockfd _ | .close sockfd _ _ => some sockfd
  | _ => none

/-- The events are passed over up to the first that calls for something. -/
inductive Finds (listenfd : ℤ) (events : List EpollEvent) : Control → Prop
  | nothing (other : listenfd ∉ events.map EpollEvent.fd)
      (silent : ∀ event ∈ events, event.readable = false) : Finds listenfd events .wait
  | listen (before rest : List EpollEvent) (event : EpollEvent)
      (split : events = before ++ event :: rest)
      (silent : ∀ event ∈ before, event.readable = false) (fd : event.fd = listenfd) :
      Finds listenfd events (.accept rest)
  | ready (before rest : List EpollEvent) (event : EpollEvent)
      (split : events = before ++ event :: rest) (other : listenfd ∉ before.map EpollEvent.fd)
      (silent : ∀ event ∈ before, event.readable = false) (fd : event.fd ≠ listenfd)
      (readable : event.readable = true) : Finds listenfd events (.recv event.fd rest)

theorem forLoop_finds : Finds listenfd events (forLoop listenfd events) := by
  induction events with
  | nil => exact .nothing (by simp) (by simp)
  | cons event events ih =>
    rw [forLoop]
    by_cases hfd : event.fd = listenfd
    · rw [if_pos hfd]
      exact .listen [] events event rfl (by simp) hfd
    · rw [if_neg hfd]
      by_cases hreadable : event.readable = true
      · rw [if_pos hreadable]
        exact .ready [] events event rfl (by simp) (by simp) hfd hreadable
      · rw [if_neg hreadable]
        have hsilent : event.readable = false := by simpa using hreadable
        generalize forLoop listenfd events = control at ih
        cases ih with
        | nothing other silent =>
          exact .nothing (List.not_mem_cons_of_ne_of_not_mem (Ne.symm hfd) other)
            (List.forall_mem_cons.mpr ⟨hsilent, silent⟩)
        | listen before rest event' split silent fd =>
          exact .listen (event :: before) rest event' (by rw [split]; rfl)
            (List.forall_mem_cons.mpr ⟨hsilent, silent⟩) fd
        | ready before rest event' split other silent fd readable =>
          exact .ready (event :: before) rest event' (by rw [split]; rfl)
            (List.not_mem_cons_of_ne_of_not_mem (Ne.symm hfd) other)
            (List.forall_mem_cons.mpr ⟨hsilent, silent⟩) fd readable

/-- What the events that are left are about. -/
structure Left (listenfd : ℤ) (fds : ℤ → Option ℕ) (events : List EpollEvent) : Prop where
  nodup : (events.map EpollEvent.fd).Nodup
  isOpen : ∀ event ∈ events, event.fd ≠ listenfd → (fds event.fd).isSome

theorem Left.tail {fds : ℤ → Option ℕ} (h : Left listenfd fds (event :: events)) :
    Left listenfd fds events :=
  ⟨(List.nodup_cons.mp h.nodup).2, fun event' hevent =>
    h.isOpen event' (List.mem_cons_of_mem _ hevent)⟩

theorem Left.of_suffix {fds : ℤ → Option ℕ} {before after : List EpollEvent}
    (h : Left listenfd fds (before ++ after)) : Left listenfd fds after := by
  have hnodup := h.nodup
  rw [List.map_append] at hnodup
  exact ⟨hnodup.of_append_right, fun event hevent =>
    h.isOpen event (List.mem_append_right _ hevent)⟩

/-- The control is where it can be. -/
structure Placed (listenfd : ℤ) (fds : ℤ → Option ℕ) (control : Control) : Prop where
  left : Left listenfd fds control.rest
  apart : ∀ fd ∈ control.sockfd?, fd ∉ control.rest.map EpollEvent.fd
  accept : ∀ rest, control = .accept rest → listenfd ∉ rest.map EpollEvent.fd
  loop : ∀ fd loop rest, control = .close fd loop rest → loop = true → (fds fd).isSome

/-- The loop goes on with an open connection. -/
theorem placed_forLoop {fds : ℤ → Option ℕ} (h : Left listenfd fds events) :
    Placed listenfd fds (forLoop listenfd events) ∧
      ∀ fd ∈ (forLoop listenfd events).sockfd?, (fds fd).isSome := by
  have hfinds : Finds listenfd events (forLoop listenfd events) := forLoop_finds
  generalize forLoop listenfd events = control at hfinds
  cases hfinds with
  | nothing other silent => exact ⟨⟨⟨by simp [Control.rest], nofun⟩, nofun, nofun, nofun⟩, nofun⟩
  | listen before rest event split silent fd =>
    rw [split] at h
    have hleft := h.of_suffix
    have hnodup := hleft.nodup
    rw [List.map_cons, List.nodup_cons, fd] at hnodup
    refine ⟨⟨hleft.tail, nofun, ?_, nofun⟩, nofun⟩
    rintro _ ⟨⟩
    exact hnodup.1
  | ready before rest event split other silent fd readable =>
    rw [split] at h
    have hleft := h.of_suffix
    have hnodup := hleft.nodup
    rw [List.map_cons, List.nodup_cons] at hnodup
    refine ⟨⟨hleft.tail, ?_, nofun, nofun⟩, ?_⟩
    · rintro _ ⟨⟩
      exact hnodup.1
    · rintro _ ⟨⟩
      exact hleft.isOpen event List.mem_cons_self fd

/-- Descriptors that stay open are left open. -/
theorem Left.mono {fds fds' : ℤ → Option ℕ} (h : Left listenfd fds events)
    (hfds : ∀ fd ∈ events.map EpollEvent.fd, (fds fd).isSome → (fds' fd).isSome) :
    Left listenfd fds' events :=
  ⟨h.nodup, fun event hevent hne =>
    hfds event.fd (List.mem_map_of_mem hevent) (h.isOpen event hevent hne)⟩

/-- **The books of the world.** -/
structure Books (listenfd : ℤ) (k : Kernel) (c : Control) : Prop where
  accepted : k.accepted ≤ k.arrived
  ids : ∀ fd id, k.fds fd = some id → id < k.accepted
  inj : ∀ fd fd' id, k.fds fd = some id → k.fds fd' = some id → fd = fd'
  listen : k.fds listenfd = none
  watched : ∀ fd ∈ k.watched, (k.fds fd).isSome
  placed : Placed listenfd k.fds c

theorem books_start : Books listenfd {} .wait :=
  ⟨Nat.le_refl 0, nofun, nofun, rfl, nofun, ⟨by simp [Control.rest], nofun⟩, nofun, nofun, nofun⟩

/-- A step that opens and closes nothing. -/
theorem Books.of_placed {c c' : Control} (h : Books listenfd k c)
    (harrived : k.arrived ≤ k'.arrived) (haccepted : k'.accepted = k.accepted)
    (hfds : k'.fds = k.fds) (hwatched : k'.watched = k.watched)
    (hplaced : Placed listenfd k.fds c') : Books listenfd k' c' := by
  refine ⟨haccepted ▸ h.accepted.trans harrived, ?_, ?_, ?_, ?_, ?_⟩
  · rw [hfds, haccepted]
    exact h.ids
  · rw [hfds]
    exact h.inj
  · rw [hfds]
    exact h.listen
  · rw [hfds, hwatched]
    exact h.watched
  · rwa [hfds]

/-- What is reported is open. -/
theorem Books.left_report {c : Control} (h : Books listenfd k c)
    (nodup : (events.map EpollEvent.fd).Nodup)
    (ready : ∀ event ∈ events, k.Reports trigger listenfd event) : Left listenfd k.fds events := by
  refine ⟨nodup, fun event hevent hne => ?_⟩
  have hreports := ready event hevent
  rw [Kernel.Reports, if_neg hne] at hreports
  exact h.watched _ hreports.1

theorem fds_accept {n : ℕ} :
    (k.accept n).fds fd = if fd = n then some k.accepted else k.fds fd :=
  Function.update_apply ..

theorem fds_drop {fd' : ℤ} : (k.drop fd).fds fd' = if fd' = fd then none else k.fds fd' :=
  Function.update_apply ..

/-- Closing a connection leaves the others open. -/
theorem Books.left_drop {loop : Bool} {rest : List EpollEvent}
    (h : Books listenfd k (.close fd loop rest)) : Left listenfd (k.drop fd).fds rest :=
  h.placed.left.mono fun fd' hfd' hisOpen => by
    have hne : fd' ≠ fd := fun e => h.placed.apart fd rfl (e ▸ hfd')
    rwa [fds_drop, if_neg hne]

/-- Every step keeps the books. -/
theorem Books.move {c c' : Control} (h : Books listenfd k c)
    (hm : Move trigger listenfd k c label k' c') : Books listenfd k' c' := by
  have hleft := h.placed.left
  cases hm with
  | connect => exact h.of_placed (Nat.le_succ _) rfl rfl rfl h.placed
  | send => exact h.of_placed (Nat.le_refl _) rfl rfl rfl h.placed
  | finish => exact h.of_placed (Nat.le_refl _) rfl rfl rfl h.placed
  | report events nodup ready =>
    exact h.of_placed (Nat.le_refl _) rfl rfl rfl (placed_forLoop (h.left_report nodup ready)).1
  | stop =>
    exact h.of_placed (Nat.le_refl _) rfl rfl rfl
      ⟨⟨by simp [Control.rest], nofun⟩, nofun, nofun, nofun⟩
  | accepted n rest waiting fresh other =>
    have hisOpen (fd : ℤ) (hfd : (k.fds fd).isSome) : ((k.accept n).fds fd).isSome := by
      rw [fds_accept]
      split
      · rfl
      · exact hfd
    refine ⟨waiting, fun fd id hid => ?_, fun fd fd' id hid hid' => ?_, ?_,
      fun fd hfd => hisOpen fd (h.watched fd hfd),
      ⟨hleft.mono fun fd _ => hisOpen fd, nofun, nofun, nofun⟩⟩
    · change id < k.accepted + 1
      rw [fds_accept] at hid
      split at hid
      · cases hid
        exact Nat.lt_succ_self _
      · exact Nat.lt_succ_of_lt (h.ids fd id hid)
    · rw [fds_accept] at hid hid'
      split at hid <;> split at hid'
      · rename_i hfd hfd'
        rw [hfd, hfd']
      · cases hid
        exact absurd (h.ids fd' _ hid') (Nat.lt_irrefl _)
      · cases hid'
        exact absurd (h.ids fd _ hid) (Nat.lt_irrefl _)
      · exact h.inj fd fd' id hid hid'
    · rw [fds_accept, if_neg (Ne.symm other)]
      exact h.listen
  | refused rest => exact h.of_placed (Nat.le_refl _) rfl rfl rfl ⟨hleft, nofun, nofun, nofun⟩
  | added fd id rest isOpen =>
    refine ⟨h.accepted, h.ids, h.inj, h.listen, fun fd' hfd' => ?_, (placed_forLoop hleft).1⟩
    rcases Finset.mem_insert.mp hfd' with rfl | hfd'
    · change (k.fds fd').isSome
      rw [isOpen]
      rfl
    · exact h.watched fd' hfd'
  | addFailed fd rest => exact h.of_placed (Nat.le_refl _) rfl rfl rfl (placed_forLoop hleft).1
  | received fd id data more rest isOpen ne le unread =>
    refine h.of_placed (Nat.le_refl _) rfl rfl rfl ?_
    split
    · exact h.placed
    · exact (placed_forLoop hleft).1
  | ended fd id rest isOpen unread fin =>
    refine h.of_placed (Nat.le_refl _) rfl rfl rfl ⟨hleft, h.placed.apart, nofun, ?_⟩
    rintro _ _ _ ⟨⟩ -
    rw [isOpen]
    rfl
  | again fd id rest isOpen idle =>
    refine h.of_placed (Nat.le_refl _) rfl rfl rfl ?_
    split
    · exact (placed_forLoop hleft).1
    · exact ⟨hleft, h.placed.apart, nofun, nofun⟩
  | recvFailed fd rest =>
    exact h.of_placed (Nat.le_refl _) rfl rfl rfl ⟨hleft, h.placed.apart, nofun, nofun⟩
  | closed fd loop rest isOpen =>
    have hsome {fd' : ℤ} {id : ℕ} (hid : (k.drop fd).fds fd' = some id) : k.fds fd' = some id := by
      rw [fds_drop] at hid
      split at hid
      · cases hid
      · exact hid
    refine ⟨h.accepted, fun fd' id hid => h.ids fd' id (hsome hid),
      fun fd' fd'' id hid hid' => h.inj fd' fd'' id (hsome hid) (hsome hid'), ?_,
      fun fd' hfd' => ?_, ?_⟩
    · rw [fds_drop]
      split
      · rfl
      · exact h.listen
    · obtain ⟨hne, hfd'⟩ := Finset.mem_erase.mp hfd'
      rw [fds_drop, if_neg hne]
      exact h.watched fd' hfd'
    · split
      · exact ⟨h.left_drop, h.placed.apart, nofun, nofun⟩
      · exact (placed_forLoop h.left_drop).1
  | closeFailed fd loop rest isClosed =>
    refine h.of_placed (Nat.le_refl _) rfl rfl rfl ?_
    split
    · exact ⟨hleft, h.placed.apart, nofun, nofun⟩
    · exact (placed_forLoop hleft).1

/-- Every world of a run keeps the books. -/
theorem books_of_run (hr : Run trigger listenfd labels w) : Books listenfd w.kernel w.control :=
  Path.invariant (I := fun w => Books listenfd w.kernel w.control)
    (fun _ _ _ h hs => h.move (step_cases hs)) books_start hr

/-- A client is accepted with descriptor 5. -/
def acceptLabels : List Label :=
  [.connect false, .call .wait (.events [⟨3, true⟩]), .call .accept (.fd 5),
    .call (.addfd 5) .done]

/-- The world in which it is watched. -/
def oneClient : World where
  kernel := ((({} : Kernel).connect.report 3 [⟨3, true⟩]).accept 5).watch 5 0
  control := .wait

theorem run_oneClient : Run trigger 3 acceptLabels oneClient := by
  have hready : ∀ event ∈ [(⟨3, true⟩ : EpollEvent)],
      Kernel.Reports trigger 3 ({} : Kernel).connect event := by
    rw [List.forall_mem_singleton, Kernel.Reports, if_pos rfl]
    rfl
  exact ⟨_, .connect _,
    _, .call _ _ _ _ _ rfl (.events [⟨3, true⟩] (by decide) (by decide) hready) rfl,
    _, .call _ _ _ _ _ rfl (.accepted 5 (by decide) rfl (by decide)) rfl,
    _, .call _ _ _ _ _ rfl (.added 5 0 rfl) rfl, rfl⟩

/-! ## 3. Nothing that was sent is overlooked -/

/-- The connection will still be read from in this round. -/
def Control.Owes (c : Control) (fd : ℤ) : Prop :=
  c = .stopped ∨ fd ∈ c.sockfd? ∨ ⟨fd, true⟩ ∈ c.rest

section Owes

variable {rest : List EpollEvent} {sockfd : ℤ} {loop : Bool}

@[simp] theorem not_owes_wait : ¬ Control.wait.Owes fd := by
  simp [Control.Owes, Control.sockfd?, Control.rest]

@[simp] theorem owes_accept : (Control.accept rest).Owes fd ↔ ⟨fd, true⟩ ∈ rest := by
  simp [Control.Owes, Control.sockfd?, Control.rest]

@[simp] theorem owes_addfd : (Control.addfd sockfd rest).Owes fd ↔ ⟨fd, true⟩ ∈ rest := by
  simp [Control.Owes, Control.sockfd?, Control.rest]

@[simp] theorem owes_recv :
    (Control.recv sockfd rest).Owes fd ↔ sockfd = fd ∨ ⟨fd, true⟩ ∈ rest := by
  simp [Control.Owes, Control.sockfd?, Control.rest]

@[simp] theorem owes_close :
    (Control.close sockfd loop rest).Owes fd ↔ sockfd = fd ∨ ⟨fd, true⟩ ∈ rest := by
  simp [Control.Owes, Control.sockfd?, Control.rest]

end Owes

theorem owes_forLoop (h : ⟨fd, true⟩ ∈ events) (hne : fd ≠ listenfd) :
    (forLoop listenfd events).Owes fd := by
  have hfinds : Finds listenfd events (forLoop listenfd events) := forLoop_finds
  generalize forLoop listenfd events = control at hfinds
  have hnot {before : List EpollEvent} (silent : ∀ event ∈ before, event.readable = false) :
      (⟨fd, true⟩ : EpollEvent) ∉ before := fun hmem => Bool.noConfusion (silent _ hmem)
  cases hfinds with
  | nothing other silent => exact absurd h (hnot silent)
  | listen before rest event split silent hfd =>
    rw [split, List.mem_append, List.mem_cons] at h
    rcases h with hbefore | rfl | hrest
    · exact absurd hbefore (hnot silent)
    · exact absurd hfd hne
    · exact owes_accept.mpr hrest
  | ready before rest event split other silent hfd readable =>
    rw [split, List.mem_append, List.mem_cons] at h
    rcases h with hbefore | rfl | hrest
    · exact absurd hbefore (hnot silent)
    · exact owes_recv.mpr (Or.inl rfl)
    · exact owes_recv.mpr (Or.inr hrest)

/-- What has happened on a connection that is watched will be reported, or is dealt with. -/
def Attends (k : Kernel) (c : Control) : Prop :=
  ∀ fd id, k.fds fd = some id → fd ∈ k.watched → (k.conns id).Ready →
    (k.conns id).armed = true ∨ c.Owes fd

/-- **`et` reads until there is nothing left.** -/
theorem Attends.move {c c' : Control} (h : Attends k c) (hb : Books listenfd k c)
    (hm : Move .edge listenfd k c label k' c') : Attends k' c' := by
  have hnot {fd : ℤ} {id : ℕ} (hid : k.fds fd = some id) : fd ≠ listenfd := fun e => by
    rw [e, hb.listen] at hid
    cases hid
  intro fd' id' hid' hwatched hready
  cases hm with
  | connect => exact h fd' id' hid' hwatched hready
  | send _ id data ne =>
    rw [Kernel.send, conns_setConn] at hready ⊢
    split at hready
    · left
      rw [if_pos ‹_›]
    · rw [if_neg ‹_›]
      exact h fd' id' hid' hwatched hready
  | finish _ id =>
    rw [Kernel.finish, conns_setConn] at hready ⊢
    split at hready
    · left
      rw [if_pos ‹_›]
    · rw [if_neg ‹_›]
      exact h fd' id' hid' hwatched hready
  | report events nodup ready =>
    by_cases hmem : fd' ∈ events.map EpollEvent.fd
    · obtain ⟨⟨_, readable⟩, hevent, rfl⟩ := List.mem_map.mp hmem
      have hreports := ready _ hevent
      rw [Kernel.Reports, if_neg (hnot hid')] at hreports
      obtain ⟨-, id, hid, -, hreadable⟩ := hreports
      obtain rfl : id' = id := Option.some.inj (hid'.symm.trans hid)
      have hready' : (k.conns id').Ready := by
        rw [ready_report] at hready
        exact hready
      obtain rfl : readable = true := hreadable hready'
      exact Or.inr (owes_forLoop hevent (hnot hid'))
    · have hother : ¬ ∃ fd ∈ events.map EpollEvent.fd, k.fds fd = some id' :=
        fun ⟨fd, hfd, hid⟩ => hmem (hb.inj fd fd' id' hid hid' ▸ hfd)
      have hconn : (k.report listenfd events).conns id' = k.conns id' := if_neg hother
      rw [hconn] at hready ⊢
      exact Or.inl ((h fd' id' hid' hwatched hready).resolve_right not_owes_wait)
  | stop => exact Or.inr (Or.inl rfl)
  | accepted n rest waiting fresh other =>
    have hne : fd' ≠ n := fun e => by
      have hisOpen := hb.watched fd' hwatched
      rw [e, fresh] at hisOpen
      cases hisOpen
    have hfds : (k.accept n).fds fd' = k.fds fd' := Function.update_of_ne hne _ _
    rw [hfds] at hid'
    have hold := h fd' id' hid' hwatched hready
    rw [owes_accept] at hold
    exact hold.imp_right owes_addfd.mpr
  | refused rest => simpa using h fd' id' hid' hwatched hready
  | added fd id rest isOpen =>
    by_cases hfd : fd' = fd
    · subst hfd
      obtain rfl : id' = id := Option.some.inj (hid'.symm.trans isOpen)
      left
      have hconn : (k.watch fd' id').conns id' =
          { k.conns id' with armed := decide (k.conns id').Ready } := by
        rw [Kernel.watch]
        exact conns_setConn.trans (if_pos rfl)
      rw [hconn] at hready ⊢
      exact decide_eq_true hready
    · have hid : id' ≠ id := fun e => hfd (hb.inj fd' fd id' hid' (e ▸ isOpen))
      have hconn : (k.watch fd id).conns id' = k.conns id' := conns_setConn.trans (if_neg hid)
      rw [hconn] at hready ⊢
      have hold := h fd' id' hid' ((Finset.mem_insert.mp hwatched).resolve_left hfd) hready
      rw [owes_addfd] at hold
      exact hold.imp_right fun hrest => owes_forLoop hrest (hnot hid')
  | addFailed fd rest =>
    have hold := h fd' id' hid' hwatched hready
    rw [owes_addfd] at hold
    exact hold.imp_right fun hrest => owes_forLoop hrest (hnot hid')
  | received fd id data more rest isOpen ne le unread =>
    rw [if_pos rfl, owes_recv]
    by_cases hfd : fd = fd'
    · exact Or.inr (Or.inl hfd)
    · have hid : id' ≠ id := fun e => hfd (hb.inj fd fd' id isOpen (e ▸ hid'))
      have hconn : (k.take id data more).conns id' = k.conns id' :=
        conns_setConn.trans (if_neg hid)
      rw [hconn] at hready ⊢
      simpa using h fd' id' hid' hwatched hready
  | ended fd id rest isOpen unread fin => simpa using h fd' id' hid' hwatched hready
  | again fd id rest isOpen idle =>
    rw [if_pos rfl]
    by_cases hfd : fd = fd'
    · subst hfd
      obtain rfl : id' = id := Option.some.inj (hid'.symm.trans isOpen)
      exact absurd hready idle
    · have hold := h fd' id' hid' hwatched hready
      rw [owes_recv, or_iff_right hfd] at hold
      exact hold.imp_right fun hrest => owes_forLoop hrest (hnot hid')
  | recvFailed fd rest => simpa using h fd' id' hid' hwatched hready
  | closed fd loop rest isOpen =>
    obtain ⟨hfd, hwatched⟩ := Finset.mem_erase.mp hwatched
    have hfds : (k.drop fd).fds fd' = k.fds fd' := Function.update_of_ne hfd _ _
    rw [hfds] at hid'
    have hold := h fd' id' hid' hwatched hready
    rw [owes_close, or_iff_right (Ne.symm hfd)] at hold
    refine hold.imp_right fun hrest => ?_
    split
    · exact owes_recv.mpr (Or.inr hrest)
    · exact owes_forLoop hrest (hnot hid')
  | closeFailed fd loop rest isClosed =>
    have hfd : fd ≠ fd' := fun e => by
      rw [e, hid'] at isClosed
      cases isClosed
    have hold := h fd' id' hid' hwatched hready
    rw [owes_close, or_iff_right hfd] at hold
    refine hold.imp_right fun hrest => ?_
    split
    · exact owes_recv.mpr (Or.inr hrest)
    · exact owes_forLoop hrest (hnot hid')

/-- What a peer has sent, label by label. -/
def sentBy (id : ℕ) : Label → Bytes
  | .send id' data => if id' = id then data else []
  | _ => []

/-- The stream of a connection: what was read of it, and what was not. -/
def Conn.stream (c : Conn) : Bytes := c.got ++ c.unread

theorem stream_setConn {c : Conn} {id' : ℕ} (hc : c.stream = (k.conns id).stream) :
    ((k.setConn id c).conns id').stream = (k.conns id').stream := by
  rw [conns_setConn]
  split
  · rename_i h
    rw [hc, h]
  · rfl

/-- The kernel loses nothing. -/
theorem stream_move {c c' : Control} (hm : Move trigger listenfd k c label k' c') :
    (k'.conns id).stream = (k.conns id).stream ++ sentBy id label := by
  cases hm with
  | send _ id' data ne =>
    rw [Kernel.send, conns_setConn, sentBy]
    by_cases hid : id = id'
    · subst hid
      rw [if_pos rfl, if_pos rfl]
      exact (List.append_assoc _ _ _).symm
    · rw [if_neg hid, if_neg (Ne.symm hid), List.append_nil]
  | finish _ id' =>
    have hsame : ((k.finish id').conns id).stream = (k.conns id).stream :=
      stream_setConn (c := { k.conns id' with fin := true, armed := true }) rfl
    exact hsame.trans (List.append_nil _).symm
  | report events nodup ready =>
    change Conn.stream (if _ then _ else _) = (k.conns id).stream ++ []
    rw [List.append_nil]
    split <;> rfl
  | added fd id' rest isOpen =>
    have hsame : ((k.watch fd id').conns id).stream = (k.conns id).stream :=
      stream_setConn (c := { k.conns id' with armed := decide (k.conns id').Ready }) rfl
    exact hsame.trans (List.append_nil _).symm
  | received fd id' data more rest isOpen ne le unread =>
    refine (stream_setConn ?_).trans (List.append_nil _).symm
    rw [Conn.stream, Conn.stream, unread, List.append_assoc]
  | _ => exact (List.append_nil _).symm

theorem stream_of_run (hr : Run trigger listenfd labels w) :
    (w.kernel.conns id).stream = labels.flatMap (sentBy id) :=
  Path.collect (fun w : World => (w.kernel.conns id).stream) (sentBy id)
    (fun _ _ _ hs => stream_move (step_cases hs)) hr

/-- **`et` overlooks nothing.**  When the server waits, each connection that it watches will be
reported, unless all that its peer has sent has been read, and there was no end yet. -/
theorem edge_attends (hr : Run .edge listenfd labels w) (hwait : w.control = .wait)
    (hid : w.kernel.fds fd = some id) (hwatched : fd ∈ w.kernel.watched) :
    (w.kernel.conns id).armed = true ∨
      (w.kernel.conns id).got = labels.flatMap (sentBy id) ∧ (w.kernel.conns id).fin = false := by
  have hattends : Attends w.kernel w.control :=
    (Path.invariant (I := fun w => Books listenfd w.kernel w.control ∧ Attends w.kernel w.control)
      (fun _ _ _ h hs => ⟨h.1.move (step_cases hs), h.2.move h.1 (step_cases hs)⟩)
      ⟨books_start, fun _ _ hid => by cases hid⟩ hr).2
  by_cases hready : (w.kernel.conns id).Ready
  · have hold := hattends fd id hid hwatched hready
    rw [hwait] at hold
    exact Or.inl (hold.resolve_right not_owes_wait)
  · obtain ⟨hunread, hfin⟩ := not_or.mp hready
    right
    rw [← stream_of_run hr, Conn.stream, not_not.mp hunread, List.append_nil]
    exact ⟨rfl, by simpa using hfin⟩

/-- The client has sent two bytes, which were read when they had been reported. -/
def hiClient : World where
  kernel := ((oneClient.kernel.send 0 [104, 105]).report 3 [⟨5, true⟩]).take 0 [104, 105] []
  control := .wait

theorem run_hiClient : Run .edge 3 (acceptLabels ++ [.send 0 [104, 105],
    .call .wait (.events [⟨5, true⟩]), .call (.recv 5) (.received [104, 105]),
    .call (.recv 5) .again]) hiClient := by
  have hready : ∀ event ∈ [(⟨5, true⟩ : EpollEvent)],
      Kernel.Reports .edge 3 (oneClient.kernel.send 0 [104, 105]) event := by
    rw [List.forall_mem_singleton, Kernel.Reports, if_neg (by decide)]
    exact ⟨Finset.mem_insert_self _ _, 0, rfl, rfl, fun _ => rfl⟩
  exact run_oneClient.append ⟨_, .send _ 0 [104, 105] (by decide) (by decide) rfl,
    _, .call _ _ _ _ _ rfl (.events [⟨5, true⟩] (by decide) (by decide) hready) rfl,
    _, .call _ _ _ _ _ rfl (.received 5 0 [104, 105] [] rfl (by decide) (by decide) rfl) rfl,
    _, .call _ _ _ _ _ rfl (.again 5 0 rfl (by decide)) rfl, rfl⟩

/-- Nothing more is to be reported of it. -/
theorem edge_attends_hi : (hiClient.kernel.conns 0).armed = false ∧
    (hiClient.kernel.conns 0).got = [104, 105] :=
  ⟨rfl, ((edge_attends run_hiClient rfl rfl (Finset.mem_insert_self _ _)).resolve_left
    (by decide)).1⟩

/-! ## 4. Closing -/

/-- There is something to read behind the descriptor. -/
def Kernel.Sees (k : Kernel) (fd : ℤ) : Prop := ∃ id, k.fds fd = some id ∧ (k.conns id).Ready

theorem Kernel.Sees.mono (h : k.Sees fd) (hfds : k'.fds fd = k.fds fd)
    (hready : ∀ id, k.fds fd = some id → (k.conns id).Ready → (k'.conns id).Ready) :
    k'.Sees fd := by
  obtain ⟨id, hid, hr⟩ := h
  exact ⟨id, hfds.trans hid, hready id hid hr⟩

/-- `lt` reads only where there is something to read, and closes only what is open. -/
structure Sure (listenfd : ℤ) (k : Kernel) (c : Control) : Prop where
  rest : ∀ fd ∈ c.rest.map EpollEvent.fd, fd ≠ listenfd → k.Sees fd
  recv : ∀ fd rest, c = .recv fd rest → k.Sees fd
  close : ∀ fd loop rest, c = .close fd loop rest → loop = false ∧ (k.fds fd).isSome

theorem sure_forLoop (h : ∀ fd ∈ events.map EpollEvent.fd, fd ≠ listenfd → k.Sees fd) :
    Sure listenfd k (forLoop listenfd events) := by
  have hfinds : Finds listenfd events (forLoop listenfd events) := forLoop_finds
  generalize forLoop listenfd events = control at hfinds
  have hrest {before rest : List EpollEvent} {event : EpollEvent}
      (split : events = before ++ event :: rest) :
      ∀ fd ∈ rest.map EpollEvent.fd, fd ≠ listenfd → k.Sees fd := fun fd hfd => by
    refine h fd ?_
    rw [split, List.map_append, List.map_cons]
    exact List.mem_append_right _ (List.mem_cons_of_mem _ hfd)
  cases hfinds with
  | nothing other silent => exact ⟨nofun, nofun, nofun⟩
  | listen before rest event split silent hfd => exact ⟨hrest split, nofun, nofun⟩
  | ready before rest event split other silent hfd readable =>
    refine ⟨hrest split, ?_, nofun⟩
    rintro _ _ ⟨⟩
    refine h event.fd ?_ hfd
    rw [split, List.map_append]
    exact List.mem_append_right _ List.mem_cons_self

theorem Sure.mono (h : Sure listenfd k control)
    (hfds : ∀ fd, (k.fds fd).isSome → k'.fds fd = k.fds fd)
    (hready : ∀ id, (k.conns id).Ready → (k'.conns id).Ready) : Sure listenfd k' control := by
  have hsees {fd : ℤ} (hs : k.Sees fd) : k'.Sees fd := by
    obtain ⟨id, hid, hr⟩ := hs
    exact ⟨id, (hfds fd (hid ▸ rfl)).trans hid, hready id hr⟩
  refine ⟨fun fd hfd hne => hsees (h.rest fd hfd hne), fun fd rest hc => hsees (h.recv fd rest hc),
    fun fd loop rest hc => ?_⟩
  obtain ⟨hloop, hopen⟩ := h.close fd loop rest hc
  exact ⟨hloop, by rwa [hfds fd hopen]⟩

theorem sure_start : Sure listenfd {} .wait := by
  refine ⟨fun fd hfd => ?_, fun fd rest hc => ?_, fun fd loop rest hc => ?_⟩
  · cases hfd
  · cases hc
  · cases hc

theorem Sure.move {c c' : Control} (h : Sure listenfd k c) (hb : Books listenfd k c)
    (hm : Move .level listenfd k c label k' c') :
    (∀ fd, label ≠ .call (.recv fd) .again ∧ label ≠ .call (.close fd) .failed) ∧
      Sure listenfd k' c' := by
  cases hm with
  | connect => exact ⟨fun _ => ⟨nofun, nofun⟩, h.mono (fun _ _ => rfl) fun _ hr => hr⟩
  | send _ id data ne =>
    refine ⟨fun _ => ⟨nofun, nofun⟩, h.mono (fun _ _ => rfl) fun id' hr => ?_⟩
    rw [Kernel.send, conns_setConn]
    split
    · exact Or.inl (by simp [ne])
    · exact hr
  | finish _ id =>
    refine ⟨fun _ => ⟨nofun, nofun⟩, h.mono (fun _ _ => rfl) fun id' hr => ?_⟩
    rw [Kernel.finish, conns_setConn]
    split
    · exact Or.inr rfl
    · exact hr
  | report events nodup ready =>
    refine ⟨fun _ => ⟨nofun, nofun⟩, sure_forLoop fun fd hfd hne => ?_⟩
    obtain ⟨event, hevent, rfl⟩ := List.mem_map.mp hfd
    have hreports := ready event hevent
    rw [Kernel.Reports, if_neg hne] at hreports
    obtain ⟨-, id, hid, hready, -⟩ := hreports
    exact ⟨id, hid, ready_report.mpr hready⟩
  | stop => exact ⟨fun _ => ⟨nofun, nofun⟩, nofun, nofun, nofun⟩
  | accepted n rest waiting fresh other =>
    refine ⟨fun _ => ⟨nofun, nofun⟩, fun fd hfd hne => (h.rest fd hfd hne).mono ?_ fun _ _ hr => hr,
      nofun, nofun⟩
    refine Function.update_of_ne (fun e => ?_) _ _
    obtain ⟨id, hid, -⟩ := h.rest fd hfd hne
    rw [e, fresh] at hid
    cases hid
  | refused rest => exact ⟨fun _ => ⟨nofun, nofun⟩, h.rest, nofun, nofun⟩
  | added fd id rest isOpen =>
    refine ⟨fun _ => ⟨nofun, nofun⟩, sure_forLoop fun fd' hfd' hne =>
      (h.rest fd' hfd' hne).mono rfl fun id' _ hr => ?_⟩
    change ((k.setConn id _).conns id').Ready
    rw [conns_setConn]
    split
    · rename_i hid
      exact hid ▸ hr
    · exact hr
  | addFailed fd rest => exact ⟨fun _ => ⟨nofun, nofun⟩, sure_forLoop h.rest⟩
  | received fd id data more rest isOpen ne le unread =>
    refine ⟨fun _ => ⟨nofun, nofun⟩, sure_forLoop fun fd' hfd' hne =>
      (h.rest fd' hfd' hne).mono rfl fun id' hid' hr => ?_⟩
    have hid : id' ≠ id := fun e => by
      rw [e] at hid'
      exact hb.placed.apart fd rfl (hb.inj fd' fd id hid' isOpen ▸ hfd')
    rwa [Kernel.take, conns_setConn, if_neg hid]
  | ended fd id rest isOpen unread fin =>
    refine ⟨fun _ => ⟨nofun, nofun⟩, h.rest, nofun, ?_⟩
    rintro _ _ _ ⟨⟩
    exact ⟨rfl, isOpen ▸ rfl⟩
  | again fd id rest isOpen idle =>
    obtain ⟨id', hid', hr⟩ := h.recv fd rest rfl
    obtain rfl : id' = id := Option.some.inj (hid'.symm.trans isOpen)
    exact absurd hr idle
  | recvFailed fd rest =>
    obtain ⟨id, hid, -⟩ := h.recv fd rest rfl
    refine ⟨fun _ => ⟨nofun, nofun⟩, h.rest, nofun, ?_⟩
    rintro _ _ _ ⟨⟩
    exact ⟨rfl, hid ▸ rfl⟩
  | closed fd loop rest isOpen =>
    obtain ⟨rfl, -⟩ := h.close fd loop rest rfl
    refine ⟨fun _ => ⟨nofun, nofun⟩, sure_forLoop fun fd' hfd' hne =>
      (h.rest fd' hfd' hne).mono (Function.update_of_ne (fun e => ?_) _ _) fun _ _ hr => hr⟩
    exact hb.placed.apart fd rfl (e ▸ hfd')
  | closeFailed fd loop rest isClosed =>
    obtain ⟨-, hopen⟩ := h.close fd loop rest rfl
    rw [isClosed] at hopen
    cases hopen

/-- **`lt` knows what it reads and closes.**  It never asks for bytes that are not there, so that it
closes a connection only at its end or when reading fails; and it never closes one twice. -/
theorem level_closes (hr : Run .level listenfd labels w) : ∀ label ∈ labels, ∀ fd,
    label ≠ .call (.recv fd) .again ∧ label ≠ .call (.close fd) .failed :=
  Path.forall_mem
    (I := fun w => Books listenfd w.kernel w.control ∧ Sure listenfd w.kernel w.control)
    (fun _ _ _ h hs =>
      have hmove := h.2.move h.1 (step_cases hs)
      ⟨hmove.1, h.1.move (step_cases hs), hmove.2⟩)
    ⟨books_start, sure_start⟩ hr

/-- The end of a connection was read. -/
def Label.isEnd : Label → Bool
  | .call (.recv _) (.received []) => true
  | _ => false

/-- A descriptor was closed that was not open. -/
def Label.isFailedClose : Label → Bool
  | .call (.close _) .failed => true
  | _ => false

/-- A connection whose end was read is still to be closed a second time. -/
def hang (k : Kernel) : Control → ℤ
  | .recv fd _ => if (k.fds fd).isSome then 0 else 1
  | .close fd loop _ => if loop = false ∧ (k.fds fd).isSome then 0 else 1
  | _ => 0

theorem hang_forLoop (hleft : Left listenfd k.fds events) :
    hang k (forLoop listenfd events) = 0 := by
  have hopen := (placed_forLoop hleft).2
  have hfinds : Finds listenfd events (forLoop listenfd events) := forLoop_finds
  generalize forLoop listenfd events = control at hopen hfinds
  cases hfinds with
  | nothing => rfl
  | listen => rfl
  | ready before rest event => exact if_pos (hopen event.fd rfl)

/-- What a label adds to the second closes that are due. -/
def hangGain (label : Label) : ℤ :=
  (if label.isEnd then 1 else 0) - if label.isFailedClose then 1 else 0

/-- The end of a connection makes a second close due, which then fails. -/
theorem hang_move {c c' : Control} (hb : Books listenfd k c)
    (hm : Move .edge listenfd k c label k' c') : hang k' c' = hang k c + hangGain label := by
  have hleft := hb.placed.left
  cases hm with
  | connect => exact (Int.add_zero _).symm
  | send => exact (Int.add_zero _).symm
  | finish => exact (Int.add_zero _).symm
  | report events nodup ready => exact hang_forLoop (hb.left_report nodup ready)
  | stop => rfl
  | accepted n rest waiting fresh other => rfl
  | refused rest => rfl
  | added fd id rest isOpen => exact hang_forLoop hleft
  | addFailed fd rest => exact hang_forLoop hleft
  | received fd id data more rest isOpen ne le unread =>
    have hgain : hangGain (.call (.recv fd) (.received data)) = 0 := by
      cases data with
      | nil => exact absurd rfl ne
      | cons b data => rfl
    rw [if_pos rfl, hgain]
    exact (Int.add_zero _).symm
  | ended fd id rest isOpen unread fin =>
    have hopen : hang k (.recv fd rest) = 0 := if_pos (isOpen ▸ rfl)
    have hdue : hang k (.close fd (Trigger.edge = .edge) rest) = 1 := rfl
    rw [hopen, hdue]
    rfl
  | again fd id rest isOpen idle =>
    have hopen : hang k (.recv fd rest) = 0 := if_pos (isOpen ▸ rfl)
    rw [if_pos rfl, hopen]
    exact hang_forLoop hleft
  | recvFailed fd rest =>
    rw [hang, hang]
    simp [hangGain, Label.isEnd, Label.isFailedClose]
  | closed fd loop rest isOpen =>
    cases loop with
    | true =>
      have hclosed : ¬ ((k.drop fd).fds fd).isSome := by
        rw [fds_drop, if_pos rfl]
        decide
      have hdue : hang k (.close fd true rest) = 1 := rfl
      rw [if_pos rfl, hdue]
      exact if_neg hclosed
    | false =>
      have hdue : hang k (.close fd false rest) = 0 := if_pos ⟨rfl, isOpen⟩
      rw [if_neg (by decide), hdue]
      exact hang_forLoop hb.left_drop
  | closeFailed fd loop rest isClosed =>
    cases loop with
    | true =>
      have hisOpen := hb.placed.loop fd true rest rfl rfl
      rw [isClosed] at hisOpen
      cases hisOpen
    | false =>
      have hdue : hang k (.close fd false rest) = 1 := if_neg (by simp [isClosed])
      rw [if_neg (by decide), hdue]
      exact hang_forLoop hleft

theorem sum_ite {p : Label → Bool} :
    (labels.map fun label => if p label then (1 : ℤ) else 0).sum = labels.countP p := by
  induction labels with
  | nil => rfl
  | cons label labels ih =>
    rw [List.map_cons, List.sum_cons, ih, List.countP_cons]
    split
    · simp
      omega
    · simp

theorem sum_hangGain : (labels.map hangGain).sum =
    labels.countP Label.isEnd - labels.countP Label.isFailedClose := by
  induction labels with
  | nil => rfl
  | cons label labels ih =>
    rw [List.map_cons, List.sum_cons, ih, List.countP_cons, List.countP_cons, hangGain]
    split <;> split <;> simp <;> omega

/-- **`et` closes twice.**  Whenever the server waits, there has been a failed `close` for each
connection whose end it has read. -/
theorem edge_closes (hr : Run .edge listenfd labels w) (hwait : w.control = .wait) :
    labels.countP Label.isFailedClose = labels.countP Label.isEnd := by
  have haccount := Path.account (I := fun w => Books listenfd w.kernel w.control)
    (fun w : World => hang w.kernel w.control) hangGain
    (fun _ _ _ h hs => ⟨hang_move h (step_cases hs), h.move (step_cases hs)⟩) books_start hr
  have hstart : hang ({} : World).kernel ({} : World).control = 0 := rfl
  have hend : hang w.kernel w.control = 0 := by rw [hwait]; rfl
  rw [hstart, hend, sum_hangGain] at haccount
  omega

/-- The client has finished, and this was reported. -/
def goneClient : Kernel := (oneClient.kernel.finish 0).report 3 [⟨5, true⟩]

/-- `et` closes its descriptor twice. -/
def twiceLabels : List Label :=
  acceptLabels ++ [.finish 0, .call .wait (.events [⟨5, true⟩]), .call (.recv 5) (.received []),
    .call (.close 5) .done, .call (.recv 5) .failed, .call (.close 5) .failed]

theorem run_edge_gone : Run .edge 3 twiceLabels ⟨goneClient.drop 5, .wait⟩ := by
  have hready : ∀ event ∈ [(⟨5, true⟩ : EpollEvent)],
      Kernel.Reports .edge 3 (oneClient.kernel.finish 0) event := by
    rw [List.forall_mem_singleton, Kernel.Reports, if_neg (by decide)]
    exact ⟨Finset.mem_insert_self _ _, 0, rfl, rfl, fun _ => rfl⟩
  exact run_oneClient.append ⟨_, .finish _ 0 (by decide),
    _, .call _ _ _ _ _ rfl (.events [⟨5, true⟩] (by decide) (by decide) hready) rfl,
    _, .call _ _ _ _ _ rfl (.ended 5 0 rfl rfl rfl) rfl,
    _, .call _ _ _ _ _ rfl (.closed 5 rfl) rfl,
    _, .call _ _ _ _ _ rfl (.recvFailed 5) rfl,
    _, .call _ _ _ _ _ rfl (.closeFailed 5 rfl) rfl, rfl⟩

theorem edge_closes_gone : twiceLabels.countP Label.isFailedClose = 1 :=
  (edge_closes run_edge_gone rfl).trans (by decide)

/-- `lt` closes it once. -/
def onceLabels : List Label :=
  acceptLabels ++ [.finish 0, .call .wait (.events [⟨5, true⟩]), .call (.recv 5) (.received []),
    .call (.close 5) .done]

theorem run_level_gone : Run .level 3 onceLabels ⟨goneClient.drop 5, .wait⟩ := by
  have hready : ∀ event ∈ [(⟨5, true⟩ : EpollEvent)],
      Kernel.Reports .level 3 (oneClient.kernel.finish 0) event := by
    rw [List.forall_mem_singleton, Kernel.Reports, if_neg (by decide)]
    exact ⟨Finset.mem_insert_self _ _, 0, rfl, Or.inr rfl, fun _ => rfl⟩
  exact run_oneClient.append ⟨_, .finish _ 0 (by decide),
    _, .call _ _ _ _ _ rfl (.events [⟨5, true⟩] (by decide) (by decide) hready) rfl,
    _, .call _ _ _ _ _ rfl (.ended 5 0 rfl rfl rfl) rfl,
    _, .call _ _ _ _ _ rfl (.closed 5 rfl) rfl, rfl⟩

theorem level_closes_gone :
    (.call (.recv 5) .again : Label) ∉ onceLabels ∧ .call (.close 5) .failed ∉ onceLabels :=
  ⟨fun h => (level_closes run_level_gone _ h 5).1 rfl,
    fun h => (level_closes run_level_gone _ h 5).2 rfl⟩

/-! ## 5. Clients that are overlooked -/

/-- A report of `listenfd` is being dealt with. -/
def Control.due (listenfd : ℤ) : Control → Bool
  | .accept _ => true
  | c => decide (listenfd ∈ c.rest.map EpollEvent.fd)

theorem due_forLoop :
    (forLoop listenfd events).due listenfd = decide (listenfd ∈ events.map EpollEvent.fd) := by
  have hfinds : Finds listenfd events (forLoop listenfd events) := forLoop_finds
  generalize forLoop listenfd events = control at hfinds
  cases hfinds with
  | nothing other silent => exact (decide_eq_false other).symm
  | listen before rest event split silent hfd =>
    have hmem : event.fd ∈ events.map EpollEvent.fd := by simp [split]
    exact (decide_eq_true (hfd ▸ hmem)).symm
  | ready before rest event split other silent hfd readable =>
    have hiff : listenfd ∈ events.map EpollEvent.fd ↔ listenfd ∈ rest.map EpollEvent.fd := by
      rw [split, List.map_append, List.map_cons, List.mem_append, List.mem_cons,
        or_iff_right other, or_iff_right (Ne.symm hfd)]
    exact (decide_eq_decide.mpr hiff).symm

/-- One client more will be overlooked. -/
def Label.overlooks : Label → Bool
  | .connect crowded => crowded
  | .call .accept .failed => true
  | _ => false

/-- The clients that wait, without those for which something is still to be done. -/
def overlooked (listenfd : ℤ) (k : Kernel) (c : Control) : ℤ :=
  k.arrived - k.accepted - (if k.listenArmed then 1 else 0) - if c.due listenfd then 1 else 0

theorem overlooked_eq {c c' : Control} (harrived : k'.arrived = k.arrived)
    (haccepted : k'.accepted = k.accepted) (harmed : k'.listenArmed = k.listenArmed)
    (hdue : c'.due listenfd = c.due listenfd) :
    overlooked listenfd k' c' = overlooked listenfd k c + 0 := by
  rw [overlooked, harrived, haccepted, harmed, hdue, Int.add_zero]
  rfl

theorem overlooked_move {c c' : Control} (hb : Books listenfd k c)
    (hm : Move trigger listenfd k c label k' c') :
    overlooked listenfd k' c' = overlooked listenfd k c + if label.overlooks then 1 else 0 := by
  cases hm with
  | connect =>
    have harrived : (k.connect.arrived : ℤ) = k.arrived + 1 := rfl
    have haccepted : k.connect.accepted = k.accepted := rfl
    have harmed : k.connect.listenArmed = true := rfl
    rw [overlooked, overlooked, harrived, haccepted, harmed, if_pos rfl, Label.overlooks]
    omega
  | send => exact overlooked_eq rfl rfl rfl rfl
  | finish => exact overlooked_eq rfl rfl rfl rfl
  | report events nodup ready =>
    have harmed : (k.report listenfd events).listenArmed =
        (k.listenArmed && decide (listenfd ∉ events.map EpollEvent.fd)) := rfl
    have harrived : (k.report listenfd events).arrived = k.arrived := rfl
    have haccepted : (k.report listenfd events).accepted = k.accepted := rfl
    have hdue : Control.wait.due listenfd = false := rfl
    rw [overlooked, overlooked, due_forLoop, harmed, harrived, haccepted, hdue]
    by_cases hmem : listenfd ∈ events.map EpollEvent.fd
    · obtain ⟨event, hevent, hfd⟩ := List.mem_map.mp hmem
      have hlisten := ready event hevent
      rw [Kernel.Reports, if_pos hfd] at hlisten
      simp [hmem, hlisten, Label.overlooks]
    · simp [hmem, Label.overlooks]
  | stop => exact overlooked_eq rfl rfl rfl rfl
  | accepted n rest waiting fresh other =>
    have haccepted : ((k.accept n).accepted : ℤ) = k.accepted + 1 := rfl
    have harrived : (k.accept n).arrived = k.arrived := rfl
    have harmed : (k.accept n).listenArmed = k.listenArmed := rfl
    have hdue : (Control.accept rest).due listenfd = true := rfl
    have hdue' : (Control.addfd n rest).due listenfd = false :=
      decide_eq_false (hb.placed.accept rest rfl)
    rw [overlooked, overlooked, haccepted, harrived, harmed, hdue, hdue']
    simp only [Label.overlooks, if_true, Bool.false_eq_true, if_false]
    omega
  | refused rest =>
    have hdue : (Control.accept rest).due listenfd = true := rfl
    have hdue' : (Control.addfd (-1) rest).due listenfd = false :=
      decide_eq_false (hb.placed.accept rest rfl)
    rw [overlooked, overlooked, hdue, hdue']
    simp only [Label.overlooks, if_true, Bool.false_eq_true, if_false]
    omega
  | added fd id rest isOpen => exact overlooked_eq rfl rfl rfl due_forLoop
  | addFailed fd rest => exact overlooked_eq rfl rfl rfl due_forLoop
  | received fd id data more rest isOpen ne le unread =>
    refine overlooked_eq rfl rfl rfl ?_
    split
    · rfl
    · exact due_forLoop
  | ended => exact overlooked_eq rfl rfl rfl rfl
  | again fd id rest isOpen idle =>
    refine overlooked_eq rfl rfl rfl ?_
    split
    · exact due_forLoop
    · rfl
  | recvFailed => exact overlooked_eq rfl rfl rfl rfl
  | closed fd loop rest isOpen =>
    refine overlooked_eq rfl rfl rfl ?_
    split
    · rfl
    · exact due_forLoop
  | closeFailed fd loop rest isClosed =>
    refine overlooked_eq rfl rfl rfl ?_
    split
    · rfl
    · exact due_forLoop

/-- **Clients are overlooked.**  Whenever the server waits with nothing to be reported of
`listenfd`, as many clients wait as have connected while another one was still to be reported, or
could not be accepted.  Their number never goes down. -/
theorem waiting_eq (hr : Run trigger listenfd labels w) (hwait : w.control = .wait) :
    w.kernel.waiting =
      (if w.kernel.listenArmed then 1 else 0) + labels.countP Label.overlooks := by
  have haccount := Path.account (I := fun w => Books listenfd w.kernel w.control)
    (fun w : World => overlooked listenfd w.kernel w.control)
    (fun label => if label.overlooks then 1 else 0)
    (fun _ _ _ h hs => ⟨overlooked_move h (step_cases hs), h.move (step_cases hs)⟩) books_start hr
  have hstart : overlooked listenfd ({} : World).kernel ({} : World).control = 0 := rfl
  have hbooks := (books_of_run hr).accepted
  have hdue : w.control.due listenfd = false := by rw [hwait]; rfl
  rw [hstart, sum_ite, overlooked, hdue] at haccount
  simp only [Bool.false_eq_true, if_false] at haccount
  rw [Kernel.waiting]
  cases harmed : w.kernel.listenArmed with
  | true =>
    rw [harmed, if_pos rfl] at haccount
    rw [if_pos rfl]
    omega
  | false =>
    rw [harmed, if_neg (by decide)] at haccount
    rw [if_neg (by decide)]
    omega

/-- Two clients connect at once. -/
theorem run_two (trigger : Trigger) : Run trigger 3 [.connect false, .connect true,
    .call .wait (.events [⟨3, true⟩]), .call .accept (.fd 5), .call (.addfd 5) .done]
    ⟨((({} : Kernel).connect.connect.report 3 [⟨3, true⟩]).accept 5).watch 5 0, .wait⟩ := by
  have hready : ∀ event ∈ [(⟨3, true⟩ : EpollEvent)],
      Kernel.Reports trigger 3 ({} : Kernel).connect.connect event := by
    rw [List.forall_mem_singleton, Kernel.Reports, if_pos rfl]
    rfl
  exact ⟨_, .connect _, _, .connect _,
    _, .call _ _ _ _ _ rfl (.events [⟨3, true⟩] (by decide) (by decide) hready) rfl,
    _, .call _ _ _ _ _ rfl (.accepted 5 (by decide) rfl (by decide)) rfl,
    _, .call _ _ _ _ _ rfl (.added 5 0 rfl) rfl, rfl⟩

/-- One of them is left waiting, and nothing is to be reported. -/
theorem waiting_eq_two :
    (((({} : Kernel).connect.connect.report 3 [⟨3, true⟩]).accept 5).watch 5 0).waiting = 1 :=
  (waiting_eq (run_two .edge) rfl).trans (by decide)

end InternetProgramming.EpollServer
