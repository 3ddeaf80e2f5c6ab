/-
# The idle server does what it is for, as long as its timer list can

`Represented w a l`: the world `w` is one in which the sessions are `a`, and `l` are the timers of
their clients.  It has two halves that do not know of each other.  `Linked` is about pointers: they
form a sorted list, and there are no other nodes.  `Books` is about clients: one timer for each of
them, which the table `users` can find, and which says when the client is to be closed.  The order
of the timers is no business of the books (`Books.perm`), so whatever the list operations do to
it, the books need not be proved again.
-/
import InternetProgramming.IdleServer

namespace InternetProgramming.IdleServer

open Interaction TimerList

variable {users users' : ℤ → ClientData} {H : Finset ℤ} {clock now : ℤ}
variable {D : ℤ → Option ℤ} {l l' l₁ l₂ : List (Addr × Timer)} {x : Addr} {fd e : ℤ}
variable {w w' : World} {a : Sessions} {lst : TimerList}

/-! ## 1. The books -/

/-- Each client in `H` has one timer in `l`, which is found in `users` and expires at its
deadline, at most 15 seconds from now. -/
structure Books (users : ℤ → ClientData) (H : Finset ℤ) (clock : ℤ) (D : ℤ → Option ℤ)
    (l : List (Addr × Timer)) : Prop where
  once : (l.map (·.2.userData)).Nodup
  deadline : ∀ fd e, D fd = some e ↔ ∃ x, (x, ⟨e, fd⟩) ∈ l
  clients : ∀ fd, fd ∈ H ↔ ∃ e, D fd = some e
  fds : ∀ fd ∈ H, 0 ≤ fd ∧ fd < fdLimit
  users : ∀ x e fd, (x, ⟨e, fd⟩) ∈ l → (users fd).sockfd = fd ∧ (users fd).timer = some x
  recent : ∀ fd e, D fd = some e → e ≤ clock + 15

theorem books_nil : Books users ∅ clock (fun _ => none) [] where
  once := List.nodup_nil
  deadline := by simp
  clients := by simp
  fds := by simp
  users := by simp
  recent := by simp

theorem Books.perm (h : Books users H clock D l) (hperm : l.Perm l') :
    Books users H clock D l' where
  once := (hperm.map _).nodup_iff.mp h.once
  deadline fd e := by simp only [h.deadline, hperm.mem_iff]
  clients := h.clients
  fds := h.fds
  users x e fd hmem := h.users x e fd (hperm.mem_iff.mpr hmem)
  recent := h.recent

/-- Time passes, and the buffers of the clients change. -/
theorem Books.mono (h : Books users H clock D l) (hclock : clock ≤ now)
    (husers : ∀ fd, (users' fd).sockfd = (users fd).sockfd ∧ (users' fd).timer = (users fd).timer) :
    Books users' H now D l where
  once := h.once
  deadline := h.deadline
  clients := h.clients
  fds := h.fds
  users x e fd hmem := by
    rw [(husers fd).1, (husers fd).2]
    exact h.users x e fd hmem
  recent fd e he := (h.recent fd e he).trans (by omega)

/-- A client is in the list of timers. -/
theorem Books.exists_split (h : Books users H clock D l) (hfd : fd ∈ H) :
    ∃ x e l₁ l₂, l = l₁ ++ (x, ⟨e, fd⟩) :: l₂ := by
  obtain ⟨e, he⟩ := (h.clients fd).mp hfd
  obtain ⟨x, hx⟩ := (h.deadline fd e).mp he
  obtain ⟨l₁, l₂, hsplit⟩ := List.append_of_mem hx
  exact ⟨x, e, l₁, l₂, hsplit⟩

/-- Only clients are. -/
theorem Books.mem_clients (h : Books users H clock D l) (hmem : (x, ⟨e, fd⟩) ∈ l) : fd ∈ H :=
  (h.clients fd).mpr ⟨e, (h.deadline fd e).mpr ⟨x, hmem⟩⟩

/-- A new client. -/
theorem Books.cons (h : Books users H clock D l) (hfd : fd ∉ H) (hlimit : 0 ≤ fd ∧ fd < fdLimit)
    (hclock : clock ≤ now) {data : ClientData} (hsockfd : data.sockfd = fd)
    (htimer : data.timer = some x) :
    Books (Function.update users fd data) (insert fd H) now
      (Function.update D fd (some (now + 15))) ((x, ⟨now + 15, fd⟩) :: l) := by
  have hnot : ∀ y e', (y, ⟨e', fd⟩) ∉ l := fun y e' hmem => hfd (h.mem_clients hmem)
  have hD : ∀ e', D fd ≠ some e' := fun e' he => hfd ((h.clients fd).mpr ⟨e', he⟩)
  refine ⟨?_, fun g e' => ?_, fun g => ?_, fun g hg => ?_, fun y e' g hmem => ?_, fun g e' he => ?_⟩
  · rw [List.map_cons, List.nodup_cons]
    refine ⟨fun hmem => ?_, h.once⟩
    obtain ⟨⟨y, e', g⟩, hin, heq⟩ := List.mem_map.mp hmem
    obtain rfl : g = fd := heq
    exact hnot y e' hin
  · by_cases hg : g = fd
    · subst hg
      simp [hnot, eq_comm]
    · simp [h.deadline, hg]
  · by_cases hg : g = fd
    · subst hg
      simp
    · simp [h.clients, hg]
  · rcases Finset.mem_insert.mp hg with rfl | hg
    · exact hlimit
    · exact h.fds g hg
  · by_cases hg : g = fd
    · subst hg
      have hy : y = x := by
        rcases List.mem_cons.mp hmem with heq | hmem
        · exact congrArg Prod.fst heq
        · exact absurd hmem (hnot y e')
      rw [Function.update_self, hy]
      exact ⟨hsockfd, htimer⟩
    · rw [Function.update_of_ne hg]
      refine h.users y e' g ((List.mem_cons.mp hmem).resolve_left fun heq => hg ?_)
      exact congrArg (fun b : Addr × Timer => b.2.userData) heq
  · by_cases hg : g = fd
    · subst hg
      rw [Function.update_self] at he
      exact (Option.some.inj he).ge
    · rw [Function.update_of_ne hg] at he
      exact (h.recent g e' he).trans (by omega)

/-- A client less. -/
theorem Books.tail (h : Books users H clock D ((x, ⟨e, fd⟩) :: l)) :
    Books users (H.erase fd) clock (Function.update D fd none) l := by
  obtain ⟨hnot, honce⟩ := List.nodup_cons.mp h.once
  have hnot' : ∀ y e', (y, ⟨e', fd⟩) ∉ l := fun y e' hmem =>
    hnot (List.mem_map.mpr ⟨_, hmem, rfl⟩)
  refine ⟨honce, fun g e' => ?_, fun g => ?_, fun g hg => h.fds g (Finset.mem_of_mem_erase hg),
    fun y e' g hmem => h.users y e' g (List.mem_cons_of_mem _ hmem), fun g e' he => ?_⟩
  · by_cases hg : g = fd
    · subst hg
      simp [hnot']
    · simp [h.deadline, hg]
  · by_cases hg : g = fd
    · subst hg
      simp
    · simp [h.clients, hg]
  · by_cases hg : g = fd
    · subst hg
      simp at he
    · rw [Function.update_of_ne hg] at he
      exact h.recent g e' he

/-- The clients whose time has come are gone. -/
theorem Books.expire (h : Books users H clock D l) (hsorted : l.Pairwise Sooner)
    (hclock : clock ≤ now) :
    Books users (H \ ((l.takeWhile (·.2.expire ≤ now)).map (·.2.userData)).toFinset) now
      (fun fd => (D fd).filter fun e => now < e) (l.dropWhile (·.2.expire ≤ now)) := by
  have hD : ∀ fd e, (D fd).filter (fun e => now < e) = some e ↔
      ∃ x, (x, ⟨e, fd⟩) ∈ l.dropWhile (·.2.expire ≤ now) := by
    intro fd e
    simp only [mem_dropWhile_expired hsorted, exists_and_right, ← h.deadline,
      Option.filter_eq_some_iff, decide_eq_true_eq]
  refine ⟨?_, hD, fun fd => ?_, fun fd hfd => h.fds fd (Finset.mem_sdiff.mp hfd).1,
    fun x e fd hmem => h.users x e fd ((mem_dropWhile_expired hsorted).mp hmem).1,
    fun fd e he => ?_⟩
  · exact h.once.sublist ((List.dropWhile_sublist _).map _)
  · rw [Finset.mem_sdiff, List.mem_toFinset, h.clients]
    constructor
    · rintro ⟨⟨e, he⟩, hnot⟩
      obtain ⟨x, hx⟩ := (h.deadline fd e).mp he
      refine ⟨e, Option.filter_eq_some_iff.mpr ⟨he, decide_eq_true ?_⟩⟩
      by_contra hle
      exact hnot (List.mem_map.mpr
        ⟨_, (mem_takeWhile_expired hsorted).mpr ⟨hx, Int.not_lt.mp hle⟩, rfl⟩)
    · rintro ⟨e, he⟩
      obtain ⟨he, hlt⟩ := Option.filter_eq_some_iff.mp he
      refine ⟨⟨e, he⟩, fun hmem => ?_⟩
      obtain ⟨⟨y, e', g⟩, hin, heq⟩ := List.mem_map.mp hmem
      obtain rfl : g = fd := heq
      obtain ⟨hin, hle⟩ := (mem_takeWhile_expired hsorted).mp hin
      obtain rfl := Option.some.inj (((h.deadline g e').mpr ⟨y, hin⟩).symm.trans he)
      exact absurd (of_decide_eq_true hlt) (Int.not_lt.mpr hle)
  · exact (h.recent fd e (Option.filter_eq_some_iff.mp he).1).trans (by omega)

/-- There are no more timers than descriptors. -/
theorem Books.length_le (h : Books users H clock D l) : l.length < loopFuel := by
  have hsub : (l.map (·.2.userData)).toFinset ⊆ Finset.Ico 0 fdLimit := by
    intro fd hfd
    obtain ⟨⟨x, e, g⟩, hmem, heq⟩ := List.mem_map.mp (List.mem_toFinset.mp hfd)
    obtain rfl : g = fd := heq
    exact Finset.mem_Ico.mpr (h.fds g (h.mem_clients hmem))
  have hcard := Finset.card_le_card hsub
  rw [List.toFinset_card_of_nodup h.once, List.length_map, Int.card_Ico] at hcard
  have hlimit : (fdLimit - 0).toNat = 65535 := rfl
  rw [hlimit] at hcard
  unfold loopFuel
  omega

/-! ## 2. The pointers -/

/-- The pointers are a sorted list, and there are no other nodes. -/
structure Linked (lst : TimerList) (l : List (Addr × Timer)) : Prop where
  links : lst.Represents l
  sorted : l.Pairwise Sooner
  noLeak : ∀ x, (lst.heap x).isSome ↔ x ∈ addrs l

/-- An operation that sorts the nodes there are. -/
theorem linked_of_sorts {r : Except Fault TimerList} (h : Sorts lst r l)
    (hnodes : ∀ x, (lst.heap x).isSome ↔ x ∈ addrs l) :
    ∃ lst' l', r = .ok lst' ∧ Linked lst' l' ∧ l.Perm l' := by
  obtain ⟨lst', l', hr, hsame, hrep, hperm, hsorted⟩ := h
  refine ⟨lst', l', hr, ⟨hrep, hsorted, fun x => ?_⟩, hperm.symm⟩
  rw [hsame x, hnodes x]
  exact (hperm.symm.map Prod.fst).mem_iff

/-- `del_timer` and `tick`: nodes are taken off the list and freed. -/
theorem Linked.free (h : Linked lst l) {lst' : TimerList} {xs : List Addr}
    (hrep : lst'.Represents l') (hfree : Frees xs lst lst') (hsub : l'.Sublist l)
    (hxs : ∀ x, x ∈ addrs l' ↔ x ∈ addrs l ∧ x ∉ xs) : Linked lst' l' where
  links := hrep
  sorted := h.sorted.sublist hsub
  noLeak x := by rw [hfree x, h.noLeak x, hxs x]

/-! ## 3. What the server does -/

variable {s : IdleServer} {ret : RecvRet 1023} {again : Bool} {cur : ℤ}

theorem user_of_lt (h : 0 ≤ fd ∧ fd < fdLimit) : s.user fd = .ok (s.users fd) := if_pos h

theorem setUser_of_lt (h : 0 ≤ fd ∧ fd < fdLimit) {data : ClientData} :
    s.setUser fd data = .ok { s with users := Function.update s.users fd data } := if_pos h

/-- The calls that end clients. -/
def closes (fds : List ℤ) : List Effect := fds.flatMap fun fd => [.epollDel fd, .close fd]

theorem cbFunc_eq (h : 0 ≤ fd ∧ fd < fdLimit) (hsockfd : (s.users fd).sockfd = fd) :
    s.cbFunc fd = .ok (closes [fd]) := by
  rw [cbFunc, bind_ok (user_of_lt h), hsockfd]
  rfl

/-- Accepting a client whose timer the list can take. -/
theorem acceptClient_ok (h : Linked s.timerLst l) (hlimit : 0 ≤ fd ∧ fd < fdLimit)
    (hfresh : s.timerLst.heap x = none) (hlen : l.length < loopFuel)
    (hplace : Placeable ⟨now + 15, fd⟩ l) :
    ∃ lst' l', s.acceptClient loopFuel fd x now = .ok ([.epollAdd fd], { s with
        users := Function.update s.users fd { s.users fd with sockfd := fd, timer := some x }
        timerLst := lst' }) ∧
      Linked lst' l' ∧ ((x, ⟨now + 15, fd⟩) :: l).Perm l' := by
  have hnew : x ∉ addrs l := fun hmem => by
    have hsome := (h.noLeak x).mpr hmem
    rw [hfresh] at hsome
    cases hsome
  have hnodes : ∀ y, ((s.timerLst.alloc x ⟨now + 15, fd⟩).heap y).isSome ↔
      y ∈ addrs ((x, ⟨now + 15, fd⟩) :: l) := by
    intro y
    by_cases hy : y = x
    · subst hy
      simp [alloc]
    · simp [alloc, Store.put_of_ne hy, h.noLeak, hy]
  obtain ⟨lst', l', hrun, hlinked, hperm⟩ := linked_of_sorts
    (sorts_addTimer (h.links.alloc hnew) h.sorted Store.put_self hnew hlen.le hplace) hnodes
  refine ⟨lst', l', ?_, hlinked, hperm⟩
  rw [acceptClient, bind_ok (user_of_lt hlimit), bind_ok (setUser_of_lt hlimit)]
  exact bind_ok hrun

/-- Ending a client. -/
theorem dropClient_ok (h : Linked s.timerLst (l₁ ++ (x, ⟨e, fd⟩) :: l₂))
    (hlimit : 0 ≤ fd ∧ fd < fdLimit) (hsockfd : (s.users fd).sockfd = fd) :
    ∃ lst', s.dropClient fd (some x) = .ok (closes [fd], { s with timerLst := lst' }) ∧
      Linked lst' (l₁ ++ l₂) := by
  obtain ⟨lst', hrun, hrep, hfree⟩ := represents_delTimer h.links
  have hnodup := (List.perm_middle.map Prod.fst).nodup_iff.mp h.links.list.nodup
  have hnot : x ∉ addrs (l₁ ++ l₂) := (List.nodup_cons.mp hnodup).1
  refine ⟨lst', ?_, h.free hrep hfree (by simp) fun y => ?_⟩
  · rw [dropClient, bind_ok (cbFunc_eq hlimit hsockfd), if_pos (by simp), bind_ok hrun]
    rfl
  · by_cases hy : y = x
    · subst hy
      simpa using hnot
    · simp [hy]

/-- Setting the timer of a client anew. -/
theorem refreshClient_ok (h : Linked s.timerLst (l₁ ++ (x, ⟨e, fd⟩) :: l₂))
    (hrecent : ∀ b ∈ l₁, b.2.expire ≤ cur + 15) (hlen : l₂.length ≤ loopFuel)
    (hadj : Adjustable ⟨cur + 15, fd⟩ l₁ l₂) :
    ∃ lst' l', s.refreshClient (some x) cur = .ok ([], { s with timerLst := lst' }) ∧
      Linked lst' l' ∧ (l₁ ++ (x, ⟨cur + 15, fd⟩) :: l₂).Perm l' := by
  obtain ⟨lst₁, hset, hrep₁, hsame⟩ := represents_setExpire h.links (cur + 15)
  have hsorted : (l₁ ++ l₂).Pairwise Sooner := h.sorted.sublist (by simp)
  have hnodes : ∀ y, (lst₁.heap y).isSome ↔ y ∈ addrs (l₁ ++ (x, ⟨cur + 15, fd⟩) :: l₂) := by
    intro y
    rw [hsame y, h.noLeak y]
    simp
  obtain ⟨lst', l', hrun, hlinked, hperm⟩ := linked_of_sorts
    (sorts_adjustTimer hrep₁ hsorted hrecent hlen hadj) hnodes
  refine ⟨lst', l', ?_, hlinked, hperm⟩
  rw [refreshClient, if_pos (by simp)]
  exact (bind_ok hset).trans (bind_ok hrun)

/-- What is done about the answer of `recv`, behind the output. -/
theorem receiveData_eq (again : Bool) (cur : ℤ) (hlimit : 0 ≤ fd ∧ fd < fdLimit) {data : ClientData}
    (hdata : data = { s.users fd with buf := (Buffer.replicate 1024 0).write ret.data }) :
    s.receiveData fd ret again cur =
      (do
        let s₁ := { s with users := Function.update s.users fd data }
        let (effects, s₂) ←
          if ret.ret < 0 then
            if again then pure ([], s₁) else s₁.dropClient fd data.timer
          else if ret.ret = 0 then
            s₁.dropClient fd data.timer
          else
            s₁.refreshClient data.timer cur
        pure (.got ret.ret (ret.data.takeWhile (· ≠ 0)) fd :: effects, s₂)) := by
  subst hdata
  have hlen : ret.data.length < 1024 := by
    cases ret with
    | received data le => exact Nat.lt_succ_of_le le
    | failed => decide
  rw [receiveData, bind_ok (user_of_lt hlimit), bind_ok (setUser_of_lt hlimit)]
  simp only [Buffer.text?_write_replicate hlen]
  rfl

/-! ## 4. One step -/

/-- The world is one in which the sessions are `a`, with the timers `l`. -/
structure Represented (w : World) (a : Sessions) (l : List (Addr × Timer)) : Prop where
  linked : Linked w.server.timerLst l
  books : Books w.server.users w.clients w.clock a.deadline l
  timeout : w.server.timeout = a.timeout

/-- The server does what the sessions `a` say. -/
def Refines (w : World) (a : Sessions) : Prop := ∃ l, Represented w a l

theorem refines_start : Refines (.start users clock) {} :=
  ⟨[], ⟨represents_empty, .nil, by simp [World.start]⟩, books_nil, rfl⟩

theorem Represented.timers_eq (h : Represented w a l) : w.server.timers = l := by
  rw [timers, h.linked.links.head]
  exact h.linked.links.list.seg.follow_eq h.books.length_le.le

/-- The timers in front of that of a client, and those behind it. -/
theorem Represented.split_eq (h : Represented w a (l₁ ++ (x, ⟨e, fd⟩) :: l₂)) :
    w.server.timers.takeWhile (·.2.userData ≠ fd) = l₁ ∧
      (w.server.timers.dropWhile (·.2.userData ≠ fd)).tail = l₂ := by
  have honce := h.books.once
  rw [List.map_append, List.map_cons, List.nodup_append] at honce
  have hne : ∀ b ∈ l₁, decide (b.2.userData ≠ fd) = true := fun b hb =>
    decide_eq_true (honce.2.2 _ (List.mem_map_of_mem hb) fd (by simp))
  rw [h.timers_eq, List.takeWhile_append_of_pos hne, List.dropWhile_append_of_pos hne]
  simp

/-- Closing clients. -/
theorem heldFrom_closes {fds : List ℤ} :
    heldFrom H ((closes fds).map Effect.act) = H \ fds.toFinset := by
  induction fds generalizing H with
  | nil => simp [closes]
  | cons fd fds ih =>
    change heldFrom (H.erase fd) ((closes fds).map Effect.act) = _
    rw [ih]
    ext g
    simp only [Finset.mem_sdiff, Finset.mem_erase, List.mem_toFinset, List.mem_cons]
    tauto

theorem ownedFrom_closes {fds : List ℤ} (hnodup : fds.Nodup) (hmem : ∀ fd ∈ fds, fd ∈ H) :
    OwnedFrom H ((closes fds).map Effect.act) := by
  induction fds generalizing H with
  | nil => exact along_nil
  | cons fd fds ih =>
    obtain ⟨hnot, hnodup⟩ := List.nodup_cons.mp hnodup
    obtain ⟨hfd, hfds⟩ := List.forall_mem_cons.mp hmem
    refine ownedFrom_cons.mpr ⟨nofun, ownedFrom_cons.mpr ⟨?_, ?_⟩⟩
    · rintro _ ⟨⟩
      exact hfd
    · exact ih hnodup fun g hg => Finset.mem_erase.mpr ⟨fun e => hnot (e ▸ hg), hfds g hg⟩

theorem mapM_ok {α β ε : Type} {f : α → Except ε β} {g : α → β} {as : List α}
    (h : ∀ a ∈ as, f a = .ok (g a)) : as.mapM f = .ok (as.map g) := by
  induction as with
  | nil => rfl
  | cons a as ih =>
    obtain ⟨ha, has⟩ := List.forall_mem_cons.mp h
    rw [List.mapM_cons, ha, ih has]
    rfl

/-- The step does what it should, and it closes only clients that are open. -/
def Follows (w : World) (a : Sessions) (i : Input) : Prop :=
  ∃ effects s, w.server.step i = .ok (effects, s) ∧ Refines (w.after i effects s) (a.step i) ∧
    FreshFrom w.clients (effects.map Effect.act) ∧ OwnedFrom w.clients (effects.map Effect.act)

/-- Closing clients opens nothing. -/
theorem freshFrom_closes {fds : List ℤ} : FreshFrom H ((closes fds).map Effect.act) := by
  induction fds generalizing H with
  | nil => exact along_nil
  | cons fd fds ih => exact freshFrom_cons.mpr ⟨nofun, freshFrom_cons.mpr ⟨nofun, ih⟩⟩

theorem follows_accept (h : Represented w a l) (hw : w.Allowed (.accept fd x now))
    (hlimit : 0 ≤ fd ∧ fd < fdLimit) (hsafe : ∀ b ∈ l.head?, b.2.expire < now + 15) :
    Follows w a (.accept fd x now) := by
  obtain ⟨hfd, -, hfresh, hclock⟩ := hw
  have hplace : Placeable ⟨now + 15, fd⟩ l := by
    cases l with
    | nil => trivial
    | cons b l =>
      have hb : b.2.expire < now + 15 := hsafe b rfl
      cases l with
      | nil => exact hb.ne'
      | cons c l => exact hb
  obtain ⟨lst', l', hrun, hlinked, hperm⟩ := acceptClient_ok h.linked hlimit hfresh
    h.books.length_le hplace
  refine ⟨_, _, hrun, ⟨l', hlinked, ?_, h.timeout⟩, freshFrom_cons.mpr ⟨?_, along_nil⟩,
    ownedFrom_cons.mpr ⟨nofun, along_nil⟩⟩
  · exact (h.books.cons hfd hlimit hclock rfl rfl).perm hperm
  · rintro _ ⟨⟩
    exact hfd

theorem follows_signals (h : Represented w a l) (sigs : Bytes) : Follows w a (.signals sigs) := by
  refine ⟨[], w.server.handleSignals sigs, rfl, ⟨l, h.linked, h.books, ?_⟩, along_nil, along_nil⟩
  exact congrArg (· || sigs.contains sigalrm) h.timeout

theorem follows_receive (h : Represented w a (l₁ ++ (x, ⟨e, fd⟩) :: l₂)) (hclock : w.clock ≤ cur)
    (hadj : 0 < ret.ret → Adjustable ⟨cur + 15, fd⟩ l₁ l₂) :
    Follows w a (.receive fd ret again cur) := by
  have hmem : fd ∈ w.clients := h.books.mem_clients (x := x) (e := e) (by simp)
  have hlimit := h.books.fds fd hmem
  obtain ⟨hsockfd, htimer⟩ := h.books.users x e fd (by simp)
  generalize hdata : { w.server.users fd with
    buf := (Buffer.replicate 1024 0).write ret.data } = data
  have hdsockfd : data.sockfd = fd := by rw [← hdata]; exact hsockfd
  have hdtimer : data.timer = some x := by rw [← hdata]; exact htimer
  have husers : ∀ g, (Function.update w.server.users fd data g).sockfd =
      (w.server.users g).sockfd ∧
      (Function.update w.server.users fd data g).timer = (w.server.users g).timer := by
    intro g
    by_cases hg : g = fd
    · rw [hg, Function.update_self, hdsockfd, hdtimer, hsockfd, htimer]
      exact ⟨rfl, rfl⟩
    · rw [Function.update_of_ne hg]
      exact ⟨rfl, rfl⟩
  have hbooks := h.books.mono hclock husers
  have hstep := receiveData_eq again cur hlimit hdata.symm
  by_cases hpos : 0 < ret.ret
  · -- the timer is set anew
    have hrecent : ∀ b ∈ l₁, b.2.expire ≤ cur + 15 := fun b hb =>
      (h.books.recent b.2.userData b.2.expire ((h.books.deadline _ _).mpr
        ⟨b.1, List.mem_append_left _ hb⟩)).trans (by omega)
    have hlen := h.books.length_le
    rw [List.length_append, List.length_cons] at hlen
    obtain ⟨lst', l', hrun, hlinked, hperm⟩ := refreshClient_ok
      (s := { w.server with users := Function.update w.server.users fd data }) h.linked hrecent
      (by omega) (hadj hpos)
    refine ⟨[.got ret.ret (ret.data.takeWhile (· ≠ 0)) fd], { w.server with
      users := Function.update w.server.users fd data, timerLst := lst' }, ?_,
      ⟨l', hlinked, ?_, ?_⟩, freshFrom_cons.mpr ⟨nofun, along_nil⟩,
      ownedFrom_cons.mpr ⟨nofun, along_nil⟩⟩
    · refine hstep.trans ?_
      rw [hdtimer, if_neg (Int.not_lt.mpr hpos.le), if_neg hpos.ne']
      exact bind_ok hrun
    · have hcons := (h.books.perm List.perm_middle).tail.cons (Finset.notMem_erase _ _) hlimit
        hclock hdsockfd hdtimer
      rw [Finset.insert_erase hmem, Function.update_idem] at hcons
      simp only [Sessions.step, if_pos hpos]
      exact hcons.perm (List.perm_middle.symm.trans hperm)
    · simp only [Sessions.step, if_pos hpos]
      exact h.timeout
  · by_cases hagain : ret.ret < 0 ∧ again
    · -- nothing was there after all
      refine ⟨[.got ret.ret (ret.data.takeWhile (· ≠ 0)) fd], { w.server with
        users := Function.update w.server.users fd data }, ?_,
        ⟨_, h.linked, ?_, ?_⟩, freshFrom_cons.mpr ⟨nofun, along_nil⟩,
        ownedFrom_cons.mpr ⟨nofun, along_nil⟩⟩
      · refine hstep.trans ?_
        rw [if_pos hagain.1, if_pos hagain.2]
        rfl
      · simp only [Sessions.step, if_neg hpos, if_pos hagain]
        exact hbooks
      · simp only [Sessions.step, if_neg hpos, if_pos hagain]
        exact h.timeout
    · -- the client is gone
      have hself : (Function.update w.server.users fd data fd).sockfd = fd := by
        rw [Function.update_self, hdsockfd]
      obtain ⟨lst', hrun, hlinked⟩ := dropClient_ok
        (s := { w.server with users := Function.update w.server.users fd data }) h.linked hlimit
        hself
      refine ⟨.got ret.ret (ret.data.takeWhile (· ≠ 0)) fd :: closes [fd], { w.server with
        users := Function.update w.server.users fd data, timerLst := lst' }, ?_,
        ⟨l₁ ++ l₂, hlinked, ?_, ?_⟩, freshFrom_cons.mpr ⟨nofun, freshFrom_closes⟩, ?_⟩
      · refine hstep.trans ?_
        rw [hdtimer]
        split
        · rename_i hneg
          rw [if_neg fun hag => hagain ⟨hneg, hag⟩]
          exact bind_ok hrun
        · rename_i hneg
          rw [if_pos (by omega)]
          exact bind_ok hrun
      · simp only [Sessions.step, if_neg hpos, if_neg hagain]
        exact (hbooks.perm List.perm_middle).tail
      · simp only [Sessions.step, if_neg hpos, if_neg hagain]
        exact h.timeout
      · refine ownedFrom_cons.mpr ⟨nofun, ownedFrom_closes (List.nodup_singleton fd) ?_⟩
        exact List.forall_mem_singleton.mpr hmem

theorem follows_endEvents (h : Represented w a l) (hclock : w.clock ≤ cur) :
    Follows w a (.endEvents cur) := by
  by_cases htimeout : a.timeout
  · obtain ⟨lst', htick, hrep, hfree⟩ := represents_tick cur h.linked.links
      h.books.length_le
    have hexpired : ∀ b ∈ l.takeWhile (·.2.expire ≤ cur), b ∈ l :=
      fun b hb => (List.takeWhile_sublist _).mem hb
    have hin : ∀ fd ∈ (l.takeWhile (·.2.expire ≤ cur)).map (·.2.userData), fd ∈ w.clients := by
      intro fd hfd
      obtain ⟨⟨x, e, g⟩, hmem, heq⟩ := List.mem_map.mp hfd
      obtain rfl : g = fd := heq
      exact h.books.mem_clients (hexpired _ hmem)
    have hcalls : ((l.takeWhile (·.2.expire ≤ cur)).map (·.2.userData)).mapM w.server.cbFunc =
        .ok (((l.takeWhile (·.2.expire ≤ cur)).map (·.2.userData)).map fun fd => closes [fd]) := by
      refine mapM_ok fun fd hfd => ?_
      obtain ⟨⟨x, e, g⟩, hmem, heq⟩ := List.mem_map.mp hfd
      obtain rfl : g = fd := heq
      exact cbFunc_eq (h.books.fds g (hin g hfd)) (h.books.users x e g (hexpired _ hmem)).1
    have hflat : ∀ fds : List ℤ, (fds.map fun fd => closes [fd]).flatten = closes fds :=
      fun fds => by simp [closes, List.flatMap_def]
    refine ⟨closes ((l.takeWhile (·.2.expire ≤ cur)).map (·.2.userData)) ++ [.alarm timeslot],
      { w.server with timerLst := lst', timeout := false }, ?_,
      ⟨l.dropWhile (·.2.expire ≤ cur), ?_, ?_, ?_⟩, ?_, ?_⟩
    · rw [step, if_pos (h.timeout.trans htimeout), timerHandler, htick]
      change ((_ >>= _) >>= _) = _
      rw [hcalls]
      change Except.ok (_ ++ _, _) = _
      rw [hflat]
    · have hnodup := h.linked.links.list.nodup
      have hsplit : addrs l = addrs (l.takeWhile (·.2.expire ≤ cur)) ++
          addrs (l.dropWhile (·.2.expire ≤ cur)) := by
        rw [← addrs_append, List.takeWhile_append_dropWhile]
      refine h.linked.free hrep hfree (List.dropWhile_sublist _) fun x => ?_
      rw [hsplit, List.nodup_append] at hnodup
      rw [hsplit, List.mem_append]
      constructor
      · exact fun hx => ⟨.inr hx, fun hx' => hnodup.2.2 x hx' x hx rfl⟩
      · exact fun ⟨hx, hnot⟩ => hx.resolve_left hnot
    · have hbooks := h.books.expire h.linked.sorted hclock
      rw [← heldFrom_closes] at hbooks
      simp only [Sessions.step, if_pos htimeout, World.after, List.map_append, heldFrom_append]
      exact hbooks
    · simp only [Sessions.step, if_pos htimeout]
      rfl
    · rw [List.map_append]
      exact freshFrom_append.mpr ⟨freshFrom_closes, freshFrom_cons.mpr ⟨nofun, along_nil⟩⟩
    · rw [List.map_append]
      refine ownedFrom_append.mpr
        ⟨ownedFrom_closes ?_ hin, ownedFrom_cons.mpr ⟨nofun, along_nil⟩⟩
      exact h.books.once.sublist ((List.takeWhile_sublist _).map _)
  · refine ⟨[], w.server, ?_, ⟨l, h.linked, ?_, ?_⟩, along_nil, along_nil⟩
    · simp only [step, h.timeout, htimeout]
      rfl
    · simp only [Sessions.step, htimeout]
      exact h.books.mono hclock fun _ => ⟨rfl, rfl⟩
    · simp only [Sessions.step, htimeout]
      exact h.timeout

/-- **The step lemma.** -/
theorem follows_of_safe {i : Input} (h : Refines w a) (hw : w.Allowed i)
    (hsafe : Safe w.server i) : Follows w a i := by
  obtain ⟨l, h⟩ := h
  cases i with
  | accept newfd timer now =>
    rw [Safe, h.timers_eq] at hsafe
    exact follows_accept h hw ⟨hsafe.1, hsafe.2.1⟩ hsafe.2.2
  | signals sigs => exact follows_signals h sigs
  | receive sockfd ret again cur =>
    obtain ⟨x, e, l₁, l₂, rfl⟩ := h.books.exists_split hw.1
    rw [Safe, h.split_eq.1, h.split_eq.2] at hsafe
    exact follows_receive h hw.2 hsafe
  | endEvents cur => exact follows_endEvents h hw

/-! ## 5. A step that is not safe -/

/-- A client without a place in `users`, or in the second of all others. -/
theorem unsafe_accept (h : Represented w a l) (hw : w.Allowed (.accept fd x now))
    (hrisky : ¬ Safe w.server (.accept fd x now)) :
    ∃ f, w.server.step (.accept fd x now) = .error f := by
  obtain ⟨hfd, -, hfresh, hclock⟩ := hw
  rw [Safe, h.timers_eq, ← and_assoc] at hrisky
  by_cases hlimit : 0 ≤ fd ∧ fd < fdLimit
  · cases l with
    | nil => exact absurd ⟨hlimit, by simp⟩ hrisky
    | cons b l =>
      have hle : now + 15 ≤ b.2.expire := by
        by_contra hlt
        exact hrisky ⟨hlimit, by simpa using hlt⟩
      have hrecent := h.books.recent b.2.userData b.2.expire
        ((h.books.deadline _ _).mpr ⟨b.1, List.mem_cons_self⟩)
      have heq : now + 15 = b.2.expire := le_antisymm hle (hrecent.trans (by omega))
      have hnew : x ∉ addrs (b :: l) := fun hmem => by
        have hsome := (h.linked.noLeak x).mpr hmem
        rw [hfresh] at hsome
        cases hsome
      have hadd := addTimer_first_equal (h.linked.links.alloc (d := ⟨now + 15, fd⟩) hnew)
        Store.put_self hnew heq (by decide : 0 < loopFuel)
      refine ⟨.null, ?_⟩
      rw [step, acceptClient, bind_ok (user_of_lt hlimit), bind_ok (setUser_of_lt hlimit)]
      change ((w.server.timerLst.alloc x ⟨now + 15, fd⟩).addTimer loopFuel (some x) >>= _) = _
      rw [hadd]
      rfl
  · refine ⟨.bounds, ?_⟩
    rw [step, acceptClient, user, if_neg hlimit]
    rfl

/-- Data from a client comes down to `adjust_timer`. -/
theorem receiveData_data (again : Bool) (hlimit : 0 ≤ fd ∧ fd < fdLimit)
    (htimer : (s.users fd).timer = some x)
    (hset : s.timerLst.setExpire (some x) (cur + 15) = .ok lst) (hpos : 0 < ret.ret) :
    ∃ users, s.receiveData fd ret again cur = (lst.adjustTimer loopFuel (some x) >>= fun lst' =>
      pure ([.got ret.ret (ret.data.takeWhile (· ≠ 0)) fd],
        { s with users, timerLst := lst' })) := by
  generalize hdata : { s.users fd with
    buf := (Buffer.replicate 1024 0).write ret.data } = data
  have hdtimer : data.timer = some x := by rw [← hdata]; exact htimer
  refine ⟨Function.update s.users fd data, (receiveData_eq again cur hlimit hdata.symm).trans ?_⟩
  rw [hdtimer, if_neg (Int.not_lt.mpr hpos.le), if_neg hpos.ne']
  rw [refreshClient, if_pos (Option.some_ne_none x)]
  change ((s.timerLst.setExpire (some x) (cur + 15) >>= _) >>= _) = _
  rw [hset]
  change ((lst.adjustTimer loopFuel (some x) >>= _) >>= _) = _
  cases lst.adjustTimer loopFuel (some x) with
  | ok lst' => rfl
  | error f => rfl

/-- Data from a client whose timer cannot be moved. -/
theorem unsafe_receive (again : Bool) (h : Represented w a (l₁ ++ (x, ⟨e, fd⟩) :: l₂))
    (hclock : w.clock ≤ cur) (hpos : 0 < ret.ret) (hadj : ¬ Adjustable ⟨cur + 15, fd⟩ l₁ l₂) :
    (∃ f, w.server.step (.receive fd ret again cur) = .error f) ∨
      ∃ effects s l, w.server.step (.receive fd ret again cur) = .ok (effects, s) ∧
        s.timerLst.Circular l ∧ ∀ b ∈ l, b.2.expire ≤ cur + 15 := by
  have hlimit := h.books.fds fd (h.books.mem_clients (x := x) (e := e) (by simp))
  have htimer := (h.books.users x e fd (by simp)).2
  obtain ⟨lst₁, hset, h₁, -⟩ := represents_setExpire h.linked.links (cur + 15)
  obtain ⟨users, hstep⟩ := receiveData_data again hlimit htimer hset hpos
  have hlen := h.books.length_le
  cases l₂ with
  | nil => exact absurd trivial hadj
  | cons b l₂ =>
    by_cases hnil : l₁ = []
    · -- the first one would have to stay in front of an equal one
      subst hnil
      have heq : cur + 15 = b.2.expire := by
        by_contra hne
        exact hadj ⟨fun _ => hne, fun hne' => absurd rfl hne'⟩
      have hadjust := adjustTimer_first_equal h₁ heq (by decide : 0 < loopFuel)
      refine .inl ⟨.null, hstep.trans ?_⟩
      rw [hadjust]
      rfl
    · -- one in the middle would have to go to the end
      have hlt : ∀ c ∈ b :: l₂, c.2.expire < cur + 15 := by
        intro c hc
        by_contra hle
        exact hadj ⟨fun hnil' => absurd hnil' hnil, fun _ => ⟨c, hc, Int.not_lt.mp hle⟩⟩
      obtain ⟨l₁, c, rfl⟩ := (List.eq_nil_or_concat' l₁).resolve_left hnil
      have hfuel : (b :: l₂).length ≤ loopFuel := by
        rw [List.length_append, List.length_cons] at hlen
        omega
      obtain ⟨lst', hadjust, hcirc⟩ := adjustTimer_circular h₁ hlt hfuel
      refine .inr ⟨[.got ret.ret (ret.data.takeWhile (· ≠ 0)) fd],
        { w.server with users, timerLst := lst' }, _, hstep.trans ?_, hcirc, ?_⟩
      · rw [hadjust]
        rfl
      · refine List.forall_mem_cons.mpr ⟨le_refl _, fun d hd => ?_⟩
        have hmem : d ∈ l₁ ++ [c] ++ (x, ⟨e, fd⟩) :: b :: l₂ :=
          List.perm_middle.mem_iff.mpr (List.mem_cons_of_mem _ hd)
        exact (h.books.recent _ _ ((h.books.deadline _ _).mpr ⟨d.1, hmem⟩)).trans (by omega)

/-- **Only safe steps do what they should.** -/
theorem follows_iff {i : Input} (h : Refines w a) (hw : w.Allowed i) :
    (∃ effects s, w.server.step i = .ok (effects, s) ∧
      Refines (w.after i effects s) (a.step i)) ↔ Safe w.server i := by
  constructor
  · rintro ⟨effects, s, hstep, hpost⟩
    by_contra hrisky
    obtain ⟨l, h⟩ := h
    cases i with
    | accept newfd timer now =>
      obtain ⟨f, hfault⟩ := unsafe_accept h hw hrisky
      rw [hfault] at hstep
      cases hstep
    | signals sigs => exact hrisky trivial
    | receive sockfd ret again cur =>
      obtain ⟨x, e, l₁, l₂, rfl⟩ := h.books.exists_split hw.1
      rw [Safe, h.split_eq.1, h.split_eq.2, Classical.not_imp] at hrisky
      obtain ⟨hpos, hadj⟩ := hrisky
      rcases unsafe_receive again h hw.2 hpos hadj with
        ⟨f, hfault⟩ | ⟨_, s', l, hok, hcirc, -⟩
      · rw [hfault] at hstep
        cases hstep
      · rw [hok] at hstep
        obtain ⟨rfl, rfl⟩ := Prod.mk.inj (Except.ok.inj hstep)
        obtain ⟨l', h'⟩ := hpost
        exact hcirc.not_represents h'.linked.links
    | endEvents cur => exact hrisky trivial
  · intro hsafe
    obtain ⟨effects, s, hstep, hpost, -⟩ := follows_of_safe h hw hsafe
    exact ⟨effects, s, hstep, hpost⟩

/-! ## 6. Runs -/

/-- A step that the server can cope with. -/
def SafeStep (w : World) (e : Input × List Effect) (w' : World) : Prop :=
  w.Step e w' ∧ Safe w.server e.1

/-- What the run makes of the sessions, and of the descriptors. -/
def sessionsOf (tr : List (Input × List Effect)) : Sessions := (tr.map Prod.fst).foldl .step {}

def actsOf (tr : List (Input × List Effect)) : List (Act ℤ) :=
  (tr.flatMap Prod.snd).map Effect.act

variable {tr : List (Input × List Effect)}

/-- **The run lemma**, from any world in which the server does what it should. -/
theorem Refines.path (h : Refines w a) (hrun : Path SafeStep w tr w') :
    Refines w' ((tr.map Prod.fst).foldl .step a) ∧ w'.clients = heldFrom w.clients (actsOf tr) ∧
      FreshFrom w.clients (actsOf tr) ∧ OwnedFrom w.clients (actsOf tr) := by
  induction tr generalizing w a with
  | nil =>
    obtain rfl : w' = w := hrun
    exact ⟨h, rfl, along_nil, along_nil⟩
  | cons e tr ih =>
    obtain ⟨w₁, ⟨⟨hw, s, hstep, rfl⟩, hsafe⟩, hrest⟩ := hrun
    obtain ⟨effects, s', hstep', hpost, hfresh, howned⟩ := follows_of_safe h hw hsafe
    obtain ⟨rfl, rfl⟩ := Prod.mk.inj (Except.ok.inj (hstep'.symm.trans hstep))
    obtain ⟨href, hclients, hfresh', howned'⟩ := ih hpost hrest
    have hacts : actsOf (e :: tr) = e.2.map Effect.act ++ actsOf tr := by
      simp [actsOf]
    rw [hacts, heldFrom_append]
    exact ⟨href, hclients, freshFrom_append.mpr ⟨hfresh, hfresh'⟩,
      ownedFrom_append.mpr ⟨howned, howned'⟩⟩

/-- **What the server does, as long as its steps are safe.**  Its timers are those of the sessions,
so are its clients, and the descriptor of every client was closed exactly once if no client is left
(and not otherwise). -/
theorem refines_of_safe (hrun : Path SafeStep (.start users clock) tr w) :
    Refines w (sessionsOf tr) ∧
      (∀ fd, fd ∈ w.clients ↔ ((sessionsOf tr).deadline fd).isSome) ∧
      (ReleasedOnce (actsOf tr) ↔ w.clients = ∅) := by
  obtain ⟨href, hclients, hfresh, howned⟩ := refines_start.path hrun
  obtain ⟨l, h⟩ := href
  refine ⟨⟨l, h⟩, fun fd => ?_, ?_⟩
  · rw [h.books.clients fd, Option.isSome_iff_exists]
    rfl
  · rw [releasedOnce_iff hfresh howned, hclients]
    rfl

/-- A run: three clients, three seconds apart. -/
def noUsers : ℤ → ClientData := fun _ => ⟨0, .replicate 1024 0, none⟩

def threeClients : List (Input × List Effect) :=
  [(.accept 5 0 100, [.epollAdd 5]), (.accept 6 1 103, [.epollAdd 6]),
    (.accept 7 2 106, [.epollAdd 7])]

def World.next (w : World) (i : Input) : World :=
  match w.server.step i with
  | .ok (effects, s) => w.after i effects s
  | .error _ => w

def threeWorld : World := (threeClients.map Prod.fst).foldl .next (.start noUsers 100)

theorem path_threeClients : Path SafeStep (.start noUsers 100) threeClients threeWorld := by
  refine ⟨_, ⟨⟨?_, _, rfl, rfl⟩, ?_⟩, _, ⟨⟨?_, _, rfl, rfl⟩, ?_⟩, _, ⟨⟨?_, _, rfl, rfl⟩, ?_⟩, rfl⟩
  · exact ⟨by decide, by decide, rfl, by decide⟩
  · exact ⟨by decide, by decide, nofun⟩
  · exact ⟨by decide, by decide, rfl, by decide⟩
  · refine ⟨by decide, by decide, ?_⟩
    rintro b ⟨⟩
    decide
  · exact ⟨by decide, by decide, rfl, by decide⟩
  · refine ⟨by decide, by decide, ?_⟩
    rintro b ⟨⟩
    decide

/-- Two bytes from the second of them. -/
def fromSecond : Input := .receive 6 (.received [104, 105] (by decide)) false 110

theorem allowed_fromSecond : threeWorld.Allowed fromSecond := ⟨by decide, by decide⟩

theorem not_safe_fromSecond : ¬ Safe threeWorld.server fromSecond := by
  intro h
  obtain ⟨-, hlater⟩ := h (by decide)
  obtain ⟨c, hc, hle⟩ := hlater (by decide)
  obtain rfl : c = (2, ⟨121, 7⟩) := List.mem_singleton.mp hc
  exact absurd hle (by decide)

theorem refines_of_safe_three : Refines threeWorld (sessionsOf threeClients) ∧
    (∀ fd, fd ∈ threeWorld.clients ↔ ((sessionsOf threeClients).deadline fd).isSome) ∧
    (ReleasedOnce (actsOf threeClients) ↔ threeWorld.clients = ∅) :=
  refines_of_safe path_threeClients

/-- **A step that is not safe is the last one the server gets right.** -/
theorem step_refines_iff (hrun : Path SafeStep (.start users clock) tr w) {i : Input}
    (hw : w.Allowed i) :
    (∃ effects s, w.server.step i = .ok (effects, s) ∧
      Refines (w.after i effects s) ((sessionsOf tr).step i)) ↔ Safe w.server i :=
  follows_iff (refines_start.path hrun).1 hw

theorem step_refines_iff_three : ¬ ∃ effects s,
    threeWorld.server.step fromSecond = .ok (effects, s) ∧
    Refines (threeWorld.after fromSecond effects s) ((sessionsOf threeClients).step fromSecond) :=
  fun h => not_safe_fromSecond ((step_refines_iff path_threeClients allowed_fromSecond).mp h)

/-- **Data that is not safe stops the server**: either it fails there and then, or, if the next event
is a client in a later second, it never comes back from accepting it, however many rounds the loop
is given.  (A tick in between does something else: it frees nodes of the circle.) -/
theorem unsafe_receive_stops (hrun : Path SafeStep (.start users clock) tr w)
    (hw : w.Allowed (.receive fd ret again cur))
    (hrisky : ¬ Safe w.server (.receive fd ret again cur)) {effects : List Effect}
    (hstep : w.server.step (.receive fd ret again cur) = .ok (effects, s)) {newfd : ℤ}
    (hlimit : 0 ≤ newfd ∧ newfd < fdLimit) (hfresh : s.timerLst.heap x = none)
    (hnow : cur < now) : ∀ fuel, s.acceptClient fuel newfd x now = .error .endless := by
  intro fuel
  obtain ⟨l, h⟩ := (refines_start.path hrun).1
  obtain ⟨y, e, l₁, l₂, rfl⟩ := h.books.exists_split hw.1
  rw [Safe, h.split_eq.1, h.split_eq.2, Classical.not_imp] at hrisky
  rcases unsafe_receive again h hw.2 hrisky.1 hrisky.2 with
    ⟨f, hfault⟩ | ⟨_, s', l, hok, hcirc, hlate⟩
  · rw [hfault] at hstep
    cases hstep
  · rw [hok] at hstep
    obtain ⟨-, rfl⟩ := Prod.mk.inj (Except.ok.inj hstep)
    have hnew : x ∉ addrs l := by
      intro hmem
      obtain ⟨b, hb, rfl⟩ := List.mem_map.mp hmem
      obtain ⟨c, -, p, hnode⟩ := hcirc.next b hb
      rw [hfresh] at hnode
      cases hnode
    have hlater : ∀ b ∈ l, b.2.expire < now + 15 := fun b hb => by
      have hle := hlate b hb
      omega
    have hadd : (s'.timerLst.alloc x ⟨now + 15, newfd⟩).addTimer fuel (some x) =
        .error .endless := (hcirc.alloc hnew).addTimer_endless Store.put_self hlater
    rw [acceptClient, bind_ok (user_of_lt hlimit), bind_ok (setUser_of_lt hlimit)]
    change ((s'.timerLst.alloc x ⟨now + 15, newfd⟩).addTimer fuel (some x) >>= _) = _
    rw [hadd]
    rfl

theorem unsafe_receive_stops_three :
    ((threeWorld.next fromSecond).server.acceptClient loopFuel 8 3 111) = .error .endless :=
  unsafe_receive_stops path_threeClients allowed_fromSecond not_safe_fromSecond rfl
    ⟨by decide, by decide⟩ rfl (by decide) loopFuel

/-- **When the server can be stopped.**  The list is destroyed behind `main`; unless it is empty, a
node is read that was freed. -/
theorem shutdown_iff (hrun : Path SafeStep (.start users clock) tr w) :
    ((∃ lst, w.server.timerLst.destroy loopFuel = .ok lst) ↔ w.clients = ∅) ∧
      (w.clients ≠ ∅ → w.server.timerLst.destroy loopFuel = .error .freed) := by
  obtain ⟨l, h⟩ := (refines_start.path hrun).1
  have hempty : w.clients = ∅ ↔ l = [] := by
    rw [Finset.eq_empty_iff_forall_notMem, List.eq_nil_iff_forall_not_mem]
    constructor
    · rintro hnone ⟨x, e, fd⟩ hmem
      exact hnone fd (h.books.mem_clients hmem)
    · intro hnone fd hfd
      obtain ⟨e, he⟩ := (h.books.clients fd).mp hfd
      obtain ⟨x, hx⟩ := (h.books.deadline fd e).mp he
      exact hnone _ hx
  rw [ne_eq, hempty]
  cases l with
  | nil => exact ⟨iff_of_true ⟨_, if_pos h.linked.links.head⟩ rfl, fun hne => absurd rfl hne⟩
  | cons b l =>
    have hfault : w.server.timerLst.destroy loopFuel = .error .freed :=
      destroy_cons h.linked.links
    refine ⟨iff_of_false ?_ (by simp), fun _ => hfault⟩
    rintro ⟨lst, hlst⟩
    exact absurd (hlst.symm.trans hfault) (by simp)

theorem shutdown_iff_three : threeWorld.server.timerLst.destroy loopFuel = .error .freed :=
  (shutdown_iff path_threeClients).2 (by decide)

end InternetProgramming.IdleServer
