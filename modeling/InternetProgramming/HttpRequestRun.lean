/-
# A request in any number of pieces

What the request reader prints and answers depends on the bytes it was sent, not on the blocks in
which `recv` handed them over.

* `Reads s bs`: the reader has received `bs`, and they settle nothing yet.  This is the invariant
  of the loop.
* `RoundEffect`: what one round of the loop can do.
* `Summary`: what a whole run comes to, in terms of `digest`.  From it: what is printed and
  answered (`run_digests`), that only the bytes matter (`blocks_irrelevant`), and that a request
  which 4096 bytes do not settle gets no answer (`dropped_of_long`).
-/
import InternetProgramming.EchoServer
import InternetProgramming.HttpRequestSpec

namespace InternetProgramming.HttpReader

open Interaction

variable {bs data pend : Bytes} {fd : ℤ} {s s' : HttpReader} {tr : List Ev}

/-! ## 1. What a trace prints -/

/-- What an entry of the trace prints. -/
def printed? : Ev → Option Output
  | ⟨.cout label text, _⟩ => some (label, text)
  | _ => none

/-- What is printed, in order. -/
def printed (tr : List Ev) : List Output := tr.filterMap printed?

@[simp] theorem printed_nil : printed [] = [] := rfl

@[simp] theorem printed_append {tr₁ tr₂ : List Ev} :
    printed (tr₁ ++ tr₂) = printed tr₁ ++ printed tr₂ :=
  List.filterMap_append

/-- The entries that some output leaves. -/
def printing (out : List Output) : List Ev := out.map fun o => ⟨.cout o.1 o.2, ()⟩

@[simp] theorem receipts_printing {out : List Output} : receipts (printing out) = [] :=
  List.filterMap_eq_nil_iff.mpr fun _ he => by
    obtain ⟨o, -, rfl⟩ := List.mem_map.mp he
    rfl

@[simp] theorem sends_printing {out : List Output} : sends (printing out) = [] :=
  List.filterMap_eq_nil_iff.mpr fun _ he => by
    obtain ⟨o, -, rfl⟩ := List.mem_map.mp he
    rfl

@[simp] theorem printed_printing {out : List Output} : printed (printing out) = out := by
  induction out with
  | nil => rfl
  | cons o out ih =>
    change (o.1, o.2) :: printed (printing out) = _
    rw [ih]

theorem run_prints {out : List Output} {r : Except Left Unit} :
    Meth.Run (out.forM fun o => liftM (sys (.cout o.1 o.2)) : Meth Sys Sys.Ret Left HttpReader Unit)
      s tr r s' ↔ tr = printing out ∧ r = .ok () ∧ s' = s := by
  induction out generalizing tr with
  | nil => exact Meth.run_pure
  | cons o out ih =>
    change Meth.Run (liftM (sys (.cout o.1 o.2)) >>= fun _ => out.forM _) s tr r s' ↔ _
    rw [Meth.run_liftM_bind]
    constructor
    · rintro ⟨_, tr₁, tr₂, rfl, h₁, h₂⟩
      obtain ⟨rfl, rfl, rfl⟩ := ih.mp h₂
      exact ⟨by rw [Prog.run_perform.mp h₁]; rfl, rfl, rfl⟩
    · rintro ⟨rfl, rfl, rfl⟩
      exact ⟨(), [_], _, rfl, Prog.run_perform.mpr rfl, ih.mpr ⟨rfl, rfl, rfl⟩⟩

theorem run_finish {code : HttpCode} {r : Except Left Unit} :
    Meth.Run (finish fd code) s tr r s' ↔
      (code = .noRequest ∧ tr = [] ∧ r = .ok () ∧ s' = s) ∨
      (code ≠ .noRequest ∧ ∃ a, tr = [⟨.send fd (szret code), a⟩] ∧ r = .error .answered ∧
        s' = s) := by
  rw [finish, Meth.run_ite]
  split
  · rename_i hcode
    simp [hcode]
  · rename_i hcode
    rw [Meth.run_liftM_bind]
    constructor
    · rintro ⟨a, tr₁, tr₂, rfl, hsend, hrun⟩
      obtain rfl := Prog.run_perform.mp hsend
      obtain ⟨rfl, hr, hs⟩ := Meth.run_throw.mp hrun
      exact Or.inr ⟨hcode, a, rfl, hr, hs⟩
    · rintro (⟨hno, -⟩ | ⟨-, a, rfl, hr, hs⟩)
      · exact absurd hno hcode
      · exact ⟨a, [_], [], rfl, Prog.run_perform.mpr rfl, Meth.run_throw.mpr ⟨rfl, hr, hs⟩⟩

theorem run_take {code : HttpCode} {out : List Output} {s₁ : HttpReader} {r : Except Left Unit}
    (h : (s.received data).parseContent (requestSize + 1) = some (code, out, s₁)) :
    Meth.Run (take fd data) s tr r s' ↔
      ∃ tr₁, tr = printing out ++ tr₁ ∧ Meth.Run (finish fd code) s₁ tr₁ r s' := by
  rw [take, Meth.run_get_bind, h]
  change Meth.Run (modify (fun _ => s₁) >>= fun _ => out.forM _ >>= fun _ => finish fd code)
    s tr r s' ↔ _
  rw [Meth.run_modify_bind, Meth.run_bind]
  constructor
  · rintro (⟨e, he, -⟩ | ⟨u, s₂, tr₁, tr₂, rfl, hout, hrun⟩)
    · exact absurd (run_prints.mp he).2.1 (by simp)
    · obtain ⟨rfl, -, rfl⟩ := run_prints.mp hout
      exact ⟨tr₂, rfl, hrun⟩
  · rintro ⟨tr₁, rfl, hrun⟩
    exact Or.inr ⟨(), s₁, _, _, rfl, run_prints.mpr ⟨rfl, rfl, rfl⟩, hrun⟩

/-- One round: what `recv` answers, and what is done with a block. -/
theorem run_round {r : Except Left Unit} :
    Meth.Run (round fd) s tr r s' ↔ ∃ a tr₁, tr = ⟨.recv fd (requestSize - s.readIndex), a⟩ :: tr₁ ∧
      match a with
      | .failed => tr₁ = [] ∧ r = .error .readFailed ∧ s' = s
      | .received data _ =>
        if data = [] then tr₁ = [] ∧ r = .error .closed ∧ s' = s
        else Meth.Run (take fd data) s tr₁ r s' := by
  rw [round, Meth.run_get_bind, Meth.run_liftM_bind]
  constructor
  · rintro ⟨a, tr₁, tr₂, rfl, hrecv, hrun⟩
    obtain rfl := Prog.run_perform.mp hrecv
    refine ⟨a, tr₂, rfl, ?_⟩
    cases a with
    | failed => exact Meth.run_throw.mp hrun
    | received data le =>
      have hcases := Meth.run_ite.mp hrun
      rwa [Meth.run_throw] at hcases
  · rintro ⟨a, tr₁, rfl, hrun⟩
    refine ⟨a, [_], tr₁, rfl, Prog.run_perform.mpr rfl, ?_⟩
    cases a with
    | failed => exact Meth.run_throw.mpr hrun
    | received data le =>
      refine Meth.run_ite.mpr ?_
      rwa [Meth.run_throw]

/-! ## 2. One round -/

/-- A block that fits is read behind what is pending. -/
theorem Pending.received (h : Pending s pend) (hfit : s.readIndex + data.length ≤ requestSize) :
    Pending (s.received data) (pend ++ data) := by
  obtain ⟨⟨pre, post, hcells, hstart, hpre⟩, hread, q, hq, hchecked, hplain⟩ := h
  have hlen := s.buffer.length_eq
  rw [hcells, List.length_append, List.length_append] at hlen
  have hread₁ : s.readIndex = (pre ++ pend).length := by rw [hread, hstart, List.length_append]
  have hcells₁ : s.buffer.cells =
      (pre ++ pend) ++ post.take data.length ++ post.drop data.length := by
    rw [hcells, List.append_assoc (pre ++ pend), List.take_append_drop]
  have htake : (post.take data.length).length = data.length := by
    rw [List.length_take]
    omega
  refine ⟨⟨pre, post.drop data.length, ?_, hstart, hpre⟩, ?_, q, ?_, hchecked, ?_⟩
  · change (s.buffer.writeAt s.readIndex data).cells = _
    rw [hread₁, Buffer.writeAt_cells hcells₁ htake]
    simp
  · change s.readIndex + data.length = s.startLine + _
    rw [hread, List.length_append, Nat.add_assoc]
  · rw [List.length_append]
    omega
  · rwa [List.take_append_of_le_length hq]

/-- The reader has received `bs`, and cannot tell yet what they come to. -/
structure Reads (s : HttpReader) (bs : Bytes) : Prop where
  pending : Pending s (digest .requestline bs).rest
  unsettled : (digest .requestline bs).answer = .noRequest
  state : (digest .requestline bs).state = s.checkstatus
  read : s.readIndex = bs.length

/-- Nothing has been received. -/
theorem reads_start : Reads {} [] := by
  refine ⟨?_, by rw [digest_nil], by rw [digest_nil], rfl⟩
  rw [digest_nil]
  exact ⟨⟨[], _, rfl, rfl, by simp⟩, rfl, 0, Nat.le_refl 0, rfl, List.forall_mem_nil _⟩

/-- A round of the loop. -/
abbrev Round := Iteration Sys Sys.Ret Left HttpReader

/-- What a round does that starts with `bs` received. -/
inductive RoundEffect (c : Round) (bs : Bytes) : Prop
  | left (why : Left) (off : why = .readFailed ∨ why = .closed) (res : c.res = .error why)
      (receipts : (receipts c.trace).flatten = []) (sends : sends c.trace = [])
      (printed : printed c.trace = [])
  | next (data : Bytes) (nonempty : data ≠ []) (receipts : receipts c.trace = [data])
      (sends : sends c.trace = [])
      (printed : (digest .requestline (bs ++ data)).output =
        (digest .requestline bs).output ++ printed c.trace)
      (res : c.res = .ok ()) (reads : Reads c.post (bs ++ data))
  | answered (data : Bytes) (nonempty : data ≠ []) (receipts : receipts c.trace = [data])
      (settled : (digest .requestline (bs ++ data)).answer ≠ .noRequest)
      (sends : sends c.trace = [szret (digest .requestline (bs ++ data)).answer])
      (printed : (digest .requestline (bs ++ data)).output =
        (digest .requestline bs).output ++ printed c.trace)
      (res : c.res = .error .answered) (fits : bs.length + data.length ≤ requestSize)

/-- What has been received is in the buffer. -/
theorem Reads.length_le (h : Reads s bs) : bs.length ≤ requestSize := by
  obtain ⟨pre, post, hcells, hstart, -⟩ := h.pending.cells
  have hlen := s.buffer.length_eq
  have hread := h.pending.read
  rw [hcells, List.length_append, List.length_append] at hlen
  rw [h.read, hstart] at hread
  omega

/-- **A block is digested**, where the reader was left. -/
theorem Reads.parse (h : Reads s bs) (hfit : bs.length + data.length ≤ requestSize) :
    ∃ s₁ out, (s.received data).parseContent (requestSize + 1) =
        some ((digest .requestline (bs ++ data)).answer, out, s₁) ∧
      (digest .requestline (bs ++ data)).output = (digest .requestline bs).output ++ out ∧
      ((digest .requestline (bs ++ data)).answer = .noRequest → Reads s₁ (bs ++ data)) := by
  have hpending : Pending (s.received data) ((digest .requestline bs).rest ++ data) :=
    h.pending.received (by rwa [h.read])
  have hdigest : digest .requestline (bs ++ data) = _ := digest_append
  rw [if_pos h.unsettled, h.state] at hdigest
  have hfuel : ((digest .requestline bs).rest ++ data).length < requestSize + 1 := by
    have hlen : s.readIndex + data.length = _ := hpending.read
    have hle : s.readIndex + data.length ≤ requestSize := by rwa [h.read]
    omega
  obtain ⟨s₁, hparse, hopen⟩ := parseContent_eq hpending hfuel
  rw [show (s.received data).checkstatus = s.checkstatus from rfl] at hparse hopen
  refine ⟨s₁, (digest s.checkstatus ((digest .requestline bs).rest ++ data)).output, ?_, ?_,
    fun hno => ?_⟩
  · rw [hparse, hdigest]
    rfl
  · rw [hdigest]
    rfl
  · rw [hdigest] at hno
    obtain ⟨hstate, hread, hrest⟩ := hopen hno
    refine ⟨?_, by rw [hdigest]; exact hno, by rw [hdigest]; exact hstate.symm, ?_⟩
    · rw [hdigest]
      exact hrest
    · rw [hread, List.length_append, ← h.read]
      rfl

/-- **What one round can do.** -/
theorem roundEffect {c : Round} (hv : c.Valid fun _ => round fd) (h : Reads c.pre bs) :
    RoundEffect c bs := by
  obtain ⟨a, tr₁, htr, hrun⟩ := run_round.mp hv
  cases a with
  | failed =>
    obtain ⟨rfl, hres, -⟩ := hrun
    exact .left .readFailed (Or.inl rfl) hres (by rw [htr]; rfl) (by rw [htr]; rfl)
      (by rw [htr]; rfl)
  | received data le =>
    change if data = [] then tr₁ = [] ∧ c.res = .error .closed ∧ c.post = c.pre
      else Meth.Run (take fd data) c.pre tr₁ c.res c.post at hrun
    by_cases hdata : data = []
    · rw [if_pos hdata] at hrun
      subst hdata
      obtain ⟨rfl, hres, -⟩ := hrun
      exact .left .closed (Or.inr rfl) hres (by rw [htr]; rfl) (by rw [htr]; rfl) (by rw [htr]; rfl)
    · rw [if_neg hdata] at hrun
      have hfit : bs.length + data.length ≤ requestSize := by
        have := h.length_le
        rw [h.read] at le
        omega
      obtain ⟨s₁, out, hparse, hout, hreads⟩ := h.parse hfit
      obtain ⟨tr₂, rfl, hfinish⟩ := (run_take hparse).mp hrun
      rcases run_finish.mp hfinish with ⟨hno, rfl, hres, hpost⟩ | ⟨hcode, a, rfl, hres, -⟩
      · refine .next data hdata ?_ ?_ ?_ hres (hpost ▸ hreads hno)
        · simp [htr, received?]
        · simp [htr, sent?]
        · rw [hout, htr]
          change _ = _ ++ printed (printing out ++ [])
          simp
      · refine .answered data hdata ?_ hcode ?_ ?_ hres hfit
        · simp [htr, received?]
        · simp [htr, sent?]
        · rw [hout, htr]
          change _ = _ ++ printed (printing out ++ _)
          rw [printed_append, printed_printing]
          exact congrArg _ (List.append_nil out).symm

/-! ## 3. Runs of the loop -/

/-- The bytes that came in, in whatever blocks. -/
def incoming (tr : List Ev) : Bytes := (receipts tr).flatten

@[simp] theorem incoming_append {tr₁ tr₂ : List Ev} :
    incoming (tr₁ ++ tr₂) = incoming tr₁ ++ incoming tr₂ := by
  simp [incoming]

/-- The answer that is sent, if there is one. -/
def answers (code : HttpCode) : List Bytes := if code = .noRequest then [] else [szret code]

/-- What a run comes to that starts with `bs` received. -/
structure Summary (h : List Round) (bs : Bytes) : Prop where
  fits : (bs ++ incoming (traceOf h)).length ≤ requestSize
  output : (digest .requestline (bs ++ incoming (traceOf h))).output =
    (digest .requestline bs).output ++ printed (traceOf h)
  sends : sends (traceOf h) = answers (digest .requestline (bs ++ incoming (traceOf h))).answer
  inside : ∀ c ∈ h, c.res ≠ .error .outside
  rounds : h.length ≤ (incoming (traceOf h)).length + 1

/-- **The loop digests what it is sent.** -/
theorem summary {h : List Round} (hl : LoopRun (round fd) s h s') (hs : Reads s bs) :
    Summary h bs := by
  induction h generalizing s bs with
  | nil =>
    refine ⟨?_, ?_, ?_, by simp, Nat.zero_le _⟩
    · simpa [incoming] using hs.length_le
    · simp [incoming]
    · simp [incoming, answers, hs.unsettled]
  | cons c h ih =>
    obtain ⟨rfl, hv, hrest⟩ := hl
    cases roundEffect hv hs with
    | left why off res receipts sends printed =>
      rw [res] at hrest
      obtain ⟨rfl, -⟩ := hrest
      have hincoming : incoming (traceOf [c]) = [] := by simp [incoming, receipts]
      refine ⟨?_, ?_, ?_, ?_, by simp⟩
      · rw [hincoming, List.append_nil]
        exact hs.length_le
      · rw [hincoming, List.append_nil]
        simp [printed]
      · rw [hincoming, List.append_nil, answers, if_pos hs.unsettled]
        simp [sends]
      · rcases off with rfl | rfl <;> simp [res]
    | next data nonempty receipts sends printed res reads =>
      rw [res] at hrest
      have hsummary := ih hrest reads
      have hincoming : incoming (traceOf (c :: h)) = data ++ incoming (traceOf h) := by
        simp [incoming, receipts]
      refine ⟨?_, ?_, ?_, ?_, ?_⟩
      · rw [hincoming, ← List.append_assoc]
        exact hsummary.fits
      · rw [hincoming, ← List.append_assoc, hsummary.output, printed]
        simp
      · rw [hincoming, ← List.append_assoc, ← hsummary.sends]
        simp [sends]
      · exact List.forall_mem_cons.mpr ⟨by simp [res], hsummary.inside⟩
      · have := List.length_pos_of_ne_nil nonempty
        have := hsummary.rounds
        rw [hincoming, List.length_append, List.length_cons]
        omega
    | answered data nonempty receipts settled sends printed res fits =>
      rw [res] at hrest
      obtain ⟨rfl, -⟩ := hrest
      have hincoming : incoming (traceOf [c]) = data := by simp [incoming, receipts]
      refine ⟨?_, ?_, ?_, ?_, by simp⟩
      · rwa [hincoming, List.length_append]
      · rw [hincoming, printed]
        simp
      · rw [hincoming, answers, if_neg settled]
        simp [sends]
      · simp [res]

/-- **What is printed and answered**, in every run. -/
theorem run_digests {h : List Round} (hl : LoopRun (round fd) {} h s') :
    printed (traceOf h) = (digest .requestline (incoming (traceOf h))).output ∧
      sends (traceOf h) = answers (digest .requestline (incoming (traceOf h))).answer ∧
      (∀ c ∈ h, c.res ≠ .error .outside) ∧ (incoming (traceOf h)).length ≤ requestSize := by
  have hsummary := summary hl reads_start
  have houtput := hsummary.output
  rw [List.nil_append, digest_nil, List.nil_append] at houtput
  exact ⟨houtput.symm, hsummary.sends, hsummary.inside, hsummary.fits⟩

/-- A block that fits can come next. -/
theorem Reads.exists_round (fd : ℤ) (h : Reads s bs) (hne : data ≠ [])
    (hfit : bs.length + data.length ≤ requestSize) :
    ∃ c : Round, c.pre = s ∧ c.Valid (fun _ => round fd) ∧ receipts c.trace = [data] := by
  obtain ⟨s₁, out, hparse, -, -⟩ := h.parse hfit
  have le : data.length ≤ requestSize - s.readIndex := by
    rw [h.read]
    omega
  obtain ⟨tr, r, hreceipts, hfinish⟩ : ∃ tr r, receipts tr = [] ∧
      Meth.Run (finish fd (digest .requestline (bs ++ data)).answer) s₁ tr r s₁ := by
    by_cases hcode : (digest .requestline (bs ++ data)).answer = .noRequest
    · exact ⟨[], .ok (), rfl, run_finish.mpr (Or.inl ⟨hcode, rfl, rfl, rfl⟩)⟩
    · exact ⟨[⟨.send fd _, .failed⟩], .error .answered, rfl,
        run_finish.mpr (Or.inr ⟨hcode, .failed, rfl, rfl, rfl⟩)⟩
  have htake := (run_take hparse).mpr ⟨tr, rfl, hfinish⟩
  have hround : Meth.Run (round fd) s
      (⟨.recv fd (requestSize - s.readIndex), .received data le⟩ :: (printing out ++ tr)) r s₁ := by
    refine run_round.mpr ⟨.received data le, _, rfl, ?_⟩
    change if data = [] then _ else _
    rwa [if_neg hne]
  refine ⟨⟨s, (), _, r, s₁⟩, rfl, hround, ?_⟩
  simp [received?, hreceipts]

/-- **Any blocks can come**, as long as those before settle nothing. -/
theorem Reads.exists_loopRun (fd : ℤ) (blocks : List Bytes) (h : Reads s bs)
    (hne : ∀ data ∈ blocks, data ≠ []) (hfit : (bs ++ blocks.flatten).length ≤ requestSize)
    (hopen : ∀ i < blocks.length,
      (digest .requestline (bs ++ (blocks.take i).flatten)).answer = .noRequest) :
    ∃ (h : List Round) (s' : HttpReader), LoopRun (round fd) s h s' ∧
      receipts (traceOf h) = blocks := by
  induction blocks generalizing s bs with
  | nil => exact ⟨[], s, rfl, rfl⟩
  | cons data blocks ih =>
    obtain ⟨hdata, hblocks⟩ := List.forall_mem_cons.mp hne
    rw [List.flatten_cons, ← List.append_assoc] at hfit
    have hfit₁ : bs.length + data.length ≤ requestSize := by
      simp only [List.length_append] at hfit
      omega
    obtain ⟨c, rfl, hv, hreceipts⟩ := h.exists_round fd hdata hfit₁
    cases roundEffect hv h with
    | left why off res receipts sends printed => simp [hreceipts, hdata] at receipts
    | next data' nonempty receipts sends printed res reads =>
      obtain rfl : data = data' := by simpa using hreceipts.symm.trans receipts
      obtain ⟨l, s', hl, hrest⟩ := ih reads hblocks hfit fun i hi => by
        have := hopen (i + 1) (Nat.succ_lt_succ hi)
        rwa [List.take_succ_cons, List.flatten_cons, ← List.append_assoc] at this
      refine ⟨c :: l, s', ⟨rfl, hv, by rwa [res]⟩, ?_⟩
      rw [traceOf_cons, receipts_append, hreceipts, hrest, List.singleton_append]
    | answered data' nonempty receipts settled sends printed res fits =>
      obtain rfl : data = data' := by simpa using hreceipts.symm.trans receipts
      cases blocks with
      | nil =>
        exact ⟨[c], c.post, ⟨rfl, hv, by rw [res]; exact ⟨rfl, rfl⟩⟩, by simpa using hreceipts⟩
      | cons data' blocks =>
        have := hopen 1 (by simp)
        exact absurd (by simpa using this) settled

/-- A request in one line. -/
def shortLine : Bytes :=
  ascii ['G', 'E', 'T', ' ', '/', ' ', 'H', 'T', 'T', 'P', '/', '1', '.', '1']

/-- ...and all of it, with the empty line at its end. -/
def shortRequest : Bytes := shortLine ++ [cr, lf, cr, lf]

theorem digest_shortRequest : digest .requestline shortRequest =
    ⟨.getRequest, [("The request URL is: ", [47])], .header, []⟩ := by
  have hfirst : nextLine shortRequest = .complete shortLine [cr, lf] := by decide
  have hlast : nextLine [cr, lf] = .complete [] [] := by decide
  have hpath : judge .requestline shortLine =
      (.noRequest, [("The request URL is: ", [47])], .header) := by decide
  rw [digest_next hfirst hpath, digest_settled hlast rfl (by decide)]
  rfl

/-- It comes in one piece. -/
theorem exists_shortRun : ∃ (h : List Round) (s' : HttpReader), LoopRun (round 4) {} h s' ∧
    receipts (traceOf h) = [shortRequest] := by
  refine reads_start.exists_loopRun 4 [shortRequest] (by decide) (by decide) fun i hi => ?_
  obtain rfl : i = 0 := Nat.lt_one_iff.mp hi
  exact congrArg Digest.answer digest_nil

/-- It comes in two pieces, cut behind the CR. -/
theorem exists_cutRun : ∃ (h : List Round) (s' : HttpReader), LoopRun (round 4) {} h s' ∧
    receipts (traceOf h) = [shortLine ++ [cr], [lf, cr, lf]] := by
  refine reads_start.exists_loopRun 4 [shortLine ++ [cr], [lf, cr, lf]] (by decide) (by decide)
    fun i hi => ?_
  match i, hi with
  | 0, _ => exact congrArg Digest.answer digest_nil
  | 1, _ => exact congrArg Digest.answer (digest_incomplete (by decide))

/-- The reader answers the short request, although it was cut in two. -/
theorem run_digests_short : ∃ (h : List Round) (s' : HttpReader), LoopRun (round 4) {} h s' ∧
    receipts (traceOf h) = [shortLine ++ [cr], [lf, cr, lf]] ∧
    printed (traceOf h) = [("The request URL is: ", [47])] ∧
    sends (traceOf h) = [szret .getRequest] := by
  obtain ⟨h, s', hl, hreceipts⟩ := exists_cutRun
  have hincoming : incoming (traceOf h) = shortRequest := by rw [incoming, hreceipts]; rfl
  obtain ⟨hprinted, hsends, -⟩ := run_digests hl
  rw [hincoming, digest_shortRequest] at hprinted hsends
  exact ⟨h, s', hl, hreceipts, hprinted, hsends⟩

/-! ## 4. The blocks do not matter -/

/-- More bytes add output, and nothing once the request is settled. -/
theorem digest_of_isPrefix {cs : Bytes} (st : CheckState) (h : bs <+: cs) :
    (digest st bs).output <+: (digest st cs).output ∧
      ((digest st bs).answer ≠ .noRequest →
        (digest st cs).answer = (digest st bs).answer ∧
        (digest st cs).output = (digest st bs).output) := by
  obtain ⟨more, rfl⟩ := h
  rw [digest_append]
  split
  · rename_i hopen
    exact ⟨List.prefix_append _ _, fun hne => absurd hopen hne⟩
  · exact ⟨List.prefix_rfl, fun _ => ⟨rfl, rfl⟩⟩

theorem answers_eq_nil_iff {code : HttpCode} : answers code = [] ↔ code = .noRequest := by
  unfold answers
  split <;> simp_all

/-- **The blocks do not matter.**  A run that received more of the same bytes has printed at least
as much, and has answered the same if the other one has answered at all. -/
theorem blocks_irrelevant {fd₁ fd₂ : ℤ} {h₁ h₂ : List Round} {s₁ s₂ : HttpReader}
    (hl₁ : LoopRun (round fd₁) {} h₁ s₁) (hl₂ : LoopRun (round fd₂) {} h₂ s₂)
    (hpre : incoming (traceOf h₁) <+: incoming (traceOf h₂)) :
    printed (traceOf h₁) <+: printed (traceOf h₂) ∧
      (sends (traceOf h₁) ≠ [] ∨ incoming (traceOf h₁) = incoming (traceOf h₂) →
        sends (traceOf h₂) = sends (traceOf h₁) ∧
        printed (traceOf h₂) = printed (traceOf h₁)) := by
  obtain ⟨hprinted₁, hsends₁, -⟩ := run_digests hl₁
  obtain ⟨hprinted₂, hsends₂, -⟩ := run_digests hl₂
  obtain ⟨hmore, hsettled⟩ := digest_of_isPrefix .requestline hpre
  rw [hprinted₁, hprinted₂, hsends₁, hsends₂]
  refine ⟨hmore, ?_⟩
  rintro (hanswered | heq)
  · obtain ⟨hanswer, houtput⟩ := hsettled (mt answers_eq_nil_iff.mpr hanswered)
    exact ⟨by rw [hanswer], houtput⟩
  · rw [heq]
    exact ⟨rfl, rfl⟩

/-- One piece or two. -/
theorem blocks_irrelevant_short : ∃ (h₁ h₂ : List Round) (s₁ s₂ : HttpReader),
    LoopRun (round 4) {} h₁ s₁ ∧ LoopRun (round 4) {} h₂ s₂ ∧
    receipts (traceOf h₁) = [shortRequest] ∧
    receipts (traceOf h₂) = [shortLine ++ [cr], [lf, cr, lf]] ∧
    sends (traceOf h₂) = sends (traceOf h₁) := by
  obtain ⟨h₁, s₁, hl₁, hreceipts₁⟩ := exists_shortRun
  obtain ⟨h₂, s₂, hl₂, hreceipts₂⟩ := exists_cutRun
  have heq : incoming (traceOf h₁) = incoming (traceOf h₂) := by
    rw [incoming, incoming, hreceipts₁, hreceipts₂]
    rfl
  exact ⟨h₁, h₂, s₁, s₂, hl₁, hl₂, hreceipts₁, hreceipts₂,
    ((blocks_irrelevant hl₁ hl₂ (heq ▸ List.prefix_rfl)).2 (Or.inr heq)).1⟩

/-! ## 5. The end of the buffer -/

/-- Behind the last byte of the buffer there is no further round. -/
theorem left_of_full {h : List Round} (hl : LoopRun (round fd) s h s') (hs : Reads s bs) :
    ∀ c ∈ h, c.pre.readIndex = requestSize →
      c.res = .error .closed ∨ c.res = .error .readFailed := by
  refine LoopRun.forall_mem (I := fun s => ∃ bs, Reads s bs) (fun c hv hc => ?_) ⟨bs, hs⟩ hl
  obtain ⟨bs, hs⟩ := hc
  cases roundEffect hv hs with
  | left why off res receipts sends printed =>
    refine ⟨fun _ => ?_, fun hok => by rw [res] at hok; cases hok⟩
    rcases off with rfl | rfl
    · exact Or.inr res
    · exact Or.inl res
  | next data nonempty receipts sends printed res reads =>
    refine ⟨fun hfull => ?_, fun _ => ⟨_, reads⟩⟩
    have hle := reads.length_le
    have := List.length_pos_of_ne_nil nonempty
    rw [hs.read] at hfull
    rw [List.length_append] at hle
    omega
  | answered data nonempty receipts settled sends printed res fits =>
    refine ⟨fun hfull => ?_, fun hok => by rw [res] at hok; cases hok⟩
    have := List.length_pos_of_ne_nil nonempty
    rw [hs.read] at hfull
    omega

/-- **A long request is dropped.**  Bytes of which the first 4096 settle nothing are never
answered: when the buffer is full, `recv` is asked for no bytes, and its answer is taken for the
end of the stream. -/
theorem dropped_of_long (hopen : (digest .requestline (bs.take requestSize)).answer = .noRequest)
    {h : List Round} (hl : LoopRun (round fd) {} h s') (hpre : incoming (traceOf h) <+: bs) :
    sends (traceOf h) = [] ∧ h.length ≤ requestSize + 1 ∧
      ∀ c ∈ h, c.pre.readIndex = requestSize →
        c.res = .error .closed ∨ c.res = .error .readFailed := by
  have hsummary := summary hl reads_start
  have hfits : (incoming (traceOf h)).length ≤ requestSize := hsummary.fits
  have htake : incoming (traceOf h) <+: bs.take requestSize :=
    List.prefix_take_iff.mpr ⟨hpre, hfits⟩
  refine ⟨?_, hsummary.rounds.trans (Nat.succ_le_succ hfits), left_of_full hl reads_start⟩
  rw [hsummary.sends, List.nil_append, answers_eq_nil_iff]
  by_contra hanswer
  exact hanswer (((digest_of_isPrefix .requestline htake).2 hanswer).1 ▸ hopen)

/-- A block fills the buffer, and the reader goes on for one more round. -/
theorem exists_fullRun (fd : ℤ) (hlen : data.length = requestSize)
    (hopen : (digest .requestline data).answer = .noRequest) :
    ∃ (c₁ c₂ : Round) (s' : HttpReader), LoopRun (round fd) {} [c₁, c₂] s' ∧
      incoming (traceOf [c₁, c₂]) = data ∧ c₂.pre.readIndex = requestSize := by
  have hne : data ≠ [] := List.ne_nil_of_length_pos (by rw [hlen]; decide)
  obtain ⟨c₁, hpre, hv₁, hreceipts⟩ := reads_start.exists_round fd hne (by simpa using hlen.le)
  cases roundEffect hv₁ (hpre ▸ reads_start) with
  | left why off res receipts sends printed => simp [hreceipts, hne] at receipts
  | answered data' nonempty receipts settled sends printed res fits =>
    obtain rfl : data = data' := by simpa using hreceipts.symm.trans receipts
    exact absurd hopen settled
  | next data' nonempty receipts sends printed res reads =>
    obtain rfl : data = data' := by simpa using hreceipts.symm.trans receipts
    obtain ⟨tr, p, hrun⟩ := Prog.exists_run ((round fd).run.run c₁.post)
    have hv₂ : Call.Valid (fun _ => round fd) ⟨c₁.post, (), tr, p.1, p.2⟩ := hrun
    -- there is no room for more
    have hnothing : incoming tr = [] := by
      cases roundEffect hv₂ reads with
      | left why off res receipts sends printed => exact receipts
      | next more nonempty receipts sends printed res reads =>
        have hle := reads.length_le
        have hpos := List.length_pos_of_ne_nil nonempty
        simp only [List.nil_append, List.length_append] at hle
        omega
      | answered more nonempty receipts settled sends printed res fits =>
        have hpos := List.length_pos_of_ne_nil nonempty
        simp only [List.nil_append] at fits
        omega
    refine ⟨c₁, ⟨c₁.post, (), tr, p.1, p.2⟩, p.2, ⟨hpre, hv₁, ?_⟩, ?_, ?_⟩
    · rw [res]
      refine ⟨rfl, hv₂, ?_⟩
      cases p.1 with
      | ok u => rfl
      | error e => exact ⟨rfl, rfl⟩
    · simp only [traceOf_cons, traceOf_nil, incoming_append, hnothing]
      simp [incoming, hreceipts]
    · exact reads.read.trans (by simpa using hlen)

/-- A request line that is too long. -/
theorem dropped_of_long_replicate : ∃ (c₁ c₂ : Round) (s' : HttpReader),
    LoopRun (round 4) {} [c₁, c₂] s' ∧
    incoming (traceOf [c₁, c₂]) = List.replicate requestSize 65 ∧
    sends (traceOf [c₁, c₂]) = [] ∧ (c₂.res = .error .closed ∨ c₂.res = .error .readFailed) := by
  have hplain : Plain (List.replicate requestSize 65) := fun c hc => by
    rw [List.eq_of_mem_replicate hc]
    decide
  have hnext : nextLine (List.replicate requestSize 65) = .incomplete := by
    have hnext : nextLine (List.replicate requestSize 65 ++ []) = _ := nextLine_append hplain
    rwa [List.append_nil] at hnext
  have hopen : (digest .requestline (List.replicate requestSize 65)).answer = .noRequest := by
    rw [digest_incomplete hnext]
  obtain ⟨c₁, c₂, s', hl, hincoming, hfull⟩ := exists_fullRun 4 List.length_replicate hopen
  -- whatever the client meant to send after them
  have hlong : incoming (traceOf [c₁, c₂]) <+:
      List.replicate requestSize 65 ++ List.replicate 904 (65 : UInt8) := by
    rw [hincoming]
    exact List.prefix_append _ _
  have hopen' : (digest .requestline ((List.replicate requestSize 65 ++
      List.replicate 904 (65 : UInt8)).take requestSize)).answer = .noRequest := by
    rwa [List.take_left' List.length_replicate]
  obtain ⟨hsends, -, hleft⟩ := dropped_of_long hopen' hl hlong
  exact ⟨c₁, c₂, s', hl, hincoming, hsends, hleft c₂ (by simp) hfull⟩

end InternetProgramming.HttpReader
