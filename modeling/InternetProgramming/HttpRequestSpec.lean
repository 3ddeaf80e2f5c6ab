/-
# What the request reader accepts

`digest` says what the reader makes of the bytes it was sent, without indices and without a buffer:
it takes the lines that are complete (`nextLine`) and stops at the first that settles the request.
-/
import InternetProgramming.HttpRequest

namespace InternetProgramming.HttpReader

open Interaction Interaction.Buffer

variable {bs cs line rest pre post suf pend t : Bytes} {c : UInt8} {i read : ℕ}
variable {b b' : Buffer UInt8 requestSize} {s s' : HttpReader} {st st' : CheckState}

/-! ## 1. The meaning of the bytes -/

/-- What the bytes begin with. -/
inductive NextLine where
  /-- No line yet. -/
  | incomplete
  /-- An end of line that is none. -/
  | malformed
  | complete (line rest : Bytes)
deriving DecidableEq

def NextLine.prepend (p : Bytes) : NextLine → NextLine
  | .complete line rest => .complete (p ++ line) rest
  | other => other

/-- What follows a CR. -/
def afterCr : Bytes → NextLine
  | [] => .incomplete
  | d :: rest => if d = lf then .complete [] rest else .malformed

/-- A line ends with CR and LF, and neither stands anywhere else. -/
def nextLine : Bytes → NextLine
  | [] => .incomplete
  | c :: bs =>
    if c = cr then
      afterCr bs
    else if c = lf then
      .malformed
    else
      (nextLine bs).prepend [c]

/-- The bytes before the first blank, and those behind it. -/
def splitBlank (t : Bytes) : Option (Bytes × Bytes) :=
  match t.dropWhile (· ∉ blanks) with
  | [] => none
  | _ :: rest => some (t.takeWhile (· ∉ blanks), rest)

/-- The path that a URL names, with the host cut off. -/
def pathOf (url : Bytes) : Bytes :=
  if EqFold (url.take 7) scheme then
    (url.drop 7).dropWhile (· ≠ 47)
  else
    url

/-- The path in what follows the method. -/
def targetPath (t : Bytes) : Option Bytes := do
  let (url, rest) ← splitBlank (t.dropWhile (· ∈ blanks))
  if EqFold (rest.dropWhile (· ∈ blanks)) version11 ∧ (pathOf url).head? = some 47 then
    some (pathOf url)
  else
    none

/-- The path that a request line asks for. -/
def requestPath (t : Bytes) : Option Bytes := do
  let (method, rest) ← splitBlank t
  if EqFold method methodGet then targetPath rest else none

/-- The text of a line: what `<string.h>` sees of it. -/
def textOf (line : Bytes) : Bytes := line.takeWhile (· ≠ 0)

/-- The answer to a request line that asks for `path`. -/
def answerPath : Option Bytes → HttpCode × List Output
  | some path => (.noRequest, [("The request URL is: ", path)])
  | none => (.badRequest, [])

/-- The answer to a header.  Behind `Host:` every space is skipped, and so is every `t`. -/
def answerHeader (t : Bytes) : HttpCode × List Output :=
  if t = [] then
    (.getRequest, [])
  else if EqFold (t.take 5) hostName then
    (.noRequest, [("The request host is: ", (t.drop 5).dropWhile (· ∈ hostBlanks))])
  else
    (.noRequest, [])

/-- What is made of a line: the answer, the output, and the state behind it. -/
def judge : CheckState → Bytes → HttpCode × List Output × CheckState
  | .requestline, line =>
    let (code, out) := answerPath (requestPath (textOf line))
    (code, out, if code = .noRequest then .header else .requestline)
  | .header, line =>
    let (code, out) := answerHeader (textOf line)
    (code, out, .header)

@[simp] theorem afterCr_eq_complete_iff :
    afterCr bs = .complete line rest ↔ line = [] ∧ bs = lf :: rest := by
  cases bs with
  | nil => simp [afterCr]
  | cons d bs =>
    by_cases hd : d = lf
    · subst hd
      simp [afterCr, eq_comm]
    · simp [afterCr, hd]

@[simp] theorem prepend_eq_complete_iff {p : Bytes} {l : NextLine} :
    l.prepend p = .complete line rest ↔ ∃ line', l = .complete line' rest ∧ line = p ++ line' := by
  cases l with
  | complete line' rest' => simp [NextLine.prepend, eq_comm, and_comm]
  | incomplete => simp [NextLine.prepend]
  | malformed => simp [NextLine.prepend]

/-- Characters that no end of line is made of. -/
abbrev Plain (l : Bytes) : Prop := ∀ c ∈ l, c ≠ cr ∧ c ≠ lf

theorem nextLine_cons (hc : c ≠ cr ∧ c ≠ lf) : nextLine (c :: bs) = (nextLine bs).prepend [c] := by
  rw [nextLine, if_neg hc.1, if_neg hc.2]

/-- Plain characters are passed over. -/
theorem nextLine_append (h : Plain line) : nextLine (line ++ bs) = (nextLine bs).prepend line := by
  induction line with
  | nil =>
    rw [List.nil_append]
    cases nextLine bs <;> rfl
  | cons c line ih =>
    obtain ⟨hc, hline⟩ := List.forall_mem_cons.mp h
    rw [List.cons_append, nextLine_cons hc, ih hline]
    cases nextLine bs <;> rfl

/-- **A complete line**, exactly. -/
theorem nextLine_eq_complete_iff :
    nextLine bs = .complete line rest ↔ bs = line ++ cr :: lf :: rest ∧ Plain line := by
  constructor
  · intro h
    induction bs generalizing line with
    | nil => cases h
    | cons c bs ih =>
      by_cases hcr : c = cr
      · rw [nextLine, if_pos hcr, afterCr_eq_complete_iff] at h
        obtain ⟨rfl, rfl⟩ := h
        exact ⟨by rw [hcr]; rfl, List.forall_mem_nil _⟩
      · by_cases hlf : c = lf
        · rw [nextLine, if_neg hcr, if_pos hlf] at h
          cases h
        · rw [nextLine_cons ⟨hcr, hlf⟩, prepend_eq_complete_iff] at h
          obtain ⟨line, hline, rfl⟩ := h
          obtain ⟨rfl, hplain⟩ := ih hline
          exact ⟨rfl, List.forall_mem_cons.mpr ⟨⟨hcr, hlf⟩, hplain⟩⟩
  · rintro ⟨rfl, hplain⟩
    have hcr : nextLine (cr :: lf :: rest) = .complete [] rest := rfl
    rw [nextLine_append hplain, hcr, NextLine.prepend, List.append_nil]

/-- A wrong end of line stays one, whatever follows. -/
theorem nextLine_malformed_append (h : nextLine bs = .malformed) :
    nextLine (bs ++ cs) = .malformed := by
  induction bs with
  | nil => cases h
  | cons c bs ih =>
    rw [List.cons_append]
    by_cases hcr : c = cr
    · rw [nextLine, if_pos hcr] at h ⊢
      cases bs with
      | nil => cases h
      | cons d bs =>
        by_cases hd : d = lf
        · simp [afterCr, hd] at h
        · simp [afterCr, hd]
    · by_cases hlf : c = lf
      · rw [nextLine, if_neg hcr, if_pos hlf]
      · rw [nextLine_cons ⟨hcr, hlf⟩] at h ⊢
        have hbs : nextLine bs = .malformed := by
          cases hn : nextLine bs with
          | malformed => rfl
          | incomplete => rw [hn] at h; cases h
          | complete l r => rw [hn] at h; cases h
        rw [ih hbs]
        rfl

theorem length_lt_of_nextLine (h : nextLine bs = .complete line rest) :
    rest.length < bs.length := by
  obtain ⟨rfl, -⟩ := nextLine_eq_complete_iff.mp h
  simp only [List.length_append, List.length_cons]
  omega

/-- What comes of some bytes: the answer, the output, and what the reader is left with. -/
structure Digest where
  answer : HttpCode
  output : List Output
  state : CheckState
  rest : Bytes

/-- More output in front. -/
def Digest.after (out : List Output) (d : Digest) : Digest := { d with output := out ++ d.output }

/-- **What the reader makes of the bytes.** -/
def digest (st : CheckState) (bs : Bytes) : Digest :=
  match _h : nextLine bs with
  | .incomplete => ⟨.noRequest, [], st, bs⟩
  | .malformed => ⟨.badRequest, [], st, bs⟩
  | .complete line rest => match judge st line with
    | (.noRequest, out, st') => (digest st' rest).after out
    | (code, out, st') => ⟨code, out, st', rest⟩
termination_by bs.length
decreasing_by exact length_lt_of_nextLine _h

theorem digest_incomplete (h : nextLine bs = .incomplete) :
    digest st bs = ⟨.noRequest, [], st, bs⟩ := by
  rw [digest]
  split <;> simp_all

theorem digest_malformed (h : nextLine bs = .malformed) :
    digest st bs = ⟨.badRequest, [], st, bs⟩ := by
  rw [digest]
  split <;> simp_all

@[simp] theorem digest_nil : digest st [] = ⟨.noRequest, [], st, []⟩ := digest_incomplete rfl

variable {out : List Output} {code : HttpCode}

/-- A line that does not settle the request. -/
theorem digest_next (h : nextLine bs = .complete line rest)
    (hj : judge st line = (.noRequest, out, st')) :
    digest st bs = (digest st' rest).after out := by
  rw [digest]
  split <;> simp_all

/-- A line that does. -/
theorem digest_settled (h : nextLine bs = .complete line rest)
    (hj : judge st line = (code, out, st')) (hcode : code ≠ .noRequest) :
    digest st bs = ⟨code, out, st', rest⟩ := by
  rw [digest]
  split <;> simp_all

/-- **Reading on.**  What follows is read where the reader was left, or not at all. -/
theorem digest_append :
    digest st (bs ++ cs) =
      if (digest st bs).answer = .noRequest then
        (digest (digest st bs).state ((digest st bs).rest ++ cs)).after (digest st bs).output
      else
        { digest st bs with rest := (digest st bs).rest ++ cs } := by
  induction hn : bs.length using Nat.strong_induction_on generalizing bs st with
  | _ k ih =>
    cases hline : nextLine bs with
    | incomplete =>
      rw [digest_incomplete hline, if_pos rfl]
      rfl
    | malformed =>
      rw [digest_malformed hline, digest_malformed (nextLine_malformed_append hline),
        if_neg (by simp)]
    | complete line rest =>
      obtain ⟨rfl, hplain⟩ := nextLine_eq_complete_iff.mp hline
      have hline' : nextLine (line ++ cr :: lf :: rest ++ cs) = .complete line (rest ++ cs) :=
        nextLine_eq_complete_iff.mpr ⟨by simp, hplain⟩
      obtain ⟨code, out, st', hj⟩ : ∃ code out st', judge st line = (code, out, st') :=
        ⟨_, _, _, rfl⟩
      by_cases hcode : code = .noRequest
      · subst hcode
        have hrest := @ih rest.length (hn ▸ length_lt_of_nextLine hline) rest st' rfl
        rw [digest_next hline hj, digest_next hline' hj, hrest]
        by_cases hopen : (digest st' rest).answer = .noRequest
        · have hafter : ((digest st' rest).after out).answer = .noRequest := hopen
          rw [if_pos hopen, if_pos hafter]
          simp [Digest.after]
        · have hafter : ((digest st' rest).after out).answer ≠ .noRequest := hopen
          rw [if_neg hopen, if_neg hafter]
          rfl
      · rw [digest_settled hline hj hcode, digest_settled hline' hj hcode, if_neg hcode]

/-! ## 2. Finding a line -/

/-- What `parse_line` has to come to when it finds `l`. -/
def Finds (b : Buffer UInt8 requestSize) (pre suf post : Bytes)
    (r : Option (LineStatus × Buffer UInt8 requestSize × ℕ)) : NextLine → Prop
  | .incomplete =>
    ∃ q, r = some (.lineOpen, b, pre.length + q) ∧ q ≤ suf.length ∧ Plain (suf.take q)
  | .malformed => ∃ i, r = some (.lineBad, b, i)
  | .complete line rest => ∃ b', r = some (.lineOk, b', pre.length + line.length + 2) ∧
      b'.cells = pre ++ line ++ 0 :: 0 :: rest ++ post

/-- What was looked at before belongs to the line. -/
theorem Finds.prepend {r : Option (LineStatus × Buffer UInt8 requestSize × ℕ)} {l : NextLine}
    {p : Bytes} (h : Finds b (pre ++ p) suf post r l) (hp : Plain p) :
    Finds b pre (p ++ suf) post r (l.prepend p) := by
  cases l with
  | incomplete =>
    obtain ⟨q, hr, hq, hplain⟩ := h
    refine ⟨p.length + q, by rw [hr, List.length_append, Nat.add_assoc], by simpa using hq, ?_⟩
    rw [List.take_length_add_append]
    exact List.forall_mem_append.mpr ⟨hp, hplain⟩
  | malformed => exact h
  | complete line rest =>
    obtain ⟨b', hr, hcells⟩ := h
    exact ⟨b', by rw [hr]; simp [Nat.add_assoc], by simpa using hcells⟩

/-- The end of a line is overwritten. -/
theorem endLine_eq (h : b.cells = pre ++ cr :: lf :: rest ++ post) :
    ∃ b', endLine b pre.length = some (.lineOk, b', pre.length + 2) ∧
      b'.cells = pre ++ 0 :: 0 :: rest ++ post := by
  have h₁ : b.cells = pre ++ cr :: (lf :: rest ++ post) := by rw [h]; simp
  obtain ⟨b₁, hstore₁, hcells₁⟩ := Buffer.store_of_cells h₁ 0
  have h₂ : b₁.cells = (pre ++ [0]) ++ lf :: (rest ++ post) := by rw [hcells₁]; simp
  obtain ⟨b₂, hstore₂, hcells₂⟩ := Buffer.store_of_cells h₂ 0
  rw [List.length_append, List.length_singleton] at hstore₂
  refine ⟨b₂, ?_, by rw [hcells₂]; simp⟩
  simp [endLine, hstore₁, hstore₂]

/-- **`parse_line` finds the next line.**  It never sees a CR behind it, so that a LF which it meets
by itself is never the second half of an end of line. -/
theorem parseLineFrom_finds (h : b.cells = pre ++ suf ++ post)
    (hread : read = pre.length + suf.length) (hpre : pre.getLast? ≠ some cr) :
    Finds b pre suf post (parseLineFrom read suf.length b pre.length) (nextLine suf) := by
  induction suf generalizing pre with
  | nil => exact ⟨0, rfl, Nat.le_refl 0, List.forall_mem_nil _⟩
  | cons c suf ih =>
    have hcells : b.cells = pre ++ c :: (suf ++ post) := by rw [h]; simp
    have hload := Buffer.load_of_cells hcells
    rw [List.length_cons] at hread
    rw [List.length_cons, parseLineFrom, hload]
    by_cases hcr : c = cr
    · subst hcr
      have hnext : nextLine (cr :: suf) = afterCr suf := rfl
      rw [hnext]
      cases suf with
      | nil => exact ⟨0, by simp [hread], Nat.zero_le _, List.forall_mem_nil _⟩
      | cons d suf =>
        have hcells₁ : b.cells = (pre ++ [cr]) ++ d :: (suf ++ post) := by rw [h]; simp
        have hload₁ := Buffer.load_of_cells hcells₁
        rw [List.length_append, List.length_singleton] at hload₁
        have hne : pre.length + 1 ≠ read := by rw [hread, List.length_cons]; omega
        by_cases hd : d = lf
        · subst hd
          have hend : b.cells = pre ++ cr :: lf :: suf ++ post := h
          obtain ⟨b', hend, hb'⟩ := endLine_eq hend
          exact ⟨b', by simp [hne, hload₁, hend], by simpa using hb'⟩
        · have hbad : afterCr (d :: suf) = .malformed := if_neg hd
          rw [hbad]
          exact ⟨pre.length, by simp [hne, hload₁, hd]⟩
    · by_cases hlf : c = lf
      · subst hlf
        have hbad : nextLine (lf :: suf) = .malformed := rfl
        rw [hbad]
        refine ⟨pre.length, ?_⟩
        rcases List.eq_nil_or_concat' pre with rfl | ⟨pre, e, rfl⟩
        · rfl
        · have he : e ≠ cr := by simpa using hpre
          have hcells₁ : b.cells = pre ++ e :: (lf :: suf ++ post) := by rw [h]; simp
          simp [hcr, Buffer.load_of_cells hcells₁, he]
      · have hcells₁ : b.cells = (pre ++ [c]) ++ suf ++ post := by rw [h]; simp
        have hread₁ : read = (pre ++ [c]).length + suf.length := by
          rw [hread, List.length_append, List.length_singleton]
          omega
        have hnext := ih hcells₁ hread₁ (by simpa using hcr)
        rw [List.length_append, List.length_singleton] at hnext
        rw [nextLine_cons ⟨hcr, hlf⟩]
        simpa [hcr, hlf] using hnext.prepend (List.forall_mem_singleton.mpr ⟨hcr, hlf⟩)

/-! ## 3. Reading a line -/

theorem splitBlank_eq_none (h : t.dropWhile (· ∉ blanks) = []) : splitBlank t = none := by
  rw [splitBlank, h]

theorem exists_splitBlank (h : t.dropWhile (· ∉ blanks) ≠ []) :
    ∃ c rest, splitBlank t = some (t.takeWhile (· ∉ blanks), rest) ∧
      t = t.takeWhile (· ∉ blanks) ++ c :: rest ∧ c ∈ blanks := by
  obtain ⟨c, rest, hdrop⟩ := List.exists_cons_of_ne_nil h
  have hc := List.head_dropWhile_not (l := t) (· ∉ blanks) h
  simp only [hdrop, List.head_cons, decide_eq_false_iff_not, not_not] at hc
  refine ⟨c, rest, by rw [splitBlank, hdrop], ?_, hc⟩
  rw [← hdrop, List.takeWhile_append_dropWhile]

/-- A path begins with a slash. -/
theorem checkPath_eq {p : ℕ} (h : b.TextAt p t) :
    (do
      let d ← b.load p
      if d = 47 then
        pure (HttpCode.noRequest, [("The request URL is: ", ← b.textFrom p)])
      else
        pure (.badRequest, [])) =
      some (if t.head? = some 47 then (.noRequest, [("The request URL is: ", t)])
        else (.badRequest, [])) := by
  rw [h.load_eq]
  cases t with
  | nil => rfl
  | cons d t =>
    by_cases hd : d = 47
    · simp [hd, h.textFrom_eq]
    · simp [hd]

/-- `parse_requestline` finds the path in the URL. -/
theorem parseUrl_eq {p : ℕ} (h : b.TextAt p t) :
    parseUrl b p = some (if (pathOf t).head? = some 47 then
      (.noRequest, [("The request URL is: ", pathOf t)]) else (.badRequest, [])) := by
  have hprefix := h.strncasecmp_eq (s := scheme) (by decide)
  rw [parseUrl, hprefix]
  by_cases hfold : EqFold (t.take 7) scheme
  · have hlen : (t.take 7).length = 7 := hfold.length_eq
    have hpath : pathOf t = (t.drop 7).dropWhile (· ≠ 47) := if_pos hfold
    have hdrop : b.TextAt (p + 7) (t.drop 7) := by
      have htext := h
      rw [← List.take_append_drop 7 t] at htext
      simpa only [hlen] using htext.drop
    have hfold' : decide (EqFold (t.take scheme.length) scheme) = true := decide_eq_true hfold
    rw [hfold', hpath]
    change (b.strchr 47 (p + 7) >>= _) = _
    rw [hdrop.strchr_eq]
    by_cases hnil : (t.drop 7).dropWhile (· ≠ 47) = []
    · rw [if_pos hnil, hnil]
      rfl
    · rw [if_neg hnil]
      exact checkPath_eq (hdrop.dropWhile (· ≠ 47))
  · have hpath : pathOf t = t := if_neg hfold
    have hfold' : decide (EqFold (t.take scheme.length) scheme) = false := decide_eq_false hfold
    rw [hfold', hpath]
    exact checkPath_eq h

/-- `parse_requestline` behind the method answers by the path, and changes the buffer only inside
the text. -/
theorem parseTarget_eq (h : b.cells = pre ++ t ++ 0 :: rest) (h0 : 0 ∉ t) :
    ∃ b' t', t'.length = t.length ∧ b'.cells = pre ++ t' ++ 0 :: rest ∧
      parseTarget b pre.length = some ((answerPath (targetPath t)).1, b',
        (answerPath (targetPath t)).2) := by
  obtain ⟨hspn, htext⟩ := (Buffer.TextAt.of_cells h h0).strspn_eq (by decide : 0 ∉ blanks)
  have ht : t = t.takeWhile (· ∈ blanks) ++ t.dropWhile (· ∈ blanks) :=
    List.takeWhile_append_dropWhile.symm
  generalize t.takeWhile (· ∈ blanks) = u₀ at hspn htext ht
  rw [targetPath]
  generalize t.dropWhile (· ∈ blanks) = u at htext ht
  subst ht
  by_cases hblank : u.dropWhile (· ∉ blanks) = []
  · refine ⟨b, u₀ ++ u, rfl, h, ?_⟩
    rw [parseTarget, hspn, splitBlank_eq_none hblank]
    change (b.strpbrk blanks (pre.length + u₀.length) >>= _) = _
    rw [htext.strpbrk_eq, if_pos hblank]
    rfl
  · obtain ⟨c, r, hsplit, hu, -⟩ := exists_splitBlank hblank
    generalize hurl : u.takeWhile (· ∉ blanks) = url at hsplit hu
    have hcells : b.cells = (pre ++ u₀) ++ url ++ c :: r ++ 0 :: rest := by
      rw [h, hu]
      simp
    have h0' : 0 ∉ url ++ c :: r := fun hmem => h0 (List.mem_append_right _ (hu ▸ hmem))
    obtain ⟨b₁, hstore, hcells₁, hpath, hr⟩ := Buffer.TextAt.cut hcells h0'
    obtain ⟨hspn₁, hversion⟩ := hr.strspn_eq (by decide : 0 ∉ blanks)
    rw [List.length_append] at hstore hpath hspn₁ hversion
    refine ⟨b₁, u₀ ++ (url ++ 0 :: r), by rw [hu]; simp, by rw [hcells₁]; simp, ?_⟩
    rw [parseTarget, hspn, hsplit]
    change (b.strpbrk blanks (pre.length + u₀.length) >>= _) = _
    rw [htext.strpbrk_eq, if_neg hblank, hurl]
    change (b.store (pre.length + u₀.length + url.length) 0 >>= _) = _
    rw [hstore]
    change (b₁.strspn blanks (pre.length + u₀.length + url.length + 1) >>= _) = _
    rw [hspn₁]
    change (b₁.strcasecmp _ version11 >>= _) = _
    rw [hversion.strcasecmp_eq (by decide)]
    by_cases hfold : EqFold (r.dropWhile (· ∈ blanks)) version11
    · rw [decide_eq_true hfold]
      change (parseUrl b₁ (pre.length + u₀.length) >>= _) = _
      rw [parseUrl_eq hpath]
      by_cases hslash : (pathOf url).head? = some 47
      · simp [hfold, hslash, answerPath]
      · simp [hslash, answerPath]
    · rw [decide_eq_false hfold]
      simp [hfold, answerPath]

/-- **`parse_requestline`** answers by the path, and changes the buffer only inside the text. -/
theorem parseRequestline_eq (h : b.cells = pre ++ t ++ 0 :: rest) (h0 : 0 ∉ t) :
    ∃ b' t', t'.length = t.length ∧ b'.cells = pre ++ t' ++ 0 :: rest ∧
      parseRequestline b pre.length = some ((answerPath (requestPath t)).1, b',
        (answerPath (requestPath t)).2) := by
  have htext := Buffer.TextAt.of_cells h h0
  by_cases hblank : t.dropWhile (· ∉ blanks) = []
  · refine ⟨b, t, rfl, h, ?_⟩
    rw [parseRequestline, htext.strpbrk_eq, if_pos hblank, requestPath, splitBlank_eq_none hblank]
    rfl
  · obtain ⟨c, r, hsplit, ht, -⟩ := exists_splitBlank hblank
    have hcells : b.cells = pre ++ t.takeWhile (· ∉ blanks) ++ c :: r ++ 0 :: rest := by
      rw [h, List.append_assoc pre _ (c :: r), ← ht]
    obtain ⟨b₁, hstore, hcells₁, hmethod, hr⟩ := Buffer.TextAt.cut hcells (ht ▸ h0)
    have hpath : requestPath t =
        if EqFold (t.takeWhile (· ∉ blanks)) methodGet then targetPath r else none := by
      rw [requestPath, hsplit]
      rfl
    have hrun : parseRequestline b pre.length =
        if EqFold (t.takeWhile (· ∉ blanks)) methodGet then
          parseTarget b₁ (pre.length + (t.takeWhile (· ∉ blanks)).length + 1)
        else
          some (.badRequest, b₁, []) := by
      rw [parseRequestline, htext.strpbrk_eq, if_neg hblank]
      change (b.store _ 0 >>= _) = _
      rw [hstore]
      change (b₁.strcasecmp pre.length methodGet >>= _) = _
      rw [hmethod.strcasecmp_eq (by decide)]
      exact ite_congr (propext decide_eq_true_iff) (fun _ => rfl) fun _ => rfl
    rw [hrun, hpath]
    by_cases hget : EqFold (t.takeWhile (· ∉ blanks)) methodGet
    · rw [if_pos hget, if_pos hget]
      have hcells₂ : b₁.cells = (pre ++ t.takeWhile (· ∉ blanks) ++ [0]) ++ r ++ 0 :: rest := by
        rw [hcells₁]
        simp
      obtain ⟨b', t', hlen, hb', htarget⟩ := parseTarget_eq hcells₂ hr.1
      refine ⟨b', t.takeWhile (· ∉ blanks) ++ 0 :: t', ?_, by rw [hb']; simp, ?_⟩
      · conv => rhs; rw [ht]
        simp [hlen]
      · rw [← htarget]
        simp [Nat.add_assoc]
    · rw [if_neg hget, if_neg hget]
      refine ⟨b₁, t.takeWhile (· ∉ blanks) ++ 0 :: r, ?_, by rw [hcells₁]; simp, rfl⟩
      conv => rhs; rw [ht]
      simp

/-- `parse_headers`. -/
theorem parseHeaders_eq {p : ℕ} (h : b.TextAt p t) : parseHeaders b p = some (answerHeader t) := by
  rw [parseHeaders, h.load_eq]
  cases t with
  | nil => rfl
  | cons c t =>
    have hc : c ≠ 0 := fun e => h.1 (by simp [e])
    change (if c = 0 then _ else _) = _
    rw [if_neg hc, h.strncasecmp_eq (by decide), answerHeader, if_neg (by simp)]
    by_cases hfold : EqFold ((c :: t).take 5) hostName
    · have hlen : ((c :: t).take 5).length = 5 := hfold.length_eq
      have hfold' : decide (EqFold ((c :: t).take hostName.length) hostName) = true :=
        decide_eq_true hfold
      have hdrop : b.TextAt (p + 5) ((c :: t).drop 5) := by
        rw [← List.take_append_drop 5 (c :: t)] at h
        simpa only [hlen] using h.drop
      obtain ⟨hspn, htext⟩ := hdrop.strspn_eq (by decide : 0 ∉ hostBlanks)
      rw [hfold', if_pos hfold]
      change (b.strspn hostBlanks (p + 5) >>= _) = _
      rw [hspn]
      change (b.textFrom _ >>= _) = _
      rw [htext.textFrom_eq]
      rfl
    · have hfold' : decide (EqFold ((c :: t).take hostName.length) hostName) = false :=
        decide_eq_false hfold
      rw [hfold', if_neg hfold]
      rfl

/-- The text of a line, and what of it is left behind its terminator. -/
theorem exists_textOf (line : Bytes) :
    ∃ u, line ++ [0, 0] = textOf line ++ 0 :: u ∧ u.getLast? = some 0 := by
  have hsplit : textOf line ++ line.dropWhile (· ≠ 0) = line := List.takeWhile_append_dropWhile
  cases hdrop : line.dropWhile (· ≠ 0) with
  | nil =>
    rw [hdrop, List.append_nil] at hsplit
    exact ⟨[0], by rw [hsplit], rfl⟩
  | cons c r =>
    have hc := List.head_dropWhile_not (l := line) (· ≠ 0) (by rw [hdrop]; simp)
    simp only [hdrop, List.head_cons, decide_eq_false_iff_not, not_not] at hc
    refine ⟨r ++ [0, 0], ?_, by simp⟩
    conv => lhs; rw [← hsplit, hdrop, hc]
    simp

/-- **A line is judged**, and the buffer behind it stays as it is. -/
theorem handleLine_eq (h : s.buffer.cells = pre ++ line ++ 0 :: 0 :: rest) :
    ∃ b' mid, mid.length = line.length + 2 ∧ mid.getLast? = some 0 ∧
      b'.cells = pre ++ mid ++ rest ∧
      s.handleLine pre.length = some ((judge s.checkstatus line).1, (judge s.checkstatus line).2.1,
        { s with buffer := b', checkstatus := (judge s.checkstatus line).2.2 }) := by
  obtain ⟨u, hu, hlast⟩ := exists_textOf line
  have h0 : 0 ∉ textOf line := fun hmem => by simpa using List.mem_takeWhile_imp hmem
  have hline : pre ++ (line ++ [0, 0]) ++ rest = pre ++ line ++ 0 :: 0 :: rest := by simp
  have hcells : s.buffer.cells = pre ++ textOf line ++ 0 :: (u ++ rest) := by
    rw [h, ← hline, hu]
    simp
  have hlength := congrArg List.length hu
  simp only [List.length_append, List.length_cons] at hlength
  unfold handleLine
  cases hst : s.checkstatus with
  | requestline =>
    obtain ⟨b', t', hlen, hb', hrun⟩ := parseRequestline_eq hcells h0
    refine ⟨b', t' ++ 0 :: u, ?_, ?_, by rw [hb']; simp, ?_⟩
    · simp only [List.length_append, List.length_cons, hlen]
      exact hlength.symm
    · simp [List.getLast?_append, List.getLast?_cons, hlast]
    · change (parseRequestline s.buffer pre.length >>= _) = _
      rw [hrun]
      rfl
  | header =>
    refine ⟨s.buffer, line ++ [0, 0], by simp, by simp, h.trans hline.symm, ?_⟩
    change (parseHeaders s.buffer pre.length >>= _) = _
    rw [parseHeaders_eq (TextAt.of_cells hcells h0), ← hst]
    simp only [judge, hst]
    rw [← hst]
    rfl

/-! ## 4. Reading the request -/

/-- The bytes `pend` have been received and not been dealt with, and the first of them have been
looked at in vain. -/
structure Pending (s : HttpReader) (pend : Bytes) : Prop where
  cells : ∃ pre post, s.buffer.cells = pre ++ pend ++ post ∧ s.startLine = pre.length ∧
    pre.getLast? ≠ some cr
  read : s.readIndex = s.startLine + pend.length
  checked : ∃ q ≤ pend.length, s.checkedIndex = s.startLine + q ∧ Plain (pend.take q)

/-- What `parse_line` finds, from the start of the line on. -/
theorem Pending.finds (h : Pending s pend) :
    ∃ pre post, s.buffer.cells = pre ++ pend ++ post ∧ s.startLine = pre.length ∧
      pre.getLast? ≠ some cr ∧
      Finds s.buffer pre pend post (parseLine s.buffer s.checkedIndex s.readIndex)
        (nextLine pend) := by
  obtain ⟨⟨pre, post, hcells, hstart, hpre⟩, hread, q, hq, hchecked, hplain⟩ := h
  refine ⟨pre, post, hcells, hstart, hpre, ?_⟩
  have hsplit : pend.take q ++ pend.drop q = pend := List.take_append_drop q pend
  have hcells₁ : s.buffer.cells = (pre ++ pend.take q) ++ pend.drop q ++ post := by
    rw [hcells, List.append_assoc pre (pend.take q), hsplit]
  have hlen : (pre ++ pend.take q).length = s.checkedIndex := by
    rw [hchecked, hstart, List.length_append, List.length_take, Nat.min_eq_left hq]
  have hread₁ : s.readIndex = (pre ++ pend.take q).length + (pend.drop q).length := by
    rw [hlen, hread, hchecked, List.length_drop]
    omega
  have hpre₁ : (pre ++ pend.take q).getLast? ≠ some cr := by
    rw [List.getLast?_append]
    cases hlast : (pend.take q).getLast? with
    | none => exact hpre
    | some c =>
      intro e
      obtain rfl := Option.some.inj e
      exact (hplain cr (List.mem_of_getLast? hlast)).1 rfl
  have hline : parseLine s.buffer s.checkedIndex s.readIndex =
      parseLineFrom s.readIndex (pend.drop q).length s.buffer (pre ++ pend.take q).length := by
    rw [parseLine, hlen, hread₁, hlen, Nat.add_sub_cancel_left]
  have hfinds := (parseLineFrom_finds hcells₁ hread₁ hpre₁).prepend hplain
  rwa [← hline, hsplit, ← nextLine_append hplain, hsplit] at hfinds

variable {fuel k : ℕ}

/-- A line that is complete is dealt with, and the next is looked for if it settles nothing. -/
theorem parseContent_lineOk (hline : parseLine s.buffer s.checkedIndex s.readIndex =
      some (.lineOk, b', k))
    (hhandle : handleLine { s with buffer := b', checkedIndex := k, startLine := k } s.startLine =
      some (code, out, s')) :
    s.parseContent (fuel + 1) =
      if code = .noRequest then
        (s'.parseContent fuel).map fun r => (r.1, out ++ r.2.1, r.2.2)
      else
        some (code, out, s') := by
  rw [parseContent, hline]
  change (handleLine _ s.startLine >>= _) = _
  rw [hhandle]
  change (if code = .noRequest then _ else _) = _
  split
  · cases s'.parseContent fuel <;> rfl
  · rfl

/-- **`parse_content` digests what is pending.** -/
theorem parseContent_eq (h : Pending s pend) (hfuel : pend.length < fuel) :
    ∃ s', s.parseContent fuel = some ((digest s.checkstatus pend).answer,
        (digest s.checkstatus pend).output, s') ∧
      ((digest s.checkstatus pend).answer = .noRequest →
        s'.checkstatus = (digest s.checkstatus pend).state ∧
        s'.readIndex = s.readIndex ∧ Pending s' (digest s.checkstatus pend).rest) := by
  induction fuel generalizing s pend with
  | zero => exact absurd hfuel (Nat.not_lt_zero _)
  | succ fuel ih =>
    obtain ⟨pre, post, hcells, hstart, hpre, hfinds⟩ := h.finds
    have hread := h.read
    cases hnext : nextLine pend with
    | incomplete =>
      obtain ⟨q, hfind, hq, hplain⟩ := hnext ▸ hfinds
      rw [parseContent, hfind, digest_incomplete hnext]
      exact ⟨_, rfl, fun _ => ⟨rfl, rfl, ⟨pre, post, hcells, hstart, hpre⟩, hread, q, hq,
        by rw [hstart], hplain⟩⟩
    | malformed =>
      obtain ⟨i, hfind⟩ := hnext ▸ hfinds
      rw [parseContent, hfind, digest_malformed hnext]
      exact ⟨_, rfl, nofun⟩
    | complete line rest =>
      obtain ⟨b', hfind, hb'⟩ := hnext ▸ hfinds
      obtain ⟨hpend, -⟩ := nextLine_eq_complete_iff.mp hnext
      obtain ⟨code, out, st', hj⟩ : ∃ code out st', judge s.checkstatus line = (code, out, st') :=
        ⟨_, _, _, rfl⟩
      have hcells₁ : b'.cells = pre ++ line ++ 0 :: 0 :: (rest ++ post) := by
        rw [hb']
        simp
      generalize hk : pre.length + line.length + 2 = k at hfind
      obtain ⟨b₂, mid, hmid, hlast, hcells₂, hhandle⟩ :=
        handleLine_eq (s := { s with buffer := b', checkedIndex := k, startLine := k }) hcells₁
      rw [← hstart] at hhandle
      have hk' : k = (pre ++ mid).length := by rw [List.length_append, hmid, ← hk, Nat.add_assoc]
      rw [parseContent_lineOk hfind hhandle, hj]
      by_cases hcode : code = .noRequest
      · subst hcode
        have hpending : Pending { s with
            buffer := b₂, checkedIndex := k, startLine := k, checkstatus := st' } rest := by
          refine ⟨⟨pre ++ mid, post, ?_, hk', ?_⟩, ?_, 0, Nat.zero_le _, rfl,
            List.forall_mem_nil _⟩
          · rw [List.append_assoc (pre ++ mid)]
            exact hcells₂
          · rw [List.getLast?_append, hlast]
            simp [cr]
          · change s.readIndex = k + rest.length
            rw [hread, hstart, hpend, hk']
            simp [hmid]
            omega
        have hrest : rest.length < fuel := by
          have := length_lt_of_nextLine hnext
          omega
        obtain ⟨s', hrun, hs'⟩ := ih hpending hrest
        rw [if_pos rfl, digest_next hnext hj]
        refine ⟨s', ?_, hs'⟩
        rw [hrun]
        rfl
      · rw [if_neg hcode, digest_settled hnext hj hcode]
        exact ⟨_, rfl, fun hno => absurd hno hcode⟩

end InternetProgramming.HttpReader
