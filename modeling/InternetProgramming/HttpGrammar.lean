/-
# The requests that the reader accepts

`IsRequestLine` and `Request` say what a request looks like, with no mention of how it is read.

* `parse_requestline` accepts the request lines, and no others (`parseRequestline_iff`).
* The server answers that it got a correct result exactly when a `Request` came in
  (`accepts_iff`).  What follows it does not matter.
* The hosts that it prints are those that were sent, unless one of them begins with a `t`, or there
  is a tab in front of it (`hosts_iff`): `"\ t"` is a space and a `t`.
-/
import InternetProgramming.HttpRequestRun

namespace InternetProgramming.HttpReader

open Interaction Interaction.Buffer

variable {bs t url path method pre rest : Bytes} {b : Buffer UInt8 requestSize} {fd : ℤ}
variable {s s' : HttpReader}

/-! ## 1. Request lines -/

/-- What a URL asks for: a path, with or without `http://` and a host in front. -/
def Names (url path : Bytes) : Prop :=
  path.head? = some 47 ∧
    (url = path ∨ ∃ start host, url = start ++ host ++ path ∧ EqFold start scheme ∧ 47 ∉ host)

/-- The method, blanks, the URL, blanks, and the version at the very end. -/
def IsRequestLine (t path : Bytes) : Prop :=
  ∃ (method gap url gap' version : Bytes) (c d : UInt8),
    t = method ++ c :: (gap ++ (url ++ d :: (gap' ++ version))) ∧
      (c ∈ blanks ∧ d ∈ blanks ∧ (∀ x ∈ gap, x ∈ blanks) ∧ ∀ x ∈ gap', x ∈ blanks) ∧
      EqFold method methodGet ∧ EqFold version version11 ∧ (∀ x ∈ url, x ∉ blanks) ∧
      Names url path

theorem pathOf_eq_iff : pathOf url = path ∧ path.head? = some 47 ↔ Names url path := by
  constructor
  · rintro ⟨hpath, hhead⟩
    refine ⟨hhead, ?_⟩
    by_cases hfold : EqFold (url.take 7) scheme
    · rw [pathOf, if_pos hfold] at hpath
      refine Or.inr ⟨url.take 7, (url.drop 7).takeWhile (· ≠ 47), ?_, hfold, fun hmem => ?_⟩
      · rw [← hpath, List.append_assoc, List.takeWhile_append_dropWhile, List.take_append_drop]
      · simpa using List.mem_takeWhile_imp hmem
    · rw [pathOf, if_neg hfold] at hpath
      exact Or.inl hpath
  · rintro ⟨hhead, rfl | ⟨start, host, rfl, hfold, hhost⟩⟩
    · refine ⟨if_neg fun hfold => ?_, hhead⟩
      cases url with
      | nil => cases hhead
      | cons c url =>
        obtain rfl : c = 47 := by simpa using hhead
        simp [scheme, ascii, toLower] at hfold
    · have hlen : start.length = 7 := hfold.length_eq
      have htake : (start ++ host ++ path).take 7 = start := by
        rw [List.append_assoc, ← hlen, List.take_left]
      have hdrop : (start ++ host ++ path).drop 7 = host ++ path := by
        rw [List.append_assoc, ← hlen, List.drop_left]
      refine ⟨?_, hhead⟩
      rw [pathOf, htake, if_pos hfold, hdrop, List.dropWhile_append_of_pos fun c hc => ?_]
      · cases path with
        | nil => cases hhead
        | cons c path =>
          obtain rfl : c = 47 := by simpa using hhead
          rfl
      · simpa using fun h : c = 47 => hhost (h ▸ hc)

theorem splitBlank_eq_some_iff : splitBlank t = some (method, rest) ↔
    ∃ c ∈ blanks, t = method ++ c :: rest ∧ ∀ x ∈ method, x ∉ blanks := by
  constructor
  · intro h
    by_cases hdrop : t.dropWhile (· ∉ blanks) = []
    · rw [splitBlank_eq_none hdrop] at h
      cases h
    · obtain ⟨c, r, hsplit, ht, hc⟩ := exists_splitBlank hdrop
      rw [hsplit, Option.some.injEq, Prod.mk.injEq] at h
      obtain ⟨hmethod, hrest⟩ := h
      refine ⟨c, hc, by rwa [hmethod, hrest] at ht, fun x hx => ?_⟩
      rw [← hmethod] at hx
      simpa using List.mem_takeWhile_imp hx
  · rintro ⟨c, hc, rfl, hmethod⟩
    have hpos : ∀ x ∈ method, decide (x ∉ blanks) = true := fun x hx =>
      decide_eq_true (hmethod x hx)
    rw [splitBlank, List.dropWhile_append_of_pos hpos, List.takeWhile_append_of_pos hpos,
      List.dropWhile_cons_of_neg (by simpa using hc),
      List.takeWhile_cons_of_neg (by simpa using hc), List.append_nil]

/-- No blank looks like a letter of the text. -/
theorem not_blank_of_eqFold {u : Bytes} (h : EqFold t u)
    (hu : ∀ x ∈ blanks, toLower x ∉ u.map toLower) : ∀ x ∈ t, x ∉ blanks := by
  intro x hx hblank
  have hmem : toLower x ∈ u.map toLower := h ▸ List.mem_map_of_mem hx
  exact hu x hblank hmem

/-- What is left when the blanks in front have been skipped. -/
theorem dropWhile_gap {p gap : Bytes} (hgap : ∀ x ∈ gap, x ∈ p)
    (hhead : ∀ c ∈ t.head?, c ∉ p) : (gap ++ t).dropWhile (· ∈ p) = t := by
  rw [List.dropWhile_append_of_pos fun x hx => decide_eq_true (hgap x hx)]
  cases t with
  | nil => rfl
  | cons c t => exact List.dropWhile_cons_of_neg (by simpa using hhead c rfl)

theorem targetPath_eq_some_iff : targetPath t = some path ↔
    ∃ (gap url gap' version : Bytes) (d : UInt8),
      t = gap ++ (url ++ d :: (gap' ++ version)) ∧
        (d ∈ blanks ∧ (∀ x ∈ gap, x ∈ blanks) ∧ ∀ x ∈ gap', x ∈ blanks) ∧
        EqFold version version11 ∧ (∀ x ∈ url, x ∉ blanks) ∧ Names url path := by
  refine Option.bind_eq_some_iff.trans ?_
  constructor
  · rintro ⟨⟨url, r⟩, hsplit, hrest⟩
    obtain ⟨d, hd, hu, hurl⟩ := splitBlank_eq_some_iff.mp hsplit
    have hrest' : (if EqFold (r.dropWhile (· ∈ blanks)) version11 ∧
        (pathOf url).head? = some 47 then some (pathOf url) else none) = some path := hrest
    rw [Option.ite_none_right_eq_some, Option.some.injEq] at hrest'
    obtain ⟨⟨hversion, hhead⟩, hpath⟩ := hrest'
    refine ⟨t.takeWhile (· ∈ blanks), url, r.takeWhile (· ∈ blanks), r.dropWhile (· ∈ blanks), d,
      ?_, ⟨hd, ?_, ?_⟩, hversion, hurl, pathOf_eq_iff.mp ⟨hpath, hpath ▸ hhead⟩⟩
    · rw [List.takeWhile_append_dropWhile, ← hu, List.takeWhile_append_dropWhile]
    · exact fun x hx => by simpa using List.mem_takeWhile_imp hx
    · exact fun x hx => by simpa using List.mem_takeWhile_imp hx
  · rintro ⟨gap, url, gap', version, d, rfl, ⟨hd, hgap, hgap'⟩, hversion, hurl, hnames⟩
    obtain ⟨hpath, hhead⟩ := pathOf_eq_iff.mpr hnames
    have hdrop : (gap ++ (url ++ d :: (gap' ++ version))).dropWhile (· ∈ blanks) =
        url ++ d :: (gap' ++ version) := by
      refine dropWhile_gap hgap fun c hc => ?_
      cases url with
      | nil =>
        have hnil : pathOf [] = [] := by decide
        rw [← hpath, hnil] at hhead
        cases hhead
      | cons c url =>
        obtain rfl := Option.mem_some.mp hc
        exact hurl c List.mem_cons_self
    have hversion' : (gap' ++ version).dropWhile (· ∈ blanks) = version :=
      dropWhile_gap hgap' fun c hc =>
        not_blank_of_eqFold hversion (by decide +kernel) c (List.mem_of_mem_head? hc)
    refine ⟨(url, gap' ++ version), ?_, ?_⟩
    · rw [hdrop]
      exact splitBlank_eq_some_iff.mpr ⟨d, hd, rfl, hurl⟩
    · change (if EqFold ((gap' ++ version).dropWhile (· ∈ blanks)) version11 ∧
        (pathOf url).head? = some 47 then some (pathOf url) else none) = some path
      rw [hversion', if_pos ⟨hversion, hpath ▸ hhead⟩, hpath]

theorem requestPath_eq_some_iff : requestPath t = some path ↔ IsRequestLine t path := by
  refine Option.bind_eq_some_iff.trans ?_
  constructor
  · rintro ⟨⟨method, r⟩, hsplit, hrest⟩
    obtain ⟨c, hc, rfl, -⟩ := splitBlank_eq_some_iff.mp hsplit
    have hrest' : (if EqFold method methodGet then targetPath r else none) = some path := hrest
    rw [Option.ite_none_right_eq_some] at hrest'
    obtain ⟨hmethod, htarget⟩ := hrest'
    obtain ⟨gap, url, gap', version, d, rfl, ⟨hd, hgap, hgap'⟩, hrest⟩ :=
      targetPath_eq_some_iff.mp htarget
    exact ⟨method, gap, url, gap', version, c, d, rfl, ⟨hc, hd, hgap, hgap'⟩, hmethod, hrest⟩
  · rintro ⟨method, gap, url, gap', version, c, d, rfl, ⟨hc, hd, hgap, hgap'⟩, hmethod, hrest⟩
    refine ⟨(method, _), splitBlank_eq_some_iff.mpr
      ⟨c, hc, rfl, not_blank_of_eqFold hmethod (by decide +kernel)⟩, ?_⟩
    change (if EqFold method methodGet then _ else _) = _
    rw [if_pos hmethod]
    exact targetPath_eq_some_iff.mpr
      ⟨gap, url, gap', version, d, rfl, ⟨hd, hgap, hgap'⟩, hrest⟩

/-- **`parse_requestline` accepts the request lines**, and reports the path that each asks for. -/
theorem parseRequestline_iff (h : b.cells = pre ++ t ++ 0 :: rest) (h0 : 0 ∉ t) :
    ∃ code b' out, parseRequestline b pre.length = some (code, b', out) ∧
      (∀ path, code = .noRequest ∧ out = [("The request URL is: ", path)] ↔
        IsRequestLine t path) ∧
      (code = .badRequest ∧ out = [] ↔ ¬ ∃ path, IsRequestLine t path) := by
  obtain ⟨b', t', -, -, hrun⟩ := parseRequestline_eq h h0
  refine ⟨_, b', _, hrun, ?_⟩
  simp only [← requestPath_eq_some_iff]
  cases requestPath t with
  | none => simp [answerPath]
  | some path => simp [answerPath]

/-- A buffer that holds the short line. -/
theorem parseRequestline_iff_short : ∃ code b' out,
    parseRequestline ((Buffer.replicate requestSize 0).write shortLine) 0 = some (code, b', out) ∧
      (code = .noRequest ∧ out = [("The request URL is: ", [47])] ↔
        IsRequestLine shortLine [47]) := by
  have hcells : ((Buffer.replicate requestSize (0 : UInt8)).write shortLine).cells =
      [] ++ shortLine ++ 0 :: List.replicate (requestSize - 15) 0 := by
    rw [Buffer.write_cells (by decide)]
    exact congrArg _ (List.drop_replicate ..)
  obtain ⟨code, b', out, hrun, hiff, -⟩ := parseRequestline_iff hcells (by decide)
  exact ⟨code, b', out, hrun, hiff [47]⟩

/-! ## 2. Requests -/

def crlf : Bytes := [cr, lf]

/-- **A request**: a request line that asks for `path`, headers, and a line with no text.  The text
of a line ends at its first zero byte. -/
structure Request where
  line : Bytes
  path : Bytes
  headers : List Bytes
  last : Bytes
  line_plain : Plain line
  asks : IsRequestLine (textOf line) path
  headers_plain : ∀ l ∈ headers, Plain l ∧ textOf l ≠ []
  last_plain : Plain last
  last_empty : textOf last = []

/-- Some lines, each with its end. -/
def withEnds (lines : List Bytes) : Bytes := lines.flatMap (· ++ crlf)

def Request.bytes (q : Request) : Bytes :=
  q.line ++ crlf ++ withEnds q.headers ++ q.last ++ crlf

/-- What is printed about a header. -/
def shown (l : Bytes) : List Output := (answerHeader (textOf l)).2

theorem answerHeader_of_ne_nil (ht : t ≠ []) :
    answerHeader t = (.noRequest, (answerHeader t).2) := by
  unfold answerHeader
  rw [if_neg ht]
  split <;> rfl

/-- Headers are taken one after the other. -/
theorem digest_headers {headers : List Bytes} (h : ∀ l ∈ headers, Plain l ∧ textOf l ≠ []) :
    digest .header (withEnds headers ++ bs) =
      (digest .header bs).after (headers.flatMap shown) := by
  induction headers with
  | nil => rfl
  | cons l headers ih =>
    obtain ⟨⟨hplain, htext⟩, hheaders⟩ := List.forall_mem_cons.mp h
    have hnext : nextLine (withEnds (l :: headers) ++ bs) = .complete l (withEnds headers ++ bs) :=
      nextLine_eq_complete_iff.mpr ⟨by simp [withEnds, crlf], hplain⟩
    have hjudge : judge .header l = (.noRequest, shown l, .header) := by
      rw [judge, answerHeader_of_ne_nil htext]
      rfl
    rw [digest_next hnext hjudge, ih hheaders, List.flatMap_cons]
    simp [Digest.after]

/-- The headers come to an end with a line that has no text. -/
theorem exists_headers (h : (digest .header bs).answer = .getRequest) :
    ∃ headers last rest, bs = withEnds headers ++ last ++ crlf ++ rest ∧
      (∀ l ∈ headers, Plain l ∧ textOf l ≠ []) ∧ Plain last ∧ textOf last = [] := by
  induction hn : bs.length using Nat.strong_induction_on generalizing bs with
  | _ k ih =>
    cases hline : nextLine bs with
    | incomplete =>
      rw [digest_incomplete hline] at h
      cases h
    | malformed =>
      rw [digest_malformed hline] at h
      cases h
    | complete line rest =>
      obtain ⟨hbs, hplain⟩ := nextLine_eq_complete_iff.mp hline
      by_cases htext : textOf line = []
      · exact ⟨[], line, rest, by rw [hbs]; simp [withEnds, crlf], List.forall_mem_nil _, hplain,
          htext⟩
      · have hjudge : judge .header line = (.noRequest, shown line, .header) := by
          rw [judge, answerHeader_of_ne_nil htext]
          rfl
        rw [digest_next hline hjudge] at h
        obtain ⟨headers, last, rest', hrest, hheaders, hlast⟩ :=
          ih rest.length (hn ▸ length_lt_of_nextLine hline) h rfl
        refine ⟨line :: headers, last, rest', ?_,
          List.forall_mem_cons.mpr ⟨⟨hplain, htext⟩, hheaders⟩, hlast⟩
        rw [hbs, hrest]
        simp [withEnds, crlf]

/-- What a request comes to. -/
theorem Request.digest_eq (q : Request) (rest : Bytes) :
    ∃ rest', digest .requestline (q.bytes ++ rest) =
    ⟨.getRequest, ("The request URL is: ", q.path) :: q.headers.flatMap shown, .header, rest'⟩ := by
  have hbytes : q.bytes ++ rest =
      q.line ++ cr :: lf :: (withEnds q.headers ++ (q.last ++ cr :: lf :: rest)) := by
    simp [Request.bytes, crlf]
  have hnext := nextLine_eq_complete_iff.mpr ⟨hbytes, q.line_plain⟩
  have hlast : nextLine (q.last ++ cr :: lf :: rest) = .complete q.last rest :=
    nextLine_eq_complete_iff.mpr ⟨rfl, q.last_plain⟩
  have hpath : judge .requestline q.line =
      (.noRequest, [("The request URL is: ", q.path)], .header) := by
    rw [judge, requestPath_eq_some_iff.mpr q.asks]
    rfl
  have hempty : judge .header q.last = (.getRequest, [], .header) := by
    rw [judge, q.last_empty]
    rfl
  rw [digest_next hnext hpath, digest_headers q.headers_plain,
    digest_settled hlast hempty (by decide)]
  exact ⟨rest, by simp [Digest.after]⟩

/-- The bytes that come to a request begin with one. -/
theorem digest_getRequest_iff :
    (digest .requestline bs).answer = .getRequest ↔ ∃ q : Request, q.bytes <+: bs := by
  constructor
  · intro h
    cases hline : nextLine bs with
    | incomplete =>
      rw [digest_incomplete hline] at h
      cases h
    | malformed =>
      rw [digest_malformed hline] at h
      cases h
    | complete line rest =>
      obtain ⟨hbs, hplain⟩ := nextLine_eq_complete_iff.mp hline
      cases hpath : requestPath (textOf line) with
      | none =>
        have hjudge : judge .requestline line = (.badRequest, [], .requestline) := by
          rw [judge, hpath]
          rfl
        rw [digest_settled hline hjudge (by decide)] at h
        cases h
      | some path =>
        have hjudge : judge .requestline line =
            (.noRequest, [("The request URL is: ", path)], .header) := by
          rw [judge, hpath]
          rfl
        rw [digest_next hline hjudge] at h
        obtain ⟨headers, last, rest', hrest, hheaders, hlast, hempty⟩ := exists_headers h
        refine ⟨⟨line, path, headers, last, hplain, requestPath_eq_some_iff.mp hpath, hheaders,
          hlast, hempty⟩, rest', ?_⟩
        rw [hbs, hrest]
        simp [Request.bytes, crlf]
  · rintro ⟨q, rest, rfl⟩
    obtain ⟨_, hdigest⟩ := q.digest_eq rest
    rw [hdigest]

theorem answers_eq_getRequest_iff {code : HttpCode} :
    answers code = [szret .getRequest] ↔ code = .getRequest := by
  cases code <;> decide

/-- **The requests that are answered as correct** are the ones that begin with a request. -/
theorem accepts_iff {h : List Round} (hl : LoopRun (round fd) {} h s') :
    sends (traceOf h) = [szret .getRequest] ↔ ∃ q : Request, q.bytes <+: incoming (traceOf h) := by
  rw [(run_digests hl).2.1, answers_eq_getRequest_iff, digest_getRequest_iff]

/-- The short line, and no headers. -/
def bareRequest : Request where
  line := shortLine
  path := [47]
  headers := []
  last := []
  line_plain := by decide +kernel
  asks := requestPath_eq_some_iff.mp (by decide)
  headers_plain := List.forall_mem_nil _
  last_plain := List.forall_mem_nil _
  last_empty := rfl

/-- It is accepted, although it was cut in two. -/
theorem accepts_iff_short : ∃ (h : List Round) (s' : HttpReader), LoopRun (round 4) {} h s' ∧
    receipts (traceOf h) = [shortLine ++ [cr], [lf, cr, lf]] ∧
    sends (traceOf h) = [szret .getRequest] := by
  obtain ⟨h, s', hl, hreceipts⟩ := exists_cutRun
  refine ⟨h, s', hl, hreceipts, (accepts_iff hl).mpr ⟨bareRequest, [], ?_⟩⟩
  rw [incoming, hreceipts]
  rfl

/-! ## 3. Hosts -/

/-- What stands behind `Host:`. -/
def hostField (l : Bytes) : Option Bytes :=
  if EqFold ((textOf l).take 5) hostName then some ((textOf l).drop 5) else none

/-- The hosts that a request names, without the blanks in front. -/
def Request.hosts (q : Request) : List Bytes :=
  (q.headers.filterMap hostField).map fun v => v.dropWhile (· ∈ blanks)

/-- What is printed of them. -/
def Request.shownHosts (q : Request) : List Bytes :=
  (q.headers.filterMap hostField).map fun v => v.dropWhile (· ∈ hostBlanks)

theorem flatMap_shown {headers : List Bytes} : headers.flatMap shown =
    (headers.filterMap hostField).map
      fun v => ("The request host is: ", v.dropWhile (· ∈ hostBlanks)) := by
  induction headers with
  | nil => rfl
  | cons l headers ih =>
    have hshown : shown l = ((hostField l).map
        fun v => ("The request host is: ", v.dropWhile (· ∈ hostBlanks))).toList := by
      unfold shown answerHeader hostField
      by_cases hnil : textOf l = []
      · rw [hnil]
        rfl
      · rw [if_neg hnil]
        split <;> rfl
    rw [List.flatMap_cons, ih, hshown, List.filterMap_cons]
    cases hostField l <;> rfl

/-- What is printed when a request came in. -/
theorem printed_request {h : List Round} (hl : LoopRun (round fd) {} h s') {q : Request}
    (hq : q.bytes <+: incoming (traceOf h)) :
    printed (traceOf h) = ("The request URL is: ", q.path) ::
      q.shownHosts.map fun v => ("The request host is: ", v) := by
  obtain ⟨rest, hrest⟩ := hq
  obtain ⟨_, hdigest⟩ := q.digest_eq rest
  rw [(run_digests hl).1, ← hrest, hdigest, flatMap_shown, Request.shownHosts, List.map_map]
  rfl

/-- When skipping spaces and `t`s is skipping spaces and tabs. -/
theorem dropWhile_hostBlanks_iff {v : Bytes} :
    v.dropWhile (· ∈ hostBlanks) = v.dropWhile (· ∈ blanks) ↔
      ∀ c ∈ (v.dropWhile (· = 32)).head?, c ≠ 116 ∧ c ≠ 9 := by
  have hhost (c : UInt8) : c ∈ hostBlanks ↔ c = 32 ∨ c = 116 := by
    rw [show hostBlanks = [32, 116] by decide]
    simp
  have hblanks (c : UInt8) : c ∈ blanks ↔ c = 32 ∨ c = 9 := by
    rw [show blanks = [32, 9] by decide]
    simp
  simp only [hhost, hblanks]
  induction v with
  | nil => simp
  | cons c v ih =>
    by_cases hspace : c = 32
    · subst hspace
      rw [List.dropWhile_cons_of_pos (by decide), List.dropWhile_cons_of_pos (by decide),
        List.dropWhile_cons_of_pos (by decide)]
      exact ih
    · have hlen (p : UInt8 → Bool) : v.dropWhile p ≠ c :: v := fun h => by
        have hle := (List.dropWhile_sublist p (l := v)).length_le
        rw [h, List.length_cons] at hle
        omega
      have hright : (∀ d ∈ ((c :: v).dropWhile (· = 32)).head?, d ≠ 116 ∧ d ≠ 9) ↔
          c ≠ 116 ∧ c ≠ 9 := by
        rw [List.dropWhile_cons_of_neg (by simpa using hspace)]
        simp
      rw [hright]
      constructor
      · refine fun h => ⟨?_, ?_⟩
        · rintro rfl
          rw [List.dropWhile_cons_of_pos (by decide), List.dropWhile_cons_of_neg (by decide)] at h
          exact hlen _ h
        · rintro rfl
          rw [List.dropWhile_cons_of_neg (by decide), List.dropWhile_cons_of_pos (by decide)] at h
          exact hlen _ h.symm
      · rintro ⟨ht, htab⟩
        rw [List.dropWhile_cons_of_neg (by simp [hspace, ht]),
          List.dropWhile_cons_of_neg (by simp [hspace, htab])]

/-- **The hosts that are printed** are those that were sent if and only if behind the spaces none
begins with a `t`, or with a tab. -/
theorem hosts_iff {h : List Round} (hl : LoopRun (round fd) {} h s') {q : Request}
    (hq : q.bytes <+: incoming (traceOf h)) :
    printed (traceOf h) = ("The request URL is: ", q.path) ::
        q.hosts.map (fun v => ("The request host is: ", v)) ↔
      ∀ v ∈ q.headers.filterMap hostField, ∀ c ∈ (v.dropWhile (· = 32)).head?, c ≠ 116 ∧ c ≠ 9 := by
  have hinj : Function.Injective fun v : Bytes => ("The request host is: ", v) := fun _ _ h =>
    (Prod.mk.inj h).2
  rw [printed_request hl hq, List.cons_inj_right, (List.map_injective_iff.mpr hinj).eq_iff,
    Request.shownHosts, Request.hosts, List.map_inj_left]
  simp only [dropWhile_hostBlanks_iff]

/-- `Host: tea` -/
def teaHeader : Bytes := ascii ['H', 'o', 's', 't', ':', ' ', 't', 'e', 'a']

/-- A request for the host `tea`. -/
def teaRequest : Request :=
  { bareRequest with
    headers := [teaHeader]
    headers_plain := List.forall_mem_singleton.mpr (by decide +kernel) }

/-- The host `tea` is not what is printed. -/
theorem hosts_iff_tea : ∃ (h : List Round) (s' : HttpReader), LoopRun (round 4) {} h s' ∧
    receipts (traceOf h) = [teaRequest.bytes] ∧
    printed (traceOf h) ≠ ("The request URL is: ", [47]) ::
      teaRequest.hosts.map (fun v => ("The request host is: ", v)) := by
  obtain ⟨h, s', hl, hreceipts⟩ := reads_start.exists_loopRun 4 [teaRequest.bytes]
    (by decide) (by decide) fun i hi => by
      obtain rfl : i = 0 := Nat.lt_one_iff.mp hi
      exact congrArg Digest.answer digest_nil
  have hincoming : incoming (traceOf h) = teaRequest.bytes := by
    rw [incoming, hreceipts, List.flatten_singleton]
  have hpre : teaRequest.bytes <+: incoming (traceOf h) := hincoming.symm ▸ List.prefix_rfl
  refine ⟨h, s', hl, hreceipts, fun hprinted => ?_⟩
  have hall := (hosts_iff hl hpre).mp hprinted
  exact absurd (hall [32, 116, 101, 97] (by decide)) (by decide +kernel)

end InternetProgramming.HttpReader
