/-
# Reading an HTTP request: `server.c`

The server of directory 9 accepts one client and reads its request in pieces, as they arrive.
Two state machines share a buffer of 4096 bytes: `parse_line` looks for the next line that is
complete, and `parse_content` takes the lines in turn, the request line first and then the headers.
An empty line ends the request.

The functions are translated with their indices and with the terminators that they write into the
buffer.  An access outside the buffer is `none`.  What they come to is in `HttpRequestSpec`.

Not modelled: the set-up before `accept`, and output of fixed texts.
-/
import InternetProgramming.Interaction.CString
import InternetProgramming.Posix

namespace InternetProgramming

open Interaction

/-- `BUFFER_SIZE`. -/
def requestSize : ℕ := 4096

/-- A text of ASCII characters. -/
def ascii (s : List Char) : Bytes := s.map fun c => UInt8.ofNat c.toNat

inductive CheckState where
  | requestline
  | header
deriving DecidableEq

inductive LineStatus where
  | lineOk
  | lineBad
  | lineOpen
deriving DecidableEq

/-- `HTTP_CODE`, with the codes that nothing returns left out. -/
inductive HttpCode where
  | noRequest
  | getRequest
  | badRequest
deriving DecidableEq

/-- What the loop in `main` keeps. -/
structure HttpReader where
  buffer : Buffer UInt8 requestSize := .replicate requestSize 0
  readIndex : ℕ := 0
  checkedIndex : ℕ := 0
  startLine : ℕ := 0
  checkstatus : CheckState := .requestline

/-- Output that reads the buffer: a fixed label, then the text. -/
abbrev Output := String × Bytes

/-- `szret`. -/
def szret (code : HttpCode) : Bytes :=
  if code = .getRequest then
    ascii ['I', ' ', 'g', 'e', 't', ' ', 'a', ' ', 'c', 'o', 'r', 'r', 'e', 'c', 't', ' ', 'r', 'e',
      's', 'u', 'l', 't', '\n']
  else
    ascii ['S', 'o', 'm', 'e', 't', 'h', 'i', 'n', 'g', ' ', 'w', 'r', 'o', 'n', 'g', '\n']

namespace HttpReader

def cr : UInt8 := 13
def lf : UInt8 := 10

/-- `" \t"`, and what `"\ t"` is. -/
def blanks : Bytes := ascii [' ', '\t']
def hostBlanks : Bytes := ascii [' ', 't']

def methodGet : Bytes := ascii ['G', 'E', 'T']
def version11 : Bytes := ascii ['H', 'T', 'T', 'P', '/', '1', '.', '1']
def scheme : Bytes := ascii ['h', 't', 't', 'p', ':', '/', '/']
def hostName : Bytes := ascii ['H', 'o', 's', 't', ':']

/-! ## 1. Lines -/

/-- The two characters at the end of a line are overwritten. -/
def endLine (b : Buffer UInt8 requestSize) (i : ℕ) :
    Option (LineStatus × Buffer UInt8 requestSize × ℕ) := do
  let b ← b.store i 0
  let b ← b.store (i + 1) 0
  pure (.lineOk, b, i + 2)

/-- `parse_line`, from `checked_index = i` on, with `k` characters left. -/
def parseLineFrom (readIndex : ℕ) : ℕ → Buffer UInt8 requestSize → ℕ →
    Option (LineStatus × Buffer UInt8 requestSize × ℕ)
  | 0, b, i => pure (.lineOpen, b, i)
  | k + 1, b, i => do
    let temp ← b.load i
    if temp = cr then
      if i + 1 = readIndex then
        pure (.lineOpen, b, i)
      else
        let next ← b.load (i + 1)
        if next = lf then endLine b i else pure (.lineBad, b, i)
    else if temp = lf then
      if 1 < i then
        let last ← b.load (i - 1)
        if last = cr then endLine b i else pure (.lineBad, b, i)
      else
        pure (.lineBad, b, i)
    else
      parseLineFrom readIndex k b (i + 1)

/-- `parse_line`. -/
def parseLine (b : Buffer UInt8 requestSize) (checkedIndex readIndex : ℕ) :
    Option (LineStatus × Buffer UInt8 requestSize × ℕ) :=
  parseLineFrom readIndex (readIndex - checkedIndex) b checkedIndex

/-! ## 2. What a line says -/

/-- The end of `parse_requestline`: the URL. -/
def parseUrl (b : Buffer UInt8 requestSize) (url : ℕ) : Option (HttpCode × List Output) := do
  let url ← if ← b.strncasecmp url scheme then
      b.strchr 47 (url + 7)
    else
      pure (some url)
  match url with
  | none => pure (.badRequest, [])
  | some url =>
    if (← b.load url) = 47 then
      pure (.noRequest, [("The request URL is: ", ← b.textFrom url)])
    else
      pure (.badRequest, [])

/-- `parse_requestline` behind the method: the URL and the version. -/
def parseTarget (b : Buffer UInt8 requestSize) (url : ℕ) :
    Option (HttpCode × Buffer UInt8 requestSize × List Output) := do
  let url := url + (← b.strspn blanks url)
  match ← b.strpbrk blanks url with
  | none => pure (.badRequest, b, [])
  | some version =>
    let b ← b.store version 0
    let version := version + 1
    let version := version + (← b.strspn blanks version)
    if ← b.strcasecmp version version11 then
      let (code, out) ← parseUrl b url
      pure (code, b, out)
    else
      pure (.badRequest, b, [])

/-- `parse_requestline`, without `checkstate`. -/
def parseRequestline (b : Buffer UInt8 requestSize) (temp : ℕ) :
    Option (HttpCode × Buffer UInt8 requestSize × List Output) := do
  match ← b.strpbrk blanks temp with
  | none => pure (.badRequest, b, [])
  | some url =>
    let b ← b.store url 0
    if ← b.strcasecmp temp methodGet then
      parseTarget b (url + 1)
    else
      pure (.badRequest, b, [])

/-- `parse_headers`. -/
def parseHeaders (b : Buffer UInt8 requestSize) (temp : ℕ) : Option (HttpCode × List Output) := do
  if (← b.load temp) = 0 then
    pure (.getRequest, [])
  else if ← b.strncasecmp temp hostName then
    let temp := temp + 5
    let temp := temp + (← b.strspn hostBlanks temp)
    pure (.noRequest, [("The request host is: ", ← b.textFrom temp)])
  else
    pure (.noRequest, [])

/-! ## 3. The request -/

/-- One line, as the `switch` in `parse_content` deals with it.  `parse_requestline` sets
`checkstate` where it returns `NO_REQUEST`. -/
def handleLine (s : HttpReader) (temp : ℕ) : Option (HttpCode × List Output × HttpReader) :=
  match s.checkstatus with
  | .requestline => do
    let (code, b, out) ← parseRequestline s.buffer temp
    let checkstatus := if code = .noRequest then .header else s.checkstatus
    pure (code, out, { s with buffer := b, checkstatus })
  | .header => do
    let (code, out) ← parseHeaders s.buffer temp
    pure (code, out, s)

/-- `parse_content`.  Each round takes a line, so that there are fewer rounds than characters. -/
def parseContent : ℕ → HttpReader → Option (HttpCode × List Output × HttpReader)
  | 0, _ => none
  | fuel + 1, s => do
    let (linestatus, buffer, checkedIndex) ← parseLine s.buffer s.checkedIndex s.readIndex
    let s := { s with buffer, checkedIndex }
    match linestatus with
    | .lineOpen => pure (.noRequest, [], s)
    | .lineBad => pure (.badRequest, [], s)
    | .lineOk =>
      let temp := s.startLine
      let (code, out, s) ← handleLine { s with startLine := s.checkedIndex } temp
      if code = .noRequest then
        let (code, out', s) ← parseContent fuel s
        pure (code, out ++ out', s)
      else
        pure (code, out, s)

/-- A block of bytes that `recv` has stored behind the ones that were read before. -/
def received (s : HttpReader) (data : Bytes) : HttpReader :=
  { s with
    buffer := s.buffer.writeAt s.readIndex data
    readIndex := s.readIndex + data.length }

/-! ## 4. The loop in `main` -/

/-- Why the loop is left. -/
inductive Left where
  | readFailed
  | closed
  | answered
  /-- The buffer was left, which C does not define. -/
  | outside
deriving DecidableEq

/-- The end of a round: the answer, if there is one. -/
def finish (fd : ℤ) (result : HttpCode) : Meth Sys Sys.Ret Left HttpReader Unit :=
  if result = .noRequest then
    pure ()
  else do
    let _ ← liftM (sys (.send fd (szret result)))
    throw .answered

/-- What is done with a block. -/
def take (fd : ℤ) (data : Bytes) : Meth Sys Sys.Ret Left HttpReader Unit := do
  let s ← get
  match (s.received data).parseContent (requestSize + 1) with
  | none => throw .outside
  | some (result, out, s) => do
    modify fun _ => s
    out.forM fun o => liftM (sys (.cout o.1 o.2))
    finish fd result

/-- `while(1)` in `main`: one round. -/
def round (fd : ℤ) : Meth Sys Sys.Ret Left HttpReader Unit := do
  let s ← get
  let r ← liftM (sys (.recv fd (requestSize - s.readIndex)))
  match r with
  | .failed => throw .readFailed
  | .received data _ => if data = [] then throw .closed else take fd data

end HttpReader

end InternetProgramming
