import Esp31b.Arguments
import Esp31b.Block
import Esp31b.UploadFile

/-!
# Parsing a request

`_parseRequest` reads the request line and the header with timed reads, line
by line. What it does with a body depends on the method and the type: a form
is read part by part (`parseForm`), anything else is taken to be plain, and
there the body is what has arrived by the time it is looked for – with some
patience for the first byte, and none for the others.

The arguments of a form are collected in an array of 32 entries. Where one more
is written behind it the parser has no result.

The header is read by two loops that differ in how they cut the value of a
field, and in what they look for; `headerTurn` is what they share.
-/

/-- An argument assigned to a new one, by `strcpy`. -/
def RequestArgument.copied (a : RequestArgument) : RequestArgument :=
  ⟨a.key.cleared, a.value.cleared⟩

namespace ESP31BWebServer

/-- `client.readStringUntil('\r'); client.readStringUntil('\n');`. -/
def readLine (l : Link) : WString × Link :=
  let (line, l) := l.readStringUntil 0x0D
  (line, (l.readStringUntil 0x0A).2)

/-! ## Forms -/

/-- The first line of a form, in at most so many tries. -/
def firstLine : ℕ → Link → WString × Link
  | 0, l => ([], l)
  | n + 1, l =>
    let (line, l) := l.readStringUntil 0x0D
    if line.length = 0 ∧ 0 < n then firstLine n l else (line, l)

/-- The name and, for a file, the file name in a `Content-Disposition` line. -/
def partName (s : ESP31BWebServer) (argName : WString) : WString × Option WString :=
  let nameStart := argName.indexOf 0x3D 0
  if nameStart = -1 then (argName.substring 0 (WString.pos (argName.length - 1)), none)
  else
    let argFilename :=
      argName.substring (WString.pos (nameStart + 2)) (WString.pos (argName.length - 1))
    let argName := argName.substring 0 (WString.pos (argName.indexOf 0x22 0))
    let argFilename :=
      if argFilename.equalsC (ascii "blob") && s.hasArg (ascii "filename") then
        s.arg (ascii "filename")
      else argFilename
    (argName, some argFilename)

/-- A turn of the loop over the lines of a value. It is left with the value
and the line that ends it. -/
def valueTurn (boundary : WString) (s : WString × Link) :
    WString × Link ⊕ WString × WString × Link :=
  let (argValue, l) := s
  let (line, l) := readLine l
  if line.startsWith (ascii "--" ++ boundary) then .inr (argValue, line, l)
  else .inl ((if argValue.length > 0 then argValue ++ [0x0A] else argValue) ++ line.cleared, l)

/-- The variables of the loop over the parts. -/
structure FormState where
  server : ESP31BWebServer
  link : Link
  postArgs : List RequestArgument
  postArgsLen : ℕ

/-- `RequestArgument* postArgs = new RequestArgument[32]; int postArgsLen = 0;`. -/
def FormState.start (s : ESP31BWebServer) (l : Link) : FormState :=
  ⟨s, l, List.replicate 32 ⟨[], []⟩, 0⟩

/-- `RequestArgument& arg = postArgs[postArgsLen++];` and the two assignments. -/
def FormState.addArg (f : FormState) (a : RequestArgument) : Option FormState :=
  (Block.set f.postArgs f.postArgsLen a.copied).map fun args =>
    { f with postArgs := args, postArgsLen := f.postArgsLen + 1 }

/-- The query's arguments are taken over. In the array there is room for at least
none, so the difference is not negative. -/
def FormState.mergeArgs (f : FormState) : Option FormState :=
  (f.server.currentArgs.take (32 - f.postArgsLen)).foldlM FormState.addArg f

theorem FormState.server_of_addArg {f f' : FormState} {a : RequestArgument}
    (h : f.addArg a = some f') :
    f'.server = f.server := by
  obtain ⟨args, -, rfl⟩ := Option.map_eq_some_iff.mp h
  rfl

theorem FormState.server_of_mergeArgs {f f' : FormState} (h : f.mergeArgs = some f') :
    f'.server = f.server := by
  unfold FormState.mergeArgs at h
  generalize f.server.currentArgs.take (32 - f.postArgsLen) = args at h
  induction args generalizing f with
  | nil =>
    obtain rfl : f = f' := Option.some.inj h
    rfl
  | cons a args ih =>
    rw [List.foldlM_cons] at h
    obtain ⟨g, hadd, hrest⟩ := Option.bind_eq_some_iff.mp h
    exact (ih hrest).trans (server_of_addArg hadd)

/-- A turn of the loop over the parts. It is left with whether the form was
read to its end, or by a write behind `postArgs`. What the file branch finds on
the stack is as in `uploadTurnOn`. -/
def formTurnOn (found : UploadState → List UInt8 → Bool) (left : UploadState → List UInt8)
    (boundary : WString) (f : FormState) : Fueled (FormState ⊕ Option (Bool × FormState)) := do
  let (line, l) := readLine f.link
  let nameStart := line.indexOf 0x3D 0
  if !line.startsWith (ascii "Content-Disposition") || nameStart = -1 then
    return .inl { f with link := l }
  let (argName, argFilename) :=
    f.server.partName (line.substring (WString.pos (nameStart + 2)) line.length)
  let (line, l) := readLine l
  let (argType, l) :=
    if line.startsWith (ascii "Content-Type") then
      (line.substring (WString.pos (line.indexOf 0x3A 0 + 2)) line.length, (readLine l).2)
    else (ascii "text/plain", l)
  match argFilename with
  | none =>
    let (argValue, line, l) ← Fueled.loop (fun s => pure (valueTurn boundary s)) ([], l)
    match FormState.addArg { f with link := l } ⟨argName, argValue⟩ with
    | none => return .inr none
    | some f =>
      return if line.equals (ascii "--" ++ boundary ++ ascii "--") then .inr (some (true, f))
        else .inl f
  | some argFilename =>
    let (ok, s, l) ← uploadFileOn found left boundary argName argFilename argType f.server l
    if !ok then return .inr (some (false, { f with server := s, link := l }))
    let (line, l) := readLine l
    let f := { f with server := s, link := l }
    return if line.equalsC (ascii "--") then .inr (some (true, f)) else .inl f

/-- The same with `strstr`, as `uploadTurnStrstr`. -/
def formTurn (boundary : WString) (stack : StackMemory) (f : FormState) :
    Fueled (FormState ⊕ Option (Bool × FormState)) :=
  formTurnOn (foundOn stack boundary) (leftOn stack) boundary f

/-- **`_parseForm`**, or `none` where it writes behind `postArgs`. The arguments of
the form come before those of the query. -/
def parseFormArrayOn (found : UploadState → List UInt8 → Bool) (left : UploadState → List UInt8)
    (boundary : WString) (s : ESP31BWebServer) (l : Link) :
    Fueled (Option (Bool × ESP31BWebServer × Link)) := do
  let (line, l) := firstLine 3 l
  let (_, l) := l.readStringUntil 0x0A
  if line.equals (ascii "--" ++ boundary) then
    match ← Fueled.loop (formTurnOn found left boundary) (FormState.start s l) with
    | none => return none
    | some (ok, f) =>
      if !ok then return some (false, f.server, f.link)
      match f.mergeArgs with
      | none => return none
      | some f =>
        let args := (f.postArgs.take f.postArgsLen).map RequestArgument.copied
        return some (true, { f.server with currentArgs := args }, f.link)
  else return some (false, s, l)

/-- The same with `strstr`. -/
def parseFormArray (boundary : WString) (stack : StackMemory) (s : ESP31BWebServer) (l : Link) :
    Fueled (Option (Bool × ESP31BWebServer × Link)) :=
  parseFormArrayOn (foundOn stack boundary) (leftOn stack) boundary s l

/-- A result, if there is one. -/
def insideArray {α : Type} : Option α → Fueled α
  | none => Fueled.undefined
  | some r => pure r

theorem gives_insideArray {α : Type} {P : α → Prop} {r : Option α} (h : ∀ a ∈ r, P a) :
    (insideArray r).Gives P := by
  cases r with
  | none => exact Fueled.gives_undefined
  | some a => exact Fueled.gives_pure (h a rfl)

/-- `_parseForm`, without a result where it writes behind `postArgs`. -/
def parseFormOn (found : UploadState → List UInt8 → Bool) (left : UploadState → List UInt8)
    (boundary : WString) (s : ESP31BWebServer) (l : Link) :
    Fueled (Bool × ESP31BWebServer × Link) :=
  parseFormArrayOn found left boundary s l >>= insideArray

/-- The same with `strstr`. -/
def parseForm (boundary : WString) (stack : StackMemory) (s : ESP31BWebServer) (l : Link) :
    Fueled (Bool × ESP31BWebServer × Link) :=
  parseFormArray boundary stack s l >>= insideArray

/-! ## The header -/

/-- A turn of a loop over the fields; the two loops differ in what they do
with a line. -/
def headerTurn {σ : Type} (handle : σ → WString → σ) (s : σ × Link) : σ × Link ⊕ σ × Link :=
  let (req, l) := readLine s.2
  if req.equalsC [] then .inr (s.1, l)
  else if req.indexOf 0x3A 0 = -1 then .inr (s.1, l)
  else .inl (handle s.1 req, l)

/-- What the loop of the methods with a body finds. `Content-Length` is read
too, and not used. -/
structure HeaderScan where
  server : ESP31BWebServer
  boundaryStr : WString
  isForm : Bool

/-- A field, for the methods with a body. -/
def bodyHeader (h : HeaderScan) (req : WString) : HeaderScan :=
  let headerDiv := req.indexOf 0x3A 0
  let headerName := req.substring 0 (WString.pos headerDiv)
  let headerValue := WString.trim (req.substring (WString.pos (headerDiv + 1)) req.length)
  let h := { h with server := h.server.collectHeader headerName headerValue }
  if headerName.equalsC (ascii "Content-Type") then
    if headerValue.startsWith (ascii "text/plain") then { h with isForm := false }
    else if headerValue.startsWith (ascii "multipart/form-data") then
      { h with
        boundaryStr := headerValue.substring
          (WString.pos (headerValue.indexOf 0x3D 0 + 1)) headerValue.length
        isForm := true }
    else h
  else if headerName.equalsC (ascii "Host") then
    { h with server := { h.server with hostHeader := headerValue } }
  else h

/-- A field, for the other methods. -/
def plainHeader (s : ESP31BWebServer) (req : WString) : ESP31BWebServer :=
  let headerDiv := req.indexOf 0x3A 0
  let headerName := req.substring 0 (WString.pos headerDiv)
  let headerValue := req.substring (WString.pos (headerDiv + 2)) req.length
  let s := s.collectHeader headerName headerValue
  if headerName.equalsC (ascii "Host") then { s with hostHeader := headerValue } else s

/-! ## The plain body -/

/-- `while(!client.available() && tries--) delay(1);`. -/
def waitAvailable : ℕ → Link → Link
  | 0, l => l.available.2
  | tries + 1, l => if l.available.1 = 0 then waitAvailable tries l.available.2
      else l.available.2

/-- The plain body: what has arrived after the wait, as a C string. -/
def readPlain (l : Link) : WString × Link :=
  let (plainLen, l) := (waitAvailable 100 l).available
  let (plainBuf, l) := l.readBytes plainLen
  (cstr plainBuf, l)

/-- What a plain body adds to the query. -/
def plainArguments (plainBuf : WString) : WString :=
  if plainBuf.head? = some 0x7B ∨ plainBuf.head? = some 0x5B ∨ 0x3D ∉ plainBuf then
    ascii "plain=" ++ plainBuf
  else plainBuf

/-! ## The request -/

/-- The method of a request; one that is not known is a `GET`. -/
def methodOf (methodStr : WString) : HTTPMethod :=
  if methodStr.equalsC (ascii "POST") then .post
  else if methodStr.equalsC (ascii "DELETE") then .delete
  else if methodStr.equalsC (ascii "OPTIONS") then .options
  else if methodStr.equalsC (ascii "PUT") then .put
  else if methodStr.equalsC (ascii "PATCH") then .patch
  else .get

/-- The methods whose body is read. -/
def readsBody : HTTPMethod → Bool
  | .post | .put | .patch | .delete => true
  | _ => false

/-- The query of a URL and what precedes it. -/
def splitSearch (url : WString) : WString × WString :=
  let hasSearch := url.indexOf 0x3F 0
  if hasSearch ≠ -1 then
    (url.substring (WString.pos (hasSearch + 1)) url.length,
    url.substring 0 (WString.pos hasSearch))
  else ([], url)

/-- The server with the first line of a request taken in. -/
def startRequest (s : ESP31BWebServer) (methodStr url : WString) : ESP31BWebServer :=
  { s with
    currentUri := (splitSearch url).2
    currentMethod := methodOf methodStr
    currentHandler :=
      s.handlers.find? (fun h => h.canHandle (methodOf methodStr) (splitSearch url).2) }

/-- The part behind the first line, for the methods with a body. What is on
the stack of `_parseForm` is as in `uploadTurnOn`. -/
def parseBodyOn (found : WString → UploadState → List UInt8 → Bool)
    (left : UploadState → List UInt8)
    (s : ESP31BWebServer) (searchStr : WString) (l : Link) :
    Fueled (Bool × ESP31BWebServer × Link) := do
  let (h, l) ← Fueled.loop (fun t => pure (headerTurn bodyHeader t)) (⟨s, [], false⟩, l)
  if h.isForm then
    let s := { h.server with currentArgs := parseArguments searchStr }
    let (ok, s, l) ← parseFormOn (found h.boundaryStr) left h.boundaryStr s l
    return (ok, s, if ok then l.flush else l)
  else
    let searchStr := if !searchStr.equalsC [] then searchStr ++ [0x26] else searchStr
    let (plainBuf, l) := readPlain l
    let args := parseArguments (searchStr ++ plainArguments plainBuf)
    return (true, { h.server with currentArgs := args }, l.flush)

/-- The same with `strstr`. -/
def parseBody (stack : StackMemory) (s : ESP31BWebServer) (searchStr : WString) (l : Link) :
    Fueled (Bool × ESP31BWebServer × Link) :=
  parseBodyOn (foundOn stack) (leftOn stack) s searchStr l

/-- The part behind the first line, for the other methods. -/
def parsePlain (s : ESP31BWebServer) (searchStr : WString) (l : Link) :
    Fueled (Bool × ESP31BWebServer × Link) := do
  let (s, l) ← Fueled.loop (fun t => pure (headerTurn plainHeader t)) (s, l)
  return (true, { s with currentArgs := parseArguments searchStr }, l.flush)

/-- **`_parseRequest`.** -/
def parseRequest (stack : StackMemory) (s : ESP31BWebServer) (l : Link) :
    Fueled (Bool × ESP31BWebServer × Link) := do
  let (req, l) := readLine l
  let s := { s with currentHeaders := s.currentHeaders.map (fun a => ⟨a.key, []⟩) }
  let addrStart := req.indexOf 0x20 0
  let addrEnd := req.indexOf 0x20 (WString.pos (addrStart + 1))
  if addrStart = -1 ∨ addrEnd = -1 then return (false, s, l)
  let methodStr := req.substring 0 (WString.pos addrStart)
  let url := req.substring (WString.pos (addrStart + 1)) (WString.pos addrEnd)
  let s := s.startRequest methodStr url
  if readsBody s.currentMethod then parseBody stack s (splitSearch url).1 l
  else parsePlain s (splitSearch url).1 l

end ESP31BWebServer
