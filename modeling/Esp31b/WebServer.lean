import Esp31b.WString

/-!
# The web server's data

What `ESP31BWebServer` keeps of a request, and the look-ups the rest of the
server makes in it. The arguments and the collected headers are arrays of
key and value; a look-up compares keys as C strings and takes the first
that matches.

The request handlers are the application's. The server asks them whether
they take a request and whether they take uploads, and calls `upload` with
the server's `HTTPUpload`; what they are called with is recorded in
`uploads`.
-/

/-- `HTTPMethod`. -/
inductive HTTPMethod where
  | any
  | get
  | post
  | put
  | patch
  | delete
  | options
  deriving DecidableEq, Repr

/-- `HTTPUploadStatus`. -/
inductive HTTPUploadStatus where
  | fileStart
  | fileWrite
  | fileEnd
  | fileAborted
  deriving DecidableEq, Repr

/-- `HTTPUpload`. The first `currentSize` bytes of its buffer are `buf`. -/
structure HTTPUpload where
  status : HTTPUploadStatus
  filename : WString
  name : WString
  type : WString
  totalSize : UInt32
  buf : List UInt8
  deriving DecidableEq, Repr

/-- `RequestHandler`: what the server asks it. -/
structure RequestHandler where
  canHandle : HTTPMethod → WString → Bool
  canUpload : WString → Bool

/-- **The state of the server**, as far as a request fills it. -/
structure ESP31BWebServer where
  /-- The chain from `_firstHandler` on. -/
  handlers : List RequestHandler
  currentMethod : HTTPMethod
  currentUri : WString
  currentHandler : Option RequestHandler
  currentArgs : List RequestArgument
  currentUpload : HTTPUpload
  currentHeaders : List RequestArgument
  hostHeader : WString
  /-- The calls of the handler's `upload`, oldest first. -/
  uploads : List HTTPUpload

namespace ESP31BWebServer

/-- `AUTHORIZATION_HEADER`. -/
def authorizationHeader : WString := ascii "Authorization"

/-- `hasArg`. -/
def hasArg (s : ESP31BWebServer) (name : WString) : Bool :=
  s.currentArgs.any (fun a => a.key.equalsC name)

/-- The value under a key, empty when there is none. -/
def valueOf (as : List RequestArgument) (name : WString) : WString :=
  ((as.find? (fun a => a.key.equalsC name)).map RequestArgument.value).getD []

/-- `arg(const char *)`. -/
def arg (s : ESP31BWebServer) (name : WString) : WString := valueOf s.currentArgs name

/-- `header(const char *)`. -/
def header (s : ESP31BWebServer) (name : WString) : WString := valueOf s.currentHeaders name

/-- `hasHeader`. -/
def hasHeader (s : ESP31BWebServer) (name : WString) : Bool :=
  s.currentHeaders.any (fun a => a.key.equalsC name && a.value.length > 0)

/-- `collectHeaders`: the authorization header is always the first. -/
def collectHeaders (s : ESP31BWebServer) (headerKeys : List WString) : ESP31BWebServer :=
  { s with currentHeaders := (authorizationHeader :: headerKeys).map (fun k => ⟨k, []⟩) }

/-- The server as constructed, its handlers attached. The constructor leaves
`_currentUpload` alone; it is filled before it is used. -/
def init (handlers : List RequestHandler) : ESP31BWebServer :=
  ⟨handlers, .any, [], none, [], ⟨.fileStart, [], [], [], 0, []⟩, [], [], []⟩

/-- `begin`. -/
def begin (s : ESP31BWebServer) : ESP31BWebServer :=
  if s.currentHeaders.isEmpty then s.collectHeaders [] else s

/-- The array with the value of the first matching key replaced. -/
def setValue (name value : WString) : List RequestArgument → List RequestArgument
  | [] => []
  | a :: as => if a.key.equalsC name then ⟨a.key, value⟩ :: as else a :: setValue name value as

/-- `_collectHeader`. -/
def collectHeader (s : ESP31BWebServer) (headerName headerValue : WString) : ESP31BWebServer :=
  { s with currentHeaders := setValue headerName headerValue s.currentHeaders }

end ESP31BWebServer
