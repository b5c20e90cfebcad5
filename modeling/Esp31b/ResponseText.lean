import Esp31b.RequestHeader
import Esp31b.SendPath

/-!
# The text of a response

A handler of `ESP31BWebServer` calls `sendHeader` any number of times and then
`send`, which puts a `Content-Type` in front of the lines so far and the
length, `Connection` and `Access-Control-Allow-Origin` behind them. Header and
content go out in two runs of `sendContent`, each over a connection whose
acknowledgements come as they like. What `tcp_write` is handed is a status
line, the lines and the content, in this order, where every write goes on
(`ResponseWriter.sent_of_goesOn`); a write that is acknowledged in part is
repeated from there.
-/

/-- What `ESP31BWebServer` keeps for the next response: `_responseHeaders` and
`_contentLength`. -/
structure ResponseWriter where
  responseHeaders : WString
  contentLength : UInt32
  deriving DecidableEq, Repr

namespace ResponseWriter

open ClientContext (SendEvent SendState)

/-- `CONTENT_LENGTH_UNKNOWN`. -/
def contentLengthUnknown : UInt32 := 0xFFFFFFFF

/-- `CONTENT_LENGTH_NOT_SET`. -/
def contentLengthNotSet : UInt32 := 0xFFFFFFFE

/-- The state when a handler is called. -/
def init : ResponseWriter := ⟨[], contentLengthNotSet⟩

/-- The codes `_responseCodeToString` knows. -/
def responseCodes : List (ℤ × String) :=
  [(100, "Continue"), (101, "Switching Protocols"), (200, "OK"), (201, "Created"),
    (202, "Accepted"), (203, "Non-Authoritative Information"), (204, "No Content"),
    (205, "Reset Content"),
    (206, "Partial Content"), (300, "Multiple Choices"), (301, "Moved Permanently"),
    (302, "Found"),
    (303, "See Other"), (304, "Not Modified"), (305, "Use Proxy"), (307, "Temporary Redirect"),
    (400, "Bad Request"), (401, "Unauthorized"), (402, "Payment Required"), (403, "Forbidden"),
    (404, "Not Found"), (405, "Method Not Allowed"), (406, "Not Acceptable"),
    (407, "Proxy Authentication Required"), (408, "Request Time-out"),
    (409, "Conflict"), (410, "Gone"),
    (411, "Length Required"), (412, "Precondition Failed"), (413, "Request Entity Too Large"),
    (414, "Request-URI Too Large"), (415, "Unsupported Media Type"),
    (416, "Requested range not satisfiable"), (417, "Expectation Failed"),
    (500, "Internal Server Error"),
    (501, "Not Implemented"), (502, "Bad Gateway"), (503, "Service Unavailable"),
    (504, "Gateway Time-out"),
    (505, "HTTP Version not supported")]

/-- `_responseCodeToString`. -/
def responseCodeToString (code : ℤ) : WString := ascii ((responseCodes.lookup code).getD "")

/-- `sendHeader`. The block of `_responseHeaders` is taken to be zero behind
its text; it shows where `headerLine` has a NUL, and nowhere else. -/
def sendHeader (w : ResponseWriter) (name value : WString) (first : Bool) : ResponseWriter :=
  let headerLine := name.cleared ++ ascii ": " ++ value.cleared ++ ascii "\r\n"
  if first then
    { w with responseHeaders := (headerLine.cleared ++ w.responseHeaders.cleared).cleared }
  else { w with responseHeaders := w.responseHeaders ++ headerLine.cleared }

/-- The first line, with its end. -/
def statusLine (code : ℤ) : WString :=
  ascii "HTTP/1.1 " ++ ascii (toString code) ++ ascii " " ++ responseCodeToString code ++
    ascii "\r\n"

/-- `_prepareHeader`: the header, and what is kept. -/
def prepareHeader (w : ResponseWriter) (code : ℤ) (contentType : Option WString)
    (contentLength : ℕ) :
    WString × ResponseWriter :=
  let w := w.sendHeader (ascii "Content-Type")
    (cstr (contentType.getD (ascii "text/html"))) true
  let w :=
    if w.contentLength ≠ contentLengthUnknown ∧ w.contentLength ≠ contentLengthNotSet then
      w.sendHeader (ascii "Content-Length") (ascii (toString w.contentLength.toNat)) false
    else if 0 < contentLength then
      w.sendHeader (ascii "Content-Length") (ascii (toString contentLength)) false
    else w
  let w := w.sendHeader (ascii "Connection") (ascii "close") false
  let w := w.sendHeader (ascii "Access-Control-Allow-Origin") (ascii "*") false
  (statusLine code ++ w.responseHeaders.cleared ++ ascii "\r\n",
    { w with responseHeaders := [] })

/-- What happens to the connection while `send` runs: during the header, and
from then on. -/
structure Meanwhile where
  header : List SendEvent
  content : List SendEvent

/-- `send(code, content_type, content)`: the bytes `tcp_write` is handed, the
connection behind them and what is kept. -/
def send (k : SendState) (w : ResponseWriter) (code : ℤ) (contentType : Option WString)
    (content : WString) (es : Meanwhile) :
    Option (List UInt8 × SendState × ResponseWriter) := do
  let (header, w) := w.prepareHeader code contentType content.length
  let k₁ ← k.sendContent header es.header
  let k₂ ← k₁.sendContent content es.content
  return (k₁.handed ++ k₂.handed, k₂, w)

/-- All writes of `send` go on. -/
def WritesGoOn (k : SendState) (w : ResponseWriter) (code : ℤ) (contentType : Option WString)
    (content : WString) (es : Meanwhile) : Prop :=
  let (header, _) := w.prepareHeader code contentType content.length
  k.WritesGoOn header es.header ∧
    ∀ k₁ ∈ k.sendContent header es.header, k₁.WritesGoOn content es.content

instance (k : SendState) (w : ResponseWriter) (code : ℤ) (contentType : Option WString)
    (content : WString) (es : Meanwhile) :
    Decidable (WritesGoOn k w code contentType content es) :=
  inferInstanceAs (Decidable (_ ∧ _))

/-! ## The lines of a response -/

open HTTPClient (HeaderCall NulFree fieldText fieldsText fieldsText_append
  fieldsText_cons fieldsText_nil zero_not_mem_fieldText zero_not_mem_fieldsText)

/-- Calls of `sendHeader`, in turn. -/
def sendHeaders (w : ResponseWriter) (calls : List HeaderCall) : ResponseWriter :=
  calls.foldl (fun w h => w.sendHeader h.name h.value h.first) w

/-- What a call adds to the lines before. -/
def addCall (fields : List RequestArgument) (h : HeaderCall) : List RequestArgument :=
  if h.first then ⟨h.name, h.value⟩ :: fields else fields ++ [⟨h.name, h.value⟩]

/-- **The lines of a response**, in the order they are sent. -/
def responseFields (calls : List HeaderCall) (contentType : WString) (contentLength : ℕ) :
    List RequestArgument :=
  ⟨ascii "Content-Type", contentType⟩ :: calls.foldl addCall [] ++
    [⟨ascii "Content-Length", ascii (toString contentLength)⟩,
      ⟨ascii "Connection", ascii "close"⟩, ⟨ascii "Access-Control-Allow-Origin", ascii "*"⟩]

/-- The header they make. -/
def headerText (code : ℤ) (fields : List RequestArgument) : WString :=
  statusLine code ++ fieldsText fields ++ ascii "\r\n"

variable {w : ResponseWriter} {fields : List RequestArgument}

/-- The lines before a call are among those behind it. -/
theorem subset_addCall (fields : List RequestArgument) (h : HeaderCall) :
    fields ⊆ addCall fields h := by
  intro f hf
  unfold addCall
  split
  · exact List.mem_cons_of_mem _ hf
  · exact List.mem_append_left _ hf

theorem subset_foldl_addCall (calls : List HeaderCall) (fields : List RequestArgument) :
    fields ⊆ calls.foldl addCall fields := by
  induction calls generalizing fields with
  | nil => exact List.Subset.refl _
  | cons h calls ih => exact List.Subset.trans (subset_addCall fields h) (ih _)

/-- A line more. -/
theorem sendHeader_fields (hw : w.responseHeaders = fieldsText fields) (h : HeaderCall)
    (hplain : ∀ f ∈ addCall fields h, NulFree f) :
    w.sendHeader h.name h.value h.first =
      { w with responseHeaders := fieldsText (addCall fields h) } := by
  have hbefore : 0 ∉ fieldsText fields :=
    zero_not_mem_fieldsText fun f hf => hplain f (subset_addCall fields h hf)
  have hafter := zero_not_mem_fieldsText hplain
  have hnew : NulFree ⟨h.name, h.value⟩ := hplain _ (by unfold addCall; split <;> simp)
  have hline : h.name.cleared ++ ascii ": " ++ h.value.cleared ++ ascii "\r\n" =
      fieldText ⟨h.name, h.value⟩ := by
    rw [WString.cleared_of_plain hnew.1, WString.cleared_of_plain hnew.2]
    rfl
  unfold addCall at hafter
  unfold sendHeader addCall
  dsimp only
  rw [hline, WString.cleared_of_plain (zero_not_mem_fieldText hnew), hw]
  split
  · rename_i hfirst
    rw [if_pos hfirst, fieldsText_cons] at hafter
    rw [WString.cleared_of_plain hbefore, WString.cleared_of_plain hafter, fieldsText_cons]
  · rw [fieldsText_append, fieldsText_cons, fieldsText_nil, List.append_nil]

/-- **What the calls leave in `_responseHeaders`.** -/
theorem sendHeaders_fields (hw : w.responseHeaders = fieldsText fields)
    (calls : List HeaderCall) (hplain : ∀ f ∈ calls.foldl addCall fields, NulFree f) :
    w.sendHeaders calls =
      { w with responseHeaders := fieldsText (calls.foldl addCall fields) } := by
  unfold sendHeaders
  induction calls generalizing w fields with
  | nil =>
    rw [List.foldl_nil, List.foldl_nil, ← hw]
  | cons h calls ih =>
    have hone : ∀ f ∈ addCall fields h, NulFree f := fun f hf =>
      hplain f (subset_foldl_addCall calls _ hf)
    rw [List.foldl_cons, List.foldl_cons, sendHeader_fields hw h hone]
    exact ih rfl hplain

/-- The lines of the calls are among them. -/
theorem mem_addCall {f : RequestArgument} {calls : List HeaderCall}
    (hf : f ∈ calls.foldl addCall fields) :
    f ∈ fields ∨ ∃ h ∈ calls, f = ⟨h.name, h.value⟩ := by
  induction calls generalizing fields with
  | nil => exact Or.inl hf
  | cons h calls ih =>
    rcases ih hf with hmem | ⟨g, hg, rfl⟩
    · have hadded : f = ⟨h.name, h.value⟩ ∨ f ∈ fields := by
        unfold addCall at hmem
        split at hmem
        · exact List.mem_cons.mp hmem
        · exact (List.mem_append.mp hmem).symm.imp List.mem_singleton.mp id
      rcases hadded with rfl | hmem
      · exact Or.inr ⟨h, by simp, rfl⟩
      · exact Or.inl hmem
    · exact Or.inr ⟨g, by simp [hg], rfl⟩

/-- **The header**, when the handler has set no length and there is a
content. -/
theorem prepareHeader_fields {calls : List HeaderCall} (code : ℤ)
    {contentType : WString} {contentLength : ℕ} (hpos : 0 < contentLength)
    (hplain : ∀ f ∈ responseFields calls contentType contentLength, NulFree f) :
    (init.sendHeaders calls).prepareHeader code (some contentType) contentLength =
      (headerText code (responseFields calls contentType contentLength), init) := by
  have hfield : ∀ (fields : List RequestArgument) (name value : WString) (first : Bool),
      (∀ f ∈ addCall fields ⟨name, value, first⟩, NulFree f) →
      (⟨fieldsText fields, contentLengthNotSet⟩ : ResponseWriter).sendHeader name value first =
        ⟨fieldsText (addCall fields ⟨name, value, first⟩), contentLengthNotSet⟩ :=
    fun fields name value first => sendHeader_fields rfl ⟨name, value, first⟩
  have hof : ∀ {fields : List RequestArgument},
      fields ⊆ responseFields calls contentType contentLength → ∀ f ∈ fields, NulFree f :=
    fun hsub f hf => hplain f (hsub hf)
  have htype : NulFree ⟨ascii "Content-Type", contentType⟩ :=
    hplain _ (by simp [responseFields])
  have hcalls : init.sendHeaders calls =
      ⟨fieldsText (calls.foldl addCall []), contentLengthNotSet⟩ :=
    sendHeaders_fields (fieldsText_nil.symm : init.responseHeaders = fieldsText []) calls
      (hof (by intro f hf; simp [responseFields, hf]))
  unfold prepareHeader
  dsimp only
  rw [hcalls, Option.getD_some, cstr_of_not_mem htype.2,
    hfield _ _ _ _ (hof (by simp [addCall, responseFields]))]
  dsimp only
  rw [if_neg (by decide), if_pos hpos, hfield _ _ _ _ (hof (by simp [addCall, responseFields])),
    hfield _ _ _ _ (hof (by simp [addCall, responseFields])),
    hfield _ _ _ _ (hof (by simp [addCall, responseFields]))]
  have hall : addCall (addCall (addCall (addCall (calls.foldl addCall [])
      ⟨ascii "Content-Type", contentType, true⟩)
      ⟨ascii "Content-Length", ascii (toString contentLength), false⟩)
      ⟨ascii "Connection", ascii "close", false⟩)
      ⟨ascii "Access-Control-Allow-Origin", ascii "*", false⟩ =
        responseFields calls contentType contentLength := by
    simp [addCall, responseFields]
  rw [hall, WString.cleared_of_plain (zero_not_mem_fieldsText hplain)]
  rfl

/-- **What `send` hands over**, where its writes go on. -/
theorem sent_of_goesOn {k k' : SendState} {calls : List HeaderCall} {code : ℤ}
    {contentType content : WString} {es : Meanwhile} {sent : List UInt8} (hne : content ≠ [])
    (hplain : ∀ f ∈ responseFields calls contentType content.length, NulFree f)
    (hheader : (headerText code (responseFields calls contentType content.length)).length <
      2 ^ 32)
    (hcontent : content.length < 2 ^ 32)
    (hon : WritesGoOn k (init.sendHeaders calls) code (some contentType) content es)
    (hsend : send k (init.sendHeaders calls) code (some contentType) content es =
      some (sent, k', w)) :
    sent = headerText code (responseFields calls contentType content.length) ++ content ∧
      w = init := by
  have hprepared := prepareHeader_fields code (List.length_pos_iff.mpr hne) hplain
  rw [WritesGoOn, hprepared] at hon
  rw [send, hprepared] at hsend
  obtain ⟨k₁, hfirst, hsend⟩ := Option.bind_eq_some_iff.mp hsend
  obtain ⟨k₂, hsecond, hsend⟩ := Option.bind_eq_some_iff.mp hsend
  have hwhole := SendState.handed_of_sendContent hheader hon.1 hfirst
  have hwhole' := SendState.handed_of_sendContent hcontent (hon.2 k₁ hfirst) hsecond
  cases hsend
  exact ⟨by rw [hwhole, hwhole'], rfl⟩

/-- Header and content in one write each, the second acknowledged as a whole. -/
theorem send_of_sendContent {k k₁ : SendState} {calls : List HeaderCall} {code : ℤ}
    {contentType content : WString} {es : List SendEvent} {sent : List UInt8}
    (hne : content ≠ [])
    (hplain : ∀ f ∈ responseFields calls contentType content.length, NulFree f)
    (hcontent : content.length ≤ ClientContext.httpDownloadUnitSize)
    (hfirst :
      k.sendContent (headerText code (responseFields calls contentType content.length)) es =
      some k₁) (hclient : k₁.client = true) (hpcb : k₁.pcb = true) (hsent : k₁.handed = sent) :
    ∃ k', send k (init.sendHeaders calls) code (some contentType) content
      ⟨es, SendState.ackedWhole content⟩ = some (sent ++ content, k', init) := by
  obtain ⟨hon, k₂, hsecond, -, -⟩ := SendState.sendContent_ackedWhole hclient hpcb hne hcontent
  have hwhole := SendState.handed_of_sendContent
    (lt_of_le_of_lt hcontent (by decide)) hon hsecond
  refine ⟨k₂, ?_⟩
  rw [send, prepareHeader_fields code (List.length_pos_iff.mpr hne) hplain]
  dsimp only
  rw [hfirst, Option.bind_eq_bind, Option.bind_some, hsecond, Option.bind_some, hsent, hwhole]
  rfl

/-- **A response that is acknowledged as it is written** goes out. -/
theorem send_ackedWhole {k : SendState} {calls : List HeaderCall} {code : ℤ}
    {contentType content : WString} (hclient : k.client = true) (hpcb : k.pcb = true)
    (hne : content ≠ [])
    (hplain : ∀ f ∈ responseFields calls contentType content.length, NulFree f)
    (hheader : (headerText code (responseFields calls contentType content.length)).length ≤
      ClientContext.httpDownloadUnitSize)
    (hcontent : content.length ≤ ClientContext.httpDownloadUnitSize) :
    let es := Meanwhile.mk
      (SendState.ackedWhole (headerText code (responseFields calls contentType content.length)))
      (SendState.ackedWhole content)
    WritesGoOn k (init.sendHeaders calls) code (some contentType) content es ∧
      ∃ k', send k (init.sendHeaders calls) code (some contentType) content es =
        some (headerText code (responseFields calls contentType content.length) ++ content,
          k', init) := by
  set header := headerText code (responseFields calls contentType content.length) with hh
  have hheaderNe : header ≠ [] := by
    rw [hh, headerText, List.append_assoc]
    exact List.append_ne_nil_of_left_ne_nil (by simp [statusLine, ascii]) _
  obtain ⟨hon, k₁, hfirst, hclient₁, hpcb₁⟩ :=
    SendState.sendContent_ackedWhole hclient hpcb hheaderNe hheader
  have hwhole := SendState.handed_of_sendContent (lt_of_le_of_lt hheader (by decide)) hon hfirst
  refine ⟨?_, send_of_sendContent hne hplain hcontent hfirst hclient₁ hpcb₁ hwhole⟩
  rw [WritesGoOn, prepareHeader_fields code (List.length_pos_iff.mpr hne) hplain]
  refine ⟨hon, fun k₂ hk₂ => ?_⟩
  obtain rfl := Option.some.inj (hfirst.symm.trans hk₂)
  exact (SendState.sendContent_ackedWhole hclient₁ hpcb₁ hne hcontent).1

/-- **One acknowledged byte of the header** puts most of it between the header and the
content. -/
theorem send_ackedInPart {k : SendState} {calls : List HeaderCall} {code : ℤ}
    {contentType content : WString} (hclient : k.client = true) (hpcb : k.pcb = true)
    (hne : content ≠ [])
    (hplain : ∀ f ∈ responseFields calls contentType content.length, NulFree f)
    (htwo : 2 ≤ (headerText code (responseFields calls contentType content.length)).length)
    (hheader : (headerText code (responseFields calls contentType content.length)).length ≤
      ClientContext.httpDownloadUnitSize)
    (hcontent : content.length ≤ ClientContext.httpDownloadUnitSize) :
    ∃ k', send k (init.sendHeaders calls) code (some contentType) content
      ⟨SendState.ackedInPart
        (headerText code (responseFields calls contentType content.length)),
        SendState.ackedWhole content⟩ =
      some (headerText code (responseFields calls contentType content.length) ++
        (headerText code (responseFields calls contentType content.length)).drop 1 ++ content,
        k', init) := by
  obtain ⟨k₁, hfirst, hclient₁, hpcb₁, hhanded⟩ :=
    SendState.sendContent_ackedInPart hclient hpcb htwo hheader
  exact send_of_sendContent hne hplain hcontent hfirst hclient₁ hpcb₁ hhanded

end ResponseWriter
