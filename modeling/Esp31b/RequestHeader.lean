import Esp31b.HttpRequest

/-!
# The header of a request, as lines

The client builds the header of a request by concatenation: the first line,
the lines it sets itself, and `_Headers`, to which `addHeader` has appended
or prepended lines of the form `name: value`. Whoever reads it takes it apart
into lines again, so here it is put together from them: `_Headers` is
`fieldsText` of a list of names and values as long as `addHeader` is the only
one to change it (`addHeader_fields`), and then so is the whole text
(`headerText_fields`).
-/

namespace Connection

/-- A write that is taken whole. -/
theorem sent_of_whole {k : Connection} {buf : List UInt8} (h : (k.write buf).1 = buf.length) :
    (k.write buf).2.sent = k.sent ++ buf := by
  unfold write at h ⊢
  split
  · rename_i hdown
    rw [if_pos hdown] at h
    rw [List.length_eq_zero_iff.mp h.symm, List.append_nil]
  · rename_i hup
    rw [if_neg hup] at h
    split
    · rfl
    · rename_i r rest hreactions
      rw [hreactions] at h
      dsimp only at h ⊢
      rw [List.take_of_length_le (by omega)]

end Connection

namespace HTTPClient

/-! ## What the client sends -/

/-- What was written to the connection `_tcp` has. -/
def sent (c : HTTPClient) : List UInt8 := (c.connection.map Connection.sent).getD []

/-- The text depends on nothing of the connection. -/
theorem headerText_setConnection (c : HTTPClient) (k : Connection) (type : WString) :
    (c.setConnection k).headerText type = c.headerText type := by
  unfold headerText setConnection
  rfl

/-- **`sendHeader` sends its text**, when it succeeds. -/
theorem sent_of_sendHeader {c d : HTTPClient} {type : WString}
    (h : c.sendHeader type = (true, d)) :
    d.sent = c.sent ++ c.headerText type := by
  cases hk : c.connection with
  | none =>
    rw [sendHeader, connected, hk] at h
    cases h
  | some k =>
    set k' : Connection := { k with link := (linkConnected k.link).2 } with hk'
    have hconnected : c.connected = ((linkConnected k.link).1, c.setConnection k') := by
      rw [connected, hk]
    rw [sendHeader, hconnected] at h
    dsimp only at h
    split at h
    · have hwrite : (c.setConnection k').tcpWrite ((c.setConnection k').headerText type)
          = ((k'.write (c.headerText type)).1, (c.setConnection k').setConnection
              (k'.write (c.headerText type)).2) := by
        rw [headerText_setConnection]
        rfl
      rw [hwrite, headerText_setConnection, Prod.mk.injEq, decide_eq_true_eq] at h
      obtain ⟨hn, rfl⟩ := h
      show (k'.write _).2.sent = (c.connection.map Connection.sent).getD [] ++ _
      rw [Connection.sent_of_whole hn, hk]
      rfl
    · cases h

/-- A call of `addHeader`. -/
structure HeaderCall where
  name : WString
  value : WString
  first : Bool
  deriving DecidableEq, Repr

/-- Calls of `addHeader`, in turn. -/
def addHeaders (c : HTTPClient) (calls : List HeaderCall) : HTTPClient :=
  calls.foldl (fun c h => c.addHeader h.name h.value h.first) c

/-- The lines `addHeader` does not leave to the client. -/
def allowed (c : HTTPClient) (name : WString) : Bool :=
  !name.equalsIgnoreCase (ascii "Connection") && !name.equalsIgnoreCase (ascii "User-Agent") &&
    !name.equalsIgnoreCase (ascii "Host") &&
    !(0 < c.base64Authorization.length && name.equalsIgnoreCase (ascii "Authorization"))

/-- What a call adds to the lines before. -/
def addField (c : HTTPClient) (fields : List RequestArgument) (h : HeaderCall) :
    List RequestArgument :=
  if c.allowed h.name then
    if h.first then ⟨h.name, h.value⟩ :: fields else fields ++ [⟨h.name, h.value⟩]
  else fields

/-- The lines the client sets itself. -/
def ownFields (c : HTTPClient) : List RequestArgument :=
  ⟨ascii "Host", c.host⟩ :: ⟨ascii "User-Agent", c.userAgent⟩ ::
    ⟨ascii "Connection", ascii (if c.reuse then "keep-alive" else "close")⟩ ::
    ((if c.useHTTP10 then []
      else [⟨ascii "Accept-Encoding", ascii "identity;q=1 chunked;q=0.1 *;q=0"⟩]) ++
    (if 0 < c.base64Authorization.length then
      [⟨ascii "Authorization", ascii "Basic " ++ c.base64Authorization⟩] else []))

/-- **The header lines of a request**, in the order they are sent: the
client's own, and those of the calls. -/
def sentFields (c : HTTPClient) (calls : List HeaderCall) : List RequestArgument :=
  c.ownFields ++ calls.foldl c.addField []

/-- A field as `addHeader` writes it. -/
def fieldText (f : RequestArgument) : WString := f.key ++ ascii ": " ++ f.value ++ ascii "\r\n"

/-- Fields one after the other. -/
def fieldsText (fields : List RequestArgument) : WString := fields.flatMap fieldText

@[simp] theorem fieldsText_append (fs gs : List RequestArgument) :
    fieldsText (fs ++ gs) = fieldsText fs ++ fieldsText gs := List.flatMap_append

@[simp] theorem fieldsText_cons (f : RequestArgument) (fs : List RequestArgument) :
    fieldsText (f :: fs) = fieldText f ++ fieldsText fs := rfl

@[simp] theorem fieldsText_nil : fieldsText [] = [] := rfl

/-- **A field that is appended whole**: without NUL. -/
def NulFree (f : RequestArgument) : Prop := 0 ∉ f.key ∧ 0 ∉ f.value

instance (f : RequestArgument) : Decidable (NulFree f) := inferInstanceAs (Decidable (_ ∧ _))

theorem zero_not_mem_fieldText {f : RequestArgument} (h : NulFree f) : 0 ∉ fieldText f := by
  have htexts : 0 ∉ ascii ": " ∧ 0 ∉ ascii "\r\n" := by decide
  simp [fieldText, h.1, h.2, htexts]

theorem zero_not_mem_fieldsText {fields : List RequestArgument} (h : ∀ f ∈ fields, NulFree f) :
    0 ∉ fieldsText fields := by
  intro hmem
  obtain ⟨f, hf, hzero⟩ := List.mem_flatMap.mp hmem
  exact zero_not_mem_fieldText (h f hf) hzero

/-- What a call adds is among what the calls leave. -/
theorem subset_addField (c : HTTPClient) (fields : List RequestArgument) (h : HeaderCall) :
    fields ⊆ c.addField fields h := by
  intro f hf
  unfold addField
  split_ifs
  · exact List.mem_cons_of_mem _ hf
  · exact List.mem_append_left _ hf
  · exact hf

theorem subset_foldl_addField (c : HTTPClient) (calls : List HeaderCall)
    (fields : List RequestArgument) : fields ⊆ calls.foldl c.addField fields := by
  induction calls generalizing fields with
  | nil => exact List.Subset.refl _
  | cons h calls ih => exact List.Subset.trans (subset_addField c fields h) (ih _)

/-- One call. -/
theorem addHeader_fields {c : HTTPClient} {fields : List RequestArgument}
    (hc : c.headers = fieldsText fields) (h : HeaderCall)
    (hplain : ∀ f ∈ c.addField fields h, NulFree f) :
    c.addHeader h.name h.value h.first =
      { c with headers := fieldsText (c.addField fields h) } := by
  have hbefore := zero_not_mem_fieldsText fun f hf => hplain f (subset_addField c fields h hf)
  have hafter := zero_not_mem_fieldsText hplain
  unfold addField at hplain hafter
  unfold addHeader addField
  show (if c.allowed h.name = true then _ else c) = _
  split
  · rename_i hallowed
    rw [if_pos hallowed] at hplain hafter
    have hnew : NulFree ⟨h.name, h.value⟩ := hplain _ (by split <;> simp)
    have hline : h.name.cleared ++ ascii ": " ++ h.value.cleared ++ ascii "\r\n" =
        fieldText ⟨h.name, h.value⟩ := by
      rw [WString.cleared_of_plain hnew.1, WString.cleared_of_plain hnew.2]
      rfl
    dsimp only
    rw [hline, WString.cleared_of_plain (zero_not_mem_fieldText hnew)]
    split
    · rename_i hfirst
      rw [if_pos hfirst, fieldsText_cons] at hafter
      rw [fieldsText_cons, hc, WString.cleared_of_plain hbefore,
        WString.cleared_of_plain hafter]
    · rw [fieldsText_append, fieldsText_cons, fieldsText_nil, List.append_nil, hc]
  · rw [← hc]

/-- **What the calls leave in `_Headers`.** -/
theorem addHeaders_fields (calls : List HeaderCall) {c : HTTPClient}
    {fields : List RequestArgument}
    (hc : c.headers = fieldsText fields)
    (hplain : ∀ f ∈ calls.foldl c.addField fields, NulFree f) :
    c.addHeaders calls = { c with headers := fieldsText (calls.foldl c.addField fields) } := by
  induction calls generalizing c fields with
  | nil =>
    rw [List.foldl_nil, ← hc]
    rfl
  | cons h calls ih =>
    have hone : ∀ f ∈ c.addField fields h, NulFree f := fun f hf =>
      hplain f (subset_foldl_addField c calls _ hf)
    have hrest := ih (c := { c with headers := fieldsText (c.addField fields h) }) rfl hplain
    show (c.addHeader h.name h.value h.first).addHeaders calls = _
    rw [addHeader_fields hc h hone, hrest]
    rfl

/-- The first line of a request. -/
def requestLine (c : HTTPClient) (type : WString) : WString :=
  type ++ 0x20 :: (c.url ++ 0x20 ::
    (ascii "HTTP/1." ++ ascii (if c.useHTTP10 then "0" else "1")))

/-- The texts of the source, cut at their lines. -/
theorem headerTexts : ascii "\r\nHost: " = ascii "\r\n" ++ (ascii "Host" ++ ascii ": ") ∧
    ascii "\r\nUser-Agent: " = ascii "\r\n" ++ (ascii "User-Agent" ++ ascii ": ") ∧
    ascii "\r\nConnection: " = ascii "\r\n" ++ (ascii "Connection" ++ ascii ": ") ∧
    ascii "Accept-Encoding: identity;q=1 chunked;q=0.1 *;q=0\r\n" = ascii "Accept-Encoding" ++
      (ascii ": " ++ (ascii "identity;q=1 chunked;q=0.1 *;q=0" ++ ascii "\r\n")) ∧
    ascii "Authorization: Basic " = ascii "Authorization" ++ (ascii ": " ++ ascii "Basic ") ∧
    ascii " " = [0x20] ∧ ascii " HTTP/1." = 0x20 :: ascii "HTTP/1." := by
  decide

/-- The client's own lines are appended whole if its texts are. -/
theorem own_nulFree {c : HTTPClient} (h : ∀ f ∈ c.ownFields, NulFree f) :
    0 ∉ c.host ∧ 0 ∉ c.userAgent ∧ 0 ∉ c.base64Authorization := by
  have hauth : 0 < c.base64Authorization.length →
      NulFree ⟨ascii "Authorization", ascii "Basic " ++ c.base64Authorization⟩ := fun hlen =>
    h _ (by simp [ownFields, if_pos hlen])
  refine ⟨(h ⟨ascii "Host", c.host⟩ (by simp [ownFields])).2,
    (h ⟨ascii "User-Agent", c.userAgent⟩ (by simp [ownFields])).2, fun hmem => ?_⟩
  exact (hauth (List.length_pos_of_mem hmem)).2 (List.mem_append_right _ hmem)

/-- **The text is the lines**, without NUL. -/
theorem headerText_fields {c : HTTPClient} {fields : List RequestArgument}
    (hc : c.headers = fieldsText fields) (hplain : ∀ f ∈ c.ownFields ++ fields, NulFree f)
    (hurl : 0 ∉ c.url) {type : WString} (htype : 0 ∉ type) :
    c.headerText type
      = c.requestLine type ++ ascii "\r\n" ++ fieldsText (c.ownFields ++ fields) ++
        ascii "\r\n" := by
  obtain ⟨hhost, hagent, hconnection, haccept, hauthorization, hblank, hversion⟩ := headerTexts
  obtain ⟨hchost, hcagent, hcauth⟩ :=
    own_nulFree fun f hf => hplain f (List.mem_append_left _ hf)
  have hheaders := zero_not_mem_fieldsText fun f hf => hplain f (List.mem_append_right _ hf)
  have hencoding : fieldsText (if c.useHTTP10 then []
      else [⟨ascii "Accept-Encoding", ascii "identity;q=1 chunked;q=0.1 *;q=0"⟩])
      = if c.useHTTP10 then [] else ascii "Accept-Encoding" ++
        (ascii ": " ++ (ascii "identity;q=1 chunked;q=0.1 *;q=0" ++ ascii "\r\n")) := by
    split
    · rfl
    · simp [fieldText]
  have hauth : fieldsText (if 0 < c.base64Authorization.length then
      [⟨ascii "Authorization", ascii "Basic " ++ c.base64Authorization⟩] else [])
      = if 0 < c.base64Authorization.length
        then ascii "Authorization" ++ (ascii ": " ++ ascii "Basic ") ++
        c.base64Authorization ++ ascii "\r\n" else [] := by
    split
    · simp [fieldText]
    · rfl
  unfold headerText ownFields requestLine
  rw [cstr_of_not_mem htype, WString.cleared_of_plain hurl, WString.cleared_of_plain hchost,
    WString.cleared_of_plain hcagent, WString.cleared_of_plain hcauth, hc,
    WString.cleared_of_plain hheaders, fieldsText_append, fieldsText_cons, fieldsText_cons,
    fieldsText_cons, fieldsText_append, hencoding, hauth, hhost, hagent, hconnection, haccept,
    hauthorization, hblank, hversion]
  simp only [fieldText, List.append_assoc, List.cons_append, List.nil_append]

/-! ## The lines of the calls -/

/-- Whatever all calls have, all their lines have. -/
theorem addField_induction {P : RequestArgument → Prop} {c : HTTPClient}
    (calls : List HeaderCall)
    {fields : List RequestArgument} (hfields : ∀ f ∈ fields, P f)
    (hcalls : ∀ h ∈ calls, c.allowed h.name = true → P ⟨h.name, h.value⟩) :
    ∀ f ∈ calls.foldl c.addField fields, P f := by
  induction calls generalizing fields with
  | nil => exact hfields
  | cons h calls ih =>
    refine ih (fun f hf => ?_) (fun g hg => hcalls g (by simp [hg]))
    have hnew := hcalls h (by simp)
    unfold addField at hf
    split at hf
    · rename_i hallowed
      have hf' : f = ⟨h.name, h.value⟩ ∨ f ∈ fields := by
        split at hf
        · simpa using hf
        · simpa [or_comm] using hf
      rcases hf' with rfl | hf'
      · exact hnew hallowed
      · exact hfields f hf'
    · exact hfields f hf

end HTTPClient
