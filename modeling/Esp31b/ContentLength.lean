import Esp31b.ClientHistory
import Esp31b.TargetUrl

/-!
# One `Content-Length` to a request

`sendRequest` announces a body with `addHeader`. So the line becomes a part of
`_Headers`, as if the application had added it, and stays there: `begin` is
the only one to clear them. A second request without a `begin` in between
announces the body of the first, and its own behind that if it has one.

`ClientHistory.contentLength_of_run` says that this is all: the header of a
request has its one line, or none, as long as nothing was announced since the
last `begin`. What the application passes is taken to be one line each and
without NUL: a line feed in a header value, say, can make any line, and a NUL
ends what is appended with it, so that the lines behind it are not sent.
-/

namespace HTTPClient

/-! ## The lines of a header -/

/-- The name of a header line. -/
def lineName (line : WString) : WString := (line.takeWhile (· ≠ 0x3A)).map tolower

/-- A line `Content-Length`, in any case of letters. -/
def isContentLength (line : WString) : Bool :=
  decide (0x3A ∈ line) && lineName line == ascii "content-length"

/-- **The `Content-Length` lines of a header**, behind its first line. -/
def contentLengthLines (block : WString) : List WString :=
  ((block.splitOn 0x0A).drop 1).filter isContentLength

/-- The line for a body of this size. The line feed is cut off. -/
def contentLengthLine (size : ℕ) : WString :=
  ascii "Content-Length: " ++ ascii (toString size) ++ [0x0D]

/-- The lines that a field makes. -/
def linesOf (f : RequestArgument) : List WString :=
  (f.key ++ ascii ": " ++ f.value ++ [0x0D]).splitOn 0x0A

variable {f : RequestArgument} {fields : List RequestArgument}

/-- The pieces of a text consist of its bytes. -/
theorem mem_of_mem_splitOn {a b : UInt8} {text piece : WString}
    (hpiece : piece ∈ text.splitOn a)
    (hb : b ∈ piece) : b ∈ text := by
  induction text generalizing piece with
  | nil =>
    rw [List.splitOn_nil, List.mem_singleton] at hpiece
    exact hpiece ▸ hb
  | cons x text ih =>
    rw [List.splitOn_cons_eq_if_modifyHead] at hpiece
    split at hpiece
    · rcases List.mem_cons.mp hpiece with rfl | hpiece
      · cases hb
      · exact List.mem_cons_of_mem _ (ih hpiece hb)
    · obtain ⟨first, pieces, hsplit⟩ := List.exists_cons_of_ne_nil (List.splitOn_ne_nil a text)
      rw [hsplit, List.modifyHead_cons] at hpiece
      rcases List.mem_cons.mp hpiece with rfl | hpiece
      · rcases List.mem_cons.mp hb with rfl | hb
        · exact List.mem_cons_self
        · exact List.mem_cons_of_mem _ (ih (hsplit ▸ List.mem_cons_self) hb)
      · exact List.mem_cons_of_mem _ (ih (hsplit ▸ List.mem_cons_of_mem _ hpiece) hb)

theorem splitOn_fieldsText (fields : List RequestArgument) (rest : WString) :
    (fieldsText fields ++ rest).splitOn 0x0A = fields.flatMap linesOf ++ rest.splitOn 0x0A := by
  induction fields with
  | nil => rfl
  | cons f fields ih =>
    have hcrlf : ascii "\r\n" = [0x0D] ++ [0x0A] := by decide
    have htext : fieldsText (f :: fields) ++ rest
        = (f.key ++ ascii ": " ++ f.value ++ [0x0D]) ++ 0x0A ::
        (fieldsText fields ++ rest) := by
      simp [fieldText, hcrlf]
    rw [htext, List.splitOn_append_cons_self, ih, List.flatMap_cons, ← List.append_assoc]
    rfl

/-- **The `Content-Length` lines of a header** are those of its fields. -/
theorem contentLengthLines_headerText {c : HTTPClient} (hc : c.headers = fieldsText fields)
    (hplain : ∀ f ∈ c.ownFields ++ fields, NulFree f) (hurl : 0 ∉ c.url) {type : WString}
    (htype : 0 ∉ type) (hline : 0x0A ∉ c.requestLine type) :
    contentLengthLines (c.headerText type)
      = (c.ownFields ++ fields).flatMap (fun f => (linesOf f).filter isContentLength) := by
  have hcrlf : ascii "\r\n" = [0x0D] ++ [0x0A] := by decide
  have htext : c.headerText type = (c.requestLine type ++ [0x0D]) ++
      0x0A :: (fieldsText (c.ownFields ++ fields) ++ ([0x0D] ++ [0x0A])) := by
    rw [headerText_fields hc hplain hurl htype, hcrlf]
    simp
  have hend : ([0x0D] ++ [0x0A] : WString).splitOn 0x0A = [[0x0D], []] := by decide
  unfold contentLengthLines
  rw [htext, List.splitOn_append_cons_self, List.splitOn_eq_singleton (by simp [hline]),
    List.singleton_append,
    List.drop_one, List.tail_cons, splitOn_fieldsText, hend, List.filter_append,
      List.filter_flatMap]
  simp [show isContentLength [0x0D] = false by decide,
    show isContentLength [] = false by decide]

/-- The name is what is in front of the first colon. -/
theorem lineName_append (name rest : WString) :
    lineName (name ++ 0x3A :: rest) = lineName name := by
  unfold lineName
  rw [List.takeWhile_append, List.takeWhile_cons_of_neg (by decide), List.append_nil]
  split
  · rename_i hlen
    rw [(List.takeWhile_prefix _).eq_of_length hlen]
  · rfl

/-- A field on one line. -/
theorem linesOf_single (hkey : 0x0A ∉ f.key) (hvalue : 0x0A ∉ f.value) :
    linesOf f = [f.key ++ ascii ": " ++ f.value ++ [0x0D]] := by
  have hsep : 0x0A ∉ ascii ": " := by decide
  exact List.splitOn_eq_singleton (by simp [hkey, hvalue, hsep])

theorem filter_linesOf (hkey : 0x0A ∉ f.key) (hvalue : 0x0A ∉ f.value) :
    (linesOf f).filter isContentLength
      = if lineName f.key = ascii "content-length" then
          [f.key ++ ascii ": " ++ f.value ++ [0x0D]] else [] := by
  have hsep : f.key ++ ascii ": " ++ f.value ++ [0x0D] =
      f.key ++ 0x3A :: (0x20 :: (f.value ++ [0x0D])) := by
    have hcolon : ascii ": " = [0x3A, 0x20] := by decide
    rw [hcolon]
    simp
  rw [linesOf_single hkey hvalue, List.filter_singleton, isContentLength, hsep, lineName_append]
  by_cases hname : lineName f.key = ascii "content-length"
  · simp [hname]
  · rw [if_neg hname, beq_eq_false_iff_ne.mpr hname, Bool.and_false]
    rfl

/-- A line without colon is none. -/
theorem not_isContentLength {line : WString} (h : 0x3A ∉ line) :
    isContentLength line = false := by
  simp [isContentLength, h]

/-- **The authorization** may be broken into lines, and none of them is one. -/
theorem filter_linesOf_authorization {value : WString} (h : 0x3A ∉ value) :
    (linesOf ⟨ascii "Authorization", ascii "Basic " ++ value⟩).filter isContentLength = [] := by
  have hlines : linesOf ⟨ascii "Authorization", ascii "Basic " ++ value⟩
      = (ascii "Authorization: Basic " ++ (value ++ [0x0D])).splitOn 0x0A := by
    have htext : ascii "Authorization: Basic " =
        ascii "Authorization" ++ (ascii ": " ++ ascii "Basic ") := by
      decide
    unfold linesOf
    rw [htext]
    simp only [List.append_assoc]
  have hfirst : ∀ p : WString, 0x0A ∉ p →
      isContentLength (ascii "Authorization: Basic " ++ p) = false := by
    intro p _
    have htext : ascii "Authorization: Basic " =
        ascii "Authorization" ++ 0x3A :: ascii " Basic " := by
      decide
    have hname : lineName (ascii "Authorization: Basic " ++ p) ≠ ascii "content-length" := by
      rw [htext, List.append_assoc, List.cons_append, lineName_append]
      decide
    simp [isContentLength, hname]
  rw [hlines]
  have hplain : 0x0A ∉ ascii "Authorization: Basic " := by decide
  have hrest : 0x3A ∉ value ++ [0x0D] := by simp [h]
  generalize value ++ [0x0D] = rest at hrest
  by_cases hfeed : 0x0A ∈ rest
  · obtain ⟨p, t, rfl, hp⟩ := List.eq_append_cons_of_mem hfeed
    rw [← List.append_assoc, List.splitOn_append_cons_self, List.splitOn_eq_singleton
      (by simp [hplain, hp]),
      List.filter_append, List.filter_singleton, hfirst p hp]
    have hcolon : 0x3A ∉ t := fun ht => hrest (by simp [ht])
    have hnone : ∀ line ∈ t.splitOn 0x0A, isContentLength line = false := fun line hline =>
      not_isContentLength fun hmem => hcolon (mem_of_mem_splitOn hline hmem)
    simpa using hnone
  · rw [List.splitOn_eq_singleton (by simp [hplain, hfeed]), List.filter_singleton,
      hfirst rest hfeed]
    rfl

/-! ## What `_Headers` has -/

/-- **One line**, that is appended whole: without line feed and NUL. -/
def SingleLine (text : WString) : Prop := 0x0A ∉ text ∧ 0 ∉ text

instance (text : WString) : Decidable (SingleLine text) := inferInstanceAs (Decidable (_ ∧ _))

/-- Whatever a text is made of. -/
theorem SingleLine.subset {s t : WString} (h : SingleLine t) (hs : s ⊆ t) : SingleLine s :=
  ⟨fun hb => h.1 (hs hb), fun hb => h.2 (hs hb)⟩

/-- **A client whose texts are one line each.** `quiet` says that nothing in
`_Headers` announces a body. -/
structure Plain (quiet : Prop) (c : HTTPClient) : Prop where
  host : SingleLine c.host
  url : SingleLine c.url
  userAgent : SingleLine c.userAgent
  authorization : 0x3A ∉ c.base64Authorization ∧ 0 ∉ c.base64Authorization
  headers : ∃ fields, c.headers = fieldsText fields ∧
    (∀ f ∈ fields, SingleLine f.key ∧ SingleLine f.value) ∧
    (quiet → ∀ f ∈ fields, lineName f.key ≠ ascii "content-length")

variable {c d : HTTPClient} {quiet quiet' : Prop}

theorem Plain.congr (h : Plain quiet c) (hsetup : d.setup = c.setup) : Plain quiet d := by
  obtain ⟨hhost, hparts⟩ := Prod.mk.inj hsetup
  injection hparts with _ hurl hheaders hagent hauthorization
  exact ⟨hhost ▸ h.host, hurl ▸ h.url, hagent ▸ h.userAgent, hauthorization ▸ h.authorization,
    hheaders ▸ h.headers⟩

theorem Plain.mono (h : Plain quiet c) (hquiet : quiet' → quiet) : Plain quiet' c := by
  obtain ⟨fields, hfields, hlines, hnone⟩ := h.headers
  exact { h with headers := ⟨fields, hfields, hlines, fun hq => hnone (hquiet hq)⟩ }

/-- The client's own lines announce nothing. -/
theorem Plain.ownFields (h : Plain quiet c) :
    c.ownFields.flatMap (fun f => (linesOf f).filter isContentLength) = [] := by
  have hnames : ∀ name ∈
    [ascii "Host", ascii "User-Agent", ascii "Connection", ascii "Accept-Encoding"],
      0x0A ∉ name ∧ lineName name ≠ ascii "content-length" := by decide
  have hone : ∀ (name value : WString),
    name ∈ [ascii "Host", ascii "User-Agent", ascii "Connection",
      ascii "Accept-Encoding"] → 0x0A ∉ value →
        (linesOf ⟨name, value⟩).filter isContentLength = [] :=
    fun name value hname hvalue => by
      rw [filter_linesOf (hnames name hname).1 hvalue, if_neg (hnames name hname).2]
  rw [List.flatMap_eq_nil_iff]
  intro f hf
  simp only [HTTPClient.ownFields, List.mem_cons, List.mem_append] at hf
  rcases hf with rfl | rfl | rfl | hf | hf
  · exact hone _ _ (by simp) h.host.1
  · exact hone _ _ (by simp) h.userAgent.1
  · refine hone _ _ (by simp) ?_
    cases c.reuse <;> decide
  · split at hf
    · cases hf
    · rw [List.mem_singleton.mp hf]
      exact hone _ _ (by simp) (by decide)
  · split at hf
    · rw [List.mem_singleton.mp hf]
      exact filter_linesOf_authorization h.authorization.1
    · cases hf

/-- They are appended whole. -/
theorem Plain.nulFree (h : Plain quiet c) : ∀ f ∈ c.ownFields, NulFree f := by
  have hnames : 0 ∉ ascii "Host" ∧ 0 ∉ ascii "User-Agent" ∧ 0 ∉ ascii "Connection" ∧
      0 ∉ ascii "Accept-Encoding" ∧ 0 ∉ ascii "Authorization" ∧ 0 ∉ ascii "Basic " := by
    decide
  obtain ⟨hhost, hagent, hconnection, hencoding, hauthorization, hbasic⟩ := hnames
  intro f hf
  simp only [HTTPClient.ownFields, List.mem_cons, List.mem_append] at hf
  rcases hf with rfl | rfl | rfl | hf | hf
  · exact ⟨hhost, h.host.2⟩
  · exact ⟨hagent, h.userAgent.2⟩
  · refine ⟨hconnection, ?_⟩
    cases c.reuse <;> decide
  · split at hf
    · cases hf
    · rw [List.mem_singleton.mp hf]
      exact ⟨hencoding, by decide⟩
  · split at hf
    · rw [List.mem_singleton.mp hf]
      refine ⟨hauthorization, fun hmem => ?_⟩
      rcases List.mem_append.mp hmem with hmem | hmem
      · exact hbasic hmem
      · exact h.authorization.2 hmem
    · cases hf

/-- A line that is added. -/
theorem Plain.addHeader (h : Plain quiet c) {name value : WString} (first : Bool)
    (hname : SingleLine name) (hvalue : SingleLine value)
    (hquiet : quiet → lineName name ≠ ascii "content-length") :
    Plain quiet (c.addHeader name value first) := by
  obtain ⟨fields, hfields, hlines, hnone⟩ := h.headers
  have hmem : ∀ f ∈ c.addField fields ⟨name, value, first⟩, f = ⟨name, value⟩ ∨ f ∈ fields := by
    intro f hf
    unfold addField at hf
    split_ifs at hf
    · simpa using hf
    · simpa [or_comm] using hf
    · exact Or.inr hf
  have hsingle : ∀ f ∈ c.addField fields ⟨name, value, first⟩,
      SingleLine f.key ∧ SingleLine f.value := by
    intro f hf
    rcases hmem f hf with rfl | hf
    · exact ⟨hname, hvalue⟩
    · exact hlines f hf
  have hadd := addHeader_fields hfields ⟨name, value, first⟩ fun f hf =>
    ⟨(hsingle f hf).1.2, (hsingle f hf).2.2⟩
  dsimp only at hadd
  rw [hadd]
  refine { h with headers := ⟨_, rfl, hsingle, fun hq f hf => ?_⟩ }
  · rcases hmem f hf with rfl | hf
    · exact hquiet hq
    · exact hnone hq f hf

/-- A number is one line. -/
theorem singleLine_decimal (n : ℕ) : SingleLine (ascii (toString n)) :=
  ⟨newline_not_mem_decimal n, fun hmem => absurd (digit_of_mem_decimal hmem).1 (by decide)⟩

/-- The line of a body is always added. -/
theorem allowed_contentLength (c : HTTPClient) : c.allowed (ascii "Content-Length") = true := by
  unfold allowed
  rw [show WString.equalsIgnoreCase (ascii "Content-Length") (ascii "Authorization") = false by
    decide, Bool.and_false]
  decide

/-- **The header of a request has its own line**, and no other. -/
theorem Plain.contentLength (h : Plain True c) {type : WString} (htype : SingleLine type)
    (size : ℕ) :
    contentLengthLines ((c.announce size).headerText type) =
      if 0 < size then [contentLengthLine size] else [] := by
  have hline : ∀ headers : WString,
      0x0A ∉ ({ c with headers := headers } : HTTPClient).requestLine type := by
    intro headers
    have hversion : 0x0A ∉ ascii "HTTP/1." ∧ 0x0A ∉ ascii "0" ∧ 0x0A ∉ ascii "1" := by decide
    unfold requestLine
    cases c.useHTTP10 <;> simp [htype.1, h.url.1, hversion]
  obtain ⟨fields, hfields, hlines, hnone⟩ := h.headers
  have hquiet : fields.flatMap (fun f => (linesOf f).filter isContentLength) = [] := by
    rw [List.flatMap_eq_nil_iff]
    intro f hf
    rw [filter_linesOf (hlines f hf).1.1 (hlines f hf).2.1, if_neg (hnone trivial f hf)]
  have hfree : ∀ f ∈ fields, NulFree f := fun f hf => ⟨(hlines f hf).1.2, (hlines f hf).2.2⟩
  unfold announce
  split
  · set added := fields ++ [⟨ascii "Content-Length", ascii (toString size)⟩] with hadded
    have hname : SingleLine (ascii "Content-Length") ∧
        lineName (ascii "Content-Length") = ascii "content-length" := by
      decide
    have haddedFree : ∀ f ∈ added, NulFree f := by
      intro f hf
      rcases List.mem_append.mp hf with hf | hf
      · exact hfree f hf
      · rw [List.mem_singleton.mp hf]
        exact ⟨hname.1.2, (singleLine_decimal size).2⟩
    have hfield : c.addField fields ⟨ascii "Content-Length", ascii (toString size), false⟩ =
        added := by
      rw [addField, if_pos (allowed_contentLength c)]
      rfl
    have hadd : c.addHeader (ascii "Content-Length") (ascii (toString size)) false
        = { c with headers := fieldsText added } := by
      refine (addHeader_fields hfields ⟨ascii "Content-Length", ascii (toString size), false⟩
        (hfield ▸ haddedFree)).trans ?_
      rw [hfield]
    have heads : ({ c with headers := fieldsText added } : HTTPClient).headers =
        fieldsText added :=
      rfl
    have hall : ∀ f ∈ c.ownFields ++ added, NulFree f := List.forall_mem_append.mpr
      ⟨h.nulFree, haddedFree⟩
    rw [hadd, contentLengthLines_headerText heads hall h.url.2 htype.2 (hline _)]
    show (c.ownFields ++ added).flatMap _ = _
    rw [hadded, List.flatMap_append, List.flatMap_append, h.ownFields, hquiet, List.nil_append,
      List.nil_append, List.flatMap_singleton,
      filter_linesOf hname.1.1 (newline_not_mem_decimal size), if_pos hname.2]
    show [ascii "Content-Length" ++ ascii ": " ++ ascii (toString size) ++ [0x0D]] =
      [contentLengthLine size]
    rw [contentLengthLine, show ascii "Content-Length: " =
      ascii "Content-Length" ++ ascii ": " by decide]
  · rw [contentLengthLines_headerText hfields (List.forall_mem_append.mpr ⟨h.nulFree, hfree⟩)
      h.url.2 htype.2 (hline c.headers), List.flatMap_append,
      h.ownFields, hquiet]
    rfl

/-- What a request adds is one line each, too. -/
theorem Plain.ready (h : Plain quiet c) (answer : Answer) (size : ℕ) :
    Plain (quiet ∧ ((c.connect answer).1 && decide (0 < size)) = false)
      (c.ready answer size) := by
  have hconnect := h.congr (setup_connect c answer)
  unfold HTTPClient.ready announce
  split
  · split
    · rename_i hup hsize
      have hweaker : Plain (quiet ∧ ((c.connect answer).1 && decide (0 < size)) = false)
          (c.connect answer).2 :=
        hconnect.mono And.left
      refine hweaker.addHeader false (by decide) (singleLine_decimal size) ?_
      rintro ⟨-, hnone⟩
      simp [hup, hsize] at hnone
    · exact hconnect.mono And.left
  · exact hconnect.mono And.left

/-- A `begin` with a URL on one line. -/
theorem Plain.begin (h : Plain quiet c) {url : WString} (hurl : SingleLine url) :
    Plain True (c.begin url) := by
  have hreset : Plain True c.reset := { h with headers := ⟨[], rfl, by simp, by simp⟩ }
  rw [begin_eq]
  cases hu : parseUrl url with
  | none => exact hreset
  | some u =>
    have hhost : u.host ⊆ url := fun b hb => (mem_of_parseUrl hu).1 hb
    have hpath : u.path ⊆ url := fun b hb => (mem_of_parseUrl hu).2 hb
    refine { hreset with
      host := hurl.subset hhost, url := hurl.subset hpath, authorization := ?_ }
    show 0x3A ∉ (u.authorization.map base64Encode).getD c.base64Authorization ∧
      0 ∉ (u.authorization.map base64Encode).getD c.base64Authorization
    cases u.authorization with
    | none => exact h.authorization
    | some text =>
      have hvalue : ∀ b, Cencode.base64EncodeValue b ≠ 0x3A ∧ Cencode.base64EncodeValue b ≠ 0 :=
        fun b =>
          have hplain := Base64.alphabet_plain _ (Cencode.base64EncodeValue_mem b)
          ⟨hplain.2.2.1, hplain.2.1⟩
      have hchars := Cencode.forall_base64EncodeChars (P := fun b => b ≠ 0x3A ∧ b ≠ 0) hvalue
        (by decide) (by decide) text
      exact ⟨fun hcolon => (hchars _ hcolon).1 rfl, fun hzero => (hchars _ hzero).2 rfl⟩

theorem Plain.beginHost (h : Plain quiet c) {host url : WString} (port : UInt16)
    (hhost : 0x0A ∉ host) (hurl : 0x0A ∉ url) : Plain True (c.beginHost host port url) where
  host := ⟨fun hb => hhost ((List.takeWhile_prefix _).subset hb), zero_not_mem_cstr host⟩
  url := ⟨fun hb => hurl ((List.takeWhile_prefix _).subset hb), zero_not_mem_cstr url⟩
  userAgent := h.userAgent
  authorization := h.authorization
  headers := ⟨[], rfl, by simp, by simp⟩

end HTTPClient

namespace ClientHistory

open HTTPClient

/-- **Nothing is announced twice**: a request finds nothing announced since
the last `begin`, and what is passed to the client is one line each, without
NUL. The application does not announce a body itself. -/
def AnnouncesOnce (h : ClientHistory) : ClientCall → Prop
  | .begin url => SingleLine url
  | .beginHost host _ url => 0x0A ∉ host ∧ 0x0A ∉ url
  | .addHeader name value _ =>
    SingleLine name ∧ SingleLine value ∧ lineName name ≠ ascii "content-length"
  | .setUserAgent userAgent => SingleLine userAgent
  | .sendRequest _ type _ _ => SingleLine type ∧ h.announced = false
  | .sendRequestStream _ type (some _) _ _ _ => SingleLine type ∧ h.announced = false
  | _ => True

instance decidableAnnouncesOnce (h : ClientHistory) (e : ClientCall) :
    Decidable (h.AnnouncesOnce e) :=
  match e with
  | .begin url => inferInstanceAs (Decidable (SingleLine url))
  | .beginHost _ _ _ => inferInstanceAs (Decidable (_ ∧ _))
  | .addHeader _ _ _ => inferInstanceAs (Decidable (_ ∧ _))
  | .setUserAgent userAgent => inferInstanceAs (Decidable (SingleLine userAgent))
  | .sendRequest _ _ _ _ => inferInstanceAs (Decidable (_ ∧ _))
  | .sendRequestStream _ _ (some _) _ _ _ => inferInstanceAs (Decidable (_ ∧ _))
  | .sendRequestStream _ _ none _ _ _ => inferInstanceAs (Decidable True)
  | .setReuse _ => inferInstanceAs (Decidable True)
  | .setUseHTTP10 _ => inferInstanceAs (Decidable True)
  | .setTimeout _ => inferInstanceAs (Decidable True)
  | .collectHeaders _ => inferInstanceAs (Decidable True)
  | .writeToStream _ _ => inferInstanceAs (Decidable True)
  | .getString _ => inferInstanceAs (Decidable True)
  | .end => inferInstanceAs (Decidable True)
  | .lateConnected _ _ => inferInstanceAs (Decidable True)

/-- **The header of every request announces its body**, once, or nothing if
there is none. -/
def Announced (h : ClientHistory) : Prop :=
  ∀ r ∈ h.requests, ∀ block ∈ r.block,
    contentLengthLines block = if 0 < r.size then [contentLengthLine r.size] else []

instance decidableAnnounced (h : ClientHistory) : Decidable h.Announced :=
  inferInstanceAs (Decidable (∀ r ∈ h.requests, _))

/-- What every state of a run has. -/
def Inv (h : ClientHistory) : Prop :=
  h.Announced ∧ ∀ c ∈ h.client, Plain (h.announced = false) c

variable {h t : ClientHistory} {c : HTTPClient}

theorem Inv.after (hinv : h.Inv) {client : Option HTTPClient}
    (hclient : ∀ d ∈ client, Plain (h.announced = false) d) : (h.after client).Inv :=
  ⟨hinv.1, hclient⟩

/-- A call after which the client has the same setup. -/
theorem Inv.keep (hinv : h.Inv) (hc : c ∈ h.client) {client : Option HTTPClient}
    (hsetup : ∀ d ∈ client, d.setup = c.setup) : (h.after client).Inv :=
  hinv.after fun d hd => (hinv.2 c hc).congr (hsetup d hd)

/-- **A request** that finds nothing announced. -/
theorem Inv.request (hinv : h.Inv) (hc : c ∈ h.client)
    (hquiet : h.announced = false) {answer : Answer}
    {type : WString} (htype : SingleLine type) {size : ℕ} {client sent : Option HTTPClient}
    (hsetup : ∀ d ∈ client, d.setup = (c.ready answer size).setup) :
    (h.request c answer type size client sent).Inv := by
  have hplain := hinv.2 c hc
  refine ⟨fun r hr block hblock => ?_, fun d hd => ?_⟩
  · rcases List.mem_append.mp hr with hr | hr
    · exact hinv.1 r hr block hblock
    · obtain rfl := List.mem_singleton.mp hr
      have hconnect : Plain True (c.connect answer).2 :=
        (hplain.congr (setup_connect c answer)).mono fun _ => hquiet
      dsimp only at hblock ⊢
      unfold headerBlock at hblock
      split at hblock
      · obtain rfl := Option.some.inj hblock
        exact hconnect.contentLength htype size
      · cases hblock
  · refine ((hplain.ready answer size).congr (hsetup d hd)).mono fun hq => ?_
    have hboth : (h.announced || ((c.connect answer).1 && decide (0 < size))) = false := hq
    simpa using hboth

/-- **One call.** -/
theorem Inv.step (hinv : h.Inv) {e : ClientCall} (honce : h.AnnouncesOnce e)
    (hstep : h.step e = some t) :
    t.Inv := by
  obtain ⟨c, hc, heffect⟩ := effect_of_step hstep
  have hplain := hinv.2 c hc
  have hone : ∀ {d : HTTPClient} {P : HTTPClient → Prop}, P d → ∀ e ∈ some d, P e :=
    fun hd e he => by
    obtain rfl := Option.some.inj he
    exact hd
  cases heffect with
  | begin url => exact ⟨hinv.1, hone ((hplain.begin honce).mono fun _ => trivial)⟩
  | beginHost host port url =>
    exact ⟨hinv.1, hone ((hplain.beginHost port honce.1 honce.2).mono fun _ => trivial)⟩
  | addHeader name value first =>
    exact hinv.after (hone (hplain.addHeader first honce.1 honce.2.1 fun _ => honce.2.2))
  | setUserAgent userAgent => exact hinv.after (hone { hplain with userAgent := honce })
  | setUseHTTP10 useHTTP10 => exact hinv.after (hone { hplain with })
  | sendRequest answer type payload turns client sent hsetup =>
    exact hinv.request hc honce.2 honce.1 hsetup
  | sendRequestStream answer type stream size ram turns client sent hsetup =>
    exact hinv.request hc honce.2 honce.1 hsetup
  | keep _ client _ hsetup => exact hinv.keep hc hsetup

/-- **One `Content-Length` to a request**, in every run in which nothing is
announced twice. -/
theorem contentLength_of_run {es : List ClientCall}
    (honce : machine.Along AnnouncesOnce init es)
    (hrun : machine.run init es = some h) : h.Announced := by
  have hinit : Inv init := by
    refine ⟨fun r hr => by simp [init] at hr, fun c hc => ?_⟩
    obtain rfl := Option.some.inj hc
    exact ⟨by decide, by decide, by decide, by decide, [], rfl, by simp, by simp⟩
  exact (Machine.invariant_of_along (fun _ _ _ hs hP hstep => hs.step hP hstep)
    hinit honce hrun).1

/-- A server that answers what it gets second, with an empty body. -/
def answering : Answer :=
  .opened ⟨[], 0, 0, [], false⟩
    [⟨none, [], false⟩, ⟨none, [⟨ascii "HTTP/1.1 200 OK\r\nContent-Length: 0\r\n\r\n", 1⟩],
      false⟩, ⟨none, [⟨ascii "HTTP/1.1 200 OK\r\nContent-Length: 0\r\n\r\n", 1⟩], false⟩]

/-- A `POST` with a body of two bytes, and a `GET` some calls later. -/
def postThenGet (between : List ClientCall) : List ClientCall :=
  [.begin (ascii "http://a/"), .sendRequest answering (ascii "POST") (ascii "hi") 9] ++
    between ++
    [.sendRequest answering (ascii "GET") [] 9]

/-- With a `begin` in between. -/
theorem contentLength_of_run_begin :
    ∃ h, machine.run init (postThenGet [.begin (ascii "http://a/")]) = some h ∧
      h.Announced := by
  obtain ⟨honce, hsome⟩ :
      machine.Along AnnouncesOnce init (postThenGet [.begin (ascii "http://a/")]) ∧
        (machine.run init (postThenGet [.begin (ascii "http://a/")])).isSome = true := by
    decide +kernel
  obtain ⟨h, hh⟩ := Option.isSome_iff_exists.mp hsome
  exact ⟨h, hh, contentLength_of_run honce hh⟩

/-- **Without, the `GET` announces the body of the `POST`.** -/
theorem not_contentLength_get :
    ∃ h, machine.run init (postThenGet []) = some h ∧ ¬ h.Announced ∧
    h.requests.map SentRequest.size = [2, 0] ∧
    ∀ r ∈ h.requests, ∀ block ∈ r.block, contentLengthLines block = [contentLengthLine 2] := by
  have hsent : (machine.run init (postThenGet [])).any (fun h => ¬ h.Announced ∧
      h.requests.map SentRequest.size = [2, 0] ∧
      ∀ r ∈ h.requests, ∀ block ∈ r.block,
        contentLengthLines block = [contentLengthLine 2]) = true := by
    decide +kernel
  obtain ⟨h, hh, hwrong⟩ := (Option.any_eq_true _ _).mp hsent
  exact ⟨h, hh, of_decide_eq_true hwrong⟩

end ClientHistory
