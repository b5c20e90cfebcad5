import Esp31b.HttpResponse
import Esp31b.ResponseIsolation
import Esp31b.ResponseText

/-!
# From the server to the client

The server writes a response by concatenation, and the client of the other
library reads it line by line: it trims a line, cuts it at the first colon and
takes the value from the second byte behind. `sendHeader` writes a blank
there, so a value comes back as it was (`ResponseWriter.headerField_line`),
also an empty one, whose blank is trimmed and whose place is behind the end of
the line, and one with a colon in it.

So the fields the client finds are the fields of the response, in their order,
and one with an empty name for the empty line. Of equal names the last counts,
and the lines of the server come last. The body starts behind the empty line
and is as long as the server has said.
-/

namespace HTTPClient

/-! ## Over a connection that may be closed -/

variable {c : HTTPClient} {k : Connection} {r : Response} {lines : List (List UInt8)}
  {last rest body : List UInt8}

/-- **A header is read up to its empty line**, also over a connection that is
closed behind it. -/
theorem handleHeaderResponse_of_lines (hk : c.connection = some k) (hto : 0 < k.link.timeout)
    (hp : k.link.pending = sendLines (lines ++ [last]) ++ rest)
    (hlf : ∀ x ∈ lines ++ [last], 0x0A ∉ x)
    (hlines : ∀ x ∈ lines, (WString.trim x).equalsC [] = false)
    (hlast : (WString.trim last).equalsC [] = true)
    (hw : LinesPrompt (sendLines (lines ++ [last])) k.link.waitAt k.link.timeout)
    (hkeys : ∀ a ∈ c.currentHeaders, 0 ∉ a.key)
    (hr : headResponse c.blankResponse ((lines ++ [last]).map WString.trim) = r) :
    ∃ link, k.link.Took (sendLines (lines ++ [last])).length link ∧
      c.handleHeaderResponse.Yields ((responseCode r).1,
        { c.setConnection { k with link := link } with
          returnCode := r.returnCode
          size := r.size
          canReuse := r.canReuse
          currentHeaders := r.currentHeaders
          transferEncoding := (responseCode r).2 }) := by
  have hpoll := k.link.took_poll
  have hne : k.link.pending ≠ [] := by
    rw [hp]
    simp [sendLines]
  have hconnected : c.connected = (true, c.setConnection { k with link := k.link.poll }) := by
    rw [connected, hk]
    dsimp only
    rw [linkConnected_of_pending hne]
  obtain ⟨link, hloop, htook⟩ := headerLoop_yields c.blankResponse (hpoll.timeout ▸ hto)
    (by rw [hpoll.pending, List.drop_zero, hp]) hlf hlines hlast
    (fun j hj hne => by
      rw [hpoll.timeout]
      exact lt_of_le_of_lt (hpoll.waitAt _) (hw j hj hne))
  rw [← List.foldl_map, foldl_handleLine hkeys, hr] at hloop
  refine ⟨link, by simpa using hpoll.trans htook, ?_⟩
  unfold handleHeaderResponse
  rw [hconnected]
  exact Fueled.Yields.bind hloop (Fueled.yields_pure _)

/-- **A body of known length is read**, also over a connection that is closed
behind it. What follows it is not. -/
theorem writeToStream_of_pending {sink : Sink} (hk : c.connection = some k)
    (hto : 0 < k.link.timeout) (hp : k.link.pending = body ++ rest) (hne : body ≠ [])
    (hlt : body.length < 2 ^ 31) (hsize : c.size = body.length)
    (hte : c.transferEncoding = .identity) (hsink : Accepts sink) :
    ∃ d, (c.writeToStream (some sink)).Yields
      ((body.length : ℤ), some (wrote sink body), d) := by
  have hpoll := k.link.took_poll
  have hconnected : c.connected = (true, c.setConnection { k with link := k.link.poll }) := by
    rw [connected, hk]
    dsimp only
    rw [linkConnected_of_pending (hp ▸ List.append_ne_nil_of_left_ne_nil hne rest)]
  have hp' : k.link.poll.pending = body ++ rest := by
    rw [hpoll.pending, List.drop_zero, hp]
  obtain ⟨link, hblock, -⟩ := writeToStreamDataBlock_yields (hpoll.timeout ▸ hto) hp' hlt hsink
  refine ⟨((c.setConnection { k with link := k.link.poll }).setLink link).end, ?_⟩
  unfold writeToStream
  dsimp only
  rw [hconnected]
  have hconn : (c.setConnection { k with link := k.link.poll }).connection =
      some { k with link := k.link.poll } := rfl
  have hte' : (c.setConnection { k with link := k.link.poll }).transferEncoding = .identity :=
    hte
  have hsize' : (c.setConnection { k with link := k.link.poll }).size = body.length := hsize
  simp only [hconn, hte', hsize']
  refine Fueled.Yields.bind hblock ?_
  dsimp only
  rw [if_neg (by omega)]
  exact Fueled.yields_pure _

end HTTPClient

namespace ResponseWriter

open ClientContext (SendEvent SendState)
open HTTPClient

/-! ## One line -/

/-- **A value that survives the trimming**: on one line, and without blanks at
its ends. -/
structure PlainValue (value : WString) : Prop where
  chars : ∀ c ∈ value, c ≠ 0x0A ∧ c ≠ 0
  first : ∀ c ∈ value.head?, isspace c = false
  last : ∀ c ∈ value.getLast?, isspace c = false

/-- **A name** that is none of a status line. -/
structure PlainName (name : WString) : Prop where
  ne : name ≠ []
  chars : ∀ c ∈ name, c ≠ 0x3A ∧ c ≠ 0 ∧ isspace c = false
  status : name.startsWith (ascii "HTTP/1.") = false

/-- A line of the header, its LF apart. -/
def line (f : RequestArgument) : List UInt8 := f.key ++ ascii ": " ++ f.value ++ [0x0D]

variable {f : RequestArgument} {fields : List RequestArgument} {name value : WString} {code : ℕ}

theorem PlainName.zero_not_mem (h : PlainName name) : 0 ∉ name :=
  fun h0 => (h.chars 0 h0).2.1 rfl

/-- A colon ends what could be a status line. -/
theorem PlainName.startsWith (h : PlainName name) (t : WString) :
    WString.startsWith (name ++ 0x3A :: t) (ascii "HTTP/1.") = false := by
  rw [Bool.eq_false_iff]
  intro hstart
  have hprefix : ascii "HTTP/1." <+: name ++ 0x3A :: t :=
    (WString.startsWith_iff (by decide)).mp hstart
  have hname : name <+: name ++ 0x3A :: t := List.prefix_append _ _
  rcases List.prefix_or_prefix_of_prefix hprefix hname with hshort | hlong
  · have hstatus := h.status
    rw [(WString.startsWith_iff (by decide)).mpr hshort] at hstatus
    cases hstatus
  · -- what follows the name would start with the colon
    obtain ⟨rest, hrest⟩ := hlong
    rw [← hrest, List.prefix_append_right_inj] at hprefix
    cases rest with
    | nil =>
      have hstatus := h.status
      rw [List.append_nil] at hrest
      rw [hrest] at hstatus
      exact absurd hstatus (by decide)
    | cons c rest =>
      obtain rfl := (List.cons_prefix_cons.mp hprefix).1
      have hcolon : (0x3A : UInt8) ∈ ascii "HTTP/1." := by
        rw [← hrest]
        simp
      exact absurd hcolon (by decide)

/-- **A line with a name is cut at its first colon**, and the value is what is
behind the next byte, up to a NUL. -/
theorem headerField_append (hname : PlainName name) (t : WString)
    (hlen : name.length + 2 < 2 ^ 32) :
    headerField (name ++ 0x3A :: t) = some ⟨name, cstr (t.drop 1)⟩ := by
  have hindex : WString.indexOf (name ++ 0x3A :: t) 0x3A 0 = name.length :=
    WString.indexOf_append (fun c hc => ⟨(hname.chars c hc).1, (hname.chars c hc).2.1⟩)
      (by decide)
  have hpos : (name.length : ℤ) ≠ 0 := by
    have := List.length_pos_iff.mpr hname.ne
    omega
  have hsub : WString.substring (name ++ 0x3A :: t) 0 (WString.pos name.length) = name := by
    rw [WString.pos_natCast (by omega), WString.substring_of_le (Nat.zero_le _), List.drop_zero,
      List.take_left, cstr_of_not_mem hname.zero_not_mem]
  have hvalue : WString.substring (name ++ 0x3A :: t) (WString.pos (name.length + 2))
      (name ++ 0x3A :: t).length = cstr (t.drop 1) := by
    rw [show ((name.length : ℤ) + 2) = ((name.length + 2 : ℕ) : ℤ) by omega,
      WString.pos_natCast hlen, WString.substring_to_end, List.drop_append,
      List.drop_eq_nil_of_le (by omega), List.nil_append,
      show name.length + 2 - name.length = 1 + 1 by omega, List.drop_succ_cons]
  unfold headerField
  rw [hname.startsWith t, if_neg Bool.false_ne_true, hindex, if_neg hpos, hsub, hvalue]

/-- A line, trimmed: the blank in front of an empty value is gone. -/
theorem trim_line (hname : PlainName f.key) (hvalue : PlainValue f.value) :
    WString.trim (line f) = f.key ++ 0x3A ::
      (if f.value = [] then [] else 0x20 :: f.value) := by
  have hsplit : line f = f.key ++ 0x3A :: ([0x20] ++ f.value ++ [0x0D]) := by
    simp [line, ascii]
  have hpad : ∀ c ∈ [(0x20 : UInt8)], isspace c = true := fun c hc => by
    rw [List.mem_singleton.mp hc]
    decide
  have hblank : ∀ c ∈ [(0x0D : UInt8)], isspace c = true := fun c hc => by
    rw [List.mem_singleton.mp hc]
    decide
  rw [hsplit, WString.trim_field hname.ne (fun c hc => (hname.chars c hc).2.2) hpad hvalue.last
    hblank]
  rfl

/-- **A line comes back as its name and its value.** -/
theorem headerField_line (hname : PlainName f.key) (hvalue : PlainValue f.value)
    (hlen : f.key.length + 2 < 2 ^ 32) : headerField (WString.trim (line f)) = some f := by
  have h0 : 0 ∉ f.value := fun h => (hvalue.chars 0 h).2 rfl
  rw [trim_line hname hvalue]
  split
  · rename_i hnil
    rw [headerField_append hname _ hlen]
    exact congrArg some (congrArg (RequestArgument.mk f.key) hnil.symm)
  · rw [headerField_append hname _ hlen, List.drop_one, List.tail_cons, cstr_of_not_mem h0]

/-! ## The status line -/

/-- The status line, its LF apart. -/
def statusText (code : ℕ) : List UInt8 :=
  (ascii "HTTP/1.1 " ++ ascii (toString code)) ++ 0x20 :: (responseCodeToString code ++ [0x0D])

theorem statusLine_eq (code : ℕ) : statusLine code = statusText code ++ [0x0A] := by
  have hint : toString (code : ℤ) = toString code := rfl
  rw [statusLine, hint]
  simp [statusText, ascii]

/-- A reason is on the line. -/
theorem responseCodeToString_plain (code : ℤ) : 0x0A ∉ responseCodeToString code := by
  unfold responseCodeToString
  cases hcode : responseCodes.lookup code with
  | none => decide
  | some reason =>
    have hplain : ∀ p ∈ responseCodes, 0x0A ∉ ascii p.2 := by decide +kernel
    obtain ⟨l₁, l₂, heq, -⟩ := List.lookup_eq_some_iff.mp hcode
    exact hplain (code, reason) (by rw [heq]; simp)

/-- A digit is neither a blank nor NUL. -/
theorem decimal_plain {code : ℕ} {c : UInt8} (hc : c ∈ ascii (toString code)) :
    c ≠ 0x20 ∧ c ≠ 0 ∧ isspace c = false := by
  obtain ⟨hne, hspace, -⟩ := digit_cases (lt_trans (digitVal_of_mem_decimal hc) (by decide))
  refine ⟨?_, hne, hspace⟩
  rintro rfl
  exact absurd hspace (by decide)

/-- What is left of the status line. -/
theorem trim_statusText (code : ℕ) : ∃ t, WString.trim (statusText code) =
    (ascii "HTTP/1.1 " ++ ascii (toString code)) ++ t ∧ (t = [] ∨ ∃ u, t = 0x20 :: u) := by
  refine ⟨(0x20 :: (responseCodeToString code ++ [0x0D])).rdropWhile isspace,
    WString.trim_append ?_ ?_ ?_ _, WString.rdropWhile_cons _ _⟩
  · exact List.append_ne_nil_of_left_ne_nil (by decide) _
  · intro c hc
    obtain rfl : 0x48 = c := by simpa [ascii] using hc
    decide
  · intro c hc
    rw [List.getLast?_append_of_ne_nil _ (decimal_ne_nil code)] at hc
    exact (decimal_plain (List.mem_of_getLast? hc)).2.2

/-- The code is cut out of the line, up to the next blank or the end. -/
theorem substring_code (code : ℕ) {t : WString} (ht : t = [] ∨ ∃ u, t = 0x20 :: u)
    (hlen : (ascii "HTTP/1.1 " ++ ascii (toString code)).length < 2 ^ 32) :
    WString.substring ((ascii "HTTP/1.1 " ++ ascii (toString code)) ++ t) 9
      (WString.pos (WString.indexOf ((ascii "HTTP/1.1 " ++ ascii (toString code)) ++ t)
        0x20 9)) =
        ascii (toString code) := by
  have hstart : (ascii "HTTP/1.1 ").length = 9 := by decide
  have hplain : cstr (ascii (toString code)) = ascii (toString code) :=
    cstr_of_not_mem fun h0 => (decimal_plain h0).2.1 rfl
  have hdrop : ((ascii "HTTP/1.1 " ++ ascii (toString code)) ++ t).drop 9 =
      ascii (toString code) ++ t := by
    rw [List.append_assoc, List.drop_left' hstart]
  rw [List.length_append, hstart] at hlen
  rcases ht with rfl | ⟨u, rfl⟩
  · rw [List.append_nil] at hdrop ⊢
    rw [List.append_nil] at hdrop
    rw [WString.indexOf_none (by rw [hdrop]; exact fun h => (decimal_plain h).1 rfl),
      WString.substring_of_le (by decide), List.take_of_length_le
        (WString.length_le_pos_neg_one (by rw [List.length_append, hstart]; exact hlen)), hdrop,
          hplain]
  · rw [WString.indexOf_of_drop hdrop (fun c hc =>
      ⟨(decimal_plain hc).1, (decimal_plain hc).2.1⟩)
      (by decide),
      show ((9 : ℕ) : ℤ) + ((ascii (toString code)).length : ℤ) =
        ((9 + (ascii (toString code)).length : ℕ) : ℤ) by
        omega,
      WString.pos_natCast hlen, WString.substring_of_le (by omega), List.drop_take, hdrop,
      List.take_left' (by omega), hplain]

/-- **The code is read from the status line**, with a reason or without. -/
theorem headerStatus_text {code : ℕ} (hcode : code < 2 ^ 31)
    (hlen : (ascii "HTTP/1.1 " ++ ascii (toString code)).length < 2 ^ 32) :
    headerStatus (WString.trim (statusText code)) = some (code : ℤ) := by
  obtain ⟨t, htrim, ht⟩ := trim_statusText code
  have hstart : WString.startsWith ((ascii "HTTP/1.1 " ++ ascii (toString code)) ++ t)
      (ascii "HTTP/1.") = true := by
    rw [show ascii "HTTP/1.1 " = ascii "HTTP/1." ++
      [0x31, 0x20] by decide, List.append_assoc, List.append_assoc,
      WString.startsWith, List.take_left]
    simp
  rw [htrim, headerStatus, if_pos hstart, substring_code code ht hlen,
    WString.toInt, atol_decimal, clampLong_of_le (by omega) (by exact_mod_cast hcode)]

/-! ## The whole header -/

/-- The lines of a response, the empty one last. -/
def responseLines (code : ℕ) (fields : List RequestArgument) : List (List UInt8) :=
  statusText code :: fields.map line

theorem headerText_eq (code : ℕ) (fields : List RequestArgument) :
    headerText code fields = sendLines (responseLines code fields ++ [[0x0D]]) := by
  have hline : ∀ f : RequestArgument, fieldText f = line f ++ [0x0A] := fun f => by
    simp [fieldText, line, ascii]
  have hfields : fieldsText fields = (fields.map line).flatMap (· ++ [0x0A]) := by
    rw [fieldsText, List.flatMap_map]
    exact List.flatMap_congr fun f _ => hline f
  rw [headerText, statusLine_eq, hfields]
  simp [sendLines, responseLines, ascii]

/-- A field that comes back. -/
def PlainField (f : RequestArgument) : Prop :=
  PlainName f.key ∧ PlainValue f.value ∧ f.key.length + 2 < 2 ^ 32

/-- A line ends with its LF, and is not empty. -/
theorem line_plain (h : PlainField f) :
    0x0A ∉ line f ∧ (WString.trim (line f)).equalsC [] = false := by
  obtain ⟨hname, hvalue, -⟩ := h
  refine ⟨?_, ?_⟩
  · have hkey : 0x0A ∉ f.key := fun h => absurd (hname.chars _ h).2.2 (by decide)
    have hval : 0x0A ∉ f.value := fun h => (hvalue.chars _ h).1 rfl
    simp [line, ascii, hkey, hval]
  · obtain ⟨c, name, hkey⟩ := List.exists_cons_of_ne_nil hname.ne
    rw [trim_line hname hvalue, hkey]
    exact HttpResponse.equalsC_nil_of_cons (hname.chars c (by simp [hkey])).2.1

theorem statusText_plain (code : ℕ) :
    0x0A ∉ statusText code ∧ (WString.trim (statusText code)).equalsC [] = false := by
  refine ⟨?_, ?_⟩
  · have hcode := newline_not_mem_decimal code
    have hreason := responseCodeToString_plain code
    simp only [statusText, List.mem_append, List.mem_cons, hcode, hreason]
    decide
  · obtain ⟨t, htrim, -⟩ := trim_statusText code
    rw [htrim]
    exact HttpResponse.equalsC_nil_of_cons (by decide)

theorem responseLines_plain (code : ℕ) (hfields : ∀ f ∈ fields, PlainField f) :
    ∀ x ∈ responseLines code fields, 0x0A ∉ x ∧ (WString.trim x).equalsC [] = false := by
  intro x hx
  rcases List.mem_cons.mp hx with rfl | hx
  · exact statusText_plain code
  · obtain ⟨f, hf, rfl⟩ := List.mem_map.mp hx
    exact line_plain (hfields f hf)

/-- What the client makes lines of. -/
def readLines (code : ℕ) (fields : List RequestArgument) : List WString :=
  (responseLines code fields ++ [[0x0D]]).map WString.trim

theorem readLines_eq (code : ℕ) (fields : List RequestArgument) : readLines code fields =
    WString.trim (statusText code) ::
      (fields.map (fun f => WString.trim (line f)) ++ [[]]) := by
  have hempty : WString.trim [0x0D] = [] := by decide
  simp [readLines, responseLines, hempty, Function.comp_def]

/-- **The fields the client finds**, in the order they were sent. The empty
line is one without a name. -/
theorem headerFields_readLines (hcode : code < 2 ^ 31)
    (hlen : (ascii "HTTP/1.1 " ++ ascii (toString code)).length < 2 ^ 32)
    (hfields : ∀ f ∈ fields, PlainField f) :
    headerFields (readLines code fields) = fields ++ [⟨[], []⟩] := by
  have hstatus : headerField (WString.trim (statusText code)) = none := by
    cases hf : headerField (WString.trim (statusText code)) with
    | none => rfl
    | some f => cases (headerStatus_text hcode hlen).symm.trans (headerStatus_of_some hf)
  have hempty : headerField [] = some ⟨[], []⟩ := by decide
  rw [headerFields, readLines_eq, List.filterMap_cons_none hstatus, List.filterMap_append,
    List.filterMap_map,
    List.filterMap_cons_some hempty, List.filterMap_nil]
  refine congrArg (· ++ _) ?_
  exact (List.filterMap_congr fun f hf => headerField_line (hfields f hf).1 (hfields f hf).2.1
    (hfields f hf).2.2).trans List.filterMap_some

/-- **There is one status line.** -/
theorem headerStatus_readLines (hcode : code < 2 ^ 31)
    (hlen : (ascii "HTTP/1.1 " ++ ascii (toString code)).length < 2 ^ 32)
    (hfields : ∀ f ∈ fields, PlainField f) :
    (readLines code fields).filterMap headerStatus = [(code : ℤ)] := by
  have hempty : headerStatus [] = none := by decide
  have hnone : (fields.map (fun f => WString.trim (line f))).filterMap headerStatus = [] := by
    rw [List.filterMap_eq_nil_iff]
    intro x hx
    obtain ⟨f, hf, rfl⟩ := List.mem_map.mp hx
    exact headerStatus_of_some
      (headerField_line (hfields f hf).1 (hfields f hf).2.1 (hfields f hf).2.2)
  rw [readLines_eq, List.filterMap_cons_some (headerStatus_text hcode hlen),
    List.filterMap_append, hnone,
    List.filterMap_cons_none hempty]
  rfl

/-- The empty line gives no name a value: a field has one. -/
theorem lastValue_concat_nil (hfields : ∀ f ∈ fields, PlainField f) (name : WString) :
    (Collected.lastValue lower (fields ++ [⟨[], []⟩]) name).getD [] =
      (Collected.lastValue lower fields name).getD [] := by
  rw [Collected.lastValue_append, Collected.lastValue_cons, Collected.lastValue_nil,
    Option.none_or]
  split
  · rename_i hname
    have hnone : Collected.lastValue lower fields name = none := by
      rw [← Option.not_isSome_iff_eq_none, Collected.lastValue_isSome]
      rintro ⟨f, hf, heq⟩
      exact (hfields f hf).1.ne (List.map_eq_nil_iff.mp (heq.trans hname.symm))
    rw [hnone]
    rfl
  · rw [Option.none_or]

/-! ## The response -/

/-- **What a handler can send** so that it comes back. -/
structure Sendable (contentType : WString) (calls : List HeaderCall) : Prop where
  contentType : PlainValue contentType
  names : ∀ h ∈ calls, PlainName h.name
  values : ∀ h ∈ calls, PlainValue h.value
  identity : ∀ h ∈ calls, lower h.name ≠ lower (ascii "Transfer-Encoding")

variable {contentType : WString} {calls : List HeaderCall} {contentLength : ℕ}

/-- A field of the handler, or one of the server. -/
theorem responseFields_cases {P : RequestArgument → Prop}
    (htype : P ⟨ascii "Content-Type", contentType⟩)
    (hcalls : ∀ h ∈ calls, P ⟨h.name, h.value⟩)
    (hlength : P ⟨ascii "Content-Length", ascii (toString contentLength)⟩)
    (hclose : P ⟨ascii "Connection", ascii "close"⟩)
    (hallow : P ⟨ascii "Access-Control-Allow-Origin", ascii "*"⟩) :
    ∀ f ∈ responseFields calls contentType contentLength, P f := by
  intro f hf
  simp only [responseFields, List.cons_append, List.mem_cons, List.mem_append,
    List.not_mem_nil, or_false] at hf
  rcases hf with rfl | hf | rfl | rfl | rfl
  · exact htype
  · rcases mem_addCall hf with hnone | ⟨h, hh, rfl⟩
    · cases hnone
    · exact hcalls h hh
  · exact hlength
  · exact hclose
  · exact hallow

/-- A name is shorter than what it is sent in. -/
theorem length_key_le {code : ℤ} (hf : f ∈ fields) :
    f.key.length + 2 ≤ (headerText code fields).length := by
  obtain ⟨fs, gs, rfl⟩ := List.append_of_mem hf
  have hcolon : (ascii ": ").length = 2 := by decide
  simp only [headerText, fieldText, fieldsText_append, fieldsText_cons, List.length_append]
  omega

/-- So is the code. -/
theorem length_code_le (code : ℕ) (fields : List RequestArgument) :
    (ascii "HTTP/1.1 " ++ ascii (toString code)).length ≤ (headerText code fields).length := by
  rw [headerText, statusLine_eq, statusText]
  simp only [List.length_append]
  omega

theorem Sendable.plain (h : Sendable contentType calls) {code : ℤ}
    (hlen : (headerText code (responseFields calls contentType contentLength)).length <
      2 ^ 32) :
    ∀ f ∈ responseFields calls contentType contentLength, PlainField f := by
  have hname : ∀ name ∈
    ["Content-Type", "Content-Length", "Connection", "Access-Control-Allow-Origin"],
      ascii name ≠ [] ∧ (∀ c ∈ ascii name, c ≠ 0x3A ∧ c ≠ 0 ∧ isspace c = false) ∧
        WString.startsWith (ascii name) (ascii "HTTP/1.") = false := by
    decide
  have hown : ∀ name ∈
    ["Content-Type", "Content-Length", "Connection", "Access-Control-Allow-Origin"],
      PlainName (ascii name) := fun name hmem =>
        ⟨(hname name hmem).1, (hname name hmem).2.1, (hname name hmem).2.2⟩
  have hdecimal : PlainValue (ascii (toString contentLength)) := by
    refine ⟨fun c hc => ⟨?_, (decimal_plain hc).2.1⟩, fun c hc => ?_, fun c hc => ?_⟩
    · rintro rfl
      exact absurd (decimal_plain hc).2.2 (by decide)
    · exact (decimal_plain (List.mem_of_head? hc)).2.2
    · exact (decimal_plain (List.mem_of_getLast? hc)).2.2
  have hboth : ∀ f ∈ responseFields calls contentType contentLength, PlainName f.key ∧
      PlainValue f.value :=
    responseFields_cases ⟨hown _ (by simp), h.contentType⟩
      (fun g hg => ⟨h.names g hg, h.values g hg⟩)
      ⟨hown _ (by simp), hdecimal⟩ ⟨hown _ (by simp), by constructor <;> decide⟩
      ⟨hown _ (by simp), by constructor <;> decide⟩
  exact fun f hf => ⟨(hboth f hf).1, (hboth f hf).2, lt_of_le_of_lt (length_key_le hf) hlen⟩

/-- None of the lines has a NUL. -/
theorem Sendable.nulFree (h : Sendable contentType calls) {code : ℤ}
    (hlen : (headerText code (responseFields calls contentType contentLength)).length <
      2 ^ 32) :
    ∀ f ∈ responseFields calls contentType contentLength, NulFree f := by
  intro f hf
  obtain ⟨hname, hvalue, -⟩ := h.plain hlen f hf
  exact ⟨hname.zero_not_mem, fun h0 => (hvalue.chars 0 h0).2 rfl⟩

/-- **The lines of the server count**: they come last. -/
theorem lastValue_own (calls : List HeaderCall) (contentType : WString) (contentLength : ℕ) :
    Collected.lastValue lower (responseFields calls contentType contentLength)
      (ascii "Content-Length") =
        some (ascii (toString contentLength)) ∧
      Collected.lastValue lower (responseFields calls contentType contentLength)
        (ascii "Connection") =
        some (ascii "close") := by
  have hlength : lower (ascii "Content-Length") ≠ lower (ascii "Connection") := by decide
  have hallow : lower (ascii "Access-Control-Allow-Origin") ≠ lower (ascii "Content-Length") ∧
      lower (ascii "Access-Control-Allow-Origin") ≠ lower (ascii "Connection") := by
    decide
  unfold responseFields
  constructor
  · rw [Collected.lastValue_append, Collected.lastValue_cons, Collected.lastValue_cons,
      Collected.lastValue_cons,
      if_pos rfl, if_neg hlength.symm, if_neg hallow.1]
    rfl
  · rw [Collected.lastValue_append, Collected.lastValue_cons, Collected.lastValue_cons,
      Collected.lastValue_cons,
      if_neg hlength, if_pos rfl, if_neg hallow.2]
    rfl

/-- There is no `Transfer-Encoding`. -/
theorem Sendable.lastValue_encoding (h : Sendable contentType calls) (contentLength : ℕ) :
    Collected.lastValue lower (responseFields calls contentType contentLength)
      (ascii "Transfer-Encoding") = none := by
  have hown : ∀ name ∈
    ["Content-Type", "Content-Length", "Connection", "Access-Control-Allow-Origin"],
      lower (ascii name) ≠ lower (ascii "Transfer-Encoding") := by
    decide
  have hother : ∀ f ∈ responseFields calls contentType contentLength,
      lower f.key ≠ lower (ascii "Transfer-Encoding") :=
    responseFields_cases (hown _ (by simp)) h.identity (hown _ (by simp)) (hown _ (by simp))
      (hown _ (by simp))
  rw [← Option.not_isSome_iff_eq_none, Collected.lastValue_isSome]
  rintro ⟨f, hf, heq⟩
  exact hother f hf heq

/-- **What the client makes of the header.** -/
theorem Sendable.headResponse_eq (h : Sendable contentType calls) (r : Response)
    (hcode : code < 2 ^ 31)
    (hlength : contentLength < 2 ^ 31)
    (hlen : (headerText code (responseFields calls contentType contentLength)).length <
      2 ^ 32) :
    headResponse r (readLines code (responseFields calls contentType contentLength)) =
      { returnCode := code
        size := contentLength
        canReuse := false
        transferEncoding := r.transferEncoding
        currentHeaders := Collected.collect lower
          (responseFields calls contentType contentLength ++ [⟨[], []⟩])
          r.currentHeaders } := by
  have hplain := h.plain hlen
  have hstatus := lt_of_le_of_lt (length_code_le code _) hlen
  have hfields := headerFields_readLines hcode hstatus hplain
  have hvalue : ∀ name : String, ascii name ≠ [] →
      fieldValue (readLines code (responseFields calls contentType contentLength)) name =
        Collected.lastValue lower (responseFields calls contentType contentLength)
          (ascii name) := fun name hne => by
    have hempty : lower [] ≠ lower (ascii name) :=
      fun heq => hne (List.map_eq_nil_iff.mp heq.symm)
    rw [fieldValue, hfields, Collected.lastValue_append, Collected.lastValue_cons,
      if_neg hempty]
    rfl
  have hsize : WString.toInt (ascii (toString contentLength)) = contentLength :=
    (atol_decimal contentLength).trans (clampLong_of_le (by omega) (by exact_mod_cast hlength))
  have hclose : WString.equalsIgnoreCase (ascii "close") (ascii "keep-alive") = false := by
    decide
  obtain ⟨hlast, hlast'⟩ := lastValue_own calls contentType contentLength
  rw [headResponse, headerStatus_readLines hcode hstatus hplain, hvalue _ (by decide),
    hvalue _ (by decide),
    hvalue _ (by decide), hlast, hlast', h.lastValue_encoding, hfields, Option.map_some, hsize,
      Option.map_some,
    hclose]
  rfl

/-! ## There and back -/

variable {p p' : SendState} {es : Meanwhile} {code : ℕ} {contentType content : WString}
  {calls : List HeaderCall} {w : ResponseWriter} {c : HTTPClient} {k : Connection}
  {keys : List WString} {sink : Sink} {rest : List UInt8}

/-- **What a client makes of a header and what follows it**: the code, the
length, of every key the value of the last line with that name, and as many
bytes to its stream as the header has said. -/
theorem reads_response (hcode : 1 ≤ code ∧ code ≤ 999) (hsendable : Sendable contentType calls)
    (hne : content ≠ []) (hkeys : ∀ key ∈ keys, 0 ∉ key) (hdistinct : (keys.map lower).Nodup)
    (hk : c.connection = some k) (hfresh : c.currentHeaders = freshKeys keys)
    (hp : k.link.pending =
      headerText code (responseFields calls contentType content.length) ++ (content ++ rest))
    (hlen : (headerText code (responseFields calls contentType content.length)).length +
      content.length < 2 ^ 31)
    (hprompt : LinesPrompt (headerText code (responseFields calls contentType content.length))
      k.link.waitAt k.link.timeout)
    (hsink : Accepts sink) :
    ∃ d e, c.handleHeaderResponse.Yields ((code : ℤ), d) ∧ d.getSize = content.length ∧
      (∀ key ∈ keys, d.header key =
        (Collected.lastValue lower (responseFields calls contentType content.length) key).getD
        []) ∧
      (d.writeToStream (some sink)).Yields
        ((content.length : ℤ), some (wrote sink content), e) := by
  set fields := responseFields calls contentType content.length with hfields
  have hheader : (headerText code fields).length < 2 ^ 32 := by omega
  have hplain : ∀ f ∈ fields, PlainField f := hsendable.plain hheader
  have hto : 0 < k.link.timeout := by
    obtain ⟨t, ht⟩ : ∃ t, headerText code fields = 0x48 :: 0x54 :: t := ⟨_, rfl⟩
    rw [ht] at hprompt
    exact lt_of_le_of_lt (Nat.zero_le _) (hprompt 0 (by simp) (by simp))
  have hhead := hsendable.headResponse_eq c.blankResponse (by omega)
    (by omega : content.length < 2 ^ 31) hheader
  have hblank : ∀ a ∈ c.currentHeaders, 0 ∉ a.key := by
    rw [hfresh]
    intro a ha
    obtain ⟨key, hkey, rfl⟩ := List.mem_map.mp ha
    exact hkeys key hkey
  rw [headerText_eq] at hp hprompt
  obtain ⟨link, htook, hyields⟩ := handleHeaderResponse_of_lines hk hto hp
    (fun x hx => by
      rcases List.mem_append.mp hx with hx | hx
      · exact (responseLines_plain code hplain x hx).1
      · rw [List.mem_singleton.mp hx]
        decide)
    (fun x hx => (responseLines_plain code hplain x hx).2) (by decide) hprompt hblank hhead
  have hne0 : (code : ℤ) ≠ 0 := by omega
  have hresponse : ∀ headers,
    responseCode ⟨code, content.length, false, c.blankResponse.transferEncoding, headers⟩ =
      ((code : ℤ), .identity) := fun headers => by
    rw [responseCode, if_neg (by simp [blankResponse]), if_pos hne0]
  rw [hresponse] at hyields
  have hbody : link.pending = content ++ rest := by rw [htook.pending, hp, List.drop_left]
  obtain ⟨e, hwrite⟩ := writeToStream_of_pending
    (c := { c.setConnection { k with link := link } with
      returnCode := code
      size := content.length
      canReuse := false
      currentHeaders := Collected.collect lower (fields ++ [⟨[], []⟩])
        c.blankResponse.currentHeaders
      transferEncoding := .identity })
    rfl (htook.timeout ▸ hto) hbody hne (by omega) rfl rfl hsink
  refine ⟨_, e, hyields, rfl, fun key hkey => ?_, hwrite⟩
  have hcollect : c.blankResponse.currentHeaders = freshKeys keys := hfresh
  rw [header_collect hkeys (by dsimp only; rw [hcollect]) key,
    keyValue_of_nodup hdistinct _ hkey, lastValue_concat_nil hplain]

/-- **A response arrives as it was sent**, if every write goes on. A handler
has called `sendHeader` and calls `send`. What is handed over is all that a
client with empty collected headers receives, whether the connection is closed
behind it or not, with no time-out inside a line. Then the client has the code,
the length and, of every key, the value of the last line with that name, and
writes the content to its stream. -/
theorem response_roundTrip (hcode : 1 ≤ code ∧ code ≤ 999)
    (hsendable : Sendable contentType calls)
    (hne : content ≠ []) (hkeys : ∀ key ∈ keys, 0 ∉ key) (hdistinct : (keys.map lower).Nodup)
    (hk : c.connection = some k) (hfresh : c.currentHeaders = freshKeys keys)
    (hlen : (headerText code (responseFields calls contentType content.length)).length +
      content.length < 2 ^ 31)
    (hon : WritesGoOn p (init.sendHeaders calls) code (some contentType) content es)
    (hsend : send p (init.sendHeaders calls) code (some contentType) content es =
      some (k.link.pending, p', w))
    (hprompt : LinesPrompt (headerText code (responseFields calls contentType content.length))
      k.link.waitAt k.link.timeout)
    (hsink : Accepts sink) :
    ∃ d e, c.handleHeaderResponse.Yields ((code : ℤ), d) ∧ d.getSize = content.length ∧
      (∀ key ∈ keys, d.header key =
        (Collected.lastValue lower (responseFields calls contentType content.length) key).getD
        []) ∧
      (d.writeToStream (some sink)).Yields
        ((content.length : ℤ), some (wrote sink content), e) := by
  have hheader : (headerText code
      (responseFields calls contentType content.length)).length < 2 ^ 32 := by omega
  have hplain := hsendable.nulFree hheader
  obtain ⟨hpending, -⟩ := sent_of_goesOn hne hplain hheader (by omega) hon hsend
  exact reads_response hcode hsendable hne hkeys hdistinct hk hfresh
    (hpending.trans (by rw [List.append_nil])) hlen hprompt hsink

/-- A connection these bytes have come over, from a peer that is gone. -/
def closedBehind (received : List UInt8) : Connection :=
  ⟨ascii "a", 80, ⟨received, 0, 5000, [], true⟩, [], []⟩

theorem pending_closedBehind (received : List UInt8) :
    (closedBehind received).link.pending = received := List.append_nil _

/-- No wait is left. -/
theorem linesPrompt_closedBehind (text received : List UInt8) :
    LinesPrompt text (closedBehind received).link.waitAt
      (closedBehind received).link.timeout := by
  intro j _ _
  rw [Link.waitAt_of_sched_nil rfl]
  exact Nat.succ_pos 4999

/-- A client that has received these bytes. -/
def receivedClient (received : List UInt8) (keys : List WString) : HTTPClient :=
  { HTTPClient.init.setConnection (closedBehind received) with
    currentHeaders := freshKeys keys }

/-- A connection nothing has been sent on. -/
def freshConnection : SendState := ClientContext.SendState.init true true 0 0 0

/-- An empty value behind another of the same name, and one with a colon. -/
def notFoundCalls : List HeaderCall :=
  [⟨ascii "ETag", ascii "a", false⟩, ⟨ascii "Location", ascii "/p: q", true⟩,
    ⟨ascii "etag", [], false⟩]

/-- The fields that are sent with them. -/
def notFoundFields : List RequestArgument := responseFields notFoundCalls (ascii "text/plain") 2

/-- `404`, with these headers. -/
theorem response_roundTrip_notFound :
    ∃ d e, (receivedClient (headerText 404 notFoundFields ++ ascii "no")
        [ascii "ETag", ascii "location"]).handleHeaderResponse.Yields (404, d) ∧ d.getSize = 2 ∧
      d.header (ascii "ETag") = [] ∧ d.header (ascii "location") = ascii "/p: q" ∧
      (d.writeToStream (some ⟨[], false, []⟩)).Yields (2, some ⟨ascii "no", false, []⟩, e) := by
  have hsendable : Sendable (ascii "text/plain") notFoundCalls := by
    refine ⟨⟨?_, ?_, ?_⟩, fun h hh => ?_, fun h hh => ?_, ?_⟩
    · decide
    · decide
    · decide
    · have hnames : ∀ h ∈ notFoundCalls, h.name ≠ [] ∧
          (∀ c ∈ h.name, c ≠ 0x3A ∧ c ≠ 0 ∧ isspace c = false) ∧
            WString.startsWith h.name (ascii "HTTP/1.") = false := by
        decide
      exact ⟨(hnames h hh).1, (hnames h hh).2.1, (hnames h hh).2.2⟩
    · have hvalues : ∀ h ∈ notFoundCalls, (∀ c ∈ h.value, c ≠ 0x0A ∧ c ≠ 0) ∧
          (∀ c ∈ h.value.head?, isspace c = false) ∧ ∀ c ∈ h.value.getLast?,
          isspace c = false := by
        decide
      exact ⟨(hvalues h hh).1, (hvalues h hh).2.1, (hvalues h hh).2.2⟩
    · decide
  obtain ⟨hon, p', hsend⟩ := @send_ackedWhole freshConnection notFoundCalls 404
    (ascii "text/plain") (ascii "no") rfl rfl (by decide) (by decide +kernel)
    (by decide +kernel) (by decide)
  have hdone : Accepts ⟨[], false, []⟩ := ⟨rfl, rfl⟩
  obtain ⟨d, e, hyields, hsize, hheader, hwrite⟩ :=
    @response_roundTrip freshConnection p' _ 404 _ _ _ _
      (receivedClient _ [ascii "ETag", ascii "location"])
      (closedBehind (headerText 404 notFoundFields ++ ascii "no"))
      [ascii "ETag", ascii "location"] _ (by decide) hsendable (by decide)
      (by decide) (by decide)
      rfl rfl (by decide +kernel) hon (by rw [pending_closedBehind]; exact hsend)
      (linesPrompt_closedBehind _ _) hdone
  exact ⟨d, e, hyields, hsize, (hheader _ (by decide)).trans (by decide),
    (hheader _ (by decide)).trans (by decide), hwrite⟩

/-- What is sent with `200` when the first byte of the header is acknowledged first. -/
def repeatedText : List UInt8 :=
  headerText 200 (responseFields [] (ascii "text/plain") 2) ++
    (headerText 200 (responseFields [] (ascii "text/plain") 2)).drop 1 ++ ascii "no"

/-- **A header that is acknowledged in part is sent twice**, and the client takes the second one
for the content. -/
theorem not_response_roundTrip : ∃ es p',
    send freshConnection (init.sendHeaders []) 200 (some (ascii "text/plain")) (ascii "no") es =
      some (repeatedText, p', init) ∧
    ∃ d e, (receivedClient repeatedText []).handleHeaderResponse.Yields (200, d) ∧
      (d.writeToStream (some ⟨[], false, []⟩)).Yields (2, some ⟨ascii "TT", false, []⟩, e) ∧
      ¬ ∃ n e, (d.writeToStream (some ⟨[], false, []⟩)).Yields
        (n, some ⟨ascii "no", false, []⟩, e) := by
  obtain ⟨p', hsend⟩ := @send_ackedInPart freshConnection [] 200 (ascii "text/plain")
    (ascii "no") rfl rfl (by decide) (by decide +kernel) (by decide +kernel)
    (by decide +kernel) (by decide)
  have hsendable : Sendable (ascii "text/plain") [] := by
    refine ⟨⟨?_, ?_, ?_⟩, by simp, by simp, by simp⟩ <;> decide
  have hreceived : repeatedText = headerText 200 (responseFields [] (ascii "text/plain") 2) ++
      (ascii "TT" ++ ((headerText 200 (responseFields [] (ascii "text/plain") 2)).drop 3 ++
        ascii "no")) := by
    obtain ⟨t, ht⟩ : ∃ t, headerText 200 (responseFields [] (ascii "text/plain") 2) =
        0x48 :: 0x54 :: 0x54 :: t := ⟨_, rfl⟩
    rw [repeatedText, ht]
    simp [ascii]
  have hdone : Accepts ⟨[], false, []⟩ := ⟨rfl, rfl⟩
  obtain ⟨d, e, hyields, -, -, hwrite⟩ := @reads_response 200 _ (ascii "TT") []
    (receivedClient repeatedText []) (closedBehind repeatedText) [] _ _ (by decide) hsendable
    (by decide) (by decide) (by decide) rfl rfl ((pending_closedBehind _).trans hreceived)
    (by decide +kernel) (linesPrompt_closedBehind _ _) hdone
  refine ⟨_, p', hsend, d, e, hyields, hwrite, ?_⟩
  rintro ⟨n, e', hwrite'⟩
  have heq := (Prod.mk.inj (hwrite.unique hwrite')).2
  have htext := congrArg Sink.written (Option.some.inj (Prod.mk.inj heq).1)
  exact absurd htext (by decide)

end ResponseWriter
