import Esp31b.ResponseRoundTrip

/-!
# What a response says and what is read

A `Head` is lines, each with something in it; the empty line that closes them
is not one of them. What a head says is a matter of its text alone: which of
its lines has a status (`IsStatus`), which a field (`IsField`), with any white
space around the value, and which field is the last of its name (`LastField`).
`Head.Parses` is that `handleHeaderResponse` finds that, on any client and
however the lines arrive.

It does not always. The loop takes the value of a field from the second byte
behind the colon on, so that of `Content-Length:5` nothing is left and a value
behind two blanks keeps one of them. A line without a colon is a name whose
value starts with the second byte of the name. And `_returnCode` is -1 before
the first line, which is not the 0 that stands for a server without HTTP, so
that error is never returned: a head without a status line is -1, the error
of a refused connection.

What a line that is neither a status line nor a field does to the names around
it is a matter of chance: it is trimmed, so that it may become either, and ends
the head if nothing is left of it. `Head.Clean` are the heads where no such line
comes in between, and there it takes one blank behind each colon, or no value,
and a status (`Head.parses_iff`).
-/

namespace HTTPClient

open ResponseWriter (PlainName)

/-! ## What a line says -/

/-- **A field**: the name, spaces or tabs or none, a value without white space
at its ends, and white space. -/
structure FieldParts (line name pad value trail : WString) : Prop where
  line : line = name ++ 0x3A :: (pad ++ value ++ trail)
  name : PlainName name
  pad : ∀ c ∈ pad, c = 0x20 ∨ c = 0x09
  first : ∀ c ∈ value.head?, isspace c = false
  last : ∀ c ∈ value.getLast?, isspace c = false
  trail : ∀ c ∈ trail, isspace c = true

/-- The line is that of a field with this value. -/
def IsField (line name value : WString) : Prop :=
  ∃ pad trail, FieldParts line name pad value trail

/-- **The last field of a name** has this value. -/
def LastField (lines : List WString) (name value : WString) : Prop :=
  ∃ before line after key, lines = before ++ line :: after ∧ IsField line key value ∧
    lower key = lower name ∧
    ∀ x ∈ after, ∀ key' value', IsField x key' value' → lower key' ≠ lower name

/-- **A status line**: the protocol, a code of three digits and a reason. -/
def IsStatus (line : WString) (code : ℕ) : Prop :=
  ∃ version digits reason, line = ascii "HTTP/1." ++ version :: 0x20 ::
    (digits ++ 0x20 :: reason) ∧
    digitVal version < 10 ∧ digits.length = 3 ∧ (∀ c ∈ digits, digitVal c < 10) ∧
      code = numeral 10 digits

/-- A transfer encoding the client knows. -/
def KnownEncoding (value : WString) : Prop :=
  value = [] ∨ value.equalsIgnoreCase (ascii "chunked") = true

/-- A name that a field has is a C string. -/
theorem LastField.name_plain {lines : List WString} {name value : WString}
    (hlast : LastField lines name value) :
    0 ∉ name := by
  obtain ⟨_, _, _, key, -, ⟨_, _, hparts⟩, hlower, -⟩ := hlast
  intro hmem
  have hzero : (0 : UInt8) ∈ lower key := hlower ▸ List.mem_map_of_mem (f := tolower) hmem
  obtain ⟨b, hb, hb0⟩ := List.mem_map.mp hzero
  have hb' : b = 0 := by
    unfold tolower at hb0
    split at hb0
    · rename_i hletter
      simp only [UInt8.le_iff_toNat_le, ← UInt8.toNat_inj, UInt8.toNat_add] at hletter hb0
      simp at hletter hb0
      omega
    · exact hb0
  exact hparts.name.zero_not_mem (hb' ▸ hb)

/-! ## What is cut from a line -/

/-- **What a line could be named**: its text up to a colon or a NUL, without
white space in front. -/
def lineKey (x : WString) : WString := (WString.trim x).takeWhile (fun c => c ≠ 0x3A ∧ c ≠ 0)

/-- The number at the tenth byte of a status line. -/
def statusNumber (x : WString) : ℤ := atol ((x.drop 9).takeWhile (· ≠ 0x20))

/-- White space only, up to a NUL. -/
def Blank (x : WString) : Prop := ∀ c ∈ cstr x, isspace c = true

instance (x : WString) : Decidable (Blank x) := List.decidableBAll _ _

/-- What is cut from the line of a field. -/
def cutValue (pad value : WString) : WString :=
  if value = [] then [] else cstr ((pad ++ value).drop 1)

variable {line name pad value trail x : WString}

/-- **One blank is cut**, and nothing is lost of a value without NUL. -/
theorem FieldParts.cutValue_eq_iff (hparts : FieldParts line name pad value trail) :
    cutValue pad value = value ↔ pad.length = 1 ∧ 0 ∉ value ∨ value = [] := by
  unfold cutValue
  by_cases hnil : value = []
  · rw [if_pos hnil]
    exact iff_of_true hnil.symm (Or.inr hnil)
  · rw [if_neg hnil, or_iff_left hnil]
    match pad, hparts.pad with
    | [], _ =>
      refine iff_of_false (fun heq => ?_) (fun h => absurd h.1 (Nat.zero_ne_one))
      have hlen := congrArg List.length heq
      have hle := length_cstr_le (value.drop 1)
      have hpos := List.length_pos_iff.mpr hnil
      rw [List.nil_append] at hlen
      rw [List.length_drop] at hle
      omega
    | [_], _ =>
      show cstr value = value ↔ _
      refine ⟨fun heq => ⟨rfl, fun h0 => zero_not_mem_cstr value (heq.symm ▸ h0)⟩,
        fun h => cstr_of_not_mem h.2⟩
    | _ :: b :: pad', hpad =>
      -- the second blank is still there
      refine iff_of_false (fun heq => ?_) (fun h => absurd h.1 (by simp))
      have hspace : isspace b = true ∧ b ≠ 0 := by
        rcases hpad b (by simp) with rfl | rfl <;> decide
      have hcut : cstr ((b :: pad') ++ value) = value := heq
      have hkeep : cstr ((b :: pad') ++ value) = b :: cstr (pad' ++ value) :=
        List.takeWhile_cons_of_pos (decide_eq_true hspace.2)
      rw [hkeep] at hcut
      have hfirst := hparts.first b (by rw [← hcut]; rfl)
      rw [hspace.1] at hfirst
      cases hfirst

/-- The line of a field, trimmed. -/
theorem FieldParts.trim_line (hparts : FieldParts line name pad value trail) :
    WString.trim line = name ++ 0x3A :: (if value = [] then [] else pad ++ value) := by
  have hpad : ∀ c ∈ pad, isspace c = true := fun c hc => by
    rcases hparts.pad c hc with rfl | rfl <;> decide
  rw [hparts.line, WString.trim_field hparts.name.ne (fun c hc =>
    (hparts.name.chars c hc).2.2) hpad
    hparts.last hparts.trail]

/-- The CR at the end is trimmed. -/
theorem trim_cr (x : WString) : WString.trim (x ++ [0x0D]) = WString.trim x :=
  WString.trim_concat (by decide)

theorem length_trim_le (x : WString) : (WString.trim x).length ≤ x.length :=
  (List.rdropWhile_prefix _ _).length_le.trans (List.dropWhile_suffix _).length_le

/-- **What the loop takes from the line of a field.** -/
theorem FieldParts.headerField_trim (hparts : FieldParts line name pad value trail)
    (hlen : line.length < 2 ^ 31) :
    headerField (WString.trim line) = some ⟨name, cutValue pad value⟩ := by
  have hlen' : name.length + 2 < 2 ^ 32 := by
    rw [hparts.line, List.length_append] at hlen
    omega
  rw [hparts.trim_line]
  unfold cutValue
  split
  · exact ResponseWriter.headerField_append hparts.name [] hlen'
  · exact ResponseWriter.headerField_append hparts.name _ hlen'

/-- **The name that is taken** from any line. -/
theorem key_headerField {f : RequestArgument} (hlen : x.length < 2 ^ 32)
    (hf : headerField x = some f) : f.key = x.takeWhile (fun c => c ≠ 0x3A ∧ c ≠ 0) := by
  unfold headerField at hf
  split_ifs at hf
  obtain rfl := Option.some.inj hf
  exact WString.substring_indexOf (i := 0) (by decide) hlen (Nat.two_pow_pos 32)

/-- A field is named what its line could be. -/
theorem FieldParts.lineKey_eq (hparts : FieldParts line name pad value trail) :
    lineKey line = name := by
  have hname : ∀ c ∈ name, decide (c ≠ 0x3A ∧ c ≠ 0) = true := fun c hc =>
    decide_eq_true ⟨(hparts.name.chars c hc).1, (hparts.name.chars c hc).2.1⟩
  unfold lineKey
  rw [hparts.trim_line, List.takeWhile_append_of_pos hname,
    List.takeWhile_cons_of_neg (by decide), List.append_nil]

/-- A line that starts with `HTTP/1.` is trimmed at its end only. -/
theorem trim_status (hstatus : ascii "HTTP/1." <+: x) :
    ascii "HTTP/1." <+: WString.trim x ∧ ∃ blank, x = WString.trim x ++ blank ∧
      ∀ c ∈ blank, isspace c = true := by
  obtain ⟨t, rfl⟩ := hstatus
  have htrim : WString.trim (ascii "HTTP/1." ++ t) = ascii "HTTP/1." ++ t.rdropWhile isspace :=
    WString.trim_append (by decide) (by decide) (by decide) _
  refine ⟨htrim ▸ List.prefix_append _ _, t.rtakeWhile isspace, ?_, fun c hc => ?_⟩
  · rw [htrim, List.append_assoc, List.rdropWhile, List.rtakeWhile, ← List.reverse_append,
      List.takeWhile_append_dropWhile, List.reverse_reverse]
  · rw [List.rtakeWhile, List.mem_reverse] at hc
    exact List.mem_takeWhile_imp hc

/-- It has no field. -/
theorem headerField_status (hstatus : ascii "HTTP/1." <+: x) : headerField x = none := by
  unfold headerField
  rw [if_pos ((WString.startsWith_iff (by decide)).mpr hstatus)]

/-- **The number of a status line** is its code. -/
theorem IsStatus.statusNumber_eq {code : ℕ} (h : IsStatus x code) : statusNumber x = code := by
  obtain ⟨version, digits, reason, rfl, -, hlen, hdigits, rfl⟩ := h
  have hblank : ∀ c ∈ digits, decide (c ≠ 0x20) = true := by
    intro c hc
    refine decide_eq_true ?_
    rintro rfl
    exact absurd (hdigits 0x20 hc) (by decide)
  have hdrop : (ascii "HTTP/1." ++ version :: 0x20 :: (digits ++ 0x20 :: reason)).drop 9 =
      digits ++ 0x20 :: reason := rfl
  have hbound : numeral 10 digits < 1000 := by
    match digits, hlen, hdigits with
    | [a, b, c], _, hdigits =>
      have ha := hdigits a (by simp)
      have hb := hdigits b (by simp)
      have hc := hdigits c (by simp)
      simp only [numeral, List.foldl_cons, List.foldl_nil]
      omega
  unfold statusNumber
  rw [hdrop, List.takeWhile_append_of_pos hblank, List.takeWhile_cons_of_neg (by decide),
    List.append_nil, atol,
    strtol_numeral (by decide) (List.ne_nil_of_length_pos (by omega)) hdigits,
    clampLong_of_le (by omega) (by omega)]

/-- **The number that is taken from a status line** is the one at its tenth
byte. -/
theorem headerStatus_trim (hstatus : ascii "HTTP/1." <+: x) (hlen : x.length < 2 ^ 31) :
    headerStatus (WString.trim x) = some (statusNumber x) := by
  obtain ⟨hstart, blank, hx, hblank⟩ := trim_status hstatus
  have hshort := length_trim_le x
  set t := WString.trim x with ht
  have hdrop : x.drop 9 = t.drop 9 ++ blank.drop (9 - t.length) := by
    rw [hx, List.drop_append]
  have hrest : ∀ c ∈ (blank.drop (9 - t.length)).takeWhile (· ≠ 0x20), isspace c = true :=
    fun c hc => hblank c (List.mem_of_mem_drop ((List.takeWhile_prefix _).subset hc))
  have hnumber : statusNumber x = atol ((t.drop 9).takeWhile (· ≠ 0x20)) := by
    unfold statusNumber
    rw [hdrop, List.takeWhile_append]
    split
    · rename_i hall
      rw [atol_append_blank _ hrest, (List.takeWhile_prefix _).eq_of_length hall]
    · rfl
  have hcstr : (t.drop 9).takeWhile (fun c => c ≠ 0x20 ∧ c ≠ 0) =
      cstr ((t.drop 9).takeWhile (· ≠ 0x20)) := by
    rw [cstr, List.takeWhile_takeWhile]
    refine congrArg (List.takeWhile · _) (funext fun c => ?_)
    simp [and_comm]
  unfold headerStatus WString.toInt
  rw [if_pos ((WString.startsWith_iff (by decide)).mpr hstart), hnumber,
    WString.substring_indexOf (by decide) (by omega) (by decide), hcstr]
  unfold atol strtol
  rw [cstr_of_not_mem (zero_not_mem_cstr _)]

/-- **A blank line** looks empty to the loop. -/
theorem equalsC_trim_iff (x : WString) : (WString.trim x).equalsC [] = true ↔ Blank x := by
  have hsplit := List.takeWhile_append_dropWhile (p := isspace) (l := x)
  have hfront : ∀ c ∈ x.takeWhile isspace, isspace c = true ∧ decide (c ≠ 0) = true := by
    intro c hc
    have hspace : isspace c = true := List.mem_takeWhile_imp hc
    refine ⟨hspace, decide_eq_true ?_⟩
    rintro rfl
    exact absurd hspace (by decide)
  unfold WString.equalsC WString.trim Blank
  rw [beq_iff_eq]
  cases hrest : x.dropWhile isspace with
  | nil =>
    refine iff_of_true rfl fun c hc => ?_
    exact List.dropWhile_eq_nil_iff.mp hrest c ((List.takeWhile_prefix _).subset hc)
  | cons c t =>
    have hc : isspace c = false := by
      have hhead := List.head?_dropWhile_not isspace x
      rw [hrest] at hhead
      simpa using hhead
    have hcstr : cstr x = x.takeWhile isspace ++ cstr (c :: t) := by
      rw [hrest] at hsplit
      rw [cstr, ← hsplit, List.takeWhile_append_of_pos fun c hc => (hfront c hc).2]
      rw [hsplit]
      rfl
    obtain ⟨u, hu⟩ : ∃ u, (c :: t).rdropWhile isspace = c :: u := by
      refine (WString.rdropWhile_cons c t).resolve_left fun hnil => ?_
      rw [List.rdropWhile_eq_nil_iff.mp hnil c (by simp)] at hc
      cases hc
    rw [hu, hcstr]
    by_cases hzero : c = 0
    · subst hzero
      refine iff_of_true rfl fun c hc => ?_
      rw [show cstr ((0 : UInt8) :: t) = [] from List.takeWhile_cons_of_neg (by decide),
        List.append_nil] at hc
      exact (hfront c hc).1
    · have hkeep : ∀ v, cstr (c :: v) = c :: cstr v := fun v =>
        List.takeWhile_cons_of_pos (decide_eq_true hzero)
      rw [hkeep, hkeep]
      refine iff_of_false (List.cons_ne_nil _ _) fun hall => ?_
      rw [hall c (List.mem_append_right _ List.mem_cons_self)] at hc
      cases hc

/-! ## Heads -/

/-- **The lines of a head**, without what ends them. -/
structure Head where
  lines : List WString
  text : ∀ x ∈ lines, x ≠ [] ∧ 0x0A ∉ x

namespace Head

/-- The lines with the empty one, each up to its LF. -/
def sent (h : Head) : List (List UInt8) := (h.lines ++ [[]]).map (· ++ [0x0D])

/-- The head as it arrives. -/
def bytes (h : Head) : List UInt8 := sendLines h.sent

/-- **The lines the loop looks at**: up to the first that looks empty to it. -/
def read (h : Head) : List WString :=
  (h.sent.takeWhile (fun x => !(WString.trim x).equalsC []) ++
    (h.sent.dropWhile (fun x => !(WString.trim x).equalsC [])).take 1).map WString.trim

/-- The number in the last of them that starts with `HTTP/1.`. -/
def number (h : Head) : ℤ := (h.read.filterMap headerStatus).getLast?.getD (-1)

/-- No unsupported transfer encoding is given. -/
def Supported (h : Head) : Prop :=
  ∀ value, LastField h.lines (ascii "Transfer-Encoding") value → KnownEncoding value

/-- None is read. -/
def SupportedRead (h : Head) : Prop :=
  ∀ value ∈ fieldValue h.read "Transfer-Encoding", KnownEncoding value

/-- **What the head says is found**: in the answer of `handleHeaderResponse`
and in the client it leaves. -/
structure Told (h : Head) (c : HTTPClient) (ret : ℤ) (d : HTTPClient) : Prop where
  code : ∀ code, (∃ x ∈ h.lines.head?, IsStatus x code) → h.Supported → ret = code
  noServer : (∀ x ∈ h.lines, ¬ ascii "HTTP/1." <+: x) → h.Supported → ret = errorNoHttpServer
  size : ∀ value, LastField h.lines (ascii "Content-Length") value → d.size = value.toInt
  canReuse : ∀ value, LastField h.lines (ascii "Connection") value →
    d.canReuse = value.equalsIgnoreCase (ascii "keep-alive")
  encoding : ∀ value, LastField h.lines (ascii "Transfer-Encoding") value →
    (value = [] → d.transferEncoding = .identity) ∧
      (value.equalsIgnoreCase (ascii "chunked") = true → d.transferEncoding = .chunked) ∧
      (¬ KnownEncoding value → ret = errorEncoding)
  collected : ∀ name value, LastField h.lines name value →
    (∃ a ∈ c.currentHeaders, lower a.key = lower name) →
      (d.currentHeaders.find? (fun a => lower a.key = lower name)).map RequestArgument.value =
        some value

/-- The head is about to be read, all of it in time. -/
structure Arrives (h : Head) (c : HTTPClient) : Prop where
  keys : ∀ a ∈ c.currentHeaders, 0 ∉ a.key
  link : ∃ k rest, c.connection = some k ∧ 0 < k.link.timeout ∧
    k.link.pending = h.bytes ++ rest ∧
    LinesPrompt h.bytes k.link.waitAt k.link.timeout

/-- **The head is parsed**, by every client. -/
def Parses (h : Head) : Prop :=
  ∀ c, h.Arrives c → ∃ ret d, c.handleHeaderResponse.Yields (ret, d) ∧ h.Told c ret d

/-- **What the loop finds is what the head says**, in terms of what it reads. -/
structure Regular (h : Head) : Prop where
  fields : ∀ name value, LastField h.lines name value →
    Collected.lastValue lower (headerFields h.read) name = some value
  status : ∀ code, (∃ x ∈ h.lines.head?, IsStatus x code) → h.Supported →
    code ≠ 0 ∧ h.number = code ∧ h.SupportedRead
  server : (∀ x ∈ h.lines, ¬ ascii "HTTP/1." <+: x) → h.Supported →
    (h.number = 0 ∨ h.number = errorNoHttpServer) ∧ h.SupportedRead

variable {h : Head} {c : HTTPClient}

/-! ## Reading a head -/

/-- The lines up to the one where the loop ends. -/
theorem exists_stop (h : Head) :
    ∃ lines last rest, h.sent = lines ++ last :: rest ∧
      h.read = (lines ++ [last]).map WString.trim ∧
      (∀ x ∈ lines, (WString.trim x).equalsC [] = false) ∧
      (WString.trim last).equalsC [] = true := by
  have hsplit := (List.takeWhile_append_dropWhile
    (p := fun x => !(WString.trim x).equalsC []) (l := h.sent)).symm
  cases hrest : h.sent.dropWhile (fun x => !(WString.trim x).equalsC []) with
  | nil =>
    -- the empty line at the end stops it
    have hmem : ([0x0D] : List UInt8) ∈ h.sent := by
      rw [sent, List.map_append]
      exact List.mem_append_right _ (List.mem_singleton.mpr rfl)
    have hblank := List.dropWhile_eq_nil_iff.mp hrest _ hmem
    exact absurd hblank (by decide)
  | cons last rest =>
    refine ⟨_, last, rest, hrest ▸ hsplit, ?_, fun x hx => ?_, ?_⟩
    · rw [read, hrest]
      rfl
    · simpa using List.mem_takeWhile_imp hx
    · have hhead := List.head?_dropWhile_not (fun x => !(WString.trim x).equalsC []) h.sent
      rw [hrest] at hhead
      simpa using hhead

/-- Part of a head is as prompt. -/
theorem prompt_of_append {bytes more : List UInt8} {wait : ℕ → ℕ} {timeout : ℕ}
    (h : LinesPrompt (bytes ++ more) wait timeout) : LinesPrompt bytes wait timeout := by
  intro j hj hne
  refine h j ?_ ?_
  · rw [List.length_append]
    omega
  · rwa [List.getElem?_append_left (by omega)]

theorem sent_text (h : Head) : ∀ x ∈ h.sent, 0x0A ∉ x := by
  intro x hx
  obtain ⟨y, hy, rfl⟩ := List.mem_map.mp hx
  rw [List.mem_append, not_or]
  refine ⟨?_, by decide⟩
  rcases List.mem_append.mp hy with hy | hy
  · exact (h.text y hy).2
  · rw [List.mem_singleton.mp hy]
    exact List.not_mem_nil

/-- What the lines leave behind. -/
def response (h : Head) (c : HTTPClient) : Response := headResponse c.blankResponse h.read

/-- **What comes of a head**: the lines up to the end are read in turn. -/
theorem Arrives.yields (ha : h.Arrives c) :
    ∃ d, c.handleHeaderResponse.Yields ((responseCode (h.response c)).1, d) ∧
    d.size = (h.response c).size ∧ d.canReuse = (h.response c).canReuse ∧
    d.currentHeaders = (h.response c).currentHeaders ∧
    d.transferEncoding = (responseCode (h.response c)).2 := by
  obtain ⟨hkeys, k, rest, hk, hto, hp, hw⟩ := ha
  obtain ⟨lines, last, more, hsent, hread, hlines, hlast⟩ := h.exists_stop
  have hbytes : h.bytes = sendLines (lines ++ [last]) ++ sendLines more := by
    rw [bytes, hsent, show lines ++ last :: more = (lines ++ [last]) ++ more by simp, sendLines,
      List.flatMap_append]
    rfl
  have hlf : ∀ x ∈ lines ++ [last], 0x0A ∉ x := by
    intro x hx
    refine h.sent_text x ?_
    rw [hsent, show lines ++ last :: more = (lines ++ [last]) ++ more by simp]
    exact List.mem_append_left _ hx
  rw [hbytes] at hw hp
  rw [List.append_assoc] at hp
  obtain ⟨link, -, hyields⟩ := handleHeaderResponse_of_lines hk hto hp hlf hlines hlast
    (prompt_of_append hw) hkeys rfl
  rw [← hread] at hyields
  exact ⟨_, hyields, rfl, rfl, rfl, rfl⟩

/-- **When the answer is a number** that is not that of an encoding. -/
theorem responseCode_eq_iff {r : Response} {n : ℤ} (hn : n ≠ errorEncoding) :
    (responseCode r).1 = n ↔
      KnownEncoding r.transferEncoding ∧
        (if r.returnCode ≠ 0 then r.returnCode else errorNoHttpServer) = n := by
  unfold responseCode KnownEncoding
  by_cases hnil : r.transferEncoding = []
  · rw [if_neg (by rw [hnil]; exact Nat.lt_irrefl 0)]
    exact (and_iff_right (Or.inl hnil)).symm
  · rw [if_pos (List.length_pos_iff.mpr hnil)]
    by_cases hchunked : r.transferEncoding.equalsIgnoreCase (ascii "chunked") = true
    · rw [if_pos hchunked]
      exact (and_iff_right (Or.inr hchunked)).symm
    · rw [if_neg hchunked]
      constructor
      · intro heq
        exact absurd heq.symm hn
      · rintro ⟨h | h, -⟩
        · exact absurd h hnil
        · exact absurd h hchunked

theorem supportedRead_iff :
    h.SupportedRead ↔ KnownEncoding (h.response c).transferEncoding := by
  show (∀ value ∈ fieldValue h.read "Transfer-Encoding", KnownEncoding value) ↔
    KnownEncoding ((fieldValue h.read "Transfer-Encoding").getD [])
  cases fieldValue h.read "Transfer-Encoding" with
  | none =>
    exact iff_of_true (fun value hv => absurd hv (Option.not_mem_none value)) (Or.inl rfl)
  | some value =>
    exact ⟨fun hall => hall value rfl, fun hknown v hv => Option.mem_some.mp hv ▸ hknown⟩

/-! ## A client to read it -/

/-- A client that collects one name and has a head to read. -/
def reader (h : Head) (name old : WString) : HTTPClient :=
  { HTTPClient.init with
    currentHeaders := [⟨name, old⟩]
    tcp := some ⟨some ⟨[], 80, ⟨h.bytes, 0, 1000, [], false⟩, [], []⟩, none⟩ }

theorem arrives_reader (h : Head) (name : WString) (hname : 0 ∉ name) (old : WString) :
    h.Arrives (h.reader name old) where
  keys := by
    intro a ha
    rw [List.mem_singleton.mp ha]
    exact hname
  link := by
    refine ⟨_, [], rfl, Nat.succ_pos 999, rfl, fun j _ _ => ?_⟩
    rw [Link.waitAt_of_sched_nil rfl]
    exact Nat.succ_pos 999

/-- **What is found of a collected name** is what is cut from its last line. -/
theorem find?_response (h : Head) (c : HTTPClient) (name : WString) :
    ((h.response c).currentHeaders.find? (fun a => lower a.key = lower name)).map
        RequestArgument.value =
      ((c.currentHeaders.find? (fun a => lower a.key = lower name)).map
        RequestArgument.value).map
        (fun old => (Collected.lastValue lower (headerFields h.read) name).getD old) :=
  Collected.find?_collect (headerFields h.read) c.currentHeaders name

/-- A client that collects the name finds its last value only if it is cut
right. -/
theorem Parses.fields (hparses : h.Parses) {name value : WString}
    (hlast : LastField h.lines name value) :
    Collected.lastValue lower (headerFields h.read) name = some value := by
  -- a value that was there before must not look right
  obtain ⟨ret, d, hyields, htold⟩ :=
    hparses _ (h.arrives_reader name (LastField.name_plain hlast) (0 :: value))
  obtain ⟨d', hyields', -, -, hheaders, -⟩ :=
    (h.arrives_reader name (LastField.name_plain hlast) (0 :: value)).yields
  obtain rfl : d = d' := congrArg Prod.snd (hyields.unique hyields')
  have hfound := htold.collected name value hlast ⟨_, List.mem_singleton.mpr rfl, rfl⟩
  rw [hheaders, find?_response] at hfound
  have hold : ((h.reader name (0 :: value)).currentHeaders.find?
      (fun a => lower a.key = lower name)).map RequestArgument.value = some (0 :: value) := by
    simp [reader]
  rw [hold, Option.map_some, Option.some.injEq] at hfound
  cases hcut : Collected.lastValue lower (headerFields h.read) name with
  | none =>
    rw [hcut] at hfound
    exact absurd (congrArg List.length hfound) (Nat.succ_ne_self _)
  | some v =>
    rw [hcut] at hfound
    exact congrArg some hfound

/-- What a head that is parsed is like: its fields are those read, and its code is the number
read. -/
theorem Parses.regular {h : Head} (hparses : h.Parses) : h.Regular := by
  have hclient := h.arrives_reader [] List.not_mem_nil []
  obtain ⟨ret, d, hyields, htold⟩ := hparses _ hclient
  obtain ⟨d', hyields', -⟩ := hclient.yields
  have hret : ret = (responseCode (h.response (h.reader [] []))).1 :=
    congrArg Prod.fst (hyields.unique hyields')
  refine ⟨fun name value => hparses.fields, fun code hstatus hsupported => ?_,
    fun hnone hsupported => ?_⟩
  · have hcode := hret.symm.trans (htold.code code hstatus hsupported)
    rw [responseCode_eq_iff (by unfold errorEncoding; omega)] at hcode
    obtain ⟨hknown, hnumber⟩ := hcode
    have hne : (h.response (h.reader [] [])).returnCode ≠ 0 := by
      intro hzero
      rw [if_neg (not_not.mpr hzero)] at hnumber
      unfold errorNoHttpServer at hnumber
      omega
    rw [if_pos hne] at hnumber
    refine ⟨?_, hnumber, supportedRead_iff.mpr hknown⟩
    rintro rfl
    exact hne hnumber
  · have hcode := hret.symm.trans (htold.noServer hnone hsupported)
    rw [responseCode_eq_iff (by decide)] at hcode
    obtain ⟨hknown, hnumber⟩ := hcode
    refine ⟨?_, supportedRead_iff.mpr hknown⟩
    split_ifs at hnumber with hne
    · exact Or.inr hnumber
    · exact Or.inl (not_not.mp hne)

/-- A regular head tells what it is parsed for. -/
theorem Regular.parses {h : Head} (hregular : h.Regular) : h.Parses := by
  intro c harrives
  obtain ⟨d, hyields, hsize, hreuse, hheaders, hencoding⟩ := harrives.yields
  refine ⟨_, d, hyields, ?_, ?_, ?_, ?_, ?_, ?_⟩
  · intro code hstatus hsupported
    obtain ⟨hne, hnumber, hread⟩ := hregular.status code hstatus hsupported
    rw [responseCode_eq_iff (by unfold errorEncoding; omega)]
    have hreturn : (h.response c).returnCode = code := hnumber
    refine ⟨supportedRead_iff.mp hread, ?_⟩
    rw [hreturn, if_pos (by exact_mod_cast hne)]
  · intro hnone hsupported
    obtain ⟨hnumber, hread⟩ := hregular.server hnone hsupported
    rw [responseCode_eq_iff (by decide)]
    refine ⟨supportedRead_iff.mp hread, ?_⟩
    rcases hnumber with hzero | herror
    · exact if_neg (not_not.mpr hzero)
    · have hreturn : (h.response c).returnCode = errorNoHttpServer := herror
      rw [hreturn, if_pos (by decide)]
  · intro value hlast
    have hcut : fieldValue h.read "Content-Length" = some value := hregular.fields _ _ hlast
    rw [hsize]
    show ((fieldValue h.read "Content-Length").map WString.toInt).getD (-1) = value.toInt
    rw [hcut]
    rfl
  · intro value hlast
    have hcut : fieldValue h.read "Connection" = some value := hregular.fields _ _ hlast
    rw [hreuse]
    show ((fieldValue h.read "Connection").map
      (fun value => value.equalsIgnoreCase (ascii "keep-alive"))).getD c.canReuse = _
    rw [hcut]
    rfl
  · intro value hlast
    have hcut : (h.response c).transferEncoding = value := by
      have hvalue : fieldValue h.read "Transfer-Encoding" = some value :=
        hregular.fields _ _ hlast
      show (fieldValue h.read "Transfer-Encoding").getD [] = value
      rw [hvalue]
      rfl
    rw [hencoding]
    unfold responseCode KnownEncoding
    rw [hcut]
    refine ⟨?_, ?_, ?_⟩
    · rintro rfl
      rfl
    · intro hchunked
      have hne : value ≠ [] := by
        rintro rfl
        exact absurd hchunked (by decide)
      rw [if_pos (List.length_pos_iff.mpr hne), if_pos hchunked]
    · intro hunknown
      rw [not_or] at hunknown
      rw [if_pos (List.length_pos_iff.mpr hunknown.1), if_neg hunknown.2]
  · intro name value hlast hcollected
    rw [hheaders, find?_response, hregular.fields name value hlast]
    have hsome : (c.currentHeaders.find? (fun a => lower a.key = lower name)).isSome =
        true := by
      rw [List.find?_isSome]
      simpa using hcollected
    obtain ⟨a, ha⟩ := Option.isSome_iff_exists.mp hsome
    rw [ha]
    rfl

theorem parses_iff_regular (h : Head) : h.Parses ↔ h.Regular := ⟨Parses.regular, Regular.parses⟩

/-! ## Heads with nothing in between -/

/-- The lines in front of the first blank one. -/
def body (h : Head) : List WString := h.lines.takeWhile (fun x => ¬ Blank x)

/-- **A line that says nothing**: neither a status line nor a field. -/
def Stray (x : WString) : Prop := ¬ ascii "HTTP/1." <+: x ∧ ∀ name value, ¬ IsField x name value

/-- **A head without lines that look like others.** Behind a blank line there is
neither a status line nor a field, no line with white space in front becomes a
status line, and no stray line is named like a field in front of it, or like the
transfer encoding. -/
structure Clean (h : Head) : Prop where
  short : ∀ x ∈ h.lines, x.length < 2 ^ 31
  rest : ∀ x ∈ h.lines.dropWhile (fun x => ¬ Blank x), Stray x
  status : ∀ x ∈ h.body, ascii "HTTP/1." <+: WString.trim x → ascii "HTTP/1." <+: x
  names : ∀ before x after, h.body = before ++ x :: after → Stray x →
    lower (lineKey x) ≠ lower (ascii "Transfer-Encoding") ∧
      ∀ y ∈ before, ∀ name value, IsField y name value → lower (lineKey x) ≠ lower name

/-- **One blank behind the colon** and no NUL, or no value, wherever a field is
the last of its name. -/
def OneBlank (h : Head) : Prop :=
  ∀ before line after name pad value trail, h.lines = before ++ line :: after →
    FieldParts line name pad value trail →
      (∀ x ∈ after, ∀ key v, IsField x key v → lower key ≠ lower name) →
    pad.length = 1 ∧ 0 ∉ value ∨ value = []

/-- The lines that start with `HTTP/1.`. -/
def statusLines (lines : List WString) : List WString :=
  lines.filter (fun x => (ascii "HTTP/1.").isPrefixOf x)

/-- **What a head takes**: one blank behind its colons, a code that is not 0 and
the number of the last status line, too, and a status line or an encoding that
is not known. -/
structure Spaced (h : Head) : Prop where
  blanks : h.OneBlank
  code : ∀ code, (∃ x ∈ h.lines.head?, IsStatus x code) → h.Supported →
    code ≠ 0 ∧ ∀ x ∈ (statusLines h.lines).getLast?, statusNumber x = code
  server : (∃ x ∈ h.lines, ascii "HTTP/1." <+: x) ∨ ¬ h.Supported

theorem body_append (h : Head) :
    h.body ++ h.lines.dropWhile (fun x => ¬ Blank x) = h.lines :=
  List.takeWhile_append_dropWhile

theorem body_subset (h : Head) : h.body ⊆ h.lines := (List.takeWhile_prefix _).subset

/-- **The lines of the body are read**, and the one behind them. -/
theorem exists_read (h : Head) : ∃ last, cstr (WString.trim last) = [] ∧ last ∈ [] :: h.lines ∧
    h.read = h.body.map WString.trim ++ [WString.trim last] := by
  obtain ⟨lines, last, rest, hsent, hread, hlines, hlast⟩ := h.exists_stop
  have hends : ∀ x ∈ h.sent, ∃ y ∈ [] :: h.lines, x = y ++ [0x0D] := by
    intro x hx
    obtain ⟨y, hy, rfl⟩ := List.mem_map.mp hx
    exact ⟨y, by simpa [or_comm] using hy, rfl⟩
  obtain ⟨y, hy, rfl⟩ := hends last (hsent ▸ by simp)
  have htake : h.sent.takeWhile (fun x => !(WString.trim x).equalsC []) = lines := by
    rw [hsent, List.takeWhile_append_of_pos fun x hx => by rw [hlines x hx]; rfl,
      List.takeWhile_cons_of_neg (by rw [hlast]; decide), List.append_nil]
  have hbody : h.sent.takeWhile (fun x => !(WString.trim x).equalsC []) =
      h.body.map (· ++ [0x0D]) := by
    have hblank : (fun x => !(WString.trim x).equalsC []) ∘ (· ++ [0x0D]) =
        fun x => decide (¬ Blank x) := by
      funext x
      have hiff := equalsC_trim_iff x
      rw [Function.comp_apply, trim_cr, Bool.eq_iff_iff, decide_eq_true_iff, ← hiff]
      simp
    have hend : ([[]] : List WString).takeWhile (fun x => ¬ Blank x) = [] := by decide
    rw [sent, List.takeWhile_map, hblank, List.takeWhile_append, hend, List.append_nil]
    refine congrArg (List.map _) ?_
    split
    · rename_i hall
      exact ((List.takeWhile_prefix _).eq_of_length hall).symm
    · rfl
  refine ⟨y, ?_, hy, ?_⟩
  · rw [trim_cr] at hlast
    simpa [WString.equalsC] using hlast
  · rw [hread, ← htake, hbody, List.map_append, List.map_map, List.map_singleton, trim_cr]
    exact congrArg (· ++ [WString.trim y]) (List.map_congr_left fun x _ => trim_cr x)

/-- The fields that are cut from lines. -/
def cutFields (lines : List WString) : List RequestArgument :=
  headerFields (lines.map WString.trim)

theorem mem_cutFields {lines : List WString} {f : RequestArgument} :
    f ∈ cutFields lines ↔ ∃ x ∈ lines, headerField (WString.trim x) = some f := by
  unfold cutFields headerFields
  rw [List.mem_filterMap]
  simp

/-- What ends a head adds nothing to a name. -/
theorem Clean.lastValue_read (hclean : h.Clean) {name : WString} (hname : name ≠ []) :
    Collected.lastValue lower (headerFields h.read) name =
      Collected.lastValue lower (cutFields h.body) name := by
  obtain ⟨last, hlast, hmem, hread⟩ := h.exists_read
  have hne : ¬ lower [] = lower name := fun heq => hname (List.map_eq_nil_iff.mp heq.symm)
  have hfields : headerFields h.read =
      cutFields h.body ++ (headerField (WString.trim last)).toList := by
    rw [hread]
    unfold cutFields headerFields
    rw [List.filterMap_append, List.filterMap_cons]
    cases headerField (WString.trim last) <;> rfl
  have hempty : ∀ f, headerField (WString.trim last) = some f → f.key = [] := by
    intro f hf
    have hshort : (WString.trim last).length < 2 ^ 32 := by
      have hle := length_trim_le last
      rcases List.mem_cons.mp hmem with rfl | hmem
      · exact lt_of_le_of_lt hle (by decide)
      · have := hclean.short last hmem
        omega
    rw [key_headerField hshort hf]
    cases hlast' : WString.trim last with
    | nil => rfl
    | cons c t =>
      rw [hlast'] at hlast
      have hzero : c = 0 := by
        by_contra hne
        have hkeep : cstr (c :: t) = c :: cstr t :=
          List.takeWhile_cons_of_pos (decide_eq_true hne)
        rw [hkeep] at hlast
        cases hlast
      exact List.takeWhile_cons_of_neg (by simp [hzero])
  rw [hfields, Collected.lastValue_append]
  cases hf : headerField (WString.trim last) with
  | none => rfl
  | some f =>
    rw [Option.toList_some, Collected.lastValue_cons, Collected.lastValue_nil, hempty f hf,
      if_neg hne]
    rfl

/-- **A line that is not taken for a name**, unless it is a field of it. -/
def Tidy (name x : WString) : Prop :=
  x.length < 2 ^ 31 ∧ (Stray x → lower (lineKey x) ≠ lower name)

theorem Tidy.taken_iff {name x : WString} (h : Tidy name x) :
    (∃ f, headerField (WString.trim x) = some f ∧ lower f.key = lower name) ↔
      ∃ key v, IsField x key v ∧ lower key = lower name := by
  have hshort : (WString.trim x).length < 2 ^ 32 := by
    have := length_trim_le x
    have := h.1
    omega
  constructor
  · rintro ⟨f, hf, hname⟩
    have hkey : f.key = lineKey x := key_headerField hshort hf
    by_cases hstray : Stray x
    · exact absurd (hkey ▸ hname) (h.2 hstray)
    · rw [Stray, not_and_or, not_not] at hstray
      rcases hstray with hstatus | hfield
      · rw [headerField_status (trim_status hstatus).1] at hf
        cases hf
      · push Not at hfield
        obtain ⟨key, v, pad, trail, hparts⟩ := hfield
        rw [hkey, hparts.lineKey_eq] at hname
        exact ⟨key, v, ⟨pad, trail, hparts⟩, hname⟩
  · rintro ⟨key, v, ⟨pad, trail, hparts⟩, hname⟩
    exact ⟨_, hparts.headerField_trim h.1, hname⟩

/-- A line with a field has something cut from it. -/
theorem lastValue_cutFields_none {lines : List WString} {name : WString}
    (htidy : ∀ x ∈ lines, Tidy name x) :
    Collected.lastValue lower (cutFields lines) name = none ↔
      ∀ x ∈ lines, ∀ key v, IsField x key v → lower key ≠ lower name := by
  rw [← Option.not_isSome_iff_eq_none, Collected.lastValue_isSome]
  constructor
  · intro hnone x hx key v hfield hkey
    obtain ⟨f, hf, hname⟩ := (htidy x hx).taken_iff.mpr ⟨key, v, hfield, hkey⟩
    exact hnone ⟨f, mem_cutFields.mpr ⟨x, hx, hf⟩, hname⟩
  · rintro hall ⟨f, hf, hname⟩
    obtain ⟨x, hx, hfx⟩ := mem_cutFields.mp hf
    obtain ⟨key, v, hfield, hkey⟩ := (htidy x hx).taken_iff.mp ⟨f, hfx, hname⟩
    exact hall x hx key v hfield hkey

/-- **What is cut for a name** comes from its last field. -/
theorem lastValue_cutFields {before after : List WString}
    {line key pad value trail name : WString} (hlen : line.length < 2 ^ 31)
    (hparts : FieldParts line key pad value trail) (hkey : lower key = lower name)
    (htidy : ∀ x ∈ after, Tidy name x)
    (hafter : ∀ x ∈ after, ∀ key v, IsField x key v → lower key ≠ lower name) :
    Collected.lastValue lower (cutFields (before ++ line :: after)) name =
      some (cutValue pad value) := by
  have hcut := hparts.headerField_trim hlen
  have hnone := (lastValue_cutFields_none htidy).mpr hafter
  have hsplit : cutFields (before ++ line :: after) =
      cutFields before ++ ⟨key, cutValue pad value⟩ :: cutFields after := by
    rw [cutFields, List.map_append, headerFields, List.filterMap_append, List.map_cons,
      List.filterMap_cons, hcut]
    rfl
  rw [hsplit, Collected.lastValue_append, Collected.lastValue_cons, hnone, if_pos hkey]
  rfl

/-- A name for which something is cut has a last field. -/
theorem exists_lastField {lines : List WString} {name : WString}
    (htidy : ∀ x ∈ lines, Tidy name x)
    (hcut : Collected.lastValue lower (cutFields lines) name ≠ none) :
    ∃ value, LastField lines name value := by
  induction lines with
  | nil => exact absurd rfl hcut
  | cons x lines ih =>
    have hrest := (List.forall_mem_cons.mp htidy).2
    by_cases hlater : Collected.lastValue lower (cutFields lines) name = none
    · have hthis : ¬ ∀ y ∈ x :: lines, ∀ key v, IsField y key v → lower key ≠ lower name :=
        fun hall => hcut ((lastValue_cutFields_none htidy).mpr hall)
      have hnone := (lastValue_cutFields_none hrest).mp hlater
      rw [List.forall_mem_cons] at hthis
      push Not at hthis
      obtain ⟨key, value, hfield, hkey⟩ :
          ∃ key value, IsField x key value ∧ lower key = lower name := by
        by_contra hno
        push Not at hno
        obtain ⟨y, hy, key, v, hfield, hkey⟩ := hthis hno
        exact hnone y hy key v hfield hkey
      exact ⟨value, [], x, lines, key, rfl, hfield, hkey, hnone⟩
    · obtain ⟨value, before, line, after, key, rfl, hfield⟩ := ih hrest hlater
      exact ⟨value, x :: before, line, after, key, rfl, hfield⟩

/-! ## What a clean head takes -/

/-- **A field is in front of the blank line.** -/
theorem Clean.exists_body (hclean : h.Clean) {before after : List WString}
    {line name value : WString}
    (hlines : h.lines = before ++ line :: after) (hfield : IsField line name value) :
    ∃ after', h.body = before ++ line :: after' ∧ after' ⊆ after := by
  have hsplit := h.body_append.trans hlines
  rcases List.append_eq_append_iff.mp hsplit with ⟨c, hbefore, hrest⟩ | ⟨c, hbody, hrest⟩
  · exact absurd hfield ((hclean.rest line (hrest ▸ by simp)).2 name value)
  · cases c with
    | nil =>
      have hmem : line ∈ h.lines.dropWhile (fun x => ¬ Blank x) := by
        rw [← List.nil_append (List.dropWhile _ _), ← hrest]
        simp
      exact absurd hfield ((hclean.rest line hmem).2 name value)
    | cons y c =>
      obtain ⟨rfl, hafter⟩ := List.cons.inj hrest
      exact ⟨c, hbody, hafter ▸ List.subset_append_left _ _⟩

/-- **What is read of a name** is cut from its last field. -/
theorem Clean.lastValue_of_last (hclean : h.Clean) {before after : List WString}
    {line key pad value trail name : WString} (hlines : h.lines = before ++ line :: after)
    (hparts : FieldParts line key pad value trail) (hkey : lower key = lower name)
    (hafter : ∀ x ∈ after, ∀ key v, IsField x key v → lower key ≠ lower name) :
    Collected.lastValue lower (headerFields h.read) name = some (cutValue pad value) := by
  have hname : name ≠ [] := fun hnil => hparts.name.ne (List.map_eq_nil_iff.mp (hnil ▸ hkey))
  obtain ⟨after', hbody, hsub⟩ := hclean.exists_body hlines ⟨pad, trail, hparts⟩
  have hshort : ∀ x ∈ line :: after', x.length < 2 ^ 31 := fun x hx =>
    hclean.short x (h.body_subset (hbody ▸ List.mem_append_right _ hx))
  have htidy : ∀ x ∈ after', Tidy name x := by
    refine fun x hx => ⟨hshort x (List.mem_cons_of_mem _ hx), fun hstray => ?_⟩
    obtain ⟨mid, last, rfl⟩ := List.append_of_mem hx
    have hfront := (hclean.names (before ++ line :: mid) x last (by rw [hbody]; simp) hstray).2
    exact hkey ▸ hfront line (by simp) key value ⟨pad, trail, hparts⟩
  rw [hclean.lastValue_read hname, hbody]
  exact lastValue_cutFields (hshort line List.mem_cons_self) hparts hkey htidy fun x hx =>
    hafter x (hsub hx)

/-- **The fields are read right** exactly if there is one blank behind each colon. -/
theorem Clean.oneBlank_iff (hclean : h.Clean) :
    h.OneBlank ↔ ∀ name value, LastField h.lines name value →
      Collected.lastValue lower (headerFields h.read) name = some value := by
  constructor
  · rintro hone name value ⟨before, line, after, key, hlines, ⟨pad, trail, hparts⟩,
      hkey, hafter⟩
    rw [hclean.lastValue_of_last hlines hparts hkey hafter, hparts.cutValue_eq_iff.mpr
      (hone _ _ _ _ _ _ _ hlines hparts fun x hx k v hf => hkey ▸ hafter x hx k v hf)]
  · intro hall before line after name pad value trail hlines hparts hafter
    have hcut :=
      hall name value ⟨before, line, after, name, hlines, ⟨pad, trail, hparts⟩, rfl, hafter⟩
    rw [hclean.lastValue_of_last hlines hparts rfl hafter, Option.some.injEq] at hcut
    exact hparts.cutValue_eq_iff.mp hcut

/-- An encoding that is read is one that is given. -/
theorem Clean.supportedRead (hclean : h.Clean) (hone : h.OneBlank) (hsupported : h.Supported) :
    h.SupportedRead := by
  have hencoding : ascii "Transfer-Encoding" ≠ [] := by decide
  have htidy : ∀ x ∈ h.body, Tidy (ascii "Transfer-Encoding") x := by
    refine fun x hx => ⟨hclean.short x (h.body_subset hx), fun hstray => ?_⟩
    obtain ⟨before, after, hbody⟩ := List.append_of_mem hx
    exact (hclean.names before x after hbody hstray).1
  intro value hvalue
  have hsome : Collected.lastValue lower (cutFields h.body) (ascii "Transfer-Encoding") ≠
      none := by
    rw [← hclean.lastValue_read hencoding]
    intro hnone
    rw [Option.mem_def, fieldValue, hnone] at hvalue
    cases hvalue
  obtain ⟨given, before, line, after, key, hbody, hfield, hkey, hafter⟩ :=
    exists_lastField htidy hsome
  have hlast : LastField h.lines (ascii "Transfer-Encoding") given := by
    refine ⟨before, line, after ++ h.lines.dropWhile (fun x => ¬ Blank x), key,
      ?_, hfield, hkey, ?_⟩
    · rw [← List.cons_append, ← List.append_assoc, ← hbody]
      exact h.body_append.symm
    · refine List.forall_mem_append.mpr ⟨hafter, fun x hx key' v hf => ?_⟩
      exact absurd hf ((hclean.rest x hx).2 key' v)
  have hsame : fieldValue h.read "Transfer-Encoding" = some given :=
    hclean.oneBlank_iff.mp hone _ _ hlast
  rw [Option.mem_def, hsame, Option.some.injEq] at hvalue
  exact hvalue ▸ hsupported given hlast

/-- **The number that is read** is that of the last status line. -/
theorem Clean.number_eq (hclean : h.Clean) :
    h.number = ((statusLines h.lines).getLast?.map statusNumber).getD (-1) := by
  obtain ⟨last, hlast, -, hread⟩ := h.exists_read
  have hend : headerStatus (WString.trim last) = none := by
    unfold headerStatus
    rw [if_neg]
    intro hstart
    obtain ⟨t, ht⟩ := (WString.startsWith_iff (by decide)).mp hstart
    rw [← ht] at hlast
    exact absurd hlast (List.cons_ne_nil _ _)
  have hrest : statusLines (h.lines.dropWhile (fun x => ¬ Blank x)) = [] := by
    refine List.filter_eq_nil_iff.mpr fun x hx hstart => ?_
    exact (hclean.rest x hx).1 (List.isPrefixOf_iff_prefix.mp hstart)
  have hbody : statusLines h.lines = statusLines h.body := by
    rw [← h.body_append, statusLines, List.filter_append]
    show statusLines h.body ++ statusLines _ = _
    rw [hrest, List.append_nil]
  have hnumbers : ∀ lines : List WString, (∀ x ∈ lines, x.length < 2 ^ 31 ∧
        (ascii "HTTP/1." <+: WString.trim x → ascii "HTTP/1." <+: x)) →
      (lines.map WString.trim).filterMap headerStatus =
      (statusLines lines).map statusNumber := by
    intro lines hlines
    induction lines with
    | nil => rfl
    | cons x lines ih =>
      obtain ⟨⟨hlen, hline⟩, hlines⟩ := List.forall_mem_cons.mp hlines
      unfold statusLines at ih ⊢
      rw [List.map_cons, List.filterMap_cons, List.filter_cons, ih hlines]
      by_cases hstatus : ascii "HTTP/1." <+: x
      · rw [headerStatus_trim hstatus hlen, if_pos (List.isPrefixOf_iff_prefix.mpr hstatus)]
        rfl
      · have hno : headerStatus (WString.trim x) = none := by
          unfold headerStatus
          rw [if_neg fun hstart =>
            hstatus (hline ((WString.startsWith_iff (by decide)).mp hstart))]
        rw [hno, if_neg fun hstart => hstatus (List.isPrefixOf_iff_prefix.mp hstart)]
  unfold number
  rw [hread, List.filterMap_append, List.filterMap_cons_none hend, List.filterMap_nil,
    List.append_nil, hnumbers h.body fun x hx => ⟨hclean.short x (h.body_subset hx),
      hclean.status x hx⟩, hbody, List.getLast?_map]

/-- **A clean head is parsed** exactly if it has one blank behind its colons, the
code of its first line is not 0 and the last, and there is one, or an encoding
that is not known. -/
theorem parses_iff (hclean : h.Clean) : h.Parses ↔ h.Spaced := by
  rw [parses_iff_regular]
  have hlast : ∀ x, (ascii "HTTP/1." <+: x) → x ∈ h.lines → ∃ y,
      (statusLines h.lines).getLast? = some y := by
    intro x hstatus hx
    refine ⟨_, List.getLast?_eq_some_getLast ?_⟩
    exact List.ne_nil_of_mem (List.mem_filter.mpr ⟨hx, List.isPrefixOf_iff_prefix.mpr hstatus⟩)
  constructor
  · intro hregular
    refine ⟨hclean.oneBlank_iff.mpr hregular.fields, fun code hstatus hsupported => ?_, ?_⟩
    · obtain ⟨hne, hcode, -⟩ := hregular.status code hstatus hsupported
      refine ⟨hne, fun x hx => ?_⟩
      rw [hclean.number_eq, hx] at hcode
      exact hcode
    · by_contra hno
      push Not at hno
      obtain ⟨hcode, -⟩ := hregular.server hno.1 hno.2
      have hnone : statusLines h.lines = [] := List.filter_eq_nil_iff.mpr fun x hx hstart =>
        hno.1 x hx (List.isPrefixOf_iff_prefix.mp hstart)
      rw [hclean.number_eq, hnone] at hcode
      exact absurd hcode (by decide)
  · rintro ⟨hone, hstatus, hserver⟩
    refine ⟨hclean.oneBlank_iff.mp hone, fun code hcode hsupported => ?_,
      fun hnone hsupported => ?_⟩
    · obtain ⟨hne, hnumber⟩ := hstatus code hcode hsupported
      refine ⟨hne, ?_, hclean.supportedRead hone hsupported⟩
      obtain ⟨x, hx, version, digits, reason, hline, -⟩ := hcode
      obtain ⟨y, hy⟩ := hlast x ⟨_, hline.symm⟩ (List.mem_of_mem_head? hx)
      rw [hclean.number_eq, hy]
      exact hnumber y hy
    · rcases hserver with ⟨x, hx, hprefix⟩ | hunsupported
      · exact absurd hprefix (hnone x hx)
      · exact absurd hsupported hunsupported

/-- `HTTP/1.1 200 OK` and `Content-Length: 5`. -/
def spaced : Head where
  lines := [ascii "HTTP/1.1 200 OK", ascii "Content-Length: 5"]
  text := by decide

/-- **A head as servers send it** is parsed. -/
theorem parses_spaced : spaced.Parses := by
  have hlines : ∀ x ∈ spaced.lines, x = ascii "HTTP/1.1 200 OK" ∨
      x = ascii "Content-Length: 5" :=
    fun x hx => by simpa [spaced] using hx
  have hfield : IsField (ascii "Content-Length: 5") (ascii "Content-Length") (ascii "5") := by
    refine ⟨[0x20], [], ?_, ⟨?_, ?_, ?_⟩, ?_, ?_, ?_, ?_⟩ <;> decide
  have hclean : spaced.Clean := by
    refine ⟨by decide, fun x hx => ?_, fun x hx => ?_, fun before x after hbody hstray => ?_⟩
    · exact absurd (show x ∈ [] from hx) List.not_mem_nil
    · rcases hlines x (spaced.body_subset hx) with rfl | rfl <;> decide
    · rcases hlines x (spaced.body_subset (hbody ▸ by simp)) with rfl | rfl
      · exact absurd (by decide) hstray.1
      · exact absurd hfield (hstray.2 _ _)
  refine (parses_iff hclean).mpr ⟨?_, fun code hstatus _ => ?_, Or.inl ?_⟩
  · intro before line after name pad value trail hsplit hparts _
    rcases hlines line (hsplit ▸ by simp) with rfl | rfl
    · -- a name has no blank
      have hkey : (0x20 : UInt8) ∈ lineKey (ascii "HTTP/1.1 200 OK") := by decide
      have hblank := (hparts.name.chars 0x20 (hparts.lineKey_eq ▸ hkey)).2.2
      exact absurd hblank (by decide)
    · have htrim := hparts.trim_line
      rw [← hparts.lineKey_eq, show lineKey (ascii "Content-Length: 5") =
        ascii "Content-Length" by
          decide,
        show WString.trim (ascii "Content-Length: 5") =
          ascii "Content-Length" ++ 0x3A :: [0x20, 0x35] by decide,
        List.append_cancel_left_eq, List.cons.injEq] at htrim
      by_cases hnil : value = []
      · exact Or.inr hnil
      · rw [if_neg hnil] at htrim
        match pad, value, htrim.2, hparts.pad, hparts.first with
        | [], v, hvalue, _, hfirst =>
          obtain rfl : [0x20, 0x35] = v := hvalue
          exact absurd (hfirst 0x20 rfl) (by decide)
        | [_], v, hvalue, _, _ =>
          obtain rfl : [0x35] = v := (List.cons.inj hvalue).2
          exact Or.inl ⟨rfl, by decide⟩
        | _ :: b :: _, _, hvalue, hpad, _ =>
          obtain ⟨-, hvalue⟩ := List.cons.inj hvalue
          obtain ⟨rfl, -⟩ := List.cons.inj hvalue
          exact absurd (hpad 0x35 (by simp)) (by decide)
  · obtain ⟨x, hx, hcode⟩ := hstatus
    obtain rfl : ascii "HTTP/1.1 200 OK" = x := Option.some.inj hx
    have hnumber : (200 : ℤ) = code := hcode.statusNumber_eq ▸ (by decide)
    refine ⟨by omega, fun y hy => ?_⟩
    obtain rfl : ascii "HTTP/1.1 200 OK" = y := Option.some.inj hy
    exact hcode.statusNumber_eq
  · exact ⟨ascii "HTTP/1.1 200 OK", by decide, by decide⟩

/-- `HTTP/1.1 200 OK` and `Content-Length:5`. -/
def unspaced : Head where
  lines := [ascii "HTTP/1.1 200 OK", ascii "Content-Length:5"]
  text := by decide

/-- **A value without a blank in front is lost**: the length is 0. -/
theorem not_parses_unspaced : ¬ unspaced.Parses := by
  intro hparses
  have hfield : LastField unspaced.lines (ascii "Content-Length") (ascii "5") := by
    refine ⟨[ascii "HTTP/1.1 200 OK"], ascii "Content-Length:5", [],
      ascii "Content-Length", rfl, ⟨[], [], ?_⟩, rfl, fun x hx => absurd hx List.not_mem_nil⟩
    refine ⟨?_, ⟨?_, ?_, ?_⟩, ?_, ?_, ?_, ?_⟩ <;> decide
  have hcut := hparses.fields hfield
  exact absurd hcut (by decide)

end Head

end HTTPClient
