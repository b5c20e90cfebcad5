import Esp31b.ParseRequest

/-!
# Requests and segments

A request can reach the server in one segment or byte by byte, and the bytes
behind the first may come at any time. Whatever reads with a time-out does
not notice, as long as no time-out is reached; that is all of the header.
The plain body is different: it is what has arrived at one moment, and so
one request can be parsed in as many ways as its body can be cut off.

`segmentationFree_iff` says which requests are always parsed alike: those
whose method has no body, and those whose body, up to its first NUL, adds
nothing but the empty argument `plain` that no body at all adds as well.
-/

namespace ESP31BWebServer

/-! ## Lines -/

/-- **Lines are read one after the other.** -/
inductive ReadsLines : List WString → Link → Link → Prop where
  | nil (l : Link) : ReadsLines [] l l
  | cons {line : WString} {lines : List WString} {l l₁ l' : Link} (h : readLine l = (line, l₁))
      (hs : ReadsLines lines l₁ l') : ReadsLines (line :: lines) l l'

/-- Lines as they are sent. -/
def sendLines (lines : List WString) : List UInt8 := lines.flatMap (· ++ [0x0D, 0x0A])

theorem length_le_sendLines {line : WString} {lines : List WString} (h : line ∈ lines) :
    line.length ≤ (sendLines lines).length := by
  obtain ⟨s, t, rfl⟩ := List.append_of_mem h
  simp only [sendLines, List.flatMap_append, List.flatMap_cons, List.length_append]
  omega

/-- A line is read, when no wait for it reaches the time-out. -/
theorem readLine_eq {l : Link} {line rest : List UInt8} (hl : l.Prompt)
    (hp : l.pending = line ++ 0x0D :: 0x0A :: rest) (hline : 0x0D ∉ line) :
    ∃ l', readLine l = (line, l') ∧ l.Took (line.length + 2) l' := by
  have hlen : l.pending.length = line.length + (rest.length + 2) := by rw [hp]; simp
  obtain ⟨l₁, h₁, htook₁⟩ := Link.readStringUntil_eq hp hline (fun i hi => hl.2 i (by omega))
  have hp₁ : l₁.pending = [] ++ 0x0A :: rest := by
    rw [htook₁.pending, hp, List.drop_append]
    simp
  obtain ⟨l₂, h₂, htook₂⟩ := Link.readStringUntil_eq hp₁ (by simp) (fun i hi =>
    (htook₁.prompt hl).2 i (by rw [hp₁]; simp at hi ⊢; omega))
  refine ⟨l₂, ?_, by simpa using htook₁.trans htook₂⟩
  rw [readLine, h₁]
  dsimp only
  rw [h₂]

/-- **All lines are read.** -/
theorem readsLines_of_prompt {l : Link} {lines : List WString} {rest : List UInt8}
    (hl : l.Prompt)
    (hp : l.pending = sendLines lines ++ rest) (hlines : ∀ x ∈ lines, 0x0D ∉ x) :
    ∃ l', ReadsLines lines l l' ∧ l.Took (sendLines lines).length l' := by
  induction lines generalizing l with
  | nil => exact ⟨l, ReadsLines.nil l, Link.Took.refl l⟩
  | cons line lines ih =>
    have hsend : sendLines (line :: lines) = line ++ 0x0D :: 0x0A :: sendLines lines := by
      simp [sendLines]
    have hp₁ : l.pending = line ++ 0x0D :: 0x0A :: (sendLines lines ++ rest) := by
      rw [hp, hsend]
      simp
    obtain ⟨l₁, h₁, htook₁⟩ := readLine_eq hl hp₁ (hlines line (by simp))
    have hp₂ : l₁.pending = sendLines lines ++ rest := by
      rw [htook₁.pending, hp₁, List.drop_append]
      simp
    obtain ⟨l', hreads, htook⟩ :=
      ih (htook₁.prompt hl) hp₂ (fun x hx => hlines x (by simp [hx]))
    refine ⟨l', ReadsLines.cons h₁ hreads, ?_⟩
    have hall := htook₁.trans htook
    rwa [show line.length + 2 + (sendLines lines).length = (sendLines (line :: lines)).length by
      rw [hsend, List.length_append, List.length_cons, List.length_cons]; omega] at hall

/-- **The fields are handled in turn**, up to a line that is empty or has no
colon. -/
theorem headerLoop_stops {σ : Type} {handle : σ → WString →
    σ} {lines : List WString} {last : WString}
    {l l' : Link} (st : σ) (hreads : ReadsLines (lines ++ [last]) l l')
    (hlines : ∀ x ∈ lines, x.equalsC [] = false ∧ x.indexOf 0x3A 0 ≠ -1)
    (hlast : last.equalsC [] = true ∨ last.indexOf 0x3A 0 = -1) :
    (Fueled.loop (fun t => pure (headerTurn handle t)) (st, l)).Yields
    (lines.foldl handle st, l') := by
  induction lines generalizing l st with
  | nil =>
    cases hreads with
    | cons h hs =>
      cases hs with
      | nil =>
        refine Fueled.yields_loop_leave ?_
        rw [headerTurn, h]
        dsimp only
        rcases hlast with hempty | hcolon
        · rw [if_pos hempty]
          exact Fueled.yields_pure _
        · rw [if_pos hcolon, ite_self]
          exact Fueled.yields_pure _
  | cons line lines ih =>
    cases hreads with
    | cons h hs =>
      obtain ⟨hne, hcolon⟩ := hlines line (by simp)
      refine Fueled.yields_loop_again (t := (handle st line, _)) ?_
        (ih _ hs (fun x hx => hlines x (by simp [hx])))
      rw [headerTurn, h]
      dsimp only
      rw [hne, if_neg (by decide), if_neg hcolon]
      exact Fueled.yields_pure _

/-- The same up to the empty line. -/
theorem headerLoop_yields {σ : Type} {handle : σ → WString →
    σ} {lines : List WString} {l l' : Link}
    (st : σ) (hreads : ReadsLines (lines ++ [[]]) l l')
    (hlines : ∀ x ∈ lines, x.equalsC [] = false ∧ x.indexOf 0x3A 0 ≠ -1) :
    (Fueled.loop (fun t => pure (headerTurn handle t)) (st, l)).Yields
    (lines.foldl handle st, l') :=
  headerLoop_stops st hreads hlines (Or.inl rfl)

/-- **The first line is taken apart** at its blanks. -/
theorem requestLine_cut {method target : WString} (version : WString)
    (hmethod : ∀ c ∈ method, c ≠ 0x20 ∧ c ≠ 0) (htarget : ∀ c ∈ target, c ≠ 0x20 ∧ c ≠ 0)
    (hlen : method.length + target.length + 2 < 2 ^ 32) :
    ∃ addrStart addrEnd : ℕ,
      WString.indexOf (method ++ 0x20 :: (target ++ 0x20 :: version)) 0x20 0 = addrStart ∧
      WString.indexOf (method ++ 0x20 :: (target ++ 0x20 :: version)) 0x20
        (WString.pos (addrStart + 1)) = addrEnd ∧
      WString.substring (method ++ 0x20 :: (target ++ 0x20 :: version)) 0
        (WString.pos addrStart)
        = method ∧
      WString.substring (method ++ 0x20 :: (target ++ 0x20 :: version))
        (WString.pos ((addrStart : ℤ) + 1)) (WString.pos addrEnd) = target := by
  have hdrop : (method ++ 0x20 :: (target ++ 0x20 :: version)).drop (method.length + 1)
      = target ++ 0x20 :: version := by
    rw [List.drop_append]
    simp
  have hone : WString.pos ((method.length : ℤ) + 1) = method.length + 1 := by
    rw [show ((method.length : ℤ) + 1) = ((method.length + 1 : ℕ) : ℤ) by omega,
      WString.pos_natCast (by omega)]
  refine ⟨method.length, method.length + 1 + target.length,
    WString.indexOf_append hmethod (by decide), ?_, ?_, ?_⟩
  · rw [hone, WString.indexOf_of_drop hdrop htarget (by decide)]
    omega
  · rw [WString.pos_natCast (by omega), WString.substring_of_le (Nat.zero_le _), List.drop_zero,
      List.take_left]
    exact cstr_of_not_mem (fun h => (hmethod _ h).2 rfl)
  · rw [hone, WString.pos_natCast (by omega), WString.substring_of_le (by omega),
      List.drop_take, hdrop,
      Nat.add_sub_cancel_left, List.take_left]
    exact cstr_of_not_mem (fun h => (htarget _ h).2 rfl)

/-! ## Requests -/

/-- **A request**: the three parts of its first line, its fields – a name and
all that is behind the colon – and its body. -/
structure HttpRequest where
  method : WString
  target : WString
  version : WString
  fields : List RequestArgument
  body : List UInt8
  deriving DecidableEq, Repr

namespace HttpRequest

/-- The first line. -/
def requestLine (q : HttpRequest) : WString :=
  q.method ++ 0x20 :: (q.target ++ 0x20 :: q.version)

/-- The line of a field. -/
def fieldLine (f : RequestArgument) : WString := f.key ++ 0x3A :: f.value

/-- **A field is taken apart** at its first colon: its name, and what is so
many bytes behind the colon. -/
theorem fieldLine_cut {f : RequestArgument} (hkey : ∀ c ∈ f.key, c ≠ 0x3A ∧ c ≠ 0)
    (hvalue : 0 ∉ f.value)
    (hlen : f.key.length + 2 < 2 ^ 32) :
    (fieldLine f).equalsC [] = false ∧ WString.indexOf (fieldLine f) 0x3A 0 = f.key.length ∧
      WString.substring (fieldLine f) 0 (WString.pos f.key.length) = f.key ∧
      WString.substring (fieldLine f) (WString.pos ((f.key.length : ℤ) + 1))
        (fieldLine f).length
        = f.value ∧
      WString.substring (fieldLine f) (WString.pos ((f.key.length : ℤ) + 2))
        (fieldLine f).length
        = f.value.drop 1 := by
  have hbehind : ∀ k : ℕ, k ≤ 1 →
    WString.substring (fieldLine f) (WString.pos ((f.key.length + k + 1 : ℕ)))
      (fieldLine f).length = f.value.drop k := by
    intro k hk
    rw [WString.pos_natCast (by omega), WString.substring_to_end, fieldLine, List.drop_append,
      List.drop_eq_nil_of_le (by omega), List.nil_append,
      show f.key.length + k + 1 - f.key.length = k + 1 by omega, List.drop_succ_cons]
    exact cstr_of_not_mem (fun h0 => hvalue (List.mem_of_mem_drop h0))
  refine ⟨?_, WString.indexOf_append hkey (by decide), ?_, hbehind 0 (by omega),
    hbehind 1 (by omega)⟩
  · have hmem : 0x3A ∈ cstr (fieldLine f) := by
      rw [fieldLine, cstr, List.takeWhile_append_of_pos (fun c hc => by
        simpa using (hkey c hc).2), List.takeWhile_cons_of_pos (by decide)]
      simp
    rw [WString.equalsC, beq_eq_false_iff_ne]
    exact List.ne_nil_of_mem hmem
  · rw [WString.pos_natCast (by omega), WString.substring_of_le (Nat.zero_le _),
      List.drop_zero, fieldLine,
      List.take_left]
    exact cstr_of_not_mem (fun h => (hkey _ h).2 rfl)

/-- The lines of the header, with the empty one. -/
def lines (q : HttpRequest) : List WString := q.requestLine :: (q.fields.map fieldLine ++ [[]])

/-- The request as it is sent. -/
def bytes (q : HttpRequest) : List UInt8 := sendLines q.lines ++ q.body

/-- **A well-formed request that is no form**, of a size that an `int` can
count. -/
structure WellFormed (q : HttpRequest) : Prop where
  method : ∀ c ∈ q.method, c ≠ 0x20 ∧ c ≠ 0x0D ∧ c ≠ 0
  target : ∀ c ∈ q.target, c ≠ 0x20 ∧ c ≠ 0x0D ∧ c ≠ 0
  version : 0x0D ∉ q.version
  keys : ∀ f ∈ q.fields, ∀ c ∈ f.key, c ≠ 0x3A ∧ c ≠ 0x0D ∧ c ≠ 0
  values : ∀ f ∈ q.fields, ∀ c ∈ f.value, c ≠ 0x0D ∧ c ≠ 0
  notForm : ∀ f ∈ q.fields, f.key = ascii "Content-Type" →
    ¬ ascii "multipart/form-data" <+: WString.trim f.value
  short : q.bytes.length + 16 < 2 ^ 31

/-- The query. -/
def search (q : HttpRequest) : WString := (splitSearch q.target).1

/-- Whether the body is read. -/
def hasBody (q : HttpRequest) : Bool := readsBody (methodOf q.method)

/-- The server when the header is read. -/
def scanned (q : HttpRequest) (s : ESP31BWebServer) : ESP31BWebServer :=
  let s := startRequest { s with currentHeaders := s.currentHeaders.map (fun a => ⟨a.key, []⟩) }
    q.method q.target
  if q.hasBody then ((q.fields.map fieldLine).foldl bodyHeader ⟨s, [], false⟩).server
  else (q.fields.map fieldLine).foldl plainHeader s

/-- The arguments, when this much of the body was read. -/
def argumentsWith (q : HttpRequest) (plainBuf : WString) : List RequestArgument :=
  if q.hasBody then
    parseArguments ((if !q.search.equalsC [] then q.search ++ [0x26] else q.search) ++
      plainArguments plainBuf)
  else parseArguments q.search

variable {q : HttpRequest}

/-- No line of a well-formed request has a CR. -/
theorem WellFormed.lines_cr (hq : q.WellFormed) : ∀ x ∈ q.lines, 0x0D ∉ x := by
  intro x hx
  rcases List.mem_cons.mp hx with rfl | hx
  · have hm : 0x0D ∉ q.method := fun h => (hq.method _ h).2.1 rfl
    have ht : 0x0D ∉ q.target := fun h => (hq.target _ h).2.1 rfl
    simp [requestLine, hm, ht, hq.version]
  · rcases List.mem_append.mp hx with hx | hx
    · obtain ⟨f, hf, rfl⟩ := List.mem_map.mp hx
      have hk : 0x0D ∉ f.key := fun h => (hq.keys f hf _ h).2.1 rfl
      have hv : 0x0D ∉ f.value := fun h => (hq.values f hf _ h).1 rfl
      simp [fieldLine, hk, hv]
    · simp [List.mem_singleton.mp hx]

/-- Lines and body are short. -/
theorem WellFormed.length_line (hq : q.WellFormed) {x : WString} (hx : x ∈ q.lines) :
    x.length + q.body.length + 16 < 2 ^ 31 := by
  have hshort := hq.short
  have hline := length_le_sendLines hx
  rw [bytes, List.length_append] at hshort
  omega

theorem WellFormed.length_requestLine (hq : q.WellFormed) :
    q.method.length + q.target.length + 2 + q.body.length + 16 < 2 ^ 31 := by
  have hline := hq.length_line (x := q.requestLine) List.mem_cons_self
  rw [requestLine, List.length_append, List.length_cons, List.length_append,
    List.length_cons] at hline
  omega

/-- A field is taken apart. -/
theorem WellFormed.fieldLine_cut (hq : q.WellFormed) {f : RequestArgument} (hf : f ∈ q.fields) :
    (fieldLine f).equalsC [] = false ∧ WString.indexOf (fieldLine f) 0x3A 0 = f.key.length ∧
      WString.substring (fieldLine f) 0 (WString.pos f.key.length) = f.key ∧
      WString.substring (fieldLine f) (WString.pos ((f.key.length : ℤ) + 1))
        (fieldLine f).length
        = f.value ∧
      WString.substring (fieldLine f) (WString.pos ((f.key.length : ℤ) + 2))
        (fieldLine f).length
        = f.value.drop 1 := by
  have hline := hq.length_line (x := fieldLine f)
    (List.mem_cons_of_mem _ (List.mem_append_left _ (List.mem_map_of_mem hf)))
  rw [fieldLine, List.length_append, List.length_cons] at hline
  exact HttpRequest.fieldLine_cut (fun c hc => ⟨(hq.keys f hf c hc).1, (hq.keys f hf c hc).2.2⟩)
    (fun h0 => (hq.values f hf _ h0).2 rfl) (by omega)

theorem WellFormed.fields_plain (hq : q.WellFormed) :
    ∀ x ∈ q.fields.map fieldLine, x.equalsC [] = false ∧ WString.indexOf x 0x3A 0 ≠ -1 := by
  intro x hx
  obtain ⟨f, hf, rfl⟩ := List.mem_map.mp hx
  obtain ⟨hne, hindex, -⟩ := hq.fieldLine_cut hf
  exact ⟨hne, by rw [hindex]; omega⟩

/-- The first line is taken apart. -/
theorem WellFormed.requestLine_parts (hq : q.WellFormed) :
    ∃ addrStart addrEnd : ℕ, q.requestLine.indexOf 0x20 0 = addrStart ∧
      q.requestLine.indexOf 0x20 (WString.pos (addrStart + 1)) = addrEnd ∧
      q.requestLine.substring 0 (WString.pos addrStart) = q.method ∧
      q.requestLine.substring (WString.pos ((addrStart : ℤ) + 1)) (WString.pos addrEnd) =
        q.target := by
  have hlen := hq.length_requestLine
  exact requestLine_cut q.version (fun c hc => ⟨(hq.method c hc).1, (hq.method c hc).2.2⟩)
    (fun c hc => ⟨(hq.target c hc).1, (hq.target c hc).2.2⟩) (by omega)

/-- A field does not make a form of it. -/
theorem WellFormed.bodyHeader_isForm (hq : q.WellFormed) {f : RequestArgument}
    (hf : f ∈ q.fields)
    {h : HeaderScan} (hform : h.isForm = false) :
    (bodyHeader h (fieldLine f)).isForm = false := by
  obtain ⟨-, hindex, hname, hvalue, -⟩ := hq.fieldLine_cut hf
  have h0 : 0 ∉ f.value := fun h0 => (hq.values f hf _ h0).2 rfl
  unfold bodyHeader
  rw [hindex]
  dsimp only
  rw [hname, hvalue]
  split_ifs with htype htext hmulti hhost
  · rfl
  · exfalso
    rw [WString.equalsC_iff (fun h => (hq.keys f hf _ h).2.2 rfl)] at htype
    rw [WString.startsWith_iff (by decide)] at hmulti
    exact hq.notForm f hf htype hmulti
  · exact hform
  · exact hform
  · exact hform

/-- The header does not make a form of it. -/
theorem WellFormed.fold_isForm (hq : q.WellFormed) {fs : List RequestArgument}
    (hfs : ∀ f ∈ fs, f ∈ q.fields)
    {h : HeaderScan} (hform : h.isForm = false) :
    ((fs.map fieldLine).foldl bodyHeader h).isForm = false := by
  induction fs generalizing h with
  | nil => exact hform
  | cons f fs ih =>
    exact ih (fun g hg => hfs g (by simp [hg])) (hq.bodyHeader_isForm (hfs f (by simp)) hform)

/-- **What the parser makes of a request**, when its lines are read: the
header, and of the body what is there. -/
theorem WellFormed.parseRequest_yields (hq : q.WellFormed) (stack : StackMemory)
    (s : ESP31BWebServer)
    {l l' : Link} (hreads : ReadsLines q.lines l l') :
    ∃ l'', (parseRequest stack s l).Yields
      (true, { q.scanned s with currentArgs := q.argumentsWith (readPlain l').1 }, l'') := by
  obtain ⟨addrStart, addrEnd, hstart, hend, hmethod, htarget⟩ := hq.requestLine_parts
  cases hreads with
  | @cons _ _ _ l₁ _ hline hs =>
    unfold parseRequest
    rw [hline]
    dsimp only
    have hreads : ∀ t : ESP31BWebServer,
        readsBody (t.startRequest q.method q.target).currentMethod = q.hasBody := fun _ => rfl
    rw [hstart, hend, if_neg (by omega), hmethod, htarget, hreads]
    by_cases hbody : q.hasBody = true
    · refine ⟨(readPlain l').2.flush, ?_⟩
      rw [if_pos hbody]
      refine Fueled.Yields.bind (headerLoop_yields _ hs hq.fields_plain) ?_
      have hform := hq.fold_isForm (fun f (hf : f ∈ q.fields) => hf)
        (h :=
          ⟨startRequest { s with currentHeaders := s.currentHeaders.map (fun a => ⟨a.key, []⟩) }
          q.method q.target, [], false⟩) rfl
      dsimp only
      rw [hform, if_neg (by decide), scanned, argumentsWith, if_pos hbody, if_pos hbody]
      exact Fueled.yields_pure _
    · refine ⟨l'.flush, ?_⟩
      rw [if_neg hbody]
      refine Fueled.Yields.bind (headerLoop_yields _ hs hq.fields_plain) ?_
      rw [scanned, argumentsWith, if_neg hbody, if_neg hbody]
      exact Fueled.yields_pure _

end HttpRequest

/-! ## What has arrived of the body -/

theorem waitAvailable_took (tries : ℕ) (l : Link) : l.Took 0 (waitAvailable tries l) := by
  induction tries generalizing l with
  | zero => exact l.took_poll
  | succ tries ih =>
    unfold waitAvailable
    split
    · have htook := l.took_poll.trans (ih l.poll)
      rwa [Nat.add_zero] at htook
    · exact l.took_poll

theorem waitAvailable_poll_took (tries : ℕ) (l : Link) :
    l.Took 0 (waitAvailable tries l).poll := by
  simpa using (waitAvailable_took tries l).trans (waitAvailable tries l).took_poll

/-- **The plain body is what is there after the wait.** -/
theorem readPlain_eq {l : Link} (hto : 0 < l.timeout) :
    (readPlain l).1 = cstr (waitAvailable 100 l).poll.rx := by
  have htook := waitAvailable_poll_took 100 l
  set l₂ := (waitAvailable 100 l).poll with hl₂
  have hle : l₂.rx.length ≤ l₂.pending.length := by simp [Link.pending]
  obtain ⟨l', hread, -⟩ := Link.readBytes_eq hle (fun i hi => by
    rw [Link.waitAt_of_lt hi, htook.timeout]
    exact hto)
  have hrx : l₂.pending.take l₂.rx.length = l₂.rx := by rw [Link.pending, List.take_left]
  show cstr (l₂.readBytes l₂.rx.length).1 = cstr l₂.rx
  rw [hread, hrx]

/-- **It is the start of what is pending.** -/
theorem readPlain_take {l : Link} (hto : 0 < l.timeout) :
    ∃ m, (readPlain l).1 = cstr (l.pending.take m) := by
  have htook := waitAvailable_poll_took 100 l
  refine ⟨(waitAvailable 100 l).poll.rx.length, ?_⟩
  rw [readPlain_eq hto, ← List.drop_zero (l := l.pending), ← htook.pending,
    Link.pending, List.take_left]

/-! ## A body that is cut off

The bytes that are to be seen are there from the start, and nothing arrives
for many looks at the connection; then the rest does. The looks for the
header take no time, those for the body a millisecond each, as the code waits
that long from one to the next. -/

/-- **A connection on which nothing arrives for a while**: the gaps are the
times between the looks. The time-out is the default one. -/
def calm (now : ℕ) (rx : List UInt8) (gaps : List ℕ) (rest : List UInt8) : Link :=
  ⟨rx, now, 1000, gaps.map (⟨[], ·⟩) ++ [⟨rest, 0⟩], false⟩

theorem calm_poll (now : ℕ) (rx : List UInt8) (gap : ℕ) (gaps : List ℕ) (rest : List UInt8) :
    (calm now rx (gap :: gaps) rest).poll = calm (now + gap) rx gaps rest := by
  simp [calm, Link.poll]

theorem calm_pending (now : ℕ) (rx : List UInt8) (gaps : List ℕ) (rest : List UInt8) :
    (calm now rx gaps rest).pending = rx ++ rest := by
  simp [calm, Link.pending]

/-- No byte is waited for longer than all gaps together. -/
theorem waitsFrom_calm (acc : ℕ) (gaps : List ℕ) (rest : List UInt8) (i : ℕ) :
    (Link.waitsFrom acc (gaps.map (⟨[], ·⟩) ++ [⟨rest, 0⟩])).getD i 0 ≤ acc + gaps.sum := by
  induction gaps generalizing acc with
  | nil =>
    cases rest with
    | nil => exact Nat.zero_le _
    | cons c t =>
      show (acc :: (List.replicate t.length 0 ++ [])).getD i 0 ≤ _
      cases i with
      | zero => exact Nat.le_refl _
      | succ i =>
        rw [List.getD_cons_succ, List.append_nil]
        rcases Nat.lt_or_ge i t.length with hlt | hge
        · simp [hlt]
        · rw [List.getD_eq_default _ _ (by simpa using hge)]
          exact Nat.zero_le _
  | cons gap gaps ih =>
    rw [List.sum_cons, ← Nat.add_assoc]
    exact ih (acc + gap)

theorem calm_prompt (now : ℕ) (rx : List UInt8) {gaps : List ℕ} (rest : List UInt8)
    (hgaps : gaps.sum < 1000) : (calm now rx gaps rest).Prompt := by
  refine ⟨(by decide : 0 < 1000), fun i _ => ?_⟩
  show (List.replicate rx.length 0 ++ Link.waitsFrom 0 _).getD i 0 < 1000
  rcases Nat.lt_or_ge i rx.length with hlt | hge
  · rw [List.getD_append _ _ _ _ (by simpa using hlt)]
    simp [hlt]
  · rw [List.getD_append_right _ _ _ _ (by simpa using hge)]
    refine lt_of_le_of_lt (waitsFrom_calm 0 gaps rest _) ?_
    rwa [Nat.zero_add]

/-- A byte is read in one look. -/
theorem calm_timedRead (now : ℕ) (c : UInt8) (rx : List UInt8) (gaps : List ℕ)
    (rest : List UInt8) :
    (calm now (c :: rx) (0 :: gaps) rest).timedRead = (some c, calm now rx gaps rest) := by
  have hread : (calm now (c :: rx) (0 :: gaps) rest).read =
      (some c, calm now rx gaps rest) := by
    rw [Link.read, calm_poll]
    rfl
  rw [Link.timedRead, Link.timedReadFrom, hread]

/-- A line is read in as many looks as it has bytes. -/
theorem calm_readUntilFrom {now : ℕ} {line : List UInt8} {t : UInt8} {n : ℕ} (rx : List UInt8)
    (gaps : List ℕ) (rest : List UInt8) (hn : line.length < n) (ht : t ∉ line) :
    Link.readUntilFrom t n
      (calm now (line ++ t :: rx) (List.replicate (line.length + 1) 0 ++ gaps) rest)
      = (line, calm now rx gaps rest) := by
  induction line generalizing n with
  | nil =>
    obtain ⟨n, rfl⟩ : ∃ k, n = k + 1 := ⟨n - 1, by omega⟩
    show Link.readUntilFrom t (n + 1) (calm now (t :: rx) (0 :: gaps) rest) = _
    rw [Link.readUntilFrom, calm_timedRead]
    simp
  | cons c line ih =>
    obtain ⟨n, rfl⟩ : ∃ k, n = k + 1 := ⟨n - 1, by omega⟩
    show Link.readUntilFrom t (n + 1) (calm now (c :: (line ++ t :: rx))
      (0 :: (List.replicate (line.length + 1) 0 ++ gaps)) rest) = _
    have hc : c ≠ t := fun h => ht (by simp [h])
    rw [Link.readUntilFrom, calm_timedRead]
    dsimp only
    rw [if_neg hc, ih (by rw [List.length_cons] at hn; omega) (fun h => ht (by simp [h]))]

theorem calm_readStringUntil {now : ℕ} {line : List UInt8} {t : UInt8} (rx : List UInt8)
    (gaps : List ℕ) (rest : List UInt8) (ht : t ∉ line) :
    (calm now (line ++ t :: rx) (List.replicate (line.length + 1) 0 ++ gaps)
      rest).readStringUntil t
      = (line, calm now rx gaps rest) := by
  refine calm_readUntilFrom rx gaps rest ?_ ht
  rw [calm_pending, List.length_append, List.length_append]
  omega

theorem calm_readsLines {lines : List WString} (now : ℕ) (rx : List UInt8) (gaps : List ℕ)
    (rest : List UInt8) (hlines : ∀ x ∈ lines, 0x0D ∉ x) :
    ReadsLines lines
      (calm now (sendLines lines ++ rx)
        (List.replicate (sendLines lines).length 0 ++ gaps) rest)
      (calm now rx gaps rest) := by
  induction lines with
  | nil => exact ReadsLines.nil _
  | cons line lines ih =>
    refine ReadsLines.cons ?_ (ih (fun x hx => hlines x (by simp [hx])))
    have hsend : sendLines (line :: lines) ++ rx =
        line ++ 0x0D :: ([] ++ 0x0A :: (sendLines lines ++ rx)) := by
      simp [sendLines]
    have hlooks : List.replicate (sendLines (line :: lines)).length 0 ++ gaps
        = List.replicate (line.length + 1) 0 ++
        (List.replicate (([] : List UInt8).length + 1) 0 ++
          (List.replicate (sendLines lines).length 0 ++ gaps)) := by
      have hlen : (sendLines (line :: lines)).length
          = line.length + 1 + (([] : List UInt8).length + 1) + (sendLines lines).length := by
        rw [sendLines, List.flatMap_cons, List.length_append, List.length_append]
        rfl
      rw [← List.append_assoc, ← List.append_assoc, List.replicate_append_replicate,
        List.replicate_append_replicate, hlen]
    rw [hsend, hlooks, readLine, calm_readStringUntil _ _ _ (hlines line (by simp))]
    dsimp only
    rw [calm_readStringUntil _ _ _ (by simp)]

/-- The wait goes on for a hundred looks, and no longer. -/
theorem calm_waitAvailable (tries now : ℕ) (rx rest : List UInt8) :
    ∃ now' k, waitAvailable tries (calm now rx (List.replicate (tries + 2) 1) rest)
      = calm now' rx (List.replicate (k + 1) 1) rest := by
  induction tries generalizing now with
  | zero => exact ⟨now + 1, 0, calm_poll now rx 1 [1] rest⟩
  | succ tries ih =>
    have hpoll : (calm now rx (List.replicate (tries + 1 + 2) 1) rest).available.2
        = calm (now + 1) rx (List.replicate (tries + 2) 1) rest := calm_poll now rx 1 _ rest
    unfold waitAvailable
    rw [hpoll]
    split
    · exact ih (now + 1)
    · exact ⟨now + 1, tries + 1, rfl⟩

/-- **The body is cut off** where nothing has arrived. -/
theorem calm_readPlain (now : ℕ) (rx rest : List UInt8) :
    (readPlain (calm now rx (List.replicate 102 1) rest)).1 = cstr rx := by
  obtain ⟨now', k, hk⟩ := calm_waitAvailable 100 now rx rest
  rw [readPlain_eq (by decide : 0 < 1000), hk, List.replicate_succ, calm_poll]
  rfl

/-! ## Parsed alike -/

/-- **What a request leaves in the server**: method, URI, arguments, collected
headers and host. -/
def view (s : ESP31BWebServer) :
    HTTPMethod × WString × List RequestArgument × List RequestArgument × WString :=
  (s.currentMethod, s.currentUri, s.currentArgs, s.currentHeaders, s.hostHeader)

namespace HttpRequest

variable {q : HttpRequest} (stack : StackMemory) (s : ESP31BWebServer)

/-- **The request arrives**, in some segments, and no wait for one of its
bytes reaches the time-out. -/
def Delivers (q : HttpRequest) (l : Link) : Prop := l.pending = q.bytes ∧ l.Prompt

/-- **The request is parsed alike** in whichever segments it arrives. -/
def SegmentationFree (q : HttpRequest) (stack : StackMemory) (s : ESP31BWebServer) : Prop :=
  ∃ v, ∀ l, q.Delivers l →
    ∃ ok s' l', (parseRequest stack s l).Yields (ok, s', l') ∧ s'.view = v

/-- What is left in the server when this much of the body was seen. -/
def seen (q : HttpRequest) (s : ESP31BWebServer) (m : ℕ) : ESP31BWebServer :=
  { q.scanned s with currentArgs := q.argumentsWith (cstr (q.body.take m)) }

/-- However the request arrives, some start of its body is seen. -/
theorem WellFormed.seen_of_delivers (hq : q.WellFormed) {l : Link} (hl : q.Delivers l) :
    ∃ m l', (parseRequest stack s l).Yields (true, q.seen s m, l') := by
  obtain ⟨l', hreads, htook⟩ := readsLines_of_prompt hl.2 hl.1 hq.lines_cr
  obtain ⟨l'', hyields⟩ := hq.parseRequest_yields stack s hreads
  obtain ⟨m, hm⟩ := readPlain_take (htook.prompt hl.2).1
  rw [hm, htook.pending, hl.1, bytes, List.drop_left] at hyields
  exact ⟨m, l'', hyields⟩

/-- **Every start of the body can be what is seen.** -/
theorem WellFormed.exists_delivers (hq : q.WellFormed) (m : ℕ) :
    ∃ l l', q.Delivers l ∧ (parseRequest stack s l).Yields (true, q.seen s m, l') := by
  have hreads := calm_readsLines 0 (q.body.take m) (List.replicate 102 1)
    (q.body.drop m) hq.lines_cr
  obtain ⟨l'', hyields⟩ := hq.parseRequest_yields stack s hreads
  rw [calm_readPlain] at hyields
  refine ⟨_, l'', ⟨?_, calm_prompt _ _ _ ?_⟩, hyields⟩
  · rw [calm_pending, List.append_assoc, List.take_append_drop, bytes]
  · rw [List.sum_append_nat, List.sum_replicate_nat, List.sum_replicate_nat]
    omega

theorem search_plain (q : HttpRequest) : 0 ∉ q.search ∧ q.search.length ≤ q.target.length := by
  unfold search splitSearch
  dsimp only
  split
  · rw [WString.substring_to_end]
    refine ⟨zero_not_mem_cstr _, le_trans (length_cstr_le _) ?_⟩
    rw [List.length_drop]
    omega
  · simp

/-- **The arguments of the body come behind those of the query.** -/
theorem WellFormed.argumentsWith_eq (hq : q.WellFormed) (hbody : q.hasBody = true) (m : ℕ) :
    q.argumentsWith (cstr (q.body.take m))
      = (arguments q.search ++ arguments (plainArguments (cstr (q.body.take m)))).map
        RequestArgument.moved := by
  obtain ⟨h0, hlen⟩ := q.search_plain
  have hplain : 0 ∉ plainArguments (cstr (q.body.take m)) ∧
      (plainArguments (cstr (q.body.take m))).length ≤ q.body.length + 6 := by
    have hb : (cstr (q.body.take m)).length ≤ q.body.length :=
      le_trans (length_cstr_le _) (List.length_take_le' _ _)
    have hb0 := zero_not_mem_cstr (q.body.take m)
    have hhead : (0 : UInt8) ∉ ascii "plain=" ∧ (ascii "plain=").length = 6 := by decide
    unfold plainArguments
    split
    · refine ⟨fun h => ?_, by rw [List.length_append]; omega⟩
      rcases List.mem_append.mp h with h | h
      · exact hhead.1 h
      · exact hb0 h
    · exact ⟨hb0, by omega⟩
  have hshort : q.target.length + q.body.length + 16 < 2 ^ 31 := by
    have hline := hq.length_requestLine
    omega
  rw [argumentsWith, if_pos hbody]
  by_cases hnil : q.search = []
  · rw [hnil, if_neg (by decide), List.nil_append, parseArguments_eq hplain.1 (by omega)]
    rfl
  · have hne : WString.equalsC q.search [] = false := by
      rw [WString.equalsC, cstr_of_not_mem h0]
      simpa using hnil
    rw [hne, if_pos (by decide), List.append_assoc, List.singleton_append,
      parseArguments_eq ?_ ?_, arguments_append]
    · simp only [List.mem_append, List.mem_cons, not_or]
      exact ⟨h0, by decide, hplain.1⟩
    · rw [List.length_append, List.length_cons]
      omega

/-- What is seen of the body shows in the arguments only. -/
theorem view_seen (q : HttpRequest) (s : ESP31BWebServer) (m k : ℕ) :
    (q.seen s m).view = (q.seen s k).view ↔
      q.argumentsWith (cstr (q.body.take m)) = q.argumentsWith (cstr (q.body.take k)) := by
  simp [seen, view]

/-- **Parsed alike means that every start of the body adds what none adds.** -/
theorem WellFormed.segmentationFree_iff_starts (hq : q.WellFormed) :
    q.SegmentationFree stack s ↔ (q.hasBody = true →
      ∀ m, arguments (plainArguments (cstr (q.body.take m))) = [⟨ascii "plain", []⟩]) := by
  have hnone : arguments (plainArguments (cstr (q.body.take 0))) = [⟨ascii "plain", []⟩] := by
    rw [List.take_zero]
    decide
  constructor
  · rintro ⟨v, hv⟩ hbody m
    have hall : ∀ k, (q.seen s k).view = v := by
      intro k
      obtain ⟨l, l', hl, hyields⟩ := hq.exists_delivers stack s k
      obtain ⟨ok, s', l'', hyields', hview⟩ := hv l hl
      rw [← hview, (Prod.mk.inj (Prod.mk.inj (hyields.unique hyields')).2).1]
    have heq := (q.view_seen s m 0).mp ((hall m).trans (hall 0).symm)
    rw [hq.argumentsWith_eq hbody, hq.argumentsWith_eq hbody, hnone, List.map_append,
      List.map_append] at heq
    exact (map_moved_eq_singleton (by decide) (by decide)).mp (List.append_cancel_left heq)
  · intro h
    refine ⟨(q.seen s 0).view, fun l hl => ?_⟩
    obtain ⟨m, l', hyields⟩ := hq.seen_of_delivers stack s hl
    refine ⟨true, q.seen s m, l', hyields, (q.view_seen s m 0).mpr ?_⟩
    by_cases hbody : q.hasBody = true
    · rw [hq.argumentsWith_eq hbody, hq.argumentsWith_eq hbody, h hbody m, hnone]
    · rw [argumentsWith, argumentsWith, if_neg hbody, if_neg hbody]

end HttpRequest

/-! ## Bodies that add nothing -/

/-- **A body that adds what none adds**, up to its first NUL: it is empty, or
it begins with an ampersand and the only piece with an `=`, if there is one,
is `plain=`. -/
def Neutral (b : WString) : Prop :=
  b = [] ∨ b.head? = some 0x26 ∧ (valued b = [] ∨ valued b = [ascii "plain="])

/-- A first byte that is no ampersand is seen. -/
theorem head_of_neutral {c : UInt8}
    (h : arguments (plainArguments [c]) = [⟨ascii "plain", []⟩]) :
    c = 0x26 := by
  by_contra hamp
  by_cases heq : c = 0x3D
  · rw [heq] at h
    exact absurd h (by decide)
  · have hplain : plainArguments [c] = ascii "plain" ++ 0x3D :: [c] := by
      rw [plainArguments, if_pos (Or.inr (Or.inr (by simpa using Ne.symm heq)))]
      rfl
    have hpiece : (0x26 : UInt8) ∉ ascii "plain" ++ 0x3D :: [c] := by
      intro hmem
      rcases List.mem_append.mp hmem with hmem | hmem
      · exact absurd hmem (by decide)
      · obtain rfl : 0x26 = c := by simpa using hmem
        exact hamp rfl
    rw [hplain, arguments_piece hpiece, argumentOf_split (by decide)] at h
    have hnil : urlDecode [c] = [] := by simpa using h
    cases (urlDecode_eq_nil_iff _).mp hnil

/-- A start of a neutral body has no other piece with an `=`. -/
theorem valued_take {b : WString} (h : valued b = [ascii "plain="]) (m : ℕ) :
    valued (b.take m) = [] ∨ valued (b.take m) = [ascii "plain="] := by
  obtain ⟨init, last, last', more, hx, hxy, hlast⟩ := splitOn_append (b.take m) (b.drop m)
  rw [List.take_append_drop] at hxy
  have hall : init.filter (0x3D ∈ ·) ++ (last' :: more).filter (0x3D ∈ ·) =
      [ascii "plain="] := by
    rw [← List.filter_append, ← hxy]
    exact h
  have hstart : valued (b.take m) = init.filter (0x3D ∈ ·) ++ [last].filter (0x3D ∈ ·) := by
    rw [valued, hx, List.filter_append]
  rw [hstart]
  by_cases hmem : 0x3D ∈ last
  · -- the last piece is the one, and it is all there
    have hmem' : 0x3D ∈ last' := hlast.subset hmem
    rw [List.filter_cons_of_pos (by simpa using hmem'), List.append_eq_singleton_iff] at hall
    rcases hall with ⟨hinit, hrest⟩ | ⟨-, hrest⟩
    · obtain ⟨hpiece, -⟩ := List.cons.inj hrest
      rw [hpiece] at hlast
      have hlen : 6 ≤ last.length := by
        by_contra hlt
        rw [List.prefix_iff_eq_take.mp hlast] at hmem
        exact absurd hmem
          ((by decide : ∀ n < 6, (0x3D : UInt8) ∉ (ascii "plain=").take n) _ (by omega))
      have hfull : last = ascii "plain=" := hlast.eq_of_length_le hlen
      rw [hinit, hfull]
      exact Or.inr (by decide)
    · cases hrest
  · rw [List.filter_cons_of_neg (by simpa using hmem), List.filter_nil, List.append_nil]
    rw [List.append_eq_singleton_iff] at hall
    rcases hall with ⟨hinit, -⟩ | ⟨hinit, -⟩
    · exact Or.inl hinit
    · exact Or.inr hinit

/-- No piece with an `=`: the body is the value of `plain`. -/
theorem arguments_plain {t : WString} (ht : 0x3D ∉ t) :
    arguments (plainArguments (0x26 :: t)) = [⟨ascii "plain", []⟩] := by
  have hplain : plainArguments (0x26 :: t) = ascii "plain=" ++ 0x26 :: t := by
    rw [plainArguments, if_pos (Or.inr (Or.inr (by simp [ht])))]
  rw [hplain, arguments_cons (by decide), arguments_valued t, (valued_eq_nil_iff t).mpr ht]
  decide

/-- With one, the body is taken for arguments. -/
theorem plainArguments_valued {t : WString} (ht : 0x3D ∈ t) :
    plainArguments (0x26 :: t) = 0x26 :: t := by
  rw [plainArguments, if_neg]
  simp [ht]

/-- **Neutral bodies are those of which every start adds nothing.** -/
theorem neutral_iff (b : WString) :
    (∀ m, arguments (plainArguments (b.take m)) = [⟨ascii "plain", []⟩]) ↔ Neutral b := by
  cases b with
  | nil => exact iff_of_true (fun m => by rw [List.take_nil]; decide) (Or.inl rfl)
  | cons c t =>
    constructor
    · intro h
      obtain rfl : c = 0x26 := head_of_neutral (h 1)
      refine Or.inr ⟨rfl, ?_⟩
      by_cases ht : 0x3D ∈ t
      · right
        have hall := h (0x26 :: t).length
        rw [List.take_length, plainArguments_valued ht] at hall
        obtain ⟨p, hp, harg⟩ := valued_of_arguments hall
        rw [hp, piece_of_argumentOf harg]
        decide
      · exact Or.inl ((valued_eq_nil_iff _).mpr (by simp [ht]))
    · rintro (hnil | ⟨hhead, hvalued⟩) m
      · cases hnil
      · obtain rfl : c = 0x26 := by simpa using hhead
        cases m with
        | zero =>
          rw [List.take_zero]
          decide
        | succ m =>
          rw [List.take_succ_cons]
          by_cases ht : 0x3D ∈ t.take m
          · have hb : valued (0x26 :: t) = [ascii "plain="] := by
              rcases hvalued with hnil | hb
              · exact absurd (List.mem_cons_of_mem _ (List.mem_of_mem_take ht))
                  ((valued_eq_nil_iff _).mp hnil)
              · exact hb
            have hstart := valued_take hb (m + 1)
            rw [List.take_succ_cons, valued_eq_nil_iff] at hstart
            rcases hstart with hnot | hstart
            · exact absurd (List.mem_cons_of_mem _ ht) hnot
            · rw [plainArguments_valued ht, arguments_valued, hstart]
              decide
          · exact arguments_plain ht

namespace HttpRequest

/-- **Which requests are parsed alike.** The segments a well-formed request
arrives in make no difference to its method, URI, arguments, collected
headers and host exactly if its method has no body or its body is neutral. -/
theorem WellFormed.segmentationFree_iff {q : HttpRequest} (hq : q.WellFormed)
    (stack : StackMemory)
    (s : ESP31BWebServer) :
    q.SegmentationFree stack s ↔ q.hasBody = false ∨ Neutral (cstr q.body) := by
  rw [hq.segmentationFree_iff_starts, ← neutral_iff]
  simp only [cstr_take]
  cases q.hasBody with
  | false => simp
  | true => simp

/-- A page is asked for. -/
def getPage : HttpRequest where
  method := ascii "GET"
  target := ascii "/?a=1"
  version := ascii "HTTP/1.1"
  fields := [⟨ascii "Host", ascii " esp"⟩]
  body := []

theorem getPage_segmentationFree :
    getPage.WellFormed ∧ getPage.SegmentationFree zeroStack (init []).begin := by
  have hq : getPage.WellFormed := by constructor <;> decide
  exact ⟨hq, (hq.segmentationFree_iff zeroStack (init []).begin).mpr (Or.inl (by decide))⟩

/-- A field is sent, `a=1`. -/
def postField : HttpRequest where
  method := ascii "POST"
  target := ascii "/"
  version := ascii "HTTP/1.1"
  fields := [⟨ascii "Content-Length", ascii " 3"⟩]
  body := ascii "a=1"

/-- Seen as a whole its body is the argument `a`; cut off in front of it, an
empty argument `plain`. -/
theorem postField_not_segmentationFree :
    postField.WellFormed ∧ ¬ postField.SegmentationFree zeroStack (init []).begin := by
  have hq : postField.WellFormed := by constructor <;> decide
  refine ⟨hq, fun hfree => ?_⟩
  have hwhole :=
    (hq.segmentationFree_iff_starts zeroStack (init []).begin).mp hfree (by decide) 3
  exact absurd hwhole (by decide)

end HttpRequest

end ESP31BWebServer
