import Esp31b.Collected
import Esp31b.HttpRequest

/-!
# What the lines of a response leave behind

`handleHeaderResponse` looks at one line after the other. A status line sets
the return code; any other line with a name, which may be empty, sets at most
one thing for each name it knows, and one of the collected headers.

So the last line of a name is the one that counts, and all that comes of a
list of lines can be said at once (`HTTPClient.foldl_handleLine`). Which lines
there are does not depend on what is made of them: `readHead` is the loop
without the rest.
-/

namespace HTTPClient

/-! ## Lines and fields -/

/-- What names are compared by. -/
def lower (name : WString) : WString := name.map tolower

/-- The code in a status line. -/
def headerStatus (headerLine : WString) : Option ℤ :=
  if headerLine.startsWith (ascii "HTTP/1.") then
    some (WString.toInt (headerLine.substring 9 (WString.pos (headerLine.indexOf 0x20 9))))
  else none

/-- The name and the value in any other line. Without a colon all of the
line is the name; a colon in front makes it nothing. -/
def headerField (headerLine : WString) : Option RequestArgument :=
  if headerLine.startsWith (ascii "HTTP/1.") then none
  else if headerLine.indexOf 0x3A 0 = 0 then none
  else some ⟨headerLine.substring 0 (WString.pos (headerLine.indexOf 0x3A 0)),
    headerLine.substring (WString.pos (headerLine.indexOf 0x3A 0 + 2)) headerLine.length⟩

/-- The fields of a header. -/
def headerFields (lines : List WString) : List RequestArgument := lines.filterMap headerField

/-- The last value of a name in a header. -/
def fieldValue (lines : List WString) (name : String) : Option WString :=
  Collected.lastValue lower (headerFields lines) (ascii name)

/-- **What lines leave behind.** -/
def headResponse (r : Response) (lines : List WString) : Response where
  returnCode := (lines.filterMap headerStatus).getLast?.getD r.returnCode
  size := ((fieldValue lines "Content-Length").map WString.toInt).getD r.size
  canReuse := ((fieldValue lines "Connection").map
    (fun value => value.equalsIgnoreCase (ascii "keep-alive"))).getD r.canReuse
  transferEncoding := (fieldValue lines "Transfer-Encoding").getD r.transferEncoding
  currentHeaders := Collected.collect lower (headerFields lines) r.currentHeaders

variable {r : Response} {f : RequestArgument} {line : WString}

theorem zero_not_mem_headerField (hf : headerField line = some f) : 0 ∉ f.key := by
  unfold headerField at hf
  split_ifs at hf
  obtain rfl := Option.some.inj hf
  exact WString.zero_not_mem_substring line 0 (WString.pos (line.indexOf 0x3A 0))

/-- Names are compared without case. -/
theorem equalsIgnoreCase_lower {s t : WString} (hs : 0 ∉ s) :
    s.equalsIgnoreCase t = decide (lower s = lower t) := by
  rw [Bool.eq_iff_iff, decide_eq_true_iff]
  exact WString.equalsIgnoreCase_iff hs

/-- With keys that are C strings it is the first that is equal but for case. -/
theorem setHeader_eq {as : List RequestArgument} (has : ∀ a ∈ as, 0 ∉ a.key)
    (name value : WString) :
    setHeader name value as = Collected.setFirst lower name value as := by
  induction as with
  | nil => rfl
  | cons a as ih =>
    rw [List.forall_mem_cons] at has
    unfold setHeader Collected.setFirst
    rw [equalsIgnoreCase_lower has.1, ih has.2]
    simp only [decide_eq_true_eq]

/-- What is made of a line with a field. -/
theorem handleLine_some (hf : headerField line = some f)
    (hkeys : ∀ a ∈ r.currentHeaders, 0 ∉ a.key) :
    handleLine r line =
      { returnCode := r.returnCode
        size := if lower f.key = lower (ascii "Content-Length") then WString.toInt f.value
          else r.size
        canReuse := if lower f.key = lower (ascii "Connection")
          then f.value.equalsIgnoreCase (ascii "keep-alive") else r.canReuse
        transferEncoding := if lower f.key = lower (ascii "Transfer-Encoding") then f.value
          else r.transferEncoding
        currentHeaders := Collected.setFirst lower f.key f.value r.currentHeaders } := by
  have h0 := zero_not_mem_headerField hf
  unfold headerField at hf
  split_ifs at hf with hstatus hindex
  obtain rfl := Option.some.inj hf
  unfold handleLine
  rw [if_neg hstatus]
  dsimp only at h0 ⊢
  rw [if_neg hindex, setHeader_eq hkeys]
  simp only [equalsIgnoreCase_lower h0, decide_eq_true_eq]

/-- What is made of any other line. -/
theorem handleLine_none (hf : headerField line = none) :
    handleLine r line = { r with returnCode := (headerStatus line).getD r.returnCode } := by
  unfold headerField at hf
  unfold handleLine headerStatus
  split_ifs at hf with hstatus hindex
  · rw [if_pos hstatus, if_pos hstatus]
    rfl
  · rw [if_neg hstatus, if_neg hstatus]
    dsimp only
    rw [if_pos hindex]
    rfl

/-- A field is not in a status line. -/
theorem headerStatus_of_some (hf : headerField line = some f) : headerStatus line = none := by
  unfold headerField at hf
  unfold headerStatus
  split_ifs at hf with hstatus hindex
  exact if_neg hstatus

/-- The last of a list with one more in front. -/
theorem getLast?_cons_getD {α : Type} (a b : α) (as : List α) :
    (a :: as).getLast?.getD b = as.getLast?.getD a := by
  rw [List.getLast?_cons]
  rfl

/-- One line more in front. -/
theorem headResponse_cons (hkeys : ∀ a ∈ r.currentHeaders, 0 ∉ a.key) (lines : List WString) :
    headResponse r (line :: lines) = headResponse (handleLine r line) lines := by
  cases hf : headerField line with
  | none =>
    have hfields : headerFields (line :: lines) = headerFields lines :=
      List.filterMap_cons_none hf
    rw [handleLine_none hf]
    unfold headResponse fieldValue
    rw [hfields]
    cases hstatus : headerStatus line with
    | none => rw [List.filterMap_cons_none hstatus]; rfl
    | some code => rw [List.filterMap_cons_some hstatus, getLast?_cons_getD]; rfl
  | some f =>
    have hfields : headerFields (line :: lines) = f :: headerFields lines :=
      List.filterMap_cons_some hf
    -- a value is that of a later line, or of this one, or what it was
    have hvalue : ∀ {α : Type} (g : WString → α) (old : α) (name : String),
        ((fieldValue (line :: lines) name).map g).getD old =
          ((fieldValue lines name).map g).getD
            (if lower f.key = lower (ascii name) then g f.value else old) := by
      intro α g old name
      unfold fieldValue
      rw [hfields, Collected.lastValue_cons]
      cases Collected.lastValue lower (headerFields lines) (ascii name) with
      | some value => rfl
      | none => split_ifs <;> rfl
    have hcode : (fieldValue (line :: lines) "Transfer-Encoding").getD r.transferEncoding =
        (fieldValue lines "Transfer-Encoding").getD
          (if lower f.key = lower (ascii "Transfer-Encoding") then f.value
            else r.transferEncoding) := by
      simpa using hvalue id r.transferEncoding "Transfer-Encoding"
    rw [handleLine_some hf hkeys]
    unfold headResponse
    rw [hvalue WString.toInt, hvalue (fun value => value.equalsIgnoreCase (ascii "keep-alive")),
      hfields,
      List.filterMap_cons_none (headerStatus_of_some hf)]
    exact congrArg (fun te => Response.mk _ _ _ te _) hcode

theorem handleLine_keys (hkeys : ∀ a ∈ r.currentHeaders, 0 ∉ a.key) :
    (handleLine r line).currentHeaders.map RequestArgument.key =
    r.currentHeaders.map RequestArgument.key := by
  cases hf : headerField line with
  | none => rw [handleLine_none hf]
  | some f => rw [handleLine_some hf hkeys]; exact Collected.setFirst_keys _ _ _

/-- **All lines in turn.** -/
theorem foldl_handleLine {lines : List WString} (hkeys : ∀ a ∈ r.currentHeaders, 0 ∉ a.key) :
    lines.foldl handleLine r = headResponse r lines := by
  induction lines generalizing r with
  | nil =>
    unfold headResponse fieldValue
    rfl
  | cons line lines ih =>
    rw [List.foldl_cons, headResponse_cons hkeys, ih]
    have hmem : ∀ as : List RequestArgument, (∀ a ∈ as, 0 ∉ a.key) ↔
        ∀ k ∈ as.map RequestArgument.key, 0 ∉ k := by
      simp
    rw [hmem, handleLine_keys hkeys, ← hmem]
    exact hkeys

/-! ## Reading the lines -/

/-- A turn of `headerTurn` that keeps the lines, and does nothing with
them. -/
def lineTurn (s : List WString × Link) : (List WString × Link) ⊕ (Bool × List WString × Link) :=
  let (lines, link) := s
  let (up, link) := linkConnected link
  if up then
    let (len, link) := link.available
    if 0 < len then
      let (headerLine, link) := link.readStringUntil 0x0A
      let headerLine := WString.trim headerLine
      if headerLine.equalsC [] then .inr (true, lines ++ [headerLine], link)
      else .inl (lines ++ [headerLine], link)
    else .inl (lines, link)
  else .inr (false, lines, link)

/-- **The lines of a header**, and whether it came to its end. -/
def readHead (link : Link) : Fueled (Bool × List WString × Link) :=
  Fueled.loop (fun s => pure (lineTurn s)) ([], link)

theorem steady_readHead (link : Link) : (readHead link).Steady :=
  Fueled.steady_loop (fun _ => Fueled.steady_pure _) _

/-- The turn of `handleHeaderResponse` is this one, with the lines handled. -/
theorem headerTurn_eq (r : Response) (lines : List WString) (link : Link) :
    headerTurn (lines.foldl handleLine r, link) = (lineTurn (lines, link)).map
      (fun s => (s.1.foldl handleLine r, s.2))
      (fun s => (s.1, s.2.1.foldl handleLine r, s.2.2)) := by
  unfold headerTurn lineTurn
  dsimp only
  split_ifs <;> simp [List.foldl_append]

/-- **The loop of `handleHeaderResponse`** reads these lines, and handles them
in turn. -/
theorem headerLoop_eq (r : Response) (link : Link) (n : ℕ) :
    Fueled.loop (fun s => pure (headerTurn s)) (r, link) n =
      (readHead link n).map (fun s => (s.1, s.2.1.foldl handleLine r, s.2.2)) := by
  have hloop : Fueled.Rel
      (fun (s : Bool × List WString × Link) (t : Bool × Response × Link) =>
        t = (s.1, s.2.1.foldl handleLine r, s.2.2))
      (readHead link) (Fueled.loop (fun s => pure (headerTurn s)) (r, link)) := by
    refine Fueled.rel_loop (S := fun s t => t = (s.1.foldl handleLine r, s.2)) ?_ rfl
    rintro ⟨lines, l⟩ _ rfl
    refine Fueled.rel_pure ?_
    rw [headerTurn_eq]
    cases lineTurn (lines, l) with
    | inl s => exact .inl rfl
    | inr s => exact .inr rfl
  have heq := hloop.map_eq (g := id) (fun _ _ h => h.symm) n
  rw [Option.map_id] at heq
  exact heq.symm

end HTTPClient
