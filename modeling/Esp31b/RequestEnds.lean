import Esp31b.FormArguments

/-!
# Does the parsing of a request end?

A client sends some bytes and closes the connection. Then every timed read
behind the last byte gives an empty line, and the question is which loops of
`_parseRequest` are left on an empty line. Those over the header fields are.
The automaton for files asks `connected` and is left too. The loop over the
lines of a value and the one over the parts are not: they look only for a
delimiter. And a form with too many fields is written behind the array for them,
which leaves no result to speak of. `RequestEnds` says for which bytes none of
this happens, and `parseRequest_ends_iff` that it is exact.
-/

namespace ESP31BWebServer

variable {l : Link} {closed : Bool} {q : List UInt8}

/-! ## The header -/

/-- The lines of a header and what is behind it; there are at most as many as
bytes. -/
def cutHeader : ℕ → List UInt8 → List WString × List UInt8
  | 0, q => ([], q)
  | n + 1, q =>
    if (cutLine q).1.equalsC [] = true ∨ (cutLine q).1.indexOf 0x3A 0 = -1 then
      ([], (cutLine q).2)
    else ((cutLine q).1 :: (cutHeader n (cutLine q).2).1, (cutHeader n (cutLine q).2).2)

/-- **The loops over the fields end**, and whatever they do with a line they
see the same lines and leave the same. -/
theorem headerLoop_ends_all {n : ℕ} (hn : q.length < n) (hl : l.Brings closed q) :
    ∃ l', l'.Brings closed (cutHeader n q).2 ∧ ∀ {σ : Type} (handle : σ → WString → σ) (st : σ),
      (Fueled.loop (fun t => pure (headerTurn handle t)) (st, l)).Yields
        ((cutHeader n q).1.foldl handle st, l') := by
  induction n generalizing q l with
  | zero => exact absurd hn (Nat.not_lt_zero _)
  | succ n ih =>
    obtain ⟨l₁, hread, hl₁⟩ := readLine_brings hl
    unfold cutHeader
    by_cases hstop : (cutLine q).1.equalsC [] = true ∨ (cutLine q).1.indexOf 0x3A 0 = -1
    · rw [if_pos hstop]
      refine ⟨l₁, hl₁, fun handle st => Fueled.yields_loop_leave ?_⟩
      rw [headerTurn, hread]
      dsimp only
      rcases hstop with hempty | hcolon
      · rw [if_pos hempty]
        exact Fueled.yields_pure _
      · rw [if_pos hcolon, ite_self]
        exact Fueled.yields_pure _
    · rw [if_neg hstop]
      obtain ⟨hempty, hcolon⟩ := not_or.mp hstop
      -- a line that is not empty takes a byte
      have hq : q ≠ [] := by
        rintro rfl
        exact hempty rfl
      have hlt := length_cutLine_lt hq
      obtain ⟨l', hl', hloop⟩ := ih (by omega) hl₁
      refine ⟨l', hl', fun handle st => Fueled.yields_loop_again ?_
        (hloop handle (handle st (cutLine q).1))⟩
      rw [headerTurn, hread]
      dsimp only
      rw [if_neg hempty, if_neg hcolon]
      exact Fueled.yields_pure _

theorem headerLoop_ends {σ : Type} (handle : σ → WString → σ) {n : ℕ}
    (hn : q.length < n) (st : σ)
    (hl : l.Brings closed q) :
    ∃ l', (Fueled.loop (fun t => pure (headerTurn handle t)) (st, l)).Yields
        ((cutHeader n q).1.foldl handle st, l') ∧ l'.Brings closed (cutHeader n q).2 := by
  obtain ⟨l', hl', hloop⟩ := headerLoop_ends_all hn hl
  exact ⟨l', hloop handle st, hl'⟩

/-- The boundary that a field declares, if it declares anything. -/
def declared (boundary : Option WString) (req : WString) : Option WString :=
  let headerDiv := req.indexOf 0x3A 0
  let headerValue := WString.trim (req.substring (WString.pos (headerDiv + 1)) req.length)
  if (req.substring 0 (WString.pos headerDiv)).equalsC (ascii "Content-Type") then
    if headerValue.startsWith (ascii "text/plain") then none
    else if headerValue.startsWith (ascii "multipart/form-data") then
      some (headerValue.substring
        (WString.pos (headerValue.indexOf 0x3D 0 + 1)) headerValue.length)
    else boundary
  else boundary

/-- The boundary of the form that a header has announced. -/
def HeaderScan.boundary (h : HeaderScan) : Option WString :=
  if h.isForm then some h.boundaryStr else none

theorem bodyHeader_boundary (h : HeaderScan) (req : WString) :
    (bodyHeader h req).boundary = declared h.boundary req := by
  unfold bodyHeader declared
  dsimp only
  split_ifs <;> rfl

theorem foldl_boundary (lines : List WString) (h : HeaderScan) :
    (lines.foldl bodyHeader h).boundary = lines.foldl declared h.boundary := by
  induction lines generalizing h with
  | nil => rfl
  | cons line lines ih => rw [List.foldl_cons, List.foldl_cons, ih, bodyHeader_boundary]

/-! ## The form -/

/-- **The form ends**: with a field closed by the closing delimiter, with a
file that two hyphens and the end of a line follow, or with one that is cut
off; and there is room for its fields. -/
def FormEnds (closed : Bool) (b : WString) (stack : StackMemory) (q : List UInt8) : Prop :=
  ∃ fields e, FormBody closed b stack q fields e ∧ e ≠ .endless ∧ fields.length ≤ 32

section
variable {b : WString} {stack : StackMemory} {s : ESP31BWebServer}

theorem parseForm_yields (hl : l.Brings closed q)
    (h : ∀ body ∈ formStart b q, FormEnds closed b stack body) :
    ∃ r, (parseForm b stack s l).Yields r := by
  unfold parseForm
  cases hstart : formStart b q with
  | none =>
    obtain ⟨l', heq⟩ := parseFormArray_of_no_start stack s hl hstart
    rw [heq]
    exact ⟨_, (Fueled.yields_pure _).bind (Fueled.yields_pure _)⟩
  | some body =>
    obtain ⟨fields, e, hbody, he, hroom⟩ := h body hstart
    cases e with
    | complete =>
      obtain ⟨s', l', hrun, -⟩ := hbody.parseFormArray_complete (s := s) hl hstart hroom
      exact ⟨_, hrun.bind (Fueled.yields_pure _)⟩
    | aborted =>
      obtain ⟨s', l', hrun⟩ := hbody.parseFormArray_aborted (s := s) hl hstart hroom
      exact ⟨_, hrun.bind (Fueled.yields_pure _)⟩
    | endless => exact absurd rfl he

end

/-! ## The request -/

/-- The method of a request line, if it is one. -/
def requestMethod (req : WString) : Option HTTPMethod :=
  let addrStart := req.indexOf 0x20 0
  let addrEnd := req.indexOf 0x20 (WString.pos (addrStart + 1))
  if addrStart = -1 ∨ addrEnd = -1 then none
  else some (methodOf (req.substring 0 (WString.pos addrStart)))

/-- The header of a request and what is behind it. -/
def requestHeader (q : List UInt8) : List WString × List UInt8 :=
  cutHeader ((cutLine q).2.length + 1) (cutLine q).2

/-- **The parsing of these bytes ends**: the method is none with a body, or
the header announces no form, or the body does not start with the delimiter,
or the form that is there ends. -/
def RequestEnds (stack : StackMemory) (q : List UInt8) : Prop :=
  (∀ method ∈ requestMethod (cutLine q).1, readsBody method = false) ∨
    ∀ b ∈ (requestHeader q).1.foldl declared none, ∀ body ∈ formStart b (requestHeader q).2,
      FormEnds true b stack body

theorem parsePlain_yields (s : ESP31BWebServer) (searchStr : WString) (hl : l.Brings closed q) :
    ∃ r, (parsePlain s searchStr l).Yields r := by
  obtain ⟨l', hloop, -⟩ := headerLoop_ends plainHeader (Nat.lt_succ_self q.length) s hl
  exact ⟨_, hloop.bind (Fueled.yields_pure _)⟩

theorem parseBody_yields (stack : StackMemory) (s : ESP31BWebServer) (searchStr : WString)
    (hl : l.Brings closed q)
    (h : ∀ b ∈ (cutHeader (q.length + 1) q).1.foldl declared none,
      ∀ body ∈ formStart b (cutHeader (q.length + 1) q).2, FormEnds closed b stack body) :
    ∃ r, (parseBody stack s searchStr l).Yields r := by
  obtain ⟨l', hloop, hl'⟩ := headerLoop_ends bodyHeader (Nat.lt_succ_self q.length)
    ⟨s, [], false⟩ hl
  have hdeclared := foldl_boundary (cutHeader (q.length + 1) q).1 ⟨s, [], false⟩
  unfold parseBody parseBodyOn
  cases hform : ((cutHeader (q.length + 1) q).1.foldl bodyHeader ⟨s, [], false⟩).isForm with
  | false =>
    refine hloop.exists_bind ?_
    dsimp only
    rw [hform]
    exact ⟨_, Fueled.yields_pure _⟩
  | true =>
    rw [HeaderScan.boundary, hform, if_pos rfl] at hdeclared
    refine hloop.exists_bind ?_
    dsimp only
    rw [hform]
    obtain ⟨r, hr⟩ := parseForm_yields hl' (h _ hdeclared.symm)
    exact ⟨_, hr.bind (Fueled.yields_pure _)⟩

/-- `parseRequest` up to the header. -/
theorem parseRequest_eq (stack : StackMemory) (s : ESP31BWebServer) (hl : l.Brings closed q) :
    ∃ l' s' searchStr, l'.Brings closed (cutLine q).2 ∧ parseRequest stack s l =
      match requestMethod (cutLine q).1 with
      | none => pure (false, s', l')
      | some method =>
        if readsBody method then parseBody stack s' searchStr l'
          else parsePlain s' searchStr l' := by
  obtain ⟨l', hread, hl'⟩ := readLine_brings hl
  unfold parseRequest requestMethod
  rw [hread]
  dsimp only
  split
  · exact ⟨l', _, [], hl', rfl⟩
  · exact ⟨l', _, _, hl', rfl⟩

theorem parseRequest_yields (stack : StackMemory) (s : ESP31BWebServer) (hl : l.Brings true q)
    (h : RequestEnds stack q) : ∃ r, (parseRequest stack s l).Yields r := by
  obtain ⟨l', s', searchStr, hl', heq⟩ := parseRequest_eq stack s hl
  rw [heq]
  cases hmethod : requestMethod (cutLine q).1 with
  | none => exact ⟨_, Fueled.yields_pure _⟩
  | some method =>
    dsimp only
    by_cases hbody : readsBody method = true
    · rw [if_pos hbody]
      rcases h with hno | hform
      · exact absurd hbody (by rw [hno method hmethod]; decide)
      · exact parseBody_yields stack s' searchStr hl' hform
    · rw [if_neg hbody]
      exact parsePlain_yields s' searchStr hl'

end ESP31BWebServer
