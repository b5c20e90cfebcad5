import Esp31b.HttpBody
import Esp31b.HttpRequest

/-!
# Reading the header of a response

`handleHeaderResponse` waits for the first byte of a line as long as it
takes, and reads the rest of the line with time-outs. It takes lines up to
the first empty one, wherever the connection happens to be.

Where that is the start of a well-formed response the lines are understood
(`HttpResponse.fold_lines`), with one exception: the value of a field is
taken from the second byte behind the colon on, so that of a
`Content-Length:5` is lost. `HttpResponse.Spaced` excludes that.
-/

namespace HTTPClient

/-! ## Lines -/

/-- Lines as they are sent. -/
def sendLines (lines : List (List UInt8)) : List UInt8 := lines.flatMap (· ++ [0x0A])

/-- **No wait inside a line reaches the time-out.** Waits for the first byte
of a line do not count. -/
def LinesPrompt (bytes : List UInt8) (wait : ℕ → ℕ) (timeout : ℕ) : Prop :=
  ∀ j, j + 1 < bytes.length → bytes[j]? ≠ some 0x0A → wait (j + 1) < timeout

section Lines

variable {l : Link} {line rest : List UInt8}

/-- The turns that wait for a line, and the one that takes it. -/
theorem headerTurn_line (r : Response) (hto : 0 < l.timeout)
    (hp : l.pending = line ++ 0x0A :: rest) (hline : 0x0A ∉ line)
    (hw : ∀ i < line.length, l.waitAt (i + 1) < l.timeout) :
    ∃ l₁ l₂, Fueled.Steps (fun s => pure (headerTurn s)) (r, l) (r, l₁) ∧
      headerTurn (r, l₁) = (if (WString.trim line).equalsC [] then
        .inr (true, handleLine r (WString.trim line), l₂)
        else .inl (handleLine r (WString.trim line), l₂)) ∧ l.Took (line.length + 1) l₂ := by
  induction hn : l.sched.length using Nat.strong_induction_on generalizing l with
  | _ n ih =>
    have hpolls : l.Took 0 l.poll.poll := by simpa using l.took_poll.trans l.poll.took_poll
    have hp₂ : l.poll.poll.pending = line ++ 0x0A :: rest := by
      rw [hpolls.pending, List.drop_zero, hp]
    have hup := linkConnected_of_pending (l := l) (by simp [hp])
    by_cases hrx : l.poll.poll.rx = []
    · -- nothing is there yet, and time has passed
      have hturn : headerTurn (r, l) = .inl (r, l.poll.poll) := by
        simp [headerTurn, hup, Link.available, hrx]
      have hne : l.sched ≠ [] := by
        intro hnil
        have hpoll : l.poll = l := by simp [Link.poll, hnil]
        rw [hpoll, hpoll] at hrx
        simp [Link.pending, hnil, hrx] at hp
      have hlt : l.poll.poll.sched.length < n :=
        hn ▸ lt_of_le_of_lt l.poll.took_poll.sched (Link.poll_sched_lt hne)
      obtain ⟨l₁, l₂, hsteps, hturn₁, htook⟩ := @ih _ hlt l.poll.poll
        (hpolls.timeout ▸ hto) hp₂ (fun i hi => by
          rw [hpolls.timeout]
          exact lt_of_le_of_lt (hpolls.waitAt _) (hw i hi)) rfl
      exact ⟨l₁, l₂, Fueled.Steps.head (hturn ▸ Fueled.yields_pure _) hsteps, hturn₁,
        by simpa using hpolls.trans htook⟩
    · obtain ⟨l₂, hread, htook⟩ := Link.readStringUntil_eq hp₂ hline (fun i hi => by
        rw [hpolls.timeout]
        cases i with
        | zero =>
          rw [Link.waitAt_of_lt (List.length_pos_iff.mpr hrx)]
          exact hto
        | succ i => exact lt_of_le_of_lt (hpolls.waitAt _) (hw i (by omega)))
      refine ⟨l, l₂, Fueled.Steps.refl _, ?_, by simpa using hpolls.trans htook⟩
      have hpos : 0 < l.poll.poll.rx.length := List.length_pos_iff.mpr hrx
      simp only [headerTurn, hup, Link.available, if_true, if_pos hpos, hread]

/-- What follows the first line. -/
theorem LinesPrompt.tail {lines : List UInt8} {w w' : ℕ → ℕ} {timeout : ℕ}
    (h : LinesPrompt (line ++ 0x0A :: lines) w timeout)
    (hle : ∀ j, w' j ≤ w (j + (line.length + 1))) : LinesPrompt lines w' timeout := by
  intro j hj hne
  have hget : (line ++ 0x0A :: lines)[j + (line.length + 1)]? = lines[j]? := by
    rw [show line ++ 0x0A :: lines = (line ++ [0x0A]) ++ lines by simp,
      List.getElem?_append_right (by simp)]
    simp
  refine lt_of_le_of_lt (hle (j + 1)) ?_
  rw [show j + 1 + (line.length + 1) = j + (line.length + 1) + 1 by omega]
  refine h _ ?_ (hget ▸ hne)
  simp
  omega

/-- **The lines up to the empty one are handled in turn**, however they
arrive. -/
theorem headerLoop_yields {lines : List (List UInt8)} {last : List UInt8} (r : Response)
    (hto : 0 < l.timeout)
    (hp : l.pending = sendLines (lines ++ [last]) ++ rest)
    (hlf : ∀ x ∈ lines ++ [last], 0x0A ∉ x)
    (hlines : ∀ x ∈ lines, (WString.trim x).equalsC [] = false)
    (hlast : (WString.trim last).equalsC [] = true)
    (hw : LinesPrompt (sendLines (lines ++ [last])) l.waitAt l.timeout) :
    ∃ l', (Fueled.loop (fun s => pure (headerTurn s)) (r, l)).Yields
        (true, (lines ++ [last]).foldl (fun r x => handleLine r (WString.trim x)) r, l') ∧
      l.Took (sendLines (lines ++ [last])).length l' := by
  induction lines generalizing l r with
  | nil =>
    have hsend : sendLines ([] ++ [last]) = last ++ [0x0A] := by simp [sendLines]
    rw [hsend] at hp hw ⊢
    have hp' : l.pending = last ++ 0x0A :: rest := by rw [hp]; simp
    obtain ⟨l₁, l₂, hsteps, hturn, htook⟩ := headerTurn_line r hto hp'
      (hlf last (by simp)) (fun i hi => hw i (by simpa using hi) (by
        rw [List.getElem?_append_left hi]
        exact fun hget => hlf last (by simp) (List.mem_of_getElem? hget)))
    rw [if_pos hlast] at hturn
    refine ⟨l₂, (hsteps.yields_iff _).mpr (Fueled.yields_loop_leave ?_), by simpa using htook⟩
    rw [hturn]
    exact Fueled.yields_pure _
  | cons x lines ih =>
    have hsend : sendLines (x :: lines ++ [last]) = x ++ 0x0A ::
        sendLines (lines ++ [last]) := by
      simp [sendLines]
    rw [hsend] at hp hw ⊢
    have hp' :
        l.pending = x ++ 0x0A :: (sendLines (lines ++ [last]) ++ rest) := by rw [hp]; simp
    obtain ⟨l₁, l₂, hsteps, hturn, htook⟩ := headerTurn_line r hto hp' (hlf x (by simp))
      (fun i hi => hw i (by simp; omega) (by
        rw [List.getElem?_append_left hi]
        exact fun hget => hlf x (by simp) (List.mem_of_getElem? hget)))
    rw [if_neg (by simp [hlines x (by simp)])] at hturn
    obtain ⟨l₃, hyields, htook₃⟩ := @ih l₂ (handleLine r (WString.trim x))
      (htook.timeout ▸ hto)
      (by
        rw [htook.pending, hp, List.append_assoc, List.cons_append, List.drop_append]
        simp)
      (fun y hy => hlf y (by simp at hy ⊢; tauto)) (fun y hy => hlines y (by simp [hy]))
      (by rw [htook.timeout]; exact hw.tail htook.waitAt)
    refine ⟨l₃, (hsteps.yields_iff _).mpr (Fueled.yields_loop_again (t := (_, l₂)) ?_ hyields),
      ?_⟩
    · rw [hturn]
      exact Fueled.yields_pure _
    · have hall := htook.trans htook₃
      rwa [show x.length + 1 + (sendLines (lines ++ [last])).length
        = (x ++ 0x0A :: sendLines (lines ++ [last])).length by simp; omega] at hall

end Lines

/-! ## Fields -/

/-- **A header field**: its name, blanks, its value and blanks. -/
structure Field where
  name : WString
  pad : WString
  value : WString
  trail : WString
  deriving DecidableEq, Repr

namespace Field

/-- The line of a field, its LF apart. -/
def line (f : Field) : List UInt8 := f.name ++ 0x3A :: (f.pad ++ f.value ++ f.trail ++ [0x0D])

/-- The field has this name, in any case. -/
def Named (f : Field) (name : WString) : Prop := f.name.map tolower = name.map tolower

/-- A character that a field name can have. -/
def NameChar (c : UInt8) : Prop := c ≠ 0x3A ∧ c ≠ 0x2F ∧ c ≠ 0 ∧ isspace c = false

/-- A blank between name, value and end of line. -/
def Blank (c : UInt8) : Prop := c = 0x20 ∨ c = 0x09

/-- **A well-formed field.** -/
structure WellFormed (f : Field) : Prop where
  name_ne : f.name ≠ []
  name_chars : ∀ c ∈ f.name, NameChar c
  pad : ∀ c ∈ f.pad, Blank c
  value : 0x0A ∉ f.value
  trail : ∀ c ∈ f.trail, Blank c

variable {f : Field}

theorem Blank.isspace {c : UInt8} (h : Blank c) : isspace c = true := by
  rcases h with rfl | rfl <;> decide

theorem WellFormed.zero_not_mem (h : f.WellFormed) : 0 ∉ f.name :=
  fun h0 => (h.name_chars 0 h0).2.2.1 rfl

theorem WellFormed.line_lf (h : f.WellFormed) : 0x0A ∉ f.line := by
  have hpad : ∀ {bs : List UInt8}, (∀ c ∈ bs, Blank c) → 0x0A ∉ bs := fun hbs hmem => by
    rcases hbs _ hmem with h | h <;> exact absurd h (by decide)
  have hname : 0x0A ∉ f.name := fun hmem => absurd (h.name_chars _ hmem).2.2.2 (by decide)
  simp [line, hname, hpad h.pad, hpad h.trail, h.value]

/-- A field's line, trimmed. -/
theorem WellFormed.trim_line (h : f.WellFormed) :
    WString.trim f.line
      = f.name ++ 0x3A :: (f.pad ++ f.value ++ f.trail ++ [0x0D]).rdropWhile isspace :=
  WString.trim_colon h.name_ne (fun c hc => (h.name_chars c hc).2.2.2) _

/-- What a line has behind its colon. -/
theorem WellFormed.eq_of_trim {t : WString} (h : f.WellFormed)
    (ht : WString.trim f.line = f.name ++ 0x3A :: t) :
    (f.pad ++ f.value ++ f.trail ++ [0x0D]).rdropWhile isspace = t :=
  (List.cons.inj (List.append_cancel_left (h.trim_line.symm.trans ht))).2

/-- A value that does not end in a blank is what remains. -/
theorem WellFormed.trim_value (h : f.WellFormed) (hne : f.value ≠ [])
    (hlast : ∀ c ∈ f.value.getLast?, isspace c = false) :
    WString.trim f.line = f.name ++ 0x3A :: (f.pad ++ f.value) := by
  have hblank : ∀ c ∈ f.trail ++ [0x0D], isspace c = true := fun c hc => by
    rcases List.mem_append.mp hc with hc | hc
    · exact (h.trail c hc).isspace
    · rw [List.mem_singleton.mp hc]
      decide
  have hline : f.line = f.name ++ 0x3A :: (f.pad ++ f.value ++ (f.trail ++ [0x0D])) := by
    rw [line, List.append_assoc (f.pad ++ f.value)]
  rw [hline, WString.trim_field h.name_ne (fun c hc => (h.name_chars c hc).2.2.2)
    (fun c hc => (h.pad c hc).isspace) hlast hblank, if_neg hne]

end Field

/-- No field is taken for a status line. -/
theorem startsWith_field {name t : WString} (h : ∀ c ∈ name, Field.NameChar c) :
    WString.startsWith (name ++ 0x3A :: t) (ascii "HTTP/1.") = false := by
  by_contra hstart
  rw [Bool.not_eq_false] at hstart
  have hlen : (ascii "HTTP/1.").length = 7 := by decide
  have htake : cstr ((name ++ 0x3A :: t).take 7) = ascii "HTTP/1." := by
    unfold WString.startsWith at hstart
    rw [hlen, cstr_of_not_mem (s := ascii "HTTP/1.") (by decide)] at hstart
    simpa using (Bool.and_eq_true_iff.mp hstart).2
  have hcolon : (0x3A : UInt8) ∉ ascii "HTTP/1." := by decide
  have hslash : (0x2F : UInt8) ∈ ascii "HTTP/1." := by decide
  rw [← htake] at hcolon hslash
  rcases Nat.lt_or_ge name.length 7 with hlt | hge
  · refine hcolon ?_
    rw [List.take_append, List.take_of_length_le (by omega),
      show 7 - name.length = 6 - name.length + 1 by omega, List.take_succ_cons, cstr,
      List.takeWhile_append_of_pos (fun c hc => decide_eq_true (h c hc).2.2.1),
      List.takeWhile_cons_of_pos (by decide)]
    simp
  · rw [List.take_append_of_le_length (by omega)] at hslash
    exact (h _ (List.mem_of_mem_take ((List.takeWhile_prefix _).subset hslash))).2.1 rfl

/-- **What is made of a field.** Its value starts with the second byte behind
the colon. -/
theorem handleLine_field (name t : WString) (r : Response) (hne : name ≠ [])
    (hname : ∀ c ∈ name, Field.NameChar c) (hlen : name.length + 2 < 2 ^ 32) :
    handleLine r (name ++ 0x3A :: t) =
      { returnCode := r.returnCode
        size := if name.equalsIgnoreCase (ascii "Content-Length")
          then WString.toInt (cstr (t.drop 1)) else r.size
        canReuse := if name.equalsIgnoreCase (ascii "Connection")
          then WString.equalsIgnoreCase (cstr (t.drop 1)) (ascii "keep-alive") else r.canReuse
        transferEncoding := if name.equalsIgnoreCase (ascii "Transfer-Encoding")
          then cstr (t.drop 1) else r.transferEncoding
        currentHeaders := setHeader name (cstr (t.drop 1)) r.currentHeaders } := by
  have h0 : 0 ∉ name := fun h0 => (hname 0 h0).2.2.1 rfl
  have hindex : WString.indexOf (name ++ 0x3A :: t) 0x3A 0 = name.length :=
    WString.indexOf_append (fun c hc => ⟨(hname c hc).1, (hname c hc).2.2.1⟩) (by decide)
  have hpos : (name.length : ℤ) ≠ 0 := by
    have := List.length_pos_iff.mpr hne
    omega
  have hsub : WString.substring (name ++ 0x3A :: t) 0 (WString.pos name.length) = name := by
    rw [WString.pos_natCast (by omega), WString.substring_of_le (Nat.zero_le _), List.drop_zero,
      List.take_left, cstr_of_not_mem h0]
  have hvalue : WString.substring (name ++ 0x3A :: t) (WString.pos (name.length + 2))
      (name ++ 0x3A :: t).length = cstr (t.drop 1) := by
    rw [show ((name.length : ℤ) + 2) = ((name.length + 2 : ℕ) : ℤ) by omega,
      WString.pos_natCast hlen, WString.substring_to_end, List.drop_append,
      List.drop_eq_nil_of_le (by omega)]
    simp
  unfold handleLine
  rw [startsWith_field hname, if_neg (by decide)]
  dsimp only
  rw [hindex, if_neg hpos, hsub, hvalue]

/-! ## Responses -/

/-- **A response**: `HTTP/1.` and a digit, three digits, a reason, fields and
a body. -/
structure HttpResponse where
  version : UInt8
  code : WString
  reason : WString
  fields : List Field
  body : List UInt8
  deriving DecidableEq, Repr

namespace HttpResponse

/-- The start of the status line, with the code. -/
def status (p : HttpResponse) : WString := ascii "HTTP/1." ++ [p.version, 0x20] ++ p.code

/-- The lines before the empty one. -/
def lines (p : HttpResponse) : List (List UInt8) :=
  (p.status ++ 0x20 :: (p.reason ++ [0x0D])) :: p.fields.map Field.line

/-- The header as it is sent. -/
def header (p : HttpResponse) : List UInt8 := sendLines (p.lines ++ [[0x0D]])

/-- All of it as it is sent. -/
def bytes (p : HttpResponse) : List UInt8 := p.header ++ p.body

/-- The status code. -/
def statusCode (p : HttpResponse) : ℕ := numeral 10 p.code

/-- **A well-formed response that keeps the connection** and has the length
of its body in `Content-Length`. -/
structure WellFormed (p : HttpResponse) : Prop where
  version : digitVal p.version < 10
  code_length : p.code.length = 3
  code_digits : ∀ c ∈ p.code, digitVal c < 10
  code_ge : 100 ≤ p.statusCode
  reason : 0x0A ∉ p.reason
  fields : ∀ f ∈ p.fields, f.WellFormed
  hasLength : ∃ f ∈ p.fields, f.Named (ascii "Content-Length")
  length : ∀ f ∈ p.fields, f.Named (ascii "Content-Length") →
    f.value ≠ [] ∧ (∀ c ∈ f.value, digitVal c < 10) ∧ numeral 10 f.value = p.body.length
  hasKeepAlive : ∃ f ∈ p.fields, f.Named (ascii "Connection")
  keepAlive : ∀ f ∈ p.fields, f.Named (ascii "Connection") →
    f.pad = [0x20] ∧ f.value.map tolower = ascii "keep-alive"
  identity : ∀ f ∈ p.fields, ¬ f.Named (ascii "Transfer-Encoding")

/-- **A response the client can represent**: a blank is behind the colon of
`Content-Length`, and the lengths fit. -/
structure Spaced (p : HttpResponse) : Prop where
  pad : ∀ f ∈ p.fields, f.Named (ascii "Content-Length") → f.pad ≠ []
  names : ∀ f ∈ p.fields, f.name.length + 2 < 2 ^ 32
  body : p.body.length < 2 ^ 31

variable {p : HttpResponse} {f : Field}

/-- A digit is no blank. -/
theorem isspace_digit {c : UInt8} (h : digitVal c < 10) : isspace c = false :=
  (digit_cases (lt_trans h (by decide))).2.1

/-- **What a field leaves behind**: the length, the promise to keep the
connection, or nothing that matters. -/
structure Handled (p : HttpResponse) (f : Field) (r r' : Response) : Prop where
  returnCode : r'.returnCode = r.returnCode
  transferEncoding : r'.transferEncoding = r.transferEncoding
  size : (f.Named (ascii "Content-Length") ∧ r'.size = p.body.length) ∨
    (¬ f.Named (ascii "Content-Length") ∧ r'.size = r.size)
  canReuse : (f.Named (ascii "Connection") ∧ r'.canReuse = true) ∨
    (¬ f.Named (ascii "Connection") ∧ r'.canReuse = r.canReuse)

/-- The value of `Content-Length`. -/
theorem WellFormed.length_value (hp : p.WellFormed) (hs : p.Spaced) (hf : f ∈ p.fields)
    (hnamed : f.Named (ascii "Content-Length")) :
    ∃ t, WString.trim f.line = f.name ++ 0x3A :: t ∧
      WString.toInt (cstr (t.drop 1)) = p.body.length := by
  obtain ⟨hne, hdigits, hvalue⟩ := hp.length f hf hnamed
  have hwf := hp.fields f hf
  refine ⟨f.pad ++ f.value, hwf.trim_value hne (fun c hc =>
    isspace_digit (hdigits c (List.mem_of_getLast? hc))), ?_⟩
  obtain ⟨x, pad, hpad⟩ := List.exists_cons_of_ne_nil (hs.pad f hf hnamed)
  have hblanks : ∀ c ∈ pad, isspace c = true ∧ c ≠ 0 := fun c hc => by
    rcases hwf.pad c (by simp [hpad, hc]) with rfl | rfl <;> decide
  have h0 : 0 ∉ pad ++ f.value := by
    intro hmem
    rcases List.mem_append.mp hmem with hmem | hmem
    · exact (hblanks 0 hmem).2 rfl
    · exact (digit_cases (lt_trans (hdigits 0 hmem) (by decide))).1 rfl
  rw [hpad, List.cons_append, List.drop_one, List.tail_cons, cstr_of_not_mem h0,
    WString.toInt, atol,
    strtol_blanks _ hblanks, strtol_numeral (by decide) hne hdigits, hvalue,
    clampLong_of_le (by omega) (by exact_mod_cast hs.body)]

/-- The value of `Connection`. -/
theorem WellFormed.keepAlive_value (hp : p.WellFormed) (hf : f ∈ p.fields)
    (hnamed : f.Named (ascii "Connection")) :
    ∃ t, WString.trim f.line = f.name ++ 0x3A :: t ∧
      WString.equalsIgnoreCase (cstr (t.drop 1)) (ascii "keep-alive") = true := by
  obtain ⟨hpad, hvalue⟩ := hp.keepAlive f hf hnamed
  have hne : f.value ≠ [] := by
    rintro hnil
    rw [hnil] at hvalue
    exact absurd hvalue (by decide)
  have hplain : ∀ c ∈ f.value, c ≠ 0 ∧ isspace c = false := by
    intro c hc
    have hlower : tolower c ∈ ascii "keep-alive" := hvalue ▸ List.mem_map_of_mem hc
    unfold tolower at hlower
    split at hlower
    · rename_i hletter
      refine ⟨?_, ?_⟩
      · rintro rfl
        exact absurd hletter (by decide)
      · by_contra hspace
        simp only [isspace, UInt8.le_iff_toNat_le, ← UInt8.toNat_inj] at hspace hletter
        simp at hspace hletter
        omega
    · exact (by decide : ∀ c ∈ ascii "keep-alive", c ≠ 0 ∧ isspace c = false) c hlower
  refine ⟨f.pad ++ f.value, (hp.fields f hf).trim_value hne (fun c hc =>
    (hplain c (List.mem_of_getLast? hc)).2), ?_⟩
  have h0 : 0 ∉ f.value := fun h0 => (hplain 0 h0).1 rfl
  rw [hpad, List.singleton_append, List.drop_one, List.tail_cons, cstr_of_not_mem h0,
    WString.equalsIgnoreCase_iff h0, hvalue]
  decide

theorem WellFormed.handled (hp : p.WellFormed) (hs : p.Spaced)
    (hf : f ∈ p.fields) (r : Response) :
    Handled p f r (handleLine r (WString.trim f.line)) := by
  have hwf := hp.fields f hf
  have hci : ∀ name, f.name.equalsIgnoreCase name = true ↔ f.Named name := fun name =>
    WString.equalsIgnoreCase_iff hwf.zero_not_mem
  have hno := hp.identity f hf
  have heq :=
    handleLine_field f.name ((f.pad ++ f.value ++ f.trail ++ [0x0D]).rdropWhile isspace)
    r hwf.name_ne hwf.name_chars (hs.names f hf)
  rw [← hwf.trim_line] at heq
  rw [heq]
  refine ⟨rfl, ?_, ?_, ?_⟩
  · exact if_neg (fun h => hno ((hci _).mp h))
  · by_cases hnamed : f.Named (ascii "Content-Length")
    · obtain ⟨t, ht, hvalue⟩ := hp.length_value hs hf hnamed
      refine Or.inl ⟨hnamed, ?_⟩
      dsimp only
      rw [if_pos ((hci _).mpr hnamed), hwf.eq_of_trim ht, hvalue]
    · exact Or.inr ⟨hnamed, if_neg (fun h => hnamed ((hci _).mp h))⟩
  · by_cases hnamed : f.Named (ascii "Connection")
    · obtain ⟨t, ht, hvalue⟩ := hp.keepAlive_value hf hnamed
      refine Or.inl ⟨hnamed, ?_⟩
      dsimp only
      rw [if_pos ((hci _).mpr hnamed), hwf.eq_of_trim ht, hvalue]
    · exact Or.inr ⟨hnamed, if_neg (fun h => hnamed ((hci _).mp h))⟩

/-- What one field sets or leaves as it is, a later one sets or it is set
already. -/
theorem set_or_kept {α : Type} {name : WString} {fs : List Field} {x y v : α}
    (hf : (f.Named name ∧ y = v) ∨ (¬ f.Named name ∧ y = x))
    (h : (∃ g ∈ f :: fs, g.Named name) ∨ x = v) : (∃ g ∈ fs, g.Named name) ∨ y = v := by
  rcases hf with ⟨-, hset⟩ | ⟨hnot, hkept⟩
  · exact Or.inr hset
  · rcases h with ⟨g, hg, hnamed⟩ | h
    · rcases List.mem_cons.mp hg with rfl | hg
      · exact absurd hnamed hnot
      · exact Or.inl ⟨g, hg, hnamed⟩
    · exact Or.inr (hkept.trans h)

/-- **All fields in turn.** -/
theorem WellFormed.fold_fields (hp : p.WellFormed) (hs : p.Spaced) {fs : List Field}
    (hfs : ∀ f ∈ fs, f ∈ p.fields) (r : Response) :
    ∃ r', (fs.map Field.line).foldl (fun r x => handleLine r (WString.trim x)) r = r' ∧
      r'.returnCode = r.returnCode ∧ r'.transferEncoding = r.transferEncoding ∧
      ((∃ f ∈ fs, f.Named (ascii "Content-Length")) ∨ r.size = p.body.length →
        r'.size = p.body.length) ∧
      ((∃ f ∈ fs, f.Named (ascii "Connection")) ∨ r.canReuse = true → r'.canReuse = true) := by
  induction fs generalizing r with
  | nil => exact ⟨r, rfl, rfl, rfl, by simp, by simp⟩
  | cons f fs ih =>
    have hf := hp.handled hs (hfs f (by simp)) r
    obtain ⟨r', hr', hcode, hte, hsize, hreuse⟩ :=
      ih (fun g hg => hfs g (by simp [hg])) (handleLine r (WString.trim f.line))
    exact ⟨r', hr', hcode.trans hf.returnCode, hte.trans hf.transferEncoding,
      fun h => hsize (set_or_kept hf.size h), fun h => hreuse (set_or_kept hf.canReuse h)⟩

/-- The status line, trimmed: the code is its end, or a blank follows. -/
theorem WellFormed.trim_status (hp : p.WellFormed) :
    ∃ t, WString.trim (p.status ++ 0x20 :: (p.reason ++ [0x0D])) = p.status ++ t ∧
      (t = [] ∨ ∃ u, t = 0x20 :: u) := by
  have hcode : p.code ≠ [] := by
    rintro hnil
    have := hp.code_length
    simp [hnil] at this
  refine ⟨(0x20 :: (p.reason ++ [0x0D])).rdropWhile isspace, WString.trim_append ?_ ?_ ?_ _,
    WString.rdropWhile_cons _ _⟩
  · simp [status]
  · intro c hc
    obtain rfl : 0x48 = c := by simpa [status, ascii] using hc
    decide
  · intro c hc
    rw [status, List.getLast?_append_of_ne_nil _ hcode] at hc
    exact isspace_digit (hp.code_digits c (List.mem_of_getLast? hc))

/-- The code as the client reads it. -/
theorem WellFormed.toInt_code (hp : p.WellFormed) : WString.toInt p.code = p.statusCode := by
  obtain ⟨a, b, d, hcode⟩ : ∃ a b d, p.code = [a, b, d] :=
    List.length_eq_three.mp hp.code_length
  have hlt : p.statusCode < 1000 := by
    have hdig := hp.code_digits
    rw [hcode] at hdig
    simp only [statusCode, hcode, numeral, List.foldl_cons, List.foldl_nil]
    have := hdig a (by simp)
    have := hdig b (by simp)
    have := hdig d (by simp)
    omega
  rw [WString.toInt, atol, strtol_numeral (by decide) (by simp [hcode]) hp.code_digits]
  exact clampLong_of_le (by omega) (by rw [statusCode] at hlt; omega)

theorem WellFormed.code_plain (hp : p.WellFormed) : ∀ c ∈ p.code, c ≠ 0x20 ∧ c ≠ 0 := by
  intro c hc
  obtain ⟨hne, hspace, -⟩ := digit_cases (lt_trans (hp.code_digits c hc) (by decide))
  refine ⟨?_, hne⟩
  rintro rfl
  exact absurd hspace (by decide)

/-- The code is cut out of the line, up to the next blank or the end. -/
theorem WellFormed.substring_code (hp : p.WellFormed) {t : WString}
    (ht : t = [] ∨ ∃ u, t = 0x20 :: u) :
    WString.substring (p.status ++ t) 9 (WString.pos (WString.indexOf (p.status ++ t) 0x20 9)) =
      p.code := by
  have hplain : cstr p.code = p.code := cstr_of_not_mem (fun h0 => (hp.code_plain 0 h0).2 rfl)
  have hdrop : (p.status ++ t).drop 9 = p.code ++ t := by simp [status, ascii]
  have hlen : p.status.length = 12 := by simp [status, ascii, hp.code_length]
  rcases ht with rfl | ⟨u, rfl⟩
  · rw [List.append_nil] at hdrop ⊢
    rw [List.append_nil] at hdrop
    rw [WString.indexOf_none (by rw [hdrop]; exact fun h => (hp.code_plain _ h).1 rfl),
      WString.substring_of_le (by decide), List.take_of_length_le
        (WString.length_le_pos_neg_one (by rw [hlen]; decide)), hdrop, hplain]
  · rw [WString.indexOf_of_drop hdrop hp.code_plain (by decide), hp.code_length,
      show ((9 : ℕ) : ℤ) + ((3 : ℕ) : ℤ) =
        ((12 : ℕ) : ℤ) by decide, WString.pos_natCast (by decide),
      WString.substring_of_le (by decide), List.drop_take, hdrop,
      List.take_left' (by rw [hp.code_length]), hplain]

/-- **What is made of the status line.** -/
theorem WellFormed.handle_status (hp : p.WellFormed) (r : Response) :
    handleLine r (WString.trim (p.status ++ 0x20 :: (p.reason ++ [0x0D])))
      = { r with returnCode := p.statusCode } := by
  obtain ⟨t, htrim, ht⟩ := hp.trim_status
  unfold handleLine
  rw [htrim, if_pos, hp.substring_code ht, hp.toInt_code]
  rw [status, List.append_assoc, List.append_assoc, WString.startsWith, List.take_left]
  simp

theorem equalsC_nil_of_cons {x : UInt8} {t : WString} (hx : x ≠ 0) :
    WString.equalsC (x :: t) [] = false := by
  simp [WString.equalsC, cstr, hx]

/-- The lines of a response are lines, and not empty. -/
theorem WellFormed.lines_plain (hp : p.WellFormed) :
    ∀ x ∈ p.lines, 0x0A ∉ x ∧ (WString.trim x).equalsC [] = false := by
  intro x hx
  rcases List.mem_cons.mp hx with rfl | hx
  · have hcode : ∀ {c}, digitVal c < 10 → c ≠ 0x0A := fun {c} hc h => by
      rw [h] at hc
      exact absurd hc (by decide)
    refine ⟨?_, ?_⟩
    · have hnotcode : 0x0A ∉ p.code := fun hmem => hcode (hp.code_digits _ hmem) rfl
      have hversion : 0x0A ≠ p.version := fun h => hcode hp.version h.symm
      simp [status, hnotcode, hversion, hp.reason]
      decide
    · obtain ⟨t, ht, -⟩ := hp.trim_status
      rw [ht]
      exact equalsC_nil_of_cons (by decide)
  · obtain ⟨f, hf, rfl⟩ := List.mem_map.mp hx
    have hwf := hp.fields f hf
    refine ⟨hwf.line_lf, ?_⟩
    obtain ⟨y, name, hname⟩ := List.exists_cons_of_ne_nil hwf.name_ne
    rw [hwf.trim_line, hname]
    exact equalsC_nil_of_cons (hwf.name_chars y (by simp [hname])).2.2.1

/-- The empty line only ends the header. -/
theorem handleLine_nil (r : Response) :
    handleLine r [] = { r with currentHeaders := setHeader [] [] r.currentHeaders } := by
  unfold handleLine
  rw [if_neg (by decide)]
  dsimp only
  rw [if_neg (by decide)]
  rfl

/-- **The header of a well-formed response is understood.** -/
theorem WellFormed.fold_lines (hp : p.WellFormed) (hs : p.Spaced) (r : Response) :
    ∃ r' : Response, (p.lines ++ [[0x0D]]).foldl (fun r x => handleLine r (WString.trim x)) r =
      r' ∧
      r'.returnCode = p.statusCode ∧ r'.transferEncoding = r.transferEncoding ∧
      r'.size = p.body.length ∧ r'.canReuse = true := by
  obtain ⟨r', hr', hcode, hte, hsize, hreuse⟩ :=
    hp.fold_fields hs (fun f hf => hf) { r with returnCode := p.statusCode }
  refine ⟨{ r' with currentHeaders := setHeader [] [] r'.currentHeaders }, ?_, hcode, hte,
    hsize (Or.inl hp.hasLength), hreuse (Or.inl hp.hasKeepAlive)⟩
  rw [lines, List.cons_append, List.foldl_cons, hp.handle_status, List.foldl_append, hr',
    List.foldl_cons, List.foldl_nil, show WString.trim [0x0D] = [] from by decide,
    handleLine_nil]

end HttpResponse

/-- **The header of a well-formed response is read**, and nothing of what
follows it. -/
theorem handleHeaderResponse_yields {c : HTTPClient} {k : Connection} {p : HttpResponse}
    {rest : List UInt8} (hk : c.connection = some k) (hopen : k.link.fin = false)
    (hto : 0 < k.link.timeout) (hpending : k.link.pending = p.header ++ rest)
    (hp : p.WellFormed) (hs : p.Spaced)
    (hw : LinesPrompt p.header k.link.waitAt k.link.timeout) :
    ∃ l' headers, c.handleHeaderResponse.Yields ((p.statusCode : ℤ),
        { c.setConnection { k with link := l' } with
          returnCode := p.statusCode, size := p.body.length, canReuse := true
          currentHeaders := headers, transferEncoding := .identity }) ∧
      k.link.Took p.header.length l' := by
  have hpoll := k.link.took_poll
  have hconnected : c.connected = (true, c.setConnection { k with link := k.link.poll }) := by
    rw [connected, hk]
    dsimp only
    rw [linkConnected_eq hopen]
  obtain ⟨r', hfold, hcode, hte, hsize, hreuse⟩ :=
    hp.fold_lines hs ⟨-1, -1, c.canReuse, [], c.currentHeaders⟩
  have hpending' : k.link.poll.pending = sendLines (p.lines ++ [[0x0D]]) ++ rest := by
    rw [hpoll.pending, List.drop_zero, hpending]
    rfl
  obtain ⟨l', hloop, htook⟩ := headerLoop_yields ⟨-1, -1, c.canReuse, [], c.currentHeaders⟩
    (hpoll.timeout ▸ hto) hpending'
    (fun x hx => by
      rcases List.mem_append.mp hx with hx | hx
      · exact (hp.lines_plain x hx).1
      · rw [List.mem_singleton.mp hx]
        decide)
    (fun x hx => (hp.lines_plain x hx).2) (by decide)
    (fun j hj hne => by
      rw [hpoll.timeout]
      exact lt_of_le_of_lt (hpoll.waitAt _) (hw j hj hne))
  refine ⟨l', r'.currentHeaders, ?_, by simpa [HttpResponse.header] using hpoll.trans htook⟩
  have hne : r'.returnCode ≠ 0 := by
    have := hp.code_ge
    omega
  have hresponse : responseCode r' = ((p.statusCode : ℤ), .identity) := by
    rw [responseCode, hte, if_neg (by simp), if_pos hne, hcode]
  unfold handleHeaderResponse
  rw [hconnected]
  rw [hfold] at hloop
  refine Fueled.Yields.bind hloop ?_
  dsimp only
  rw [hresponse, hcode, hsize, hreuse]
  exact Fueled.yields_pure _

end HTTPClient
