import Esp31b.Collected
import Esp31b.FileBody
import Esp31b.Segmentation

/-!
# The header of a request

`_parseRequest` has its header loop twice, for the methods with a body and
for the others. Both cut a line at its colon, collect the value and keep that
of `Host`. But one takes what is behind the colon and trims it, and the other
takes what is two bytes behind the colon and leaves it at that. So what a
handler sees of a header depends on the method of the request, unless the
value is the way most clients write it: one blank, and then text without
blanks at its ends.

`headersAgree_iff` is exact: it is the last line of each name that counts, and
`SamelyCut` says which values both loops cut alike.
-/

namespace ESP31BWebServer

open HttpRequest

/-! ## What a line leaves -/

/-- **A field is taken**: collected, and kept if it is `Host`. -/
def takeField (cut : WString → WString) (s : ESP31BWebServer) (f : RequestArgument) :
    ESP31BWebServer :=
  let s := s.collectHeader f.key (cut f.value)
  if f.key = ascii "Host" then { s with hostHeader := cut f.value } else s

/-- Fields with their values cut. -/
def cutValues (cut : WString → WString) (fields : List RequestArgument) :
    List RequestArgument :=
  fields.map (fun f => ⟨f.key, cut f.value⟩)

/-- The keys to be collected are C strings. -/
def PlainKeys (s : ESP31BWebServer) : Prop := ∀ a ∈ s.currentHeaders, 0 ∉ a.key

/-- A field that both loops can take. -/
structure Legible (f : RequestArgument) : Prop where
  key : ∀ c ∈ f.key, c ≠ 0x3A ∧ c ≠ 0
  value : 0 ∉ f.value
  short : f.key.length + 2 < 2 ^ 32

variable {f : RequestArgument} {s : ESP31BWebServer} {cut : WString → WString}

theorem Legible.equalsC_key (h : Legible f) (name : WString) :
    f.key.equalsC name = true ↔ f.key = name :=
  WString.equalsC_iff (fun h0 => (h.key 0 h0).2 rfl)

/-- **The loop of the other methods** cuts two bytes behind the colon. -/
theorem plainHeader_field (h : Legible f) (s : ESP31BWebServer) :
    plainHeader s (fieldLine f) = takeField (List.drop 1) s f := by
  obtain ⟨-, hindex, hname, -, hvalue⟩ := fieldLine_cut h.key h.value h.short
  unfold plainHeader takeField
  rw [hindex]
  dsimp only
  rw [hname, hvalue]
  simp only [h.equalsC_key]

/-- **The loop of the methods with a body** trims. -/
theorem bodyHeader_field (h : Legible f) (scan : HeaderScan) :
    (bodyHeader scan (fieldLine f)).server = takeField WString.trim scan.server f := by
  obtain ⟨-, hindex, hname, hvalue, -⟩ := fieldLine_cut h.key h.value h.short
  have hother : f.key = ascii "Content-Type" → f.key ≠ ascii "Host" :=
    fun heq => heq ▸ by decide
  unfold bodyHeader takeField
  rw [hindex]
  dsimp only
  rw [hname, hvalue]
  simp only [h.equalsC_key]
  split_ifs with htype
  all_goals first | rfl | exact absurd ‹_› (hother htype)

/-! ## All lines -/

/-- With keys that are C strings, a value goes to the first equal key. -/
theorem setValue_eq (name value : WString) {as : List RequestArgument}
    (h : ∀ a ∈ as, 0 ∉ a.key) :
    setValue name value as = Collected.setFirst id name value as := by
  induction as with
  | nil => rfl
  | cons a as ih =>
    have ha := WString.equalsC_iff (t := name) (h a (by simp))
    unfold setValue Collected.setFirst
    rw [ih (fun b hb => h b (by simp [hb]))]
    exact if_congr ha rfl rfl

theorem PlainKeys.setFirst (h : s.PlainKeys) (name value : WString) :
    ∀ a ∈ Collected.setFirst id name value s.currentHeaders, 0 ∉ a.key := by
  intro a ha
  have hmem :
      a.key ∈ (Collected.setFirst id name value s.currentHeaders).map RequestArgument.key :=
    List.mem_map_of_mem ha
  rw [Collected.setFirst_keys] at hmem
  obtain ⟨b, hb, hkey⟩ := List.mem_map.mp hmem
  rw [← hkey]
  exact h b hb

theorem takeField_eq (cut : WString → WString) (h : s.PlainKeys) (f : RequestArgument) :
    s.takeField cut f = { s with
      currentHeaders := Collected.setFirst id f.key (cut f.value) s.currentHeaders
      hostHeader := if f.key = ascii "Host" then cut f.value else s.hostHeader } := by
  unfold takeField collectHeader
  rw [setValue_eq _ _ h]
  dsimp only
  split <;> rfl

/-- **What all fields leave**: the collected values, and the last `Host`. -/
theorem foldl_takeField (cut : WString → WString) (h : s.PlainKeys)
    (fields : List RequestArgument) :
    fields.foldl (takeField cut) s = { s with
      currentHeaders := Collected.collect id (cutValues cut fields) s.currentHeaders
      hostHeader :=
        (Collected.lastValue id (cutValues cut fields) (ascii "Host")).getD s.hostHeader } := by
  induction fields generalizing s with
  | nil => rfl
  | cons f fields ih =>
    have hkeys : PlainKeys (s.takeField cut f) := by
      rw [takeField_eq cut h]
      exact h.setFirst _ _
    rw [List.foldl_cons, ih hkeys, takeField_eq cut h]
    show _ = _
    unfold cutValues
    rw [List.map_cons, Collected.lastValue_cons]
    dsimp only [id]
    congr 1
    cases Collected.lastValue id (fields.map fun f => (⟨f.key, cut f.value⟩ : RequestArgument))
      (ascii "Host") with
    | some v => rfl
    | none =>
      by_cases hhost : f.key = ascii "Host"
      · simp [hhost]
      · simp [hhost]

theorem foldl_plainHeader {fields : List RequestArgument} (hfields : ∀ f ∈ fields, Legible f)
    (s : ESP31BWebServer) :
    (fields.map fieldLine).foldl plainHeader s = fields.foldl (takeField (List.drop 1)) s := by
  induction fields generalizing s with
  | nil => rfl
  | cons f fields ih =>
    rw [List.map_cons, List.foldl_cons, plainHeader_field (hfields f (by simp)),
      List.foldl_cons, ih (fun g hg => hfields g (by simp [hg]))]

theorem foldl_bodyHeader {fields : List RequestArgument} (hfields : ∀ f ∈ fields, Legible f)
    (scan : HeaderScan) :
    ((fields.map fieldLine).foldl bodyHeader scan).server
      = fields.foldl (takeField WString.trim) scan.server := by
  induction fields generalizing scan with
  | nil => rfl
  | cons f fields ih =>
    rw [List.map_cons, List.foldl_cons, ih (fun g hg => hfields g (by simp [hg])),
      bodyHeader_field (hfields f (by simp)), List.foldl_cons]

/-! ## The lines that are seen -/

/-- **A header as it is sent**: names without colon, and no CR anywhere. A
name may have a NUL; no value has. -/
structure Sendable (fields : List RequestArgument) : Prop where
  keys : ∀ f ∈ fields, ∀ c ∈ f.key, c ≠ 0x3A ∧ c ≠ 0x0D
  values : ∀ f ∈ fields, ∀ c ∈ f.value, c ≠ 0x0D ∧ c ≠ 0
  short : ∀ f ∈ fields, f.key.length + 2 < 2 ^ 32

/-- The fields before the first name with a NUL. Behind the NUL no colon is
found, so there both loops stop. -/
def seen (fields : List RequestArgument) : List RequestArgument :=
  fields.takeWhile (fun f => 0 ∉ f.key)

/-- The lines of a header. -/
def headerLines (fields : List RequestArgument) : List WString := fields.map fieldLine ++ [[]]

variable {fields : List RequestArgument}

theorem Sendable.legible (h : Sendable fields) : ∀ f ∈ seen fields, Legible f := by
  intro f hf
  have hmem := (List.takeWhile_prefix _).subset hf
  have h0 : 0 ∉ f.key := by simpa using List.mem_takeWhile_imp hf
  exact ⟨fun c hc => ⟨(h.keys f hmem c hc).1, fun hc0 => h0 (hc0 ▸ hc)⟩,
    fun hv => (h.values f hmem 0 hv).2 rfl, h.short f hmem⟩

theorem Sendable.lines_cr (h : Sendable fields) : ∀ x ∈ headerLines fields, 0x0D ∉ x := by
  intro x hx
  rcases List.mem_append.mp hx with hx | hx
  · obtain ⟨f, hf, rfl⟩ := List.mem_map.mp hx
    have hk : 0x0D ∉ f.key := fun hc => (h.keys f hf _ hc).2 rfl
    have hv : 0x0D ∉ f.value := fun hc => (h.values f hf _ hc).1 rfl
    simp [fieldLine, hk, hv]
  · simp [List.mem_singleton.mp hx]

theorem Legible.line_plain (h : Legible f) :
    (fieldLine f).equalsC [] = false ∧ WString.indexOf (fieldLine f) 0x3A 0 ≠ -1 := by
  obtain ⟨hne, hindex, -⟩ := fieldLine_cut h.key h.value h.short
  exact ⟨hne, by rw [hindex]; omega⟩

/-- A name with a NUL hides the colon. -/
theorem indexOf_of_nul {f : RequestArgument} (hkey : 0x3A ∉ f.key) (h0 : 0 ∈ f.key) :
    WString.indexOf (fieldLine f) 0x3A 0 = -1 := by
  have hcstr : 0x3A ∉ cstr (fieldLine f) := by
    obtain ⟨p, t, hsplit, hp⟩ := List.eq_append_cons_of_mem h0
    intro hmem
    rw [fieldLine, hsplit, List.append_assoc, cstr, List.takeWhile_append_of_pos (fun c hc => by
      simp only [decide_eq_true_eq]
      exact fun hc0 => hp (hc0 ▸ hc)), List.cons_append, List.takeWhile_cons_of_neg (by decide),
      List.append_nil] at hmem
    exact hkey (hsplit ▸ List.mem_append_left _ hmem)
  unfold WString.indexOf
  split
  · rfl
  · rw [List.drop_zero, List.findIdx?_eq_none_iff.mpr (fun c hc => by
      simp only [beq_eq_false_iff_ne]
      rintro rfl
      exact hcstr hc)]

/-- **The lines up to where the loops stop.** -/
theorem Sendable.exists_stop (h : Sendable fields) :
    ∃ last rest, headerLines fields = (seen fields).map fieldLine ++ last :: rest ∧
      (last.equalsC [] = true ∨ WString.indexOf last 0x3A 0 = -1) := by
  have hsplit : fields = seen fields ++ fields.dropWhile (fun f => 0 ∉ f.key) :=
    (List.takeWhile_append_dropWhile).symm
  cases hrest : fields.dropWhile (fun f => 0 ∉ f.key) with
  | nil =>
    refine ⟨[], [], ?_, Or.inl rfl⟩
    rw [hrest, List.append_nil] at hsplit
    rw [← hsplit]
    rfl
  | cons g rest =>
    have hg : g ∈ fields := (List.dropWhile_suffix _).subset (hrest ▸ List.mem_cons_self)
    have h0 : 0 ∈ g.key := by
      have hhead :=
        List.head?_dropWhile_not (fun f : RequestArgument => decide (0 ∉ f.key)) fields
      rw [hrest] at hhead
      simpa using hhead
    refine ⟨fieldLine g, rest.map fieldLine ++ [[]], ?_,
      Or.inr (indexOf_of_nul (fun hc => (h.keys g hg _ hc).1 rfl) h0)⟩
    rw [hrest] at hsplit
    rw [headerLines]
    nth_rewrite 1 [hsplit]
    simp

/-- **The header is read**, whichever loop reads it. -/
theorem Sendable.headerLoop {σ : Type} (h : Sendable fields) (handle : σ → WString → σ)
    (st : σ) {l : Link}
    {body : List UInt8} (hl : l.Prompt)
    (hp : l.pending = sendLines (headerLines fields) ++ body) :
    ∃ l', (Fueled.loop (fun t => pure (headerTurn handle t)) (st, l)).Yields
      (((seen fields).map fieldLine).foldl handle st, l') := by
  obtain ⟨last, rest, hlines, hlast⟩ := h.exists_stop
  have hcr := h.lines_cr
  rw [hlines, show (seen fields).map fieldLine ++ last :: rest
    = ((seen fields).map fieldLine ++ [last]) ++ rest by simp] at hp hcr
  have hsplit : l.pending = sendLines ((seen fields).map fieldLine ++ [last]) ++
      (sendLines rest ++ body) := by
    rw [hp, sendLines, List.flatMap_append, List.append_assoc]
    rfl
  obtain ⟨l', hreads, -⟩ := readsLines_of_prompt hl hsplit
    (fun x hx => hcr x (List.mem_append_left _ hx))
  refine ⟨l', headerLoop_stops st hreads (fun x hx => ?_) hlast⟩
  obtain ⟨f, hf, rfl⟩ := List.mem_map.mp hx
  exact (h.legible f hf).line_plain

/-! ## What a request leaves of its header -/

/-- **A request is to be read**: its first line, its header and whatever
follows, on a connection that does not let a read time out. -/
structure ToBeRead (method target version : WString) (fields : List RequestArgument)
    (l : Link) : Prop where
  short : method.length + target.length + 2 < 2 ^ 32
  prompt : l.Prompt
  pending : ∃ body, l.pending
    = sendLines ((method ++ 0x20 :: (target ++ 0x20 :: version)) :: headerLines fields) ++ body
  method : ∀ c ∈ method, c ≠ 0x20 ∧ c ≠ 0x0D ∧ c ≠ 0
  target : ∀ c ∈ target, c ≠ 0x20 ∧ c ≠ 0x0D ∧ c ≠ 0
  version : 0x0D ∉ version
  fields : Sendable fields

/-- The server with the values of the last request forgotten. -/
def resetHeaders (s : ESP31BWebServer) : ESP31BWebServer :=
  { s with currentHeaders := s.currentHeaders.map (fun a => ⟨a.key, []⟩) }

variable {method target version : WString} {l : Link}

/-- **The first line is read**, and what is behind it is left to one of the
loops. -/
theorem ToBeRead.parseRequest_eq (h : ToBeRead method target version fields l)
    (stack : StackMemory)
    (s : ESP31BWebServer) :
    ∃ l₁ body, l₁.Prompt ∧ l₁.pending = sendLines (headerLines fields) ++ body ∧
      parseRequest stack s l =
        if readsBody (methodOf method) then
          parseBody stack (s.resetHeaders.startRequest method target) (splitSearch target).1 l₁
        else parsePlain (s.resetHeaders.startRequest method target)
          (splitSearch target).1 l₁ := by
  obtain ⟨body, hp⟩ := h.pending
  have hsend : sendLines ((method ++ 0x20 :: (target ++ 0x20 :: version)) :: headerLines fields)
      = (method ++ 0x20 :: (target ++ 0x20 :: version)) ++
        0x0D :: 0x0A :: sendLines (headerLines fields) := by
    simp [sendLines]
  have hcr : 0x0D ∉ method ++ 0x20 :: (target ++ 0x20 :: version) := by
    have hm : 0x0D ∉ method := fun hc => (h.method _ hc).2.1 rfl
    have ht : 0x0D ∉ target := fun hc => (h.target _ hc).2.1 rfl
    simp [hm, ht, h.version]
  rw [hsend, List.append_assoc, List.cons_append, List.cons_append] at hp
  obtain ⟨l₁, hread, htook⟩ := readLine_eq h.prompt hp hcr
  obtain ⟨addrStart, addrEnd, hstart, hend, hmethod, htarget⟩ := requestLine_cut version
    (fun c hc => ⟨(h.method c hc).1, (h.method c hc).2.2⟩)
    (fun c hc => ⟨(h.target c hc).1, (h.target c hc).2.2⟩) h.short
  refine ⟨l₁, body, htook.prompt h.prompt, ?_, ?_⟩
  · rw [htook.pending, hp, List.drop_append]
    simp
  · unfold parseRequest
    rw [hread]
    dsimp only
    rw [hstart, hend, if_neg (by omega), hmethod, htarget]
    rfl

/-- **What the other methods leave.** -/
theorem ToBeRead.parsePlain_yields (h : ToBeRead method target version fields l)
    (stack : StackMemory)
    (s : ESP31BWebServer) (hmethod : readsBody (methodOf method) = false) :
    ∃ l', (parseRequest stack s l).Yields
      (true, { (seen fields).foldl (takeField (List.drop 1))
        (s.resetHeaders.startRequest method target) with
        currentArgs := parseArguments (splitSearch target).1 }, l') := by
  obtain ⟨l₁, body, hprompt, hp, heq⟩ := h.parseRequest_eq stack s
  obtain ⟨l₂, hloop⟩ := h.fields.headerLoop plainHeader
    (s.resetHeaders.startRequest method target) hprompt hp
  rw [foldl_plainHeader h.fields.legible] at hloop
  rw [heq, hmethod]
  exact ⟨l₂.flush, hloop.bind (Fueled.yields_pure _)⟩

/-- A part of a form has nothing to do with the header. -/
theorem formTurnOn_sameRequest {found : UploadState → List UInt8 → Bool}
    {left : UploadState → List UInt8} {b : WString} (form : FormState)
    (h : SameRequest s form.server) :
    (formTurnOn found left b form).Gives fun r =>
      r.elim (fun g => SameRequest s g.server)
        (fun r => ∀ a ∈ r, SameRequest s a.2.server) := by
  unfold formTurnOn
  dsimp only
  refine .ite (Fueled.gives_pure h) ?_
  split
  · refine Fueled.gives_bind _ fun _ => ?_
    split
    · exact Fueled.gives_pure fun a ha => nomatch ha
    · rename_i g hadd
      have hserver := FormState.server_of_addArg hadd
      have hg : SameRequest s g.server := hserver ▸ h
      refine Fueled.gives_pure ?_
      split
      · rintro a ⟨⟩
        exact hg
      · exact hg
  · refine (uploadFileOn_sameRequest found left _ _ _ _ _).bind fun r hr => ?_
    refine .ite (Fueled.gives_pure ?_) (Fueled.gives_pure ?_)
    · rintro a ⟨⟩
      exact h.trans hr
    · split
      · rintro a ⟨⟩
        exact h.trans hr
      · exact h.trans hr

/-- **A form leaves the header alone.** -/
theorem parseFormOn_sameRequest {found : UploadState → List UInt8 → Bool}
    {left : UploadState → List UInt8} {b : WString} (s : ESP31BWebServer) (l : Link) :
    (parseFormOn found left b s l).Gives fun r =>
      ∃ args, SameRequest { s with currentArgs := args } r.2.1 := by
  refine Fueled.Gives.bind (P := fun r => ∀ a ∈ r, ∃ args,
    SameRequest { s with currentArgs := args } a.2.1) ?_ fun r hr => gives_insideArray hr
  unfold parseFormArrayOn
  dsimp only
  refine .ite ?_ (Fueled.gives_pure ?_)
  · refine (Fueled.gives_loop formTurnOn_sameRequest (SameRequest.refl s)).bind fun r hr => ?_
    split
    · exact Fueled.gives_pure fun a ha => nomatch ha
    · rename_i ok f
      obtain ⟨uploads, upload, heq⟩ := hr (ok, f) rfl
      dsimp only at heq
      refine .ite (Fueled.gives_pure ?_) ?_
      · rintro a ⟨⟩
        exact ⟨s.currentArgs, uploads, upload, heq⟩
      · split
        · exact Fueled.gives_pure fun a ha => nomatch ha
        · rename_i g hmerge
          refine Fueled.gives_pure ?_
          rintro a ⟨⟩
          refine ⟨(g.postArgs.take g.postArgsLen).map RequestArgument.copied,
            uploads, upload, ?_⟩
          dsimp only
          rw [FormState.server_of_mergeArgs hmerge, heq]
  · rintro a ⟨⟩
    exact ⟨s.currentArgs, SameRequest.refl s⟩

/-- What the methods with a body do behind the header. -/
def bodyRest (stack : StackMemory) (searchStr : WString) (scan : HeaderScan) (l : Link) :
    Fueled (Bool × ESP31BWebServer × Link) :=
  if scan.isForm then do
    let (ok, s, l) ← parseForm scan.boundaryStr stack
      { scan.server with currentArgs := parseArguments searchStr } l
    return (ok, s, if ok then l.flush else l)
  else
    let searchStr := if !searchStr.equalsC [] then searchStr ++ [0x26] else searchStr
    return (true, { scan.server with
      currentArgs := parseArguments (searchStr ++ plainArguments (readPlain l).1) },
        (readPlain l).2.flush)

theorem parseBody_eq (stack : StackMemory) (s : ESP31BWebServer) (searchStr : WString)
    (l : Link) :
    parseBody stack s searchStr l =
      Fueled.loop (fun t => pure (headerTurn bodyHeader t)) (⟨s, [], false⟩, l) >>=
        fun r => bodyRest stack searchStr r.1 r.2 := rfl

/-- It leaves the header alone. -/
theorem bodyRest_sameRequest (stack : StackMemory) (searchStr : WString)
    (scan : HeaderScan) (l : Link) :
    (bodyRest stack searchStr scan l).Gives fun r =>
      ∃ args, SameRequest { scan.server with currentArgs := args } r.2.1 := by
  unfold bodyRest
  refine .ite ?_ (Fueled.gives_pure ⟨_, SameRequest.refl _⟩)
  refine (parseFormOn_sameRequest _ _).bind fun r hr => Fueled.gives_pure ?_
  obtain ⟨args, hr⟩ := hr
  exact ⟨args, hr⟩

/-- **What the methods with a body leave** of the header, if they return. -/
theorem ToBeRead.parseBody_leaves (h : ToBeRead method target version fields l)
    {stack : StackMemory}
    {s t : ESP31BWebServer} {ok : Bool} {l' : Link}
    (hmethod : readsBody (methodOf method) = true)
    (hrun : (parseRequest stack s l).Yields (ok, t, l')) :
    ∃ args, SameRequest { (seen fields).foldl (takeField WString.trim)
      (s.resetHeaders.startRequest method target) with currentArgs := args } t := by
  obtain ⟨l₁, body, hprompt, hp, heq⟩ := h.parseRequest_eq stack s
  obtain ⟨l₂, hloop⟩ := h.fields.headerLoop bodyHeader
    ⟨s.resetHeaders.startRequest method target, [], false⟩ hprompt hp
  rw [heq, if_pos hmethod, parseBody_eq] at hrun
  rw [← foldl_bodyHeader h.fields.legible ⟨s.resetHeaders.startRequest method target,
    [], false⟩]
  exact (bodyRest_sameRequest _ _ _ _).of_yields (hrun.of_bind hloop)

/-! ## Both loops -/

/-- **A value that both loops cut alike**: nothing, or one blank and a text
without blanks at its ends. -/
def SamelyCut (value : WString) : Prop :=
  value = [] ∨ ∃ c text, value = c :: text ∧ isspace c = true ∧ WString.trim text = text

/-- A text that is one byte shorter and starts alike has only that byte. -/
theorem eq_of_concat_eq_cons {c d : UInt8} {text : WString} (h : text ++ [d] = c :: text) :
    d = c := by
  induction text generalizing c with
  | nil => simpa using h
  | cons x text ih =>
    obtain ⟨rfl, htail⟩ := List.cons.inj h
    exact ih htail

/-- What is trimmed off behind is not what is cut off in front. -/
theorem trim_ne_tail {c : UInt8} (hc : isspace c = false) (text : WString) :
    WString.trim (c :: text) ≠ text := by
  intro htrim
  unfold WString.trim at htrim
  rw [List.dropWhile_cons_of_neg (by simp [hc])] at htrim
  obtain ⟨u, hu⟩ := htrim ▸ List.rdropWhile_prefix isspace (c :: text)
  obtain ⟨d, rfl⟩ : ∃ d, u = [d] := List.length_eq_one_iff.mp (by
    have hlen := congrArg List.length hu
    simp at hlen
    omega)
  rw [← hu, List.rdropWhile_concat, eq_of_concat_eq_cons hu, hc, if_neg (by decide)] at htrim
  simpa using congrArg List.length htrim

theorem samelyCut_iff (value : WString) :
    WString.trim value = value.drop 1 ↔ SamelyCut value := by
  cases value with
  | nil => exact iff_of_true rfl (Or.inl rfl)
  | cons c text =>
    have hcons : SamelyCut (c :: text) ↔ isspace c = true ∧ WString.trim text = text := by
      constructor
      · rintro (h | ⟨d, u, h, hspace, htrim⟩)
        · cases h
        · obtain ⟨rfl, rfl⟩ := List.cons.inj h
          exact ⟨hspace, htrim⟩
      · rintro ⟨hspace, htrim⟩
        exact Or.inr ⟨c, text, rfl, hspace, htrim⟩
    rw [hcons, List.drop_one, List.tail_cons]
    by_cases hspace : isspace c = true
    · have htrim : WString.trim (c :: text) = WString.trim text := by
        unfold WString.trim
        rw [List.dropWhile_cons_of_pos hspace]
      rw [htrim, hspace]
      simp
    · exact iff_of_false (trim_ne_tail (by simpa using hspace) text) (fun h => hspace h.1)

/-- Cutting the values does not change which line is the last. -/
theorem lastValue_cutValues (cut : WString → WString) (fields : List RequestArgument)
    (name : WString) :
    Collected.lastValue id (cutValues cut fields) name
      = (Collected.lastValue id fields name).map cut := by
  unfold Collected.lastValue cutValues
  rw [← List.map_reverse, List.find?_map, Option.map_map, Option.map_map]
  rfl

theorem cutValues_keys (cut : WString → WString) (fields : List RequestArgument) :
    (cutValues cut fields).map RequestArgument.key = fields.map RequestArgument.key := by
  unfold cutValues
  rw [List.map_map]
  rfl

/-- The two cuts of a value that is there. -/
theorem map_cut_eq_iff (value : Option WString) :
    value.map (List.drop 1) = value.map WString.trim ↔ ∀ v ∈ value, SamelyCut v := by
  cases value with
  | none => simp
  | some v =>
    rw [Option.map_some, Option.map_some, Option.some.injEq, eq_comm, samelyCut_iff]
    simp

/-- **The names whose lines matter**: the keys to be collected, and `Host`. -/
def Watched (s : ESP31BWebServer) (name : WString) : Prop :=
  name ∈ s.currentHeaders.map RequestArgument.key ∨ name = ascii "Host"

/-- **Both loops leave the same** of these fields. -/
theorem foldl_takeField_agree_iff (h : s.PlainKeys) (s' : ESP31BWebServer)
    (hheaders : s'.currentHeaders = s.currentHeaders) (hhost : s'.hostHeader = s.hostHeader)
    (fields : List RequestArgument) :
    ((fields.foldl (takeField (List.drop 1)) s).currentHeaders
        = (fields.foldl (takeField WString.trim) s').currentHeaders ∧
      (fields.foldl (takeField (List.drop 1)) s).hostHeader
        = (fields.foldl (takeField WString.trim) s').hostHeader) ↔
      ∀ name, s.Watched name → ∀ v ∈ Collected.lastValue id fields name, SamelyCut v := by
  have h' : s'.PlainKeys := fun a ha => h a (hheaders ▸ ha)
  rw [foldl_takeField _ h, foldl_takeField _ h']
  dsimp only
  rw [hheaders, hhost, Collected.collect_eq_iff (by rw [cutValues_keys, cutValues_keys])]
  simp only [lastValue_cutValues, map_cut_eq_iff]
  have hgetD :
      ((Collected.lastValue id fields (ascii "Host")).map (List.drop 1)).getD s.hostHeader
      = ((Collected.lastValue id fields (ascii "Host")).map WString.trim).getD s.hostHeader ↔
      ∀ v ∈ Collected.lastValue id fields (ascii "Host"), SamelyCut v := by
    rw [← map_cut_eq_iff]
    cases Collected.lastValue id fields (ascii "Host") <;> simp
  rw [hgetD]
  constructor
  · rintro ⟨hkeys, hhost⟩ name (hname | rfl)
    · obtain ⟨a, ha, rfl⟩ := List.mem_map.mp hname
      exact hkeys a ha
    · exact hhost
  · intro hall
    exact ⟨fun a ha => hall a.key (Or.inl (List.mem_map_of_mem ha)), hall _ (Or.inr rfl)⟩

/-- The methods of the first loop. -/
def bodyMethods : List WString := [ascii "POST", ascii "PUT", ascii "PATCH", ascii "DELETE"]

/-- The methods of the second. -/
def plainMethods : List WString := [ascii "GET", ascii "OPTIONS"]

/-- **When a header does not depend on the method.** The same header lines,
once with a method of each kind, leave the same collected values and the same
`hostHeader` exactly if the last line of every name that is watched has a
value that both loops cut alike. -/
theorem headersAgree_iff {method₁ method₂ : WString} {stack : StackMemory}
    {s t₁ t₂ : ESP31BWebServer} {l₁ l₂ l₁' l₂' : Link}
    {ok₁ ok₂ : Bool} (hmethod₁ : method₁ ∈ plainMethods) (hmethod₂ : method₂ ∈ bodyMethods)
    (h₁ : ToBeRead method₁ target version fields l₁)
    (h₂ : ToBeRead method₂ target version fields l₂)
    (hkeys : s.PlainKeys) (hrun₁ : (parseRequest stack s l₁).Yields (ok₁, t₁, l₁'))
    (hrun₂ : (parseRequest stack s l₂).Yields (ok₂, t₂, l₂')) :
    (t₁.currentHeaders = t₂.currentHeaders ∧ t₁.hostHeader = t₂.hostHeader) ↔
      ∀ name, s.Watched name → ∀ v ∈ Collected.lastValue id (seen fields) name,
        SamelyCut v := by
  have hplain : readsBody (methodOf method₁) = false :=
    (by decide : ∀ m ∈ plainMethods, readsBody (methodOf m) = false) method₁ hmethod₁
  have hbody : readsBody (methodOf method₂) = true :=
    (by decide : ∀ m ∈ bodyMethods, readsBody (methodOf m) = true) method₂ hmethod₂
  obtain ⟨l', hyields⟩ := h₁.parsePlain_yields stack s hplain
  obtain ⟨-, rfl, -⟩ : _ ∧ t₁ = _ ∧ _ := by simpa using hrun₁.unique hyields
  obtain ⟨args, uploads, upload, rfl⟩ := h₂.parseBody_leaves hbody hrun₂
  have hreset : (s.resetHeaders.startRequest method₁ target).PlainKeys := by
    intro a ha
    obtain ⟨b, hb, rfl⟩ := List.mem_map.mp ha
    exact hkeys b hb
  have hwatched : ∀ name, (s.resetHeaders.startRequest method₁ target).Watched name ↔
      s.Watched name := by
    intro name
    unfold Watched
    rw [show (s.resetHeaders.startRequest method₁ target).currentHeaders.map RequestArgument.key
      = s.currentHeaders.map RequestArgument.key from by
        rw [startRequest, resetHeaders, List.map_map]
        rfl]
  rw [← forall_congr' (fun name => imp_congr_left (hwatched name))]
  exact foldl_takeField_agree_iff hreset (s.resetHeaders.startRequest method₂ target)
    rfl rfl (seen fields)

/-- A server that collects `X`. -/
def collectsX : ESP31BWebServer := (init []).collectHeaders [ascii "X"]

/-- A request with one field. -/
def xRequest (method value : WString) : HttpRequest :=
  ⟨method, ascii "/", ascii "HTTP/1.1", [⟨ascii "X", value⟩], []⟩

theorem xRequest_toBeRead {method value : WString}
    (hmethod : method ∈ plainMethods ++ bodyMethods) (hvalue : ∀ c ∈ value, c ≠ 0x0D ∧ c ≠ 0) :
    ToBeRead method (ascii "/") (ascii "HTTP/1.1") [⟨ascii "X", value⟩]
      (arrived (xRequest method value).bytes) where
  short :=
    (by decide : ∀ m ∈ plainMethods ++ bodyMethods, m.length + 1 + 2 < 2 ^ 32) method hmethod
  prompt :=
    ⟨Nat.succ_pos 999, fun i _ => by rw [Link.waitAt_of_sched_nil rfl]; exact Nat.succ_pos 999⟩
  pending := ⟨[], by
    simp [arrived, Link.pending, bytes, HttpRequest.lines, requestLine, headerLines, xRequest]⟩
  method := (by decide : ∀ m ∈ plainMethods ++ bodyMethods,
    ∀ c ∈ m, c ≠ 0x20 ∧ c ≠ 0x0D ∧ c ≠ 0) method hmethod
  target := by decide
  version := by decide
  fields :=
    ⟨fun f hf => by rw [List.mem_singleton.mp hf]; dsimp only; decide,
      fun f hf => by rw [List.mem_singleton.mp hf]; exact hvalue,
      fun f hf => by rw [List.mem_singleton.mp hf]; dsimp only; decide⟩

/-- What the server makes of it. -/
theorem xRequest_yields (method : WString) {value : WString}
    (hmethod : method ∈ plainMethods ++ bodyMethods)
    (hvalue : ∀ c ∈ value, c ≠ 0x0D ∧ c ≠ 0) (hshort : value.length < 100) :
    ∃ args l', (parseRequest zeroStack collectsX (arrived (xRequest method value).bytes)).Yields
      (true, { (xRequest method value).scanned collectsX with currentArgs := args }, l') := by
  have hread := xRequest_toBeRead hmethod hvalue
  have hlen : method.length < 100 :=
    (by decide : ∀ m ∈ plainMethods ++ bodyMethods, m.length < 100) method hmethod
  have hq : (xRequest method value).WellFormed := {
    method := hread.method
    target := hread.target
    version := hread.version
    keys := fun f hf => by
      rw [List.mem_singleton.mp hf]
      dsimp only
      decide
    values := fun f hf => by
      rw [List.mem_singleton.mp hf]
      exact hvalue
    notForm := fun f hf => by
      rw [List.mem_singleton.mp hf]
      exact fun heq => absurd heq (by dsimp only; decide)
    short := by
      have hconst : (ascii "/").length = 1 ∧ (ascii "HTTP/1.1").length = 8 ∧
          (ascii "X").length = 1 := by
        decide
      simp [bytes, HttpRequest.lines, requestLine, fieldLine, xRequest, sendLines, hconst]
      omega }
  obtain ⟨l', hreads, -⟩ := readsLines_of_prompt hread.prompt
    (show (arrived (xRequest method value).bytes).pending =
      sendLines (xRequest method value).lines ++ [] by
      simp [arrived, Link.pending, bytes, xRequest])
    hq.lines_cr
  obtain ⟨l'', hyields⟩ := hq.parseRequest_yields zeroStack collectsX hreads
  exact ⟨_, l'', hyields⟩

theorem collectsX_plainKeys : collectsX.PlainKeys := by
  unfold PlainKeys
  decide

/-- `X: a` is read alike. -/
theorem headersAgree_blank : ∃ t₁ t₂ ok₁ ok₂ l₁ l₂,
    (parseRequest zeroStack collectsX
      (arrived (xRequest (ascii "GET") (ascii " a")).bytes)).Yields
      (ok₁, t₁, l₁) ∧
    (parseRequest zeroStack collectsX
      (arrived (xRequest (ascii "POST") (ascii " a")).bytes)).Yields
      (ok₂, t₂, l₂) ∧
    t₁.currentHeaders = t₂.currentHeaders ∧ t₁.hostHeader = t₂.hostHeader := by
  have hvalue : ∀ c ∈ ascii " a", c ≠ 0x0D ∧ c ≠ 0 := by decide
  obtain ⟨args₁, l₁, h₁⟩ := xRequest_yields (ascii "GET") (by decide) hvalue (by decide)
  obtain ⟨args₂, l₂, h₂⟩ := xRequest_yields (ascii "POST") (by decide) hvalue (by decide)
  refine ⟨_, _, _, _, _, _, h₁, h₂, (headersAgree_iff (by decide) (by decide)
    (xRequest_toBeRead (by decide) hvalue) (xRequest_toBeRead (by decide) hvalue)
    collectsX_plainKeys h₁ h₂).mpr ?_⟩
  rintro name - v hv
  by_cases hname : name = ascii "X"
  · subst hname
    obtain rfl : ascii " a" = v := by simpa [Collected.lastValue, seen, ascii] using hv
    exact (samelyCut_iff _).mp (by decide)
  · have hnone : Collected.lastValue id (seen [⟨ascii "X", ascii " a"⟩]) name = none := by
      rw [← Option.not_isSome_iff_eq_none, Collected.lastValue_isSome]
      rintro ⟨f, hf, hkey⟩
      rw [List.mem_singleton.mp ((List.takeWhile_prefix _).subset hf)] at hkey
      exact hname hkey.symm
    rw [hnone] at hv
    cases hv

/-- **`X:a` is `a` with `POST` and nothing with `GET`.** -/
theorem not_headersAgree : ¬ ∀ (method₁ method₂ target version : WString) (stack : StackMemory)
    (fields : List RequestArgument) (s t₁ t₂ : ESP31BWebServer) (l₁ l₂ l₁' l₂' : Link)
    (ok₁ ok₂ : Bool),
    method₁ ∈ plainMethods → method₂ ∈ bodyMethods → ToBeRead method₁ target version fields l₁ →
    ToBeRead method₂ target version fields l₂ → s.PlainKeys →
    (parseRequest stack s l₁).Yields (ok₁, t₁, l₁') → (parseRequest stack s l₂).Yields
    (ok₂, t₂, l₂') →
    t₁.currentHeaders = t₂.currentHeaders ∧ t₁.hostHeader = t₂.hostHeader := by
  intro hall
  have hvalue : ∀ c ∈ ascii "a", c ≠ 0x0D ∧ c ≠ 0 := by decide
  obtain ⟨args₁, l₁, h₁⟩ := xRequest_yields (ascii "GET") (by decide) hvalue (by decide)
  obtain ⟨args₂, l₂, h₂⟩ := xRequest_yields (ascii "POST") (by decide) hvalue (by decide)
  have hsame := hall _ _ _ _ _ _ _ _ _ _ _ _ _ _ _ (by decide) (by decide)
    (xRequest_toBeRead (by decide) hvalue) (xRequest_toBeRead (by decide) hvalue)
    collectsX_plainKeys h₁ h₂
  exact absurd hsame.1 (by dsimp only; decide)

end ESP31BWebServer
