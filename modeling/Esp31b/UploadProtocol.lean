import Esp31b.ParseRequest

/-!
# What an upload handler sees

An upload handler keeps a file open from one call to the next, so it relies
on their order: one call with `fileStart`, then the contents in `fileWrite`
calls, then one with `fileEnd` – or one with `fileAborted`, and then nothing
more of this request. It also relies on the sizes: only the last buffer
before `fileEnd` may be short, and `totalSize` is what came before.

The calls are made from several places, most of them inside
`_uploadWriteByte`, which flushes the buffer before it stores a byte. What
keeps them in order is one invariant of the automaton, `Filling`: what the
handler has seen of this file is a start and full buffers, and what it has
not seen is in the buffer. `uploadTurnOn_cases` says what a turn can do to
the server, so the invariant is shown for three operations and not for the
branches of the automaton.

Nothing is assumed of the bytes, of the moment the peer goes away or of what
`strstr` finds on the stack.
-/

namespace ESP31BWebServer

/-! ## The protocol -/

/-- The bytes of the `fileWrite` calls. -/
def written (calls : List HTTPUpload) : ℕ :=
  ((calls.filter (fun u => u.status = .fileWrite)).map (fun u => u.buf.length)).sum

/-- **The sizes are right**: no call has more than a buffer, and its
`totalSize` is what was written before it. -/
def Accounted (calls : List HTTPUpload) : Prop :=
  ∀ before u after, calls = before ++ u :: after →
    u.buf.length ≤ httpUploadBuflen ∧ u.totalSize = UInt32.ofNat (written before)

/-- A `fileStart` call and `fileWrite` calls with a full buffer. -/
def Started (calls : List HTTPUpload) : Prop :=
  ∃ start writes, calls = start :: writes ∧ start.status = .fileStart ∧
    ∀ u ∈ writes, u.status = .fileWrite ∧ u.buf.length = httpUploadBuflen

/-- **A file that is being read.** -/
structure Running (calls : List HTTPUpload) : Prop where
  started : Started calls
  accounted : Accounted calls

/-- **A file that was read**: start, full buffers, one more buffer, end. -/
structure Finished (calls : List HTTPUpload) : Prop where
  order : ∃ started last u, calls = started ++ [last, u] ∧ Started started ∧
    last.status = .fileWrite ∧ u.status = .fileEnd
  accounted : Accounted calls

/-- **A file that was cut off**: start, full buffers, abort. -/
structure Aborted (calls : List HTTPUpload) : Prop where
  order : ∃ started u, calls = started ++ [u] ∧ Started started ∧ u.status = .fileAborted
  accounted : Accounted calls

/-- **The calls since `base`** are those of files that were read, and then
some more. -/
def Calls (base : List HTTPUpload) (Last : List HTTPUpload → Prop) (s : ESP31BWebServer) :
    Prop :=
  ∃ files : List (List HTTPUpload), ∃ last, s.uploads = base ++ files.flatten ++ last ∧
    (∀ f ∈ files, Finished f) ∧ Last last

/-- Where `_uploadWriteByte` stores its byte. -/
def storeIndex (s : ESP31BWebServer) : ℕ :=
  if s.currentUpload.buf.length = httpUploadBuflen then 0 else s.currentUpload.buf.length

/-- The byte is there, and nothing is behind it. -/
theorem uploadWriteByte_buf (s : ESP31BWebServer) (b : UInt8) :
    (s.uploadWriteByte b).currentUpload.buf = s.currentUpload.buf.take s.storeIndex ++ [b] := by
  unfold uploadWriteByte storeIndex
  split
  · rfl
  · rw [List.take_length]
    rfl

section Protocol

variable {calls : List HTTPUpload} {u : HTTPUpload}

theorem written_append (as bs : List HTTPUpload) :
    written (as ++ bs) = written as + written bs := by
  simp [written, List.filter_append, List.map_append, List.sum_append]

theorem written_of_write (hu : u.status = .fileWrite) : written [u] = u.buf.length := by
  simp [written, hu]

/-- One call more. -/
theorem Accounted.concat (h : Accounted calls) (hsize : u.buf.length ≤ httpUploadBuflen)
    (htotal : u.totalSize = UInt32.ofNat (written calls)) : Accounted (calls ++ [u]) := by
  intro before v after heq
  rcases List.eq_nil_or_concat after with rfl | ⟨after, w, rfl⟩
  · obtain ⟨rfl, hv⟩ := List.append_inj' heq rfl
    obtain rfl : u = v := by simpa using hv
    exact ⟨hsize, htotal⟩
  · have hlast : calls ++ [u] = (before ++ v :: after) ++ [w] := by
      rw [heq]
      simp
    exact h before v after (List.append_inj' hlast rfl).1

theorem Started.concat (h : Started calls) (hstatus : u.status = .fileWrite)
    (hfull : u.buf.length = httpUploadBuflen) : Started (calls ++ [u]) := by
  obtain ⟨start, writes, rfl, hstart, hwrites⟩ := h
  refine ⟨start, writes ++ [u], rfl, hstart, fun v hv => ?_⟩
  rcases List.mem_append.mp hv with hv | hv
  · exact hwrites v hv
  · rw [List.mem_singleton.mp hv]
    exact ⟨hstatus, hfull⟩

end Protocol

/-! ## The invariant -/

/-- The handler takes uploads. -/
def TakesUploads (s : ESP31BWebServer) : Prop :=
  ∃ h, s.currentHandler = some h ∧ h.canUpload s.currentUri = true

/-- **A file is being read**: the calls since `base` are a start and full
buffers, and what is left is in the buffer. -/
structure Filling (base : List HTTPUpload) (s : ESP31BWebServer) : Prop where
  takes : s.TakesUploads
  status : s.currentUpload.status = .fileWrite
  size : s.currentUpload.buf.length ≤ httpUploadBuflen
  calls : ∃ calls, s.uploads = base ++ calls ∧ Running calls ∧
    s.currentUpload.totalSize = UInt32.ofNat (written calls)

variable {base : List HTTPUpload} {s : ESP31BWebServer}

theorem TakesUploads.callUpload_eq (h : s.TakesUploads) :
    s.callUpload = { s with uploads := s.uploads ++ [s.currentUpload] } := by
  obtain ⟨hd, hhandler, hcan⟩ := h
  simp [callUpload, hhandler, hcan]

/-- The first call. -/
theorem TakesUploads.filling (h : s.TakesUploads) (name filename type : List UInt8) :
    Filling s.uploads (s.uploadStart name filename type) := by
  set start : HTTPUpload := ⟨.fileStart, filename, name, type, 0, []⟩ with hstart
  have htakes : TakesUploads { s with currentUpload := start } := h
  have heq : s.uploadStart name filename type
      = { s with
          uploads := s.uploads ++ [start]
          currentUpload := { start with status := .fileWrite } } := by
    rw [uploadStart, htakes.callUpload_eq]
    rfl
  rw [heq]
  refine ⟨h, rfl, Nat.zero_le _, [start], rfl, ⟨⟨start, [], rfl, rfl, by simp⟩, ?_⟩, rfl⟩
  have hnone : Accounted [] := fun before v after heq => by simp at heq
  exact hnone.concat (Nat.zero_le _) rfl

theorem Filling.store (h : Filling base s) (b : UInt8)
    (hlt : s.currentUpload.buf.length < httpUploadBuflen) :
    Filling base (s.setBuf (s.currentUpload.buf ++ [b])) :=
  ⟨h.takes, h.status, by simpa [setBuf] using Nat.succ_le_of_lt hlt, h.calls⟩

/-- A full buffer goes to the handler. -/
theorem Filling.flush (h : Filling base s)
    (hfull : s.currentUpload.buf.length = httpUploadBuflen) :
    Filling base (s.callUpload.addCurrentSize.setBuf []) := by
  obtain ⟨calls, hcalls, hrunning, htotal⟩ := h.calls
  rw [h.takes.callUpload_eq]
  refine ⟨h.takes, h.status, Nat.zero_le _, calls ++ [s.currentUpload], ?_,
    ⟨hrunning.started.concat h.status hfull, hrunning.accounted.concat h.size htotal⟩, ?_⟩
  · simp [addCurrentSize, setBuf, hcalls]
  · rw [written_append, written_of_write h.status, UInt32.ofNat_add, ← htotal]
    rfl

/-- **One byte more.** -/
theorem Filling.write (h : Filling base s) (b : UInt8) :
    Filling base (s.uploadWriteByte b) := by
  unfold uploadWriteByte
  split
  · rename_i hfull
    exact (h.flush hfull).store b (by simp [setBuf, httpUploadBuflen])
  · rename_i hnot
    exact h.store b (lt_of_le_of_ne h.size hnot)

theorem Filling.writes (h : Filling base s) (bs : List UInt8) :
    Filling base (s.uploadWriteBytes bs) := by
  unfold uploadWriteBytes
  induction bs generalizing s with
  | nil => exact h
  | cons b bs ih => exact ih (h.write b)

/-- A byte is stored inside the buffer. -/
theorem Filling.storeIndex_lt (h : Filling base s) : s.storeIndex < httpUploadBuflen := by
  have hsize := h.size
  unfold storeIndex
  split
  · decide
  · omega

/-- The handler still takes uploads when it is told the end. -/
theorem Filling.takesUploads_status (h : Filling base s) :
    (s.callUpload.addCurrentSize.setStatus .fileEnd).TakesUploads := by
  rw [h.takes.callUpload_eq]
  exact h.takes

theorem Filling.takesUploads_uploadEnd (h : Filling base s) : s.uploadEnd.TakesUploads := by
  rw [uploadEnd, h.takesUploads_status.callUpload_eq]
  exact h.takesUploads_status

/-- **The last buffer and the end.** -/
theorem Filling.finished (h : Filling base s) :
    ∃ calls, s.uploadEnd.uploads = base ++ calls ∧ Finished calls := by
  obtain ⟨calls, hcalls, hrunning, htotal⟩ := h.calls
  set last := s.currentUpload with hlast
  set final : HTTPUpload := { last with
    status := .fileEnd, totalSize := last.totalSize + UInt32.ofNat last.buf.length } with hfinal
  have huploads : s.uploadEnd.uploads = base ++ (calls ++ [last, final]) := by
    rw [uploadEnd, h.takesUploads_status.callUpload_eq, h.takes.callUpload_eq]
    simp [addCurrentSize, setStatus, hcalls, hlast, hfinal]
  refine ⟨calls ++ [last, final], huploads,
    ⟨calls, last, final, rfl, hrunning.started, h.status, rfl⟩, ?_⟩
  rw [show calls ++ [last, final] = (calls ++ [last]) ++ [final] by simp]
  refine (hrunning.accounted.concat h.size htotal).concat h.size ?_
  rw [written_append, written_of_write h.status, UInt32.ofNat_add, ← htotal]

/-- **The abort.** -/
theorem Filling.aborted (h : Filling base s) :
    ∃ calls, s.parseFormUploadAborted.uploads = base ++ calls ∧ Aborted calls := by
  obtain ⟨calls, hcalls, hrunning, htotal⟩ := h.calls
  have htakes : (s.setStatus .fileAborted).TakesUploads := h.takes
  refine ⟨calls ++ [{ s.currentUpload with status := .fileAborted }], ?_,
    ⟨calls, _, rfl, hrunning.started, rfl⟩, hrunning.accounted.concat h.size htotal⟩
  rw [parseFormUploadAborted, htakes.callUpload_eq]
  simp [setStatus, hcalls]

/-! ## A file -/

section

variable {found : UploadState → List UInt8 → Bool} {left : UploadState →
  List UInt8} {b : WString}

/-- What an upload that is over leaves behind. -/
def UploadOver (base : List HTTPUpload) (r : UploadResult) : Prop :=
  if r.1 then r.2.1.TakesUploads ∧ ∃ calls, r.2.1.uploads = base ++ calls ∧ Finished calls
  else ∃ calls, r.2.1.uploads = base ++ calls ∧ Aborted calls

/-- **One turn.** -/
theorem uploadTurnOn_filling (u : UploadState) (h : Filling base u.server) :
    (uploadTurnOn found left b u).Gives fun r =>
      r.elim (fun u => Filling base u.server) (UploadOver base) := by
  intro n r hr
  obtain ⟨bs, link, c, rfl⟩ | ⟨link, rfl⟩ | ⟨link, rfl⟩ := uploadTurnOn_cases _ _ _ _ n r hr
  · exact h.writes bs
  · exact ⟨h.takesUploads_uploadEnd, h.finished⟩
  · exact h.aborted

/-- **One file**, whatever arrives. -/
theorem uploadFileOn_over (h : s.TakesUploads) (name filename type : List UInt8) (l : Link) :
    (uploadFileOn found left b name filename type s l).Gives (UploadOver s.uploads) :=
  Fueled.gives_bind _ fun _ =>
    Fueled.gives_loop uploadTurnOn_filling (h.filling name filename type)

/-! ## A form -/

/-- **Between two parts.** -/
structure Between (base : List HTTPUpload) (s : ESP31BWebServer) : Prop where
  takes : s.TakesUploads
  calls : Calls base (fun last => last = []) s

/-- What a form that is over leaves behind. -/
def FormOver (base : List HTTPUpload) (ok : Bool) (s : ESP31BWebServer) : Prop :=
  Calls base (fun last => last = [] ∨ Aborted last ∧ ok = false) s

theorem Between.formOver (h : Between base s) (ok : Bool) : FormOver base ok s := by
  obtain ⟨files, last, hcalls, hfiles, hlast⟩ := h.calls
  exact ⟨files, last, hcalls, hfiles, Or.inl hlast⟩

/-- A file more. -/
theorem Between.finished (h : Between base s) {t : ESP31BWebServer} (htakes : t.TakesUploads)
    (ht : ∃ calls, t.uploads = s.uploads ++ calls ∧ Finished calls) : Between base t := by
  obtain ⟨files, last, hcalls, hfiles, rfl⟩ := h.calls
  obtain ⟨calls, heq, hfinished⟩ := ht
  refine ⟨htakes, files ++ [calls], [], ?_, fun f hf => ?_, rfl⟩
  · rw [heq, hcalls]
    simp
  · rcases List.mem_append.mp hf with hf | hf
    · exact hfiles f hf
    · rw [List.mem_singleton.mp hf]
      exact hfinished

/-- **One part.** -/
theorem formTurnOn_between (f : FormState) (h : Between base f.server) :
    (formTurnOn found left b f).Gives fun r =>
      r.elim (fun f => Between base f.server)
        (fun r => ∀ a ∈ r, FormOver base a.1 a.2.server) := by
  unfold formTurnOn
  dsimp only
  refine .ite (Fueled.gives_pure h) ?_
  split
  · -- a field does not touch the upload
    refine Fueled.gives_bind _ fun _ => ?_
    split
    · exact Fueled.gives_pure fun a ha => nomatch ha
    · rename_i g hadd
      have hserver := FormState.server_of_addArg hadd
      have hg : Between base g.server := hserver ▸ h
      refine Fueled.gives_pure ?_
      split
      · rintro a ⟨⟩
        exact hg.formOver true
      · exact hg
  · refine (uploadFileOn_over h.takes _ _ _ _).bind fun r hr => ?_
    obtain ⟨ok, s, l⟩ := r
    cases ok with
    | false =>
      refine Fueled.gives_pure ?_
      obtain ⟨calls, heq, haborted⟩ := hr
      obtain ⟨files, last, hcalls, hfiles, rfl⟩ := h.calls
      rintro a ⟨⟩
      refine ⟨files, calls, ?_, hfiles, Or.inr ⟨haborted, rfl⟩⟩
      rw [heq, hcalls]
      simp
    | true =>
      have hbetween := h.finished hr.1 hr.2
      refine Fueled.gives_pure ?_
      dsimp only
      split
      · rintro a ⟨⟩
        exact hbetween.formOver true
      · exact hbetween

theorem TakesUploads.between (h : s.TakesUploads) : Between s.uploads s :=
  ⟨h, [], [], by simp, by simp, rfl⟩

/-- **One form.** -/
theorem parseFormOn_over (h : s.TakesUploads) (l : Link) :
    (parseFormOn found left b s l).Gives fun r => FormOver s.uploads r.1 r.2.1 := by
  refine Fueled.Gives.bind (P := fun r => ∀ a ∈ r, FormOver s.uploads a.1 a.2.1) ?_
    fun r hr => gives_insideArray hr
  unfold parseFormArrayOn
  dsimp only
  refine .ite ?_ (Fueled.gives_pure ?_)
  · refine (Fueled.gives_loop formTurnOn_between h.between).bind fun r hr => ?_
    split
    · exact Fueled.gives_pure fun a ha => nomatch ha
    · rename_i ok f
      have hover := hr (ok, f) rfl
      cases ok with
      | false =>
        refine Fueled.gives_pure ?_
        rintro a ⟨⟩
        exact hover
      | true =>
        rw [if_neg (by decide)]
        split
        · exact Fueled.gives_pure fun a ha => nomatch ha
        · rename_i g hmerge
          refine Fueled.gives_pure ?_
          rintro a ⟨⟩
          rw [← FormState.server_of_mergeArgs hmerge] at hover
          exact hover
  · rintro a ⟨⟩
    exact h.between.formOver false

/-- A header field has nothing to do with uploads. -/
theorem bodyHeader_server (h : HeaderScan) (req : WString) :
    ∃ headers host, (bodyHeader h req).server
      = { h.server with currentHeaders := headers, hostHeader := host } := by
  unfold bodyHeader collectHeader
  dsimp only
  split_ifs
  all_goals exact ⟨_, _, rfl⟩

/-- **One request**: the form is all of it that calls the handler. -/
theorem parseBodyOn_over {found : WString → UploadState → List UInt8 → Bool}
    (h : s.TakesUploads)
    (searchStr : WString) (l : Link) :
    (parseBodyOn found left s searchStr l).Gives fun r => FormOver s.uploads r.1 r.2.1 := by
  have hheader :
      (Fueled.loop (fun t => pure (headerTurn bodyHeader t)) (⟨s, [], false⟩, l)).Gives
      fun t => t.1.server.TakesUploads ∧ t.1.server.uploads = s.uploads := by
    refine Fueled.gives_loop (I := fun t : HeaderScan × Link =>
      t.1.server.TakesUploads ∧ t.1.server.uploads = s.uploads) (fun t ht => ?_) ⟨h, rfl⟩
    refine Fueled.gives_pure ?_
    unfold headerTurn
    dsimp only
    split_ifs
    · exact ht
    · exact ht
    · obtain ⟨headers, host, heq⟩ := bodyHeader_server t.1 (readLine t.2).1
      show (bodyHeader t.1 (readLine t.2).1).server.TakesUploads ∧ _
      rw [heq]
      exact ht
  refine hheader.bind fun t ht => ?_
  obtain ⟨htakes, huploads⟩ := ht
  rw [← huploads]
  refine .ite ?_ (Fueled.gives_pure (htakes.between.formOver true))
  have htakes' : TakesUploads { t.1.server with currentArgs := parseArguments searchStr } :=
    htakes
  exact (parseFormOn_over htakes' t.2).bind fun r hr => Fueled.gives_pure hr

/-- **The upload protocol.** Whatever the bytes are, whenever the peer goes
away and whatever the comparisons with the boundary find, the calls of a run
of `_parseForm` that has returned are those of files that were read and at
most one that was cut off. This one is the last; `_parseForm` then returns
`false`, and so does `_parseRequest`, with no further call. In a run that is
still reading a file, the calls are those of files that were read and of one
that has been started, and the next byte is stored inside the buffer. -/
theorem uploadProtocol (h : ∃ hd, s.currentHandler = some hd ∧ ∀ uri, hd.canUpload uri = true)
    (l : Link) :
    ((parseFormOn found left b s l).Gives fun r =>
      Calls s.uploads (fun last => last = [] ∨ Aborted last ∧ r.1 = false) r.2.1) ∧
    (∀ found' searchStr, (parseBodyOn found' left s searchStr l).Gives fun r =>
      Calls s.uploads (fun last => last = [] ∨ Aborted last ∧ r.1 = false) r.2.1) ∧
    ∀ l' f, Fueled.Steps (formTurnOn found left b) (FormState.start s l') f →
      Calls s.uploads (fun last => last = []) f.server ∧
      ∀ name filename type l'' c u,
        Fueled.Steps (uploadTurnOn found left b)
          ⟨f.server.uploadStart name filename type, l'', c⟩ u →
        ∀ bs, Calls s.uploads Running (u.server.uploadWriteBytes bs) ∧
          (u.server.uploadWriteBytes bs).storeIndex < httpUploadBuflen := by
  obtain ⟨hd, hhandler, hcan⟩ := h
  have htakes : s.TakesUploads := ⟨hd, hhandler, hcan _⟩
  refine ⟨parseFormOn_over htakes l, fun _ searchStr => parseBodyOn_over htakes searchStr l,
    fun l' f hf => ?_⟩
  have hbetween : Between s.uploads f.server := hf.invariant formTurnOn_between htakes.between
  refine ⟨hbetween.calls, fun name filename type l'' c u hu bs => ?_⟩
  have hfilling :=
    (hu.invariant uploadTurnOn_filling (hbetween.takes.filling name filename type)).writes bs
  obtain ⟨files, last, hcalls, hfiles, rfl⟩ := hbetween.calls
  obtain ⟨calls, heq, hrunning, -⟩ := hfilling.calls
  refine ⟨⟨files, calls, ?_, hfiles, hrunning⟩, hfilling.storeIndex_lt⟩
  rw [heq, hcalls]
  simp

/-- A form with one file, `ab`. -/
def oneFileForm : List UInt8 :=
  ascii "--x\r\nContent-Disposition: form-data; name=\"f\"; filename=\"g\"\r\n" ++
    ascii "\r\nab\r\n--x--\r\n"

/-- The file is read in three calls. -/
theorem uploadProtocol_oneFile :
    ∃ r, parseFormOn (fun _ endBuf => endBuf = ascii "x") (fun _ => []) (ascii "x") uploadServer
        (arrived oneFileForm) 9 = some r ∧
      r.2.1.uploads.map HTTPUpload.status = [.fileStart, .fileWrite, .fileEnd] ∧
      Calls [] (fun last => last = [] ∨ Aborted last ∧ r.1 = false) r.2.1 := by
  have hrun : (parseFormOn (fun _ endBuf => endBuf = ascii "x") (fun _ => []) (ascii "x")
      uploadServer (arrived oneFileForm) 9).map (fun r => r.2.1.uploads.map HTTPUpload.status)
        = some [.fileStart, .fileWrite, .fileEnd] := by
    decide
  obtain ⟨r, hr, hstatus⟩ := Option.map_eq_some_iff.mp hrun
  exact ⟨r, hr, hstatus, (uploadProtocol ⟨_, rfl, fun _ => rfl⟩ _).1 9 r hr⟩

end

end ESP31BWebServer
