import Esp31b.ClientHistory
import Esp31b.ResponseHead
import Mathlib.Data.List.Nodup

/-!
# Does a response show anything of an earlier one?

`handleHeaderResponse` sets the return code, the size and the encoding before
it reads the first line. It does not touch what it collects, nor `_canReuse`,
until a line says something about them. So a collected header that the
response does not have keeps the value of an earlier response, and whether
`end` keeps the connection may be decided by an earlier `Connection` – where
the server, which collects in the same way, clears the values first.

What earlier responses can have left is what collecting some lines leaves
(`HTTPClient.Collects`): of keys that are equal but for case the first has a
value and the others none. That makes what `header` returns, before and after,
a matter of the last line with the name (`HTTPClient.header_collect`).
-/

namespace HTTPClient

/-! ## What an application asks -/

/-- `header(name)`. -/
def header (c : HTTPClient) (name : WString) : WString :=
  ((c.currentHeaders.find? (fun a => a.key.equalsC name)).map RequestArgument.value).getD []

/-- `hasHeader`. -/
def hasHeader (c : HTTPClient) (name : WString) : Bool :=
  c.currentHeaders.any (fun a => a.key.equalsC name && decide (0 < a.value.length))

/-- Whether `end` leaves a connection open. -/
def keepsOpen (c : HTTPClient) : Bool := c.reuse && c.canReuse

variable {c d : HTTPClient} {keys lines : List WString}

/-- **What an application sees of two responses is the same.** -/
structure SameResponse (keys : List WString) (r r' : ℤ × HTTPClient) : Prop where
  returnCode : r.1 = r'.1
  size : r.2.getSize = r'.2.getSize
  transferEncoding : r.2.transferEncoding = r'.2.transferEncoding
  header : ∀ k ∈ keys, r.2.header k = r'.2.header k
  hasHeader : ∀ k ∈ keys, r.2.hasHeader k = r'.2.hasHeader k
  keepsOpen : r.2.keepsOpen = r'.2.keepsOpen

/-! ## What is collected -/

/-- Keys without values. -/
def freshKeys (keys : List WString) : List RequestArgument := keys.map (fun k => ⟨k, []⟩)

/-- **The client collects these keys**, and has what some lines have left. -/
def Collects (c : HTTPClient) (keys : List WString) : Prop :=
  ∃ earlier, c.currentHeaders = Collected.collect lower earlier (freshKeys keys)

/-- It does so from `collectHeaders` on. -/
theorem collects_collectHeaders (c : HTTPClient) (keys : List WString) :
    (c.collectHeaders keys).Collects keys := ⟨[], rfl⟩

theorem Collects.keys_plain (h : c.Collects keys) (hkeys : ∀ k ∈ keys, 0 ∉ k) :
    ∀ a ∈ c.currentHeaders, 0 ∉ a.key := by
  obtain ⟨earlier, heq⟩ := h
  intro a ha
  have hmem : a.key ∈ c.currentHeaders.map RequestArgument.key := List.mem_map_of_mem ha
  rw [heq, Collected.collect_keys, freshKeys, List.map_map] at hmem
  obtain ⟨k, hk, hkey⟩ := List.mem_map.mp hmem
  rw [← hkey]
  exact hkeys k hk

/-- The value of a key: only the first of those that are equal but for case
has one. -/
def keyValue (keys : List WString) (earlier : List RequestArgument) (k : WString) : WString :=
  if keys.find? (fun key => lower key = lower k) = some k then
    (Collected.lastValue lower earlier k).getD []
  else []

/-- The lines without a name, and what is left for it. -/
theorem keyValue_filter {earlier : List RequestArgument} {key k : WString}
    (h : lower key = lower k) :
    keyValue keys (earlier.filter (fun f => lower f.key ≠ lower key)) k = [] := by
  unfold keyValue
  rw [Collected.lastValue_filter_self h.symm]
  split <;> rfl

/-- The first key takes its lines away from the others. -/
theorem keyValue_cons (earlier : List RequestArgument) (key k : WString) :
    keyValue (key :: keys) earlier k =
      if key = k then (Collected.lastValue lower earlier k).getD []
      else keyValue keys (earlier.filter (fun f => lower f.key ≠ lower key)) k := by
  by_cases hkey : key = k
  · rw [if_pos hkey, hkey]
    unfold keyValue
    rw [List.find?_cons_of_pos (by simp), if_pos rfl]
  · rw [if_neg hkey]
    by_cases hlower : lower key = lower k
    · rw [keyValue_filter hlower]
      unfold keyValue
      rw [List.find?_cons_of_pos (by simpa using hlower),
        if_neg (fun h => hkey (Option.some.inj h))]
    · unfold keyValue
      rw [List.find?_cons_of_neg (by simpa using hlower), Collected.lastValue_filter
        (Ne.symm hlower)]

/-- **With keys that differ in more than case** every key has the value of the
last line with its name. -/
theorem keyValue_of_nodup (hkeys : (keys.map lower).Nodup)
    (earlier : List RequestArgument) {key : WString}
    (hkey : key ∈ keys) :
    keyValue keys earlier key = (Collected.lastValue lower earlier key).getD [] := by
  have hfind : keys.find? (fun k => lower k = lower key) = some key := by
    have hsome : (keys.find? (fun k => lower k = lower key)).isSome = true := by
      rw [List.find?_isSome]
      exact ⟨key, hkey, decide_eq_true rfl⟩
    obtain ⟨k, hk⟩ := Option.isSome_iff_exists.mp hsome
    have hlower : lower k = lower key := by simpa using List.find?_some hk
    rw [hk, List.inj_on_of_nodup_map hkeys (List.mem_of_find?_eq_some hk) hkey hlower]
  unfold keyValue
  rw [hfind, if_pos rfl]

/-- **What collecting leaves of the first key**, and of the others. -/
theorem collect_freshKeys_cons (earlier : List RequestArgument) (key : WString) :
    Collected.collect lower earlier (freshKeys (key :: keys)) =
      ⟨key, (Collected.lastValue lower earlier key).getD []⟩ ::
        Collected.collect lower (earlier.filter (fun f => lower f.key ≠ lower key))
          (freshKeys keys) :=
  Collected.collect_cons earlier ⟨key, []⟩ (freshKeys keys)

theorem equalsC_eq {key : WString} (hkey : 0 ∉ key) (k : WString) :
    key.equalsC k = decide (key = k) := by
  rw [Bool.eq_iff_iff, decide_eq_true_iff]
  exact WString.equalsC_iff hkey

/-- **What `header` returns** of what lines have left. -/
theorem header_collect {earlier : List RequestArgument} (hkeys : ∀ k ∈ keys, 0 ∉ k)
    (hc : c.currentHeaders = Collected.collect lower earlier (freshKeys keys)) (k : WString) :
    c.header k = keyValue keys earlier k := by
  unfold header
  rw [hc]
  clear hc
  induction keys generalizing earlier with
  | nil =>
    rw [freshKeys, List.map_nil, Collected.collect_nil]
    rfl
  | cons key keys ih =>
    rw [List.forall_mem_cons] at hkeys
    rw [collect_freshKeys_cons, List.find?_cons, keyValue_cons]
    dsimp only
    rw [equalsC_eq hkeys.1]
    by_cases hkey : key = k
    · rw [if_pos hkey, hkey, decide_eq_true rfl]
      rfl
    · rw [if_neg hkey, decide_eq_false hkey]
      exact ih hkeys.2

/-- `hasHeader` is whether `header` returns something. -/
theorem hasHeader_collect {earlier : List RequestArgument} (hkeys : ∀ k ∈ keys, 0 ∉ k)
    (hc : c.currentHeaders = Collected.collect lower earlier (freshKeys keys)) (k : WString) :
    c.hasHeader k = decide (0 < (keyValue keys earlier k).length) := by
  unfold hasHeader
  rw [hc]
  clear hc
  induction keys generalizing earlier with
  | nil =>
    rw [freshKeys, List.map_nil, Collected.collect_nil]
    rfl
  | cons key keys ih =>
    rw [List.forall_mem_cons] at hkeys
    rw [collect_freshKeys_cons, List.any_cons, ih hkeys.2, keyValue_cons]
    dsimp only
    rw [equalsC_eq hkeys.1]
    by_cases hkey : key = k
    · rw [if_pos hkey, hkey, keyValue_filter rfl]
      simp
    · rw [if_neg hkey, decide_eq_false hkey, Bool.false_and, Bool.false_or]

/-! ## Reading the same lines -/

/-- **The client is about to read these lines**, the last of them the empty
one, whatever else arrives and however. -/
def Reads (c : HTTPClient) (lines : List WString) : Prop :=
  ∃ k, c.connection = some k ∧ (linkConnected k.link).1 = true ∧
    ∃ link, (readHead (linkConnected k.link).2).Yields (true, lines, link)

/-- What `handleHeaderResponse` starts from. -/
def blankResponse (c : HTTPClient) : Response := ⟨-1, -1, c.canReuse, [], c.currentHeaders⟩

/-- **What comes of the lines.** -/
theorem handleHeaderResponse_of_reads (hkeys : ∀ a ∈ c.currentHeaders, 0 ∉ a.key)
    (h : c.Reads lines) :
    ∃ d : HTTPClient, d.reuse = c.reuse ∧
      c.handleHeaderResponse.Yields ((responseCode (headResponse c.blankResponse lines)).1,
        { d with
          returnCode := (headResponse c.blankResponse lines).returnCode
          size := (headResponse c.blankResponse lines).size
          canReuse := (headResponse c.blankResponse lines).canReuse
          currentHeaders := (headResponse c.blankResponse lines).currentHeaders
          transferEncoding := (responseCode (headResponse c.blankResponse lines)).2 }) := by
  obtain ⟨k, hk, hup, link, N, hN⟩ := h
  have hconnected : c.connected =
      (true, c.setConnection { k with link := (linkConnected k.link).2 }) := by
    unfold connected
    rw [hk, ← hup]
  refine ⟨(c.setConnection { k with link := (linkConnected k.link).2 }).setLink link, rfl,
    N, fun n hn => ?_⟩
  have hloop := headerLoop_eq c.blankResponse (linkConnected k.link).2 n
  rw [hN n hn, Option.map_some, foldl_handleLine hkeys] at hloop
  unfold handleHeaderResponse
  rw [hconnected]
  show (Fueled.loop (fun s => pure (headerTurn s))
    (c.blankResponse, (linkConnected k.link).2) n).bind _ = _
  rw [hloop]
  rfl

/-- **Collecting goes on** with every response, read to its end or not. -/
theorem Collects.handleHeaderResponse (h : c.Collects keys) (hkeys : ∀ k ∈ keys, 0 ∉ k) :
    c.handleHeaderResponse.Gives fun r => r.2.Collects keys := by
  have hconnected : c.connected.2.currentHeaders = c.currentHeaders := by
    unfold connected
    split <;> rfl
  unfold HTTPClient.handleHeaderResponse
  dsimp only
  split
  · rename_i k _ _
    intro n r hrun
    obtain ⟨s, hs, hr⟩ := Fueled.exists_of_bind hrun
    rw [headerLoop_eq, Option.map_eq_some_iff] at hs
    obtain ⟨⟨found, lines, link⟩, -, rfl⟩ := hs
    rw [Fueled.eq_of_pure hr]
    obtain ⟨earlier, heq⟩ := h
    refine ⟨earlier ++ headerFields lines, ?_⟩
    dsimp only
    rw [hconnected, foldl_handleLine (Collects.keys_plain ⟨earlier, heq⟩ hkeys),
      Collected.collect_append, ← heq]
    rfl
  · refine Fueled.gives_pure ?_
    obtain ⟨earlier, heq⟩ := h
    exact ⟨earlier, hconnected.trans heq⟩

/-- The lines say something about a name. -/
def Says (lines : List WString) (name : WString) : Prop :=
  ∃ f ∈ headerFields lines, lower f.key = lower name

instance (lines : List WString) (name : WString) : Decidable (Says lines name) :=
  inferInstanceAs (Decidable (∃ f ∈ headerFields lines, _))

theorem says_iff {name : WString} :
    Says lines name ↔ (Collected.lastValue lower (headerFields lines) name).isSome = true :=
  Collected.lastValue_isSome.symm

/-- What more lines make of two pasts. -/
theorem keyValue_append_iff (earlier earlier' : List RequestArgument) (k : WString) :
    keyValue keys (earlier ++ headerFields lines) k =
      keyValue keys (earlier' ++ headerFields lines) k ↔
      keyValue keys earlier k = keyValue keys earlier' k ∨ Says lines k := by
  rw [says_iff]
  unfold keyValue
  rw [Collected.lastValue_append, Collected.lastValue_append]
  split
  · cases Collected.lastValue lower (headerFields lines) k <;> simp
  · simp

/-- What they make of `_canReuse`, if it matters. -/
theorem canReuse_iff (reuse old old' : Bool) (g : WString → Bool) :
    (reuse && ((fieldValue lines "Connection").map g).getD old) =
        (reuse && ((fieldValue lines "Connection").map g).getD old') ↔
      (reuse = true → old = old' ∨ Says lines (ascii "Connection")) := by
  rw [says_iff, ← fieldValue]
  cases reuse
  · simp
  · cases fieldValue lines "Connection" <;> simp

/-- **When a response shows nothing of an earlier one.** -/
theorem sameResponse_iff (hkeys : ∀ k ∈ keys, 0 ∉ k) (hc : c.Collects keys)
    (hd : d.Collects keys)
    (hreuse : c.reuse = d.reuse) (hreads : c.Reads lines) (hreads' : d.Reads lines) :
    ∃ r r', c.handleHeaderResponse.Yields r ∧ d.handleHeaderResponse.Yields r' ∧
      (SameResponse keys r r' ↔
        (∀ k ∈ keys, c.header k = d.header k ∨ Says lines k) ∧
          (c.reuse = true → c.canReuse = d.canReuse ∨ Says lines (ascii "Connection"))) := by
  obtain ⟨c₁, hc₁, hyields⟩ := handleHeaderResponse_of_reads (hc.keys_plain hkeys) hreads
  obtain ⟨d₁, hd₁, hyields'⟩ := handleHeaderResponse_of_reads (hd.keys_plain hkeys) hreads'
  refine ⟨_, _, hyields, hyields', ?_⟩
  obtain ⟨earlier, hc⟩ := hc
  obtain ⟨earlier', hd⟩ := hd
  -- what is collected in the end is what was left and the lines read now
  have hcollect : ∀ {c : HTTPClient} {earlier : List RequestArgument},
      c.currentHeaders = Collected.collect lower earlier (freshKeys keys) →
      (headResponse c.blankResponse lines).currentHeaders =
        Collected.collect lower (earlier ++ headerFields lines) (freshKeys keys) :=
          fun {c earlier} hc => by
    show Collected.collect lower (headerFields lines) c.currentHeaders = _
    rw [hc, Collected.collect_append]
  have hheader : ∀ k, c.header k = d.header k ∨ Says lines k ↔
      keyValue keys (earlier ++ headerFields lines) k =
        keyValue keys (earlier' ++ headerFields lines) k :=
    fun k => by rw [keyValue_append_iff, header_collect hkeys hc, header_collect hkeys hd]
  constructor
  · intro h
    refine ⟨fun k hk => (hheader k).mpr ?_, ?_⟩
    · have hsame := h.header k hk
      rwa [header_collect hkeys (hcollect hc), header_collect hkeys (hcollect hd)] at hsame
    · have hkeeps := h.keepsOpen
      unfold keepsOpen at hkeeps
      dsimp only at hkeeps
      rw [hc₁, hd₁, ← hreuse] at hkeeps
      exact (canReuse_iff _ _ _ _).mp hkeeps
  · rintro ⟨hvalues, hkeeps⟩
    exact {
      returnCode := rfl
      size := rfl
      transferEncoding := rfl
      header := fun k hk => by
        rw [header_collect hkeys (hcollect hc), header_collect hkeys (hcollect hd)]
        exact (hheader k).mp (hvalues k hk)
      hasHeader := fun k hk => by
        rw [hasHeader_collect hkeys (hcollect hc), hasHeader_collect hkeys (hcollect hd),
          (hheader k).mp (hvalues k hk)]
      keepsOpen := by
        unfold keepsOpen
        dsimp only
        rw [hc₁, hd₁, ← hreuse]
        exact (canReuse_iff _ _ _ _).mpr hkeeps }

/-- Lines that are read in some number of turns. -/
theorem reads_of_run {k : Connection} {n : ℕ} (hk : c.connection = some k)
    (hup : (linkConnected k.link).1 = true)
    (hrun : (readHead (linkConnected k.link).2 n).map (fun s => (s.1, s.2.1)) =
      some (true, lines)) :
    c.Reads lines := by
  obtain ⟨⟨found, read, link⟩, hread, heq⟩ := Option.map_eq_some_iff.mp hrun
  obtain ⟨rfl, rfl⟩ := Prod.mk.inj heq
  exact ⟨k, hk, hup, link, (steady_readHead _).yields hread⟩

/-- A client that collects `ETag` and is about to read this, with what earlier
lines have left. -/
def reading (head : String) (earlier : List RequestArgument) (canReuse : Bool) : HTTPClient :=
  { HTTPClient.init with
    tcp := some ⟨some ⟨ascii "a", 80, ⟨ascii head, 0, 5000, [], false⟩, [], []⟩, none⟩
    reuse := true
    canReuse := canReuse
    currentHeaders := Collected.collect lower earlier (freshKeys [ascii "ETag"]) }

/-- An earlier `ETag`. -/
def earlierTag : List RequestArgument := [⟨ascii "ETag", ascii "a"⟩]

/-- A response that says all there is to say. -/
theorem sameResponse_iff_all : ∃ r r' : ℤ × HTTPClient,
    (reading "HTTP/1.1 200 OK\r\netag: b\r\nConnection: close\r\n\r\n" earlierTag
      true).handleHeaderResponse.Yields r ∧
    (reading "HTTP/1.1 200 OK\r\netag: b\r\nConnection: close\r\n\r\n" []
      false).handleHeaderResponse.Yields r' ∧
    SameResponse [ascii "ETag"] r r' := by
  have hreads : ∀ (earlier : List RequestArgument) (canReuse : Bool),
      (reading "HTTP/1.1 200 OK\r\netag: b\r\nConnection: close\r\n\r\n" earlier canReuse).Reads
        [ascii "HTTP/1.1 200 OK", ascii "etag: b", ascii "Connection: close", []] :=
          fun earlier canReuse =>
    reads_of_run (n := 9) rfl rfl (by decide)
  have hcollects : ∀ (head : String) (earlier : List RequestArgument) (canReuse : Bool),
      (reading head earlier canReuse).Collects [ascii "ETag"] :=
        fun _ earlier _ => ⟨earlier, rfl⟩
  obtain ⟨r, r', hr, hr', hiff⟩ := sameResponse_iff (by decide)
    (hcollects _ earlierTag true)
    (collects_collectHeaders (reading _ [] false) _) rfl (hreads earlierTag true)
    (hreads [] false)
  exact ⟨r, r', hr, hr', hiff.mpr (by decide)⟩

/-- **A response without an `ETag` shows the earlier one**, and `end` keeps the
connection because of an earlier response. -/
theorem not_sameResponse : ∃ (c d : HTTPClient) (r r' : ℤ × HTTPClient),
    (c.Collects [ascii "ETag"] ∧ d.Collects [ascii "ETag"] ∧ c.reuse = d.reuse) ∧
      (c.Reads [ascii "HTTP/1.1 200 OK", []] ∧ d.Reads [ascii "HTTP/1.1 200 OK", []]) ∧
      (c.handleHeaderResponse.Yields r ∧ d.handleHeaderResponse.Yields r') ∧
      (r.2.header (ascii "ETag") = ascii "a" ∧ r'.2.header (ascii "ETag") = []) ∧
      (r.2.keepsOpen = true ∧ r'.2.keepsOpen = false) := by
  have hreads : ∀ (earlier : List RequestArgument) (canReuse : Bool),
      (reading "HTTP/1.1 200 OK\r\n\r\n" earlier canReuse).Reads
        [ascii "HTTP/1.1 200 OK", []] := fun _ _ =>
    reads_of_run (n := 9) rfl rfl (by decide)
  obtain ⟨r, hr⟩ : ∃ r,
      (reading "HTTP/1.1 200 OK\r\n\r\n" earlierTag true).handleHeaderResponse 9 =
      some r :=
    Option.isSome_iff_exists.mp (by decide)
  obtain ⟨r', hr'⟩ : ∃ r, (reading "HTTP/1.1 200 OK\r\n\r\n" [] false).handleHeaderResponse 9 =
      some r :=
    Option.isSome_iff_exists.mp (by decide)
  have hshown :
      ∀ r ∈ (reading "HTTP/1.1 200 OK\r\n\r\n" earlierTag true).handleHeaderResponse 9,
      r.2.header (ascii "ETag") = ascii "a" ∧ r.2.keepsOpen = true := by
    decide
  have hshown' : ∀ r ∈ (reading "HTTP/1.1 200 OK\r\n\r\n" [] false).handleHeaderResponse 9,
      r.2.header (ascii "ETag") = [] ∧ r.2.keepsOpen = false := by
    decide
  exact ⟨reading _ earlierTag true, reading _ [] false, r, r',
    ⟨⟨earlierTag, rfl⟩, ⟨[], rfl⟩, rfl⟩, ⟨hreads earlierTag true, hreads [] false⟩,
    ⟨(steady_handleHeaderResponse _).yields hr, (steady_handleHeaderResponse _).yields hr'⟩,
    ⟨(hshown r hr).1, (hshown' r' hr').1⟩, (hshown r hr).2, (hshown' r' hr').2⟩

end HTTPClient
