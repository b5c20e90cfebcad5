import Esp31b.HeaderLines
import Esp31b.RequestHeader
import Mathlib.Data.List.Find

/-!
# A request from the client to the server

The client builds the header of a request by concatenation, and the server
takes it apart again, the first line at its blanks and each other line at its
colon. The two are written independently, and what is between them is one
list of names and values, `HTTPClient.sentFields`: the text the client sends
is that list written out, and what the server collects is that list looked up
(`getRequest_roundTrip`).

It is the loop for `GET` that goes with this client: it takes the value from
two bytes behind the colon, and there it is, whatever the value. That
`addHeader` takes no line named `Host`, in any case of letters, is what makes
the server's host the client's.
-/

namespace HTTPClient

open ESP31BWebServer (headerLines)
open ESP31BWebServer.HttpRequest (fieldLine)

/-! ## What the client sends -/

/-- A field with the blank behind its colon. -/
def blanked (f : RequestArgument) : RequestArgument := ⟨f.key, 0x20 :: f.value⟩

theorem fieldsText_eq (fields : List RequestArgument) :
    fieldsText fields = ESP31BWebServer.sendLines ((fields.map blanked).map fieldLine) := by
  have hsep : ascii ": " = [0x3A, 0x20] ∧ ascii "\r\n" = [0x0D, 0x0A] := by decide
  unfold fieldsText ESP31BWebServer.sendLines fieldText fieldLine blanked
  rw [hsep.1, hsep.2, List.map_map, List.flatMap_map]
  refine List.flatMap_congr fun f _ => ?_
  simp

/-- **The text as the server's lines.** -/
theorem headerText_addHeaders (c : HTTPClient) (calls : List HeaderCall) {type : WString}
    (hc : c.headers = []) (hplain : ∀ f ∈ c.sentFields calls, NulFree f) (hurl : 0 ∉ c.url)
    (htype : 0 ∉ type) :
    (c.addHeaders calls).headerText type
      = ESP31BWebServer.sendLines
        (c.requestLine type :: headerLines ((c.sentFields calls).map blanked)) := by
  have hcrlf : ascii "\r\n" = [0x0D, 0x0A] := by decide
  have hadded : ∀ f ∈ calls.foldl c.addField [], NulFree f := fun f hf =>
    hplain f (List.mem_append_right _ hf)
  set d : HTTPClient := { c with headers := fieldsText (calls.foldl c.addField []) } with hd
  have hown : d.ownFields = c.ownFields := rfl
  rw [addHeaders_fields calls (show c.headers = fieldsText [] from hc) hadded, ← hd,
    headerText_fields (c := d) rfl (hown ▸ hplain) hurl htype, hown]
  show c.requestLine type ++ ascii "\r\n" ++ fieldsText (c.sentFields calls) ++ ascii "\r\n" = _
  rw [fieldsText_eq, hcrlf]
  simp [headerLines, ESP31BWebServer.sendLines, List.flatMap_append]

/-- Without CR and NUL. -/
def OneLine (text : WString) : Prop := ∀ b ∈ text, b ≠ 0x0D ∧ b ≠ 0

instance (text : WString) : Decidable (OneLine text) :=
  inferInstanceAs (Decidable (∀ b ∈ text, b ≠ 0x0D ∧ b ≠ 0))

/-- **Texts that a request can carry.** -/
structure Carried (c : HTTPClient) (calls : List HeaderCall) : Prop where
  url : ∀ b ∈ c.url, b ≠ 0x20 ∧ b ≠ 0x0D ∧ b ≠ 0
  host : OneLine c.host
  userAgent : OneLine c.userAgent
  authorization : OneLine c.base64Authorization
  names : ∀ h ∈ calls, ∀ b ∈ h.name, b ≠ 0x3A ∧ b ≠ 0x0D ∧ b ≠ 0
  values : ∀ h ∈ calls, OneLine h.value

variable {c d : HTTPClient} {calls : List HeaderCall}

/-- **Every line can be taken apart.** -/
theorem Carried.fields (h : Carried c calls) : ∀ f ∈ c.sentFields calls,
    (∀ b ∈ f.key, b ≠ 0x3A ∧ b ≠ 0x0D ∧ b ≠ 0) ∧ OneLine f.value := by
  have hconst : ∀ name ∈
    [ascii "Host", ascii "User-Agent", ascii "Connection", ascii "Accept-Encoding",
      ascii "Authorization"], ∀ b ∈ name, b ≠ 0x3A ∧ b ≠ 0x0D ∧ b ≠ 0 := by decide
  have hbasic : OneLine (ascii "Basic " ++ c.base64Authorization) := fun b hb =>
    (List.mem_append.mp hb).elim ((by decide : OneLine (ascii "Basic ")) b)
      (h.authorization b)
  intro f hf
  simp only [sentFields, ownFields, List.mem_cons, List.mem_append] at hf
  rcases hf with (rfl | rfl | rfl | hf | hf) | hf
  · exact ⟨hconst _ (by simp), h.host⟩
  · exact ⟨hconst _ (by simp), h.userAgent⟩
  · refine ⟨hconst _ (by simp), ?_⟩
    dsimp only
    split <;> decide
  · split at hf
    · cases hf
    · rw [List.mem_singleton.mp hf]
      exact ⟨hconst _ (by simp), by decide⟩
  · split at hf
    · rw [List.mem_singleton.mp hf]
      exact ⟨hconst _ (by simp), hbasic⟩
    · cases hf
  · exact addField_induction calls (P := fun f => (∀ b ∈ f.key, b ≠ 0x3A ∧ b ≠ 0x0D ∧ b ≠ 0) ∧
      OneLine f.value)
      (by simp) (fun g hg _ => ⟨h.names g hg, h.values g hg⟩) f hf

/-- **There is one `Host` line**, the client's. -/
theorem lastValue_host (c : HTTPClient) (calls : List HeaderCall) :
    Collected.lastValue id (c.sentFields calls) (ascii "Host") = some c.host := by
  have hnone : ∀ f ∈ (c.sentFields calls).tail, f.key ≠ ascii "Host" := by
    have hother : ∀ name ∈ [ascii "User-Agent", ascii "Connection", ascii "Accept-Encoding",
        ascii "Authorization"], name ≠ ascii "Host" := by decide
    intro f hf
    simp only [sentFields, ownFields, List.cons_append, List.tail_cons, List.mem_cons,
      List.mem_append] at hf
    rcases hf with rfl | rfl | (hf | hf) | hf
    · exact hother _ (by simp)
    · exact hother _ (by simp)
    · split at hf
      · cases hf
      · rw [List.mem_singleton.mp hf]
        exact hother _ (by simp)
    · split at hf
      · rw [List.mem_singleton.mp hf]
        exact hother _ (by simp)
      · cases hf
    · refine addField_induction calls (P := fun f => f.key ≠ ascii "Host") (by simp)
        (fun g _ hallowed => ?_) f hf
      rintro (heq : g.name = ascii "Host")
      rw [allowed, heq] at hallowed
      simp [show WString.equalsIgnoreCase (ascii "Host") (ascii "Host") =
        true by decide] at hallowed
  have hrest : Collected.lastValue id (c.sentFields calls).tail (ascii "Host") = none := by
    rw [← Option.not_isSome_iff_eq_none, Collected.lastValue_isSome]
    rintro ⟨f, hf, heq⟩
    exact hnone f hf heq
  have hcons : c.sentFields calls = ⟨ascii "Host", c.host⟩ :: (c.sentFields calls).tail := rfl
  rw [hcons, Collected.lastValue_cons, hrest]
  rfl

end HTTPClient

namespace ESP31BWebServer

open HTTPClient (HeaderCall Carried blanked)

/-! ## What the server makes of it -/

/-- **A target is cut at its first question mark.** -/
theorem splitSearch_eq {url : WString} (h0 : 0 ∉ url) (hlen : url.length < 2 ^ 32) :
    splitSearch url = ((url.dropWhile (· ≠ 0x3F)).drop 1, url.takeWhile (· ≠ 0x3F)) := by
  unfold splitSearch
  by_cases hmem : 0x3F ∈ url
  · obtain ⟨p, t, rfl, hp⟩ := List.eq_append_cons_of_mem hmem
    have hkeep : ∀ b ∈ p, (decide (b ≠ 0x3F)) = true := fun b hb => by
      simp only [decide_eq_true_eq]
      rintro rfl
      exact hp hb
    have hplain : ∀ b ∈ p, b ≠ 0x3F ∧ b ≠ 0 := fun b hb =>
      ⟨by simpa using hkeep b hb, fun hb0 => h0 (by simp [← hb0, hb])⟩
    simp only [List.length_append, List.length_cons] at hlen
    have hpos : WString.pos ((p.length : ℤ) + 1) = p.length + 1 ∧
        WString.pos (p.length : ℤ) = p.length :=
      ⟨WString.pos_natCast (by omega : p.length + 1 < 2 ^ 32), WString.pos_natCast (by omega)⟩
    rw [WString.indexOf_append hplain (by decide)]
    dsimp only
    rw [if_pos (by omega), hpos.1, hpos.2, WString.substring_length h0,
      WString.substring_of_le (by omega),
      List.takeWhile_append_of_pos hkeep, List.dropWhile_append_of_pos hkeep,
      List.takeWhile_cons_of_neg (by decide), List.dropWhile_cons_of_neg (by decide),
        List.append_nil,
      List.drop_zero, List.take_left, cstr_of_not_mem (fun hb => h0 (by simp [hb]))]
    simp
  · have hkeep : ∀ b ∈ url, (decide (b ≠ 0x3F)) = true := fun b hb => by
      simp only [decide_eq_true_eq]
      rintro rfl
      exact hmem hb
    rw [WString.indexOf_none (by rwa [List.drop_zero]), List.takeWhile_eq_self_iff.mpr hkeep,
      List.dropWhile_eq_nil_iff.mpr hkeep]
    rfl

variable {c d : HTTPClient} {calls : List HeaderCall} {s : ESP31BWebServer} {l : Link}

/-- The first line leaves the collected headers alone. -/
theorem startRequest_currentHeaders (s : ESP31BWebServer) (methodStr url : WString) :
    (s.startRequest methodStr url).currentHeaders = s.currentHeaders := rfl

/-- **What is collected under a key**: the value of the last line with its
name. -/
theorem header_of_fields (hkeys : s.PlainKeys) (fields : List RequestArgument) {k : WString}
    (hk : k ∈ s.currentHeaders.map RequestArgument.key) {t : ESP31BWebServer}
    (ht : t.currentHeaders = Collected.collect id fields s.resetHeaders.currentHeaders) :
    t.header k = (Collected.lastValue id fields k).getD [] := by
  have hfind : t.currentHeaders.find? (fun a => a.key.equalsC k)
      = t.currentHeaders.find? (fun a => id a.key = id k) := by
    refine List.find?_congr fun a ha => ?_
    have hmem : a.key ∈ t.currentHeaders.map RequestArgument.key := List.mem_map_of_mem ha
    rw [ht, Collected.collect_keys] at hmem
    obtain ⟨b, hb, hkey⟩ := List.mem_map.mp hmem
    obtain ⟨e, he, rfl⟩ := List.mem_map.mp hb
    rw [Bool.eq_iff_iff, WString.equalsC_iff (hkey ▸ hkeys e he), decide_eq_true_eq]
    rfl
  obtain ⟨a, ha, hak⟩ := List.mem_map.mp hk
  have hold : (s.resetHeaders.currentHeaders.find? (fun a => id a.key = id k)).map
    RequestArgument.value
      = some [] := by
    have hsome : (s.resetHeaders.currentHeaders.find? (fun a => id a.key = id k)).isSome =
        true := by
      rw [List.find?_isSome]
      exact ⟨⟨a.key, []⟩, List.mem_map_of_mem ha, by simpa using hak⟩
    obtain ⟨b, hb⟩ := Option.isSome_iff_exists.mp hsome
    obtain ⟨e, -, rfl⟩ := List.mem_map.mp (List.mem_of_find?_eq_some hb)
    rw [hb]
    rfl
  unfold header valueOf
  rw [hfind, ht, Collected.find?_collect, hold]
  rfl

/-- **The client's header is to be read** by the server. -/
theorem toBeRead_of_sent (hcarried : Carried c calls) (hl : l.Prompt)
    (hlen : l.pending.length < 2 ^ 32)
    (hp : l.pending = sendLines
      (c.requestLine (ascii "GET") :: headerLines ((c.sentFields calls).map blanked))) :
    ToBeRead (ascii "GET") c.url (ascii "HTTP/1." ++ ascii (if c.useHTTP10 then "0" else "1"))
      ((c.sentFields calls).map blanked) l := by
  have hline : ∀ x ∈ c.requestLine (ascii "GET") ::
      headerLines ((c.sentFields calls).map blanked),
      x.length < 2 ^ 32 := fun x hx =>
    lt_of_le_of_lt (length_le_sendLines hx) (hp ▸ hlen)
  have hfirst := hline _ List.mem_cons_self
  simp only [HTTPClient.requestLine, List.length_append, List.length_cons] at hfirst
  have hversion : (ascii "HTTP/1.").length = 7 := by decide
  refine {
    short := by omega
    prompt := hl
    pending := ⟨[], by rw [hp, List.append_nil]; rfl⟩
    method := by decide
    target := hcarried.url
    version := ?_
    fields := ⟨fun f hf => ?_, fun f hf => ?_, fun f hf => ?_⟩ }
  · split <;> decide
  · obtain ⟨g, hg, rfl⟩ := List.mem_map.mp hf
    exact fun b hb => ⟨((hcarried.fields g hg).1 b hb).1, ((hcarried.fields g hg).1 b hb).2.1⟩
  · obtain ⟨g, hg, rfl⟩ := List.mem_map.mp hf
    intro b hb
    rcases List.mem_cons.mp hb with rfl | hb
    · decide
    · exact (hcarried.fields g hg).2 b hb
  · have hfield := hline (HttpRequest.fieldLine f)
      (List.mem_cons_of_mem _ (List.mem_append_left _ (List.mem_map_of_mem hf)))
    obtain ⟨g, hg, rfl⟩ := List.mem_map.mp hf
    simp only [HttpRequest.fieldLine, blanked, List.length_append, List.length_cons] at hfield ⊢
    omega

/-- **A `GET` arrives as it was sent.** A freshly begun client has these
calls of `addHeader` and sends its header, and the bytes it sends reach the
server, none of them late. Then the server accepts the request, and has its
method, its URI, its arguments, its host and, of every collected key, the value
of the last line with that name. -/
theorem getRequest_roundTrip (hbegun : c.headers = []) (hcarried : Carried c calls)
    (hsend : (c.addHeaders calls).sendHeader (ascii "GET") = (true, d))
    (hsent : d.sent = (c.addHeaders calls).sent ++ l.pending) (hlen : l.pending.length < 2 ^ 32)
    (hl : l.Prompt) (hkeys : s.PlainKeys) (stack : StackMemory) :
    ∃ t l', (parseRequest stack s l).Yields (true, t, l') ∧ t.currentMethod = .get ∧
      t.currentUri = c.url.takeWhile (· ≠ 0x3F) ∧
      t.currentArgs = parseArguments ((c.url.dropWhile (· ≠ 0x3F)).drop 1) ∧
      t.hostHeader = c.host ∧
      ∀ k ∈ s.currentHeaders.map RequestArgument.key,
        t.header k = (Collected.lastValue id (c.sentFields calls) k).getD [] := by
  have hp : l.pending
      = sendLines (c.requestLine (ascii "GET") :: headerLines
        ((c.sentFields calls).map blanked)) := by
    have hplain : ∀ f ∈ c.sentFields calls, HTTPClient.NulFree f := fun f hf =>
      ⟨fun h0 => ((hcarried.fields f hf).1 0 h0).2.2 rfl,
        fun h0 => ((hcarried.fields f hf).2 0 h0).2 rfl⟩
    rw [HTTPClient.sent_of_sendHeader hsend,
      HTTPClient.headerText_addHeaders c calls hbegun hplain
      (fun h0 => (hcarried.url 0 h0).2.2 rfl) (by decide)] at hsent
    exact (List.append_cancel_left hsent).symm
  have hread := toBeRead_of_sent hcarried hl hlen hp
  obtain ⟨l', hyields⟩ := hread.parsePlain_yields stack s (by decide)
  have hseen : seen ((c.sentFields calls).map blanked) = (c.sentFields calls).map blanked := by
    refine List.takeWhile_eq_self_iff.mpr fun f hf => ?_
    obtain ⟨g, hg, rfl⟩ := List.mem_map.mp hf
    exact decide_eq_true fun h0 => ((hcarried.fields g hg).1 0 h0).2.2 rfl
  have hcut : cutValues (List.drop 1) ((c.sentFields calls).map blanked) =
      c.sentFields calls := by
    unfold cutValues
    rw [List.map_map]
    exact List.map_id _
  have hsplit := splitSearch_eq (fun h0 => (hcarried.url 0 h0).2.2 rfl)
    (lt_of_le_of_lt (by omega) hread.short : c.url.length < 2 ^ 32)
  have hplain : (s.resetHeaders.startRequest (ascii "GET") c.url).PlainKeys := by
    intro a ha
    obtain ⟨b, hb, rfl⟩ := List.mem_map.mp ha
    exact hkeys b hb
  rw [hseen, foldl_takeField _ hplain, hcut, HTTPClient.lastValue_host, hsplit] at hyields
  refine ⟨_, l', hyields, ?_, ?_, rfl, rfl, fun k hk => ?_⟩
  · show methodOf (ascii "GET") = .get
    decide
  · show (splitSearch c.url).2 = _
    rw [hsplit]
  · refine header_of_fields hkeys (c.sentFields calls) hk ?_
    dsimp only
    rw [startRequest_currentHeaders]

/-- A client on an open connection. -/
def begunClient : HTTPClient :=
  HTTPClient.beginHost (HTTPClient.init.setConnection ⟨ascii "b", 80, arrived [], [], []⟩)
    (ascii "b") 80 (ascii "/p?a=1")

/-- `X` is sent twice. -/
def xCalls : List HeaderCall := [⟨ascii "X", ascii "v: w", false⟩, ⟨ascii "X", ascii "u", true⟩]

/-- It asks for `/p?a=1`. -/
theorem getRequest_roundTrip_page : ∃ t l', (parseRequest zeroStack collectsX
      (arrived ((begunClient.addHeaders xCalls).headerText (ascii "GET")))).Yields
      (true, t, l') ∧
    t.currentMethod = .get ∧ t.currentUri = ascii "/p" ∧
      t.currentArgs = [⟨ascii "a", ascii "1"⟩] ∧
    t.hostHeader = ascii "b" ∧ t.header (ascii "X") = ascii "v: w" := by
  set l := arrived ((begunClient.addHeaders xCalls).headerText (ascii "GET")) with hl
  have harrived : l.Brings l.fin l.rx := Link.brings_arrived rfl (Nat.succ_pos 999)
  have hcarried : Carried begunClient xCalls := by constructor <;> decide
  have hsend : (begunClient.addHeaders xCalls).sendHeader (ascii "GET")
      = (true, ((begunClient.addHeaders xCalls).sendHeader (ascii "GET")).2) :=
    Prod.ext (by decide +kernel) rfl
  obtain ⟨t, l', hyields, hmethod, huri, hargs, hhost, hheader⟩ :=
    getRequest_roundTrip (l := l) rfl hcarried hsend (by rw [hl]; decide +kernel)
      (by rw [hl]; decide +kernel) harrived.prompt collectsX_plainKeys zeroStack
  refine ⟨t, l', hyields, hmethod, huri.trans (by decide +kernel),
    hargs.trans (by decide +kernel), hhost.trans (by decide +kernel),
    (hheader _ (by decide +kernel)).trans (by decide +kernel)⟩

end ESP31BWebServer
