import Esp31b.ClientHistory
import Esp31b.TargetUrl

/-!
# The credentials of an earlier URL

A URL may carry `user:password@`, and `begin` encodes it into
`_base64Authorization`, from where every request takes it. A URL without does
not clear it, and neither does the other form of `begin`. So the credentials
of one server go to the next.

That is a statement about two histories of a client, alike but for the
credentials in their URLs. `Beside` is what the two clients have in common at
any time: all but the authorization, `_Headers`, which take an `Authorization`
line only if there is none, and what was sent. With the same credentials in
force they have everything in common but the past from the next `begin` on,
and send the same (`ClientHistory.requests_of_inForce`).

The peer is taken to do the same in both, and to take a header whole or
nothing of it: one that takes so many bytes takes a shorter header whole and a
longer one not.
-/

namespace Connection

/-- What the peer takes of the next write, all or nothing. -/
def TakesWhole (k : Connection) : Prop :=
  ∀ r ∈ k.reactions.head?, r.room = none ∨ r.room = some 0

instance (k : Connection) : Decidable k.TakesWhole :=
  inferInstanceAs (Decidable (∀ r ∈ k.reactions.head?, _))

/-- Two texts, and two pasts. -/
theorem write_whole {k : Connection} (h : k.TakesWhole) (s : List UInt8) {buf buf' : List UInt8}
    (hbuf : buf ≠ []) (hbuf' : buf' ≠ []) :
    (decide ((({ k with sent := s } : Connection).write buf').1 = buf'.length)
      = decide ((k.write buf).1 = buf.length)) ∧
    ∃ s', (({ k with sent := s } : Connection).write buf').2 =
      { (k.write buf).2 with sent := s' } := by
  have hlen : buf.length ≠ 0 ∧ buf'.length ≠ 0 := ⟨by simpa using hbuf, by simpa using hbuf'⟩
  unfold write
  dsimp only
  by_cases hup : k.link.up = false
  · rw [if_pos (Or.inr hup), if_pos (Or.inr hup)]
    exact ⟨by simp [hlen.1.symm, hlen.2.symm], s, rfl⟩
  · rw [if_neg (not_or.mpr ⟨hbuf, hup⟩), if_neg (not_or.mpr ⟨hbuf', hup⟩)]
    split
    · exact ⟨by simp, _, rfl⟩
    · rename_i r rest hreactions
      have hroom := h r (by rw [hreactions]; rfl)
      refine ⟨?_, _, rfl⟩
      rcases hroom with hroom | hroom
      · simp [hroom]
      · simp [hroom, hlen.1.symm, hlen.2.symm]

end Connection

namespace HTTPClient

variable {same : Prop} {c d : HTTPClient} {f g : HeaderParts}

/-! ## Two clients side by side -/

/-- **Other parts**: another authorization and other headers, or the same. -/
def Agree (same : Prop) (g f : HeaderParts) : Prop :=
  f.useHTTP10 = g.useHTTP10 ∧ f.url = g.url ∧ f.userAgent = g.userAgent ∧ (same → f = g)

/-- **Two clients side by side**: the second has other parts and another past. -/
def Beside (same : Prop) (c d : HTTPClient) : Prop :=
  ∃ f s, d = c.mask f s ∧ Agree same c.parts f

theorem Agree.refl (f : HeaderParts) : Agree same f f := ⟨rfl, rfl, rfl, fun _ => rfl⟩

theorem parts_of_setup (h : d.setup = c.setup) : d.parts = c.parts := (Prod.mk.inj h).2

/-- A call that does not look at the parts. -/
theorem Beside.keep {op : HTTPClient → HTTPClient} (h : Beside same c d)
    (hop : ∀ f s, op (c.mask f s) = (op c).mask f s) (hparts : (op c).parts = c.parts) :
    Beside same (op c) (op d) := by
  obtain ⟨f, s, rfl, hagree⟩ := h
  exact ⟨f, s, hop f s, hparts ▸ hagree⟩

/-- The same for a call that may not return. -/
theorem Beside.keep_fueled {α : Type} {m : HTTPClient → Fueled (α × HTTPClient)}
    (h : Beside same c d)
    (hm : ∀ f s n, m (c.mask f s) n = (m c n).map (fun r => (r.1, r.2.mask f s)))
    (hsetup : (m c).Gives fun r => r.2.setup = c.setup) :
    Fueled.Rel (fun r r' => r'.1 = r.1 ∧ Beside same r.2 r'.2) (m c) (m d) := by
  obtain ⟨f, s, rfl, hagree⟩ := h
  refine Fueled.rel_of_map (hm f s) fun n r hr => ⟨rfl, f, s, rfl, ?_⟩
  rw [parts_of_setup (hsetup n r hr)]
  exact hagree

theorem addHeader_mask {s : List UInt8} (hagree : Agree same c.parts f) (name value : WString)
    (first : Bool) :
    ∃ g, (c.mask f s).addHeader name value first = (c.addHeader name value first).mask g s ∧
      Agree same (c.addHeader name value first).parts g := by
  obtain ⟨hhttp, hurl, hagent, hsame⟩ := hagree
  obtain ⟨headers, heq⟩ := c.addHeader_frame name value first
  obtain ⟨headers', heq'⟩ := (c.mask f s).addHeader_frame name value first
  refine ⟨{ f with headers := headers' }, ?_, ?_⟩
  · rw [heq, heq']
    rfl
  · rw [heq]
    refine ⟨hhttp, hurl, hagent, fun hs => ?_⟩
    obtain rfl := hsame hs
    have hmask : (c.mask c.parts s).addHeader name value first
        = { c.mask c.parts s with headers := (c.addHeader name value first).headers } := by
      unfold HTTPClient.addHeader mask parts
      dsimp only
      split_ifs <;> rfl
    rw [heq', heq] at hmask
    have hheaders : headers' = headers := congrArg HTTPClient.headers hmask
    rw [hheaders]
    rfl

theorem Beside.addHeader (h : Beside same c d) (name value : WString) (first : Bool) :
    Beside same (c.addHeader name value first) (d.addHeader name value first) := by
  obtain ⟨f, s, rfl, hagree⟩ := h
  obtain ⟨g, heq, hagree'⟩ := addHeader_mask (s := s) hagree name value first
  exact ⟨g, s, heq, hagree'⟩

theorem Beside.beginHost (h : Beside same c d) (host : WString)
    (port : UInt16) (url : WString) :
    Beside same (c.beginHost host port url) (d.beginHost host port url) := by
  obtain ⟨f, s, rfl, hhttp, -, hagent, hsame⟩ := h
  refine ⟨{ f with url := cstr url, headers := [] }, s, rfl, hhttp, rfl, hagent, fun hs => ?_⟩
  obtain rfl := hsame hs
  rfl

theorem Beside.setUserAgent (h : Beside same c d) (userAgent : WString) :
    Beside same (c.setUserAgent userAgent) (d.setUserAgent userAgent) := by
  obtain ⟨f, s, rfl, hhttp, hurl, -, hsame⟩ := h
  refine ⟨{ f with userAgent := userAgent }, s, rfl, hhttp, hurl, rfl, fun hs => ?_⟩
  obtain rfl := hsame hs
  rfl

theorem Beside.setUseHTTP10 (h : Beside same c d) (useHTTP10 : Bool) :
    Beside same (c.setUseHTTP10 useHTTP10) (d.setUseHTTP10 useHTTP10) := by
  obtain ⟨f, s, rfl, -, hurl, hagent, hsame⟩ := h
  refine ⟨{ f with useHTTP10 := useHTTP10 }, s, rfl, rfl, hurl, hagent, fun hs => ?_⟩
  obtain rfl := hsame hs
  rfl

/-! ## What they send -/

/-- **The header is taken whole or not at all.** -/
def TakesHeader (c : HTTPClient) : Prop := ∀ k ∈ c.connection, k.TakesWhole

instance (c : HTTPClient) : Decidable c.TakesHeader :=
  inferInstanceAs (Decidable (∀ k ∈ c.connection, _))

/-- Two headers, both sent or not. -/
theorem sendHeader_whole (h : c.TakesHeader) (f : HeaderParts) (s : List UInt8)
    (type : WString) :
    ∃ s', (c.mask f s).sendHeader type =
      ((c.sendHeader type).1, (c.sendHeader type).2.mask f s') := by
  unfold sendHeader
  rw [connected_mask]
  dsimp only
  cases hk : c.connection with
  | none =>
    have hdown : c.connected = (false, c) := by
      rw [connected, hk]
    rw [hdown]
    exact ⟨s, rfl⟩
  | some k =>
    set k' : Connection := { k with link := (linkConnected k.link).2 }
    have hup : c.connected = ((linkConnected k.link).1, c.setConnection k') := by
      rw [connected, hk]
    rw [hup]
    dsimp only
    split
    · obtain ⟨hn, s', hwrite⟩ := Connection.write_whole (k := k') (h k hk) s
        (headerText_ne_nil (c.setConnection k') type)
        (headerText_ne_nil ((c.setConnection k').mask f s) type)
      refine ⟨s', Prod.ext hn ?_⟩
      show ((c.setConnection k').mask f s).setConnection
        (({ k' with sent := s } : Connection).write _).2 = _
      rw [hwrite]
      rfl
    · exact ⟨s, rfl⟩

/-- **A request of both**: what they have sent since `connect`. -/
def SentBeside (same : Prop) (answer : Answer) (c d c' d' : HTTPClient) : Prop :=
  ∃ f p q, Twin f p q c' d' ∧ Agree same c'.parts f ∧
    (same → p = (c.connect answer).2.sent ∧ q = (d.connect answer).2.sent)

variable {answer : Answer} {c' d' : HTTPClient}

theorem SentBeside.beside (h : SentBeside same answer c d c' d') : Beside same c' d' := by
  obtain ⟨f, p, q, ⟨x, -, hd, -⟩, hagree, -⟩ := h
  exact ⟨f, q ++ x, hd, hagree⟩

/-- The same was sent. -/
theorem SentBeside.drop_sent (h : SentBeside same answer c d c' d') (hsame : same) :
    d'.sent.drop (d.connect answer).2.sent.length =
      c'.sent.drop (c.connect answer).2.sent.length := by
  obtain ⟨f, p, q, htwin, -, hbase⟩ := h
  obtain ⟨rfl, rfl⟩ := hbase hsame
  exact htwin.drop_sent

theorem SentBeside.tcpWrite (h : SentBeside same answer c d c' d') (buf : List UInt8) :
    (d'.tcpWrite buf).1 = (c'.tcpWrite buf).1 ∧
      SentBeside same answer c d (c'.tcpWrite buf).2 (d'.tcpWrite buf).2 := by
  obtain ⟨f, p, q, htwin, hagree, hbase⟩ := h
  obtain ⟨hn, htwin'⟩ := htwin.tcpWrite buf
  exact ⟨hn, f, p, q, htwin', parts_of_setup (setup_tcpWrite c' buf) ▸ hagree, hbase⟩

/-- They announce the same. -/
theorem announce_mask {s : List UInt8} (hagree : Agree same c.parts f) (size : ℕ) :
    ∃ g, (c.mask f s).announce size = (c.announce size).mask g s ∧
      Agree same (c.announce size).parts g := by
  unfold announce
  split
  · exact addHeader_mask hagree _ _ _
  · exact ⟨f, rfl, hagree⟩

theorem sent_announce (c : HTTPClient) (size : ℕ) : (c.announce size).sent = c.sent := by
  unfold announce
  split
  · obtain ⟨headers, heq⟩ := c.addHeader_frame (ascii "Content-Length")
      (ascii (toString size)) false
    rw [heq]
    rfl
  · rfl

/-- **The header of a request of both.** -/
theorem sendHead_beside (h : Beside same c d) (answer : Answer) (type : WString) (size : ℕ)
    (hwhole : same ∨ (c.ready answer size).TakesHeader) :
    (d.sendHead answer type size).1 = (c.sendHead answer type size).1 ∧
      SentBeside same answer c d (c.sendHead answer type size).2
        (d.sendHead answer type size).2 := by
  obtain ⟨f, s, rfl, hagree⟩ := h
  obtain ⟨s₁, hconnect⟩ := connect_mask f s c answer
  have hparts := parts_of_setup (setup_connect c answer)
  rw [sendHead_eq, sendHead_eq]
  unfold SentBeside
  unfold HTTPClient.ready at hwhole
  rw [hconnect]
  generalize c.connect answer = r at hparts hwhole
  obtain ⟨up, c₁⟩ := r
  dsimp only at hparts hwhole ⊢
  cases up with
  | false =>
    exact ⟨rfl, f, c₁.sent, (c₁.mask f s₁).sent, twin_of_mask f s₁ c₁, hparts ▸
      hagree, fun _ => ⟨rfl, rfl⟩⟩
  | true =>
    obtain ⟨g, hannounce, hagree₂⟩ := announce_mask (s := s₁)
      (hparts ▸ hagree : Agree same c₁.parts f) size
    rw [if_pos rfl, if_pos rfl, hannounce]
    have hpast : (c₁.announce size).sent = c₁.sent ∧
        ((c₁.announce size).mask g s₁).sent = (c₁.mask f s₁).sent :=
      ⟨sent_announce c₁ size, hannounce ▸ sent_announce _ size⟩
    by_cases hs : same
    · obtain rfl := hagree₂.2.2.2 hs
      have htext : ((c₁.announce size).mask (c₁.announce size).parts s₁).headerText type
          = (c₁.announce size).headerText type := by
        unfold headerText
        rfl
      obtain ⟨hok, htwin⟩ :=
        (twin_of_mask (c₁.announce size).parts s₁ (c₁.announce size)).sendHeader htext
      dsimp only
      rw [hok]
      refine ⟨rfl, _, _, _, htwin, ?_, fun _ => hpast⟩
      rw [parts_of_setup (setup_sendHeader _ _)]
      exact hagree₂
    · have htakes : (c₁.announce size).TakesHeader := (or_iff_right hs).mp hwhole
      obtain ⟨s', hsend⟩ := sendHeader_whole htakes g s₁ type
      dsimp only
      rw [hsend]
      refine ⟨rfl, g, _, _, twin_of_mask g s' _, ?_, fun hs' => absurd hs' hs⟩
      rw [parts_of_setup (setup_sendHeader _ _)]
      exact hagree₂

/-- **The header and the body of both.** -/
theorem sendAll_beside (h : Beside same c d) (answer : Answer) (type : WString)
    (payload : List UInt8)
    (hwhole : same ∨ (c.ready answer payload.length).TakesHeader) :
    (d.sendAll answer type payload).1 = (c.sendAll answer type payload).1 ∧
      SentBeside same answer c d (c.sendAll answer type payload).2
        (d.sendAll answer type payload).2 := by
  obtain ⟨hok, hsent⟩ := sendHead_beside h answer type payload.length hwhole
  unfold sendAll
  generalize c.sendHead answer type payload.length =
    r, d.sendHead answer type payload.length = r' at hok hsent
  obtain ⟨ok, c₁⟩ := r
  obtain ⟨ok', d₁⟩ := r'
  dsimp only at hok hsent
  subst hok
  cases ok' with
  | error e => exact ⟨rfl, hsent⟩
  | ok u =>
    obtain ⟨hn, hsent'⟩ := hsent.tcpWrite payload
    dsimp only
    split
    · rw [hn]
      exact ⟨rfl, hsent'⟩
    · exact ⟨rfl, hsent⟩

/-- The same for a body from a stream. -/
theorem sendStream_beside (h : Beside same c d) (answer : Answer)
    (type : WString) (stream : Source)
    (size : ℕ) (ram : List UInt8) (hwhole : same ∨ (c.ready answer size).TakesHeader) :
    Fueled.Rel (fun r r' => r'.1 = r.1 ∧ r'.2.1 = r.2.1 ∧
      SentBeside same answer c d r.2.2 r'.2.2)
      (c.sendStream answer type stream size ram)
      (d.sendStream answer type stream size ram) := by
  obtain ⟨hok, hsent⟩ := sendHead_beside h answer type size hwhole
  unfold sendStream
  generalize c.sendHead answer type size = r, d.sendHead answer type size = r' at hok hsent
  obtain ⟨ok, c₁⟩ := r
  obtain ⟨ok', d₁⟩ := r'
  dsimp only at hok hsent
  subst hok
  cases ok' with
  | error e => exact Fueled.rel_pure ⟨rfl, rfl, hsent⟩
  | ok u =>
    obtain ⟨f, p, q, htwin, hagree, hbase⟩ := hsent
    dsimp only
    generalize (if int32 size = 0 then (-1 : ℤ) else int32 size) = len
    have hsetup := setup_sendLoop
      (if 0 < len ∧ len < tcpBufferSize then len.toNat else tcpBufferSize)
      ⟨c₁, stream, len, 0, ram⟩
    generalize (if 0 < len ∧ len < tcpBufferSize then len.toNat else tcpBufferSize) =
      buffSize at hsetup
    have hloop :=
      sendLoop_twin (f := f) (p := p) (q := q) buffSize (s := ⟨c₁, stream, len, 0, ram⟩)
      (t := ⟨d₁, stream, len, 0, ram⟩) ⟨htwin, rfl⟩
    intro n
    have hrel := hloop n
    have hgives := hsetup n
    show Option.Rel _ (Option.bind _ _) (Option.bind _ _)
    generalize Fueled.loop (fun s => pure (sendTurn buffSize s)) ⟨c₁, stream, len, 0, ram⟩ n =
      r,
      Fueled.loop (fun s => pure (sendTurn buffSize s)) ⟨d₁, stream, len, 0, ram⟩ n =
        r' at hrel hgives
    cases hrel with
    | none => exact Option.Rel.none
    | @some a a' hr =>
      obtain ⟨ok, s⟩ := a
      obtain ⟨ok', t⟩ := a'
      obtain ⟨hok, htwin', ht⟩ := hr
      dsimp only at hok htwin' ht
      subst hok
      rw [ht]
      refine Option.Rel.some ⟨rfl, rfl, f, p, q, htwin', ?_, hbase⟩
      rw [parts_of_setup (hgives _ rfl)]
      exact hagree

/-! ## What they receive -/

theorem receive_mask (r : Except ℤ Unit) (c : HTTPClient) (f : HeaderParts)
    (s : List UInt8) (n : ℕ) :
    receive (r, c.mask f s) n = (receive (r, c) n).map (fun t => (t.1, t.2.mask f s)) := by
  cases r with
  | error e => exact congrArg some (returnError_mask f s c e)
  | ok u =>
    show Option.bind _ _ = Option.map _ (Option.bind _ _)
    rw [handleHeaderResponse_mask, Option.map_bind, Option.bind_map]
    refine congrArg (Option.bind _) (funext fun t => ?_)
    exact congrArg some (returnError_mask f s t.2 t.1)

theorem receive_beside (h : Beside same c d) (r : Except ℤ Unit) :
    Fueled.Rel (fun t t' => t'.1 = t.1 ∧ Beside same t.2 t'.2) (receive (r, c))
      (receive (r, d)) :=
  h.keep_fueled (m := fun c => receive (r, c)) (fun f s n => receive_mask r _ f s n)
    (setup_receive (r, c))

/-- **A request of both.** -/
theorem sendRequest_beside (h : Beside same c d) (answer : Answer) (type : WString)
    (payload : List UInt8)
    (hwhole : same ∨ (c.ready answer payload.length).TakesHeader) :
    Fueled.Rel (fun t t' => t'.1 = t.1 ∧ Beside same t.2 t'.2)
      (c.sendRequest answer type payload) (d.sendRequest answer type payload) := by
  obtain ⟨hok, hsent⟩ := sendAll_beside h answer type payload hwhole
  rw [sendRequest_eq, sendRequest_eq]
  generalize c.sendAll answer type payload = r, d.sendAll answer type payload = r' at hok hsent
  obtain ⟨ok, c₁⟩ := r
  obtain ⟨ok', d₁⟩ := r'
  dsimp only at hok hsent
  subst hok
  exact receive_beside hsent.beside ok'

theorem sendRequestStream_beside (h : Beside same c d) (answer : Answer)
    (type : WString) (stream : Source)
    (size : ℕ) (ram : List UInt8) (hwhole : same ∨ (c.ready answer size).TakesHeader) :
    Fueled.Rel (fun t t' => t'.1 = t.1 ∧ Beside same t.2.2 t'.2.2)
      (c.sendRequestStream answer type (some stream) size ram)
      (d.sendRequestStream answer type (some stream) size ram) := by
  rw [sendRequestStream_eq, sendRequestStream_eq]
  refine (sendStream_beside h answer type stream size ram hwhole).bind fun r r' hr => ?_
  obtain ⟨ok, stream₁, c₁⟩ := r
  obtain ⟨ok', stream₂, d₁⟩ := r'
  obtain ⟨rfl, -, hsent⟩ := hr
  exact (receive_beside hsent.beside _).bind fun t t' ht => Fueled.rel_pure ht

/-- With the same parts they compose the same header. -/
theorem headerBlock_beside (h : Beside same c d) (hsame : same) (answer : Answer)
    (type : WString) (size : ℕ) :
    d.headerBlock answer type size = c.headerBlock answer type size := by
  obtain ⟨f, s, rfl, hagree⟩ := h
  obtain ⟨s₁, hconnect⟩ := connect_mask f s c answer
  have hparts := parts_of_setup (setup_connect c answer)
  unfold headerBlock
  rw [hconnect]
  dsimp only
  obtain ⟨g, hannounce, hagree₂⟩ :=
    announce_mask (s := s₁) (hparts ▸ hagree : Agree same (c.connect answer).2.parts f) size
  obtain rfl := hagree₂.2.2.2 hsame
  rw [hannounce]
  unfold headerText
  rfl

/-! ## The other calls -/

/-- **Two URLs for the same target**: what is cut from them differs in the
authorization only. -/
def SameTarget (url url' : WString) : Prop :=
  Option.Rel (fun u u' => u' = { u with authorization := u'.authorization })
    (parseUrl url) (parseUrl url')

theorem SameTarget.refl (url : WString) : SameTarget url url := by
  unfold SameTarget
  cases parseUrl url with
  | none => exact Option.Rel.none
  | some u => exact Option.Rel.some rfl

/-- `begin` for the same target. -/
theorem begin_beside (h : Beside same c d) {url url' : WString} (hurl : SameTarget url url')
    (heq : same → url' = url) : Beside same (c.begin url) (d.begin url') := by
  obtain ⟨f, s, rfl, hhttp, hfurl, hagent, hsame⟩ := h
  rw [begin_eq, begin_eq]
  unfold SameTarget at hurl
  generalize hu : parseUrl url = u, hu' : parseUrl url' = u' at hurl
  cases hurl with
  | none =>
    refine ⟨{ f with headers := [] }, s, rfl, hhttp, hfurl, hagent, fun hs => ?_⟩
    obtain rfl := hsame hs
    rfl
  | @some u u' htarget =>
    refine ⟨{ f with
        headers := [], url := u.path
        base64Authorization :=
          (u'.authorization.map base64Encode).getD f.base64Authorization }, s,
          ?_,
      hhttp, rfl, hagent, fun hs => ?_⟩
    · rw [htarget]
      rfl
    · obtain rfl := hsame hs
      obtain rfl := heq hs
      rw [hu] at hu'
      obtain rfl := Option.some.inj hu'
      rfl

theorem setTimeout_mask (c : HTTPClient) (f : HeaderParts) (s : List UInt8) (timeout : UInt16) :
    (c.mask f s).setTimeout timeout = (c.setTimeout timeout).mask f s := by
  unfold setTimeout
  have hfield : ({ c.mask f s with tcpTimeout := timeout } : HTTPClient)
      = ({ c with tcpTimeout := timeout } : HTTPClient).mask f s := rfl
  rw [hfield, connected_mask]
  generalize HTTPClient.connected { c with tcpTimeout := timeout } = r
  obtain ⟨up, d⟩ := r
  dsimp only
  rw [connection_mask]
  cases up with
  | false => cases d.connection <;> rfl
  | true =>
    cases d.connection with
    | none => rfl
    | some k =>
      dsimp only [Option.map_some]
      rw [setLink_mask]

theorem writeToStream_beside (h : Beside same c d) (stream : Option Sink) :
    Fueled.Rel (fun r r' => r'.2.1 = r.2.1 ∧ Beside same r.2.2 r'.2.2)
      (c.writeToStream stream) (d.writeToStream stream) := by
  obtain ⟨f, s, rfl, hagree⟩ := h
  refine Fueled.rel_of_map (fun n => writeToStream_mask f s c stream n) fun n r hr =>
    ⟨rfl, f, s, rfl, ?_⟩
  rw [parts_of_setup (c.setup_writeToStream stream n r hr)]
  exact hagree

theorem lateConnected_beside (h : Beside same c d) (link : Link) (reactions : List Reaction) :
    Option.Rel (Beside same) (c.lateConnected link reactions)
      (d.lateConnected link reactions) := by
  obtain ⟨f, s, rfl, hagree⟩ := h
  have htcp : (c.mask f s).tcp =
      c.tcp.map (fun t => { t with client := t.client.map (fun k => { k with sent := s }) }) :=
    rfl
  unfold lateConnected
  rw [htcp]
  cases c.tcp with
  | none => exact Option.Rel.none
  | some t =>
    obtain ⟨client, attempt⟩ := t
    cases attempt with
    | none => exact Option.Rel.none
    | some peer => exact Option.Rel.some ⟨f, [], rfl, hagree⟩

end HTTPClient

/-! ## Two histories -/

namespace ClientHistory

open HTTPClient

variable {same : Prop} {h h' t t' : ClientHistory}

/-- **Two histories side by side.** -/
def Beside (same : Prop) (h h' : ClientHistory) : Prop :=
  Option.Rel (HTTPClient.Beside same) h.client h'.client

/-- **The peer takes a header whole, or nothing of it.** -/
def TakesHeaders (h : ClientHistory) : ClientCall → Prop
  | .sendRequest answer _ payload _ =>
      ∀ c ∈ h.client, (c.ready answer payload.length).TakesHeader
  | .sendRequestStream answer _ (some _) size _ _ =>
      ∀ c ∈ h.client, (c.ready answer size).TakesHeader
  | _ => True

instance decidableTakesHeaders (h : ClientHistory) (e : ClientCall) :
    Decidable (h.TakesHeaders e) :=
  match e with
  | .sendRequest _ _ _ _ => inferInstanceAs (Decidable (∀ c ∈ h.client, _))
  | .sendRequestStream _ _ (some _) _ _ _ => inferInstanceAs (Decidable (∀ c ∈ h.client, _))
  | .sendRequestStream _ _ none _ _ _ => inferInstanceAs (Decidable True)
  | .begin _ => inferInstanceAs (Decidable True)
  | .beginHost _ _ _ => inferInstanceAs (Decidable True)
  | .addHeader _ _ _ => inferInstanceAs (Decidable True)
  | .setUserAgent _ => inferInstanceAs (Decidable True)
  | .setReuse _ => inferInstanceAs (Decidable True)
  | .setUseHTTP10 _ => inferInstanceAs (Decidable True)
  | .setTimeout _ => inferInstanceAs (Decidable True)
  | .collectHeaders _ => inferInstanceAs (Decidable True)
  | .writeToStream _ _ => inferInstanceAs (Decidable True)
  | .getString _ => inferInstanceAs (Decidable True)
  | .end => inferInstanceAs (Decidable True)
  | .lateConnected _ _ => inferInstanceAs (Decidable True)

/-- **The same call on both.** -/
theorem step_beside {e : ClientCall} (hrel : Beside same h h')
    (hwhole : same ∨ h.TakesHeaders e)
    (hstep : h.step e = some t) (hstep' : h'.step e = some t') :
    Beside same t t' ∧ ∃ rs rs', t.requests = h.requests ++ rs ∧
      t'.requests = h'.requests ++ rs' ∧
      (same → rs' = rs) := by
  obtain ⟨c, hc, hstep⟩ := Option.bind_eq_some_iff.mp hstep
  obtain ⟨d, hd, hstep'⟩ := Option.bind_eq_some_iff.mp hstep'
  unfold Beside at hrel
  have htakes : ∀ c' ∈ h.client, c' = c := fun c' hc' => Option.some.inj (hc'.symm.trans hc)
  rw [hc, hd] at hrel
  obtain hcd : HTTPClient.Beside same c d := by
    cases hrel with
    | some hcd => exact hcd
  -- a call that sends nothing
  have hsilent : ∀ {client client' : Option HTTPClient}, Option.Rel (HTTPClient.Beside same)
    client client' →
      Beside same (h.after client) (h'.after client') ∧ ∃ rs rs',
        (h.after client).requests = h.requests ++ rs ∧
          (h'.after client').requests = h'.requests ++ rs' ∧
        (same → rs' = rs) := fun hclient =>
          ⟨hclient, [], [], by simp [after], by simp [after], fun _ => rfl⟩
  have hkeep : ∀ op : HTTPClient → HTTPClient, (∀ f s, op (c.mask f s) = (op c).mask f s) →
      (op c).parts = c.parts →
      Option.Rel (HTTPClient.Beside same) (some (op c)) (some (op d)) :=
    fun op hop hparts => Option.Rel.some (hcd.keep hop hparts)
  cases e with
  | begin url =>
    obtain rfl := Option.some.inj hstep
    obtain rfl := Option.some.inj hstep'
    exact ⟨Option.Rel.some (begin_beside hcd (SameTarget.refl url) fun _ => rfl), [],
      [], by simp [begun],
      by simp [begun], fun _ => rfl⟩
  | beginHost host port url =>
    obtain rfl := Option.some.inj hstep
    obtain rfl := Option.some.inj hstep'
    exact ⟨Option.Rel.some (hcd.beginHost host port url), [], [], by simp [begun],
      by simp [begun], fun _ => rfl⟩
  | addHeader name value first =>
    obtain rfl := Option.some.inj hstep
    obtain rfl := Option.some.inj hstep'
    exact hsilent (Option.Rel.some (hcd.addHeader name value first))
  | setReuse reuse =>
    obtain rfl := Option.some.inj hstep
    obtain rfl := Option.some.inj hstep'
    exact hsilent (hkeep (fun c => c.setReuse reuse) (fun f s => rfl) rfl)
  | setUserAgent userAgent =>
    obtain rfl := Option.some.inj hstep
    obtain rfl := Option.some.inj hstep'
    exact hsilent (Option.Rel.some (hcd.setUserAgent userAgent))
  | setUseHTTP10 useHTTP10 =>
    obtain rfl := Option.some.inj hstep
    obtain rfl := Option.some.inj hstep'
    exact hsilent (Option.Rel.some (hcd.setUseHTTP10 useHTTP10))
  | setTimeout timeout =>
    obtain rfl := Option.some.inj hstep
    obtain rfl := Option.some.inj hstep'
    exact hsilent (hkeep (fun c => c.setTimeout timeout) (fun f s =>
      setTimeout_mask c f s timeout)
      (parts_of_setup (c.setup_setTimeout timeout)))
  | collectHeaders headerKeys =>
    obtain rfl := Option.some.inj hstep
    obtain rfl := Option.some.inj hstep'
    exact hsilent (hkeep (fun c => c.collectHeaders headerKeys) (fun f s => rfl) rfl)
  | sendRequest answer type payload turns =>
    obtain rfl := Option.some.inj hstep
    obtain rfl := Option.some.inj hstep'
    have hwhole' : same ∨ (c.ready answer payload.length).TakesHeader :=
      hwhole.imp_right fun hw => hw c hc
    obtain ⟨-, hsent⟩ := sendAll_beside hcd answer type payload hwhole'
    refine ⟨?_, _, _, rfl, rfl, fun hs => ?_⟩
    · exact (sendRequest_beside hcd answer type payload hwhole').map_run
        (fun _ _ hr => hr.2) turns
    · rw [headerBlock_beside hcd hs, Option.map_some, Option.map_some, taken, taken,
        hsent.drop_sent hs]
  | sendRequestStream answer type stream size ram turns =>
    cases stream with
    | none =>
      obtain rfl := Option.some.inj hstep
      obtain rfl := Option.some.inj hstep'
      refine hsilent (hkeep (fun c => (c.returnError errorNoStream).2) (fun f s => ?_)
        (parts_of_setup (c.setup_returnError _)))
      rw [returnError_mask]
    | some stream =>
      obtain rfl := Option.some.inj hstep
      obtain rfl := Option.some.inj hstep'
      have hwhole' : same ∨ (c.ready answer size).TakesHeader :=
        hwhole.imp_right fun hw => hw c hc
      refine ⟨?_, _, _, rfl, rfl, fun hs => ?_⟩
      · exact (sendRequestStream_beside hcd answer type stream size ram hwhole').map_run
          (fun _ _ hr => hr.2) turns
      · have hbytes := (sendStream_beside hcd answer type stream size ram hwhole').map_eq
          (f := fun r => taken c answer r.2.2) (g := fun r => taken d answer r.2.2)
          (fun _ _ hr => (hr.2.2.drop_sent hs).symm) turns
        rw [headerBlock_beside hcd hs, Option.map_map, Option.map_map]
        exact congrArg (fun bytes =>
          [SentRequest.mk size (c.headerBlock answer type size) bytes])
          hbytes.symm
  | writeToStream stream turns =>
    obtain rfl := Option.some.inj hstep
    obtain rfl := Option.some.inj hstep'
    exact hsilent ((writeToStream_beside hcd stream).map_run (fun _ _ hr => hr.2) turns)
  | getString turns =>
    obtain rfl := Option.some.inj hstep
    obtain rfl := Option.some.inj hstep'
    have hrun :
        Fueled.Rel (fun r r' => HTTPClient.Beside same r.2 r'.2) c.getString d.getString :=
      (writeToStream_beside hcd _).bind fun _ _ hr => Fueled.rel_pure hr.2
    exact hsilent (hrun.map_run (fun _ _ hr => hr) turns)
  | «end» =>
    obtain rfl := Option.some.inj hstep
    obtain rfl := Option.some.inj hstep'
    exact hsilent (hkeep HTTPClient.end (fun f s => end_mask f s c)
      (parts_of_setup c.setup_end))
  | lateConnected link reactions =>
    obtain ⟨c₁, hc₁, rfl⟩ := Option.map_eq_some_iff.mp hstep
    obtain ⟨d₁, hd₁, rfl⟩ := Option.map_eq_some_iff.mp hstep'
    have hlate := lateConnected_beside hcd link reactions
    rw [hc₁, hd₁] at hlate
    exact hsilent hlate

/-! ## Which credentials are in force -/

/-- The credentials in a URL, as `begin` finds them. -/
def urlAuthorization (url : WString) : Option WString :=
  (parseUrl url).bind ParsedUrl.authorization

/-- The credentials in force after a call. -/
def credentialsAfter (credentials : WString) : ClientCall → WString
  | .begin url => (urlAuthorization url).getD credentials
  | _ => credentials

/-- **The credentials in force**: those of the last URL that had any. -/
def inForce (es : List ClientCall) : WString := es.foldl credentialsAfter []

/-- What a call leaves of the authorization. -/
theorem authorization_step {credentials : WString} {e : ClientCall}
    (h' : ∀ c ∈ h.client, c.base64Authorization = base64Encode credentials)
    (hstep : h.step e = some t) :
    ∀ c ∈ t.client, c.base64Authorization = base64Encode (credentialsAfter credentials e) := by
  obtain ⟨c, hc, heffect⟩ := effect_of_step hstep
  have hauth := h' c hc
  have hone : ∀ {d : HTTPClient} {P : HTTPClient → Prop}, P d → ∀ e ∈ some d, P e :=
    fun hd e he => by
    obtain rfl := Option.some.inj he
    exact hd
  have hsetup : ∀ {d : HTTPClient}, d.setup = c.setup →
      d.base64Authorization = base64Encode credentials :=
    fun heq => (congrArg (fun u : WString × HeaderParts => u.2.base64Authorization) heq).trans
      hauth
  have hready : ∀ (answer : Answer) (size : ℕ) {d : HTTPClient}, d.setup =
    (c.ready answer size).setup →
      d.base64Authorization = base64Encode credentials := fun answer size d heq => by
    have hconnect := hsetup (setup_connect c answer)
    refine (congrArg (fun u : WString × HeaderParts => u.2.base64Authorization) heq).trans ?_
    show (c.ready answer size).base64Authorization = _
    unfold ready announce
    split_ifs
    · obtain ⟨headers, hadd⟩ := (c.connect answer).2.addHeader_frame (ascii "Content-Length")
        (ascii (toString size)) false
      rw [hadd]
      exact hconnect
    · exact hconnect
    · exact hconnect
  cases heffect with
  | begin url =>
    refine hone ?_
    rw [begin_eq, credentialsAfter, urlAuthorization]
    cases parseUrl url with
    | none => exact hauth
    | some u =>
      show (u.authorization.map base64Encode).getD c.base64Authorization = _
      rw [hauth, Option.bind_some]
      cases u.authorization <;> rfl
  | beginHost host port url => exact hone hauth
  | addHeader name value first =>
    refine hone ?_
    obtain ⟨headers, hadd⟩ := c.addHeader_frame name value first
    rw [hadd]
    exact hauth
  | setUserAgent userAgent => exact hone hauth
  | setUseHTTP10 useHTTP10 => exact hone hauth
  | sendRequest answer type payload turns client sent hclient =>
    exact fun d hd => hready answer payload.length (hclient d hd)
  | sendRequestStream answer type stream size ram turns client sent hclient =>
    exact fun d hd => hready answer size (hclient d hd)
  | keep _ client hbegin hclient =>
    have hsame : credentialsAfter credentials e = credentials := by
      cases e with
      | begin url => exact absurd rfl (hbegin url)
      | _ => rfl
    rw [hsame]
    exact fun d hd => hsetup (hclient d hd)

/-- **The authorization is that of the credentials in force**, over any run. -/
theorem authorization_of_run {es : List ClientCall} {credentials : WString}
    (h' : ∀ c ∈ h.client, c.base64Authorization = base64Encode credentials)
    (hrun : machine.run h es = some t) :
    ∀ c ∈ t.client, c.base64Authorization =
      base64Encode (es.foldl credentialsAfter credentials) := by
  induction es generalizing h credentials with
  | nil =>
    obtain rfl := Option.some.inj hrun
    exact h'
  | cons e es ih =>
    obtain ⟨u, hu, hrun⟩ := (Machine.run_cons_eq_some machine).mp hrun
    exact ih (authorization_step h' hu) hrun

/-! ## Calls that differ in the credentials -/

/-- **The same call, but for the credentials in a URL.** -/
def SameButCredentials (e e' : ClientCall) : Prop :=
  e' = e ∨ ∃ u u' : Url, e = .begin u.text ∧ e' = .begin u'.text ∧ u.text.length < 2 ^ 32 ∧
    u'.text.length < 2 ^ 32 ∧ u'.protocol = u.protocol ∧ u'.host = u.host ∧ u'.path = u.path

/-- Other credentials, the same target. -/
theorem sameTarget_of_url {u u' : Url} (hlen : u.text.length < 2 ^ 32)
    (hlen' : u'.text.length < 2 ^ 32)
    (hprotocol : u'.protocol = u.protocol) (hhost : u'.host = u.host)
    (hpath : u'.path = u.path) :
    SameTarget u.text u'.text := by
  unfold SameTarget
  rw [Url.parseUrl_text hlen, Url.parseUrl_text hlen', hprotocol, hhost, hpath]
  split
  · exact Option.Rel.none
  · refine Option.Rel.some ?_
    unfold parseHost
    dsimp only
    split <;> rfl

/-- **Such calls keep two histories side by side.** -/
theorem step_sameButCredentials {e e' : ClientCall} (hrel : Beside False h h')
    (he : SameButCredentials e e')
    (hwhole : h.TakesHeaders e) (hstep : h.step e = some t) (hstep' : h'.step e' = some t') :
    Beside False t t' := by
  rcases he with rfl | ⟨u, u', rfl, rfl, hlen, hlen', hprotocol, hhost, hpath⟩
  · exact (step_beside hrel (Or.inr hwhole) hstep hstep').1
  · obtain ⟨c, hc, hstep⟩ := Option.bind_eq_some_iff.mp hstep
    obtain ⟨d, hd, hstep'⟩ := Option.bind_eq_some_iff.mp hstep'
    obtain rfl := Option.some.inj hstep
    obtain rfl := Option.some.inj hstep'
    unfold Beside at hrel
    rw [hc, hd] at hrel
    cases hrel with
    | some hcd =>
      exact Option.Rel.some
        (begin_beside hcd (sameTarget_of_url hlen hlen' hprotocol hhost hpath) False.elim)

theorem run_sameButCredentials {es es' : List ClientCall} (hrel : Beside False h h')
    (hes : List.Forall₂ SameButCredentials es es') (hwhole : machine.Along TakesHeaders h es)
    (hrun : machine.run h es = some t) (hrun' : machine.run h' es' = some t') :
    Beside False t t' := by
  induction hes generalizing h h' with
  | nil =>
    obtain rfl := Option.some.inj hrun
    obtain rfl := Option.some.inj hrun'
    exact hrel
  | cons he _ ih =>
    obtain ⟨u, hu, hrun⟩ := (Machine.run_cons_eq_some machine).mp hrun
    obtain ⟨u', hu', hrun'⟩ := (Machine.run_cons_eq_some machine).mp hrun'
    exact ih (step_sameButCredentials hrel he hwhole.1 hu hu') (hwhole.2 u hu) hrun hrun'

/-! ## From the next `begin` on -/

/-- `begin`, in either form. -/
def isBegin : ClientCall → Bool
  | .begin _ => true
  | .beginHost _ _ _ => true
  | _ => false

/-- Without headers and with one authorization, the clients have the same
parts. -/
theorem beside_of_eq {c d : HTTPClient} (h : HTTPClient.Beside False c d)
    (hheaders : d.headers = c.headers)
    (hauthorization : d.base64Authorization = c.base64Authorization) :
    HTTPClient.Beside same c d := by
  obtain ⟨f, s, rfl, hhttp, hurl, hagent, -⟩ := h
  refine ⟨f, s, rfl, hhttp, hurl, hagent, fun _ => ?_⟩
  obtain ⟨http, url, headers, agent, authorization⟩ := f
  dsimp only at hhttp hurl hagent
  unfold parts
  rw [hhttp, hurl, hagent, ← hheaders, ← hauthorization]
  rfl

/-- A `begin` leaves no headers. -/
theorem headers_of_begin {e : ClientCall} (he : isBegin e = true) (hstep : h.step e = some t) :
    ∀ c ∈ t.client, c.headers = [] := by
  obtain ⟨c, hc, hstep⟩ := Option.bind_eq_some_iff.mp hstep
  intro d hd
  cases e with
  | begin url =>
    obtain rfl := Option.some.inj hstep
    obtain rfl := Option.some.inj hd
    rw [begin_eq]
    cases parseUrl url <;> rfl
  | beginHost host port url =>
    obtain rfl := Option.some.inj hstep
    obtain rfl := Option.some.inj hd
    rfl
  | _ => cases he

/-- **The same calls on histories that have all but the past in common.** -/
theorem run_beside {es : List ClientCall} (hrel : Beside True h h')
    (hrun : machine.run h es = some t)
    (hrun' : machine.run h' es = some t') :
    ∃ rs, t.requests = h.requests ++ rs ∧ t'.requests = h'.requests ++ rs := by
  induction es generalizing h h' with
  | nil =>
    obtain rfl := Option.some.inj hrun
    obtain rfl := Option.some.inj hrun'
    exact ⟨[], by simp, by simp⟩
  | cons e es ih =>
    obtain ⟨u, hu, hrun⟩ := (Machine.run_cons_eq_some machine).mp hrun
    obtain ⟨u', hu', hrun'⟩ := (Machine.run_cons_eq_some machine).mp hrun'
    obtain ⟨hnext, rs, rs', hrs, hrs', heq⟩ := step_beside hrel (Or.inl trivial) hu hu'
    obtain ⟨more, hmore, hmore'⟩ := ih hnext hrun hrun'
    exact ⟨rs ++ more, by rw [hmore, hrs, List.append_assoc], by rw [hmore', hrs', heq trivial,
      List.append_assoc]⟩

/-- **When credentials do not leak.** Two histories of a client differ in the
credentials of their URLs only, and the same `begin` follows. If the
credentials then in force are the same, the client sends the same from there
on, whatever is called. -/
theorem requests_of_inForce {es es' after : List ClientCall} {b : ClientCall}
    (hb : isBegin b = true)
    (hes : List.Forall₂ SameButCredentials es es') (hwhole : machine.Along TakesHeaders init es)
    (hforce : inForce (es ++ [b]) = inForce (es' ++ [b]))
    (hrun : machine.run init (es ++ [b]) = some h)
    (hrun' : machine.run init (es' ++ [b]) = some h') (hafter : machine.run h after = some t)
    (hafter' : machine.run h' after = some t') :
    t.requests.drop h.requests.length = t'.requests.drop h'.requests.length := by
  have hinit : ∀ c ∈ init.client, c.base64Authorization = base64Encode [] := fun c hc => by
    obtain rfl := Option.some.inj hc
    rfl
  have hauth := authorization_of_run hinit hrun
  have hauth' := authorization_of_run hinit hrun'
  rw [Machine.run_append] at hrun hrun'
  obtain ⟨g, hg, hrun⟩ := Option.bind_eq_some_iff.mp hrun
  obtain ⟨g', hg', hrun'⟩ := Option.bind_eq_some_iff.mp hrun'
  obtain ⟨u, hstep, hnil⟩ := (Machine.run_cons_eq_some machine).mp hrun
  obtain rfl : u = h := Option.some.inj hnil
  obtain ⟨u', hstep', hnil⟩ := (Machine.run_cons_eq_some machine).mp hrun'
  obtain rfl : u' = h' := Option.some.inj hnil
  have hstart : Beside False init init := by
    refine Option.Rel.some ⟨HTTPClient.init.parts, [], ?_, Agree.refl _⟩
    rfl
  have hbefore : Beside False g g' := run_sameButCredentials hstart hes hwhole hg hg'
  have htakes : g.TakesHeaders b := by
    cases b with
    | begin url => trivial
    | beginHost host port url => trivial
    | _ => cases hb
  have hrel : Beside False u u' := (step_beside hbefore (Or.inr htakes) hstep hstep').1
  have hheaders := headers_of_begin hb hstep
  have hheaders' := headers_of_begin hb hstep'
  have hsame : Beside True u u' := by
    unfold Beside at hrel ⊢
    generalize u.client = c, u'.client = d at hrel hauth hauth' hheaders hheaders'
    cases hrel with
    | none => exact Option.Rel.none
    | @some c d hcd =>
      have hsent : d.base64Authorization = c.base64Authorization :=
        (hauth' d rfl).trans ((congrArg base64Encode hforce).symm.trans (hauth c rfl).symm)
      exact Option.Rel.some
        (beside_of_eq hcd ((hheaders' d rfl).trans (hheaders c rfl).symm) hsent)
  obtain ⟨rs, hrs, hrs'⟩ := run_beside hsame hafter hafter'
  rw [hrs, hrs', List.drop_left, List.drop_left]

/-- The URL of one server, with credentials or without. -/
def urlOf (authorization : Option WString)
    (plain : ∀ a ∈ authorization, ∀ b ∈ a, b ≠ 0x40 ∧ b ≠ 0x2F ∧ b ≠ 0) : Url where
  protocol := ascii "http"
  authorization := authorization
  host := ascii "a"
  path := ascii "/"
  protocol_plain := by decide
  authorization_plain := plain
  host_plain := by decide
  path_plain := by decide
  path_slash := Or.inr ⟨[], rfl⟩

def urlWithout : Url := urlOf none (by simp)

def urlWith : Url := urlOf (some (ascii "u:p")) (by decide)

/-- A `GET`, and a server that answers with an empty body. -/
def get : ClientCall :=
  .sendRequest (.opened ⟨[], 0, 0, [], false⟩
    [⟨none, [⟨ascii "HTTP/1.1 200 OK\r\nContent-Length: 0\r\n\r\n", 1⟩], false⟩,
      ⟨none, [⟨ascii "HTTP/1.1 200 OK\r\nContent-Length: 0\r\n\r\n", 1⟩], false⟩])
    (ascii "GET") [] 9

/-- A `GET` from a server, and another `begin` with credentials. -/
def past (u : Url) : List ClientCall := [.begin u.text, get, .begin (ascii "http://v:q@c/")]

/-- A run in two parts that goes through. -/
theorem exists_of_isSome (es after : List ClientCall)
    (h' : ((machine.run init es).bind (fun h => machine.run h after)).isSome = true) :
    ∃ h t, machine.run init es = some h ∧ machine.run h after = some t := by
  obtain ⟨t, ht⟩ := Option.isSome_iff_exists.mp h'
  obtain ⟨h, hh, ht⟩ := Option.bind_eq_some_iff.mp ht
  exact ⟨h, t, hh, ht⟩

/-- Both histories have had other credentials since. -/
theorem requests_of_inForce_later : ∃ h h' t t' : ClientHistory,
    machine.run init (past urlWith ++ [.begin (ascii "http://b/")]) = some h ∧
      machine.run init (past urlWithout ++ [.begin (ascii "http://b/")]) = some h' ∧
      machine.run h [get] = some t ∧ machine.run h' [get] = some t' ∧
      t.requests.drop h.requests.length = t'.requests.drop h'.requests.length := by
  have hsame : List.Forall₂ SameButCredentials (past urlWith) (past urlWithout) :=
    .cons (Or.inr ⟨urlWith, urlWithout, rfl,
      rfl, by decide, by decide, rfl, rfl, rfl⟩)
      (.cons (Or.inl rfl) (.cons (Or.inl rfl) .nil))
  have hruns : ((machine.run init (past urlWith ++ [.begin (ascii "http://b/")])).bind
        (fun h => machine.run h [get])).isSome = true ∧
      ((machine.run init (past urlWithout ++ [.begin (ascii "http://b/")])).bind
        (fun h => machine.run h [get])).isSome = true := by
    decide +kernel
  obtain ⟨h, t, hh, ht⟩ := exists_of_isSome _ _ hruns.1
  obtain ⟨h', t', hh', ht'⟩ := exists_of_isSome _ _ hruns.2
  exact ⟨h, h', t, t', hh, hh', ht, ht', requests_of_inForce rfl hsame (by decide +kernel)
    (by decide +kernel)
    hh hh' ht ht'⟩

/-- The request of `get` to the next server, with these fields behind the
usual ones. -/
def getText (fields : String) : List UInt8 :=
  ascii "GET / HTTP/1.1\r\nHost: b\r\n" ++ ascii "User-Agent: ESP31BHTTPClient\r\n" ++
    ascii "Connection: close\r\n" ++
    ascii "Accept-Encoding: identity;q=1 chunked;q=0.1 *;q=0\r\n" ++
    ascii fields ++ ascii "\r\n"

/-- **The next server gets the password**, where the URL before had one. -/
theorem not_requests_of_begin : ∃ h h' t t' : ClientHistory,
    List.Forall₂ SameButCredentials [.begin urlWith.text] [.begin urlWithout.text] ∧
      urlAuthorization (ascii "http://b/") = none ∧
      machine.run init ([.begin urlWith.text] ++ [.begin (ascii "http://b/")]) = some h ∧
      machine.run init ([.begin urlWithout.text] ++ [.begin (ascii "http://b/")]) = some h' ∧
      machine.run h [get] = some t ∧ machine.run h' [get] = some t' ∧
      (t.requests.drop h.requests.length).map SentRequest.bytes =
        [some (getText "Authorization: Basic dTpw\r\n")] ∧
      (t'.requests.drop h'.requests.length).map SentRequest.bytes = [some (getText "")] := by
  have hsame : List.Forall₂ SameButCredentials [.begin urlWith.text] [.begin urlWithout.text] :=
    .cons (Or.inr ⟨urlWith, urlWithout, rfl,
      rfl, by decide, by decide, rfl, rfl, rfl⟩) .nil
  obtain ⟨h, t, hh, ht⟩ :=
    exists_of_isSome ([.begin urlWith.text] ++ [.begin (ascii "http://b/")])
    [get]
    (by decide)
  obtain ⟨h', t', hh', ht'⟩ := exists_of_isSome
    ([.begin urlWithout.text] ++ [.begin (ascii "http://b/")]) [get]
    (by decide)
  have hwith : ∀ h ∈ machine.run init ([.begin urlWith.text] ++ [.begin (ascii "http://b/")]),
      ∀ t ∈ machine.run h [get], (t.requests.drop h.requests.length).map SentRequest.bytes =
        [some (getText "Authorization: Basic dTpw\r\n")] := by
    decide +kernel
  have hwithout :
      ∀ h ∈ machine.run init ([.begin urlWithout.text] ++ [.begin (ascii "http://b/")]),
      ∀ t ∈ machine.run h [get], (t.requests.drop h.requests.length).map SentRequest.bytes =
        [some (getText "")] := by
    decide +kernel
  exact ⟨h, h', t, t', hsame, by decide +kernel, hh, hh', ht, ht', hwith h hh t ht,
    hwithout h' hh' t' ht'⟩

end ClientHistory
