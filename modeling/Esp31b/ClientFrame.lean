import Esp31b.RequestHeader

/-!
# What a client reads while it works

Of the fields of an `HTTPClient` five are read by `sendHeader` only: the URL,
the user agent, the authorization, the protocol version and `_Headers`. And
nobody reads what has been sent. `mask` puts other values in their places, and
every function below gives the same result on a masked client, its own fields
masked in the same way. That is at once a frame property – no function
changes these fields but those that are there to change them – and what two
runs have in common that differ in nothing else.

Writing is the exception: it appends to what has been sent. `Twin` relates two
clients that have sent the same since some point in time.
-/

namespace Connection

/-- A write and what was sent before. -/
theorem write_sent (k : Connection) (s : List UInt8) (buf : List UInt8) :
    ({ k with sent := s } : Connection).write buf
      = ((k.write buf).1, { (k.write buf).2 with sent := s ++ buf.take (k.write buf).1 }) := by
  unfold write
  dsimp only
  split
  · simp
  · split
    · simp
    · rename_i r rest _
      have htake : buf.take (min (r.room.getD buf.length) buf.length) =
          buf.take (r.room.getD buf.length) := by
        rw [← List.take_take, List.take_length]
      rw [htake]

theorem sent_write (k : Connection) (buf : List UInt8) :
    (k.write buf).2.sent = k.sent ++ buf.take (k.write buf).1 := by
  have h := k.write_sent k.sent buf
  exact congrArg (fun r => r.2.sent) h

end Connection

namespace HTTPClient

/-- **What only `sendHeader` reads.** -/
structure HeaderParts where
  useHTTP10 : Bool
  url : WString
  headers : WString
  userAgent : WString
  base64Authorization : WString
  deriving DecidableEq

/-- These fields of a client. -/
def parts (c : HTTPClient) : HeaderParts :=
  ⟨c.useHTTP10, c.url, c.headers, c.userAgent, c.base64Authorization⟩

/-- **A client with other values** in the fields that only `sendHeader` reads,
and another past. -/
def mask (f : HeaderParts) (s : List UInt8) (c : HTTPClient) : HTTPClient :=
  { c with
    useHTTP10 := f.useHTTP10
    url := f.url
    headers := f.headers
    userAgent := f.userAgent
    base64Authorization := f.base64Authorization
    tcp :=
      c.tcp.map (fun t => { t with client := t.client.map (fun k => { k with sent := s }) }) }

variable (f : HeaderParts) (s : List UInt8) (c : HTTPClient)

@[simp] theorem parts_mask : (c.mask f s).parts = f := rfl

theorem connection_mask :
    (c.mask f s).connection = c.connection.map (fun k => { k with sent := s }) := by
  unfold connection mask
  cases c.tcp <;> rfl

/-- A client masked with what it has. -/
theorem mask_self : c.mask c.parts c.sent = c := by
  obtain ⟨tcp, _, _, _, _, _, _, _, _, _, _, _, _, _, _⟩ := c
  cases tcp with
  | none => rfl
  | some t =>
    obtain ⟨client, attempt⟩ := t
    cases client <;> rfl

theorem mask_mask (g : HeaderParts) (s' : List UInt8) :
    (c.mask f s).mask g s' = c.mask g s' := by
  obtain ⟨tcp, _, _, _, _, _, _, _, _, _, _, _, _, _, _⟩ := c
  cases tcp with
  | none => rfl
  | some t =>
    obtain ⟨client, attempt⟩ := t
    cases client <;> rfl

/-- Without a connection there is no past. -/
theorem mask_sent : c.mask f (c.mask f s).sent = c.mask f s := by
  rw [← mask_mask f s c f, ← parts_mask f s c]
  exact mask_self (c.mask f s)

theorem setConnection_mask (k : Connection) :
    (c.mask f s).setConnection k = (c.setConnection k).mask f k.sent := rfl

theorem setLink_mask (l : Link) : (c.mask f s).setLink l = (c.setLink l).mask f s := by
  unfold setLink
  rw [connection_mask]
  cases c.connection <;> rfl

theorem connected_mask : (c.mask f s).connected = (c.connected.1, c.connected.2.mask f s) := by
  unfold connected
  rw [connection_mask]
  cases c.connection <;> rfl

theorem returnError_mask (error : ℤ) :
    (c.mask f s).returnError error =
    ((c.returnError error).1, (c.returnError error).2.mask f s) := by
  unfold returnError
  rw [connected_mask]
  split
  · dsimp only
    split <;> rfl
  · rfl

theorem end_mask : (c.mask f s).end = c.end.mask f s := by
  unfold HTTPClient.end
  rw [connected_mask]
  dsimp only
  split
  · have hfields : (c.connected.2.mask f s).reuse = c.connected.2.reuse ∧
        (c.connected.2.mask f s).canReuse = c.connected.2.canReuse := ⟨rfl, rfl⟩
    rw [hfields.1, hfields.2]
    split <;> rfl
  · rfl

theorem finish_mask (r : Except ℤ ℤ) :
    (c.mask f s).finish r = ((c.finish r).1, (c.finish r).2.mask f s) := by
  cases r with
  | error e => exact returnError_mask f s c e
  | ok ret =>
    unfold finish
    rw [end_mask]

/-! ## The response -/

theorem handleHeaderResponse_mask (n : ℕ) : (c.mask f s).handleHeaderResponse n
    = (c.handleHeaderResponse n).map (fun r => (r.1, r.2.mask f s)) := by
  unfold handleHeaderResponse
  rw [connected_mask]
  generalize c.connected = r
  obtain ⟨up, d⟩ := r
  dsimp only
  rw [connection_mask]
  cases up with
  | false => cases d.connection <;> rfl
  | true =>
    cases hk : d.connection with
    | none => rfl
    | some k =>
      dsimp only [Option.map_some]
      show Option.bind _ _ = Option.map _ (Option.bind _ _)
      rw [Option.map_bind]
      refine congrArg (Option.bind _) (funext fun r => ?_)
      obtain ⟨found, r, link⟩ := r
      dsimp only
      rw [setLink_mask]
      rfl

theorem writeToStream_mask (stream : Option Sink) (n : ℕ) : (c.mask f s).writeToStream stream n
    = (c.writeToStream stream n).map (fun r => (r.1, r.2.1, r.2.2.mask f s)) := by
  unfold writeToStream
  cases stream with
  | none =>
    dsimp only
    rw [returnError_mask]
    rfl
  | some sink =>
    dsimp only
    rw [connected_mask]
    generalize c.connected = r
    obtain ⟨up, d⟩ := r
    dsimp only
    rw [connection_mask, show (d.mask f s).transferEncoding = d.transferEncoding from rfl,
      show (d.mask f s).size = d.size from rfl, returnError_mask]
    cases up with
    | false => cases d.connection <;> rfl
    | true =>
      cases hk : d.connection with
      | none => rfl
      | some k =>
        dsimp only [Option.map_some]
        cases d.transferEncoding with
        | identity =>
          show Option.bind _ _ = Option.map _ (Option.bind _ _)
          rw [Option.map_bind]
          refine congrArg (Option.bind _) (funext fun r => ?_)
          obtain ⟨ret, link, sink'⟩ := r
          dsimp only
          rw [setLink_mask, finish_mask]
          rfl
        | chunked =>
          show Option.bind _ _ = Option.map _ (Option.bind _ _)
          rw [Option.map_bind]
          refine congrArg (Option.bind _) (funext fun r => ?_)
          obtain ⟨res, t⟩ := r
          dsimp only
          rw [setLink_mask]
          show (some _ : Option (ℤ × Option Sink × HTTPClient)) = some _
          have hsize : ({ (d.setLink t.link).mask f s with size := t.total } : HTTPClient)
              = ({ d.setLink t.link with size := t.total } : HTTPClient).mask f s := rfl
          rw [hsize, finish_mask]

/-! ## What is sent -/

theorem sent_connected : c.connected.2.sent = c.sent := by
  unfold connected
  cases hk : c.connection with
  | none => rfl
  | some k =>
    unfold sent
    rw [hk]
    rfl

theorem sent_tcpWrite (buf : List UInt8) :
    (c.tcpWrite buf).2.sent = c.sent ++ buf.take (c.tcpWrite buf).1 := by
  unfold tcpWrite
  cases hk : c.connection with
  | none => simp
  | some k =>
    have hsent : c.sent = k.sent := by
      unfold sent
      rw [hk]
      rfl
    rw [hsent]
    exact k.sent_write buf

theorem tcpWrite_mask (buf : List UInt8) : (c.mask f s).tcpWrite buf
    = ((c.tcpWrite buf).1, (c.tcpWrite buf).2.mask f (s ++ buf.take (c.tcpWrite buf).1)) := by
  unfold tcpWrite
  rw [connection_mask]
  cases hk : c.connection with
  | none => simp
  | some k =>
    dsimp only [Option.map_some]
    rw [k.write_sent]
    rfl

theorem headerText_connected (type : WString) :
    c.connected.2.headerText type = c.headerText type := by
  unfold connected headerText
  cases c.connection <;> rfl

/-- **Clients that send the same.** They had sent `p` and `q`, the second has
the fields `f`, and since then they have sent the same bytes. -/
def Twin (f : HeaderParts) (p q : List UInt8) (c d : HTTPClient) : Prop :=
  ∃ x, c.sent = p ++ x ∧ d = c.mask f (q ++ x) ∧ d.sent = q ++ x

variable {f s c} {d : HTTPClient} {p q : List UInt8}

theorem twin_of_mask (f : HeaderParts) (s : List UInt8) (c : HTTPClient) :
    Twin f c.sent (c.mask f s).sent c (c.mask f s) :=
  ⟨[], by simp, by rw [List.append_nil, mask_sent], by simp⟩

/-- What they have sent since then. -/
theorem Twin.drop_sent (h : Twin f p q c d) : d.sent.drop q.length = c.sent.drop p.length := by
  obtain ⟨x, hc, -, hd⟩ := h
  rw [hc, hd, List.drop_left, List.drop_left]

theorem Twin.connected (h : Twin f p q c d) :
    d.connected.1 = c.connected.1 ∧ Twin f p q c.connected.2 d.connected.2 := by
  obtain ⟨x, hc, rfl, hd⟩ := h
  refine ⟨by rw [connected_mask], x, by rw [sent_connected, hc], by rw [connected_mask], ?_⟩
  rw [sent_connected, hd]

theorem Twin.tcpWrite (h : Twin f p q c d) (buf : List UInt8) :
    (d.tcpWrite buf).1 = (c.tcpWrite buf).1 ∧ Twin f p q (c.tcpWrite buf).2
    (d.tcpWrite buf).2 := by
  obtain ⟨x, hc, rfl, hd⟩ := h
  have hn : ((c.mask f (q ++ x)).tcpWrite buf).1 = (c.tcpWrite buf).1 := by rw [tcpWrite_mask]
  refine ⟨hn, x ++ buf.take (c.tcpWrite buf).1, ?_, ?_, ?_⟩
  · rw [sent_tcpWrite, hc, List.append_assoc]
  · rw [tcpWrite_mask, List.append_assoc]
  · rw [sent_tcpWrite, hd, hn, List.append_assoc]

/-- The same text is sent alike. -/
theorem Twin.sendHeader (h : Twin f p q c d) {type : WString}
    (htext : d.headerText type = c.headerText type) :
    (d.sendHeader type).1 = (c.sendHeader type).1 ∧
      Twin f p q (c.sendHeader type).2 (d.sendHeader type).2 := by
  obtain ⟨hup, htwin⟩ := h.connected
  unfold HTTPClient.sendHeader
  dsimp only
  rw [hup, headerText_connected, headerText_connected, htext]
  obtain ⟨hn, hwrite⟩ := htwin.tcpWrite (c.headerText type)
  split
  · exact ⟨by rw [hn], hwrite⟩
  · exact ⟨rfl, htwin⟩

/-! ## The body from a stream -/

/-- The loop of `sendRequest` over twins. -/
def TwinBlock (f : HeaderParts) (p q : List UInt8) (s t : UploadBlock) : Prop :=
  Twin f p q s.client t.client ∧ t = { s with client := t.client }

/-- The other block is this one with the twin of its client. -/
theorem TwinBlock.twin {s t : UploadBlock} (h : TwinBlock f p q s t) :
    ∃ d, Twin f p q s.client d ∧ t = { s with client := d } :=
  ⟨t.client, h.1, h.2⟩

theorem sendBlock_twin (buffSize : ℕ) {s t : UploadBlock} (h : TwinBlock f p q s t)
    (sizeAvailable : ℤ) :
    Sum.LiftRel (TwinBlock f p q) (fun r r' => r'.1 = r.1 ∧ TwinBlock f p q r.2 r'.2)
      (sendBlock buffSize s sizeAvailable) (sendBlock buffSize t sizeAvailable) := by
  obtain ⟨d, htwin, rfl⟩ := h.twin
  obtain ⟨client, stream, len, bytesWritten, buff⟩ := s
  unfold sendBlock
  dsimp only
  generalize stream.readBytes _ = got
  obtain ⟨got, rest⟩ := got
  dsimp only
  obtain ⟨hn, hfirst⟩ := htwin.tcpWrite got
  rw [hn]
  generalize (if (0 : ℤ) < len ∧ len < sizeAvailable then len else sizeAvailable) = m
  generalize (if (buffSize : ℤ) < m then (buffSize : ℤ) else m) = m
  obtain ⟨hn₂, hsecond⟩ := hfirst.tcpWrite
    (((got ++ buff.drop got.length).drop (client.tcpWrite got).1).take
    (WString.pos (m - (client.tcpWrite got).1)))
  rw [hn₂]
  split
  · split
    · exact .inr ⟨rfl, hsecond, rfl⟩
    · exact .inl ⟨hsecond, rfl⟩
  · exact .inl ⟨hfirst, rfl⟩

theorem sendTurn_twin (buffSize : ℕ) {s t : UploadBlock} (h : TwinBlock f p q s t) :
    Sum.LiftRel (TwinBlock f p q) (fun r r' => r'.1 = r.1 ∧ TwinBlock f p q r.2 r'.2)
      (sendTurn buffSize s) (sendTurn buffSize t) := by
  obtain ⟨d, htwin, rfl⟩ := h.twin
  obtain ⟨client, stream, len, bytesWritten, buff⟩ := s
  obtain ⟨hup, hnext⟩ := htwin.connected
  unfold sendTurn
  dsimp only
  rw [hup]
  generalize stream.available = ready
  obtain ⟨ready, stream⟩ := ready
  dsimp only
  split
  · exact .inr ⟨rfl, hnext, rfl⟩
  · split
    · generalize stream.available = ready₂
      obtain ⟨ready₂, stream₂⟩ := ready₂
      dsimp only
      split
      · exact sendBlock_twin buffSize ⟨hnext, rfl⟩ _
      · exact .inl ⟨hnext, rfl⟩
    · exact .inr ⟨rfl, hnext, rfl⟩

theorem sendLoop_twin (buffSize : ℕ) {s t : UploadBlock} (h : TwinBlock f p q s t) :
    Fueled.Rel (fun r r' => r'.1 = r.1 ∧ TwinBlock f p q r.2 r'.2)
      (Fueled.loop (fun s => pure (sendTurn buffSize s)) s)
      (Fueled.loop (fun s => pure (sendTurn buffSize s)) t) :=
  Fueled.rel_loop (fun _ _ hst => Fueled.rel_pure (sendTurn_twin buffSize hst)) h

/-! ## Connecting -/

/-- A masked client finds the same connection. -/
theorem connect_mask (f : HeaderParts) (s : List UInt8) (c : HTTPClient) (answer : Answer) :
    ∃ s', (c.mask f s).connect answer =
      ((c.connect answer).1, (c.connect answer).2.mask f s') := by
  unfold connect
  rw [connected_mask]
  dsimp only
  split
  · exact ⟨s, rfl⟩
  · cases answer with
    | opened link reactions =>
      refine ⟨[], ?_⟩
      dsimp only
      rw [setConnection_mask, connected_mask]
      rfl
    | refused => exact ⟨[], rfl⟩
    | unanswered => exact ⟨[], rfl⟩

/-! ## What stays -/

/-- The host, and what `sendHeader` reads. -/
def setup (c : HTTPClient) : WString × HeaderParts := (c.host, c.parts)

variable (c : HTTPClient)

theorem setup_setLink (l : Link) : (c.setLink l).setup = c.setup := by
  unfold setLink
  cases c.connection <;> rfl

theorem setup_connected : c.connected.2.setup = c.setup := by
  unfold HTTPClient.connected
  cases c.connection <;> rfl

theorem setup_returnError (error : ℤ) : (c.returnError error).2.setup = c.setup := by
  unfold returnError
  split
  · dsimp only
    split
    · exact c.setup_connected
    · exact c.setup_connected
  · rfl

theorem setup_end : c.end.setup = c.setup := by
  unfold HTTPClient.end
  dsimp only
  split_ifs
  · exact c.setup_connected
  · exact c.setup_connected
  · exact c.setup_connected

theorem setup_finish (r : Except ℤ ℤ) : (c.finish r).2.setup = c.setup := by
  cases r with
  | error e => exact c.setup_returnError e
  | ok ret => exact c.setup_end

theorem setup_tcpWrite (buf : List UInt8) : (c.tcpWrite buf).2.setup = c.setup := by
  unfold HTTPClient.tcpWrite
  cases c.connection <;> rfl

theorem setup_sendHeader (type : WString) : (c.sendHeader type).2.setup = c.setup := by
  unfold HTTPClient.sendHeader
  dsimp only
  split
  · rw [setup_tcpWrite, setup_connected]
  · exact c.setup_connected

theorem setup_connect (answer : Answer) : (c.connect answer).2.setup = c.setup := by
  unfold connect
  dsimp only
  split
  · exact c.setup_connected
  · cases answer with
    | opened link reactions =>
      rw [setup_connected]
      exact c.setup_connected
    | refused => exact c.setup_connected
    | unanswered => exact c.setup_connected

theorem setup_sendBlock (buffSize : ℕ) (s : UploadBlock) (sizeAvailable : ℤ) :
    ((sendBlock buffSize s sizeAvailable).elim id Prod.snd).client.setup = s.client.setup := by
  unfold sendBlock
  dsimp only
  split_ifs
  all_goals
    first
    | exact setup_tcpWrite _ _
    | exact (setup_tcpWrite _ _).trans (setup_tcpWrite _ _)

theorem setup_sendTurn (buffSize : ℕ) (s : UploadBlock) :
    ((sendTurn buffSize s).elim id Prod.snd).client.setup = s.client.setup := by
  unfold sendTurn
  dsimp only
  split_ifs
  · exact s.client.setup_connected
  · exact (setup_sendBlock buffSize ⟨_, _, _, _, _⟩ _).trans s.client.setup_connected
  · exact s.client.setup_connected
  · exact s.client.setup_connected

theorem setup_sendLoop (buffSize : ℕ) (s : UploadBlock) :
    (Fueled.loop (fun s => pure (sendTurn buffSize s)) s).Gives
      fun r => r.2.client.setup = s.client.setup := by
  refine Fueled.gives_loop (I := fun t => t.client.setup = s.client.setup) (fun t ht => ?_) rfl
  refine Fueled.gives_pure ?_
  have hturn := setup_sendTurn buffSize t
  cases hr : sendTurn buffSize t with
  | inl u =>
    rw [hr] at hturn
    exact hturn.trans ht
  | inr r =>
    rw [hr] at hturn
    exact hturn.trans ht

theorem setup_handleHeaderResponse :
    c.handleHeaderResponse.Gives fun r => r.2.setup = c.setup := by
  have hconnected := c.setup_connected
  unfold handleHeaderResponse
  generalize c.connected = r at hconnected
  obtain ⟨up, d⟩ := r
  dsimp only at hconnected ⊢
  split
  · refine Fueled.gives_bind _ fun r => Fueled.gives_pure ?_
    exact (d.setup_setLink r.2.2).trans hconnected
  · exact Fueled.gives_pure hconnected

theorem setup_writeToStream (stream : Option Sink) :
    (c.writeToStream stream).Gives fun r => r.2.2.setup = c.setup := by
  have hconnected := c.setup_connected
  unfold writeToStream
  cases stream with
  | none =>
    refine Fueled.gives_pure ?_
    exact c.setup_returnError errorNoStream
  | some sink =>
    generalize c.connected = r at hconnected
    obtain ⟨up, d⟩ := r
    dsimp only at hconnected ⊢
    split
    · split
      · refine Fueled.gives_bind _ fun r => Fueled.gives_pure ?_
        exact (setup_finish _ _).trans ((d.setup_setLink r.2.1).trans hconnected)
      · refine Fueled.gives_bind _ fun r => Fueled.gives_pure ?_
        exact (setup_finish _ _).trans ((d.setup_setLink r.2.link).trans hconnected)
    · exact Fueled.gives_pure ((d.setup_returnError _).trans hconnected)

end HTTPClient
