import Esp31b.Fueled
import Esp31b.TracedMem
import Esp31b.WString
import Mathlib.Data.UInt

/-!
# `DNSServer`

`processNextRequest` copies a packet into a buffer of exactly its size and
lays a `DNSHeader` of twelve bytes over it. It looks at the fields before it
knows that they are there, sends twelve bytes back where it has nothing to
say, and walks over the name, label by label, until it comes to a zero byte.
Nothing stops the walk at the end of the packet.

So it stays inside the packet when the packet has the fields that are looked
at, and, if the name is, the name ends in it (`DNSServer.inside_iff`). A
packet marked as a response is the only one that may be shorter than the
header.
-/

/-- `DNSServer`, less its socket. `ttl` is the number `_ttl` is made of. -/
structure DNSServer where
  domainName : WString
  resolvedIP : List UInt8
  ttl : UInt32
  errorReplyCode : UInt8
  deriving DecidableEq, Repr

namespace DNSServer

/-- `downcaseAndRemoveWwwPrefix`. -/
def downcaseAndRemoveWwwPrefix (domainName : WString) : WString :=
  domainName.toLowerCase.replaceEmpty (ascii "www.")

/-- The server as constructed; 3 is `NonExistentDomain`. -/
def init : DNSServer := ⟨[], [0, 0, 0, 0], 60, 3⟩

/-- `start`, its port apart. -/
def start (s : DNSServer) (domainName : WString) (resolvedIP : List UInt8) : DNSServer :=
  { s with resolvedIP := resolvedIP, domainName := downcaseAndRemoveWwwPrefix domainName }

/-- The bytes of a number as `htonl` leaves them. -/
def htonl (x : UInt32) : List UInt8 :=
  [(x >>> 24).toUInt8, (x >>> 16).toUInt8, (x >>> 8).toUInt8, x.toUInt8]

/-! ## `DNSHeader`

Bit fields are laid out from the lowest bit on, and the words are those of a
little-endian machine. -/

/-- `sizeof(DNSHeader)`. -/
def headerSize : ℕ := 12

/-- `QR == DNS_QR_QUERY`, the top bit of the third byte. -/
def isQuery (b : TracedMem) : Bool × TracedMem :=
  let (flags, b) := b.read 2
  (flags &&& 0x80 = 0, b)

/-- `OPCode == DNS_OPCODE_QUERY`, bits 3 to 6. -/
def isStandard (b : TracedMem) : Bool × TracedMem :=
  let (flags, b) := b.read 2
  (flags &&& 0x78 = 0, b)

/-- `QR = DNS_QR_RESPONSE`. -/
def setResponse (b : TracedMem) : TracedMem :=
  let (flags, b) := b.read 2
  b.writeRun 2 [flags ||| 0x80]

/-- `RCode`, bits 0 to 3 of the fourth byte, is set. -/
def setRCode (b : TracedMem) (code : UInt8) : TracedMem :=
  let (flags, b) := b.read 3
  b.writeRun 3 [(flags &&& 0xF0) ||| (code &&& 0x0F)]

/-- A word of the header is compared with a number in network order. -/
def wordIs (b : TracedMem) (p : ℕ) (word : List UInt8) : Bool × TracedMem :=
  let (bytes, b) := b.readRun p 2
  (bytes = word, b)

/-- `requestIncludesOnlyOneQuestion`. -/
def requestIncludesOnlyOneQuestion (b : TracedMem) : Bool × TracedMem :=
  let (one, b) := wordIs b 4 [0, 1]
  if one then
    let (noAnswer, b) := wordIs b 6 [0, 0]
    if noAnswer then
      let (noAuthority, b) := wordIs b 8 [0, 0]
      if noAuthority then wordIs b 10 [0, 0] else (false, b)
    else (false, b)
  else (false, b)

/-! ## The name -/

/-- A turn of the loop over the labels: the offset of the length behind the
header, and the name so far. -/
def labelTurn (s : TracedMem × ℕ × WString) :
    (TracedMem × ℕ × WString) ⊕ (WString × TracedMem) :=
  let (b, pos, parsedDomainName) := s
  let (labelLength, b) := b.read (headerSize + pos)
  let (label, b) := b.readRun (headerSize + pos + 1) labelLength.toNat
  let pos := pos + labelLength.toNat + 1
  let (next, b) := b.read (headerSize + pos)
  if next = 0 then .inr (downcaseAndRemoveWwwPrefix (parsedDomainName ++ label), b)
  else .inl (b, pos, parsedDomainName ++ label ++ ascii ".")

/-- `getDomainNameWithoutWwwPrefix`. -/
def getDomainNameWithoutWwwPrefix (b : TracedMem) : Fueled (WString × TracedMem) :=
  let (first, b) := b.read headerSize
  if first = 0 then pure ([], b) else Fueled.loop (fun s => pure (labelTurn s)) (b, 0, [])

/-! ## The replies -/

/-- `replyWithIP`: the packet, and an answer whose name is a pointer to the
question. -/
def replyWithIP (s : DNSServer) (b : TracedMem) (currentPacketSize : ℕ) :
    List UInt8 × TracedMem :=
  let b := setResponse b
  let (qdCount, b) := b.readRun 4 2
  let b := b.writeRun 6 qdCount
  let (qdCount, b) := b.readRun 4 2
  let b := b.writeRun 4 qdCount
  let (packet, b) := b.readRun 0 currentPacketSize
  (packet ++ [192, 12, 0, 1, 0, 1] ++ htonl s.ttl ++ [0, 4] ++ s.resolvedIP, b)

/-- `replyWithCustomCode`. -/
def replyWithCustomCode (s : DNSServer) (b : TracedMem) : List UInt8 × TracedMem :=
  let b := setResponse b
  let b := setRCode b s.errorReplyCode
  let b := b.writeRun 4 [0, 0]
  b.readRun 0 headerSize

/-- The buffer with a packet read into it; `behind` is what is in memory
there. -/
def received (packet : List UInt8) (behind : ByteMem) : TracedMem :=
  (TracedMem.mk behind []).writeRun 0 packet

/-- The conditions on the header of a request for an address. -/
def isAddressRequest (b : TracedMem) : Bool × TracedMem :=
  let (query, b) := isQuery b
  if query then
    let (standard, b) := isStandard b
    if standard then requestIncludesOnlyOneQuestion b else (false, b)
  else (false, b)

/-- The condition on its name. -/
def isOwnName (s : DNSServer) (b : TracedMem) : Fueled (Bool × TracedMem) :=
  if s.domainName.equalsC (ascii "*") then pure (true, b)
  else do
    let (name, b) ← getDomainNameWithoutWwwPrefix b
    return (name.equals s.domainName, b)

/-- All the conditions of a reply with the address. -/
def isOwnRequest (s : DNSServer) (b : TracedMem) : Fueled (Bool × TracedMem) :=
  let (request, b) := isAddressRequest b
  if request then isOwnName s b else pure (false, b)

/-- What is answered: the address, or that there is none, or nothing at all
where the packet is a response. -/
def answer (s : DNSServer) (currentPacketSize : ℕ) (own : Bool) (b : TracedMem) :
    Option (List UInt8) × TracedMem :=
  if own then
    let (reply, b) := replyWithIP s b currentPacketSize
    (some reply, b)
  else
    let (query, b) := isQuery b
    if query then
      let (reply, b) := replyWithCustomCode s b
      (some reply, b)
    else (none, b)

/-- `processNextRequest` on a packet, if there is memory for the buffer: the
reply, if any, and the buffer. -/
def processNextRequest (s : DNSServer) (packet : List UInt8) (allocated : Bool)
    (behind : ByteMem) :
    Fueled (Option (List UInt8) × TracedMem) :=
  if packet.length = 0 ∨ allocated = false then pure (none, ⟨behind, []⟩)
  else do
    let (own, b) ← isOwnRequest s (received packet behind)
    return answer s packet.length own b

/-! ## Where a name ends -/

/-- **A zero byte ends the name**: the labels are followed by one, `skip`
bytes of a label being still to come. -/
def nameEndsFrom : ℕ → List UInt8 → Bool
  | _, [] => false
  | skip + 1, _ :: name => nameEndsFrom skip name
  | 0, labelLength :: name => if labelLength = 0 then true
      else nameEndsFrom labelLength.toNat name

/-- The name at an offset ends in the packet. -/
def NameEnds (packet : List UInt8) (p : ℕ) : Prop := nameEndsFrom 0 (packet.drop p) = true

instance (packet : List UInt8) (p : ℕ) : Decidable (NameEnds packet p) :=
  inferInstanceAs (Decidable (nameEndsFrom 0 (packet.drop p) = true))

variable {packet : List UInt8} {b : TracedMem} {n p : ℕ}

theorem nameEndsFrom_drop (skip : ℕ) (name : List UInt8) :
    nameEndsFrom skip name = nameEndsFrom 0 (name.drop skip) := by
  induction name generalizing skip with
  | nil => cases skip <;> rfl
  | cons c name ih =>
    cases skip with
    | zero => rfl
    | succ skip => exact ih skip

theorem NameEnds.lt (h : NameEnds packet p) : p < packet.length := by
  by_contra hle
  unfold NameEnds at h
  rw [List.drop_eq_nil_of_le (by omega)] at h
  cases h

/-- **One label**: the name ends here, or behind it. -/
theorem nameEnds_iff (hp : p < packet.length) :
    NameEnds packet p ↔ packet[p] = 0 ∨ NameEnds packet (p + packet[p].toNat + 1) := by
  unfold NameEnds
  rw [List.drop_eq_getElem_cons hp, nameEndsFrom]
  by_cases h : packet[p] = 0
  · simp [h]
  · rw [if_neg h, nameEndsFrom_drop, List.drop_drop, show p + 1 + packet[p].toNat =
      p + packet[p].toNat + 1 by omega]
    simp [h]

/-! ## What each part touches -/

/-- The offset behind a label, where a zero byte ends the name. -/
def behindLabel (b : TracedMem) (pos : ℕ) : ℕ := pos + (b.mem (headerSize + pos)).toNat + 1

theorem add_behindLabel (b : TracedMem) (pos : ℕ) :
    headerSize + behindLabel b pos =
      headerSize + pos + (b.mem (headerSize + pos)).toNat + 1 := by
  unfold behindLabel
  omega

/-- The buffer after a turn of the loop over the labels. -/
def labelRead (b : TracedMem) (pos : ℕ) : TracedMem :=
  let b' := ((b.read (headerSize + pos)).2.readRun (headerSize + pos + 1)
    (b.mem (headerSize + pos)).toNat).2
  (b'.read (headerSize + behindLabel b pos)).2

/-- **It goes as far as the byte behind the label.** -/
theorem inside_labelRead (pos : ℕ) :
    (labelRead b pos).Inside n ↔ b.Inside n ∧ headerSize + behindLabel b pos < n := by
  unfold labelRead
  dsimp only
  rw [TracedMem.inside_read, TracedMem.inside_readRun, TracedMem.inside_read,
    and_assoc, and_assoc, add_behindLabel]
  exact and_congr_right fun _ => by omega

/-- **A turn of the loop over the labels.** -/
theorem labelTurn_eq (b : TracedMem) (pos : ℕ) (name : WString) :
    ∃ name', labelTurn (b, pos, name) =
      if b.mem (headerSize + behindLabel b pos) = 0 then .inr (name', labelRead b pos)
      else .inl (labelRead b pos, behindLabel b pos, name') := by
  by_cases hnext : b.mem (headerSize + behindLabel b pos) = 0
  · exact ⟨_, (if_pos hnext).trans (if_pos hnext).symm⟩
  · exact ⟨_, (if_neg hnext).trans (if_neg hnext).symm⟩

/-- The buffer holds the packet. -/
def Holds (b : TracedMem) (packet : List UInt8) : Prop :=
  ∀ i (h : i < packet.length), b.mem i = packet[i]

/-- **The walk over a name that ends in the packet** stays inside and comes to
its end. -/
theorem labelLoop_inside {pos : ℕ} {name : WString} (hb : Holds b packet)
    (hin : b.Inside packet.length)
    (hne : b.mem (headerSize + pos) ≠ 0) (hends : NameEnds packet (headerSize + pos)) :
    ∃ r : WString × TracedMem,
      (Fueled.loop (fun s => pure (labelTurn s)) (b, pos, name)).Yields r ∧
      r.2.mem = b.mem ∧ r.2.Inside packet.length := by
  refine Fueled.exists_yields_loop
    (fun s : TracedMem × ℕ × WString => s.1.mem = b.mem ∧ s.1.Inside packet.length ∧
      s.1.mem (headerSize + s.2.1) ≠ 0 ∧ NameEnds packet (headerSize + s.2.1))
    (fun s => packet.length - s.2.1)
    (fun r : WString × TracedMem => r.2.mem = b.mem ∧ r.2.Inside packet.length) ?_
    (s := (b, pos, name)) ⟨rfl, hin, hne, hends⟩
  rintro ⟨c, pos, name⟩ ⟨hmem, hin, hne, hends⟩
  dsimp only at hmem hin hne hends
  obtain ⟨name', hturn⟩ := labelTurn_eq c pos name
  have hc : ∀ i (h : i < packet.length), c.mem i = packet[i] := fun i h => hmem ▸ hb i h
  have hbehind : NameEnds packet (headerSize + behindLabel c pos) := by
    rcases (nameEnds_iff hends.lt).mp hends with hzero | hrest
    · exact absurd ((hc _ hends.lt).trans hzero) hne
    · rwa [← hc _ hends.lt, ← add_behindLabel] at hrest
  have hin' : (labelRead c pos).Inside packet.length :=
    (inside_labelRead pos).mpr ⟨hin, hbehind.lt⟩
  rw [hturn]
  by_cases hnext : c.mem (headerSize + behindLabel c pos) = 0
  · rw [if_pos hnext]
    exact Or.inl ⟨_, Fueled.yields_pure _, hmem, hin'⟩
  · rw [if_neg hnext]
    refine Or.inr ⟨_, Fueled.yields_pure _, ⟨hmem, hin', hnext, hbehind⟩, ?_⟩
    have hlt := hends.lt
    dsimp only
    unfold behindLabel
    omega

/-- **A walk that stayed inside** has come to the end of the name. -/
theorem labelLoop_ends {pos : ℕ} {name : WString} (hb : Holds b packet)
    (hne : b.mem (headerSize + pos) ≠ 0) :
    (Fueled.loop (fun s => pure (labelTurn s)) (b, pos, name)).Gives fun r =>
      r.2.mem = b.mem ∧
      (r.2.Inside packet.length → b.Inside packet.length ∧
        NameEnds packet (headerSize + pos)) := by
  refine Fueled.gives_loop (I := fun s : TracedMem × ℕ × WString => s.1.mem = b.mem ∧
    s.1.mem (headerSize + s.2.1) ≠ 0 ∧ (s.1.Inside packet.length → b.Inside packet.length ∧
      (NameEnds packet (headerSize + s.2.1) → NameEnds packet (headerSize + pos))))
    ?_ ⟨rfl, hne, fun h => ⟨h, id⟩⟩
  rintro ⟨c, pos', name⟩ ⟨hmem, hne, hkeep⟩
  dsimp only at hmem hne hkeep
  obtain ⟨name', hturn⟩ := labelTurn_eq c pos' name
  have hc : ∀ i (h : i < packet.length), c.mem i = packet[i] := fun i h => hmem ▸ hb i h
  -- what ends behind the label ends here
  have hback : (labelRead c pos').Inside packet.length → b.Inside packet.length ∧
      ∃ _ : headerSize + behindLabel c pos' < packet.length,
        (NameEnds packet (headerSize + behindLabel c pos') →
          NameEnds packet (headerSize + pos)) := by
    intro hin
    obtain ⟨hin, hlt⟩ := (inside_labelRead pos').mp hin
    obtain ⟨hin, hkeep⟩ := hkeep hin
    refine ⟨hin, hlt, fun hends => ?_⟩
    have hhere : headerSize + pos' < packet.length := by
      rw [add_behindLabel] at hlt
      omega
    rw [add_behindLabel, hc _ hhere] at hends
    exact hkeep ((nameEnds_iff hhere).mpr (Or.inr hends))
  rw [hturn]
  refine Fueled.gives_pure ?_
  split_ifs with hnext
  · refine ⟨hmem, fun hin => ?_⟩
    obtain ⟨hin, hlt, hkeep⟩ := hback hin
    exact ⟨hin, hkeep ((nameEnds_iff hlt).mpr (Or.inl ((hc _ hlt).symm.trans hnext)))⟩
  · refine ⟨hmem, hnext, fun hin => ?_⟩
    obtain ⟨hin, -, hkeep⟩ := hback hin
    exact ⟨hin, hkeep⟩

/-- **The name is read inside the packet** if it ends there. -/
theorem getDomainName_inside (hb : Holds b packet) (hin : b.Inside packet.length)
    (hends : NameEnds packet headerSize) :
    ∃ r : WString × TracedMem, (getDomainNameWithoutWwwPrefix b).Yields r ∧ r.2.mem = b.mem ∧
      r.2.Inside packet.length := by
  have hread : (b.read headerSize).2.Inside packet.length :=
    TracedMem.inside_read.mpr ⟨hin, hends.lt⟩
  unfold getDomainNameWithoutWwwPrefix
  dsimp only
  split_ifs with hfirst
  · exact ⟨_, Fueled.yields_pure _, rfl, hread⟩
  · exact labelLoop_inside (b := (b.read headerSize).2) hb hread hfirst hends

/-- It ends there if it was read inside. -/
theorem getDomainName_ends (hb : Holds b packet) :
    (getDomainNameWithoutWwwPrefix b).Gives fun r =>
    r.2.mem = b.mem ∧
    (r.2.Inside packet.length → b.Inside packet.length ∧ NameEnds packet headerSize) := by
  unfold getDomainNameWithoutWwwPrefix
  dsimp only
  split_ifs with hfirst
  · refine Fueled.gives_pure ⟨rfl, fun hin => ?_⟩
    obtain ⟨hin, hlt⟩ := TracedMem.inside_read.mp hin
    exact ⟨hin, (nameEnds_iff hlt).mpr (Or.inl ((hb _ hlt).symm.trans hfirst))⟩
  · intro n r hrun
    have hheader : Holds (b.read headerSize).2 packet := hb
    have hne : (b.read headerSize).2.mem (headerSize + 0) ≠ 0 := hfirst
    obtain ⟨hmem, hin⟩ := labelLoop_ends hheader hne n r hrun
    exact ⟨hmem, fun h => ⟨(TracedMem.inside_read.mp (hin h).1).1, (hin h).2⟩⟩

/-- **What is known of a comparison** of the run at `p` with these bytes: it
may be over before the end of the run, but not with success. -/
structure Compared (b : TracedMem) (p : ℕ) (bytes : List UInt8) (r : Bool × TracedMem) :
    Prop where
  mem : r.2.mem = b.mem
  iff : r.1 = true ↔ b.mem.slice p bytes.length = bytes
  before : ∀ {n}, r.2.Inside n → b.Inside n
  whole : ∀ {n}, r.2.Inside n → r.1 = true → p + bytes.length ≤ n
  inside : ∀ {n}, b.Inside n → p + bytes.length ≤ n → r.2.Inside n

theorem compared_wordIs (b : TracedMem) (p : ℕ) (word : List UInt8) (hword : word.length = 2) :
    Compared b p word (wordIs b p word) := by
  have hinside : ∀ n, (wordIs b p word).2.Inside n ↔ b.Inside n ∧ p + 2 ≤ n := fun n =>
    TracedMem.inside_readRun.trans (and_congr_right fun _ => by omega)
  exact {
    mem := rfl
    iff := by
      rw [hword]
      exact decide_eq_true_iff
    before := fun hin => ((hinside _).mp hin).1
    whole := fun hin _ => by
      rw [hword]
      exact ((hinside _).mp hin).2
    inside := fun hin hn => (hinside _).mpr ⟨hin, by rwa [hword] at hn⟩ }

/-- A word, and the ones behind it if it is right. -/
theorem Compared.cons (word : List UInt8) (hword : word.length = 2)
    {rest : List UInt8} {r : Bool × TracedMem}
    (h : Compared (wordIs b p word).2 (p + 2) rest r) :
    Compared b p (word ++ rest)
    (if (wordIs b p word).1 then r else (false, (wordIs b p word).2)) := by
  have hfirst := compared_wordIs b p word hword
  have hsplit : b.mem.slice p (word ++ rest).length = word ++ rest ↔
      b.mem.slice p word.length = word ∧ b.mem.slice (p + 2) rest.length = rest := by
    rw [List.length_append, ← ByteMem.slice_append, hword]
    exact ⟨fun heq => List.append_inj heq (by rw [ByteMem.length_slice, hword]),
      fun ⟨h₁, h₂⟩ => by rw [h₁, h₂]⟩
  have hlen : p + (word ++ rest).length = p + 2 + rest.length := by
    rw [List.length_append, hword, Nat.add_assoc]
  split_ifs with hword
  · exact {
      mem := h.mem
      iff := by
        rw [h.iff, hsplit]
        exact ⟨fun hrest => ⟨hfirst.iff.mp hword, hrest⟩, And.right⟩
      before := fun hin => hfirst.before (h.before hin)
      whole := fun hin hr => hlen ▸ h.whole hin hr
      inside := fun hin hn => h.inside (hfirst.inside hin (by omega)) (hlen ▸ hn) }
  · exact {
      mem := rfl
      iff := by
        rw [hsplit, ← hfirst.iff]
        exact ⟨fun hfalse => absurd hfalse Bool.false_ne_true, fun heq => absurd heq.1 hword⟩
      before := hfirst.before
      whole := fun _ hfalse => absurd hfalse Bool.false_ne_true
      inside := fun hin hn => hfirst.inside hin (by omega) }

/-- One question, and nothing else. -/
def oneQuestion : List UInt8 := [0, 1, 0, 0, 0, 0, 0, 0]

/-- **The counts** are the eight bytes behind the flags. -/
theorem compared_requestIncludesOnlyOneQuestion (b : TracedMem) :
    Compared b 4 oneQuestion (requestIncludesOnlyOneQuestion b) :=
  .cons [0, 1] rfl (.cons [0, 0] rfl (.cons [0, 0] rfl (compared_wordIs _ 10 [0, 0] rfl)))

/-! ## The whole request -/

/-- The packet is marked as a query. -/
def IsQuery (packet : List UInt8) : Prop := packet.getD 2 0 &&& 0x80 = 0

/-- It asks for an address: the kind of query and the counts. -/
def AsksAddress (packet : List UInt8) : Prop :=
  IsQuery packet ∧ packet.getD 2 0 &&& 0x78 = 0 ∧ (packet.drop 4).take 8 = oneQuestion

instance (packet : List UInt8) : Decidable (IsQuery packet) :=
  inferInstanceAs (Decidable (_ = _))

instance (packet : List UInt8) : Decidable (AsksAddress packet) :=
  inferInstanceAs (Decidable (_ ∧ _))

/-- **The packet is long enough** for what is looked at. -/
def Fits (s : DNSServer) (packet : List UInt8) : Prop :=
  3 ≤ packet.length ∧ (IsQuery packet → headerSize ≤ packet.length ∧
    (AsksAddress packet → s.domainName.equalsC (ascii "*") = false →
    NameEnds packet headerSize))

instance (s : DNSServer) (packet : List UInt8) : Decidable (s.Fits packet) :=
  inferInstanceAs (Decidable (_ ∧ _))

theorem Holds.flags (hb : Holds b packet) (h : 3 ≤ packet.length) :
    b.mem 2 = packet.getD 2 0 := by
  rw [hb 2 h, List.getD_eq_getElem?_getD, List.getElem?_eq_getElem h]
  rfl

theorem Holds.slice (hb : Holds b packet) (h : p + n ≤ packet.length) :
    b.mem.slice p n = (packet.drop p).take n := by
  refine List.ext_getElem (by simp; omega) fun i h₁ h₂ => ?_
  rw [ByteMem.getElem_slice, List.getElem_take, List.getElem_drop]
  exact hb _ _

theorem holds_received (packet : List UInt8) (behind : ByteMem) :
    Holds (received packet behind) packet := by
  intro i h
  have hget := ByteMem.combineAt_of_mem (fun _ b => b) behind 0 packet i h
  rwa [Nat.zero_add] at hget

theorem inside_received (packet : List UInt8) (behind : ByteMem) :
    (received packet behind).Inside packet.length :=
  TracedMem.inside_writeRun.mpr ⟨by simp [TracedMem.Inside], Or.inr (by omega)⟩

/-- **The header of a request for an address.** -/
structure Requested (b : TracedMem) (packet : List UInt8) (r : Bool × TracedMem) : Prop where
  mem : r.2.mem = b.mem
  flags : r.2.Inside packet.length → 3 ≤ packet.length
  whole : r.2.Inside packet.length → r.1 = true → headerSize ≤ packet.length
  asks : headerSize ≤ packet.length → (r.1 = true ↔ AsksAddress packet)
  inside : headerSize ≤ packet.length → r.2.Inside packet.length
  response : 3 ≤ packet.length → ¬ IsQuery packet → r.1 = false ∧ r.2.Inside packet.length

theorem requested_isAddressRequest (hb : Holds b packet) (hin : b.Inside packet.length) :
    Requested b packet (isAddressRequest b) := by
  have hread : ∀ {c : TracedMem}, (c.read 2).2.Inside packet.length ↔ c.Inside packet.length ∧
      2 < packet.length :=
    TracedMem.inside_read
  have hcounted := compared_requestIncludesOnlyOneQuestion ((b.read 2).2.read 2).2
  have hcounts : headerSize ≤ packet.length →
      (((b.read 2).2.read 2).2.mem.slice 4 oneQuestion.length = oneQuestion ↔
        (packet.drop 4).take 8 = oneQuestion) :=
    fun h => by
      rw [Holds.slice (b := ((b.read 2).2.read 2).2) hb h]
      rfl
  -- the flags are not those of such a request
  have hearly : ∀ c : TracedMem, c.mem = b.mem → (c.Inside packet.length ↔ 2 < packet.length) →
      ¬ (b.mem 2 &&& 0x80 = 0 ∧ b.mem 2 &&& 0x78 = 0) → Requested b packet (false, c) :=
        fun c hmem hc hnot => {
    mem := hmem
    flags := hc.mp
    whole := fun _ hfalse => absurd hfalse Bool.false_ne_true
    asks := fun h => by
      have hflags := hb.flags (le_trans (by decide) h)
      unfold AsksAddress IsQuery
      rw [← hflags]
      exact ⟨fun hfalse => absurd hfalse Bool.false_ne_true, fun heq =>
        absurd ⟨heq.1, heq.2.1⟩ hnot⟩
    inside := fun h => hc.mpr (le_trans (by decide) h)
    response := fun h _ => ⟨rfl, hc.mpr h⟩ }
  unfold isAddressRequest isQuery isStandard
  dsimp only
  by_cases hquery : b.mem 2 &&& 0x80 = 0
  · by_cases hstandard : b.mem 2 &&& 0x78 = 0
    · simp only [TracedMem.read_fst, TracedMem.read_mem, hquery, hstandard,
        decide_true, if_true]
      exact {
        mem := hcounted.mem
        flags := fun h => (hread.mp (hcounted.before h)).2
        whole := fun h hr => hcounted.whole h hr
        asks := fun h => by
          have hflags := hb.flags (le_trans (by decide) h)
          rw [hcounted.iff, hcounts h]
          unfold AsksAddress IsQuery
          rw [← hflags]
          exact ⟨fun heq => ⟨hquery, hstandard, heq⟩, fun heq => heq.2.2⟩
        inside := fun h => by
          have hlt : 2 < packet.length := le_trans (by decide) h
          exact hcounted.inside (hread.mpr ⟨hread.mpr ⟨hin, hlt⟩, hlt⟩) h
        response := fun h hnot => absurd (by unfold IsQuery; rwa [← hb.flags h]) hnot }
    · simp only [TracedMem.read_fst, TracedMem.read_mem, hquery, hstandard, decide_true,
        decide_false, if_true]
      refine hearly _ rfl ?_ fun h => hstandard h.2
      rw [hread, hread, and_iff_right hin, and_self]
  · simp only [TracedMem.read_fst, hquery, decide_false]
    refine hearly _ rfl ?_ fun h => hquery h.1
    rw [hread, and_iff_right hin]

/-- **The name is looked at** for a request for an address, unless the server
answers to all names. -/
theorem ownName_inside (s : DNSServer) (hb : Holds b packet) (hin : b.Inside packet.length)
    (hends : s.domainName.equalsC (ascii "*") = false → NameEnds packet headerSize) :
    ∃ r : Bool × TracedMem, (isOwnName s b).Yields r ∧ r.2.mem = b.mem ∧
      r.2.Inside packet.length := by
  unfold isOwnName
  split_ifs with hall
  · exact ⟨_, Fueled.yields_pure _, rfl, hin⟩
  · obtain ⟨r, hr, hmem, hinside⟩ := getDomainName_inside hb hin (hends (by simpa using hall))
    exact ⟨_, hr.bind (Fueled.yields_pure _), hmem, hinside⟩

theorem ownName_ends (s : DNSServer) (hb : Holds b packet) : (isOwnName s b).Gives fun r =>
    r.2.mem = b.mem ∧ (r.2.Inside packet.length → b.Inside packet.length ∧
      (s.domainName.equalsC (ascii "*") = false → NameEnds packet headerSize)) := by
  unfold isOwnName
  split_ifs with hall
  · exact Fueled.gives_pure
      ⟨rfl, fun hin => ⟨hin, fun hfalse => absurd (hall.symm.trans hfalse) (by decide)⟩⟩
  · refine (getDomainName_ends hb).bind fun r hr => Fueled.gives_pure ⟨hr.1, fun hin => ?_⟩
    exact ⟨(hr.2 hin).1, fun _ => (hr.2 hin).2⟩

/-! ### The replies -/

theorem inside_setResponse : (setResponse b).Inside n ↔ b.Inside n ∧ 2 < n := by
  unfold setResponse
  dsimp only
  rw [TracedMem.inside_writeRun, TracedMem.inside_read, and_assoc]
  exact and_congr_right fun _ => by simp; omega

theorem inside_replyWithIP (s : DNSServer) (size : ℕ) :
    (replyWithIP s b size).2.Inside n ↔ b.Inside n ∧ 8 ≤ n ∧ size ≤ n := by
  unfold replyWithIP
  simp only [TracedMem.inside_readRun, TracedMem.inside_writeRun, inside_setResponse,
    TracedMem.readRun_fst,
    ByteMem.length_slice]
  constructor
  · rintro ⟨⟨⟨⟨⟨⟨hin, -⟩, -⟩, h₆⟩, -⟩, -⟩, hsize⟩
    exact ⟨hin, by omega, by omega⟩
  · rintro ⟨hin, hn, hsize⟩
    simp only [hin, true_and]
    omega

theorem inside_replyWithCustomCode (s : DNSServer) :
    (replyWithCustomCode s b).2.Inside n ↔ b.Inside n ∧ headerSize ≤ n := by
  unfold replyWithCustomCode setRCode headerSize
  simp only [TracedMem.inside_readRun, TracedMem.inside_writeRun, TracedMem.inside_read,
    inside_setResponse,
    List.length_cons, List.length_nil]
  constructor
  · rintro ⟨⟨⟨⟨⟨hin, -⟩, -⟩, -⟩, -⟩, hn⟩
    exact ⟨hin, by omega⟩
  · rintro ⟨hin, hn⟩
    simp only [hin, true_and]
    omega

theorem inside_answer (s : DNSServer) (own : Bool) (size : ℕ) :
    (answer s size own b).2.Inside n ↔ b.Inside n ∧
      if own then 8 ≤ n ∧ size ≤ n else 2 < n ∧ (b.mem 2 &&& 0x80 = 0 → headerSize ≤ n) := by
  unfold answer isQuery
  dsimp only
  cases own
  · simp only [Bool.false_eq_true, if_false]
    by_cases hquery : b.mem 2 &&& 0x80 = 0
    · simp only [TracedMem.read_fst, hquery, decide_true, if_true, inside_replyWithCustomCode,
        TracedMem.inside_read, true_imp_iff, and_assoc]
    · simp only [TracedMem.read_fst, hquery, decide_false, Bool.false_eq_true, if_false,
        TracedMem.inside_read,
        false_imp_iff, and_true]
  · simp only [if_true, inside_replyWithIP]

/-- **The packet is not left** if it is long enough for what is looked at. -/
theorem inside_of_fits (s : DNSServer) (behind : ByteMem) (h : s.Fits packet) :
    ∃ r, (processNextRequest s packet true behind).Yields r ∧ r.2.Inside packet.length := by
  obtain ⟨hlen, hquery⟩ := h
  have hb := holds_received packet behind
  have hin := inside_received packet behind
  have hrequested := requested_isAddressRequest hb hin
  unfold processNextRequest isOwnRequest
  rw [if_neg (by simp; rintro rfl; simp at hlen)]
  dsimp only
  generalize isAddressRequest (received packet behind) = request at hrequested
  obtain ⟨request, b⟩ := request
  have hflags : b.mem 2 = packet.getD 2 0 := hrequested.mem ▸ hb.flags hlen
  by_cases hisQuery : IsQuery packet
  · -- a query, which has all of the header
    obtain ⟨hheader, hname⟩ := hquery hisQuery
    have hinside := hrequested.inside hheader
    have hanswer : ∀ own (c : TracedMem), c.Inside packet.length →
        (answer s packet.length own c).2.Inside packet.length := fun own c hc => by
      unfold headerSize at hheader
      refine (inside_answer s own packet.length).mpr ⟨hc, ?_⟩
      cases own
      · exact ⟨hlen, fun _ => hheader⟩
      · exact ⟨by omega, le_rfl⟩
    cases request with
    | false => exact ⟨_, (Fueled.yields_pure _).bind (Fueled.yields_pure _),
        hanswer _ _ hinside⟩
    | true =>
      have hasks : AsksAddress packet := (hrequested.asks hheader).mp rfl
      have hholds : Holds b packet := fun i hi => (congrFun hrequested.mem i).trans (hb i hi)
      obtain ⟨r, hr, -, hown⟩ := ownName_inside s hholds hinside (hname hasks)
      exact ⟨_, hr.bind (Fueled.yields_pure _), hanswer _ _ hown⟩
  · -- a response, of which the flags are read
    obtain ⟨hfalse, hinside⟩ := hrequested.response hlen hisQuery
    dsimp only at hfalse
    subst hfalse
    refine ⟨_, (Fueled.yields_pure _).bind (Fueled.yields_pure _),
      (inside_answer s false packet.length).mpr
      ⟨hinside, hlen, fun hzero => absurd ?_ hisQuery⟩⟩
    unfold IsQuery
    rwa [← hflags]

/-- It is long enough if it was not left. -/
theorem fits_of_inside (s : DNSServer) (hne : packet ≠ []) (behind : ByteMem) :
    (processNextRequest s packet true behind).Gives fun r => r.2.Inside packet.length →
      s.Fits packet := by
  have hb := holds_received packet behind
  have hrequested := requested_isAddressRequest hb (inside_received packet behind)
  unfold processNextRequest isOwnRequest
  rw [if_neg (by simpa using hne)]
  dsimp only
  generalize isAddressRequest (received packet behind) = request at hrequested
  obtain ⟨request, b⟩ := request
  have hholds : Holds b packet := fun i hi => (congrFun hrequested.mem i).trans (hb i hi)
  -- what the name leaves, if it is looked at
  have hname : (if request = true then isOwnName s b else pure (false, b)).Gives
    fun r : Bool × TracedMem =>
      r.2.mem = b.mem ∧ (r.1 = true → request = true) ∧
        (r.2.Inside packet.length → b.Inside packet.length ∧
        (request = true → s.domainName.equalsC (ascii "*") = false →
          NameEnds packet headerSize)) := by
    cases request with
    | false =>
      exact Fueled.gives_pure ⟨rfl, id, fun hin => ⟨hin, fun h => absurd h Bool.false_ne_true⟩⟩
    | true =>
      intro n r hrun
      obtain ⟨hmem, hin⟩ := ownName_ends s hholds n r hrun
      exact ⟨hmem, fun _ => rfl, fun h => ⟨(hin h).1, fun _ => (hin h).2⟩⟩
  intro n r hrun hin
  obtain ⟨⟨own, c⟩, hname_run, hr⟩ := Fueled.exists_of_bind hrun
  obtain rfl := Fueled.eq_of_pure hr
  obtain ⟨hmem, hown, hends⟩ := hname n _ hname_run
  obtain ⟨hc, hanswer⟩ := (inside_answer s own packet.length).mp hin
  obtain ⟨hinside, hends⟩ := hends hc
  have hlen := hrequested.flags hinside
  refine ⟨hlen, fun hisQuery => ?_⟩
  have hheader : headerSize ≤ packet.length := by
    cases own with
    | true => exact hrequested.whole hinside (hown rfl)
    | false =>
      refine hanswer.2 ?_
      rw [hmem, hholds.flags hlen]
      exact hisQuery
  exact ⟨hheader, fun hasks => hends ((hrequested.asks hheader).mpr hasks)⟩

/-- **When a packet is not left**: when it is long enough for what is looked
at, and so is the name. -/
theorem inside_iff (s : DNSServer) (hne : packet ≠ []) (allocated : Bool) (behind : ByteMem) :
    (∃ r, (processNextRequest s packet allocated behind).Yields r ∧ r.2.Inside packet.length) ↔
      (allocated = true → s.Fits packet) := by
  cases allocated with
  | false =>
    refine ⟨fun _ h => absurd h Bool.false_ne_true, fun _ =>
      ⟨(none, ⟨behind, []⟩), ?_, by simp [TracedMem.Inside]⟩⟩
    unfold processNextRequest
    rw [if_pos (Or.inr rfl)]
    exact Fueled.yields_pure _
  | true =>
    refine ⟨?_, fun h => inside_of_fits s behind (h rfl)⟩
    rintro ⟨r, hr, hin⟩ -
    exact (fits_of_inside s hne behind).of_yields hr hin

theorem steady_isOwnRequest (s : DNSServer) (b : TracedMem) : (isOwnRequest s b).Steady := by
  have hname : ∀ c, (getDomainNameWithoutWwwPrefix c).Steady := fun c => by
    unfold getDomainNameWithoutWwwPrefix
    exact .ite (Fueled.steady_pure _) (Fueled.steady_loop (fun _ => Fueled.steady_pure _) _)
  have hown : ∀ c, (isOwnName s c).Steady := fun c => by
    unfold isOwnName
    exact .ite (Fueled.steady_pure _) ((hname c).bind fun _ => Fueled.steady_pure _)
  unfold isOwnRequest
  exact .ite (hown _) (Fueled.steady_pure _)

theorem steady_processNextRequest (s : DNSServer) (packet : List UInt8) (allocated : Bool)
    (behind : ByteMem) :
    (processNextRequest s packet allocated behind).Steady := by
  unfold processNextRequest
  exact .ite (Fueled.steady_pure _) (.bind (steady_isOwnRequest s _) fun _ =>
    Fueled.steady_pure _)

/-- A server that answers to one name. -/
def server : DNSServer := init.start (ascii "www.ESP") [192, 168, 4, 1]

/-- A query for an address, with this behind the header. -/
def query (name : List UInt8) : List UInt8 := [0, 7, 1, 0] ++ oneQuestion ++ name

/-- The question for `esp`. -/
theorem inside_iff_esp : ∃ r, (processNextRequest server
    (query [3, 0x65, 0x73, 0x70, 0, 0, 1, 0, 1]) true 0).Yields r ∧ r.2.Inside 21 :=
  (inside_iff server (by decide) true 0).mpr
    fun _ => by decide

/-- **The packet is left** by a name that does not end, and by a packet without
a header. -/
theorem not_inside :
    (¬ ∃ r, (processNextRequest server (query [3, 0x65]) true 0).Yields r ∧
      r.2.Inside (query [3, 0x65]).length) ∧
    ¬ ∃ r, (processNextRequest server [0] true 0).Yields r ∧ r.2.Inside 1 := by
  have hleft : ∀ packet n, (∃ r ∈ processNextRequest server packet true 0 9, ¬ r.2.Inside n) →
      ¬ ∃ r, (processNextRequest server packet true 0).Yields r ∧ r.2.Inside n := by
    rintro packet n ⟨r, hrun, hout⟩ ⟨r', hr', hin⟩
    obtain rfl := ((steady_processNextRequest _ _ _ _).yields hrun).unique hr'
    exact hout hin
  exact ⟨hleft _ _ (by decide), hleft _ _ (by decide)⟩

end DNSServer
