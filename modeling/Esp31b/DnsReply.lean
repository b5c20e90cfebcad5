import Esp31b.DnsMessage
import Esp31b.DnsServer

/-!
# What `DNSServer` replies

Both replies are made in the buffer of the query. `replyWithIP` sends all of it,
with an answer behind that points back to the name of the question: it decodes
to the query, marked as a response, and the address (`DNSServer.answer_decodes`).

`replyWithCustomCode` sends the header alone and clears the number of questions,
but none of the other three counts. The reply is a message exactly if they were
zero in the query (`DNSServer.refusal_iff`).
-/

namespace DNSServer

/-- `DNSReplyCode`. -/
inductive DNSReplyCode where
  | noError
  | formError
  | serverFailure
  | nonExistentDomain
  | notImplemented
  | refused
  | yXDomain
  | yXRRSet
  | nXRRSet
  deriving DecidableEq, Repr

/-- The numbers of the codes. -/
def DNSReplyCode.code : DNSReplyCode → UInt8
  | .noError => 0
  | .formError => 1
  | .serverFailure => 2
  | .nonExistentDomain => 3
  | .notImplemented => 4
  | .refused => 5
  | .yXDomain => 6
  | .yXRRSet => 7
  | .nXRRSet => 8

/-- `setErrorReplyCode`. -/
def setErrorReplyCode (s : DNSServer) (replyCode : DNSReplyCode) : DNSServer :=
  { s with errorReplyCode := replyCode.code }

/-- `setTTL`. -/
def setTTL (s : DNSServer) (ttl : UInt32) : DNSServer := { s with ttl := ttl }

/-! ## The replies as texts -/

/-- What `replyWithIP` adds to the packet. -/
def answerRecord (s : DNSServer) : List UInt8 :=
  [192, 12, 0, 1, 0, 1] ++ htonl s.ttl ++ [0, 4] ++ s.resolvedIP

/-- **The reply with the address.** -/
def addressReply (s : DNSServer) (packet : List UInt8) : List UInt8 :=
  ((packet.set 2 (packet.getD 2 0 ||| 0x80)).set 6 (packet.getD 4 0)).set 7 (packet.getD 5 0)
    ++ s.answerRecord

/-- **The reply that there is none.** -/
def errorReply (s : DNSServer) (packet : List UInt8) : List UInt8 :=
  packet.take 2 ++
    [packet.getD 2 0 ||| 0x80, (packet.getD 3 0 &&& 0xF0) ||| (s.errorReplyCode &&& 0x0F),
    0, 0] ++
    (packet.drop 6).take 6

variable {s : DNSServer} {packet : List UInt8} {b : TracedMem}
  {behind : ByteMem} {m : Dns.Message}

/-- A packet with a header, byte by byte. -/
theorem exists_header (h : headerSize ≤ packet.length) :
    ∃ h₀ h₁ h₂ h₃ h₄ h₅ h₆ h₇ h₈ h₉ h₁₀ h₁₁ body,
    packet = [h₀, h₁, h₂, h₃, h₄, h₅, h₆, h₇, h₈, h₉, h₁₀, h₁₁] ++ body := by
  match packet, h with
  | h₀ :: h₁ :: h₂ :: h₃ :: h₄ :: h₅ :: h₆ :: h₇ :: h₈ :: h₉ :: h₁₀ :: h₁₁ :: body, _ =>
    exact ⟨h₀, h₁, h₂, h₃, h₄, h₅, h₆, h₇, h₈, h₉, h₁₀, h₁₁, body, rfl⟩

/-- The header of a packet that was received. -/
theorem Holds.header {h₀ h₁ h₂ h₃ h₄ h₅ h₆ h₇ h₈ h₉ h₁₀ h₁₁ : UInt8} {body : List UInt8}
    (hb : Holds b ([h₀, h₁, h₂, h₃, h₄, h₅, h₆, h₇, h₈, h₉, h₁₀, h₁₁] ++ body)) :
    [b.mem 0, b.mem 1, b.mem 2, b.mem 3, b.mem 4, b.mem 5, b.mem 6, b.mem 7, b.mem 8, b.mem 9,
      b.mem 10, b.mem 11] =
      [h₀, h₁, h₂, h₃, h₄, h₅, h₆, h₇, h₈, h₉, h₁₀, h₁₁] :=
  hb.slice (p := 0) (n := 12) (by rw [List.length_append]; exact Nat.le_add_right 12 _)

theorem replyWithIP_fst (s : DNSServer) (hb : Holds b packet) (h : headerSize ≤ packet.length) :
    (replyWithIP s b packet.length).1 = addressReply s packet := by
  obtain ⟨h₀, h₁, h₂, h₃, h₄, h₅, h₆, h₇, h₈, h₉, h₁₀, h₁₁, body, rfl⟩ := exists_header h
  have hhead := hb.header
  have hbody : b.mem.slice 12 body.length = body := by
    rw [hb.slice (by rw [List.length_append]; rfl)]
    exact List.take_length
  have hmem : ∀ i, (replyWithIP s b (12 + body.length)).2.mem (12 + i) = b.mem (12 + i) :=
    fun i => by
    unfold replyWithIP setResponse
    dsimp only [TracedMem.readRun_mem, TracedMem.writeRun, TracedMem.read_mem, ByteMem.store]
    rw [ByteMem.combineAt_of_not_mem _ _ _ _ _ (by simp; omega),
      ByteMem.combineAt_of_not_mem _ _ _ _ _ (by simp; omega),
      ByteMem.combineAt_of_not_mem _ _ _ _ _ (by simp; omega)]
  have hsent : (replyWithIP s b (12 + body.length)).1 =
      (replyWithIP s b (12 + body.length)).2.mem.slice 0 (12 + body.length) ++
      s.answerRecord := by
    unfold replyWithIP answerRecord
    simp only [TracedMem.readRun_fst, TracedMem.readRun_mem, List.append_assoc]
  have hrest : (replyWithIP s b (12 + body.length)).2.mem.slice 12 body.length =
      b.mem.slice 12 body.length :=
    List.map_congr_left fun i _ => hmem i
  have hfirst : (replyWithIP s b (12 + body.length)).2.mem.slice 0 12 =
    [b.mem 0, b.mem 1, b.mem 2 ||| 0x80, b.mem 3,
    b.mem 4, b.mem 5, b.mem 4, b.mem 5, b.mem 8, b.mem 9, b.mem 10, b.mem 11] := rfl
  have hlen : ([h₀, h₁, h₂, h₃, h₄, h₅, h₆, h₇, h₈, h₉, h₁₀, h₁₁] ++ body).length =
      12 + body.length := List.length_append
  rw [hlen, hsent, ← ByteMem.slice_append, Nat.zero_add, hrest, hbody, hfirst]
  simp only [List.cons.injEq, and_true] at hhead
  obtain ⟨rfl, rfl, rfl, rfl, rfl, rfl, rfl, rfl, rfl, rfl, rfl, rfl⟩ := hhead
  rfl

/-- The reply is the header, which `setRCode` has touched. -/
theorem replyWithCustomCode_fst (s : DNSServer) (hb : Holds b packet)
    (h : headerSize ≤ packet.length) :
    (replyWithCustomCode s b).1 = errorReply s packet := by
  obtain ⟨h₀, h₁, h₂, h₃, h₄, h₅, h₆, h₇, h₈, h₉, h₁₀, h₁₁, body, rfl⟩ := exists_header h
  have hhead := hb.header
  have hfirst : (replyWithCustomCode s b).1 = [b.mem 0, b.mem 1, b.mem 2 ||| 0x80,
    (b.mem 3 &&& 0xF0) ||| (s.errorReplyCode &&& 0x0F), 0, 0, b.mem 6, b.mem 7, b.mem 8,
    b.mem 9, b.mem 10, b.mem 11] := rfl
  rw [hfirst]
  simp only [List.cons.injEq, and_true] at hhead
  obtain ⟨rfl, rfl, rfl, rfl, rfl, rfl, rfl, rfl, rfl, rfl, rfl, rfl⟩ := hhead
  rfl

/-! ## Which of them is sent -/

/-- **The packet is answered with the address.** -/
def Accepts (s : DNSServer) (packet : List UInt8) (behind : ByteMem) : Prop :=
  ∃ b, (isOwnRequest s (received packet behind)).Yields (true, b)

/-- A run that ends with a refusal is the only one. -/
theorem not_accepts_of_run {n : ℕ}
    (h : isOwnRequest s (received packet behind) n = some (false, b)) :
    ¬ Accepts s packet behind := by
  rintro ⟨c, haccepts⟩
  have heq := haccepts.unique ((steady_isOwnRequest s _).yields h)
  exact absurd (congrArg Prod.fst heq).symm Bool.false_ne_true

/-- **The header decides whether the name is looked at.** -/
theorem isOwnRequest_eq (s : DNSServer) (hlen : headerSize ≤ packet.length) (behind : ByteMem) :
    ∃ b, Holds b packet ∧ b.Inside packet.length ∧
      isOwnRequest s (received packet behind) = if AsksAddress packet then isOwnName s b
      else pure (false, b) := by
  have hrequested := requested_isAddressRequest (holds_received packet behind)
    (inside_received packet behind)
  have hasks := hrequested.asks hlen
  refine ⟨(isAddressRequest (received packet behind)).2,
    fun i hi => (congrFun hrequested.mem i).trans (holds_received packet behind i hi),
      hrequested.inside hlen, ?_⟩
  unfold isOwnRequest
  dsimp only
  exact if_congr hasks rfl rfl

/-- The conditions leave the packet as it is, and hold for a request of one
address. -/
theorem gives_isOwnRequest (s : DNSServer) (hlen : headerSize ≤ packet.length)
    (behind : ByteMem) :
    (isOwnRequest s (received packet behind)).Gives fun r => Holds r.2 packet ∧
    (r.1 = true → AsksAddress packet) := by
  obtain ⟨b, hb, -, heq⟩ := isOwnRequest_eq s hlen behind
  rw [heq]
  intro n r hrun
  split at hrun
  · rename_i hasks
    obtain ⟨hmem, -⟩ := ownName_ends s hb n r hrun
    exact ⟨fun i hi => (congrFun hmem i).trans (hb i hi), fun _ => hasks⟩
  · obtain rfl := Fueled.eq_of_pure hrun
    exact ⟨hb, fun hfalse => absurd hfalse Bool.false_ne_true⟩

/-- They are decided where the name ends. -/
theorem exists_isOwnRequest (s : DNSServer) (hlen : headerSize ≤ packet.length)
    (hends : AsksAddress packet → NameEnds packet headerSize) (behind : ByteMem) :
    ∃ own b, (isOwnRequest s (received packet behind)).Yields (own, b) := by
  obtain ⟨b, hb, hin, heq⟩ := isOwnRequest_eq s hlen behind
  rw [heq]
  split
  · rename_i hasks
    obtain ⟨⟨own, c⟩, hown, -⟩ := ownName_inside s hb hin fun _ => hends hasks
    exact ⟨own, c, hown⟩
  · exact ⟨false, b, Fueled.yields_pure _⟩

/-- **A query is answered** with one of the two. -/
theorem processNextRequest_of_own (hlen : headerSize ≤ packet.length)
    (hquery : IsQuery packet) {own : Bool}
    (hown : (isOwnRequest s (received packet behind)).Yields (own, b)) :
    ∃ c, (processNextRequest s packet true behind).Yields
      (some (if own then addressReply s packet else errorReply s packet), c) := by
  obtain ⟨hb, -⟩ := (gives_isOwnRequest s hlen behind).of_yields hown
  have hflags : b.mem 2 &&& 0x80 = 0 := by
    rw [hb.flags (le_trans (by decide) hlen)]
    exact hquery
  have hne : ¬ (packet.length = 0 ∨ true = false) := by
    unfold headerSize at hlen
    simp
    rintro rfl
    simp at hlen
  have hanswer : (answer s packet.length own b).1 =
      some (if own then addressReply s packet else errorReply s packet) := by
    unfold answer isQuery
    cases own with
    | true => exact congrArg some (replyWithIP_fst s hb hlen)
    | false =>
      have hcustom := replyWithCustomCode_fst (b := (b.read 2).2) s hb hlen
      simp only [Bool.false_eq_true, if_false, TracedMem.read_fst, hflags, decide_true,
        if_true, hcustom]
  refine ⟨(answer s packet.length own b).2, ?_⟩
  unfold processNextRequest
  rw [if_neg hne, ← hanswer]
  exact hown.bind (Fueled.yields_pure _)

/-! ## What they decode to -/

/-- A name that is decoded ends in the packet; behind the header there is
nothing a pointer could go to. -/
theorem nameEnds_of_labels {start p q : ℕ} {n : Dns.Name}
    (h : Dns.labels packet start p = some (n, q))
    (hstart : start ≤ headerSize) : NameEnds packet p := by
  refine Dns.labels_induction (P := fun start p _ _ => start ≤ headerSize → NameEnds packet p)
    ?_ ?_ ?_ h hstart
  · intro start p hzero _
    obtain ⟨hp, hzero⟩ := List.getElem?_eq_some_iff.mp hzero
    exact (nameEnds_iff hp).mpr (Or.inl hzero)
  · intro start p b label rest q hb _ _ _ ih hstart
    obtain ⟨hp, rfl⟩ := List.getElem?_eq_some_iff.mp hb
    refine (nameEnds_iff hp).mpr (Or.inr ?_)
    rw [Nat.add_right_comm]
    exact ih hstart
  · intro start p b low n r _ _ _ hheader hbefore _ hstart
    unfold Dns.headerSize at hheader
    unfold headerSize at hstart
    omega

theorem headerSize_le_of_decode (hm : Dns.decode packet = some m) :
    headerSize ≤ packet.length := by
  obtain ⟨p₀, -, -, -, hheader, -⟩ := Dns.decode_eq_some_iff.mp hm
  obtain ⟨hp, hle⟩ := Dns.header_bounds hheader
  rwa [hp, Nat.zero_add] at hle

/-- The highest bit is set. -/
theorem toNat_or_high (b : UInt8) : (b ||| 0x80).toNat = b.toNat % 128 + 128 := by
  have hb := b.toNat_lt
  rw [UInt8.toNat_or, show (0x80 : UInt8).toNat = 2 ^ 7 from rfl]
  by_cases h : b.toNat < 2 ^ 7
  · have hsum := Nat.two_pow_add_eq_or_of_lt h 1
    rw [Nat.mul_one] at hsum
    rw [Nat.or_comm, ← hsum]
    omega
  · have hsum := Nat.two_pow_add_eq_or_of_lt (i := 7) (b := b.toNat - 2 ^ 7) (by omega) 1
    rw [Nat.mul_one] at hsum
    have hset : b.toNat = 2 ^ 7 ||| (b.toNat - 2 ^ 7) := by
      rw [← hsum]
      omega
    rw [hset, Nat.or_comm, ← Nat.or_assoc, Nat.or_self, ← hset]
    omega

/-- What marks a packet as a response changes one flag. -/
theorem response_flags (b : UInt8) : (b ||| 0x80).toNat / 128 = 1 ∧
    (b ||| 0x80).toNat / 8 % 16 = b.toNat / 8 % 16 ∧
    (b ||| 0x80).toNat / 4 % 2 = b.toNat / 4 % 2 ∧
    (b ||| 0x80).toNat / 2 % 2 = b.toNat / 2 % 2 ∧
    (b ||| 0x80).toNat % 2 = b.toNat % 2 := by
  have hb := b.toNat_lt
  rw [toNat_or_high]
  omega

/-- The code that is set is the one that is read. -/
theorem code_flags (b : UInt8) (replyCode : DNSReplyCode) :
    ((b &&& 0xF0) ||| (replyCode.code &&& 0x0F)).toNat % 16 = replyCode.code.toNat := by
  have hhigh : (b &&& 0xF0).toNat % 2 ^ 4 = 0 := by
    rw [UInt8.toNat_and, Nat.and_mod_two_pow]
    exact Nat.and_zero _
  have hlow : (replyCode.code &&& 0x0F).toNat % 2 ^ 4 = replyCode.code.toNat := by
    cases replyCode <;> rfl
  rw [UInt8.toNat_or, show 16 = 2 ^ 4 from rfl, Nat.or_mod_two_pow, hhigh, hlow, Nat.zero_or]

/-- Bytes in network order are those of the number. -/
theorem htonl_toNat (x : UInt32) :
    ((x >>> 24).toUInt8.toNat * 2 ^ 8 + (x >>> 16).toUInt8.toNat) * 2 ^ 16 +
    ((x >>> 8).toUInt8.toNat * 2 ^ 8 + x.toUInt8.toNat) = x.toNat := by
  have hlt := x.toNat_lt
  have h₂₄ : (x >>> 24).toNat = x.toNat / 2 ^ 24 :=
    (UInt32.toNat_shiftRight x 24).trans (Nat.shiftRight_eq_div_pow _ _)
  have h₁₆ : (x >>> 16).toNat = x.toNat / 2 ^ 16 :=
    (UInt32.toNat_shiftRight x 16).trans (Nat.shiftRight_eq_div_pow _ _)
  have h₈ : (x >>> 8).toNat = x.toNat / 2 ^ 8 :=
    (UInt32.toNat_shiftRight x 8).trans (Nat.shiftRight_eq_div_pow _ _)
  simp only [UInt32.toNat_toUInt8, h₂₄, h₁₆, h₈]
  omega

/-- **The header as it is decoded.** -/
theorem header_eq (h₀ h₁ h₂ h₃ h₄ h₅ h₆ h₇ h₈ h₉ h₁₀ h₁₁ : UInt8) (body : List UInt8) :
    Dns.header ([h₀, h₁, h₂, h₃, h₄, h₅, h₆, h₇, h₈, h₉, h₁₀, h₁₁] ++ body) 0 =
      some (⟨h₀.toNat * 2 ^ 8 + h₁.toNat, h₂.toNat / 128 = 1, h₂.toNat / 8 % 16,
        h₂.toNat / 4 % 2 = 1, h₂.toNat / 2 % 2 = 1, h₂.toNat % 2 = 1,
        h₃.toNat / 128 = 1, h₃.toNat / 16 % 8, h₃.toNat % 16,
        h₄.toNat * 2 ^ 8 + h₅.toNat, h₆.toNat * 2 ^ 8 + h₇.toNat, h₈.toNat * 2 ^ 8 + h₉.toNat,
        h₁₀.toNat * 2 ^ 8 + h₁₁.toNat⟩, 12) := rfl

/-- **The answer behind a packet** is for the name at its start. -/
theorem record_answer (ttl : UInt32) (a₀ a₁ a₂ a₃ : UInt8)
    {p q : ℕ} {n : Dns.Name} {reply : List UInt8}
    (hanswer : reply.drop p = [192, 12, 0, 1, 0, 1] ++ htonl ttl ++ [0, 4] ++ [a₀, a₁, a₂, a₃])
    (hp : 12 < p)
    (hn : Dns.name reply 12 = some (n, q)) :
    Dns.record reply p = some (⟨n, 1, 1, ttl.toNat, [a₀, a₁, a₂, a₃]⟩, reply.length) := by
  have hget : ∀ i, reply[p + i]? =
      ([192, 12, 0, 1, 0, 1] ++ htonl ttl ++ [0, 4] ++ [a₀, a₁, a₂, a₃])[i]? := fun i => by
    rw [← hanswer, List.getElem?_drop]
  have hlength : reply.length = p + 16 := by
    have hlen := congrArg List.length hanswer
    rw [List.length_drop] at hlen
    simp only [htonl, List.length_append, List.length_cons, List.length_nil] at hlen
    omega
  have hword : ∀ i high low,
    ([192, 12, 0, 1, 0, 1] ++ htonl ttl ++ [0, 4] ++ [a₀, a₁, a₂, a₃])[i]? = some high →
      ([192, 12, 0, 1, 0, 1] ++ htonl ttl ++ [0, 4] ++ [a₀, a₁, a₂, a₃])[i + 1]? = some low →
      Dns.word reply (p + i) = some (high.toNat * 2 ^ 8 + low.toNat, p + i + 2) :=
        fun i high low hhigh hlow =>
    Dns.word_of_getElem? ((hget i).trans hhigh) ((hget (i + 1)).trans hlow)
  obtain ⟨⟨n', q'⟩, hlabels, hoctets⟩ := Option.bind_eq_some_iff.mp hn
  dsimp only at hoctets
  split at hoctets
  · rename_i hfits
    cases hoctets
    have hpointer : Dns.labels reply p p = some (n, p + 2) :=
      Dns.labels_pointer (hget 0) (hget 1) (by decide) rfl (by decide) hp hlabels
    have hname := Dns.name_of_labels hpointer hfits
    have htype : Dns.word reply (p + 2) = some (1, p + 4) := hword 2 0 1 rfl rfl
    have hcls : Dns.word reply (p + 4) = some (1, p + 6) := hword 4 0 1 rfl rfl
    have httl : Dns.doubleWord reply (p + 6) = some (ttl.toNat, p + 10) := by
      unfold Dns.doubleWord
      rw [hword 6 _ _ rfl rfl, Option.bind_eq_bind, Option.bind_some]
      dsimp only
      rw [hword 8 _ _ rfl rfl, ← htonl_toNat ttl]
      rfl
    have hrdlength : Dns.word reply (p + 10) = some (4, p + 12) := hword 10 0 4 rfl rfl
    have hrdata : Block.read reply (p + 12) 4 = some [a₀, a₁, a₂, a₃] := by
      rw [Block.read_eq (by omega), ← List.drop_drop, hanswer]
      rfl
    unfold Dns.record
    simp only [hname, htype, hcls, httl, hrdlength, hrdata, Option.bind_eq_bind,
      Option.bind_some, hlength]
    rfl
  · cases hoctets

/-- A query for the address of the root, with this number of additional records
and these bytes of them. -/
def rootQuery (arcount : UInt8) (additional : List UInt8) : List UInt8 :=
  [0, 7, 1, 0, 0, 1, 0, 0, 0, 0, 0, arcount] ++ [0, 0, 1, 0, 1] ++ additional

theorem decode_rootQuery : Dns.decode (rootQuery 0 []) = some
    ⟨⟨7, false, 0, false, false, true, false, 0, 0, 1, 0, 0, 0⟩, [⟨[], 1, 1⟩], [], [], []⟩ := by
  have hname : Dns.name (rootQuery 0 []) 12 = some ([], 13) :=
    Dns.name_of_labels (Dns.labels_zero rfl) (by decide)
  have hquestion : Dns.question (rootQuery 0 []) 12 = some (⟨[], 1, 1⟩, 17) := by
    unfold Dns.question
    rw [hname]
    rfl
  exact Dns.decode_eq_some_iff.mpr
    ⟨12, 17, 17, 17, rfl, Dns.entries_one.mpr ⟨_, hquestion, rfl⟩, rfl, rfl, rfl⟩

/-- What a query carries that says how long a reply may be. -/
def option : List UInt8 := [0, 0, 41, 16, 0, 0, 0, 0, 0, 0, 0]

theorem decode_rootQuery_option : Dns.decode (rootQuery 1 option) = some
    ⟨⟨7, false, 0, false, false, true, false, 0, 0, 1, 0, 0, 1⟩, [⟨[], 1, 1⟩], [], [],
      [⟨[], 41, 4096, 0, []⟩]⟩ := by
  have hname : Dns.name (rootQuery 1 option) 12 = some ([], 13) :=
    Dns.name_of_labels (Dns.labels_zero rfl) (by decide)
  have hquestion : Dns.question (rootQuery 1 option) 12 = some (⟨[], 1, 1⟩, 17) := by
    unfold Dns.question
    rw [hname]
    rfl
  have hname' : Dns.name (rootQuery 1 option) 17 = some ([], 18) :=
    Dns.name_of_labels (Dns.labels_zero rfl) (by decide)
  have hrecord : Dns.record (rootQuery 1 option) 17 = some (⟨[], 41, 4096, 0, []⟩, 28) := by
    unfold Dns.record
    rw [hname']
    decide
  exact Dns.decode_eq_some_iff.mpr
    ⟨12, 17, 17, 17, rfl, Dns.entries_one.mpr ⟨_, hquestion, rfl⟩, rfl, rfl,
    Dns.entries_one.mpr ⟨_, hrecord, rfl⟩⟩

/-- **The reply with the address is the answer to the query**: it decodes to
the same header, marked as a response, the same question, and one address of its
name. -/
theorem answer_decodes (s : DNSServer) (domainName : WString) (a₀ a₁ a₂ a₃ : UInt8)
    (ttl : UInt32)
    (hm : Dns.decode packet = some m)
    (haccepts : Accepts ((s.start domainName [a₀, a₁, a₂, a₃]).setTTL ttl) packet behind) :
    ∃ reply b question,
      (processNextRequest ((s.start domainName [a₀, a₁, a₂, a₃]).setTTL ttl)
        packet true behind).Yields (some reply, b) ∧
      m.questions = [question] ∧
      Dns.decode reply = some ⟨{ m.header with qr := true, ancount := 1 }, [question],
        [⟨question.name, 1, 1, ttl.toNat, [a₀, a₁, a₂, a₃]⟩], [], []⟩ := by
  have hlen := headerSize_le_of_decode hm
  obtain ⟨b, hown⟩ := haccepts
  obtain ⟨hquery, -, hcounts⟩ := ((gives_isOwnRequest _ hlen behind).of_yields hown).2 rfl
  obtain ⟨c, hreply⟩ := processNextRequest_of_own hlen hquery hown
  obtain ⟨h₀, h₁, h₂, h₃, h₄, h₅, h₆, h₇, h₈, h₉, h₁₀, h₁₁, body, rfl⟩ := exists_header hlen
  obtain ⟨rfl, rfl, rfl, rfl, rfl, rfl, rfl, rfl⟩ : h₄ = 0 ∧ h₅ = 1 ∧ h₆ = 0 ∧ h₇ = 0 ∧ h₈ = 0 ∧
      h₉ = 0 ∧ h₁₀ = 0 ∧ h₁₁ = 0 := by
    simpa [oneQuestion] using hcounts
  -- the query has one question, up to its end
  obtain ⟨p₀, p₁, p₂, p₃, hheader, hquestions, hanswers, hauthority, hadditional⟩ :=
    Dns.decode_eq_some_iff.mp hm
  rw [header_eq, Option.some.injEq, Prod.mk.injEq] at hheader
  obtain ⟨hheader, rfl⟩ := hheader
  rw [← hheader] at hquestions hanswers hauthority hadditional ⊢
  obtain ⟨question, hquestion, hone⟩ := Dns.entries_one.mp hquestions
  obtain ⟨-, rfl⟩ := Dns.entries_zero.mp hanswers
  obtain ⟨-, rfl⟩ := Dns.entries_zero.mp hauthority
  obtain ⟨-, rfl⟩ := Dns.entries_zero.mp hadditional
  -- the reply agrees with it behind the header
  have hagree : Dns.Agree ([h₀, h₁, h₂, h₃, 0, 1, 0, 0, 0, 0, 0, 0] ++ body)
      ([h₀, h₁, h₂ ||| 0x80, h₃, 0, 1, 0, 1, 0, 0, 0, 0] ++ body ++
        answerRecord ((s.start domainName [a₀, a₁, a₂, a₃]).setTTL ttl)) :=
    Dns.agree_append rfl rfl body _
  have hquestion' := hagree.question (le_refl _) hquestion
  obtain ⟨q, hn⟩ := Dns.name_of_question hquestion
  obtain ⟨hn', -⟩ := hagree.name (le_refl _) hn
  have hdrop : ([h₀, h₁, h₂ ||| 0x80, h₃, 0, 1, 0, 1, 0, 0, 0, 0] ++ body ++
      answerRecord ((s.start domainName [a₀, a₁, a₂, a₃]).setTTL ttl)).drop
        ([h₀, h₁, h₂ ||| 0x80, h₃, 0, 1, 0, 1, 0, 0, 0, 0] ++ body).length = _ := List.drop_left
  have hanswer := record_answer ttl a₀ a₁ a₂ a₃ hdrop (Dns.name_bounds hn).2 hn'
  obtain ⟨hqr, hopcode, haa, htc, hrd⟩ := response_flags h₂
  refine ⟨_, c, question, hreply, hone, Dns.decode_eq_some_iff.mpr ⟨12, _, _, _, ?_,
    Dns.entries_one.mpr ⟨_, hquestion', rfl⟩, Dns.entries_one.mpr ⟨_, hanswer, rfl⟩,
    Dns.entries_zero.mpr ⟨rfl, rfl⟩, Dns.entries_zero.mpr ⟨rfl, rfl⟩⟩⟩
  have hdecoded := header_eq h₀ h₁ (h₂ ||| 0x80) h₃ 0 1 0 1 0 0 0 0
    (body ++ answerRecord ((s.start domainName [a₀, a₁, a₂, a₃]).setTTL ttl))
  rw [hqr, hopcode, haa, htc, hrd] at hdecoded
  exact hdecoded

/-- A query for the address of `www.esp.LOCAL`. -/
def namedQuery : List UInt8 :=
  [0, 7, 1, 0] ++ oneQuestion ++ 3 :: ascii "www" ++ 3 :: ascii "esp" ++ 5 :: ascii "LOCAL" ++
    [0, 0, 1, 0, 1]

theorem decode_namedQuery : Dns.decode namedQuery = some
    ⟨⟨7, false, 0, false, false, true, false, 0, 0, 1, 0, 0, 0⟩,
      [⟨[ascii "www", ascii "esp", ascii "LOCAL"], 1, 1⟩], [], [], []⟩ := by
  have hlabels : Dns.labels namedQuery 12 12 =
      some ([ascii "www", ascii "esp", ascii "LOCAL"], 27) := by
    refine Dns.labels_label (b := 3) (by decide) (by decide) (by decide) (by decide) ?_
    refine Dns.labels_label (b := 3) (by decide) (by decide) (by decide) (by decide) ?_
    refine Dns.labels_label (b := 5) (by decide) (by decide) (by decide) (by decide) ?_
    exact Dns.labels_zero (by decide)
  have hname := Dns.name_of_labels hlabels (by decide)
  have hquestion : Dns.question namedQuery 12 =
      some (⟨[ascii "www", ascii "esp", ascii "LOCAL"], 1, 1⟩, 31) := by
    unfold Dns.question
    rw [hname]
    rfl
  exact Dns.decode_eq_some_iff.mpr
    ⟨12, 31, 31, 31, by decide, Dns.entries_one.mpr ⟨_, hquestion, rfl⟩, rfl, rfl, rfl⟩

/-- The server's own name, for an hour. -/
theorem answer_decodes_named : ∃ reply b question,
    (processNextRequest ((init.start (ascii "Esp.local") [192, 168, 4, 1]).setTTL 3600)
      namedQuery
      true 0).Yields (some reply, b) ∧
      [⟨[ascii "www", ascii "esp", ascii "LOCAL"], 1, 1⟩] = [question] ∧
      Dns.decode reply =
        some ⟨⟨7, true, 0, false, false, true, false, 0, 0, 1, 1, 0, 0⟩, [question],
        [⟨question.name, 1, 1, 3600, [192, 168, 4, 1]⟩], [], []⟩ :=
  answer_decodes init (ascii "Esp.local") 192 168 4 1 3600 decode_namedQuery
    ⟨_, (steady_isOwnRequest _ _).yields (n := 4) (by rfl)⟩

/-! ## The reply without an answer -/

/-- **A response to this query**, with this code and so many entries as it
says. -/
def IsResponse (id : ℕ) (replyCode : DNSReplyCode) (reply : List UInt8) : Prop :=
  ∃ m, Dns.decode reply = some m ∧ m.header.qr = true ∧ m.header.id = id ∧
    m.header.rcode = replyCode.code.toNat ∧ m.questions.length = m.header.qdcount ∧
    m.answers.length = m.header.ancount ∧ m.authority.length = m.header.nscount ∧
    m.additional.length = m.header.arcount

/-- The flag of a query, as it is decoded. -/
theorem query_flag {b : UInt8} (h : ¬ b.toNat / 128 = 1) : b &&& 0x80 = 0 := by
  have hb := b.toNat_lt
  have hlt : b.toNat < 2 ^ 7 := by omega
  apply UInt8.toNat_inj.mp
  rw [UInt8.toNat_and]
  refine Nat.eq_of_testBit_eq fun i => ?_
  rw [Nat.testBit_and, show (0x80 : UInt8).toNat = 2 ^ 7 from rfl, Nat.testBit_two_pow]
  by_cases hi : 7 = i
  · rw [← hi, Nat.testBit_lt_two_pow hlt]
    rfl
  · rw [decide_eq_false hi, Bool.and_false]
    exact (Nat.zero_testBit i).symm

/-- **The query's header alone is a message** if it counts nothing but
questions. -/
theorem isResponse_errorReply_iff (s : DNSServer) (replyCode : DNSReplyCode)
    (hm : Dns.decode packet = some m) :
    IsResponse m.header.id replyCode (errorReply (s.setErrorReplyCode replyCode) packet) ↔
      m.header.ancount = 0 ∧ m.header.nscount = 0 ∧ m.header.arcount = 0 := by
  obtain ⟨h₀, h₁, h₂, h₃, h₄, h₅, h₆, h₇, h₈, h₉, h₁₀, h₁₁, body, rfl⟩ :=
    exists_header (headerSize_le_of_decode hm)
  obtain ⟨p₀, -, -, -, hheader, -⟩ := Dns.decode_eq_some_iff.mp hm
  rw [header_eq, Option.some.injEq, Prod.mk.injEq] at hheader
  obtain ⟨hheader, -⟩ := hheader
  rw [← hheader]
  have hdecoded := header_eq h₀ h₁ (h₂ ||| 0x80) ((h₃ &&& 0xF0) ||| (replyCode.code &&& 0x0F))
    0 0 h₆ h₇ h₈ h₉ h₁₀ h₁₁ []
  rw [(response_flags h₂).1, code_flags] at hdecoded
  constructor
  · rintro ⟨m', hm', -⟩
    obtain ⟨p₀, p₁, p₂, p₃, hheader', hquestions, hanswers, hauthority, hadditional⟩ :=
      Dns.decode_eq_some_iff.mp hm'
    obtain ⟨heq, rfl⟩ := Prod.mk.inj (Option.some.inj (hdecoded.symm.trans hheader'))
    rw [← heq] at hquestions hanswers hauthority hadditional
    obtain ⟨-, rfl⟩ := Dns.entries_zero.mp hquestions
    obtain ⟨han, rfl⟩ := Dns.entries_record_end hanswers
    obtain ⟨hns, rfl⟩ := Dns.entries_record_end hauthority
    obtain ⟨har, -⟩ := Dns.entries_record_end hadditional
    exact ⟨han, hns, har⟩
  · rintro ⟨han, hns, har⟩
    dsimp only at han hns har
    rw [han, hns, har] at hdecoded
    exact ⟨⟨_, [], [], [], []⟩, Dns.decode_eq_some_iff.mpr
      ⟨_, _, _, _, hdecoded, rfl, rfl, rfl, rfl⟩,
      rfl, rfl, rfl, rfl, rfl, rfl, rfl⟩

/-- What is decoded as a query is one, and its name ends. -/
theorem isQuery_of_decode (hm : Dns.decode packet = some m) (hquery : m.header.qr = false) :
    IsQuery packet ∧ (AsksAddress packet → NameEnds packet headerSize) := by
  obtain ⟨h₀, h₁, h₂, h₃, h₄, h₅, h₆, h₇, h₈, h₉, h₁₀, h₁₁, body, rfl⟩ :=
    exists_header (headerSize_le_of_decode hm)
  obtain ⟨p₀, p₁, -, -, hheader, hquestions, -⟩ := Dns.decode_eq_some_iff.mp hm
  rw [header_eq, Option.some.injEq, Prod.mk.injEq] at hheader
  obtain ⟨hheader, rfl⟩ := hheader
  rw [← hheader] at hquery hquestions
  refine ⟨query_flag (of_decide_eq_false hquery), fun hasks => ?_⟩
  obtain ⟨rfl, rfl, -⟩ : h₄ = 0 ∧ h₅ = 1 ∧ _ := by simpa [oneQuestion] using hasks.2.2
  obtain ⟨question, hquestion, -⟩ := Dns.entries_one.mp hquestions
  obtain ⟨q, hn⟩ := Dns.name_of_question hquestion
  exact nameEnds_of_labels (Dns.name_bounds hn).1 (le_refl _)

/-- **When a query that is not answered gets a message**: when it has questions
only. -/
theorem refusal_iff (s : DNSServer) (replyCode : DNSReplyCode) (behind : ByteMem)
    (hm : Dns.decode packet = some m)
    (hquery : m.header.qr = false)
    (hother : ¬ Accepts (s.setErrorReplyCode replyCode) packet behind) :
    (∃ reply b, (processNextRequest (s.setErrorReplyCode replyCode) packet true behind).Yields
      (some reply, b) ∧
      IsResponse m.header.id replyCode reply) ↔
      m.header.ancount = 0 ∧ m.header.nscount = 0 ∧ m.header.arcount = 0 := by
  rw [← isResponse_errorReply_iff s replyCode hm]
  have hlen := headerSize_le_of_decode hm
  obtain ⟨hisQuery, hends⟩ := isQuery_of_decode hm hquery
  obtain ⟨own, b, hown⟩ := exists_isOwnRequest (s.setErrorReplyCode replyCode) hlen hends behind
  obtain rfl : own = false := by
    rw [← Bool.not_eq_true]
    rintro rfl
    exact hother ⟨b, hown⟩
  obtain ⟨c, hreply⟩ := processNextRequest_of_own hlen hisQuery hown
  refine ⟨?_, fun h => ⟨_, c, hreply, h⟩⟩
  rintro ⟨reply, b', hreply', h⟩
  obtain ⟨heq, -⟩ := Prod.mk.inj (hreply'.unique hreply)
  obtain rfl := Option.some.inj heq
  exact h

/-- The root is asked of a server that answers to another name. -/
theorem refusal_iff_root :
    (∃ reply b, (processNextRequest (server.setErrorReplyCode .refused) (rootQuery 0 [])
      true 0).Yields (some reply, b) ∧
      IsResponse 7 .refused reply) ↔ (0 = 0 ∧ 0 = 0 ∧ 0 = 0) :=
  refusal_iff server .refused 0 decode_rootQuery rfl (not_accepts_of_run (n := 1) rfl)

/-- **A query that says how long a reply may be** gets a header that counts a
record and has none. -/
theorem not_isResponse :
    ¬ ∀ (s : DNSServer) (replyCode : DNSReplyCode) (packet : List UInt8) (behind : ByteMem)
    (m : Dns.Message), Dns.decode packet = some m → m.header.qr = false →
      ¬ Accepts (s.setErrorReplyCode replyCode) packet behind →
      ∃ reply b, (processNextRequest (s.setErrorReplyCode replyCode) packet true behind).Yields
        (some reply, b) ∧
        IsResponse m.header.id replyCode reply := by
  intro h
  obtain ⟨own, hrun⟩ : ∃ c, isOwnRequest (server.setErrorReplyCode .refused)
    (received (rootQuery 1 option) 0) 0 =
      some (false, c) := ⟨_, rfl⟩
  have hown := (steady_isOwnRequest _ _).yields hrun
  obtain ⟨reply, b, hreply, hresponse⟩ :=
    h server .refused (rootQuery 1 option) 0 _ decode_rootQuery_option rfl
      (not_accepts_of_run hrun)
  obtain ⟨c, hreply'⟩ := processNextRequest_of_own (by decide) (by decide) hown
  obtain rfl := Option.some.inj (congrArg Prod.fst (hreply.unique hreply'))
  obtain ⟨-, -, har⟩ :=
    (isResponse_errorReply_iff server .refused decode_rootQuery_option).mp hresponse
  exact absurd har (by decide)

end DNSServer
