import Esp31b.DnsReply

/-!
# The names `DNSServer` answers to

The name of the question and the one configured are compared after both were
lower-cased and went through `replace("www.", "")`. That is meant to take off a
prefix, and takes out every `www.` there is.

Two names that are equal but for one leading `www.` stay equal, so the server
answers to its own name. It answers to another one exactly if the two names are
one text with `www.`s put in at different places (`DNSServer.answers_iff`).
-/

namespace DNSServer

/-! ## Queries -/

/-- Letters, digits and hyphens. -/
def IsNameChar (c : UInt8) : Prop :=
  0x61 ≤ c ∧ c ≤ 0x7A ∨ 0x41 ≤ c ∧ c ≤ 0x5A ∨ 0x30 ≤ c ∧ c ≤ 0x39 ∨ c = 0x2D

/-- A label of a name. -/
def IsLabel (l : List UInt8) : Prop := 1 ≤ l.length ∧ l.length ≤ 63 ∧ ∀ c ∈ l, IsNameChar c

/-- A name that can be configured, with dots in it. -/
def IsDomain (d : WString) : Prop := ∀ c ∈ d, IsNameChar c ∨ c = 0x2E

instance (c : UInt8) : Decidable (IsNameChar c) := inferInstanceAs (Decidable (_ ∨ _))

instance (l : List UInt8) : Decidable (IsLabel l) := inferInstanceAs (Decidable (_ ∧ _))

instance (d : WString) : Decidable (IsDomain d) := inferInstanceAs (Decidable (∀ c ∈ d, _))

/-- A name on the wire, without the zero byte that ends it. -/
def wire : List (List UInt8) → List UInt8
  | [] => []
  | l :: ls => UInt8.ofNat l.length :: l ++ wire ls

/-- The name with dots. -/
def dotted : List (List UInt8) → WString
  | [] => []
  | [l] => l
  | l :: ls => l ++ ascii "." ++ dotted ls

/-- **A standard query with one question**, its first four bytes and the last
four being those of any such query. -/
structure StandardQuery where
  id₀ : UInt8
  id₁ : UInt8
  flags₀ : UInt8
  flags₁ : UInt8
  labels : List (List UInt8)
  type₀ : UInt8
  type₁ : UInt8
  class₀ : UInt8
  class₁ : UInt8
  query : flags₀ &&& 0x80 = 0
  standard : flags₀ &&& 0x78 = 0
  wellFormed : ∀ l ∈ labels, IsLabel l

/-- The datagram. -/
def StandardQuery.packet (q : StandardQuery) : List UInt8 :=
  [q.id₀, q.id₁, q.flags₀, q.flags₁] ++ oneQuestion ++ wire q.labels ++
    [0, q.type₀, q.type₁, q.class₀, q.class₁]

/-! ## What is compared, and what is meant -/

/-- Every `www.` is taken out. -/
def withoutWww : WString → WString
  | 0x77 :: 0x77 :: 0x77 :: 0x2E :: s => withoutWww s
  | c :: s => c :: withoutWww s
  | [] => []

/-- One is taken off the front. -/
def withoutLeadingWww : WString → WString
  | 0x77 :: 0x77 :: 0x77 :: 0x2E :: s => s
  | s => s

/-- **Two names are the same** but for letter case and one leading `www.`. -/
def SameDomain (n d : WString) : Prop :=
  withoutLeadingWww (n.map tolower) = withoutLeadingWww (d.map tolower)

instance (n d : WString) : Decidable (SameDomain n d) := inferInstanceAs (Decidable (_ = _))

/-- **One text with `www.`s put in at different places**: the pieces between them
make up the same text, and the texts differ. -/
def WwwApart (s t : WString) : Prop :=
  s ≠ t ∧ ∃ ps qs : List WString, (∀ p ∈ ps ++ qs, ¬ ascii "www." <:+: p) ∧
    s = (ascii "www.").intercalate ps ∧ t = (ascii "www.").intercalate qs ∧
    ps.flatten = qs.flatten

theorem withoutWww_cons {c : UInt8} {s : WString} (h : ¬ ascii "www." <+: c :: s) :
    withoutWww (c :: s) = c :: withoutWww s := by
  rw [withoutWww]
  rintro t rfl rfl
  exact h ⟨t, rfl⟩

/-- **A piece without a `www.`** stays: with the `www.` behind it there is none that
begins in it. -/
theorem withoutWww_piece {p : WString} (hp : ¬ ascii "www." <:+: p) (s : WString) :
    withoutWww (p ++ (ascii "www." ++ s)) = p ++ withoutWww s := by
  induction p with
  | nil => exact withoutWww.eq_1 s
  | cons c p ih =>
    have htail : ¬ ascii "www." <:+: p := fun h => hp (h.trans (List.suffix_cons c p).isInfix)
    have hstart : ¬ ascii "www." <+: c :: (p ++ (ascii "www." ++ s)) := by
      intro h
      -- its full stop would be one of the letters behind the piece
      match p with
      | [] | [_] | [_, _] => simp [ascii] at h
      | a :: b :: e :: p =>
        refine hp (List.IsPrefix.isInfix ?_)
        exact List.prefix_of_prefix_length_le h (List.prefix_append _ _) (by simp [ascii])
    rw [List.cons_append, withoutWww_cons hstart, ih htail, List.cons_append]

/-- The last one, with nothing behind it. -/
theorem withoutWww_of_not_infix {p : WString} (hp : ¬ ascii "www." <:+: p) :
    withoutWww p = p := by
  induction p with
  | nil => rfl
  | cons c p ih =>
    rw [withoutWww_cons fun h => hp h.isInfix,
      ih fun h => hp (h.trans (List.suffix_cons c p).isInfix)]

/-- **What stays are the pieces.** -/
theorem withoutWww_intercalate {ps : List WString} (h : ∀ p ∈ ps, ¬ ascii "www." <:+: p) :
    withoutWww ((ascii "www.").intercalate ps) = ps.flatten := by
  induction ps with
  | nil => rfl
  | cons p ps ih =>
    have hp := h p List.mem_cons_self
    have hps := ih fun q hq => h q (List.mem_cons_of_mem p hq)
    cases ps with
    | nil => simpa using withoutWww_of_not_infix hp
    | cons q qs =>
      rw [List.intercalate_cons_cons, List.append_assoc, withoutWww_piece hp, hps]
      exact List.flatten_cons.symm

/-- **Every text is made of pieces**, of which there is a first one. -/
theorem exists_pieces (s : WString) : ∃ p ps, (∀ q ∈ p :: ps, ¬ ascii "www." <:+: q) ∧
    s = (ascii "www.").intercalate (p :: ps) := by
  fun_induction withoutWww s with
  | case1 s ih =>
    obtain ⟨p, ps, hfree, rfl⟩ := ih
    refine ⟨[], p :: ps, List.forall_mem_cons.mpr ⟨by decide, hfree⟩, ?_⟩
    rw [List.intercalate_cons_cons]
    rfl
  | case2 c s hnot ih =>
    obtain ⟨p, ps, hfree, rfl⟩ := ih
    obtain ⟨hp, hps⟩ := List.forall_mem_cons.mp hfree
    obtain ⟨r, hr⟩ : ∃ r, (ascii "www.").intercalate (p :: ps) = p ++ r := by
      cases ps with
      | nil => exact ⟨[], by rw [List.append_nil, List.intercalate_singleton]⟩
      | cons q qs => exact ⟨_, by rw [List.intercalate_cons_cons, List.append_assoc]⟩
    refine ⟨c :: p, ps, List.forall_mem_cons.mpr ⟨fun h => ?_, hps⟩, ?_⟩
    · rcases List.infix_cons_iff.mp h with hstart | hin
      · obtain ⟨t, ht⟩ := hstart.trans (List.prefix_append (c :: p) r)
        rw [List.cons_append, ← hr] at ht
        obtain ⟨rfl, hrest⟩ := List.cons.inj ht
        exact hnot t rfl hrest.symm
      · exact hp hin
    · cases ps with
      | nil => rw [List.intercalate_singleton, List.intercalate_singleton]
      | cons q qs =>
        rw [List.intercalate_cons_cons, List.intercalate_cons_cons, List.append_assoc,
          List.append_assoc, List.cons_append]
  | case3 => exact ⟨[], [], by decide, rfl⟩

/-- **Apart by their `www.`s** are the texts that differ, and no longer do when every
`www.` is taken out. -/
theorem wwwApart_iff {s t : WString} : WwwApart s t ↔ s ≠ t ∧ withoutWww s = withoutWww t := by
  refine and_congr_right fun _ => ⟨?_, fun h => ?_⟩
  · rintro ⟨ps, qs, hfree, rfl, rfl, hflatten⟩
    rw [withoutWww_intercalate fun p hp => hfree p (List.mem_append_left _ hp),
      withoutWww_intercalate fun q hq => hfree q (List.mem_append_right _ hq), hflatten]
  · obtain ⟨p, ps, hps, rfl⟩ := exists_pieces s
    obtain ⟨q, qs, hqs, rfl⟩ := exists_pieces t
    rw [withoutWww_intercalate hps, withoutWww_intercalate hqs] at h
    exact ⟨_, _, fun r hr => (List.mem_append.mp hr).elim (hps r) (hqs r), rfl, rfl, h⟩

/-- **Two texts without a `www.`** are not. -/
theorem not_wwwApart {s t : WString} (hs : ¬ ascii "www." <:+: s) (ht : ¬ ascii "www." <:+: t) :
    ¬ WwwApart s t := by
  rw [wwwApart_iff, withoutWww_of_not_infix hs, withoutWww_of_not_infix ht]
  exact fun h => h.1 h.2

/-- **What is taken off is also taken out.** -/
theorem withoutWww_withoutLeadingWww (s : WString) :
    withoutWww (withoutLeadingWww s) = withoutWww s := by
  unfold withoutLeadingWww
  split
  · rw [withoutWww]
  · rfl

/-- `replace` with nothing goes from one occurrence to the next. -/
theorem keptFrom_www (s : WString) : WString.keptFrom (ascii "www.") 0 s = withoutWww s := by
  fun_induction withoutWww s with
  | case1 s ih => exact ih
  | case2 c s h ih =>
    have hnot : (ascii "www.").isPrefixOf (c :: s) = false := by
      rw [← Bool.not_eq_true, List.isPrefixOf_iff_prefix]
      rintro ⟨t, ht⟩
      obtain ⟨rfl, rfl⟩ := List.cons.inj ht
      exact h t rfl rfl
    rw [WString.keptFrom, if_neg (by simp [hnot]), ih]
  | case3 => rfl

theorem withoutWww_sublist (s : WString) : (withoutWww s).Sublist s := by
  fun_induction withoutWww s with
  | case1 s ih => exact ((((ih.cons _).cons _).cons _).cons _)
  | case2 c s _ ih => exact ih.cons_cons c
  | case3 => exact List.Sublist.refl _

/-- No letter becomes one of the characters in front of `a`. -/
theorem eq_of_tolower_eq {c d : UInt8} (hd : d < 0x61) (h : tolower c = d) : c = d := by
  unfold tolower at h
  split at h
  · rename_i hupper
    obtain ⟨hlow, hhigh⟩ := hupper
    rw [UInt8.le_iff_toNat_le] at hlow hhigh
    rw [UInt8.lt_iff_toNat_lt] at hd
    have hsum := congrArg UInt8.toNat h
    rw [UInt8.toNat_add] at hsum
    change (c.toNat + 32) % 256 = d.toNat at hsum
    change 65 ≤ c.toNat at hlow
    change c.toNat ≤ 90 at hhigh
    change d.toNat < 97 at hd
    omega
  · exact h

theorem tolower_ne_zero {c : UInt8} (h : c ≠ 0) : tolower c ≠ 0 :=
  fun hzero => h (eq_of_tolower_eq (by decide) hzero)

/-- **What is compared**, of a name without NUL. -/
theorem downcaseAndRemoveWwwPrefix_eq {d : WString} (h : 0 ∉ d) :
    downcaseAndRemoveWwwPrefix d = withoutWww (d.map tolower) := by
  have hlower : d.toLowerCase = d.map tolower := by
    unfold WString.toLowerCase
    rw [cstr_of_not_mem h, List.drop_length, List.append_nil]
  have hzero : 0 ∉ d.map tolower := by
    rw [List.mem_map]
    rintro ⟨c, hc, hc0⟩
    exact tolower_ne_zero (fun h0 => h (h0 ▸ hc)) hc0
  unfold downcaseAndRemoveWwwPrefix WString.replaceEmpty
  rw [hlower]
  split
  · rename_i hnil
    rw [hnil.resolve_right (by decide)]
    rfl
  · dsimp only
    have hle := (withoutWww_sublist (d.map tolower)).length_le
    rw [cstr_of_not_mem hzero, keptFrom_www, Nat.sub_sub_self hle, List.take_left]

/-! ## The name of the question -/

variable {b : TracedMem} {l : List UInt8} {ls : List (List UInt8)} {pos : ℕ}

/-- The next run of the memory is this. -/
theorem slice_append_iff (m : ByteMem) (p : ℕ) (d e : List UInt8) :
    m.slice p (d ++ e).length = d ++ e ↔ m.slice p d.length = d ∧
    m.slice (p + d.length) e.length = e := by
  rw [List.length_append, ← ByteMem.slice_append]
  exact ⟨fun h => List.append_inj h (ByteMem.length_slice _ _ _), fun h => by rw [h.1, h.2]⟩

/-- **A turn of the loop reads one label**, and looks at what is behind it. -/
theorem labelTurn_label (name : WString) (hlabel : IsLabel l)
    (hlength : b.mem (headerSize + pos) = UInt8.ofNat l.length)
    (hread : b.mem.slice (headerSize + pos + 1) l.length = l) :
    labelTurn (b, pos, name) =
      if b.mem (headerSize + (pos + l.length + 1)) = 0 then
        .inr (downcaseAndRemoveWwwPrefix (name ++ l), labelRead b pos)
      else .inl (labelRead b pos, pos + l.length + 1, name ++ l ++ ascii ".") := by
  have hnat : (UInt8.ofNat l.length).toNat = l.length :=
    UInt8.toNat_ofNat_of_lt' (lt_of_le_of_lt hlabel.2.1 (by decide))
  have hbehind : behindLabel b pos = pos + l.length + 1 := by rw [behindLabel, hlength, hnat]
  unfold labelTurn labelRead
  rw [hbehind, hlength, hnat]
  simp only [TracedMem.read_fst, TracedMem.read_mem, TracedMem.readRun_fst,
    TracedMem.readRun_mem, hlength, hnat, hread]

theorem IsLabel.length_ne_zero (h : IsLabel l) : UInt8.ofNat l.length ≠ 0 := by
  intro hzero
  have hnat := congrArg UInt8.toNat hzero
  rw [UInt8.toNat_ofNat_of_lt' (lt_of_le_of_lt h.2.1 (by decide))] at hnat
  exact absurd hnat (Nat.one_le_iff_ne_zero.mp h.1)

theorem read_wire_nil {m : ByteMem} {p : ℕ}
    (h : m.slice p (wire [] ++ [0]).length = wire [] ++ [0]) : m p = 0 :=
  (List.cons.inj h).1

/-- **The labels that are left** begin with one. -/
theorem read_wire_cons {m : ByteMem} {p : ℕ}
    (h : m.slice p (wire (l :: ls) ++ [0]).length = wire (l :: ls) ++ [0]) :
    m p = UInt8.ofNat l.length ∧ m.slice (p + 1) l.length = l ∧
      m.slice (p + 1 + l.length) (wire ls ++ [0]).length = wire ls ++ [0] := by
  have heq : wire (l :: ls) ++ [0] = [UInt8.ofNat l.length] ++ (l ++ (wire ls ++ [0])) := by
    simp [wire]
  rw [heq] at h
  obtain ⟨hfirst, hrest⟩ := (slice_append_iff _ _ _ _).mp h
  obtain ⟨hlabel, hrest⟩ := (slice_append_iff _ _ _ _).mp hrest
  exact ⟨(List.cons.inj hfirst).1, hlabel, hrest⟩

/-- **The loop reads the labels** that are left. -/
theorem labelLoop_wire (b : TracedMem) (pos : ℕ) (name : WString)
    (hlabels : ∀ k ∈ l :: ls, IsLabel k)
    (hread : b.mem.slice (headerSize + pos) (wire (l :: ls) ++ [0]).length =
      wire (l :: ls) ++ [0]) :
    ∃ c, (Fueled.loop (fun s => pure (labelTurn s)) (b, pos, name)).Yields
      (downcaseAndRemoveWwwPrefix (name ++ dotted (l :: ls)), c) := by
  induction ls generalizing l b pos name with
  | nil =>
    obtain ⟨hlength, hlabel, hrest⟩ := read_wire_cons hread
    have hplace : headerSize + pos + 1 + l.length =
        headerSize + (pos + l.length + 1) := by omega
    have hzero : b.mem (headerSize + (pos + l.length + 1)) = 0 := hplace ▸ read_wire_nil hrest
    have hturn := labelTurn_label name (hlabels l List.mem_cons_self) hlength hlabel
    rw [if_pos hzero] at hturn
    exact ⟨_, Fueled.yields_loop_inr hturn⟩
  | cons k ls ih =>
    obtain ⟨hlength, hlabel, hrest⟩ := read_wire_cons hread
    have hk := hlabels k (List.mem_cons_of_mem _ List.mem_cons_self)
    have hplace : headerSize + pos + 1 + l.length =
        headerSize + (pos + l.length + 1) := by omega
    rw [hplace] at hrest
    have hne : b.mem (headerSize + (pos + l.length + 1)) ≠ 0 := by
      rw [(read_wire_cons hrest).1]
      exact hk.length_ne_zero
    have hturn := labelTurn_label name (hlabels l List.mem_cons_self) hlength hlabel
    rw [if_neg hne] at hturn
    obtain ⟨c, hc⟩ := ih (labelRead b pos) _ (name ++ l ++ ascii ".")
      (fun j hj => hlabels j (List.mem_cons_of_mem _ hj)) hrest
    have hdotted : name ++ l ++ ascii "." ++ dotted (k :: ls) =
        name ++ dotted (l :: k :: ls) := by
      simp [dotted]
    exact ⟨c, Fueled.yields_loop_inl hturn (hdotted ▸ hc)⟩

/-- **The name of the question**, as it is compared. -/
theorem getDomainName_wire (hlabels : ∀ l ∈ ls, IsLabel l)
    (hread : b.mem.slice headerSize (wire ls ++ [0]).length = wire ls ++ [0]) :
    ∃ c, (getDomainNameWithoutWwwPrefix b).Yields
      (downcaseAndRemoveWwwPrefix (dotted ls), c) := by
  unfold getDomainNameWithoutWwwPrefix
  dsimp only
  cases ls with
  | nil =>
    rw [TracedMem.read_fst, if_pos (read_wire_nil hread)]
    exact ⟨_, Fueled.yields_pure _⟩
  | cons l ls =>
    have hne : b.mem headerSize ≠ 0 := by
      rw [(read_wire_cons hread).1]
      exact (hlabels l List.mem_cons_self).length_ne_zero
    rw [TracedMem.read_fst, if_neg hne]
    exact labelLoop_wire (b.read headerSize).2 0 [] hlabels hread

/-! ## Which names are answered -/

variable {d n : WString} {packet : List UInt8} {behind : ByteMem}

theorem IsDomain.zero_not_mem (h : IsDomain d) : 0 ∉ d :=
  fun hzero => absurd (h 0 hzero) (by decide)

theorem isDomain_dotted (hlabels : ∀ l ∈ ls, IsLabel l) : IsDomain (dotted ls) := by
  fun_induction dotted ls with
  | case1 => exact fun c hc => absurd hc List.not_mem_nil
  | case2 l => exact fun c hc => Or.inl ((hlabels l List.mem_cons_self).2.2 c hc)
  | case3 l ls _ ih =>
    intro c hc
    rcases List.mem_append.mp hc with hc | hc
    · rcases List.mem_append.mp hc with hc | hc
      · exact Or.inl ((hlabels l List.mem_cons_self).2.2 c hc)
      · exact Or.inr (List.mem_singleton.mp hc)
    · exact ih (fun k hk => hlabels k (List.mem_cons_of_mem _ hk)) c hc

/-- What is compared has no NUL either. -/
theorem zero_not_mem_compared (h : 0 ∉ d) : 0 ∉ withoutWww (d.map tolower) := by
  intro hzero
  obtain ⟨c, hc, hc0⟩ := List.mem_map.mp ((withoutWww_sublist _).subset hzero)
  exact tolower_ne_zero (fun h0 => h (h0 ▸ hc)) hc0

theorem IsDomain.star_not_mem (h : IsDomain d) : 0x2A ∉ d.map tolower := by
  intro hstar
  obtain ⟨c, hc, hlower⟩ := List.mem_map.mp hstar
  obtain rfl := eq_of_tolower_eq (by decide) hlower
  have hne : ¬ (IsNameChar 0x2A ∨ (0x2A : UInt8) = 0x2E) := by decide
  exact hne (h _ hc)

/-- **Any name is answered** if none is configured but the star. -/
theorem equalsC_star_iff (hd : d = ascii "*" ∨ IsDomain d) :
    (downcaseAndRemoveWwwPrefix d).equalsC (ascii "*") = true ↔ d = ascii "*" := by
  rcases hd with rfl | hd
  · decide
  · have hzero := hd.zero_not_mem
    rw [downcaseAndRemoveWwwPrefix_eq hzero, WString.equalsC_iff (zero_not_mem_compared hzero)]
    constructor
    · intro h
      have hmem : 0x2A ∈ withoutWww (d.map tolower) := by
        rw [h]
        decide
      exact absurd ((withoutWww_sublist _).subset hmem) hd.star_not_mem
    · rintro rfl
      exact absurd (hd 0x2A (by decide)) (by decide)

theorem equals_iff {s t : WString} (hs : 0 ∉ s) (ht : 0 ∉ t) : s.equals t = true ↔ s = t := by
  unfold WString.equals
  rw [cstr_of_not_mem hs, cstr_of_not_mem ht, Bool.and_eq_true, beq_iff_eq, beq_iff_eq]
  exact ⟨And.right, fun h => ⟨congrArg List.length h, h⟩⟩

/-- The two names after every `www.` was taken out. -/
def ComparedAlike (n d : WString) : Prop :=
  withoutWww (n.map tolower) = withoutWww (d.map tolower)

instance (n d : WString) : Decidable (ComparedAlike n d) := inferInstanceAs (Decidable (_ = _))

/-- **The same name is compared alike.** -/
theorem SameDomain.comparedAlike (h : SameDomain n d) : ComparedAlike n d := by
  unfold ComparedAlike
  rw [← withoutWww_withoutLeadingWww (n.map tolower), ← withoutWww_withoutLeadingWww
    (d.map tolower), h]

/-- **When a query is accepted.** -/
theorem isOwnRequest_packet (s : DNSServer) (ip : List UInt8) (hd : d = ascii "*" ∨ IsDomain d)
    (q : StandardQuery)
    (behind : ByteMem) : ∃ c, (isOwnRequest (s.start d ip) (received q.packet behind)).Yields
      (decide (d = ascii "*" ∨ ComparedAlike (dotted q.labels) d), c) := by
  have hlen : headerSize ≤ q.packet.length := by
    simp [StandardQuery.packet, oneQuestion, headerSize]
  have hasks : AsksAddress q.packet := ⟨q.query, q.standard, rfl⟩
  obtain ⟨b, hb, -, heq⟩ := isOwnRequest_eq (s.start d ip) hlen behind
  rw [heq, if_pos hasks]
  have hstar := equalsC_star_iff hd
  unfold isOwnName start
  dsimp only
  split
  · rename_i hall
    rw [decide_eq_true (Or.inl (hstar.mp hall))]
    exact ⟨b, Fueled.yields_pure _⟩
  · rename_i hnot
    have hdomain := hd.resolve_left fun h => hnot (hstar.mpr h)
    have hname := isDomain_dotted q.wellFormed
    have hpacket : q.packet = [q.id₀, q.id₁, q.flags₀, q.flags₁] ++ oneQuestion ++
        ((wire q.labels ++ [0]) ++ [q.type₀, q.type₁, q.class₀, q.class₁]) := by
      simp [StandardQuery.packet]
    have hread : b.mem.slice headerSize (wire q.labels ++ [0]).length =
        wire q.labels ++ [0] := by
      have hfits : headerSize + (wire q.labels ++ [0]).length ≤ q.packet.length := by
        simp [hpacket, oneQuestion, headerSize]
        omega
      rw [hb.slice hfits, hpacket]
      exact List.take_left
    obtain ⟨c, hc⟩ := getDomainName_wire q.wellFormed hread
    have hequals : (downcaseAndRemoveWwwPrefix (dotted q.labels)).equals
      (downcaseAndRemoveWwwPrefix d) =
        decide (d = ascii "*" ∨ ComparedAlike (dotted q.labels) d) := by
      rw [downcaseAndRemoveWwwPrefix_eq hname.zero_not_mem,
        downcaseAndRemoveWwwPrefix_eq hdomain.zero_not_mem,
        Bool.eq_iff_iff, equals_iff (zero_not_mem_compared hname.zero_not_mem)
          (zero_not_mem_compared hdomain.zero_not_mem), decide_eq_true_iff]
      exact ⟨Or.inr, fun h => h.resolve_left fun heq => hnot (hstar.mpr heq)⟩
    exact ⟨c, hequals ▸ hc.bind (Fueled.yields_pure _)⟩

/-- The two replies differ. -/
theorem addressReply_ne_errorReply (s : DNSServer) (hlen : headerSize ≤ packet.length) :
    addressReply s packet ≠ errorReply s packet := by
  intro heq
  have hlength := congrArg List.length heq
  simp [addressReply, errorReply, answerRecord, headerSize] at hlength hlen
  omega

/-- **The names that are taken for each other** and are not the same are apart by their
`www.`s, one leading one aside. -/
theorem wwwApart_names : WwwApart (withoutLeadingWww (n.map tolower))
    (withoutLeadingWww (d.map tolower)) ↔ ¬ SameDomain n d ∧ ComparedAlike n d := by
  rw [wwwApart_iff, withoutWww_withoutLeadingWww, withoutWww_withoutLeadingWww]
  exact Iff.rfl

/-- **When a query is answered as it should be**: when it is for any name, or when
the two names, without a leading `www.`, are not one text with `www.`s at different
places. -/
theorem answers_iff (s : DNSServer) (ip : List UInt8) (hd : d = ascii "*" ∨ IsDomain d)
    (q : StandardQuery)
    (behind : ByteMem) :
    (∃ b, (processNextRequest (s.start d ip) q.packet true behind).Yields
      (some (if d = ascii "*" ∨ SameDomain (dotted q.labels) d
        then addressReply (s.start d ip) q.packet
        else errorReply (s.start d ip) q.packet), b)) ↔
      d = ascii "*" ∨ ¬ WwwApart (withoutLeadingWww ((dotted q.labels).map tolower))
        (withoutLeadingWww (d.map tolower)) := by
  have hlen : headerSize ≤ q.packet.length := by
    simp [StandardQuery.packet, oneQuestion, headerSize]
  obtain ⟨c, hown⟩ := isOwnRequest_packet s ip hd q behind
  obtain ⟨c', hreply⟩ := processNextRequest_of_own hlen q.query hown
  have hne := addressReply_ne_errorReply (s.start d ip) hlen
  rw [wwwApart_names, not_and]
  constructor
  · rintro ⟨b, hb⟩
    have heq := Option.some.inj (congrArg Prod.fst (hb.unique hreply))
    by_cases hstar : d = ascii "*"
    · exact Or.inl hstar
    · refine Or.inr fun hother halike => ?_
      rw [if_neg (not_or.mpr ⟨hstar, hother⟩), if_pos (decide_eq_true (Or.inr halike))] at heq
      exact hne heq.symm
  · intro h
    refine ⟨c', ?_⟩
    have hiff : (d = ascii "*" ∨ ComparedAlike (dotted q.labels) d) ↔
        (d = ascii "*" ∨ SameDomain (dotted q.labels) d) := by
      refine ⟨fun hown => ?_, fun hsame => hsame.imp_right SameDomain.comparedAlike⟩
      rcases h with hstar | hapart
      · exact Or.inl hstar
      · exact hown.imp_right fun halike => by_contra fun hother => hapart hother halike
    have heq : (if d = ascii "*" ∨ SameDomain (dotted q.labels) d
      then addressReply (s.start d ip) q.packet
        else errorReply (s.start d ip) q.packet) =
        (if decide (d = ascii "*" ∨ ComparedAlike (dotted q.labels) d) = true
          then addressReply (s.start d ip) q.packet
        else errorReply (s.start d ip) q.packet) :=
      if_congr (hiff.symm.trans decide_eq_true_iff.symm) rfl rfl
    rw [heq]
    exact hreply

/-- A query for the address of `www.esp.LOCAL`. -/
def ownQuery : StandardQuery :=
  ⟨0, 7, 1, 0, [ascii "www", ascii "esp", ascii "LOCAL"], 0, 1, 0, 1,
    by decide, by decide, by decide⟩

/-- The server's own name, with a prefix. -/
theorem answers_iff_own :
    ∃ b, (processNextRequest (init.start (ascii "Esp.local") [192, 168, 4, 1])
      ownQuery.packet true 0).Yields
      (some (if ascii "Esp.local" = ascii "*" ∨
        SameDomain (ascii "www.esp.LOCAL") (ascii "Esp.local") then
          addressReply (init.start (ascii "Esp.local") [192, 168, 4, 1]) ownQuery.packet
        else errorReply (init.start (ascii "Esp.local") [192, 168, 4, 1]) ownQuery.packet),
          b) :=
  (answers_iff init [192, 168, 4, 1] (Or.inr (by decide)) ownQuery 0).mpr
    (Or.inr (not_wwwApart (by decide) (by decide)))

/-- A query for the address of `awww.b.c`. -/
def foreignQuery : StandardQuery :=
  ⟨0, 7, 1, 0, [ascii "awww", ascii "b", ascii "c"], 0, 1, 0, 1,
    by decide, by decide, by decide⟩

/-- **Another name is answered**: it is taken for `ab.c`. -/
theorem not_answers :
    ¬ ∀ (s : DNSServer) (ip : List UInt8) (d : WString) (q : StandardQuery) (behind : ByteMem),
    d = ascii "*" ∨ IsDomain d →
      ∃ b, (processNextRequest (s.start d ip) q.packet true behind).Yields
      (some (if d = ascii "*" ∨ SameDomain (dotted q.labels) d
        then addressReply (s.start d ip) q.packet
        else errorReply (s.start d ip) q.packet), b) := by
  intro h
  have hd : ascii "ab.c" = ascii "*" ∨ IsDomain (ascii "ab.c") := Or.inr (by decide)
  obtain ⟨b, hb⟩ := h init [192, 168, 4, 1] (ascii "ab.c") foreignQuery 0 hd
  obtain ⟨c, hown⟩ := isOwnRequest_packet init [192, 168, 4, 1] hd foreignQuery 0
  obtain ⟨c', hreply⟩ := processNextRequest_of_own (by decide) (by decide) hown
  exact absurd (Option.some.inj (congrArg Prod.fst (hb.unique hreply))) (by decide)

end DNSServer
