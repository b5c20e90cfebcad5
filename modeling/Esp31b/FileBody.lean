import Esp31b.ByteStream
import Esp31b.UploadFile

/-!
# The contents of a file as bytes

What the automaton of `uploadTurn` makes of the contents of a file is a matter
of the bytes alone once they come in time. `FileBody` says what: whether there
is a delimiter among those it looks at, and what is behind it. Without one the
contents run to the end of the bytes, and what happens there depends on the
connection. Where it is closed the upload is aborted, a few bytes early if the
end looks like the beginning of a delimiter, for `connected` fails as soon as
the last byte is taken. Where it stays open the automaton waits.
-/

namespace ESP31BWebServer

variable {l : Link} {closed : Bool} {q : List UInt8}

/-! ## Single bytes -/

theorem steady_uploadReadByte (l : Link) : (uploadReadByte l).Steady := by
  unfold uploadReadByte
  split
  · exact Fueled.steady_pure _
  · exact (Fueled.steady_loop (fun l => Fueled.steady_pure (waitTurn l)) _).bind
      (fun _ => Fueled.steady_pure _)

/-- A byte that is to come is waited for and read. -/
theorem uploadReadByte_cons {c : UInt8} (h : l.Brings closed (c :: q)) :
    ∃ l', (uploadReadByte l).Yields (c, l') ∧ l'.Brings closed q := by
  unfold uploadReadByte
  obtain ⟨hnone, htook⟩ | ⟨d, hd, hhead, htook⟩ := l.read_takes
  · -- nothing there yet: the wait goes through the schedule until something is
    have hl₁ : l.read.2.Brings closed (c :: q) := h.took htook l.read_sched_suffix
    obtain ⟨l₂, hwait, hl₂, hrx⟩ : ∃ l₂,
      (Fueled.loop (fun l => pure (waitTurn l)) l.read.2).Yields l₂ ∧
        l₂.Brings closed (c :: q) ∧ l₂.rx ≠ [] := by
      refine Fueled.exists_yields_loop (fun l => l.Brings closed (c :: q))
        (fun l => l.sched.length) _
        (fun l' hl' => ?_) hl₁
      by_cases hrx : l'.poll.rx = []
      · have hturn : waitTurn l' = .inl l'.poll.poll := by
          rw [waitTurn, Link.available, hrx]
          dsimp only [List.length_nil]
          rw [if_pos rfl, hl'.poll.connected_eq]
          simp
        have hlt : l'.poll.poll.sched.length < l'.sched.length :=
          lt_of_le_of_lt l'.poll.took_poll.sched
            (Link.poll_sched_lt (Link.sched_ne_nil
              (by rw [hl'.pending]; exact List.cons_ne_nil _ _) hrx))
        exact Or.inr ⟨l'.poll.poll, hturn ▸ Fueled.yields_pure _, hl'.poll.poll, hlt⟩
      · have hturn : waitTurn l' = .inr l'.poll := by
          rw [waitTurn, Link.available]
          dsimp only
          rw [if_neg (fun h0 => hrx (List.length_eq_zero_iff.mp h0))]
        exact Or.inl ⟨l'.poll, hturn ▸ Fueled.yields_pure _, hl'.poll, hrx⟩
    obtain ⟨l₃, hread, htook₃⟩ := Link.read_eq hrx hl₂.pending
    refine ⟨l₃, ?_, ?_⟩
    · rw [show l.read = (none, l.read.2) from Prod.ext hnone rfl]
      refine Fueled.Yields.bind hwait ?_
      rw [hread]
      exact Fueled.yields_pure _
    · have hs := l₂.read_sched_suffix
      rw [hread] at hs
      exact hl₂.took htook₃ hs
  · obtain rfl : c = d := by simpa [h.pending] using hhead
    refine ⟨l.read.2, ?_, h.took htook l.read_sched_suffix⟩
    rw [show l.read = (some c, l.read.2) from Prod.ext hd rfl]
    exact Fueled.yields_pure _

/-- With nothing left there is nothing to read. -/
theorem read_nil (h : l.Brings closed []) :
    ∃ l', l.read = (none, l') ∧ l'.Brings closed [] := by
  rcases l.read_takes with ⟨hnone, htook⟩ | ⟨c, -, hhead, -⟩
  · exact ⟨l.read.2, Prod.ext hnone rfl, h.took htook l.read_sched_suffix⟩
  · rw [h.pending] at hhead
    cases hhead

theorem waitTurn_nil (h : l.Brings closed []) :
    waitTurn l = if closed then .inr l.poll.poll else .inl l.poll.poll := by
  have hrx : l.poll.rx = [] := (List.append_eq_nil_iff.mp h.poll.pending).1
  rw [waitTurn, Link.available, hrx]
  dsimp only [List.length_nil]
  rw [if_pos rfl, h.poll.connected_eq]
  cases closed <;> rfl

/-- Behind the end of a closed connection the wait ends at once, and the read
gives -1. -/
theorem uploadReadByte_closed (h : l.Brings true []) :
    ∃ l', (uploadReadByte l).Yields (0xFF, l') ∧ l'.Brings true [] := by
  obtain ⟨l₁, h₁, hl₁⟩ := read_nil h
  obtain ⟨l₂, h₂, hl₂⟩ := read_nil hl₁.poll.poll
  refine ⟨l₂, ?_, hl₂⟩
  have hwait : (Fueled.loop (fun l => pure (waitTurn l)) l₁).Yields l₁.poll.poll := by
    refine Fueled.yields_loop_leave ?_
    rw [waitTurn_nil hl₁]
    exact Fueled.yields_pure _
  unfold uploadReadByte
  rw [h₁]
  refine Fueled.Yields.bind hwait ?_
  rw [h₂]
  exact Fueled.yields_pure _

/-- On an open connection it never ends. -/
theorem uploadReadByte_never (h : l.Brings false []) : (uploadReadByte l).Never := by
  obtain ⟨l₁, h₁, hl₁⟩ := read_nil h
  unfold uploadReadByte
  rw [h₁]
  refine Fueled.Never.bind ?_ _
  refine Fueled.never_loop (fun l => l.Brings false [])
    (fun l => Fueled.steady_pure (waitTurn l))
    (fun l' hl' => Or.inr ⟨l'.poll.poll, ?_, hl'.poll.poll⟩) hl₁
  rw [waitTurn_nil hl']
  exact Fueled.yields_pure _

/-! ## Files -/

/-- The bytes that are searched for the boundary: those that are left, and
what the stack holds where they are too few. -/
def endBuf (b stack r : List UInt8) : List UInt8 :=
  r.take b.length ++ (stack.take b.length).drop (r.take b.length).length

/-- What `strstr` finds behind CR LF `--`, these bytes being left there. At the
label LF and the two hyphens were still to come. -/
def boundaryFound (b : List UInt8) (stack : StackMemory) (r : List UInt8) : Bool :=
  strstrFinds b (endBuf b (stack (r.length + 3)) r) ((stack (r.length + 3)).drop b.length)

/-- The delimiter is here. On a connection that is closed it takes a byte
behind CR LF `--` to get as far as the search. -/
def Delimited (closed : Bool) (b : List UInt8) (stack : StackMemory) (q : List UInt8) : Prop :=
  marker <+: q ∧ (closed = true → q.drop 4 ≠ []) ∧ boundaryFound b stack (q.drop 4) = true

instance (closed : Bool) (b : List UInt8) (stack : StackMemory) (q : List UInt8) :
    Decidable (Delimited closed b stack q) :=
  inferInstanceAs (Decidable (_ ∧ _ ∧ _))

/-- **The contents of a file**: what is behind its delimiter, the first of
those the automaton looks at, or `none` where the file is cut off. -/
inductive FileBody (closed : Bool) (b : List UInt8) (stack : StackMemory) :
    List UInt8 → Option (List UInt8) → Prop where
  | cut : FileBody closed b stack [] none
  | found {q : List UInt8} (h : Delimited closed b stack q) :
    FileBody closed b stack q (some (q.drop (4 + b.length)))
  | next {q : List UInt8} {res : Option (List UInt8)} (hq : q ≠ [])
      (h : ¬ Delimited closed b stack q)
    (hrest : FileBody closed b stack (q.drop (turnLength b.length q)) res) :
    FileBody closed b stack q res

theorem FileBody.exists (closed : Bool) (b : List UInt8) (stack : StackMemory)
    (q : List UInt8) :
    ∃ res, FileBody closed b stack q res := by
  induction hn : q.length using Nat.strong_induction_on generalizing q with
  | _ n ih =>
    subst hn
    rcases eq_or_ne q [] with rfl | hq
    · exact ⟨none, .cut⟩
    · by_cases hd : Delimited closed b stack q
      · exact ⟨_, .found hd⟩
      · have hpos := List.length_pos_of_ne_nil hq
        have hturn := one_le_turnLength b.length q
        obtain ⟨res, hres⟩ := ih (q.drop (turnLength b.length q)).length
          (by rw [List.length_drop]; omega) _ rfl
        exact ⟨res, .next hq hd hres⟩

section
variable {b : List UInt8} {stack : StackMemory}

/-- Nothing is added behind a delimiter. -/
theorem FileBody.suffix {r : List UInt8} (h : FileBody closed b stack q (some r)) :
    r <:+ q := by
  generalize hres : some r = res at h
  induction h with
  | cut => cases hres
  | found hd =>
    cases hres
    exact List.drop_suffix _ _
  | next hq hd hrest ih => exact List.IsSuffix.trans (ih hres) (List.drop_suffix _ _)

/-- On a connection that is closed a delimiter takes at least five bytes. -/
theorem FileBody.five_le {r : List UInt8} (h : FileBody true b stack q (some r)) :
    5 ≤ q.length := by
  generalize hres : some r = res at h
  induction h with
  | cut => cases hres
  | found hd =>
    have hpos := List.length_pos_of_ne_nil (hd.2.1 rfl)
    rw [List.length_drop] at hpos
    omega
  | next hq hd hrest ih =>
    have hle := ih hres
    rw [List.length_drop] at hle
    omega

/-! ## The turns of the automaton -/

/-- **The automaton at its label**, these bytes being left with the one in
hand; behind the end of a closed connection the one in hand is what a failed
read gives. -/
def Scans (closed : Bool) (q : List UInt8) (st : UploadState) : Prop :=
  (∃ rest, q = st.argByte :: rest ∧ st.link.Brings closed rest) ∨
    q = [] ∧ closed = true ∧ st.argByte = 0xFF ∧ st.link.Brings true []

theorem scans_cons {c : UInt8} (hl : l.Brings closed q) (server : ESP31BWebServer) :
    Scans closed (c :: q) ⟨server, l, c⟩ := Or.inl ⟨q, rfl, hl⟩

theorem scans_nil (hl : l.Brings true []) (server : ESP31BWebServer) :
    Scans true [] ⟨server, l, 0xFF⟩ :=
  Or.inr ⟨rfl, rfl, rfl, hl⟩

/-- What a turn, or the rest of one, does: it finds the delimiter, gives up near
the end, goes on, or waits behind the last byte. -/
def Turns (closed : Bool) (b : List UInt8) (stack : StackMemory) (q : List UInt8)
    (turn : Fueled (UploadState ⊕ UploadResult)) : Prop :=
  (∃ s' l', turn.Yields (.inr (true, s', l')) ∧ Delimited closed b stack q ∧
    l'.Brings closed (q.drop (4 + b.length))) ∨
  (∃ s' l', turn.Yields (.inr (false, s', l')) ∧ closed = true ∧ q.length ≤ 4) ∨
  (∃ t, turn.Yields (.inl t) ∧ q ≠ [] ∧ ¬ Delimited closed b stack q ∧
    Scans closed (q.drop (turnLength b.length q)) t) ∨
  turn.Never ∧ closed = false ∧ ¬ Delimited closed b stack q ∧
  q.drop (turnLength b.length q) = []

/-- A turn that has read a byte. -/
theorem Turns.of_read {f : UInt8 × Link → Fueled (UploadState ⊕ UploadResult)} {c : UInt8}
    {l' : Link} (hread : (uploadReadByte l).Yields (c, l'))
    (h : Turns closed b stack q (f (c, l'))) :
    Turns closed b stack q (uploadReadByte l >>= f) := by
  rcases h with ⟨s', l'', hturn, hrest⟩ | ⟨s', l'', hturn, hrest⟩ |
      ⟨t, hturn, hrest⟩ | ⟨hnever, hrest⟩
  · exact Or.inl ⟨s', l'', hread.bind hturn, hrest⟩
  · exact Or.inr (Or.inl ⟨s', l'', hread.bind hturn, hrest⟩)
  · exact Or.inr (Or.inr (Or.inl ⟨t, hread.bind hturn, hrest⟩))
  · exact Or.inr (Or.inr (Or.inr ⟨(steady_uploadReadByte l).never_bind hread hnever, hrest⟩))

/-- A byte is read and the connection is still there. -/
theorem readByte_up {c : UInt8} (h : l.Brings closed (c :: q)) (hq : closed = true → q ≠ []) :
    ∃ l₁ l₂, (uploadReadByte l).Yields (c, l₁) ∧ l₁.connected = (true, l₂) ∧
      l₂.Brings closed q := by
  obtain ⟨l₁, hread, hl₁⟩ := uploadReadByte_cons h
  refine ⟨l₁, l₁.poll, hread, ?_, hl₁.poll⟩
  rw [hl₁.connected_eq]
  cases closed with
  | false => rfl
  | true =>
    obtain ⟨d, q, rfl⟩ := List.exists_cons_of_ne_nil (hq rfl)
    rfl

/-- The last byte is read, or none, and the connection is gone. -/
theorem readByte_down (h : l.Brings true q) (hq : q.length ≤ 1) :
    ∃ c l₁ l₂, (uploadReadByte l).Yields (c, l₁) ∧ l₁.connected = (false, l₂) := by
  match q, hq with
  | [], _ =>
    obtain ⟨l₁, hread, hl₁⟩ := uploadReadByte_closed h
    exact ⟨0xFF, l₁, l₁.poll, hread, hl₁.connected_eq⟩
  | [c], _ =>
    obtain ⟨l₁, hread, hl₁⟩ := uploadReadByte_cons h
    exact ⟨c, l₁, l₁.poll, hread, hl₁.connected_eq⟩

/-- A turn that ends by reading the next byte. -/
theorem turns_of_read (server : ESP31BWebServer) (hl : l.Brings closed q)
    {p : List UInt8} (hp : p ≠ []) (hd : ¬ Delimited closed b stack p)
    (hdrop : p.drop (turnLength b.length p) = q) :
    Turns closed b stack p (do
      let (argByte, link) ← uploadReadByte l
      return .inl ⟨server, link, argByte⟩) := by
  cases q with
  | cons c q =>
    obtain ⟨l', hread, hl'⟩ := uploadReadByte_cons hl
    exact Or.inr (Or.inr
      (Or.inl ⟨_, hread.bind (Fueled.yields_pure _), hp, hd, Or.inl ⟨q, hdrop, hl'⟩⟩))
  | nil =>
    cases closed with
    | true =>
      obtain ⟨l', hread, hl'⟩ := uploadReadByte_closed hl
      exact Or.inr (Or.inr (Or.inl
        ⟨_, hread.bind (Fueled.yields_pure _), hp, hd, Or.inr ⟨hdrop, rfl, rfl, hl'⟩⟩))
    | false =>
      exact Or.inr (Or.inr
        (Or.inr ⟨Fueled.Never.bind (uploadReadByte_never hl) _, rfl, hd, hdrop⟩))

/-! ### CR LF and two hyphens -/

/-- **The turn from a CR on**, with these bytes of CR LF `--` held back and those
still expected. -/
def readMarker (b : List UInt8) (stack : StackMemory) (s : UploadState) (held : List UInt8) :
    List UInt8 → Link → Fueled (UploadState ⊕ UploadResult)
  | [], link => do
    let (got, link) := link.readBytes b.length
    let endBuf := got ++ ((leftOn stack s).take b.length).drop got.length
    if foundOn stack b s endBuf then
      return .inr (true, s.server.uploadEnd, link)
    let (argByte, link) ← uploadReadByte link
    return .inl ⟨s.server.uploadWriteBytes (held ++ endBuf), link, argByte⟩
  | d :: expected, link => do
    let (argByte, link) ← uploadReadByte link
    let (up, link) := link.connected
    if !up then return .inr (false, s.server.parseFormUploadAborted, link)
    if argByte ≠ d then return .inl ⟨s.server.uploadWriteBytes held, link, argByte⟩
    readMarker b stack s (held ++ [d]) expected link

theorem uploadTurnStrstr_cr (b : List UInt8) (stack : StackMemory) (server : ESP31BWebServer)
    (link : Link) :
    uploadTurnStrstr b stack ⟨server, link, 0x0D⟩ =
      readMarker b stack ⟨server, link, 0x0D⟩ [0x0D] [0x0A, 0x2D, 0x2D] link := by
  unfold uploadTurnStrstr uploadTurnOn
  rw [uploadWriteByte_eq]
  rfl

/-- How far a turn gets from a part of CR LF `--` that is all there is of it. -/
theorem turnLength_held {held expected : List UInt8} {d : UInt8} (n : ℕ) (rest : List UInt8)
    (hmarker : held ++ d :: expected = marker) (hne : held ≠ []) (hrest : rest.head? ≠ some d) :
    ¬ marker <+: held ++ rest ∧ turnLength n (held ++ rest) = held.length := by
  have hno : ∀ p : List UInt8, ¬ d :: p <+: rest := by
    intro p hp
    obtain ⟨t, rfl⟩ := hp
    exact hrest rfl
  have hmark : ¬ marker <+: held ++ rest := by
    rw [← hmarker, List.prefix_append_right_inj]
    exact hno _
  refine ⟨hmark, ?_⟩
  unfold turnLength
  rw [if_neg hmark]
  match held, hne, hmarker with
  | [x], _, hmarker =>
    obtain ⟨rfl, rfl, rfl⟩ : x = 0x0D ∧ d = 0x0A ∧ expected = [0x2D, 0x2D] := by
      simpa [marker] using hmarker
    have hno₃ : ¬ [0x0D, 0x0A, 0x2D] <+: [0x0D] ++ rest := fun h =>
      hno [0x2D] ((List.prefix_append_right_inj [0x0D]).mp h)
    have hno₂ : ¬ [0x0D, 0x0A] <+: [0x0D] ++ rest := fun h =>
      hno [] ((List.prefix_append_right_inj [0x0D]).mp h)
    rw [if_neg hno₃, if_neg hno₂]
    rfl
  | [x, y], _, hmarker =>
    obtain ⟨rfl, rfl, rfl, rfl⟩ : x = 0x0D ∧ y = 0x0A ∧ d = 0x2D ∧ expected = [0x2D] := by
      simpa [marker] using hmarker
    have hno₃ : ¬ [0x0D, 0x0A, 0x2D] <+: [0x0D, 0x0A] ++ rest := fun h =>
      hno [] ((List.prefix_append_right_inj [0x0D, 0x0A]).mp h)
    rw [if_neg hno₃, if_pos (List.prefix_append _ rest)]
    rfl
  | [x, y, z], _, hmarker =>
    obtain ⟨rfl, rfl, rfl, -⟩ : x = 0x0D ∧ y = 0x0A ∧ z = 0x2D ∧ d = 0x2D ∧ expected = [] := by
      simpa [marker] using hmarker
    rw [if_pos (List.prefix_append _ rest)]
    rfl
  | _ :: _ :: _ :: _ :: t, _, hmarker =>
    have hlen := congrArg List.length hmarker
    simp [marker] at hlen

/-- Behind the whole of it a boundary's length is read and searched. -/
theorem readMarker_nil {st : UploadState} {r : List UInt8} (hl : l.Brings closed r)
    (hleft : st.link.pending.length = r.length + 3) (hr : closed = true → r ≠ []) :
    Turns closed b stack (marker ++ r) (readMarker b stack st marker [] l) := by
  have hpre : marker <+: marker ++ r := List.prefix_append _ _
  have hturn : turnLength b.length (marker ++ r) = 4 + b.length := if_pos hpre
  have hdrop : (marker ++ r).drop (4 + b.length) = r.drop b.length :=
    @List.drop_length_add_append _ marker r b.length
  obtain ⟨l', hread, hl'⟩ := hl.readBytes_eq b.length
  unfold readMarker foundOn leftOn
  rw [hread, hleft]
  dsimp only
  split
  · rename_i hfound
    exact Or.inl ⟨_, l', Fueled.yields_pure _, ⟨hpre, hr, hfound⟩, hdrop ▸ hl'⟩
  · rename_i hfound
    exact turns_of_read _ hl' (by simp [marker]) (fun hd => hfound hd.2.2)
      (by rw [hturn, hdrop])

/-- **Every turn from a CR on**, whatever has been read of CR LF `--` and
whatever follows it. -/
theorem readMarker_turns {st : UploadState} {expected rest : List UInt8} (held : List UInt8)
    (hmarker : held ++ expected = marker) (hne : held ≠ []) (hl : l.Brings closed rest)
    (hleft : st.link.pending.length = held.length + rest.length - 1)
    (hrest : closed = true → 1 < held.length → rest ≠ []) :
    Turns closed b stack (held ++ rest) (readMarker b stack st held expected l) := by
  induction expected generalizing held rest l with
  | nil =>
    rw [List.append_nil] at hmarker
    subst hmarker
    exact readMarker_nil hl (by rw [hleft]; simp [marker]; omega) fun hc => hrest hc (by decide)
  | cons d expected ih =>
    have hlen : held.length + expected.length = 3 := by
      have := congrArg List.length hmarker
      simp [marker] at this
      omega
    unfold readMarker
    by_cases hend : closed = true ∧ rest.length ≤ 1
    · -- the connection is found closed before the delimiter can be there
      obtain ⟨rfl, hle⟩ := hend
      obtain ⟨c, l₁, l₂, hread, hdown⟩ := readByte_down hl hle
      refine Turns.of_read hread
        (Or.inr (Or.inl ⟨st.server.parseFormUploadAborted, l₂, ?_, rfl, ?_⟩))
      · dsimp only
        rw [hdown]
        exact Fueled.yields_pure _
      · rw [List.length_append]
        omega
    · cases rest with
      | nil =>
        -- the beginning of a delimiter is all there is, and the next byte is waited for
        obtain rfl : closed = false := by
          cases closed with
          | false => rfl
          | true => exact absurd ⟨rfl, Nat.zero_le 1⟩ hend
        obtain ⟨hmark, hturn⟩ := turnLength_held b.length [] hmarker hne (by simp)
        refine Or.inr (Or.inr (Or.inr ⟨Fueled.Never.bind (uploadReadByte_never hl) _, rfl,
          fun hd => hmark hd.1, ?_⟩))
        rw [hturn, List.append_nil, List.drop_length]
      | cons x rest =>
        have hmore : closed = true → rest ≠ [] := by
          rintro hc rfl
          exact hend ⟨hc, Nat.le_refl 1⟩
        obtain ⟨l₁, l₂, hread, hup, hl₂⟩ := readByte_up hl hmore
        refine Turns.of_read hread ?_
        dsimp only
        rw [hup]
        dsimp only
        by_cases hx : x = d
        · subst hx
          rw [if_neg (by decide), if_neg (not_not_intro rfl)]
          have hgo := ih (held ++ [x]) (by rw [← hmarker, List.append_assoc]; rfl)
            (by simp) hl₂ (by rw [hleft]; simp) fun hc _ => hmore hc
          rwa [List.append_assoc] at hgo
        · rw [if_neg (by decide), if_pos hx]
          obtain ⟨hmark, hturn⟩ := turnLength_held b.length (x :: rest) hmarker hne
            (by simpa using hx)
          refine Or.inr (Or.inr
            (Or.inl ⟨_, Fueled.yields_pure _, by simp, fun hd => hmark hd.1, ?_⟩))
          rw [hturn, List.drop_left]
          exact scans_cons hl₂ _

/-- A byte that is no CR. -/
theorem turns_other {server : ESP31BWebServer} {link : Link} {a : UInt8} {rest : List UInt8}
    (hl : link.Brings closed rest) (ha : a ≠ 0x0D) :
    Turns closed b stack (a :: rest) (uploadTurnStrstr b stack ⟨server, link, a⟩) := by
  have hno : ¬ marker <+: a :: rest := by
    simp only [marker, List.cons_prefix_cons, ha.symm, false_and, not_false_eq_true]
  have hturn : turnLength b.length (a :: rest) = 1 := by
    simp only [turnLength, hno, List.cons_prefix_cons, ha.symm, false_and, ↓reduceIte]
  unfold uploadTurnStrstr uploadTurnOn
  dsimp only
  rw [if_pos ha, hl.connected_eq]
  by_cases hend : closed = true ∧ rest = []
  · -- `connected` is asked before the byte in hand is written
    obtain ⟨rfl, rfl⟩ := hend
    exact Or.inr (Or.inl ⟨_, _, Fueled.yields_pure _, rfl, Nat.succ_le_succ (Nat.zero_le 3)⟩)
  · have hup : (!closed || !rest.isEmpty) = true := by
      cases closed <;> cases rest <;> simp_all
    dsimp only
    rw [hup]
    exact turns_of_read _ hl.poll (List.cons_ne_nil _ _) (fun hd => hno hd.1)
      (by rw [hturn]; rfl)

/-- **Every turn of the automaton.** -/
theorem turns_of_scans (b : List UInt8) (stack : StackMemory) {st : UploadState}
    (h : Scans closed q st) : Turns closed b stack q (uploadTurnStrstr b stack st) := by
  obtain ⟨server, link, a⟩ := st
  rcases h with ⟨rest, rfl, hl⟩ | ⟨rfl, rfl, ha, hl⟩
  · by_cases ha : a = 0x0D
    · subst ha
      rw [uploadTurnStrstr_cr]
      exact readMarker_turns [0x0D] rfl (List.cons_ne_nil _ _) hl
        (by dsimp only; rw [hl.pending]; simp) fun _ h => absurd h (Nat.lt_irrefl 1)
    · exact turns_other hl ha
  · -- the 0xFF of a failed read is no CR
    dsimp only at ha hl
    subst ha
    refine Or.inr (Or.inl ⟨server.parseFormUploadAborted, link.poll, ?_, rfl, Nat.zero_le 4⟩)
    unfold uploadTurnStrstr uploadTurnOn
    dsimp only
    rw [if_pos (by decide), hl.connected_eq]
    exact Fueled.yields_pure _

theorem steady_uploadTurnStrstr (st : UploadState) : (uploadTurnStrstr b stack st).Steady := by
  unfold uploadTurnStrstr uploadTurnOn
  refine Fueled.Steady.ite ?_ ((steady_uploadReadByte _).bind fun r => ?_)
  · exact Fueled.Steady.ite (Fueled.steady_pure _)
      ((steady_uploadReadByte _).bind fun _ => Fueled.steady_pure _)
  refine Fueled.Steady.ite (Fueled.steady_pure _) (Fueled.Steady.ite (Fueled.steady_pure _)
    ((steady_uploadReadByte _).bind fun r => ?_))
  refine Fueled.Steady.ite (Fueled.steady_pure _) (Fueled.Steady.ite (Fueled.steady_pure _)
    ((steady_uploadReadByte _).bind fun r => ?_))
  exact Fueled.Steady.ite (Fueled.steady_pure _) (Fueled.Steady.ite (Fueled.steady_pure _)
    (Fueled.Steady.ite (Fueled.steady_pure _)
      ((steady_uploadReadByte _).bind fun _ => Fueled.steady_pure _)))

/-- **The automaton gets behind the delimiter**, if there is one. -/
theorem FileBody.yields_found {r : List UInt8} {res : Option (List UInt8)}
    (h : FileBody closed b stack q res) (hres : res = some r) {st : UploadState}
    (hst : Scans closed q st) :
    ∃ s' l', (Fueled.loop (uploadTurnStrstr b stack) st).Yields (true, s', l') ∧
      l'.Brings closed r := by
  induction h generalizing st with
  | cut => cases hres
  | found hd =>
    cases hres
    rcases turns_of_scans b stack hst with ⟨s', l', hturn, -, hl'⟩ | ⟨-, -, -, rfl, hlen⟩
      | ⟨-, -, -, hnd, -⟩ | ⟨-, -, hnd, -⟩
    · exact ⟨s', l', Fueled.yields_loop_leave hturn, hl'⟩
    · have hfive := (FileBody.found hd).five_le
      omega
    · exact absurd hd hnd
    · exact absurd hd hnd
  | @next q res hq hnd hrest ih =>
    subst hres
    rcases turns_of_scans b stack hst with ⟨-, -, -, hd, -⟩ | ⟨-, -, -, rfl, hlen⟩
      | ⟨t, hturn, -, -, ht⟩ | ⟨-, -, -, hnil⟩
    · exact absurd hd hnd
    · have hfive := (FileBody.next hq hnd hrest).five_le
      omega
    · obtain ⟨s', l', hloop, hl'⟩ := ih rfl ht
      exact ⟨s', l', Fueled.yields_loop_again hturn hloop, hl'⟩
    · -- where the automaton waits nothing is left, and no delimiter is found in nothing
      rw [hnil] at hrest
      cases hrest with
      | found hd => exact absurd hd.1 (by decide)
      | next hne => exact absurd rfl hne

/-- **Without one it gives up** at the end of a closed connection. -/
theorem FileBody.yields_cut {res : Option (List UInt8)} (h : FileBody true b stack q res)
    (hres : res = none) {st : UploadState} (hst : Scans true q st) :
    ∃ s' l', (Fueled.loop (uploadTurnStrstr b stack) st).Yields (false, s', l') := by
  induction h generalizing st with
  | cut =>
    rcases turns_of_scans b stack hst with ⟨-, -, -, hd, -⟩ | ⟨s', l', hturn, -⟩ |
        ⟨-, -, hne, -⟩
      | ⟨-, hopen, -⟩
    · exact absurd hd.1 (by decide)
    · exact ⟨s', l', Fueled.yields_loop_leave hturn⟩
    · exact absurd rfl hne
    · cases hopen
  | found hd => cases hres
  | next hq hnd hrest ih =>
    rcases turns_of_scans b stack hst with ⟨-, -, -, hd, -⟩ | ⟨s', l', hturn, -⟩
      | ⟨t, hturn, -, -, ht⟩ | ⟨-, hopen, -⟩
    · exact absurd hd hnd
    · exact ⟨s', l', Fueled.yields_loop_leave hturn⟩
    · obtain ⟨s', l', hloop⟩ := ih hres ht
      exact ⟨s', l', Fueled.yields_loop_again hturn hloop⟩
    · cases hopen

/-- **And it waits for ever** at the end of an open one. -/
theorem FileBody.never_cut (h : FileBody false b stack q none) {st : UploadState}
    (hst : Scans false q st) :
    (Fueled.loop (uploadTurnStrstr b stack) st).Never := by
  refine Fueled.never_loop (fun st => ∃ q, FileBody false b stack q none ∧ Scans false q st)
    steady_uploadTurnStrstr ?_ ⟨q, h, hst⟩
  rintro st ⟨q, h, hst⟩
  rcases turns_of_scans b stack hst with ⟨-, -, -, hd, -⟩ | ⟨-, -, -, hclosed, -⟩
    | ⟨t, hturn, hne, hnd, ht⟩ | ⟨hnever, -⟩
  · cases h with
    | cut => exact absurd hd.1 (by decide)
    | next hq hnd hrest => exact absurd hd hnd
  · cases hclosed
  · cases h with
    | cut => exact absurd rfl hne
    | next hq hnd hrest => exact Or.inr ⟨t, hturn, _, hrest, ht⟩
  · exact Or.inl hnever

/-! ## The file branch -/

/-- The first byte is read before the label. -/
theorem FileBody.uploadFileStrstr_found {r : List UInt8}
    (h : FileBody closed b stack q (some r))
    (hl : l.Brings closed q) (name filename type : List UInt8) (s : ESP31BWebServer) :
    ∃ s' l', (uploadFileStrstr b stack name filename type s l).Yields (true, s', l') ∧
      l'.Brings closed r := by
  cases q with
  | nil =>
    cases h with
    | found hd => exact absurd hd.1 (by decide)
    | next hne => exact absurd rfl hne
  | cons c q =>
    obtain ⟨l₁, hread, hl₁⟩ := uploadReadByte_cons hl
    obtain ⟨s', l', hloop, hl'⟩ := h.yields_found rfl (scans_cons hl₁ _)
    exact ⟨s', l', hread.bind hloop, hl'⟩

theorem FileBody.uploadFileStrstr_cut (h : FileBody true b stack q none) (hl : l.Brings true q)
    (name filename type : List UInt8) (s : ESP31BWebServer) :
    ∃ s' l', (uploadFileStrstr b stack name filename type s l).Yields (false, s', l') := by
  cases q with
  | nil =>
    obtain ⟨l₁, hread, hl₁⟩ := uploadReadByte_closed hl
    obtain ⟨s', l', hloop⟩ := h.yields_cut rfl (scans_nil hl₁ _)
    exact ⟨s', l', hread.bind hloop⟩
  | cons c q =>
    obtain ⟨l₁, hread, hl₁⟩ := uploadReadByte_cons hl
    obtain ⟨s', l', hloop⟩ := h.yields_cut rfl (scans_cons hl₁ _)
    exact ⟨s', l', hread.bind hloop⟩

theorem FileBody.uploadFileStrstr_never (h : FileBody false b stack q none)
    (hl : l.Brings false q)
    (name filename type : List UInt8) (s : ESP31BWebServer) :
    (uploadFileStrstr b stack name filename type s l).Never := by
  cases q with
  | nil => exact Fueled.Never.bind (uploadReadByte_never hl) _
  | cons c q =>
    obtain ⟨l₁, hread, hl₁⟩ := uploadReadByte_cons hl
    exact (steady_uploadReadByte l).never_bind hread (h.never_cut (scans_cons hl₁ _))

/-- **Only the upload differs**: the rest of what the server knows of the
request is the same. -/
def SameRequest (s t : ESP31BWebServer) : Prop :=
  ∃ uploads upload, t = { s with uploads := uploads, currentUpload := upload }

namespace SameRequest

variable {s t u : ESP31BWebServer}

theorem refl (s : ESP31BWebServer) : SameRequest s s := ⟨s.uploads, s.currentUpload, rfl⟩

theorem trans (h : SameRequest s t) (h' : SameRequest t u) : SameRequest s u := by
  obtain ⟨uploads, upload, rfl⟩ := h
  obtain ⟨uploads', upload', rfl⟩ := h'
  exact ⟨uploads', upload', rfl⟩

theorem callUpload (s : ESP31BWebServer) : SameRequest s s.callUpload := by
  unfold ESP31BWebServer.callUpload
  split
  · split
    · exact ⟨_, _, rfl⟩
    · exact refl s
  · exact refl s

theorem uploadWriteByte (s : ESP31BWebServer) (c : UInt8) :
    SameRequest s (s.uploadWriteByte c) := by
  unfold ESP31BWebServer.uploadWriteByte
  dsimp only [setBuf]
  split
  · exact (callUpload s).trans ⟨_, _, rfl⟩
  · exact ⟨_, _, rfl⟩

theorem uploadWriteBytes (s : ESP31BWebServer) (bs : List UInt8) :
    SameRequest s (s.uploadWriteBytes bs) := by
  unfold ESP31BWebServer.uploadWriteBytes
  induction bs generalizing s with
  | nil => exact refl s
  | cons c bs ih => exact (uploadWriteByte s c).trans (ih _)

theorem uploadEnd (s : ESP31BWebServer) : SameRequest s s.uploadEnd :=
  (callUpload s).trans (trans ⟨_, _, rfl⟩ (callUpload _))

theorem parseFormUploadAborted (s : ESP31BWebServer) : SameRequest s s.parseFormUploadAborted :=
  trans ⟨_, _, rfl⟩ (callUpload _)

theorem uploadStart (s : ESP31BWebServer) (name filename type : List UInt8) :
    SameRequest s (s.uploadStart name filename type) :=
  (trans ⟨_, _, rfl⟩ (callUpload _)).trans ⟨_, _, rfl⟩

end SameRequest

theorem uploadTurnOn_sameRequest (found : UploadState → List UInt8 → Bool)
    (left : UploadState → List UInt8) {s : ESP31BWebServer} (st : UploadState)
    (h : SameRequest s st.server) :
    (uploadTurnOn found left b st).Gives fun r =>
      r.elim (fun st => SameRequest s st.server)
        (fun res : UploadResult => SameRequest s res.2.1) := by
  intro n r hr
  obtain ⟨bs, link, c, rfl⟩ | ⟨link, rfl⟩ | ⟨link, rfl⟩ := uploadTurnOn_cases _ _ _ _ n r hr
  · exact h.trans (.uploadWriteBytes _ bs)
  · exact h.trans (.uploadEnd _)
  · exact h.trans (.parseFormUploadAborted _)

/-- **An upload changes nothing else.** -/
theorem uploadFileOn_sameRequest (found : UploadState → List UInt8 → Bool)
    (left : UploadState → List UInt8) (name filename type : List UInt8) (s : ESP31BWebServer)
    (l : Link) :
    (uploadFileOn found left b name filename type s l).Gives fun r => SameRequest s r.2.1 :=
  Fueled.gives_bind _ fun _ => Fueled.gives_loop (uploadTurnOn_sameRequest found left)
    (SameRequest.uploadStart s name filename type)

/-- **An upload does not touch the arguments.** -/
theorem uploadFileStrstr_currentArgs {name filename type : List UInt8} {s : ESP31BWebServer}
    {r : UploadResult}
    (h : (uploadFileStrstr b stack name filename type s l).Yields r) :
    r.2.1.currentArgs = s.currentArgs := by
  obtain ⟨uploads, upload, heq⟩ := (uploadFileOn_sameRequest _ _ _ _ _ _ _).of_yields h
  rw [heq]

end

end ESP31BWebServer
