import Esp31b.Link

/-!
# A connection as a byte string

As long as no wait reaches the time-out a reader sees nothing of the schedule:
it gets the bytes one after the other, and then only time-outs. `Link.Brings`
says that a connection is one of these, which bytes it has to bring, and
whether it is closed with the last of them or stays open. What the operations
of `Link` do is then what the functions below do with a byte string.
-/

/-- What is read up to a byte, or to the end, and what is left. -/
def cutAt (t : UInt8) (q : List UInt8) : List UInt8 × List UInt8 :=
  (q.takeWhile (· ≠ t), (q.dropWhile (· ≠ t)).tail)

theorem cutAt_cons_self (t : UInt8) (q : List UInt8) : cutAt t (t :: q) = ([], q) := by
  rw [cutAt, List.takeWhile_cons_of_neg (by simp), List.dropWhile_cons_of_neg
    (by simp), List.tail_cons]

theorem cutAt_cons_ne {t c : UInt8} (h : c ≠ t) (q : List UInt8) :
    cutAt t (c :: q) = (c :: (cutAt t q).1, (cutAt t q).2) := by
  rw [cutAt, List.takeWhile_cons_of_pos (by simpa using h), List.dropWhile_cons_of_pos
    (by simpa using h),
    cutAt]

/-- Reading takes something, if there is anything. -/
theorem length_cutAt_lt (t : UInt8) {q : List UInt8} (h : q ≠ []) :
    (cutAt t q).2.length < q.length := by
  induction q with
  | nil => exact absurd rfl h
  | cons c q ih =>
    by_cases hc : c = t
    · subst hc
      rw [cutAt_cons_self]
      exact Nat.lt_succ_self _
    · rw [cutAt_cons_ne hc, List.length_cons]
      cases q with
      | nil => exact Nat.zero_lt_succ _
      | cons d q => exact Nat.lt_succ_of_lt (ih (List.cons_ne_nil d q))

theorem cutAt_suffix (t : UInt8) (q : List UInt8) : (cutAt t q).2 <:+ q :=
  List.IsSuffix.trans (List.tail_suffix _) (List.dropWhile_suffix _)

namespace Link

/-! ## Looks use up the schedule -/

theorem poll_sched_suffix (l : Link) : l.poll.sched <:+ l.sched := by
  unfold poll
  split
  · exact List.suffix_rfl
  · rename_i s rest hs
    rw [hs]
    exact List.suffix_cons s rest

theorem read_sched_suffix (l : Link) : l.read.2.sched <:+ l.sched := by
  unfold read
  split <;> exact l.poll_sched_suffix

theorem timedReadFrom_sched_suffix (start n : ℕ) (l : Link) :
    (timedReadFrom start n l).2.sched <:+ l.sched := by
  induction n generalizing l with
  | zero => exact List.suffix_rfl
  | succ n ih =>
    have hread := l.read_sched_suffix
    unfold timedReadFrom
    split
    · rename_i hl
      rwa [hl] at hread
    · rename_i l' hl
      rw [hl] at hread
      split
      · exact (ih l').trans hread
      · exact hread

/-! ## What a connection brings -/

/-- **The connection brings these bytes**, each in time, and is closed with
the last of them or stays open. -/
structure Brings (closed : Bool) (q : List UInt8) (l : Link) : Prop where
  pending : l.pending = q
  prompt : l.Prompt
  fin : l.fin = closed
  /-- Nothing happens between the last byte and the end. -/
  closes : closed = true → ∀ t, t <:+ l.sched → t ≠ [] → t.flatMap Slice.bytes ≠ []

variable {l l' : Link} {closed : Bool} {q : List UInt8} {c : UInt8} {k : ℕ}

theorem Brings.took (h : l.Brings closed q) (htook : l.Took k l') (hs : l'.sched <:+ l.sched) :
    l'.Brings closed (q.drop k) where
  pending := by rw [htook.pending, h.pending]
  prompt := htook.prompt h.prompt
  fin := htook.fin.trans h.fin
  closes hfin t ht hne := h.closes hfin t (ht.trans hs) hne

theorem Brings.poll (h : l.Brings closed q) : l.poll.Brings closed q :=
  h.took l.took_poll l.poll_sched_suffix

/-- Behind the last byte a connection that is closed has no schedule left. -/
theorem Brings.sched_nil (h : l.Brings true []) : l.sched = [] := by
  by_contra hne
  exact h.closes rfl l.sched List.suffix_rfl hne (List.append_eq_nil_iff.mp h.pending).2

/-- **`connected`** fails behind the last byte of a connection that is closed,
and only there. -/
theorem Brings.connected_eq (h : l.Brings closed q) :
    l.connected = (!closed || !q.isEmpty, l.poll) := by
  have hpoll := h.poll
  rw [connected, up, hpoll.fin]
  cases closed with
  | false => rfl
  | true =>
    cases q with
    | nil =>
      rw [hpoll.sched_nil, (List.append_eq_nil_iff.mp hpoll.pending).1]
      rfl
    | cons c q =>
      -- what is pending has arrived or is scheduled
      have hsome : (!(true && l.poll.sched.isEmpty) || !l.poll.rx.isEmpty) = true := by
        by_contra hno
        have hboth : l.poll.sched = [] ∧ l.poll.rx = [] := by simpa using hno
        have hnil : l.poll.pending = [] := by rw [Link.pending, hboth.1, hboth.2]; rfl
        rw [hpoll.pending] at hnil
        cases hnil
      rw [hsome]
      rfl

theorem Brings.timedRead_cons (h : l.Brings closed (c :: q)) :
    ∃ l', l.timedRead = (some c, l') ∧ l'.Brings closed q := by
  have hlen : 0 < l.pending.length := by rw [h.pending]; exact Nat.zero_lt_succ _
  obtain ⟨l', hread, htook⟩ := timedRead_eq h.pending (h.prompt.2 0 hlen)
  have hs : l'.sched <:+ l.sched := by
    have hsuffix := timedReadFrom_sched_suffix l.now (l.sched.length + 1) l
    rwa [← timedRead, hread] at hsuffix
  exact ⟨l', hread, h.took htook hs⟩

/-- With nothing left the time-out passes. -/
theorem Brings.timedRead_nil (h : l.Brings closed []) :
    ∃ l', l.timedRead = (none, l') ∧ l'.Brings closed [] := by
  rcases l.timedRead_takes with ⟨hnone, htook⟩ | ⟨c, -, hhead, -⟩
  · exact ⟨l.timedRead.2, Prod.ext hnone rfl, h.took htook (timedReadFrom_sched_suffix _ _ l)⟩
  · rw [h.pending] at hhead
    cases hhead

theorem Brings.readUntilFrom_eq (t : UInt8) {n : ℕ} (h : l.Brings closed q)
    (hn : q.length < n) :
    ∃ l', readUntilFrom t n l = ((cutAt t q).1, l') ∧ l'.Brings closed (cutAt t q).2 := by
  induction n generalizing q l with
  | zero => exact absurd hn (Nat.not_lt_zero _)
  | succ n ih =>
    cases q with
    | nil =>
      obtain ⟨l', hread, hl'⟩ := h.timedRead_nil
      refine ⟨l', ?_, hl'⟩
      rw [readUntilFrom, hread]
      rfl
    | cons c q =>
      obtain ⟨l', hread, hl'⟩ := h.timedRead_cons
      rw [readUntilFrom, hread]
      dsimp only
      by_cases hc : c = t
      · subst hc
        rw [if_pos rfl, cutAt_cons_self]
        exact ⟨l', rfl, hl'⟩
      · obtain ⟨l'', hrest, hl''⟩ := ih hl' (Nat.lt_of_succ_lt_succ hn)
        rw [if_neg hc, cutAt_cons_ne hc, hrest]
        exact ⟨l'', rfl, hl''⟩

/-- **`readStringUntil`** reads up to the byte, or to the end. -/
theorem Brings.readStringUntil_eq (t : UInt8) (h : l.Brings closed q) :
    ∃ l', l.readStringUntil t = ((cutAt t q).1, l') ∧ l'.Brings closed (cutAt t q).2 :=
  h.readUntilFrom_eq t (by rw [h.pending]; exact Nat.lt_succ_self _)

/-- **`readBytes`** reads what it is asked for, or to the end. -/
theorem Brings.readBytes_eq (n : ℕ) (h : l.Brings closed q) :
    ∃ l', Link.readBytes n l = (q.take n, l') ∧ l'.Brings closed (q.drop n) := by
  induction n generalizing q l with
  | zero => exact ⟨l, rfl, h⟩
  | succ n ih =>
    cases q with
    | nil =>
      obtain ⟨l', hread, hl'⟩ := h.timedRead_nil
      refine ⟨l', ?_, hl'⟩
      rw [Link.readBytes, hread]
      rfl
    | cons c q =>
      obtain ⟨l', hread, hl'⟩ := h.timedRead_cons
      obtain ⟨l'', hrest, hl''⟩ := ih hl'
      refine ⟨l'', ?_, hl''⟩
      rw [Link.readBytes, hread]
      dsimp only
      rw [hrest]
      rfl

/-- Everything has arrived. -/
theorem brings_arrived {l : Link} (hsched : l.sched = []) (htimeout : 0 < l.timeout) :
    l.Brings l.fin l.rx where
  pending := by rw [Link.pending, hsched, List.flatMap_nil, List.append_nil]
  prompt := ⟨htimeout, fun i _ => by rw [waitAt_of_sched_nil hsched]; exact htimeout⟩
  fin := rfl
  closes _ t ht hne := absurd (List.suffix_nil.mp (hsched ▸ ht)) hne

end Link
