import Esp31b.Machine
import Esp31b.RefCount

/-!
# Who holds a network context

A `WiFiClient` is a pointer to a `ClientContext` and a `WiFiUDP` one to a
`UdpContext`. Both are copied freely, so the contexts count the objects that
refer to them, by hand: in the constructors and destructors, in the two
assignment operators, in `stop` and the bulk stops, where a connection is
made, and where a server hands one out. The objects of each class are in a
list that the bulk stops walk.

The machines below are any number of objects of one class, identified by
their addresses. Two of the places are wrong. `WiFiClient::operator=`
releases before it acquires, which deletes the context of an object that is
assigned to itself; `WiFiUDP::operator=` does not release at all. A third is
outside the code's hands: `connect` gives lwIP the address of the object, and
the callback stores a new context there at whatever time it comes
(`ConnectAttempt`).

`counted_iff` says that these are all: as long as they are avoided every
counter is right and every deletion in its place, and the first step that
does not avoid them breaks it.
-/

/-! ## `WiFiClient` -/

namespace WiFiClient

variable (s : RefPool ℕ)

/-- `WiFiClient()`. -/
def construct (i : ℕ) : RefPool ℕ := (s.point i none).add i

/-- `WiFiClient(ClientContext*)`. -/
def ofContext (i k : ℕ) : RefPool ℕ := ((s.point i (some k)).ref k).add i

/-- `WiFiClient(const WiFiClient&)`. -/
def copy (i j : ℕ) : RefPool ℕ := ((s.point i (s.ptr j)).refPtr (s.ptr j)).add i

/-- `~WiFiClient()`. -/
def destroy (i : ℕ) : RefPool ℕ := (s.remove i).unrefPtr (s.ptr i)

/-- `operator=`: the old context is released before the new pointer is
read. -/
def assign (i j : ℕ) : RefPool ℕ :=
  let released := s.unrefPtr (s.ptr i)
  (released.point i (released.ptr j)).refPtr (released.ptr j)

/-- `stop`. -/
def stop (i : ℕ) : RefPool ℕ := s.release i

/-- `_connected`. -/
def connected (i : ℕ) : RefPool ℕ := s.attach i

/-- `stopAll`: every context is aborted and released. -/
def stopAll : RefPool ℕ := s.dismissAll

/-- `stopAllExcept`. -/
def stopAllExcept (ex : ℕ) : RefPool ℕ := s.dismissAllExcept ex

/-- `WiFiServer::_accept`: the new context is put behind those that are not
claimed yet, which are gone through with `next()`. -/
def accept : RefPool ℕ := (s.idle.foldl RefPool.call s).create.keep s.fresh

/-- `WiFiServer::available`, with the context that is handed out: its `next()`
is asked for when the client has it. -/
def available (i k : ℕ) : RefPool ℕ := ((ofContext s i k).call k).take k

variable {s} {i j k : ℕ}

theorem sound_construct (h : s.Sound none) (hi : i ∉ s.objects) : (construct s i).Sound none :=
  h.enter (p := none) hi (fun _ hk => nomatch hk)

theorem sound_copy (h : s.Sound none) (hi : i ∉ s.objects) (hj : j ∈ s.objects) :
    (copy s i j).Sound none :=
  h.enter hi (fun _ hk => RefPool.holders_pos hj hk)

theorem sound_destroy (h : s.Sound none) (hi : i ∈ s.objects) : (destroy s i).Sound none :=
  (h.remove hi).unrefPtr

/-- The assignment is one of releasing and acquiring, as long as the pointer
is read before. -/
theorem assign_eq (s : RefPool ℕ) (i j : ℕ) :
    assign s i j = (((s.point i none).unrefPtr (s.ptr i)).refPtr (s.ptr j)).point i
      (s.ptr j) := by
  obtain ⟨-, hptr, -, -⟩ := s.unrefPtr_frame (s.ptr i)
  rw [assign, hptr, RefPool.refPtr_point, RefPool.unrefPtr_point, RefPool.unrefPtr_point,
    RefPool.point_point]

/-- **The assignment is right where the context of the right-hand side
outlives the release.** -/
theorem sound_assign (h : s.Sound none) (hi : i ∈ s.objects)
    (hothers : ∀ k, s.ptr j = some k → 0 < s.others i k) : (assign s i j).Sound none := by
  obtain ⟨hobjects, hptr, -, -⟩ := (s.point i none).unrefPtr_frame (s.ptr i)
  have hreleased := (h.point_none hi).unrefPtr
  have hacquired := hreleased.refPtr (p := s.ptr j) (fun k hk => by
    rw [RefPool.holders_congr hobjects hptr, RefPool.holders_point h.nodup hi,
      RefPool.loose_none]
    exact hothers k hk)
  obtain ⟨hobjects', hptr', -, -⟩ :=
    ((s.point i none).unrefPtr (s.ptr i)).refPtr_frame (s.ptr j)
  rw [assign_eq]
  refine hacquired.point ?_ ?_
  · rw [hobjects', hobjects]
    exact hi
  · rw [hptr', hptr, RefPool.ptr_point]

theorem sound_accept (h : s.Sound none) : (accept s).Sound none := by
  rw [accept, h.foldl_call_eq s.idle (fun _ hk => hk)]
  exact h.create

theorem sound_available (h : s.Sound none) (hi : i ∉ s.objects) (hk : k ∈ s.idle) :
    (available s i k).Sound none := by
  have hpoint := h.point_of_notMem hi (some k)
  have hsome : (s.point i (some k)).refcnt k ≠ none := by
    rw [(hpoint.tally k).waits.mp hk]
    exact Option.some_ne_none _
  obtain ⟨hobjects, hptr, -, -⟩ := (s.point i (some k)).refPtr_frame (some k)
  have hentered : (((s.point i (some k)).ref k).take k |>.add i).Sound none := by
    refine RefPool.Sound.add (s := ((s.point i (some k)).ref k).take k) ?_ ?_
    · have hptr' : (((s.point i (some k)).ref k).take k).ptr i = some k :=
        (congrFun hptr i).trans (s.ptr_point i (some k))
      rw [hptr']
      exact hpoint.ref hsome
    · exact fun hmem => hi (hobjects ▸ hmem)
  have hcall : ((ofContext s i k).call k).take k = (ofContext s i k).take k := by
    rw [RefPool.call_eq]
    exact (hentered.tally k).held (RefPool.holders_pos List.mem_cons_self
      ((congrFun hptr i).trans (s.ptr_point i (some k))))
  rw [available, hcall]
  exact hentered

theorem available_frame (s : RefPool ℕ) (i k : ℕ) :
    (available s i k).objects = i :: s.objects ∧ (available s i k).ptr = Function.update s.ptr i
    (some k) ∧
      (available s i k).idle = s.idle.erase k := by
  obtain ⟨hobjects, hptr, hidle⟩ := (ofContext s i k).call_frame k
  obtain ⟨hobjects', hptr', -, hidle'⟩ := (s.point i (some k)).refPtr_frame (some k)
  refine ⟨hobjects.trans (congrArg (i :: ·) hobjects'), hptr.trans hptr', ?_⟩
  exact congrArg (List.erase · k) (hidle.trans hidle')

theorem hands_available (s : RefPool ℕ) (i k : ℕ) : RefPool.Hands s (available s i k) := by
  obtain ⟨hobjects, hptr, hidle⟩ := available_frame s i k
  refine ⟨fun m hm => ?_, fun m hm => ?_⟩
  · by_cases hmk : m = k
    · subst hmk
      refine Or.inr (RefPool.holders_pos (i := i) ?_ ?_)
      · rw [hobjects]
        exact List.mem_cons_self
      · rw [hptr, Function.update_self]
    · exact Or.inl (hidle ▸ (List.mem_erase_of_ne hmk).mpr hm)
  · exact Or.inl (List.mem_of_mem_erase (hidle ▸ hm))

/-- **Releasing before acquiring**: the context of an object assigned to
itself is gone when it is to be acquired. -/
theorem not_right_assign (h : s.Sound none) (hk : s.ptr i = some k) (hsole : s.holders k = 1) :
    ¬ (assign s i i).Right := by
  obtain ⟨-, hptr, -, -⟩ := s.unrefPtr_frame (s.ptr i)
  have hone : s.refcnt k = some 1 := by
    rw [(h.tally k).exists_eq ((h.tally k).held (by omega)), hsole]
    rfl
  have hgone : (s.unrefPtr (some k)).refcnt k = none := by
    show (s.recount k _).refcnt k = none
    rw [RefPool.recount_eq hone]
    exact Function.update_self _ _ _
  rw [assign, hptr, hk]
  exact RefPool.not_right_of_fault hgone

end WiFiClient

/-- What can happen to the clients. Objects are given by their addresses,
contexts by the order of their making. -/
inductive WiFiClientEvent where
  | construct (i : ℕ)
  | accept
  /-- A client is made of a context that no client has had; without one
  `available` is `construct`. -/
  | available (i k : ℕ)
  | copy (i j : ℕ)
  | assign (i j : ℕ)
  /-- `connect`, which may or may not get as far as `tcp_connect`. -/
  | connect (i : ℕ) (started : Bool)
  /-- `_s_connected`, for an attempt of the object at this address. -/
  | connected (i : ℕ)
  /-- A method that does no more than pass a call on to the context. -/
  | use (i : ℕ)
  | stop (i : ℕ)
  | stopAll
  | stopAllExcept (ex : ℕ)
  | destroy (i : ℕ)
  deriving DecidableEq, Repr

/-- **All clients**, and the addresses that lwIP was given as the argument of
callbacks it has not made. -/
structure WiFiClients where
  pool : RefPool ℕ
  attempts : List ℕ

namespace WiFiClients

/-- One event. What is done with an object needs the object to be there, and
a new one needs its address not to be taken. -/
def step (s : WiFiClients) (e : WiFiClientEvent) : Option WiFiClients :=
  match e with
  | .construct i =>
    if i ∈ s.pool.objects then none else some { s with pool := WiFiClient.construct s.pool i }
  | .accept => some { s with pool := WiFiClient.accept s.pool }
  | .available i k =>
    if i ∉ s.pool.objects ∧ k ∈ s.pool.idle then
      some { s with pool := WiFiClient.available s.pool i k }
    else none
  | .copy i j =>
    if i ∉ s.pool.objects ∧ j ∈ s.pool.objects then
      some { s with pool := WiFiClient.copy s.pool i j }
    else none
  | .assign i j =>
    if i ∈ s.pool.objects ∧ j ∈ s.pool.objects then
      some { s with pool := WiFiClient.assign s.pool i j }
    else none
  | .connect i started =>
    if i ∈ s.pool.objects then
      some ⟨WiFiClient.stop s.pool i, if started then s.attempts ++ [i] else s.attempts⟩
    else none
  | .connected i =>
    if i ∈ s.attempts then some ⟨WiFiClient.connected s.pool i, s.attempts.erase i⟩ else none
  | .use i => if i ∈ s.pool.objects then some { s with pool := s.pool.callPtr (s.pool.ptr i) }
      else none
  | .stop i => if i ∈ s.pool.objects then some { s with pool := WiFiClient.stop s.pool i }
      else none
  | .stopAll => some { s with pool := WiFiClient.stopAll s.pool }
  | .stopAllExcept ex =>
    if ex ∈ s.pool.objects then some { s with pool := WiFiClient.stopAllExcept s.pool ex }
      else none
  | .destroy i => if i ∈ s.pool.objects then some { s with pool := WiFiClient.destroy s.pool i }
      else none

/-- No object, no context. -/
def init : WiFiClients := ⟨⟨[], fun _ => none, fun _ => none, 0, [], false⟩, []⟩

/-- The machine of the clients. -/
def machine : Machine WiFiClients WiFiClientEvent := ⟨step⟩

/-- **The steps that keep the counters right**: all but the assignment to
itself of an object whose context nobody else has, and the callback that
finds at its address no object or one with a context. -/
def Avoids (s : WiFiClients) : WiFiClientEvent → Prop
  | .assign i j => ¬ (i = j ∧ (s.pool.ptr i).any (fun k => s.pool.holders k = 1))
  | .connected i => i ∈ s.pool.objects ∧ s.pool.ptr i = none
  | _ => True

instance (s : WiFiClients) : DecidablePred s.Avoids
  | .assign _ _ => inferInstanceAs (Decidable (¬ _))
  | .connected _ => inferInstanceAs (Decidable (_ ∧ _))
  | .construct _ | .accept | .available _ _ | .copy _ _ | .connect _ _ | .use _ |
      .stop _ | .stopAll
  | .stopAllExcept _ | .destroy _ => inferInstanceAs (Decidable True)

variable {s t : WiFiClients} {e : WiFiClientEvent}

/-- **A step that avoids what is wrong keeps the counters right.** -/
theorem sound_step (h : s.pool.Sound none) (hstep : s.step e = some t) (havoids : s.Avoids e) :
    t.pool.Sound none ∧ RefPool.Hands s.pool t.pool := by
  cases e with
  | construct i =>
    obtain ⟨hi, rfl⟩ := Machine.of_guard_not hstep
    exact ⟨WiFiClient.sound_construct h hi, RefPool.hands_of_eq rfl⟩
  | accept =>
    obtain rfl := Option.some.inj hstep
    refine ⟨WiFiClient.sound_accept h, ?_⟩
    show RefPool.Hands s.pool (WiFiClient.accept s.pool)
    rw [WiFiClient.accept, h.foldl_call_eq s.pool.idle (fun _ hk => hk)]
    refine ⟨fun k hk => Or.inl (List.mem_append_left _ hk), fun k hk => ?_⟩
    rcases List.mem_append.mp hk with hold | hnew
    · exact Or.inl hold
    · exact Or.inr (Nat.le_of_eq (List.mem_singleton.mp hnew).symm)
  | available i k =>
    obtain ⟨⟨hi, hk⟩, rfl⟩ := Machine.of_guard hstep
    exact ⟨WiFiClient.sound_available h hi hk, WiFiClient.hands_available s.pool i k⟩
  | copy i j =>
    obtain ⟨⟨hi, hj⟩, rfl⟩ := Machine.of_guard hstep
    exact ⟨WiFiClient.sound_copy h hi hj, RefPool.hands_of_eq (RefPool.refPtr_frame _ _).2.2.2⟩
  | assign i j =>
    obtain ⟨⟨hi, hj⟩, rfl⟩ := Machine.of_guard hstep
    refine ⟨WiFiClient.sound_assign h hi (fun k hk => ?_), RefPool.hands_of_eq ?_⟩
    · by_cases hij : i = j
      · -- assigned to itself, which another object of the context makes harmless
        subst hij
        have hsole : ¬ s.pool.holders k = 1 :=
          fun hone => havoids ⟨rfl, by rw [hk]; simpa using hone⟩
        have hpos := RefPool.holders_pos hi hk
        rw [RefPool.holders_eq hi, hk, RefPool.loose_self] at hsole
        omega
      · exact RefPool.others_pos hj (Ne.symm hij) hk
    · exact (RefPool.refPtr_frame _ _).2.2.2.trans (s.pool.unrefPtr_frame _).2.2.2
  | connect i started =>
    obtain ⟨hi, rfl⟩ := Machine.of_guard hstep
    exact ⟨h.release hi, RefPool.hands_of_eq (s.pool.release_frame i).2.1⟩
  | connected i =>
    obtain ⟨-, rfl⟩ := Machine.of_guard hstep
    exact ⟨h.attach havoids.1 havoids.2, RefPool.hands_of_eq (s.pool.attach_frame i).2⟩
  | use i =>
    obtain ⟨hi, rfl⟩ := Machine.of_guard hstep
    show (s.pool.callPtr (s.pool.ptr i)).Sound none ∧
      RefPool.Hands s.pool (s.pool.callPtr (s.pool.ptr i))
    rw [h.callPtr_eq hi]
    exact ⟨h, RefPool.hands_of_eq rfl⟩
  | stop i =>
    obtain ⟨hi, rfl⟩ := Machine.of_guard hstep
    exact ⟨h.release hi, RefPool.hands_of_eq (s.pool.release_frame i).2.1⟩
  | stopAll =>
    obtain rfl := Option.some.inj hstep
    exact ⟨h.dismissAll.1, RefPool.hands_of_eq h.dismissAll.2⟩
  | stopAllExcept ex =>
    obtain ⟨-, rfl⟩ := Machine.of_guard hstep
    exact ⟨(h.dismissAllExcept ex).1, RefPool.hands_of_eq (h.dismissAllExcept ex).2⟩
  | destroy i =>
    obtain ⟨hi, rfl⟩ := Machine.of_guard hstep
    exact ⟨WiFiClient.sound_destroy h hi,
      RefPool.hands_of_eq (RefPool.unrefPtr_frame _ _).2.2.2⟩

/-- **And one that does not loses count.** -/
theorem not_right_step (h : s.pool.Sound none) (hstep : s.step e = some t)
    (havoids : ¬ s.Avoids e) :
    ¬ t.pool.Right := by
  cases e with
  | assign i j =>
    obtain ⟨-, rfl⟩ := Machine.of_guard hstep
    obtain ⟨rfl, hsole⟩ := Decidable.not_not.mp havoids
    cases hk : s.pool.ptr i with
    | none =>
      rw [hk] at hsole
      cases hsole
    | some k =>
      rw [hk] at hsole
      exact WiFiClient.not_right_assign h hk (of_decide_eq_true hsole)
  | connected i =>
    obtain ⟨-, rfl⟩ := Machine.of_guard hstep
    exact RefPool.not_right_attach h havoids
  | construct i => exact absurd trivial havoids
  | accept => exact absurd trivial havoids
  | available i k => exact absurd trivial havoids
  | copy i j => exact absurd trivial havoids
  | connect i started => exact absurd trivial havoids
  | use i => exact absurd trivial havoids
  | stop i => exact absurd trivial havoids
  | stopAll => exact absurd trivial havoids
  | stopAllExcept ex => exact absurd trivial havoids
  | destroy i => exact absurd trivial havoids

end WiFiClients

/-! ## `WiFiUDP` -/

namespace WiFiUDP

variable (s : RefPool ℕ)

/-- `WiFiUDP()`. -/
def construct (i : ℕ) : RefPool ℕ := (s.point i none).add i

/-- `WiFiUDP(const WiFiUDP&)`. -/
def copy (i j : ℕ) : RefPool ℕ := ((s.point i (s.ptr j)).refPtr (s.ptr j)).add i

/-- `operator=`: the pointer is overwritten. -/
def assign (i j : ℕ) : RefPool ℕ := (s.point i (s.ptr j)).refPtr (s.ptr j)

/-- `~WiFiUDP()`. -/
def destroy (i : ℕ) : RefPool ℕ := (s.remove i).unrefPtr (s.ptr i)

/-- `begin` and `beginMulticast`: a new context, which then listens. -/
def begin (i : ℕ) : RefPool ℕ :=
  ((s.release i).attach i).callPtr (((s.release i).attach i).ptr i)

/-- `beginPacket` and `beginPacketMulticast`: a new context if there is none,
which then gets its peer. -/
def beginPacket (i : ℕ) : RefPool ℕ :=
  let opened := if s.ptr i = none then s.attach i else s
  opened.callPtr (opened.ptr i)

/-- `stop`: the context is disconnected and released. -/
def stop (i : ℕ) : RefPool ℕ := s.dismiss i

/-- `stopAll`. -/
def stopAll : RefPool ℕ := s.dismissAll

/-- `stopAllExcept`. -/
def stopAllExcept (ex : ℕ) : RefPool ℕ := s.dismissAllExcept ex

variable {s} {i j k : ℕ}

theorem sound_assign (h : s.Sound none) (hi : i ∈ s.objects) (hj : j ∈ s.objects)
    (hnull : s.ptr i = none) : (assign s i j).Sound none := by
  obtain ⟨hobjects, hptr, -, -⟩ := s.refPtr_frame (s.ptr j)
  rw [assign, ← RefPool.refPtr_point]
  refine (h.refPtr (fun k hk => RefPool.holders_pos hj hk)).point ?_ ?_
  · exact hobjects ▸ hi
  · exact (congrFun hptr i).trans hnull

/-- **Acquiring without releasing**: the context that the object had loses an
object and not a reference, or gains a reference and not an object. -/
theorem not_right_assign (h : s.Sound none) (hi : i ∈ s.objects) (hj : j ∈ s.objects)
    (hk : s.ptr i = some k) : ¬ (assign s i j).Right := by
  have hpos := RefPool.holders_pos hi hk
  have hsome := (h.tally k).held hpos
  obtain ⟨hobjects, hptr, -, -⟩ := (s.point i (s.ptr j)).refPtr_frame (s.ptr j)
  by_cases hsame : s.ptr j = some k
  · -- the same context again: it is counted once more
    have hpoint : s.point i (some k) = s := by
      rw [RefPool.point, ← hk, Function.update_eq_self]
    intro hright
    rw [assign, hsame, hpoint] at hright
    have hrefcnt : (s.refPtr (some k)).refcnt k = some ((s.holders k : ℤ) + 1) := by
      show (s.recount k _).refcnt k = _
      rw [RefPool.recount_eq ((h.tally k).exists_eq hsome)]
      exact Function.update_self _ _ _
    have hcount := hright.1 k _ hrefcnt
    obtain ⟨hobjects', hptr', -, -⟩ := s.refPtr_frame (some k)
    rw [RefPool.holders_congr hobjects' hptr'] at hcount
    omega
  · -- another one, or none: the old context keeps a reference that no object has
    refine RefPool.not_right_of_lost h hsome ?_ ?_
    · unfold assign
      cases hm : s.ptr j with
      | none => rfl
      | some m =>
        have hne : k ≠ m := fun he => hsame (he ▸ hm)
        show ((s.point i (some m)).recount m _).refcnt k = _
        rw [RefPool.recount_eq (s := s.point i (some m))
          ((h.tally m).exists_eq ((h.tally m).held (RefPool.holders_pos hj hm)))]
        exact Function.update_of_ne hne _ _
    · rw [assign, RefPool.holders_congr hobjects hptr, RefPool.holders_point h.nodup hi,
        RefPool.holders_eq hi, hk, RefPool.loose_self, RefPool.loose, if_neg hsame]
      omega

theorem sound_begin (h : s.Sound none) (hi : i ∈ s.objects) :
    (begin s i).Sound none ∧ (begin s i).idle = s.idle := by
  obtain ⟨hobjects, hidle, hnull⟩ := s.release_frame i
  obtain ⟨hobjects', hidle'⟩ := (s.release i).attach_frame i
  have hi' : i ∈ (s.release i).objects := hobjects ▸ hi
  have hattached := (h.release hi).attach hi' hnull
  rw [begin, hattached.callPtr_eq (hobjects' ▸ hi')]
  exact ⟨hattached, hidle'.trans hidle⟩

theorem sound_beginPacket (h : s.Sound none) (hi : i ∈ s.objects) :
    (beginPacket s i).Sound none ∧ (beginPacket s i).idle = s.idle := by
  unfold beginPacket
  by_cases hnull : s.ptr i = none
  · obtain ⟨hobjects, hidle⟩ := s.attach_frame i
    have hattached := h.attach hi hnull
    rw [if_pos hnull, hattached.callPtr_eq (hobjects ▸ hi)]
    exact ⟨hattached, hidle⟩
  · rw [if_neg hnull, h.callPtr_eq hi]
    exact ⟨h, rfl⟩

end WiFiUDP

/-- What can happen to the UDP objects. -/
inductive WiFiUDPEvent where
  | construct (i : ℕ)
  | copy (i j : ℕ)
  | assign (i j : ℕ)
  | begin (i : ℕ)
  | beginPacket (i : ℕ)
  /-- A method that does no more than pass a call on to the context. -/
  | use (i : ℕ)
  | stop (i : ℕ)
  | stopAll
  | stopAllExcept (ex : ℕ)
  | destroy (i : ℕ)
  deriving DecidableEq, Repr

namespace WiFiUDPs

/-- One event. -/
def step (s : RefPool ℕ) (e : WiFiUDPEvent) : Option (RefPool ℕ) :=
  match e with
  | .construct i => if i ∈ s.objects then none else some (WiFiUDP.construct s i)
  | .copy i j => if i ∉ s.objects ∧ j ∈ s.objects then some (WiFiUDP.copy s i j) else none
  | .assign i j => if i ∈ s.objects ∧ j ∈ s.objects then some (WiFiUDP.assign s i j) else none
  | .begin i => if i ∈ s.objects then some (WiFiUDP.begin s i) else none
  | .beginPacket i => if i ∈ s.objects then some (WiFiUDP.beginPacket s i) else none
  | .use i => if i ∈ s.objects then some (s.callPtr (s.ptr i)) else none
  | .stop i => if i ∈ s.objects then some (WiFiUDP.stop s i) else none
  | .stopAll => some (WiFiUDP.stopAll s)
  | .stopAllExcept ex => if ex ∈ s.objects then some (WiFiUDP.stopAllExcept s ex) else none
  | .destroy i => if i ∈ s.objects then some (WiFiUDP.destroy s i) else none

/-- No object, no context. -/
def init : RefPool ℕ := ⟨[], fun _ => none, fun _ => none, 0, [], false⟩

/-- The machine of the UDP objects. -/
def machine : Machine (RefPool ℕ) WiFiUDPEvent := ⟨step⟩

/-- **The steps that keep the counters right**: all but the assignment to an
object that has a context. -/
def Avoids (s : RefPool ℕ) : WiFiUDPEvent → Prop
  | .assign i _ => s.ptr i = none
  | _ => True

instance (s : RefPool ℕ) : DecidablePred (Avoids s)
  | .assign _ _ => inferInstanceAs (Decidable (_ = _))
  | .construct _ | .copy _ _ | .begin _ | .beginPacket _ | .use _ | .stop _ | .stopAll
  | .stopAllExcept _ | .destroy _ => inferInstanceAs (Decidable True)

variable {s t : RefPool ℕ} {e : WiFiUDPEvent}

/-- **A step that avoids what is wrong keeps the counters right.** -/
theorem sound_step (h : s.Sound none) (hstep : step s e = some t) (havoids : Avoids s e) :
    t.Sound none ∧ RefPool.Hands s t := by
  cases e with
  | construct i =>
    obtain ⟨hi, rfl⟩ := Machine.of_guard_not hstep
    exact ⟨h.enter (p := none) hi (fun _ hk => nomatch hk), RefPool.hands_of_eq rfl⟩
  | copy i j =>
    obtain ⟨⟨hi, hj⟩, rfl⟩ := Machine.of_guard hstep
    exact ⟨h.enter hi (fun _ hk => RefPool.holders_pos hj hk),
      RefPool.hands_of_eq (RefPool.refPtr_frame _ _).2.2.2⟩
  | assign i j =>
    obtain ⟨⟨hi, hj⟩, rfl⟩ := Machine.of_guard hstep
    exact ⟨WiFiUDP.sound_assign h hi hj havoids, RefPool.hands_of_eq
      (RefPool.refPtr_frame _ _).2.2.2⟩
  | begin i =>
    obtain ⟨hi, rfl⟩ := Machine.of_guard hstep
    exact ⟨(WiFiUDP.sound_begin h hi).1, RefPool.hands_of_eq (WiFiUDP.sound_begin h hi).2⟩
  | beginPacket i =>
    obtain ⟨hi, rfl⟩ := Machine.of_guard hstep
    exact ⟨(WiFiUDP.sound_beginPacket h hi).1, RefPool.hands_of_eq
      (WiFiUDP.sound_beginPacket h hi).2⟩
  | use i =>
    obtain ⟨hi, rfl⟩ := Machine.of_guard hstep
    rw [h.callPtr_eq hi]
    exact ⟨h, RefPool.hands_of_eq rfl⟩
  | stop i =>
    obtain ⟨hi, rfl⟩ := Machine.of_guard hstep
    exact ⟨h.dismiss hi, RefPool.hands_of_eq (s.dismiss_frame i).2⟩
  | stopAll =>
    obtain rfl := Option.some.inj hstep
    exact ⟨h.dismissAll.1, RefPool.hands_of_eq h.dismissAll.2⟩
  | stopAllExcept ex =>
    obtain ⟨-, rfl⟩ := Machine.of_guard hstep
    exact ⟨(h.dismissAllExcept ex).1, RefPool.hands_of_eq (h.dismissAllExcept ex).2⟩
  | destroy i =>
    obtain ⟨hi, rfl⟩ := Machine.of_guard hstep
    exact ⟨(h.remove hi).unrefPtr, RefPool.hands_of_eq (RefPool.unrefPtr_frame _ _).2.2.2⟩

/-- **And one that does not loses count.** -/
theorem not_right_step (h : s.Sound none) (hstep : step s e = some t) (havoids : ¬ Avoids s e) :
    ¬ t.Right := by
  cases e with
  | assign i j =>
    obtain ⟨⟨hi, hj⟩, rfl⟩ := Machine.of_guard hstep
    obtain ⟨k, hk⟩ := Option.ne_none_iff_exists'.mp havoids
    exact WiFiUDP.not_right_assign h hi hj hk
  | construct i => exact absurd trivial havoids
  | copy i j => exact absurd trivial havoids
  | begin i => exact absurd trivial havoids
  | beginPacket i => exact absurd trivial havoids
  | use i => exact absurd trivial havoids
  | stop i => exact absurd trivial havoids
  | stopAll => exact absurd trivial havoids
  | stopAllExcept ex => exact absurd trivial havoids
  | destroy i => exact absurd trivial havoids

end WiFiUDPs

/-! ## Both -/

theorem sound_init : (WiFiUDPs.init).Sound none where
  tally k := by
    show RefPool.Tally none 0 (k < 0) (k ∈ [])
    rw [eq_false List.not_mem_nil]
    exact RefPool.tally_none
  nodup := List.nodup_nil
  idle_nodup := List.nodup_nil
  quiet := rfl

/-- **The counters of the network contexts.** In every run of the clients and
in every run of the UDP objects that avoids the steps that are wrong, each
context counts the objects that refer to it and none is called after its
deletion; and the next step keeps it so, and deletes exactly the contexts that
lose their last object in it, if and only if it avoids them too. -/
theorem counted_iff (es : List WiFiClientEvent) (us : List WiFiUDPEvent) :
    (∀ s, WiFiClients.machine.Along WiFiClients.Avoids WiFiClients.init es →
      WiFiClients.machine.run WiFiClients.init es = some s →
        s.pool.Right ∧ ∀ e t, s.step e = some t →
          ((t.pool.Right ∧ RefPool.DeletesExactly s.pool t.pool) ↔ s.Avoids e)) ∧
    (∀ s, WiFiUDPs.machine.Along WiFiUDPs.Avoids WiFiUDPs.init us →
      WiFiUDPs.machine.run WiFiUDPs.init us = some s →
        s.Right ∧ ∀ e t, WiFiUDPs.step s e = some t →
          ((t.Right ∧ RefPool.DeletesExactly s t) ↔ WiFiUDPs.Avoids s e)) := by
  constructor
  · intro s havoids hrun
    have hs : s.pool.Sound none := Machine.invariant_of_along (I := fun s => s.pool.Sound none)
      (fun _ _ _ h hP hstep => (WiFiClients.sound_step h hstep hP).1) sound_init havoids hrun
    refine ⟨hs.right, fun e t hstep => ⟨fun hright => ?_, fun hnext => ?_⟩⟩
    · by_contra hbad
      exact WiFiClients.not_right_step hs hstep hbad hright.1
    · obtain ⟨ht, hhands⟩ := WiFiClients.sound_step hs hstep hnext
      exact ⟨ht.right, hs.deletesExactly ht hhands⟩
  · intro s havoids hrun
    have hs : s.Sound none := Machine.invariant_of_along (I := fun s => s.Sound none)
      (fun _ _ _ h hP hstep => (WiFiUDPs.sound_step h hstep hP).1) sound_init havoids hrun
    refine ⟨hs.right, fun e t hstep => ⟨fun hright => ?_, fun hnext => ?_⟩⟩
    · by_contra hbad
      exact WiFiUDPs.not_right_step hs hstep hbad hright.1
    · obtain ⟨ht, hhands⟩ := WiFiUDPs.sound_step hs hstep hnext
      exact ⟨ht.right, hs.deletesExactly ht hhands⟩

/-- A client of a server, copied, assigned to itself while the copy is there,
stopped, and the copy destroyed; a client that connects, twice. -/
def clientsRight : List WiFiClientEvent :=
  [.accept, .available 0 0, .copy 1 0, .assign 1 1, .stop 0, .destroy 1,
    .connect 0 true, .connected 0, .connect 0 true, .connected 0, .stopAll]

/-- A UDP object that begins twice, a copy, and an assignment to a third that
was stopped. -/
def udpsRight : List WiFiUDPEvent :=
  [.construct 0, .begin 0, .begin 0, .copy 1 0, .construct 2, .beginPacket 2,
    .stop 2, .assign 2 1, .stopAllExcept 1]

theorem counted_of_right :
    (∃ s, WiFiClients.machine.run WiFiClients.init clientsRight = some s ∧ s.pool.Right) ∧
      ∃ s, WiFiUDPs.machine.run WiFiUDPs.init udpsRight = some s ∧ s.Right :=
  ⟨⟨_, rfl, ((counted_iff clientsRight udpsRight).1 _ (by decide) rfl).1⟩,
    ⟨_, rfl, ((counted_iff clientsRight udpsRight).2 _ (by decide) rfl).1⟩⟩

/-- **An assignment to itself**: the only client of a context calls it after
its deletion, and the only UDP object of another has it count two. -/
theorem not_counted_of_self_assign :
    (∃ s, WiFiClients.machine.run WiFiClients.init [.accept, .available 0 0, .assign 0 0] =
      some s ∧
      s.pool.fault = true) ∧
    ∃ s, WiFiUDPs.machine.run WiFiUDPs.init [.construct 0, .begin 0, .assign 0 0] = some s ∧
      s.refcnt 0 = some 2 ∧ s.holders 0 = 1 :=
  ⟨⟨_, rfl, by decide⟩, ⟨_, rfl, by decide, by decide⟩⟩
