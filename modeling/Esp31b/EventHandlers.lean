import Mathlib.Data.List.Infix

/-!
# Handlers for events

The handlers are kept in a vector, in the order in which they were registered, and
`_eventCallback` calls those of them that an event is for. `removeEvent` walks through the
vector by an index and erases what it is asked to remove.

An element that is erased leaves its index to the next one, and the walk goes on behind it:
an entry that was registered twice in a row is only removed once
(`WiFiGeneric.removes_iff`). Nothing else is lost, and nothing changes its place.
-/

namespace List

variable {α : Type*} [DecidableEq α]

/-- **What is left of a list** that is walked by an index, where an element is skipped
behind each one that is erased. -/
def keptByWalk (x : α) : List α → List α
  | [] => []
  | [y] => if y = x then [] else [y]
  | y :: z :: l => if y = x then z :: keptByWalk x l else y :: keptByWalk x (z :: l)

theorem keptByWalk_cons_of_ne {x y : α} (h : y ≠ x) (l : List α) :
    keptByWalk x (y :: l) = y :: keptByWalk x l := by
  cases l with
  | nil => exact if_neg h
  | cons z l => exact if_neg h

theorem filter_ne_self (x : α) (l : List α) : (x :: l).filter (· ≠ x) = l.filter (· ≠ x) :=
  filter_cons_of_neg (by simp)

theorem filter_ne_cons {x y : α} (h : y ≠ x) (l : List α) :
    (y :: l).filter (· ≠ x) = y :: l.filter (· ≠ x) := filter_cons_of_pos (by simpa using h)

/-- **It is all but that element**, exactly where it never stands twice in a row. -/
theorem keptByWalk_eq_filter_iff (x : α) (l : List α) :
    keptByWalk x l = l.filter (· ≠ x) ↔ ¬ [x, x] <:+: l := by
  fun_induction keptByWalk x l with
  | case1 => simp
  | case2 =>
    exact iff_of_true (by simp) fun hinfix => Nat.not_succ_le_self 1 hinfix.length_le
  | case3 y h =>
    exact iff_of_true (filter_ne_cons h []).symm fun hinfix =>
      Nat.not_succ_le_self 1 hinfix.length_le
  | case4 z l ih =>
    rw [filter_ne_self, infix_cons_iff]
    by_cases hz : z = x
    · -- the second of two is skipped
      subst hz
      refine iff_of_false (fun heq => ?_) (fun hnot => hnot (Or.inl ⟨l, rfl⟩))
      have hmem : z ∈ (z :: l).filter (· ≠ z) := heq ▸ mem_cons_self
      simp at hmem
    · have hstart : ¬ [x, x] <+: x :: z :: l := fun hprefix =>
        hz (cons_prefix_cons.mp (cons_prefix_cons.mp hprefix).2).1.symm
      have hnext : ¬ [x, x] <+: z :: l := fun hprefix => hz (cons_prefix_cons.mp hprefix).1.symm
      rw [filter_ne_cons hz, infix_cons_iff, or_iff_right hstart, or_iff_right hnext, ← ih]
      exact cons_inj_right z
  | case5 y z l h ih =>
    have hstart : ¬ [x, x] <+: y :: z :: l := fun hprefix =>
      h (cons_prefix_cons.mp hprefix).1.symm
    rw [filter_ne_cons h, infix_cons_iff, or_iff_right hstart, ← ih]
    exact cons_inj_right y

end List

namespace WiFiGeneric

/-- `WiFiEvent_t`; the last one is for all of them. -/
inductive WiFiEvent where
  | stamodeConnected
  | stamodeDisconnected
  | stamodeAuthmodeChange
  | stamodeGotIp
  | stamodeDhcpTimeout
  | softapmodeStaconnected
  | softapmodeStadisconnected
  | softapmodeProbereqrecved
  | max
  deriving DecidableEq, Repr

/-- `WiFiEventCbList_t`: a handler, which may be null, and the event it is for. -/
structure WiFiEventCbList (Cb : Type) where
  cb : Option Cb
  event : WiFiEvent
  deriving DecidableEq, Repr

variable {Cb : Type}

/-- `onEvent`. -/
def onEvent (cbEventList : List (WiFiEventCbList Cb)) (cbEvent : Option Cb)
    (event : WiFiEvent) :
    List (WiFiEventCbList Cb) :=
  match cbEvent with
  | none => cbEventList
  | some cb => cbEventList ++ [⟨some cb, event⟩]

/-- The handlers after some calls of `onEvent`. -/
def registered (calls : List (Option Cb × WiFiEvent)) : List (WiFiEventCbList Cb) :=
  calls.foldl (fun list c => onEvent list c.1 c.2) []

/-- The loop of `removeEvent`. -/
def removeLoop [DecidableEq Cb] (cbEvent : Option Cb) (event : WiFiEvent) :
    ℕ → ℕ → List (WiFiEventCbList Cb) → Option (List (WiFiEventCbList Cb))
  | 0, _, _ => none
  | turns + 1, i, cbEventList =>
    match cbEventList[i]? with
    | none => some cbEventList
    | some entry =>
      if entry.cb = cbEvent ∧ entry.event = event then
        removeLoop cbEvent event turns (i + 1) (cbEventList.eraseIdx i)
      else removeLoop cbEvent event turns (i + 1) cbEventList

/-- **`removeEvent`.** -/
def removeEvent [DecidableEq Cb] (cbEventList : List (WiFiEventCbList Cb)) (cbEvent : Option Cb)
    (event : WiFiEvent) : Option (List (WiFiEventCbList Cb)) :=
  if cbEvent = none then some cbEventList
  else removeLoop cbEvent event (cbEventList.length + 1) 0 cbEventList

/-- **`_eventCallback`**: the entries whose handlers are called, one after the other, and the
vector afterwards. A handler may register others and remove them, and the loop need not end. -/
def eventCallback
    (handler : Cb → WiFiEvent → List (WiFiEventCbList Cb) → List (WiFiEventCbList Cb))
    (event : WiFiEvent) : ℕ → ℕ → List (WiFiEventCbList Cb) →
    Option (List (WiFiEventCbList Cb) × List (WiFiEventCbList Cb))
  | 0, _, _ => none
  | turns + 1, i, cbEventList =>
    match cbEventList[i]? with
    | none => some ([], cbEventList)
    | some entry =>
      match entry.cb with
      | none => eventCallback handler event turns (i + 1) cbEventList
      | some cb =>
        if entry.event = event ∨ entry.event = .max then do
          let (called, cbEventList) ←
            eventCallback handler event turns (i + 1) (handler cb event cbEventList)
          return (entry :: called, cbEventList)
        else eventCallback handler event turns (i + 1) cbEventList

/-- **It is removed**: all the other entries are left in their order, and as long as no handler
registers it again it is not called for any event. -/
def Removes [DecidableEq Cb] (cbEventList : List (WiFiEventCbList Cb)) (cb : Cb)
    (event : WiFiEvent) : Prop :=
  ∃ left, removeEvent cbEventList (some cb) event = some left ∧
    left = cbEventList.filter (· ≠ ⟨some cb, event⟩) ∧
    ∀ (handler : Cb → WiFiEvent → List (WiFiEventCbList Cb) → List (WiFiEventCbList Cb)),
      (∀ c e list, ⟨some cb, event⟩ ∉ list → ⟨some cb, event⟩ ∉ handler c e list) →
      ∀ e turns called list, eventCallback handler e turns 0 left = some (called, list) →
        ⟨some cb, event⟩ ∉ called

variable {cbEventList : List (WiFiEventCbList Cb)}

/-- **The loop is the walk**, behind what it has passed. -/
theorem removeLoop_eq [DecidableEq Cb] (cbEvent : Option Cb) (event : WiFiEvent) {turns : ℕ}
    (passed rest : List (WiFiEventCbList Cb)) (hturns : rest.length < turns) :
    removeLoop cbEvent event turns passed.length (passed ++ rest) =
      some (passed ++ List.keptByWalk ⟨cbEvent, event⟩ rest) := by
  induction turns generalizing passed rest with
  | zero => omega
  | succ turns ih =>
    match rest with
    | [] =>
      rw [removeLoop, List.append_nil, List.getElem?_eq_none le_rfl, List.keptByWalk,
        List.append_nil]
    | entry :: rest =>
      rw [List.length_cons] at hturns
      rw [removeLoop, List.getElem?_append_right le_rfl, Nat.sub_self, List.getElem?_cons_zero]
      dsimp only
      by_cases hentry : entry = ⟨cbEvent, event⟩
      · -- the next one has moved to its index
        rw [if_pos (by rw [hentry]; exact ⟨rfl, rfl⟩), List.eraseIdx_append_of_length_le le_rfl,
          Nat.sub_self, List.eraseIdx_cons_zero]
        match rest with
        | [] =>
          obtain ⟨turns, rfl⟩ : ∃ n, turns = n + 1 := ⟨turns - 1, by omega⟩
          rw [removeLoop, List.append_nil, List.getElem?_eq_none (Nat.le_succ _),
            List.keptByWalk, if_pos hentry, List.append_nil]
        | next :: rest =>
          have hnext := ih (passed ++ [next]) rest (by rw [List.length_cons] at hturns; omega)
          rw [List.length_append, List.length_singleton, List.append_assoc,
            List.append_assoc] at hnext
          rw [List.keptByWalk, if_pos hentry]
          exact hnext
      · have hnext := ih (passed ++ [entry]) rest (by omega)
        rw [List.length_append, List.length_singleton, List.append_assoc,
          List.append_assoc] at hnext
        rw [if_neg (fun h => hentry (by cases entry; cases h.1; cases h.2; rfl)),
          List.keptByWalk_cons_of_ne hentry]
        exact hnext

theorem removeEvent_eq [DecidableEq Cb] (cbEventList : List (WiFiEventCbList Cb)) (cb : Cb)
    (event : WiFiEvent) :
    removeEvent cbEventList (some cb) event =
      some (List.keptByWalk ⟨some cb, event⟩ cbEventList) :=
  (if_neg (Option.some_ne_none cb)).trans
    (removeLoop_eq (some cb) event [] cbEventList (Nat.lt_succ_self _))

/-- **An entry that is not there is not called**, and does not come back. -/
theorem not_mem_called {x : WiFiEventCbList Cb}
    {handler : Cb → WiFiEvent → List (WiFiEventCbList Cb) → List (WiFiEventCbList Cb)}
    (hkeeps : ∀ c e list, x ∉ list → x ∉ handler c e list) {e : WiFiEvent} {turns i : ℕ}
    {called list : List (WiFiEventCbList Cb)} (hnot : x ∉ cbEventList)
    (h : eventCallback handler e turns i cbEventList = some (called, list)) : x ∉ called := by
  induction turns generalizing i cbEventList called list with
  | zero => cases h
  | succ turns ih =>
    rw [eventCallback] at h
    cases hentry : cbEventList[i]? with
    | none =>
      rw [hentry] at h
      cases h
      exact List.not_mem_nil
    | some entry =>
      have hne : x ≠ entry := fun heq => hnot (heq ▸ List.mem_of_getElem? hentry)
      rw [hentry] at h
      dsimp only at h
      cases hcb : entry.cb with
      | none =>
        rw [hcb] at h
        exact ih hnot h
      | some cb =>
        rw [hcb] at h
        dsimp only at h
        split at h
        · obtain ⟨⟨rest, list'⟩, hrest, h⟩ := Option.bind_eq_some_iff.mp h
          cases h
          exact List.not_mem_cons_of_ne_of_not_mem hne (ih (hkeeps cb e cbEventList hnot) hrest)
        · exact ih hnot h

/-- **A handler is removed** with all its entries for the event, exactly if no two of them stand
next to each other. -/
theorem removes_iff [DecidableEq Cb] (cbEventList : List (WiFiEventCbList Cb)) (cb : Cb)
    (event : WiFiEvent) :
    Removes cbEventList cb event ↔ ¬ [⟨some cb, event⟩, ⟨some cb, event⟩] <:+: cbEventList := by
  rw [← List.keptByWalk_eq_filter_iff]
  constructor
  · rintro ⟨left, hleft, hfilter, -⟩
    rw [removeEvent_eq] at hleft
    rw [Option.some.inj hleft, hfilter]
  · intro hkept
    refine ⟨_, removeEvent_eq cbEventList cb event, hkept,
      fun handler hkeeps e turns called list h => ?_⟩
    refine not_mem_called hkeeps ?_ h
    rw [hkept]
    simp

/-- A handler that was registered twice in a row is called once more for each event. -/
theorem not_removes_twice :
    ¬ ∀ (calls : List (Option ℕ × WiFiEvent)) (cb : ℕ) (event : WiFiEvent),
    Removes (registered calls) cb event := by
  intro h
  exact (removes_iff _ _ _).mp (h [(some 0, .max), (some 0, .max)] 0 .max) ⟨[], [], rfl⟩

end WiFiGeneric
