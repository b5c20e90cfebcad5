import Esp31b.Machine

/-!
# Files and descriptors

A `File` is a shared pointer to the object that holds a SPIFFS descriptor.
Descriptors are numbers of slots, and a free slot is given to the next file
that is opened. `File::close` releases the descriptor and forgets the object,
but other copies of the `File` still share it, and its destructor closes the
same number once more when the last of them goes. By then the slot can belong
to another file.

Every release is recorded with the object that asked for it and the one whose
`open` had taken the slot; `SpiffsState.Own` says that the two are always the
same. `own_of_unshared_run` is the part of it that holds: as long as no file is opened
into the slot of an object that some `File` still shares. The run in
`closedTwice` is the other part.
-/

/-- **One release of a descriptor**: the object that closed, the object whose
`open` had taken the slot, whether it was an explicit `close()`, and how many
files shared the closing object at that time. -/
structure Release where
  object : ℕ
  owner : ℕ
  explicit : Bool
  users : ℕ
  deriving DecidableEq, Repr

/-- **The files of one SPIFFS**: the slots of `fd_space` with the object whose
`open` took each (`none` where `file_nbr` is 0), the `_fd` of each
`SPIFFSFileImpl` made so far, and the `_p` of each `File`. A `File` that was
destroyed stays in the list as an empty one. -/
structure SpiffsState where
  fds : List (Option ℕ)
  objects : List ℕ
  files : List (Option ℕ)
  releases : List Release
  deriving DecidableEq, Repr

/-- What can happen. The booleans say whether the write cache of a closed
descriptor could be flushed. -/
inductive FileEvent where
  /-- `File()`. -/
  | construct
  /-- `FS::open` into a new `File`; what it does beyond the descriptor succeeds
  or fails. -/
  | open (found : Bool)
  /-- A new `File` is made from another. -/
  | copy (j : ℕ)
  /-- `files[i] = files[j]`. -/
  | assign (i j : ℕ) (flushed : Bool)
  /-- `files[i].close()`. -/
  | close (i : ℕ) (flushed again : Bool)
  /-- `files[i]` is destroyed. -/
  | destroy (i : ℕ) (flushed : Bool)
  deriving DecidableEq, Repr

namespace SpiffsState

/-- `spiffs_fd_find_new`: the first free slot. The descriptor is one more. -/
def fdFindNew (s : SpiffsState) : Option ℕ := s.fds.findIdx? Option.isNone

/-- `SPIFFS_close(fd)`, on behalf of an object: a slot that is taken is freed
when the cache can be flushed, a free one is an error that nobody looks at. -/
def spiffsClose (s : SpiffsState) (object fd : ℕ) (explicit flushed : Bool) : SpiffsState :=
  match s.fds[fd - 1]? with
  | some (some owner) =>
    if flushed then
      { s with
        fds := s.fds.set (fd - 1) none
        releases := s.releases ++ [⟨object, owner, explicit, s.files.count (some object)⟩] }
    else s
  | _ => s

/-- `SPIFFSFileImpl::close`. A descriptor is at least 1, so `CHECKFD` passes. -/
def closeObject (s : SpiffsState) (object : ℕ) (explicit flushed : Bool) : SpiffsState :=
  match s.objects[object]? with
  | some fd => s.spiffsClose object fd explicit flushed
  | none => s

/-- An object that no file shares any more is destroyed, which closes it. -/
def dropObject (s : SpiffsState) (p : Option ℕ) (flushed : Bool) : SpiffsState :=
  match p with
  | none => s
  | some object => if some object ∈ s.files then s else s.closeObject object false flushed

/-- A `File` gets another pointer; the old one is dropped afterwards. -/
def setFile (s : SpiffsState) (i : ℕ) (old new : Option ℕ) (flushed : Bool) : SpiffsState :=
  { s with files := s.files.set i new }.dropObject old flushed

/-- `FS::open`, with the slot that was found. -/
def openFile (s : SpiffsState) (slot : ℕ) : SpiffsState :=
  { s with
    fds := s.fds.set slot (some s.objects.length)
    objects := s.objects ++ [slot + 1]
    files := s.files ++ [some s.objects.length] }

/-- `File::close`. -/
def close (s : SpiffsState) (i : ℕ) (p : Option ℕ) (flushed again : Bool) : SpiffsState :=
  match p with
  | none => s
  | some object => (s.closeObject object true flushed).setFile i p none again

/-- One event. -/
def step (s : SpiffsState) (e : FileEvent) : Option SpiffsState :=
  match e with
  | .construct => some { s with files := s.files ++ [none] }
  | .open found =>
    match s.fdFindNew with
    | none => some { s with files := s.files ++ [none] }
    | some slot => if found then some (s.openFile slot)
        else some { s with files := s.files ++ [none] }
  | .copy j => s.files[j]?.map (fun p => { s with files := s.files ++ [p] })
  | .assign i j flushed =>
    s.files[i]?.bind (fun old => s.files[j]?.map (fun new => s.setFile i old new flushed))
  | .close i flushed again => s.files[i]?.map (fun p => s.close i p flushed again)
  | .destroy i flushed => s.files[i]?.map (fun p => s.setFile i p none flushed)

/-- A mounted SPIFFS with this many slots and no file. -/
def init (fdCount : ℕ) : SpiffsState := ⟨List.replicate fdCount none, [], [], []⟩

/-- The files as a machine. -/
def machine : Machine SpiffsState FileEvent := ⟨step⟩

/-- **A descriptor is released by its own file only**: by an explicit `close`
or by the last use of the file that opened it. -/
def Own (s : SpiffsState) : Prop :=
  ∀ r ∈ s.releases, r.object = r.owner ∧ (r.explicit = true ∨ r.users = 0)

instance : DecidablePred Own := fun _ => inferInstanceAs (Decidable (∀ _ ∈ _, _ ∧ _))

/-- The descriptors of the objects that files share. -/
def sharedFds (s : SpiffsState) : List ℕ := s.files.filterMap (fun p => p.bind (s.objects[·]?))

/-- **No file is opened into a slot that is still referred to**: the number
`open` is given is not the number of an object that a `File` shares. -/
def Unshared (s : SpiffsState) : FileEvent → Prop
  | .open _ => ∀ slot ∈ s.fdFindNew, slot + 1 ∉ s.sharedFds
  | _ => True

instance (s : SpiffsState) : DecidablePred s.Unshared
  | .open _ => inferInstanceAs (Decidable (∀ slot ∈ s.fdFindNew, slot + 1 ∉ s.sharedFds))
  | .construct | .copy _ | .assign _ _ _ | .close _ _ _ | .destroy _ _ =>
    inferInstanceAs (Decidable True)

/-! ## One event -/

/-- **An object has its slot to itself**: the slot of its descriptor is free,
or its own `open` took it. -/
def HasSlot (s : SpiffsState) (object : ℕ) : Prop :=
  ∃ slot, s.objects[object]? = some (slot + 1) ∧
    (s.fds[slot]? = some none ∨ s.fds[slot]? = some (some object))

/-- What every run without a shared slot keeps. -/
structure Inv (s : SpiffsState) : Prop where
  slots : ∀ object, some object ∈ s.files → s.HasSlot object
  own : s.Own

variable {s : SpiffsState}

/-- **An object that has its slot to itself closes nothing else.** -/
theorem closeObject_spec {object : ℕ} (h : s.HasSlot object) (explicit flushed : Bool) :
    (s.closeObject object explicit flushed).files = s.files ∧
      (∀ o, s.HasSlot o → (s.closeObject object explicit flushed).HasSlot o) ∧
      (s.Own → explicit = true ∨ some object ∉ s.files →
        (s.closeObject object explicit flushed).Own) := by
  obtain ⟨slot, hfd, hslot⟩ := h
  rw [closeObject, hfd]
  dsimp only
  rw [spiffsClose, Nat.add_sub_cancel]
  rcases hslot with hfree | htaken
  · rw [hfree]
    exact ⟨rfl, fun _ ho => ho, fun hown _ => hown⟩
  · rw [htaken]
    dsimp only
    cases flushed with
    | false => exact ⟨rfl, fun _ ho => ho, fun hown _ => hown⟩
    | true =>
      rw [if_pos rfl]
      refine ⟨rfl, fun o ho => ?_, fun hown hwhy r hr => ?_⟩
      · obtain ⟨slot', hfd', hslot'⟩ := ho
        refine ⟨slot', hfd', ?_⟩
        dsimp only
        rw [List.getElem?_set]
        split
        · -- another object may hold the number of the slot that was just freed
          rename_i heq
          have hlt : slot < s.fds.length := (List.getElem?_eq_some_iff.mp htaken).1
          rw [if_pos (heq ▸ hlt)]
          exact Or.inl rfl
        · exact hslot'
      · rcases List.mem_append.mp hr with hr | hr
        · exact hown r hr
        · rw [List.mem_singleton.mp hr]
          refine ⟨rfl, hwhy.imp_right (fun hnot => ?_)⟩
          exact List.count_eq_zero_of_not_mem hnot

theorem Inv.dropObject (h : s.Inv) {p : Option ℕ} (hp : ∀ object ∈ p, s.HasSlot object)
    (flushed : Bool) : (s.dropObject p flushed).Inv := by
  unfold SpiffsState.dropObject
  cases p with
  | none => exact h
  | some object =>
    dsimp only
    split
    · exact h
    · rename_i hnot
      obtain ⟨hfiles, hslots, hown⟩ := closeObject_spec (hp object rfl) false flushed
      refine ⟨fun o ho => hslots o (h.slots o (hfiles ▸ ho)), hown h.own (Or.inr hnot)⟩

/-- The files may be any that shared something before. -/
theorem Inv.setFile (h : s.Inv) {i : ℕ} {old new : Option ℕ} (hold : old ∈ s.files)
    (hnew : new = none ∨ new ∈ s.files) (flushed : Bool) :
    (s.setFile i old new flushed).Inv := by
  have hinv : Inv { s with files := s.files.set i new } := by
    refine ⟨fun o ho => ?_, h.own⟩
    rcases List.mem_or_eq_of_mem_set ho with ho | rfl
    · exact h.slots o ho
    · rcases hnew with hnone | hmem
      · cases hnone
      · exact h.slots o hmem
  refine hinv.dropObject (fun o ho => ?_) flushed
  exact h.slots o (ho ▸ hold)

theorem Inv.append (h : s.Inv) {p : Option ℕ} (hp : p = none ∨ p ∈ s.files) :
    Inv { s with files := s.files ++ [p] } := by
  refine ⟨fun o ho => ?_, h.own⟩
  rcases List.mem_append.mp ho with ho | ho
  · exact h.slots o ho
  · rw [List.mem_singleton] at ho
    rcases hp with hnone | hmem
    · rw [hnone] at ho
      cases ho
    · exact h.slots o (ho ▸ hmem)

/-- **A file that is opened into a slot nobody refers to.** -/
theorem Inv.openFile (h : s.Inv) {slot : ℕ} (hfind : s.fdFindNew = some slot)
    (hfresh : slot + 1 ∉ s.sharedFds) : (s.openFile slot).Inv := by
  have hlt : slot < s.fds.length := (List.findIdx?_eq_some_iff_getElem.mp hfind).1
  refine ⟨fun o ho => ?_, h.own⟩
  rcases List.mem_append.mp ho with ho | ho
  · obtain ⟨slot', hfd, hslot⟩ := h.slots o ho
    have hne : slot ≠ slot' := by
      rintro rfl
      refine hfresh (List.mem_filterMap.mpr ⟨some o, ho, ?_⟩)
      rw [Option.bind_some, hfd]
    refine ⟨slot', ?_, ?_⟩
    · exact (List.getElem?_append_left (List.getElem?_eq_some_iff.mp hfd).1).trans hfd
    · dsimp only [SpiffsState.openFile]
      rwa [List.getElem?_set_ne hne]
  · obtain rfl : o = s.objects.length := by simpa using ho
    refine ⟨slot, by simp [SpiffsState.openFile], Or.inr ?_⟩
    exact List.getElem?_set_self hlt

theorem Inv.close (h : s.Inv) {i : ℕ} {p : Option ℕ} (hp : p ∈ s.files) (flushed again : Bool) :
    (s.close i p flushed again).Inv := by
  unfold SpiffsState.close
  cases p with
  | none => exact h
  | some object =>
    obtain ⟨hfiles, hslots, hown⟩ := closeObject_spec (h.slots object hp) true flushed
    have hinv : (s.closeObject object true flushed).Inv :=
      ⟨fun o ho => hslots o (h.slots o (hfiles ▸ ho)), hown h.own (Or.inl rfl)⟩
    exact hinv.setFile (hfiles.symm ▸ hp) (Or.inl rfl) again

/-- **Every event that opens no file into a shared slot** keeps the
invariant. -/
theorem Inv.step {t : SpiffsState} {e : FileEvent} (h : s.Inv) (hun : s.Unshared e)
    (hstep : s.step e = some t) : t.Inv := by
  cases e with
  | construct =>
    obtain rfl : _ = t := Option.some.inj hstep
    exact h.append (Or.inl rfl)
  | «open» found =>
    unfold SpiffsState.step at hstep
    cases hfind : s.fdFindNew with
    | none =>
      rw [hfind] at hstep
      obtain rfl : _ = t := Option.some.inj hstep
      exact h.append (Or.inl rfl)
    | some slot =>
      rw [hfind] at hstep
      cases found with
      | false =>
        obtain rfl : _ = t := Option.some.inj hstep
        exact h.append (Or.inl rfl)
      | true =>
        obtain rfl : _ = t := Option.some.inj hstep
        exact h.openFile hfind (hun slot hfind)
  | copy j =>
    obtain ⟨p, hp, rfl⟩ := Option.map_eq_some_iff.mp hstep
    exact h.append (Or.inr (List.mem_of_getElem? hp))
  | assign i j flushed =>
    obtain ⟨old, hold, hrest⟩ := Option.bind_eq_some_iff.mp hstep
    obtain ⟨new, hnew, rfl⟩ := Option.map_eq_some_iff.mp hrest
    exact h.setFile (List.mem_of_getElem? hold) (Or.inr (List.mem_of_getElem? hnew)) flushed
  | close i flushed again =>
    obtain ⟨p, hp, rfl⟩ := Option.map_eq_some_iff.mp hstep
    exact h.close (List.mem_of_getElem? hp) flushed again
  | destroy i flushed =>
    obtain ⟨p, hp, rfl⟩ := Option.map_eq_some_iff.mp hstep
    exact h.setFile (List.mem_of_getElem? hp) (Or.inl rfl) flushed

/-- **Every run that opens no file into a shared slot** – any opening,
copying, assigning, closing and destroying of files – releases descriptors
by their own files only. -/
theorem own_of_unshared_run (fdCount : ℕ) (es : List FileEvent) (s : SpiffsState)
    (hun : machine.Along Unshared (init fdCount) es)
    (hrun : machine.run (init fdCount) es = some s) :
    s.Own :=
  (Machine.invariant_of_along (I := Inv) (fun _ _ _ h hP hstep => h.step hP hstep)
    ⟨by simp [init], by simp [Own, init]⟩ hun hrun).own

/-- A file is opened, copied and closed, the copy goes, and another file is
opened into the slot and closed. -/
def closedOnce : List FileEvent :=
  [.open true, .copy 0, .close 0 true true, .destroy 1 true, .open true, .close 2 true true]

theorem own_of_closedOnce :
    machine.Along Unshared (init 5) closedOnce ∧
      (machine.run (init 5) closedOnce).map (fun s => s.releases.map Release.owner) = some
      [0, 1] ∧
      ∀ s, machine.run (init 5) closedOnce = some s → s.Own :=
  ⟨by decide, by decide, fun s hs => own_of_unshared_run 5 closedOnce s (by decide) hs⟩

/-- The copy goes after the other file was opened. -/
def closedTwice : List FileEvent :=
  [.open true, .copy 0, .close 0 true true, .open true, .destroy 1 true]

/-- **The copy of a closed file closes another file**: the descriptor that is
released last was taken by the second `open` and is released by the object of
the first. -/
theorem destroy_closes_other :
    ∃ s, machine.run (init 5) closedTwice = some s ∧
      s.releases.getLast? = some ⟨0, 1, false, 0⟩ ∧ ¬ s.Own :=
  ⟨_, rfl, by decide, by decide⟩

end SpiffsState
