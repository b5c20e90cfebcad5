import Esp31b.ByteMem
import Esp31b.Machine

/-!
# The EEPROM emulation

One flash sector stands in for an EEPROM. `begin(n)` reads its first bytes
into RAM, reads and writes go to the image in RAM, and `commit` erases the
sector and writes the image back. A flag says whether the image was changed,
and `commit` does nothing when it was not.

Erasing and writing are calls of the SDK, which can fail, and a failed call can
leave the sector in any state: `SdkCalls` is what they do this time, and
`SdkCalls.Documented` what is known of them. Through the pointer of
`getDataPtr` the image is changed directly; what is stored through it before
the next call belongs to the event.

Two things are said of every sequence of calls. The flag is honest
(`clean_of_run`): where it is down, the flash holds the image. And a commit
keeps what it was not told to change – but only as far as the image reaches
(`kept_of_run`), for the sector is erased as a whole and written back as far
as the size of the last `begin`.
-/

/-- **The SDK's `spi_flash_erase_sector` and `spi_flash_write`** on the sector,
the latter at its start: whether they succeed, and the bytes they leave. -/
structure SdkCalls where
  erase : ByteMem → Bool × ByteMem
  write : ByteMem → List UInt8 → Bool × ByteMem

namespace SdkCalls

/-- **What the SDK documents** of calls that succeed: an erased sector is all
ones, and what is written clears bits. -/
structure Documented (sdk : SdkCalls) : Prop where
  erase : ∀ f, (sdk.erase f).1 = true → (sdk.erase f).2 = fun _ => 0xff
  write : ∀ f d, (sdk.write f d).1 = true → (sdk.write f d).2 = f.combineAt (· &&& ·) 0 d

/-- Both succeed, one after the other. -/
def Succeed (sdk : SdkCalls) (flash : ByteMem) (d : List UInt8) : Prop :=
  (sdk.erase flash).1 = true ∧ (sdk.write (sdk.erase flash).2 d).1 = true

instance (sdk : SdkCalls) (flash : ByteMem) (d : List UInt8) :
    Decidable (sdk.Succeed flash d) :=
  inferInstanceAs (Decidable (_ ∧ _))

end SdkCalls

/-- The bytes of an object that is put into the EEPROM. -/
structure EepromObject where
  bytes : List UInt8
  small : bytes.length < 2 ^ 31

/-- **The EEPROM and its sector**: `_data`, `_size`, `_dirty`, and the bytes
of the sector. `stores` are the addresses that were stored to since the image
was last read from the flash or written to it. -/
structure EEPROMClass where
  data : Option (List UInt8)
  size : ℕ
  dirty : Bool
  flash : ByteMem
  stores : List ℕ

/-- The calls. -/
inductive EepromEvent where
  | begin (size : UInt32)
  | end (sdk : SdkCalls)
  | read (address : Int32)
  | write (address : Int32) (value : UInt8)
  | get (address : Int32) (size : ℕ)
  | put (address : Int32) (t : EepromObject)
  /-- The pointer is asked for, and these bytes are stored through it. -/
  | getDataPtr (through : List (ℕ × UInt8))
  | commit (sdk : SdkCalls)

/-- The calls of the SDK in it do as documented. -/
def EepromEvent.Documented : EepromEvent → Prop
  | .commit sdk | .end sdk => sdk.Documented
  | _ => True

namespace EEPROMClass

/-- `SPI_FLASH_SEC_SIZE`. -/
def secSize : ℕ := 4096

/-- `begin`. The size is cut to the sector and rounded up to words. -/
def begin (s : EEPROMClass) (size : UInt32) : EEPROMClass :=
  if size = 0 then s
  else
    let size := if size.toNat > secSize then secSize else size.toNat
    let size := (size + 3) / 4 * 4
    { s with data := some (s.flash.slice 0 size), size := size, stores := [] }

/-- `read`. -/
def read (s : EEPROMClass) (address : Int32) : UInt8 :=
  if address.toInt < 0 ∨ address.toInt ≥ s.size then 0
  else
    match s.data with
    | none => 0
    | some d => d.getD address.toInt.toNat 0

/-- `write`. -/
def write (s : EEPROMClass) (address : Int32) (value : UInt8) : EEPROMClass :=
  if address.toInt < 0 ∨ address.toInt ≥ s.size then s
  else
    match s.data with
    | none => s
    | some d =>
      { s with
        data := some (d.set address.toInt.toNat value)
        dirty := true
        stores := address.toInt.toNat :: s.stores }

/-- `put`. The sum of the test is a 32-bit one. -/
def put (s : EEPROMClass) (address : Int32) (t : EepromObject) : EEPROMClass :=
  if address.toInt < 0 ∨ (address.toInt.toNat + t.bytes.length) % 2 ^ 32 > s.size then s
  else
    { s with
      data := s.data.map (fun d => d.overlay address.toInt.toNat t.bytes)
      dirty := true
      stores := List.range' address.toInt.toNat t.bytes.length ++ s.stores }

/-- `get`: the bytes that are copied into the object, if any are. -/
def get (s : EEPROMClass) (address : Int32) (size : ℕ) : Option (List UInt8) :=
  if address.toInt < 0 ∨ (address.toInt.toNat + size) % 2 ^ 32 > s.size then none
  else s.data.map (fun d => (d.drop address.toInt.toNat).take size)

/-- `getDataPtr`, and the stores through the pointer. -/
def getDataPtr (s : EEPROMClass) (through : List (ℕ × UInt8)) : EEPROMClass :=
  { s with
    data := s.data.map (fun d => through.foldl (fun d w => d.set w.1 w.2) d)
    dirty := true
    stores := through.map Prod.fst ++ s.stores }

/-- `commit`. -/
def commit (s : EEPROMClass) (sdk : SdkCalls) : Bool × EEPROMClass :=
  if s.size = 0 then (false, s)
  else if !s.dirty then (true, s)
  else
    match s.data with
    | none => (false, s)
    | some d =>
      match sdk.erase s.flash with
      | (false, flash) => (false, { s with flash := flash })
      | (true, flash) =>
        match sdk.write flash d with
        | (false, flash) => (false, { s with flash := flash })
        | (true, flash) => (true, { s with flash := flash, dirty := false, stores := [] })

/-- `end`. -/
def endSession (s : EEPROMClass) (sdk : SdkCalls) : EEPROMClass :=
  if s.size = 0 then s
  else { (s.commit sdk).2 with data := none, size := 0, stores := [] }

/-- One call. -/
def step (s : EEPROMClass) : EepromEvent → Option EEPROMClass
  | .begin size => some (s.begin size)
  | .end sdk => some (s.endSession sdk)
  | .read _ => some s
  | .write address value => some (s.write address value)
  | .get _ _ => some s
  | .put address t => some (s.put address t)
  | .getDataPtr through => some (s.getDataPtr through)
  | .commit sdk => some (s.commit sdk).2

/-- The EEPROM before any call, over a sector with any contents. -/
def init (flash : ByteMem) : EEPROMClass := ⟨none, 0, false, flash, []⟩

/-- The EEPROM as a machine. -/
def machine : Machine EEPROMClass EepromEvent := ⟨step⟩

/-! ## The flag -/

/-- **The flash holds the image.** -/
def Stored (s : EEPROMClass) : Prop := s.data = some (s.flash.slice 0 s.size)

/-- What every call keeps: the image has the length it should have, and where
the flag is down the flash holds it. -/
structure Inv (s : EEPROMClass) : Prop where
  image : 0 < s.size → ∃ d, s.data = some d ∧ d.length = s.size
  clean : 0 < s.size → s.dirty = false → s.Stored

variable {s : EEPROMClass}

/-- What is written to an erased sector is there. -/
theorem written_apply (d : List UInt8) {a : ℕ} (ha : a < d.length) :
    ByteMem.combineAt (· &&& ·) (fun _ => 0xff) 0 d a = d[a] := by
  have h := ByteMem.combineAt_of_mem (· &&& ·) (fun _ => 0xff) 0 d a ha
  rw [Nat.zero_add] at h
  rw [h, UInt8.and_comm]
  exact UInt8.and_neg_one

theorem written_slice (d : List UInt8) :
    (ByteMem.combineAt (· &&& ·) (fun _ => 0xff) 0 d).slice 0 d.length = d := by
  refine List.ext_getElem (ByteMem.length_slice _ _ _) (fun a ha ha' => ?_)
  rw [ByteMem.getElem_slice, Nat.zero_add, written_apply d ha']

/-- **How a commit ends**: nothing to do, a failure that leaves the flag up, or
the image in an erased sector. -/
theorem commit_cases (s : EEPROMClass) {sdk : SdkCalls} (hsdk : sdk.Documented) :
    (∃ flash, s.commit sdk = (false, { s with flash := flash }) ∧
      (s.size = 0 ∨ s.dirty = true)) ∨
    (s.commit sdk = (true, s) ∧ 0 < s.size ∧ s.dirty = false) ∨
    (∃ d, s.data = some d ∧ 0 < s.size ∧ s.dirty = true ∧
      s.commit sdk = (true, { s with
        flash := ByteMem.combineAt (· &&& ·) (fun _ => 0xff) 0 d
        dirty := false
        stores := [] })) := by
  obtain ⟨data, size, dirty, flash, stores⟩ := s
  unfold commit
  by_cases hsize : size = 0
  · exact Or.inl ⟨flash, if_pos hsize, Or.inl hsize⟩
  rw [if_neg hsize]
  cases dirty with
  | false => exact Or.inr (Or.inl ⟨rfl, Nat.pos_of_ne_zero hsize, rfl⟩)
  | true =>
    rw [if_neg (by simp)]
    cases data with
    | none => exact Or.inl ⟨flash, rfl, Or.inr rfl⟩
    | some d =>
      dsimp only
      -- the two flash operations, in the order of the code
      have herased := hsdk.erase flash
      generalize sdk.erase flash = r at herased
      obtain ⟨ok, erased⟩ := r
      cases ok with
      | false => exact Or.inl ⟨erased, rfl, Or.inr rfl⟩
      | true =>
        dsimp only
        obtain rfl : erased = fun _ => 0xff := herased rfl
        have hwritten := hsdk.write (fun _ => 0xff) d
        generalize sdk.write (fun _ => 0xff) d = r at hwritten
        obtain ⟨ok, written⟩ := r
        cases ok with
        | false => exact Or.inl ⟨written, rfl, Or.inr rfl⟩
        | true =>
          obtain rfl := hwritten rfl
          exact Or.inr (Or.inr ⟨d, rfl, Nat.pos_of_ne_zero hsize, rfl, rfl⟩)

/-- **A commit keeps the flag honest**, and with success the flash holds the
image. -/
theorem Inv.commit (h : s.Inv) {sdk : SdkCalls} (hsdk : sdk.Documented) :
    (s.commit sdk).2.Inv ∧ ((s.commit sdk).1 = true → (s.commit sdk).2.Stored) := by
  rcases s.commit_cases hsdk with ⟨flash, heq, hwhy⟩ | ⟨heq, hsize, hdirty⟩ |
    ⟨d, hdata, hsize, -, heq⟩ <;> rw [heq]
  · refine ⟨⟨h.image, fun hsize hdirty => ?_⟩, fun hfalse => absurd hfalse Bool.false_ne_true⟩
    rcases hwhy with hzero | hup
    · exact absurd hzero (Nat.pos_iff_ne_zero.mp hsize)
    · exact absurd (hup.symm.trans hdirty) (by decide)
  · exact ⟨h, fun _ => h.clean hsize hdirty⟩
  · obtain ⟨d', hd', hlen⟩ := h.image hsize
    obtain rfl : d = d' := Option.some.inj (hdata.symm.trans hd')
    have hstored : Stored { s with
        flash := ByteMem.combineAt (· &&& ·) (fun _ => 0xff) 0 d
        dirty := false
        stores := [] } := by
      rw [Stored]
      dsimp only
      rw [hdata, ← hlen, written_slice]
    exact ⟨⟨h.image, fun _ _ => hstored⟩, fun _ => hstored⟩

theorem Inv.begin (h : s.Inv) (size : UInt32) : (s.begin size).Inv := by
  unfold EEPROMClass.begin
  split
  · exact h
  · exact ⟨fun _ => ⟨_, rfl, ByteMem.length_slice _ _ _⟩, fun _ _ => rfl⟩

theorem Inv.write (h : s.Inv) (address : Int32) (value : UInt8) :
    (s.write address value).Inv := by
  unfold EEPROMClass.write
  split
  · exact h
  · split
    · exact h
    · rename_i d hd
      refine ⟨fun hsize => ⟨_, rfl, ?_⟩, fun _ hdown => absurd hdown.symm Bool.false_ne_true⟩
      obtain ⟨d', hd', hlen⟩ := h.image hsize
      rw [List.length_set, ← hlen, Option.some.inj (hd.symm.trans hd')]

/-- An object that passes the test fits. -/
theorem put_fits {address : Int32} {t : EepromObject} {n : ℕ}
    (h : ¬ (address.toInt < 0 ∨ (address.toInt.toNat + t.bytes.length) % 2 ^ 32 > n)) :
    address.toInt.toNat + t.bytes.length ≤ n := by
  have hlt := address.toInt_lt
  have hsmall := t.small
  rw [not_or, Nat.mod_eq_of_lt (by omega)] at h
  omega

theorem Inv.put (h : s.Inv) (address : Int32) (t : EepromObject) : (s.put address t).Inv := by
  unfold EEPROMClass.put
  split
  · exact h
  · rename_i hfits
    refine ⟨fun hsize => ?_, fun _ hdown => absurd hdown.symm Bool.false_ne_true⟩
    obtain ⟨d, hd, hlen⟩ := h.image hsize
    refine ⟨d.overlay address.toInt.toNat t.bytes, by rw [hd]; rfl, ?_⟩
    exact (List.length_overlay (by rw [hlen]; exact put_fits hfits)).trans hlen

theorem length_through (through : List (ℕ × UInt8)) (d : List UInt8) :
    (through.foldl (fun d w => d.set w.1 w.2) d).length = d.length := by
  induction through generalizing d with
  | nil => rfl
  | cons w through ih => exact (ih _).trans List.length_set

theorem Inv.getDataPtr (h : s.Inv) (through : List (ℕ × UInt8)) :
    (s.getDataPtr through).Inv := by
  refine ⟨fun hsize => ?_, fun _ hdown => absurd hdown.symm Bool.false_ne_true⟩
  obtain ⟨d, hd, hlen⟩ := h.image hsize
  refine ⟨through.foldl (fun d w => d.set w.1 w.2) d, ?_, (length_through through d).trans hlen⟩
  show s.data.map _ = _
  rw [hd]
  rfl

theorem Inv.endSession (h : s.Inv) (sdk : SdkCalls) : (s.endSession sdk).Inv := by
  unfold EEPROMClass.endSession
  split
  · exact h
  · exact ⟨fun hsize => absurd hsize (Nat.lt_irrefl 0), fun hsize =>
      absurd hsize (Nat.lt_irrefl 0)⟩

/-- **Every call keeps the flag honest.** -/
theorem Inv.step {t : EEPROMClass} {e : EepromEvent} (h : s.Inv) (hsdk : e.Documented)
    (hstep : s.step e = some t) : t.Inv := by
  cases e with
  | begin size => exact Option.some.inj hstep ▸ h.begin size
  | «end» sdk => exact Option.some.inj hstep ▸ h.endSession sdk
  | read address => exact Option.some.inj hstep ▸ h
  | write address value => exact Option.some.inj hstep ▸ h.write address value
  | get address size => exact Option.some.inj hstep ▸ h
  | put address t => exact Option.some.inj hstep ▸ h.put address t
  | getDataPtr through => exact Option.some.inj hstep ▸ h.getDataPtr through
  | commit sdk => exact Option.some.inj hstep ▸ (h.commit hsdk).1

theorem inv_init (flash : ByteMem) : (init flash).Inv :=
  ⟨fun hsize => absurd hsize (Nat.lt_irrefl 0), fun hsize => absurd hsize (Nat.lt_irrefl 0)⟩

theorem inv_of_run {flash : ByteMem} {es : List EepromEvent} (hsdk : ∀ e ∈ es, e.Documented)
    (hrun : machine.run (init flash) es = some s) : s.Inv :=
  Machine.invariant_of_along (I := Inv) (P := fun _ e => e.Documented)
    (fun _ _ _ h hdoc hstep => h.step hdoc hstep) (inv_init flash)
    (Machine.along_of_forall hsdk) hrun

/-- **The flag is honest after every sequence of calls**, however the flash
operations end: where it is down the flash holds the image, and a commit that
returns true leaves the flash holding the image. -/
theorem clean_of_run (flash : ByteMem) (es : List EepromEvent) (s : EEPROMClass)
    (hsdk : ∀ e ∈ es, e.Documented) (hrun : machine.run (init flash) es = some s) :
    (0 < s.size → s.dirty = false → s.Stored) ∧
      ∀ sdk : SdkCalls, sdk.Documented → (s.commit sdk).1 = true → (s.commit sdk).2.Stored := by
  have hinv := inv_of_run hsdk hrun
  exact ⟨hinv.clean, fun sdk hsdk => (hinv.commit hsdk).2⟩

/-- Calls that succeed. -/
def succeeding : SdkCalls :=
  ⟨fun _ => (true, fun _ => 0xff), fun f d => (true, f.combineAt (· &&& ·) 0 d)⟩

theorem documented_succeeding : succeeding.Documented := ⟨fun _ _ => rfl, fun _ _ _ => rfl⟩

/-- The sector is erased, and then left in disorder. -/
def failingWrite : SdkCalls := ⟨fun _ => (true, fun _ => 0xff), fun _ _ => (false, fun _ => 0)⟩

theorem documented_failingWrite : failingWrite.Documented :=
  ⟨fun _ _ => rfl, fun _ _ h => absurd h Bool.false_ne_true⟩

/-- A byte is written, the first commit fails behind the erasing, the second
one succeeds. -/
def failedOnce : List EepromEvent :=
  [.begin 8, .write 0 5, .commit failingWrite, .commit succeeding]

theorem clean_of_failedOnce :
    ∃ s, machine.run (init (fun _ => 0xff)) failedOnce = some s ∧ 0 < s.size ∧ s.dirty = false ∧
      s.Stored := by
  have hsdk : ∀ e ∈ failedOnce, e.Documented := by
    simp [failedOnce, EepromEvent.Documented, documented_failingWrite, documented_succeeding]
  exact ⟨_, rfl, by decide, rfl,
    (clean_of_run (fun _ => 0xff) failedOnce _ hsdk rfl).1 (by decide) rfl⟩

/-! ## What a commit keeps -/

/-- The call erases the sector. -/
def Erases (s : EEPROMClass) : EepromEvent → Prop
  | .commit _ | .end _ => 0 < s.size ∧ s.dirty = true
  | _ => False

/-- The flash operations of the call succeed. -/
def Succeeds (s : EEPROMClass) : EepromEvent → Prop
  | .commit sdk | .end sdk => ∀ d ∈ s.data, sdk.Succeed s.flash d
  | _ => True

/-- **The byte is left alone**: all flash operations succeed, and no call
commits a store to it. -/
def LeavesAlone (a : ℕ) (s : EEPROMClass) (e : EepromEvent) : Prop :=
  s.Succeeds e ∧ (s.Erases e → a ∉ s.stores)

/-- **The image reaches the byte** whenever the sector is erased. -/
def Reaches (a : ℕ) (s : EEPROMClass) (e : EepromEvent) : Prop := s.Erases e → a < s.size

instance (s : EEPROMClass) : DecidablePred s.Erases
  | .commit _ | .end _ => inferInstanceAs (Decidable (_ ∧ _))
  | .begin _ | .read _ | .write _ _ | .get _ _ | .put _ _ | .getDataPtr _ =>
    inferInstanceAs (Decidable False)

instance (s : EEPROMClass) : DecidablePred s.Succeeds
  | .commit sdk | .end sdk => inferInstanceAs (Decidable (∀ d ∈ s.data, sdk.Succeed s.flash d))
  | .begin _ | .read _ | .write _ _ | .get _ _ | .put _ _ | .getDataPtr _ =>
    inferInstanceAs (Decidable True)

instance (a : ℕ) (s : EEPROMClass) (e : EepromEvent) : Decidable (LeavesAlone a s e) :=
  inferInstanceAs (Decidable (_ ∧ (_ → _)))

instance (a : ℕ) (s : EEPROMClass) (e : EepromEvent) : Decidable (Reaches a s e) :=
  inferInstanceAs (Decidable (_ → _))

/-- The byte has the value in the flash, and in the image too unless it was
stored to. -/
structure Kept (a : ℕ) (v : UInt8) (s : EEPROMClass) : Prop where
  inv : s.Inv
  flash : s.flash a = v
  image : ∀ d, s.data = some d → a < s.size → a ∉ s.stores → d[a]? = some v

variable {a : ℕ} {v : UInt8}

/-- A commit whose flash operations succeed does nothing, or leaves the image
in an erased sector. -/
theorem commit_done (h : s.Inv) {sdk : SdkCalls} (hsdk : sdk.Documented)
    (hok : ∀ d ∈ s.data, sdk.Succeed s.flash d) :
    ((s.commit sdk).2 = s ∧ ¬ (0 < s.size ∧ s.dirty = true)) ∨
    ∃ d, s.data = some d ∧ d.length = s.size ∧ (0 < s.size ∧ s.dirty = true) ∧
      (s.commit sdk).2 = { s with
        flash := ByteMem.combineAt (· &&& ·) (fun _ => 0xff) 0 d
        dirty := false
        stores := [] } := by
  by_cases herase : 0 < s.size ∧ s.dirty = true
  · obtain ⟨d, hdata, hlen⟩ := h.image herase.1
    refine Or.inr ⟨d, hdata, hlen, herase, ?_⟩
    obtain ⟨hdone, hdone'⟩ := hok d hdata
    have herased := hsdk.erase s.flash hdone
    have hwritten := hsdk.write _ d hdone'
    rw [herased] at hwritten hdone'
    have hfirst : sdk.erase s.flash = (true, fun _ => 0xff) := Prod.ext hdone herased
    have hsecond : sdk.write (fun _ => 0xff) d =
        (true, ByteMem.combineAt (· &&& ·) (fun _ => 0xff) 0 d) := Prod.ext hdone' hwritten
    rw [commit, if_neg (Nat.pos_iff_ne_zero.mp herase.1), herase.2, if_neg (by simp), hdata]
    dsimp only
    rw [hfirst]
    dsimp only
    rw [hsecond]
  · refine Or.inl ⟨?_, herase⟩
    unfold commit
    by_cases hsize : s.size = 0
    · rw [if_pos hsize]
    · rw [if_neg hsize, if_pos]
      rw [Bool.not_eq_true']
      exact Bool.eq_false_iff.mpr (fun hup => herase ⟨Nat.pos_of_ne_zero hsize, hup⟩)

/-- **A commit keeps a byte that its image reaches** and that was not stored
to. -/
theorem Kept.commit (h : s.Kept a v) {sdk : SdkCalls} (hsdk : sdk.Documented)
    (hok : ∀ d ∈ s.data, sdk.Succeed s.flash d)
    (halone : 0 < s.size ∧ s.dirty = true → a ∉ s.stores ∧ a < s.size) :
    (s.commit sdk).2.Kept a v := by
  have hinv := (h.inv.commit hsdk).1
  rcases commit_done h.inv hsdk hok with ⟨heq, -⟩ | ⟨d, hdata, hlen, herase, heq⟩
  · rw [heq]
    exact h
  · obtain ⟨hstores, ha⟩ := halone herase
    have hbyte := h.image d hdata ha hstores
    rw [heq] at hinv ⊢
    refine ⟨hinv, ?_, fun d' hd' _ _ => ?_⟩
    · rw [← hlen] at ha
      rw [List.getElem?_eq_getElem ha, Option.some.injEq] at hbyte
      exact (written_apply d ha).trans hbyte
    · rwa [← Option.some.inj (hdata.symm.trans hd')]

theorem Kept.begin (h : s.Kept a v) (size : UInt32) : (s.begin size).Kept a v := by
  refine ⟨h.inv.begin size, ?_, ?_⟩
  · unfold EEPROMClass.begin
    split <;> exact h.flash
  · unfold EEPROMClass.begin
    split
    · exact h.image
    · intro d hd ha _
      dsimp only at hd ha
      rw [← Option.some.inj hd, List.getElem?_eq_getElem (by rwa [ByteMem.length_slice]),
        ByteMem.getElem_slice, Nat.zero_add, h.flash]

theorem Kept.write (h : s.Kept a v) (address : Int32) (value : UInt8) :
    (s.write address value).Kept a v := by
  refine ⟨h.inv.write address value, ?_, ?_⟩
  · unfold EEPROMClass.write
    split
    · exact h.flash
    · split <;> exact h.flash
  · unfold EEPROMClass.write
    split
    · exact h.image
    · split
      · exact h.image
      · rename_i d hd
        intro d' hd' ha hstores
        dsimp only at hd' ha hstores
        rw [List.mem_cons, not_or] at hstores
        rw [← Option.some.inj hd', List.getElem?_set_ne (Ne.symm hstores.1)]
        exact h.image d hd ha hstores.2

theorem Kept.put (h : s.Kept a v) (address : Int32) (t : EepromObject) :
    (s.put address t).Kept a v := by
  refine ⟨h.inv.put address t, ?_, ?_⟩
  · unfold EEPROMClass.put
    split <;> exact h.flash
  · unfold EEPROMClass.put
    split
    · exact h.image
    · rename_i hfits
      intro d hd ha hstores
      dsimp only at hd ha hstores
      rw [List.mem_append, not_or, List.mem_range'_1] at hstores
      obtain ⟨d', hd', hlen⟩ := h.inv.image (by omega)
      rw [hd', Option.map_some, Option.some.injEq] at hd
      rw [← hd, List.getElem?_overlay (by rw [hlen]; exact put_fits hfits) (by omega)]
      exact h.image d' hd' ha hstores.2

theorem getElem?_through {through : List (ℕ × UInt8)} (h : a ∉ through.map Prod.fst)
    (d : List UInt8) :
    (through.foldl (fun d w => d.set w.1 w.2) d)[a]? = d[a]? := by
  induction through generalizing d with
  | nil => rfl
  | cons w through ih =>
    rw [List.map_cons, List.mem_cons, not_or] at h
    rw [List.foldl_cons, ih h.2, List.getElem?_set_ne (Ne.symm h.1)]

theorem Kept.getDataPtr (h : s.Kept a v) (through : List (ℕ × UInt8)) :
    (s.getDataPtr through).Kept a v := by
  refine ⟨h.inv.getDataPtr through, h.flash, fun d hd ha hstores => ?_⟩
  obtain ⟨d', hd', rfl⟩ := Option.map_eq_some_iff.mp hd
  rw [EEPROMClass.getDataPtr, List.mem_append, not_or] at hstores
  rw [getElem?_through hstores.1]
  exact h.image d' hd' ha hstores.2

theorem Kept.endSession (h : s.Kept a v) {sdk : SdkCalls} (hsdk : sdk.Documented)
    (hok : ∀ d ∈ s.data, sdk.Succeed s.flash d)
    (halone : 0 < s.size ∧ s.dirty = true → a ∉ s.stores ∧ a < s.size) :
    (s.endSession sdk).Kept a v := by
  refine ⟨h.inv.endSession sdk, ?_, ?_⟩
  · unfold EEPROMClass.endSession
    split
    · exact h.flash
    · exact (h.commit hsdk hok halone).flash
  · unfold EEPROMClass.endSession
    split
    · exact h.image
    · intro d hd
      cases hd

/-- **Every call that leaves the byte alone and reaches it keeps it.** -/
theorem Kept.step {t : EEPROMClass} {e : EepromEvent} (h : s.Kept a v)
    (hP : (LeavesAlone a s e ∧ Reaches a s e) ∧ e.Documented) (hstep : s.step e = some t) :
    t.Kept a v := by
  obtain ⟨⟨⟨hdone, hstores⟩, hreach⟩, hsdk⟩ := hP
  cases e with
  | begin size => exact Option.some.inj hstep ▸ h.begin size
  | «end» sdk =>
    exact Option.some.inj hstep ▸ h.endSession hsdk hdone (fun he => ⟨hstores he, hreach he⟩)
  | read address => exact Option.some.inj hstep ▸ h
  | write address value => exact Option.some.inj hstep ▸ h.write address value
  | get address size => exact Option.some.inj hstep ▸ h
  | put address t => exact Option.some.inj hstep ▸ h.put address t
  | getDataPtr through => exact Option.some.inj hstep ▸ h.getDataPtr through
  | commit sdk =>
    exact Option.some.inj hstep ▸ h.commit hsdk hdone (fun he => ⟨hstores he, hreach he⟩)

/-- What is in the image of a stored state is in the flash. -/
theorem kept_of_stored (h : s.Inv) (hstored : s.Stored) : s.Kept a (s.flash a) := by
  refine ⟨h, rfl, fun d hd ha _ => ?_⟩
  rw [Stored, hd, Option.some.injEq] at hstored
  rw [hstored, List.getElem?_eq_getElem (by rwa [ByteMem.length_slice]), ByteMem.getElem_slice,
    Nat.zero_add]

/-- A commit leaves the image as it is. -/
theorem commit_image (s : EEPROMClass) {sdk : SdkCalls} (hsdk : sdk.Documented) :
    (s.commit sdk).2.data = s.data ∧ (s.commit sdk).2.size = s.size := by
  rcases s.commit_cases hsdk with ⟨flash, heq, -⟩ | ⟨heq, -, -⟩ | ⟨d, -, -, -, heq⟩
    <;> rw [heq] <;>
    exact ⟨rfl, rfl⟩

/-- A byte inside the image is read from it. -/
theorem read_of_lt {address : Int32} {d : List UInt8} (hdata : s.data = some d)
    (hpos : 0 ≤ address.toInt) (ha : address.toInt.toNat < s.size) :
    s.read address = d.getD address.toInt.toNat 0 := by
  rw [read, if_neg (by omega), hdata]

/-- The sizes `begin` works with: not less than what was asked for, up to the
sector. -/
theorem lt_begin_size (size : UInt32) (ha : a < size.toNat) (hsec : a < secSize) :
    ∃ d, (s.begin size).data = some d ∧ a < (s.begin size).size ∧
      (s.begin size).stores = [] := by
  have hne : size ≠ 0 := by
    rintro rfl
    exact absurd ha (Nat.not_lt_zero a)
  unfold EEPROMClass.begin
  rw [if_neg hne]
  refine ⟨_, rfl, ?_, rfl⟩
  dsimp only
  split <;> omega

/-- **A byte that was committed is kept** by every sequence of calls that
succeed in the flash, commit no store to it, and erase the sector only with an
image that reaches it: it is read again after any later `begin` that reaches
it. -/
theorem kept_of_run (flash : ByteMem) (before es : List EepromEvent) (s t : EEPROMClass)
    (sdk : SdkCalls) (address : Int32) (v : UInt8) (size : UInt32)
    (hsdk : sdk.Documented ∧ ∀ e ∈ before ++ es, e.Documented)
    (hbefore : machine.run (init flash) before = some s)
    (hcommit : (s.commit sdk).1 = true)
    (haddress : 0 ≤ address.toInt ∧ address.toInt < s.size) (hread : s.read address = v)
    (hrun : machine.run (s.commit sdk).2 es = some t)
    (halone : machine.Along (LeavesAlone address.toInt.toNat) (s.commit sdk).2 es)
    (hreach : machine.Along (Reaches address.toInt.toNat) (s.commit sdk).2 es)
    (hsec : address.toInt < secSize) (hsize : address.toInt < size.toNat) :
    (t.begin size).read address = v := by
  obtain ⟨hpos, hlt⟩ := haddress
  obtain ⟨hsdk, hall⟩ := hsdk
  have hinv := inv_of_run (fun e he => hall e (List.mem_append_left _ he)) hbefore
  have hafter : machine.Along (fun _ e => e.Documented) (s.commit sdk).2 es :=
    Machine.along_of_forall fun e he => hall e (List.mem_append_right _ he)
  obtain ⟨hinv', hstored⟩ := hinv.commit hsdk
  obtain ⟨hdata, hsz⟩ := s.commit_image hsdk
  -- the committed value is the one in the flash
  have hflash : (s.commit sdk).2.flash address.toInt.toNat = v := by
    have himage : s.data = some ((s.commit sdk).2.flash.slice 0 s.size) := by
      rw [← hdata, ← hsz]
      exact hstored hcommit
    rw [← hread, read_of_lt himage hpos (by omega),
      List.getD_eq_getElem?_getD,
      List.getElem?_eq_getElem (by rw [ByteMem.length_slice]; omega),
      ByteMem.getElem_slice, Nat.zero_add]
    rfl
  have hkept : (s.commit sdk).2.Kept address.toInt.toNat v :=
    hflash ▸ kept_of_stored hinv' (hstored hcommit)
  have hbegin := (Machine.invariant_of_along (I := Kept address.toInt.toNat v)
    (fun _ _ _ h hP hstep => h.step hP hstep) hkept
    ((halone.and hreach).and hafter) hrun).begin size
  obtain ⟨d, hd, ha, hnone⟩ := lt_begin_size (s := t) (a := address.toInt.toNat) size (by omega)
    (by omega)
  have hbyte := hbegin.image d hd ha (by simp [hnone])
  rw [read_of_lt hd hpos ha, List.getD_eq_getElem?_getD, hbyte]
  rfl

/-- A byte is written to address 10 of 16. -/
def firstSession : List EepromEvent := [.begin 16, .write 10 7]

/-- Later another byte is, with an image that reaches address 10 too. -/
def largeSession : List EepromEvent :=
  [.end succeeding, .begin 12, .write 0 1, .end succeeding]

theorem kept_of_largeSession :
    ∃ s t, machine.run (init (fun _ => 0xff)) firstSession = some s ∧ s.read 10 = 7 ∧
      machine.run (s.commit succeeding).2 largeSession = some t ∧ (t.begin 16).read 10 = 7 := by
  have hsdk : ∀ e ∈ firstSession ++ largeSession, e.Documented := by
    simp [firstSession, largeSession, EepromEvent.Documented, documented_succeeding]
  refine ⟨_, _, rfl, by decide, rfl, ?_⟩
  exact kept_of_run (fun _ => 0xff) firstSession largeSession _ _ succeeding 10 7 16
    ⟨documented_succeeding, hsdk⟩ rfl (by decide) (by decide) (by decide) rfl (by decide)
    (by decide) (by decide) (by decide)

/-- Or with one that does not. -/
def smallSession : List EepromEvent :=
  [.end succeeding, .begin 4, .write 0 1, .end succeeding]

/-- **A commit of four bytes loses the others**: nothing was stored to address
10 in between, and it does not read as 7 any more. -/
theorem not_kept_of_smallSession :
    ∃ s t, machine.run (init (fun _ => 0xff)) firstSession = some s ∧
      (s.commit succeeding).1 = true ∧ s.read 10 = 7 ∧
      machine.run (s.commit succeeding).2 smallSession = some t ∧
      machine.Along (LeavesAlone 10) (s.commit succeeding).2 smallSession ∧
      (t.begin 16).read 10 = 0xff := by
  exact ⟨_, _, rfl, by decide, by decide, rfl, by decide, by decide⟩

end EEPROMClass
