import Esp31b.CString
import Esp31b.WiFiMulti

/-!
# The networks that were found

`_scanDone` copies the list of the SDK into an array, and keeps its length beside it. The
accessors are given an index of 8 bits, and go through `_getScanInfoByIndex`, which is the
only test of it.

The count and the array always agree. The test does not: it lets the length itself pass for
an index, so that the entry behind the array is read; and the length is returned in 8
bits with a sign. Every other index is right, whatever was scanned and deleted before
(`WiFiScan.stored_iff`).

What is at an address outside the array is not known, and an accessor that reads it has no
result. `BSSID` only computes an address.
-/

namespace WiFiMulti.AuthMode

/-- Its bytes, in an `enum` of 32 bits. -/
def bytes : AuthMode → List UInt8
  | .open => [0, 0, 0, 0]
  | .wep => [1, 0, 0, 0]
  | .wpaPsk => [2, 0, 0, 0]
  | .wpa2Psk => [3, 0, 0, 0]
  | .wpaWpa2Psk => [4, 0, 0, 0]
  | .other => [5, 0, 0, 0]

end WiFiMulti.AuthMode

namespace WiFiScan

/-- `bss_info`, with the bytes that are left free in front of `authmode`. -/
structure BssInfo where
  bssid : Vector UInt8 6
  ssid : Vector UInt8 32
  ssidLen : UInt8
  channel : UInt8
  chanWidth : UInt8
  rssi : Int8
  padding : Vector UInt8 2
  authmode : WiFiMulti.AuthMode
  isHidden : UInt8
  deriving DecidableEq, Repr

/-- What a pointer to `ssid` finds in the entry. -/
def BssInfo.fromSsid (it : BssInfo) : List UInt8 :=
  it.ssid.toList ++ [it.ssidLen, it.channel, it.chanWidth, it.rssi.toUInt8] ++
    it.padding.toList ++
    it.authmode.bytes

/-- `(const char*) it->ssid`. -/
def BssInfo.text (it : BssInfo) : List UInt8 := cstr it.fromSsid

/-- `_getScanInfoByIndex`: a null pointer, or the address of the entry with this index. -/
def getScanInfoByIndex (s : State BssInfo) (i : ℕ) : Option ℕ :=
  if s.scanResult = [] ∨ i > s.scanCount then none else some i

/-- **An accessor**: what it returns for a null pointer, and what it makes of an entry. -/
def access {β : Type} (s : State BssInfo) (i : UInt8) (notFound : β) (found : BssInfo → β) :
    Option β :=
  match getScanInfoByIndex s i.toNat with
  | none => some notFound
  | some it => s.scanResult[it]?.map found

def SSID (s : State BssInfo) (i : UInt8) : Option (List UInt8) := access s i [] BssInfo.text

def encryptionType (s : State BssInfo) (i : UInt8) : Option ℕ :=
  access s i 255 fun it => it.authmode.encryptionType

def RSSI (s : State BssInfo) (i : UInt8) : Option ℤ := access s i 0 fun it => it.rssi.toInt

def channel (s : State BssInfo) (i : UInt8) : Option ℕ :=
  access s i 0 fun it => it.channel.toNat

def isHidden (s : State BssInfo) (i : UInt8) : Option Bool := access s i false fun it =>
  it.isHidden != 0

/-- `BSSID`: the entry that the pointer points into. -/
def BSSID (s : State BssInfo) (i : UInt8) : Option ℕ := getScanInfoByIndex s i.toNat

/-- What `getNetworkInfo` writes to its arguments. -/
structure NetworkInfo where
  ssid : List UInt8
  encType : ℕ
  rssi : ℤ
  bssid : ℕ
  channel : ℕ
  isHidden : Bool
  deriving DecidableEq, Repr

/-- `getNetworkInfo`, with `none` for `false`. -/
def getNetworkInfo (s : State BssInfo) (i : UInt8) : Option (Option NetworkInfo) :=
  match getScanInfoByIndex s i.toNat with
  | none => some none
  | some k => do
    let it ← s.scanResult[k]?
    let encType ← encryptionType s i
    return some ⟨it.text, encType, it.rssi.toInt, k, it.channel.toNat, it.isHidden != 0⟩

variable {α : Type}

/-- `scanDelete`. -/
def scanDelete (s : State α) : State α :=
  if s.scanResult = [] then { s with scanComplete := false }
  else { s with scanResult := [], scanCount := 0, scanComplete := false }

/-- `scanNetworks`, to whose scan the SDK agrees. -/
def scanNetworks (async : Bool) (s : State α) : State α :=
  if s.scanStarted then { s with returned := -1 }
  else
    let s := scanDelete { s with scanAsync := async }
    { s with
      scanStarted := true, pending := s.pending + 1,
      returned := if async then -1 else int8 s.scanCount }

/-- `_scanDone`. -/
def scanDone (found : Option (List α)) (s : State α) : State α :=
  { s with
    scanCount := (found.getD []).length, scanResult := found.getD [], scanStarted := false,
    scanComplete := true, pending := s.pending - 1 }

/-- A scan that is completed, with the list that was found if it is successful; or
`scanDelete`. -/
inductive Op (α : Type) where
  | scan (async : Bool) (found : Option (List α))
  | scanDelete
  deriving DecidableEq, Repr

def Op.run (s : State α) : Op α → State α
  | scan async found => scanDone found (scanNetworks async s)
  | scanDelete => WiFiScan.scanDelete s

/-- The scanner after some operations. -/
def after (ops : List (Op α)) : State α := ops.foldl Op.run init

/-- **The list that is in force**: that of the last scan, if it was successful and not
deleted. -/
def inForce (ops : List (Op α)) : Option (List α) :=
  ops.foldl (fun _ op =>
    match op with
    | .scan _ found => found
    | .scanDelete => none) none

/-- **The accessors read a list**: the entry with the index, or that there is none. -/
structure Reads (s : State BssInfo) (networks : List BssInfo) (i : UInt8) : Prop where
  ssid : SSID s i = some (networks[i.toNat]?.elim [] BssInfo.text)
  encryptionType : encryptionType s i =
    some (networks[i.toNat]?.elim 255 fun it => it.authmode.encryptionType)
  rssi : RSSI s i = some (networks[i.toNat]?.elim 0 fun it => it.rssi.toInt)
  channel : channel s i = some (networks[i.toNat]?.elim 0 fun it => it.channel.toNat)
  isHidden : isHidden s i = some (networks[i.toNat]?.elim false fun it => it.isHidden != 0)
  bssid : (BSSID s i).map (s.scanResult[·]?) = networks[i.toNat]?.map some
  networkInfo : getNetworkInfo s i = some (networks[i.toNat]?.map fun it =>
    ⟨it.text, it.authmode.encryptionType, it.rssi.toInt, i.toNat, it.channel.toNat,
      it.isHidden != 0⟩)

/-- **The networks are stored**: their number is returned, and the accessors read them at this
index. -/
def Stored (ops : List (Op BssInfo)) (i : UInt8) : Prop :=
  (∀ networks, inForce ops = some networks → (after ops).complete = networks.length) ∧
    Reads (after ops) ((inForce ops).getD []) i

/-! ## The statements of both tasks -/

variable {s : State α}

/-- **The operations are runs** of the two tasks, one of them after the other. -/
theorem run_scanNetworks (hidle : s.caller = .idle) (async : Bool) :
    ∃ es, machine.run s es = some (scanNetworks async s) := by
  obtain ⟨_, scanStarted, _, _, scanResult, caller, _, _, _⟩ := s
  cases hidle
  cases scanStarted with
  | true => exact ⟨.scanNetworks async :: List.replicate 1 (.caller true), rfl⟩
  | false =>
    cases scanResult with
    | nil => exact ⟨.scanNetworks async :: List.replicate 9 (.caller true), rfl⟩
    | cons _ _ => exact ⟨.scanNetworks async :: List.replicate 11 (.caller true), rfl⟩

theorem run_scanDelete (hidle : s.caller = .idle) :
    ∃ es, machine.run s es = some (scanDelete s) := by
  obtain ⟨_, _, _, _, scanResult, caller, _, _, _⟩ := s
  cases hidle
  cases scanResult with
  | nil => exact ⟨.scanDelete :: List.replicate 2 (.caller true), rfl⟩
  | cons _ _ => exact ⟨.scanDelete :: List.replicate 4 (.caller true), rfl⟩

theorem run_scanDone (hidle : s.callback = .idle) (hpending : 0 < s.pending)
    (found : Option (List α)) : ∃ es, machine.run s es = some (scanDone found s) := by
  obtain ⟨_, _, _, _, _, _, callback, pending, _⟩ := s
  cases hidle
  cases pending with
  | zero => cases hpending
  | succ pending => exact ⟨.scanDone found :: List.replicate 4 .callback, rfl⟩

/-- **What holds between two operations**: nothing is going on, and the count and the array are
those of the list that is in force. -/
structure Settled (s : State α) (networks : Option (List α)) : Prop where
  caller : s.caller = .idle
  callback : s.callback = .idle
  pending : s.pending = 0
  scanStarted : s.scanStarted = false
  scanComplete : networks ≠ none → s.scanComplete = true
  scanResult : s.scanResult = networks.getD []
  scanCount : s.scanCount = (networks.getD []).length

variable {networks : Option (List α)}

theorem Settled.scanDelete (h : Settled s networks) : Settled (scanDelete s) none := by
  unfold WiFiScan.scanDelete
  split
  · rename_i hnil
    refine ⟨h.caller, h.callback, h.pending, h.scanStarted, fun hne => absurd rfl hne, hnil, ?_⟩
    rw [h.scanCount, ← h.scanResult, hnil]
    rfl
  · exact ⟨h.caller, h.callback, h.pending, h.scanStarted, fun hne => absurd rfl hne, rfl, rfl⟩

theorem Settled.scan (h : Settled s networks) (async : Bool) (found : Option (List α)) :
    Settled (scanDone found (scanNetworks async s)) found := by
  have hdeleted := (show Settled { s with scanAsync := async } networks from
    ⟨h.caller, h.callback, h.pending, h.scanStarted, h.scanComplete, h.scanResult,
      h.scanCount⟩).scanDelete
  unfold scanNetworks
  rw [if_neg (by rw [h.scanStarted]; exact Bool.false_ne_true)]
  refine ⟨hdeleted.caller, hdeleted.callback, ?_, rfl, fun _ => rfl, rfl, rfl⟩
  exact (Nat.add_sub_cancel _ 1).trans hdeleted.pending

theorem after_concat (ops : List (Op α)) (op : Op α) :
    after (ops ++ [op]) = op.run (after ops) :=
  List.foldl_concat ..

theorem inForce_concat (ops : List (Op α)) (op : Op α) :
    inForce (ops ++ [op]) =
      match op with
      | .scan _ found => found
      | .scanDelete => none := List.foldl_concat ..

/-- **Every sequence of operations** leaves the list that is in force. -/
theorem settled_after (ops : List (Op α)) : Settled (after ops) (inForce ops) := by
  induction ops using List.reverseRecOn with
  | nil => exact ⟨rfl, rfl, rfl, rfl, fun hne => absurd rfl hne, rfl, rfl⟩
  | append_singleton ops op ih =>
    rw [after_concat, inForce_concat]
    cases op with
    | scan async found => exact ih.scan async found
    | scanDelete => exact ih.scanDelete

/-- It is a run of the two tasks. -/
theorem exists_run_after (ops : List (Op α)) :
    ∃ es, machine.run init es = some (after ops) := by
  induction ops using List.reverseRecOn with
  | nil => exact ⟨[], rfl⟩
  | append_singleton ops op ih =>
    obtain ⟨es, hes⟩ := ih
    have hsettled := settled_after ops
    rw [after_concat]
    cases op with
    | scanDelete =>
      obtain ⟨fs, hfs⟩ := run_scanDelete hsettled.caller
      exact ⟨es ++ fs, by rw [Machine.run_append, hes]; exact hfs⟩
    | scan async found =>
      obtain ⟨fs, hfs⟩ := run_scanNetworks hsettled.caller async
      have hstarted : (scanNetworks async (after ops)).callback = .idle ∧
          0 < (scanNetworks async (after ops)).pending := by
        unfold scanNetworks WiFiScan.scanDelete
        rw [if_neg (by rw [hsettled.scanStarted]; exact Bool.false_ne_true)]
        split <;> exact ⟨hsettled.callback, Nat.succ_pos _⟩
      obtain ⟨gs, hgs⟩ := run_scanDone hstarted.1 hstarted.2 found
      refine ⟨es ++ (fs ++ gs), ?_⟩
      rw [Machine.run_append, hes, Option.bind_some, Machine.run_append, hfs]
      exact hgs

/-! ## The test of the index -/

/-- A number fits into an `int8_t` exactly below 128. -/
theorem int8_eq_iff {n : ℕ} : int8 n = n ↔ n < 128 := by
  unfold int8
  rw [Int.bmod_def]
  omega

variable {st : State BssInfo} {found : List BssInfo} {i : UInt8}

/-- **An index that is not the length** is that of an entry, or is found to be none. -/
theorem getScanInfoByIndex_eq {n : ℕ} (hresult : st.scanResult = found)
    (hcount : st.scanCount = found.length) (hindex : found = [] ∨ n ≠ found.length) :
    getScanInfoByIndex st n = found[n]?.map fun _ => n := by
  unfold getScanInfoByIndex
  rw [hresult, hcount]
  by_cases hlt : n < found.length
  · rw [List.getElem?_eq_getElem hlt, if_neg]
    · rfl
    rintro (rfl | hgt)
    · cases hlt
    · omega
  · rw [List.getElem?_eq_none (Nat.le_of_not_lt hlt), if_pos]
    · rfl
    exact hindex.imp_right fun hne => by omega

/-- **The length itself** passes. -/
theorem getScanInfoByIndex_length (hresult : st.scanResult = found)
    (hcount : st.scanCount = found.length) (hne : found ≠ []) :
    getScanInfoByIndex st found.length = some found.length := by
  unfold getScanInfoByIndex
  rw [hresult, hcount, if_neg]
  rintro (hnil | hgt)
  · exact hne hnil
  · exact Nat.lt_irrefl _ hgt

theorem access_eq {β : Type} (hresult : st.scanResult = found)
    (hcount : st.scanCount = found.length)
    (hindex : found = [] ∨ i.toNat ≠ found.length) (notFound : β) (f : BssInfo → β) :
    access st i notFound f = some (found[i.toNat]?.elim notFound f) := by
  unfold access
  rw [getScanInfoByIndex_eq hresult hcount hindex, hresult]
  cases hget : found[i.toNat]? with
  | none => rfl
  | some it =>
    show found[i.toNat]?.map f = _
    rw [hget]
    rfl

/-- **The accessors read the list**, except at its length. -/
theorem reads_iff (hresult : st.scanResult = found) (hcount : st.scanCount = found.length) :
    Reads st found i ↔ found = [] ∨ i.toNat ≠ found.length := by
  constructor
  · intro hreads
    by_contra hindex
    obtain ⟨hne, hlength⟩ := not_or.mp hindex
    have hbssid := hreads.bssid
    rw [BSSID, not_not.mp hlength, getScanInfoByIndex_length hresult hcount hne,
      List.getElem?_eq_none le_rfl] at hbssid
    cases hbssid
  · intro hindex
    refine ⟨access_eq hresult hcount hindex _ _, access_eq hresult hcount hindex _ _,
      access_eq hresult hcount hindex _ _, access_eq hresult hcount hindex _ _,
      access_eq hresult hcount hindex _ _, ?_, ?_⟩
    · rw [BSSID, getScanInfoByIndex_eq hresult hcount hindex, hresult]
      cases hget : found[i.toNat]? with
      | none => rfl
      | some it => rw [Option.map_some, Option.map_some, Option.map_some, hget]
    · have htype : encryptionType st i = _ := access_eq hresult hcount hindex _ _
      unfold getNetworkInfo
      rw [getScanInfoByIndex_eq hresult hcount hindex, htype, hresult]
      cases hget : found[i.toNat]? with
      | none => rfl
      | some it =>
        rw [Option.map_some]
        dsimp only
        rw [hget]
        rfl

/-- **What was found is stored**, exactly if there are fewer than 128 networks and the index is
not their number, whatever was scanned and deleted before. -/
theorem stored_iff (ops : List (Op BssInfo)) (i : UInt8) :
    Stored ops i ↔ ∀ networks, inForce ops = some networks →
      networks.length < 128 ∧ (networks = [] ∨ i.toNat ≠ networks.length) := by
  have hsettled := settled_after ops
  unfold Stored
  rw [reads_iff hsettled.scanResult hsettled.scanCount]
  cases hforce : inForce ops with
  | none => exact iff_of_true ⟨fun _ h => (nomatch h), Or.inl rfl⟩ fun _ h => nomatch h
  | some networks =>
    rw [hforce] at hsettled
    have hcomplete : (after ops).complete = int8 networks.length := by
      unfold State.complete
      rw [hsettled.scanStarted, if_neg Bool.false_ne_true,
        hsettled.scanComplete (Option.some_ne_none _), if_pos rfl, hsettled.scanCount,
        Option.getD_some]
    simp only [Option.some.injEq, forall_eq', Option.getD_some, hcomplete, int8_eq_iff]

/-- An open network on the sixth channel. -/
def openNetwork : BssInfo where
  bssid := Vector.replicate 6 0
  ssid := Vector.replicate 32 0
  ssidLen := 0
  channel := 6
  chanWidth := 0
  rssi := -40
  padding := Vector.replicate 2 0
  authmode := .open
  isHidden := 1

/-- **One network is found**, and the second one is read. -/
theorem not_stored_one : ¬ Stored [.scan true (some [openNetwork])] 1 := fun h =>
  (((stored_iff _ _).mp h [openNetwork] rfl).2.resolve_left (List.cons_ne_nil _ _)) rfl

end WiFiScan
