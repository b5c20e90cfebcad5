import Mathlib.Algebra.Group.Int.Defs
import Mathlib.Data.List.Forall2
import Mathlib.Data.List.Induction
import Esp31b.WiFiScan

/-!
# Choosing a network

`ESP31BWiFiMulti::run` looks through the networks of a scan for those it has an entry for,
and connects to the strongest one it can use: one that is open, or whose entry has a
passphrase.

Entries without a passphrase go wrong in two ways. Their pointer is never set to null, so
that the entry is stored with whatever was on the stack; and only the first entry with the
SSID of a network is looked at, though another one may have the passphrase. Neither shows
unless the entry is the first for the strongest network that there is an entry for
(`WiFiMulti.selects_iff`).
-/

namespace WiFiMulti

/-- An entry of the list, with its strings; a null pointer is `none`. -/
structure WifiAPlist where
  ssid : List UInt8
  passphrase : Option (List UInt8)
  deriving DecidableEq, Repr

/-- A call of `addAP`, and whether `strdup` finds memory. -/
structure AddAP where
  ssid : Option (List UInt8)
  passphrase : Option (List UInt8)
  ssidCopied : Bool
  passphraseCopied : Bool
  deriving DecidableEq, Repr

/-- **`APlistAdd`**, with what is behind the passphrase of a `WifiAPlist_t` that is declared and
not initialised. -/
def APlistAdd (newAP : Option (List UInt8)) (c : AddAP) (list : List WifiAPlist) :
    Bool × List WifiAPlist :=
  match c.ssid with
  | none => (false, list)
  | some ssid =>
    if ssid = [] ∨ ssid.length > 31 then (false, list)
    else if (c.passphrase.getD []).length > 63 then (false, list)
    else if c.ssidCopied = false then (false, list)
    else
      match c.passphrase with
      | some (x :: xs) =>
        if c.passphraseCopied then (true, list ++ [⟨ssid, some (x :: xs)⟩]) else (false, list)
      | _ => (true, list ++ [⟨ssid, newAP⟩])

/-- The list after some calls, with what is on the stack at each of them. -/
def addAPs (newAP : ℕ → Option (List UInt8)) (calls : List AddAP) : List WifiAPlist :=
  calls.zipIdx.foldl (fun list c => (APlistAdd (newAP c.2) c.1 list).2) []

inductive AuthMode where
  | «open» | wep | wpaPsk | wpa2Psk | wpaWpa2Psk | other
  deriving DecidableEq, Repr

/-- `encryptionType`, by `wl_enc_type`. -/
def AuthMode.encryptionType : AuthMode → ℕ
  | .open => 7
  | .wep => 5
  | .wpaPsk => 2
  | .wpa2Psk => 4
  | .wpaWpa2Psk => 8
  | .other => 255

/-- A network as it was scanned. -/
structure Network where
  ssid : List UInt8
  bssid : Vector UInt8 6
  channel : UInt8
  rssi : BitVec 8
  authmode : AuthMode
  deriving DecidableEq, Repr

/-- The best network so far, with the entry for it. -/
structure Best where
  network : WifiAPlist
  db : ℤ
  bssid : Vector UInt8 6
  channel : UInt8
  deriving DecidableEq, Repr

/-- `bestNetworkDb`, from `INT_MIN` on. -/
def bestDb (best : Option Best) : ℤ := (best.map Best.db).getD (-2 ^ 31)

/-- The entries are compared with a network, up to the first with its SSID. -/
def compare (n : Network) (best : Option Best) : List WifiAPlist → Option Best
  | [] => best
  | entry :: list =>
    if n.ssid = entry.ssid then
      if n.rssi.toInt > bestDb best then
        if n.authmode.encryptionType = 7 ∨ entry.passphrase ≠ none then
          some ⟨entry, n.rssi.toInt, n.bssid, n.channel⟩
        else best
      else best
    else compare n best list

/-- The loop over the networks. -/
def analyse (list : List WifiAPlist) (networks : List Network) : Option Best :=
  networks.foldl (fun best n => compare n best list) none

inductive WlStatus where
  | noShield | idle | noSsidAvail | scanCompleted | connected | connectFailed | connectionLost
  | disconnected
  deriving DecidableEq, Repr

/-- Not connected, and not about to be. -/
def WlStatus.searching : WlStatus → Bool
  | .disconnected | .noSsidAvail | .idle | .connectFailed => true
  | _ => false

/-- What `run` asks of `WiFi`. -/
inductive Action where
  | begin (ssid : List UInt8) (passphrase : Option (List UInt8)) (channel : UInt8)
    (bssid : Vector UInt8 6)
  | scanDelete
  | disconnect
  | scanNetworks (async : Bool)
  deriving DecidableEq, Repr

def Action.isBegin : Action → Bool
  | .begin .. => true
  | _ => false

/-- **`run`**, with the status it finds and the one in which its wait for a connection ends:
what it does, and the status it returns. -/
def run (status ended : WlStatus) (scanResult : ℤ) (networks : List Network)
    (list : List WifiAPlist) : List Action × WlStatus :=
  if status.searching then
    if scanResult = -1 then ([], .noSsidAvail)
    else if scanResult > 0 then
      match analyse list (networks.take scanResult.toNat) with
      | some best =>
        ([.scanDelete, .begin best.network.ssid best.network.passphrase
          best.channel best.bssid], ended)
      | none => ([.scanDelete], status)
    else ([.disconnect, .scanNetworks true], status)
  else ([], status)

/-! ## What it is for -/

/-- The entry that a call adds, if it does. -/
def AddAP.entry (c : AddAP) : Option WifiAPlist :=
  if (APlistAdd none c []).1 then some ⟨c.ssid.getD [], c.passphrase.filter (· ≠ [])⟩ else none

def added (calls : List AddAP) : List WifiAPlist := calls.filterMap AddAP.entry

/-- **An entry makes a network usable.** -/
def Fits (n : Network) (e : WifiAPlist) : Prop :=
  n.ssid = e.ssid ∧ (n.authmode = .open ∨ e.passphrase ≠ none)

instance (n : Network) : DecidablePred (Fits n) := fun _ => inferInstanceAs (Decidable (_ ∧ _))

/-- The strongest network, the earliest of equals. -/
def strongest : List Network → Option Network
  | [] => none
  | n :: networks =>
    match strongest networks with
    | none => some n
    | some m => if n.rssi.toInt < m.rssi.toInt then some m else some n

/-- **The right network is begun with**, and none if there is none. -/
def Right (entries : List WifiAPlist) (networks : List Network) (actions : List Action) :
    Prop :=
  match strongest (networks.filter fun n => ∃ e ∈ entries, Fits n e) with
  | none => actions.filter Action.isBegin = []
  | some n => ∃ e ∈ entries, Fits n e ∧
      actions.filter Action.isBegin = [.begin e.ssid e.passphrase n.channel n.bssid]

/-- **`run` selects a network** after these calls, whatever was on the stack. -/
def Selects (calls : List AddAP) (networks : List Network) : Prop :=
  ∀ (newAP : ℕ → Option (List UInt8)) (status ended : WlStatus), status.searching →
    Right (added calls) networks
      (run status ended (WiFiScan.int8 networks.length) networks (addAPs newAP calls)).1

/-- The networks that there is an entry for. -/
def known (entries : List WifiAPlist) (networks : List Network) : List Network :=
  networks.filter fun n => ∃ e ∈ entries, n.ssid = e.ssid

variable {newAP : ℕ → Option (List UInt8)} {calls : List AddAP} {networks : List Network}
  {list entries : List WifiAPlist} {n : Network}

/-! ## The loops -/

/-- The entry that a network is compared with. -/
def first (list : List WifiAPlist) (n : Network) : Option WifiAPlist :=
  list.find? fun e => n.ssid = e.ssid

/-- The network can be used with that one. -/
def reaches (list : List WifiAPlist) (n : Network) : Bool :=
  (first list n).any fun e => n.authmode = .open ∨ e.passphrase ≠ none

theorem encryptionType_eq_seven {m : AuthMode} : m.encryptionType = 7 ↔ m = .open := by
  cases m <;> decide

/-- **One network**: it becomes the best one if it can be used and is stronger. -/
theorem compare_eq (n : Network) (best : Option Best) (list : List WifiAPlist) :
    compare n best list =
      if reaches list n ∧ n.rssi.toInt > bestDb best then
        (first list n).map fun e => ⟨e, n.rssi.toInt, n.bssid, n.channel⟩
      else best := by
  induction list with
  | nil => rfl
  | cons e list ih =>
    unfold compare reaches first
    by_cases hssid : n.ssid = e.ssid
    · rw [if_pos hssid, List.find?_cons_of_pos (by simpa using hssid)]
      simp only [encryptionType_eq_seven, Option.any_some, Option.map_some, decide_eq_true_eq]
      by_cases hrssi : n.rssi.toInt > bestDb best
      · simp only [hrssi, and_true, if_true]
      · simp only [hrssi, and_false, if_false]
    · rw [if_neg hssid, List.find?_cons_of_neg (by simpa using hssid)]
      exact ih

theorem strongest_concat (networks : List Network) (n : Network) :
    strongest (networks ++ [n]) =
      match strongest networks with
      | none => some n
      | some m => if m.rssi.toInt < n.rssi.toInt then some n else some m := by
  induction networks with
  | nil => rfl
  | cons m networks ih =>
    rw [List.cons_append, strongest, strongest, ih]
    cases strongest networks with
    | none => rfl
    | some c =>
      dsimp only
      by_cases hmc : m.rssi.toInt < c.rssi.toInt
      · rw [if_pos hmc]
        dsimp only
        by_cases hcn : c.rssi.toInt < n.rssi.toInt
        · rw [if_pos hcn]
          exact if_pos (by omega)
        · rw [if_neg hcn]
          exact if_pos hmc
      · rw [if_neg hmc]
        dsimp only
        by_cases hcn : c.rssi.toInt < n.rssi.toInt
        · rw [if_pos hcn]
        · rw [if_neg hcn]
          exact (if_neg hmc).trans (if_neg (by omega)).symm

theorem first_of_reaches (h : reaches list n = true) :
    ∃ e, first list n = some e ∧ (n.authmode = .open ∨ e.passphrase ≠ none) := by
  obtain ⟨e, he, hfits⟩ := Option.any_eq_true _ _ |>.mp h
  exact ⟨e, he, of_decide_eq_true hfits⟩

theorem strongest_eq_none (h : strongest networks = none) : networks = [] := by
  cases networks with
  | nil => rfl
  | cons n networks =>
    rw [strongest] at h
    split at h
    · cases h
    · split at h <;> cases h

/-- It is one of them, and none is stronger. -/
theorem strongest_eq_some (h : strongest networks = some n) :
    n ∈ networks ∧ ∀ m ∈ networks, m.rssi.toInt ≤ n.rssi.toInt := by
  induction networks using List.reverseRecOn generalizing n with
  | nil => cases h
  | append_singleton networks m ih =>
    rw [strongest_concat] at h
    have hall : ∀ b : ℤ, (∀ c ∈ networks, c.rssi.toInt ≤ b) → m.rssi.toInt ≤ b →
        ∀ c ∈ networks ++ [m], c.rssi.toInt ≤ b := by
      intro b hb hm c hc
      rcases List.mem_append.mp hc with hc | hc
      · exact hb c hc
      · rwa [List.mem_singleton.mp hc]
    cases hc : strongest networks with
    | none =>
      rw [hc] at h
      cases h
      obtain rfl := strongest_eq_none hc
      exact ⟨List.mem_singleton_self _, hall _ nofun (Int.le_refl _)⟩
    | some c =>
      rw [hc] at h
      obtain ⟨hmem, hle⟩ := ih hc
      dsimp only at h
      split at h
      · rename_i hlt
        cases h
        exact ⟨List.mem_append_right _ (List.mem_singleton_self _),
          hall _ (fun d hd => Int.le_trans (hle d hd) (Int.le_of_lt hlt)) (Int.le_refl _)⟩
      · rename_i hnot
        cases h
        exact ⟨List.mem_append_left _ hmem, hall _ hle (Int.not_lt.mp hnot)⟩

/-- The best network as it is kept. -/
def best (list : List WifiAPlist) (n : Network) : Option Best :=
  (first list n).map fun e => ⟨e, n.rssi.toInt, n.bssid, n.channel⟩

theorem bestDb_best (h : reaches list n = true) : bestDb (best list n) = n.rssi.toInt := by
  obtain ⟨e, he, -⟩ := first_of_reaches h
  unfold bestDb best
  rw [he]
  rfl

/-- **All networks**: the best one is the strongest that can be used. -/
theorem analyse_eq (list : List WifiAPlist) (networks : List Network) :
    analyse list networks = (strongest (networks.filter (reaches list))).bind (best list) := by
  induction networks using List.reverseRecOn with
  | nil => rfl
  | append_singleton networks n ih =>
    have hstep : analyse list (networks ++ [n]) = compare n (analyse list networks) list := by
      unfold analyse
      rw [List.foldl_append]
      rfl
    rw [hstep, compare_eq, List.filter_append, ih]
    by_cases hreach : reaches list n = true
    · rw [List.filter_cons_of_pos hreach, List.filter_nil, strongest_concat]
      cases hm : strongest (networks.filter (reaches list)) with
      | none =>
        have hmin := BitVec.le_toInt n.rssi
        rw [if_pos ⟨hreach, show n.rssi.toInt > -2 ^ 31 by omega⟩]
        rfl
      | some m =>
        have hdb := bestDb_best (List.mem_filter.mp (strongest_eq_some hm).1).2
        rw [Option.bind_some, hdb]
        by_cases hlt : m.rssi.toInt < n.rssi.toInt
        · rw [if_pos ⟨hreach, hlt⟩]
          simp only [if_pos hlt]
          rfl
        · rw [if_neg fun h => hlt h.2]
          simp only [if_neg hlt]
          rfl
    · rw [List.filter_cons_of_neg hreach, List.filter_nil, List.append_nil,
        if_neg fun h => hreach h.1]

/-- A network that is stronger than all others is so among some of them. -/
theorem strongest_filter {q : Network → Bool} (h : strongest networks = some n)
    (hq : q n = true) :
    strongest (networks.filter q) = some n := by
  induction networks using List.reverseRecOn generalizing n with
  | nil => cases h
  | append_singleton networks m ih =>
    rw [strongest_concat] at h
    rw [List.filter_append]
    cases hc : strongest networks with
    | none =>
      obtain rfl := strongest_eq_none hc
      rw [hc] at h
      cases h
      rw [List.filter_cons_of_pos hq]
      rfl
    | some c =>
      rw [hc] at h
      dsimp only at h
      split at h
      · rename_i hlt
        cases h
        rw [List.filter_cons_of_pos hq, List.filter_nil, strongest_concat]
        cases hd : strongest (networks.filter q) with
        | none => rfl
        | some d =>
          have hmem := (List.mem_filter.mp (strongest_eq_some hd).1).1
          exact if_pos (Int.lt_of_le_of_lt ((strongest_eq_some hc).2 d hmem) hlt)
      · rename_i hnot
        cases h
        by_cases hm : q m = true
        · rw [List.filter_cons_of_pos hm, List.filter_nil, strongest_concat, ih hc hq]
          exact if_neg hnot
        · rw [List.filter_cons_of_neg hm, List.filter_nil, List.append_nil]
          exact ih hc hq

/-! ## The entries -/

/-- What is stored for an entry. -/
def Stored (newAP : ℕ → Option (List UInt8)) (e s : WifiAPlist) : Prop :=
  s.ssid = e.ssid ∧ ∃ i, s.passphrase = e.passphrase.or (newAP i)

theorem APlistAdd_eq (junk : Option (List UInt8)) (c : AddAP) (list : List WifiAPlist) :
    (APlistAdd junk c list).2 =
      match c.entry with
      | none => list
      | some e => list ++ [⟨e.ssid, e.passphrase.or junk⟩] := by
  obtain ⟨ssid, passphrase, ssidCopied, passphraseCopied⟩ := c
  unfold AddAP.entry APlistAdd
  cases ssid with
  | none => rfl
  | some ssid =>
    dsimp only
    split
    · rfl
    · split
      · rfl
      · split
        · rfl
        · match passphrase with
          | none | some [] => rfl
          | some (x :: xs) => cases passphraseCopied <;> rfl

theorem stored_addAPs (newAP : ℕ → Option (List UInt8)) (calls : List AddAP) :
    List.Forall₂ (Stored newAP) (added calls) (addAPs newAP calls) := by
  induction calls using List.reverseRecOn with
  | nil => exact List.Forall₂.nil
  | append_singleton calls c ih =>
    have hadd : addAPs newAP (calls ++ [c]) =
        (APlistAdd (newAP calls.length) c (addAPs newAP calls)).2 := by
      unfold addAPs
      rw [List.zipIdx_append, List.foldl_append, Nat.zero_add]
      rfl
    have hentries : added (calls ++ [c]) = added calls ++ c.entry.toList := by
      unfold added
      rw [List.filterMap_append]
      cases hc : c.entry <;> simp [hc]
    rw [hadd, APlistAdd_eq, hentries]
    cases c.entry with
    | none => exact (List.append_nil (added calls)).symm ▸ ih
    | some e => exact List.rel_append ih (List.Forall₂.cons ⟨rfl, _, rfl⟩ List.Forall₂.nil)

/-- **The first entry** for a network is stored as the first one. -/
theorem first_stored (h : List.Forall₂ (Stored newAP) entries list) (n : Network) :
    Option.Rel (Stored newAP) (first entries n) (first list n) := by
  induction h with
  | nil => exact Option.Rel.none
  | @cons e s entries list hes _ ih =>
    unfold first
    by_cases hssid : n.ssid = e.ssid
    · rw [List.find?_cons_of_pos (by simpa using hssid),
        List.find?_cons_of_pos (by simpa using hssid.trans hes.1.symm)]
      exact Option.Rel.some hes
    · rw [List.find?_cons_of_neg (by simpa using hssid),
        List.find?_cons_of_neg (by simpa using fun h => hssid (h.trans hes.1))]
      exact ih

theorem first_mem {e : WifiAPlist} (h : first entries n = some e) :
    e ∈ entries ∧ n.ssid = e.ssid :=
  ⟨List.mem_of_find?_eq_some h, by simpa using List.find?_some h⟩

theorem exists_first (h : ∃ e ∈ entries, n.ssid = e.ssid) : ∃ e, first entries n = some e := by
  obtain ⟨e, he, hssid⟩ := h
  exact Option.isSome_iff_exists.mp (List.find?_isSome.mpr ⟨e, he, by simpa using hssid⟩)

/-! ## The selection -/

/-- What `run` does with a scan. -/
theorem begins_run {status ended : WlStatus} (hstatus : status.searching = true)
    (h : networks.length ≤ 127) (list : List WifiAPlist) :
    (run status ended (WiFiScan.int8 networks.length) networks list).1.filter Action.isBegin =
      ((analyse list networks).map fun b =>
        .begin b.network.ssid b.network.passphrase b.channel b.bssid).toList := by
  have hresult : WiFiScan.int8 networks.length = networks.length := by
    unfold WiFiScan.int8
    rw [Int.bmod_def]
    omega
  unfold run
  rw [if_pos hstatus, hresult, if_neg (by omega)]
  split
  · rw [Int.toNat_natCast, List.take_length]
    cases analyse list networks <;> rfl
  · rename_i hempty
    obtain rfl : networks = [] := List.length_eq_zero_iff.mp (by omega)
    rfl

/-- **The strongest network with an entry decides**: among those that meet a stricter test it is
the strongest if it meets it. -/
theorem strongest_of_known {q : Network → Bool}
    (h : strongest (known entries networks) = some n)
    (hq : ∀ m, q m = true → ∃ e ∈ entries, m.ssid = e.ssid) (hn : q n = true) :
    strongest (networks.filter q) = some n := by
  have hfilter : (known entries networks).filter q = networks.filter q := by
    unfold known
    rw [List.filter_filter]
    refine List.filter_congr fun m _ => ?_
    cases hm : q m with
    | false => rfl
    | true => exact decide_eq_true (hq m hm)
  rw [← hfilter]
  exact strongest_filter h hn

theorem filter_eq_nil_of_known {q : Network → Bool}
    (h : strongest (known entries networks) = none)
    (hq : ∀ m, q m = true → ∃ e ∈ entries, m.ssid = e.ssid) : networks.filter q = [] := by
  have hnone := strongest_eq_none h
  refine List.filter_eq_nil_iff.mpr fun m hm hqm => ?_
  exact List.filter_eq_nil_iff.mp hnone m hm (decide_eq_true (hq m hqm))

/-- A network is used only if there is an entry for it. -/
theorem known_of_reaches (hstored : List.Forall₂ (Stored newAP) entries list)
    (h : reaches list n = true) : ∃ e ∈ entries, n.ssid = e.ssid := by
  obtain ⟨s, hs, -⟩ := first_of_reaches h
  have hrel := first_stored hstored n
  rw [hs] at hrel
  cases hfirst : first entries n with
  | none =>
    rw [hfirst] at hrel
    cases hrel
  | some e => exact ⟨e, first_mem hfirst⟩

/-- **What `run` begins with** if the strongest network with an entry can be used with the first
of them as it is stored. -/
theorem begins_of_known (status ended : WlStatus) {e : WifiAPlist}
    (hstatus : status.searching = true)
    (h : networks.length ≤ 127) (hstored : List.Forall₂ (Stored newAP) entries list)
    (hn : strongest (known entries networks) = some n) (he : first entries n = some e)
    (hpassphrase : ∀ i, e.passphrase.or (newAP i) ≠ none) :
    ∃ i, (run status ended (WiFiScan.int8 networks.length) networks list).1.filter
      Action.isBegin =
      [.begin e.ssid (e.passphrase.or (newAP i)) n.channel n.bssid] := by
  have hrel := first_stored hstored n
  rw [he] at hrel
  cases hs : first list n with
  | none =>
    rw [hs] at hrel
    cases hrel
  | some s =>
    rw [hs] at hrel
    cases hrel with
    | some hes =>
      obtain ⟨hssid, i, hp⟩ := hes
      have hreaches : reaches list n = true := by
        unfold reaches
        rw [hs, Option.any_some]
        exact decide_eq_true (Or.inr (hp ▸ hpassphrase i))
      refine ⟨i, ?_⟩
      rw [begins_run hstatus h, analyse_eq,
        strongest_of_known hn (fun _ hm => known_of_reaches hstored hm) hreaches,
        Option.bind_some]
      unfold best
      rw [hs, ← hssid, ← hp]
      rfl

/-- Some string is no passphrase of the entries. -/
theorem exists_other (entries : List WifiAPlist) :
    ∃ junk : List UInt8, ∀ e ∈ entries, e.passphrase ≠ some junk := by
  have hlong : ∃ k : ℕ, ∀ e ∈ entries, ∀ p, e.passphrase = some p → p.length < k := by
    induction entries with
    | nil => exact ⟨0, fun e he => nomatch he⟩
    | cons e entries ih =>
      obtain ⟨k, hk⟩ := ih
      refine ⟨k + (e.passphrase.getD []).length + 1, fun f hf p hp => ?_⟩
      rcases List.mem_cons.mp hf with rfl | hf
      · rw [hp, Option.getD_some]
        omega
      · have := hk f hf p hp
        omega
  obtain ⟨k, hk⟩ := hlong
  refine ⟨List.replicate k 0, fun e he hp => ?_⟩
  have hlt := hk e he _ hp
  rw [List.length_replicate] at hlt
  exact Nat.lt_irrefl k hlt

/-- **The right network is selected** if and only if the strongest scanned network that there is
an entry for, if any, has a passphrase in the first of them. -/
theorem selects_iff (calls : List AddAP) (networks : List Network) (h : networks.length ≤ 127) :
    Selects calls networks ↔ ∀ n, strongest (known (added calls) networks) = some n →
      ∀ e, first (added calls) n = some e → e.passphrase ≠ none := by
  constructor
  · intro hselects n hn e he hnone
    obtain ⟨junk, hjunk⟩ := exists_other (added calls)
    -- With that on the stack the entry is stored with a passphrase that nobody gave.
    obtain ⟨i, hbegins⟩ := begins_of_known .idle .connected rfl h
      (stored_addAPs (fun _ => some junk) calls) hn he (fun _ => by rw [hnone]; exact nofun)
    have hright := hselects (fun _ => some junk) .idle .connected rfl
    unfold Right at hright
    split at hright
    · rw [hbegins] at hright
      cases hright
    · obtain ⟨f, hf, -, hbegin⟩ := hright
      rw [hbegins, hnone] at hbegin
      injection hbegin with hbegin _
      injection hbegin with _ hp _ _
      exact hjunk f hf hp.symm
  · intro hcond newAP status ended hstatus
    have hstored := stored_addAPs newAP calls
    have hfits : ∀ m, decide (∃ e ∈ added calls, Fits m e) = true →
        ∃ e ∈ added calls, m.ssid = e.ssid := by
      intro m hm
      obtain ⟨e, he, hfit⟩ := of_decide_eq_true hm
      exact ⟨e, he, hfit.1⟩
    cases hn : strongest (known (added calls) networks) with
    | none =>
      unfold Right
      rw [filter_eq_nil_of_known hn hfits]
      show _ = []
      rw [begins_run hstatus h, analyse_eq,
        filter_eq_nil_of_known hn (fun _ hm => known_of_reaches hstored hm)]
      rfl
    | some n =>
      obtain ⟨e, he⟩ :=
        exists_first (of_decide_eq_true (List.mem_filter.mp (strongest_eq_some hn).1).2)
      have hp := hcond n hn e he
      have hor : ∀ i, e.passphrase.or (newAP i) = e.passphrase := by
        intro i
        cases hs : e.passphrase with
        | none => exact absurd hs hp
        | some p => rfl
      have hfit : Fits n e := ⟨(first_mem he).2, Or.inr hp⟩
      obtain ⟨i, hbegins⟩ := begins_of_known status ended hstatus h hstored hn he
        (fun i hnone => hp ((hor i).symm.trans hnone))
      unfold Right
      rw [strongest_of_known hn hfits (decide_eq_true ⟨e, (first_mem he).1, hfit⟩)]
      exact ⟨e, (first_mem he).1, hfit, by rw [hbegins, hor]⟩

/-- A protected network, and an entry for it without a passphrase. -/
theorem not_selects_protected :
    ¬ Selects [⟨some [97], none, true, true⟩]
      [⟨[97], #v[1, 2, 3, 4, 5, 6], 6, 200, .wpa2Psk⟩] := by
  intro h
  have hright := h (fun _ => some [98]) .idle .connected rfl
  have hnone : strongest ([⟨[97], #v[1, 2, 3, 4, 5, 6], 6, 200, .wpa2Psk⟩].filter fun n =>
      ∃ e ∈ added [⟨some [97], none, true, true⟩], Fits n e) = none := by decide
  unfold Right at hright
  rw [hnone] at hright
  exact absurd hright (by decide)

theorem selects_passphrase :
    Selects [⟨some [97], some [98], true, true⟩, ⟨some [97], none, true, true⟩]
      [⟨[97], #v[1, 2, 3, 4, 5, 6], 6, 200, .wpa2Psk⟩] := by
  refine (selects_iff _ _ (by decide)).mpr fun n hn e he => ?_
  have hbest : strongest (known (added [⟨some [97], some [98], true, true⟩,
      ⟨some [97], none, true, true⟩]) [⟨[97], #v[1, 2, 3, 4, 5, 6], 6, 200, .wpa2Psk⟩]) =
      some ⟨[97], #v[1, 2, 3, 4, 5, 6], 6, 200, .wpa2Psk⟩ := by decide
  obtain rfl := Option.some.inj (hbest.symm.trans hn)
  have hfirst :
      first (added [⟨some [97], some [98], true, true⟩, ⟨some [97], none, true, true⟩])
      ⟨[97], #v[1, 2, 3, 4, 5, 6], 6, 200, .wpa2Psk⟩ = some ⟨[97], some [98]⟩ := by decide
  obtain rfl := Option.some.inj (hfirst.symm.trans he)
  decide

end WiFiMulti
