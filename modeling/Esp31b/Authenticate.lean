import Esp31b.WebServer
import Esp31b.Cencode

/-!
# Basic authentication

`authenticate` encodes the expected credentials and compares the result with
what the client sent. The credentials are copied to the heap and their
length is kept in a `char`, which is unsigned here, so from 256 bytes on it
is the length modulo 256 and only a prefix is encoded. The encoder breaks
lines from 54 bytes on, and no trimmed header ends in or contains the line
feed it then writes.

So the comparison is with the RFC 4648 encoding exactly for credentials of
at most 53 bytes, the colon included. Beyond that the right credentials are
refused, whatever they are.
-/

namespace ESP31BWebServer

open Cencode Base64

/-- `sprintf(toencode, "%s:%s", username, password)`. -/
def credentials (username password : WString) : WString := username ++ 0x3A :: password

/-- `authenticate`. The two heap blocks hold what is written to them; of
`toencode` the encoder reads the first `toencodeLen` bytes. -/
def authenticate (s : ESP31BWebServer) (username password : WString) : Bool :=
  if s.hasHeader authorizationHeader then
    let authReq := s.header authorizationHeader
    if authReq.startsWith (ascii "Basic") then
      let authReq := (authReq.substring 6 authReq.length).trim
      let toencodeLen := UInt8.ofNat (username.length + password.length + 1)
      let encoded := base64EncodeChars ((credentials username password).take toencodeLen.toNat)
      encoded.length > 0 && authReq.equalsC encoded
    else false
  else false

/-- **What the header should say**: the scheme, and the RFC 4648 encoding of
the credentials behind the first six characters. -/
def Authorizes (h username password : WString) : Prop :=
  ascii "Basic" <+: h ∧ WString.trim (h.drop 6) = Base64.encode (credentials username password)

/-- A header line with the right credentials. -/
def authorization (username password : WString) : WString :=
  ascii "Basic " ++ Base64.encode (credentials username password)

/-- A server that has just collected this authorization header. -/
def collected (h : WString) : ESP31BWebServer :=
  (init []).begin.collectHeader authorizationHeader h

/-- What the encoder makes of the credentials. -/
def encoded (username password : WString) : WString :=
  base64EncodeChars ((credentials username password).take
    (UInt8.ofNat (username.length + password.length + 1)).toNat)

theorem length_credentials (u p : WString) :
    (credentials u p).length = u.length + p.length + 1 := by
  simp [credentials]
  omega

theorem credentials_ne_nil (u p : WString) : credentials u p ≠ [] := by simp [credentials]

theorem currentHeaders_collected (h : WString) :
    (collected h).currentHeaders = [⟨authorizationHeader, h⟩] := rfl

/-! ## The comparison -/

/-- **What `authenticate` compares**, for a collected header without NUL. -/
theorem authenticate_iff {s : ESP31BWebServer} {h : WString} {rest : List RequestArgument}
    (u p : WString) (hh : 0 ∉ h) (hs : s.currentHeaders = ⟨authorizationHeader, h⟩ :: rest) :
    s.authenticate u p = true ↔
      ascii "Basic" <+: h ∧ encoded u p ≠ [] ∧ WString.trim (h.drop 6) = encoded u p := by
  have hkey : WString.equalsC authorizationHeader authorizationHeader = true := by decide
  have hheader : s.header authorizationHeader = h := by
    rw [header, valueOf, hs, List.find?_cons_of_pos (by exact hkey)]
    rfl
  have hstarts : h.startsWith (ascii "Basic") = true ↔ ascii "Basic" <+: h :=
    WString.startsWith_iff (by decide)
  have heq : (WString.trim (h.drop 6)).equalsC (encoded u p) = true ↔
      WString.trim (h.drop 6) = encoded u p :=
    WString.equalsC_iff (WString.not_mem_trim (fun h0 => hh (List.mem_of_mem_drop h0)))
  -- a header that names the scheme is not empty, so it counts as collected
  have hhas : ascii "Basic" <+: h → s.hasHeader authorizationHeader = true := by
    intro hpre
    have hpos : h.length > 0 := lt_of_lt_of_le (by decide) hpre.length_le
    have hfirst : (WString.equalsC authorizationHeader authorizationHeader &&
        decide (h.length > 0)) = true := by rw [hkey, decide_eq_true hpos, Bool.and_self]
    rw [hasHeader, hs, List.any_cons, hfirst, Bool.true_or]
  unfold authenticate
  simp only [hheader, WString.substring_length hh]
  by_cases hpre : ascii "Basic" <+: h
  · rw [if_pos (hhas hpre), if_pos (hstarts.mpr hpre), Bool.and_eq_true]
    show decide ((encoded u p).length > 0) = true ∧
      (WString.trim (h.drop 6)).equalsC (encoded u p) = true ↔ _
    rw [heq, decide_eq_true_eq, gt_iff_lt, List.length_pos_iff]
    exact ⟨fun h => ⟨hpre, h⟩, fun h => h.2⟩
  · have hno : ¬ h.startsWith (ascii "Basic") = true := fun h' => hpre (hstarts.mp h')
    rw [if_neg hno]
    simp [hpre]

/-- Up to 53 bytes the credentials are encoded as they should be. -/
theorem encoded_eq {u p : WString} (h : u.length + p.length + 1 ≤ 53) :
    encoded u p = Base64.encode (credentials u p) := by
  have hlen : (UInt8.ofNat (u.length + p.length + 1)).toNat = (credentials u p).length := by
    rw [length_credentials, UInt8.toNat_ofNat', Nat.mod_eq_of_lt (by omega)]
  unfold encoded
  rw [hlen, List.take_length]
  exact base64EncodeChars_eq (by rw [length_credentials]; exact h)

/-- **Beyond 53 bytes they never are**: the output has a line feed, or it is
that of a shorter text. -/
theorem encoded_ne {u p : WString} (h : 53 < u.length + p.length + 1) :
    encoded u p ≠ Base64.encode (credentials u p) := by
  have hlen : (UInt8.ofNat (u.length + p.length + 1)).toNat = (u.length + p.length + 1) % 256 :=
    UInt8.toNat_ofNat'
  have htake : ((credentials u p).take ((u.length + p.length + 1) % 256)).length
      = (u.length + p.length + 1) % 256 := by
    rw [List.length_take, length_credentials]
    exact Nat.min_eq_left (Nat.mod_le _ _)
  unfold encoded
  rw [hlen]
  intro heq
  by_cases hshort : (u.length + p.length + 1) % 256 ≤ 53
  · -- the length has wrapped around and the encoding is too short
    rw [base64EncodeChars_eq (by omega)] at heq
    have := congrArg List.length heq
    rw [length_encode, length_encode, htake, length_credentials] at this
    omega
  · have hmem := lineFeed_mem_base64EncodeChars (s := (credentials u p).take _) (by
      rw [htake]
      omega)
    rw [heq] at hmem
    exact absurd (printable_of_mem_encode hmem).1 (by decide)

/-- The right credentials authorize. -/
theorem authorizes_authorization (u p : WString) : Authorizes (authorization u p) u p := by
  refine ⟨⟨ascii " " ++ Base64.encode (credentials u p), rfl⟩, ?_⟩
  show WString.trim (Base64.encode (credentials u p)) = _
  refine WString.trim_of_ends (fun c hc => ?_) (fun c hc => ?_)
  · exact (printable_of_mem_encode (List.mem_of_mem_head? hc)).1
  · exact (printable_of_mem_encode (List.mem_of_mem_getLast? hc)).1

theorem zero_not_mem_authorization (u p : WString) : 0 ∉ authorization u p := by
  intro h0
  rcases List.mem_append.mp h0 with h0 | h0
  · exact absurd h0 (by decide)
  · exact (printable_of_mem_encode h0).2 rfl

/-- **Authentication is exact up to 53 bytes of credentials**, and for no
longer ones. -/
theorem authenticate_exact_iff (u p : WString) :
    (∀ (s : ESP31BWebServer) (h : WString) (rest : List RequestArgument), 0 ∉ h →
        s.currentHeaders = ⟨authorizationHeader, h⟩ :: rest →
        (s.authenticate u p = true ↔ Authorizes h u p)) ↔
      u.length + p.length + 1 ≤ 53 := by
  constructor
  · intro hexact
    by_contra hlong
    have hs := currentHeaders_collected (authorization u p)
    have hok := (hexact _ _ [] (zero_not_mem_authorization u p) hs).mpr
      (authorizes_authorization u p)
    have hdiff := ((authenticate_iff u p (zero_not_mem_authorization u p) hs).mp hok).2.2
    rw [(authorizes_authorization u p).2] at hdiff
    exact encoded_ne (by omega) hdiff.symm
  · intro hlen s h rest hh hs
    rw [authenticate_iff u p hh hs, encoded_eq hlen]
    have hne := encode_ne_nil (credentials_ne_nil u p)
    exact ⟨fun h => ⟨h.1, h.2.2⟩, fun h => ⟨h.1, hne, h.2⟩⟩

/-- **54 bytes of credentials are refused**: the header is the right one, but
the encoder has ended its 72 characters with a line feed. -/
theorem authenticate_refuses_54 :
    Authorizes (authorization (List.replicate 27 0x75) (List.replicate 26 0x70))
        (List.replicate 27 0x75) (List.replicate 26 0x70) ∧
      (collected (authorization (List.replicate 27 0x75) (List.replicate 26 0x70))).authenticate
        (List.replicate 27 0x75) (List.replicate 26 0x70) = false :=
  ⟨authorizes_authorization _ _, by decide⟩

end ESP31BWebServer
