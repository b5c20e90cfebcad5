import Esp31b.HttpRequest

/-!
# What `begin` takes from a URL

`begin(url)` cuts a URL at its first colon, at the first slash behind `://`
and at the first `@` before that, and goes on with what it has. `parseUrl` is
that cutting alone, without the client, and `begin_eq` is `begin` in terms of
it: of the client it needs nothing but what it leaves as it was. That is the
port of an unknown protocol – and the authorization of a URL without `@`.

`Url` is a URL put together from its parts, which `parseUrl` finds again
(`Url.parseUrl_text`).
-/

namespace WString

theorem mem_of_mem_substring {s : WString} {left right : ℕ} {b : UInt8}
    (h : b ∈ s.substring left right) :
    b ∈ s := by
  unfold substring at h
  generalize (if left > right then (right, left) else (left, right)) = bounds at h
  obtain ⟨left, right⟩ := bounds
  dsimp only at h
  split at h
  · cases h
  · exact List.mem_of_mem_take (List.mem_of_mem_drop ((List.takeWhile_prefix _).subset h))

theorem mem_of_mem_removeFront {s : WString} {count : ℕ} {b : UInt8}
    (h : b ∈ s.removeFront count) : b ∈ s := by
  unfold removeFront at h
  split at h
  · exact h
  · exact List.mem_of_mem_drop (mem_of_mem_cleared h)

theorem removeFront_of_plain {s : WString} (h : 0 ∉ s) (count : ℕ) :
    s.removeFront count = s.drop count := by
  unfold removeFront
  split
  · rename_i hs
    rcases hs with rfl | rfl
    · simp
    · rfl
  · exact cleared_of_plain fun h0 => h (List.mem_of_mem_drop h0)

/-- **`remove(0, count)` of a text without NUL.** -/
theorem removeFront_append {p : WString} (hne : p ≠ []) (t : WString) :
    (p ++ t).removeFront p.length = cleared t := by
  unfold removeFront
  rw [if_neg (not_or.mpr ⟨List.append_ne_nil_of_left_ne_nil hne t,
    fun h => hne (List.length_eq_zero_iff.mp h)⟩), List.drop_left]

end WString

namespace HTTPClient

/-- **The parts of a URL.** A port that is neither given nor that of a known
protocol stays as it is. -/
structure ParsedUrl where
  authorization : Option WString
  host : WString
  port : Option UInt16
  path : WString
  deriving DecidableEq, Repr

/-- The port of a protocol. -/
def protocolPort (protocol : WString) : Option UInt16 :=
  if protocol.equalsIgnoreCase (ascii "http") then some 80
  else if protocol.equalsIgnoreCase (ascii "https") then some 443
  else none

/-- The part behind the authorization: host and port. -/
def parseHost (protocol : WString) (authorization : Option WString) (host path : WString) :
    ParsedUrl :=
  let index := host.indexOf 0x3A 0
  if 0 ≤ index then
    ⟨authorization, host.substring 0 (WString.pos index),
      some (UInt16.ofInt (WString.toInt (host.removeFront (WString.pos (index + 1))))), path⟩
  else ⟨authorization, host, protocolPort protocol, path⟩

/-- The part behind the protocol, and the path: authorization and host. -/
def parseAuthority (protocol host path : WString) : ParsedUrl :=
  let index := host.indexOf 0x40 0
  if 0 ≤ index then
    parseHost protocol (some (host.substring 0 (WString.pos index)))
      (host.removeFront (WString.pos (index + 1))) path
  else parseHost protocol none host path

/-- **A URL cut up**, unless it starts with a colon. -/
def parseUrl (url : WString) : Option ParsedUrl :=
  let index := url.indexOf 0x3A 0
  if index = 0 then none
  else
    let protocol := url.substring 0 (WString.pos index)
    let url := url.removeFront (WString.pos (index + 3))
    let index := url.indexOf 0x2F 0
    some (parseAuthority protocol (url.substring 0 (WString.pos index))
      (url.removeFront (WString.pos index)))

/-- A client without an earlier response and without headers. -/
def reset (c : HTTPClient) : HTTPClient := { c with returnCode := 0, size := -1, headers := [] }

/-- The client with a URL. -/
def setTarget (c : HTTPClient) (u : ParsedUrl) : HTTPClient :=
  { c with
    base64Authorization := (u.authorization.map base64Encode).getD c.base64Authorization
    host := u.host
    port := u.port.getD c.port
    url := u.path }

/-- **`begin` in terms of the parts.** -/
theorem begin_eq (c : HTTPClient) (url : WString) :
    c.begin url = ((parseUrl url).map c.reset.setTarget).getD c.reset := by
  unfold begin parseUrl
  dsimp only
  by_cases hcolon : url.indexOf 0x3A 0 = 0
  · rw [if_pos hcolon, if_pos hcolon]
    rfl
  · rw [if_neg hcolon, if_neg hcolon]
    generalize url.substring 0 _ = protocol
    generalize url.removeFront _ = url
    generalize url.substring 0 _ = host
    generalize url.removeFront _ = path
    unfold parseAuthority
    dsimp only [Option.map_some, Option.getD_some]
    by_cases hat : 0 ≤ host.indexOf 0x40 0
    · rw [if_pos hat, if_pos hat]
      dsimp only
      generalize host.removeFront _ = rest
      unfold parseHost protocolPort setTarget reset
      dsimp only
      by_cases hport : 0 ≤ rest.indexOf 0x3A 0
      · simp only [hport, decide_true, if_true]
        split_ifs <;> rfl
      · simp only [hport, decide_false, if_false, Bool.false_eq_true]
        split_ifs <;> rfl
    · rw [if_neg hat, if_neg hat]
      dsimp only
      unfold parseHost protocolPort setTarget reset
      dsimp only
      by_cases hport : 0 ≤ host.indexOf 0x3A 0
      · simp only [hport, decide_true, if_true]
        split_ifs <;> rfl
      · simp only [hport, decide_false, if_false, Bool.false_eq_true]
        split_ifs <;> rfl

/-- Host and path are parts of the URL. -/
theorem mem_of_parseUrl {url : WString} {u : ParsedUrl}
    (h : parseUrl url = some u) {b : UInt8} :
    (b ∈ u.host → b ∈ url) ∧ (b ∈ u.path → b ∈ url) := by
  unfold parseUrl at h
  dsimp only at h
  split at h
  · cases h
  · obtain rfl := Option.some.inj h
    have hrest : ∀ {n : ℕ}, b ∈ url.removeFront n → b ∈ url := fun hmem =>
      WString.mem_of_mem_removeFront hmem
    have hhost : ∀ {protocol auth host path},
      (b ∈ (parseHost protocol auth host path).host → b ∈ host) ∧
        (parseHost protocol auth host path).path = path := fun {protocol auth host path} => by
      unfold parseHost
      dsimp only
      split
      · exact ⟨fun hmem : b ∈ host.substring 0 _ => WString.mem_of_mem_substring hmem, rfl⟩
      · exact ⟨id, rfl⟩
    unfold parseAuthority
    dsimp only
    split
    · refine ⟨fun hmem => ?_, fun hmem => ?_⟩
      · exact hrest (WString.mem_of_mem_substring
          (WString.mem_of_mem_removeFront (hhost.1 hmem)))
      · exact hrest (WString.mem_of_mem_removeFront (hhost.2 ▸ hmem))
    · refine ⟨fun hmem => hrest (WString.mem_of_mem_substring (hhost.1 hmem)), fun hmem => ?_⟩
      exact hrest (WString.mem_of_mem_removeFront (hhost.2 ▸ hmem))

/-! ## A URL from its parts -/

/-- **The first slash behind the authority is the first byte of the path**, or
there is none. -/
theorem cut_authority {authority path : WString}
    (hauthority : ∀ b ∈ authority, b ≠ 0x2F ∧ b ≠ 0)
    (hpath : path = [] ∨ ∃ rest, path = 0x2F :: rest) (hlen : authority.length < 2 ^ 32) :
    (authority ++ path).substring 0
    (WString.pos ((authority ++ path).indexOf 0x2F 0)) = authority ∧
      (authority ++ WString.cleared path).removeFront
        (WString.pos ((authority ++ path).indexOf 0x2F 0)) = WString.cleared path := by
  have hplain : 0 ∉ authority := fun h => (hauthority 0 h).2 rfl
  rcases hpath with rfl | ⟨rest, rfl⟩
  · have hall : authority.length ≤ WString.pos (-1) := WString.length_le_pos_neg_one hlen
    rw [List.append_nil,
      WString.indexOf_none (fun h => (hauthority _ (List.mem_of_mem_drop h)).1 rfl),
      WString.substring_of_le (Nat.zero_le _), List.drop_zero, List.take_of_length_le hall,
      cstr_of_not_mem hplain]
    refine ⟨rfl, ?_⟩
    show (authority ++ []).removeFront _ = []
    rw [List.append_nil, WString.removeFront_of_plain hplain, List.drop_eq_nil_of_le hall]
  · rw [WString.indexOf_append hauthority (by decide), WString.pos_natCast hlen,
      WString.substring_of_le (Nat.zero_le _), List.drop_zero, List.take_left,
        cstr_of_not_mem hplain]
    refine ⟨rfl, ?_⟩
    by_cases hne : authority = []
    · rw [hne]
      rfl
    · rw [WString.removeFront_append hne, WString.cleared_cleared]

/-- **A URL is cut up** behind the protocol and in front of the path, which
may have anything in it. -/
theorem parseUrl_append {protocol authority path : WString}
    (hprotocol : ∀ b ∈ protocol, b ≠ 0x3A ∧ b ≠ 0)
    (hauthority : ∀ b ∈ authority, b ≠ 0x2F ∧ b ≠ 0)
    (hpath : path = [] ∨ ∃ rest, path = 0x2F :: rest)
    (hlen : protocol.length + 3 + authority.length < 2 ^ 32) :
    parseUrl (protocol ++ 0x3A :: 0x2F :: 0x2F :: (authority ++ path)) =
      if protocol = [] then none
      else some (parseAuthority protocol authority (WString.cleared path)) := by
  have hzero : 0 ∉ protocol ∧ 0 ∉ authority :=
    ⟨fun h => (hprotocol 0 h).2 rfl, fun h => (hauthority 0 h).2 rfl⟩
  have hpos : WString.pos ((protocol.length : ℤ) + 3) = protocol.length + 3 ∧
      WString.pos (protocol.length : ℤ) = protocol.length :=
    ⟨WString.pos_natCast (by omega : protocol.length + 3 < 2 ^ 32),
      WString.pos_natCast (by omega)⟩
  have hrest : (protocol ++ 0x3A :: 0x2F :: 0x2F :: (authority ++ path)).removeFront
      (protocol.length + 3) = authority ++ WString.cleared path := by
    have happend := WString.removeFront_append (p := protocol ++ [0x3A, 0x2F, 0x2F])
      (List.append_ne_nil_of_right_ne_nil _ (List.cons_ne_nil _ _)) (authority ++ path)
    rw [List.length_append, List.append_assoc, WString.cleared_append hzero.2] at happend
    exact happend
  have hcleared : WString.cleared path = [] ∨ ∃ rest, WString.cleared path = 0x2F :: rest := by
    rcases hpath with rfl | ⟨rest, rfl⟩
    · exact Or.inl rfl
    · exact Or.inr ⟨_, WString.cleared_append (p := [0x2F]) (by decide) rest⟩
  obtain ⟨hcut, hbehind⟩ := cut_authority hauthority hcleared (by omega)
  rw [WString.cleared_cleared] at hbehind
  unfold parseUrl
  dsimp only
  rw [WString.indexOf_append hprotocol (by decide), hpos.1, hpos.2, hrest, hcut, hbehind,
    WString.substring_of_le (Nat.zero_le _), List.drop_zero, List.take_left,
      cstr_of_not_mem hzero.1]
  simp

/-- **A URL**: the protocol, the part in front of the `@`, host and port, and
the path, each without what would end it. -/
structure Url where
  protocol : WString
  authorization : Option WString
  host : WString
  path : WString
  protocol_plain : ∀ b ∈ protocol, b ≠ 0x3A ∧ b ≠ 0
  authorization_plain : ∀ a ∈ authorization, ∀ b ∈ a, b ≠ 0x40 ∧ b ≠ 0x2F ∧ b ≠ 0
  host_plain : ∀ b ∈ host, b ≠ 0x40 ∧ b ≠ 0x2F ∧ b ≠ 0
  path_plain : 0 ∉ path
  path_slash : path = [] ∨ ∃ rest, path = 0x2F :: rest

namespace Url

/-- What is between the protocol and the path. -/
def authority (u : Url) : WString :=
  match u.authorization with
  | none => u.host
  | some a => a ++ 0x40 :: u.host

/-- The URL as a text. -/
def text (u : Url) : WString := u.protocol ++ 0x3A :: 0x2F :: 0x2F :: (u.authority ++ u.path)

variable {u : Url}

theorem authority_plain : ∀ b ∈ u.authority, b ≠ 0x2F ∧ b ≠ 0 := by
  intro b hb
  unfold authority at hb
  cases hauth : u.authorization with
  | none =>
    rw [hauth] at hb
    exact (u.host_plain b hb).2
  | some a =>
    rw [hauth] at hb
    rcases List.mem_append.mp hb with hb | hb
    · exact (u.authorization_plain a hauth b hb).2
    · rcases List.mem_cons.mp hb with rfl | hb
      · decide
      · exact (u.host_plain b hb).2

/-- **The authority is cut up again.** -/
theorem parseAuthority_authority (protocol path : WString)
    (hlen : u.authority.length + 1 < 2 ^ 32) :
    parseAuthority protocol u.authority path =
      parseHost protocol u.authorization u.host path := by
  have h0 : 0 ∉ u.authority := fun h => (authority_plain 0 h).2 rfl
  unfold parseAuthority
  cases hauth : u.authorization with
  | none =>
    have heq : u.authority = u.host := by rw [authority, hauth]
    rw [heq, WString.indexOf_none (fun h => (u.host_plain _ (List.mem_of_mem_drop h)).1 rfl)]
    rfl
  | some a =>
    have heq : u.authority = a ++ 0x40 :: u.host := by rw [authority, hauth]
    have hplain : ∀ b ∈ a, b ≠ 0x40 ∧ b ≠ 0 := fun b hb =>
      ⟨(u.authorization_plain a hauth b hb).1, (u.authorization_plain a hauth b hb).2.2⟩
    rw [heq] at h0 hlen ⊢
    rw [List.length_append, List.length_cons] at hlen
    have hpos : WString.pos ((a.length : ℤ) + 1) = a.length + 1 ∧
        WString.pos (a.length : ℤ) = a.length :=
      ⟨WString.pos_natCast (by omega : a.length + 1 < 2 ^ 32), WString.pos_natCast (by omega)⟩
    rw [WString.indexOf_append hplain (by decide)]
    dsimp only
    rw [if_pos (by omega), hpos.1, hpos.2, WString.substring_of_le (by omega),
      List.drop_zero, List.take_left,
      cstr_of_not_mem (fun h => (hplain 0 h).2 rfl), WString.removeFront_of_plain h0]
    simp

/-- **A URL is cut up again**, unless its protocol is empty. -/
theorem parseUrl_text (hlen : u.text.length < 2 ^ 32) :
    parseUrl u.text =
      if u.protocol = [] then none
      else some (parseHost u.protocol u.authorization u.host u.path) := by
  have hlength : u.text.length = u.protocol.length + 3 + u.authority.length +
      u.path.length := by
    simp [text]
    omega
  rw [text, parseUrl_append u.protocol_plain authority_plain u.path_slash (by omega),
    WString.cleared_of_plain u.path_plain, parseAuthority_authority _ _ (by omega)]

end Url

end HTTPClient
