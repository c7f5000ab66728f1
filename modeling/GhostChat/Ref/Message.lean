import GhostChat.Ref.Text
import GhostChat.Ref.Ratchet

/-!
# Wire messages as JSON values (client/crypto/message.py)

The parser checks in the order of the source, and every way it has to fail is
an `InvalidHeaderError`: what the base64 decoder raises is caught and
reworded. That is half of `wireMessageFromDict_parses`, and it matters to the
receiver, which swallows three kinds of exception and this is none of them.
-/

namespace GhostChat.Ref

open GhostChat.Lib

/-- 1 MiB upper bound to mitigate DoS on huge payloads. -/
def maxCiphertextLen : Nat := 1024 * 1024

def wireMessageToDict (msg : RatchetWireMessage Bytes) : Json :=
  .dict [
    ("header", .dict [
      ("dh", .str (b64Encode msg.header.dh)),
      ("n", .int msg.header.n),
      ("pn", .int msg.header.pn)]),
    ("ciphertext", .str (b64Encode msg.ciphertext)),
    ("nonce", .str (b64Encode msg.nonce))]

/-- `_require_int32`. A `bool` is an `int` to Python and is turned away by a
check of its own. -/
def requireInt32 (name : String) : Json → Except Exn Int
  | .null => .error (.invalidHeader s!"missing {name}")
  | .int value =>
      if value < 0 ∨ value > 0xFFFFFFFF then
        .error (.invalidHeader s!"{name} must be in range [0, 2^32-1]")
      else .ok value
  | _ => .error (.invalidHeader s!"{name} must be an integer")

/-- The `dh` field of the header. -/
def parseDh (h : List (String × Json)) : Except Exn Bytes :=
  match Json.get h "dh" with
  | .null => .error (.invalidHeader "missing header field dh")
  | .str s =>
      if s = "" then
        .error (.invalidHeader "header field dh must be a non-empty string")
      else match b64Decode s with
        | .error e => .error (.invalidHeader s!"invalid dh encoding: {e.str}")
        | .ok dh =>
            if dh.length ≠ 32 then .error (.invalidHeader "dh must be 32 bytes")
            else .ok dh
  | _ => .error (.invalidHeader "header field dh must be a non-empty string")

def parseHeader (data : List (String × Json)) : Except Exn RatchetMessageHeader :=
  match Json.get data "header" with
  | .dict (field :: fields) => do
      let h := field :: fields
      let dh ← parseDh h
      let n ← requireInt32 "n" (Json.get h "n")
      let pn ← requireInt32 "pn" (Json.get h "pn")
      return { dh := dh, n := n, pn := pn }
  -- An empty dict is false in Python.
  | _ => .error (.invalidHeader "missing header")

/-- The two strings of the body, by type. -/
def bodyStrings (data : List (String × Json)) : Except Exn (String × String) :=
  match Json.get data "ciphertext", Json.get data "nonce" with
  | .null, _ => .error (.invalidHeader "missing ciphertext")
  | .str _, .null => .error (.invalidHeader "missing nonce")
  | .str ct, .str nonce =>
      if nonce = "" then .error (.invalidHeader "nonce must be a non-empty string")
      else .ok (ct, nonce)
  | .str _, _ => .error (.invalidHeader "nonce must be a non-empty string")
  | _, _ => .error (.invalidHeader "ciphertext must be a string")

/-- Both decodings are in one `try`. -/
def decodeBody (ct nonce : String) : Except Exn (Bytes × Bytes) :=
  match b64Decode ct with
  | .error e => .error (.invalidHeader s!"invalid base64: {e.str}")
  | .ok ciphertext =>
      match b64Decode nonce with
      | .error e => .error (.invalidHeader s!"invalid base64: {e.str}")
      | .ok nonce => .ok (ciphertext, nonce)

def checkBody (ciphertext nonce : Bytes) : Except Exn Unit :=
  if nonce.length ≠ 12 then .error (.invalidHeader "nonce must be 12 bytes")
  else if ciphertext.length < 16 then
    .error (.invalidHeader "ciphertext too short (invalid or truncated)")
  else if ciphertext.length > maxCiphertextLen then
    .error (.invalidHeader "ciphertext too large")
  else .ok ()

def wireMessageFromDict : Json → Except Exn (RatchetWireMessage Bytes)
  | .dict data => do
      let header ← parseHeader data
      let strings ← bodyStrings data
      let body ← decodeBody strings.1 strings.2
      checkBody body.1 body.2
      return { header := header, ciphertext := body.1, nonce := body.2 }
  | _ => .error (.invalidHeader "message must be a dict")

/-! ## What the parser raises, and what it lets through -/

/-- A message within the bounds the parser checks. -/
structure RatchetWireMessage.InBounds (msg : RatchetWireMessage Bytes) : Prop where
  dh : msg.header.dh.length = 32
  n : 0 ≤ msg.header.n ∧ msg.header.n < 2 ^ 32
  pn : 0 ≤ msg.header.pn ∧ msg.header.pn < 2 ^ 32
  nonce : msg.nonce.length = 12
  ciphertext : 16 ≤ msg.ciphertext.length ∧ msg.ciphertext.length ≤ maxCiphertextLen

/-- Every failure of `x` is an `InvalidHeaderError`, and every success has
`Q`. -/
def Parses {α : Type} (Q : α → Prop) (x : Except Exn α) : Prop :=
  (∃ m, x = .error (.invalidHeader m)) ∨ ∃ v, x = .ok v ∧ Q v

theorem Parses.bind {α β : Type} {Q : α → Prop} {R : β → Prop} {x : Except Exn α}
    {f : α → Except Exn β} (hx : Parses Q x) (hf : ∀ v, Q v → Parses R (f v)) :
    Parses R (x >>= f) := by
  rcases hx with ⟨m, rfl⟩ | ⟨v, rfl, hv⟩
  · exact Or.inl ⟨m, rfl⟩
  · exact hf v hv

theorem requireInt32_parses (name : String) (v : Json) :
    Parses (fun n => 0 ≤ n ∧ n < 2 ^ 32) (requireInt32 name v) := by
  unfold requireInt32
  split
  · exact Or.inl ⟨_, rfl⟩
  · split
    · exact Or.inl ⟨_, rfl⟩
    · exact Or.inr ⟨_, rfl, by omega⟩
  · exact Or.inl ⟨_, rfl⟩

theorem parseDh_parses (h : List (String × Json)) :
    Parses (fun dh => dh.length = 32) (parseDh h) := by
  unfold parseDh
  split
  · exact Or.inl ⟨_, rfl⟩
  · split
    · exact Or.inl ⟨_, rfl⟩
    · split
      · exact Or.inl ⟨_, rfl⟩
      · split
        · exact Or.inl ⟨_, rfl⟩
        · next hlen => exact Or.inr ⟨_, rfl, not_not.mp hlen⟩
  · exact Or.inl ⟨_, rfl⟩

theorem parseHeader_parses (data : List (String × Json)) :
    Parses (fun h => h.dh.length = 32 ∧ (0 ≤ h.n ∧ h.n < 2 ^ 32) ∧
      (0 ≤ h.pn ∧ h.pn < 2 ^ 32)) (parseHeader data) := by
  unfold parseHeader
  split
  · refine (parseDh_parses _).bind fun dh hdh => ?_
    refine (requireInt32_parses _ _).bind fun n hn => ?_
    refine (requireInt32_parses _ _).bind fun pn hpn => ?_
    exact Or.inr ⟨_, rfl, hdh, hn, hpn⟩
  · exact Or.inl ⟨_, rfl⟩

theorem bodyStrings_parses (data : List (String × Json)) :
    Parses (fun _ => True) (bodyStrings data) := by
  unfold bodyStrings
  split
  · exact Or.inl ⟨_, rfl⟩
  · exact Or.inl ⟨_, rfl⟩
  · split
    · exact Or.inl ⟨_, rfl⟩
    · exact Or.inr ⟨_, rfl, trivial⟩
  · exact Or.inl ⟨_, rfl⟩
  · exact Or.inl ⟨_, rfl⟩

theorem decodeBody_parses (ct nonce : String) :
    Parses (fun _ => True) (decodeBody ct nonce) := by
  unfold decodeBody
  split
  · exact Or.inl ⟨_, rfl⟩
  · split
    · exact Or.inl ⟨_, rfl⟩
    · exact Or.inr ⟨_, rfl, trivial⟩

theorem checkBody_parses (ciphertext nonce : Bytes) :
    Parses (fun _ => nonce.length = 12 ∧ 16 ≤ ciphertext.length ∧
      ciphertext.length ≤ maxCiphertextLen) (checkBody ciphertext nonce) := by
  unfold checkBody
  split
  · exact Or.inl ⟨_, rfl⟩
  · split
    · exact Or.inl ⟨_, rfl⟩
    · split
      · exact Or.inl ⟨_, rfl⟩
      · exact Or.inr ⟨_, rfl, by omega⟩

/-- `wire_message_from_dict` raises `InvalidHeaderError` and nothing else, and
what it returns is within the bounds. -/
theorem wireMessageFromDict_parses (v : Json) :
    Parses RatchetWireMessage.InBounds (wireMessageFromDict v) := by
  unfold wireMessageFromDict
  split
  · refine (parseHeader_parses _).bind fun header hh => ?_
    refine (bodyStrings_parses _).bind fun strings _ => ?_
    refine (decodeBody_parses _ _).bind fun body _ => ?_
    refine (checkBody_parses _ _).bind fun _ hb => ?_
    exact Or.inr ⟨_, rfl, hh.1, hh.2.1, hh.2.2, hb.1, hb.2⟩
  · exact Or.inl ⟨_, rfl⟩

end GhostChat.Ref
