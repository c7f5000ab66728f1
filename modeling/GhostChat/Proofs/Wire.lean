import GhostChat.Lib.Effect
import GhostChat.Ref.Message

/-!
# Wire messages survive being sent, within their bounds

The encoder takes any message. What comes out is read field by field into the
same message, so the only thing that can stand between a message and the other
side is one of the bounds, and those raise `InvalidHeaderError` like everything
else that is wrong with a dict.

`WireRead` is what an accepted dict looks like: the five fields the parser
went to, and what it made of each. Both halves of the round trip are about
such a dict.
-/

namespace GhostChat.Proofs

open GhostChat.Lib GhostChat.Lib.Effect GhostChat.Ref

theorem b64Encode_ne_empty {b : Bytes} (h : b ≠ []) : b64Encode b ≠ "" := by
  intro hempty
  have hdec := b64Decode_b64Encode b
  rw [hempty] at hdec
  exact h (Except.ok.inj hdec).symm

/-! ## An accepted dict -/

/-- The fields of a dict that was accepted as `msg`. -/
structure WireRead (data header : List (String × Json)) (dh ciphertext nonce : String)
    (msg : RatchetWireMessage Bytes) : Prop where
  headerAt : Json.get data "header" = .dict header
  dhAt : Json.get header "dh" = .str dh
  ciphertextAt : Json.get data "ciphertext" = .str ciphertext
  nonceAt : Json.get data "nonce" = .str nonce
  dhBytes : b64Decode dh = .ok msg.header.dh
  ciphertextBytes : b64Decode ciphertext = .ok msg.ciphertext
  nonceBytes : b64Decode nonce = .ok msg.nonce
  n : requireInt32 "n" (Json.get header "n") = .ok msg.header.n
  pn : requireInt32 "pn" (Json.get header "pn") = .ok msg.header.pn

theorem parseDh_ok {h : List (String × Json)} {dh : Bytes} (hok : parseDh h = .ok dh) :
    ∃ s, Json.get h "dh" = .str s ∧ b64Decode s = .ok dh := by
  unfold parseDh at hok
  split at hok
  · cases hok
  · next s hs =>
      split at hok
      · cases hok
      · split at hok
        · cases hok
        · next b hb =>
            split at hok
            · cases hok
            · cases hok
              exact ⟨s, hs, hb⟩
  · cases hok

theorem bodyStrings_ok {data : List (String × Json)} {strings : String × String}
    (hok : bodyStrings data = .ok strings) :
    Json.get data "ciphertext" = .str strings.1 ∧ Json.get data "nonce" = .str strings.2 := by
  unfold bodyStrings at hok
  split at hok
  · cases hok
  · cases hok
  · next ct nonce hct hnonce =>
      split at hok
      · cases hok
      · cases hok
        exact ⟨hct, hnonce⟩
  · cases hok
  · cases hok

theorem decodeBody_ok {ct nonce : String} {body : Bytes × Bytes}
    (hok : decodeBody ct nonce = .ok body) :
    b64Decode ct = .ok body.1 ∧ b64Decode nonce = .ok body.2 := by
  unfold decodeBody at hok
  split at hok
  · cases hok
  · next hct =>
      split at hok
      · cases hok
      · next hnonce =>
          cases hok
          exact ⟨hct, hnonce⟩

theorem wireMessageFromDict_ok {v : Json} {msg : RatchetWireMessage Bytes}
    (hok : wireMessageFromDict v = .ok msg) :
    ∃ data header dh ciphertext nonce, v = .dict data ∧
      WireRead data header dh ciphertext nonce msg := by
  cases v with
  | dict data =>
      obtain ⟨parsed, hheader, hok⟩ := except_bind_ok hok
      obtain ⟨strings, hstrings, hok⟩ := except_bind_ok hok
      obtain ⟨body, hbody, hok⟩ := except_bind_ok hok
      obtain ⟨_, -, hok⟩ := except_bind_ok hok
      cases hok
      unfold parseHeader at hheader
      split at hheader
      · next field fields hfields =>
          obtain ⟨b, hdh, hheader⟩ := except_bind_ok hheader
          obtain ⟨n, hn, hheader⟩ := except_bind_ok hheader
          obtain ⟨pn, hpn, hheader⟩ := except_bind_ok hheader
          cases hheader
          obtain ⟨dh, hget, hdec⟩ := parseDh_ok hdh
          obtain ⟨hct, hnonce⟩ := bodyStrings_ok hstrings
          obtain ⟨hctDec, hnonceDec⟩ := decodeBody_ok hbody
          exact ⟨data, field :: fields, dh, strings.1, strings.2, rfl,
            hfields, hget, hct, hnonce, hdec, hctDec, hnonceDec, hn, hpn⟩
      · cases hheader
  | null => cases hok
  | bool b => cases hok
  | int n => cases hok
  | float x => cases hok
  | str s => cases hok
  | list items => cases hok

/-! ## The round trip -/

theorem requireInt32_int {name : String} {n m : Int} (h : requireInt32 name (.int n) = .ok m) :
    n = m := by
  rw [requireInt32] at h
  split at h
  · cases h
  · cases h
    rfl

theorem requireInt32_of_range {name : String} {n : Int} (h : 0 ≤ n ∧ n < 2 ^ 32) :
    requireInt32 name (.int n) = .ok n := by
  rw [requireInt32, if_neg (by omega)]

/-- Whatever the parser makes of an encoded message is that message. -/
theorem wireMessageFromDict_toDict {msg msg' : RatchetWireMessage Bytes}
    (h : wireMessageFromDict (wireMessageToDict msg) = .ok msg') : msg = msg' := by
  obtain ⟨data, header, dh, ct, nonce, hdata, hread⟩ := wireMessageFromDict_ok h
  injection hdata with hdata
  subst hdata
  have hheader := hread.headerAt
  injection hheader with hheader
  subst hheader
  have hdh := hread.dhAt
  have hct := hread.ciphertextAt
  have hnonce := hread.nonceAt
  injection hdh with hdh
  injection hct with hct
  injection hnonce with hnonce
  subst hdh hct hnonce
  have hdhBytes := hread.dhBytes
  have hctBytes := hread.ciphertextBytes
  have hnonceBytes := hread.nonceBytes
  rw [b64Decode_b64Encode] at hdhBytes hctBytes hnonceBytes
  injection hdhBytes with hdhBytes
  injection hctBytes with hctBytes
  injection hnonceBytes with hnonceBytes
  have hn := requireInt32_int hread.n
  have hpn := requireInt32_int hread.pn
  obtain ⟨⟨dh, n, pn⟩, ciphertext, nonce⟩ := msg
  obtain ⟨⟨dh', n', pn'⟩, ciphertext', nonce'⟩ := msg'
  simp_all

/-- Within the bounds nothing is in the way. -/
theorem wireMessageFromDict_inBounds {msg : RatchetWireMessage Bytes} (h : msg.InBounds) :
    wireMessageFromDict (wireMessageToDict msg) = .ok msg := by
  have hne : ∀ {b : Bytes}, 0 < b.length → b64Encode b ≠ "" :=
    fun hlen => b64Encode_ne_empty (List.length_pos_iff.mp hlen)
  have hdhLen := h.dh
  have hnonceLen := h.nonce
  have hdh : ∀ fields, parseDh (("dh", .str (b64Encode msg.header.dh)) :: fields)
      = .ok msg.header.dh := by
    intro fields
    have hnonempty := hne (b := msg.header.dh) (by omega)
    simp [parseDh, Json.get, Odict.get?, hnonempty, hdhLen]
  have hbody : checkBody msg.ciphertext msg.nonce = .ok () := by
    have hct := h.ciphertext
    rw [checkBody, if_neg (by omega), if_neg (by omega), if_neg (by omega)]
  have hnonce := hne (b := msg.nonce) (by omega)
  simp [wireMessageFromDict, wireMessageToDict, parseHeader, bodyStrings, decodeBody, Json.get,
    Odict.get?, hdh, hnonce, hbody, requireInt32_of_range h.n, requireInt32_of_range h.pn]

theorem reads_back_iff {msg : RatchetWireMessage Bytes} :
    wireMessageFromDict (wireMessageToDict msg) = .ok msg ↔ msg.InBounds := by
  refine ⟨fun hok => ?_, wireMessageFromDict_inBounds⟩
  rcases wireMessageFromDict_parses (wireMessageToDict msg) with ⟨m, herr⟩ | ⟨msg', hok', hin⟩
  · rw [herr] at hok
    cases hok
  · rwa [wireMessageFromDict_toDict hok']

/-- A message is read back exactly when it is within the bounds, and otherwise
refused. Nothing else is raised, on any JSON value, and nothing outside the
bounds is returned. -/
theorem wire_round_trip :
    (∀ msg : RatchetWireMessage Bytes,
      (wireMessageFromDict (wireMessageToDict msg) = .ok msg ↔ msg.InBounds) ∧
      (¬ msg.InBounds →
        ∃ m, wireMessageFromDict (wireMessageToDict msg) = .error (.invalidHeader m))) ∧
    ∀ v, (∃ m, wireMessageFromDict v = .error (.invalidHeader m)) ∨
      ∃ msg, wireMessageFromDict v = .ok msg ∧ msg.InBounds := by
  have hparses := wireMessageFromDict_parses
  refine ⟨fun msg => ⟨reads_back_iff, fun hout => ?_⟩, hparses⟩
  rcases hparses (wireMessageToDict msg) with herr | ⟨msg', hok, hin⟩
  · exact herr
  · rw [← wireMessageFromDict_toDict hok] at hin
    exact absurd hin hout

end GhostChat.Proofs
