import GhostChat.Proofs.Wire

/-!
# Which base64 strings are the encoding of what they decode to

The decoder of the library skips characters it does not know and drops the
bits that are left over, and the padding that is put back in front of it is
counted on the raw string. So the strings that decode are more than the
strings that were encoded, and the parser of wire messages takes them.

`CanonicalText` is the difference: with the padding at its end taken away, the
string has only digits of the URL-safe alphabet, and the last of them has no
bit that goes nowhere. Such a string is read quad by quad, each quad is three
bytes that are written as that quad, and for the short quad at the end the
dropped bits are the ones that have to be zero. Conversely every encoding is
canonical, whatever the bytes.
-/

namespace GhostChat.Proofs

open GhostChat.Lib GhostChat.Lib.Effect GhostChat.Ref

/-- `s.rstrip("=")`. -/
def unpadded (s : String) : List Char := s.toList.rdropWhile (· = '=')

/-- The low bits of the last digit that are not part of a byte. -/
def unusedBits (l : List Char) : Nat :=
  match l.getLast? with
  | none => 0
  | some ch => b64Alphabet.idxOf ch %
      (if l.length % 4 = 2 then 16 else if l.length % 4 = 3 then 4 else 1)

/-- Only digits of the URL-safe alphabet, and no bit that is not used. -/
def CanonicalText (s : String) : Prop :=
  (∀ ch ∈ unpadded s, ch ∈ b64Alphabet) ∧ unusedBits (unpadded s) = 0

instance (s : String) : Decidable (CanonicalText s) :=
  inferInstanceAs (Decidable ((∀ ch ∈ unpadded s, ch ∈ b64Alphabet) ∧ _))

/-! ## Digits and their values -/

theorem b64Digit_index : ∀ v : Fin 64,
    b64Digit v ∈ b64Alphabet ∧ b64Alphabet.idxOf (b64Digit v) = v.val := by decide +kernel

theorem digit_of_mem {ch : Char} (h : ch ∈ b64Alphabet) : ∃ v, v < 64 ∧ ch = b64Digit v := by
  obtain ⟨v, hv, rfl⟩ := List.mem_iff_getElem.mp h
  have hlen : b64Alphabet.length = 64 := by decide
  refine ⟨v, by omega, ?_⟩
  rw [b64Digit, List.getD_eq_getElem _ _ hv]

/-- The values of a string of digits. -/
theorem values_of_digits {l : List Char} (h : ∀ ch ∈ l, ch ∈ b64Alphabet) :
    ∃ vs : List Nat, (∀ v ∈ vs, v < 64) ∧ l = vs.map b64Digit := by
  induction l with
  | nil => exact ⟨[], by simp, rfl⟩
  | cons ch l ih =>
      obtain ⟨v, hv, rfl⟩ := digit_of_mem (h ch List.mem_cons_self)
      obtain ⟨vs, hvs, rfl⟩ := ih fun ch hch => h ch (List.mem_cons_of_mem _ hch)
      exact ⟨v :: vs, by simpa using ⟨hv, hvs⟩, rfl⟩

theorem unusedBits_quad (c₁ c₂ c₃ c₄ : Char) (l : List Char) :
    unusedBits (c₁ :: c₂ :: c₃ :: c₄ :: l) = unusedBits l := by
  have hlen : (c₁ :: c₂ :: c₃ :: c₄ :: l).length % 4 = l.length % 4 := by
    simp only [List.length_cons]
    omega
  unfold unusedBits
  rw [hlen]
  cases l with
  | nil => simp [Nat.mod_one]
  | cons ch l => simp [List.getLast?_cons_cons]

/-! ## Every encoding is canonical -/

theorem b64Digits_canonical (b : Bytes) :
    (∀ ch ∈ b64Digits b, ch ∈ b64Alphabet) ∧ unusedBits (b64Digits b) = 0 := by
  induction b using urlsafeB64encode.induct with
  | case1 => exact ⟨by simp [b64Digits], rfl⟩
  | case2 x =>
      have hx := x.toNat_lt
      have h₁ := b64Digit_index ⟨x.toNat / 4, by omega⟩
      have h₂ := b64Digit_index ⟨x.toNat % 4 * 16, by omega⟩
      refine ⟨by simp [b64Digits, h₁.1, h₂.1], ?_⟩
      simp [b64Digits, unusedBits, h₂.2]
  | case3 x y =>
      have hx := x.toNat_lt
      have hy := y.toNat_lt
      have h₁ := b64Digit_index ⟨x.toNat / 4, by omega⟩
      have h₂ := b64Digit_index ⟨x.toNat % 4 * 16 + y.toNat / 16, by omega⟩
      have h₃ := b64Digit_index ⟨y.toNat % 16 * 4, by omega⟩
      refine ⟨by simp [b64Digits, h₁.1, h₂.1, h₃.1], ?_⟩
      simp [b64Digits, unusedBits, h₃.2]
  | case4 x y z rest ih =>
      have hx := x.toNat_lt
      have hy := y.toNat_lt
      have hz := z.toNat_lt
      have h₁ := b64Digit_index ⟨x.toNat / 4, by omega⟩
      have h₂ := b64Digit_index ⟨x.toNat % 4 * 16 + y.toNat / 16, by omega⟩
      have h₃ := b64Digit_index ⟨y.toNat % 16 * 4 + z.toNat / 64, by omega⟩
      have h₄ := b64Digit_index ⟨z.toNat % 64, by omega⟩
      refine ⟨?_, ?_⟩
      · simp only [b64Digits, List.forall_mem_cons]
        exact ⟨h₁.1, h₂.1, h₃.1, h₄.1, ih.1⟩
      · rw [b64Digits, unusedBits_quad]
        exact ih.2

/-! ## A string of digits, read -/

/-- The bytes of some digits, without the bits that are left over. -/
def b64Bytes : List Nat → Bytes
  | v :: w :: x :: y :: rest =>
      UInt8.ofNat (v * 4 + w / 16) :: UInt8.ofNat (w % 16 * 16 + x / 4) ::
      UInt8.ofNat (x % 4 * 64 + y) :: b64Bytes rest
  | [v, w, x] => [UInt8.ofNat (v * 4 + w / 16), UInt8.ofNat (w % 16 * 16 + x / 4)]
  | [v, w] => [UInt8.ofNat (v * 4 + w / 16)]
  | _ => []

/-- What is no quad, no triple and no pair has at most one digit. -/
theorem short_values {vs : List Nat}
    (h₄ : ∀ v w x y rest, vs = v :: w :: x :: y :: rest → False)
    (h₃ : ∀ v w x, vs = [v, w, x] → False) (h₂ : ∀ v w, vs = [v, w] → False) :
    vs = [] ∨ ∃ v, vs = [v] := by
  cases vs with
  | nil => exact Or.inl rfl
  | cons v vs =>
      cases vs with
      | nil => exact Or.inr ⟨v, rfl⟩
      | cons w vs =>
          cases vs with
          | nil => exact absurd rfl (h₂ v w)
          | cons x vs =>
              cases vs with
              | nil => exact absurd rfl (h₃ v w x)
              | cons y vs => exact absurd rfl (h₄ v w x y vs)

theorem a2bLoop_pads {quadPos leftchar pads m : Nat} {out b : Bytes}
    (h : a2bLoop (List.replicate m '=') quadPos leftchar pads out = .ok b) :
    b = out ∧ quadPos ≠ 1 := by
  induction m generalizing pads with
  | zero =>
      cases quadPos with
      | zero =>
          cases h
          exact ⟨rfl, by decide⟩
      | succ q => cases q <;> cases h
  | succ m ih =>
      rw [List.replicate_succ, a2bLoop, if_pos rfl] at h
      split at h
      · next hq =>
          split at h
          · cases h
            exact ⟨rfl, by omega⟩
          · exact ih h
      · exact ih h

/-- The digits are read in quads, and the padding behind them adds nothing. -/
theorem a2bLoop_values {leftchar pads m : Nat} {out b : Bytes} {vs : List Nat}
    (hvs : ∀ v ∈ vs, v < 64)
    (h : a2bLoop ((vs.map b64Digit).map urlsafeTranslate ++ List.replicate m '=') 0 leftchar pads
      out = .ok b) :
    b = out ++ b64Bytes vs ∧ vs.length % 4 ≠ 1 := by
  induction vs using b64Bytes.induct generalizing leftchar pads out with
  | case1 v w x y rest ih =>
      simp only [List.forall_mem_cons] at hvs
      obtain ⟨hv, hw, hx, hy, hrest⟩ := hvs
      simp only [List.map_cons, List.cons_append, a2bLoop_digit _ _ _ _ hv,
        a2bLoop_digit _ _ _ _ hw, a2bLoop_digit _ _ _ _ hx, a2bLoop_digit _ _ _ _ hy] at h
      obtain ⟨rfl, hlen⟩ := ih hrest h
      refine ⟨by simp [b64Bytes], ?_⟩
      simp only [List.length_cons]
      omega
  | case2 v w x =>
      simp only [List.forall_mem_cons] at hvs
      obtain ⟨hv, hw, hx, -⟩ := hvs
      simp only [List.map_cons, List.map_nil, List.nil_append, List.cons_append,
        a2bLoop_digit _ _ _ _ hv, a2bLoop_digit _ _ _ _ hw, a2bLoop_digit _ _ _ _ hx] at h
      obtain ⟨rfl, -⟩ := a2bLoop_pads h
      exact ⟨by simp [b64Bytes], by simp⟩
  | case3 v w =>
      simp only [List.forall_mem_cons] at hvs
      obtain ⟨hv, hw, -⟩ := hvs
      simp only [List.map_cons, List.map_nil, List.nil_append, List.cons_append,
        a2bLoop_digit _ _ _ _ hv, a2bLoop_digit _ _ _ _ hw] at h
      obtain ⟨rfl, -⟩ := a2bLoop_pads h
      exact ⟨by simp [b64Bytes], by simp⟩
  | case4 vs h₄ h₃ h₂ =>
      obtain rfl | ⟨v, rfl⟩ := short_values h₄ h₃ h₂
      · obtain ⟨rfl, -⟩ := a2bLoop_pads (by simpa using h)
        exact ⟨by simp [b64Bytes], by decide⟩
      · -- one digit alone leaves the loop in the first place of a quad
        simp only [List.forall_mem_cons] at hvs
        simp only [List.map_cons, List.map_nil, List.nil_append, List.cons_append,
          a2bLoop_digit _ _ _ _ hvs.1] at h
        exact absurd rfl (a2bLoop_pads h).2

theorem unusedBits_values (vs : List Nat) (v : Nat) (hv : v < 64) :
    unusedBits ((vs ++ [v]).map b64Digit)
      = v % (if (vs.length + 1) % 4 = 2 then 16 else if (vs.length + 1) % 4 = 3 then 4 else 1) := by
  have hindex := (b64Digit_index ⟨v, hv⟩).2
  simp [unusedBits, hindex]

theorem firstByte_toNat {v w : Nat} (hv : v < 64) (hw : w < 64) :
    (UInt8.ofNat (v * 4 + w / 16)).toNat = v * 4 + w / 16 := by
  rw [UInt8.toNat_ofNat']
  omega

theorem secondByte_toNat {w x : Nat} (hx : x < 64) :
    (UInt8.ofNat (w % 16 * 16 + x / 4)).toNat = w % 16 * 16 + x / 4 := by
  rw [UInt8.toNat_ofNat']
  omega

/-- The bytes of canonical digits are written as those digits. -/
theorem b64Digits_b64Bytes {vs : List Nat} (hvs : ∀ v ∈ vs, v < 64) (hlen : vs.length % 4 ≠ 1)
    (hunused : unusedBits (vs.map b64Digit) = 0) : b64Digits (b64Bytes vs) = vs.map b64Digit := by
  induction vs using b64Bytes.induct with
  | case1 v w x y rest ih =>
      simp only [List.forall_mem_cons] at hvs
      obtain ⟨hv, hw, hx, hy, hrest⟩ := hvs
      simp only [List.length_cons] at hlen
      simp only [List.map_cons] at hunused
      rw [unusedBits_quad] at hunused
      have hrest' := ih hrest (by omega) hunused
      have h₁ := firstByte_toNat hv hw
      have h₂ := secondByte_toNat (w := w) hx
      have h₃ : (UInt8.ofNat (x % 4 * 64 + y)).toNat = x % 4 * 64 + y := by
        rw [UInt8.toNat_ofNat']
        omega
      rw [b64Bytes, b64Digits, hrest', h₁, h₂, h₃]
      simp only [List.map_cons, List.cons.injEq, and_true]
      refine ⟨?_, ?_, ?_, ?_⟩ <;> congr 1 <;> omega
  | case2 v w x =>
      simp only [List.forall_mem_cons] at hvs
      obtain ⟨hv, hw, hx, -⟩ := hvs
      have hx₀ : x % 4 = 0 := by
        have hbits := unusedBits_values [v, w] x hx
        simp only [List.cons_append, List.nil_append, hunused, List.length_cons,
          List.length_nil] at hbits
        exact hbits.symm
      have h₁ := firstByte_toNat hv hw
      have h₂ := secondByte_toNat (w := w) hx
      rw [b64Bytes, b64Digits, h₁, h₂]
      simp only [List.map_cons, List.map_nil, List.cons.injEq, and_true]
      refine ⟨?_, ?_, ?_⟩ <;> congr 1 <;> omega
  | case3 v w =>
      simp only [List.forall_mem_cons] at hvs
      obtain ⟨hv, hw, -⟩ := hvs
      have hw₀ : w % 16 = 0 := by
        have hbits := unusedBits_values [v] w hw
        simp only [List.cons_append, List.nil_append, hunused, List.length_cons,
          List.length_nil] at hbits
        exact hbits.symm
      have h₁ := firstByte_toNat hv hw
      rw [b64Bytes, b64Digits, h₁]
      simp only [List.map_cons, List.map_nil, List.cons.injEq, and_true]
      refine ⟨?_, ?_⟩ <;> congr 1 <;> omega
  | case4 vs h₄ h₃ h₂ =>
      obtain rfl | ⟨v, rfl⟩ := short_values h₄ h₃ h₂
      · rfl
      · exact absurd rfl hlen

/-! ## Strings -/

theorem unpadded_append (s : String) : ∃ n, s.toList = unpadded s ++ List.replicate n '=' := by
  refine ⟨(s.toList.rtakeWhile (· = '=')).length, ?_⟩
  have hpad : s.toList.rtakeWhile (· = '=')
      = List.replicate (s.toList.rtakeWhile (· = '=')).length '=' := by
    refine List.eq_replicate_iff.mpr ⟨rfl, fun ch hch => ?_⟩
    simpa using List.mem_rtakeWhile_imp hch
  rw [unpadded, ← hpad, List.rdropWhile_append_rtakeWhile]

/-- What decodes is the encoding of the bytes exactly when it is canonical. -/
theorem reencodes_iff {s : String} {b : Bytes} (h : b64Decode s = .ok b) :
    (b64Encode b).toList = unpadded s ↔ CanonicalText s := by
  rw [b64Encode_toList]
  constructor
  · intro hsame
    have hcanonical := b64Digits_canonical b
    rwa [hsame] at hcanonical
  · rintro ⟨hdigits, hunused⟩
    obtain ⟨vs, hvs, hvalues⟩ := values_of_digits hdigits
    obtain ⟨n, hs⟩ := unpadded_append s
    rw [b64Decode, hs, hvalues, urlsafeB64decode] at h
    split at h
    · rw [List.append_assoc, List.replicate_append_replicate, List.map_append,
        List.map_replicate] at h
      obtain ⟨rfl, hlen⟩ := a2bLoop_values hvs h
      rw [hvalues] at hunused
      rw [List.nil_append, hvalues]
      exact b64Digits_b64Bytes hvs hlen hunused
    · cases h

/-! ## Wire messages -/

/-- The three base64 strings of a wire message. -/
def wireStrings : Json → Option (List String)
  | .dict data =>
      match Json.get data "header", Json.get data "ciphertext", Json.get data "nonce" with
      | .dict header, .str ciphertext, .str nonce =>
          match Json.get header "dh" with
          | .str dh => some [dh, ciphertext, nonce]
          | _ => none
      | _, _, _ => none
  | _ => none

/-- Encoding what was parsed gives the strings back, up to padding at their
end. -/
def StringsGivenBack (v : Json) (msg : RatchetWireMessage Bytes) : Prop :=
  (wireStrings (wireMessageToDict msg)).map (·.map unpadded)
    = (wireStrings v).map (·.map unpadded)

/-- All three strings are canonical. -/
def CanonicalStrings (v : Json) : Prop :=
  ∀ strings, wireStrings v = some strings → ∀ s ∈ strings, CanonicalText s

theorem unpadded_b64Encode (b : Bytes) : unpadded (b64Encode b) = (b64Encode b).toList := by
  rw [unpadded, b64Encode_toList]
  have hpad := rdropWhile_pad (b64Digits_spec b).2.1 0
  rwa [List.replicate_zero, List.append_nil] at hpad

/-- The parser gives the strings of an accepted dict back exactly when they are
canonical. -/
theorem strings_given_back_iff {v : Json} {msg : RatchetWireMessage Bytes}
    (h : wireMessageFromDict v = .ok msg) : StringsGivenBack v msg ↔ CanonicalStrings v := by
  obtain ⟨data, header, dh, ct, nonce, rfl, hread⟩ := wireMessageFromDict_ok h
  have hstrings : wireStrings (.dict data) = some [dh, ct, nonce] := by
    simp only [wireStrings, hread.headerAt, hread.ciphertextAt, hread.nonceAt, hread.dhAt]
  have hencoded : wireStrings (wireMessageToDict msg)
      = some [b64Encode msg.header.dh, b64Encode msg.ciphertext, b64Encode msg.nonce] := rfl
  have hdh := reencodes_iff hread.dhBytes
  have hct := reencodes_iff hread.ciphertextBytes
  have hnonce := reencodes_iff hread.nonceBytes
  have hback : StringsGivenBack (.dict data) msg ↔
      CanonicalText dh ∧ CanonicalText ct ∧ CanonicalText nonce := by
    simp only [StringsGivenBack, hstrings, hencoded, Option.map_some, Option.some.injEq,
      List.map_cons, List.map_nil, List.cons.injEq, and_true, unpadded_b64Encode, hdh, hct, hnonce]
  rw [hback, CanonicalStrings, hstrings]
  simp

/-- A message of zeros. -/
def zeroWire : RatchetWireMessage Bytes where
  header := { dh := List.replicate 32 0, n := 0, pn := 0 }
  ciphertext := List.replicate 16 0
  nonce := List.replicate 12 0

theorem strings_given_back_zeros :
    wireMessageFromDict (wireMessageToDict zeroWire) = .ok zeroWire ∧
      CanonicalStrings (wireMessageToDict zeroWire) := by
  have hparsed : wireMessageFromDict (wireMessageToDict zeroWire) = .ok zeroWire :=
    wireMessageFromDict_inBounds
      ⟨by decide, by decide, by decide, by decide, by decide⟩
  exact ⟨hparsed, (strings_given_back_iff hparsed).mp rfl⟩

/-- The same message, with a bit set behind the key and four characters of no
alphabet in the ciphertext. -/
def looseWire : Json :=
  .dict [
    ("header", .dict [
      ("dh", .str "AAAAAAAAAAAAAAAAAAAAAAAAAAAAAAAAAAAAAAAAAAB"),
      ("n", .int 0),
      ("pn", .int 0)]),
    ("ciphertext", .str "AAAAAAAAAAAA!!!!AAAAAAAAAA"),
    ("nonce", .str "AAAAAAAAAAAAAAAA")]

theorem loose_wire_accepted :
    wireMessageFromDict looseWire = .ok zeroWire ∧ ¬ StringsGivenBack looseWire zeroWire := by
  refine ⟨by rfl, ?_⟩
  have hback : (wireStrings (wireMessageToDict zeroWire)).map (·.map unpadded)
      ≠ (wireStrings looseWire).map (·.map unpadded) := by
    decide +kernel
  exact hback

end GhostChat.Proofs
