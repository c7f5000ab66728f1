import GhostChat.Ref.Py
import GhostChat.Lib.Odict
import Mathlib.Data.List.DropRight

/-!
# Text forms: base64 and JSON values

Keys, ciphertexts and stored state travel as JSON with base64 strings in it.
Every module of the source has its own copy of the same two base64 helpers;
there is one pair here.

Decoding is the part with teeth. `base64.urlsafe_b64decode` translates `-`
and `_`, then calls `binascii.a2b_base64` without strict mode: characters
outside the alphabet are skipped, `+` and `/` are still digits, the first
complete padding ends the scan and whatever follows is ignored, and unused
bits are dropped. `a2bLoop` is that scan with its own variables.

A `str` is a Lean `String`, so a lone surrogate is not a value here. The code
only ever asks of such a string what it asks of any other string outside
ASCII.
-/

namespace GhostChat.Ref

open GhostChat.Lib

/-- `str(e)`. -/
def Exn.str : Exn → String
  | .duplicateMessage m | .skippedKeyNotFound m | .skippedKeyStorageLimit m
  | .invalidHeader m | .decryption m | .corruptedSession m | .sessionRollback m
  | .skipDistanceExceeded m | .x3dhInitialization m | .oneTimePreKeyReuse m
  | .signedPreKeyVerification m | .algorithmSuiteMismatch m | .epochMismatch m | .membership m
  | .replayedGroupMessage m | .invalidGroupState m | .invalidSignature m | .invalidKeyFormat m
  | .oneTimePreKeyExhausted m | .valueError m | .keyError m | .typeError m
  | .indexError m | .overflowError m | .osError m | .runtimeError m
  | .jsonDecodeError m | .structError m | .attributeError m => m
  | .invalidTag => ""

/-! ## Base64 -/

/-- The URL-safe alphabet. -/
def b64Alphabet : List Char :=
  "ABCDEFGHIJKLMNOPQRSTUVWXYZabcdefghijklmnopqrstuvwxyz0123456789-_".toList

def b64Digit (v : Nat) : Char := b64Alphabet.getD v 'A'

/-- `base64.urlsafe_b64encode(b).decode("ascii")`. -/
def urlsafeB64encode : Bytes → List Char
  | [] => []
  | [x] => [b64Digit (x.toNat / 4), b64Digit (x.toNat % 4 * 16), '=', '=']
  | [x, y] =>
      [b64Digit (x.toNat / 4), b64Digit (x.toNat % 4 * 16 + y.toNat / 16),
       b64Digit (y.toNat % 16 * 4), '=']
  | x :: y :: z :: rest =>
      b64Digit (x.toNat / 4) :: b64Digit (x.toNat % 4 * 16 + y.toNat / 16) ::
      b64Digit (y.toNat % 16 * 4 + z.toNat / 64) :: b64Digit (z.toNat % 64) ::
      urlsafeB64encode rest

/-- `b64_encode`: without the padding, `.rstrip("=")`. -/
def b64Encode (b : Bytes) : String :=
  String.ofList ((urlsafeB64encode b).rdropWhile (· = '='))

/-- The value of a base64 digit to `binascii`. -/
def b64Value (ch : Char) : Option Nat :=
  if 'A' ≤ ch ∧ ch ≤ 'Z' then some (ch.toNat - 65)
  else if 'a' ≤ ch ∧ ch ≤ 'z' then some (ch.toNat - 97 + 26)
  else if '0' ≤ ch ∧ ch ≤ '9' then some (ch.toNat - 48 + 52)
  else if ch = '+' then some 62
  else if ch = '/' then some 63
  else none

/-- The loop of `binascii.a2b_base64`, not in strict mode. -/
def a2bLoop : List Char → (quadPos leftchar pads : Nat) → (out : Bytes) →
    Except Exn Bytes
  | [], 0, _, _, out => .ok out
  | [], 1, _, _, out => .error (.valueError
      s!"Invalid base64-encoded string: number of data characters ({out.length / 3 * 4 + 1}) cannot be 1 more than a multiple of 4")
  | [], _, _, _, _ => .error (.valueError "Incorrect padding")
  | ch :: rest, quadPos, leftchar, pads, out =>
      if ch = '=' then
        if 2 ≤ quadPos then
          if 4 ≤ quadPos + (pads + 1) then .ok out
          else a2bLoop rest quadPos leftchar (pads + 1) out
        else a2bLoop rest quadPos leftchar pads out
      else match b64Value ch with
        | none => a2bLoop rest quadPos leftchar pads out
        | some v => match quadPos with
          | 0 => a2bLoop rest 1 v 0 out
          | 1 => a2bLoop rest 2 (v % 16) 0 (out ++ [UInt8.ofNat (leftchar * 4 + v / 16)])
          | 2 => a2bLoop rest 3 (v % 4) 0 (out ++ [UInt8.ofNat (leftchar * 16 + v / 4)])
          | _ => a2bLoop rest 0 0 0 (out ++ [UInt8.ofNat (leftchar * 64 + v)])

/-- `_urlsafe_decode_translation`. -/
def urlsafeTranslate (ch : Char) : Char :=
  if ch = '-' then '+' else if ch = '_' then '/' else ch

/-- `base64.urlsafe_b64decode(s.encode("ascii"))`. -/
def urlsafeB64decode (s : List Char) : Except Exn Bytes :=
  if s.all (·.toNat < 128) then a2bLoop (s.map urlsafeTranslate) 0 0 0 []
  else .error (.valueError "'ascii' codec can't encode characters: ordinal not in range(128)")

/-- `b64_decode`: with the padding put back, `"=" * (-len(s) % 4)`. -/
def b64Decode (s : String) : Except Exn Bytes :=
  urlsafeB64decode (s.toList ++ List.replicate ((4 - s.toList.length % 4) % 4) '=')

/-! ## JSON values -/

/-- A `float`. A finite one is a rational number. -/
inductive PyFloat where
  | finite (x : Rat)
  | infinite (negative : Bool)
  | nan
  deriving DecidableEq

/-- What `json.loads` returns. -/
inductive Json where
  | null
  | bool (b : Bool)
  | int (n : Int)
  | float (value : PyFloat)
  | str (s : String)
  | list (items : List Json)
  | dict (fields : List (String × Json))

mutual

/-- `v == w` for two values of one type all the way down. -/
def Json.same : Json → Json → Bool
  | .null, .null => true
  | .bool a, .bool b => a == b
  | .int a, .int b => a == b
  | .float a, .float b => a == b
  | .str a, .str b => a == b
  | .list a, .list b => Json.sameItems a b
  | .dict a, .dict b => Json.sameFields a b
  | _, _ => false

def Json.sameItems : List Json → List Json → Bool
  | [], [] => true
  | x :: xs, y :: ys => x.same y && Json.sameItems xs ys
  | _, _ => false

def Json.sameFields : List (String × Json) → List (String × Json) → Bool
  | [], [] => true
  | (k, x) :: xs, (l, y) :: ys => k == l && x.same y && Json.sameFields xs ys
  | _, _ => false

end

mutual

theorem Json.same_iff (v w : Json) : v.same w = true ↔ v = w := by
  cases v with
  | list xs =>
      cases w with
      | list ys => simp [Json.same, Json.sameItems_iff xs ys]
      | _ => simp [Json.same]
  | dict xs =>
      cases w with
      | dict ys => simp [Json.same, Json.sameFields_iff xs ys]
      | _ => simp [Json.same]
  | _ => cases w <;> simp [Json.same]

theorem Json.sameItems_iff (xs ys : List Json) : Json.sameItems xs ys = true ↔ xs = ys := by
  cases xs with
  | nil => cases ys <;> simp [Json.sameItems]
  | cons x xs =>
      cases ys with
      | nil => simp [Json.sameItems]
      | cons y ys => simp [Json.sameItems, Json.same_iff x y, Json.sameItems_iff xs ys]

theorem Json.sameFields_iff (xs ys : List (String × Json)) :
    Json.sameFields xs ys = true ↔ xs = ys := by
  cases xs with
  | nil => cases ys <;> simp [Json.sameFields]
  | cons x xs =>
      obtain ⟨k, v⟩ := x
      cases ys with
      | nil => simp [Json.sameFields]
      | cons y ys =>
          obtain ⟨l, w⟩ := y
          simp [Json.sameFields, Json.same_iff v w, Json.sameFields_iff xs ys]

end

instance : DecidableEq Json := fun v w => decidable_of_iff (v.same w = true) (v.same_iff w)

/-- `d.get(key)`: a missing key and a `null` are both `None`. -/
def Json.get (fields : List (String × Json)) (key : String) : Json :=
  (Odict.get? fields key).getD .null

/-- `v == n`: Python compares `True` and `1.0` equal to `1`. -/
def Json.eqInt : Json → Int → Bool
  | .int m, n => m == n
  | .bool b, n => (if b then 1 else 0) == n
  | .float (.finite x), n => x == (n : Rat)
  | _, _ => false

/-! ## Integers from text -/

/-- What `str.isspace` and `str.strip` take for a blank. -/
def isSpace (ch : Char) : Bool :=
  let n := ch.toNat
  decide (9 ≤ n ∧ n ≤ 13) || decide (28 ≤ n ∧ n ≤ 32) || n == 133 || n == 160 || n == 5760
    || decide (8192 ≤ n ∧ n ≤ 8202) || n == 8232 || n == 8233 || n == 8239 || n == 8287
    || n == 12288

/-- The digit zero of every script that has decimal digits. The other nine
follow it. -/
def decimalZeros : List Nat := [
  0x30, 0x660, 0x6F0, 0x7C0, 0x966, 0x9E6, 0xA66, 0xAE6, 0xB66, 0xBE6, 0xC66, 0xCE6, 0xD66,
  0xDE6, 0xE50, 0xED0, 0xF20, 0x1040, 0x1090, 0x17E0, 0x1810, 0x1946, 0x19D0, 0x1A80, 0x1A90,
  0x1B50, 0x1BB0, 0x1C40, 0x1C50, 0xA620, 0xA8D0, 0xA900, 0xA9D0, 0xA9F0, 0xAA50, 0xABF0,
  0xFF10, 0x104A0, 0x10D30, 0x11066, 0x110F0, 0x11136, 0x111D0, 0x112F0, 0x11450, 0x114D0,
  0x11650, 0x116C0, 0x11730, 0x118E0, 0x11950, 0x11C50, 0x11D50, 0x11DA0, 0x16A60, 0x16AC0,
  0x16B50, 0x1D7CE, 0x1D7D8, 0x1D7E2, 0x1D7EC, 0x1D7F6, 0x1E140, 0x1E2F0, 0x1E950, 0x1FBF0]

def decimalDigit (ch : Char) : Option Nat :=
  (decimalZeros.find? fun z => decide (z ≤ ch.toNat ∧ ch.toNat < z + 10)).map (ch.toNat - ·)

/-- What `int` takes off both ends: of the blanks below 127 only these six. -/
def isIntSpace (ch : Char) : Bool :=
  if ch.toNat < 127 then decide (9 ≤ ch.toNat ∧ ch.toNat ≤ 13) || ch == ' ' else isSpace ch

/-- The digits of an `int` literal: at least one, with single underscores
between them. -/
def intDigits : List Char → Option (List Nat)
  | [] => none
  | [ch] => (decimalDigit ch).map ([·])
  | ch :: '_' :: rest => do
      let d ← decimalDigit ch
      let ds ← intDigits rest
      return d :: ds
  | ch :: rest => do
      let d ← decimalDigit ch
      let ds ← intDigits rest
      return d :: ds

/-- `int(s)`. The interpreter refuses more than 4300 digits. -/
def intOfStr (s : String) : Except Exn Int :=
  let body := (s.toList.dropWhile isIntSpace).rdropWhile isIntSpace
  let (negative, body) := match body with
    | '-' :: rest => (true, rest)
    | '+' :: rest => (false, rest)
    | rest => (false, rest)
  match intDigits body with
  | none => .error (.valueError "invalid literal for int() with base 10")
  | some ds =>
      if 4300 < ds.length then .error (.valueError "Exceeds the limit (4300 digits)")
      else
        let n : Int := ds.foldl (fun n d => n * 10 + d) 0
        .ok (if negative then -n else n)

/-- `int(v)`. -/
def Json.toInt : Json → Except Exn Int
  | .int n => .ok n
  | .bool b => .ok (if b then 1 else 0)
  | .float (.finite x) => .ok (Int.tdiv x.num x.den)
  | .float (.infinite _) => .error (.overflowError "cannot convert float infinity to integer")
  | .float .nan => .error (.valueError "cannot convert float NaN to integer")
  | .str s => intOfStr s
  | _ => .error (.typeError "int() argument must be a string or a real number")

/-! ## What was encoded decodes -/

/-- The digits of a byte string, with no padding. -/
def b64Digits : Bytes → List Char
  | [] => []
  | [x] => [b64Digit (x.toNat / 4), b64Digit (x.toNat % 4 * 16)]
  | [x, y] =>
      [b64Digit (x.toNat / 4), b64Digit (x.toNat % 4 * 16 + y.toNat / 16),
       b64Digit (y.toNat % 16 * 4)]
  | x :: y :: z :: rest =>
      b64Digit (x.toNat / 4) :: b64Digit (x.toNat % 4 * 16 + y.toNat / 16) ::
      b64Digit (y.toNat % 16 * 4 + z.toNat / 64) :: b64Digit (z.toNat % 64) ::
      b64Digits rest

theorem b64Digit_table : ∀ v : Fin 64,
    b64Digit v ≠ '=' ∧ urlsafeTranslate (b64Digit v) ≠ '=' ∧
    b64Value (urlsafeTranslate (b64Digit v)) = some v.val ∧
    (b64Digit v).toNat < 128 := by decide +kernel

section Digits

variable {v : Nat} (rest : List Char) (leftchar pads : Nat) (out : Bytes)

theorem a2bLoop_digit (h : v < 64) (quadPos : Nat) :
    a2bLoop (urlsafeTranslate (b64Digit v) :: rest) quadPos leftchar pads out =
      match quadPos with
      | 0 => a2bLoop rest 1 v 0 out
      | 1 => a2bLoop rest 2 (v % 16) 0 (out ++ [UInt8.ofNat (leftchar * 4 + v / 16)])
      | 2 => a2bLoop rest 3 (v % 4) 0 (out ++ [UInt8.ofNat (leftchar * 16 + v / 4)])
      | _ => a2bLoop rest 0 0 0 (out ++ [UInt8.ofNat (leftchar * 64 + v)]) := by
  obtain ⟨-, hpad, hval, -⟩ := b64Digit_table ⟨v, h⟩
  rw [a2bLoop, if_neg hpad, hval]

theorem a2bLoop_first (h : v < 64) :
    a2bLoop (urlsafeTranslate (b64Digit v) :: rest) 0 leftchar pads out
      = a2bLoop rest 1 v 0 out := a2bLoop_digit rest leftchar pads out h 0

/-- The second, third and fourth digit of a quad each complete a byte. -/
theorem a2bLoop_second (h : v < 64) {x : UInt8} (hx : leftchar * 4 + v / 16 = x.toNat) :
    a2bLoop (urlsafeTranslate (b64Digit v) :: rest) 1 leftchar pads out
      = a2bLoop rest 2 (v % 16) 0 (out ++ [x]) := by
  rw [a2bLoop_digit rest leftchar pads out h 1]
  simp only [hx, UInt8.ofNat_toNat]

theorem a2bLoop_third (h : v < 64) {x : UInt8} (hx : leftchar * 16 + v / 4 = x.toNat) :
    a2bLoop (urlsafeTranslate (b64Digit v) :: rest) 2 leftchar pads out
      = a2bLoop rest 3 (v % 4) 0 (out ++ [x]) := by
  rw [a2bLoop_digit rest leftchar pads out h 2]
  simp only [hx, UInt8.ofNat_toNat]

theorem a2bLoop_fourth (h : v < 64) {x : UInt8} (hx : leftchar * 64 + v = x.toNat) :
    a2bLoop (urlsafeTranslate (b64Digit v) :: rest) 3 leftchar pads out
      = a2bLoop rest 0 0 0 (out ++ [x]) := by
  rw [a2bLoop_digit rest leftchar pads out h 3]
  simp only [hx, UInt8.ofNat_toNat]

end Digits

theorem a2bLoop_encoded (b out : Bytes) :
    a2bLoop ((urlsafeB64encode b).map urlsafeTranslate) 0 0 0 out = .ok (out ++ b) := by
  have hpad : urlsafeTranslate '=' = '=' := rfl
  induction b using urlsafeB64encode.induct generalizing out with
  | case1 => simp [urlsafeB64encode, a2bLoop]
  | case2 x =>
      have hx := x.toNat_lt
      rw [urlsafeB64encode, List.map_cons, List.map_cons, a2bLoop_first _ _ _ _ (by omega),
        a2bLoop_second _ _ _ _ (by omega) (x := x) (by omega)]
      simp [a2bLoop, hpad]
  | case3 x y =>
      have hx := x.toNat_lt
      have hy := y.toNat_lt
      rw [urlsafeB64encode, List.map_cons, List.map_cons, List.map_cons,
        a2bLoop_first _ _ _ _ (by omega),
        a2bLoop_second _ _ _ _ (by omega) (x := x) (by omega),
        a2bLoop_third _ _ _ _ (by omega) (x := y) (by omega)]
      simp [a2bLoop, hpad]
  | case4 x y z rest ih =>
      have hx := x.toNat_lt
      have hy := y.toNat_lt
      have hz := z.toNat_lt
      rw [urlsafeB64encode, List.map_cons, List.map_cons, List.map_cons, List.map_cons,
        a2bLoop_first _ _ _ _ (by omega),
        a2bLoop_second _ _ _ _ (by omega) (x := x) (by omega),
        a2bLoop_third _ _ _ _ (by omega) (x := y) (by omega),
        a2bLoop_fourth _ _ _ _ (by omega) (x := z) (by omega), ih]
      simp

theorem b64Digits_spec (b : Bytes) :
    urlsafeB64encode b = b64Digits b ++
      List.replicate ((4 - (b64Digits b).length % 4) % 4) '=' ∧
    (∀ ch ∈ b64Digits b, ch ≠ '=') ∧
    ∀ ch ∈ urlsafeB64encode b, ch.toNat < 128 := by
  induction b using urlsafeB64encode.induct with
  | case1 => simp [urlsafeB64encode, b64Digits]
  | case2 x =>
      have hx := x.toNat_lt
      have h₁ := b64Digit_table ⟨x.toNat / 4, by omega⟩
      have h₂ := b64Digit_table ⟨x.toNat % 4 * 16, by omega⟩
      simp [urlsafeB64encode, b64Digits, h₁.1, h₂.1, h₁.2.2.2, h₂.2.2.2]
  | case3 x y =>
      have hx := x.toNat_lt
      have hy := y.toNat_lt
      have h₁ := b64Digit_table ⟨x.toNat / 4, by omega⟩
      have h₂ := b64Digit_table ⟨x.toNat % 4 * 16 + y.toNat / 16, by omega⟩
      have h₃ := b64Digit_table ⟨y.toNat % 16 * 4, by omega⟩
      simp [urlsafeB64encode, b64Digits, h₁.1, h₂.1, h₃.1, h₁.2.2.2, h₂.2.2.2, h₃.2.2.2]
  | case4 x y z rest ih =>
      have hx := x.toNat_lt
      have hy := y.toNat_lt
      have hz := z.toNat_lt
      have h₁ := b64Digit_table ⟨x.toNat / 4, by omega⟩
      have h₂ := b64Digit_table ⟨x.toNat % 4 * 16 + y.toNat / 16, by omega⟩
      have h₃ := b64Digit_table ⟨y.toNat % 16 * 4 + z.toNat / 64, by omega⟩
      have h₄ := b64Digit_table ⟨z.toNat % 64, by omega⟩
      obtain ⟨hshape, hpad, hascii⟩ := ih
      refine ⟨?_, ?_, ?_⟩
      · have hlen : (b64Digits (x :: y :: z :: rest)).length % 4
            = (b64Digits rest).length % 4 := by
          simp only [b64Digits, List.length_cons]
          omega
        rw [hlen, urlsafeB64encode, b64Digits, hshape]
        simp
      · intro ch hch
        simp only [b64Digits, List.mem_cons] at hch
        rcases hch with rfl | rfl | rfl | rfl | hch
        exacts [h₁.1, h₂.1, h₃.1, h₄.1, hpad ch hch]
      · intro ch hch
        simp only [urlsafeB64encode, List.mem_cons] at hch
        rcases hch with rfl | rfl | rfl | rfl | hch
        exacts [h₁.2.2.2, h₂.2.2.2, h₃.2.2.2, h₄.2.2.2, hascii ch hch]

theorem rdropWhile_pad {l : List Char} (h : ∀ ch ∈ l, ch ≠ '=') (n : Nat) :
    (l ++ List.replicate n '=').rdropWhile (· = '=') = l := by
  induction n with
  | zero =>
      rw [List.replicate_zero, List.append_nil, List.rdropWhile_eq_self_iff]
      intro hne
      simpa using h _ (List.getLast_mem hne)
  | succ n ih =>
      rw [List.replicate_succ', ← List.append_assoc,
        List.rdropWhile_concat_pos _ _ _ (by simp), ih]

theorem b64Encode_toList (b : Bytes) : (b64Encode b).toList = b64Digits b := by
  obtain ⟨hshape, hpad, -⟩ := b64Digits_spec b
  rw [b64Encode, String.toList_ofList, hshape, rdropWhile_pad hpad]

/-- `b64_decode(b64_encode(b)) == b`. -/
@[simp] theorem b64Decode_b64Encode (b : Bytes) : b64Decode (b64Encode b) = .ok b := by
  obtain ⟨hshape, -, hascii⟩ := b64Digits_spec b
  rw [b64Decode, b64Encode_toList, ← hshape, urlsafeB64decode, if_pos (by simpa using hascii),
    a2bLoop_encoded, List.nil_append]

end GhostChat.Ref
