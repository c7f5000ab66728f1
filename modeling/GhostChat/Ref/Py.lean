import Mathlib.Data.Int.Bitwise
import Mathlib.Tactic.Common

/-!
# The Python the client is written in

Byte strings, the exceptions the code raises or catches by name, and the
three integer encodings it uses. Everything a network peer supplies as an
integer is an `Int` here: the source masks with `& 0xFF` after an arithmetic
shift, which is defined on negative integers too, and where a value is
checked to be non-negative the model shows the check.
-/

namespace GhostChat.Ref

/-- `bytes`. -/
abbrev Bytes := List UInt8

/-- The exceptions of the source, by class. The message is what `str(e)`
gives where the source raises it itself, and a fixed text where a library
does. -/
inductive Exn where
  -- client/crypto/ratchet_errors.py
  | duplicateMessage (msg : String)
  | skippedKeyNotFound (msg : String)
  | skippedKeyStorageLimit (msg : String)
  | invalidHeader (msg : String)
  | decryption (msg : String)
  | corruptedSession (msg : String)
  | sessionRollback (msg : String)
  | skipDistanceExceeded (msg : String)
  | x3dhInitialization (msg : String)
  | oneTimePreKeyReuse (msg : String)
  | signedPreKeyVerification (msg : String)
  | algorithmSuiteMismatch (msg : String)
  -- group/errors.py
  | epochMismatch (msg : String)
  | membership (msg : String)
  | replayedGroupMessage (msg : String)
  | invalidGroupState (msg : String)
  -- crypto/errors.py
  | invalidSignature (msg : String)
  | invalidKeyFormat (msg : String)
  | oneTimePreKeyExhausted (msg : String)
  -- the language and its libraries
  | valueError (msg : String)
  | keyError (msg : String)
  | typeError (msg : String)
  | indexError (msg : String)
  | overflowError (msg : String)
  | osError (msg : String)
  | runtimeError (msg : String)
  | jsonDecodeError (msg : String)
  | structError (msg : String)
  | attributeError (msg : String)
  | invalidTag
  deriving DecidableEq, Repr

/-- An ASCII byte-string literal. -/
def ascii (s : String) : Bytes := s.toList.map fun c => UInt8.ofNat c.toNat

/-- `(n >> shift) & 0xFF` as a byte. -/
def byteAt (n : Int) (shift : Nat) : UInt8 := UInt8.ofNat ((n >>> shift) % 256).toNat

/-- The four masked bytes `(n >> 24) & 0xFF, ..., n & 0xFF`, the big-endian
uint32 the source spells out wherever it encodes a counter. -/
def uint32be (n : Int) : Bytes :=
  [byteAt n 24, byteAt n 16, byteAt n 8, byteAt n 0]

/-- `n.to_bytes(width, "big")`, which raises when `n` does not fit. -/
def toBytesBig (n width : Nat) : Except Exn Bytes :=
  if n < 256 ^ width then
    .ok ((List.range width).map fun i => UInt8.ofNat (n / 256 ^ (width - 1 - i)))
  else .error (.overflowError "int too big to convert")

/-- The big-endian integer of some bytes. -/
def fromBytesBig (b : Bytes) : Nat := b.foldl (fun n x => n * 256 + x.toNat) 0

/-- The nonce of a message: the first twelve bytes of the key with the low
four bytes of the counter xored in from the end,
`for i in range(4): base[-1 - i] ^= (n >> (8 * i)) & 0xFF`. -/
def xorCounter (base : Bytes) (n : Nat) : Bytes :=
  (List.range 4).foldl
    (fun b i => b.modify (b.length - 1 - i) (· ^^^ UInt8.ofNat (n >>> (8 * i)))) base

/-! ## Counters survive their encoding modulo 2 ^ 32 -/

theorem byteAt_eq_iff {a b : Int} {k : Nat} :
    byteAt a k = byteAt b k ↔ a / 2 ^ k % 256 = b / 2 ^ k % 256 := by
  unfold byteAt
  rw [Int.shiftRight_eq_div_pow, Int.shiftRight_eq_div_pow]
  push_cast
  constructor
  · intro h
    have h' := congrArg UInt8.toNat h
    simp only [UInt8.toNat_ofNat'] at h'
    omega
  · intro h
    rw [h]

/-- Two counters encode alike exactly when they agree modulo `2 ^ 32`. -/
theorem uint32be_eq_iff {a b : Int} :
    uint32be a = uint32be b ↔ a % 2 ^ 32 = b % 2 ^ 32 := by
  simp only [uint32be, List.cons.injEq, and_true, byteAt_eq_iff]
  omega

@[simp] theorem uint32be_length (n : Int) : (uint32be n).length = 4 := rfl

theorem byteAt_natCast (n k : Nat) : (byteAt n k).toNat = n / 2 ^ k % 256 := by
  rw [byteAt, Int.shiftRight_eq_div_pow]
  have h : ((n : Int) / ((2 ^ k : Nat) : Int) % 256).toNat = n / 2 ^ k % 256 := by
    rw [← Int.natCast_ediv]
    omega
  rw [UInt8.toNat_ofNat', h]
  omega

theorem fromBytesBig_uint32be {n : Nat} (h : n < 2 ^ 32) : fromBytesBig (uint32be n) = n := by
  simp only [fromBytesBig, uint32be, List.foldl_cons, List.foldl_nil, byteAt_natCast]
  omega

end GhostChat.Ref
