import GhostChat.Lib.Parse
import GhostChat.Ref.SealedSender

/-!
# The package inside a sealed envelope

Three fields with a 16-bit length, two 32-bit numbers, one field with a 32-bit
length, and then the end. The parser reads them one after another and keeps
an offset; here that is a reader that hands on what is left.

Each field is read back as it was written, and whatever is read as a field is
how that field is written, so the same is true of the package. There is then
one byte string for each package, and the parser turns away all others.
-/

namespace GhostChat.Proofs

open GhostChat.Lib GhostChat.Lib.Effect GhostChat.Ref

/-- A package within the bounds of its format. -/
structure InnerInBounds (inner : InnerSenderPackage) : Prop where
  senderId : inner.senderId ≠ [] ∧ inner.senderId.length < 2 ^ 16
  sessionId : inner.sessionId ≠ [] ∧ inner.sessionId.length < 2 ^ 16
  dhPub : inner.dhPub ≠ [] ∧ inner.dhPub.length < 2 ^ 16
  pn : 0 ≤ inner.pn ∧ inner.pn < 2 ^ 32
  n : 0 ≤ inner.n ∧ inner.n < 2 ^ 32
  ciphertext : inner.ciphertext.length < 2 ^ 32

/-! ## The fields -/

theorem uint32be_fromBytesBig {b : Bytes} (hlen : b.length = 4) :
    fromBytesBig b < 2 ^ 32 ∧ uint32be (fromBytesBig b) = b := by
  obtain ⟨w, x, y, z, rfl⟩ := List.length_eq_four.mp hlen
  have hw := w.toNat_lt
  have hx := x.toNat_lt
  have hy := y.toNat_lt
  have hz := z.toNat_lt
  have hvalue : fromBytesBig [w, x, y, z]
      = ((w.toNat * 256 + x.toNat) * 256 + y.toNat) * 256 + z.toNat := by
    simp [fromBytesBig]
  refine ⟨by omega, ?_⟩
  simp only [uint32be, List.cons.injEq, and_true, ← UInt8.toNat_inj, byteAt_natCast, hvalue]
  omega

theorem readU16_pack {n : Nat} {b rest : Bytes} (h : packUint16 n = .ok b) :
    readU16 (b ++ rest) = .ok (n, rest) := by
  rw [packUint16] at h
  split at h
  · next hn =>
      cases h
      rw [readU16, if_neg (by simp)]
      simp only [List.cons_append, List.nil_append, List.take_succ_cons, List.take_zero,
        List.drop_succ_cons, List.drop_zero, fromBytesBig, List.foldl_cons, List.foldl_nil,
        UInt8.toNat_ofNat']
      congr 2
      omega
  · cases h

theorem readU16_reads : Reads readU16 fun n b => packUint16 n = .ok b where
  complete := fun rest h => readU16_pack h
  sound := by
    intro data n rest h
    rw [readU16] at h
    split at h
    · cases h
    · next hlen =>
        injection h with h
        injection h with hn hrest
        subst hn hrest
        refine ⟨data.take 2, ?_, (List.take_append_drop 2 data).symm⟩
        have htwo : (data.take 2).length = 2 := by
          rw [List.length_take]
          omega
        obtain ⟨x, y, htake⟩ := List.length_eq_two.mp htwo
        have hx := x.toNat_lt
        have hy := y.toNat_lt
        have hvalue : fromBytesBig [x, y] = x.toNat * 256 + y.toNat := by simp [fromBytesBig]
        rw [htake, hvalue, packUint16, if_pos (by omega)]
        simp only [Except.ok.injEq, List.cons.injEq, and_true, ← UInt8.toNat_inj,
          UInt8.toNat_ofNat']
        omega

theorem readU32_uint32be {n : Nat} {rest : Bytes} (h : n < 2 ^ 32) :
    readU32 (uint32be n ++ rest) = .ok (n, rest) := by
  have hlen : (uint32be (n : Int)).length = 4 := uint32be_length n
  rw [readU32, if_neg (by rw [List.length_append, hlen]; omega), List.take_left' hlen,
    List.drop_left' hlen, fromBytesBig_uint32be h]

theorem readU32_reads : Reads readU32 fun n b => n < 2 ^ 32 ∧ b = uint32be n where
  complete := by
    rintro n b rest ⟨hn, rfl⟩
    exact readU32_uint32be hn
  sound := by
    intro data n rest h
    rw [readU32] at h
    split at h
    · cases h
    · next hlen =>
        injection h with h
        injection h with hn hrest
        subst hn hrest
        obtain ⟨hlt, hback⟩ := uint32be_fromBytesBig (b := data.take 4)
          (by rw [List.length_take]; omega)
        exact ⟨data.take 4, ⟨hlt, hback.symm⟩, (List.take_append_drop 4 data).symm⟩

theorem readBytes_append (b rest : Bytes) : readBytes b.length (b ++ rest) = .ok (b, rest) := by
  rw [readBytes, if_neg (by rw [List.length_append]; omega), List.take_left, List.drop_left]

theorem readBytes_reads (n : Nat) : Reads (readBytes n) fun x b => x.length = n ∧ b = x where
  complete := by
    rintro x b rest ⟨rfl, rfl⟩
    exact readBytes_append b rest
  sound := by
    intro data x rest h
    rw [readBytes] at h
    split at h
    · cases h
    · next hlen =>
        injection h with h
        injection h with hx hrest
        subst hx hrest
        refine ⟨data.take n, ⟨?_, rfl⟩, (List.take_append_drop n data).symm⟩
        rw [List.length_take]
        omega

/-- A 16-bit length and as many bytes. -/
theorem field16_reads :
    Reads (fun data => readU16 data >>= fun p => readBytes p.1 p.2)
      fun x b => ∃ l, packUint16 x.length = .ok l ∧ b = l ++ x := by
  refine (readU16_reads.bind readBytes_reads).congr fun x b => ?_
  constructor
  · rintro ⟨n, l, _, hl, ⟨rfl, rfl⟩, rfl⟩
    exact ⟨l, hl, rfl⟩
  · rintro ⟨l, hl, rfl⟩
    exact ⟨x.length, l, x, hl, ⟨rfl, rfl⟩, rfl⟩

/-- A 32-bit length and as many bytes. -/
theorem field32_reads :
    Reads (fun data => readU32 data >>= fun p => readBytes p.1 p.2)
      fun x b => x.length < 2 ^ 32 ∧ b = uint32be x.length ++ x := by
  refine (readU32_reads.bind readBytes_reads).congr fun x b => ?_
  constructor
  · rintro ⟨n, l, _, ⟨hn, rfl⟩, ⟨rfl, rfl⟩, rfl⟩
    exact ⟨hn, rfl⟩
  · rintro ⟨hlen, rfl⟩
    exact ⟨x.length, uint32be x.length, x, ⟨hlen, rfl⟩, ⟨rfl, rfl⟩, rfl⟩

/-! ## The package -/

/-- The ten reads, without the checks behind them. -/
def readInner (data : Bytes) : Except Exn (InnerSenderPackage × Bytes) := do
  let (senderId, data) ← readU16 data >>= fun p => readBytes p.1 p.2
  let (sessionId, data) ← readU16 data >>= fun p => readBytes p.1 p.2
  let (dhPub, data) ← readU16 data >>= fun p => readBytes p.1 p.2
  let (pn, data) ← readU32 data
  let (n, data) ← readU32 data
  let (ciphertext, data) ← readU32 data >>= fun p => readBytes p.1 p.2
  return ({ senderId, sessionId, dhPub, pn, n, ciphertext }, data)

theorem parseInner_eq (data : Bytes) :
    parseInner data = readInner data >>= fun p => do
      if p.2 ≠ [] then throw (.valueError "Inner package has trailing bytes")
      if p.1.senderId.isEmpty ∨ p.1.sessionId.isEmpty ∨ p.1.dhPub.isEmpty then
        throw (.valueError "Inner package has empty required field")
      return p.1 := by
  simp only [parseInner, readInner, bind_assoc, pure_bind]

/-- The encoding of a package, field after field. -/
def Encodes (inner : InnerSenderPackage) (b : Bytes) : Prop :=
  (0 ≤ inner.pn ∧ inner.pn < 2 ^ 32) ∧ (0 ≤ inner.n ∧ inner.n < 2 ^ 32) ∧
    serializeInner inner = .ok b

theorem serializeInner_iff {inner : InnerSenderPackage} {b : Bytes} :
    serializeInner inner = .ok b ↔ ∃ l₁ l₂ l₃, packUint16 inner.senderId.length = .ok l₁ ∧
      packUint16 inner.sessionId.length = .ok l₂ ∧ packUint16 inner.dhPub.length = .ok l₃ ∧
      inner.ciphertext.length < 2 ^ 32 ∧
      b = l₁ ++ inner.senderId ++ (l₂ ++ inner.sessionId ++ (l₃ ++ inner.dhPub ++
        (uint32be inner.pn ++ (uint32be inner.n ++
          (uint32be inner.ciphertext.length ++ inner.ciphertext))))) := by
  constructor
  · intro h
    obtain ⟨l₁, h₁, h⟩ := except_bind_ok h
    obtain ⟨l₂, h₂, h⟩ := except_bind_ok h
    obtain ⟨l₃, h₃, h⟩ := except_bind_ok h
    obtain ⟨l₄, h₄, h⟩ := except_bind_ok h
    rw [packUint32] at h₄
    split at h₄
    · next hct =>
        cases h₄
        cases h
        exact ⟨l₁, l₂, l₃, h₁, h₂, h₃, hct, by simp only [List.append_assoc]⟩
    · cases h₄
  · rintro ⟨l₁, l₂, l₃, h₁, h₂, h₃, hct, rfl⟩
    simp only [serializeInner, h₁, h₂, h₃, packUint32, if_pos hct, except_ok_bind,
      List.append_assoc]
    rfl

theorem readInner_reads : Reads readInner Encodes := by
  have hreads := field16_reads.bind fun senderId => field16_reads.bind fun sessionId =>
    field16_reads.bind fun dhPub => readU32_reads.bind fun pn => readU32_reads.bind fun n =>
    field32_reads.bind fun ciphertext => Reads.pure (ε := Exn)
      (InnerSenderPackage.mk senderId sessionId dhPub pn n ciphertext)
  refine hreads.congr fun inner b => ?_
  constructor
  · rintro ⟨_, _, _, ⟨l₁, h₁, rfl⟩, ⟨_, _, _, ⟨l₂, h₂, rfl⟩, ⟨_, _, _, ⟨l₃, h₃, rfl⟩,
      ⟨pn, _, _, ⟨hpn, rfl⟩, ⟨n, _, _, ⟨hn, rfl⟩, ⟨_, _, _, ⟨hct, rfl⟩, ⟨rfl, rfl⟩, rfl⟩, rfl⟩,
      rfl⟩, rfl⟩, rfl⟩, rfl⟩
    have hpn' : (0 : Int) ≤ pn ∧ (pn : Int) < 2 ^ 32 := by omega
    have hn' : (0 : Int) ≤ n ∧ (n : Int) < 2 ^ 32 := by omega
    exact ⟨hpn', hn', serializeInner_iff.mpr
      ⟨l₁, l₂, l₃, h₁, h₂, h₃, hct, by rw [List.append_nil]⟩⟩
  · rintro ⟨hpn, hn, hser⟩
    obtain ⟨l₁, l₂, l₃, h₁, h₂, h₃, hct, rfl⟩ := serializeInner_iff.mp hser
    obtain ⟨pn, hpneq⟩ := Int.eq_ofNat_of_zero_le hpn.1
    obtain ⟨n, hneq⟩ := Int.eq_ofNat_of_zero_le hn.1
    have hpn' : pn < 2 ^ 32 := by omega
    have hn' : n < 2 ^ 32 := by omega
    refine ⟨_, _, _, ⟨l₁, h₁, rfl⟩, ⟨_, _, _, ⟨l₂, h₂, rfl⟩, ⟨_, _, _, ⟨l₃, h₃, rfl⟩,
      ⟨pn, _, _, ⟨hpn', rfl⟩, ⟨n, _, _, ⟨hn', rfl⟩, ⟨_, _, _, ⟨hct, rfl⟩, ⟨?_, rfl⟩, rfl⟩, rfl⟩,
      rfl⟩, rfl⟩, rfl⟩, ?_⟩
    · rw [← hpneq, ← hneq]
    · rw [hpneq, hneq, List.append_nil]

theorem packUint16_ok {n : Nat} {b : Bytes} (h : packUint16 n = .ok b) : n < 2 ^ 16 := by
  rw [packUint16] at h
  split at h
  · next hn => exact hn
  · cases h

theorem packUint16_fits {n : Nat} (h : n < 2 ^ 16) : ∃ b, packUint16 n = .ok b :=
  ⟨_, if_pos h⟩

/-- The three fields that must not be empty. -/
def Filled (inner : InnerSenderPackage) : Prop :=
  inner.senderId ≠ [] ∧ inner.sessionId ≠ [] ∧ inner.dhPub ≠ []

/-- A package is within its bounds when it can be encoded and nothing required
is empty. -/
theorem innerInBounds_iff {inner : InnerSenderPackage} :
    InnerInBounds inner ↔ Filled inner ∧ ∃ b, Encodes inner b := by
  constructor
  · intro h
    obtain ⟨l₁, h₁⟩ := packUint16_fits h.senderId.2
    obtain ⟨l₂, h₂⟩ := packUint16_fits h.sessionId.2
    obtain ⟨l₃, h₃⟩ := packUint16_fits h.dhPub.2
    exact ⟨⟨h.senderId.1, h.sessionId.1, h.dhPub.1⟩, _, h.pn, h.n,
      serializeInner_iff.mpr ⟨l₁, l₂, l₃, h₁, h₂, h₃, h.ciphertext, rfl⟩⟩
  · rintro ⟨⟨hsender, hsession, hdh⟩, b, hpn, hn, hser⟩
    obtain ⟨l₁, l₂, l₃, h₁, h₂, h₃, hct, -⟩ := serializeInner_iff.mp hser
    exact ⟨⟨hsender, packUint16_ok h₁⟩, ⟨hsession, packUint16_ok h₂⟩, ⟨hdh, packUint16_ok h₃⟩,
      hpn, hn, hct⟩

/-- What the parser accepts, exactly. -/
theorem parseInner_iff {data : Bytes} {inner : InnerSenderPackage} :
    parseInner data = .ok inner ↔ Filled inner ∧ Encodes inner data := by
  rw [parseInner_eq]
  constructor
  · intro h
    obtain ⟨⟨read, rest⟩, hread, h⟩ := except_bind_ok h
    obtain ⟨hrest, h⟩ := except_guard_ok h
    obtain ⟨hempty, h⟩ := except_guard_ok h
    cases h
    have hnil : rest = [] := not_not.mp hrest
    subst hnil
    refine ⟨?_, readInner_reads.whole.mp hread⟩
    simpa [Filled, not_or] using hempty
  · rintro ⟨hfilled, hencodes⟩
    have hempty : ¬ (inner.senderId.isEmpty ∨ inner.sessionId.isEmpty ∨ inner.dhPub.isEmpty) := by
      simpa [Filled, not_or] using hfilled
    rw [readInner_reads.whole.mpr hencodes, except_ok_bind]
    simp only [ne_eq, not_true_eq_false, if_false, hempty]
    rfl

/-! ## Its errors -/

theorem readU16_raises (data : Bytes) :
    Ends (fun _ => True) (fun e => ∃ m, e = .valueError m) (readU16 data) := by
  rw [readU16]
  split
  · exact ⟨_, rfl⟩
  · exact trivial

theorem readU32_raises (data : Bytes) :
    Ends (fun _ => True) (fun e => ∃ m, e = .valueError m) (readU32 data) := by
  rw [readU32]
  split
  · exact ⟨_, rfl⟩
  · exact trivial

theorem readBytes_raises (n : Nat) (data : Bytes) :
    Ends (fun _ => True) (fun e => ∃ m, e = .valueError m) (readBytes n data) := by
  rw [readBytes]
  split
  · exact ⟨_, rfl⟩
  · exact trivial

theorem parseInner_raises (data : Bytes) :
    Ends (fun _ => True) (fun e => ∃ m, e = .valueError m) (parseInner data) := by
  refine (readU16_raises data).bind fun _ _ => ?_
  refine (readBytes_raises _ _).bind fun _ _ => ?_
  refine (readU16_raises _).bind fun _ _ => ?_
  refine (readBytes_raises _ _).bind fun _ _ => ?_
  refine (readU16_raises _).bind fun _ _ => ?_
  refine (readBytes_raises _ _).bind fun _ _ => ?_
  refine (readU32_raises _).bind fun _ _ => ?_
  refine (readU32_raises _).bind fun _ _ => ?_
  refine (readU32_raises _).bind fun _ _ => ?_
  refine (readBytes_raises _ _).bind fun _ _ => ?_
  refine Ends.guard (fun _ => ⟨_, rfl⟩) fun _ => ?_
  exact Ends.guard (fun _ => ⟨_, rfl⟩) fun _ => trivial

/-- A package within the bounds survives its encoding, and the parser accepts
nothing but the encoding of one. -/
theorem inner_format_exact :
    (∀ inner, InnerInBounds inner →
      ∃ data, serializeInner inner = .ok data ∧ parseInner data = .ok inner) ∧
    ∀ data, (∃ m, parseInner data = .error (.valueError m)) ∨
      ∃ inner, parseInner data = .ok inner ∧ InnerInBounds inner ∧
        serializeInner inner = .ok data := by
  constructor
  · intro inner h
    obtain ⟨hfilled, data, hencodes⟩ := innerInBounds_iff.mp h
    exact ⟨data, hencodes.2.2, parseInner_iff.mpr ⟨hfilled, hencodes⟩⟩
  · intro data
    rcases ends_iff.mp (parseInner_raises data) with ⟨_, hread, m, rfl⟩ | ⟨inner, hread, -⟩
    · exact Or.inl ⟨m, hread⟩
    · obtain ⟨hfilled, hencodes⟩ := parseInner_iff.mp hread
      exact Or.inr ⟨inner, hread, innerInBounds_iff.mpr ⟨hfilled, data, hencodes⟩,
        hencodes.2.2⟩

/-- A package and its 23 bytes. -/
example : let inner : InnerSenderPackage := ⟨[97], [1, 2], [9], 5, 258, [7]⟩
    let data : Bytes := [0, 1, 97, 0, 2, 1, 2, 0, 1, 9, 0, 0, 0, 5, 0, 0, 1, 2, 0, 0, 0, 1, 7]
    serializeInner inner = .ok data ∧ parseInner data = .ok inner := by
  decide +kernel

end GhostChat.Proofs
