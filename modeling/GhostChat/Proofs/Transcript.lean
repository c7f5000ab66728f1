import GhostChat.Proofs.X3dh

/-!
# What a transcript says

A transcript is four keys, the id of the one-time prekey in four bytes, and
the suite if it is not the classical one. Nothing stands between the fields.
The keys are 32 bytes, so where each ends is known, and whether a suite
follows is seen from the length.

The id is the field that is not encoded faithfully. A bundle may offer any
non-negative id, and `struct.pack(">I", ...)` raises from `2 ^ 32` on; and the
four bytes that stand for no prekey are those of the largest id there is.
-/

namespace GhostChat.Proofs

open GhostChat.Lib GhostChat.Lib.Effect GhostChat.Ref

/-- The arguments of `_build_transcript`. -/
structure TranscriptArgs where
  ikAPub : Bytes
  ikBPub : Bytes
  spkBPub : Bytes
  ephPub : Bytes
  opkId : Option Int
  algorithmSuite : Bytes
  deriving DecidableEq

def opkIdArg : Option Int → Json
  | none => .null
  | some n => .int n

namespace TranscriptArgs

def transcript (x : TranscriptArgs) : Except Exn Bytes :=
  buildTranscript x.ikAPub x.ikBPub x.spkBPub x.ephPub (opkIdArg x.opkId) x.algorithmSuite

/-- Keys of 32 bytes, an id that the check of a bundle lets through with a key
of the right length, and one of the two suites. -/
structure Admitted (x : TranscriptArgs) : Prop where
  ikA : x.ikAPub.length = keyLen
  ikB : x.ikBPub.length = keyLen
  spk : x.spkBPub.length = keyLen
  eph : x.ephPub.length = keyLen
  opk : ∀ n pub, x.opkId = some n → pub.length = keyLen → validateOpk (n, pub) = .ok ()
  suite : x.algorithmSuite = algorithmSuiteClassical ∨
    x.algorithmSuite = algorithmSuiteHybridKyber

/-- Both transcripts are there, and are equal only for equal arguments. -/
def Unambiguous (x y : TranscriptArgs) : Prop :=
  (∃ t, x.transcript = .ok t) ∧ (∃ t, y.transcript = .ok t) ∧
    ∀ t, x.transcript = .ok t → y.transcript = .ok t → x = y

/-- An id that fits four bytes, or none. -/
def Fits (x : TranscriptArgs) : Prop := ∀ n, x.opkId = some n → n < 2 ^ 32

/-- All else equal, `x` names no prekey and `y` the largest id. -/
def Mistaken (x y : TranscriptArgs) : Prop :=
  x = { y with opkId := none } ∧ y.opkId = some 0xFFFFFFFF

/-! ## The id -/

variable {x y : TranscriptArgs}

theorem Admitted.nonneg (hx : x.Admitted) {n : Int} (hn : x.opkId = some n) : 0 ≤ n := by
  have hok := hx.opk n (List.replicate keyLen 0) hn List.length_replicate
  by_contra hneg
  simp [validateOpk, not_le.mp hneg] at hok

/-- The four bytes of an optional id. -/
def packed (opkId : Option Int) : Bytes := uint32be (opkId.getD 0xFFFFFFFF)

theorem packOpkId_fits (hx : x.Admitted) (h : x.Fits) :
    packOpkId (opkIdArg x.opkId) = .ok (packed x.opkId) := by
  cases hid : x.opkId with
  | none => rfl
  | some n => exact if_pos ⟨hx.nonneg hid, h n hid⟩

theorem fits_of_packed {b : Bytes} (h : packOpkId (opkIdArg x.opkId) = .ok b) : x.Fits := by
  intro n hn
  rw [hn] at h
  exact (packOpkId_int h).1.2

/-- Packed ids are equal, and the ids are not, only where one is absent and
the other the largest. -/
theorem packed_cases (hx : x.Admitted) (hy : y.Admitted) (hfx : x.Fits) (hfy : y.Fits)
    (h : packed x.opkId = packed y.opkId) :
    x.opkId = y.opkId ∨ (x.opkId = none ∧ y.opkId = some 0xFFFFFFFF) ∨
      (y.opkId = none ∧ x.opkId = some 0xFFFFFFFF) := by
  rw [packed, packed, uint32be_eq_iff] at h
  cases hx' : x.opkId with
  | none =>
      cases hy' : y.opkId with
      | none => exact Or.inl rfl
      | some m =>
          have hm := hy.nonneg hy'
          have hm' := hfy m hy'
          rw [hx', hy', Option.getD_none, Option.getD_some] at h
          exact Or.inr (Or.inl ⟨rfl, by rw [show m = 0xFFFFFFFF by omega]⟩)
  | some n =>
      have hn := hx.nonneg hx'
      have hn' := hfx n hx'
      cases hy' : y.opkId with
      | none =>
          rw [hx', hy', Option.getD_none, Option.getD_some] at h
          exact Or.inr (Or.inr ⟨rfl, by rw [show n = 0xFFFFFFFF by omega]⟩)
      | some m =>
          have hm := hy.nonneg hy'
          have hm' := hfy m hy'
          rw [hx', hy', Option.getD_some, Option.getD_some] at h
          exact Or.inl (by rw [show n = m by omega])

/-! ## The fields -/

/-- What stands behind the id. -/
def suffix (algorithmSuite : Bytes) : Bytes :=
  if algorithmSuite ≠ algorithmSuiteClassical then algorithmSuite else []

theorem transcript_fits (hx : x.Admitted) (h : x.Fits) :
    x.transcript = .ok (x.ikAPub ++ x.ikBPub ++ x.spkBPub ++ x.ephPub ++ packed x.opkId
      ++ suffix x.algorithmSuite) := by
  rw [transcript, buildTranscript, packOpkId_fits hx h, except_ok_bind, suffix]
  split
  · rfl
  · rw [List.append_nil]
    rfl

theorem fits_of_transcript {t : Bytes} (h : x.transcript = .ok t) : x.Fits := by
  obtain ⟨b, hb, -⟩ := buildTranscript_ok h
  exact fits_of_packed hb

theorem packed_length (opkId : Option Int) : (packed opkId).length = 4 := rfl

/-- The suites are told apart by whether anything follows. -/
theorem suffix_inj (hx : x.Admitted) (hy : y.Admitted)
    (h : (suffix x.algorithmSuite).length = (suffix y.algorithmSuite).length) :
    x.algorithmSuite = y.algorithmSuite := by
  have hclassical : (suffix algorithmSuiteClassical).length = 0 := by decide
  have hhybrid : (suffix algorithmSuiteHybridKyber).length = 28 := by decide
  rcases hx.suite with hxs | hxs <;> rcases hy.suite with hys | hys <;>
    rw [hxs, hys] at h ⊢ <;> rw [hclassical, hhybrid] at h <;> cases h

/-- Equal transcripts have equal fields, as far as the id is concerned packed
ones. -/
theorem fields_of_eq (hx : x.Admitted) (hy : y.Admitted)
    (h : x.ikAPub ++ x.ikBPub ++ x.spkBPub ++ x.ephPub ++ packed x.opkId
        ++ suffix x.algorithmSuite
      = y.ikAPub ++ y.ikBPub ++ y.spkBPub ++ y.ephPub ++ packed y.opkId
        ++ suffix y.algorithmSuite) :
    x = { y with opkId := x.opkId } ∧ packed x.opkId = packed y.opkId := by
  have hfront : (x.ikAPub ++ x.ikBPub ++ x.spkBPub ++ x.ephPub ++ packed x.opkId).length
      = (y.ikAPub ++ y.ikBPub ++ y.spkBPub ++ y.ephPub ++ packed y.opkId).length := by
    simp only [List.length_append, hx.ikA, hx.ikB, hx.spk, hx.eph, hy.ikA, hy.ikB, hy.spk, hy.eph,
      packed_length]
  obtain ⟨h, hsuffix⟩ := List.append_inj h hfront
  obtain ⟨h, hid⟩ := List.append_inj' h (by rw [packed_length, packed_length])
  obtain ⟨h, heph⟩ := List.append_inj' h (by rw [hx.eph, hy.eph])
  obtain ⟨h, hspk⟩ := List.append_inj' h (by rw [hx.spk, hy.spk])
  obtain ⟨hA, hB⟩ := List.append_inj' h (by rw [hx.ikB, hy.ikB])
  have hsuite := suffix_inj hx hy (congrArg List.length hsuffix)
  refine ⟨?_, hid⟩
  obtain ⟨A, B, S, E, id, suite⟩ := x
  simp only at hA hB hspk heph hsuite
  rw [hA, hB, hspk, heph, hsuite]

/-- Two calls of `_build_transcript` on what a handshake may hand it: both
return, and say which arguments they were given, exactly if the ids fit four
bytes and it is not the largest one against none. -/
theorem transcript_unambiguous_iff (hx : x.Admitted) (hy : y.Admitted) :
    Unambiguous x y ↔ x.Fits ∧ y.Fits ∧ ¬ Mistaken x y ∧ ¬ Mistaken y x := by
  constructor
  · rintro ⟨⟨t, ht⟩, ⟨t', ht'⟩, hinj⟩
    have hfx := fits_of_transcript ht
    have hfy := fits_of_transcript ht'
    have hsame : ∀ {z w : TranscriptArgs}, z.Admitted → w.Admitted → z.Fits → w.Fits →
        Mistaken z w → z.transcript = w.transcript := by
      intro z w hz hw hfz hfw hmis
      rw [transcript_fits hz hfz, transcript_fits hw hfw, hmis.1, hmis.2]
      rfl
    have hne : ∀ {z w : TranscriptArgs}, Mistaken z w → z ≠ w := by
      rintro z w ⟨hz, hw⟩ rfl
      rw [hz] at hw
      cases hw
    refine ⟨hfx, hfy, fun hmis => ?_, fun hmis => ?_⟩
    · exact hne hmis (hinj t ht (by rw [← hsame hx hy hfx hfy hmis, ht]))
    · exact hne hmis (hinj t ht (by rw [hsame hy hx hfy hfx hmis, ht])).symm
  · rintro ⟨hfx, hfy, hxy, hyx⟩
    have htx := transcript_fits hx hfx
    have hty := transcript_fits hy hfy
    refine ⟨⟨_, htx⟩, ⟨_, hty⟩, fun t ht ht' => ?_⟩
    rw [htx] at ht
    rw [hty] at ht'
    obtain ⟨hrest, hid⟩ := fields_of_eq hx hy
      ((Except.ok.inj ht).trans (Except.ok.inj ht').symm)
    rcases packed_cases hx hy hfx hfy hid with heq | ⟨hnone, hlast⟩ | ⟨hnone, hlast⟩
    · rw [hrest, heq]
    · refine absurd ⟨?_, hlast⟩ hxy
      rw [hrest, hnone]
    · refine absurd ⟨?_, hlast⟩ hyx
      rw [hrest, ← hnone]

/-! ## At the limits of the id -/

/-- Four keys and an id, for the classical suite. -/
def sample (opkId : Option Int) : TranscriptArgs where
  ikAPub := List.replicate 32 1
  ikBPub := List.replicate 32 2
  spkBPub := List.replicate 32 3
  ephPub := List.replicate 32 4
  opkId := opkId
  algorithmSuite := algorithmSuiteClassical

theorem sample_admitted {opkId : Option Int} (h : ∀ n, opkId = some n → 0 ≤ n) :
    (sample opkId).Admitted where
  ikA := List.length_replicate
  ikB := List.length_replicate
  spk := List.length_replicate
  eph := List.length_replicate
  opk := by
    intro n pub hn hpub
    rw [validateOpk, if_neg (not_not.mpr hpub), if_neg (not_lt.mpr (h n hn))]
  suite := Or.inl rfl

theorem transcript_unambiguous_sample : Unambiguous (sample (some 1000)) (sample none) :=
  (transcript_unambiguous_iff (sample_admitted (by rintro n ⟨⟩; decide))
    (sample_admitted (by rintro n ⟨⟩))).mpr
    ⟨by rintro n ⟨⟩; decide, by rintro n ⟨⟩, fun h => (by cases h.2), fun h => (by cases h.2)⟩

/-- The largest id is packed like none, and the next one not at all. -/
theorem transcript_mistaken :
    (sample none).Admitted ∧ (sample (some 0xFFFFFFFF)).Admitted ∧
      (sample (some 0x100000000)).Admitted ∧
      (sample none).transcript = (sample (some 0xFFFFFFFF)).transcript ∧
      ¬ Unambiguous (sample none) (sample (some 0xFFFFFFFF)) ∧
      (∀ t, (sample (some 0x100000000)).transcript ≠ .ok t) := by
  have hnone : (sample none).Admitted := sample_admitted (by rintro n ⟨⟩)
  have hlast : (sample (some 0xFFFFFFFF)).Admitted := sample_admitted (by rintro n ⟨⟩; decide)
  have hnext : (sample (some 0x100000000)).Admitted := sample_admitted (by rintro n ⟨⟩; decide)
  have heq : (sample none).transcript = (sample (some 0xFFFFFFFF)).transcript := rfl
  refine ⟨hnone, hlast, hnext, heq, ?_, ?_⟩
  · rintro ⟨⟨t, ht⟩, -, hinj⟩
    have hsame : sample none = sample (some 0xFFFFFFFF) := hinj t ht (heq ▸ ht)
    have hid : (none : Option Int) = some 0xFFFFFFFF := congrArg TranscriptArgs.opkId hsame
    cases hid
  · intro t ht
    have hfits := fits_of_transcript ht 0x100000000 rfl
    exact absurd hfits (by decide)

end TranscriptArgs

end GhostChat.Proofs
