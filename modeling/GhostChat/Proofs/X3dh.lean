import GhostChat.Proofs.Agreement
import GhostChat.Ref.X3dh

/-!
# Both sides of the handshake come to one root key exactly if they used the same keys

A successful call of either side is described by the keys it went by and by
the DH outputs it computed (`Handshake`). From there on the two are the same
computation, and it can be read backwards: HKDF gives up the transcript hash,
the suite and the input key material, the transcript its fields, and the key
material its DH outputs.

Two encodings look ambiguous and are not. An absent one-time prekey is packed
as the id `0xFFFFFFFF`, which is also a valid id; but with a one-time prekey
there is a fourth DH output, and 96 bytes are not 128. And the suite is
appended to the transcript only if it is the hybrid one; but then it is
appended to the label of the root key too, behind a digest of fixed length.
The signed prekey of the responder is the one field whose length nobody
checks. All the others are 32 bytes, so it is too whenever the transcripts
are equal.
-/

namespace GhostChat.Proofs

open GhostChat.Lib GhostChat.Lib.Effect GhostChat.Ref

variable {K P C : Type} {h : HandshakeCrypto K P C}

/-! ## Assumptions -/

/-- HKDF and SHA-256 do not collide, X25519 commutes and is injective in the
public key, and byte strings are put together as byte strings are. An
injective function cannot have digests of one length, so what the fixed length
of a digest is good for is said instead: where it ends can be seen. -/
structure HandshakeIdeal (h : HandshakeCrypto K P C) : Prop extends h.toKeyAlg.Injective where
  cat_bytes : ∀ x y, h.bytes (h.cat x y) = h.bytes x ++ h.bytes y
  cat_inj : ∀ {x y x' y'}, h.cat x y = h.cat x' y' →
    (h.bytes x).length = (h.bytes x').length → x = x' ∧ y = y'
  public_length : ∀ p, (h.publicKey p).length = 32
  shared_length : ∀ {p X k}, h.sharedKey p X = some k → (h.bytes k).length = 32
  commutes : ∀ p q, h.sharedKey p (h.publicKey q) = h.sharedKey q (h.publicKey p)
  shared_inj : ∀ {p X Y k}, h.sharedKey p X = some k → h.sharedKey p Y = some k → X = Y
  sha256_inj : ∀ {t t'}, h.sha256 t = h.sha256 t' → t = t'
  sha256_split : ∀ {t t' s s'}, h.sha256 t ++ s = h.sha256 t' ++ s' → h.sha256 t = h.sha256 t'

/-- What of this the two sides need to come to the same key. -/
structure GoodHandshake (h : HandshakeCrypto K P C) : Prop where
  public_length : ∀ p, (h.publicKey p).length = 32
  shared_length : ∀ {p X k}, h.sharedKey p X = some k → (h.bytes k).length = 32
  commutes : ∀ p q, h.sharedKey p (h.publicKey q) = h.sharedKey q (h.publicKey p)

theorem HandshakeIdeal.good (hi : HandshakeIdeal h) : GoodHandshake h where
  public_length := hi.public_length
  shared_length := hi.shared_length
  commutes := hi.commutes

/-! ## What a successful call has computed -/

/-- The id of a one-time prekey in the transcript. -/
def packedOpk : Option (Int × Bytes) → Bytes
  | none => uint32be 0xFFFFFFFF
  | some (id, _) => uint32be id

/-- The transcript of the keys a side went by. -/
def transcriptOf (u : HandshakeKeys K) : Bytes :=
  u.initiatorIdentity ++ u.responderIdentity ++ u.signedPrekey ++ u.ephemeral
    ++ packedOpk u.oneTimePrekey
    ++ if u.suite ≠ algorithmSuiteClassical then u.suite else []

/-- A successful call of either side. -/
structure Handshake (h : HandshakeCrypto K P C) (u : HandshakeKeys K) (root dh1 dh2 dh3 : K)
    (dh4 : Option K) : Prop where
  identityA : u.initiatorIdentity.length = 32
  identityB : u.responderIdentity.length = 32
  ephemeral : u.ephemeral.length = 32
  opkId : ∀ id pub, u.oneTimePrekey = some (id, pub) → 0 ≤ id ∧ id < 2 ^ 32
  opk : dh4.isSome = u.oneTimePrekey.isSome
  length1 : (h.bytes dh1).length = 32
  length2 : (h.bytes dh2).length = 32
  length3 : (h.bytes dh3).length = 32
  length4 : ∀ k, dh4 = some k → (h.bytes k).length = 32
  suite : (u.suite = algorithmSuiteClassical ∧ u.pqShared = none) ∨
    (u.suite = algorithmSuiteHybridKyber ∧ ∃ pq, u.pqShared = some pq)
  root : x3dhRootKey h.toKeyAlg
    (h.hkdf (x3dhIkm h.toKeyAlg dh1 dh2 dh3 dh4) (h.lit x3dhSalt) x3dhInfo 0) u.pqShared
    (h.sha256 (transcriptOf u)) u.suite = .ok root

/-! ## Reading a root key backwards -/

section Backwards

variable (hi : HandshakeIdeal h) {u u' : HandshakeKeys K} {root : K}
  {dh1 dh2 dh3 dh1' dh2' dh3' : K} {dh4 dh4' : Option K}

theorem suites_differ : algorithmSuiteHybridKyber ≠ algorithmSuiteClassical := by decide

/-- The two forms of the last derivation. -/
theorem Handshake.derived (hs : Handshake h u root dh1 dh2 dh3 dh4) {ikm : K}
    (hikm : h.hkdf (x3dhIkm h.toKeyAlg dh1 dh2 dh3 dh4) (h.lit x3dhSalt) x3dhInfo 0 = ikm) :
    (u.suite = algorithmSuiteClassical ∧ u.pqShared = none ∧
      root = h.hkdf ikm (h.lit x3dhRootSalt) (x3dhRootInfo ++ h.sha256 (transcriptOf u)) 0) ∨
    (u.suite = algorithmSuiteHybridKyber ∧ ∃ pq, u.pqShared = some pq ∧
      root = h.hkdf (h.hkdf (h.cat ikm pq) (h.lit hybridCombineSalt) hybridCombineInfo 0)
        (h.lit x3dhRootSalt)
        (x3dhRootInfo ++ h.sha256 (transcriptOf u) ++ algorithmSuiteHybridKyber) 0) := by
  have hroot := hs.root
  rw [hikm] at hroot
  rcases hs.suite with ⟨hsuite, hpq⟩ | ⟨hsuite, pq, hpq⟩
  · rw [x3dhRootKey, if_pos hsuite] at hroot
    cases hroot
    exact Or.inl ⟨hsuite, hpq, rfl⟩
  · refine Or.inr ⟨hsuite, pq, hpq, ?_⟩
    rw [x3dhRootKey, if_neg (by rw [hsuite]; exact suites_differ), hpq, hsuite] at hroot
    obtain ⟨combined, hcombine, hret⟩ := except_bind_ok hroot
    cases hret
    rw [combineSharedSecrets] at hcombine
    split at hcombine
    · rw [combineClassical, if_pos suites_differ] at hcombine
      cases hcombine
    · cases hcombine
      rfl

theorem Handshake.root_length (hlen : ∀ i s f b, (h.bytes (h.hkdf i s f b)).length = 32)
    (hs : Handshake h u root dh1 dh2 dh3 dh4) : (h.bytes root).length = 32 := by
  rcases hs.derived rfl with ⟨-, -, hroot⟩ | ⟨-, pq, -, hroot⟩
  · rw [hroot, hlen]
  · rw [hroot, hlen]

include hi in
/-- The label of a hybrid root key is longer by the suite. -/
theorem labels_differ (t t' : Bytes) :
    x3dhRootInfo ++ h.sha256 t ≠ x3dhRootInfo ++ h.sha256 t' ++ algorithmSuiteHybridKyber := by
  intro hinfo
  rw [List.append_assoc] at hinfo
  have hdigest : h.sha256 t ++ [] = h.sha256 t' ++ algorithmSuiteHybridKyber := by
    rw [List.append_nil]
    exact List.append_cancel_left hinfo
  rw [hi.sha256_split hdigest] at hdigest
  cases List.append_cancel_left hdigest

include hi in
/-- Suite, post-quantum secret, transcript and key material, from the root
key. -/
theorem Handshake.root_inj (hs : Handshake h u root dh1 dh2 dh3 dh4)
    (hs' : Handshake h u' root dh1' dh2' dh3' dh4') :
    u.suite = u'.suite ∧ u.pqShared = u'.pqShared ∧ transcriptOf u = transcriptOf u' ∧
      x3dhIkm h.toKeyAlg dh1 dh2 dh3 dh4 = x3dhIkm h.toKeyAlg dh1' dh2' dh3' dh4' := by
  rcases hs.derived rfl with ⟨hsuite, hpq, hroot⟩ | ⟨hsuite, pq, hpq, hroot⟩
  · rcases hs'.derived rfl with ⟨hsuite', hpq', hroot'⟩ | ⟨hsuite', pq', hpq', hroot'⟩
    · obtain ⟨hikm, -, hinfo, -⟩ := hi.hkdf_inj (hroot.symm.trans hroot')
      exact ⟨hsuite.trans hsuite'.symm, hpq.trans hpq'.symm,
        hi.sha256_inj (List.append_cancel_left hinfo), (hi.hkdf_inj hikm).1⟩
    · obtain ⟨-, -, hinfo, -⟩ := hi.hkdf_inj (hroot.symm.trans hroot')
      exact absurd hinfo (labels_differ hi _ _)
  · rcases hs'.derived rfl with ⟨hsuite', hpq', hroot'⟩ | ⟨hsuite', pq', hpq', hroot'⟩
    · obtain ⟨-, -, hinfo, -⟩ := hi.hkdf_inj (hroot'.symm.trans hroot)
      exact absurd hinfo (labels_differ hi _ _)
    · obtain ⟨hcombined, -, hinfo, -⟩ := hi.hkdf_inj (hroot.symm.trans hroot')
      have hth : h.sha256 (transcriptOf u) = h.sha256 (transcriptOf u') :=
        List.append_cancel_left (List.append_cancel_right hinfo)
      obtain ⟨hikm, hpqs⟩ := hi.cat_inj (hi.hkdf_inj hcombined).1
        (by rw [hi.hkdf_length, hi.hkdf_length])
      exact ⟨hsuite.trans hsuite'.symm, by rw [hpq, hpq', hpqs], hi.sha256_inj hth,
        (hi.hkdf_inj hikm).1⟩

theorem packedOpk_length (opk : Option (Int × Bytes)) : (packedOpk opk).length = 4 := by
  cases opk <;> rfl

/-- The fields of a transcript. The signed prekey is what is left between the
others. -/
theorem Handshake.transcript_inj (hs : Handshake h u root dh1 dh2 dh3 dh4)
    {root' : K} (hs' : Handshake h u' root' dh1' dh2' dh3' dh4') (hsuite : u.suite = u'.suite)
    (ht : transcriptOf u = transcriptOf u') :
    u.initiatorIdentity = u'.initiatorIdentity ∧ u.responderIdentity = u'.responderIdentity ∧
      u.signedPrekey = u'.signedPrekey ∧ u.ephemeral = u'.ephemeral ∧
      packedOpk u.oneTimePrekey = packedOpk u'.oneTimePrekey := by
  rw [transcriptOf, transcriptOf, hsuite] at ht
  have hbase := List.append_cancel_right ht
  obtain ⟨hrest, hid⟩ := List.append_inj' hbase
    (by rw [packedOpk_length, packedOpk_length])
  obtain ⟨hfront, heph⟩ := List.append_inj' hrest (by rw [hs.ephemeral, hs'.ephemeral])
  rw [List.append_assoc, List.append_assoc] at hfront
  obtain ⟨hA, hfront⟩ := List.append_inj hfront (by rw [hs.identityA, hs'.identityA])
  obtain ⟨hB, hspk⟩ := List.append_inj hfront (by rw [hs.identityB, hs'.identityB])
  exact ⟨hA, hB, hspk, heph, hid⟩

include hi in
theorem Handshake.ikm_inj (hs : Handshake h u root dh1 dh2 dh3 dh4) {root' : K}
    (hs' : Handshake h u' root' dh1' dh2' dh3' dh4')
    (hikm : x3dhIkm h.toKeyAlg dh1 dh2 dh3 dh4 = x3dhIkm h.toKeyAlg dh1' dh2' dh3' dh4') :
    dh3 = dh3' ∧ dh4 = dh4' := by
  have hlen3 : (h.bytes (h.cat (h.cat dh1 dh2) dh3)).length = 96 := by
    simp only [hi.cat_bytes, List.length_append, hs.length1, hs.length2, hs.length3]
  have hlen3' : (h.bytes (h.cat (h.cat dh1' dh2') dh3')).length = 96 := by
    simp only [hi.cat_bytes, List.length_append, hs'.length1, hs'.length2, hs'.length3]
  have hthree : h.cat (h.cat dh1 dh2) dh3 = h.cat (h.cat dh1' dh2') dh3' → dh3 = dh3' := by
    intro heq
    refine (hi.cat_inj heq ?_).2
    simp only [hi.cat_bytes, List.length_append, hs.length1, hs.length2, hs'.length1, hs'.length2]
  -- With a fourth output on one side only, the lengths differ.
  have hlong : ∀ {x y k : K}, (h.bytes x).length = 96 → (h.bytes y).length = 96 →
      (h.bytes k).length = 32 → x ≠ h.cat y k := by
    intro x y k hx hy hk heq
    rw [heq, hi.cat_bytes, List.length_append, hy, hk] at hx
    cases hx
  cases hd : dh4 with
  | none =>
      cases hd' : dh4' with
      | none =>
          rw [hd, hd'] at hikm
          exact ⟨hthree hikm, rfl⟩
      | some k' =>
          rw [hd, hd'] at hikm
          exact absurd hikm (hlong hlen3 hlen3' (hs'.length4 k' hd'))
  | some k =>
      cases hd' : dh4' with
      | none =>
          rw [hd, hd'] at hikm
          exact absurd hikm.symm (hlong hlen3' hlen3 (hs.length4 k hd))
      | some k' =>
          rw [hd, hd'] at hikm
          obtain ⟨hrest, hk⟩ := hi.cat_inj hikm (hlen3.trans hlen3'.symm)
          exact ⟨hthree hrest, by rw [hk]⟩

end Backwards

/-! ## The initiator -/

/-- Which private keys the initiator's DH steps took. -/
structure InitiatorSide (h : HandshakeCrypto K P C) (ikA eph : P) (u : HandshakeKeys K)
    (dh1 dh2 dh3 : K) (dh4 : Option K) : Prop where
  identity : h.publicKey ikA = u.initiatorIdentity
  ephemeral : h.publicKey eph = u.ephemeral
  prekey : u.signedPrekeyDh = u.signedPrekey
  step1 : h.sharedKey ikA u.signedPrekeyDh = some dh1
  step2 : h.sharedKey eph u.responderIdentity = some dh2
  step3 : h.sharedKey eph u.signedPrekeyDh = some dh3
  step4 : ∀ id pub, u.oneTimePrekey = some (id, pub) → h.sharedKey eph pub = dh4

theorem x25519PrivateKey_ok {b : Bytes} {p : P} (hp : x25519PrivateKey h b = .ok p) :
    b.length = 32 ∧ p = h.privateKey b := by
  rw [x25519PrivateKey] at hp
  split at hp
  · cases hp
  · next hlen =>
      cases hp
      exact ⟨not_not.mp hlen, rfl⟩

theorem shared_of_dhWith {p : P} {X : Bytes} {k : K} (hk : dhWith h.toCrypto (some p) X = .ok k) :
    h.sharedKey p X = some k := by
  obtain ⟨q, hq, hshared⟩ := dhWith_ok hk
  cases hq
  exact hshared

theorem buildTranscript_ok {A B S E suite t : Bytes} {id : Json}
    (ht : buildTranscript A B S E id suite = .ok t) :
    ∃ packed, packOpkId id = .ok packed ∧
      t = A ++ B ++ S ++ E ++ packed ++ if suite ≠ algorithmSuiteClassical then suite else [] := by
  obtain ⟨packed, hpacked, hret⟩ := except_bind_ok ht
  refine ⟨packed, hpacked, ?_⟩
  cases hret
  split
  · rfl
  · exact (List.append_nil _).symm

theorem packOpkId_int {n : Int} {b : Bytes} (hb : packOpkId (.int n) = .ok b) :
    (0 ≤ n ∧ n < 2 ^ 32) ∧ b = uint32be n := by
  rw [packOpkId] at hb
  split at hb
  · next hn =>
      cases hb
      exact ⟨hn, rfl⟩
  · cases hb

theorem initiatorPq_ok {peer : PeerBundle} {backend : Option (PqBackend K)}
    {pq : Option (Bytes × K)} (hpq : initiatorPq peer backend = .ok pq) :
    pq = none ∨ (peer.algorithmSuite = algorithmSuiteHybridKyber ∧ ∃ x, pq = some x) := by
  cases hpub : peer.pqPub with
  | none =>
      simp only [initiatorPq, hpub] at hpq
      cases hpq
      exact Or.inl rfl
  | some pub =>
      cases backend with
      | none =>
          simp only [initiatorPq, hpub] at hpq
          cases hpq
          exact Or.inl rfl
      | some pqb =>
          simp only [initiatorPq, hpub] at hpq
          split at hpq
          · next hsuite =>
              cases henc : pqb.encapsulate pub with
              | error e => rw [henc] at hpq; cases hpq
              | ok x =>
                  rw [henc] at hpq
                  cases hpq
                  exact Or.inr ⟨of_decide_eq_true hsuite, x, rfl⟩
          · cases hpq
            exact Or.inl rfl

theorem initiatorPq_none (peer : PeerBundle) :
    initiatorPq peer (none : Option (PqBackend K)) = .ok none := by
  cases hpub : peer.pqPub with
  | none => simp only [initiatorPq, hpub]
  | some pub => simp only [initiatorPq, hpub]

theorem validatePeerBundle_ok {peer : PeerBundle} (hv : validatePeerBundle peer = .ok ()) :
    peer.identityDhPub.length = 32 ∧ peer.spkPub.length = 32 := by
  simp only [validatePeerBundle] at hv
  obtain ⟨-, hv⟩ := except_guard_ok hv
  obtain ⟨hdh, hv⟩ := except_guard_ok hv
  obtain ⟨hspk, -⟩ := except_guard_ok hv
  exact ⟨not_not.mp hdh, not_not.mp hspk⟩

/-- The fourth DH step of the initiator. -/
theorem initiatorDh4_ok {eph : P} {opk : Option (Int × Bytes)} {dh4 : Option K}
    (hdh4 : initiatorDh4 h eph opk = .ok dh4) :
    dh4.isSome = opk.isSome ∧ ∀ id pub, opk = some (id, pub) → h.sharedKey eph pub = dh4 := by
  cases opk with
  | none =>
      cases hdh4
      exact ⟨rfl, fun id pub hopk => by cases hopk⟩
  | some x =>
      obtain ⟨id, pub⟩ := x
      rw [initiatorDh4] at hdh4
      split at hdh4
      · cases hdh4
      · cases hk : dhWith h.toCrypto (some eph) pub with
        | error e => rw [hk] at hdh4; cases hdh4
        | ok k =>
            rw [hk] at hdh4
            cases hdh4
            refine ⟨rfl, fun id' pub' hopk => ?_⟩
            cases hopk
            exact shared_of_dhWith hk

/-- The id that goes out with the `session_init`. -/
def sentOpkId : Option (Int × Bytes) → Json
  | none => .null
  | some (opkId, _) => .int opkId

/-- What the initiator took from the peer's bundle and what it gives out. -/
structure InitiatorCall (peer : PeerBundle) (opk : Option (Int × Bytes))
    (backend : Option (PqBackend K)) (r : X3DHResult K) (ephPub : Bytes) (u : HandshakeKeys K) :
    Prop where
  suite : r.algorithmSuite = u.suite
  responder : u.responderIdentity = peer.identityDhPub
  prekey : u.signedPrekey = peer.spkPub
  oneTime : u.oneTimePrekey = opk
  ephemeral : ephPub = u.ephemeral
  usedOpk : r.usedOpkId = sentOpkId opk
  classical : backend = none → u.pqShared = none

theorem initiator_ok (hi : GoodHandshake h) {identityDhPrivate : Bytes} {eph : P}
    {peer : PeerBundle} {opk : Option (Int × Bytes)} {backend : Option (PqBackend K)}
    {r : X3DHResult K} {ephPub : Bytes} {u : HandshakeKeys K}
    (hok : x3dhInitiatorKeyed h identityDhPrivate eph peer opk backend = .ok ((r, ephPub), u)) :
    ∃ dh1 dh2 dh3 dh4, Handshake h u r.rootKey dh1 dh2 dh3 dh4 ∧
      InitiatorSide h (h.privateKey identityDhPrivate) eph u dh1 dh2 dh3 dh4 ∧
      InitiatorCall peer opk backend r ephPub u := by
  simp only [x3dhInitiatorKeyed] at hok
  obtain ⟨_, hvalid, hok⟩ := except_bind_ok hok
  obtain ⟨_, -, hok⟩ := except_bind_ok hok
  obtain ⟨-, hok⟩ := except_guard_ok hok
  obtain ⟨-, hok⟩ := except_guard_ok hok
  obtain ⟨ikA, hikA, hok⟩ := except_bind_ok hok
  obtain ⟨dh1, hdh1, hok⟩ := except_bind_ok hok
  obtain ⟨dh2, hdh2, hok⟩ := except_bind_ok hok
  obtain ⟨dh3, hdh3, hok⟩ := except_bind_ok hok
  obtain ⟨dh4, hdh4, hok⟩ := except_bind_ok hok
  obtain ⟨pq, hpq, hok⟩ := except_bind_ok hok
  obtain ⟨t, ht, hok⟩ := except_bind_ok hok
  obtain ⟨root, hroot, hok⟩ := except_bind_ok hok
  cases hok
  obtain ⟨-, rfl⟩ := x25519PrivateKey_ok hikA
  obtain ⟨hB, -⟩ := validatePeerBundle_ok hvalid
  obtain ⟨hsome, hopk⟩ := initiatorDh4_ok hdh4
  obtain ⟨packed, hpacked, rfl⟩ := buildTranscript_ok ht
  have hpackedOpk : packed = packedOpk opk ∧
      ∀ id pub, opk = some (id, pub) → 0 ≤ id ∧ id < 2 ^ 32 := by
    cases opk with
    | none =>
        cases hpacked
        exact ⟨rfl, fun id pub hopk => by cases hopk⟩
    | some x =>
        obtain ⟨hrange, rfl⟩ := packOpkId_int hpacked
        exact ⟨rfl, fun id pub hopk => by cases hopk; exact hrange⟩
  obtain ⟨rfl, hrange⟩ := hpackedOpk
  have hs1 := shared_of_dhWith hdh1
  have hs2 := shared_of_dhWith hdh2
  have hs3 := shared_of_dhWith hdh3
  refine ⟨dh1, dh2, dh3, dh4, ⟨hi.public_length _, hB, hi.public_length _, hrange, hsome,
    hi.shared_length hs1, hi.shared_length hs2, hi.shared_length hs3, ?_, ?_, hroot⟩,
    ⟨rfl, rfl, rfl, hs1, hs2, hs3, hopk⟩, ⟨rfl, rfl, rfl, rfl, rfl, ?_, ?_⟩⟩
  · intro k hk
    obtain ⟨⟨id, pub⟩, hx⟩ : ∃ x, opk = some x := by
      refine Option.isSome_iff_exists.mp ?_
      rw [← hsome, hk]
      rfl
    exact hi.shared_length ((hopk id pub hx).trans hk)
  · rcases initiatorPq_ok hpq with rfl | ⟨hsuite, x, rfl⟩
    · exact Or.inl ⟨rfl, rfl⟩
    · exact Or.inr ⟨hsuite, x.2, rfl⟩
  · cases opk <;> rfl
  · rintro rfl
    rw [initiatorPq_none] at hpq
    cases hpq
    rfl

/-! ## The responder -/

/-- Which private keys the responder's DH steps took. -/
structure ResponderSide (h : HandshakeCrypto K P C) (ikB spk : P) (u : HandshakeKeys K)
    (dh1 dh2 dh3 : K) (dh4 : Option K) : Prop where
  identity : h.publicKey ikB = u.responderIdentity
  prekey : h.publicKey spk = u.signedPrekeyDh
  step1 : h.sharedKey spk u.initiatorIdentity = some dh1
  step2 : h.sharedKey ikB u.ephemeral = some dh2
  step3 : h.sharedKey spk u.ephemeral = some dh3
  step4 : ∀ id pub, u.oneTimePrekey = some (id, pub) →
    ∃ opk, h.publicKey opk = pub ∧ h.sharedKey opk u.ephemeral = dh4

/-- A prekey that was consumed was there, and is not any more. -/
theorem consume_ok {b b' : ClientPreKeyBundle} {keyId : Json} {opk : OneTimePreKey}
    (hok : ClientPreKeyBundle.consumeOneTimePrekey keyId b = .ok opk b') :
    ∃ id, keyId.asKey = .ok (some id) ∧ id ∉ b.usedOpkIds ∧
      Odict.get? b.oneTimePrekeys id = some opk ∧
      b' = { b with
        oneTimePrekeys := Odict.erase b.oneTimePrekeys id
        usedOpkIds := b.usedOpkIds ++ [id] } := by
  obtain ⟨_, _, hget, hok⟩ := bind_ok hok
  cases hget
  obtain ⟨key, hkey, hok⟩ := lift_bind_ok hok
  cases key with
  | none => cases hok
  | some id =>
      obtain ⟨hnew, hok⟩ := guard_ok hok
      cases hopk : Odict.get? b.oneTimePrekeys id with
      | none => simp only [hopk] at hok; cases hok
      | some opk' =>
          simp only [hopk, bind_apply, modify_apply] at hok
          cases hok
          exact ⟨id, hkey, hnew, hopk, rfl⟩

theorem responderDh4_eq (ephPub : Bytes) {keyId : Json} (hne : keyId ≠ .null) :
    responderDh4 h ephPub keyId = do
      let opk ← ClientPreKeyBundle.consumeOneTimePrekey keyId
      let opkPriv ← lift (x25519PrivateKey h opk.privateKey)
      let dh4 ← lift (dhWith h.toCrypto (some opkPriv) ephPub)
      let id ← lift keyId.asKey
      return some (dh4, id.getD 0, h.publicKey opkPriv) := by
  cases keyId with
  | null => exact absurd rfl hne
  | bool b => rfl
  | int n => rfl
  | float x => rfl
  | str s => rfl
  | list items => rfl
  | dict fields => rfl

/-- The fourth DH step of the responder: without an id there is none, with one
the prekey under it is consumed. -/
theorem responderDh4_ok {ephPub : Bytes} {keyId : Json} {b b' : ClientPreKeyBundle}
    {x : Option (K × Int × Bytes)} (hok : responderDh4 h ephPub keyId b = .ok x b') :
    (keyId = .null ∧ x = none ∧ b' = b) ∨
      ∃ id opk k, keyId.asKey = .ok (some id) ∧ id ∉ b.usedOpkIds ∧
        Odict.get? b.oneTimePrekeys id = some opk ∧
        h.sharedKey (h.privateKey opk.privateKey) ephPub = some k ∧
        x = some (k, id, h.publicKey (h.privateKey opk.privateKey)) ∧
        b' = { b with
          oneTimePrekeys := Odict.erase b.oneTimePrekeys id
          usedOpkIds := b.usedOpkIds ++ [id] } := by
  by_cases hnull : keyId = .null
  · subst hnull
    cases hok
    exact Or.inl ⟨rfl, rfl, rfl⟩
  · rw [responderDh4_eq ephPub hnull] at hok
    obtain ⟨opk, b₁, hconsume, hok⟩ := bind_ok hok
    obtain ⟨priv, hpriv, hok⟩ := lift_bind_ok hok
    obtain ⟨k, hk, hok⟩ := lift_bind_ok hok
    obtain ⟨id, hid, hok⟩ := lift_bind_ok hok
    cases hok
    obtain ⟨id', hid', hnew, hopk, rfl⟩ := consume_ok hconsume
    rw [hid'] at hid
    cases hid
    obtain ⟨-, rfl⟩ := x25519PrivateKey_ok hpriv
    exact Or.inr ⟨id', opk, k, hid', hnew, hopk, shared_of_dhWith hk, rfl, rfl⟩

/-- An id that is a key of the dictionary is packed as the integer it is. -/
theorem packOpkId_key {keyId : Json} {id : Int} {packed : Bytes}
    (hid : keyId.asKey = .ok (some id)) (hpacked : packOpkId keyId = .ok packed) :
    (0 ≤ id ∧ id < 2 ^ 32) ∧ packed = uint32be id := by
  cases keyId with
  | int n =>
      cases hid
      exact packOpkId_int hpacked
  | bool b =>
      cases hid
      cases hpacked
      refine ⟨?_, rfl⟩
      split <;> decide
  | null => cases hid
  | float x => cases hpacked
  | str s => cases hid
  | list items => cases hid
  | dict fields => cases hid

theorem checkSuite_ok {b : ClientPreKeyBundle} {ct : Option Bytes} {suite : Bytes}
    (hok : checkSuite b ct suite = .ok ()) :
    (b.isHybrid = true ∧ suite = algorithmSuiteHybridKyber ∧ ct.isSome) ∨
      (b.isHybrid = false ∧ suite ≠ algorithmSuiteHybridKyber ∧ ct = none) := by
  rw [checkSuite] at hok
  split at hok
  · cases hok
  · next hfits =>
      split at hok
      · cases hok
      · next hfits' =>
          cases hhybrid : b.isHybrid with
          | true =>
              left
              simp only [hhybrid, true_and, not_or, not_not, isHybridSuite,
                decide_eq_true_eq] at hfits
              refine ⟨rfl, hfits.2, ?_⟩
              cases ct with
              | none => exact absurd rfl hfits.1
              | some ct => rfl
          | false =>
              right
              simp only [hhybrid, Bool.false_eq_true, not_false_eq_true, true_and, not_or,
                isHybridSuite, decide_eq_true_eq] at hfits'
              refine ⟨rfl, hfits'.2, ?_⟩
              cases ct with
              | none => rfl
              | some ct => exact absurd rfl hfits'.1

theorem responderPq_classical {b : ClientPreKeyBundle} (hb : b.isHybrid = false)
    (ct : Option Bytes) (backend : Option (PqBackend K)) :
    responderPq b ct backend = .ok none := by
  simp only [responderPq, hb]

theorem responderPq_hybrid {b : ClientPreKeyBundle} (hb : b.isHybrid = true)
    {ct : Option Bytes} (hct : ct.isSome) {backend : Option (PqBackend K)} {pq : Option K}
    (hok : responderPq b ct backend = .ok pq) : ∃ k, pq = some k := by
  obtain ⟨ct, rfl⟩ := Option.isSome_iff_exists.mp hct
  obtain ⟨sk, hsk⟩ : ∃ sk, b.pqSecretKey = some sk := by
    simp only [ClientPreKeyBundle.isHybrid, Bool.and_eq_true] at hb
    exact Option.isSome_iff_exists.mp hb.1.1
  simp only [responderPq, hb, hsk] at hok
  cases backend with
  | none => cases hok
  | some pqb =>
      simp only at hok
      split at hok
      · cases hok
      · cases hdec : pqb.decapsulate ct sk with
        | error e => rw [hdec] at hok; cases hok
        | ok k =>
            rw [hdec] at hok
            cases hok
            exact ⟨k, rfl⟩

/-- Without a post-quantum secret only the classical suite gets to a root
key. -/
theorem suite_of_root {a : KeyAlg K} {shared root : K} {th suite : Bytes}
    (hok : x3dhRootKey a shared none th suite = .ok root) : suite = algorithmSuiteClassical := by
  by_contra hsuite
  rw [x3dhRootKey, if_neg hsuite] at hok
  obtain ⟨combined, hcombined, -⟩ := except_bind_ok hok
  rw [combineSharedSecrets, combineClassical, if_pos hsuite] at hcombined
  cases hcombined

/-- What the one-time prekey contributes, if there is one. -/
theorem responder_prekey (hi : GoodHandshake h) {ephPub packed : Bytes} {keyId : Json}
    {b b' : ClientPreKeyBundle} {x : Option (K × Int × Bytes)}
    (hok : responderDh4 h ephPub keyId b = .ok x b') (hpacked : packOpkId keyId = .ok packed) :
    packed = packedOpk (x.map (·.2)) ∧
      (∀ id pub, x.map (·.2) = some (id, pub) → 0 ≤ id ∧ id < 2 ^ 32) ∧
      (∀ k, x.map (·.1) = some k → (h.bytes k).length = 32) ∧
      ∀ id pub, x.map (·.2) = some (id, pub) →
        ∃ p, h.publicKey p = pub ∧ h.sharedKey p ephPub = x.map (·.1) := by
  rcases responderDh4_ok hok with ⟨rfl, rfl, -⟩ | ⟨id, key, k, hid, -, -, hk, rfl, -⟩
  · cases hpacked
    exact ⟨rfl, (fun _ _ hx => by cases hx), (fun _ hx => by cases hx),
      (fun _ _ hx => by cases hx)⟩
  · obtain ⟨hrange, rfl⟩ := packOpkId_key hid hpacked
    refine ⟨rfl, fun _ _ hx => ?_, fun _ hx => ?_, fun _ _ hx => ?_⟩
    · cases hx
      exact hrange
    · cases hx
      exact hi.shared_length hk
    · cases hx
      exact ⟨_, rfl, hk⟩

/-- What the responder went by: the message, its bundle, and the prekey under
the id in the message. -/
structure ResponderCall (h : HandshakeCrypto K P C) (b : ClientPreKeyBundle) (idPub ephPub : Bytes)
    (opkIdUsed : Json) (sent : Option Bytes) (r : X3DHResult K) (u : HandshakeKeys K) : Prop where
  suite : r.algorithmSuite = u.suite
  suited : u.suite = sent.getD algorithmSuiteClassical
  initiator : u.initiatorIdentity = idPub
  ephemeral : u.ephemeral = ephPub
  prekey : u.signedPrekey = b.signedPrekey.publicKey
  oneTime : (opkIdUsed = .null ∧ u.oneTimePrekey = none) ∨
    ∃ id opk, opkIdUsed.asKey = .ok (some id) ∧ Odict.get? b.oneTimePrekeys id = some opk ∧
      u.oneTimePrekey = some (id, h.publicKey (h.privateKey opk.privateKey))
  hybrid : b.isHybrid = true → u.suite = algorithmSuiteHybridKyber

theorem responder_ok (hi : GoodHandshake h) {b b' : ClientPreKeyBundle} {idPub ephPub : Bytes}
    {opkIdUsed : Json} {ct suite : Option Bytes} {backend : Option (PqBackend K)}
    {r : X3DHResult K} {u : HandshakeKeys K}
    (hok : x3dhResponderKeyed h idPub ephPub opkIdUsed ct suite backend b = .ok (r, u) b') :
    ∃ dh1 dh2 dh3 dh4, Handshake h u r.rootKey dh1 dh2 dh3 dh4 ∧
      ResponderSide h (h.privateKey b.identityDhPrivate) (h.privateKey b.signedPrekey.privateKey)
        u dh1 dh2 dh3 dh4 ∧
      ResponderCall h b idPub ephPub opkIdUsed suite r u := by
  simp only [x3dhResponderKeyed] at hok
  obtain ⟨hlens, hok⟩ := guard_ok hok
  obtain ⟨_, _, hget, hok⟩ := bind_ok hok
  cases hget
  obtain ⟨_, hcheck, hok⟩ := lift_bind_ok hok
  obtain ⟨_, -, hok⟩ := lift_bind_ok hok
  obtain ⟨spk, hspk, hok⟩ := lift_bind_ok hok
  obtain ⟨ikB, hikB, hok⟩ := lift_bind_ok hok
  obtain ⟨dh1, hdh1, hok⟩ := lift_bind_ok hok
  obtain ⟨dh2, hdh2, hok⟩ := lift_bind_ok hok
  obtain ⟨dh3, hdh3, hok⟩ := lift_bind_ok hok
  obtain ⟨opk, b₁, hopk, hok⟩ := bind_ok hok
  obtain ⟨pq, hpq, hok⟩ := lift_bind_ok hok
  obtain ⟨t, ht, hok⟩ := lift_bind_ok hok
  obtain ⟨root, hroot, hok⟩ := lift_bind_ok hok
  cases hok
  obtain ⟨-, rfl⟩ := x25519PrivateKey_ok hspk
  obtain ⟨-, rfl⟩ := x25519PrivateKey_ok hikB
  obtain ⟨packed, hpacked, rfl⟩ := buildTranscript_ok ht
  simp only [not_or, not_not] at hlens
  have hs1 := shared_of_dhWith hdh1
  have hs2 := shared_of_dhWith hdh2
  have hs3 := shared_of_dhWith hdh3
  obtain ⟨rfl, hrange, hlen4, hstep4⟩ := responder_prekey hi hopk hpacked
  have hsuite : (suite.getD algorithmSuiteClassical = algorithmSuiteClassical ∧ pq = none) ∨
      (suite.getD algorithmSuiteClassical = algorithmSuiteHybridKyber ∧ ∃ k, pq = some k) := by
    rcases checkSuite_ok hcheck with ⟨hb, hs, hct⟩ | ⟨hb, -, -⟩
    · exact Or.inr ⟨hs, responderPq_hybrid hb hct hpq⟩
    · rw [responderPq_classical hb] at hpq
      cases hpq
      exact Or.inl ⟨suite_of_root hroot, rfl⟩
  refine ⟨dh1, dh2, dh3, opk.map (·.1), ⟨hlens.1, hi.public_length _, hlens.2, hrange, ?_,
    hi.shared_length hs1, hi.shared_length hs2, hi.shared_length hs3, hlen4, hsuite, hroot⟩,
    ⟨rfl, rfl, hs1, hs2, hs3, hstep4⟩, ⟨rfl, rfl, rfl, rfl, rfl, ?_, fun hb => ?_⟩⟩
  · rw [Option.isSome_map, Option.isSome_map]
  · rcases responderDh4_ok hopk with ⟨hnull, rfl, -⟩ | ⟨id, key, k, hid, -, hkey, -, rfl, -⟩
    · exact Or.inl ⟨hnull, rfl⟩
    · exact Or.inr ⟨id, key, hid, hkey, rfl⟩
  · rcases checkSuite_ok hcheck with ⟨-, hs, -⟩ | ⟨hnot, -, -⟩
    · exact hs
    · rw [hb] at hnot
      cases hnot

/-! ## Agreement -/

section Agree

variable (hi : HandshakeIdeal h) {ikA eph ikB spk : P} {u u' : HandshakeKeys K}
  {root root' dh1 dh2 dh3 dh1' dh2' dh3' : K} {dh4 dh4' : Option K}

omit hi in
/-- The same keys give the same DH outputs, from either end. -/
theorem dh_agree (hg : GoodHandshake h) (hA : InitiatorSide h ikA eph u dh1 dh2 dh3 dh4)
    (hB : ResponderSide h ikB spk u dh1' dh2' dh3' dh4') (hopk : dh4.isSome = u.oneTimePrekey.isSome)
    (hopk' : dh4'.isSome = u.oneTimePrekey.isSome) :
    dh1 = dh1' ∧ dh2 = dh2' ∧ dh3 = dh3' ∧ dh4 = dh4' := by
  have h1 := hA.step1
  have h2 := hA.step2
  have h3 := hA.step3
  rw [← hB.prekey, hg.commutes, hA.identity, hB.step1] at h1
  rw [← hB.identity, hg.commutes, hA.ephemeral, hB.step2] at h2
  rw [← hB.prekey, hg.commutes, hA.ephemeral, hB.step3] at h3
  refine ⟨(Option.some.inj h1).symm, (Option.some.inj h2).symm, (Option.some.inj h3).symm, ?_⟩
  cases hu : u.oneTimePrekey with
  | none =>
      rw [hu, Option.isSome_none, Option.isSome_eq_false_iff, Option.isNone_iff_eq_none]
        at hopk hopk'
      rw [hopk, hopk']
  | some x =>
      obtain ⟨id, pub⟩ := x
      obtain ⟨opk, rfl, hstep⟩ := hB.step4 id pub hu
      rw [← hA.step4 id _ hu, hg.commutes, hA.ephemeral, hstep]

omit hi in
/-- Sides that went by the same keys have the same root key. -/
theorem roots_agree (hg : GoodHandshake h) (hs : Handshake h u root dh1 dh2 dh3 dh4)
    (hs' : Handshake h u root' dh1' dh2' dh3' dh4') (hA : InitiatorSide h ikA eph u dh1 dh2 dh3 dh4)
    (hB : ResponderSide h ikB spk u dh1' dh2' dh3' dh4') : root = root' := by
  obtain ⟨rfl, rfl, rfl, rfl⟩ := dh_agree hg hA hB hs.opk hs'.opk
  exact Except.ok.inj (hs.root.symm.trans hs'.root)

include hi in
/-- Equal DH outputs come from the same prekeys. -/
theorem prekeys_agree (hA : InitiatorSide h ikA eph u dh1 dh2 dh3 dh4)
    (hB : ResponderSide h ikB spk u' dh1' dh2' dh3' dh4') (heph : u.ephemeral = u'.ephemeral)
    (h3 : dh3 = dh3') : u.signedPrekeyDh = u'.signedPrekeyDh := by
  have hstep := hB.step3
  rw [← heph, ← hA.ephemeral, hi.commutes, hB.prekey, ← h3] at hstep
  exact hi.shared_inj hA.step3 hstep

include hi in
/-- The one-time prekey: without one there is no fourth output, and with one
the id is in the transcript and the key in the output. -/
theorem opk_agree (hs : Handshake h u root dh1 dh2 dh3 dh4)
    (hs' : Handshake h u' root' dh1' dh2' dh3' dh4')
    (hA : InitiatorSide h ikA eph u dh1 dh2 dh3 dh4)
    (hB : ResponderSide h ikB spk u' dh1' dh2' dh3' dh4') (heph : u.ephemeral = u'.ephemeral)
    (hid : packedOpk u.oneTimePrekey = packedOpk u'.oneTimePrekey) (h4 : dh4 = dh4') :
    u.oneTimePrekey = u'.oneTimePrekey := by
  have hsome : u.oneTimePrekey.isSome = u'.oneTimePrekey.isSome := by
    rw [← hs.opk, h4, hs'.opk]
  cases hu : u.oneTimePrekey with
  | none =>
      rw [hu] at hsome
      exact (Option.isNone_iff_eq_none.mp (Option.isSome_eq_false_iff.mp hsome.symm)).symm
  | some x =>
      obtain ⟨id, pub⟩ := x
      rw [hu] at hsome
      obtain ⟨⟨id', pub'⟩, hu'⟩ := Option.isSome_iff_exists.mp hsome.symm
      have hk := hs.opk
      rw [hu] at hk
      obtain ⟨k, hk⟩ := Option.isSome_iff_exists.mp hk
      obtain ⟨opk, hopk, hstep⟩ := hB.step4 id' pub' hu'
      rw [← heph, ← hA.ephemeral, hi.commutes, hopk, ← h4, hk] at hstep
      have hpub : pub = pub' := hi.shared_inj ((hA.step4 id pub hu).trans hk) hstep
      rw [hu, hu'] at hid
      have hmod := uint32be_eq_iff.mp hid
      have hrange := hs.opkId id pub hu
      have hrange' := hs'.opkId id' pub' hu'
      have hids : id = id' := by omega
      rw [hu', hids, hpub]

end Agree

/-- For every bundle of a responder, every peer bundle an initiator accepts and
every pair of successful calls: the two root keys are equal exactly if both
sides went by the same identity keys, signed prekey, ephemeral key, one-time
prekey, suite and post-quantum secret; and a responder with a hybrid bundle
agrees on nothing but the hybrid suite. -/
theorem x3dh_agreement (hi : HandshakeIdeal h) {identityDhPrivate : Bytes} {eph : P}
    {peer : PeerBundle} {opk : Option (Int × Bytes)} {backend backend' : Option (PqBackend K)}
    {r : X3DHResult K} {ephPub : Bytes} {u : HandshakeKeys K}
    (hinit : x3dhInitiatorKeyed h identityDhPrivate eph peer opk backend = .ok ((r, ephPub), u))
    {b b' : ClientPreKeyBundle} {idPub' ephPub' : Bytes} {opkIdUsed : Json}
    {ct suite : Option Bytes} {r' : X3DHResult K} {u' : HandshakeKeys K}
    (hresp : x3dhResponderKeyed h idPub' ephPub' opkIdUsed ct suite backend' b
      = .ok (r', u') b') :
    (r.rootKey = r'.rootKey ↔ u = u') ∧
      (b.isHybrid = true → r'.algorithmSuite = algorithmSuiteHybridKyber ∧
        (r.rootKey = r'.rootKey → r.algorithmSuite = algorithmSuiteHybridKyber)) := by
  obtain ⟨dh1, dh2, dh3, dh4, hs, hA, hcall⟩ := initiator_ok hi.good hinit
  obtain ⟨dh1', dh2', dh3', dh4', hs', hB, hcall'⟩ := responder_ok hi.good hresp
  have hagree : r.rootKey = r'.rootKey → u = u' := by
    intro hroot
    rw [hroot] at hs
    obtain ⟨hsuites, hpq, ht, hikm⟩ := hs.root_inj hi hs'
    obtain ⟨h3, h4⟩ := hs.ikm_inj hi hs' hikm
    obtain ⟨hidA, hidB, hspk, heph, hid⟩ := hs.transcript_inj hs' hsuites ht
    have hspkDh := prekeys_agree hi hA hB heph h3
    have hopk := opk_agree hi hs hs' hA hB heph hid h4
    cases u
    cases u'
    simp only at hidA hidB hspk hspkDh heph hopk hsuites hpq
    rw [hidA, hidB, hspk, hspkDh, heph, hopk, hsuites, hpq]
  refine ⟨⟨hagree, ?_⟩, fun hb => ⟨hcall'.suite.trans (hcall'.hybrid hb), fun hroot => ?_⟩⟩
  · rintro rfl
    exact roots_agree hi.good hs hs' hA hB
  · rw [hcall.suite, hagree hroot, hcall'.hybrid hb]

/-! ## The symbolic model -/

/-- An injective digest whose end can be seen. -/
def symDigest : Bytes → Bytes
  | [] => [0]
  | x :: t => 1 :: x :: symDigest t

theorem symDigest_split {t t' s s' : Bytes} (heq : symDigest t ++ s = symDigest t' ++ s') :
    t = t' := by
  induction t generalizing t' with
  | nil =>
      cases t' with
      | nil => rfl
      | cons x' t' =>
          injection heq with hhead
          cases hhead
  | cons x t ih =>
      cases t' with
      | nil =>
          injection heq with hhead
          cases hhead
      | cons x' t' =>
          injection heq with _ hrest
          injection hrest with hx hrest
          rw [hx, ih hrest]

/-- A private key is told by its last byte; a signature shows what it signs,
under whose key. -/
def symHandshake : HandshakeCrypto SymKey Nat Box where
  toCrypto := symbolic
  privateKey := fun b => (b.getLastD 0).toNat
  sha256 := symDigest
  sign := fun privateKey message => privateKey ++ message
  verify := fun publicKey message signature => decide (signature = publicKey ++ message)

theorem symHandshake_ideal : HandshakeIdeal symHandshake where
  toInjective := symKeys_injective
  cat_bytes := fun _ _ => rfl
  cat_inj := fun heq _ => by
    injection heq with hl hr
    exact ⟨hl, hr⟩
  public_length := fun _ => rfl
  shared_length := fun hk => by
    rw [symbolic_shared hk]
    rfl
  commutes := fun p q => by
    obtain ⟨k, hk, hk'⟩ := symbolic_goodDh.commutes p q
    exact hk.trans hk'.symm
  shared_inj := fun {p X Y k} hX hY => by
    rcases symbolic_dhInjective p p X Y k hX hY with ⟨-, heq⟩ | ⟨hX, hY⟩
    · exact heq
    · rw [hX, hY]
  sha256_inj := fun {t t'} heq => symDigest_split (congrArg (· ++ []) heq)
  sha256_split := fun heq => congrArg symDigest (symDigest_split heq)

/-- Somebody with a hybrid bundle and one one-time prekey. -/
def symBundle : ClientPreKeyBundle :=
  let key (n : UInt8) : Bytes := List.replicate 31 9 ++ [n]
  { identity := ⟨key 1, key 1⟩
    identityDhPrivate := key 2
    signedPrekey := SignedPreKey.generate symHandshake 1 ⟨key 1, key 1⟩ (key 3)
    oneTimePrekeys := [(1000, OneTimePreKey.generate symHandshake 1000 (key 4))]
    pqPublicKey := some [50]
    pqSecretKey := some [51]
    algorithmSuite := algorithmSuiteHybridKyber }

/-- What the others are told of it. -/
def symPeerBundle : PeerBundle where
  identityPub := symBundle.identity.publicKey
  identityDhPub := symPublicKey 2
  spkId := 1
  spkPub := symPublicKey 3
  spkSig := symBundle.signedPrekey.signature
  opks := [(1000, symPublicKey 4)]
  pqPub := some [50]
  algorithmSuite := algorithmSuiteHybridKyber

def symKem : PqBackend SymKey where
  algorithmSuite := algorithmSuiteHybridKyber
  generateKeypair := .ok ([50], [51])
  encapsulate := fun _ => .ok ([52], .atom (.secret 9))
  decapsulate := fun _ _ => .ok (.atom (.secret 9))

theorem x3dh_agreement_hybrid : ∃ r ephPub u r' u' b',
    x3dhInitiatorKeyed symHandshake (symPublicKey 5) 6 symPeerBundle
      (some (1000, symPublicKey 4)) (some symKem) = .ok ((r, ephPub), u) ∧
    x3dhResponderKeyed symHandshake (symPublicKey 5) (symPublicKey 6) (.int 1000) (some [52])
      (some algorithmSuiteHybridKyber) (some symKem) symBundle = .ok (r', u') b' ∧
    r.rootKey = r'.rootKey ∧ r.algorithmSuite = algorithmSuiteHybridKyber := by
  have hcalls : ∃ r ephPub u r' u' b',
      x3dhInitiatorKeyed symHandshake (symPublicKey 5) 6 symPeerBundle
        (some (1000, symPublicKey 4)) (some symKem) = .ok ((r, ephPub), u) ∧
      x3dhResponderKeyed symHandshake (symPublicKey 5) (symPublicKey 6) (.int 1000) (some [52])
        (some algorithmSuiteHybridKyber) (some symKem) symBundle = .ok (r', u') b' ∧
      u = u' := ⟨_, _, _, _, _, _, rfl, rfl, rfl⟩
  obtain ⟨r, ephPub, u, r', u', b', hinit, hresp, hkeys⟩ := hcalls
  obtain ⟨hiff, hhybrid⟩ := x3dh_agreement symHandshake_ideal hinit hresp
  have hroot := hiff.mpr hkeys
  exact ⟨r, ephPub, u, r', u', b', hinit, hresp, hroot, (hhybrid rfl).2 hroot⟩

end GhostChat.Proofs
