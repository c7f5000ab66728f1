import GhostChat.Proofs.Bundles

/-!
# What a failed handshake costs

`x3dh_responder` takes the one-time prekey out of the bundle in the middle. In
front of it are the lengths, the first look at the suite, the signature and
three DH steps, and a call that fails there has changed nothing. Behind it are
the DH step with the prekey itself, the post-quantum secret, the packing of
the id and the second look at the suite, and a call that fails there has used
up the prekey for nothing.

The two looks at the suite are what makes this more than an accident: the
first one lets any suite through that is not the hybrid one, and only the
second one wants it to be the classical one.
-/

namespace GhostChat.Proofs

open GhostChat.Lib GhostChat.Lib.Effect GhostChat.Ref

variable {K P C : Type} {h : HandshakeCrypto K P C} {b : ClientPreKeyBundle}

/-- The arguments of `x3dh_responder`, but for the bundle. -/
structure ResponderArgs (K : Type) where
  initiatorIdentityDhPub : Bytes
  initiatorEphPub : Bytes
  opkIdUsed : Json
  pqCiphertext : Option Bytes
  algorithmSuite : Option Bytes
  pqBackend : Option (PqBackend K)

namespace ResponderArgs

variable {x : ResponderArgs K}

def suite (x : ResponderArgs K) : Bytes := x.algorithmSuite.getD algorithmSuiteClassical

def callKeyed (h : HandshakeCrypto K P C) (x : ResponderArgs K) :
    EStateM Exn ClientPreKeyBundle (X3DHResult K × HandshakeKeys K) :=
  x3dhResponderKeyed h x.initiatorIdentityDhPub x.initiatorEphPub x.opkIdUsed x.pqCiphertext
    x.algorithmSuite x.pqBackend

def call (h : HandshakeCrypto K P C) (x : ResponderArgs K) :
    EStateM Exn ClientPreKeyBundle (X3DHResult K) :=
  x3dhResponder h x.initiatorIdentityDhPub x.initiatorEphPub x.opkIdUsed x.pqCiphertext
    x.algorithmSuite x.pqBackend

/-! ## The conditions of the two halves -/

/-- The DH step with a private key in the bundle and a public key from the
message. -/
def DhStep (h : HandshakeCrypto K P C) (priv pub : Bytes) : Prop :=
  priv.length = 32 ∧ pub.length = 32 ∧ (h.sharedKey (h.privateKey priv) pub).isSome

/-- The suite is the hybrid one, with a ciphertext, if the bundle is hybrid,
and any other, with no ciphertext, if it is not. -/
def SuiteFits (b : ClientPreKeyBundle) (x : ResponderArgs K) : Prop :=
  if b.isHybrid then x.pqCiphertext.isSome ∧ x.suite = algorithmSuiteHybridKyber
  else x.pqCiphertext = none ∧ x.suite ≠ algorithmSuiteHybridKyber

/-- Nothing in front of the prekey raises. -/
structure ReachesPrekey (h : HandshakeCrypto K P C) (b : ClientPreKeyBundle)
    (x : ResponderArgs K) : Prop where
  suite : SuiteFits b x
  signed : h.verify b.identity.publicKey b.signedPrekey.publicKey b.signedPrekey.signature = true
  dh1 : DhStep h b.signedPrekey.privateKey x.initiatorIdentityDhPub
  dh2 : DhStep h b.identityDhPrivate x.initiatorEphPub
  dh3 : DhStep h b.signedPrekey.privateKey x.initiatorEphPub

/-- A hybrid bundle needs a backend and a ciphertext that it decapsulates to
something; any other bundle needs the classical suite. -/
def PqFits (h : HandshakeCrypto K P C) (b : ClientPreKeyBundle) (x : ResponderArgs K) : Prop :=
  if b.isHybrid then
    ∃ pq ciphertext secretKey k, x.pqBackend = some pq ∧ x.pqCiphertext = some ciphertext ∧
      b.pqSecretKey = some secretKey ∧ ciphertext ≠ [] ∧
      pq.decapsulate ciphertext secretKey = .ok k ∧ h.bytes k ≠ []
  else x.suite = algorithmSuiteClassical

/-- Nothing behind the prekey raises. -/
structure FinishesWith (h : HandshakeCrypto K P C) (b : ClientPreKeyBundle) (x : ResponderArgs K)
    (id : Int) (opk : OneTimePreKey) : Prop where
  dh4 : DhStep h opk.privateKey x.initiatorEphPub
  pq : PqFits h b x
  -- A float that equals an integer finds the prekey and cannot be packed.
  packs : (∀ q, x.opkIdUsed ≠ .float q) ∧ 0 ≤ id ∧ id < 2 ^ 32

/-! ## Step by step -/

theorem x25519PrivateKey_eq {priv : Bytes} (hlen : priv.length = 32) :
    x25519PrivateKey h priv = .ok (h.privateKey priv) := by
  rw [x25519PrivateKey, if_neg (not_not.mpr hlen)]

theorem DhStep.dhWith_ok {priv pub : Bytes} (hdh : DhStep h priv pub) :
    ∃ k, dhWith h.toCrypto (some (h.privateKey priv)) pub = .ok k := by
  obtain ⟨-, hpub, hshared⟩ := hdh
  obtain ⟨k, hk⟩ := Option.isSome_iff_exists.mp hshared
  refine ⟨k, ?_⟩
  rw [dhWith, dhPubLen, if_neg (not_not.mpr hpub)]
  simp only [hk]

theorem dhStep_of_ok {priv pub : Bytes} {p : P} {k : K} (hp : x25519PrivateKey h priv = .ok p)
    (hk : dhWith h.toCrypto (some p) pub = .ok k) : DhStep h priv pub := by
  obtain ⟨hlen, rfl⟩ := x25519PrivateKey_ok hp
  refine ⟨hlen, ?_, ?_⟩
  · by_contra hpub
    rw [dhWith, dhPubLen, if_pos hpub] at hk
    cases hk
  · rw [shared_of_dhWith hk]
    rfl

theorem checkSuite_iff : checkSuite b x.pqCiphertext x.suite = .ok () ↔ SuiteFits b x := by
  rw [checkSuite, SuiteFits]
  cases b.isHybrid <;> cases x.pqCiphertext <;> simp [isHybridSuite]

theorem verifySpk_iff : b.verifySpk h = .ok () ↔
    h.verify b.identity.publicKey b.signedPrekey.publicKey b.signedPrekey.signature = true := by
  rw [ClientPreKeyBundle.verifySpk]
  split
  · next hv => exact iff_of_true rfl hv
  · next hv => exact iff_of_false (by rintro ⟨⟩) hv

/-- A suite that is not the classical one needs a secret to combine with. -/
theorem rootKey_iff (a : KeyAlg K) (shared : K) (pqShared : Option K) (th suite : Bytes) :
    (∃ root, x3dhRootKey a shared pqShared th suite = .ok root) ↔
      suite = algorithmSuiteClassical ∨ ∃ k, pqShared = some k ∧ a.bytes k ≠ [] := by
  rw [x3dhRootKey]
  by_cases hclassical : suite = algorithmSuiteClassical
  · rw [if_pos hclassical]
    exact iff_of_true ⟨_, rfl⟩ (Or.inl hclassical)
  · rw [if_neg hclassical, or_iff_right hclassical]
    simp only [combineSharedSecrets, combineClassical, if_pos hclassical]
    cases pqShared with
    | none => exact iff_of_false (by rintro ⟨_, ⟨⟩⟩) (by rintro ⟨_, ⟨⟩, _⟩)
    | some k =>
        by_cases hk : a.bytes k = []
        · simp only [hk, List.isEmpty_nil, if_true]
          refine iff_of_false (by rintro ⟨_, ⟨⟩⟩) ?_
          rintro ⟨k', heq, hne⟩
          cases heq
          exact hne hk
        · simp only [List.isEmpty_iff, hk, if_false]
          exact iff_of_true ⟨_, rfl⟩ ⟨k, rfl, hk⟩

/-- The post-quantum secret is there where it is needed, and the root key can
be derived with it. -/
theorem pqFits_iff (hsuite : SuiteFits b x) :
    PqFits h b x ↔ ∃ pqShared, responderPq b x.pqCiphertext x.pqBackend = .ok pqShared ∧
      (x.suite = algorithmSuiteClassical ∨ ∃ k, pqShared = some k ∧ h.bytes k ≠ []) := by
  rw [SuiteFits] at hsuite
  rw [PqFits]
  cases hb : b.isHybrid with
  | false =>
      simp only [Bool.false_eq_true, if_false, responderPq_classical hb]
      constructor
      · exact fun hclassical => ⟨none, rfl, Or.inl hclassical⟩
      · rintro ⟨pqShared, hnone, hclassical | ⟨k, hk, -⟩⟩
        · exact hclassical
        · cases hnone
          cases hk
  | true =>
      rw [hb, if_pos rfl] at hsuite
      obtain ⟨hct, hhybrid⟩ := hsuite
      obtain ⟨ct, hct⟩ := Option.isSome_iff_exists.mp hct
      obtain ⟨sk, hsk⟩ : ∃ sk, b.pqSecretKey = some sk := by
        simp only [ClientPreKeyBundle.isHybrid, Bool.and_eq_true] at hb
        exact Option.isSome_iff_exists.mp hb.1.1
      have hclassical : x.suite ≠ algorithmSuiteClassical := hhybrid ▸ suites_differ
      simp only [if_true, hct, hsk, responderPq, hb, or_iff_right hclassical]
      constructor
      · rintro ⟨pq, ct', sk', k, hpq, hct', hsk', hne, hdec, hk⟩
        cases hct'
        cases hsk'
        refine ⟨some k, ?_, k, rfl, hk⟩
        simp only [hpq, List.isEmpty_iff, hne, if_false, hdec]
        rfl
      · rintro ⟨pqShared, hpq, k, rfl, hk⟩
        cases hbackend : x.pqBackend with
        | none => rw [hbackend] at hpq; cases hpq
        | some pq =>
            rw [hbackend] at hpq
            simp only at hpq
            split at hpq
            · cases hpq
            · next hne =>
                obtain ⟨k', hdec, hkk⟩ := except_map_ok hpq
                cases hkk
                exact ⟨pq, ct, sk, k, rfl, rfl, rfl, fun hnil => hne (List.isEmpty_iff.mpr hnil),
                  hdec, hk⟩

/-- Packing the id is what can go wrong with the transcript. -/
theorem buildTranscript_iff (A B S E : Bytes) (id : Json) (suite : Bytes) :
    (∃ t, buildTranscript A B S E id suite = .ok t) ↔ ∃ packed, packOpkId id = .ok packed := by
  constructor
  · rintro ⟨t, ht⟩
    obtain ⟨packed, hpacked, -⟩ := buildTranscript_ok ht
    exact ⟨packed, hpacked⟩
  · rintro ⟨packed, hpacked⟩
    rw [buildTranscript, hpacked]
    exact ⟨_, rfl⟩

/-- A call that fails in front of the prekey has changed nothing. -/
theorem raises_early (hearly : ¬ ReachesPrekey h b x) : ∃ e, x.callKeyed h b = .error e b := by
  simp only [callKeyed, x3dhResponderKeyed]
  refine guard_raises fun _ => ?_
  rw [bind_apply, get_apply]
  refine lift_bind_raises fun _ hcheck => lift_bind_raises fun _ hsigned => ?_
  refine lift_bind_raises fun spk hspk => lift_bind_raises fun ikB hikB => ?_
  refine lift_bind_raises fun dh1 hdh1 => lift_bind_raises fun dh2 hdh2 => ?_
  refine lift_bind_raises fun dh3 hdh3 => absurd ?_ hearly
  exact ⟨checkSuite_iff.mp hcheck, verifySpk_iff.mp hsigned, dhStep_of_ok hspk hdh1,
    dhStep_of_ok hikB hdh2, dhStep_of_ok hspk hdh3⟩

/-- A call that comes to the prekey takes it, and then something that leaves
the bundle alone and returns exactly if the id can be packed and the suite
fits. -/
theorem reaches_prekey (hreach : ReachesPrekey h b x) :
    ∃ late : Option (K × Int × Bytes) →
        EStateM Exn ClientPreKeyBundle (X3DHResult K × HandshakeKeys K),
      x.callKeyed h b = (responderDh4 h x.initiatorEphPub x.opkIdUsed >>= late) b ∧
      (∀ y I, Keeps I (late y)) ∧
      ∀ y b', (∃ r, late y b' = .ok r b') ↔
        (∃ packed, packOpkId x.opkIdUsed = .ok packed) ∧ PqFits h b x := by
  obtain ⟨dh1, hdh1⟩ := hreach.dh1.dhWith_ok
  obtain ⟨dh2, hdh2⟩ := hreach.dh2.dhWith_ok
  obtain ⟨dh3, hdh3⟩ := hreach.dh3.dhWith_ok
  have hlens : ¬ (x.initiatorIdentityDhPub.length ≠ keyLen ∨ x.initiatorEphPub.length ≠ keyLen) := by
    rw [not_or, not_not, not_not]
    exact ⟨hreach.dh1.2.1, hreach.dh2.2.1⟩
  have hcheck : checkSuite b x.pqCiphertext (x.algorithmSuite.getD algorithmSuiteClassical)
      = .ok () := checkSuite_iff.mpr hreach.suite
  refine ⟨?_, ?_, ?_, ?_⟩
  rotate_left
  · simp only [callKeyed, x3dhResponderKeyed, if_neg hlens, bind_apply, get_apply, hcheck, lift_ok,
      verifySpk_iff.mpr hreach.signed, x25519PrivateKey_eq hreach.dh1.1,
      x25519PrivateKey_eq hreach.dh2.1, hdh1, hdh2, hdh3]
    rfl
  · intro y I
    exact keeps_bind (keeps_lift _) fun _ => keeps_bind (keeps_lift _) fun _ =>
      keeps_bind (keeps_lift _) fun _ => keeps_pure _
  · intro y b'
    rw [pqFits_iff hreach.suite]
    constructor
    · rintro ⟨r, hok⟩
      obtain ⟨pqShared, hpq, hok⟩ := lift_bind_ok hok
      obtain ⟨t, ht, hok⟩ := lift_bind_ok hok
      obtain ⟨root, hroot, -⟩ := lift_bind_ok hok
      exact ⟨(buildTranscript_iff _ _ _ _ _ _).mp ⟨t, ht⟩, pqShared, hpq,
        (rootKey_iff _ _ _ _ _).mp ⟨root, hroot⟩⟩
    · rintro ⟨hpacked, pqShared, hpq, hsecret⟩
      obtain ⟨t, ht⟩ := (buildTranscript_iff x.initiatorIdentityDhPub
        (h.publicKey (h.privateKey b.identityDhPrivate)) b.signedPrekey.publicKey x.initiatorEphPub
        x.opkIdUsed x.suite).mpr hpacked
      obtain ⟨root, hroot⟩ := (rootKey_iff h.toKeyAlg (h.hkdf (x3dhIkm h.toKeyAlg dh1 dh2 dh3
        (y.map (·.1))) (h.lit x3dhSalt) x3dhInfo 0) pqShared (h.sha256 t) x.suite).mpr hsecret
      rw [suite] at ht hroot
      simp only [hpq, ht, hroot, lift_ok]
      exact ⟨_, rfl⟩

/-! ## The prekey -/

theorem packOpkId_iff {keyId : Json} {id : Int} (hid : keyId.asKey = .ok (some id)) :
    (∃ packed, packOpkId keyId = .ok packed) ↔ (∀ q, keyId ≠ .float q) ∧ 0 ≤ id ∧ id < 2 ^ 32 := by
  constructor
  · rintro ⟨packed, hpacked⟩
    refine ⟨?_, (packOpkId_key hid hpacked).1⟩
    rintro q rfl
    cases hpacked
  · rintro ⟨hfloat, hrange⟩
    cases keyId with
    | int n =>
        cases hid
        exact ⟨_, if_pos hrange⟩
    | bool v => exact ⟨_, rfl⟩
    | float q => exact absurd rfl (hfloat q)
    | null => cases hid
    | str s => cases hid
    | list items => cases hid
    | dict fields => cases hid

/-- Once it has the prekey, the call leaves the bundle without it, and returns
exactly if nothing behind it raises. -/
theorem takes_prekey (hreach : ReachesPrekey h b x) {id : Int} {opk : OneTimePreKey}
    (ht : Takes b x.opkIdUsed id opk) :
    after (x.callKeyed h b) = withoutPrekey id b ∧
      ((∃ r b', x.callKeyed h b = .ok r b') ↔ FinishesWith h b x id opk) := by
  obtain ⟨late, hcall, hkeeps, hreturns⟩ := reaches_prekey hreach
  have hnull : x.opkIdUsed ≠ .null := by
    intro hnull
    have hid := ht.1
    rw [hnull] at hid
    cases hid
  have hdh4 : responderDh4 h x.initiatorEphPub x.opkIdUsed b = (do
      let opkPriv ← lift (x25519PrivateKey h opk.privateKey)
      let dh4 ← lift (dhWith h.toCrypto (some opkPriv) x.initiatorEphPub)
      let id ← lift x.opkIdUsed.asKey
      return some (dh4, id.getD 0, h.publicKey opkPriv) :
        EStateM Exn ClientPreKeyBundle _) (withoutPrekey id b) := by
    rw [responderDh4_eq _ hnull, bind_apply, consume_takes ht]
  rw [hcall, bind_apply, hdh4, ← bind_apply]
  constructor
  · refine keeps_bind (I := (· = withoutPrekey id b)) ?_ (fun y => hkeeps y _) _ rfl
    exact keeps_bind (keeps_lift _) fun _ => keeps_bind (keeps_lift _) fun _ =>
      keeps_bind (keeps_lift _) fun _ => keeps_pure _
  · constructor
    · rintro ⟨r, b', hok⟩
      obtain ⟨y, b₁, hok, hlate⟩ := bind_ok hok
      obtain ⟨priv, hpriv, hok⟩ := lift_bind_ok hok
      obtain ⟨dh4, hdh4, -⟩ := lift_bind_ok hok
      have hb₁ : b' = b₁ := by
        have hkept := hkeeps y (· = b₁) b₁ rfl
        rwa [hlate] at hkept
      obtain ⟨hpacked, hpq⟩ := (hreturns y b₁).mp ⟨r, hb₁ ▸ hlate⟩
      exact ⟨dhStep_of_ok hpriv hdh4, hpq, (packOpkId_iff ht.1).mp hpacked⟩
    · rintro ⟨hdh, hpq, hpacks⟩
      obtain ⟨dh4, hk⟩ := hdh.dhWith_ok
      obtain ⟨r, hlate⟩ := (hreturns (some (dh4, id, h.publicKey (h.privateKey opk.privateKey)))
        (withoutPrekey id b)).mpr ⟨(packOpkId_iff ht.1).mpr hpacks, hpq⟩
      refine ⟨r, withoutPrekey id b, ?_⟩
      simp only [bind_apply, x25519PrivateKey_eq hdh.1, hk, ht.1, lift_ok]
      exact hlate

/-! ## Only on success -/

/-- A call that raises leaves the prekeys as they were, and one that returns
has moved exactly the prekey the message names, if it names one. -/
def ConsumesOnSuccess (h : HandshakeCrypto K P C) (b : ClientPreKeyBundle)
    (x : ResponderArgs K) : Prop :=
  (∀ e b', x.call h b = .error e b' →
    b'.oneTimePrekeys = b.oneTimePrekeys ∧ b'.usedOpkIds = b.usedOpkIds) ∧
  ∀ r b', x.call h b = .ok r b' → x.opkIdUsed ≠ .null →
    ∃ id opk, Takes b x.opkIdUsed id opk ∧ b' = withoutPrekey id b

theorem call_error {e : Exn} {b' : ClientPreKeyBundle} :
    x.call h b = .error e b' ↔ x.callKeyed h b = .error e b' := by
  rw [call, x3dhResponder, map_apply, ← callKeyed]
  cases x.callKeyed h b with
  | ok r b₁ => exact iff_of_false (by rintro ⟨⟩) (by rintro ⟨⟩)
  | error e' b₁ => exact ⟨fun heq => by cases heq; rfl, fun heq => by cases heq; rfl⟩

theorem call_ok {r : X3DHResult K} {b' : ClientPreKeyBundle} (hok : x.call h b = .ok r b') :
    ∃ u, x.callKeyed h b = .ok (r, u) b' := by
  obtain ⟨⟨r', u⟩, hcall, rfl⟩ := map_ok hok
  exact ⟨u, hcall⟩

/-- A call that has not taken a prekey has left the bundle alone; if it
returns, the message named none. -/
theorem takes_nothing (hnone : ReachesPrekey h b x → ∀ id opk, ¬ Takes b x.opkIdUsed id opk) :
    after (x.callKeyed h b) = b ∧
      ((∃ r b', x.callKeyed h b = .ok r b') → x.opkIdUsed = .null) := by
  by_cases hreach : ReachesPrekey h b x
  · obtain ⟨late, hcall, hkeeps, -⟩ := reaches_prekey hreach
    rw [hcall, bind_apply]
    by_cases hnull : x.opkIdUsed = .null
    · rw [hnull]
      exact ⟨hkeeps none (· = b) b rfl, fun _ => rfl⟩
    · obtain ⟨e, he⟩ := consume_refuses (hnone hreach)
      rw [responderDh4_eq _ hnull, bind_apply, he]
      exact ⟨rfl, by rintro ⟨_, _, ⟨⟩⟩⟩
  · obtain ⟨e, he⟩ := raises_early hreach
    rw [he]
    exact ⟨rfl, by rintro ⟨_, _, ⟨⟩⟩⟩

/-- For every bundle and every argument: the prekey is consumed only on
success, exactly if a call that comes as far as to take one cannot raise any
more. -/
theorem consumes_on_success_iff : ConsumesOnSuccess h b x ↔
    (ReachesPrekey h b x → ∀ id opk, Takes b x.opkIdUsed id opk → FinishesWith h b x id opk) := by
  by_cases htakes : ReachesPrekey h b x ∧ ∃ id opk, Takes b x.opkIdUsed id opk
  · obtain ⟨hreach, id, opk, ht⟩ := htakes
    obtain ⟨hafter, hreturns⟩ := takes_prekey hreach ht
    have honly : (ReachesPrekey h b x → ∀ id opk, Takes b x.opkIdUsed id opk →
        FinishesWith h b x id opk) ↔ FinishesWith h b x id opk := by
      refine ⟨fun hall => hall hreach id opk ht, fun hfin _ id' opk' ht' => ?_⟩
      have hid := ht'.1
      rw [ht.1] at hid
      cases hid
      have hopk := ht'.2.2
      rw [ht.2.2] at hopk
      cases hopk
      exact hfin
    rw [honly, ← hreturns]
    constructor
    · intro hsafe
      cases hcall : x.callKeyed h b with
      | ok r b' => exact ⟨r, b', rfl⟩
      | error e b' =>
          rw [hcall] at hafter
          have hused := (hsafe.1 e b' (call_error.mpr hcall)).2
          rw [show b' = withoutPrekey id b from hafter, withoutPrekey] at hused
          simp at hused
    · rintro ⟨r, b', hok⟩
      rw [hok] at hafter
      refine ⟨fun e b₁ herr => ?_, fun r₁ b₁ hok₁ _ => ⟨id, opk, ht, ?_⟩⟩
      · rw [call_error, hok] at herr
        cases herr
      · obtain ⟨u, hok₁⟩ := call_ok hok₁
        rw [hok] at hok₁
        cases hok₁
        exact hafter
  · have hnone : ReachesPrekey h b x → ∀ id opk, ¬ Takes b x.opkIdUsed id opk :=
      fun hreach id opk ht => htakes ⟨hreach, id, opk, ht⟩
    obtain ⟨hafter, hreturns⟩ := takes_nothing hnone
    refine iff_of_true ⟨fun e b' herr => ?_, fun r b' hok hid => ?_⟩
      fun hreach id opk ht => absurd ht (hnone hreach id opk)
    · rw [call_error.mp herr] at hafter
      rw [show b' = b from hafter]
      exact ⟨rfl, rfl⟩
    · obtain ⟨u, hok⟩ := call_ok hok
      exact absurd (hreturns ⟨_, _, hok⟩) hid

theorem not_consumesOnSuccess (hraises : value? (x.call h b) = none)
    (hpool : (after (x.call h b)).oneTimePrekeys ≠ b.oneTimePrekeys) :
    ¬ ConsumesOnSuccess h b x := by
  intro hsafe
  cases hcall : x.call h b with
  | ok r b' => rw [hcall] at hraises; cases hraises
  | error e b' =>
      rw [hcall] at hpool
      exact hpool (hsafe.1 e b' hcall).1

end ResponderArgs

/-! ## Two calls that raise behind the prekey -/

/-- A bundle with no post-quantum key and one one-time prekey. -/
def symClassical : ClientPreKeyBundle :=
  { symBundle with
    pqPublicKey := none, pqSecretKey := none, algorithmSuite := algorithmSuiteClassical }

/-- A suite nobody knows, sent to a classical bundle. -/
def symUnknownSuite : ResponderArgs SymKey where
  initiatorIdentityDhPub := symPublicKey 5
  initiatorEphPub := symPublicKey 6
  opkIdUsed := .int 1000
  pqCiphertext := none
  algorithmSuite := some [0]
  pqBackend := none

/-- An empty ciphertext, sent to a hybrid one. -/
def symEmptyCiphertext : ResponderArgs SymKey where
  initiatorIdentityDhPub := symPublicKey 5
  initiatorEphPub := symPublicKey 6
  opkIdUsed := .int 1000
  pqCiphertext := some []
  algorithmSuite := some algorithmSuiteHybridKyber
  pqBackend := some symKem

/-- Both raise, and the prekey is gone. -/
theorem prekey_lost_on_failure :
    value? (symUnknownSuite.call symHandshake symClassical) = none ∧
      (after (symUnknownSuite.call symHandshake symClassical)).oneTimePrekeys = [] ∧
      ¬ ResponderArgs.ConsumesOnSuccess symHandshake symClassical symUnknownSuite ∧
      value? (symEmptyCiphertext.call symHandshake symBundle) = none ∧
      (after (symEmptyCiphertext.call symHandshake symBundle)).oneTimePrekeys = [] ∧
      ¬ ResponderArgs.ConsumesOnSuccess symHandshake symBundle symEmptyCiphertext := by
  have hunknown : value? (symUnknownSuite.call symHandshake symClassical) = none := rfl
  have hunknown' : (after (symUnknownSuite.call symHandshake symClassical)).oneTimePrekeys = [] :=
    rfl
  have hempty : value? (symEmptyCiphertext.call symHandshake symBundle) = none := rfl
  have hempty' : (after (symEmptyCiphertext.call symHandshake symBundle)).oneTimePrekeys = [] := rfl
  have hone : symBundle.oneTimePrekeys ≠ [] := List.cons_ne_nil _ _
  refine ⟨hunknown, hunknown', ResponderArgs.not_consumesOnSuccess hunknown ?_, hempty, hempty',
    ResponderArgs.not_consumesOnSuccess hempty ?_⟩
  · rw [hunknown']
    exact hone.symm
  · rw [hempty']
    exact hone.symm

end GhostChat.Proofs
