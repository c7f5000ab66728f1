import GhostChat.Proofs.Bundles
import GhostChat.Ref.Sample

/-!
# What a rejected bundle leads to

The checks on a peer's bundle are strict, and every one of them raises. What
they raise is caught a few lines further up, logged, and `async_main` goes on
with the peer's ephemeral key, for which the relay's word is all there is. So
a rejected bundle keeps an engine from being installed only where that second
exchange fails for reasons of its own, and those are listed here:
`LegacyWorks` says what it takes from the relay, from X25519 and from the
disk.
-/

namespace GhostChat.Proofs

open GhostChat.Lib GhostChat.Lib.Effect GhostChat.Ref

variable {h : HandshakeCrypto Bytes Bytes Bytes} {bundle : ClientPreKeyBundle}
  {username peer : String} {io : StartIo} {file : SessionFile}

/-- The call ended with an engine installed. -/
def InstallsEngine (r : EStateM.Result Exn SessionFile (Option SessionState)) : Prop :=
  ∃ s, value? r = some (some s)

/-- `PeerBundle.from_dict` or `x3dh_initiator` raises on what the relay gave
for a bundle. -/
def Rejects (h : HandshakeCrypto Bytes Bytes Bytes) (bundle : ClientPreKeyBundle)
    (ephPrivate : Bytes) (bundleDict : Json) : Prop :=
  (∃ e, PeerBundle.fromDict bundleDict = .error e) ∨
    ∃ peerBundle e, PeerBundle.fromDict bundleDict = .ok peerBundle ∧
      x3dhInitiator h bundle.identityDhPrivate ephPrivate peerBundle peerBundle.opks.head? none
        = .error e

/-- A session is there to be loaded, or none is there and one can be
written. -/
def DiskWorks (io : SaveIo) (file : SessionFile) : Prop :=
  (∃ s, loadSession 1000 file = .ok (some s)) ∨ (file = .missing ∧ io = .ok)

/-- The relay gives some key of 32 bytes that X25519 computes with, and the
disk plays along. -/
def LegacyWorks (h : HandshakeCrypto Bytes Bytes Bytes) (io : StartIo) (file : SessionFile) :
    Prop :=
  ∃ peerPub, getPeerKey io.keyReply = .ok peerPub ∧ peerPub.length = 32 ∧
    (∃ secret, h.sharedKey io.kexPrivate peerPub = some secret) ∧ DiskWorks io.legacySave file

/-! ## The way down -/

theorem initiateX3dh_rejected {ephPrivate : Bytes} {bundleDict : Json}
    (hreject : Rejects h bundle ephPrivate bundleDict) :
    ∃ e, initiateX3dh h bundle ephPrivate bundleDict = .error e := by
  rcases hreject with ⟨e, he⟩ | ⟨peerBundle, e, hpeer, he⟩
  · refine ⟨e, ?_⟩
    simp only [initiateX3dh, he]
    rfl
  · refine ⟨e, ?_⟩
    simp only [initiateX3dh, hpeer, he, except_ok_bind]
    rfl

/-- A rejected bundle is as good as none. -/
theorem rejected_falls_back {bundleDict : Json}
    (hreply : getPeerBundle io.bundleReply = .ok bundleDict)
    (hreject : Rejects h bundle io.ephPrivate bundleDict) (file : SessionFile) :
    establishSession h bundle username peer io file = legacyPath h username peer io file := by
  obtain ⟨e, he⟩ := initiateX3dh_rejected hreject
  have hx3dh : x3dhSession h bundle io bundleDict file = .error e file := by
    simp only [x3dhSession, he, bind_apply, lift_error]
  simp only [establishSession, hreply, hx3dh, ite_self]

/-! ## The legacy exchange -/

theorem saveNew_missing (s : SessionState) (io : SaveIo) :
    (∃ s' file', saveNew s io .missing = .ok s' file') ↔ io = .ok := by
  cases io with
  | ok => exact ⟨fun _ => rfl, fun _ => ⟨_, _, rfl⟩⟩
  | failsEarly msg =>
      refine ⟨?_, fun hio => by cases hio⟩
      rintro ⟨s', file', hok⟩
      cases hok
  | failsLate msg =>
      refine ⟨?_, fun hio => by cases hio⟩
      rintro ⟨s', file', hok⟩
      cases hok

theorem loadSession_none {cap : Nat} {file : SessionFile}
    (hload : loadSession cap file = .ok none) : file = .missing := by
  cases file with
  | missing => rfl
  | notJson => cases hload
  | json v =>
      obtain ⟨s, -, hs⟩ := except_map_ok hload
      cases hs

theorem openSession_returns {c : Crypto Bytes Bytes Bytes} {rootKey : Bytes}
    (hroot : (c.bytes rootKey).length = 32) (isInitiator : Bool) (generated : Bytes) (io : SaveIo)
    (file : SessionFile) :
    (∃ s file', openSession c rootKey isInitiator generated io file = .ok s file') ↔
      DiskWorks io file := by
  simp only [openSession, bind_apply, get_apply]
  cases hload : loadSession 1000 file with
  | error e =>
      refine ⟨?_, ?_⟩
      · rintro ⟨s, file', hok⟩
        cases hok
      · rintro (⟨s, hs⟩ | ⟨rfl, -⟩)
        · rw [hload] at hs
          cases hs
        · cases hload
  | ok loaded =>
      cases loaded with
      | some s =>
          exact ⟨fun _ => Or.inl ⟨s, hload⟩, fun _ => ⟨s, file, rfl⟩⟩
      | none =>
          obtain rfl := loadSession_none hload
          obtain ⟨s, hcreate⟩ : ∃ s, createInitialState c rootKey isInitiator none 1000 generated
              = .ok s := by
            rw [createInitialState, if_neg (not_not.mpr hroot)]
            exact ⟨_, rfl⟩
          simp only [hcreate, bind_apply, lift_ok]
          rw [saveNew_missing]
          refine ⟨fun hio => Or.inr ⟨rfl, hio⟩, ?_⟩
          rintro (⟨s, hs⟩ | ⟨-, hio⟩)
          · cases hs
          · exact hio

theorem dhWith_returns {p : Bytes} {pub : Bytes} :
    (∃ k, dhWith h.toCrypto (some p) pub = .ok k) ↔
      pub.length = 32 ∧ ∃ k, h.sharedKey p pub = some k := by
  simp only [dhWith]
  split
  · next hlen =>
      refine ⟨?_, fun hk => absurd hk.1 hlen⟩
      rintro ⟨k, hk⟩
      cases hk
  · next hlen =>
      cases hk : h.sharedKey p pub with
      | none =>
          refine ⟨?_, ?_⟩
          · rintro ⟨k, hk⟩
            cases hk
          · rintro ⟨-, k, hk⟩
            cases hk
      | some k => exact ⟨fun _ => ⟨not_not.mp hlen, k, rfl⟩, fun _ => ⟨k, rfl⟩⟩

theorem legacyPath_installs (hlen : ∀ i s f b, (h.bytes (h.hkdf i s f b)).length = 32)
    (username peer : String) (io : StartIo) (file : SessionFile) :
    InstallsEngine (legacyPath h username peer io file) ↔ LegacyWorks h io file := by
  cases hkey : getPeerKey io.keyReply with
  | error e =>
      refine ⟨?_, ?_⟩
      · rintro ⟨s, hs⟩
        simp only [legacyPath, hkey, pure_apply, value?_ok] at hs
        cases hs
      · rintro ⟨peerPub, hpub, -⟩
        rw [hkey] at hpub
        cases hpub
  | ok peerPub =>
      have hpath : InstallsEngine (legacyPath h username peer io file) ↔
          ∃ s file', legacySession h username peer io peerPub file = .ok s file' := by
        simp only [InstallsEngine, legacyPath, hkey, map_apply]
        cases hs : legacySession h username peer io peerPub file with
        | ok s file' => exact ⟨fun _ => ⟨s, file', rfl⟩, fun _ => ⟨s, rfl⟩⟩
        | error e file' =>
            refine ⟨?_, ?_⟩
            · rintro ⟨s, hs⟩
              cases hs
            · rintro ⟨s, file', hs⟩
              cases hs
      rw [hpath]
      simp only [LegacyWorks, hkey, Except.ok.injEq, exists_eq_left', legacySession]
      cases hdh : dhWith h.toCrypto (some io.kexPrivate) peerPub with
      | error e =>
          refine ⟨?_, ?_⟩
          · rintro ⟨s, file', hok⟩
            cases hok
          · rintro ⟨hpub, hsecret, -⟩
            obtain ⟨k, hk⟩ := dhWith_returns.mpr ⟨hpub, hsecret⟩
            rw [hdh] at hk
            cases hk
      | ok secret =>
          obtain ⟨hpub, hsecret⟩ := dhWith_returns.mp ⟨secret, hdh⟩
          have hroot : (h.bytes (deriveRootKey h.toKeyAlg secret)).length = 32 := hlen _ _ _ _
          simp only [bind_apply, lift_ok]
          rw [openSession_returns hroot]
          exact ⟨fun hdisk => ⟨hpub, hsecret, hdisk⟩, fun hworks => hworks.2.2⟩

/-- For every value the relay returns as a bundle, whatever was tampered with:
if `from_dict` or `x3dh_initiator` rejects it, nothing of it is used, and
`async_main` goes on as if `get_peer_bundle` had raised. It installs an engine
exactly if the exchange it falls back on works: with a key from the relay that
X25519 accepts and a session file that can be read, or written if there is
none. -/
theorem rejected_bundle_ignored (hlen : ∀ i s f b, (h.bytes (h.hkdf i s f b)).length = 32)
    {bundleDict : Json} (hreply : getPeerBundle io.bundleReply = .ok bundleDict)
    (hreject : Rejects h bundle io.ephPrivate bundleDict) (username peer : String)
    (file : SessionFile) :
    (∀ e, establishSession h bundle username peer io file
      = establishSession h bundle username peer { io with bundleReply := .error e } file) ∧
      (InstallsEngine (establishSession h bundle username peer io file) ↔
        LegacyWorks h io file) := by
  rw [rejected_falls_back hreply hreject]
  refine ⟨fun e => ?_, legacyPath_installs hlen username peer io file⟩
  have hnone : getPeerBundle (.error e) = .error e := rfl
  simp only [establishSession, hnone]
  rfl

/-! ## A tampered signature -/

/-- A signed prekey whose signature does not verify is refused, whatever else
the bundle says. -/
theorem initiator_unverified {K P C : Type} {h : HandshakeCrypto K P C} (peerBundle : PeerBundle)
    (hbad : h.verify peerBundle.identityPub peerBundle.spkPub peerBundle.spkSig = false)
    (identityDhPrivate : Bytes) (eph : P) (opk : Option (Int × Bytes))
    (backend : Option (PqBackend K)) :
    ∃ e, x3dhInitiator h identityDhPrivate eph peerBundle opk backend = .error e := by
  cases hr : x3dhInitiator h identityDhPrivate eph peerBundle opk backend with
  | error e => exact ⟨e, rfl⟩
  | ok r =>
      obtain ⟨x, hx, -⟩ := except_map_ok hr
      obtain ⟨_, -, hx⟩ := except_bind_ok hx
      obtain ⟨_, hverify, -⟩ := except_bind_ok hx
      rw [verifySpkSignature, hbad] at hverify
      split at hverify <;> cases hverify

/-- The bundle the relay hands out for Bob, with somebody else's signature
under his signed prekey. -/
def tamperedBundle : ClientPreKeyBundle :=
  { sampleBundle 2 with
    signedPrekey := { (sampleBundle 2).signedPrekey with
      signature := sampleSignature (mix [9]) (sampleBundle 2).signedPrekey.publicKey } }

/-- Replies to `get_bundle` and `get_peer`. -/
def sampleStart (bundleDict keyReply : Json) : StartIo where
  bundleReply := .ok (.dict [("type", .str "peer_bundle"), ("bundle", bundleDict)])
  ephPrivate := mix [11]
  generated := mix [12]
  keyReply := .ok keyReply
  kexPrivate := mix [13]
  legacyGenerated := mix [14]

theorem tampered_rejected : ∃ d, serializeBundlePublic sampleHandshake tamperedBundle = .ok d ∧
    Rejects sampleHandshake (sampleBundle 1) (mix [11]) d := by
  obtain ⟨d, hd, hfrom⟩ := fromDict_public (h := sampleHandshake) (b := tamperedBundle)
    (mix_length _)
  have hbad : sampleHandshake.verify tamperedBundle.identity.publicKey
      tamperedBundle.signedPrekey.publicKey tamperedBundle.signedPrekey.signature = false := by
    decide +kernel
  obtain ⟨e, he⟩ := initiator_unverified (published _ tamperedBundle) hbad
    (sampleBundle 1).identityDhPrivate (mix [11]) _ none
  exact ⟨d, hd, Or.inr ⟨_, e, hfrom, he⟩⟩

theorem sampleStart_bundle (bundleDict keyReply : Json) :
    getPeerBundle (sampleStart bundleDict keyReply).bundleReply = .ok bundleDict := by
  simp [getPeerBundle, checkReply, sampleStart, Json.get, Odict.get?, Json.eqStr]
  rfl

/-- The relay has no key for the peer either. -/
theorem rejected_bundle_ignored_alone : ∃ d,
    Rejects sampleHandshake (sampleBundle 1) (mix [11]) d ∧
    ¬ InstallsEngine (establishSession sampleHandshake (sampleBundle 1) "alice" "bob"
      (sampleStart d (.dict [("type", .str "error")])) .missing) := by
  obtain ⟨d, -, hreject⟩ := tampered_rejected
  refine ⟨d, hreject, ?_⟩
  rw [(rejected_bundle_ignored sampleCrypto_hkdf_length (sampleStart_bundle d _) hreject "alice"
    "bob" .missing).2]
  rintro ⟨peerPub, hkey, -⟩
  simp [getPeerKey, checkReply, sampleStart, Json.get, Odict.get?, Json.eqStr] at hkey
  cases hkey

/-- The signature is forged, the relay gives some ephemeral key, and there is
an engine. -/
theorem tampered_bundle_installs_engine : ∃ d,
    serializeBundlePublic sampleHandshake tamperedBundle = .ok d ∧
    Rejects sampleHandshake (sampleBundle 1) (mix [11]) d ∧
    InstallsEngine (establishSession sampleHandshake (sampleBundle 1) "alice" "bob"
      (sampleStart d (.dict [("type", .str "peer_key"),
        ("ephemeral_pub", .str (b64Encode (mix [7])))])) .missing) := by
  obtain ⟨d, hd, hreject⟩ := tampered_rejected
  refine ⟨d, hd, hreject, ?_⟩
  rw [rejected_falls_back (sampleStart_bundle d _) hreject,
    legacyPath_installs sampleCrypto_hkdf_length]
  refine ⟨mix [7], ?_, mix_length _, ⟨_, rfl⟩, Or.inr ⟨rfl, rfl⟩⟩
  simp [getPeerKey, checkReply, sampleStart, Json.get, Odict.get?, Json.eqStr, initField,
    decodeInitKey]

end GhostChat.Proofs
