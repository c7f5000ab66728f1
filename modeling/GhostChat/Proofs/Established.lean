import GhostChat.Proofs.Crash
import GhostChat.Proofs.Fallback
import GhostChat.Proofs.Late

/-!
# Where a handshake links two clients

A handshake over a genuine bundle gives both ends one root key, and two new
sessions from one root key understand each other. But neither client is sure
to have a new session afterwards. The initiator takes a session file that is
there in place of the new root key. The responder goes on with the new root
key, whose state has version 1, and `save_session` refuses to write that over
a saved session, which has version 2 at least; so it installs nothing.

That leaves the case of no file on either side. The other cases fail for a
reason that is not in the code: a message of the old session opens under no
key of the new one, which needs that the AEAD is bound to its key and that the
new root key has nothing to do with the old session.
-/

namespace GhostChat.Proofs

open GhostChat.Lib GhostChat.Lib.Effect GhostChat.Ref

variable {h : HandshakeCrypto Bytes Bytes Bytes}

/-! ## One root key -/

theorem relayed_keys (m : SessionInit) (fromUser : String) :
    initKeys (m.relayed fromUser) = .ok (m.identityDhPub, m.ephPub) := by
  simp [initKeys, initField, SessionInit.relayed, Odict.get?, decodeInitKey]

theorem relayed_opk (m : SessionInit) (fromUser : String) :
    Json.get (m.relayed fromUser) "opk_id_used" = m.opkIdUsed := by
  simp [Json.get, SessionInit.relayed, Odict.get?]

/-- X25519 between generated keys is all the handshake needs of it. -/
theorem GoodDh.handshake {K P C : Type} {h : HandshakeCrypto K P C} (hdh : GoodDh h.toCrypto)
    (hshared : ∀ {p X k}, h.sharedKey p X = some k → (h.bytes k).length = 32) :
    GoodHandshake h := by
  refine ⟨hdh.public_length, hshared, fun p q => ?_⟩
  obtain ⟨k, hk, hk'⟩ := hdh.commutes p q
  exact hk.trans hk'.symm

section Agree

variable {K P C : Type} {h : HandshakeCrypto K P C} {bA b₀ b b' : ClientPreKeyBundle}
  {eph : P} {d : Json} {r r' : X3DHResult K} {m : SessionInit} {fromUser : String}

/-- The prekey the initiator picks is the one the responder finds. -/
theorem picked_prekey (hmade : WellMade h b₀) (hlater : Later b₀ b) {pub : Bytes} {id : Int}
    {opk : OneTimePreKey}
    (hhead : (b₀.sortedOpks.map fun opk => (opk.keyId, opk.publicKey)).head? = some (id, pub))
    (hget : Odict.get? b.oneTimePrekeys id = some opk) :
    h.publicKey (h.privateKey opk.privateKey) = pub := by
  obtain ⟨key, hkey, hpair⟩ := List.mem_map.mp (List.mem_of_mem_head? hhead)
  obtain ⟨e, he, rfl⟩ := List.mem_map.mp ((List.mem_insertionSort _).mp hkey)
  cases hpair
  obtain ⟨id₀, opk₀⟩ := e
  obtain ⟨hid, hpub⟩ := hmade.opk id₀ opk₀ he
  have hmem := hlater.opk _ _ (Odict.mem_of_get? hget)
  simp only [hid] at hmem
  have hsame : (id₀, opk) = (id₀, opk₀) :=
    List.inj_on_of_nodup_map hmade.nodup hmem he rfl
  cases hsame
  exact hpub.symm

/-- The initiator's call, taken apart. -/
theorem initiateX3dh_ok (hd : serializeBundlePublic h b₀ = .ok d)
    (hinit : initiateX3dh h bA eph d = .ok (r, m)) :
    ∃ u, x3dhInitiatorKeyed h bA.identityDhPrivate eph
        (published (h.publicKey (h.privateKey b₀.identityDhPrivate)) b₀)
        (b₀.sortedOpks.map fun opk => (opk.keyId, opk.publicKey)).head? none
        = .ok ((r, m.ephPub), u) ∧
      m.identityDhPub = h.publicKey (h.privateKey bA.identityDhPrivate) ∧
      m.opkIdUsed = r.usedOpkId := by
  obtain ⟨pub, hpub, -⟩ := except_bind_ok hd
  obtain ⟨key, hkey, -⟩ := except_bind_ok hpub
  obtain ⟨hlen, -⟩ := x25519PrivateKey_ok hkey
  obtain ⟨d', hd', hfrom⟩ := fromDict_public (h := h) hlen
  rw [hd] at hd'
  cases hd'
  simp only [initiateX3dh, hfrom, except_ok_bind] at hinit
  obtain ⟨x, hx, hinit⟩ := except_bind_ok hinit
  obtain ⟨identityDhPub, hidentity, hret⟩ := except_bind_ok hinit
  cases hret
  obtain ⟨y, hy, rfl⟩ := except_map_ok hx
  obtain ⟨keyA, hkeyA, hret⟩ := except_bind_ok hidentity
  cases hret
  obtain ⟨-, rfl⟩ := x25519PrivateKey_ok hkeyA
  exact ⟨y.2, hy, rfl, rfl⟩

/-- Both ends of a handshake over a genuine bundle have one root key. -/
theorem genuine_roots_agree (hg : GoodHandshake h) (hmade : WellMade h b₀) (hlater : Later b₀ b)
    (hd : serializeBundlePublic h b₀ = .ok d) (hinit : initiateX3dh h bA eph d = .ok (r, m))
    (hresp : respondToInit h (m.relayed fromUser) (m.identityDhPub, m.ephPub) b = .ok r' b') :
    r.rootKey = r'.rootKey := by
  obtain ⟨u, hinit, hidentity, hopkId⟩ := initiateX3dh_ok hd hinit
  obtain ⟨⟨x, u'⟩, hkeyed, hx⟩ := map_ok hresp
  simp only at hx
  subst hx
  rw [relayed_opk, hopkId] at hkeyed
  obtain ⟨dh1, dh2, dh3, dh4, hs, hA, hcall⟩ := initiator_ok hg hinit
  obtain ⟨dh1', dh2', dh3', dh4', hs', hB, hcall'⟩ := responder_ok hg hkeyed
  have hsuite : u.suite = algorithmSuiteClassical := by
    rcases hs.suite with ⟨hsuite, -⟩ | ⟨-, pq, hpq⟩
    · exact hsuite
    · rw [hcall.classical rfl] at hpq
      cases hpq
  have hpq' : u'.pqShared = none := by
    rcases hs'.suite with ⟨-, hpq⟩ | ⟨hhybrid, -⟩
    · exact hpq
    · rw [hcall'.suited] at hhybrid
      exact absurd hhybrid.symm suites_differ
  have hopk : u.oneTimePrekey = u'.oneTimePrekey := by
    have hsent := hcall.usedOpk
    rw [hcall.oneTime]
    rcases hcall'.oneTime with ⟨hnull, hnone⟩ | ⟨id, opk, hid, hget, hsome⟩
    · rw [hnone]
      cases hhead : (b₀.sortedOpks.map fun opk => (opk.keyId, opk.publicKey)).head? with
      | none => rfl
      | some x =>
          rw [hnull, hhead] at hsent
          cases hsent
    · cases hhead : (b₀.sortedOpks.map fun opk => (opk.keyId, opk.publicKey)).head? with
      | none =>
          rw [hhead] at hsent
          rw [hsent] at hid
          cases hid
      | some x =>
          obtain ⟨id', pub⟩ := x
          rw [hhead] at hsent
          rw [hsent] at hid
          cases hid
          rw [hsome, picked_prekey hmade hlater hhead hget]
  have hkeys : u = u' := by
    have h1 : u.initiatorIdentity = u'.initiatorIdentity := by
      rw [hcall'.initiator, hidentity, hA.identity]
    have h2 : u.responderIdentity = u'.responderIdentity := by
      rw [hcall.responder, ← hB.identity, hlater.identityDh]
      rfl
    have h3 : u.signedPrekey = u'.signedPrekey := by
      rw [hcall.prekey, hcall'.prekey, hlater.spk]
      rfl
    have h4 : u.signedPrekeyDh = u'.signedPrekeyDh := by
      rw [hA.prekey, hcall.prekey, ← hB.prekey, hlater.spk, ← hmade.spk]
      rfl
    have h5 : u.ephemeral = u'.ephemeral := by
      rw [← hcall.ephemeral, hcall'.ephemeral]
    have h6 : u.suite = u'.suite := hsuite.trans hcall'.suited.symm
    have h7 : u.pqShared = u'.pqShared := (hcall.classical rfl).trans hpq'.symm
    cases u
    cases u'
    simp only at h1 h2 h3 h4 h5 h6 h7 hopk
    rw [h1, h2, h3, h4, h5, h6, h7, hopk]
  subst hkeys
  exact roots_agree hg hs hs' hA hB

end Agree

/-! ## One message -/

section Message

variable {K P C : Type} {c : Crypto K P C} {rk : K} {cap : Nat} {pt : Bytes}

/-- A message with `pt` goes from `sA` to `sB`. -/
def Arrives (c : Crypto K P C) (pt : Bytes) (sA sB : DoubleRatchetState K P) : Prop :=
  ∃ w sA', ratchetEncrypt c pt sA = .ok w sA' ∧
    ∀ generated, ∃ sB', ratchetDecrypt c w generated sB = .ok pt sB'

/-- The state `create_initial_state` makes, whatever its version. -/
def Created (c : Crypto K P C) (rk : K) (cap : Nat) (isInitiator : Bool)
    (s : DoubleRatchetState K P) : Prop :=
  ∃ generated version, s = {
    rootKey := rk
    sendingChainKey := if isInitiator then some (kdfInitialChain c.toKeyAlg rk) else none
    receivingChainKey := if isInitiator then none else some (kdfInitialChain c.toKeyAlg rk)
    dhsPrivate := some generated
    skippedMessageKeys := { maxKeys := cap }
    sessionVersion := version }

variable {s sA sB : DoubleRatchetState K P}

theorem createInitialState_created (hroot : (c.bytes rk).length = 32) (cap : Nat)
    (isInitiator : Bool) (generated : P) :
    ∃ s, createInitialState c rk isInitiator none cap generated = .ok s ∧
      Created c rk cap isInitiator s ∧ s.sessionVersion = 1 := by
  rw [createInitialState, if_neg (not_not.mpr hroot)]
  exact ⟨_, rfl, ⟨generated, 1, rfl⟩, rfl⟩

theorem Created.saved {isInitiator : Bool} (hs : Created c rk cap isInitiator s) (version : Nat) :
    Created c rk cap isInitiator { s with sessionVersion := version } := by
  obtain ⟨generated, _, rfl⟩ := hs
  exact ⟨generated, version, rfl⟩

theorem Created.speaks (hs : Created c rk cap true s) : ∃ q, Speaks c rk q [] s ∧ s.Ns = 0 := by
  obtain ⟨q, version, rfl⟩ := hs
  exact ⟨q, ⟨rfl, rfl, rfl⟩, rfl⟩

theorem Created.waits (hs : Created c rk cap false s) (q : P) :
    (∃ p, Waits c rk p [q] s) ∧ Hears c rk cap [] [] s ∧ s.Nr = 0 ∧
      s.receivingChainKey = some (chainKey c.toKeyAlg rk (outs c [q]) 0) := by
  obtain ⟨p, version, rfl⟩ := hs
  refine ⟨⟨p, rfl, rfl, rfl⟩, ⟨rfl, List.nodup_nil, fun id => ?_, nofun, nofun,
    Nat.zero_lt_succ _, rfl, nofun, nofun⟩, rfl, rfl⟩
  show id ∈ [] ↔ id ∈ Window.pending []
  simp

/-- Two new sessions from one root key. -/
theorem first_message_arrives (hlen : ∀ i s f b, (c.bytes (c.hkdf i s f b)).length = 32)
    (hdh : GoodDh c) (hpt : AeadWorks c pt) (hA : Created c rk cap true sA)
    (hB : Created c rk cap false sB) : Arrives c pt sA sB := by
  obtain ⟨q, hspeaks, hNs⟩ := hA.speaks
  obtain ⟨⟨p, hwaits⟩, hhears, hNr, hck⟩ := hB.waits q
  obtain ⟨w, k, sA', henc, hhead, hsealed, -⟩ := hspeaks.encrypt hlen hpt (by rw [hNs]; decide)
  have hzero : w.header.n.toNat = 0 := by
    rw [hhead, hNs]
    rfl
  refine ⟨w, sA', by rw [ratchetEncrypt, map_apply, henc], fun g => ?_⟩
  have hcap : (Window.pending [(w.header.dh, w.header.n.toNat)]).card ≤ cap := by
    rw [hzero, Window.card_pending_ahead (Nat.le_refl 0)]
    exact Nat.zero_le _
  obtain ⟨sB', hdec, -⟩ := hwaits.boot hlen hdh hhears hNr hck hsealed
    (by rw [hzero]; exact Nat.zero_le _) hcap g
  exact ⟨sB', by rw [ratchetDecrypt, map_apply, hdec]⟩

/-- What a new session opens was sealed under a key of its first chain. -/
theorem created_opens (hB : Created c rk cap false sB) {w : RatchetWireMessage C} {g : P} {k : K}
    {p : Bytes} {sB' : DoubleRatchetState K P}
    (hdec : ratchetDecryptKeyed c w g sB = .ok (p, k) sB') :
    k = msgKey c.toKeyAlg rk [] w.header.n.toNat := by
  have hr : ¬ Refused sB w := by
    intro hr
    obtain ⟨e, he⟩ := decrypt_refused (c := c) (g := g) hr
    rw [he] at hdec
    cases hdec
  obtain ⟨priv, version, rfl⟩ := hB
  rw [decrypt_chain hr rfl, ensureReceivingChain_boot rfl rfl rfl] at hdec
  refine decryptOnChain_key (l := []) ?_ rfl hdec
  rfl

/-- A message opens under the key it was sealed with, and under no other. -/
theorem sealed_key (hone : AeadOneKey c) (hpt : AeadWorks c pt) {w : RatchetWireMessage C}
    {k k' : K} {g : P} {p : Bytes} {sA' sB' : DoubleRatchetState K P}
    (henc : ratchetEncryptKeyed c pt sA = .ok (w, k) sA')
    (hdec : ratchetDecryptKeyed c w g sB = .ok (p, k') sB') : k = k' := by
  obtain ⟨-, -, hct⟩ := encrypt_sealed henc
  obtain ⟨ct, hsealed, hopens⟩ := hpt k w.nonce (headerAad w.header)
  obtain rfl : w.ciphertext = ct := Option.some.inj (hct.symm.trans hsealed)
  exact hone hopens (decrypt_unsealed hdec).2

theorem encrypt_nextKey {w : RatchetWireMessage C} {k : K} {sA' : DoubleRatchetState K P}
    (henc : ratchetEncryptKeyed c pt sA = .ok (w, k) sA') :
    ∃ s, nextSendingKey c sA = .ok k s := by
  rw [ratchetEncryptKeyed_eq] at henc
  split at henc
  · cases henc
  · next mk s₁ hnext =>
      split at henc
      · cases henc
      · cases henc
        exact ⟨s₁, hnext⟩

/-- A session that has nothing to do with the root key of a new one sends it
nothing it can open. -/
theorem unrelated_not_arrives (hone : AeadOneKey c) (hpt : AeadWorks c pt)
    (hB : Created c rk cap false sB) (g : P)
    (hfresh : ∀ mk s', nextSendingKey c sA = .ok mk s' → ∀ i, mk ≠ msgKey c.toKeyAlg rk [] i) :
    ¬ Arrives c pt sA sB := by
  rintro ⟨w, sA', henc, hdec⟩
  obtain ⟨sB', hopened⟩ := hdec g
  obtain ⟨⟨w', k⟩, hsealed, hw⟩ := map_ok henc
  obtain ⟨⟨p, k'⟩, hkeyed, -⟩ := map_ok hopened
  simp only at hw
  subst hw
  obtain ⟨s, hnext⟩ := encrypt_nextKey hsealed
  refine hfresh k s hnext w'.header.n.toNat ?_
  rw [sealed_key hone hpt hsealed hkeyed]
  exact created_opens hB hkeyed

end Message

/-! ## The two files -/

/-- There is no file, or `save_session` wrote it. -/
def EarlierSession (file : SessionFile) : Prop :=
  file = .missing ∨ ∃ slot slot', 1 ≤ slot.state.sessionVersion ∧
    saveSession .ok slot = .ok () slot' ∧ file = slot'.file

theorem saveNew_new (s : SessionState) :
    ∃ file', saveNew s .ok .missing
      = .ok { s with sessionVersion := s.sessionVersion + 1 } file' := ⟨_, rfl⟩

theorem saveSession_returned {slot slot' : SessionSlot}
    (hsave : saveSession .ok slot = .ok () slot') :
    slot'.file = .json (stateToDict { slot.state with
      sessionVersion := slot.state.sessionVersion + 1 }) := by
  rcases saveSession_cases .ok slot.state slot.file with ⟨e, hr⟩ | ⟨-, ⟨m, hr⟩ | hr⟩
  · rw [hr] at hsave
    cases hsave
  · rw [hr] at hsave
    cases hsave
  · rw [hr] at hsave
    cases hsave
    rfl

/-- A state of version 1 is not saved over an earlier session. -/
theorem saveNew_refused {s : SessionState} (hs : s.sessionVersion = 1) {file : SessionFile}
    (hfile : EarlierSession file) (hne : file ≠ .missing) (io : SaveIo) :
    ∃ e, saveNew s io file = .error e file := by
  obtain ⟨slot, slot', hversion, hsave, rfl⟩ := hfile.resolve_left hne
  rw [saveSession_returned hsave]
  generalize hnew : { slot.state with sessionVersion := slot.state.sessionVersion + 1 } = s'
  have hnewer : 1 < s'.sessionVersion := by
    rw [← hnew]
    exact Nat.lt_succ_of_le hversion
  have hfileVersion : fileVersion (stateToDict s') = .ok s'.sessionVersion := by
    simp [fileVersion, stateToDict, Odict.get?, Json.toInt]
  obtain ⟨e, hcheck⟩ : ∃ e, checkRollback s.sessionVersion (.json (stateToDict s')) = .error e := by
    have hlt : (s'.sessionVersion : Int) > (1 : Nat) := by exact_mod_cast hnewer
    simp only [checkRollback, hfileVersion, except_ok_bind, hs, if_pos hlt]
    exact ⟨_, rfl⟩
  cases io with
  | ok => exact ⟨e, by simp [saveNew, saveSession, hcheck]⟩
  | failsEarly msg => exact ⟨.osError msg, by simp [saveNew, saveSession]⟩
  | failsLate msg => exact ⟨e, by simp [saveNew, saveSession, hcheck]⟩

theorem openSession_new {c : Crypto Bytes Bytes Bytes} {rootKey : Bytes}
    (hroot : (c.bytes rootKey).length = 32) (isInitiator : Bool) (generated : Bytes) :
    ∃ s file', openSession c rootKey isInitiator generated .ok .missing = .ok s file' ∧
      Created c rootKey 1000 isInitiator s := by
  obtain ⟨s, hcreate, hcreated, -⟩ := createInitialState_created hroot 1000 isInitiator generated
  obtain ⟨file', hsave⟩ := saveNew_new s
  refine ⟨_, file', ?_, hcreated.saved (s.sessionVersion + 1)⟩
  simp only [openSession, bind_apply, get_apply, loadSession, lift_ok, hcreate, hsave]

theorem openSession_loaded {c : Crypto Bytes Bytes Bytes} {file : SessionFile} {s : SessionState}
    (hload : loadSession 1000 file = .ok (some s)) (rootKey : Bytes) (isInitiator : Bool)
    (generated : Bytes) (io : SaveIo) :
    openSession c rootKey isInitiator generated io file = .ok s file := by
  simp only [openSession, bind_apply, get_apply, hload, lift_ok, pure_apply]

section Responder

variable {init : List (String × Json)} {keys : Bytes × Bytes} {b b' : ClientPreKeyBundle}
  {r : X3DHResult Bytes}

theorem acceptInit_new (hresp : respondToInit h init keys b = .ok r b')
    (hroot : (h.bytes r.rootKey).length = 32) (generated : Bytes) :
    ∃ s slot, acceptInit h init keys generated .ok ⟨b, .missing⟩ = .ok s slot ∧
      Created h.toCrypto r.rootKey 1000 false s := by
  obtain ⟨s, hcreate, hcreated, -⟩ := createInitialState_created (c := h.toCrypto) hroot 1000
    false generated
  obtain ⟨file', hsave⟩ := saveNew_new s
  refine ⟨_, ⟨b', file'⟩, ?_, hcreated.saved (s.sessionVersion + 1)⟩
  simp only [acceptInit, bind_apply, zoom, newSession, hresp, hcreate, lift_ok, hsave]

theorem acceptInit_refused (hresp : respondToInit h init keys b = .ok r b') {file : SessionFile}
    (hfile : EarlierSession file) (hne : file ≠ .missing) (generated : Bytes) (io : SaveIo) :
    ∃ e slot, acceptInit h init keys generated io ⟨b, file⟩ = .error e slot := by
  simp only [acceptInit, bind_apply, zoom, newSession, hresp]
  cases hcreate : createInitialState h.toCrypto r.rootKey false none 1000 generated with
  | error e => exact ⟨e, _, rfl⟩
  | ok s =>
      have hversion : s.sessionVersion = 1 := by
        rw [createInitialState] at hcreate
        split at hcreate
        · cases hcreate
        · cases hcreate
          rfl
      obtain ⟨e, he⟩ := saveNew_refused hversion hfile hne io
      simp only [lift_ok, he]
      exact ⟨e, _, rfl⟩

end Responder

/-! ## Both ends -/

section Both

variable {bA b₀ b b' : ClientPreKeyBundle} {d : Json} {io : StartIo} {r r' : X3DHResult Bytes}
  {m : SessionInit} {userA userB : String} {pt : Bytes}

/-- The engines two clients have installed, and the initiator's next message
arrives. -/
def Linked (c : Crypto Bytes Bytes Bytes) (pt : Bytes)
    (resA : EStateM.Result Exn SessionFile (Option SessionState))
    (resB : EStateM.Result Exn InitSlot SessionState) : Prop :=
  ∃ sA sB, value? resA = some (some sA) ∧ value? resB = some sB ∧ Arrives c pt sA sB

/-- The initiator once X3DH went through. -/
theorem establish_x3dh (hd : serializeBundlePublic h b₀ = .ok d)
    (hreply : getPeerBundle io.bundleReply = .ok d) (hsend : io.sendInit = .ok ())
    (hinit : initiateX3dh h bA io.ephPrivate d = .ok (r, m)) (userA userB : String)
    (file : SessionFile) :
    establishSession h bA userA userB io file
      = match openSession h.toCrypto r.rootKey true io.generated io.save file with
        | .ok s file' => .ok (some s) file'
        | .error _ file' => legacyPath h userA userB io file' := by
  have htruthy : d.truthy = true := by
    obtain ⟨pub, -, hret⟩ := except_bind_ok hd
    cases hret
    rfl
  have hsession : x3dhSession h bA io d file
      = openSession h.toCrypto r.rootKey true io.generated io.save file := by
    simp only [x3dhSession, hinit, bind_apply, lift_ok, hsend]
  cases hopen : openSession h.toCrypto r.rootKey true io.generated io.save file with
  | ok s file' => simp only [establishSession, hreply, htruthy, if_true, hsession, hopen]
  | error e file' => simp only [establishSession, hreply, htruthy, if_true, hsession, hopen]

/-- An initiator with a session file goes on with what is in the file. -/
theorem establish_loaded (hlen : ∀ i s f b, (h.bytes (h.hkdf i s f b)).length = 32)
    (hd : serializeBundlePublic h b₀ = .ok d) (hreply : getPeerBundle io.bundleReply = .ok d)
    (hsend : io.sendInit = .ok ()) (hinit : initiateX3dh h bA io.ephPrivate d = .ok (r, m))
    {file : SessionFile} (hfile : file ≠ .missing) {s : SessionState}
    (hs : value? (establishSession h bA userA userB io file) = some (some s)) :
    loadSession 1000 file = .ok (some s) := by
  rw [establish_x3dh hd hreply hsend hinit] at hs
  cases hload : loadSession 1000 file with
  | error e =>
      have hopen : openSession h.toCrypto r.rootKey true io.generated io.save file
          = .error e file := by
        simp only [openSession, bind_apply, get_apply, hload, lift_error]
      simp only [hopen] at hs
      obtain ⟨-, -, -, -, hdisk⟩ := (legacyPath_installs hlen userA userB io file).mp ⟨s, hs⟩
      rcases hdisk with ⟨s', hs'⟩ | ⟨hmissing, -⟩
      · rw [hload] at hs'
        cases hs'
      · exact absurd hmissing hfile
  | ok loaded =>
      cases loaded with
      | none => exact absurd (loadSession_none hload) hfile
      | some s' =>
          simp only [openSession_loaded hload, value?_ok] at hs
          rw [Option.some.inj hs]

/-- For any session files of the two users, none or saved by `save_session`,
any genuine bundle, at upload and as it is when the message comes: once
`x3dh_initiator` has completed and `x3dh_responder` succeeds on the
`session_init`, the initiator's next message decrypts at the responder exactly
if neither of them had a session file. That it does not otherwise takes a new
root key that has nothing to do with the old session. -/
theorem established_linked_iff (hlen : ∀ i s f b, (h.bytes (h.hkdf i s f b)).length = 32)
    (hdh : GoodDh h.toCrypto)
    (hshared : ∀ {p X k}, h.sharedKey p X = some k → (h.bytes k).length = 32)
    (hpt : AeadWorks h.toCrypto pt) (hmade : WellMade h b₀) (hlater : Later b₀ b)
    (hd : serializeBundlePublic h b₀ = .ok d) (hreply : getPeerBundle io.bundleReply = .ok d)
    (hsend : io.sendInit = .ok ()) (hsave : io.save = .ok)
    (hinit : initiateX3dh h bA io.ephPrivate d = .ok (r, m))
    {keys : Bytes × Bytes} (hkeys : initKeys (m.relayed userA) = .ok keys)
    (hresp : respondToInit h (m.relayed userA) keys b = .ok r' b')
    {fileA fileB : SessionFile} (hB : EarlierSession fileB) (generated : Bytes) :
    (fileA = .missing ∧ fileB = .missing →
      Linked h.toCrypto pt (establishSession h bA userA userB io fileA)
        (acceptInit h (m.relayed userA) keys generated .ok ⟨b, fileB⟩)) ∧
    (AeadOneKey h.toCrypto →
      (∀ s mk s', loadSession 1000 fileA = .ok (some s) →
        nextSendingKey h.toCrypto s = .ok mk s' → ∀ i, mk ≠ msgKey h.toKeyAlg r.rootKey [] i) →
      Linked h.toCrypto pt (establishSession h bA userA userB io fileA)
        (acceptInit h (m.relayed userA) keys generated .ok ⟨b, fileB⟩) →
      fileA = .missing ∧ fileB = .missing) := by
  rw [relayed_keys] at hkeys
  cases hkeys
  have hg := hdh.handshake hshared
  have hroots := genuine_roots_agree hg hmade hlater hd hinit hresp
  have hroot : (h.bytes r.rootKey).length = 32 := by
    obtain ⟨u, hkeyed, -⟩ := initiateX3dh_ok hd hinit
    obtain ⟨dh1, dh2, dh3, dh4, hs, -⟩ := initiator_ok hg hkeyed
    exact hs.root_length hlen
  refine ⟨?_, ?_⟩
  · rintro ⟨rfl, rfl⟩
    obtain ⟨sA, fileA', hopen, hcreated⟩ := openSession_new (c := h.toCrypto) hroot true io.generated
    obtain ⟨sB, slot, haccept, hcreated'⟩ := acceptInit_new hresp (hroots ▸ hroot) generated
    rw [← hroots] at hcreated'
    refine ⟨sA, sB, ?_, ?_, first_message_arrives hlen hdh hpt hcreated hcreated'⟩
    · rw [establish_x3dh hd hreply hsend hinit, hsave, hopen]
      rfl
    · rw [haccept]
      rfl
  · rintro hone hfresh ⟨sA, sB, hsA, hsB, harrives⟩
    have hfileB : fileB = .missing := by
      by_contra hne
      obtain ⟨e, slot, he⟩ := acceptInit_refused hresp hB hne generated .ok
      rw [he] at hsB
      cases hsB
    refine ⟨?_, hfileB⟩
    by_contra hne
    have hload := establish_loaded hlen hd hreply hsend hinit hne hsA
    obtain ⟨sB', slot, haccept, hcreated⟩ := acceptInit_new hresp (hroots ▸ hroot) generated
    rw [hfileB, haccept] at hsB
    cases hsB
    rw [← hroots] at hcreated
    exact unrelated_not_arrives hone hpt hcreated generated (fun mk s' hmk =>
      hfresh sA mk s' hload hmk) harrives

end Both

/-! ## A handshake to look at -/

/-- The byte-level instance with an AEAD that shows its key, so that nothing
opens under another one. -/
def boundHandshake : HandshakeCrypto Bytes Bytes Bytes :=
  { sampleHandshake with
    encrypt := fun key _ data _ => some (symDigest key ++ data)
    decrypt := fun key _ data _ =>
      if symDigest key <+: data then some (data.drop (symDigest key).length) else none }

theorem boundHandshake_oneKey : AeadOneKey boundHandshake.toCrypto := by
  intro k k' nonce nonce' ct ad ad' p p' hp hp'
  simp only [boundHandshake, Option.ite_none_right_eq_some] at hp hp'
  obtain ⟨⟨s, rfl⟩, -⟩ := hp
  obtain ⟨⟨s', hs'⟩, -⟩ := hp'
  exact (symDigest_split hs').symm

theorem boundHandshake_works (pt : Bytes) : AeadWorks boundHandshake.toCrypto pt := by
  intro key nonce ad
  refine ⟨symDigest key ++ pt, rfl, ?_⟩
  simp only [boundHandshake, List.prefix_append, if_true, List.drop_left]

theorem boundHandshake_goodDh : GoodDh boundHandshake.toCrypto where
  public_length := fun p => mix_length p
  commutes := fun p q => by
    refine ⟨_, rfl, ?_⟩
    show some (mix (List.zipWith (· + ·) (mix q) (mix p))) = _
    rw [List.zipWith_comm_of_comm (fun x y => UInt8.add_comm x y)]
    rfl

theorem sampleBundle_wellMade (n : UInt8) : WellMade boundHandshake (sampleBundle n) := by
  refine ⟨rfl, fun id opk hopk => ?_, List.nodup_singleton _⟩
  cases List.mem_singleton.mp hopk
  exact ⟨rfl, rfl⟩

theorem boundHandshake_shared {p X k : Bytes} (hk : boundHandshake.sharedKey p X = some k) :
    (boundHandshake.bytes k).length = 32 := by
  cases hk
  exact mix_length _

/-- What Alice sends. -/
def sampleInit : SessionInit := ⟨mix (mix [1, 2]), mix (mix [11]), .int 1000⟩

/-- Alice fetches Bob's bundle, and Bob answers. -/
theorem sample_handshake : ∃ d r r' b',
    serializeBundlePublic boundHandshake (sampleBundle 2) = .ok d ∧
    initiateX3dh boundHandshake (sampleBundle 1) (mix [11]) d = .ok (r, sampleInit) ∧
    respondToInit boundHandshake (sampleInit.relayed "alice")
      (sampleInit.identityDhPub, sampleInit.ephPub) (sampleBundle 2) = .ok r' b' := by
  obtain ⟨d, hd, hfrom⟩ := fromDict_public (h := boundHandshake) (b := sampleBundle 2)
    (mix_length _)
  have hinitiates : (x3dhInitiator boundHandshake (sampleBundle 1).identityDhPrivate (mix [11])
      (published (mix (mix [2, 2])) (sampleBundle 2))
      (published (mix (mix [2, 2])) (sampleBundle 2)).opks.head? none).toBool = true := by
    decide +kernel
  have hresponds : (value? (respondToInit boundHandshake (sampleInit.relayed "alice")
      (sampleInit.identityDhPub, sampleInit.ephPub) (sampleBundle 2))).isSome = true := by
    decide +kernel
  cases hresp : respondToInit boundHandshake (sampleInit.relayed "alice")
      (sampleInit.identityDhPub, sampleInit.ephPub) (sampleBundle 2) with
  | error e b' =>
      rw [hresp] at hresponds
      cases hresponds
  | ok r' b' =>
      cases hinit : x3dhInitiator boundHandshake (sampleBundle 1).identityDhPrivate (mix [11])
          (published (mix (mix [2, 2])) (sampleBundle 2))
          (published (mix (mix [2, 2])) (sampleBundle 2)).opks.head? none with
      | error e =>
          rw [hinit] at hinitiates
          cases hinitiates
      | ok x =>
          obtain ⟨r, ephPub⟩ := x
          obtain ⟨⟨x, u⟩, hkeyed, hx⟩ := except_map_ok hinit
          simp only at hx
          subst hx
          obtain ⟨dh1, dh2, dh3, dh4, -, hA, hcall⟩ := initiator_ok
            (boundHandshake_goodDh.handshake boundHandshake_shared) hkeyed
          have heph : ephPub = mix (mix [11]) := hcall.ephemeral.trans hA.ephemeral.symm
          have hopk : r.usedOpkId = .int 1000 := hcall.usedOpk
          have hidentity := identityDhPublic_eq (h := boundHandshake) (b := sampleBundle 1)
            (mix_length _)
          have hpub : boundHandshake.publicKey (boundHandshake.privateKey
            (sampleBundle 2).identityDhPrivate) = mix (mix [2, 2]) := rfl
          rw [hpub] at hfrom
          refine ⟨d, r, r', b', hd, ?_, rfl⟩
          simp only [initiateX3dh, hfrom, except_ok_bind, hinit, hidentity, heph, hopk]
          rfl

/-- A session of an earlier day. -/
def sampleEarlier : SessionFile :=
  .json (stateToDict { sampleState false with sessionVersion := 2 })

theorem sampleEarlier_saved : EarlierSession sampleEarlier :=
  Or.inr ⟨⟨sampleState false, .missing⟩, _, Nat.le_refl _, rfl, rfl⟩

/-- Alice and Bob without session files, and with one of an earlier day at Bob's. -/
theorem established_linked_fresh : ∃ d,
    serializeBundlePublic boundHandshake (sampleBundle 2) = .ok d ∧
    Linked boundHandshake.toCrypto (ascii "hello")
      (establishSession boundHandshake (sampleBundle 1) "alice" "bob" (sampleStart d .null) .missing)
      (acceptInit boundHandshake (sampleInit.relayed "alice")
        (sampleInit.identityDhPub, sampleInit.ephPub) (mix [15]) .ok
        ⟨sampleBundle 2, .missing⟩) ∧
    ¬ Linked boundHandshake.toCrypto (ascii "hello")
      (establishSession boundHandshake (sampleBundle 1) "alice" "bob" (sampleStart d .null) .missing)
      (acceptInit boundHandshake (sampleInit.relayed "alice")
        (sampleInit.identityDhPub, sampleInit.ephPub) (mix [15]) .ok
        ⟨sampleBundle 2, sampleEarlier⟩) := by
  obtain ⟨d, r, r', b', hd, hinit, hresp⟩ := sample_handshake
  refine ⟨d, hd, ?_, fun hstale => ?_⟩
  · exact (established_linked_iff (fun _ _ _ _ => mix_length _) boundHandshake_goodDh
      boundHandshake_shared (boundHandshake_works _) (sampleBundle_wellMade 2) (Later.refl _) hd
      (sampleStart_bundle d .null) rfl rfl hinit (relayed_keys _ _) hresp (Or.inl rfl) _).1
      ⟨rfl, rfl⟩
  · obtain ⟨-, hmissing⟩ := (established_linked_iff (fun _ _ _ _ => mix_length _)
      boundHandshake_goodDh boundHandshake_shared (boundHandshake_works _)
      (sampleBundle_wellMade 2) (Later.refl _) hd (sampleStart_bundle d .null) rfl rfl hinit
      (relayed_keys _ _) hresp sampleEarlier_saved _).2 boundHandshake_oneKey
      (fun s mk s' hload => by cases hload) hstale
    cases hmissing

/-- Bob still has the file of an earlier session: his handshake succeeds, and
he has no engine for it. -/
theorem earlier_session_unlinks : ∃ d r r' b',
    serializeBundlePublic boundHandshake (sampleBundle 2) = .ok d ∧
    initiateX3dh boundHandshake (sampleBundle 1) (mix [11]) d = .ok (r, sampleInit) ∧
    respondToInit boundHandshake (sampleInit.relayed "alice")
      (sampleInit.identityDhPub, sampleInit.ephPub) (sampleBundle 2) = .ok r' b' ∧
    EarlierSession sampleEarlier ∧
    ¬ Linked boundHandshake.toCrypto (ascii "hello")
      (establishSession boundHandshake (sampleBundle 1) "alice" "bob" (sampleStart d .null) .missing)
      (acceptInit boundHandshake (sampleInit.relayed "alice")
        (sampleInit.identityDhPub, sampleInit.ephPub) (mix [15]) .ok
        ⟨sampleBundle 2, sampleEarlier⟩) := by
  obtain ⟨d, r, r', b', hd, hinit, hresp⟩ := sample_handshake
  refine ⟨d, r, r', b', hd, hinit, hresp, sampleEarlier_saved, ?_⟩
  rintro ⟨sA, sB, -, hsB, -⟩
  obtain ⟨e, slot, he⟩ := acceptInit_refused hresp sampleEarlier_saved nofun (mix [15]) .ok
  rw [he] at hsB
  cases hsB

end GhostChat.Proofs
