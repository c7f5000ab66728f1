import GhostChat.Proofs.Established
import GhostChat.Proofs.Prekeys
import GhostChat.Proofs.RelaySteps
import GhostChat.Ref.Initiators

/-!
# Two initiators pick the same one-time prekey

The relay gives everybody the same bundle, and everybody takes the first
one-time prekey in it. The responder has each of them once. So the first
`session_init` it answers is answered with the root key its initiator has, and
from then on the prekey they all name is gone. How many others there are in the
bundle has nothing to do with it; only a bundle without any serves more than one
initiator.

What an initiator has checked of the bundle is, with keys of the right length,
all that `x3dh_responder` can stumble over before it looks for the prekey.
-/

namespace GhostChat.Proofs

open GhostChat.Lib GhostChat.Lib.Effect GhostChat.Ref

variable {K P C : Type} {h : HandshakeCrypto K P C}

/-! ## Bundles -/

/-- A bundle as it is generated and used: its private keys are X25519 keys, a
used id is not the id of a prekey that is there, and a post-quantum key that is
there is one. -/
structure Usable (h : HandshakeCrypto K P C) (b : ClientPreKeyBundle) : Prop
    extends WellMade h b where
  identityDh : b.identityDhPrivate.length = 32
  spkPrivate : b.signedPrekey.privateKey.length = 32
  opkPrivate : ∀ id opk, (id, opk) ∈ b.oneTimePrekeys → opk.privateKey.length = 32
  unused : ∀ id ∈ b.usedOpkIds, Without id b
  pqPublic : b.pqPublicKey ≠ some []

theorem generatePrekeyBundle_usable {identity : IdentityKeyPair} {gen : GeneratedKeys}
    {backend : Option (PqBackend K)} {b : ClientPreKeyBundle}
    (hidentity : gen.identityDh.length = 32) (hspk : gen.spk.length = 32)
    (hopk : ∀ i, (gen.opk i).length = 32)
    (hpq : ∀ pq, backend = some pq → ∀ sk, pq.generateKeypair ≠ .ok ([], sk))
    (hok : generatePrekeyBundle h identity gen backend = .ok b) : Usable h b := by
  obtain ⟨hdh, hsigned, hopks, hused, hpublic⟩ := generatePrekeyBundle_keys hok
  refine ⟨generatePrekeyBundle_wellMade hok, ?_, ?_, fun id opk hmem => ?_, ?_, fun hnil => ?_⟩
  · rw [hdh]
    exact hidentity
  · rw [hsigned]
    exact hspk
  · rw [hopks] at hmem
    obtain ⟨i, -, heq⟩ := List.mem_map.mp hmem
    cases heq
    exact hopk i
  · rw [hused]
    exact nofun
  · obtain ⟨pq, sk, hbackend, hkeypair⟩ := hpublic [] hnil
    exact hpq pq hbackend sk hkeypair

theorem withoutPrekey_usable {b : ClientPreKeyBundle} (hb : Usable h b) (id : Int) :
    Usable h (withoutPrekey id b) := by
  have hold : ∀ id' opk, (id', opk) ∈ (withoutPrekey id b).oneTimePrekeys →
      (id', opk) ∈ b.oneTimePrekeys := fun id' opk hmem => (Odict.mem_erase.mp hmem).1
  refine ⟨⟨hb.spk, fun id' opk hmem => hb.opk id' opk (hold id' opk hmem), ?_⟩, hb.identityDh,
    hb.spkPrivate, fun id' opk hmem => hb.opkPrivate id' opk (hold id' opk hmem), ?_, hb.pqPublic⟩
  · exact hb.nodup.sublist (List.Sublist.map _ (List.filter_sublist))
  · intro id' hmem
    rcases List.mem_append.mp hmem with hmem | hmem
    · exact has_erase_of_not (hb.unused id' hmem) id
    · obtain rfl := List.mem_singleton.mp hmem
      exact has_erase_self _ _

/-- It stays one, whoever sends a `session_init`. -/
theorem respondToInit_usable (init : List (String × Json)) (keys : Bytes × Bytes) :
    Keeps (Usable h) (respondToInit h init keys) := by
  have hkeep : ∀ id b, Usable h b → Usable h (withoutPrekey id b) :=
    fun id _ hb => withoutPrekey_usable hb id
  exact respondToInit_keeps hkeep init keys

/-! ## The responder's call returns -/

/-- What the initiator has checked of the bundle. -/
theorem initiator_checks {identityDhPrivate : Bytes} {eph : P} {peer : PeerBundle}
    {opk : Option (Int × Bytes)} {x : (X3DHResult K × Bytes) × HandshakeKeys K}
    (hok : x3dhInitiatorKeyed h identityDhPrivate eph peer opk none = .ok x) :
    h.verify peer.identityPub peer.spkPub peer.spkSig = true ∧
      ¬ (peer.pqPub.isSome ∧ isHybridSuite peer.algorithmSuite) := by
  simp only [x3dhInitiatorKeyed] at hok
  obtain ⟨_, -, hok⟩ := except_bind_ok hok
  obtain ⟨_, hspk, hok⟩ := except_bind_ok hok
  obtain ⟨-, hok⟩ := except_guard_ok hok
  obtain ⟨hsuite, -⟩ := except_guard_ok hok
  refine ⟨?_, fun hhybrid => hsuite ⟨hhybrid.1, hhybrid.2, rfl⟩⟩
  rw [verifySpkSignature] at hspk
  split at hspk
  · cases hspk
  · split at hspk
    · assumption
    · cases hspk

theorem classical_of_published {b : ClientPreKeyBundle} {pub : Bytes}
    (hpq : b.pqPublicKey ≠ some [])
    (hnot : ¬ ((published pub b).pqPub.isSome ∧ isHybridSuite (published pub b).algorithmSuite)) :
    b.isHybrid = false := by
  cases hkey : b.pqPublicKey with
  | none => simp [ClientPreKeyBundle.isHybrid, hkey]
  | some pq =>
      have hne : pq ≠ [] := fun hnil => hpq (by rw [hkey, hnil])
      by_cases hsuite : b.algorithmSuite = []
      · simp [ClientPreKeyBundle.isHybrid, hsuite, isHybridSuite, algorithmSuiteHybridKyber, ascii]
      · simp only [published, hkey, if_neg hne, if_neg hsuite, Option.isSome_some, true_and] at hnot
        simp [ClientPreKeyBundle.isHybrid, hnot]

theorem consume_returns {b : ClientPreKeyBundle} {keyId : Json} {id : Int} {opk : OneTimePreKey}
    (hid : keyId.asKey = .ok (some id)) (hunused : id ∉ b.usedOpkIds)
    (hget : Odict.get? b.oneTimePrekeys id = some opk) :
    ClientPreKeyBundle.consumeOneTimePrekey keyId b = .ok opk (withoutPrekey id b) := by
  simp [ClientPreKeyBundle.consumeOneTimePrekey, hid, hunused, hget, withoutPrekey]

/-- With the three DH steps and the prekey done, nothing is left to fail in a
classical handshake. -/
theorem responder_returns {b b' : ClientPreKeyBundle} {idPub ephPub packed : Bytes} {keyId : Json}
    {x : Option (K × Int × Bytes)} {spk ikB : P} {dh1 dh2 dh3 : K}
    (hid : idPub.length = 32) (heph : ephPub.length = 32) (hclassical : b.isHybrid = false)
    (hverify : b.verifySpk h = .ok ())
    (hspk : x25519PrivateKey h b.signedPrekey.privateKey = .ok spk)
    (hikB : x25519PrivateKey h b.identityDhPrivate = .ok ikB)
    (h1 : dhWith h.toCrypto (some spk) idPub = .ok dh1)
    (h2 : dhWith h.toCrypto (some ikB) ephPub = .ok dh2)
    (h3 : dhWith h.toCrypto (some spk) ephPub = .ok dh3)
    (hopk : responderDh4 h ephPub keyId b = .ok x b') (hpacked : packOpkId keyId = .ok packed) :
    ∃ r, x3dhResponder h idPub ephPub keyId none none none b = .ok r b' := by
  have hcheck : checkSuite b none algorithmSuiteClassical = .ok () := by
    have hsuite : isHybridSuite algorithmSuiteClassical = false := by decide
    simp [checkSuite, hclassical, hsuite]
  have htranscript : ∀ A B S E, ∃ t, buildTranscript A B S E keyId algorithmSuiteClassical
      = .ok t := by
    intro A B S E
    rw [buildTranscript, hpacked]
    exact ⟨_, rfl⟩
  obtain ⟨t, ht⟩ := htranscript idPub (h.publicKey ikB) b.signedPrekey.publicKey ephPub
  simp [x3dhResponder, x3dhResponderKeyed, hid, heph, keyLen, hcheck, hverify, hspk, hikB, h1, h2,
    h3, hopk, responderPq_classical hclassical, ht, x3dhRootKey]

theorem x25519PrivateKey_of_length {b : Bytes} (hlen : b.length = 32) :
    x25519PrivateKey h b = .ok (h.privateKey b) := by
  rw [x25519PrivateKey, if_neg (not_not.mpr hlen)]

theorem dhWith_of_shared {p : P} {X : Bytes} {k : K} (hlen : X.length = 32)
    (hk : h.sharedKey p X = some k) : dhWith h.toCrypto (some p) X = .ok k := by
  rw [dhWith_some hlen, hk]

/-- The prekey an initiator takes is there. -/
theorem first_prekey {b : ClientPreKeyBundle} (hb : Usable h b) {id : Int} {pub : Bytes}
    (hhead : (b.sortedOpks.map fun opk => (opk.keyId, opk.publicKey)).head? = some (id, pub)) :
    ∃ opk, Odict.get? b.oneTimePrekeys id = some opk ∧
      h.publicKey (h.privateKey opk.privateKey) = pub ∧ opk.privateKey.length = 32 ∧
      id ∉ b.usedOpkIds := by
  obtain ⟨key, hkey, hpair⟩ := List.mem_map.mp (List.mem_of_mem_head? hhead)
  obtain ⟨e, he, rfl⟩ := List.mem_map.mp ((List.mem_insertionSort _).mp hkey)
  cases hpair
  have hthere : Odict.has b.oneTimePrekeys e.2.keyId = true := by
    rw [Odict.has_iff, (hb.opk e.1 e.2 he).1]
    exact List.mem_map_of_mem he
  obtain ⟨opk, hget⟩ := Odict.has_eq_true_iff.mp hthere
  refine ⟨opk, hget, picked_prekey hb.toWellMade (Later.refl b) hhead hget,
    hb.opkPrivate _ _ (Odict.mem_of_get? hget), fun hused => ?_⟩
  have hgone := hb.unused _ hused
  rw [without_iff, hget] at hgone
  cases hgone

/-- The responder's step with it. -/
theorem prekey_answered {b : ClientPreKeyBundle} (hb : Usable h b) {id : Int} {ephPub pub : Bytes}
    (hhead : (b.sortedOpks.map fun opk => (opk.keyId, opk.publicKey)).head? = some (id, pub))
    {eph : P} {k : K} (hg : GoodHandshake h) (heph : ephPub = h.publicKey eph)
    (hk : h.sharedKey eph pub = some k) :
    ∃ x, responderDh4 h ephPub (.int id) b = .ok x (withoutPrekey id b) := by
  obtain ⟨opk, hget, rfl, hlen, hunused⟩ := first_prekey hb hhead
  have hid : (Json.int id).asKey = .ok (some id) := rfl
  have hconsume := consume_returns hid hunused hget
  rw [hg.commutes, ← heph] at hk
  have heph32 : ephPub.length = 32 := by
    rw [heph]
    exact hg.public_length _
  rw [responderDh4_eq ephPub (by simp)]
  simp [hconsume, x25519PrivateKey_of_length hlen, dhWith_of_shared heph32 hk, Json.asKey]

/-- The first `session_init` over a bundle is answered, and with the root key
of the initiator. -/
theorem init_answered (hg : GoodHandshake h) {b own : ClientPreKeyBundle} (hb : Usable h b)
    {d : Json} (hd : serializeBundlePublic h b = .ok d) {eph : P} {r : X3DHResult K}
    {m : SessionInit} (hinit : initiateX3dh h own eph d = .ok (r, m)) (username : String) :
    ∃ r' b', respondToInit h (m.relayed username) (m.identityDhPub, m.ephPub) b = .ok r' b' ∧
      r'.rootKey = r.rootKey := by
  obtain ⟨u, hkeyed, hidentity, hopkId⟩ := initiateX3dh_ok hd hinit
  obtain ⟨hverify, hnot⟩ := initiator_checks hkeyed
  obtain ⟨dh1, dh2, dh3, dh4, hs, hA, hcall⟩ := initiator_ok hg hkeyed
  have hspk : u.signedPrekeyDh = h.publicKey (h.privateKey b.signedPrekey.privateKey) := by
    rw [hA.prekey, hcall.prekey, ← hb.spk]
    rfl
  have heph : m.ephPub = h.publicKey eph := by
    rw [hcall.ephemeral, hA.ephemeral]
  have h1 := hA.step1
  have h2 := hA.step2
  have h3 := hA.step3
  rw [hspk, hg.commutes, ← hidentity] at h1
  rw [hcall.responder, published, hg.commutes, ← heph] at h2
  rw [hspk, hg.commutes, ← heph] at h3
  have hid32 : m.identityDhPub.length = 32 := by
    rw [hidentity]
    exact hg.public_length _
  have heph32 : m.ephPub.length = 32 := by
    rw [heph]
    exact hg.public_length _
  have hopk : ∃ x b' packed, responderDh4 h m.ephPub m.opkIdUsed b = .ok x b' ∧
      packOpkId m.opkIdUsed = .ok packed := by
    rw [hopkId, hcall.usedOpk]
    cases hhead : (b.sortedOpks.map fun opk => (opk.keyId, opk.publicKey)).head? with
    | none => exact ⟨none, b, _, rfl, rfl⟩
    | some x =>
        obtain ⟨id, pub⟩ := x
        have hone := hcall.oneTime.trans hhead
        have hsome := hs.opk
        rw [hone, Option.isSome_some, Option.isSome_iff_exists] at hsome
        obtain ⟨k, rfl⟩ := hsome
        obtain ⟨x, hx⟩ := prekey_answered hb hhead hg heph (hA.step4 id pub hone)
        exact ⟨x, _, _, hx, if_pos (hs.opkId id pub hone)⟩
  obtain ⟨x, b', packed, hopk, hpacked⟩ := hopk
  obtain ⟨r', hresp⟩ := responder_returns hid32 heph32 (classical_of_published hb.pqPublic hnot)
    (by rw [ClientPreKeyBundle.verifySpk]; exact if_pos hverify)
    (x25519PrivateKey_of_length hb.spkPrivate) (x25519PrivateKey_of_length hb.identityDh)
    (dhWith_of_shared hid32 h1) (dhWith_of_shared heph32 h2) (dhWith_of_shared heph32 h3) hopk
    hpacked
  have hresp' : respondToInit h (m.relayed username) (m.identityDhPub, m.ephPub) b = .ok r' b' := by
    rw [respondToInit, relayed_opk]
    exact hresp
  exact ⟨r', b', hresp', (genuine_roots_agree hg hb.toWellMade (Later.refl b) hd hinit hresp').symm⟩

/-! ## The relay's part -/

section Relayed

variable {σ : Relay} {w : Nat} {ok : Bool} {peer : String} {bundle : List (String × Json)}

/-- Whoever uploads under the name uploads this bundle. -/
def Uploads (name : String) (bundle : List (String × Json)) : InitiatorAct P → Prop
  | .relay (.receive _ (.json (.dict d)) _) => ∀ raw bundle',
      Json.get d "type" = .str "upload_bundle" → Json.get d "username" = .str raw →
      strip raw = name → Json.get d "bundle" = .dict bundle' → bundle' = bundle
  | _ => True

theorem stored_step {name : String} {act : RelayAct}
    (hstored : Odict.get? σ.bundles name = some bundle)
    (hact : Uploads (P := P) name bundle (.relay act)) :
    Odict.get? (σ.step act).bundles name = some bundle := by
  rcases step_bundles σ act with hsame | ⟨w, d, ok, raw, bundle', rfl, htype, hname, hbundle, hset⟩
  · rw [hsame]
    exact hstored
  · rw [hset]
    by_cases hraw : strip raw = name
    · rw [hact raw bundle' htype hname hraw hbundle, hraw]
      exact Odict.get?_set_self _ _ _
    · rw [Odict.get?_set_ne _ (Ne.symm hraw)]
      exact hstored

/-- The answer to a `get_bundle`, if there is one. -/
theorem bundleRequest_wire (σ : Relay) (w : Nat) (ok : Bool) (peer : String) :
    (σ.step (.receive w (.json (.dict (bundleRequest peer))) ok)).wire = σ.wire ∨
      ∃ obj arrived, (σ.step (.receive w (.json (.dict (bundleRequest peer))) ok)).wire
        = (w, obj, arrived) :: σ.wire ∧
        (getPeerBundle (.ok obj) = .error (.runtimeError "get_bundle failed: %s") ∨
          ∃ bundle, Odict.get? σ.bundles (strip peer) = some bundle ∧
            getPeerBundle (.ok obj) = .ok (.dict bundle)) := by
  rw [Relay.step]
  cases σ.sockets[w]? with
  | none => exact Or.inl rfl
  | some s =>
      dsimp only
      cases s.phase with
      | receiving =>
          have hdispatch : σ.receive w s ok (.json (.dict (bundleRequest peer)))
              = σ.getBundle w s (bundleRequest peer) ok := by
            simp [Relay.receive, Relay.dispatch, bundleRequest, Json.get, Odict.get?]
          have hpeer : Relay.peerField (bundleRequest peer) = if peer = "" then .null
              else .str peer := by
            by_cases hpeer : peer = "" <;>
              simp [Relay.peerField, bundleRequest, Json.get, Odict.get?, Json.truthy, hpeer]
          rw [hdispatch, Relay.getBundle, hpeer]
          refine Or.inr ?_
          by_cases hempty : peer = ""
          · rw [if_pos hempty]
            exact ⟨_, _, rfl, Or.inl rfl⟩
          · rw [if_neg hempty]
            dsimp only
            rw [if_neg hempty]
            cases hget : Odict.get? σ.bundles (strip peer) with
            | none => exact ⟨_, _, rfl, Or.inl rfl⟩
            | some bundle => exact ⟨_, _, rfl, Or.inr ⟨bundle, rfl, rfl⟩⟩
      | _ => exact Or.inl rfl

/-- What an initiator gets is what was uploaded. -/
theorem reply_bundle (hstored : Odict.get? σ.bundles (strip peer) = some bundle) {reply v : Json}
    (hreply : σ.replyTo w (bundleRequest peer) ok = some reply)
    (hv : getPeerBundle (.ok reply) = .ok v) : v = .dict bundle := by
  rw [Relay.replyTo] at hreply
  rcases bundleRequest_wire σ w ok peer with hsame | ⟨obj, arrived, hwire, hobj⟩
  · rw [hsame] at hreply
    split at hreply
    · next hcons =>
        rw [hcons] at hreply
        simp at hreply
    · cases hreply
  · rw [hwire] at hreply
    cases arrived with
    | false => cases hreply
    | true =>
        simp only [if_true] at hreply
        cases hreply
        rcases hobj with herr | ⟨bundle', hget, hbundle⟩
        · rw [herr] at hv
          cases hv
        · rw [hstored] at hget
          cases hget
          rw [hbundle] at hv
          cases hv
          rfl

end Relayed

/-! ## The responder's part -/

/-- The one-time prekey every initiator takes. -/
def firstPrekey (b : ClientPreKeyBundle) : Option (Int × Bytes) :=
  (b.sortedOpks.map fun opk => (opk.keyId, opk.publicKey)).head?

theorem firstPrekey_eq_none {b : ClientPreKeyBundle} :
    firstPrekey b = none ↔ b.oneTimePrekeys = [] := by
  rw [firstPrekey, List.head?_eq_none_iff, List.map_eq_nil_iff, ← List.length_eq_zero_iff,
    ClientPreKeyBundle.sortedOpks, List.length_insertionSort, List.length_map,
    List.length_eq_zero_iff]

/-- Every root key the responder came to is that of the initiator, and it came
to one each time. -/
def AllAgree (σ : Initiators K) : Prop := ∀ e ∈ σ.answers, e.2 = some e.1

/-- No `session_init` was answered before this one, or the bundle has no
one-time prekeys. -/
def FirstAnswer (b : ClientPreKeyBundle) (σ : Initiators K) : InitiatorAct P → Prop
  | .answer i => i < σ.sent.length → b.oneTimePrekeys = [] ∨ σ.answers = []
  | .relay _ | .initiate .. => True

/-- What is sent was made from the bundle; and the bundle is as it was until
the first answer, which takes the first one-time prekey out. -/
structure Served (h : HandshakeCrypto K P C) (b : ClientPreKeyBundle) (peer : String)
    (bundle : List (String × Json)) (σ : Initiators K) : Prop where
  handling : σ.handling = true
  stored : Odict.get? σ.relay.bundles (strip peer) = some bundle
  sent : ∀ e ∈ σ.sent, ∃ own eph r m username,
    initiateX3dh h own eph (.dict bundle) = .ok (r, m) ∧ e = (r.rootKey, m.relayed username)
  unspent : b.oneTimePrekeys = [] ∨ σ.answers = [] → σ.bundle = b
  spent : σ.answers ≠ [] → ∀ id pub, firstPrekey b = some (id, pub) → Without id σ.bundle

section Run

variable {b : ClientPreKeyBundle} {peer : String} {bundle : List (String × Json)}
  {σ : Initiators K}

theorem init_names (hg : GoodHandshake h) {own : ClientPreKeyBundle} {eph : P} {r : X3DHResult K}
    {m : SessionInit} {d : Json} (hd : serializeBundlePublic h b = .ok d)
    (hinit : initiateX3dh h own eph d = .ok (r, m)) :
    m.opkIdUsed = sentOpkId (firstPrekey b) := by
  obtain ⟨u, hkeyed, -, hopkId⟩ := initiateX3dh_ok hd hinit
  obtain ⟨dh1, dh2, dh3, dh4, -, -, hcall⟩ := initiator_ok hg hkeyed
  rw [hopkId, hcall.usedOpk]
  rfl

/-- A call that returns took the first one-time prekey, if there is one. -/
theorem answered_takes {init : List (String × Json)} {keys : Bytes × Bytes} {r : X3DHResult K}
    {b₁ b₂ : ClientPreKeyBundle} (hok : respondToInit h init keys b₁ = .ok r b₂)
    (hnames : Json.get init "opk_id_used" = sentOpkId (firstPrekey b)) :
    (firstPrekey b = none ∧ b₂ = b₁) ∨
      ∃ id pub, firstPrekey b = some (id, pub) ∧ ¬ Without id b₁ ∧ Without id b₂ := by
  cases hfirst : firstPrekey b with
  | none =>
      rw [hfirst] at hnames
      rcases respondToInit_ok hok with ⟨-, hsame⟩ | ⟨id, hid, -⟩
      · exact Or.inl ⟨rfl, hsame⟩
      · rw [hnames] at hid
        cases hid
  | some x =>
      obtain ⟨id, pub⟩ := x
      rw [hfirst] at hnames
      rcases respondToInit_ok hok with ⟨hnull, -⟩ | ⟨id', hid, hwas, hgone⟩
      · rw [hnames] at hnull
        cases hnull
      · rw [hnames] at hid
        cases hid
        exact Or.inr ⟨id, pub, rfl, hwas, hgone⟩

theorem answer_cases (hg : GoodHandshake h) (hb : Usable h b)
    (hd : serializeBundlePublic h b = .ok (.dict bundle)) (hσ : Served h b peer bundle σ) {i : Nat}
    {root : K} {init : List (String × Json)} (hi : σ.sent[i]? = some (root, init)) :
    ∃ result b', σ.step h peer (.answer i) = { σ with
        bundle := b', sent := σ.sent.eraseIdx i, answers := (root, result) :: σ.answers } ∧
      (result = some root ↔ b.oneTimePrekeys = [] ∨ σ.answers = []) ∧
      (b.oneTimePrekeys = [] → b' = b) ∧
      ∀ id pub, firstPrekey b = some (id, pub) → Without id b' := by
  obtain ⟨own, eph, r, m, username, hinit, heq⟩ := hσ.sent _ (List.mem_of_getElem? hi)
  cases heq
  have hnames : Json.get (m.relayed username) "opk_id_used" = sentOpkId (firstPrekey b) := by
    rw [relayed_opk, init_names hg hd hinit]
  by_cases hfirst : b.oneTimePrekeys = [] ∨ σ.answers = []
  · obtain ⟨r', b', hresp, hroot⟩ := init_answered hg hb hd hinit username
    rw [← hσ.unspent hfirst] at hresp
    refine ⟨some r'.rootKey, b', ?_, iff_of_true (congrArg some hroot) hfirst, ?_, ?_⟩
    · simp only [Initiators.step, hi, hσ.handling, relayed_keys, hresp]
    · intro hnone
      rcases answered_takes hresp hnames with ⟨-, hsame⟩ | ⟨id, pub, hsome, -⟩
      · rw [hsame, hσ.unspent hfirst]
      · rw [firstPrekey_eq_none.mpr hnone] at hsome
        cases hsome
    · intro id pub hsome
      rcases answered_takes hresp hnames with ⟨hnone, -⟩ | ⟨id', pub', hsome', -, hgone⟩
      · rw [hnone] at hsome
        cases hsome
      · rw [hsome'] at hsome
        cases hsome
        exact hgone
  · obtain ⟨hsome, hanswers⟩ := not_or.mp hfirst
    obtain ⟨⟨id, pub⟩, hid⟩ := Option.ne_none_iff_exists'.mp (mt firstPrekey_eq_none.mp hsome)
    have hgone := hσ.spent hanswers id pub hid
    cases hresp : respondToInit h (m.relayed username) (m.identityDhPub, m.ephPub) σ.bundle with
    | ok r' b' =>
        rcases answered_takes hresp hnames with ⟨hnone, -⟩ | ⟨id', pub', hid', hwas, -⟩
        · rw [hnone] at hid
          cases hid
        · rw [hid'] at hid
          cases hid
          exact absurd hgone hwas
    | error e b' =>
        refine ⟨none, b', ?_, iff_of_false nofun hfirst, fun hnone => absurd hnone hsome, ?_⟩
        · simp only [Initiators.step, hi, hσ.handling, relayed_keys, hresp]
        · intro id' pub' hid'
          rw [hid] at hid'
          cases hid'
          have hkeep := respondToInit_without (h := h) id (m.relayed username)
            (m.identityDhPub, m.ephPub) σ.bundle hgone
          rw [hresp] at hkeep
          exact hkeep

theorem Served.initiate (hσ : Served h b peer bundle σ) (w : Nat) (ok : Bool) (username : String)
    (own : ClientPreKeyBundle) (ephPrivate : P) :
    Served h b peer bundle (σ.step h peer (.initiate w ok username own ephPrivate)) := by
  have hrequest : Uploads (P := P) (strip peer) bundle
      (.relay (.receive w (.json (.dict (bundleRequest peer))) ok)) := by
    intro raw bundle' htype
    simp [bundleRequest, Json.get, Odict.get?] at htype
  have hstored := stored_step hσ.stored hrequest
  rw [Initiators.step]
  cases hreply : σ.relay.replyTo w (bundleRequest peer) ok with
  | none => exact ⟨hσ.handling, hstored, hσ.sent, hσ.unspent, hσ.spent⟩
  | some reply =>
      dsimp only
      cases hinit : getPeerBundle (.ok reply) >>= initiateX3dh h own ephPrivate with
      | error e => exact ⟨hσ.handling, hstored, hσ.sent, hσ.unspent, hσ.spent⟩
      | ok x =>
          obtain ⟨r, m⟩ := x
          obtain ⟨v, hv, hinit⟩ := except_bind_ok hinit
          obtain rfl := reply_bundle hσ.stored hreply hv
          refine ⟨hσ.handling, hstored, fun e he => ?_, hσ.unspent, hσ.spent⟩
          rcases List.mem_append.mp he with he | he
          · exact hσ.sent e he
          · obtain rfl := List.mem_singleton.mp he
            exact ⟨own, ephPrivate, r, m, username, hinit, rfl⟩

theorem answer_none {i : Nat} (hi : σ.sent[i]? = none) :
    σ.step h peer (.answer i : InitiatorAct P) = σ := by
  rw [Initiators.step, hi]

theorem Served.step (hg : GoodHandshake h) (hb : Usable h b)
    (hd : serializeBundlePublic h b = .ok (.dict bundle)) (hσ : Served h b peer bundle σ)
    (act : InitiatorAct P) (hact : Uploads (strip peer) bundle act) :
    Served h b peer bundle (σ.step h peer act) := by
  cases act with
  | relay act => exact ⟨hσ.handling, stored_step hσ.stored hact, hσ.sent, hσ.unspent, hσ.spent⟩
  | initiate w ok username own ephPrivate => exact hσ.initiate w ok username own ephPrivate
  | answer i =>
      cases hi : σ.sent[i]? with
      | none =>
          rw [answer_none hi]
          exact hσ
      | some e =>
          obtain ⟨result, b', hstep, -, hsame, hgone⟩ := answer_cases hg hb hd hσ hi
          rw [hstep]
          refine ⟨hσ.handling, hσ.stored, fun e he => hσ.sent e (List.mem_of_mem_eraseIdx he), ?_,
            fun _ => hgone⟩
          rintro (hnone | hnil)
          · exact hsame hnone
          · cases hnil

theorem initiate_answers (σ : Initiators K) (peer : String) (w : Nat) (ok : Bool)
    (username : String) (own : ClientPreKeyBundle) (ephPrivate : P) :
    (σ.step h peer (.initiate w ok username own ephPrivate)).answers = σ.answers := by
  rw [Initiators.step]
  split
  · rfl
  · split <;> rfl

/-- An answer is right exactly if it is the first, or there is no prekey to
share. -/
theorem Served.agree_step (hg : GoodHandshake h) (hb : Usable h b)
    (hd : serializeBundlePublic h b = .ok (.dict bundle)) (hσ : Served h b peer bundle σ)
    (act : InitiatorAct P) :
    AllAgree (σ.step h peer act) ↔ AllAgree σ ∧ FirstAnswer b σ act := by
  cases act with
  | relay act => exact (and_iff_left trivial).symm
  | initiate w ok username own ephPrivate =>
      rw [AllAgree, initiate_answers]
      exact (and_iff_left trivial).symm
  | answer i =>
      cases hi : σ.sent[i]? with
      | none =>
          rw [answer_none hi]
          refine (and_iff_left fun hlt => ?_).symm
          have hle := List.getElem?_eq_none_iff.mp hi
          omega
      | some e =>
          obtain ⟨result, b', hstep, hright, -⟩ := answer_cases hg hb hd hσ hi
          obtain ⟨hlt, -⟩ := List.getElem?_eq_some_iff.mp hi
          rw [hstep, AllAgree, List.forall_mem_cons, hright, and_comm]
          exact and_congr_right fun _ => ⟨fun hfirst _ => hfirst, fun hfirst => hfirst hlt⟩

end Run

/-- A user with a usable bundle has uploaded it, and nobody uploads another one
under the name. However many others fetch it, with whatever keys, in whatever
order their `session_init` messages are answered and whatever else goes on at
the relay: every call of `x3dh_responder` returns the root key of its initiator
exactly if no two are made, or there is no one-time prekey in the bundle. -/
theorem initiators_agree_iff (hg : GoodHandshake h) {b : ClientPreKeyBundle} (hb : Usable h b)
    {bundle : List (String × Json)} (hd : serializeBundlePublic h b = .ok (.dict bundle))
    {relay : Relay} {peer : String}
    (hstored : Odict.get? relay.bundles (strip peer) = some bundle)
    (acts : List (InitiatorAct P)) (hacts : ∀ act ∈ acts, Uploads (strip peer) bundle act) :
    AllAgree (runFrom (Initiators.step h peer) { relay := relay, bundle := b } acts) ↔
      Along (Initiators.step h peer) (FirstAnswer b) { relay := relay, bundle := b } acts := by
  have hstart : Served h b peer bundle { relay := relay, bundle := b } :=
    ⟨rfl, hstored, nofun, fun _ => rfl, fun hne => absurd rfl hne⟩
  have hnone : AllAgree (K := K) { relay := relay, bundle := b } := nofun
  rw [Along.iff_of_step (fun σ act hσ hact => hσ.step hg hb hd act hact)
    (fun σ act hσ _ => hσ.agree_step hg hb hd act) hstart (Along.of_forall hacts)]
  exact and_iff_right hnone

/-! ## Two initiators -/

/-- A bundle with two one-time prekeys. -/
def symUploaded : ClientPreKeyBundle :=
  { identity := symIdentity
    identityDhPrivate := symGenerated.identityDh
    signedPrekey := SignedPreKey.generate symHandshake 1 symIdentity symGenerated.spk
    oneTimePrekeys := [
      (1000, OneTimePreKey.generate symHandshake 1000 (symGenerated.opk 0)),
      (1001, OneTimePreKey.generate symHandshake 1001 (symGenerated.opk 1))] }

theorem symUploaded_usable : Usable symHandshake symUploaded := by
  have hopks : ∀ id opk, (id, opk) ∈ symUploaded.oneTimePrekeys →
      ∃ i, opk = OneTimePreKey.generate symHandshake id (symGenerated.opk i) := by
    intro id opk hmem
    rcases List.mem_cons.mp hmem with heq | hmem
    · cases heq
      exact ⟨0, rfl⟩
    · cases List.mem_singleton.mp hmem
      exact ⟨1, rfl⟩
  refine ⟨⟨rfl, fun id opk hmem => ?_, by decide⟩, rfl, rfl, fun id opk hmem => ?_, nofun, nofun⟩
  · obtain ⟨i, rfl⟩ := hopks id opk hmem
    exact ⟨rfl, rfl⟩
  · obtain ⟨i, rfl⟩ := hopks id opk hmem
    rfl

/-- What is uploaded of it. -/
def symPublished : List (String × Json) :=
  match serializeBundlePublic symHandshake symUploaded with
  | .ok (.dict bundle) => bundle
  | _ => []

/-- `alice` has uploaded it, and two others are connected. -/
def symRelay : Relay := runFrom Relay.step {} [.connect,
  .receive 0 (.json (.dict [("type", .str "upload_bundle"), ("username", .str "alice"),
    ("bundle", .dict symPublished)])) true, .connect, .connect]

/-- A user with the identity key `n`. -/
def symOwn (n : Nat) : ClientPreKeyBundle := { symUploaded with identityDhPrivate := symPublicKey n }

/-- `bob` asks for the bundle, and his `session_init` is answered. -/
def symOneInitiator : List (InitiatorAct Nat) :=
  [.initiate 1 true "bob" (symOwn 5) 6, .answer 0]

theorem initiators_agree_one :
    (runFrom (Initiators.step symHandshake "alice") { relay := symRelay, bundle := symUploaded }
      symOneInitiator).answers.length = 1 ∧
    AllAgree (runFrom (Initiators.step symHandshake "alice")
      { relay := symRelay, bundle := symUploaded } symOneInitiator) := by
  refine ⟨by decide +kernel, ?_⟩
  have hstored : Odict.get? symRelay.bundles (strip "alice") = some symPublished := rfl
  refine (initiators_agree_iff symHandshake_ideal.good symUploaded_usable rfl hstored
    symOneInitiator ?_).mpr ⟨trivial, fun _ => Or.inr (initiate_answers ..), trivial⟩
  intro act hact
  rcases List.mem_cons.mp hact with rfl | hact
  · trivial
  · obtain rfl := List.mem_singleton.mp hact
    trivial

/-- `bob` and `carol` both fetch the bundle before either is answered. There are
two one-time prekeys in it, and the second of them is refused. -/
theorem initiator_refused : ¬ AllAgree (runFrom (Initiators.step symHandshake "alice")
    { relay := symRelay, bundle := symUploaded }
    [.initiate 1 true "bob" (symOwn 5) 6, .initiate 2 true "carol" (symOwn 7) 8, .answer 1,
      .answer 0]) := by
  unfold AllAgree
  decide +kernel

end GhostChat.Proofs
