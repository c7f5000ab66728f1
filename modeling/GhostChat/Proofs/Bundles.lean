import GhostChat.Proofs.X3dh
import GhostChat.Ref.Startup

/-!
# A bundle, what is published of it, and what it becomes

`serialize_bundle(for_upload=True)` and `PeerBundle.from_dict` are inverse to
each other: whoever fetches the bundle has exactly the public halves. What the
owner does with the bundle afterwards only takes one-time prekeys out of it
(`Later`), so a published prekey that is still there is the one that was
published.

A bundle is well made if its public keys belong to its private keys. The
generator makes such bundles, and nothing the code checks later says so.
-/

namespace GhostChat.Proofs

open GhostChat.Lib GhostChat.Lib.Effect GhostChat.Ref

variable {K P C : Type} {h : HandshakeCrypto K P C}

/-! ## Texts -/

@[simp] theorem b64uDecode_b64Encode (x : Bytes) : b64uDecode (.str (b64Encode x)) = .ok x := by
  rw [b64uDecode, b64Decode_b64Encode]

theorem b64Digits_eq_nil {x : Bytes} : b64Digits x = [] ↔ x = [] := by
  fun_cases b64Digits x with
  | case1 => simp
  | case2 a => simp
  | case3 a b => simp
  | case4 a b c rest => simp

theorem b64Encode_truthy (x : Bytes) : (Json.str (b64Encode x)).truthy = !x.isEmpty := by
  have hempty : (b64Encode x).isEmpty = x.isEmpty := by
    rw [Bool.eq_iff_iff, String.isEmpty_iff, List.isEmpty_iff, ← String.toList_eq_nil_iff,
      b64Encode_toList, b64Digits_eq_nil]
  rw [Json.truthy, hempty]

section DecodeIfSet

variable {α : Type} {key : String} {wrap : Bytes → α} {absent : α} {x : Bytes}
  {d : List (String × Json)}

theorem decodeIfSet_none (hget : Odict.get? d key = none) :
    decodeIfSet key wrap absent (.dict d) = .ok absent := by
  simp only [decodeIfSet, Json.getMethod, Json.get, hget, Option.getD_none, except_ok_bind]
  rfl

theorem decodeIfSet_text (hget : Odict.get? d key = some (.str (b64Encode x))) :
    decodeIfSet key wrap absent (.dict d) = .ok (if x = [] then absent else wrap x) := by
  simp only [decodeIfSet, Json.getMethod, Json.get, Json.subscript, hget, Option.getD_some,
    except_ok_bind, b64Encode_truthy, b64uDecode_b64Encode]
  cases x with
  | nil => rfl
  | cons a t => rfl

theorem decodeIfSet_orNone (hget : Odict.get? d key = some (b64uOrNone x)) :
    decodeIfSet key id [] (.dict d) = .ok x := by
  cases x with
  | nil =>
      simp only [decodeIfSet, Json.getMethod, Json.get, hget, Option.getD_some, except_ok_bind,
        b64uOrNone]
      rfl
  | cons a t =>
      have htext : Odict.get? d key = some (.str (b64Encode (a :: t))) := hget
      rw [decodeIfSet_text htext]
      rfl

end DecodeIfSet

/-! ## The public text -/

/-- What others get to see of a bundle. An empty byte string is written as an
empty text, which is read as if it were not there. -/
def published (identityDhPub : Bytes) (b : ClientPreKeyBundle) : PeerBundle where
  identityPub := b.identity.publicKey
  identityDhPub := identityDhPub
  spkId := b.signedPrekey.keyId
  spkPub := b.signedPrekey.publicKey
  spkSig := b.signedPrekey.signature
  opks := b.sortedOpks.map fun opk => (opk.keyId, opk.publicKey)
  pqPub := match b.pqPublicKey with
    | none => none
    | some pq => if pq = [] then none else some pq
  algorithmSuite := match b.pqPublicKey with
    | none => algorithmSuiteClassical
    | some _ => if b.algorithmSuite = [] then algorithmSuiteClassical else b.algorithmSuite

theorem peerOpk_entry (id : Int) (pub : Bytes) :
    peerOpk (.dict [("key_id", .int id), ("pub", .str (b64Encode pub))]) = .ok (id, pub) := by
  simp [peerOpk, Json.subscript, Odict.get?, Json.toInt, rewordMalformed]

theorem peerSpk_entry (id : Int) (pub sig : Bytes) :
    peerSpk (.dict [("key_id", .int id), ("pub", .str (b64Encode pub)), ("sig", b64uOrNone sig)])
      = .ok (id, pub, sig) := by
  simp only [peerSpk]
  rw [decodeIfSet_orNone (x := sig) (by simp [Odict.get?])]
  simp [Json.subscript, Odict.get?, Json.toInt, rewordMalformed]

theorem mapM_peerOpk (opks : List OneTimePreKey) :
    (opks.map fun opk => (Json.dict [("key_id", .int opk.keyId),
      ("pub", .str (b64Encode opk.publicKey))])).mapM peerOpk
      = .ok (opks.map fun opk => (opk.keyId, opk.publicKey)) := by
  induction opks with
  | nil => rfl
  | cons opk opks ih =>
      rw [List.map_cons, List.mapM_cons, peerOpk_entry, except_ok_bind, ih, except_ok_bind]
      rfl

/-- `from_dict` on a dict that has the fields of `serialize_bundle`. -/
theorem fromDict_fields (b : ClientPreKeyBundle) (identityDhPub : Bytes) (pqPub : Option Bytes)
    (suite : Bytes) {d : List (String × Json)}
    (hv : Odict.get? d "v" = some (.int bundleVersion))
    (hidentity : Odict.get? d "identity_pub" = some (.str (b64Encode b.identity.publicKey)))
    (hdh : Odict.get? d "identity_dh_pub" = some (.str (b64Encode identityDhPub)))
    (hspk : Odict.get? d "spk" = some (.dict [("key_id", .int b.signedPrekey.keyId),
      ("pub", .str (b64Encode b.signedPrekey.publicKey)),
      ("sig", b64uOrNone b.signedPrekey.signature)]))
    (hopks : Odict.get? d "opks" = some (.list (b.sortedOpks.map fun opk => .dict [
      ("key_id", .int opk.keyId), ("pub", .str (b64Encode opk.publicKey))])))
    (hpq : decodeIfSet "pq_pub" some none (.dict d) = .ok pqPub)
    (hlacks : ¬ (pqPub.isSome ∧ lacksSuite (.dict d)))
    (hsuite : decodeIfSet "algorithm_suite" id algorithmSuiteClassical (.dict d) = .ok suite) :
    PeerBundle.fromDict (.dict d) = .ok { published identityDhPub b with
      pqPub := pqPub, algorithmSuite := suite } := by
  have hversion : (Json.int bundleVersion).eqInt bundleVersion = true := rfl
  simp only [PeerBundle.fromDict, Json.getMethod, Json.get, requireField, Json.subscript, opksRaw,
    hv, hidentity, hdh, hspk, hopks, Option.getD_some, except_ok_bind, hversion, Bool.not_true,
    Bool.false_eq_true, ↓reduceIte, b64uDecode_b64Encode, peerSpk_entry, Json.iterate,
    mapM_peerOpk, hpq, if_neg hlacks, hsuite]
  rfl

theorem identityDhPublic_eq {b : ClientPreKeyBundle} (hlen : b.identityDhPrivate.length = 32) :
    b.identityDhPublic h = .ok (h.publicKey (h.privateKey b.identityDhPrivate)) := by
  rw [ClientPreKeyBundle.identityDhPublic, x25519PrivateKey, if_neg (not_not.mpr hlen)]
  rfl

/-- The public text of a bundle reads back as what it says. -/
theorem fromDict_public {b : ClientPreKeyBundle} (hlen : b.identityDhPrivate.length = 32) :
    ∃ d, serializeBundlePublic h b = .ok d ∧ PeerBundle.fromDict d
      = .ok (published (h.publicKey (h.privateKey b.identityDhPrivate)) b) := by
  generalize hpub : h.publicKey (h.privateKey b.identityDhPrivate) = identityDhPub
  rw [serializeBundlePublic, identityDhPublic_eq hlen, hpub, except_ok_bind]
  refine ⟨_, rfl, ?_⟩
  cases hpq : b.pqPublicKey with
  | none =>
      simp only [pqFields, hpq, List.append_nil]
      rw [fromDict_fields b identityDhPub none algorithmSuiteClassical]
      · simp only [published, hpq]
      all_goals first
        | simp [Odict.get?]
        | exact decodeIfSet_none (by simp [Odict.get?])
  | some pq =>
      simp only [pqFields, hpq, List.cons_append, List.nil_append]
      rw [fromDict_fields b identityDhPub (if pq = [] then none else some pq)
        (if b.algorithmSuite = [] then algorithmSuiteClassical else b.algorithmSuite)]
      · simp only [published, hpq]
      all_goals first
        | simp [Odict.get?, lacksSuite, Odict.has]
        | exact decodeIfSet_text (by simp [Odict.get?])

/-! ## The bundle and its owner -/

/-- The public keys of a bundle belong to its private keys. -/
structure WellMade (h : HandshakeCrypto K P C) (b : ClientPreKeyBundle) : Prop where
  spk : b.signedPrekey.publicKey = h.publicKey (h.privateKey b.signedPrekey.privateKey)
  opk : ∀ id opk, (id, opk) ∈ b.oneTimePrekeys →
    opk.keyId = id ∧ opk.publicKey = h.publicKey (h.privateKey opk.privateKey)
  nodup : (Odict.keys b.oneTimePrekeys).Nodup

/-- The end of `generate_prekey_bundle`: the keys of the KEM are put in, if
there is one. -/
theorem withKem_ok {classical b : ClientPreKeyBundle} {backend : Option (PqBackend K)}
    (hok : (do
      let bundle ← match backend with
        | none => pure classical
        | some pq => do
            let (pub, sk) ← pq.generateKeypair
            pure { classical with
              pqPublicKey := some pub, pqSecretKey := some sk, algorithmSuite := pq.algorithmSuite }
      bundle.verifySpk h
      return bundle : Except Exn ClientPreKeyBundle) = .ok b) :
    (backend = none ∧ b = classical) ∨
      ∃ pq pub sk, backend = some pq ∧ pq.generateKeypair = .ok (pub, sk) ∧
        b = { classical with
          pqPublicKey := some pub
          pqSecretKey := some sk
          algorithmSuite := pq.algorithmSuite } := by
  cases backend with
  | none =>
      obtain ⟨_, hret, hok⟩ := except_bind_ok hok
      cases hret
      obtain ⟨_, -, hret⟩ := except_bind_ok hok
      cases hret
      exact Or.inl ⟨rfl, rfl⟩
  | some pq =>
      obtain ⟨⟨pub, sk⟩, hkeypair, hok⟩ := except_bind_ok hok
      obtain ⟨_, hret, hok⟩ := except_bind_ok hok
      cases hret
      obtain ⟨_, -, hret⟩ := except_bind_ok hok
      cases hret
      exact Or.inr ⟨pq, pub, sk, rfl, hkeypair, rfl⟩

/-- What `generate_prekey_bundle` makes. -/
theorem generatePrekeyBundle_keys {identity : IdentityKeyPair} {gen : GeneratedKeys}
    {backend : Option (PqBackend K)} {b : ClientPreKeyBundle}
    (hok : generatePrekeyBundle h identity gen backend = .ok b) :
    b.identityDhPrivate = gen.identityDh ∧
      b.signedPrekey = SignedPreKey.generate h 1 identity gen.spk ∧
      b.oneTimePrekeys = (List.range 10).map (fun i : Nat =>
        (((1000 + i : Nat) : Int), OneTimePreKey.generate h ((1000 + i : Nat) : Int) (gen.opk i))) ∧
      b.usedOpkIds = [] ∧
      ∀ pub, b.pqPublicKey = some pub → ∃ pq sk, backend = some pq ∧
        pq.generateKeypair = .ok (pub, sk) := by
  rcases withKem_ok hok with ⟨-, rfl⟩ | ⟨pq, pub, sk, hpq, hkeypair, rfl⟩
  · exact ⟨rfl, rfl, rfl, rfl, nofun⟩
  · refine ⟨rfl, rfl, rfl, rfl, fun pub' hpub => ⟨pq, sk, hpq, ?_⟩⟩
    cases hpub
    exact hkeypair

theorem generatePrekeyBundle_wellMade {identity : IdentityKeyPair} {gen : GeneratedKeys}
    {backend : Option (PqBackend K)} {b : ClientPreKeyBundle}
    (hok : generatePrekeyBundle h identity gen backend = .ok b) : WellMade h b := by
  obtain ⟨-, hspk, hopks, -⟩ := generatePrekeyBundle_keys hok
  refine ⟨?_, fun id opk hopk => ?_, ?_⟩
  · rw [hspk]
    rfl
  · rw [hopks] at hopk
    obtain ⟨i, -, heq⟩ := List.mem_map.mp hopk
    cases heq
    exact ⟨rfl, rfl⟩
  · rw [hopks, Odict.keys, List.map_map]
    refine (List.nodup_range).map fun i j hij => ?_
    simp only [Function.comp_apply] at hij
    omega

/-! ## What a `session_init` can do to a bundle -/

/-- One prekey has been consumed. -/
def withoutPrekey (id : Int) (b : ClientPreKeyBundle) : ClientPreKeyBundle :=
  { b with
    oneTimePrekeys := Odict.erase b.oneTimePrekeys id
    usedOpkIds := b.usedOpkIds ++ [id] }

/-- The id names a prekey that is there to be used. -/
def Takes (b : ClientPreKeyBundle) (keyId : Json) (id : Int) (opk : OneTimePreKey) : Prop :=
  keyId.asKey = .ok (some id) ∧ id ∉ b.usedOpkIds ∧ Odict.get? b.oneTimePrekeys id = some opk

section Consume

variable {b : ClientPreKeyBundle}

theorem consume_takes {keyId : Json} {id : Int} {opk : OneTimePreKey} (ht : Takes b keyId id opk) :
    ClientPreKeyBundle.consumeOneTimePrekey keyId b = .ok opk (withoutPrekey id b) := by
  obtain ⟨hid, hnew, hopk⟩ := ht
  simp only [ClientPreKeyBundle.consumeOneTimePrekey, bind_apply, get_apply, hid, lift_ok,
    if_neg hnew, hopk, modify_apply]
  rfl

theorem consume_refuses {keyId : Json} (hnone : ∀ id opk, ¬ Takes b keyId id opk) :
    ∃ e, ClientPreKeyBundle.consumeOneTimePrekey keyId b = .error e b := by
  rw [ClientPreKeyBundle.consumeOneTimePrekey, bind_apply, get_apply]
  refine lift_bind_raises fun key hkey => ?_
  cases key with
  | none => exact ⟨_, rfl⟩
  | some id =>
      refine guard_raises fun hnew => ?_
      cases hopk : Odict.get? b.oneTimePrekeys id with
      | none => exact ⟨_, rfl⟩
      | some opk => exact absurd ⟨hkey, hnew, hopk⟩ (hnone id opk)

end Consume

section Keeps

variable {I : ClientPreKeyBundle → Prop}

theorem consume_keeps (hI : ∀ id b, I b → I (withoutPrekey id b)) (keyId : Json) :
    Keeps I (ClientPreKeyBundle.consumeOneTimePrekey keyId) := by
  refine keeps_get_bind fun b hb => ?_
  refine keeps_bind (keeps_lift _) (fun key => ?_) b hb
  cases key with
  | none => exact keeps_throw _
  | some id =>
      refine keeps_guard ?_
      split
      · exact keeps_throw _
      · exact keeps_bind (keeps_modify (hI id)) fun _ => keeps_pure _

theorem responderDh4_keeps (hI : ∀ id b, I b → I (withoutPrekey id b)) (ephPub : Bytes)
    (keyId : Json) : Keeps I (responderDh4 h ephPub keyId) := by
  by_cases hnull : keyId = .null
  · subst hnull
    exact keeps_pure _
  · rw [responderDh4_eq ephPub hnull]
    exact keeps_bind (consume_keeps hI keyId) fun _ => keeps_bind (keeps_lift _) fun _ =>
      keeps_bind (keeps_lift _) fun _ => keeps_bind (keeps_lift _) fun _ => keeps_pure _

/-- What taking a prekey out keeps, a call of `x3dh_responder` keeps,
returning or raising. -/
theorem responder_keeps (hI : ∀ id b, I b → I (withoutPrekey id b)) (idPub ephPub : Bytes)
    (keyId : Json) (ct suite : Option Bytes) (backend : Option (PqBackend K)) :
    Keeps I (x3dhResponderKeyed h idPub ephPub keyId ct suite backend) := by
  simp only [x3dhResponderKeyed]
  refine keeps_guard (keeps_get_bind fun b hb => ?_)
  exact keeps_bind (keeps_lift _) (fun _ => keeps_bind (keeps_lift _) fun _ =>
    keeps_bind (keeps_lift _) fun _ => keeps_bind (keeps_lift _) fun _ =>
    keeps_bind (keeps_lift _) fun _ => keeps_bind (keeps_lift _) fun _ =>
    keeps_bind (keeps_lift _) fun _ => keeps_bind (responderDh4_keeps hI ephPub keyId) fun _ =>
    keeps_bind (keeps_lift _) fun _ => keeps_bind (keeps_lift _) fun _ =>
    keeps_bind (keeps_lift _) fun _ => keeps_pure _) b hb

theorem respondToInit_keeps (hI : ∀ id b, I b → I (withoutPrekey id b))
    (init : List (String × Json)) (keys : Bytes × Bytes) :
    Keeps I (respondToInit h init keys) := by
  intro b hb
  have hkeep := responder_keeps (h := h) hI keys.1 keys.2 (Json.get init "opk_id_used") none none
    none b hb
  simp only [respondToInit, x3dhResponder, map_apply]
  cases hr : x3dhResponderKeyed h keys.1 keys.2 (Json.get init "opk_id_used") none none none b with
  | ok x b' => rw [hr] at hkeep; exact hkeep
  | error e b' => rw [hr] at hkeep; exact hkeep

end Keeps

/-- The bundle `b₀` some time on. -/
structure Later (b₀ b : ClientPreKeyBundle) : Prop where
  identityDh : b.identityDhPrivate = b₀.identityDhPrivate
  spk : b.signedPrekey = b₀.signedPrekey
  opk : ∀ id opk, (id, opk) ∈ b.oneTimePrekeys → (id, opk) ∈ b₀.oneTimePrekeys

theorem Later.refl (b : ClientPreKeyBundle) : Later b b := ⟨rfl, rfl, fun _ _ hopk => hopk⟩

/-- Answering `session_init` messages is all that happens to a bundle. -/
theorem Later.respond {b₀ : ClientPreKeyBundle} (init : List (String × Json))
    (keys : Bytes × Bytes) : Keeps (Later b₀) (respondToInit h init keys) :=
  respondToInit_keeps (fun _ _ hb => ⟨hb.identityDh, hb.spk, fun id' opk hopk =>
    hb.opk id' opk (Odict.mem_erase.mp hopk).1⟩) init keys

end GhostChat.Proofs
