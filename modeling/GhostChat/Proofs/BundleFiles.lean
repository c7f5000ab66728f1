import GhostChat.Proofs.Bundles

/-!
# A bundle over its whole life, on disk and on the relay

What `generate_prekey_bundle` makes, and what `consume_one_time_prekey` leaves
of it, has its one-time prekeys in the order of their ids, none of them used,
and no field that is empty where an empty text would be read as none
(`Tidy`). That is all the two texts need: the private one reads back as the
bundle itself, and the public one as what the bundle has to show.

Sorting does nothing to a list in order, so patching in the private keys by
position puts each where it belongs. And no id is skipped in reading, as the
used ones are not among the ones that are left.
-/

namespace GhostChat.Proofs

open GhostChat.Lib GhostChat.Lib.Effect GhostChat.Ref

variable {K P C : Type} {h : HandshakeCrypto K P C} {b b' : ClientPreKeyBundle}
  {identity : IdentityKeyPair}

/-! ## Tidy bundles -/

/-- A bundle as the program has it: prekeys under their own ids and in order,
none of them used, nothing empty, and either all of the post-quantum fields or
none. -/
structure Tidy (b : ClientPreKeyBundle) : Prop where
  identityDh : b.identityDhPrivate.length = 32
  spk : b.signedPrekey.privateKey ≠ [] ∧ b.signedPrekey.signature ≠ []
  keyed : ∀ e ∈ b.oneTimePrekeys, e.2.keyId = e.1
  opk : ∀ e ∈ b.oneTimePrekeys, e.2.privateKey ≠ []
  sorted : b.oneTimePrekeys.Pairwise (·.1 < ·.1)
  unused : ∀ e ∈ b.oneTimePrekeys, e.1 ∉ b.usedOpkIds
  pq : (b.pqPublicKey = none ∧ b.pqSecretKey = none ∧
      b.algorithmSuite = algorithmSuiteClassical) ∨
    ∃ pub sk, b.pqPublicKey = some pub ∧ b.pqSecretKey = some sk ∧ pub ≠ [] ∧ sk ≠ [] ∧
      b.algorithmSuite ≠ []

/-- What the generators give is 32 bytes. -/
structure SizedKeys (gen : GeneratedKeys) : Prop where
  identityDh : gen.identityDh.length = 32
  spk : gen.spk.length = 32
  opk : ∀ i, (gen.opk i).length = 32

/-- A KEM whose keys, and the name of whose suite, are not empty. -/
structure ProperKem (pq : PqBackend K) : Prop where
  keys : ∀ pub sk, pq.generateKeypair = .ok (pub, sk) → pub ≠ [] ∧ sk ≠ []
  suite : pq.algorithmSuite ≠ []

theorem ne_nil_of_sized {x : Bytes} (hlen : x.length = 32) : x ≠ [] := by
  rintro rfl
  cases hlen

/-- What `generate_prekey_bundle` makes. -/
theorem generated_tidy {identityDhPrivate : Option Bytes} {spkId opkStartId opkCount : Int}
    {gen : GeneratedKeys} {backend : Option (PqBackend K)} (hgen : SizedKeys gen)
    (hsign : ∀ m, h.sign identity.privateKey m ≠ [])
    (hdh : ∀ k, identityDhPrivate = some k → k.length = 32)
    (hpq : ∀ pq, backend = some pq → ProperKem pq)
    (hok : generatePrekeyBundleWith h identity identityDhPrivate spkId opkStartId opkCount gen
      backend = .ok b) :
    Tidy b ∧ b.identity = identity ∧ b.usedOpkIds = [] ∧
      b.oneTimePrekeys.map (·.1)
        = (List.range opkCount.toNat).map fun i : Nat => opkStartId + (i : Int) := by
  have hidentityDh : (identityDhPrivate.getD gen.identityDh).length = 32 := by
    cases hk : identityDhPrivate with
    | none => exact hgen.identityDh
    | some k => exact hdh k hk
  have hopks : ∀ e ∈ (List.range opkCount.toNat).map (fun i : Nat =>
      (opkStartId + i, OneTimePreKey.generate h (opkStartId + i) (gen.opk i))),
      e.2.keyId = e.1 ∧ e.2.privateKey ≠ [] := by
    intro e he
    obtain ⟨i, -, rfl⟩ := List.mem_map.mp he
    exact ⟨rfl, ne_nil_of_sized (hgen.opk i)⟩
  have hsorted : ((List.range opkCount.toNat).map (fun i : Nat =>
      (opkStartId + i, OneTimePreKey.generate h (opkStartId + i) (gen.opk i)))).Pairwise
      (·.1 < ·.1) := by
    rw [List.pairwise_map]
    refine List.pairwise_lt_range.imp fun hij => ?_
    simp only
    omega
  have hids : ((List.range opkCount.toNat).map (fun i : Nat =>
      (opkStartId + i, OneTimePreKey.generate h (opkStartId + i) (gen.opk i)))).map (·.1)
      = (List.range opkCount.toNat).map fun i : Nat => opkStartId + (i : Int) := by
    rw [List.map_map]
    rfl
  have hspk : gen.spk ≠ [] ∧ (SignedPreKey.generate h spkId identity gen.spk).signature ≠ [] :=
    ⟨ne_nil_of_sized hgen.spk, hsign _⟩
  rcases withKem_ok hok with ⟨-, rfl⟩ | ⟨pq, pub, sk, hbackend, hkeypair, rfl⟩
  · exact ⟨⟨hidentityDh, hspk, fun e he => (hopks e he).1, fun e he => (hopks e he).2, hsorted,
      fun _ _ => List.not_mem_nil, Or.inl ⟨rfl, rfl, rfl⟩⟩, rfl, rfl, hids⟩
  · obtain ⟨hpub, hsk⟩ := (hpq pq hbackend).keys pub sk hkeypair
    exact ⟨⟨hidentityDh, hspk, fun e he => (hopks e he).1, fun e he => (hopks e he).2, hsorted,
      fun _ _ => List.not_mem_nil,
      Or.inr ⟨pub, sk, rfl, rfl, hpub, hsk, (hpq pq hbackend).suite⟩⟩, rfl, rfl, hids⟩

/-- Taking a prekey out leaves the rest in order. -/
theorem Tidy.without (hb : Tidy b) (id : Int) : Tidy (withoutPrekey id b) where
  identityDh := hb.identityDh
  spk := hb.spk
  keyed := fun e he => hb.keyed e (Odict.mem_erase.mp he).1
  opk := fun e he => hb.opk e (Odict.mem_erase.mp he).1
  sorted := hb.sorted.filter _
  unused := by
    intro e he hused
    obtain ⟨hmem, hne⟩ := Odict.mem_erase.mp he
    rcases List.mem_append.mp hused with hused | hused
    · exact hb.unused e hmem hused
    · exact hne (List.mem_singleton.mp hused)
  pq := hb.pq

/-! ## The private text -/

theorem Tidy.sortedOpks_eq (hb : Tidy b) : b.sortedOpks = b.oneTimePrekeys.map (·.2) := by
  refine List.Pairwise.insertionSort_eq ?_
  rw [List.pairwise_map]
  refine hb.sorted.imp_of_mem fun he he' hlt => ?_
  rw [hb.keyed _ he, hb.keyed _ he']
  exact hlt.le

/-- The entry of a one-time prekey in the file. -/
def opkEntry (opk : OneTimePreKey) : Json :=
  .dict [("key_id", .int opk.keyId), ("pub", .str (b64Encode opk.publicKey)),
    ("priv", .str (b64Encode opk.privateKey))]

theorem privateOpk_entry {used : List Int} {opks : Odict Int OneTimePreKey} {opk : OneTimePreKey}
    (hused : opk.keyId ∉ used) (hpriv : opk.privateKey ≠ []) :
    privateOpk used opks (opkEntry opk) = .ok (Odict.set opks opk.keyId opk) := by
  have hget : decodeIfSet "priv" some none (opkEntry opk) = .ok (some opk.privateKey) := by
    rw [opkEntry, decodeIfSet_text (x := opk.privateKey) (by simp [Odict.get?]), if_neg hpriv]
  rw [privateOpk, hget]
  simp [opkEntry, Json.subscript, Odict.get?, Json.toInt, hused]

/-- Reading the entries of prekeys that are neither used nor read already puts
them where they were. -/
theorem foldlM_privateOpk {used : List Int} {opks acc : Odict Int OneTimePreKey}
    (hkeyed : ∀ e ∈ opks, e.2.keyId = e.1 ∧ e.2.privateKey ≠ [] ∧ e.1 ∉ used)
    (hnodup : (acc ++ opks).Pairwise (·.1 ≠ ·.1)) :
    ((opks.map (·.2)).map opkEntry).foldlM (privateOpk used) acc = .ok (acc ++ opks) := by
  induction opks generalizing acc with
  | nil =>
      rw [List.append_nil]
      rfl
  | cons e opks ih =>
      obtain ⟨hid, hpriv, hused⟩ := hkeyed e List.mem_cons_self
      have hnew : Odict.has acc e.1 = false := by
        refine Bool.eq_false_iff.mpr fun hhas => ?_
        obtain ⟨e', he', heq⟩ := List.mem_map.mp (Odict.has_iff.mp hhas)
        exact (List.pairwise_append.mp hnodup).2.2 e' he' e List.mem_cons_self heq
      rw [List.map_cons, List.map_cons, List.foldlM_cons, privateOpk_entry (hid ▸ hused) hpriv,
        except_ok_bind, hid, Odict.set_of_not_has hnew]
      have happend : acc ++ e :: opks = acc ++ [(e.1, e.2)] ++ opks := by
        rw [List.append_assoc]
        rfl
      rw [happend] at hnodup ⊢
      exact ih (fun e' he' => hkeyed e' (List.mem_cons_of_mem e he')) hnodup

theorem privateSpk_entry {spk : SignedPreKey} (hpriv : spk.privateKey ≠ [])
    (hsig : spk.signature ≠ []) :
    privateSpk (.dict [("key_id", .int spk.keyId), ("pub", .str (b64Encode spk.publicKey)),
      ("sig", b64uOrNone spk.signature), ("priv", .str (b64Encode spk.privateKey))]) = .ok spk := by
  have htext : b64uOrNone spk.signature = .str (b64Encode spk.signature) := by
    rw [b64uOrNone, if_neg (by rwa [List.isEmpty_iff])]
  rw [htext, privateSpk,
    decodeIfSet_text (x := spk.privateKey) (by simp [Odict.get?]), if_neg hpriv,
    decodeIfSet_text (x := spk.signature) (by simp [Odict.get?]), if_neg hsig]
  simp [Json.subscript, Odict.get?, Json.toInt]

theorem usedIds_text {ids : List Int} {d : List (String × Json)}
    (hget : Odict.get? d "used_opk_ids" = some (.list (ids.map .int))) :
    usedIds (.dict d) = .ok ids := by
  simp [usedIds, hget, List.filterMap_map, Json.asKey]

/-- `deserialize_bundle_private` on a dict that has the fields of
`serialize_bundle`. -/
theorem deserialize_fields (hb : Tidy b) {d : List (String × Json)}
    (hv : Odict.get? d "v" = some (.int bundleVersion))
    (hdh : Odict.get? d "identity_dh_priv" = some (.str (b64Encode b.identityDhPrivate)))
    (hspk : Odict.get? d "spk" = some (.dict [("key_id", .int b.signedPrekey.keyId),
      ("pub", .str (b64Encode b.signedPrekey.publicKey)),
      ("sig", b64uOrNone b.signedPrekey.signature),
      ("priv", .str (b64Encode b.signedPrekey.privateKey))]))
    (hused : Odict.get? d "used_opk_ids" = some (.list (b.usedOpkIds.map .int)))
    (hopks : Odict.get? d "opks" = some (.list (b.sortedOpks.map opkEntry)))
    (hpub : decodeIfSet "pq_pub" some none (.dict d) = .ok b.pqPublicKey)
    (hpriv : decodeIfSet "pq_priv" some none (.dict d) = .ok b.pqSecretKey)
    (hsuite : decodeIfSet "algorithm_suite" id algorithmSuiteClassical (.dict d)
      = .ok b.algorithmSuite) :
    deserializeBundlePrivate (.dict d) b.identity = .ok b := by
  have hversion : (Json.int bundleVersion).eqInt bundleVersion = true := rfl
  have hread : (b.sortedOpks.map opkEntry).foldlM (privateOpk b.usedOpkIds) []
      = .ok b.oneTimePrekeys := by
    rw [hb.sortedOpks_eq]
    exact foldlM_privateOpk (fun e he => ⟨hb.keyed e he, hb.opk e he, hb.unused e he⟩)
      (hb.sorted.imp fun hlt => hlt.ne)
  simp only [deserializeBundlePrivate, Json.getMethod, Json.get, Json.subscript, opksRaw, hv, hdh,
    hspk, hopks, Option.getD_some, except_ok_bind, hversion, Bool.not_true, Bool.false_eq_true,
    ↓reduceIte, b64uDecode_b64Encode, privateSpk_entry hb.spk.1 hb.spk.2, usedIds_text hused,
    Json.iterate, hread, hpub, hpriv, hsuite]
  rfl

/-- The private text of a tidy bundle reads back as the bundle. -/
theorem deserialize_private (hb : Tidy b) : ∃ v, serializeBundlePrivate h b = .ok v ∧
    deserializeBundlePrivate v b.identity = .ok b := by
  rw [serializeBundlePrivate, identityDhPublic_eq hb.identityDh, except_ok_bind]
  refine ⟨_, rfl, ?_⟩
  rcases hb.pq with ⟨hpub, hsk, hsuite⟩ | ⟨pub, sk, hpub, hsk, hpubne, hskne, hsuitene⟩
  · simp only [pqFields, hpub, hsk, List.append_nil, List.nil_append, List.cons_append]
    refine deserialize_fields hb ?_ ?_ ?_ ?_ ?_ ?_ ?_ ?_
    · simp [Odict.get?]
    · simp [Odict.get?]
    · simp [Odict.get?]
    · simp [Odict.get?]
    · simp [Odict.get?, opkEntry]
    · rw [hpub]
      exact decodeIfSet_none (by simp [Odict.get?])
    · rw [hsk]
      exact decodeIfSet_none (by simp [Odict.get?])
    · rw [hsuite]
      exact decodeIfSet_none (by simp [Odict.get?])
  · simp only [pqFields, hpub, hsk, List.nil_append, List.cons_append]
    refine deserialize_fields hb ?_ ?_ ?_ ?_ ?_ ?_ ?_ ?_
    · simp [Odict.get?]
    · simp [Odict.get?]
    · simp [Odict.get?]
    · simp [Odict.get?]
    · simp [Odict.get?, opkEntry]
    · rw [hpub, decodeIfSet_text (x := pub) (by simp [Odict.get?]), if_neg hpubne]
    · rw [hsk, decodeIfSet_text (x := sk) (by simp [Odict.get?]), if_neg hskne]
    · rw [decodeIfSet_text (x := b.algorithmSuite) (by simp [Odict.get?]), if_neg hsuitene]
      rfl

/-! ## The public text -/

/-- What a bundle has to show. -/
def publicView (h : HandshakeCrypto K P C) (b : ClientPreKeyBundle) : PeerBundle where
  identityPub := b.identity.publicKey
  identityDhPub := h.publicKey (h.privateKey b.identityDhPrivate)
  spkId := b.signedPrekey.keyId
  spkPub := b.signedPrekey.publicKey
  spkSig := b.signedPrekey.signature
  opks := b.oneTimePrekeys.map fun e => (e.1, e.2.publicKey)
  pqPub := b.pqPublicKey
  algorithmSuite := b.algorithmSuite

/-- The published dict, written from what is to be shown alone. -/
def publishedDict (view : PeerBundle) : List (String × Json) :=
  [("v", .int bundleVersion),
    ("identity_pub", .str (b64Encode view.identityPub)),
    ("identity_dh_pub", .str (b64Encode view.identityDhPub)),
    ("spk", .dict [("key_id", .int view.spkId), ("pub", .str (b64Encode view.spkPub)),
      ("sig", b64uOrNone view.spkSig)]),
    ("opks", .list (view.opks.map fun opk => .dict [
      ("key_id", .int opk.1), ("pub", .str (b64Encode opk.2))]))]
  ++ match view.pqPub with
    | none => []
    | some pub => [("pq_pub", .str (b64Encode pub)),
      ("algorithm_suite", .str (b64Encode view.algorithmSuite))]

theorem Tidy.published_opks (hb : Tidy b) :
    b.sortedOpks.map (fun opk => (opk.keyId, opk.publicKey))
      = b.oneTimePrekeys.map fun e => (e.1, e.2.publicKey) := by
  rw [hb.sortedOpks_eq, List.map_map]
  refine List.map_congr_left fun e he => ?_
  rw [Function.comp_apply, hb.keyed e he]

theorem Tidy.published_eq (hb : Tidy b) :
    published (h.publicKey (h.privateKey b.identityDhPrivate)) b = publicView h b := by
  rw [published, publicView, hb.published_opks]
  rcases hb.pq with ⟨hpub, -, hsuite⟩ | ⟨pub, sk, hpub, -, hpubne, -, hsuitene⟩
  · simp only [hpub, hsuite]
  · simp only [hpub, if_neg hpubne, if_neg hsuitene]

theorem serializeBundlePublic_eq (hb : Tidy b) :
    serializeBundlePublic h b = .ok (.dict (publishedDict (publicView h b))) := by
  rw [serializeBundlePublic, identityDhPublic_eq hb.identityDh, except_ok_bind, publishedDict,
    pqFields, publicView, ← hb.published_opks, List.map_map]
  cases b.pqPublicKey <;> rfl

/-- A dict somewhere in the value has a field of this name. -/
inductive HasField (name : String) : Json → Prop where
  | here {fields : List (String × Json)} {v : Json} (hmem : (name, v) ∈ fields) :
      HasField name (.dict fields)
  | inDict {fields : List (String × Json)} {k : String} {v : Json} (hmem : (k, v) ∈ fields)
      (hv : HasField name v) : HasField name (.dict fields)
  | inList {items : List Json} {v : Json} (hmem : v ∈ items) (hv : HasField name v) :
      HasField name (.list items)

section HasField

variable {name : String}

theorem hasField_dict {fields : List (String × Json)} :
    HasField name (.dict fields) ↔ ∃ e ∈ fields, e.1 = name ∨ HasField name e.2 := by
  constructor
  · intro hfield
    cases hfield with
    | here hmem => exact ⟨_, hmem, Or.inl rfl⟩
    | inDict hmem hv => exact ⟨_, hmem, Or.inr hv⟩
  · rintro ⟨⟨k, v⟩, hmem, rfl | hv⟩
    · exact .here hmem
    · exact .inDict hmem hv

theorem hasField_list {items : List Json} :
    HasField name (.list items) ↔ ∃ v ∈ items, HasField name v := by
  constructor
  · intro hfield
    cases hfield with
    | inList hmem hv => exact ⟨_, hmem, hv⟩
  · rintro ⟨v, hmem, hv⟩
    exact .inList hmem hv

theorem not_hasField_int {n : Int} : ¬ HasField name (.int n) := by rintro ⟨⟩

theorem not_hasField_str {text : String} : ¬ HasField name (.str text) := by rintro ⟨⟩

theorem not_hasField_orNone {x : Bytes} : ¬ HasField name (b64uOrNone x) := by
  rw [b64uOrNone]
  split
  · rintro ⟨⟩
  · exact not_hasField_str

end HasField

/-- The fields that hold private keys in the private text. -/
def privateFields : List String := ["priv", "identity_dh_priv", "pq_priv"]

theorem published_hides {view : PeerBundle} {name : String} (hname : name ∈ privateFields) :
    ¬ HasField name (.dict (publishedDict view)) := by
  simp only [privateFields, List.mem_cons, List.not_mem_nil, or_false] at hname
  have hspk : ¬ HasField name (.dict [("key_id", .int view.spkId),
      ("pub", .str (b64Encode view.spkPub)), ("sig", b64uOrNone view.spkSig)]) := by
    rcases hname with rfl | rfl | rfl <;>
      simp [hasField_dict, not_hasField_int, not_hasField_str, not_hasField_orNone]
  have hopks : ¬ HasField name (.list (view.opks.map fun opk => .dict [
      ("key_id", .int opk.1), ("pub", .str (b64Encode opk.2))])) := by
    rw [hasField_list]
    rintro ⟨v, hv, hfield⟩
    obtain ⟨opk, -, rfl⟩ := List.mem_map.mp hv
    rcases hname with rfl | rfl | rfl <;>
      simp [hasField_dict, not_hasField_int, not_hasField_str] at hfield
  rw [hasField_dict, publishedDict]
  cases view.pqPub with
  | none =>
      rcases hname with rfl | rfl | rfl <;> simp [hspk, hopks, not_hasField_int, not_hasField_str]
  | some pub =>
      rcases hname with rfl | rfl | rfl <;> simp [hspk, hopks, not_hasField_int, not_hasField_str]

/-! ## After any calls -/

/-- One call of `consume_one_time_prekey`, returned or raised. -/
def consumeStep (b : ClientPreKeyBundle) (keyId : Json) : ClientPreKeyBundle :=
  after (ClientPreKeyBundle.consumeOneTimePrekey keyId b)

/-- A prekey can be consumed if it is there. -/
theorem Tidy.takes (hb : Tidy b) {keyId : Json} {id : Int} (hid : keyId.asKey = .ok (some id))
    (hmem : id ∈ Odict.keys b.oneTimePrekeys) : ∃ opk, Takes b keyId id opk := by
  rw [← Odict.has_iff, Odict.has_eq_true_iff] at hmem
  obtain ⟨opk, hopk⟩ := hmem
  exact ⟨opk, hid, hb.unused _ (Odict.mem_of_get? hopk), hopk⟩

theorem mem_keys_of_takes {keyId : Json} {id : Int} {opk : OneTimePreKey}
    (ht : Takes b keyId id opk) : id ∈ Odict.keys b.oneTimePrekeys :=
  Odict.has_iff.mp (Odict.has_eq_true_iff.mpr ⟨opk, ht.2.2⟩)

theorem consumeStep_cases (b : ClientPreKeyBundle) (keyId : Json) :
    (∃ id opk, Takes b keyId id opk ∧ consumeStep b keyId = withoutPrekey id b) ∨
      ((∀ id opk, ¬ Takes b keyId id opk) ∧ consumeStep b keyId = b) := by
  by_cases htakes : ∃ id opk, Takes b keyId id opk
  · obtain ⟨id, opk, ht⟩ := htakes
    refine Or.inl ⟨id, opk, ht, ?_⟩
    rw [consumeStep, consume_takes ht, after_ok]
  · have hnone : ∀ id opk, ¬ Takes b keyId id opk := fun id opk ht => htakes ⟨id, opk, ht⟩
    obtain ⟨e, he⟩ := consume_refuses hnone
    refine Or.inr ⟨hnone, ?_⟩
    rw [consumeStep, he, after_error]

/-- What one call leaves: a tidy bundle with the prekeys that the call does
not name. -/
theorem Tidy.consume (hb : Tidy b) (keyId : Json) :
    Tidy (consumeStep b keyId) ∧ (consumeStep b keyId).identity = b.identity ∧
      ∀ id, id ∈ Odict.keys (consumeStep b keyId).oneTimePrekeys ↔
        id ∈ Odict.keys b.oneTimePrekeys ∧ keyId.asKey ≠ .ok (some id) := by
  rcases consumeStep_cases b keyId with ⟨id', opk, ht, heq⟩ | ⟨hnone, heq⟩
  · rw [heq]
    refine ⟨hb.without id', rfl, fun id => ?_⟩
    have hne : keyId.asKey ≠ .ok (some id) ↔ id ≠ id' := by
      rw [ht.1]
      simp [eq_comm]
    rw [← Odict.has_iff, ← Odict.has_iff, withoutPrekey, Odict.has_erase, hne]
    simp [and_comm]
  · rw [heq]
    refine ⟨hb, rfl, fun id => ⟨fun hmem => ⟨hmem, fun hid => ?_⟩, fun h => h.1⟩⟩
    obtain ⟨opk, ht⟩ := hb.takes hid hmem
    exact hnone id opk ht

/-- What any calls leave. -/
theorem Tidy.consumeAll (hb : Tidy b) (keyIds : List Json) :
    Tidy (runFrom consumeStep b keyIds) ∧ (runFrom consumeStep b keyIds).identity = b.identity ∧
      ∀ id, id ∈ Odict.keys (runFrom consumeStep b keyIds).oneTimePrekeys ↔
        id ∈ Odict.keys b.oneTimePrekeys ∧ ∀ keyId ∈ keyIds, keyId.asKey ≠ .ok (some id) := by
  induction keyIds generalizing b with
  | nil => exact ⟨hb, rfl, fun id => by simp [runFrom]⟩
  | cons keyId keyIds ih =>
      obtain ⟨hstep, hidentity, hkeys⟩ := hb.consume keyId
      obtain ⟨hrun, hidentity', hkeys'⟩ := ih hstep
      refine ⟨hrun, hidentity'.trans hidentity, fun id => ?_⟩
      rw [runFrom, hkeys', hkeys, and_assoc, List.forall_mem_cons]

/-- The private text reads back as the bundle, in which an id can be consumed
exactly if it is one of `ids`; the public text is written from what the bundle
has to show, reads back as that, lists the one-time prekeys in order, and has
no field for a private key. -/
structure Survives (h : HandshakeCrypto K P C) (identity : IdentityKeyPair) (ids : Int → Prop)
    (b : ClientPreKeyBundle) : Prop where
  stored : ∃ v, serializeBundlePrivate h b = .ok v ∧ deserializeBundlePrivate v identity = .ok b
  usable : ∀ id, (∃ opk b', ClientPreKeyBundle.consumeOneTimePrekey (.int id) b = .ok opk b') ↔
    ids id
  published : serializeBundlePublic h b = .ok (.dict (publishedDict (publicView h b))) ∧
    PeerBundle.fromDict (.dict (publishedDict (publicView h b))) = .ok (publicView h b)
  ordered : (publicView h b).opks.Pairwise (·.1 < ·.1)
  hidden : ∀ name ∈ privateFields, ¬ HasField name (.dict (publishedDict (publicView h b)))

theorem Tidy.survives (hb : Tidy b) {ids : Int → Prop}
    (hids : ∀ id, id ∈ Odict.keys b.oneTimePrekeys ↔ ids id) : Survives h b.identity ids b where
  stored := deserialize_private hb
  usable := by
    intro id
    rw [← hids]
    constructor
    · rintro ⟨opk, b', hok⟩
      obtain ⟨id', hid, hnew, hopk, -⟩ := consume_ok hok
      cases hid
      exact mem_keys_of_takes ⟨(rfl : (Json.int id).asKey = _), hnew, hopk⟩
    · intro hmem
      obtain ⟨opk, ht⟩ := hb.takes (show (Json.int id).asKey = _ from rfl) hmem
      exact ⟨opk, _, consume_takes ht⟩
  published := by
    obtain ⟨d, hd, hread⟩ := fromDict_public (h := h) hb.identityDh
    rw [serializeBundlePublic_eq hb] at hd
    cases hd
    rw [hb.published_eq] at hread
    exact ⟨serializeBundlePublic_eq hb, hread⟩
  ordered := by
    rw [publicView, List.pairwise_map]
    exact hb.sorted
  hidden := fun name hname => published_hides hname

/-- Every bundle that `generate_prekey_bundle` makes, after any calls of
`consume_one_time_prekey`, comes back from its file as it was, with exactly
the generated ids that no call named still usable, and from the relay as its
public half. -/
theorem bundle_survives {identityDhPrivate : Option Bytes} {spkId opkStartId opkCount : Int}
    {gen : GeneratedKeys} {backend : Option (PqBackend K)} (hgen : SizedKeys gen)
    (hsign : ∀ m, h.sign identity.privateKey m ≠ [])
    (hdh : ∀ k, identityDhPrivate = some k → k.length = 32)
    (hpq : ∀ pq, backend = some pq → ProperKem pq)
    (hok : generatePrekeyBundleWith h identity identityDhPrivate spkId opkStartId opkCount gen
      backend = .ok b) (keyIds : List Json) :
    Survives h identity (fun id => (opkStartId ≤ id ∧ id < opkStartId + opkCount) ∧
      ∀ keyId ∈ keyIds, keyId.asKey ≠ .ok (some id)) (runFrom consumeStep b keyIds) := by
  obtain ⟨hb, hidentity, -, hids⟩ := generated_tidy hgen hsign hdh hpq hok
  obtain ⟨hrun, hidentity', hkeys⟩ := hb.consumeAll keyIds
  have hgenerated : ∀ id, id ∈ Odict.keys b.oneTimePrekeys ↔
      opkStartId ≤ id ∧ id < opkStartId + opkCount := by
    intro id
    rw [Odict.keys, hids, List.mem_map]
    constructor
    · rintro ⟨i, hi, rfl⟩
      rw [List.mem_range] at hi
      omega
    · intro hid
      exact ⟨(id - opkStartId).toNat, List.mem_range.mpr (by omega), by omega⟩
  have hsurvives := hrun.survives (h := h) fun id => (hkeys id).trans (and_congr_left' (hgenerated id))
  rwa [hidentity', hidentity] at hsurvives

/-! ## A concrete owner -/

def symIdentity : IdentityKeyPair := ⟨symPublicKey 1, symPublicKey 1⟩

def symGenerated : GeneratedKeys where
  identityDh := symPublicKey 2
  spk := symPublicKey 3
  opk i := symPublicKey (10 + i)

theorem symGenerated_sized : SizedKeys symGenerated := ⟨rfl, rfl, fun _ => rfl⟩

theorem symIdentity_signs (m : Bytes) : symHandshake.sign symIdentity.privateKey m ≠ [] :=
  List.append_ne_nil_of_left_ne_nil (ne_nil_of_sized rfl) m

theorem symKem_proper : ProperKem symKem where
  keys := by
    rintro pub sk ⟨⟩
    exact ⟨List.cons_ne_nil _ _, List.cons_ne_nil _ _⟩
  suite := by decide

/-- Three prekeys from id 5 on, and a call for the second one. -/
theorem bundle_survives_hybrid :
    ∃ b, generatePrekeyBundleWith symHandshake symIdentity none 1 5 3 symGenerated (some symKem)
        = .ok b ∧
      Survives symHandshake symIdentity (fun id => ((5 : Int) ≤ id ∧ id < 5 + 3) ∧
        ∀ keyId ∈ [Json.int 6], keyId.asKey ≠ .ok (some id)) (runFrom consumeStep b [.int 6]) := by
  have hgenerated : ∃ b, generatePrekeyBundleWith symHandshake symIdentity none 1 5 3 symGenerated
      (some symKem) = .ok b := ⟨_, rfl⟩
  obtain ⟨b, hb⟩ := hgenerated
  refine ⟨b, hb, bundle_survives symGenerated_sized symIdentity_signs ?_ ?_ hb [.int 6]⟩
  · rintro k ⟨⟩
  · rintro pq ⟨⟩
    exact symKem_proper

end GhostChat.Proofs
