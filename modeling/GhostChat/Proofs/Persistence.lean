import GhostChat.Proofs.Bounded
import GhostChat.Proofs.Crash
import GhostChat.Ref.SessionFiles

/-!
# A session survives its file

Reading is strict: every key has to be 32 bytes, every id 36, and the stores
must not be too long. So what has to be known of a state that an engine can get
into is that it is within all of these bounds, and that no id stands twice in a
store, for a second one would be merged or dropped when the store is filled
again. Everything else is that what was encoded is decoded, in order.
-/

namespace GhostChat.Proofs

open GhostChat.Lib GhostChat.Lib.Effect GhostChat.Ref

/-! ## The stores are read back -/

theorem decodeId_encodeId {dh : Bytes} {n : Nat} (hdh : dh.length = 32) (hn : n < 2 ^ 32)
    (tooShort : String) : decodeId (encodeId dh n) tooShort = .ok (dh, n) := by
  have hlen : ¬ (dh ++ uint32be (n : Int)).length ≠ 36 := by
    rw [List.length_append, hdh, uint32be_length]
    decide
  simp only [decodeId, encodeId, b64Decode_b64Encode, except_ok_bind, if_neg hlen]
  rw [List.take_left' hdh, List.drop_left' hdh, fromBytesBig_uint32be hn]
  rfl

/-- An id of the right size is what its encoding stands for. -/
theorem encodeId_inj {dh dh' : Bytes} {n n' : Nat} (hdh : dh.length = 32) (hn : n < 2 ^ 32)
    (hdh' : dh'.length = 32) (hn' : n' < 2 ^ 32) (h : encodeId dh n = encodeId dh' n') :
    (dh, n) = (dh', n') := by
  have hdec := decodeId_encodeId hdh hn ""
  rw [h, decodeId_encodeId hdh' hn'] at hdec
  exact (Except.ok.inj hdec).symm

/-- The entries of a store of skipped keys as they are written. -/
def writtenEntries (store : Odict (Bytes × Nat) Bytes) : List (String × Json) :=
  store.map fun e => (encodeId e.1.1 e.1.2, .str (b64Encode e.2))

/-- Every entry has the lengths that are checked, and no id stands twice. -/
structure SkippedStorable (store : Odict (Bytes × Nat) Bytes) : Prop where
  sized : ∀ e ∈ store, e.1.1.length = 32 ∧ e.1.2 < 2 ^ 32 ∧ e.2.length = 32
  nodup : (Odict.keys store).Nodup

theorem SkippedStorable.toDict {sk : SkippedMessageKeys Bytes} (h : SkippedStorable sk.store) :
    sk.toDict = .dict (writtenEntries sk.store) := by
  rw [SkippedMessageKeys.toDict, Odict.foldl_set, List.nil_append, writtenEntries]
  have hkeys : sk.store.map (fun e => encodeId e.1.1 e.1.2)
      = (Odict.keys sk.store).map fun id => encodeId id.1 id.2 := by
    rw [Odict.keys, List.map_map]
    rfl
  rw [Odict.keys, List.map_nil, List.nil_append, hkeys]
  refine List.Nodup.map_on ?_ h.nodup
  intro id hid id' hid' heq
  obtain ⟨e, he, rfl⟩ := List.mem_map.mp hid
  obtain ⟨e', he', rfl⟩ := List.mem_map.mp hid'
  exact encodeId_inj (h.sized e he).1 (h.sized e he).2.1 (h.sized e' he').1
    (h.sized e' he').2.1 heq

theorem skippedEntry_encoded {store : Odict (Bytes × Nat) Bytes} {e : (Bytes × Nat) × Bytes}
    (h : e.1.1.length = 32 ∧ e.1.2 < 2 ^ 32 ∧ e.2.length = 32) :
    skippedEntry store (encodeId e.1.1 e.1.2, .str (b64Encode e.2))
      = .ok (Odict.set store e.1 e.2) := by
  obtain ⟨hdh, hn, hkey⟩ := h
  have hlen : ¬ e.2.length ≠ 32 := not_not.mpr hkey
  simp only [skippedEntry, decodeId_encodeId hdh hn, b64Decode_b64Encode, except_ok_bind,
    if_neg hlen]
  rfl

theorem writtenEntries_read (store acc : Odict (Bytes × Nat) Bytes)
    (hsized : ∀ e ∈ store, e.1.1.length = 32 ∧ e.1.2 < 2 ^ 32 ∧ e.2.length = 32) :
    (writtenEntries store).foldlM skippedEntry acc
      = .ok (store.foldl (fun d e => Odict.set d e.1 e.2) acc) := by
  induction store generalizing acc with
  | nil => rfl
  | cons e store ih =>
      rw [writtenEntries, List.map_cons, List.foldlM_cons,
        skippedEntry_encoded (hsized e List.mem_cons_self), except_ok_bind, List.foldl_cons]
      exact ih _ fun e' he' => hsized e' (List.mem_cons_of_mem e he')

theorem SkippedStorable.read {sk : SkippedMessageKeys Bytes} {cap : Nat}
    (h : SkippedStorable sk.store) (hcap : sk.maxKeys = cap) (hlen : sk.store.length ≤ cap) :
    SkippedMessageKeys.fromDict (writtenEntries sk.store) cap = .ok sk := by
  have hfill : sk.store.foldl (fun d e => Odict.set d e.1 e.2) [] = sk.store := by
    rw [Odict.foldl_set]
    · simp
    · exact h.nodup
  have hfits : ¬ sk.store.length > cap := Nat.not_lt.mpr hlen
  simp only [SkippedMessageKeys.fromDict, writtenEntries_read _ _ h.sized, hfill, except_ok_bind,
    if_neg hfits]
  rw [← hcap]
  rfl

/-- The ids are filed one after another: none of them is there already, and no
old one has to make room. -/
theorem received_addAll (ids : List (Bytes × Nat)) (r : ReceivedIdsStore)
    (hsized : ∀ id ∈ ids, id.1.length = 32 ∧ id.2 < 2 ^ 32)
    (hnodup : (r.order ++ ids).Nodup) (hroom : r.order.length + ids.length ≤ r.maxSize) :
    ReceivedIdsStore.addAll (ids.map fun id => .str (encodeId id.1 id.2)) r
      = .ok () { r with order := r.order ++ ids } := by
  induction ids generalizing r with
  | nil => simp [ReceivedIdsStore.addAll]
  | cons id ids ih =>
      obtain ⟨hdh, hn⟩ := hsized id List.mem_cons_self
      have hnew : r.contains id.1 id.2 = false := by
        rw [ReceivedIdsStore.contains, decide_eq_false_iff_not]
        intro hold
        rw [List.nodup_append] at hnodup
        exact hnodup.2.2 _ hold _ List.mem_cons_self rfl
      rw [List.length_cons] at hroom
      have hev : evictTo r.maxSize r.order = (r.order, false) := evictTo_of_lt (by omega)
      have hadd : ReceivedIdsStore.add id.1 id.2 r
          = .ok () { r with order := r.order ++ [id] } := by
        have hrange : ¬ id.2 > 0xFFFFFFFF := by omega
        simp [ReceivedIdsStore.add, hrange, hnew, hev]
      simp only [List.map_cons, ReceivedIdsStore.addAll, decodeId_encodeId hdh hn, bind_apply,
        lift_ok, get_apply, hnew, Bool.not_false, if_true, hadd]
      rw [ih]
      · simp
      · exact fun id' hid' => hsized id' (List.mem_cons_of_mem id hid')
      · simpa using hnodup
      · simp only [List.length_append, List.length_singleton]
        omega

theorem received_read {r : ReceivedIdsStore} (h : ReceivedBounded r) (hnodup : r.order.Nodup) :
    ReceivedIdsStore.fromDict r.toDict = .ok r := by
  have hread := received_addAll r.order {} h.checked (by simpa using hnodup)
    (by simpa using h.length_le)
  have hroom := h.room
  simp only [ReceivedIdsStore.fromDict, ReceivedIdsStore.toDict, Json.get, Odict.get?,
    List.find?_cons, decide_true, Option.map_some, Option.getD_some, hread, List.nil_append]
  rw [← hroom]

/-! ## What an engine gets into -/

variable {c : Crypto Bytes Bytes Bytes} {s s₀ : SessionState}

/-- What reading asks of a state, apart from the bounds of its stores. -/
structure FileFit (s : SessionState) : Prop where
  root : s.rootKey.length = 32
  sending : ∀ b, s.sendingChainKey = some b → b.length = 32
  receiving : ∀ b, s.receivingChainKey = some b → b.length = 32
  private_ : ∀ b, s.dhsPrivate = some b → b.length = 32
  remote : ∀ b, s.dhr = some b → b.length = 32
  skipped : (Odict.keys s.skippedMessageKeys.store).Nodup
  received : s.receivedIds.order.Nodup
  version : 1 ≤ s.sessionVersion

theorem skipped_add_nodup (a : KeyAlg Bytes) (dh : Bytes) (n : Nat) (key : Bytes) :
    Keeps (fun sk : SkippedMessageKeys Bytes => (Odict.keys sk.store).Nodup)
      (SkippedMessageKeys.add a dh n key) := by
  intro sk h
  rcases skipped_add_any (a := a) dh n key sk with ⟨e, store, hadd, hsub⟩ | ⟨-, -, -, -, hadd⟩
  · rw [hadd]
    exact h.sublist (hsub.map _)
  · rw [hadd]
    exact Odict.set_keys_nodup (h.sublist ((evictTo_sublist _ _).map _)) _ _

theorem skipped_pop_nodup (dh : Bytes) (n : Nat) :
    Keeps (fun sk : SkippedMessageKeys Bytes => (Odict.keys sk.store).Nodup)
      (SkippedMessageKeys.pop dh n) := by
  intro sk h
  cases hget : Odict.get? sk.store (dh, n) with
  | none => simp [SkippedMessageKeys.pop, hget]; exact h
  | some mk =>
      rw [skipped_pop_of_get hget]
      exact h.sublist (List.filter_sublist.map _)

theorem received_add_nodup (dh : Bytes) (n : Nat) :
    Keeps (fun r : ReceivedIdsStore => r.order.Nodup) (ReceivedIdsStore.add dh n) := by
  intro r h
  rcases received_add_cases dh n r with
    ⟨e, order, hadd, hsub, -⟩ | ⟨-, -, hadd⟩ | ⟨-, hnew, -, hadd⟩
  · rw [hadd]
    exact h.sublist hsub
  · rw [hadd]
    exact h
  · rw [hadd]
    have hsub := evictTo_sublist r.maxSize r.order
    refine List.nodup_append.mpr ⟨h.sublist hsub, List.nodup_singleton _, ?_⟩
    rintro id hid id' hid' rfl
    rw [List.mem_singleton.mp hid'] at hid
    exact hnew (hsub.subset hid)

theorem FileFit.onSkipped {α : Type} {x : EStateM Exn (SkippedMessageKeys Bytes) α}
    (hx : Keeps (fun sk : SkippedMessageKeys Bytes => (Odict.keys sk.store).Nodup) x) :
    Keeps FileFit (Ref.onSkipped x : Engine Bytes Bytes α) := by
  intro s h
  have hx := hx s.skippedMessageKeys h.skipped
  simp only [Ref.onSkipped, zoom]
  cases hr : x s.skippedMessageKeys <;>
    · rw [hr] at hx
      exact { h with skipped := hx }

theorem FileFit.onReceived {α : Type} {x : EStateM Exn ReceivedIdsStore α}
    (hx : Keeps (fun r : ReceivedIdsStore => r.order.Nodup) x) :
    Keeps FileFit (Ref.onReceived x : Engine Bytes Bytes α) := by
  intro s h
  have hx := hx s.receivedIds h.received
  simp only [Ref.onReceived, zoom]
  cases hr : x s.receivedIds <;>
    · rw [hr] at hx
      exact { h with received := hx }

/-- Every key the engine assigns comes out of HKDF, is the remote key of a
checked header, or was generated. -/
theorem fileFit_stable (hlen : ∀ i sa f b, (c.hkdf i sa f b).length = 32) :
    Stable c (fun g : Bytes => g.length = 32) FileFit where
  sending _ _ h := { h with sending := by rintro b ⟨rfl⟩; exact hlen .. }
  sent _ h := { h with }
  opened _ _ h := { h with root := hlen .., sending := by rintro b ⟨rfl⟩; exact hlen .. }
  receiving _ _ h := { h with receiving := by rintro b ⟨rfl⟩; exact hlen .. }
  counted _ h := { h with }
  remote _ dh hdh h := { h with remote := by rintro b ⟨rfl⟩; exact hdh }
  first _ h := { h with receiving := by rintro b ⟨rfl⟩; exact hlen .. }
  reset _ h := { h with }
  rooted _ _ h := { h with root := hlen .., receiving := by rintro b ⟨rfl⟩; exact hlen .. }
  renewed _ g hg h := { h with
    private_ := by rintro b ⟨rfl⟩; exact hg
    sending := nofun }
  file dh n ck := FileFit.onSkipped (skipped_add_nodup _ dh n _)
  pop dh n := FileFit.onSkipped (skipped_pop_nodup dh n)
  receive dh n _ := FileFit.onReceived (received_add_nodup dh n)

theorem FileFit.start (hbytes : ∀ k, c.bytes k = k)
    (hlen : ∀ i sa f b, (c.hkdf i sa f b).length = 32) {rk g : Bytes} {isInitiator : Bool}
    {dhr : Option Bytes} {cap : Nat} (hg : g.length = 32)
    (h : createInitialState c rk isInitiator dhr cap g = .ok s) : FileFit s := by
  have hfirst : ∀ {ck : Bytes}, ck.length = 32 → ∀ b : Bytes, ∀ flag : Bool,
      (if flag then some ck else none) = some b → b.length = 32 := by
    intro ck hck b flag hb
    cases flag with
    | true => cases hb; exact hck
    | false => cases hb
  have hsecond : ∀ {ck : Bytes}, ck.length = 32 → ∀ b : Bytes, ∀ flag : Bool,
      (if flag then none else some ck) = some b → b.length = 32 := by
    intro ck hck b flag hb
    cases flag with
    | true => cases hb
    | false => cases hb; exact hck
  have hprivate : ∀ b, some g = some b → b.length = 32 := by
    rintro b ⟨rfl⟩
    exact hg
  unfold createInitialState at h
  split at h
  · cases h
  · next hrk =>
      rw [hbytes, not_not] at hrk
      split at h
      · next peer =>
          obtain ⟨shared, hshared, h⟩ := except_bind_ok h
          cases h
          have hpeer : peer.length = 32 := by
            by_contra hne
            simp [dhWith, dhPubLen, hne] at hshared
          exact ⟨hlen .., fun b => hfirst (hlen ..) b _, fun b => hsecond (hlen ..) b _, hprivate,
            by rintro b ⟨rfl⟩; exact hpeer, .nil, .nil, le_refl _⟩
      · cases h
        exact ⟨hrk, fun b => hfirst (hlen ..) b _, fun b => hsecond (hlen ..) b _, hprivate,
          by simp, .nil, .nil, le_refl _⟩

/-! ## Saving and loading -/

theorem FileFit.storable (hbytes : ∀ k, c.bytes k = k) {cap : Nat} (h : FileFit s)
    (hbounded : Bounded c.toKeyAlg cap s) : SkippedStorable s.skippedMessageKeys.store := by
  refine ⟨fun e he => ?_, h.skipped⟩
  obtain ⟨hdh, hn, hkey⟩ := hbounded.skipped.checked e he
  rw [hbytes] at hkey
  exact ⟨hdh, hn, hkey⟩

/-- A state within all of the bounds is read back as it is. -/
theorem FileFit.read (hbytes : ∀ k, c.bytes k = k) {cap : Nat} (h : FileFit s)
    (hbounded : Bounded c.toKeyAlg cap s) : stateFromDict cap (stateToDict s) = .ok s := by
  have hsk := h.storable hbytes hbounded
  exact stateFromDict_stored h.root h.sending h.receiving h.private_ h.remote
    ⟨_, hsk.toDict, hsk.read hbounded.skipped.room hbounded.skipped.length_le⟩
    (received_read hbounded.received h.received) h.version

/-- The keys that are generated have 32 bytes. -/
def FreshKey : SessionCall → Prop
  | .engine (.decrypt _ g) => g.length = 32
  | .engine (.encrypt _) | .save _ _ => True

instance FreshKey.decidable : (call : SessionCall) → Decidable (FreshKey call)
  | .engine (.decrypt _ g) => inferInstanceAs (Decidable (g.length = 32))
  | .engine (.encrypt _) | .save _ _ => isTrue trivial

theorem SessionCall.step_fit (hlen : ∀ i sa f b, (c.hkdf i sa f b).length = 32) {cap : Nat}
    {call : SessionCall} (hfresh : FreshKey call) (h : FileFit s ∧ Bounded c.toKeyAlg cap s) :
    FileFit (call.step c s) ∧ Bounded c.toKeyAlg cap (call.step c s) := by
  cases call with
  | engine call =>
      refine ⟨?_, h.2.step call⟩
      cases call with
      | encrypt pt =>
          rw [SessionCall.step, EngineCall.step, ratchetEncrypt_after]
          exact (fileFit_stable hlen).encrypt pt s h.1
      | decrypt msg g =>
          rw [SessionCall.step, EngineCall.step, ratchetDecrypt_after]
          exact (fileFit_stable hlen).decrypt hfresh s h.1
  | save io file =>
      rw [SessionCall.step]
      rcases saveSession_state io s file with heq | heq <;> rw [heq]
      · exact h
      · exact ⟨{ h.1 with version := Nat.le_add_left 1 _ }, { h.2 with }⟩

/-- Every state a session gets into fits its file. -/
theorem reached_fit (hbytes : ∀ k, c.bytes k = k)
    (hlen : ∀ i sa f b, (c.hkdf i sa f b).length = 32) {rk g : Bytes} {isInitiator : Bool}
    {dhr : Option Bytes} {cap : Nat} (hg : g.length = 32)
    (h₀ : createInitialState c rk isInitiator dhr cap g = .ok s₀) {calls : List SessionCall}
    (hcalls : ∀ call ∈ calls, FreshKey call) (hs : runFrom (SessionCall.step c) s₀ calls = s) :
    FileFit s ∧ Bounded c.toKeyAlg cap s := by
  rw [← hs]
  exact Along.invariant (I := fun s => FileFit s ∧ Bounded c.toKeyAlg cap s)
    (fun s call h hfresh => SessionCall.step_fit hlen hfresh h)
    ⟨FileFit.start hbytes hlen hg h₀, Bounded.start h₀⟩ (Along.of_forall hcalls)

/-- In every state that a session gets into, with calls on the engine that
return or raise and with saves, the state is read back from its dict as it is,
and so it goes on as the original would: whatever is called next returns,
raises and leaves the same. -/
theorem persistence_transparent (hbytes : ∀ k, c.bytes k = k)
    (hlen : ∀ i sa f b, (c.hkdf i sa f b).length = 32) {rk g : Bytes} {isInitiator : Bool}
    {dhr : Option Bytes} (hg : g.length = 32)
    (h₀ : createInitialState c rk isInitiator dhr 1000 g = .ok s₀) {calls : List SessionCall}
    (hcalls : ∀ call ∈ calls, FreshKey call) (hs : runFrom (SessionCall.step c) s₀ calls = s) :
    stateFromDict 1000 (stateToDict s) = .ok s ∧
      ∀ restored, stateFromDict 1000 (stateToDict s) = .ok restored →
        ∀ later, outcomes c restored later = outcomes c s later := by
  have hfit := reached_fit hbytes hlen hg h₀ hcalls hs
  have hread := hfit.1.read hbytes hfit.2
  refine ⟨hread, fun restored hrestored later => ?_⟩
  obtain rfl : s = restored := Except.ok.inj (hread.symm.trans hrestored)
  rfl

/-- The responder gets the second message first, is saved, and then gets a
message nobody sent. -/
def outOfOrder : List SessionCall :=
  let first := after (ratchetEncrypt sampleCrypto [65] (sampleState true))
  match ratchetEncrypt sampleCrypto [66] first with
  | .ok second _ => [
      .engine (.decrypt second (mix [4])),
      .save .ok .missing,
      .engine (.decrypt { second with ciphertext := [] } (mix [5]))]
  | .error _ _ => []

theorem persistence_transparent_outOfOrder :
    let s := runFrom (SessionCall.step sampleCrypto) (sampleState false) outOfOrder
    (s.skippedMessageKeys.store.length = 1 ∧ s.receivedIds.order.length = 1 ∧
        s.sessionVersion = 2) ∧
      stateFromDict 1000 (stateToDict s) = .ok s ∧
        ∀ restored, stateFromDict 1000 (stateToDict s) = .ok restored →
          ∀ later, outcomes sampleCrypto restored later = outcomes sampleCrypto s later :=
  ⟨by decide +kernel, persistence_transparent (fun _ => rfl) (fun _ _ _ _ => mix_length _)
    (mix_length _) (sampleState_created false) (by decide +kernel) rfl⟩

end GhostChat.Proofs
