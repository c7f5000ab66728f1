import GhostChat.Proofs.Receivers

/-!
# A forged group message and the genuine one

`decrypt` marks a message in the replay cache and then looks whether it
authenticates. What has been refused before that leaves nothing behind. What
is refused after it leaves its leaf and counter, and those are not
authenticated: whoever is on the way can write them, and the member's own
message with that counter is a duplicate from then on.
-/

namespace GhostChat.Proofs

open GhostChat.Lib GhostChat.Lib.Effect GhostChat.Ref

variable {K P C : Type} {c : Crypto K P C} {st : GroupState K} {message : GroupMessage C}
  {ad : Bytes} {m : GroupMessenger}

/-! ## What authenticates -/

/-- There is an application key that the cipher takes, the header can be
encoded, and the tag is right. -/
def TagOk (c : Crypto K P C) (st : GroupState K) (message : GroupMessage C) (ad : Bytes) :
    Prop :=
  ∃ appKey nonce adBytes plaintext, st.applicationKey = some appKey ∧
    groupNonce (c.bytes appKey) message.header.counter.toNat = .ok nonce ∧
    (c.bytes appKey).length = 32 ∧ groupAad message.header ad = .ok adBytes ∧
    c.decrypt appKey nonce message.ciphertext adBytes = some plaintext

theorem groupCipher_ok {key : K} (h : groupCipher c key = .ok ()) : (c.bytes key).length = 32 := by
  rw [groupCipher] at h
  split at h
  · cases h
  · next hlen => exact not_not.mp hlen

theorem tagOk_iff : TagOk c st message ad ↔ ∃ pt, openMessage c st message ad = .ok pt := by
  constructor
  · rintro ⟨appKey, nonce, adBytes, plaintext, hkey, hnonce, hlen, haad, hdec⟩
    have hcipher : groupCipher c appKey = .ok () := if_neg (not_not.mpr hlen)
    refine ⟨plaintext, ?_⟩
    simp only [openMessage, hkey, hnonce, hcipher, haad, except_ok_bind, hdec]
  · rintro ⟨pt, h⟩
    rw [openMessage] at h
    cases hkey : st.applicationKey with
    | none => rw [hkey] at h; cases h
    | some appKey =>
        rw [hkey] at h
        obtain ⟨nonce, hnonce, h⟩ := except_bind_ok h
        obtain ⟨u, hcipher, h⟩ := except_bind_ok h
        obtain ⟨adBytes, haad, h⟩ := except_bind_ok h
        cases hdec : c.decrypt appKey nonce message.ciphertext adBytes with
        | none => rw [hdec] at h; cases h
        | some plaintext =>
            exact ⟨appKey, nonce, adBytes, plaintext, hkey, hnonce, groupCipher_ok hcipher, haad,
              hdec⟩

/-! ## What is left behind -/

/-- What is decrypted later, returned or raised. -/
def readAll (c : Crypto K P C) (st : GroupState K) (m : GroupMessenger)
    (later : List (GroupMessage C × Bytes)) : GroupMessenger :=
  later.foldl (fun m r => after (GroupMessenger.decrypt c st r.1 r.2 m)) m

/-- If the call raises, the replay cache is as it was, and whatever else comes
in between, a message with the header of this one is read or refused as if
this one had not been there. -/
def NoTrace (c : Crypto K P C) (st : GroupState K) (message : GroupMessage C) (ad : Bytes)
    (m : GroupMessenger) : Prop :=
  ∀ e m', GroupMessenger.decrypt c st message ad m = .error e m' →
    m'.replayCache = m.replayCache ∧
    ∀ (genuine : GroupMessage C) (ad' : Bytes) (later : List (GroupMessage C × Bytes)),
      genuine.header = message.header →
      value? (GroupMessenger.decrypt c st genuine ad' (readAll c st m' later)) =
        value? (GroupMessenger.decrypt c st genuine ad' (readAll c st m later))

theorem noTrace_of_same
    (h : ∀ e m', GroupMessenger.decrypt c st message ad m = .error e m' → m' = m) :
    NoTrace c st message ad m := by
  intro e m' hdec
  rw [h e m' hdec]
  exact ⟨rfl, fun _ _ _ _ => rfl⟩

/-- Over every messenger and every message: a refused message leaves nothing
behind, exactly if it is not one that the checks in front of the cache let
through and the cache takes, and that then does not authenticate. -/
theorem invalid_leaves_nothing_iff :
    NoTrace c st message ad m ↔
      (Current st message.header → Admits m.replayCache (cacheKey message.header) →
        TagOk c st message ad) := by
  rcases decrypt_cases c st message ad m with
    ⟨hnot, e, hdec⟩ | ⟨-, hnot, e, hdec⟩ | ⟨hcurrent, hadmits, hdec⟩
  · refine iff_of_true (noTrace_of_same fun e' m' h => ?_) fun h => absurd h hnot
    rw [hdec] at h
    cases h
    rfl
  · refine iff_of_true (noTrace_of_same fun e' m' h => ?_) fun _ h => absurd h hnot
    rw [hdec] at h
    cases h
    rfl
  · rw [tagOk_iff]
    cases hopen : openMessage c st message ad with
    | ok pt =>
        refine iff_of_true (noTrace_of_same fun e' m' h => ?_) fun _ _ => ⟨pt, rfl⟩
        rw [hdec, hopen] at h
        cases h
    | error e =>
        rw [hopen] at hdec
        refine iff_of_false (fun h => ?_) fun h => ?_
        · have hseen := congrArg ReplayCache.seen (h e _ hdec).1
          exact List.cons_ne_self _ _ hseen
        · obtain ⟨pt, hpt⟩ := h hcurrent hadmits
          cases hpt

/-! ## A concrete receiver -/

/-- The letter of member 1 with something else for a ciphertext. -/
def sampleForgery : GroupMessage Bytes :=
  { sampleGroupLetter with ciphertext := List.replicate 20 0 }

/-- The forgery raises, and then the letter does, which a receiver that had
not seen the forgery reads. -/
theorem forgery_refuses_genuine :
    (∃ m', GroupMessenger.decrypt sampleCrypto sampleRoom sampleForgery []
        { senderLeafIndex := 0 } = .error .invalidTag m') ∧
      sampleForgery.header = sampleGroupLetter.header ∧
      value? (GroupMessenger.decrypt sampleCrypto sampleRoom sampleGroupLetter []
        { senderLeafIndex := 0 }) = some [104] ∧
      value? (GroupMessenger.decrypt sampleCrypto sampleRoom sampleGroupLetter []
        (after (GroupMessenger.decrypt sampleCrypto sampleRoom sampleForgery []
          { senderLeafIndex := 0 }))) = none ∧
      ¬ NoTrace sampleCrypto sampleRoom sampleForgery [] { senderLeafIndex := 0 } := by
  have hcurrent : Current sampleRoom sampleForgery.header := by decide +kernel
  have hopen : openMessage sampleCrypto sampleRoom sampleForgery [] = .error .invalidTag := by
    decide +kernel
  have hraise : GroupMessenger.decrypt sampleCrypto sampleRoom sampleForgery []
      { senderLeafIndex := 0 } = .error .invalidTag
        { senderLeafIndex := 0, replayCache := { seen := [(1, 0)] } } := by
    rcases decrypt_cases sampleCrypto sampleRoom sampleForgery [] { senderLeafIndex := 0 } with
      ⟨hnot, -⟩ | ⟨-, hnot, -⟩ | ⟨-, -, hdec⟩
    · exact absurd hcurrent hnot
    · exact absurd (by decide) hnot
    · rw [hdec, hopen]
      rfl
  refine ⟨⟨_, hraise⟩, rfl, by decide +kernel, by decide +kernel, fun h => ?_⟩
  have hseen := congrArg ReplayCache.seen (h _ _ hraise).1
  cases hseen

end GhostChat.Proofs
