import GhostChat.Proofs.Agreement
import GhostChat.Proofs.GroupNonces
import GhostChat.Ref.GroupRoom

/-!
# Reading a group message

`decrypt` asks in this order: is the header one of this state, does the replay
cache take the message, does the ciphertext open. The cache is written when it
is asked, so it is written for whatever has a header of the state. What a
messenger of the group encrypts, any receiver of the same state reads, if its
cache takes it.
-/

namespace GhostChat.Proofs

open GhostChat.Lib GhostChat.Lib.Effect GhostChat.Ref

variable {K P C : Type} {c : Crypto K P C} {st : GroupState K} {message : GroupMessage C}
  {ad : Bytes}

/-! ## What `decrypt` does -/

/-- What the cache marks of a message. -/
def cacheKey (header : GroupMessageHeader) : Int × Int := (header.senderLeafIndex, header.counter)

/-- A key the cache has room for and does not have. -/
def Admits (r : ReplayCache) (key : Int × Int) : Prop :=
  key ∉ r.seen ∧ r.seen.length < r.maxEntries

instance Admits.decidable (r : ReplayCache) (key : Int × Int) : Decidable (Admits r key) :=
  inferInstanceAs (Decidable (_ ∧ _))

/-- The part of `decrypt` below the replay cache. -/
def openMessage (c : Crypto K P C) (st : GroupState K) (message : GroupMessage C) (ad : Bytes) :
    Except Exn Bytes :=
  match st.applicationKey with
  | none => .error (.valueError "Missing application key")
  | some appKey => do
      let nonce ← groupNonce (c.bytes appKey) message.header.counter.toNat
      groupCipher c appKey
      let adBytes ← groupAad message.header ad
      match c.decrypt appKey nonce message.ciphertext adBytes with
      | none => .error .invalidTag
      | some plaintext => .ok plaintext

theorem checkAndMark_admits {r : ReplayCache} {leaf counter : Int}
    (h : Admits r (leaf, counter)) :
    r.checkAndMark leaf counter = (true, { r with seen := (leaf, counter) :: r.seen }) := by
  rw [ReplayCache.checkAndMark, if_neg h.1, if_neg (by have := h.2; omega)]

theorem checkAndMark_refuses {r : ReplayCache} {leaf counter : Int}
    (h : ¬ Admits r (leaf, counter)) : r.checkAndMark leaf counter = (false, r) := by
  rw [ReplayCache.checkAndMark]
  split
  · rfl
  · next hnew =>
      have hfull : ¬ r.seen.length < r.maxEntries := fun hroom => h ⟨hnew, hroom⟩
      rw [if_pos (by omega)]

/-- The four ways `decrypt` goes: the header is not the state's, the cache
refuses, the ciphertext does not open, or it does. -/
theorem decrypt_cases (c : Crypto K P C) (st : GroupState K) (message : GroupMessage C)
    (ad : Bytes) (m : GroupMessenger) :
    (¬ Current st message.header ∧ ∃ e, GroupMessenger.decrypt c st message ad m = .error e m) ∨
    (Current st message.header ∧ ¬ Admits m.replayCache (cacheKey message.header) ∧
      ∃ e, GroupMessenger.decrypt c st message ad m = .error e m) ∨
    (Current st message.header ∧ Admits m.replayCache (cacheKey message.header) ∧
      GroupMessenger.decrypt c st message ad m = lift (openMessage c st message ad)
        { m with replayCache := { m.replayCache with
          seen := cacheKey message.header :: m.replayCache.seen } }) := by
  rw [GroupMessenger.decrypt]
  by_cases hgid : message.header.groupId = st.groupId
  swap
  · exact Or.inl ⟨fun h => hgid h.1, .valueError "Group ID mismatch", by simp [hgid]⟩
  by_cases hepoch : message.header.epoch = st.epoch
  swap
  · exact Or.inl ⟨fun h => hepoch h.2.1, .epochMismatch "Stale or future epoch",
      by simp [hgid, hepoch]⟩
  by_cases hleaf : (st.members.any fun e =>
      (e.2.leafIndex : Int) = message.header.senderLeafIndex) = true
  swap
  · exact Or.inl ⟨fun h => hleaf h.2.2, .membership "Unknown sender leaf index",
      by simp [hgid, hepoch, hleaf]⟩
  have hcurrent : Current st message.header :=
    ⟨hgid, hepoch, hleaf⟩
  simp only [hgid, hepoch, hleaf, ne_eq, not_true_eq_false, if_false, bind_apply, get_apply,
    modify_apply]
  by_cases hadmits : Admits m.replayCache (cacheKey message.header)
  · refine Or.inr (Or.inr ⟨hcurrent, hadmits, ?_⟩)
    simp only [checkAndMark_admits hadmits, not_true_eq_false, if_false, openMessage]
    cases st.applicationKey with
    | none => rfl
    | some appKey =>
        dsimp only
        cases groupNonce (c.bytes appKey) message.header.counter.toNat with
        | error e => rfl
        | ok nonce =>
            cases groupCipher c appKey with
            | error e => rfl
            | ok u =>
                cases groupAad message.header ad with
                | error e => rfl
                | ok adBytes =>
                    simp only [bind_apply, lift_ok, except_ok_bind]
                    cases c.decrypt appKey nonce message.ciphertext adBytes <;> rfl
  · refine Or.inr (Or.inl ⟨hcurrent, hadmits,
      .replayedGroupMessage "Duplicate group message counter", ?_⟩)
    simp only [checkAndMark_refuses hadmits]
    rfl

/-- A message that the state can read is read by a receiver that does not know
it. -/
theorem decrypt_ok_iff {m : GroupMessenger} {plaintext : Bytes} :
    value? (GroupMessenger.decrypt c st message ad m) = some plaintext ↔
      Current st message.header ∧ Admits m.replayCache (cacheKey message.header) ∧
        openMessage c st message ad = .ok plaintext := by
  rcases decrypt_cases c st message ad m with
    ⟨hnot, e, hdec⟩ | ⟨-, hnot, e, hdec⟩ | ⟨hcurrent, hadmits, hdec⟩
  · simp [hdec, hnot]
  · simp [hdec, hnot]
  · rw [hdec]
    cases openMessage c st message ad with
    | error e => simp
    | ok pt => simp [hcurrent, hadmits]

/-- The cache after a call that went as far as to ask it. -/
theorem decrypt_after (c : Crypto K P C) (st : GroupState K) (message : GroupMessage C)
    (ad : Bytes) (m : GroupMessenger) :
    (after (GroupMessenger.decrypt c st message ad m)).replayCache =
      if Current st message.header ∧ Admits m.replayCache (cacheKey message.header) then
        { m.replayCache with seen := cacheKey message.header :: m.replayCache.seen }
      else m.replayCache := by
  rcases decrypt_cases c st message ad m with
    ⟨hnot, e, hdec⟩ | ⟨-, hnot, e, hdec⟩ | ⟨hcurrent, hadmits, hdec⟩
  · rw [hdec, if_neg fun h => hnot h.1]
    rfl
  · rw [hdec, if_neg fun h => hnot h.2]
    rfl
  · rw [hdec, if_pos ⟨hcurrent, hadmits⟩]
    cases openMessage c st message ad <;> rfl

/-! ## What was encrypted opens -/

/-- What opens depends on the key of the state and on nothing else of it. -/
theorem openMessage_congr {st' : GroupState K} (h : st'.applicationKey = st.applicationKey)
    (message : GroupMessage C) (ad : Bytes) :
    openMessage c st' message ad = openMessage c st message ad := by
  rw [openMessage, openMessage, h]

theorem encrypt_ok {plaintext : Bytes} {m m' : GroupMessenger} (hinv : AeadInverse c)
    (h : GroupMessenger.encrypt c st plaintext ad m = .ok message m') :
    message.header = ⟨st.groupId, st.epoch, m.senderLeafIndex, m.counter⟩ ∧
      m' = { m with counter := m.counter + 1 } ∧
      openMessage c st message ad = .ok plaintext := by
  obtain ⟨r, hkeyed, rfl⟩ := map_ok h
  rw [GroupMessenger.encryptKeyed] at hkeyed
  cases hk : st.applicationKey with
  | none => rw [hk] at hkeyed; cases hkeyed
  | some appKey =>
      rw [hk] at hkeyed
      obtain ⟨m₁, s₁, hget, hkeyed⟩ := bind_ok hkeyed
      cases hget
      obtain ⟨nonce, hnonce, hkeyed⟩ := lift_bind_ok hkeyed
      obtain ⟨u, hcipher, hkeyed⟩ := lift_bind_ok hkeyed
      obtain ⟨adBytes, haad, hkeyed⟩ := lift_bind_ok hkeyed
      cases hct : c.encrypt appKey nonce plaintext adBytes with
      | none => rw [hct] at hkeyed; cases hkeyed
      | some ct =>
          rw [hct] at hkeyed
          cases hkeyed
          have hdec := hinv _ _ _ _ _ hct
          refine ⟨rfl, rfl, ?_⟩
          simp only [openMessage, hk, Int.toNat_natCast, hnonce, hcipher, haad, except_ok_bind,
            hdec]

end GhostChat.Proofs
