import GhostChat.Proofs.Receivers
import GhostChat.Proofs.Sealed

/-!
# First deliveries in a group

The replay cache of a receiver knows a message by its sender's leaf and its
counter, and not by its epoch. A leaf is somebody else's after its owner has
left, two members may even have one at the same time, and every sender counts
from zero. So a message may arrive for the first time, in its own epoch, from a
member who has done nothing wrong, and find its place in the cache taken.

That is all that can go wrong. The shared state has one key for each epoch, a
header of the epoch is one the state takes as long as somebody has the leaf,
and the cache has what arrived while it was current and nothing else.
-/

namespace GhostChat.Proofs

open GhostChat.Lib GhostChat.Lib.Effect GhostChat.Ref

variable {K P C : Type} {c : Crypto K P C} {σ : Room K C}

/-! ## Deliveries -/

/-- The message was sent to the member, has not been handed to it before, and
its epoch is the group's. -/
def FirstInEpoch (σ : Room K C) (n : Nat) (memberPk : Bytes) (x : RoomMessage C) (t : Talker) :
    Prop :=
  memberPk ∈ x.audience ∧ n ∉ t.handed ∧ x.message.header.epoch = σ.state.epoch

instance FirstInEpoch.decidable (σ : Room K C) (n : Nat) (memberPk : Bytes) (x : RoomMessage C)
    (t : Talker) : Decidable (FirstInEpoch σ n memberPk x t) :=
  inferInstanceAs (Decidable (_ ∧ _ ∧ _))

/-- Such a message is decrypted. -/
def FirstAccepted (c : Crypto K P C) (σ : Room K C) : RoomAct K → Prop
  | .deliver n memberPk => ∀ x ∈ σ.sent[n]?, ∀ t ∈ Odict.get? σ.talkers memberPk,
      FirstInEpoch σ n memberPk x t →
        value? (GroupMessenger.decrypt c σ.state x.message x.ad t.receiver) = some x.plaintext
  | .change _ | .send _ _ _ => True

/-- Some member has the leaf of such a message, and nothing with its leaf and
its counter has arrived there before, in an epoch of its own. -/
def NewHere (σ : Room K C) : RoomAct K → Prop
  | .deliver n memberPk => ∀ x ∈ σ.sent[n]?, ∀ t ∈ Odict.get? σ.talkers memberPk,
      FirstInEpoch σ n memberPk x t →
        (σ.state.members.any fun e => (e.2.leafIndex : Int) = x.message.header.senderLeafIndex)
            = true ∧
          ∀ header ∈ t.heard, cacheKey header ≠ cacheKey x.message.header
  | .change _ | .send _ _ _ => True

/-- The cache of a receiver that is handed a message is not full. -/
def CacheRoom (σ : Room K C) : RoomAct K → Prop
  | .deliver _ memberPk => ∀ t ∈ Odict.get? σ.talkers memberPk,
      t.receiver.replayCache.seen.length < t.receiver.replayCache.maxEntries
  | .change _ | .send _ _ _ => True

instance FirstAccepted.decidable (c : Crypto K P C) (σ : Room K C) :
    (act : RoomAct K) → Decidable (FirstAccepted c σ act)
  | .deliver n memberPk => inferInstanceAs (Decidable (∀ x ∈ σ.sent[n]?,
      ∀ t ∈ Odict.get? σ.talkers memberPk, FirstInEpoch σ n memberPk x t → _ = _))
  | .change _ | .send _ _ _ => isTrue trivial

instance NewHere.decidable (σ : Room K C) : (act : RoomAct K) → Decidable (NewHere σ act)
  | .deliver n memberPk => inferInstanceAs (Decidable (∀ x ∈ σ.sent[n]?,
      ∀ t ∈ Odict.get? σ.talkers memberPk, FirstInEpoch σ n memberPk x t → _ ∧ _))
  | .change _ | .send _ _ _ => isTrue trivial

instance CacheRoom.decidable (σ : Room K C) : (act : RoomAct K) → Decidable (CacheRoom σ act)
  | .deliver _ memberPk => inferInstanceAs (Decidable (∀ t ∈ Odict.get? σ.talkers memberPk, _ < _))
  | .change _ | .send _ _ _ => isTrue trivial

/-! ## The books of the room -/

/-- The cache has what was heard. -/
def Heard (t : Talker) : Prop :=
  ∀ key, key ∈ t.receiver.replayCache.seen ↔ ∃ header ∈ t.heard, cacheKey header = key

/-- Everything sent is of this group and of no later epoch, and what was sent
in this epoch opens in it. -/
structure RoomBooks (c : Crypto K P C) (σ : Room K C) : Prop where
  keyed : Keyed c.toKeyAlg σ.state
  group : ∀ x ∈ σ.sent, x.message.header.groupId = σ.state.groupId
  past : ∀ x ∈ σ.sent, x.message.header.epoch ≤ σ.state.epoch
  opens : ∀ x ∈ σ.sent, x.message.header.epoch = σ.state.epoch →
    openMessage c σ.state x.message x.ad = .ok x.plaintext
  heard : ∀ pk t, Odict.get? σ.talkers pk = some t → Heard t

theorem seat_heard {st : GroupState K} {e : Bytes × GroupMember} {pk : Bytes} {t : Talker}
    (h : seat st e = some (pk, t)) : Heard t := by
  rw [seat] at h
  split at h
  · next m hm =>
      cases h
      rw [GroupMessenger.new] at hm
      split at hm
      · cases hm
      · cases hm
        intro key
        simp
  · cases h

theorem RoomBooks.start (hlen : ∀ i s f b, (c.bytes (c.hkdf i s f b)).length = 32)
    {st : GroupState K} {groupId : Bytes} {ms : List (Bytes × K)}
    (h : GroupState.create c.toKeyAlg groupId ms = .ok st) :
    RoomBooks c (Room.new st : Room K C) := by
  refine ⟨create_keyed hlen h, nofun, nofun, nofun, fun pk t ht => ?_⟩
  obtain ⟨e, -, he⟩ := List.mem_filterMap.mp (Odict.mem_of_get? ht)
  exact seat_heard he

theorem takeSeat_heard {st st' : GroupState K} {talkers : Odict Bytes Talker} (op : GroupOp K)
    (h : ∀ pk t, Odict.get? talkers pk = some t → Heard t) {pk : Bytes} {t : Talker}
    (ht : Odict.get? (takeSeat st st' talkers op) pk = some t) : Heard t := by
  cases op with
  | remove _ _ => exact h pk t ht
  | add identityPk s =>
      rw [takeSeat] at ht
      split at ht
      · exact h pk t ht
      split at ht
      · exact h pk t ht
      split at ht
      · exact h pk t ht
      · next pk' talker hseat =>
          by_cases hpk : pk = identityPk
          · subst hpk
            rw [Odict.get?_set_self] at ht
            cases ht
            exact seat_heard hseat
          · rw [Odict.get?_set_ne _ hpk] at ht
            exact h pk t ht

theorem call_later (a : KeyAlg K) (st : GroupState K) (op : GroupOp K) :
    LaterThan st.groupId st.epoch (after (st.call a op)) := by
  cases op with
  | add pk s => exact addMember_later pk s st ⟨rfl, le_refl _⟩
  | remove pk s => exact removeMember_later pk s st ⟨rfl, le_refl _⟩

theorem RoomBooks.change (hlen : ∀ i s f b, (c.bytes (c.hkdf i s f b)).length = 32)
    (h : RoomBooks c σ) (op : GroupOp K) : RoomBooks c (σ.step c (.change op)) := by
  obtain ⟨hkeyed, hnext⟩ := call_orNext hlen op h.keyed
  obtain ⟨hgid, hlater⟩ := call_later c.toKeyAlg σ.state op
  refine ⟨hkeyed, fun x hx => (h.group x hx).trans hgid.symm,
    fun x hx => (h.past x hx).trans hlater, fun x hx hepoch => ?_,
    fun pk t ht => takeSeat_heard op h.heard ht⟩
  have hpast := h.past x hx
  simp only [Room.step] at hepoch ⊢
  rcases hnext with ⟨hsame, hkey⟩ | hnext
  · rw [openMessage_congr hkey]
    exact h.opens x hx (by rw [hepoch, hsame])
  · rw [hnext] at hepoch
    push_cast at hepoch
    omega

theorem RoomBooks.send (hinv : AeadInverse c) (h : RoomBooks c σ) (identityPk plaintext ad : Bytes) :
    RoomBooks c (σ.step c (.send identityPk plaintext ad)) := by
  rw [Room.step]
  split
  · cases ht : Odict.get? σ.talkers identityPk with
    | none => exact h
    | some t =>
        have hheard : ∀ m pk t', Odict.get? (Odict.set σ.talkers identityPk { t with sender := m })
            pk = some t' → Heard t' := by
          intro m pk t' ht'
          by_cases hpk : pk = identityPk
          · subst hpk
            rw [Odict.get?_set_self] at ht'
            cases ht'
            exact h.heard pk t ht
          · rw [Odict.get?_set_ne _ hpk] at ht'
            exact h.heard pk t' ht'
        dsimp only
        cases henc : GroupMessenger.encrypt c σ.state plaintext ad t.sender with
        | error e m => exact ⟨h.keyed, h.group, h.past, h.opens, hheard m⟩
        | ok message m =>
            obtain ⟨hheader, -, hopen⟩ := encrypt_ok hinv henc
            refine ⟨h.keyed, ?_, ?_, ?_, hheard m⟩
            · intro x hx
              rcases List.mem_append.mp hx with hx | hx
              · exact h.group x hx
              · rw [List.mem_singleton.mp hx, hheader]
            · intro x hx
              rcases List.mem_append.mp hx with hx | hx
              · exact h.past x hx
              · rw [List.mem_singleton.mp hx, hheader]
            · intro x hx hepoch
              rcases List.mem_append.mp hx with hx | hx
              · exact h.opens x hx hepoch
              · rw [List.mem_singleton.mp hx]
                exact hopen
  · exact h

/-- What arrives with a header of the state is in the cache afterwards, and
what does not leaves it alone. -/
theorem Heard.deliver {t : Talker} (h : Heard t)
    (hroom : t.receiver.replayCache.seen.length < t.receiver.replayCache.maxEntries)
    (st : GroupState K) (x : RoomMessage C) (handed : List Nat) : Heard {
      sender := t.sender
      receiver := after (GroupMessenger.decrypt c st x.message x.ad t.receiver)
      handed := handed
      heard := if Current st x.message.header then x.message.header :: t.heard else t.heard } := by
  intro key
  simp only [decrypt_after]
  by_cases hcurrent : Current st x.message.header
  · rw [if_pos hcurrent]
    by_cases hadmits : Admits t.receiver.replayCache (cacheKey x.message.header)
    · rw [if_pos ⟨hcurrent, hadmits⟩]
      simp only [List.mem_cons, h key, exists_eq_or_imp]
      exact or_congr_left eq_comm
    · rw [if_neg fun hboth => hadmits hboth.2]
      have hold : cacheKey x.message.header ∈ t.receiver.replayCache.seen := by
        by_contra hnew
        exact hadmits ⟨hnew, hroom⟩
      simp only [h key, List.mem_cons, exists_eq_or_imp]
      refine ⟨Or.inr, fun hor => ?_⟩
      rcases hor with rfl | hor
      · exact (h _).mp hold
      · exact hor
  · rw [if_neg hcurrent, if_neg fun hboth => hcurrent hboth.1]
    exact h key

theorem RoomBooks.deliver (h : RoomBooks c σ) {n : Nat} {memberPk : Bytes}
    (hroom : CacheRoom σ (.deliver n memberPk)) :
    RoomBooks c (σ.step c (.deliver n memberPk)) := by
  rw [Room.step]
  split
  · next x t hx ht =>
      refine ⟨h.keyed, h.group, h.past, h.opens, fun pk t' ht' => ?_⟩
      by_cases hpk : pk = memberPk
      · subst hpk
        rw [Odict.get?_set_self] at ht'
        cases ht'
        exact (h.heard pk t ht).deliver (hroom t ht) σ.state x _
      · rw [Odict.get?_set_ne _ hpk] at ht'
        exact h.heard pk t' ht'
  · exact h

theorem RoomBooks.step (hlen : ∀ i s f b, (c.bytes (c.hkdf i s f b)).length = 32)
    (hinv : AeadInverse c) (h : RoomBooks c σ) {act : RoomAct K} (hroom : CacheRoom σ act) :
    RoomBooks c (σ.step c act) := by
  cases act with
  | change op => exact h.change hlen op
  | send identityPk plaintext ad => exact h.send hinv identityPk plaintext ad
  | deliver n memberPk => exact h.deliver hroom

/-- A first delivery is accepted exactly if the message is new to the receiver. -/
theorem RoomBooks.accepted_iff (h : RoomBooks c σ) {act : RoomAct K} (hroom : CacheRoom σ act) :
    FirstAccepted c σ act ↔ NewHere σ act := by
  cases act with
  | change op => exact Iff.rfl
  | send identityPk plaintext ad => exact Iff.rfl
  | deliver n memberPk =>
      refine forall₂_congr fun x hx => forall₂_congr fun t ht => forall_congr' fun hfirst => ?_
      have hmem : x ∈ σ.sent := List.mem_of_getElem? hx
      have hepoch := hfirst.2.2
      rw [decrypt_ok_iff]
      constructor
      · rintro ⟨hcurrent, hadmits, -⟩
        refine ⟨hcurrent.2.2, fun header hheader heq => hadmits.1 ?_⟩
        rw [h.heard memberPk t ht]
        exact ⟨header, hheader, heq⟩
      · rintro ⟨hleaf, hnew⟩
        refine ⟨⟨h.group x hmem, hepoch, hleaf⟩, ⟨fun hseen => ?_, hroom t ht⟩,
          h.opens x hmem hepoch⟩
        obtain ⟨header, hheader, heq⟩ := (h.heard memberPk t ht _).mp hseen
        exact hnew header hheader heq

/-- Over every run of a group whose members keep their messengers: every message
is accepted when it first arrives in its epoch, exactly if, whenever one does,
its leaf is a member's and nothing with that leaf and that counter has arrived
at the receiver before. -/
theorem group_first_delivery_iff (hlen : ∀ i s f b, (c.bytes (c.hkdf i s f b)).length = 32)
    (hinv : AeadInverse c) {st : GroupState K} {groupId : Bytes} {ms : List (Bytes × K)}
    (h₀ : GroupState.create c.toKeyAlg groupId ms = .ok st) {acts : List (RoomAct K)}
    (hroom : Along (Room.step c) CacheRoom (Room.new st) acts) :
    Along (Room.step c) (FirstAccepted c) (Room.new st) acts ↔
      Along (Room.step c) NewHere (Room.new st) acts :=
  Along.congr (I := RoomBooks c) (fun _ _ h hroom => h.accepted_iff hroom)
    (fun _ _ h hroom _ => h.step hlen hinv hroom) (RoomBooks.start hlen h₀) hroom

/-! ## Concrete rooms -/

/-- Member 2 writes, a third member comes and writes, and both write again. -/
def newcomerTalk : List (RoomAct Bytes) := [
  .send [2] [104] [], .deliver 0 [1], .change (.add [3] (mix [3])), .send [3] [105] [],
  .deliver 1 [1], .send [2] [106] [], .deliver 2 [1], .deliver 2 [3], .deliver 2 [1]]

theorem group_first_delivery_newcomer :
    Along (Room.step sampleCrypto) CacheRoom (Room.new sampleRoom) newcomerTalk ∧
      Along (Room.step sampleCrypto) (FirstAccepted sampleCrypto) (Room.new sampleRoom)
        newcomerTalk := by
  have hroom : Along (Room.step sampleCrypto) CacheRoom (Room.new sampleRoom) newcomerTalk := by
    decide +kernel
  exact ⟨hroom, (group_first_delivery_iff sampleCrypto_hkdf_length sampleCrypto_inverse
    sampleRoom_created hroom).mpr (by decide +kernel)⟩

/-- Member 2 writes and leaves. Member 3 comes, has the leaf of member 2 and
counts from zero: its first message is refused as a replay. -/
theorem freed_leaf_refused :
    Along (Room.step sampleCrypto) CacheRoom (Room.new sampleRoom)
        [.send [2] [104] [], .deliver 0 [1], .change (.remove [2] (mix [4])),
          .change (.add [3] (mix [3])), .send [3] [105] [], .deliver 1 [1]] ∧
      ¬ Along (Room.step sampleCrypto) (FirstAccepted sampleCrypto) (Room.new sampleRoom)
        [.send [2] [104] [], .deliver 0 [1], .change (.remove [2] (mix [4])),
          .change (.add [3] (mix [3])), .send [3] [105] [], .deliver 1 [1]] := by
  exact ⟨by decide +kernel, by decide +kernel⟩

end GhostChat.Proofs
