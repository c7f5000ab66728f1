import GhostChat.Proofs.GroupDecrypt
import GhostChat.Ref.ClientGroups

/-!
# Receivers and their memory

A group message is decrypted once by one receiver: its replay cache only ever
grows, and what it has marked it refuses. But a manager does not keep its
receivers for ever. `set_state` drops the receiver of the group, whatever state
it puts there, and the next receiver starts with an empty cache; and two group
ids may lead to one state, each with a receiver of its own.

So a message is decrypted twice where another receiver than the one that read
it is asked again and its state still can. That does not happen to a manager
that moves its groups forward: where every group id is given states of its own
group, and `set_state` only ever brings one of a later epoch than what was
decrypted, the messages the dropped receiver knew are no longer read by anyone.
-/

namespace GhostChat.Proofs

open GhostChat.Lib GhostChat.Lib.Effect GhostChat.Ref

variable {K P C : Type} {c : Crypto K P C} {st : GroupState K} {message : GroupMessage C}
  {ad : Bytes}

/-! ## What the receiver of a group does -/

variable {mgr mgr' : LiveGroupManager K} {groupId : Bytes} {i : Nat} {r : GroupReceiver}

/-- The receiver `get_receiver` returns: its number, the object, and the state
it refers to. -/
def receiverFor (mgr : LiveGroupManager K) (groupId : Bytes) :
    Option (Nat × GroupReceiver × GroupState K) := do
  let (entry, state) ← mgr.lookup groupId
  match Odict.get? mgr.receivers groupId with
  | some i => do
      let found ← mgr.receiver i
      return (i, found)
  | none =>
      if state.applicationKey.isSome then
        some (mgr.messengers.length, ⟨{ senderLeafIndex := 0 }, entry.state⟩, state)
      else none

/-- `get_receiver` has returned the receiver: it is there, it is the group's,
and nothing else has changed. -/
structure Fetched (mgr : LiveGroupManager K) (groupId : Bytes) (i : Nat) (r : GroupReceiver)
    (st : GroupState K) (mgr' : LiveGroupManager K) : Prop where
  states : mgr'.states = mgr.states
  groups : mgr'.groups = mgr.groups
  found : mgr'.receiver i = some (r, st)
  older : mgr.messengers <+: mgr'.messengers
  mine : Odict.get? mgr'.receivers groupId = some i
  others : ∀ g, g ≠ groupId → Odict.get? mgr'.receivers g = Odict.get? mgr.receivers g

theorem lookup_some {entry : GroupEntry} :
    mgr.lookup groupId = some (entry, st) ↔
      Odict.get? mgr.groups groupId = some entry ∧ mgr.states[entry.state]? = some st := by
  simp only [LiveGroupManager.lookup, Option.bind_eq_bind, Option.bind_eq_some_iff]
  constructor
  · rintro ⟨entry', hentry, st', hst, h⟩
    cases h
    exact ⟨hentry, hst⟩
  · rintro ⟨hentry, hst⟩
    exact ⟨entry, hentry, st, hst, rfl⟩

theorem receiver_some :
    mgr.receiver i = some (r, st) ↔
      mgr.messengers[i]? = some r ∧ mgr.states[r.state]? = some st := by
  simp only [LiveGroupManager.receiver, Option.bind_eq_bind, Option.bind_eq_some_iff]
  constructor
  · rintro ⟨r', hr, st', hst, h⟩
    cases h
    exact ⟨hr, hst⟩
  · rintro ⟨hr, hst⟩
    exact ⟨r, hr, st, hst, rfl⟩

theorem getReceiver_some (h : receiverFor mgr groupId = some (i, r, st)) :
    ∃ mgr', LiveGroupManager.getReceiver groupId mgr = .ok (some i) mgr' ∧
      Fetched mgr groupId i r st mgr' := by
  rw [receiverFor] at h
  simp only [LiveGroupManager.getReceiver, bind_apply, get_apply]
  cases hlookup : mgr.lookup groupId with
  | none => rw [hlookup] at h; cases h
  | some found =>
      obtain ⟨entry, state⟩ := found
      rw [hlookup] at h
      cases hcached : Odict.get? mgr.receivers groupId with
      | some i' =>
          cases hobj : mgr.receiver i' with
          | none => simp [hcached, hobj] at h
          | some found =>
              obtain ⟨rfl, rfl⟩ : i' = i ∧ found = (r, st) := by simpa [hcached, hobj] using h
              exact ⟨mgr, rfl, rfl, rfl, hobj, List.prefix_refl _, hcached, fun _ _ => rfl⟩
      | none =>
          cases hk : state.applicationKey with
          | none => simp [hcached, hk] at h
          | some k =>
              obtain ⟨rfl, rfl, rfl⟩ : mgr.messengers.length = i ∧
                  ⟨{ senderLeafIndex := 0 }, entry.state⟩ = r ∧ state = st := by
                simpa [hcached, hk] using h
              simp only [GroupMessenger.new, hk, bind_apply, lift_ok, modify_apply, pure_apply]
              refine ⟨_, rfl, rfl, rfl, receiver_some.mpr ⟨?_, (lookup_some.mp hlookup).2⟩,
                List.prefix_append _ _, Odict.get?_set_self _ _ _,
                fun g hg => Odict.get?_set_ne _ hg _⟩
              exact List.getElem?_concat_length

theorem getReceiver_none (h : receiverFor mgr groupId = none) :
    (∃ j, LiveGroupManager.getReceiver groupId mgr = .ok (some j) mgr ∧ mgr.receiver j = none) ∨
    LiveGroupManager.getReceiver groupId mgr = .ok none mgr ∨
    ∃ e, LiveGroupManager.getReceiver groupId mgr = .error e mgr := by
  rw [receiverFor] at h
  simp only [LiveGroupManager.getReceiver, bind_apply, get_apply]
  cases hlookup : mgr.lookup groupId with
  | none => exact Or.inr (Or.inl rfl)
  | some found =>
      obtain ⟨entry, state⟩ := found
      rw [hlookup] at h
      cases hcached : Odict.get? mgr.receivers groupId with
      | some j =>
          refine Or.inl ⟨j, rfl, ?_⟩
          cases hobj : mgr.receiver j with
          | none => rfl
          | some found => simp [hcached, hobj] at h
      | none =>
          have hkey : state.applicationKey = none := by
            cases hk : state.applicationKey with
            | none => rfl
            | some k => simp [hcached, hk] at h
          simp only [GroupMessenger.new, hkey, bind_apply, lift_error]
          exact Or.inr (Or.inr ⟨_, rfl⟩)

/-- Without a receiver nothing happens. -/
theorem receiverDecrypt_none (c : Crypto K P C) (message : GroupMessage C) (ad : Bytes)
    (h : receiverFor mgr groupId = none) :
    ∃ e, LiveGroupManager.receiverDecrypt c groupId message ad mgr = .error e mgr := by
  rw [LiveGroupManager.receiverDecrypt, bind_apply]
  rcases getReceiver_none h with ⟨j, hget, hobj⟩ | hget | ⟨e, hget⟩
  · rw [hget]
    simp only [bind_apply, LiveGroupManager.onReceiver, hobj]
    exact ⟨_, rfl⟩
  · rw [hget]
    exact ⟨_, rfl⟩
  · rw [hget]
    exact ⟨_, rfl⟩

/-- The receiver decrypts. -/
theorem receiverDecrypt_some (c : Crypto K P C) (message : GroupMessage C) (ad : Bytes)
    (h : receiverFor mgr groupId = some (i, r, st)) :
    ∃ mgr', Fetched mgr groupId i r st mgr' ∧
      LiveGroupManager.receiverDecrypt c groupId message ad mgr =
        match GroupMessenger.decrypt c st message ad r.messenger with
        | .ok plaintext m => .ok (i, plaintext) { mgr' with
            messengers := mgr'.messengers.set i { r with messenger := m } }
        | .error e m => .error e { mgr' with
            messengers := mgr'.messengers.set i { r with messenger := m } } := by
  obtain ⟨mgr', hget, hfetched⟩ := getReceiver_some h
  refine ⟨mgr', hfetched, ?_⟩
  simp only [LiveGroupManager.receiverDecrypt, bind_apply, hget, LiveGroupManager.onReceiver,
    hfetched.found]
  cases GroupMessenger.decrypt c st message ad r.messenger <;> rfl

/-! ## Receivers remember -/

/-- Every messenger is still there, and has forgotten nothing. -/
def Grown (mgr mgr' : LiveGroupManager K) : Prop :=
  ∀ (i : Nat) (r : GroupReceiver), mgr.messengers[i]? = some r →
    ∃ r' : GroupReceiver, mgr'.messengers[i]? = some r' ∧
      r.messenger.replayCache.seen ⊆ r'.messenger.replayCache.seen

theorem Grown.of_eq (h : mgr'.messengers = mgr.messengers) : Grown mgr mgr' := by
  intro i r hr
  exact ⟨r, h ▸ hr, List.Subset.refl _⟩

theorem decrypt_grows (c : Crypto K P C) (st : GroupState K) (message : GroupMessage C)
    (ad : Bytes) (m : GroupMessenger) : m.replayCache.seen ⊆
      (after (GroupMessenger.decrypt c st message ad m)).replayCache.seen := by
  rw [decrypt_after]
  split
  · exact List.subset_cons_self _ _
  · exact List.Subset.refl _

theorem Fetched.grown (h : Fetched mgr groupId i r st mgr') (c : Crypto K P C)
    (message : GroupMessage C) (ad : Bytes) : Grown mgr { mgr' with
      messengers := mgr'.messengers.set i
        { r with messenger := after (GroupMessenger.decrypt c st message ad r.messenger) } } := by
  obtain ⟨hi, -⟩ := receiver_some.mp h.found
  intro j r₀ hr₀
  have hj : mgr'.messengers[j]? = some r₀ := by
    obtain ⟨tail, htail⟩ := h.older
    rw [← htail, List.getElem?_append_left (List.getElem?_eq_some_iff.mp hr₀).1]
    exact hr₀
  by_cases hij : i = j
  · subst hij
    obtain rfl : r = r₀ := Option.some.inj (hi.symm.trans hj)
    refine ⟨_, List.getElem?_set_self (List.getElem?_eq_some_iff.mp hi).1, ?_⟩
    exact decrypt_grows c st message ad _
  · refine ⟨r₀, ?_, List.Subset.refl _⟩
    rw [List.getElem?_set_ne hij]
    exact hj

/-- Membership and references change no messenger. -/
def SameMessengers (ms : List GroupReceiver) (mgr : LiveGroupManager K) : Prop :=
  mgr.messengers = ms

variable {ms : List GroupReceiver}

theorem withController_messengers (groupId : Bytes) (refusal : String)
    (x : EStateM Exn (GroupState K) Unit) :
    Keeps (SameMessengers ms) (LiveGroupManager.withController groupId refusal x) := by
  intro mgr h
  rw [LiveGroupManager.withController]
  split
  · exact h
  · split
    · split <;> exact h
    · exact h

theorem createGroup_messengers (a : KeyAlg K) (groupId : Bytes) (members : List (Bytes × K)) :
    Keeps (SameMessengers ms) (LiveGroupManager.createGroup a groupId members) := by
  refine keeps_get_bind fun mgr h => ?_
  refine keeps_guard (I := SameMessengers ms) ?_ mgr h
  refine keeps_guard ?_
  exact keeps_bind (keeps_lift _) fun _ => keeps_modify fun _ h => h

theorem joinGroup_messengers (groupId : Bytes) (state leaf : Nat) :
    Keeps (SameMessengers (K := K) ms) (LiveGroupManager.joinGroup groupId state leaf) := by
  refine keeps_get_bind fun mgr h => ?_
  refine keeps_guard (I := SameMessengers ms) ?_ mgr h
  exact keeps_modify fun _ h => h

theorem GroupClient.step_grown (c : Crypto K P C) (σ : GroupClient K C) (call : GroupCall K C) :
    Grown σ.manager (σ.step c call).manager := by
  cases call with
  | arrive state => exact .of_eq rfl
  | createGroup groupId members => exact .of_eq (createGroup_messengers _ _ _ _ rfl)
  | joinGroup groupId state leaf => exact .of_eq (joinGroup_messengers _ _ _ _ rfl)
  | setState groupId state leaf => exact .of_eq rfl
  | addGroupMember groupId memberId secret => exact .of_eq (withController_messengers _ _ _ _ rfl)
  | removeGroupMember groupId memberId secret => exact .of_eq (withController_messengers _ _ _ _ rfl)
  | decrypt groupId message ad =>
      rw [GroupClient.step]
      cases hfor : receiverFor σ.manager groupId with
      | none =>
          obtain ⟨e, hdec⟩ := receiverDecrypt_none c message ad hfor
          rw [hdec]
          exact .of_eq rfl
      | some found =>
          obtain ⟨i, r, st⟩ := found
          obtain ⟨mgr', hfetched, hcall⟩ := receiverDecrypt_some c message ad hfor
          have hgrown := hfetched.grown c message ad
          rw [hcall]
          cases hdec : GroupMessenger.decrypt c st message ad r.messenger <;>
            rw [hdec] at hgrown <;> exact hgrown

/-! ## Decrypted twice -/

/-- The state can read the message: it takes the header, and the ciphertext
opens under its key. -/
def Reads (c : Crypto K P C) (st : GroupState K) (message : GroupMessage C) (ad : Bytes) : Prop :=
  Current st message.header ∧ (openMessage c st message ad).isOk = true

instance Reads.decidable (c : Crypto K P C) (st : GroupState K) (message : GroupMessage C)
    (ad : Bytes) : Decidable (Reads c st message ad) := inferInstanceAs (Decidable (_ ∧ _))

/-- What a step adds to the accepted messages, and where it is marked. -/
theorem GroupClient.step_accepted (c : Crypto K P C) (σ : GroupClient K C) (call : GroupCall K C) :
    (σ.step c call).accepted = σ.accepted ∨
    ∃ groupId message ad i r st r', call = .decrypt groupId message ad ∧
      receiverFor σ.manager groupId = some (i, r, st) ∧ Reads c st message ad ∧
      Admits r.messenger.replayCache (cacheKey message.header) ∧
      (σ.step c call).accepted = (i, message) :: σ.accepted ∧
      (σ.step c call).manager.messengers[i]? = some r' ∧
      cacheKey message.header ∈ r'.messenger.replayCache.seen := by
  cases call with
  | decrypt groupId message ad =>
      rw [GroupClient.step]
      cases hfor : receiverFor σ.manager groupId with
      | none =>
          obtain ⟨e, hdec⟩ := receiverDecrypt_none c message ad hfor
          rw [hdec]
          exact Or.inl rfl
      | some found =>
          obtain ⟨i, r, st⟩ := found
          obtain ⟨mgr', hfetched, hcall⟩ := receiverDecrypt_some c message ad hfor
          rw [hcall]
          cases hdec : GroupMessenger.decrypt c st message ad r.messenger with
          | error e m => exact Or.inl rfl
          | ok plaintext m =>
              obtain ⟨hcurrent, hadmits, hopen⟩ := decrypt_ok_iff.mp (congrArg value? hdec)
              have hmarked := decrypt_after c st message ad r.messenger
              rw [if_pos ⟨hcurrent, hadmits⟩, hdec, after_ok] at hmarked
              obtain ⟨hi, -⟩ := receiver_some.mp hfetched.found
              refine Or.inr ⟨groupId, message, ad, i, r, st, _, rfl, hfor,
                ⟨hcurrent, by rw [hopen]; rfl⟩, hadmits, rfl,
                List.getElem?_set_self (List.getElem?_eq_some_iff.mp hi).1, ?_⟩
              rw [hmarked]
              exact List.mem_cons_self
  | _ => exact Or.inl rfl

/-- Where a message that was decrypted before is submitted again and the state
can read it, it is submitted to the receiver that decrypted it. -/
def SameReceiver (c : Crypto K P C) (σ : GroupClient K C) : GroupCall K C → Prop
  | .decrypt groupId message ad => ∀ e ∈ σ.accepted, e.2 = message →
      ∀ found ∈ receiverFor σ.manager groupId, Reads c found.2.2 message ad → found.1 = e.1
  | _ => True

instance SameReceiver.decidable [DecidableEq C] (c : Crypto K P C) (σ : GroupClient K C) :
    (call : GroupCall K C) → Decidable (SameReceiver c σ call)
  | .decrypt _ _ _ => inferInstanceAs (Decidable (∀ e ∈ σ.accepted, _))
  | .arrive _ | .createGroup _ _ | .joinGroup _ _ _ | .setState _ _ _ | .addGroupMember _ _ _
  | .removeGroupMember _ _ _ => isTrue trivial

/-- Nothing was decrypted twice, and the receivers know what they decrypted. -/
structure Remembered (σ : GroupClient K C) : Prop where
  marked : ∀ e ∈ σ.accepted, ∃ r : GroupReceiver, σ.manager.messengers[e.1]? = some r ∧
    cacheKey e.2.header ∈ r.messenger.replayCache.seen
  once : (σ.accepted.map (·.2)).Nodup

/-- A receiver that is there is the object `get_receiver` returns under its
number. -/
theorem receiverFor_older {r₀ : GroupReceiver} (h : receiverFor mgr groupId = some (i, r, st))
    (hr : mgr.messengers[i]? = some r₀) : r = r₀ := by
  obtain ⟨mgr', -, hfetched⟩ := getReceiver_some h
  obtain ⟨hi, -⟩ := receiver_some.mp hfetched.found
  obtain ⟨tail, htail⟩ := hfetched.older
  rw [← htail, List.getElem?_append_left (List.getElem?_eq_some_iff.mp hr).1, hr] at hi
  exact (Option.some.inj hi).symm

theorem Remembered.step {σ : GroupClient K C} {call : GroupCall K C} (h : Remembered σ)
    (hsame : SameReceiver c σ call) : Remembered (σ.step c call) := by
  have hgrown := GroupClient.step_grown c σ call
  have hold : ∀ e ∈ σ.accepted, ∃ r : GroupReceiver,
      (σ.step c call).manager.messengers[e.1]? = some r ∧
        cacheKey e.2.header ∈ r.messenger.replayCache.seen := by
    intro e he
    obtain ⟨r, hr, hseen⟩ := h.marked e he
    obtain ⟨r', hr', hsub⟩ := hgrown e.1 r hr
    exact ⟨r', hr', hsub hseen⟩
  rcases GroupClient.step_accepted c σ call with
    hacc | ⟨groupId, message, ad, i, r, st, r', rfl, hfor, hreads, hadmits, hacc, hi, hseen⟩
  · exact ⟨hacc ▸ hold, hacc ▸ h.once⟩
  · refine ⟨fun e he => ?_, ?_⟩
    · rw [hacc] at he
      rcases List.mem_cons.mp he with rfl | he
      · exact ⟨r', hi, hseen⟩
      · exact hold e he
    · rw [hacc, List.map_cons, List.nodup_cons]
      refine ⟨fun hmem => ?_, h.once⟩
      -- Decrypted before: by this very receiver, whose cache has it.
      obtain ⟨e, he, rfl⟩ := List.mem_map.mp hmem
      obtain rfl : i = e.1 := hsame e he rfl _ hfor hreads
      obtain ⟨r₀, hr₀, hknown⟩ := h.marked e he
      rw [receiverFor_older hfor hr₀] at hadmits
      exact hadmits.1 hknown

/-- In every run of a manager, whatever states it joins, sets and changes: as
long as a message that was decrypted before comes to the receiver that decrypted
it, wherever it can still be read, no message is decrypted twice. -/
theorem group_replay_kept (mgr : LiveGroupManager K) (calls : List (GroupCall K C))
    (h : Along (GroupClient.step c) (SameReceiver c) { manager := mgr } calls) :
    ((runFrom (GroupClient.step c) { manager := mgr } calls).accepted.map (·.2)).Nodup := by
  have hstart : Remembered ({ manager := mgr } : GroupClient K C) := ⟨nofun, List.nodup_nil⟩
  exact (Along.invariant (fun σ call h hsame => Remembered.step h hsame) hstart h).once

/-! ## Moving a group forward -/

/-- The number leads to a state of the group, at epoch `n` or later. -/
def Leads (mgr : LiveGroupManager K) (s : Nat) (groupId : Bytes) (n : Int) : Prop :=
  ∃ st : GroupState K, mgr.states[s]? = some st ∧ st.groupId = groupId ∧ n ≤ st.epoch

/-- A group id is given states of its own group, and `set_state` one at a later
epoch than any message of the group that was decrypted. -/
def Forward (σ : GroupClient K C) : GroupCall K C → Prop
  | .joinGroup groupId s _ => Leads σ.manager s groupId 0
  | .setState groupId s _ => Leads σ.manager s groupId 0 ∧
      ∀ e ∈ σ.accepted, e.2.header.groupId = groupId →
        Leads σ.manager s groupId (e.2.header.epoch + 1)
  | _ => True

/-- Whatever a membership change does, the state stays one of its group and
goes back to no earlier epoch. -/
def LaterThan (groupId : Bytes) (n : Int) (st : GroupState K) : Prop :=
  st.groupId = groupId ∧ n ≤ st.epoch

section Changes

variable {a : KeyAlg K} {n : Int}

theorem onTree_later (x : EStateM Exn (GroupTree K) Unit) :
    Keeps (LaterThan groupId n) (onTree x) := by
  intro st h
  rw [onTree, zoom]
  cases x st.tree <;> exact h

theorem rebuildTree_later (newIndex : Nat) :
    Keeps (LaterThan groupId n) (GroupState.rebuildTree a newIndex) := by
  refine keeps_get_bind fun st h => ?_
  refine keeps_bind (I := LaterThan groupId n) (keeps_lift _) (fun _ => ?_) st h
  exact keeps_bind (keeps_lift _) fun _ => keeps_modify fun _ h => h

theorem rederive_later : Keeps (LaterThan groupId n) (GroupState.rederiveGroupSecret a) := by
  refine keeps_get_bind fun st h => ?_
  cases st.tree.rootSecret with
  | none => exact h
  | some root =>
      refine keeps_bind (I := LaterThan groupId n) (keeps_lift _) (fun es => ?_) st h
      refine keeps_bind (keeps_modify fun _ h => h) fun _ => ?_
      exact keeps_bind (keeps_lift _) fun _ => keeps_modify fun _ h => h

/-- The part every change ends with. -/
theorem rekey_later (l : Nat) (s : K) : Keeps (LaterThan groupId n) (do
    onTree (GroupTree.setLeaf a l s)
    modify fun st : GroupState K => { st with epoch := st.epoch + 1 }
    GroupState.rederiveGroupSecret a) := by
  refine keeps_bind (onTree_later _) fun _ => ?_
  refine keeps_bind (keeps_modify fun st h => ⟨h.1, ?_⟩) fun _ => rederive_later
  have := h.2
  push_cast
  omega

theorem addMember_later (pk : Bytes) (s : K) :
    Keeps (LaterThan groupId n) (GroupState.addMember a pk s) := by
  refine keeps_get_bind fun st h => ?_
  refine keeps_guard (I := LaterThan groupId n) ?_ st h
  refine keeps_bind (keeps_modify fun _ h => h) fun _ => ?_
  split
  · exact keeps_bind (rebuildTree_later _) fun _ => rekey_later _ s
  · exact rekey_later _ s

theorem removeMember_later (pk : Bytes) (s : K) :
    Keeps (LaterThan groupId n) (GroupState.removeMember a pk s) := by
  refine keeps_get_bind fun st h => ?_
  cases Odict.get? st.members pk with
  | none => exact h
  | some m =>
      refine keeps_bind (I := LaterThan groupId n) (keeps_modify ?_)
        (fun _ => rekey_later (a := a) m.leafIndex s) st h
      exact fun _ h => h

end Changes

/-- No state is lost or put back. -/
def Onward (mgr mgr' : LiveGroupManager K) : Prop :=
  ∀ s groupId n, Leads mgr s groupId n → Leads mgr' s groupId n

theorem Onward.of_eq (h : mgr'.states = mgr.states) : Onward mgr mgr' := by
  intro s g n hlead
  rw [Leads, h]
  exact hlead

theorem Onward.of_append {tail : List (GroupState K)} (h : mgr'.states = mgr.states ++ tail) :
    Onward mgr mgr' := by
  rintro s g n ⟨st, hst, hlead⟩
  refine ⟨st, ?_, hlead⟩
  rw [h, List.getElem?_append_left (List.getElem?_eq_some_iff.mp hst).1]
  exact hst

/-- Changing the state behind a group id changes no reference. -/
theorem withController_onward {x : EStateM Exn (GroupState K) Unit}
    (hx : ∀ g n, Keeps (LaterThan g n) x) (groupId : Bytes) (refusal : String)
    (mgr : LiveGroupManager K) :
    Onward mgr (after (LiveGroupManager.withController groupId refusal x mgr)) ∧
    ∃ states, after (LiveGroupManager.withController groupId refusal x mgr)
      = { mgr with states := states } := by
  rw [LiveGroupManager.withController]
  cases hlookup : mgr.lookup groupId with
  | none => exact ⟨.of_eq rfl, mgr.states, rfl⟩
  | some found =>
      obtain ⟨entry, st⟩ := found
      obtain ⟨-, hst⟩ := lookup_some.mp hlookup
      have honward : ∀ st', st' = after (x st) →
          Onward mgr { mgr with states := mgr.states.set entry.state st' } := by
        rintro st' rfl s g n ⟨st₀, hst₀, hlead⟩
        by_cases hs : entry.state = s
        · subst hs
          obtain rfl : st = st₀ := Option.some.inj (hst.symm.trans hst₀)
          exact ⟨_, List.getElem?_set_self (List.getElem?_eq_some_iff.mp hst).1, hx g n st hlead⟩
        · refine ⟨st₀, ?_, hlead⟩
          rw [List.getElem?_set_ne hs]
          exact hst₀
      dsimp only
      split
      · cases hrun : x st with
        | ok u st' => exact ⟨honward st' (by rw [hrun]; rfl), _, rfl⟩
        | error e st' => exact ⟨honward st' (by rw [hrun]; rfl), _, rfl⟩
      · exact ⟨.of_eq rfl, mgr.states, rfl⟩

/-- Every group id leads to a state of its group, receivers included, and what
was decrypted in a group is either the business of the group's receiver or of
an earlier epoch. -/
structure Settled (σ : GroupClient K C) : Prop where
  own : ∀ g entry, Odict.get? σ.manager.groups g = some entry → Leads σ.manager entry.state g 0
  bound : ∀ g i, Odict.get? σ.manager.receivers g = some i → ∃ entry r,
    Odict.get? σ.manager.groups g = some entry ∧ σ.manager.messengers[i]? = some r ∧
      r.state = entry.state
  home : ∀ e ∈ σ.accepted, Odict.get? σ.manager.receivers e.2.header.groupId = some e.1 ∨
    ∃ entry, Odict.get? σ.manager.groups e.2.header.groupId = some entry ∧
      Leads σ.manager entry.state e.2.header.groupId (e.2.header.epoch + 1)

section Forward

variable {σ : GroupClient K C}

/-- The receiver of a group reads in the state of the group. -/
theorem Settled.receiverFor (h : Settled σ) (hfor : receiverFor σ.manager groupId = some (i, r, st)) :
    st.groupId = groupId ∧ ∃ entry, Odict.get? σ.manager.groups groupId = some entry ∧
      σ.manager.states[entry.state]? = some st ∧ r.state = entry.state ∧
      ∀ j, Odict.get? σ.manager.receivers groupId = some j → i = j := by
  rw [Proofs.receiverFor] at hfor
  cases hlookup : σ.manager.lookup groupId with
  | none => rw [hlookup] at hfor; cases hfor
  | some found =>
      obtain ⟨entry, state⟩ := found
      obtain ⟨hentry, hstate⟩ := lookup_some.mp hlookup
      obtain ⟨st₀, hst₀, hgid, -⟩ := h.own groupId entry hentry
      obtain rfl : state = st₀ := Option.some.inj (hstate.symm.trans hst₀)
      rw [hlookup] at hfor
      cases hcached : Odict.get? σ.manager.receivers groupId with
      | some j =>
          obtain ⟨entry', r', hentry', hr', hbound⟩ := h.bound groupId j hcached
          obtain rfl : entry = entry' := Option.some.inj (hentry.symm.trans hentry')
          have hobj : σ.manager.receiver j = some (r', state) :=
            receiver_some.mpr ⟨hr', hbound ▸ hstate⟩
          obtain ⟨rfl, rfl, rfl⟩ : j = i ∧ r' = r ∧ state = st := by
            simpa [hcached, hobj] using hfor
          refine ⟨hgid, entry, hentry, hstate, hbound, fun j' hj' => Option.some.inj hj'⟩
      | none =>
          cases hk : state.applicationKey with
          | none => simp [hcached, hk] at hfor
          | some k =>
              obtain ⟨rfl, rfl, rfl⟩ : σ.manager.messengers.length = i ∧
                  ⟨{ senderLeafIndex := 0 }, entry.state⟩ = r ∧ state = st := by
                simpa [hcached, hk] using hfor
              exact ⟨hgid, entry, hentry, hstate, rfl, by simp⟩

theorem Settled.sameReceiver (h : Settled σ) (c : Crypto K P C) (call : GroupCall K C) :
    SameReceiver c σ call := by
  cases call with
  | decrypt groupId message ad =>
      rintro e he rfl ⟨j, r, st⟩ hfor ⟨hcurrent, -⟩
      obtain ⟨hgid, entry, hentry, hst, -, hcached⟩ := h.receiverFor hfor
      have hown : e.2.header.groupId = groupId := hcurrent.1.trans hgid
      rcases h.home e he with hhome | ⟨entry', hentry', st', hst', -, hlater⟩
      · rw [hown] at hhome
        exact hcached e.1 hhome
      · -- The state has moved on, and does not take the header.
        rw [hown, hentry] at hentry'
        cases hentry'
        rw [hst] at hst'
        cases hst'
        have hepoch : e.2.header.epoch = st.epoch := hcurrent.2.1
        omega
  | _ => trivial

/-- Where references are as they were and states moved on, all is as it was. -/
theorem Settled.onward (h : Settled σ) {mgr' : LiveGroupManager K}
    (honward : Onward σ.manager mgr') (hgroups : mgr'.groups = σ.manager.groups)
    (hreceivers : mgr'.receivers = σ.manager.receivers)
    (hmessengers : mgr'.messengers = σ.manager.messengers) :
    Settled { σ with manager := mgr' } := by
  refine ⟨fun g entry hentry => ?_, fun g i hi => ?_, fun e he => ?_⟩
  · exact honward _ _ _ (h.own g entry (hgroups ▸ hentry))
  · simp only [hgroups, hmessengers]
    exact h.bound g i (hreceivers ▸ hi)
  · simp only [hgroups, hreceivers]
    rcases h.home e he with hhome | ⟨entry, hentry, hlead⟩
    · exact Or.inl hhome
    · exact Or.inr ⟨entry, hentry, honward _ _ _ hlead⟩

theorem Settled.change (h : Settled σ) {refusal : String} {x : EStateM Exn (GroupState K) Unit}
    (hx : ∀ g n, Keeps (LaterThan g n) x) (groupId : Bytes) : Settled { σ with
      manager := after (LiveGroupManager.withController groupId refusal x σ.manager) } := by
  obtain ⟨honward, states, hsame⟩ := withController_onward hx groupId refusal σ.manager
  rw [hsame] at honward ⊢
  exact h.onward honward rfl rfl rfl

/-- A group id gets a new entry and no receiver. What was decrypted in the
group must be of an earlier epoch than the new state. -/
theorem Settled.assign (h : Settled σ) {mgr' : LiveGroupManager K} {entry : GroupEntry}
    (honward : Onward σ.manager mgr')
    (hgroups : mgr'.groups = Odict.set σ.manager.groups groupId entry)
    (hreceivers : mgr'.receivers = Odict.erase σ.manager.receivers groupId)
    (hmessengers : mgr'.messengers = σ.manager.messengers)
    (hlead : Leads mgr' entry.state groupId 0)
    (hpast : ∀ e ∈ σ.accepted, e.2.header.groupId = groupId →
      Leads mgr' entry.state groupId (e.2.header.epoch + 1)) :
    Settled { σ with manager := mgr' } := by
  refine ⟨fun g entry' hentry => ?_, fun g i hi => ?_, fun e he => ?_⟩
  · simp only [hgroups] at hentry
    by_cases hg : g = groupId
    · subst hg
      rw [Odict.get?_set_self] at hentry
      cases hentry
      exact hlead
    · rw [Odict.get?_set_ne _ hg] at hentry
      exact honward _ _ _ (h.own g entry' hentry)
  · simp only [hreceivers] at hi
    by_cases hg : g = groupId
    · subst hg
      rw [Odict.get?_erase_self] at hi
      cases hi
    · rw [Odict.get?_erase_ne _ hg] at hi
      simp only [hgroups, hmessengers, Odict.get?_set_ne _ hg]
      exact h.bound g i hi
  · simp only [hgroups, hreceivers]
    by_cases hg : e.2.header.groupId = groupId
    · rw [hg, Odict.get?_set_self]
      exact Or.inr ⟨entry, rfl, hpast e he hg⟩
    · rw [Odict.get?_set_ne _ hg, Odict.get?_erase_ne _ hg]
      rcases h.home e he with hhome | ⟨entry', hentry, hlead'⟩
      · exact Or.inl hhome
      · exact Or.inr ⟨entry', hentry, honward _ _ _ hlead'⟩

/-- A group the client is not in has no receiver, and nothing was decrypted in
it. -/
theorem Settled.unknown (h : Settled σ) (hnew : Odict.has σ.manager.groups groupId = false) :
    Odict.get? σ.manager.receivers groupId = none ∧
      ∀ e ∈ σ.accepted, e.2.header.groupId ≠ groupId := by
  have hnone : Odict.get? σ.manager.groups groupId = none := Odict.has_eq_false_iff.mp hnew
  have hidle : Odict.get? σ.manager.receivers groupId = none := by
    cases hi : Odict.get? σ.manager.receivers groupId with
    | none => rfl
    | some i =>
        obtain ⟨entry, r, hentry, -⟩ := h.bound groupId i hi
        rw [hnone] at hentry
        cases hentry
  refine ⟨hidle, ?_⟩
  rintro e he rfl
  rcases h.home e he with hhome | ⟨entry, hentry, -⟩
  · rw [hidle] at hhome
    cases hhome
  · rw [hnone] at hentry
    cases hentry

theorem Settled.create (h : Settled σ) (c : Crypto K P C) (groupId : Bytes)
    (members : List (Bytes × K)) : Settled (σ.step c (.createGroup groupId members)) := by
  rw [GroupClient.step]
  simp only [LiveGroupManager.createGroup, bind_apply, get_apply, ite_run]
  split
  · exact h
  split
  · exact h
  · next hnew =>
      have hnew' : Odict.has σ.manager.groups groupId = false := Bool.eq_false_iff.mpr hnew
      obtain ⟨hidle, hnothing⟩ := h.unknown hnew'
      cases hmade : GroupState.create c.toKeyAlg groupId members with
      | error e => exact h
      | ok state =>
          obtain ⟨-, hgid, -, -⟩ := create_scheduled hmade
          have hno : Odict.has σ.manager.receivers groupId = false :=
            Odict.has_eq_false_iff.mpr hidle
          refine h.assign (.of_append rfl) rfl (Odict.erase_of_not_has hno).symm rfl ?_ ?_
          · exact ⟨state, List.getElem?_concat_length, hgid, Int.natCast_nonneg _⟩
          · exact fun e he hg => absurd hg (hnothing e he)

theorem Settled.join (h : Settled σ) (c : Crypto K P C) {s leaf : Nat}
    (hforward : Forward σ (.joinGroup groupId s leaf)) :
    Settled (σ.step c (.joinGroup groupId s leaf)) := by
  rw [GroupClient.step]
  simp only [LiveGroupManager.joinGroup, bind_apply, get_apply, ite_run]
  split
  · exact h
  · next hnew =>
      obtain ⟨-, hnothing⟩ := h.unknown (Bool.eq_false_iff.mpr hnew)
      exact h.assign (.of_eq rfl) rfl rfl rfl hforward
        fun e he hg => absurd hg (hnothing e he)

theorem Settled.decrypt (h : Settled σ) (c : Crypto K P C) (groupId : Bytes)
    (message : GroupMessage C) (ad : Bytes) :
    Settled (σ.step c (.decrypt groupId message ad)) := by
  rw [GroupClient.step]
  cases hfor : Proofs.receiverFor σ.manager groupId with
  | none =>
      obtain ⟨e, hdec⟩ := receiverDecrypt_none c message ad hfor
      rw [hdec]
      exact h
  | some found =>
      obtain ⟨i, r, st⟩ := found
      obtain ⟨mgr', hfetched, hcall⟩ := receiverDecrypt_some c message ad hfor
      obtain ⟨hgid, entry, hentry, hst, hstate, hcached⟩ := h.receiverFor hfor
      obtain ⟨hi, -⟩ := receiver_some.mp hfetched.found
      have hset : ∀ (m : GroupMessenger) (j : Nat) (r₀ : GroupReceiver),
          mgr'.messengers[j]? = some r₀ → ∃ r' : GroupReceiver,
            (mgr'.messengers.set i { r with messenger := m })[j]? = some r' ∧
              r'.state = r₀.state := by
        intro m j r₀ hj
        by_cases hij : i = j
        · subst hij
          obtain rfl : r = r₀ := Option.some.inj (hi.symm.trans hj)
          exact ⟨_, List.getElem?_set_self (List.getElem?_eq_some_iff.mp hi).1, rfl⟩
        · exact ⟨r₀, by rw [List.getElem?_set_ne hij]; exact hj, rfl⟩
      have hbound : ∀ (m : GroupMessenger) g j, Odict.get? mgr'.receivers g = some j →
          ∃ entry' r', Odict.get? mgr'.groups g = some entry' ∧
            (mgr'.messengers.set i { r with messenger := m })[j]? = some r' ∧
              r'.state = entry'.state := by
        intro m g j hj
        by_cases hg : g = groupId
        · subst hg
          obtain rfl : i = j := Option.some.inj (hfetched.mine.symm.trans hj)
          obtain ⟨r', hr', hstate'⟩ := hset m i r hi
          exact ⟨entry, r', hfetched.groups ▸ hentry, hr', hstate'.trans hstate⟩
        · rw [hfetched.others g hg] at hj
          obtain ⟨entry', r₀, hentry', hr₀, hstate₀⟩ := h.bound g j hj
          obtain ⟨tail, htail⟩ := hfetched.older
          have hj' : mgr'.messengers[j]? = some r₀ := by
            rw [← htail, List.getElem?_append_left (List.getElem?_eq_some_iff.mp hr₀).1]
            exact hr₀
          obtain ⟨r', hr', hstate'⟩ := hset m j r₀ hj'
          exact ⟨entry', r', hfetched.groups ▸ hentry', hr', hstate'.trans hstate₀⟩
      have honward : Onward σ.manager mgr' := .of_eq hfetched.states
      have hown : ∀ g entry', Odict.get? mgr'.groups g = some entry' →
          Leads mgr' entry'.state g 0 := fun g entry' hentry' =>
        honward _ _ _ (h.own g entry' (hfetched.groups ▸ hentry'))
      have hhome : ∀ e ∈ σ.accepted,
          Odict.get? mgr'.receivers e.2.header.groupId = some e.1 ∨ ∃ entry',
            Odict.get? mgr'.groups e.2.header.groupId = some entry' ∧
              Leads mgr' entry'.state e.2.header.groupId (e.2.header.epoch + 1) := by
        intro e he
        rcases h.home e he with hhome | ⟨entry', hentry', hlead⟩
        · left
          by_cases hg : e.2.header.groupId = groupId
          · rw [hg] at hhome ⊢
            rw [hfetched.mine, hcached _ hhome]
          · rw [hfetched.others _ hg]
            exact hhome
        · exact Or.inr ⟨entry', hfetched.groups ▸ hentry', honward _ _ _ hlead⟩
      rw [hcall]
      cases hdec : GroupMessenger.decrypt c st message ad r.messenger with
      | error e m => exact ⟨hown, hbound m, hhome⟩
      | ok plaintext m =>
          refine ⟨hown, hbound m, fun e he => ?_⟩
          rcases List.mem_cons.mp he with rfl | he
          · left
            obtain ⟨hcurrent, -⟩ := decrypt_ok_iff.mp (congrArg value? hdec)
            rw [hcurrent.1, hgid]
            exact hfetched.mine
          · exact hhome e he

theorem Settled.step (h : Settled σ) (c : Crypto K P C) {call : GroupCall K C}
    (hforward : Forward σ call) : Settled (σ.step c call) := by
  cases call with
  | arrive state => exact h.onward (.of_append rfl) rfl rfl rfl
  | createGroup groupId members => exact h.create c groupId members
  | joinGroup groupId s leaf => exact h.join c hforward
  | setState groupId s leaf =>
      exact h.assign (.of_eq rfl) rfl rfl rfl hforward.1 hforward.2
  | addGroupMember groupId memberId secret =>
      exact h.change (fun g n => addMember_later memberId secret) groupId
  | removeGroupMember groupId memberId secret =>
      exact h.change (fun g n => removeMember_later memberId secret) groupId
  | decrypt groupId message ad => exact h.decrypt c groupId message ad

/-- A manager that only moves its groups forward decrypts nothing twice. -/
theorem forward_keeps_receivers (c : Crypto K P C) (identityPk : Bytes)
    {calls : List (GroupCall K C)}
    (h : Along (GroupClient.step c) Forward { manager := { identityPk := identityPk } } calls) :
    Along (GroupClient.step c) (SameReceiver c) { manager := { identityPk := identityPk } } calls := by
  have hstart : Settled ({ manager := { identityPk := identityPk } } : GroupClient K C) :=
    ⟨nofun, nofun, nofun⟩
  exact Along.strengthen (I := Settled)
    (fun σ call hs hf => ⟨hs.step c hf, hs.sameReceiver c call⟩) hstart h

end Forward

/-! ## Concrete managers -/

/-- A message of member 1 of the sample group. -/
def sampleGroupLetter : GroupMessage Bytes :=
  match GroupMessenger.encrypt sampleCrypto sampleRoom [104] [] { senderLeafIndex := 1 } with
  | .ok message _ => message
  | .error _ _ => ⟨⟨[], 0, 0, 0⟩, []⟩

/-- The manager of member 0, who made the sample group. -/
def sampleCreator : GroupClient Bytes Bytes where
  manager := { identityPk := [1] }

/-- The message comes twice to one receiver, and again when a third member has
come and the state has been set anew. -/
theorem group_replay_kept_sample :
    Along (GroupClient.step sampleCrypto) (SameReceiver sampleCrypto) sampleCreator
        [.createGroup [7] [([1], mix [1]), ([2], mix [2])], .decrypt [7] sampleGroupLetter [],
          .decrypt [7] sampleGroupLetter [], .addGroupMember [7] [3] (mix [3]),
          .setState [7] 0 0, .decrypt [7] sampleGroupLetter []] ∧
      ((runFrom (GroupClient.step sampleCrypto) sampleCreator
        [.createGroup [7] [([1], mix [1]), ([2], mix [2])], .decrypt [7] sampleGroupLetter [],
          .decrypt [7] sampleGroupLetter [], .addGroupMember [7] [3] (mix [3]),
          .setState [7] 0 0, .decrypt [7] sampleGroupLetter []]).accepted.map (·.2)).Nodup := by
  have hsame : Along (GroupClient.step sampleCrypto) (SameReceiver sampleCrypto) sampleCreator
      [.createGroup [7] [([1], mix [1]), ([2], mix [2])], .decrypt [7] sampleGroupLetter [],
        .decrypt [7] sampleGroupLetter [], .addGroupMember [7] [3] (mix [3]),
        .setState [7] 0 0, .decrypt [7] sampleGroupLetter []] := by decide +kernel
  exact ⟨hsame, group_replay_kept { identityPk := [1] } _ hsame⟩

/-- The state is set to what it was and the message comes again; or one state
goes by two group ids. -/
theorem dropped_receiver_forgets :
    ¬ ((runFrom (GroupClient.step sampleCrypto) sampleCreator
        [.createGroup [7] [([1], mix [1]), ([2], mix [2])], .decrypt [7] sampleGroupLetter [],
          .setState [7] 0 0, .decrypt [7] sampleGroupLetter []]).accepted.map (·.2)).Nodup ∧
    ¬ ((runFrom (GroupClient.step sampleCrypto) sampleCreator
        [.arrive sampleRoom, .joinGroup [7] 0 0, .joinGroup [8] 0 0,
          .decrypt [7] sampleGroupLetter [],
          .decrypt [8] sampleGroupLetter []]).accepted.map (·.2)).Nodup := by
  exact ⟨by decide +kernel, by decide +kernel⟩

end GhostChat.Proofs
