import GhostChat.Proofs.Room
import GhostChat.Ref.MessageApi

/-!
# Texts in a group

`send_group_text` makes a messenger at every call, so every text of a member
has the counter zero, and its receivers know a text by leaf and counter. The
second text of a member is a replay to whoever has read the first. It is put
back at the head of the inbox, where it is tried again for ever, and what is
behind it stays there.

Before that nothing is lost: an inbox and what was read from it are what was
sent, in order. So everything arrives exactly as long as nobody has sent twice
when somebody reads.
-/

namespace GhostChat.Proofs

open GhostChat.Lib GhostChat.Lib.Effect GhostChat.Ref

variable {K P : Type} {c : Crypto K P Bytes} {st : GroupState K} {groupId : Bytes}

/-! ## The envelope survives its encoding -/

theorem groupMessage_fromDict_toDict {m : GroupMessage Bytes} (hepoch : 1 ≤ m.header.epoch)
    (hleaf : 0 ≤ m.header.senderLeafIndex) (hcounter : 0 ≤ m.header.counter) :
    GroupMessage.fromDict m.toDict = .ok m := by
  have hvalid : ¬ (m.header.epoch < initialEpoch ∨ m.header.senderLeafIndex < 0 ∨
      m.header.counter < 0) := by
    rw [initialEpoch]
    omega
  have hdec : ∀ b : Bytes, b64uDecode (.str (b64Encode b)) = .ok b := by
    intro b
    rw [b64uDecode, b64Decode_b64Encode]
  have hread : GroupMessage.readFields m.toDict = .ok m := by
    simp [GroupMessage.readFields, GroupMessage.toDict, Json.item, Odict.get?, hdec, Json.toInt]
  simp only [GroupMessage.fromDict, hread, except_ok_bind, if_neg hvalid]
  rfl

theorem groupMessageEnvelope_roundtrip (hgid : groupId ≠ []) (payload : List (String × Json)) :
    groupMessageEnvelopeFromDict (groupMessageEnvelopeToDict groupId payload)
      = .ok (groupId, payload) := by
  have hne := b64Encode_ne_empty hgid
  have hdec : b64uDecode (.str (b64Encode groupId)) = .ok groupId := by
    rw [b64uDecode, b64Decode_b64Encode]
  simp [groupMessageEnvelopeFromDict, groupMessageEnvelopeToDict, Json.get, Odict.get?,
    Json.truthy, hne, hdec]

/-! ## What is in an inbox -/

/-- A group state that has come about: a key, a name, an epoch. -/
structure Underway (c : Crypto K P Bytes) (st : GroupState K) : Prop where
  keyed : Keyed c.toKeyAlg st
  named : st.groupId ≠ []
  epoch : 1 ≤ st.epoch

theorem Underway.create (hlen : ∀ i s f b, (c.bytes (c.hkdf i s f b)).length = 32)
    {ms : List (Bytes × K)} (h : GroupState.create c.toKeyAlg groupId ms = .ok st) :
    Underway c st := by
  obtain ⟨-, hgid, hepoch, -⟩ := create_scheduled h
  refine ⟨create_keyed hlen h, ?_, by rw [hepoch, initialEpoch]⟩
  rw [hgid]
  rintro rfl
  cases h

theorem Underway.call (hlen : ∀ i s f b, (c.bytes (c.hkdf i s f b)).length = 32)
    (h : Underway c st) (op : GroupOp K) : Underway c (after (st.call c.toKeyAlg op)) := by
  obtain ⟨hkeyed, -⟩ := call_orNext hlen op h.keyed
  obtain ⟨hgid, hlater⟩ := call_later c.toKeyAlg st op
  have hepoch := h.epoch
  refine ⟨hkeyed, ?_, by omega⟩
  rw [hgid]
  exact h.named

/-- The envelope of a text of the member with the leaf. -/
def Carries (c : Crypto K P Bytes) (st : GroupState K) (leaf : Nat) (text : String)
    (envelope : Json) : Prop :=
  ∃ msg : GroupMessage Bytes, envelope = groupMessageEnvelopeToDict st.groupId msg.toDict ∧
    msg.header = ⟨st.groupId, st.epoch, leaf, 0⟩ ∧
    openMessage c st msg [] = .ok (utf8Encode text)

/-- Somebody has the leaf. -/
def HasLeaf (st : GroupState K) (leaf : Nat) : Prop :=
  (st.members.any fun e => (e.2.leafIndex : Int) = leaf) = true

/-- A messenger that has marked some keys, newest first. -/
def marked (m : GroupMessenger) (keys : List (Int × Int)) : GroupMessenger :=
  { m with replayCache := { m.replayCache with seen := keys ++ m.replayCache.seen } }

/-- A message of the group's epoch, from a leaf that is taken, that opens to a
text. -/
structure Legible (c : Crypto K P Bytes) (st : GroupState K) (envelope : Json) (key : Int × Int)
    (text : String) : Prop where
  reads : ∃ gid payload msg plaintext,
    groupMessageEnvelopeFromDict envelope = .ok (gid, payload) ∧
      GroupMessage.fromDict payload = .ok msg ∧ Current st msg.header ∧
      cacheKey msg.header = key ∧ openMessage c st msg [] = .ok plaintext ∧
      decodeUtf8 plaintext = .ok text

/-- It is read by a receiver that does not know its key. -/
theorem Legible.read {envelope : Json} {key : Int × Int} {text : String}
    (h : Legible c st envelope key text) (m : GroupMessenger) :
    if Admits m.replayCache key then
      readGroupEnvelope c st envelope m = .ok text (marked m [key])
    else ∃ e, readGroupEnvelope c st envelope m = .error e m := by
  obtain ⟨gid, payload, msg, plaintext, henv, hmsg, hcurrent, rfl, hopen, htext⟩ := h.reads
  simp only [readGroupEnvelope, henv, hmsg, bind_apply, lift_ok]
  rcases decrypt_cases c st msg [] m with
    ⟨hnot, -⟩ | ⟨-, hnot, e, hdec⟩ | ⟨-, hadmits, hdec⟩
  · exact absurd hcurrent hnot
  · rw [if_neg hnot, hdec]
    exact ⟨e, rfl⟩
  · rw [if_pos hadmits, hdec, hopen]
    simp only [lift_ok, htext]
    rfl

theorem Carries.legible (hst : Underway c st) {leaf : Nat} (hleaf : HasLeaf st leaf)
    {text : String} {envelope : Json} (h : Carries c st leaf text envelope) :
    Legible c st envelope (leaf, 0) text := by
  obtain ⟨msg, rfl, hheader, hopen⟩ := h
  have hcurrent : Current st msg.header := by
    rw [hheader]
    exact ⟨rfl, rfl, hleaf⟩
  have hkey : cacheKey msg.header = (↑leaf, 0) := by
    rw [hheader]
    rfl
  have hmsg : GroupMessage.fromDict msg.toDict = .ok msg := by
    have hepoch := hst.epoch
    refine groupMessage_fromDict_toDict ?_ ?_ ?_ <;> rw [hheader] <;> dsimp only <;> omega
  exact ⟨_, _, msg, _, groupMessageEnvelope_roundtrip hst.named _, hmsg, hcurrent, hkey, hopen,
    decodeUtf8_utf8Encode text⟩

/-- What a receiver knows a text by that was sent with a leaf. -/
def textKey (leafOf : String → Nat) (s : String × String) : Int × Int := (leafOf s.1, 0)

theorem textKey_nodup {leafOf : String → Nat} {sent : List (String × String)} :
    (sent.map (textKey leafOf)).Nodup ↔ (sent.map fun s => leafOf s.1).Nodup := by
  have hmap : sent.map (textKey leafOf)
      = (sent.map fun s => leafOf s.1).map fun leaf : Nat => ((leaf : Int), (0 : Int)) := by
    rw [List.map_map]
    rfl
  rw [hmap]
  refine List.nodup_map_iff ?_
  intro a b hab
  exact Int.natCast_inj.mp (congrArg Prod.fst hab)

theorem recvGroupLoop_cons (envelope : Json) (inbox : List Json) (out : List String)
    (m : GroupMessenger) : recvGroupLoop c st (envelope :: inbox) out m =
      match readGroupEnvelope c st envelope m with
      | .ok text m' => recvGroupLoop c st inbox (out ++ [text]) m'
      | .error _ m' => .ok (out, envelope :: inbox) m' := rfl

/-- The loop reads up to the first text whose key is known. -/
theorem recvGroupLoop_carries (hst : Underway c st) {leafOf : String → Nat}
    {sent : List (String × String)} {inbox : List Json}
    (h : List.Forall₂ (fun s => Carries c st (leafOf s.1) s.2) sent inbox)
    (hleaf : ∀ s ∈ sent, HasLeaf st (leafOf s.1)) (out : List String) (m : GroupMessenger)
    (hroom : m.replayCache.seen.length + sent.length ≤ m.replayCache.maxEntries) :
    ∃ n, n ≤ sent.length ∧
      recvGroupLoop c st inbox out m = .ok (out ++ (sent.take n).map (·.2), inbox.drop n)
        (marked m ((sent.take n).map (textKey leafOf)).reverse) ∧
      (n = sent.length ↔ (sent.map (textKey leafOf)).Nodup ∧
        ∀ s ∈ sent, textKey leafOf s ∉ m.replayCache.seen) := by
  induction h generalizing out m with
  | nil => exact ⟨0, le_refl _, by simp [recvGroupLoop, marked], by simp⟩
  | @cons s envelope sent inbox hcarries _ ih =>
      have hread := (hcarries.legible hst (hleaf s List.mem_cons_self)).read m
      rw [List.length_cons] at hroom
      by_cases hadmits : Admits m.replayCache (textKey leafOf s)
      · rw [textKey] at hadmits
        rw [if_pos hadmits] at hread
        obtain ⟨n, hn, hloop, hall⟩ := ih (fun s hs => hleaf s (List.mem_cons_of_mem _ hs))
          (out ++ [s.2]) (marked m [textKey leafOf s]) (by
            show (textKey leafOf s :: m.replayCache.seen).length + sent.length
              ≤ m.replayCache.maxEntries
            rw [List.length_cons]
            omega)
        refine ⟨n + 1, Nat.succ_le_succ hn, ?_, ?_⟩
        · rw [recvGroupLoop_cons, hread]
          refine hloop.trans ?_
          simp [marked]
        · rw [List.length_cons, Nat.add_right_cancel_iff, hall, List.map_cons, List.nodup_cons]
          have hnew : textKey leafOf s ∉ m.replayCache.seen := hadmits.1
          simp only [marked, List.singleton_append, List.mem_map, List.mem_cons, not_or,
            forall_eq_or_imp]
          constructor
          · rintro ⟨hnodup, hfresh⟩
            refine ⟨⟨?_, hnodup⟩, hnew, fun s' hs' => (hfresh s' hs').2⟩
            rintro ⟨s', hs', heq⟩
            exact (hfresh s' hs').1 heq
          · rintro ⟨⟨hnot, hnodup⟩, -, hfresh⟩
            exact ⟨hnodup, fun s' hs' => ⟨fun heq => hnot ⟨s', hs', heq⟩, hfresh s' hs'⟩⟩
      · have hold : textKey leafOf s ∈ m.replayCache.seen := by
          by_contra hnew
          exact hadmits ⟨hnew, by omega⟩
        rw [textKey] at hadmits
        rw [if_neg hadmits] at hread
        obtain ⟨e, hread⟩ := hread
        refine ⟨0, Nat.zero_le _, ?_, ?_⟩
        · rw [recvGroupLoop_cons, hread]
          simp [marked]
        · refine iff_of_false (by simp) ?_
          rintro ⟨-, hfresh⟩
          exact hfresh s List.mem_cons_self hold

/-! ## A member's endpoint -/

/-- The group inbox of an endpoint. -/
def waiting (groupId : Bytes) (e : InMemoryEndpoint K P) : List Json :=
  (Odict.get? e.groupInbox groupId).getD []

/-- The manager leads to the state and to a leaf of its own, and the receiver
it has for the group, or makes when it is asked, has marked these keys. -/
structure Knows (st : GroupState K) (leaf : Nat) (keys : List (Int × Int))
    (mgr : LiveGroupManager K) : Prop where
  entry : ∃ entry, mgr.lookup st.groupId = some (entry, st) ∧ entry.myLeafIndex = leaf
  receiver : ∃ i r, receiverFor mgr st.groupId = some (i, r, st) ∧
    r.messenger.replayCache = { seen := keys }

/-- A manager that holds the state and has made no receiver for the group. -/
theorem Knows.fresh (hst : Underway c st) {mgr : LiveGroupManager K} {entry : GroupEntry}
    (hentry : mgr.lookup st.groupId = some (entry, st))
    (hnone : Odict.get? mgr.receivers st.groupId = none) :
    Knows st entry.myLeafIndex [] mgr := by
  refine ⟨⟨entry, hentry, rfl⟩, ?_⟩
  obtain ⟨k, hk, -⟩ := hst.keyed
  exact ⟨mgr.messengers.length, ⟨{ senderLeafIndex := 0 }, entry.state⟩, by
    simp [receiverFor, hentry, hnone, hk], rfl⟩

/-- What one call of `recv_group_text` does to the manager, said of the
messenger that does it. -/
theorem readGroupInbox_loop {mgr : LiveGroupManager K} {i : Nat} {r : GroupReceiver}
    (hfor : receiverFor mgr groupId = some (i, r, st)) {inbox : List Json} {out : List String}
    {left : List Json} {m : GroupMessenger}
    (hloop : recvGroupLoop c st inbox [] r.messenger = .ok (out, left) m) :
    ∃ mgr', readGroupInbox c groupId inbox mgr = .ok (some (out, left)) mgr' ∧
      mgr'.lookup groupId = mgr.lookup groupId ∧
      receiverFor mgr' groupId = some (i, { r with messenger := m }, st) := by
  obtain ⟨mgr', hget, hfetched⟩ := getReceiver_some hfor
  obtain ⟨hi, hstate⟩ := receiver_some.mp hfetched.found
  let r' : GroupReceiver := { r with messenger := m }
  let after' := { mgr' with messengers := mgr'.messengers.set i r' }
  have hlookup : after'.lookup groupId = mgr.lookup groupId := by
    simp only [LiveGroupManager.lookup, after', hfetched.groups, hfetched.states]
  have hreceiver : after'.receiver i = some (r', st) :=
    receiver_some.mpr ⟨List.getElem?_set_self (List.getElem?_eq_some_iff.mp hi).1, hstate⟩
  have hmine : Odict.get? after'.receivers groupId = some i := hfetched.mine
  refine ⟨after', ?_, hlookup, ?_⟩
  · simp only [readGroupInbox, bind_apply, hget, LiveGroupManager.onReceiver, hfetched.found,
      hloop, pure_apply]
    rfl
  · rw [receiverFor] at hfor ⊢
    rw [hlookup]
    cases hentry : mgr.lookup groupId with
    | none => rw [hentry] at hfor; cases hfor
    | some found => simp [hmine, hreceiver, r']

theorem Knows.read {leaf : Nat} {keys : List (Int × Int)} {mgr : LiveGroupManager K}
    (h : Knows st leaf keys mgr) (c : Crypto K P Bytes) (inbox : List Json) :
    ∃ m : GroupMessenger, m.replayCache = { seen := keys } ∧
      ∀ out left new, recvGroupLoop c st inbox [] m = .ok (out, left) (marked m new) →
        ∃ mgr', readGroupInbox c st.groupId inbox mgr = .ok (some (out, left)) mgr' ∧
          Knows st leaf (new ++ keys) mgr' := by
  obtain ⟨⟨entry, hentry, hleaf⟩, i, r, hfor, hcache⟩ := h
  refine ⟨r.messenger, hcache, fun out left new hloop => ?_⟩
  obtain ⟨mgr', hcall, hlookup, hfor'⟩ := readGroupInbox_loop hfor hloop
  refine ⟨mgr', hcall, ⟨entry, hlookup.trans hentry, hleaf⟩, i, _, hfor', ?_⟩
  show { r.messenger.replayCache with seen := new ++ r.messenger.replayCache.seen } = _
  rw [hcache]

/-- A member's endpoint once the first `k` of the texts sent have been read. -/
structure Caught (c : Crypto K P Bytes) (st : GroupState K) (leafOf : String → Nat)
    (profile : String) (sent : List (String × String)) (k : Nat) (e : InMemoryEndpoint K P) :
    Prop where
  manager : ∃ mgr, e.groupManager = some mgr ∧
    Knows st (leafOf profile) ((sent.take k).map (textKey leafOf)).reverse mgr
  inbox : List.Forall₂ (fun s => Carries c st (leafOf s.1) s.2) (sent.drop k)
    (waiting st.groupId e)

section Caught

variable {leafOf : String → Nat} {profile : String} {sent : List (String × String)} {k : Nat}
  {e : InMemoryEndpoint K P}

/-- `recv_group_text` reads on, to the end if there is no leaf twice. -/
theorem Caught.recv (hst : Underway c st) (h : Caught c st leafOf profile sent k e)
    (hk : k ≤ sent.length) (hleaf : ∀ s ∈ sent, HasLeaf st (leafOf s.1))
    (hnodup : ((sent.take k).map (textKey leafOf)).Nodup) (hfew : sent.length < 2048) :
    ∃ n e', k ≤ n ∧ n ≤ sent.length ∧
      InMemoryEndpoint.recvGroupText c st.groupId e =
        .ok (((sent.take n).drop k).map (·.2)) e' ∧
      Caught c st leafOf profile sent n e' ∧
      (n = sent.length ↔ (sent.map (textKey leafOf)).Nodup) := by
  obtain ⟨⟨mgr, hmgr, hknows⟩, hinbox⟩ := h
  obtain ⟨m, hcache, hread⟩ := hknows.read c (waiting st.groupId e)
  have hroom : m.replayCache.seen.length + (sent.drop k).length ≤ m.replayCache.maxEntries := by
    rw [hcache, List.length_reverse, List.length_map, List.length_take, List.length_drop]
    show min k sent.length + (sent.length - k) ≤ 2048
    omega
  obtain ⟨n, hn, hloop, hall⟩ := recvGroupLoop_carries hst hinbox
    (fun s hs => hleaf s (List.mem_of_mem_drop hs)) [] m hroom
  obtain ⟨mgr', hcall, hknows'⟩ := hread _ _ _ hloop
  rw [List.length_drop] at hn hall
  have htake : sent.take (k + n) = sent.take k ++ (sent.drop k).take n := List.take_add
  have hsplit : sent.map (textKey leafOf)
      = (sent.take k).map (textKey leafOf) ++ (sent.drop k).map (textKey leafOf) := by
    rw [← List.map_append, List.take_append_drop]
  let e' : InMemoryEndpoint K P := { e with
    groupManager := some mgr'
    groupInbox :=
      if Odict.has e.groupInbox st.groupId then
        Odict.set e.groupInbox st.groupId ((waiting st.groupId e).drop n)
      else e.groupInbox }
  have hwaiting : waiting st.groupId e' = (waiting st.groupId e).drop n := by
    by_cases hhas : Odict.has e.groupInbox st.groupId = true
    · simp only [e', waiting, if_pos hhas, Odict.get?_set_self]
      rfl
    · have hnone : Odict.get? e.groupInbox st.groupId = none :=
        Odict.has_eq_false_iff.mp (Bool.eq_false_iff.mpr hhas)
      simp only [e', waiting, if_neg hhas, hnone]
      exact List.drop_nil.symm
  refine ⟨k + n, e', Nat.le_add_right _ _, by omega, ?_, ⟨⟨mgr', rfl, ?_⟩, ?_⟩, ?_⟩
  · have htexts : (sent.take (k + n)).drop k = (sent.drop k).take n := by
      rw [List.drop_take, Nat.add_sub_cancel_left]
    rw [htexts]
    simp only [waiting] at hcall
    simp only [InMemoryEndpoint.recvGroupText, hmgr, hcall]
    rfl
  · rw [htake, List.map_append, List.reverse_append]
    exact hknows'
  · rw [← List.drop_drop, hwaiting]
    exact List.forall₂_drop n hinbox
  · have hend : k + n = sent.length ↔ n = sent.length - k := by omega
    have hseen : ∀ key, key ∈ m.replayCache.seen ↔ key ∈ (sent.take k).map (textKey leafOf) := by
      intro key
      rw [hcache]
      exact List.mem_reverse
    rw [hend, hall, hsplit, List.nodup_append]
    constructor
    · rintro ⟨hdrop, hfresh⟩
      refine ⟨hnodup, hdrop, fun a ha b hb hab => ?_⟩
      obtain ⟨s, hs, rfl⟩ := List.mem_map.mp hb
      exact hfresh s hs ((hseen _).mpr (hab ▸ ha))
    · rintro ⟨-, hdrop, hapart⟩
      refine ⟨hdrop, fun s hs hold => ?_⟩
      exact hapart _ ((hseen _).mp hold) _ (List.mem_map_of_mem hs) rfl

/-- A text that is put into the inbox of a member. -/
theorem Caught.append (h : Caught c st leafOf profile sent k e) (hk : k ≤ sent.length)
    {s : String × String} {envelope : Json} (hnew : Carries c st (leafOf s.1) s.2 envelope) :
    Caught c st leafOf profile (sent ++ [s]) k { e with
      groupInbox := Odict.set e.groupInbox st.groupId (waiting st.groupId e ++ [envelope]) } := by
  obtain ⟨hmanager, hinbox⟩ := h
  refine ⟨?_, ?_⟩
  · rw [List.take_append_of_le_length hk]
    exact hmanager
  · rw [List.drop_append_of_le_length hk, waiting, Odict.get?_set_self]
    exact List.rel_append hinbox (.cons hnew .nil)

end Caught

/-! ## Sending -/

/-- What a member's call encrypts opens for everybody. -/
theorem groupMessageOf_carries (hinv : AeadInverse c) {leaf : Nat} {keys : List (Int × Int)}
    {mgr : LiveGroupManager K} {e : InMemoryEndpoint K P} (hmgr : e.groupManager = some mgr)
    (h : Knows st leaf keys mgr) {text : String} {msg : GroupMessage Bytes}
    (hmsg : Endpoints.groupMessageOf c e st.groupId text = .ok msg) :
    Carries c st leaf text (groupMessageEnvelopeToDict st.groupId msg.toDict) := by
  obtain ⟨entry, hentry, rfl⟩ := h.entry
  simp only [Endpoints.groupMessageOf, hmgr, LiveGroupManager.getMessenger, hentry] at hmsg
  cases hnew : GroupMessenger.new st entry.myLeafIndex with
  | error exn => rw [hnew] at hmsg; cases hmsg
  | ok m =>
      rw [hnew] at hmsg
      have hm : m = { senderLeafIndex := entry.myLeafIndex } := by
        rw [GroupMessenger.new] at hnew
        split at hnew
        · cases hnew
        · exact (Except.ok.inj hnew).symm
      subst hm
      simp only [except_ok_bind, pure_bind] at hmsg
      cases henc : GroupMessenger.encrypt c st (utf8Encode text) []
          { senderLeafIndex := entry.myLeafIndex } with
      | error exn m' => rw [henc] at hmsg; cases hmsg
      | ok msg' m' =>
          rw [henc] at hmsg
          obtain rfl : msg' = msg := Except.ok.inj hmsg
          obtain ⟨hheader, -, hopen⟩ := encrypt_ok hinv henc
          exact ⟨msg', rfl, hheader, hopen⟩

/-- An envelope goes once into the inbox of everybody it is sent to. -/
theorem get?_appendGroup (groupId : Bytes) (envelope : Json) {profile : String} :
    ∀ (memberProfiles : List String) (endpoints : Endpoints K P), memberProfiles.Nodup →
      Odict.get? (memberProfiles.foldl (appendGroup groupId envelope) endpoints) profile =
        if profile ∈ memberProfiles then (Odict.get? endpoints profile).map fun e => { e with
          groupInbox := Odict.set e.groupInbox groupId (waiting groupId e ++ [envelope]) }
        else Odict.get? endpoints profile
  | [], endpoints, _ => rfl
  | p :: rest, endpoints, hnodup => by
      obtain ⟨hnot, hrest⟩ := List.nodup_cons.mp hnodup
      rw [List.foldl_cons, get?_appendGroup groupId envelope rest _ hrest]
      have hhead : Odict.get? (appendGroup groupId envelope endpoints p) profile =
          if profile = p then (Odict.get? endpoints profile).map fun e => { e with
            groupInbox := Odict.set e.groupInbox groupId (waiting groupId e ++ [envelope]) }
          else Odict.get? endpoints profile := by
        rw [appendGroup]
        by_cases hp : profile = p
        · subst hp
          cases hget : Odict.get? endpoints profile with
          | none => simp [hget]
          | some e => simp [Odict.get?_set_self, waiting]
        · cases hget : Odict.get? endpoints p with
          | none => simp [hp]
          | some e => simp [hp, Odict.get?_set_ne]
      rw [hhead]
      by_cases hp : profile = p
      · subst hp
        simp [hnot]
      · simp [hp]

/-! ## A group that talks and reads -/

/-- The members' profiles with their leaves, each with an endpoint whose group
manager holds the state and has been asked for no receiver yet, and nothing in
the group inbox. -/
structure Registered (st : GroupState K) (leafOf : String → Nat) (profiles : List String)
    (endpoints : Endpoints K P) : Prop where
  nodup : profiles.Nodup
  endpoint : ∀ p ∈ profiles, HasLeaf st (leafOf p) ∧
    ∃ e mgr entry, Odict.get? endpoints p = some e ∧ e.groupManager = some mgr ∧
      mgr.lookup st.groupId = some (entry, st) ∧ entry.myLeafIndex = leafOf p ∧
      Odict.get? mgr.receivers st.groupId = none ∧ waiting st.groupId e = []

/-- Members send to all members and members read, with fewer than 2048 messages
in all. -/
def GroupTraffic (profiles : List String) (σ : GroupChat K P) : ChatAct → Prop
  | .send profile _ memberProfiles =>
      profile ∈ profiles ∧ memberProfiles.Perm profiles ∧ σ.sent.length + 1 < 2048
  | .recv profile => profile ∈ profiles

/-- A call of `recv_group_text` brings what the member has been given up to
what was sent. -/
def AllReceived (c : Crypto K P Bytes) (groupId : Bytes) (σ : GroupChat K P) : ChatAct → Prop
  | .recv profile => (σ.step c groupId (.recv profile)).received profile = σ.sent.map (·.2)
  | .send _ _ _ => True

/-- When somebody reads, nobody has sent twice. -/
def SentOnceEach (leafOf : String → Nat) (σ : GroupChat K P) : ChatAct → Prop
  | .recv _ => (σ.sent.map fun s => leafOf s.1).Nodup
  | .send _ _ _ => True

instance GroupTraffic.decidable (profiles : List String) (σ : GroupChat K P) :
    (act : ChatAct) → Decidable (GroupTraffic profiles σ act)
  | .send _ _ _ => inferInstanceAs (Decidable (_ ∧ _ ∧ _))
  | .recv profile => inferInstanceAs (Decidable (profile ∈ profiles))

instance AllReceived.decidable (c : Crypto K P Bytes) (groupId : Bytes) (σ : GroupChat K P) :
    (act : ChatAct) → Decidable (AllReceived c groupId σ act)
  | .recv _ => inferInstanceAs (Decidable (_ = _))
  | .send _ _ _ => isTrue trivial

instance SentOnceEach.decidable (leafOf : String → Nat) (σ : GroupChat K P) :
    (act : ChatAct) → Decidable (SentOnceEach leafOf σ act)
  | .recv _ => inferInstanceAs (Decidable (List.Nodup _))
  | .send _ _ _ => isTrue trivial

/-- Every member has been given the first texts of those that were sent, with
no leaf twice among them, and the others wait in its inbox. -/
structure ChatBooks (c : Crypto K P Bytes) (st : GroupState K) (leafOf : String → Nat)
    (profiles : List String) (σ : GroupChat K P) : Prop where
  leaves : ∀ s ∈ σ.sent, HasLeaf st (leafOf s.1)
  few : σ.sent.length < 2048
  caught : ∀ p ∈ profiles, ∃ e k, Odict.get? σ.endpoints p = some e ∧ k ≤ σ.sent.length ∧
    Caught c st leafOf p σ.sent k e ∧ σ.received p = (σ.sent.take k).map (·.2) ∧
    ((σ.sent.take k).map (textKey leafOf)).Nodup

section Chat

variable {leafOf : String → Nat} {profiles : List String} {σ : GroupChat K P}

theorem ChatBooks.start (hst : Underway c st) {endpoints : Endpoints K P}
    (h : Registered st leafOf profiles endpoints) :
    ChatBooks c st leafOf profiles { endpoints := endpoints } := by
  refine ⟨nofun, Nat.zero_lt_succ _, fun p hp => ?_⟩
  obtain ⟨-, e, mgr, entry, he, hmgr, hentry, hleaf, hnone, hempty⟩ := h.endpoint p hp
  have hknows := Knows.fresh hst hentry hnone
  rw [hleaf] at hknows
  refine ⟨e, 0, he, le_refl _, ⟨⟨mgr, hmgr, hknows⟩, ?_⟩, rfl, .nil⟩
  rw [hempty]
  exact .nil

theorem ChatBooks.send (hinv : AeadInverse c) (hnodup : profiles.Nodup)
    (hleaf : ∀ p ∈ profiles, HasLeaf st (leafOf p)) (h : ChatBooks c st leafOf profiles σ)
    {profile text : String} {memberProfiles : List String}
    (hact : GroupTraffic profiles σ (.send profile text memberProfiles)) :
    ChatBooks c st leafOf profiles (σ.step c st.groupId (.send profile text memberProfiles)) := by
  obtain ⟨hmember, hperm, hfew⟩ := hact
  obtain ⟨e, k, he, -, hcaught, -, -⟩ := h.caught profile hmember
  obtain ⟨mgr, hmgr, hknows⟩ := hcaught.manager
  simp only [GroupChat.step, Endpoints.sendGroupText, bind_apply, get_apply, he]
  cases hmsg : Endpoints.groupMessageOf c e st.groupId text with
  | error exn => exact h
  | ok msg =>
      have hcarries := groupMessageOf_carries hinv hmgr hknows hmsg
      simp only [lift_ok, modify_apply]
      refine ⟨?_, ?_, fun p hp => ?_⟩
      · intro s hs
        rcases List.mem_append.mp hs with hs | hs
        · exact h.leaves s hs
        · rw [List.mem_singleton.mp hs]
          exact hleaf profile hmember
      · rw [List.length_append]
        exact hfew
      · obtain ⟨e', k', he', hk', hcaught', hreceived, hkeys⟩ := h.caught p hp
        refine ⟨_, k', ?_, ?_, hcaught'.append hk' hcarries, ?_, ?_⟩
        · rw [get?_appendGroup _ _ _ _ (hperm.nodup_iff.mpr hnodup),
            if_pos (hperm.mem_iff.mpr hp), he']
          rfl
        · rw [List.length_append]
          omega
        · rw [List.take_append_of_le_length hk']
          exact hreceived
        · rw [List.take_append_of_le_length hk']
          exact hkeys

/-- A call of `recv_group_text` gives a member everything exactly if nobody has
sent twice, and if so the books are kept. -/
theorem ChatBooks.recv (hst : Underway c st) (h : ChatBooks c st leafOf profiles σ)
    {profile : String} (hmember : profile ∈ profiles) :
    (AllReceived c st.groupId σ (.recv profile) ↔ SentOnceEach leafOf σ (.recv profile)) ∧
      (SentOnceEach leafOf σ (.recv profile) →
        ChatBooks c st leafOf profiles (σ.step c st.groupId (.recv profile))) := by
  obtain ⟨e, k, he, hk, hcaught, hreceived, hkeys⟩ := h.caught profile hmember
  obtain ⟨n, e', hkn, hn, hcall, hcaught', hall⟩ :=
    hcaught.recv hst hk h.leaves hkeys h.few
  have hstep : σ.step c st.groupId (.recv profile) = { σ with
      endpoints := Odict.set σ.endpoints profile e'
      received := Function.update σ.received profile
        (σ.received profile ++ ((σ.sent.take n).drop k).map (·.2)) } := by
    simp only [GroupChat.step, Endpoints.onEndpoint, he, hcall]
  have hgiven : σ.received profile ++ ((σ.sent.take n).drop k).map (·.2)
      = (σ.sent.take n).map (·.2) := by
    have htake : (σ.sent.take n).take k = σ.sent.take k := by
      rw [List.take_take, Nat.min_eq_left hkn]
    rw [hreceived, ← List.map_append, ← htake, List.take_append_drop]
  rw [textKey_nodup] at hall
  constructor
  · rw [AllReceived, SentOnceEach, hstep, ← hall]
    simp only [Function.update_self, hgiven]
    constructor
    · intro heq
      have hlength := congrArg List.length heq
      rw [List.length_map, List.length_map, List.length_take] at hlength
      omega
    · rintro rfl
      rw [List.take_length]
  · intro honce
    have hend := hall.mpr honce
    rw [hstep]
    refine ⟨h.leaves, h.few, fun p hp => ?_⟩
    by_cases hpp : p = profile
    · subst hpp
      refine ⟨e', n, Odict.get?_set_self _ _ _, hn, hcaught', ?_, ?_⟩
      · simp only [Function.update_self]
        exact hgiven
      · rw [hend, List.take_length, textKey_nodup]
        exact honce
    · obtain ⟨e₁, k₁, he₁, hrest⟩ := h.caught p hp
      refine ⟨e₁, k₁, (Odict.get?_set_ne _ hpp _).trans he₁, ?_⟩
      simp only [Function.update_of_ne hpp]
      exact hrest

/-- Over every run of a group in one epoch whose members send to all members
and read when they like: whenever a member has read, it has been given every
text that was sent once and in order, exactly if whenever somebody reads
nobody has sent twice. -/
theorem group_texts_received_iff (hlen : ∀ i s f b, (c.bytes (c.hkdf i s f b)).length = 32)
    (hinv : AeadInverse c) {st₀ : GroupState K} {ms : List (Bytes × K)}
    (h₀ : GroupState.create c.toKeyAlg groupId ms = .ok st₀) (ops : List (GroupOp K))
    (hst : st = runFrom (fun st op => after (GroupState.call c.toKeyAlg st op)) st₀ ops)
    {endpoints : Endpoints K P} (hreg : Registered st leafOf profiles endpoints)
    {acts : List ChatAct}
    (hacts : Along (GroupChat.step c groupId) (GroupTraffic profiles)
      ({ endpoints := endpoints } : GroupChat K P) acts) :
    Along (GroupChat.step c groupId) (AllReceived c groupId) { endpoints := endpoints } acts ↔
      Along (GroupChat.step c groupId) (SentOnceEach leafOf) { endpoints := endpoints } acts := by
  obtain ⟨hunder, rfl⟩ : Underway c st ∧ st.groupId = groupId := by
    rw [hst]
    refine runFrom_invariant (I := fun st => Underway c st ∧ st.groupId = groupId) ?_
      ⟨.create hlen h₀, (create_scheduled h₀).2.1⟩ ops
    rintro st op ⟨hunder, hgid⟩
    exact ⟨hunder.call hlen op, (call_later c.toKeyAlg st op).1.trans hgid⟩
  refine Along.congr (I := ChatBooks c st leafOf profiles) ?_ ?_ (.start hunder hreg) hacts
  · intro σ act h hact
    cases act with
    | send profile text memberProfiles => exact Iff.rfl
    | recv profile => exact (h.recv hunder hact).1
  · intro σ act h hact honce
    cases act with
    | send profile text memberProfiles =>
        exact h.send hinv hreg.nodup (fun p hp => (hreg.endpoint p hp).1) hact
    | recv profile => exact (h.recv hunder hact).2 honce

end Chat

/-! ## Concrete chats -/

/-- The endpoint of the member with a leaf of the sample group. -/
def sampleMember (profile : String) (identityPk : Bytes) (leaf : Nat) :
    InMemoryEndpoint Bytes Bytes where
  manager := { profile := profile }
  groupManager := some {
    identityPk := identityPk
    states := [sampleRoom]
    groups := [([7], { state := 0, isController := decide (leaf = 0), myLeafIndex := leaf })] }

def sampleEndpoints : Endpoints Bytes Bytes :=
  [("alice", sampleMember "alice" [1] 0), ("bob", sampleMember "bob" [2] 1)]

def sampleLeaf (profile : String) : Nat := if profile = "alice" then 0 else 1

theorem sampleEndpoints_registered :
    Registered sampleRoom sampleLeaf ["alice", "bob"] sampleEndpoints := by
  refine ⟨by decide, fun p hp => ?_⟩
  simp only [List.mem_cons, List.not_mem_nil, or_false] at hp
  rcases hp with rfl | rfl
  · exact ⟨by rw [HasLeaf]; decide +kernel, _, _, _, rfl, rfl, rfl, rfl, rfl, rfl⟩
  · exact ⟨by rw [HasLeaf]; decide +kernel, _, _, _, rfl, rfl, rfl, rfl, rfl, rfl⟩

/-- Both members write, and read before and after the other has. -/
def sampleChat : List ChatAct := [
  .send "alice" "hello group" ["alice", "bob"], .recv "bob",
  .send "bob" "hello" ["bob", "alice"], .recv "alice", .recv "bob", .recv "bob"]

theorem group_texts_received_sample :
    Along (GroupChat.step sampleCrypto [7]) (GroupTraffic ["alice", "bob"])
        { endpoints := sampleEndpoints } sampleChat ∧
      Along (GroupChat.step sampleCrypto [7]) (AllReceived sampleCrypto [7])
        { endpoints := sampleEndpoints } sampleChat := by
  have hacts : Along (GroupChat.step sampleCrypto [7]) (GroupTraffic ["alice", "bob"])
      { endpoints := sampleEndpoints } sampleChat := by
    decide +kernel
  exact ⟨hacts, (group_texts_received_iff sampleCrypto_hkdf_length sampleCrypto_inverse
    sampleRoom_created [] rfl sampleEndpoints_registered hacts).mpr (by decide +kernel)⟩

/-- A member sends two texts. Whoever reads gets the first, and not the second
however often it reads. -/
theorem second_text_stuck :
    Registered sampleRoom sampleLeaf ["alice", "bob"] sampleEndpoints ∧
      Along (GroupChat.step sampleCrypto [7]) (GroupTraffic ["alice", "bob"])
        { endpoints := sampleEndpoints }
        [.send "alice" "one" ["alice", "bob"], .send "alice" "two" ["alice", "bob"],
          .recv "bob", .recv "bob"] ∧
      ¬ Along (GroupChat.step sampleCrypto [7]) (AllReceived sampleCrypto [7])
        { endpoints := sampleEndpoints }
        [.send "alice" "one" ["alice", "bob"], .send "alice" "two" ["alice", "bob"],
          .recv "bob", .recv "bob"] := by
  exact ⟨sampleEndpoints_registered, by decide +kernel, by decide +kernel⟩

end GhostChat.Proofs
