import GhostChat.Ref.GroupRatchet
import GhostChat.Ref.Symbolic
import GhostChat.Proofs.Commitment
import GhostChat.Proofs.GroupNonces
import GhostChat.Proofs.Linked

/-!
# A group that talks through ratchets

The key of a message is derived from the group secret, the epoch and an index,
and the index is all that a ratchet adds. Two questions then: when do two
messages get one key, and who can open what.

Both rest on one fact about the group: an epoch has one group secret. A call
that changes the membership leaves epoch and secret as they are or moves on,
and it does so whether it returns or raises. So there is a function from epochs
to secrets, and everything a ratchet of the room ever did is determined by it
(`SentUnder`).

The index counts the messages of one ratchet over all epochs. That keeps a
ratchet from ever using a key again, and keeps no two ratchets apart.
-/

namespace GhostChat.Proofs

open GhostChat.Lib GhostChat.Lib.Effect GhostChat.Ref

variable {K P C : Type} {a : KeyAlg K} {c : Crypto K P C} {st st₀ : GroupState K}

/-! ## An epoch has one secret -/

/-- The group secret there is belongs to this epoch. -/
def SameSecret (st₀ st : GroupState K) : Prop :=
  st.groupId = st₀.groupId ∧ st.epoch = st₀.epoch ∧ st.groupSecret = st₀.groupSecret

/-- The secret of the epoch there was, or some secret in the next one. -/
def SameSecretOrNext (st₀ st : GroupState K) : Prop :=
  st.groupId = st₀.groupId ∧ st.groupSecret.isSome = true ∧
    (st.epoch = st₀.epoch ∧ st.groupSecret = st₀.groupSecret ∨ st.epoch = st₀.epoch + 1)

section Secrets

theorem SameSecret.orNext (hsome : st₀.groupSecret.isSome = true) (h : SameSecret st₀ st) :
    SameSecretOrNext st₀ st :=
  ⟨h.1, h.2.2 ▸ hsome, Or.inl h.2⟩

theorem onTree_sameSecret (x : EStateM Exn (GroupTree K) Unit) :
    Keeps (SameSecret st₀) (onTree x) := by
  intro st h
  unfold onTree zoom
  cases x st.tree <;> exact h

theorem rebuildTree_sameSecret (n : Nat) :
    Keeps (SameSecret st₀) (GroupState.rebuildTree a n) := by
  refine keeps_get_bind fun st h => ?_
  refine keeps_bind (I := SameSecret st₀) (keeps_lift _) (fun _ => ?_) st h
  exact keeps_bind (keeps_lift _) fun _ => keeps_modify fun _ h => h

theorem rederive_sameEpoch {groupId : Bytes} {e : Nat} :
    Keeps (fun st => st.groupId = groupId ∧ st.groupSecret.isSome = true ∧ st.epoch = e)
      (GroupState.rederiveGroupSecret a) := by
  refine keeps_get_bind fun st h => ?_
  cases st.tree.rootSecret with
  | none => exact h
  | some root =>
      refine keeps_bind (I := fun st => st.groupId = groupId ∧ st.groupSecret.isSome = true ∧
        st.epoch = e) (keeps_lift _) (fun es => ?_) st h
      refine keeps_bind (keeps_modify fun st h => ⟨h.1, rfl, h.2.2⟩) fun _ => ?_
      exact keeps_bind (keeps_lift _) fun _ => keeps_modify fun _ h => h

/-- The part every change ends with. -/
theorem writeLeaf_secret (hsome : st₀.groupSecret.isSome = true) (l : Nat) (s : K)
    (h : SameSecret st₀ st) :
    SameSecretOrNext st₀ (after ((do
      onTree (GroupTree.setLeaf a l s)
      modify fun st => { st with epoch := st.epoch + 1 }
      GroupState.rederiveGroupSecret a : EStateM Exn (GroupState K) Unit) st)) := by
  refine after_bind (onTree_sameSecret _) (fun _ h => h.orNext hsome) (fun _ st h => ?_) h
  have hnext := rederive_sameEpoch (a := a) { st with epoch := st.epoch + 1 }
    ⟨h.1, h.2.2 ▸ hsome, congrArg (· + 1) h.2.1⟩
  exact ⟨hnext.1, hnext.2.1, Or.inr hnext.2.2⟩

/-- A change, returned or raised, stays in its epoch with its secret or moves
to the next. -/
theorem call_sameSecret (op : GroupOp K) (hsome : st.groupSecret.isSome = true) :
    SameSecretOrNext st (after (st.call a op)) := by
  have hsame : SameSecret st st := ⟨rfl, rfl, rfl⟩
  cases op with
  | add pk s =>
      cases hnew : Odict.has st.members pk with
      | true => simpa [GroupState.call, GroupState.addMember, hnew] using hsame.orNext hsome
      | false =>
          simp only [GroupState.call, GroupState.addMember, bind_apply, get_apply, hnew,
            Bool.false_eq_true, if_false, modify_apply]
          split
          · exact after_bind (rebuildTree_sameSecret _) (fun _ h => h.orNext hsome)
              (fun _ _ h => writeLeaf_secret hsome _ s h) hsame
          · exact writeLeaf_secret hsome _ s hsame
  | remove pk s =>
      simp only [GroupState.call, GroupState.removeMember, bind_apply, get_apply]
      cases Odict.get? st.members pk with
      | none => exact hsame.orNext hsome
      | some m => exact writeLeaf_secret hsome m.leafIndex s hsame

end Secrets

/-! ## What a message is determined by -/

/-- The label a message key is derived under. -/
def messageInfo (epoch index : Nat) : Bytes :=
  ascii "ghostchat-group-msg:" ++ epochBytes epoch ++ ascii ":" ++ epochBytes index

theorem intToBytesBig_ok {n : Int} {b : Bytes} (h : intToBytesBig n 8 = .ok b) :
    ∃ m : Nat, n = m ∧ m < 2 ^ 64 ∧ b = epochBytes m := by
  unfold intToBytesBig at h
  split at h
  · cases h
  · next hneg =>
      unfold toBytesBig at h
      split at h
      · next hlt =>
          injection h with h
          exact ⟨n.toNat, (Int.toNat_of_nonneg (not_lt.mp hneg)).symm, hlt, h.symm⟩
      · cases h

theorem deriveMessageKey_ok {gs mk : K} {epoch index : Int}
    (h : GroupRatchet.deriveMessageKey a gs epoch index = .ok mk) :
    ∃ e i : Nat, epoch = e ∧ index = i ∧ e < 2 ^ 64 ∧ i < 2 ^ 64 ∧
      mk = a.hkdf gs (a.lit (ascii "ghostchat-group-msg-salt")) (messageInfo e i) 0 := by
  obtain ⟨eb, he, h⟩ := except_bind_ok h
  obtain ⟨ib, hi, h⟩ := except_bind_ok h
  obtain ⟨e, rfl, hlte, rfl⟩ := intToBytesBig_ok he
  obtain ⟨i, rfl, hlti, rfl⟩ := intToBytesBig_ok hi
  injection h with h
  exact ⟨e, i, rfl, rfl, hlte, hlti, h.symm⟩

theorem messageInfo_inj {e i e' i' : Nat} (he : e < 2 ^ 64) (hi : i < 2 ^ 64) (he' : e' < 2 ^ 64)
    (hi' : i' < 2 ^ 64) (h : messageInfo e i = messageInfo e' i') : e = e' ∧ i = i' := by
  rw [messageInfo, messageInfo, List.append_assoc, List.append_assoc, List.append_assoc,
    List.append_assoc] at h
  obtain ⟨hepoch, hrest⟩ := List.append_inj (List.append_cancel_left h) rfl
  exact ⟨epochBytes_inj he he' hepoch, epochBytes_inj hi hi' (List.append_cancel_left hrest)⟩

/-- What is sealed opens. -/
theorem chachaDecrypt_sealed (hinv : AeadInverse c) {key : K} {nonce pt ad : Bytes} {ct : C}
    (h : chachaEncrypt c key nonce pt ad = .ok ct) : chachaDecrypt c key nonce ct ad = .ok pt := by
  have hct := chachaEncrypt_ok h
  unfold chachaEncrypt at h
  unfold chachaDecrypt
  split at h
  · cases h
  · next hkey =>
      split at h
      · cases h
      · next hnonce => rw [if_neg hkey, if_neg hnonce, hinv _ _ _ _ _ hct]

/-- The message was made by `encrypt` with the secrets `f` of the epochs. -/
structure SentUnder (c : Crypto K P C) (groupId : Bytes) (f : Nat → K) (u : RatchetUse K C) :
    Prop where
  group : u.message.header.groupId = groupId
  epoch : 0 ≤ u.message.header.epoch
  key : GroupRatchet.deriveMessageKey c.toKeyAlg (f u.message.header.epoch.toNat)
    u.message.header.epoch u.message.header.index = .ok u.key
  nonce : mkToNonce (c.bytes u.key) u.message.header.index.toNat = .ok u.nonce
  ciphertext : chachaEncrypt c u.key u.nonce u.plaintext u.ad = .ok u.message.ciphertext

section Sent

variable {groupId : Bytes} {f f' : Nat → K} {u v : RatchetUse K C}

/-- Two messages have one key exactly if they have one epoch and one index,
and then they have one nonce too. -/
theorem SentUnder.key_eq_iff (ha : c.toKeyAlg.Injective) (hu : SentUnder c groupId f u)
    (hv : SentUnder c groupId f v) :
    u.key = v.key ↔ u.message.header.epoch = v.message.header.epoch ∧
      u.message.header.index = v.message.header.index := by
  constructor
  · intro hkey
    obtain ⟨e, i, he, hi, hlte, hlti, hk⟩ := deriveMessageKey_ok hu.key
    obtain ⟨e', i', he', hi', hlte', hlti', hk'⟩ := deriveMessageKey_ok hv.key
    rw [hk, hk'] at hkey
    obtain ⟨rfl, rfl⟩ := messageInfo_inj hlte hlti hlte' hlti' (ha.hkdf_inj hkey).2.2.1
    exact ⟨he.trans he'.symm, hi.trans hi'.symm⟩
  · intro h
    have hk := hu.key
    rw [h.1, h.2, hv.key] at hk
    exact (Except.ok.inj hk).symm

theorem SentUnder.nonce_eq (hu : SentUnder c groupId f u) (hv : SentUnder c groupId f v)
    (hkey : u.key = v.key) (hindex : u.message.header.index = v.message.header.index) :
    u.nonce = v.nonce := by
  have hn := hu.nonce
  rw [hkey, hindex, hv.nonce] at hn
  exact (Except.ok.inj hn).symm

/-- In a state with the secret of its epoch a message opens exactly if it is of
that epoch. -/
theorem SentUnder.decrypt (hinv : AeadInverse c) (hu : SentUnder c groupId f u)
    (hgroup : st.groupId = groupId) (hsecret : st.groupSecret = some (f st.epoch)) :
    GroupRatchet.decrypt c st u.message u.ad =
      if u.message.header.epoch = st.epoch then .ok u.plaintext
      else .error (.valueError "Epoch mismatch") := by
  have hgid : u.message.header.groupId = st.groupId := hu.group.trans hgroup.symm
  simp only [GroupRatchet.decrypt, hsecret, hgid, ne_eq, not_true_eq_false, if_false]
  by_cases he : u.message.header.epoch = st.epoch
  · have hkey := hu.key
    rw [he, Int.toNat_natCast] at hkey
    simp only [he, not_true_eq_false, if_false, if_true, hkey, bind, Except.bind, hu.nonce]
    exact chachaDecrypt_sealed hinv hu.ciphertext
  · simp only [he, not_false_eq_true, if_true, if_false]
    rfl

theorem SentUnder.congr (hu : SentUnder c groupId f u)
    (heq : f' u.message.header.epoch.toNat = f u.message.header.epoch.toNat) :
    SentUnder c groupId f' u :=
  ⟨hu.group, hu.epoch, heq ▸ hu.key, hu.nonce, hu.ciphertext⟩

/-- What a returning `encrypt` has made. -/
theorem encryptKeyed_sent {r r' : GroupRatchet} {plaintext ad nonce : Bytes} {mk : K}
    {message : GroupRatchet.GroupCiphertext C} (hgroup : st.groupId = groupId)
    (hsecret : st.groupSecret = some (f st.epoch))
    (h : GroupRatchet.encryptKeyed c st plaintext ad r = .ok (message, mk, nonce) r') (i : Nat) :
    SentUnder c groupId f ⟨i, plaintext, ad, message, mk, nonce⟩ ∧
      message.header.epoch = st.epoch ∧ message.header.index = r.sendIndex ∧
      r'.sendIndex = r.sendIndex + 1 := by
  simp only [GroupRatchet.encryptKeyed, hsecret] at h
  obtain ⟨r₁, s₁, hget, h⟩ := bind_ok h
  cases hget
  obtain ⟨mk', hmk, h⟩ := lift_bind_ok h
  obtain ⟨nonce', hnonce, h⟩ := lift_bind_ok h
  obtain ⟨ct, hct, h⟩ := lift_bind_ok h
  cases h
  exact ⟨⟨hgroup, Int.natCast_nonneg _, hmk, hnonce, hct⟩, rfl, rfl, rfl⟩

theorem encryptKeyed_raises {r r' : GroupRatchet} {plaintext ad : Bytes} {e : Exn}
    (h : GroupRatchet.encryptKeyed c st plaintext ad r = .error e r') : r' = r := by
  unfold GroupRatchet.encryptKeyed at h
  cases hsecret : st.groupSecret with
  | none =>
      rw [hsecret] at h
      cases h
      rfl
  | some gs =>
      simp only [hsecret, bind_apply, get_apply] at h
      cases hmk : GroupRatchet.deriveMessageKey c.toKeyAlg gs st.epoch r.sendIndex with
      | error e₁ => rw [hmk] at h; cases h; rfl
      | ok mk =>
          simp only [hmk, lift_ok] at h
          cases hnonce : mkToNonce (c.bytes mk) r.sendIndex with
          | error e₁ => rw [hnonce] at h; cases h; rfl
          | ok nonce =>
              simp only [hnonce, lift_ok] at h
              cases hct : chachaEncrypt c mk nonce plaintext ad with
              | error e₁ => rw [hct] at h; cases h; rfl
              | ok ct => rw [hct] at h; cases h

end Sent

/-! ## The room -/

/-- How many messages of ratchet `i` are in a log. -/
def sentBy (log : List (RatchetUse K C)) (i : Nat) : Nat := log.countP fun u => u.sender = i

/-- The books of a room: the secret of the epoch is `f`'s, every message was
made under `f`, and its index is the number of messages its ratchet had made
before. -/
structure RatchetBooks (c : Crypto K P C) (groupId : Bytes) (f : Nat → K)
    (σ : RatchetRoom K C) : Prop where
  group : σ.state.groupId = groupId
  secret : σ.state.groupSecret = some (f σ.state.epoch)
  sent : ∀ u ∈ σ.log, SentUnder c groupId f u ∧ u.message.header.epoch ≤ σ.state.epoch
  counted : ∀ i r, σ.ratchets[i]? = some r → r.sendIndex = sentBy σ.log i
  senders : ∀ u ∈ σ.log, u.sender < σ.ratchets.length
  indexed : ∀ u older, u :: older <:+ σ.log → u.message.header.index = sentBy older u.sender

section Room

variable {groupId : Bytes} {f : Nat → K} {σ : RatchetRoom K C}

/-- Secrets of later epochs do not matter. -/
theorem RatchetBooks.congr {f' : Nat → K} (h : RatchetBooks c groupId f σ)
    (heq : ∀ e ≤ σ.state.epoch, f' e = f e) : RatchetBooks c groupId f' σ := by
  refine ⟨h.group, ?_, fun u hu => ?_, h.counted, h.senders, h.indexed⟩
  · rw [heq _ le_rfl]
    exact h.secret
  · obtain ⟨hsent, hle⟩ := h.sent u hu
    refine ⟨hsent.congr (heq _ ?_), hle⟩
    have := hsent.epoch
    omega

theorem RatchetBooks.change (h : RatchetBooks c groupId f σ) (op : GroupOp K) :
    ∃ f', (∀ e ≤ σ.state.epoch, f' e = f e) ∧
      RatchetBooks c groupId f' (σ.step c (.change op)) := by
  obtain ⟨hgroup, hsome, hnext⟩ := call_sameSecret (a := c.toKeyAlg) op
    (h.secret ▸ rfl : σ.state.groupSecret.isSome = true)
  rcases hnext with ⟨hepoch, hsecret⟩ | hepoch
  · refine ⟨f, fun _ _ => rfl, hgroup.trans h.group, ?_, ?_, h.counted, h.senders, h.indexed⟩
    · show (after (σ.state.call c.toKeyAlg op)).groupSecret
        = some (f (after (σ.state.call c.toKeyAlg op)).epoch)
      rw [hsecret, hepoch]
      exact h.secret
    · intro u hu
      refine ⟨(h.sent u hu).1, (h.sent u hu).2.trans_eq ?_⟩
      exact congrArg Int.ofNat hepoch.symm
  · -- The next epoch gets its secret; nothing has been sent in it.
    obtain ⟨gs, hgs⟩ := Option.isSome_iff_exists.mp hsome
    have hkeep : ∀ e ≤ σ.state.epoch, Function.update f (σ.state.epoch + 1) gs e = f e := by
      intro e he
      exact Function.update_of_ne (by omega) _ _
    have hold := h.congr hkeep
    refine ⟨_, hkeep, hgroup.trans h.group, ?_, ?_, hold.counted, hold.senders, hold.indexed⟩
    · show (after (σ.state.call c.toKeyAlg op)).groupSecret
        = some (Function.update f (σ.state.epoch + 1) gs (after (σ.state.call c.toKeyAlg op)).epoch)
      rw [hgs, hepoch, Function.update_self]
    · intro u hu
      refine ⟨(hold.sent u hu).1, (hold.sent u hu).2.trans ?_⟩
      show (σ.state.epoch : Int) ≤ ((after (σ.state.call c.toKeyAlg op)).epoch : Nat)
      rw [hepoch]
      omega

theorem RatchetBooks.make (h : RatchetBooks c groupId f σ) :
    RatchetBooks c groupId f (σ.step c .make) := by
  have hnew : GroupRatchet.new σ.state = .ok {} := by rw [GroupRatchet.new, h.secret]
  simp only [RatchetRoom.step, hnew]
  refine ⟨h.group, h.secret, h.sent, fun i r hr => ?_, fun u hu => ?_, h.indexed⟩
  · rcases getElem?_concat_cases hr with hr | ⟨rfl, rfl⟩
    · exact h.counted i r hr
    · -- Nobody has sent under a number that was not given out.
      symm
      refine List.countP_eq_zero.mpr fun u hu => ?_
      have := h.senders u hu
      simp only [decide_eq_true_eq]
      omega
  · have := h.senders u hu
    simp only [List.length_append, List.length_singleton]
    omega

theorem RatchetBooks.encrypt (h : RatchetBooks c groupId f σ) (i : Nat) (plaintext ad : Bytes) :
    RatchetBooks c groupId f (σ.step c (.encrypt i plaintext ad)) := by
  cases hr : σ.ratchets[i]? with
  | none => simpa only [RatchetRoom.step, hr] using h
  | some r =>
      obtain ⟨hi, hget⟩ := List.getElem?_eq_some_iff.mp hr
      cases henc : GroupRatchet.encryptKeyed c σ.state plaintext ad r with
      | error e r' =>
          -- A call that raises has not counted.
          simp only [RatchetRoom.step, hr, henc, encryptKeyed_raises henc]
          rw [← hget, List.set_getElem_self]
          exact h
      | ok x r' =>
          obtain ⟨message, mk, nonce⟩ := x
          obtain ⟨hsent, hepoch, hindex, hcount⟩ := encryptKeyed_sent h.group h.secret henc i
          simp only [RatchetRoom.step, hr, henc]
          refine ⟨h.group, h.secret, ?_, ?_, ?_, ?_⟩
          · exact List.forall_mem_cons.mpr ⟨⟨hsent, hepoch.le⟩, h.sent⟩
          · intro j s hs
            simp only [sentBy, List.countP_cons]
            rw [List.getElem?_set] at hs
            by_cases hij : i = j
            · subst hij
              rw [if_pos rfl, if_pos hi] at hs
              cases hs
              rw [hcount, h.counted i r hr]
              simp [sentBy]
            · rw [if_neg hij] at hs
              rw [h.counted j s hs]
              simp [sentBy, hij]
          · rw [List.length_set]
            exact List.forall_mem_cons.mpr ⟨hi, h.senders⟩
          · intro u older hsuf
            rcases List.suffix_cons_iff.mp hsuf with heq | hsuf
            · injection heq with hu holder
              subst hu holder
              rw [hindex, h.counted i r hr]
            · exact h.indexed u older hsuf

/-- A step goes on with the books, and the epochs up to now keep their
secrets. -/
theorem RatchetBooks.step (h : RatchetBooks c groupId f σ) (act : RatchetAct K) :
    ∃ f', (∀ e ≤ σ.state.epoch, f' e = f e) ∧ σ.state.epoch ≤ (σ.step c act).state.epoch ∧
      RatchetBooks c groupId f' (σ.step c act) := by
  cases act with
  | change op =>
      obtain ⟨f', hkeep, hbooks⟩ := h.change op
      refine ⟨f', hkeep, ?_, hbooks⟩
      obtain ⟨-, -, hnext⟩ := call_sameSecret (a := c.toKeyAlg) op
        (h.secret ▸ rfl : σ.state.groupSecret.isSome = true)
      show σ.state.epoch ≤ (after (σ.state.call c.toKeyAlg op)).epoch
      omega
  | make =>
      refine ⟨f, fun _ _ => rfl, ?_, h.make⟩
      rw [RatchetRoom.step]
      cases GroupRatchet.new σ.state <;> exact le_rfl
  | encrypt i plaintext ad =>
      refine ⟨f, fun _ _ => rfl, ?_, h.encrypt i plaintext ad⟩
      simp only [RatchetRoom.step]
      split
      · exact le_rfl
      · split <;> exact le_rfl

/-- One function gives every state on the way the secret of its epoch. -/
theorem RatchetBooks.run (h : RatchetBooks c groupId f σ) (acts : List (RatchetAct K)) :
    ∃ f', (∀ e ≤ σ.state.epoch, f' e = f e) ∧
      ∀ n, RatchetBooks c groupId f' (runFrom (RatchetRoom.step c) σ (acts.take n)) := by
  induction acts generalizing f σ with
  | nil =>
      refine ⟨f, fun _ _ => rfl, fun n => ?_⟩
      rw [List.take_nil]
      exact h
  | cons act acts ih =>
      obtain ⟨f₁, hkeep₁, hle, hbooks⟩ := h.step act
      obtain ⟨f₂, hkeep₂, hrun⟩ := ih hbooks
      have hkeep : ∀ e ≤ σ.state.epoch, f₂ e = f e := fun e he =>
        (hkeep₂ e (he.trans hle)).trans (hkeep₁ e he)
      refine ⟨f₂, hkeep, fun n => ?_⟩
      cases n with
      | zero => exact h.congr hkeep
      | succ n => exact hrun n

theorem ratchetBooks_created {ms : List (Bytes × K)}
    (h₀ : GroupState.create c.toKeyAlg groupId ms = .ok st) :
    ∃ f, RatchetBooks c groupId f { state := st } := by
  obtain ⟨hsched, hgid, -, -⟩ := create_scheduled h₀
  obtain ⟨es, -, hgs, -⟩ := hsched.secret
  refine ⟨fun _ => es, hgid, hgs, ?_, ?_, ?_, ?_⟩
  · exact fun u hu => by cases hu
  · exact fun i r hr => by cases hr
  · exact fun u hu => by cases hu
  · intro u older hsuf
    cases List.suffix_nil.mp hsuf

/-- The key and the nonce of a message are the ones it was sealed with. -/
theorem ratchetUses_sealed {ms : List (Bytes × K)}
    (h₀ : GroupState.create c.toKeyAlg groupId ms = .ok st) (acts : List (RatchetAct K)) :
    ∀ u ∈ (runFrom (RatchetRoom.step c) { state := st } acts).log,
      c.encrypt u.key u.nonce u.plaintext u.ad = some u.message.ciphertext := by
  intro u hu
  obtain ⟨f, hbooks⟩ := ratchetBooks_created h₀
  obtain ⟨f', -, hrun⟩ := hbooks.run acts
  have hend := hrun acts.length
  rw [List.take_length] at hend
  exact chachaEncrypt_ok (hend.sent u hu).1.ciphertext

/-- In every run of a group that talks through ratchets, the index of a message
counts what its ratchet sent before, and two messages have one key exactly if
they have one epoch and one index. Then they have one nonce as well, and they
are from two ratchets. -/
theorem message_keys_collide_iff (ha : c.toKeyAlg.Injective) {ms : List (Bytes × K)}
    (h₀ : GroupState.create c.toKeyAlg groupId ms = .ok st) (acts : List (RatchetAct K))
    {u : RatchetUse K C} {older : List (RatchetUse K C)}
    (hu : u :: older <:+ (runFrom (RatchetRoom.step c) { state := st } acts).log) :
    u.message.header.index = sentBy older u.sender ∧ ∀ v ∈ older,
      (u.key = v.key ↔ u.message.header.epoch = v.message.header.epoch ∧
        u.message.header.index = v.message.header.index) ∧
      (u.key = v.key → u.nonce = v.nonce ∧ u.sender ≠ v.sender) := by
  obtain ⟨f₀, hstart⟩ := ratchetBooks_created h₀
  obtain ⟨f, -, hrun⟩ := hstart.run acts
  have hbooks := hrun acts.length
  rw [List.take_length] at hbooks
  refine ⟨hbooks.indexed u older hu, fun v hv => ?_⟩
  have hsent := (hbooks.sent u (hu.subset List.mem_cons_self)).1
  have hsent' := (hbooks.sent v (hu.subset (List.mem_cons_of_mem _ hv))).1
  have hiff := hsent.key_eq_iff ha hsent'
  refine ⟨hiff, fun hkey => ⟨hsent.nonce_eq hsent' hkey (hiff.mp hkey).2, fun hsender => ?_⟩⟩
  -- One ratchet has counted `v` by the time it makes `u`.
  obtain ⟨newer, rest, rfl⟩ := List.append_of_mem hv
  have hindex := hbooks.indexed u _ hu
  have hindex' := hbooks.indexed v rest
    (((List.suffix_append newer (v :: rest)).trans (List.suffix_cons u _)).trans hu)
  have hlt : sentBy rest v.sender < sentBy (newer ++ v :: rest) u.sender := by
    rw [sentBy, sentBy, List.countP_append, List.countP_cons, hsender]
    simp only [decide_true, if_true]
    omega
  have := (hiff.mp hkey).2
  omega

/-- In every run, at every state the group comes to before or after: a message
opens with the state exactly if it is of its epoch, as often as it is tried,
and every other is refused by its epoch. -/
theorem ratchet_decrypt_eq (hinv : AeadInverse c) {ms : List (Bytes × K)}
    (h₀ : GroupState.create c.toKeyAlg groupId ms = .ok st) (acts : List (RatchetAct K))
    {u : RatchetUse K C} (hu : u ∈ (runFrom (RatchetRoom.step c) { state := st } acts).log)
    (n : Nat) :
    GroupRatchet.decrypt c (runFrom (RatchetRoom.step c) { state := st } (acts.take n)).state
        u.message u.ad =
      if u.message.header.epoch
          = (runFrom (RatchetRoom.step c) { state := st } (acts.take n)).state.epoch
      then .ok u.plaintext else .error (.valueError "Epoch mismatch") := by
  obtain ⟨f₀, hstart⟩ := ratchetBooks_created h₀
  obtain ⟨f, -, hrun⟩ := hstart.run acts
  have hend := hrun acts.length
  rw [List.take_length] at hend
  exact (hend.sent u hu).1.decrypt hinv (hrun n).group (hrun n).secret

end Room

/-- A group of two, for the examples, and what happens in it: both members
make a ratchet and send, a third member comes, and the first sends again. -/
def twoSenderRoom : GroupState SymKey :=
  match GroupState.create symKeys [7] [([1], .atom (.secret 1)), ([2], .atom (.secret 2))] with
  | .ok st => st
  | .error _ => ⟨[], 0, ⟨[], 0⟩, [], none, none, none⟩

theorem twoSenderRoom_created : GroupState.create symbolic.toKeyAlg [7]
    [([1], .atom (.secret 1)), ([2], .atom (.secret 2))] = .ok twoSenderRoom := rfl

def ratchetTalk : List (RatchetAct SymKey) :=
  [.make, .make, .encrypt 0 [104] [], .encrypt 1 [105] [],
    .change (.add [3] (.atom (.secret 3))), .encrypt 0 [106] []]

/-- The first messages of the two members have one key and one nonce, and the
third has a key of its own. -/
theorem message_keys_collide_twoSenders : ∃ u v w,
    (runFrom (RatchetRoom.step symbolic) { state := twoSenderRoom } ratchetTalk).log = [w, v, u] ∧
      v.key = u.key ∧ v.nonce = u.nonce ∧ w.key ≠ v.key := by
  have hlog : ∃ u v w,
      (runFrom (RatchetRoom.step symbolic) { state := twoSenderRoom } ratchetTalk).log = [w, v, u] ∧
        v.message.header.epoch = u.message.header.epoch ∧
        v.message.header.index = u.message.header.index ∧
        w.message.header.epoch ≠ v.message.header.epoch :=
    ⟨_, _, _, rfl, rfl, rfl, by decide +kernel⟩
  obtain ⟨u, v, w, hlog, hepoch, hindex, hlater⟩ := hlog
  have hsuf : [v, u] <:+
      (runFrom (RatchetRoom.step symbolic) { state := twoSenderRoom } ratchetTalk).log := by
    rw [hlog]
    exact List.suffix_cons w [v, u]
  have hsuf' : [w, v, u] <:+
      (runFrom (RatchetRoom.step symbolic) { state := twoSenderRoom } ratchetTalk).log := by
    rw [hlog]
  obtain ⟨-, hpair⟩ := message_keys_collide_iff symKeys_injective twoSenderRoom_created ratchetTalk hsuf
  obtain ⟨-, hpair'⟩ := message_keys_collide_iff symKeys_injective twoSenderRoom_created ratchetTalk
    hsuf'
  have hkey : v.key = u.key := (hpair u (by simp)).1.mpr ⟨hepoch, hindex⟩
  exact ⟨u, v, w, hlog, hkey, ((hpair u (by simp)).2 hkey).1,
    fun h => hlater ((hpair' v (by simp)).1.mp h).1⟩

/-- The second member's message opens before the third member comes, and not
after. -/
theorem ratchet_decrypt_twoSenders : ∃ u,
    u ∈ (runFrom (RatchetRoom.step symbolic) { state := twoSenderRoom } ratchetTalk).log ∧
      GroupRatchet.decrypt symbolic (runFrom (RatchetRoom.step symbolic) { state := twoSenderRoom }
        (ratchetTalk.take 4)).state u.message u.ad = .ok [105] ∧
      GroupRatchet.decrypt symbolic (runFrom (RatchetRoom.step symbolic) { state := twoSenderRoom }
        (ratchetTalk.take 5)).state u.message u.ad = .error (.valueError "Epoch mismatch") := by
  have hlog : ∃ u v w,
      (runFrom (RatchetRoom.step symbolic) { state := twoSenderRoom } ratchetTalk).log = [w, v, u] ∧
        v.message.header.epoch = 1 ∧ v.plaintext = [105] := ⟨_, _, _, rfl, rfl, rfl⟩
  obtain ⟨u, v, w, hlog, hepoch, hpt⟩ := hlog
  have hmem : v ∈ (runFrom (RatchetRoom.step symbolic) { state := twoSenderRoom } ratchetTalk).log := by
    rw [hlog]
    simp
  have hopen := ratchet_decrypt_eq symbolic_inverse twoSenderRoom_created ratchetTalk hmem
  have hstate : (runFrom (RatchetRoom.step symbolic) { state := twoSenderRoom }
      (ratchetTalk.take 4)).state.epoch = 1 := by decide +kernel
  have hstate' : (runFrom (RatchetRoom.step symbolic) { state := twoSenderRoom }
      (ratchetTalk.take 5)).state.epoch = 2 := by decide +kernel
  refine ⟨v, hmem, (hopen 4).trans ?_, (hopen 5).trans ?_⟩
  · rw [hstate, hepoch, hpt]
    rfl
  · rw [hstate', hepoch]
    rfl

end GhostChat.Proofs
