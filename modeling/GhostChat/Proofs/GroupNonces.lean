import GhostChat.Proofs.Group
import GhostChat.Ref.GroupMessaging
import GhostChat.Ref.Sample

/-!
# Nonces of group messages

All members of an epoch encrypt under one key, and the nonce is that key's
first twelve bytes with a counter xored into the last four. Nothing but the
counter sets two nonces of an epoch apart, and every messenger counts for
itself from zero. So the nonces of an epoch are distinct exactly if each call
that encrypts finds its messenger at a counter no other call of the epoch has
used, modulo `2 ^ 32`: one messenger that is kept does that, two members do
not, and neither do two texts of one member, whose messengers are made for the
occasion.

What is needed of the group is little. A call that changes the membership, if
it returns or if it raises, leaves epoch and key as they are or moves to the
next epoch, so an epoch has one key; and the key is always one of 32 bytes.
-/

namespace GhostChat.Proofs

open GhostChat.Lib GhostChat.Lib.Effect GhostChat.Ref

variable {K P C : Type} {a : KeyAlg K} {c : Crypto K P C} {st : GroupState K}

/-- Two counters give one nonce exactly when they agree modulo `2 ^ 32`. -/
theorem xorCounter_eq_iff {base : Bytes} (h : base.length = 12) {m n : Nat} :
    xorCounter base m = xorCounter base n ↔ m % 2 ^ 32 = n % 2 ^ 32 := by
  have hbyte : ∀ x y : Nat, UInt8.ofNat x = UInt8.ofNat y ↔ x % 256 = y % 256 := by
    intro x y
    rw [← UInt8.toNat_inj, UInt8.toNat_ofNat', UInt8.toNat_ofNat']
  match base, h with
  | [b₀, b₁, b₂, b₃, b₄, b₅, b₆, b₇, b₈, b₉, b₁₀, b₁₁], _ =>
      simp [xorCounter, List.range_succ, hbyte, Nat.shiftRight_eq_div_pow]
      omega

/-! ## An epoch has one key -/

/-- There is an application key, and it has the length of one. -/
def Keyed (a : KeyAlg K) (st : GroupState K) : Prop :=
  ∃ k, st.applicationKey = some k ∧ (a.bytes k).length = 32

def AtEpoch (a : KeyAlg K) (e : Nat) (k : Option K) (st : GroupState K) : Prop :=
  Keyed a st ∧ st.epoch = e ∧ st.applicationKey = k

def AtEpochOrNext (a : KeyAlg K) (e : Nat) (k : Option K) (st : GroupState K) : Prop :=
  Keyed a st ∧ (st.epoch = e ∧ st.applicationKey = k ∨ st.epoch = e + 1)

section Epochs

variable {e : Nat} {k : Option K}

theorem AtEpoch.orNext (h : AtEpoch a e k st) : AtEpochOrNext a e k st :=
  ⟨h.1, Or.inl h.2⟩

theorem onTree_keeps (x : EStateM Exn (GroupTree K) Unit) :
    Keeps (AtEpoch a e k) (onTree x) := by
  intro st h
  unfold onTree zoom
  cases x st.tree <;> exact h

theorem rebuildTree_keeps (n : Nat) : Keeps (AtEpoch a e k) (GroupState.rebuildTree a n) := by
  refine keeps_get_bind fun st h => ?_
  refine keeps_bind (I := AtEpoch a e k) (keeps_lift _) (fun _ => ?_) st h
  exact keeps_bind (keeps_lift _) fun _ => keeps_modify fun _ h => h

variable (hlen : ∀ i s f b, (a.bytes (a.hkdf i s f b)).length = 32)

include hlen

/-- The new key is derived after the epoch has been counted up. -/
theorem rederive_keeps :
    Keeps (fun st => Keyed a st ∧ st.epoch = e) (GroupState.rederiveGroupSecret a) := by
  refine keeps_get_bind fun st h => ?_
  cases st.tree.rootSecret with
  | none => exact h
  | some root =>
      refine keeps_bind (I := fun st => Keyed a st ∧ st.epoch = e) (keeps_lift _)
        (fun es => ?_) st h
      refine keeps_bind (keeps_modify fun st h => ?_) fun _ => ?_
      · exact ⟨⟨_, rfl, hlen ..⟩, h.2⟩
      · exact keeps_bind (keeps_lift _) fun _ => keeps_modify fun _ h => h

/-- The part every change ends with. -/
theorem writeLeaf_orNext (l : Nat) (s : K) (h : AtEpoch a e k st) :
    AtEpochOrNext a e k (after ((do
      onTree (GroupTree.setLeaf a l s)
      modify fun st => { st with epoch := st.epoch + 1 }
      GroupState.rederiveGroupSecret a : EStateM Exn (GroupState K) Unit) st)) := by
  refine after_bind (onTree_keeps _) (fun _ h => h.orNext) (fun _ st h => ?_) h
  have hnext := rederive_keeps (e := e + 1) hlen { st with epoch := st.epoch + 1 }
    ⟨h.1, congrArg (· + 1) h.2.1⟩
  exact ⟨hnext.1, Or.inr hnext.2⟩

theorem addMember_orNext (pk : Bytes) (s : K) (h : AtEpoch a e k st) :
    AtEpochOrNext a e k (after (GroupState.addMember a pk s st)) := by
  cases hnew : Odict.has st.members pk with
  | true => simpa [GroupState.addMember, hnew] using h.orNext
  | false =>
      simp only [GroupState.addMember, bind_apply, get_apply, hnew, Bool.false_eq_true,
        if_false, modify_apply]
      split
      · exact after_bind (rebuildTree_keeps _) (fun _ h => h.orNext)
          (fun _ _ h => writeLeaf_orNext hlen _ s h) h
      · exact writeLeaf_orNext hlen _ s h

theorem removeMember_orNext (pk : Bytes) (s : K) (h : AtEpoch a e k st) :
    AtEpochOrNext a e k (after (GroupState.removeMember a pk s st)) := by
  simp only [GroupState.removeMember, bind_apply, get_apply]
  cases Odict.get? st.members pk with
  | none => exact h.orNext
  | some m => exact writeLeaf_orNext hlen m.leafIndex s h

/-- A change, returned or raised, stays in its epoch with its key or moves to
the next. -/
theorem call_orNext (op : GroupOp K) (h : Keyed a st) :
    AtEpochOrNext a st.epoch st.applicationKey (after (st.call a op)) := by
  cases op with
  | add pk s => exact addMember_orNext hlen pk s ⟨h, rfl, rfl⟩
  | remove pk s => exact removeMember_orNext hlen pk s ⟨h, rfl, rfl⟩

theorem create_keyed {groupId : Bytes} {ms : List (Bytes × K)}
    (h : GroupState.create a groupId ms = .ok st) : Keyed a st := by
  obtain ⟨es, -, -, hk⟩ := (create_scheduled h).1.secret
  exact ⟨_, hk, hlen ..⟩

end Epochs

/-! ## What a call that encrypts uses -/

/-- The use is one of the state's key, with the nonce of its counter. -/
structure UseOf (a : KeyAlg K) (st : GroupState K) (u : NonceUse K) : Prop where
  epoch : u.epoch = st.epoch
  key : st.applicationKey = some u.key
  nonce : u.nonce = xorCounter ((a.bytes u.key).take 12) u.counter

theorem groupNonce_ok {key nonce : Bytes} {n : Nat} (h : groupNonce key n = .ok nonce) :
    nonce = xorCounter (key.take 12) n := by
  unfold groupNonce at h
  split at h
  · cases h
  · injection h with h
    exact h.symm

theorem encryptKeyed_ok {plaintext ad : Bytes} {m m' : GroupMessenger}
    {r : GroupMessage C × K × Bytes}
    (h : GroupMessenger.encryptKeyed c st plaintext ad m = .ok r m') :
    r.1.header.counter = m.counter ∧
      UseOf c.toKeyAlg st ⟨st.epoch, r.2.1, r.2.2, m.counter⟩ ∧
      ∃ adBytes, groupAad r.1.header ad = .ok adBytes ∧
        c.encrypt r.2.1 r.2.2 plaintext adBytes = some r.1.ciphertext := by
  rw [GroupMessenger.encryptKeyed] at h
  cases hk : st.applicationKey with
  | none => rw [hk] at h; cases h
  | some appKey =>
      rw [hk] at h
      obtain ⟨m₁, s₁, hget, h⟩ := bind_ok h
      cases hget
      obtain ⟨nonce, s₂, hnonce, h⟩ := bind_ok h
      obtain ⟨hnonce, rfl⟩ := ok_of_lift_ok hnonce
      obtain ⟨-, s₃, -, h⟩ := bind_ok h
      obtain ⟨adBytes, had, h⟩ := lift_bind_ok h
      cases hct : c.encrypt appKey nonce plaintext adBytes with
      | none => rw [hct] at h; cases h
      | some ct =>
          rw [hct] at h
          cases h
          exact ⟨rfl, ⟨rfl, hk, groupNonce_ok hnonce⟩, adBytes, had, hct⟩

/-- A text is sent at counter zero. -/
theorem sendGroupText_ok {leaf : Nat} {text : Bytes} {r : GroupMessage C × K × Bytes}
    (h : sendGroupText c { groups := [(st.groupId, (st, leaf))] } st.groupId text = .ok r) :
    r.1.header.counter = 0 ∧ UseOf c.toKeyAlg st ⟨st.epoch, r.2.1, r.2.2, 0⟩ ∧
      ∃ adBytes, groupAad r.1.header [] = .ok adBytes ∧
        c.encrypt r.2.1 r.2.2 text adBytes = some r.1.ciphertext := by
  have hget : Odict.get? [(st.groupId, (st, leaf))] st.groupId = some (st, leaf) := by
    simp [Odict.get?]
  unfold sendGroupText GroupManager.getMessenger at h
  rw [hget] at h
  cases hk : st.applicationKey with
  | none => simp only [GroupMessenger.new, hk] at h; cases h
  | some k =>
      have hnew : GroupMessenger.new st leaf = .ok { senderLeafIndex := leaf } := by
        rw [GroupMessenger.new, hk]
      simp only [hnew, bind, Except.bind, pure, Except.pure] at h
      cases henc : GroupMessenger.encryptKeyed c st text [] { senderLeafIndex := leaf } with
      | ok r' m' =>
          rw [henc] at h
          cases h
          exact encryptKeyed_ok henc
      | error e m' => rw [henc] at h; cases h

/-! ## A group that talks -/

/-- The counter the messenger of a call stands at, if the call encrypts. -/
def sendsAt (c : Crypto K P C) (σ : GroupTalk K) : TalkAct K → Option Nat
  | .encrypt i plaintext ad => do
      let m ← σ.messengers[i]?
      let _ ← value? (GroupMessenger.encrypt c σ.state plaintext ad m)
      return m.counter
  | .sendText leaf text =>
      match sendGroupText c { groups := [(σ.state.groupId, (σ.state, leaf))] }
          σ.state.groupId text with
      | .ok _ => some 0
      | .error _ => none
  | .change _ | .make _ => none

/-- A call that encrypts finds its messenger at a counter no other call of the
epoch has used, modulo `2 ^ 32`. -/
def FreshCounter (c : Crypto K P C) (σ : GroupTalk K) (act : TalkAct K) : Prop :=
  ∀ n ∈ sendsAt c σ act, ∀ u ∈ σ.log, u.epoch = σ.state.epoch →
    u.counter % 2 ^ 32 ≠ n % 2 ^ 32

instance FreshCounter.decidable (c : Crypto K P C) (σ : GroupTalk K) (act : TalkAct K) :
    Decidable (FreshCounter c σ act) :=
  inferInstanceAs (Decidable (∀ n ∈ sendsAt c σ act, _))

/-- No two calls of an epoch use one key with one nonce. -/
def NoNonceReuse (σ : GroupTalk K) : Prop :=
  σ.log.Pairwise fun u v => u.epoch = v.epoch → ¬ (u.key = v.key ∧ u.nonce = v.nonce)

instance NoNonceReuse.decidable [DecidableEq K] (σ : GroupTalk K) :
    Decidable (NoNonceReuse σ) := inferInstanceAs (Decidable (List.Pairwise _ _))

section Talk

variable {σ : GroupTalk K} {act : TalkAct K}

/-- The key and the nonce of a use sealed something. -/
def SealedSome (c : Crypto K P C) (u : NonceUse K) : Prop :=
  ∃ plaintext ad ct, c.encrypt u.key u.nonce plaintext ad = some ct

/-- What one step does to state and log. -/
theorem step_cases (c : Crypto K P C) (σ : GroupTalk K) (act : TalkAct K) :
    (∃ op, (σ.step c act).state = after (σ.state.call c.toKeyAlg op) ∧
      (σ.step c act).log = σ.log ∧ sendsAt c σ act = none) ∨
    ((σ.step c act).state = σ.state ∧ (σ.step c act).log = σ.log ∧
      sendsAt c σ act = none) ∨
    ∃ u, UseOf c.toKeyAlg σ.state u ∧ SealedSome c u ∧ (σ.step c act).state = σ.state ∧
      (σ.step c act).log = u :: σ.log ∧ sendsAt c σ act = some u.counter := by
  cases act with
  | change op => exact Or.inl ⟨op, rfl, rfl, rfl⟩
  | make leaf =>
      refine Or.inr (Or.inl ?_)
      simp only [GroupTalk.step]
      cases GroupMessenger.new σ.state leaf <;> exact ⟨rfl, rfl, rfl⟩
  | encrypt i plaintext ad =>
      cases hm : σ.messengers[i]? with
      | none => exact Or.inr (Or.inl (by simp [GroupTalk.step, sendsAt, hm]))
      | some m =>
          cases henc : GroupMessenger.encryptKeyed c σ.state plaintext ad m with
          | error e m' =>
              exact Or.inr (Or.inl (by
                simp [GroupTalk.step, sendsAt, GroupMessenger.encrypt, hm, henc]))
          | ok r m' =>
              obtain ⟨hcounter, huse, adBytes, -, hct⟩ := encryptKeyed_ok henc
              refine Or.inr (Or.inr ⟨_, huse, ⟨_, _, _, hct⟩, ?_⟩)
              simp [GroupTalk.step, sendsAt, GroupMessenger.encrypt, hm, henc, hcounter]
  | sendText leaf text =>
      cases hsend : sendGroupText c { groups := [(σ.state.groupId, (σ.state, leaf))] }
          σ.state.groupId text with
      | error e => exact Or.inr (Or.inl (by simp [GroupTalk.step, sendsAt, hsend]))
      | ok r =>
          obtain ⟨hcounter, huse, adBytes, -, hct⟩ := sendGroupText_ok hsend
          refine Or.inr (Or.inr ⟨_, huse, ⟨_, _, _, hct⟩, ?_⟩)
          simp [GroupTalk.step, sendsAt, hsend, hcounter]

/-- The uses of the current epoch are uses of the current key, and there are
none of a later epoch. -/
structure NonceBooks (a : KeyAlg K) (σ : GroupTalk K) : Prop where
  keyed : Keyed a σ.state
  past : ∀ u ∈ σ.log, u.epoch ≤ σ.state.epoch
  uses : ∀ u ∈ σ.log, u.epoch = σ.state.epoch → UseOf a σ.state u

theorem NonceBooks.step (hlen : ∀ i s f b, (c.bytes (c.hkdf i s f b)).length = 32)
    (h : NonceBooks c.toKeyAlg σ) (act : TalkAct K) :
    NonceBooks c.toKeyAlg (σ.step c act) := by
  rcases step_cases c σ act with
    ⟨op, hst, hlog, -⟩ | ⟨hst, hlog, -⟩ | ⟨u, hu, -, hst, hlog, -⟩
  · obtain ⟨hkeyed, hnext⟩ := call_orNext hlen op h.keyed
    rw [← hst] at hkeyed hnext
    rcases hnext with ⟨hepoch, hkey⟩ | hepoch
    · refine ⟨hkeyed, ?_, ?_⟩
      · rw [hlog, hepoch]
        exact h.past
      · rw [hlog, hepoch]
        intro u hu he
        obtain ⟨-, hk, hn⟩ := h.uses u hu he
        exact ⟨he.trans hepoch.symm, hkey.trans hk, hn⟩
    · refine ⟨hkeyed, ?_, ?_⟩
      · rw [hlog, hepoch]
        exact fun u hu => Nat.le_succ_of_le (h.past u hu)
      · rw [hlog, hepoch]
        intro u hu he
        have := h.past u hu
        omega
  · exact ⟨hst ▸ h.keyed, by rw [hlog, hst]; exact h.past, by rw [hlog, hst]; exact h.uses⟩
  · refine ⟨hst ▸ h.keyed, ?_, ?_⟩
    · rw [hlog, hst]
      exact List.forall_mem_cons.mpr ⟨hu.epoch.le, h.past⟩
    · rw [hlog, hst]
      exact List.forall_mem_cons.mpr ⟨fun _ => hu, h.uses⟩

/-- Two uses of one state share their nonce exactly when their counters agree
modulo `2 ^ 32`. -/
theorem UseOf.reuses_iff {u v : NonceUse K} (hst : Keyed a st) (hu : UseOf a st u)
    (hv : UseOf a st v) :
    (u.key = v.key ∧ u.nonce = v.nonce) ↔ v.counter % 2 ^ 32 = u.counter % 2 ^ 32 := by
  obtain ⟨k, hk, hlen⟩ := hst
  have huk : u.key = k := Option.some.inj (hu.key.symm.trans hk)
  have hvk : v.key = k := Option.some.inj (hv.key.symm.trans hk)
  have hbase : ((a.bytes k).take 12).length = 12 := by
    rw [List.length_take, hlen]
    rfl
  rw [hu.nonce, hv.nonce, huk, hvk, and_iff_right rfl, xorCounter_eq_iff hbase]
  exact eq_comm

/-- A step reuses a nonce exactly if it finds its messenger at a counter that
was used in its epoch. -/
theorem NonceBooks.noReuse_step (h : NonceBooks c.toKeyAlg σ) (act : TalkAct K) :
    NoNonceReuse (σ.step c act) ↔ NoNonceReuse σ ∧ FreshCounter c σ act := by
  have hidle : sendsAt c σ act = none → FreshCounter c σ act := by
    intro hnone n hn
    rw [hnone] at hn
    cases hn
  rcases step_cases c σ act with
    ⟨op, -, hlog, hnone⟩ | ⟨-, hlog, hnone⟩ | ⟨u, hu, -, -, hlog, hsends⟩
  · rw [NoNonceReuse, hlog]
    exact (and_iff_left (hidle hnone)).symm
  · rw [NoNonceReuse, hlog]
    exact (and_iff_left (hidle hnone)).symm
  · rw [NoNonceReuse, hlog, List.pairwise_cons, and_comm]
    refine and_congr_right fun _ => ?_
    constructor
    · intro hne n hn v hv he
      rw [hsends] at hn
      obtain rfl : u.counter = n := Option.some.inj hn
      have := hne v hv (hu.epoch.trans he.symm)
      rwa [hu.reuses_iff h.keyed (h.uses v hv he)] at this
    · intro hfresh v hv he
      have he' : v.epoch = σ.state.epoch := he.symm.trans hu.epoch
      rw [hu.reuses_iff h.keyed (h.uses v hv he')]
      exact hfresh _ hsends v hv he'

/-- Every use in the log is one of the AEAD. -/
theorem talkUses_sealed (st : GroupState K) (acts : List (TalkAct K)) :
    ∀ u ∈ (runFrom (GroupTalk.step c) { state := st } acts).log, SealedSome c u := by
  refine runFrom_invariant (I := fun σ : GroupTalk K => ∀ u ∈ σ.log, SealedSome c u)
    (fun σ act h => ?_) (fun u hu => absurd hu List.not_mem_nil) acts
  rcases step_cases c σ act with
    ⟨op, -, hlog, -⟩ | ⟨-, hlog, -⟩ | ⟨u, -, hsealed, -, hlog, -⟩
  · rw [hlog]
    exact h
  · rw [hlog]
    exact h
  · rw [hlog]
    exact List.forall_mem_cons.mpr ⟨hsealed, h⟩

/-- Over every run of a group, whoever sends and however the membership
changes: no two calls of an epoch use one key with one nonce, exactly if every
call that encrypts finds its messenger at a counter no earlier call of the
epoch has used, modulo `2 ^ 32`. -/
theorem no_nonce_reuse_iff (hlen : ∀ i s f b, (c.bytes (c.hkdf i s f b)).length = 32)
    {groupId : Bytes} {ms : List (Bytes × K)}
    (h₀ : GroupState.create c.toKeyAlg groupId ms = .ok st) (acts : List (TalkAct K)) :
    NoNonceReuse (runFrom (GroupTalk.step c) { state := st } acts) ↔
      Along (GroupTalk.step c) (FreshCounter c) { state := st } acts := by
  have hbooks : NonceBooks c.toKeyAlg { state := st } :=
    ⟨create_keyed hlen h₀, nofun, nofun⟩
  rw [Along.iff_of_step (P := fun _ _ => True) (fun _ act h _ => NonceBooks.step hlen h act)
    (fun _ act h _ => h.noReuse_step act) hbooks (Along.of_forall fun _ _ => trivial)]
  exact and_iff_right List.Pairwise.nil

end Talk

/-- A group of two members, for the examples. -/
def sampleRoom : GroupState Bytes :=
  match GroupState.create sampleCrypto.toKeyAlg [7] [([1], mix [1]), ([2], mix [2])] with
  | .ok st => st
  | .error _ => ⟨[], 0, ⟨[], 0⟩, [], none, none, none⟩

theorem sampleRoom_created :
    GroupState.create sampleCrypto.toKeyAlg [7] [([1], mix [1]), ([2], mix [2])]
      = .ok sampleRoom := rfl

/-- Member 0 keeps a messenger and sends twice; a third member comes, sends a
text in the new epoch, and member 0 goes on where it was. -/
theorem no_nonce_reuse_kept :
    NoNonceReuse (runFrom (GroupTalk.step sampleCrypto) { state := sampleRoom }
      [.make 0, .encrypt 0 [104] [], .encrypt 0 [105] [], .change (.add [3] (mix [3])),
        .sendText 2 [106], .encrypt 0 [107] []]) :=
  (no_nonce_reuse_iff sampleCrypto_hkdf_length sampleRoom_created _).mpr (by decide +kernel)

/-- Two members send one message each, or one member sends two texts. -/
theorem second_sender_reuses_nonce :
    GroupState.create sampleCrypto.toKeyAlg [7] [([1], mix [1]), ([2], mix [2])]
        = .ok sampleRoom ∧
      ¬ NoNonceReuse (runFrom (GroupTalk.step sampleCrypto) { state := sampleRoom }
        [.make 0, .make 1, .encrypt 0 [104] [], .encrypt 1 [105] []]) ∧
      ¬ NoNonceReuse (runFrom (GroupTalk.step sampleCrypto) { state := sampleRoom }
        [.sendText 0 [104], .sendText 0 [105]]) :=
  ⟨sampleRoom_created, by decide +kernel, by decide +kernel⟩

end GhostChat.Proofs
