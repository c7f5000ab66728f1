import GhostChat.Proofs.SessionCalls
import GhostChat.Lib.Run
import GhostChat.Ref.Symbolic

/-!
# The receiving chain of the second ratchet

`ck_r` and `Nr` belong together: the chain key is the `Nr`-th from the one the
chain started with. The code moves them in separate statements. In the loop
over skipped messages the store is asked in between, and it refuses when it is
full; and when a new remote key comes, `Nr` and `dhr` are written before the
DH that makes the new chain.

So there are two ways out of step. The store is full: `ck_r` is one ahead, and
stays so. Or X25519 refuses the new key while there is a chain: the old chain
is then under a remote key that is not its own. Every other call that raises
leaves the two where they belong.
-/

namespace GhostChat.Proofs

open GhostChat.Lib GhostChat.Lib.Effect GhostChat.Ref

variable {K P C : Type} {c : Crypto K P C} {a : KeyAlg K}

/-! ## A ratchet and its chain -/

inductive RatchetCall (P C : Type) where
  | encrypt (plaintext ad : Bytes)
  | decrypt (message : EncryptedMessage C) (ad : Bytes) (generated : P)

/-- A ratchet, and next to it the remote key and the chain key with which the
current receiving chain started. Nothing in the program knows the second. -/
structure Traced (K P : Type) where
  state : RatchetState K P
  head : Option (Bytes × K)

/-- What a call to `decrypt` starts a chain with, if it starts one. -/
def startedChain (c : Crypto K P C) (s : RatchetState K P) (message : EncryptedMessage C)
    (generated : P) : Option (Bytes × K) :=
  let dhPub := message.header.dhPub
  if s.skippedKeys.has dhPub message.header.n ∨ (s.dhr = some dhPub ∧ s.ckR.isSome) then none
  else match DoubleRatchet.ensureReceivingChain c dhPub generated s with
    | .ok _ s' => s'.ckR.map (dhPub, ·)
    | .error _ _ => none

def Traced.step (c : Crypto K P C) (σ : Traced K P) : RatchetCall P C → Traced K P
  | .encrypt plaintext ad => { σ with
      state := after (DoubleRatchet.encrypt c plaintext ad σ.state) }
  | .decrypt message ad generated => {
      state := after (DoubleRatchet.decrypt c message ad generated σ.state)
      head := (startedChain c σ.state message generated).or σ.head }

/-- The chain key is the `Nr`-th from the start of the chain, the chain is the
one of the remote key, and so the next message of the chain, where it comes in
order, is tried with the key that belongs to it. -/
structure ChainInStep (c : Crypto K P C) (σ : Traced K P) : Prop where
  chain : σ.state.ckR = σ.head.map (chainKeyAt c.toKeyAlg ·.2 σ.state.Nr)
  remote : ∀ head, σ.head = some head → σ.state.dhr = some head.1
  next : ∀ head, σ.head = some head → ∀ (message : EncryptedMessage C) (ad : Bytes) (generated : P),
    message.header.dhPub = head.1 → message.header.n = σ.state.Nr →
    σ.state.skippedKeys.has message.header.dhPub message.header.n = false →
    DoubleRatchet.decryptKeyed c message ad generated σ.state =
      lift ((·, (kdfChain c.toKeyAlg (chainKeyAt c.toKeyAlg head.2 σ.state.Nr)).2) <$>
          DoubleRatchet.openWith c (kdfChain c.toKeyAlg (chainKeyAt c.toKeyAlg head.2 σ.state.Nr)).2
            message ad)
        { σ.state with
          ckR := some (chainKeyAt c.toKeyAlg head.2 (σ.state.Nr + 1)), Nr := σ.state.Nr + 1 }

namespace Ratchet

variable {s : RatchetState K P} {ck : K} {X : Bytes}

/-- The ratchet is `n` keys past `ck`, on the chain of `X`. -/
structure OnChain (a : KeyAlg K) (X : Bytes) (ck : K) (n : Nat) (s : RatchetState K P) : Prop where
  remote : s.dhr = some X
  key : s.ckR = some (chainKeyAt a ck n)

/-- One step of the chain. -/
theorem OnChain.nextReceivingKey {n : Nat} (hon : OnChain a X ck n s) :
    DoubleRatchet.nextReceivingKey a s = .ok (kdfChain a (chainKeyAt a ck n)).2
      { s with ckR := some (chainKeyAt a ck (n + 1)), Nr := s.Nr + 1 } := by
  simp only [DoubleRatchet.nextReceivingKey, bind_apply, get_apply, hon.key, modify_apply,
    chainKeyAt_succ]
  rfl

theorem OnChain.decryptOnChain (hon : OnChain c.toKeyAlg X ck s.Nr s) {message : EncryptedMessage C}
    (ad : Bytes) (hn : message.header.n = s.Nr) :
    DoubleRatchet.decryptOnChain c message ad s =
      lift ((·, (kdfChain c.toKeyAlg (chainKeyAt c.toKeyAlg ck s.Nr)).2) <$>
          DoubleRatchet.openWith c (kdfChain c.toKeyAlg (chainKeyAt c.toKeyAlg ck s.Nr)).2
            message ad)
        { s with ckR := some (chainKeyAt c.toKeyAlg ck (s.Nr + 1)), Nr := s.Nr + 1 } := by
  have hnot : ¬ message.header.n < s.Nr := by omega
  simp only [DoubleRatchet.decryptOnChain, bind_apply, get_apply, if_neg hnot,
    skipMessageKeys_done (le_of_eq hn), hon.nextReceivingKey]
  cases DoubleRatchet.openWith c (kdfChain c.toKeyAlg (chainKeyAt c.toKeyAlg ck s.Nr)).2 message ad
    <;> rfl

end Ratchet

theorem chainInStep_iff {σ : Traced K P} : ChainInStep c σ ↔
    σ.state.ckR = σ.head.map (chainKeyAt c.toKeyAlg ·.2 σ.state.Nr) ∧
      ∀ head, σ.head = some head → σ.state.dhr = some head.1 := by
  constructor
  · exact fun h => ⟨h.chain, h.remote⟩
  · rintro ⟨hchain, hremote⟩
    refine ⟨hchain, hremote, fun head hhead message ad generated hdh hn hhas => ?_⟩
    have hon : Ratchet.OnChain c.toKeyAlg head.1 head.2 σ.state.Nr σ.state := by
      refine ⟨hremote head hhead, ?_⟩
      rw [hchain, hhead]
      rfl
    rw [Ratchet.decryptKeyed_chain hhas, bind_apply, hdh,
      Ratchet.ensureReceivingChain_same hon.key hon.remote]
    exact hon.decryptOnChain ad hn

/-! ## Room for the skipped keys -/

/-- How many of the numbers from `lo` on, `len` of them, the store has no key
for. -/
def unfiled (store : Odict (Bytes × Int) K) (X : Bytes) (lo len : Nat) : Nat :=
  ((List.range' lo len).filter fun i : Nat => !Odict.has store (X, (i : Int))).length

/-- Each time the loop asks the store, from number `lo` on and `len` times, it
is not full. What it has a key for already takes no room. -/
def TakesAll (sk : SkippedKeyStore K) (X : Bytes) (lo len : Nat) : Prop :=
  ∀ i < len, sk.store.length + unfiled sk.store X lo i < sk.maxKeys

instance (sk : SkippedKeyStore K) (X : Bytes) (lo len : Nat) : Decidable (TakesAll sk X lo len) :=
  inferInstanceAs (Decidable (∀ i < len, _ < _))

theorem length_set (d : Odict (Bytes × Int) K) (key : Bytes × Int) (v : K) :
    (Odict.set d key v).length = d.length + if Odict.has d key then 0 else 1 := by
  cases hhas : Odict.has d key with
  | true =>
      have hkeys := congrArg List.length (Odict.set_keys_of_has hhas v)
      rw [Odict.keys, Odict.keys, List.length_map, List.length_map] at hkeys
      exact hkeys
  | false =>
      rw [Odict.set_of_not_has hhas, List.length_append]
      rfl

theorem unfiled_empty (X : Bytes) (lo len : Nat) :
    unfiled ([] : Odict (Bytes × Int) K) X lo len = len := by
  have hall : (List.range' lo len).filter
      (fun i : Nat => !Odict.has ([] : Odict (Bytes × Int) K) (X, (i : Int)))
        = List.range' lo len :=
    List.filter_eq_self.mpr fun _ _ => rfl
  rw [unfiled, hall, List.length_range']

/-- One round: there is room now, and for the rest once this key is filed. -/
theorem takesAll_succ (sk : SkippedKeyStore K) (X : Bytes) (lo len : Nat) (mk : K) :
    TakesAll sk X lo (len + 1) ↔ sk.store.length < sk.maxKeys ∧
      TakesAll { sk with store := Odict.set sk.store (X, (lo : Int)) mk } X (lo + 1) len := by
  have hcount : ∀ i, sk.store.length + unfiled sk.store X lo (i + 1)
      = (Odict.set sk.store (X, (lo : Int)) mk).length
        + unfiled (Odict.set sk.store (X, (lo : Int)) mk) X (lo + 1) i := by
    intro i
    have hrest : unfiled (Odict.set sk.store (X, (lo : Int)) mk) X (lo + 1) i
        = unfiled sk.store X (lo + 1) i := by
      rw [unfiled, unfiled]
      refine congrArg List.length (List.filter_congr fun j hj => ?_)
      have hlo := (List.mem_range'_1.mp hj).1
      have hne : (X, (j : Int)) ≠ (X, (lo : Int)) := by
        simp only [ne_eq, Prod.mk.injEq, true_and]
        omega
      rw [Odict.has_set, decide_eq_false hne, Bool.false_or]
    rw [hrest, length_set, unfiled, List.range'_succ, List.filter_cons]
    cases Odict.has sk.store (X, (lo : Int)) with
    | true => rfl
    | false =>
        simp only [Bool.not_false, if_true, List.length_cons, Bool.false_eq_true, if_false, unfiled]
        omega
  constructor
  · intro h
    refine ⟨h 0 (Nat.succ_pos len), fun i hi => ?_⟩
    rw [← hcount]
    exact h (i + 1) (Nat.succ_lt_succ hi)
  · rintro ⟨hnow, hrest⟩ i hi
    cases i with
    | zero => exact hnow
    | succ i =>
        rw [hcount]
        exact hrest i (Nat.lt_of_succ_lt_succ hi)

namespace Ratchet

variable {s : RatchetState K P} {ck : K} {X : Bytes}

/-- The loop, from a ratchet in step: with room it comes out in step, and
without it raises with the chain one ahead. -/
theorem skipLoop_cases (hon : OnChain a X ck s.Nr s) {upTo : Int} {fuel : Nat}
    (hfuel : s.Nr + fuel = upTo) :
    (TakesAll s.skippedKeys X s.Nr fuel ∧ ∃ s', DoubleRatchet.skipLoop a upTo fuel s = .ok () s' ∧
        OnChain a X ck s'.Nr s' ∧ (s'.Nr : Int) = upTo) ∨
      (¬ TakesAll s.skippedKeys X s.Nr fuel ∧ ∃ e s',
        DoubleRatchet.skipLoop a upTo fuel s = .error e s' ∧ OnChain a X ck (s'.Nr + 1) s') := by
  induction fuel generalizing s with
  | zero =>
      refine Or.inl ⟨fun i hi => absurd hi (Nat.not_lt_zero i), s, rfl, hon, ?_⟩
      rw [← hfuel]
      rfl
  | succ fuel ih =>
      have hlt : (s.Nr : Int) < upTo := by omega
      rw [skipLoop_round hlt hon.key hon.remote,
        takesAll_succ s.skippedKeys X s.Nr fuel (kdfChain a (chainKeyAt a ck s.Nr)).2]
      by_cases hfull : s.skippedKeys.store.length ≥ s.skippedKeys.maxKeys
      · rw [if_pos hfull]
        refine Or.inr ⟨fun h => absurd h.1 (not_lt.mpr hfull), _, _, rfl, hon.remote, ?_⟩
        exact congrArg some (chainKeyAt_succ ck s.Nr).symm
      · rw [if_neg hfull, and_iff_right (not_le.mp hfull)]
        let st : RatchetState K P := { s with
          ckR := some (kdfChain a (chainKeyAt a ck s.Nr)).1
          Nr := s.Nr + 1
          skippedKeys := { s.skippedKeys with
            store := Odict.set s.skippedKeys.store (X, (s.Nr : Int))
              (kdfChain a (chainKeyAt a ck s.Nr)).2 } }
        have hnext : OnChain a X ck st.Nr st :=
          ⟨hon.remote, congrArg some (chainKeyAt_succ ck s.Nr).symm⟩
        refine ih (s := st) hnext ?_
        show ((s.Nr + 1 : Nat) : Int) + fuel = upTo
        omega

/-- Where step 3 of `decrypt` leaves the chain. -/
theorem decryptOnChain_cases (hon : OnChain c.toKeyAlg X ck s.Nr s)
    (message : EncryptedMessage C) (ad : Bytes) :
    let s' := after (DoubleRatchet.decryptOnChain c message ad s)
    (TakesAll s.skippedKeys X s.Nr (message.header.n - s.Nr).toNat ∧
        OnChain c.toKeyAlg X ck s'.Nr s') ∨
      (¬ TakesAll s.skippedKeys X s.Nr (message.header.n - s.Nr).toNat ∧
        OnChain c.toKeyAlg X ck (s'.Nr + 1) s') := by
  by_cases hbehind : message.header.n < s.Nr
  · have hnone : (message.header.n - s.Nr).toNat = 0 := by omega
    rw [hnone, DoubleRatchet.decryptOnChain, bind_apply, get_apply]
    simp only [ite_run, bind_apply, throw_apply, if_pos hbehind]
    exact Or.inl ⟨fun i hi => absurd hi (Nat.not_lt_zero i), hon⟩
  · rw [DoubleRatchet.decryptOnChain, bind_apply, get_apply]
    simp only [if_neg hbehind]
    rw [bind_apply, skipMessageKeys_eq hon.key]
    have hfuel : (s.Nr : Int) + (message.header.n - s.Nr).toNat = message.header.n := by omega
    rcases skipLoop_cases hon hfuel with ⟨hroom, s', hloop, hon', hNr⟩ | ⟨hroom, e, s', hloop, hon'⟩
    · rw [hloop]
      simp only [bind_apply, hon'.nextReceivingKey]
      refine Or.inl ⟨hroom, ?_⟩
      -- The key is used up, whatever the AEAD says.
      cases DoubleRatchet.openWith c (kdfChain c.toKeyAlg (chainKeyAt c.toKeyAlg ck s'.Nr)).2
        message ad <;> exact ⟨hon'.remote, rfl⟩
    · rw [hloop]
      exact Or.inr ⟨hroom, hon'⟩

/-- Chain key, counter and remote key are as they were. -/
structure SameHearing (s s' : RatchetState K P) : Prop where
  key : s'.ckR = s.ckR
  count : s'.Nr = s.Nr
  remote : s'.dhr = s.dhr

theorem SameHearing.refl (s : RatchetState K P) : SameHearing s s := ⟨rfl, rfl, rfl⟩

variable {s₀ : RatchetState K P}

theorem onStore_hearing {α : Type} (x : EStateM Exn (SkippedKeyStore K) α) :
    Keeps (SameHearing s₀) (DoubleRatchet.onStore x : DoubleRatchet.Method K P α) :=
  onStore_keeps (fun _ _ h => ⟨h.key, h.count, h.remote⟩) x

theorem nextSendingKey_hearing : Keeps (SameHearing s₀) (DoubleRatchet.nextSendingKey c) := by
  intro s h
  cases hck : s.ckS with
  | some ck =>
      rw [nextSendingKey_open hck]
      exact ⟨h.key, h.count, h.remote⟩
  | none =>
      cases hdhr : s.dhr with
      | none =>
          rw [nextSendingKey_mute hck hdhr]
          exact h
      | some X =>
          cases hd : dhWith c (some s.dhs) X with
          | error e =>
              rw [nextSendingKey_refused hck hdhr hd]
              exact h
          | ok d =>
              rw [nextSendingKey_lazy hck hdhr hd]
              exact ⟨h.key, h.count, h.remote⟩

/-- `encrypt` has nothing to do with the receiving chain. -/
theorem encrypt_hearing (pt ad : Bytes) :
    SameHearing s (after (DoubleRatchet.encrypt c pt ad s)) := by
  have hseal : ∀ mk, Keeps (SameHearing s) (DoubleRatchet.sealWith c mk pt ad) := by
    intro mk s₁ h
    rcases sealWith_cases (c := c) (s := s₁) mk pt ad with ⟨e, he⟩ | ⟨nonce, ct, -, -, he⟩
    · rw [he]
      exact h
    · rw [he]
      exact ⟨h.key, h.count, h.remote⟩
  have hkeyed : Keeps (SameHearing s) (DoubleRatchet.encryptKeyed c pt ad) :=
    keeps_bind nextSendingKey_hearing fun mk => keeps_bind (hseal mk) fun _ => keeps_pure _
  have hrun := hkeyed s (.refl s)
  rw [DoubleRatchet.encrypt, map_apply]
  cases hcall : DoubleRatchet.encryptKeyed c pt ad s with
  | ok r s' => rwa [hcall] at hrun
  | error e s' => rwa [hcall] at hrun

theorem decrypt_after (message : EncryptedMessage C) (ad : Bytes) (g : P) :
    after (DoubleRatchet.decrypt c message ad g s)
      = after (DoubleRatchet.decryptKeyed c message ad g s) := by
  rw [DoubleRatchet.decrypt, map_apply]
  cases DoubleRatchet.decryptKeyed c message ad g s <;> rfl

/-- Nor has a skipped message. -/
theorem decrypt_hearing {message : EncryptedMessage C}
    (hhas : s.skippedKeys.has message.header.dhPub message.header.n = true) (ad : Bytes) (g : P) :
    SameHearing s (after (DoubleRatchet.decrypt c message ad g s)) := by
  have hpop : Keeps (SameHearing s) (do
      let mk ← DoubleRatchet.onStore (SkippedKeyStore.pop message.header.dhPub message.header.n)
      let plaintext ← lift (DoubleRatchet.openWith c mk message ad)
      return (plaintext, mk) : DoubleRatchet.Method K P (Bytes × K)) :=
    keeps_bind (onStore_hearing _) fun _ => keeps_bind (keeps_lift _) fun _ => keeps_pure _
  have hrun := hpop s (.refl s)
  rw [decrypt_after]
  simp only [DoubleRatchet.decryptKeyed, bind_apply, get_apply, ite_run, hhas, if_true]
  exact hrun

/-- A chain that is there stays there. -/
theorem decryptOnChain_open (message : EncryptedMessage C) (ad : Bytes) :
    Keeps (fun s : RatchetState K P => s.ckR.isSome)
      (DoubleRatchet.decryptOnChain c message ad) := by
  have hskip : Keeps (fun s : RatchetState K P => s.ckR.isSome)
      (DoubleRatchet.skipMessageKeys c.toKeyAlg message.header.n) :=
    skipMessageKeys_keeps (fun _ _ h => h) (fun _ _ _ => rfl) (fun _ _ h => h) _
  refine keeps_get_bind fun s h => ?_
  refine keeps_guard (keeps_bind hskip fun _ => ?_) s h
  refine keeps_bind (keeps_get_bind fun s h => ?_) fun mk =>
    keeps_bind (keeps_lift _) fun _ => keeps_pure _
  cases s.ckR with
  | none => exact h
  | some ck => rfl

/-- What a call finds of its message's chain, and what it makes of it. -/
theorem ensureReceivingChain_cases (hfresh : s.ckR = none → s.Nr = 0) (X : Bytes) (g : P) :
    (s.dhr = some X ∧ s.ckR.isSome ∧ DoubleRatchet.ensureReceivingChain c X g s = .ok () s) ∨
      (¬ (s.dhr = some X ∧ s.ckR.isSome) ∧ ∃ d s', dhWith c (some s.dhs) X = .ok d ∧
        DoubleRatchet.ensureReceivingChain c X g s = .ok () s' ∧
        s'.skippedKeys = s.skippedKeys ∧ s'.Nr = 0 ∧
        OnChain c.toKeyAlg X (kdfRoot c.toKeyAlg s.rootKey d).2 0 s') ∨
      (¬ (s.dhr = some X ∧ s.ckR.isSome) ∧ ∃ e s', dhWith c (some s.dhs) X = .error e ∧
        DoubleRatchet.ensureReceivingChain c X g s = .error e s' ∧
        s'.ckR = s.ckR ∧ s'.Nr = 0 ∧ s'.dhr = some X) := by
  by_cases hdhr : s.dhr = some X
  · cases hck : s.ckR with
    | some ck => exact Or.inl ⟨hdhr, rfl, ensureReceivingChain_same hck hdhr⟩
    | none =>
        have hnot : ¬ (s.dhr = some X ∧ (none : Option K).isSome) := fun h => by cases h.2
        cases hd : dhWith c (some s.dhs) X with
        | ok d =>
            exact Or.inr (Or.inl ⟨hnot, d, _, rfl, ensureReceivingChain_late hck hdhr hd, rfl,
              hfresh hck, hdhr, rfl⟩)
        | error e =>
            exact Or.inr (Or.inr ⟨hnot, e, s, rfl, ensureReceivingChain_lateRefused hck hdhr hd,
              hck, hfresh hck, hdhr⟩)
  · have hnot : ¬ (s.dhr = some X ∧ s.ckR.isSome) := fun h => hdhr h.1
    cases hd : dhWith c (some s.dhs) X with
    | ok d =>
        exact Or.inr (Or.inl ⟨hnot, d, _, rfl, ensureReceivingChain_turn hdhr hd, rfl, rfl,
          rfl, rfl⟩)
    | error e =>
        exact Or.inr (Or.inr ⟨hnot, e, _, rfl, ensureReceivingChain_turnRefused hdhr hd, rfl,
          rfl, rfl⟩)

end Ratchet

/-! ## One call -/

/-- A chain that is not there has no messages, and every chain comes from the
root KDF. -/
structure Chained (a : KeyAlg K) (σ : Traced K P) : Prop where
  fresh : σ.state.ckR = none → σ.state.Nr = 0
  derived : ∀ head, σ.head = some head → ∃ r d, head.2 = (kdfRoot a r d).2

/-- The message of the call is one that was skipped; or the store has room for
all that it skips, on its own chain or a new one; or X25519 refuses its key,
and there is no chain to lose. -/
def KeepsStep (c : Crypto K P C) (σ : Traced K P) : RatchetCall P C → Prop
  | .encrypt _ _ => True
  | .decrypt message _ _ =>
      let s := σ.state
      let dhPub := message.header.dhPub
      let n := message.header.n
      s.skippedKeys.has dhPub n = true ∨
        if s.dhr = some dhPub ∧ s.ckR.isSome then
          TakesAll s.skippedKeys dhPub s.Nr (n - s.Nr).toNat
        else if (dhWith c (some s.dhs) dhPub).isOk then TakesAll s.skippedKeys dhPub 0 n.toNat
        else s.ckR = none

instance KeepsStep.decidable [DecidableEq K] (σ : Traced K P) :
    (call : RatchetCall P C) → Decidable (KeepsStep c σ call)
  | .encrypt _ _ => inferInstanceAs (Decidable True)
  | .decrypt message _ _ => inferInstanceAs (Decidable (_ ∨
      if σ.state.dhr = some message.header.dhPub ∧ σ.state.ckR.isSome then TakesAll _ _ _ _
      else if (dhWith c (some σ.state.dhs) message.header.dhPub).isOk then TakesAll _ _ _ _
      else _ = _))

theorem Chained.next_ne {σ : Traced K P} (hσ : Chained a σ) (ha : a.Injective)
    {head : Bytes × K} (hhead : σ.head = some head) (n : Nat) :
    chainKeyAt a head.2 (n + 1) ≠ chainKeyAt a head.2 n := by
  obtain ⟨r, d, hd⟩ := hσ.derived head hhead
  intro heq
  have hstart : ∀ ck, (kdfChain a ck).1 ≠ head.2 := fun ck h =>
    kdfRoot_snd_ne_chain ha r d ck (by rw [← hd, h])
  obtain ⟨-, hn⟩ := Chain.iterate_inj (fun _ _ h => kdfChain_fst_inj ha h) hstart hstart heq
  omega

theorem ChainInStep.congr {σ σ' : Traced K P} (hhead : σ'.head = σ.head)
    (hsame : Ratchet.SameHearing σ.state σ'.state) : ChainInStep c σ' ↔ ChainInStep c σ := by
  rw [chainInStep_iff, chainInStep_iff, hhead, hsame.key, hsame.count, hsame.remote]

/-- What a ratchet on a chain makes of a message is in step exactly if the
store has room. -/
theorem inStep_decryptOnChain (ha : c.toKeyAlg.Injective) {σ : Traced K P} {s : RatchetState K P}
    {message : EncryptedMessage C} {ad : Bytes} {X : Bytes} {ck : K}
    (hσ : Chained c.toKeyAlg σ) (hon : Ratchet.OnChain c.toKeyAlg X ck s.Nr s)
    (hhead : σ.head = some (X, ck))
    (hstate : σ.state = after (DoubleRatchet.decryptOnChain c message ad s)) :
    ChainInStep c σ ↔ TakesAll s.skippedKeys X s.Nr (message.header.n - s.Nr).toNat := by
  rw [chainInStep_iff, hhead]
  rcases Ratchet.decryptOnChain_cases hon message ad with ⟨hroom, hafter⟩ | ⟨hroom, hafter⟩
  · rw [← hstate] at hafter
    refine iff_of_true ⟨hafter.key, fun head hX => ?_⟩ hroom
    cases hX
    exact hafter.remote
  · rw [← hstate] at hafter
    refine iff_of_false (fun h => ?_) hroom
    have hkey := hafter.key.symm.trans h.1
    exact hσ.next_ne ha hhead σ.state.Nr (Option.some.inj hkey)

theorem startedChain_skipped {s : RatchetState K P} {message : EncryptedMessage C}
    (hhas : s.skippedKeys.has message.header.dhPub message.header.n = true) (g : P) :
    startedChain c s message g = none := by
  rw [startedChain]
  simp only [hhas, true_or, if_true]

theorem startedChain_same {s : RatchetState K P} {message : EncryptedMessage C}
    (hsame : s.dhr = some message.header.dhPub ∧ s.ckR.isSome) (g : P) :
    startedChain c s message g = none := by
  rw [startedChain]
  simp only [hsame, and_self, or_true, if_true]

theorem startedChain_new {s : RatchetState K P} {message : EncryptedMessage C} {g : P}
    (hhas : s.skippedKeys.has message.header.dhPub message.header.n = false)
    (hnot : ¬ (s.dhr = some message.header.dhPub ∧ s.ckR.isSome)) :
    startedChain c s message g
      = match DoubleRatchet.ensureReceivingChain c message.header.dhPub g s with
        | .ok _ s' => s'.ckR.map (message.header.dhPub, ·)
        | .error _ _ => none := by
  have hno : ¬ (s.skippedKeys.has message.header.dhPub message.header.n = true ∨
      (s.dhr = some message.header.dhPub ∧ s.ckR.isSome)) := by
    rw [hhas, or_iff_right (by decide)]
    exact hnot
  exact if_neg hno

/-- What a call to `decrypt` does to a ratchet in whatever state: a skipped
message does nothing to the chain, a message of the chain or of a new one runs
on it, and a key that X25519 refuses is written down. -/
theorem Traced.decrypt_cases {σ : Traced K P} (hσ : Chained c.toKeyAlg σ)
    (message : EncryptedMessage C) (ad : Bytes) (g : P) :
    let σ' := σ.step c (.decrypt message ad g)
    let X := message.header.dhPub
    (σ.state.skippedKeys.has X message.header.n = true ∧ σ'.head = σ.head ∧
        Ratchet.SameHearing σ.state σ'.state) ∨
      (σ.state.skippedKeys.has X message.header.n = false ∧
        ((σ.state.dhr = some X ∧ σ.state.ckR.isSome) ∧ σ'.head = σ.head ∧
            σ'.state = after (DoubleRatchet.decryptOnChain c message ad σ.state) ∨
          ¬ (σ.state.dhr = some X ∧ σ.state.ckR.isSome) ∧
            ((∃ d s', dhWith c (some σ.state.dhs) X = .ok d ∧
                σ'.head = some (X, (kdfRoot c.toKeyAlg σ.state.rootKey d).2) ∧
                s'.skippedKeys = σ.state.skippedKeys ∧ s'.Nr = 0 ∧
                Ratchet.OnChain c.toKeyAlg X (kdfRoot c.toKeyAlg σ.state.rootKey d).2 0 s' ∧
                σ'.state = after (DoubleRatchet.decryptOnChain c message ad s')) ∨
              ∃ e, dhWith c (some σ.state.dhs) X = .error e ∧ σ'.head = σ.head ∧
                σ'.state.ckR = σ.state.ckR ∧ σ'.state.Nr = 0 ∧ σ'.state.dhr = some X))) := by
  intro σ' X
  cases hhas : σ.state.skippedKeys.has X message.header.n with
  | true =>
      refine Or.inl ⟨rfl, ?_, Ratchet.decrypt_hearing hhas ad g⟩
      show (startedChain c σ.state message g).or σ.head = σ.head
      rw [startedChain_skipped hhas]
      rfl
  | false =>
      refine Or.inr ⟨rfl, ?_⟩
      have hstate : σ'.state = after ((DoubleRatchet.ensureReceivingChain c X g >>= fun _ =>
          DoubleRatchet.decryptOnChain c message ad) σ.state) := by
        show after (DoubleRatchet.decrypt c message ad g σ.state) = _
        rw [Ratchet.decrypt_after, Ratchet.decryptKeyed_chain hhas]
      rw [bind_apply] at hstate
      rcases Ratchet.ensureReceivingChain_cases (c := c) hσ.fresh X g with
        ⟨hdhr, hck, hensure⟩ | ⟨hnot, d, s', hd, hensure, hstore, hNr, hon⟩ |
          ⟨hnot, e, s', hd, hensure, hck, hNr, hdhr⟩
      · rw [hensure] at hstate
        refine Or.inl ⟨⟨hdhr, hck⟩, ?_, hstate⟩
        show (startedChain c σ.state message g).or σ.head = σ.head
        rw [startedChain_same ⟨hdhr, hck⟩]
        rfl
      · rw [hensure] at hstate
        refine Or.inr ⟨hnot, Or.inl ⟨d, s', hd, ?_, hstore, hNr, hon, hstate⟩⟩
        show (startedChain c σ.state message g).or σ.head = _
        rw [startedChain_new hhas hnot, hensure]
        simp only [hon.key]
        rfl
      · rw [hensure] at hstate
        refine Or.inr ⟨hnot, Or.inr ⟨e, hd, ?_, ?_, ?_, ?_⟩⟩
        · show (startedChain c σ.state message g).or σ.head = σ.head
          rw [startedChain_new hhas hnot, hensure]
          rfl
        · rw [hstate]
          exact hck
        · rw [hstate]
          exact hNr
        · rw [hstate]
          exact hdhr

theorem Chained.step {σ : Traced K P} (hσ : Chained c.toKeyAlg σ) (call : RatchetCall P C) :
    Chained c.toKeyAlg (σ.step c call) := by
  cases call with
  | encrypt pt ad =>
      have hsame := Ratchet.encrypt_hearing (c := c) (s := σ.state) pt ad
      refine ⟨fun hck => ?_, hσ.derived⟩
      rw [show (σ.step c (.encrypt pt ad)).state.Nr = σ.state.Nr from hsame.count]
      exact hσ.fresh (hsame.key.symm.trans hck)
  | decrypt message ad g =>
      have hopen : ∀ s : RatchetState K P, s.ckR.isSome →
          (after (DoubleRatchet.decryptOnChain c message ad s)).ckR ≠ none := by
        intro s hs hnone
        have hkept : (after (DoubleRatchet.decryptOnChain c message ad s)).ckR.isSome :=
          Ratchet.decryptOnChain_open message ad s hs
        rw [hnone] at hkept
        cases hkept
      rcases Traced.decrypt_cases hσ message ad g with ⟨-, hhead, hsame⟩ | ⟨-, hrun⟩
      · refine ⟨fun hck => ?_, by rw [hhead]; exact hσ.derived⟩
        rw [hsame.count]
        exact hσ.fresh (hsame.key.symm.trans hck)
      rcases hrun with ⟨⟨-, hck⟩, hhead, hstate⟩ | ⟨-, ⟨d, s', -, hhead, -, -, hon, hstate⟩ |
        ⟨e, -, hhead, -, hNr, -⟩⟩
      · refine ⟨fun hnone => ?_, by rw [hhead]; exact hσ.derived⟩
        rw [hstate] at hnone
        exact absurd hnone (hopen _ hck)
      · refine ⟨fun hnone => ?_, fun head hX => ?_⟩
        · rw [hstate] at hnone
          exact absurd hnone (hopen _ (by rw [hon.key]; rfl))
        · rw [hhead] at hX
          cases hX
          exact ⟨_, d, rfl⟩
      · exact ⟨fun _ => hNr, by rw [hhead]; exact hσ.derived⟩

/-- A call keeps the ratchet in step exactly where it is one of those. -/
theorem step_inStep_iff (ha : c.toKeyAlg.Injective) {σ : Traced K P} (hσ : Chained c.toKeyAlg σ)
    (h : ChainInStep c σ) (call : RatchetCall P C) :
    ChainInStep c (σ.step c call) ↔ KeepsStep c σ call := by
  cases call with
  | encrypt pt ad =>
      have hiff : ChainInStep c (σ.step c (.encrypt pt ad)) ↔ ChainInStep c σ :=
        ChainInStep.congr rfl (Ratchet.encrypt_hearing pt ad)
      exact iff_of_true (hiff.mpr h) trivial
  | decrypt message ad g =>
      have hσ' := hσ.step (.decrypt message ad g)
      rw [KeepsStep]
      rcases Traced.decrypt_cases hσ message ad g with ⟨hhas, hhead, hsame⟩ | ⟨hhas, hrun⟩
      · exact iff_of_true ((ChainInStep.congr hhead hsame).mpr h) (Or.inl hhas)
      simp only [hhas, Bool.false_eq_true, false_or]
      rcases hrun with ⟨hown, hhead, hstate⟩ | ⟨hnot, ⟨d, s', hd, hhead, hstore, hNr, hon, hstate⟩ |
        ⟨e, hd, hhead, hck, hNr, hdhr⟩⟩
      · rw [if_pos hown]
        obtain ⟨⟨X, ck⟩, hX⟩ : ∃ head, σ.head = some head := by
          refine Option.ne_none_iff_exists'.mp fun hnone => ?_
          have hck := hown.2
          rw [h.chain, hnone] at hck
          cases hck
        have hdhr : σ.state.dhr = some X := h.remote _ hX
        obtain rfl : X = message.header.dhPub := Option.some.inj (hdhr.symm.trans hown.1)
        have hon : Ratchet.OnChain c.toKeyAlg message.header.dhPub ck σ.state.Nr σ.state :=
          ⟨hdhr, by rw [h.chain, hX]; rfl⟩
        exact inStep_decryptOnChain ha hσ' hon (hhead.trans hX) hstate
      · rw [if_neg hnot, hd, if_pos (show (Except.ok d : Except Exn K).isOk = true from rfl)]
        rw [← hNr] at hon
        rw [inStep_decryptOnChain ha hσ' hon hhead hstate, hstore, hNr]
        simp
      · rw [if_neg hnot, hd, if_neg (show ¬ (Except.error e : Except Exn K).isOk = true from
          Bool.false_ne_true), chainInStep_iff, hhead, hck, hdhr]
        cases hX : σ.head with
        | none =>
            have hnone : σ.state.ckR = none := by rw [h.chain, hX]; rfl
            exact iff_of_true ⟨hnone, by rintro _ ⟨⟩⟩ hnone
        | some head =>
            -- The chain is still the old one, and the remote key is not.
            have hsome : σ.state.ckR.isSome := by rw [h.chain, hX]; rfl
            refine iff_of_false (fun h' => ?_) fun hnone => ?_
            · exact hnot ⟨(h.remote head hX).trans (h'.2 head rfl).symm, hsome⟩
            · rw [hnone] at hsome
              cases hsome

/-! ## Runs -/

/-- A new ratchet: what `__init__` gives, with the chain it starts with if it
is the responder's. -/
def Traced.start (s : RatchetState K P) : Traced K P where
  state := s
  head := s.ckR.bind fun ck => s.dhr.map (·, ck)

theorem init_inStep {rootKey : K} {dhs : Option P} {dhr : Option Bytes} {isInitiator : Bool}
    {maxSkippedKeys : Nat} {generated : P} {s : RatchetState K P}
    (h₀ : DoubleRatchet.init c rootKey dhs dhr isInitiator maxSkippedKeys generated = .ok s) :
    Chained c.toKeyAlg (Traced.start s) ∧ ChainInStep c (Traced.start s) := by
  rw [chainInStep_iff]
  cases dhr with
  | none =>
      cases h₀
      exact ⟨⟨fun _ => rfl, by rintro _ ⟨⟩⟩, rfl, by rintro _ ⟨⟩⟩
  | some peer =>
      obtain ⟨shared, -, hret⟩ := except_bind_ok h₀
      cases hret
      cases isInitiator with
      | true => exact ⟨⟨fun _ => rfl, by rintro _ ⟨⟩⟩, rfl, by rintro _ ⟨⟩⟩
      | false =>
          refine ⟨⟨fun _ => rfl, ?_⟩, rfl, ?_⟩
          · rintro _ ⟨⟩
            exact ⟨rootKey, shared, rfl⟩
          · rintro _ ⟨⟩
            rfl

/-- In every state of every run of a ratchet, through calls that return or
raise: the receiving chain is in step, exactly if every call keeps it so. -/
theorem in_step_iff (ha : c.toKeyAlg.Injective) {rootKey : K} {dhs : Option P}
    {dhr : Option Bytes} {isInitiator : Bool} {maxSkippedKeys : Nat} {generated : P}
    {s : RatchetState K P}
    (h₀ : DoubleRatchet.init c rootKey dhs dhr isInitiator maxSkippedKeys generated = .ok s)
    (calls : List (RatchetCall P C)) :
    (∀ n, ChainInStep c (runFrom (Traced.step c) (Traced.start s) (calls.take n))) ↔
      Along (Traced.step c) (KeepsStep c) (Traced.start s) calls := by
  obtain ⟨hchained, hstep⟩ := init_inStep h₀
  exact Along.always_iff (I := Chained c.toKeyAlg) (fun _ call hσ => hσ.step call)
    (fun _ call hσ h => step_inStep_iff ha hσ h call) hchained hstep

/-! ## The symbolic model -/

/-- A responder's ratchet, new. -/
def symHearer (maxSkippedKeys : Nat) : RatchetState SymKey Nat :=
  let derived := kdfRoot symKeys symRoot
    (.atom (.shared (unordered (symPublicKey 2) (symPublicKey 1))))
  { rootKey := derived.1, dhs := 2, dhr := some (symPublicKey 1), ckS := none
    ckR := some derived.2, skippedKeys := { maxKeys := maxSkippedKeys } }

theorem symHearer_init (maxSkippedKeys : Nat) :
    DoubleRatchet.init symbolic symRoot (some 2) (some (symPublicKey 1)) false maxSkippedKeys 2
      = .ok (symHearer maxSkippedKeys) := rfl

/-- A message nobody sealed. -/
def junkMessage (dhPub : Bytes) (n : Int) : EncryptedMessage Box :=
  { header := { dhPub := dhPub, pn := 0, n := n }
    ciphertext := { key := symRoot, nonce := [], data := [], ad := [] } }

/-- Numbers out of order, a number that is behind, a new remote key. -/
def symCalls : List (RatchetCall Nat Box) := [
  .decrypt (junkMessage (symPublicKey 1) 2) [] 3, .encrypt [10] [],
  .decrypt (junkMessage (symPublicKey 1) 0) [] 4, .decrypt (junkMessage (symPublicKey 1) 0) [] 5,
  .decrypt (junkMessage (symPublicKey 7) 1) [] 6]

theorem in_step_hearer :
    Along (Traced.step symbolic) (KeepsStep symbolic) (Traced.start (symHearer 2)) symCalls ∧
      ∀ n, ChainInStep symbolic
        (runFrom (Traced.step symbolic) (Traced.start (symHearer 2)) (symCalls.take n)) := by
  have hcalls : Along (Traced.step symbolic) (KeepsStep symbolic) (Traced.start (symHearer 2))
      symCalls := by decide +kernel
  exact ⟨hcalls, (in_step_iff symKeys_injective (symHearer_init 2) symCalls).mpr hcalls⟩

/-- Room for a thousand keys, and a message that skips one more: the chain key
runs one ahead of `Nr`. -/
theorem chain_runs_ahead :
    ¬ ∀ calls : List (RatchetCall Nat Box), ∀ n, ChainInStep symbolic
      (runFrom (Traced.step symbolic) (Traced.start (symHearer 1000)) (calls.take n)) := by
  intro h
  obtain ⟨hchained, hstart⟩ := init_inStep (symHearer_init 1000)
  have hstep := h [.decrypt (junkMessage (symPublicKey 1) 1001) [] 3] 1
  rw [List.take_succ_cons, List.take_zero, runFrom, runFrom] at hstep
  have hkeeps := (step_inStep_iff symKeys_injective hchained hstart _).mp hstep
  rcases hkeeps with hhas | hroom
  · cases hhas
  · rw [if_pos ⟨rfl, rfl⟩] at hroom
    have hlast : 1000 < ((1001 : Int) - (0 : Nat)).toNat := by omega
    have hfull := hroom 1000 hlast
    simp only [Traced.start, symHearer, unfiled_empty, List.length_nil, Nat.zero_add,
      Nat.lt_irrefl] at hfull

end GhostChat.Proofs
