import GhostChat.Ref.Ratchet

/-!
# What each call of the engine can do

The engine's methods run symbolically, once. Each method gets the equations
or the case list that says everything it can do to a state, guards included,
and the files after this one cite those and never unfold a method again.

Two facts stand out on the way. `skipReceivingUntil s.Nr` does nothing: the
two calls of it on the ratchet branches are handed the counter they start
from, so the loop runs no round (`skipReceivingUntil_self`). And
`dhRatchetReceive` has written the counters and the remote key by the time
the DH can fail (`dhRatchetReceive_failed`).
-/

namespace GhostChat.Proofs

open GhostChat.Lib GhostChat.Lib.Effect GhostChat.Ref

variable {K P C : Type} {c : Crypto K P C} {a : KeyAlg K}
  {s : DoubleRatchetState K P}

/-! ## DH -/

/-- On a 32-byte public key and a private key that is there, the DH raises
only because the library refused the public key. -/
theorem dhWith_some {p : P} {dh : Bytes} (hlen : dh.length = 32) :
    dhWith c (some p) dh = match c.sharedKey p dh with
      | some k => .ok k
      | none => .error (.runtimeError "Unexpected library error") := by
  cases hk : c.sharedKey p dh <;> simp [dhWith, dhPubLen, hlen, hk]

theorem dhWith_ok {dhs : Option P} {dh : Bytes} {k : K}
    (h : dhWith c dhs dh = .ok k) :
    ∃ p, dhs = some p ∧ c.sharedKey p dh = some k := by
  unfold dhWith at h
  split at h
  · cases h
  · split at h
    · cases h
    · next p =>
        split at h
        · next k' hk => injection h with h; exact ⟨p, rfl, by rw [hk, h]⟩
        · cases h

/-! ## The stores -/

/-- `add` on arguments of the right lengths. A number past the uint32 range
raises and touches nothing; a store of capacity zero is emptied and raises;
any other call evicts and files the key. -/
theorem skipped_add_cases {dh : Bytes} {n : Nat} {key : K}
    (hdh : dh.length = 32) (hkey : (a.bytes key).length = 32)
    (sk : SkippedMessageKeys K) :
    (∃ e store, SkippedMessageKeys.add a dh n key sk = .error e { sk with store := store } ∧
      store.Sublist sk.store ∧ (2 ^ 32 ≤ n ∨ sk.maxKeys = 0)) ∨
    (n < 2 ^ 32 ∧ 0 < sk.maxKeys ∧ SkippedMessageKeys.add a dh n key sk = .ok ()
      { sk with store := Odict.set (evictTo sk.maxKeys sk.store).1 (dh, n) key }) := by
  by_cases hn : n > 0xFFFFFFFF
  · exact Or.inl ⟨_, sk.store,
      by simp [SkippedMessageKeys.add, dhPubLen, hdh, hkey, hn]; rfl,
      List.Sublist.refl _, Or.inl (by omega)⟩
  · rcases Nat.eq_zero_or_pos sk.maxKeys with hz | hroom
    · refine Or.inl ⟨.keyError "dictionary is empty", (evictTo sk.maxKeys sk.store).1, ?_,
        evictTo_sublist _ _, Or.inr hz⟩
      simp [SkippedMessageKeys.add, dhPubLen, hdh, hkey, hn, hz, evictTo_zero]
    · have hev : (evictTo sk.maxKeys sk.store).2 = false := evictTo_flag hroom _
      exact Or.inr ⟨by omega, hroom,
        by simp [SkippedMessageKeys.add, dhPubLen, hdh, hkey, hn, hev]⟩

/-- `add` on any arguments: it raises with some entries gone at most, or the
lengths are right and the key is filed. -/
theorem skipped_add_any (dh : Bytes) (n : Nat) (key : K) (sk : SkippedMessageKeys K) :
    (∃ e store, SkippedMessageKeys.add a dh n key sk = .error e { sk with store := store } ∧
      store.Sublist sk.store) ∨
    (dh.length = 32 ∧ (a.bytes key).length = 32 ∧ n < 2 ^ 32 ∧ 0 < sk.maxKeys ∧
      SkippedMessageKeys.add a dh n key sk = .ok ()
        { sk with store := Odict.set (evictTo sk.maxKeys sk.store).1 (dh, n) key }) := by
  by_cases hdh : dh.length = 32
  · by_cases hkey : (a.bytes key).length = 32
    · rcases skipped_add_cases (n := n) hdh hkey sk with
        ⟨e, store, hadd, hsub, -⟩ | ⟨hn, hroom, hadd⟩
      · exact Or.inl ⟨e, store, hadd, hsub⟩
      · exact Or.inr ⟨hdh, hkey, hn, hroom, hadd⟩
    · exact Or.inl ⟨_, sk.store,
        by simp [SkippedMessageKeys.add, dhPubLen, hdh, hkey]; rfl, List.Sublist.refl _⟩
  · exact Or.inl ⟨_, sk.store,
      by simp [SkippedMessageKeys.add, dhPubLen, hdh]; rfl, List.Sublist.refl _⟩

/-- The replay cache does the same with a number it does not have. One it has
changes nothing. -/
theorem received_add_cases (dh : Bytes) (n : Nat) (r : ReceivedIdsStore) :
    (∃ e order, ReceivedIdsStore.add dh n r = .error e { r with order := order } ∧
      order.Sublist r.order ∧ (2 ^ 32 ≤ n ∨ r.maxSize = 0)) ∨
    (n < 2 ^ 32 ∧ (dh, n) ∈ r.order ∧ ReceivedIdsStore.add dh n r = .ok () r) ∨
    (n < 2 ^ 32 ∧ (dh, n) ∉ r.order ∧ 0 < r.maxSize ∧ ReceivedIdsStore.add dh n r = .ok ()
      { r with order := (evictTo r.maxSize r.order).1 ++ [(dh, n)] }) := by
  by_cases hn : n > 0xFFFFFFFF
  · exact Or.inl ⟨_, r.order, by simp [ReceivedIdsStore.add, hn]; rfl,
      List.Sublist.refl _, Or.inl (by omega)⟩
  · have hrange : n < 2 ^ 32 := by omega
    by_cases hin : (dh, n) ∈ r.order
    · exact Or.inr (Or.inl ⟨hrange, hin,
        by simp [ReceivedIdsStore.add, ReceivedIdsStore.contains, hn, hin]⟩)
    · rcases Nat.eq_zero_or_pos r.maxSize with hz | hroom
      · refine Or.inl ⟨.keyError "dictionary is empty", (evictTo r.maxSize r.order).1, ?_,
          evictTo_sublist _ _, Or.inr hz⟩
        simp [ReceivedIdsStore.add, ReceivedIdsStore.contains, hn, hin, hz, evictTo_zero]
      · have hev : (evictTo r.maxSize r.order).2 = false := evictTo_flag hroom _
        exact Or.inr (Or.inr ⟨hrange, hin, hroom,
          by simp [ReceivedIdsStore.add, ReceivedIdsStore.contains, hn, hin, hev]⟩)

theorem skipped_add_maxKeys {dh : Bytes} {n : Nat} {key : K} {u : Unit}
    {sk sk' : SkippedMessageKeys K}
    (h : SkippedMessageKeys.add a dh n key sk = .ok u sk') : sk'.maxKeys = sk.maxKeys := by
  simp only [SkippedMessageKeys.add, bind_apply, ite_run, throw_apply, get_apply,
    modify_apply] at h
  repeat' split at h
  all_goals cases h
  rfl

theorem skipped_pop_of_get {dh : Bytes} {n : Nat} {mk : K}
    {sk : SkippedMessageKeys K} (h : Odict.get? sk.store (dh, n) = some mk) :
    SkippedMessageKeys.pop dh n sk
      = .ok mk { sk with store := Odict.erase sk.store (dh, n) } := by
  simp [SkippedMessageKeys.pop, h]

/-! ## Skipping -/

/-- The state with its receiving chain, its skipped keys and its counter
replaced: all that skipping and taking a key can touch. -/
def withRecv (s : DoubleRatchetState K P) (ck : Option K)
    (store : Odict (Bytes × Nat) K) (Nr : Nat) : DoubleRatchetState K P :=
  { s with
    receivingChainKey := ck
    skippedMessageKeys := { s.skippedMessageKeys with store := store }
    Nr := Nr }

theorem withRecv_self : withRecv s s.receivingChainKey s.skippedMessageKeys.store s.Nr
    = s := rfl

theorem skipReceivingLoop_done {dh : Bytes} {upTo : Nat} (h : upTo ≤ s.Nr)
    (fuel : Nat) : skipReceivingLoop a dh upTo fuel s = .ok () s := by
  cases fuel with
  | zero => rfl
  | succ fuel =>
      rw [skipReceivingLoop]
      simp only [bind_apply, get_apply, if_neg (Nat.not_lt.mpr h), pure_apply]

/-- One round whose key the store accepts. -/
theorem skipReceivingLoop_filed {dh : Bytes} {upTo fuel : Nat} {ck : K}
    {sk : SkippedMessageKeys K} (hlt : s.Nr < upTo)
    (hck : s.receivingChainKey = some ck)
    (hadd : SkippedMessageKeys.add a dh s.Nr (kdfChain a ck).2
      s.skippedMessageKeys = .ok () sk) :
    skipReceivingLoop a dh upTo (fuel + 1) s = skipReceivingLoop a dh upTo fuel
      (withRecv s (some (kdfChain a ck).1) sk.store (s.Nr + 1)) := by
  have hcap := skipped_add_maxKeys hadd
  obtain ⟨cap, store⟩ := sk
  subst hcap
  rw [skipReceivingLoop]
  simp only [bind_apply, get_apply, if_pos hlt, hck, modify_apply, onSkipped, zoom,
    hadd]
  rfl

/-- One round whose key the store refuses: the chain has moved, the counter
has not. -/
theorem skipReceivingLoop_refused {dh : Bytes} {upTo fuel : Nat} {ck : K} {e : Exn}
    {sk : SkippedMessageKeys K} (hlt : s.Nr < upTo)
    (hck : s.receivingChainKey = some ck)
    (hadd : SkippedMessageKeys.add a dh s.Nr (kdfChain a ck).2
      s.skippedMessageKeys = .error e sk) :
    skipReceivingLoop a dh upTo (fuel + 1) s = .error e { s with
      receivingChainKey := some (kdfChain a ck).1
      skippedMessageKeys := sk } := by
  rw [skipReceivingLoop]
  simp only [bind_apply, get_apply, if_pos hlt, hck, modify_apply, onSkipped, zoom,
    hadd]

theorem skipReceivingUntil_some {dh : Bytes} {ck : K} {upTo : Nat}
    (hck : s.receivingChainKey = some ck) (hd : s.dhr = some dh) :
    skipReceivingUntil a upTo s = skipReceivingLoop a dh upTo (upTo - s.Nr) s := by
  simp only [skipReceivingUntil, bind_apply, get_apply, hck, hd]

/-- Skipping up to where the counter stands is no skipping at all. -/
theorem skipReceivingUntil_self : skipReceivingUntil a s.Nr s = .ok () s := by
  simp only [skipReceivingUntil, bind_apply, get_apply]
  cases s.receivingChainKey with
  | none => rfl
  | some ck =>
      cases s.dhr with
      | none => rfl
      | some dh => exact skipReceivingLoop_done (Nat.le_refl _) _

/-! ## The DH ratchet -/

/-- What `_dh_ratchet_receive` has written before the DH. -/
def turned (s : DoubleRatchetState K P) (dh : Bytes) : DoubleRatchetState K P :=
  { s with PN := s.Ns, Ns := 0, Nr := 0, dhr := some dh }

theorem dhRatchetReceive_failed {dh : Bytes} {g : P} {e : Exn}
    (h : dhWith c s.dhsPrivate dh = .error e) :
    dhRatchetReceive c dh g s = .error e (turned s dh) := by
  simp [dhRatchetReceive, h, turned]

theorem dhRatchetReceive_done {dh : Bytes} {g : P} {k : K}
    (h : dhWith c s.dhsPrivate dh = .ok k) :
    dhRatchetReceive c dh g s = .ok () { turned s dh with
      rootKey := (kdfRoot c.toKeyAlg s.rootKey k).1
      receivingChainKey := some (kdfRoot c.toKeyAlg s.rootKey k).2
      dhsPrivate := some g
      sendingChainKey := none } := by
  simp [dhRatchetReceive, h, turned]

/-! ## The branches before the chain is used -/

/-- The header's key is the one in use and there is a chain for it. -/
theorem ensureReceivingChain_same {dh : Bytes} {g : P} {ck : K}
    (hd : s.dhr = some dh) (hck : s.receivingChainKey = some ck) :
    ensureReceivingChain c dh g s = .ok () s := by
  simp [ensureReceivingChain, hd, hck]

/-- The responder's first message: its key is taken as it comes. -/
theorem ensureReceivingChain_boot {dh : Bytes} {g : P} {ck : K}
    (hd : s.dhr = none) (hck : s.receivingChainKey = some ck)
    (hs : s.sendingChainKey = none) :
    ensureReceivingChain c dh g s = .ok () { s with dhr := some dh } := by
  simp [ensureReceivingChain, hd, hck, hs]

/-- A key not seen before, or the initiator's first message: a DH ratchet. -/
theorem ensureReceivingChain_turn {dh : Bytes} {g : P}
    (h : (s.dhr = none ∧ s.sendingChainKey.isSome) ∨
      ∃ d, s.dhr = some d ∧ d ≠ dh) :
    ensureReceivingChain c dh g s = dhRatchetReceive c dh g s := by
  rcases h with ⟨hd, hs⟩ | ⟨d, hd, hne⟩
  · have hs' : s.sendingChainKey.isNone = false := by
      cases hc : s.sendingChainKey with
      | none => rw [hc] at hs; cases hs
      | some ck => rfl
    simp only [ensureReceivingChain, bind_apply, get_apply, hd, hs', hs,
      Option.isNone_none, ite_run, skipReceivingUntil_self]
    simp only [Bool.false_eq_true, and_false, and_self, if_false, if_true]
    cases hw : dhWith c s.dhsPrivate dh with
    | error e => rw [dhRatchetReceive_failed hw]
    | ok k => rw [dhRatchetReceive_done hw]; simp [turned]
  · simp [ensureReceivingChain, hd, hne, skipReceivingUntil_self]

/-- Otherwise the header's key is the one in use, or there is none and nothing
to send with. -/
theorem still_of_not_turn {dh : Bytes} (h : ¬ ((s.dhr = none ∧ s.sendingChainKey.isSome) ∨
    ∃ d, s.dhr = some d ∧ d ≠ dh)) :
    (s.dhr = none ∧ s.sendingChainKey = none) ∨ s.dhr = some dh := by
  rw [not_or] at h
  cases hd : s.dhr with
  | none =>
      refine Or.inl ⟨rfl, ?_⟩
      cases hs : s.sendingChainKey with
      | none => rfl
      | some ck => exact absurd ⟨hd, by rw [hs]; rfl⟩ h.1
  | some d =>
      refine Or.inr (congrArg some ?_)
      by_contra hne
      exact h.2 ⟨d, hd, hne⟩

/-- No chain yet for the key in use: derive one from the root, the private
key stays. -/
theorem ensureReceivingChain_late {dh : Bytes} {g : P}
    (hd : s.dhr = some dh) (hck : s.receivingChainKey = none) :
    ensureReceivingChain c dh g s = match dhWith c s.dhsPrivate dh with
      | .error e => .error e s
      | .ok k => .ok () { s with
          rootKey := (kdfRoot c.toKeyAlg s.rootKey k).1
          receivingChainKey := some (kdfRoot c.toKeyAlg s.rootKey k).2 } := by
  cases hw : dhWith c s.dhsPrivate dh with
  | error e => simp [ensureReceivingChain, hd, hck, hw]
  | ok k => simp [ensureReceivingChain, hd, hck, hw]

/-- Neither chain and no remote key: the bootstrap chain is derived again
from the root. -/
theorem ensureReceivingChain_first {dh : Bytes} {g : P}
    (hd : s.dhr = none) (hck : s.receivingChainKey = none)
    (hs : s.sendingChainKey = none) :
    ensureReceivingChain c dh g s = .ok () { s with
      dhr := some dh
      receivingChainKey := some (kdfInitialChain c.toKeyAlg s.rootKey) } := by
  simp [ensureReceivingChain, hd, hck, hs, skipReceivingUntil_self,
    dhRatchetReceiveFirst]

/-! ## Opening -/

/-- `openWith`, run. -/
theorem openWith_eq (mk : K) (msg : RatchetWireMessage C) (failed : String) :
    openWith c mk msg failed s =
      match messageKeyToNonce (c.bytes mk) msg.header.n.toNat with
      | .error e => .error e s
      | .ok nonce =>
          if msg.nonce ≠ nonce then
            .error (.decryption "Nonce mismatch (tampering or corruption)") s
          else match aeadDecrypt c mk msg.ciphertext nonce (headerAad msg.header) with
            | .error _ => .error (.decryption failed) s
            | .ok p =>
                match ReceivedIdsStore.add msg.header.dh msg.header.n.toNat
                    s.receivedIds with
                | .ok _ r => .ok p { s with receivedIds := r }
                | .error _ r => .error (.decryption failed) { s with receivedIds := r } := by
  unfold openWith
  cases messageKeyToNonce (c.bytes mk) msg.header.n.toNat with
  | error e => rfl
  | ok nonce =>
      by_cases hne : msg.nonce = nonce
      · cases hd : aeadDecrypt c mk msg.ciphertext nonce (headerAad msg.header) with
        | error e => simp [hne, hd]
        | ok p =>
            cases ha : ReceivedIdsStore.add msg.header.dh msg.header.n.toNat
                s.receivedIds with
            | ok u r => simp [hne, hd, onReceived, zoom, ha]
            | error e r => simp [hne, hd, onReceived, zoom, ha]
      · simp [hne]

/-- It writes the replay cache and nothing else. -/
theorem openWith_after (mk : K) (msg : RatchetWireMessage C) (failed : String) :
    ∃ r, after (openWith c mk msg failed s) = { s with receivedIds := r } := by
  rw [openWith_eq]
  split
  · exact ⟨s.receivedIds, rfl⟩
  · split
    · exact ⟨s.receivedIds, rfl⟩
    · split
      · exact ⟨s.receivedIds, rfl⟩
      · split
        · next r _ => exact ⟨r, rfl⟩
        · next r _ => exact ⟨r, rfl⟩

theorem received_add_range {dh : Bytes} {n : Nat} {r r' : ReceivedIdsStore} {u : Unit}
    (h : ReceivedIdsStore.add dh n r = .ok u r') : n < 2 ^ 32 := by
  rcases received_add_cases dh n r with ⟨e, order, hadd, -⟩ | ⟨hn, -⟩ | ⟨hn, -⟩
  · rw [hadd] at h
    cases h
  · exact hn
  · exact hn

theorem aeadDecrypt_ok {mk : K} {ct : C} {nonce ad p : Bytes}
    (h : aeadDecrypt c mk ct nonce ad = .ok p) : c.decrypt mk nonce ct ad = some p := by
  unfold aeadDecrypt at h
  split at h
  · cases h
  · split at h
    · cases h
    · split at h
      · next p' hp => injection h with h; rw [hp, h]
      · cases h

theorem aeadEncrypt_ok {mk : K} {ct : C} {nonce ad p : Bytes}
    (h : aeadEncrypt c mk p nonce ad = .ok ct) : c.encrypt mk nonce p ad = some ct := by
  unfold aeadEncrypt at h
  split at h
  · cases h
  · split at h
    · cases h
    · split at h
      · next p' hp => injection h with h; rw [hp, h]
      · cases h

/-- It returns only for a number in the uint32 range, a nonce that is the
key's, and a ciphertext the AEAD opens under the header. -/
theorem openWith_ok {mk : K} {msg : RatchetWireMessage C} {failed : String} {p : Bytes}
    {s' : DoubleRatchetState K P} (h : openWith c mk msg failed s = .ok p s') :
    msg.header.n.toNat < 2 ^ 32 ∧
      messageKeyToNonce (c.bytes mk) msg.header.n.toNat = .ok msg.nonce ∧
      c.decrypt mk msg.nonce msg.ciphertext (headerAad msg.header) = some p := by
  rw [openWith_eq] at h
  split at h
  · cases h
  · next nonce hn =>
      split at h
      · cases h
      · next hne =>
          have hne : msg.nonce = nonce := by simpa using hne
          split at h
          · cases h
          · next p' hd =>
              split at h
              · next r ha =>
                  injection h with hp _
                  subst hp
                  exact ⟨received_add_range ha, by rw [hn, hne],
                    hne ▸ aeadDecrypt_ok hd⟩
              · cases h

/-! ## Decrypting -/

/-- The end of a decryption, with the key it used put next to the
plaintext. -/
def keyed (mk : K) :
    EStateM.Result Exn (DoubleRatchetState K P) Bytes →
      EStateM.Result Exn (DoubleRatchetState K P) (Bytes × K)
  | .ok p s => .ok (p, mk) s
  | .error e s => .error e s

@[simp] theorem after_keyed (mk : K)
    (r : EStateM.Result Exn (DoubleRatchetState K P) Bytes) :
    after (keyed mk r) = after r := by
  cases r <;> rfl

theorem keyed_ok {mk mk' : K} {p : Bytes} {s' : DoubleRatchetState K P}
    {r : EStateM.Result Exn (DoubleRatchetState K P) Bytes}
    (h : keyed mk r = .ok (p, mk') s') : r = .ok p s' ∧ mk = mk' := by
  cases r with
  | ok p₀ s₀ =>
      injection h with h1 h2
      injection h1 with h3 h4
      exact ⟨by rw [h3, h2], h4⟩
  | error e s₀ => cases h

variable {msg : RatchetWireMessage C} {g : P}

/-- The refusals that come before anything is written. -/
def Refused (s : DoubleRatchetState K P) (msg : RatchetWireMessage C) : Prop :=
  (∃ e, checkHeader msg = .error e) ∨
  s.receivedIds.contains msg.header.dh msg.header.n.toNat = true ∨
  (s.skippedMessageKeys.has msg.header.dh msg.header.n.toNat = false ∧
    s.dhr = some msg.header.dh ∧ msg.header.n.toNat < s.Nr)

theorem decrypt_refused (h : Refused s msg) :
    ∃ e, ratchetDecryptKeyed c msg g s = .error e s := by
  cases hc : checkHeader msg with
  | error e => exact ⟨e, by simp [ratchetDecryptKeyed, hc]⟩
  | ok u =>
      rcases h with ⟨e, he⟩ | hid | ⟨hsk, hd, hn⟩
      · rw [hc] at he; cases he
      · exact ⟨_, by simp [ratchetDecryptKeyed, hc, hid]; rfl⟩
      · cases hid : s.receivedIds.contains msg.header.dh msg.header.n.toNat with
        | true => exact ⟨_, by simp [ratchetDecryptKeyed, hc, hid]; rfl⟩
        | false =>
            exact ⟨_, by simp [ratchetDecryptKeyed, hc, hid, hsk, hd, hn]; rfl⟩

/-- What is known past the refusals: a 32-byte key, a non-negative number,
and no replay. -/
theorem not_refused (h : ¬ Refused s msg) :
    checkHeader msg = .ok () ∧
      s.receivedIds.contains msg.header.dh msg.header.n.toNat = false := by
  refine ⟨?_, ?_⟩
  · cases hc : checkHeader msg with
    | ok u => rfl
    | error e => exact absurd (Or.inl ⟨e, hc⟩) h
  · cases hid : s.receivedIds.contains msg.header.dh msg.header.n.toNat with
    | false => rfl
    | true => exact absurd (Or.inr (Or.inl hid)) h

theorem checkHeader_ok (h : checkHeader msg = .ok ()) :
    msg.header.dh.length = 32 ∧ 0 ≤ msg.header.n ∧ msg.nonce.length = 12 := by
  unfold checkHeader at h
  split at h
  · cases h
  · next hd =>
      split at h
      · cases h
      · next hn =>
          split at h
          · cases h
          · next hl => exact ⟨by simpa [dhPubLen] using hd, by omega,
              by simpa [aadNonceLen] using hl⟩

theorem bind_keyed (mk : K) (x : Engine K P Bytes) :
    (do let p ← x; return (p, mk) : Engine K P (Bytes × K)) s = keyed mk (x s) := by
  rw [bind_apply]
  cases x s <;> rfl

/-- A stored key is taken out first and tried after. -/
theorem decrypt_skipped {mk : K} (h : ¬ Refused s msg)
    (hget : Odict.get? s.skippedMessageKeys.store
      (msg.header.dh, msg.header.n.toNat) = some mk) :
    ratchetDecryptKeyed c msg g s = keyed mk
      (openWith c mk msg "AEAD verification failed (skipped-key path)"
        (withRecv s s.receivingChainKey (Odict.erase s.skippedMessageKeys.store
          (msg.header.dh, msg.header.n.toNat)) s.Nr)) := by
  obtain ⟨hc, hid⟩ := not_refused h
  have hsk : s.skippedMessageKeys.has msg.header.dh msg.header.n.toNat = true :=
    Odict.has_eq_true_iff.mpr ⟨_, hget⟩
  rw [← bind_keyed]
  simp only [ratchetDecryptKeyed, bind_apply, hc, lift_ok, get_apply, hid,
    Bool.false_eq_true, if_false, hsk, if_true, onSkipped, zoom,
    skipped_pop_of_get hget]
  rfl

/-- With no stored key the header's chain is made current and used. -/
theorem decrypt_chain (h : ¬ Refused s msg)
    (hsk : s.skippedMessageKeys.has msg.header.dh msg.header.n.toNat = false) :
    ratchetDecryptKeyed c msg g s =
      match ensureReceivingChain c msg.header.dh g s with
      | .error e s₁ => .error e s₁
      | .ok _ s₁ => decryptOnChain c msg s₁ := by
  obtain ⟨hc, hid⟩ := not_refused h
  have hn : ¬ (s.dhr = some msg.header.dh ∧ msg.header.n.toNat < s.Nr) :=
    fun hn => h (Or.inr (Or.inr ⟨hsk, hn.1, hn.2⟩))
  simp only [ratchetDecryptKeyed, bind_apply, hc, lift_ok, get_apply, hid,
    Bool.false_eq_true, if_false, hsk, if_neg hn]
  cases ensureReceivingChain c msg.header.dh g s <;> rfl

/-- The two distance checks, which come before the chain moves. -/
theorem decryptOnChain_far {ck : K} (hck : s.receivingChainKey = some ck)
    (h : msg.header.n.toNat < s.Nr ∨ s.Nr + maxSkipDistance < msg.header.n.toNat) :
    ∃ e, decryptOnChain c msg s = .error e s := by
  by_cases hn : msg.header.n.toNat < s.Nr
  · exact ⟨_, by simp [decryptOnChain, hn]; rfl⟩
  · have hfar : msg.header.n.toNat - s.Nr > maxSkipDistance := by omega
    exact ⟨_, by simp [decryptOnChain, hn, hck, hfar]; rfl⟩

/-- Within the distance: skip, take one key, try it. -/
theorem decryptOnChain_near
    (h₁ : s.Nr ≤ msg.header.n.toNat)
    (h₂ : msg.header.n.toNat ≤ s.Nr + maxSkipDistance) :
    decryptOnChain c msg s =
      match skipReceivingUntil c.toKeyAlg msg.header.n.toNat s with
      | .error e s₁ => .error e s₁
      | .ok _ s₁ =>
          match s₁.receivingChainKey with
          | none => .error (.typeError "ikm must be bytes") s₁
          | some ck₁ => keyed (kdfChain c.toKeyAlg ck₁).2
              (openWith c (kdfChain c.toKeyAlg ck₁).2 msg "AEAD verification failed"
                (withRecv s₁ (some (kdfChain c.toKeyAlg ck₁).1)
                  s₁.skippedMessageKeys.store (s₁.Nr + 1))) := by
  have hfar : ¬ (s.receivingChainKey.isSome = true ∧
      msg.header.n.toNat - s.Nr > maxSkipDistance) := by
    rintro ⟨-, hf⟩
    omega
  simp only [decryptOnChain, bind_apply, get_apply, if_neg (Nat.not_lt.mpr h₁),
    if_neg hfar]
  cases skipReceivingUntil c.toKeyAlg msg.header.n.toNat s with
  | error e s₁ => rfl
  | ok u s₁ =>
      simp only [nextReceivingKey, bind_apply, get_apply]
      cases hk : s₁.receivingChainKey with
      | none => rfl
      | some ck₁ => exact bind_keyed _ _

/-- Whatever path a call took, it returns only after `openWith` did. -/
theorem decryptOnChain_opened {p : Bytes} {mk : K} {s' : DoubleRatchetState K P}
    (h : decryptOnChain c msg s = .ok (p, mk) s') :
    ∃ s₁ failed, openWith c mk msg failed s₁ = .ok p s' := by
  by_cases hlt : msg.header.n.toNat < s.Nr
  · simp [decryptOnChain, hlt] at h
  · by_cases hfar : msg.header.n.toNat ≤ s.Nr + maxSkipDistance
    · rw [decryptOnChain_near (by omega) hfar] at h
      split at h
      · cases h
      · split at h
        · cases h
        · obtain ⟨hopen, rfl⟩ := keyed_ok h
          exact ⟨_, _, hopen⟩
    · -- No chain to measure the distance on: there is none to take a key from.
      have hfar : msg.header.n.toNat - s.Nr > maxSkipDistance := by omega
      cases hck : s.receivingChainKey with
      | some ck => simp [decryptOnChain, hlt, hck, hfar] at h
      | none =>
          simp [decryptOnChain, hlt, hck, skipReceivingUntil, nextReceivingKey] at h

theorem decrypt_opened {p : Bytes} {mk : K} {s' : DoubleRatchetState K P}
    (h : ratchetDecryptKeyed c msg g s = .ok (p, mk) s') :
    checkHeader msg = .ok () ∧ ∃ s₁ failed, openWith c mk msg failed s₁ = .ok p s' := by
  by_cases hr : Refused s msg
  · obtain ⟨e, he⟩ := decrypt_refused (c := c) (g := g) hr
    rw [he] at h
    cases h
  · refine ⟨(not_refused hr).1, ?_⟩
    cases hget : Odict.get? s.skippedMessageKeys.store
        (msg.header.dh, msg.header.n.toNat) with
    | some mk' =>
        rw [decrypt_skipped hr hget] at h
        obtain ⟨hopen, rfl⟩ := keyed_ok h
        exact ⟨_, _, hopen⟩
    | none =>
        have hsk : s.skippedMessageKeys.has msg.header.dh msg.header.n.toNat = false :=
          Odict.has_eq_false_iff.mpr hget
        rw [decrypt_chain hr hsk] at h
        split at h
        · cases h
        · exact decryptOnChain_opened h

/-! ## Encrypting -/

theorem nextSendingKey_open {ck : K} (h : s.sendingChainKey = some ck) :
    nextSendingKey c s = .ok (kdfChain c.toKeyAlg ck).2
      { s with sendingChainKey := some (kdfChain c.toKeyAlg ck).1 } := by
  simp [nextSendingKey, h]

theorem nextSendingKey_mute (h : s.sendingChainKey = none) (hd : s.dhr = none) :
    ∃ e, nextSendingKey c s = .error e s := by
  exact ⟨_, by simp [nextSendingKey, dhRatchetStepSend, h, hd]; rfl⟩

/-- The lazy half of a DH ratchet: the chain is derived on the first send. -/
theorem nextSendingKey_lazy {dh : Bytes} (h : s.sendingChainKey = none)
    (hd : s.dhr = some dh) :
    nextSendingKey c s = match dhWith c s.dhsPrivate dh with
      | .error e => .error e s
      | .ok k => .ok (kdfChain c.toKeyAlg (kdfRoot c.toKeyAlg s.rootKey k).2).2
          { s with
            rootKey := (kdfRoot c.toKeyAlg s.rootKey k).1
            sendingChainKey :=
              some (kdfChain c.toKeyAlg (kdfRoot c.toKeyAlg s.rootKey k).2).1
            Ns := 0 } := by
  cases hw : dhWith c s.dhsPrivate dh with
  | error e => simp [nextSendingKey, dhRatchetStepSend, h, hd, hw]
  | ok k => simp [nextSendingKey, dhRatchetStepSend, h, hd, hw]

/-- Stepping the sending chain leaves `PN` alone. -/
theorem nextSendingKey_PN {mk : K} {s' : DoubleRatchetState K P}
    (h : nextSendingKey c s = .ok mk s') : s'.PN = s.PN := by
  cases hs : s.sendingChainKey with
  | some ck =>
      rw [nextSendingKey_open hs] at h
      injection h with _ h
      subst h
      rfl
  | none =>
      cases hd : s.dhr with
      | none =>
          obtain ⟨e, he⟩ := nextSendingKey_mute (c := c) hs hd
          rw [he] at h
          cases h
      | some d =>
          rw [nextSendingKey_lazy hs hd] at h
          split at h
          · cases h
          · injection h with _ h
            subst h
            rfl

/-- The header the next message will carry. -/
def nextHeader (c : Crypto K P C) (s : DoubleRatchetState K P) (p : P) :
    RatchetMessageHeader := { dh := c.publicKey p, n := s.Ns, pn := s.PN }

/-- `sealWith` writes `Ns` when it returns and nothing when it raises. -/
theorem sealWith_cases (mk : K) (pt : Bytes) :
    (∃ e, sealWith c mk pt s = .error e s) ∨
    ∃ p nonce ct, s.dhsPrivate = some p ∧
      messageKeyToNonce (c.bytes mk) s.Ns = .ok nonce ∧
      c.encrypt mk nonce pt (headerAad (nextHeader c s p)) = some ct ∧
      sealWith c mk pt s = .ok ⟨nextHeader c s p, ct, nonce⟩
        { s with Ns := s.Ns + 1 } := by
  cases hp : dhsPublicBytes c s with
  | error e => exact Or.inl ⟨e, by simp [sealWith, hp]⟩
  | ok dh =>
      obtain ⟨p, hsp, rfl⟩ : ∃ p, s.dhsPrivate = some p ∧ c.publicKey p = dh := by
        unfold dhsPublicBytes at hp
        split at hp
        · cases hp
        · next p hsp => injection hp with hp; exact ⟨p, hsp, hp⟩
      cases hn : messageKeyToNonce (c.bytes mk) s.Ns with
      | error e => exact Or.inl ⟨e, by simp [sealWith, hp, hn]⟩
      | ok nonce =>
          cases he : aeadEncrypt c mk pt nonce (headerAad (nextHeader c s p)) with
          | error e =>
              exact Or.inl ⟨e, by simp only [nextHeader] at he; simp [sealWith, hp, hn, he]⟩
          | ok ct =>
              refine Or.inr ⟨p, nonce, ct, hsp, rfl, aeadEncrypt_ok he, ?_⟩
              simp only [nextHeader] at he ⊢
              simp [sealWith, hp, hn, he]

theorem ratchetEncryptKeyed_eq (pt : Bytes) :
    ratchetEncryptKeyed c pt s = match nextSendingKey c s with
      | .error e s₁ => .error e s₁
      | .ok mk s₁ =>
          match sealWith c mk pt s₁ with
          | .error e s₂ => .error e s₂
          | .ok w s₂ => .ok (w, mk) s₂ := by
  simp only [ratchetEncryptKeyed, bind_apply, pure_apply]
  cases nextSendingKey c s with
  | error e s₁ => rfl
  | ok mk s₁ => cases h : sealWith c mk pt s₁ <;> simp [h]

/-- A message `ratchet_encrypt` returns was sealed with the key and the nonce of
the call, under its own header. -/
theorem encrypt_sealed {pt : Bytes} {w : RatchetWireMessage C} {mk : K}
    {s' : DoubleRatchetState K P} (h : ratchetEncryptKeyed c pt s = .ok (w, mk) s') :
    0 ≤ w.header.n ∧ messageKeyToNonce (c.bytes mk) w.header.n.toNat = .ok w.nonce ∧
      c.encrypt mk w.nonce pt (headerAad w.header) = some w.ciphertext := by
  rw [ratchetEncryptKeyed_eq] at h
  split at h
  · cases h
  · next mk₁ s₁ _ =>
      rcases sealWith_cases (c := c) (s := s₁) mk₁ pt with
        ⟨e, he⟩ | ⟨p, nonce, ct, -, hnonce, hct, he⟩
      · rw [he] at h
        cases h
      · rw [he] at h
        cases h
        exact ⟨Int.natCast_nonneg _, hnonce, hct⟩

/-- What `ratchet_decrypt` returns was opened with the key of the call and the
message's nonce, under its header. -/
theorem decrypt_unsealed {w : RatchetWireMessage C} {p : Bytes} {mk : K}
    {s' : DoubleRatchetState K P} (h : ratchetDecryptKeyed c w g s = .ok (p, mk) s') :
    messageKeyToNonce (c.bytes mk) w.header.n.toNat = .ok w.nonce ∧
      c.decrypt mk w.nonce w.ciphertext (headerAad w.header) = some p := by
  obtain ⟨-, s₁, failed, hopen⟩ := decrypt_opened h
  exact (openWith_ok hopen).2

end GhostChat.Proofs
