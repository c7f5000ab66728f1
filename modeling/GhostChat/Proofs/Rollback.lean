import GhostChat.Proofs.Calls
import GhostChat.Ref.Symbolic

/-!
# When a call that raises leaves the state alone

`ratchet_decrypt` works on the live state. The refusals at its head, the
distance check on the chain in use, and a DH that fails where there is no
receiving chain yet come before its first write; every other way to raise
comes after it, and nothing is put back. The same holds of `ratchet_encrypt`
on a smaller scale: once the sending chain has been stepped, an AEAD that
refuses the plaintext costs a key.

Each part below shows a field that gives the write away. Taking a stored key
out shows in the store, a new remote key in `dhr`, and a step on the current
chain in `Nr`; only where the store refuses the very first skipped key is the
chain key itself the witness, and there one needs that `kdf_chain` does not
return its argument.
-/

namespace GhostChat.Proofs

open GhostChat.Lib GhostChat.Lib.Effect GhostChat.Ref

variable {K P C : Type} {c : Crypto K P C} {a : KeyAlg K}
  {s : DoubleRatchetState K P} {msg : RatchetWireMessage C} {g : P}

/-- A decryption raises before its first write. -/
def EarlyDecrypt (c : Crypto K P C) (s : DoubleRatchetState K P)
    (msg : RatchetWireMessage C) : Prop :=
  Refused s msg ∨
  (s.skippedMessageKeys.has msg.header.dh msg.header.n.toNat = false ∧
    s.dhr = some msg.header.dh ∧
    ((s.receivingChainKey.isSome ∧ s.Nr + maxSkipDistance < msg.header.n.toNat) ∨
      (s.receivingChainKey = none ∧
        ∃ e, dhWith c s.dhsPrivate msg.header.dh = .error e)))

/-- An encryption raises before its first write: there is no sending chain
and none can be opened. -/
def EarlyEncrypt (c : Crypto K P C) (s : DoubleRatchetState K P) : Prop :=
  s.sendingChainKey = none ∧
    ∀ d, s.dhr = some d → ∃ e, dhWith c s.dhsPrivate d = .error e

/-! ## Early means untouched -/

theorem EarlyDecrypt.raises (h : EarlyDecrypt c s msg) :
    ∃ e, ratchetDecryptKeyed c msg g s = .error e s := by
  by_cases hr : Refused s msg
  · exact decrypt_refused hr
  · rcases h with h | ⟨hsk, hd, hrest⟩
    · exact absurd h hr
    · rw [decrypt_chain hr hsk]
      rcases hrest with ⟨hck, hfar⟩ | ⟨hck, e, he⟩
      · obtain ⟨ck, hck⟩ := Option.isSome_iff_exists.mp hck
        rw [ensureReceivingChain_same hd hck]
        exact decryptOnChain_far hck (Or.inr hfar)
      · rw [ensureReceivingChain_late hd hck, he]
        exact ⟨e, rfl⟩

theorem EarlyEncrypt.raises (h : EarlyEncrypt c s) (pt : Bytes) :
    ∃ e, ratchetEncryptKeyed c pt s = .error e s := by
  obtain ⟨hs, hd⟩ := h
  rw [ratchetEncryptKeyed_eq]
  cases hdr : s.dhr with
  | none =>
      obtain ⟨e, he⟩ := nextSendingKey_mute (c := c) hs hdr
      rw [he]
      exact ⟨e, rfl⟩
  | some d =>
      obtain ⟨e, he⟩ := hd d hdr
      rw [nextSendingKey_lazy hs hdr, he]
      exact ⟨e, rfl⟩

/-! ## Late leaves a trace -/

/-- What a skipping loop leaves behind: the same remote key, a chain, a
counter that has not gone down; and where it raised without counting, the
chain one step on. -/
theorem skipReceivingLoop_trace (dh : Bytes) (upTo : Nat) :
    ∀ (fuel : Nat) (s : DoubleRatchetState K P) (ck : K),
      s.receivingChainKey = some ck →
      (after (skipReceivingLoop a dh upTo fuel s)).dhr = s.dhr ∧
      (after (skipReceivingLoop a dh upTo fuel s)).receivingChainKey.isSome ∧
      s.Nr ≤ (after (skipReceivingLoop a dh upTo fuel s)).Nr ∧
      ∀ e s', skipReceivingLoop a dh upTo fuel s = .error e s' → s'.Nr = s.Nr →
        s'.receivingChainKey = some (kdfChain a ck).1 := by
  intro fuel
  induction fuel with
  | zero =>
      intro s ck hck
      refine ⟨rfl, by rw [skipReceivingLoop]; simp [hck], Nat.le_refl _, ?_⟩
      intro e s' he
      cases he
  | succ fuel ih =>
      intro s ck hck
      by_cases hlt : s.Nr < upTo
      · cases hadd : SkippedMessageKeys.add a dh s.Nr (kdfChain a ck).2
            s.skippedMessageKeys with
        | error e sk =>
            rw [skipReceivingLoop_refused hlt hck hadd]
            refine ⟨rfl, rfl, Nat.le_refl _, fun e' s' he _ => ?_⟩
            injection he with _ he
            subst he
            rfl
        | ok u sk =>
            rw [skipReceivingLoop_filed hlt hck hadd]
            obtain ⟨h₁, h₂, h₃, -⟩ := ih
              (withRecv s (some (kdfChain a ck).1) sk.store (s.Nr + 1)) _ rfl
            refine ⟨h₁, h₂, Nat.le_of_succ_le h₃, fun e s' he hNr => ?_⟩
            rw [he] at h₃
            exact absurd hNr (Nat.ne_of_gt h₃)
      · rw [skipReceivingLoop_done (Nat.not_lt.mp hlt)]
        refine ⟨rfl, by simp [hck], Nat.le_refl _, ?_⟩
        intro e s' he
        cases he

theorem openWith_trace (msg : RatchetWireMessage C) (mk : K) (failed : String) :
    (after (openWith c mk msg failed s)).dhr = s.dhr ∧
    (after (openWith c mk msg failed s)).receivingChainKey = s.receivingChainKey ∧
    (after (openWith c mk msg failed s)).skippedMessageKeys = s.skippedMessageKeys ∧
    (after (openWith c mk msg failed s)).Nr = s.Nr := by
  obtain ⟨r, hr⟩ := openWith_after (c := c) (s := s) mk msg failed
  rw [hr]
  exact ⟨rfl, rfl, rfl, rfl⟩

/-- On the header's own chain: the remote key stays, the chain is not lost,
and within the distance something has moved. -/
theorem decryptOnChain_trace {ck : K} (hck : s.receivingChainKey = some ck)
    (hd : s.dhr = some msg.header.dh) :
    (after (decryptOnChain c msg s)).dhr = s.dhr ∧
    (after (decryptOnChain c msg s)).receivingChainKey.isSome ∧
    (s.Nr ≤ msg.header.n.toNat → msg.header.n.toNat ≤ s.Nr + maxSkipDistance →
      (after (decryptOnChain c msg s)).Nr ≠ s.Nr ∨
      (after (decryptOnChain c msg s)).receivingChainKey
        = some (kdfChain c.toKeyAlg ck).1) := by
  by_cases hfar : msg.header.n.toNat < s.Nr ∨ s.Nr + maxSkipDistance < msg.header.n.toNat
  · obtain ⟨e, he⟩ := decryptOnChain_far (c := c) hck hfar
    rw [he]
    exact ⟨rfl, by simp [hck], fun h₁ h₂ => by omega⟩
  · rw [decryptOnChain_near (by omega) (by omega), skipReceivingUntil_some hck hd]
    obtain ⟨h₁, h₂, h₃, h₄⟩ := skipReceivingLoop_trace (a := c.toKeyAlg) msg.header.dh
      msg.header.n.toNat (msg.header.n.toNat - s.Nr) s ck hck
    cases hl : skipReceivingLoop c.toKeyAlg msg.header.dh msg.header.n.toNat
        (msg.header.n.toNat - s.Nr) s with
    | error e s₁ =>
        rw [hl] at h₁ h₂
        refine ⟨h₁, h₂, fun _ _ => ?_⟩
        by_cases hNr : s₁.Nr = s.Nr
        · exact Or.inr (h₄ e s₁ hl hNr)
        · exact Or.inl hNr
    | ok u s₁ =>
        rw [hl] at h₁ h₂ h₃
        obtain ⟨ck₁, hck₁⟩ := Option.isSome_iff_exists.mp h₂
        simp only [after_ok] at hck₁
        simp only [hck₁, after_keyed]
        obtain ⟨ho₁, ho₂, -, ho₄⟩ := openWith_trace (c := c)
          (s := withRecv s₁ (some (kdfChain c.toKeyAlg ck₁).1)
            s₁.skippedMessageKeys.store (s₁.Nr + 1))
          msg (kdfChain c.toKeyAlg ck₁).2 "AEAD verification failed"
        refine ⟨ho₁.trans h₁, by rw [ho₂]; rfl, fun _ _ => Or.inl ?_⟩
        rw [ho₄]
        show s₁.Nr + 1 ≠ s.Nr
        simp only [after_ok] at h₃
        omega

/-- Whatever the chain branch does to a remote key it had not set before, the
new key is in the state afterwards. -/
theorem chain_branch_dhr {s₁ : DoubleRatchetState K P} {u : Unit} {ck : K}
    (hr : ¬ Refused s msg)
    (hsk : s.skippedMessageKeys.has msg.header.dh msg.header.n.toNat = false)
    (hen : ensureReceivingChain c msg.header.dh g s = .ok u s₁)
    (hd : s₁.dhr = some msg.header.dh) (hck : s₁.receivingChainKey = some ck) :
    (after (ratchetDecryptKeyed c msg g s)).dhr = some msg.header.dh ∧
      (after (ratchetDecryptKeyed c msg g s)).receivingChainKey.isSome := by
  rw [decrypt_chain hr hsk, hen]
  obtain ⟨h₁, h₂, -⟩ := decryptOnChain_trace (c := c) hck hd
  exact ⟨h₁.trans hd, h₂⟩

theorem turn_leaves_trace (hr : ¬ Refused s msg)
    (hsk : s.skippedMessageKeys.has msg.header.dh msg.header.n.toNat = false)
    (ht : (s.dhr = none ∧ s.sendingChainKey.isSome) ∨
      ∃ d, s.dhr = some d ∧ d ≠ msg.header.dh) :
    (after (ratchetDecryptKeyed c msg g s)).dhr = some msg.header.dh := by
  have hen := ensureReceivingChain_turn (c := c) (g := g) ht
  cases hw : dhWith c s.dhsPrivate msg.header.dh with
  | error e =>
      rw [decrypt_chain hr hsk, hen, dhRatchetReceive_failed hw]
      rfl
  | ok k =>
      rw [dhRatchetReceive_done hw] at hen
      exact (chain_branch_dhr hr hsk hen rfl rfl).1

/-- A decryption that gets past the early checks has written something,
whether it then raises or returns. -/
theorem decrypt_leaves_trace (hfix : ∀ ck, (kdfChain c.toKeyAlg ck).1 ≠ ck)
    (h : ¬ EarlyDecrypt c s msg) : after (ratchetDecryptKeyed c msg g s) ≠ s := by
  have hr : ¬ Refused s msg := fun hr => h (Or.inl hr)
  intro heq
  cases hget : Odict.get? s.skippedMessageKeys.store
      (msg.header.dh, msg.header.n.toNat) with
  | some mk =>
      rw [decrypt_skipped hr hget, after_keyed] at heq
      have hstore := (openWith_trace (c := c)
        (s := withRecv s s.receivingChainKey (Odict.erase s.skippedMessageKeys.store
          (msg.header.dh, msg.header.n.toNat)) s.Nr)
        msg mk "AEAD verification failed (skipped-key path)").2.2.1
      rw [heq] at hstore
      have hmem := Odict.mem_of_get? hget
      rw [congrArg SkippedMessageKeys.store hstore] at hmem
      exact (Odict.mem_erase.mp hmem).2 rfl
  | none =>
      have hsk : s.skippedMessageKeys.has msg.header.dh msg.header.n.toNat = false :=
        Odict.has_eq_false_iff.mpr hget
      by_cases ht : (s.dhr = none ∧ s.sendingChainKey.isSome) ∨
          ∃ d, s.dhr = some d ∧ d ≠ msg.header.dh
      · have hd := turn_leaves_trace (c := c) (g := g) hr hsk ht
        rw [heq] at hd
        rcases ht with ⟨hno, -⟩ | ⟨d, hd', hne⟩
        · rw [hno] at hd
          cases hd
        · rw [hd'] at hd
          exact hne (Option.some.inj hd)
      · rcases still_of_not_turn ht with ⟨hd, hs⟩ | hd
        · have hnew : (after (ratchetDecryptKeyed c msg g s)).dhr
              = some msg.header.dh := by
            cases hck : s.receivingChainKey with
            | some ck =>
                exact (chain_branch_dhr hr hsk (ensureReceivingChain_boot hd hck hs)
                  rfl hck).1
            | none =>
                exact (chain_branch_dhr hr hsk (ensureReceivingChain_first hd hck hs)
                  rfl rfl).1
          rw [heq, hd] at hnew
          cases hnew
        · cases hck : s.receivingChainKey with
          | none =>
              cases hw : dhWith c s.dhsPrivate msg.header.dh with
              | error e => exact h (Or.inr ⟨hsk, hd, Or.inr ⟨hck, e, hw⟩⟩)
              | ok k =>
                  have hen := ensureReceivingChain_late (c := c) (g := g) hd hck
                  rw [hw] at hen
                  have hsome := (chain_branch_dhr hr hsk hen hd rfl).2
                  rw [heq, hck] at hsome
                  cases hsome
          | some ck =>
              have hlo : s.Nr ≤ msg.header.n.toNat := by
                by_contra hlt
                exact hr (Or.inr (Or.inr ⟨hsk, hd, by omega⟩))
              have hhi : msg.header.n.toNat ≤ s.Nr + maxSkipDistance := by
                by_contra hfar
                exact h (Or.inr ⟨hsk, hd, Or.inl ⟨by rw [hck]; rfl, by omega⟩⟩)
              rw [decrypt_chain hr hsk, ensureReceivingChain_same hd hck] at heq
              rcases (decryptOnChain_trace (c := c) hck hd).2.2 hlo hhi with hNr | hkey
              · exact hNr (by rw [heq])
              · rw [heq, hck] at hkey
                exact hfix ck (Option.some.inj hkey).symm

theorem encrypt_leaves_trace (hfix : ∀ ck, (kdfChain c.toKeyAlg ck).1 ≠ ck)
    (h : ¬ EarlyEncrypt c s) (pt : Bytes) : after (ratchetEncryptKeyed c pt s) ≠ s := by
  -- Sealing does not touch the sending chain.
  have hseal : ∀ mk s₁, nextSendingKey c s = .ok mk s₁ →
      (after (ratchetEncryptKeyed c pt s)).sendingChainKey = s₁.sendingChainKey := by
    intro mk s₁ hn
    rw [ratchetEncryptKeyed_eq, hn]
    rcases sealWith_cases (c := c) (s := s₁) mk pt with
      ⟨e, he⟩ | ⟨p, nonce, ct, -, -, -, he⟩
    · simp only [he, after_error]
    · simp only [he, after_ok]
  intro heq
  cases hs : s.sendingChainKey with
  | some ck =>
      have := hseal _ _ (nextSendingKey_open hs)
      rw [heq, hs] at this
      exact hfix ck (Option.some.inj this).symm
  | none =>
      cases hd : s.dhr with
      | none => exact h ⟨hs, fun d hd' => by rw [hd] at hd'; cases hd'⟩
      | some d =>
          cases hw : dhWith c s.dhsPrivate d with
          | error e =>
              refine h ⟨hs, fun d' hd' => ⟨e, ?_⟩⟩
              rw [hd] at hd'
              rw [← Option.some.inj hd', hw]
          | ok k =>
              have hn := nextSendingKey_lazy (c := c) hs hd
              rw [hw] at hn
              have := hseal _ _ hn
              rw [heq, hs] at this
              cases this

/-! ## The two methods -/

theorem ratchetDecrypt_after :
    after (ratchetDecrypt c msg g s) = after (ratchetDecryptKeyed c msg g s) := by
  rw [ratchetDecrypt, map_apply]
  cases ratchetDecryptKeyed c msg g s <;> rfl

theorem ratchetEncrypt_after (pt : Bytes) :
    after (ratchetEncrypt c pt s) = after (ratchetEncryptKeyed c pt s) := by
  rw [ratchetEncrypt, map_apply]
  cases ratchetEncryptKeyed c pt s <;> rfl

theorem EarlyDecrypt.untouched (h : EarlyDecrypt c s msg) (g : P) :
    after (ratchetDecrypt c msg g s) = s := by
  obtain ⟨e, he⟩ := h.raises (g := g)
  rw [ratchetDecrypt_after, he]
  rfl

/-- A call that raises leaves the state as it was exactly when it raised
early; and messages refused early, however many, do not change what any later
message decrypts to. -/
theorem raise_keeps_state_iff (hfix : ∀ ck, (kdfChain c.toKeyAlg ck).1 ≠ ck)
    (s : DoubleRatchetState K P) :
    (∀ msg g e s', ratchetDecrypt c msg g s = .error e s' →
      (s' = s ↔ EarlyDecrypt c s msg)) ∧
    (∀ pt e s', ratchetEncrypt c pt s = .error e s' →
      (s' = s ↔ EarlyEncrypt c s)) ∧
    ∀ forged : List (RatchetWireMessage C × P), (∀ f ∈ forged, EarlyDecrypt c s f.1) →
      ∀ msg g, ratchetDecrypt c msg g
        (runFrom (fun s f => after (ratchetDecrypt c f.1 f.2 s)) s forged)
        = ratchetDecrypt c msg g s := by
  refine ⟨fun msg g e s' he => ?_, fun pt e s' he => ?_, fun forged hall msg g => ?_⟩
  · have haft : after (ratchetDecryptKeyed c msg g s) = s' := by
      rw [← ratchetDecrypt_after, he]
      rfl
    constructor
    · intro hs
      by_contra hearly
      exact decrypt_leaves_trace hfix hearly (haft.trans hs)
    · intro hearly
      rw [← haft, ← ratchetDecrypt_after, hearly.untouched g]
  · have haft : after (ratchetEncryptKeyed c pt s) = s' := by
      rw [← ratchetEncrypt_after, he]
      rfl
    constructor
    · intro hs
      by_contra hearly
      exact encrypt_leaves_trace hfix hearly pt (haft.trans hs)
    · intro hearly
      obtain ⟨e', he'⟩ := hearly.raises pt
      rw [← haft, he']
      rfl
  · suffices hrun : runFrom (fun s f => after (ratchetDecrypt c f.1 f.2 s)) s forged = s by
      rw [hrun]
    induction forged with
    | nil => rfl
    | cons f forged ih =>
        rw [runFrom, (hall f List.mem_cons_self).untouched f.2]
        exact ih fun f' hf' => hall f' (List.mem_cons_of_mem _ hf')

/-! ## Concrete calls -/

theorem symbolic_chain_ne (ck : SymKey) : (kdfChain symbolic.toKeyAlg ck).1 ≠ ck := by
  intro h
  have hsize := congrArg sizeOf h
  simp only [kdfChain, symbolic, symKeys, Term.kdf.sizeOf_spec] at hsize
  omega

/-- A message of nobody's making, under the public key of private key 7. -/
def forged : RatchetWireMessage Box :=
  ⟨⟨symPublicKey 7, 0, 0⟩, ⟨.lit [], [], [], []⟩, List.replicate 12 0⟩

/-- A fresh responder refuses a header number below zero and is unchanged. -/
theorem raise_keeps_state_negative :
    EarlyDecrypt symbolic ((symPair 1000).engine .responder)
      { forged with header := { forged.header with n := -1 } } ∧
    ∃ e, ratchetDecrypt symbolic { forged with header := { forged.header with n := -1 } } 3
      ((symPair 1000).engine .responder) = .error e ((symPair 1000).engine .responder) := by
  have hearly : EarlyDecrypt symbolic ((symPair 1000).engine .responder)
      { forged with header := { forged.header with n := -1 } } :=
    Or.inl (Or.inl ⟨_, rfl⟩)
  have hraise : ∃ e s', ratchetDecrypt symbolic
      { forged with header := { forged.header with n := -1 } } 3
      ((symPair 1000).engine .responder) = .error e s' := ⟨_, _, rfl⟩
  obtain ⟨e, s', he⟩ := hraise
  have hs := ((raise_keeps_state_iff symbolic_chain_ne _).1 _ _ _ _ he).mpr hearly
  exact ⟨hearly, e, hs ▸ he⟩

/-- The initiator's first message. -/
def honestFirst : Option (RatchetWireMessage Box) :=
  value? (ratchetEncrypt symbolic [10] ((symPair 1000).engine .initiator))

/-- One forged message on a fresh responder: the call raises, the remote key
and the chain are replaced, and the peer's first message, which the responder
would have accepted, is refused from then on. -/
theorem forged_message_stops_honest :
    ∃ e s' w, ratchetDecrypt symbolic forged 3 ((symPair 1000).engine .responder)
        = .error e s' ∧
      s' ≠ (symPair 1000).engine .responder ∧
      honestFirst = some w ∧
      value? (ratchetDecrypt symbolic w 4 ((symPair 1000).engine .responder)) = some [10] ∧
      value? (ratchetDecrypt symbolic w 4 s') = none := by
  refine ⟨_, _, _, rfl, ?_, rfl, ?_, ?_⟩
  · decide +kernel
  · decide +kernel
  · decide +kernel

end GhostChat.Proofs
