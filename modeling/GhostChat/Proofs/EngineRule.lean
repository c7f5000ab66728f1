import GhostChat.Proofs.Rollback

/-!
# The invariant rule of the engine

The engine assigns its fields in a dozen places, some of them from two
branches, and may stop after any of them. `Stable` lists the assignments once.
An invariant that has them all is kept by both methods, returned or raised,
and nothing has to be said about the branches again.

A remote key is only ever assigned after `ratchet_decrypt` has found it to be
32 bytes long, so that much is given with it.
-/

namespace GhostChat.Proofs

open GhostChat.Lib GhostChat.Lib.Effect GhostChat.Ref

variable {K P C : Type} {c : Crypto K P C} {g : P} {msg : RatchetWireMessage C}
  {Good : P → Prop} {I : DoubleRatchetState K P → Prop}

/-- `I` survives every assignment the engine makes, where the private keys a DH
ratchet generates are `Good`. -/
structure Stable (c : Crypto K P C) (Good : P → Prop) (I : DoubleRatchetState K P → Prop) : Prop where
  sending : ∀ s ck, I s → I { s with sendingChainKey := some (kdfChain c.toKeyAlg ck).1 }
  sent : ∀ s, I s → I { s with Ns := s.Ns + 1 }
  opened : ∀ s shared, I s → I { s with
    rootKey := (kdfRoot c.toKeyAlg s.rootKey shared).1
    sendingChainKey := some (kdfRoot c.toKeyAlg s.rootKey shared).2
    Ns := 0 }
  receiving : ∀ s ck, I s → I { s with receivingChainKey := some (kdfChain c.toKeyAlg ck).1 }
  counted : ∀ s, I s → I { s with Nr := s.Nr + 1 }
  remote : ∀ s dh, dh.length = 32 → I s → I { s with dhr := some dh }
  first : ∀ s, I s → I { s with
    receivingChainKey := some (kdfInitialChain c.toKeyAlg s.rootKey) }
  reset : ∀ s, I s → I { s with PN := s.Ns, Ns := 0, Nr := 0 }
  rooted : ∀ s shared, I s → I { s with
    rootKey := (kdfRoot c.toKeyAlg s.rootKey shared).1
    receivingChainKey := some (kdfRoot c.toKeyAlg s.rootKey shared).2 }
  renewed : ∀ s g, Good g → I s → I { s with dhsPrivate := some g, sendingChainKey := none }
  file : ∀ dh n ck,
    Keeps I (onSkipped (SkippedMessageKeys.add c.toKeyAlg dh n (kdfChain c.toKeyAlg ck).2))
  pop : ∀ dh n, Keeps I (onSkipped (SkippedMessageKeys.pop dh n))
  receive : ∀ dh n, dh.length = 32 → Keeps I (onReceived (ReceivedIdsStore.add dh n))

namespace Stable

theorem skipReceivingLoop (h : Stable c Good I) (dh : Bytes) (upTo fuel : Nat) :
    Keeps I (Ref.skipReceivingLoop (P := P) c.toKeyAlg dh upTo fuel) := by
  induction fuel with
  | zero => exact keeps_pure ()
  | succ fuel ih =>
      refine keeps_get_bind fun s hs => ?_
      refine (show Keeps I _ from ?_) s hs
      split
      · cases s.receivingChainKey with
        | none => exact keeps_throw _
        | some ck =>
            refine keeps_bind (keeps_modify fun s hs => h.receiving s ck hs) fun _ => ?_
            refine keeps_bind (h.file dh _ ck) fun _ => ?_
            exact keeps_bind (keeps_modify h.counted) fun _ => ih
      · exact keeps_pure ()

theorem skipReceivingUntil (h : Stable c Good I) (upTo : Nat) :
    Keeps I (Ref.skipReceivingUntil (P := P) c.toKeyAlg upTo) := by
  refine keeps_get_bind fun s hs => ?_
  cases hck : s.receivingChainKey with
  | none => exact hs
  | some ck =>
      cases hd : s.dhr with
      | none => exact hs
      | some dh => exact h.skipReceivingLoop dh upTo _ s hs

theorem dhRatchetReceive (h : Stable c Good I) (hg : Good g) {dh : Bytes}
    (hdh : dh.length = 32) :
    Keeps I (Ref.dhRatchetReceive c dh g) := by
  intro s hs
  have hturned : I (turned s dh) := h.remote _ dh hdh (h.reset s hs)
  cases hw : dhWith c s.dhsPrivate dh with
  | error e =>
      rw [dhRatchetReceive_failed hw]
      exact hturned
  | ok shared =>
      rw [dhRatchetReceive_done hw]
      exact h.renewed _ g hg (h.rooted _ shared hturned)

theorem ensureReceivingChain (h : Stable c Good I) (hg : Good g) {dh : Bytes}
    (hdh : dh.length = 32) :
    Keeps I (Ref.ensureReceivingChain c dh g) := by
  intro s hs
  have hturn : I (after (Ref.dhRatchetReceive c dh g s)) := h.dhRatchetReceive hg hdh s hs
  cases hd : s.dhr with
  | none =>
      cases hsend : s.sendingChainKey with
      | some ck => rwa [ensureReceivingChain_turn (Or.inl ⟨hd, by rw [hsend]; rfl⟩)]
      | none =>
          cases hck : s.receivingChainKey with
          | some ck =>
              rw [ensureReceivingChain_boot hd hck hsend]
              exact h.remote s dh hdh hs
          | none =>
              rw [ensureReceivingChain_first hd hck hsend]
              exact h.remote _ dh hdh (h.first s hs)
  | some d =>
      by_cases hdd : d = dh
      · subst hdd
        cases hck : s.receivingChainKey with
        | some ck =>
            rw [ensureReceivingChain_same hd hck]
            exact hs
        | none =>
            rw [ensureReceivingChain_late hd hck]
            split
            · exact hs
            · next shared _ => exact h.rooted s shared hs
      · rwa [ensureReceivingChain_turn (Or.inr ⟨d, hd, hdd⟩)]

theorem openWith (h : Stable c Good I) (mk : K) (failed : String)
    (hdh : msg.header.dh.length = 32) : Keeps I (Ref.openWith c mk msg failed) := by
  intro s hs
  have hadd := h.receive msg.header.dh msg.header.n.toNat hdh s hs
  rw [onReceived, zoom] at hadd
  rw [openWith_eq]
  split
  · exact hs
  · split
    · exact hs
    · split
      · exact hs
      · split
        · next hr => rw [hr] at hadd; exact hadd
        · next hr => rw [hr] at hadd; exact hadd

theorem decryptOnChain (h : Stable c Good I) (hdh : msg.header.dh.length = 32) :
    Keeps I (Ref.decryptOnChain c msg) := by
  refine keeps_get_bind fun s hs => ?_
  refine keeps_guard (keeps_guard ?_) s hs
  refine keeps_bind (h.skipReceivingUntil _) fun _ => keeps_bind ?_ fun mk =>
    keeps_bind (h.openWith mk _ hdh) fun _ => keeps_pure _
  refine keeps_get_bind fun s hs => ?_
  cases s.receivingChainKey with
  | none => exact hs
  | some ck =>
      refine keeps_bind (keeps_modify fun s hs => ?_) (fun _ => keeps_pure _) s hs
      exact h.counted _ (h.receiving s ck hs)

/-- `ratchet_decrypt` keeps the invariant, whatever the message. -/
theorem decrypt (h : Stable c Good I) (hg : Good g) : Keeps I (ratchetDecryptKeyed c msg g) := by
  intro s hs
  by_cases hr : Refused s msg
  · obtain ⟨e, he⟩ := decrypt_refused (c := c) (g := g) hr
    rw [he]
    exact hs
  · have hdh := (checkHeader_ok (not_refused hr).1).1
    cases hget : Odict.get? s.skippedMessageKeys.store
        (msg.header.dh, msg.header.n.toNat) with
    | some mk =>
        have hpop := h.pop msg.header.dh msg.header.n.toNat s hs
        rw [onSkipped, zoom, skipped_pop_of_get hget] at hpop
        rw [decrypt_skipped hr hget, after_keyed]
        exact h.openWith mk _ hdh _ hpop
    | none =>
        have hsk : s.skippedMessageKeys.has msg.header.dh msg.header.n.toNat = false :=
          Odict.has_eq_false_iff.mpr hget
        rw [decrypt_chain hr hsk]
        have hen := h.ensureReceivingChain hg hdh s hs
        cases hre : Ref.ensureReceivingChain c msg.header.dh g s with
        | error e s₁ => rw [hre] at hen; exact hen
        | ok u s₁ => rw [hre] at hen; exact h.decryptOnChain hdh s₁ hen

/-- So does `ratchet_encrypt`. -/
theorem encrypt (h : Stable c Good I) (pt : Bytes) : Keeps I (ratchetEncryptKeyed c pt) := by
  have hseal : ∀ mk, Keeps I (sealWith c mk pt) := by
    intro mk s hs
    rcases sealWith_cases (c := c) (s := s) mk pt with
      ⟨e, he⟩ | ⟨p, nonce, ct, -, -, -, he⟩
    · rw [he]
      exact hs
    · rw [he]
      exact h.sent s hs
  have hnext : Keeps I (nextSendingKey (P := P) c) := by
    intro s hs
    cases hsend : s.sendingChainKey with
    | some ck =>
        rw [nextSendingKey_open hsend]
        exact h.sending s ck hs
    | none =>
        cases hd : s.dhr with
        | none =>
            obtain ⟨e, he⟩ := nextSendingKey_mute (c := c) hsend hd
            rw [he]
            exact hs
        | some d =>
            rw [nextSendingKey_lazy hsend hd]
            split
            · exact hs
            · next shared _ => exact h.sending _ _ (h.opened s shared hs)
  exact keeps_bind hnext fun mk => keeps_bind (hseal mk) fun _ => keeps_pure _

end Stable

end GhostChat.Proofs
