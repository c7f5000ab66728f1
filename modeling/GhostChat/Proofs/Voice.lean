import GhostChat.Proofs.SessionCalls

/-!
# What a header shows of a ratchet

A header carries the sender's public key, the length of the chain before and
the number in this one, so the headers of a session are decided by five fields
of the ratchet: `dhs`, `dhr`, `ckS`, `Ns` and `PN`. This file says what a call
can do to those five, whatever message it is handed and whether it returns or
raises.

A `decrypt` leaves them alone or turns, and it turns only on a key other than
`dhr` (`decryptKeyed_voice`). The counters are turned before the DH that may
raise, so `Turned` says nothing about `dhs`. An `encrypt` leaves all of them
alone but `Ns`, which it counts up if it returns (`encryptKeyed_voice`).
-/

namespace GhostChat.Proofs

open GhostChat.Lib GhostChat.Lib.Effect GhostChat.Ref

variable {K P C : Type} {c : Crypto K P C} {a : KeyAlg K} {s s' s₀ : RatchetState K P}

/-- The five fields are as they were. -/
structure SameVoice (s s' : RatchetState K P) : Prop where
  own : s'.dhs = s.dhs
  remote : s'.dhr = s.dhr
  chain : s'.ckS = s.ckS
  count : s'.Ns = s.Ns
  prev : s'.PN = s.PN

/-- What `_dh_ratchet_receive` has written before the DH. -/
structure Turned (s : RatchetState K P) (X : Bytes) (s' : RatchetState K P) : Prop where
  new : s.dhr ≠ some X
  remote : s'.dhr = some X
  count : s'.Ns = 0
  prev : s'.PN = s.Ns

/-- A ratchet without a sending chain has sent nothing under its key. -/
def Idle (s : RatchetState K P) : Prop := s.ckS = none → s.Ns = 0

/-- A ratchet that cannot send yet. -/
def Mute (s : RatchetState K P) : Prop := s.ckS = none ∧ s.dhr = none

namespace SameVoice

theorem refl (s : RatchetState K P) : SameVoice s s := ⟨rfl, rfl, rfl, rfl, rfl⟩

theorem idle (h : SameVoice s s') (hs : Idle s) : Idle s' := by
  rw [Idle, h.chain, h.count]
  exact hs

theorem mute_iff (h : SameVoice s s') : Mute s' ↔ Mute s := by
  rw [Mute, Mute, h.chain, h.remote]

end SameVoice

namespace Turned

variable {X : Bytes}

theorem idle (h : Turned s X s') : Idle s' := fun _ => h.count

theorem not_mute (h : Turned s X s') : ¬ Mute s' := by
  intro hm
  have := h.remote.symm.trans hm.2
  cases this

/-- What is kept afterwards is kept of the turn. -/
theorem frame (h : Turned s X s₀) (hs : SameVoice s₀ s') : Turned s X s' :=
  ⟨h.new, hs.remote.trans h.remote, hs.count.trans h.count, hs.prev.trans h.prev⟩

end Turned

namespace Ratchet

/-! ## Receiving -/

/-- On the store nothing but the store is written. -/
theorem onStore_voice {α : Type} (x : EStateM Exn (SkippedKeyStore K) α) :
    Keeps (SameVoice s₀) (DoubleRatchet.onStore x : DoubleRatchet.Method K P α) :=
  onStore_keeps (fun _ _ h => ⟨h.own, h.remote, h.chain, h.count, h.prev⟩) x

theorem skipMessageKeys_voice (upTo : Int) :
    Keeps (SameVoice s₀) (DoubleRatchet.skipMessageKeys a upTo :
      DoubleRatchet.Method K P Unit) :=
  skipMessageKeys_keeps (fun _ _ h => ⟨h.own, h.remote, h.chain, h.count, h.prev⟩)
    (fun _ _ h => ⟨h.own, h.remote, h.chain, h.count, h.prev⟩)
    (fun _ _ h => ⟨h.own, h.remote, h.chain, h.count, h.prev⟩) upTo

theorem decryptOnChain_voice (em : EncryptedMessage C) (ad : Bytes) :
    Keeps (SameVoice s₀) (DoubleRatchet.decryptOnChain c em ad) := by
  refine keeps_get_bind fun s h => ?_
  refine keeps_guard (keeps_bind (skipMessageKeys_voice _) fun _ => ?_) s h
  refine keeps_bind (keeps_get_bind fun s h => ?_) fun mk =>
    keeps_bind (keeps_lift _) fun _ => keeps_pure _
  cases s.ckR with
  | none => exact h
  | some ck => exact ⟨h.own, h.remote, h.chain, h.count, h.prev⟩

/-- The branches before the chain is used: a key that is `dhr` leaves the five
fields alone, any other one turns. -/
theorem ensureReceivingChain_voice (X : Bytes) (g : P) :
    SameVoice s (after (DoubleRatchet.ensureReceivingChain c X g s)) ∨
      Turned s X (after (DoubleRatchet.ensureReceivingChain c X g s)) := by
  by_cases hdhr : s.dhr = some X
  · refine Or.inl ?_
    cases hck : s.ckR with
    | some k₀ =>
        rw [ensureReceivingChain_same hck hdhr]
        exact .refl s
    | none =>
        cases hd : dhWith c (some s.dhs) X with
        | error e =>
            rw [ensureReceivingChain_lateRefused hck hdhr hd]
            exact .refl s
        | ok d =>
            rw [ensureReceivingChain_late hck hdhr hd]
            exact ⟨rfl, rfl, rfl, rfl, rfl⟩
  · refine Or.inr ?_
    cases hd : dhWith c (some s.dhs) X with
    | error e =>
        rw [ensureReceivingChain_turnRefused hdhr hd]
        exact ⟨hdhr, rfl, rfl, rfl⟩
    | ok d =>
        rw [ensureReceivingChain_turn hdhr hd]
        exact ⟨hdhr, rfl, rfl, rfl⟩

/-- A call of `decrypt`, on any message. -/
theorem decryptKeyed_voice (em : EncryptedMessage C) (ad : Bytes) (g : P) :
    SameVoice s (after (DoubleRatchet.decryptKeyed c em ad g s)) ∨
      Turned s em.header.dhPub (after (DoubleRatchet.decryptKeyed c em ad g s)) := by
  cases hhas : s.skippedKeys.has em.header.dhPub em.header.n with
  | true =>
      have hpop : Keeps (SameVoice s) (do
          let mk ← DoubleRatchet.onStore (SkippedKeyStore.pop em.header.dhPub em.header.n)
          let plaintext ← lift (DoubleRatchet.openWith c mk em ad)
          return (plaintext, mk) : DoubleRatchet.Method K P (Bytes × K)) :=
        keeps_bind (onStore_voice _) fun _ => keeps_bind (keeps_lift _) fun _ => keeps_pure _
      have hrun := hpop s (.refl s)
      simp only [DoubleRatchet.decryptKeyed, bind_apply, get_apply, ite_run, hhas, if_true]
      exact Or.inl hrun
  | false =>
      rw [decryptKeyed_chain hhas]
      have hen := ensureReceivingChain_voice (c := c) (s := s) em.header.dhPub g
      rw [bind_apply]
      cases hrun : DoubleRatchet.ensureReceivingChain c em.header.dhPub g s with
      | error e s₁ => rwa [hrun] at hen
      | ok u s₁ =>
          rw [hrun] at hen
          have hchain := decryptOnChain_voice (c := c) em ad s₁ (.refl s₁)
          rcases hen with hsame | hturned
          · exact Or.inl ⟨hchain.own.trans hsame.own, hchain.remote.trans hsame.remote,
              hchain.chain.trans hsame.chain, hchain.count.trans hsame.count,
              hchain.prev.trans hsame.prev⟩
          · exact Or.inr (hturned.frame hchain)

/-! ## Sending -/

/-- Between an `encrypt` that raised and the state before: at most the chain is
there now, or has moved. -/
structure Silent (s s' : RatchetState K P) : Prop where
  own : s'.dhs = s.dhs
  remote : s'.dhr = s.dhr
  count : s'.Ns = s.Ns
  prev : s'.PN = s.PN
  chain : s'.ckS = s.ckS ∨ (s'.ckS.isSome ∧ ¬ Mute s)

theorem Silent.idle (h : Silent s s') (hs : Idle s) : Idle s' := by
  intro hnone
  rcases h.chain with he | ⟨hsome, -⟩
  · rw [h.count]
    exact hs (he.symm.trans hnone)
  · rw [hnone] at hsome
    cases hsome

theorem Silent.mute_iff (h : Silent s s') : Mute s' ↔ Mute s := by
  rcases h.chain with he | ⟨hsome, hnot⟩
  · rw [Mute, Mute, he, h.remote]
  · refine iff_of_false (fun hm => ?_) hnot
    rw [hm.1] at hsome
    cases hsome

/-- Making sure of a sending chain and stepping it. -/
theorem nextSendingKey_voice (hidle : Idle s) :
    Silent s (after (DoubleRatchet.nextSendingKey c s)) ∧
      ∀ mk s', DoubleRatchet.nextSendingKey c s = .ok mk s' → s'.ckS.isSome ∧ ¬ Mute s := by
  cases hck : s.ckS with
  | some ck =>
      have hopen : ¬ Mute s := fun hm => by
        rw [hm.1] at hck
        cases hck
      rw [nextSendingKey_open hck]
      refine ⟨⟨rfl, rfl, rfl, rfl, Or.inr ⟨rfl, hopen⟩⟩, fun mk s' hok => ?_⟩
      cases hok
      exact ⟨rfl, hopen⟩
  | none =>
      cases hX : s.dhr with
      | none =>
          rw [nextSendingKey_mute hck hX]
          exact ⟨⟨rfl, rfl, rfl, rfl, Or.inl rfl⟩, fun mk s' hok => (by cases hok)⟩
      | some X =>
          have hopen : ¬ Mute s := fun hm => by
            rw [hm.2] at hX
            cases hX
          cases hd : dhWith c (some s.dhs) X with
          | error e =>
              rw [nextSendingKey_refused hck hX hd]
              exact ⟨⟨rfl, rfl, rfl, rfl, Or.inl rfl⟩, fun mk s' hok => (by cases hok)⟩
          | ok d =>
              rw [nextSendingKey_lazy hck hX hd]
              refine ⟨⟨rfl, rfl, (hidle hck).symm, rfl, Or.inr ⟨rfl, hopen⟩⟩, ?_⟩
              intro mk s' hok
              cases hok
              exact ⟨rfl, hopen⟩

/-- What an `encrypt` returns, and what it leaves. -/
structure Spoken (c : Crypto K P C) (s : RatchetState K P) (em : EncryptedMessage C)
    (s' : RatchetState K P) : Prop where
  header : em.header = ⟨c.publicKey s.dhs, s.PN, s.Ns⟩
  own : s'.dhs = s.dhs
  remote : s'.dhr = s.dhr
  count : s'.Ns = s.Ns + 1
  prev : s'.PN = s.PN
  chain : s'.ckS.isSome
  able : ¬ Mute s

theorem Spoken.idle {em : EncryptedMessage C} (h : Spoken c s em s') : Idle s' := by
  intro hnone
  have := h.chain
  rw [hnone] at this
  cases this

theorem encryptKeyed_voice (hidle : Idle s) (pt ad : Bytes) :
    (∀ e s', DoubleRatchet.encryptKeyed c pt ad s = .error e s' → Silent s s') ∧
      ∀ em k s', DoubleRatchet.encryptKeyed c pt ad s = .ok (em, k) s' → Spoken c s em s' := by
  obtain ⟨hsilent, hopen⟩ := nextSendingKey_voice (c := c) hidle
  simp only [DoubleRatchet.encryptKeyed, bind_apply]
  cases hnext : DoubleRatchet.nextSendingKey c s with
  | error e s₁ =>
      rw [hnext] at hsilent
      refine ⟨fun e' s' he => ?_, fun em k s' hok => (by cases hok)⟩
      cases he
      exact hsilent
  | ok mk s₁ =>
      rw [hnext] at hsilent
      obtain ⟨hchain, hable⟩ := hopen mk s₁ hnext
      rw [after_ok] at hsilent
      rcases sealWith_cases (c := c) (s := s₁) mk pt ad with ⟨e, he⟩ | ⟨nonce, ct, -, -, he⟩
      · simp only [he]
        refine ⟨fun e' s' he' => ?_, fun em k s' hok => (by cases hok)⟩
        cases he'
        exact hsilent
      · simp only [he, pure_apply]
        refine ⟨fun e' s' he' => (by cases he'), fun em k s' hok => ?_⟩
        cases hok
        refine ⟨?_, hsilent.own, hsilent.remote, ?_, hsilent.prev, hchain, hable⟩
        · rw [hsilent.own, hsilent.prev, hsilent.count]
        · show s₁.Ns + 1 = s.Ns + 1
          rw [hsilent.count]

end Ratchet

end GhostChat.Proofs
