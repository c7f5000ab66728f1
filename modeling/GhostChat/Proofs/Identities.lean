import GhostChat.Proofs.Calls
import GhostChat.Lib.Run
import GhostChat.Ref.Steps
import GhostChat.Ref.Symbolic

/-!
# Message identities

A message is known to the peer by its header's `(dh, n)`: the sender's key and
the number under it. `n` is `Ns`, and `Ns` goes back to 0 in
`_dh_ratchet_receive`, which puts a new key in place. But it writes `Ns`
before the DH with the peer's key, and where X25519 refuses that key the new
one is never made. The old key and the old sending chain stay, counted from 0
again, and the next message has an identity that was used.

Three fields decide all this: the private key, the sending chain and `Ns`. No
other part of a decryption writes them, and an encryption counts one up.
-/

namespace GhostChat.Proofs

open GhostChat.Lib GhostChat.Lib.Effect GhostChat.Ref

variable {K P C : Type} {c : Crypto K P C} {a : KeyAlg K}
  {s s' s₀ : DoubleRatchetState K P} {msg : RatchetWireMessage C} {g : P}

/-! ## What a decryption does to the sending side -/

structure SameSpeech (s s' : DoubleRatchetState K P) : Prop where
  own : s'.dhsPrivate = s.dhsPrivate
  chain : s'.sendingChainKey = s.sendingChainKey
  count : s'.Ns = s.Ns

theorem SameSpeech.refl (s : DoubleRatchetState K P) : SameSpeech s s := ⟨rfl, rfl, rfl⟩

theorem onSkipped_speech {α : Type} (x : EStateM Exn (SkippedMessageKeys K) α) :
    Keeps (SameSpeech s₀) (onSkipped x : Engine K P α) := by
  intro s h
  simp only [onSkipped, zoom]
  cases x s.skippedMessageKeys with
  | ok r sk => exact ⟨h.own, h.chain, h.count⟩
  | error e sk => exact ⟨h.own, h.chain, h.count⟩

theorem skipReceivingLoop_speech (dh : Bytes) (upTo fuel : Nat) :
    Keeps (SameSpeech s₀) (skipReceivingLoop a dh upTo fuel : Engine K P Unit) := by
  induction fuel with
  | zero => exact keeps_pure _
  | succ fuel ih =>
      refine keeps_get_bind fun s h => ?_
      simp only [ite_run]
      split
      · cases s.receivingChainKey with
        | none => exact h
        | some ck =>
            have hround : Keeps (SameSpeech s₀) (do
                modify fun s => { s with receivingChainKey := some (kdfChain a ck).1 }
                onSkipped (SkippedMessageKeys.add a dh s.Nr (kdfChain a ck).2)
                modify fun s => { s with Nr := s.Nr + 1 }
                skipReceivingLoop a dh upTo fuel : Engine K P Unit) := by
              refine keeps_bind (keeps_modify fun s h => ⟨h.own, h.chain, h.count⟩) fun _ => ?_
              refine keeps_bind (onSkipped_speech _) fun _ => ?_
              exact keeps_bind (keeps_modify fun s h => ⟨h.own, h.chain, h.count⟩) fun _ => ih
            exact hround s h
      · exact h

theorem skipReceivingUntil_speech (upTo : Nat) :
    Keeps (SameSpeech s₀) (skipReceivingUntil a upTo : Engine K P Unit) := by
  refine keeps_get_bind fun s h => ?_
  cases s.receivingChainKey with
  | none => exact h
  | some ck =>
      cases s.dhr with
      | none => exact h
      | some dh => exact skipReceivingLoop_speech dh upTo _ s h

theorem openWith_speech (mk : K) (failed : String) :
    Keeps (SameSpeech s₀) (openWith c mk msg failed : Engine K P Bytes) := by
  intro s h
  obtain ⟨r, hr⟩ := openWith_after (c := c) (s := s) mk msg failed
  rw [hr]
  exact ⟨h.own, h.chain, h.count⟩

theorem decryptOnChain_speech :
    Keeps (SameSpeech s₀) (decryptOnChain c msg : Engine K P (Bytes × K)) := by
  have hnext : Keeps (SameSpeech s₀) (nextReceivingKey c.toKeyAlg : Engine K P K) := by
    refine keeps_get_bind fun s h => ?_
    cases s.receivingChainKey with
    | none => exact h
    | some ck => exact ⟨h.own, h.chain, h.count⟩
  refine keeps_get_bind fun s h => ?_
  refine keeps_guard (keeps_guard ?_) s h
  refine keeps_bind (skipReceivingUntil_speech _) fun _ => keeps_bind hnext fun mk => ?_
  exact keeps_bind (openWith_speech mk _) fun _ => keeps_pure _

/-- The header's key is new, and the engine has something to turn from. -/
def TurnsOn (s : DoubleRatchetState K P) (dh : Bytes) : Prop :=
  (s.dhr = none ∧ s.sendingChainKey.isSome) ∨ (s.dhr.isSome ∧ s.dhr ≠ some dh)

theorem ensureReceivingChain_speech {dh : Bytes} (h : ¬ TurnsOn s dh) (g : P) :
    SameSpeech s (after (ensureReceivingChain c dh g s)) := by
  cases hd : s.dhr with
  | none =>
      have hs : s.sendingChainKey = none := by
        refine Option.not_isSome_iff_eq_none.mp fun hs => h (Or.inl ⟨hd, hs⟩)
      cases hck : s.receivingChainKey with
      | none =>
          rw [ensureReceivingChain_first hd hck hs]
          exact ⟨rfl, rfl, rfl⟩
      | some ck =>
          rw [ensureReceivingChain_boot hd hck hs]
          exact ⟨rfl, rfl, rfl⟩
  | some d =>
      obtain rfl : d = dh := by
        refine Classical.not_not.mp fun hne => h (Or.inr ⟨by rw [hd]; rfl, fun heq => hne ?_⟩)
        exact Option.some.inj (hd.symm.trans heq)
      cases hck : s.receivingChainKey with
      | none =>
          rw [ensureReceivingChain_late hd hck]
          cases dhWith c s.dhsPrivate d with
          | error e => exact SameSpeech.refl s
          | ok k => exact ⟨rfl, rfl, rfl⟩
      | some ck =>
          rw [ensureReceivingChain_same hd hck]
          exact SameSpeech.refl s

/-- The message gets as far as the DH ratchet. -/
def Turning (s : DoubleRatchetState K P) (msg : RatchetWireMessage C) : Prop :=
  (checkHeader msg).isOk ∧ s.receivedIds.contains msg.header.dh msg.header.n.toNat = false ∧
    s.skippedMessageKeys.has msg.header.dh msg.header.n.toNat = false ∧ TurnsOn s msg.header.dh

theorem Turning.not_refused (h : Turning s msg) : ¬ Refused s msg := by
  obtain ⟨hok, hid, -, hturn⟩ := h
  rintro (⟨e, he⟩ | hid' | ⟨-, hd, -⟩)
  · rw [he] at hok
    cases hok
  · rw [hid] at hid'
    cases hid'
  · rcases hturn with ⟨hnone, -⟩ | ⟨-, hne⟩
    · rw [hd] at hnone
      cases hnone
    · exact hne hd

/-- A decryption leaves the sending side alone, or puts a new key in place, or
sets `Ns` back and nothing else. -/
theorem decrypt_speech (msg : RatchetWireMessage C) (g : P) :
    let s' := after (ratchetDecryptKeyed c msg g s)
    (¬ Turning s msg ∧ SameSpeech s s') ∨
      (Turning s msg ∧
        (((dhWith c s.dhsPrivate msg.header.dh).isOk ∧
            s'.dhsPrivate = some g ∧ s'.sendingChainKey = none ∧ s'.Ns = 0) ∨
          (¬ (dhWith c s.dhsPrivate msg.header.dh).isOk ∧ s'.dhsPrivate = s.dhsPrivate ∧
            s'.sendingChainKey = s.sendingChainKey ∧ s'.Ns = 0))) := by
  by_cases hturn : Turning s msg
  · refine Or.inr ⟨hturn, ?_⟩
    have hfrom : (s.dhr = none ∧ s.sendingChainKey.isSome) ∨
        ∃ d, s.dhr = some d ∧ d ≠ msg.header.dh := by
      refine hturn.2.2.2.imp_right fun h => ?_
      obtain ⟨d, hd⟩ := Option.isSome_iff_exists.mp h.1
      exact ⟨d, hd, fun heq => h.2 (by rw [hd, heq])⟩
    rw [decrypt_chain hturn.not_refused hturn.2.2.1, ensureReceivingChain_turn hfrom]
    cases hd : dhWith c s.dhsPrivate msg.header.dh with
    | error e =>
        rw [dhRatchetReceive_failed hd]
        exact Or.inr ⟨Bool.false_ne_true, rfl, rfl, rfl⟩
    | ok k =>
        rw [dhRatchetReceive_done hd]
        have hsame : ∀ s₁ : DoubleRatchetState K P,
            SameSpeech s₁ (after (decryptOnChain c msg s₁)) :=
          fun s₁ => decryptOnChain_speech s₁ (SameSpeech.refl s₁)
        exact Or.inl ⟨rfl, (hsame _).own, (hsame _).chain, (hsame _).count⟩
  · refine Or.inl ⟨hturn, ?_⟩
    by_cases hr : Refused s msg
    · obtain ⟨e, he⟩ := decrypt_refused (c := c) (g := g) hr
      rw [he]
      exact SameSpeech.refl s
    cases hget : Odict.get? s.skippedMessageKeys.store (msg.header.dh, msg.header.n.toNat) with
    | some mk =>
        rw [decrypt_skipped hr hget, after_keyed]
        exact openWith_speech mk _ _ ⟨rfl, rfl, rfl⟩
    | none =>
        have hno : s.skippedMessageKeys.has msg.header.dh msg.header.n.toNat = false :=
          Odict.has_eq_false_iff.mpr hget
        have hstay : ¬ TurnsOn s msg.header.dh := fun h =>
          hturn ⟨by rw [(not_refused hr).1]; rfl, (not_refused hr).2, hno, h⟩
        have hsame := ensureReceivingChain_speech (c := c) hstay g
        rw [decrypt_chain hr hno]
        cases hrun : ensureReceivingChain c msg.header.dh g s with
        | error e s₁ => rwa [hrun] at hsame
        | ok u s₁ =>
            rw [hrun] at hsame
            exact decryptOnChain_speech s₁ hsame

/-! ## What an encryption does -/

/-- The AEAD takes the plaintext, under the next key of the chain. -/
def Seals (c : Crypto K P C) (s : DoubleRatchetState K P) (pt : Bytes) : Bool :=
  match s.sendingChainKey, s.dhsPrivate with
  | some ck, some p =>
      let mk := (kdfChain c.toKeyAlg ck).2
      match messageKeyToNonce (c.bytes mk) s.Ns with
      | .ok nonce => (aeadEncrypt c mk pt nonce (headerAad (nextHeader c s p))).isOk
      | .error _ => false
  | _, _ => false

/-- The key stays and so does a chain; without a chain nothing was counted. -/
structure StillCounts (s s' : DoubleRatchetState K P) : Prop where
  own : s'.dhsPrivate = s.dhsPrivate
  chain : s.sendingChainKey.isSome → s'.sendingChainKey.isSome
  idle : s'.sendingChainKey = none → s'.Ns = 0

theorem nextSendingKey_counts (hidle : s.sendingChainKey = none → s.Ns = 0) :
    (∃ e, nextSendingKey c s = .error e s ∧ s.sendingChainKey = none) ∨
      ∃ mk s', nextSendingKey c s = .ok mk s' ∧ s'.dhsPrivate = s.dhsPrivate ∧ s'.Ns = s.Ns ∧
        s'.sendingChainKey.isSome := by
  cases hck : s.sendingChainKey with
  | some ck => exact Or.inr ⟨_, _, nextSendingKey_open hck, rfl, rfl, rfl⟩
  | none =>
      cases hd : s.dhr with
      | none =>
          obtain ⟨e, he⟩ := nextSendingKey_mute (c := c) hck hd
          exact Or.inl ⟨e, he, rfl⟩
      | some dh =>
          have hlazy := nextSendingKey_lazy (c := c) hck hd
          cases hw : dhWith c s.dhsPrivate dh with
          | error e =>
              rw [hw] at hlazy
              exact Or.inl ⟨e, hlazy, rfl⟩
          | ok k =>
              rw [hw] at hlazy
              exact Or.inr ⟨_, _, hlazy, rfl, (hidle hck).symm, rfl⟩

/-- An encryption that returns uses up the number, and one that raises does
not. -/
theorem encrypt_speech (hidle : s.sendingChainKey = none → s.Ns = 0) (pt : Bytes) :
    (∃ e s', ratchetEncrypt c pt s = .error e s' ∧ StillCounts s s' ∧ s'.Ns = s.Ns) ∨
      ∃ w s' p, ratchetEncrypt c pt s = .ok w s' ∧ StillCounts s s' ∧ s'.Ns = s.Ns + 1 ∧
        s.dhsPrivate = some p ∧ w.header.dh = c.publicKey p ∧ w.header.n = s.Ns := by
  rw [ratchetEncrypt, map_apply, ratchetEncryptKeyed_eq]
  rcases nextSendingKey_counts (c := c) hidle with ⟨e, he, hck⟩ | ⟨mk, s₁, hok, hown, hNs, hck⟩
  · rw [he]
    exact Or.inl ⟨e, s, rfl, ⟨rfl, id, hidle⟩, rfl⟩
  · have hopen : s₁.sendingChainKey ≠ none := fun h => by
      rw [h] at hck
      cases hck
    rw [hok]
    rcases sealWith_cases (c := c) (s := s₁) mk pt with ⟨e, he⟩ | ⟨p, nonce, ct, hp, -, -, he⟩
    · simp only [he]
      exact Or.inl ⟨e, s₁, rfl, ⟨hown, fun _ => hck, fun h => absurd h hopen⟩, hNs⟩
    · simp only [he]
      refine Or.inr ⟨_, _, p, rfl, ⟨hown, fun _ => hck, fun h => absurd h hopen⟩, ?_, ?_, rfl, ?_⟩
      · exact congrArg (· + 1) hNs
      · rw [← hown]
        exact hp
      · exact congrArg Int.ofNat hNs

/-- With a chain, an encryption returns exactly if the AEAD takes it. -/
theorem encrypt_seals {ck : K} (hck : s.sendingChainKey = some ck) {p : P}
    (hp : s.dhsPrivate = some p) (pt : Bytes) :
    (∃ w s', ratchetEncrypt c pt s = .ok w s') ↔ Seals c s pt = true := by
  rw [ratchetEncrypt, map_apply, ratchetEncryptKeyed_eq, nextSendingKey_open hck, Seals]
  simp only [hck, hp]
  cases hn : messageKeyToNonce (c.bytes (kdfChain c.toKeyAlg ck).2) s.Ns with
  | error e => simp [sealWith, dhsPublicBytes, hn]
  | ok nonce =>
      simp only [nextHeader]
      cases he : aeadEncrypt c (kdfChain c.toKeyAlg ck).2 pt nonce
          (headerAad { dh := c.publicKey p, n := s.Ns, pn := s.PN }) with
      | error e => simp [sealWith, dhsPublicBytes, hn, he, Except.isOk, Except.toBool]
      | ok ct => simp [sealWith, dhsPublicBytes, hn, he, Except.isOk, Except.toBool]

/-! ## One engine and what it sent -/

/-- The engine, and what the program does not keep: the keys the generator
gave, the headers of the messages it returned, newest first, and the keys under
which `Ns` was set back. -/
structure Solo (K P : Type) where
  engine : DoubleRatchetState K P
  handed : List P
  sent : List RatchetMessageHeader := []
  spent : List P := []

/-- X25519 refuses the message's key, and there is something counted to lose. -/
def SetsBack (c : Crypto K P C) (s : DoubleRatchetState K P) (msg : RatchetWireMessage C) : Prop :=
  Turning s msg ∧ ¬ (dhWith c s.dhsPrivate msg.header.dh).isOk ∧ s.Ns ≠ 0

instance (s : DoubleRatchetState K P) (msg : RatchetWireMessage C) :
    Decidable (SetsBack c s msg) :=
  inferInstanceAs (Decidable ((_ ∧ _ ∧ _ ∧ ((_ ∧ _) ∨ (_ ∧ ¬ _ = _))) ∧ _ ∧ _))

def Solo.step (c : Crypto K P C) (σ : Solo K P) : EngineCall P C → Solo K P
  | .encrypt pt =>
      match ratchetEncrypt c pt σ.engine with
      | .ok w s => { σ with engine := s, sent := w.header :: σ.sent }
      | .error _ s => { σ with engine := s }
  | .decrypt msg g => { σ with
      engine := after (ratchetDecrypt c msg g σ.engine)
      handed := g :: σ.handed
      spent := if SetsBack c σ.engine msg then σ.engine.dhsPrivate.toList ++ σ.spent else σ.spent }

def Solo.start (s : DoubleRatchetState K P) (generated : P) : Solo K P where
  engine := s
  handed := [generated]

/-- A generated key is new: its public key is that of no key before. -/
def FreshOwn (c : Crypto K P C) (σ : Solo K P) : EngineCall P C → Prop
  | .encrypt _ => True
  | .decrypt _ g => ∀ p ∈ σ.handed, c.publicKey p ≠ c.publicKey g

instance FreshOwn.decidable (σ : Solo K P) : (call : EngineCall P C) → Decidable (FreshOwn c σ call)
  | .encrypt _ => inferInstanceAs (Decidable True)
  | .decrypt _ _ => inferInstanceAs (Decidable (∀ p ∈ σ.handed, _ ≠ _))

/-- The identities are pairwise distinct, and a peer that was given no message
but earlier ones takes each for a new one. -/
structure Identified (sent : List RatchetMessageHeader) : Prop where
  distinct : (sent.map fun h => (h.dh, h.n)).Nodup
  new : ∀ h older, h :: older <:+ sent → ∀ r : ReceivedIdsStore,
    (∀ id ∈ r.order, ∃ h' ∈ older, id = (h'.dh, h'.n.toNat)) →
      r.contains h.dh h.n.toNat = false

theorem identified_iff {sent : List RatchetMessageHeader} (hnat : ∀ h ∈ sent, 0 ≤ h.n) :
    Identified sent ↔ (sent.map fun h => (h.dh, h.n)).Nodup := by
  refine ⟨Identified.distinct, fun hdistinct => ⟨hdistinct, fun h older hsuffix r hr => ?_⟩⟩
  have htail := hdistinct.sublist (hsuffix.sublist.map _)
  rw [List.map_cons, List.nodup_cons] at htail
  refine decide_eq_false fun hmem => htail.1 ?_
  obtain ⟨h', hh', heq⟩ := hr _ hmem
  have hdh : h.dh = h'.dh := congrArg Prod.fst heq
  have hn : h.n = h'.n := by
    have hn' : h.n.toNat = h'.n.toNat := congrArg Prod.snd heq
    have h₀ := hnat h (hsuffix.subset List.mem_cons_self)
    have h₁ := hnat h' (hsuffix.subset (List.mem_cons_of_mem h hh'))
    omega
  exact List.mem_map.mpr ⟨h', hh', by rw [hdh, hn]⟩

/-! ## The books -/

/-- What holds whatever was sent. -/
structure SoloBooks (c : Crypto K P C) (σ : Solo K P) : Prop where
  own : ∃ p ∈ σ.handed, σ.engine.dhsPrivate = some p
  sent : ∀ h ∈ σ.sent, 0 ≤ h.n ∧ ∃ p ∈ σ.handed, h.dh = c.publicKey p
  spent : ∀ p ∈ σ.spent, p ∈ σ.handed
  idle : σ.engine.sendingChainKey = none → σ.engine.Ns = 0

/-- What holds as long as no identity was used twice: the key in use has the
numbers below `Ns`, or it is spent and has the one that comes next. -/
structure Counted (c : Crypto K P C) (σ : Solo K P) : Prop where
  unspent : ∀ p, σ.engine.dhsPrivate = some p → p ∉ σ.spent → ∀ n : Nat,
    (c.publicKey p, (n : Int)) ∈ σ.sent.map (fun h => (h.dh, h.n)) ↔ n < σ.engine.Ns
  spent : ∀ p, σ.engine.dhsPrivate = some p → p ∈ σ.spent → σ.engine.Ns = 0 ∧
    σ.engine.sendingChainKey.isSome ∧ (c.publicKey p, (0 : Int)) ∈ σ.sent.map fun h => (h.dh, h.n)

/-- No message goes out under a key that is spent. -/
def KeepsIdentity (c : Crypto K P C) (σ : Solo K P) : EngineCall P C → Prop
  | .encrypt pt => (∀ p ∈ σ.spent, σ.engine.dhsPrivate ≠ some p) ∨ Seals c σ.engine pt = false
  | .decrypt _ _ => True

/-- An encryption, seen from the books: nothing is sent, or the next identity
is. -/
theorem Solo.encrypt_cases {σ : Solo K P} (hσ : SoloBooks c σ) (pt : Bytes) :
    let σ' := σ.step c (.encrypt pt)
    σ'.handed = σ.handed ∧ σ'.spent = σ.spent ∧ StillCounts σ.engine σ'.engine ∧
      ((σ'.sent = σ.sent ∧ σ'.engine.Ns = σ.engine.Ns ∧
          (σ.engine.sendingChainKey.isSome → Seals c σ.engine pt = false)) ∨
        ∃ h p, σ'.sent = h :: σ.sent ∧ σ'.engine.Ns = σ.engine.Ns + 1 ∧
          σ.engine.dhsPrivate = some p ∧ h.dh = c.publicKey p ∧ h.n = σ.engine.Ns ∧
          (σ.engine.sendingChainKey.isSome → Seals c σ.engine pt = true)) := by
  intro σ'
  obtain ⟨p, -, hp⟩ := hσ.own
  rcases encrypt_speech (c := c) hσ.idle pt with ⟨e, s', he, hstill, hNs⟩ |
    ⟨w, s', q, hok, hstill, hNs, hq, hdh, hn⟩
  · have hσ' : σ' = { σ with engine := s' } := by
      show Solo.step c σ (.encrypt pt) = _
      rw [Solo.step, he]
    rw [hσ']
    refine ⟨rfl, rfl, hstill, Or.inl ⟨rfl, hNs, fun hsome => ?_⟩⟩
    obtain ⟨ck, hck⟩ := Option.isSome_iff_exists.mp hsome
    refine Bool.eq_false_iff.mpr fun hseals => ?_
    obtain ⟨w, s'', hok⟩ := (encrypt_seals hck hp pt).mpr hseals
    rw [he] at hok
    cases hok
  · have hσ' : σ' = { σ with engine := s', sent := w.header :: σ.sent } := by
      show Solo.step c σ (.encrypt pt) = _
      rw [Solo.step, hok]
    rw [hσ']
    refine ⟨rfl, rfl, hstill, Or.inr ⟨_, q, rfl, hNs, hq, hdh, hn, fun hsome => ?_⟩⟩
    obtain ⟨ck, hck⟩ := Option.isSome_iff_exists.mp hsome
    exact (encrypt_seals hck hp pt).mp ⟨w, s', hok⟩

/-- A decryption, seen from the books. -/
theorem Solo.decrypt_cases (σ : Solo K P) (msg : RatchetWireMessage C) (g : P) :
    let σ' := σ.step c (.decrypt msg g)
    (SameSpeech σ.engine σ'.engine ∧ σ'.spent = σ.spent) ∨
      (σ'.engine.dhsPrivate = some g ∧ σ'.engine.sendingChainKey = none ∧ σ'.engine.Ns = 0 ∧
        σ'.spent = σ.spent) ∨
      (σ.engine.Ns ≠ 0 ∧ σ'.engine.dhsPrivate = σ.engine.dhsPrivate ∧
        σ'.engine.sendingChainKey = σ.engine.sendingChainKey ∧ σ'.engine.Ns = 0 ∧
        σ'.spent = σ.engine.dhsPrivate.toList ++ σ.spent) := by
  intro σ'
  have hengine : σ'.engine = after (ratchetDecryptKeyed c msg g σ.engine) := by
    show after (ratchetDecrypt c msg g σ.engine) = _
    rw [ratchetDecrypt, map_apply]
    cases ratchetDecryptKeyed c msg g σ.engine <;> rfl
  have hspent : σ'.spent = if SetsBack c σ.engine msg then σ.engine.dhsPrivate.toList ++ σ.spent
      else σ.spent := rfl
  rw [hengine, hspent]
  rcases decrypt_speech (c := c) (s := σ.engine) msg g with ⟨hstay, hsame⟩ |
    ⟨hturn, ⟨hdone, hown, hck, hNs⟩ | ⟨hfail, hown, hck, hNs⟩⟩
  · rw [if_neg fun h => hstay h.1]
    exact Or.inl ⟨hsame, rfl⟩
  · rw [if_neg fun h => h.2.1 hdone]
    exact Or.inr (Or.inl ⟨hown, hck, hNs, rfl⟩)
  · by_cases hzero : σ.engine.Ns = 0
    · rw [if_neg fun h => h.2.2 hzero]
      exact Or.inl ⟨⟨hown, hck, hNs.trans hzero.symm⟩, rfl⟩
    · rw [if_pos ⟨hturn, hfail, hzero⟩]
      exact Or.inr (Or.inr ⟨hzero, hown, hck, hNs, rfl⟩)

theorem SoloBooks.step {σ : Solo K P} (hσ : SoloBooks c σ) (call : EngineCall P C) :
    SoloBooks c (σ.step c call) := by
  obtain ⟨p, hp, hown⟩ := hσ.own
  cases call with
  | encrypt pt =>
      obtain ⟨hhanded, hspent, hstill, hsent⟩ := Solo.encrypt_cases hσ pt
      refine ⟨⟨p, by rw [hhanded]; exact hp, hstill.own.trans hown⟩, fun h hh => ?_,
        by rw [hspent, hhanded]; exact hσ.spent, hstill.idle⟩
      rw [hhanded]
      rcases hsent with ⟨hsent, -, -⟩ | ⟨h', q, hsent, -, hq, hdh, hn, -⟩
      · rw [hsent] at hh
        exact hσ.sent h hh
      · rw [hsent] at hh
        rcases List.mem_cons.mp hh with rfl | hh
        · rw [hown] at hq
          cases hq
          exact ⟨by rw [hn]; exact Int.natCast_nonneg _, p, hp, hdh⟩
        · exact hσ.sent h hh
  | decrypt msg g =>
      have hsent : ∀ h ∈ σ.sent, 0 ≤ h.n ∧ ∃ p ∈ g :: σ.handed, h.dh = c.publicKey p := by
        intro h hh
        obtain ⟨hn, q, hq, hdh⟩ := hσ.sent h hh
        exact ⟨hn, q, List.mem_cons_of_mem g hq, hdh⟩
      have hold : ∀ q ∈ σ.spent, q ∈ g :: σ.handed := fun q hq =>
        List.mem_cons_of_mem g (hσ.spent q hq)
      rcases Solo.decrypt_cases (c := c) σ msg g with ⟨hsame, hspent⟩ | ⟨hnew, hck, hNs, hspent⟩ |
        ⟨-, hkept, hck, hNs, hspent⟩
      · refine ⟨⟨p, List.mem_cons_of_mem g hp, hsame.own.trans hown⟩, hsent, ?_, fun hnone => ?_⟩
        · rw [hspent]
          exact hold
        · rw [hsame.count]
          exact hσ.idle (hsame.chain.symm.trans hnone)
      · refine ⟨⟨g, List.mem_cons_self, hnew⟩, hsent, ?_, fun _ => hNs⟩
        rw [hspent]
        exact hold
      · refine ⟨⟨p, List.mem_cons_of_mem g hp, hkept.trans hown⟩, hsent, ?_, fun _ => hNs⟩
        rw [hspent, hown]
        intro q hq
        rcases List.mem_cons.mp hq with rfl | hq
        · exact List.mem_cons_of_mem g hp
        · exact hold q hq

/-- The books keep counting over a decryption. -/
theorem Counted.decrypt {σ : Solo K P} (hσ : SoloBooks c σ) (h : Counted c σ)
    (msg : RatchetWireMessage C) {g : P} (hfresh : ∀ p ∈ σ.handed, c.publicKey p ≠ c.publicKey g) :
    Counted c (σ.step c (.decrypt msg g)) := by
  rcases Solo.decrypt_cases (c := c) σ msg g with ⟨hsame, hspent⟩ | ⟨hnew, hck, hNs, hspent⟩ |
    ⟨hNs₀, hkept, hck, hNs, hspent⟩
  · constructor
    · rw [hsame.own, hspent, hsame.count]
      exact h.unspent
    · rw [hsame.own, hspent, hsame.count, hsame.chain]
      exact h.spent
  · -- Nothing was sent under the new key.
    have hunused : ∀ n : Int, (c.publicKey g, n) ∉ σ.sent.map fun h => (h.dh, h.n) := by
      intro n hmem
      obtain ⟨h', hh', heq⟩ := List.mem_map.mp hmem
      obtain ⟨-, p, hp, hdh⟩ := hσ.sent h' hh'
      exact hfresh p hp (hdh.symm.trans (congrArg Prod.fst heq))
    refine ⟨fun p hp _ n => ?_, fun p hp hmem => ?_⟩
    · rw [hnew] at hp
      cases hp
      rw [hNs]
      exact iff_of_false (hunused n) (Nat.not_lt_zero n)
    · rw [hnew] at hp
      cases hp
      rw [hspent] at hmem
      exact absurd rfl (hfresh g (hσ.spent g hmem))
  · obtain ⟨p, -, hown⟩ := hσ.own
    have hisspent : p ∈ (σ.step c (.decrypt msg g)).spent := by
      rw [hspent, hown]
      exact List.mem_cons_self
    refine ⟨fun q hq hno => ?_, fun q hq _ => ?_⟩
    · rw [hkept, hown] at hq
      cases hq
      exact absurd hisspent hno
    · rw [hkept, hown] at hq
      cases hq
      have hcks : σ.engine.sendingChainKey.isSome := by
        refine Option.isSome_iff_ne_none.mpr fun hnone => hNs₀ (hσ.idle hnone)
      refine ⟨hNs, by rw [hck]; exact hcks, ?_⟩
      -- It was not spent before, or `Ns` would have been 0.
      have hno : p ∉ σ.spent := fun hmem => hNs₀ (h.spent p hown hmem).1
      exact (h.unspent p hown hno 0).mpr (Nat.pos_of_ne_zero hNs₀)

/-- A message under a key that is not spent. -/
theorem Counted.encrypt {σ σ' : Solo K P} {p : P} {h' : RatchetMessageHeader} (h : Counted c σ)
    (hspent : σ'.spent = σ.spent) (hstill : StillCounts σ.engine σ'.engine)
    (hsent : σ'.sent = h' :: σ.sent) (hNs : σ'.engine.Ns = σ.engine.Ns + 1)
    (hown : σ.engine.dhsPrivate = some p) (hdh : h'.dh = c.publicKey p) (hn : h'.n = σ.engine.Ns)
    (hno : p ∉ σ.spent) : Counted c σ' := by
  refine ⟨fun q hq _ n => ?_, fun q hq hmem => ?_⟩
  · rw [hstill.own, hown] at hq
    cases hq
    rw [hsent, List.map_cons, List.mem_cons, h.unspent p hown hno n, hNs, hdh, hn, Prod.mk.injEq,
      and_iff_right rfl]
    omega
  · rw [hstill.own, hown] at hq
    cases hq
    rw [hspent] at hmem
    exact absurd hmem hno

/-! ## Runs -/

/-- The books, and the counting as long as the identities differ. -/
structure SoloInv (c : Crypto K P C) (σ : Solo K P) : Prop where
  books : SoloBooks c σ
  counted : (σ.sent.map fun h => (h.dh, h.n)).Nodup → Counted c σ

/-- A call keeps the identities apart exactly where nothing goes out under a
spent key. -/
theorem step_distinct_iff {σ : Solo K P} (h : SoloInv c σ) (call : EngineCall P C) :
    ((σ.step c call).sent.map fun h => (h.dh, h.n)).Nodup ↔
      (σ.sent.map fun h => (h.dh, h.n)).Nodup ∧ KeepsIdentity c σ call := by
  cases call with
  | decrypt msg g => exact (and_iff_left trivial).symm
  | encrypt pt =>
      obtain ⟨p, -, hown⟩ := h.books.own
      have hunspent : p ∉ σ.spent → ∀ q ∈ σ.spent, σ.engine.dhsPrivate ≠ some q := by
        intro hno q hq heq
        rw [hown] at heq
        cases heq
        exact hno hq
      obtain ⟨-, -, -, hsent⟩ := Solo.encrypt_cases h.books pt
      rcases hsent with ⟨hsent, -, hseals⟩ | ⟨h', q, hsent, -, hq, hdh, hn, hseals⟩
      · rw [hsent]
        refine (and_iff_left_of_imp fun hnodup => ?_).symm
        by_cases hspent : p ∈ σ.spent
        · exact Or.inr (hseals ((h.counted hnodup).spent p hown hspent).2.1)
        · exact Or.inl (hunspent hspent)
      · obtain rfl : p = q := Option.some.inj (hown.symm.trans hq)
        rw [hsent, List.map_cons, List.nodup_cons, hdh, hn, and_comm]
        refine and_congr_right fun hnodup => ?_
        have hcounted := h.counted hnodup
        by_cases hspent : p ∈ σ.spent
        · obtain ⟨hNs, hck, hused⟩ := hcounted.spent p hown hspent
          rw [hNs]
          refine iff_of_false (fun hno => hno hused) ?_
          rintro (hno | hno)
          · exact hno p hspent hown
          · rw [hseals hck] at hno
            cases hno
        · refine iff_of_true (fun hmem => ?_) (Or.inl (hunspent hspent))
          exact Nat.lt_irrefl _ ((hcounted.unspent p hown hspent _).mp hmem)

theorem SoloInv.step {σ : Solo K P} (h : SoloInv c σ) {call : EngineCall P C}
    (hfresh : FreshOwn c σ call) : SoloInv c (σ.step c call) := by
  refine ⟨h.books.step call, fun hnodup => ?_⟩
  obtain ⟨hbefore, hkeeps⟩ := (step_distinct_iff h call).mp hnodup
  have hcounted := h.counted hbefore
  cases call with
  | decrypt msg g => exact hcounted.decrypt h.books msg hfresh
  | encrypt pt =>
      obtain ⟨-, hspent, hstill, hsent⟩ := Solo.encrypt_cases h.books pt
      rcases hsent with ⟨hsent, hNs, -⟩ | ⟨h', p, hsent, hNs, hp, hdh, hn, hseals⟩
      · constructor
        · rw [hstill.own, hspent, hNs, hsent]
          exact hcounted.unspent
        · rw [hstill.own, hspent, hNs, hsent]
          intro p hp hmem
          obtain ⟨hzero, hck, hused⟩ := hcounted.spent p hp hmem
          exact ⟨hzero, hstill.chain hck, hused⟩
      · refine hcounted.encrypt hspent hstill hsent hNs hp hdh hn fun hmem => ?_
        rcases hkeeps with hno | hno
        · exact hno p hmem hp
        · rw [hseals (hcounted.spent p hp hmem).2.1] at hno
          cases hno

theorem createInitialState_solo {rootKey : K} {isInitiator : Bool} {cap : Nat} {generated : P}
    (h₀ : createInitialState c rootKey isInitiator none cap generated = .ok s) :
    SoloInv c (Solo.start s generated) := by
  unfold createInitialState at h₀
  split at h₀
  · cases h₀
  · cases h₀
    refine ⟨⟨⟨generated, List.mem_singleton_self _, rfl⟩, ?_, ?_, fun _ => rfl⟩, fun _ => ⟨?_, ?_⟩⟩
    · rintro _ ⟨⟩
    · rintro _ ⟨⟩
    · exact fun p _ _ n => iff_of_false List.not_mem_nil (Nat.not_lt_zero n)
    · exact fun p _ hmem => absurd hmem List.not_mem_nil

/-- A run of one engine, made without a remote key and handed whatever anybody
likes: the messages it returns have identities of their own, and a peer takes
each for a new one, exactly if none goes out under a key whose count was set
back. -/
theorem identities_iff {rootKey : K} {isInitiator : Bool} {cap : Nat} {generated : P}
    (h₀ : createInitialState c rootKey isInitiator none cap generated = .ok s)
    {calls : List (EngineCall P C)}
    (hfresh : Along (Solo.step c) (FreshOwn c) (Solo.start s generated) calls) :
    Identified (runFrom (Solo.step c) (Solo.start s generated) calls).sent ↔
      Along (Solo.step c) (KeepsIdentity c) (Solo.start s generated) calls := by
  have hstart : SoloInv c (Solo.start s generated) := createInitialState_solo h₀
  have hinv := hfresh.invariant (fun σ call h hfresh => h.step hfresh) hstart
  rw [identified_iff fun h hh => (hinv.books.sent h hh).1]
  rw [Along.iff_of_step (I := SoloInv c) (G := fun σ => (σ.sent.map fun h => (h.dh, h.n)).Nodup)
    (fun σ call h hfresh => h.step hfresh) (fun σ call h _ => step_distinct_iff h call)
    hstart hfresh]
  exact and_iff_right List.nodup_nil

/-! ## The symbolic model -/

instance KeepsIdentity.decidable [DecidableEq P] (σ : Solo K P) :
    (call : EngineCall P C) → Decidable (KeepsIdentity c σ call)
  | .encrypt _ => inferInstanceAs (Decidable ((∀ p ∈ σ.spent, _ ≠ some p) ∨ _ = false))
  | .decrypt _ _ => inferInstanceAs (Decidable True)

/-- A new initiator. -/
def symSpeaker : DoubleRatchetState SymKey Nat := (symPair 1000).engine .initiator

theorem symSpeaker_created :
    createInitialState symbolic symRoot true none 1000 1 = .ok symSpeaker := rfl

/-- A first message under the given key, sealed by nobody. -/
def junkWire (dh : Bytes) : RatchetWireMessage Box where
  header := { dh := dh, n := 0, pn := 0 }
  ciphertext := { key := symRoot, nonce := [], data := [], ad := [] }
  nonce := List.replicate 12 0

/-- Two messages, a turn on a key of nobody's, two more messages, and a key
that X25519 refuses. -/
def symSpoken : List (EngineCall Nat Box) := [
  .encrypt [10], .encrypt [11], .decrypt (junkWire (symPublicKey 7)) 3,
  .encrypt [12], .encrypt [13], .decrypt (junkWire (List.replicate 32 0)) 4]

theorem identities_spoken :
    Along (Solo.step symbolic) (FreshOwn symbolic) (Solo.start symSpeaker 1) symSpoken ∧
      Along (Solo.step symbolic) (KeepsIdentity symbolic) (Solo.start symSpeaker 1) symSpoken ∧
      Identified (runFrom (Solo.step symbolic) (Solo.start symSpeaker 1) symSpoken).sent := by
  have hfresh : Along (Solo.step symbolic) (FreshOwn symbolic) (Solo.start symSpeaker 1)
      symSpoken := by decide +kernel
  have hkeeps : Along (Solo.step symbolic) (KeepsIdentity symbolic) (Solo.start symSpeaker 1)
      symSpoken := by decide +kernel
  exact ⟨hfresh, hkeeps, (identities_iff symSpeaker_created hfresh).mpr hkeeps⟩

/-- After the refused key the next message has the first one's identity. -/
theorem identity_repeated :
    ¬ ∀ calls : List (EngineCall Nat Box),
      Along (Solo.step symbolic) (FreshOwn symbolic) (Solo.start symSpeaker 1) calls →
        Identified (runFrom (Solo.step symbolic) (Solo.start symSpeaker 1) calls).sent := by
  intro h
  have hrun := (h [.encrypt [10], .decrypt (junkWire (List.replicate 32 0)) 3, .encrypt [11]]
    (by decide +kernel)).distinct
  exact absurd hrun (by decide +kernel)

end GhostChat.Proofs
