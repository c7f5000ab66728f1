import GhostChat.Proofs.Honest
import GhostChat.Proofs.Identities
import GhostChat.Proofs.Malformed
import GhostChat.Proofs.Rollback
import GhostChat.Proofs.Sealed

/-!
# What the sender sends and the parser takes

`ratchet_encrypt` has no bound of its own. It takes any plaintext the AEAD
takes, and `Ns` and `PN` are integers of Python. The parser on the other side
has three: a ciphertext of at most 1 MiB, tag included, and two counters of 32
bits. A message beyond one of them has used up its number and its key by the
time it is refused.

`PN` is the bound that is not about the message. It is what `Ns` was when the
chain was turned, so a chain that ended at 2³² spoils all of the next one.

That the number a message carries is `Ns` needs an invariant. An encryption
without a sending chain opens one and counts from 0; in the states there are
`Ns` is 0 already when there is no chain.

The envelope of a session has none of these bounds. Its parser only wants the
three byte fields filled, and one of them is up to the caller: the session id is
the id of the peer (`sent_envelope_reads_back`).
-/

namespace GhostChat.Proofs

open GhostChat.Lib GhostChat.Lib.Effect GhostChat.Ref

variable {K P : Type} {c : Crypto K P Bytes} {s s₀ s' : DoubleRatchetState K P}

/-! ## Without a chain nothing is counted -/

def Uncounted (s : DoubleRatchetState K P) : Prop := s.sendingChainKey = none → s.Ns = 0

theorem Uncounted.start {rootKey : K} {isInitiator : Bool} {dhr : Option Bytes} {cap : Nat}
    {generated : P} (h : createInitialState c rootKey isInitiator dhr cap generated = .ok s₀) :
    Uncounted s₀ := by
  unfold createInitialState at h
  split at h
  · cases h
  · split at h
    · obtain ⟨shared, -, h⟩ := except_bind_ok h
      cases h
      exact fun _ => rfl
    · cases h
      exact fun _ => rfl

theorem Uncounted.step (h : Uncounted s) (call : EngineCall P Bytes) :
    Uncounted (call.step c s) := by
  cases call with
  | encrypt pt =>
      rw [EngineCall.step]
      rcases encrypt_speech (c := c) h pt with
        ⟨e, s₁, he, hcounts, -⟩ | ⟨w, s₁, p, he, hcounts, -⟩
      · rw [he]
        exact hcounts.idle
      · rw [he]
        exact hcounts.idle
  | decrypt msg g =>
      rw [EngineCall.step, ratchetDecrypt_after]
      rcases decrypt_speech (c := c) (s := s) msg g with
        ⟨-, hsame⟩ | ⟨-, ⟨-, -, -, hzero⟩ | ⟨-, -, -, hzero⟩⟩
      · intro hnone
        rw [hsame.chain] at hnone
        rw [hsame.count]
        exact h hnone
      · exact fun _ => hzero
      · exact fun _ => hzero

/-! ## The message of an encryption -/

theorem nextSendingKey_number (huncounted : Uncounted s) {mk : K}
    (h : nextSendingKey c s = .ok mk s') : s'.Ns = s.Ns := by
  rcases nextSendingKey_counts (c := c) huncounted with ⟨e, he, -⟩ | ⟨mk', s₁, hok, -, hNs, -⟩
  · rw [he] at h
    cases h
  · rw [hok] at h
    cases h
    exact hNs

theorem encrypt_message (huncounted : Uncounted s) {pt : Bytes} {w : RatchetWireMessage Bytes}
    (h : ratchetEncrypt c pt s = .ok w s') :
    (∃ p, w.header.dh = c.publicKey p) ∧ w.header.n = s.Ns ∧ w.header.pn = s.PN ∧
      w.nonce.length = 12 ∧ ∃ key ad, c.encrypt key w.nonce pt ad = some w.ciphertext := by
  obtain ⟨⟨w', mk⟩, hkeyed, rfl⟩ := map_ok h
  rw [ratchetEncryptKeyed_eq] at hkeyed
  cases hn : nextSendingKey c s with
  | error e s₁ =>
      rw [hn] at hkeyed
      cases hkeyed
  | ok mk₁ s₁ =>
      rw [hn] at hkeyed
      rcases sealWith_cases (c := c) (s := s₁) mk₁ pt with
        ⟨e, he⟩ | ⟨p, nonce, ct, -, hnonce, hct, he⟩
      · simp only [he] at hkeyed
        cases hkeyed
      · simp only [he] at hkeyed
        cases hkeyed
        exact ⟨⟨p, rfl⟩, congrArg Int.ofNat (nextSendingKey_number huncounted hn),
          congrArg Int.ofNat (nextSendingKey_PN hn), nonce_length hnonce, mk, _, hct⟩

/-- The bounds of the parser, asked of the plaintext and of the state before
the call. -/
structure Sendable (s : DoubleRatchetState K P) (plaintext : Bytes) : Prop where
  plaintext : plaintext.length + 16 ≤ maxCiphertextLen
  number : s.Ns < 2 ^ 32
  previous : s.PN < 2 ^ 32

/-- In every state an engine gets into, the message that an accepted plaintext
gives is parsed to itself exactly if the plaintext leaves room for the tag and
both counters fit. -/
theorem sent_parses_iff (hpub : ∀ p, (c.publicKey p).length = 32) (htag : AeadTagged c)
    {rootKey : K} {isInitiator : Bool} {dhr : Option Bytes} {cap : Nat} {generated : P}
    (h₀ : createInitialState c rootKey isInitiator dhr cap generated = .ok s₀)
    {calls : List (EngineCall P Bytes)} (hs : runFrom (EngineCall.step c) s₀ calls = s)
    {plaintext : Bytes} {w : RatchetWireMessage Bytes}
    (h : ratchetEncrypt c plaintext s = .ok w s') :
    wireMessageFromDict (wireMessageToDict w) = .ok w ↔ Sendable s plaintext := by
  have huncounted : Uncounted s := by
    rw [← hs]
    exact runFrom_invariant (fun _ call hI => hI.step call) (Uncounted.start h₀) calls
  obtain ⟨⟨p, hdh⟩, hn, hpn, hnonce, key, ad, hct⟩ := encrypt_message huncounted h
  have hlen := htag _ _ _ _ _ hct
  rw [reads_back_iff]
  constructor
  · intro hin
    have hn' := hin.n.2
    have hpn' := hin.pn.2
    have hmax := hin.ciphertext.2
    exact ⟨by omega, by omega, by omega⟩
  · intro hsendable
    have hpt := hsendable.plaintext
    have hn' := hsendable.number
    have hpn' := hsendable.previous
    refine ⟨?_, by omega, by omega, hnonce, by omega⟩
    rw [hdh]
    exact hpub p

/-- The AEAD of the instance takes every plaintext. -/
theorem sampleState_seals (plaintext : Bytes) :
    Seals sampleCrypto (sampleState true) plaintext = true := by
  have hkey : ∀ ck, (sampleCrypto.bytes (kdfChain sampleCrypto.toKeyAlg ck).2).length = 32 :=
    fun _ => mix_length _
  cases hnonce : messageKeyToNonce (sampleCrypto.bytes (kdfChain sampleCrypto.toKeyAlg
      (kdfInitialChain sampleCrypto.toKeyAlg (mix [1]))).2) 0 with
  | error e =>
      rw [messageKeyToNonce, if_neg (by rw [hkey, aadNonceLen]; decide)] at hnonce
      cases hnonce
  | ok nonce =>
      simp only [Seals, sampleState, if_true, hnonce, aeadEncrypt, hkey, nonce_length hnonce,
        ne_eq, not_true_eq_false, if_false]
      rfl

/-- What a responder answers to the first message. -/
def sampleAnswer : Option (RatchetWireMessage Bytes) := do
  let hello ← value? (ratchetEncrypt sampleCrypto [1] (sampleState true))
  let responder := { sampleState false with dhsPrivate := some (mix [3]) }
  value? (ratchetEncrypt sampleCrypto [3]
    (after (ratchetDecrypt sampleCrypto hello (mix [4]) responder)))

/-- Two messages are sent, and one of them is answered. -/
def answeredCalls : List (EngineCall Bytes Bytes) :=
  [.encrypt [1], .encrypt [2]] ++ sampleAnswer.toList.map fun w => .decrypt w (mix [5])

def answeredState : DoubleRatchetState Bytes Bytes :=
  runFrom (EngineCall.step sampleCrypto) (sampleState true) answeredCalls

/-- The first message of the next chain. -/
theorem sent_parses_hello : answeredState.PN = 2 ∧ answeredState.Nr = 1 ∧
    ∃ w s', ratchetEncrypt sampleCrypto [104, 105] answeredState = .ok w s' ∧
      wireMessageFromDict (wireMessageToDict w) = .ok w := by
  have hsome : (value? (ratchetEncrypt sampleCrypto [104, 105] answeredState)).isSome = true := by
    decide +kernel
  cases hsent : ratchetEncrypt sampleCrypto [104, 105] answeredState with
  | error e s' =>
      rw [hsent] at hsome
      cases hsome
  | ok w s' =>
      refine ⟨by decide +kernel, by decide +kernel, w, s', rfl, ?_⟩
      exact (sent_parses_iff (fun _ => mix_length _) sampleCrypto_tagged
        (sampleState_created true) rfl hsent).mpr
        ⟨by decide, by decide +kernel, by decide +kernel⟩

/-- One byte more than leaves room for the tag. -/
def largePlaintext : Bytes := List.replicate (1024 * 1024 - 15) 65

/-- A new session accepts it, and the other side does not take the message. -/
theorem large_plaintext_not_parsed :
    createInitialState sampleCrypto (mix [1]) true none 1000 (mix [2]) = .ok (sampleState true) ∧
    ∃ w s', ratchetEncrypt sampleCrypto largePlaintext (sampleState true) = .ok w s' ∧
      wireMessageFromDict (wireMessageToDict w) ≠ .ok w := by
  refine ⟨sampleState_created true, ?_⟩
  obtain ⟨w, s', hsent⟩ := (encrypt_seals rfl rfl _).mpr (sampleState_seals largePlaintext)
  refine ⟨w, s', hsent, fun hread => ?_⟩
  have huncounted : Uncounted (sampleState true) := Uncounted.start (sampleState_created true)
  obtain ⟨-, -, -, -, key, ad, hct⟩ := encrypt_message huncounted hsent
  have hlen := sampleCrypto_tagged _ _ _ _ _ hct
  have hmax := (reads_back_iff.mp hread).ciphertext.2
  rw [hlen, largePlaintext, List.length_replicate] at hmax
  exact absurd hmax (by decide)

/-! ## The envelope of a session -/

/-- An envelope `encrypt_for` returns is read back exactly if the session has an
id. -/
theorem sent_envelope_reads_back (hpub : ∀ p, (c.publicKey p).length = 32) (htag : AeadTagged c)
    {peerId plaintext : Bytes} {m m' : SessionManager K P} {ctx : SessionContext K P}
    (hctx : Odict.get? m.sessions peerId = some ctx) {env : ProtocolEnvelope Bytes}
    (h : SessionManager.encryptFor c peerId plaintext m = .ok env m') :
    ProtocolEnvelope.fromDict env.toDict = .ok env ↔ ctx.sessionId ≠ [] := by
  simp only [SessionManager.encryptFor, map_apply, SessionManager.encryptForKeyed, bind_apply,
    get_apply, SessionManager.withCtx, hctx, SessionContext.encryptKeyed,
    SessionContext.onRatchet, zoom] at h
  cases henc : DoubleRatchet.encryptKeyed c plaintext [] ctx.ratchet with
  | error e st =>
      rw [henc] at h
      cases h
  | ok x st =>
      obtain ⟨em, mk⟩ := x
      rw [henc] at h
      cases h
      obtain ⟨⟨nonce, -, hct⟩, ⟨p, hdh⟩, hn, hpn⟩ := Ratchet.encryptKeyed_sealed henc
      rw [envelope_reads_back_iff]
      refine ⟨fun hbounds => hbounds.sessionId, fun hsid => ⟨rfl, hsid, ?_, ?_, hn, hpn⟩⟩
      · refine List.ne_nil_of_length_pos ?_
        rw [hdh, hpub p]
        decide
      · refine List.ne_nil_of_length_pos ?_
        rw [htag _ _ _ _ _ hct]
        omega

end GhostChat.Proofs
