import GhostChat.Proofs.Agreement
import GhostChat.Proofs.SessionCalls

/-!
# Two linked managers in step

Two sessions made by `create_symmetric_session` know each other's ratchet key
from the start and never change it: neither side generates a key as long as
nobody else interferes. The initiator sends on the chain of the first DH
output, the responder on the chain after the second use of the same output,
and a session is determined by how many messages it has sent and how many it
has received (`sessionAt`).

So a conversation in which every envelope is delivered once and in order is
two counters on each side. It goes on until the replay cache is full: the
cache never forgets, and it refuses what it has no room to remember. That
happens at the envelope number 1025 of a direction.
-/

namespace GhostChat.Proofs

open GhostChat.Lib GhostChat.Lib.Effect GhostChat.Ref

variable {K P C : Type} {c : Crypto K P C} {l : Linking K P} {d : K}

/-! ## A session with two counters -/

/-- The chain a party sends on. -/
def sendPath (d : K) : Party → List K
  | .initiator => [d]
  | .responder => [d, d]

/-- The DH outputs folded into the root after `s` messages sent and `r`
received: the second one comes with the responder's first message. -/
def rootPath (d : K) (who : Party) (s r : Nat) : List K :=
  match who with
  | .initiator => if r = 0 then [d] else [d, d]
  | .responder => if s = 0 then [d] else [d, d]

/-- The key of a party's message `n`. -/
def letterKey (c : Crypto K P C) (l : Linking K P) (d : K) (who : Party) (n : Nat) : K :=
  msgKey c.toKeyAlg l.rootKey (sendPath d who) n

/-- A chain key of a party's chain; the responder's is opened by its first
message. -/
def linkChain (c : Crypto K P C) (l : Linking K P) (d : K) (sender : Party) (n : Nat) : Option K :=
  if sender = .responder ∧ n = 0 then none
  else some (chainKey c.toKeyAlg l.rootKey (sendPath d sender) n)

/-- The two sides compute one DH output. -/
theorem linked_dh (hdh : GoodDh c) (l : Linking K P) :
    ∃ d, ∀ who, dhWith c (some (l.dhs who)) (c.publicKey (l.dhs who.other)) = .ok d := by
  obtain ⟨d, hi, hr⟩ := hdh.commutes (l.dhs .initiator) (l.dhs .responder)
  refine ⟨d, fun who => ?_⟩
  rw [dhWith_some (hdh.public_length _)]
  cases who with
  | initiator => rw [Party.other, hi]
  | responder => rw [Party.other, hr]

def ratchetAt (c : Crypto K P C) (l : Linking K P) (d : K) (who : Party) (s r : Nat) :
    RatchetState K P where
  rootKey := rootAfter c.toKeyAlg l.rootKey (rootPath d who s r)
  dhs := l.dhs who
  dhr := some (c.publicKey (l.dhs who.other))
  ckS := linkChain c l d who s
  ckR := linkChain c l d who.other r
  Ns := s
  Nr := r

/-- The replay cache after `r` envelopes of one session and one ratchet key. -/
def cacheAt (sid pub : Bytes) : Nat → SessionReplayCache
  | 0 => {}
  | r + 1 => {
      seen := (sid, pub, (r : Int)) :: (cacheAt sid pub r).seen
      highestByRatchet := [(pub, (r : Int))] }

def forkAt (pub : Bytes) : Nat → ForkDetectionState
  | 0 => {}
  | r + 1 => { lastMessageNumber := r, lastPreviousChainLength := 0, lastRatchetPub := some pub }

def sessionAt (c : Crypto K P C) (l : Linking K P) (d : K) (who : Party) (s r : Nat) :
    SessionContext K P where
  sessionId := l.peerId who
  ratchet := ratchetAt c l d who s r
  replayCache := cacheAt (l.peerId who.other) (c.publicKey (l.dhs who.other)) r
  forkState := forkAt (c.publicKey (l.dhs who.other)) r

/-! ## The ratchet -/

section Ratchet

variable (hlen : ∀ i s f b, (c.bytes (c.hkdf i s f b)).length = 32)
  (hd : ∀ who, dhWith c (some (l.dhs who)) (c.publicKey (l.dhs who.other)) = .ok d)

include hlen in
theorem letterKey_length (who : Party) (n : Nat) :
    (c.bytes (letterKey c l d who n)).length = 32 := hlen _ _ _ _

/-- The engine of a session that keeps skipped keys. -/
def engineAt (c : Crypto K P C) (l : Linking K P) (d : K) (who : Party) (s r : Nat)
    (sk : SkippedKeyStore K) : RatchetState K P :=
  { ratchetAt c l d who s r with skippedKeys := sk }

include hd in
/-- The key of the next message, on a chain that is there or is opened. -/
theorem nextSendingKey_at (who : Party) (s r : Nat) (sk : SkippedKeyStore K) :
    DoubleRatchet.nextSendingKey c (engineAt c l d who s r sk) = .ok (letterKey c l d who s)
      { engineAt c l d who (s + 1) r sk with Ns := s } := by
  have hopen : ∀ {ck}, linkChain c l d who s = some ck →
      rootPath d who s r = rootPath d who (s + 1) r →
      ck = chainKey c.toKeyAlg l.rootKey (sendPath d who) s →
      DoubleRatchet.nextSendingKey c (engineAt c l d who s r sk)
        = .ok (letterKey c l d who s) { engineAt c l d who (s + 1) r sk with Ns := s } := by
    intro ck hck hroot heq
    rw [Ratchet.nextSendingKey_open (s := engineAt c l d who s r sk) hck, heq]
    have hnext : linkChain c l d who (s + 1)
        = some (kdfChain c.toKeyAlg (chainKey c.toKeyAlg l.rootKey (sendPath d who) s)).1 := by
      rw [linkChain, if_neg (by omega), chainKey_succ]
    simp only [engineAt, ratchetAt, hnext, hroot]
    rfl
  cases who with
  | initiator => exact hopen rfl rfl rfl
  | responder =>
      cases s with
      | succ s => exact hopen rfl rfl rfl
      | zero =>
          exact Ratchet.nextSendingKey_lazy (s := engineAt c l d .responder 0 r sk) rfl rfl
            (hd .responder)

include hlen hd in
/-- A call of `encrypt` that returns. -/
theorem encrypt_at {who : Party} {s r : Nat} {sk : SkippedKeyStore K} {pt ad : Bytes}
    {x : EncryptedMessage C × K} {st : RatchetState K P}
    (h : DoubleRatchet.encryptKeyed c pt ad (engineAt c l d who s r sk) = .ok x st) :
    ∃ ct, c.encrypt (letterKey c l d who s)
        (messageNonce c.toKeyAlg (letterKey c l d who s) s) pt ad = some ct ∧
      x = (⟨⟨c.publicKey (l.dhs who), 0, s⟩, ct⟩, letterKey c l d who s) ∧
      st = engineAt c l d who (s + 1) r sk := by
  obtain ⟨mk, s₁, h₁, h⟩ := bind_ok h
  rw [nextSendingKey_at hd] at h₁
  cases h₁
  obtain ⟨em, s₂, h₂, h⟩ := bind_ok h
  rw [Ratchet.sealWith_eq (letterKey_length hlen who s)] at h₂
  split at h₂
  · next ct hct =>
      cases h₂
      cases h
      exact ⟨ct, hct, rfl, rfl⟩
  · cases h₂

/-- The keys of the peer's messages `r` to `r + len - 1`, as they are filed. -/
def passedOver (c : Crypto K P C) (l : Linking K P) (d : K) (sender : Party) (r len : Nat) :
    Odict (Bytes × Int) K :=
  Ratchet.filed c.toKeyAlg l.rootKey (sendPath d sender) (c.publicKey (l.dhs sender)) r len

include hlen hd in
/-- The peer's next message, or a later one while there is room for the keys
it passes over. -/
theorem decrypt_ahead {who : Party} {s r n : Nat} {sk : SkippedKeyStore K}
    {em : EncryptedMessage C} {ad p : Bytes} {g : P}
    (hpub : em.header.dhPub = c.publicKey (l.dhs who.other)) (hn : em.header.n = n)
    (hr : r ≤ n) (hroom : sk.store.length + (n - r) ≤ sk.maxKeys)
    (hnew : ∀ i : Nat, r ≤ i →
      Odict.has sk.store (c.publicKey (l.dhs who.other), (i : Int)) = false)
    (hdec : c.decrypt (letterKey c l d who.other n)
      (messageNonce c.toKeyAlg (letterKey c l d who.other n) n) em.ciphertext ad = some p) :
    DoubleRatchet.decryptKeyed c em ad g (engineAt c l d who s r sk)
      = .ok (p, letterKey c l d who.other n) (engineAt c l d who s (n + 1)
          { sk with store := sk.store ++ passedOver c l d who.other r (n - r) }) := by
  have hhas : sk.has em.header.dhPub em.header.n = false := by
    rw [hpub, hn]
    exact hnew n hr
  -- On a receiving chain that is there, what remains is the same for both.
  have hchain : ∀ st : RatchetState K P, st.Nr = r → st.skippedKeys = sk →
      st.dhr = some (c.publicKey (l.dhs who.other)) →
      st.ckR = some (chainKey c.toKeyAlg l.rootKey (sendPath d who.other) r) →
      DoubleRatchet.decryptOnChain c em ad st = .ok (p, letterKey c l d who.other n)
        { st with
          ckR := linkChain c l d who.other (n + 1)
          Nr := n + 1
          skippedKeys := { sk with
            store := sk.store ++ passedOver c l d who.other r (n - r) } } := by
    intro st hNr hsk hX hck
    have hck' : st.ckR = some (chainKey c.toKeyAlg l.rootKey (sendPath d who.other) st.Nr) := by
      rw [hck, hNr]
    rw [Ratchet.decryptOnChain_ahead hX hck' hn (hNr ▸ hr)
      (hsk ▸ hNr ▸ hroom) (hsk ▸ hNr ▸ hnew) (letterKey_length hlen who.other n) hdec,
      linkChain, if_neg (by omega), hNr, hsk]
    rfl
  rw [Ratchet.decryptKeyed_chain hhas, hpub, bind_apply]
  cases who with
  | responder =>
      rw [Ratchet.ensureReceivingChain_same (s := engineAt c l d .responder s r sk) rfl rfl]
      exact hchain (engineAt c l d .responder s r sk) rfl rfl rfl rfl
  | initiator =>
      cases r with
      | succ r =>
          rw [Ratchet.ensureReceivingChain_same (s := engineAt c l d .initiator s (r + 1) sk)
            rfl rfl]
          exact hchain (engineAt c l d .initiator s (r + 1) sk) rfl rfl rfl rfl
      | zero =>
          rw [Ratchet.ensureReceivingChain_late (s := engineAt c l d .initiator s 0 sk) rfl rfl
            (hd .initiator)]
          exact hchain _ rfl rfl rfl rfl

include hlen hd in
/-- The peer's next message is opened. -/
theorem decrypt_at {who : Party} {s r : Nat} {em : EncryptedMessage C} {p : Bytes} {g : P}
    (hpub : em.header.dhPub = c.publicKey (l.dhs who.other)) (hn : em.header.n = r)
    (hdec : c.decrypt (letterKey c l d who.other r)
      (messageNonce c.toKeyAlg (letterKey c l d who.other r) r) em.ciphertext [] = some p) :
    DoubleRatchet.decryptKeyed c em [] g (ratchetAt c l d who s r)
      = .ok (p, letterKey c l d who.other r) (ratchetAt c l d who s (r + 1)) := by
  have hroom : (0 : Nat) + (r - r) ≤ 1000 := by omega
  have hnext : DoubleRatchet.decryptKeyed c em [] g (engineAt c l d who s r {}) = _ :=
    decrypt_ahead hlen hd hpub hn (Nat.le_refl r) hroom (fun _ _ => rfl) hdec
  rw [Nat.sub_self] at hnext
  exact hnext

end Ratchet

/-! ## The guards -/

section Cache

variable {sid pub : Bytes}

theorem cacheAt_length (r : Nat) : (cacheAt sid pub r).seen.length = r := by
  induction r with
  | zero => rfl
  | succ r ih => rw [cacheAt, List.length_cons, ih]

theorem cacheAt_maxEntries (r : Nat) : (cacheAt sid pub r).maxEntries = 1024 := by
  cases r <;> rfl

theorem cacheAt_seen {r : Nat} {key : CacheKey} (h : key ∈ (cacheAt sid pub r).seen) :
    key.2.2 < r := by
  induction r with
  | zero => cases h
  | succ r ih =>
      rcases List.mem_cons.mp h with rfl | h
      · exact Int.ofNat_lt.mpr (Nat.lt_succ_self r)
      · have := ih h
        push_cast
        omega

variable {env : ProtocolEnvelope C} {r : Nat}

/-- The next envelope is refused only for want of room. -/
theorem cacheAt_refuses (hpub : env.senderRatchetKey = pub) (hn : env.messageNumber = r) :
    (cacheAt sid pub r).refuses env = decide (1024 ≤ r) := by
  have hnew : SessionReplayCache.makeKey env ∉ (cacheAt sid pub r).seen := by
    intro hmem
    have := cacheAt_seen hmem
    simp only [SessionReplayCache.makeKey, hn, Int.lt_irrefl] at this
  have hlast : (Odict.get? (cacheAt sid pub r).highestByRatchet env.senderRatchetKey).any
      (env.messageNumber < ·) = false := by
    cases r with
    | zero => rfl
    | succ r =>
        rw [hpub, hn]
        simp only [cacheAt, Odict.get?, List.find?_cons, decide_true, Option.map_some,
          Option.any_some, decide_eq_false_iff_not, Int.not_lt]
        push_cast
        omega
  rw [SessionReplayCache.refuses, hlast, decide_eq_false hnew, cacheAt_length,
    cacheAt_maxEntries]
  simp

theorem cacheAt_recorded (hsid : env.sessionId = sid) (hpub : env.senderRatchetKey = pub)
    (hn : env.messageNumber = r) : recorded (cacheAt sid pub r) env = cacheAt sid pub (r + 1) := by
  have hhigh : (recorded (cacheAt sid pub r) env).highestByRatchet = [(pub, (r : Int))] := by
    cases r with
    | zero => simp [recorded, cacheAt, Odict.get?, Odict.set, Odict.has, hpub, hn]
    | succ r =>
        simp [recorded, cacheAt, Odict.get?, Odict.set, Odict.has, hpub, hn]
  have hrest : recorded (cacheAt sid pub r) env = { cacheAt sid pub r with
      seen := (sid, pub, (r : Int)) :: (cacheAt sid pub r).seen
      highestByRatchet := [(pub, (r : Int))] } := by
    rw [← hhigh, recorded, SessionReplayCache.makeKey, hsid, hpub, hn]
  rw [hrest, cacheAt]
  simp only [cacheAt_maxEntries]

theorem forkAt_next (pub : Bytes) (r : Nat) :
    detectFork pub r 0 (forkAt pub r) = .ok false (forkAt pub (r + 1)) := by
  cases r with
  | zero => rfl
  | succ r =>
      have hlt : ¬ ((r : Int) + 1 < r) := by omega
      simp [detectFork, forkAt, hlt]
      rfl

end Cache

/-! ## A session -/

section Session

variable (hlen : ∀ i s f b, (c.bytes (c.hkdf i s f b)).length = 32)
  (hd : ∀ who, dhWith c (some (l.dhs who)) (c.publicKey (l.dhs who.other)) = .ok d)

/-- The header of envelope number `n` of a party. -/
structure HeaderAt (c : Crypto K P C) (l : Linking K P) (who : Party) (n : Nat)
    (env : ProtocolEnvelope C) : Prop where
  sid : env.sessionId = l.peerId who
  pub : env.senderRatchetKey = c.publicKey (l.dhs who)
  number : env.messageNumber = n
  chain : env.previousChainLength = 0

/-- A letter is envelope number `n` of its sender. -/
structure LetterAt (c : Crypto K P C) (l : Linking K P) (d : K) (who : Party) (n : Nat)
    (x : Letter K C) : Prop where
  header : HeaderAt c l who n x.env
  sealed : c.encrypt (letterKey c l d who n)
    (messageNonce c.toKeyAlg (letterKey c l d who n) n) x.plaintext [] = some x.env.ciphertext

theorem session_guard_full {who : Party} {s r : Nat} {env : ProtocolEnvelope C}
    (h : HeaderAt c l who.other r env) (hr : 1024 ≤ r) (replayed : String) :
    SessionContext.guard env replayed (sessionAt c l d who s r) = .error (.valueError replayed)
      { sessionAt c l d who s r with resetState := ⟨true, some "replay-detected"⟩ } := by
  have hrefuses : (sessionAt c l d who s r).replayCache.refuses env = true :=
    (cacheAt_refuses h.pub h.number).trans (decide_eq_true hr)
  exact guard_refused hrefuses

theorem session_guard {who : Party} {s r : Nat} {env : ProtocolEnvelope C}
    (h : HeaderAt c l who.other r env) (hr : r < 1024) (replayed : String) :
    SessionContext.guard env replayed (sessionAt c l d who s r) = .ok ()
      { sessionAt c l d who s (r + 1) with ratchet := ratchetAt c l d who s r } := by
  have hrefuses : (sessionAt c l d who s r).replayCache.refuses env = false :=
    (cacheAt_refuses h.pub h.number).trans (decide_eq_false (by omega))
  have hfork : detectFork env.senderRatchetKey env.messageNumber env.previousChainLength
      (sessionAt c l d who s r).forkState
        = .ok false (forkAt (c.publicKey (l.dhs who.other)) (r + 1)) := by
    rw [h.pub, h.number, h.chain]
    exact forkAt_next _ r
  have hcache : recorded (sessionAt c l d who s r).replayCache env
      = (sessionAt c l d who s (r + 1)).replayCache := cacheAt_recorded h.sid h.pub h.number
  rw [guard_fresh hrefuses, hfork, hcache]
  rfl

include hlen hd in
theorem session_encrypt {who : Party} {s r : Nat} {profile : String} {pt : Bytes}
    {x : ProtocolEnvelope C × K} {ctx : SessionContext K P}
    (h : SessionContext.encryptKeyed c profile pt (sessionAt c l d who s r) = .ok x ctx) :
    LetterAt c l d who s ⟨pt, x.1, x.2⟩ ∧ ctx = sessionAt c l d who (s + 1) r := by
  obtain ⟨⟨em, mk⟩, ctx₁, h₁, h⟩ := bind_ok h
  rw [SessionContext.onRatchet, zoom] at h₁
  cases henc : DoubleRatchet.encryptKeyed c pt [] (sessionAt c l d who s r).ratchet with
  | error e st => rw [henc] at h₁; cases h₁
  | ok y st =>
      obtain ⟨ct, hct, rfl, rfl⟩ := encrypt_at hlen hd henc
      rw [henc] at h₁
      cases h₁
      cases h
      exact ⟨⟨⟨rfl, rfl, rfl, rfl⟩, hct⟩, rfl⟩

include hlen hd in
/-- The next letter is opened while there is room, and refused after that. -/
theorem session_decrypt (hinv : AeadInverse c) {who : Party} {s r : Nat} {x : Letter K C}
    (hx : LetterAt c l d who.other r x) (g : P) :
    SessionContext.decryptKeyed c x.env g (sessionAt c l d who s r) =
      if r < 1024 then .ok (x.plaintext, letterKey c l d who.other r)
        (sessionAt c l d who s (r + 1))
      else .error (.valueError "replayed or stale envelope")
        { sessionAt c l d who s r with resetState := ⟨true, some "replay-detected"⟩ } := by
  rw [SessionContext.decryptKeyed, bind_apply]
  by_cases hr : r < 1024
  · have hdec : DoubleRatchet.decryptKeyed c (SessionContext.messageOf x.env) [] g
        (ratchetAt c l d who s r) = .ok (x.plaintext, letterKey c l d who.other r)
          (ratchetAt c l d who s (r + 1)) :=
      decrypt_at hlen hd hx.header.pub hx.header.number (hinv _ _ _ _ _ hx.sealed)
    rw [session_guard hx.header hr, if_pos hr]
    simp only [SessionContext.onRatchet, zoom, hdec]
    rfl
  · rw [session_guard_full hx.header (by omega), if_neg hr]

end Session

/-! ## Conversations -/

/-- No session is marked for a reset. -/
def Unmarked (l : Linking K P) (σ : Link K P C) : Prop :=
  ∀ who ctx, Odict.get? (σ.manager who).sessions (l.peerId who) = some ctx →
    ctx.resetState.needsReset = false

/-- The calls of a conversation: `encrypt_for` calls that return, and for each
side the peer's envelopes, each once and in the order they were made. -/
def InTurn (c : Crypto K P C) (l : Linking K P) (σ : Link K P C) : LinkAct P C → Prop
  | .encrypt who pt => (value? (SessionManager.encryptFor c (l.peerId who) pt
      (σ.manager who))).isSome
  | .decrypt who env _ => ((σ.letters who.other)[σ.asked who]?).map (·.env) = some env

/-- A delivery returns the plaintext of the envelope. -/
def Opens (c : Crypto K P C) (l : Linking K P) (σ : Link K P C) : LinkAct P C → Prop
  | .encrypt _ _ => True
  | .decrypt who env g => value? (SessionManager.decryptFrom c (l.peerId who) env g
      (σ.manager who)) = ((σ.letters who.other)[σ.asked who]?).map (·.plaintext)

/-- What is to be shown of every call. -/
def Converses (c : Crypto K P C) (l : Linking K P) (σ : Link K P C) (act : LinkAct P C) : Prop :=
  Opens c l σ act ∧ Unmarked l (σ.step c l act)

/-- Fewer than 1024 envelopes have been delivered to the side that gets the
next one. -/
def HasRoom (σ : Link K P C) : LinkAct P C → Prop
  | .encrypt _ _ => True
  | .decrypt who _ _ => σ.asked who < 1024

/-- The two sessions are in step with what was sent and delivered. -/
structure InStep (c : Crypto K P C) (l : Linking K P) (d : K) (σ : Link K P C) : Prop where
  session : ∀ who, Odict.get? (σ.manager who).sessions (l.peerId who)
    = some (sessionAt c l d who (σ.letters who).length (σ.asked who))
  letters : ∀ {who n x}, (σ.letters who)[n]? = some x → LetterAt c l d who n x

theorem InStep.unmarked {σ : Link K P C} (h : InStep c l d σ) : Unmarked l σ := by
  intro who ctx hctx
  rw [h.session] at hctx
  cases hctx
  rfl

/-- A session that was made, and the DH it was made with. -/
theorem createSymmetricSession_ok {peerId X : Bytes} {rootKey : K} {p : P} {isInitiator : Bool}
    {m m' : SessionManager K P}
    (hok : SessionManager.createSymmetricSession c peerId rootKey p X isInitiator m = .ok () m') :
    ∃ d, dhWith c (some p) X = .ok d ∧ m' = { m with
      sessions := Odict.set m.sessions peerId {
        sessionId := peerId
        ratchet := {
          rootKey := (kdfRoot c.toKeyAlg rootKey d).1
          dhs := p
          dhr := some X
          ckS := if isInitiator then some (kdfRoot c.toKeyAlg rootKey d).2 else none
          ckR := if isInitiator then none else some (kdfRoot c.toKeyAlg rootKey d).2
          skippedKeys := { maxKeys := 1000 } } } } := by
  simp only [SessionManager.createSymmetricSession, DoubleRatchet.init, Option.getD_some,
    bind_apply] at hok
  cases hd : dhWith c (some p) X with
  | error e => rw [hd] at hok; cases hok
  | ok d =>
      rw [hd] at hok
      injection hok with _ hmanager
      exact ⟨d, rfl, hmanager.symm⟩

section Conversations

variable (hlen : ∀ i s f b, (c.bytes (c.hkdf i s f b)).length = 32)
  (hd : ∀ who, dhWith c (some (l.dhs who)) (c.publicKey (l.dhs who.other)) = .ok d)
  {σ : Link K P C} {g : P}

theorem InStep.start (hdh : GoodDh c) {before : Party → SessionManager K P}
    (h : Link.Starts c l before σ) :
    ∃ d, (∀ who, dhWith c (some (l.dhs who)) (c.publicKey (l.dhs who.other)) = .ok d) ∧
      InStep c l d σ := by
  obtain ⟨hmade, hletters, hasked, -⟩ := h
  obtain ⟨d, hd⟩ := linked_dh hdh l
  refine ⟨d, hd, fun who => ?_, fun {who n x} hx => ?_⟩
  · obtain ⟨d', hd', hmanager⟩ := createSymmetricSession_ok (hmade who)
    cases (hd who).symm.trans hd'
    rw [hletters, hasked, hmanager, Odict.get?_set_self]
    cases who <;> rfl
  · rw [hletters] at hx
    cases hx

include hlen hd in
theorem InStep.encrypt (h : InStep c l d σ) {who : Party} {pt : Bytes}
    (hturn : InTurn c l σ (.encrypt who pt)) :
    InStep c l d (σ.step c l (.encrypt who pt)) := by
  rw [Link.step]
  simp only [InTurn, SessionManager.encryptFor, map_apply] at hturn
  have hcall : SessionManager.encryptForKeyed c (l.peerId who) pt (σ.manager who)
      = SessionManager.withCtx (l.peerId who)
          (SessionContext.encryptKeyed c (σ.manager who).profile pt) (σ.manager who) := rfl
  rw [hcall, SessionManager.withCtx, h.session] at hturn ⊢
  cases henc : SessionContext.encryptKeyed c (σ.manager who).profile pt
      (sessionAt c l d who (σ.letters who).length (σ.asked who)) with
  | error e ctx => simp [henc] at hturn
  | ok x ctx =>
      obtain ⟨hletter, rfl⟩ := session_encrypt hlen hd henc
      simp only [henc]
      refine ⟨fun who' => ?_, fun {who' n y} hy => ?_⟩
      · by_cases hw : who' = who
        · subst hw
          simp only [Function.update_self, List.length_append, List.length_singleton,
            Odict.get?_set_self]
        · simp only [Function.update_of_ne hw, h.session]
      · by_cases hw : who' = who
        · subst hw
          simp only [Function.update_self] at hy
          rcases getElem?_concat_cases hy with hy | ⟨rfl, rfl⟩
          · exact h.letters hy
          · exact hletter
        · simp only [Function.update_of_ne hw] at hy
          exact h.letters hy

include hlen hd in
/-- What a delivery in turn does to the manager. -/
theorem InStep.delivered (hinv : AeadInverse c) (h : InStep c l d σ) {who : Party}
    {env : ProtocolEnvelope C} (hturn : InTurn c l σ (.decrypt who env g)) :
    ∃ x, (σ.letters who.other)[σ.asked who]? = some x ∧
      SessionManager.decryptFrom c (l.peerId who) env g (σ.manager who) =
        if σ.asked who < 1024 then
          .ok x.plaintext { σ.manager who with
            sessions := Odict.set (σ.manager who).sessions (l.peerId who)
              (sessionAt c l d who (σ.letters who).length (σ.asked who + 1)) }
        else .error (.valueError "replayed or stale envelope") { σ.manager who with
            sessions := Odict.set (σ.manager who).sessions (l.peerId who)
              { sessionAt c l d who (σ.letters who).length (σ.asked who) with
                resetState := ⟨true, some "replay-detected"⟩ } } := by
  obtain ⟨x, hx, rfl⟩ := Option.map_eq_some_iff.mp hturn
  refine ⟨x, hx, ?_⟩
  simp only [SessionManager.decryptFrom, map_apply, SessionManager.decryptFromKeyed,
    SessionManager.withCtx, h.session, session_decrypt hlen hd hinv (h.letters hx) g]
  by_cases hr : σ.asked who < 1024
  · simp only [if_pos hr]
  · simp only [if_neg hr]

include hlen hd in
theorem InStep.decrypt (hinv : AeadInverse c) (h : InStep c l d σ) {who : Party}
    {env : ProtocolEnvelope C} (hturn : InTurn c l σ (.decrypt who env g))
    (hroom : σ.asked who < 1024) : InStep c l d (σ.step c l (.decrypt who env g)) := by
  obtain ⟨x, -, hcall⟩ := h.delivered hlen hd hinv hturn
  rw [if_pos hroom] at hcall
  simp only [Link.step, hcall]
  refine ⟨fun who' => ?_, fun hy => h.letters hy⟩
  by_cases hw : who' = who
  · subst hw
    simp only [Function.update_self, Odict.get?_set_self]
  · simp only [Function.update_of_ne hw, h.session]

include hlen hd in
theorem InStep.converses_iff (hinv : AeadInverse c) (h : InStep c l d σ) {act : LinkAct P C}
    (hturn : InTurn c l σ act) : Converses c l σ act ↔ HasRoom σ act := by
  cases act with
  | encrypt who pt =>
      exact iff_of_true ⟨trivial, (h.encrypt hlen hd hturn).unmarked⟩ trivial
  | decrypt who env g =>
      obtain ⟨x, hx, hcall⟩ := h.delivered hlen hd hinv hturn
      by_cases hroom : σ.asked who < 1024
      · rw [if_pos hroom] at hcall
        refine iff_of_true ⟨?_, (h.decrypt hlen hd hinv hturn hroom).unmarked⟩ hroom
        rw [Opens, hx, hcall]
        rfl
      · rw [if_neg hroom] at hcall
        refine iff_of_false (fun hconv => ?_) hroom
        have hvalue := hconv.1
        rw [Opens, hx, hcall] at hvalue
        cases hvalue

end Conversations

/-- In every conversation of two linked managers, of any length and with the
two directions interleaved in any way: every delivery returns the plaintext and
neither session is ever marked for a reset, exactly if no more than 1024
envelopes are delivered in a direction. -/
theorem linked_conversation_iff (hlen : ∀ i s f b, (c.bytes (c.hkdf i s f b)).length = 32)
    (hdh : GoodDh c) (hinv : AeadInverse c) {before : Party → SessionManager K P}
    {σ : Link K P C} (hstart : Link.Starts c l before σ) {acts : List (LinkAct P C)}
    (hturn : Along (Link.step c l) (InTurn c l) σ acts) :
    Along (Link.step c l) (Converses c l) σ acts ↔ Along (Link.step c l) HasRoom σ acts := by
  obtain ⟨d, hd, h₀⟩ := InStep.start hdh hstart
  refine Along.congr (I := InStep c l d) (fun σ act h hturn => h.converses_iff hlen hd hinv hturn)
    (fun σ act h hturn hroom => ?_) h₀ hturn
  cases act with
  | encrypt who pt => exact h.encrypt hlen hd hturn
  | decrypt who env g => exact h.decrypt hlen hd hinv hturn hroom

/-! ## The symbolic model -/

/-- The call that hands a side its next envelope. -/
def hear (who : Party) (g : P) (σ : Link K P C) : LinkAct P C :=
  match (σ.letters who.other)[σ.asked who]? with
  | some x => .decrypt who x.env g
  | none => .encrypt who []

/-- The calls of a script whose every line may look at the state before it. -/
def linkScript (c : Crypto K P C) (l : Linking K P) (σ : Link K P C) :
    List (Link K P C → LinkAct P C) → List (LinkAct P C)
  | [] => []
  | f :: fs => f σ :: linkScript c l (σ.step c l (f σ)) fs

def symLinking : Linking SymKey Nat where
  rootKey := symRoot
  peerId := fun _ => ascii "peer"
  dhs := symGen

def symProfile : Party → String
  | .initiator => "alice"
  | .responder => "bob"

/-- Two managers without a session. -/
def symBefore (who : Party) : SessionManager SymKey Nat := { profile := symProfile who }

/-- The same two, linked. -/
def symLink : Link SymKey Nat Box where
  manager := fun who => after (SessionManager.createSymmetricSession symbolic
    (symLinking.peerId who) symRoot (symGen who) (symPublicKey (symGen who.other))
    who.isInitiator (symBefore who))

theorem symLink_starts : Link.Starts symbolic symLinking symBefore symLink := by
  refine ⟨fun who => ?_, fun _ => rfl, fun _ => rfl, fun _ => rfl⟩
  cases who <;> rfl

/-- A greeting, two crossing messages, and an answer. -/
def symTalk : List (LinkAct Nat Box) := linkScript symbolic symLinking symLink [
  fun _ => .encrypt .initiator [10], hear .responder 3,
  fun _ => .encrypt .initiator [11], fun _ => .encrypt .responder [20],
  hear .initiator 4, hear .responder 5, fun _ => .encrypt .initiator [12], hear .responder 6]

theorem symbolic_inverse : AeadInverse symbolic := by
  intro key nonce data ad ct h
  cases h
  exact if_pos ⟨rfl, rfl, rfl⟩

instance InTurn.decidable (l : Linking SymKey Nat) (σ : Link SymKey Nat Box) :
    (act : LinkAct Nat Box) → Decidable (InTurn symbolic l σ act)
  | .encrypt _ _ => inferInstanceAs (Decidable (_ = true))
  | .decrypt _ _ _ => inferInstanceAs (Decidable (_ = _))

instance HasRoom.decidable (σ : Link K P C) : (act : LinkAct P C) → Decidable (HasRoom σ act)
  | .encrypt _ _ => isTrue trivial
  | .decrypt _ _ _ => inferInstanceAs (Decidable (_ < _))

theorem linked_conversation_crossing :
    Along (Link.step symbolic symLinking) (InTurn symbolic symLinking) symLink symTalk ∧
      Along (Link.step symbolic symLinking) (Converses symbolic symLinking) symLink symTalk := by
  have hturn : Along (Link.step symbolic symLinking) (InTurn symbolic symLinking) symLink
      symTalk := by decide +kernel
  exact ⟨hturn, (linked_conversation_iff symKeys_injective.hkdf_length symbolic_goodDh
    symbolic_inverse symLink_starts hturn).mpr (by decide +kernel)⟩

/-- With an AEAD that takes everything, `encrypt_for` always returns. -/
theorem InStep.can_say {σ : Link K P C} (hlen : ∀ i s f b, (c.bytes (c.hkdf i s f b)).length = 32)
    (hd : ∀ who, dhWith c (some (l.dhs who)) (c.publicKey (l.dhs who.other)) = .ok d)
    (htotal : ∀ key nonce data ad, ∃ ct, c.encrypt key nonce data ad = some ct)
    (h : InStep c l d σ) (who : Party) (pt : Bytes) : InTurn c l σ (.encrypt who pt) := by
  obtain ⟨ct, hct⟩ := htotal (letterKey c l d who (σ.letters who).length)
    (messageNonce c.toKeyAlg (letterKey c l d who (σ.letters who).length)
      (σ.letters who).length) pt []
  have hat : DoubleRatchet.encryptKeyed c pt []
      (engineAt c l d who (σ.letters who).length (σ.asked who) {})
        = .ok (⟨⟨c.publicKey (l.dhs who), 0, (σ.letters who).length⟩, ct⟩,
            letterKey c l d who (σ.letters who).length)
          (engineAt c l d who ((σ.letters who).length + 1) (σ.asked who) {}) := by
    simp only [DoubleRatchet.encryptKeyed, bind_apply, nextSendingKey_at hd,
      Ratchet.sealWith_eq (letterKey_length hlen who _), hct, pure_apply]
    rfl
  have henc : DoubleRatchet.encryptKeyed c pt []
      (ratchetAt c l d who (σ.letters who).length (σ.asked who)) = _ := hat
  simp only [InTurn, SessionManager.encryptFor, map_apply, SessionManager.encryptForKeyed,
    bind_apply, get_apply, SessionManager.withCtx, h.session, SessionContext.encryptKeyed,
    SessionContext.onRatchet, zoom, sessionAt, henc]
  rfl

/-- The initiator says something and the responder hears it, `n` times. -/
def monologue (c : Crypto K P C) (l : Linking K P) (g : P) : Nat → Link K P C →
    List (LinkAct P C)
  | 0, _ => []
  | n + 1, σ =>
      let σ₁ := σ.step c l (.encrypt .initiator [7])
      .encrypt .initiator [7] :: hear .responder g σ₁ ::
        monologue c l g n (σ₁.step c l (hear .responder g σ₁))

section Monologue

variable {σ : Link K P C} {who : Party} {pt : Bytes} {g : P}

theorem step_said (hturn : InTurn c l σ (.encrypt who pt)) :
    ((σ.step c l (.encrypt who pt)).letters who).length = (σ.letters who).length + 1 ∧
      (σ.step c l (.encrypt who pt)).asked = σ.asked := by
  simp only [InTurn, SessionManager.encryptFor, map_apply] at hturn
  rw [Link.step]
  cases hcall : SessionManager.encryptForKeyed c (l.peerId who) pt (σ.manager who) with
  | error e m => simp [hcall] at hturn
  | ok x m => exact ⟨by simp, rfl⟩

theorem step_heard (env : ProtocolEnvelope C) :
    (σ.step c l (.decrypt who env g)).letters = σ.letters ∧
      (σ.step c l (.decrypt who env g)).asked who = σ.asked who + 1 := by
  rw [Link.step]
  cases SessionManager.decryptFrom c (l.peerId who) env g (σ.manager who) with
  | ok p m => exact ⟨rfl, Function.update_self ..⟩
  | error e m => exact ⟨rfl, Function.update_self ..⟩

theorem hear_eq {n : Nat} (hn : σ.asked who = n) (hlt : n < (σ.letters who.other).length) :
    ∃ env, hear who g σ = .decrypt who env g ∧ InTurn c l σ (.decrypt who env g) := by
  have hget : (σ.letters who.other)[σ.asked who]? = some ((σ.letters who.other).get ⟨n, hlt⟩) := by
    rw [hn]
    exact List.getElem?_eq_getElem hlt
  refine ⟨((σ.letters who.other).get ⟨n, hlt⟩).env, ?_, ?_⟩
  · rw [hear, hget]
  · rw [InTurn, hget]
    rfl

/-- Envelope 1025 ends a monologue. -/
theorem monologue_overruns (hlen : ∀ i s f b, (c.bytes (c.hkdf i s f b)).length = 32)
    (hd : ∀ who, dhWith c (some (l.dhs who)) (c.publicKey (l.dhs who.other)) = .ok d)
    (hinv : AeadInverse c)
    (htotal : ∀ key nonce data ad, ∃ ct, c.encrypt key nonce data ad = some ct) {n k : Nat}
    (h : InStep c l d σ) (hsaid : (σ.letters .initiator).length = k)
    (hheard : σ.asked .responder = k) (hk : k ≤ 1024) (hn : k + n = 1025) :
    Along (Link.step c l) (InTurn c l) σ (monologue c l g n σ) ∧
      ¬ Along (Link.step c l) (Converses c l) σ (monologue c l g n σ) := by
  induction n generalizing σ k with
  | zero => omega
  | succ n ih =>
      have hsay := h.can_say hlen hd htotal .initiator [7]
      have h₁ := h.encrypt hlen hd hsay
      obtain ⟨hsaid₁, hasked₁⟩ := step_said hsay
      rw [hsaid] at hsaid₁
      have hheard₁ : (σ.step c l (.encrypt .initiator [7])).asked .responder = k := by
        rw [hasked₁, hheard]
      obtain ⟨env, hhear, hturn⟩ := hear_eq (g := g) (c := c) (l := l) hheard₁
        (by rw [Party.other, hsaid₁]; exact Nat.lt_succ_self k)
      rw [monologue]
      simp only [hhear]
      by_cases hroom : k < 1024
      · have h₂ := h₁.decrypt hlen hd hinv hturn (by omega)
        obtain ⟨hletters₂, hasked₂⟩ : ((σ.step c l (.encrypt .initiator [7])).step c l
            (.decrypt .responder env g)).letters = _ ∧ _ := step_heard env
        obtain ⟨hrest, hnot⟩ := ih h₂ (by rw [hletters₂, hsaid₁]) (by rw [hasked₂, hheard₁])
          (by omega) (by omega)
        exact ⟨⟨hsay, hturn, hrest⟩, fun hall => hnot hall.2.2⟩
      · obtain rfl : n = 0 := by omega
        refine ⟨⟨hsay, hturn, trivial⟩, fun hall => hroom ?_⟩
        have := (h₁.converses_iff hlen hd hinv hturn).mp hall.2.1
        rwa [HasRoom, hheard₁] at this

end Monologue

/-- 1025 messages in one direction: the last one is refused as a replay. -/
theorem envelope_1025_refused :
    Link.Starts symbolic symLinking symBefore symLink ∧
      Along (Link.step symbolic symLinking) (InTurn symbolic symLinking) symLink
        (monologue symbolic symLinking 3 1025 symLink) ∧
      ¬ Along (Link.step symbolic symLinking) (Converses symbolic symLinking) symLink
        (monologue symbolic symLinking 3 1025 symLink) := by
  obtain ⟨d, hd, h⟩ := InStep.start symbolic_goodDh symLink_starts
  exact ⟨symLink_starts, monologue_overruns symKeys_injective.hkdf_length hd symbolic_inverse
    (fun _ _ _ _ => ⟨_, rfl⟩) h rfl rfl (by decide) rfl⟩

end GhostChat.Proofs
