import GhostChat.Proofs.Linked

/-!
# What a rejected envelope leaves behind

`decrypt_from` records an envelope in the replay cache before anything has
been authenticated. So a call that raises leaves the session as it was, up to
the reset flag, exactly if it was the cache that refused; an envelope refused
later, by the fork detector, by a full store of skipped keys or by the AEAD,
is in the cache, and the genuine envelope with its number is a replay.

The reset flag itself is only ever written: no call reads it, and envelopes
that the cache refuses change nothing that a later call can see.
-/

namespace GhostChat.Proofs

open GhostChat.Lib GhostChat.Lib.Effect GhostChat.Ref

variable {K P C : Type} {c : Crypto K P C} {ctx : SessionContext K P}
  {env : ProtocolEnvelope C} {g : P}

/-! ## One session -/

theorem recorded_ne (r : SessionReplayCache) (env : ProtocolEnvelope C) :
    recorded r env ≠ r := by
  intro h
  have hlen := congrArg (fun r => r.seen.length) h
  simp only [recorded, List.length_cons] at hlen
  omega

/-- The cache remembers what it did not refuse, whatever the ratchet says. -/
theorem decryptKeyed_recorded (h : ctx.replayCache.refuses env = false) :
    (after (SessionContext.decryptKeyed c env g ctx)).replayCache
      = recorded ctx.replayCache env := by
  have hguard : (after (SessionContext.guard env "replayed or stale envelope" ctx)).replayCache
      = recorded ctx.replayCache env := (guard_recorded h).1
  rw [SessionContext.decryptKeyed, bind_apply]
  cases hr : SessionContext.guard env "replayed or stale envelope" ctx with
  | error e ctx' => rw [hr] at hguard; exact hguard
  | ok u ctx' =>
      rw [hr] at hguard
      simp only [SessionContext.onRatchet, zoom]
      cases DoubleRatchet.decryptKeyed c (SessionContext.messageOf env) [] g ctx'.ratchet with
      | ok x st => exact hguard
      | error e st => exact hguard

theorem decryptKeyed_refused (h : ctx.replayCache.refuses env = true) :
    SessionContext.decryptKeyed c env g ctx = .error (.valueError "replayed or stale envelope")
      { ctx with resetState := ⟨true, some "replay-detected"⟩ } := by
  rw [SessionContext.decryptKeyed, bind_apply, guard_refused h]

/-- An envelope past the cache: the ratchet is asked, or the fork detector has
refused. -/
theorem decryptKeyed_fresh (h : ctx.replayCache.refuses env = false) (g : P) :
    ∃ ctx₁ : SessionContext K P, ctx₁.replayCache = recorded ctx.replayCache env ∧
      ctx₁.ratchet = ctx.ratchet ∧ ctx₁.sessionId = ctx.sessionId ∧
      (SessionContext.decryptKeyed c env g ctx = SessionContext.onRatchet
          (DoubleRatchet.decryptKeyed c (SessionContext.messageOf env) [] g) ctx₁ ∨
        ∃ e, SessionContext.decryptKeyed c env g ctx = .error e ctx₁) := by
  have hguard : (after (SessionContext.guard env "replayed or stale envelope" ctx)).replayCache
      = recorded ctx.replayCache env ∧ _ ∧ _ := guard_recorded h
  rw [SessionContext.decryptKeyed, bind_apply]
  cases hr : SessionContext.guard env "replayed or stale envelope" ctx with
  | error e ctx₁ =>
      rw [hr] at hguard
      exact ⟨ctx₁, hguard.1, hguard.2.1, hguard.2.2, Or.inr ⟨e, rfl⟩⟩
  | ok u ctx₁ =>
      rw [hr] at hguard
      exact ⟨ctx₁, hguard.1, hguard.2.1, hguard.2.2, Or.inl rfl⟩

/-- Before the ratchet nothing of the ratchet is touched. -/
theorem decryptKeyed_guarded (ctx : SessionContext K P) (env : ProtocolEnvelope C) (g : P) :
    ∃ ctx₁ : SessionContext K P, ctx₁.ratchet = ctx.ratchet ∧
      (SessionContext.decryptKeyed c env g ctx = SessionContext.onRatchet
          (DoubleRatchet.decryptKeyed c (SessionContext.messageOf env) [] g) ctx₁ ∨
        ∃ e, SessionContext.decryptKeyed c env g ctx = .error e ctx₁) := by
  cases hr : ctx.replayCache.refuses env with
  | true =>
      exact ⟨{ ctx with resetState := ⟨true, some "replay-detected"⟩ }, rfl,
        Or.inr ⟨_, decryptKeyed_refused hr⟩⟩
  | false =>
      obtain ⟨ctx₁, -, hratchet, -, hcall⟩ := decryptKeyed_fresh (c := c) hr g
      exact ⟨ctx₁, hratchet, hcall⟩

/-- No call looks at the reset flag. -/
theorem decryptKeyed_reset (reset : SessionResetState) :
    value? (SessionContext.decryptKeyed c env g { ctx with resetState := reset })
      = value? (SessionContext.decryptKeyed c env g ctx) := by
  cases h : ctx.replayCache.refuses env with
  | true =>
      have h' : ({ ctx with resetState := reset } : SessionContext K P).replayCache.refuses env
          = true := h
      simp only [decryptKeyed_refused h, decryptKeyed_refused h', value?_error]
  | false =>
      have h' : ({ ctx with resetState := reset } : SessionContext K P).replayCache.refuses env
          = false := h
      simp only [SessionContext.decryptKeyed, bind_apply, guard_fresh h, guard_fresh h']
      cases detectFork env.senderRatchetKey env.messageNumber env.previousChainLength
          ctx.forkState with
      | error e f => rfl
      | ok forked f =>
          cases forked with
          | true => rfl
          | false =>
              simp only [SessionContext.onRatchet, zoom]
              cases DoubleRatchet.decryptKeyed c (SessionContext.messageOf env) [] g
                  ctx.ratchet <;> rfl

/-! ## The manager -/

section Manager

variable {m m' : SessionManager K P} {peerId : Bytes}

/-- The session is the one it was, up to the reset flag. -/
def KeepsSession (ctx : SessionContext K P) (m : SessionManager K P) (peerId : Bytes) : Prop :=
  ∃ reset, Odict.get? m.sessions peerId = some { ctx with resetState := reset }

theorem decryptFrom_session (h : Odict.get? m.sessions peerId = some ctx) :
    Odict.get? (after (SessionManager.decryptFrom c peerId env g m)).sessions peerId
      = some (after (SessionContext.decryptKeyed c env g ctx)) := by
  simp only [SessionManager.decryptFrom, map_apply, SessionManager.decryptFromKeyed,
    SessionManager.withCtx, h]
  cases SessionContext.decryptKeyed c env g ctx with
  | ok x ctx' => exact Odict.get?_set_self _ _ _
  | error e ctx' => exact Odict.get?_set_self _ _ _

theorem decryptFrom_value (h : Odict.get? m.sessions peerId = some ctx) :
    value? (SessionManager.decryptFrom c peerId env g m)
      = (value? (SessionContext.decryptKeyed c env g ctx)).map (·.1) := by
  simp only [SessionManager.decryptFrom, map_apply, SessionManager.decryptFromKeyed,
    SessionManager.withCtx, h]
  cases SessionContext.decryptKeyed c env g ctx <;> rfl

theorem KeepsSession.refused (hrefuses : ctx.replayCache.refuses env = true)
    (h : KeepsSession ctx m peerId) :
    KeepsSession ctx (after (SessionManager.decryptFrom c peerId env g m)) peerId := by
  obtain ⟨reset, hget⟩ := h
  refine ⟨⟨true, some "replay-detected"⟩, ?_⟩
  rw [decryptFrom_session hget]
  have hrefuses' : ({ ctx with resetState := reset } : SessionContext K P).replayCache.refuses env
      = true := hrefuses
  rw [decryptKeyed_refused hrefuses', after_error]

/-- In every state of a manager with a session for the peer: a call that
raises leaves replay cache, fork state and ratchet as they were exactly if the
replay cache refused the envelope; and envelopes it refuses, however many, do
not change what any later envelope decrypts to. -/
theorem rejection_keeps_session_iff (m : SessionManager K P) (peerId : Bytes)
    (hctx : Odict.get? m.sessions peerId = some ctx) :
    (∀ (env : ProtocolEnvelope C) g e m',
      SessionManager.decryptFrom c peerId env g m = .error e m' →
      (KeepsSession ctx m' peerId ↔ ctx.replayCache.refuses env = true)) ∧
    ∀ forged : List (ProtocolEnvelope C × P),
      (∀ f ∈ forged, ctx.replayCache.refuses f.1 = true) → ∀ env g,
      value? (SessionManager.decryptFrom c peerId env g
        (runFrom (fun m f => after (SessionManager.decryptFrom c peerId f.1 f.2 m)) m forged))
        = value? (SessionManager.decryptFrom c peerId env g m) := by
  have hsame : KeepsSession ctx m peerId := ⟨ctx.resetState, hctx⟩
  refine ⟨fun env g e m' he => ?_, fun forged hall env g => ?_⟩
  · have hafter : after (SessionManager.decryptFrom c peerId env g m) = m' := by rw [he]; rfl
    constructor
    · rintro ⟨reset, hget⟩
      by_contra hfresh
      rw [← hafter, decryptFrom_session hctx] at hget
      have hcache := decryptKeyed_recorded (c := c) (g := g) (Bool.eq_false_iff.mpr hfresh)
      rw [Option.some.inj hget] at hcache
      exact recorded_ne _ _ hcache.symm
    · intro hrefuses
      rw [← hafter]
      exact hsame.refused hrefuses
  · have hrun : ∀ m, KeepsSession ctx m peerId → KeepsSession ctx
        (runFrom (fun m f => after (SessionManager.decryptFrom c peerId f.1 f.2 m)) m forged)
        peerId := by
      induction forged with
      | nil => exact fun m h => h
      | cons f forged ih =>
          intro m h
          exact ih (fun f' hf' => hall f' (List.mem_cons_of_mem _ hf')) _
            (h.refused (hall f List.mem_cons_self))
    obtain ⟨reset, hget⟩ := hrun m hsame
    rw [decryptFrom_value hget, decryptFrom_value hctx, decryptKeyed_reset]

end Manager

/-! ## Concrete calls -/

/-- The responder's manager before anything was sent. -/
def symResponder : SessionManager SymKey Nat := symLink.manager .responder

/-- The session in it. -/
def symResponderCtx : SessionContext SymKey Nat where
  sessionId := ascii "peer"
  ratchet := {
    rootKey := (kdfRoot symKeys symRoot (.atom (.shared (symPublicKey 1, symPublicKey 2)))).1
    dhs := 2
    dhr := some (symPublicKey 1)
    ckS := none
    ckR := some (kdfRoot symKeys symRoot (.atom (.shared (symPublicKey 1, symPublicKey 2)))).2 }

theorem symResponder_session :
    Odict.get? symResponder.sessions (ascii "peer") = some symResponderCtx := by
  decide +kernel

/-- The header of the initiator's first envelope around some ciphertext. -/
def firstEnvelope (ciphertext : Box) : ProtocolEnvelope Box where
  version := 1
  sessionId := ascii "peer"
  senderRatchetKey := symPublicKey 1
  messageNumber := 0
  previousChainLength := 0
  ciphertext := ciphertext
  nonce := []
  metaData := [("profile", .str "alice")]

def symFirstKey : SymKey := msgKey symKeys symRoot
  [.atom (.shared (symPublicKey 1, symPublicKey 2))] 0

def genuineEnvelope : ProtocolEnvelope Box :=
  firstEnvelope ⟨symFirstKey, messageNonce symKeys symFirstKey 0, [10], []⟩

/-- The same envelope with other bytes in it. -/
def forgedEnvelope : ProtocolEnvelope Box := firstEnvelope ⟨symRoot, [], [], []⟩

theorem genuineEnvelope_made :
    value? (SessionManager.encryptFor symbolic (ascii "peer") [10] (symLink.manager .initiator))
      = some genuineEnvelope := by
  decide +kernel

/-- The responder with the genuine envelope opened. -/
def symHeard : SessionManager SymKey Nat :=
  after (SessionManager.decryptFrom symbolic (ascii "peer") genuineEnvelope 3 symResponder)

def symHeardCtx : SessionContext SymKey Nat :=
  after (SessionContext.decryptKeyed symbolic genuineEnvelope 3 symResponderCtx)

theorem symHeard_session : Odict.get? symHeard.sessions (ascii "peer") = some symHeardCtx :=
  decryptFrom_session symResponder_session

/-- The same envelope again raises, and leaves the session alone. -/
theorem rejection_keeps_session_replay :
    value? (SessionManager.decryptFrom symbolic (ascii "peer") genuineEnvelope 4 symHeard)
        = none ∧
      KeepsSession symHeardCtx (after (SessionManager.decryptFrom symbolic (ascii "peer")
        genuineEnvelope 4 symHeard)) (ascii "peer") := by
  have hnone : value? (SessionManager.decryptFrom symbolic (ascii "peer") genuineEnvelope 4
      symHeard) = none := by decide +kernel
  refine ⟨hnone, ?_⟩
  cases h : SessionManager.decryptFrom symbolic (ascii "peer") genuineEnvelope 4 symHeard with
  | ok p m => rw [h] at hnone; cases hnone
  | error e m =>
      exact ((rejection_keeps_session_iff symHeard (ascii "peer") symHeard_session).1
        genuineEnvelope 4 e m h).mpr (by decide +kernel)

/-- The responder after the forged envelope. -/
def symMisled : SessionManager SymKey Nat :=
  after (SessionManager.decryptFrom symbolic (ascii "peer") forgedEnvelope 3 symResponder)

/-- The forged envelope raises and is remembered; the genuine one, which the
responder would have opened before, is a replay from then on. -/
theorem forged_envelope_stops_genuine :
    value? (SessionManager.decryptFrom symbolic (ascii "peer") forgedEnvelope 3 symResponder)
        = none ∧
      ¬ KeepsSession symResponderCtx symMisled (ascii "peer") ∧
      value? (SessionManager.encryptFor symbolic (ascii "peer") [10]
        (symLink.manager .initiator)) = some genuineEnvelope ∧
      value? (SessionManager.decryptFrom symbolic (ascii "peer") genuineEnvelope 4 symResponder)
        = some [10] ∧
      value? (SessionManager.decryptFrom symbolic (ascii "peer") genuineEnvelope 4 symMisled)
        = none := by
  refine ⟨by decide +kernel, ?_, genuineEnvelope_made, by decide +kernel, by decide +kernel⟩
  rintro ⟨reset, hget⟩
  have hseen : (Odict.get? symMisled.sessions (ascii "peer")).map (·.replayCache.seen.length)
      = some 1 := by decide +kernel
  rw [hget] at hseen
  cases hseen

end GhostChat.Proofs
