import GhostChat.Proofs.Leaked
import GhostChat.Proofs.Linked

/-!
# A linked session does not recover

The sessions `create_symmetric_session` makes have the same key schedule as
the client's, and a leak has another end. Neither side of a conversation ever
generates a key (`Linked.lean`), so the one DH output the session was set up
with is the only one that is ever folded in, and the private key in memory
gives it.

So whoever reads one side's memory once reads the rest of the session, of both
directions, however long it goes on; what was sent before, or received, stays
closed to him, whatever else he knows (`linked_leak_iff`). The line between
the two is where the two chains stand.

A replay cache is full after 1024 envelopes, and from then on everything that
arrives is refused. The receiving chain stands still there, while the sending
chain goes on: a session is two counters for as long as it is used, and the one
of what was received is the number of envelopes it has accepted.
-/

namespace GhostChat.Proofs

open GhostChat.Lib GhostChat.Lib.Effect GhostChat.Ref

variable {P C : Type} {c : Crypto SymKey P C} {l : Linking SymKey P} {d : SymKey}

/-- The secrets of a session's ratchet, the DH private key apart. -/
def heldByRatchet (s : RatchetState SymKey P) : Set SymKey :=
  { t | t = s.rootKey ∨ s.ckS = some t ∨ s.ckR = some t ∨
    ∃ e ∈ s.skippedKeys.store, e.2 = t }

/-! ## Which key a letter is sealed under -/

theorem session_encrypt_key (hlen : ∀ i s f b, (c.bytes (c.hkdf i s f b)).length = 32)
    (hd : ∀ who, dhWith c (some (l.dhs who)) (c.publicKey (l.dhs who.other)) = .ok d)
    {who : Party} {s r : Nat} {profile : String} {pt : Bytes} {x : ProtocolEnvelope C × SymKey}
    {ctx : SessionContext SymKey P}
    (h : SessionContext.encryptKeyed c profile pt (sessionAt c l d who s r) = .ok x ctx) :
    x.2 = letterKey c l d who s := by
  obtain ⟨⟨em, mk⟩, ctx₁, h₁, h⟩ := bind_ok h
  rw [SessionContext.onRatchet, zoom] at h₁
  cases henc : DoubleRatchet.encryptKeyed c pt [] (sessionAt c l d who s r).ratchet with
  | error e st => rw [henc] at h₁; cases h₁
  | ok y st =>
      obtain ⟨ct, -, rfl, -⟩ := encrypt_at hlen hd henc
      rw [henc] at h₁
      cases h₁
      cases h
      rfl

/-- A mark for a reset stops nobody from sending. -/
theorem encryptKeyed_marked {reset : SessionResetState} {profile : String} {pt : Bytes}
    {x : ProtocolEnvelope C × SymKey} {ctx ctx₁ : SessionContext SymKey P}
    (h : SessionContext.encryptKeyed c profile pt { ctx with resetState := reset } = .ok x ctx₁) :
    ∃ ctx', SessionContext.encryptKeyed c profile pt ctx = .ok x ctx' ∧
      ctx₁ = { ctx' with resetState := reset } := by
  obtain ⟨⟨em, mk⟩, ctx₂, h₂, h⟩ := bind_ok h
  rw [SessionContext.onRatchet, zoom] at h₂
  cases henc : DoubleRatchet.encryptKeyed c pt [] ctx.ratchet with
  | error e st => simp only [henc] at h₂; cases h₂
  | ok y st =>
      simp only [henc] at h₂
      cases h₂
      cases h
      refine ⟨{ ctx with ratchet := st }, ?_, rfl⟩
      simp only [SessionContext.encryptKeyed, bind_apply, SessionContext.onRatchet, zoom, henc]
      rfl

/-- A full cache refuses everything. -/
theorem cacheAt_full {sid pub : Bytes} (r : Nat) (hr : 1024 ≤ r) (env : ProtocolEnvelope C) :
    (cacheAt sid pub r).refuses env = true := by
  rw [SessionReplayCache.refuses, cacheAt_length, cacheAt_maxEntries, decide_eq_true hr]
  simp

/-- The sessions are in step with what was sent and accepted, and every letter
was sealed under its own key. -/
structure KeyedLetters (c : Crypto SymKey P C) (l : Linking SymKey P) (d : SymKey)
    (σ : Link SymKey P C) : Prop where
  session : ∀ who, ∃ reset, (σ.asked who ≤ 1024 → reset = {}) ∧
    Odict.get? (σ.manager who).sessions (l.peerId who) = some { sessionAt c l d who
      (σ.letters who).length (σ.opened who).length with resetState := reset }
  opened : ∀ who, (σ.opened who).length = min (σ.asked who) 1024
  letters : ∀ {who n x}, (σ.letters who)[n]? = some x →
    LetterAt c l d who n x ∧ x.key = letterKey c l d who n

section Step

variable (hlen : ∀ i s f b, (c.bytes (c.hkdf i s f b)).length = 32)
  (hd : ∀ who, dhWith c (some (l.dhs who)) (c.publicKey (l.dhs who.other)) = .ok d)
  {σ : Link SymKey P C}

theorem KeyedLetters.start {before : Party → SessionManager SymKey P}
    (hstart : Link.Starts c l before σ) (h : InStep c l d σ) : KeyedLetters c l d σ := by
  obtain ⟨-, hletters, hasked, hopened⟩ := hstart
  refine ⟨fun who => ⟨{}, fun _ => rfl, ?_⟩, fun who => ?_, fun {who n x} hx => ?_⟩
  · rw [h.session, hopened, hasked]
    rfl
  · rw [hopened, hasked]
    rfl
  · rw [hletters] at hx
    cases hx

include hlen hd in
theorem KeyedLetters.encrypt (h : KeyedLetters c l d σ) {who : Party} {pt : Bytes}
    (hturn : InTurn c l σ (.encrypt who pt)) : KeyedLetters c l d (σ.step c l (.encrypt who pt)) := by
  have hcall : SessionManager.encryptForKeyed c (l.peerId who) pt (σ.manager who)
      = SessionManager.withCtx (l.peerId who)
          (SessionContext.encryptKeyed c (σ.manager who).profile pt) (σ.manager who) := rfl
  obtain ⟨reset, hreset, hsession⟩ := h.session who
  simp only [InTurn, SessionManager.encryptFor, map_apply] at hturn
  rw [Link.step]
  rw [hcall, SessionManager.withCtx, hsession] at hturn ⊢
  cases henc : SessionContext.encryptKeyed c (σ.manager who).profile pt { sessionAt c l d who
      (σ.letters who).length (σ.opened who).length with resetState := reset } with
  | error e ctx => simp [henc] at hturn
  | ok x ctx =>
      obtain ⟨ctx', henc', rfl⟩ := encryptKeyed_marked henc
      have hkey := session_encrypt_key hlen hd henc'
      obtain ⟨hletter, rfl⟩ := session_encrypt hlen hd henc'
      simp only [henc]
      refine ⟨fun who' => ?_, h.opened, fun {who' n y} hy => ?_⟩
      · by_cases hw : who' = who
        · subst hw
          refine ⟨reset, hreset, ?_⟩
          simp only [Function.update_self, List.length_append, List.length_singleton,
            Odict.get?_set_self]
        · simp only [Function.update_of_ne hw]
          exact h.session who'
      · by_cases hw : who' = who
        · subst hw
          simp only [Function.update_self] at hy
          rcases getElem?_concat_cases hy with hy | ⟨rfl, rfl⟩
          · exact h.letters hy
          · exact ⟨hletter, hkey⟩
        · simp only [Function.update_of_ne hw] at hy
          exact h.letters hy

include hlen hd in
/-- A delivery in turn is accepted while there is room for it, and refused
from then on. -/
theorem KeyedLetters.delivered (hinv : AeadInverse c) (h : KeyedLetters c l d σ) {who : Party}
    {env : ProtocolEnvelope C} {g : P} (hturn : InTurn c l σ (.decrypt who env g)) :
    (σ.asked who < 1024 ∧ ∃ pt, SessionManager.decryptFrom c (l.peerId who) env g (σ.manager who)
      = .ok pt { σ.manager who with
          sessions := Odict.set (σ.manager who).sessions (l.peerId who)
            (sessionAt c l d who (σ.letters who).length (σ.asked who + 1)) }) ∨
    1024 ≤ σ.asked who ∧ ∃ e, SessionManager.decryptFrom c (l.peerId who) env g (σ.manager who)
      = .error e { σ.manager who with
          sessions := Odict.set (σ.manager who).sessions (l.peerId who)
            { sessionAt c l d who (σ.letters who).length (σ.opened who).length with
              resetState := ⟨true, some "replay-detected"⟩ } } := by
  obtain ⟨x, hx, rfl⟩ := Option.map_eq_some_iff.mp hturn
  obtain ⟨reset, hreset, hsession⟩ := h.session who
  have hcount := h.opened who
  by_cases hroom : σ.asked who < 1024
  · have hasked : (σ.opened who).length = σ.asked who := by omega
    rw [hreset (by omega), hasked] at hsession
    have hsession : Odict.get? (σ.manager who).sessions (l.peerId who)
        = some (sessionAt c l d who (σ.letters who).length (σ.asked who)) := hsession
    have hcall := session_decrypt hlen hd hinv (h.letters hx).1 (s := (σ.letters who).length) g
    rw [if_pos hroom] at hcall
    refine Or.inl ⟨hroom, x.plaintext, ?_⟩
    simp only [SessionManager.decryptFrom, map_apply, SessionManager.decryptFromKeyed,
      SessionManager.withCtx, hsession, hcall]
  · refine Or.inr ⟨by omega, .valueError "replayed or stale envelope", ?_⟩
    have hfull : SessionReplayCache.refuses (sessionAt c l d who (σ.letters who).length
        (σ.opened who).length).replayCache x.env = true := cacheAt_full _ (by omega) _
    have hguard : SessionContext.guard x.env "replayed or stale envelope"
        { sessionAt c l d who (σ.letters who).length (σ.opened who).length with
          resetState := reset } = _ := guard_refused hfull
    simp only [SessionManager.decryptFrom, map_apply, SessionManager.decryptFromKeyed,
      SessionManager.withCtx, hsession, SessionContext.decryptKeyed, bind_apply, hguard]

include hlen hd in
theorem KeyedLetters.step (hinv : AeadInverse c) (h : KeyedLetters c l d σ) {act : LinkAct P C}
    (hturn : InTurn c l σ act) : KeyedLetters c l d (σ.step c l act) := by
  cases act with
  | encrypt who pt => exact h.encrypt hlen hd hturn
  | decrypt who env g =>
      have hcount := h.opened who
      rcases h.delivered hlen hd hinv hturn with ⟨hroom, pt, hcall⟩ | ⟨hfull, e, hcall⟩
      · simp only [Link.step, hcall]
        refine ⟨fun who' => ?_, fun who' => ?_, fun hy => h.letters hy⟩
        · by_cases hw : who' = who
          · subst hw
            refine ⟨{}, fun _ => rfl, ?_⟩
            have hasked : (σ.opened who').length = σ.asked who' := by omega
            simp only [Function.update_self, Odict.get?_set_self, List.length_cons, hasked]
            rfl
          · simp only [Function.update_of_ne hw]
            exact h.session who'
        · by_cases hw : who' = who
          · subst hw
            simp only [Function.update_self, List.length_cons]
            omega
          · simp only [Function.update_of_ne hw]
            exact h.opened who'
      · simp only [Link.step, hcall]
        refine ⟨fun who' => ?_, fun who' => ?_, fun hy => h.letters hy⟩
        · by_cases hw : who' = who
          · subst hw
            refine ⟨⟨true, some "replay-detected"⟩, fun hle => ?_, ?_⟩
            · simp only [Function.update_self] at hle
              omega
            · simp only [Function.update_self, Odict.get?_set_self]
          · simp only [Function.update_of_ne hw]
            exact h.session who'
        · by_cases hw : who' = who
          · subst hw
            simp only [Function.update_self]
            omega
          · simp only [Function.update_of_ne hw]
            exact h.opened who'

end Step

/-! ## What the memory opens -/

/-- How many messages of `sender`'s chain the session of `who` has gone
through. -/
def passed (who sender : Party) (s r : Nat) : Nat := if sender = who then s else r

section Memory

variable {who sender : Party} {s r n : Nat}

theorem held_at {t : SymKey} (hc : c.toKeyAlg = symKeys) (hrk : l.rootKey = symRoot)
    (ht : t ∈ heldByRatchet (ratchetAt c l d who s r)) :
    t = rootAfter symKeys symRoot (rootPath d who s r) ∨
      ∃ sender, t = chainKey symKeys symRoot (sendPath d sender) (passed who sender s r) := by
  have hchain : ∀ x m, linkChain c l d x m = some t →
      t = chainKey symKeys symRoot (sendPath d x) m := by
    intro x m hx
    rw [linkChain] at hx
    split at hx
    · cases hx
    · injection hx with hx
      rw [← hx, hc, hrk]
  rcases ht with rfl | hs | hr | ⟨e, he, -⟩
  · exact Or.inl (by rw [← hc, ← hrk]; rfl)
  · exact Or.inr ⟨who, by rw [passed, if_pos rfl]; exact hchain who s hs⟩
  · refine Or.inr ⟨who.other, ?_⟩
    rw [passed, if_neg (by cases who <;> decide)]
    exact hchain who.other r hr
  · cases he

theorem sendPath_inj {x y : Party} (h : sendPath d x = sendPath d y) : x = y := by
  cases x <;> cases y
  · rfl
  · cases h
  · cases h
  · rfl

theorem rootPath_ne_nil (who : Party) (s r : Nat) : rootPath d who s r ≠ [] := by
  cases who <;> simp only [rootPath] <;> split <;> exact List.cons_ne_nil _ _

/-- A chain that has been used is one of the chains of the current root. -/
theorem sendPath_suffix (h : 0 < passed who sender s r) :
    sendPath d sender <:+ rootPath d who s r := by
  have hone : ∀ m : Nat, [d] <:+ if m = 0 then [d] else [d, d] := by
    intro m
    split
    · exact List.suffix_refl _
    · exact List.suffix_cons _ _
  cases who with
  | initiator =>
      cases sender with
      | initiator => exact hone r
      | responder =>
          rw [rootPath, if_neg (show ¬ r = 0 from Nat.pos_iff_ne_zero.mp h)]
          exact List.suffix_refl _
  | responder =>
      cases sender with
      | initiator => exact hone s
      | responder =>
          rw [rootPath, if_neg (show ¬ s = 0 from Nat.pos_iff_ne_zero.mp h)]
          exact List.suffix_refl _

/-- A letter the session is past was sealed under a key it has left behind. -/
theorem letterKey_leftBehind (hc : c.toKeyAlg = symKeys) (hrk : l.rootKey = symRoot)
    (hn : n < passed who sender s r) :
    LeftBehind (rootPath d who s r) (heldByRatchet (ratchetAt c l d who s r))
      (letterKey c l d sender n) := by
  rw [letterKey, hc, hrk]
  refine .message (sendPath_suffix (by omega)) (fun k hk => ?_) fun hmem => ?_
  · rcases held_at hc hrk hk with he | ⟨x, he⟩
    · exact absurd he.symm (rootAfter_ne_chainKey _ _ _)
    · obtain ⟨hpath, rfl⟩ := symbolic_good.chainKey_inj he
      rw [← sendPath_inj hpath]
      exact hn
  · rcases held_at hc hrk hmem with he | ⟨x, he⟩
    · exact rootAfter_ne_msgKey _ _ _ he.symm
    · exact chainKey_ne_msgKey _ _ _ _ he.symm

/-- Any later position of a chain is computed from an earlier one. -/
theorem derivable_along {S : Set SymKey} {path : List SymKey} {j : Nat}
    (h : Term.Derivable S (chainKey symKeys symRoot path j)) (hn : j ≤ n) :
    Term.Derivable S (msgKey symKeys symRoot path n) := by
  have hchain : Term.Derivable S (chainKey symKeys symRoot path n) := by
    induction n, hn using Nat.le_induction with
    | base => exact h
    | succ n _ ih =>
        rw [chainKey_succ]
        exact .kdf _ _ ih (.lit _)
  exact .kdf _ _ hchain (.lit _)

/-- A letter still to come is sealed under a key that follows from what is
held and the DH output. -/
theorem letterKey_derivable (hc : c.toKeyAlg = symKeys) (hrk : l.rootKey = symRoot)
    {S : Set SymKey} (hS : heldByRatchet (ratchetAt c l d who s r) ⊆ S) (hd : d ∈ S)
    (hn : passed who sender s r ≤ n) : Term.Derivable S (letterKey c l d sender n) := by
  rw [letterKey, hc, hrk]
  by_cases hopen : sender = .responder ∧ passed who sender s r = 0
  · -- The chain is opened by the first letter, from the root of the setup.
    obtain ⟨rfl, hzero⟩ := hopen
    have hroot : rootPath d who s r = [d] := by
      cases who with
      | initiator => exact if_pos hzero
      | responder => exact if_pos hzero
    have hheld : Term.Derivable S (rootAfter symKeys symRoot [d]) := by
      refine .known (hS (Or.inl ?_))
      rw [ratchetAt, hc, hrk, hroot]
    refine derivable_along (j := 0) ?_ (Nat.zero_le n)
    rw [show chainKey symKeys symRoot (sendPath d .responder) 0
      = chainHead symKeys symRoot [d, d] from rfl, chainHead_cons]
    exact .kdf _ _ (.known hd) hheld
  · have hck : linkChain c l d sender (passed who sender s r)
        = some (chainKey symKeys symRoot (sendPath d sender) (passed who sender s r)) := by
      rw [linkChain, if_neg hopen, hc, hrk]
    refine derivable_along (.known (hS ?_)) hn
    by_cases hw : sender = who
    · subst hw
      rw [passed, if_pos rfl] at hck ⊢
      exact Or.inr (Or.inl hck)
    · have hother : sender = who.other := by
        cases sender <;> cases who <;> first | rfl | exact absurd rfl hw
      subst hother
      rw [passed, if_neg hw] at hck ⊢
      exact Or.inr (Or.inr (Or.inl hck))

end Memory

/-- In every conversation of two linked managers, cut at any point and of any
length: whoever has read the memory of one side's session there, and can compute the DH output
of its private key, computes the key of a letter exactly if the session was
not past that letter yet, whichever side sends it and however late in the
conversation. Knowing every DH output there is would give him no more. -/
theorem linked_leak_iff (hc : FreeTerms c) (hdh : GoodDh c) (hinv : AeadInverse c)
    (hrk : l.rootKey = symRoot) {before : Party → SessionManager SymKey P}
    {σ : Link SymKey P C} (hstart : Link.Starts c l before σ) {acts later : List (LinkAct P C)}
    (hturn : Along (Link.step c l) (InTurn c l) σ (acts ++ later))
    {who sender : Party} {ctx : SessionContext SymKey P}
    (hctx : Odict.get? ((runFrom (Link.step c l) σ acts).manager who).sessions (l.peerId who)
      = some ctx)
    {known : Set (Bytes × Bytes)}
    (hknown : ∀ d, c.sharedKey (l.dhs who) (c.publicKey (l.dhs who.other)) = some d →
      d ∈ dhOutputs known)
    {n : Nat} {x : Letter SymKey C}
    (hx : ((runFrom (Link.step c l) (runFrom (Link.step c l) σ acts) later).letters sender)[n]?
      = some x) :
    Term.Derivable (heldByRatchet ctx.ratchet ∪ dhOutputs known) x.key ↔
      passed who sender ((runFrom (Link.step c l) σ acts).letters who).length
        ((runFrom (Link.step c l) σ acts).opened who).length ≤ n := by
  have hlen : ∀ i s f b, (c.bytes (c.hkdf i s f b)).length = 32 := by
    rw [hc.keys]
    exact symKeys_injective.hkdf_length
  obtain ⟨d, hd, h₀⟩ := InStep.start hdh hstart
  obtain ⟨hfirst, hrest⟩ := hturn.split
  have hmid := hfirst.invariant (fun σ act h hp => h.step hlen hd hinv hp)
    (KeyedLetters.start hstart h₀)
  have hend := hrest.invariant (fun σ act h hp => h.step hlen hd hinv hp) hmid
  rw [(hend.letters hx).2]
  have hratchet : ctx.ratchet = ratchetAt c l d who
      ((runFrom (Link.step c l) σ acts).letters who).length
      ((runFrom (Link.step c l) σ acts).opened who).length := by
    obtain ⟨reset, -, hsession⟩ := hmid.session who
    rw [hsession] at hctx
    injection hctx with hctx
    exact hctx ▸ rfl
  rw [hratchet]
  constructor
  · intro hder
    by_contra hpast
    have hbehind := letterKey_leftBehind (c := c) (l := l) (d := d) hc.keys hrk
      (Nat.lt_of_not_le hpast)
    refine hbehind.not_derivable (rootPath_ne_nil _ _ _) (fun path hpath => ?_)
      (fun u hu => ?_) known hder
    · rcases held_at hc.keys hrk hpath with he | ⟨y, he⟩
      · exact symbolic_good.rootAfter_inj he
      · exact absurd he (rootAfter_ne_chainKey _ _ _)
    · rcases held_at hc.keys hrk hu with rfl | ⟨y, rfl⟩
      · exact rootAfter_derived _
      · exact chainKey_derived _ _
  · intro hpassed
    obtain ⟨p, hp, hsh⟩ := dhWith_ok (hd who)
    injection hp with hp
    subst hp
    exact letterKey_derivable hc.keys hrk (fun t ht => Or.inl ht)
      (Or.inr (hknown d hsh)) hpassed

/-- The DH output of the symbolic pair. -/
def symLinkDh : SymKey := .atom (.shared (unordered (symPublicKey 1) (symPublicKey 2)))

/-- The responder's memory after the first exchange opens the initiator's
second message, sent but not yet delivered, and not the first. -/
theorem linked_leak_iff_symTalk :
    Term.Derivable (heldByRatchet (ratchetAt symbolic symLinking symLinkDh .responder 1 1)
      ∪ dhOutputs Set.univ) (letterKey symbolic symLinking symLinkDh .initiator 1) ∧
    ¬ Term.Derivable (heldByRatchet (ratchetAt symbolic symLinking symLinkDh .responder 1 1)
      ∪ dhOutputs Set.univ) (letterKey symbolic symLinking symLinkDh .initiator 0) := by
  have hleak : ∀ {n x}, ((runFrom (Link.step symbolic symLinking) (runFrom (Link.step symbolic
      symLinking) symLink (symTalk.take 4)) (symTalk.drop 4)).letters .initiator)[n]? = some x →
      (Term.Derivable (heldByRatchet
          (sessionAt symbolic symLinking symLinkDh .responder 1 1).ratchet
            ∪ dhOutputs Set.univ) x.key ↔
        passed .responder .initiator ((runFrom (Link.step symbolic symLinking) symLink
          (symTalk.take 4)).letters .responder).length ((runFrom (Link.step symbolic symLinking)
            symLink (symTalk.take 4)).opened .responder).length ≤ n) :=
    linked_leak_iff symbolic_freeTerms symbolic_goodDh symbolic_inverse rfl symLink_starts
      (by decide +kernel) (by decide +kernel)
      (fun d hd => ⟨_, Set.mem_univ _, symbolic_shared hd⟩)
  have hkeys : ∀ n < 2, (((runFrom (Link.step symbolic symLinking) (runFrom (Link.step symbolic
      symLinking) symLink (symTalk.take 4)) (symTalk.drop 4)).letters .initiator)[n]?).map (·.key)
        = some (letterKey symbolic symLinking symLinkDh .initiator n) := by decide +kernel
  obtain ⟨x₀, hx₀, hk₀⟩ := Option.map_eq_some_iff.mp (hkeys 0 (by decide))
  obtain ⟨x₁, hx₁, hk₁⟩ := Option.map_eq_some_iff.mp (hkeys 1 (by decide))
  rw [← hk₀, ← hk₁]
  exact ⟨(hleak hx₁).mpr (by decide +kernel),
    fun h => absurd ((hleak hx₀).mp h) (by decide +kernel)⟩

end GhostChat.Proofs
