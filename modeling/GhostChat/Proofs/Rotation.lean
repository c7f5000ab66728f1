import GhostChat.Proofs.Rejected
import GhostChat.Proofs.Voice

/-!
# The ratchet of a linked session does not turn

A ratchet turns on a header key other than the remote key it has. Sessions
made by `create_symmetric_session` are given each other's public key at the
start, and a session that has not turned sends under the key it was given. So
every genuine envelope carries the key the receiver has already, no `decrypt`
of an honest run turns anything, and the private keys that `generate()` offers
are never taken.

The sending chain still moves with every message, and the root key moves
twice, by one and the same DH output. But no envelope of a session ever shows
another ratchet key than the first one, however often the two sides have
answered each other.
-/

namespace GhostChat.Proofs

open GhostChat.Lib GhostChat.Lib.Effect GhostChat.Ref

variable {K P C : Type} {c : Crypto K P C} {l : Linking K P}

/-! ## Round trips -/

/-- A call that returned: `encrypt_for` with its envelope, `decrypt_from` on
an envelope. -/
inductive Traffic (C : Type) where
  | sent (who : Party) (env : ProtocolEnvelope C)
  | got (who : Party) (env : ProtocolEnvelope C)
  deriving DecidableEq

/-- Two linked managers and their traffic, newest first. -/
structure Watched (K P C : Type) where
  link : Link K P C
  traffic : List (Traffic C) := []

/-- What an action adds to the traffic. -/
def Watched.seen (c : Crypto K P C) (l : Linking K P) (σ : Link K P C) :
    LinkAct P C → List (Traffic C)
  | .encrypt who pt =>
      ((value? (SessionManager.encryptFor c (l.peerId who) pt (σ.manager who))).map
        (Traffic.sent who)).toList
  | .decrypt who env g =>
      ((value? (SessionManager.decryptFrom c (l.peerId who) env g (σ.manager who))).map
        fun _ => Traffic.got who env).toList

def Watched.step (c : Crypto K P C) (l : Linking K P) (w : Watched K P C) (act : LinkAct P C) :
    Watched K P C where
  link := w.link.step c l act
  traffic := Watched.seen c l w.link act ++ w.traffic

/-- `who` has received an envelope that the peer sent after receiving an
earlier one of `who`. -/
def RoundTrip (who : Party) (traffic : List (Traffic C)) : Prop :=
  ∃ env env', [.got who env', .sent who.other env', .got who.other env, .sent who env].Sublist
    traffic

/-- Envelopes are the peer's, in any order and any number of times. -/
def RelaysLetters (w : Watched K P C) : LinkAct P C → Prop
  | .encrypt _ _ => True
  | .decrypt who env _ => ∃ x ∈ w.link.letters who.other, x.env = env

/-- An envelope sent after a full round trip has a ratchet key of its own. -/
def Turns (c : Crypto K P C) (l : Linking K P) (w : Watched K P C) : LinkAct P C → Prop
  | .encrypt who pt => RoundTrip who w.traffic → ∀ env,
      value? (SessionManager.encryptFor c (l.peerId who) pt (w.link.manager who)) = some env →
      ∀ env', Traffic.sent who env' ∈ w.traffic →
        env.senderRatchetKey ≠ env'.senderRatchetKey
  | .decrypt _ _ _ => True

/-- Nothing is sent after a full round trip. -/
def OneTrip (c : Crypto K P C) (l : Linking K P) (w : Watched K P C) : LinkAct P C → Prop
  | .encrypt who pt => RoundTrip who w.traffic →
      value? (SessionManager.encryptFor c (l.peerId who) pt (w.link.manager who)) = none
  | .decrypt _ _ _ => True

/-! ## One session -/

section Session

variable {ctx : SessionContext K P} {own : P} {remote : Bytes} {profile : String} {pt : Bytes}
  {env : ProtocolEnvelope C} {g : P}

/-- A ratchet with the keys it was given. -/
def Fixed (own : P) (remote : Bytes) (s : RatchetState K P) : Prop :=
  Idle s ∧ s.dhs = own ∧ s.dhr = some remote

theorem Fixed.frame {s s' : RatchetState K P} (h : Fixed own remote s) (hs : SameVoice s s') :
    Fixed own remote s' :=
  ⟨hs.idle h.1, hs.own.trans h.2.1, hs.remote.trans h.2.2⟩

theorem Fixed.decrypt (h : Fixed own remote ctx.ratchet) (henv : env.senderRatchetKey = remote)
    (g : P) :
    Fixed own remote (after (SessionContext.decryptKeyed c env g ctx)).ratchet := by
  obtain ⟨ctx₁, hratchet, hcall⟩ := decryptKeyed_guarded (c := c) ctx env g
  rcases hcall with hcall | ⟨e, hcall⟩
  · have hvoice := Ratchet.decryptKeyed_voice (c := c) (s := ctx.ratchet)
      (SessionContext.messageOf env) [] g
    have hsame : SameVoice ctx.ratchet
        (after (DoubleRatchet.decryptKeyed c (SessionContext.messageOf env) [] g ctx.ratchet)) := by
      refine hvoice.resolve_right fun hturned => hturned.new ?_
      rw [h.2.2, ← henv]
      rfl
    rw [hcall, SessionContext.onRatchet, zoom, hratchet]
    cases hrun : DoubleRatchet.decryptKeyed c (SessionContext.messageOf env) [] g
        ctx.ratchet with
    | error e s =>
        rw [hrun] at hsame
        exact h.frame hsame
    | ok x s =>
        rw [hrun] at hsame
        exact h.frame hsame
  · rw [hcall, after_error, hratchet]
    exact h

theorem Fixed.encrypt (h : Fixed own remote ctx.ratchet) (profile : String) (pt : Bytes) :
    Fixed own remote (after (SessionContext.encryptKeyed c profile pt ctx)).ratchet ∧
      ∀ env k ctx', SessionContext.encryptKeyed c profile pt ctx = .ok (env, k) ctx' →
        env.senderRatchetKey = c.publicKey own := by
  obtain ⟨hidle, hown, hremote⟩ := h
  obtain ⟨hsilent, hspoken⟩ := Ratchet.encryptKeyed_voice (c := c) hidle pt []
  simp only [SessionContext.encryptKeyed, bind_apply, SessionContext.onRatchet, zoom]
  cases henc : DoubleRatchet.encryptKeyed c pt [] ctx.ratchet with
  | error e s =>
      have hs := hsilent e s henc
      refine ⟨⟨hs.idle hidle, hs.own.trans hown, hs.remote.trans hremote⟩, ?_⟩
      intro env k ctx' hok
      cases hok
  | ok x s =>
      have hs := hspoken x.1 x.2 s henc
      refine ⟨⟨hs.idle, hs.own.trans hown, hs.remote.trans hremote⟩, ?_⟩
      intro env k ctx' hok
      cases hok
      show x.1.header.dhPub = c.publicKey own
      rw [hs.header, hown]

end Session

/-! ## Two managers -/

/-- Nobody's ratchet has turned, and every envelope shows it. -/
structure Steady (c : Crypto K P C) (l : Linking K P) (w : Watched K P C) : Prop where
  session : ∀ who, ∃ ctx, Odict.get? (w.link.manager who).sessions (l.peerId who) = some ctx ∧
    Fixed (l.dhs who) (c.publicKey (l.dhs who.other)) ctx.ratchet
  letters : ∀ who, ∀ x ∈ w.link.letters who, x.env.senderRatchetKey = c.publicKey (l.dhs who)
  traffic : ∀ who env, Traffic.sent who env ∈ w.traffic →
    env.senderRatchetKey = c.publicKey (l.dhs who)

section Steps

variable {w : Watched K P C} {who : Party} {pt : Bytes} {env : ProtocolEnvelope C} {g : P}

/-- The call of `encrypt_for` in a session that has not turned. -/
theorem Steady.encryptFor (h : Steady c l w) (who : Party) (pt : Bytes) :
    (∃ ctx, Odict.get? (after (SessionManager.encryptForKeyed c (l.peerId who) pt
        (w.link.manager who))).sessions (l.peerId who) = some ctx ∧
      Fixed (l.dhs who) (c.publicKey (l.dhs who.other)) ctx.ratchet) ∧
    ∀ env k m', SessionManager.encryptForKeyed c (l.peerId who) pt (w.link.manager who)
        = .ok (env, k) m' → env.senderRatchetKey = c.publicKey (l.dhs who) := by
  obtain ⟨ctx, hctx, hfixed⟩ := h.session who
  obtain ⟨hkept, hkey⟩ := hfixed.encrypt (c := c) (w.link.manager who).profile pt
  have hcall : SessionManager.encryptForKeyed c (l.peerId who) pt (w.link.manager who)
      = SessionManager.withCtx (l.peerId who)
          (SessionContext.encryptKeyed c (w.link.manager who).profile pt)
          (w.link.manager who) := rfl
  simp only [hcall, SessionManager.withCtx, hctx]
  cases henc : SessionContext.encryptKeyed c (w.link.manager who).profile pt ctx with
  | error e ctx' =>
      rw [henc] at hkept
      refine ⟨⟨ctx', Odict.get?_set_self _ _ _, hkept⟩, fun env k m' hok => ?_⟩
      cases hok
  | ok x ctx' =>
      rw [henc] at hkept
      refine ⟨⟨ctx', Odict.get?_set_self _ _ _, hkept⟩, fun env k m' hok => ?_⟩
      cases hok
      exact hkey env k ctx' henc

/-- The envelope of a call that returns. -/
theorem encryptFor_value {m : SessionManager K P} {peerId : Bytes}
    (h : value? (SessionManager.encryptFor c peerId pt m) = some env) :
    ∃ k m', SessionManager.encryptForKeyed c peerId pt m = .ok (env, k) m' := by
  rw [SessionManager.encryptFor, map_apply] at h
  cases hcall : SessionManager.encryptForKeyed c peerId pt m with
  | error e m' =>
      rw [hcall] at h
      cases h
  | ok x m' =>
      rw [hcall] at h
      cases h
      exact ⟨x.2, m', rfl⟩

/-- A call on one side leaves the other's session alone. -/
theorem Steady.session_update (h : Steady c l w) {m : SessionManager K P}
    (hm : ∃ ctx, Odict.get? m.sessions (l.peerId who) = some ctx ∧
      Fixed (l.dhs who) (c.publicKey (l.dhs who.other)) ctx.ratchet) (who' : Party) :
    ∃ ctx, Odict.get? (Function.update w.link.manager who m who').sessions (l.peerId who')
      = some ctx ∧ Fixed (l.dhs who') (c.publicKey (l.dhs who'.other)) ctx.ratchet := by
  by_cases hw : who' = who
  · subst hw
    simpa only [Function.update_self] using hm
  · simpa only [Function.update_of_ne hw] using h.session who'

theorem Steady.step (h : Steady c l w) {act : LinkAct P C} (hact : RelaysLetters w act) :
    Steady c l (w.step c l act) := by
  cases act with
  | encrypt who pt =>
      obtain ⟨hsession, hkey⟩ := h.encryptFor who pt
      have htraffic : ∀ who' env, Traffic.sent who' env ∈ (w.step c l (.encrypt who pt)).traffic →
          env.senderRatchetKey = c.publicKey (l.dhs who') := by
        intro who' env hmem
        rcases List.mem_append.mp hmem with hmem | hmem
        · simp only [Watched.seen, Option.mem_toList, Option.map_eq_some_iff] at hmem
          obtain ⟨env', hvalue, he⟩ := hmem
          cases he
          obtain ⟨k, m', hcall⟩ := encryptFor_value hvalue
          exact hkey env k m' hcall
        · exact h.traffic who' env hmem
      refine ⟨?_, ?_, htraffic⟩
      · simp only [Watched.step, Link.step]
        cases hcall : SessionManager.encryptForKeyed c (l.peerId who) pt
            (w.link.manager who) with
        | error e m =>
            rw [hcall] at hsession
            exact h.session_update hsession
        | ok x m =>
            rw [hcall] at hsession
            exact h.session_update hsession
      · simp only [Watched.step, Link.step]
        cases hcall : SessionManager.encryptForKeyed c (l.peerId who) pt
            (w.link.manager who) with
        | error e m => exact h.letters
        | ok x m =>
            intro who' y hy
            by_cases hw : who' = who
            · subst hw
              simp only [Function.update_self] at hy
              rcases List.mem_append.mp hy with hy | hy
              · exact h.letters who' y hy
              · rw [List.mem_singleton.mp hy]
                exact hkey x.1 x.2 m hcall
            · simp only [Function.update_of_ne hw] at hy
              exact h.letters who' y hy
  | decrypt who env g =>
      obtain ⟨x, hx, rfl⟩ := hact
      obtain ⟨ctx, hctx, hfixed⟩ := h.session who
      have hkept := hfixed.decrypt (c := c) (h.letters who.other x hx) g
      have hafter : Odict.get? (after (SessionManager.decryptFrom c (l.peerId who) x.env g
          (w.link.manager who))).sessions (l.peerId who) = _ := decryptFrom_session hctx
      refine ⟨?_, ?_, fun who' env hmem => ?_⟩
      · simp only [Watched.step, Link.step]
        cases hcall : SessionManager.decryptFrom c (l.peerId who) x.env g
            (w.link.manager who) with
        | error e m =>
            rw [hcall] at hafter
            exact h.session_update ⟨_, hafter, hkept⟩
        | ok p m =>
            rw [hcall] at hafter
            exact h.session_update ⟨_, hafter, hkept⟩
      · simp only [Watched.step, Link.step]
        cases SessionManager.decryptFrom c (l.peerId who) x.env g (w.link.manager who) with
        | error e m => exact h.letters
        | ok p m => exact h.letters
      · rcases List.mem_append.mp hmem with hmem | hmem
        · simp only [Watched.seen, Option.mem_toList, Option.map_eq_some_iff] at hmem
          obtain ⟨p, -, he⟩ := hmem
          cases he
        · exact h.traffic who' env hmem

/-- After a round trip there is an envelope to compare with. -/
theorem Steady.turns_iff (h : Steady c l w) (act : LinkAct P C) :
    Turns c l w act ↔ OneTrip c l w act := by
  cases act with
  | decrypt who env g => exact Iff.rfl
  | encrypt who pt =>
      constructor
      · intro hturns htrip
        cases hvalue : value? (SessionManager.encryptFor c (l.peerId who) pt
            (w.link.manager who)) with
        | none => rfl
        | some env =>
            obtain ⟨env₁, env₂, hsub⟩ := htrip
            have hfirst : Traffic.sent who env₁ ∈ w.traffic := hsub.subset (by simp)
            obtain ⟨k, m', hcall⟩ := encryptFor_value hvalue
            have hkey := (h.encryptFor who pt).2 env k m' hcall
            exact absurd (hkey.trans (h.traffic who env₁ hfirst).symm)
              (hturns ⟨env₁, env₂, hsub⟩ env hvalue env₁ hfirst)
      · intro hone htrip env hvalue
        rw [hone htrip] at hvalue
        cases hvalue

end Steps

theorem Steady.start {before : Party → SessionManager K P} {σ : Link K P C}
    (h : Link.Starts c l before σ) : Steady c l { link := σ } := by
  obtain ⟨hmade, hletters, -, -⟩ := h
  refine ⟨fun who => ?_, fun who x hx => ?_, nofun⟩
  · obtain ⟨d, -, hmanager⟩ := createSymmetricSession_ok (hmade who)
    simp only [hmanager]
    exact ⟨_, Odict.get?_set_self _ _ _, fun _ => rfl, rfl, rfl⟩
  · rw [hletters who] at hx
    cases hx

/-- In every honest run of two linked managers: an envelope sent after a full
round trip has a new ratchet key exactly if there is no such envelope. -/
theorem linked_turns_iff {before : Party → SessionManager K P} {σ : Link K P C}
    (hstart : Link.Starts c l before σ) {acts : List (LinkAct P C)}
    (hacts : Along (Watched.step c l) RelaysLetters { link := σ } acts) :
    Along (Watched.step c l) (Turns c l) { link := σ } acts ↔
      Along (Watched.step c l) (OneTrip c l) { link := σ } acts :=
  Along.congr (I := Steady c l) (fun _ act h _ => h.turns_iff act)
    (fun _ _ h hact _ => h.step hact) (Steady.start hstart) hacts

/-! ## The symbolic model -/

/-- A greeting, its answer, and the answer to that. -/
def symTrip : List (LinkAct Nat Box) := linkScript symbolic symLinking symLink [
  fun _ => .encrypt .initiator [10], hear .responder 3,
  fun _ => .encrypt .responder [20], hear .initiator 4,
  fun _ => .encrypt .initiator [11]]

/-- The envelopes of a side of the symbolic link, in the order they were
made. -/
def symEnvelopes (who : Party) : List (ProtocolEnvelope Box) :=
  ((runFrom (Link.step symbolic symLinking) symLink symTrip).letters who).map (·.env)

instance RelaysLetters.decidable (w : Watched SymKey Nat Box) :
    (act : LinkAct Nat Box) → Decidable (RelaysLetters w act)
  | .encrypt _ _ => isTrue trivial
  | .decrypt _ _ _ => inferInstanceAs (Decidable (∃ x ∈ _, _))

/-- Up to the answer nothing has come back to either side. -/
theorem linked_turns_greeting :
    Along (Watched.step symbolic symLinking) RelaysLetters { link := symLink }
        (symTrip.take 4) ∧
      Along (Watched.step symbolic symLinking) (Turns symbolic symLinking) { link := symLink }
        (symTrip.take 4) := by
  have hacts : Along (Watched.step symbolic symLinking) RelaysLetters { link := symLink }
      (symTrip.take 4) := by decide +kernel
  have hshort : ∀ {who : Party} {traffic : List (Traffic Box)}, traffic.length < 4 →
      ¬ RoundTrip who traffic := by
    intro who traffic hlt ⟨env, env', hsub⟩
    have hle : 4 ≤ traffic.length := hsub.length_le
    omega
  have hone : Along (Watched.step symbolic symLinking) (OneTrip symbolic symLinking)
      { link := symLink } (symTrip.take 4) := by
    refine ⟨fun htrip => ?_, trivial, fun htrip => ?_, trivial, trivial⟩
    · exact absurd htrip (hshort (by decide +kernel))
    · exact absurd htrip (hshort (by decide +kernel))
  exact ⟨hacts, (linked_turns_iff symLink_starts hacts).mpr hone⟩

/-- The answer to the answer is sent under the key of the greeting. -/
theorem linked_ratchet_stays : Link.Starts symbolic symLinking symBefore symLink ∧
    Along (Watched.step symbolic symLinking) RelaysLetters { link := symLink } symTrip ∧
      ¬ Along (Watched.step symbolic symLinking) (Turns symbolic symLinking)
        { link := symLink } symTrip := by
  refine ⟨symLink_starts, by decide +kernel, fun hall => ?_⟩
  obtain ⟨-, -, -, -, hturns, -⟩ := hall
  let greeting := (symEnvelopes .initiator).get ⟨0, by decide +kernel⟩
  let answer := (symEnvelopes .responder).get ⟨0, by decide +kernel⟩
  let reply := (symEnvelopes .initiator).get ⟨1, by decide +kernel⟩
  exact hturns ⟨greeting, answer, by decide +kernel⟩ reply (by decide +kernel) greeting
    (by decide +kernel) (by decide +kernel)

end GhostChat.Proofs
