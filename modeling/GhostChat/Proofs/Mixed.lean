import GhostChat.Proofs.Unstored

/-!
# An inbox with envelopes of several peers

`recv_text` is to decrypt the messages from one peer. It takes the peer's name
to find a session, and then every plain envelope in the inbox for that session,
whoever it is from. An envelope names its session, and nobody looks.

So another peer's envelope is lost as soon as the call gets to it, and the
session it was tried on has marked it in its replay cache and may have turned
its ratchet. The call stops short of it only where one of the peer's own
envelopes raises first.
-/

namespace GhostChat.Proofs

open GhostChat.Lib GhostChat.Lib.Effect GhostChat.Ref

variable {K P : Type} {c : Crypto K P Bytes} {peerId sessionId : Bytes}

/-- A plain envelope of another session. -/
def foreign (sessionId : Bytes) (a : Arrival P) : Bool :=
  match a.item with
  | .envelope env => decide (env.sessionId ≠ sessionId)
  | .dict _ => false

/-- The inbox as it would be without those. -/
def ownOf (sessionId : Bytes) (inbox : List (Arrival P)) : List (Arrival P) :=
  inbox.filter fun a => !foreign sessionId a

/-- `recv_text` touches only the named peer. It ends as it would without the
other peers' envelopes, by a return or by an exception, and with the same
sessions; what it returns is the plaintexts of the peer's own envelopes; the
other sessions are as they were, and the other envelopes are where they were. -/
structure OnlyPeer (c : Crypto K P Bytes) (peerId sessionId : Bytes) (e : InMemoryEndpoint K P) :
    Prop where
  alone : observed (recvText c peerId e)
    = observed (recvText c peerId { e with inbox := ownOf sessionId e.inbox })
  texts : ∀ out e', recvText c peerId e = .ok out e' →
    out.map (fun text => (peerId, utf8Encode text))
      = plaintextsOf (readings (readText c peerId) e.manager (ownOf sessionId e.inbox))
  others : ∀ q, q ≠ peerId → Odict.get? (after (recvText c peerId e)).manager.sessions q
    = Odict.get? e.manager.sessions q
  left : (after (recvText c peerId e)).inbox.filter (foreign sessionId)
    = e.inbox.filter (foreign sessionId)

/-- Whatever is in front of another peer's envelope, an envelope of the peer's
own is among it that raises when the peer's own are read alone. -/
def Shielded (c : Crypto K P Bytes) (peerId sessionId : Bytes) (m : SessionManager K P)
    (inbox : List (Arrival P)) : Prop :=
  ∀ pre a post, inbox = pre ++ a :: post → foreign sessionId a = true →
    ∃ x ∈ readings (readText c peerId) m (ownOf sessionId pre), x.raises = true

/-! ## The condition, item by item -/

section Shielded

variable {m m' : SessionManager K P} {a : Arrival P} {r : Reading} {rest : List (Arrival P)}

theorem ownOf_cons (ha : foreign sessionId a = false) (rest : List (Arrival P)) :
    ownOf sessionId (a :: rest) = a :: ownOf sessionId rest :=
  List.filter_cons_of_pos (by rw [ha]; rfl)

theorem shielded_nil : Shielded c peerId sessionId m [] := by
  intro pre a post h
  cases pre <;> cases h

theorem not_shielded (ha : foreign sessionId a = true) :
    ¬ Shielded c peerId sessionId m (a :: rest) := by
  intro h
  obtain ⟨x, hx, -⟩ := h [] a rest rfl ha
  cases hx

theorem shielded_cons (ha : foreign sessionId a = false) (hread : readText c peerId a m = (r, m')) :
    Shielded c peerId sessionId m (a :: rest) ↔
      r.raises = true ∨ Shielded c peerId sessionId m' rest := by
  constructor
  · intro h
    cases hr : r.raises with
    | true => exact Or.inl rfl
    | false =>
        refine Or.inr fun pre b post hsplit hb => ?_
        obtain ⟨x, hx, hraises⟩ := h (a :: pre) b post (by rw [hsplit]; rfl) hb
        rw [ownOf_cons ha, readings_on hread hr] at hx
        rcases List.mem_cons.mp hx with rfl | hx
        · rw [hr] at hraises
          cases hraises
        · exact ⟨x, hx, hraises⟩
  · intro h pre b post hsplit hb
    cases pre with
    | nil =>
        cases hsplit
        rw [ha] at hb
        cases hb
    | cons a' pre =>
        cases hsplit
        rw [ownOf_cons ha]
        cases hr : r.raises with
        | true =>
            rw [readings_raised hread hr]
            exact ⟨r, List.mem_singleton_self r, hr⟩
        | false =>
            rw [hr, or_iff_right Bool.false_ne_true] at h
            obtain ⟨x, hx, hraises⟩ := h pre b post rfl hb
            rw [readings_on hread hr]
            exact ⟨x, List.mem_cons_of_mem r hx, hraises⟩

end Shielded

/-! ## The loop -/

section Loop

variable {kept kept' rest : List (Arrival P)} {out : List String} {e e' : InMemoryEndpoint K P}

/-- What lies in the inbox at the end was there. -/
theorem recvTextLoop_left (h : e.inbox.Sublist (kept ++ rest)) :
    (after (recvTextLoop c peerId kept rest out e)).inbox.Sublist (kept ++ rest) := by
  induction rest generalizing kept out e with
  | nil => exact h
  | cons a rest ih =>
      obtain ⟨item, generated⟩ := a
      cases item with
      | dict fields =>
          rw [recvTextLoop, List.append_cons kept _ rest]
          rw [List.append_cons] at h
          exact ih h
      | envelope env =>
          have hpopped : (kept ++ rest).Sublist (kept ++ ⟨.envelope env, generated⟩ :: rest) :=
            (List.sublist_cons_self _ rest).append_left kept
          rcases recvTextLoop_envelope c peerId env generated e.manager with
            ⟨r, m, exn, -, -, hloop⟩ | ⟨text, m, -, hloop⟩
          · rw [hloop kept rest out e rfl]
            exact hpopped
          · rw [hloop kept rest out e rfl]
            exact (ih (List.Sublist.refl _)).trans hpopped

/-- An envelope that is looked at is not there. -/
theorem recvTextLoop_popped (env : ProtocolEnvelope Bytes) (generated : P) :
    (after (recvTextLoop c peerId kept (⟨.envelope env, generated⟩ :: rest) out e)).inbox.Sublist
      (kept ++ rest) := by
  rcases recvTextLoop_envelope c peerId env generated e.manager with
    ⟨r, m, exn, -, -, hloop⟩ | ⟨text, m, -, hloop⟩
  · rw [hloop kept rest out e rfl]
    exact List.Sublist.refl _
  · rw [hloop kept rest out e rfl]
    exact recvTextLoop_left (List.Sublist.refl _)

/-- `decrypt_from` writes the session of the peer and no other. -/
theorem decryptFrom_others {q : Bytes} (hq : q ≠ peerId) (env : ProtocolEnvelope Bytes)
    (generated : P) (m : SessionManager K P) :
    Odict.get? (after (SessionManager.decryptFrom c peerId env generated m)).sessions q
      = Odict.get? m.sessions q := by
  rw [SessionManager.decryptFrom, map_apply, SessionManager.decryptFromKeyed,
    SessionManager.withCtx]
  cases Odict.get? m.sessions peerId with
  | none => rfl
  | some ctx =>
      simp only
      cases SessionContext.decryptKeyed c env generated ctx with
      | ok r ctx' => exact Odict.get?_set_ne _ hq _
      | error exn ctx' => exact Odict.get?_set_ne _ hq _

theorem readText_others {q : Bytes} (hq : q ≠ peerId) (a : Arrival P) (m : SessionManager K P) :
    Odict.get? (readText c peerId a m).2.sessions q = Odict.get? m.sessions q := by
  obtain ⟨item, generated⟩ := a
  cases item with
  | dict fields => rfl
  | envelope env =>
      have hframe := decryptFrom_others (c := c) hq env generated m
      rw [readText]
      simp only
      cases hcall : SessionManager.decryptFrom c peerId env generated m with
      | ok plaintext m' => rwa [hcall] at hframe
      | error exn m' => rwa [hcall] at hframe

theorem recvTextLoop_others {q : Bytes} (hq : q ≠ peerId) :
    Odict.get? (after (recvTextLoop c peerId kept rest out e)).manager.sessions q
      = Odict.get? e.manager.sessions q := by
  induction rest generalizing kept out e with
  | nil => rfl
  | cons a rest ih =>
      obtain ⟨item, generated⟩ := a
      cases item with
      | dict fields => exact ih
      | envelope env =>
          have hframe := readText_others (c := c) hq ⟨.envelope env, generated⟩ e.manager
          rcases recvTextLoop_envelope c peerId env generated e.manager with
            ⟨r, m, exn, hread, -, hloop⟩ | ⟨text, m, hread, hloop⟩
          · rw [hread] at hframe
            rw [hloop kept rest out e rfl]
            exact hframe
          · rw [hread] at hframe
            rw [hloop kept rest out e rfl]
            exact ih.trans hframe

/-- The foreign envelopes are the same without one of the peer's own. -/
theorem filter_foreign_own {a : Arrival P} (ha : foreign sessionId a = false)
    (kept rest : List (Arrival P)) :
    (kept ++ a :: rest).filter (foreign sessionId) = (kept ++ rest).filter (foreign sessionId) := by
  rw [List.filter_append, List.filter_append,
    List.filter_cons_of_neg (by rw [ha]; exact Bool.false_ne_true)]

/-- With no foreign envelope reached, the loop goes as it would without any. -/
theorem recvTextLoop_shielded (h : Shielded c peerId sessionId e.manager rest)
    (hmgr : e'.manager = e.manager)
    (hinbox : e.inbox.filter (foreign sessionId) = (kept ++ rest).filter (foreign sessionId)) :
    observed (recvTextLoop c peerId kept rest out e)
        = observed (recvTextLoop c peerId kept' (ownOf sessionId rest) out e') ∧
      (after (recvTextLoop c peerId kept rest out e)).inbox.filter (foreign sessionId)
        = (kept ++ rest).filter (foreign sessionId) := by
  induction rest generalizing kept kept' out e e' with
  | nil => exact ⟨by simp only [recvTextLoop, ownOf, List.filter_nil, pure_apply, observed, hmgr],
      hinbox⟩
  | cons a rest ih =>
      cases hforeign : foreign sessionId a with
      | true => exact absurd h (not_shielded hforeign)
      | false =>
          rw [ownOf_cons hforeign, filter_foreign_own hforeign]
          obtain ⟨item, generated⟩ := a
          cases item with
          | dict fields =>
              have hread := readText_dict c peerId fields generated e.manager
              have hrest := ((shielded_cons hforeign hread).mp h).resolve_left Bool.false_ne_true
              rw [List.append_cons] at hinbox
              obtain ⟨hobserved, hleft⟩ := ih hrest hmgr hinbox
              rw [recvTextLoop, recvTextLoop]
              refine ⟨hobserved, hleft.trans ?_⟩
              rw [← List.append_cons]
              exact filter_foreign_own hforeign kept rest
          | envelope env =>
              rcases recvTextLoop_envelope c peerId env generated e.manager with
                ⟨r, m, exn, -, -, hloop⟩ | ⟨text, m, hread, hloop⟩
              · rw [hloop kept rest out e rfl, hloop kept' _ out e' hmgr]
                exact ⟨rfl, rfl⟩
              · have hrest := ((shielded_cons hforeign hread).mp h).resolve_left Bool.false_ne_true
                rw [hloop kept rest out e rfl, hloop kept' _ out e' hmgr]
                exact ih hrest rfl rfl

/-- And once one is reached, it is gone. -/
theorem recvTextLoop_met (h : ¬ Shielded c peerId sessionId e.manager rest)
    (hinbox : e.inbox.Sublist (kept ++ rest)) :
    ((after (recvTextLoop c peerId kept rest out e)).inbox.filter (foreign sessionId)).length
      < ((kept ++ rest).filter (foreign sessionId)).length := by
  induction rest generalizing kept out e with
  | nil => exact absurd shielded_nil h
  | cons a rest ih =>
      cases hforeign : foreign sessionId a with
      | true =>
          obtain ⟨item, generated⟩ := a
          cases item with
          | dict fields => cases hforeign
          | envelope env =>
              have hlost : (after (recvTextLoop c peerId kept
                  (⟨.envelope env, generated⟩ :: rest) out e)).inbox.Sublist (kept ++ rest) :=
                recvTextLoop_popped env generated
              refine lt_of_le_of_lt (hlost.filter (foreign sessionId)).length_le ?_
              rw [List.filter_append, List.filter_append, List.filter_cons_of_pos hforeign,
                List.length_append, List.length_append, List.length_cons]
              omega
      | false =>
          rw [filter_foreign_own hforeign]
          obtain ⟨item, generated⟩ := a
          cases item with
          | dict fields =>
              have hread := readText_dict c peerId fields generated e.manager
              rw [shielded_cons hforeign hread, not_or] at h
              rw [List.append_cons] at hinbox
              rw [← filter_foreign_own hforeign kept rest, List.append_cons, recvTextLoop]
              exact ih h.2 hinbox
          | envelope env =>
              rcases recvTextLoop_envelope c peerId env generated e.manager with
                ⟨r, m, exn, hread, hraises, hloop⟩ | ⟨text, m, hread, hloop⟩
              · exact absurd ((shielded_cons hforeign hread).mpr (Or.inl hraises)) h
              · rw [shielded_cons hforeign hread, not_or] at h
                rw [hloop kept rest out e rfl]
                exact ih h.2 (List.Sublist.refl _)

end Loop

/-- `recv_text` touches only the named peer exactly if every envelope of
another peer stands behind one of the peer's own that raises. -/
theorem only_peer_iff (c : Crypto K P Bytes) (peerId sessionId : Bytes)
    (e : InMemoryEndpoint K P) :
    OnlyPeer c peerId sessionId e ↔ Shielded c peerId sessionId e.manager e.inbox := by
  constructor
  · intro h
    by_contra hmet
    have hless : ((after (recvText c peerId e)).inbox.filter (foreign sessionId)).length
        < (e.inbox.filter (foreign sessionId)).length :=
      recvTextLoop_met hmet (List.Sublist.refl e.inbox)
    rw [h.left] at hless
    exact Nat.lt_irrefl _ hless
  · intro h
    let own : InMemoryEndpoint K P := { e with inbox := ownOf sessionId e.inbox }
    have hloops : observed (recvText c peerId e) = observed (recvText c peerId own) ∧
        (after (recvText c peerId e)).inbox.filter (foreign sessionId)
          = e.inbox.filter (foreign sessionId) := recvTextLoop_shielded h rfl rfl
    obtain ⟨halone, hleft⟩ := hloops
    refine ⟨halone, ?_, fun q hq => recvTextLoop_others hq, hleft⟩
    intro out e' hcall
    have haccounts : Accounts (fun text => (peerId, utf8Encode text))
        (readings (readText c peerId) e.manager (ownOf sessionId e.inbox)) []
        (recvText c peerId own) := recvTextLoop_accounts peerId []
    rw [hcall] at halone
    cases hown : recvText c peerId own with
    | error exn e'' =>
        rw [hown] at halone
        cases congrArg Prod.fst halone
    | ok out' e'' =>
        rw [hown] at halone haccounts
        cases congrArg Prod.fst halone
        obtain ⟨-, new, rfl, hnew⟩ := haccounts
        exact hnew

/-! ## Two peers -/

/-- A session under one name on both sides, with its own root key. -/
def samplePeer (name : Bytes) (who : Party) : SessionManager.Method Bytes Bytes Unit :=
  SessionManager.createSymmetricSession sampleCrypto name (mix name) (sampleKeys who)
    (mix (sampleKeys who.other)) who.isInitiator

/-- A profile with sessions to two peers. -/
def twoPeers : SessionManager Bytes Bytes :=
  let manager := after (samplePeer (ascii "bob") .responder { profile := "alice" })
  after (samplePeer (ascii "carol") .responder manager)

/-- What the peer of that name sends first, and the profile's key pair for it. -/
def firstFrom (name : Bytes) : Arrival Bytes :=
  let manager := after (samplePeer name .initiator { profile := "peer" })
  match SessionManager.encryptFor sampleCrypto name (ascii "hello") manager with
  | .ok env _ => ⟨.envelope env, [3]⟩
  | .error _ _ => ⟨.dict [], [3]⟩

/-- Reading what Bob sent loses what Carol sent. -/
theorem other_peer_lost : ¬ ∀ inbox : List (Arrival Bytes),
    OnlyPeer sampleCrypto (ascii "bob") (ascii "bob") { manager := twoPeers, inbox := inbox } := by
  intro h
  have hleft := (h [firstFrom (ascii "carol"), firstFrom (ascii "bob")]).left
  exact absurd (congrArg List.length hleft) (by decide +kernel)

end GhostChat.Proofs
