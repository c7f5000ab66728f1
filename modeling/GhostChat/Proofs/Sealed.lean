import GhostChat.Proofs.Linked
import GhostChat.Proofs.SealedFormat
import GhostChat.Proofs.Wire
import GhostChat.Ref.Sample

/-!
# Sealed conversations

Sealing and unsealing derive their key from the root key each side has at
that moment. The root keys of two linked sessions agree at the start. They
part when the responder sends its first message, because that message opens
the responder's chain and moves its root on, and the initiator would have to
receive the message to follow, which it cannot unseal with the root it has.

Until then everything works, in the one direction there is: the envelope
survives its encoding, the package survives sealing, and the sessions stay in
step. `sealed_until_answered` is that, over every run.
-/

namespace GhostChat.Proofs

open GhostChat.Lib GhostChat.Lib.Effect GhostChat.Ref

variable {K P : Type} {c : Crypto K P Bytes} {l : Linking K P} {d : K}

/-! ## The outer envelope survives its encoding -/

theorem fromDict_toDict {loc : String} {ttl : Int} {payload : Bytes} (hloc : isBlank loc = false)
    (httl : 0 ≤ ttl) (hlong : 28 ≤ payload.length) :
    SealedOuterEnvelope.fromDict (SealedOuterEnvelope.toDict ⟨1, loc, ttl, payload, []⟩)
      = .ok ⟨1, loc, ttl, payload, []⟩ := by
  have hne : payload ≠ [] := by
    rintro rfl
    cases hlong
  have hsp := b64Encode_ne_empty hne
  have hdec : b64uDecode (.str (b64Encode payload)) = .ok payload := by
    rw [b64uDecode, b64Decode_b64Encode]
  have hshort : ¬ payload.length < nonceSize + 16 := by
    rw [nonceSize]
    omega
  have hneg : ¬ ttl < 0 := by omega
  simp [SealedOuterEnvelope.toDict, SealedOuterEnvelope.fromDict, intField, Json.get, Odict.get?,
    Json.toInt, sealedSenderVersion, hloc, hneg, hsp, hdec, hshort, Json.truthy]

theorem utf8Encode_ne_nil {s : String} (h : s ≠ "") : utf8Encode s ≠ [] := by
  intro hnil
  rw [utf8Encode, List.flatMap_eq_nil_iff] at hnil
  refine h (String.toList_inj.mp ?_)
  cases hs : s.toList with
  | nil => rfl
  | cons ch rest =>
      rw [hs] at hnil
      exact absurd (hnil ch List.mem_cons_self) String.utf8EncodeChar_ne_nil

/-! ## Sealing and unsealing -/

/-- The tag: a ciphertext is sixteen bytes longer than its plaintext. -/
def AeadTagged (c : Crypto K P Bytes) : Prop :=
  ∀ key nonce data ad ct, c.encrypt key nonce data ad = some ct → ct.length = data.length + 16

theorem unseal_sealed (hinv : AeadInverse c) (htag : AeadTagged c) {inner : InnerSenderPackage}
    {key : K} {nonce payload : Bytes} {n : Nat} (hkey : (c.bytes key).length = 32)
    (hnonce : nonce.length = 12) (h : sealInner c inner key nonce = .ok payload)
    (hpn : inner.pn = 0) (hn : inner.n = n) (hn' : n < 2 ^ 32) (hsender : inner.senderId ≠ [])
    (hsession : inner.sessionId ≠ []) (hdh : inner.dhPub ≠ []) :
    unsealInner c payload key = .ok inner ∧ 28 ≤ payload.length := by
  obtain ⟨data, hdata, h⟩ := except_bind_ok h
  obtain ⟨ct, hct, h⟩ := except_bind_ok h
  cases h
  rw [chachaEncrypt, if_neg (not_not.mpr hkey), if_neg (not_not.mpr hnonce)] at hct
  cases henc : c.encrypt key nonce data [] with
  | none => rw [henc] at hct; cases hct
  | some ct' =>
      rw [henc] at hct
      cases hct
      have hlong : 28 ≤ (nonce ++ ct).length := by
        rw [List.length_append, hnonce, htag _ _ _ _ _ henc]
        omega
      have hdec : chachaDecrypt c key nonce ct [] = .ok data := by
        rw [chachaDecrypt, if_neg (not_not.mpr hkey), if_neg (not_not.mpr hnonce),
          hinv _ _ _ _ _ henc]
      have hparse : parseInner data = .ok inner :=
        parseInner_iff.mpr ⟨⟨hsender, hsession, hdh⟩, by omega, by omega, hdata⟩
      refine ⟨?_, hlong⟩
      have hshort : ¬ (nonce ++ ct).length < 12 + 16 := by omega
      simp only [unsealInner, nonceSize, hshort, if_false, List.take_left' hnonce,
        List.drop_left' hnonce, hdec, except_ok_bind, hparse]

/-- The sealing key of a session whose root has taken in the outputs of
`path`. -/
def sealKey (c : Crypto K P Bytes) (l : Linking K P) (path : List K) : K :=
  deriveSealingKey c.toKeyAlg (rootAfter c.toKeyAlg l.rootKey path)

/-- A posted envelope: number `n` of its sender, readable under `key`. -/
structure PostedAt (c : Crypto K P Bytes) (l : Linking K P) (d : K) (who : Party) (n : Nat)
    (key : K) (x : Bytes × Json) (payload : Bytes) (inner : InnerSenderPackage) : Prop where
  outer : ∃ env, SealedOuterEnvelope.fromDict x.2 = .ok env ∧ env.sealedPayload = payload
  unsealed : unsealInner c payload key = .ok inner
  header : HeaderAt c l who n (SessionContext.syntheticEnvelope inner)
  sealed : c.encrypt (letterKey c l d who n)
    (messageNonce c.toKeyAlg (letterKey c l d who n) n) x.1 [] = some inner.ciphertext

section Session

variable (hlen : ∀ i s f b, (c.bytes (c.hkdf i s f b)).length = 32)
  (hd : ∀ who, dhWith c (some (l.dhs who)) (c.publicKey (l.dhs who.other)) = .ok d)
  (hpub : ∀ p, (c.publicKey p).length = 32) (hinv : AeadInverse c) (htag : AeadTagged c)

include hlen hd hpub hinv htag in
/-- A call of `encrypt_sealed` that returns. -/
theorem session_post {who : Party} {s r : Nat} {profile loc : String} {pt nonce : Bytes}
    {ttl : Int} {outer : Json} {ctx : SessionContext K P} (hprofile : utf8Encode profile ≠ [])
    (hpeer : l.peerId who ≠ []) (hloc : isBlank loc = false) (httl : 0 ≤ ttl)
    (hnonce : nonce.length = 12) (hs : s < 2 ^ 32)
    (h : SessionContext.encryptSealed c profile pt loc ttl nonce (sessionAt c l d who s r)
      = .ok outer ctx) :
    ctx = sessionAt c l d who (s + 1) r ∧ ∃ payload inner,
      PostedAt c l d who s (sealKey c l (rootPath d who (s + 1) r)) (pt, outer) payload inner := by
  obtain ⟨em, ctx₁, h₁, h⟩ := bind_ok h
  rw [SessionContext.onRatchet, zoom, DoubleRatchet.encrypt, map_apply] at h₁
  cases henc : DoubleRatchet.encryptKeyed c pt [] (sessionAt c l d who s r).ratchet with
  | error e st => rw [henc] at h₁; cases h₁
  | ok y st =>
      obtain ⟨ct, hct, rfl, rfl⟩ := encrypt_at hlen hd henc
      rw [henc] at h₁
      cases h₁
      obtain ⟨ctx₂, s₂, h₂, h⟩ := bind_ok h
      cases h₂
      obtain ⟨payload, s₃, h₃, h⟩ := bind_ok h
      obtain ⟨hseal, rfl⟩ := ok_of_lift_ok h₃
      cases h
      have hdh : c.publicKey (l.dhs who) ≠ [] := by
        intro hnil
        have := hpub (l.dhs who)
        rw [hnil] at this
        cases this
      obtain ⟨hunseal, hlong⟩ := unseal_sealed hinv htag (hlen _ _ _ _) hnonce hseal rfl rfl hs
        hprofile hpeer hdh
      exact ⟨rfl, payload, _, ⟨⟨_, fromDict_toDict hloc httl hlong, rfl⟩, hunseal,
        ⟨rfl, rfl, rfl, rfl⟩, hct⟩⟩

include hlen hd hinv in
/-- The next package is opened. -/
theorem session_fetch {who : Party} {s r : Nat} {key : K} {x : Bytes × Json} {payload : Bytes}
    {inner : InnerSenderPackage} (hx : PostedAt c l d who.other r key x payload inner)
    (hr : r < 1024) (g : P) :
    SessionContext.decryptInner c inner g (sessionAt c l d who s r)
      = .ok x.1 (sessionAt c l d who s (r + 1)) := by
  have hdec : DoubleRatchet.decryptKeyed c
      (SessionContext.messageOf (SessionContext.syntheticEnvelope inner)) [] g
      (ratchetAt c l d who s r) = .ok (x.1, letterKey c l d who.other r)
        (ratchetAt c l d who s (r + 1)) :=
    decrypt_at hlen hd hx.header.pub hx.header.number (hinv _ _ _ _ _ hx.sealed)
  rw [SessionContext.decryptInner, bind_apply, session_guard hx.header hr]
  simp only [SessionContext.onRatchet, zoom, DoubleRatchet.decrypt, map_apply, hdec]
  rfl

end Session

/-! ## Conversations -/

/-- Two managers with nothing but the session with each other. -/
def SealedLink.Starts (c : Crypto K P Bytes) (l : Linking K P) (profile : Party → String)
    (σ : SealedLink K P) : Prop :=
  (∀ who, SessionManager.createSymmetricSession c (l.peerId who) l.rootKey (l.dhs who)
    (c.publicKey (l.dhs who.other)) who.isInitiator { profile := profile who }
      = .ok () (σ.manager who)) ∧
  (∀ who, σ.posted who = []) ∧ ∀ who, σ.fetched who = 0

/-- The calls of a sealed conversation: `encrypt_sealed` calls that return, at
most 1000 of them, with a locator and a lifetime the outer envelope may have
and a nonce from `os.urandom(12)`; and the peer's envelopes, each once and in
order. -/
def SealedTurn (c : Crypto K P Bytes) (l : Linking K P) (σ : SealedLink K P) :
    SealedAct P → Prop
  | .post who pt loc ttl nonce =>
      (value? (SessionManager.encryptSealed c (l.peerId who) pt loc ttl nonce
        (σ.manager who))).isSome ∧
      isBlank loc = false ∧ 0 ≤ ttl ∧ nonce.length = 12 ∧
      (σ.posted .initiator).length + (σ.posted .responder).length < 1000
  | .fetch who outer _ => ((σ.posted who.other)[σ.fetched who]?).map (·.2) = some outer

/-- A call of `decrypt_sealed` returns the peer and the plaintext. -/
def Unsealed (c : Crypto K P Bytes) (l : Linking K P) (σ : SealedLink K P) :
    SealedAct P → Prop
  | .post .. => True
  | .fetch who outer g => value? (SessionManager.decryptSealed c outer g (σ.manager who))
      = ((σ.posted who.other)[σ.fetched who]?).map (fun x => (l.peerId who, x.1))

/-- When an envelope is opened the responder has not called `encrypt_sealed`. -/
def Unanswered (σ : SealedLink K P) : SealedAct P → Prop
  | .post .. => True
  | .fetch .. => σ.posted .responder = []

/-- The sessions are in step, the initiator has opened nothing, and what it
has posted is sealed under the first root key. -/
structure SealedStep (c : Crypto K P Bytes) (l : Linking K P) (d : K) (profile : Party → String)
    (σ : SealedLink K P) : Prop where
  session : ∀ who, σ.manager who = ⟨profile who,
    [(l.peerId who, sessionAt c l d who (σ.posted who).length (σ.fetched who))]⟩
  unheard : σ.fetched .initiator = 0
  total : (σ.posted .initiator).length + (σ.posted .responder).length ≤ 1000
  posted : ∀ {n x}, (σ.posted .initiator)[n]? = some x →
    ∃ payload inner, PostedAt c l d .initiator n (sealKey c l [d]) x payload inner

section Runs

variable (hlen : ∀ i s f b, (c.bytes (c.hkdf i s f b)).length = 32)
  (hd : ∀ who, dhWith c (some (l.dhs who)) (c.publicKey (l.dhs who.other)) = .ok d)
  {profile : Party → String} {σ : SealedLink K P} {g : P}

theorem SealedStep.start (hdh : GoodDh c) (h : SealedLink.Starts c l profile σ) :
    ∃ d, (∀ who, dhWith c (some (l.dhs who)) (c.publicKey (l.dhs who.other)) = .ok d) ∧
      SealedStep c l d profile σ := by
  obtain ⟨hmade, hposted, hfetched⟩ := h
  obtain ⟨d, hi, hr⟩ := hdh.commutes (l.dhs .initiator) (l.dhs .responder)
  have hd : ∀ who, dhWith c (some (l.dhs who)) (c.publicKey (l.dhs who.other)) = .ok d := by
    intro who
    rw [dhWith_some (hdh.public_length _)]
    cases who with
    | initiator => rw [Party.other, hi]
    | responder => rw [Party.other, hr]
  refine ⟨d, hd, fun who => ?_, hfetched _, ?_, fun hx => ?_⟩
  · obtain ⟨d', hd', hmanager⟩ := createSymmetricSession_ok (hmade who)
    cases (hd who).symm.trans hd'
    rw [hposted, hfetched, hmanager]
    cases who <;> rfl
  · rw [hposted, hposted]
    exact Nat.zero_le _
  · rw [hposted] at hx
    cases hx

include hlen hd in
theorem SealedStep.post (hpub : ∀ p, (c.publicKey p).length = 32) (hinv : AeadInverse c)
    (htag : AeadTagged c) (hprofile : ∀ who, utf8Encode (profile who) ≠ [])
    (hpeer : ∀ who, l.peerId who ≠ []) (h : SealedStep c l d profile σ) {who : Party}
    {pt nonce : Bytes} {loc : String} {ttl : Int}
    (hturn : SealedTurn c l σ (.post who pt loc ttl nonce)) :
    SealedStep c l d profile (σ.step c l (.post who pt loc ttl nonce)) := by
  obtain ⟨hreturns, hloc, httl, hnonce, hroom⟩ := hturn
  have hcall : SessionManager.encryptSealed c (l.peerId who) pt loc ttl nonce (σ.manager who)
      = SessionManager.withCtx (l.peerId who) (SessionContext.encryptSealed c (profile who) pt
          loc ttl nonce) (σ.manager who) := by
    rw [h.session]
    rfl
  rw [hcall, h.session, SessionManager.withCtx, Odict.get?_singleton] at hreturns
  rw [SealedLink.step, hcall, h.session, SessionManager.withCtx, Odict.get?_singleton]
  have hsmall : (σ.posted who).length < 2 ^ 32 := by
    cases who <;> omega
  cases henc : SessionContext.encryptSealed c (profile who) pt loc ttl nonce
      (sessionAt c l d who (σ.posted who).length (σ.fetched who)) with
  | error e ctx => simp [henc] at hreturns
  | ok outer ctx =>
      obtain ⟨rfl, payload, inner, hposted⟩ := session_post hlen hd hpub hinv htag
        (hprofile who) (hpeer who) hloc httl hnonce hsmall henc
      simp only [henc, Odict.set_singleton]
      refine ⟨fun who' => ?_, h.unheard, ?_, fun {n x} hx => ?_⟩
      · by_cases hw : who' = who
        · subst hw
          simp only [Function.update_self, List.length_append, List.length_singleton]
        · simp only [Function.update_of_ne hw, h.session]
      · cases who <;> simp [Function.update] <;> omega
      · cases who with
        | responder => exact h.posted hx
        | initiator =>
            simp only [Function.update_self] at hx
            rcases getElem?_concat_cases hx with hx | ⟨rfl, rfl⟩
            · exact h.posted hx
            · rw [h.unheard] at hposted
              exact ⟨payload, inner, hposted⟩

include hlen hd in
/-- A delivery before the first answer is one to the responder, and it goes
well. -/
theorem SealedStep.fetch (hinv : AeadInverse c) (h : SealedStep c l d profile σ) {who : Party}
    {outer : Json} (hturn : SealedTurn c l σ (.fetch who outer g))
    (hquiet : σ.posted .responder = []) :
    SealedStep c l d profile (σ.step c l (.fetch who outer g)) ∧
      Unsealed c l σ (.fetch who outer g) := by
  obtain ⟨x, hx, rfl⟩ := Option.map_eq_some_iff.mp hturn
  cases who with
  | initiator =>
      rw [Party.other, hquiet] at hx
      cases hx
  | responder =>
      obtain ⟨payload, inner, hposted⟩ := h.posted hx
      obtain ⟨env, henv, hpayload⟩ := hposted.outer
      have hroom : σ.fetched .responder < 1024 := by
        have hlt := (List.getElem?_eq_some_iff.mp hx).1
        have := h.total
        simp only [Party.other] at hlt
        omega
      have hposted' : PostedAt c l d (Party.other .responder) (σ.fetched .responder)
          (sealKey c l [d]) x payload inner := hposted
      have hopen : SessionContext.decryptInner c inner g
          (sessionAt c l d .responder 0 (σ.fetched .responder))
            = .ok x.1 (sessionAt c l d .responder 0 (σ.fetched .responder + 1)) :=
        session_fetch hlen hd hinv hposted' hroom g
      have hcall : SessionManager.decryptSealed c x.2 g (σ.manager .responder)
          = .ok (l.peerId .responder, x.1) ⟨profile .responder, [(l.peerId .responder,
              sessionAt c l d .responder 0 (σ.fetched .responder + 1))]⟩ := by
        have hkey : deriveSealingKey c.toKeyAlg (sessionAt c l d .responder 0
            (σ.fetched .responder)).ratchet.rootKey = sealKey c l [d] := rfl
        rw [h.session, hquiet]
        simp only [SessionManager.decryptSealed, bind_apply, henv, lift_ok, get_apply,
          SessionManager.trySessions, List.length_nil, hpayload, hkey, hposted.unsealed,
          SessionManager.withCtx, Odict.get?_singleton, hopen, Odict.set_singleton, pure_apply]
      refine ⟨⟨fun who' => ?_, ?_, h.total, h.posted⟩, ?_⟩
      · cases who' with
        | initiator => simp [SealedLink.step, Function.update, h.session]
        | responder => simp [SealedLink.step, hcall, hquiet]
      · simp [SealedLink.step, Function.update, h.unheard]
      · rw [Unsealed, hcall, hx]
        rfl

end Runs

/-- In every sealed conversation of two linked managers, as long as the
responder has not answered when an envelope is opened: every call of
`decrypt_sealed` returns the peer and the plaintext. -/
theorem sealed_until_answered (hlen : ∀ i s f b, (c.bytes (c.hkdf i s f b)).length = 32)
    (hdh : GoodDh c) (hinv : AeadInverse c) (htag : AeadTagged c) {profile : Party → String}
    (hprofile : ∀ who, profile who ≠ "") (hpeer : ∀ who, l.peerId who ≠ [])
    {σ : SealedLink K P} (hstart : SealedLink.Starts c l profile σ) {acts : List (SealedAct P)}
    (hturn : Along (SealedLink.step c l) (SealedTurn c l) σ acts)
    (hquiet : Along (SealedLink.step c l) Unanswered σ acts) :
    Along (SealedLink.step c l) (Unsealed c l) σ acts := by
  obtain ⟨d, hd, h₀⟩ := SealedStep.start hdh hstart
  have hsender := fun who => utf8Encode_ne_nil (hprofile who)
  refine (hturn.and hquiet).strengthen (I := SealedStep c l d profile) (fun σ act h hact => ?_) h₀
  obtain ⟨hturn, hquiet⟩ := hact
  cases act with
  | post who pt loc ttl nonce =>
      exact ⟨h.post hlen hd hdh.public_length hinv htag hsender hpeer hturn, trivial⟩
  | fetch who outer g => exact h.fetch hlen hd hinv hturn hquiet

/-! ## Concrete conversations -/

theorem sampleTag_length (key nonce data ad : Bytes) : (sampleTag key nonce data ad).length = 16 := by
  rw [sampleTag, List.length_take, mix_length]
  rfl

theorem sampleCrypto_goodDh : GoodDh sampleCrypto where
  public_length := mix_length
  commutes := fun p q => by
    refine ⟨_, rfl, ?_⟩
    have hcomm : List.zipWith (· + ·) (mix q) (mix p) = List.zipWith (· + ·) (mix p) (mix q) :=
      List.zipWith_comm_of_comm fun x y => UInt8.add_comm x y
    simp only [sampleCrypto, hcomm]

theorem sampleCrypto_inverse : AeadInverse sampleCrypto := by
  intro key nonce data ad ct h
  cases h
  have hbody : (data ++ sampleTag key nonce data ad).take
      ((data ++ sampleTag key nonce data ad).length - 16) = data := by
    rw [List.length_append, sampleTag_length, Nat.add_sub_cancel, List.take_left]
  simp only [sampleCrypto, hbody, if_true]

theorem sampleCrypto_tagged : AeadTagged sampleCrypto := by
  intro key nonce data ad ct h
  cases h
  rw [List.length_append, sampleTag_length]

def sampleKeys : Party → Bytes
  | .initiator => [1]
  | .responder => [2]

def sampleLinking : Linking Bytes Bytes where
  rootKey := mix [9]
  peerId := fun _ => ascii "peer"
  dhs := sampleKeys

/-- Two managers linked to each other. -/
def sampleSealed : SealedLink Bytes Bytes where
  manager := fun who => after (SessionManager.createSymmetricSession sampleCrypto (ascii "peer")
    (mix [9]) (sampleKeys who) (mix (sampleKeys who.other)) who.isInitiator
    { profile := symProfile who })

theorem sampleSealed_starts :
    SealedLink.Starts sampleCrypto sampleLinking symProfile sampleSealed := by
  refine ⟨fun who => ?_, fun _ => rfl, fun _ => rfl⟩
  cases who <;> rfl

/-- Post a text with the default lifetime. -/
def post (who : Party) (text : Bytes) (_ : SealedLink Bytes Bytes) : SealedAct Bytes :=
  .post who text "mailbox" 60 (List.replicate 12 5)

/-- Fetch the next envelope. -/
def fetch (who : Party) (σ : SealedLink Bytes Bytes) : SealedAct Bytes :=
  match (σ.posted who.other)[σ.fetched who]? with
  | some x => .fetch who x.2 [3]
  | none => .fetch who .null [3]

def sealedScript (σ : SealedLink Bytes Bytes) : List (SealedLink Bytes Bytes → SealedAct Bytes) →
    List (SealedAct Bytes)
  | [] => []
  | f :: fs => f σ :: sealedScript (σ.step sampleCrypto sampleLinking (f σ)) fs

theorem fetch_turn {who : Party} {σ : SealedLink Bytes Bytes}
    (h : ((σ.posted who.other)[σ.fetched who]?).isSome = true) :
    SealedTurn sampleCrypto sampleLinking σ (fetch who σ) := by
  rw [fetch]
  cases hx : (σ.posted who.other)[σ.fetched who]? with
  | none => rw [hx] at h; cases h
  | some x =>
      rw [SealedTurn, hx]
      rfl

/-- A message that is opened before the responder writes. -/
def sealedMorning : List (SealedAct Bytes) := sealedScript sampleSealed
  [post .initiator [104], fetch .responder, post .responder [105]]

theorem sealedMorning_turns : Along (SealedLink.step sampleCrypto sampleLinking)
    (SealedTurn sampleCrypto sampleLinking) sampleSealed sealedMorning := by
  refine ⟨?_, fetch_turn ?_, ?_, trivial⟩
  · exact ⟨by decide +kernel, by decide +kernel, by decide, by decide, by decide +kernel⟩
  · decide +kernel
  · exact ⟨by decide +kernel, by decide +kernel, by decide, by decide, by decide +kernel⟩

theorem sealed_until_answered_morning :
    SealedLink.Starts sampleCrypto sampleLinking symProfile sampleSealed ∧
      Along (SealedLink.step sampleCrypto sampleLinking) (Unsealed sampleCrypto sampleLinking)
        sampleSealed sealedMorning :=
  ⟨sampleSealed_starts, sealed_until_answered sampleCrypto_hkdf_length sampleCrypto_goodDh
    sampleCrypto_inverse sampleCrypto_tagged (by intro who; cases who <;> decide)
    (by intro who; cases who <;> decide) sampleSealed_starts sealedMorning_turns
    ⟨trivial, List.isEmpty_iff.mp (by decide +kernel), trivial, trivial⟩⟩

/-- Whether the next envelope is opened. -/
def opensNext (who : Party) (σ : SealedLink Bytes Bytes) : Bool :=
  match (σ.posted who.other)[σ.fetched who]? with
  | some x => (value? (SessionManager.decryptSealed sampleCrypto x.2 [3] (σ.manager who))).isSome
  | none => true

theorem not_unsealed {who : Party} {σ : SealedLink Bytes Bytes} (h : opensNext who σ = false) :
    SealedTurn sampleCrypto sampleLinking σ (fetch who σ) ∧
      ¬ Unsealed sampleCrypto sampleLinking σ (fetch who σ) := by
  rw [opensNext] at h
  cases hx : (σ.posted who.other)[σ.fetched who]? with
  | none => rw [hx] at h; cases h
  | some x =>
      rw [hx] at h
      refine ⟨fetch_turn (by rw [hx]; rfl), fun hopen => ?_⟩
      rw [fetch, hx, Unsealed, hx] at hopen
      simp only [hopen, Option.map_some, Option.isSome_some] at h
      cases h

/-- The responder's first message is not opened, and neither is what the
initiator writes after it. -/
theorem answer_not_unsealed :
    SealedLink.Starts sampleCrypto sampleLinking symProfile sampleSealed ∧
      (∀ script ∈ [[post .responder [104], fetch .initiator],
          [post .responder [104], post .initiator [105], fetch .responder]],
        Along (SealedLink.step sampleCrypto sampleLinking) (SealedTurn sampleCrypto sampleLinking)
          sampleSealed (sealedScript sampleSealed script) ∧
        ¬ Along (SealedLink.step sampleCrypto sampleLinking) (Unsealed sampleCrypto sampleLinking)
          sampleSealed (sealedScript sampleSealed script)) := by
  refine ⟨sampleSealed_starts, fun script hscript => ?_⟩
  rcases List.mem_cons.mp hscript with rfl | hscript
  · have hnext : opensNext .initiator (sampleSealed.step sampleCrypto sampleLinking
        (post .responder [104] sampleSealed)) = false := by decide +kernel
    obtain ⟨hturn, hnot⟩ := not_unsealed hnext
    refine ⟨⟨?_, hturn, trivial⟩, fun hall => hnot hall.2.1⟩
    exact ⟨by decide +kernel, by decide +kernel, by decide, by decide, by decide +kernel⟩
  · obtain rfl := List.mem_singleton.mp hscript
    have hnext : opensNext .responder ((sampleSealed.step sampleCrypto sampleLinking
        (post .responder [104] sampleSealed)).step sampleCrypto sampleLinking
          (post .initiator [105] sampleSealed)) = false := by decide +kernel
    obtain ⟨hturn, hnot⟩ := not_unsealed hnext
    refine ⟨⟨?_, ?_, hturn, trivial⟩, fun hall => hnot hall.2.2.1⟩
    · exact ⟨by decide +kernel, by decide +kernel, by decide, by decide, by decide +kernel⟩
    · exact ⟨by decide +kernel, by decide +kernel, by decide, by decide, by decide +kernel⟩

end GhostChat.Proofs
