import GhostChat.Ref.SessionPair
import GhostChat.Proofs.Agreement
import GhostChat.Ref.Symbolic

/-!
# A session without headers

A `SessionCrypto` puts a number in front of every payload and decides nothing
by it. It tries the next key of its receiving chain and no other, and steps the
chain only if that key opens the payload. So what one side has accepted is
always a beginning of what the other has sent, in order and with nothing left
out, and the next payload of the peer is the only one that can be accepted.
There is no way around a payload that is lost.

The number is not authenticated. A payload is the next one if it agrees with it
from the fifth byte on.
-/

namespace GhostChat.Proofs

open GhostChat.Lib GhostChat.Lib.Effect GhostChat.Ref

variable {K P : Type} {a : KeyAlg K} {c : Crypto K P Bytes} {rk : K} {σ : SessionPair K}
  {who : Party} {s : SessionCrypto K} {payload p : Bytes}

/-! ## Chains -/

/-- A chain key after `n` steps, and the message key of step `n`. -/
def sessionChain (a : KeyAlg K) (ck : K) (n : Nat) : K :=
  (fun ck => (deriveChainAndMessageKey a ck).1)^[n] ck

def sessionKey (a : KeyAlg K) (ck : K) (n : Nat) : K :=
  (deriveChainAndMessageKey a (sessionChain a ck n)).2

/-- The chain a side sends on, at its beginning. -/
def firstChain (a : KeyAlg K) (rk : K) (who : Party) : K :=
  a.hkdf rk (a.lit sessionSalt) (if who.isInitiator then chainSendInfo else chainRecvInfo) 0

theorem sessionChain_succ (ck : K) (n : Nat) :
    sessionChain a ck (n + 1) = (deriveChainAndMessageKey a (sessionChain a ck n)).1 :=
  Function.iterate_succ_apply' _ n ck

theorem sessionChain_inj (ha : a.Injective) {x y : Party} {m n : Nat}
    (h : sessionChain a (firstChain a rk x) m = sessionChain a (firstChain a rk y) n) :
    x = y ∧ m = n := by
  -- The label tells the first chain key from those that were stepped to.
  have hfirst : ∀ (x : Party) (ck : K),
      firstChain a rk x ≠ (deriveChainAndMessageKey a ck).1 := by
    intro x ck he
    have hinfo := (ha.hkdf_inj he).2.2.1
    revert hinfo
    cases x <;> decide
  induction m generalizing n with
  | zero =>
      cases n with
      | zero =>
          refine ⟨?_, rfl⟩
          have hinfo := (ha.hkdf_inj h).2.2.1
          revert hinfo
          cases x <;> cases y <;> decide
      | succ n =>
          rw [sessionChain_succ] at h
          exact absurd h (hfirst x _)
  | succ m ih =>
      cases n with
      | zero =>
          rw [sessionChain_succ] at h
          exact absurd h.symm (hfirst y _)
      | succ n =>
          rw [sessionChain_succ, sessionChain_succ] at h
          obtain ⟨rfl, rfl⟩ := ih (ha.hkdf_inj h).1
          exact ⟨rfl, rfl⟩

theorem sessionKey_inj (ha : a.Injective) {x y : Party} {m n : Nat}
    (h : sessionKey a (firstChain a rk x) m = sessionKey a (firstChain a rk y) n) :
    x = y ∧ m = n := sessionChain_inj ha (ha.hkdf_inj h).1

theorem sessionKey_length (ha : a.Injective) (ck : K) (n : Nat) :
    (a.bytes (sessionKey a ck n)).length = 32 := ha.hkdf_length ..

/-! ## The calls -/

theorem nonceFromCounter_ok {n : Nat} {nonce : Bytes} (h : nonceFromCounter n = .ok nonce) :
    nonce.length = 12 := by
  unfold nonceFromCounter at h
  unfold toBytesBig at h
  split at h
  · next b hb =>
      split at hb
      · cases hb
        cases h
        simp
      · cases hb
  · cases h

theorem packUint32_ok {n : Nat} {b : Bytes} (h : packUint32 n = .ok b) : b.length = 4 := by
  unfold packUint32 at h
  split at h
  · cases h
    rfl
  · cases h

/-- What `encrypt_message` returns. -/
theorem encryptMessage_ok {s' : SessionCrypto K} {plaintext : Bytes}
    (h : SessionCrypto.encryptMessage c plaintext s = .ok payload s') :
    (∃ nonce ct, nonce.length = 12 ∧
      c.encrypt (deriveChainAndMessageKey c.toKeyAlg s.sendChainKey).2 nonce plaintext []
        = some ct ∧ payload.drop 4 = nonce ++ ct) ∧
      s' = { s with
        sendChainKey := (deriveChainAndMessageKey c.toKeyAlg s.sendChainKey).1
        sendMessageNumber := s.sendMessageNumber + 1 } := by
  simp only [SessionCrypto.encryptMessage] at h
  obtain ⟨s₁, s₂, hget, h⟩ := bind_ok h
  cases hget
  obtain ⟨nonce, hnonce, h⟩ := lift_bind_ok h
  obtain ⟨ct, hct, h⟩ := lift_bind_ok h
  obtain ⟨number, hnumber, h⟩ := lift_bind_ok h
  cases h
  refine ⟨⟨nonce, ct, nonceFromCounter_ok hnonce, aeadEncrypt_ok hct, ?_⟩, rfl⟩
  rw [List.append_assoc, List.drop_left' (packUint32_ok hnumber)]

theorem encryptMessage_raises {s' : SessionCrypto K} {plaintext : Bytes} {e : Exn}
    (h : SessionCrypto.encryptMessage c plaintext s = .error e s') : s' = s := by
  simp only [SessionCrypto.encryptMessage, bind_apply, get_apply] at h
  cases hnonce : nonceFromCounter s.sendMessageNumber with
  | error e₁ => rw [hnonce] at h; cases h; rfl
  | ok nonce =>
      simp only [hnonce, lift_ok] at h
      cases hct : aeadEncrypt c (deriveChainAndMessageKey c.toKeyAlg s.sendChainKey).2 plaintext
        nonce [] with
      | error e₁ => rw [hct] at h; cases h; rfl
      | ok ct =>
          simp only [hct, lift_ok] at h
          cases hnumber : packUint32 s.sendMessageNumber with
          | error e₁ => rw [hnumber] at h; cases h; rfl
          | ok number => rw [hnumber] at h; cases h

/-- The key `decrypt_message` tries. -/
def nextKey (a : KeyAlg K) (s : SessionCrypto K) : K :=
  (deriveChainAndMessageKey a s.recvChainKey).2

/-- `decrypt_message` returns where the next key opens the payload, and steps
the chain then. Otherwise it raises and changes nothing. -/
theorem decryptMessage_cases (hlen : (c.bytes (nextKey c.toKeyAlg s)).length = 32)
    (payload : Bytes) :
    (∃ e, SessionCrypto.decryptMessage c payload s = .error e s ∧
      (16 ≤ payload.length → c.decrypt (nextKey c.toKeyAlg s) ((payload.drop 4).take 12)
        (payload.drop 16) [] = none)) ∨
    ∃ p s', SessionCrypto.decryptMessage c payload s = .ok p s' ∧ 16 ≤ payload.length ∧
      c.decrypt (nextKey c.toKeyAlg s) ((payload.drop 4).take 12) (payload.drop 16) [] = some p ∧
      s'.recvChainKey = (deriveChainAndMessageKey c.toKeyAlg s.recvChainKey).1 ∧
      s'.sendChainKey = s.sendChainKey := by
  by_cases hshort : payload.length < 16
  · refine Or.inl ⟨.valueError "payload too short", ?_, fun h => by omega⟩
    rw [SessionCrypto.decryptMessage, ite_run, if_pos (show payload.length < 4 + 12 from hshort)]
    rfl
  · have hnonce : ((payload.drop 4).take 12).length = 12 := by
      rw [List.length_take, List.length_drop]
      omega
    have hkey : ¬ (c.bytes (deriveChainAndMessageKey c.toKeyAlg s.recvChainKey).2).length ≠ 32 :=
      not_not.mpr hlen
    simp only [SessionCrypto.decryptMessage,
      if_neg (show ¬ payload.length < 4 + 12 from hshort), bind_apply, get_apply, aeadDecrypt,
      if_neg hkey, if_neg (not_not.mpr hnonce)]
    cases hdec : c.decrypt (deriveChainAndMessageKey c.toKeyAlg s.recvChainKey).2
      ((payload.drop 4).take 12) (payload.drop (4 + 12)) [] with
    | none => exact Or.inl ⟨_, rfl, fun _ => hdec⟩
    | some p => exact Or.inr ⟨p, _, rfl, not_lt.mp hshort, hdec, rfl, rfl⟩

/-! ## Runs -/

/-- The AEAD is not forged: where the next key opens a payload, one of the
sides has sent it under that key. -/
def GenuinePayload (c : Crypto K P Bytes) (σ : SessionPair K) : SessionAct → Prop
  | .encrypt _ _ => True
  | .decrypt who payload =>
      ∀ p ∈ c.decrypt (nextKey c.toKeyAlg (σ.session who)) ((payload.drop 4).take 12)
        (payload.drop 16) [],
      ∃ e ∈ σ.sent who ++ σ.sent who.other,
        e.key = nextKey c.toKeyAlg (σ.session who) ∧ e.payload.drop 4 = payload.drop 4

/-- The sessions stand on their chains where the numbers of payloads sent and
accepted put them, and what was accepted is a beginning of what was sent. -/
structure PayloadBooks (c : Crypto K P Bytes) (rk : K) (σ : SessionPair K) : Prop where
  sending : ∀ who, (σ.session who).sendChainKey
    = sessionChain c.toKeyAlg (firstChain c.toKeyAlg rk who) (σ.sent who).length
  receiving : ∀ who, (σ.session who).recvChainKey
    = sessionChain c.toKeyAlg (firstChain c.toKeyAlg rk who.other) (σ.got who).length
  keys : ∀ who n e, (σ.sent who)[n]? = some e →
    e.key = sessionKey c.toKeyAlg (firstChain c.toKeyAlg rk who) n ∧
      ∃ nonce ct, nonce.length = 12 ∧ c.encrypt e.key nonce e.plaintext [] = some ct ∧
        e.payload.drop 4 = nonce ++ ct
  accepted : ∀ who, σ.got who <+: (σ.sent who.other).map (·.plaintext)

section Books

variable {who : Party} {payload p : Bytes}

theorem PayloadBooks.nextKey_eq (h : PayloadBooks c rk σ) (who : Party) :
    nextKey c.toKeyAlg (σ.session who)
      = sessionKey c.toKeyAlg (firstChain c.toKeyAlg rk who.other) (σ.got who).length := by
  rw [nextKey, h.receiving who, sessionKey]

/-- The next payload of the peer. -/
def NextPayload (σ : SessionPair K) (who : Party) (payload p : Bytes) : Prop :=
  ∃ e, (σ.sent who.other)[(σ.got who).length]? = some e ∧
    payload.drop 4 = e.payload.drop 4 ∧ p = e.plaintext

/-- What the next key opens is the next payload, and that it opens. -/
theorem PayloadBooks.opens_iff (ha : c.toKeyAlg.Injective) (hinv : AeadInverse c)
    (h : PayloadBooks c rk σ) (hgen : GenuinePayload c σ (.decrypt who payload)) :
    (16 ≤ payload.length ∧ c.decrypt (nextKey c.toKeyAlg (σ.session who))
      ((payload.drop 4).take 12) (payload.drop 16) [] = some p) ↔
      NextPayload σ who payload p := by
  have hsplit : ∀ {e : SentPayload K} {nonce ct : Bytes}, nonce.length = 12 →
      e.payload.drop 4 = nonce ++ ct → payload.drop 4 = e.payload.drop 4 →
      16 ≤ payload.length ∧ (payload.drop 4).take 12 = nonce ∧ payload.drop 16 = ct := by
    intro e nonce ct hnonce he heq
    have hboth : payload.drop 4 = nonce ++ ct := heq.trans he
    refine ⟨?_, ?_, ?_⟩
    · have hlen := congrArg List.length hboth
      rw [List.length_drop, List.length_append] at hlen
      omega
    · rw [hboth, List.take_left' hnonce]
    · rw [show payload.drop 16 = (payload.drop 4).drop 12 by
        rw [List.drop_drop], hboth,
        List.drop_left' hnonce]
  constructor
  · rintro ⟨-, hdec⟩
    obtain ⟨e, he, hkey, hpayload⟩ := hgen p hdec
    -- The key says who sent it, and as which.
    have hwhich : ∃ (x : Party) (n : Nat), (σ.sent x)[n]? = some e := by
      rcases List.mem_append.mp he with he | he
      · exact ⟨who, List.getElem?_of_mem he⟩
      · exact ⟨who.other, List.getElem?_of_mem he⟩
    obtain ⟨x, n, hn⟩ := hwhich
    obtain ⟨hkey', nonce, ct, hnonce, henc, hdrop⟩ := h.keys x n e hn
    rw [h.nextKey_eq who, hkey'] at hkey
    obtain ⟨rfl, rfl⟩ := sessionKey_inj ha hkey
    obtain ⟨-, htake, hrest⟩ := hsplit hnonce hdrop hpayload.symm
    refine ⟨e, hn, hpayload.symm, ?_⟩
    have hopen := hinv _ _ _ _ _ henc
    rw [hkey', ← h.nextKey_eq who, ← htake, ← hrest, hdec] at hopen
    exact Option.some.inj hopen
  · rintro ⟨e, hn, hpayload, rfl⟩
    obtain ⟨hkey, nonce, ct, hnonce, henc, hdrop⟩ := h.keys _ _ e hn
    obtain ⟨hlong, htake, hrest⟩ := hsplit hnonce hdrop hpayload
    refine ⟨hlong, ?_⟩
    rw [h.nextKey_eq who, ← hkey, htake, hrest]
    exact hinv _ _ _ _ _ henc

theorem PayloadBooks.nextKey_length (ha : c.toKeyAlg.Injective) (h : PayloadBooks c rk σ)
    (who : Party) : (c.bytes (nextKey c.toKeyAlg (σ.session who))).length = 32 := by
  rw [h.nextKey_eq who]
  exact sessionKey_length ha _ _

theorem PayloadBooks.encrypt (h : PayloadBooks c rk σ) (who : Party) (plaintext : Bytes) :
    PayloadBooks c rk (σ.step c (.encrypt who plaintext)) := by
  cases henc : SessionCrypto.encryptMessage c plaintext (σ.session who) with
  | error e s =>
      simp only [SessionPair.step, henc, encryptMessage_raises henc, Function.update_eq_self]
      exact h
  | ok payload s =>
      obtain ⟨hsealed, rfl⟩ := encryptMessage_ok henc
      simp only [SessionPair.step, henc]
      refine ⟨fun x => ?_, fun x => ?_, fun x n e hn => ?_, fun x => ?_⟩
      · by_cases hx : x = who
        · subst hx
          simp only [Function.update_self, List.length_append, List.length_singleton]
          rw [sessionChain_succ, ← h.sending x]
        · simp only [Function.update_of_ne hx]
          exact h.sending x
      · by_cases hx : x = who
        · subst hx
          simp only [Function.update_self]
          exact h.receiving x
        · simp only [Function.update_of_ne hx]
          exact h.receiving x
      · by_cases hx : x = who
        · subst hx
          simp only [Function.update_self] at hn
          rcases getElem?_concat_cases hn with hn | ⟨rfl, rfl⟩
          · exact h.keys x n e hn
          · refine ⟨?_, hsealed⟩
            rw [sessionKey, ← h.sending x]
        · simp only [Function.update_of_ne hx] at hn
          exact h.keys x n e hn
      · refine (h.accepted x).trans ?_
        by_cases hx : x.other = who
        · subst hx
          simp only [Function.update_self, List.map_append]
          exact List.prefix_append _ _
        · simp only [Function.update_of_ne hx]
          exact List.prefix_refl _

theorem PayloadBooks.decrypt (ha : c.toKeyAlg.Injective) (hinv : AeadInverse c)
    (h : PayloadBooks c rk σ) (hgen : GenuinePayload c σ (.decrypt who payload)) :
    PayloadBooks c rk (σ.step c (.decrypt who payload)) := by
  rcases decryptMessage_cases (h.nextKey_length ha who) payload with
    ⟨e, he, -⟩ | ⟨p, s, hok, hlong, hdec, hrecv, hsend⟩
  · simp only [SessionPair.step, he, Function.update_eq_self]
    exact h
  · obtain ⟨e, hn, -, rfl⟩ := (h.opens_iff ha hinv hgen).mp ⟨hlong, hdec⟩
    simp only [SessionPair.step, hok]
    refine ⟨fun x => ?_, fun x => ?_, h.keys, fun x => ?_⟩
    · by_cases hx : x = who
      · subst hx
        simp only [Function.update_self, hsend]
        exact h.sending x
      · simp only [Function.update_of_ne hx]
        exact h.sending x
    · by_cases hx : x = who
      · subst hx
        simp only [Function.update_self, hrecv, List.length_append, List.length_singleton]
        rw [sessionChain_succ, ← h.receiving x]
      · simp only [Function.update_of_ne hx]
        exact h.receiving x
    · by_cases hx : x = who
      · subst hx
        simp only [Function.update_self]
        obtain ⟨rest, hrest⟩ := h.accepted x
        have hget : ((σ.sent x.other).map (·.plaintext))[(σ.got x).length]?
            = some e.plaintext := by
          rw [List.getElem?_map, hn]
          rfl
        rw [← hrest, List.getElem?_append_right (Nat.le_refl _), Nat.sub_self] at hget
        cases rest with
        | nil => cases hget
        | cons q rest =>
            cases hget
            refine ⟨rest, ?_⟩
            rw [← hrest, List.append_assoc]
            rfl
      · simp only [Function.update_of_ne hx]
        exact h.accepted x

theorem sessionBooks_start (h : SessionPair.start c.toKeyAlg rk = .ok σ) :
    PayloadBooks c rk σ := by
  unfold SessionPair.start SessionCrypto.fromRootKey at h
  by_cases hlen : (c.bytes rk).length ≠ 32
  · rw [if_pos hlen] at h
    cases h
  · rw [if_neg hlen, if_neg hlen] at h
    cases h
    refine ⟨fun who => ?_, fun who => ?_, fun who n e hn => ?_, fun who => List.nil_prefix⟩
    · cases who <;> rfl
    · cases who <;> rfl
    · cases hn

theorem sessionBooks_run (ha : c.toKeyAlg.Injective) (hinv : AeadInverse c)
    (hstart : SessionPair.start c.toKeyAlg rk = .ok σ) {acts : List SessionAct}
    (hrun : Along (SessionPair.step c) (GenuinePayload c) σ acts) :
    PayloadBooks c rk (runFrom (SessionPair.step c) σ acts) := by
  refine hrun.invariant (fun σ act h hgen => ?_) (sessionBooks_start hstart)
  cases act with
  | encrypt who plaintext => exact h.encrypt who plaintext
  | decrypt who payload => exact h.decrypt ha hinv hgen

end Books

/-- Over every run of two sessions of one root key, whatever is delivered: what
a side has accepted is a beginning of what the other has sent. A call returns
exactly if the payload agrees with the next one of the peer from the fifth byte
on, and with its plaintext. -/
theorem session_accepts_next (ha : c.toKeyAlg.Injective) (hinv : AeadInverse c)
    (hstart : SessionPair.start c.toKeyAlg rk = .ok σ) {acts : List SessionAct}
    (hrun : Along (SessionPair.step c) (GenuinePayload c) σ acts) (who : Party) :
    (runFrom (SessionPair.step c) σ acts).got who
      <+: ((runFrom (SessionPair.step c) σ acts).sent who.other).map (·.plaintext) ∧
    ∀ payload, GenuinePayload c (runFrom (SessionPair.step c) σ acts) (.decrypt who payload) →
      ∀ p, value? (SessionCrypto.decryptMessage c payload
          ((runFrom (SessionPair.step c) σ acts).session who)) = some p ↔
        NextPayload (runFrom (SessionPair.step c) σ acts) who payload p := by
  have h := sessionBooks_run ha hinv hstart hrun
  refine ⟨h.accepted who, fun payload hgen p => ?_⟩
  rw [← h.opens_iff ha hinv hgen]
  rcases decryptMessage_cases (h.nextKey_length ha who) payload with
    ⟨e, he, hclosed⟩ | ⟨q, s, hok, hlong, hdec, -⟩
  · rw [he, value?_error]
    refine iff_of_false (by simp) ?_
    rintro ⟨hlong, hdec⟩
    rw [hclosed hlong] at hdec
    cases hdec
  · rw [hok, value?_ok, hdec]
    exact (and_iff_right hlong).symm

/-- The symbolic boxes, written out as bytes. -/
def symBytes : Crypto SymKey Nat Bytes where
  toKeyAlg := symKeys
  publicKey := symPublicKey
  sharedKey := symbolic.sharedKey
  encrypt := fun key nonce data ad => some (key.show32 ++ nonce ++ ad ++ data)
  decrypt := fun key nonce ct ad =>
    let head := key.show32 ++ nonce ++ ad
    if ct.take head.length = head then some (ct.drop head.length) else none

theorem symBytes_inverse : AeadInverse symBytes := by
  intro key nonce data ad ct h
  cases h
  simp only [symBytes, List.take_left, List.drop_left, if_true]

/-- The initiator has sent twice. -/
def twoPayloads : SessionPair SymKey :=
  match SessionPair.start symBytes.toKeyAlg symRoot with
  | .ok σ => runFrom (SessionPair.step symBytes) σ
      [.encrypt .initiator [1], .encrypt .initiator [2]]
  | .error _ => ⟨fun _ => ⟨symRoot, symRoot, symRoot, 0, 0⟩, fun _ => [], fun _ => []⟩

def sentPayload (n : Nat) : Bytes :=
  (((twoPayloads.sent .initiator)[n]?).map (·.payload)).getD []

/-- The second payload is not accepted before the first, and the first is
accepted under any number. -/
theorem session_accepts_next_renumbered :
    value? (SessionCrypto.decryptMessage symBytes (sentPayload 1)
      (twoPayloads.session .responder)) ≠ some [2] ∧
    value? (SessionCrypto.decryptMessage symBytes ([9, 9, 9, 9] ++ (sentPayload 0).drop 4)
      (twoPayloads.session .responder)) = some [1] := by
  obtain ⟨σ, hstart⟩ : ∃ σ, SessionPair.start symBytes.toKeyAlg symRoot = .ok σ := ⟨_, rfl⟩
  have hend : runFrom (SessionPair.step symBytes) σ
      [.encrypt .initiator [1], .encrypt .initiator [2]] = twoPayloads := by
    rw [twoPayloads, hstart]
  have hrun : Along (SessionPair.step symBytes) (GenuinePayload symBytes) σ
      [.encrypt .initiator [1], .encrypt .initiator [2]] := ⟨trivial, trivial, trivial⟩
  obtain ⟨-, hnext⟩ :=
    session_accepts_next symKeys_injective symBytes_inverse hstart hrun .responder
  rw [hend] at hnext
  have hfirst : ((twoPayloads.sent .initiator)[0]?).map (fun e => (e.payload, e.plaintext, e.key))
      = some (sentPayload 0, [1], nextKey symKeys (twoPayloads.session .responder)) := by
    decide +kernel
  obtain ⟨e, he, hfields⟩ := Option.map_eq_some_iff.mp hfirst
  simp only [Prod.mk.injEq] at hfields
  obtain ⟨hpayload, hplain, hkey⟩ := hfields
  have hgot : (twoPayloads.got .responder).length = 0 := by decide +kernel
  constructor
  · have hclosed : symBytes.decrypt (nextKey symKeys (twoPayloads.session .responder))
        (((sentPayload 1).drop 4).take 12) ((sentPayload 1).drop 16) [] = none := by
      decide +kernel
    have hgen : GenuinePayload symBytes twoPayloads (.decrypt .responder (sentPayload 1)) := by
      intro p hp
      rw [show symBytes.toKeyAlg = symKeys from rfl, hclosed] at hp
      cases hp
    intro h
    obtain ⟨e', he', hsame, -⟩ := (hnext (sentPayload 1) hgen [2]).mp h
    rw [hgot] at he'
    obtain rfl : e = e' := Option.some.inj (he.symm.trans he')
    rw [hpayload] at hsame
    exact absurd hsame (by decide +kernel)
  · refine (hnext ([9, 9, 9, 9] ++ (sentPayload 0).drop 4) ?_ [1]).mpr ⟨e, ?_, ?_, hplain.symm⟩
    · intro p _
      refine ⟨e, List.mem_append_right _ (List.mem_of_getElem? he), hkey, ?_⟩
      rw [hpayload]
      rfl
    · rw [hgot]
      exact he
    · rw [hpayload]
      rfl

end GhostChat.Proofs
