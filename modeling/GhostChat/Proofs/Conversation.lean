import GhostChat.Proofs.Mail

/-!
# Honest runs deliver what was sent

The invariant of an honest pair and its steps. One party leads: the newest
chain is its own. The other follows, in one of three positions: it is still
speaking on the chain before, or it has heard the leader's newest chain and
would open the next one, or it is the responder and has heard nothing yet.
Leading changes hands when a follower that has heard the newest chain
encrypts.

`honest_delivery` is the payoff: along every honest run every delivery
returns the plaintext that was encrypted, and every stored key is the one the
sender used.
-/

namespace GhostChat.Proofs

open GhostChat.Lib GhostChat.Lib.Effect GhostChat.Lib.Window GhostChat.Ref

variable {K P C : Type} {c : Crypto K P C} {rk : K} {cap : Nat}

/-! ## What is asked of a run -/

/-- The AEAD takes the plaintext, and decryption gives it back. -/
def AeadWorks (c : Crypto K P C) (pt : Bytes) : Prop :=
  ∀ key nonce ad, ∃ ct, c.encrypt key nonce pt ad = some ct ∧
    c.decrypt key nonce ct ad = some pt

/-- The header key is the newest one delivered so far in this direction or a
newer one, or a higher-numbered message of the same chain was delivered. -/
def InOrder (σ : Pair K P C) (who : Party) (w : RatchetWireMessage C) : Prop :=
  (∀ id ∈ delivered who σ.log,
    keyRank who.other σ.log id.1 ≤ keyRank who.other σ.log w.header.dh) ∨
  ∃ m, w.header.n.toNat < m ∧ (w.header.dh, m) ∈ delivered who σ.log

/-- One step of an honest run. A party encrypts if it can, fewer than
`2 ^ 32` messages to a chain; a party is handed a message of the peer's that
it has not had, in an order the receiver can follow, across a gap of at most
`MAX_SKIP_DISTANCE`, with at most `cap` skipped messages pending after it. -/
def HonestStep (c : Crypto K P C) (cap : Nat) (σ : Pair K P C) : Act P C → Prop
  | .encrypt who pt =>
      ((σ.engine who).sendingChainKey.isSome ∨ (σ.engine who).dhr.isSome) ∧
      (σ.engine who).Ns < 2 ^ 32 ∧ AeadWorks c pt
  | .decrypt who w g =>
      FreshKeys c σ (.decrypt who w g) ∧
      (∃ pt k, Event.sent who.other pt w k ∈ σ.log) ∧
      (∀ p k, Event.accepted who w p k ∉ σ.log) ∧
      InOrder σ who w ∧
      w.header.n.toNat ≤ nextExpected (delivered who σ.log) w.header.dh + maxSkipDistance ∧
      (pending ((w.header.dh, w.header.n.toNat) :: delivered who σ.log)).card ≤ cap

/-! ## One party -/

/-- A party on the chain `q :: t` of its own. -/
structure Speaks (c : Crypto K P C) (rk : K) (q : P) (t : List P)
    (s : DoubleRatchetState K P) : Prop where
  root : s.rootKey = rootAfter c.toKeyAlg rk (outs c (q :: t))
  own : s.dhsPrivate = some q
  send : s.sendingChainKey = some (chainKey c.toKeyAlg rk (outs c (q :: t)) s.Ns)

/-- A party that would open the next chain under `p`, after the peer's
`ks`. -/
structure Waits (c : Crypto K P C) (rk : K) (p : P) (ks : List P)
    (s : DoubleRatchetState K P) : Prop where
  root : s.rootKey = rootAfter c.toKeyAlg rk (outs c ks)
  own : s.dhsPrivate = some p
  send : s.sendingChainKey = none

/-- The chain `ks` of the peer is made the receiving chain; nothing is taken
from it yet. -/
structure NewChain (c : Crypto K P C) (rk : K) (ks : List P) (dh : Bytes)
    (s s₁ : DoubleRatchetState K P) : Prop where
  remote : s₁.dhr = some dh
  counter : s₁.Nr = 0
  chain : s₁.receivingChainKey = some (chainKey c.toKeyAlg rk (outs c ks) 0)
  skipped : s₁.skippedMessageKeys = s.skippedMessageKeys
  ids : s₁.receivedIds = s.receivedIds

section Party

variable {q p : P} {t : List P} {s s' : DoubleRatchetState K P} {pt : Bytes}
  {D : List (Bytes × Nat)} {w : RatchetWireMessage C} {k : K}

theorem Speaks.frame (h : Speaks c rk q t s) (hs : SameSend s s') :
    Speaks c rk q t s' :=
  ⟨hs.root.trans h.root, hs.own.trans h.own, by rw [hs.chain, hs.counter]; exact h.send⟩

theorem Waits.frame {ks : List P} (h : Waits c rk p ks s) (hs : SameSend s s') :
    Waits c rk p ks s' :=
  ⟨hs.root.trans h.root, hs.own.trans h.own, hs.chain.trans h.send⟩

/-- A party with a sending chain encrypts. -/
theorem Speaks.encrypt (hlen : ∀ i s f b, (c.bytes (c.hkdf i s f b)).length = 32)
    (h : Speaks c rk q t s) (hpt : AeadWorks c pt) (hN : s.Ns < 2 ^ 32) :
    ∃ w k s', ratchetEncryptKeyed c pt s = .ok (w, k) s' ∧
      w.header = { dh := c.publicKey q, n := s.Ns, pn := s.PN } ∧
      Sealed c rk (q :: t) pt w k ∧ Speaks c rk q t s' ∧ s'.Ns = s.Ns + 1 ∧
      s'.PN = s.PN ∧ SameRecv s s' := by
  let mk := msgKey c.toKeyAlg rk (outs c (q :: t)) s.Ns
  have hmk : (c.bytes mk).length = 32 := hlen _ _ _ _
  obtain ⟨nonce, hnonce⟩ : ∃ nonce, messageKeyToNonce (c.bytes mk) s.Ns = .ok nonce :=
    ⟨_, if_neg (by rw [hmk]; decide)⟩
  let header : RatchetMessageHeader := { dh := c.publicKey q, n := s.Ns, pn := s.PN }
  obtain ⟨ct, henc, hdec⟩ := hpt mk nonce (headerAad header)
  have haead : aeadEncrypt c mk pt nonce (headerAad header) = .ok ct := by
    rw [aeadEncrypt, if_neg (by simp [hmk]), if_neg (by simp [nonce_length hnonce]), henc]
  let s₁ : DoubleRatchetState K P := { s with
    sendingChainKey := some (chainKey c.toKeyAlg rk (outs c (q :: t)) (s.Ns + 1)) }
  have hnext : nextSendingKey c s = .ok mk s₁ := by
    rw [nextSendingKey_open h.send, ← chainKey_succ]
    rfl
  have hseal : sealWith c mk pt s₁ = .ok ⟨header, ct, nonce⟩ { s₁ with Ns := s₁.Ns + 1 } := by
    have hpub : dhsPublicBytes c s₁ = .ok (c.publicKey q) := by
      rw [dhsPublicBytes, show s₁.dhsPrivate = some q from h.own]
    simp only [sealWith, bind_apply, get_apply, hpub, lift_ok, s₁, hnonce, haead,
      modify_apply, pure_apply, header]
  refine ⟨⟨header, ct, nonce⟩, mk, { s₁ with Ns := s₁.Ns + 1 }, ?_, rfl, ?_, ?_, rfl, rfl,
    ⟨rfl, rfl, rfl, rfl, rfl⟩⟩
  · rw [ratchetEncryptKeyed_eq, hnext]
    simp only [hseal]
  · exact ⟨rfl, ⟨Int.natCast_nonneg _, hN⟩, rfl, hnonce, hdec⟩
  · exact ⟨h.root, h.own, rfl⟩

/-- A party without one opens it first: from then on it speaks. -/
theorem Waits.opens (hdh : GoodDh c) (h : Waits c rk p (q :: t) s)
    (hd : s.dhr = some (c.publicKey q)) :
    ∃ s₁, (∀ pt, ratchetEncryptKeyed c pt s = ratchetEncryptKeyed c pt s₁) ∧
      Speaks c rk p (q :: t) s₁ ∧ s₁.Ns = 0 ∧ s₁.PN = s.PN ∧ SameRecv s s₁ := by
  obtain ⟨sh, hsh, -, houts⟩ := outs_cons hdh p q t
  have hw : dhWith c s.dhsPrivate (c.publicKey q) = .ok sh := by
    rw [h.own, dhWith_some (hdh.public_length q), hsh]
  let s₁ : DoubleRatchetState K P := { s with
    rootKey := (kdfRoot c.toKeyAlg s.rootKey sh).1
    sendingChainKey := some (kdfRoot c.toKeyAlg s.rootKey sh).2
    Ns := 0 }
  refine ⟨s₁, fun pt => ?_, ⟨?_, h.own, ?_⟩, rfl, rfl, ⟨rfl, rfl, rfl, rfl, rfl⟩⟩
  · rw [ratchetEncryptKeyed_eq, ratchetEncryptKeyed_eq, nextSendingKey_lazy h.send hd, hw,
      nextSendingKey_open (s := s₁) rfl]
  · show (kdfRoot c.toKeyAlg s.rootKey sh).1 = _
    rw [houts, h.root]
    rfl
  · show some (kdfRoot c.toKeyAlg s.rootKey sh).2 = _
    rw [houts, h.root]
    rfl

theorem Waits.encrypt (hlen : ∀ i s f b, (c.bytes (c.hkdf i s f b)).length = 32)
    (hdh : GoodDh c) (h : Waits c rk p (q :: t) s) (hd : s.dhr = some (c.publicKey q))
    (hpt : AeadWorks c pt) :
    ∃ w k s', ratchetEncryptKeyed c pt s = .ok (w, k) s' ∧
      w.header = { dh := c.publicKey p, n := 0, pn := s.PN } ∧
      Sealed c rk (p :: q :: t) pt w k ∧ Speaks c rk p (q :: t) s' ∧ s'.Ns = 1 ∧
      s'.PN = s.PN ∧ SameRecv s s' := by
  obtain ⟨s₁, hsame, hsp, hN, hP, hr⟩ := h.opens hdh hd
  obtain ⟨w, k, s', he, hhead, hseal, hsp', hNs, hPN, hrecv⟩ :=
    hsp.encrypt hlen hpt (by rw [hN]; decide)
  refine ⟨w, k, s', (hsame pt).trans he, ?_, hseal, hsp', ?_, hPN.trans hP, hr.trans hrecv⟩
  · rw [hhead, hN, hP]
    rfl
  · rw [hNs, hN]

/-- What passes the checks at the head of `ratchet_decrypt`. -/
theorem not_refused_new {heard : List P} (h : Hears c rk cap heard D s)
    (hc : checkHeader w = .ok ()) (hD : (w.header.dh, w.header.n.toNat) ∉ D)
    (hN : s.dhr = some w.header.dh → s.Nr ≤ w.header.n.toNat) : ¬ Refused s w := by
  rintro (⟨e, he⟩ | hid | ⟨-, hd, hlt⟩)
  · rw [hc] at he
    cases he
  · simp only [ReceivedIdsStore.contains, decide_eq_true_eq] at hid
    exact hD (h.seen _ hid)
  · have := hN hd
    omega

/-- A message of a chain already heard: pending ones come from the store,
others must be of the newest chain. -/
theorem Hears.accept (hlen : ∀ i s f b, (c.bytes (c.hkdf i s f b)).length = 32)
    (hdh : GoodDh c) {heard : List P} (hnd : (heard.map c.publicKey).Nodup)
    (h : Hears c rk cap heard D s) (hsuf : (q :: t) <:+ heard)
    (hw : Sealed c rk (q :: t) pt w k)
    (hD : (w.header.dh, w.header.n.toNat) ∉ D)
    (hor : (w.header.dh, w.header.n.toNat) ∈ pending D ∨ q :: t = heard)
    (hhi : w.header.n.toNat ≤ nextExpected D w.header.dh + maxSkipDistance)
    (hcap : (pending ((w.header.dh, w.header.n.toNat) :: D)).card ≤ cap) (g : P) :
    ∃ s', ratchetDecryptKeyed c w g s = .ok (pt, k) s' ∧ SameSend s s' ∧
      Hears c rk cap heard ((w.header.dh, w.header.n.toNat) :: D) s' := by
  by_cases hp : (w.header.dh, w.header.n.toNat) ∈ pending D
  · exact h.accept_late hlen hdh hnd hsuf hw hp g
  · obtain rfl := hor.resolve_left hp
    have hq : c.publicKey q = w.header.dh := Option.some.inj hw.dh
    have hlo : nextExpected D w.header.dh ≤ w.header.n.toNat := by
      by_contra hlt
      exact hp (pending_of_lt hD (by omega))
    obtain ⟨hNr, hck⟩ := h.chain q t rfl
    rw [hq] at hNr
    have hr : ¬ Refused s w := not_refused_new h (hw.checked hdh) hD (fun _ => by omega)
    have hno : s.skippedMessageKeys.has w.header.dh w.header.n.toNat = false := by
      rw [SkippedMessageKeys.has, Bool.eq_false_iff]
      exact fun hhas => hp ((h.has_iff _).mp hhas)
    rw [decrypt_chain hr hno,
      ensureReceivingChain_same (h.remote.trans (congrArg some hq)) hck]
    exact h.accept_ahead hlen hdh hw hlo hhi hcap

/-- A message under a key that a speaking party does not have: it turns to the
peer's next chain, and waits under the generated key. -/
theorem Speaks.ratchets (hdh : GoodDh c) {q' : P} {t' : List P} (hsp : Speaks c rk q' t' s)
    (hq : c.publicKey q = w.header.dh) (hr : ¬ Refused s w)
    (hno : s.skippedMessageKeys.has w.header.dh w.header.n.toNat = false)
    (hdhr : s.dhr ≠ some w.header.dh) (g : P) :
    ∃ s₁, ratchetDecryptKeyed c w g s = decryptOnChain c w s₁ ∧
      Waits c rk g (q :: q' :: t') s₁ ∧ s₁.Ns = 0 ∧ s₁.PN = s.Ns ∧
      NewChain c rk (q :: q' :: t') w.header.dh s s₁ := by
  have hturn : (s.dhr = none ∧ s.sendingChainKey.isSome) ∨
      ∃ d, s.dhr = some d ∧ d ≠ w.header.dh := by
    cases hd : s.dhr with
    | none => exact Or.inl ⟨rfl, by rw [hsp.send]; rfl⟩
    | some d => exact Or.inr ⟨d, rfl, fun he => hdhr (hd.trans (congrArg some he))⟩
  obtain ⟨sh, -, hsh, houts⟩ := outs_cons hdh q q' t'
  have hdhw : dhWith c s.dhsPrivate w.header.dh = .ok sh := by
    rw [hsp.own, ← hq, dhWith_some (hdh.public_length q), hsh]
  rw [decrypt_chain hr hno, ensureReceivingChain_turn hturn, dhRatchetReceive_done hdhw]
  refine ⟨_, rfl, ⟨?_, rfl, rfl⟩, rfl, rfl, ⟨rfl, rfl, ?_, rfl, rfl⟩⟩
  · show (kdfRoot c.toKeyAlg s.rootKey sh).1 = _
    rw [houts, hsp.root]
    rfl
  · show some (kdfRoot c.toKeyAlg s.rootKey sh).2 = _
    rw [houts, hsp.root]
    rfl

/-- The responder's first message: the chain is the one it was born with. -/
theorem Waits.boots (hwt : Waits c rk p [q] s) (hr : ¬ Refused s w)
    (hno : s.skippedMessageKeys.has w.header.dh w.header.n.toNat = false)
    (hd : s.dhr = none) (hNr : s.Nr = 0)
    (hck : s.receivingChainKey = some (chainKey c.toKeyAlg rk (outs c [q]) 0)) (g : P) :
    ∃ s₁, ratchetDecryptKeyed c w g s = decryptOnChain c w s₁ ∧ SameSend s s₁ ∧
      NewChain c rk [q] w.header.dh s s₁ := by
  rw [decrypt_chain hr hno, ensureReceivingChain_boot hd hck hwt.send]
  exact ⟨_, rfl, ⟨rfl, rfl, rfl, rfl, rfl⟩, ⟨rfl, hNr, hck, rfl, rfl⟩⟩

/-- What a party has heard, when it is about to hear a new chain. -/
theorem Hears.opens {old : List P} {dh : Bytes} (h : Hears c rk cap old D s)
    (ho : NewChain c rk (q :: t) dh s s') (hq : c.publicKey q = dh) (hold : old <:+ q :: t)
    (hzero : nextExpected D dh = 0) : Hears c rk cap (q :: t) D s' := by
  refine ⟨?_, ?_, ?_, fun id k₁ hm => ?_, ?_, ?_, ?_, fun x u he => ?_, fun id hid => ?_⟩
  · rw [ho.skipped]
    exact h.room
  · rw [ho.skipped]
    exact h.nodup
  · rw [ho.skipped]
    exact h.pend
  · rw [ho.skipped] at hm
    obtain ⟨x, u, hsuf, hrest⟩ := h.named id k₁ hm
    exact ⟨x, u, hsuf.trans hold, hrest⟩
  · rw [ho.ids]
    exact h.seen
  · rw [ho.ids]
    exact h.cache
  · rw [ho.remote, ← hq]
    rfl
  · injection he with he _
    rw [← he, hq, hzero, ho.counter]
    exact ⟨rfl, ho.chain⟩
  · obtain ⟨x, u, hsuf, hx⟩ := h.origin id hid
    exact ⟨x, u, hsuf.trans hold, hx⟩

/-- The first message heard of a new chain, by a party still speaking on the
chain before it: it turns, and waits under the generated key. -/
theorem Speaks.turn (hlen : ∀ i s f b, (c.bytes (c.hkdf i s f b)).length = 32)
    (hdh : GoodDh c) {q' : P} {t' : List P}
    (hnd : ((q :: q' :: t').map c.publicKey).Nodup) (hsp : Speaks c rk q' t' s)
    (h : Hears c rk cap t' D s) (hw : Sealed c rk (q :: q' :: t') pt w k)
    (hhi : w.header.n.toNat ≤ nextExpected D w.header.dh + maxSkipDistance)
    (hcap : (pending ((w.header.dh, w.header.n.toNat) :: D)).card ≤ cap) (g : P) :
    ∃ s', ratchetDecryptKeyed c w g s = .ok (pt, k) s' ∧
      Waits c rk g (q :: q' :: t') s' ∧ s'.PN = s.Ns ∧
      Hears c rk cap (q :: q' :: t') ((w.header.dh, w.header.n.toNat) :: D) s' := by
  have hq : c.publicKey q = w.header.dh := Option.some.inj hw.dh
  have htail : t' <:+ q :: q' :: t' := (List.suffix_cons q' t').trans (List.suffix_cons q _)
  -- Nothing has been delivered under this key.
  have hnone : ∀ id ∈ D, id.1 ≠ w.header.dh := by
    intro id hid he
    obtain ⟨x, u, hsuf, hx⟩ := h.origin id hid
    have heq := suffix_unique hnd (hsuf.trans htail) (List.suffix_refl _)
      (hx.trans (he.trans hq.symm))
    have hl := hsuf.length_le
    rw [heq] at hl
    simp only [List.length_cons] at hl
    omega
  have hzero : nextExpected D w.header.dh = 0 := by
    by_contra hne
    obtain ⟨n, -, hn⟩ := lt_nextExpected.mp (Nat.pos_of_ne_zero hne)
    exact hnone _ hn rfl
  have hdhr : s.dhr ≠ some w.header.dh := by
    rw [h.remote]
    intro he
    cases t' with
    | nil => cases he
    | cons x u =>
        have he : c.publicKey x = w.header.dh := Option.some.inj he
        have := suffix_unique hnd htail (List.suffix_refl _) (he.trans hq.symm)
        have hl := congrArg List.length this
        simp at hl
  have hr : ¬ Refused s w := not_refused_new h (hw.checked hdh)
    (fun hm => hnone _ hm rfl) (fun he => absurd he hdhr)
  have hno : s.skippedMessageKeys.has w.header.dh w.header.n.toNat = false := by
    rw [SkippedMessageKeys.has, Bool.eq_false_iff]
    intro hhas
    obtain ⟨-, n, -, hn⟩ := mem_pending.mp ((h.has_iff _).mp hhas)
    exact hnone _ hn rfl
  obtain ⟨s₁, hcall, hwaits, -, hPN, hopens⟩ := hsp.ratchets hdh hq hr hno hdhr g
  obtain ⟨s', hdec, hsend, hhears'⟩ := (h.opens hopens hq htail hzero).accept_ahead hlen hdh hw
    (hzero ▸ Nat.zero_le _) hhi hcap
  exact ⟨s', hcall.trans hdec, hwaits.frame hsend, hsend.prev.trans hPN, hhears'⟩

/-- The responder's first message binds its peer's key. -/
theorem Waits.boot (hlen : ∀ i s f b, (c.bytes (c.hkdf i s f b)).length = 32)
    (hdh : GoodDh c) (hwt : Waits c rk p [q] s) (h : Hears c rk cap [] D s)
    (hNr : s.Nr = 0)
    (hck : s.receivingChainKey = some (chainKey c.toKeyAlg rk (outs c [q]) 0))
    (hw : Sealed c rk [q] pt w k)
    (hhi : w.header.n.toNat ≤ nextExpected D w.header.dh + maxSkipDistance)
    (hcap : (pending ((w.header.dh, w.header.n.toNat) :: D)).card ≤ cap) (g : P) :
    ∃ s', ratchetDecryptKeyed c w g s = .ok (pt, k) s' ∧ Waits c rk p [q] s' ∧
      s'.PN = s.PN ∧
      Hears c rk cap [q] ((w.header.dh, w.header.n.toNat) :: D) s' := by
  have hq : c.publicKey q = w.header.dh := Option.some.inj hw.dh
  obtain rfl : D = [] := by
    cases D with
    | nil => rfl
    | cons id D =>
        obtain ⟨x, u, hsuf, -⟩ := h.origin id List.mem_cons_self
        simp at hsuf
  have hd : s.dhr = none := h.remote
  have hr : ¬ Refused s w := not_refused_new h (hw.checked hdh) (by simp)
    (fun he => by rw [hd] at he; cases he)
  have hno : s.skippedMessageKeys.has w.header.dh w.header.n.toNat = false := by
    rw [SkippedMessageKeys.has, Bool.eq_false_iff]
    intro hhas
    have := (h.has_iff _).mp hhas
    simp at this
  obtain ⟨s₁, hcall, hsame, hopens⟩ := hwt.boots hr hno hd hNr hck g
  obtain ⟨s', hdec, hsend, hhears'⟩ := (h.opens hopens hq List.nil_suffix rfl).accept_ahead hlen
    hdh hw (Nat.zero_le _) hhi hcap
  exact ⟨s', hcall.trans hdec, (hwt.frame hsame).frame hsend, hsend.prev.trans hsame.prev,
    hhears'⟩

end Party

end GhostChat.Proofs
