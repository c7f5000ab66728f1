import GhostChat.Proofs.Conversation
import GhostChat.Proofs.Bounded

/-!
# A delivery after any loss

`Proofs/Conversation.lean` follows deliveries that succeed. Here is what is
left to say when a message may have been lost before it, as many as there are.

A call that does not turn leaves the sending side and the remote key alone
(`Stays`). A call that turns does so before the distance is measured and before
anything is filed, so after too long a loss it has turned and raises
(`decryptOnChain_fatal`). It has then skipped nothing: the counter of the new
chain is still at zero, and every later message of that chain is as far away.
After any other loss the first message of a chain is opened
(`decryptOnChain_lively`), whatever had to be evicted for it.
-/

namespace GhostChat.Proofs

open GhostChat.Lib GhostChat.Lib.Effect GhostChat.Ref

variable {K P C : Type} {c : Crypto K P C} {a : KeyAlg K} {rk : K}
  {s s' s₀ : DoubleRatchetState K P} {pt : Bytes} {w : RatchetWireMessage C} {k : K} {g : P}
  {dh : Option Bytes}

/-! ## Calls that do not turn -/

/-- The sending side and the remote key stay, and whatever is filed is under
`dh`. -/
structure Stays (dh : Option Bytes) (s s' : DoubleRatchetState K P) : Prop where
  send : SameSend s s'
  remote : s'.dhr = s.dhr
  chain : s.receivingChainKey.isSome → s'.receivingChainKey.isSome
  stored : ∀ id ∈ Odict.keys s'.skippedMessageKeys.store,
    dh = some id.1 ∨ id ∈ Odict.keys s.skippedMessageKeys.store

namespace Stays

theorem refl (dh : Option Bytes) (s : DoubleRatchetState K P) : Stays dh s s :=
  ⟨⟨rfl, rfl, rfl, rfl, rfl⟩, rfl, id, fun _ => Or.inr⟩

theorem mono (h : Stays none s s') (dh : Option Bytes) : Stays dh s s' :=
  { h with stored := fun id hid => Or.inr ((h.stored id hid).resolve_left nofun) }

/-- The receiving chain is written, and the stores are. -/
theorem recv (h : Stays dh s₀ s) {ck : Option K} {store : Odict (Bytes × Nat) K} {Nr : Nat}
    (hck : s.receivingChainKey.isSome → ck.isSome)
    (hstore : ∀ id ∈ Odict.keys store,
      dh = some id.1 ∨ id ∈ Odict.keys s.skippedMessageKeys.store) :
    Stays dh s₀ (withRecv s ck store Nr) :=
  ⟨⟨h.send.root, h.send.own, h.send.chain, h.send.counter, h.send.prev⟩, h.remote,
    fun hs => hck (h.chain hs), fun id hid => (hstore id hid).elim Or.inl (h.stored id)⟩

theorem record (h : Stays dh s₀ s) (r : ReceivedIdsStore) :
    Stays dh s₀ { s with receivedIds := r } :=
  ⟨⟨h.send.root, h.send.own, h.send.chain, h.send.counter, h.send.prev⟩, h.remote, h.chain,
    h.stored⟩

end Stays

theorem keys_sublist {κ ν : Type} {d d' : Odict κ ν} (h : d'.Sublist d) {key : κ}
    (hk : key ∈ Odict.keys d') : key ∈ Odict.keys d :=
  (h.map Prod.fst).subset hk

/-- What one call of `add` leaves in the store. -/
theorem skipped_add_keys (hlen : ∀ i s f b, (a.bytes (a.hkdf i s f b)).length = 32)
    {d : Bytes} (hd : d.length = 32) (n : Nat) (ck : K) (sk : SkippedMessageKeys K) :
    (∃ e store, SkippedMessageKeys.add a d n (kdfChain a ck).2 sk
        = .error e { sk with store := store } ∧ store.Sublist sk.store ∧
        (2 ^ 32 ≤ n ∨ sk.maxKeys = 0)) ∨
    ∃ store, SkippedMessageKeys.add a d n (kdfChain a ck).2 sk
        = .ok () { sk with store := store } ∧
      ∀ id ∈ Odict.keys store, id = (d, n) ∨ id ∈ Odict.keys sk.store := by
  have hkey : (a.bytes (kdfChain a ck).2).length = 32 := hlen _ _ _ _
  rcases skipped_add_cases (n := n) hd hkey sk with herr | ⟨-, -, hok⟩
  · exact Or.inl herr
  · refine Or.inr ⟨_, hok, fun id hid => ?_⟩
    obtain ⟨e, he, rfl⟩ := List.mem_map.mp hid
    rcases Odict.mem_set he with rfl | ⟨hmem, -⟩
    · exact Or.inl rfl
    · exact Or.inr (keys_sublist (evictTo_sublist _ _) (List.mem_map_of_mem hmem))

/-- A round of skipping files under the key in use, or evicts and raises. -/
theorem skipReceivingLoop_stays (hlen : ∀ i s f b, (a.bytes (a.hkdf i s f b)).length = 32)
    {d : Bytes} (hd : d.length = 32) (upTo fuel : Nat) (h : Stays (some d) s₀ s) :
    Stays (some d) s₀ (after (skipReceivingLoop a d upTo fuel s)) := by
  induction fuel generalizing s with
  | zero => exact h
  | succ fuel ih =>
      by_cases hlt : s.Nr < upTo
      · cases hck : s.receivingChainKey with
        | none =>
            rw [skipReceivingLoop]
            simp only [bind_apply, get_apply, if_pos hlt, hck, throw_apply, after_error]
            exact h
        | some ck =>
            rcases skipped_add_keys hlen hd s.Nr ck s.skippedMessageKeys with
              ⟨e, store, hadd, hsub, -⟩ | ⟨store, hadd, hkeys⟩
            · rw [skipReceivingLoop_refused hlt hck hadd]
              exact h.recv (fun _ => rfl) fun id hid => Or.inr (keys_sublist hsub hid)
            · rw [skipReceivingLoop_filed hlt hck hadd]
              exact ih (h.recv (fun _ => rfl) fun id hid =>
                (hkeys id hid).imp_left fun he => by rw [he])
      · rw [skipReceivingLoop_done (by omega)]
        exact h

theorem openWith_stays (mk : K) (failed : String) (h : Stays dh s₀ s) :
    Stays dh s₀ (after (openWith c mk w failed s)) := by
  obtain ⟨r, hr⟩ := openWith_after (c := c) (s := s) mk w failed
  rw [hr]
  exact h.record r

/-- The end of a decryption, on the chain in use. -/
theorem decryptOnChain_stays (hlen : ∀ i s f b, (c.bytes (c.hkdf i s f b)).length = 32)
    (hdlen : w.header.dh.length = 32) (hd : s.dhr = some w.header.dh)
    (hck : s.receivingChainKey.isSome) (h : Stays (some w.header.dh) s₀ s) :
    Stays (some w.header.dh) s₀ (after (decryptOnChain c w s)) := by
  obtain ⟨ck, hck⟩ := Option.isSome_iff_exists.mp hck
  by_cases hfar : w.header.n.toNat < s.Nr ∨ s.Nr + maxSkipDistance < w.header.n.toNat
  · obtain ⟨e, he⟩ := decryptOnChain_far (c := c) hck hfar
    rw [he]
    exact h
  · rw [decryptOnChain_near (by omega) (by omega), skipReceivingUntil_some hck hd]
    have hloop := skipReceivingLoop_stays hlen hdlen w.header.n.toNat
      (w.header.n.toNat - s.Nr) h
    cases hrun : skipReceivingLoop c.toKeyAlg w.header.dh w.header.n.toNat
        (w.header.n.toNat - s.Nr) s with
    | error e s₁ =>
        rw [hrun] at hloop
        exact hloop
    | ok u s₁ =>
        rw [hrun] at hloop
        cases hck₁ : s₁.receivingChainKey with
        | none =>
            simp only [hck₁]
            exact hloop
        | some ck₁ =>
            simp only [hck₁, after_keyed]
            exact openWith_stays _ _ (hloop.recv (fun _ => rfl) fun _ => Or.inr)

/-- A stored key is used up, and that is all. -/
theorem decrypt_stored (hr : ¬ Refused s w)
    (hhas : s.skippedMessageKeys.has w.header.dh w.header.n.toNat = true) (g : P) :
    (after (ratchetDecryptKeyed c w g s)).Nr = s.Nr ∧
      Stays none s (after (ratchetDecryptKeyed c w g s)) := by
  obtain ⟨mk, hget⟩ := Odict.has_eq_true_iff.mp hhas
  rw [decrypt_skipped hr hget, after_keyed]
  refine ⟨?_, openWith_stays mk _ ((Stays.refl _ s).recv id fun key hkey =>
    Or.inr (keys_sublist List.filter_sublist hkey))⟩
  obtain ⟨r, hopen⟩ := openWith_after (c := c) (s := withRecv s s.receivingChainKey
    (Odict.erase s.skippedMessageKeys.store (w.header.dh, w.header.n.toNat)) s.Nr) mk w
    "AEAD verification failed (skipped-key path)"
  rw [hopen]
  rfl

/-- On the chain in use. -/
theorem decrypt_same (hlen : ∀ i s f b, (c.bytes (c.hkdf i s f b)).length = 32)
    (hr : ¬ Refused s w)
    (hno : s.skippedMessageKeys.has w.header.dh w.header.n.toNat = false)
    (hd : s.dhr = some w.header.dh) (hck : s.receivingChainKey.isSome) (g : P) :
    Stays (some w.header.dh) s (after (ratchetDecryptKeyed c w g s)) := by
  obtain ⟨ck, hck'⟩ := Option.isSome_iff_exists.mp hck
  rw [decrypt_chain hr hno, ensureReceivingChain_same hd hck']
  exact decryptOnChain_stays hlen (checkHeader_ok (not_refused hr).1).1 hd hck (Stays.refl _ s)

/-! ## The first message of a chain -/

/-- Too far for the first message of a chain, or with no room for what it jumps
over. -/
def Fatal (cap n : Nat) : Prop := maxSkipDistance < n ∨ (cap = 0 ∧ 0 < n)

theorem Fatal.later {cap n m : Nat} (h : Fatal cap n) (hle : n ≤ m) : Fatal cap m := by
  rcases h with h | ⟨hz, hpos⟩
  · exact Or.inl (by omega)
  · exact Or.inr ⟨hz, by omega⟩

/-- It raises, nothing is filed, and the counter stays at zero. -/
theorem decryptOnChain_fatal (hlen : ∀ i s f b, (c.bytes (c.hkdf i s f b)).length = 32)
    (hdlen : w.header.dh.length = 32) (hd : s.dhr = some w.header.dh)
    (hck : s.receivingChainKey.isSome) (hNr : s.Nr = 0)
    (hfatal : Fatal s.skippedMessageKeys.maxKeys w.header.n.toNat) :
    ∃ e s', decryptOnChain c w s = .error e s' ∧ s'.Nr = 0 ∧ Stays none s s' := by
  obtain ⟨ck, hck⟩ := Option.isSome_iff_exists.mp hck
  by_cases hfar : maxSkipDistance < w.header.n.toNat
  · have hfar : w.header.n.toNat < s.Nr ∨ s.Nr + maxSkipDistance < w.header.n.toNat := by omega
    obtain ⟨e, he⟩ := decryptOnChain_far (c := c) hck hfar
    exact ⟨e, s, he, hNr, Stays.refl _ s⟩
  · obtain ⟨hz, hpos⟩ := hfatal.resolve_left hfar
    obtain ⟨fuel, hfuel⟩ : ∃ fuel, w.header.n.toNat - s.Nr = fuel + 1 :=
      ⟨w.header.n.toNat - 1, by omega⟩
    have hkey : (c.bytes (kdfChain c.toKeyAlg ck).2).length = 32 := hlen _ _ _ _
    rcases skipped_add_cases (n := s.Nr) hdlen hkey s.skippedMessageKeys with
      ⟨e, store, hadd, hsub, -⟩ | ⟨-, hroom, -⟩
    · rw [decryptOnChain_near (by omega) (by omega), skipReceivingUntil_some hck hd, hfuel,
        skipReceivingLoop_refused (by omega) hck hadd]
      refine ⟨e, _, rfl, hNr, ?_⟩
      show Stays none s (withRecv s (some _) store s.Nr)
      exact (Stays.refl _ s).recv (fun _ => rfl) fun id hid => Or.inr (keys_sublist hsub hid)
    · omega

/-- A chain on which nothing was ever opened stays so. -/
theorem decrypt_fatal (hlen : ∀ i s f b, (c.bytes (c.hkdf i s f b)).length = 32)
    (hr : ¬ Refused s w)
    (hno : s.skippedMessageKeys.has w.header.dh w.header.n.toNat = false)
    (hd : s.dhr = some w.header.dh) (hck : s.receivingChainKey.isSome) (hNr : s.Nr = 0)
    (hfatal : Fatal s.skippedMessageKeys.maxKeys w.header.n.toNat) (g : P) :
    ∃ e s', ratchetDecryptKeyed c w g s = .error e s' ∧ s'.Nr = 0 ∧ Stays none s s' := by
  obtain ⟨ck, hck'⟩ := Option.isSome_iff_exists.mp hck
  rw [decrypt_chain hr hno, ensureReceivingChain_same hd hck']
  exact decryptOnChain_fatal hlen (checkHeader_ok (not_refused hr).1).1 hd hck hNr hfatal

/-- In reach, the first message of a chain is opened. -/
theorem decryptOnChain_lively (hlen : ∀ i s f b, (c.bytes (c.hkdf i s f b)).length = 32)
    (hdh : GoodDh c) {ks : List P} (hw : Sealed c rk ks pt w k)
    (hd : s.dhr = some w.header.dh) (hNr : s.Nr = 0)
    (hck : s.receivingChainKey = some (chainKey c.toKeyAlg rk (outs c ks) 0))
    (hcache : 0 < s.receivedIds.maxSize)
    (hlive : ¬ Fatal s.skippedMessageKeys.maxKeys w.header.n.toNat) :
    ∃ s', decryptOnChain c w s = .ok (pt, k) s' := by
  have hdlen := (checkHeader_ok (hw.checked hdh)).1
  have hnear : w.header.n.toNat ≤ maxSkipDistance := Nat.le_of_not_lt fun h => hlive (Or.inl h)
  have hroom : s.Nr < w.header.n.toNat → 0 < s.skippedMessageKeys.maxKeys := by
    intro hlt
    by_contra hnot
    exact hlive (Or.inr (by omega))
  have hck' : s.receivingChainKey = some (chainKey c.toKeyAlg rk (outs c ks) s.Nr) := by
    rw [hck, hNr]
  -- With room for one key, skipping evicts and goes on.
  have hloop := skipReceivingLoop_pushes hlen hdlen (Nat.le_of_lt hw.number.2)
    (w.header.n.toNat - s.Nr) s _ hck' (by omega) (by omega) hroom
  have hhead : chainKeyAt c.toKeyAlg (chainKey c.toKeyAlg rk (outs c ks) s.Nr)
      (w.header.n.toNat - s.Nr) = chainKey c.toKeyAlg rk (outs c ks) w.header.n.toNat := by
    rw [chainKeyAt_chainKey, Nat.add_sub_cancel' (by omega)]
  have hkey : (kdfChain c.toKeyAlg
      (chainKey c.toKeyAlg rk (outs c ks) w.header.n.toNat)).2 = k := hw.key.symm
  rw [decryptOnChain_near (by omega) (by omega), skipReceivingUntil_some hck' hd, hloop]
  simp only [withRecv, hhead, hkey]
  obtain ⟨r, hopen, -, -⟩ := hw.opened (hw.key ▸ hlen _ _ _ _)
    (s := withRecv s (some (kdfChain c.toKeyAlg
        (chainKey c.toKeyAlg rk (outs c ks) w.header.n.toNat)).1)
      (Odict.pushAll s.skippedMessageKeys.maxKeys s.skippedMessageKeys.store
        (chainItems c.toKeyAlg w.header.dh (chainKey c.toKeyAlg rk (outs c ks) s.Nr) s.Nr
          (w.header.n.toNat - s.Nr)))
      (w.header.n.toNat + 1)) hcache "AEAD verification failed"
  rw [withRecv] at hopen
  rw [hopen]
  exact ⟨_, rfl⟩

/-! ## Encryptions that return -/

/-- An encryption on the chain in use. -/
theorem Speaks.sent {q : P} {t : List P} (hinv : AeadInverse c) (h : Speaks c rk q t s)
    (he : ratchetEncryptKeyed c pt s = .ok (w, k) s') :
    w.header = { dh := c.publicKey q, n := s.Ns, pn := s.PN } ∧
      (s.Ns < 2 ^ 32 → Sealed c rk (q :: t) pt w k) ∧ Speaks c rk q t s' ∧
      s'.Ns = s.Ns + 1 ∧ s'.PN = s.PN ∧ SameRecv s s' := by
  let s₁ : DoubleRatchetState K P := { s with
    sendingChainKey := some (chainKey c.toKeyAlg rk (outs c (q :: t)) (s.Ns + 1)) }
  have hnext : nextSendingKey c s
      = .ok (msgKey c.toKeyAlg rk (outs c (q :: t)) s.Ns) s₁ := by
    rw [nextSendingKey_open h.send, ← chainKey_succ]
    rfl
  rw [ratchetEncryptKeyed_eq, hnext] at he
  rcases sealWith_cases (c := c) (s := s₁) (msgKey c.toKeyAlg rk (outs c (q :: t)) s.Ns) pt with
    ⟨e, hs⟩ | ⟨p, nonce, ct, hp, hnonce, henc, hs⟩
  · simp only [hs] at he
    cases he
  · simp only [hs] at he
    cases he
    obtain rfl : p = q := Option.some.inj (hp.symm.trans h.own)
    exact ⟨rfl, fun hN => ⟨rfl, ⟨Int.natCast_nonneg _, hN⟩, rfl, hnonce,
      hinv _ _ _ _ _ henc⟩, ⟨h.root, h.own, rfl⟩, rfl, rfl, ⟨rfl, rfl, rfl, rfl, rfl⟩⟩

/-- An encryption that opens the next chain. -/
theorem Waits.sent {q p : P} {t : List P} (hinv : AeadInverse c) (hdh : GoodDh c)
    (h : Waits c rk p (q :: t) s) (hd : s.dhr = some (c.publicKey q))
    (he : ratchetEncryptKeyed c pt s = .ok (w, k) s') :
    w.header = { dh := c.publicKey p, n := 0, pn := s.PN } ∧
      Sealed c rk (p :: q :: t) pt w k ∧ Speaks c rk p (q :: t) s' ∧
      s'.Ns = 1 ∧ s'.PN = s.PN ∧ SameRecv s s' := by
  obtain ⟨s₁, hsame, hsp, hN, hP, hr⟩ := h.opens hdh hd
  rw [hsame] at he
  obtain ⟨hhead, hseal, hsp', hNs, hPN, hrecv⟩ := hsp.sent hinv he
  refine ⟨?_, hseal (by rw [hN]; decide), hsp', ?_, hPN.trans hP, hr.trans hrecv⟩
  · rw [hhead, hN, hP]
    rfl
  · rw [hNs, hN]

end GhostChat.Proofs
