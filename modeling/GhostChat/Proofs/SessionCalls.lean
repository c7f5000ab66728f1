import GhostChat.Proofs.Honest
import GhostChat.Ref.SessionManager

/-!
# What each call of the protocol layer can do

The methods of the second ratchet, of the replay cache and of the fork
detector run symbolically, once, as `Proofs/Calls.lean` does for the client's
engine. Derived keys are 32 bytes, so the length checks of the AEAD never
fire; what is left of `encrypt` and `decrypt` is a chain step and one call of
the cipher.

The guard in front of the ratchet has two outcomes that matter later: an
envelope the cache refuses leaves everything but the reset flag alone, and
every other envelope is in the cache from then on, whatever becomes of it
(`guard_recorded`).
-/

namespace GhostChat.Proofs

open GhostChat.Lib GhostChat.Lib.Effect GhostChat.Ref

variable {K P C : Type} {c : Crypto K P C} {a : KeyAlg K} {s : RatchetState K P}

/-! ## The cipher -/

/-- The nonce of message `n` under `mk`. -/
def messageNonce (a : KeyAlg K) (mk : K) (n : Nat) : Bytes := xorCounter ((a.bytes mk).take 12) n

theorem messageNonce_length {mk : K} (h : (a.bytes mk).length = 32) (n : Nat) :
    (messageNonce a mk n).length = 12 := by
  rw [messageNonce, xorCounter_length, List.length_take, h]
  rfl

theorem mkToNonce_ok {mk : K} (h : (a.bytes mk).length = 32) (n : Nat) :
    mkToNonce (a.bytes mk) n = .ok (messageNonce a mk n) := by
  rw [mkToNonce, if_neg]
  · rfl
  · rw [List.length_take, h]
    decide

theorem chachaEncrypt_eq {mk : K} (h : (c.bytes mk).length = 32) (n : Nat) (pt ad : Bytes) :
    chachaEncrypt c mk (messageNonce c.toKeyAlg mk n) pt ad
      = match c.encrypt mk (messageNonce c.toKeyAlg mk n) pt ad with
        | some ct => .ok ct
        | none => .error
            (.overflowError "Data or associated data too long. Max 2**31 - 1 bytes") :=
  (if_neg (not_not.mpr h)).trans (if_neg (not_not.mpr (messageNonce_length h n)))

theorem chachaDecrypt_eq {mk : K} (h : (c.bytes mk).length = 32) (n : Nat) (ct : C) (ad : Bytes) :
    chachaDecrypt c mk (messageNonce c.toKeyAlg mk n) ct ad
      = match c.decrypt mk (messageNonce c.toKeyAlg mk n) ct ad with
        | some p => .ok p
        | none => .error .invalidTag :=
  (if_neg (not_not.mpr h)).trans (if_neg (not_not.mpr (messageNonce_length h n)))

theorem chachaDecrypt_ok {k : K} {nonce ad p : Bytes} {ct : C}
    (h : chachaDecrypt c k nonce ct ad = .ok p) : c.decrypt k nonce ct ad = some p := by
  unfold chachaDecrypt at h
  split at h
  · cases h
  · split at h
    · cases h
    · split at h
      · next p' hp => cases h; exact hp
      · cases h

theorem chachaEncrypt_ok {k : K} {nonce ad pt : Bytes} {ct : C}
    (h : chachaEncrypt c k nonce pt ad = .ok ct) : c.encrypt k nonce pt ad = some ct := by
  unfold chachaEncrypt at h
  split at h
  · cases h
  · split at h
    · cases h
    · split at h
      · next ct' hct => cases h; exact hct
      · cases h

namespace Ratchet

/-- `sealWith` writes `Ns` when it returns and nothing when it raises. -/
theorem sealWith_cases (mk : K) (pt ad : Bytes) :
    (∃ e, DoubleRatchet.sealWith c mk pt ad s = .error e s) ∨
    ∃ nonce ct, mkToNonce (c.bytes mk) s.Ns = .ok nonce ∧ c.encrypt mk nonce pt ad = some ct ∧
      DoubleRatchet.sealWith c mk pt ad s
        = .ok ⟨⟨c.publicKey s.dhs, s.PN, s.Ns⟩, ct⟩ { s with Ns := s.Ns + 1 } := by
  simp only [DoubleRatchet.sealWith, bind_apply, get_apply]
  cases hn : mkToNonce (c.bytes mk) s.Ns with
  | error e => exact Or.inl ⟨e, rfl⟩
  | ok nonce =>
      simp only [lift_ok]
      cases hct : chachaEncrypt c mk nonce pt ad with
      | error e => exact Or.inl ⟨e, rfl⟩
      | ok ct => exact Or.inr ⟨nonce, ct, rfl, chachaEncrypt_ok hct, rfl⟩

/-- What `encrypt` returns was sealed under the key it used, with the nonce of
its number; its header has a generated key and numbers that are not negative. -/
theorem encryptKeyed_sealed {pt ad : Bytes} {em : EncryptedMessage C} {k : K}
    {st : RatchetState K P} (h : DoubleRatchet.encryptKeyed c pt ad s = .ok (em, k) st) :
    (∃ nonce, mkToNonce (c.bytes k) em.header.n.toNat = .ok nonce ∧
      c.encrypt k nonce pt ad = some em.ciphertext) ∧
    (∃ p, em.header.dhPub = c.publicKey p) ∧ 0 ≤ em.header.n ∧ 0 ≤ em.header.pn := by
  obtain ⟨mk, s₁, -, h⟩ := bind_ok h
  obtain ⟨em', s₂, hseal, h⟩ := bind_ok h
  cases h
  rcases sealWith_cases (c := c) (s := s₁) k pt ad with ⟨e, he⟩ | ⟨nonce, ct, hnonce, hct, he⟩
  · rw [he] at hseal
    cases hseal
  · rw [he] at hseal
    cases hseal
    exact ⟨⟨nonce, hnonce, hct⟩, ⟨_, rfl⟩, Int.natCast_nonneg _, Int.natCast_nonneg _⟩

theorem openWith_sealed {mk : K} {em : EncryptedMessage C} {ad p : Bytes}
    (h : DoubleRatchet.openWith c mk em ad = .ok p) :
    ∃ nonce, mkToNonce (c.bytes mk) em.header.n.toNat = .ok nonce ∧
      c.decrypt mk nonce em.ciphertext ad = some p := by
  obtain ⟨nonce, hnonce, hdec⟩ := except_bind_ok h
  exact ⟨nonce, hnonce, chachaDecrypt_ok hdec⟩

/-- What `decrypt` returns was opened with the key it used. -/
theorem decryptKeyed_opened {em : EncryptedMessage C} {ad p : Bytes} {g : P} {k : K}
    {st : RatchetState K P} (h : DoubleRatchet.decryptKeyed c em ad g s = .ok (p, k) st) :
    ∃ nonce, mkToNonce (c.bytes k) em.header.n.toNat = .ok nonce ∧
      c.decrypt k nonce em.ciphertext ad = some p := by
  obtain ⟨s₁, s₂, hget, h⟩ := bind_ok h
  cases hget
  split at h
  · obtain ⟨mk, s₃, -, h⟩ := bind_ok h
    obtain ⟨p', hopen, h⟩ := lift_bind_ok h
    cases h
    exact openWith_sealed hopen
  · obtain ⟨-, s₃, -, h⟩ := bind_ok h
    obtain ⟨s₄, s₅, hget, h⟩ := bind_ok h
    cases hget
    split at h
    · cases h
    · obtain ⟨-, s₆, -, h⟩ := bind_ok h
      obtain ⟨mk, s₇, -, h⟩ := bind_ok h
      obtain ⟨p', hopen, h⟩ := lift_bind_ok h
      cases h
      exact openWith_sealed hopen

theorem sealWith_eq {mk : K} (h : (c.bytes mk).length = 32) (pt ad : Bytes) :
    DoubleRatchet.sealWith c mk pt ad s
      = match c.encrypt mk (messageNonce c.toKeyAlg mk s.Ns) pt ad with
        | some ct => .ok ⟨⟨c.publicKey s.dhs, s.PN, s.Ns⟩, ct⟩ { s with Ns := s.Ns + 1 }
        | none => .error
            (.overflowError "Data or associated data too long. Max 2**31 - 1 bytes") s := by
  simp only [DoubleRatchet.sealWith, bind_apply, get_apply, mkToNonce_ok h, lift_ok,
    chachaEncrypt_eq h]
  cases c.encrypt mk (messageNonce c.toKeyAlg mk s.Ns) pt ad <;> rfl

theorem openWith_eq {mk : K} (h : (c.bytes mk).length = 32) (em : EncryptedMessage C)
    (ad : Bytes) :
    DoubleRatchet.openWith c mk em ad
      = match c.decrypt mk (messageNonce c.toKeyAlg mk em.header.n.toNat) em.ciphertext ad with
        | some p => .ok p
        | none => .error .invalidTag := by
  rw [DoubleRatchet.openWith, mkToNonce_ok h]
  exact chachaDecrypt_eq h _ _ _

/-! ## Sending -/

theorem nextSendingKey_open {ck : K} (h : s.ckS = some ck) :
    DoubleRatchet.nextSendingKey c s = .ok (kdfChain c.toKeyAlg ck).2
      { s with ckS := some (kdfChain c.toKeyAlg ck).1 } := by
  simp [DoubleRatchet.nextSendingKey, h]

/-- Without a sending chain the first message opens one. -/
theorem nextSendingKey_lazy {dhr : Bytes} {d : K} (h : s.ckS = none) (hdhr : s.dhr = some dhr)
    (hd : dhWith c (some s.dhs) dhr = .ok d) :
    DoubleRatchet.nextSendingKey c s
      = .ok (kdfChain c.toKeyAlg (kdfRoot c.toKeyAlg s.rootKey d).2).2
        { s with
          rootKey := (kdfRoot c.toKeyAlg s.rootKey d).1
          ckS := some (kdfChain c.toKeyAlg (kdfRoot c.toKeyAlg s.rootKey d).2).1
          Ns := 0 } := by
  simp [DoubleRatchet.nextSendingKey, DoubleRatchet.dhRatchetStep, h, hdhr, hd]

theorem nextSendingKey_refused {dhr : Bytes} {e : Exn} (h : s.ckS = none)
    (hdhr : s.dhr = some dhr) (hd : dhWith c (some s.dhs) dhr = .error e) :
    DoubleRatchet.nextSendingKey c s = .error e s := by
  simp [DoubleRatchet.nextSendingKey, DoubleRatchet.dhRatchetStep, h, hdhr, hd]

/-- With neither a sending chain nor a remote key to make one from. -/
theorem nextSendingKey_mute (h : s.ckS = none) (hdhr : s.dhr = none) :
    DoubleRatchet.nextSendingKey c s = .error (.typeError "key_material must be bytes") s := by
  simp [DoubleRatchet.nextSendingKey, DoubleRatchet.dhRatchetStep, h, hdhr]

/-! ## Receiving -/

theorem skipMessageKeys_done {upTo : Int} (h : upTo ≤ s.Nr) :
    DoubleRatchet.skipMessageKeys a upTo s = .ok () s := by
  have hfuel : (upTo - s.Nr).toNat = 0 := by omega
  simp only [DoubleRatchet.skipMessageKeys, bind_apply, get_apply, hfuel]
  split <;> rfl

/-- With a chain it is the loop. -/
theorem skipMessageKeys_eq {upTo : Int} {ck : K} (hck : s.ckR = some ck) :
    DoubleRatchet.skipMessageKeys a upTo s
      = DoubleRatchet.skipLoop a upTo (upTo - s.Nr).toNat s := by
  simp only [DoubleRatchet.skipMessageKeys, bind_apply, get_apply, ite_run, hck,
    Option.isNone_some, Bool.false_eq_true, if_false]

theorem ensureReceivingChain_same {dh : Bytes} {g : P} {ck : K} (hck : s.ckR = some ck)
    (hdhr : s.dhr = some dh) : DoubleRatchet.ensureReceivingChain c dh g s = .ok () s := by
  simp [DoubleRatchet.ensureReceivingChain, hck, hdhr]

theorem ensureReceivingChain_late {dh : Bytes} {g : P} {d : K} (hck : s.ckR = none)
    (hdhr : s.dhr = some dh) (hd : dhWith c (some s.dhs) dh = .ok d) :
    DoubleRatchet.ensureReceivingChain c dh g s = .ok () { s with
      rootKey := (kdfRoot c.toKeyAlg s.rootKey d).1
      ckR := some (kdfRoot c.toKeyAlg s.rootKey d).2 } := by
  simp [DoubleRatchet.ensureReceivingChain, hck, hdhr, hd]

theorem ensureReceivingChain_turn {dh : Bytes} {g : P} {d : K} (hdhr : s.dhr ≠ some dh)
    (hd : dhWith c (some s.dhs) dh = .ok d) :
    DoubleRatchet.ensureReceivingChain c dh g s = .ok () { s with
      PN := s.Ns, Ns := 0, Nr := 0, dhr := some dh
      rootKey := (kdfRoot c.toKeyAlg s.rootKey d).1
      ckR := some (kdfRoot c.toKeyAlg s.rootKey d).2
      dhs := g
      ckS := none } := by
  simp only [DoubleRatchet.ensureReceivingChain, bind_apply, get_apply, hdhr, and_false,
    if_false, ne_eq, not_false_eq_true, if_true, skipMessageKeys_done (Int.le_refl _),
    DoubleRatchet.dhRatchetReceive, modify_apply, hd, lift_ok]

theorem ensureReceivingChain_lateRefused {dh : Bytes} {g : P} {e : Exn} (hck : s.ckR = none)
    (hdhr : s.dhr = some dh) (hd : dhWith c (some s.dhs) dh = .error e) :
    DoubleRatchet.ensureReceivingChain c dh g s = .error e s := by
  simp [DoubleRatchet.ensureReceivingChain, hck, hdhr, hd]

/-- A new remote key that X25519 refuses: remote key and counters are written,
and the old chain stays. -/
theorem ensureReceivingChain_turnRefused {dh : Bytes} {g : P} {e : Exn} (hdhr : s.dhr ≠ some dh)
    (hd : dhWith c (some s.dhs) dh = .error e) :
    DoubleRatchet.ensureReceivingChain c dh g s
      = .error e { s with PN := s.Ns, Ns := 0, Nr := 0, dhr := some dh } := by
  simp only [DoubleRatchet.ensureReceivingChain, bind_apply, get_apply, hdhr, and_false,
    if_false, ne_eq, not_false_eq_true, if_true, skipMessageKeys_done (Int.le_refl _),
    DoubleRatchet.dhRatchetReceive, modify_apply, hd, lift_error]

/-- One round of the loop. -/
theorem skipLoop_round {upTo : Int} {fuel : Nat} {ck : K} {X : Bytes}
    (hlt : (s.Nr : Int) < upTo) (hck : s.ckR = some ck) (hX : s.dhr = some X) :
    DoubleRatchet.skipLoop a upTo (fuel + 1) s =
      if s.skippedKeys.store.length ≥ s.skippedKeys.maxKeys then
        .error (.skippedKeyStorageLimit "Skipped message key store capacity exceeded")
          { s with ckR := some (kdfChain a ck).1 }
      else DoubleRatchet.skipLoop a upTo fuel { s with
        ckR := some (kdfChain a ck).1
        Nr := s.Nr + 1
        skippedKeys := { s.skippedKeys with
          store := Odict.set s.skippedKeys.store (X, (s.Nr : Int)) (kdfChain a ck).2 } } := by
  simp only [DoubleRatchet.skipLoop, bind_apply, get_apply, ite_run, if_pos hlt, hck,
    modify_apply, DoubleRatchet.onStore, zoom, SkippedKeyStore.add, hX, Option.getD_some]
  by_cases hfull : s.skippedKeys.store.length ≥ s.skippedKeys.maxKeys
  · simp only [if_pos hfull, throw_apply]
  · simp only [if_neg hfull]

theorem skipLoop_stop {upTo : Int} (hlt : ¬ (s.Nr : Int) < upTo) (fuel : Nat) :
    DoubleRatchet.skipLoop a upTo (fuel + 1) s = .ok () s := by
  simp only [DoubleRatchet.skipLoop, bind_apply, get_apply, ite_run, if_neg hlt, pure_apply]

/-- A call on the store keeps what a new store keeps. -/
theorem onStore_keeps {α : Type} {I : RatchetState K P → Prop}
    (hstore : ∀ s sk, I s → I { s with skippedKeys := sk })
    (x : EStateM Exn (SkippedKeyStore K) α) :
    Keeps I (DoubleRatchet.onStore x : DoubleRatchet.Method K P α) := by
  intro s h
  simp only [DoubleRatchet.onStore, zoom]
  cases x s.skippedKeys <;> exact hstore s _ h

/-- Skipping keeps what a new chain key, a new store and a new counter keep. -/
theorem skipMessageKeys_keeps {I : RatchetState K P → Prop}
    (hstore : ∀ s sk, I s → I { s with skippedKeys := sk })
    (hchain : ∀ s ck, I s → I { s with ckR := some ck })
    (hcount : ∀ s n, I s → I { s with Nr := n }) (upTo : Int) :
    Keeps I (DoubleRatchet.skipMessageKeys a upTo : DoubleRatchet.Method K P Unit) := by
  have hloop : ∀ fuel, Keeps I (DoubleRatchet.skipLoop a upTo fuel) := by
    intro fuel
    induction fuel with
    | zero => exact keeps_pure ()
    | succ fuel ih =>
        refine keeps_get_bind fun s h => ?_
        simp only [ite_run]
        split
        · cases s.ckR with
          | none => exact h
          | some ck =>
              refine keeps_bind (keeps_modify fun s h => hchain s _ h) (fun _ => ?_) s h
              refine keeps_bind (onStore_keeps hstore _) fun _ => ?_
              exact keeps_bind (keeps_modify fun s h => hcount s _ h) fun _ => ih
        · exact h
  refine keeps_get_bind fun s h => ?_
  simp only [ite_run]
  split
  · exact h
  · exact hloop _ s h

/-- The keys of the positions `lo` to `lo + len - 1` of a chain, filed under
`X`. -/
def filed (a : KeyAlg K) (rk : K) (name : List K) (X : Bytes) (lo len : Nat) :
    Odict (Bytes × Int) K :=
  (List.range' lo len).map fun i : Nat => ((X, (i : Int)), msgKey a rk name i)

/-- The loop, where the store has room and knows none of the numbers. -/
theorem skipLoop_ok {rk : K} {name : List K} {X : Bytes} {upTo fuel : Nat}
    (hX : s.dhr = some X) (hck : s.ckR = some (chainKey a rk name s.Nr))
    (hN : s.Nr + fuel = upTo)
    (hroom : s.skippedKeys.store.length + fuel ≤ s.skippedKeys.maxKeys)
    (hnew : ∀ i : Nat, s.Nr ≤ i → Odict.has s.skippedKeys.store (X, (i : Int)) = false) :
    DoubleRatchet.skipLoop a upTo fuel s = .ok () { s with
      ckR := some (chainKey a rk name upTo)
      Nr := upTo
      skippedKeys := { s.skippedKeys with
        store := s.skippedKeys.store ++ filed a rk name X s.Nr fuel } } := by
  induction fuel generalizing s with
  | zero =>
      rw [Nat.add_zero] at hN
      subst hN
      rw [filed, List.range'_zero, List.map_nil, List.append_nil, ← hck]
      rfl
  | succ fuel ih =>
      have hlt : (s.Nr : Int) < upTo := by omega
      have hnext : (kdfChain a (chainKey a rk name s.Nr)).1 = chainKey a rk name (s.Nr + 1) :=
        (chainKey_succ _ _).symm
      have hfull : ¬ s.skippedKeys.store.length ≥ s.skippedKeys.maxKeys := by omega
      rw [skipLoop_round hlt hck hX, if_neg hfull,
        Odict.set_of_not_has (hnew s.Nr (Nat.le_refl _)), hnext]
      let st : RatchetState K P := { s with
        ckR := some (chainKey a rk name (s.Nr + 1))
        Nr := s.Nr + 1
        skippedKeys := { s.skippedKeys with
          store := s.skippedKeys.store ++ [((X, (s.Nr : Int)), msgKey a rk name s.Nr)] } }
      have hN' : st.Nr + fuel = upTo := by
        show s.Nr + 1 + fuel = upTo
        omega
      refine (ih (s := st) hX rfl hN' ?_ ?_).trans ?_
      · rw [List.length_append, List.length_singleton]
        show s.skippedKeys.store.length + 1 + fuel ≤ s.skippedKeys.maxKeys
        omega
      · intro i hi
        have hi : s.Nr + 1 ≤ i := hi
        have hold := hnew i (by omega)
        rw [Bool.eq_false_iff, ne_eq, Odict.has_iff] at hold ⊢
        intro hhas
        simp only [st, Odict.keys, List.map_append, List.mem_append, List.map_cons, List.map_nil,
          List.mem_singleton, Prod.mk.injEq, true_and] at hhas hold
        rcases hhas with hhas | hhas
        · exact hold hhas
        · omega
      · simp only [st, filed, List.range'_succ, List.map_cons, List.append_assoc,
          List.singleton_append]

/-- A message at or past the number the chain stands at, where the store has
room for the keys it passes over. -/
theorem decryptOnChain_ahead {rk : K} {name : List K} {X : Bytes} {em : EncryptedMessage C}
    {n : Nat} {ad p : Bytes} (hX : s.dhr = some X)
    (hck : s.ckR = some (chainKey c.toKeyAlg rk name s.Nr)) (hn : em.header.n = n)
    (hlo : s.Nr ≤ n)
    (hroom : s.skippedKeys.store.length + (n - s.Nr) ≤ s.skippedKeys.maxKeys)
    (hnew : ∀ i : Nat, s.Nr ≤ i → Odict.has s.skippedKeys.store (X, (i : Int)) = false)
    (hlen : (c.bytes (msgKey c.toKeyAlg rk name n)).length = 32)
    (hdec : c.decrypt (msgKey c.toKeyAlg rk name n)
      (messageNonce c.toKeyAlg (msgKey c.toKeyAlg rk name n) n) em.ciphertext ad = some p) :
    DoubleRatchet.decryptOnChain c em ad s = .ok (p, msgKey c.toKeyAlg rk name n) { s with
      ckR := some (chainKey c.toKeyAlg rk name (n + 1))
      Nr := n + 1
      skippedKeys := { s.skippedKeys with
        store := s.skippedKeys.store ++ filed c.toKeyAlg rk name X s.Nr (n - s.Nr) } } := by
  have hopen : DoubleRatchet.openWith c (msgKey c.toKeyAlg rk name n) em ad = .ok p := by
    have hnat : em.header.n.toNat = n := by omega
    rw [openWith_eq hlen, hnat, hdec]
  have hskip : DoubleRatchet.skipMessageKeys c.toKeyAlg em.header.n s
      = DoubleRatchet.skipLoop c.toKeyAlg n (n - s.Nr) s := by
    have hrounds : ((n : Int) - s.Nr).toNat = n - s.Nr := by omega
    rw [skipMessageKeys_eq hck, hn, hrounds]
  have hnot : ¬ em.header.n < s.Nr := by omega
  have hrun : DoubleRatchet.skipLoop c.toKeyAlg n (n - s.Nr) s = .ok () { s with
      ckR := some (chainKey c.toKeyAlg rk name n)
      Nr := n
      skippedKeys := { s.skippedKeys with
        store := s.skippedKeys.store ++ filed c.toKeyAlg rk name X s.Nr (n - s.Nr) } } :=
    skipLoop_ok hX hck (by omega) hroom hnew
  have hkey : (kdfChain c.toKeyAlg (chainKey c.toKeyAlg rk name n)).2
      = msgKey c.toKeyAlg rk name n := rfl
  simp only [DoubleRatchet.decryptOnChain, bind_apply, get_apply, if_neg hnot, hskip, hrun,
    DoubleRatchet.nextReceivingKey, modify_apply, pure_apply, hkey, hopen, lift_ok,
    chainKey_succ]

theorem decryptKeyed_chain {em : EncryptedMessage C} {ad : Bytes} {g : P}
    (h : s.skippedKeys.has em.header.dhPub em.header.n = false) :
    DoubleRatchet.decryptKeyed c em ad g s
      = (DoubleRatchet.ensureReceivingChain c em.header.dhPub g >>= fun _ =>
          DoubleRatchet.decryptOnChain c em ad) s := by
  simp [DoubleRatchet.decryptKeyed, h]

end Ratchet

/-! ## The guard -/

section Guard

variable {r : SessionReplayCache} {env : ProtocolEnvelope C} {ctx : SessionContext K P}
  {replayed : String}

/-- The cache with an accepted envelope in it. -/
def recorded (r : SessionReplayCache) (env : ProtocolEnvelope C) : SessionReplayCache := { r with
  seen := SessionReplayCache.makeKey env :: r.seen
  highestByRatchet :=
    if (Odict.get? r.highestByRatchet env.senderRatchetKey).all (env.messageNumber > ·) then
      Odict.set r.highestByRatchet env.senderRatchetKey env.messageNumber
    else r.highestByRatchet }

theorem accept_refused (h : r.refuses env = true) :
    SessionReplayCache.accept env r = .ok false r := by
  simp [SessionReplayCache.accept, h]

theorem accept_fresh (h : r.refuses env = false) :
    SessionReplayCache.accept env r = .ok true (recorded r env) := by
  simp only [SessionReplayCache.accept, bind_apply, get_apply, h, Bool.false_eq_true, if_false,
    modify_apply, ite_run, recorded]
  split <;> rfl

theorem guard_refused (h : ctx.replayCache.refuses env = true) :
    SessionContext.guard env replayed ctx = .error (.valueError replayed)
      { ctx with resetState := ⟨true, some "replay-detected"⟩ } := by
  simp only [SessionContext.guard, bind_apply, SessionContext.onReplayCache, zoom,
    accept_refused h]
  rfl

/-- Past the cache: the envelope is recorded and the fork detector is asked. -/
theorem guard_fresh (h : ctx.replayCache.refuses env = false) :
    SessionContext.guard env replayed ctx
      = match detectFork env.senderRatchetKey env.messageNumber env.previousChainLength
          ctx.forkState with
        | .ok false f => .ok () { ctx with
            replayCache := recorded ctx.replayCache env, forkState := f }
        | .ok true f => .error (.valueError "fork detected") { ctx with
            replayCache := recorded ctx.replayCache env, forkState := f
            resetState := ⟨true, some "fork-detected"⟩ }
        | .error e f => .error e { ctx with
            replayCache := recorded ctx.replayCache env, forkState := f } := by
  simp only [SessionContext.guard, bind_apply, SessionContext.onReplayCache, zoom,
    accept_fresh h, SessionContext.onForkState, not_true_eq_false, if_false]
  cases detectFork env.senderRatchetKey env.messageNumber env.previousChainLength
      ctx.forkState with
  | error e f => rfl
  | ok b f => cases b <;> rfl

/-- An envelope that is not refused is in the cache from then on, and the
ratchet is as it was. -/
theorem guard_recorded (h : ctx.replayCache.refuses env = false) :
    (after (SessionContext.guard env replayed ctx)).replayCache = recorded ctx.replayCache env ∧
      (after (SessionContext.guard env replayed ctx)).ratchet = ctx.ratchet ∧
      (after (SessionContext.guard env replayed ctx)).sessionId = ctx.sessionId := by
  rw [guard_fresh h]
  cases detectFork env.senderRatchetKey env.messageNumber env.previousChainLength
      ctx.forkState with
  | error e f => exact ⟨rfl, rfl, rfl⟩
  | ok b f => cases b <;> exact ⟨rfl, rfl, rfl⟩

end Guard

end GhostChat.Proofs
