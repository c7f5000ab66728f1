import GhostChat.Lib.Window
import GhostChat.Proofs.Agreement
import GhostChat.Proofs.Skipping

/-!
# An honest session

Between honest parties everything is named by one list of ratchet keys,
newest first. The oldest is the initiator's first key, and the two parties
take turns after that: a party opens a chain under a new key only once it has
heard the chain before. So the chain of key `q` is the list that starts at
`q`, its owner is read off the length, and the DH outputs it depends on are
those between neighbours in the list.

A party is in one of three positions. It speaks on its newest chain; or it
has heard the peer's newest chain and waits, a new key in hand and no sending
chain; or it is the responder before its first message. What it has heard is
kept apart from what it says: `Hears` is the receiving side, with the skipped
keys exactly the pending messages of the chains heard so far.

No property of HKDF but its length is used: both parties compute the same
keys, whatever the keys are.
-/

namespace GhostChat.Proofs

open GhostChat.Lib GhostChat.Lib.Effect GhostChat.Lib.Window GhostChat.Ref

variable {K P C : Type} {c : Crypto K P C} {rk : K} {cap : Nat}

/-! ## Ratchet keys and chains -/

/-- The DH outputs between neighbouring keys. -/
def outs (c : Crypto K P C) : List P → List K
  | q :: q' :: t => (c.sharedKey q (c.publicKey q')).toList ++ outs c (q' :: t)
  | _ => []

theorem outs_cons (hdh : GoodDh c) (q q' : P) (t : List P) :
    ∃ k, c.sharedKey q (c.publicKey q') = some k ∧
      c.sharedKey q' (c.publicKey q) = some k ∧
      outs c (q :: q' :: t) = k :: outs c (q' :: t) := by
  obtain ⟨k, h₁, h₂⟩ := hdh.commutes q q'
  exact ⟨k, h₁, h₂, by rw [outs, h₁]; rfl⟩

/-- Whose chain a list of keys names: the initiator's if it is of odd
length. -/
def owner : List P → Party
  | [] => .responder
  | _ :: t => (owner t).other

theorem Party.other_ne (x : Party) : x.other ≠ x := by cases x <;> nofun

theorem Party.ne_other (x : Party) : x ≠ x.other := (Party.other_ne x).symm

/-- Distinct public keys name distinct chains. -/
theorem suffix_unique {ks : List P} (hnd : (ks.map c.publicKey).Nodup) {q q' : P}
    {t t' : List P} (h : (q :: t) <:+ ks) (h' : (q' :: t') <:+ ks)
    (he : c.publicKey q = c.publicKey q') : q :: t = q' :: t' := by
  induction ks with
  | nil => simp at h
  | cons x xs ih =>
      rw [List.map_cons, List.nodup_cons] at hnd
      have hin : ∀ {y : P} {u : List P}, (y :: u) <:+ xs →
          c.publicKey y ∈ xs.map c.publicKey :=
        fun hy => List.mem_map_of_mem (hy.subset List.mem_cons_self)
      rcases List.suffix_cons_iff.mp h with h | h
      · rcases List.suffix_cons_iff.mp h' with h' | h'
        · rw [h, h']
        · injection h with hq _
          rw [hq] at he
          exact absurd (he ▸ hin h') hnd.1
      · rcases List.suffix_cons_iff.mp h' with h' | h'
        · injection h' with hq' _
          rw [hq'] at he
          exact absurd (he ▸ hin h) hnd.1
        · exact ih hnd.2 h h'

/-! ## Messages -/

/-- `w` is message number `w.header.n` of the chain named by `ks`, sealed
under that chain's key for it. -/
structure Sealed (c : Crypto K P C) (rk : K) (ks : List P) (pt : Bytes)
    (w : RatchetWireMessage C) (k : K) : Prop where
  dh : ks.head?.map c.publicKey = some w.header.dh
  number : 0 ≤ w.header.n ∧ w.header.n.toNat < 2 ^ 32
  key : k = msgKey c.toKeyAlg rk (outs c ks) w.header.n.toNat
  nonce : messageKeyToNonce (c.bytes k) w.header.n.toNat = .ok w.nonce
  opens : c.decrypt k w.nonce w.ciphertext (headerAad w.header) = some pt

theorem xorCounter_length (b : Bytes) (n : Nat) : (xorCounter b n).length = b.length := by
  simp [xorCounter, List.range_succ]

theorem nonce_length {mk nonce : Bytes} {n : Nat}
    (h : messageKeyToNonce mk n = .ok nonce) : nonce.length = 12 := by
  unfold messageKeyToNonce at h
  split at h
  · cases h
  · next hlen =>
      injection h with h
      rw [← h, xorCounter_length, List.length_take]
      unfold aadNonceLen at hlen ⊢
      omega

theorem Sealed.checked (hdh : GoodDh c) {ks : List P} {pt : Bytes}
    {w : RatchetWireMessage C} {k : K} (h : Sealed c rk ks pt w k) :
    checkHeader w = .ok () := by
  have hlen : w.header.dh.length = 32 := by
    have hd := h.dh
    cases ks with
    | nil => cases hd
    | cons q t =>
        injection hd with hd
        rw [← hd]
        exact hdh.public_length q
  have hn := h.number.1
  have hnonce := nonce_length h.nonce
  rw [checkHeader, if_neg (by simp [hlen, dhPubLen]), if_neg (by omega),
    if_neg (by simp [hnonce, aadNonceLen])]

/-- The replay cache takes a new number in range. -/
theorem received_add_new (dh : Bytes) {n : Nat} {r : ReceivedIdsStore}
    (hn : n < 2 ^ 32) (hroom : 0 < r.maxSize) :
    ∃ r', ReceivedIdsStore.add dh n r = .ok () r' ∧ r'.maxSize = r.maxSize ∧
      ∀ id ∈ r'.order, id = (dh, n) ∨ id ∈ r.order := by
  rcases received_add_cases dh n r with ⟨e, order, -, -, hbad⟩ | ⟨-, -, hadd⟩ | ⟨-, -, -, hadd⟩
  · omega
  · exact ⟨r, hadd, rfl, fun id hid => Or.inr hid⟩
  · refine ⟨_, hadd, rfl, fun id hid => ?_⟩
    rcases List.mem_append.mp hid with hid | hid
    · exact Or.inr ((evictTo_sublist _ _).subset hid)
    · exact Or.inl (List.mem_singleton.mp hid)

/-- Under its own key a sealed message opens, and only the replay cache
changes. -/
theorem Sealed.opened {ks : List P} {pt : Bytes} {w : RatchetWireMessage C} {k : K}
    (h : Sealed c rk ks pt w k) (hlen : (c.bytes k).length = 32)
    {s : DoubleRatchetState K P} (hroom : 0 < s.receivedIds.maxSize) (failed : String) :
    ∃ r, openWith c k w failed s = .ok pt { s with receivedIds := r } ∧
      r.maxSize = s.receivedIds.maxSize ∧
      ∀ id ∈ r.order, id = (w.header.dh, w.header.n.toNat) ∨ id ∈ s.receivedIds.order := by
  obtain ⟨r, hadd, hsize, hids⟩ := received_add_new w.header.dh h.number.2 hroom
  have hd : aeadDecrypt c k w.ciphertext w.nonce (headerAad w.header) = .ok pt := by
    rw [aeadDecrypt, if_neg (by simp [hlen]), if_neg (by simp [nonce_length h.nonce]),
      h.opens]
  refine ⟨r, ?_, hsize, hids⟩
  rw [openWith_eq, h.nonce]
  simp only [ne_eq, not_true_eq_false, if_false, hd, hadd]

/-! ## Skipping within the room there is -/

/-- The entries a skip from `lo` files. -/
def skippedEntries (a : KeyAlg K) (rk : K) (l : List K) (dh : Bytes) (lo len : Nat) :
    Odict (Bytes × Nat) K :=
  (List.range' lo len).map fun i => ((dh, i), msgKey a rk l i)

/-- Where a round was not refused, the chain has moved with the counter. -/
theorem skipReceivingLoop_chain {a : KeyAlg K} {l : List K} {dh : Bytes} {upTo : Nat} :
    ∀ (fuel : Nat) (s s' : DoubleRatchetState K P) (u : Unit),
      s.receivingChainKey = some (chainKey a rk l s.Nr) → s.Nr + fuel = upTo →
      skipReceivingLoop a dh upTo fuel s = .ok u s' →
      s'.receivingChainKey = some (chainKey a rk l upTo) := by
  intro fuel
  induction fuel with
  | zero =>
      intro s s' u hck hN h
      rw [skipReceivingLoop_done (by omega)] at h
      injection h with _ h
      rw [← h, hck, ← hN]
      rfl
  | succ fuel ih =>
      intro s s' u hck hN h
      have hlt : s.Nr < upTo := by omega
      cases hadd : SkippedMessageKeys.add a dh s.Nr (kdfChain a (chainKey a rk l s.Nr)).2
          s.skippedMessageKeys with
      | error e sk =>
          rw [skipReceivingLoop_refused hlt hck hadd] at h
          cases h
      | ok v sk =>
          rw [skipReceivingLoop_filed hlt hck hadd] at h
          refine ih _ s' u ?_ ?_ h
          · show some (kdfChain a (chainKey a rk l s.Nr)).1 = _
            rw [← chainKey_succ]
            rfl
          · show s.Nr + 1 + fuel = upTo
            omega

/-- The chain keys of a derivation path are on one chain. -/
theorem chainKeyAt_chainKey {a : KeyAlg K} (l : List K) (lo n : Nat) :
    chainKeyAt a (chainKey a rk l lo) n = chainKey a rk l (lo + n) := by
  rw [chainKey, chainKey, chainKeyAt, ← Function.iterate_add_apply, Nat.add_comm]

theorem chainItems_chainKey {a : KeyAlg K} (l : List K) (dh : Bytes) (lo n : Nat) :
    chainItems a dh (chainKey a rk l lo) lo n = skippedEntries a rk l dh lo n := by
  rw [chainItems, skippedEntries, List.range'_eq_map_range, List.map_map]
  refine List.map_congr_left fun j _ => ?_
  rw [chainKeyAt_chainKey]
  rfl

theorem skippedEntries_keys {a : KeyAlg K} (l : List K) (dh : Bytes) (lo len : Nat) :
    Odict.keys (skippedEntries a rk l dh lo len)
      = (List.range' lo len).map fun i => (dh, i) := by
  rw [Odict.keys, skippedEntries, List.map_map]
  rfl

theorem skipReceivingLoop_ok {a : KeyAlg K} {l : List K} {dh : Bytes} {upTo : Nat}
    (hlen : ∀ i s f b, (a.bytes (a.hkdf i s f b)).length = 32) (hdh : dh.length = 32)
    (hmax : upTo ≤ 2 ^ 32) (fuel : Nat) (s : DoubleRatchetState K P)
    (hck : s.receivingChainKey = some (chainKey a rk l s.Nr)) (hN : s.Nr + fuel = upTo)
    (hroom : s.skippedMessageKeys.store.length + fuel ≤ s.skippedMessageKeys.maxKeys)
    (hnew : ∀ i, s.Nr ≤ i → Odict.has s.skippedMessageKeys.store (dh, i) = false) :
    skipReceivingLoop a dh upTo fuel s = .ok () (withRecv s (some (chainKey a rk l upTo))
      (s.skippedMessageKeys.store ++ skippedEntries a rk l dh s.Nr fuel) upTo) := by
  have hdist : upTo - s.Nr = fuel := by omega
  have hitems : (chainItems a dh (chainKey a rk l s.Nr) s.Nr fuel).length = fuel := by
    rw [chainItems, List.length_map, List.length_range]
  rw [skipReceivingLoop_pushes hlen hdh hmax fuel s _ hck (by omega) (by omega)
    (fun hlt => by omega), hdist, chainKeyAt_chainKey, hN,
    Odict.pushAll_room (by rw [hitems]; exact hroom) (chainItems_nodup _ _ _ _)
      (chainItems_fresh (fun i hi _ => hnew i hi) _), chainItems_chainKey]

/-- A message at or past the counter of the chain in use, within the distance
and the room: it is opened, what it jumped over is filed. -/
theorem chain_accepts (hlen : ∀ i s f b, (c.bytes (c.hkdf i s f b)).length = 32)
    (hdh : GoodDh c) {ks : List P} {pt : Bytes} {w : RatchetWireMessage C} {k : K}
    (h : Sealed c rk ks pt w k) {s : DoubleRatchetState K P}
    (hd : s.dhr = some w.header.dh)
    (hck : s.receivingChainKey = some (chainKey c.toKeyAlg rk (outs c ks) s.Nr))
    (hlo : s.Nr ≤ w.header.n.toNat) (hhi : w.header.n.toNat ≤ s.Nr + maxSkipDistance)
    (hroom : s.skippedMessageKeys.store.length + (w.header.n.toNat - s.Nr)
      ≤ s.skippedMessageKeys.maxKeys)
    (hnew : ∀ i, s.Nr ≤ i →
      Odict.has s.skippedMessageKeys.store (w.header.dh, i) = false)
    (hcache : 0 < s.receivedIds.maxSize) :
    ∃ r, decryptOnChain c w s = .ok (pt, k) { withRecv s
        (some (chainKey c.toKeyAlg rk (outs c ks) (w.header.n.toNat + 1)))
        (s.skippedMessageKeys.store ++ skippedEntries c.toKeyAlg rk (outs c ks)
          w.header.dh s.Nr (w.header.n.toNat - s.Nr))
        (w.header.n.toNat + 1) with receivedIds := r } ∧
      r.maxSize = s.receivedIds.maxSize ∧
      ∀ id ∈ r.order, id = (w.header.dh, w.header.n.toNat) ∨ id ∈ s.receivedIds.order := by
  obtain ⟨hdlen, -, -⟩ := checkHeader_ok (h.checked hdh)
  have hmax := h.number.2
  have hloop := skipReceivingLoop_ok hlen hdlen (Nat.le_of_lt hmax)
    (w.header.n.toNat - s.Nr) s hck (by omega) hroom hnew
  have hkey : (kdfChain c.toKeyAlg
      (chainKey c.toKeyAlg rk (outs c ks) w.header.n.toNat)).2 = k := h.key.symm
  rw [decryptOnChain_near hlo hhi, skipReceivingUntil_some hck hd, hloop]
  simp only [withRecv, hkey]
  obtain ⟨r, hopen, hsize, hids⟩ := h.opened (h.key ▸ hlen _ _ _ _)
    (s := withRecv s (some (chainKey c.toKeyAlg rk (outs c ks) (w.header.n.toNat + 1)))
        (s.skippedMessageKeys.store ++ skippedEntries c.toKeyAlg rk (outs c ks)
          w.header.dh s.Nr (w.header.n.toNat - s.Nr))
        (w.header.n.toNat + 1)) hcache "AEAD verification failed"
  refine ⟨r, ?_, hsize, hids⟩
  rw [withRecv, chainKey_succ] at hopen
  rw [hopen, chainKey_succ]
  rfl

/-! ## The receiving side -/

/-- What a party has heard: `heard` is the newest chain of the peer it has
turned to, `D` the messages it has accepted. -/
structure Hears (c : Crypto K P C) (rk : K) (cap : Nat) (heard : List P)
    (D : List (Bytes × Nat)) (s : DoubleRatchetState K P) : Prop where
  room : s.skippedMessageKeys.maxKeys = cap
  nodup : (Odict.keys s.skippedMessageKeys.store).Nodup
  pend : ∀ id, id ∈ Odict.keys s.skippedMessageKeys.store ↔ id ∈ pending D
  named : ∀ id k, (id, k) ∈ s.skippedMessageKeys.store → ∃ q t, (q :: t) <:+ heard ∧
    c.publicKey q = id.1 ∧ k = msgKey c.toKeyAlg rk (outs c (q :: t)) id.2
  seen : ∀ id ∈ s.receivedIds.order, id ∈ D
  cache : 0 < s.receivedIds.maxSize
  remote : s.dhr = heard.head?.map c.publicKey
  chain : ∀ q t, heard = q :: t → s.Nr = nextExpected D (c.publicKey q) ∧
    s.receivingChainKey = some (chainKey c.toKeyAlg rk (outs c heard) s.Nr)
  origin : ∀ id ∈ D, ∃ q t, (q :: t) <:+ heard ∧ c.publicKey q = id.1

/-- The fields the receiving side reads. -/
structure SameRecv (s s' : DoubleRatchetState K P) : Prop where
  skipped : s'.skippedMessageKeys = s.skippedMessageKeys
  ids : s'.receivedIds = s.receivedIds
  dhr : s'.dhr = s.dhr
  counter : s'.Nr = s.Nr
  chain : s'.receivingChainKey = s.receivingChainKey

theorem SameRecv.trans {s₁ s₂ s₃ : DoubleRatchetState K P} (h : SameRecv s₁ s₂)
    (h' : SameRecv s₂ s₃) : SameRecv s₁ s₃ :=
  ⟨h'.skipped.trans h.skipped, h'.ids.trans h.ids, h'.dhr.trans h.dhr,
    h'.counter.trans h.counter, h'.chain.trans h.chain⟩

/-- The fields the sending side reads. -/
structure SameSend (s s' : DoubleRatchetState K P) : Prop where
  root : s'.rootKey = s.rootKey
  own : s'.dhsPrivate = s.dhsPrivate
  chain : s'.sendingChainKey = s.sendingChainKey
  counter : s'.Ns = s.Ns
  prev : s'.PN = s.PN

theorem SameSend.trans {s₁ s₂ s₃ : DoubleRatchetState K P} (h : SameSend s₁ s₂)
    (h' : SameSend s₂ s₃) : SameSend s₁ s₃ :=
  ⟨h'.root.trans h.root, h'.own.trans h.own, h'.chain.trans h.chain,
    h'.counter.trans h.counter, h'.prev.trans h.prev⟩

namespace Hears

variable {heard : List P} {D : List (Bytes × Nat)} {s : DoubleRatchetState K P}
  {pt : Bytes} {w : RatchetWireMessage C} {k : K}

theorem frame {s' : DoubleRatchetState K P} (h : Hears c rk cap heard D s)
    (hs : SameRecv s s') : Hears c rk cap heard D s' := by
  refine ⟨?_, ?_, ?_, ?_, ?_, ?_, ?_, ?_, h.origin⟩
  · rw [hs.skipped]; exact h.room
  · rw [hs.skipped]; exact h.nodup
  · rw [hs.skipped]; exact h.pend
  · rw [hs.skipped]; exact h.named
  · rw [hs.ids]; exact h.seen
  · rw [hs.ids]; exact h.cache
  · rw [hs.dhr]; exact h.remote
  · rw [hs.counter, hs.chain]; exact h.chain

theorem store_length (h : Hears c rk cap heard D s) :
    s.skippedMessageKeys.store.length = (pending D).card := by
  have heq : (Odict.keys s.skippedMessageKeys.store).toFinset = pending D := by
    ext id
    rw [List.mem_toFinset, h.pend]
  rw [← heq, List.toFinset_card_of_nodup h.nodup, Odict.keys, List.length_map]

theorem has_iff (h : Hears c rk cap heard D s) (id : Bytes × Nat) :
    Odict.has s.skippedMessageKeys.store id = true ↔ id ∈ pending D := by
  rw [Odict.has_iff, h.pend]

/-- A number at or past the next expected one is not stored. -/
theorem not_stored (h : Hears c rk cap heard D s) {d : Bytes} {n : Nat}
    (hn : nextExpected D d ≤ n) : s.skippedMessageKeys.has d n = false := by
  rw [SkippedMessageKeys.has, Bool.eq_false_iff]
  intro hhas
  have hlt : n < nextExpected D d := lt_of_pending ((h.has_iff _).mp hhas)
  omega

/-! What accepting `x` makes of the parts. -/

theorem seen_cons (h : Hears c rk cap heard D s) {x : Bytes × Nat} {r : ReceivedIdsStore}
    (hids : ∀ id ∈ r.order, id = x ∨ id ∈ s.receivedIds.order) :
    ∀ id ∈ r.order, id ∈ x :: D := by
  intro id hid
  rcases hids id hid with rfl | hid
  · exact List.mem_cons_self
  · exact List.mem_cons_of_mem _ (h.seen id hid)

theorem origin_cons (h : Hears c rk cap heard D s) {q : P} {t : List P}
    (hsuf : (q :: t) <:+ heard) {x : Bytes × Nat} (hq : c.publicKey q = x.1) :
    ∀ id ∈ x :: D, ∃ q t, (q :: t) <:+ heard ∧ c.publicKey q = id.1 := by
  intro id hid
  rcases List.mem_cons.mp hid with rfl | hid
  · exact ⟨q, t, hsuf, hq⟩
  · exact h.origin id hid

/-! The store and the entries of a skip. -/

theorem ahead_nodup (h : Hears c rk cap heard D s) {dh : Bytes}
    (hnew : ∀ i, s.Nr ≤ i → Odict.has s.skippedMessageKeys.store (dh, i) = false)
    (l : List K) (len : Nat) :
    (Odict.keys (s.skippedMessageKeys.store
      ++ skippedEntries c.toKeyAlg rk l dh s.Nr len)).Nodup := by
  rw [Odict.keys, List.map_append, ← Odict.keys, ← Odict.keys, skippedEntries_keys]
  refine List.nodup_append.mpr ⟨h.nodup, List.Nodup.map ?_ List.nodup_range', ?_⟩
  · intro i j hij
    injection hij
  · intro x hx y hy hxy
    obtain ⟨i, hi, rfl⟩ := List.mem_map.mp hy
    have hfree := hnew i (List.mem_range'_1.mp hi).1
    rw [Odict.has_iff.mpr (hxy ▸ hx)] at hfree
    cases hfree

theorem ahead_pend (h : Hears c rk cap heard D s) {dh : Bytes} {n : Nat}
    (hNr : s.Nr = nextExpected D dh) (hlo : nextExpected D dh ≤ n) (l : List K)
    (id : Bytes × Nat) :
    id ∈ Odict.keys (s.skippedMessageKeys.store
      ++ skippedEntries c.toKeyAlg rk l dh s.Nr (n - s.Nr)) ↔ id ∈ pending ((dh, n) :: D) := by
  rw [mem_pending_ahead hlo, Odict.keys, List.map_append, ← Odict.keys, ← Odict.keys,
    skippedEntries_keys, List.mem_append, h.pend, ← hNr]
  obtain ⟨d, i⟩ := id
  simp only [List.mem_map, List.mem_range'_1, Prod.mk.injEq]
  constructor
  · rintro (h₁ | ⟨j, ⟨hj₁, hj₂⟩, rfl, rfl⟩)
    · exact Or.inl h₁
    · exact Or.inr ⟨rfl, hj₁, by omega⟩
  · rintro (h₁ | ⟨rfl, hj₁, hj₂⟩)
    · exact Or.inl h₁
    · exact Or.inr ⟨i, ⟨hj₁, by omega⟩, rfl, rfl⟩

theorem ahead_named {q : P} {t : List P} (h : Hears c rk cap (q :: t) D s) {dh : Bytes}
    (hq : c.publicKey q = dh) {len : Nat} {id : Bytes × Nat}
    (hmem : (id, k) ∈ s.skippedMessageKeys.store
      ++ skippedEntries c.toKeyAlg rk (outs c (q :: t)) dh s.Nr len) :
    ∃ q' t', (q' :: t') <:+ (q :: t) ∧ c.publicKey q' = id.1 ∧
      k = msgKey c.toKeyAlg rk (outs c (q' :: t')) id.2 := by
  rcases List.mem_append.mp hmem with hmem | hmem
  · exact h.named id k hmem
  · obtain ⟨i, -, he⟩ := List.mem_map.mp hmem
    injection he with h₁ h₂
    subst h₁ h₂
    exact ⟨q, t, List.suffix_refl _, hq, rfl⟩

/-- A pending message of a chain heard before: its key is in the store, and
taking it out is all that happens. -/
theorem accept_late (hlen : ∀ i s f b, (c.bytes (c.hkdf i s f b)).length = 32)
    (hdh : GoodDh c) (hnd : (heard.map c.publicKey).Nodup)
    (h : Hears c rk cap heard D s) {q : P} {t : List P} (hsuf : (q :: t) <:+ heard)
    (hw : Sealed c rk (q :: t) pt w k)
    (hp : (w.header.dh, w.header.n.toNat) ∈ pending D) (g : P) :
    ∃ s', ratchetDecryptKeyed c w g s = .ok (pt, k) s' ∧ SameSend s s' ∧
      Hears c rk cap heard ((w.header.dh, w.header.n.toNat) :: D) s' := by
  have hhas := (h.has_iff _).mpr hp
  obtain ⟨k', hget⟩ := Odict.has_eq_true_iff.mp hhas
  have hk : k' = k := by
    obtain ⟨q', t', hsuf', hq', hkey⟩ := h.named _ _ (Odict.mem_of_get? hget)
    have hqq : c.publicKey q' = c.publicKey q := hq'.trans (Option.some.inj hw.dh).symm
    rw [hkey, hw.key, suffix_unique hnd hsuf' hsuf hqq]
  subst hk
  have hr : ¬ Refused s w := by
    rintro (⟨e, he⟩ | hid | ⟨hno, -⟩)
    · rw [hw.checked hdh] at he
      cases he
    · simp only [ReceivedIdsStore.contains, decide_eq_true_eq] at hid
      exact (mem_pending.mp hp).1 (h.seen _ hid)
    · rw [SkippedMessageKeys.has, hhas] at hno
      cases hno
  obtain ⟨r, hopen, hsize, hids⟩ := hw.opened (hw.key ▸ hlen _ _ _ _)
    (s := withRecv s s.receivingChainKey (Odict.erase s.skippedMessageKeys.store
      (w.header.dh, w.header.n.toNat)) s.Nr) h.cache
    "AEAD verification failed (skipped-key path)"
  rw [decrypt_skipped hr hget, hopen]
  refine ⟨_, rfl, ⟨rfl, rfl, rfl, rfl, rfl⟩, ⟨h.room, ?_, ?_, ?_, ?_, ?_, h.remote, ?_, ?_⟩⟩
  · exact h.nodup.sublist (List.Sublist.map _ List.filter_sublist)
  · intro id
    rw [pending_late hp, Finset.mem_erase, ← h.pend]
    simp only [withRecv, Odict.keys, List.mem_map]
    constructor
    · rintro ⟨e, he, rfl⟩
      obtain ⟨hmem, hne⟩ := Odict.mem_erase.mp he
      exact ⟨hne, e, hmem, rfl⟩
    · rintro ⟨hne, e, he, rfl⟩
      exact ⟨e, Odict.mem_erase.mpr ⟨he, hne⟩, rfl⟩
  · intro id k₁ hmem
    exact h.named id k₁ (Odict.mem_erase.mp hmem).1
  · exact h.seen_cons hids
  · show 0 < r.maxSize
    rw [hsize]
    exact h.cache
  · intro q' t' he
    rw [nextExpected_late hp]
    exact h.chain q' t' he
  · exact h.origin_cons hsuf (Option.some.inj hw.dh)

/-- The next message, or a later one, of the chain turned to. -/
theorem accept_ahead (hlen : ∀ i s f b, (c.bytes (c.hkdf i s f b)).length = 32)
    (hdh : GoodDh c) {q : P} {t : List P} (h : Hears c rk cap (q :: t) D s)
    (hw : Sealed c rk (q :: t) pt w k)
    (hlo : nextExpected D w.header.dh ≤ w.header.n.toNat)
    (hhi : w.header.n.toNat ≤ nextExpected D w.header.dh + maxSkipDistance)
    (hcap : (pending ((w.header.dh, w.header.n.toNat) :: D)).card ≤ cap) :
    ∃ s', decryptOnChain c w s = .ok (pt, k) s' ∧ SameSend s s' ∧
      Hears c rk cap (q :: t) ((w.header.dh, w.header.n.toNat) :: D) s' := by
  have hq : c.publicKey q = w.header.dh := Option.some.inj hw.dh
  obtain ⟨hNr, hck⟩ := h.chain q t rfl
  rw [hq] at hNr
  have hroom : s.skippedMessageKeys.store.length + (w.header.n.toNat - s.Nr)
      ≤ s.skippedMessageKeys.maxKeys := by
    rw [h.store_length, h.room, hNr, ← card_pending_ahead hlo]
    exact hcap
  have hnew : ∀ i, s.Nr ≤ i →
      Odict.has s.skippedMessageKeys.store (w.header.dh, i) = false :=
    fun i hi => h.not_stored (hNr ▸ hi)
  obtain ⟨r, hdec, hsize, hids⟩ := chain_accepts hlen hdh hw
    (h.remote.trans (congrArg some hq)) hck (hNr ▸ hlo) (hNr ▸ hhi) hroom hnew h.cache
  rw [hdec]
  refine ⟨_, rfl, ⟨rfl, rfl, rfl, rfl, rfl⟩, ⟨h.room, h.ahead_nodup hnew _ _,
    h.ahead_pend hNr hlo _, fun id k₁ hmem => h.ahead_named hq hmem, h.seen_cons hids, ?_,
    h.remote, ?_, h.origin_cons (List.suffix_refl _) hq⟩⟩
  · show 0 < r.maxSize
    rw [hsize]
    exact h.cache
  · intro q' t' he
    injection he with he _
    subst he
    rw [hq, nextExpected_ahead hlo]
    exact ⟨rfl, rfl⟩

end Hears

end GhostChat.Proofs
