import GhostChat.Proofs.LedgerCalls
import GhostChat.Ref.Pair

/-!
# Message keys encrypt once

Both parties' books, kept along a run in which anybody may hand either party
anything. Inside one party's books the keys differ because the addresses do.
Across the two, equal keys have equal addresses, and the newest step of such
an address is a DH output both parties computed: one with its own fresh key
against the other's. The step before it is again shared, and there the two
sides would have had to agree on a key one of them had just replaced.
-/

namespace GhostChat.Proofs

open GhostChat.Lib GhostChat.Lib.Effect GhostChat.Ref

variable {K P C : Type} {c : Crypto K P C} {rk : K} {cap : Nat}

/-- A generated key is new: its public key is that of no key handed out
before, to either party. -/
def FreshKeys (c : Crypto K P C) (σ : Pair K P C) : Act P C → Prop
  | .encrypt _ _ => True
  | .decrypt _ _ g => ∀ who, ∀ p ∈ σ.handed who, c.publicKey p ≠ c.publicKey g

instance FreshKeys.decidable (σ : Pair K P C) :
    ∀ act, Decidable (FreshKeys c σ act)
  | .encrypt _ _ => isTrue trivial
  | .decrypt _ _ _ => decidable_of_iff _ Party.forall_iff.symm

/-- Both parties' books, over the log. -/
structure PairBooks (c : Crypto K P C) (rk : K) (cap : Nat) (σ : Pair K P C) :
    Prop where
  books : ∀ who, ∃ path, Ledger c rk cap who.isInitiator
    ((σ.handed who).map c.publicKey) path (σ.log.filterMap (Event.sentBy who))
    (σ.log.filterMap (Event.acceptedBy who)) (σ.engine who)
  apart : ∀ p ∈ σ.handed .initiator, ∀ q ∈ σ.handed .responder,
    c.publicKey p ≠ c.publicKey q

/-! ## One step -/

theorem PairBooks.encrypt (hk : GoodKdf c.toKeyAlg rk) {σ : Pair K P C}
    (h : PairBooks c rk cap σ) (who : Party) (pt : Bytes) :
    PairBooks c rk cap (σ.step c (.encrypt who pt)) := by
  obtain ⟨path, hled⟩ := h.books who
  obtain ⟨path', hled', -⟩ := encrypt_keeps hk pt hled
  cases hr : ratchetEncryptKeyed c pt (σ.engine who) with
  | error e s =>
      rw [hr] at hled'
      simp only [Pair.step, hr]
      refine ⟨fun x => ?_, h.apart⟩
      by_cases hx : x = who
      · subst hx
        simp only [Function.update_self]
        exact ⟨path', hled'⟩
      · simp only [Function.update_of_ne hx]
        exact h.books x
  | ok wk s =>
      obtain ⟨w, k⟩ := wk
      rw [hr] at hled'
      simp only [Pair.step, hr]
      refine ⟨fun x => ?_, h.apart⟩
      by_cases hx : x = who
      · subst hx
        simp only [Function.update_self]
        refine ⟨path', ?_⟩
        rw [List.filterMap_cons_some (show Event.sentBy x (.sent x pt w k)
            = some (w.header.dh, k) from if_pos rfl),
          List.filterMap_cons_none rfl]
        exact hled'
      · simp only [Function.update_of_ne hx]
        rw [List.filterMap_cons_none (show Event.sentBy x (.sent who pt w k) = none from
            if_neg (Ne.symm hx)), List.filterMap_cons_none rfl]
        exact h.books x

/-- Handing a party a fresh key keeps the parties' keys apart. -/
theorem apart_update {handed : Party → List P} (who : Party) {g : P}
    (h : ∀ p ∈ handed .initiator, ∀ q ∈ handed .responder,
      c.publicKey p ≠ c.publicKey q)
    (hg : ∀ x, ∀ p ∈ handed x, c.publicKey p ≠ c.publicKey g) :
    ∀ p ∈ Function.update handed who (g :: handed who) .initiator,
      ∀ q ∈ Function.update handed who (g :: handed who) .responder,
        c.publicKey p ≠ c.publicKey q := by
  intro p hp q hq
  cases who with
  | initiator =>
      rw [Function.update_self] at hp
      rw [Function.update_of_ne (by decide)] at hq
      rcases List.mem_cons.mp hp with rfl | hp
      · exact (hg .responder q hq).symm
      · exact h p hp q hq
  | responder =>
      rw [Function.update_of_ne (by decide)] at hp
      rw [Function.update_self] at hq
      rcases List.mem_cons.mp hq with rfl | hq
      · exact hg .initiator p hp
      · exact h p hp q hq

theorem PairBooks.decrypt (hk : GoodKdf c.toKeyAlg rk) {σ : Pair K P C}
    (h : PairBooks c rk cap σ) (who : Party) (msg : RatchetWireMessage C) (g : P)
    (hg : FreshKeys c σ (.decrypt who msg g)) :
    PairBooks c rk cap (σ.step c (.decrypt who msg g)) := by
  obtain ⟨path, hled⟩ := h.books who
  have hnew : c.publicKey g ∉ (σ.handed who).map c.publicKey := by
    intro hm
    obtain ⟨p, hp, he⟩ := List.mem_map.mp hm
    exact hg who p hp he
  obtain ⟨path', hled', -⟩ := decrypt_keeps hk msg hnew hled
  have hap := apart_update who h.apart hg
  cases hr : ratchetDecryptKeyed c msg g (σ.engine who) with
  | error e s =>
      rw [hr] at hled'
      simp only [Pair.step, hr]
      refine ⟨fun x => ?_, hap⟩
      by_cases hx : x = who
      · subst hx
        simp only [Function.update_self]
        exact ⟨path', hled'⟩
      · simp only [Function.update_of_ne hx]
        exact h.books x
  | ok pk s =>
      obtain ⟨p, k⟩ := pk
      rw [hr] at hled'
      simp only [Pair.step, hr]
      refine ⟨fun x => ?_, hap⟩
      by_cases hx : x = who
      · subst hx
        simp only [Function.update_self]
        refine ⟨path', ?_⟩
        rw [List.filterMap_cons_none rfl,
          List.filterMap_cons_some (show Event.acceptedBy x (.accepted x msg p k)
            = some k from if_pos rfl)]
        exact hled'
      · simp only [Function.update_of_ne hx]
        rw [List.filterMap_cons_none rfl, List.filterMap_cons_none
          (show Event.acceptedBy x (.accepted who msg p k) = none from
            if_neg (Ne.symm hx))]
        exact h.books x

theorem PairBooks.step (hk : GoodKdf c.toKeyAlg rk) (σ : Pair K P C) (act : Act P C)
    (h : PairBooks c rk cap σ) (hf : FreshKeys c σ act) :
    PairBooks c rk cap (σ.step c act) := by
  cases act with
  | encrypt who pt => exact h.encrypt hk who pt
  | decrypt who msg g => exact h.decrypt hk who msg g hf

/-! ## Whole runs -/

theorem start_ok {gen : Party → P} {σ : Pair K P C}
    (h : Pair.start c rk cap gen = .ok σ) :
    (∀ who, createInitialState c rk who.isInitiator none cap (gen who)
      = .ok (σ.engine who)) ∧
    σ.handed = (fun who => [gen who]) ∧ σ.log = [] := by
  unfold Pair.start at h
  cases ha : createInitialState c rk true none cap (gen .initiator) with
  | error e => rw [ha] at h; cases h
  | ok a =>
      cases hb : createInitialState c rk false none cap (gen .responder) with
      | error e => rw [ha, hb] at h; cases h
      | ok b =>
          rw [ha, hb] at h
          injection h with h
          subst h
          refine ⟨fun who => ?_, rfl, rfl⟩
          cases who with
          | initiator => exact ha
          | responder => exact hb

/-- With no remote key, one chain is there from the start: the initiator sends
on it and the responder receives on it. -/
theorem start_engine {gen : Party → P} {σ : Pair K P C}
    (h : Pair.start c rk cap gen = .ok σ) (who : Party) : σ.engine who = {
      rootKey := rk
      sendingChainKey :=
        if who.isInitiator then some (kdfInitialChain c.toKeyAlg rk) else none
      receivingChainKey :=
        if who.isInitiator then none else some (kdfInitialChain c.toKeyAlg rk)
      dhsPrivate := some (gen who)
      skippedMessageKeys := { maxKeys := cap } } := by
  have hs := (start_ok h).1 who
  unfold createInitialState at hs
  split at hs
  · cases hs
  · injection hs with hs
    exact hs.symm

theorem PairBooks.start (hk : GoodKdf c.toKeyAlg rk) {gen : Party → P}
    (hgen : c.publicKey (gen .initiator) ≠ c.publicKey (gen .responder))
    {σ : Pair K P C} (h : Pair.start c rk cap gen = .ok σ) : PairBooks c rk cap σ := by
  obtain ⟨hs, hh, hl⟩ := start_ok h
  refine ⟨fun who => ⟨[], ?_⟩, ?_⟩
  · rw [hh, hl]
    exact ledger_init hk (hs who)
  · rw [hh]
    intro p hp q hq
    rw [List.mem_singleton.mp hp, List.mem_singleton.mp hq]
    exact hgen

theorem PairBooks.run (hk : GoodKdf c.toKeyAlg rk) {gen : Party → P}
    (hgen : c.publicKey (gen .initiator) ≠ c.publicKey (gen .responder))
    {σ : Pair K P C} (h : Pair.start c rk cap gen = .ok σ) {acts : List (Act P C)}
    (hf : Along (Pair.step c) (FreshKeys c) σ acts) :
    PairBooks c rk cap (σ.run c acts) :=
  hf.invariant (PairBooks.step hk) (PairBooks.start hk hgen h)

/-! ## Across the parties -/

/-- X25519 outputs are equal only for the same pair of keys, in either
order. -/
def DhInjective (c : Crypto K P C) : Prop :=
  ∀ p q X Y k, c.sharedKey p X = some k → c.sharedKey q Y = some k →
    (c.publicKey p = c.publicKey q ∧ X = Y) ∨
    (X = c.publicKey q ∧ Y = c.publicKey p)

section Cross

variable {mineA mineB : List Bytes} {stA stB : RootStep K P}
  {tA tB : List (RootStep K P)}

/-- Two steps of the two parties with one DH output: each used its own key
against the other's. -/
theorem shared_swapped (hdh : DhInjective c) (hap : ∀ x ∈ mineA, ∀ y ∈ mineB, x ≠ y)
    {bootA bootB : Bool} (hA : StepOk c bootA mineA stA tA)
    (hB : StepOk c bootB mineB stB tB) (he : stA.shared = stB.shared) :
    stA.remote = c.publicKey stB.priv ∧ stB.remote = c.publicKey stA.priv := by
  rcases hdh _ _ _ _ _ hA.1 (he ▸ hB.1) with ⟨hp, -⟩ | hswap
  · exact absurd hp (hap _ hA.2.1 _ hB.2.1)
  · exact hswap

/-- No chain is opened for sending by both parties. The newest steps of such
a chain would swap the parties' keys, and so would the receiving steps before
them; but there each party replaced its key. -/
theorem sending_apart (hdh : DhInjective c) (hap : ∀ x ∈ mineA, ∀ y ∈ mineB, x ≠ y)
    (hA : ∀ st t, (st :: t) <:+ stA :: tA → StepOk c true mineA st t)
    (hB : ∀ st t, (st :: t) <:+ stB :: tB → StepOk c false mineB st t)
    (hsA : stA.sends = true) (hsB : stB.sends = true) :
    outputs (stA :: tA) ≠ outputs (stB :: tB) := by
  intro he
  injection he with hshared htail
  have hstA := hA stA tA (List.suffix_refl _)
  have hstB := hB stB tB (List.suffix_refl _)
  obtain ⟨hrA, hrB⟩ := shared_swapped hdh hap hstA hstB hshared
  rcases hstA.2.2.2 hsA with ⟨-, hboot⟩ | ⟨rA, uA, rfl, hfA, hremA, hgenA⟩
  · cases hboot
  · rcases hstB.2.2.2 hsB with ⟨rfl, -⟩ | ⟨rB, uB, rfl, hfB, hremB, hgenB⟩
    · cases htail
    · injection htail with hshared' _
      have hrcvA := hA rA uA (List.suffix_cons _ _)
      have hrcvB := hB rB uB (List.suffix_cons _ _)
      obtain ⟨-, hpB⟩ := shared_swapped hdh hap hrcvA hrcvB hshared'
      -- `rB` was computed against the key `rA` used, `stB` against the one
      -- `rA` generated, and both against the same remote key.
      refine (hrcvA.2.2.1 hfA).2 ?_
      rw [hgenA, ← hrB, ← hremB, hpB]

end Cross

/-- A key one party has encrypted with is none of the other's. -/
theorem sent_apart (hk : GoodKdf c.toKeyAlg rk) (hdh : DhInjective c) {σ : Pair K P C}
    (h : PairBooks c rk cap σ) {ea eb : Bytes × K}
    (ha : ea ∈ σ.log.filterMap (Event.sentBy .initiator))
    (hb : eb ∈ σ.log.filterMap (Event.sentBy .responder)) : ea.2 ≠ eb.2 := by
  intro he
  obtain ⟨pathA, hA⟩ := h.books .initiator
  obtain ⟨pathB, hB⟩ := h.books .responder
  have hap : ∀ x ∈ (σ.handed .initiator).map c.publicKey,
      ∀ y ∈ (σ.handed .responder).map c.publicKey, x ≠ y := by
    intro x hx y hy
    obtain ⟨p, hp, rfl⟩ := List.mem_map.mp hx
    obtain ⟨q, hq, rfl⟩ := List.mem_map.mp hy
    exact h.apart p hp q hq
  obtain ⟨la, ja, hla, hka⟩ := hA.send.known ea.2 (List.mem_map_of_mem ha)
  obtain ⟨lb, jb, hlb, hkb⟩ := hB.send.known eb.2 (List.mem_map_of_mem hb)
  obtain ⟨rfl, -⟩ := hk.msgKey_inj (hka.symm.trans (he.trans hkb))
  rcases hlb with ⟨hboot, -⟩ | ⟨stB, tB, hsufB, hsB, hlB⟩
  · cases hboot
  · rcases hla with ⟨-, rfl⟩ | ⟨stA, tA, hsufA, hsA, hlA⟩
    · cases hlB
    · exact sending_apart hdh hap
        (fun st t hs => hA.dh.steps st t (hs.trans hsufA))
        (fun st t hs => hB.dh.steps st t (hs.trans hsufB)) hsA hsB (hlA.symm.trans hlB)

/-- The AEAD bears out the record of a call. -/
def BorneOut (c : Crypto K P C) : Event K C → Prop
  | .sent _ pt w mk => c.encrypt mk w.nonce pt (headerAad w.header) = some w.ciphertext
  | .accepted _ w pt mk => c.decrypt mk w.nonce w.ciphertext (headerAad w.header) = some pt

theorem step_borneOut {σ : Pair K P C} (h : ∀ e ∈ σ.log, BorneOut c e) (act : Act P C) :
    ∀ e ∈ (σ.step c act).log, BorneOut c e := by
  cases act with
  | encrypt who pt =>
      cases hr : ratchetEncryptKeyed c pt (σ.engine who) with
      | error e s =>
          simp only [Pair.step, hr]
          exact h
      | ok r s =>
          simp only [Pair.step, hr]
          refine List.forall_mem_cons.mpr ⟨?_, h⟩
          exact (encrypt_sealed hr).2.2
  | decrypt who msg g =>
      cases hr : ratchetDecryptKeyed c msg g (σ.engine who) with
      | error e s =>
          simp only [Pair.step, hr]
          exact h
      | ok r s =>
          simp only [Pair.step, hr]
          refine List.forall_mem_cons.mpr ⟨?_, h⟩
          exact (decrypt_unsealed hr).2

/-- The keys of the log are the ones its ciphertexts were sealed and opened
with. -/
theorem run_borneOut {gen : Party → P} {σ : Pair K P C}
    (hstart : Pair.start c rk cap gen = .ok σ) (acts : List (Act P C)) :
    ∀ e ∈ (σ.run c acts).log, BorneOut c e := by
  have hnone : ∀ e ∈ σ.log, BorneOut c e := by
    rw [(start_ok hstart).2.2]
    exact fun e he => absurd he List.not_mem_nil
  exact runFrom_invariant (I := fun σ : Pair K P C => ∀ e ∈ σ.log, BorneOut c e)
    (fun σ act h => step_borneOut h act) hnone acts

/-- Over every run, under any messages: the AEAD keys of all encryptions of
both parties are pairwise distinct. -/
theorem encrypt_keys_distinct (hk : GoodKdf c.toKeyAlg rk) (hdh : DhInjective c)
    {gen : Party → P}
    (hgen : c.publicKey (gen .initiator) ≠ c.publicKey (gen .responder))
    {σ : Pair K P C} (hstart : Pair.start c rk cap gen = .ok σ)
    {acts : List (Act P C)} (hfresh : Along (Pair.step c) (FreshKeys c) σ acts) :
    ((σ.run c acts).log.filterMap Event.encryptKey).Nodup := by
  have h := PairBooks.run hk hgen hstart hfresh
  obtain ⟨pathA, hA⟩ := h.books .initiator
  obtain ⟨pathB, hB⟩ := h.books .responder
  have hndA := hA.send.nodup
  have hndB := hB.send.nodup
  rw [List.Nodup, List.pairwise_map, List.pairwise_filterMap] at hndA hndB
  rw [List.Nodup, List.pairwise_filterMap]
  refine (hndA.and hndB).imp_of_mem ?_
  rintro e e' he he' ⟨hea, heb⟩ k hk₁ k' hk₂
  cases e with
  | accepted => cases hk₁
  | sent x pt w mk =>
      cases e' with
      | accepted => cases hk₂
      | sent x' pt' w' mk' =>
          injection hk₁ with hk₁
          injection hk₂ with hk₂
          subst hk₁ hk₂
          cases x with
          | initiator =>
              cases x' with
              | initiator => exact hea _ rfl _ rfl
              | responder =>
                  exact sent_apart hk hdh h (List.mem_filterMap.mpr ⟨_, he, rfl⟩)
                    (List.mem_filterMap.mpr ⟨_, he', rfl⟩)
          | responder =>
              cases x' with
              | initiator =>
                  exact (sent_apart hk hdh h (List.mem_filterMap.mpr ⟨_, he', rfl⟩)
                    (List.mem_filterMap.mpr ⟨_, he, rfl⟩)).symm
              | responder => exact heb _ rfl _ rfl

/-! The symbolic X25519 has the property the theorem asks for. -/

theorem symbolic_shared {p : Nat} {X : Bytes} {k : SymKey}
    (h : symbolic.sharedKey p X = some k) :
    k = .atom (.shared (unordered (symPublicKey p) X)) := by
  simp only [symbolic] at h
  split at h
  · cases h
  · injection h with h
    exact h.symm

theorem symbolic_dhInjective : DhInjective symbolic := by
  intro p q X Y k hp hq
  have he := (symbolic_shared hp).symm.trans (symbolic_shared hq)
  injection he with he
  injection he with he
  rcases unordered_eq he with ⟨h₁, h₂⟩ | ⟨h₁, h₂⟩
  · exact Or.inl ⟨h₁, h₂⟩
  · exact Or.inr ⟨h₂, h₁.symm⟩

/-- Both parties send, one delivery skips a message, and the initiator is fed
a forged message with a low-order key before the responder's answer. -/
def crossTraffic : List (Act Nat Box) := script (symPair 1000) [
  fun _ => .encrypt .initiator [10], fun _ => .encrypt .initiator [11],
  relay .responder 1 3 id, fun _ => .encrypt .responder [20],
  fun _ => .decrypt .initiator
    ⟨⟨List.replicate 32 0, 0, 0⟩, ⟨symRoot, [], [], []⟩, List.replicate 12 0⟩ 4,
  fun _ => .encrypt .initiator [12], relay .initiator 2 5 id,
  fun _ => .encrypt .initiator [13], relay .responder 4 6 id,
  fun _ => .encrypt .responder [21]]

theorem encrypt_keys_distinct_crossTraffic :
    (((symPair 1000).run symbolic crossTraffic).log.filterMap Event.encryptKey).length = 6 ∧
    (((symPair 1000).run symbolic crossTraffic).log.filterMap Event.encryptKey).Nodup :=
  ⟨by decide +kernel,
   encrypt_keys_distinct symbolic_good symbolic_dhInjective (by decide)
    (symPair_start 1000) (by decide +kernel)⟩

end GhostChat.Proofs
