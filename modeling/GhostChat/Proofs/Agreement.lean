import GhostChat.Proofs.Uniqueness

/-!
# What is accepted was sent

Injective agreement between the two engines under an adversary who may
replay, reorder, reflect and alter. A message is opened under a key the
receiver derived, the AEAD says an engine sealed something under that key,
and the books say which party and which position: one_way rules out the
receiver itself, the label pins the counter. At most once comes from the keys
too, not from the replay cache, which forgets.

The associated data carries the counters as four masked bytes. For `n` the
receiver checks the range before it returns. For `pn` it checks nothing, so
`pn` and `pn + 2 ^ 32` are one header to the AEAD and two messages to the
caller: `altered_pn_accepted` is such a run, and `accepted_agrees` is the
agreement of every run in which the previous-chain counters stay below
`2 ^ 32`, as the wire parser makes them.
-/

namespace GhostChat.Proofs

open GhostChat.Lib GhostChat.Lib.Effect GhostChat.Ref

variable {K P C : Type} {c : Crypto K P C} {rk : K} {cap : Nat} {σ : Pair K P C}

/-! ## Assumptions and conclusion -/

/-- X25519 between generated keys works and does not depend on the side. -/
structure GoodDh (c : Crypto K P C) : Prop where
  public_length : ∀ p, (c.publicKey p).length = 32
  commutes : ∀ p q, ∃ k, c.sharedKey p (c.publicKey q) = some k ∧
    c.sharedKey q (c.publicKey p) = some k

/-- AEAD decryption undoes encryption. -/
def AeadInverse (c : Crypto K P C) : Prop :=
  ∀ key nonce data ad ct, c.encrypt key nonce data ad = some ct →
    c.decrypt key nonce ct ad = some data

/-- The AEAD is not forged: under a message key of the session, a delivered
ciphertext opens only if an engine made it, under that key, that nonce and
that associated data. -/
def Unforged (c : Crypto K P C) (rk : K) (σ : Pair K P C) : Act P C → Prop
  | .encrypt _ _ => True
  | .decrypt _ msg _ => ∀ l j nonce ad p,
      c.decrypt (msgKey c.toKeyAlg rk l j) nonce msg.ciphertext ad = some p →
      ∃ who pt w, Event.sent who pt w (msgKey c.toKeyAlg rk l j) ∈ σ.log ∧
        w.nonce = nonce ∧ headerAad w.header = ad ∧ w.ciphertext = msg.ciphertext

/-- The previous-chain counters are uint32 values: in every message handed to
a party, and in the state of a party that encrypts. -/
def ShortPn (σ : Pair K P C) : Act P C → Prop
  | .encrypt who _ => (σ.engine who).PN < 2 ^ 32
  | .decrypt _ msg _ => 0 ≤ msg.header.pn ∧ msg.header.pn < 2 ^ 32

/-- Every acceptance in the log (newest first) has its own earlier
encryption, at the peer, of the same plaintext, that returned the very same
message; and no message is accepted twice. -/
structure Agreement (log : List (Event K C)) (f : Nat → Nat) : Prop where
  earlier : ∀ {i : Nat} {who w p k}, log[i]? = some (.accepted who w p k) → i < f i
  same : ∀ {i : Nat} {who w p k}, log[i]? = some (.accepted who w p k) →
    ∃ k', log[f i]? = some (.sent who.other p w k')
  own : ∀ {i j : Nat} {who who' w w' p p' k k'}, log[i]? = some (.accepted who w p k) →
    log[j]? = some (.accepted who' w' p' k') → f i = f j → i = j
  once : ∀ {i j : Nat} {who who' w p p' k k'}, log[i]? = some (.accepted who w p k) →
    log[j]? = some (.accepted who' w p' k') → i = j

/-! ## Headers and their associated data -/

/-- The associated data determines a header whose counters are uint32
values. -/
theorem headerAad_inj {h h' : RatchetMessageHeader} (hd : h.dh.length = 32)
    (hd' : h'.dh.length = 32) (hn : 0 ≤ h.n ∧ h.n < 2 ^ 32)
    (hn' : 0 ≤ h'.n ∧ h'.n < 2 ^ 32) (hp : 0 ≤ h.pn ∧ h.pn < 2 ^ 32)
    (hp' : 0 ≤ h'.pn ∧ h'.pn < 2 ^ 32) (he : headerAad h = headerAad h') : h = h' := by
  unfold headerAad at he
  obtain ⟨hdn, hpn⟩ := List.append_inj he (by simp [hd, hd'])
  obtain ⟨hdh, hnn⟩ := List.append_inj hdn (by rw [hd, hd'])
  have hn₁ := uint32be_eq_iff.mp hnn
  have hp₁ := uint32be_eq_iff.mp hpn
  rw [Int.emod_eq_of_lt hn.1 hn.2, Int.emod_eq_of_lt hn'.1 hn'.2] at hn₁
  rw [Int.emod_eq_of_lt hp.1 hp.2, Int.emod_eq_of_lt hp'.1 hp'.2] at hp₁
  cases h
  cases h'
  simp_all

/-- What the log knows of a message that was sent. -/
structure Genuine (c : Crypto K P C) (rk : K) (pt : Bytes) (w : RatchetWireMessage C)
    (k : K) : Prop where
  position : Sent c.toKeyAlg rk w.header.n k
  key : ∃ p, w.header.dh = c.publicKey p
  counter : 0 ≤ w.header.n
  short : 0 ≤ w.header.pn ∧ w.header.pn < 2 ^ 32
  box : c.encrypt k w.nonce pt (headerAad w.header) = some w.ciphertext

/-- The invariant: the books, what was sent, under which position each
acceptance stands, and the match of every acceptance. -/
structure Agreeing (c : Crypto K P C) (rk : K) (cap : Nat) (σ : Pair K P C) : Prop
    extends PairBooks c rk cap σ where
  genuine : ∀ {who pt w k}, Event.sent who pt w k ∈ σ.log → Genuine c rk pt w k
  labelled : ∀ {who w p k}, Event.accepted who w p k ∈ σ.log →
    ∃ l, k = msgKey c.toKeyAlg rk l w.header.n.toNat
  matched : ∀ {i : Nat} {who w p k}, σ.log[i]? = some (.accepted who w p k) →
    ∃ j : Nat, i < j ∧ σ.log[j]? = some (.sent who.other p w k)

/-! ## One acceptance -/

/-- A party does not accept a key it has sent under. -/
theorem PairBooks.no_reflection (hk : GoodKdf c.toKeyAlg rk) (h : PairBooks c rk cap σ)
    {who : Party} {pt p : Bytes} {w w' : RatchetWireMessage C} {k : K}
    (hs : Event.sent who pt w k ∈ σ.log) (ha : Event.accepted who w' p k ∈ σ.log) :
    False := by
  obtain ⟨path, hled⟩ := h.books who
  have hsent : (w.header.dh, k) ∈ σ.log.filterMap (Event.sentBy who) :=
    List.mem_filterMap.mpr ⟨_, hs, if_pos rfl⟩
  have hgot : k ∈ σ.log.filterMap (Event.acceptedBy who) :=
    List.mem_filterMap.mpr ⟨_, ha, if_pos rfl⟩
  obtain ⟨l, j, hl, hj⟩ := hled.send.known k (List.mem_map_of_mem hsent)
  obtain ⟨l', j', hl', hj'⟩ := hled.recv.known k hgot
  obtain ⟨rfl, -⟩ := hk.msgKey_inj (hj.symm.trans hj')
  exact hl.one_way hl'

theorem Party.eq_or_other (x y : Party) : x = y ∨ x = y.other := by
  cases x <;> cases y <;> simp [Party.other]

/-- A message that is opened was sent: the same header, not only the same
associated data. -/
theorem opened_was_sent (hk : GoodKdf c.toKeyAlg rk) (hdh : GoodDh c)
    (hinv : AeadInverse c) (hcap : cap ≠ 0) {msg w : RatchetWireMessage C}
    {p pt : Bytes} {k : K} (hc : checkHeader msg = .ok ())
    (hrange : msg.header.n.toNat < 2 ^ 32)
    (hpn : 0 ≤ msg.header.pn ∧ msg.header.pn < 2 ^ 32)
    (hrec : Received c rk cap msg.header.dh msg.header.n.toNat k)
    (hdec : c.decrypt k msg.nonce msg.ciphertext (headerAad msg.header) = some p)
    (hg : Genuine c rk pt w k) (hnonce : w.nonce = msg.nonce)
    (had : headerAad w.header = headerAad msg.header)
    (hct : w.ciphertext = msg.ciphertext) :
    w = msg ∧ pt = p ∧ ∃ l, k = msgKey c.toKeyAlg rk l msg.header.n.toNat := by
  obtain ⟨hlen, hn0, -⟩ := checkHeader_ok hc
  obtain ⟨q, hq⟩ := hg.key
  have hwlen : w.header.dh.length = 32 := hq ▸ hdh.public_length q
  have hdheq : w.header.dh = msg.header.dh :=
    (List.append_inj (List.append_inj had (by simp [hwlen, hlen])).1
      (by rw [hwlen, hlen])).1
  obtain ⟨l, j, hj, hlab⟩ := hrec
  -- The label is exact: the header's key is one of the peer's, and X25519
  -- does not fail on those.
  have hjn : j = msg.header.n.toNat := by
    rcases hlab with hlab | ⟨r, hlow⟩ | hbig | hz
    · exact hlab
    · obtain ⟨s, hs, -⟩ := hdh.commutes r q
      rw [← hdheq, hq, hs] at hlow
      cases hlow
    · omega
    · exact absurd hz hcap
  obtain ⟨l', j', hj', hle⟩ := hg.position
  obtain ⟨-, hjj⟩ := hk.msgKey_inj (hj.symm.trans hj')
  have hheader : w.header = msg.header :=
    headerAad_inj hwlen hlen ⟨hg.counter, by omega⟩ ⟨hn0, by omega⟩ hg.short hpn had
  refine ⟨?_, ?_, l, hjn ▸ hj⟩
  · cases w
    cases msg
    simp_all
  · have := hinv _ _ _ _ _ hg.box
    rw [hnonce, had, hct, hdec] at this
    exact (Option.some.inj this).symm

/-! ## One step -/

variable (c rk) in
/-- What is asked of every step. -/
def FairStep (σ : Pair K P C) (act : Act P C) : Prop :=
  FreshKeys c σ act ∧ Unforged c rk σ act ∧ ShortPn σ act

theorem Agreeing.encrypt (hk : GoodKdf c.toKeyAlg rk) (h : Agreeing c rk cap σ)
    {who : Party} {pt : Bytes} (hpn : (σ.engine who).PN < 2 ^ 32) :
    Agreeing c rk cap (σ.step c (.encrypt who pt)) := by
  have hbooks := h.toPairBooks.encrypt hk who pt
  obtain ⟨path, hled⟩ := h.books who
  obtain ⟨-, -, hfacts⟩ := encrypt_keeps hk pt hled
  cases hr : ratchetEncryptKeyed c pt (σ.engine who) with
  | error e s =>
      simp only [Pair.step, hr] at hbooks ⊢
      exact ⟨hbooks, h.genuine, h.labelled, h.matched⟩
  | ok wk s =>
      obtain ⟨w, k⟩ := wk
      obtain ⟨hsent, hkey, hPN, hbox⟩ := hfacts w k s hr
      have hcount := (encrypt_sealed hr).1
      simp only [Pair.step, hr] at hbooks ⊢
      refine ⟨hbooks, fun hm => ?_, fun hm => ?_, fun {i _ _ _ _} hi => ?_⟩
      · rcases List.mem_cons.mp hm with he | hm
        · injection he with h₁ h₂ h₃ h₄
          subst h₁ h₂ h₃ h₄
          exact ⟨hsent, hkey, hcount, by omega, hbox⟩
        · exact h.genuine hm
      · rcases List.mem_cons.mp hm with he | hm
        · cases he
        · exact h.labelled hm
      · cases i with
        | zero => cases hi
        | succ i =>
            obtain ⟨j, hj, he⟩ := h.matched hi
            exact ⟨j + 1, by omega, he⟩

theorem Agreeing.decrypt (hk : GoodKdf c.toKeyAlg rk) (hdh : GoodDh c)
    (hinv : AeadInverse c) (hcap : cap ≠ 0) (h : Agreeing c rk cap σ) {who : Party}
    {msg : RatchetWireMessage C} {g : P} (hf : FairStep c rk σ (.decrypt who msg g)) :
    Agreeing c rk cap (σ.step c (.decrypt who msg g)) := by
  obtain ⟨hfresh, hunf, hpn⟩ := hf
  have hbooks := h.toPairBooks.decrypt hk who msg g hfresh
  obtain ⟨path, hled⟩ := h.books who
  have hnew : c.publicKey g ∉ (σ.handed who).map c.publicKey := by
    intro hm
    obtain ⟨p, hp, he⟩ := List.mem_map.mp hm
    exact hfresh who p hp he
  obtain ⟨-, -, hfacts⟩ := decrypt_keeps hk msg hnew hled
  cases hr : ratchetDecryptKeyed c msg g (σ.engine who) with
  | error e s =>
      simp only [Pair.step, hr] at hbooks ⊢
      exact ⟨hbooks, h.genuine, h.labelled, h.matched⟩
  | ok pk s =>
      obtain ⟨p, k⟩ := pk
      have hrec := hfacts p k s hr
      obtain ⟨hc, s₁, failed, hopen⟩ := decrypt_opened hr
      obtain ⟨hrange, -, hdec⟩ := openWith_ok hopen
      simp only [Pair.step, hr] at hbooks ⊢
      obtain ⟨l, j, hj, -⟩ := id hrec
      obtain ⟨x, pt, w, hmem, hnonce, had, hct⟩ :=
        hunf l j msg.nonce (headerAad msg.header) p (hj ▸ hdec)
      rw [← hj] at hmem
      obtain ⟨rfl, rfl, hlab⟩ := opened_was_sent hk hdh hinv hcap hc hrange hpn hrec hdec
        (h.genuine hmem) hnonce had hct
      have hx : x = who.other := by
        rcases Party.eq_or_other x who with rfl | hx
        · exact (hbooks.no_reflection hk (List.mem_cons_of_mem _ hmem)
            List.mem_cons_self).elim
        · exact hx
      subst hx
      refine ⟨hbooks, fun hm => ?_, fun hm => ?_, fun {i _ _ _ _} hi => ?_⟩
      · rcases List.mem_cons.mp hm with he | hm
        · cases he
        · exact h.genuine hm
      · rcases List.mem_cons.mp hm with he | hm
        · injection he with _ hw _ hkk
          rw [hw, hkk]
          exact hlab
        · exact h.labelled hm
      · cases i with
        | zero =>
            obtain ⟨j, hj⟩ := List.mem_iff_getElem?.mp hmem
            rw [List.getElem?_cons_zero] at hi
            injection hi with hi
            injection hi with h₁ h₂ h₃ h₄
            subst h₁ h₂ h₃ h₄
            exact ⟨j + 1, by omega, hj⟩
        | succ i =>
            obtain ⟨j, hj, he⟩ := h.matched hi
            exact ⟨j + 1, by omega, he⟩

theorem Agreeing.step (hk : GoodKdf c.toKeyAlg rk) (hdh : GoodDh c)
    (hinv : AeadInverse c) (hcap : cap ≠ 0) (σ : Pair K P C) (act : Act P C)
    (h : Agreeing c rk cap σ) (hf : FairStep c rk σ act) :
    Agreeing c rk cap (σ.step c act) := by
  cases act with
  | encrypt who pt => exact h.encrypt hk hf.2.2
  | decrypt who msg g => exact h.decrypt hk hdh hinv hcap hf

/-! ## Whole runs -/

theorem Agreeing.run (hk : GoodKdf c.toKeyAlg rk) (hdh : GoodDh c)
    (hinv : AeadInverse c) (hcap : cap ≠ 0) {gen : Party → P}
    (hgen : c.publicKey (gen .initiator) ≠ c.publicKey (gen .responder))
    (hstart : Pair.start c rk cap gen = .ok σ) {acts : List (Act P C)}
    (hfair : Along (Pair.step c) (FairStep c rk) σ acts) :
    Agreeing c rk cap (σ.run c acts) := by
  refine hfair.invariant (Agreeing.step hk hdh hinv hcap) ?_
  have hlog := (start_ok hstart).2.2
  refine ⟨PairBooks.start hk hgen hstart, ?_, ?_, ?_⟩
  · intro who pt w k hm
    rw [hlog] at hm
    cases hm
  · intro who w p k hm
    rw [hlog] at hm
    cases hm
  · intro i who w p k hi
    rw [hlog] at hi
    cases hi

/-- Two acceptances of one party under one key are one acceptance. -/
theorem PairBooks.accepted_once (h : PairBooks c rk cap σ) {i j : Nat} {who : Party}
    {w w' : RatchetWireMessage C} {p p' : Bytes} {k : K}
    (hi : σ.log[i]? = some (.accepted who w p k))
    (hj : σ.log[j]? = some (.accepted who w' p' k)) : i = j := by
  obtain ⟨path, hled⟩ := h.books who
  have hnd := (List.nodup_append.mp hled.recv.nodup).1
  rw [List.Nodup, List.pairwise_filterMap, List.pairwise_iff_getElem] at hnd
  obtain ⟨hi', hi⟩ := List.getElem?_eq_some_iff.mp hi
  obtain ⟨hj', hj⟩ := List.getElem?_eq_some_iff.mp hj
  have hkey : ∀ w p, Event.acceptedBy who (.accepted who w p k : Event K C) = some k :=
    fun w p => if_pos rfl
  rcases Nat.lt_trichotomy i j with hlt | heq | hlt
  · exact absurd rfl (hnd i j hi' hj' hlt k (by rw [hi, hkey]) k (by rw [hj, hkey]))
  · exact heq
  · exact absurd rfl (hnd j i hj' hi' hlt k (by rw [hj, hkey]) k (by rw [hi, hkey]))

/-- A header key belongs to one party. -/
theorem PairBooks.header_owner (h : PairBooks c rk cap σ) {who who' : Party}
    {pt pt' : Bytes} {w w' : RatchetWireMessage C} {k k' : K}
    (hs : Event.sent who pt w k ∈ σ.log) (hs' : Event.sent who' pt' w' k' ∈ σ.log)
    (hdh : w.header.dh = w'.header.dh) : who = who' := by
  have hown : ∀ {x pt k} {w : RatchetWireMessage C}, Event.sent x pt w k ∈ σ.log →
      ∃ p ∈ σ.handed x, c.publicKey p = w.header.dh := by
    intro x pt k w hm
    obtain ⟨path, hled⟩ := h.books x
    exact List.mem_map.mp (hled.heads.own (w.header.dh, k)
      (List.mem_filterMap.mpr ⟨_, hm, if_pos rfl⟩))
  obtain ⟨p, hp, he⟩ := hown hs
  obtain ⟨q, hq, he'⟩ := hown hs'
  have hpq : c.publicKey p = c.publicKey q := by rw [he, he', hdh]
  cases who <;> cases who'
  · rfl
  · exact absurd hpq (h.apart p hp q hq)
  · exact absurd hpq.symm (h.apart q hq p hp)
  · rfl

/-- One message accepted at two places was accepted under one key: the header
fixes the chain of the sender and the position in it. -/
theorem Agreeing.accepted_key (hk : GoodKdf c.toKeyAlg rk) (h : Agreeing c rk cap σ)
    {i j : Nat} {who : Party} {w : RatchetWireMessage C} {p p' : Bytes} {k k' : K}
    (hi : σ.log[i]? = some (.accepted who w p k))
    (hj : σ.log[j]? = some (.accepted who w p' k')) : k = k' := by
  obtain ⟨l, hl⟩ := h.labelled (List.mem_of_getElem? hi)
  obtain ⟨l', hl'⟩ := h.labelled (List.mem_of_getElem? hj)
  obtain ⟨a, -, ha⟩ := h.matched hi
  obtain ⟨b, -, hb⟩ := h.matched hj
  obtain ⟨path, hled⟩ := h.books who.other
  obtain ⟨l₀, m, m', hm, hm'⟩ := hled.heads.same (w.header.dh, k)
    (List.mem_filterMap.mpr ⟨_, List.mem_of_getElem? ha, if_pos rfl⟩)
    (w.header.dh, k') (List.mem_filterMap.mpr ⟨_, List.mem_of_getElem? hb, if_pos rfl⟩) rfl
  obtain ⟨h₁, -⟩ := hk.msgKey_inj (hl.symm.trans hm)
  obtain ⟨h₂, -⟩ := hk.msgKey_inj (hl'.symm.trans hm')
  rw [hl, hl', h₁, h₂]

/-- Injective agreement, over every run of the two engines under an adversary
who keeps the previous-chain counters in their encoding's range. -/
theorem accepted_agrees (hk : GoodKdf c.toKeyAlg rk) (hdh : GoodDh c)
    (hinv : AeadInverse c) {gen : Party → P}
    (hgen : c.publicKey (gen .initiator) ≠ c.publicKey (gen .responder))
    (hstart : Pair.start c rk maxSkippedKeysDefault gen = .ok σ) {acts : List (Act P C)}
    (hfair : Along (Pair.step c) (FairStep c rk) σ acts) :
    ∃ f, Agreement (σ.run c acts).log f := by
  have h := Agreeing.run hk hdh hinv (by decide) hgen hstart hfair
  -- Each acceptance points to the encryption under its own key.
  have hex : ∀ i : Nat, ∃ j, ∀ who w p k,
      (σ.run c acts).log[i]? = some (.accepted who w p k) →
      i < j ∧ (σ.run c acts).log[j]? = some (.sent who.other p w k) := by
    intro i
    cases he : (σ.run c acts).log[i]? with
    | none => exact ⟨0, nofun⟩
    | some e =>
        cases e with
        | sent x pt w k => exact ⟨0, nofun⟩
        | accepted x w p k =>
            obtain ⟨j, hj⟩ := h.matched he
            refine ⟨j, fun who w' p' k' heq => ?_⟩
            injection heq with heq
            injection heq with h₁ h₂ h₃ h₄
            subst h₁ h₂ h₃ h₄
            exact hj
  choose f hf using hex
  refine ⟨f, fun hi => (hf _ _ _ _ _ hi).1, fun hi => ⟨_, (hf _ _ _ _ _ hi).2⟩, ?_, ?_⟩
  · intro i j who who' w w' p p' k k' hi hj hff
    have hsi := (hf _ _ _ _ _ hi).2
    have hsj := (hf _ _ _ _ _ hj).2
    rw [← hff, hsi] at hsj
    injection hsj with hsj
    injection hsj with h₁ h₂ h₃ h₄
    have hwho : who = who' := by rw [← Party.other_other who, h₁, Party.other_other]
    subst hwho h₄
    exact h.accepted_once hi hj
  · intro i j who who' w p p' k k' hi hj
    have hmi := List.mem_of_getElem? (hf _ _ _ _ _ hi).2
    have hmj := List.mem_of_getElem? (hf _ _ _ _ _ hj).2
    have hwho : who = who' := by
      rw [← Party.other_other who, h.header_owner hmi hmj rfl, Party.other_other]
    subst hwho
    obtain rfl := h.accepted_key hk hi hj
    exact h.accepted_once hi hj

/-! ## The symbolic model: one run inside the range, one outside -/

theorem symbolic_goodDh : GoodDh symbolic where
  public_length := fun _ => rfl
  commutes := fun p q => by
    have hne : ∀ p, symPublicKey p ≠ List.replicate 32 0 := by
      intro p h
      injection h with h
      cases h
    refine ⟨.atom (.shared (unordered (symPublicKey p) (symPublicKey q))), ?_, ?_⟩
    · simp only [symbolic, if_neg (hne q)]
    · simp only [symbolic, if_neg (hne p), unordered_symPublicKey]

theorem symbolic_aeadInverse : AeadInverse symbolic := by
  intro key nonce data ad ct h
  injection h with h
  subst h
  exact if_pos ⟨rfl, rfl, rfl⟩

/-- The delivered box is one of the log's. -/
def Relayed (σ : Pair SymKey Nat Box) : Act Nat Box → Prop
  | .encrypt _ _ => True
  | .decrypt _ msg _ => ∃ e ∈ σ.log, match e with
      | .sent _ _ w k => w.ciphertext = msg.ciphertext ∧ w.ciphertext.key = k ∧
          w.ciphertext.nonce = w.nonce ∧ w.ciphertext.ad = headerAad w.header
      | .accepted .. => False

instance Relayed.decidable (σ : Pair SymKey Nat Box) : ∀ act, Decidable (Relayed σ act)
  | .encrypt _ _ => isTrue trivial
  | .decrypt _ _ _ => by
      refine @List.decidableBEx _ _ (fun e => ?_) σ.log
      cases e
      · exact inferInstanceAs (Decidable (_ ∧ _ ∧ _ ∧ _))
      · exact inferInstanceAs (Decidable False)

/-- An adversary who only moves boxes around forges none. -/
theorem Relayed.unforged {σ : Pair SymKey Nat Box} {act : Act Nat Box}
    (h : Relayed σ act) : Unforged symbolic symRoot σ act := by
  cases act with
  | encrypt who pt => trivial
  | decrypt who msg g =>
      intro l j nonce ad p hdec
      obtain ⟨e, hmem, he⟩ := h
      cases e with
      | accepted => exact he.elim
      | sent x pt w k =>
          obtain ⟨hct, hkey, hnonce, had⟩ := he
          simp only [symbolic] at hdec
          split at hdec
          · next hopen =>
              rw [← hct] at hopen
              rw [hkey, hnonce, had] at hopen
              obtain ⟨rfl, rfl, rfl⟩ := hopen
              exact ⟨x, pt, w, hmem, rfl, rfl, hct⟩
          · cases hdec

instance ShortPn.decidable (σ : Pair K P C) : ∀ act, Decidable (ShortPn σ act)
  | .encrypt _ _ => inferInstanceAs (Decidable (_ < _))
  | .decrypt _ _ _ => inferInstanceAs (Decidable (_ ∧ _))

/-- Two messages, delivered out of order, replayed and reflected. -/
def replayedTraffic : List (Act Nat Box) := script (symPair maxSkippedKeysDefault) [
  fun _ => .encrypt .initiator [10], fun _ => .encrypt .initiator [11],
  relay .responder 1 3 id, relay .responder 0 4 id, relay .responder 0 5 id,
  relay .initiator 0 6 id]

theorem accepted_agrees_replayedTraffic :
    (((symPair maxSkippedKeysDefault).run symbolic replayedTraffic).log.filterMap
      (Event.acceptedBy .responder)).length = 2 ∧
    ∃ f, Agreement ((symPair maxSkippedKeysDefault).run symbolic replayedTraffic).log f := by
  have hfair : Along (Pair.step symbolic)
      (fun σ act => FreshKeys symbolic σ act ∧ Relayed σ act ∧ ShortPn σ act)
      (symPair maxSkippedKeysDefault) replayedTraffic := by decide +kernel
  exact ⟨by decide +kernel, accepted_agrees symbolic_good symbolic_goodDh
    symbolic_aeadInverse (by decide) (symPair_start _)
    (hfair.mono fun _ _ h => ⟨h.1, h.2.1.unforged, h.2.2⟩)⟩

/-- One message, its `pn` raised by `2 ^ 32` on the way. -/
def alteredPn : List (Act Nat Box) := script (symPair maxSkippedKeysDefault) [
  fun _ => .encrypt .initiator [10],
  relay .responder 0 3 fun w =>
    { w with header := { w.header with pn := w.header.pn + 2 ^ 32 } }]

/-- The responder accepts a message nobody sent. -/
theorem altered_pn_accepted :
    Along (Pair.step symbolic) (fun σ act => FreshKeys symbolic σ act ∧
      Unforged symbolic symRoot σ act) (symPair maxSkippedKeysDefault) alteredPn ∧
    ¬ ∃ f, Agreement ((symPair maxSkippedKeysDefault).run symbolic alteredPn).log f := by
  constructor
  · have hrel : Along (Pair.step symbolic)
        (fun σ act => FreshKeys symbolic σ act ∧ Relayed σ act)
        (symPair maxSkippedKeysDefault) alteredPn := by decide +kernel
    exact hrel.mono fun _ _ h => ⟨h.1, h.2.unforged⟩
  · rintro ⟨f, hf⟩
    -- The log has two entries, and the sent one carries `pn = 0`.
    have hlog : ∃ w p k x pt w' k',
        ((symPair maxSkippedKeysDefault).run symbolic alteredPn).log
          = [.accepted .responder w p k, .sent x pt w' k'] ∧
        w.header.pn ≠ w'.header.pn := ⟨_, _, _, _, _, _, _, rfl, by decide +kernel⟩
    obtain ⟨w, p, k, x, pt, w', k', hlog, hne⟩ := hlog
    rw [hlog] at hf
    have hlt := hf.earlier (i := 0) rfl
    obtain ⟨k'', hs⟩ := hf.same (i := 0) rfl
    rcases Nat.lt_or_ge (f 0) 2 with h2 | h2
    · have h1 : f 0 = 1 := by omega
      rw [h1] at hs
      injection hs with hs
      injection hs with _ _ hw _
      exact hne (by rw [hw])
    · rw [List.getElem?_eq_none h2] at hs
      cases hs

end GhostChat.Proofs
