import GhostChat.Lib.Attacker
import GhostChat.Proofs.Computed

/-!
# What a leaked state opens

Somebody reads one engine's memory: the root key, the chain keys, the message
keys put aside, the DH private key. Which messages of the past can he read?

A message key that was used stands behind what is held: its chain key was
stepped over, and the root its chain came from was replaced. So no used key
can be computed, and he may be given every DH output there is besides
(`opens_past_iff`). There is one exception and it is the code's: the bootstrap
chain is derived from the root key `create_initial_state` was given, and that
root key stays in memory until the first DH output is folded into it. Until
then a leaked state opens every message of the session so far.
-/

namespace GhostChat.Proofs

open GhostChat.Lib GhostChat.Lib.Effect GhostChat.Ref

variable {P C : Type} {c : Crypto SymKey P C} {cap : Nat} {who : Party} {k t : SymKey}
  {l : List SymKey}

/-- HKDF is a constructor, and a DH output is an atom. -/
structure FreeTerms (c : Crypto SymKey P C) : Prop where
  keys : c.toKeyAlg = symKeys
  shared : ∀ p X k, c.sharedKey p X = some k → ∃ ks, k = .atom (.shared ks)

/-- DH outputs, by the pair of public keys they belong to. -/
def dhOutputs (known : Set (Bytes × Bytes)) : Set SymKey :=
  { t | ∃ ks ∈ known, t = .atom (.shared ks) }

/-- The attacker's share of one engine. -/
def leaked (s : DoubleRatchetState SymKey P) (known : Set (Bytes × Bytes)) : Set SymKey :=
  heldKeys s ∪ dhOutputs known

theorem symbolic_freeTerms : FreeTerms symbolic where
  keys := rfl
  shared := fun _ _ _ h => ⟨_, symbolic_shared h⟩

/-! ## Which key is which

The label and the block of the outermost derivation tell root keys, chain
keys and message keys apart. -/

/-- The last derivation of a key, `none` for the root key of the handshake. -/
def lastStep : SymKey → Option (Bytes × Nat)
  | .kdf _ _ info block => some (info, block)
  | _ => none

theorem lastStep_rootAfter (l : List SymKey) :
    lastStep (rootAfter symKeys symRoot l) = none ∨
      lastStep (rootAfter symKeys symRoot l) = some (rootInfo, 0) := by
  cases l with
  | nil => exact Or.inl rfl
  | cons s l => exact Or.inr rfl

theorem lastStep_chainKey (l : List SymKey) (j : Nat) :
    lastStep (chainKey symKeys symRoot l j) = some (firstSendInfo, 0) ∨
      lastStep (chainKey symKeys symRoot l j) = some (rootInfo, 1) ∨
      lastStep (chainKey symKeys symRoot l j) = some (chainInfo, 0) := by
  cases j with
  | succ j =>
      rw [chainKey_succ]
      exact Or.inr (Or.inr rfl)
  | zero =>
      cases l with
      | nil => exact Or.inl rfl
      | cons s l => exact Or.inr (Or.inl rfl)

theorem rootAfter_ne_chainKey (l l' : List SymKey) (j : Nat) :
    rootAfter symKeys symRoot l ≠ chainKey symKeys symRoot l' j := by
  intro h
  have hr := lastStep_rootAfter l
  rw [h] at hr
  rcases lastStep_chainKey l' j with hc | hc | hc <;> rw [hc] at hr <;> revert hr <;> decide

theorem rootAfter_ne_msgKey (l l' : List SymKey) (j : Nat) :
    rootAfter symKeys symRoot l ≠ msgKey symKeys symRoot l' j := by
  intro h
  have hr := lastStep_rootAfter l
  rw [h, show lastStep (msgKey symKeys symRoot l' j) = some (chainInfo, 1) from rfl] at hr
  revert hr
  decide

theorem chainKey_ne_msgKey (l l' : List SymKey) (j j' : Nat) :
    chainKey symKeys symRoot l j ≠ msgKey symKeys symRoot l' j' := by
  intro h
  have hm : lastStep (msgKey symKeys symRoot l' j') = some (chainInfo, 1) := rfl
  rw [← h] at hm
  rcases lastStep_chainKey l j with hc | hc | hc <;> rw [hc] at hm <;> revert hm <;> decide

theorem rootAfter_cons (s : SymKey) (l : List SymKey) :
    rootAfter symKeys symRoot (s :: l) = .kdf s (rootAfter symKeys symRoot l) rootInfo 0 := by
  have hlen : (symKeys.bytes (rootAfter symKeys symRoot l)).length = 32 :=
    symbolic_good.rootAfter_length l
  show (kdfRoot symKeys (rootAfter symKeys symRoot l) s).1 = _
  rw [kdfRoot, rootKeyOrSalt_of_length hlen]
  rfl

theorem chainHead_cons (s : SymKey) (l : List SymKey) :
    chainHead symKeys symRoot (s :: l) = .kdf s (rootAfter symKeys symRoot l) rootInfo 1 := by
  have hlen : (symKeys.bytes (rootAfter symKeys symRoot l)).length = 32 :=
    symbolic_good.rootAfter_length l
  show (kdfRoot symKeys (rootAfter symKeys symRoot l) s).2 = _
  rw [kdfRoot, rootKeyOrSalt_of_length hlen]
  rfl

/-- The root key of the handshake, or a key that was derived. -/
def IsDerived (t : SymKey) : Prop := t = symRoot ∨ ∃ i s f b, t = .kdf i s f b

theorem IsDerived.ne_lit (h : IsDerived t) (b : Bytes) : t ≠ .lit b := by
  rintro rfl
  rcases h with h | ⟨i, s, f, b, h⟩ <;> cases h

theorem IsDerived.ne_cat (h : IsDerived t) (x y : SymKey) : t ≠ .cat x y := by
  rintro rfl
  rcases h with h | ⟨i, s, f, b, h⟩ <;> cases h

theorem IsDerived.ne_shared (h : IsDerived t) (ks : Bytes × Bytes) : t ≠ .atom (.shared ks) := by
  rintro rfl
  rcases h with h | ⟨i, s, f, b, h⟩ <;> cases h

theorem rootAfter_derived (l : List SymKey) : IsDerived (rootAfter symKeys symRoot l) := by
  cases l with
  | nil => exact Or.inl rfl
  | cons s l => exact Or.inr ⟨_, _, _, _, rootAfter_cons s l⟩

theorem chainKey_derived (l : List SymKey) (j : Nat) : IsDerived (chainKey symKeys symRoot l j) := by
  cases j with
  | succ j => exact Or.inr ⟨_, _, _, _, chainKey_succ l j⟩
  | zero =>
      cases l with
      | nil => exact Or.inr ⟨_, _, _, _, rfl⟩
      | cons s l => exact Or.inr ⟨_, _, _, _, chainHead_cons s l⟩

theorem msgKey_derived (l : List SymKey) (j : Nat) : IsDerived (msgKey symKeys symRoot l j) :=
  Or.inr ⟨_, _, _, _, rfl⟩

/-! ## The past -/

/-- The keys a party with the path `o` has left behind: roots that were
replaced, chain keys before the ones it holds, and the message keys it split
off those and does not hold any more. -/
inductive LeftBehind (o : List SymKey) (held : Set SymKey) : SymKey → Prop
  | root {l : List SymKey} : l <:+ o → l ≠ o → LeftBehind o held (rootAfter symKeys symRoot l)
  | chain {l : List SymKey} {j : Nat} : l <:+ o →
      (∀ k, chainKey symKeys symRoot l k ∈ held → j < k) →
      LeftBehind o held (chainKey symKeys symRoot l j)
  | message {l : List SymKey} {j : Nat} : l <:+ o →
      (∀ k, chainKey symKeys symRoot l k ∈ held → j < k) →
      msgKey symKeys symRoot l j ∉ held → LeftBehind o held (msgKey symKeys symRoot l j)

theorem LeftBehind.derived {o : List SymKey} {held : Set SymKey} (h : LeftBehind o held t) :
    IsDerived t := by
  cases h with
  | root hl hne => exact rootAfter_derived _
  | chain hl hlt => exact chainKey_derived _ _
  | message hl hlt hnot => exact msgKey_derived _ _

/-- Once the first root is gone, what is left behind was derived from what is
left behind. -/
theorem LeftBehind.sheltered {o : List SymKey} (ho : o ≠ []) (held : Set SymKey) :
    Term.Sheltered { t | LeftBehind o held t } where
  lit := fun b h => LeftBehind.derived h |>.ne_lit b rfl
  cat := fun x y h => LeftBehind.derived h |>.ne_cat x y rfl
  parent := by
    intro i s f b h
    -- The path is longer than the tail of one of its suffixes.
    have hshort : ∀ (x : SymKey) (l : List SymKey), (x :: l) <:+ o → LeftBehind o held
        (rootAfter symKeys symRoot l) := by
      intro x l hl
      refine .root ((List.suffix_cons x l).trans hl) ?_
      rintro rfl
      have := hl.length_le
      rw [List.length_cons] at this
      omega
    generalize ht : Term.kdf i s f b = t at h
    cases h with
    | @root l hl hne =>
        cases l with
        | nil => cases ht
        | cons x l =>
            rw [rootAfter_cons] at ht
            injection ht with _ hs
            exact Or.inr (hs ▸ hshort x l hl)
    | @chain l j hl hlt =>
        cases j with
        | succ j =>
            rw [chainKey_succ] at ht
            injection ht with hi
            refine Or.inl (hi ▸ .chain hl fun k hk => ?_)
            have := hlt k hk
            omega
        | zero =>
            cases l with
            | nil =>
                injection ht with hi
                exact Or.inl (hi ▸ LeftBehind.root (l := []) hl (Ne.symm ho))
            | cons x l =>
                rw [show chainKey symKeys symRoot (x :: l) 0
                  = chainHead symKeys symRoot (x :: l) from rfl, chainHead_cons] at ht
                injection ht with _ hs
                exact Or.inr (hs ▸ hshort x l hl)
    | @message l j hl hlt hnot =>
        injection ht with hi
        exact Or.inl (hi ▸ .chain hl hlt)

/-- A key that is held was not left behind. -/
theorem LeftBehind.not_held {o : List SymKey} {held : Set SymKey} (h : LeftBehind o held t)
    (hroots : ∀ l, rootAfter symKeys symRoot l ∈ held → l = o) : t ∉ held := by
  intro ht
  cases h with
  | @root l hl hne => exact hne (hroots l ht)
  | @chain l j hl hlt => exact absurd (hlt j ht) (Nat.lt_irrefl j)
  | @message l j hl hlt hnot => exact hnot ht

/-- Nothing left behind can be computed from what is held and all DH outputs
there are. -/
theorem LeftBehind.not_derivable {o : List SymKey} (ho : o ≠ []) {held : Set SymKey}
    (hroots : ∀ l, rootAfter symKeys symRoot l ∈ held → l = o) (hheld : ∀ u ∈ held, IsDerived u)
    (h : LeftBehind o held t) (known : Set (Bytes × Bytes)) :
    ¬ Term.Derivable (held ∪ dhOutputs known) t := by
  refine (LeftBehind.sheltered ho held).not_derivable ?_ h
  intro u hu v hv hbehind
  rcases hu with hu | ⟨ks, -, rfl⟩
  · rw [Term.parts_of_not_cat (hheld u hu).ne_cat] at hv
    rw [show v = u from hv] at hbehind
    exact LeftBehind.not_held hbehind hroots hu
  · rw [show v = .atom (.shared ks) from hv] at hbehind
    exact (LeftBehind.derived hbehind).ne_shared ks rfl

section Books

variable {boot : Bool} {mine : List Bytes} {path : List (RootStep SymKey P)}
  {sent : List (Bytes × SymKey)} {got : List SymKey} {s : DoubleRatchetState SymKey P}

theorem IsChain.suffix {dir : Bool} (h : IsChain boot dir path l) : l <:+ outputs path := by
  rcases h with ⟨-, rfl⟩ | ⟨st, t, hsuf, -, rfl⟩
  · exact List.nil_suffix
  · exact hsuf.map _

variable (hc : c.toKeyAlg = symKeys) (h : Ledger c symRoot cap boot mine path sent got s)

include hc h

/-- Everything held has an address: the root, a chain key of a chain that was
opened for sending or for receiving, a message key put aside. -/
theorem Ledger.held_cases (ht : t ∈ heldKeys s) :
    t = rootAfter symKeys symRoot (outputs path) ∨
    (∃ dir l k, IsChain boot dir path l ∧ t = chainKey symKeys symRoot l k) ∨
    ∃ l j, IsChain boot false path l ∧ t = msgKey symKeys symRoot l j := by
  rcases ht with rfl | hs | hr | ⟨e, he, rfl⟩
  · exact Or.inl (hc ▸ h.root)
  · obtain ⟨l, k, hl, hk, -⟩ := h.send.cur t hs
    exact Or.inr (Or.inl ⟨true, l, k, hl, hc ▸ hk⟩)
  · obtain ⟨l, k, hl, hk, -⟩ := h.recv.cur t hr
    exact Or.inr (Or.inl ⟨false, l, k, hl, hc ▸ hk⟩)
  · obtain ⟨l, j, hl, hj, -⟩ := h.recv.stored e.1.1 e.1.2 e.2 he
    exact Or.inr (Or.inr ⟨l, j, hl, hc ▸ hj⟩)

theorem Ledger.held_roots (hmem : rootAfter symKeys symRoot l ∈ heldKeys s) :
    l = outputs path := by
  rcases h.held_cases hc hmem with he | ⟨dir, l', k, -, he⟩ | ⟨l', j, -, he⟩
  · exact symbolic_good.rootAfter_inj he
  · exact absurd he (rootAfter_ne_chainKey l l' k)
  · exact absurd he (rootAfter_ne_msgKey l l' j)

theorem Ledger.held_derived : ∀ u ∈ heldKeys s, IsDerived u := by
  intro u hu
  rcases h.held_cases hc hu with rfl | ⟨dir, l, k, -, rfl⟩ | ⟨l, j, -, rfl⟩
  · exact rootAfter_derived _
  · exact chainKey_derived l k
  · exact msgKey_derived l j

/-- A chain key that is held is the current one of its direction. -/
theorem Ledger.held_chain {k : Nat} (hmem : chainKey symKeys symRoot l k ∈ heldKeys s) :
    s.sendingChainKey = some (chainKey symKeys symRoot l k) ∨
      s.receivingChainKey = some (chainKey symKeys symRoot l k) := by
  rcases hmem with he | hs | hr | ⟨e, he, hek⟩
  · rw [h.root, hc] at he
    exact absurd he.symm (rootAfter_ne_chainKey (outputs path) l k)
  · exact Or.inl hs
  · exact Or.inr hr
  · obtain ⟨l', j, -, hj, -⟩ := h.recv.stored e.1.1 e.1.2 e.2 he
    rw [hek, hc] at hj
    exact absurd hj (chainKey_ne_msgKey l l' k j)

/-- A message key that is held is one put aside. -/
theorem Ledger.held_message {j : Nat} (hmem : msgKey symKeys symRoot l j ∈ heldKeys s) :
    msgKey symKeys symRoot l j ∈ s.skippedMessageKeys.store.map (·.2) := by
  rcases hmem with he | hs | hr | ⟨e, he, hek⟩
  · rw [h.root, hc] at he
    exact absurd he.symm (rootAfter_ne_msgKey (outputs path) l j)
  · obtain ⟨l', k, -, hk, -⟩ := h.send.cur _ hs
    rw [hc] at hk
    exact absurd hk.symm (chainKey_ne_msgKey l' l k j)
  · obtain ⟨l', k, -, hk, -⟩ := h.recv.cur _ hr
    rw [hc] at hk
    exact absurd hk.symm (chainKey_ne_msgKey l' l k j)
  · exact List.mem_map.mpr ⟨e, he, hek⟩

/-- A key encrypted with is left behind: the sending chain stands past it, and
the other keys belong to receiving chains. -/
theorem Ledger.sent_leftBehind (hk : k ∈ sent.map (·.2)) :
    LeftBehind (outputs path) (heldKeys s) k := by
  obtain ⟨l, j, hl, rfl⟩ := h.send.known k hk
  rw [hc] at hk ⊢
  refine .message hl.suffix (fun k' hk' => ?_) fun hmem => ?_
  · rcases h.held_chain hc hk' with hs | hr
    · obtain ⟨l', k₁, -, he, -, hlt⟩ := h.send.cur _ hs
      rw [hc] at he hlt
      obtain ⟨rfl, rfl⟩ := symbolic_good.chainKey_inj he
      exact hlt j hk
    · obtain ⟨l', k₁, hl', he, -⟩ := h.recv.cur _ hr
      rw [hc] at he
      obtain ⟨rfl, -⟩ := symbolic_good.chainKey_inj he
      exact (hl.one_way hl').elim
  · obtain ⟨l', j', hl', he⟩ := h.recv.address
      (List.mem_append_right got (h.held_message hc hmem))
    rw [hc] at he
    obtain ⟨rfl, -⟩ := symbolic_good.msgKey_inj he
    exact (hl.one_way hl').elim

/-- So is a key decrypted with. -/
theorem Ledger.got_leftBehind (hk : k ∈ got) : LeftBehind (outputs path) (heldKeys s) k := by
  obtain ⟨l, j, hl, rfl⟩ := h.recv.known k hk
  rw [hc] at hk ⊢
  refine .message hl.suffix (fun k' hk' => ?_) fun hmem => ?_
  · rcases h.held_chain hc hk' with hs | hr
    · obtain ⟨l', k₁, hl', he, -⟩ := h.send.cur _ hs
      rw [hc] at he
      obtain ⟨rfl, -⟩ := symbolic_good.chainKey_inj he
      exact (hl'.one_way hl).elim
    · obtain ⟨l', k₁, -, he, -, hlt⟩ := h.recv.cur _ hr
      rw [hc] at he hlt
      obtain ⟨rfl, rfl⟩ := symbolic_good.chainKey_inj he
      exact hlt j (List.mem_append_left _ hk)
  · have hdisj := (List.nodup_append.mp h.recv.nodup).2.2
    exact hdisj _ hk _ (h.held_message hc hmem) rfl

/-- With the first root key everything used so far is derived from it. -/
theorem Ledger.derivable_of_unturned (hk : k ∈ sent.map (·.2) ∨ k ∈ got)
    (hroot : s.rootKey = symRoot) (S : Set SymKey) (hS : s.rootKey ∈ S) :
    Term.Derivable S k := by
  have ho : outputs path = [] := by
    have he : rootAfter symKeys symRoot (outputs path) = rootAfter symKeys symRoot [] := by
      rw [← hc, ← h.root, hroot]
      rfl
    exact symbolic_good.rootAfter_inj he
  have hkey : ∃ j, k = msgKey symKeys symRoot [] j := by
    rcases hk with hk | hk
    · obtain ⟨l, j, hl, rfl⟩ := h.send.known k hk
      have hnil := hl.suffix
      rw [ho, List.suffix_nil] at hnil
      exact ⟨j, by rw [hc, hnil]⟩
    · obtain ⟨l, j, hl, rfl⟩ := h.recv.known k hk
      have hnil := hl.suffix
      rw [ho, List.suffix_nil] at hnil
      exact ⟨j, by rw [hc, hnil]⟩
  have hchain : ∀ j, Term.Derivable S (chainKey symKeys symRoot [] j) := by
    intro j
    induction j with
    | zero => exact .kdf _ _ (.known (hroot ▸ hS)) (.lit _)
    | succ j ih =>
        rw [chainKey_succ]
        exact .kdf _ _ ih (.lit _)
  obtain ⟨j, rfl⟩ := hkey
  exact .kdf _ _ (hchain j) (.lit _)

end Books

/-- The keys `who` has encrypted and decrypted with so far. -/
def usedKeys (who : Party) (log : List (Event SymKey C)) : List SymKey :=
  log.filterMap (keyUsedBy who)

theorem mem_usedKeys {log : List (Event SymKey C)} (h : k ∈ usedKeys who log) :
    k ∈ (log.filterMap (Event.sentBy who)).map (·.2) ∨
      k ∈ log.filterMap (Event.acceptedBy who) := by
  obtain ⟨e, he, hk⟩ := List.mem_filterMap.mp h
  cases e with
  | sent x pt w mk =>
      simp only [keyUsedBy] at hk
      split at hk
      · next hx =>
          injection hk with hk
          subst hk
          exact Or.inl (List.mem_map.mpr
            ⟨(w.header.dh, mk), List.mem_filterMap.mpr ⟨_, he, if_pos hx⟩, rfl⟩)
      · cases hk
  | accepted x w pt mk =>
      simp only [keyUsedBy] at hk
      split at hk
      · next hx =>
          injection hk with hk
          subst hk
          exact Or.inr (List.mem_filterMap.mpr ⟨_, he, if_pos hx⟩)
      · cases hk

/-- Over every run, under any messages: whoever reads an engine's memory, and
knows every DH output there is, computes a key the engine has used exactly if
the engine still has the root key it was made with. -/
theorem opens_past_iff (hc : FreeTerms c) {gen : Party → P}
    (hgen : c.publicKey (gen .initiator) ≠ c.publicKey (gen .responder))
    {σ : Pair SymKey P C} (hstart : Pair.start c symRoot cap gen = .ok σ)
    {acts : List (Act P C)} (hfresh : Along (Pair.step c) (FreshKeys c) σ acts)
    (hk : k ∈ usedKeys who (σ.run c acts).log) :
    Term.Derivable (leaked ((σ.run c acts).engine who) Set.univ) k ↔
      ((σ.run c acts).engine who).rootKey = symRoot := by
  have hgood : GoodKdf c.toKeyAlg symRoot := by
    rw [hc.keys]
    exact symbolic_good
  obtain ⟨path, h⟩ := (PairBooks.run hgood hgen hstart hfresh).books who
  have hused := mem_usedKeys hk
  constructor
  · intro hder
    by_contra hroot
    have ho : outputs path ≠ [] := by
      intro ho
      rw [h.root, ho, hc.keys] at hroot
      exact hroot rfl
    have hbehind : LeftBehind (outputs path) (heldKeys ((σ.run c acts).engine who)) k := by
      rcases hused with hs | hg
      · exact h.sent_leftBehind hc.keys hs
      · exact h.got_leftBehind hc.keys hg
    exact hbehind.not_derivable ho (fun l hl => h.held_roots hc.keys hl)
      (h.held_derived hc.keys) Set.univ hder
  · intro hroot
    exact h.derivable_of_unturned hc.keys hused hroot _ (Or.inl (Or.inl rfl))

/-- The initiator sends, the responder answers, and the initiator reads the
answer. -/
def oneAnswer : List (Act Nat Box) := script (symPair 1000) [
  fun _ => .encrypt .initiator [10], relay .responder 0 3 id,
  fun _ => .encrypt .responder [20], relay .initiator 1 4 id]

/-- The first message is open to whoever reads the initiator's memory right
after it, and closed to him once the answer is in. -/
theorem opens_past_iff_oneAnswer :
    Term.Derivable (leaked (((symPair 1000).run symbolic (oneAnswer.take 1)).engine .initiator)
      Set.univ) (msgKey symKeys symRoot [] 0) ∧
    ¬ Term.Derivable (leaked (((symPair 1000).run symbolic oneAnswer).engine .initiator)
      Set.univ) (msgKey symKeys symRoot [] 0) := by
  constructor
  · exact (opens_past_iff symbolic_freeTerms (by decide) (symPair_start 1000)
      (by decide +kernel) (by decide +kernel)).mpr (by decide +kernel)
  · exact fun h => absurd ((opens_past_iff symbolic_freeTerms (by decide) (symPair_start 1000)
      (by decide +kernel) (by decide +kernel)).mp h) (by decide +kernel)

end GhostChat.Proofs
