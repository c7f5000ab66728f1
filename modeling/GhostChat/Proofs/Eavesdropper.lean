import GhostChat.Proofs.Healed
import GhostChat.Proofs.X3dh

/-!
# From the handshake to the message

What does somebody compute who has read no memory, but has got hold of some
private keys: identity keys, prekeys, ephemeral keys, ratchet keys, of either
side, and perhaps what the KEM gave? He computes a DH output exactly if he has
the private half of one of its two public keys. A message key is made from the
DH outputs of the handshake, the KEM's secret, and the DH outputs folded in
since, and from nothing else that is secret, so he has to compute them all
(`message_open_iff`).

For the handshake that is a table (`HandshakeOpen`), and its rows are what
X3DH promises. Neither the two identity keys nor the initiator's identity key
with the signed prekey open anything, because the ephemeral key is in the other
steps; the responder's identity key with the signed prekey and the one-time
prekey do.
-/

namespace GhostChat.Proofs

open GhostChat.Lib GhostChat.Lib.Effect GhostChat.Ref

variable {P C : Type} {c : Crypto SymKey P C} {h : HandshakeCrypto SymKey P C}
  {opened : Set Bytes} {kem : Set SymKey} {u : HandshakeKeys SymKey} {k rk : SymKey}

/-- The DH outputs of the private keys whose public halves are `opened`. -/
def computable (c : Crypto SymKey P C) (opened : Set Bytes) : Set SymKey :=
  { t | ∃ p X, c.sharedKey p X = some t ∧ (c.publicKey p ∈ opened ∨ X ∈ opened) }

theorem computable_iff (hdh : DhInjective c) {p : P} {X : Bytes}
    (hk : c.sharedKey p X = some k) :
    k ∈ computable c opened ↔ c.publicKey p ∈ opened ∨ X ∈ opened := by
  constructor
  · intro h
    obtain ⟨q, Y, hY, hopen⟩ := h
    rcases hdh p q X Y k hk hY with ⟨hp, rfl⟩ | ⟨hX, hY'⟩
    · rwa [hp]
    · rw [hX, ← hY']
      exact hopen.symm
  · exact fun h => ⟨p, X, hk, h⟩

/-- Each DH step of the handshake has one of its keys opened, and the KEM's
secret is known if there is one. -/
structure HandshakeOpen (opened : Set Bytes) (kem : Set SymKey) (u : HandshakeKeys SymKey) :
    Prop where
  step1 : u.initiatorIdentity ∈ opened ∨ u.signedPrekeyDh ∈ opened
  step2 : u.ephemeral ∈ opened ∨ u.responderIdentity ∈ opened
  step3 : u.ephemeral ∈ opened ∨ u.signedPrekeyDh ∈ opened
  step4 : ∀ id pub, u.oneTimePrekey = some (id, pub) → u.ephemeral ∈ opened ∨ pub ∈ opened
  pq : ∀ z, u.pqShared = some z → z ∈ kem

/-! ## The handshake -/

/-- What the eavesdropper has to begin with. -/
def overheard (c : Crypto SymKey P C) (opened : Set Bytes) (kem : Set SymKey) : Set SymKey :=
  computable c opened ∪ kem

section Handshake

variable {dh1 dh2 dh3 : SymKey} {dh4 : Option SymKey}

/-- The atoms of a handshake's root key. -/
theorem handshake_occurs (hc : h.toKeyAlg = symKeys)
    (hs : Handshake h u rk dh1 dh2 dh3 dh4) (x : Atom) :
    rk.Occurs x ↔ dh1.Occurs x ∨ dh2.Occurs x ∨ dh3.Occurs x ∨ (∃ d, dh4 = some d ∧ d.Occurs x) ∨
      ∃ z, u.pqShared = some z ∧ z.Occurs x := by
  have hikm : (x3dhIkm symKeys dh1 dh2 dh3 dh4).Occurs x ↔
      dh1.Occurs x ∨ dh2.Occurs x ∨ dh3.Occurs x ∨ ∃ d, dh4 = some d ∧ d.Occurs x := by
    cases dh4 with
    | none =>
        simp only [x3dhIkm, symKeys, Term.Occurs, reduceCtorEq, false_and, exists_false, or_false,
          or_assoc]
    | some d =>
        simp only [x3dhIkm, symKeys, Term.Occurs, Option.some.injEq, exists_eq_left', or_assoc]
  rcases hs.derived rfl with ⟨-, hpq, rfl⟩ | ⟨-, z, hpq, rfl⟩
  · rw [hc, hpq]
    simp only [symKeys, Term.Occurs, or_false, reduceCtorEq, false_and, exists_false]
    exact hikm
  · rw [hc, hpq]
    simp only [symKeys, Term.Occurs, or_false, Option.some.injEq, exists_eq_left']
    rw [← or_assoc, ← or_assoc, ← or_assoc]
    refine or_congr ?_ Iff.rfl
    rw [or_assoc, or_assoc]
    exact hikm

/-- The root key of a handshake has no DH output folded in. -/
theorem handshake_foldedIn (hc : h.toKeyAlg = symKeys)
    (hs : Handshake h u rk dh1 dh2 dh3 dh4) : foldedIn rk = [] := by
  have hlabel : ∀ t : Bytes, x3dhRootInfo ++ t ≠ rootInfo := by
    intro t ht
    have hprefix := congrArg (List.take 19) ht
    rw [List.take_append_of_le_length (by decide)] at hprefix
    exact absurd hprefix (by decide)
  have hikm : foldedIn (x3dhIkm symKeys dh1 dh2 dh3 dh4) = [] := by
    cases dh4 <;> rfl
  rcases hs.derived rfl with ⟨-, -, rfl⟩ | ⟨-, z, -, rfl⟩
  · rw [hc]
    show foldedIn (.kdf (.kdf _ _ x3dhInfo 0) _ _ 0) = []
    rw [foldedIn, if_neg (hlabel _), foldedIn, if_neg (by decide), hikm]
  · rw [hc]
    show foldedIn (.kdf (.kdf (.cat _ _) _ hybridCombineInfo 0) _ _ 0) = []
    rw [List.append_assoc, foldedIn, if_neg (hlabel _), foldedIn, if_neg (by decide)]
    rfl

end Handshake

/-! ## The session -/

/-- A key of a session that began with the root key `rk`: what it is made from
is what `rk` is made from and the DH outputs folded in. -/
structure SessionKey (rk t : SymKey) : Prop where
  length : t.show32.length = 32
  made : ∀ x, t.Occurs x ↔ rk.Occurs x ∨ .atom x ∈ foldedIn t
  outputs : ∀ s ∈ foldedIn t, ∃ ks, s = .atom (.shared ks)

theorem sessionKey_rule (hc : FreeTerms c) (rk : SymKey) :
    KeyRule c fun _ _ t => SessionKey rk t := by
  have h32 : ∀ i s f b, (Term.kdf i s f b : SymKey).show32.length = 32 :=
    fun _ _ _ _ => List.length_replicate
  constructor
  · intro r ck h
    rw [hc.keys]
    obtain ⟨hf₁, hf₂⟩ := foldedIn_chain ck
    have hmade : ∀ x, ck.Occurs x ∨ False ↔ rk.Occurs x ∨ .atom x ∈ foldedIn ck :=
      fun x => (or_iff_left id).trans (h.made x)
    exact ⟨⟨h32 _ _ _ _, hf₁ ▸ hmade, hf₁ ▸ h.outputs⟩, h32 _ _ _ _, hf₂ ▸ hmade, hf₂ ▸ h.outputs⟩
  · intro r h
    rw [hc.keys]
    have hf := foldedIn_initial r
    have hmade : ∀ x, r.Occurs x ∨ False ↔ rk.Occurs x ∨ .atom x ∈ foldedIn r :=
      fun x => (or_iff_left id).trans (h.made x)
    exact ⟨h32 _ _ _ _, hf ▸ hmade, hf ▸ h.outputs⟩
  · intro r p X shared hsh h
    rw [hc.keys]
    obtain ⟨ks, rfl⟩ := hc.shared p X shared hsh
    obtain ⟨hf₁, hf₂⟩ := foldedIn_root h.length (.atom (.shared ks))
    have hsalt : rootKeyOrSalt symKeys r = r :=
      rootKeyOrSalt_of_length (show (symKeys.bytes r).length = 32 from h.length)
    have hmade : ∀ x, x = .shared ks ∨ r.Occurs x ↔
        rk.Occurs x ∨ .atom x ∈ Term.atom (Atom.shared ks) :: foldedIn r := by
      intro x
      rw [h.made x, List.mem_cons, Term.atom.injEq]
      exact or_left_comm
    have hout : ∀ s ∈ Term.atom (Atom.shared ks) :: foldedIn r, ∃ ks, s = .atom (.shared ks) := by
      intro s hs
      rcases List.mem_cons.mp hs with rfl | hs
      · exact ⟨ks, rfl⟩
      · exact h.outputs s hs
    refine ⟨⟨h32 _ _ _ _, ?_, hf₁ ▸ hout⟩, h32 _ _ _ _, ?_, hf₂ ▸ hout⟩
    · rw [hf₁, kdfRoot, hsalt]
      exact hmade
    · rw [hf₂, kdfRoot, hsalt]
      exact hmade
  · exact fun _ r p X shared t _ _ ht => ht

theorem sessionKey_start {rk : SymKey} {cap : Nat} {gen : Party → P} (hc : FreeTerms c)
    (hrk : rk.show32.length = 32) (hfold : foldedIn rk = []) {σ : Pair SymKey P C}
    (hstart : Pair.start c rk cap gen = .ok σ) (who : Party) :
    Holds (fun _ _ t => SessionKey rk t) (σ.engine who) := by
  have hroot : SessionKey rk rk := by
    refine ⟨hrk, fun x => ?_, ?_⟩
    · rw [hfold]
      exact (or_iff_left (List.not_mem_nil)).symm
    · rw [hfold]
      exact fun s hs => by cases hs
  have hboot := (sessionKey_rule hc rk).initial rk hroot
  rw [start_engine hstart who]
  refine ⟨hroot, fun ck hck => ?_, fun ck hck => ?_, fun e he => by cases he⟩
  · simp only [Option.ite_none_right_eq_some] at hck
    injection hck.2 with hck
    exact hck ▸ hboot
  · simp only [Option.ite_none_left_eq_some] at hck
    injection hck.2 with hck
    exact hck ▸ hboot

/-! ## Both together -/

/-- The KEM's secret of a call is one the backend gave. -/
theorem initiator_pq {identityDhPrivate : Bytes} {eph : P} {peer : PeerBundle}
    {opk : Option (Int × Bytes)} {backend : Option (PqBackend SymKey)} {r : X3DHResult SymKey}
    {ephPub : Bytes}
    (hok : x3dhInitiatorKeyed h identityDhPrivate eph peer opk backend = .ok ((r, ephPub), u))
    {z : SymKey} (hz : u.pqShared = some z) :
    ∃ b pub ct, backend = some b ∧ b.encapsulate pub = .ok (ct, z) := by
  simp only [x3dhInitiatorKeyed] at hok
  obtain ⟨_, -, hok⟩ := except_bind_ok hok
  obtain ⟨_, -, hok⟩ := except_bind_ok hok
  obtain ⟨-, hok⟩ := except_guard_ok hok
  obtain ⟨-, hok⟩ := except_guard_ok hok
  obtain ⟨_, -, hok⟩ := except_bind_ok hok
  obtain ⟨_, -, hok⟩ := except_bind_ok hok
  obtain ⟨_, -, hok⟩ := except_bind_ok hok
  obtain ⟨_, -, hok⟩ := except_bind_ok hok
  obtain ⟨_, -, hok⟩ := except_bind_ok hok
  obtain ⟨pq, hpq, hok⟩ := except_bind_ok hok
  obtain ⟨_, -, hok⟩ := except_bind_ok hok
  obtain ⟨_, -, hok⟩ := except_bind_ok hok
  cases hok
  obtain ⟨x, rfl, rfl⟩ := Option.map_eq_some_iff.mp hz
  cases hpub : peer.pqPub with
  | none => simp only [initiatorPq, hpub] at hpq; cases hpq
  | some pub =>
      cases backend with
      | none => simp only [initiatorPq, hpub] at hpq; cases hpq
      | some b =>
          simp only [initiatorPq, hpub] at hpq
          split at hpq
          · obtain ⟨y, henc, hy⟩ := except_map_ok hpq
            cases hy
            exact ⟨b, pub, x.1, rfl, henc⟩
          · cases hpq

section Overheard

variable (hkem : ∀ z ∈ kem, ∃ n, z = .atom (.secret n))

include hkem

theorem overheard_shared (hc : FreeTerms c) {p : P} {X : Bytes} (hk : c.sharedKey p X = some k) :
    (∀ x, k.Occurs x → .atom x ∈ overheard c opened kem) ↔ k ∈ computable c opened := by
  obtain ⟨ks, rfl⟩ := hc.shared p X k hk
  constructor
  · intro h
    rcases h (.shared ks) rfl with hcomp | hz
    · exact hcomp
    · obtain ⟨n, hn⟩ := hkem _ hz
      cases hn
  · intro h x hx
    rw [show x = .shared ks from hx]
    exact Or.inl h

omit hkem in
theorem overheard_secret (hc : FreeTerms c) {z : SymKey} (hz : ∃ n, z = .atom (.secret n)) :
    (∀ x, z.Occurs x → .atom x ∈ overheard c opened kem) ↔ z ∈ kem := by
  obtain ⟨n, rfl⟩ := hz
  constructor
  · intro h
    rcases h (.secret n) rfl with ⟨p, X, hsh, -⟩ | hz
    · obtain ⟨ks, hks⟩ := hc.shared p X _ hsh
      cases hks
    · exact hz
  · intro h x hx
    rw [show x = .secret n from hx]
    exact Or.inr h

/-- The eavesdropper begins with atoms. -/
theorem overheard_atoms (hc : FreeTerms c) : ∀ t ∈ overheard c opened kem, ∃ a, t = .atom a := by
  intro t ht
  rcases ht with ⟨p, X, hsh, -⟩ | hz
  · obtain ⟨ks, rfl⟩ := hc.shared p X t hsh
    exact ⟨_, rfl⟩
  · obtain ⟨n, rfl⟩ := hkem t hz
    exact ⟨_, rfl⟩

/-- The handshake's part: everything its root key is made from is there
exactly if the table says so. -/
theorem root_open_iff (hc : FreeTerms h.toCrypto) (hdh : DhInjective h.toCrypto) {ikA eph : P}
    {dh1 dh2 dh3 : SymKey} {dh4 : Option SymKey} (hs : Handshake h u rk dh1 dh2 dh3 dh4)
    (hside : InitiatorSide h ikA eph u dh1 dh2 dh3 dh4)
    (hpq : ∀ z, u.pqShared = some z → ∃ n, z = .atom (.secret n)) :
    (∀ x, rk.Occurs x → .atom x ∈ overheard h.toCrypto opened kem) ↔
      HandshakeOpen opened kem u := by
  have hopen : ∀ {p X d}, h.sharedKey p X = some d →
      ((∀ x, d.Occurs x → .atom x ∈ overheard h.toCrypto opened kem) ↔
        h.publicKey p ∈ opened ∨ X ∈ opened) :=
    fun hd => (overheard_shared hkem hc hd).trans (computable_iff hdh hd)
  constructor
  · intro hall
    have hrk := fun x hx => hall x ((handshake_occurs hc.keys hs x).mpr hx)
    refine ⟨?_, ?_, ?_, fun id pub hopk => ?_, fun z hz => ?_⟩
    · rw [← hside.identity]
      exact (hopen hside.step1).mp fun x hx => hrk x (Or.inl hx)
    · rw [← hside.ephemeral]
      exact (hopen hside.step2).mp fun x hx => hrk x (Or.inr (Or.inl hx))
    · rw [← hside.ephemeral]
      exact (hopen hside.step3).mp fun x hx => hrk x (Or.inr (Or.inr (Or.inl hx)))
    · have hsome := hs.opk
      rw [hopk, Option.isSome_some, Option.isSome_iff_exists] at hsome
      obtain ⟨d, hd⟩ := hsome
      rw [← hside.ephemeral]
      refine (hopen ((hside.step4 id pub hopk).trans hd)).mp fun x hx => ?_
      exact hrk x (Or.inr (Or.inr (Or.inr (Or.inl ⟨d, hd, hx⟩))))
    · have hknown : ∀ x, z.Occurs x → .atom x ∈ overheard h.toCrypto opened kem :=
        fun x hx => hrk x (Or.inr (Or.inr (Or.inr (Or.inr ⟨z, hz, hx⟩))))
      exact (overheard_secret hc (hpq z hz)).mp hknown
  · intro htable x hx
    rcases (handshake_occurs hc.keys hs x).mp hx with hx | hx | hx | ⟨d, hd, hx⟩ | ⟨z, hz, hx⟩
    · exact (hopen hside.step1).mpr (hside.identity ▸ htable.step1) x hx
    · exact (hopen hside.step2).mpr (hside.ephemeral ▸ htable.step2) x hx
    · exact (hopen hside.step3).mpr (hside.ephemeral ▸ htable.step3) x hx
    · have hsome := hs.opk
      rw [hd, Option.isSome_some, eq_comm, Option.isSome_iff_exists] at hsome
      obtain ⟨⟨id, pub⟩, hopk⟩ := hsome
      exact (hopen ((hside.step4 id pub hopk).trans hd)).mpr
        (hside.ephemeral ▸ htable.step4 id pub hopk) x hx
    · exact (overheard_secret hc (hpq z hz)).mpr (htable.pq z hz) x hx

end Overheard

/-- A handshake and the session it begins, over every run of the session and
under any messages: from the private keys he has got hold of and the KEM
secrets he knows, an eavesdropper computes a key either side has used exactly
if each DH step of the handshake and each DH output folded in since has one of
its two private keys among them, and the KEM secret of the handshake, if there
is one, is known. -/
theorem message_open_iff (hc : FreeTerms h.toCrypto) (hi : GoodHandshake h)
    (hdh : DhInjective h.toCrypto) {identityDhPrivate : Bytes} {eph : P} {peer : PeerBundle}
    {opk : Option (Int × Bytes)} {backend : Option (PqBackend SymKey)} {r : X3DHResult SymKey}
    {ephPub : Bytes}
    (hok : x3dhInitiatorKeyed h identityDhPrivate eph peer opk backend = .ok ((r, ephPub), u))
    (hpq : ∀ b, backend = some b → ∀ pub ct z, b.encapsulate pub = .ok (ct, z) →
      ∃ n, z = .atom (.secret n))
    (hkem : ∀ z ∈ kem, ∃ n, z = .atom (.secret n))
    {cap : Nat} {gen : Party → P} {σ : Pair SymKey P C}
    (hstart : Pair.start h.toCrypto r.rootKey cap gen = .ok σ) {acts : List (Act P C)}
    {who : Party} (hk : k ∈ usedKeys who (σ.run h.toCrypto acts).log) :
    Term.Derivable (overheard h.toCrypto opened kem) k ↔
      HandshakeOpen opened kem u ∧ ∀ s ∈ foldedIn k, s ∈ computable h.toCrypto opened := by
  obtain ⟨dh1, dh2, dh3, dh4, hs, hside, -⟩ := initiator_ok hi hok
  have hpq' : ∀ z, u.pqShared = some z → ∃ n, z = .atom (.secret n) := by
    intro z hz
    obtain ⟨b, pub, ct, hb, henc⟩ := initiator_pq hok hz
    exact hpq b hb pub ct z henc
  have hlen : r.rootKey.show32.length = 32 := by
    have hroot := hs.root_length (by rw [hc.keys]; exact symKeys_injective.hkdf_length)
    rwa [hc.keys] at hroot
  obtain ⟨new, hnew, hused⟩ := (Tracks.run (sessionKey_rule hc r.rootKey)
    (sessionKey_start hc hlen (handshake_foldedIn hc.keys hs) hstart who) acts).used
  have hkey : SessionKey r.rootKey k := by
    rw [hnew, (start_ok hstart).2.2, List.append_nil] at hk
    obtain ⟨e, he, hke⟩ := List.mem_filterMap.mp hk
    exact hused e he k hke
  rw [Term.derivable_iff_atoms (overheard_atoms hkem hc), ← root_open_iff hkem hc hdh hs hside hpq']
  constructor
  · intro hall
    refine ⟨fun x hx => hall x ((hkey.made x).mpr (Or.inl hx)), fun s hsmem => ?_⟩
    obtain ⟨ks, rfl⟩ := hkey.outputs s hsmem
    rcases hall (.shared ks) ((hkey.made _).mpr (Or.inr hsmem)) with hcomp | hz
    · exact hcomp
    · obtain ⟨n, hn⟩ := hkem _ hz
      cases hn
  · intro h x hx
    rcases (hkey.made x).mp hx with hx | hx
    · exact h.1 x hx
    · exact Or.inl (h.2 _ hx)

/-- A hybrid handshake with a one-time prekey, and one message. The responder's
three keys open it, if the KEM's secret is known; the two identity keys and the
one-time prekey do not. -/
theorem message_open_iff_hybrid : ∃ r ephPub u σ k,
    x3dhInitiatorKeyed symHandshake (symPublicKey 5) 6 symPeerBundle
      (some (1000, symPublicKey 4)) (some symKem) = .ok ((r, ephPub), u) ∧
    Pair.start symbolic r.rootKey 1000 symGen = .ok σ ∧
    usedKeys .initiator (σ.run symbolic [.encrypt .initiator [1]]).log = [k] ∧
    Term.Derivable (overheard symbolic {symPublicKey 2, symPublicKey 3, symPublicKey 4}
      {.atom (.secret 9)}) k ∧
    ¬ Term.Derivable (overheard symbolic {symPublicKey 5, symPublicKey 2, symPublicKey 4}
      {.atom (.secret 9)}) k := by
  have hcall : ∃ r ephPub u σ k,
      x3dhInitiatorKeyed symHandshake (symPublicKey 5) 6 symPeerBundle
        (some (1000, symPublicKey 4)) (some symKem) = .ok ((r, ephPub), u) ∧
      Pair.start symbolic r.rootKey 1000 symGen = .ok σ ∧
      usedKeys .initiator (σ.run symbolic [.encrypt .initiator [1]]).log = [k] ∧
      u.initiatorIdentity = symPublicKey 5 ∧ u.ephemeral = symPublicKey 6 ∧
      u.responderIdentity = symPublicKey 2 ∧ u.signedPrekeyDh = symPublicKey 3 ∧
      u.oneTimePrekey = some (1000, symPublicKey 4) ∧ u.pqShared = some (.atom (.secret 9)) ∧
      foldedIn k = [] := ⟨_, _, _, _, _, rfl, rfl, rfl, rfl, rfl, rfl, rfl, rfl, rfl, rfl⟩
  obtain ⟨r, ephPub, u, σ, k, hok, hstart, hused, hA, hE, hB, hS, hO, hZ, hfold⟩ := hcall
  have hopen : ∀ {opened}, Term.Derivable (overheard symbolic opened {.atom (.secret 9)}) k ↔
      HandshakeOpen opened {.atom (.secret 9)} u ∧
        ∀ s ∈ foldedIn k, s ∈ computable symbolic opened :=
    message_open_iff symbolic_freeTerms symHandshake_ideal.good symbolic_dhInjective hok
      (fun b hb pub ct z hz => by cases hb; cases hz; exact ⟨9, rfl⟩)
      (fun z hz => ⟨9, hz⟩) hstart (hused ▸ List.mem_singleton_self k)
  refine ⟨r, ephPub, u, σ, k, hok, hstart, hused, hopen.mpr ⟨⟨?_, ?_, ?_, ?_, ?_⟩, ?_⟩, ?_⟩
  · exact Or.inr (by rw [hS]; simp)
  · exact Or.inr (by rw [hB]; simp)
  · exact Or.inr (by rw [hS]; simp)
  · intro id pub hopk
    rw [hO] at hopk
    cases hopk
    exact Or.inr (by simp)
  · intro z hz
    rw [hZ] at hz
    cases hz
    rfl
  · rw [hfold]
    exact fun s hs => by cases hs
  · intro hder
    have htable := (hopen.mp hder).1.step3
    rw [hE, hS] at htable
    revert htable
    simp only [Set.mem_insert_iff, Set.mem_singleton_iff]
    decide

end GhostChat.Proofs
