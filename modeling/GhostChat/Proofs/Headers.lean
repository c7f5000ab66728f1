import GhostChat.Proofs.Rejected
import GhostChat.Proofs.Trail

/-!
# What an accepted envelope's header is worth

Nothing of the header is authenticated by the AEAD: `encrypt` and `decrypt`
pass empty associated data. The ratchet key and the number count through the
key and the nonce they select, the session id only through the replay cache,
and the previous chain length through nothing but the fork detector. So the
last two can be altered at will. A ratchet key that X25519 refuses is worse:
it is written to the state before the DH raises, over the old chain.

On envelopes that carry the peer's session id, no previous chain and a proper
public key, the rest of the header is what the peer's `encrypt_for` wrote. The
books kept of a session have two sides, as the client's do. What is said of a
key is the chain it is on and a bound for the number it goes under.
-/

namespace GhostChat.Proofs

open GhostChat.Lib GhostChat.Lib.Effect GhostChat.Ref

variable {K P C : Type} {c : Crypto K P C} {l : Linking K P} {d : K} {canon : Bytes → Prop}
  {who : Party} {path suf : List (TrailStep K)} {s : RatchetState K P} {B : Nat}

/-! ## The two sides of a session's books -/

/-- The chain `suf` was opened on the way, in the direction `sends`. -/
def OpenedIn (sends : Bool) (path suf : List (TrailStep K)) : Prop :=
  suf <:+ path ∧ ∃ st rest, suf = st :: rest ∧ st.sends = sends

/-- `k` is the key of some position on a chain the party sends on, at or after
the number it goes under. -/
def SaidAt (c : Crypto K P C) (l : Linking K P) (who : Party) (path : List (TrailStep K))
    (dh : Bytes) (pn n : Int) (k : K) : Prop :=
  ∃ suf j, OpenedIn true path suf ∧ k = msgKey c.toKeyAlg l.rootKey (trailName suf) j ∧
    0 ≤ n ∧ n ≤ j ∧ (Straight suf → dh = c.publicKey (l.dhs who) ∧ pn = 0)

/-- The same for a chain the party receives on, with a bound. -/
def HeardAt (c : Crypto K P C) (l : Linking K P) (who : Party) (path : List (TrailStep K))
    (B : Nat) (dh : Bytes) (n : Int) (k : K) : Prop :=
  ∃ suf j, OpenedIn false path suf ∧ k = msgKey c.toKeyAlg l.rootKey (trailName suf) j ∧
    0 ≤ n ∧ n ≤ j ∧ j < B ∧ (Straight suf → dh = c.publicKey (l.dhs who.other))

/-- Root, keys and sending chain. -/
structure SaySide (c : Crypto K P C) (l : Linking K P) (d : K) (canon : Bytes → Prop)
    (who : Party) (path : List (TrailStep K)) (s : RatchetState K P) : Prop where
  trail : Trail c l d canon who path
  root : s.rootKey = rootAfter c.toKeyAlg l.rootKey (trailName path)
  straight : Straight path →
    s.dhs = l.dhs who ∧ s.dhr = some (c.publicKey (l.dhs who.other)) ∧ s.PN = 0
  remote : ∃ X, s.dhr = some X ∧ canon X
  chain : ∀ ck, s.ckS = some ck → ∃ suf j, OpenedIn true path suf ∧
    ck = chainKey c.toKeyAlg l.rootKey (trailName suf) j ∧ s.Ns ≤ j ∧
    (Straight suf → Straight path)

/-- Receiving chain and skipped keys; no position past `B`. -/
structure HearSide (c : Crypto K P C) (l : Linking K P) (who : Party)
    (path : List (TrailStep K)) (B : Nat) (s : RatchetState K P) : Prop where
  chain : ∀ ck, s.ckR = some ck → ∃ suf j, OpenedIn false path suf ∧
    ck = chainKey c.toKeyAlg l.rootKey (trailName suf) j ∧ s.Nr ≤ j ∧ j ≤ B ∧
    (Straight suf → s.dhr = some (c.publicKey (l.dhs who.other)))
  unopened : s.ckR = none → s.Nr = 0
  filed : ∀ e ∈ s.skippedKeys.store, HeardAt c l who path B e.1.1 e.1.2 e.2
  capacity : s.skippedKeys.maxKeys = 1000
  room : s.skippedKeys.store.length ≤ 1000

theorem OpenedIn.mono {sends : Bool} {path' : List (TrailStep K)} (h : OpenedIn sends path suf)
    (hp : path <:+ path') : OpenedIn sends path' suf := ⟨h.1.trans hp, h.2⟩

theorem OpenedIn.newest (st : TrailStep K) (path : List (TrailStep K)) :
    OpenedIn st.sends (st :: path) (st :: path) := ⟨List.suffix_refl _, st, path, rfl, rfl⟩

theorem OpenedIn.trail {sends : Bool} (h : OpenedIn sends path suf)
    (ht : Trail c l d canon who path) : Trail c l d canon who suf := by
  obtain ⟨hsuf, st, rest, rfl, -⟩ := h
  exact ht.suffix hsuf (List.cons_ne_nil _ _)

/-- A session does not send on a chain it receives on. -/
theorem OpenedIn.one_way {suf' : List (TrailStep K)} (h : OpenedIn true path suf)
    (h' : OpenedIn false path suf') (hname : trailName suf = trailName suf') : False := by
  obtain ⟨hsuf, st, rest, hst, hsends⟩ := h
  obtain ⟨hsuf', st', rest', hst', hsends'⟩ := h'
  have hlen : suf.length = suf'.length := by
    have := congrArg List.length hname
    rwa [trailName, trailName, List.length_map, List.length_map] at this
  have heq : suf = suf' :=
    (List.suffix_of_suffix_length_le hsuf hsuf' (Nat.le_of_eq hlen)).eq_of_length hlen
  rw [hst, hst'] at heq
  injection heq with hhead
  rw [hhead, hsends'] at hsends
  cases hsends

theorem SaidAt.mono {path' : List (TrailStep K)} {dh : Bytes} {pn n : Int} {k : K}
    (h : SaidAt c l who path dh pn n k) (hp : path <:+ path') :
    SaidAt c l who path' dh pn n k := by
  obtain ⟨suf, j, hopen, hrest⟩ := h
  exact ⟨suf, j, hopen.mono hp, hrest⟩

theorem HeardAt.mono {path' : List (TrailStep K)} {B' : Nat} {dh : Bytes} {n : Int} {k : K}
    (h : HeardAt c l who path B dh n k) (hp : path <:+ path') (hB : B ≤ B') :
    HeardAt c l who path' B' dh n k := by
  obtain ⟨suf, j, hopen, hk, hn, hnj, hj, hdh⟩ := h
  exact ⟨suf, j, hopen.mono hp, hk, hn, hnj, by omega, hdh⟩

theorem HearSide.mono {path' : List (TrailStep K)} {B' : Nat} (h : HearSide c l who path B s)
    (hp : path <:+ path') (hB : B ≤ B') : HearSide c l who path' B' s where
  chain := fun ck hck => by
    obtain ⟨suf, j, hopen, heq, hN, hj, hdh⟩ := h.chain ck hck
    exact ⟨suf, j, hopen.mono hp, heq, hN, by omega, hdh⟩
  unopened := h.unopened
  filed := fun e he => (h.filed e he).mono hp hB
  capacity := h.capacity
  room := h.room

/-! ## Root steps -/

section Steps

variable (hdh : DhIdeal c canon)
  (hshared : ∀ who, c.sharedKey (l.dhs who) (c.publicKey (l.dhs who.other)) = some d)

include hshared in
/-- A step with the keys the session has, in either direction. -/
theorem SaySide.step (h : SaySide c l d canon who path s) {X : Bytes} {k : K}
    (hX : s.dhr = some X) (hk : c.sharedKey s.dhs X = some k) (sends : Bool) :
    ∃ st : TrailStep K, st.sends = sends ∧ st.output = k ∧ Trail c l d canon who (st :: path) ∧
      (Straight (st :: path) ↔ Straight path) := by
  by_cases hs : Straight path
  · obtain ⟨hdhs, hdhr, -⟩ := h.straight hs
    obtain rfl : X = c.publicKey (l.dhs who.other) := Option.some.inj (hX.symm.trans hdhr)
    rw [hdhs, hshared who] at hk
    cases hk
    exact ⟨⟨sends, false, d⟩, rfl, rfl, .on sends h.trail hs,
      iff_of_true (hs.cons rfl) hs⟩
  · exact ⟨⟨sends, true, k⟩, rfl, rfl, .lost _ h.trail hs,
      iff_of_false (fun hst => hs hst.tail) hs⟩

/-- The root after one more step. -/
theorem rootAfter_step (st : TrailStep K) (path : List (TrailStep K)) :
    rootAfter c.toKeyAlg l.rootKey (trailName (st :: path))
      = (kdfRoot c.toKeyAlg (rootAfter c.toKeyAlg l.rootKey (trailName path)) st.output).1 := rfl

theorem chainKey_step (st : TrailStep K) (path : List (TrailStep K)) :
    chainKey c.toKeyAlg l.rootKey (trailName (st :: path)) 0
      = (kdfRoot c.toKeyAlg (rootAfter c.toKeyAlg l.rootKey (trailName path)) st.output).2 := rfl

/-- Both sides. -/
structure TrailBooks (c : Crypto K P C) (l : Linking K P) (d : K) (canon : Bytes → Prop)
    (who : Party) (path : List (TrailStep K)) (B : Nat) (s : RatchetState K P) : Prop where
  say : SaySide c l d canon who path s
  hear : HearSide c l who path B s

/-! ## Sending -/

/-- One step of the sending chain. The number of the next message may stay or
go on. -/
theorem SaySide.use (h : SaySide c l d canon who path s) {ck : K} (hck : s.ckS = some ck)
    (n : Nat) (hn : n ≤ s.Ns + 1) :
    SaySide c l d canon who path { s with ckS := some (kdfChain c.toKeyAlg ck).1, Ns := n } ∧
      SaidAt c l who path (c.publicKey s.dhs) s.PN s.Ns (kdfChain c.toKeyAlg ck).2 := by
  obtain ⟨suf, j, hopen, rfl, hN, hsp⟩ := h.chain ck hck
  constructor
  · refine ⟨h.trail, h.root, h.straight, h.remote, fun ck' hck' => ?_⟩
    cases hck'
    exact ⟨suf, j + 1, hopen, (chainKey_succ _ _).symm, hn.trans (Nat.succ_le_succ hN), hsp⟩
  · refine ⟨suf, j, hopen, rfl, Int.natCast_nonneg _, Int.ofNat_le.mpr hN, fun hs => ?_⟩
    obtain ⟨hdhs, -, hPN⟩ := h.straight (hsp hs)
    exact ⟨by rw [hdhs], by rw [hPN]; rfl⟩

include hdh hshared in
/-- The chain `encrypt` sends on, there or opened. -/
theorem TrailBooks.sending (h : TrailBooks c l d canon who path B s) :
    ∃ path' ck st, path <:+ path' ∧ st.ckS = some ck ∧
      TrailBooks c l d canon who path' B st ∧
      DoubleRatchet.nextSendingKey c s = .ok (kdfChain c.toKeyAlg ck).2
        { st with ckS := some (kdfChain c.toKeyAlg ck).1 } := by
  cases hck : s.ckS with
  | some ck =>
      exact ⟨path, ck, s, List.suffix_refl _, hck, h, Ratchet.nextSendingKey_open hck⟩
  | none =>
      obtain ⟨X, hX, hcanon⟩ := h.say.remote
      obtain ⟨k, hk, hsk⟩ := hdh.dhWith s.dhs hcanon
      obtain ⟨st, hsends, hout, htrail, hstraight⟩ := h.say.step hshared hX hsk true
      refine ⟨st :: path, (kdfRoot c.toKeyAlg s.rootKey k).2, { s with
        rootKey := (kdfRoot c.toKeyAlg s.rootKey k).1
        ckS := some (kdfRoot c.toKeyAlg s.rootKey k).2
        Ns := 0 }, List.suffix_cons _ _, rfl, ⟨⟨htrail, ?_, ?_, h.say.remote, ?_⟩, ?_⟩,
        Ratchet.nextSendingKey_lazy hck hX hk⟩
      · rw [rootAfter_step, hout, h.say.root]
      · exact fun hs => h.say.straight (hstraight.mp hs)
      · intro ck hck'
        cases hck'
        refine ⟨st :: path, 0, ?_, ?_, Nat.le_refl _, id⟩
        · have := OpenedIn.newest st path
          rwa [hsends] at this
        · rw [chainKey_step, hout, h.say.root]
      · have hhear := h.hear.mono (List.suffix_cons st path) (Nat.le_refl B)
        exact ⟨hhear.chain, hhear.unopened, hhear.filed, hhear.capacity, hhear.room⟩

include hdh hshared in
/-- What `encrypt` leaves behind, and where the key it used is. -/
theorem TrailBooks.encrypt (hlen : ∀ i s f b, (c.bytes (c.hkdf i s f b)).length = 32)
    (h : TrailBooks c l d canon who path B s) (pt : Bytes) :
    ∃ path', path <:+ path' ∧
      TrailBooks c l d canon who path' B (after (DoubleRatchet.encryptKeyed c pt [] s)) ∧
      ∀ em k st, DoubleRatchet.encryptKeyed c pt [] s = .ok (em, k) st →
        SaidAt c l who path' em.header.dhPub em.header.pn em.header.n k := by
  obtain ⟨path', ck, st, hpath, hck, hbooks, hnext⟩ := h.sending hdh hshared
  refine ⟨path', hpath, ?_⟩
  have hkeep := fun n hn => hbooks.say.use hck n hn
  have hhear := hbooks.hear
  have hmk : (c.bytes (kdfChain c.toKeyAlg ck).2).length = 32 := hlen _ _ _ _
  simp only [DoubleRatchet.encryptKeyed, bind_apply, hnext, Ratchet.sealWith_eq hmk]
  cases c.encrypt (kdfChain c.toKeyAlg ck).2
      (messageNonce c.toKeyAlg (kdfChain c.toKeyAlg ck).2 st.Ns) pt [] with
  | none =>
      refine ⟨⟨(hkeep st.Ns (Nat.le_succ _)).1, ?_⟩, fun em k st hok => by cases hok⟩
      exact ⟨hhear.chain, hhear.unopened, hhear.filed, hhear.capacity, hhear.room⟩
  | some ct =>
      refine ⟨⟨(hkeep (st.Ns + 1) (Nat.le_refl _)).1, ?_⟩, fun em k st' hok => ?_⟩
      · exact ⟨hhear.chain, hhear.unopened, hhear.filed, hhear.capacity, hhear.room⟩
      · cases hok
        exact (hkeep st.Ns (Nat.le_succ _)).2

end Steps

/-! ## Skipping -/

/-- Nothing but the receiving side has changed. -/
def Framed (s s' : RatchetState K P) : Prop :=
  ∃ ck n sk, s' = { s with ckR := ck, Nr := n, skippedKeys := sk }

theorem SaySide.framed {s' : RatchetState K P} (h : SaySide c l d canon who path s)
    (hf : Framed s s') : SaySide c l d canon who path s' := by
  obtain ⟨ck, n, sk, rfl⟩ := hf
  exact ⟨h.trail, h.root, h.straight, h.remote, h.chain⟩

/-- One step of the receiving chain, with the number staying or going on. -/
theorem HearSide.use (h : HearSide c l who path B s) {X : Bytes} (hX : s.dhr = some X) {ck : K}
    (hck : s.ckR = some ck) {n : Nat} (hn : n ≤ s.Nr + 1) :
    HearSide c l who path (B + 1) { s with ckR := some (kdfChain c.toKeyAlg ck).1, Nr := n } ∧
      HeardAt c l who path (B + 1) X s.Nr (kdfChain c.toKeyAlg ck).2 := by
  obtain ⟨suf, j, hopen, rfl, hN, hj, hdh⟩ := h.chain ck hck
  have hmono := h.mono (List.suffix_refl path) (Nat.le_succ B)
  constructor
  · refine ⟨fun ck' hck' => ?_, (fun hck' => by cases hck'), hmono.filed, h.capacity, h.room⟩
    cases hck'
    exact ⟨suf, j + 1, hopen, (chainKey_succ _ _).symm, hn.trans (Nat.succ_le_succ hN),
      Nat.succ_le_succ hj, hdh⟩
  · refine ⟨suf, j, hopen, rfl, Int.natCast_nonneg _, Int.ofNat_le.mpr hN, Nat.lt_succ_of_le hj,
      fun hs => ?_⟩
    exact Option.some.inj (hX.symm.trans (hdh hs))

/-- A key put into the store. -/
theorem HearSide.file (h : HearSide c l who path B s) {X : Bytes} {n : Int} {k : K}
    (hk : HeardAt c l who path B X n k) (hroom : s.skippedKeys.store.length < 1000) :
    HearSide c l who path B { s with
      skippedKeys := { s.skippedKeys with
        store := Odict.set s.skippedKeys.store (X, n) k } } where
  chain := h.chain
  unopened := h.unopened
  filed := fun e he => by
    rcases Odict.mem_set he with rfl | ⟨he, -⟩
    · exact hk
    · exact h.filed e he
  capacity := h.capacity
  room := (Odict.length_set_le _ _ _).trans hroom

/-- As many keys as rounds. -/
theorem HearSide.rounds_le (h : HearSide c l who path B s) {X : Bytes} {b i : Nat}
    (hkeys : ∀ m < i, (X, ((b + m : Nat) : Int)) ∈ Odict.keys s.skippedKeys.store) :
    i ≤ 1000 := by
  have hinj : Function.Injective fun m : Nat => (X, ((b + m : Nat) : Int)) := by
    intro m m' hm
    have : ((b + m : Nat) : Int) = ((b + m' : Nat) : Int) := (Prod.mk.inj hm).2
    omega
  exact (Odict.le_length_of_keys hinj hkeys).trans h.room

/-- What a call of the loop up to `upTo` may leave behind. -/
structure Skipped (c : Crypto K P C) (l : Linking K P) (who : Party)
    (path : List (TrailStep K)) (B : Nat) (upTo : Int) (s : RatchetState K P)
    (r : EStateM.Result Exn (RatchetState K P) Unit) : Prop where
  framed : Framed s (after r)
  hear : HearSide c l who path (B + 1001) (after r)
  done : ∀ st, r = .ok () st → HearSide c l who path (B + 1000) st ∧ upTo ≤ st.Nr

theorem HearSide.skipped (h : HearSide c l who path B s) {i : Nat} {upTo : Int}
    (hB : B ≤ i + 1000) (hdone : upTo ≤ s.Nr) : Skipped c l who path i upTo s (.ok () s) where
  framed := ⟨s.ckR, s.Nr, s.skippedKeys, rfl⟩
  hear := h.mono (List.suffix_refl _) (by omega)
  done := fun st hst => by
    cases hst
    exact ⟨h.mono (List.suffix_refl _) hB, hdone⟩

/-- The loop has run `i` rounds from the number `b`. Every key it filed is
still there, so there were at most as many rounds as the store has room for;
a round that finds the store full has stepped the chain. -/
theorem HearSide.skipLoop {upTo : Int} {fuel : Nat} {X : Bytes} {b i : Nat} {ck : K}
    (h : HearSide c l who path (B + i) s) (hX : s.dhr = some X) (hck : s.ckR = some ck)
    (hNr : s.Nr = b + i)
    (hkeys : ∀ m < i, (X, ((b + m : Nat) : Int)) ∈ Odict.keys s.skippedKeys.store)
    (hfuel : (upTo - s.Nr).toNat ≤ fuel) :
    Skipped c l who path B upTo s (DoubleRatchet.skipLoop c.toKeyAlg upTo fuel s) := by
  induction fuel generalizing s i ck with
  | zero =>
      have hi := h.rounds_le hkeys
      exact h.skipped (by omega) (by omega)
  | succ fuel ih =>
      have hi := h.rounds_le hkeys
      by_cases hlt : (s.Nr : Int) < upTo
      · rw [Ratchet.skipLoop_round hlt hck hX]
        have hgo := h.use hX hck (Nat.le_refl (s.Nr + 1))
        by_cases hfull : s.skippedKeys.store.length ≥ s.skippedKeys.maxKeys
        · rw [if_pos hfull]
          have hstay := (h.use hX hck (Nat.le_succ s.Nr)).1
          exact ⟨⟨_, _, _, rfl⟩, hstay.mono (List.suffix_refl _) (by omega),
            fun st hst => by cases hst⟩
        · rw [if_neg hfull]
          have hroom : s.skippedKeys.store.length < 1000 := by
            rw [h.capacity] at hfull
            omega
          have hkeys' : ∀ m < i + 1, (X, ((b + m : Nat) : Int)) ∈ Odict.keys
              (Odict.set s.skippedKeys.store (X, (s.Nr : Int)) (kdfChain c.toKeyAlg ck).2) := by
            intro m hm
            refine Odict.mem_keys_set ?_
            by_cases hmi : m = i
            · rw [hmi, ← hNr]
              exact Or.inl rfl
            · exact Or.inr (hkeys m (by omega))
          have hrest := ih (i := i + 1) (hgo.1.file hgo.2 hroom) hX rfl
            (congrArg (· + 1) hNr) hkeys' (by show (upTo - (s.Nr + 1 : Nat)).toNat ≤ _; omega)
          obtain ⟨ck', n', sk', hframed⟩ := hrest.framed
          exact ⟨⟨ck', n', sk', hframed⟩, hrest.hear, hrest.done⟩
      · rw [Ratchet.skipLoop_stop hlt]
        exact h.skipped (by omega) (by omega)

theorem HearSide.skipMessageKeys {upTo : Int} {X : Bytes} {ck : K}
    (h : HearSide c l who path B s) (hX : s.dhr = some X) (hck : s.ckR = some ck) :
    Skipped c l who path B upTo s (DoubleRatchet.skipMessageKeys c.toKeyAlg upTo s) := by
  rw [Ratchet.skipMessageKeys_eq hck]
  exact HearSide.skipLoop (b := s.Nr) (i := 0) h hX hck rfl (fun m hm => absurd hm (Nat.not_lt_zero m))
    (Nat.le_refl _)

/-! ## Receiving -/

section Receiving

variable (hdh : DhIdeal c canon)
  (hshared : ∀ who, c.sharedKey (l.dhs who) (c.publicKey (l.dhs who.other)) = some d)
  {em : EncryptedMessage C} {g : P} {dh : Bytes}

/-- A step that takes up another remote key. -/
theorem SaySide.turned (h : SaySide c l d canon who path s) (hne : s.dhr ≠ some dh)
    (hcanon : canon dh) {k : K} (hk : c.sharedKey s.dhs dh = some k) :
    Trail c l d canon who (⟨false, true, k⟩ :: path) := by
  by_cases hs : Straight path
  · obtain ⟨hdhs, hdhr, -⟩ := h.straight hs
    rw [hdhs] at hk
    refine .turn h.trail hs hcanon (fun heq => hne ?_) hk
    rw [hdhr, heq]
  · exact .lost _ h.trail hs

theorem not_straight_turn (k : K) (path : List (TrailStep K)) :
    ¬ Straight (⟨false, true, k⟩ :: path) := by
  intro hs
  cases hs _ List.mem_cons_self

include hdh hshared in
/-- The chain `decrypt` receives on. -/
theorem TrailBooks.receiving (h : TrailBooks c l d canon who path B s) (hcanon : canon dh) (g : P) :
    ∃ path' st, path <:+ path' ∧ DoubleRatchet.ensureReceivingChain c dh g s = .ok () st ∧
      TrailBooks c l d canon who path' B st ∧ st.dhr = some dh ∧ ∃ ck, st.ckR = some ck := by
  obtain ⟨k, hk, hsk⟩ := hdh.dhWith s.dhs hcanon
  by_cases hdhr : s.dhr = some dh
  · cases hck : s.ckR with
    | some ck =>
        exact ⟨path, s, List.suffix_refl _, Ratchet.ensureReceivingChain_same hck hdhr, h, hdhr,
          ck, hck⟩
    | none =>
        obtain ⟨st, hsends, hout, htrail, hstraight⟩ := h.say.step hshared hdhr hsk false
        have hgrow := List.suffix_cons st path
        have hhear := h.hear.mono hgrow (Nat.le_refl B)
        refine ⟨st :: path, _, hgrow, Ratchet.ensureReceivingChain_late hck hdhr hk,
          ⟨⟨htrail, ?_, ?_, h.say.remote, ?_⟩, ⟨?_, (fun hck' => by cases hck'), hhear.filed,
            hhear.capacity, hhear.room⟩⟩, hdhr, _, rfl⟩
        · rw [rootAfter_step, hout, h.say.root]
        · exact fun hs => h.say.straight (hstraight.mp hs)
        · intro ck hck'
          obtain ⟨suf, j, hopen, heq, hN, hsp⟩ := h.say.chain ck hck'
          exact ⟨suf, j, hopen.mono hgrow, heq, hN, fun hs => hstraight.mpr (hsp hs)⟩
        · intro ck hck'
          cases hck'
          refine ⟨st :: path, 0, ?_, ?_, Nat.le_of_eq (h.hear.unopened hck), Nat.zero_le _,
            fun hs => (h.say.straight (hstraight.mp hs)).2.1⟩
          · have := OpenedIn.newest st path
            rwa [hsends] at this
          · rw [chainKey_step, hout, h.say.root]
  · have hgrow := List.suffix_cons (⟨false, true, k⟩ : TrailStep K) path
    have hhear := h.hear.mono hgrow (Nat.le_refl B)
    have hnot := not_straight_turn k path
    refine ⟨⟨false, true, k⟩ :: path, _, hgrow, Ratchet.ensureReceivingChain_turn hdhr hk,
      ⟨⟨h.say.turned hdhr hcanon hsk, ?_, fun hs => absurd hs hnot, ⟨dh, rfl, hcanon⟩,
        (fun ck hck => by cases hck)⟩, ⟨?_, (fun hck => by cases hck), hhear.filed,
          hhear.capacity, hhear.room⟩⟩, rfl, _, rfl⟩
    · rw [rootAfter_step, h.say.root]
    · intro ck hck
      cases hck
      refine ⟨⟨false, true, k⟩ :: path, 0, OpenedIn.newest _ _, ?_, Nat.le_refl _,
        Nat.zero_le _, fun hs => absurd hs hnot⟩
      rw [chainKey_step, h.say.root]

theorem HeardAt.lower {X : Bytes} {n m : Int} {k : K} (h : HeardAt c l who path B X m k)
    (hn : 0 ≤ n) (hm : n ≤ m) : HeardAt c l who path B X n k := by
  obtain ⟨suf, j, hopen, hk, -, hmj, hrest⟩ := h
  exact ⟨suf, j, hopen, hk, hn, hm.trans hmj, hrest⟩

/-- What a call that opened `em` used. -/
def OpenedWith (c : Crypto K P C) (em : EncryptedMessage C) (p : Bytes) (k : K) : Prop :=
  c.decrypt k (messageNonce c.toKeyAlg k em.header.n.toNat) em.ciphertext [] = some p

theorem openedWith_of_open {k : K} {p : Bytes} (hlen : (c.bytes k).length = 32)
    (h : DoubleRatchet.openWith c k em [] = .ok p) : OpenedWith c em p k := by
  rw [Ratchet.openWith_eq hlen] at h
  rw [OpenedWith]
  cases hdec : c.decrypt k (messageNonce c.toKeyAlg k em.header.n.toNat) em.ciphertext [] with
  | none => rw [hdec] at h; cases h
  | some p' => rw [hdec] at h; cases h; rfl

theorem HeardAt.key_length (hlen : ∀ i s f b, (c.bytes (c.hkdf i s f b)).length = 32)
    {X : Bytes} {n : Int} {k : K} (h : HeardAt c l who path B X n k) :
    (c.bytes k).length = 32 := by
  obtain ⟨suf, j, -, rfl, -⟩ := h
  exact hlen _ _ _ _

/-- What a call of `decrypt` leaves behind, and where the key it used is. -/
structure Decrypted (c : Crypto K P C) (l : Linking K P) (d : K) (canon : Bytes → Prop)
    (who : Party) (path : List (TrailStep K)) (B : Nat) (em : EncryptedMessage C)
    (r : EStateM.Result Exn (RatchetState K P) (Bytes × K)) : Prop where
  books : TrailBooks c l d canon who path B (after r)
  key : ∀ p k st, r = .ok (p, k) st →
    HeardAt c l who path B em.header.dhPub em.header.n k ∧ OpenedWith c em p k

theorem TrailBooks.raised (h : TrailBooks c l d canon who path B s) (e : Exn) :
    Decrypted c l d canon who path B em (.error e s) :=
  ⟨h, fun _ _ _ hok => by cases hok⟩

/-- Once a key has been taken, the AEAD decides. -/
theorem TrailBooks.opened (hlen : ∀ i s f b, (c.bytes (c.hkdf i s f b)).length = 32)
    (h : TrailBooks c l d canon who path B s) {k : K}
    (hk : HeardAt c l who path B em.header.dhPub em.header.n k) :
    Decrypted c l d canon who path B em
      ((lift (DoubleRatchet.openWith c k em []) >>= fun p => pure (p, k)) s) := by
  rw [bind_apply]
  cases hopen : DoubleRatchet.openWith c k em [] with
  | error e => exact h.raised e
  | ok p =>
      refine ⟨h, fun p' k' st hok => ?_⟩
      cases hok
      exact ⟨hk, openedWith_of_open (hk.key_length hlen) hopen⟩

theorem TrailBooks.onChain (hlen : ∀ i s f b, (c.bytes (c.hkdf i s f b)).length = 32)
    (h : TrailBooks c l d canon who path B s) (hX : s.dhr = some em.header.dhPub) {ck : K}
    (hck : s.ckR = some ck) :
    Decrypted c l d canon who path (B + 1001) em (DoubleRatchet.decryptOnChain c em [] s) := by
  have hskip : Skipped c l who path B em.header.n s _ := h.hear.skipMessageKeys hX hck
  simp only [DoubleRatchet.decryptOnChain, bind_apply, get_apply, ite_run, throw_apply, pure_apply]
  by_cases hold : em.header.n < s.Nr
  · simp only [if_pos hold]
    exact TrailBooks.raised ⟨h.say, h.hear.mono (List.suffix_refl _) (by omega)⟩ _
  · simp only [if_neg hold]
    have hsay := h.say.framed hskip.framed
    cases hrun : DoubleRatchet.skipMessageKeys c.toKeyAlg em.header.n s with
    | error e st =>
        rw [hrun] at hskip hsay
        exact TrailBooks.raised ⟨hsay, hskip.hear⟩ e
    | ok u st =>
        rw [hrun] at hskip hsay
        obtain ⟨hhear, hNr⟩ := hskip.done st rfl
        have hX' : st.dhr = some em.header.dhPub := by
          obtain ⟨ck', n', sk', hst⟩ := hskip.framed
          rw [after_ok] at hst
          rw [hst, hX]
        simp only [DoubleRatchet.nextReceivingKey, bind_apply, get_apply]
        cases hck' : st.ckR with
        | none => exact TrailBooks.raised ⟨hsay, hskip.hear⟩ _
        | some ck' =>
            obtain ⟨hnext, hheard⟩ := hhear.use hX' hck' (Nat.le_refl (st.Nr + 1))
            have hkey := hheard.lower (by omega : 0 ≤ em.header.n) hNr
            exact TrailBooks.opened hlen ⟨hsay.framed ⟨_, _, _, rfl⟩, hnext⟩ hkey

/-- A skipped key taken out of the store. -/
theorem HearSide.pop (h : HearSide c l who path B s) (key : Bytes × Int) :
    HearSide c l who path B { s with
      skippedKeys := { s.skippedKeys with store := Odict.erase s.skippedKeys.store key } } where
  chain := h.chain
  unopened := h.unopened
  filed := fun e he => h.filed e (Odict.mem_erase.mp he).1
  capacity := h.capacity
  room := (List.length_filter_le _ _).trans h.room

include hdh hshared in
theorem TrailBooks.decrypt (hlen : ∀ i s f b, (c.bytes (c.hkdf i s f b)).length = 32)
    (h : TrailBooks c l d canon who path B s) (hcanon : canon em.header.dhPub) (g : P) :
    ∃ path', path <:+ path' ∧ Decrypted c l d canon who path' (B + 1001) em
      (DoubleRatchet.decryptKeyed c em [] g s) := by
  cases hhas : s.skippedKeys.has em.header.dhPub em.header.n with
  | true =>
      obtain ⟨k, hk⟩ : ∃ k, Odict.get? s.skippedKeys.store (em.header.dhPub, em.header.n)
          = some k := Odict.has_eq_true_iff.mp hhas
      refine ⟨path, List.suffix_refl _, ?_⟩
      simp only [DoubleRatchet.decryptKeyed, bind_apply, get_apply, ite_run, hhas, if_true,
        DoubleRatchet.onStore, zoom, SkippedKeyStore.pop, hk, modify_apply, pure_apply]
      have hbooks : TrailBooks c l d canon who path (B + 1001) { s with
          skippedKeys := { s.skippedKeys with
            store := Odict.erase s.skippedKeys.store (em.header.dhPub, em.header.n) } } :=
        ⟨h.say.framed ⟨_, _, _, rfl⟩, (h.hear.pop _).mono (List.suffix_refl _) (by omega)⟩
      have hheard := h.hear.filed _ (Odict.mem_of_get? hk)
      exact hbooks.opened hlen (hheard.mono (List.suffix_refl _) (by omega))
  | false =>
      obtain ⟨path', st, hgrow, hensure, hbooks, hX, ck, hck⟩ := h.receiving hdh hshared hcanon g
      refine ⟨path', hgrow, ?_⟩
      rw [Ratchet.decryptKeyed_chain hhas, bind_apply, hensure]
      exact hbooks.onChain hlen hX hck

end Receiving

/-! ## Sessions -/

/-- Each envelope the cache let through has moved a chain by at most 1001. -/
structure SessionBooks (c : Crypto K P C) (l : Linking K P) (d : K) (canon : Bytes → Prop)
    (who : Party) (path : List (TrailStep K)) (ctx : SessionContext K P) : Prop where
  sid : ctx.sessionId = l.peerId who
  capacity : ctx.replayCache.maxEntries = 1024
  room : ctx.replayCache.seen.length ≤ 1024
  ratchet : TrailBooks c l d canon who path (1001 * ctx.replayCache.seen.length) ctx.ratchet

section Sessions

variable (hdh : DhIdeal c canon)
  (hshared : ∀ who, c.sharedKey (l.dhs who) (c.publicKey (l.dhs who.other)) = some d)
  (hlen : ∀ i s f b, (c.bytes (c.hkdf i s f b)).length = 32)
  {ctx : SessionContext K P} {env : ProtocolEnvelope C}

include hdh hshared hlen in
theorem SessionBooks.encrypt (h : SessionBooks c l d canon who path ctx) (profile : String)
    (pt : Bytes) :
    ∃ path', path <:+ path' ∧
      SessionBooks c l d canon who path'
        (after (SessionContext.encryptKeyed c profile pt ctx)) ∧
      ∀ env k ctx', SessionContext.encryptKeyed c profile pt ctx = .ok (env, k) ctx' →
        env.sessionId = l.peerId who ∧ SaidAt c l who path' env.senderRatchetKey
          env.previousChainLength env.messageNumber k := by
  obtain ⟨path', hpath, hbooks, hsaid⟩ := h.ratchet.encrypt hdh hshared hlen pt
  refine ⟨path', hpath, ?_⟩
  simp only [SessionContext.encryptKeyed, bind_apply, SessionContext.onRatchet, zoom]
  cases henc : DoubleRatchet.encryptKeyed c pt [] ctx.ratchet with
  | error e st =>
      rw [henc] at hbooks
      exact ⟨⟨h.sid, h.capacity, h.room, hbooks⟩, fun env k ctx' hok => by cases hok⟩
  | ok x st =>
      rw [henc] at hbooks
      refine ⟨⟨h.sid, h.capacity, h.room, hbooks⟩, fun env k ctx' hok => ?_⟩
      cases hok
      exact ⟨h.sid, hsaid _ _ _ henc⟩

include hdh hshared hlen in
theorem SessionBooks.decrypt (h : SessionBooks c l d canon who path ctx)
    (hcanon : canon env.senderRatchetKey) (g : P) :
    ∃ path', path <:+ path' ∧
      SessionBooks c l d canon who path' (after (SessionContext.decryptKeyed c env g ctx)) ∧
      ∀ p k ctx', SessionContext.decryptKeyed c env g ctx = .ok (p, k) ctx' →
        HeardAt c l who path' (1001 * 1024) env.senderRatchetKey env.messageNumber k ∧
          OpenedWith c (SessionContext.messageOf env) p k := by
  cases hrefuses : ctx.replayCache.refuses env with
  | true =>
      rw [decryptKeyed_refused hrefuses]
      exact ⟨path, List.suffix_refl _, ⟨h.sid, h.capacity, h.room, h.ratchet⟩,
        fun p k ctx' hok => by cases hok⟩
  | false =>
      have hroom : ctx.replayCache.seen.length < 1024 := by
        simp only [SessionReplayCache.refuses, h.capacity, Bool.or_eq_false_iff,
          decide_eq_false_iff_not] at hrefuses
        omega
      obtain ⟨ctx₁, hcache, hratchet, hsid, hcall⟩ := decryptKeyed_fresh (c := c) hrefuses g
      have hseen : ctx₁.replayCache.seen.length = ctx.replayCache.seen.length + 1 := by
        rw [hcache]
        rfl
      have hcap : ctx₁.replayCache.maxEntries = 1024 := by
        rw [hcache]
        exact h.capacity
      have hmost : 1001 * (ctx.replayCache.seen.length + 1) ≤ 1001 * 1024 := by omega
      rcases hcall with hcall | ⟨e, hcall⟩
      · have hcanon' : canon (SessionContext.messageOf env).header.dhPub := hcanon
        obtain ⟨path', hgrow, hdec⟩ := h.ratchet.decrypt hdh hshared hlen hcanon' g
        refine ⟨path', hgrow, ?_⟩
        rw [hcall, SessionContext.onRatchet, zoom, hratchet]
        cases hrun : DoubleRatchet.decryptKeyed c (SessionContext.messageOf env) [] g
            ctx.ratchet with
        | error e st =>
            rw [hrun] at hdec
            refine ⟨⟨hsid.trans h.sid, hcap, by rw [after_error, hseen]; exact hroom, ?_⟩,
              fun p k ctx' hok => by cases hok⟩
            rw [after_error, hseen]
            exact hdec.books
        | ok x st =>
            rw [hrun] at hdec
            refine ⟨⟨hsid.trans h.sid, hcap, by rw [after_ok, hseen]; exact hroom, ?_⟩,
              fun p k ctx' hok => ?_⟩
            · rw [after_ok, hseen]
              exact hdec.books
            · cases hok
              obtain ⟨hheard, hopened⟩ := hdec.key _ _ _ rfl
              exact ⟨hheard.mono (List.suffix_refl _) hmost, hopened⟩
      · rw [hcall]
        refine ⟨path, List.suffix_refl _, ⟨hsid.trans h.sid, hcap, ?_, ?_⟩,
          fun p k ctx' hok => by cases hok⟩
        · rw [after_error, hseen]
          exact hroom
        · rw [after_error, hseen, hratchet]
          exact ⟨h.ratchet.say, h.ratchet.hear.mono (List.suffix_refl _) (by omega)⟩

end Sessions

/-! ## Two managers -/

/-- The five fields the ratchet and its guards go by. -/
def SameEnvelope (env env' : ProtocolEnvelope C) : Prop :=
  env.sessionId = env'.sessionId ∧ env.senderRatchetKey = env'.senderRatchetKey ∧
    env.messageNumber = env'.messageNumber ∧
    env.previousChainLength = env'.previousChainLength ∧ env.ciphertext = env'.ciphertext

/-- What `decrypt_from` returns came in an envelope the peer made. -/
def Authentic (c : Crypto K P C) (l : Linking K P) (σ : Link K P C) : LinkAct P C → Prop
  | .encrypt _ _ => True
  | .decrypt who env g =>
      (value? (SessionManager.decryptFrom c (l.peerId who) env g (σ.manager who))).isSome →
      ∃ x ∈ σ.letters who.other, SameEnvelope env x.env

/-- The AEAD is not forged: under a message key of the session, a delivered
ciphertext opens only if one of the two made it under that key and that
nonce. -/
def UnforgedEnvelope (c : Crypto K P C) (l : Linking K P) (σ : Link K P C) : LinkAct P C → Prop
  | .encrypt _ _ => True
  | .decrypt _ env _ => ∀ name j nonce p,
      c.decrypt (msgKey c.toKeyAlg l.rootKey name j) nonce env.ciphertext [] = some p →
      ∃ sender, ∃ x ∈ σ.letters sender, x.key = msgKey c.toKeyAlg l.rootKey name j ∧
        messageNonce c.toKeyAlg x.key x.env.messageNumber.toNat = nonce ∧
        x.env.ciphertext = env.ciphertext

/-- The fields that no key depends on are the peer's, and the ratchet key is
one X25519 can use. -/
def ProperHeader (l : Linking K P) (canon : Bytes → Prop) : LinkAct P C → Prop
  | .encrypt _ _ => True
  | .decrypt who env _ => env.sessionId = l.peerId who.other ∧
      env.previousChainLength = 0 ∧ canon env.senderRatchetKey

/-- One side of a link: its session, and where the keys of its letters are. -/
structure SideBooks (c : Crypto K P C) (l : Linking K P) (d : K) (canon : Bytes → Prop)
    (who : Party) (path : List (TrailStep K)) (m : SessionManager K P)
    (letters : List (Letter K C)) : Prop where
  session : ∃ ctx, Odict.get? m.sessions (l.peerId who) = some ctx ∧
    SessionBooks c l d canon who path ctx
  letters : ∀ x ∈ letters, x.env.sessionId = l.peerId who ∧
    SaidAt c l who path x.env.senderRatchetKey x.env.previousChainLength x.env.messageNumber x.key

def LinkBooks (c : Crypto K P C) (l : Linking K P) (d : K) (canon : Bytes → Prop)
    (σ : Link K P C) : Prop :=
  ∀ who, ∃ path, SideBooks c l d canon who path (σ.manager who) (σ.letters who)

theorem LinkBooks.update {σ σ' : Link K P C} (h : LinkBooks c l d canon σ) (who : Party)
    (hside : ∃ path, SideBooks c l d canon who path (σ'.manager who) (σ'.letters who))
    (hm : ∀ w, w ≠ who → σ'.manager w = σ.manager w)
    (hl : ∀ w, w ≠ who → σ'.letters w = σ.letters w) : LinkBooks c l d canon σ' := by
  intro w
  by_cases hw : w = who
  · rw [hw]
    exact hside
  · rw [hm w hw, hl w hw]
    exact h w

/-- A call that leaves the letters alone. -/
theorem LinkBooks.managed {σ σ' : Link K P C} (h : LinkBooks c l d canon σ) {who : Party}
    {path : List (TrailStep K)} {m : SessionManager K P}
    (hside : SideBooks c l d canon who path m (σ.letters who))
    (hm : σ'.manager = Function.update σ.manager who m) (hl : σ'.letters = σ.letters) :
    LinkBooks c l d canon σ' := by
  refine h.update who ⟨path, ?_⟩ (fun w hw => ?_) (fun w _ => by rw [hl])
  · rw [hm, hl, Function.update_self]
    exact hside
  · rw [hm, Function.update_of_ne hw]

theorem SideBooks.letters_grow {path' : List (TrailStep K)} {m : SessionManager K P}
    {letters : List (Letter K C)} (h : SideBooks c l d canon who path m letters)
    (hgrow : path <:+ path') : ∀ x ∈ letters, x.env.sessionId = l.peerId who ∧
      SaidAt c l who path' x.env.senderRatchetKey x.env.previousChainLength x.env.messageNumber
        x.key := by
  intro x hx
  obtain ⟨hsid, hsaid⟩ := h.letters x hx
  exact ⟨hsid, hsaid.mono hgrow⟩

section Managers

variable (hdh : DhIdeal c canon)
  (hshared : ∀ who, c.sharedKey (l.dhs who) (c.publicKey (l.dhs who.other)) = some d)
  (hlen : ∀ i s f b, (c.bytes (c.hkdf i s f b)).length = 32)
  {m : SessionManager K P} {letters : List (Letter K C)} {σ : Link K P C}

include hdh hshared hlen in
theorem SideBooks.encrypt (h : SideBooks c l d canon who path m letters) (pt : Bytes) :
    ∃ path', path <:+ path' ∧
      SideBooks c l d canon who path'
        (after (SessionManager.encryptForKeyed c (l.peerId who) pt m)) letters ∧
      ∀ env k m', SessionManager.encryptForKeyed c (l.peerId who) pt m = .ok (env, k) m' →
        env.sessionId = l.peerId who ∧ SaidAt c l who path' env.senderRatchetKey
          env.previousChainLength env.messageNumber k := by
  obtain ⟨ctx, hctx, hsession⟩ := h.session
  obtain ⟨path', hgrow, hsession', hsaid⟩ := hsession.encrypt hdh hshared hlen m.profile pt
  have hcall : SessionManager.encryptForKeyed c (l.peerId who) pt m
      = SessionManager.withCtx (l.peerId who)
          (SessionContext.encryptKeyed c m.profile pt) m := rfl
  refine ⟨path', hgrow, ?_⟩
  simp only [hcall, SessionManager.withCtx, hctx]
  cases henc : SessionContext.encryptKeyed c m.profile pt ctx with
  | error e ctx' =>
      rw [henc] at hsession'
      refine ⟨⟨⟨ctx', ?_, hsession'⟩, h.letters_grow hgrow⟩, fun env k m' hok => by cases hok⟩
      exact Odict.get?_set_self _ _ _
  | ok x ctx' =>
      rw [henc] at hsession'
      refine ⟨⟨⟨ctx', ?_, hsession'⟩, h.letters_grow hgrow⟩, fun env k m' hok => ?_⟩
      · exact Odict.get?_set_self _ _ _
      · cases hok
        exact hsaid _ _ _ henc

include hdh hshared hlen in
theorem SideBooks.decrypt (h : SideBooks c l d canon who path m letters)
    {env : ProtocolEnvelope C} (hcanon : canon env.senderRatchetKey) (g : P) :
    ∃ path', path <:+ path' ∧
      SideBooks c l d canon who path'
        (after (SessionManager.decryptFrom c (l.peerId who) env g m)) letters ∧
      ∀ p, value? (SessionManager.decryptFrom c (l.peerId who) env g m) = some p →
        ∃ k, HeardAt c l who path' (1001 * 1024) env.senderRatchetKey env.messageNumber k ∧
          OpenedWith c (SessionContext.messageOf env) p k := by
  obtain ⟨ctx, hctx, hsession⟩ := h.session
  obtain ⟨path', hgrow, hsession', hheard⟩ := hsession.decrypt hdh hshared hlen hcanon g
  refine ⟨path', hgrow, ⟨⟨_, decryptFrom_session hctx, hsession'⟩, h.letters_grow hgrow⟩, ?_⟩
  intro p hvalue
  rw [decryptFrom_value hctx] at hvalue
  cases hdec : SessionContext.decryptKeyed c env g ctx with
  | error e ctx' => rw [hdec] at hvalue; cases hvalue
  | ok x ctx' =>
      rw [hdec] at hvalue
      cases hvalue
      exact ⟨x.2, hheard _ _ _ hdec⟩

include hdh hshared hlen in
theorem LinkBooks.step (h : LinkBooks c l d canon σ) {act : LinkAct P C}
    (hproper : ProperHeader l canon act) : LinkBooks c l d canon (σ.step c l act) := by
  cases act with
  | encrypt who pt =>
      obtain ⟨path, hside⟩ := h who
      obtain ⟨path', -, hside', hsaid⟩ := hside.encrypt hdh hshared hlen pt
      rw [Link.step]
      cases hcall : SessionManager.encryptForKeyed c (l.peerId who) pt (σ.manager who) with
      | error e m =>
          rw [hcall] at hside'
          exact h.managed hside' rfl rfl
      | ok x m =>
          rw [hcall] at hside'
          refine h.update who ⟨path', ?_⟩ (fun w hw => Function.update_of_ne hw _ _)
            (fun w hw => Function.update_of_ne hw _ _)
          simp only [Function.update_self]
          refine ⟨hside'.session, fun y hy => ?_⟩
          rcases List.mem_append.mp hy with hy | hy
          · exact hside'.letters y hy
          · rw [List.mem_singleton.mp hy]
            exact hsaid _ _ _ hcall
  | decrypt who env g =>
      obtain ⟨path, hside⟩ := h who
      obtain ⟨path', -, hside', -⟩ := hside.decrypt hdh hshared hlen hproper.2.2 g
      rw [Link.step]
      cases hcall : SessionManager.decryptFrom c (l.peerId who) env g (σ.manager who) with
      | error e m =>
          rw [hcall] at hside'
          exact h.managed hside' rfl rfl
      | ok p m =>
          rw [hcall] at hside'
          exact h.managed hside' rfl rfl

theorem SideBooks.trail (h : SideBooks c l d canon who path m letters) :
    Trail c l d canon who path := by
  obtain ⟨ctx, -, hsession⟩ := h.session
  exact hsession.ratchet.say.trail

/-- Numbers below `2 ^ 32` can be read off the nonce. -/
theorem messageNonce_inj {a : KeyAlg K} {mk : K} (hmk : (a.bytes mk).length = 32) {n n' : Nat}
    (hn : n < 2 ^ 32) (hn' : n' < 2 ^ 32) (h : messageNonce a mk n = messageNonce a mk n') :
    n = n' := by
  have hbase : ((a.bytes mk).take 12).length = 12 := by
    rw [List.length_take, hmk]
    rfl
  have := (xorCounter_eq_iff hbase).mp h
  omega

include hdh hshared hlen in
theorem LinkBooks.authentic (hk : GoodKdf c.toKeyAlg l.rootKey)
    (hdistinct : ∀ who, c.publicKey (l.dhs who) ≠ c.publicKey (l.dhs who.other))
    (h : LinkBooks c l d canon σ) {act : LinkAct P C} (hproper : ProperHeader l canon act)
    (hunforged : UnforgedEnvelope c l σ act) : Authentic c l σ act := by
  cases act with
  | encrypt who pt => trivial
  | decrypt who env g =>
      intro hopened
      obtain ⟨p, hvalue⟩ := Option.isSome_iff_exists.mp hopened
      obtain ⟨hsid, hpcl, hcanon⟩ := hproper
      obtain ⟨path, hside⟩ := h who
      obtain ⟨path', -, hside', hheard⟩ := hside.decrypt hdh hshared hlen hcanon g
      obtain ⟨k, ⟨suf, j, hopen, rfl, hn, hnj, hj, hpub⟩, hdec⟩ := hheard p hvalue
      obtain ⟨sender, x, hx, hkey, hnonce, hct⟩ := hunforged _ _ _ _ hdec
      rcases Party.eq_or_other sender who with rfl | rfl
      · -- A side never opens what it sealed itself.
        obtain ⟨-, suf', j', hopen', hkey', -⟩ := hside'.letters x hx
        obtain ⟨hname, -⟩ := hk.msgKey_inj (hkey'.symm.trans hkey)
        exact (hopen'.one_way hopen hname).elim
      · obtain ⟨path₂, hpeer⟩ := h who.other
        obtain ⟨hsid', suf', j', hopen', hkey', hn', hnj', hhead⟩ := hpeer.letters x hx
        obtain ⟨hname, rfl⟩ := hk.msgKey_inj (hkey'.symm.trans hkey)
        obtain ⟨hs, hs'⟩ := Trail.straight hdh hshared hdistinct (hopen.trail hside'.trail)
          (hopen'.trail hpeer.trail) hname.symm
        obtain ⟨hpub', hpcl'⟩ := hhead hs'
        have hnumber : x.env.messageNumber.toNat = env.messageNumber.toNat := by
          refine messageNonce_inj (a := c.toKeyAlg) (hlen _ _ _ _) ?_ ?_ (hkey ▸ hnonce)
          · omega
          · omega
        refine ⟨x, hx, hsid.trans hsid'.symm, (hpub hs).trans hpub'.symm, ?_,
          hpcl.trans hpcl'.symm, hct.symm⟩
        omega

end Managers

/-! ## Runs -/

/-- The books at the start. -/
theorem TrailBooks.start (hdh : DhIdeal c canon) :
    TrailBooks c l d canon who [⟨who.isInitiator, false, d⟩] 0 (ratchetAt c l d who 0 0) := by
  have hone : ∀ sends, OpenedIn sends [(⟨sends, false, d⟩ : TrailStep K)] [⟨sends, false, d⟩] :=
    fun sends => OpenedIn.newest _ _
  have hremote : ∃ X, (ratchetAt c l d who 0 0).dhr = some X ∧ canon X :=
    ⟨_, rfl, hdh.generated _⟩
  cases who with
  | initiator =>
      refine ⟨⟨.start, rfl, fun _ => ⟨rfl, rfl, rfl⟩, hremote, fun ck hck => ?_⟩,
        ⟨(fun ck hck => by cases hck), fun _ => rfl, (fun e he => by cases he), rfl,
          Nat.zero_le _⟩⟩
      cases hck
      exact ⟨_, 0, hone true, rfl, Nat.le_refl _, id⟩
  | responder =>
      refine ⟨⟨.start, rfl, fun _ => ⟨rfl, rfl, rfl⟩, hremote, fun ck hck => by cases hck⟩,
        ⟨fun ck hck => ?_, (fun hck => by cases hck), (fun e he => by cases he), rfl,
          Nat.zero_le _⟩⟩
      cases hck
      exact ⟨_, 0, hone false, rfl, Nat.le_refl _, Nat.le_refl _, fun _ => rfl⟩

theorem LinkBooks.start (hdh : DhIdeal c canon) {σ : Link K P C} (h : InStep c l d σ)
    (hletters : ∀ who, σ.letters who = []) (hasked : ∀ who, σ.asked who = 0) :
    LinkBooks c l d canon σ := by
  intro who
  refine ⟨[⟨who.isInitiator, false, d⟩], ⟨sessionAt c l d who 0 0, ?_, ?_⟩, fun x hx => ?_⟩
  · have hsession := h.session who
    rwa [hletters, hasked] at hsession
  · exact ⟨rfl, rfl, Nat.zero_le _, TrailBooks.start hdh⟩
  · rw [hletters] at hx
    cases hx

/-- In every run of two linked managers, with an adversary who may hand either
side any envelope but forges no ciphertext: as long as the envelopes carry the
peer's session id, a previous chain length of zero and a proper ratchet key,
whatever `decrypt_from` returns came in an envelope that the peer's
`encrypt_for` made, with the same session id, ratchet key, number, previous
chain length and ciphertext. -/
theorem accepted_envelope_authentic (hk : GoodKdf c.toKeyAlg l.rootKey) (hdh : GoodDh c)
    (hideal : DhIdeal c canon)
    (hdistinct : ∀ who, c.publicKey (l.dhs who) ≠ c.publicKey (l.dhs who.other))
    {before : Party → SessionManager K P} {σ : Link K P C}
    (hstart : Link.Starts c l before σ) {acts : List (LinkAct P C)}
    (hunforged : Along (Link.step c l) (UnforgedEnvelope c l) σ acts)
    (hproper : Along (Link.step c l) (fun _ => ProperHeader l canon) σ acts) :
    Along (Link.step c l) (Authentic c l) σ acts := by
  obtain ⟨d, hd, h⟩ := InStep.start hdh hstart
  have hshared : ∀ who, c.sharedKey (l.dhs who) (c.publicKey (l.dhs who.other)) = some d := by
    intro who
    obtain ⟨k, hdhk, hk⟩ := hideal.dhWith (l.dhs who) (hideal.generated (l.dhs who.other))
    rw [hd] at hdhk
    cases hdhk
    exact hk
  refine Along.strengthen (I := LinkBooks c l d canon) (fun σ act hbooks hact => ?_)
    (LinkBooks.start hideal h hstart.2.1 hstart.2.2.1) (hunforged.and hproper)
  exact ⟨hbooks.step hideal hshared hk.hkdf_length hact.2,
    hbooks.authentic hideal hshared hk.hkdf_length hk hdistinct hact.2 hact.1⟩

/-! ## The symbolic model -/

def symCanon (X : Bytes) : Prop := X.length = 32 ∧ X ≠ List.replicate 32 0

instance symCanon.decidable (X : Bytes) : Decidable (symCanon X) :=
  inferInstanceAs (Decidable (_ ∧ _))

theorem symbolic_dhIdeal : DhIdeal symbolic symCanon where
  generated := fun p => by
    refine ⟨rfl, fun h => ?_⟩
    injection h with h
    cases h
  length := fun h => h.1
  works := fun p X h => ⟨_, if_neg h.2⟩
  pairs := fun _ _ hp hq => symbolic_dhInjective _ _ _ _ _ hp hq

/-- The delivered box is in one of the letters. -/
def RelayedEnvelope (σ : Link SymKey Nat Box) : LinkAct Nat Box → Prop
  | .encrypt _ _ => True
  | .decrypt _ env _ => ∃ x ∈ σ.letters .initiator ++ σ.letters .responder,
      x.env.ciphertext = env.ciphertext ∧ env.ciphertext.key = x.key ∧
        env.ciphertext.nonce
          = messageNonce symKeys x.key x.env.messageNumber.toNat

instance RelayedEnvelope.decidable (σ : Link SymKey Nat Box) :
    ∀ act, Decidable (RelayedEnvelope σ act)
  | .encrypt _ _ => isTrue trivial
  | .decrypt _ _ _ => inferInstanceAs (Decidable (∃ x ∈ _, _ ∧ _ ∧ _))

instance ProperHeader.decidable (l : Linking SymKey Nat) :
    (act : LinkAct Nat Box) → Decidable (ProperHeader l symCanon act)
  | .encrypt _ _ => isTrue trivial
  | .decrypt _ _ _ => inferInstanceAs (Decidable (_ ∧ _ ∧ _))

theorem RelayedEnvelope.unforged {σ : Link SymKey Nat Box} {act : LinkAct Nat Box}
    (h : RelayedEnvelope σ act) : UnforgedEnvelope symbolic symLinking σ act := by
  cases act with
  | encrypt who pt => trivial
  | decrypt who env g =>
      intro name j nonce p hdec
      obtain ⟨x, hx, hct, hkey, hnonce⟩ := h
      simp only [symbolic] at hdec
      split at hdec
      · next hopen =>
          obtain ⟨hk, hn, -⟩ := hopen
          have hmine : x.key = msgKey symbolic.toKeyAlg symLinking.rootKey name j ∧
              messageNonce symbolic.toKeyAlg x.key x.env.messageNumber.toNat = nonce ∧
              x.env.ciphertext = env.ciphertext := ⟨hkey.symm.trans hk, hnonce.symm.trans hn, hct⟩
          rcases List.mem_append.mp hx with hx | hx
          · exact ⟨.initiator, x, hx, hmine⟩
          · exact ⟨.responder, x, hx, hmine⟩
      · cases hdec

/-- Deliver the `i`th letter of the peer, as `change` makes it. -/
def forward (who : Party) (i : Nat) (g : P) (change : ProtocolEnvelope C → ProtocolEnvelope C)
    (σ : Link K P C) : LinkAct P C :=
  match (σ.letters who.other)[i]? with
  | some x => .decrypt who (change x.env) g
  | none => .encrypt who []

/-- Three messages: the first arrives as it was, the second with another
number, the third with another ratchet key. -/
def symTampered : List (LinkAct Nat Box) := linkScript symbolic symLinking symLink [
  fun _ => .encrypt .initiator [10], fun _ => .encrypt .initiator [11],
  fun _ => .encrypt .initiator [12],
  forward .responder 0 3 id,
  forward .responder 1 4 fun env => { env with messageNumber := 2 },
  forward .responder 2 5 fun env => { env with senderRatchetKey := symPublicKey 7 }]

theorem accepted_envelope_authentic_tampered :
    ((runFrom (Link.step symbolic symLinking) symLink symTampered).opened .responder).length = 1 ∧
      Along (Link.step symbolic symLinking) (Authentic symbolic symLinking) symLink
        symTampered := by
  have hrelayed : Along (Link.step symbolic symLinking)
      (fun σ act => RelayedEnvelope σ act ∧ ProperHeader symLinking symCanon act) symLink
      symTampered := by decide +kernel
  exact ⟨by decide +kernel, accepted_envelope_authentic symbolic_good symbolic_goodDh
    symbolic_dhIdeal (fun who => by cases who <;> decide) symLink_starts
    (hrelayed.mono fun _ _ h => h.1.unforged) (hrelayed.mono fun _ _ h => h.2)⟩

instance Authentic.decidable (l : Linking SymKey Nat) (σ : Link SymKey Nat Box) :
    (act : LinkAct Nat Box) → Decidable (Authentic symbolic l σ act)
  | .encrypt _ _ => isTrue trivial
  | .decrypt _ _ _ => inferInstanceAs (Decidable (_ → ∃ x ∈ _, _ ∧ _ ∧ _ ∧ _ ∧ _))

/-- One message, with a header of the adversary's. -/
def symAltered (change : ProtocolEnvelope Box → ProtocolEnvelope Box) :
    List (LinkAct Nat Box) := linkScript symbolic symLinking symLink [
  fun _ => .encrypt .initiator [10], forward .responder 0 3 change]

/-- The message twice: with a ratchet key that X25519 refuses and a number to
be refused, and with that key alone. -/
def symRefusedKey : List (LinkAct Nat Box) := linkScript symbolic symLinking symLink [
  fun _ => .encrypt .initiator [10],
  forward .responder 0 3 fun env => { env with
    senderRatchetKey := List.replicate 32 0, messageNumber := -1 },
  forward .responder 0 4 fun env => { env with senderRatchetKey := List.replicate 32 0 }]

/-- Nothing is forged, and an envelope is accepted that nobody sent. -/
def Misled (acts : List (LinkAct Nat Box)) : Prop :=
  Along (Link.step symbolic symLinking) (UnforgedEnvelope symbolic symLinking) symLink acts ∧
    ¬ Along (Link.step symbolic symLinking) (Authentic symbolic symLinking) symLink acts

theorem misled_of_relayed {acts : List (LinkAct Nat Box)}
    (h : Along (Link.step symbolic symLinking) RelayedEnvelope symLink acts)
    (hnot : ¬ Along (Link.step symbolic symLinking) (Authentic symbolic symLinking) symLink acts) :
    Misled acts := ⟨h.mono fun _ _ h => h.unforged, hnot⟩

/-- An envelope is accepted with a previous chain length, with a session id,
and with a ratchet key that its sender did not write. -/
theorem altered_envelope_accepted :
    Misled (symAltered fun env => { env with previousChainLength := 5 }) ∧
      Misled (symAltered fun env => { env with sessionId := ascii "other" }) ∧
      Misled symRefusedKey :=
  ⟨misled_of_relayed (by decide +kernel) (by decide +kernel),
    misled_of_relayed (by decide +kernel) (by decide +kernel),
    misled_of_relayed (by decide +kernel) (by decide +kernel)⟩

end GhostChat.Proofs
