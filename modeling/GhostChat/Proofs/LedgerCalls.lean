import GhostChat.Proofs.Calls
import GhostChat.Proofs.Ledger

/-!
# Every call keeps the books

The ledger of `Ledger.lean`, carried through the engine's methods one at a
time. Each lemma here is about the state a call leaves behind, returned or
raised, because a receiver under attack raises far more often than it
returns; what a call adds when it does return stands in a second conjunct.
The two results at the end, one for each public method, are what the
two-party files use.
-/

namespace GhostChat.Proofs

open GhostChat.Lib GhostChat.Lib.Effect GhostChat.Ref

variable {K P C : Type} {c : Crypto K P C} {rk : K}

/-! ## The DH side -/

/-- How one root step follows the steps before it. A receiving step used a
key of this party's and generated another. A sending step used the key its
receiving step generated, against the same remote key; only the responder may
open with one. -/
def StepOk (c : Crypto K P C) (boot : Bool) (mine : List Bytes)
    (st : RootStep K P) (t : List (RootStep K P)) : Prop :=
  c.sharedKey st.priv st.remote = some st.shared ∧
  c.publicKey st.priv ∈ mine ∧
  (st.sends = false → c.publicKey st.gen ∈ mine ∧
    c.publicKey st.gen ≠ c.publicKey st.priv) ∧
  (st.sends = true → (t = [] ∧ boot = false) ∨
    ∃ st' t', t = st' :: t' ∧ st'.sends = false ∧ st'.remote = st.remote ∧
      st'.gen = st.priv)

structure DhSide (c : Crypto K P C) (boot : Bool) (mine : List Bytes)
    (path : List (RootStep K P)) (dhs : Option P) (dhr : Option Bytes)
    (ckS ckR : Option K) : Prop where
  steps : ∀ st t, (st :: t) <:+ path → StepOk c boot mine st t
  own : ∃ p, dhs = some p ∧ c.publicKey p ∈ mine
  /-- no remote key, no step yet -/
  fresh : dhr = none → path = []
  /-- with no sending chain, the newest step is a receiving one, and `dhr` is
  its remote key unless a later DH failed -/
  idle : ckS = none → (path = [] ∧ boot = false) ∨
    ∃ st t, path = st :: t ∧ st.sends = false ∧ dhs = some st.gen ∧
      ∀ d, dhr = some d → d = st.remote ∨ c.sharedKey st.gen d = none
  /-- with no receiving chain, a known `dhr` is one the DH fails on -/
  deaf : ckR = none → boot = true ∧
    ∀ d p, dhr = some d → dhs = some p → c.sharedKey p d = none

/-- The books of one party: `boot` says whether it is the initiator, `mine`
lists the public keys it was handed. -/
structure Ledger (c : Crypto K P C) (rk : K) (cap : Nat) (boot : Bool) (mine : List Bytes)
    (path : List (RootStep K P)) (sent : List (Bytes × K)) (got : List K)
    (s : DoubleRatchetState K P) : Prop where
  room : s.skippedMessageKeys.maxKeys = cap
  root : s.rootKey = rootAfter c.toKeyAlg rk (outputs path)
  dh : DhSide c boot mine path s.dhsPrivate s.dhr s.sendingChainKey
    s.receivingChainKey
  send : SendSide c.toKeyAlg rk boot path (sent.map (·.2)) s.sendingChainKey s.Ns
  heads : HeadSide c rk mine sent s.dhsPrivate s.sendingChainKey
  recv : RecvSide c rk boot path cap got s.skippedMessageKeys.store
    s.receivingChainKey s.Nr s.dhr

variable {cap : Nat} {boot : Bool} {mine : List Bytes} {path : List (RootStep K P)}
  {sent : List (Bytes × K)} {got : List K} {s : DoubleRatchetState K P}

theorem StepOk.mono {mine' : List Bytes} (hsub : mine ⊆ mine')
    {st : RootStep K P} {t : List (RootStep K P)}
    (h : StepOk c boot mine st t) : StepOk c boot mine' st t :=
  ⟨h.1, hsub h.2.1, fun hs => ⟨hsub (h.2.2.1 hs).1, (h.2.2.1 hs).2⟩, h.2.2.2⟩

theorem DhSide.mono {mine' : List Bytes} (hsub : mine ⊆ mine')
    {dhs : Option P} {dhr : Option Bytes} {ckS ckR : Option K}
    (h : DhSide c boot mine path dhs dhr ckS ckR) :
    DhSide c boot mine' path dhs dhr ckS ckR where
  steps := fun st t hsuf => (h.steps st t hsuf).mono hsub
  own := by
    obtain ⟨p, hp, hmem⟩ := h.own
    exact ⟨p, hp, hsub hmem⟩
  fresh := h.fresh
  idle := h.idle
  deaf := h.deaf

theorem Ledger.mono {mine' : List Bytes} (hsub : mine ⊆ mine')
    (h : Ledger c rk cap boot mine path sent got s) :
    Ledger c rk cap boot mine' path sent got s :=
  ⟨h.room, h.root, h.dh.mono hsub, h.send, h.heads.mono hsub, h.recv⟩

/-- The steps of a path with one more on top. -/
theorem steps_cons {st : RootStep K P} (hst : StepOk c boot mine st path)
    (h : ∀ st t, (st :: t) <:+ path → StepOk c boot mine st t) :
    ∀ st' t, (st' :: t) <:+ st :: path → StepOk c boot mine st' t := by
  intro st' t hsuf
  rcases List.suffix_cons_iff.mp hsuf with heq | hsuf
  · injection heq with h1 h2
    subst h1 h2
    exact hst
  · exact h st' t hsuf

/-! ## Skipping and taking -/

theorem Ledger.recvOnly (h : Ledger c rk cap boot mine path sent got s)
    {ck : Option K} {store : Odict (Bytes × Nat) K} {Nr : Nat} {got' : List K}
    (hck : ck = none → s.receivingChainKey = none)
    (hr : RecvSide c rk boot path cap got' store ck Nr s.dhr) :
    Ledger c rk cap boot mine path sent got' (withRecv s ck store Nr) where
  room := h.room
  root := h.root
  dh := ⟨h.dh.steps, h.dh.own, h.dh.fresh, h.dh.idle, fun hno => h.dh.deaf (hck hno)⟩
  send := h.send
  heads := h.heads
  recv := hr

/-- Skipping files every key it derives, or stops where the store refuses
one, with the chain a step ahead of its counter. -/
theorem skipReceivingLoop_keeps (hk : GoodKdf c.toKeyAlg rk) {dh : Bytes}
    (hdh : dh.length = 32) (upTo : Nat) :
    ∀ (fuel : Nat) (s : DoubleRatchetState K P) (k₀ : K),
      s.receivingChainKey = some k₀ → s.skippedMessageKeys.maxKeys = cap →
      RecvSide c rk boot path cap got s.skippedMessageKeys.store (some k₀) s.Nr
        (some dh) →
      ∃ k₁ store Nr,
        after (skipReceivingLoop c.toKeyAlg dh upTo fuel s)
          = withRecv s (some k₁) store Nr ∧
        RecvSide c rk boot path cap got store (some k₁) Nr
          (some dh) ∧
        (∀ u s', skipReceivingLoop c.toKeyAlg dh upTo fuel s = .ok u s' →
          s.Nr + fuel = upTo → Nr = upTo) := by
  intro fuel
  induction fuel with
  | zero =>
      intro s k₀ hck hcap hr
      exact ⟨k₀, s.skippedMessageKeys.store, s.Nr, hck ▸ rfl, hr, fun _ _ _ h => h⟩
  | succ fuel ih =>
      intro s k₀ hck hcap hr
      by_cases hlt : s.Nr < upTo
      · obtain ⟨hr', hlab⟩ := hr.take hk
        have hkey : (c.bytes (kdfChain c.toKeyAlg k₀).2).length = 32 :=
          hk.hkdf_length _ _ _ _
        rcases skipped_add_cases (n := s.Nr) hdh hkey s.skippedMessageKeys
          with ⟨e, store, hadd, hsub, hbig⟩ | ⟨-, -, hadd⟩
        · rw [skipReceivingLoop_refused hlt hck hadd]
          exact ⟨(kdfChain c.toKeyAlg k₀).1, store, s.Nr, rfl,
            (hr'.drop.shrink hsub).overrun (hcap ▸ hbig), fun u s' hok => by cases hok⟩
        · rw [skipReceivingLoop_filed hlt hck hadd]
          have hsub := evictTo_sublist s.skippedMessageKeys.maxKeys
            s.skippedMessageKeys.store
          obtain ⟨k₁, store, Nr, haft, hrec, hend⟩ := ih
            (withRecv s (some (kdfChain c.toKeyAlg k₀).1)
              (Odict.set (evictTo s.skippedMessageKeys.maxKeys
                s.skippedMessageKeys.store).1 (dh, s.Nr) (kdfChain c.toKeyAlg k₀).2)
              (s.Nr + 1))
            _ rfl hcap ((hr'.shrink hsub).file hlab)
          refine ⟨k₁, store, Nr, haft, hrec, fun u s' hok hfuel => hend u s' hok ?_⟩
          show s.Nr + 1 + fuel = upTo
          omega
      · rw [skipReceivingLoop_done (Nat.not_lt.mp hlt)]
        exact ⟨k₀, s.skippedMessageKeys.store, s.Nr, hck ▸ rfl, hr,
          fun _ _ _ h => by omega⟩

/-! ## The branches before the chain is used -/

/-- A DH ratchet on a received key, successful or not. Success puts a
receiving step on the path; failure leaves the old chains under a label of
low order. -/
theorem dhRatchetReceive_keeps (hk : GoodKdf c.toKeyAlg rk) {dh : Bytes}
    (hdh : dh.length = 32) {g : P} (hg : c.publicKey g ∉ mine)
    (h : Ledger c rk cap boot mine path sent got s) :
    ∃ path', Ledger c rk cap boot (c.publicKey g :: mine) path' sent got
      (after (dhRatchetReceive c dh g s)) := by
  obtain ⟨p, hp, hpm⟩ := h.dh.own
  have hsub : mine ⊆ c.publicKey g :: mine := List.subset_cons_self _ _
  cases hsh : c.sharedKey p dh with
  | none =>
      have hw : dhWith c s.dhsPrivate dh
          = .error (.runtimeError "Unexpected library error") := by
        rw [hp, dhWith_some hdh, hsh]
      rw [dhRatchetReceive_failed hw]
      refine ⟨path, h.room, h.root, ?_,
        h.send.lower (Nat.zero_le _), h.heads.mono hsub, h.recv.relabel ⟨p, hsh⟩ 0⟩
      refine ⟨(h.dh.mono hsub).steps, (h.dh.mono hsub).own, nofun,
        fun hno => ?_, fun hno => ?_⟩
      · rcases h.dh.idle hno with hb | ⟨st, t, hpath, hst, hgen, -⟩
        · exact Or.inl hb
        · refine Or.inr ⟨st, t, hpath, hst, hgen, fun d hd => Or.inr ?_⟩
          have hd : dh = d := Option.some.inj hd
          have hpg : p = st.gen := Option.some.inj (hp.symm.trans hgen)
          rw [← hd, ← hpg]
          exact hsh
      · refine ⟨(h.dh.deaf hno).1, fun d q hd hq => ?_⟩
        have hd : dh = d := Option.some.inj hd
        have hpq : p = q := Option.some.inj (hp.symm.trans hq)
        rw [← hd, ← hpq]
        exact hsh
  | some k =>
      have hw : dhWith c s.dhsPrivate dh = .ok k := by rw [hp, dhWith_some hdh, hsh]
      rw [dhRatchetReceive_done hw]
      let st : RootStep K P := ⟨false, p, dh, k, g⟩
      have hne : c.publicKey g ≠ c.publicKey p := fun he => hg (he ▸ hpm)
      have hst : StepOk c boot (c.publicKey g :: mine) st path :=
        ⟨hsh, hsub hpm, fun _ => ⟨List.mem_cons_self, hne⟩, fun hs => by cases hs⟩
      refine ⟨st :: path, h.room, ?_, ?_, (h.send.grow st).close 0,
        h.heads.replace hg, ?_⟩
      · show (kdfRoot c.toKeyAlg s.rootKey k).1 = _
        rw [h.root]
        rfl
      · refine ⟨steps_cons hst (h.dh.mono hsub).steps, ⟨g, rfl, List.mem_cons_self⟩,
          nofun,
          fun _ => Or.inr ⟨st, path, rfl, rfl, rfl, fun d hd => Or.inl ?_⟩,
          nofun⟩
        exact (Option.some.inj hd).symm
      · have hopen := h.recv.openChain hk st rfl dh
        show RecvSide c rk boot (st :: path) _ got _
          (some (kdfRoot c.toKeyAlg s.rootKey k).2) 0 (some dh)
        rw [h.root]
        exact hopen

/-- The bootstrap and ratchet branches keep the books, and end with the
header's key in use on a chain that is there. -/
theorem ensureReceivingChain_keeps (hk : GoodKdf c.toKeyAlg rk) {dh : Bytes}
    (hdh : dh.length = 32) {g : P} (hg : c.publicKey g ∉ mine)
    (h : Ledger c rk cap boot mine path sent got s) :
    (∃ path', Ledger c rk cap boot (c.publicKey g :: mine) path' sent got
      (after (ensureReceivingChain c dh g s))) ∧
    ∀ u s', ensureReceivingChain c dh g s = .ok u s' →
      s'.dhr = some dh ∧ ∃ ck, s'.receivingChainKey = some ck := by
  have hsub : mine ⊆ c.publicKey g :: mine := List.subset_cons_self _ _
  by_cases ht : (s.dhr = none ∧ s.sendingChainKey.isSome) ∨
      ∃ d, s.dhr = some d ∧ d ≠ dh
  · rw [ensureReceivingChain_turn ht]
    refine ⟨dhRatchetReceive_keeps hk hdh hg h, fun u s' hok => ?_⟩
    cases hw : dhWith c s.dhsPrivate dh with
    | error e => rw [dhRatchetReceive_failed hw] at hok; cases hok
    | ok k =>
        rw [dhRatchetReceive_done hw] at hok
        injection hok with _ hs
        subst hs
        exact ⟨rfl, _, rfl⟩
  · rcases still_of_not_turn ht with ⟨hd, hs⟩ | hd
    · have hpath := h.dh.fresh hd
      obtain ⟨-, hb⟩ : path = [] ∧ boot = false := by
        rcases h.dh.idle hs with hb | ⟨st, t, hne, -⟩
        · exact hb
        · rw [hpath] at hne; cases hne
      cases hr : s.receivingChainKey with
      | none =>
          -- Silent and deaf at once: only the initiator starts without a
          -- receiving chain, and it has a sending chain until it turns.
          have := (h.dh.deaf hr).1
          rw [hb] at this
          cases this
      | some ck =>
          rw [ensureReceivingChain_boot hd hr hs]
          have hrec := h.recv
          rw [hd] at hrec
          refine ⟨⟨path, h.room, h.root, ?_, h.send, h.heads.mono hsub,
            hrec.bootstrap dh⟩, ?_⟩
          · exact ⟨(h.dh.mono hsub).steps, (h.dh.mono hsub).own,
              nofun, fun _ => Or.inl ⟨hpath, hb⟩,
              fun hno => nomatch hr.symm.trans hno⟩
          · intro u s' hok
            injection hok with _ hs'
            subst hs'
            exact ⟨rfl, ck, hr⟩
    · cases hr : s.receivingChainKey with
      | some ck =>
          rw [ensureReceivingChain_same hd hr]
          refine ⟨⟨path, h.mono hsub⟩, fun u s' hok => ?_⟩
          injection hok with _ hs'
          subst hs'
          exact ⟨hd, ck, hr⟩
      | none =>
          obtain ⟨p, hp, -⟩ := h.dh.own
          have hno := (h.dh.deaf hr).2 dh p hd hp
          rw [ensureReceivingChain_late hd hr, hp, dhWith_some hdh, hno]
          exact ⟨⟨path, h.mono hsub⟩, fun u s' hok => by cases hok⟩

/-! ## The public methods -/

/-- The replay cache is not in the books. -/
theorem Ledger.received (h : Ledger c rk cap boot mine path sent got s)
    (r : ReceivedIdsStore) :
    Ledger c rk cap boot mine path sent got { s with receivedIds := r } :=
  ⟨h.room, h.root, h.dh, h.send, h.heads, h.recv⟩

theorem Ledger.dropGot {mk : K} (h : Ledger c rk cap boot mine path sent (mk :: got) s) :
    Ledger c rk cap boot mine path sent got s :=
  ⟨h.room, h.root, h.dh, h.send, h.heads, h.recv.drop⟩

/-- The address and the label of a key decrypted under the header
`(dh, n)`. -/
def Received (c : Crypto K P C) (rk : K) (cap : Nat) (dh : Bytes) (n : Nat)
    (mk : K) : Prop :=
  ∃ l j, mk = msgKey c.toKeyAlg rk l j ∧ Label c cap dh n j

/-- What a finished decryption has added to the books: the key it used, if
it returned. -/
def used : EStateM.Result Exn (DoubleRatchetState K P) (Bytes × K) → List K
  | .ok (_, mk) _ => [mk]
  | .error _ _ => []

/-- What a finished encryption has added to the books. -/
def booked : EStateM.Result Exn (DoubleRatchetState K P) (RatchetWireMessage C × K) →
    List (Bytes × K)
  | .ok (w, mk) _ => [(w.header.dh, mk)]
  | .error _ _ => []

/-- Trying a key in hand: it is booked if the call returns and forgotten if
it raises. -/
theorem keyed_keeps {mk : K} {msg : RatchetWireMessage C} {failed : String}
    (h : Ledger c rk cap boot mine path sent (mk :: got) s) :
    Ledger c rk cap boot mine path sent
      (used (keyed mk (openWith c mk msg failed s)) ++ got)
      (after (keyed mk (openWith c mk msg failed s))) := by
  obtain ⟨r, hr⟩ := openWith_after (c := c) (s := s) mk msg failed
  rw [after_keyed, hr]
  cases openWith c mk msg failed s with
  | ok p s' => exact h.received r
  | error e s' => exact h.dropGot.received r

theorem decryptOnChain_keeps (hk : GoodKdf c.toKeyAlg rk)
    {msg : RatchetWireMessage C} (hdh : msg.header.dh.length = 32)
    (hd : s.dhr = some msg.header.dh) {ck : K} (hck : s.receivingChainKey = some ck)
    (h : Ledger c rk cap boot mine path sent got s) :
    Ledger c rk cap boot mine path sent (used (decryptOnChain c msg s) ++ got)
        (after (decryptOnChain c msg s)) ∧
      ∀ p mk s', decryptOnChain c msg s = .ok (p, mk) s' →
        Received c rk cap msg.header.dh msg.header.n.toNat mk := by
  by_cases hfar : msg.header.n.toNat < s.Nr ∨ s.Nr + maxSkipDistance < msg.header.n.toNat
  · obtain ⟨e, he⟩ := decryptOnChain_far (c := c) hck hfar
    rw [he]
    exact ⟨h, fun p mk s' hok => by cases hok⟩
  · rw [decryptOnChain_near (by omega) (by omega), skipReceivingUntil_some hck hd]
    have hrec := h.recv
    rw [hck, hd] at hrec
    obtain ⟨k₁, store, Nr, haft, hr₁, hend⟩ := skipReceivingLoop_keeps hk hdh
      msg.header.n.toNat (msg.header.n.toNat - s.Nr) s ck hck h.room hrec
    have h₁ : Ledger c rk cap boot mine path sent got (withRecv s (some k₁) store Nr) :=
      h.recvOnly nofun (by rw [hd]; exact hr₁)
    cases hloop : skipReceivingLoop c.toKeyAlg msg.header.dh msg.header.n.toNat
        (msg.header.n.toNat - s.Nr) s with
    | error e s₁ =>
        rw [hloop] at haft
        refine ⟨?_, fun p mk s' hok => by cases hok⟩
        rw [show s₁ = _ from haft]
        exact h₁
    | ok u s₁ =>
        rw [hloop] at haft
        have hs₁ : s₁ = withRecv s (some k₁) store Nr := haft
        have hNr : Nr = msg.header.n.toNat := hend u s₁ hloop (by omega)
        subst hs₁
        obtain ⟨hr₂, hlab⟩ := hr₁.take hk
        have h₂ : Ledger c rk cap boot mine path sent ((kdfChain c.toKeyAlg k₁).2 :: got)
            (withRecv s (some (kdfChain c.toKeyAlg k₁).1) store (Nr + 1)) :=
          h.recvOnly nofun (by rw [hd]; exact hr₂)
        refine ⟨keyed_keeps h₂, fun p mk s' hok => ?_⟩
        obtain ⟨-, rfl⟩ := keyed_ok hok
        obtain ⟨l, j, -, hj, hL⟩ := hlab
        exact ⟨l, j, hj, hNr ▸ hL⟩

/-- Any message, from anybody: `ratchet_decrypt` keeps the books, and a key
it returns with is one of a receiving chain under the header's label. -/
theorem decrypt_keeps (hk : GoodKdf c.toKeyAlg rk) (msg : RatchetWireMessage C)
    {g : P} (hg : c.publicKey g ∉ mine) (h : Ledger c rk cap boot mine path sent got s) :
    ∃ path', Ledger c rk cap boot (c.publicKey g :: mine) path' sent
        (used (ratchetDecryptKeyed c msg g s) ++ got)
        (after (ratchetDecryptKeyed c msg g s)) ∧
      ∀ p mk s', ratchetDecryptKeyed c msg g s = .ok (p, mk) s' →
        Received c rk cap msg.header.dh msg.header.n.toNat mk := by
  have hsub : mine ⊆ c.publicKey g :: mine := List.subset_cons_self _ _
  by_cases hr : Refused s msg
  · obtain ⟨e, he⟩ := decrypt_refused (c := c) (g := g) hr
    rw [he]
    exact ⟨path, h.mono hsub, fun p mk s' hok => by cases hok⟩
  · obtain ⟨hc, -⟩ := not_refused hr
    obtain ⟨hdh, -, -⟩ := checkHeader_ok hc
    cases hget : Odict.get? s.skippedMessageKeys.store
        (msg.header.dh, msg.header.n.toNat) with
    | some mk =>
        rw [decrypt_skipped hr hget]
        obtain ⟨hpop, l, j, -, hlab⟩ := h.recv.pop hget
        have h₁ := (h.mono hsub).recvOnly (fun hno => hno) hpop
        refine ⟨path, keyed_keeps h₁, fun p mk' s' hok => ?_⟩
        obtain ⟨-, rfl⟩ := keyed_ok hok
        exact ⟨l, j, hlab⟩
    | none =>
        have hsk : s.skippedMessageKeys.has msg.header.dh msg.header.n.toNat = false :=
          Odict.has_eq_false_iff.mpr hget
        rw [decrypt_chain hr hsk]
        obtain ⟨⟨path', hpath⟩, hready⟩ := ensureReceivingChain_keeps hk hdh hg h
        cases hen : ensureReceivingChain c msg.header.dh g s with
        | error e s₁ =>
            rw [hen] at hpath
            exact ⟨path', hpath, fun p mk s' hok => by cases hok⟩
        | ok u s₁ =>
            rw [hen] at hpath
            obtain ⟨hd, ck, hck⟩ := hready u s₁ hen
            exact ⟨path', decryptOnChain_keeps hk hdh hd hck hpath⟩

/-- The address of a key encrypted with under a header number: the number is
not past the position. -/
def Sent (a : KeyAlg K) (rk : K) (n : Int) (mk : K) : Prop :=
  ∃ l j, mk = msgKey a rk l j ∧ n ≤ (j : Nat)

/-- A sending chain is opened with the key the last receiving step left
behind, against the remote key of that step. -/
theorem Ledger.lazyStep (h : Ledger c rk cap boot mine path sent got s)
    (hs : s.sendingChainKey = none) {d : Bytes} (hd : s.dhr = some d) {p : P}
    (hp : s.dhsPrivate = some p) {k : K} (hk : c.sharedKey p d = some k) :
    StepOk c boot mine ⟨true, p, d, k, p⟩ path := by
  obtain ⟨q, hq, hmem⟩ := h.dh.own
  have hqp : q = p := Option.some.inj (hq.symm.trans hp)
  refine ⟨hk, hqp ▸ hmem, nofun, fun _ => ?_⟩
  rcases h.dh.idle hs with hb | ⟨st, t, hpath, hst, hgen, hrem⟩
  · exact Or.inl hb
  · have hpg : p = st.gen := Option.some.inj (hp.symm.trans hgen)
    refine Or.inr ⟨st, t, hpath, hst, ?_, hpg.symm⟩
    rcases hrem d hd with hd' | hno
    · exact hd'.symm
    · rw [← hpg, hk] at hno
      cases hno

/-- The lazy step, before anything is sent on the new chain. -/
theorem Ledger.openSending (hk : GoodKdf c.toKeyAlg rk)
    (h : Ledger c rk cap boot mine path sent got s)
    (hs : s.sendingChainKey = none) {d : Bytes} (hd : s.dhr = some d) {p : P}
    (hp : s.dhsPrivate = some p) {k : K} (hsh : c.sharedKey p d = some k) :
    Ledger c rk cap boot mine (⟨true, p, d, k, p⟩ :: path) sent got { s with
      rootKey := (kdfRoot c.toKeyAlg s.rootKey k).1
      sendingChainKey := some (kdfRoot c.toKeyAlg s.rootKey k).2
      Ns := 0 } := by
  have hst := h.lazyStep hs hd hp hsh
  have hopen := h.send.openChain hk ⟨true, p, d, k, p⟩ rfl
  have hheads := h.heads
  rw [hs] at hheads
  refine ⟨h.room, ?_, ?_, ?_, hheads.openChain _, h.recv.grow _⟩
  · show (kdfRoot c.toKeyAlg s.rootKey k).1 = _
    rw [h.root]
    rfl
  · exact ⟨steps_cons hst h.dh.steps, h.dh.own, fun hno => (nomatch hd.symm.trans hno),
      nofun, h.dh.deaf⟩
  · rw [h.root]
    exact hopen

/-- Stepping the sending chain once it is there. Until the message is sealed
the new key is in nobody's books; once it is, the header key goes with it. -/
theorem Ledger.stepSending (hk : GoodKdf c.toKeyAlg rk)
    (h : Ledger c rk cap boot mine path sent got s) {ck : K}
    (hck : s.sendingChainKey = some ck) {p : P} (hp : s.dhsPrivate = some p) :
    Sent c.toKeyAlg rk s.Ns (kdfChain c.toKeyAlg ck).2 ∧
    Ledger c rk cap boot mine path sent got
      { s with sendingChainKey := some (kdfChain c.toKeyAlg ck).1 } ∧
    Ledger c rk cap boot mine path
      ((c.publicKey p, (kdfChain c.toKeyAlg ck).2) :: sent) got
      { s with
        sendingChainKey := some (kdfChain c.toKeyAlg ck).1
        Ns := s.Ns + 1 } := by
  obtain ⟨q, hq, hmem⟩ := h.dh.own
  obtain rfl : q = p := Option.some.inj (hq.symm.trans hp)
  have hsend := h.send
  have hheads := h.heads
  rw [hck] at hsend hheads
  obtain ⟨l, k, -, hl, -⟩ := hsend.cur ck rfl
  obtain ⟨huse, l', j, -, hj, hN⟩ := hsend.use hk
  have hdh : DhSide c boot mine path s.dhsPrivate s.dhr
      (some (kdfChain c.toKeyAlg ck).1) s.receivingChainKey :=
    ⟨h.dh.steps, h.dh.own, h.dh.fresh, nofun, h.dh.deaf⟩
  refine ⟨⟨l', j, hj, Int.ofNat_le.mpr hN⟩, ?_, ?_⟩
  · exact ⟨h.room, h.root, hdh, (huse.lower (Nat.le_succ _)).drop, hheads.step, h.recv⟩
  · rw [hp] at hheads
    have hnew := hheads.use hk hmem hl
    rw [← hp] at hnew
    exact ⟨h.room, h.root, hdh, huse, hnew, h.recv⟩

/-- Stepping the sending chain, opening it first if there is none. -/
theorem nextSendingKey_keeps (hk : GoodKdf c.toKeyAlg rk)
    (h : Ledger c rk cap boot mine path sent got s) :
    (∃ e, nextSendingKey c s = .error e s) ∨
    ∃ mk s' path', nextSendingKey c s = .ok mk s' ∧
      Sent c.toKeyAlg rk s'.Ns mk ∧
      Ledger c rk cap boot mine path' sent got s' ∧
      ∀ p, s'.dhsPrivate = some p →
        Ledger c rk cap boot mine path' ((c.publicKey p, mk) :: sent) got
          { s' with Ns := s'.Ns + 1 } := by
  obtain ⟨p, hp, -⟩ := h.dh.own
  cases hs : s.sendingChainKey with
  | some ck =>
      obtain ⟨hsent, hled, hbooked⟩ := h.stepSending hk hs hp
      refine Or.inr ⟨_, _, path, nextSendingKey_open hs, hsent, hled, fun q hq => ?_⟩
      obtain rfl : p = q := Option.some.inj (hp.symm.trans hq)
      exact hbooked
  | none =>
      cases hd : s.dhr with
      | none => exact Or.inl (nextSendingKey_mute hs hd)
      | some d =>
          rw [nextSendingKey_lazy hs hd]
          cases hw : dhWith c s.dhsPrivate d with
          | error e => exact Or.inl ⟨e, rfl⟩
          | ok k =>
              obtain ⟨p', hp', hsh⟩ := dhWith_ok hw
              obtain rfl : p' = p := Option.some.inj (hp'.symm.trans hp)
              obtain ⟨hsent, hled, hbooked⟩ :=
                (h.openSending hk hs hd hp hsh).stepSending hk rfl hp
              refine Or.inr ⟨_, _, _, rfl, hsent, hled, fun q hq => ?_⟩
              obtain rfl : p' = q := Option.some.inj (hp.symm.trans hq)
              exact hbooked

/-- `ratchet_encrypt` keeps the books. A message it returns was sealed under
a key of a sending chain, under the header it carries. -/
theorem encrypt_keeps (hk : GoodKdf c.toKeyAlg rk) (pt : Bytes)
    (h : Ledger c rk cap boot mine path sent got s) :
    ∃ path', Ledger c rk cap boot mine path' (booked (ratchetEncryptKeyed c pt s) ++ sent)
        got (after (ratchetEncryptKeyed c pt s)) ∧
      ∀ w mk s', ratchetEncryptKeyed c pt s = .ok (w, mk) s' →
        Sent c.toKeyAlg rk w.header.n mk ∧
        (∃ p, w.header.dh = c.publicKey p) ∧ w.header.pn = s.PN ∧
        c.encrypt mk w.nonce pt (headerAad w.header) = some w.ciphertext := by
  rw [ratchetEncryptKeyed_eq]
  rcases nextSendingKey_keeps hk h with
    ⟨e, he⟩ | ⟨mk, s₁, path', he, hsent, hled, hbooked⟩
  · rw [he]
    exact ⟨path, h, fun w mk s' hok => by cases hok⟩
  · have hPN : s₁.PN = s.PN := nextSendingKey_PN he
    rw [he]
    rcases sealWith_cases (c := c) (s := s₁) mk pt with
      ⟨e, hseal⟩ | ⟨p, nonce, ct, hp, -, henc, hseal⟩
    · simp only [hseal]
      exact ⟨path', hled, fun w mk s' hok => by cases hok⟩
    · simp only [hseal]
      refine ⟨path', hbooked p hp, fun w mk' s' hok => ?_⟩
      injection hok with hw _
      injection hw with hw hmk
      subst hw hmk
      exact ⟨hsent, ⟨p, rfl⟩, by rw [← hPN]; rfl, henc⟩

/-! ## The first page -/

/-- `create_initial_state` without a remote key opens the books empty. -/
theorem ledger_init (hk : GoodKdf c.toKeyAlg rk) {boot : Bool} {cap : Nat} {g : P}
    {s : DoubleRatchetState K P}
    (h : createInitialState c rk boot none cap g = .ok s) :
    Ledger c rk cap boot [c.publicKey g] [] [] [] s := by
  rw [createInitialState, if_neg (by rw [hk.root_length]; simp)] at h
  injection h with h
  subst h
  cases boot with
  | true =>
      refine ⟨rfl, rfl, ⟨?_, ⟨g, rfl, List.mem_singleton_self _⟩, fun _ => rfl, nofun,
        fun _ => ⟨rfl, nofun⟩⟩, ⟨List.nodup_nil, nofun, ?_⟩,
        ⟨nofun, nofun, nofun, nofun⟩, ⟨List.nodup_nil, List.nodup_nil, nofun, nofun, nofun⟩⟩
      · intro st t hsuf
        simp at hsuf
      · intro k₀ hk₀
        injection hk₀ with hk₀
        exact ⟨[], 0, Or.inl ⟨rfl, rfl⟩, hk₀.symm, Nat.le_refl 0, nofun⟩
  | false =>
      refine ⟨rfl, rfl, ⟨?_, ⟨g, rfl, List.mem_singleton_self _⟩, fun _ => rfl,
        fun _ => Or.inl ⟨rfl, rfl⟩, nofun⟩, ⟨List.nodup_nil, nofun, nofun⟩,
        ⟨nofun, nofun, nofun, nofun⟩, ⟨List.nodup_nil, List.nodup_nil, nofun, nofun, ?_⟩⟩
      · intro st t hsuf
        simp at hsuf
      · intro k₀ hk₀
        injection hk₀ with hk₀
        exact ⟨[], 0, Or.inl ⟨rfl, rfl⟩, hk₀.symm, Or.inl rfl, nofun⟩

end GhostChat.Proofs
