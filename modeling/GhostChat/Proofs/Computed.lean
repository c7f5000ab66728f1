import GhostChat.Proofs.Uniqueness

/-!
# Every key is computed from keys the party holds

An engine holds a root key, at most two chain keys and the message keys it has
put aside. A call changes them in five ways only: a chain key is stepped, the
bootstrap chain is derived from the root, a DH output is folded into the root,
a message key goes into the store or comes out of it. `KeyRule` asks each of
them once of a property of keys. A property that passes holds of everything
the engine ever holds and of every key it ever encrypts or decrypts with,
whatever it is sent.

The property may tell root keys, chain keys and message keys apart, and it may
speak of the root key of the moment: `Q .chain r t` reads "while `r` is the
root key, the chain key `t` is in order". The root changes only by a DH output,
and `later` says what becomes of the other keys then.
-/

namespace GhostChat.Proofs

open GhostChat.Lib GhostChat.Lib.Effect GhostChat.Ref

/-- What a key is to the engine that holds it. -/
inductive KeyKind where
  | root
  | chain
  | message

variable {K P C : Type} {c : Crypto K P C} {Q : KeyKind → K → K → Prop}
  {s : DoubleRatchetState K P} {msg : RatchetWireMessage C} {g : P}

/-- The secrets of an engine: what whoever reads its memory holds, the DH
private key apart. -/
def heldKeys (s : DoubleRatchetState K P) : Set K :=
  { t | t = s.rootKey ∨ s.sendingChainKey = some t ∨ s.receivingChainKey = some t ∨
    ∃ e ∈ s.skippedMessageKeys.store, e.2 = t }

/-- `Q` survives everything the engine does with keys. -/
structure KeyRule (c : Crypto K P C) (Q : KeyKind → K → K → Prop) : Prop where
  chain : ∀ r ck, Q .chain r ck → Q .chain r (kdfChain c.toKeyAlg ck).1 ∧
    Q .message r (kdfChain c.toKeyAlg ck).2
  initial : ∀ r, Q .root r r → Q .chain r (kdfInitialChain c.toKeyAlg r)
  root : ∀ r p X shared, c.sharedKey p X = some shared → Q .root r r →
    Q .root (kdfRoot c.toKeyAlg r shared).1 (kdfRoot c.toKeyAlg r shared).1 ∧
      Q .chain (kdfRoot c.toKeyAlg r shared).1 (kdfRoot c.toKeyAlg r shared).2
  later : ∀ kind r p X shared t, c.sharedKey p X = some shared → Q .root r r → Q kind r t →
    Q kind (kdfRoot c.toKeyAlg r shared).1 t

/-- Every key of the engine is in order. -/
structure Holds (Q : KeyKind → K → K → Prop) (s : DoubleRatchetState K P) : Prop where
  root : Q .root s.rootKey s.rootKey
  sending : ∀ ck, s.sendingChainKey = some ck → Q .chain s.rootKey ck
  receiving : ∀ ck, s.receivingChainKey = some ck → Q .chain s.rootKey ck
  stored : ∀ e ∈ s.skippedMessageKeys.store, Q .message s.rootKey e.2

/-- The same of all kinds, said of the keys in memory. -/
theorem holds_iff_held {Q : K → K → Prop} :
    Holds (fun _ => Q) s ↔ ∀ t ∈ heldKeys s, Q s.rootKey t := by
  constructor
  · rintro h t (rfl | hs | hr | ⟨e, he, rfl⟩)
    · exact h.root
    · exact h.sending t hs
    · exact h.receiving t hr
    · exact h.stored e he
  · intro h
    exact {
      root := h _ (Or.inl rfl)
      sending := fun ck hck => h ck (Or.inr (Or.inl hck))
      receiving := fun ck hck => h ck (Or.inr (Or.inr (Or.inl hck)))
      stored := fun e he => h e.2 (Or.inr (Or.inr (Or.inr ⟨e, he, rfl⟩))) }

theorem Holds.imp {Q' : KeyKind → K → K → Prop} (h : Holds Q s)
    (hQ : ∀ kind t, Q kind s.rootKey t → Q' kind s.rootKey t) : Holds Q' s :=
  ⟨hQ _ _ h.root, fun ck hck => hQ _ _ (h.sending ck hck),
    fun ck hck => hQ _ _ (h.receiving ck hck), fun e he => hQ _ _ (h.stored e he)⟩

/-! ## Skipping -/

theorem Holds.withRecv {ck : Option K} {store : Odict (Bytes × Nat) K} (h : Holds Q s)
    (hck : ∀ k, ck = some k → Q .chain s.rootKey k)
    (hst : ∀ e ∈ store, Q .message s.rootKey e.2) (Nr : Nat) :
    Holds Q (withRecv s ck store Nr) :=
  ⟨h.root, h.sending, hck, hst⟩

/-- The loop touches the receiving chain, the store and the counter, and the
root key it leaves is the one it found. -/
theorem Holds.skipReceivingLoop (hQ : KeyRule c Q) (dh : Bytes) (upTo fuel : Nat)
    (h : Holds Q s) :
    Holds Q (after (Ref.skipReceivingLoop (P := P) c.toKeyAlg dh upTo fuel s)) := by
  induction fuel generalizing s with
  | zero => exact h
  | succ fuel ih =>
      by_cases hlt : s.Nr < upTo
      · cases hck : s.receivingChainKey with
        | none =>
            rw [Ref.skipReceivingLoop]
            simp only [bind_apply, get_apply, if_pos hlt, hck, throw_apply, after_error]
            exact h
        | some ck =>
            obtain ⟨hnext, hmk⟩ := hQ.chain _ ck (h.receiving ck hck)
            have hck' : ∀ k, some (kdfChain c.toKeyAlg ck).1 = some k →
                Q .chain s.rootKey k := by
              intro k hk
              injection hk with hk
              exact hk ▸ hnext
            rcases skipped_add_any (a := c.toKeyAlg) dh s.Nr (kdfChain c.toKeyAlg ck).2
              s.skippedMessageKeys with ⟨e, store, hadd, hsub⟩ | ⟨-, -, -, -, hadd⟩
            · rw [skipReceivingLoop_refused hlt hck hadd]
              exact h.withRecv hck' (fun e he => h.stored e (hsub.subset he)) s.Nr
            · rw [skipReceivingLoop_filed hlt hck hadd]
              refine ih (h.withRecv hck' (fun e he => ?_) _)
              rcases Odict.mem_set he with rfl | ⟨he, -⟩
              · exact hmk
              · exact h.stored e ((evictTo_sublist _ _).subset he)
      · rw [skipReceivingLoop_done (Nat.not_lt.mp hlt)]
        exact h

theorem Holds.skipReceivingUntil (hQ : KeyRule c Q) (upTo : Nat) (h : Holds Q s) :
    Holds Q (after (Ref.skipReceivingUntil (P := P) c.toKeyAlg upTo s)) := by
  cases hck : s.receivingChainKey with
  | none =>
      simp only [Ref.skipReceivingUntil, bind_apply, get_apply, hck, pure_apply, after_ok]
      exact h
  | some ck =>
      cases hd : s.dhr with
      | none =>
          simp only [Ref.skipReceivingUntil, bind_apply, get_apply, hck, hd, pure_apply, after_ok]
          exact h
      | some dh =>
          rw [skipReceivingUntil_some hck hd]
          exact h.skipReceivingLoop hQ dh upTo _

/-! ## Root steps -/

/-- A DH output is folded in. The chain keys that are kept and the store go on
under the new root, and the new chain key is in order for whichever chain it
is. -/
theorem Holds.rootStep (hQ : KeyRule c Q) (h : Holds Q s) {p : P} {X : Bytes} {shared : K}
    (hsh : c.sharedKey p X = some shared) {s' : DoubleRatchetState K P}
    (hroot : s'.rootKey = (kdfRoot c.toKeyAlg s.rootKey shared).1)
    (hsend : ∀ ck, s'.sendingChainKey = some ck →
      s.sendingChainKey = some ck ∨ ck = (kdfRoot c.toKeyAlg s.rootKey shared).2)
    (hrecv : ∀ ck, s'.receivingChainKey = some ck →
      s.receivingChainKey = some ck ∨ ck = (kdfRoot c.toKeyAlg s.rootKey shared).2)
    (hstore : s'.skippedMessageKeys.store = s.skippedMessageKeys.store) : Holds Q s' := by
  obtain ⟨hr, hhead⟩ := hQ.root _ p X shared hsh h.root
  have hlater : ∀ kind t, Q kind s.rootKey t → Q kind (kdfRoot c.toKeyAlg s.rootKey shared).1 t :=
    fun kind t => hQ.later kind _ p X shared t hsh h.root
  refine ⟨?_, ?_, ?_, ?_⟩
  · rw [hroot]
    exact hr
  · intro ck hck
    rw [hroot]
    rcases hsend ck hck with hold | rfl
    · exact hlater _ ck (h.sending ck hold)
    · exact hhead
  · intro ck hck
    rw [hroot]
    rcases hrecv ck hck with hold | rfl
    · exact hlater _ ck (h.receiving ck hold)
    · exact hhead
  · intro e he
    rw [hroot]
    rw [hstore] at he
    exact hlater _ e.2 (h.stored e he)

theorem Holds.dhRatchetReceive (hQ : KeyRule c Q) (dh : Bytes) (g : P) (h : Holds Q s) :
    Holds Q (after (Ref.dhRatchetReceive c dh g s)) := by
  cases hw : dhWith c s.dhsPrivate dh with
  | error e =>
      rw [dhRatchetReceive_failed hw]
      exact ⟨h.root, h.sending, h.receiving, h.stored⟩
  | ok shared =>
      obtain ⟨p, -, hsh⟩ := dhWith_ok hw
      rw [dhRatchetReceive_done hw]
      refine h.rootStep hQ hsh rfl (fun ck hck => by cases hck) (fun ck hck => ?_) rfl
      injection hck with hck
      exact Or.inr hck.symm

theorem Holds.ensureReceivingChain (hQ : KeyRule c Q) (dh : Bytes) (g : P) (h : Holds Q s) :
    Holds Q (after (Ref.ensureReceivingChain c dh g s)) := by
  by_cases ht : (s.dhr = none ∧ s.sendingChainKey.isSome) ∨ ∃ d, s.dhr = some d ∧ d ≠ dh
  · rw [ensureReceivingChain_turn ht]
    exact h.dhRatchetReceive hQ dh g
  · rcases still_of_not_turn ht with ⟨hd, hs⟩ | hd
    · cases hck : s.receivingChainKey with
      | some ck =>
          rw [ensureReceivingChain_boot hd hck hs]
          exact ⟨h.root, h.sending, h.receiving, h.stored⟩
      | none =>
          rw [ensureReceivingChain_first hd hck hs]
          refine ⟨h.root, h.sending, fun ck hk => ?_, h.stored⟩
          injection hk with hk
          exact hk ▸ hQ.initial _ h.root
    · cases hck : s.receivingChainKey with
      | some ck =>
          rw [ensureReceivingChain_same hd hck]
          exact h
      | none =>
          rw [ensureReceivingChain_late hd hck]
          cases hw : dhWith c s.dhsPrivate dh with
          | error e => exact h
          | ok shared =>
              obtain ⟨p, -, hsh⟩ := dhWith_ok hw
              refine h.rootStep hQ hsh rfl (fun ck hk => Or.inl hk) (fun ck hk => ?_) rfl
              injection hk with hk
              exact Or.inr hk.symm

/-! ## The public methods -/

/-- What a call leaves behind is in order, and so is the key it returned
with. -/
def Computes {α : Type} (Q : KeyKind → K → K → Prop) :
    EStateM.Result Exn (DoubleRatchetState K P) (α × K) → Prop
  | .ok r s => Holds Q s ∧ Q .message s.rootKey r.2
  | .error _ s => Holds Q s

theorem Computes.after {α : Type} {r : EStateM.Result Exn (DoubleRatchetState K P) (α × K)}
    (h : Computes Q r) : Holds Q (Effect.after r) := by
  cases r with
  | ok p s => exact h.1
  | error e s => exact h

/-- Trying a key in hand. -/
theorem computes_keyed (h : Holds Q s) {mk : K} (hmk : Q .message s.rootKey mk) (failed : String) :
    Computes Q (keyed mk (openWith c mk msg failed s)) := by
  obtain ⟨r, hr⟩ := openWith_after (c := c) (s := s) mk msg failed
  cases ho : openWith c mk msg failed s with
  | ok p s' =>
      rw [ho] at hr
      rw [show s' = _ from hr]
      exact ⟨⟨h.root, h.sending, h.receiving, h.stored⟩, hmk⟩
  | error e s' =>
      rw [ho] at hr
      rw [show s' = _ from hr]
      exact ⟨h.root, h.sending, h.receiving, h.stored⟩

theorem Holds.decryptOnChain (hQ : KeyRule c Q) (h : Holds Q s) :
    Computes Q (Ref.decryptOnChain c msg s) := by
  by_cases hlt : msg.header.n.toNat < s.Nr
  · simp only [Ref.decryptOnChain, bind_apply, get_apply, if_pos hlt, throw_apply]
    exact h
  · by_cases hfar : msg.header.n.toNat ≤ s.Nr + maxSkipDistance
    · rw [decryptOnChain_near (by omega) hfar]
      have hskip := h.skipReceivingUntil hQ msg.header.n.toNat
      cases hr : Ref.skipReceivingUntil (P := P) c.toKeyAlg msg.header.n.toNat s with
      | error e s₁ =>
          rw [hr] at hskip
          exact hskip
      | ok u s₁ =>
          rw [hr, after_ok] at hskip
          cases hck : s₁.receivingChainKey with
          | none =>
              simp only [hck]
              exact hskip
          | some ck =>
              simp only [hck]
              obtain ⟨hnext, hmk⟩ := hQ.chain _ ck (hskip.receiving ck hck)
              have htaken : Holds Q (Proofs.withRecv s₁ (some (kdfChain c.toKeyAlg ck).1)
                  s₁.skippedMessageKeys.store (s₁.Nr + 1)) := by
                refine hskip.withRecv (fun k hk => ?_) hskip.stored _
                injection hk with hk
                exact hk ▸ hnext
              exact computes_keyed htaken hmk _
    · have hfar : msg.header.n.toNat - s.Nr > maxSkipDistance := by omega
      cases hck : s.receivingChainKey with
      | some ck =>
          have hraise : ∃ e, Ref.decryptOnChain c msg s = .error e s :=
            decryptOnChain_far hck (by omega)
          obtain ⟨e, he⟩ := hraise
          rw [he]
          exact h
      | none =>
          have hnone : ∃ e, Ref.decryptOnChain c msg s = .error e s :=
            ⟨_, by
              simp [Ref.decryptOnChain, hlt, hck, Ref.skipReceivingUntil, nextReceivingKey]
              rfl⟩
          obtain ⟨e, he⟩ := hnone
          rw [he]
          exact h

/-- `ratchet_decrypt` on any message. -/
theorem Holds.decrypt (hQ : KeyRule c Q) (msg : RatchetWireMessage C) (g : P) (h : Holds Q s) :
    Computes Q (ratchetDecryptKeyed c msg g s) := by
  by_cases hr : Refused s msg
  · obtain ⟨e, he⟩ := decrypt_refused (c := c) (g := g) hr
    rw [he]
    exact h
  · cases hget : Odict.get? s.skippedMessageKeys.store
        (msg.header.dh, msg.header.n.toNat) with
    | some mk =>
        rw [decrypt_skipped hr hget]
        have hmk : Q .message s.rootKey mk := h.stored _ (Odict.mem_of_get? hget)
        have hpopped : Holds Q (Proofs.withRecv s s.receivingChainKey
            (Odict.erase s.skippedMessageKeys.store (msg.header.dh, msg.header.n.toNat)) s.Nr) :=
          h.withRecv h.receiving (fun e he => h.stored e (List.mem_of_mem_filter he)) _
        exact computes_keyed hpopped hmk _
    | none =>
        rw [decrypt_chain hr (Odict.has_eq_false_iff.mpr hget)]
        have hen := h.ensureReceivingChain hQ msg.header.dh g
        cases hre : Ref.ensureReceivingChain c msg.header.dh g s with
        | error e s₁ =>
            rw [hre] at hen
            exact hen
        | ok u s₁ =>
            rw [hre] at hen
            exact Holds.decryptOnChain hQ hen

theorem Holds.nextSendingKey (hQ : KeyRule c Q) (h : Holds Q s) :
    (∃ e, Ref.nextSendingKey c s = .error e s) ∨
    ∃ mk s', Ref.nextSendingKey c s = .ok mk s' ∧ Holds Q s' ∧ Q .message s'.rootKey mk := by
  -- Stepping an open chain, whichever state it was opened in.
  have hopen : ∀ (s₁ : DoubleRatchetState K P) (ck : K), Holds Q s₁ → s₁.sendingChainKey = some ck →
      Holds Q { s₁ with sendingChainKey := some (kdfChain c.toKeyAlg ck).1 } ∧
        Q .message s₁.rootKey (kdfChain c.toKeyAlg ck).2 := by
    intro s₁ ck h₁ hck
    obtain ⟨hnext, hmk⟩ := hQ.chain _ ck (h₁.sending ck hck)
    refine ⟨⟨h₁.root, fun k hk => ?_, h₁.receiving, h₁.stored⟩, hmk⟩
    injection hk with hk
    exact hk ▸ hnext
  cases hs : s.sendingChainKey with
  | some ck =>
      obtain ⟨hheld, hmk⟩ := hopen s ck h hs
      exact Or.inr ⟨_, _, nextSendingKey_open hs, hheld, hmk⟩
  | none =>
      cases hd : s.dhr with
      | none => exact Or.inl (nextSendingKey_mute hs hd)
      | some d =>
          rw [nextSendingKey_lazy hs hd]
          cases hw : dhWith c s.dhsPrivate d with
          | error e => exact Or.inl ⟨e, rfl⟩
          | ok shared =>
              obtain ⟨p, -, hsh⟩ := dhWith_ok hw
              have hstep : Holds Q { s with
                  rootKey := (kdfRoot c.toKeyAlg s.rootKey shared).1
                  sendingChainKey := some (kdfRoot c.toKeyAlg s.rootKey shared).2
                  Ns := 0 } := by
                refine h.rootStep hQ hsh rfl (fun ck hck => ?_) (fun ck hck => Or.inl hck) rfl
                injection hck with hck
                exact Or.inr hck.symm
              obtain ⟨hheld, hmk⟩ := hopen _ _ hstep rfl
              exact Or.inr ⟨_, _, rfl, hheld, hmk⟩

/-- `ratchet_encrypt`. -/
theorem Holds.encrypt (hQ : KeyRule c Q) (pt : Bytes) (h : Holds Q s) :
    Computes Q (ratchetEncryptKeyed c pt s) := by
  rw [ratchetEncryptKeyed_eq]
  rcases h.nextSendingKey hQ with ⟨e, he⟩ | ⟨mk, s₁, he, hheld, hmk⟩
  · rw [he]
    exact h
  · simp only [he]
    rcases sealWith_cases (c := c) (s := s₁) mk pt with ⟨e, hseal⟩ | ⟨p, nonce, ct, -, -, -, hseal⟩
    · simp only [hseal]
      exact hheld
    · simp only [hseal]
      exact ⟨⟨hheld.root, hheld.sending, hheld.receiving, hheld.stored⟩, hmk⟩

/-! ## Runs -/

/-- The AEAD key of a call of `who` that returned. -/
def keyUsedBy (who : Party) : Event K C → Option K
  | .sent x _ _ k => if x = who then some k else none
  | .accepted x _ _ k => if x = who then some k else none

/-- The same property, with a record that nothing that was in order when `r₀`
was the root key has gone out of order since. -/
theorem KeyRule.since (hQ : KeyRule c Q) (r₀ : K) :
    KeyRule c fun kind r t => Q kind r t ∧ ∀ kind u, Q kind r₀ u → Q kind r u where
  chain := by
    intro r ck h
    obtain ⟨hnext, hmk⟩ := hQ.chain r ck h.1
    exact ⟨⟨hnext, h.2⟩, hmk, h.2⟩
  initial := fun r h => ⟨hQ.initial r h.1, h.2⟩
  root := by
    intro r p X shared hsh h
    obtain ⟨hroot, hhead⟩ := hQ.root r p X shared hsh h.1
    have hlater := fun kind u hu => hQ.later kind r p X shared u hsh h.1 (h.2 kind u hu)
    exact ⟨⟨hroot, hlater⟩, hhead, hlater⟩
  later := by
    intro kind r p X shared t hsh h ht
    exact ⟨hQ.later kind r p X shared t hsh h.1 ht.1,
      fun kind u hu => hQ.later kind r p X shared u hsh h.1 (h.2 kind u hu)⟩

/-- From the log `past` on, every key `who` held and every key it used is in
order. -/
structure Tracks (Q : KeyKind → K → K → Prop) (who : Party) (past : List (Event K C))
    (σ : Pair K P C) : Prop where
  holds : Holds Q (σ.engine who)
  used : ∃ new, σ.log = new ++ past ∧
    ∀ e ∈ new, ∀ k, keyUsedBy who e = some k → Q .message (σ.engine who).rootKey k

variable {who : Party} {past : List (Event K C)} {σ σ' : Pair K P C}

/-- One call of `who`, whichever way it ends. It leaves an entry in the log
only if it returned. -/
theorem Tracks.call (hQ : KeyRule c Q) (h : Tracks Q who past σ) {α : Type}
    {r : EStateM.Result Exn (DoubleRatchetState K P) (α × K)}
    (hr : ∀ Q', KeyRule c Q' → Holds Q' (σ.engine who) → Computes Q' r)
    (heng : σ'.engine who = after r)
    (hlog : σ'.log = σ.log ∨
      ∃ e p s, r = .ok p s ∧ keyUsedBy who e = some p.2 ∧ σ'.log = e :: σ.log) :
    Tracks Q who past σ' := by
  have hcomp := hr _ (hQ.since (σ.engine who).rootKey)
    (h.holds.imp fun _ _ hq => ⟨hq, fun _ _ hu => hu⟩)
  have hend := hcomp.after
  rw [← heng] at hend
  obtain ⟨new, hnew, hused⟩ := h.used
  have hstill : ∀ e ∈ new, ∀ k, keyUsedBy who e = some k →
      Q .message (σ'.engine who).rootKey k :=
    fun e he k hk => hend.root.2 _ k (hused e he k hk)
  refine ⟨hend.imp fun _ _ hq => hq.1, ?_⟩
  rcases hlog with hlog | ⟨e, p, s, rfl, hkey, hlog⟩
  · exact ⟨new, hlog.trans hnew, hstill⟩
  · refine ⟨e :: new, by rw [hlog, hnew, List.cons_append], ?_⟩
    intro e' he' k hk
    rcases List.mem_cons.mp he' with rfl | he'
    · rw [hkey] at hk
      injection hk with hk
      rw [heng, after_ok, ← hk]
      exact hcomp.2.1
    · exact hstill e' he' k hk

/-- A call of the other party touches neither the engine nor the record. -/
theorem Tracks.other (h : Tracks Q who past σ) (heng : σ'.engine who = σ.engine who)
    (hlog : σ'.log = σ.log ∨ ∃ e, keyUsedBy who e = none ∧ σ'.log = e :: σ.log) :
    Tracks Q who past σ' := by
  obtain ⟨new, hnew, hused⟩ := h.used
  refine ⟨heng ▸ h.holds, ?_⟩
  rw [heng]
  rcases hlog with hlog | ⟨e, hkey, hlog⟩
  · exact ⟨new, hlog.trans hnew, hused⟩
  · refine ⟨e :: new, by rw [hlog, hnew, List.cons_append], ?_⟩
    intro e' he' k hk
    rcases List.mem_cons.mp he' with rfl | he'
    · rw [hkey] at hk
      cases hk
    · exact hused e' he' k hk

theorem Tracks.step (hQ : KeyRule c Q) (h : Tracks Q who past σ) (act : Act P C) :
    Tracks Q who past (σ.step c act) := by
  cases act with
  | encrypt x pt =>
      by_cases hx : x = who
      · subst hx
        refine h.call (r := ratchetEncryptKeyed c pt (σ.engine x)) hQ
          (fun Q' hQ' hs => hs.encrypt hQ' pt) ?_ ?_
        · simp only [Pair.step]
          split <;> next heq => rw [heq]; exact Function.update_self ..
        · simp only [Pair.step]
          split
          · next w k s heq =>
              exact Or.inr ⟨.sent x pt w k, (w, k), s, heq, if_pos rfl, rfl⟩
          · exact Or.inl rfl
      · refine h.other ?_ ?_
        · simp only [Pair.step]
          split <;> exact Function.update_of_ne (Ne.symm hx) ..
        · simp only [Pair.step]
          split
          · next w k s heq => exact Or.inr ⟨.sent x pt w k, if_neg hx, rfl⟩
          · exact Or.inl rfl
  | decrypt x msg g =>
      by_cases hx : x = who
      · subst hx
        refine h.call (r := ratchetDecryptKeyed c msg g (σ.engine x)) hQ
          (fun Q' hQ' hs => hs.decrypt hQ' msg g) ?_ ?_
        · simp only [Pair.step]
          split <;> next heq => rw [heq]; exact Function.update_self ..
        · simp only [Pair.step]
          split
          · next pt k s heq =>
              exact Or.inr ⟨.accepted x msg pt k, (pt, k), s, heq, if_pos rfl, rfl⟩
          · exact Or.inl rfl
      · refine h.other ?_ ?_
        · simp only [Pair.step]
          split <;> exact Function.update_of_ne (Ne.symm hx) ..
        · simp only [Pair.step]
          split
          · next pt k s heq => exact Or.inr ⟨.accepted x msg pt k, if_neg hx, rfl⟩
          · exact Or.inl rfl

/-- Over any run, under any messages. -/
theorem Tracks.run (hQ : KeyRule c Q) (h : Holds Q (σ.engine who)) (acts : List (Act P C)) :
    Tracks Q who σ.log (σ.run c acts) := by
  have hstart : Tracks Q who σ.log σ := ⟨h, [], rfl, fun e he => by cases he⟩
  exact runFrom_invariant (I := Tracks Q who σ.log)
    (fun _ act ht => Tracks.step hQ ht act) hstart acts

end GhostChat.Proofs
