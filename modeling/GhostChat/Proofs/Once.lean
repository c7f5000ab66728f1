import GhostChat.Proofs.Headers

/-!
# At most once, without the replay cache

The replay cache of a session goes by fields that nothing authenticates: with
another session id, a number the chain has passed or another ratchet key, an
old ciphertext gets past it. What stops it is that the ratchet has no key for
it any more. A session takes every receiving key off a chain or out of the
store of skipped keys, exactly once, and no later chain gives it again,
because each chain is opened by a root step and a root key comes back on no
path.

None of this asks who wrote the headers. A ratchet key the DH refuses leaves
the old chain in place under a new name and with its counter at zero, and its
keys are still keys that were never taken; a key that is derived and then not
filed, because the store is full, is lost and not doubled. So the books here
say nothing of labels and numbers: a list of keys taken, `got`, that is
disjoint from the store, and a position on the current chain that all of them
are before.
-/

namespace GhostChat.Proofs

open GhostChat.Lib GhostChat.Lib.Effect GhostChat.Ref

variable {K P C : Type} {c : Crypto K P C} {a : KeyAlg K} {rk : K} {κ : Type}

/-! ## The books -/

/-- `k` is a key of a chain opened no later than `path`. -/
def OnPath (a : KeyAlg K) (rk : K) (path : List K) (k : K) : Prop :=
  ∃ name i, name.length ≤ path.length ∧ k = msgKey a rk name i

/-- No key is held twice, by the hand or by the store, and all of them are
before the place where the chain stands. -/
structure OneUse (a : KeyAlg K) (rk : K) (path got : List K) (store : Odict κ K)
    (ck : Option K) : Prop where
  keys : (Odict.keys store).Nodup
  nodup : (got ++ store.map (·.2)).Nodup
  known : ∀ k ∈ got ++ store.map (·.2), OnPath a rk path k
  chain : ∀ k₀, ck = some k₀ → ∃ name i, name.length ≤ path.length ∧
    k₀ = chainKey a rk name i ∧
    ∀ j, msgKey a rk name j ∈ got ++ store.map (·.2) → j < i

namespace OneUse

variable {path got : List K} {store : Odict κ K} {ck : Option K} {k k₀ : K} {key : κ}

/-- Holding fewer keys. -/
theorem sub {got' : List K} {store' : Odict κ K} (h : OneUse a rk path got store ck)
    (hkeys : (Odict.keys store').Nodup)
    (hsub : (got' ++ store'.map (·.2)).Subperm (got ++ store.map (·.2))) :
    OneUse a rk path got' store' ck where
  keys := hkeys
  nodup := Odict.nodup_of_subperm hsub h.nodup
  known := fun k hk => h.known k (hsub.subset hk)
  chain := fun k₀ hk₀ => by
    obtain ⟨name, i, hname, hk, hlt⟩ := h.chain k₀ hk₀
    exact ⟨name, i, hname, hk, fun j hj => hlt j (hsub.subset hj)⟩

theorem drop (h : OneUse a rk path (k :: got) store ck) : OneUse a rk path got store ck :=
  h.sub h.keys (List.sublist_cons_self k _).subperm

/-- A root step that opens no chain to receive on. -/
theorem grow (d : K) (h : OneUse a rk path got store ck) :
    OneUse a rk (d :: path) got store ck where
  keys := h.keys
  nodup := h.nodup
  known := fun k hk => by
    obtain ⟨name, i, hname, hk⟩ := h.known k hk
    exact ⟨name, i, Nat.le_succ_of_le hname, hk⟩
  chain := fun k₀ hk₀ => by
    obtain ⟨name, i, hname, hrest⟩ := h.chain k₀ hk₀
    exact ⟨name, i, Nat.le_succ_of_le hname, hrest⟩

/-- A root step that opens one: its name is longer than any before. -/
theorem openChain (hk : GoodKdf a rk) (d : K) (h : OneUse a rk path got store ck) :
    OneUse a rk (d :: path) got store (some (chainHead a rk (d :: path))) where
  keys := h.keys
  nodup := h.nodup
  known := (h.grow d).known
  chain := fun k₀ hk₀ => by
    cases hk₀
    refine ⟨d :: path, 0, Nat.le_refl _, rfl, fun j hj => ?_⟩
    obtain ⟨name, i, hname, he⟩ := h.known _ hj
    have hlength := congrArg List.length (hk.msgKey_inj he).1
    simp only [List.length_cons] at hlength
    omega

/-- One step of the chain, the key still in hand. -/
theorem take (hk : GoodKdf a rk) (h : OneUse a rk path got store (some k₀)) :
    OneUse a rk path ((kdfChain a k₀).2 :: got) store (some (kdfChain a k₀).1) := by
  obtain ⟨name, i, hname, rfl, hlt⟩ := h.chain k₀ rfl
  have hnew : msgKey a rk name i ∉ got ++ store.map (·.2) :=
    fun hm => absurd (hlt i hm) (Nat.lt_irrefl i)
  refine ⟨h.keys, List.nodup_cons.mpr ⟨hnew, h.nodup⟩, fun k hk' => ?_, fun k₁ hk₁ => ?_⟩
  · rcases List.mem_cons.mp hk' with rfl | hk'
    · exact ⟨name, i, hname, rfl⟩
    · exact h.known k hk'
  · cases hk₁
    refine ⟨name, i + 1, hname, (chainKey_succ _ _).symm, fun j hj => ?_⟩
    rcases List.mem_cons.mp hj with he | hj
    · have := (hk.msgKey_inj he).2
      omega
    · have := hlt j hj
      omega

/-- Filing the key in hand, over an older entry if there is one. -/
theorem file [DecidableEq κ] (h : OneUse a rk path (k :: got) store ck) (key : κ) :
    OneUse a rk path got (Odict.set store key k) ck where
  keys := Odict.set_keys_nodup h.keys _ _
  nodup := Odict.set_held_nodup h.keys h.nodup _
  known := fun k' hk' => h.known k' (Odict.set_held_subset got store key k hk')
  chain := fun k₀ hk₀ => by
    obtain ⟨name, i, hname, hk, hlt⟩ := h.chain k₀ hk₀
    exact ⟨name, i, hname, hk, fun j hj => hlt j (Odict.set_held_subset got store key k hj)⟩

theorem pop [DecidableEq κ] (h : OneUse a rk path got store ck) (hget : Odict.get? store key = some k) :
    OneUse a rk path (k :: got) (Odict.erase store key) ck :=
  h.sub (h.keys.sublist (List.filter_sublist.map _))
    (Odict.erase_held_subperm got (Odict.mem_of_get? hget))

end OneUse

/-! ## The ratchet -/

/-- The ratchet has taken the keys `got`, and can take none of them again. -/
def KeysOnce (a : KeyAlg K) (rk : K) (got : List K) (s : RatchetState K P) : Prop :=
  ∃ path, s.rootKey = rootAfter a rk path ∧ OneUse a rk path got s.skippedKeys.store s.ckR

namespace KeysOnce

variable {got : List K} {s : RatchetState K P} {k₀ : K} {em : EncryptedMessage C} {g : P}
  {ad : Bytes}

theorem drop {k : K} (h : KeysOnce a rk (k :: got) s) : KeysOnce a rk got s := by
  obtain ⟨path, hroot, h⟩ := h
  exact ⟨path, hroot, h.drop⟩

/-- The loop files every key it derives, or stops with one derived and not
filed. -/
theorem skipLoop (hk : GoodKdf a rk) {X : Bytes} (upTo : Int) (fuel : Nat)
    (h : KeysOnce a rk got s) (hX : s.dhr = some X) (hck : s.ckR = some k₀) :
    KeysOnce a rk got (after (DoubleRatchet.skipLoop a upTo fuel s)) ∧
      ∃ k₁, (after (DoubleRatchet.skipLoop a upTo fuel s)).ckR = some k₁ := by
  induction fuel generalizing s k₀ with
  | zero => exact ⟨h, k₀, hck⟩
  | succ fuel ih =>
      by_cases hlt : (s.Nr : Int) < upTo
      · rw [Ratchet.skipLoop_round hlt hck hX]
        obtain ⟨path, hroot, honce⟩ := h
        rw [hck] at honce
        have htaken := honce.take hk
        by_cases hfull : s.skippedKeys.store.length ≥ s.skippedKeys.maxKeys
        · rw [if_pos hfull]
          exact ⟨⟨path, hroot, htaken.drop⟩, _, rfl⟩
        · rw [if_neg hfull]
          exact ih ⟨path, hroot, htaken.file _⟩ hX rfl
      · rw [Ratchet.skipLoop_stop hlt]
        exact ⟨h, k₀, hck⟩

/-- The chain to receive on, there, opened, or refused. -/
theorem ensureReceivingChain (hk : GoodKdf c.toKeyAlg rk) (dh : Bytes) (g : P)
    (h : KeysOnce c.toKeyAlg rk got s) :
    KeysOnce c.toKeyAlg rk got (after (DoubleRatchet.ensureReceivingChain c dh g s)) ∧
      ∀ u st, DoubleRatchet.ensureReceivingChain c dh g s = .ok u st →
        st.dhr = some dh ∧ ∃ k₀, st.ckR = some k₀ := by
  obtain ⟨path, hroot, honce⟩ := h
  by_cases hdhr : s.dhr = some dh
  · cases hck : s.ckR with
    | some k₀ =>
        rw [Ratchet.ensureReceivingChain_same hck hdhr]
        refine ⟨⟨path, hroot, honce⟩, fun u st hok => ?_⟩
        cases hok
        exact ⟨hdhr, k₀, hck⟩
    | none =>
        cases hd : dhWith c (some s.dhs) dh with
        | error e =>
            rw [Ratchet.ensureReceivingChain_lateRefused hck hdhr hd]
            exact ⟨⟨path, hroot, honce⟩, fun u st hok => by cases hok⟩
        | ok d =>
            rw [Ratchet.ensureReceivingChain_late hck hdhr hd, hroot]
            refine ⟨⟨d :: path, rfl, honce.openChain hk d⟩, fun u st hok => ?_⟩
            cases hok
            exact ⟨hdhr, _, rfl⟩
  · cases hd : dhWith c (some s.dhs) dh with
    | error e =>
        rw [Ratchet.ensureReceivingChain_turnRefused hdhr hd]
        exact ⟨⟨path, hroot, honce⟩, fun u st hok => by cases hok⟩
    | ok d =>
        rw [Ratchet.ensureReceivingChain_turn hdhr hd, hroot]
        refine ⟨⟨d :: path, rfl, honce.openChain hk d⟩, fun u st hok => ?_⟩
        cases hok
        exact ⟨rfl, _, rfl⟩

/-- What a call that tries a key may leave: the key is among those taken if
the message opened, and forgotten if it did not. -/
def Tried (c : Crypto K P C) (rk : K) (got : List K) (ct : C) (ad : Bytes)
    (r : EStateM.Result Exn (RatchetState K P) (Bytes × K)) : Prop :=
  KeysOnce c.toKeyAlg rk got (after r) ∧
    ∀ p k st, r = .ok (p, k) st → KeysOnce c.toKeyAlg rk (k :: got) st ∧
      ∃ nonce, c.decrypt k nonce ct ad = some p

theorem raised (h : KeysOnce c.toKeyAlg rk got s) (e : Exn) :
    Tried c rk got em.ciphertext ad (.error e s) :=
  ⟨h, fun _ _ _ hok => by cases hok⟩

/-- A key in hand. -/
theorem opened {k : K} (h : KeysOnce c.toKeyAlg rk (k :: got) s) :
    Tried c rk got em.ciphertext ad
      ((lift (DoubleRatchet.openWith c k em ad) >>= fun p => pure (p, k)) s) := by
  cases hopen : DoubleRatchet.openWith c k em ad with
  | error e => exact h.drop.raised e
  | ok p =>
      refine ⟨h.drop, fun p' k' st hok => ?_⟩
      cases hok
      obtain ⟨nonce, -, hdec⟩ := Ratchet.openWith_sealed hopen
      exact ⟨h, nonce, hdec⟩

theorem onChain (hk : GoodKdf c.toKeyAlg rk) (h : KeysOnce c.toKeyAlg rk got s) {X : Bytes}
    (hX : s.dhr = some X) (hck : s.ckR = some k₀) :
    Tried c rk got em.ciphertext ad (DoubleRatchet.decryptOnChain c em ad s) := by
  simp only [DoubleRatchet.decryptOnChain, bind_apply, get_apply, ite_run, throw_apply,
    pure_apply]
  by_cases hold : em.header.n < s.Nr
  · simp only [if_pos hold]
    exact h.raised _
  · simp only [if_neg hold, Ratchet.skipMessageKeys_eq hck]
    obtain ⟨hkept, k₁, hk₁⟩ := h.skipLoop hk em.header.n (em.header.n - s.Nr).toNat hX hck
    cases hrun : DoubleRatchet.skipLoop c.toKeyAlg em.header.n (em.header.n - s.Nr).toNat s with
    | error e st =>
        rw [hrun] at hkept
        exact raised hkept e
    | ok u st =>
        rw [hrun] at hkept hk₁
        obtain ⟨path, hroot, honce⟩ := hkept
        rw [after_ok] at hk₁ honce
        rw [hk₁] at honce
        simp only [DoubleRatchet.nextReceivingKey, bind_apply, get_apply, hk₁, modify_apply,
          pure_apply]
        exact opened ⟨path, hroot, honce.take hk⟩

/-- `decrypt`, of whatever message. -/
theorem decrypt (hk : GoodKdf c.toKeyAlg rk) (h : KeysOnce c.toKeyAlg rk got s) :
    Tried c rk got em.ciphertext ad (DoubleRatchet.decryptKeyed c em ad g s) := by
  cases hhas : s.skippedKeys.has em.header.dhPub em.header.n with
  | true =>
      obtain ⟨k, hget⟩ : ∃ k, Odict.get? s.skippedKeys.store (em.header.dhPub, em.header.n)
          = some k := Odict.has_eq_true_iff.mp hhas
      simp only [DoubleRatchet.decryptKeyed, bind_apply, get_apply, ite_run, hhas, if_true,
        DoubleRatchet.onStore, zoom, SkippedKeyStore.pop, hget, modify_apply, pure_apply]
      obtain ⟨path, hroot, honce⟩ := h
      exact opened ⟨path, hroot, honce.pop hget⟩
  | false =>
      rw [Ratchet.decryptKeyed_chain hhas, bind_apply]
      obtain ⟨hkept, hready⟩ := h.ensureReceivingChain hk em.header.dhPub g
      cases hen : DoubleRatchet.ensureReceivingChain c em.header.dhPub g s with
      | error e st =>
          rw [hen] at hkept
          exact raised hkept e
      | ok u st =>
          rw [hen] at hkept
          obtain ⟨hX, k₀, hck⟩ := hready u st hen
          exact onChain hk hkept hX hck

/-- `encrypt` takes no receiving key. -/
theorem encrypt (pt : Bytes) (h : KeysOnce c.toKeyAlg rk got s) :
    KeysOnce c.toKeyAlg rk got (after (DoubleRatchet.encryptKeyed c pt ad s)) := by
  have hnext : KeysOnce c.toKeyAlg rk got (after (DoubleRatchet.nextSendingKey c s)) := by
    obtain ⟨path, hroot, honce⟩ := h
    cases hck : s.ckS with
    | some ck =>
        rw [Ratchet.nextSendingKey_open hck]
        exact ⟨path, hroot, honce⟩
    | none =>
        cases hX : s.dhr with
        | none =>
            rw [Ratchet.nextSendingKey_mute hck hX]
            exact ⟨path, hroot, honce⟩
        | some X =>
            cases hd : dhWith c (some s.dhs) X with
            | error e =>
                rw [Ratchet.nextSendingKey_refused hck hX hd]
                exact ⟨path, hroot, honce⟩
            | ok d =>
                rw [Ratchet.nextSendingKey_lazy hck hX hd, hroot]
                exact ⟨d :: path, rfl, honce.grow d⟩
  rw [DoubleRatchet.encryptKeyed, bind_apply]
  cases hrun : DoubleRatchet.nextSendingKey c s with
  | error e st => rwa [hrun] at hnext
  | ok mk st =>
      rw [hrun] at hnext
      simp only [bind_apply]
      rcases Ratchet.sealWith_cases (c := c) (s := st) mk pt ad with
        ⟨e, he⟩ | ⟨nonce, ct, -, -, he⟩
      · rw [he]
        exact hnext
      · rw [he]
        exact hnext

end KeysOnce

/-! ## Two managers -/

/-- The AEAD is ideal on what it sealed: a ciphertext `encrypt` made opens
under no key but the one it was made with. -/
def AeadBinds (c : Crypto K P C) : Prop :=
  ∀ {k k' nonce nonce' pt ad ad' ct p}, c.encrypt k nonce pt ad = some ct →
    c.decrypt k' nonce' ct ad' = some p → k' = k

/-- One side of a link: what its session has opened, in parallel with the keys
it has taken for that, and what it has sealed. -/
structure SideOnce (c : Crypto K P C) (l : Linking K P) (who : Party) (m : SessionManager K P)
    (letters : List (Letter K C)) (opened : List (ProtocolEnvelope C)) : Prop where
  session : ∃ ctx got, Odict.get? m.sessions (l.peerId who) = some ctx ∧
    KeysOnce c.toKeyAlg l.rootKey got ctx.ratchet ∧
    List.Forall₂ (fun env k => ∃ nonce p, c.decrypt k nonce env.ciphertext [] = some p)
      opened got
  letters : ∀ x ∈ letters, ∃ nonce, c.encrypt x.key nonce x.plaintext [] = some x.env.ciphertext

def LinkOnce (c : Crypto K P C) (l : Linking K P) (σ : Link K P C) : Prop :=
  ∀ who, SideOnce c l who (σ.manager who) (σ.letters who) (σ.opened who)

variable {l : Linking K P} {σ : Link K P C} {who : Party} {m : SessionManager K P}
  {letters : List (Letter K C)} {opened : List (ProtocolEnvelope C)}

theorem SideOnce.encrypt (h : SideOnce c l who m letters opened) (pt : Bytes) :
    SideOnce c l who (after (SessionManager.encryptForKeyed c (l.peerId who) pt m)) letters
        opened ∧
      ∀ env k m', SessionManager.encryptForKeyed c (l.peerId who) pt m = .ok (env, k) m' →
        ∃ nonce, c.encrypt k nonce pt [] = some env.ciphertext := by
  obtain ⟨ctx, got, hctx, honce, hopened⟩ := h.session
  have hkept : KeysOnce c.toKeyAlg l.rootKey got
      (after (DoubleRatchet.encryptKeyed c pt [] ctx.ratchet)) := honce.encrypt pt
  have hcall : SessionManager.encryptForKeyed c (l.peerId who) pt m
      = SessionManager.withCtx (l.peerId who)
          (SessionContext.encryptKeyed c m.profile pt) m := rfl
  simp only [hcall, SessionManager.withCtx, hctx, SessionContext.encryptKeyed, bind_apply,
    SessionContext.onRatchet, zoom]
  cases henc : DoubleRatchet.encryptKeyed c pt [] ctx.ratchet with
  | error e st =>
      rw [henc] at hkept
      refine ⟨⟨⟨_, got, Odict.get?_set_self _ _ _, hkept, hopened⟩, h.letters⟩, ?_⟩
      intro env k m' hok
      cases hok
  | ok x st =>
      rw [henc] at hkept
      refine ⟨⟨⟨_, got, Odict.get?_set_self _ _ _, hkept, hopened⟩, h.letters⟩, ?_⟩
      intro env k m' hok
      cases hok
      obtain ⟨⟨nonce, -, hct⟩, -⟩ := Ratchet.encryptKeyed_sealed henc
      exact ⟨nonce, hct⟩

theorem SideOnce.decrypt (hk : GoodKdf c.toKeyAlg l.rootKey)
    (h : SideOnce c l who m letters opened) (env : ProtocolEnvelope C) (g : P) :
    (∀ p m', SessionManager.decryptFrom c (l.peerId who) env g m = .ok p m' →
      SideOnce c l who m' letters (env :: opened)) ∧
    ∀ e m', SessionManager.decryptFrom c (l.peerId who) env g m = .error e m' →
      SideOnce c l who m' letters opened := by
  obtain ⟨ctx, got, hctx, honce, hopened⟩ := h.session
  obtain ⟨ctx₁, hratchet, hcall⟩ := decryptKeyed_guarded (c := c) ctx env g
  simp only [SessionManager.decryptFrom, map_apply, SessionManager.decryptFromKeyed,
    SessionManager.withCtx, hctx]
  rcases hcall with hcall | ⟨e, hcall⟩
  · have htried : KeysOnce.Tried c l.rootKey got (SessionContext.messageOf env).ciphertext []
        (DoubleRatchet.decryptKeyed c (SessionContext.messageOf env) [] g ctx.ratchet) :=
      honce.decrypt hk
    obtain ⟨hkept, htaken⟩ := htried
    rw [hcall, SessionContext.onRatchet, zoom, hratchet]
    cases hrun : DoubleRatchet.decryptKeyed c (SessionContext.messageOf env) [] g
        ctx.ratchet with
    | error e st =>
        rw [hrun] at hkept
        refine ⟨fun p m' hok => (by cases hok), fun e m' hok => ?_⟩
        cases hok
        exact ⟨⟨_, got, Odict.get?_set_self _ _ _, hkept, hopened⟩, h.letters⟩
    | ok x st =>
        obtain ⟨honce', nonce, hdec⟩ := htaken x.1 x.2 st hrun
        refine ⟨fun p m' hok => ?_, fun e m' hok => by cases hok⟩
        cases hok
        exact ⟨⟨_, x.2 :: got, Odict.get?_set_self _ _ _, honce',
          .cons ⟨nonce, x.1, hdec⟩ hopened⟩, h.letters⟩
  · rw [hcall]
    refine ⟨fun p m' hok => (by cases hok), fun e m' hok => ?_⟩
    cases hok
    exact ⟨⟨_, got, Odict.get?_set_self _ _ _, hratchet ▸ honce, hopened⟩, h.letters⟩

theorem LinkOnce.update {σ' : Link K P C} (h : LinkOnce c l σ) (who : Party)
    (hside : SideOnce c l who (σ'.manager who) (σ'.letters who) (σ'.opened who))
    (hm : ∀ w, w ≠ who → σ'.manager w = σ.manager w)
    (hl : ∀ w, w ≠ who → σ'.letters w = σ.letters w)
    (ho : ∀ w, w ≠ who → σ'.opened w = σ.opened w) : LinkOnce c l σ' := by
  intro w
  by_cases hw : w = who
  · rw [hw]
    exact hside
  · rw [hm w hw, hl w hw, ho w hw]
    exact h w

/-- Whatever is called, and on whatever envelope. -/
theorem LinkOnce.step (hk : GoodKdf c.toKeyAlg l.rootKey) (h : LinkOnce c l σ)
    (act : LinkAct P C) : LinkOnce c l (σ.step c l act) := by
  cases act with
  | encrypt who pt =>
      obtain ⟨hside, hsealed⟩ := (h who).encrypt pt
      rw [Link.step]
      cases hcall : SessionManager.encryptForKeyed c (l.peerId who) pt (σ.manager who) with
      | error e m =>
          rw [hcall] at hside
          refine h.update who ?_ (fun w hw => Function.update_of_ne hw _ _)
            (fun _ _ => rfl) (fun _ _ => rfl)
          simp only [Function.update_self]
          exact hside
      | ok x m =>
          rw [hcall] at hside
          refine h.update who ?_ (fun w hw => Function.update_of_ne hw _ _)
            (fun w hw => Function.update_of_ne hw _ _) (fun _ _ => rfl)
          simp only [Function.update_self]
          refine ⟨hside.session, fun y hy => ?_⟩
          rcases List.mem_append.mp hy with hy | hy
          · exact hside.letters y hy
          · rw [List.mem_singleton.mp hy]
            exact hsealed x.1 x.2 m hcall
  | decrypt who env g =>
      obtain ⟨hok, herror⟩ := (h who).decrypt hk env g
      rw [Link.step]
      cases hcall : SessionManager.decryptFrom c (l.peerId who) env g (σ.manager who) with
      | error e m =>
          refine h.update who ?_ (fun w hw => Function.update_of_ne hw _ _)
            (fun _ _ => rfl) (fun _ _ => rfl)
          simp only [Function.update_self]
          exact herror e m hcall
      | ok p m =>
          refine h.update who ?_ (fun w hw => Function.update_of_ne hw _ _)
            (fun _ _ => rfl) (fun w hw => Function.update_of_ne hw _ _)
          simp only [Function.update_self]
          exact hok p m hcall

theorem LinkOnce.start {before : Party → SessionManager K P} (h : Link.Starts c l before σ) :
    LinkOnce c l σ := by
  obtain ⟨hmade, hletters, -, hopened⟩ := h
  intro who
  obtain ⟨d, -, hmanager⟩ := createSymmetricSession_ok (hmade who)
  rw [hletters, hopened, hmanager]
  refine ⟨⟨_, [], Odict.get?_set_self _ _ _, ⟨[d], rfl, ?_⟩, .nil⟩, nofun⟩
  have hempty : OneUse c.toKeyAlg l.rootKey [d] [] ([] : Odict (Bytes × Int) K) none :=
    ⟨List.nodup_nil, List.nodup_nil, nofun, nofun⟩
  cases who with
  | initiator => exact hempty
  | responder =>
      refine ⟨hempty.keys, hempty.nodup, nofun, fun k hk => ?_⟩
      cases hk
      exact ⟨[d], 0, Nat.le_refl _, rfl, nofun⟩

/-- In every run of two linked managers, whatever envelopes are handed to
either of them, no two of the envelopes a session accepted carry the
ciphertext of one letter. -/
theorem ciphertext_opened_once (hk : GoodKdf c.toKeyAlg l.rootKey) (hbinds : AeadBinds c)
    {before : Party → SessionManager K P} (hstart : Link.Starts c l before σ)
    (acts : List (LinkAct P C)) (who : Party) {sender : Party} {x : Letter K C}
    (hx : x ∈ (runFrom (Link.step c l) σ acts).letters sender) :
    ((runFrom (Link.step c l) σ acts).opened who).Pairwise fun env env' =>
      ¬ (env.ciphertext = x.env.ciphertext ∧ env'.ciphertext = x.env.ciphertext) := by
  have hbooks : LinkOnce c l (runFrom (Link.step c l) σ acts) :=
    runFrom_invariant (fun σ act h => h.step hk act) (LinkOnce.start hstart) acts
  obtain ⟨nonce, hsealed⟩ := (hbooks sender).letters x hx
  obtain ⟨ctx, got, -, ⟨path, -, honce⟩, hopened⟩ := (hbooks who).session
  have hnodup : got.Nodup := (List.nodup_append.mp honce.nodup).1
  have hkey : ∀ (env : ProtocolEnvelope C) (k : K),
      (∃ nonce p, c.decrypt k nonce env.ciphertext [] = some p) →
      env.ciphertext = x.env.ciphertext → k = x.key := by
    intro env k ⟨nonce', p, hdec⟩ hct
    exact hbinds hsealed (hct ▸ hdec)
  exact pairwise_of_beside hopened hnodup hkey

/-! ## The symbolic model -/

theorem symbolic_aeadBinds : AeadBinds symbolic := by
  intro k k' nonce nonce' pt ad ad' ct p henc hdec
  cases henc
  simp only [symbolic] at hdec
  split at hdec
  · next hopen => exact hopen.1.symm
  · cases hdec

/-- Two letters, delivered as they are; then the second with another session
id, with a later number, and under another ratchet key. -/
def symReplayed : List (LinkAct Nat Box) := linkScript symbolic symLinking symLink [
  fun _ => .encrypt .initiator [10], fun _ => .encrypt .initiator [11],
  forward .responder 0 3 id, forward .responder 1 4 id,
  forward .responder 1 5 fun env => { env with sessionId := ascii "other" },
  forward .responder 1 6 fun env => { env with messageNumber := 3 },
  forward .responder 1 7 fun env => { env with
    senderRatchetKey := symPublicKey 7, messageNumber := 4 }]

/-- Both ciphertexts are opened once; the repetitions get past the replay cache
and find no key. -/
theorem ciphertext_opened_once_replayed :
    ((runFrom (Link.step symbolic symLinking) symLink symReplayed).opened .responder).length = 2 ∧
      ((runFrom (Link.step symbolic symLinking) symLink symReplayed).manager
        .responder).sessions.map (·.2.replayCache.seen.length) = [5] ∧
      ∀ x ∈ (runFrom (Link.step symbolic symLinking) symLink symReplayed).letters .initiator,
        ((runFrom (Link.step symbolic symLinking) symLink symReplayed).opened
            .responder).Pairwise fun env env' =>
          ¬ (env.ciphertext = x.env.ciphertext ∧ env'.ciphertext = x.env.ciphertext) :=
  ⟨by decide +kernel, by decide +kernel, fun _ hx => ciphertext_opened_once symbolic_good symbolic_aeadBinds
    symLink_starts _ _ hx⟩

end GhostChat.Proofs
