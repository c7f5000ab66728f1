import GhostChat.Proofs.EngineRule
import GhostChat.Ref.Steps

/-!
# Bounded work and memory under attack

Two stores of the engine grow on what the network sends. Each is filled
through one method, and the method makes room before it inserts and checks
what it is handed, so its bound is a property of that method and of nothing
else in the engine (`skipped_add_bounded`, `received_add_bounded`); every
other line of the engine only moves the stores around. That the replay cache
is handed a 32-byte key is the first check of `ratchet_decrypt`.

The work of a call is what it notes in the counting copy. The check of the
skip distance asks for a receiving chain first, so it bounds nothing where
there is none. There always is one: each of the branches before it ends with a
chain for the header's key (`ensureReceivingChain_ready`), whichever of `dhr`
and the two chains were there, and where none of the branches is taken they
were there before.
-/

namespace GhostChat.Proofs

open GhostChat.Lib GhostChat.Lib.Effect GhostChat.Ref

variable {K P C : Type} {c : Crypto K P C} {a : KeyAlg K} {cap : Nat}
  {s : DoubleRatchetState K P} {msg : RatchetWireMessage C} {g : P}

/-! ## The counting copy is the engine -/

theorem kdfChainLogged_copies (ck : Option K) {f : K × K → LoggedEngine K P Unit}
    {y : K → Engine K P Unit} (h : ∀ k, Copies (f (kdfChain a k)) (y k)) :
    Copies (kdfChainLogged a ck >>= f) (match ck with
      | none => throw (.typeError "ikm must be bytes")
      | some k => y k) := by
  intro p
  cases ck with
  | none => rfl
  | some k => exact h k (p.1, some k :: p.2)

theorem skipReceivingLoopLogged_copies (dh : Bytes) (upTo fuel : Nat) :
    Copies (skipReceivingLoopLogged (P := P) a dh upTo fuel)
      (skipReceivingLoop a dh upTo fuel) := by
  induction fuel with
  | zero => exact copies_pure ()
  | succ fuel ih =>
      refine copies_bind (copies_quietly get) fun s => copies_ite ?_ (copies_pure ())
      refine kdfChainLogged_copies _ fun ck => ?_
      exact copies_bind (copies_quietly _) fun _ => copies_bind (copies_quietly _) fun _ =>
        copies_bind (copies_quietly _) fun _ => ih

theorem skipReceivingUntilLogged_copies (upTo : Nat) :
    Copies (skipReceivingUntilLogged (P := P) a upTo) (skipReceivingUntil a upTo) := by
  refine copies_bind (copies_quietly get) fun s => ?_
  cases s.receivingChainKey with
  | none => exact copies_pure ()
  | some ck =>
      cases s.dhr with
      | none => exact copies_pure ()
      | some dh => exact skipReceivingLoopLogged_copies dh upTo _

theorem ensureReceivingChainLogged_copies (dh : Bytes) :
    Copies (ensureReceivingChainLogged c dh g) (ensureReceivingChain c dh g) := by
  -- What all the branches go on with.
  have hturn : Copies (do
      let s ← quietly get
      if s.dhr.isSome ∧ s.dhr ≠ some dh then do
        skipReceivingUntilLogged c.toKeyAlg s.Nr
        quietly (dhRatchetReceive c dh g)) (do
      let s ← get
      if s.dhr.isSome ∧ s.dhr ≠ some dh then do
        skipReceivingUntil c.toKeyAlg s.Nr
        dhRatchetReceive c dh g) := by
    refine copies_bind (copies_quietly get) fun s => copies_ite ?_ (copies_pure ())
    exact copies_bind (skipReceivingUntilLogged_copies _) fun _ => copies_quietly _
  refine copies_bind (copies_quietly get) fun s => ?_
  refine copies_ite ?_ (copies_ite ?_ (copies_ite ?_ (copies_ite ?_ hturn)))
  · exact copies_bind (copies_quietly _) fun _ => hturn
  · exact copies_bind (skipReceivingUntilLogged_copies _) fun _ =>
      copies_bind (copies_quietly _) fun _ => hturn
  · exact copies_bind (skipReceivingUntilLogged_copies _) fun _ =>
      copies_bind (copies_quietly _) fun _ => hturn
  · exact copies_bind (copies_quietly _) fun _ => copies_bind (copies_quietly _) fun _ => hturn

theorem nextReceivingKeyLogged_copies :
    Copies (nextReceivingKeyLogged (P := P) a) (nextReceivingKey a) := by
  refine copies_bind (copies_quietly get) fun s p => ?_
  cases s.receivingChainKey <;> rfl

theorem decryptOnChainLogged_copies :
    Copies (decryptOnChainLogged c msg) (decryptOnChain c msg) := by
  refine copies_bind (copies_quietly get) fun s => copies_guard (copies_guard ?_)
  exact copies_bind (skipReceivingUntilLogged_copies _) fun _ =>
    copies_bind nextReceivingKeyLogged_copies fun _ =>
      copies_bind (copies_quietly _) fun _ => copies_pure _

/-- The counting copy of `ratchet_decrypt` does what `ratchet_decrypt`
does. -/
theorem ratchetDecryptLogged_copies :
    Copies (ratchetDecryptLogged c msg g) (ratchetDecryptKeyed c msg g) := by
  refine copies_bind (copies_quietly _) fun _ => copies_bind (copies_quietly get) fun s => ?_
  refine copies_guard (copies_ite ?_ (copies_guard ?_))
  · exact copies_bind (copies_quietly _) fun _ => copies_bind (copies_quietly _) fun _ =>
      copies_pure _
  · exact copies_bind (ensureReceivingChainLogged_copies _) fun _ =>
      decryptOnChainLogged_copies

theorem nextSendingKeyLogged_copies :
    Copies (nextSendingKeyLogged c) (nextSendingKey c) := by
  have hstep : Copies (do
      let s ← quietly get
      if s.sendingChainKey.isNone then
        throw (.decryption
          "No sending chain key (protocol not initialized or peer DH missing)")
      let k ← kdfChainLogged c.toKeyAlg s.sendingChainKey
      quietly (modify fun s => { s with sendingChainKey := some k.1 })
      return k.2 : LoggedEngine K P K) (do
      let s ← get
      match s.sendingChainKey with
      | none => throw (.decryption
          "No sending chain key (protocol not initialized or peer DH missing)")
      | some ck => do
          modify fun s => { s with sendingChainKey := some (kdfChain c.toKeyAlg ck).1 }
          return (kdfChain c.toKeyAlg ck).2) := by
    refine copies_bind (copies_quietly get) fun s p => ?_
    cases s.sendingChainKey <;> rfl
  refine copies_bind (copies_quietly get) fun s => copies_ite ?_ hstep
  exact copies_bind (copies_quietly _) fun _ => hstep

theorem ratchetEncryptLogged_copies (pt : Bytes) :
    Copies (ratchetEncryptLogged c pt) (ratchetEncryptKeyed c pt) :=
  copies_bind nextSendingKeyLogged_copies fun _ => copies_bind (copies_quietly _) fun _ =>
    copies_pure _

/-! ## The work of a call -/

/-- The step is on a chain that is there. -/
def Present (chainKey : Option K) : Prop := chainKey.isSome

/-- Past the branches, the remote key is the header's and there is a receiving
chain for it. -/
theorem ensureReceivingChain_ready {dh : Bytes} {u : Unit}
    {s' : DoubleRatchetState K P} (h : ensureReceivingChain c dh g s = .ok u s') :
    s'.dhr = some dh ∧ s'.receivingChainKey.isSome := by
  have hturn : ensureReceivingChain c dh g s = dhRatchetReceive c dh g s →
      s'.dhr = some dh ∧ s'.receivingChainKey.isSome := by
    intro hen
    rw [hen] at h
    cases hw : dhWith c s.dhsPrivate dh with
    | error e => rw [dhRatchetReceive_failed hw] at h; cases h
    | ok k => rw [dhRatchetReceive_done hw] at h; cases h; exact ⟨rfl, rfl⟩
  cases hd : s.dhr with
  | none =>
      cases hs : s.sendingChainKey with
      | some ck => exact hturn (ensureReceivingChain_turn (Or.inl ⟨hd, by rw [hs]; rfl⟩))
      | none =>
          cases hck : s.receivingChainKey with
          | some ck =>
              rw [ensureReceivingChain_boot hd hck hs] at h
              cases h
              exact ⟨rfl, by simp [hck]⟩
          | none =>
              rw [ensureReceivingChain_first hd hck hs] at h
              cases h
              exact ⟨rfl, rfl⟩
  | some d =>
      by_cases hdd : d = dh
      · subst hdd
        cases hck : s.receivingChainKey with
        | some ck =>
            rw [ensureReceivingChain_same hd hck] at h
            cases h
            exact ⟨hd, by simp [hck]⟩
        | none =>
            rw [ensureReceivingChain_late hd hck] at h
            split at h
            · cases h
            · cases h
              exact ⟨hd, rfl⟩
      · exact hturn (ensureReceivingChain_turn (Or.inr ⟨d, hd, hdd⟩))

theorem kdfChainLogged_notes {I : DoubleRatchetState K P → Prop} {ck : Option K}
    (h : ck.isSome) : Notes I 1 Present (fun _ => I) (kdfChainLogged a ck) := by
  refine notes_bind (m := 0) (notes_note h) fun _ => ?_
  cases ck with
  | none => cases h
  | some k => exact notes_pure fun _ hs => hs

theorem onSkipped_chain {α : Type} {x : EStateM Exn (SkippedMessageKeys K) α} {u : α}
    {s' : DoubleRatchetState K P} (h : onSkipped x s = .ok u s') :
    s'.receivingChainKey = s.receivingChainKey := by
  simp only [onSkipped, zoom] at h
  split at h
  · cases h
    rfl
  · cases h

/-- There is a receiving chain. -/
def HasChain (s : DoubleRatchetState K P) : Prop := s.receivingChainKey.isSome

/-- The loop takes one step for each round, and needs its chain for the
first. -/
theorem skipReceivingLoopLogged_notes (dh : Bytes) (upTo fuel : Nat) :
    Notes (HasChain (P := P)) fuel Present (fun _ => HasChain)
      (skipReceivingLoopLogged a dh upTo fuel) := by
  induction fuel with
  | zero => exact notes_pure fun s hs => hs
  | succ fuel ih =>
      refine notes_get_bind fun s₀ hs₀ => notes_ite (fun _ => ?_) fun _ => ?_
      · rw [Nat.add_comm]
        refine notes_bind (kdfChainLogged_notes hs₀) fun k => ?_
        refine notes_quietly_bind (J := fun _ => HasChain) ?_ fun _ => ?_
        · intro s _ s' _ h
          cases h
          exact rfl
        refine notes_quietly_bind (J := fun _ => HasChain) ?_ fun _ => ?_
        · intro s _ s' hs h
          rw [HasChain, onSkipped_chain h]
          exact hs
        refine notes_quietly_bind (J := fun _ => HasChain) ?_ fun _ => ih
        intro s _ s' hs h
        cases h
        exact hs
      · refine (notes_pure fun s hs => ?_).mono (fun s hs => hs) (Nat.zero_le _) fun _ _ h => h
        rw [hs]
        exact hs₀

theorem skipReceivingUntilLogged_notes {upTo n : Nat} :
    Notes (fun s : DoubleRatchetState K P => HasChain s ∧ upTo ≤ s.Nr + n) n Present
      (fun _ => HasChain) (skipReceivingUntilLogged a upTo) := by
  refine notes_get_bind fun s₀ hs₀ => ?_
  have hidle : Notes (fun s => s = s₀) n Present (fun _ => HasChain)
      (pure () : LoggedEngine K P Unit) :=
    (notes_pure fun s hs => hs ▸ hs₀.1).mono (fun s hs => hs) (Nat.zero_le _) fun _ _ h => h
  cases s₀.receivingChainKey with
  | none => exact hidle
  | some ck =>
      cases s₀.dhr with
      | none => exact hidle
      | some dh =>
          exact (skipReceivingLoopLogged_notes dh upTo _).mono (fun s hs => hs ▸ hs₀.1)
            (by omega) fun _ _ h => h

/-- Skipping up to where the counter stands notes nothing, chain or not. -/
theorem skipReceivingUntilLogged_idle (s₀ : DoubleRatchetState K P) :
    Notes (fun s => s = s₀) 0 Present (fun _ s => s = s₀)
      (skipReceivingUntilLogged a s₀.Nr) := by
  refine notes_get_bind fun s hs => ?_
  subst hs
  have hidle : Notes (fun s' => s' = s) 0 Present (fun _ s' => s' = s)
      (pure () : LoggedEngine K P Unit) := notes_pure fun s' hs => hs
  rw [Nat.sub_self]
  cases s.receivingChainKey with
  | none => exact hidle
  | some ck => cases s.dhr <;> exact hidle

/-- The branches take no step. -/
theorem ensureReceivingChainLogged_notes (dh : Bytes) :
    Notes (fun _ => True) 0 Present (fun _ _ => True) (ensureReceivingChainLogged c dh g) := by
  have hturn : Notes (fun _ => True) 0 Present (fun _ _ => True) (do
      let s ← quietly get
      if s.dhr.isSome ∧ s.dhr ≠ some dh then do
        skipReceivingUntilLogged c.toKeyAlg s.Nr
        quietly (dhRatchetReceive c dh g)) := by
    refine notes_get_bind fun s₀ _ => notes_ite (fun _ => ?_) fun _ => ?_
    · exact notes_bind (skipReceivingUntilLogged_idle s₀) fun _ =>
        notes_quietly fun _ _ _ _ _ => trivial
    · exact notes_pure fun _ _ => trivial
  refine notes_get_bind fun s₀ _ => ?_
  refine notes_ite (fun _ => ?_) fun _ => notes_ite (fun _ => ?_) fun _ =>
    notes_ite (fun _ => ?_) fun _ => notes_ite (fun _ => ?_) fun _ => ?_
  · exact notes_quietly_bind (fun _ _ _ _ _ => trivial) fun _ => hturn
  · exact notes_bind (skipReceivingUntilLogged_idle s₀) fun _ =>
      notes_quietly_bind (fun _ _ _ _ _ => trivial) fun _ => hturn
  · exact notes_bind (skipReceivingUntilLogged_idle s₀) fun _ =>
      notes_quietly_bind (fun _ _ _ _ _ => trivial) fun _ => hturn
  · refine notes_quietly_bind (J := fun _ _ => True) (fun _ _ _ _ _ => trivial) fun _ => ?_
    exact notes_quietly_bind (fun _ _ _ _ _ => trivial) fun _ => hturn
  · exact hturn.mono (fun _ _ => trivial) (Nat.le_refl 0) fun _ _ h => h

/-- On a chain that is there: the skipped steps, within the distance, and the
message's own. -/
theorem decryptOnChainLogged_notes :
    Notes HasChain (maxSkipDistance + 1) Present (fun _ _ => True)
      (decryptOnChainLogged c msg) := by
  refine notes_get_bind fun s₀ hs₀ => notes_guard fun hlo => notes_guard fun hhi => ?_
  have hnear : msg.header.n.toNat ≤ s₀.Nr + maxSkipDistance := by
    by_contra hfar
    exact hhi ⟨hs₀, by omega⟩
  have hskip : Notes (fun s => s = s₀) maxSkipDistance Present (fun _ => HasChain)
      (skipReceivingUntilLogged c.toKeyAlg msg.header.n.toNat) :=
    skipReceivingUntilLogged_notes.mono (fun s hs => hs ▸ ⟨hs₀, hnear⟩) (Nat.le_refl _)
      fun _ _ h => h
  refine notes_bind hskip fun _ => ?_
  have hnext : Notes (HasChain (P := P)) (1 + 0) Present (fun _ _ => True)
      (nextReceivingKeyLogged c.toKeyAlg) := by
    refine notes_get_bind fun s hs => notes_bind (kdfChainLogged_notes hs) fun k => ?_
    exact notes_quietly_bind (J := fun _ _ => True) (fun _ _ _ _ _ => trivial) fun _ =>
      notes_pure fun _ _ => trivial
  refine notes_bind (m := 0) hnext fun mk => ?_
  exact notes_quietly_bind (J := fun _ _ => True) (fun _ _ _ _ _ => trivial) fun _ =>
    notes_pure fun _ _ => trivial

/-- `ratchet_decrypt` takes at most `MAX_SKIP_DISTANCE + 1` steps, none of
them on a chain that is not there. -/
theorem ratchetDecryptLogged_notes :
    Notes (fun _ => True) (maxSkipDistance + 1) Present (fun _ _ => True)
      (ratchetDecryptLogged c msg g) := by
  refine notes_quietly_bind (J := fun _ _ => True) (fun _ _ _ _ _ => trivial) fun _ => ?_
  refine notes_get_bind fun s₀ _ => notes_guard fun _ => notes_ite (fun _ => ?_) fun _ => ?_
  · refine Notes.mono (n := 0) ?_ (fun _ _ => trivial) (Nat.zero_le _) fun _ _ h => h
    refine notes_quietly_bind (J := fun _ _ => True) (fun _ _ _ _ _ => trivial) fun _ => ?_
    exact notes_quietly_bind (J := fun _ _ => True) (fun _ _ _ _ _ => trivial) fun _ =>
      notes_pure fun _ _ => trivial
  · refine notes_guard fun _ => ?_
    rw [← Nat.zero_add (maxSkipDistance + 1)]
    refine notes_bind (J := fun _ => HasChain) ?_ fun _ => decryptOnChainLogged_notes
    intro s l _
    refine ⟨(ensureReceivingChainLogged_notes _ s l trivial).1, fun u p hp => ?_⟩
    exact (ensureReceivingChain_ready ((ensureReceivingChainLogged_copies _).ok hp)).2

/-- `ratchet_encrypt` takes at most one step, on a chain that is there. -/
theorem ratchetEncryptLogged_notes (pt : Bytes) :
    Notes (fun _ => True) 1 Present (fun _ _ => True) (ratchetEncryptLogged c pt) := by
  have hstep : Notes (fun _ => True) 1 Present (fun _ _ => True) (do
      let s ← quietly get
      if s.sendingChainKey.isNone then
        throw (.decryption
          "No sending chain key (protocol not initialized or peer DH missing)")
      let k ← kdfChainLogged c.toKeyAlg s.sendingChainKey
      quietly (modify fun s => { s with sendingChainKey := some k.1 })
      return k.2 : LoggedEngine K P K) := by
    refine notes_get_bind fun s₀ _ => notes_guard fun hs => ?_
    have hck : s₀.sendingChainKey.isSome := by
      cases h : s₀.sendingChainKey with
      | none => exact absurd (by rw [h]; rfl) hs
      | some ck => rfl
    refine notes_bind (m := 0) (kdfChainLogged_notes hck) fun k => ?_
    exact notes_quietly_bind (J := fun _ _ => True) (fun _ _ _ _ _ => trivial) fun _ =>
      notes_pure fun _ _ => trivial
  have hnext : Notes (fun _ => True) 1 Present (fun _ _ => True) (nextSendingKeyLogged c) := by
    refine notes_get_bind fun s₀ _ => notes_ite (fun _ => ?_) fun _ => ?_
    · exact notes_quietly_bind (fun _ _ _ _ _ => trivial) fun _ => hstep
    · exact hstep.mono (fun _ _ => trivial) (Nat.le_refl 1) fun _ _ h => h
  refine notes_bind (m := 0) hnext fun mk => ?_
  exact notes_quietly_bind (J := fun _ _ => True) (fun _ _ _ _ _ => trivial) fun _ =>
    notes_pure fun _ _ => trivial

/-! ## The memory -/

/-- At most `cap` skipped keys, each filed under a 32-byte remote key and a
uint32, each of 32 bytes. -/
structure SkippedBounded (a : KeyAlg K) (cap : Nat) (sk : SkippedMessageKeys K) : Prop where
  room : sk.maxKeys = cap
  length_le : sk.store.length ≤ cap
  checked : ∀ e ∈ sk.store,
    e.1.1.length = 32 ∧ e.1.2 < 2 ^ 32 ∧ (a.bytes e.2).length = 32

/-- At most 2000 accepted numbers, each under a 32-byte remote key and a
uint32. -/
structure ReceivedBounded (r : ReceivedIdsStore) : Prop where
  room : r.maxSize = 2000
  length_le : r.order.length ≤ 2000
  checked : ∀ e ∈ r.order, e.1.length = 32 ∧ e.2 < 2 ^ 32

/-- The two stores of a state are within their bounds. -/
structure Bounded (a : KeyAlg K) (cap : Nat) (s : DoubleRatchetState K P) : Prop where
  skipped : SkippedBounded a cap s.skippedMessageKeys
  received : ReceivedBounded s.receivedIds

theorem SkippedBounded.sub {sk : SkippedMessageKeys K} (h : SkippedBounded a cap sk)
    {store : Odict (Bytes × Nat) K} (hsub : store.Sublist sk.store) :
    SkippedBounded a cap { sk with store := store } :=
  ⟨h.room, Nat.le_trans hsub.length_le h.length_le, fun e he => h.checked e (hsub.subset he)⟩

theorem skipped_add_bounded (dh : Bytes) (n : Nat) (key : K) :
    Keeps (SkippedBounded a cap) (SkippedMessageKeys.add a dh n key) := by
  intro sk h
  rcases skipped_add_any (a := a) dh n key sk with
    ⟨e, store, hadd, hsub⟩ | ⟨hdh, hkey, hn, hroom, hadd⟩
  · rw [hadd]
    exact h.sub hsub
  · rw [hadd]
    have hsub := evictTo_sublist sk.maxKeys sk.store
    refine ⟨h.room, ?_, fun e he => ?_⟩
    · have hset := Odict.length_set_le (evictTo sk.maxKeys sk.store).1 (dh, n) key
      have hlt := evictTo_length_lt hroom sk.store
      have hroom := h.room
      simp only [after_ok]
      omega
    · rcases Odict.mem_set he with rfl | ⟨hmem, -⟩
      · exact ⟨hdh, hn, hkey⟩
      · exact h.checked e (hsub.subset hmem)

theorem received_add_bounded {dh : Bytes} (hdh : dh.length = 32) (n : Nat) :
    Keeps ReceivedBounded (ReceivedIdsStore.add dh n) := by
  intro r h
  rcases received_add_cases dh n r with
    ⟨e, order, hadd, hsub, -⟩ | ⟨-, -, hadd⟩ | ⟨hn, -, hroom, hadd⟩
  · rw [hadd]
    exact ⟨h.room, Nat.le_trans hsub.length_le h.length_le,
      fun e he => h.checked e (hsub.subset he)⟩
  · rw [hadd]
    exact h
  · rw [hadd]
    refine ⟨h.room, ?_, fun e he => ?_⟩
    · have hlt := evictTo_length_lt hroom r.order
      have hmax := h.room
      simp only [after_ok, List.length_append, List.length_singleton]
      omega
    · rcases List.mem_append.mp he with hmem | hmem
      · exact h.checked e ((evictTo_sublist _ _).subset hmem)
      · rw [List.mem_singleton.mp hmem]
        exact ⟨hdh, hn⟩

/-! Everything else only moves the stores around. -/

theorem Bounded.moved {s' : DoubleRatchetState K P} (h : Bounded a cap s)
    (hsk : s'.skippedMessageKeys = s.skippedMessageKeys)
    (hid : s'.receivedIds = s.receivedIds) : Bounded a cap s' := by
  refine ⟨?_, ?_⟩
  · rw [hsk]
    exact h.skipped
  · rw [hid]
    exact h.received

theorem onSkipped_bounded {α : Type} {x : EStateM Exn (SkippedMessageKeys K) α}
    (hx : Keeps (SkippedBounded a cap) x) :
    Keeps (Bounded a cap) (onSkipped x : Engine K P α) := by
  intro s h
  have hx := hx s.skippedMessageKeys h.skipped
  simp only [onSkipped, zoom]
  cases hr : x s.skippedMessageKeys <;>
    · rw [hr] at hx
      exact ⟨hx, h.received⟩

theorem pop_bounded (dh : Bytes) (n : Nat) :
    Keeps (SkippedBounded a cap) (SkippedMessageKeys.pop dh n) := by
  intro sk h
  cases hget : Odict.get? sk.store (dh, n) with
  | none => simp [SkippedMessageKeys.pop, hget]; exact h
  | some mk =>
      rw [skipped_pop_of_get hget]
      exact h.sub List.filter_sublist

theorem onReceived_bounded {α : Type} {x : EStateM Exn ReceivedIdsStore α}
    (hx : Keeps ReceivedBounded x) : Keeps (Bounded a cap) (onReceived x : Engine K P α) := by
  intro s h
  have hx := hx s.receivedIds h.received
  simp only [onReceived, zoom]
  cases hr : x s.receivedIds <;>
    · rw [hr] at hx
      exact ⟨h.skipped, hx⟩

theorem bounded_stable : Stable c (fun _ : P => True) (Bounded c.toKeyAlg cap) where
  sending _ _ h := h.moved rfl rfl
  sent _ h := h.moved rfl rfl
  opened _ _ h := h.moved rfl rfl
  receiving _ _ h := h.moved rfl rfl
  counted _ h := h.moved rfl rfl
  remote _ _ _ h := h.moved rfl rfl
  first _ h := h.moved rfl rfl
  reset _ h := h.moved rfl rfl
  rooted _ _ h := h.moved rfl rfl
  renewed _ _ _ h := h.moved rfl rfl
  file _ _ _ := onSkipped_bounded (skipped_add_bounded _ _ _)
  pop dh n := onSkipped_bounded (pop_bounded dh n)
  receive _ n hdh := onReceived_bounded (received_add_bounded hdh n)

/-- `ratchet_decrypt` keeps both bounds, whatever the message. -/
theorem ratchetDecryptKeyed_bounded :
    Keeps (Bounded c.toKeyAlg cap) (ratchetDecryptKeyed c msg g) :=
  bounded_stable.decrypt trivial

/-! ## Runs -/

theorem Bounded.step (call : EngineCall P C) (h : Bounded c.toKeyAlg cap s) :
    Bounded c.toKeyAlg cap (call.step c s) := by
  cases call with
  | encrypt pt =>
      rw [EngineCall.step, ratchetEncrypt_after]
      exact bounded_stable.encrypt pt s h
  | decrypt msg g =>
      rw [EngineCall.step, ratchetDecrypt_after]
      exact ratchetDecryptKeyed_bounded s h

theorem Bounded.start {rk : K} {isInitiator : Bool} {dhr : Option Bytes}
    (h : createInitialState c rk isInitiator dhr cap g = .ok s) :
    Bounded c.toKeyAlg cap s := by
  have hempty : SkippedBounded c.toKeyAlg cap { maxKeys := cap } :=
    ⟨rfl, Nat.zero_le _, fun e he => absurd he List.not_mem_nil⟩
  have hnone : ReceivedBounded {} :=
    ⟨rfl, Nat.zero_le _, fun e he => absurd he List.not_mem_nil⟩
  unfold createInitialState at h
  split at h
  · cases h
  · split at h
    · obtain ⟨shared, -, h⟩ := except_bind_ok h
      cases h
      exact ⟨hempty, hnone⟩
    · cases h
      exact ⟨hempty, hnone⟩

theorem stepped_of_notes {α : Type} {x : LoggedEngine K P α} {n : Nat}
    (h : Notes (fun _ => True) n Present (fun _ _ => True) x)
    (s : DoubleRatchetState K P) :
    (stepped x s).length ≤ n ∧ none ∉ stepped x s := by
  obtain ⟨⟨new, hnew, hlen, hpresent⟩, -⟩ := h s [] trivial
  rw [stepped, hnew, List.append_nil]
  refine ⟨hlen, fun hin => ?_⟩
  have hnone : Present (none : Option K) := hpresent none hin
  cases hnone

/-- Whatever is sent to an engine and whatever it is asked to send, its two
stores stay within their bounds; and counted by the copies that do what the
methods do, one `ratchet_decrypt` takes at most `MAX_SKIP_DISTANCE + 1` steps
and no call steps a chain key that is not there. -/
theorem bounded_under_attack {rk : K} {isInitiator : Bool} {dhr : Option Bytes}
    {s₀ : DoubleRatchetState K P}
    (h₀ : createInitialState c rk isInitiator dhr cap g = .ok s₀)
    {calls : List (EngineCall P C)} (hs : runFrom (EngineCall.step c) s₀ calls = s) :
    Bounded c.toKeyAlg cap s ∧
    (∀ msg g, forget (ratchetDecryptLogged c msg g (s, [])) = ratchetDecryptKeyed c msg g s ∧
      (stepped (ratchetDecryptLogged c msg g) s).length ≤ maxSkipDistance + 1 ∧
      none ∉ stepped (ratchetDecryptLogged c msg g) s) ∧
    ∀ pt, forget (ratchetEncryptLogged c pt (s, [])) = ratchetEncryptKeyed c pt s ∧
      none ∉ stepped (ratchetEncryptLogged c pt) s := by
  refine ⟨?_, fun msg g => ⟨?_, ?_⟩, fun pt => ⟨?_, ?_⟩⟩
  · rw [← hs]
    exact runFrom_invariant (fun s call h => h.step call) (Bounded.start h₀) calls
  · exact ratchetDecryptLogged_copies (s, [])
  · exact stepped_of_notes ratchetDecryptLogged_notes s
  · exact ratchetEncryptLogged_copies pt (s, [])
  · exact (stepped_of_notes (ratchetEncryptLogged_notes pt) s).2

/-- A responder that is told of two messages it did not get takes three
steps. -/
theorem bounded_under_attack_forged :
    (stepped (ratchetDecryptLogged symbolic
      { forged with header := { forged.header with n := 2 } } 3)
      ((symPair 1000).engine .responder)).length = 3 ∧
    Bounded symKeys 1000 (runFrom (EngineCall.step symbolic) ((symPair 1000).engine .responder)
      [.decrypt { forged with header := { forged.header with n := 2 } } 3, .encrypt [10],
        .decrypt { forged with header := { forged.header with n := 6000 } } 4]) := by
  have h₀ : createInitialState symbolic symRoot false none 1000 2
      = .ok ((symPair 1000).engine .responder) := rfl
  exact ⟨by decide +kernel, (bounded_under_attack h₀ rfl).1⟩

end GhostChat.Proofs
