import GhostChat.Proofs.Paths

/-!
# One party's books

What holds of a `DoubleRatchetState` after any sequence of calls on wire
messages of anybody's making, kept as a ledger next to the state. The ledger
names the root steps the party has taken, newest first; `sent` are the keys
it has encrypted with and `got` the keys it has decrypted with.

Three sides are kept apart, because a call touches them separately. The
sending side says that every key in `sent` has an address in a chain this
party opened for sending and that the current chain key stands past all of
them. The receiving side says the same of `got` and the stored skipped keys
together, plus what label each key is filed under: the label of a position is
that position, unless the chain was left behind by a DH that failed, and then
the label carries a public key of low order and no honest sender can match
it. The DH side says how the steps follow each other, which is what the
uniqueness of encryption keys across the two parties comes down to.
-/

namespace GhostChat.Proofs

open GhostChat.Lib GhostChat.Ref

variable {K P C : Type} {c : Crypto K P C} {a : KeyAlg K} {rk : K}

/-- One application of `kdf_root`: whose private key and which public key
made the DH output, and, for a receiving step, the key generated after it. -/
structure RootStep (K P : Type) where
  sends : Bool
  priv : P
  remote : Bytes
  shared : K
  gen : P

/-- The DH outputs of a path, the name of the chain its newest step opens. -/
def outputs (path : List (RootStep K P)) : List K := path.map (·.shared)

theorem outputs_length (path : List (RootStep K P)) :
    (outputs path).length = path.length := List.length_map _

/-- `l` names a chain of this party in direction `dir`: the bootstrap chain,
which the initiator sends on and the responder receives on, or the chain of
one of its root steps. -/
def IsChain (boot dir : Bool) (path : List (RootStep K P)) (l : List K) : Prop :=
  (boot = dir ∧ l = []) ∨
    ∃ st t, (st :: t) <:+ path ∧ st.sends = dir ∧ l = outputs (st :: t)

namespace IsChain

variable {boot dir : Bool} {path : List (RootStep K P)} {l : List K}

theorem grow (st : RootStep K P) (h : IsChain boot dir path l) :
    IsChain boot dir (st :: path) l := by
  rcases h with h | ⟨st', t, hsuf, hd, hl⟩
  · exact Or.inl h
  · exact Or.inr ⟨st', t, hsuf.trans (List.suffix_cons st path), hd, hl⟩

theorem newest (boot : Bool) (st : RootStep K P) (path : List (RootStep K P)) :
    IsChain boot st.sends (st :: path) (outputs (st :: path)) :=
  Or.inr ⟨st, path, List.suffix_refl _, rfl, rfl⟩

theorem length_le (h : IsChain boot dir path l) : l.length ≤ path.length := by
  rcases h with ⟨-, rfl⟩ | ⟨st, t, hsuf, -, rfl⟩
  · exact Nat.zero_le _
  · rw [outputs_length]; exact hsuf.length_le

/-- The chain a new step opens is none of the old ones. -/
theorem ne_newest (h : IsChain boot dir path l) (st : RootStep K P) :
    l ≠ outputs (st :: path) := by
  rintro rfl
  have := h.length_le
  rw [outputs_length, List.length_cons] at this
  omega

/-- No chain is used in both directions: two suffixes of one path with equal
outputs are the same suffix. -/
theorem one_way (hs : IsChain boot true path l) (hr : IsChain boot false path l) :
    False := by
  rcases hs with ⟨hb, rfl⟩ | ⟨st, t, hsuf, hd, hl⟩
  · rcases hr with ⟨hb', -⟩ | ⟨st', t', -, -, hl'⟩
    · rw [hb] at hb'; cases hb'
    · cases hl'
  · rcases hr with ⟨-, rfl⟩ | ⟨st', t', hsuf', hd', hl'⟩
    · cases hl
    · have hlen : (st :: t).length = (st' :: t').length := by
        rw [← outputs_length (st :: t), ← hl, hl', outputs_length]
      have heq := (List.suffix_of_suffix_length_le hsuf hsuf'
        (Nat.le_of_eq hlen)).eq_of_length hlen
      injection heq with hst
      rw [hst, hd'] at hd
      cases hd

end IsChain

/-! ## The sending side -/

structure SendSide (a : KeyAlg K) (rk : K) (boot : Bool)
    (path : List (RootStep K P)) (sent : List K) (ck : Option K) (Ns : Nat) :
    Prop where
  nodup : sent.Nodup
  known : ∀ mk ∈ sent, ∃ l j, IsChain boot true path l ∧ mk = msgKey a rk l j
  cur : ∀ k₀, ck = some k₀ → ∃ l k, IsChain boot true path l ∧
    k₀ = chainKey a rk l k ∧ Ns ≤ k ∧ ∀ j, msgKey a rk l j ∈ sent → j < k

namespace SendSide

variable {boot : Bool} {path : List (RootStep K P)} {sent : List K}
  {ck : Option K} {k₀ mk : K} {Ns : Nat}

theorem grow (st : RootStep K P) (h : SendSide a rk boot path sent ck Ns) :
    SendSide a rk boot (st :: path) sent ck Ns where
  nodup := h.nodup
  known := fun mk hmk => by
    obtain ⟨l, j, hl, hj⟩ := h.known mk hmk
    exact ⟨l, j, hl.grow st, hj⟩
  cur := fun k₀ hk => by
    obtain ⟨l, k, hl, hrest⟩ := h.cur k₀ hk
    exact ⟨l, k, hl.grow st, hrest⟩

/-- Forgetting the chain, and with it the counter. -/
theorem close (h : SendSide a rk boot path sent ck Ns) (Ns' : Nat) :
    SendSide a rk boot path sent none Ns' where
  nodup := h.nodup
  known := h.known
  cur := fun _ hk => by cases hk

/-- The counter may fall behind the position, never run ahead of it. -/
theorem lower {Ns' : Nat} (h : SendSide a rk boot path sent ck Ns)
    (hle : Ns' ≤ Ns) : SendSide a rk boot path sent ck Ns' where
  nodup := h.nodup
  known := h.known
  cur := fun k₀ hk => by
    obtain ⟨l, k, hl, hk₀, hN, hlt⟩ := h.cur k₀ hk
    exact ⟨l, k, hl, hk₀, hle.trans hN, hlt⟩

/-- One step of the sending chain: the key it splits off has not been used
before, and its position is at least the counter in the header. -/
theorem use (hk : GoodKdf a rk) (h : SendSide a rk boot path sent (some k₀) Ns) :
    SendSide a rk boot path ((kdfChain a k₀).2 :: sent) (some (kdfChain a k₀).1)
        (Ns + 1) ∧
      ∃ l j, IsChain boot true path l ∧ (kdfChain a k₀).2 = msgKey a rk l j ∧
        Ns ≤ j := by
  obtain ⟨l, k, hl, rfl, hN, hlt⟩ := h.cur k₀ rfl
  have hnew : msgKey a rk l k ∉ sent := fun hm => absurd (hlt k hm) (Nat.lt_irrefl k)
  refine ⟨⟨List.nodup_cons.mpr ⟨hnew, h.nodup⟩, ?_, ?_⟩, l, k, hl, rfl, hN⟩
  · intro mk hmk
    rcases List.mem_cons.mp hmk with rfl | hmk
    · exact ⟨l, k, hl, rfl⟩
    · exact h.known mk hmk
  · intro k₁ hk₁
    injection hk₁ with hk₁
    refine ⟨l, k + 1, hl, by rw [chainKey_succ, hk₁], Nat.succ_le_succ hN, ?_⟩
    intro j hj
    rcases List.mem_cons.mp hj with he | hj
    · have := (hk.msgKey_inj he).2
      omega
    · have := hlt j hj
      omega

theorem drop (h : SendSide a rk boot path (mk :: sent) ck Ns) :
    SendSide a rk boot path sent ck Ns where
  nodup := (List.nodup_cons.mp h.nodup).2
  known := fun mk' hmk => h.known mk' (List.mem_cons_of_mem _ hmk)
  cur := fun k₀ hk => by
    obtain ⟨l, k, hl, hk₀, hN, hlt⟩ := h.cur k₀ hk
    exact ⟨l, k, hl, hk₀, hN, fun j hj => hlt j (List.mem_cons_of_mem _ hj)⟩

/-- A new root step opens a chain no key of which has been used. -/
theorem openChain (hk : GoodKdf a rk) (h : SendSide a rk boot path sent ck Ns)
    (st : RootStep K P) (hst : st.sends = true) :
    SendSide a rk boot (st :: path) sent
      (some (chainHead a rk (outputs (st :: path)))) 0 where
  nodup := h.nodup
  known := (h.grow st).known
  cur := fun k₀ hk₀ => by
    injection hk₀ with hk₀
    refine ⟨outputs (st :: path), 0, hst ▸ IsChain.newest boot st path, hk₀.symm,
      Nat.le_refl 0, ?_⟩
    intro j hj
    obtain ⟨l, j', hl, he⟩ := h.known _ hj
    exact absurd (hk.msgKey_inj he).1.symm (hl.ne_newest st)

end SendSide

/-! ## Headers

The header names the chain of the key a message was sealed under: a private
key is in use for one sending chain only, because the step that replaces the
key also drops the chain. The counter in the header is less reliable, since a
DH that fails resets it and leaves the chain. -/

/-- `sent` pairs the header key of each encrypted message with its message
key. -/
structure HeadSide (c : Crypto K P C) (rk : K) (mine : List Bytes)
    (sent : List (Bytes × K)) (dhs : Option P) (ck : Option K) : Prop where
  own : ∀ e ∈ sent, e.1 ∈ mine
  same : ∀ e ∈ sent, ∀ e' ∈ sent, e.1 = e'.1 → ∃ l j j',
    e.2 = msgKey c.toKeyAlg rk l j ∧ e'.2 = msgKey c.toKeyAlg rk l j'
  idle : ck = none → ∀ p, dhs = some p → ∀ e ∈ sent, e.1 ≠ c.publicKey p
  cur : ∀ k₀, ck = some k₀ → ∀ p, dhs = some p → ∀ e ∈ sent, e.1 = c.publicKey p →
    ∃ l j k, e.2 = msgKey c.toKeyAlg rk l j ∧ k₀ = chainKey c.toKeyAlg rk l k

namespace HeadSide

variable {mine : List Bytes} {sent : List (Bytes × K)} {dhs : Option P}
  {ck : Option K} {k₀ mk : K}

theorem mono {mine' : List Bytes} (hsub : mine ⊆ mine')
    (h : HeadSide c rk mine sent dhs ck) : HeadSide c rk mine' sent dhs ck :=
  ⟨fun e he => hsub (h.own e he), h.same, h.idle, h.cur⟩

/-- A key nobody has seen replaces the old one, and the chain is dropped. -/
theorem replace (h : HeadSide c rk mine sent dhs ck) {g : P}
    (hg : c.publicKey g ∉ mine) :
    HeadSide c rk (c.publicKey g :: mine) sent (some g) none where
  own := fun e he => List.mem_cons_of_mem _ (h.own e he)
  same := h.same
  idle := fun _ p hp e he heq => by
    injection hp with hp
    exact hg (hp ▸ heq ▸ h.own e he)
  cur := nofun

/-- Opening a chain under a key no header carries yet. -/
theorem openChain (h : HeadSide c rk mine sent dhs none) (k₀ : K) :
    HeadSide c rk mine sent dhs (some k₀) where
  own := h.own
  same := h.same
  idle := nofun
  cur := fun _ _ p hp e he heq => absurd heq (h.idle rfl p hp e he)

/-- One step of the sending chain, nothing sealed yet. -/
theorem step (h : HeadSide c rk mine sent dhs (some k₀)) :
    HeadSide c rk mine sent dhs (some (kdfChain c.toKeyAlg k₀).1) where
  own := h.own
  same := h.same
  idle := nofun
  cur := fun k₁ hk₁ p hp e he heq => by
    obtain ⟨l, j, k, hj, hk⟩ := h.cur k₀ rfl p hp e he heq
    injection hk₁ with hk₁
    exact ⟨l, j, k + 1, hj, by rw [chainKey_succ, ← hk, hk₁]⟩

/-- One step, and a message sealed under the key it split off. -/
theorem use (hk : GoodKdf c.toKeyAlg rk) {p : P} (hp : c.publicKey p ∈ mine)
    (h : HeadSide c rk mine sent (some p) (some k₀)) {l : List K} {k : Nat}
    (hk₀ : k₀ = chainKey c.toKeyAlg rk l k) :
    HeadSide c rk mine ((c.publicKey p, (kdfChain c.toKeyAlg k₀).2) :: sent) (some p)
      (some (kdfChain c.toKeyAlg k₀).1) := by
  -- Whatever went out under this key before is on the same chain.
  have hold : ∀ e ∈ sent, e.1 = c.publicKey p →
      ∃ j, e.2 = msgKey c.toKeyAlg rk l j := by
    intro e he heq
    obtain ⟨l', j, k', hj, hk'⟩ := h.cur k₀ rfl p rfl e he heq
    obtain ⟨rfl, -⟩ := hk.chainKey_inj (hk₀.symm.trans hk')
    exact ⟨j, hj⟩
  have hnew : (kdfChain c.toKeyAlg k₀).2 = msgKey c.toKeyAlg rk l k := by
    rw [hk₀, msgKey]
  refine ⟨?_, ?_, nofun, ?_⟩
  · intro e he
    rcases List.mem_cons.mp he with rfl | he
    · exact hp
    · exact h.own e he
  · intro e he e' he' heq
    rcases List.mem_cons.mp he with rfl | he
    · rcases List.mem_cons.mp he' with rfl | he'
      · exact ⟨l, k, k, hnew, hnew⟩
      · obtain ⟨j, hj⟩ := hold e' he' heq.symm
        exact ⟨l, k, j, hnew, hj⟩
    · rcases List.mem_cons.mp he' with rfl | he'
      · obtain ⟨j, hj⟩ := hold e he heq
        exact ⟨l, j, k, hj, hnew⟩
      · exact h.same e he e' he' heq
  · intro k₁ hk₁ p' hp' e he heq
    injection hk₁ with hk₁
    injection hp' with hp'
    have hstep : k₁ = chainKey c.toKeyAlg rk l (k + 1) := by
      rw [chainKey_succ, ← hk₀, hk₁]
    rcases List.mem_cons.mp he with rfl | he
    · exact ⟨l, k, k + 1, hnew, hstep⟩
    · obtain ⟨j, hj⟩ := hold e he (hp' ▸ heq)
      exact ⟨l, j, k + 1, hj, hstep⟩

end HeadSide

/-! ## The receiving side -/

/-- A public key on which some X25519 computation raises. -/
def LowOrder (c : Crypto K P C) (dh : Bytes) : Prop :=
  ∃ p, c.sharedKey p dh = none

/-- What a label `(dh, i)` may say about a position `j`, in a store of
capacity `cap`. The last two cases are chains that outran their counter: past
`2 ^ 32` messages, where no call accepts the label, and with no room to file
a skipped key. -/
def Label (c : Crypto K P C) (cap : Nat) (dh : Bytes) (i j : Nat) : Prop :=
  j = i ∨ LowOrder c dh ∨ 2 ^ 32 ≤ i ∨ cap = 0

structure RecvSide (c : Crypto K P C) (rk : K) (boot : Bool)
    (path : List (RootStep K P)) (cap : Nat) (got : List K) (store : Odict (Bytes × Nat) K)
    (ck : Option K) (Nr : Nat) (dhr : Option Bytes) : Prop where
  keys : (Odict.keys store).Nodup
  nodup : (got ++ store.map (·.2)).Nodup
  known : ∀ mk ∈ got, ∃ l j, IsChain boot false path l ∧
    mk = msgKey c.toKeyAlg rk l j
  stored : ∀ dh i mk, ((dh, i), mk) ∈ store → ∃ l j, IsChain boot false path l ∧
    mk = msgKey c.toKeyAlg rk l j ∧ Label c cap dh i j
  cur : ∀ k₀, ck = some k₀ → ∃ l k, IsChain boot false path l ∧
    k₀ = chainKey c.toKeyAlg rk l k ∧
    (k = Nr ∨ ∃ dh, dhr = some dh ∧ Label c cap dh Nr k) ∧
    ∀ j, msgKey c.toKeyAlg rk l j ∈ got ++ store.map (·.2) → j < k

namespace RecvSide

variable {boot : Bool} {path : List (RootStep K P)} {got : List K}
  {store store' : Odict (Bytes × Nat) K} {ck : Option K} {k₀ mk : K}
  {cap Nr : Nat} {dhr : Option Bytes} {dh : Bytes}

theorem grow (st : RootStep K P) (h : RecvSide c rk boot path cap got store ck Nr dhr) :
    RecvSide c rk boot (st :: path) cap got store ck Nr dhr where
  keys := h.keys
  nodup := h.nodup
  known := fun mk hmk => by
    obtain ⟨l, j, hl, hj⟩ := h.known mk hmk
    exact ⟨l, j, hl.grow st, hj⟩
  stored := fun dh i mk hmk => by
    obtain ⟨l, j, hl, hj⟩ := h.stored dh i mk hmk
    exact ⟨l, j, hl.grow st, hj⟩
  cur := fun k₀ hk => by
    obtain ⟨l, k, hl, hrest⟩ := h.cur k₀ hk
    exact ⟨l, k, hl.grow st, hrest⟩

/-- Every key the receiver holds or has used has an address in a receiving
chain. -/
theorem address (h : RecvSide c rk boot path cap got store ck Nr dhr)
    (hmk : mk ∈ got ++ store.map (·.2)) :
    ∃ l j, IsChain boot false path l ∧ mk = msgKey c.toKeyAlg rk l j := by
  rcases List.mem_append.mp hmk with hmk | hmk
  · exact h.known mk hmk
  · obtain ⟨⟨⟨dh, i⟩, mk'⟩, he, rfl⟩ := List.mem_map.mp hmk
    obtain ⟨l, j, hl, hj, -⟩ := h.stored dh i mk' he
    exact ⟨l, j, hl, hj⟩

/-- Losing stored keys, to eviction or to a pop, loses nothing else. -/
theorem shrink (h : RecvSide c rk boot path cap got store ck Nr dhr)
    (hsub : store'.Sublist store) :
    RecvSide c rk boot path cap got store' ck Nr dhr := by
  have hvals : (got ++ store'.map (·.2)).Sublist (got ++ store.map (·.2)) :=
    (List.Sublist.refl got).append (hsub.map _)
  refine ⟨h.keys.sublist (hsub.map _), h.nodup.sublist hvals, h.known,
    fun dh i mk hmk => h.stored dh i mk (hsub.subset hmk), fun k₀ hk => ?_⟩
  obtain ⟨l, k, hl, hk₀, hlab, hlt⟩ := h.cur k₀ hk
  exact ⟨l, k, hl, hk₀, hlab, fun j hj => hlt j (hvals.subset hj)⟩

/-- Forgetting that the newest key was used. -/
theorem drop (h : RecvSide c rk boot path cap (mk :: got) store ck Nr dhr) :
    RecvSide c rk boot path cap got store ck Nr dhr where
  keys := h.keys
  nodup := (List.nodup_cons.mp h.nodup).2
  known := fun mk' hmk => h.known mk' (List.mem_cons_of_mem _ hmk)
  stored := h.stored
  cur := fun k₀ hk => by
    obtain ⟨l, k, hl, hk₀, hlab, hlt⟩ := h.cur k₀ hk
    exact ⟨l, k, hl, hk₀, hlab, fun j hj => hlt j (List.mem_cons_of_mem _ hj)⟩

/-- A new remote key under which the DH failed: the old chain goes on under a
label no honest sender uses. -/
theorem relabel (h : RecvSide c rk boot path cap got store ck Nr dhr)
    (hlow : LowOrder c dh) (Nr' : Nat) :
    RecvSide c rk boot path cap got store ck Nr' (some dh) where
  keys := h.keys
  nodup := h.nodup
  known := h.known
  stored := h.stored
  cur := fun k₀ hk => by
    obtain ⟨l, k, hl, hk₀, -, hlt⟩ := h.cur k₀ hk
    exact ⟨l, k, hl, hk₀, Or.inr ⟨dh, rfl, Or.inr (Or.inl hlow)⟩, hlt⟩

/-- A chain stepped while its counter stood still. -/
theorem overrun {Nr' : Nat} (h : RecvSide c rk boot path cap got store ck Nr (some dh))
    (hbig : 2 ^ 32 ≤ Nr' ∨ cap = 0) : RecvSide c rk boot path cap got store ck Nr' (some dh) where
  keys := h.keys
  nodup := h.nodup
  known := h.known
  stored := h.stored
  cur := fun k₀ hk => by
    obtain ⟨l, k, hl, hk₀, -, hlt⟩ := h.cur k₀ hk
    exact ⟨l, k, hl, hk₀, Or.inr ⟨dh, rfl, Or.inr (Or.inr hbig)⟩, hlt⟩

/-- The bootstrap label: the position is the counter, whatever the key. -/
theorem bootstrap (h : RecvSide c rk boot path cap got store ck Nr none) (dh : Bytes) :
    RecvSide c rk boot path cap got store ck Nr (some dh) where
  keys := h.keys
  nodup := h.nodup
  known := h.known
  stored := h.stored
  cur := fun k₀ hk => by
    obtain ⟨l, k, hl, hk₀, hlab, hlt⟩ := h.cur k₀ hk
    refine ⟨l, k, hl, hk₀, Or.inl ?_, hlt⟩
    rcases hlab with hlab | ⟨_, hno, -⟩
    · exact hlab
    · cases hno

/-- One step of the receiving chain, the key still in hand: it is new, and it
carries the label of the counter. -/
theorem take (hk : GoodKdf c.toKeyAlg rk)
    (h : RecvSide c rk boot path cap got store (some k₀) Nr (some dh)) :
    RecvSide c rk boot path cap ((kdfChain c.toKeyAlg k₀).2 :: got) store
        (some (kdfChain c.toKeyAlg k₀).1) (Nr + 1) (some dh) ∧
      ∃ l j, IsChain boot false path l ∧
        (kdfChain c.toKeyAlg k₀).2 = msgKey c.toKeyAlg rk l j ∧ Label c cap dh Nr j := by
  obtain ⟨l, k, hl, rfl, hlab, hlt⟩ := h.cur k₀ rfl
  have hnew : msgKey c.toKeyAlg rk l k ∉ got ++ store.map (·.2) :=
    fun hm => absurd (hlt k hm) (Nat.lt_irrefl k)
  have hlab' : Label c cap dh Nr k := by
    rcases hlab with rfl | ⟨dh', hdh, hL⟩
    · exact Or.inl rfl
    · injection hdh with hdh; rw [hdh]; exact hL
  refine ⟨⟨h.keys, List.nodup_cons.mpr ⟨hnew, h.nodup⟩, ?_, h.stored, ?_⟩,
    l, k, hl, rfl, hlab'⟩
  · intro mk hmk
    rcases List.mem_cons.mp hmk with rfl | hmk
    · exact ⟨l, k, hl, rfl⟩
    · exact h.known mk hmk
  · intro k₁ hk₁
    injection hk₁ with hk₁
    refine ⟨l, k + 1, hl, by rw [chainKey_succ, hk₁], Or.inr ⟨dh, rfl, ?_⟩, ?_⟩
    · rcases hlab' with rfl | hlow | hbig
      · exact Or.inl rfl
      · exact Or.inr (Or.inl hlow)
      · exact Or.inr (Or.inr (Or.imp_left (by omega) hbig))
    · intro j hj
      rcases List.mem_cons.mp hj with he | hj
      · have := (hk.msgKey_inj he).2
        omega
      · have := hlt j hj
        omega

/-- Filing the key in hand in the store, over an older entry if the label is
taken. -/
theorem file {i : Nat} (h : RecvSide c rk boot path cap (mk :: got) store ck Nr dhr)
    (hmk : ∃ l j, IsChain boot false path l ∧
      mk = msgKey c.toKeyAlg rk l j ∧ Label c cap dh i j) :
    RecvSide c rk boot path cap got (Odict.set store (dh, i) mk) ck Nr dhr := by
  have hsub := Odict.set_held_subset got store (dh, i) mk
  refine ⟨Odict.set_keys_nodup h.keys _ _, Odict.set_held_nodup h.keys h.nodup _,
    h.drop.known, ?_, ?_⟩
  · intro dh' i' mk' he
    rcases Odict.mem_set he with heq | ⟨hmem, -⟩
    · injection heq with h1 h2
      injection h1 with h3 h4
      subst h2 h3 h4
      exact hmk
    · exact h.stored dh' i' mk' hmem
  · intro k₀ hk₀
    obtain ⟨l, k, hl, hk₁, hlab, hlt⟩ := h.cur k₀ hk₀
    exact ⟨l, k, hl, hk₁, hlab, fun j hj => hlt j (hsub hj)⟩

/-- Taking a stored key out moves it into hand. -/
theorem pop {i : Nat} (h : RecvSide c rk boot path cap got store ck Nr dhr)
    (hget : Odict.get? store (dh, i) = some mk) :
    RecvSide c rk boot path cap (mk :: got) (Odict.erase store (dh, i)) ck Nr dhr ∧
      ∃ l j, IsChain boot false path l ∧ mk = msgKey c.toKeyAlg rk l j ∧
        Label c cap dh i j := by
  have hmem := Odict.mem_of_get? hget
  obtain ⟨l, j, hl, hj, hlab⟩ := h.stored dh i mk hmem
  have hsub : (Odict.erase store (dh, i)).Sublist store := List.filter_sublist
  have hall := Odict.erase_held_subperm got hmem
  refine ⟨⟨(h.shrink hsub).keys, Odict.nodup_of_subperm hall h.nodup, ?_,
    (h.shrink hsub).stored, ?_⟩, l, j, hl, hj, hlab⟩
  · intro mk' hmk'
    rcases List.mem_cons.mp hmk' with rfl | hmk'
    · exact ⟨l, j, hl, hj⟩
    · exact h.known mk' hmk'
  · intro k₀ hk₀
    obtain ⟨l', k, hl', hk₁, hlab', hlt⟩ := h.cur k₀ hk₀
    exact ⟨l', k, hl', hk₁, hlab', fun j' hj' => hlt j' (hall.subset hj')⟩

/-- A new root step opens a receiving chain none of whose keys is held or
used. -/
theorem openChain (hk : GoodKdf c.toKeyAlg rk)
    (h : RecvSide c rk boot path cap got store ck Nr dhr)
    (st : RootStep K P) (hst : st.sends = false) (dh : Bytes) :
    RecvSide c rk boot (st :: path) cap got store
      (some (chainHead c.toKeyAlg rk (outputs (st :: path)))) 0 (some dh) where
  keys := h.keys
  nodup := h.nodup
  known := (h.grow st).known
  stored := (h.grow st).stored
  cur := fun k₀ hk₀ => by
    injection hk₀ with hk₀
    refine ⟨outputs (st :: path), 0, hst ▸ IsChain.newest boot st path, hk₀.symm,
      Or.inl rfl, ?_⟩
    intro j hj
    obtain ⟨l, j', hl, he⟩ := h.address hj
    exact absurd (hk.msgKey_inj he).1.symm (hl.ne_newest st)

end RecvSide

end GhostChat.Proofs
