import GhostChat.Lib.Turns
import GhostChat.Proofs.Hearing
import GhostChat.Ref.Lane

/-!
# Headers say where their sender is

In a conversation that keeps its order, a header is a position in what its
sender has sent: `n` counts the messages before it under its key, `pn` those
under the key before. And the key changes where it should: what a party sends
after it has accepted a message under a new remote key carries a key of its own
that it had not sent before.

The counting is that of `Lib/Turns.lean`. What is about this code is the second
part. An engine turns before it knows whether the message will open, so a party
may have turned to a remote key it has accepted nothing under, and may have
sent under the new key since. If a message under that remote key were accepted
later, the law would fail. It never is: between two engines of one session the
first message of a chain opens unless it is too far or finds no room, and then
the whole chain is lost (`Proofs/Hearing.lean`). That the two do agree on the
chain, turn after turn and over any losses, is `Tuned`.
-/

namespace GhostChat.Proofs

open GhostChat.Lib GhostChat.Lib.Effect GhostChat.Lib.Turns GhostChat.Ref

variable {K P C : Type} {c : Crypto K P C} {rk : K} {cap : Nat}

/-! ## The law -/

/-- The header keys of the messages `who` has accepted. -/
def acceptedKeys (who : Party) (log : List (Event K C)) : List Bytes :=
  (delivered who log).map Prod.fst

/-- What the header of a message says of what its sender did before it (newest
first). -/
structure HeaderLaw (who : Party) (before : List (Event K C)) (h : RatchetMessageHeader) :
    Prop where
  /-- Since a first acceptance the key is one not sent before it. -/
  renewed : ∀ w p k earlier, (Event.accepted who w p k :: earlier) <:+ before →
    w.header.dh ∉ acceptedKeys who earlier → h.dh ∉ headerKeys who earlier
  number : h.n = (headerKeys who before).count h.dh
  previous : h.pn = underPrevious h.dh (headerKeys who before)

/-- A call of `ratchet_encrypt` that returns, or a delivery of a message of the
peer's with a higher number than those before it. -/
def Orderly (c : Crypto K P C) (σ : Lane K P C) : LaneAct P → Prop
  | .encrypt who pt => (value? (ratchetEncrypt c pt (σ.pair.engine who))).isSome
  | .deliver who i g => σ.passed who ≤ i ∧ i < (wiresOf who.other σ.pair.log).length ∧
      ∀ x, ∀ p ∈ σ.pair.handed x, c.publicKey p ≠ c.publicKey g

/-! ## The stamps of a party -/

def wireStamp (w : RatchetWireMessage C) : Stamp Bytes := ⟨w.header.dh, w.header.pn, w.header.n⟩

/-- `dhs_public_bytes`, where there is one. -/
def ownKey (c : Crypto K P C) (s : DoubleRatchetState K P) : Bytes :=
  (s.dhsPrivate.map c.publicKey).getD []

def sideAt (c : Crypto K P C) (who : Party) (log : List (Event K C)) (passed : Nat)
    (s : DoubleRatchetState K P) : Side Bytes where
  upcoming := ⟨ownKey c s, s.PN, s.Ns⟩
  remote := s.dhr
  mute := s.sendingChainKey = none ∧ s.dhr = none
  written := (wiresOf who log).map wireStamp
  passed := passed

theorem keys_written (who : Party) (log : List (Event K C)) :
    keys ((wiresOf who log).map wireStamp) = headerKeys who log := by
  rw [keys, wiresOf, headerKeys, List.map_map, List.map_filterMap]
  refine List.filterMap_congr fun e _ => ?_
  cases e with
  | accepted => rfl
  | sent x pt w k =>
      by_cases hx : x = who
      · simp [Event.wireOf, sentKey, wireStamp, hx]
      · simp [Event.wireOf, sentKey, hx]

section Events

variable {who x : Party} {pt p : Bytes} {w : RatchetWireMessage C} {k : K}
  {log : List (Event K C)}

theorem wiresOf_self : wiresOf who (.sent who pt w k :: log) = w :: wiresOf who log :=
  List.filterMap_cons_some (if_pos rfl)

theorem wiresOf_other (h : x ≠ who) : wiresOf who (.sent x pt w k :: log) = wiresOf who log :=
  List.filterMap_cons_none (if_neg h)

end Events

/-! ## One party's book -/

/-- The keys of a party, and the law for what it has sent and what it is about
to send. -/
structure Book (c : Crypto K P C) (who : Party) (handed : List P) (log : List (Event K C))
    (s : DoubleRatchetState K P) : Prop where
  apart : OwnKeys ((sideAt c who log 0 s).upcoming :: (sideAt c who log 0 s).written)
  held : ∀ key, key = ownKey c s ∨ key ∈ headerKeys who log → ∃ p ∈ handed, c.publicKey p = key
  renewed : ∀ w p k earlier, (Event.accepted who w p k :: earlier) <:+ log →
    w.header.dh ∉ acceptedKeys who earlier → ownKey c s ∉ headerKeys who earlier
  law : ∀ pt w k before, (Event.sent who pt w k :: before) <:+ log → HeaderLaw who before w.header

/-- What a returning encryption does to a party that may speak. -/
structure Wrote (c : Crypto K P C) (s : DoubleRatchetState K P) (w : RatchetWireMessage C)
    (s' : DoubleRatchetState K P) : Prop where
  able : ¬ (s.sendingChainKey = none ∧ s.dhr = none)
  header : w.header = { dh := ownKey c s, n := s.Ns, pn := s.PN }
  own : s'.dhsPrivate = s.dhsPrivate
  chain : s'.sendingChainKey.isSome
  count : s'.Ns = s.Ns + 1
  prev : s'.PN = s.PN
  recv : SameRecv s s'

section Book

variable {who : Party} {handed : List P} {log : List (Event K C)} {passed : Nat}
  {s s' : DoubleRatchetState K P} {w : RatchetWireMessage C} {pt p : Bytes} {k : K}
  {e : Event K C} {g : P}

/-- The side of a party after it has sent a message. -/
theorem sideAt_wrote (h : Wrote c s w s') :
    sideAt c who (.sent who pt w k :: log) passed s' = (sideAt c who log passed s).write := by
  have hmute : (s'.sendingChainKey = none ∧ s.dhr = none)
      = (s.sendingChainKey = none ∧ s.dhr = none) := by
    refine propext (iff_of_false (fun hm => ?_) h.able)
    have := h.chain
    rw [hm.1] at this
    cases this
  simp only [sideAt, Side.write, ownKey, h.own, h.count, h.prev, h.recv.dhr, wiresOf_self,
    List.map_cons, wireStamp, h.header, Nat.cast_succ, hmute]

theorem sideAt_passed (hs : SameSend s s') (hd : s'.dhr = s.dhr) {log' : List (Event K C)}
    (hw : wiresOf who log' = wiresOf who log) (i : Nat) :
    sideAt c who log' (i + 1) s' = (sideAt c who log passed s).pass i := by
  simp only [sideAt, Side.pass, ownKey, hs.own, hs.counter, hs.prev, hs.chain, hd, hw]

theorem sideAt_turned {s₁ : DoubleRatchetState K P} {Y : Bytes} (hs : SameSend s₁ s')
    (hd : s'.dhr = some Y) (hN : s₁.Ns = 0) (hP : s₁.PN = s.Ns) {log' : List (Event K C)}
    (hw : wiresOf who log' = wiresOf who log) (i : Nat) :
    sideAt c who log' (i + 1) s' = (sideAt c who log passed s).turn Y (ownKey c s') i := by
  have hmute : (s'.sendingChainKey = none ∧ some Y = none) = False := by
    refine propext (iff_false_intro fun h => ?_)
    cases h.2
  simp only [sideAt, Side.turn, hs.counter, hs.prev, hN, hP, hd, hw, hmute, Nat.cast_zero]

theorem ownKey_congr (h : s'.dhsPrivate = s.dhsPrivate) : ownKey c s' = ownKey c s := by
  rw [ownKey, ownKey, h]

namespace Book

theorem mem_headerKeys {earlier : List (Event K C)} (h : earlier <:+ log) {key : Bytes}
    (hkey : key ∈ headerKeys who earlier) : key ∈ headerKeys who log :=
  (h.filterMap _).subset hkey

/-- The next message continues the book. -/
theorem next (h : Book c who handed log s)
    (hnum : Poised (sideAt c who log passed s)) :
    HeaderLaw who log { dh := ownKey c s, n := s.Ns, pn := s.PN } := by
  obtain ⟨hcount, hprev⟩ := hnum.counted h.apart
  simp only [sideAt, keys_written] at hcount hprev
  exact ⟨h.renewed, hcount, hprev⟩

theorem write (h : Book c who handed log s) (hnum : Poised (sideAt c who log passed s))
    (hw : Wrote c s w s') : Book c who handed (.sent who pt w k :: log) s' where
  apart := by
    have hside : sideAt c who (.sent who pt w k :: log) 0 s' = (sideAt c who log 0 s).write :=
      sideAt_wrote hw
    rw [hside]
    refine ⟨fun hz => ?_, h.apart⟩
    have hz : (s.Ns : Int) + 1 = 0 := hz
    omega
  held := fun key hkey => by
    rw [ownKey_congr hw.own, headerKeys_self, hw.header] at hkey
    exact h.held key (hkey.elim Or.inl fun hmem => List.mem_cons.mp hmem)
  renewed := fun w' p' k' earlier hsuf hnew => by
    rw [ownKey_congr hw.own]
    rcases List.suffix_cons_iff.mp hsuf with he | hsuf
    · cases he
    · exact h.renewed w' p' k' earlier hsuf hnew
  law := fun pt' w' k' before hsuf => by
    rcases List.suffix_cons_iff.mp hsuf with he | hsuf
    · cases he
      rw [hw.header]
      exact h.next hnum
    · exact h.law pt' w' k' before hsuf

/-- What the other party does is not in the book. -/
theorem other (h : Book c who handed log s)
    (hw : wiresOf who (e :: log) = wiresOf who log)
    (hsent : ∀ pt w k, e ≠ .sent who pt w k) (hacc : ∀ w p k, e ≠ .accepted who w p k) :
    Book c who handed (e :: log) s where
  apart := by
    have := h.apart
    rw [sideAt] at this ⊢
    rw [hw]
    exact this
  held := by
    rw [← keys_written, hw, keys_written]
    exact h.held
  renewed := fun w' p' k' earlier hsuf => by
    rcases List.suffix_cons_iff.mp hsuf with he | hsuf
    · injection he with he _
      exact absurd he.symm (hacc w' p' k')
    · exact h.renewed w' p' k' earlier hsuf
  law := fun pt' w' k' before hsuf => by
    rcases List.suffix_cons_iff.mp hsuf with he | hsuf
    · injection he with he _
      exact absurd he.symm (hsent pt' w' k')
    · exact h.law pt' w' k' before hsuf

/-- An acceptance. A first one finds a key that was not sent before. -/
theorem accept (h : Book c who handed log s)
    (hnew : w.header.dh ∉ acceptedKeys who log → ownKey c s ∉ headerKeys who log) :
    Book c who handed (.accepted who w p k :: log) s where
  apart := h.apart
  held := h.held
  renewed := fun w' p' k' earlier hsuf hnew' => by
    rcases List.suffix_cons_iff.mp hsuf with he | hsuf
    · cases he
      exact hnew hnew'
    · exact h.renewed w' p' k' earlier hsuf hnew'
  law := fun pt' w' k' before hsuf => by
    rcases List.suffix_cons_iff.mp hsuf with he | hsuf
    · cases he
    · exact h.law pt' w' k' before hsuf

theorem stay (h : Book c who handed log s) (hs : SameSend s s') (g : P) :
    Book c who (g :: handed) log s' where
  apart := by
    have := h.apart
    simp only [sideAt] at this ⊢
    rw [ownKey_congr hs.own, hs.prev, hs.counter]
    exact this
  held := fun key hkey => by
    rw [ownKey_congr hs.own] at hkey
    obtain ⟨p, hp, he⟩ := h.held key hkey
    exact ⟨p, List.mem_cons_of_mem _ hp, he⟩
  renewed := by
    rw [ownKey_congr hs.own]
    exact h.renewed
  law := h.law

/-- A generated key was never sent. -/
theorem new (h : Book c who handed log s) (hg : ∀ p ∈ handed, c.publicKey p ≠ c.publicKey g)
    (hown : s'.dhsPrivate = some g) : ownKey c s' ∉ headerKeys who log := by
  intro hmem
  obtain ⟨p, hp, he⟩ := h.held _ (Or.inr hmem)
  refine hg p hp (he.trans ?_)
  rw [ownKey, hown]
  rfl

theorem turn (h : Book c who handed log s) (hg : ∀ p ∈ handed, c.publicKey p ≠ c.publicKey g)
    (hown : s'.dhsPrivate = some g) : Book c who (g :: handed) log s' where
  apart := by
    refine ⟨fun _ => ?_, h.apart.2⟩
    simp only [sideAt, keys_written]
    exact h.new hg hown
  held := fun key hkey => by
    rcases hkey with rfl | hkey
    · exact ⟨g, List.mem_cons_self, by rw [ownKey, hown]; rfl⟩
    · obtain ⟨p, hp, he⟩ := h.held key (Or.inr hkey)
      exact ⟨p, List.mem_cons_of_mem _ hp, he⟩
  renewed := fun _ _ _ earlier hsuf _ hmem =>
    h.new hg hown (mem_headerKeys ((List.suffix_cons _ earlier).trans hsuf) hmem)
  law := h.law

end Book

end Book

/-! ## What the two agree on -/

/-- The newest chain is the leader's (first). The other party speaks on the one
before, which the leader answers; or it was not spoken to yet. -/
inductive Tuned (c : Crypto K P C) (rk : K) :
    List P → DoubleRatchetState K P → DoubleRatchetState K P → Prop
  | answers {p q : P} {t : List P} {l f : DoubleRatchetState K P}
      (leads : Speaks c rk p (q :: t) l ∨ (Waits c rk p (q :: t) l ∧ l.Ns = 0))
      (remote : l.dhr = some (c.publicKey q)) (follows : Speaks c rk q t f) :
      Tuned c rk (p :: q :: t) l f
  | born {p b : P} {l f : DoubleRatchetState K P} (leads : Speaks c rk p [] l)
      (deaf : l.dhr = none) (waits : Waits c rk b [p] f) (unborn : f.dhr = none)
      (chain : f.receivingChainKey = some (chainKey c.toKeyAlg rk (outs c [p]) 0))
      (counter : f.Nr = 0) (count : f.Ns = 0) (prev : f.PN = 0) : Tuned c rk [p] l f

section Agreement

variable {ks : List P} {s s' l l' f f' : DoubleRatchetState K P} {w : RatchetWireMessage C}
  {pt : Bytes} {k : K} {q p : P} {t : List P}

theorem Speaks.ownKey (h : Speaks c rk q t s) : ownKey c s = c.publicKey q := by
  rw [Proofs.ownKey, h.own]
  rfl

theorem Waits.ownKey {ks : List P} (h : Waits c rk p ks s) : ownKey c s = c.publicKey p := by
  rw [Proofs.ownKey, h.own]
  rfl

theorem Speaks.wrote (hinv : AeadInverse c) (h : Speaks c rk q t s)
    (he : ratchetEncryptKeyed c pt s = .ok (w, k) s') :
    Wrote c s w s' ∧ Speaks c rk q t s' ∧
      (w.header.n.toNat < 2 ^ 32 → Sealed c rk (q :: t) pt w k) := by
  obtain ⟨hhead, hseal, hsp, hNs, hPN, hrecv⟩ := h.sent hinv he
  refine ⟨⟨?_, ?_, hsp.own.trans h.own.symm, ?_, hNs, hPN, hrecv⟩, hsp, ?_⟩
  · rintro ⟨hnone, -⟩
    rw [h.send] at hnone
    cases hnone
  · rw [hhead, h.ownKey]
  · rw [hsp.send]
    rfl
  · rw [hhead]
    exact hseal

theorem Waits.wrote (hinv : AeadInverse c) (hdh : GoodDh c) (h : Waits c rk p (q :: t) s)
    (hN : s.Ns = 0) (hd : s.dhr = some (c.publicKey q))
    (he : ratchetEncryptKeyed c pt s = .ok (w, k) s') :
    Wrote c s w s' ∧ Speaks c rk p (q :: t) s' ∧ Sealed c rk (p :: q :: t) pt w k := by
  obtain ⟨hhead, hseal, hsp, hNs, hPN, hrecv⟩ := h.sent hinv hdh hd he
  refine ⟨⟨?_, ?_, hsp.own.trans h.own.symm, ?_, ?_, hPN, hrecv⟩, hsp, hseal⟩
  · rintro ⟨-, hnone⟩
    rw [hd] at hnone
    cases hnone
  · rw [hhead, h.ownKey, hN]
    rfl
  · rw [hsp.send]
    rfl
  · rw [hNs, hN]

namespace Tuned

theorem leader_sends (hinv : AeadInverse c) (hdh : GoodDh c) (h : Tuned c rk ks l f)
    (he : ratchetEncryptKeyed c pt l = .ok (w, k) l') :
    Wrote c l w l' ∧ Tuned c rk ks l' f ∧
      (w.header.n.toNat < 2 ^ 32 → Sealed c rk ks pt w k) := by
  cases h with
  | answers leads remote follows =>
      rcases leads with hsp | ⟨hwt, hN⟩
      · obtain ⟨hw, hsp', hseal⟩ := hsp.wrote hinv he
        exact ⟨hw, .answers (Or.inl hsp') (hw.recv.dhr.trans remote) follows, hseal⟩
      · obtain ⟨hw, hsp', hseal⟩ := hwt.wrote hinv hdh hN remote he
        exact ⟨hw, .answers (Or.inl hsp') (hw.recv.dhr.trans remote) follows, fun _ => hseal⟩
  | born leads deaf waits unborn chain counter count prev =>
      obtain ⟨hw, hsp', hseal⟩ := leads.wrote hinv he
      exact ⟨hw, .born hsp' (hw.recv.dhr.trans deaf) waits unborn chain counter count prev, hseal⟩

theorem follower_sends (hinv : AeadInverse c) (h : Tuned c rk ks l f)
    (he : ratchetEncryptKeyed c pt f = .ok (w, k) f') :
    Wrote c f w f' ∧ Tuned c rk ks l f' := by
  cases h with
  | answers leads remote follows =>
      obtain ⟨hw, hsp', -⟩ := follows.wrote hinv he
      exact ⟨hw, .answers leads remote hsp'⟩
  | born leads deaf waits unborn chain counter count prev =>
      obtain ⟨e, hmute⟩ := nextSendingKey_mute (c := c) waits.send unborn
      rw [ratchetEncryptKeyed_eq, hmute] at he
      cases he

theorem leader_stays (h : Tuned c rk ks l f) (hs : SameSend l l') (hd : l'.dhr = l.dhr) :
    Tuned c rk ks l' f := by
  cases h with
  | answers leads remote follows =>
      exact .answers (leads.imp (fun hsp => hsp.frame hs)
        fun hwt => ⟨hwt.1.frame hs, hs.counter.trans hwt.2⟩) (hd.trans remote) follows
  | born leads deaf waits unborn chain counter count prev =>
      exact .born (leads.frame hs) (hd.trans deaf) waits unborn chain counter count prev

theorem follower_stays (h : Tuned c rk ks l f) (hs : SameSend f f') (hsome : f.dhr ≠ none) :
    Tuned c rk ks l f' := by
  cases h with
  | answers leads remote follows => exact .answers leads remote (follows.frame hs)
  | born leads deaf waits unborn chain counter count prev => exact absurd unborn hsome

/-- A message under the leader's key, which the follower does not have: it takes
up the leader's chain, and leads. -/
theorem turns (hdh : GoodDh c) (h : Tuned c rk ks l f) (hkey : w.header.dh = ownKey c l)
    (hbegun : 0 < l.Ns) (hr : ¬ Refused f w)
    (hno : f.skippedMessageKeys.has w.header.dh w.header.n.toNat = false)
    (hdhr : f.dhr ≠ some w.header.dh) (g : P) :
    ∃ f₁ own, ratchetDecryptKeyed c w g f = decryptOnChain c w f₁ ∧
      NewChain c rk ks w.header.dh f f₁ ∧ Tuned c rk (own :: ks) f₁ l ∧
      f₁.Ns = 0 ∧ f₁.PN = f.Ns ∧
      (f₁.dhsPrivate = some g ∨ (SameSend f f₁ ∧ l.dhr = none)) := by
  cases h with
  | answers leads remote follows =>
      have hsp := leads.resolve_right fun hwt => Nat.lt_irrefl 0 (hwt.2 ▸ hbegun)
      have hq := hsp.ownKey.symm.trans hkey.symm
      obtain ⟨f₁, hcall, hwaits, hN, hP, hnew⟩ := follows.ratchets hdh hq hr hno hdhr g
      refine ⟨f₁, g, hcall, hnew, .answers (Or.inr ⟨hwaits, hN⟩) ?_ hsp, hN, hP,
        Or.inl hwaits.own⟩
      rw [hnew.remote, hq]
  | born leads deaf waits unborn chain counter count prev =>
      have hq := leads.ownKey.symm.trans hkey.symm
      obtain ⟨f₁, hcall, hsame, hnew⟩ := waits.boots hr hno unborn counter chain g
      have hN := hsame.counter.trans count
      refine ⟨f₁, _, hcall, hnew, .answers (Or.inr ⟨waits.frame hsame, hN⟩) ?_ leads, hN, ?_,
        Or.inr ⟨hsame, deaf⟩⟩
      · rw [hnew.remote, hq]
      · rw [hsame.prev, prev, count]

end Tuned

end Agreement

/-! ## What a party has heard -/

/-- Of the chain of `Y` too much is lost: a message of it was passed that was
too far. -/
def Lost (cap : Nat) (peer : List (Stamp Bytes)) (passed : Nat) (Y : Bytes) : Prop :=
  ∃ i < passed, ∃ st, peer.reverse[i]? = some st ∧ st.key = Y ∧ Fatal cap st.num.toNat

/-- A party that has accepted messages under `acc` only, of a peer that has
stamped `peer`. -/
structure Listens (c : Crypto K P C) (cap : Nat) (acc : List Bytes) (peer : List (Stamp Bytes))
    (passed : Nat) (s : DoubleRatchetState K P) : Prop where
  bounded : Bounded c.toKeyAlg cap s
  chain : s.dhr.isSome → s.receivingChainKey.isSome
  deaf : s.dhr = none → acc = []
  stored : ∀ id ∈ Odict.keys s.skippedMessageKeys.store, id.1 ∈ acc
  /-- Where it has turned and accepted nothing, it never will. -/
  heard : ∀ Y, s.dhr = some Y → Y ∈ acc ∨ (s.Nr = 0 ∧ Lost cap peer passed Y)

section Listens

variable {acc : List Bytes} {peer : List (Stamp Bytes)} {passed i : Nat}
  {s s' s₁ : DoubleRatchetState K P} {w : RatchetWireMessage C} {pt : Bytes} {k : K} {g : P}
  {ks : List P} {Y : Bytes}

theorem Lost.later (h : Lost cap peer passed Y) {passed' : Nat} (hle : passed ≤ passed') :
    Lost cap peer passed' Y := by
  obtain ⟨i, hi, hst⟩ := h
  exact ⟨i, Nat.lt_of_lt_of_le hi hle, hst⟩

theorem Lost.longer (h : Lost cap peer passed Y) (st : Stamp Bytes) :
    Lost cap (st :: peer) passed Y := by
  obtain ⟨i, hi, st', hget, hst⟩ := h
  refine ⟨i, hi, st', ?_, hst⟩
  rw [List.reverse_cons, List.getElem?_append_left (List.getElem?_eq_some_iff.mp hget).1]
  exact hget

/-- What comes later on a lost chain is as far away. -/
theorem Lost.fatal (h : Lost cap peer passed w.header.dh) (hnum : Numbered peer)
    (hown : OwnKeys peer) (hi : passed ≤ i) (hnote : peer.reverse[i]? = some (wireStamp w)) :
    Fatal cap w.header.n.toNat := by
  obtain ⟨j, hj, st, hget, hkey, hfatal⟩ := h
  have hlt := hnum.climbs hown hget hnote (Nat.lt_of_lt_of_le hj hi) hkey
  refine hfatal.later ?_
  have : st.num < w.header.n := hlt
  omega

namespace Listens

theorem frame (h : Listens c cap acc peer passed s) (hs : SameRecv s s') :
    Listens c cap acc peer passed s' where
  bounded := h.bounded.moved hs.skipped hs.ids
  chain := by
    rw [hs.dhr, hs.chain]
    exact h.chain
  deaf := by
    rw [hs.dhr]
    exact h.deaf
  stored := by
    rw [hs.skipped]
    exact h.stored
  heard := by
    rw [hs.dhr, hs.counter]
    exact h.heard

theorem longer (h : Listens c cap acc peer passed s) (st : Stamp Bytes) :
    Listens c cap acc (st :: peer) passed s :=
  { h with heard := fun Y hY => (h.heard Y hY).imp_right fun hl => ⟨hl.1, hl.2.longer st⟩ }

theorem later (h : Listens c cap acc peer passed s) {passed' : Nat} (hle : passed ≤ passed') :
    Listens c cap acc peer passed' s :=
  { h with heard := fun Y hY => (h.heard Y hY).imp_right fun hl => ⟨hl.1, hl.2.later hle⟩ }

/-- One more acceptance under a key accepted before. -/
theorem again (h : Listens c cap acc peer passed s) (hY : Y ∈ acc) :
    Listens c cap (Y :: acc) peer passed s where
  bounded := h.bounded
  chain := h.chain
  deaf := fun hd => by
    rw [h.deaf hd] at hY
    cases hY
  stored := fun id hid => List.mem_cons_of_mem _ (h.stored id hid)
  heard := fun Z hZ => (h.heard Z hZ).imp_left (List.mem_cons_of_mem _)

theorem stays {dh : Option Bytes} (h : Listens c cap acc peer passed s) (hs : Stays dh s s')
    (hb : Bounded c.toKeyAlg cap s') (hacc : ∀ d, dh = some d → d ∈ acc)
    (hheard : ∀ Y, s.dhr = some Y → Y ∈ acc ∨ s'.Nr = s.Nr) :
    Listens c cap acc peer passed s' where
  bounded := hb
  chain := fun hd => hs.chain (h.chain (hs.remote ▸ hd))
  deaf := fun hd => h.deaf (hs.remote ▸ hd)
  stored := fun id hid => (hs.stored id hid).elim (fun hd => hacc id.1 hd) (h.stored id)
  heard := fun Y hY => by
    have hY := hs.remote.symm.trans hY
    rcases hheard Y hY with hmem | hNr
    · exact Or.inl hmem
    · rw [hNr]
      exact h.heard Y hY

/-- A call that does not turn accepts only under keys accepted before. -/
theorem hears (hlen : ∀ i s f b, (c.bytes (c.hkdf i s f b)).length = 32)
    (h : Listens c cap acc peer passed s) (hnum : Numbered peer) (hown : OwnKeys peer)
    (hi : passed ≤ i) (hnote : peer.reverse[i]? = some (wireStamp w))
    (hsame : Refused s w ∨ s.skippedMessageKeys.has w.header.dh w.header.n.toNat = true ∨
      s.dhr = some w.header.dh) (g : P) :
    ∃ dh, Stays dh s (after (ratchetDecryptKeyed c w g s)) ∧
      Listens c cap acc peer passed (after (ratchetDecryptKeyed c w g s)) ∧
      (w.header.dh ∈ acc ∨ ∃ e s', ratchetDecryptKeyed c w g s = .error e s' ∧
        (s' = s ∨ s.dhr ≠ none)) := by
  have hb : Bounded c.toKeyAlg cap (after (ratchetDecryptKeyed c w g s)) :=
    ratchetDecryptKeyed_bounded s h.bounded
  by_cases hr : Refused s w
  · obtain ⟨e, he⟩ := decrypt_refused (c := c) (g := g) hr
    rw [he]
    exact ⟨none, Stays.refl _ s, h, Or.inr ⟨e, s, rfl, Or.inl rfl⟩⟩
  · cases hhas : s.skippedMessageKeys.has w.header.dh w.header.n.toNat with
    | true =>
        obtain ⟨hNr, hs⟩ := decrypt_stored (c := c) hr hhas g
        exact ⟨none, hs, h.stays hs hb nofun fun _ _ => Or.inr hNr,
          Or.inl (h.stored _ (Odict.has_iff.mp hhas))⟩
    | false =>
        have hd := (hsame.resolve_left hr).resolve_left (by rw [hhas]; nofun)
        have hck := h.chain (by rw [hd]; rfl)
        rcases h.heard _ hd with hacc | ⟨hNr, hlost⟩
        · have hs := decrypt_same hlen hr hhas hd hck g
          refine ⟨_, hs, h.stays hs hb (fun d he => ?_) (fun Y hY => ?_), Or.inl hacc⟩
          · cases he
            exact hacc
          · rw [hd] at hY
            cases hY
            exact Or.inl hacc
        · have hfatal := hlost.fatal hnum hown hi hnote
          rw [← h.bounded.skipped.room] at hfatal
          obtain ⟨e, s', he, hNr', hs⟩ := decrypt_fatal hlen hr hhas hd hck hNr hfatal g
          rw [he] at hb ⊢
          exact ⟨none, hs, h.stays hs hb nofun fun _ _ => Or.inr (hNr'.trans hNr.symm),
            Or.inr ⟨e, s', rfl, Or.inr (by rw [hd]; nofun)⟩⟩

/-- A call that turns accepts, or the chain it has turned to is lost. -/
theorem turned (hlen : ∀ i s f b, (c.bytes (c.hkdf i s f b)).length = 32) (hdh : GoodDh c)
    (h : Listens c cap acc peer passed s) (hr : ¬ Refused s w)
    (hnew : NewChain c rk ks w.header.dh s s₁)
    (hcall : ratchetDecryptKeyed c w g s = decryptOnChain c w s₁)
    (hnote : peer.reverse[i]? = some (wireStamp w))
    (hsealed : w.header.n.toNat < 2 ^ 32 → ∃ pt k, Sealed c rk ks pt w k) :
    Stays (some w.header.dh) s₁ (after (ratchetDecryptKeyed c w g s)) ∧
      ((∃ e s', ratchetDecryptKeyed c w g s = .error e s' ∧
          Listens c cap acc peer (i + 1) s') ∨
        ∃ pt k s', ratchetDecryptKeyed c w g s = .ok (pt, k) s' ∧
          Listens c cap (w.header.dh :: acc) peer (i + 1) s') := by
  have hb : Bounded c.toKeyAlg cap (after (ratchetDecryptKeyed c w g s)) :=
    ratchetDecryptKeyed_bounded s h.bounded
  have hdlen := (checkHeader_ok (not_refused hr).1).1
  have hck : s₁.receivingChainKey.isSome := by
    rw [hnew.chain]
    rfl
  have hs := decryptOnChain_stays hlen hdlen hnew.remote hck (Stays.refl (some w.header.dh) s₁)
  have hroom : s₁.skippedMessageKeys.maxKeys = cap := by
    rw [hnew.skipped]
    exact h.bounded.skipped.room
  rw [hcall] at hb ⊢
  refine ⟨hs, ?_⟩
  by_cases hfatal : Fatal cap w.header.n.toNat
  · obtain ⟨e, s', he, hNr, hs'⟩ := decryptOnChain_fatal hlen hdlen hnew.remote hck hnew.counter
      (hroom.symm ▸ hfatal)
    rw [he] at hb
    refine Or.inl ⟨e, s', he, hb, fun _ => hs'.chain hck, fun hd => ?_, fun id hid => ?_,
      fun Y hY => ?_⟩
    · rw [hs'.remote, hnew.remote] at hd
      cases hd
    · have hold := (hs'.stored id hid).resolve_left nofun
      rw [hnew.skipped] at hold
      exact h.stored id hold
    · rw [hs'.remote, hnew.remote] at hY
      cases hY
      exact Or.inr ⟨hNr, i, Nat.lt_succ_self i, _, hnote, rfl, hfatal⟩
  · have hshort : w.header.n.toNat < 2 ^ 32 := by
      have : w.header.n.toNat ≤ 5000 := Nat.le_of_not_lt fun hlt => hfatal (Or.inl hlt)
      omega
    obtain ⟨pt, k, hseal⟩ := hsealed hshort
    have hcache : 0 < s₁.receivedIds.maxSize := by
      rw [hnew.ids, h.bounded.received.room]
      decide
    obtain ⟨s', he⟩ := decryptOnChain_lively hlen hdh hseal hnew.remote hnew.counter hnew.chain
      hcache (hroom.symm ▸ hfatal)
    rw [he] at hb hs
    refine Or.inr ⟨pt, k, s', he, hb, fun _ => hs.chain hck, fun hd => ?_, fun id hid => ?_,
      fun Y hY => ?_⟩
    · have := hs.remote.symm.trans hd
      rw [hnew.remote] at this
      cases this
    · rcases hs.stored id hid with he | hold
      · rw [Option.some.inj he]
        exact List.mem_cons_self
      · rw [hnew.skipped] at hold
        exact List.mem_cons_of_mem _ (h.stored id hold)
    · have := hs.remote.symm.trans hY
      rw [hnew.remote] at this
      cases this
      exact Or.inl List.mem_cons_self

end Listens

end Listens

end GhostChat.Proofs
