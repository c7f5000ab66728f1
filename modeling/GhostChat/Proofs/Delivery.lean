import GhostChat.Proofs.Conversation

/-!
# The invariant of an honest pair

One party leads: the newest chain `q :: t` is its own. The other follows. The
two-party invariant `Conv` is the mail, the two positions, and that all keys
in play are distinct; it is kept by every honest step, and it is what makes a
delivery succeed.
-/

namespace GhostChat.Proofs

open GhostChat.Lib GhostChat.Lib.Effect GhostChat.Lib.Window GhostChat.Ref

variable {K P C : Type} {c : Crypto K P C} {rk : K} {cap : Nat}

/-- A party speaking on `q :: t`, its counters in step with the log. -/
structure Talks (c : Crypto K P C) (rk : K) (cap : Nat) (log : List (Event K C))
    (who : Party) (q : P) (t : List P) (s : DoubleRatchetState K P) : Prop where
  speaks : Speaks c rk q t s
  hears : Hears c rk cap t (delivered who log) s
  count : s.Ns = (numbers who (c.publicKey q) log).length
  prev : s.PN = prevCount c who log t
  begun : ∀ q' t', t = q' :: t' → ∃ n, (c.publicKey q', n) ∈ delivered who log

/-- The positions of the party that does not lead. -/
inductive Follows (c : Crypto K P C) (rk : K) (cap : Nat) (held : P → Prop)
    (log : List (Event K C)) (who : Party) (q : P) (t : List P)
    (s : DoubleRatchetState K P) : Prop where
  | behind (q' : P) (t' : List P) (ht : t = q' :: t')
      (talks : Talks c rk cap log who q' t' s)
  | heard (p : P) (waits : Waits c rk p (q :: t) s)
      (hears : Hears c rk cap (q :: t) (delivered who log) s)
      (prev : s.PN = prevCount c who log (q :: t))
      (begun : ∃ n, (c.publicKey q, n) ∈ delivered who log)
      (new : c.publicKey p ∉ (q :: t).map c.publicKey) (hp : held p)
  | born (p : P) (ht : t = []) (waits : Waits c rk p [q] s)
      (hears : Hears c rk cap [] (delivered who log) s) (hNr : s.Nr = 0)
      (hck : s.receivingChainKey = some (chainKey c.toKeyAlg rk (outs c [q]) 0))
      (prev : s.PN = 0) (new : c.publicKey p ∉ [c.publicKey q]) (hp : held p)

/-- Some generator call gave this key out. -/
def Held (σ : Pair K P C) (x : P) : Prop := ∃ who, x ∈ σ.handed who

structure Conv (c : Crypto K P C) (rk : K) (cap : Nat) (σ : Pair K P C) (q : P)
    (t : List P) : Prop where
  distinct : ((q :: t).map c.publicKey).Nodup
  held : ∀ x ∈ q :: t, Held σ x
  mail : Mail c rk (q :: t) σ.log
  leads : Talks c rk cap σ.log (owner (q :: t)) q t (σ.engine (owner (q :: t)))
  follows : Follows c rk cap (Held σ) σ.log (owner (q :: t)).other q t
    (σ.engine (owner (q :: t)).other)

/-! ## Frames -/

section Frames

variable {log log' : List (Event K C)} {who : Party} {q : P} {t : List P}
  {s : DoubleRatchetState K P}

theorem prevCount_congr (h : ∀ d, numbers who d log' = numbers who d log) (t : List P) :
    prevCount c who log' t = prevCount c who log t := by
  match t with
  | [] => rfl
  | [_] => rfl
  | _ :: z :: _ => exact congrArg List.length (h _)

/-- Events of the other party are nothing to this one. -/
theorem Talks.frame (h : Talks c rk cap log who q t s)
    (hD : delivered who log' = delivered who log)
    (hN : ∀ d, numbers who d log' = numbers who d log) :
    Talks c rk cap log' who q t s := by
  refine ⟨h.speaks, ?_, ?_, ?_, ?_⟩
  · rw [hD]; exact h.hears
  · rw [hN]; exact h.count
  · rw [prevCount_congr hN]; exact h.prev
  · rw [hD]; exact h.begun

theorem Follows.frame {held held' : P → Prop}
    (h : Follows c rk cap held log who q t s) (hheld : ∀ x, held x → held' x)
    (hD : delivered who log' = delivered who log)
    (hN : ∀ d, numbers who d log' = numbers who d log) :
    Follows c rk cap held' log' who q t s := by
  cases h with
  | behind q' t' ht talks => exact .behind q' t' ht (talks.frame hD hN)
  | heard p waits hears prev begun new hp =>
      refine .heard p waits ?_ ?_ ?_ new (hheld p hp)
      · rw [hD]; exact hears
      · rw [prevCount_congr hN]; exact prev
      · rw [hD]; exact begun
  | born p ht waits hears hNr hck prev new hp =>
      refine .born p ht waits ?_ hNr hck prev new (hheld p hp)
      rw [hD]; exact hears

/-- A message under the key on top does not count for the chains below. -/
theorem prevCount_sent {pt : Bytes} {w : RatchetWireMessage C} {k : K}
    (hnd : ((q :: t).map c.publicKey).Nodup) (hw : w.header.dh = c.publicKey q) :
    prevCount c who (.sent who pt w k :: log) t = prevCount c who log t := by
  match t with
  | [] => rfl
  | [_] => rfl
  | y :: z :: u =>
      show (numbers _ _ _).length = _
      rw [numbers_other]
      · rfl
      · rintro ⟨-, he⟩
        rw [hw] at he
        simp only [List.map_cons, List.nodup_cons, List.mem_cons, not_or] at hnd
        exact hnd.1.2.1 he

end Frames

/-! ## Encrypting -/

/-- A party on a chain of its own encrypts: the mail grows, the party's
counters follow. -/
theorem Talks.post (hlen : ∀ i s f b, (c.bytes (c.hkdf i s f b)).length = 32)
    {ks : List P} {log : List (Event K C)} {who : Party} {q : P} {t : List P}
    {s : DoubleRatchetState K P} {pt : Bytes} (h : Talks c rk cap log who q t s)
    (hm : Mail c rk ks log) (hnd : (ks.map c.publicKey).Nodup) (hsuf : (q :: t) <:+ ks)
    (hown : owner (q :: t) = who)
    (hnewest : ∀ q' t', (q' :: t') <:+ ks → owner (q' :: t') = who →
      (q' :: t') <:+ (q :: t))
    (hpt : AeadWorks c pt) (hN : s.Ns < 2 ^ 32) :
    ∃ w k s', ratchetEncryptKeyed c pt s = .ok (w, k) s' ∧
      Mail c rk ks (.sent who pt w k :: log) ∧
      Talks c rk cap (.sent who pt w k :: log) who q t s' := by
  obtain ⟨w, k, s', henc, hhead, hseal, hsp, hNs, hPN, hrecv⟩ :=
    h.speaks.encrypt hlen hpt hN
  have hdh : w.header.dh = c.publicKey q := by rw [hhead]
  have hnum : w.header.n.toNat = s.Ns := by rw [hhead]; rfl
  have hpn : w.header.pn = prevCount c who log t := by rw [hhead, ← h.prev]
  have hnd' : ((q :: t).map c.publicKey).Nodup := hnd.sublist (hsuf.sublist.map _)
  refine ⟨w, k, s', henc, hm.post hnd hsuf hown hnewest hseal ?_ hpn,
    ⟨hsp, h.hears.frame hrecv, ?_, ?_, h.begun⟩⟩
  · rw [hnum, hdh]
    exact h.count
  · rw [hNs, h.count, ← hdh, numbers_self]
    rfl
  · rw [hPN, prevCount_sent hnd' hdh]
    exact h.prev

theorem step_encrypt_ok {σ : Pair K P C} {who : Party} {pt : Bytes}
    {w : RatchetWireMessage C} {k : K} {s : DoubleRatchetState K P}
    (h : ratchetEncryptKeyed c pt (σ.engine who) = .ok (w, k) s) :
    σ.step c (.encrypt who pt) = { σ with
      engine := Function.update σ.engine who s
      log := .sent who pt w k :: σ.log } := by
  simp only [Pair.step, h]

theorem step_decrypt_ok {σ : Pair K P C} {who : Party} {msg : RatchetWireMessage C}
    {g : P} {p : Bytes} {k : K} {s : DoubleRatchetState K P}
    (h : ratchetDecryptKeyed c msg g (σ.engine who) = .ok (p, k) s) :
    σ.step c (.decrypt who msg g) = { σ with
      engine := Function.update σ.engine who s
      handed := Function.update σ.handed who (g :: σ.handed who)
      log := .accepted who msg p k :: σ.log } := by
  simp only [Pair.step, h]

/-- An honest encryption returns and keeps the invariant. -/
theorem Conv.encrypt (hlen : ∀ i s f b, (c.bytes (c.hkdf i s f b)).length = 32)
    (hdh : GoodDh c) {σ : Pair K P C} {q : P} {t : List P} (h : Conv c rk cap σ q t)
    {who : Party} {pt : Bytes} (hh : HonestStep c cap σ (.encrypt who pt)) :
    ∃ q' t', Conv c rk cap (σ.step c (.encrypt who pt)) q' t' ∧
      ∃ w k s', ratchetEncryptKeyed c pt (σ.engine who) = .ok (w, k) s' := by
  obtain ⟨hcan, hN, hpt⟩ := hh
  have hnew : ∀ {x y : Party} {w : RatchetWireMessage C} {k : K}, x ≠ y → ∀ d,
      numbers y d (.sent x pt w k :: σ.log) = numbers y d σ.log :=
    fun hne d => numbers_other fun he => hne he.1
  rcases Party.eq_or_other who (owner (q :: t)) with rfl | rfl
  · -- The leader goes on.
    obtain ⟨w, k, s', henc, hmail, htalk⟩ := h.leads.post hlen h.mail h.distinct
      (List.suffix_refl _) rfl (fun _ _ hs _ => hs) hpt hN
    refine ⟨q, t, ?_, w, k, s', henc⟩
    rw [step_encrypt_ok henc]
    refine ⟨h.distinct, h.held, hmail, ?_, ?_⟩
    · simp only [Function.update_self]
      exact htalk
    · simp only [Function.update_of_ne (Party.other_ne _)]
      exact h.follows.frame (fun _ hx => hx) rfl (hnew (Party.ne_other _))
  · cases h.follows with
    | behind q' t' ht talks =>
        subst ht
        obtain ⟨w, k, s', henc, hmail, htalk⟩ := talks.post hlen h.mail h.distinct
          (List.suffix_cons _ _) (by simp [owner]) (fun q₁ t₁ hs hown => by
            rcases List.suffix_cons_iff.mp hs with he | hs
            · rw [he] at hown
              exact absurd hown (Party.ne_other _)
            · exact hs) hpt hN
        refine ⟨q, q' :: t', ?_, w, k, s', henc⟩
        rw [step_encrypt_ok henc]
        refine ⟨h.distinct, h.held, hmail, ?_, ?_⟩
        · simp only [Function.update_of_ne (Party.ne_other _)]
          exact h.leads.frame rfl (hnew (Party.other_ne _))
        · simp only [Function.update_self]
          exact .behind q' t' rfl htalk
    | heard p waits hears prev begun new hp =>
        -- The follower opens the next chain and leads.
        obtain ⟨w, k, s', henc, hhead, hseal, hsp, hNs, hPN, hrecv⟩ :=
          waits.encrypt hlen hdh hears.remote hpt
        have hw : w.header.dh = c.publicKey p := by rw [hhead]
        have hnd : ((p :: q :: t).map c.publicKey).Nodup :=
          List.nodup_cons.mpr ⟨new, h.distinct⟩
        have hzero := h.mail.numbers_new new (owner (q :: t)).other
        have hn : w.header.n.toNat
            = (numbers (owner (q :: t)).other w.header.dh σ.log).length := by
          rw [hhead, hzero]
          rfl
        have hpn : w.header.pn = prevCount c (owner (q :: t)).other σ.log (q :: t) := by
          rw [hhead, ← prev]
        have hmail : Mail c rk (p :: q :: t) (.sent (owner (q :: t)).other pt w k :: σ.log) :=
          (h.mail.grow new).post hnd (List.suffix_refl _) rfl (fun _ _ hs _ => hs) hseal hn
            hpn
        refine ⟨p, q :: t, ?_, w, k, s', henc⟩
        rw [step_encrypt_ok henc]
        refine ⟨hnd, fun x hx => ?_, hmail, ?_, ?_⟩
        · rcases List.mem_cons.mp hx with rfl | hx
          · exact hp
          · exact h.held x hx
        · show Talks c rk cap _ (owner (q :: t)).other p (q :: t) _
          simp only [owner, Function.update_self]
          refine ⟨hsp, hears.frame hrecv, ?_, ?_, fun q' t' he => ?_⟩
          · rw [hNs, ← hw, numbers_self, hw]
            exact congrArg (· + 1) (congrArg List.length hzero).symm
          · rw [hPN, prevCount_sent hnd hw]
            exact prev
          · injection he with he _
            rw [← he]
            exact begun
        · refine .behind q t rfl ?_
          have hoo : (owner (p :: q :: t)).other = owner (q :: t) := Party.other_other _
          rw [hoo]
          simp only [Function.update_of_ne (Party.ne_other _)]
          exact h.leads.frame rfl (hnew (Party.other_ne _))
    | born p ht waits hears hNr hck prev new hp =>
        -- A responder that has heard nothing has no way to send.
        rcases hcan with hcan | hcan
        · rw [waits.send] at hcan
          cases hcan
        · rw [hears.remote] at hcan
          cases hcan

/-! ## Decrypting -/

section Decrypt

variable {σ : Pair K P C} {q q₁ x : P} {t t₁ u : List P} {who : Party}
  {w : RatchetWireMessage C} {pt : Bytes} {k : K}

/-- A message not accepted before is not in the list of deliveries. -/
theorem Mail.undelivered {ks : List P} (h : Mail c rk ks σ.log)
    (hsent : Event.sent who.other pt w k ∈ σ.log)
    (hnot : ∀ p k, Event.accepted who w p k ∉ σ.log) :
    (w.header.dh, w.header.n.toNat) ∉ delivered who σ.log := by
  intro hm
  obtain ⟨w', p', k', hacc, hid⟩ := mem_delivered.mp hm
  obtain ⟨k'', hsent'⟩ := h.accepted hacc
  injection hid with hd hn
  obtain rfl := h.unique hsent' hsent hd hn
  exact hnot p' k' hacc

/-- What the order of an honest run gives: the message is pending, or its
chain is not older than the newest one heard. -/
theorem Conv.order (h : Conv c rk cap σ q t)
    (hsent : Event.sent who.other pt w k ∈ σ.log)
    (hnot : ∀ p k, Event.accepted who w p k ∉ σ.log) (ho : InOrder σ who w)
    (hsuf₁ : (q₁ :: t₁) <:+ q :: t) (hw : c.publicKey q₁ = w.header.dh)
    (hsuf : (x :: u) <:+ q :: t) (hbegun : ∃ n, (c.publicKey x, n) ∈ delivered who σ.log) :
    (w.header.dh, w.header.n.toNat) ∈ pending (delivered who σ.log) ∨
      (x :: u) <:+ q₁ :: t₁ := by
  rcases ho with hrank | ⟨m, hm, hmem⟩
  · obtain ⟨n, hn⟩ := hbegun
    obtain ⟨w', p', k', hacc, hid⟩ := mem_delivered.mp hn
    obtain ⟨k'', hsent'⟩ := h.mail.accepted hacc
    injection hid with hd _
    exact Or.inr (h.mail.older_of_rank h.distinct
      (mem_headerKeys.mpr ⟨p', w', k'', hsent', hd⟩)
      (mem_headerKeys.mpr ⟨pt, w, k, hsent, rfl⟩) (hrank _ hn) x u q₁ t₁ hsuf hsuf₁ rfl hw)
  · exact Or.inl (mem_pending.mpr ⟨h.mail.undelivered hsent hnot, m, hm, hmem⟩)

theorem suffix_antisymm {a b : List P} (h : a <:+ b) (h' : b <:+ a) : a = b :=
  h.eq_of_length (Nat.le_antisymm h.length_le h'.length_le)

/-- The new key is none of those in play. -/
theorem Conv.fresh (h : Conv c rk cap σ q t) {g : P}
    (hf : FreshKeys c σ (.decrypt who w g)) : c.publicKey g ∉ (q :: t).map c.publicKey := by
  intro hm
  obtain ⟨y, hy, he⟩ := List.mem_map.mp hm
  obtain ⟨z, hz⟩ := h.held y hy
  exact hf z y hz he

theorem held_mono {g y : P} (h : Held σ y) {s : DoubleRatchetState K P}
    {log : List (Event K C)} :
    Held ⟨Function.update σ.engine who s,
      Function.update σ.handed who (g :: σ.handed who), log⟩ y := by
  obtain ⟨z, hz⟩ := h
  refine ⟨z, ?_⟩
  by_cases hzw : z = who
  · subst hzw
    simp only [Function.update_self]
    exact List.mem_cons_of_mem _ hz
  · simp only [Function.update_of_ne hzw]
    exact hz

/-- The receiving half of a party that stays where it is. -/
theorem Talks.receive {log : List (Event K C)} {s s' : DoubleRatchetState K P}
    (h : Talks c rk cap log who q t s) (hsend : SameSend s s')
    (hh : Hears c rk cap t ((w.header.dh, w.header.n.toNat) :: delivered who log) s') :
    Talks c rk cap (.accepted who w pt k :: log) who q t s' := by
  refine ⟨h.speaks.frame hsend, ?_, hsend.counter.trans h.count, ?_, fun q' t' he => ?_⟩
  · rw [delivered_self]
    exact hh
  · rw [hsend.prev, h.prev]
    exact (prevCount_congr (fun _ => rfl) t).symm
  · obtain ⟨n, hn⟩ := h.begun q' t' he
    exact ⟨n, by rw [delivered_self]; exact List.mem_cons_of_mem _ hn⟩

/-- The key generated for a delivery is held from then on, like the others. -/
theorem held_new {g y : P} (h : Held σ y ∨ y = g) {s : DoubleRatchetState K P}
    {log : List (Event K C)} :
    Held ⟨Function.update σ.engine who s,
      Function.update σ.handed who (g :: σ.handed who), log⟩ y := by
  rcases h with h | rfl
  · exact held_mono h
  · refine ⟨who, ?_⟩
    simp only [Function.update_self]
    exact List.mem_cons_self

/-- A delivery to the leader leaves the follower alone. -/
theorem Conv.leader_hears (h : Conv c rk cap σ q t) {g : P} {s' : DoubleRatchetState K P}
    (hsent : Event.sent (owner (q :: t)).other pt w k ∈ σ.log)
    (hdec : ratchetDecryptKeyed c w g (σ.engine (owner (q :: t))) = .ok (pt, k) s')
    (htalks : Talks c rk cap (.accepted (owner (q :: t)) w pt k :: σ.log) (owner (q :: t)) q t
      s') : Conv c rk cap (σ.step c (.decrypt (owner (q :: t)) w g)) q t := by
  rw [step_decrypt_ok hdec]
  refine ⟨h.distinct, fun y hy => held_mono (h.held y hy), h.mail.receive hsent, ?_, ?_⟩
  · simp only [Function.update_self]
    exact htalks
  · simp only [Function.update_of_ne (Party.other_ne _)]
    exact h.follows.frame (fun _ hx => held_mono hx) (delivered_other (Party.ne_other _))
      (fun _ => rfl)

/-- A delivery to the follower leaves the leader alone. -/
theorem Conv.follower_hears (h : Conv c rk cap σ q t) {g : P} {s' : DoubleRatchetState K P}
    (hsent : Event.sent (owner (q :: t)) pt w k ∈ σ.log)
    (hdec : ratchetDecryptKeyed c w g (σ.engine (owner (q :: t)).other) = .ok (pt, k) s')
    (hfollows : Follows c rk cap (fun x => Held σ x ∨ x = g)
      (.accepted (owner (q :: t)).other w pt k :: σ.log) (owner (q :: t)).other q t s') :
    Conv c rk cap (σ.step c (.decrypt (owner (q :: t)).other w g)) q t := by
  rw [step_decrypt_ok hdec]
  refine ⟨h.distinct, fun y hy => held_mono (h.held y hy),
    h.mail.receive (by rwa [Party.other_other]), ?_, ?_⟩
  · simp only [Function.update_of_ne (Party.ne_other _)]
    exact h.leads.frame (delivered_other (Party.other_ne _)) (fun _ => rfl)
  · simp only [Function.update_self]
    exact hfollows.frame (fun _ hx => held_new hx) rfl (fun _ => rfl)

/-- A chain of the other party below the newest one is somewhere below it. -/
theorem suffix_of_other {ks : List P} (hsuf : (q₁ :: t₁) <:+ q :: ks)
    (hown : owner (q₁ :: t₁) = (owner (q :: ks)).other) :
    ∃ x u, ks = x :: u ∧ (q₁ :: t₁) <:+ x :: u := by
  rcases List.suffix_cons_iff.mp hsuf with he | hs
  · rw [he] at hown
    exact absurd hown (Party.ne_other _)
  · cases ks with
    | nil => simp at hs
    | cons x u => exact ⟨x, u, rfl, hs⟩

/-- An honest delivery returns the plaintext and keeps the invariant. -/
theorem Conv.decrypt (hlen : ∀ i s f b, (c.bytes (c.hkdf i s f b)).length = 32)
    (hdh : GoodDh c) (h : Conv c rk cap σ q t) {g : P}
    (hh : HonestStep c cap σ (.decrypt who w g))
    (hsent : Event.sent who.other pt w k ∈ σ.log) :
    (∃ q' t', Conv c rk cap (σ.step c (.decrypt who w g)) q' t') ∧
      ∃ s', ratchetDecryptKeyed c w g (σ.engine who) = .ok (pt, k) s' := by
  obtain ⟨hfresh, -, hnot, horder, hhi, hcap⟩ := hh
  obtain ⟨q₁, t₁, hsuf₁, hown₁, hw⟩ := h.mail.sealed hsent
  have hq₁ : c.publicKey q₁ = w.header.dh := Option.some.inj hw.dh
  have hD := h.mail.undelivered hsent hnot
  rcases Party.eq_or_other who (owner (q :: t)) with rfl | rfl
  · -- The leader hears the follower's newest chain, which is `t`.
    obtain ⟨x, u, rfl, hsuf⟩ := suffix_of_other hsuf₁ hown₁
    have hor := (h.order hsent hnot horder hsuf₁ hq₁ (List.suffix_cons _ _)
      (h.leads.begun x u rfl)).imp_right (suffix_antisymm hsuf)
    obtain ⟨s', hdec, hsend, hh'⟩ := h.leads.hears.accept hlen hdh
      (h.distinct.sublist ((List.suffix_cons q (x :: u)).sublist.map _)) hsuf hw hD hor hhi
      hcap g
    exact ⟨⟨q, x :: u, h.leader_hears hsent hdec (h.leads.receive hsend hh')⟩, s', hdec⟩
  · rw [Party.other_other] at hown₁
    have hsent' : Event.sent (owner (q :: t)) pt w k ∈ σ.log := by
      rwa [Party.other_other] at hsent
    have hbegun : (c.publicKey q₁, w.header.n.toNat)
        ∈ delivered (owner (q :: t)).other
          (.accepted (owner (q :: t)).other w pt k :: σ.log) := by
      rw [delivered_self, hq₁]
      exact List.mem_cons_self
    cases h.follows with
    | behind q' t' ht talks =>
        subst ht
        rcases List.suffix_cons_iff.mp hsuf₁ with he | hs
        · -- The first message of the leader's newest chain.
          rw [he] at hw
          injection he with he _
          rw [he] at hbegun
          obtain ⟨s', hdec, hwaits, hPN, hh'⟩ := talks.speaks.turn hlen hdh h.distinct
            talks.hears hw hhi hcap g
          refine ⟨⟨q, q' :: t', h.follower_hears hsent' hdec ?_⟩, s', hdec⟩
          refine .heard g hwaits ?_ ?_ ⟨_, hbegun⟩ (h.fresh hfresh) (Or.inr rfl)
          · rw [delivered_self]
            exact hh'
          · rw [hPN, talks.count]
            rfl
        · obtain ⟨x, u, rfl, hsuf⟩ := suffix_of_other hs hown₁
          have hin : (x :: u) <:+ q :: q' :: x :: u :=
            (List.suffix_cons _ _).trans (List.suffix_cons _ _)
          have hor := (h.order hsent hnot horder hsuf₁ hq₁ hin
            (talks.begun x u rfl)).imp_right (suffix_antisymm hsuf)
          obtain ⟨s', hdec, hsend, hh'⟩ := talks.hears.accept hlen hdh
            (h.distinct.sublist (hin.sublist.map _)) hsuf hw hD hor hhi hcap g
          exact ⟨⟨q, q' :: x :: u, h.follower_hears hsent' hdec
            (.behind q' (x :: u) rfl (talks.receive hsend hh'))⟩, s', hdec⟩
    | heard p waits hears prev begun new hp =>
        have hor := (h.order hsent hnot horder hsuf₁ hq₁ (List.suffix_refl _)
          begun).imp_right (suffix_antisymm hsuf₁)
        obtain ⟨s', hdec, hsend, hh'⟩ := hears.accept hlen hdh h.distinct hsuf₁ hw hD hor hhi
          hcap g
        refine ⟨⟨q, t, h.follower_hears hsent' hdec ?_⟩, s', hdec⟩
        refine .heard p (waits.frame hsend) ?_ ?_ ?_ new (Or.inl hp)
        · rw [delivered_self]
          exact hh'
        · rw [hsend.prev, prev]
          exact (prevCount_congr (fun _ => rfl) _).symm
        · obtain ⟨n, hn⟩ := begun
          exact ⟨n, by rw [delivered_self]; exact List.mem_cons_of_mem _ hn⟩
    | born p ht waits hears hNr hck prev new hp =>
        subst ht
        have he : q₁ :: t₁ = [q] := by
          rcases List.suffix_cons_iff.mp hsuf₁ with he | hs
          · exact he
          · simp at hs
        rw [he] at hw
        injection he with he _
        rw [he] at hbegun
        obtain ⟨s', hdec, hwaits, hPN, hh'⟩ := waits.boot hlen hdh hears hNr hck hw hhi hcap g
        refine ⟨⟨q, [], h.follower_hears hsent' hdec ?_⟩, s', hdec⟩
        refine .heard p hwaits ?_ (hPN.trans prev) ⟨_, hbegun⟩ new (Or.inl hp)
        rw [delivered_self]
        exact hh'

end Decrypt

/-! ## Whole runs -/

/-- What the session promises of a step: an encryption returns, a delivery
returns the plaintext that was encrypted. -/
def Delivers (c : Crypto K P C) (σ : Pair K P C) : Act P C → Prop
  | .encrypt who pt => ∃ w s', ratchetEncrypt c pt (σ.engine who) = .ok w s'
  | .decrypt who w g => ∀ pt k, Event.sent who.other pt w k ∈ σ.log →
      ∃ s', ratchetDecrypt c w g (σ.engine who) = .ok pt s'

/-- Every stored skipped key is the key the sender used under that label. -/
def StoredAsSent (σ : Pair K P C) : Prop :=
  ∀ who dh n k, ((dh, n), k) ∈ (σ.engine who).skippedMessageKeys.store →
    ∃ pt w, Event.sent who.other pt w k ∈ σ.log ∧ w.header.dh = dh ∧ w.header.n = n

section Runs

variable {σ : Pair K P C} {q : P} {t : List P}

theorem Conv.step (hlen : ∀ i s f b, (c.bytes (c.hkdf i s f b)).length = 32)
    (hdh : GoodDh c) (σ : Pair K P C) (act : Act P C) (h : ∃ q t, Conv c rk cap σ q t)
    (hh : HonestStep c cap σ act) :
    (∃ q t, Conv c rk cap (σ.step c act) q t) ∧ Delivers c σ act := by
  obtain ⟨q, t, h⟩ := h
  cases act with
  | encrypt who pt =>
      obtain ⟨q', t', hconv, w, k, s', henc⟩ := h.encrypt hlen hdh hh
      refine ⟨⟨q', t', hconv⟩, w, s', ?_⟩
      rw [ratchetEncrypt, map_apply, henc]
  | decrypt who w g =>
      obtain ⟨pt, k, hsent⟩ := hh.2.1
      refine ⟨(h.decrypt hlen hdh hh hsent).1, fun pt' k' hsent' => ?_⟩
      obtain ⟨-, s', hdec⟩ := h.decrypt hlen hdh hh hsent'
      exact ⟨s', by rw [ratchetDecrypt, map_apply, hdec]⟩

theorem Conv.start {gen : Party → P}
    (hgen : c.publicKey (gen .initiator) ≠ c.publicKey (gen .responder))
    (h : Pair.start c rk cap gen = .ok σ) : Conv c rk cap σ (gen .initiator) [] := by
  obtain ⟨-, hh, hl⟩ := start_ok h
  have hstate := start_engine h
  have hears : ∀ who, Hears c rk cap [] (delivered who σ.log) (σ.engine who) := by
    intro who
    rw [hl, hstate who]
    refine ⟨rfl, List.nodup_nil, fun id => ?_, nofun, nofun, Nat.zero_lt_succ _, rfl, nofun,
      nofun⟩
    show id ∈ [] ↔ id ∈ pending []
    simp
  refine ⟨List.nodup_singleton _, ?_, ?_, ?_, ?_⟩
  · intro x hx
    rw [List.mem_singleton.mp hx]
    exact ⟨.initiator, by rw [hh]; exact List.mem_singleton_self _⟩
  · rw [hl]
    refine ⟨nofun, fun _ _ => rfl, fun _ => List.Pairwise.nil, nofun, nofun⟩
  · show Talks c rk cap σ.log .initiator (gen .initiator) [] (σ.engine .initiator)
    refine ⟨?_, hears .initiator, ?_, ?_, nofun⟩
    · rw [hstate]
      exact ⟨rfl, rfl, rfl⟩
    · rw [hstate, hl]
      rfl
    · rw [hstate]
      rfl
  · show Follows c rk cap (Held σ) σ.log .responder (gen .initiator) []
      (σ.engine .responder)
    refine .born (gen .responder) rfl ?_ (hears .responder) ?_ ?_ ?_ ?_
      ⟨.responder, by rw [hh]; exact List.mem_singleton_self _⟩
    · rw [hstate]
      exact ⟨rfl, rfl, rfl⟩
    · rw [hstate]
    · rw [hstate]
      rfl
    · rw [hstate]
    · rw [List.mem_singleton]
      exact hgen.symm

/-- What a party hears, wherever it stands. -/
theorem Conv.hears (h : Conv c rk cap σ q t) (who : Party) :
    ∃ heard, heard <:+ q :: t ∧ Hears c rk cap heard (delivered who σ.log) (σ.engine who) := by
  rcases Party.eq_or_other who (owner (q :: t)) with rfl | rfl
  · exact ⟨t, List.suffix_cons q t, h.leads.hears⟩
  · cases h.follows with
    | behind q' t' ht talks =>
        subst ht
        exact ⟨t', (List.suffix_cons _ _).trans (List.suffix_cons _ _), talks.hears⟩
    | heard p waits hears prev begun new hp => exact ⟨q :: t, List.suffix_refl _, hears⟩
    | born p ht waits hears hNr hck prev new hp => exact ⟨[], List.nil_suffix, hears⟩

theorem Conv.stored (h : Conv c rk cap σ q t) : StoredAsSent σ := by
  intro who dh n k hmem
  obtain ⟨heard, hsuf, hh⟩ := h.hears who
  obtain ⟨q₁, t₁, hsuf₁, hq₁, hk⟩ := hh.named _ _ hmem
  have hpend := (hh.pend (dh, n)).mp (List.mem_map.mpr ⟨_, hmem, rfl⟩)
  obtain ⟨-, m, hm, hdel⟩ := mem_pending.mp hpend
  obtain ⟨w, p, k', hacc, hid⟩ := mem_delivered.mp hdel
  obtain ⟨k'', hsent⟩ := h.mail.accepted hacc
  injection hid with hd hn
  -- The sender had numbered every message below the one delivered.
  obtain ⟨pt, w', k₁, hsent', hd', hn'⟩ :=
    h.mail.sent_below hsent (n := n) (by simp only at hm; omega)
  obtain ⟨q₂, t₂, hsuf₂, -, hw⟩ := h.mail.sealed hsent'
  have heq := suffix_unique h.distinct (hsuf₁.trans hsuf) hsuf₂
    (hq₁.trans (hd.symm.trans (hd'.symm.trans (Option.some.inj hw.dh).symm)))
  have hkey : k₁ = k := by rw [hw.key, hk, heq, hn']
  have hnum := hw.number.1
  exact ⟨pt, w', hkey ▸ hsent', hd'.trans hd, by omega⟩

end Runs

/-- Along every honest run every call returns, every delivery returns exactly
what was encrypted, and the stored keys are the sender's. -/
theorem honest_delivery (hlen : ∀ i s f b, (c.bytes (c.hkdf i s f b)).length = 32)
    (hdh : GoodDh c) {gen : Party → P}
    (hgen : c.publicKey (gen .initiator) ≠ c.publicKey (gen .responder))
    {σ : Pair K P C} (hstart : Pair.start c rk cap gen = .ok σ) {acts : List (Act P C)}
    (hhonest : Along (Pair.step c) (HonestStep c cap) σ acts) :
    Along (Pair.step c) (Delivers c) σ acts ∧ StoredAsSent (σ.run c acts) := by
  have h₀ : ∃ q t, Conv c rk cap σ q t := ⟨_, [], Conv.start hgen hstart⟩
  refine ⟨hhonest.strengthen (Conv.step hlen hdh) h₀, ?_⟩
  obtain ⟨q, t, h⟩ := hhonest.invariant
    (fun σ act h hh => (Conv.step hlen hdh σ act h hh).1) h₀
  exact h.stored

/-! ## The symbolic model -/

theorem symbolic_aeadWorks (pt : Bytes) : AeadWorks symbolic pt :=
  fun _ _ _ => ⟨_, rfl, if_pos ⟨rfl, rfl, rfl⟩⟩

/-- The conditions of an honest step, in a form that can be evaluated. -/
def HonestCheck (cap : Nat) (σ : Pair SymKey Nat Box) : Act Nat Box → Prop
  | .encrypt who _ =>
      ((σ.engine who).sendingChainKey.isSome ∨ (σ.engine who).dhr.isSome) ∧
      (σ.engine who).Ns < 2 ^ 32
  | .decrypt who w g =>
      FreshKeys symbolic σ (.decrypt who w g) ∧
      (∃ e ∈ σ.log, match e with
        | .sent x _ w' _ => x = who.other ∧ w' = w
        | .accepted .. => False) ∧
      (w.header.dh, w.header.n.toNat) ∉ delivered who σ.log ∧
      ((∀ id ∈ delivered who σ.log,
          keyRank who.other σ.log id.1 ≤ keyRank who.other σ.log w.header.dh) ∨
        w.header.n.toNat < nextExpected (delivered who σ.log) w.header.dh) ∧
      w.header.n.toNat ≤ nextExpected (delivered who σ.log) w.header.dh + maxSkipDistance ∧
      (pending ((w.header.dh, w.header.n.toNat) :: delivered who σ.log)).card ≤ cap

instance HonestCheck.decidable (cap : Nat) (σ : Pair SymKey Nat Box) :
    ∀ act, Decidable (HonestCheck cap σ act)
  | .encrypt _ _ => inferInstanceAs (Decidable (_ ∧ _))
  | .decrypt who w _ =>
      have : ∀ e : Event SymKey Box, Decidable (match e with
          | .sent x _ w' _ => x = who.other ∧ w' = w
          | .accepted .. => False)
        | .sent .. => inferInstanceAs (Decidable (_ ∧ _))
        | .accepted .. => inferInstanceAs (Decidable False)
      inferInstanceAs (Decidable (_ ∧ _))

theorem HonestCheck.honest {cap : Nat} {σ : Pair SymKey Nat Box} {act : Act Nat Box}
    (h : HonestCheck cap σ act) : HonestStep symbolic cap σ act := by
  cases act with
  | encrypt who pt => exact ⟨h.1, h.2, symbolic_aeadWorks pt⟩
  | decrypt who w g =>
      obtain ⟨hf, ⟨e, hmem, he⟩, hD, ho, hrest⟩ := h
      refine ⟨hf, ?_, fun p k hacc => ?_, ?_, hrest⟩
      · cases e with
        | accepted => exact he.elim
        | sent x pt w' k =>
            obtain ⟨rfl, rfl⟩ := he
            exact ⟨pt, k, hmem⟩
      · exact hD (mem_delivered.mpr ⟨w, p, k, hacc, rfl⟩)
      · refine ho.imp_right fun hlt => ?_
        obtain ⟨n, hn, hmem⟩ := lt_nextExpected.mp hlt
        refine ⟨n, Nat.lt_of_le_of_ne hn ?_, hmem⟩
        rintro rfl
        exact hD hmem

/-- Three messages, the middle one first; an answer crossing a fourth; the
answer to the answer, and the skipped message last. -/
def crossing : List (Act Nat Box) := script (symPair 1) [
  fun _ => .encrypt .initiator [10], fun _ => .encrypt .initiator [11],
  fun _ => .encrypt .initiator [12], relay .responder 1 3 id,
  fun _ => .encrypt .responder [20], relay .responder 2 4 id,
  fun _ => .encrypt .initiator [13], relay .initiator 3 5 id,
  fun _ => .encrypt .initiator [14], relay .responder 5 6 id, relay .responder 0 7 id]

theorem honest_delivery_crossing :
    delivered .responder ((symPair 1).run symbolic crossing).log
      = [(symPublicKey 1, 0), (symPublicKey 5, 0), (symPublicKey 1, 2), (symPublicKey 1, 1)] ∧
    Along (Pair.step symbolic) (Delivers symbolic) (symPair 1) crossing ∧
      StoredAsSent ((symPair 1).run symbolic crossing) := by
  have hcheck : Along (Pair.step symbolic) (HonestCheck 1) (symPair 1) crossing := by
    decide +kernel
  exact ⟨by decide +kernel, honest_delivery symKeys_injective.hkdf_length symbolic_goodDh
    (by decide) (symPair_start 1) (hcheck.mono fun _ _ h => h.honest)⟩

end GhostChat.Proofs
