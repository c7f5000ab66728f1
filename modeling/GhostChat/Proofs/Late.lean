import GhostChat.Proofs.Delivery

/-!
# Late messages of the previous chain

When the first message of a new chain arrives, `ratchet_decrypt` calls
`_skip_receiving_until(state.Nr)` before it turns. The argument should be the
header's `pn`: what the old chain still owes is then filed for later. With
`Nr` nothing is filed (`skipReceivingUntil_self`), and the keys of the old
chain are gone.

`late_messages_iff` says when that is harmless: exactly when the old chain
owed nothing, `pn ≤ Nr`. Otherwise its next message makes the engine take the
old header key for a new one and turn to a chain nobody sends on.
-/

namespace GhostChat.Proofs

open GhostChat.Lib GhostChat.Lib.Effect GhostChat.Lib.Window GhostChat.Ref

variable {K P C : Type} {c : Crypto K P C} {rk : K} {cap : Nat}

/-- A ciphertext opens under one key only. -/
def AeadOneKey (c : Crypto K P C) : Prop :=
  ∀ {k k' nonce nonce' ct ad ad' p p'}, c.decrypt k nonce ct ad = some p →
    c.decrypt k' nonce' ct ad' = some p' → k = k'

/-- A delivery to `who` of an undelivered message of the chain `d` with a
number from `lo` up to `hi`. -/
def LateStep (who : Party) (d : Bytes) (lo : Nat) (hi : Int) (σ : Pair K P C) :
    Act P C → Prop
  | .encrypt _ _ => False
  | .decrypt x w _ => x = who ∧ (∃ pt k, Event.sent who.other pt w k ∈ σ.log) ∧
      (∀ p k, Event.accepted who w p k ∉ σ.log) ∧
      w.header.dh = d ∧ (lo : Int) ≤ w.header.n ∧ w.header.n < hi

/-- From `σ` on, the late messages can be delivered in any order, in between
whatever honest steps, and everything is delivered. -/
def LateWork (c : Crypto K P C) (cap : Nat) (σ : Pair K P C) (who : Party) (d : Bytes)
    (lo : Nat) (hi : Int) : Prop :=
  ∀ acts, Along (Pair.step c)
      (fun σ act => HonestStep c cap σ act ∨ LateStep who d lo hi σ act) σ acts →
    Along (Pair.step c) (Delivers c) σ acts

/-! ## Which key a chain hands out -/

/-- A call that returns on a chain has used that chain's key for the
header's number. -/
theorem decryptOnChain_key {l : List K} {s s' : DoubleRatchetState K P}
    {w : RatchetWireMessage C} {p : Bytes} {mk : K}
    (hck : s.receivingChainKey = some (chainKey c.toKeyAlg rk l s.Nr))
    (hd : s.dhr = some w.header.dh) (h : decryptOnChain c w s = .ok (p, mk) s') :
    mk = msgKey c.toKeyAlg rk l w.header.n.toNat := by
  by_cases hfar : w.header.n.toNat < s.Nr ∨ s.Nr + maxSkipDistance < w.header.n.toNat
  · obtain ⟨e, he⟩ := decryptOnChain_far (c := c) hck hfar
    rw [he] at h
    cases h
  · rw [decryptOnChain_near (by omega) (by omega), skipReceivingUntil_some hck hd] at h
    split at h
    · cases h
    · next u s₁ hl =>
        have hck₁ := skipReceivingLoop_chain _ s s₁ u hck (by omega) hl
        rw [hck₁] at h
        exact (keyed_ok h).2.symm

/-- A header key other than the one in use, with no stored key for the
message: the engine turns, and the key it tries is one of the new chain. -/
theorem turned_key {l : List K} {s s' : DoubleRatchetState K P} {g p : P}
    {w : RatchetWireMessage C} {pt : Bytes} {mk sh : K} {d : Bytes}
    (hroot : s.rootKey = rootAfter c.toKeyAlg rk l) (hd : s.dhr = some d)
    (hne : d ≠ w.header.dh) (hown : s.dhsPrivate = some p)
    (hlen : w.header.dh.length = 32) (hsh : c.sharedKey p w.header.dh = some sh)
    (hno : s.skippedMessageKeys.has w.header.dh w.header.n.toNat = false)
    (h : ratchetDecryptKeyed c w g s = .ok (pt, mk) s') :
    mk = msgKey c.toKeyAlg rk (sh :: l) w.header.n.toNat := by
  have hr : ¬ Refused s w := by
    intro hr
    obtain ⟨e, he⟩ := decrypt_refused (c := c) (g := g) hr
    rw [he] at h
    cases h
  have hw : dhWith c s.dhsPrivate w.header.dh = .ok sh := by
    rw [hown, dhWith_some hlen, hsh]
  rw [decrypt_chain hr hno, ensureReceivingChain_turn (Or.inr ⟨d, hd, hne⟩),
    dhRatchetReceive_done hw] at h
  refine decryptOnChain_key (l := sh :: l) ?_ rfl h
  show some (kdfRoot c.toKeyAlg s.rootKey sh).2 = _
  rw [hroot]
  rfl

/-! ## The boundary -/

theorem outs_length (hdh : GoodDh c) (q : P) (t : List P) :
    (outs c (q :: t)).length = t.length := by
  induction t generalizing q with
  | nil => rfl
  | cons q' t ih =>
      obtain ⟨k, -, -, he⟩ := outs_cons hdh q q' t
      rw [he, List.length_cons, ih, List.length_cons]

/-- A party that waits on the chain of `q`, and has no key stored for a message
of a chain before that one, does not open the message: it turns, and tries a
key of a chain longer than the message's. -/
theorem Waits.older_lost (hk : GoodKdf c.toKeyAlg rk) (hdh : GoodDh c) (hone : AeadOneKey c)
    {s s' : DoubleRatchetState K P} {p q y g : P} {t v : List P}
    (hwaits : Waits c rk p (q :: t) s) (hd : s.dhr = some (c.publicKey q))
    {pt pt' : Bytes} {w : RatchetWireMessage C} {k mk : K} (hw : Sealed c rk (y :: v) pt w k)
    (hshort : v.length ≤ t.length) (hne : c.publicKey q ≠ w.header.dh)
    (hno : s.skippedMessageKeys.has w.header.dh w.header.n.toNat = false) :
    ratchetDecryptKeyed c w g s ≠ .ok (pt', mk) s' := by
  intro hkeyed
  have hy : c.publicKey y = w.header.dh := Option.some.inj hw.dh
  obtain ⟨sh, hsh, -⟩ := hdh.commutes p y
  rw [hy] at hsh
  have hdlen := (checkHeader_ok (hw.checked hdh)).1
  have hkey := turned_key hwaits.root hd hne hwaits.own hdlen hsh hno hkeyed
  -- The key tried is not the key the message was sealed under.
  have heq := hone (decrypt_unsealed hkeyed).2 hw.opens
  rw [hkey, hw.key] at heq
  have hl := congrArg List.length (hk.msgKey_inj heq).1
  rw [List.length_cons, outs_length hdh, outs_length hdh] at hl
  omega

/-- The receiver at the boundary: it was speaking on the chain between the
peer's two, and now waits on the newer one. -/
theorem Conv.boundary (hlen : ∀ i s f b, (c.bytes (c.hkdf i s f b)).length = 32)
    (hdh : GoodDh c) {σ : Pair K P C} {q : P} {t : List P} (h : Conv c rk cap σ q t)
    {who : Party} {w : RatchetWireMessage C} {g : P} {d : Bytes}
    (hh : HonestStep c cap σ (.decrypt who w g))
    (hnew : ∀ n, (w.header.dh, n) ∉ delivered who σ.log)
    (hd : (σ.engine who).dhr = some d) :
    ∃ q' x u pt k s', t = q' :: x :: u ∧ who = (owner (q :: t)).other ∧
      c.publicKey x = d ∧ c.publicKey q = w.header.dh ∧
      Event.sent who.other pt w k ∈ σ.log ∧
      ratchetDecryptKeyed c w g (σ.engine who) = .ok (pt, k) s' ∧
      (σ.engine who).Nr = nextExpected (delivered who σ.log) d ∧
      Waits c rk g (q :: t) s' ∧
      Hears c rk cap (q :: t) ((w.header.dh, w.header.n.toNat) :: delivered who σ.log) s' := by
  obtain ⟨hfresh, ⟨pt, k, hsent⟩, hnot, horder, hhi, hcap⟩ := hh
  obtain ⟨q₁, t₁, hsuf₁, hown₁, hw⟩ := h.mail.sealed hsent
  have hq₁ : c.publicKey q₁ = w.header.dh := Option.some.inj hw.dh
  -- On a chain heard before something has been delivered.
  have hheard : ∀ {y : P} {v : List P}, (y :: v) <:+ q :: t →
      (∃ n, (c.publicKey y, n) ∈ delivered who σ.log) → (q₁ :: t₁) <:+ y :: v → False := by
    intro y v hsuf hbegun hin
    rcases h.order hsent hnot horder hsuf₁ hq₁ hsuf hbegun with hp | hold
    · obtain ⟨-, n, -, hn⟩ := mem_pending.mp hp
      exact hnew n hn
    · have heq := suffix_antisymm hin hold
      injection heq with hy _
      obtain ⟨n, hn⟩ := hbegun
      exact hnew n (by rw [← hq₁, hy]; exact hn)
  rcases Party.eq_or_other who (owner (q :: t)) with rfl | rfl
  · exfalso
    have hsuf : (q₁ :: t₁) <:+ t := by
      rcases List.suffix_cons_iff.mp hsuf₁ with he | hs
      · rw [he] at hown₁
        exact absurd hown₁ (Party.ne_other _)
      · exact hs
    cases t with
    | nil => simp at hsuf
    | cons y v =>
        exact hheard (List.suffix_cons _ _) (h.leads.begun y v rfl) hsuf
  · rw [Party.other_other] at hown₁
    cases h.follows with
    | heard p waits hears prev begun new hp =>
        exact (hheard (List.suffix_refl _) begun hsuf₁).elim
    | born p ht waits hears hNr hck prev new hp =>
        rw [hears.remote] at hd
        cases hd
    | behind q' t' ht talks =>
        subst ht
        have hrem := talks.hears.remote
        rw [hd] at hrem
        cases t' with
        | nil => cases hrem
        | cons x u =>
            have hx : c.publicKey x = d := (Option.some.inj hrem).symm
            rcases List.suffix_cons_iff.mp hsuf₁ with he | hs
            · rw [he] at hw
              obtain ⟨s', hdec, hwaits, -, hh'⟩ := talks.speaks.turn hlen hdh h.distinct
                talks.hears hw hhi hcap g
              have hNr := (talks.hears.chain x u rfl).1
              rw [hx] at hNr
              exact ⟨q', x, u, pt, k, s', rfl, rfl, hx, Option.some.inj hw.dh, hsent, hdec,
                hNr, hwaits, hh'⟩
            · exfalso
              have hsuf : (q₁ :: t₁) <:+ x :: u := by
                rcases List.suffix_cons_iff.mp hs with he | hs
                · rw [he] at hown₁
                  exact absurd hown₁ (Party.ne_other _)
                · exact hs
              exact hheard ((List.suffix_cons _ _).trans (List.suffix_cons _ _))
                (talks.begun x u rfl) hsuf

/-- The number the receiver stands at on a chain the peer went further on: the
message with it was sent, and is not delivered. -/
theorem Conv.missed {σ : Pair K P C} {q : P} {t : List P} (h : Conv c rk cap σ q t) {who : Party}
    {d : Bytes} (hNr : (σ.engine who).Nr = nextExpected (delivered who σ.log) d)
    (hlt : (σ.engine who).Nr < (numbers who.other d σ.log).length) :
    ∃ pt w k, Event.sent who.other pt w k ∈ σ.log ∧ w.header.dh = d ∧
      w.header.n.toNat = (σ.engine who).Nr ∧ ∀ p k, Event.accepted who w p k ∉ σ.log := by
  have hmem : (σ.engine who).Nr ∈ numbers who.other d σ.log := by
    rw [h.mail.runs]
    exact List.mem_reverse.mpr (List.mem_range.mpr hlt)
  obtain ⟨pt, w, k, hsent, hd, hn⟩ := mem_numbers.mp hmem
  refine ⟨pt, w, k, hsent, hd, hn, fun p k₁ hacc => ?_⟩
  have hin : (w.header.dh, w.header.n.toNat) ∈ delivered who σ.log :=
    mem_delivered.mpr ⟨w, p, k₁, hacc, rfl⟩
  have hexpected := lt_nextExpected.mpr ⟨_, Nat.le_refl _, hin⟩
  rw [hn, hd, ← hNr] at hexpected
  omega

/-- At every boundary of an honest run: the late messages of the previous
chain get through, and the session with them, exactly when there are none. Only
that they do not otherwise takes an AEAD that opens a ciphertext under one key. -/
theorem late_messages_iff (hk : GoodKdf c.toKeyAlg rk) (hdh : GoodDh c) {gen : Party → P}
    (hgen : c.publicKey (gen .initiator) ≠ c.publicKey (gen .responder))
    {σ : Pair K P C} (hstart : Pair.start c rk cap gen = .ok σ) {acts : List (Act P C)}
    (hhonest : Along (Pair.step c) (HonestStep c cap) σ acts)
    {who : Party} {w : RatchetWireMessage C} {g : P} {d : Bytes}
    (hstep : HonestStep c cap (σ.run c acts) (.decrypt who w g))
    (hnew : ∀ n, (w.header.dh, n) ∉ delivered who (σ.run c acts).log)
    (hd : ((σ.run c acts).engine who).dhr = some d) :
    (w.header.pn ≤ ((σ.run c acts).engine who).Nr →
      LateWork c cap ((σ.run c acts).step c (.decrypt who w g)) who d
        ((σ.run c acts).engine who).Nr w.header.pn) ∧
    (AeadOneKey c →
      LateWork c cap ((σ.run c acts).step c (.decrypt who w g)) who d
        ((σ.run c acts).engine who).Nr w.header.pn →
      w.header.pn ≤ ((σ.run c acts).engine who).Nr) := by
  obtain ⟨q, t, h⟩ := hhonest.invariant
    (fun σ act h hh => (Conv.step hk.hkdf_length hdh σ act h hh).1)
    ⟨_, [], Conv.start hgen hstart⟩
  change Conv c rk cap (σ.run c acts) q t at h
  generalize σ.run c acts = τ at *
  constructor
  · intro hle cont hcont
    have hconv := (Conv.step hk.hkdf_length hdh τ (.decrypt who w g) ⟨q, t, h⟩ hstep).1
    have hall : ∀ σ act, (∃ q t, Conv c rk cap σ q t) →
        HonestStep c cap σ act ∨ LateStep who d (τ.engine who).Nr w.header.pn σ act →
        (∃ q t, Conv c rk cap (σ.step c act) q t) ∧ Delivers c σ act := by
      rintro σ act hinv (hh | hlate)
      · exact Conv.step hk.hkdf_length hdh σ act hinv hh
      · exfalso
        cases act with
        | encrypt => exact hlate
        | decrypt =>
            obtain ⟨-, -, -, -, hlo, hhi⟩ := hlate
            omega
    exact hcont.strengthen hall hconv
  · intro hone hwork
    by_contra hlt
    -- The old chain has a message with the number the receiver stood at.
    obtain ⟨q', x, u, pt, k, s', rfl, hwho, hx, hq, hsent, hdec, hNr, hwaits, hears⟩ :=
      h.boundary hk.hkdf_length hdh hstep hnew hd
    have hpn : w.header.pn = (numbers who.other d τ.log).length := by
      rw [h.mail.prev hsent (List.suffix_refl _) hq, ← hx]
      rfl
    obtain ⟨pt', w', k', hsent', hd', hn', hundel⟩ := h.missed hNr (by omega)
    obtain ⟨y, v, hsuf, -, hw'⟩ := h.mail.sealed hsent'
    have hy : c.publicKey y = d := (Option.some.inj hw'.dh).trans hd'
    have hxin : (x :: u) <:+ q :: q' :: x :: u :=
      (List.suffix_cons _ _).trans (List.suffix_cons _ _)
    obtain ⟨rfl, rfl⟩ : y = x ∧ v = u := by
      have := suffix_unique h.distinct hsuf hxin (hy.trans hx.symm)
      injection this with h₁ h₂
      exact ⟨h₁, h₂⟩
    have hne : c.publicKey q ≠ w'.header.dh := by
      rw [hd', ← hx]
      have hnd := h.distinct
      simp only [List.map_cons, List.nodup_cons, List.mem_cons, not_or] at hnd
      exact hnd.1.2.1
    have hno : s'.skippedMessageKeys.has w'.header.dh w'.header.n.toNat = false := by
      refine hears.not_stored ?_
      rw [nextExpected_other (by rw [← hq]; exact hne), hn', hd', ← hNr]
    have hlate : LateStep who d (τ.engine who).Nr w.header.pn
        (τ.step c (.decrypt who w g)) (.decrypt who w' g) := by
      rw [step_decrypt_ok hdec]
      refine ⟨rfl, ⟨pt', k', List.mem_cons_of_mem _ hsent'⟩, fun p k₁ hacc => ?_, hd', ?_, ?_⟩
      · rcases List.mem_cons.mp hacc with he | hacc
        · injection he with _ he _ _
          exact hne (by rw [he]; exact hq)
        · exact hundel p k₁ hacc
      · have := hw'.number.1
        omega
      · have := hw'.number.1
        omega
    obtain ⟨hdel, -⟩ := hwork [.decrypt who w' g] ⟨Or.inr hlate, trivial⟩
    rw [step_decrypt_ok hdec] at hdel
    obtain ⟨s'', hok⟩ := hdel pt' k' (List.mem_cons_of_mem _ hsent')
    simp only [Function.update_self] at hok
    obtain ⟨⟨_, mk⟩, hkeyed, rfl⟩ := map_ok hok
    have hshort : v.length ≤ (q' :: y :: v).length := by
      rw [List.length_cons, List.length_cons]
      omega
    exact hwaits.older_lost hk hdh hone hears.remote hw' hshort hne hno hkeyed

/-! ## The symbolic model -/

theorem symbolic_aeadOneKey : AeadOneKey symbolic := by
  intro k k' nonce nonce' ct ad ad' p p' h h'
  simp only [symbolic] at h h'
  split at h
  · next he =>
      split at h'
      · next he' => exact he.1.symm.trans he'.1
      · cases h'
  · cases h

/-- The initiator sends `first` messages on its first chain, of which the
responder gets the last one; one answer later it opens its second chain. -/
def upToBoundary (first : List Bytes) (heard : Nat) : List (Act Nat Box) :=
  script (symPair 1000) ((first.map fun pt => fun _ => .encrypt .initiator pt) ++
    [relay .responder heard 3 id, fun _ => .encrypt .responder [20],
      relay .initiator first.length 4 id, fun _ => .encrypt .initiator [30]])

/-- The pair at the boundary, and the first message of the second chain. -/
def atBoundary (first : List Bytes) (heard : Nat) : Pair SymKey Nat Box :=
  (symPair 1000).run symbolic (upToBoundary first heard)

theorem late_messages_none : ∃ w,
    (atBoundary [[10]] 0).wires[2]? = some w ∧ w.header.pn = 1 ∧
    LateWork symbolic 1000 ((atBoundary [[10]] 0).step symbolic (.decrypt .responder w 5))
      .responder (symPublicKey 1) ((atBoundary [[10]] 0).engine .responder).Nr
      w.header.pn ∧
    w.header.pn ≤ ((atBoundary [[10]] 0).engine .responder).Nr := by
  have hrun : Along (Pair.step symbolic) (HonestCheck 1000) (symPair 1000)
      (upToBoundary [[10]] 0) := by decide +kernel
  have hlast : ∃ w, (atBoundary [[10]] 0).wires[2]? = some w ∧ w.header.pn = 1 ∧
      HonestCheck 1000 (atBoundary [[10]] 0) (.decrypt .responder w 5) ∧
      (∀ id ∈ delivered .responder (atBoundary [[10]] 0).log, id.1 ≠ w.header.dh) ∧
      ((atBoundary [[10]] 0).engine .responder).dhr = some (symPublicKey 1) ∧
      w.header.pn ≤ ((atBoundary [[10]] 0).engine .responder).Nr := by
    refine ⟨_, rfl, ?_⟩
    decide +kernel
  obtain ⟨w, hw, hpn, hcheck, hnew, hd, hle⟩ := hlast
  obtain ⟨hworks, honly⟩ := late_messages_iff symbolic_good symbolic_goodDh (by decide)
    (symPair_start 1000) (hrun.mono fun _ _ h => h.honest) hcheck.honest
    (fun n hn => hnew _ hn rfl) hd
  have hwork := hworks hle
  exact ⟨w, hw, hpn, hwork, honly symbolic_aeadOneKey hwork⟩

/-- Two messages on the first chain, the second one late: the responder has
turned to the second chain, `pn` is two, it stood at one, the distance and
the room are there, and the late message raises. -/
theorem late_message_lost : ∃ w w',
    Along (Pair.step symbolic) (HonestStep symbolic 1000) (symPair 1000)
      (upToBoundary [[10], [11]] 0) ∧
    HonestStep symbolic 1000 (atBoundary [[10], [11]] 0) (.decrypt .responder w 5) ∧
    ((atBoundary [[10], [11]] 0).engine .responder).dhr = some w'.header.dh ∧
    ((atBoundary [[10], [11]] 0).engine .responder).Nr = 1 ∧ w.header.pn = 2 ∧
    Event.sent .initiator [11] w' w'.ciphertext.key ∈ (atBoundary [[10], [11]] 0).log ∧
    w'.header.n = 1 ∧
    value? (ratchetDecrypt symbolic w' 6 (((atBoundary [[10], [11]] 0).step symbolic
      (.decrypt .responder w 5)).engine .responder)) = none := by
  have hrun : Along (Pair.step symbolic) (HonestCheck 1000) (symPair 1000)
      (upToBoundary [[10], [11]] 0) := by decide +kernel
  have hlast : ∃ w w', (atBoundary [[10], [11]] 0).wires[3]? = some w ∧
      (atBoundary [[10], [11]] 0).wires[1]? = some w' ∧
      HonestCheck 1000 (atBoundary [[10], [11]] 0) (.decrypt .responder w 5) ∧
      ((atBoundary [[10], [11]] 0).engine .responder).dhr = some w'.header.dh ∧
      ((atBoundary [[10], [11]] 0).engine .responder).Nr = 1 ∧ w.header.pn = 2 ∧
      Event.sent .initiator [11] w' w'.ciphertext.key ∈ (atBoundary [[10], [11]] 0).log ∧
      w'.header.n = 1 ∧
      value? (ratchetDecrypt symbolic w' 6 (((atBoundary [[10], [11]] 0).step symbolic
        (.decrypt .responder w 5)).engine .responder)) = none := by
    refine ⟨_, _, rfl, rfl, ?_⟩
    decide +kernel
  obtain ⟨w, w', -, -, hcheck, hd, hNr, hpn, hsent, hn, hraise⟩ := hlast
  exact ⟨w, w', hrun.mono fun _ _ h => h.honest, hcheck.honest, hd, hNr, hpn, hsent, hn,
    hraise⟩

end GhostChat.Proofs
