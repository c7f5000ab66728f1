import GhostChat.Proofs.Turning

/-!
# The law in every orderly conversation

Both parties together. One leads, and what is under way to it is under the key
it answers, so that only the other one turns, and only on the leader's newest
chain. A step of either is a step of `Lib/Turns.lean` on its side, and the
engines stay in tune with it: a message is one more of the chain its sender is
on, a delivery that turns takes the receiver to the chain the sender is on,
also where it then raises.
-/

namespace GhostChat.Proofs

open GhostChat.Lib GhostChat.Lib.Effect GhostChat.Lib.Turns GhostChat.Ref

variable {K P C : Type} {c : Crypto K P C} {rk : K} {cap : Nat}

/-! ## Two parties -/

def laneSide (c : Crypto K P C) (σ : Lane K P C) (who : Party) : Side Bytes :=
  sideAt c who σ.pair.log (σ.passed who) (σ.pair.engine who)

/-- The invariant. `x` leads, on the chain `ks`. -/
structure InTune (c : Crypto K P C) (rk : K) (cap : Nat) (σ : Lane K P C) (x : Party)
    (ks : List P) : Prop where
  lead : Lead (laneSide c σ x) (laneSide c σ x.other)
  tuned : Tuned c rk ks (σ.pair.engine x) (σ.pair.engine x.other)
  sealed : ∀ {pt w k}, Event.sent x pt w k ∈ σ.pair.log →
    w.header.dh = ownKey c (σ.pair.engine x) → w.header.n.toNat < 2 ^ 32 →
    Sealed c rk ks pt w k
  book : ∀ who, Book c who (σ.pair.handed who) σ.pair.log (σ.pair.engine who)
  listens : ∀ who, Listens c cap (acceptedKeys who σ.pair.log) (laneSide c σ who.other).written
    (σ.passed who) (σ.pair.engine who)

section Steps

variable {σ : Lane K P C} {x who : Party} {ks : List P} {pt : Bytes} {i : Nat} {g : P}

theorem InTune.numbered (h : InTune c rk cap σ x ks) (who : Party) :
    Poised (laneSide c σ who) := by
  rcases Party.eq_or_other who x with rfl | rfl
  · exact h.lead.leader
  · exact h.lead.follower

/-- The lane after a party has sent a message. -/
def afterSent (σ : Lane K P C) (who : Party) (s' : DoubleRatchetState K P) (pt : Bytes)
    (w : RatchetWireMessage C) (k : K) : Lane K P C := { σ with
  pair := { σ.pair with
    engine := Function.update σ.pair.engine who s'
    log := .sent who pt w k :: σ.pair.log } }

/-- And after it was handed message `i`, accepted or not. -/
def afterHeard (σ : Lane K P C) (who : Party) (i : Nat) (g : P) (s' : DoubleRatchetState K P)
    (event : List (Event K C)) : Lane K P C where
  pair := {
    engine := Function.update σ.pair.engine who s'
    handed := Function.update σ.pair.handed who (g :: σ.pair.handed who)
    log := event ++ σ.pair.log }
  passed := Function.update σ.passed who (i + 1)

variable {s' : DoubleRatchetState K P} {w : RatchetWireMessage C} {k : K} {y : Party}

theorem laneSide_sent (hw : Wrote c (σ.pair.engine who) w s') :
    laneSide c (afterSent σ who s' pt w k)
      = Function.update (laneSide c σ) who (laneSide c σ who).write := by
  refine Function.eq_update_iff.mpr ⟨?_, fun y hy => ?_⟩
  · simp only [laneSide, afterSent, Function.update_self]
    exact sideAt_wrote hw
  · simp only [laneSide, afterSent, Function.update_of_ne hy, sideAt, wiresOf_other (Ne.symm hy)]

/-- The sender's book and the other one, and what both listen to. -/
theorem InTune.sends (h : InTune c rk cap σ x ks) (hw : Wrote c (σ.pair.engine who) w s')
    (hlead : Lead (laneSide c (afterSent σ who s' pt w k) x)
      (laneSide c (afterSent σ who s' pt w k) x.other))
    (htuned : Tuned c rk ks ((afterSent σ who s' pt w k).pair.engine x)
      ((afterSent σ who s' pt w k).pair.engine x.other))
    (hsealed : who = x → w.header.n.toNat < 2 ^ 32 → Sealed c rk ks pt w k) :
    InTune c rk cap (afterSent σ who s' pt w k) x ks := by
  have hwritten : ∀ y, (laneSide c (afterSent σ who s' pt w k) y).written
      = if y = who then (laneSide c σ who).upcoming :: (laneSide c σ who).written
        else (laneSide c σ y).written := by
    intro y
    rw [laneSide_sent hw]
    by_cases hy : y = who
    · rw [if_pos hy, hy, Function.update_self]
      rfl
    · rw [if_neg hy, Function.update_of_ne hy]
  have hown : ∀ y, ownKey c ((afterSent σ who s' pt w k).pair.engine y)
      = ownKey c (σ.pair.engine y) := by
    intro y
    by_cases hy : y = who
    · subst hy
      simp only [afterSent, Function.update_self]
      exact ownKey_congr hw.own
    · simp only [afterSent, Function.update_of_ne hy]
  refine ⟨hlead, htuned, fun {pt' w' k'} hmem hkey hshort => ?_, fun y => ?_, fun y => ?_⟩
  · rw [hown] at hkey
    rcases List.mem_cons.mp hmem with he | hmem
    · cases he
      exact hsealed rfl hshort
    · exact h.sealed hmem hkey hshort
  · by_cases hy : y = who
    · subst hy
      simp only [afterSent, Function.update_self]
      exact (h.book y).write (h.numbered y) hw
    · simp only [afterSent, Function.update_of_ne hy]
      refine (h.book y).other (wiresOf_other (Ne.symm hy)) (fun pt' w' k' he => ?_) nofun
      injection he with he
      exact hy he.symm
  · have hlisten : Listens c cap (acceptedKeys y σ.pair.log)
        (laneSide c (afterSent σ who s' pt w k) y.other).written (σ.passed y)
        (σ.pair.engine y) := by
      rw [hwritten]
      split
      · next he =>
          rw [← he]
          exact (h.listens y).longer _
      · exact h.listens y
    by_cases hy : y = who
    · subst hy
      simp only [afterSent, Function.update_self]
      exact hlisten.frame hw.recv
    · simp only [afterSent, Function.update_of_ne hy]
      exact hlisten

theorem InTune.encrypt (hinv : AeadInverse c) (hdh : GoodDh c) (h : InTune c rk cap σ x ks)
    (he : ratchetEncryptKeyed c pt (σ.pair.engine who) = .ok (w, k) s') :
    InTune c rk cap (afterSent σ who s' pt w k) x ks := by
  rcases Party.eq_or_other who x with rfl | rfl
  · obtain ⟨hw, htuned, hseal⟩ := h.tuned.leader_sends hinv hdh he
    refine h.sends hw ?_ ?_ fun _ => hseal
    · rw [laneSide_sent hw, Function.update_self, Function.update_of_ne (Party.other_ne _)]
      exact h.lead.write_leader
    · simp only [afterSent, Function.update_self, Function.update_of_ne (Party.other_ne _)]
      exact htuned
  · obtain ⟨hw, htuned⟩ := h.tuned.follower_sends hinv he
    refine h.sends hw ?_ ?_ fun hx => absurd hx (Party.other_ne _)
    · rw [laneSide_sent hw, Function.update_self, Function.update_of_ne (Party.ne_other _)]
      exact h.lead.write_follower hw.able
    · simp only [afterSent, Function.update_self, Function.update_of_ne (Party.ne_other _)]
      exact htuned

/-- What a delivery adds to the log: nothing, or an acceptance. -/
inductive Noted (who : Party) (w : RatchetWireMessage C) : List (Event K C) → Prop
  | nothing : Noted who w []
  | message (p : Bytes) (k : K) : Noted who w [.accepted who w p k]

namespace Noted

variable {event log : List (Event K C)} {s : DoubleRatchetState K P} {handed : List P}

theorem wires (h : Noted who w event) (y : Party) :
    wiresOf y (event ++ log) = wiresOf y log := by
  cases h <;> rfl

theorem sent (h : Noted who w event) {pt' : Bytes} {w' : RatchetWireMessage C} {k' : K}
    (hmem : Event.sent y pt' w' k' ∈ event ++ log) : Event.sent y pt' w' k' ∈ log := by
  cases h with
  | nothing => exact hmem
  | message p k =>
      rcases List.mem_cons.mp hmem with he | hmem
      · cases he
      · exact hmem

theorem accepted_other (h : Noted who w event) (hy : y ≠ who) :
    acceptedKeys y (event ++ log) = acceptedKeys y log := by
  cases h with
  | nothing => rfl
  | message p k => exact congrArg (List.map Prod.fst) (delivered_other (Ne.symm hy))

theorem book_other (h : Noted who w event) (hy : y ≠ who) (hb : Book c y handed log s) :
    Book c y handed (event ++ log) s := by
  cases h with
  | nothing => exact hb
  | message p k =>
      refine hb.other rfl nofun fun w' p' k' he => ?_
      injection he with he
      exact hy he.symm

theorem book_self (h : Noted who w event) (hb : Book c who handed log s)
    (hnew : event ≠ [] → w.header.dh ∉ acceptedKeys who log →
      ownKey c s ∉ headerKeys who log) : Book c who handed (event ++ log) s := by
  cases h with
  | nothing => exact hb
  | message p k => exact hb.accept (hnew nofun)

end Noted

variable {event : List (Event K C)} {x' : Party} {ks' : List P}

theorem laneSide_heard (hev : Noted who w event) :
    laneSide c (afterHeard σ who i g s' event)
      = Function.update (laneSide c σ) who (sideAt c who (event ++ σ.pair.log) (i + 1) s') := by
  refine Function.eq_update_iff.mpr ⟨?_, fun y hy => ?_⟩
  · simp only [laneSide, afterHeard, Function.update_self]
  · simp only [laneSide, afterHeard, Function.update_of_ne hy, sideAt, hev.wires]

/-- The receiver's book and the other one, and what both listen to. -/
theorem InTune.arrives (h : InTune c rk cap σ x ks) (hev : Noted who w event)
    (hbook : Book c who (g :: σ.pair.handed who) (event ++ σ.pair.log) s')
    (hlisten : Listens c cap (acceptedKeys who (event ++ σ.pair.log))
      (laneSide c σ who.other).written (i + 1) s')
    (hlead : Lead (laneSide c (afterHeard σ who i g s' event) x')
      (laneSide c (afterHeard σ who i g s' event) x'.other))
    (htuned : Tuned c rk ks' ((afterHeard σ who i g s' event).pair.engine x')
      ((afterHeard σ who i g s' event).pair.engine x'.other))
    (hsealed : ∀ {pt w k}, Event.sent x' pt w k ∈ σ.pair.log →
      w.header.dh = ownKey c ((afterHeard σ who i g s' event).pair.engine x') →
      w.header.n.toNat < 2 ^ 32 → Sealed c rk ks' pt w k) :
    InTune c rk cap (afterHeard σ who i g s' event) x' ks' := by
  have hwritten : ∀ y, (laneSide c (afterHeard σ who i g s' event) y).written
      = (laneSide c σ y).written :=
    fun y => congrArg (List.map wireStamp) (hev.wires y)
  refine ⟨hlead, htuned, fun hmem => hsealed (hev.sent hmem), fun y => ?_, fun y => ?_⟩
  · by_cases hy : y = who
    · subst hy
      simp only [afterHeard, Function.update_self]
      exact hbook
    · simp only [afterHeard, Function.update_of_ne hy]
      exact hev.book_other hy (h.book y)
  · rw [hwritten]
    by_cases hy : y = who
    · subst hy
      simp only [afterHeard, Function.update_self]
      exact hlisten
    · simp only [afterHeard, Function.update_of_ne hy, hev.accepted_other hy]
      exact h.listens y

/-- A delivery that does not turn. -/
theorem InTune.passes (h : InTune c rk cap σ x ks) (hi : σ.passed who ≤ i)
    (hs : SameSend (σ.pair.engine who) s') (hd : s'.dhr = (σ.pair.engine who).dhr)
    (hsome : s' = σ.pair.engine who ∨ (σ.pair.engine who).dhr ≠ none)
    (hev : Noted who w event)
    (hold : event ≠ [] → w.header.dh ∈ acceptedKeys who σ.pair.log)
    (hlisten : Listens c cap (acceptedKeys who (event ++ σ.pair.log))
      (laneSide c σ who.other).written (i + 1) s') :
    InTune c rk cap (afterHeard σ who i g s' event) x ks := by
  have hside : sideAt c who (event ++ σ.pair.log) (i + 1) s' = (laneSide c σ who).pass i :=
    sideAt_passed hs hd (hev.wires who) i
  have hbook : Book c who (g :: σ.pair.handed who) (event ++ σ.pair.log) s' :=
    hev.book_self ((h.book who).stay hs g) fun hne hnew => absurd (hold hne) hnew
  have hown : ∀ y, ownKey c ((afterHeard σ who i g s' event).pair.engine y)
      = ownKey c (σ.pair.engine y) := by
    intro y
    by_cases hy : y = who
    · subst hy
      simp only [afterHeard, Function.update_self]
      exact ownKey_congr hs.own
    · simp only [afterHeard, Function.update_of_ne hy]
  refine h.arrives hev hbook hlisten ?_ ?_ fun hmem hkey => h.sealed hmem ((hown x).symm ▸ hkey)
  · rw [laneSide_heard hev, hside]
    rcases Party.eq_or_other who x with rfl | rfl
    · rw [Function.update_self, Function.update_of_ne (Party.other_ne _)]
      exact h.lead.pass_leader hi
    · rw [Function.update_self, Function.update_of_ne (Party.ne_other _)]
      exact h.lead.pass_follower hi
  · rcases Party.eq_or_other who x with rfl | rfl
    · simp only [afterHeard, Function.update_self, Function.update_of_ne (Party.other_ne _)]
      exact h.tuned.leader_stays hs hd
    · simp only [afterHeard, Function.update_self, Function.update_of_ne (Party.ne_other _)]
      rcases hsome with he | hsome
      · rw [he]
        exact h.tuned
      · exact h.tuned.follower_stays hs hsome

theorem mem_wiresOf {log : List (Event K C)} (h : w ∈ wiresOf who log) :
    ∃ pt k, Event.sent who pt w k ∈ log := by
  obtain ⟨e, he, hw⟩ := List.mem_filterMap.mp h
  cases e with
  | accepted => cases hw
  | sent y pt w' k =>
      simp only [Event.wireOf] at hw
      split at hw
      · next hy =>
          cases hw
          exact ⟨pt, k, hy ▸ he⟩
      · cases hw

/-- A delivery that turns: the follower leads. -/
theorem InTune.turns (hlen : ∀ i s f b, (c.bytes (c.hkdf i s f b)).length = 32) (hdh : GoodDh c)
    (h : InTune c rk cap σ x ks) (hi : σ.passed x.other ≤ i)
    (hget : (wiresOf x σ.pair.log).reverse[i]? = some w)
    (hg : ∀ p ∈ σ.pair.handed x.other, c.publicKey p ≠ c.publicKey g)
    (hr : ¬ Refused (σ.pair.engine x.other) w)
    (hno : (σ.pair.engine x.other).skippedMessageKeys.has w.header.dh w.header.n.toNat = false)
    (hdhr : (σ.pair.engine x.other).dhr ≠ some w.header.dh) :
    (∃ e s', ratchetDecryptKeyed c w g (σ.pair.engine x.other) = .error e s' ∧
      ∃ ks', InTune c rk cap (afterHeard σ x.other i g s' []) x.other ks') ∨
    ∃ pt k s', ratchetDecryptKeyed c w g (σ.pair.engine x.other) = .ok (pt, k) s' ∧
      ∃ ks', InTune c rk cap (afterHeard σ x.other i g s' [.accepted x.other w pt k])
        x.other ks' := by
  have hnote : (laneSide c σ x).note i = some (wireStamp w) := by
    simp only [Side.note, laneSide, sideAt, ← List.map_reverse, List.getElem?_map, hget,
      Option.map_some]
  obtain ⟨hkey, hrun⟩ := h.lead.newest hi hnote hdhr
  have hbegun : 0 < (σ.pair.engine x).Ns := by
    have hlt := Side.note_lt hnote
    have hrun : ((laneSide c σ x).written.length : Int) ≤ i + ((σ.pair.engine x).Ns : Int) := hrun
    omega
  obtain ⟨f₁, own, hcall, hnew, htuned, hN, hP, hkind⟩ :=
    h.tuned.turns hdh hkey hbegun hr hno hdhr g
  have hsealed : w.header.n.toNat < 2 ^ 32 → ∃ pt k, Sealed c rk ks pt w k := by
    intro hshort
    obtain ⟨pt, k, hmem⟩ := mem_wiresOf (List.mem_reverse.mp (List.mem_of_getElem? hget))
    exact ⟨pt, k, h.sealed hmem hkey hshort⟩
  have hlisten := h.listens x.other
  rw [Party.other_other] at hlisten
  obtain ⟨hst, hout⟩ := hlisten.turned hlen hdh hr hnew hcall hnote hsealed
  generalize hs' : after (ratchetDecryptKeyed c w g (σ.pair.engine x.other)) = s' at hst
  -- The key it is about to send under is new to its book.
  obtain ⟨hbook, hfresh⟩ : Book c x.other (g :: σ.pair.handed x.other) σ.pair.log s' ∧
      ownKey c s' ∉ headerKeys x.other σ.pair.log := by
    rcases hkind with hown | ⟨hsame, hdeaf⟩
    · have hown := hst.send.own.trans hown
      exact ⟨(h.book x.other).turn hg hown, (h.book x.other).new hg hown⟩
    · refine ⟨(h.book x.other).stay (hsame.trans hst.send) g, ?_⟩
      have hempty : (laneSide c σ x.other).written = [] := by
        rcases h.lead.answers with hremote | hmute
        · rw [show (laneSide c σ x).remote = none from hdeaf] at hremote
          cases hremote
        · exact hmute.2
      rw [← keys_written, show (wiresOf x.other σ.pair.log).map wireStamp = [] from hempty]
      exact List.not_mem_nil
  have hmain : ∀ event, Noted x.other w event → Listens c cap
      (acceptedKeys x.other (event ++ σ.pair.log)) (laneSide c σ x).written (i + 1) s' →
      ∃ ks', InTune c rk cap (afterHeard σ x.other i g s' event) x.other ks' := by
    intro event hev hheard
    have hside : sideAt c x.other (event ++ σ.pair.log) (i + 1) s'
        = (laneSide c σ x.other).turn w.header.dh (ownKey c s') i :=
      sideAt_turned hst.send (hst.remote.trans hnew.remote) hN hP (hev.wires x.other) i
    refine ⟨own :: ks, h.arrives hev (hev.book_self hbook fun _ _ => hfresh)
      (by rwa [Party.other_other]) ?_ ?_ fun hmem hkey' => ?_⟩
    · rw [laneSide_heard hev, hside, Party.other_other, Function.update_self,
        Function.update_of_ne (Party.ne_other _)]
      exact h.lead.turn hi hnote hdhr _
    · simp only [afterHeard, Party.other_other, Function.update_self,
        Function.update_of_ne (Party.ne_other _)]
      exact htuned.leader_stays hst.send hst.remote
    · simp only [afterHeard, Function.update_self] at hkey'
      exact absurd (mem_headerKeys.mpr ⟨_, _, _, hmem, hkey'⟩) hfresh
  rcases hout with ⟨e, s'', he, hheard⟩ | ⟨pt, k, s'', he, hheard⟩
  · rw [he, after_error] at hs'
    subst hs'
    exact Or.inl ⟨e, s'', he, hmain [] .nothing hheard⟩
  · rw [he, after_ok] at hs'
    subst hs'
    refine Or.inr ⟨pt, k, s'', he, hmain _ (.message pt k) ?_⟩
    rwa [List.singleton_append, acceptedKeys, delivered_self]

/-- Every delivery that keeps the order. -/
theorem InTune.deliver (hlen : ∀ i s f b, (c.bytes (c.hkdf i s f b)).length = 32)
    (hdh : GoodDh c) (h : InTune c rk cap σ x ks) (hi : σ.passed who ≤ i)
    (hget : (wiresOf who.other σ.pair.log).reverse[i]? = some w)
    (hg : ∀ y, ∀ p ∈ σ.pair.handed y, c.publicKey p ≠ c.publicKey g) :
    ∃ x' ks', InTune c rk cap (σ.step c (.deliver who i g)) x' ks' := by
  have herror : ∀ {e s'}, ratchetDecryptKeyed c w g (σ.pair.engine who) = .error e s' →
      σ.step c (.deliver who i g) = afterHeard σ who i g s' [] := by
    intro e s' he
    simp only [Lane.step, hget, Pair.step, he, afterHeard, List.nil_append]
  have hok : ∀ {pt k s'}, ratchetDecryptKeyed c w g (σ.pair.engine who) = .ok (pt, k) s' →
      σ.step c (.deliver who i g) = afterHeard σ who i g s' [.accepted who w pt k] := by
    intro pt k s' he
    simp only [Lane.step, hget, Pair.step, he, afterHeard, List.singleton_append]
  by_cases hsame : Refused (σ.pair.engine who) w ∨
      (σ.pair.engine who).skippedMessageKeys.has w.header.dh w.header.n.toNat = true ∨
      (σ.pair.engine who).dhr = some w.header.dh
  · have hnote : (laneSide c σ who.other).written.reverse[i]? = some (wireStamp w) := by
      simp only [laneSide, sideAt, ← List.map_reverse, List.getElem?_map, hget, Option.map_some]
    have hnum : Numbered (laneSide c σ who.other).written := (h.numbered who.other).tail
    obtain ⟨dh, hst, hlisten, hacc⟩ := (h.listens who).hears hlen hnum
      (h.book who.other).apart.2 hi hnote hsame g
    have hlater := hlisten.later (Nat.le_succ_of_le hi)
    cases hr : ratchetDecryptKeyed c w g (σ.pair.engine who) with
    | error e s' =>
        rw [hr] at hst hlater hacc
        rw [herror hr]
        refine ⟨x, ks, h.passes (w := w) hi hst.send hst.remote ?_ .nothing
          (fun hne => absurd rfl hne) hlater⟩
        rcases hacc with hacc | ⟨e', s'', he, hcase⟩
        · refine Or.inr fun hnone => ?_
          rw [(h.listens who).deaf hnone] at hacc
          cases hacc
        · cases he
          exact hcase
    | ok pk s' =>
        rw [hr] at hst hlater hacc
        rw [hok hr]
        have hmem : w.header.dh ∈ acceptedKeys who σ.pair.log :=
          hacc.resolve_right (by rintro ⟨_, _, he, _⟩; cases he)
        refine ⟨x, ks, h.passes hi hst.send hst.remote (Or.inr fun hnone => ?_) (.message _ _)
          (fun _ => hmem) ?_⟩
        · rw [(h.listens who).deaf hnone] at hmem
          cases hmem
        · rw [List.singleton_append, acceptedKeys, delivered_self]
          exact hlater.again hmem
  · rw [not_or, not_or, Bool.not_eq_true] at hsame
    obtain ⟨hr, hno, hdhr⟩ := hsame
    rcases Party.eq_or_other who x with rfl | rfl
    · -- Whatever is under way to the leader is under the key it answers.
      have hnote : (laneSide c σ who.other).note i = some (wireStamp w) := by
        simp only [Side.note, laneSide, sideAt, ← List.map_reverse, List.getElem?_map, hget,
          Option.map_some]
      exact absurd (h.lead.toLeader i _ hi hnote) hdhr
    · rw [Party.other_other] at hget
      rcases h.turns hlen hdh hi hget (hg x.other) hr hno hdhr with
        ⟨e, s', he, ks', h'⟩ | ⟨pt, k, s', he, ks', h'⟩
      · rw [herror he]
        exact ⟨x.other, ks', h'⟩
      · rw [hok he]
        exact ⟨x.other, ks', h'⟩

theorem InTune.step (hlen : ∀ i s f b, (c.bytes (c.hkdf i s f b)).length = 32)
    (hdh : GoodDh c) (hinv : AeadInverse c) (h : ∃ x ks, InTune c rk cap σ x ks)
    {act : LaneAct P} (hact : Orderly c σ act) :
    ∃ x ks, InTune c rk cap (σ.step c act) x ks := by
  obtain ⟨x, ks, h⟩ := h
  cases act with
  | encrypt who pt =>
      simp only [Orderly, ratchetEncrypt, map_apply] at hact
      cases he : ratchetEncryptKeyed c pt (σ.pair.engine who) with
      | error e s' =>
          rw [he] at hact
          cases hact
      | ok wk s' =>
          have hstep : σ.step c (.encrypt who pt) = afterSent σ who s' pt wk.1 wk.2 := by
            simp only [Lane.step, Pair.step, he, afterSent]
          rw [hstep]
          exact ⟨x, ks, h.encrypt hinv hdh he⟩
  | deliver who i g =>
      obtain ⟨hi, hlt, hg⟩ := hact
      rw [← List.length_reverse] at hlt
      exact h.deliver hlen hdh hi (List.getElem?_eq_getElem hlt) hg

theorem InTune.start {gen : Party → P} {τ : Pair K P C}
    (h : Pair.start c rk cap gen = .ok τ) :
    InTune c rk cap { pair := τ } .initiator [gen .initiator] := by
  obtain ⟨hs, hh, hl⟩ := start_ok h
  have hstate := start_engine h
  have hwritten : ∀ who, (laneSide c { pair := τ } who).written = [] := by
    intro who
    simp only [laneSide, sideAt, hl]
    rfl
  have hfirst : ∀ who, (laneSide c { pair := τ } who).upcoming = ⟨c.publicKey (gen who), 0, 0⟩ := by
    intro who
    simp only [laneSide, sideAt, ownKey, hstate who]
    rfl
  have hposed : ∀ who, Poised (laneSide c { pair := τ } who) := by
    intro who
    rw [Poised, hfirst, hwritten]
    exact .first _
  refine ⟨?_, ?_, fun hmem => ?_, fun who => ?_, fun who => ?_⟩
  · refine Lead.start (hwritten _) (hwritten _) (hposed _) (hposed _) (Or.inr ?_)
    show (τ.engine .responder).sendingChainKey = none ∧ (τ.engine .responder).dhr = none
    rw [hstate]
    exact ⟨rfl, rfl⟩
  · have hlead : Speaks c rk (gen .initiator) [] (τ.engine .initiator) := by
      rw [hstate]
      exact ⟨rfl, rfl, rfl⟩
    have hwait : Waits c rk (gen .responder) [gen .initiator] (τ.engine .responder) := by
      rw [hstate]
      exact ⟨rfl, rfl, rfl⟩
    refine .born hlead ?_ hwait ?_ ?_ ?_ ?_ ?_
    all_goals rw [hstate]
    all_goals rfl
  · rw [hl] at hmem
    cases hmem
  · rw [hl, hh]
    refine ⟨⟨fun _ => ?_, trivial⟩, fun key hkey => ?_, fun w p k earlier hsuf => ?_,
      fun pt w k before hsuf => ?_⟩
    · exact List.not_mem_nil
    · rcases hkey with rfl | hkey
      · refine ⟨gen who, List.mem_singleton_self _, ?_⟩
        rw [ownKey, hstate]
        rfl
      · cases hkey
    · cases List.suffix_nil.mp hsuf
    · cases List.suffix_nil.mp hsuf
  · rw [hl]
    have hd : (τ.engine who).dhr = none := by rw [hstate]
    refine ⟨Bounded.start (hs who), fun hsome => ?_, fun _ => rfl, fun id hid => ?_, fun Y hY => ?_⟩
    · rw [hd] at hsome
      cases hsome
    · rw [hstate] at hid
      cases hid
    · rw [hd] at hY
      cases hY

end Steps

/-- In every conversation that keeps the order of each direction, over any
losses: every header sent says what its sender sent before it, under a key that
has been renewed since whatever first acceptance there was. -/
theorem header_law (hlen : ∀ i s f b, (c.bytes (c.hkdf i s f b)).length = 32)
    (hdh : GoodDh c) (hinv : AeadInverse c) {gen : Party → P} {τ : Pair K P C}
    (hstart : Pair.start c rk cap gen = .ok τ) {acts : List (LaneAct P)}
    (hacts : Along (Lane.step c) (Orderly c) { pair := τ } acts) {who : Party} {pt : Bytes}
    {w : RatchetWireMessage C} {k : K} {before : List (Event K C)}
    (hsent : (Event.sent who pt w k :: before) <:+
      (runFrom (Lane.step c) { pair := τ } acts).pair.log) :
    HeaderLaw who before w.header := by
  obtain ⟨x, ks, h⟩ := hacts.invariant (I := fun σ => ∃ x ks, InTune c rk cap σ x ks)
    (fun _ _ h hact => InTune.step hlen hdh hinv h hact) ⟨_, _, InTune.start hstart⟩
  exact (h.book who).law pt w k before hsent

/-! ## The symbolic model -/

instance Orderly.decidable (σ : Lane SymKey Nat Box) :
    (act : LaneAct Nat) → Decidable (Orderly symbolic σ act)
  | .encrypt _ _ => inferInstanceAs (Decidable (_ = true))
  | .deliver _ _ g =>
      have : Decidable (∀ x, ∀ p ∈ σ.pair.handed x,
          symbolic.publicKey p ≠ symbolic.publicKey g) :=
        decidable_of_iff _ Party.forall_iff.symm
      inferInstanceAs (Decidable (_ ∧ _ ∧ _))

/-- Two messages, the first one lost; an answer; two more. -/
def symLane : List (LaneAct Nat) := [
  .encrypt .initiator [10], .encrypt .initiator [11], .deliver .responder 1 3,
  .encrypt .responder [20], .deliver .initiator 0 4,
  .encrypt .initiator [12], .encrypt .initiator [13]]

theorem header_law_lane : ∃ w k before,
    (Event.sent .initiator [13] w k :: before) <:+
      (runFrom (Lane.step symbolic) { pair := symPair 1000 } symLane).pair.log ∧
    w.header.n = 1 ∧ w.header.pn = 2 ∧ HeaderLaw .initiator before w.header := by
  have hacts : Along (Lane.step symbolic) (Orderly symbolic) { pair := symPair 1000 } symLane := by
    decide +kernel
  have hsuf := List.suffix_refl
    (runFrom (Lane.step symbolic) { pair := symPair 1000 } symLane).pair.log
  exact ⟨_, _, _, hsuf, rfl, rfl, header_law symKeys_injective.hkdf_length symbolic_goodDh
    symbolic_aeadInverse (symPair_start 1000) hacts hsuf⟩

end GhostChat.Proofs
