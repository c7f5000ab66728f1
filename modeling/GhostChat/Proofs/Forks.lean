import GhostChat.Lib.Turns
import GhostChat.Proofs.AnyOrder
import GhostChat.Proofs.Voice

/-!
# What the fork detector says of an honest sender

The detector keeps the number, the previous length and the key of the last
header it let through, and takes a smaller number for a fork, under the same
key or another one, and a smaller previous length too. An honest sender starts
again at zero whenever its ratchet has turned.

The headers of a sender are decided by how its turns lie between its messages,
and `Lib/Turns.lean` says how they lie in a conversation that is delivered in
sending order. What is left is a question about such a stream alone: it passes
exactly if no run but the last is longer than one message
(`unalarmed_iff`). A first header that follows a run of two or
more is the one the detector refuses, and the sender could tell: its `PN` is
two or more while its `Ns` is zero.

Neither freshness of keys nor any law of the cryptography is used, and a call
that raises may come at any time.
-/

namespace GhostChat.Proofs

open GhostChat.Lib GhostChat.Lib.Effect GhostChat.Lib.Turns GhostChat.Lib.Window GhostChat.Ref

variable {K P C : Type} {c : Crypto K P C}

/-! ## Feeding the detector -/

/-- A detector that has been fed, and whether it has said `True` to any
header. -/
structure Fed where
  state : ForkDetectionState := {}
  alarm : Bool := false
  deriving DecidableEq

def Fed.header (d : Fed) (h : RatchetHeader) : Fed :=
  match detectFork h.dhPub h.n h.pn d.state with
  | .ok forked state => { state := state, alarm := d.alarm || forked }
  | .error _ state => { d with state := state }

/-- The headers in the order they were sent, to a fresh detector. -/
def feed (headers : List RatchetHeader) : Fed := headers.foldl Fed.header {}

/-- A header as a stamp. -/
def stampOf (h : RatchetHeader) : Stamp Bytes := ⟨h.dhPub, h.pn, h.n⟩

/-- What the detector remembers after the headers with these stamps. -/
def remembers : List (Stamp Bytes) → ForkDetectionState
  | [] => {}
  | st :: _ => ⟨st.num, st.prev, some st.key⟩

/-- No run but the newest is longer than one note. -/
def ShortRuns (l : List (Stamp Bytes)) : Prop := ∀ st ∈ l, st.num = 0 → st.prev ≤ 1

/-- The two comparisons of the number do not look at the key, once there is
one. -/
theorem detectFork_remembered (st : Stamp Bytes) (key : Bytes) (num prev : Int) :
    detectFork key num prev ⟨st.num, st.prev, some st.key⟩ =
      if num < st.num ∨ prev < st.prev then .ok true ⟨st.num, st.prev, some st.key⟩
      else .ok false ⟨num, prev, some key⟩ := by
  by_cases hnum : num < st.num
  · by_cases hkey : st.key = key
    · simp [detectFork, hnum, hkey]
    · simp [detectFork, hnum, hkey]
  · by_cases hprev : prev < st.prev
    · simp [detectFork, hnum, hprev]
    · simp [detectFork, hnum, hprev]
      rfl

/-- The headers of `l`, newest first, have passed. -/
def Passed (l : List RatchetHeader) : Prop := feed l.reverse = ⟨remembers (l.map stampOf), false⟩

theorem feed_concat (l : List RatchetHeader) (h : RatchetHeader) :
    feed (h :: l).reverse = (feed l.reverse).header h := by
  rw [feed, List.reverse_cons, List.foldl_append]
  rfl

/-- An alarm stays. -/
theorem alarm_of_tail {l : List RatchetHeader} {h : RatchetHeader}
    (hl : (feed l.reverse).alarm = true) : (feed (h :: l).reverse).alarm = true := by
  rw [feed_concat, Fed.header]
  split
  · show ((feed l.reverse).alarm || _) = true
    rw [hl, Bool.true_or]
  · exact hl

/-- The next header of a numbered stream. -/
theorem Passed.next {l : List RatchetHeader} {h : RatchetHeader} (hl : Passed l)
    (hnum : Numbered ((h :: l).map stampOf)) (hshort : ShortRuns (l.map stampOf)) :
    (h.n = 0 → h.pn ≤ 1) ∧ Passed (h :: l) ∨
      ¬ (h.n = 0 → h.pn ≤ 1) ∧ (feed (h :: l).reverse).alarm = true := by
  rw [Passed, feed_concat, hl, Fed.header]
  cases l with
  | nil =>
      obtain ⟨hpn, hn⟩ : h.pn = 0 ∧ h.n = 0 := hnum.oldest
      refine Or.inl ⟨fun _ => by omega, ?_⟩
      simp only [remembers, List.map_nil, List.map_cons, stampOf, hpn, hn]
      rfl
  | cons h' l =>
      simp only [List.map_cons, remembers, detectFork_remembered]
      have hcases : (h.n = h'.n + 1 ∧ h.pn = h'.pn) ∨ (h.n = 0 ∧ h.pn = h'.n + 1) := hnum.newest
      have hnonneg : 0 ≤ h'.n := hnum.num_nonneg (stampOf h')
        (List.mem_cons_of_mem _ List.mem_cons_self)
      have hlast : h'.n = 0 → h'.pn ≤ 1 := hshort (stampOf h') List.mem_cons_self
      rcases hcases with ⟨hn, hpn⟩ | ⟨hn, hpn⟩
      · have hpass : ¬ (h.n < h'.n ∨ h.pn < h'.pn) := by omega
        refine Or.inl ⟨fun _ => by omega, ?_⟩
        rw [show (stampOf h').num = h'.n from rfl, show (stampOf h').prev = h'.pn from rfl,
          if_neg hpass]
        rfl
      · rw [show (stampOf h').num = h'.n from rfl, show (stampOf h').prev = h'.pn from rfl]
        by_cases hlong : 0 < h'.n
        · refine Or.inr ⟨fun hle => ?_, ?_⟩
          · have := hle hn
            omega
          · rw [if_pos (Or.inl (by omega))]
            rfl
        · have hzero : h'.n = 0 := by omega
          have hprev := hlast hzero
          have hpass : ¬ (h.n < h'.n ∨ h.pn < h'.pn) := by omega
          refine Or.inl ⟨fun _ => by omega, ?_⟩
          rw [if_neg hpass]
          rfl

/-- The headers of a numbered stream pass the detector exactly if its runs are
short. -/
theorem unalarmed_iff {l : List RatchetHeader} (hnum : Numbered (l.map stampOf)) :
    (feed l.reverse).alarm = false ↔ ShortRuns (l.map stampOf) := by
  have hboth : (ShortRuns (l.map stampOf) ∧ Passed l) ∨
      (¬ ShortRuns (l.map stampOf) ∧ (feed l.reverse).alarm = true) := by
    induction l with
    | nil => exact Or.inl ⟨nofun, rfl⟩
    | cons h l ih =>
        have hcons : ShortRuns ((h :: l).map stampOf) ↔
            (h.n = 0 → h.pn ≤ 1) ∧ ShortRuns (l.map stampOf) := List.forall_mem_cons
        rw [hcons]
        rcases ih hnum.tail with ⟨hshort, hpassed⟩ | ⟨hlong, halarm⟩
        · rcases hpassed.next hnum hshort with ⟨hh, hpass⟩ | ⟨hh, halarm⟩
          · exact Or.inl ⟨⟨hh, hshort⟩, hpass⟩
          · exact Or.inr ⟨fun hall => hh hall.1, halarm⟩
        · exact Or.inr ⟨fun hall => hlong hall.2, alarm_of_tail halarm⟩
  rcases hboth with ⟨hshort, hpassed⟩ | ⟨hlong, halarm⟩
  · refine iff_of_true ?_ hshort
    rw [hpassed]
  · refine iff_of_false ?_ hlong
    rw [halarm]
    nofun

/-! ## Two engines -/

/-- Each direction is delivered in sending order; what is passed over is
lost. -/
def InSendingOrder (σ : Duo K P C) : DuoAct P → Prop
  | .encrypt _ _ _ => True
  | .deliver who i _ => i < (σ.posted who.other).length ∧ ∀ j ∈ σ.arrived who, j < i

/-- The headers of a party's messages, in sending order. -/
def headersOf (σ : Duo K P C) (who : Party) : List RatchetHeader :=
  (σ.posted who).map (·.message.header)

/-- `who` sends no first message of a run after a run of two or more. -/
def KeepsShort (c : Crypto K P C) (who : Party) (σ : Duo K P C) : DuoAct P → Prop
  | .encrypt x pt ad => x = who →
      (value? (DoubleRatchet.encrypt c pt ad (σ.engine who))).isSome = true →
      (σ.engine who).Ns = 0 → (σ.engine who).PN ≤ 1
  | .deliver _ _ _ => True

/-- A party's place in the exchange. -/
def sideOf (c : Crypto K P C) (σ : Duo K P C) (who : Party) : Side Bytes where
  upcoming := ⟨c.publicKey (σ.engine who).dhs, (σ.engine who).PN, (σ.engine who).Ns⟩
  remote := (σ.engine who).dhr
  mute := Mute (σ.engine who)
  written := (headersOf σ who).reverse.map stampOf
  passed := nextExpected (receivedBy σ who) ()

structure Conversing (c : Crypto K P C) (σ : Duo K P C) : Prop where
  led : Led Party.other (sideOf c σ)
  idle : ∀ who, Idle (σ.engine who)

section Steps

variable {σ σ' : Duo K P C} {who : Party} {s : RatchetState K P}

/-- One party has moved. -/
theorem Conversing.moved {side : Side Bytes}
    (hled : Led Party.other (Function.update (sideOf c σ) who side))
    (hself : sideOf c σ' who = side)
    (hother : ∀ x, x ≠ who → sideOf c σ' x = sideOf c σ x)
    (hidle : ∀ x, Idle (σ'.engine x)) : Conversing c σ' := by
  refine ⟨?_, hidle⟩
  rwa [Function.eq_update_iff.mpr ⟨hself, hother⟩]

theorem idle_update (h : ∀ x, Idle (σ.engine x)) (hs : Idle s) (x : Party) :
    Idle (Function.update σ.engine who s x) := by
  by_cases hx : x = who
  · rw [hx, Function.update_self]
    exact hs
  · rw [Function.update_of_ne hx]
    exact h x

/-- A message is one more stamp. -/
theorem sideOf_posted {pt ad : Bytes} {em : EncryptedMessage C}
    (h : Ratchet.Spoken c (σ.engine who) em s) :
    sideOf c { σ with
        engine := Function.update σ.engine who s
        posted := Function.update σ.posted who (σ.posted who ++ [⟨pt, ad, em⟩]) } who
      = (sideOf c σ who).write := by
  have hmute : Mute s = Mute (σ.engine who) := by
    refine propext (iff_of_false (fun hm => ?_) h.able)
    have := h.chain
    rw [hm.1] at this
    cases this
  simp only [sideOf, headersOf, receivedBy, Side.write, Function.update_self, List.map_append,
    List.map_cons, List.map_nil, List.reverse_append, List.reverse_cons, List.reverse_nil,
    List.nil_append, List.cons_append, stampOf, h.own, h.remote, h.count, h.prev, h.header,
    hmute, Nat.cast_succ]

theorem sideOf_silent (h : Ratchet.Silent (σ.engine who) s) :
    sideOf c { σ with engine := Function.update σ.engine who s } who = sideOf c σ who := by
  simp only [sideOf, headersOf, receivedBy, Function.update_self, h.own, h.remote, h.count,
    h.prev, h.mute_iff]

/-- A party that is spoken to passes on, or turns. -/
theorem sideOf_arrived {i : Nat} (hi : nextExpected (receivedBy σ who) () ≤ i) :
    (∀ (_ : SameVoice (σ.engine who) s), sideOf c { σ with
        engine := Function.update σ.engine who s
        arrived := Function.update σ.arrived who (i :: σ.arrived who) } who
      = (sideOf c σ who).pass i) ∧
    ∀ X, Turned (σ.engine who) X s → sideOf c { σ with
        engine := Function.update σ.engine who s
        arrived := Function.update σ.arrived who (i :: σ.arrived who) } who
      = (sideOf c σ who).turn X (c.publicKey s.dhs) i := by
  have hpassed := nextExpected_ahead hi
  constructor
  · intro h
    simp only [sideOf, headersOf, receivedBy, Side.pass, Function.update_self, h.own, h.remote,
      h.count, h.prev, h.mute_iff, List.map_cons] at hpassed ⊢
    rw [hpassed]
  · intro X h
    have hmute : Mute s = False := propext (iff_false_intro h.not_mute)
    simp only [sideOf, headersOf, receivedBy, Side.turn, Function.update_self, h.remote,
      h.count, h.prev, hmute, List.map_cons, Nat.cast_zero] at hpassed ⊢
    rw [hpassed]

theorem Conversing.step (h : Conversing c σ) {act : DuoAct P} (hact : InSendingOrder σ act) :
    Conversing c (σ.step c act) := by
  cases act with
  | encrypt who pt ad =>
      obtain ⟨hsilent, hspoken⟩ := Ratchet.encryptKeyed_voice (c := c) (h.idle who) pt ad
      simp only [Duo.step, DoubleRatchet.encrypt, map_apply]
      cases hcall : DoubleRatchet.encryptKeyed c pt ad (σ.engine who) with
      | error e s =>
          have hs := hsilent e s hcall
          refine ⟨?_, idle_update h.idle (hs.idle (h.idle who))⟩
          have hsame : sideOf c { σ with engine := Function.update σ.engine who s }
              = sideOf c σ := by
            funext x
            by_cases hx : x = who
            · rw [hx]
              exact sideOf_silent hs
            · simp only [sideOf, headersOf, receivedBy, Function.update_of_ne hx]
          rw [hsame]
          exact h.led
      | ok x s =>
          have hs := hspoken x.1 x.2 s hcall
          refine Conversing.moved (h.led.write Party.other_ne Party.other_other Party.eq_or_other
            hs.able) (sideOf_posted hs) (fun y hy => ?_) (idle_update h.idle hs.idle)
          simp only [sideOf, headersOf, receivedBy, Function.update_of_ne hy]
  | deliver who i g =>
      obtain ⟨hi, hnew⟩ := hact
      have hget := List.getElem?_eq_getElem hi
      obtain ⟨x, hx⟩ : ∃ x, (σ.posted who.other)[i]? = some x := ⟨_, hget⟩
      have hpassed : nextExpected (receivedBy σ who) () ≤ i := by
        by_contra hlt
        obtain ⟨n, hn, hmem⟩ := lt_nextExpected.mp (Nat.lt_of_not_le hlt)
        obtain ⟨j, hj, he⟩ := List.mem_map.mp hmem
        cases he
        have := hnew n hj
        omega
      have hnote : (sideOf c σ who.other).note i = some (stampOf x.message.header) := by
        simp only [Side.note, sideOf, headersOf, ← List.map_reverse, List.reverse_reverse,
          List.getElem?_map, hx, Option.map_some]
      obtain ⟨hkept, hturned⟩ := sideOf_arrived (c := c)
        (s := after (DoubleRatchet.decryptKeyed c x.message x.ad g (σ.engine who))) hpassed
      have hother : ∀ (s : RatchetState K P) (y : Party), y ≠ who → sideOf c { σ with
          engine := Function.update σ.engine who s
          arrived := Function.update σ.arrived who (i :: σ.arrived who) } y = sideOf c σ y := by
        intro s y hy
        simp only [sideOf, headersOf, receivedBy, Function.update_of_ne hy]
      have hafter : after (DoubleRatchet.decrypt c x.message x.ad g (σ.engine who))
          = after (DoubleRatchet.decryptKeyed c x.message x.ad g (σ.engine who)) := by
        rw [DoubleRatchet.decrypt, map_apply]
        cases DoubleRatchet.decryptKeyed c x.message x.ad g (σ.engine who) <;> rfl
      simp only [Duo.step, hx, hafter]
      rcases Ratchet.decryptKeyed_voice (c := c) (s := σ.engine who) x.message x.ad g with hs | hs
      · exact Conversing.moved (h.led.pass Party.other_ne Party.other_other Party.eq_or_other
          hpassed) (hkept hs) (hother _) (idle_update h.idle (hs.idle (h.idle who)))
      · exact Conversing.moved (h.led.turn Party.other_ne Party.other_other Party.eq_or_other
          hpassed hnote hs.new _) (hturned _ hs) (hother _) (idle_update h.idle hs.idle)

/-- What is written is numbered. -/
theorem Conversing.numbered (h : Conversing c σ) (who : Party) :
    Poised (sideOf c σ who) := by
  obtain ⟨x, hx⟩ := h.led
  rcases Party.eq_or_other who x with rfl | rfl
  · exact hx.leader
  · exact hx.follower

/-- The runs of a party stay short exactly where it keeps them short. -/
theorem Conversing.short_step (h : Conversing c σ) {act : DuoAct P} (who : Party) :
    ShortRuns ((headersOf (σ.step c act) who).reverse.map stampOf) ↔
      ShortRuns ((headersOf σ who).reverse.map stampOf) ∧ KeepsShort c who σ act := by
  cases act with
  | deliver x i g =>
      have hsame : headersOf (σ.step c (.deliver x i g)) who = headersOf σ who := by
        simp only [Duo.step]
        cases (σ.posted x.other)[i]? <;> rfl
      rw [hsame]
      exact (and_iff_left trivial).symm
  | encrypt x pt ad =>
      obtain ⟨-, hspoken⟩ := Ratchet.encryptKeyed_voice (c := c) (h.idle x) pt ad
      simp only [Duo.step, KeepsShort, DoubleRatchet.encrypt, map_apply]
      cases hcall : DoubleRatchet.encryptKeyed c pt ad (σ.engine x) with
      | error e s =>
          refine (and_iff_left ?_).symm
          rintro rfl hsome
          simp [hcall] at hsome
      | ok y s =>
          have hs := hspoken y.1 y.2 s hcall
          by_cases hx : x = who
          · subst hx
            simp only [headersOf, Function.update_self, List.map_append, List.map_cons,
              List.map_nil, List.reverse_append, List.reverse_cons, List.reverse_nil,
              List.nil_append, List.cons_append, ShortRuns, List.forall_mem_cons, hcall,
              value?_ok, Option.isSome_some, hs.header, stampOf, true_implies]
            rw [and_comm]
            refine and_congr_right' ?_
            constructor
            · intro hle hNs
              have := hle (by omega)
              omega
            · intro hle hNs
              have := hle (by omega)
              omega
          · simp only [headersOf, Function.update_of_ne (Ne.symm hx)]
            exact (and_iff_left fun he => absurd he hx).symm

end Steps

theorem init_fields {rootKey : K} {own g : P} {remote : Option Bytes} {isInitiator : Bool}
    {maxSkipped : Nat} {s : RatchetState K P}
    (h : DoubleRatchet.init c rootKey (some own) remote isInitiator maxSkipped g = .ok s) :
    s.dhs = own ∧ s.dhr = remote ∧ s.Ns = 0 ∧ s.PN = 0 ∧ (remote = none → s.ckS = none) := by
  cases remote with
  | none =>
      cases h
      exact ⟨rfl, rfl, rfl, rfl, fun _ => rfl⟩
  | some X =>
      simp only [DoubleRatchet.init, Option.getD_some] at h
      obtain ⟨d, -, h⟩ := except_bind_ok h
      cases h
      exact ⟨rfl, rfl, rfl, rfl, by simp⟩

/-- Each engine knows the other's key, or knows none yet. -/
theorem Conversing.start {rootKey : K} {dhs : Party → P} {dhr : Party → Option Bytes}
    {cap : Party → Nat} {σ : Duo K P C}
    (hlink : ∀ who, dhr who = none ∨ dhr who = some (c.publicKey (dhs who.other)))
    (h : Duo.start c rootKey dhs dhr cap = .ok σ) :
    Conversing c σ ∧ ∀ who, σ.posted who = [] := by
  rw [Duo.start] at h
  obtain ⟨a, ha, h⟩ := except_bind_ok h
  obtain ⟨b, hb, h⟩ := except_bind_ok h
  cases h
  obtain ⟨hao, har, haN, haP, hac⟩ := init_fields ha
  obtain ⟨hbo, hbr, hbN, hbP, hbc⟩ := init_fields hb
  refine ⟨⟨?_, fun who => ?_⟩, fun _ => rfl⟩
  · have hfirst : ∀ key : Bytes, Numbered [(⟨key, ((0 : Nat) : Int), ((0 : Nat) : Int)⟩
        : Stamp Bytes)] := fun key => .first key
    rcases hlink .initiator with hnone | hsome
    · -- The initiator knows no key: it waits for the other one to speak.
      refine ⟨.responder, Lead.start rfl rfl ?_ ?_ (Or.inr ⟨hac hnone, har.trans hnone⟩)⟩
      · rw [Poised, sideOf, hbN, hbP]
        exact hfirst _
      · rw [Poised, sideOf, Party.other, haN, haP]
        exact hfirst _
    · refine ⟨.initiator, Lead.start rfl rfl ?_ ?_ (Or.inl ?_)⟩
      · rw [Poised, sideOf, haN, haP]
        exact hfirst _
      · rw [Poised, sideOf, Party.other, hbN, hbP]
        exact hfirst _
      · show a.dhr = some (c.publicKey b.dhs)
        rw [har, hsome, hbo]
        rfl
  · cases who with
    | initiator => exact fun _ => haN
    | responder => exact fun _ => hbN

/-- In every conversation of two engines that is delivered in sending order:
the detector, fed the headers of one sender, never says `True`, exactly if that
sender never opens a run after a run of two or more messages. -/
theorem fork_detection_iff {rootKey : K} {dhs : Party → P} {dhr : Party → Option Bytes}
    {cap : Party → Nat} {σ : Duo K P C}
    (hlink : ∀ who, dhr who = none ∨ dhr who = some (c.publicKey (dhs who.other)))
    (hstart : Duo.start c rootKey dhs dhr cap = .ok σ) {acts : List (DuoAct P)}
    (hacts : Along (Duo.step c) InSendingOrder σ acts) (who : Party) :
    (feed (headersOf (runFrom (Duo.step c) σ acts) who)).alarm = false ↔
      Along (Duo.step c) (KeepsShort c who) σ acts := by
  obtain ⟨h₀, hempty⟩ := Conversing.start hlink hstart
  have hend : Conversing c (runFrom (Duo.step c) σ acts) :=
    Along.invariant (fun _ _ h hact => h.step hact) h₀ hacts
  have hfeed := unalarmed_iff (hend.numbered who).tail
  rw [List.reverse_reverse] at hfeed
  rw [hfeed, Along.iff_of_step (G := fun σ => ShortRuns ((headersOf σ who).reverse.map stampOf))
    (fun _ _ h hact => h.step hact) (fun _ _ h _ => h.short_step who) h₀ hacts]
  refine and_iff_right ?_
  rw [headersOf, hempty]
  nofun

/-! ## The symbolic model -/

/-- The responder does not know the initiator's key yet. -/
def symKnown : Party → Option Bytes
  | .initiator => some (symPublicKey (symGen .responder))
  | .responder => none

def symOpenDuo : Duo SymKey Nat Box where
  engine
    | .initiator => engineAt symbolic symLinking (.atom (.shared
        (unordered (symPublicKey (symGen .initiator)) (symPublicKey (symGen .responder)))))
        .initiator 0 0 {}
    | .responder => {
        rootKey := symRoot, dhs := symGen .responder, dhr := none, ckS := none, ckR := none }

theorem symOpenDuo_start :
    Duo.start symbolic symRoot symGen symKnown (fun _ => 1000) = .ok symOpenDuo := by
  rw [Duo.start]
  refine congrArg Except.ok (congrArg (fun e => Duo.mk e _ _) (funext fun who => ?_))
  cases who <;> rfl

theorem symKnown_linked (who : Party) :
    symKnown who = none ∨ symKnown who = some (symbolic.publicKey (symGen who.other)) := by
  cases who with
  | initiator => exact Or.inr rfl
  | responder => exact Or.inl rfl

instance InSendingOrder.decidable (σ : Duo SymKey Nat Box) :
    (act : DuoAct Nat) → Decidable (InSendingOrder σ act)
  | .encrypt _ _ _ => isTrue trivial
  | .deliver _ _ _ => inferInstanceAs (Decidable (_ ∧ _))

instance KeepsShort.decidable (who : Party) (σ : Duo SymKey Nat Box) :
    (act : DuoAct Nat) → Decidable (KeepsShort symbolic who σ act)
  | .encrypt _ _ _ => inferInstanceAs (Decidable (_ → _ → _ → _))
  | .deliver _ _ _ => isTrue trivial

/-- One message, its answer, the answer to that, and one more. -/
def symChat : List (DuoAct Nat) := [
  .encrypt .initiator [10] [], .deliver .responder 0 3,
  .encrypt .responder [20] [], .deliver .initiator 0 4,
  .encrypt .initiator [11] [], .encrypt .initiator [12] []]

theorem fork_detection_chat :
    Along (Duo.step symbolic) InSendingOrder symOpenDuo symChat ∧
      (feed (headersOf (runFrom (Duo.step symbolic) symOpenDuo symChat) .initiator)).alarm
        = false := by
  have hacts : Along (Duo.step symbolic) InSendingOrder symOpenDuo symChat := by
    decide +kernel
  exact ⟨hacts, (fork_detection_iff symKnown_linked symOpenDuo_start hacts .initiator).mpr
    (by decide +kernel)⟩

/-- Two messages before the answer: the first one after it is taken for a
fork. -/
theorem fork_detection_alarm :
    Duo.start symbolic symRoot symGen symKnown (fun _ => 1000) = .ok symOpenDuo ∧
      Along (Duo.step symbolic) InSendingOrder symOpenDuo
        (.encrypt .initiator [9] [] :: symChat) ∧
      (feed (headersOf (runFrom (Duo.step symbolic) symOpenDuo
        (.encrypt .initiator [9] [] :: symChat)) .initiator)).alarm = true :=
  ⟨symOpenDuo_start, by decide +kernel, by decide +kernel⟩

end GhostChat.Proofs
