import GhostChat.Lib.Window
import GhostChat.Proofs.Linked
import GhostChat.Ref.Duo

/-!
# Delivery in any order on a symmetric link

Two engines that know each other's key from the start never turn the ratchet,
so each direction is one chain, and an engine is determined by how many
messages it has sent, by the number it expects next, and by the keys it has
stored. What it has stored is exactly what the network owes it: the keys of
the messages it has passed over and not received (`Stored`).

Whoever speaks first, the responder's sending chain and the initiator's
receiving chain are opened from the same root: the first use of the common DH
output goes to the one chain and the second to the other (`sendPath`). So the
two directions do not meet, and the invariant is one statement for each party.
-/

namespace GhostChat.Proofs

open GhostChat.Lib GhostChat.Lib.Effect GhostChat.Lib.Window GhostChat.Ref

variable {K P C : Type} {c : Crypto K P C} {l : Linking K P} {d : K}

/-! ## What the network promises -/

/-- What a party has received, as items of one line. -/
def receivedBy (σ : Duo K P C) (who : Party) : List (Unit × Nat) :=
  (σ.arrived who).map fun i => ((), i)

/-- Encryptions return; a delivery is of a message the peer has sent, the first
one of that message, and leaves no more than `cap who` messages passed over. -/
def AnyOrder (c : Crypto K P C) (cap : Party → Nat) (σ : Duo K P C) : DuoAct P → Prop
  | .encrypt who pt ad => (value? (DoubleRatchet.encrypt c pt ad (σ.engine who))).isSome = true
  | .deliver who i _ => i < (σ.posted who.other).length ∧ i ∉ σ.arrived who ∧
      (pending (((), i) :: receivedBy σ who)).card ≤ cap who

/-- A delivery returns what was encrypted. -/
def ReturnsPosted (c : Crypto K P C) (σ : Duo K P C) : DuoAct P → Prop
  | .encrypt _ _ _ => True
  | .deliver who i g => σ.opens c who i g = (σ.posted who.other)[i]?.map (·.plaintext)

/-! ## The stored keys -/

/-- A key as it is filed. -/
def filedKey (c : Crypto K P C) (l : Linking K P) (d : K) (sender : Party) (i : Nat) :
    (Bytes × Int) × K :=
  ((c.publicKey (l.dhs sender), (i : Int)), letterKey c l d sender i)

/-- The store holds the keys of the pending messages of `sender`, each once. -/
structure Stored (c : Crypto K P C) (l : Linking K P) (d : K) (sender : Party)
    (D : List (Unit × Nat)) (store : Odict (Bytes × Int) K) : Prop where
  nodup : store.Nodup
  mem : ∀ e, e ∈ store ↔ ∃ i, ((), i) ∈ pending D ∧ e = filedKey c l d sender i

section Stored

variable {sender : Party} {D : List (Unit × Nat)} {store : Odict (Bytes × Int) K} {n i : Nat}

theorem filedKey_inj {j : Nat} (h : filedKey c l d sender i = filedKey c l d sender j) :
    i = j := by
  injection h with hkey _
  injection hkey with _ hnum
  exact Int.ofNat.inj hnum

theorem mem_passedOver {r len : Nat} {e : (Bytes × Int) × K} :
    e ∈ passedOver c l d sender r len ↔
      ∃ i, (r ≤ i ∧ i < r + len) ∧ e = filedKey c l d sender i := by
  simp only [passedOver, Ratchet.filed, List.mem_map, List.mem_range'_1]
  constructor
  · rintro ⟨i, hi, rfl⟩
    exact ⟨i, hi, rfl⟩
  · rintro ⟨i, hi, rfl⟩
    exact ⟨i, hi, rfl⟩

theorem passedOver_nodup (r len : Nat) : (passedOver c l d sender r len).Nodup :=
  List.Nodup.map (fun _ _ h => filedKey_inj h) List.nodup_range'

theorem Stored.nil : Stored c l d sender [] [] := by
  refine ⟨List.nodup_nil, fun e => ?_⟩
  simp

/-- As many keys as there are messages pending. -/
theorem Stored.length (h : Stored c l d sender D store) : store.length = (pending D).card := by
  classical
  have hset : store.toFinset = (pending D).image fun id => filedKey c l d sender id.2 := by
    ext e
    rw [List.mem_toFinset, h.mem, Finset.mem_image]
    constructor
    · rintro ⟨i, hi, rfl⟩
      exact ⟨((), i), hi, rfl⟩
    · rintro ⟨⟨⟨⟩, i⟩, hi, rfl⟩
      exact ⟨i, hi, rfl⟩
  have hinj : Function.Injective fun id : Unit × Nat => filedKey c l d sender id.2 := by
    rintro ⟨⟨⟩, i⟩ ⟨⟨⟩, j⟩ hij
    exact congrArg (((), ·)) (filedKey_inj hij)
  rw [← List.toFinset_card_of_nodup h.nodup, hset, Finset.card_image_of_injective _ hinj]

theorem Stored.has_iff (h : Stored c l d sender D store) :
    Odict.has store (c.publicKey (l.dhs sender), (i : Int)) = true ↔ ((), i) ∈ pending D := by
  rw [Odict.has_iff, Odict.keys, List.mem_map]
  constructor
  · rintro ⟨e, he, hkey⟩
    obtain ⟨j, hj, rfl⟩ := (h.mem e).mp he
    injection hkey with _ hnum
    rwa [← Int.ofNat.inj hnum]
  · intro hi
    exact ⟨filedKey c l d sender i, (h.mem _).mpr ⟨i, hi, rfl⟩, rfl⟩

/-- Nothing at or past the expected number is stored. -/
theorem Stored.not_has (h : Stored c l d sender D store) (hi : nextExpected D () ≤ i) :
    Odict.has store (c.publicKey (l.dhs sender), (i : Int)) = false := by
  rw [Bool.eq_false_iff, ne_eq, h.has_iff]
  intro hmem
  have : i < nextExpected D () := lt_of_pending hmem
  omega

theorem Stored.get (h : Stored c l d sender D store) (hi : ((), i) ∈ pending D) :
    Odict.get? store (c.publicKey (l.dhs sender), (i : Int))
      = some (letterKey c l d sender i) := by
  obtain ⟨k, hget⟩ := Odict.has_eq_true_iff.mp (h.has_iff.mpr hi)
  obtain ⟨j, -, he⟩ := (h.mem _).mp (Odict.mem_of_get? hget)
  injection he with hkey hval
  injection hkey with _ hnum
  rw [hget, hval, ← Int.ofNat.inj hnum]

/-- A message ahead files the keys it passes over. -/
theorem Stored.ahead (h : Stored c l d sender D store) (hn : nextExpected D () ≤ n) :
    Stored c l d sender (((), n) :: D) (store ++
      passedOver c l d sender (nextExpected D ()) (n - nextExpected D ())) := by
  constructor
  · refine List.nodup_append.mpr ⟨h.nodup, passedOver_nodup _ _, ?_⟩
    rintro e he e' he' rfl
    obtain ⟨i, hi, rfl⟩ := (h.mem e).mp he
    obtain ⟨j, ⟨hj, -⟩, hij⟩ := mem_passedOver.mp he'
    have hlt : i < nextExpected D () := lt_of_pending hi
    have := filedKey_inj hij
    omega
  · intro e
    rw [List.mem_append, h.mem, mem_passedOver]
    constructor
    · rintro (⟨i, hi, rfl⟩ | ⟨i, hi, rfl⟩)
      · exact ⟨i, (mem_pending_ahead hn).mpr (Or.inl hi), rfl⟩
      · exact ⟨i, (mem_pending_ahead hn).mpr (Or.inr ⟨rfl, hi.1, by show i < n; omega⟩), rfl⟩
    · rintro ⟨i, hi, rfl⟩
      rcases (mem_pending_ahead hn).mp hi with hi | ⟨-, hlo, hhi⟩
      · exact Or.inl ⟨i, hi, rfl⟩
      · have hlo : nextExpected D () ≤ i := hlo
        have hhi : i < n := hhi
        exact Or.inr ⟨i, ⟨hlo, by omega⟩, rfl⟩

/-- A late message takes its key away. -/
theorem Stored.late (h : Stored c l d sender D store) (hi : ((), i) ∈ pending D) :
    Stored c l d sender (((), i) :: D)
      (Odict.erase store (c.publicKey (l.dhs sender), (i : Int))) := by
  refine ⟨h.nodup.filter _, fun e => ?_⟩
  rw [Odict.mem_erase, h.mem, pending_late hi]
  constructor
  · rintro ⟨⟨j, hj, rfl⟩, hne⟩
    refine ⟨j, Finset.mem_erase.mpr ⟨?_, hj⟩, rfl⟩
    intro heq
    injection heq with _ heq
    exact hne (by rw [heq]; rfl)
  · rintro ⟨j, hj, rfl⟩
    obtain ⟨hne, hj⟩ := Finset.mem_erase.mp hj
    refine ⟨⟨j, hj, rfl⟩, fun hkey => hne ?_⟩
    injection hkey with _ hnum
    rw [Int.ofNat.inj hnum]

end Stored

/-! ## The two engines -/

/-- What the `n`-th message of a party is. -/
structure MessageAt (c : Crypto K P C) (l : Linking K P) (d : K) (sender : Party) (n : Nat)
    (x : Posted C) : Prop where
  header : x.message.header = ⟨c.publicKey (l.dhs sender), 0, n⟩
  sealed : c.encrypt (letterKey c l d sender n)
    (messageNonce c.toKeyAlg (letterKey c l d sender n) n) x.plaintext x.ad
      = some x.message.ciphertext

/-- One side: two counters and a store. -/
structure DuoSide (c : Crypto K P C) (l : Linking K P) (d : K) (cap : Party → Nat) (who : Party)
    (posted : List (Posted C)) (D : List (Unit × Nat)) (s : RatchetState K P) : Prop where
  engine : ∃ store, Stored c l d who.other D store ∧
    s = engineAt c l d who posted.length (nextExpected D ()) ⟨cap who, store⟩
  sent : ∀ {n x}, posted[n]? = some x → MessageAt c l d who n x

def DuoSides (c : Crypto K P C) (l : Linking K P) (d : K) (cap : Party → Nat)
    (σ : Duo K P C) : Prop :=
  ∀ who, DuoSide c l d cap who (σ.posted who) (receivedBy σ who) (σ.engine who)

section Calls

variable (hlen : ∀ i s f b, (c.bytes (c.hkdf i s f b)).length = 32)
  (hd : ∀ who, dhWith c (some (l.dhs who)) (c.publicKey (l.dhs who.other)) = .ok d)
  {cap : Party → Nat} {who : Party} {posted : List (Posted C)} {D : List (Unit × Nat)}
  {s : RatchetState K P} {x : Posted C} {i : Nat}

include hlen hd in
theorem DuoSide.encrypt (h : DuoSide c l d cap who posted D s) {pt ad : Bytes}
    {em : EncryptedMessage C} {s' : RatchetState K P}
    (hcall : DoubleRatchet.encrypt c pt ad s = .ok em s') :
    DuoSide c l d cap who (posted ++ [⟨pt, ad, em⟩]) D s' := by
  obtain ⟨store, hstore, rfl⟩ := h.engine
  obtain ⟨y, hkeyed, rfl⟩ := map_ok hcall
  obtain ⟨ct, hct, rfl, rfl⟩ := encrypt_at hlen hd hkeyed
  refine ⟨⟨store, hstore, ?_⟩, fun {n z} hz => ?_⟩
  · rw [List.length_append, List.length_singleton]
  · rcases getElem?_concat_cases hz with hz | ⟨rfl, rfl⟩
    · exact h.sent hz
    · exact ⟨rfl, hct⟩

include hlen in
/-- A message that was passed over is opened with its stored key. -/
theorem DuoSide.late (hinv : AeadInverse c) (h : DuoSide c l d cap who posted D s)
    (hx : MessageAt c l d who.other i x) (hi : ((), i) ∈ pending D) (g : P) :
    ∃ s', DoubleRatchet.decryptKeyed c x.message x.ad g s
        = .ok (x.plaintext, letterKey c l d who.other i) s' ∧
      DuoSide c l d cap who posted (((), i) :: D) s' := by
  obtain ⟨store, hstore, rfl⟩ := h.engine
  have hopen : DoubleRatchet.openWith c (letterKey c l d who.other i) x.message x.ad
      = .ok x.plaintext := by
    have hnum : x.message.header.n.toNat = i := by rw [hx.header]; rfl
    rw [Ratchet.openWith_eq (letterKey_length hlen who.other i), hnum, hinv _ _ _ _ _ hx.sealed]
  refine ⟨engineAt c l d who posted.length (nextExpected D ()) ⟨cap who,
    Odict.erase store (c.publicKey (l.dhs who.other), (i : Int))⟩, ?_,
    ⟨_, hstore.late hi, ?_⟩, h.sent⟩
  · have hhas := hstore.has_iff.mpr hi
    have hget := hstore.get hi
    simp only [DoubleRatchet.decryptKeyed, bind_apply, get_apply, ite_run,
      SkippedKeyStore.has, engineAt, hx.header, hhas, if_true, DoubleRatchet.onStore, zoom,
      SkippedKeyStore.pop, hget, modify_apply, pure_apply, hopen, lift_ok]
  · rw [nextExpected_late hi]

include hlen hd in
/-- A message that was not passed over is opened on the chain, if there is room
for what it passes over itself. -/
theorem DuoSide.ahead (hinv : AeadInverse c) (h : DuoSide c l d cap who posted D s)
    (hx : MessageAt c l d who.other i x) (hi : nextExpected D () ≤ i)
    (hroom : (pending (((), i) :: D)).card ≤ cap who) (g : P) :
    ∃ s', DoubleRatchet.decryptKeyed c x.message x.ad g s
        = .ok (x.plaintext, letterKey c l d who.other i) s' ∧
      DuoSide c l d cap who posted (((), i) :: D) s' := by
  obtain ⟨store, hstore, rfl⟩ := h.engine
  rw [card_pending_ahead hi, ← hstore.length] at hroom
  refine ⟨_, decrypt_ahead hlen hd (congrArg RatchetHeader.dhPub hx.header)
    (congrArg RatchetHeader.n hx.header) hi hroom
    (fun j hj => hstore.not_has hj) (hinv _ _ _ _ _ hx.sealed),
    ⟨_, hstore.ahead hi, ?_⟩, h.sent⟩
  rw [nextExpected_ahead hi]

include hlen hd in
/-- The first delivery of a message, wherever it stands. -/
theorem DuoSide.deliver (hinv : AeadInverse c) (h : DuoSide c l d cap who posted D s)
    (hx : MessageAt c l d who.other i x) (hnew : ((), i) ∉ D)
    (hroom : (pending (((), i) :: D)).card ≤ cap who) (g : P) :
    ∃ s', DoubleRatchet.decryptKeyed c x.message x.ad g s
        = .ok (x.plaintext, letterKey c l d who.other i) s' ∧
      DuoSide c l d cap who posted (((), i) :: D) s' := by
  rcases Nat.lt_or_ge i (nextExpected D ()) with hi | hi
  · exact h.late hlen hinv hx (pending_of_lt hnew hi) g
  · exact h.ahead hlen hd hinv hx hi hroom g

end Calls

/-! ## Runs -/

section Runs

variable (hlen : ∀ i s f b, (c.bytes (c.hkdf i s f b)).length = 32)
  (hd : ∀ who, dhWith c (some (l.dhs who)) (c.publicKey (l.dhs who.other)) = .ok d)
  {cap : Party → Nat} {σ : Duo K P C}

theorem DuoSides.start (hdh : GoodDh c)
    (h : Duo.start c l.rootKey l.dhs (fun who => some (c.publicKey (l.dhs who.other))) cap
      = .ok σ) :
    ∃ d, (∀ who, dhWith c (some (l.dhs who)) (c.publicKey (l.dhs who.other)) = .ok d) ∧
      DuoSides c l d cap σ := by
  obtain ⟨d, hd⟩ := linked_dh hdh l
  refine ⟨d, hd, ?_⟩
  simp only [Duo.start, DoubleRatchet.init, Option.getD_some, hd] at h
  cases h
  intro who
  refine ⟨⟨[], Stored.nil, ?_⟩, fun hget => by cases hget⟩
  cases who <;> rfl

include hlen hd in
theorem DuoSides.step (hinv : AeadInverse c) (h : DuoSides c l d cap σ) {act : DuoAct P}
    (hact : AnyOrder c cap σ act) :
    DuoSides c l d cap (σ.step c act) ∧ ReturnsPosted c σ act := by
  cases act with
  | encrypt who pt ad =>
      refine ⟨fun who' => ?_, trivial⟩
      rw [AnyOrder] at hact
      rw [Duo.step]
      cases hcall : DoubleRatchet.encrypt c pt ad (σ.engine who) with
      | error e s => simp [hcall] at hact
      | ok em s =>
          by_cases hw : who' = who
          · subst hw
            simp only [Function.update_self]
            exact (h who').encrypt hlen hd hcall
          · simp only [Function.update_of_ne hw]
            exact h who'
  | deliver who i g =>
      obtain ⟨hposted, hnew, hroom⟩ := hact
      have hget := List.getElem?_eq_getElem hposted
      have hnew' : ((), i) ∉ receivedBy σ who := by
        intro hmem
        obtain ⟨j, hj, heq⟩ := List.mem_map.mp hmem
        cases heq
        exact hnew hj
      obtain ⟨s', hcall, hside⟩ := (h who).deliver hlen hd hinv ((h who.other).sent hget)
        hnew' hroom g
      simp only [ReturnsPosted, Duo.opens, Duo.step, hget, Option.bind_some, Option.map_some,
        DoubleRatchet.decrypt, map_apply, hcall, value?_ok, after_ok]
      refine ⟨fun who' => ?_, trivial⟩
      by_cases hw : who' = who
      · subst hw
        simp only [receivedBy, Function.update_self, List.map_cons]
        exact hside
      · simp only [receivedBy, Function.update_of_ne hw]
        exact h who'

end Runs

/-- Two engines that know each other's key: whoever speaks first, in whatever
order messages are delivered, and whatever is lost, every first delivery
returns what was encrypted as long as neither side has more messages pending
than its store takes. -/
theorem any_order_delivery (hlen : ∀ i s f b, (c.bytes (c.hkdf i s f b)).length = 32)
    (hdh : GoodDh c) (hinv : AeadInverse c) {cap : Party → Nat} {σ : Duo K P C}
    (hstart : Duo.start c l.rootKey l.dhs (fun who => some (c.publicKey (l.dhs who.other))) cap
      = .ok σ) {acts : List (DuoAct P)} (hacts : Along (Duo.step c) (AnyOrder c cap) σ acts) :
    Along (Duo.step c) (ReturnsPosted c) σ acts := by
  obtain ⟨d, hd, h₀⟩ := DuoSides.start hdh hstart
  exact hacts.strengthen (I := DuoSides c l d cap)
    (fun σ act h hact => h.step hlen hd hinv hact) h₀

/-! ## The symbolic model -/

instance AnyOrder.decidable (cap : Party → Nat) (σ : Duo SymKey Nat Box) :
    (act : DuoAct Nat) → Decidable (AnyOrder symbolic cap σ act)
  | .encrypt _ _ _ => inferInstanceAs (Decidable (_ = true))
  | .deliver _ _ _ => inferInstanceAs (Decidable (_ ∧ _))

/-- Two engines with room for two and for one. -/
def symRoom : Party → Nat
  | .initiator => 2
  | .responder => 1

def symDuo : Duo SymKey Nat Box where
  engine := fun who => engineAt symbolic symLinking (.atom (.shared
    (unordered (symPublicKey (symGen .initiator)) (symPublicKey (symGen .responder)))))
    who 0 0 ⟨symRoom who, []⟩

theorem symDuo_start : Duo.start symbolic symLinking.rootKey symLinking.dhs
    (fun who => some (symbolic.publicKey (symLinking.dhs who.other))) symRoom = .ok symDuo := by
  rw [Duo.start]
  refine congrArg Except.ok (congrArg (fun e => Duo.mk e _ _) (funext fun who => ?_))
  cases who <;> rfl

/-- Both speak at once, the responder's third message arrives first, and the
initiator's second before its first. -/
def symDisorder : List (DuoAct Nat) := [
  .encrypt .initiator [10] [1], .encrypt .responder [20] [],
  .encrypt .responder [21] [], .encrypt .responder [22] [2],
  .deliver .initiator 2 3, .encrypt .initiator [11] [],
  .deliver .responder 1 4, .deliver .initiator 0 5, .encrypt .responder [23] [],
  .deliver .responder 0 6, .deliver .initiator 3 7, .deliver .initiator 1 8]

theorem any_order_delivery_disorder :
    Along (Duo.step symbolic) (AnyOrder symbolic symRoom) symDuo symDisorder ∧
      Along (Duo.step symbolic) (ReturnsPosted symbolic) symDuo symDisorder := by
  have hacts : Along (Duo.step symbolic) (AnyOrder symbolic symRoom) symDuo symDisorder := by
    decide +kernel
  exact ⟨hacts, any_order_delivery symKeys_injective.hkdf_length symbolic_goodDh
    symbolic_inverse symDuo_start hacts⟩

end GhostChat.Proofs
