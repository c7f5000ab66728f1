import GhostChat.Proofs.Dialogue
import GhostChat.Proofs.InLine
import GhostChat.Proofs.Receive
import GhostChat.Proofs.Sendable
import GhostChat.Ref.Chat

/-!
# What is typed is shown

Between the line typed on one side and the line printed on the other are two
engines, two JSON texts, the parser, the relay with whatever else it does, and a
connection that may lose messages. All of it keeps the order, so the receiver gets
some of the lines that were sent, in the order they were sent, each once and as it
was typed; and if nothing was lost, all of them (`lines_shown`).

`Joined` ties the chat to a run of the two engines alone: the frames are the
messages of that run, the relay has passed on some of them, and what `recv_message`
has returned was opened there. A message is then opened because it comes in line
(`Conv.inLine`).
-/

namespace GhostChat.Proofs

open GhostChat.Lib GhostChat.Lib.Effect GhostChat.Lib.Window GhostChat.Ref

variable {K P : Type} {cfg : ChatConfig K P} {rk : K} {cap : Nat}

/-! ## One message on its way -/

/-- The frame of a message of `who`. -/
def frameFor (cfg : ChatConfig K P) (who : Party) (x : Bytes × RatchetWireMessage Bytes) : Frame :=
  ⟨cfg.name who.other, wireMessageToDict x.2, some "double_ratchet"⟩

/-- What the relay makes of it. -/
def passedOn (cfg : ChatConfig K P) (who : Party) (x : Bytes × RatchetWireMessage Bytes) :
    List (String × Json) :=
  [("type", .str "msg"), ("from", .str (cfg.name who)),
    ("payload", .str (cfg.dumps (wireMessageToDict x.2)))]

section Relay

variable {σ : Relay} {w w' : Nat} {s : Socket} {who : Party}

theorem receive_frame (w : Nat) (ok : Bool) (x : Bytes × RatchetWireMessage Bytes)
    (hname : cfg.name who ≠ "") (husername : s.username = .str (cfg.name who))
    (hpeer : cfg.name who.other ≠ "" ∧ strip (cfg.name who.other) = cfg.name who.other)
    (hget : Odict.get? σ.connections (cfg.name who.other) = some w') :
    ∃ relayed, σ.receive w s ok (.json (.dict ((frameFor cfg who x).toDict cfg.dumps)))
      = (({ σ with relayed := relayed } : Relay).sendJson w' (.dict (passedOn cfg who x)) ok).goTo
          w s .replying := by
  let d := (frameFor cfg who x).toDict cfg.dumps
  have htype : Json.get d "type" = .str "msg" := rfl
  have hto : Json.get d "to" = .str (cfg.name who.other) := rfl
  have hpayload : Odict.get? d "payload" = some (.str (cfg.dumps (wireMessageToDict x.2))) := rfl
  have htruthy : s.username.truthy = true := by
    rw [husername, Json.truthy]
    simp [hname]
  have hdirect : σ.dispatch w s d ok = σ.directMessage w s d ok := by
    simp [Relay.dispatch, htype]
  refine ⟨⟨s.username, σ.answeredName w⟩ :: σ.relayed, ?_⟩
  show σ.dispatch w s d ok = _
  rw [hdirect, Relay.directMessage, htruthy, hto]
  simp only [Bool.not_true, Bool.false_eq_true, if_false, if_neg hpeer.1, hpeer.2, hget, hpayload,
    Option.getD_some, husername, passedOn]

theorem pushed_of_queued {v : Json} {d : List (String × Json)} (h : queuedMsg v = some d) :
    pushed v = true := by
  unfold queuedMsg at h
  split at h
  · next fields =>
      split at h
      · next hmsg =>
          show ((Json.get fields "type").eqStr "session_init"
            || (Json.get fields "type").eqStr "msg") = true
          rw [hmsg, Bool.or_true]
      · cases h
  · cases h

/-- What is in the queue was pushed. -/
theorem queue_of_pushed (σ : Relay) (w : Nat) :
    σ.queue w = ((σ.inbox w).filter pushed).filterMap queuedMsg := by
  rw [List.filterMap_filter, Relay.queue]
  refine List.filterMap_congr fun v _ => ?_
  cases hq : queuedMsg v with
  | none => rw [ite_self]
  | some d => rw [if_pos (pushed_of_queued hq)]

theorem queue_of_inbox {σ' : Relay} {new : List Json} (h : σ'.inbox w = σ.inbox w ++ new) :
    σ'.queue w = σ.queue w ++ new.filterMap queuedMsg := by
  rw [Relay.queue, h, List.filterMap_append, Relay.queue]

end Relay

/-! ## The relay between the two -/

/-- Of what was sent and taken up, in its order, some has arrived. -/
structure Passing (cfg : ChatConfig K P) (sent : Party → List (Bytes × RatchetWireMessage Bytes))
    (taken : Party → Nat) (arrived : Party → List (Bytes × RatchetWireMessage Bytes))
    (σ : Relay) : Prop where
  ready : RelayReady σ
  registered : ∀ who, Odict.get? σ.connections (cfg.name who) = some (cfg.socket who)
  username : ∀ who, ∃ s, σ.sockets[cfg.socket who]? = some s ∧ s.username = .str (cfg.name who)
  inOrder : ∀ who, (arrived who).Sublist ((sent who.other).take (taken who.other))
  queue : ∀ who, σ.queue (cfg.socket who) = (arrived who).map (passedOn cfg who.other)

section Passing

variable {sent arrived : Party → List (Bytes × RatchetWireMessage Bytes)} {taken : Party → Nat}
  {σ : Relay}

theorem Passing.start {before : List RelayAct}
    (h : Connected cfg (runFrom Relay.step {} before)) :
    Passing cfg (fun _ => []) (fun _ => 0) (fun _ => []) (runFrom Relay.step {} before) :=
  ⟨relayReady_run before, h.registered, h.username, fun _ => List.Sublist.refl _, h.unspoken⟩

theorem Passing.step (h : Passing cfg sent taken arrived σ) {act : RelayAct}
    (hact : LeavesAlone cfg σ act) : Passing cfg sent taken arrived (σ.step act) := by
  refine ⟨h.ready.step act, fun who => (hact who).2.1, fun who => ?_, h.inOrder, fun who => ?_⟩
  · obtain ⟨s, hs, husername⟩ := h.username who
    obtain ⟨s', hs', hsame, -⟩ := (step_elapsed h.ready (hact who).1).socket s hs
    exact ⟨s', hs', hsame.trans husername⟩
  · rw [queue_of_pushed, (hact who).2.2, ← queue_of_pushed]
    exact h.queue who

/-- More is sent. -/
theorem Passing.post (h : Passing cfg sent taken arrived σ)
    {sent' : Party → List (Bytes × RatchetWireMessage Bytes)}
    (hsent : ∀ who, sent who <+: sent' who) : Passing cfg sent' taken arrived σ := by
  refine ⟨h.ready, h.registered, h.username, fun who => ?_, h.queue⟩
  exact (h.inOrder who).trans ((hsent who.other).take _).sublist

/-- One more is taken up, and arrives or not. -/
theorem Passing.advance (hapart : cfg.socket .initiator ≠ cfg.socket .responder)
    (h : Passing cfg sent taken arrived σ) {who : Party} {x : Bytes × RatchetWireMessage Bytes}
    (hx : (sent who)[taken who]? = some x) {s : Socket}
    (hs : σ.sockets[cfg.socket who]? = some s) {σ' : Relay} (hready : RelayReady σ')
    (hconnections : σ'.connections = σ.connections)
    (hsockets : σ'.sockets = σ.sockets.set (cfg.socket who) { s with phase := .replying })
    {came : List (Bytes × RatchetWireMessage Bytes)} (hcame : came = [x] ∨ came = [])
    (hqueue : ∀ y, σ'.queue (cfg.socket y) = σ.queue (cfg.socket y)
      ++ if y = who.other then came.map (passedOn cfg who) else []) :
    Passing cfg sent (Function.update taken who (taken who + 1))
      (Function.update arrived who.other (arrived who.other ++ came)) σ' := by
  refine ⟨hready, fun y => ?_, fun y => ?_, fun y => ?_, fun y => ?_⟩
  · rw [hconnections]
    exact h.registered y
  · obtain ⟨t, ht, husername⟩ := h.username y
    rw [hsockets]
    by_cases hy : y = who
    · subst hy
      obtain rfl : s = t := Option.some.inj (hs.symm.trans ht)
      obtain ⟨hlt, -⟩ := List.getElem?_eq_some_iff.mp hs
      exact ⟨_, List.getElem?_set_self hlt, husername⟩
    · have hne : cfg.socket who ≠ cfg.socket y := by
        cases who <;> cases y <;> first | exact absurd rfl hy | exact hapart | exact hapart.symm
      exact ⟨t, by rw [List.getElem?_set_ne hne]; exact ht, husername⟩
  · by_cases hy : y = who.other
    · subst hy
      rw [Party.other_other, Function.update_self, Function.update_self,
        List.take_add_one, hx, Option.toList_some]
      have hbefore := h.inOrder who.other
      rw [Party.other_other] at hbefore
      rcases hcame with rfl | rfl
      · exact hbefore.append (List.Sublist.refl _)
      · rw [List.append_nil]
        exact hbefore.trans (List.sublist_append_left _ _)
    · have hother : y.other ≠ who := by
        intro heq
        rw [← heq, Party.other_other] at hy
        exact hy rfl
      rw [Function.update_of_ne hy, Function.update_of_ne hother]
      exact h.inOrder y
  · rw [hqueue]
    by_cases hy : y = who.other
    · subst hy
      rw [if_pos rfl, h.queue, Function.update_self, List.map_append, Party.other_other]
    · rw [if_neg hy, List.append_nil, h.queue, Function.update_of_ne hy]

/-- The handler takes up the next frame and passes it on, or it gets lost. -/
theorem Passing.receive (hapart : cfg.socket .initiator ≠ cfg.socket .responder)
    (hnamed : ∀ who, cfg.name who ≠ "" ∧ strip (cfg.name who) = cfg.name who)
    (h : Passing cfg sent taken arrived σ) {who : Party} {x : Bytes × RatchetWireMessage Bytes}
    (hx : (sent who)[taken who]? = some x) {s : Socket}
    (hs : σ.sockets[cfg.socket who]? = some s) (hphase : s.phase = .receiving) (fits ok : Bool) :
    ∃ came, Passing cfg sent (Function.update taken who (taken who + 1))
      (Function.update arrived who.other (arrived who.other ++ came))
      (σ.receive (cfg.socket who) s ok
        (if fits then .json (.dict ((frameFor cfg who x).toDict cfg.dumps)) else .tooLarge)) := by
  have hready : ∀ input, RelayReady (σ.receive (cfg.socket who) s ok input) := by
    intro input
    have hstep := h.ready.step (.receive (cfg.socket who) input ok)
    simp only [Relay.step, hs, hphase] at hstep
    exact hstep
  cases fits with
  | false =>
      refine ⟨[], h.advance hapart hx hs (hready _) rfl rfl (Or.inr (Eq.refl [])) fun y => ?_⟩
      have hwire : (σ.receive (cfg.socket who) s ok .tooLarge).wire
          = (cfg.socket who, errorObj "message too large", ok && σ.isOpen (cfg.socket who))
            :: σ.wire := rfl
      simp only [Bool.false_eq_true, if_false]
      rw [queue_of_inbox (inbox_cons hwire _), List.map_nil, ite_self]
      congr 1
      split <;> rfl
  | true =>
      obtain ⟨t, ht, husername⟩ := h.username who
      obtain rfl : s = t := Option.some.inj (hs.symm.trans ht)
      obtain ⟨relayed, hreceive⟩ := receive_frame (cfg.socket who) ok x (hnamed who).1 husername
        (hnamed who.other) (h.registered who.other)
      have hready' := hready (.json (.dict ((frameFor cfg who x).toDict cfg.dumps)))
      rw [hreceive] at hready'
      rw [if_pos rfl, hreceive]
      let came := if ok && σ.isOpen (cfg.socket who.other) then [x] else []
      have hcame : came = [x] ∨ came = [] := by
        simp only [came]
        split
        · exact Or.inl rfl
        · exact Or.inr rfl
      refine ⟨came, h.advance hapart hx hs hready' rfl rfl hcame fun y => ?_⟩
      rw [queue_of_inbox (inbox_cons (e := (cfg.socket who.other, .dict (passedOn cfg who x),
        ok && σ.isOpen (cfg.socket who.other))) (σ := σ) rfl _)]
      congr 1
      by_cases hy : y = who.other
      · subst hy
        rw [if_pos rfl, beq_self_eq_true, Bool.true_and]
        show List.filterMap queuedMsg (if ok && σ.isOpen (cfg.socket who.other) then _ else _)
          = List.map _ (if ok && σ.isOpen (cfg.socket who.other) then _ else _)
        split <;> rfl
      · have hne : (cfg.socket who.other == cfg.socket y) = false := by
          rw [beq_eq_false_iff_ne]
          cases who <;> cases y <;>
            first | exact absurd rfl hy | exact hapart | exact hapart.symm
        rw [if_neg hy, hne]
        rfl

end Passing

/-! ## The two engines -/

section Engines

variable {c : Crypto K P Bytes} {π : Pair K P Bytes} {q : P} {t : List P}

theorem numbers_le (who : Party) (dh : Bytes) (log : List (Event K Bytes)) :
    (numbers who dh log).length ≤ (posts who log).length := by
  rw [numbers_eq, List.length_reverse, List.length_map]
  refine Nat.le_trans (List.length_filter_le _ _) ?_
  rw [List.length_map]

theorem prevCount_le (who : Party) (log : List (Event K Bytes)) (t : List P) :
    prevCount c who log t ≤ (posts who log).length := by
  cases t with
  | nil => exact Nat.zero_le _
  | cons x t =>
      cases t with
      | nil => exact Nat.zero_le _
      | cons y t => exact numbers_le who _ log

/-- The counters of a message are not past the messages sent. -/
theorem Conv.counters (h : Conv c rk cap π q t) {who : Party} (hidle : Uncounted (π.engine who)) :
    (π.engine who).Ns ≤ (posts who π.log).length ∧
      (π.engine who).PN ≤ (posts who π.log).length := by
  have htalks : ∀ {q' : P} {t' : List P}, Talks c rk cap π.log who q' t' (π.engine who) →
      (π.engine who).Ns ≤ (posts who π.log).length ∧
        (π.engine who).PN ≤ (posts who π.log).length := by
    intro q' t' htalks
    rw [htalks.count, htalks.prev]
    exact ⟨numbers_le who _ _, prevCount_le who _ _⟩
  rcases Party.eq_or_other who (owner (q :: t)) with rfl | rfl
  · exact htalks h.leads
  · cases h.follows with
    | behind q' t' ht talks => exact htalks talks
    | heard p waits hears prev begun new hp =>
        rw [hidle waits.send, prev]
        exact ⟨Nat.zero_le _, prevCount_le _ _ _⟩
    | born p ht waits hears hNr hck prev new hp =>
        rw [hidle waits.send, prev]
        exact ⟨Nat.zero_le _, Nat.zero_le _⟩

/-- An encryption that returns could be made. -/
theorem can_encrypt {s s' : DoubleRatchetState K P} {pt : Bytes} {w : RatchetWireMessage Bytes}
    {k : K} (h : ratchetEncryptKeyed c pt s = .ok (w, k) s') :
    s.sendingChainKey.isSome ∨ s.dhr.isSome := by
  cases hs : s.sendingChainKey with
  | some ck => exact Or.inl rfl
  | none =>
      cases hd : s.dhr with
      | some dh => exact Or.inr rfl
      | none =>
          obtain ⟨e, he⟩ := nextSendingKey_mute (c := c) hs hd
          rw [ratchetEncryptKeyed_eq, he] at h
          cases h

theorem Uncounted.encrypted {s s' : DoubleRatchetState K P} {pt : Bytes}
    {w : RatchetWireMessage Bytes} {k : K} (h : Uncounted s)
    (hok : ratchetEncryptKeyed c pt s = .ok (w, k) s') : Uncounted s' := by
  have hstep := h.step (c := c) (.encrypt pt)
  rw [EngineCall.step, ratchetEncrypt, map_apply, hok] at hstep
  exact hstep

theorem Uncounted.decrypted {s s' : DoubleRatchetState K P} {pt : Bytes}
    {w : RatchetWireMessage Bytes} {k : K} {g : P} (h : Uncounted s)
    (hok : ratchetDecryptKeyed c w g s = .ok (pt, k) s') : Uncounted s' := by
  have hstep := h.step (c := c) (.decrypt w g)
  rw [EngineCall.step, ratchetDecrypt, map_apply, hok] at hstep
  exact hstep

/-- A line that is short enough makes a message that the parser takes. -/
theorem Conv.inBounds (hdh : GoodDh c) (htag : AeadTagged c) (h : Conv c rk cap π q t)
    {who : Party} (hidle : Uncounted (π.engine who)) {pt : Bytes}
    (hpt : pt.length + 16 ≤ maxCiphertextLen) (hcount : (posts who π.log).length < 2 ^ 32)
    {w : RatchetWireMessage Bytes} {k : K} {s' : DoubleRatchetState K P}
    (hok : ratchetEncryptKeyed c pt (π.engine who) = .ok (w, k) s') : w.InBounds := by
  have hsent : ratchetEncrypt c pt (π.engine who) = .ok w s' := by
    rw [ratchetEncrypt, map_apply, hok]
  obtain ⟨⟨p, hkey⟩, hn, hpn, hnonce, key, ad, hct⟩ := encrypt_message hidle hsent
  obtain ⟨hNs, hPN⟩ := h.counters hidle
  have hlength := htag _ _ _ _ _ hct
  refine ⟨?_, by omega, by omega, hnonce, by omega⟩
  rw [hkey]
  exact hdh.public_length p

end Engines

/-! ## The chat and a run of the two engines -/

/-- `π` is what the two engines have been through: the frames are its messages,
and what has arrived and been taken from the queue was opened in it. -/
structure Joined (cfg : ChatConfig K P) (rk : K) (cap : Nat) (σ : Chat K P) (π : Pair K P Bytes)
    (arrived : Party → List (Bytes × RatchetWireMessage Bytes)) : Prop where
  conv : ∃ q t, Conv cfg.crypto rk cap π q t
  idle : ∀ who, Uncounted (π.engine who)
  handed : σ.handed = π.handed
  client : ∀ who, σ.running who = true → σ.client who = { doubleRatchet := some (π.engine who) }
  typed : ∀ who, σ.typed who = (posts who π.log).map Prod.fst
  asked : ∀ who, σ.asked who = (posts who π.log).map (frameFor cfg who)
  bounds : ∀ who, ∀ x ∈ posts who π.log, x.2.InBounds ∧
    cfg.loads (cfg.dumps (wireMessageToDict x.2)) = .ok (wireMessageToDict x.2)
  taken : ∀ who, σ.taken who ≤ (posts who π.log).length
  passing : Passing cfg (fun who => posts who π.log) σ.taken arrived σ.relay
  heard : ∀ who, σ.heard who ≤ (arrived who).length
  accepted : ∀ who, opened who π.log = (arrived who).take (σ.heard who)
  shown : ∀ who, σ.shown who
    = ((arrived who).take (σ.heard who)).map fun x => (.str (cfg.name who.other), x.1)

section Steps

variable {σ : Chat K P} {π : Pair K P Bytes}
  {arrived : Party → List (Bytes × RatchetWireMessage Bytes)}

theorem Joined.relay (h : Joined cfg rk cap σ π arrived) {act : RelayAct}
    (hact : LeavesAlone cfg σ.relay act) :
    Joined cfg rk cap { σ with relay := σ.relay.step act } π arrived :=
  { h with passing := h.passing.step hact }

theorem Joined.take (hapart : cfg.socket .initiator ≠ cfg.socket .responder)
    (hnamed : ∀ who, cfg.name who ≠ "" ∧ strip (cfg.name who) = cfg.name who)
    (h : Joined cfg rk cap σ π arrived) (who : Party) (fits ok : Bool) :
    ∃ arrived', Joined cfg rk cap (σ.take cfg who fits ok) π arrived' := by
  unfold Chat.take
  split
  · next frame s hframe hs =>
    rw [h.asked, List.getElem?_map] at hframe
    obtain ⟨x, hx, rfl⟩ := Option.map_eq_some_iff.mp hframe
    split
    · next hphase =>
      obtain ⟨came, hpassing⟩ := h.passing.receive hapart hnamed hx hs hphase fits ok
      -- What has been heard is not touched by what comes after it.
      have hbefore : ∀ y, (Function.update arrived who.other (arrived who.other ++ came) y).take
          (σ.heard y) = (arrived y).take (σ.heard y) ∧
          σ.heard y ≤ (Function.update arrived who.other (arrived who.other ++ came) y).length := by
        intro y
        have hheard := h.heard y
        by_cases hy : y = who.other
        · subst hy
          rw [Function.update_self, List.take_append_of_le_length hheard, List.length_append]
          exact ⟨rfl, by omega⟩
        · rw [Function.update_of_ne hy]
          exact ⟨rfl, hheard⟩
      refine ⟨_, { h with
        passing := hpassing
        taken := fun y => ?_
        heard := fun y => (hbefore y).2
        accepted := fun y => ?_
        shown := fun y => ?_ }⟩
      · by_cases hy : y = who
        · subst hy
          obtain ⟨hlt, -⟩ := List.getElem?_eq_some_iff.mp hx
          show Function.update σ.taken y (σ.taken y + 1) y ≤ _
          rw [Function.update_self]
          exact hlt
        · show Function.update σ.taken who (σ.taken who + 1) y ≤ _
          rw [Function.update_of_ne hy]
          exact h.taken y
      · rw [(hbefore y).1]
        exact h.accepted y
      · rw [(hbefore y).1]
        exact h.shown y
    · exact ⟨arrived, h⟩
  · exact ⟨arrived, h⟩

/-- A client whose send has raised does nothing any more. -/
theorem Joined.stop (h : Joined cfg rk cap σ π arrived) (who : Party)
    (client : WebSocketClient K P) :
    Joined cfg rk cap { σ with
      client := Function.update σ.client who client
      running := Function.update σ.running who false } π arrived := by
  refine { h with client := fun y hrunning => ?_ }
  dsimp only at hrunning ⊢
  by_cases hy : y = who
  · subst hy
    rw [Function.update_self] at hrunning
    cases hrunning
  · rw [Function.update_of_ne hy] at hrunning ⊢
    exact h.client y hrunning

/-- `recv_message` on what the relay makes of a message. -/
theorem recv_passedOn {x : Bytes × RatchetWireMessage Bytes} (hin : x.2.InBounds)
    (hread : cfg.loads (cfg.dumps (wireMessageToDict x.2)) = .ok (wireMessageToDict x.2))
    {who : Party} {g : P} {s s' : DoubleRatchetState K P} {k : K}
    (hok : ratchetDecryptKeyed cfg.crypto x.2 g s = .ok (x.1, k) s') :
    WebSocketClient.recvMessage cfg.crypto cfg.loads (passedOn cfg who x) g
        { doubleRatchet := some s }
      = .ok (.str (cfg.name who), x.1) { doubleRatchet := some s' } := by
  have hpayload : payloadOf (passedOn cfg who x)
      = .str (cfg.dumps (wireMessageToDict x.2)) := rfl
  have htried : tryRatchet cfg.crypto cfg.loads (cfg.dumps (wireMessageToDict x.2)) g s
      = .ok (some x.1) s' := by
    have hlooks : looksLikeWire (wireMessageToDict x.2) = true := rfl
    simp only [tryRatchet, hread, lift_ok, bind_apply, hlooks, if_true,
      wireMessageFromDict_inBounds hin, ratchetDecrypt, map_apply, hok, pure_apply]
  have hrecv : recvRatchet cfg.crypto cfg.loads (cfg.dumps (wireMessageToDict x.2)) g s
      = .ok (some x.1) s' := by
    simp only [recvRatchet, htried]
  rw [recvMessage_ratchet (s := s) rfl rfl hpayload, hrecv]
  rfl

/-- A message is opened and shown. -/
theorem Joined.accept (h : Joined cfg rk cap σ π arrived) {who : Party}
    {x : Bytes × RatchetWireMessage Bytes} (hx : (arrived who)[σ.heard who]? = some x) {g : P}
    {s' : DoubleRatchetState K P} {k : K}
    (hok : ratchetDecryptKeyed cfg.crypto x.2 g (π.engine who) = .ok (x.1, k) s')
    (hconv : ∃ q t, Conv cfg.crypto rk cap (π.step cfg.crypto (.decrypt who x.2 g)) q t) :
    Joined cfg rk cap { σ with
      heard := Function.update σ.heard who (σ.heard who + 1)
      handed := Function.update σ.handed who (g :: σ.handed who)
      client := Function.update σ.client who { doubleRatchet := some s' }
      shown := Function.update σ.shown who
        (σ.shown who ++ [(.str (cfg.name who.other), x.1)]) }
      (π.step cfg.crypto (.decrypt who x.2 g)) arrived := by
  rw [step_decrypt_ok hok] at hconv ⊢
  have hnext : (arrived who).take (σ.heard who + 1)
      = (arrived who).take (σ.heard who) ++ [x] := by
    rw [List.take_add_one, hx]
    rfl
  refine ⟨hconv, fun y => ?_, ?_, fun y hrunning => ?_, h.typed, h.asked, h.bounds, h.taken,
    h.passing, fun y => ?_, fun y => ?_, fun y => ?_⟩
  · show Uncounted (Function.update π.engine who s' y)
    by_cases hy : y = who
    · subst hy
      rw [Function.update_self]
      exact (h.idle y).decrypted hok
    · rw [Function.update_of_ne hy]
      exact h.idle y
  · show Function.update σ.handed who _ = Function.update π.handed who _
    rw [h.handed]
  · show Function.update σ.client who _ y
      = { doubleRatchet := some (Function.update π.engine who s' y) }
    by_cases hy : y = who
    · subst hy
      rw [Function.update_self, Function.update_self]
    · rw [Function.update_of_ne hy, Function.update_of_ne hy]
      exact h.client y hrunning
  · show Function.update σ.heard who _ y ≤ _
    by_cases hy : y = who
    · subst hy
      rw [Function.update_self]
      exact (List.getElem?_eq_some_iff.mp hx).1
    · rw [Function.update_of_ne hy]
      exact h.heard y
  · show opened y (.accepted who x.2 x.1 k :: π.log)
      = (arrived y).take (Function.update σ.heard who _ y)
    by_cases hy : y = who
    · subst hy
      rw [opened_accepted, Function.update_self, hnext, h.accepted]
    · rw [opened_accepted_other fun h => hy h.symm, Function.update_of_ne hy]
      exact h.accepted y
  · show Function.update σ.shown who _ y
      = ((arrived y).take (Function.update σ.heard who _ y)).map _
    by_cases hy : y = who
    · subst hy
      rw [Function.update_self, Function.update_self, hnext, h.shown, List.map_append,
        List.map_singleton]
    · rw [Function.update_of_ne hy, Function.update_of_ne hy]
      exact h.shown y

section Secure

variable (hlen : ∀ i s f b, (cfg.crypto.bytes (cfg.crypto.hkdf i s f b)).length = 32)
  (hdh : GoodDh cfg.crypto)

include hlen hdh

/-- A line is encrypted and sent. -/
theorem Joined.post (htag : AeadTagged cfg.crypto) (h : Joined cfg rk cap σ π arrived)
    {who : Party} {pt : Bytes} (hworks : AeadWorks cfg.crypto pt)
    (hpt : pt.length + 16 ≤ maxCiphertextLen) (hcount : (σ.typed who).length < 2 ^ 32)
    {w : RatchetWireMessage Bytes} {k : K} {s' : DoubleRatchetState K P}
    (hok : ratchetEncryptKeyed cfg.crypto pt (π.engine who) = .ok (w, k) s')
    (hread : cfg.loads (cfg.dumps (wireMessageToDict w)) = .ok (wireMessageToDict w)) :
    ∃ π', Joined cfg rk cap { σ with
      client := Function.update σ.client who { σ.client who with doubleRatchet := some s' }
      asked := Function.update σ.asked who (σ.asked who ++ [frameFor cfg who (pt, w)])
      typed := Function.update σ.typed who (σ.typed who ++ [pt]) } π' arrived := by
  obtain ⟨q, t, hconv⟩ := h.conv
  have hposted : (posts who π.log).length < 2 ^ 32 := by
    rw [h.typed, List.length_map] at hcount
    exact hcount
  have hNs := (hconv.counters (h.idle who)).1
  obtain ⟨q', t', hconv', -⟩ := hconv.encrypt hlen hdh ⟨can_encrypt hok, by omega, hworks⟩
  rw [step_encrypt_ok hok] at hconv'
  have hin := hconv.inBounds hdh htag (h.idle who) hpt hposted hok
  -- The new message stands last in what was sent.
  let log' := Event.sent who pt w k :: π.log
  have hother : ∀ y, y ≠ who → posts y log' = posts y π.log := by
    intro y hy
    exact posts_sent_other hy.symm
  have hgrows : ∀ y, posts y π.log <+: posts y log' := by
    intro y
    by_cases hy : y = who
    · subst hy
      rw [posts_sent]
      exact List.prefix_append _ _
    · exact ⟨[], by rw [List.append_nil, hother y hy]⟩
  refine ⟨_, ⟨q', t', hconv'⟩, fun y => ?_, h.handed, fun y hrunning => ?_, fun y => ?_,
    fun y => ?_, fun y x hx => ?_, fun y => ?_, h.passing.post hgrows, h.heard, h.accepted, h.shown⟩
  · show Uncounted (Function.update π.engine who s' y)
    by_cases hy : y = who
    · subst hy
      rw [Function.update_self]
      exact (h.idle y).encrypted hok
    · rw [Function.update_of_ne hy]
      exact h.idle y
  · show Function.update σ.client who _ y
      = { doubleRatchet := some (Function.update π.engine who s' y) }
    by_cases hy : y = who
    · subst hy
      rw [Function.update_self, Function.update_self, h.client y hrunning]
    · rw [Function.update_of_ne hy, Function.update_of_ne hy]
      exact h.client y hrunning
  · show Function.update σ.typed who _ y = (posts y log').map Prod.fst
    by_cases hy : y = who
    · subst hy
      rw [Function.update_self, posts_sent, h.typed, List.map_append, List.map_singleton]
    · rw [Function.update_of_ne hy, hother y hy]
      exact h.typed y
  · show Function.update σ.asked who _ y = (posts y log').map (frameFor cfg y)
    by_cases hy : y = who
    · subst hy
      rw [Function.update_self, posts_sent, h.asked, List.map_append, List.map_singleton]
    · rw [Function.update_of_ne hy, hother y hy]
      exact h.asked y
  · by_cases hy : y = who
    · subst hy
      rw [posts_sent] at hx
      rcases List.mem_append.mp hx with hx | hx
      · exact h.bounds y x hx
      · rw [List.mem_singleton.mp hx]
        exact ⟨hin, hread⟩
    · rw [hother y hy] at hx
      exact h.bounds y x hx
  · exact (h.taken y).trans (hgrows y).length_le

theorem Joined.line
    (haead : ∀ pt : Bytes, pt.length + 16 ≤ maxCiphertextLen → AeadWorks cfg.crypto pt)
    (htag : AeadTagged cfg.crypto) (h : Joined cfg rk cap σ π arrived) {who : Party}
    {plaintext : Bytes} {socket : Except Exn Unit}
    (hact : Chat.Allowed cfg cap σ (.line who plaintext socket)) :
    ∃ π', Joined cfg rk cap (σ.line cfg who plaintext socket) π' arrived := by
  obtain ⟨hpt, hcount, hreads⟩ := hact
  unfold Chat.line at hreads ⊢
  split at hreads
  · next hidle =>
    rw [if_pos hidle]
    exact ⟨π, h⟩
  · next hgoes =>
    rw [if_neg hgoes]
    have hrunning : σ.running who = true := by
      cases hr : σ.running who with
      | true => rfl
      | false => exact absurd (Or.inr hr) hgoes
    have hengine : (σ.client who).doubleRatchet = some (π.engine who) := by
      rw [h.client who hrunning]
    rw [sendMessage_ratchet hengine] at hreads ⊢
    cases hok : ratchetEncryptKeyed cfg.crypto plaintext (π.engine who) with
    | error e s' => exact ⟨π, h.stop who _⟩
    | ok r s' =>
        obtain ⟨w, k⟩ := r
        rw [hok] at hreads
        cases socket with
        | error e => exact ⟨π, h.stop who _⟩
        | ok _ =>
            refine h.post hlen hdh htag (haead plaintext hpt) hpt hcount hok ?_
            refine hreads (frameFor cfg who (plaintext, w)) ?_
            show _ ∈ Function.update σ.asked who (σ.asked who ++ [_]) who
            rw [Function.update_self]
            exact List.mem_append_right _ (List.mem_singleton_self _)

theorem Joined.hear (h : Joined cfg rk cap σ π arrived) {who : Party} {g : P}
    (hact : Chat.Allowed cfg cap σ (.hear who g)) :
    ∃ π', Joined cfg rk cap (σ.hear cfg who g) π' arrived := by
  obtain ⟨hlost, hfresh⟩ := hact
  have hqueue := h.passing.queue who
  unfold Chat.hear
  rw [hqueue]
  split
  · next msg hrunning hmsg =>
    rw [List.getElem?_map] at hmsg
    obtain ⟨x, hx, rfl⟩ := Option.map_eq_some_iff.mp hmsg
    obtain ⟨hlt, hget⟩ := List.getElem?_eq_some_iff.mp hx
    -- The message stands in what was sent, behind what was opened and what was lost.
    have hcut : arrived who = (arrived who).take (σ.heard who) ++ x ::
        (arrived who).drop (σ.heard who + 1) := by
      rw [← hget]
      simp
    have hinOrder := h.passing.inOrder who
    rw [hcut] at hinOrder
    obtain ⟨T, U, hsent, hopened, hrest⟩ := sublist_cut hinOrder
    have hposts : posts who.other π.log
        = T ++ x :: (U ++ (posts who.other π.log).drop (σ.taken who.other)) := by
      have hall := List.take_append_drop (σ.taken who.other) (posts who.other π.log)
      rw [hsent] at hall
      rw [← List.cons_append, ← List.append_assoc]
      exact hall.symm
    rw [← h.accepted] at hopened
    have hlosses : T.length - (opened who π.log).length ≤ min cap maxSkipDistance := by
      have htaken := congrArg List.length hsent
      have harrived := congrArg List.length hcut
      have hbehind := hrest.length_le
      rw [List.length_take, Nat.min_eq_left (h.taken who.other)] at htaken
      rw [Chat.lost, hqueue, List.length_map] at hlost
      rw [← h.accepted] at harrived
      simp only [List.length_append, List.length_cons] at htaken harrived
      omega
    obtain ⟨q, t, hconv⟩ := h.conv
    have hnew : FreshKeys cfg.crypto π (.decrypt who x.2 g) := by
      intro y p hp
      refine hfresh y p ?_
      rw [h.handed]
      exact hp
    have hhonest := hconv.inLine hposts hopened hlosses hnew
    obtain ⟨k, hk⟩ : ∃ k, Event.sent who.other x.1 x.2 k ∈ π.log := by
      refine mem_posts.mp ?_
      rw [hposts]
      simp
    obtain ⟨hconv', s', hok⟩ := hconv.decrypt hlen hdh hhonest hk
    obtain ⟨hin, hread⟩ := h.bounds who.other x (by rw [hposts]; simp)
    rw [h.client who hrunning, recv_passedOn hin hread hok]
    exact ⟨_, h.accept hx hok hconv'⟩
  · exact ⟨π, h⟩

end Secure

end Steps

/-! ## The run -/

section Run

variable {gen : Party → P} {π : Pair K P Bytes} {before : List RelayAct}

theorem Joined.start
    (hgen : cfg.crypto.publicKey (gen .initiator) ≠ cfg.crypto.publicKey (gen .responder))
    (hpair : Pair.start cfg.crypto rk cap gen = .ok π)
    (hrelay : Connected cfg (runFrom Relay.step {} before)) :
    Joined cfg rk cap (Chat.start before π) π fun _ => [] := by
  obtain ⟨-, -, hlog⟩ := start_ok hpair
  have hposts : ∀ who, posts who π.log = [] := by
    intro who
    rw [hlog]
    rfl
  have hpassing : Passing cfg (fun who => posts who π.log) (fun _ => 0) (fun _ => [])
      (runFrom Relay.step {} before) := by
    rw [funext hposts]
    exact .start hrelay
  refine ⟨⟨_, _, Conv.start hgen hpair⟩, fun who _ => ?_, rfl, fun _ _ => rfl, fun who => ?_,
    fun who => ?_, fun who x hx => ?_, fun _ => Nat.zero_le _, hpassing, fun _ => Nat.zero_le _,
    fun who => ?_, fun _ => rfl⟩
  · rw [start_engine hpair]
  · rw [hposts]
    rfl
  · rw [hposts]
    rfl
  · rw [hposts] at hx
    cases hx
  · rw [hlog]
    rfl

end Run

/-! ## A chat -/

theorem error_ne_ok (e : Exn) (v : Json) : (Except.error e : Except Exn Json) ≠ .ok v := by
  intro h
  cases h

instance okDecidable : (x : Except Exn Json) → (v : Json) → Decidable (x = .ok v)
  | .ok u, v => decidable_of_decidable_of_eq (Except.ok.injEq u v).symm
  | .error e, v => isFalse (error_ne_ok e v)

instance partyDecidable {p : Party → Prop} [∀ x, Decidable (p x)] : Decidable (∀ x, p x) :=
  decidable_of_iff _ Party.forall_iff.symm

instance LeavesAlone.decidable (cfg : ChatConfig K P) (σ : Relay) (act : RelayAct) :
    Decidable (LeavesAlone cfg σ act) := inferInstanceAs (Decidable (∀ _, _))

instance Chat.Allowed.decidable (cfg : ChatConfig K P) (cap : Nat) (σ : Chat K P) :
    (act : ChatStep P) → Decidable (σ.Allowed cfg cap act)
  | .relay _ => inferInstanceAs (Decidable (LeavesAlone _ _ _))
  | .line _ _ _ => inferInstanceAs (Decidable (_ ∧ _ ∧ _))
  | .take _ _ _ => isTrue trivial
  | .hear _ _ => inferInstanceAs (Decidable (_ ∧ ∀ _, _))

end GhostChat.Proofs
