import GhostChat.Lib.Run
import GhostChat.Ref.Relay

/-!
# What a step of the relay can do

The handlers answer a dozen kinds of requests and most of the answers change
nothing but the wire. What is proved of the relay is about its registry, its
queues and what it relays, and seven things can happen to these: a register
request is refused or granted, a session_init is accepted, a message is passed
on, a queued session_init is taken to hand it over, and a handler ends in one
of two ways.

`event` reads off a state and an action which of them it is, without looking at
what the handler then does; `Does` is what each of them does. That a step does
what its event says (`step_does`) is the only place where the handlers are
taken apart. The proofs about whole runs go through the constructors of `Does`.
-/

namespace GhostChat.Proofs

open GhostChat.Lib GhostChat.Ref

/-- The session_inits a handler has taken from the queue and not sent yet. -/
def inHand (s : Socket) : List (Nat × Json) :=
  match s.phase with
  | .delivering rest => rest
  | .receiving | .replying | .registering | .ended => []

/-- The handler of the socket has not returned. -/
def Running (s : Socket) : Prop :=
  match s.phase with
  | .ended => False
  | .receiving | .replying | .registering | .delivering _ => True

instance Running.decidable (s : Socket) : Decidable (Running s) := by
  unfold Running
  split <;> infer_instance

/-- The name a register request leaves in the handler's variable. -/
def assigned : Json → Json
  | .str raw => .str (strip raw)
  | v => v

/-! ## What is passed on -/

/-- A session_init as the relay passes it on. -/
def initMessage (sender : Json) (d : List (String × Json)) : Json := .dict [
  ("type", .str "session_init"), ("from", sender),
  ("identity_dh_pub", Json.get d "identity_dh_pub"), ("eph_pub", Json.get d "eph_pub"),
  ("opk_id_used", Json.get d "opk_id_used")]

def isInit : Json → Bool
  | .dict d =>
      match Json.get d "type" with
      | .str typ => typ = "session_init"
      | _ => false
  | _ => false

/-- The `from` of what is passed on; an answer of the relay has none. -/
def senderOf : Json → Option Json
  | .dict d =>
      match Json.get d "type" with
      | .str typ =>
          if typ = "session_init" ∨ typ = "msg" then some (Json.get d "from") else none
      | _ => none
  | _ => none

/-- Nothing is put on the wire, or an answer. -/
def Answers (σ : Relay) (wire : List (Nat × Json × Bool)) : Prop :=
  wire = σ.wire ∨ ∃ e, wire = e :: σ.wire ∧ senderOf e.2.1 = none

/-! ## Events -/

inductive RelayEvent where
  | quiet
  | rejected (w : Nat) (request : Json)
  | registered (w : Nat) (raw : String)
  | init (w : Nat) (toUser : Json) (key : DictKey) (msg : Json) (ok : Bool)
  | message (w : Nat)
  | hand (w : Nat) (name : String) (init : Nat × Json) (ok : Bool)
  | finished (w : Nat)
  | raised (w : Nat)

def requestEvent (σ : Relay) (w : Nat) (s : Socket) (d : List (String × Json)) (ok : Bool) :
    RelayEvent :=
  match Json.get d "type" with
  | .str typ =>
      if typ = "register" then
        match Json.get d "username" with
        | .str raw => if strip raw = "" then .rejected w (.str raw) else .registered w raw
        | v => .rejected w v
      else if typ = "session_init" then
        if s.username.truthy && (Json.get d "to").truthy && (Json.get d "identity_dh_pub").truthy
            && (Json.get d "eph_pub").truthy then
          match (Json.get d "to").dictKey with
          | .ok key => .init w (Json.get d "to") key (initMessage s.username d) ok
          | .error _ => .quiet
        else .quiet
      else if typ = "msg" ∨ typ = "direct_message" then
        match Json.get d "to" with
        | .str raw =>
            if s.username.truthy && raw ≠ "" && Odict.has σ.connections (strip raw) then .message w
            else .quiet
        | _ => .quiet
      else .quiet
  | _ => .quiet

/-- What a handler that comes back from a send will hand over next, and what
after that. -/
def nextInits (σ : Relay) (s : Socket) : List (Nat × Json) :=
  match s.phase, s.username with
  | .registering, .str name => (Odict.get? σ.pendingInits (.str name)).getD []
  | .delivering rest, _ => rest
  | _, _ => []

def event (σ : Relay) : RelayAct → RelayEvent
  | .connect | .close _ => .quiet
  | .receive w input ok =>
      match σ.sockets[w]? with
      | some s =>
          match s.phase, input with
          | .receiving, .failed => .finished w
          | .receiving, .raised => .raised w
          | .receiving, .json (.dict d) => requestEvent σ w s d ok
          | _, _ => .quiet
      | none => .quiet
  | .resume w ok =>
      match σ.sockets[w]? with
      | some s =>
          match s.username, nextInits σ s with
          | .str name, init :: _ => .hand w name init ok
          | _, _ => .quiet
      | none => .quiet

/-! ## What they do -/

/-- Where a session_init to a key goes. -/
inductive Does (σ : Relay) : RelayEvent → Relay → Prop
  | same : Does σ .quiet σ
  | connect : Does σ .quiet { σ with sockets := σ.sockets ++ [{}] }
  | close {w : Nat} {s : Socket} (hs : σ.sockets[w]? = some s) :
      Does σ .quiet { σ with sockets := σ.sockets.set w { s with opened := false } }
  /-- An answer, or the end of one. -/
  | moved {w : Nat} {s : Socket} {phase : Phase} {wire : List (Nat × Json × Bool)}
      {bundles : Odict String (List (String × Json))} (hs : σ.sockets[w]? = some s)
      (hfree : inHand s = []) (hrun : Running s)
      (hphase : phase = .receiving ∨ phase = .replying) (hnot : s.phase ≠ .registering)
      (hwire : Answers σ wire) :
      Does σ .quiet { σ with
        wire := wire, bundles := bundles
        sockets := σ.sockets.set w { s with phase := phase } }
  /-- A register that finds nothing queued. -/
  | drained {w : Nat} {s : Socket} {name : String} (hs : σ.sockets[w]? = some s)
      (hphase : s.phase = .registering) (hname : s.username = .str name)
      (hempty : (Odict.get? σ.pendingInits (.str name)).getD [] = []) :
      Does σ .quiet { σ with
        pendingInits := Odict.erase σ.pendingInits (.str name)
        sockets := σ.sockets.set w { s with phase := .receiving } }
  | rejected {w : Nat} {s : Socket} {request : Json} {wire : List (Nat × Json × Bool)}
      (hs : σ.sockets[w]? = some s) (hphase : s.phase = .receiving)
      (hrequest : ∀ raw, request = .str raw → strip raw = "") (hwire : Answers σ wire) :
      Does σ (.rejected w request) { σ with
        wire := wire
        registers := ⟨w, request, none⟩ :: σ.registers
        sockets := σ.sockets.set w { s with username := assigned request, phase := .replying } }
  | registered {w : Nat} {s : Socket} {raw pub : String} {wire : List (Nat × Json × Bool)}
      (hs : σ.sockets[w]? = some s) (hphase : s.phase = .receiving) (hname : strip raw ≠ "")
      (hwire : Answers σ wire) :
      Does σ (.registered w raw) { σ with
        wire := wire
        connections := Odict.set σ.connections (strip raw) w
        ephemeralPubs := Odict.set σ.ephemeralPubs (strip raw) pub
        registers := ⟨w, .str raw, some (strip raw)⟩ :: σ.registers
        sockets := σ.sockets.set w
          { s with username := .str (strip raw), phase := .registering } }
  /-- A session_init that goes to a socket at once. -/
  | live {w w' : Nat} {s : Socket} {toUser : Json} {name : String} {ok : Bool} {msg : Json}
      (hs : σ.sockets[w]? = some s) (hphase : s.phase = .receiving)
      (hfrom : s.username.truthy = true) (hkey : toUser.dictKey = .ok (.str name))
      (hthere : Odict.get? σ.connections name = some w')
      (hmsg : ∃ d, msg = initMessage s.username d) :
      Does σ (.init w toUser (.str name) msg ok) { σ with
        wire := (w', msg, ok && σ.isOpen w') :: σ.wire
        accepted := σ.accepted ++ [toUser]
        relayed := ⟨s.username, σ.answeredName w⟩ :: σ.relayed
        handed := ⟨σ.accepted.length, name, ok && σ.isOpen w', true⟩ :: σ.handed
        sockets := σ.sockets.set w { s with phase := .replying } }
  /-- A session_init that is queued. -/
  | queued {w : Nat} {s : Socket} {toUser msg : Json} {key : DictKey} {ok : Bool}
      (hs : σ.sockets[w]? = some s) (hphase : s.phase = .receiving)
      (hfrom : s.username.truthy = true) (hkey : toUser.dictKey = .ok key)
      (hgone : σ.connection key = none) (hmsg : ∃ d, msg = initMessage s.username d) :
      Does σ (.init w toUser key msg ok) { σ with
        accepted := σ.accepted ++ [toUser]
        relayed := ⟨s.username, σ.answeredName w⟩ :: σ.relayed
        pendingInits := Odict.set σ.pendingInits key
          ((Odict.get? σ.pendingInits key).getD [] ++ [(σ.accepted.length, msg)]) }
  | message {w : Nat} {s : Socket} {e : Nat × Json × Bool}
      (hs : σ.sockets[w]? = some s) (hphase : s.phase = .receiving)
      (hfrom : s.username.truthy = true) (hmsg : isInit e.2.1 = false)
      (hsender : senderOf e.2.1 = some s.username) :
      Does σ (.message w) { σ with
        wire := e :: σ.wire
        relayed := ⟨s.username, σ.answeredName w⟩ :: σ.relayed
        sockets := σ.sockets.set w { s with phase := .replying } }
  /-- A register takes what is queued, and hands over the first. -/
  | taken {w : Nat} {s : Socket} {name : String} {init : Nat × Json} {rest : List (Nat × Json)}
      {ok : Bool} (hs : σ.sockets[w]? = some s) (hphase : s.phase = .registering)
      (hname : s.username = .str name)
      (hqueue : Odict.get? σ.pendingInits (.str name) = some (init :: rest)) :
      Does σ (.hand w name init ok) { σ with
        wire := (w, init.2, ok && σ.isOpen w) :: σ.wire
        pendingInits := Odict.erase σ.pendingInits (.str name)
        handed := ⟨init.1, name, ok && σ.isOpen w, Odict.get? σ.connections name = some w⟩
          :: σ.handed
        sockets := σ.sockets.set w { s with phase := .delivering rest } }
  | next {w : Nat} {s : Socket} {name : String} {init : Nat × Json} {rest : List (Nat × Json)}
      {ok : Bool} (hs : σ.sockets[w]? = some s) (hphase : s.phase = .delivering (init :: rest))
      (hname : s.username = .str name) :
      Does σ (.hand w name init ok) { σ with
        wire := (w, init.2, ok && σ.isOpen w) :: σ.wire
        handed := ⟨init.1, name, ok && σ.isOpen w, Odict.get? σ.connections name = some w⟩
          :: σ.handed
        sockets := σ.sockets.set w { s with phase := .delivering rest } }
  | finished {w : Nat} {s : Socket} (hs : σ.sockets[w]? = some s)
      (hphase : s.phase = .receiving) :
      Does σ (.finished w) { σ with
        sockets := σ.sockets.set w { s with opened := false, phase := .ended } }
  | raised {w : Nat} {s : Socket} (hs : σ.sockets[w]? = some s) (hphase : s.phase = .receiving) :
      Does σ (.raised w) { σ.cleanUp s.username with
        sockets := σ.sockets.set w { s with opened := false, phase := .ended } }

section Requests

variable {σ : Relay} {w : Nat} {s : Socket} {d : List (String × Json)} {ok : Bool}

theorem inHand_receiving (hphase : s.phase = .receiving) : inHand s = [] := by
  rw [inHand, hphase]

theorem running_receiving (hphase : s.phase = .receiving) : Running s := by
  rw [Running, hphase]
  trivial

theorem not_registering (hphase : s.phase = .receiving) : s.phase ≠ .registering := by
  rw [hphase]
  rintro ⟨⟩

theorem Does.reply (hs : σ.sockets[w]? = some s) (hphase : s.phase = .receiving) {obj : Json}
    (hobj : senderOf obj = none) : Does σ .quiet (σ.reply w s obj ok) :=
  .moved hs (inHand_receiving hphase) (running_receiving hphase) (.inr rfl)
    (not_registering hphase) (.inr ⟨_, rfl, hobj⟩)

theorem strip_empty : strip "" = "" := rfl

theorem register_does (hs : σ.sockets[w]? = some s) (hphase : s.phase = .receiving)
    (htype : Json.get d "type" = .str "register") :
    Does σ (requestEvent σ w s d ok) (σ.register w s d ok) := by
  rw [requestEvent, htype]
  simp only [if_true]
  unfold Relay.register
  cases hname : Json.get d "username" with
  | str raw =>
      dsimp only
      by_cases hraw : raw = ""
      · subst hraw
        rw [if_pos strip_empty, if_pos rfl]
        exact .rejected (s := s) hs hphase (by rintro _ ⟨rfl⟩; rfl)
          (.inr ⟨_, rfl, rfl⟩)
      · rw [if_neg hraw]
        by_cases hstrip : strip raw = ""
        · rw [if_pos hstrip, if_pos hstrip]
          exact .rejected (s := s) hs hphase (by rintro _ ⟨rfl⟩; exact hstrip)
            (.inr ⟨_, rfl, rfl⟩)
        · rw [if_neg hstrip, if_neg hstrip]
          exact .registered (s := s) hs hphase hstrip (.inr ⟨_, rfl, rfl⟩)
  | _ => exact .rejected (s := s) hs hphase (by rintro _ ⟨⟩) (.inr ⟨_, rfl, rfl⟩)

theorem uploadBundle_does (hs : σ.sockets[w]? = some s) (hphase : s.phase = .receiving) :
    Does σ .quiet (σ.uploadBundle w s d ok) := by
  unfold Relay.uploadBundle
  split
  · split
    · exact .reply hs hphase rfl
    · split
      · exact .reply hs hphase rfl
      · split
        · exact .moved hs (inHand_receiving hphase) (running_receiving hphase) (.inr rfl)
            (not_registering hphase) (.inr ⟨_, rfl, rfl⟩)
        · exact .reply hs hphase rfl
  · exact .reply hs hphase rfl

theorem getBundle_does (hs : σ.sockets[w]? = some s) (hphase : s.phase = .receiving) :
    Does σ .quiet (σ.getBundle w s d ok) := by
  unfold Relay.getBundle
  split
  · split
    · exact .reply hs hphase rfl
    · split <;> exact .reply hs hphase rfl
  · exact .reply hs hphase rfl

theorem getPeer_does (hs : σ.sockets[w]? = some s) (hphase : s.phase = .receiving) :
    Does σ .quiet (σ.getPeer w s d ok) := by
  unfold Relay.getPeer
  split
  · split
    · exact .reply hs hphase rfl
    · split <;> exact .reply hs hphase rfl
  · exact .reply hs hphase rfl

theorem connection_congr {σ' : Relay} (h : σ'.connections = σ.connections) (key : DictKey) :
    σ'.connection key = σ.connection key := by
  cases key with
  | str name => rw [Relay.connection, Relay.connection, h]
  | none => rfl
  | int n => rfl
  | float x => rfl

theorem connection_eq_some {key : DictKey} {c : String × Nat} (h : σ.connection key = some c) :
    ∃ name w', key = .str name ∧ Odict.get? σ.connections name = some w' ∧ c = (name, w') := by
  cases key with
  | str name =>
      rw [Relay.connection, Option.map_eq_some_iff] at h
      obtain ⟨w', hget, rfl⟩ := h
      exact ⟨name, w', rfl, hget, rfl⟩
  | none => cases h
  | int n => cases h
  | float x => cases h

theorem sessionInit_does (hs : σ.sockets[w]? = some s) (hphase : s.phase = .receiving)
    (htype : Json.get d "type" = .str "session_init") :
    Does σ (requestEvent σ w s d ok) (σ.sessionInit w s d ok) := by
  have hevent : requestEvent σ w s d ok =
      if s.username.truthy && (Json.get d "to").truthy && (Json.get d "identity_dh_pub").truthy
          && (Json.get d "eph_pub").truthy then
        match (Json.get d "to").dictKey with
        | .ok key => .init w (Json.get d "to") key (initMessage s.username d) ok
        | .error _ => .quiet
      else .quiet := by
    rw [requestEvent, htype]
    rfl
  rw [hevent]
  unfold Relay.sessionInit
  have hmissing : ∀ a b c : Bool, (!a || !b || !c) = !(a && b && c) := by decide
  dsimp only
  rw [hmissing, Bool.and_assoc, Bool.and_assoc, ← Bool.and_assoc (Json.get d "to").truthy]
  cases hfrom : s.username.truthy with
  | false => exact .reply hs hphase rfl
  | true =>
      cases (Json.get d "to").truthy && (Json.get d "identity_dh_pub").truthy
        && (Json.get d "eph_pub").truthy with
      | false => exact .reply hs hphase rfl
      | true =>
          simp only [Bool.true_and, Bool.not_true, Bool.false_eq_true, if_false, if_true]
          cases hkey : (Json.get d "to").dictKey with
          | error e => exact .reply hs hphase rfl
          | ok key =>
              have hsame : ∀ a r, Relay.connection { σ with accepted := a, relayed := r } key
                  = σ.connection key := fun a r => connection_congr rfl key
              dsimp only
              rw [hsame]
              cases hthere : σ.connection key with
              | none => exact .queued hs hphase hfrom hkey hthere ⟨d, rfl⟩
              | some c =>
                  obtain ⟨name, w', rfl, hget, rfl⟩ := connection_eq_some hthere
                  simp only [Relay.handOver, hget, decide_true]
                  exact .live hs hphase hfrom hkey hget ⟨d, rfl⟩

theorem directMessage_does (hs : σ.sockets[w]? = some s) (hphase : s.phase = .receiving)
    {typ : String} (htype : Json.get d "type" = .str typ)
    (htyp : typ = "msg" ∨ typ = "direct_message") :
    Does σ (requestEvent σ w s d ok) (σ.directMessage w s d ok) := by
  have hevent : requestEvent σ w s d ok =
      match Json.get d "to" with
      | .str raw =>
          if s.username.truthy && raw ≠ "" && Odict.has σ.connections (strip raw) then .message w
          else .quiet
      | _ => .quiet := by
    rw [requestEvent, htype]
    rcases htyp with rfl | rfl <;> rfl
  rw [hevent]
  unfold Relay.directMessage
  cases hfrom : s.username.truthy with
  | false =>
      cases Json.get d "to" with
      | _ => exact .reply hs hphase rfl
  | true =>
      cases Json.get d "to" with
      | str raw =>
          simp only [Bool.true_and, Bool.not_true, Bool.false_eq_true, if_false]
          by_cases hraw : raw = ""
          · simp only [hraw, ne_eq, not_true_eq_false, decide_false, Bool.false_and,
              Bool.false_eq_true, if_false, if_true]
            exact .reply hs hphase rfl
          · simp only [hraw, ne_eq, not_false_eq_true, decide_true, Bool.true_and, if_false]
            rw [← Odict.get?_isSome]
            cases Odict.get? σ.connections (strip raw) with
            | none => exact .reply hs hphase rfl
            | some w' => exact .message hs hphase hfrom rfl rfl
      | _ => exact .reply hs hphase rfl

theorem dispatch_does (hs : σ.sockets[w]? = some s) (hphase : s.phase = .receiving) :
    Does σ (requestEvent σ w s d ok) (σ.dispatch w s d ok) := by
  unfold Relay.dispatch
  cases htype : Json.get d "type" with
  | str typ =>
      dsimp only
      by_cases hregister : typ = "register"
      · subst hregister
        rw [if_pos rfl]
        exact register_does hs hphase htype
      by_cases hinit : typ = "session_init"
      · subst hinit
        exact sessionInit_does hs hphase htype
      by_cases hmsg : typ = "msg" ∨ typ = "direct_message"
      · rw [if_neg hregister, if_neg (by rcases hmsg with rfl | rfl <;> decide),
          if_neg (by rcases hmsg with rfl | rfl <;> decide),
          if_neg (by rcases hmsg with rfl | rfl <;> decide), if_neg hinit, if_pos hmsg]
        exact directMessage_does hs hphase htype hmsg
      -- The other requests change nothing but the wire and the bundles.
      have hevent : requestEvent σ w s d ok = .quiet := by
        rw [requestEvent, htype]
        simp only [hregister, hinit, hmsg, if_false]
      rw [hevent, if_neg hregister]
      split
      · exact uploadBundle_does hs hphase
      · split
        · exact getBundle_does hs hphase
        · split
          · exact getPeer_does hs hphase
          · exact .reply hs hphase rfl
  | _ =>
      rw [requestEvent, htype]
      exact .reply hs hphase rfl

end Requests

/-! ## Every step -/

/-- Cleaning up touches the two tables of names. -/
theorem cleanUp_frame (σ : Relay) (username : Json) :
    ∃ connections ephemeralPubs, σ.cleanUp username = { σ with
      connections := connections, ephemeralPubs := ephemeralPubs } := by
  unfold Relay.cleanUp
  split
  · split
    · exact ⟨_, _, rfl⟩
    · exact ⟨_, _, rfl⟩
  · exact ⟨_, _, rfl⟩

theorem receive_does {σ : Relay} {w : Nat} {s : Socket} (hs : σ.sockets[w]? = some s)
    (hphase : s.phase = .receiving) (input : RelayInput) (ok : Bool) :
    Does σ (event σ (.receive w input ok)) (σ.receive w s ok input) := by
  rw [event, hs]
  dsimp only
  rw [hphase]
  cases input with
  | failed => exact .finished hs hphase
  | tooLarge => exact .reply hs hphase rfl
  | invalidJson => exact .reply hs hphase rfl
  | raised =>
      have hsockets : (σ.cleanUp s.username).sockets = σ.sockets := by
        obtain ⟨connections, pubs, heq⟩ := cleanUp_frame σ s.username
        rw [heq]
      rw [Relay.receive, Relay.finish, hsockets]
      exact .raised hs hphase
  | json v =>
      cases v with
      | dict d => exact dispatch_does hs hphase
      | _ => exact .reply hs hphase rfl

theorem resume_does {σ : Relay} {w : Nat} {s : Socket} (hs : σ.sockets[w]? = some s)
    (ok : Bool) : Does σ (event σ (.resume w ok)) (σ.resume w s ok) := by
  rw [event, hs]
  unfold Relay.resume nextInits
  dsimp only
  cases hphase : s.phase with
  | receiving => cases s.username <;> exact .same
  | ended => cases s.username <;> exact .same
  | replying =>
      have hmoved : Does σ .quiet (σ.goTo w s .receiving) :=
        .moved hs (by rw [inHand, hphase]) (by rw [Running, hphase]; trivial) (.inl rfl)
          (by rw [hphase]; rintro ⟨⟩) (.inl rfl)
      cases s.username <;> exact hmoved
  | registering =>
      cases hname : s.username with
      | str name =>
          dsimp only
          cases hqueue : Odict.get? σ.pendingInits (.str name) with
          | none => exact .drained hs hphase hname (by rw [hqueue]; rfl)
          | some inits =>
              cases inits with
              | nil => exact .drained hs hphase hname (by rw [hqueue]; rfl)
              | cons init rest =>
                  simp only [Option.getD_some, Relay.deliver, hname]
                  exact .taken hs hphase hname hqueue
      | _ => exact .same
  | delivering rest =>
      cases rest with
      | nil =>
          have hmoved : Does σ .quiet (σ.deliver w s ok []) :=
            .moved hs (by rw [inHand, hphase]) (by rw [Running, hphase]; trivial) (.inl rfl)
              (by rw [hphase]; rintro ⟨⟩) (.inl rfl)
          cases s.username <;> exact hmoved
      | cons init rest =>
          unfold Relay.deliver
          cases hname : s.username with
          | str name => exact .next hs hphase hname
          | _ => exact .same

theorem step_does (σ : Relay) (act : RelayAct) : Does σ (event σ act) (σ.step act) := by
  cases act with
  | connect => exact .connect
  | close w =>
      rw [Relay.step]
      cases hs : σ.sockets[w]? with
      | none => exact .same
      | some s => exact .close hs
  | receive w input ok =>
      rw [Relay.step]
      cases hs : σ.sockets[w]? with
      | none =>
          rw [event, hs]
          exact .same
      | some s =>
          dsimp only
          cases hphase : s.phase with
          | receiving => exact receive_does hs hphase input ok
          | _ =>
              rw [event, hs]
              dsimp only
              rw [hphase]
              exact .same
  | resume w ok =>
      rw [Relay.step]
      cases hs : σ.sockets[w]? with
      | none =>
          rw [event, hs]
          exact .same
      | some s => exact resume_does hs ok

/-! ## The bundles -/

section Bundles

variable {σ : Relay} {w : Nat} {s : Socket} {d : List (String × Json)} {ok : Bool}

theorem uploadBundle_bundles (hother : (σ.uploadBundle w s d ok).bundles ≠ σ.bundles) :
    ∃ raw bundle, Json.get d "username" = .str raw ∧ Json.get d "bundle" = .dict bundle ∧
      (σ.uploadBundle w s d ok).bundles = Odict.set σ.bundles (strip raw) bundle := by
  unfold Relay.uploadBundle at *
  cases husername : Json.get d "username" with
  | str raw =>
      rw [husername] at hother
      dsimp only at *
      split at hother
      · exact absurd rfl hother
      · split at hother
        · exact absurd rfl hother
        · next hne hstrip =>
            rw [if_neg hne, if_neg hstrip]
            cases hbundle : Json.get d "bundle" with
            | dict bundle => exact ⟨raw, bundle, rfl, rfl, rfl⟩
            | _ =>
                rw [hbundle] at hother
                exact absurd rfl hother
  | _ =>
      rw [husername] at hother
      exact absurd rfl hother

theorem register_bundles : (σ.register w s d ok).bundles = σ.bundles := by
  unfold Relay.register
  dsimp only
  split
  · split
    · rfl
    · split <;> rfl
  · rfl

theorem getBundle_bundles : (σ.getBundle w s d ok).bundles = σ.bundles := by
  unfold Relay.getBundle
  split
  · split
    · rfl
    · split <;> rfl
  · rfl

theorem getPeer_bundles : (σ.getPeer w s d ok).bundles = σ.bundles := by
  unfold Relay.getPeer
  split
  · split
    · rfl
    · split <;> rfl
  · rfl

theorem sessionInit_bundles : (σ.sessionInit w s d ok).bundles = σ.bundles := by
  unfold Relay.sessionInit
  dsimp only
  split
  · rfl
  · split
    · rfl
    · split
      · rfl
      · split <;> rfl

theorem directMessage_bundles : (σ.directMessage w s d ok).bundles = σ.bundles := by
  unfold Relay.directMessage
  split
  · rfl
  · split
    · split
      · rfl
      · split <;> rfl
    · rfl

/-- No other request touches a bundle. -/
theorem dispatch_bundles (htype : Json.get d "type" ≠ .str "upload_bundle") :
    (σ.dispatch w s d ok).bundles = σ.bundles := by
  unfold Relay.dispatch
  cases htyp : Json.get d "type" with
  | str typ =>
      have hne : typ ≠ "upload_bundle" := fun heq => htype (by rw [htyp, heq])
      dsimp only
      rw [if_neg hne]
      split
      · exact register_bundles
      · split
        · exact getBundle_bundles
        · split
          · exact getPeer_bundles
          · split
            · exact sessionInit_bundles
            · split
              · exact directMessage_bundles
              · rfl
  | _ => rfl

end Bundles

theorem receive_bundles {σ : Relay} {w : Nat} {s : Socket} (ok : Bool) (input : RelayInput) :
    (σ.receive w s ok input).bundles = σ.bundles ∨
      ∃ d raw bundle, input = .json (.dict d) ∧ Json.get d "type" = .str "upload_bundle" ∧
        Json.get d "username" = .str raw ∧ Json.get d "bundle" = .dict bundle ∧
        (σ.receive w s ok input).bundles = Odict.set σ.bundles (strip raw) bundle := by
  cases input with
  | failed => exact Or.inl rfl
  | tooLarge => exact Or.inl rfl
  | invalidJson => exact Or.inl rfl
  | raised =>
      refine Or.inl ?_
      obtain ⟨connections, pubs, heq⟩ := cleanUp_frame σ s.username
      rw [Relay.receive, heq]
      rfl
  | json v =>
      cases v with
      | dict d =>
          by_cases htype : Json.get d "type" = .str "upload_bundle"
          · have hdispatch : σ.receive w s ok (.json (.dict d)) = σ.uploadBundle w s d ok := by
              rw [Relay.receive, Relay.dispatch, htype]
              rfl
            rw [hdispatch]
            by_cases hsame : (σ.uploadBundle w s d ok).bundles = σ.bundles
            · exact Or.inl hsame
            · obtain ⟨raw, bundle, husername, hbundle, hset⟩ := uploadBundle_bundles hsame
              exact Or.inr ⟨d, raw, bundle, rfl, htype, husername, hbundle, hset⟩
          · exact Or.inl (dispatch_bundles htype)
      | _ => exact Or.inl rfl

theorem resume_bundles {σ : Relay} {w : Nat} {s : Socket} (ok : Bool) :
    (σ.resume w s ok).bundles = σ.bundles := by
  have hdeliver : ∀ (σ : Relay) rest, (σ.deliver w s ok rest).bundles = σ.bundles := by
    intro σ rest
    unfold Relay.deliver
    split
    · rfl
    · split <;> rfl
  unfold Relay.resume
  split
  · rfl
  · rfl
  · rfl
  · split
    · exact hdeliver _ _
    · rfl
  · exact hdeliver _ _

/-- A bundle changes by an upload alone. -/
theorem step_bundles (σ : Relay) (act : RelayAct) : (σ.step act).bundles = σ.bundles ∨
    ∃ w d ok raw bundle, act = .receive w (.json (.dict d)) ok ∧
      Json.get d "type" = .str "upload_bundle" ∧ Json.get d "username" = .str raw ∧
      Json.get d "bundle" = .dict bundle ∧
      (σ.step act).bundles = Odict.set σ.bundles (strip raw) bundle := by
  cases act with
  | connect => exact Or.inl rfl
  | close w =>
      rw [Relay.step]
      cases σ.sockets[w]? <;> exact Or.inl rfl
  | receive w input ok =>
      rw [Relay.step]
      cases σ.sockets[w]? with
      | none => exact Or.inl rfl
      | some s =>
          dsimp only
          cases s.phase with
          | receiving =>
              rcases receive_bundles ok input with hsame | ⟨d, raw, bundle, rfl, hset⟩
              · exact Or.inl hsame
              · exact Or.inr ⟨w, d, ok, raw, bundle, rfl, hset⟩
          | _ => exact Or.inl rfl
  | resume w ok =>
      rw [Relay.step]
      cases σ.sockets[w]? with
      | none => exact Or.inl rfl
      | some s => exact Or.inl (resume_bundles ok)

end GhostChat.Proofs
