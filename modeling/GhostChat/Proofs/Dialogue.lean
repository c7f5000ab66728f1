import GhostChat.Proofs.Fallback
import GhostChat.Proofs.Registry
import GhostChat.Proofs.Wire
import GhostChat.Ref.Dialogue

/-!
# A client that is spoken to does not start

In its start a client takes the next message of its socket for the answer to its
last question. The relay answers the questions of a socket in order, but it also
passes messages and session_inits on to it, from the moment its name is
registered, and those that were queued for the name go out before the handler
looks at the next question.

So what a start comes to depends on the interleaving of all handlers in one way
only: on whether something that was pushed is read in it. If nothing is, the
client gets the relay's answers, each to its question, and ends up as
`establishSession` does with them; otherwise it has no session, even where the
message was taken for the reply to `get_bundle` and the fallback to the peer's
key might have saved it (`start_outcome`). A session_init that was queued goes
out right after the answer to `register`, so what its addressee reads for the
answer to its second question is that session_init or what was passed on to it in
between. It stops there, no session_init is handled, and it has to be started
again (`queued_init_stops`).

`Handled` and `Resumed` are what one handler does, seen from the wire; `Elapsed`
is what a socket sees of the others; `RelaySide` is the relay's side of a start and
`Talk` the client's.
-/

namespace GhostChat.Proofs

open GhostChat.Lib GhostChat.Lib.Effect GhostChat.Ref

/-! ## What a handler does with a request -/

/-- What the handler of a socket may do with what it receives: it answers, or
passes one message on to a registered socket, or queues one. -/
structure Handled (σ : Relay) (w : Nat) (σ' : Relay) : Prop where
  sockets : ∃ s', σ'.sockets = σ.sockets.set w s' ∧ inHand s' = []
  connections : ∀ name v, Odict.get? σ'.connections name = some v →
    Odict.get? σ.connections name = some v ∨ v = w
  wire : σ'.wire = σ.wire ∨ ∃ e, σ'.wire = e :: σ.wire ∧ (e.1 = w ∧ pushed e.2.1 = false ∨
    pushed e.2.1 = true ∧ ∃ name, Odict.get? σ.connections name = some e.1)
  pending : ∀ key, ∀ i ∈ (Odict.get? σ'.pendingInits key).getD [],
    i ∈ (Odict.get? σ.pendingInits key).getD [] ∨ pushed i.2 = true

section Handlers

variable {σ : Relay} {w : Nat} {s : Socket} {d : List (String × Json)} {ok : Bool}

theorem Handled.reply {obj : Json} (hobj : pushed obj = false) :
    Handled σ w (σ.reply w s obj ok) where
  sockets := ⟨_, rfl, rfl⟩
  connections _ _ h := Or.inl h
  wire := Or.inr ⟨_, rfl, Or.inl ⟨rfl, hobj⟩⟩
  pending _ _ h := Or.inl h

theorem register_handled : Handled σ w (σ.register w s d ok) := by
  have hrejected : ∀ (r : RegisterRecord) (s : Socket) (message : String),
      Handled σ w { σ.reply w s (errorObj message) ok with registers := r :: σ.registers } := by
    intro r s message
    have h : Handled σ w (σ.reply w s (errorObj message) ok) := .reply rfl
    exact ⟨h.sockets, h.connections, h.wire, h.pending⟩
  unfold Relay.register
  cases Json.get d "username" with
  | str raw =>
      dsimp only
      split
      · exact hrejected _ _ _
      · split
        · exact hrejected _ _ _
        · refine ⟨⟨_, rfl, rfl⟩, fun name v h => ?_, Or.inr ⟨_, rfl, Or.inl ⟨rfl, rfl⟩⟩,
            fun _ _ h => Or.inl h⟩
          by_cases hname : name = strip raw
          · subst hname
            exact Or.inr (Option.some.inj ((Odict.get?_set_self _ _ _).symm.trans h)).symm
          · exact Or.inl ((Odict.get?_set_ne _ hname _).symm.trans h)
  | _ => exact hrejected _ _ _

theorem uploadBundle_handled : Handled σ w (σ.uploadBundle w s d ok) := by
  unfold Relay.uploadBundle
  split
  · split
    · exact .reply rfl
    · split
      · exact .reply rfl
      · split
        · exact ⟨⟨_, rfl, rfl⟩, fun _ _ h => Or.inl h, Or.inr ⟨_, rfl, Or.inl ⟨rfl, rfl⟩⟩,
            fun _ _ h => Or.inl h⟩
        · exact .reply rfl
  · exact .reply rfl

theorem getBundle_handled : Handled σ w (σ.getBundle w s d ok) := by
  unfold Relay.getBundle
  split
  · split
    · exact .reply rfl
    · split <;> exact .reply rfl
  · exact .reply rfl

theorem getPeer_handled : Handled σ w (σ.getPeer w s d ok) := by
  unfold Relay.getPeer
  split
  · split
    · exact .reply rfl
    · split <;> exact .reply rfl
  · exact .reply rfl

theorem sessionInit_handled (hs : σ.sockets[w]? = some s) (hphase : s.phase = .receiving) :
    Handled σ w (σ.sessionInit w s d ok) := by
  unfold Relay.sessionInit
  dsimp only
  split
  · exact .reply rfl
  · split
    · exact .reply rfl
    · split
      · exact .reply rfl
      · next key hkey =>
        split
        · next name w' hto =>
          obtain ⟨_, _, -, hget, heq⟩ := connection_eq_some hto
          cases heq
          exact ⟨⟨_, rfl, rfl⟩, fun _ _ h => Or.inl h,
            Or.inr ⟨_, rfl, Or.inr ⟨rfl, _, hget⟩⟩, fun _ _ h => Or.inl h⟩
        · obtain ⟨hw, hget⟩ := List.getElem?_eq_some_iff.mp hs
          refine ⟨⟨s, by rw [← hget, List.set_getElem_self], inHand_receiving hphase⟩,
            fun _ _ h => Or.inl h, Or.inl rfl, fun k i hi => ?_⟩
          refine (Odict.mem_queue_push.mp hi).imp_right fun hnew => ?_
          rw [hnew.2]
          rfl

theorem directMessage_handled : Handled σ w (σ.directMessage w s d ok) := by
  unfold Relay.directMessage
  split
  · exact .reply rfl
  · split
    · split
      · exact .reply rfl
      · split
        · exact .reply rfl
        · next hget =>
          exact ⟨⟨_, rfl, rfl⟩, fun _ _ h => Or.inl h,
            Or.inr ⟨_, rfl, Or.inr ⟨rfl, _, hget⟩⟩, fun _ _ h => Or.inl h⟩
    · exact .reply rfl

theorem receive_handled (hs : σ.sockets[w]? = some s) (hphase : s.phase = .receiving)
    (input : RelayInput) (ok : Bool) : Handled σ w (σ.receive w s ok input) := by
  cases input with
  | failed =>
      exact ⟨⟨{ s with opened := false, phase := .ended }, rfl, rfl⟩, fun _ _ h => Or.inl h,
        Or.inl rfl, fun _ _ h => Or.inl h⟩
  | tooLarge => exact .reply rfl
  | invalidJson => exact .reply rfl
  | raised =>
      have hconn : ∀ name v, Odict.get? (σ.cleanUp s.username).connections name = some v →
          Odict.get? σ.connections name = some v := fun _ _ => cleanUp_get
      obtain ⟨connections, pubs, heq⟩ := cleanUp_frame σ s.username
      rw [heq] at hconn
      rw [Relay.receive, heq]
      exact ⟨⟨{ s with opened := false, phase := .ended }, rfl, rfl⟩,
        fun name v h => Or.inl (hconn name v h), Or.inl rfl, fun _ _ h => Or.inl h⟩
  | json v =>
      cases v with
      | dict d =>
          show Handled σ w (σ.dispatch w s d ok)
          unfold Relay.dispatch
          split
          · split
            · exact register_handled
            · split
              · exact uploadBundle_handled
              · split
                · exact getBundle_handled
                · split
                  · exact getPeer_handled
                  · split
                    · exact sessionInit_handled hs hphase
                    · split
                      · exact directMessage_handled
                      · exact .reply rfl
          · exact .reply rfl
      | _ => exact .reply rfl

end Handlers

/-- A handler that comes back from a send hands over what it has taken. -/
structure Resumed (σ : Relay) (w : Nat) (s : Socket) (σ' : Relay) : Prop where
  sockets : ∃ s', σ'.sockets = σ.sockets.set w s' ∧ s'.username = s.username ∧
    (∀ i ∈ inHand s', i ∈ nextInits σ s) ∧ (s'.phase = .registering → s.phase = .registering) ∧
    (s.phase = .receiving → s'.phase = .receiving)
  connections : σ'.connections = σ.connections
  wire : σ'.wire = σ.wire ∨
    ∃ i ∈ nextInits σ s, ∃ arrived, σ'.wire = (w, i.2, arrived) :: σ.wire
  pending : ∀ key, ∀ i ∈ (Odict.get? σ'.pendingInits key).getD [],
    i ∈ (Odict.get? σ.pendingInits key).getD []

section Resume

variable {σ : Relay} {w : Nat} {s : Socket}

section Deliver

variable {σ' : Relay} (hs : σ.sockets[w]? = some s) (hsockets : σ'.sockets = σ.sockets)
  (hconnections : σ'.connections = σ.connections) (hwire : σ'.wire = σ.wire)
  (hpending : ∀ key, ∀ i ∈ (Odict.get? σ'.pendingInits key).getD [],
    i ∈ (Odict.get? σ.pendingInits key).getD [])

include hs hsockets hconnections hwire hpending in
theorem Resumed.idle : Resumed σ w s σ' := by
  obtain ⟨hw, hget⟩ := List.getElem?_eq_some_iff.mp hs
  refine ⟨⟨s, by rw [hsockets, ← hget, List.set_getElem_self], rfl, fun i hi => ?_, id, id⟩,
    hconnections, Or.inl hwire, hpending⟩
  unfold inHand at hi
  unfold nextInits
  cases hphase : s.phase with
  | delivering rest =>
      rw [hphase] at hi
      cases s.username <;> exact hi
  | _ =>
      rw [hphase] at hi
      cases hi

include hs hsockets hconnections hwire hpending in
/-- The next one is handed over, or there is none left. -/
theorem deliver_resumed (ok : Bool) {inits : List (Nat × Json)} (hbusy : s.phase ≠ .receiving)
    (hnext : nextInits σ s = inits) : Resumed σ w s (σ'.deliver w s ok inits) := by
  cases inits with
  | nil =>
      refine ⟨⟨{ s with phase := .receiving }, ?_, rfl, fun i hi => ?_, fun h => ?_, fun _ => rfl⟩,
        hconnections, Or.inl hwire, hpending⟩
      · rw [← hsockets]
        rfl
      · cases hi
      · cases h
  | cons i rest =>
      rw [Relay.deliver]
      cases s.username with
      | str name =>
          refine ⟨⟨{ s with phase := .delivering rest }, ?_, rfl, fun j hj => ?_, fun h => ?_,
            fun h => absurd h hbusy⟩, hconnections, Or.inr ⟨i, ?_, ok && σ'.isOpen w, ?_⟩, hpending⟩
          · rw [← hsockets]
            rfl
          · rw [hnext]
            exact List.mem_cons_of_mem _ hj
          · cases h
          · rw [hnext]
            exact List.mem_cons_self
          · rw [← hwire]
            rfl
      | _ => exact .idle hs hsockets hconnections hwire hpending

end Deliver

theorem resume_resumed (hs : σ.sockets[w]? = some s) (ok : Bool) :
    Resumed σ w s (σ.resume w s ok) := by
  unfold Relay.resume
  cases hphase : s.phase with
  | receiving => exact .idle hs rfl rfl rfl fun _ _ h => h
  | ended => exact .idle hs rfl rfl rfl fun _ _ h => h
  | replying =>
      refine ⟨⟨{ s with phase := .receiving }, rfl, rfl, fun i hi => ?_, fun h => ?_,
        fun _ => rfl⟩, rfl, Or.inl rfl, fun _ _ h => h⟩
      · cases hi
      · cases h
  | registering =>
      cases hname : s.username with
      | str name =>
          show Resumed σ w s ({ σ with
            pendingInits := Odict.erase σ.pendingInits (.str name) }.deliver w s ok _)
          refine deliver_resumed hs ?_ ?_ ?_ (fun key i hi => ?_) ok ?_ ?_
          · rfl
          · rfl
          · rfl
          · exact (Odict.mem_queue_erase.mp hi).2
          · rw [hphase]
            exact Phase.noConfusion
          · rw [nextInits, hphase, hname]
      | _ => exact .idle hs rfl rfl rfl fun _ _ h => h
  | delivering rest =>
      refine deliver_resumed hs rfl rfl rfl (fun _ _ h => h) ok ?_ ?_
      · rw [hphase]
        exact Phase.noConfusion
      · rw [nextInits, hphase]

end Resume

/-! ## The other handlers, as one socket sees them -/

/-- Only session_inits are queued, and only sockets there are used. -/
structure RelayReady (σ : Relay) : Prop where
  pending : ∀ key, ∀ i ∈ (Odict.get? σ.pendingInits key).getD [], pushed i.2 = true
  held : ∀ (w : Nat) (s : Socket), σ.sockets[w]? = some s → ∀ i ∈ inHand s, pushed i.2 = true
  known : ∀ name w, Odict.get? σ.connections name = some w → w < σ.sockets.length
  wired : ∀ e ∈ σ.wire, e.1 < σ.sockets.length

section Elapse

variable {σ : Relay} {w : Nat}

theorem RelayReady.next {s : Socket} (h : RelayReady σ) (hs : σ.sockets[w]? = some s) :
    ∀ i ∈ nextInits σ s, pushed i.2 = true := by
  intro i hi
  unfold nextInits at hi
  split at hi
  · exact h.pending _ i hi
  · next hphase =>
      refine h.held w s hs i ?_
      rw [inHand, hphase]
      exact hi
  · cases hi

theorem RelayReady.set {σ' : Relay} {s' : Socket} (h : RelayReady σ)
    (hsockets : σ'.sockets = σ.sockets.set w s')
    (hs' : ∀ i ∈ inHand s', pushed i.2 = true) :
    ∀ (v : Nat) (t : Socket), σ'.sockets[v]? = some t → ∀ i ∈ inHand t, pushed i.2 = true := by
  intro v t ht
  rw [hsockets, List.getElem?_set] at ht
  split at ht
  · split at ht
    · cases ht
      exact hs'
    · cases ht
  · exact h.held v t ht

theorem RelayReady.receive {s : Socket} (h : RelayReady σ) (hs : σ.sockets[w]? = some s)
    (hphase : s.phase = .receiving) (input : RelayInput) (ok : Bool) :
    RelayReady (σ.receive w s ok input) := by
  have hhandled := receive_handled hs hphase input ok
  obtain ⟨hw, -⟩ := List.getElem?_eq_some_iff.mp hs
  obtain ⟨s', hsockets, hhand⟩ := hhandled.sockets
  have hlength : (σ.receive w s ok input).sockets.length = σ.sockets.length := by
    rw [hsockets, List.length_set]
  refine ⟨fun key i hi => (hhandled.pending key i hi).elim (h.pending key i) id,
    h.set hsockets (by rw [hhand]; exact fun i hi => absurd hi List.not_mem_nil),
    fun name v hv => ?_, fun e he => ?_⟩
  · rw [hlength]
    rcases hhandled.connections name v hv with hv | rfl
    · exact h.known name v hv
    · exact hw
  · rw [hlength]
    rcases hhandled.wire with hwire | ⟨x, hwire, hx⟩
    · rw [hwire] at he
      exact h.wired e he
    · rw [hwire] at he
      rcases List.mem_cons.mp he with rfl | he
      · rcases hx with ⟨rfl, -⟩ | ⟨-, name, hname⟩
        · exact hw
        · exact h.known name _ hname
      · exact h.wired e he

theorem RelayReady.resume {s : Socket} (h : RelayReady σ) (hs : σ.sockets[w]? = some s)
    (ok : Bool) : RelayReady (σ.resume w s ok) := by
  have hresumed := resume_resumed hs ok
  obtain ⟨hw, -⟩ := List.getElem?_eq_some_iff.mp hs
  obtain ⟨s', hsockets, -, hhand, -, -⟩ := hresumed.sockets
  have hlength : (σ.resume w s ok).sockets.length = σ.sockets.length := by
    rw [hsockets, List.length_set]
  refine ⟨fun key i hi => h.pending key i (hresumed.pending key i hi),
    h.set hsockets fun i hi => h.next hs i (hhand i hi), fun name v hv => ?_, fun e he => ?_⟩
  · rw [hlength]
    rw [hresumed.connections] at hv
    exact h.known name v hv
  · rw [hlength]
    rcases hresumed.wire with hwire | ⟨i, -, arrived, hwire⟩
    · rw [hwire] at he
      exact h.wired e he
    · rw [hwire] at he
      rcases List.mem_cons.mp he with rfl | he
      · exact hw
      · exact h.wired e he

theorem RelayReady.connect (h : RelayReady σ) : RelayReady (σ.step .connect) := by
  have hlength : (σ.step .connect).sockets.length = σ.sockets.length + 1 := List.length_append
  refine ⟨h.pending, fun v t ht => ?_, fun name v hv => ?_, fun e he => ?_⟩
  · have ht : (σ.sockets ++ [({} : Socket)])[v]? = some t := ht
    rcases getElem?_concat_cases ht with ht | ⟨-, rfl⟩
    · exact h.held v t ht
    · exact fun i hi => absurd hi List.not_mem_nil
  · have hknown := h.known name v hv
    omega
  · have hwired := h.wired e he
    omega

theorem RelayReady.step (h : RelayReady σ) (act : RelayAct) : RelayReady (σ.step act) := by
  cases act with
  | connect => exact h.connect
  | close v =>
      rw [Relay.step]
      cases hs : σ.sockets[v]? with
      | none => exact h
      | some s =>
          have hclosed : ∀ i ∈ inHand { s with opened := false }, pushed i.2 = true := h.held v s hs
          refine ⟨h.pending, h.set rfl hclosed, fun name u hu => ?_, fun e he => ?_⟩
          · rw [List.length_set]
            exact h.known name u hu
          · rw [List.length_set]
            exact h.wired e he
  | receive v input ok =>
      rw [Relay.step]
      cases hs : σ.sockets[v]? with
      | none => exact h
      | some s =>
          dsimp only
          cases hphase : s.phase with
          | receiving => exact h.receive hs hphase input ok
          | _ => exact h
  | resume v ok =>
      rw [Relay.step]
      cases hs : σ.sockets[v]? with
      | none => exact h
      | some s => exact h.resume hs ok

theorem relayReady_start : RelayReady {} := by
  refine ⟨fun key i hi => ?_, fun v t ht => ?_, fun name v hv => ?_, fun e he => ?_⟩
  · cases hi
  · cases ht
  · cases hv
  · cases he

theorem relayReady_run (acts : List RelayAct) : RelayReady (runFrom Relay.step {} acts) :=
  runFrom_invariant (fun _ act h => h.step act) relayReady_start acts

theorem inbox_same {σ' : Relay} (hwire : σ'.wire = σ.wire) (w : Nat) :
    σ'.inbox w = σ.inbox w := by
  rw [Relay.inbox, hwire]
  rfl

theorem inbox_cons {σ' : Relay} {e : Nat × Json × Bool} (hwire : σ'.wire = e :: σ.wire) (w : Nat) :
    σ'.inbox w = σ.inbox w ++ if e.1 == w && e.2.2 then [e.2.1] else [] := by
  rw [Relay.inbox, Relay.inbox, hwire, List.reverse_cons, List.filter_append, List.map_append,
    List.filter_singleton]
  cases e.1 == w && e.2.2 <;> rfl

/-- What the socket sees of a step of the others: it may be spoken to, if it is
registered or its handler is sending. -/
structure Elapsed (w : Nat) (σ σ' : Relay) : Prop where
  connections : ∀ name, Odict.get? σ'.connections name = some w →
    Odict.get? σ.connections name = some w
  inbox : ∃ new, σ'.inbox w = σ.inbox w ++ new ∧ ∀ v ∈ new, pushed v = true ∧
    ((∃ name, Odict.get? σ.connections name = some w) ∨
      ∃ s, σ.sockets[w]? = some s ∧ s.phase ≠ .receiving)
  socket : ∀ s, σ.sockets[w]? = some s → ∃ s', σ'.sockets[w]? = some s' ∧
    s'.username = s.username ∧ (s'.phase = .registering → s.phase = .registering) ∧
    (s.phase = .receiving → s'.phase = .receiving)

theorem Elapsed.refl (w : Nat) (σ : Relay) : Elapsed w σ σ :=
  ⟨fun _ h => h, ⟨[], (List.append_nil _).symm, fun _ hv => absurd hv List.not_mem_nil⟩,
    fun s hs => ⟨s, hs, rfl, id, id⟩⟩

theorem receive_elapsed {v : Nat} {s : Socket} (hs : σ.sockets[v]? = some s)
    (hphase : s.phase = .receiving) (input : RelayInput) (ok : Bool) (hv : v ≠ w) :
    Elapsed w σ (σ.receive v s ok input) := by
  have hhandled := receive_handled hs hphase input ok
  obtain ⟨s', hsockets, -⟩ := hhandled.sockets
  refine ⟨fun name hname => (hhandled.connections name w hname).resolve_right fun h => hv h.symm,
    ?_, fun t ht => ⟨t, ?_, rfl, id, id⟩⟩
  · rcases hhandled.wire with hwire | ⟨e, hwire, he⟩
    · exact ⟨[], by rw [inbox_same hwire, List.append_nil], fun x hx => absurd hx List.not_mem_nil⟩
    · refine ⟨_, inbox_cons hwire w, fun x hx => ?_⟩
      split at hx
      · next hw =>
          obtain ⟨hw, -⟩ := Bool.and_eq_true_iff.mp hw
          have hw := eq_of_beq hw
          rw [List.mem_singleton.mp hx]
          rcases he with ⟨hown, -⟩ | ⟨hpush, name, hname⟩
          · exact absurd (hown.symm.trans hw) hv
          · rw [hw] at hname
            exact ⟨hpush, Or.inl ⟨name, hname⟩⟩
      · cases hx
  · rw [hsockets, List.getElem?_set_ne hv]
    exact ht

theorem resume_elapsed {v : Nat} {s : Socket} (h : RelayReady σ) (hs : σ.sockets[v]? = some s)
    (ok : Bool) : Elapsed w σ (σ.resume v s ok) := by
  have hresumed := resume_resumed hs ok
  obtain ⟨s', hsockets, husername, -, hregistering, hreceiving⟩ := hresumed.sockets
  refine ⟨fun name hname => by rwa [hresumed.connections] at hname, ?_, fun t ht => ?_⟩
  · rcases hresumed.wire with hwire | ⟨i, hi, arrived, hwire⟩
    · exact ⟨[], by rw [inbox_same hwire, List.append_nil], fun x hx => absurd hx List.not_mem_nil⟩
    · refine ⟨_, inbox_cons hwire w, fun x hx => ?_⟩
      split at hx
      · next hw =>
          obtain ⟨hw, -⟩ := Bool.and_eq_true_iff.mp hw
          obtain rfl : v = w := eq_of_beq hw
          rw [List.mem_singleton.mp hx]
          refine ⟨h.next hs i hi, Or.inr ⟨s, hs, fun hphase => ?_⟩⟩
          rw [nextInits, hphase] at hi
          cases hi
      · cases hx
  · by_cases hv : v = w
    · subst hv
      obtain rfl : s = t := Option.some.inj (hs.symm.trans ht)
      obtain ⟨hlt, -⟩ := List.getElem?_eq_some_iff.mp hs
      exact ⟨s', by rw [hsockets, List.getElem?_set_self hlt], husername, hregistering, hreceiving⟩
    · exact ⟨t, by rw [hsockets, List.getElem?_set_ne hv]; exact ht, rfl, id, id⟩

theorem step_elapsed (h : RelayReady σ) {act : RelayAct} (hact : Elsewhere w (.relay act)) :
    Elapsed w σ (σ.step act) := by
  cases act with
  | connect =>
      refine ⟨fun _ h => h, (Elapsed.refl w σ).inbox, fun s hs => ⟨s, ?_, rfl, id, id⟩⟩
      obtain ⟨hlt, -⟩ := List.getElem?_eq_some_iff.mp hs
      show (σ.sockets ++ [({} : Socket)])[w]? = some s
      rw [List.getElem?_append_left hlt]
      exact hs
  | close v =>
      rw [Relay.step]
      cases hs : σ.sockets[v]? with
      | none => exact .refl w σ
      | some s =>
          refine ⟨fun _ h => h, (Elapsed.refl w σ).inbox, fun t ht => ⟨t, ?_, rfl, id, id⟩⟩
          show (σ.sockets.set v _)[w]? = some t
          rw [List.getElem?_set_ne hact]
          exact ht
  | receive v input ok =>
      rw [Relay.step]
      cases hs : σ.sockets[v]? with
      | none => exact .refl w σ
      | some s =>
          dsimp only
          cases hphase : s.phase with
          | receiving => exact receive_elapsed hs hphase input ok hact
          | _ => exact .refl w σ
  | resume v ok =>
      rw [Relay.step]
      cases hs : σ.sockets[v]? with
      | none => exact .refl w σ
      | some s => exact resume_elapsed h hs ok

end Elapse

/-! ## The client's requests -/

section Requests

variable {cfg : StartConfig} {σ : Relay} {w : Nat} {s : Socket}

/-- What the handler of the client's socket does with a request of the client:
it says the answer, or passes a session_init on. -/
structure Answered (cfg : StartConfig) (w : Nat) (request : Request) (σ σ' : Relay) : Prop where
  wire : match σ.answer cfg request with
    | some v => ∃ arrived, σ'.wire = (w, v, arrived) :: σ.wire
    | none => σ'.wire = σ.wire ∨ ∃ e, σ'.wire = e :: σ.wire ∧ pushed e.2.1 = true
  socket : ∃ s', σ'.sockets[w]? = some s' ∧ s'.username = .str (strip cfg.username) ∧
    (s'.phase = .registering → request = .register)

/-- An answer after which the loop goes on. -/
theorem Answered.reply {request : Request} {v : Json} {ok : Bool} {bundles}
    (hs : σ.sockets[w]? = some s) (hname : s.username = .str (strip cfg.username))
    (hanswer : σ.answer cfg request = some v) :
    Answered cfg w request σ ({ σ with bundles := bundles }.reply w s v ok) := by
  obtain ⟨hw, -⟩ := List.getElem?_eq_some_iff.mp hs
  refine ⟨?_, { s with phase := .replying }, ?_, hname, fun h => ?_⟩
  · rw [hanswer]
    exact ⟨_, rfl⟩
  · exact List.getElem?_set_self hw
  · cases h

theorem register_answered (hs : σ.sockets[w]? = some s) (hname : strip cfg.username ≠ "")
    (ok : Bool) : Answered cfg w .register σ
      (σ.receive w s ok (.json (.dict (Request.register.toDict cfg)))) := by
  obtain ⟨hw, -⟩ := List.getElem?_eq_some_iff.mp hs
  have hraw : cfg.username ≠ "" := by
    intro h
    rw [h] at hname
    exact hname rfl
  have hcall : σ.receive w s ok (.json (.dict (Request.register.toDict cfg)))
      = σ.register w s (Request.register.toDict cfg) ok := rfl
  have husername : Json.get (Request.register.toDict cfg) "username" = .str cfg.username := rfl
  rw [hcall, Relay.register, husername]
  simp only [hraw, hname, if_false]
  exact ⟨⟨_, rfl⟩, _, List.getElem?_set_self hw, rfl, fun _ => rfl⟩

theorem uploadBundle_answered (hs : σ.sockets[w]? = some s)
    (husername : s.username = .str (strip cfg.username)) (hname : strip cfg.username ≠ "")
    (bundle : List (String × Json)) (ok : Bool) : Answered cfg w (.uploadBundle (.dict bundle)) σ
      (σ.receive w s ok (.json (.dict (Request.toDict cfg (.uploadBundle (.dict bundle)))))) := by
  have hraw : cfg.username ≠ "" := by
    intro h
    rw [h] at hname
    exact hname rfl
  have hcall : σ.receive w s ok (.json (.dict (Request.toDict cfg (.uploadBundle (.dict bundle)))))
      = σ.uploadBundle w s (Request.toDict cfg (.uploadBundle (.dict bundle))) ok := rfl
  have hfield : Json.get (Request.toDict cfg (.uploadBundle (.dict bundle))) "username"
      = .str cfg.username := rfl
  rw [hcall, Relay.uploadBundle, hfield]
  simp only [hraw, hname, if_false]
  exact .reply hs husername rfl

theorem truthy_of_ne {t : String} (ht : t ≠ "") : (Json.str t).truthy = true := by
  rw [Json.truthy, Bool.not_eq_true', String.isEmpty_eq_false_iff]
  exact ht

theorem peerField_username {d : List (String × Json)} {peer : String}
    (hd : Json.get d "username" = .str peer) (hpeer : peer ≠ "") :
    Relay.peerField d = .str peer := by
  rw [Relay.peerField, hd]
  exact if_pos (truthy_of_ne hpeer)

theorem getBundle_answered (hs : σ.sockets[w]? = some s)
    (husername : s.username = .str (strip cfg.username)) (hpeer : cfg.peer ≠ "") (ok : Bool) :
    Answered cfg w .getBundle σ
      (σ.receive w s ok (.json (.dict (Request.getBundle.toDict cfg)))) := by
  have hcall : σ.receive w s ok (.json (.dict (Request.getBundle.toDict cfg)))
      = σ.getBundle w s (Request.getBundle.toDict cfg) ok := rfl
  have hanswer : σ.answer cfg .getBundle = some (σ.bundleOf cfg.peer) := rfl
  rw [hcall, Relay.getBundle, peerField_username rfl hpeer]
  simp only [hpeer, if_false]
  cases hget : Odict.get? σ.bundles (strip cfg.peer) with
  | none => exact .reply hs husername (by rw [hanswer, Relay.bundleOf, hget])
  | some bundle => exact .reply hs husername (by rw [hanswer, Relay.bundleOf, hget])

theorem getPeer_answered (hs : σ.sockets[w]? = some s)
    (husername : s.username = .str (strip cfg.username)) (hpeer : cfg.peer ≠ "") (ok : Bool) :
    Answered cfg w .getPeer σ
      (σ.receive w s ok (.json (.dict (Request.getPeer.toDict cfg)))) := by
  have hcall : σ.receive w s ok (.json (.dict (Request.getPeer.toDict cfg)))
      = σ.getPeer w s (Request.getPeer.toDict cfg) ok := rfl
  have hanswer : σ.answer cfg .getPeer = some (σ.keyOf cfg.peer) := rfl
  rw [hcall, Relay.getPeer, peerField_username rfl hpeer]
  simp only [hpeer, if_false]
  cases hhas : Odict.has σ.connections (strip cfg.peer) with
  | false => exact .reply hs husername (by rw [hanswer, Relay.keyOf, hhas])
  | true =>
      cases hget : Odict.get? σ.ephemeralPubs (strip cfg.peer) with
      | none => exact .reply hs husername (by rw [hanswer, Relay.keyOf, hhas, hget])
      | some pub => exact .reply hs husername (by rw [hanswer, Relay.keyOf, hhas, hget])

theorem sessionInit_answered (hs : σ.sockets[w]? = some s) (hphase : s.phase = .receiving)
    (husername : s.username = .str (strip cfg.username)) (hname : strip cfg.username ≠ "")
    (hpeer : cfg.peer ≠ "") {m : SessionInit} (hm : m.identityDhPub ≠ [] ∧ m.ephPub ≠ [])
    (ok : Bool) : Answered cfg w (.sessionInit m) σ
      (σ.receive w s ok (.json (.dict (Request.toDict cfg (.sessionInit m))))) := by
  obtain ⟨hw, -⟩ := List.getElem?_eq_some_iff.mp hs
  have hcall : σ.receive w s ok (.json (.dict (Request.toDict cfg (.sessionInit m))))
      = σ.sessionInit w s (Request.toDict cfg (.sessionInit m)) ok := rfl
  have hto : Json.get (Request.toDict cfg (.sessionInit m)) "to" = .str cfg.peer := rfl
  have hid : Json.get (Request.toDict cfg (.sessionInit m)) "identity_dh_pub"
      = .str (b64Encode m.identityDhPub) := rfl
  have heph : Json.get (Request.toDict cfg (.sessionInit m)) "eph_pub"
      = .str (b64Encode m.ephPub) := rfl
  rw [hcall, Relay.sessionInit]
  simp only [hto, hid, heph, husername, truthy_of_ne hname, truthy_of_ne hpeer,
    truthy_of_ne (b64Encode_ne_empty hm.1), truthy_of_ne (b64Encode_ne_empty hm.2), Json.dictKey,
    Bool.not_true, Bool.or_self, Bool.false_eq_true, if_false]
  split
  · next name v hthere =>
      refine ⟨Or.inr ⟨_, rfl, rfl⟩, { s with phase := .replying }, List.getElem?_set_self hw,
        husername, fun h => ?_⟩
      cases h
  · refine ⟨Or.inl rfl, s, hs, husername, fun h => ?_⟩
    rw [hphase] at h
    cases h

/-- What the client asks after it has registered can be answered. -/
def CanFollow : Request → Prop
  | .register => False
  | .uploadBundle bundleDict => ∃ bundle, bundleDict = .dict bundle
  | .sessionInit m => m.identityDhPub ≠ [] ∧ m.ephPub ≠ []
  | .getBundle | .getPeer => True

theorem follows_answered (hs : σ.sockets[w]? = some s) (hphase : s.phase = .receiving)
    (husername : s.username = .str (strip cfg.username)) (hname : strip cfg.username ≠ "")
    (hpeer : cfg.peer ≠ "") {request : Request} (hr : CanFollow request) (ok : Bool) :
    Answered cfg w request σ (σ.receive w s ok (.json (.dict (request.toDict cfg)))) := by
  cases request with
  | register => exact hr.elim
  | uploadBundle bundleDict =>
      obtain ⟨bundle, rfl⟩ := hr
      exact uploadBundle_answered hs husername hname bundle ok
  | getBundle => exact getBundle_answered hs husername hpeer ok
  | sessionInit m => exact sessionInit_answered hs hphase husername hname hpeer hr ok
  | getPeer => exact getPeer_answered hs husername hpeer ok

/-- An answer is not taken for a message that was pushed. -/
theorem pushed_answer {request : Request} {v : Json} (h : σ.answer cfg request = some v) :
    pushed v = false := by
  cases request with
  | register => cases h; rfl
  | uploadBundle bundleDict => cases h; rfl
  | sessionInit m => cases h
  | getBundle =>
      cases h
      unfold Relay.bundleOf
      split <;> rfl
  | getPeer =>
      cases h
      unfold Relay.keyOf
      split <;> rfl

theorem initiateX3dh_keys {h : HandshakeCrypto Bytes Bytes Bytes} {b : ClientPreKeyBundle}
    {eph : Bytes} {d : Json} {r : X3DHResult Bytes} {m : SessionInit}
    (hpub : ∀ p, (h.publicKey p).length = 32) (hinit : initiateX3dh h b eph d = .ok (r, m)) :
    m.identityDhPub ≠ [] ∧ m.ephPub ≠ [] := by
  have hne : ∀ p, h.publicKey p ≠ [] := fun p hnil => by
    have hlen := hpub p
    rw [hnil] at hlen
    cases hlen
  obtain ⟨peer, -, hinit⟩ := except_bind_ok hinit
  obtain ⟨⟨r', ephPub⟩, hcall, hinit⟩ := except_bind_ok hinit
  obtain ⟨identityDhPub, hidentity, hret⟩ := except_bind_ok hinit
  cases hret
  obtain ⟨key, -, hret⟩ := except_bind_ok hidentity
  cases hret
  refine ⟨hne _, ?_⟩
  obtain ⟨⟨x, u⟩, hkeyed, hx⟩ := except_map_ok hcall
  simp only at hx
  subst hx
  simp only [x3dhInitiatorKeyed] at hkeyed
  obtain ⟨_, -, hkeyed⟩ := except_bind_ok hkeyed
  obtain ⟨_, -, hkeyed⟩ := except_bind_ok hkeyed
  obtain ⟨-, hkeyed⟩ := except_guard_ok hkeyed
  obtain ⟨-, hkeyed⟩ := except_guard_ok hkeyed
  obtain ⟨_, -, hkeyed⟩ := except_bind_ok hkeyed
  obtain ⟨_, -, hkeyed⟩ := except_bind_ok hkeyed
  obtain ⟨_, -, hkeyed⟩ := except_bind_ok hkeyed
  obtain ⟨_, -, hkeyed⟩ := except_bind_ok hkeyed
  obtain ⟨_, -, hkeyed⟩ := except_bind_ok hkeyed
  obtain ⟨_, -, hkeyed⟩ := except_bind_ok hkeyed
  obtain ⟨_, -, hkeyed⟩ := except_bind_ok hkeyed
  obtain ⟨_, -, hkeyed⟩ := except_bind_ok hkeyed
  cases hkeyed
  exact hne _

theorem sentInits_follow (hpub : ∀ p, (cfg.h.publicKey p).length = 32) (bundleDict : Json) :
    ∀ r ∈ sentInits cfg bundleDict, CanFollow r := by
  intro r hr
  unfold sentInits at hr
  split at hr
  · next m hinit _ =>
      rw [List.mem_singleton.mp hr]
      exact initiateX3dh_keys hpub hinit
  · cases hr

end Requests

/-! ## The relay's side -/

/-- The handler of the client's socket has answered the first requests, and what
else the socket was sent was pushed to it. -/
structure RelaySide (cfg : StartConfig) (w : Nat) (σ : Dialogue) : Prop where
  ready : RelayReady σ.relay
  socket : ∃ s, σ.relay.sockets[w]? = some s ∧ (σ.taken = 0 → s.phase = .receiving) ∧
    (0 < σ.taken → s.username = .str (strip cfg.username)) ∧
    (s.phase = .registering → σ.taken = 1)
  unregistered : σ.taken = 0 → (∀ name, Odict.get? σ.relay.connections name ≠ some w) ∧
    σ.relay.inbox w = []
  asked : ∃ rest, σ.asked = .register :: rest ∧ ∀ r ∈ rest, CanFollow r
  count : σ.answers.length = σ.taken
  answered : ∀ (i : Nat) (a : Option Json), σ.answers[i]? = some a →
    ∃ (r : Request) (ρ : Relay), σ.asked[i]? = some r ∧ a = ρ.answer cfg r
  told : (σ.relay.inbox w).filter (fun v => !pushed v) = σ.told
  greeted : 0 < σ.taken → (σ.relay.inbox w)[0]? = some (okObj "registered")
  replies : σ.replies <+: σ.relay.inbox w

section Serve

variable {cfg : StartConfig} {w : Nat} {σ : Dialogue}

theorem filter_pushed {l : List Json} (h : ∀ v ∈ l, pushed v = true) :
    l.filter (fun v => !pushed v) = [] := by
  refine List.filter_eq_nil_iff.mpr fun v hv => ?_
  rw [h v hv]
  decide

theorem RelaySide.elapse (h : RelaySide cfg w σ) {act : RelayAct}
    (hact : Elsewhere w (.relay act)) :
    RelaySide cfg w (σ.step cfg w (.relay act)) := by
  have helapsed := step_elapsed h.ready hact
  obtain ⟨new, hinbox, hnew⟩ := helapsed.inbox
  obtain ⟨s, hs, hfresh, hname, hregistering⟩ := h.socket
  obtain ⟨s', hs', husername, hphase, hstays⟩ := helapsed.socket s hs
  refine ⟨h.ready.step act, ⟨s', hs', fun h0 => hstays (hfresh h0),
    fun hpos => husername.trans (hname hpos), fun hp => hregistering (hphase hp)⟩,
    fun h0 => ⟨fun name hn => (h.unregistered h0).1 name (helapsed.connections name hn), ?_⟩,
    h.asked, h.count, h.answered, ?_, fun hpos => ?_, ?_⟩
  · obtain ⟨hnobody, hempty⟩ := h.unregistered h0
    show (σ.relay.step act).inbox w = []
    rw [hinbox, hempty, List.nil_append]
    refine List.eq_nil_iff_forall_not_mem.mpr fun v hv => ?_
    obtain ⟨-, ⟨name, hn⟩ | ⟨t, ht, hbusy⟩⟩ := hnew v hv
    · exact hnobody name hn
    · obtain rfl : s = t := Option.some.inj (hs.symm.trans ht)
      exact hbusy (hfresh h0)
  · show ((σ.relay.step act).inbox w).filter _ = σ.told
    rw [hinbox, List.filter_append, filter_pushed fun v hv => (hnew v hv).1, List.append_nil,
      h.told]
  · show ((σ.relay.step act).inbox w)[0]? = _
    rw [hinbox]
    exact getElem?_stays (List.prefix_append _ _) (h.greeted hpos)
  · show σ.replies <+: (σ.relay.step act).inbox w
    rw [hinbox]
    exact h.replies.trans (List.prefix_append _ _)

/-- The next request is the first one, or is one that follows. -/
theorem RelaySide.next_request (h : RelaySide cfg w σ) {request : Request}
    (hrequest : σ.asked[σ.taken]? = some request) :
    σ.taken = 0 ∧ request = .register ∨ 0 < σ.taken ∧ CanFollow request := by
  obtain ⟨rest, hasked, hfollows⟩ := h.asked
  rw [hasked] at hrequest
  cases htaken : σ.taken with
  | zero =>
      rw [htaken] at hrequest
      exact Or.inl ⟨rfl, (Option.some.inj hrequest).symm⟩
  | succ n =>
      rw [htaken] at hrequest
      exact Or.inr ⟨Nat.succ_pos n, hfollows _ (List.mem_of_getElem? hrequest)⟩

theorem RelaySide.answer (hname : strip cfg.username ≠ "") (hpeer : cfg.peer ≠ "")
    (h : RelaySide cfg w σ) {request : Request} {s : Socket} {ok : Bool}
    (hrequest : σ.asked[σ.taken]? = some request) (hs : σ.relay.sockets[w]? = some s)
    (hphase : s.phase = .receiving) {relay : Relay}
    (hrelay : relay = σ.relay.receive w s ok (.json (.dict (request.toDict cfg))))
    (harrived : Arrived w relay) : RelaySide cfg w { σ with
      relay := relay
      taken := σ.taken + 1
      answers := σ.answers ++ [σ.relay.answer cfg request] } := by
  have hnext := h.next_request hrequest
  have hanswered : Answered cfg w request σ.relay relay := by
    rw [hrelay]
    rcases hnext with ⟨-, rfl⟩ | ⟨hpos, hfollows⟩
    · exact register_answered hs hname ok
    · obtain ⟨t, ht, -, husername, -⟩ := h.socket
      obtain rfl : s = t := Option.some.inj (hs.symm.trans ht)
      exact follows_answered hs hphase (husername hpos) hname hpeer hfollows ok
  -- What the socket is sent is the answer, or is pushed.
  have hinbox : ∃ new, relay.inbox w = σ.relay.inbox w ++ new ∧
      new.filter (fun v => !pushed v) = (σ.relay.answer cfg request).toList ∧
      (∀ v, σ.relay.answer cfg request = some v → new = [v]) := by
    have hwire := hanswered.wire
    cases hanswer : σ.relay.answer cfg request with
    | some v =>
        rw [hanswer] at hwire
        obtain ⟨arrived, hwire⟩ := hwire
        have harrived : arrived = true :=
          harrived (w, v, arrived) (by rw [hwire]; exact List.mem_cons_self) rfl
        refine ⟨[v], ?_, ?_, fun u hu => by rw [Option.some.inj hu]⟩
        · rw [inbox_cons hwire w, harrived, beq_self_eq_true]
          rfl
        · rw [List.filter_singleton, pushed_answer hanswer]
          rfl
    | none =>
        rw [hanswer] at hwire
        rcases hwire with hwire | ⟨e, hwire, hpushed⟩
        · refine ⟨[], ?_, rfl, fun u hu => by cases hu⟩
          rw [inbox_same hwire, List.append_nil]
        · refine ⟨_, inbox_cons hwire w, filter_pushed fun v hv => ?_, fun u hu => by cases hu⟩
          split at hv
          · rw [List.mem_singleton.mp hv]
            exact hpushed
          · cases hv
  obtain ⟨new, hinbox, hfilter, hnew⟩ := hinbox
  obtain ⟨s', hs', husername, hregistering⟩ := hanswered.socket
  refine ⟨?_, ⟨s', hs', fun h0 => absurd h0 (Nat.succ_ne_zero _), fun _ => husername,
    fun hp => ?_⟩, fun h0 => absurd h0 (Nat.succ_ne_zero _), h.asked, ?_, fun i a ha => ?_, ?_,
    fun _ => ?_, ?_⟩
  · show RelayReady relay
    rw [hrelay]
    exact h.ready.receive hs hphase _ ok
  · rcases hnext with ⟨h0, -⟩ | ⟨-, hfollows⟩
    · show σ.taken + 1 = 1
      rw [h0]
    · rw [hregistering hp] at hfollows
      exact hfollows.elim
  · rw [List.length_append, h.count]
    rfl
  · rcases getElem?_concat_cases ha with ha | ⟨hi, rfl⟩
    · exact h.answered i a ha
    · rw [h.count] at hi
      exact ⟨request, σ.relay, hi ▸ hrequest, rfl⟩
  · show (relay.inbox w).filter _ = List.reduceOption (σ.answers ++ [_])
    rw [hinbox, List.filter_append, h.told, hfilter, List.reduceOption_append,
      List.reduceOption_singleton]
    rfl
  · show (relay.inbox w)[0]? = _
    rw [hinbox]
    rcases hnext with ⟨h0, rfl⟩ | ⟨hpos, -⟩
    · rw [(h.unregistered h0).2, hnew _ rfl]
      rfl
    · exact getElem?_stays (List.prefix_append _ _) (h.greeted hpos)
  · show σ.replies <+: relay.inbox w
    rw [hinbox]
    exact h.replies.trans (List.prefix_append _ _)

theorem RelaySide.take (hname : strip cfg.username ≠ "") (hpeer : cfg.peer ≠ "")
    (h : RelaySide cfg w σ) {ok : Bool} (hlasts : Lasts cfg w σ (.take ok)) :
    RelaySide cfg w (σ.take cfg w ok) := by
  have harrived : Arrived w (σ.take cfg w ok).relay := hlasts.2
  unfold Dialogue.take at harrived ⊢
  cases hrequest : σ.asked[σ.taken]? with
  | none => exact h
  | some request =>
      cases hs : σ.relay.sockets[w]? with
      | none => exact h
      | some s =>
          rw [hrequest, hs] at harrived
          dsimp only at harrived ⊢
          cases hphase : s.phase with
          | receiving =>
              rw [hphase] at harrived
              exact h.answer hname hpeer hrequest hs hphase rfl harrived
          | _ => exact h

theorem reduceOption_getElem? {α : Type} {l : List (Option α)} {n : Nat} {x : α}
    (hall : ∀ i ≤ n, ∀ a, l[i]? = some a → a.isSome) (hx : l.reduceOption[n]? = some x) :
    l[n]? = some (some x) := by
  induction l generalizing n with
  | nil => cases hx
  | cons a l ih =>
      obtain ⟨y, rfl⟩ := Option.isSome_iff_exists.mp (hall 0 (Nat.zero_le n) a rfl)
      rw [List.reduceOption_cons_of_some] at hx
      cases n with
      | zero => exact congrArg some hx
      | succ n =>
          exact ih (fun i hi a ha => hall (i + 1) (Nat.succ_le_succ hi) a ha) hx

/-- What the client is told at some place answers the request at that place, if
there is no session_init before. -/
theorem RelaySide.told_answers (h : RelaySide cfg w σ) {n : Nat} {v : Json}
    (hall : ∀ i ≤ n, ∀ r ∈ σ.asked[i]?, ∀ ρ : Relay, (ρ.answer cfg r).isSome)
    (hv : σ.told[n]? = some v) :
    ∃ (r : Request) (ρ : Relay), σ.asked[n]? = some r ∧ ρ.answer cfg r = some v := by
  have hanswer : σ.answers[n]? = some (some v) := by
    refine reduceOption_getElem? (fun i hi a ha => ?_) hv
    obtain ⟨r, ρ, hr, rfl⟩ := h.answered i a ha
    exact hall i hi r hr ρ
  obtain ⟨r, ρ, hr, hv⟩ := h.answered n _ hanswer
  exact ⟨r, ρ, hr, hv.symm⟩

/-- Reading and what comes of it leave the relay alone. -/
structure LeavesRelay (σ σ' : Dialogue) : Prop where
  relay : σ'.relay = σ.relay
  taken : σ'.taken = σ.taken
  answers : σ'.answers = σ.answers
  replies : σ'.replies = σ.replies
  asked : ∃ new, σ'.asked = σ.asked ++ new ∧ ∀ r ∈ new, CanFollow r

theorem LeavesRelay.nothing {σ' : Dialogue} (hrelay : σ'.relay = σ.relay)
    (htaken : σ'.taken = σ.taken) (hanswers : σ'.answers = σ.answers)
    (hreplies : σ'.replies = σ.replies) (hasked : σ'.asked = σ.asked) : LeavesRelay σ σ' :=
  ⟨hrelay, htaken, hanswers, hreplies, [], by rw [hasked, List.append_nil],
    fun _ hr => absurd hr List.not_mem_nil⟩

theorem serializeBundlePublic_dict {h : HandshakeCrypto Bytes Bytes Bytes} {b : ClientPreKeyBundle}
    {d : Json} (hd : serializeBundlePublic h b = .ok d) : ∃ bundle, d = .dict bundle := by
  obtain ⟨pub, -, hd⟩ := except_bind_ok hd
  cases hd
  exact ⟨_, rfl⟩

theorem askKey_heard : LeavesRelay σ σ.askKey :=
  ⟨rfl, rfl, rfl, rfl, [.getPeer], rfl, fun r hr => by rw [List.mem_singleton.mp hr]; trivial⟩

theorem fetched_heard (hpub : ∀ p, (cfg.h.publicKey p).length = 32) (reply : Json) :
    LeavesRelay σ (σ.fetched cfg reply) := by
  unfold Dialogue.fetched
  split
  · exact askKey_heard
  · next bundleDict _ =>
      split
      · dsimp only
        split
        · exact ⟨rfl, rfl, rfl, rfl, _, rfl, sentInits_follow hpub bundleDict⟩
        · refine ⟨rfl, rfl, rfl, rfl, sentInits cfg bundleDict ++ [.getPeer], ?_, fun r hr => ?_⟩
          · exact List.append_assoc _ _ _
          · rcases List.mem_append.mp hr with hr | hr
            · exact sentInits_follow hpub bundleDict r hr
            · rw [List.mem_singleton.mp hr]
              trivial
      · exact askKey_heard

theorem fetchedKey_heard (reply : Json) : LeavesRelay σ (σ.fetchedKey cfg reply) := by
  unfold Dialogue.fetchedKey
  split <;> exact .nothing rfl rfl rfl rfl rfl

theorem hear_heard (hpub : ∀ p, (cfg.h.publicKey p).length = 32) (reply : Json) :
    LeavesRelay σ (σ.hear cfg reply) := by
  unfold Dialogue.hear
  cases σ.stage with
  | registering =>
      dsimp only
      split
      · next bundleDict _ hd =>
          refine ⟨rfl, rfl, rfl, rfl, [.uploadBundle bundleDict], rfl, fun r hr => ?_⟩
          rw [List.mem_singleton.mp hr]
          exact serializeBundlePublic_dict hd
      · exact .nothing rfl rfl rfl rfl rfl
  | uploading =>
      dsimp only
      split
      · refine ⟨rfl, rfl, rfl, rfl, [.getBundle], rfl, fun r hr => ?_⟩
        rw [List.mem_singleton.mp hr]
        trivial
      · exact .nothing rfl rfl rfl rfl rfl
  | fetching => exact fetched_heard hpub reply
  | fetchingKey => exact fetchedKey_heard reply
  | chatting s => exact .nothing rfl rfl rfl rfl rfl
  | stopped => exact .nothing rfl rfl rfl rfl rfl

theorem RelaySide.next_reply (h : RelaySide cfg w σ) {reply : Json}
    (hreply : (σ.relay.inbox w)[σ.replies.length]? = some reply) :
    σ.replies ++ [reply] <+: σ.relay.inbox w := by
  obtain ⟨t, ht⟩ := h.replies
  rw [← ht, List.getElem?_append_right (le_refl _), Nat.sub_self] at hreply
  cases t with
  | nil => cases hreply
  | cons x t =>
      cases hreply
      exact ⟨t, by rw [← ht, List.append_assoc]; rfl⟩

theorem RelaySide.hear (hpub : ∀ p, (cfg.h.publicKey p).length = 32) (h : RelaySide cfg w σ)
    {reply : Json} (hreply : (σ.relay.inbox w)[σ.replies.length]? = some reply) :
    RelaySide cfg w ({ σ with replies := σ.replies ++ [reply] }.hear cfg reply) := by
  have hread : RelaySide cfg w { σ with replies := σ.replies ++ [reply] } :=
    ⟨h.ready, h.socket, h.unregistered, h.asked, h.count, h.answered, h.told, h.greeted,
      h.next_reply hreply⟩
  have hheard := hear_heard (σ := { σ with replies := σ.replies ++ [reply] }) hpub reply
  obtain ⟨rest, hasked, hfollows⟩ := hread.asked
  obtain ⟨new, hnew, hnewFollows⟩ := hheard.asked
  refine ⟨?_, ?_, ?_, ⟨rest ++ new, ?_, fun r hr => ?_⟩, ?_, fun i a ha => ?_, ?_, ?_, ?_⟩
  · rw [hheard.relay]
    exact hread.ready
  · rw [hheard.relay, hheard.taken]
    exact hread.socket
  · rw [hheard.relay, hheard.taken]
    exact hread.unregistered
  · rw [hnew, hasked]
    rfl
  · exact (List.mem_append.mp hr).elim (hfollows r) (hnewFollows r)
  · rw [hheard.answers, hheard.taken]
    exact hread.count
  · rw [hheard.answers] at ha
    obtain ⟨r, ρ, hr, ha⟩ := hread.answered i a ha
    exact ⟨r, ρ, by rw [hnew]; exact getElem?_stays (List.prefix_append _ _) hr, ha⟩
  · rw [hheard.relay, Dialogue.told, hheard.answers]
    exact hread.told
  · rw [hheard.relay, hheard.taken]
    exact hread.greeted
  · rw [hheard.relay, hheard.replies]
    exact hread.replies

end Serve

/-! ## The client's side -/

/-- Whatever else the client is told, this is what it comes to. -/
def ComesTo (cfg : StartConfig) (file : SessionFile) (replies : List Json)
    (outcome : Option SessionState) : Prop :=
  ∀ told, replies <+: told →
    startWith cfg (told[2]?.getD .null) (told[3]?.getD .null) file = outcome

/-- The start so far: what has been read, and what depends on it. -/
def Talk (cfg : StartConfig) (file : SessionFile) (σ : Dialogue) : Prop :=
  match σ.stage with
  | .registering => σ.replies = [] ∧ σ.file = file ∧ σ.asked = [.register]
  | .uploading => σ.replies = [okObj "registered"] ∧ σ.file = file ∧
      ∃ d, serializeBundlePublic cfg.h cfg.bundle = .ok d ∧ σ.asked = [.register, .uploadBundle d]
  | .fetching => σ.replies = [okObj "registered", okObj "bundle_uploaded"] ∧ σ.file = file ∧
      ∃ d, serializeBundlePublic cfg.h cfg.bundle = .ok d ∧
        σ.asked = [.register, .uploadBundle d, .getBundle]
  | .fetchingKey => ∃ d v rest, serializeBundlePublic cfg.h cfg.bundle = .ok d ∧
      σ.asked = .register :: .uploadBundle d :: .getBundle :: rest ∧
      σ.replies = [okObj "registered", okObj "bundle_uploaded", v] ∧
      (pushed v = false → ∀ keyReply, startWith cfg v keyReply file =
        (value? (legacyPath cfg.h cfg.username cfg.peer { cfg.io with keyReply := .ok keyReply }
          σ.file)).join)
  | .chatting s => 3 ≤ σ.replies.length ∧ (∀ v ∈ σ.replies, pushed v = false) ∧
      ComesTo cfg file σ.replies (some s)
  | .stopped => (∃ v ∈ σ.replies, pushed v = true) ∨
      (∀ v ∈ σ.replies, pushed v = false) ∧ ComesTo cfg file σ.replies none

/-- The client has not read the answer to its second question, or what it read
for it was pushed to it, and it stopped. -/
def TurnedBack (σ : Dialogue) : Prop :=
  (σ.replies.length < 2 ∧
    (σ.stage = .registering ∨ σ.stage = .uploading ∨ σ.stage = .stopped)) ∨
  (σ.stage = .stopped ∧ ∃ v, σ.replies[1]? = some v ∧ pushed v = true)

section Talks

variable {cfg : StartConfig} {file : SessionFile} {w : Nat} {σ : Dialogue} {v : Json}

theorem pushed_type (hv : pushed v = true) :
    ∃ d t, v = .dict d ∧ Json.get d "type" = .str t ∧ (t = "session_init" ∨ t = "msg") := by
  cases v with
  | dict d =>
      refine ⟨d, ?_⟩
      rw [pushed] at hv
      cases htype : Json.get d "type" with
      | str t =>
          rw [htype, Bool.or_eq_true_iff] at hv
          exact ⟨t, rfl, rfl, hv.imp eq_of_beq eq_of_beq⟩
      | _ =>
          rw [htype] at hv
          cases hv
  | _ => cases hv

theorem checkDone_pushed (hv : pushed v = true) {failed kind : String}
    (hkind : kind = "registered" ∨ kind = "bundle_uploaded") :
    checkDone failed kind v = .error (.runtimeError failed) := by
  obtain ⟨d, t, rfl, htype, ht⟩ := pushed_type hv
  simp only [checkDone, htype, Json.eqStr]
  rcases ht with rfl | rfl <;> rcases hkind with rfl | rfl <;> rfl

theorem checkReply_pushed (hv : pushed v = true) {request kind : String}
    (hkind : kind = "peer_bundle" ∨ kind = "peer_key") :
    checkReply request kind (.ok v) = .error (.runtimeError s!"{request} failed: %s") := by
  obtain ⟨d, t, rfl, htype, ht⟩ := pushed_type hv
  simp only [checkReply, except_ok_bind, htype, Json.eqStr]
  rcases ht with rfl | rfl <;> rcases hkind with rfl | rfl <;> rfl

theorem getPeerBundle_pushed (hv : pushed v = true) : ∃ e, getPeerBundle (.ok v) = .error e := by
  rw [getPeerBundle, checkReply_pushed hv (Or.inl rfl)]
  exact ⟨_, rfl⟩

theorem getPeerKey_pushed (hv : pushed v = true) : ∃ e, getPeerKey (.ok v) = .error e := by
  rw [getPeerKey, checkReply_pushed hv (Or.inr rfl)]
  exact ⟨_, rfl⟩

/-- The answer to `get_bundle`, read as the one to `get_peer`. -/
theorem getPeerKey_bundleOf (ρ : Relay) (peer : String) :
    ∃ e, getPeerKey (.ok (ρ.bundleOf peer)) = .error e := by
  unfold Relay.bundleOf
  split <;> exact ⟨_, rfl⟩

theorem fetchedKey_none {e : Exn} (hkey : getPeerKey (.ok v) = .error e) :
    σ.fetchedKey cfg v = { σ with stage := .stopped } := by
  simp only [Dialogue.fetchedKey, legacyPath, hkey, pure_apply]

/-- What was read and not pushed, the client was told. -/
theorem RelaySide.filter_told (h : RelaySide cfg w σ) {l : List Json} (hl : l <+: σ.relay.inbox w) :
    l.filter (fun v => !pushed v) <+: σ.told := by
  rw [← h.told]
  exact hl.filter _

/-- The client's questions up to the bundle are all answered. -/
def questions (d : Json) : List Request := [.register, .uploadBundle d, .getBundle]

theorem RelaySide.answers_question (h : RelaySide cfg w σ) (d : Json) (asked rest : List Request)
    (hasked : σ.asked = asked ++ rest) (hquestions : asked <+: questions d) {n : Nat}
    (hn : n < asked.length) (hv : σ.told[n]? = some v) :
    ∃ (r : Request) (ρ : Relay), (questions d)[n]? = some r ∧ ρ.answer cfg r = some v := by
  have hall : ∀ i < asked.length, σ.asked[i]? = (questions d)[i]? := by
    intro i hi
    rw [hasked, List.getElem?_append_left hi]
    have hget := List.getElem?_eq_getElem hi
    rw [hget, getElem?_stays hquestions hget]
  have hknown : ∀ r ∈ questions d, ∀ ρ : Relay, (ρ.answer cfg r).isSome := by
    intro r hr ρ
    simp only [questions, List.mem_cons, List.not_mem_nil, or_false] at hr
    rcases hr with rfl | rfl | rfl <;> rfl
  obtain ⟨r, ρ, hr, hanswer⟩ := h.told_answers (fun i hi r hr ρ => by
    rw [hall i (by omega)] at hr
    exact hknown r (List.mem_of_getElem? hr) ρ) hv
  rw [hall n hn] at hr
  exact ⟨r, ρ, hr, hanswer⟩

/-- Where no session is opened, nothing else can end the start well. -/
theorem startWith_unserialized {e : Exn} (hd : serializeBundlePublic cfg.h cfg.bundle = .error e)
    (bundleReply keyReply : Json) : startWith cfg bundleReply keyReply file = none := by
  rw [startWith, hd]

theorem startWith_eq {d : Json} (hd : serializeBundlePublic cfg.h cfg.bundle = .ok d)
    (bundleReply keyReply : Json) : startWith cfg bundleReply keyReply file =
      (value? (establishSession cfg.h cfg.bundle cfg.username cfg.peer
        { cfg.io with bundleReply := .ok bundleReply, keyReply := .ok keyReply } file)).join := by
  rw [startWith, hd]

section Hear

variable (h : RelaySide cfg w σ) (htalk : Talk cfg file σ)
  (hreply : (σ.relay.inbox w)[σ.replies.length]? = some v)

include h htalk hreply in
theorem hear_registering (hstage : σ.stage = .registering) :
    Talk cfg file ({ σ with replies := σ.replies ++ [v] }.hear cfg v) := by
  rw [Talk, hstage] at htalk
  obtain ⟨hreplies, hfile, hasked⟩ := htalk
  rw [hreplies] at hreply
  -- The first message is the answer, as nobody else has known the socket.
  have hpos : 0 < σ.taken := by
    refine Nat.pos_of_ne_zero fun h0 => ?_
    rw [(h.unregistered h0).2] at hreply
    cases hreply
  obtain rfl : okObj "registered" = v := Option.some.inj ((h.greeted hpos).symm.trans hreply)
  have hdone : checkDone "Registration failed: %s" "registered" (okObj "registered") = .ok () := rfl
  rw [Dialogue.hear, hstage, hdone]
  cases hd : serializeBundlePublic cfg.h cfg.bundle with
  | ok d =>
      refine ⟨?_, hfile, d, hd, ?_⟩
      · rw [hreplies]
        rfl
      · rw [hasked]
        rfl
  | error e =>
      refine Or.inr ⟨fun u hu => ?_, fun told _ => startWith_unserialized hd _ _⟩
      rw [hreplies] at hu
      rw [List.mem_singleton.mp hu]
      rfl

include h htalk hreply in
theorem hear_uploading (hstage : σ.stage = .uploading) :
    Talk cfg file ({ σ with replies := σ.replies ++ [v] }.hear cfg v) := by
  rw [Talk, hstage] at htalk
  obtain ⟨hreplies, hfile, d, hd, hasked⟩ := htalk
  have hnext := h.next_reply hreply
  rw [hreplies] at hnext
  rw [Dialogue.hear, hstage]
  cases hv : pushed v with
  | true =>
      rw [checkDone_pushed hv (Or.inr rfl)]
      exact Or.inl ⟨v, List.mem_append_right _ List.mem_cons_self, hv⟩
  | false =>
      -- What was not pushed is the second answer.
      have htold : σ.told[1]? = some v := by
        refine getElem?_stays (h.filter_told hnext) ?_
        rw [List.filter_append, List.filter_singleton (a := v), hv]
        rfl
      obtain ⟨r, ρ, hr, hanswer⟩ := h.answers_question d [.register, .uploadBundle d] []
        hasked ⟨[.getBundle], rfl⟩ Nat.one_lt_two htold
      cases hr
      obtain rfl : okObj "bundle_uploaded" = v := Option.some.inj hanswer
      have hdone : checkDone "Bundle upload failed: %s" "bundle_uploaded"
        (okObj "bundle_uploaded") = .ok () := rfl
      rw [hdone]
      refine ⟨?_, hfile, d, hd, ?_⟩
      · rw [hreplies]
        rfl
      · rw [hasked]
        rfl

theorem quiet_three (hv : pushed v = false) :
    ∀ u ∈ [okObj "registered", okObj "bundle_uploaded", v], pushed u = false := by
  intro u hu
  simp only [List.mem_cons, List.not_mem_nil, or_false] at hu
  rcases hu with rfl | rfl | rfl
  · rfl
  · rfl
  · exact hv

/-- The client turns to the peer's key. -/
theorem talk_askKey {σ' : Dialogue} {d : Json} (inits : List Request)
    (hd : serializeBundlePublic cfg.h cfg.bundle = .ok d)
    (hasked : σ'.asked = [.register, .uploadBundle d, .getBundle] ++ inits)
    (hreplies : σ'.replies = [okObj "registered", okObj "bundle_uploaded", v])
    (hlegacy : pushed v = false → ∀ keyReply, startWith cfg v keyReply file =
      (value? (legacyPath cfg.h cfg.username cfg.peer { cfg.io with keyReply := .ok keyReply }
        σ'.file)).join) : Talk cfg file σ'.askKey :=
  ⟨d, v, inits ++ [.getPeer], hd, by rw [Dialogue.askKey, hasked, List.append_assoc]; rfl,
    hreplies, hlegacy⟩

include htalk in
theorem hear_fetching (hstage : σ.stage = .fetching) :
    Talk cfg file ({ σ with replies := σ.replies ++ [v] }.hear cfg v) := by
  rw [Talk, hstage] at htalk
  obtain ⟨hreplies, hfile, d, hd, hasked⟩ := htalk
  have hread : σ.replies ++ [v] = [okObj "registered", okObj "bundle_uploaded", v] := by
    rw [hreplies]
    rfl
  rw [Dialogue.hear, hstage]
  dsimp only
  unfold Dialogue.fetched
  cases hbundle : getPeerBundle (.ok v) with
  | error e =>
      refine talk_askKey [] hd hasked hread fun _ keyReply => ?_
      rw [startWith_eq hd, establishSession]
      simp only [hbundle]
      rw [← hfile]
      rfl
  | ok bundleDict =>
      have hquiet : pushed v = false := by
        cases hv : pushed v with
        | false => rfl
        | true =>
            obtain ⟨e, he⟩ := getPeerBundle_pushed hv
            rw [he] at hbundle
            cases hbundle
      dsimp only
      have hsame : ∀ bundleReply keyReply, x3dhSession cfg.h cfg.bundle
          { cfg.io with bundleReply := bundleReply, keyReply := keyReply }
            = x3dhSession cfg.h cfg.bundle cfg.io := fun _ _ => rfl
      by_cases htruthy : bundleDict.truthy = true
      · rw [if_pos htruthy]
        cases hx : x3dhSession cfg.h cfg.bundle cfg.io bundleDict σ.file with
        | ok s file' =>
            refine ⟨?_, ?_, fun told htold => ?_⟩
            · rw [hread]
              exact le_refl 3
            · rw [hread]
              exact quiet_three hquiet
            · rw [hread] at htold
              have htwo : told[2]? = some v := getElem?_stays htold rfl
              rw [htwo, Option.getD_some, startWith_eq hd, establishSession]
              simp only [hbundle, if_pos htruthy, hsame, ← hfile, hx]
              rfl
        | error e file' =>
            refine talk_askKey (sentInits cfg bundleDict) hd ?_ hread fun _ keyReply => ?_
            · rw [hasked]
            · rw [startWith_eq hd, establishSession]
              simp only [hbundle, if_pos htruthy, hsame, ← hfile, hx]
              rfl
      · rw [if_neg htruthy]
        refine talk_askKey [] hd hasked hread fun _ keyReply => ?_
        rw [startWith_eq hd, establishSession]
        simp only [hbundle, if_neg htruthy]
        rw [← hfile]
        rfl

include h htalk hreply in
theorem hear_fetchingKey (hstage : σ.stage = .fetchingKey) :
    Talk cfg file ({ σ with replies := σ.replies ++ [v] }.hear cfg v) := by
  rw [Talk, hstage] at htalk
  obtain ⟨d, u, rest, hd, hasked, hreplies, hlegacy⟩ := htalk
  have hnext := h.next_reply hreply
  rw [Dialogue.hear, hstage]
  dsimp only
  cases hv : pushed v with
  | true =>
      obtain ⟨e, he⟩ := getPeerKey_pushed hv
      rw [fetchedKey_none he]
      exact Or.inl ⟨v, List.mem_append_right _ List.mem_cons_self, hv⟩
  | false =>
      cases hu : pushed u with
      | true =>
          -- The answer to `get_bundle` was still to come, and is read now.
          have htold : σ.told[2]? = some v := by
            rw [hreplies] at hnext
            refine getElem?_stays (h.filter_told hnext) ?_
            rw [List.cons_append, List.cons_append, List.cons_append, List.nil_append]
            simp only [List.filter_cons, hu, hv]
            rfl
          obtain ⟨r, ρ, hr, hanswer⟩ := h.answers_question d (questions d) rest
            hasked (List.prefix_refl _) (Nat.lt_succ_self 2) htold
          cases hr
          obtain rfl : ρ.bundleOf cfg.peer = v := Option.some.inj hanswer
          obtain ⟨e, he⟩ := getPeerKey_bundleOf ρ cfg.peer
          rw [fetchedKey_none he]
          refine Or.inl ⟨u, List.mem_append_left _ ?_, hu⟩
          rw [hreplies]
          exact List.mem_cons_of_mem _ (List.mem_cons_of_mem _ List.mem_cons_self)
      | false =>
          have hread : σ.replies ++ [v] = [okObj "registered", okObj "bundle_uploaded", u, v] := by
            rw [hreplies]
            rfl
          have hquiet : ∀ x ∈ σ.replies ++ [v], pushed x = false := by
            intro x hx
            rcases List.mem_append.mp hx with hx | hx
            · rw [hreplies] at hx
              exact quiet_three hu x hx
            · rw [List.mem_singleton.mp hx]
              exact hv
          have hends : ComesTo cfg file (σ.replies ++ [v]) (value? (legacyPath cfg.h cfg.username
              cfg.peer { cfg.io with keyReply := .ok v } σ.file)).join := by
            intro told htold
            rw [hread] at htold
            have htwo : told[2]? = some u := getElem?_stays htold rfl
            have hthree : told[3]? = some v := getElem?_stays htold rfl
            rw [htwo, hthree]
            exact hlegacy hu v
          unfold Dialogue.fetchedKey
          cases hcall : legacyPath cfg.h cfg.username cfg.peer { cfg.io with keyReply := .ok v }
              σ.file with
          | ok s file' =>
              rw [hcall] at hends
              cases s with
              | none => exact Or.inr ⟨hquiet, hends⟩
              | some s =>
                  refine ⟨?_, hquiet, hends⟩
                  rw [hread]
                  exact Nat.le_succ 3
          | error e file' =>
              rw [hcall] at hends
              exact Or.inr ⟨hquiet, hends⟩

end Hear

end Talks

/-! ## Whole starts -/

section Runs

variable {cfg : StartConfig} {file : SessionFile} {w : Nat} {σ : Dialogue}
  (hpub : ∀ p, (cfg.h.publicKey p).length = 32) (hname : strip cfg.username ≠ "")
  (hpeer : cfg.peer ≠ "")

/-- Both sides of a start. -/
structure Starting (cfg : StartConfig) (w : Nat) (file : SessionFile) (σ : Dialogue) : Prop where
  served : RelaySide cfg w σ
  talk : Talk cfg file σ

theorem waits_cases (hwaits : σ.waits = true) : σ.stage = .registering ∨ σ.stage = .uploading ∨
    σ.stage = .fetching ∨ σ.stage = .fetchingKey := by
  unfold Dialogue.waits at hwaits
  cases hstage : σ.stage with
  | registering => exact Or.inl rfl
  | uploading => exact Or.inr (Or.inl rfl)
  | fetching => exact Or.inr (Or.inr (Or.inl rfl))
  | fetchingKey => exact Or.inr (Or.inr (Or.inr rfl))
  | _ =>
      rw [hstage] at hwaits
      cases hwaits

include hpub in
theorem Starting.read (h : Starting cfg w file σ) : Starting cfg w file (σ.read cfg w) := by
  unfold Dialogue.read
  cases hreply : (σ.relay.inbox w)[σ.replies.length]? with
  | none => cases σ.waits <;> exact h
  | some v =>
      cases hwaits : σ.waits with
      | false => exact h
      | true =>
          refine ⟨h.served.hear hpub hreply, ?_⟩
          rcases waits_cases hwaits with hstage | hstage | hstage | hstage
          · exact hear_registering h.served h.talk hreply hstage
          · exact hear_uploading h.served h.talk hreply hstage
          · exact hear_fetching h.talk hstage
          · exact hear_fetchingKey h.served h.talk hreply hstage

include hpub hname hpeer in
theorem Starting.step (h : Starting cfg w file σ) {act : DialogueAct}
    (hlasts : Lasts cfg w σ act) : Starting cfg w file (σ.step cfg w act) := by
  cases act with
  | relay act => exact ⟨h.served.elapse hlasts.1, h.talk⟩
  | read => exact h.read hpub
  | take ok =>
      refine ⟨h.served.take hname hpeer hlasts, ?_⟩
      have htalk := h.talk
      show Talk cfg file (σ.take cfg w ok)
      unfold Dialogue.take
      split
      · split <;> exact htalk
      · exact htalk

theorem starting_start (cfg : StartConfig) (before : List RelayAct) (file : SessionFile) :
    Starting cfg (clientSocket before) file (Dialogue.start before file) := by
  have hready := relayReady_run before
  have hsocket : ((runFrom Relay.step {} before).sockets ++ [({} : Socket)])[clientSocket before]?
      = some {} := by
    rw [clientSocket, List.getElem?_append_right (le_refl _), Nat.sub_self]
    rfl
  have hempty : (Dialogue.start before file).relay.inbox (clientSocket before) = [] := by
    refine List.map_eq_nil_iff.mpr (List.filter_eq_nil_iff.mpr fun e he => ?_)
    have hlt := hready.wired e (List.mem_reverse.mp he)
    have hne : (e.1 == clientSocket before) = false := beq_false_of_ne (Nat.ne_of_lt hlt)
    rw [hne, Bool.false_and]
    exact Bool.false_ne_true
  refine ⟨⟨hready.connect, ⟨{}, hsocket, fun _ => rfl, fun hpos => absurd hpos (Nat.lt_irrefl 0),
    fun hphase => ?_⟩, fun _ => ⟨fun name hn => ?_, hempty⟩, ⟨[], rfl, fun r hr => ?_⟩, rfl,
    fun i a ha => ?_, ?_, fun hpos => absurd hpos (Nat.lt_irrefl 0), ?_⟩, rfl, rfl, rfl⟩
  · cases hphase
  · exact Nat.lt_irrefl _ (hready.known name _ hn)
  · cases hr
  · cases ha
  · rw [hempty]
    rfl
  · exact List.nil_prefix

include hpub hname hpeer in
theorem starting_run (before : List RelayAct) (file : SessionFile) {acts : List DialogueAct}
    (hrun : Along (Dialogue.step cfg (clientSocket before)) (Lasts cfg (clientSocket before))
      (Dialogue.start before file) acts) :
    Starting cfg (clientSocket before) file
      (runFrom (Dialogue.step cfg (clientSocket before)) (Dialogue.start before file) acts) :=
  Along.invariant (fun _ _ h hlasts => h.step hpub hname hpeer hlasts)
    (starting_start cfg before file) hrun

/-- What a start comes to. -/
theorem Starting.outcome (h : Starting cfg w file σ) (hover : σ.waits = false) :
    σ.outcome = if σ.replies.any pushed then none
      else startWith cfg (σ.told[2]?.getD .null) (σ.told[3]?.getD .null) file := by
  have hquiet : (∀ v ∈ σ.replies, pushed v = false) →
      σ.replies.any pushed = false ∧ σ.replies <+: σ.told := by
    intro hv
    refine ⟨List.any_eq_false.mpr fun v hmem => ?_, ?_⟩
    · rw [hv v hmem]
      exact Bool.false_ne_true
    · have htold := h.served.filter_told h.served.replies
      rwa [List.filter_eq_self.mpr fun v hmem => by rw [hv v hmem]; rfl] at htold
  have htalk := h.talk
  unfold Talk at htalk
  unfold Dialogue.outcome
  unfold Dialogue.waits at hover
  cases hstage : σ.stage with
  | chatting s =>
      rw [hstage] at htalk
      obtain ⟨-, hv, hends⟩ := htalk
      obtain ⟨hany, htold⟩ := hquiet hv
      rw [hany]
      exact (hends _ htold).symm
  | stopped =>
      rw [hstage] at htalk
      rcases htalk with ⟨v, hmem, hv⟩ | ⟨hv, hends⟩
      · rw [List.any_eq_true.mpr ⟨v, hmem, hv⟩]
        rfl
      · obtain ⟨hany, htold⟩ := hquiet hv
        rw [hany]
        exact (hends _ htold).symm
  | _ =>
      rw [hstage] at hover
      cases hover

theorem relay_inbox (σ : Relay) (act : RelayAct) (w : Nat) :
    σ.inbox w <+: (σ.step act).inbox w := by
  have hgrows : ∀ {σ' : Relay}, (σ'.wire = σ.wire ∨ ∃ e, σ'.wire = e :: σ.wire) →
      σ.inbox w <+: σ'.inbox w := by
    intro σ' h
    rcases h with hwire | ⟨e, hwire⟩
    · exact ⟨[], by rw [List.append_nil, inbox_same hwire]⟩
    · rw [inbox_cons hwire]
      exact List.prefix_append _ _
  cases act with
  | connect => exact hgrows (Or.inl rfl)
  | close v =>
      rw [Relay.step]
      cases σ.sockets[v]? with
      | none => exact List.prefix_refl _
      | some s => exact hgrows (Or.inl rfl)
  | receive v input ok =>
      rw [Relay.step]
      cases hs : σ.sockets[v]? with
      | none => exact List.prefix_refl _
      | some s =>
          dsimp only
          cases hphase : s.phase with
          | receiving =>
              refine hgrows ((receive_handled hs hphase input ok).wire.imp_right fun h => ?_)
              obtain ⟨e, hwire, -⟩ := h
              exact ⟨e, hwire⟩
          | _ => exact List.prefix_refl _
  | resume v ok =>
      rw [Relay.step]
      cases hs : σ.sockets[v]? with
      | none => exact List.prefix_refl _
      | some s =>
          refine hgrows ((resume_resumed hs ok).wire.imp_right fun h => ?_)
          obtain ⟨i, -, arrived, hwire⟩ := h
          exact ⟨_, hwire⟩

theorem hear_relay (v : Json) : (σ.hear cfg v).relay = σ.relay := by
  unfold Dialogue.hear Dialogue.fetched Dialogue.fetchedKey Dialogue.askKey
  split
  · split <;> rfl
  · split <;> rfl
  · split
    · rfl
    · split
      · dsimp only
        split <;> rfl
      · rfl
  · split <;> rfl
  · rfl
  · rfl

theorem step_inbox (act : DialogueAct) :
    σ.relay.inbox w <+: (σ.step cfg w act).relay.inbox w := by
  cases act with
  | relay act => exact relay_inbox σ.relay act w
  | read =>
      show _ <+: (σ.read cfg w).relay.inbox w
      unfold Dialogue.read
      split
      · exact ⟨[], by rw [List.append_nil, hear_relay]⟩
      · exact List.prefix_refl _
  | take ok =>
      show _ <+: (σ.take cfg w ok).relay.inbox w
      unfold Dialogue.take
      split
      · next request s _ hs =>
          split
          · next hphase =>
              have hstep := relay_inbox σ.relay
                (.receive w (.json (.dict (request.toDict cfg))) ok) w
              rw [Relay.step, hs] at hstep
              dsimp only at hstep
              rwa [hphase] at hstep
          · exact List.prefix_refl _
      · exact List.prefix_refl _

theorem run_inbox (acts : List DialogueAct) :
    σ.relay.inbox w <+: (runFrom (Dialogue.step cfg w) σ acts).relay.inbox w :=
  runFrom_prefix (fun σ : Dialogue => σ.relay.inbox w) (fun _ act => step_inbox act) σ acts

/-- A client to which something was pushed after its first answer does not get
past its second question. -/
theorem Starting.pushed_second (h : Starting cfg w file σ) {p : Json}
    (hp : (σ.relay.inbox w)[1]? = some p) (hpushed : pushed p = true) : TurnedBack σ := by
  have hno : ∀ v, σ.replies[1]? = some v → pushed v = true := by
    intro v hv
    have hsame := (getElem?_stays h.served.replies hv).symm.trans hp
    rw [Option.some.inj hsame]
    exact hpushed
  have htalk := h.talk
  unfold Talk at htalk
  cases hstage : σ.stage with
  | registering =>
      rw [hstage] at htalk
      exact Or.inl ⟨by rw [htalk.1]; decide, Or.inl hstage⟩
  | uploading =>
      rw [hstage] at htalk
      exact Or.inl ⟨by rw [htalk.1]; decide, Or.inr (Or.inl hstage)⟩
  | stopped =>
      by_cases hread : σ.replies.length < 2
      · exact Or.inl ⟨hread, Or.inr (Or.inr hstage)⟩
      · have hget : σ.replies[1]? = some (σ.replies[1]) := List.getElem?_eq_getElem (by omega)
        exact Or.inr ⟨hstage, _, hget, hno _ hget⟩
  | fetching =>
      rw [hstage] at htalk
      have hbad := hno (okObj "bundle_uploaded") (by rw [htalk.1]; rfl)
      cases hbad
  | fetchingKey =>
      rw [hstage] at htalk
      obtain ⟨d, v, rest, -, -, hreplies, -⟩ := htalk
      have hbad := hno (okObj "bundle_uploaded") (by rw [hreplies]; rfl)
      cases hbad
  | chatting s =>
      rw [hstage] at htalk
      obtain ⟨hlen, hquiet, -⟩ := htalk
      have hget : σ.replies[1]? = some (σ.replies[1]) :=
        List.getElem?_eq_getElem (by omega)
      have hbad := hno _ hget
      rw [hquiet _ (List.mem_of_getElem? hget)] at hbad
      cases hbad

/-- The handler comes back from the answer to `register`, and something is queued
for the name. -/
theorem Starting.resumed (h : Starting cfg w file σ) {ok : Bool} {s : Socket}
    (hlasts : Lasts cfg w σ (.relay (.resume w ok)))
    (hs : σ.relay.sockets[w]? = some s) (hphase : s.phase = .registering)
    (hqueue : (Odict.get? σ.relay.pendingInits (.str (strip cfg.username))).getD [] ≠ []) :
    ∃ p, ((σ.step cfg w (.relay (.resume w ok))).relay.inbox w)[1]? = some p ∧
      pushed p = true := by
  obtain ⟨t, ht, -, husername, hfirst⟩ := h.served.socket
  obtain rfl : s = t := Option.some.inj (hs.symm.trans ht)
  have htaken : σ.taken = 1 := hfirst hphase
  have hname := husername (by omega)
  obtain ⟨i, rest, hinits⟩ := List.exists_cons_of_ne_nil hqueue
  have hwire : (σ.relay.step (.resume w ok)).wire
      = (w, i.2, ok && σ.relay.isOpen w) :: σ.relay.wire := by
    rw [Relay.step, hs]
    dsimp only
    rw [Relay.resume, hphase, hname]
    dsimp only
    rw [hinits, Relay.deliver, hname]
    rfl
  have harrived : (ok && σ.relay.isOpen w) = true :=
    hlasts.2 (w, i.2, ok && σ.relay.isOpen w) (by
      show _ ∈ (σ.relay.step (.resume w ok)).wire
      rw [hwire]
      exact List.mem_cons_self) rfl
  have hinbox : (σ.relay.step (.resume w ok)).inbox w = σ.relay.inbox w ++ [i.2] := by
    rw [inbox_cons hwire, harrived, beq_self_eq_true]
    rfl
  have hi : pushed i.2 = true := by
    refine h.served.ready.pending (.str (strip cfg.username)) i ?_
    rw [hinits]
    exact List.mem_cons_self
  -- So far there has been one answer, and what came after it was pushed as well.
  have hgreeted := h.served.greeted (by omega)
  have htold : σ.told.length ≤ 1 := by
    have hle := List.reduceOption_length_le σ.answers
    rw [h.served.count, htaken] at hle
    exact hle
  show ∃ p, ((σ.relay.step (.resume w ok)).inbox w)[1]? = some p ∧ pushed p = true
  rw [hinbox]
  cases hl : σ.relay.inbox w with
  | nil =>
      rw [hl] at hgreeted
      cases hgreeted
  | cons x l =>
      rw [hl] at hgreeted
      cases hgreeted
      rw [← h.served.told, hl] at htold
      cases l with
      | nil => exact ⟨i.2, rfl, hi⟩
      | cons p l =>
          refine ⟨p, rfl, ?_⟩
          cases hp : pushed p with
          | true => rfl
          | false =>
              have hreg : pushed (okObj "registered") = false := rfl
              simp only [List.filter_cons, hreg, hp, Bool.not_false, if_true,
                List.length_cons] at htold
              omega

end Runs

instance Elsewhere.decidable (w : Nat) : (act : DialogueAct) → Decidable (Elsewhere w act)
  | .relay (.receive _ _ _) => inferInstanceAs (Decidable (_ ≠ _))
  | .relay (.close _) => inferInstanceAs (Decidable (_ ≠ _))
  | .relay .connect => isTrue trivial
  | .relay (.resume _ _) => isTrue trivial
  | .take _ => isTrue trivial
  | .read => isTrue trivial

instance Arrived.decidable (w : Nat) (σ : Relay) : Decidable (Arrived w σ) :=
  inferInstanceAs (Decidable (∀ e ∈ σ.wire, e.1 = w → e.2.2 = true))

instance Lasts.decidable (cfg : StartConfig) (w : Nat) (σ : Dialogue) (act : DialogueAct) :
    Decidable (Lasts cfg w σ act) := inferInstanceAs (Decidable (_ ∧ _))

/-- Bob has registered, and has uploaded nothing. -/
def bobBefore : List RelayAct := [.connect,
  .receive 0 (.json (.dict [("type", .str "register"), ("username", .str "bob"),
    ("ephemeral_pub", .str (b64Encode (mix [7])))])) true, .resume 0 true]

def aliceStart : StartConfig where
  h := sampleHandshake
  bundle := sampleBundle 1
  username := "alice"
  peer := "bob"
  io := sampleStart .null .null

/-- A client for which a session_init is queued when its registration has been
answered does not get past its second question, whatever else happens: what it
reads for the answer was pushed to it, the session_init or a message that came
in between, and it stops there. -/
theorem queued_init_stops {cfg : StartConfig} (hpub : ∀ p, (cfg.h.publicKey p).length = 32)
    (hname : strip cfg.username ≠ "") (hpeer : cfg.peer ≠ "") (before : List RelayAct)
    (file : SessionFile) {acts acts' : List DialogueAct} {ok : Bool} {σ : Dialogue} {s : Socket}
    (hrun : Along (Dialogue.step cfg (clientSocket before)) (Lasts cfg (clientSocket before))
      (Dialogue.start before file) (acts ++ .relay (.resume (clientSocket before) ok) :: acts'))
    (hσ : σ = runFrom (Dialogue.step cfg (clientSocket before)) (Dialogue.start before file) acts)
    (hs : σ.relay.sockets[clientSocket before]? = some s) (hphase : s.phase = .registering)
    (hqueue : (Odict.get? σ.relay.pendingInits (.str (strip cfg.username))).getD [] ≠ []) :
    ∀ σ', σ' = runFrom (Dialogue.step cfg (clientSocket before)) (Dialogue.start before file)
        (acts ++ .relay (.resume (clientSocket before) ok) :: acts') → TurnedBack σ' := by
  intro σ' hσ'
  have hend := starting_run hpub hname hpeer before file hrun
  obtain ⟨hinit, hlasts, -⟩ := Along.split hrun
  rw [← hσ'] at hend
  rw [runFrom_append, ← hσ] at hσ'
  rw [← hσ] at hlasts
  have hmid := starting_run hpub hname hpeer before file hinit
  rw [← hσ] at hmid
  obtain ⟨p, hp, hpushed⟩ := hmid.resumed hlasts hs hphase hqueue
  refine hend.pushed_second (getElem?_stays ?_ hp) hpushed
  rw [hσ']
  exact run_inbox acts'

/-- Bob registers, and sends Alice a session_init. -/
def bobCalling : List RelayAct := bobBefore ++ [.receive 0 (.json (.dict [
  ("type", .str "session_init"), ("to", .str "alice"), ("identity_dh_pub", .str "AAAA"),
  ("eph_pub", .str "AAAA")])) true]

def aliceStopped : Dialogue :=
  runFrom (Dialogue.step aliceStart (clientSocket bobCalling)) (Dialogue.start bobCalling .missing)
    ([.take true] ++ .relay (.resume (clientSocket bobCalling) true) ::
      [.read, .relay (.resume 1 true), .take true, .read])

theorem queued_init_stops_alice : aliceStopped.replies.length = 2 ∧ TurnedBack aliceStopped := by
  have hs : ((runFrom (Dialogue.step aliceStart (clientSocket bobCalling))
      (Dialogue.start bobCalling .missing) [.take true]).relay.sockets[clientSocket bobCalling]?)
      = some { username := .str "alice", phase := .registering } := rfl
  refine ⟨by decide +kernel, queued_init_stops mix_length (by decide +kernel) (by decide)
    bobCalling .missing (by decide +kernel) rfl hs rfl ?_ aliceStopped rfl⟩
  exact List.ne_nil_of_length_pos (by decide +kernel)

end GhostChat.Proofs
