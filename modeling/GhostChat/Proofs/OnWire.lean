import GhostChat.Proofs.RelaySteps

/-!
# What the records stand for

The relay's records say who was named as a sender and what was handed over. What
a client gets is a message on the wire, and what it will get is in a queue or in
the hands of a handler. The records are about these and about nothing else.

The session_inits of a run are numbered in the order they are accepted, and a
message keeps its number from the request to the wire. An attempt to hand one
over is recorded as it is put on the wire, so the attempts and the session_inits
on the wire are two lists side by side. And whatever is passed on has a `from`
that was recorded.
-/

namespace GhostChat.Proofs

open GhostChat.Lib GhostChat.Ref

/-- The session_init that is accepted. -/
def initOf : RelayEvent → Option Json
  | .init _ _ _ msg _ => some msg
  | .quiet | .rejected _ _ | .registered _ _ | .message _ | .hand _ _ _ _ | .finished _
  | .raised _ => none

def acceptStep (x : Relay × List Json) (act : RelayAct) : Relay × List Json :=
  (x.1.step act, x.2 ++ (initOf (event x.1 act)).toList)

/-- The session_inits a run accepts, by number. -/
def acceptedInits (acts : List RelayAct) : List Json := (runFrom acceptStep ({}, []) acts).2

/-- The session_inits on the wire, newest first. -/
def initsOnWire (σ : Relay) : List (Nat × Json × Bool) := σ.wire.filter (isInit ·.2.1)

/-- The records and the messages, with those that were accepted. -/
structure OnWire (σ : Relay) (inits : List Json) : Prop where
  count : inits.length = σ.accepted.length
  queued : ∀ key, ∀ i ∈ (Odict.get? σ.pendingInits key).getD [], inits[i.1]? = some i.2
  held : ∀ (w : Nat) (s : Socket), σ.sockets[w]? = some s → ∀ i ∈ inHand s,
    inits[i.1]? = some i.2
  sent : List.Forall₂ (fun e r => inits[r.number]? = some e.2.1 ∧ e.2.2 = r.arrived)
    (initsOnWire σ) σ.handed
  named : ∀ msg ∈ inits, isInit msg = true ∧ ∃ r ∈ σ.relayed, senderOf msg = some r.sender
  wire : ∀ e ∈ σ.wire, ∀ sender, senderOf e.2.1 = some sender → ∃ r ∈ σ.relayed, r.sender = sender

section Step

variable {σ σ' : Relay} {inits : List Json}

theorem isInit_initMessage (sender : Json) (d : List (String × Json)) :
    isInit (initMessage sender d) = true := rfl

theorem senderOf_initMessage (sender : Json) (d : List (String × Json)) :
    senderOf (initMessage sender d) = some sender := rfl

/-- What has no sender is no session_init. -/
theorem isInit_of_senderOf {v : Json} (h : senderOf v = none) : isInit v = false := by
  cases v with
  | dict d =>
      rw [senderOf] at h
      rw [isInit]
      cases htype : Json.get d "type" with
      | str typ =>
          rw [htype] at h
          dsimp only at h ⊢
          by_cases htyp : typ = "session_init"
          · rw [if_pos (Or.inl htyp)] at h
            cases h
          · exact decide_eq_false htyp
      | _ => rfl
  | _ => rfl

theorem initsOnWire_answers {wire : List (Nat × Json × Bool)} (h : Answers σ wire) :
    wire.filter (isInit ·.2.1) = initsOnWire σ := by
  rcases h with rfl | ⟨e, rfl, he⟩
  · rfl
  · rw [List.filter_cons_of_neg (by rw [isInit_of_senderOf he]; decide)]
    rfl

/-- An answer has no sender to ask for. -/
theorem OnWire.wire_answers (h : OnWire σ inits) {wire : List (Nat × Json × Bool)}
    (hwire : Answers σ wire) : ∀ e ∈ wire, ∀ sender, senderOf e.2.1 = some sender →
      ∃ r ∈ σ.relayed, r.sender = sender := by
  rcases hwire with rfl | ⟨e, rfl, he⟩
  · exact h.wire
  · intro e' he' sender hsender
    rcases List.mem_cons.mp he' with rfl | he'
    · rw [he] at hsender
      cases hsender
    · exact h.wire e' he' sender hsender

/-- What a step leaves in the queues was there, or was taken out of one. -/
theorem OnWire.erased (h : OnWire σ inits) (key : DictKey) :
    ∀ k, ∀ i ∈ (Odict.get? (Odict.erase σ.pendingInits key) k).getD [],
      inits[i.1]? = some i.2 := by
  intro k i hi
  exact h.queued k i (Odict.mem_queue_erase.mp hi).2

/-- Of all sockets, if the one that was changed is right. -/
theorem OnWire.held_set (h : OnWire σ inits) {w : Nat} {s' : Socket}
    (hs' : ∀ i ∈ inHand s', inits[i.1]? = some i.2) (v : Nat) (t : Socket)
    (ht : (σ.sockets.set w s')[v]? = some t) : ∀ i ∈ inHand t, inits[i.1]? = some i.2 := by
  by_cases hv : v = w
  · subst hv
    obtain ⟨hlt, hget⟩ := List.getElem?_eq_some_iff.mp ht
    rw [List.getElem_set_self] at hget
    rw [← hget]
    exact hs'
  · rw [List.getElem?_set_ne (Ne.symm hv)] at ht
    exact h.held v t ht

theorem hand_free {s : Socket} (hfree : inHand s = []) :
    ∀ i ∈ inHand s, inits[i.1]? = some i.2 := by
  intro i hi
  rw [hfree] at hi
  cases hi

/-- A step that accepts nothing and hands nothing over. -/
theorem OnWire.answered (h : OnWire σ inits) {w : Nat} {s' : Socket}
    (hs' : ∀ i ∈ inHand s', inits[i.1]? = some i.2)
    (hsockets : σ'.sockets = σ.sockets.set w s') (hwire : Answers σ σ'.wire)
    (hqueued : ∀ key, ∀ i ∈ (Odict.get? σ'.pendingInits key).getD [], inits[i.1]? = some i.2)
    (haccepted : σ'.accepted = σ.accepted) (hhanded : σ'.handed = σ.handed)
    (hrelayed : σ'.relayed = σ.relayed) : OnWire σ' (inits ++ []) := by
  rw [List.append_nil]
  refine ⟨haccepted ▸ h.count, hqueued, ?_, ?_, hrelayed ▸ h.named, ?_⟩
  · rw [hsockets]
    exact h.held_set hs'
  · rw [initsOnWire, initsOnWire_answers hwire, hhanded]
    exact h.sent
  · rw [hrelayed]
    exact h.wire_answers hwire

/-- A session_init that is accepted has the next number, and its sender is
recorded. -/
theorem OnWire.accepts (h : OnWire σ inits) {sender : Json} {d : List (String × Json)}
    (answered : Option String) {msg : Json} (hmsg : msg = initMessage sender d) :
    (inits ++ [msg])[σ.accepted.length]? = some msg ∧
      (∀ (n : Nat) (m : Json), inits[n]? = some m → (inits ++ [msg])[n]? = some m) ∧
      (∀ m ∈ inits ++ [msg], isInit m = true ∧
        ∃ r ∈ (⟨sender, answered⟩ : RelayedRecord) :: σ.relayed, senderOf m = some r.sender) ∧
      ∀ e ∈ σ.wire, ∀ other, senderOf e.2.1 = some other →
        ∃ r ∈ (⟨sender, answered⟩ : RelayedRecord) :: σ.relayed, r.sender = other := by
  refine ⟨?_, fun n m hm => ?_, fun m hm => ?_, fun e he other hother => ?_⟩
  · rw [← h.count]
    exact List.getElem?_concat_length ..
  · rw [List.getElem?_append_left (List.getElem?_eq_some_iff.mp hm).1]
    exact hm
  · rcases List.mem_append.mp hm with hm | hm
    · obtain ⟨hinit, r, hr, hsender⟩ := h.named m hm
      exact ⟨hinit, r, List.mem_cons_of_mem _ hr, hsender⟩
    · rw [List.mem_singleton.mp hm, hmsg]
      exact ⟨isInit_initMessage _ _, _, List.mem_cons_self, senderOf_initMessage _ _⟩
  · obtain ⟨r, hr, hsender⟩ := h.wire e he other hother
    exact ⟨r, List.mem_cons_of_mem _ hr, hsender⟩

/-- A session_init is put on the wire, and the attempt is recorded. -/
theorem OnWire.handed (h : OnWire σ inits) {w : Nat} {s' : Socket} {init : Nat × Json}
    {record : HandedRecord} (hinit : inits[init.1]? = some init.2)
    (hnumber : record.number = init.1)
    (hs' : ∀ i ∈ inHand s', inits[i.1]? = some i.2)
    (hsockets : σ'.sockets = σ.sockets.set w s')
    (hwire : σ'.wire = (w, init.2, record.arrived) :: σ.wire)
    (hqueued : ∀ key, ∀ i ∈ (Odict.get? σ'.pendingInits key).getD [], inits[i.1]? = some i.2)
    (haccepted : σ'.accepted = σ.accepted) (hhanded : σ'.handed = record :: σ.handed)
    (hrelayed : σ'.relayed = σ.relayed) : OnWire σ' (inits ++ []) := by
  rw [List.append_nil]
  obtain ⟨hisInit, r, hr, hsender⟩ := h.named init.2 (List.mem_of_getElem? hinit)
  refine ⟨haccepted ▸ h.count, hqueued, ?_, ?_, hrelayed ▸ h.named, ?_⟩
  · rw [hsockets]
    exact h.held_set hs'
  · have hfilter : initsOnWire σ' = (w, init.2, record.arrived) :: initsOnWire σ := by
      rw [initsOnWire, hwire]
      exact List.filter_cons_of_pos hisInit
    rw [hfilter, hhanded]
    exact .cons ⟨hnumber ▸ hinit, rfl⟩ h.sent
  · rw [hwire, hrelayed]
    intro e he other hother
    rcases List.mem_cons.mp he with rfl | he
    · rw [hsender] at hother
      exact ⟨r, hr, Option.some.inj hother⟩
    · exact h.wire e he other hother

theorem OnWire.step (h : OnWire σ inits) (act : RelayAct) :
    OnWire (σ.step act) (inits ++ (initOf (event σ act)).toList) := by
  have hdoes := step_does σ act
  generalize σ.step act = σ' at hdoes
  generalize event σ act = e at hdoes
  cases hdoes with
  | same => simpa [initOf] using h
  | connect =>
      rw [initOf, Option.toList_none, List.append_nil]
      refine ⟨h.count, h.queued, fun w s hs => ?_, h.sent, h.named, h.wire⟩
      rcases getElem?_concat_cases hs with hs | ⟨-, rfl⟩
      · exact h.held w s hs
      · exact hand_free rfl
  | @close w s hs =>
      have hclosed : ∀ i ∈ inHand { s with opened := false }, inits[i.1]? = some i.2 :=
        h.held w s hs
      exact h.answered hclosed rfl (.inl rfl) h.queued rfl rfl rfl
  | moved hs hfree hrun hphase hnot hwire =>
      refine h.answered (hand_free ?_) rfl hwire h.queued rfl rfl rfl
      rcases hphase with rfl | rfl <;> rfl
  | @drained w s name hs hphase hname hempty =>
      exact h.answered (hand_free rfl) rfl (.inl rfl) (h.erased _) rfl rfl rfl
  | rejected hs hphase hrequest hwire =>
      exact h.answered (hand_free rfl) rfl hwire h.queued rfl rfl rfl
  | registered hs hphase hname hwire =>
      exact h.answered (hand_free rfl) rfl hwire h.queued rfl rfl rfl
  | @live w w' s toUser name ok msg hs hphase hfrom hkey hthere hmsg =>
      obtain ⟨d, hmsg⟩ := hmsg
      obtain ⟨hnew, hold, hnamed, hwire⟩ := h.accepts (σ.answeredName w) hmsg
      refine ⟨?_, fun key i hi => hold _ _ (h.queued key i hi), fun v t ht => ?_, ?_, hnamed, ?_⟩
      · simp [initOf, h.count]
      · by_cases hv : v = w
        · subst hv
          rw [List.getElem?_set_self (List.getElem?_eq_some_iff.mp hs).1] at ht
          cases ht
          exact hand_free rfl
        · rw [List.getElem?_set_ne (Ne.symm hv)] at ht
          exact fun i hi => hold _ _ (h.held v t ht i hi)
      · rw [initsOnWire, List.filter_cons_of_pos (by rw [hmsg]; exact isInit_initMessage _ _)]
        refine .cons ⟨hnew, rfl⟩ (h.sent.imp fun e r he => ⟨hold _ _ he.1, he.2⟩)
      · intro e he sender hsender
        rcases List.mem_cons.mp he with rfl | he
        · rw [hmsg, senderOf_initMessage] at hsender
          exact ⟨_, List.mem_cons_self, Option.some.inj hsender⟩
        · exact hwire e he sender hsender
  | @queued w s toUser msg key ok hs hphase hfrom hkey hgone hmsg =>
      obtain ⟨d, hmsg⟩ := hmsg
      obtain ⟨hnew, hold, hnamed, hwire⟩ := h.accepts (σ.answeredName w) hmsg
      refine ⟨?_, fun k i hi => ?_, fun v t ht i hi => hold _ _ (h.held v t ht i hi),
        h.sent.imp fun e r he => ⟨hold _ _ he.1, he.2⟩, hnamed, hwire⟩
      · simp [initOf, h.count]
      · rcases Odict.mem_queue_push.mp hi with hi | ⟨-, rfl⟩
        · exact hold _ _ (h.queued k i hi)
        · exact hnew
  | @message w s e hs hphase hfrom hmsg hsender =>
      rw [initOf, Option.toList_none, List.append_nil]
      refine ⟨h.count, h.queued, h.held_set (hand_free rfl), ?_, fun m hm => ?_,
        fun e' he' other hother => ?_⟩
      · rw [initsOnWire, List.filter_cons_of_neg (by rw [hmsg]; decide)]
        exact h.sent
      · obtain ⟨hinit, r, hr, hr'⟩ := h.named m hm
        exact ⟨hinit, r, List.mem_cons_of_mem _ hr, hr'⟩
      · rcases List.mem_cons.mp he' with rfl | he'
        · rw [hsender] at hother
          exact ⟨_, List.mem_cons_self, Option.some.inj hother⟩
        · obtain ⟨r, hr, hr'⟩ := h.wire e' he' other hother
          exact ⟨r, List.mem_cons_of_mem _ hr, hr'⟩
  | @taken w s name init rest ok hs hphase hname hqueue =>
      have hall : ∀ i ∈ init :: rest, inits[i.1]? = some i.2 := by
        intro i hi
        refine h.queued (.str name) i ?_
        rw [hqueue]
        exact hi
      have hrest : ∀ i ∈ inHand { s with phase := .delivering rest }, inits[i.1]? = some i.2 :=
        fun i hi => hall i (List.mem_cons_of_mem _ hi)
      exact h.handed (hall init List.mem_cons_self) rfl hrest rfl rfl (h.erased _) rfl rfl rfl
  | @next w s name init rest ok hs hphase hname =>
      have hall : ∀ i ∈ init :: rest, inits[i.1]? = some i.2 := by
        intro i hi
        refine h.held w s hs i ?_
        rw [inHand, hphase]
        exact hi
      have hrest : ∀ i ∈ inHand { s with phase := .delivering rest }, inits[i.1]? = some i.2 :=
        fun i hi => hall i (List.mem_cons_of_mem _ hi)
      exact h.handed (hall init List.mem_cons_self) rfl hrest rfl rfl h.queued rfl rfl rfl
  | finished hs hphase => exact h.answered (hand_free rfl) rfl (.inl rfl) h.queued rfl rfl rfl
  | @raised w s hs hphase =>
      obtain ⟨connections, pubs, heq⟩ := cleanUp_frame σ s.username
      rw [heq]
      exact h.answered (hand_free rfl) rfl (.inl rfl) h.queued rfl rfl rfl

end Step

theorem acceptStep_relay (x : Relay × List Json) (acts : List RelayAct) :
    (runFrom acceptStep x acts).1 = runFrom Relay.step x.1 acts := by
  induction acts generalizing x with
  | nil => rfl
  | cons act acts ih => exact ih (acceptStep x act)

theorem onWire_run (acts : List RelayAct) :
    OnWire (runFrom Relay.step {} acts) (acceptedInits acts) := by
  have hstart : OnWire {} [] := by
    refine ⟨rfl, fun key i hi => ?_, fun w s hs => ?_, .nil, fun m hm => ?_, fun e he => ?_⟩
    · cases hi
    · cases hs
    · cases hm
    · cases he
  have hrun : OnWire (runFrom acceptStep ({}, []) acts).1 (runFrom acceptStep ({}, []) acts).2 :=
    runFrom_invariant (I := fun x : Relay × List Json => OnWire x.1 x.2)
      (fun x act h => h.step act) hstart acts
  rw [acceptStep_relay] at hrun
  exact hrun

/-- Over every run of the relay, whatever was passed on or waits in a queue or in
the hands of a handler names a sender that is on record. -/
theorem senders_recorded (acts : List RelayAct) :
    (∀ e ∈ (runFrom Relay.step {} acts).wire, ∀ sender, senderOf e.2.1 = some sender →
      ∃ r ∈ (runFrom Relay.step {} acts).relayed, r.sender = sender) ∧
    (∀ key, ∀ i ∈ (Odict.get? (runFrom Relay.step {} acts).pendingInits key).getD [],
      ∃ r ∈ (runFrom Relay.step {} acts).relayed, senderOf i.2 = some r.sender) ∧
    ∀ (w : Nat) (s : Socket), (runFrom Relay.step {} acts).sockets[w]? = some s →
      ∀ i ∈ inHand s, ∃ r ∈ (runFrom Relay.step {} acts).relayed, senderOf i.2 = some r.sender := by
  have h := onWire_run acts
  exact ⟨h.wire, fun key i hi => (h.named i.2 (List.mem_of_getElem? (h.queued key i hi))).2,
    fun w s hs i hi => (h.named i.2 (List.mem_of_getElem? (h.held w s hs i hi))).2⟩

end GhostChat.Proofs
