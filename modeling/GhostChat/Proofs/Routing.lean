import GhostChat.Lib.Run
import GhostChat.Ref.Router

/-!
# Envelopes are neither lost nor doubled

An envelope that was accepted is scheduled, in a mailbox or was returned. Every
call moves envelopes between these three and drops none, with one exception.
`deliver_due` has the list of what is due in a local variable while it files
one after another, and an envelope whose recipient cannot be looked up ends the
call there: it and those after it are in none of the three places any more
(`deliverAll_after`). An envelope that is enqueued without delay is looked up
before it is accepted, so only scheduled ones get that far.
-/

namespace GhostChat.Proofs

open GhostChat.Lib GhostChat.Lib.Effect GhostChat.Ref

variable {T : Type} {σ : RouterRun T}

/-- What can be the key of a dict. -/
def IsKey : Json → Prop
  | .list _ | .dict _ => False
  | .null | .bool _ | .int _ | .float _ | .str _ => True

/-- The envelope has a locator, or a recipient that is not empty, and it can be
the key of a dict. -/
def Routable (envelope : Envelope) : Prop :=
  match Odict.get? envelope "recipient_locator" with
  | some locator => IsKey locator
  | none => (Json.get envelope "recipient").truthy = true ∧ IsKey (Json.get envelope "recipient")

/-- Everything the router knows of, and everything it gave out. -/
def allEnvelopes (σ : RouterRun T) : List Envelope :=
  σ.router.scheduled.map (·.envelope) ++ σ.router.mailboxes.flatMap (·.2) ++ σ.returned

/-- The envelopes that were accepted are those that are scheduled, in a mailbox
or returned, each as often. -/
def Conserved (σ : RouterRun T) : Prop := σ.accepted.Perm (allEnvelopes σ)

/-- Every envelope that is due when `deliver_due` is called can be routed. -/
def DueRoutable [LE T] (σ : RouterRun T) : RouterAct T → Prop
  | .deliverDue now clock => ∀ s ∈ σ.router.scheduled, s.deliverAt ≤ now.getD clock →
      Routable s.envelope
  | .enqueue .. | .dequeueAll _ => True

/-! ## Filing -/

/-- A router with one more envelope in a mailbox. -/
def filed (r : Router T) (key : DictKey) (envelope : Envelope) : Router T :=
  { r with
    mailboxes := Odict.set r.mailboxes key ((Odict.get? r.mailboxes key).getD [] ++ [envelope]) }

theorem filed_keys {r : Router T} (hk : (Odict.keys r.mailboxes).Nodup) (key : DictKey)
    (envelope : Envelope) : (Odict.keys (filed r key envelope).mailboxes).Nodup :=
  Odict.set_keys_nodup hk _ _

theorem filed_perm {r : Router T} (hk : (Odict.keys r.mailboxes).Nodup) (key : DictKey)
    (envelope : Envelope) : ((filed r key envelope).mailboxes.flatMap (·.2)).Perm
      (envelope :: r.mailboxes.flatMap (·.2)) :=
  Odict.queues_push hk key envelope

theorem dictKey_cases (v : Json) :
    (∃ key, v.dictKey = .ok key ∧ IsKey v) ∨ ∃ e, v.dictKey = .error e ∧ ¬ IsKey v := by
  cases v with
  | list items => exact Or.inr ⟨_, rfl, id⟩
  | dict fields => exact Or.inr ⟨_, rfl, id⟩
  | float value => cases value <;> exact Or.inl ⟨_, rfl, trivial⟩
  | null => exact Or.inl ⟨_, rfl, trivial⟩
  | bool b => exact Or.inl ⟨_, rfl, trivial⟩
  | int n => exact Or.inl ⟨_, rfl, trivial⟩
  | str s => exact Or.inl ⟨_, rfl, trivial⟩

/-- The recipient is looked up, and then it decides. -/
theorem getRoutingRecipient_cases (envelope : Envelope) :
    (∃ e, getRoutingRecipient envelope = .error e ∧ ¬ Routable envelope) ∨
    ∃ recipient, getRoutingRecipient envelope = .ok recipient ∧
      (Routable envelope ↔ IsKey recipient) := by
  cases hlocator : Odict.get? envelope "recipient_locator" with
  | some locator => exact Or.inr ⟨locator, by simp [getRoutingRecipient, hlocator],
      by simp [Routable, hlocator]⟩
  | none =>
      cases htruthy : (Json.get envelope "recipient").truthy with
      | false => exact Or.inl ⟨_, by simp [getRoutingRecipient, hlocator, htruthy]; rfl,
          by simp [Routable, hlocator, htruthy]⟩
      | true => exact Or.inr ⟨_, by simp [getRoutingRecipient, hlocator, htruthy]; rfl,
          by simp [Routable, hlocator, htruthy]⟩

/-- Looking up the recipient and filing: the envelope is filed, or it cannot be
routed and nothing is. -/
theorem route_cases (envelope : Envelope) (r : Router T) :
    (∃ e, (lift (getRoutingRecipient envelope) >>= fun recipient =>
        Router.enqueue recipient envelope) r = .error e r ∧ ¬ Routable envelope) ∨
    ∃ key, (lift (getRoutingRecipient envelope) >>= fun recipient =>
        Router.enqueue recipient envelope) r = .ok () (filed r key envelope) ∧
      Routable envelope := by
  rcases getRoutingRecipient_cases envelope with ⟨e, hroute, hnot⟩ | ⟨recipient, hroute, hroutable⟩
  · rw [hroute]
    exact Or.inl ⟨e, rfl, hnot⟩
  · rw [hroute, hroutable]
    rcases dictKey_cases recipient with ⟨key, hkey, his⟩ | ⟨e, hkey, hnot⟩
    · exact Or.inr ⟨key, by simp [Router.enqueue, hkey, filed], his⟩
    · exact Or.inl ⟨e, by simp [Router.enqueue, hkey], hnot⟩

theorem deliverAll_cons (s : ScheduledEnvelope T) (due : List (ScheduledEnvelope T))
    (r : Router T) : Router.deliverAll (s :: due) r =
      match (lift (getRoutingRecipient s.envelope) >>= fun recipient =>
        Router.enqueue recipient s.envelope) r with
      | .ok _ r' => Router.deliverAll due r'
      | .error e r' => .error e r' := by
  rw [Router.deliverAll, bind_apply, bind_apply]
  cases lift (getRoutingRecipient s.envelope) r with
  | error e r' => rfl
  | ok recipient r' =>
      dsimp only
      rw [bind_apply]
      cases Router.enqueue recipient s.envelope r' <;> rfl

/-- What is filed is a first part of what is due; the rest is gone, and there is
a rest exactly if one of them cannot be routed. -/
theorem deliverAll_after (due : List (ScheduledEnvelope T)) (r : Router T)
    (hk : (Odict.keys r.mailboxes).Nodup) :
    ∃ mailboxes lost, after (Router.deliverAll due r) = { r with mailboxes := mailboxes } ∧
      (Odict.keys mailboxes).Nodup ∧
      (mailboxes.flatMap (·.2) ++ lost).Perm
        (due.map (·.envelope) ++ r.mailboxes.flatMap (·.2)) ∧
      (lost = [] ↔ ∀ s ∈ due, Routable s.envelope) := by
  induction due generalizing r with
  | nil => exact ⟨r.mailboxes, [], rfl, hk, by simp, by simp⟩
  | cons s due ih =>
      rcases route_cases s.envelope r with ⟨e, he, hnot⟩ | ⟨key, hr, hroutable⟩
      · refine ⟨r.mailboxes, (s :: due).map (·.envelope), ?_, hk, List.perm_append_comm,
          iff_of_false nofun fun hall => hnot (hall s List.mem_cons_self)⟩
        rw [deliverAll_cons, he]
        rfl
      · obtain ⟨mailboxes, lost, hafter, hk', hperm, hlost⟩ := ih _ (filed_keys hk key s.envelope)
        refine ⟨mailboxes, lost, ?_, hk', ?_, ?_⟩
        · rw [deliverAll_cons, hr]
          exact hafter
        · refine hperm.trans (((filed_perm hk key s.envelope).append_left _).trans ?_)
          exact List.perm_middle
        · rw [List.forall_mem_cons, hlost]
          exact (and_iff_right hroutable).symm

/-! ## Every call -/

section Step

variable [Zero T] [Add T] [LE T] [DecidableLE T]

omit [LE T] [DecidableLE T] in
/-- An envelope is scheduled or put into a mailbox, or the call raises and
nothing has changed. -/
theorem enqueueByEnvelope_cases (envelope : Envelope) (useMix : Bool) (now : Option T) (clock : T)
    (random : Draws T) (r : Router T) :
    (∃ e, Router.enqueueByEnvelope envelope useMix now clock random r = .error e r) ∨
    (∃ s : ScheduledEnvelope T, s.envelope = envelope ∧
      Router.enqueueByEnvelope envelope useMix now clock random r
        = .ok () { r with scheduled := r.scheduled ++ [s] }) ∨
    ∃ key, Router.enqueueByEnvelope envelope useMix now clock random r
      = .ok () (filed r key envelope) := by
  have hdirect : Router.enqueueByEnvelope envelope useMix now clock random r
      = (lift (getRoutingRecipient envelope) >>= fun recipient =>
        Router.enqueue recipient envelope) r →
      (∃ e, Router.enqueueByEnvelope envelope useMix now clock random r = .error e r) ∨
      ∃ key, Router.enqueueByEnvelope envelope useMix now clock random r
        = .ok () (filed r key envelope) := by
    intro heq
    rw [heq]
    rcases route_cases envelope r with ⟨e, he, -⟩ | ⟨key, hr, -⟩
    · exact Or.inl ⟨e, he⟩
    · exact Or.inr ⟨key, hr⟩
  rcases Option.eq_none_or_eq_some r.mixRouter with hmix | ⟨config, hmix⟩
  · rcases hdirect (by simp [Router.enqueueByEnvelope, hmix]) with herr | hok
    · exact Or.inl herr
    · exact Or.inr (Or.inr hok)
  · by_cases hdelay : (useMix && config.enabled) = true
    · have hrun : Router.enqueueByEnvelope envelope useMix now clock random r
          = (lift (config.scheduleEnvelope envelope now clock random) >>= fun scheduled =>
            modify fun r => { r with scheduled := r.scheduled ++ [scheduled] }) r := by
        rw [Router.enqueueByEnvelope, bind_apply, get_apply]
        simp only [hmix, hdelay, if_true]
      rw [hrun]
      cases hsample : config.sampleDelay random with
      | error e =>
          refine Or.inl ⟨e, ?_⟩
          rw [MixConfig.scheduleEnvelope, hsample]
          rfl
      | ok delay =>
          refine Or.inr (Or.inl ⟨⟨now.getD clock + delay, envelope⟩, rfl, ?_⟩)
          rw [MixConfig.scheduleEnvelope, hsample]
          rfl
    · have hnow : (useMix && config.enabled) = false := by simpa using hdelay
      rcases hdirect (by simp only [Router.enqueueByEnvelope, bind_apply, get_apply, hmix, hnow,
        Bool.false_eq_true, if_false]) with herr | hok
      · exact Or.inl herr
      · exact Or.inr (Or.inr hok)

omit [Zero T] [Add T] in
theorem deliverDue_after (now : Option T) (clock : T) (r : Router T) :
    after (Router.deliverDue now clock r)
      = after (Router.deliverAll (r.scheduled.filter (·.deliverAt ≤ now.getD clock))
          { r with scheduled := r.scheduled.filter fun s => ¬ s.deliverAt ≤ now.getD clock }) := by
  rw [Router.deliverDue, bind_apply, get_apply]
  dsimp only
  rw [bind_apply, modify_apply]
  dsimp only
  rw [bind_apply]
  cases Router.deliverAll (r.scheduled.filter (·.deliverAt ≤ now.getD clock))
    { r with scheduled := r.scheduled.filter fun s => ¬ s.deliverAt ≤ now.getD clock } <;> rfl

omit [Zero T] [Add T] in
/-- What is due is filed or lost, and the rest stays where it is. -/
theorem deliverDue_perm {σ : RouterRun T} {now : T} {mailboxes : Odict DictKey (List Envelope)}
    {lost : List Envelope}
    (h : (mailboxes.flatMap (·.2) ++ lost).Perm
      ((σ.router.scheduled.filter (·.deliverAt ≤ now)).map (·.envelope)
        ++ σ.router.mailboxes.flatMap (·.2))) :
    (allEnvelopes σ).Perm (lost ++ allEnvelopes { σ with router := { σ.router with
      scheduled := σ.router.scheduled.filter fun s => ¬ s.deliverAt ≤ now
      mailboxes := mailboxes } }) := by
  have hsplit := ((List.filter_append_perm (fun s : ScheduledEnvelope T => s.deliverAt ≤ now)
    σ.router.scheduled).map (·.envelope)).symm
  rw [List.map_append] at hsplit
  simp only [allEnvelopes, decide_not]
  rw [← List.append_assoc lost]
  refine List.Perm.append_right _ ?_
  refine (hsplit.append_right _).trans ?_
  rw [List.append_assoc]
  -- The rest first, then what is due with the mailboxes it goes to.
  refine (List.perm_append_comm_assoc _ _ _).trans ?_
  refine (h.symm.append_left _).trans ?_
  rw [← List.append_assoc]
  exact List.perm_append_comm

/-- What every call keeps. -/
def OneBox (σ : RouterRun T) : Prop := (Odict.keys σ.router.mailboxes).Nodup

/-- Accepting an envelope puts it in one of the three places. -/
theorem conserved_enqueue {σ : RouterRun T} (hk : OneBox σ) (envelope : Envelope) (useMix : Bool)
    (now : Option T) (clock : T) (random : Draws T) :
    OneBox (σ.step (.enqueue envelope useMix now clock random)) ∧
      (Conserved σ → Conserved (σ.step (.enqueue envelope useMix now clock random))) := by
  rcases enqueueByEnvelope_cases envelope useMix now clock random σ.router with
    ⟨e, hr⟩ | ⟨s, rfl, hr⟩ | ⟨key, hr⟩
  · rw [RouterRun.step, hr]
    exact ⟨hk, id⟩
  · rw [RouterRun.step, hr]
    refine ⟨hk, fun h => (h.cons s.envelope).trans ?_⟩
    simp only [allEnvelopes, List.map_append, List.map_cons, List.map_nil,
      List.append_assoc, List.singleton_append]
    exact List.perm_middle.symm
  · rw [RouterRun.step, hr]
    refine ⟨filed_keys hk key envelope, fun h => (h.cons envelope).trans ?_⟩
    rw [allEnvelopes, allEnvelopes, List.append_assoc, List.append_assoc]
    refine List.perm_middle.symm.trans (List.Perm.append_left _ ?_)
    exact (filed_perm hk key envelope).symm.append_right _

omit [Zero T] [Add T] [LE T] [DecidableLE T] in
/-- Emptying a mailbox moves what is in it. -/
theorem dequeueAll_cases {σ : RouterRun T} (hk : OneBox σ) (recipient : Json) :
    (∃ e, Router.dequeueAll recipient σ.router = .error e σ.router) ∨
    ∃ messages r, Router.dequeueAll recipient σ.router = .ok messages r ∧
      (Odict.keys r.mailboxes).Nodup ∧ r.scheduled = σ.router.scheduled ∧
      (messages ++ r.mailboxes.flatMap (·.2)).Perm (σ.router.mailboxes.flatMap (·.2)) := by
  cases hkey : recipient.dictKey with
  | error e => exact Or.inl ⟨e, by simp [Router.dequeueAll, hkey]⟩
  | ok key =>
      refine Or.inr ?_
      cases hget : Odict.get? σ.router.mailboxes key with
      | none =>
          exact ⟨[], σ.router, by simp [Router.dequeueAll, hkey, hget], hk, rfl, List.Perm.refl _⟩
      | some messages =>
          refine ⟨messages, { σ.router with
            mailboxes := Odict.set σ.router.mailboxes key [] },
            by simp [Router.dequeueAll, hkey, hget], Odict.set_keys_nodup hk _ _, rfl, ?_⟩
          have hperm := Odict.queues_set hk key []
          rw [hget, Option.getD_some, List.nil_append] at hperm
          exact hperm

theorem conserved_dequeueAll {σ : RouterRun T} (hk : OneBox σ) (recipient : Json) :
    OneBox (σ.step (.dequeueAll recipient)) ∧
      (Conserved σ → Conserved (σ.step (.dequeueAll recipient))) := by
  rcases dequeueAll_cases hk recipient with ⟨e, hr⟩ | ⟨messages, r, hr, hk', hscheduled, hperm⟩
  · rw [RouterRun.step, hr]
    exact ⟨hk, id⟩
  · rw [RouterRun.step, hr]
    refine ⟨hk', fun h => h.trans ?_⟩
    rw [allEnvelopes, allEnvelopes, hscheduled, List.append_assoc, List.append_assoc]
    refine List.Perm.append_left _ ((hperm.symm.append_right _).trans ?_)
    rw [← List.append_assoc]
    exact List.perm_append_comm.append_right _

theorem conserved_deliverDue {σ : RouterRun T} (hk : OneBox σ) (now : Option T) (clock : T) :
    OneBox (σ.step (.deliverDue now clock)) ∧ (Conserved σ →
      (Conserved (σ.step (.deliverDue now clock)) ↔ DueRoutable σ (.deliverDue now clock))) := by
  obtain ⟨mailboxes, lost, hafter, hk', hperm, hlost⟩ := deliverAll_after
    (σ.router.scheduled.filter (·.deliverAt ≤ now.getD clock))
    { σ.router with
      scheduled := σ.router.scheduled.filter fun s => ¬ s.deliverAt ≤ now.getD clock } hk
  have hstep : σ.step (.deliverDue now clock) = { σ with router := { σ.router with
      scheduled := σ.router.scheduled.filter fun s => ¬ s.deliverAt ≤ now.getD clock
      mailboxes := mailboxes } } := by
    rw [RouterRun.step, deliverDue_after, hafter]
  rw [hstep]
  refine ⟨hk', fun h => ?_⟩
  have hall := h.trans (deliverDue_perm hperm)
  have hdue : lost = [] ↔ DueRoutable σ (.deliverDue now clock) := by
    rw [hlost]
    simp [DueRoutable]
  rw [← hdue]
  constructor
  · intro h'
    have hlen := (h'.symm.trans hall).length_eq
    rw [List.length_append] at hlen
    exact List.eq_nil_of_length_eq_zero (by omega)
  · rintro rfl
    exact hall

theorem conserved_step (σ : RouterRun T) (hk : OneBox σ) (act : RouterAct T) :
    OneBox (σ.step act) ∧ (Conserved σ → (Conserved (σ.step act) ↔ DueRoutable σ act)) := by
  cases act with
  | enqueue envelope useMix now clock random =>
      obtain ⟨hk', hkept⟩ := conserved_enqueue hk envelope useMix now clock random
      exact ⟨hk', fun h => iff_of_true (hkept h) trivial⟩
  | deliverDue now clock => exact conserved_deliverDue hk now clock
  | dequeueAll recipient =>
      obtain ⟨hk', hkept⟩ := conserved_dequeueAll hk recipient
      exact ⟨hk', fun h => iff_of_true (hkept h) trivial⟩

/-- Whatever is called and in whatever order, with or without a mix router:
nothing is lost or doubled after any number of calls exactly if each
`deliver_due` finds only envelopes due that can be routed. -/
theorem conserved_iff (mixRouter : Option (MixConfig T)) (acts : List (RouterAct T)) :
    (∀ n, Conserved (runFrom RouterRun.step { router := { mixRouter := mixRouter } }
      (acts.take n))) ↔
      Along RouterRun.step DueRoutable { router := { mixRouter := mixRouter } } acts := by
  have hstart : OneBox (T := T) { router := { mixRouter := mixRouter } } := List.nodup_nil
  have hgood : Conserved (T := T) { router := { mixRouter := mixRouter } } := List.Perm.refl _
  exact Along.always_iff (fun σ act hk => (conserved_step σ hk act).1)
    (fun σ act hk => (conserved_step σ hk act).2) hstart hgood

end Step

/-- A dict without a recipient is accepted for delayed delivery, and
`deliver_due` raises with the dict in its hands. -/
theorem envelope_lost : ¬ Conserved (runFrom RouterRun.step
    (⟨{ mixRouter := some ⟨true, 50, 300, none, none, true, 0⟩ }, [], []⟩ : RouterRun Nat)
    [.enqueue [] true (some 1000) 0 ⟨fun _ _ => 0, fun a _ => a⟩, .deliverDue (some 1000) 0]) := by
  intro h
  exact absurd h.length_eq (by decide)

end GhostChat.Proofs
