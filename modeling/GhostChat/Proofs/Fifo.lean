import GhostChat.Proofs.Routing
import Mathlib.Algebra.Order.Monoid.Unbundled.Basic

/-!
# Mailboxes keep the order

An envelope waits in the list of the scheduled ones, then in a mailbox, and the
three lists of a recipient, what its mailbox gave out, what is in it and what is
still scheduled, hang together end to end: the new envelope comes in at the end
of the last of them or, without delays, of the one before, and every call only
moves a front part of one list to the end of the list before it. For
`dequeue_all` and for `enqueue` that is how they are written. `deliver_due` picks
what is due out of the list wherever it stands, and picks a front part exactly
because of how the list comes about: with a fixed delay and a clock that does
not go back, it is sorted by the time of delivery.

What is lost on the way (an envelope whose recipient cannot be looked up ends
`deliver_due`) leaves a gap and no disorder.
-/

namespace GhostChat.Proofs

open GhostChat.Lib GhostChat.Lib.Effect GhostChat.Ref

/-! ## A recipient's envelopes -/

/-- The mailbox an envelope belongs to, if it can be looked up. -/
def mailboxFor (envelope : Envelope) : Option DictKey :=
  (getRoutingRecipient envelope >>= Json.dictKey).toOption

def isFor (key : DictKey) (envelope : Envelope) : Bool := mailboxFor envelope = some key

variable {T : Type} {r : Router T}

def mailboxOf (r : Router T) (key : DictKey) : List Envelope :=
  (Odict.get? r.mailboxes key).getD []

def scheduledFor (r : Router T) (key : DictKey) : List Envelope :=
  (r.scheduled.map (·.envelope)).filter (isFor key)

def returnedTo (σ : DeliveryRun T) (key : DictKey) : List Envelope :=
  (σ.returned.filter (·.1 = key)).map (·.2)

/-- Everything on its way through one mailbox, what is furthest first. -/
def passage (σ : DeliveryRun T) (key : DictKey) : List Envelope :=
  returnedTo σ key ++ mailboxOf σ.router key ++ scheduledFor σ.router key

def acceptedFor (σ : DeliveryRun T) (key : DictKey) : List Envelope :=
  σ.accepted.filter (isFor key)

/-- What one mailbox gave out, among what every mailbox gave out. -/
theorem returned_by (k key : DictKey) (messages : List Envelope) :
    ((messages.map fun e => (k, e)).filter (·.1 = key)).map (·.2)
      = if k = key then messages else [] := by
  rw [List.filter_map, List.map_map]
  by_cases h : k = key
  · simp [h, Function.comp_def]
  · simp [h, Function.comp_def]

theorem mailboxOf_filed (r : Router T) (key k : DictKey) (envelope : Envelope) :
    mailboxOf (filed r key envelope) k
      = mailboxOf r k ++ if k = key then [envelope] else [] := by
  rw [mailboxOf, mailboxOf, filed]
  split
  · next h => rw [h, Odict.get?_set_self, Option.getD_some]
  · next h => rw [Odict.get?_set_ne _ h, List.append_nil]

/-- Filing as every mailbox sees it. -/
structure Files (r r' : Router T) (envelopes : List Envelope) : Prop where
  scheduled : r'.scheduled = r.scheduled
  mixRouter : r'.mixRouter = r.mixRouter
  mailbox : ∀ key, mailboxOf r' key = mailboxOf r key ++ envelopes.filter (isFor key)

theorem Files.none (r : Router T) : Files r r [] :=
  ⟨rfl, rfl, fun _ => (List.append_nil _).symm⟩

theorem Files.append {r r' r'' : Router T} {es es' : List Envelope} (h : Files r r' es)
    (h' : Files r' r'' es') : Files r r'' (es ++ es') where
  scheduled := h'.scheduled.trans h.scheduled
  mixRouter := h'.mixRouter.trans h.mixRouter
  mailbox key := by rw [h'.mailbox, h.mailbox, List.filter_append, List.append_assoc]

theorem filed_files {r : Router T} {key : DictKey} {envelope : Envelope}
    (hkey : mailboxFor envelope = some key) : Files r (filed r key envelope) [envelope] where
  scheduled := rfl
  mixRouter := rfl
  mailbox k := by
    rw [mailboxOf_filed, List.filter_singleton, isFor, hkey]
    by_cases h : k = key
    · simp [h]
    · simp [h, Ne.symm h]

/-- An envelope is filed if it can be routed. -/
theorem route_files (envelope : Envelope) (r : Router T) :
    (∃ e, (lift (getRoutingRecipient envelope) >>= fun recipient =>
        Router.enqueue recipient envelope) r = .error e r ∧ ¬ Routable envelope) ∨
    ∃ r', (lift (getRoutingRecipient envelope) >>= fun recipient =>
        Router.enqueue recipient envelope) r = .ok () r' ∧ Routable envelope ∧
      Files r r' [envelope] := by
  rcases getRoutingRecipient_cases envelope with ⟨e, hroute, hnot⟩ | ⟨recipient, hroute, hroutable⟩
  · rw [hroute]
    exact Or.inl ⟨e, rfl, hnot⟩
  · rcases dictKey_cases recipient with ⟨key, hkey, his⟩ | ⟨e, hkey, hnot⟩
    · refine Or.inr ⟨filed r key envelope, ?_, hroutable.mpr his, filed_files ?_⟩
      · simp [hroute, Router.enqueue, hkey, filed]
      · rw [mailboxFor, hroute]
        show (recipient.dictKey).toOption = some key
        rw [hkey]
        rfl
    · refine Or.inl ⟨e, by simp [hroute, Router.enqueue, hkey], fun h => hnot (hroutable.mp h)⟩

/-- `deliver_due` files a front part of what is due, in its order, and all of it
if all of it can be routed. -/
theorem deliverAll_files (due : List (ScheduledEnvelope T)) (r : Router T) :
    ∃ front, front <+: due.map (·.envelope) ∧ Files r (after (Router.deliverAll due r)) front ∧
      ((∀ s ∈ due, Routable s.envelope) → front = due.map (·.envelope)) := by
  induction due generalizing r with
  | nil => exact ⟨[], List.nil_prefix, Files.none r, fun _ => rfl⟩
  | cons s due ih =>
      rw [deliverAll_cons]
      rcases route_files s.envelope r with ⟨e, he, hnot⟩ | ⟨r', hr, hroutable, hfiles⟩
      · rw [he]
        exact ⟨[], List.nil_prefix, Files.none r,
          fun hall => absurd (hall s List.mem_cons_self) hnot⟩
      · rw [hr]
        obtain ⟨front, hpre, hrest, hall⟩ := ih r'
        refine ⟨s.envelope :: front, ?_, hfiles.append hrest, fun h => ?_⟩
        · rw [List.map_cons, List.cons_prefix_cons]
          exact ⟨rfl, hpre⟩
        · rw [hall fun t ht => h t (List.mem_cons_of_mem s ht), List.map_cons]

/-! ## A sorted list of scheduled envelopes -/

section Sorted

variable [Preorder T] [DecidableLE T]

/-- What is due is a front part of a list that is sorted by time. -/
theorem due_append_rest {now : T} {l : List (ScheduledEnvelope T)}
    (hsorted : l.Pairwise fun s s' => s.deliverAt ≤ s'.deliverAt) :
    l.filter (·.deliverAt ≤ now) ++ l.filter (fun s => ¬ s.deliverAt ≤ now) = l := by
  induction l with
  | nil => rfl
  | cons s l ih =>
      obtain ⟨hlater, hsorted⟩ := List.pairwise_cons.mp hsorted
      by_cases hdue : s.deliverAt ≤ now
      · have hrest := ih hsorted
        simpa [hdue] using hrest
      · -- Then nothing after it is due either.
        have hnone : ∀ s' ∈ l, ¬ s'.deliverAt ≤ now :=
          fun s' hs' h => hdue (le_trans (hlater s' hs') h)
        rw [List.filter_eq_nil_iff.mpr (by simpa [hdue] using hnone),
          List.filter_eq_self.mpr (by simpa [hdue] using hnone), List.nil_append]

end Sorted

/-! ## Every call -/

section Step

variable [Preorder T] [DecidableLE T] [Zero T] [Add T] {σ : DeliveryRun T} {mixed : Bool}
  {t : T} {readings : List T}

/-- What is enqueued with this flag is scheduled. -/
def Delays (mixed : Bool) (r : Router T) : Prop :=
  ∃ config, r.mixRouter = some config ∧ (mixed && config.enabled) = true

/-- A mix router that delays at all delays everything alike. -/
def FixedDelay (r : Router T) : Prop :=
  ∀ config, r.mixRouter = some config → config.enabled = true → config.deterministicMode = true

def mixDelay (r : Router T) : T :=
  match r.mixRouter with
  | some config => config.fixedDelaySec
  | none => 0

/-- All envelopes are enqueued with the same flag. -/
def SameLane (mixed : Bool) : RouterAct T → Prop
  | .enqueue _ useMix _ _ _ => useMix = mixed
  | .deliverDue .. | .dequeueAll _ => True

/-- The reading of the clock an envelope is enqueued with. -/
def reading? : RouterAct T → Option T
  | .enqueue _ _ now clock _ => some (now.getD clock)
  | .deliverDue .. | .dequeueAll _ => none

/-- The scheduled ones are sorted, and none is later than one that is enqueued
at any of the readings to come. -/
structure Sorted (mixed : Bool) (readings : List T) (r : Router T) : Prop where
  fixed : FixedDelay r
  lane : ¬ Delays mixed r → r.scheduled = []
  sorted : r.scheduled.Pairwise fun s s' => s.deliverAt ≤ s'.deliverAt
  later : ∀ s ∈ r.scheduled, ∀ t ∈ readings, s.deliverAt ≤ t + mixDelay r

omit [Preorder T] [DecidableLE T] in
theorem enqueue_files (hfixed : FixedDelay r) (envelope : Envelope) (now : Option T)
    (clock : T) (random : Draws T) :
    (∃ e, Router.enqueueByEnvelope envelope mixed now clock random r = .error e r) ∨
    (Delays mixed r ∧ Router.enqueueByEnvelope envelope mixed now clock random r
      = .ok () { r with scheduled := r.scheduled ++
          [{ deliverAt := now.getD clock + mixDelay r, envelope := envelope }] }) ∨
    (¬ Delays mixed r ∧ ∃ r', Router.enqueueByEnvelope envelope mixed now clock random r
      = .ok () r' ∧ Files r r' [envelope]) := by
  by_cases hdelays : Delays mixed r
  · obtain ⟨config, hmix, hboth⟩ := hdelays
    have henabled : config.enabled = true := (Bool.and_eq_true _ _ ▸ hboth).2
    refine Or.inr (Or.inl ⟨⟨config, hmix, hboth⟩, ?_⟩)
    have hsample : config.sampleDelay random = .ok config.fixedDelaySec := by
      simp [MixConfig.sampleDelay, henabled, hfixed config hmix henabled]
    have hdelay : mixDelay r = config.fixedDelaySec := by
      rw [mixDelay, hmix]
    have hrun : Router.enqueueByEnvelope envelope mixed now clock random r
        = (lift (config.scheduleEnvelope envelope now clock random) >>= fun scheduled =>
          modify fun r => { r with scheduled := r.scheduled ++ [scheduled] }) r := by
      rw [Router.enqueueByEnvelope, bind_apply, get_apply]
      simp only [hmix, hboth, if_true]
    rw [hrun, MixConfig.scheduleEnvelope, hsample, hdelay]
    rfl
  · have hdirect : Router.enqueueByEnvelope envelope mixed now clock random r
        = (lift (getRoutingRecipient envelope) >>= fun recipient =>
          Router.enqueue recipient envelope) r := by
      rw [Router.enqueueByEnvelope, bind_apply, get_apply]
      cases hmix : r.mixRouter with
      | none => simp only [hmix]
      | some config =>
          have hnow : (mixed && config.enabled) = false := by
            cases hboth : mixed && config.enabled with
            | false => rfl
            | true => exact absurd ⟨config, hmix, hboth⟩ hdelays
          simp only [hmix, hnow, Bool.false_eq_true, if_false]
    rw [hdirect]
    rcases route_files envelope r with ⟨e, he, -⟩ | ⟨r', hr, -, hfiles⟩
    · exact Or.inl ⟨e, he⟩
    · exact Or.inr (Or.inr ⟨hdelays, r', hr, hfiles⟩)

omit [Zero T] [Add T] [Preorder T] [DecidableLE T] in
theorem Delays.congr {r' : Router T} (hmix : r'.mixRouter = r.mixRouter) :
    Delays mixed r' ↔ Delays mixed r := by
  rw [Delays, Delays, hmix]

omit [DecidableLE T] in
theorem Sorted.sub {r' : Router T} (hs : Sorted mixed readings r)
    (hmix : r'.mixRouter = r.mixRouter) (hsub : r'.scheduled.Sublist r.scheduled) :
    Sorted mixed readings r' where
  fixed := by
    rw [FixedDelay, hmix]
    exact hs.fixed
  lane hnot := by
    have hnone := hs.lane fun h => hnot ((Delays.congr hmix).mpr h)
    rw [hnone] at hsub
    exact List.sublist_nil.mp hsub
  sorted := hs.sorted.sublist hsub
  later s hmem t ht := by
    rw [mixDelay, hmix]
    exact hs.later s (hsub.subset hmem) t ht

omit [DecidableLE T] in
theorem Sorted.tail (hs : Sorted mixed (t :: readings) r) : Sorted mixed readings r :=
  ⟨hs.fixed, hs.lane, hs.sorted,
    fun s hmem t' ht' => hs.later s hmem t' (List.mem_cons_of_mem t ht')⟩

/-- What is on its way grows at the end by what was accepted; what was there
before stays, or at least stays in order. -/
def MovesOn (σ σ' : DeliveryRun T) (key : DictKey) (whole : Prop) : Prop :=
  ∃ new, acceptedFor σ' key = acceptedFor σ key ++ new ∧
    (passage σ' key).Sublist (passage σ key ++ new) ∧
    (whole → passage σ' key = passage σ key ++ new)

omit [Zero T] [Add T] [Preorder T] [DecidableLE T] in
theorem movesOn_of_eq {σ' : DeliveryRun T} {key : DictKey} {whole : Prop} {new : List Envelope}
    (haccepted : acceptedFor σ' key = acceptedFor σ key ++ new)
    (hpassage : passage σ' key = passage σ key ++ new) : MovesOn σ σ' key whole :=
  ⟨new, haccepted, by rw [hpassage], fun _ => hpassage⟩

/-- Every envelope that is due can be routed. -/
def DeliversAll (σ : DeliveryRun T) (act : RouterAct T) : Prop :=
  DueRoutable ({ router := σ.router } : RouterRun T) act

theorem deliverDue_movesOn (hs : Sorted mixed readings σ.router) (now : Option T) (clock : T) :
    Sorted mixed readings (σ.step (.deliverDue now clock)).router ∧
      ∀ key, MovesOn σ (σ.step (.deliverDue now clock)) key
        (DeliversAll σ (.deliverDue now clock)) := by
  obtain ⟨front, hpre, hfiles, hall⟩ := deliverAll_files
    (σ.router.scheduled.filter (·.deliverAt ≤ now.getD clock))
    { σ.router with
      scheduled := σ.router.scheduled.filter fun s => ¬ s.deliverAt ≤ now.getD clock }
  have hsplit : σ.router.scheduled.filter (·.deliverAt ≤ now.getD clock)
      ++ σ.router.scheduled.filter (fun s => ¬ s.deliverAt ≤ now.getD clock)
        = σ.router.scheduled := due_append_rest hs.sorted
  have hstep : σ.step (.deliverDue now clock)
      = { σ with router := after (Router.deliverDue now clock σ.router) } := rfl
  rw [hstep, deliverDue_after]
  refine ⟨hs.sub hfiles.mixRouter ?_, fun key => ⟨[], (List.append_nil _).symm, ?_, fun hdue => ?_⟩⟩
  · rw [hfiles.scheduled]
    exact List.filter_sublist
  · rw [List.append_nil, passage, passage, hfiles.mailbox, scheduledFor, scheduledFor,
      hfiles.scheduled, List.append_assoc, List.append_assoc, List.append_assoc]
    refine List.Sublist.append_left (List.Sublist.append_left ?_ _) _
    conv_rhs => rw [← hsplit, List.map_append, List.filter_append]
    exact (hpre.sublist.filter _).append_right _
  · have hfront := hall fun s hmem => by
      obtain ⟨hmem, hle⟩ := List.mem_filter.mp hmem
      exact hdue s hmem (of_decide_eq_true hle)
    rw [List.append_nil, passage, passage, hfiles.mailbox, scheduledFor, scheduledFor,
      hfiles.scheduled, List.append_assoc, List.append_assoc, List.append_assoc, hfront]
    conv_rhs => rw [← hsplit, List.map_append, List.filter_append]
    rfl

theorem dequeueAll_movesOn (recipient : Json) {whole : Prop} :
    (σ.step (.dequeueAll recipient)).router.mixRouter = σ.router.mixRouter ∧
    (σ.step (.dequeueAll recipient)).router.scheduled = σ.router.scheduled ∧
      ∀ key, MovesOn σ (σ.step (.dequeueAll recipient)) key whole := by
  rw [DeliveryRun.step]
  cases hkey : recipient.dictKey with
  | error e =>
      have hr : Router.dequeueAll recipient σ.router = .error e σ.router := by
        simp [Router.dequeueAll, hkey]
      rw [hr]
      exact ⟨rfl, rfl, fun key => movesOn_of_eq (List.append_nil _).symm (List.append_nil _).symm⟩
  | ok k =>
      cases hget : Odict.get? σ.router.mailboxes k with
      | none =>
          have hr : Router.dequeueAll recipient σ.router = .ok [] σ.router := by
            simp [Router.dequeueAll, hkey, hget]
          rw [hr]
          refine ⟨rfl, rfl, fun key => movesOn_of_eq (List.append_nil _).symm ?_⟩
          simp only [passage, returnedTo, List.map_nil, List.append_nil]
      | some messages =>
          have hr : Router.dequeueAll recipient σ.router = .ok messages
              { σ.router with mailboxes := Odict.set σ.router.mailboxes k [] } := by
            simp [Router.dequeueAll, hkey, hget]
          rw [hr]
          refine ⟨rfl, rfl, fun key => movesOn_of_eq (List.append_nil _).symm ?_⟩
          rw [List.append_nil, passage, passage]
          congr 1
          rw [returnedTo, returnedTo, mailboxOf, mailboxOf, List.filter_append, List.map_append,
            returned_by]
          by_cases hk : key = k
          · -- The mailbox moves to what it gave out.
            rw [if_pos hk.symm, hk, hget, Odict.get?_set_self, Option.getD_some, Option.getD_some,
              List.append_nil]
          · rw [if_neg (Ne.symm hk), Odict.get?_set_ne _ hk, List.append_nil]

theorem enqueue_movesOn [AddRightMono T] (hs : Sorted mixed (t :: readings) σ.router)
    (hlater : ∀ t' ∈ readings, t ≤ t') (envelope : Envelope)
    {now : Option T} {clock : T} (ht : now.getD clock = t) (random : Draws T) {whole : Prop} :
    Sorted mixed readings (σ.step (.enqueue envelope mixed now clock random)).router ∧
      ∀ key, MovesOn σ (σ.step (.enqueue envelope mixed now clock random)) key whole := by
  rcases enqueue_files hs.fixed envelope now clock random with
    ⟨e, hr⟩ | ⟨hdelays, hr⟩ | ⟨hdirect, r', hr, hfiles⟩
  · rw [DeliveryRun.step, hr]
    exact ⟨hs.tail, fun key => movesOn_of_eq (List.append_nil _).symm (List.append_nil _).symm⟩
  · rw [DeliveryRun.step, hr, ht]
    refine ⟨⟨hs.fixed, fun hnot => absurd hdelays hnot, ?_, ?_⟩,
      fun key => movesOn_of_eq (List.filter_append ..) ?_⟩
    · rw [List.pairwise_append]
      refine ⟨hs.sorted, List.pairwise_singleton _ _, fun s hmem s' hmem' => ?_⟩
      rw [List.mem_singleton.mp hmem']
      exact hs.later s hmem t List.mem_cons_self
    · intro s hmem t' ht'
      rcases List.mem_append.mp hmem with hold | hnew
      · exact hs.later s hold t' (List.mem_cons_of_mem t ht')
      · rw [List.mem_singleton.mp hnew]
        exact add_le_add_left (hlater t' ht') _
    · rw [passage, passage, scheduledFor, scheduledFor, List.map_append, List.filter_append,
        ← List.append_assoc]
      rfl
  · rw [DeliveryRun.step, hr]
    have hnone := hs.lane hdirect
    refine ⟨hs.tail.sub hfiles.mixRouter (by rw [hfiles.scheduled]),
      fun key => movesOn_of_eq (List.filter_append ..) ?_⟩
    have hempty : scheduledFor σ.router key = [] := by
      rw [scheduledFor, hnone]
      rfl
    have hempty' : scheduledFor r' key = [] := by
      rw [scheduledFor, hfiles.scheduled, hnone]
      rfl
    rw [passage, passage, hempty, hempty', hfiles.mailbox, List.append_nil, List.append_nil,
      ← List.append_assoc]
    rfl

variable [AddRightMono T] {act : RouterAct T} {acts : List (RouterAct T)}

theorem step_movesOn (hs : Sorted mixed ((act :: acts).filterMap reading?) σ.router)
    (hlane : SameLane mixed act)
    (hclock : ((act :: acts).filterMap reading?).Pairwise (· ≤ ·)) :
    Sorted mixed (acts.filterMap reading?) (σ.step act).router ∧
      ∀ key, MovesOn σ (σ.step act) key (DeliversAll σ act) := by
  cases act with
  | enqueue envelope useMix now clock random =>
      obtain rfl : useMix = mixed := hlane
      exact enqueue_movesOn hs (List.pairwise_cons.mp hclock).1 envelope rfl random
  | deliverDue now clock => exact deliverDue_movesOn hs now clock
  | dequeueAll recipient =>
      obtain ⟨hmix, hscheduled, hpasses⟩ := dequeueAll_movesOn (σ := σ) recipient
      exact ⟨hs.sub hmix (by rw [hscheduled]), hpasses⟩

theorem run_movesOn (hs : Sorted mixed (acts.filterMap reading?) σ.router)
    (hlane : ∀ act ∈ acts, SameLane mixed act)
    (hclock : (acts.filterMap reading?).Pairwise (· ≤ ·)) (key : DictKey) :
    ((passage σ key).Sublist (acceptedFor σ key) →
      (passage (runFrom DeliveryRun.step σ acts) key).Sublist
        (acceptedFor (runFrom DeliveryRun.step σ acts) key)) ∧
    (Along DeliveryRun.step DeliversAll σ acts → passage σ key = acceptedFor σ key →
      passage (runFrom DeliveryRun.step σ acts) key
        = acceptedFor (runFrom DeliveryRun.step σ acts) key) := by
  induction acts generalizing σ with
  | nil => exact ⟨fun h => h, fun _ h => h⟩
  | cons act acts ih =>
      have htail : (acts.filterMap reading?).Sublist ((act :: acts).filterMap reading?) :=
        (List.sublist_cons_self act acts).filterMap reading?
      obtain ⟨hs', hpasses⟩ := step_movesOn hs (hlane act List.mem_cons_self) hclock
      obtain ⟨hsub, heq⟩ := ih hs' (fun b hb => hlane b (List.mem_cons_of_mem act hb))
        (hclock.sublist htail)
      obtain ⟨new, haccepted, hgrows, hwhole⟩ := hpasses key
      constructor
      · intro h
        refine hsub ?_
        rw [haccepted]
        exact hgrows.trans (h.append_right new)
      · intro hall h
        refine heq hall.2 ?_
        rw [haccepted, hwhole hall.1, h]

/-- With a fixed delay, or none, and a clock that does not go back, a recipient
gets its envelopes in the order they were accepted in: what its mailbox gave out,
what is in it and what is still scheduled are, in that order, what was accepted
for it, with gaps where `deliver_due` met an envelope it could not route. -/
theorem mailboxes_in_order {mixRouter : Option (MixConfig T)}
    (hfixed : FixedDelay ({ mixRouter := mixRouter } : Router T))
    (hlane : ∀ act ∈ acts, SameLane mixed act)
    (hclock : (acts.filterMap reading?).Pairwise (· ≤ ·)) (key : DictKey) :
    (passage (runFrom DeliveryRun.step { router := { mixRouter := mixRouter } } acts) key).Sublist
      (acceptedFor (runFrom DeliveryRun.step { router := { mixRouter := mixRouter } } acts) key) ∧
    (Along DeliveryRun.step DeliversAll { router := { mixRouter := mixRouter } } acts →
      passage (runFrom DeliveryRun.step { router := { mixRouter := mixRouter } } acts) key
        = acceptedFor (runFrom DeliveryRun.step { router := { mixRouter := mixRouter } } acts)
          key) := by
  have hs : Sorted mixed (acts.filterMap reading?) ({ mixRouter := mixRouter } : Router T) :=
    ⟨hfixed, fun _ => rfl, List.Pairwise.nil, fun _ h => absurd h List.not_mem_nil⟩
  exact ⟨(run_movesOn hs hlane hclock key).1 (List.Sublist.refl _),
    fun hall => (run_movesOn hs hlane hclock key).2 hall rfl⟩

end Step

def toAlice (n : Int) : Envelope := [("recipient_locator", .str "alice"), ("n", .int n)]

def everyDelayTwo : MixConfig Int where
  minDelay := 0
  maxDelay := 0
  deterministicMode := true
  fixedDelaySec := 2

/-- Three envelopes for one recipient; when it looks, one of them is still
scheduled, and it looks only once. -/
def aliceMail : List (RouterAct Int) := [
  .enqueue (toAlice 1) true (some 10) 0 ⟨fun _ _ => 0, fun a _ => a⟩,
  .deliverDue none 12,
  .enqueue (toAlice 2) true none 12 ⟨fun _ _ => 0, fun a _ => a⟩,
  .dequeueAll (.str "alice"),
  .enqueue (toAlice 3) true none 13 ⟨fun _ _ => 0, fun a _ => a⟩,
  .deliverDue (some 14) 0]

/-- The run it ends in. -/
def aliceRun : DeliveryRun Int :=
  runFrom DeliveryRun.step { router := { mixRouter := some everyDelayTwo } } aliceMail

theorem mailboxes_in_order_alice :
    returnedTo aliceRun (.str "alice") = [toAlice 1] ∧
    mailboxOf aliceRun.router (.str "alice") = [toAlice 2] ∧
    scheduledFor aliceRun.router (.str "alice") = [toAlice 3] ∧
    passage aliceRun (.str "alice") = acceptedFor aliceRun (.str "alice") := by
  have hfixed : FixedDelay ({ mixRouter := some everyDelayTwo } : Router Int) := by
    intro config hconfig _
    rw [← Option.some.inj hconfig]
    rfl
  have hlane : ∀ act ∈ aliceMail, SameLane true act := by
    intro act hact
    simp only [aliceMail, List.mem_cons, List.not_mem_nil, or_false] at hact
    rcases hact with rfl | rfl | rfl | rfl | rfl | rfl <;> trivial
  have hclock : (aliceMail.filterMap reading?).Pairwise (· ≤ ·) := by decide
  have hall : Along DeliveryRun.step DeliversAll
      { router := { mixRouter := some everyDelayTwo } } aliceMail := by
    refine ⟨trivial, fun s hs _ => ?_, trivial, trivial, trivial, fun s hs _ => ?_, trivial⟩
    · obtain rfl : s = ⟨12, toAlice 1⟩ := List.mem_singleton.mp hs
      trivial
    · have hs' : s ∈ [(⟨14, toAlice 2⟩ : ScheduledEnvelope Int), ⟨15, toAlice 3⟩] := hs
      simp only [List.mem_cons, List.not_mem_nil, or_false] at hs'
      rcases hs' with rfl | rfl <;> trivial
  exact ⟨by decide +kernel, by decide +kernel, by decide +kernel,
    (mailboxes_in_order hfixed hlane hclock (.str "alice")).2 hall⟩

end GhostChat.Proofs
