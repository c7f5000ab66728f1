import GhostChat.Ref.SealedSender

/-!
# The mailbox router (server/router.py, network/mix_router.py)

An envelope goes into the mailbox of its recipient at once, or it is scheduled
with a random delay and goes there when `deliver_due` finds it due. The
recipient of a scheduled envelope is looked up then, not before. `deliver_due`
takes what is due out of the list first and files it one by one, so an
exception on the way leaves the rest of it in a local variable.

Times are floats in the source; all that is done with them is one addition and
one comparison, and nothing is assumed of either. What `time.time()` returns and
what the random module draws is given with each call.
-/

namespace GhostChat.Ref

open GhostChat.Lib GhostChat.Lib.Effect

/-- An envelope as a dict. -/
abbrev Envelope := List (String × Json)

/-! ## Delays (network/mix_router.py) -/

structure MixConfig (T : Type) where
  enabled : Bool := true
  minDelay : T
  maxDelay : T
  minDelayMs : Option Int := none
  maxDelayMs : Option Int := none
  deterministicMode : Bool := false
  fixedDelaySec : T

/-- `random.randint(a, b) / 1000.0` and `random.uniform(a, b)`. -/
structure Draws (T : Type) where
  millis : Int → Int → T
  uniform : T → T → T

structure ScheduledEnvelope (T : Type) where
  deliverAt : T
  envelope : Envelope

variable {T : Type} [Zero T] [Add T] [LE T] [DecidableLE T]

/-- `sample_delay`: `random.randint` has no number to return between bounds that
are out of order. -/
def MixConfig.sampleDelay (config : MixConfig T) (random : Draws T) : Except Exn T :=
  if !config.enabled then .ok 0
  else if config.deterministicMode then .ok config.fixedDelaySec
  else
    match config.minDelayMs, config.maxDelayMs with
    | some minMs, some maxMs =>
        if maxMs < minMs then .error (.valueError "empty range in randint")
        else .ok (random.millis minMs maxMs)
    | _, _ => .ok (random.uniform config.minDelay config.maxDelay)

def MixConfig.scheduleEnvelope (config : MixConfig T) (envelope : Envelope) (now : Option T)
    (clock : T) (random : Draws T) : Except Exn (ScheduledEnvelope T) := do
  let delay ← config.sampleDelay random
  return { deliverAt := now.getD clock + delay, envelope := envelope }

/-! ## Mailboxes (server/router.py) -/

/-- `get_routing_recipient`. -/
def getRoutingRecipient (envelope : Envelope) : Except Exn Json :=
  match Odict.get? envelope "recipient_locator" with
  | some locator => .ok locator
  | none =>
      let recipient := Json.get envelope "recipient"
      if recipient.truthy then .ok recipient
      else .error (.valueError "Envelope has no recipient_locator or recipient")

structure Router (T : Type) where
  mailboxes : Odict DictKey (List Envelope) := []
  mixRouter : Option (MixConfig T) := none
  scheduled : List (ScheduledEnvelope T) := []

namespace Router

def enqueue (recipient : Json) (envelope : Envelope) : EStateM Exn (Router T) Unit := do
  let key ← lift recipient.dictKey
  modify fun r => { r with
    mailboxes := Odict.set r.mailboxes key ((Odict.get? r.mailboxes key).getD [] ++ [envelope]) }

def enqueueByEnvelope (envelope : Envelope) (useMix : Bool) (now : Option T) (clock : T)
    (random : Draws T) : EStateM Exn (Router T) Unit := do
  let r ← get
  match r.mixRouter with
  | some config =>
      if useMix && config.enabled then
        let scheduled ← lift (config.scheduleEnvelope envelope now clock random)
        modify fun r => { r with scheduled := r.scheduled ++ [scheduled] }
      else
        let recipient ← lift (getRoutingRecipient envelope)
        enqueue recipient envelope
  | none =>
      let recipient ← lift (getRoutingRecipient envelope)
      enqueue recipient envelope

/-- The second loop of `deliver_due`. -/
def deliverAll : List (ScheduledEnvelope T) → EStateM Exn (Router T) Unit
  | [] => pure ()
  | s :: due => do
      let recipient ← lift (getRoutingRecipient s.envelope)
      enqueue recipient s.envelope
      deliverAll due

def deliverDue (now : Option T) (clock : T) : EStateM Exn (Router T) Nat := do
  let nowTs := now.getD clock
  let r ← get
  let due := r.scheduled.filter (·.deliverAt ≤ nowTs)
  let remaining := r.scheduled.filter fun s => ¬ s.deliverAt ≤ nowTs
  modify fun r => { r with scheduled := remaining }
  deliverAll due
  return due.length

def dequeueAll (recipient : Json) : EStateM Exn (Router T) (List Envelope) := do
  let key ← lift recipient.dictKey
  let r ← get
  match Odict.get? r.mailboxes key with
  | none => return []
  | some messages =>
      modify fun r => { r with mailboxes := Odict.set r.mailboxes key [] }
      return messages

end Router

/-! ## Runs -/

inductive RouterAct (T : Type) where
  | enqueue (envelope : Envelope) (useMix : Bool) (now : Option T) (clock : T)
      (random : Draws T)
  | deliverDue (now : Option T) (clock : T)
  | dequeueAll (recipient : Json)

/-- A router, with the envelopes that were accepted and those that were
returned so far. -/
structure RouterRun (T : Type) where
  router : Router T
  accepted : List Envelope := []
  returned : List Envelope := []

def RouterRun.step (σ : RouterRun T) : RouterAct T → RouterRun T
  | .enqueue envelope useMix now clock random =>
      match Router.enqueueByEnvelope envelope useMix now clock random σ.router with
      | .ok _ r => { σ with router := r, accepted := envelope :: σ.accepted }
      | .error _ r => { σ with router := r }
  | .deliverDue now clock => { σ with router := after (Router.deliverDue now clock σ.router) }
  | .dequeueAll recipient =>
      match Router.dequeueAll recipient σ.router with
      | .ok envelopes r => { σ with router := r, returned := envelopes ++ σ.returned }
      | .error _ r => { σ with router := r }

/-- A router, with what was accepted and what each mailbox gave out, both in
order. -/
structure DeliveryRun (T : Type) where
  router : Router T
  accepted : List Envelope := []
  returned : List (DictKey × Envelope) := []

def DeliveryRun.step (σ : DeliveryRun T) : RouterAct T → DeliveryRun T
  | .enqueue envelope useMix now clock random =>
      match Router.enqueueByEnvelope envelope useMix now clock random σ.router with
      | .ok _ r => { σ with router := r, accepted := σ.accepted ++ [envelope] }
      | .error _ r => { σ with router := r }
  | .deliverDue now clock => { σ with router := after (Router.deliverDue now clock σ.router) }
  | .dequeueAll recipient =>
      match recipient.dictKey, Router.dequeueAll recipient σ.router with
      | .ok key, .ok envelopes r =>
          { σ with router := r, returned := σ.returned ++ envelopes.map fun e => (key, e) }
      | _, r => { σ with router := after r }

end GhostChat.Ref
