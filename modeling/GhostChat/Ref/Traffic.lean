import GhostChat.Ref.MessageApi
import GhostChat.Ref.Router

/-!
# When things are sent (network/)

`batch_messages` cuts a list of envelopes into groups and gives each group one
send time, a jitter after that of the group before it; `NetworkScheduler` then
adds a mix delay of its own to each envelope. The cover traffic scheduler keeps
one time, the next one at which a cover packet may go out. It has two methods
that look at it, and both replace it when it is over.

As in the router, times are what can be added and compared, `time.time()` is
handed in with each call, and so is what the random module draws: for a loop
that draws several times, the draws in order.
-/

namespace GhostChat.Ref

open GhostChat.Lib

variable {T : Type} [Zero T] [Add T] [LE T] [DecidableLE T] [LT T] [DecidableLT T]

/-! ## Batches (network/timing_defense.py) -/

structure TimingDefenseConfig (T : Type) where
  minJitter : T
  maxJitter : T
  maxBatchSize : Int := 8
  useDeterministic : Bool := false

def TimingDefenseConfig.sampleJitter (config : TimingDefenseConfig T) (random : Draws T) : T :=
  if config.useDeterministic then 0 else random.uniform config.minJitter config.maxJitter

def applyJitter (baseTime : T) (config : TimingDefenseConfig T) (random : Draws T) : T :=
  baseTime + config.sampleJitter random

/-- The loop of `batch_messages` and the `if batch` after it. -/
def batchLoop (config : TimingDefenseConfig T) : (random : Nat → Draws T) → (base : T) →
    (batched : List (T × Envelope)) → (batch : List Envelope) → List Envelope →
    List (T × Envelope)
  | random, base, batched, batch, [] =>
      if batch = [] then batched
      else
        let sendTime := applyJitter base config (random 0)
        batched ++ batch.map fun e => (sendTime, e)
  | random, base, batched, batch, env :: envelopes =>
      let batch := batch ++ [env]
      if config.maxBatchSize ≤ batch.length then
        let sendTime := applyJitter base config (random 0)
        batchLoop config (fun n => random (n + 1)) sendTime
          (batched ++ batch.map fun e => (sendTime, e)) [] envelopes
      else batchLoop config random base batched batch envelopes

def batchMessages (envelopes : List Envelope) (config : TimingDefenseConfig T) (now : Option T)
    (clock : T) (random : Nat → Draws T) : List (T × Envelope) :=
  batchLoop config random (now.getD clock) [] [] envelopes

/-! ## The scheduler (network/scheduler.py) -/

structure NetworkScheduler (T : Type) where
  mixRouter : MixConfig T
  timingConfig : TimingDefenseConfig T

/-- The loop of `schedule`. -/
def scheduleLoop (config : MixConfig T) (clock : T) :
    (random : Nat → Draws T) → List (T × Envelope) → Except Exn (List (ScheduledEnvelope T))
  | _, [] => .ok []
  | random, (ts, env) :: batched => do
      let first ← config.scheduleEnvelope env (some ts) clock (random 0)
      let rest ← scheduleLoop config clock (fun n => random (n + 1)) batched
      return first :: rest

/-- `schedule`; the jitters are all drawn before the delays. -/
def NetworkScheduler.schedule (s : NetworkScheduler T) (envelopes : List Envelope) (clock : T)
    (jitters delays : Nat → Draws T) : Except Exn (List (ScheduledEnvelope T)) :=
  scheduleLoop s.mixRouter clock delays
    (batchMessages envelopes s.timingConfig none clock jitters)

/-! ## Cover traffic (network/cover_traffic.py) -/

structure CoverTrafficConfig (T : Type) where
  enabled : Bool := true
  minInterval : T
  maxInterval : T
  deterministicMode : Bool := false
  deterministicIntervalSec : T
  recipientLocator : String := "cover"

/-- A draw with `random.randint` for whole numbers and `os.urandom`. -/
structure CoverDraws (T : Type) extends Draws T where
  randint : Nat → Nat → Nat
  urandom : Nat → Bytes

def CoverTrafficConfig.sampleInterval (config : CoverTrafficConfig T) (random : Draws T) : T :=
  if config.deterministicMode then config.deterministicIntervalSec
  else random.uniform config.minInterval config.maxInterval

structure CoverPacket (T : Type) where
  envelope : Envelope
  scheduledAt : T

structure CoverTrafficScheduler (T : Type) where
  config : CoverTrafficConfig T
  nextTime : Option T := none

namespace CoverTrafficScheduler

/-- `self._next_time is None or self._next_time <= now_ts`. -/
def isDue (s : CoverTrafficScheduler T) (nowTs : T) : Bool :=
  match s.nextTime with
  | none => true
  | some t => t ≤ nowTs

/-- What `next_scheduled_time` returns, and the scheduler it leaves. -/
def nextScheduledTime (s : CoverTrafficScheduler T) (now : Option T) (clock : T)
    (random : Draws T) : Option T × CoverTrafficScheduler T :=
  if !s.config.enabled then (none, s)
  else
    let nowTs := now.getD clock
    let s := if s.isDue nowTs then
        { s with nextTime := some (nowTs + s.config.sampleInterval random) }
      else s
    (s.nextTime, s)

/-- `self._next_time is not None and now_ts < self._next_time`. -/
def isEarly (s : CoverTrafficScheduler T) (nowTs : T) : Bool :=
  match s.nextTime with
  | none => false
  | some t => nowTs < t

/-- `recipient_locator or self.config.recipient_locator`. -/
def locatorFor (s : CoverTrafficScheduler T) : Option String → String
  | none => s.config.recipientLocator
  | some locator => if locator = "" then s.config.recipientLocator else locator

def maybeGenerateCoverPacket (s : CoverTrafficScheduler T) (now : Option T) (clock : T)
    (recipientLocator : Option String) (random : CoverDraws T) :
    Option (CoverPacket T) × CoverTrafficScheduler T :=
  if !s.config.enabled then (none, s)
  else
    let nowTs := now.getD clock
    if s.isEarly nowTs then (none, s)
    else
      let payloadLen := if !s.config.deterministicMode then random.randint 64 256 else 64
      let envelope := makeDummySealedOuter (s.locatorFor recipientLocator) 0
        (random.urandom (dummySize payloadLen))
      (some { envelope := envelope, scheduledAt := nowTs },
        { s with nextTime := some (nowTs + s.config.sampleInterval random.toDraws) })

end CoverTrafficScheduler

/-! ## Runs of the cover traffic scheduler -/

inductive CoverAct (T : Type) where
  | next (now : Option T) (clock : T) (random : Draws T)
  | generate (now : Option T) (clock : T) (recipientLocator : Option String)
      (random : CoverDraws T)

/-- A scheduler with the packets it gave out, newest first. -/
structure CoverRun (T : Type) where
  scheduler : CoverTrafficScheduler T
  packets : List (CoverPacket T) := []

def CoverRun.step (σ : CoverRun T) : CoverAct T → CoverRun T
  | .next now clock random =>
      { σ with scheduler := (σ.scheduler.nextScheduledTime now clock random).2 }
  | .generate now clock recipientLocator random =>
      let r := σ.scheduler.maybeGenerateCoverPacket now clock recipientLocator random
      { scheduler := r.2, packets := r.1.toList ++ σ.packets }

end GhostChat.Ref
