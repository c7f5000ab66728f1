import GhostChat.Lib.Run
import GhostChat.Ref.Traffic
import Mathlib.Algebra.Order.Monoid.Unbundled.Basic

/-!
# The timing of what is sent, exactly

The loop of `batch_messages` has an accumulator for the current group and a base
that moves on with each send time, so what an envelope gets is said by its place
in the list alone: with groups of `b`, the envelope at place `k` goes out at the
send time of group `k / b`, and send time `n` is the base with jitters `0` to `n`
added one after the other. Nothing is assumed of the addition; it may round.

The cover traffic scheduler is another matter, since two methods share its timer
and callers mix them as they like. A timer is only ever replaced when it is over,
and by a reading with a drawn interval on top, so it never goes back; that is the
invariant (`Paced`), and it needs no clock that goes forward. The other side of
the same coin is that asking for the time of the next packet at a moment when
one is due puts it off (`postponed_sends_nothing`).
-/

namespace GhostChat.Proofs

open GhostChat.Lib GhostChat.Lib.Effect GhostChat.Ref

/-! ## Groups of envelopes -/

section Batches

variable {T : Type} [Zero T] [Add T] {config : TimingDefenseConfig T} {base : T}
  {random : Nat → Draws T}

/-- A group is closed at one envelope if the size is less than that. -/
def batchSize (config : TimingDefenseConfig T) : Nat := max 1 config.maxBatchSize.toNat

/-- The time group `n` starts from. -/
def groupBase (config : TimingDefenseConfig T) (base : T) (random : Nat → Draws T) : Nat → T
  | 0 => base
  | n + 1 => applyJitter (groupBase config base random n) config (random n)

/-- Envelopes with their send times, the first of them the first of group `n`. -/
def timed (config : TimingDefenseConfig T) (base : T) (random : Nat → Draws T) (n : Nat)
    (envelopes : List Envelope) : List (T × Envelope) :=
  envelopes.zipIdx.map fun e =>
    (groupBase config base random (n + e.2 / batchSize config + 1), e.1)

omit [Zero T] [Add T] in
theorem batchSize_pos : 0 < batchSize config := by
  rw [batchSize]
  omega

omit [Zero T] [Add T] in
theorem closed_iff {n : Nat} (hn : 0 < n) : config.maxBatchSize ≤ n ↔ batchSize config ≤ n := by
  rw [batchSize]
  omega

theorem timed_group {n : Nat} {group : List Envelope} (hlen : group.length ≤ batchSize config) :
    timed config base random n group =
      group.map fun e => (applyJitter (groupBase config base random n) config (random n), e) := by
  apply List.ext_getElem
  · simp [timed]
  · intro k hk hk'
    have hfirst : k / batchSize config = 0 := by
      apply Nat.div_eq_of_lt
      rw [List.length_map] at hk'
      omega
    simp [timed, hfirst, groupBase]

theorem timed_append {n : Nat} {group : List Envelope} (hlen : group.length = batchSize config)
    (rest : List Envelope) : timed config base random n (group ++ rest) =
      timed config base random n group ++ timed config base random (n + 1) rest := by
  rw [timed, List.zipIdx_append, List.map_append]
  congr 1
  apply List.ext_getElem
  · simp [timed]
  · intro k hk hk'
    have hnext : (batchSize config + k) / batchSize config = k / batchSize config + 1 := by
      rw [Nat.add_comm, Nat.add_div_right _ batchSize_pos]
    simp only [timed, List.getElem_map, List.getElem_zipIdx, Nat.zero_add, hlen, hnext]
    congr 2
    omega

/-- The loop in the middle of group `n`, with less than a group in hand. -/
theorem batchLoop_eq (envelopes : List Envelope) {n : Nat} {batched : List (T × Envelope)}
    {batch : List Envelope} (hlen : batch.length < batchSize config) :
    batchLoop config (fun k => random (n + k)) (groupBase config base random n) batched batch
      envelopes = batched ++ timed config base random n (batch ++ envelopes) := by
  induction envelopes generalizing n batched batch with
  | nil =>
      rw [batchLoop, List.append_nil, timed_group (by omega)]
      split
      · next hbatch => rw [hbatch, List.map_nil, List.append_nil]
      · rfl
  | cons env envelopes ih =>
      have hmore : (batch ++ [env]).length ≤ batchSize config := by
        rw [List.length_append, List.length_singleton]
        omega
      have hcons : batch ++ env :: envelopes = (batch ++ [env]) ++ envelopes := by simp
      rw [hcons, batchLoop]
      dsimp only
      split
      · next hfull =>
          -- The group is closed, and the loop is at the start of the next one.
          have hsize : (batch ++ [env]).length = batchSize config :=
            Nat.le_antisymm hmore ((closed_iff (by simp)).mp hfull)
          have hshift : (fun k => random (n + (k + 1))) = fun k => random (n + 1 + k) := by
            funext k
            congr 1
            omega
          rw [hshift, timed_append hsize, timed_group hmore, ← List.append_assoc]
          exact ih batchSize_pos
      · next hopen =>
          refine ih (Nat.lt_of_not_le fun hge => hopen ((closed_iff (by simp)).mpr hge))

/-- Envelope `k` gets the send time of group `k / b`. -/
theorem batchMessages_eq (envelopes : List Envelope) (config : TimingDefenseConfig T)
    (now : Option T) (clock : T) (random : Nat → Draws T) :
    batchMessages envelopes config now clock random =
      timed config (now.getD clock) random 0 envelopes := by
  have h : batchLoop config (fun k => random (0 + k))
      (groupBase config (now.getD clock) random 0) [] [] envelopes =
        [] ++ timed config (now.getD clock) random 0 ([] ++ envelopes) :=
    batchLoop_eq envelopes batchSize_pos
  simpa only [batchMessages, groupBase, Nat.zero_add, List.nil_append] using h

end Batches

/-! ## The mix delays on top -/

section Scheduler

variable {T : Type} [Zero T] [Add T]

/-- Each envelope draws its own delay, and one that cannot be drawn ends the
call. -/
theorem scheduleLoop_ok_iff {config : MixConfig T} {clock : T} {random : Nat → Draws T}
    {batched : List (T × Envelope)} {out : List (ScheduledEnvelope T)} :
    scheduleLoop config clock random batched = .ok out ↔
      out.length = batched.length ∧ ∀ (k : Nat) (hk : k < batched.length), ∃ delay,
        config.sampleDelay (random k) = .ok delay ∧
        out[k]? = some { deliverAt := batched[k].1 + delay, envelope := batched[k].2 } := by
  induction batched generalizing random out with
  | nil =>
      simp only [scheduleLoop, Except.ok.injEq, List.length_nil, List.length_eq_zero_iff]
      exact ⟨fun h => ⟨h.symm, fun k hk => absurd hk (Nat.not_lt_zero k)⟩, fun h => h.1.symm⟩
  | cons first batched ih =>
      obtain ⟨ts, env⟩ := first
      rw [scheduleLoop, MixConfig.scheduleEnvelope]
      constructor
      · intro h
        obtain ⟨s, hs, h⟩ := except_bind_ok h
        obtain ⟨delay, hdelay, hs⟩ := except_bind_ok hs
        obtain ⟨rest, hrest, h⟩ := except_bind_ok h
        obtain rfl := Except.ok.inj hs
        obtain rfl := Except.ok.inj h
        obtain ⟨hlen, hall⟩ := ih.mp hrest
        refine ⟨by simp [hlen], fun k hk => ?_⟩
        cases k with
        | zero => exact ⟨delay, hdelay, rfl⟩
        | succ k => exact hall k (Nat.lt_of_succ_lt_succ hk)
      · intro h
        obtain ⟨hlen, hall⟩ := h
        cases out with
        | nil => cases hlen
        | cons s out =>
            obtain ⟨delay, hdelay, hs⟩ := hall 0 (Nat.zero_lt_succ _)
            have hrest := ih.mpr ⟨Nat.succ.inj hlen, fun k hk => hall (k + 1) (Nat.succ_lt_succ hk)⟩
            obtain rfl := Option.some.inj hs
            rw [hdelay, hrest]
            rfl

/-- `schedule` gives out every envelope once, in the order of the list. The one
at place `k` is delivered a mix delay of its own after the send time of group
`k / b`; without such a delay for each of them there is no result. -/
theorem schedule_ok_iff (s : NetworkScheduler T) (envelopes : List Envelope) (clock : T)
    (jitters delays : Nat → Draws T) (out : List (ScheduledEnvelope T)) :
    s.schedule envelopes clock jitters delays = .ok out ↔
      out.length = envelopes.length ∧ ∀ (k : Nat) (hk : k < envelopes.length), ∃ delay,
        s.mixRouter.sampleDelay (delays k) = .ok delay ∧
        out[k]? = some {
          deliverAt := groupBase s.timingConfig clock jitters
            (k / batchSize s.timingConfig + 1) + delay
          envelope := envelopes[k] } := by
  rw [NetworkScheduler.schedule, batchMessages_eq, scheduleLoop_ok_iff]
  simp [timed]

end Scheduler

/-! ## Cover packets -/

section Cover

variable {T : Type} [LinearOrder T]

/-- The timer is not set, or over at `r`. -/
def Over (s : CoverTrafficScheduler T) (r : T) : Prop := ∀ t, s.nextTime = some t → t ≤ r

theorem isDue_iff {s : CoverTrafficScheduler T} {r : T} : s.isDue r = true ↔ Over s r := by
  rw [CoverTrafficScheduler.isDue, Over]
  cases s.nextTime with
  | none => simp
  | some t => simp

theorem isEarly_iff {s : CoverTrafficScheduler T} {r : T} : s.isEarly r = true ↔ ¬ Over s r := by
  rw [CoverTrafficScheduler.isEarly, Over]
  cases s.nextTime with
  | none => simp
  | some t => simp

variable [AddZeroClass T] {config : CoverTrafficConfig T} {σ : CoverRun T}

/-- The least interval there is. -/
def leastInterval (config : CoverTrafficConfig T) : T :=
  if config.deterministicMode then config.deterministicIntervalSec else config.minInterval

def drawsOf : CoverAct T → Draws T
  | .next _ _ random => random
  | .generate _ _ _ random => random.toDraws

/-- `random.uniform(a, b)` is not below `a`. -/
def NotBelow (config : CoverTrafficConfig T) (random : Draws T) : Prop :=
  config.minInterval ≤ random.uniform config.minInterval config.maxInterval

/-- The packets keep their distance, and the timer keeps it from all of them. -/
structure Paced (config : CoverTrafficConfig T) (σ : CoverRun T) : Prop where
  config_eq : σ.scheduler.config = config
  ahead : ∀ p ∈ σ.packets, ∃ t, σ.scheduler.nextTime = some t ∧
    p.scheduledAt + leastInterval config ≤ t
  apart : σ.packets.Pairwise fun later earlier =>
    earlier.scheduledAt + leastInterval config ≤ later.scheduledAt

omit [AddZeroClass T] in
theorem leastInterval_le {random : Draws T} (h : NotBelow config random) :
    leastInterval config ≤ config.sampleInterval random := by
  rw [leastInterval, CoverTrafficConfig.sampleInterval]
  split
  · exact le_refl _
  · exact h

/-- A call changes nothing, or it found the timer over at its reading `r` and
has set it anew; a packet is one of `r`. -/
theorem coverStep_cases (σ : CoverRun T) (act : CoverAct T) :
    σ.step act = σ ∨ ∃ r, Over σ.scheduler r ∧
      (σ.step act).scheduler = { σ.scheduler with
        nextTime := some (r + σ.scheduler.config.sampleInterval (drawsOf act)) } ∧
      ((σ.step act).packets = σ.packets ∨
        ∃ p, p.scheduledAt = r ∧ (σ.step act).packets = p :: σ.packets) := by
  cases act with
  | next now clock random =>
      rw [CoverRun.step, CoverTrafficScheduler.nextScheduledTime]
      cases σ.scheduler.config.enabled with
      | false => exact Or.inl rfl
      | true =>
          cases hdue : σ.scheduler.isDue (now.getD clock) with
          | false => exact Or.inl (by simp [hdue])
          | true => exact Or.inr ⟨now.getD clock, isDue_iff.mp hdue, by simp [hdue, drawsOf],
              Or.inl rfl⟩
  | generate now clock recipientLocator random =>
      rw [CoverRun.step, CoverTrafficScheduler.maybeGenerateCoverPacket]
      cases σ.scheduler.config.enabled with
      | false => exact Or.inl rfl
      | true =>
          cases hearly : σ.scheduler.isEarly (now.getD clock) with
          | true => exact Or.inl (by simp [hearly])
          | false =>
              have hover : Over σ.scheduler (now.getD clock) := by
                by_contra hnot
                rw [isEarly_iff.mpr hnot] at hearly
                cases hearly
              exact Or.inr ⟨now.getD clock, hover, by simp [hearly, drawsOf],
                Or.inr ⟨_, rfl, by simp [hearly]; rfl⟩⟩

section Spacing

variable [AddLeftMono T]

theorem Paced.step (hleast : 0 ≤ leastInterval config) (h : Paced config σ) {act : CoverAct T}
    (hdrawn : NotBelow config (drawsOf act)) : Paced config (σ.step act) := by
  rcases coverStep_cases σ act with hsame | ⟨r, hover, hscheduler, hpackets⟩
  · rw [hsame]
    exact h
  · -- All packets up to now are a whole interval before `r`.
    have hbefore : ∀ p ∈ σ.packets, p.scheduledAt + leastInterval config ≤ r := by
      intro p hp
      obtain ⟨t, ht, hle⟩ := h.ahead p hp
      exact le_trans hle (hover t ht)
    have hgap : leastInterval config ≤ config.sampleInterval (drawsOf act) :=
      leastInterval_le hdrawn
    have hlater : r ≤ r + config.sampleInterval (drawsOf act) :=
      le_add_of_nonneg_right (le_trans hleast hgap)
    have hconfig : (σ.step act).scheduler.config = config := by
      rw [hscheduler]
      exact h.config_eq
    have htimer : (σ.step act).scheduler.nextTime
        = some (r + config.sampleInterval (drawsOf act)) := by
      rw [hscheduler, h.config_eq]
    rcases hpackets with hnone | ⟨p, hp, hone⟩
    · refine ⟨hconfig, fun q hq => ⟨_, htimer, ?_⟩, by rw [hnone]; exact h.apart⟩
      rw [hnone] at hq
      exact le_trans (hbefore q hq) hlater
    · refine ⟨hconfig, fun q hq => ⟨_, htimer, ?_⟩, ?_⟩
      · rw [hone] at hq
        rcases List.mem_cons.mp hq with heq | hold
        · rw [heq, hp]
          exact add_le_add_right hgap r
        · exact le_trans (hbefore q hold) hlater
      · rw [hone, List.pairwise_cons, hp]
        exact ⟨hbefore, h.apart⟩

/-- Over every run, whatever the order of the two calls and the readings of the
clock, any two cover packets are at least the least interval apart. -/
theorem cover_packets_apart (hleast : 0 ≤ leastInterval config) {acts : List (CoverAct T)}
    (hdrawn : ∀ act ∈ acts, NotBelow config (drawsOf act)) :
    (runFrom CoverRun.step { scheduler := { config := config } } acts).packets.Pairwise
      fun later earlier => earlier.scheduledAt + leastInterval config ≤ later.scheduledAt := by
  have hrun : Along CoverRun.step (fun _ act => NotBelow config (drawsOf act))
      ({ scheduler := { config := config } } : CoverRun T) acts :=
    Along.of_forall hdrawn
  have hstart : Paced config ({ scheduler := { config := config } } : CoverRun T) :=
    ⟨rfl, fun _ hp => absurd hp List.not_mem_nil, List.Pairwise.nil⟩
  exact (Along.invariant (fun _ _ h hdrawn => h.step hleast hdrawn) hstart hrun).apart

/-- Draws that are as low as they may be. -/
def lowDraws : CoverDraws Int where
  millis := fun lo _ => lo
  uniform := fun lo _ => lo
  randint := fun lo _ => lo
  urandom := fun n => List.replicate n 0

def everyThree : CoverTrafficConfig Int where
  minInterval := 3
  maxInterval := 10
  deterministicIntervalSec := 1

/-- A packet, a call that is too early, one that puts the next packet off, and
the clock going back. -/
def coverCalls : List (CoverAct Int) := [
  .generate (some 0) 0 none lowDraws,
  .generate none 2 none lowDraws,
  .next (some 3) 3 lowDraws.toDraws,
  .generate (some 3) 3 none lowDraws,
  .generate (some 1) 1 none lowDraws,
  .generate none 7 (some "bob") lowDraws]

theorem cover_packets_apart_everyThree :
    (runFrom CoverRun.step { scheduler := { config := everyThree } } coverCalls).packets.map
      (fun p => p.scheduledAt) = [7, 0] ∧
    (runFrom CoverRun.step { scheduler := { config := everyThree } } coverCalls).packets.Pairwise
      fun later earlier => earlier.scheduledAt + leastInterval everyThree ≤ later.scheduledAt := by
  have hdrawn : ∀ act ∈ coverCalls, NotBelow everyThree (drawsOf act) := by
    intro act hact
    simp only [coverCalls, List.mem_cons, List.not_mem_nil, or_false] at hact
    rcases hact with rfl | rfl | rfl | rfl | rfl | rfl <;> exact le_refl _
  exact ⟨by decide +kernel, cover_packets_apart (by decide) hdrawn⟩

end Spacing

/-! ## Asking for the next packet when it is due -/

/-- A reading of the clock that is handed to both calls. -/
structure Poll (T : Type) where
  now : T
  random : Draws T
  recipientLocator : Option String
  coverRandom : CoverDraws T

def Poll.acts (p : Poll T) : List (CoverAct T) := [
  .next (some p.now) p.now p.random,
  .generate (some p.now) p.now p.recipientLocator p.coverRandom]

/-- The timer is not over after `next_scheduled_time`. -/
theorem next_not_over (s : CoverTrafficScheduler T) (now clock : T) (random : Draws T)
    (henabled : s.config.enabled = true)
    (hlater : now < now + s.config.sampleInterval random) :
    ¬ Over (s.nextScheduledTime (some now) clock random).2 now := by
  rw [CoverTrafficScheduler.nextScheduledTime, henabled, Option.getD_some]
  cases hdue : s.isDue now with
  | false =>
      intro hover
      rw [isDue_iff.mpr (by simpa [hdue] using hover)] at hdue
      cases hdue
  | true =>
      intro hover
      exact absurd hlater (not_lt_of_ge (hover _ (by simp [hdue])))

theorem poll_silent (σ : CoverRun T) {p : Poll T}
    (hlater : p.now < p.now + σ.scheduler.config.sampleInterval p.random) :
    (runFrom CoverRun.step σ p.acts).packets = σ.packets ∧
      (runFrom CoverRun.step σ p.acts).scheduler.config = σ.scheduler.config := by
  have hconfig : (σ.scheduler.nextScheduledTime (some p.now) p.now p.random).2.config
      = σ.scheduler.config := by
    rw [CoverTrafficScheduler.nextScheduledTime]
    split
    · rfl
    · dsimp only
      split <;> rfl
  cases henabled : σ.scheduler.config.enabled with
  | false =>
      simp [Poll.acts, runFrom, CoverRun.step, CoverTrafficScheduler.nextScheduledTime,
        CoverTrafficScheduler.maybeGenerateCoverPacket, henabled]
  | true =>
      have hearly := isEarly_iff.mpr
        (next_not_over σ.scheduler p.now p.now p.random henabled hlater)
      simp [Poll.acts, runFrom, CoverRun.step, CoverTrafficScheduler.maybeGenerateCoverPacket,
        hconfig, henabled, hearly]

/-- A loop that asks for the time of the next packet before it asks for the
packet, both at one reading of the clock, never gets one. -/
theorem postponed_sends_nothing (s : CoverTrafficScheduler T) {polls : List (Poll T)}
    (hlater : ∀ p ∈ polls, p.now < p.now + s.config.sampleInterval p.random) :
    (runFrom CoverRun.step { scheduler := s } (polls.flatMap Poll.acts)).packets = [] := by
  have hrun : ∀ σ : CoverRun T, σ.scheduler.config = s.config → σ.packets = [] →
      (runFrom CoverRun.step σ (polls.flatMap Poll.acts)).packets = [] := by
    induction polls with
    | nil => exact fun σ _ hnone => hnone
    | cons p polls ih =>
        intro σ hconfig hnone
        have hp := hlater p List.mem_cons_self
        rw [← hconfig] at hp
        obtain ⟨hpackets, hconfig'⟩ := poll_silent σ hp
        rw [List.flatMap_cons, runFrom_append]
        exact ih (fun q hq => hlater q (List.mem_cons_of_mem p hq)) _
          (hconfig'.trans hconfig) (hpackets.trans hnone)
  exact hrun { scheduler := s } rfl rfl

end Cover

end GhostChat.Proofs
