import GhostChat.Proofs.GroupNonces
import GhostChat.Proofs.Linked

/-!
# The trail of a linked session

`decrypt_from` hands an envelope to the ratchet with its header as it came,
and the ratchet authenticates nothing but the ciphertext. What the header says
counts only through the key it selects. So this file follows, for one session
and envelopes of anybody's making, which keys the ratchet ever holds.

The session's root steps are kept newest first, each with the DH output it
folded in, the direction of the chain it opened, and whether it turned: a step
turns when it takes up a remote key that an envelope brought. Before the first
turn a session has the keys it was set up with, and every output is the one
the two sides share. A turn brings in an output that nobody else can have had
at that place, because it takes the own private key and a public key other
than the peer's. Two sessions that ever arrive at one chain have therefore
never turned (`Trail.straight`).

Positions and numbers go together less than one expects. A full store of
skipped keys stops a call with the chain stepped and the counter not, and an
encryption that fails leaves the sending chain ahead of its counter. So a
number is only a lower bound of the position it goes with. The position in
turn is bounded: the replay cache lets 1024 envelopes through, and one envelope
moves a chain by at most 1001.
-/

namespace GhostChat.Proofs

open GhostChat.Lib GhostChat.Lib.Effect GhostChat.Ref

variable {K P C : Type} {c : Crypto K P C} {l : Linking K P} {d : K} {canon : Bytes → Prop}

/-! ## X25519 on proper public keys -/

/-- On the public keys of `canon`, every public key of a private key among
them, X25519 does not fail and an output belongs to one pair of public keys. -/
structure DhIdeal (c : Crypto K P C) (canon : Bytes → Prop) : Prop where
  generated : ∀ p, canon (c.publicKey p)
  length : ∀ {X}, canon X → X.length = 32
  works : ∀ p {X}, canon X → ∃ k, c.sharedKey p X = some k
  pairs : ∀ {p q X Y k}, canon X → canon Y → c.sharedKey p X = some k →
    c.sharedKey q Y = some k →
    (c.publicKey p = c.publicKey q ∧ X = Y) ∨ (X = c.publicKey q ∧ Y = c.publicKey p)

theorem DhIdeal.dhWith (hdh : DhIdeal c canon) (p : P) {X : Bytes} (hX : canon X) :
    ∃ k, Ref.dhWith c (some p) X = .ok k ∧ c.sharedKey p X = some k := by
  obtain ⟨k, hk⟩ := hdh.works p hX
  exact ⟨k, by rw [dhWith_some (hdh.length hX), hk], hk⟩

/-! ## Trails -/

/-- One root step of a session. -/
structure TrailStep (K : Type) where
  sends : Bool
  turn : Bool
  output : K

/-- The name of the chain the newest step opens. -/
def trailName (path : List (TrailStep K)) : List K := path.map (·.output)

/-- No step has turned. -/
def Straight (path : List (TrailStep K)) : Prop := ∀ st ∈ path, st.turn = false

/-- How the steps of a party's session follow each other. -/
inductive Trail (c : Crypto K P C) (l : Linking K P) (d : K) (canon : Bytes → Prop)
    (who : Party) : List (TrailStep K) → Prop
  | start : Trail c l d canon who [⟨who.isInitiator, false, d⟩]
  | on {path : List (TrailStep K)} (sends : Bool) (h : Trail c l d canon who path)
      (hs : Straight path) : Trail c l d canon who (⟨sends, false, d⟩ :: path)
  | turn {path : List (TrailStep K)} {X : Bytes} {k : K} (h : Trail c l d canon who path)
      (hs : Straight path) (hX : canon X) (hne : X ≠ c.publicKey (l.dhs who.other))
      (hk : c.sharedKey (l.dhs who) X = some k) : Trail c l d canon who (⟨false, true, k⟩ :: path)
  | lost {path : List (TrailStep K)} (st : TrailStep K) (h : Trail c l d canon who path)
      (hs : ¬ Straight path) : Trail c l d canon who (st :: path)

theorem Straight.cons {st : TrailStep K} {path : List (TrailStep K)} (h : Straight path)
    (hst : st.turn = false) : Straight (st :: path) := by
  intro st' hmem
  rcases List.mem_cons.mp hmem with rfl | hmem
  · exact hst
  · exact h st' hmem

theorem Straight.tail {st : TrailStep K} {path : List (TrailStep K)}
    (h : Straight (st :: path)) : Straight path :=
  fun st' hmem => h st' (List.mem_cons_of_mem _ hmem)

namespace Trail

variable {who : Party} {path : List (TrailStep K)}

theorem ne_nil (h : Trail c l d canon who path) : path ≠ [] := by
  cases h <;> exact List.cons_ne_nil _ _

/-- What was a trail at some time. -/
theorem suffix (h : Trail c l d canon who path) {suf : List (TrailStep K)}
    (hsuf : suf <:+ path) (hne : suf ≠ []) : Trail c l d canon who suf := by
  have hcons : ∀ {st : TrailStep K} {path : List (TrailStep K)},
      Trail c l d canon who (st :: path) → suf <:+ (st :: path) →
      (suf <:+ path → Trail c l d canon who suf) → Trail c l d canon who suf := by
    intro st path hall hsuf ih
    rcases List.suffix_cons_iff.mp hsuf with rfl | hsuf
    · exact hall
    · exact ih hsuf
  induction h with
  | start =>
      refine hcons .start hsuf fun hsuf => ?_
      exact absurd (List.suffix_nil.mp hsuf) hne
  | on sends h hs ih => exact hcons (.on sends h hs) hsuf ih
  | turn h hs hX hne hk ih => exact hcons (.turn h hs hX hne hk) hsuf ih
  | lost st h hs ih => exact hcons (.lost st h hs) hsuf ih

/-- The newest of several steps: an ordinary one, a turn, or one after a
turn. -/
theorem cases_cons {st : TrailStep K} (h : Trail c l d canon who (st :: path))
    (hpath : path ≠ []) :
    Trail c l d canon who path ∧ ((Straight path ∧ st.turn = false ∧ st.output = d) ∨
      (Straight path ∧ ∃ X, canon X ∧ X ≠ c.publicKey (l.dhs who.other) ∧
        c.sharedKey (l.dhs who) X = some st.output) ∨ ¬ Straight path) := by
  cases h with
  | start => exact absurd rfl hpath
  | on sends h hs => exact ⟨h, Or.inl ⟨hs, rfl, rfl⟩⟩
  | turn h hs hX hne hk => exact ⟨h, Or.inr (Or.inl ⟨hs, _, hX, hne, hk⟩)⟩
  | lost st h hs => exact ⟨h, Or.inr (Or.inr hs)⟩

end Trail

section Straight

variable (hdh : DhIdeal c canon)
  (hshared : ∀ who, c.sharedKey (l.dhs who) (c.publicKey (l.dhs who.other)) = some d)
  (hdistinct : ∀ who, c.publicKey (l.dhs who) ≠ c.publicKey (l.dhs who.other))

include hdh hdistinct in
/-- A turn brings in an output the other side does not have there. -/
theorem turn_alone {who : Party} {X Y : Bytes} {k : K} (hX : canon X)
    (hne : X ≠ c.publicKey (l.dhs who.other)) (hk : c.sharedKey (l.dhs who) X = some k)
    (hY : canon Y) (hk' : c.sharedKey (l.dhs who.other) Y = some k) : False := by
  rcases hdh.pairs hX hY hk hk' with ⟨hpub, -⟩ | ⟨hXpub, -⟩
  · exact hdistinct who hpub
  · exact hne hXpub

include hdh hshared hdistinct in
/-- Two sessions at one chain have not turned on the way. -/
theorem Trail.straight {who : Party} {p p' : List (TrailStep K)} (h : Trail c l d canon who p)
    (h' : Trail c l d canon who.other p') (hname : trailName p = trailName p') :
    Straight p ∧ Straight p' := by
  induction p generalizing p' with
  | nil => exact absurd rfl h.ne_nil
  | cons st path ih =>
      cases p' with
      | nil => exact absurd rfl h'.ne_nil
      | cons st' path' =>
          obtain ⟨hout, hrest⟩ : st.output = st'.output ∧ trailName path = trailName path' :=
            List.cons.inj hname
          have hlen : path.length = path'.length := by
            have := congrArg List.length hrest
            rwa [trailName, trailName, List.length_map, List.length_map] at this
          by_cases hpath : path = []
          · subst hpath
            obtain rfl : path' = [] := List.length_eq_zero_iff.mp hlen.symm
            have hsingle : ∀ {w : Party} {st : TrailStep K}, Trail c l d canon w [st] →
                Straight [st] := by
              intro w st h
              cases h with
              | start => exact fun st hmem => by rw [List.mem_singleton.mp hmem]
              | on _ h _ => exact absurd rfl h.ne_nil
              | turn h => exact absurd rfl h.ne_nil
              | lost _ h _ => exact absurd rfl h.ne_nil
            exact ⟨hsingle h, hsingle h'⟩
          · have hpath' : path' ≠ [] := by
              rintro rfl
              exact hpath (List.length_eq_zero_iff.mp hlen)
            obtain ⟨ht, hst⟩ := h.cases_cons hpath
            obtain ⟨ht', hst'⟩ := h'.cases_cons hpath'
            obtain ⟨hs, hs'⟩ := ih ht ht' hrest
            have hcanon := fun w => hdh.generated (l.dhs w)
            -- On straight trails the newest step turns on neither side.
            rcases hst with ⟨-, hturn, houtput⟩ | ⟨-, X, hX, hne, hk⟩ | hlost
            · rcases hst' with ⟨-, hturn', -⟩ | ⟨-, Y, hY, hne', hk'⟩ | hlost'
              · exact ⟨hs.cons hturn, hs'.cons hturn'⟩
              · rw [← hout, houtput] at hk'
                have hmine := hshared who
                rw [← Party.other_other who] at hmine
                exact (turn_alone hdh hdistinct hY hne' hk' (hcanon _) hmine).elim
              · exact absurd hs' hlost'
            · rcases hst' with ⟨-, -, houtput'⟩ | ⟨-, Y, hY, -, hk'⟩ | hlost'
              · rw [hout, houtput'] at hk
                exact (turn_alone hdh hdistinct hX hne hk (hcanon _) (hshared _)).elim
              · rw [← hout] at hk'
                exact (turn_alone hdh hdistinct hX hne hk hY hk').elim
              · exact absurd hs' hlost'
            · exact absurd hs hlost

end Straight
end GhostChat.Proofs
