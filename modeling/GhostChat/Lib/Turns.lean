import Mathlib.Data.List.Count
import Mathlib.Logic.Function.Basic
import Mathlib.Tactic.Common

/-!
# Writing in turns

Two parties write notes to each other over channels that lose notes and keep
their order. A note is stamped with its writer's key, its number under that
key, and the length of the run under the key before. A party starts a new run
when it hears a note under a key of the other one that it does not answer yet.

What the stamps of one writer look like is `Numbered`: a run counts up from
zero, and the first note of the next one says how long it was. For that a
writer must not turn twice without writing in between, and no writer can see
this about itself. It is the business of the two together (`Lead`): at any time
one of them leads. Whatever is under way to the leader is under the key it
answers, so only the other one can turn, and only on the leader's last run;
and it has written since it turned, for that is how the leader came to lead.
When it turns, they change places.

Nothing here asks keys to be different. Only the exact count of the notes under
a key does (`Numbered.counted`), which is about the keys and not the runs.
-/

namespace GhostChat.Lib.Turns

variable {κ : Type}

structure Stamp (κ : Type) where
  key : κ
  prev : Int
  num : Int
  deriving DecidableEq

/-! ## The stamps of one writer -/

/-- Newest first. -/
inductive Numbered : List (Stamp κ) → Prop
  | nil : Numbered []
  | first (key : κ) : Numbered [⟨key, 0, 0⟩]
  | next {st : Stamp κ} {l : List (Stamp κ)} (h : Numbered (st :: l)) :
      Numbered (⟨st.key, st.prev, st.num + 1⟩ :: st :: l)
  | turn {st : Stamp κ} {l : List (Stamp κ)} (key : κ) (h : Numbered (st :: l)) :
      Numbered (⟨key, st.num + 1, 0⟩ :: st :: l)

theorem Numbered.tail {st : Stamp κ} {l : List (Stamp κ)} (h : Numbered (st :: l)) :
    Numbered l := by
  cases h with
  | first => exact .nil
  | next h => exact h
  | turn _ h => exact h

theorem Numbered.oldest {st : Stamp κ} (h : Numbered [st]) : st.prev = 0 ∧ st.num = 0 := by
  cases h
  exact ⟨rfl, rfl⟩

/-- The newest of several notes goes on, or starts a run. -/
theorem Numbered.newest {st st' : Stamp κ} {l : List (Stamp κ)} (h : Numbered (st :: st' :: l)) :
    (st.num = st'.num + 1 ∧ st.prev = st'.prev) ∨ (st.num = 0 ∧ st.prev = st'.num + 1) := by
  cases h with
  | next h => exact Or.inl ⟨rfl, rfl⟩
  | turn key h => exact Or.inr ⟨rfl, rfl⟩

theorem Numbered.num_nonneg {l : List (Stamp κ)} (h : Numbered l) : ∀ st ∈ l, 0 ≤ st.num := by
  induction h with
  | nil => nofun
  | first key =>
      intro st hst
      obtain rfl := List.mem_singleton.mp hst
      exact Int.le_refl 0
  | @next st l h ih =>
      intro st' hst
      rcases List.mem_cons.mp hst with rfl | hst
      · have := ih st List.mem_cons_self
        show 0 ≤ st.num + 1
        omega
      · exact ih st' hst
  | turn key h ih =>
      intro st hst
      rcases List.mem_cons.mp hst with rfl | hst
      · exact Int.le_refl 0
      · exact ih st hst

/-- Within the newest run the numbers count down. -/
theorem Numbered.run {st : Stamp κ} {l : List (Stamp κ)} (h : Numbered (st :: l)) {k : Nat}
    (hk : (k : Int) < st.num) : ∃ st', l[k]? = some st' ∧ st'.num = st.num - 1 - k := by
  induction k generalizing st l with
  | zero =>
      cases h with
      | first => exact absurd hk (Int.lt_irrefl 0)
      | @next st' l h => exact ⟨st', rfl, by show st'.num = st'.num + 1 - 1 - 0; omega⟩
      | turn key h => exact absurd hk (Int.lt_irrefl 0)
  | succ k ih =>
      push_cast at hk
      cases h with
      | first => exact absurd hk (by show ¬ ((k : Int) + 1 < 0); omega)
      | @next st' l h =>
          have hk : (k : Int) + 1 < st'.num + 1 := hk
          obtain ⟨st₁, hget, hnum⟩ := ih h (by omega)
          refine ⟨st₁, hget, ?_⟩
          show st₁.num = st'.num + 1 - 1 - ((k + 1 : Nat) : Int)
          push_cast
          omega
      | turn key h => exact absurd hk (by show ¬ ((k : Int) + 1 < 0); omega)

/-! ### Runs that can be told by their keys -/

section Counted

/-- The keys of the notes. -/
def keys (l : List (Stamp κ)) : List κ := l.map (·.key)

/-- Every run has a key of its own. -/
def OwnKeys : List (Stamp κ) → Prop
  | [] => True
  | st :: l => (st.num = 0 → st.key ∉ keys l) ∧ OwnKeys l

variable [BEq κ] [LawfulBEq κ]

omit [LawfulBEq κ] in
/-- How many there are of the newest key that is another one. -/
def underPrevious (key : κ) (l : List κ) : Nat :=
  match l.find? (· != key) with
  | none => 0
  | some other => l.count other

/-- With its key counted, a run's newest number is one less than its length. -/
theorem Numbered.count_head {st : Stamp κ} {l : List (Stamp κ)} (h : Numbered (st :: l))
    (hown : OwnKeys (st :: l)) : ((keys (st :: l)).count st.key : Int) = st.num + 1 := by
  induction l generalizing st with
  | nil =>
      cases h
      simp [keys]
  | cons st' l ih =>
      rw [keys, List.map_cons, List.count_cons_self]
      cases h with
      | next h => rw [Int.natCast_succ, ← ih h hown.2]; rfl
      | turn key h =>
          have hnew : key ∉ (st' :: l).map (·.key) := hown.1 rfl
          rw [List.count_eq_zero.mpr hnew]
          rfl

/-- A stamp says how many notes there were under its key, and under the one
before. -/
theorem Numbered.counted {st : Stamp κ} {l : List (Stamp κ)} (h : Numbered (st :: l))
    (hown : OwnKeys (st :: l)) :
    st.num = (keys l).count st.key ∧ st.prev = underPrevious st.key (keys l) := by
  induction l generalizing st with
  | nil =>
      cases h
      exact ⟨rfl, rfl⟩
  | cons st' l ih =>
      cases h with
      | next h =>
          refine ⟨(h.count_head hown.2).symm, ?_⟩
          have hprev := (ih h hown.2).2
          rw [underPrevious] at hprev
          rw [underPrevious, keys, List.map_cons, List.find?_cons_of_neg (by simp), ← keys]
          cases hfind : (keys l).find? (· != st'.key) with
          | none =>
              rw [hfind] at hprev
              exact hprev
          | some key =>
              have hne : st'.key ≠ key := by
                have hother := List.find?_some hfind
                exact Ne.symm (bne_iff_ne.mp hother)
              rw [hfind] at hprev
              simp only [List.count_cons_of_ne hne]
              exact hprev
      | turn key h =>
          have hnew : key ∉ keys (st' :: l) := hown.1 rfl
          have hne : st'.key ≠ key := fun he => hnew (by rw [← he]; exact List.mem_cons_self)
          refine ⟨?_, ?_⟩
          · rw [List.count_eq_zero.mpr hnew]
            rfl
          · rw [underPrevious, keys, List.map_cons, List.find?_cons_of_pos (by simpa using hne)]
            exact (h.count_head hown.2).symm

omit [BEq κ] [LawfulBEq κ] in
/-- Under its own key a run only counts up. -/
theorem Numbered.above {st : Stamp κ} {l : List (Stamp κ)} (h : Numbered (st :: l))
    (hown : OwnKeys (st :: l)) {st' : Stamp κ} (hmem : st' ∈ l) (hkey : st'.key = st.key) :
    st'.num < st.num := by
  induction l generalizing st with
  | nil => cases hmem
  | cons st₁ l ih =>
      cases h with
      | next h =>
          show st'.num < st₁.num + 1
          rcases List.mem_cons.mp hmem with rfl | hmem
          · omega
          · have := ih h hown.2 hmem hkey
            omega
      | turn key h => exact absurd (hkey ▸ List.mem_map_of_mem hmem) (hown.1 rfl)

omit [BEq κ] [LawfulBEq κ] in
/-- The same by position, counted from the oldest. -/
theorem Numbered.climbs {l : List (Stamp κ)} (h : Numbered l) (hown : OwnKeys l) {i j : Nat}
    {st st' : Stamp κ} (hi : l.reverse[i]? = some st) (hj : l.reverse[j]? = some st')
    (hij : i < j) (hkey : st.key = st'.key) : st.num < st'.num := by
  induction l with
  | nil => cases hi
  | cons st₁ l ih =>
      have hlt := (List.getElem?_eq_some_iff.mp hj).1
      rw [List.length_reverse, List.length_cons] at hlt
      rw [List.reverse_cons, List.getElem?_append_left (by rw [List.length_reverse]; omega)] at hi
      rcases Nat.lt_or_ge j l.length with hlt' | hge
      · rw [List.reverse_cons, List.getElem?_append_left (by rwa [List.length_reverse])] at hj
        exact ih h.tail hown.2 hi hj
      · have hj' : j = l.reverse.length := by rw [List.length_reverse]; omega
        rw [List.reverse_cons, hj', List.getElem?_concat_length] at hj
        cases hj
        exact h.above hown (List.mem_reverse.mp (List.mem_of_getElem? hi)) hkey

end Counted

/-! ## One party -/

/-- What a party would stamp its next note with, the key of the other party it
answers, whether it may not write yet, its notes (newest first), and how many
notes of the other one it has behind it. -/
structure Side (κ : Type) where
  upcoming : Stamp κ
  remote : Option κ
  mute : Prop
  written : List (Stamp κ)
  passed : Nat

namespace Side

/-- The next note is written. -/
def write (s : Side κ) : Side κ := { s with
  upcoming := ⟨s.upcoming.key, s.upcoming.prev, s.upcoming.num + 1⟩
  written := s.upcoming :: s.written }

/-- Note number `i` of the other party is heard, or given up. -/
def pass (s : Side κ) (i : Nat) : Side κ := { s with passed := i + 1 }

/-- It is heard, under a new key of the other party, and answered under `own`. -/
def turn (s : Side κ) (remote own : κ) (i : Nat) : Side κ := { s with
  upcoming := ⟨own, s.upcoming.num, 0⟩
  remote := some remote
  mute := False
  passed := i + 1 }

/-- Note number `i`, counted from the oldest. -/
def note (s : Side κ) (i : Nat) : Option (Stamp κ) := s.written.reverse[i]?

theorem note_lt {s : Side κ} {i : Nat} {st : Stamp κ} (h : s.note i = some st) :
    i < s.written.length := by
  have := (List.getElem?_eq_some_iff.mp h).1
  rwa [List.length_reverse] at this

theorem note_write {s : Side κ} {i : Nat} {st : Stamp κ} (h : s.write.note i = some st) :
    s.note i = some st ∨ (i = s.written.length ∧ st = s.upcoming) := by
  have hi := note_lt h
  rw [note, write, List.reverse_cons] at h
  rcases Nat.lt_or_ge i s.written.length with hlt | hge
  · rw [List.getElem?_append_left (by simpa using hlt)] at h
    exact Or.inl h
  · have hlen : i = s.written.length := by
      have : i < s.written.length + 1 := hi
      omega
    rw [List.getElem?_append_right (by simpa using hge), hlen, List.length_reverse,
      Nat.sub_self] at h
    exact Or.inr ⟨hlen, (Option.some.inj h).symm⟩

end Side

/-- The next note continues what is written. -/
def Poised (s : Side κ) : Prop := Numbered (s.upcoming :: s.written)

theorem Poised.write {s : Side κ} (h : Poised s) : Poised s.write := .next h

/-- A turn keeps the numbering of a party that has written since the last one. -/
theorem Poised.turn {s : Side κ} (h : Poised s) (hbegun : s.written = [] ∨ 1 ≤ s.upcoming.num)
    (remote own : κ) (i : Nat) : Poised (s.turn remote own i) := by
  obtain ⟨⟨key, prev, num⟩, r, m, written, p⟩ := s
  cases h with
  | first => exact .first own
  | next h => exact Numbered.turn own h
  | turn key' h =>
      rcases hbegun with hempty | hpos
      · cases hempty
      · exact absurd hpos (by show ¬ (1 : Int) ≤ 0; omega)

/-- The notes of the run a party is in, and the one to come, have numbers past
one another. -/
theorem Poised.later {s : Side κ} (h : Poised s) {i : Nat} {st : Stamp κ}
    (hst : s.note i = some st) (hrun : (s.written.length : Int) ≤ i + s.upcoming.num) :
    st.num = s.upcoming.num - s.written.length + i := by
  have hlt := Side.note_lt hst
  rw [Side.note, List.getElem?_reverse hlt] at hst
  obtain ⟨st', hget, hnum⟩ := Numbered.run h (k := s.written.length - 1 - i) (by omega)
  rw [hget] at hst
  cases hst
  omega

/-! ## Two parties -/

/-- `q` leads, `f` follows. -/
structure Lead (q f : Side κ) : Prop where
  leader : Poised q
  follower : Poised f
  /-- The leader answers the follower's key, or there is nothing to answer. -/
  answers : q.remote = some f.upcoming.key ∨ (f.mute ∧ f.written = [])
  /-- Under way to the leader. -/
  toLeader : ∀ i st, q.passed ≤ i → f.note i = some st → q.remote = some st.key
  /-- Under way to the follower: the leader's last run, and before it what the
  follower answers. -/
  toFollower : ∀ i st, f.passed ≤ i → q.note i = some st →
    if (i : Int) + q.upcoming.num < q.written.length then f.remote = some st.key
    else st.key = q.upcoming.key
  begun : f.written = [] ∨ 1 ≤ f.upcoming.num

namespace Lead

variable {q f : Side κ} {i : Nat} {st : Stamp κ}

theorem start (hq : q.written = []) (hf : f.written = []) (hq₀ : Poised q) (hf₀ : Poised f)
    (h : q.remote = some f.upcoming.key ∨ f.mute) : Lead q f where
  leader := hq₀
  follower := hf₀
  answers := h.imp_right fun hm => ⟨hm, hf⟩
  toLeader := fun i st _ hst => by
    rw [Side.note, hf] at hst
    cases hst
  toFollower := fun i st _ hst => by
    rw [Side.note, hq] at hst
    cases hst
  begun := Or.inl hf

theorem write_leader (h : Lead q f) : Lead q.write f where
  leader := h.leader.write
  follower := h.follower
  answers := h.answers
  toLeader := h.toLeader
  toFollower := fun i st hi hst => by
    have hnum := h.leader.num_nonneg q.upcoming List.mem_cons_self
    show if (i : Int) + (q.upcoming.num + 1) < (q.written.length + 1 : Nat) then _ else
      st.key = q.upcoming.key
    rcases Side.note_write hst with hold | ⟨rfl, rfl⟩
    · have hrun := h.toFollower i st hi hold
      split at hrun
      · rw [if_pos (by push_cast; omega)]
        exact hrun
      · rw [if_neg (by push_cast; omega)]
        exact hrun
    · rw [if_neg (by push_cast; omega)]
  begun := h.begun

theorem write_follower (h : Lead q f) (hmute : ¬ f.mute) : Lead q f.write where
  leader := h.leader
  follower := h.follower.write
  answers := Or.inl (h.answers.resolve_right fun hm => hmute hm.1)
  toLeader := fun i st hi hst => by
    rcases Side.note_write hst with hold | ⟨rfl, rfl⟩
    · exact h.toLeader i st hi hold
    · exact h.answers.resolve_right fun hm => hmute hm.1
  toFollower := h.toFollower
  begun := Or.inr (by
    have := h.follower.num_nonneg f.upcoming List.mem_cons_self
    show 1 ≤ f.upcoming.num + 1
    omega)

theorem pass_leader (h : Lead q f) (hi : q.passed ≤ i) : Lead (q.pass i) f where
  leader := h.leader
  follower := h.follower
  answers := h.answers
  toLeader := fun j st hj hst => h.toLeader j st (Nat.le_trans (Nat.le_succ_of_le hi) hj) hst
  toFollower := h.toFollower
  begun := h.begun

theorem pass_follower (h : Lead q f) (hi : f.passed ≤ i) : Lead q (f.pass i) where
  leader := h.leader
  follower := h.follower
  answers := h.answers
  toLeader := h.toLeader
  toFollower := fun j st hj hst =>
    h.toFollower j st (Nat.le_trans (Nat.le_succ_of_le hi) hj) hst
  begun := h.begun

/-- A note under a key the follower does not answer is of the leader's last
run. -/
theorem newest (h : Lead q f) (hi : f.passed ≤ i) (hst : q.note i = some st)
    (hne : f.remote ≠ some st.key) :
    st.key = q.upcoming.key ∧ q.written.length ≤ i + q.upcoming.num := by
  have hlast : ¬ (i : Int) + q.upcoming.num < q.written.length := by
    intro hlt'
    have hrun := h.toFollower i st hi hst
    rw [if_pos hlt'] at hrun
    exact hne hrun
  have hrun := h.toFollower i st hi hst
  rw [if_neg hlast] at hrun
  exact ⟨hrun, by omega⟩

/-- The follower turns on it, and leads. -/
theorem turn (h : Lead q f) (hi : f.passed ≤ i) (hst : q.note i = some st)
    (hne : f.remote ≠ some st.key) (own : κ) : Lead (f.turn st.key own i) q := by
  have hlt := Side.note_lt hst
  obtain ⟨hkey, hlast⟩ := h.newest hi hst hne
  refine ⟨h.follower.turn h.begun st.key own i, h.leader, Or.inl (congrArg some hkey), ?_, ?_,
    Or.inr (by omega)⟩
  · intro j st' hj hst'
    have hj : i + 1 ≤ j := hj
    have hrun := h.toFollower j st' (by omega) hst'
    rw [if_neg (by omega)] at hrun
    show some st.key = some st'.key
    rw [hkey, hrun]
  · intro j st' hj hst'
    have hj' : j < f.written.length := Side.note_lt hst'
    show if (j : Int) + 0 < f.written.length then q.remote = some st'.key else st'.key = own
    rw [if_pos (by omega)]
    exact h.toLeader j st' hj hst'

end Lead

/-! ## Either party -/

section Parties

variable {ι : Type} [DecidableEq ι] {other : ι → ι} {S : ι → Side κ} {i : Nat} {st : Stamp κ}

/-- One of the two leads. -/
def Led (other : ι → ι) (S : ι → Side κ) : Prop := ∃ who, Lead (S who) (S (other who))

variable (hne : ∀ x, other x ≠ x) (hinv : ∀ x, other (other x) = x)
  (htwo : ∀ x y, x = y ∨ x = other y)

include hne hinv htwo

/-- What one party does is a step of the leader or of the follower. -/
theorem Led.step (h : Led other S) {who : ι} {s : Side κ}
    (hlead : ∀ {f}, Lead (S who) f → Lead s f)
    (hfollow : ∀ {q}, q = S (other who) → Lead q (S who) → Lead q s ∨ Lead s q) :
    Led other (Function.update S who s) := by
  obtain ⟨x, hx⟩ := h
  rcases htwo who x with rfl | rfl
  · refine ⟨who, ?_⟩
    rw [Function.update_self, Function.update_of_ne (hne who)]
    exact hlead hx
  · rcases hfollow (by rw [hinv]) hx with hx' | hx'
    · refine ⟨x, ?_⟩
      rw [Function.update_self, Function.update_of_ne (hne x).symm]
      exact hx'
    · refine ⟨other x, ?_⟩
      rw [Function.update_self, hinv, Function.update_of_ne (hne x).symm]
      exact hx'

theorem Led.write (h : Led other S) {who : ι} (hmute : ¬ (S who).mute) :
    Led other (Function.update S who (S who).write) :=
  h.step hne hinv htwo (fun hl => hl.write_leader) fun _ hf => Or.inl (hf.write_follower hmute)

theorem Led.pass (h : Led other S) {who : ι} (hi : (S who).passed ≤ i) :
    Led other (Function.update S who ((S who).pass i)) :=
  h.step hne hinv htwo (fun hl => hl.pass_leader hi) fun _ hf => Or.inl (hf.pass_follower hi)

/-- Only a follower meets a key it does not answer. -/
theorem Led.turn (h : Led other S) {who : ι} (hi : (S who).passed ≤ i)
    (hst : (S (other who)).note i = some st) (hkey : (S who).remote ≠ some st.key) (own : κ) :
    Led other (Function.update S who ((S who).turn st.key own i)) := by
  obtain ⟨x, hx⟩ := h
  rcases htwo who x with rfl | rfl
  · exact absurd (hx.toLeader i st hi hst) hkey
  · refine ⟨other x, ?_⟩
    rw [Function.update_self, hinv, Function.update_of_ne (hne x).symm]
    rw [hinv] at hst
    exact hx.turn hi hst hkey own

end Parties

end GhostChat.Lib.Turns
