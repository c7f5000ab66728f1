import GhostChat.Ref.Mailbox
import Mathlib.Order.Lattice
import Mathlib.Algebra.Order.Group.Int

/-!
# What a mailbox returns

The store keeps no record of what it was told, only what is left of it, and
what is left depends on who looked when: a look drops what has expired by then.
`lasting` says it from the calls alone. An envelope is returned exactly if it
has not expired at this look and had not at any look of its recipient since it
was put. Where the clock does not go back the earlier looks say nothing new, and
`get_all` returns what `is_expired` leaves of everything that was ever put.
-/

namespace GhostChat.Proofs

open GhostChat.Lib GhostChat.Ref

variable {T : Type} [Add T] [LinearOrder T] {r : String} {acts : List (MailboxAct T)} {t : T}

/-- An envelope that was put, and when, for how long. -/
structure PutRecord (T : Type) where
  createdAt : T
  ttl : T
  envelope : Envelope

/-- The times a recipient looks. -/
def looks (r : String) : List (MailboxAct T) → List T
  | [] => []
  | .put .. :: acts => looks r acts
  | .getAll r' clock :: acts => if r' = r then clock :: looks r acts else looks r acts

/-- What was put for a recipient, in order. -/
def putsFor (r : String) : List (MailboxAct T) → List (PutRecord T)
  | [] => []
  | .put r' envelope ttl clock :: acts =>
      if r' = r then ⟨clock, ttl, envelope⟩ :: putsFor r acts else putsFor r acts
  | .getAll .. :: acts => putsFor r acts

/-- What has not expired at any look since it was put. -/
def lasting (r : String) : List (MailboxAct T) → List (PutRecord T)
  | [] => []
  | .put r' envelope ttl clock :: acts =>
      if r' = r ∧ ∀ t ∈ looks r acts, isExpired clock ttl none t = false then
        ⟨clock, ttl, envelope⟩ :: lasting r acts
      else lasting r acts
  | .getAll .. :: acts => lasting r acts

section Lasting

theorem lasting_put (r' : String) (envelope : Envelope) (ttl clock : T) :
    lasting r (acts ++ [.put r' envelope ttl clock])
      = lasting r acts ++ if r' = r then [⟨clock, ttl, envelope⟩] else [] := by
  have hlooks : ∀ acts : List (MailboxAct T),
      looks r (acts ++ [.put r' envelope ttl clock]) = looks r acts := by
    intro acts
    induction acts with
    | nil => rfl
    | cons act acts ih =>
        cases act with
        | put => exact ih
        | getAll =>
            simp only [List.cons_append, looks]
            rw [ih]
  induction acts with
  | nil => simp [lasting, looks]
  | cons act acts ih =>
      cases act with
      | put r₀ envelope₀ ttl₀ clock₀ =>
          simp only [List.cons_append, lasting, hlooks]
          rw [ih]
          split <;> rfl
      | getAll => exact ih

omit [Add T] [LinearOrder T] in
theorem looks_look (r' : String) :
    looks r (acts ++ [.getAll r' t]) = looks r acts ++ if r' = r then [t] else [] := by
  induction acts with
  | nil =>
      simp only [List.nil_append, looks]
  | cons act acts ih =>
      cases act with
      | put => exact ih
      | getAll r₀ t₀ =>
          simp only [List.cons_append, looks]
          rw [ih]
          split <;> rfl

/-- A look takes away what has expired. -/
theorem lasting_look : lasting r (acts ++ [.getAll r t])
    = (lasting r acts).filter fun e => isExpired e.createdAt e.ttl none t = false := by
  induction acts with
  | nil => rfl
  | cons act acts ih =>
      cases act with
      | getAll => exact ih
      | put r' envelope ttl clock =>
          simp only [List.cons_append, lasting, looks_look, if_true]
          by_cases hold : r' = r ∧ ∀ t ∈ looks r acts, isExpired clock ttl none t = false
          · rw [if_pos hold]
            by_cases hnow : isExpired clock ttl none t = false
            · have hstill : ∀ t' ∈ looks r acts ++ [t], isExpired clock ttl none t' = false := by
                intro t' ht'
                rcases List.mem_append.mp ht' with ht' | ht'
                · exact hold.2 t' ht'
                · rw [List.mem_singleton.mp ht']
                  exact hnow
              rw [if_pos ⟨hold.1, hstill⟩, List.filter_cons_of_pos (by simpa using hnow), ih]
            · rw [if_neg, List.filter_cons_of_neg (by simpa using hnow), ih]
              intro h
              exact hnow (h.2 t (by simp))
          · rw [if_neg hold, if_neg, ih]
            exact fun h => hold ⟨h.1, fun t' ht' => h.2 t' (List.mem_append_left _ ht')⟩

theorem lasting_otherLook {r' : String} (h : r' ≠ r) :
    lasting r (acts ++ [.getAll r' t]) = lasting r acts := by
  induction acts with
  | nil => rfl
  | cons act acts ih =>
      cases act with
      | getAll => exact ih
      | put r₀ envelope ttl clock =>
          simp only [List.cons_append, lasting, looks_look, if_neg h, List.append_nil]
          rw [ih]

/-- What the store keeps of a record. -/
def PutRecord.stored (e : PutRecord T) : StoredEnvelope T := ⟨e.createdAt + e.ttl, e.envelope⟩

/-- `expires_at >= now` and `is_expired` are the same test. -/
theorem alive_eq (now : T) (l : List (PutRecord T)) :
    (l.map PutRecord.stored).filter (fun item => now ≤ item.expiresAt)
      = (l.filter fun e => isExpired e.createdAt e.ttl none now = false).map
          PutRecord.stored := by
  rw [List.filter_map]
  refine congrArg _ (List.filter_congr fun e _ => ?_)
  simp only [Function.comp, PutRecord.stored, isExpired, Option.getD_none,
    decide_eq_false_iff_not, not_lt]
  rfl

/-- The box of a recipient after a run from the empty store. -/
theorem mailbox_eq (r : String) (acts : List (MailboxAct T)) :
    (Odict.get? (runFrom MemoryMailboxStore.step {} acts).mailboxes r).getD []
      = (lasting r acts).map PutRecord.stored := by
  induction acts using List.reverseRecOn with
  | nil => rfl
  | append_singleton acts act ih =>
      rw [runFrom_append]
      cases act with
      | put r' envelope ttl clock =>
          rw [lasting_put, List.map_append, ← ih]
          show (Odict.get? (Odict.set _ r' _) r).getD [] = _
          by_cases hr : r' = r
          · subst hr
            rw [Odict.get?_set_self, if_pos rfl]
            rfl
          · rw [Odict.get?_set_ne _ (Ne.symm hr), if_neg hr, List.map_nil, List.append_nil]
      | getAll r' clock =>
          show (Odict.get? (Odict.set _ r' _) r).getD [] = _
          by_cases hr : r' = r
          · subst hr
            rw [Odict.get?_set_self, lasting_look, Option.getD_some, ih, alive_eq]
          · rw [Odict.get?_set_ne _ (Ne.symm hr), lasting_otherLook hr]
            exact ih

theorem getAll_lasting (r : String) (acts : List (MailboxAct T)) (now : T) :
    ((runFrom MemoryMailboxStore.step {} acts).getAll r now).1
      = (lasting r (acts ++ [.getAll r now])).map (·.envelope) := by
  rw [lasting_look]
  show List.map _ (List.filter _ ((Odict.get? _ r).getD [])) = _
  rw [mailbox_eq, alive_eq, List.map_map]
  rfl

/-- What has not expired now had not expired at an earlier look. -/
theorem lasting_eq_unexpired {now : T} (hclock : ∀ t ∈ looks r acts, t ≤ now) :
    lasting r (acts ++ [.getAll r now])
      = (putsFor r acts).filter fun e => !isExpired e.createdAt e.ttl none now := by
  rw [lasting_look]
  induction acts with
  | nil => rfl
  | cons act acts ih =>
      cases act with
      | getAll r' t =>
          refine ih fun t' ht' => hclock t' ?_
          simp only [looks]
          split
          · exact List.mem_cons_of_mem _ ht'
          · exact ht'
      | put r' envelope ttl clock =>
          have ih := ih hclock
          simp only [lasting, putsFor]
          by_cases hr : r' = r
          · rw [if_pos hr]
            by_cases hnow : isExpired clock ttl none now = false
            · have hearlier : ∀ t ∈ looks r acts, isExpired clock ttl none t = false := by
                intro t ht
                simp only [isExpired, Option.getD_none, decide_eq_false_iff_not, not_lt] at hnow ⊢
                exact (hclock t ht).trans hnow
              rw [if_pos ⟨hr, hearlier⟩, List.filter_cons_of_pos (by simpa using hnow),
                List.filter_cons_of_pos (by simpa using hnow), ih]
            · rw [List.filter_cons_of_neg (by simpa using hnow), ← ih]
              split
              · rw [List.filter_cons_of_neg (by simpa using hnow)]
              · rfl
          · rw [if_neg hr, if_neg fun h => hr h.1]
            exact ih

/-- After any calls, a look returns exactly what has not expired by now, nor at
any look of the recipient since it was put, in the order it was put. Where the
clock has not gone back, that is what has not expired by now of everything that
was put. -/
theorem getAll_returns (r : String) (acts : List (MailboxAct T)) (now : T) :
    ((runFrom MemoryMailboxStore.step {} acts).getAll r now).1
        = (lasting r (acts ++ [.getAll r now])).map (·.envelope) ∧
      ((∀ t ∈ looks r acts, t ≤ now) →
        ((runFrom MemoryMailboxStore.step {} acts).getAll r now).1
          = ((putsFor r acts).filter fun e => !isExpired e.createdAt e.ttl none now).map
            (·.envelope)) := by
  refine ⟨getAll_lasting r acts now, fun hclock => ?_⟩
  rw [getAll_lasting, lasting_eq_unexpired hclock]

/-- Two envelopes for one recipient. The first has expired at the second look. -/
theorem getAll_returns_two :
    ((runFrom MemoryMailboxStore.step {} [.put "b" [("n", .int 1)] 5 0, .getAll "b" 3,
      .put "b" [("n", .int 2)] 5 4]).getAll "b" (7 : Int)).1 = [[("n", .int 2)]] := by
  rw [(getAll_returns "b" _ 7).2 (by decide)]
  rfl

end Lasting

end GhostChat.Proofs
