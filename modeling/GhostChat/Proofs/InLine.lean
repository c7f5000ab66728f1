import GhostChat.Lib.Lossy
import GhostChat.Proofs.Delivery

/-!
# Messages that come in the order they were sent

A connection may lose messages but does not change their order. What the log of
a pair says about such a connection is a matter of two lists: what a party has
sent, and what the other has opened, which is some of the former in the same
order. Where the next message stands in the first list is all that has to be
known about it. It is new, its chain is not older than those heard, and it has
jumped over lost messages only, so a session whose losses stay below both limits
goes on as an honest one (`Conv.inLine`).
-/

namespace GhostChat.Proofs

open GhostChat.Lib GhostChat.Lib.Effect GhostChat.Lib.Window GhostChat.Ref

variable {K P C : Type} {c : Crypto K P C} {rk : K} {cap : Nat}

/-! ## What was sent and what was opened -/

def postedBy (who : Party) : Event K C → Option (Bytes × RatchetWireMessage C)
  | .sent x pt w _ => if x = who then some (pt, w) else none
  | .accepted .. => none

def openedBy (who : Party) : Event K C → Option (Bytes × RatchetWireMessage C)
  | .accepted x w pt _ => if x = who then some (pt, w) else none
  | .sent .. => none

/-- What `who` has sent, oldest first. -/
def posts (who : Party) (log : List (Event K C)) : List (Bytes × RatchetWireMessage C) :=
  (log.filterMap (postedBy who)).reverse

/-- What `who` has opened, oldest first. -/
def opened (who : Party) (log : List (Event K C)) : List (Bytes × RatchetWireMessage C) :=
  (log.filterMap (openedBy who)).reverse

/-- Header key and number. -/
def ident (x : Bytes × RatchetWireMessage C) : Bytes × Nat :=
  (x.2.header.dh, x.2.header.n.toNat)

section Reading

variable {who x : Party} {pt : Bytes} {w : RatchetWireMessage C} {k : K}
  {log : List (Event K C)}

theorem posts_sent : posts who (.sent who pt w k :: log) = posts who log ++ [(pt, w)] := by
  have hone : postedBy who (.sent who pt w k) = some (pt, w) := if_pos rfl
  rw [posts, List.filterMap_cons_some hone, List.reverse_cons, posts]

theorem posts_sent_other (h : x ≠ who) : posts who (.sent x pt w k :: log) = posts who log := by
  have hnone : postedBy who (.sent x pt w k) = none := if_neg h
  rw [posts, List.filterMap_cons_none hnone, posts]

theorem opened_accepted :
    opened who (.accepted who w pt k :: log) = opened who log ++ [(pt, w)] := by
  have hone : openedBy who (.accepted who w pt k) = some (pt, w) := if_pos rfl
  rw [opened, List.filterMap_cons_some hone, List.reverse_cons, opened]

theorem opened_accepted_other (h : x ≠ who) :
    opened who (.accepted x w pt k :: log) = opened who log := by
  have hnone : openedBy who (.accepted x w pt k) = none := if_neg h
  rw [opened, List.filterMap_cons_none hnone, opened]

theorem mem_posts : (pt, w) ∈ posts who log ↔ ∃ k, Event.sent who pt w k ∈ log := by
  rw [posts, List.mem_reverse, List.mem_filterMap]
  constructor
  · intro h
    obtain ⟨e, he, hposted⟩ := h
    cases e with
    | accepted => cases hposted
    | sent y p v k =>
        simp only [postedBy] at hposted
        split at hposted
        · next hy =>
            subst hy
            cases hposted
            exact ⟨k, he⟩
        · cases hposted
  · intro h
    obtain ⟨k, hk⟩ := h
    exact ⟨_, hk, if_pos rfl⟩

theorem delivered_eq : delivered who log = ((opened who log).map ident).reverse := by
  rw [opened, List.map_reverse, List.reverse_reverse, List.map_filterMap, delivered]
  congr 1
  funext e
  cases e with
  | sent => rfl
  | accepted y v p k =>
      simp only [acceptedId, openedBy]
      split <;> rfl

theorem headerKeys_eq : headerKeys who log
    = ((posts who log).map fun x => x.2.header.dh).reverse := by
  rw [posts, List.map_reverse, List.reverse_reverse, List.map_filterMap, headerKeys]
  congr 1
  funext e
  cases e with
  | accepted => rfl
  | sent y p v k =>
      simp only [sentKey, postedBy]
      split <;> rfl

theorem numbers_eq (dh : Bytes) : numbers who dh log
    = ((((posts who log).map ident).filter fun e => e.1 = dh).map Prod.snd).reverse := by
  induction log with
  | nil => rfl
  | cons e log ih =>
      cases e with
      | accepted y v p k => exact ih
      | sent y p v k =>
          by_cases hy : y = who
          · subst hy
            rw [posts_sent, List.map_append, List.filter_append, List.map_append,
              List.reverse_append, ← ih]
            by_cases hdh : v.header.dh = dh
            · subst hdh
              rw [numbers_self]
              simp [ident]
            · rw [numbers_other fun h => hdh h.2]
              simp [ident, hdh]
          · rw [posts_sent_other hy, numbers_other fun h => hy h.1]
            exact ih

end Reading

/-! ## The next message -/

section Next

variable {ks : List P} {log : List (Event K C)} {who : Party}
  {T U : List (Bytes × RatchetWireMessage C)} {x : Bytes × RatchetWireMessage C}

theorem Mail.numbered (h : Mail c rk ks log) (who : Party) :
    Numbered ((posts who log).map ident) := by
  intro dh
  refine ⟨(numbers who dh log).length, ?_⟩
  have hruns := h.runs who dh
  rw [numbers_eq, List.reverse_inj] at hruns
  rw [numbers_eq]
  exact hruns

/-- A key that is in use before another is used has the lower rank. -/
theorem Mail.rank_le (h : Mail c rk ks log) (hnd : (ks.map c.publicKey).Nodup)
    (hposts : posts who log = T ++ x :: U) {a : Bytes × RatchetWireMessage C} (ha : a ∈ T) :
    keyRank who log a.2.header.dh ≤ keyRank who log x.2.header.dh := by
  have hmem : ∀ y ∈ posts who log, ∃ k, Event.sent who y.1 y.2 k ∈ log := by
    intro y hy
    exact mem_posts.mp hy
  have hkeys : headerKeys who log = (T.map (fun x => x.2.header.dh) ++
      x.2.header.dh :: U.map fun x => x.2.header.dh).reverse := by
    rw [headerKeys_eq, hposts, List.map_append, List.map_cons]
  obtain ⟨k₁, hsent₁⟩ := hmem a (by rw [hposts]; exact List.mem_append_left _ ha)
  obtain ⟨k₂, hsent₂⟩ := hmem x (by rw [hposts]; simp)
  by_contra hlt
  have hle : keyRank who log x.2.header.dh ≤ keyRank who log a.2.header.dh := by omega
  have hback := h.older_of_rank hnd (mem_headerKeys.mpr ⟨_, _, _, hsent₂, rfl⟩)
    (mem_headerKeys.mpr ⟨_, _, _, hsent₁, rfl⟩) hle
  -- The log has the two the other way round, so it is one key.
  have hsorted := h.sorted who
  rw [hkeys, List.pairwise_reverse, List.pairwise_append] at hsorted
  have hforth : OlderKey c ks a.2.header.dh x.2.header.dh :=
    hsorted.2.2 _ (List.mem_map_of_mem (f := fun x => x.2.header.dh) ha) _ List.mem_cons_self
  obtain ⟨q₁, t₁, hsuf₁, -, hw₁⟩ := h.sealed hsent₁
  obtain ⟨q₂, t₂, hsuf₂, -, hw₂⟩ := h.sealed hsent₂
  have hq₁ : c.publicKey q₁ = a.2.header.dh := Option.some.inj hw₁.dh
  have hq₂ : c.publicKey q₂ = x.2.header.dh := Option.some.inj hw₂.dh
  have heq := suffix_antisymm (hforth q₁ t₁ q₂ t₂ hsuf₁ hsuf₂ hq₁ hq₂)
    (hback q₂ t₂ q₁ t₁ hsuf₂ hsuf₁ hq₂ hq₁)
  injection heq with heq _
  rw [← hq₁, ← hq₂, heq] at hlt
  exact hlt (Nat.le_refl _)

end Next

/-- A message that comes in its turn, after no more losses than the session can
bridge, is one of an honest run. -/
theorem Conv.inLine {σ : Pair K P C} {q : P} {t : List P} (h : Conv c rk cap σ q t)
    {who : Party} {T U : List (Bytes × RatchetWireMessage C)}
    {x : Bytes × RatchetWireMessage C} (hposts : posts who.other σ.log = T ++ x :: U)
    (hopened : (opened who σ.log).Sublist T)
    (hlost : T.length - (opened who σ.log).length ≤ min cap maxSkipDistance) {g : P}
    (hfresh : FreshKeys c σ (.decrypt who x.2 g)) :
    HonestStep c cap σ (.decrypt who x.2 g) := by
  have hsent : Numbered (T.map ident ++ ident x :: U.map ident) := by
    have hnumbered := h.mail.numbered who.other
    rwa [hposts, List.map_append, List.map_cons] at hnumbered
  have hdelivered : (delivered who σ.log).reverse.Sublist (T.map ident) := by
    rw [delivered_eq, List.reverse_reverse]
    exact hopened.map ident
  have hlength : (T.map ident).length - (delivered who σ.log).length
      = T.length - (opened who σ.log).length := by
    rw [delivered_eq, List.length_reverse, List.length_map, List.length_map]
  have hcard := card_pending_next hsent hdelivered
  have hahead := next_ahead hsent hdelivered
  rw [hlength] at hcard hahead
  have hnew := next_new hsent hdelivered
  obtain ⟨k, hk⟩ : ∃ k, Event.sent who.other x.1 x.2 k ∈ σ.log := by
    refine mem_posts.mp ?_
    rw [hposts]
    simp
  refine ⟨hfresh, ⟨x.1, k, hk⟩, fun p k' hacc => ?_, Or.inl fun id hid => ?_, ?_, ?_⟩
  · exact hnew (mem_delivered.mpr ⟨_, p, k', hacc, rfl⟩)
  · have hmem := hdelivered.subset (List.mem_reverse.mpr hid)
    obtain ⟨a, ha, rfl⟩ := List.mem_map.mp hmem
    exact h.mail.rank_le h.distinct hposts ha
  · show (ident x).2 ≤ nextExpected (delivered who σ.log) (ident x).1 + maxSkipDistance
    omega
  · show (pending (ident x :: delivered who σ.log)).card ≤ cap
    omega

end GhostChat.Proofs
