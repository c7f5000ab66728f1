import GhostChat.Proofs.Honest

/-!
# The mail of an honest session

What the log of an honest run says on its own, before any engine is looked
at: every message was sealed on a chain of its sender, the numbers on each
chain count up from zero without a gap, a sender's header keys appear in the
order of its chains, a header's `pn` is the length of the sender's chain
before, and what was accepted had been sent. `Mail.post` is the step of a
sender, `Mail.grow` the opening of a chain, `Mail.receive` the step of a
receiver.
-/

namespace GhostChat.Proofs

open GhostChat.Lib GhostChat.Lib.Effect GhostChat.Lib.Window GhostChat.Ref

variable {K P C : Type} {c : Crypto K P C} {rk : K}

/-! ## Reading the log -/

def acceptedId (who : Party) : Event K C → Option (Bytes × Nat)
  | .accepted x w _ _ => if x = who then some (w.header.dh, w.header.n.toNat) else none
  | .sent .. => none

def sentKey (who : Party) : Event K C → Option Bytes
  | .sent x _ w _ => if x = who then some w.header.dh else none
  | .accepted .. => none

def sentNumber (who : Party) (dh : Bytes) : Event K C → Option Nat
  | .sent x _ w _ => if x = who ∧ w.header.dh = dh then some w.header.n.toNat else none
  | .accepted .. => none

/-- The messages `who` has accepted, by header key and number. -/
def delivered (who : Party) (log : List (Event K C)) : List (Bytes × Nat) :=
  log.filterMap (acceptedId who)

/-- The header keys of the messages `who` has sent, newest first. -/
def headerKeys (who : Party) (log : List (Event K C)) : List Bytes :=
  log.filterMap (sentKey who)

/-- The numbers `who` has sent under header key `dh`, newest first. -/
def numbers (who : Party) (dh : Bytes) (log : List (Event K C)) : List Nat :=
  log.filterMap (sentNumber who dh)

/-- When a sender first used a header key, counted in its messages. -/
def keyRank (who : Party) (log : List (Event K C)) (dh : Bytes) : Nat :=
  (headerKeys who log).reverse.idxOf dh

/-- How many messages the chain before the one on top of `t` has: `t` starts
with a key of the peer, and the sender's own chain before is the next. -/
def prevCount (c : Crypto K P C) (who : Party) (log : List (Event K C)) :
    List P → Nat
  | _ :: q :: _ => (numbers who (c.publicKey q) log).length
  | _ => 0

section Reading

variable {who x : Party} {pt p : Bytes} {w : RatchetWireMessage C} {k : K}
  {log : List (Event K C)}

theorem delivered_self : delivered who (.accepted who w p k :: log)
    = (w.header.dh, w.header.n.toNat) :: delivered who log :=
  List.filterMap_cons_some (if_pos rfl)

theorem delivered_other (h : x ≠ who) :
    delivered who (.accepted x w p k :: log) = delivered who log :=
  List.filterMap_cons_none (if_neg h)

theorem headerKeys_self : headerKeys who (.sent who pt w k :: log)
    = w.header.dh :: headerKeys who log :=
  List.filterMap_cons_some (if_pos rfl)

theorem headerKeys_other (h : x ≠ who) :
    headerKeys who (.sent x pt w k :: log) = headerKeys who log :=
  List.filterMap_cons_none (if_neg h)

theorem numbers_self : numbers who w.header.dh (.sent who pt w k :: log)
    = w.header.n.toNat :: numbers who w.header.dh log :=
  List.filterMap_cons_some (if_pos ⟨rfl, rfl⟩)

theorem numbers_other {dh : Bytes} (h : ¬ (x = who ∧ w.header.dh = dh)) :
    numbers who dh (.sent x pt w k :: log) = numbers who dh log :=
  List.filterMap_cons_none (if_neg h)

theorem mem_delivered {id : Bytes × Nat} : id ∈ delivered who log ↔
    ∃ w p k, Event.accepted who w p k ∈ log ∧ (w.header.dh, w.header.n.toNat) = id := by
  simp only [delivered, List.mem_filterMap]
  constructor
  · rintro ⟨e, he, hid⟩
    cases e with
    | sent => cases hid
    | accepted x w p k =>
        simp only [acceptedId] at hid
        split at hid
        · next hx =>
            subst hx
            exact ⟨w, p, k, he, Option.some.inj hid⟩
        · cases hid
  · rintro ⟨w, p, k, he, rfl⟩
    exact ⟨_, he, if_pos rfl⟩

theorem mem_headerKeys {dh : Bytes} : dh ∈ headerKeys who log ↔
    ∃ pt w k, Event.sent who pt w k ∈ log ∧ w.header.dh = dh := by
  simp only [headerKeys, List.mem_filterMap]
  constructor
  · rintro ⟨e, he, hid⟩
    cases e with
    | accepted => cases hid
    | sent x pt w k =>
        simp only [sentKey] at hid
        split at hid
        · next hx =>
            subst hx
            exact ⟨pt, w, k, he, Option.some.inj hid⟩
        · cases hid
  · rintro ⟨pt, w, k, he, rfl⟩
    exact ⟨_, he, if_pos rfl⟩

theorem mem_numbers {dh : Bytes} {n : Nat} : n ∈ numbers who dh log ↔
    ∃ pt w k, Event.sent who pt w k ∈ log ∧ w.header.dh = dh ∧ w.header.n.toNat = n := by
  simp only [numbers, List.mem_filterMap]
  constructor
  · rintro ⟨e, he, hid⟩
    cases e with
    | accepted => cases hid
    | sent x pt w k =>
        simp only [sentNumber] at hid
        split at hid
        · next hx =>
            obtain ⟨rfl, hdh⟩ := hx
            exact ⟨pt, w, k, he, hdh, Option.some.inj hid⟩
        · cases hid
  · rintro ⟨pt, w, k, he, rfl, rfl⟩
    exact ⟨_, he, if_pos ⟨rfl, rfl⟩⟩

end Reading

/-! ## The invariant of the log -/

/-- In `ks`, the chain of `d` is that of `d'` or an older one. -/
def OlderKey (c : Crypto K P C) (ks : List P) (d d' : Bytes) : Prop :=
  ∀ q t q' t', (q :: t) <:+ ks → (q' :: t') <:+ ks → c.publicKey q = d →
    c.publicKey q' = d' → (q :: t) <:+ (q' :: t')

structure Mail (c : Crypto K P C) (rk : K) (ks : List P) (log : List (Event K C)) :
    Prop where
  sealed : ∀ {who pt w k}, Event.sent who pt w k ∈ log → ∃ q t, (q :: t) <:+ ks ∧
    owner (q :: t) = who ∧ Sealed c rk (q :: t) pt w k
  runs : ∀ who dh, numbers who dh log
    = (List.range (numbers who dh log).length).reverse
  sorted : ∀ who, (headerKeys who log).Pairwise fun d' d => OlderKey c ks d d'
  prev : ∀ {who pt w k q t}, Event.sent who pt w k ∈ log → (q :: t) <:+ ks →
    c.publicKey q = w.header.dh → w.header.pn = prevCount c who log t
  accepted : ∀ {who w p k}, Event.accepted who w p k ∈ log →
    ∃ k', Event.sent who.other p w k' ∈ log

namespace Mail

variable {ks : List P} {log : List (Event K C)} {who : Party} {pt : Bytes}
  {w : RatchetWireMessage C} {k : K} {q : P} {t : List P}

/-- A header key in the mail is a key of the session. -/
theorem key_mem (h : Mail c rk ks log) (hm : Event.sent who pt w k ∈ log) :
    w.header.dh ∈ ks.map c.publicKey := by
  obtain ⟨q, t, hsuf, -, hw⟩ := h.sealed hm
  rw [← Option.some.inj hw.dh]
  exact List.mem_map_of_mem (hsuf.subset List.mem_cons_self)

theorem numbers_new (h : Mail c rk ks log) {dh : Bytes}
    (hdh : dh ∉ ks.map c.publicKey) (who : Party) : numbers who dh log = [] := by
  rw [List.eq_nil_iff_forall_not_mem]
  intro n hn
  obtain ⟨pt, w, k, hm, rfl, -⟩ := mem_numbers.mp hn
  exact hdh (h.key_mem hm)

/-- Every number below one that was sent was sent. -/
theorem sent_below (h : Mail c rk ks log) (hm : Event.sent who pt w k ∈ log) {n : Nat}
    (hn : n ≤ w.header.n.toNat) :
    ∃ pt' w' k', Event.sent who pt' w' k' ∈ log ∧ w'.header.dh = w.header.dh ∧
      w'.header.n.toNat = n := by
  have hmem : w.header.n.toNat ∈ numbers who w.header.dh log :=
    mem_numbers.mpr ⟨pt, w, k, hm, rfl, rfl⟩
  rw [h.runs] at hmem
  have hlt := List.mem_range.mp (List.mem_reverse.mp hmem)
  have hn' : n ∈ numbers who w.header.dh log := by
    rw [h.runs]
    exact List.mem_reverse.mpr (List.mem_range.mpr (by omega))
  exact mem_numbers.mp hn'

/-- Header key and number identify a message of a sender. -/
theorem unique (h : Mail c rk ks log) {pt' : Bytes} {w' : RatchetWireMessage C} {k' : K}
    (hm : Event.sent who pt w k ∈ log) (hm' : Event.sent who pt' w' k' ∈ log)
    (hd : w.header.dh = w'.header.dh) (hn : w.header.n.toNat = w'.header.n.toNat) :
    w = w' := by
  have hnd : (numbers who w.header.dh log).Nodup := by
    rw [h.runs]
    exact List.nodup_reverse.mpr List.nodup_range
  have heq := filterMap_nodup_inj hnd hm hm' (if_pos ⟨rfl, rfl⟩)
    ((if_pos ⟨rfl, hd.symm⟩).trans (congrArg some hn.symm))
  injection heq

/-- Ranks compare chains. -/
theorem older_of_rank (h : Mail c rk ks log) {d d' : Bytes}
    (hnd : (ks.map c.publicKey).Nodup)
    (hd : d ∈ headerKeys who log) (hd' : d' ∈ headerKeys who log)
    (hle : keyRank who log d ≤ keyRank who log d') : OlderKey c ks d d' := by
  by_cases he : d = d'
  · subst he
    intro q t q' t' hs hs' hq hq'
    rw [suffix_unique hnd hs hs' (hq.trans hq'.symm)]
  · have hs := List.pairwise_reverse.mpr (h.sorted who)
    rw [List.pairwise_iff_getElem] at hs
    have hlt := List.idxOf_lt_length_of_mem (List.mem_reverse.mpr hd)
    have hlt' := List.idxOf_lt_length_of_mem (List.mem_reverse.mpr hd')
    have hgd := List.getElem_idxOf hlt
    have hgd' := List.getElem_idxOf hlt'
    have hne : (headerKeys who log).reverse.idxOf d
        ≠ (headerKeys who log).reverse.idxOf d' := by
      intro hidx
      apply he
      rw [← hgd, ← hgd']
      simp only [hidx]
    have := hs _ _ hlt hlt' (by unfold keyRank at hle; omega)
    rwa [hgd, hgd'] at this

/-! ## Steps -/

/-- A new key on top of the list changes nothing that was sent. -/
theorem grow (h : Mail c rk ks log) {p : P} (hp : c.publicKey p ∉ ks.map c.publicKey) :
    Mail c rk (p :: ks) log := by
  -- A chain whose key is in the mail is one of the old ones.
  have hold : ∀ {x : P} {u : List P} {who pt w k}, Event.sent who pt w k ∈ log →
      (x :: u) <:+ p :: ks → c.publicKey x = w.header.dh → (x :: u) <:+ ks := by
    intro x u who pt w k hm hsuf hx
    rcases List.suffix_cons_iff.mp hsuf with he | hsuf
    · injection he with he _
      exact absurd (he ▸ hx ▸ h.key_mem hm) hp
    · exact hsuf
  refine ⟨fun hm => ?_, h.runs, fun who => ?_, fun hm hsuf hq => ?_, h.accepted⟩
  · obtain ⟨q, t, hsuf, hrest⟩ := h.sealed hm
    exact ⟨q, t, hsuf.trans (List.suffix_cons p ks), hrest⟩
  · refine (h.sorted who).imp_of_mem fun {d' d} hd' hd hold' => ?_
    intro q t q' t' hs hs' hq hq'
    obtain ⟨_, w, _, hm, rfl⟩ := mem_headerKeys.mp hd
    obtain ⟨_, w', _, hm', rfl⟩ := mem_headerKeys.mp hd'
    exact hold' q t q' t' (hold hm hs hq) (hold hm' hs' hq') hq hq'
  · exact h.prev hm (hold hm hsuf hq) hq

theorem receive (h : Mail c rk ks log) {p : Bytes} {k' : K}
    (hs : Event.sent who.other p w k' ∈ log) :
    Mail c rk ks (.accepted who w p k :: log) := by
  have hsent : ∀ {x pt' w' k''}, Event.sent x pt' w' k'' ∈ Event.accepted who w p k :: log →
      Event.sent x pt' w' k'' ∈ log := by
    intro x pt' w' k'' hm
    rcases List.mem_cons.mp hm with he | hm
    · cases he
    · exact hm
  refine ⟨fun hm => h.sealed (hsent hm), h.runs, h.sorted,
    fun {_ _ _ _ _ t} hm hsuf hq => ?_, fun hm => ?_⟩
  · rw [h.prev (hsent hm) hsuf hq]
    cases t with
    | nil => rfl
    | cons x t => cases t <;> rfl
  · rcases List.mem_cons.mp hm with he | hm
    · injection he with h₁ h₂ h₃ h₄
      subst h₁ h₂ h₃ h₄
      exact ⟨k', List.mem_cons_of_mem _ hs⟩
    · obtain ⟨k'', hs'⟩ := h.accepted hm
      exact ⟨k'', List.mem_cons_of_mem _ hs'⟩

/-- A message on the sender's newest chain, with the next number. -/
theorem post (h : Mail c rk ks log) (hnd : (ks.map c.publicKey).Nodup)
    (hsuf : (q :: t) <:+ ks) (hown : owner (q :: t) = who)
    (hnewest : ∀ q' t', (q' :: t') <:+ ks → owner (q' :: t') = who →
      (q' :: t') <:+ (q :: t))
    (hw : Sealed c rk (q :: t) pt w k)
    (hn : w.header.n.toNat = (numbers who w.header.dh log).length)
    (hpn : w.header.pn = prevCount c who log t) :
    Mail c rk ks (.sent who pt w k :: log) := by
  have hq : c.publicKey q = w.header.dh := Option.some.inj hw.dh
  -- Only the chain on top of `t` counts on; the ones below it are closed.
  have hclosed : ∀ {x : Party} {q' : P} {t' : List P}, (q' :: t') <:+ ks →
      (x = who → (q' :: t') <:+ (q :: t)) →
      prevCount c x (.sent who pt w k :: log) t' = prevCount c x log t' := by
    intro x q' t' hsuf' hle
    match t' with
    | [] => rfl
    | [_] => rfl
    | y :: z :: u =>
        show (numbers x _ _).length = _
        rw [numbers_other]
        · rfl
        · rintro ⟨rfl, hdh⟩
          have hin : (z :: u) <:+ (q :: t) := by
            refine List.IsSuffix.trans ?_ (hle rfl)
            exact (List.suffix_cons y _).trans (List.suffix_cons q' _)
          have heq := suffix_unique hnd hsuf (hin.trans hsuf) (hq.trans hdh)
          have hlen := (hle rfl).length_le
          rw [heq] at hlen
          simp only [List.length_cons] at hlen
          omega
  refine ⟨fun hm => ?_, fun x dh => ?_, fun x => ?_, fun {x pt' w' k' q' t'} hm hsuf' hq' => ?_,
    fun hm => ?_⟩
  · rcases List.mem_cons.mp hm with he | hm
    · injection he with h₁ h₂ h₃ h₄
      subst h₁ h₂ h₃ h₄
      exact ⟨q, t, hsuf, hown, hw⟩
    · exact h.sealed hm
  · by_cases hx : who = x ∧ w.header.dh = dh
    · obtain ⟨rfl, rfl⟩ := hx
      rw [numbers_self, hn, List.length_cons, List.range_succ, List.reverse_append, ← h.runs]
      rfl
    · rw [numbers_other hx]
      exact h.runs x dh
  · by_cases hx : who = x
    · subst hx
      rw [headerKeys_self, List.pairwise_cons]
      refine ⟨fun d hd => ?_, h.sorted who⟩
      obtain ⟨pt', w', k', hm, rfl⟩ := mem_headerKeys.mp hd
      obtain ⟨q₁, t₁, hsuf₁, hown₁, hw₁⟩ := h.sealed hm
      intro q' t' q'' t'' hs' hs'' hq' hq''
      rw [suffix_unique hnd hs' hsuf₁ (hq'.trans (Option.some.inj hw₁.dh).symm),
        suffix_unique hnd hs'' hsuf (hq''.trans hq.symm)]
      exact hnewest q₁ t₁ hsuf₁ hown₁
    · rw [headerKeys_other hx]
      exact h.sorted x
  · rcases List.mem_cons.mp hm with he | hold
    · injection he with h₁ h₂ h₃ h₄
      subst h₁ h₂ h₃ h₄
      have heq := suffix_unique hnd hsuf' hsuf (hq'.trans hq.symm)
      rw [hclosed hsuf' (fun _ => heq ▸ List.suffix_refl _), hpn]
      injection heq with _ heq
      rw [heq]
    · rw [h.prev hold hsuf' hq', hclosed hsuf']
      rintro rfl
      obtain ⟨q₁, t₁, hsuf₁, hown₁, hw₁⟩ := h.sealed hold
      rw [suffix_unique hnd hsuf' hsuf₁ (hq'.trans (Option.some.inj hw₁.dh).symm)]
      exact hnewest q₁ t₁ hsuf₁ hown₁
  · rcases List.mem_cons.mp hm with he | hm
    · cases he
    · obtain ⟨k', hs⟩ := h.accepted hm
      exact ⟨k', List.mem_cons_of_mem _ hs⟩

end Mail

end GhostChat.Proofs
