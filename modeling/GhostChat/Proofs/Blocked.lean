import GhostChat.Proofs.GroupInbox

/-!
# A group message that cannot be read

`recv_group_text` is to decrypt all pending group messages. A message it cannot
read is put back at the head of the inbox, and the call ends there; the next
call begins with the same message. Whatever made it fail will do so again: a
message that does not parse never will, nor one of another epoch or one that
does not open, and the replay cache only grows.

So what is in front of the first bad message is given out, by the first call
already, and what is behind it never. That a bad message may mark the cache, as
a forged one does, makes no difference: it happens at the end.
-/

namespace GhostChat.Proofs

open GhostChat.Lib GhostChat.Lib.Effect GhostChat.Ref

variable {K P : Type} {c : Crypto K P Bytes} {st : GroupState K} {groupId : Bytes}
  {m m' m'' : GroupMessenger}

/-! ## The replay cache grows -/

structure CacheGrown (m m' : GroupMessenger) : Prop where
  bound : m'.replayCache.maxEntries = m.replayCache.maxEntries
  seen : m.replayCache.seen <:+ m'.replayCache.seen

theorem CacheGrown.refl (m : GroupMessenger) : CacheGrown m m := ⟨rfl, List.suffix_refl _⟩

theorem CacheGrown.trans (h : CacheGrown m m') (h' : CacheGrown m' m'') : CacheGrown m m'' :=
  ⟨h'.bound.trans h.bound, h.seen.trans h'.seen⟩

theorem CacheGrown.refuses (h : CacheGrown m m') {key : Int × Int}
    (hnot : ¬ Admits m.replayCache key) :
    ¬ Admits m'.replayCache key := by
  intro hadmits
  refine hnot ⟨fun hmem => hadmits.1 (h.seen.subset hmem), ?_⟩
  have hroom := hadmits.2
  have hlen := h.seen.length_le
  rw [h.bound] at hroom
  omega

theorem readGroupEnvelope_grows (envelope : Json) (m : GroupMessenger) :
    CacheGrown m (after (readGroupEnvelope c st envelope m)) := by
  rw [readGroupEnvelope, bind_apply]
  cases groupMessageEnvelopeFromDict envelope with
  | error e => exact CacheGrown.refl m
  | ok found =>
      simp only [lift_ok]
      rw [bind_apply]
      cases GroupMessage.fromDict found.2 with
      | error e => exact CacheGrown.refl m
      | ok msg =>
          have hafter := decrypt_after c st msg [] m
          have hgrown : CacheGrown m (after (GroupMessenger.decrypt c st msg [] m)) := by
            constructor
            · rw [hafter]
              split <;> rfl
            · rw [hafter]
              split
              · exact List.suffix_cons _ _
              · exact List.suffix_refl _
          simp only [lift_ok, bind_apply]
          cases hdec : GroupMessenger.decrypt c st msg [] m with
          | error e m₁ => rwa [hdec] at hgrown
          | ok plaintext m₁ =>
              rw [hdec] at hgrown
              simp only
              cases decodeUtf8 plaintext <;> exact hgrown

/-- Only what is legible is ever read. -/
theorem legible_of_read {envelope : Json} {text : String}
    (h : readGroupEnvelope c st envelope m = .ok text m') :
    ∃ key, Legible c st envelope key text := by
  rw [readGroupEnvelope, bind_apply] at h
  cases henv : groupMessageEnvelopeFromDict envelope with
  | error e => rw [henv] at h; cases h
  | ok found =>
      rw [henv] at h
      simp only [lift_ok, bind_apply] at h
      cases hmsg : GroupMessage.fromDict found.2 with
      | error e => rw [hmsg] at h; cases h
      | ok msg =>
          rw [hmsg] at h
          simp only [lift_ok] at h
          cases hdec : GroupMessenger.decrypt c st msg [] m with
          | error e m₁ => rw [hdec] at h; cases h
          | ok plaintext m₁ =>
              rw [hdec] at h
              obtain ⟨hcurrent, -, hopen⟩ := decrypt_ok_iff.mp (congrArg value? hdec)
              simp only at h
              cases htext : decodeUtf8 plaintext with
              | error e => rw [htext] at h; cases h
              | ok text' =>
                  rw [htext] at h
                  cases h
                  exact ⟨_, _, _, msg, plaintext, henv, hmsg, hcurrent, rfl, hopen, htext⟩

theorem Legible.key_eq {envelope : Json} {key key' : Int × Int} {text text' : String}
    (h : Legible c st envelope key text) (h' : Legible c st envelope key' text') : key = key' := by
  obtain ⟨gid, payload, msg, plaintext, henv, hmsg, -, hkey, -⟩ := h.reads
  obtain ⟨gid', payload', msg', plaintext', henv', hmsg', -, hkey', -⟩ := h'.reads
  rw [henv] at henv'
  cases henv'
  rw [hmsg] at hmsg'
  cases hmsg'
  exact hkey.symm.trans hkey'

/-- The key is the one that was marked. -/
theorem legible_of_marked {envelope : Json} {key : Int × Int} {text : String}
    (hread : value? (readGroupEnvelope c st envelope m) = some text)
    (hmarked : (after (readGroupEnvelope c st envelope m)).replayCache.seen
      = key :: m.replayCache.seen) :
    Legible c st envelope key text := by
  cases hcall : readGroupEnvelope c st envelope m with
  | error e m₁ => rw [hcall] at hread; cases hread
  | ok text' m₁ =>
      rw [hcall] at hread hmarked
      cases hread
      obtain ⟨key', hlegible⟩ := legible_of_read hcall
      have hresult := hlegible.read m
      rw [hcall] at hresult
      split at hresult
      · cases hresult
        have hkey : key' :: m.replayCache.seen = key :: m.replayCache.seen := hmarked
        rwa [← (List.cons.inj hkey).1]
      · obtain ⟨e, he⟩ := hresult
        cases he

/-! ## What waits in an inbox -/

/-- What waits, and who knows it to be honest. -/
inductive GroupItem where
  | honest (envelope : Json) (key : Int × Int) (text : String)
  | bad (envelope : Json)

namespace GroupItem

def envelope : GroupItem → Json
  | honest envelope _ _ => envelope
  | bad envelope => envelope

def honest? : GroupItem → Option ((Int × Int) × String)
  | honest _ key text => some (key, text)
  | bad _ => none

end GroupItem

/-- The keys and texts of the honest messages. -/
def honestOf (items : List GroupItem) : List ((Int × Int) × String) := items.filterMap (·.honest?)

/-- An honest message is legible and was not received. A bad one is not
legible, whatever is wrong with it; or it is a replay, of one that was received
or of one before it in the inbox. -/
def Labelled (c : Crypto K P Bytes) (st : GroupState K) (received : List (Int × Int)) :
    (known : List (Int × Int)) → List GroupItem → Prop
  | _, [] => True
  | known, .honest envelope key text :: rest =>
      Legible c st envelope key text ∧ key ∉ received ∧ Labelled c st received (key :: known) rest
  | known, .bad envelope :: rest =>
      (∀ key text, Legible c st envelope key text → key ∈ known) ∧ Labelled c st received known rest

/-- No honest message is behind a bad one, no two of them have one key, and the
cache has room for them all. -/
structure Unblocked (r : ReplayCache) (items : List GroupItem) : Prop where
  first : items.Pairwise fun x y => y.honest?.isSome → x.honest?.isSome
  distinct : ((honestOf items).map (·.1)).Nodup
  room : (honestOf items).length ≤ r.maxEntries - r.seen.length

/-! ## The loop -/

/-- The message at the head will not be read. -/
def Halted (c : Crypto K P Bytes) (st : GroupState K) (m : GroupMessenger) : List Json → Prop
  | [] => True
  | envelope :: _ => ∀ m₁, CacheGrown m m₁ → ∃ e m₂,
      readGroupEnvelope c st envelope m₁ = .error e m₂ ∧ CacheGrown m₁ m₂

theorem Halted.loop {left : List Json} (h : Halted c st m left) (hm : CacheGrown m m')
    (out : List String) :
    ∃ m'', recvGroupLoop c st left out m' = .ok (out, left) m'' ∧ CacheGrown m m'' := by
  cases left with
  | nil => exact ⟨m', rfl, hm⟩
  | cons envelope rest =>
      obtain ⟨e, m₂, hread, hgrown⟩ := h m' hm
      refine ⟨m₂, ?_, hm.trans hgrown⟩
      rw [recvGroupLoop_cons, hread]

/-- Of a message that can only be a replay. -/
theorem halted_of_known {envelope : Json} {rest : List Json}
    (h : ∀ key text, Legible c st envelope key text → key ∈ m.replayCache.seen) :
    Halted c st m (envelope :: rest) := by
  intro m₁ hm₁
  have hgrown : CacheGrown m₁ (after (readGroupEnvelope c st envelope m₁)) :=
    readGroupEnvelope_grows envelope m₁
  cases hread : readGroupEnvelope c st envelope m₁ with
  | error e m₂ =>
      rw [hread] at hgrown
      exact ⟨e, m₂, rfl, hgrown⟩
  | ok text m₂ =>
      obtain ⟨key, hlegible⟩ := legible_of_read hread
      have hknown : key ∈ m₁.replayCache.seen := hm₁.seen.subset (h key text hlegible)
      have hrefused := hlegible.read m₁
      rw [if_neg fun hadmits => hadmits.1 hknown, hread] at hrefused
      obtain ⟨e, he⟩ := hrefused
      cases he

/-- An honest message the cache refuses stays refused. -/
theorem halted_of_refused {envelope : Json} {rest : List Json} {key : Int × Int} {text : String}
    (h : Legible c st envelope key text) (hnot : ¬ Admits m.replayCache key) :
    Halted c st m (envelope :: rest) := by
  intro m₁ hm₁
  have hrefused := h.read m₁
  rw [if_neg (hm₁.refuses hnot)] at hrefused
  obtain ⟨e, he⟩ := hrefused
  exact ⟨e, m₁, he, CacheGrown.refl m₁⟩

@[simp] theorem honestOf_bad (envelope : Json) (items : List GroupItem) :
    honestOf (.bad envelope :: items) = honestOf items := rfl

@[simp] theorem honestOf_honest (envelope : Json) (key : Int × Int) (text : String)
    (items : List GroupItem) :
    honestOf (.honest envelope key text :: items) = (key, text) :: honestOf items := rfl

theorem mem_honestOf {items : List GroupItem} :
    (∃ x ∈ items, x.honest?.isSome) ↔ honestOf items ≠ [] := by
  simp only [Ne, honestOf, List.filterMap_eq_nil_iff, not_forall, exists_prop,
    Option.isSome_iff_ne_none]

/-- What the loop has to find in the inbox and in the cache. -/
structure Fits (r : ReplayCache) (items : List GroupItem) : Prop extends Unblocked r items where
  unknown : ∀ key ∈ (honestOf items).map (·.1), key ∉ r.seen

/-- Behind a bad message. -/
theorem fits_bad {r : ReplayCache} {envelope : Json} {items : List GroupItem} :
    Fits r (.bad envelope :: items) ↔ honestOf items = [] := by
  constructor
  · intro h
    by_contra hne
    obtain ⟨y, hy, hhonest⟩ := mem_honestOf.mpr hne
    have := (List.pairwise_cons.mp h.first).1 y hy hhonest
    cases this
  · intro h
    have hno : ∀ y ∈ items, ¬ y.honest?.isSome := fun y hy hhonest =>
      mem_honestOf.mp ⟨y, hy, hhonest⟩ h
    have hfirst : (GroupItem.bad envelope :: items).Pairwise fun x y =>
        y.honest?.isSome → x.honest?.isSome := by
      refine List.pairwise_cons.mpr ⟨fun y hy hhonest => absurd hhonest (hno y hy), ?_⟩
      exact List.pairwise_of_forall_mem_list fun x _ y hy hhonest => absurd hhonest (hno y hy)
    refine ⟨⟨hfirst, ?_, ?_⟩, ?_⟩
    · rw [honestOf_bad, h]
      exact List.nodup_nil
    · rw [honestOf_bad, h]
      exact Nat.zero_le _
    · rw [honestOf_bad, h]
      simp

/-- Behind an honest one that is read. -/
theorem fits_honest {envelope : Json} {key : Int × Int} {text : String}
    {items : List GroupItem} (hadmits : Admits m.replayCache key) :
    Fits m.replayCache (.honest envelope key text :: items) ↔
      Fits (marked m [key]).replayCache items := by
  have hseen : (marked m [key]).replayCache.seen = key :: m.replayCache.seen := rfl
  have hbound : (marked m [key]).replayCache.maxEntries = m.replayCache.maxEntries := rfl
  have hroom := hadmits.2
  constructor
  · intro h
    have hnodup := h.distinct
    have hfew := h.room
    have hunknown := h.unknown
    rw [honestOf_honest, List.map_cons] at hnodup hunknown
    rw [honestOf_honest, List.length_cons] at hfew
    refine ⟨⟨(List.pairwise_cons.mp h.first).2, (List.nodup_cons.mp hnodup).2, ?_⟩, ?_⟩
    · rw [hseen, hbound, List.length_cons]
      omega
    · intro key' hkey'
      rw [hseen, List.mem_cons, not_or]
      refine ⟨?_, hunknown key' (List.mem_cons_of_mem _ hkey')⟩
      rintro rfl
      exact (List.nodup_cons.mp hnodup).1 hkey'
  · intro h
    have hfew := h.room
    rw [hseen, hbound, List.length_cons] at hfew
    refine ⟨⟨List.pairwise_cons.mpr ⟨fun _ _ _ => rfl, h.first⟩, ?_, ?_⟩, ?_⟩
    · rw [honestOf_honest, List.map_cons, List.nodup_cons]
      refine ⟨fun hmem => h.unknown key hmem ?_, h.distinct⟩
      rw [hseen]
      exact List.mem_cons_self
    · rw [honestOf_honest, List.length_cons]
      omega
    · rw [honestOf_honest, List.map_cons]
      intro key' hkey'
      rcases List.mem_cons.mp hkey' with rfl | hkey'
      · exact hadmits.1
      · intro hmem
        refine h.unknown key' hkey' ?_
        rw [hseen]
        exact List.mem_cons_of_mem _ hmem

/-- Behind an honest one that the cache refuses. -/
theorem not_fits_refused {r : ReplayCache} {envelope : Json} {key : Int × Int} {text : String}
    {items : List GroupItem} (hnot : ¬ Admits r key) :
    ¬ Fits r (.honest envelope key text :: items) := by
  intro h
  have hroom := h.room
  rw [honestOf_honest, List.length_cons] at hroom
  exact hnot ⟨h.unknown key List.mem_cons_self, by omega⟩

/-- The loop gives out what is honest up to the first message it cannot read,
and that is everything honest exactly if the inbox fits. -/
theorem recvGroupLoop_labelled {received known : List (Int × Int)} {items : List GroupItem}
    (hlabel : Labelled c st received known items) (hknown : m.replayCache.seen = known)
    (out : List String) :
    ∃ n m', recvGroupLoop c st (items.map (·.envelope)) out m
        = .ok (out ++ (honestOf (items.take n)).map (·.2), (items.drop n).map (·.envelope)) m' ∧
      Halted c st m' ((items.drop n).map (·.envelope)) ∧
      (honestOf (items.drop n) = [] ↔ Fits m.replayCache items) := by
  induction items generalizing known out m with
  | nil =>
      refine ⟨0, m, ?_, trivial, iff_of_true rfl ⟨⟨List.Pairwise.nil, List.nodup_nil,
        Nat.zero_le _⟩, ?_⟩⟩
      · simp [recvGroupLoop, honestOf]
      · intro key hkey
        cases hkey
  | cons item rest ih =>
      cases item with
      | bad envelope =>
          obtain ⟨hbad, -⟩ := hlabel
          have hhalted : Halted c st m (envelope :: rest.map (·.envelope)) :=
            halted_of_known fun key text h => hknown ▸ hbad key text h
          obtain ⟨m₁, hloop, hgrown⟩ := hhalted.loop (CacheGrown.refl m) out
          refine ⟨0, m₁, ?_, fun m₂ hm₂ => hhalted m₂ (hgrown.trans hm₂), ?_⟩
          · rw [List.take_zero, List.drop_zero, List.map_cons]
            simpa [honestOf, GroupItem.envelope] using hloop
          · rw [List.drop_zero, honestOf_bad]
            exact fits_bad.symm
      | honest envelope key text =>
          obtain ⟨hlegible, -, hrest⟩ := hlabel
          have hread := hlegible.read m
          by_cases hadmits : Admits m.replayCache key
          · rw [if_pos hadmits] at hread
            have hseen : (marked m [key]).replayCache.seen = key :: known := by
              rw [← hknown]
              rfl
            obtain ⟨n, m₁, hloop, hhalted, hall⟩ := ih hrest hseen (out ++ [text])
            refine ⟨n + 1, m₁, ?_, hhalted, hall.trans (fits_honest hadmits).symm⟩
            refine (recvGroupLoop_cons envelope _ out m).trans ?_
            rw [hread]
            refine hloop.trans ?_
            rw [List.take_succ_cons, honestOf_honest, List.map_cons, List.append_assoc]
            rfl
          · rw [if_neg hadmits] at hread
            obtain ⟨e, hread⟩ := hread
            refine ⟨0, m, ?_, halted_of_refused hlegible hadmits,
              iff_of_false (List.cons_ne_nil _ _) (not_fits_refused hadmits)⟩
            refine (recvGroupLoop_cons envelope _ out m).trans ?_
            rw [hread]
            simp [honestOf, GroupItem.envelope]

theorem Labelled.unknown {received known : List (Int × Int)} {items : List GroupItem}
    (h : Labelled c st received known items) :
    ∀ key ∈ (honestOf items).map (·.1), key ∉ received := by
  induction items generalizing known with
  | nil =>
      intro key hkey
      cases hkey
  | cons item rest ih =>
      cases item with
      | bad envelope => exact ih h.2
      | honest envelope key text =>
          obtain ⟨-, hnew, hrest⟩ := h
          intro key' hkey'
          rw [honestOf_honest, List.map_cons] at hkey'
          rcases List.mem_cons.mp hkey' with rfl | hkey'
          · exact hnew
          · exact ih hrest key' hkey'

/-! ## Calls -/

/-- What `n` calls of `recv_group_text` give out, one after the other. -/
def receivedTexts (c : Crypto K P Bytes) (groupId : Bytes) :
    Nat → InMemoryEndpoint K P → List String
  | 0, _ => []
  | n + 1, e =>
      match InMemoryEndpoint.recvGroupText c groupId e with
      | .ok out e' => out ++ receivedTexts c groupId n e'
      | .error _ e' => receivedTexts c groupId n e'

/-- An endpoint whose receiver for the group is the messenger, with the inbox. -/
structure Receives (groupId : Bytes) (st : GroupState K) (m : GroupMessenger) (inbox : List Json)
    (e : InMemoryEndpoint K P) : Prop where
  receiver : ∃ mgr i r, e.groupManager = some mgr ∧
    receiverFor mgr groupId = some (i, r, st) ∧ r.messenger = m
  inbox : waiting groupId e = inbox

theorem Receives.recv {inbox left : List Json} {out : List String} {e : InMemoryEndpoint K P}
    (h : Receives groupId st m inbox e)
    (hloop : recvGroupLoop c st inbox [] m = .ok (out, left) m') :
    ∃ e', InMemoryEndpoint.recvGroupText c groupId e = .ok out e' ∧
      Receives groupId st m' left e' := by
  obtain ⟨⟨mgr, i, r, hmgr, hfor, rfl⟩, rfl⟩ := h
  obtain ⟨mgr', hcall, -, hfor'⟩ := readGroupInbox_loop hfor hloop
  have hleft : Odict.has e.groupInbox groupId = false → left = [] := by
    intro hhas
    rw [waiting, Odict.has_eq_false_iff.mp hhas] at hloop
    cases hloop
    rfl
  rw [waiting] at hcall
  refine ⟨_, by simp only [InMemoryEndpoint.recvGroupText, hmgr, hcall]; rfl,
    ⟨⟨mgr', i, _, rfl, hfor', rfl⟩, ?_⟩⟩
  cases hhas : Odict.has e.groupInbox groupId with
  | true => simp [waiting, Odict.get?_set_self]
  | false => simp [waiting, Odict.has_eq_false_iff.mp hhas, hleft hhas]

/-- Once the head of the inbox will not be read, no call gives out anything. -/
theorem receivedTexts_halted {left : List Json} {e : InMemoryEndpoint K P}
    (h : Receives groupId st m' left e) (hm : CacheGrown m m') (hhalted : Halted c st m left)
    (n : Nat) : receivedTexts c groupId n e = [] := by
  induction n generalizing m' e with
  | zero => rfl
  | succ n ih =>
      obtain ⟨m₁, hloop, hgrown⟩ := hhalted.loop hm []
      obtain ⟨e', hcall, h'⟩ := h.recv hloop
      rw [receivedTexts, hcall]
      exact ih h' hgrown

/-- From some call on, what was given out is every honest text, once each. -/
def HonestReceived (c : Crypto K P Bytes) (groupId : Bytes) (items : List GroupItem)
    (e : InMemoryEndpoint K P) : Prop :=
  ∃ n, ∀ k, n ≤ k → (receivedTexts c groupId k e).Perm ((honestOf items).map (·.2))

/-- Calling `recv_group_text` again and again gives out every honest message of
an inbox exactly once, if and only if no bad message is before an honest one,
no two honest ones have a key in common, and the cache has room. -/
theorem honest_received_iff {items : List GroupItem} {e : InMemoryEndpoint K P}
    (h : Receives groupId st m (items.map (·.envelope)) e)
    (hlabel : Labelled c st m.replayCache.seen m.replayCache.seen items) :
    HonestReceived c groupId items e ↔ Unblocked m.replayCache items := by
  obtain ⟨n, m₁, hloop, hhalted, hall⟩ := recvGroupLoop_labelled hlabel rfl []
  obtain ⟨e', hcall, h'⟩ := h.recv hloop
  have hgiven : ∀ k, 1 ≤ k →
      receivedTexts c groupId k e = (honestOf (items.take n)).map (·.2) := by
    intro k hk
    cases k with
    | zero => exact absurd hk (by decide)
    | succ k =>
        rw [receivedTexts, hcall]
        simp only [receivedTexts_halted h' (CacheGrown.refl m₁) hhalted, List.append_nil,
          List.nil_append]
  have hsplit : honestOf items = honestOf (items.take n) ++ honestOf (items.drop n) := by
    rw [honestOf, honestOf, honestOf, ← List.filterMap_append, List.take_append_drop]
  have hfits : Fits m.replayCache items ↔ Unblocked m.replayCache items :=
    ⟨Fits.toUnblocked, fun hfits => ⟨hfits, hlabel.unknown⟩⟩
  rw [← hfits, ← hall]
  constructor
  · rintro ⟨k, hk⟩
    have hperm := hk (k + 1) (Nat.le_succ k)
    rw [hgiven _ (Nat.le_add_left 1 k), hsplit] at hperm
    have hlen := hperm.length_eq
    rw [List.length_map, List.length_map, List.length_append] at hlen
    exact List.eq_nil_of_length_eq_zero (by omega)
  · intro hnone
    refine ⟨1, fun k hk => ?_⟩
    rw [hgiven k hk, hsplit, hnone, List.append_nil]

/-! ## The sample group -/

/-- A text of the member with the leaf, in the sample group. -/
def sampleText (identityPk : Bytes) (leaf : Nat) (text : String) : Json :=
  match Endpoints.groupMessageOf sampleCrypto (sampleMember "" identityPk leaf) [7] text with
  | .ok msg => groupMessageEnvelopeToDict [7] msg.toDict
  | .error _ => .null

/-- The second member's endpoint, with an inbox. -/
def sampleReader (inbox : List Json) : InMemoryEndpoint Bytes Bytes :=
  { sampleMember "bob" [2] 1 with groupInbox := [([7], inbox)] }

theorem sampleReader_receives (inbox : List Json) :
    Receives [7] sampleRoom { senderLeafIndex := 0 } inbox (sampleReader inbox) :=
  ⟨⟨_, 0, ⟨{ senderLeafIndex := 0 }, 0⟩, rfl, rfl, rfl⟩, rfl⟩

theorem sampleText_legible :
    Legible sampleCrypto sampleRoom (sampleText [1] 0 "hello") (0, 0) "hello" ∧
      Legible sampleCrypto sampleRoom (sampleText [2] 1 "hi") (1, 0) "hi" :=
  ⟨legible_of_marked (m := { senderLeafIndex := 0 }) (by decide +kernel) (by decide +kernel),
    legible_of_marked (m := { senderLeafIndex := 0 }) (by decide +kernel) (by decide +kernel)⟩

/-- Both members' texts, something that is no envelope, and the first text
again. -/
def sampleMixed : List GroupItem := [
  .honest (sampleText [1] 0 "hello") (0, 0) "hello", .honest (sampleText [2] 1 "hi") (1, 0) "hi",
  .bad .null, .bad (sampleText [1] 0 "hello")]

theorem null_illegible (key : Int × Int) (text : String) :
    ¬ Legible c st .null key text := by
  rintro ⟨gid, payload, msg, plaintext, henv, -⟩
  cases henv

theorem honest_received_mixed :
    Unblocked { seen := [] } sampleMixed ∧
      HonestReceived sampleCrypto [7] sampleMixed
        (sampleReader (sampleMixed.map (·.envelope))) := by
  obtain ⟨hfirst, hsecond⟩ := sampleText_legible
  have hlabel : Labelled sampleCrypto sampleRoom [] [] sampleMixed := by
    refine ⟨hfirst, by decide, hsecond, by decide, fun key text h => absurd h (null_illegible _ _),
      fun key text h => ?_, trivial⟩
    rw [← hfirst.key_eq h]
    decide
  have hunblocked : Unblocked { seen := [] } sampleMixed :=
    ⟨by decide, by decide, by decide⟩
  exact ⟨hunblocked, (honest_received_iff (sampleReader_receives _) hlabel).mpr hunblocked⟩

/-- Something that is no envelope, in front of a text. -/
theorem honest_text_blocked :
    ¬ ∀ (items : List GroupItem) (m : GroupMessenger) (e : InMemoryEndpoint Bytes Bytes),
      Receives [7] sampleRoom m (items.map (·.envelope)) e →
        Labelled sampleCrypto sampleRoom m.replayCache.seen m.replayCache.seen items →
          HonestReceived sampleCrypto [7] items e := by
  intro h
  let items : List GroupItem :=
    [.bad .null, .honest (sampleText [1] 0 "hello") (0, 0) "hello"]
  have hreader := sampleReader_receives (items.map (·.envelope))
  obtain ⟨n, hn⟩ := h items _ _ hreader
    ⟨fun key text h => absurd h (null_illegible _ _), sampleText_legible.1, by decide, trivial⟩
  have hhalted : Halted sampleCrypto sampleRoom { senderLeafIndex := 0 }
      (items.map (·.envelope)) :=
    halted_of_known fun key text h => absurd h (null_illegible _ _)
  have hnone := receivedTexts_halted hreader (CacheGrown.refl _) hhalted n
  have hperm := hn n (le_refl n)
  rw [hnone] at hperm
  cases hperm.length_eq

end GhostChat.Proofs
