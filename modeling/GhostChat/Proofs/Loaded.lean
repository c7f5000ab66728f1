import GhostChat.Proofs.Persistence
import GhostChat.Proofs.SealedFormat

/-!
# What is loaded is sound, and everything else is a corrupted session

`state_from_dict` goes through the fields one by one, and each check either
raises `CorruptedSessionError` or leaves a value within its bounds. The two
stores have parsers of their own, which raise a `ValueError` or the error of a
store that is too long; both are caught around them and reworded.

The replay cache is filled by `add`, which would raise something else on a
cache of size 0. Its size is 2000, and that is an invariant of the loop.
-/

namespace GhostChat.Proofs

open GhostChat.Lib GhostChat.Lib.Effect GhostChat.Ref

/-- A state within the bounds of a session file. -/
structure SoundState (cap : Nat) (s : SessionState) : Prop extends FileFit s where
  skippedLength : s.skippedMessageKeys.store.length ≤ cap
  skippedSized : ∀ e ∈ s.skippedMessageKeys.store,
    e.1.1.length = 32 ∧ e.1.2 < 2 ^ 32 ∧ e.2.length = 32
  receivedLength : s.receivedIds.order.length ≤ 2000
  receivedSized : ∀ id ∈ s.receivedIds.order, id.1.length = 32 ∧ id.2 < 2 ^ 32

/-- The ways a field may end: with `Q`, or as corrupted. -/
abbrev Loads {α : Type} (Q : α → Prop) : Except Exn α → Prop :=
  Ends Q fun e => ∃ m, e = .corruptedSession m

/-- The ways an entry of a store may end. -/
abbrev Enters {α : Type} (Q : α → Prop) : Except Exn α → Prop :=
  Ends Q fun e => ∃ m, e = .valueError m

/-! ## Base64 and ids -/

theorem a2bLoop_enters (l : List Char) (quadPos leftchar pads : Nat) (out : Bytes) :
    Enters (fun _ => True) (a2bLoop l quadPos leftchar pads out) := by
  fun_induction a2bLoop l quadPos leftchar pads out <;>
    first
      | assumption
      | exact trivial
      | exact ⟨_, rfl⟩

theorem b64Decode_enters (s : String) : Enters (fun _ => True) (b64Decode s) := by
  rw [b64Decode, urlsafeB64decode]
  split
  · exact a2bLoop_enters _ _ _ _ _
  · exact ⟨_, rfl⟩

theorem decodeId_enters (s tooShort : String) :
    Enters (fun id => id.1.length = 32 ∧ id.2 < 2 ^ 32) (decodeId s tooShort) := by
  refine (b64Decode_enters s).bind fun raw _ => Ends.guard (fun _ => ⟨_, rfl⟩) fun hlen => ?_
  have hlen : raw.length = 36 := not_not.mp hlen
  have hnumber := uint32be_fromBytesBig (b := raw.drop 32) (by rw [List.length_drop, hlen])
  exact ⟨by rw [List.length_take, hlen]; rfl, hnumber.1⟩

/-! ## The fields -/

section Fields

variable {d : List (String × Json)}

theorem requireStrB64_loads (name : String) (v : Json) :
    Loads (fun b => b.length = 32) (requireStrB64 name v) := by
  unfold requireStrB64
  split
  · split
    · exact ⟨_, rfl⟩
    · split
      · exact ⟨_, rfl⟩
      · next hlen => exact not_not.mp hlen
  · exact ⟨_, rfl⟩

theorem optionalKey_loads (name : String) (v : Json) :
    Loads (fun k => ∀ b, k = some b → b.length = 32) (optionalKey name v) := by
  unfold optionalKey
  split
  · intro b hb
    cases hb
  · rw [map_eq_pure_bind]
    refine (requireStrB64_loads name v).bind fun b hlen => ?_
    intro b' hb'
    cases hb'
    exact hlen

theorem requireCounter_loads (name : String) (v : Json) :
    Loads (fun _ => True) (requireCounter name v) := by
  unfold requireCounter
  split
  · exact trivial
  · split
    · exact ⟨_, rfl⟩
    · exact trivial
  · exact ⟨_, rfl⟩
  · exact ⟨_, rfl⟩

theorem skippedField_loads (v : Json) : Loads (fun _ => True) (skippedField v) := by
  unfold skippedField
  split
  · exact trivial
  · exact trivial
  · exact ⟨_, rfl⟩

theorem checkFormat_loads : Loads (fun _ => True) (checkFormat d) := by
  unfold checkFormat
  split
  · exact ⟨_, rfl⟩
  · split
    · exact ⟨_, rfl⟩
    · exact trivial

theorem requireSessionVersion_loads : Loads (fun v => 1 ≤ v) (requireSessionVersion d) := by
  unfold requireSessionVersion
  split
  · split
    · exact ⟨_, rfl⟩
    · next sv _ hsv =>
        have hle : 1 ≤ sv.toNat := by omega
        exact hle
  · exact ⟨_, rfl⟩

end Fields

/-! ## The stores -/

theorem skippedEntry_enters {store : Odict (Bytes × Nat) Bytes} (h : SkippedStorable store)
    (e : String × Json) : Enters SkippedStorable (skippedEntry store e) := by
  unfold skippedEntry
  split
  · refine (decodeId_enters _ _).bind fun id hid => ?_
    refine (b64Decode_enters _).bind fun key _ => Ends.guard (fun _ => ⟨_, rfl⟩) fun hkey => ?_
    refine SkippedStorable.mk (fun e' he' => ?_) (Odict.set_keys_nodup h.nodup _ _)
    rcases Odict.mem_set he' with heq | ⟨hmem, -⟩
    · rw [heq]
      exact ⟨hid.1, hid.2, not_not.mp hkey⟩
    · exact h.sized e' hmem
  · exact ⟨_, rfl⟩

/-- Both errors of the store of skipped keys. -/
theorem skippedFromDict_ends (d : List (String × Json)) (cap : Nat) :
    Ends (fun sk => SkippedStorable sk.store ∧ sk.store.length ≤ cap)
      (fun e => ∃ m, e = .valueError m ∨ e = .skippedKeyStorageLimit m)
      (SkippedMessageKeys.fromDict d cap) := by
  have hstart : SkippedStorable [] := ⟨by simp, .nil⟩
  have hloop : Enters SkippedStorable (d.foldlM skippedEntry []) :=
    Ends.foldlM hstart fun store e h => skippedEntry_enters h e
  refine (hloop.mono (fun _ h => h) fun e => ?_).bind fun store hstore => ?_
  · rintro ⟨m, rfl⟩
    exact ⟨m, Or.inl rfl⟩
  · exact Ends.guard (fun _ => ⟨_, Or.inr rfl⟩) fun hlen => ⟨hstore, Nat.not_lt.mp hlen⟩

theorem rewordSkipped_loads {α : Type} {Q : α → Prop} {x : Except Exn α}
    (h : Ends Q (fun e => ∃ m, e = .valueError m ∨ e = .skippedKeyStorageLimit m) x) :
    Loads Q (rewordSkipped x) := by
  cases x with
  | ok v => exact h
  | error e =>
      obtain ⟨m, rfl | rfl⟩ := h
      · exact ⟨_, rfl⟩
      · exact ⟨_, rfl⟩

theorem rewordReceived_loads {α : Type} {Q : α → Prop} {x : Except Exn α} (h : Enters Q x) :
    Loads Q (rewordReceived x) := by
  cases x with
  | ok v => exact h
  | error e =>
      obtain ⟨m, rfl⟩ := h
      exact ⟨_, rfl⟩

/-- A replay cache as the loop of `from_dict` has it. -/
def ReceivedFit (r : ReceivedIdsStore) : Prop := ReceivedBounded r ∧ r.order.Nodup

theorem received_add_fit {r : ReceivedIdsStore} (h : ReceivedFit r) {id : Bytes × Nat}
    (hid : id.1.length = 32 ∧ id.2 < 2 ^ 32) :
    ∃ r', ReceivedIdsStore.add id.1 id.2 r = .ok () r' ∧ ReceivedFit r' := by
  have hkept := received_add_bounded hid.1 id.2 r h.1
  have hnodup := received_add_nodup id.1 id.2 r h.2
  rcases received_add_cases id.1 id.2 r with
    ⟨e, order, hadd, -, hbad⟩ | ⟨-, -, hadd⟩ | ⟨-, -, -, hadd⟩
  · have hroom := h.1.room
    omega
  · rw [hadd] at hkept hnodup
    exact ⟨_, hadd, hkept, hnodup⟩
  · rw [hadd] at hkept hnodup
    exact ⟨_, hadd, hkept, hnodup⟩

theorem addAll_ends (ids : List Json) {r : ReceivedIdsStore} (h : ReceivedFit r) :
    (∃ m r', ReceivedIdsStore.addAll ids r = .error (.valueError m) r') ∨
      ∃ r', ReceivedIdsStore.addAll ids r = .ok () r' ∧ ReceivedFit r' := by
  induction ids generalizing r with
  | nil => exact Or.inr ⟨r, rfl, h⟩
  | cons v ids ih =>
      cases v with
      | str s =>
          rcases ends_iff.mp (decodeId_enters s "received id must decode to 36 bytes") with
            ⟨_, hdec, m, rfl⟩ | ⟨id, hdec, hid⟩
          · refine Or.inl ⟨m, r, ?_⟩
            simp only [ReceivedIdsStore.addAll, hdec, bind_apply, lift_error]
          · obtain ⟨r', hadd, hfit⟩ := received_add_fit h hid
            cases hold : r.contains id.1 id.2 with
            | true =>
                simpa [ReceivedIdsStore.addAll, hdec, hold] using ih h
            | false =>
                simpa [ReceivedIdsStore.addAll, hdec, hold, hadd] using ih hfit
      | null => exact Or.inl ⟨_, r, rfl⟩
      | bool b => exact Or.inl ⟨_, r, rfl⟩
      | int n => exact Or.inl ⟨_, r, rfl⟩
      | float x => exact Or.inl ⟨_, r, rfl⟩
      | list items => exact Or.inl ⟨_, r, rfl⟩
      | dict fields => exact Or.inl ⟨_, r, rfl⟩

theorem receivedFromDict_enters (v : Json) :
    Enters ReceivedFit (ReceivedIdsStore.fromDict v) := by
  have hempty : ReceivedFit {} :=
    ⟨⟨rfl, Nat.zero_le _, by simp⟩, .nil⟩
  unfold ReceivedIdsStore.fromDict
  split
  · split
    · next ids _ =>
        rcases addAll_ends ids hempty with ⟨m, r', hrun⟩ | ⟨r', hrun, hfit⟩
        · rw [hrun]
          exact ⟨m, rfl⟩
        · rw [hrun]
          exact hfit
    · exact hempty
  · exact hempty

/-! ## The state -/

theorem stateFromDict_loads (cap : Nat) (v : Json) :
    Loads (SoundState cap) (stateFromDict cap v) := by
  unfold stateFromDict
  split
  · refine checkFormat_loads.bind fun _ _ => ?_
    refine (requireStrB64_loads _ _).bind fun rootKey hroot => ?_
    refine (optionalKey_loads _ _).bind fun ckS hckS => ?_
    refine (optionalKey_loads _ _).bind fun ckR hckR => ?_
    refine (optionalKey_loads _ _).bind fun dhsPrivate hprivate => ?_
    refine (optionalKey_loads _ _).bind fun dhr hdhr => ?_
    refine (requireCounter_loads _ _).bind fun Ns _ => ?_
    refine (requireCounter_loads _ _).bind fun Nr _ => ?_
    refine (requireCounter_loads _ _).bind fun PN _ => ?_
    refine (skippedField_loads _).bind fun skippedData _ => ?_
    refine (rewordSkipped_loads (skippedFromDict_ends _ _)).bind fun skipped hskipped => ?_
    refine requireSessionVersion_loads.bind fun version hversion => ?_
    refine (rewordReceived_loads (receivedFromDict_enters _)).bind fun received hreceived => ?_
    exact {
      root := hroot, sending := hckS, receiving := hckR, private_ := hprivate, remote := hdhr
      skipped := hskipped.1.nodup, received := hreceived.2, version := hversion
      skippedLength := hskipped.2, skippedSized := hskipped.1.sized
      receivedLength := hreceived.1.length_le, receivedSized := hreceived.1.checked }
  · exact ⟨_, rfl⟩

/-- Whatever JSON value a session is loaded from, it is refused as corrupted,
or what is returned is sound. -/
theorem loaded_session_sound (maxSkippedKeys : Nat) (v : Json) :
    (∃ m, stateFromDict maxSkippedKeys v = .error (.corruptedSession m)) ∨
      ∃ s, stateFromDict maxSkippedKeys v = .ok s ∧ SoundState maxSkippedKeys s := by
  rcases ends_iff.mp (stateFromDict_loads maxSkippedKeys v) with ⟨_, hrun, m, rfl⟩ | hok
  · exact Or.inl ⟨m, hrun⟩
  · exact Or.inr hok

end GhostChat.Proofs
