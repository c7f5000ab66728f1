import GhostChat.Proofs.Loaded

/-!
# One field of a session file goes bad

`state_from_dict` promises no silent coercion, and its twelve fields are read
one at a time. Whether a dict is accepted is therefore a question about each
field alone, `accepts_iff`, and a corruption of one field of a file that was
written is noticed exactly if the check of that field notices it.

Most do, with four holes. A missing `session_version` is 1, a missing or `null`
counter is 0, missing or `null` skipped keys are none, and `received_ids` may be
anything: what is not a dict, or has no list in it, is an empty replay cache.
`v` is compared with `!=`, and `True` is not different from 1.
-/

namespace GhostChat.Proofs

open GhostChat.Lib GhostChat.Lib.Effect GhostChat.Ref

/-! ## Fields and what happens to them -/

inductive SessionField where
  | v | sessionVersion | rootKey | sendingChainKey | receivingChainKey | dhsPrivate | dhr
  | Ns | Nr | PN | skipped | receivedIds
  deriving DecidableEq

def SessionField.key : SessionField → String
  | .v => "v"
  | .sessionVersion => "session_version"
  | .rootKey => "root_key"
  | .sendingChainKey => "sending_chain_key"
  | .receivingChainKey => "receiving_chain_key"
  | .dhsPrivate => "dhs_private"
  | .dhr => "dhr"
  | .Ns => "Ns"
  | .Nr => "Nr"
  | .PN => "PN"
  | .skipped => "skipped"
  | .receivedIds => "received_ids"

/-- The fields that may be `null` in a file. -/
def SessionField.nullable (f : SessionField) : Bool :=
  f ∈ [sendingChainKey, receivingChainKey, dhsPrivate, dhr]

inductive JsonType where
  | null | boolean | number | string | array | object
  deriving DecidableEq

def jsonType : Json → JsonType
  | .null => .null
  | .bool _ => .boolean
  | .int _ | .float _ => .number
  | .str _ => .string
  | .list _ => .array
  | .dict _ => .object

inductive FieldCorruption where
  | removed
  | replaced (value : Json)

/-- The dict with one field gone or another value in it. -/
def corrupted (f : SessionField) : FieldCorruption → Json → Json
  | .removed, .dict d => .dict (Odict.erase d f.key)
  | .replaced value, .dict d => .dict (Odict.set d f.key value)
  | _, other => other

/-- A field is removed, or its value is replaced by one of another JSON type.
`null` is no corruption where it is allowed. -/
def Corrupts (f : SessionField) : FieldCorruption → Json → Prop
  | .removed, _ => True
  | .replaced value, .dict d =>
      jsonType value ≠ jsonType (Json.get d f.key) ∧ (f.nullable → value ≠ .null)
  | .replaced _, _ => False

/-- The base64 of a key. -/
def IsKeyText (value : Json) : Prop :=
  ∃ text b, value = .str text ∧ b64Decode text = .ok b ∧ b.length = 32

/-- The check of the field notices. -/
def Noticed : SessionField → FieldCorruption → Prop
  | .rootKey, _ | .v, .removed | .sessionVersion, .replaced _ => True
  | .v, .replaced value => value ≠ .bool true
  | .sendingChainKey, .replaced value | .receivingChainKey, .replaced value
  | .dhsPrivate, .replaced value | .dhr, .replaced value => ¬ IsKeyText value
  | .Ns, .replaced value | .Nr, .replaced value | .PN, .replaced value
  | .skipped, .replaced value => value ≠ .null
  | .receivedIds, _ | .sessionVersion, .removed | .sendingChainKey, .removed
  | .receivingChainKey, .removed | .dhsPrivate, .removed | .dhr, .removed
  | .Ns, .removed | .Nr, .removed | .PN, .removed | .skipped, .removed => False

/-! ## Field by field -/

/-- What is found under the key of a field, `none` where it is missing, passes
the check of the field. -/
def FieldAccepts (max : Nat) : SessionField → Option Json → Prop
  | .v, found => (found.getD .null).eqInt sessionFileVersion = true
  | .sessionVersion, found => ∃ n : Int, found.getD (.int 1) = .int n ∧ 1 ≤ n
  | .rootKey, found => ∃ value b, found = some value ∧ requireStrB64 "root_key" value = .ok b
  | .sendingChainKey, found => ∃ k, optionalKey "sending_chain_key" (found.getD .null) = .ok k
  | .receivingChainKey, found =>
      ∃ k, optionalKey "receiving_chain_key" (found.getD .null) = .ok k
  | .dhsPrivate, found => ∃ k, optionalKey "dhs_private" (found.getD .null) = .ok k
  | .dhr, found => ∃ k, optionalKey "dhr" (found.getD .null) = .ok k
  | .Ns, found => ∃ n, requireCounter "Ns" (found.getD .null) = .ok n
  | .Nr, found => ∃ n, requireCounter "Nr" (found.getD .null) = .ok n
  | .PN, found => ∃ n, requireCounter "PN" (found.getD .null) = .ok n
  | .skipped, found => ∃ d sk, skippedField (found.getD .null) = .ok d ∧
      SkippedMessageKeys.fromDict d max = .ok sk
  | .receivedIds, found => ∃ r, ReceivedIdsStore.fromDict (found.getD .null) = .ok r

section Accepts

variable {max : Nat} {d : List (String × Json)}

theorem checkFormat_ok_iff : checkFormat d = .ok () ↔
    FieldAccepts max .v (Odict.get? d "v") ∧ Odict.has d "root_key" = true := by
  simp only [checkFormat, FieldAccepts, Json.get]
  by_cases hv : ((Odict.get? d "v").getD .null).eqInt sessionFileVersion = true
  · by_cases hroot : Odict.has d "root_key" = true
    · simp [hv, hroot]
    · simp [hv, hroot]
  · simp [hv]

theorem requireSessionVersion_ok_iff : (∃ n, requireSessionVersion d = .ok n) ↔
    FieldAccepts max .sessionVersion (Odict.get? d "session_version") := by
  simp only [requireSessionVersion, FieldAccepts]
  generalize (Odict.get? d "session_version").getD (.int 1) = v
  cases v with
  | int n =>
      dsimp only
      by_cases hlt : n < 1
      · rw [if_pos hlt]
        refine iff_of_false (by simp) ?_
        rintro ⟨m, hm, hle⟩
        cases hm
        omega
      · rw [if_neg hlt]
        exact iff_of_true ⟨_, rfl⟩ ⟨n, rfl, by omega⟩
  | null => simp
  | bool b => simp
  | float x => simp
  | str s => simp
  | list items => simp
  | dict fields => simp

theorem rewordSkipped_ok {α : Type} {x : Except Exn α} {v : α} :
    rewordSkipped x = .ok v ↔ x = .ok v := by
  cases x with
  | ok w => rfl
  | error e => cases e <;> simp [rewordSkipped]

theorem rewordReceived_ok {α : Type} {x : Except Exn α} {v : α} :
    rewordReceived x = .ok v ↔ x = .ok v := by
  cases x with
  | ok w => rfl
  | error e => cases e <;> simp [rewordReceived]

/-- A dict is accepted when each field is. -/
theorem accepts_iff : (∃ s, stateFromDict max (.dict d) = .ok s) ↔
    ∀ f, FieldAccepts max f (Odict.get? d (SessionField.key f)) := by
  constructor
  · rintro ⟨s, h⟩ f
    rw [stateFromDict] at h
    obtain ⟨⟨⟩, hformat, h⟩ := except_bind_ok h
    obtain ⟨rootKey, hroot, h⟩ := except_bind_ok h
    obtain ⟨ckS, hckS, h⟩ := except_bind_ok h
    obtain ⟨ckR, hckR, h⟩ := except_bind_ok h
    obtain ⟨dhsPrivate, hprivate, h⟩ := except_bind_ok h
    obtain ⟨dhr, hdhr, h⟩ := except_bind_ok h
    obtain ⟨Ns, hNs, h⟩ := except_bind_ok h
    obtain ⟨Nr, hNr, h⟩ := except_bind_ok h
    obtain ⟨PN, hPN, h⟩ := except_bind_ok h
    obtain ⟨data, hdata, h⟩ := except_bind_ok h
    obtain ⟨skipped, hskipped, h⟩ := except_bind_ok h
    obtain ⟨version, hversion, h⟩ := except_bind_ok h
    obtain ⟨received, hreceived, h⟩ := except_bind_ok h
    have hfirst : FieldAccepts max .v (Odict.get? d "v") ∧ Odict.has d "root_key" = true :=
      checkFormat_ok_iff.mp hformat
    obtain ⟨hv, hhas⟩ := hfirst
    obtain ⟨value, hvalue⟩ := Odict.has_eq_true_iff.mp hhas
    cases f with
    | v => exact hv
    | sessionVersion => exact requireSessionVersion_ok_iff.mp ⟨version, hversion⟩
    | rootKey =>
        rw [Json.get, hvalue] at hroot
        exact ⟨value, rootKey, hvalue, hroot⟩
    | sendingChainKey => exact ⟨ckS, hckS⟩
    | receivingChainKey => exact ⟨ckR, hckR⟩
    | dhsPrivate => exact ⟨dhsPrivate, hprivate⟩
    | dhr => exact ⟨dhr, hdhr⟩
    | Ns => exact ⟨Ns, hNs⟩
    | Nr => exact ⟨Nr, hNr⟩
    | PN => exact ⟨PN, hPN⟩
    | skipped => exact ⟨data, skipped, hdata, rewordSkipped_ok.mp hskipped⟩
    | receivedIds => exact ⟨received, rewordReceived_ok.mp hreceived⟩
  · intro h
    obtain ⟨value, rootKey, hvalue, hroot⟩ := h .rootKey
    obtain ⟨ckS, hckS⟩ := h .sendingChainKey
    obtain ⟨ckR, hckR⟩ := h .receivingChainKey
    obtain ⟨dhsPrivate, hprivate⟩ := h .dhsPrivate
    obtain ⟨dhr, hdhr⟩ := h .dhr
    obtain ⟨Ns, hNs⟩ := h .Ns
    obtain ⟨Nr, hNr⟩ := h .Nr
    obtain ⟨PN, hPN⟩ := h .PN
    obtain ⟨data, skipped, hdata, hskipped⟩ := h .skipped
    obtain ⟨version, hversion⟩ := requireSessionVersion_ok_iff.mpr (h .sessionVersion)
    obtain ⟨received, hreceived⟩ := h .receivedIds
    have hformat : checkFormat d = .ok () :=
      checkFormat_ok_iff.mpr ⟨h .v, Odict.has_eq_true_iff.mpr ⟨value, hvalue⟩⟩
    have hroot' : requireStrB64 "root_key" (Json.get d "root_key") = .ok rootKey := by
      rw [Json.get, show Odict.get? d "root_key" = some value from hvalue]
      exact hroot
    have hckS' : optionalKey "sending_chain_key" (Json.get d "sending_chain_key") = .ok ckS := hckS
    have hckR' : optionalKey "receiving_chain_key" (Json.get d "receiving_chain_key")
      = .ok ckR := hckR
    have hprivate' : optionalKey "dhs_private" (Json.get d "dhs_private") = .ok dhsPrivate :=
      hprivate
    have hdhr' : optionalKey "dhr" (Json.get d "dhr") = .ok dhr := hdhr
    have hNs' : requireCounter "Ns" (Json.get d "Ns") = .ok Ns := hNs
    have hNr' : requireCounter "Nr" (Json.get d "Nr") = .ok Nr := hNr
    have hPN' : requireCounter "PN" (Json.get d "PN") = .ok PN := hPN
    have hdata' : skippedField (Json.get d "skipped") = .ok data := hdata
    have hskipped' := rewordSkipped_ok.mpr hskipped
    have hreceived' : rewordReceived (ReceivedIdsStore.fromDict (Json.get d "received_ids"))
      = .ok received := rewordReceived_ok.mpr hreceived
    simp only [stateFromDict, hformat, hroot', hckS', hckR', hprivate', hdhr', hNs', hNr', hPN',
      hdata', hskipped', hversion, hreceived', except_ok_bind]
    exact ⟨_, rfl⟩

/-- What is not accepted is corrupted. -/
theorem refused_iff {v : Json} :
    (∃ m, stateFromDict max v = .error (.corruptedSession m)) ↔
      ¬ ∃ s, stateFromDict max v = .ok s := by
  rcases ends_iff.mp (stateFromDict_loads max v) with ⟨_, hrun, m, rfl⟩ | ⟨s, hrun, -⟩
  · rw [hrun]
    exact iff_of_true ⟨m, rfl⟩ (by simp)
  · rw [hrun]
    exact iff_of_false (by simp) (fun h => h ⟨s, rfl⟩)

theorem key_injective : Function.Injective SessionField.key := by
  intro f g h
  cases f <;> cases g <;> first | rfl | exact absurd h (by decide)

end Accepts

/-! ## The file of a state -/

section Stored

variable {c : Crypto Bytes Bytes Bytes} {cap max : Nat} {s s₀ : SessionState}

/-- The fields of a file. -/
def storedFields (s : SessionState) : List (String × Json) := [
  ("v", .int sessionFileVersion),
  ("session_version", .int s.sessionVersion),
  ("root_key", .str (b64Encode s.rootKey)),
  ("sending_chain_key", b64OrNone s.sendingChainKey),
  ("receiving_chain_key", b64OrNone s.receivingChainKey),
  ("dhs_private", b64OrNone s.dhsPrivate),
  ("dhr", b64OrNone s.dhr),
  ("Ns", .int s.Ns),
  ("Nr", .int s.Nr),
  ("PN", .int s.PN),
  ("skipped", s.skippedMessageKeys.toDict),
  ("received_ids", s.receivedIds.toDict)]

theorem stateToDict_eq (s : SessionState) : stateToDict s = .dict (storedFields s) := rfl

/-- The value a field has in a file. -/
def storedValue (s : SessionState) : SessionField → Json
  | .v => .int sessionFileVersion
  | .sessionVersion => .int s.sessionVersion
  | .rootKey => .str (b64Encode s.rootKey)
  | .sendingChainKey => b64OrNone s.sendingChainKey
  | .receivingChainKey => b64OrNone s.receivingChainKey
  | .dhsPrivate => b64OrNone s.dhsPrivate
  | .dhr => b64OrNone s.dhr
  | .Ns => .int s.Ns
  | .Nr => .int s.Nr
  | .PN => .int s.PN
  | .skipped => s.skippedMessageKeys.toDict
  | .receivedIds => s.receivedIds.toDict

theorem get?_storedFields (s : SessionState) (f : SessionField) :
    Odict.get? (storedFields s) f.key = some (storedValue s f) := by
  cases f <;> rfl

theorem skippedFromDict_written {store : Odict (Bytes × Nat) Bytes} (h : SkippedStorable store) :
    (∃ sk, SkippedMessageKeys.fromDict (writtenEntries store) max = .ok sk) ↔
      store.length ≤ max := by
  have hfill : store.foldl (fun d e => Odict.set d e.1 e.2) [] = store := by
    rw [Odict.foldl_set]
    · simp
    · exact h.nodup
  simp only [SkippedMessageKeys.fromDict, writtenEntries_read _ _ h.sized, hfill, except_ok_bind]
  by_cases hlen : store.length > max
  · rw [if_pos hlen]
    exact iff_of_false (by rintro ⟨sk, hsk⟩; cases hsk) (by omega)
  · rw [if_neg hlen]
    exact iff_of_true ⟨_, rfl⟩ (by omega)

/-- Each field of a file passes, apart from a store that is too long. -/
theorem stored_accepts (hfit : FileFit s) (hsk : SkippedStorable s.skippedMessageKeys.store)
    (hreceived : ReceivedBounded s.receivedIds) (f : SessionField) :
    FieldAccepts max f (some (storedValue s f)) ↔
      (f = .skipped → s.skippedMessageKeys.store.length ≤ max) := by
  by_cases hf : f = .skipped
  · subst hf
    rw [storedValue, hsk.toDict]
    simp only [FieldAccepts, Option.getD_some, skippedField, Except.ok.injEq, true_imp_iff,
      exists_and_left, exists_eq_left']
    exact skippedFromDict_written hsk
  · refine iff_of_true ?_ fun h => absurd h hf
    cases f with
    | skipped => exact absurd rfl hf
    | v => rfl
    | sessionVersion =>
        have hversion := hfit.version
        exact ⟨s.sessionVersion, rfl, by omega⟩
    | rootKey => exact ⟨_, _, rfl, requireStrB64_encoded hfit.root⟩
    | sendingChainKey => exact ⟨_, optionalKey_encoded hfit.sending⟩
    | receivingChainKey => exact ⟨_, optionalKey_encoded hfit.receiving⟩
    | dhsPrivate => exact ⟨_, optionalKey_encoded hfit.private_⟩
    | dhr => exact ⟨_, optionalKey_encoded hfit.remote⟩
    | Ns => exact ⟨_, requireCounter_encoded _ _⟩
    | Nr => exact ⟨_, requireCounter_encoded _ _⟩
    | PN => exact ⟨_, requireCounter_encoded _ _⟩
    | receivedIds => exact ⟨_, received_read hreceived hfit.received⟩

/-- What is left of a field passes exactly if its check does not notice. -/
theorem removed_accepts (f : SessionField) :
    FieldAccepts max f none ↔ ¬ Noticed f .removed := by
  cases f with
  | v => exact iff_of_false (by simp [FieldAccepts, Json.eqInt]) (fun h => h trivial)
  | rootKey => exact iff_of_false (by simp [FieldAccepts]) (fun h => h trivial)
  | sessionVersion => exact iff_of_true ⟨1, rfl, le_refl _⟩ id
  | sendingChainKey => exact iff_of_true ⟨none, rfl⟩ id
  | receivingChainKey => exact iff_of_true ⟨none, rfl⟩ id
  | dhsPrivate => exact iff_of_true ⟨none, rfl⟩ id
  | dhr => exact iff_of_true ⟨none, rfl⟩ id
  | Ns => exact iff_of_true ⟨0, rfl⟩ id
  | Nr => exact iff_of_true ⟨0, rfl⟩ id
  | PN => exact iff_of_true ⟨0, rfl⟩ id
  | skipped => exact iff_of_true ⟨[], { maxKeys := max }, rfl, rfl⟩ id
  | receivedIds => exact iff_of_true ⟨{}, rfl⟩ id

/-- The key texts are what the check takes. -/
theorem requireStrB64_ok_iff {name : String} {value : Json} :
    (∃ b, requireStrB64 name value = .ok b) ↔ IsKeyText value := by
  constructor
  · intro h
    obtain ⟨b, hb⟩ := h
    cases value with
    | str text =>
        rw [requireStrB64] at hb
        split at hb
        · cases hb
        · next raw hdec =>
            split at hb
            · cases hb
            · next hlen =>
                cases hb
                exact ⟨text, b, rfl, hdec, not_not.mp hlen⟩
    | null => cases hb
    | bool x => cases hb
    | int n => cases hb
    | float x => cases hb
    | list items => cases hb
    | dict fields => cases hb
  · intro h
    obtain ⟨text, b, rfl, hdec, hlen⟩ := h
    exact ⟨b, by simp only [requireStrB64, hdec, if_neg (not_not.mpr hlen)]⟩

theorem IsKeyText.type {value : Json} (h : IsKeyText value) : jsonType value = .string := by
  obtain ⟨text, _, rfl, -, -⟩ := h
  rfl

theorem optionalKey_ok_iff {name : String} {value : Json} (hnull : value ≠ .null) :
    (∃ k, optionalKey name value = .ok k) ↔ IsKeyText value := by
  have hkey : optionalKey name value = some <$> requireStrB64 name value := by
    cases value <;> first | rfl | exact absurd rfl hnull
  rw [hkey, ← @requireStrB64_ok_iff name value]
  constructor
  · intro h
    obtain ⟨k, hk⟩ := h
    obtain ⟨b, hb, -⟩ := except_map_ok hk
    exact ⟨b, hb⟩
  · intro h
    obtain ⟨b, hb⟩ := h
    exact ⟨some b, by rw [hb]; rfl⟩

/-- A counter that is no number is 0 if it is `null`, and refused otherwise. -/
theorem requireCounter_ok_iff {name : String} {value : Json}
    (htype : jsonType value ≠ .number) :
    (∃ n, requireCounter name value = .ok n) ↔ value = .null := by
  cases value with
  | null => exact iff_of_true ⟨0, rfl⟩ rfl
  | int n => exact absurd rfl htype
  | float x => exact absurd rfl htype
  | bool b => simp [requireCounter]
  | str text => simp [requireCounter]
  | list items => simp [requireCounter]
  | dict fields => simp [requireCounter]

theorem replaced_accepts (hsk : SkippedStorable s.skippedMessageKeys.store) (f : SessionField)
    {value : Json} (htype : jsonType value ≠ jsonType (storedValue s f))
    (hnull : f.nullable → value ≠ .null) :
    FieldAccepts max f (some value) ↔ ¬ Noticed f (.replaced value) := by
  cases f with
  | v =>
      cases value with
      | int n => exact absurd rfl htype
      | float x => exact absurd rfl htype
      | bool b => cases b <;> simp [FieldAccepts, Noticed, Json.eqInt, sessionFileVersion]
      | null => simp [FieldAccepts, Noticed, Json.eqInt]
      | str text => simp [FieldAccepts, Noticed, Json.eqInt]
      | list items => simp [FieldAccepts, Noticed, Json.eqInt]
      | dict fields => simp [FieldAccepts, Noticed, Json.eqInt]
  | sessionVersion =>
      refine iff_of_false ?_ (fun h => h trivial)
      rintro ⟨n, hn, -⟩
      rw [Option.getD_some] at hn
      rw [hn] at htype
      exact htype rfl
  | rootKey =>
      refine iff_of_false ?_ (fun h => h trivial)
      rintro ⟨value', b, hvalue, hb⟩
      cases hvalue
      exact htype (requireStrB64_ok_iff.mp ⟨b, hb⟩).type
  | sendingChainKey => exact (optionalKey_ok_iff (hnull rfl)).trans not_not.symm
  | receivingChainKey => exact (optionalKey_ok_iff (hnull rfl)).trans not_not.symm
  | dhsPrivate => exact (optionalKey_ok_iff (hnull rfl)).trans not_not.symm
  | dhr => exact (optionalKey_ok_iff (hnull rfl)).trans not_not.symm
  | Ns => exact (requireCounter_ok_iff htype).trans not_not.symm
  | Nr => exact (requireCounter_ok_iff htype).trans not_not.symm
  | PN => exact (requireCounter_ok_iff htype).trans not_not.symm
  | skipped =>
      rw [storedValue, hsk.toDict] at htype
      cases value with
      | dict fields => exact absurd rfl htype
      | null => exact iff_of_true ⟨[], { maxKeys := max }, rfl, rfl⟩ (fun h => h rfl)
      | bool b => simp [FieldAccepts, Noticed, skippedField]
      | int n => simp [FieldAccepts, Noticed, skippedField]
      | float x => simp [FieldAccepts, Noticed, skippedField]
      | str text => simp [FieldAccepts, Noticed, skippedField]
      | list items => simp [FieldAccepts, Noticed, skippedField]
  | receivedIds =>
      refine iff_of_true ?_ id
      cases value with
      | dict fields => exact absurd rfl htype
      | null => exact ⟨{}, rfl⟩
      | bool b => exact ⟨{}, rfl⟩
      | int n => exact ⟨{}, rfl⟩
      | float x => exact ⟨{}, rfl⟩
      | str text => exact ⟨{}, rfl⟩
      | list items => exact ⟨{}, rfl⟩

/-- What there is under the key of a corrupted field. -/
def FieldCorruption.found : FieldCorruption → Option Json
  | .removed => none
  | .replaced value => some value

theorem corrupted_get? (s : SessionState) (f : SessionField) (corruption : FieldCorruption) :
    ∃ d, corrupted f corruption (stateToDict s) = .dict d ∧
      Odict.get? d f.key = corruption.found ∧
      ∀ f', f' ≠ f → Odict.get? d f'.key = some (storedValue s f') := by
  rw [stateToDict_eq]
  cases corruption with
  | removed =>
      refine ⟨_, rfl, Odict.get?_erase_self _ _, fun f' hf' => ?_⟩
      rw [Odict.get?_erase_ne _ fun h => hf' (key_injective h), get?_storedFields]
  | replaced value =>
      refine ⟨_, rfl, Odict.get?_set_self _ _ _, fun f' hf' => ?_⟩
      rw [Odict.get?_set_ne _ (fun h => hf' (key_injective h)) _, get?_storedFields]

theorem corruption_accepts (hsk : SkippedStorable s.skippedMessageKeys.store) {f : SessionField}
    {corruption : FieldCorruption} (hcorrupts : Corrupts f corruption (stateToDict s)) :
    FieldAccepts max f corruption.found ↔ ¬ Noticed f corruption := by
  cases corruption with
  | removed => exact removed_accepts f
  | replaced value =>
      rw [stateToDict_eq] at hcorrupts
      obtain ⟨htype, hnull⟩ := hcorrupts
      rw [Json.get, get?_storedFields, Option.getD_some] at htype
      exact replaced_accepts hsk f htype hnull

/-- A file of a session with one field corrupted is refused exactly if the
field's own check notices, or the store of skipped keys that is still in it is
too long for the reader. -/
theorem corruption_refused_iff (hbytes : ∀ k, c.bytes k = k)
    (hlen : ∀ i sa f b, (c.hkdf i sa f b).length = 32) {rk g : Bytes} {isInitiator : Bool}
    {dhr : Option Bytes} (hg : g.length = 32)
    (h₀ : createInitialState c rk isInitiator dhr cap g = .ok s₀) {calls : List SessionCall}
    (hcalls : ∀ call ∈ calls, FreshKey call) (hs : runFrom (SessionCall.step c) s₀ calls = s)
    (max : Nat) {f : SessionField} {corruption : FieldCorruption}
    (hcorrupts : Corrupts f corruption (stateToDict s)) :
    (∃ m, stateFromDict max (corrupted f corruption (stateToDict s))
      = .error (.corruptedSession m)) ↔
    Noticed f corruption ∨ (f ≠ .skipped ∧ max < s.skippedMessageKeys.store.length) := by
  obtain ⟨hfit, hbounded⟩ := reached_fit hbytes hlen hg h₀ hcalls hs
  have hsk := hfit.storable hbytes hbounded
  have hstored : ∀ f', FieldAccepts max f' (some (storedValue s f')) ↔
      (f' = .skipped → s.skippedMessageKeys.store.length ≤ max) :=
    stored_accepts hfit hsk hbounded.received
  obtain ⟨d, hd, hfound, hothers⟩ := corrupted_get? s f corruption
  have hcorrupt : FieldAccepts max f corruption.found ↔ ¬ Noticed f corruption :=
    corruption_accepts hsk hcorrupts
  have haccepts : (∀ f', FieldAccepts max f' (Odict.get? d f'.key)) ↔
      ¬ Noticed f corruption ∧ (f ≠ .skipped → s.skippedMessageKeys.store.length ≤ max) := by
    rw [← hcorrupt]
    constructor
    · intro h
      refine ⟨by rw [← hfound]; exact h f, fun hf => ?_⟩
      have hskipped := h .skipped
      rw [hothers .skipped (Ne.symm hf)] at hskipped
      exact (hstored .skipped).mp hskipped rfl
    · rintro ⟨hself, hlong⟩ f'
      by_cases hf' : f' = f
      · rw [hf', hfound]
        exact hself
      · rw [hothers f' hf', hstored f']
        rintro rfl
        exact hlong (Ne.symm hf')
  rw [hd, refused_iff, accepts_iff, haccepts]
  simp only [not_and_or, not_not, Classical.not_imp, Nat.not_le]

end Stored

/-- The session of `outOfOrder`, with the root key gone from its file. -/
theorem corruption_refused_outOfOrder : ∃ m,
    stateFromDict 1000 (corrupted .rootKey .removed
      (stateToDict (runFrom (SessionCall.step sampleCrypto) (sampleState false) outOfOrder)))
      = .error (.corruptedSession m) := by
  have hcalls : ∀ call ∈ outOfOrder, FreshKey call := by decide +kernel
  have hcorrupts : Corrupts .rootKey .removed
      (stateToDict (runFrom (SessionCall.step sampleCrypto) (sampleState false) outOfOrder)) :=
    trivial
  exact (corruption_refused_iff (fun _ => rfl) (fun _ _ _ _ => mix_length _) (mix_length _)
    (sampleState_created false) hcalls rfl 1000 hcorrupts).mpr (Or.inl trivial)

/-- Without its replay cache the same file is accepted, and the message that
was received may come again. -/
theorem missing_cache_accepted :
    let s := runFrom (SessionCall.step sampleCrypto) (sampleState false) outOfOrder
    s.receivedIds.order.length = 1 ∧
      ∃ s', stateFromDict 1000 (corrupted .receivedIds .removed (stateToDict s)) = .ok s' ∧
        s'.receivedIds.order = [] := by
  intro s
  refine ⟨by decide +kernel, ?_⟩
  have hread : (stateFromDict 1000 (corrupted .receivedIds .removed (stateToDict s))).toOption.map
      (·.receivedIds.order) = some [] := by
    decide +kernel
  obtain ⟨s', hs', hempty⟩ := Option.map_eq_some_iff.mp hread
  refine ⟨s', ?_, hempty⟩
  cases hrun : stateFromDict 1000 (corrupted .receivedIds .removed (stateToDict s)) with
  | error e =>
      rw [hrun] at hs'
      cases hs'
  | ok s'' =>
      rw [hrun] at hs'
      cases hs'
      rfl

end GhostChat.Proofs
