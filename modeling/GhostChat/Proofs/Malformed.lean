import GhostChat.Lib.Parse
import GhostChat.Ref.Envelope

/-!
# What a malformed envelope raises

The three envelope parsers promise a `ValueError` for what they turn away, and
their callers catch that one class. Inside, `int` and `b64u_decode` raise four:
the two `try` blocks turn `KeyError` and `TypeError` into `ValueError`, and let
the other two through. `int` raises `OverflowError` for an infinite number,
and `b64u_decode` raises `InvalidKeyFormatError` for text that is no base64,
for a list and for a dict.

Which of these happens is a matter of one field, and the first field that
stops the parser decides for the whole. So each format is a list of fates in
the order its fields are read in.
-/

namespace GhostChat.Proofs

open GhostChat.Lib GhostChat.Lib.Effect GhostChat.Ref

/-! ## What the formats promise -/

/-- What a parser may raise. -/
def Promised (e : Exn) : Prop := e.isValueError = true

instance (e : Exn) : Decidable (Promised e) := inferInstanceAs (Decidable (_ = true))

structure EnvelopeBounds (env : ProtocolEnvelope Bytes) : Prop where
  version : env.version = 1
  sessionId : env.sessionId ≠ []
  senderRatchetKey : env.senderRatchetKey ≠ []
  ciphertext : env.ciphertext ≠ []
  messageNumber : 0 ≤ env.messageNumber
  previousChainLength : 0 ≤ env.previousChainLength

structure SealedBounds (env : SealedOuterEnvelope) : Prop where
  version : env.version = 1
  recipientLocator : isBlank env.recipientLocator = false
  ttl : 0 ≤ env.ttl
  sealedPayload : 28 ≤ env.sealedPayload.length

structure GroupMessageBounds (m : GroupMessage Bytes) : Prop where
  epoch : 1 ≤ m.header.epoch
  senderLeafIndex : 0 ≤ m.header.senderLeafIndex
  counter : 0 ≤ m.header.counter

/-! ## The fate of a field -/

/-- A base64 field. A number, a boolean and `null` have no length, which is a
`TypeError`. -/
def textFate : Json → Fate
  | .str s => match b64Decode s with
      | .ok _ => .passes
      | .error _ => .escapes
  | .list _ | .dict _ => .escapes
  | _ => .refused

/-- A number that has to be `good`. -/
def numberFate (good : Int → Bool) : Json → Fate
  | .float (.infinite _) => .escapes
  | v => match v.toInt with
      | .ok n => if good n then .passes else .refused
      | .error _ => .refused

/-- A field that has to be there. -/
def required (fate : Json → Fate) (data : List (String × Json)) (key : String) : Fate :=
  match Odict.get? data key with
  | some v => fate v
  | none => .refused

/-- The locator, read with `isinstance` and `strip`. -/
def locatorFate : Json → Fate
  | .str s => if isBlank s then .refused else .passes
  | _ => .refused

/-- The sealed payload, decoded under `except Exception`. -/
def payloadFate : Json → Fate
  | .str s => match b64Decode s with
      | .ok b => if 28 ≤ b.length then .passes else .refused
      | .error _ => .refused
  | _ => .refused

/-- The padding, decoded under no `try` at all. -/
def padFate (v : Json) : Fate :=
  if v.truthy then if textFate v = .passes then .passes else .escapes else .passes

def envelopeFates (data : List (String × Json)) : List Fate := [
  numberFate (· = 1) ((Odict.get? data "v").getD (.int 0)),
  required textFate data "sid",
  required textFate data "rk",
  required textFate data "ct",
  textFate ((Odict.get? data "nonce").getD (.str "")),
  required (numberFate fun _ => true) data "n",
  required (numberFate fun _ => true) data "pn"]

def sealedFates (data : List (String × Json)) : List Fate := [
  numberFate (· = 1) ((Odict.get? data "v").getD (.int 0)),
  locatorFate (Json.get data "recipient_locator"),
  numberFate (0 ≤ ·) ((Odict.get? data "ttl").getD (.int 0)),
  payloadFate (Json.get data "sp"),
  padFate (Json.get data "pad")]

def groupMessageFates (data : List (String × Json)) : List Fate := [
  required textFate data "gid",
  required (numberFate fun _ => true) data "e",
  required (numberFate fun _ => true) data "s",
  required (numberFate fun _ => true) data "c",
  required textFate data "ct"]

/-! ## Reading one field -/

/-- What `int` raises that the `try` blocks catch. -/
def BadNumber (e : Exn) : Prop := ∃ m, e = .valueError m ∨ e = .typeError m

theorem intOfStr_ends (s : String) : Ends (fun _ => True) BadNumber (intOfStr s) := by
  simp only [intOfStr]
  split
  · exact ⟨_, Or.inl rfl⟩
  · split
    · exact ⟨_, Or.inl rfl⟩
    · trivial

/-- Only for an infinite number does `int` raise anything else. -/
theorem toInt_ends {v : Json} (h : ∀ negative, v ≠ .float (.infinite negative)) :
    Ends (fun _ => True) BadNumber v.toInt := by
  cases v with
  | float x =>
      cases x with
      | infinite negative => exact absurd rfl (h negative)
      | finite x => trivial
      | nan => exact ⟨_, Or.inl rfl⟩
  | str s => exact intOfStr_ends s
  | int n => trivial
  | bool b => trivial
  | _ => exact ⟨_, Or.inr rfl⟩

theorem numberFate_finite (good : Int → Bool) {v : Json}
    (h : ∀ negative, v ≠ .float (.infinite negative)) :
    numberFate good v = match v.toInt with
      | .ok n => if good n then .passes else .refused
      | .error _ => .refused := by
  unfold numberFate
  split
  · exact absurd rfl (h _)
  · rfl

/-- A number read by `int`, whatever is done about what `int` raises. -/
theorem numberFate_comes (good : Int → Bool) {E : Exn → Prop} {v : Json} {x : Except Exn Int}
    (hok : ∀ n, v.toInt = .ok n → x = .ok n)
    (hbad : ∀ e, v.toInt = .error e → BadNumber e → ∃ e', x = .error e' ∧ E e')
    (hinfinite : ∀ m, v.toInt = .error (.overflowError m) → ∃ e', x = .error e' ∧ ¬ E e') :
    Comes (fun n => good n = true) E x (numberFate good v) := by
  by_cases hfinite : ∀ negative, v ≠ .float (.infinite negative)
  · rw [numberFate_finite good hfinite]
    cases hv : v.toInt with
    | error e =>
        obtain ⟨e', rfl, he'⟩ := hbad e hv ((toInt_ends hfinite).error hv)
        exact he'
    | ok n =>
        rw [hok n hv]
        dsimp only
        by_cases hgood : good n = true
        · rw [if_pos hgood]
          exact ⟨n, rfl, hgood⟩
        · rw [if_neg hgood]
          exact hgood
  · push Not at hfinite
    obtain ⟨negative, rfl⟩ := hfinite
    exact hinfinite _ rfl

/-- What the `try` blocks around several fields catch. -/
def Converted : Exn → Prop
  | .keyError _ | .typeError _ | .valueError _ | .jsonDecodeError _ => True
  | _ => False

theorem toInt_comes (v : Json) :
    Comes (fun _ => True) Converted v.toInt (numberFate (fun _ => true) v) := by
  have h : Comes (fun n => true = true) Converted v.toInt (numberFate (fun _ => true) v) := by
    refine numberFate_comes (fun _ => true) (fun _ h => h) (fun e h => ?_) fun m h => ?_
    · rintro ⟨m, rfl | rfl⟩
      · exact ⟨_, h, trivial⟩
      · exact ⟨_, h, trivial⟩
    · exact ⟨_, h, not_false⟩
  simpa only using h

/-- `int(data.get(key, 0))`, in a `try` of its own. -/
theorem intField_comes (good : Int → Bool) (data : List (String × Json)) (key msg : String) :
    Comes (fun n => good n = true) Promised (intField data key msg)
      (numberFate good ((Odict.get? data key).getD (.int 0))) := by
  refine numberFate_comes good (fun n h => ?_) (fun e h => ?_) fun m h => ?_
  · rw [intField, h]
  · rintro ⟨m, rfl | rfl⟩
    · exact ⟨.valueError msg, by rw [intField, h], rfl⟩
    · exact ⟨.valueError msg, by rw [intField, h], rfl⟩
  · refine ⟨.overflowError m, by rw [intField, h], ?_⟩
    rintro ⟨⟩

theorem b64uDecode_comes (v : Json) :
    Comes (fun _ => True) Converted (b64uDecode v) (textFate v) := by
  cases v with
  | str s =>
      rw [textFate, b64uDecode]
      cases b64Decode s with
      | ok b => exact ⟨b, rfl, trivial⟩
      | error e => exact ⟨_, rfl, not_false⟩
  | list items => exact ⟨_, rfl, not_false⟩
  | dict fields => exact ⟨_, rfl, not_false⟩
  | _ => trivial

theorem item_comes {α : Type} {read : Json → Except Exn α} {fate : Json → Fate}
    (h : ∀ v, Comes (fun _ => True) Converted (read v) (fate v)) (data : List (String × Json))
    (key : String) :
    Comes (fun _ => True) Converted (Json.item data key >>= read) (required fate data key) := by
  rw [Json.item, required]
  cases Odict.get? data key with
  | some v => exact h v
  | none => trivial

/-! ## The parsers -/

section Parsers

variable (data : List (String × Json))

theorem groupMessage_fields :
    Ends (fun _ => True) Converted (GroupMessage.readFields data) ↔
      Sound (groupMessageFates data) := by
  refine (item_comes b64uDecode_comes data "gid").cons_any fun gid _ => ?_
  refine (item_comes toInt_comes data "e").cons_any fun e _ => ?_
  refine (item_comes toInt_comes data "s").cons_any fun s _ => ?_
  refine (item_comes toInt_comes data "c").cons_any fun c _ => ?_
  refine (item_comes b64uDecode_comes data "ct").cons_any fun ct _ => ?_
  exact Iff.rfl

theorem groupMessage_ends_iff :
    Ends GroupMessageBounds Promised (GroupMessage.fromDict data) ↔
      Sound (groupMessageFates data) := by
  rw [← groupMessage_fields, GroupMessage.fromDict]
  cases GroupMessage.readFields data with
  | error e => cases e <;> simp [Ends, Promised, Converted, Exn.isValueError, bind, Except.bind]
  | ok m =>
      refine iff_of_true (Ends.guard (fun _ => rfl) fun hfields => ?_) trivial
      simp only [initialEpoch, not_or] at hfields
      obtain ⟨hepoch, hleaf, hcounter⟩ := hfields
      exact ⟨by omega, by omega, by omega⟩

theorem envelope_fields (version : Int) :
    Ends (fun _ => True) Converted (ProtocolEnvelope.readFields version data) ↔
      Sound (envelopeFates data).tail := by
  refine (item_comes b64uDecode_comes data "sid").cons_any fun sid _ => ?_
  refine (item_comes b64uDecode_comes data "rk").cons_any fun rk _ => ?_
  refine (item_comes b64uDecode_comes data "ct").cons_any fun ct _ => ?_
  refine (b64uDecode_comes _).cons_any fun nonce _ => ?_
  refine (item_comes toInt_comes data "n").cons_any fun n _ => ?_
  refine (item_comes toInt_comes data "pn").cons_any fun pn _ => ?_
  exact Iff.rfl

theorem reword_promised (e : Exn) : Promised (ProtocolEnvelope.reword e) ↔ Converted e := by
  cases e <;> simp [Promised, Converted, ProtocolEnvelope.reword, Exn.isValueError]

theorem readMeta_ends : Ends (fun _ => True) Promised (ProtocolEnvelope.readMeta data) := by
  unfold ProtocolEnvelope.readMeta
  split
  · trivial
  · split
    · rfl
    · trivial

theorem readFields_version {version : Int} {env : ProtocolEnvelope Bytes}
    (h : ProtocolEnvelope.readFields version data = .ok env) : env.version = version := by
  have hends : Ends (fun env => env.version = version) (fun _ => True)
      (ProtocolEnvelope.readFields version data) := by
    refine Ends.any.bind fun sid _ => Ends.any.bind fun rk _ => Ends.any.bind fun ct _ => ?_
    refine Ends.any.bind fun nonce _ => Ends.any.bind fun n _ => Ends.any.bind fun pn _ => ?_
    exact rfl
  exact hends.ok h

theorem envelope_ends_iff :
    Ends EnvelopeBounds Promised (ProtocolEnvelope.fromDict data) ↔
      Sound (envelopeFates data) := by
  refine (intField_comes _ data "v" _).cons (fun version _ hgood => ?_) fun version hbad => ?_
  · have hversion : version = currentVersion := of_decide_eq_true hgood
    dsimp only
    rw [if_neg (not_not.mpr hversion), ends_mapError_iff reword_promised]
    · exact envelope_fields data version
    intro env hread
    refine Ends.guard (fun _ => rfl) fun hnumbers => ?_
    refine Ends.guard (fun _ => rfl) fun hfilled => ?_
    refine (readMeta_ends data).bind fun metaData _ => ?_
    simp only [not_or, Int.not_lt] at hnumbers hfilled
    obtain ⟨hsid, hrk, hct⟩ := hfilled
    exact {
      version := (readFields_version data hread).trans hversion
      sessionId := hsid
      senderRatchetKey := hrk
      ciphertext := hct
      messageNumber := hnumbers.1
      previousChainLength := hnumbers.2 }
  · have hversion : version ≠ currentVersion := fun h => hbad (decide_eq_true h)
    exact Ends.guard (fun _ => rfl) fun h => absurd hversion h

/-- The padding, and a rest that keeps to its errors. -/
theorem pad_ends_iff {α : Type} {Q : α → Prop} (v : Json) {f : Bytes → Except Exn α}
    (hf : ∀ b, Ends Q Promised (f b)) :
    Ends Q Promised (if v.truthy then b64uDecode v >>= f else .ok [] >>= f) ↔
      Sound [padFate v] := by
  rw [padFate]
  by_cases htruthy : v.truthy = true
  · rw [if_pos htruthy, if_pos htruthy]
    cases v with
    | str s =>
        rw [textFate, b64uDecode]
        cases b64Decode s with
        | ok b => exact iff_of_true (hf b) trivial
        | error e => exact iff_of_false (by rintro ⟨⟩) not_false
    | _ => exact iff_of_false (by rintro ⟨⟩) not_false
  · rw [if_neg htruthy, if_neg htruthy]
    exact iff_of_true (hf []) trivial

/-- The payload is missing, undecodable or too short, or it is a payload. -/
theorem payload_cases (sp : Json) :
    (payloadFate sp = .refused ∧
      ∀ b, sp.truthy = true → b64uDecode sp = .ok b → b.length < nonceSize + 16) ∨
    (payloadFate sp = .passes ∧ sp.truthy = true ∧
      ∃ b, b64uDecode sp = .ok b ∧ nonceSize + 16 ≤ b.length) := by
  cases sp with
  | str text =>
      rw [payloadFate, b64uDecode]
      cases hdec : b64Decode text with
      | error e => exact Or.inl ⟨rfl, by rintro b - ⟨⟩⟩
      | ok b =>
          dsimp only
          by_cases hlong : 28 ≤ b.length
          · have htruthy : (Json.str text).truthy = true := by
              -- the empty text decodes to nothing
              by_contra hempty
              have htext : text = "" := by simpa [Json.truthy] using hempty
              rw [htext] at hdec
              cases hdec
              exact absurd hlong (by decide)
            rw [if_pos hlong]
            exact Or.inr ⟨rfl, htruthy, b, rfl, hlong⟩
          · rw [if_neg hlong]
            refine Or.inl ⟨rfl, fun b' _ hb => ?_⟩
            cases hb
            exact not_le.mp hlong
  | _ => exact Or.inl ⟨rfl, by rintro b - ⟨⟩⟩

theorem sealed_ends_iff :
    Ends SealedBounds Promised (SealedOuterEnvelope.fromDict (.dict data)) ↔
      Sound (sealedFates data) := by
  refine (intField_comes _ data "v" _).cons (fun version _ hgood => ?_) fun version hbad => ?_
  · have hversion : version = sealedSenderVersion := of_decide_eq_true hgood
    dsimp only
    rw [if_neg (not_not.mpr hversion)]
    generalize Json.get data "recipient_locator" = locator
    cases locator with
    | str s =>
        by_cases hblank : isBlank s = true
        · simp only [locatorFate, hblank, if_true]
          exact iff_of_true rfl trivial
        simp only [locatorFate, hblank]
        refine (intField_comes _ data "ttl" _).cons (fun ttl _ httl => ?_) fun ttl httl => ?_
        · have httl : 0 ≤ ttl := of_decide_eq_true httl
          rw [if_neg (Int.not_lt.mpr httl)]
          rcases payload_cases (Json.get data "sp") with
            ⟨hfate, hsp⟩ | ⟨hfate, htruthy, payload, hdec, hlong⟩
          · rw [hfate]
            refine iff_of_true (Ends.guard (fun _ => rfl) fun htruthy => ?_) trivial
            cases hdec : b64uDecode (Json.get data "sp") with
            | error e => exact rfl
            | ok payload =>
                have hshort := hsp payload (not_not.mp htruthy) hdec
                exact Ends.guard (fun _ => rfl) fun h => absurd hshort h
          · rw [hfate, if_neg (not_not.mpr htruthy), hdec]
            simp only [except_ok_bind, if_neg (not_lt.mpr hlong)]
            exact pad_ends_iff (Json.get data "pad") fun padding =>
              ⟨hversion, by simpa using hblank, httl, hlong⟩
        · have httl : ttl < 0 := by simpa using httl
          exact Ends.guard (fun _ => rfl) fun h => absurd httl h
    | _ => exact iff_of_true rfl trivial
  · have hversion : version ≠ sealedSenderVersion := fun h => hbad (decide_eq_true h)
    exact Ends.guard (fun _ => rfl) fun h => absurd hversion h

/-- An envelope is read back exactly if it is within the bounds. -/
theorem envelope_reads_back_iff {env : ProtocolEnvelope Bytes} :
    ProtocolEnvelope.fromDict env.toDict = .ok env ↔ EnvelopeBounds env := by
  have hdec : ∀ b, b64uDecode (.str (b64Encode b)) = .ok b := by simp [b64uDecode]
  have hv : intField env.toDict "v" "Invalid or missing envelope version" = .ok env.version := by
    simp [intField, ProtocolEnvelope.toDict, Odict.get?, Json.toInt]
  have hfields : ProtocolEnvelope.readFields env.version env.toDict
      = .ok { env with metaData := [] } := by
    simp [ProtocolEnvelope.readFields, ProtocolEnvelope.toDict, Json.item, Odict.get?, hdec,
      Json.toInt]
  have hmeta : ProtocolEnvelope.readMeta env.toDict = .ok env.metaData := rfl
  simp only [ProtocolEnvelope.fromDict, hv, hfields, Except.mapError, except_ok_bind, hmeta]
  by_cases hversion : env.version = currentVersion
  · rw [if_neg (not_not.mpr hversion)]
    by_cases hnumbers : env.messageNumber < 0 ∨ env.previousChainLength < 0
    · rw [if_pos hnumbers]
      refine iff_of_false (fun h => by cases h) fun h => ?_
      have hn := h.messageNumber
      have hpn := h.previousChainLength
      omega
    · rw [if_neg hnumbers]
      by_cases hfilled : env.sessionId = [] ∨ env.senderRatchetKey = [] ∨ env.ciphertext = []
      · rw [if_pos hfilled]
        refine iff_of_false (fun h => by cases h) fun h => ?_
        simp [h.sessionId, h.senderRatchetKey, h.ciphertext] at hfilled
      · rw [if_neg hfilled]
        obtain ⟨hsid, hdh, hct⟩ : env.sessionId ≠ [] ∧ env.senderRatchetKey ≠ [] ∧
            env.ciphertext ≠ [] := by simpa [not_or] using hfilled
        exact iff_of_true rfl ⟨hversion, hsid, hdh, hct, by omega, by omega⟩
  · rw [if_pos hversion]
    exact iff_of_false (fun h => by cases h) fun h => hversion h.version

/-- The three parsers keep their promise exactly for the dicts of which the
first field to stop the parser is refused. -/
theorem parsers_keep_promise_iff :
    (Ends EnvelopeBounds Promised (ProtocolEnvelope.fromDict data) ↔
      Sound (envelopeFates data)) ∧
    (Ends SealedBounds Promised (SealedOuterEnvelope.fromDict (.dict data)) ↔
      Sound (sealedFates data)) ∧
    (Ends GroupMessageBounds Promised (GroupMessage.fromDict data) ↔
      Sound (groupMessageFates data)) :=
  ⟨envelope_ends_iff data, sealed_ends_iff data, groupMessage_ends_iff data⟩

end Parsers

/-- One base64 digit, which is less than a byte, and a number out of range: each
parser raises something else. -/
theorem malformed_fields_escape :
    (∃ e, ProtocolEnvelope.fromDict [("v", .int 1), ("sid", .str "A")] = .error e ∧
      ¬ Promised e) ∧
    (∃ e, SealedOuterEnvelope.fromDict (.dict [("v", .float (.infinite false))]) = .error e ∧
      ¬ Promised e) ∧
    (∃ e, SealedOuterEnvelope.fromDict (.dict [("v", .int 1),
        ("recipient_locator", .str "alice"),
        ("sp", .str "AAAAAAAAAAAAAAAAAAAAAAAAAAAAAAAAAAAAAA"), ("pad", .str "A")]) = .error e ∧
      ¬ Promised e) ∧
    ∃ e, GroupMessage.fromDict [("gid", .str "A")] = .error e ∧ ¬ Promised e :=
  ⟨⟨_, rfl, by decide⟩, ⟨_, rfl, by decide⟩, ⟨_, rfl, by decide⟩, ⟨_, rfl, by decide⟩⟩

end GhostChat.Proofs
