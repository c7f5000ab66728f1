import GhostChat.Ref.Message

/-!
# The session file (client/session_store.py)

A session is written out whole: every key as base64, the skipped keys and the
replay cache as they stand. What is on disk is the JSON value that was dumped.
`save_session` raises the version in memory before it opens the file, and may
raise before or after that; `SaveIo` says where the file system lets it down.

Reading back is `state_from_dict`, check by check. Keys and private keys are
bytes here, as they are in the file.
-/

namespace GhostChat.Ref

open GhostChat.Lib GhostChat.Lib.Effect

/-- A ratchet state of the code, with bytes for keys. -/
abbrev SessionState := DoubleRatchetState Bytes Bytes

def sessionFileVersion : Int := 1

/-! ## Writing -/

/-- `_b64(x) if x else None`: `None` and the empty string are both false. -/
def b64OrNone : Option Bytes → Json
  | none | some [] => .null
  | some b => .str (b64Encode b)

/-- `dh || n` with the number as uint32, in base64. -/
def encodeId (dh : Bytes) (n : Nat) : String := b64Encode (dh ++ uint32be n)

def SkippedMessageKeys.toDict (sk : SkippedMessageKeys Bytes) : Json :=
  .dict (sk.store.foldl
    (fun out e => Odict.set out (encodeId e.1.1 e.1.2) (.str (b64Encode e.2))) [])

def ReceivedIdsStore.toDict (r : ReceivedIdsStore) : Json :=
  .dict [("ids", .list (r.order.map fun id => .str (encodeId id.1 id.2)))]

def stateToDict (s : SessionState) : Json :=
  .dict [
    ("v", .int sessionFileVersion),
    ("session_version", .int s.sessionVersion),
    ("root_key", .str (b64Encode s.rootKey)),
    ("sending_chain_key", b64OrNone s.sendingChainKey),
    ("receiving_chain_key", b64OrNone s.receivingChainKey),
    ("dhs_private", b64OrNone s.dhsPrivate),
    ("dhr", b64OrNone s.dhr),
    ("Ns", .int s.Ns),
    ("Nr", .int s.Nr),
    ("PN", .int s.PN),
    ("skipped", s.skippedMessageKeys.toDict),
    ("received_ids", s.receivedIds.toDict)]

/-! ## Reading -/

/-- `_require_str_b64` with `_b64d` and `_require_b64_key`. -/
def requireStrB64 (name : String) : Json → Except Exn Bytes
  | .str s =>
      match b64Decode s with
      | .error e => .error (.corruptedSession s!"Invalid base64: {e.str}")
      | .ok raw =>
          if raw.length ≠ 32 then
            .error (.corruptedSession s!"Invalid {name} length: expected 32, got {raw.length}")
          else .ok raw
  | _ => .error (.corruptedSession s!"{name} must be a string (base64)")

/-- A key that may be `null` or missing. -/
def optionalKey (name : String) : Json → Except Exn (Option Bytes)
  | .null => .ok none
  | v => some <$> requireStrB64 name v

/-- `_require_counter`. -/
def requireCounter (name : String) : Json → Except Exn Nat
  | .null => .ok 0
  | .int v =>
      if v < 0 then .error (.corruptedSession s!"{name} must be non-negative")
      else .ok v.toNat
  | .bool _ => .error (.corruptedSession s!"{name} must be an integer, not bool")
  | _ => .error (.corruptedSession s!"{name} must be an integer")

/-- The 36 bytes of an id: the key, and the number big-endian. -/
def decodeId (s tooShort : String) : Except Exn (Bytes × Nat) := do
  let raw ← b64Decode s
  if raw.length ≠ 36 then throw (.valueError tooShort)
  return (raw.take 32, fromBytesBig (raw.drop 32))

/-- One entry of the loop in `SkippedMessageKeys.from_dict`. -/
def skippedEntry (store : Odict (Bytes × Nat) Bytes) (e : String × Json) :
    Except Exn (Odict (Bytes × Nat) Bytes) :=
  match e.2 with
  | .str v => do
      let id ← decodeId e.1 "skipped key index must decode to 36 bytes (32 dh + 4 n)"
      let key ← b64Decode v
      if key.length ≠ 32 then
        throw (.valueError "skipped message key must decode to 32 bytes")
      return Odict.set store id key
  | _ => .error (.valueError "skipped key entry must be str keys and values")

def SkippedMessageKeys.fromDict (d : List (String × Json)) (maxKeys : Nat) :
    Except Exn (SkippedMessageKeys Bytes) := do
  let store ← d.foldlM skippedEntry []
  if store.length > maxKeys then
    throw (.skippedKeyStorageLimit
      s!"Skipped key store has {store.length} entries, max allowed is {maxKeys}")
  return { maxKeys := maxKeys, store := store }

/-- The loop of `ReceivedIdsStore.from_dict`. -/
def ReceivedIdsStore.addAll : List Json → EStateM Exn ReceivedIdsStore Unit
  | [] => pure ()
  | .str s :: rest => do
      let id ← lift (decodeId s "received id must decode to 36 bytes")
      let r ← get
      if !r.contains id.1 id.2 then ReceivedIdsStore.add id.1 id.2
      ReceivedIdsStore.addAll rest
  | _ :: _ => throw (.valueError "received_ids entry must be a string")

/-- `ReceivedIdsStore.from_dict`; the caller hands it `None` for a value that
is not a dict, and a missing or wrong `ids` gives an empty store. -/
def ReceivedIdsStore.fromDict (data : Json) : Except Exn ReceivedIdsStore :=
  match data with
  | .dict d =>
      match Json.get d "ids" with
      | .list ids =>
          match ReceivedIdsStore.addAll ids {} with
          | .ok _ r => .ok r
          | .error e _ => .error e
      | _ => .ok {}
  | _ => .ok {}

/-- `skipped_data or {}`, refused if it is neither `None` nor a dict. -/
def skippedField : Json → Except Exn (List (String × Json))
  | .null => .ok []
  | .dict d => .ok d
  | _ => .error (.corruptedSession "skipped must be a dict")

/-- `except (ValueError, SkippedKeyStorageLimitError)` around the skipped
keys. -/
def rewordSkipped {α : Type} : Except Exn α → Except Exn α
  | .error (.valueError m) | .error (.skippedKeyStorageLimit m) =>
      .error (.corruptedSession s!"Invalid skipped keys: {m}")
  | r => r

/-- `except ValueError` around the replay cache. -/
def rewordReceived {α : Type} : Except Exn α → Except Exn α
  | .error (.valueError m) => .error (.corruptedSession s!"Invalid received_ids: {m}")
  | r => r

/-- `data.get("session_version", 1)`, checked. -/
def requireSessionVersion (d : List (String × Json)) : Except Exn Nat :=
  match (Odict.get? d "session_version").getD (.int 1) with
  | .int sv =>
      if sv < 1 then .error (.corruptedSession "session_version must be >= 1")
      else .ok sv.toNat
  | _ => .error (.corruptedSession "session_version must be an integer")

/-- The format number, and `data["root_key"]` with its `KeyError`. -/
def checkFormat (d : List (String × Json)) : Except Exn Unit :=
  if !(Json.get d "v").eqInt sessionFileVersion then
    .error (.corruptedSession "Unsupported session version")
  else if !Odict.has d "root_key" then .error (.corruptedSession "Missing root_key")
  else .ok ()

def stateFromDict (maxSkippedKeys : Nat) : Json → Except Exn SessionState
  | .dict d => do
      checkFormat d
      let rootKey ← requireStrB64 "root_key" (Json.get d "root_key")
      let ckS ← optionalKey "sending_chain_key" (Json.get d "sending_chain_key")
      let ckR ← optionalKey "receiving_chain_key" (Json.get d "receiving_chain_key")
      let dhsPrivate ← optionalKey "dhs_private" (Json.get d "dhs_private")
      let dhr ← optionalKey "dhr" (Json.get d "dhr")
      let Ns ← requireCounter "Ns" (Json.get d "Ns")
      let Nr ← requireCounter "Nr" (Json.get d "Nr")
      let PN ← requireCounter "PN" (Json.get d "PN")
      let skippedData ← skippedField (Json.get d "skipped")
      let skipped ← rewordSkipped (SkippedMessageKeys.fromDict skippedData maxSkippedKeys)
      let sessionVersion ← requireSessionVersion d
      let receivedIds ← rewordReceived (ReceivedIdsStore.fromDict (Json.get d "received_ids"))
      return { rootKey := rootKey, sendingChainKey := ckS, receivingChainKey := ckR
               dhsPrivate := dhsPrivate, dhr := dhr, Ns := Ns, Nr := Nr, PN := PN
               skippedMessageKeys := skipped, receivedIds := receivedIds
               sessionVersion := sessionVersion }
  | _ => .error (.corruptedSession "Session data must be a dict")

/-! ## The file -/

/-- What there is under a session's path. -/
inductive SessionFile where
  | missing
  | notJson
  | json (v : Json)

/-- `int(existing.get("session_version", 0))`. -/
def fileVersion : Json → Except Exn Int
  | .dict d => ((Odict.get? d "session_version").getD (.int 0)).toInt
  | _ => .error (.attributeError "object has no attribute 'get'")

/-- How the file system answers during one `save_session`: it may fail before
the version is raised (directory, reading) or after (writing, renaming). -/
inductive SaveIo where
  | ok
  | failsEarly (msg : String)
  | failsLate (msg : String)

/-- The state in memory and the file of one session. -/
structure SessionSlot where
  state : SessionState
  file : SessionFile

/-- The rollback check on the file that is there. -/
def checkRollback (current : Nat) : SessionFile → Except Exn Unit
  | .missing => .ok ()
  | .notJson => .error (.corruptedSession "Existing session file is invalid JSON")
  | .json existing => do
      let version ← fileVersion existing
      if version > current then
        throw (.sessionRollback
          s!"Session rollback detected: file version {version} > in-memory version {current}")

def saveSession (io : SaveIo) : EStateM Exn SessionSlot Unit := do
  if let .failsEarly msg := io then throw (.osError msg)
  let slot ← get
  lift (checkRollback slot.state.sessionVersion slot.file)
  modify fun slot => { slot with
    state := { slot.state with sessionVersion := slot.state.sessionVersion + 1 } }
  if let .failsLate msg := io then throw (.osError msg)
  modify fun slot => { slot with file := .json (stateToDict slot.state) }

/-- `load_session`. -/
def loadSession (maxSkippedKeys : Nat) : SessionFile → Except Exn (Option SessionState)
  | .missing => .ok none
  | .notJson => .error (.corruptedSession "Invalid JSON")
  | .json v => some <$> stateFromDict maxSkippedKeys v

end GhostChat.Ref
