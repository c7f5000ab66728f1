import GhostChat.Ref.MessageApi

/-!
# Protocol envelopes as dicts (protocol/envelope.py)

What the relay carries between two profiles is the dict of an envelope. The
version is read first and by itself, then the six fields in one `try` that
names a missing one, and what is read is checked last.
-/

namespace GhostChat.Ref

open GhostChat.Lib

namespace ProtocolEnvelope

/-- `to_dict`. -/
def toDict (env : ProtocolEnvelope Bytes) : List (String × Json) := [
  ("v", .int env.version),
  ("sid", .str (b64Encode env.sessionId)),
  ("rk", .str (b64Encode env.senderRatchetKey)),
  ("n", .int env.messageNumber),
  ("pn", .int env.previousChainLength),
  ("ct", .str (b64Encode env.ciphertext)),
  ("nonce", .str (b64Encode env.nonce)),
  ("meta", .dict env.metaData)]

/-- The second `try` of `from_dict`; `meta` is read after it. -/
def readFields (version : Int) (data : List (String × Json)) :
    Except Exn (ProtocolEnvelope Bytes) := do
  let sid ← Json.item data "sid" >>= b64uDecode
  let rk ← Json.item data "rk" >>= b64uDecode
  let ct ← Json.item data "ct" >>= b64uDecode
  let nonce ← b64uDecode ((Odict.get? data "nonce").getD (.str ""))
  let n ← Json.item data "n" >>= Json.toInt
  let pn ← Json.item data "pn" >>= Json.toInt
  return {
    version := version
    sessionId := sid
    senderRatchetKey := rk
    messageNumber := n
    previousChainLength := pn
    ciphertext := ct
    nonce := nonce
    metaData := [] }

/-- Its `except` clauses. -/
def reword : Exn → Exn
  | .keyError key => .valueError ("Missing envelope field: '" ++ key ++ "'")
  | .typeError _ | .valueError _ | .jsonDecodeError _ => .valueError "Invalid envelope field type"
  | e => e

/-- `data.get("meta") or {}`, which has to be a dict. -/
def readMeta (data : List (String × Json)) : Except Exn (Odict String Json) :=
  match Json.get data "meta" with
  | .dict fields => .ok fields
  | v => if v.truthy then .error (.valueError "meta must be a dict if present") else .ok []

/-- `from_dict`. -/
def fromDict (data : List (String × Json)) : Except Exn (ProtocolEnvelope Bytes) := do
  let version ← intField data "v" "Invalid or missing envelope version"
  if version ≠ currentVersion then throw (.valueError "Unsupported envelope version")
  let env ← (readFields version data).mapError reword
  if env.messageNumber < 0 ∨ env.previousChainLength < 0 then
    throw (.valueError "Negative message numbers are invalid")
  if env.sessionId = [] ∨ env.senderRatchetKey = [] ∨ env.ciphertext = [] then
    throw (.valueError "Session id, ratchet key, and ciphertext must be non-empty")
  let metaData ← readMeta data
  return { env with metaData := metaData }

end ProtocolEnvelope

end GhostChat.Ref
