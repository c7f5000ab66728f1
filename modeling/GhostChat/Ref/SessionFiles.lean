import GhostChat.Ref.Steps
import GhostChat.Ref.Tasks

/-!
# Session files over time (client/session_store.py)

Three views of the same two functions. A session that is encrypted with,
decrypted with and saved; a directory with a file for each pair of user names;
and the copies of one session that processes hold in memory, which all write
the one file.

A save may end in four ways: it returns, it raises before the rollback check or
in it, it raises after the version in memory has been raised, or the process
stops, before the new file is in place or after. The temporary file is written
anew by every save and read by nobody, so what a failed save leaves there is
left open.
-/

namespace GhostChat.Ref

open GhostChat.Lib GhostChat.Lib.Effect

/-! ## One session in memory -/

/-- The calls on a session. A save finds any file. -/
inductive SessionCall where
  | engine (call : EngineCall Bytes Bytes)
  | save (io : SaveIo) (file : SessionFile)

def SessionCall.step (c : Crypto Bytes Bytes Bytes) (s : SessionState) :
    SessionCall → SessionState
  | .engine call => call.step c s
  | .save io file => (after (saveSession io ⟨s, file⟩)).state

/-- What a call on the engine returns or raises. -/
def EngineCall.result {K P C : Type} (c : Crypto K P C) (s : DoubleRatchetState K P) :
    EngineCall P C → Except Exn (RatchetWireMessage C ⊕ Bytes)
  | .encrypt pt =>
      match ratchetEncrypt c pt s with
      | .ok w _ => .ok (.inl w)
      | .error e _ => .error e
  | .decrypt msg g =>
      match ratchetDecrypt c msg g s with
      | .ok pt _ => .ok (.inr pt)
      | .error e _ => .error e

/-- What the calls return or raise one after another, each with the state it
leaves. -/
def outcomes {K P C : Type} (c : Crypto K P C) : DoubleRatchetState K P → List (EngineCall P C) →
    List (Except Exn (RatchetWireMessage C ⊕ Bytes) × DoubleRatchetState K P)
  | _, [] => []
  | s, call :: calls => (call.result c s, call.step c s) :: outcomes c (call.step c s) calls

/-! ## A directory of sessions -/

/-- `path.with_suffix(path.suffix + ".tmp")`. -/
def tempPath (path : String) : String := path ++ ".tmp"

def sessionFileAt (files : Odict String SessionFile) (path : String) : SessionFile :=
  (Odict.get? files path).getD .missing

/-- `save_session` on the files under `sessions/`. -/
def saveSessionAt (isalnum : Char → Bool) (localUsername remoteUsername : String)
    (state : SessionState) (io : SaveIo) (temp : SessionFile) (files : Odict String SessionFile) :
    Odict String SessionFile :=
  match sessionPath isalnum localUsername (.str remoteUsername) with
  | .error _ => files
  | .ok path =>
      match saveSession io ⟨state, sessionFileAt files path⟩ with
      | .ok _ slot => Odict.set (Odict.erase files (tempPath path)) path slot.file
      | .error _ slot =>
          if slot.state.sessionVersion = state.sessionVersion then files
          else Odict.set files (tempPath path) temp

/-- `load_session`. -/
def loadSessionAt (isalnum : Char → Bool) (maxSkippedKeys : Nat)
    (localUsername remoteUsername : String) (files : Odict String SessionFile) :
    Except Exn (Option SessionState) := do
  let path ← sessionPath isalnum localUsername (.str remoteUsername)
  loadSession maxSkippedKeys (sessionFileAt files path)

/-! ## The copies of one session -/

/-- The state objects of a session that were made so far, by number, `none` for
one whose process has stopped; and the file. `attempts` remembers the saves
that got past the rollback check, newest first: which object was saved, and
whether the file was replaced. -/
structure SessionCopies where
  objects : List (Option SessionState) := []
  file : SessionFile := .missing
  attempts : List (Nat × Bool) := []

/-- What happens to the copies. An engine changes an object and leaves its
version alone; a process that stops takes its objects with it. -/
inductive CopyAct where
  | create (s : SessionState)
  | load (maxSkippedKeys : Nat)
  | copy (i : Nat)
  | work (i : Nat) (s : SessionState)
  | save (i : Nat) (io : SaveIo)
  | crash (i : Nat) (replaced : Bool) (gone : List Nat)

namespace SessionCopies

def object (σ : SessionCopies) (i : Nat) : Option SessionState := (σ.objects[i]?).join

def save (σ : SessionCopies) (i : Nat) (io : SaveIo) : SessionCopies :=
  match σ.object i with
  | none => σ
  | some s =>
      match saveSession io ⟨s, σ.file⟩ with
      | .ok _ slot => {
          objects := σ.objects.set i (some slot.state)
          file := slot.file
          attempts := (i, true) :: σ.attempts }
      | .error _ slot => {
          objects := σ.objects.set i (some slot.state)
          file := slot.file
          attempts := if slot.state.sessionVersion = s.sessionVersion then σ.attempts
            else (i, false) :: σ.attempts }

def step (σ : SessionCopies) : CopyAct → SessionCopies
  | .create s => { σ with objects := σ.objects ++ [some s] }
  | .load maxSkippedKeys =>
      match loadSession maxSkippedKeys σ.file with
      | .ok (some s) => { σ with objects := σ.objects ++ [some s] }
      | _ => σ
  | .copy i => { σ with objects := σ.objects ++ [σ.object i] }
  | .work i s =>
      match σ.object i with
      | none => σ
      | some old => { σ with
          objects := σ.objects.set i (some { s with sessionVersion := old.sessionVersion }) }
  | .save i io => σ.save i io
  | .crash i replaced gone =>
      let σ' := if replaced then σ.save i .ok else σ
      { σ' with objects := σ'.objects.mapIdx fun j s => if j ∈ i :: gone then none else s }

end SessionCopies

end GhostChat.Ref
