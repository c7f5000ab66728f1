import GhostChat.Lib.Run
import GhostChat.Ref.Router

/-!
# Mailboxes that forget (server/memory_mailbox.py, server/ttl.py)

`put` stores an envelope with the time it expires at. `get_all` returns what
has not expired and keeps it, and drops the rest for good. It returns the same
envelopes again the next time: nothing is taken out by reading.

As in the router, a time is added once and compared once.
-/

namespace GhostChat.Ref

open GhostChat.Lib

variable {T : Type} [Add T] [LT T] [DecidableLT T] [LE T] [DecidableLE T]

/-- `is_expired`. -/
def isExpired (createdAt ttl : T) (now : Option T) (clock : T) : Bool :=
  createdAt + ttl < now.getD clock

structure StoredEnvelope (T : Type) where
  expiresAt : T
  envelope : Envelope

structure MemoryMailboxStore (T : Type) where
  mailboxes : Odict String (List (StoredEnvelope T)) := []

namespace MemoryMailboxStore

def put (recipient : String) (envelope : Envelope) (ttl clock : T)
    (store : MemoryMailboxStore T) : MemoryMailboxStore T :=
  let box := (Odict.get? store.mailboxes recipient).getD []
  { mailboxes := Odict.set store.mailboxes recipient (box ++ [⟨clock + ttl, envelope⟩]) }

/-- The box is assigned even where there was none. -/
def getAll (recipient : String) (clock : T) (store : MemoryMailboxStore T) :
    List Envelope × MemoryMailboxStore T :=
  let items := (Odict.get? store.mailboxes recipient).getD []
  let alive := items.filter fun item => clock ≤ item.expiresAt
  (alive.map (·.envelope), { mailboxes := Odict.set store.mailboxes recipient alive })

end MemoryMailboxStore

/-- A call, with what `time.time()` returns in it. -/
inductive MailboxAct (T : Type) where
  | put (recipient : String) (envelope : Envelope) (ttl clock : T)
  | getAll (recipient : String) (clock : T)

def MemoryMailboxStore.step (store : MemoryMailboxStore T) :
    MailboxAct T → MemoryMailboxStore T
  | .put recipient envelope ttl clock => store.put recipient envelope ttl clock
  | .getAll recipient clock => (store.getAll recipient clock).2

end GhostChat.Ref
