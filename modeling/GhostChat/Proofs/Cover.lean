import GhostChat.Proofs.Sealed
import GhostChat.Ref.MessageApi

/-!
# Cover traffic

A cover envelope is a well-formed sealed envelope that nobody sealed. Reading
the inbox tries it against every session, in order, under the sealing key each
has by then, and no trial writes anything: the payload is unsealed before the
replay cache is asked. So an envelope that authenticates under none of the
keys ends in the one exception whose text says so, and is dropped.

The two runs that are compared go through inboxes of different length, and
what is observed of them is the list or the exception they end with and the
session manager they leave. They visit the same managers, because a dummy
leaves the manager as it was; that is all the induction needs.
-/

namespace GhostChat.Proofs

open GhostChat.Lib GhostChat.Lib.Effect GhostChat.Ref

variable {K P : Type} {c : Crypto K P Bytes}

/-! ## Two inboxes -/

/-- One list is the other with elements that satisfy `Q` put in anywhere. -/
inductive Padded {α : Type} (Q : α → Prop) : List α → List α → Prop
  | nil : Padded Q [] []
  | keep {a : α} {xs ys : List α} (h : Padded Q xs ys) : Padded Q (a :: xs) (a :: ys)
  | put {a : α} {xs ys : List α} (ha : Q a) (h : Padded Q xs ys) : Padded Q (a :: xs) ys

/-- The payload of a sealed envelope opens under a key. -/
def Authenticates (c : Crypto K P Bytes) (key : K) (payload : Bytes) : Prop :=
  ∃ plaintext, chachaDecrypt c key (payload.take nonceSize) (payload.drop nonceSize) []
    = .ok plaintext

instance Authenticates.decidable (c : Crypto K P Bytes) (key : K) (payload : Bytes) :
    Decidable (Authenticates c key payload) :=
  match h : chachaDecrypt c key (payload.take nonceSize) (payload.drop nonceSize) [] with
  | .ok plaintext => isTrue ⟨plaintext, h⟩
  | .error _ => isFalse fun ⟨_, hok⟩ => by rw [h] at hok; cases hok

/-- A well-formed sealed envelope that opens under none of some keys. -/
def Dummy (c : Crypto K P Bytes) (keys : List K) (a : Arrival P) : Prop :=
  ∃ fields env, a.item = .dict fields ∧ isSealedEnvelope (.dict fields) = true ∧
    SealedOuterEnvelope.fromDict (.dict fields) = .ok env ∧
    ∀ key ∈ keys, ¬ Authenticates c key env.sealedPayload

/-- The key each session would seal under. -/
def sealingKeys (c : Crypto K P Bytes) (m : SessionManager K P) : List K :=
  m.sessions.map fun e => deriveSealingKey c.toKeyAlg e.2.ratchet.rootKey

/-- What `recv_sealed` opens, if it opens an item. -/
def sealedDict (a : Arrival P) : Option Json :=
  match a.item with
  | .dict fields => if isSealedEnvelope (.dict fields) then some (.dict fields) else none
  | .envelope _ => none

/-- The sealing keys the sessions have, before each item and at the end, while
`recv_sealed` goes through an inbox. -/
def keysDuring (c : Crypto K P Bytes) : SessionManager K P → List (Arrival P) → List K
  | m, [] => sealingKeys c m
  | m, a :: rest => sealingKeys c m ++
      match sealedDict a with
      | none => keysDuring c m rest
      | some item =>
          match openSealed c true item a.generated m with
          | .ok _ m' => keysDuring c m' rest
          | .error _ m' => sealingKeys c m'

theorem sealingKeys_subset (m : SessionManager K P) (inbox : List (Arrival P)) :
    sealingKeys c m ⊆ keysDuring c m inbox := by
  intro key hkey
  cases inbox with
  | nil => exact hkey
  | cons a rest => exact List.mem_append_left _ hkey

/-! ## What a dummy does -/

theorem unseal_error {payload : Bytes} {key : K} (h : ¬ Authenticates c key payload) :
    ∃ e, unsealInner c payload key = .error e := by
  cases hun : unsealInner c payload key with
  | error e => exact ⟨e, rfl⟩
  | ok inner =>
      obtain ⟨-, hun⟩ := except_guard_ok hun
      obtain ⟨plaintext, hdec, -⟩ := except_bind_ok hun
      exact absurd ⟨plaintext, hdec⟩ h

/-- Every session is tried, and nothing is written. -/
theorem trySessions_dummy {payload : Bytes} (generated : P) (m : SessionManager K P)
    {sessions : List (Bytes × SessionContext K P)}
    (h : ∀ e ∈ sessions,
      ¬ Authenticates c (deriveSealingKey c.toKeyAlg e.2.ratchet.rootKey) payload) :
    SessionManager.trySessions c payload generated sessions m
      = .error (.valueError "sealed payload could not be decrypted with any session") m := by
  induction sessions with
  | nil => rfl
  | cons e rest ih =>
      obtain ⟨exn, hexn⟩ := unseal_error (h e List.mem_cons_self)
      rw [SessionManager.trySessions, hexn]
      exact ih fun e' he' => h e' (List.mem_cons_of_mem e he')

/-- A dummy is opened for nothing. -/
theorem openSealed_dummy {keys : List K} {a : Arrival P} (ha : Dummy c keys a)
    {m : SessionManager K P} (hkeys : sealingKeys c m ⊆ keys) :
    ∃ item, sealedDict a = some item ∧ openSealed c true item a.generated m = .ok none m := by
  obtain ⟨fields, env, hitem, hsealed, henv, hauth⟩ := ha
  have htry : SessionManager.trySessions c env.sealedPayload a.generated m.sessions m
      = .error (.valueError "sealed payload could not be decrypted with any session") m :=
    trySessions_dummy a.generated m fun e he => hauth _ (hkeys (List.mem_map_of_mem he))
  have hcall : SessionManager.decryptSealed c (.dict fields) a.generated m
      = .error (.valueError "sealed payload could not be decrypted with any session") m := by
    simp only [SessionManager.decryptSealed, bind_apply, henv, lift_ok, get_apply, htry]
  have hdropped : (Exn.valueError "sealed payload could not be decrypted with any session").mentions
      undecryptable = true := by decide +kernel
  refine ⟨.dict fields, ?_, ?_⟩
  · rw [sealedDict, hitem]
    exact if_pos hsealed
  · simp only [openSealed, bind_apply, hcall, hdropped]
    rfl

/-! ## The loop -/

/-- What is observed of a call: how it ended, and the session manager. -/
def observed {α : Type} : EStateM.Result Exn (InMemoryEndpoint K P) α →
    Except Exn α × SessionManager K P
  | .ok r e => (.ok r, e.manager)
  | .error exn e => (.error exn, e.manager)

section Loop

variable {kept rest : List (Arrival P)} {out : List (Bytes × String)} {a : Arrival P}
  {e : InMemoryEndpoint K P}

theorem recvSealedLoop_skip (h : sealedDict a = none) (drop : Bool) :
    recvSealedLoop c drop kept (a :: rest) out e
      = recvSealedLoop c drop (kept ++ [a]) rest out e := by
  obtain ⟨item, generated⟩ := a
  cases item with
  | envelope env => rw [recvSealedLoop]
  | dict fields =>
      rw [recvSealedLoop, if_neg]
      intro hsealed
      simp only [sealedDict, hsealed, if_true] at h
      cases h

theorem recvSealedLoop_open {item : Json} (h : sealedDict a = some item) (drop : Bool) :
    recvSealedLoop c drop kept (a :: rest) out e =
      match openSealed c drop item a.generated e.manager with
      | .ok entry m => recvSealedLoop c drop kept rest (out ++ entry.toList)
          { e with inbox := kept ++ rest, manager := m }
      | .error exn m => .error exn { e with inbox := kept ++ rest, manager := m } := by
  obtain ⟨arrived, generated⟩ := a
  cases arrived with
  | envelope env => cases h
  | dict fields =>
      simp only [sealedDict] at h
      split at h
      · next hsealed =>
          injection h with h
          subst h
          simp only [recvSealedLoop, hsealed, if_true, bind_apply, modify_apply,
            InMemoryEndpoint.onManager, zoom]
          cases openSealed c drop (.dict fields) generated e.manager with
          | error exn m => rfl
          | ok entry m =>
              cases entry with
              | none => simp only [Option.toList_none, List.append_nil]
              | some x => rfl
      · cases h

end Loop

/-- The two loops side by side. What has been stepped over and what lies in
the inboxes may differ; the managers do not. -/
theorem recvSealedLoop_padded {keys : List K} {xs ys : List (Arrival P)}
    (h : Padded (Dummy c keys) xs ys) :
    ∀ {kept kept' : List (Arrival P)} {out : List (Bytes × String)}
      {e e' : InMemoryEndpoint K P}, e.manager = e'.manager → keysDuring c e'.manager ys ⊆ keys →
      observed (recvSealedLoop c true kept xs out e)
        = observed (recvSealedLoop c true kept' ys out e') := by
  induction h with
  | nil =>
      intro kept kept' out e e' hmgr hkeys
      simp only [recvSealedLoop, pure_apply, observed, hmgr]
  | @put a xs ys ha _ ih =>
      intro kept kept' out e e' hmgr hkeys
      obtain ⟨item, hitem, hopen⟩ := openSealed_dummy (m := e.manager) ha (by
        rw [hmgr]
        exact fun key hkey => hkeys (sealingKeys_subset _ _ hkey))
      rw [recvSealedLoop_open hitem, hopen]
      dsimp only
      rw [Option.toList_none, List.append_nil]
      exact ih hmgr hkeys
  | @keep a xs ys _ ih =>
      intro kept kept' out e e' hmgr hkeys
      rw [keysDuring] at hkeys
      have hrest := (List.append_subset.mp hkeys).2
      cases hitem : sealedDict a with
      | none =>
          simp only [hitem] at hrest
          rw [recvSealedLoop_skip hitem, recvSealedLoop_skip hitem]
          exact ih hmgr hrest
      | some item =>
          simp only [hitem] at hrest
          rw [recvSealedLoop_open hitem, recvSealedLoop_open hitem, hmgr]
          cases hopen : openSealed c true item a.generated e'.manager with
          | error exn m => rfl
          | ok entry m =>
              simp only [hopen] at hrest
              exact ih rfl hrest

/-- Reading an inbox with dummies put in anywhere ends as reading it without
them, and leaves the same sessions. -/
theorem cover_invisible (c : Crypto K P Bytes) (e : InMemoryEndpoint K P)
    {inbox : List (Arrival P)}
    (hpad : Padded (Dummy c (keysDuring c e.manager e.inbox)) inbox e.inbox) :
    observed (recvSealed c true { e with inbox := inbox }) = observed (recvSealed c true e) := by
  simp only [recvSealed, bind_apply, get_apply]
  exact recvSealedLoop_padded hpad rfl fun _ hkey => hkey

/-! ## Dummies as they are made -/

theorem dummySize_long (payloadSize : Nat) : 28 ≤ dummySize payloadSize := by
  rw [dummySize, nonceSize]
  omega

/-- What `make_dummy_sealed_outer` builds is a dummy, as long as its random
payload opens nowhere. -/
theorem makeDummySealedOuter_dummy {keys : List K} {loc : String} {ttl : Int} {sp : Bytes}
    {payloadSize : Nat} (hloc : isBlank loc = false) (httl : 0 ≤ ttl)
    (hsize : sp.length = dummySize payloadSize) (hauth : ∀ key ∈ keys, ¬ Authenticates c key sp)
    (generated : P) : Dummy c keys ⟨.dict (makeDummySealedOuter loc ttl sp), generated⟩ := by
  have hlong : 28 ≤ sp.length := by
    rw [hsize]
    exact dummySize_long payloadSize
  exact ⟨_, _, rfl, rfl, fromDict_toDict hloc httl hlong, hauth⟩

/-- What the initiator of the sample seals. -/
def sampleOuter : List (String × Json) :=
  match SessionManager.encryptSealed sampleCrypto (ascii "peer") (ascii "only real") "bob" 60
      (List.replicate 12 5) (sampleSealed.manager .initiator) with
  | .ok (.dict fields) _ => fields
  | _ => []

/-- The responder with that in its inbox. -/
def sampleEndpoint : InMemoryEndpoint Bytes Bytes where
  manager := sampleSealed.manager .responder
  inbox := [⟨.dict sampleOuter, [3]⟩]

def sampleDummy : Arrival Bytes :=
  ⟨.dict (makeDummySealedOuter "bob" 0 (List.replicate 64 7)), [4]⟩

/-- A dummy before it and two after it. -/
theorem cover_invisible_sample :
    observed (recvSealed sampleCrypto true { sampleEndpoint with
        inbox := [sampleDummy, ⟨.dict sampleOuter, [3]⟩, sampleDummy, sampleDummy] })
      = observed (recvSealed sampleCrypto true sampleEndpoint) ∧
    value? (recvSealed sampleCrypto true sampleEndpoint)
      = some [(ascii "peer", "only real")] := by
  have hsize : (List.replicate 64 7 : Bytes).length = dummySize 64 := rfl
  have hdummy : Dummy sampleCrypto
      (keysDuring sampleCrypto sampleEndpoint.manager sampleEndpoint.inbox) sampleDummy :=
    makeDummySealedOuter_dummy (by decide +kernel) (by decide) hsize (by decide +kernel) _
  exact ⟨cover_invisible sampleCrypto sampleEndpoint
    (.put hdummy (.keep (.put hdummy (.put hdummy .nil)))), by decide +kernel⟩

end GhostChat.Proofs
