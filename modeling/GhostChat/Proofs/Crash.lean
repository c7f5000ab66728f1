import GhostChat.Proofs.Receive
import GhostChat.Ref.SendLoop

/-!
# Keys across a crash

The send loop sends first and saves after. A process that stops in between
leaves a file that still stands where the last save left it, and the session
loaded from it takes its next key from a place on the sending chain that has
been used: another plaintext goes out under the same key and nonce. A save
that raised and was forgotten opens the same gap for as long as no later save
succeeds.

The gap is all there is. If every restart finds a file written after the last
message that went out, positions on the chain only grow over the whole run
(`Books`), and no key is used twice. What is needed of the file for this is
little: that it gives back the four fields the next sending key comes from.

Keys are bytes here, so that no two derivations collide cannot be assumed of
all byte strings at once. It is assumed of the part of the sending chain this
run can reach, `FreshChain`.
-/

namespace GhostChat.Proofs

open GhostChat.Lib GhostChat.Lib.Effect GhostChat.Ref

/-! ## The sending chain -/

section Chain

variable {K P C : Type} {c : Crypto K P C} {s s' : DoubleRatchetState K P}

/-- The chain key the next encryption takes its message key from: the one in
use, or the one a DH with the peer's key would give. -/
def sendingChain (c : Crypto K P C) (s : DoubleRatchetState K P) : Option K :=
  match s.sendingChainKey with
  | some ck => some ck
  | none =>
      match s.dhr with
      | none => none
      | some dh =>
          match dhWith c s.dhsPrivate dh with
          | .ok k => some (kdfRoot c.toKeyAlg s.rootKey k).2
          | .error _ => none

/-- The chain key `i` messages on. -/
def chainAt (a : KeyAlg K) (ck : Option K) (i : Nat) : Option K :=
  ck.map (fun k => (kdfChain a k).1)^[i]

/-- The `i`-th message key. -/
def messageKeyAt (a : KeyAlg K) (ck : Option K) (i : Nat) : Option K :=
  (chainAt a ck i).map fun k => (kdfChain a k).2

theorem chainAt_succ (a : KeyAlg K) (ck : Option K) (i : Nat) :
    chainAt a ck (i + 1) = (chainAt a ck i).map fun k => (kdfChain a k).1 := by
  cases ck with
  | none => rfl
  | some k => simp only [chainAt, Option.map_some, Function.iterate_succ_apply']

theorem nextSendingKey_chain {mk : K} (h : nextSendingKey c s = .ok mk s') :
    (sendingChain c s).map (fun k => (kdfChain c.toKeyAlg k).2) = some mk ∧
    s'.sendingChainKey = (sendingChain c s).map (fun k => (kdfChain c.toKeyAlg k).1) ∧
    s'.dhsPrivate = s.dhsPrivate ∧ s'.dhr = s.dhr := by
  cases hs : s.sendingChainKey with
  | some ck =>
      rw [nextSendingKey_open hs] at h
      injection h with hk hs'
      subst hs'
      rw [sendingChain, hs]
      exact ⟨by rw [← hk]; rfl, rfl, rfl, rfl⟩
  | none =>
      cases hd : s.dhr with
      | none =>
          obtain ⟨e, he⟩ := nextSendingKey_mute (c := c) hs hd
          rw [he] at h
          cases h
      | some dh =>
          rw [nextSendingKey_lazy hs hd] at h
          cases hw : dhWith c s.dhsPrivate dh with
          | error e => rw [hw] at h; cases h
          | ok k =>
              rw [hw] at h
              injection h with hk hs'
              subst hs'
              have hc : sendingChain c s = some (kdfRoot c.toKeyAlg s.rootKey k).2 := by
                simp only [sendingChain, hs, hd, hw]
              rw [hc]
              exact ⟨by rw [← hk]; rfl, rfl, rfl, hd⟩

/-- An encryption uses the key at its place on the chain and moves one on. -/
theorem encrypt_chain {pt : Bytes} {w : RatchetWireMessage C} {mk : K}
    (h : ratchetEncryptKeyed c pt s = .ok (w, mk) s') :
    (sendingChain c s).map (fun k => (kdfChain c.toKeyAlg k).2) = some mk ∧
    s'.sendingChainKey = (sendingChain c s).map (fun k => (kdfChain c.toKeyAlg k).1) ∧
    s'.dhsPrivate = s.dhsPrivate ∧ s'.dhr = s.dhr := by
  rw [ratchetEncryptKeyed_eq] at h
  cases hn : nextSendingKey c s with
  | error e s₁ => rw [hn] at h; cases h
  | ok mk₁ s₁ =>
      rw [hn] at h
      rcases sealWith_cases (c := c) (s := s₁) mk₁ pt with
        ⟨e, he⟩ | ⟨p, nonce, ct, -, -, -, he⟩
      · simp only [he] at h
        cases h
      · simp only [he] at h
        injection h with hw hs
        injection hw with _ hk
        subst hk hs
        obtain ⟨h₁, h₂, h₃, h₄⟩ := nextSendingKey_chain hn
        exact ⟨h₁, h₂, h₃, h₄⟩

end Chain

/-! ## What the file gives back -/

/-- No key is the empty string, which the file does not tell from `None`. -/
structure Storable (s : SessionState) : Prop where
  sendingChainKey : s.sendingChainKey ≠ some []
  dhsPrivate : s.dhsPrivate ≠ some []
  dhr : s.dhr ≠ some []

theorem requireStrB64_ok {name : String} {v : Json} {b : Bytes}
    (h : requireStrB64 name v = .ok b) : b.length = 32 := by
  unfold requireStrB64 at h
  split at h
  · split at h
    · cases h
    · split at h
      · cases h
      · next hlen =>
          injection h with h
          rw [← h]
          exact not_not.mp hlen
  · cases h

theorem requireStrB64_stored {name : String} {b b' : Bytes}
    (h : requireStrB64 name (.str (b64Encode b)) = .ok b') : b' = b := by
  rw [requireStrB64, b64Decode_b64Encode] at h
  dsimp only at h
  split at h
  · cases h
  · injection h with h
    exact h.symm

theorem optionalKey_ok {name : String} {v : Json} {k : Option Bytes}
    (h : optionalKey name v = .ok k) : k ≠ some [] := by
  rintro rfl
  unfold optionalKey at h
  split at h
  · cases h
  · obtain ⟨b, hb, hk⟩ : ∃ b, requireStrB64 name v = .ok b ∧ some b = some [] := by
      cases hr : requireStrB64 name v with
      | error e => rw [hr] at h; cases h
      | ok b => rw [hr] at h; exact ⟨b, rfl, by injection h⟩
    rw [Option.some.inj hk] at hb
    cases requireStrB64_ok hb

theorem requireStrB64_encoded {name : String} {b : Bytes} (h : b.length = 32) :
    requireStrB64 name (.str (b64Encode b)) = .ok b := by
  rw [requireStrB64, b64Decode_b64Encode]
  exact if_neg (not_not.mpr h)

theorem optionalKey_encoded {name : String} {k : Option Bytes}
    (h : ∀ b, k = some b → b.length = 32) : optionalKey name (b64OrNone k) = .ok k := by
  match k with
  | none => rfl
  | some [] => exact absurd (h [] rfl) (by decide)
  | some (x :: b) =>
      simp only [b64OrNone, optionalKey, requireStrB64_encoded (h _ rfl)]
      rfl

theorem optionalKey_stored {name : String} {k k' : Option Bytes} (hk : k ≠ some [])
    (h : optionalKey name (b64OrNone k) = .ok k') : k' = k := by
  match k, hk with
  | none, _ =>
      injection h with h
      exact h.symm
  | some (x :: b), _ =>
      simp only [b64OrNone, optionalKey] at h
      cases hr : requireStrB64 name (.str (b64Encode (x :: b))) with
      | error e => rw [hr] at h; cases h
      | ok b' =>
          rw [hr] at h
          injection h with h
          rw [← h, requireStrB64_stored hr]

/-- The fields of a state that was read, with what they were read from. -/
theorem stateFromDict_ok {cap : Nat} {d : List (String × Json)} {s : SessionState}
    (h : stateFromDict cap (.dict d) = .ok s) :
    requireStrB64 "root_key" (Json.get d "root_key") = .ok s.rootKey ∧
    optionalKey "sending_chain_key" (Json.get d "sending_chain_key")
      = .ok s.sendingChainKey ∧
    optionalKey "dhs_private" (Json.get d "dhs_private") = .ok s.dhsPrivate ∧
    optionalKey "dhr" (Json.get d "dhr") = .ok s.dhr ∧
    requireSessionVersion d = .ok s.sessionVersion := by
  rw [stateFromDict] at h
  obtain ⟨_, -, h⟩ := except_bind_ok h
  obtain ⟨rootKey, hroot, h⟩ := except_bind_ok h
  obtain ⟨ckS, hckS, h⟩ := except_bind_ok h
  obtain ⟨ckR, -, h⟩ := except_bind_ok h
  obtain ⟨dhsPrivate, hdhs, h⟩ := except_bind_ok h
  obtain ⟨dhr, hdhr, h⟩ := except_bind_ok h
  obtain ⟨Ns, -, h⟩ := except_bind_ok h
  obtain ⟨Nr, -, h⟩ := except_bind_ok h
  obtain ⟨PN, -, h⟩ := except_bind_ok h
  obtain ⟨skippedData, -, h⟩ := except_bind_ok h
  obtain ⟨skipped, -, h⟩ := except_bind_ok h
  obtain ⟨sessionVersion, hversion, h⟩ := except_bind_ok h
  obtain ⟨receivedIds, -, h⟩ := except_bind_ok h
  injection h with h
  subst h
  exact ⟨hroot, hckS, hdhs, hdhr, hversion⟩

variable {c : Crypto Bytes Bytes Bytes} {cap : Nat} {s s' : SessionState}

theorem requireCounter_encoded (name : String) (n : Nat) :
    requireCounter name (.int n) = .ok n := by
  rw [requireCounter, if_neg (by omega)]
  rfl

/-- A state whose keys have their lengths and whose two stores are read back
is read back. -/
theorem stateFromDict_stored (hroot : s.rootKey.length = 32)
    (hckS : ∀ b, s.sendingChainKey = some b → b.length = 32)
    (hckR : ∀ b, s.receivingChainKey = some b → b.length = 32)
    (hdhs : ∀ b, s.dhsPrivate = some b → b.length = 32)
    (hdhr : ∀ b, s.dhr = some b → b.length = 32)
    (hskipped : ∃ d, s.skippedMessageKeys.toDict = .dict d ∧
      SkippedMessageKeys.fromDict d cap = .ok s.skippedMessageKeys)
    (hreceived : ReceivedIdsStore.fromDict s.receivedIds.toDict = .ok s.receivedIds)
    (hversion : 1 ≤ s.sessionVersion) : stateFromDict cap (stateToDict s) = .ok s := by
  obtain ⟨d, hd, hskipped⟩ := hskipped
  have hv : ¬ ((s.sessionVersion : Int) < 1) := by omega
  have hsk : rewordSkipped (SkippedMessageKeys.fromDict d cap) = .ok s.skippedMessageKeys := by
    rw [hskipped]
    rfl
  simp only [stateFromDict, stateToDict, checkFormat, requireSessionVersion, Json.get,
    Odict.get?, Odict.has, List.find?_cons, List.any_cons, String.reduceEq, decide_false,
    decide_true, Option.map_some, Option.getD_some, Bool.or_true, Bool.true_or, Bool.false_or,
    requireStrB64_encoded hroot, optionalKey_encoded hckS, optionalKey_encoded hckR,
    optionalKey_encoded hdhs, optionalKey_encoded hdhr, requireCounter_encoded, hd,
    skippedField, hreceived, rewordReceived, if_neg hv]
  simp only [bind, Except.bind, hsk]
  rfl

/-- A state that was read has no empty keys. -/
theorem loaded_storable {d : Json} (h : stateFromDict cap d = .ok s) : Storable s := by
  cases d with
  | dict d =>
      obtain ⟨-, hckS, hdhs, hdhr, -⟩ := stateFromDict_ok h
      exact ⟨optionalKey_ok hckS, optionalKey_ok hdhs, optionalKey_ok hdhr⟩
  | _ => cases h

theorem sendingChain_congr (hroot : s'.rootKey = s.rootKey)
    (hck : s'.sendingChainKey = s.sendingChainKey) (hdhs : s'.dhsPrivate = s.dhsPrivate)
    (hdhr : s'.dhr = s.dhr) : sendingChain c s' = sendingChain c s := by
  rw [sendingChain, sendingChain, hroot, hck, hdhs, hdhr]

/-- A session read back takes its next key where the saved one would. -/
theorem saved_sendingChain (hs : Storable s)
    (h : stateFromDict cap (stateToDict s) = .ok s') :
    sendingChain c s' = sendingChain c s := by
  obtain ⟨hroot, hckS, hdhs, hdhr, -⟩ := stateFromDict_ok h
  simp only [Json.get, Odict.get?, List.find?_cons, String.reduceEq, decide_false,
    decide_true, Option.map_some, Option.getD_some] at hroot hckS hdhs hdhr
  exact sendingChain_congr (requireStrB64_stored hroot)
    (optionalKey_stored hs.sendingChainKey hckS) (optionalKey_stored hs.dhsPrivate hdhs)
    (optionalKey_stored hs.dhr hdhr)

/-- A save that raises before the rollback check or in it changes nothing. Past
the check the version in memory is one up, and the file is the old one, if the
save then raises, or the state as it now is. -/
theorem saveSession_cases (io : SaveIo) (s : SessionState) (f : SessionFile) :
    (∃ e, saveSession io ⟨s, f⟩ = .error e ⟨s, f⟩) ∨
    checkRollback s.sessionVersion f = .ok () ∧
      ((∃ m, saveSession io ⟨s, f⟩
          = .error (.osError m) ⟨{ s with sessionVersion := s.sessionVersion + 1 }, f⟩) ∨
        saveSession io ⟨s, f⟩ = .ok () ⟨{ s with sessionVersion := s.sessionVersion + 1 },
          .json (stateToDict { s with sessionVersion := s.sessionVersion + 1 })⟩) := by
  cases io with
  | failsEarly m => exact Or.inl ⟨.osError m, rfl⟩
  | ok =>
      cases hr : checkRollback s.sessionVersion f with
      | error e => exact Or.inl ⟨e, by simp [saveSession, hr]⟩
      | ok u => exact Or.inr ⟨rfl, Or.inr (by simp [saveSession, hr])⟩
  | failsLate m =>
      cases hr : checkRollback s.sessionVersion f with
      | error e => exact Or.inl ⟨e, by simp [saveSession, hr]⟩
      | ok u => exact Or.inr ⟨rfl, Or.inl ⟨m, by simp [saveSession, hr]⟩⟩

/-- A save raises the version in memory at most. -/
theorem saveSession_state (io : SaveIo) (s : SessionState) (f : SessionFile) :
    (after (saveSession io ⟨s, f⟩)).state = s ∨
      (after (saveSession io ⟨s, f⟩)).state = { s with sessionVersion := s.sessionVersion + 1 } := by
  rcases saveSession_cases io s f with ⟨e, hr⟩ | ⟨-, ⟨m, hr⟩ | hr⟩
  · left; rw [hr]; rfl
  · right; rw [hr]; rfl
  · right; rw [hr]; rfl

/-! ## One step of the loop -/

/-- A line of the loop is a call of `send_message`, and the process lives on
where that returns. -/
theorem sendLine_engine {σ : Device} {pt : Bytes} (hpt : pt ≠ []) (toUsername : String)
    (socket : SocketOutcome) :
    (σ.sendLine c pt socket s).engine =
      match WebSocketClient.sendMessage c toUsername pt
          (match socket.raises with | none => .ok () | some e => .error e)
          { doubleRatchet := some s } with
      | .ok _ client => client.doubleRatchet
      | .error _ _ => none := by
  rw [Device.sendLine, if_neg hpt, sendMessage_ratchet rfl]
  cases ratchetEncryptKeyed c pt s with
  | error e s' => rfl
  | ok r s' => cases socket.raises <;> rfl

/-- No two different plaintexts went out under one key and nonce. -/
def NoReuse (wire : List WireRecord) : Prop :=
  ∀ r ∈ wire, ∀ r' ∈ wire, r.key = r'.key → r.nonce = r'.nonce → r.plaintext = r'.plaintext

instance NoReuse.decidable (wire : List WireRecord) : Decidable (NoReuse wire) :=
  inferInstanceAs (Decidable (∀ r ∈ wire, ∀ r' ∈ wire, _ → _ → _))

/-- A restart finds a file written after the last message that went out. -/
def UpToDate (σ : Device) : LoopAct → Prop
  | .restart => σ.unsaved = false
  | .line .. | .save _ | .crash => True

instance UpToDate.decidable (σ : Device) : ∀ act, Decidable (UpToDate σ act)
  | .restart => inferInstanceAs (Decidable (σ.unsaved = false))
  | .line .. | .save _ | .crash => isTrue trivial

/-- The first `n` message keys of the chain a session sends on are different
keys. -/
def FreshChain (c : Crypto Bytes Bytes Bytes) (s : SessionState) (n : Nat) : Prop :=
  ∀ i < n, ∀ j < n, messageKeyAt c.toKeyAlg (sendingChain c s) i
      = messageKeyAt c.toKeyAlg (sendingChain c s) j →
    messageKeyAt c.toKeyAlg (sendingChain c s) i = none ∨ i = j

instance FreshChain.decidable (c : Crypto Bytes Bytes Bytes) (s : SessionState) (n : Nat) :
    Decidable (FreshChain c s n) := inferInstanceAs (Decidable (∀ i < n, ∀ j < n, _ → _))

/-- A session stands on the chain past every place that was used, at most `n`
places from the start. -/
def Past (c : Crypto Bytes Bytes Bytes) (base : Option Bytes) (n : Nat) (used : List Nat)
    (s : SessionState) : Prop :=
  ∃ i ≤ n, sendingChain c s = chainAt c.toKeyAlg base i ∧ ∀ j ∈ used, j < i

/-- The loop after `n` steps: the places on the chain the wire has seen,
newest first, and where the engine and the file stand. -/
structure Books (c : Crypto Bytes Bytes Bytes) (cap : Nat) (base : Option Bytes) (n : Nat)
    (used : List Nat) (σ : Device) : Prop where
  keys : σ.wire.map (fun r => some r.key) = used.map (messageKeyAt c.toKeyAlg base)
  falling : used.Pairwise (· > ·)
  bound : ∀ j ∈ used, j < n
  memory : ∀ s, σ.engine = some s → Storable s ∧ Past c base n used s
  disk : σ.unsaved = false → ∀ s, loadSession cap σ.file = .ok (some s) →
    Past c base n used s

section Step

variable {base : Option Bytes} {n : Nat} {used : List Nat} {σ : Device}

theorem Past.succ (h : Past c base n used s) : Past c base (n + 1) used s := by
  obtain ⟨i, hi, hrest⟩ := h
  exact ⟨i, Nat.le_succ_of_le hi, hrest⟩

theorem Books.succ (h : Books c cap base n used σ) : Books c cap base (n + 1) used σ where
  keys := h.keys
  falling := h.falling
  bound j hj := Nat.lt_succ_of_lt (h.bound j hj)
  memory s hs := ⟨(h.memory s hs).1, (h.memory s hs).2.succ⟩
  disk hu s hs := (h.disk hu s hs).succ

/-- With no process running there is nothing in memory to account for. -/
theorem Books.stopped (h : Books c cap base n used σ) (b : Bool) :
    Books c cap base n used { σ with engine := none, saving := b } where
  keys := h.keys
  falling := h.falling
  bound := h.bound
  memory := nofun
  disk := h.disk

theorem encrypt_past (hlen : ∀ i sa f b, (c.hkdf i sa f b).length = 32) {pt : Bytes}
    {w : RatchetWireMessage Bytes} {mk : Bytes} (hs : Storable s)
    (hpast : Past c base n used s) (h : ratchetEncryptKeyed c pt s = .ok (w, mk) s') :
    ∃ i ≤ n, messageKeyAt c.toKeyAlg base i = some mk ∧ (∀ j ∈ used, j < i) ∧
      sendingChain c s' = chainAt c.toKeyAlg base (i + 1) ∧ Storable s' := by
  obtain ⟨i, hi, hat, hused⟩ := hpast
  obtain ⟨hkey, hck, hdhs, hdhr⟩ := encrypt_chain h
  rw [hat] at hkey hck
  rw [← chainAt_succ] at hck
  cases hc : chainAt c.toKeyAlg base (i + 1) with
  | none =>
      rw [chainAt_succ] at hc
      rw [Option.map_eq_none_iff.mp hc] at hkey
      cases hkey
  | some ck =>
      rw [hc] at hck
      refine ⟨i, hi, hkey, hused, by rw [hc, sendingChain, hck], ?_, ?_, ?_⟩
      · -- A chain key is an output of HKDF.
        rw [hck]
        rintro h0
        rw [chainAt_succ] at hc
        obtain ⟨k, -, hk⟩ := Option.map_eq_some_iff.mp hc
        have := hlen k (c.lit chainSalt) chainInfo 0
        rw [show c.hkdf k (c.lit chainSalt) chainInfo 0 = ck from hk,
          Option.some.inj h0] at this
        cases this
      · rw [hdhs]
        exact hs.dhsPrivate
      · rw [hdhr]
        exact hs.dhr

theorem Books.line (hlen : ∀ i sa f b, (c.hkdf i sa f b).length = 32)
    (h : Books c cap base n used σ) (he : σ.engine = some s) (pt : Bytes)
    (socket : SocketOutcome) :
    ∃ used', Books c cap base (n + 1) used' (σ.sendLine c pt socket s) := by
  unfold Device.sendLine
  split
  · exact ⟨used, h.succ⟩
  · cases hr : ratchetEncryptKeyed c pt s with
    | error e s' => exact ⟨used, h.succ.stopped σ.saving⟩
    | ok r s' =>
        obtain ⟨w, mk⟩ := r
        obtain ⟨hst, hpast⟩ := h.memory s he
        obtain ⟨i, hi, hkey, hused, hat, hst'⟩ := encrypt_past hlen hst hpast hr
        have hnext : ∀ used', (∀ j ∈ used', j < i + 1) → Past c base (n + 1) used' s' :=
          fun used' hall => ⟨i + 1, Nat.succ_le_succ hi, hat, hall⟩
        -- The message is out, or it is lost and only the engine has moved.
        have hsent : ∃ used', Books c cap base (n + 1) used' { σ with
            wire := if socket.onWire then ⟨pt, mk, w.nonce⟩ :: σ.wire else σ.wire
            unsaved := σ.unsaved || socket.onWire
            engine := some s'
            saving := true } := by
          cases hw : socket.onWire with
          | true =>
              refine ⟨i :: used, ?_, List.pairwise_cons.mpr ⟨hused, h.falling⟩, ?_, ?_, ?_⟩
              · rw [if_pos rfl, List.map_cons, List.map_cons, hkey, h.keys]
              · intro j hj
                rcases List.mem_cons.mp hj with rfl | hj
                · exact Nat.lt_succ_of_le hi
                · exact Nat.lt_succ_of_lt (h.bound j hj)
              · rintro s₁ ⟨rfl⟩
                refine ⟨hst', hnext _ fun j hj => ?_⟩
                rcases List.mem_cons.mp hj with rfl | hj
                · exact Nat.lt_succ_self _
                · exact Nat.lt_succ_of_lt (hused j hj)
              · intro hu
                rw [Bool.or_true] at hu
                cases hu
          | false =>
              refine ⟨used, ?_, h.falling, fun j hj => Nat.lt_succ_of_lt (h.bound j hj), ?_, ?_⟩
              · rw [if_neg (by simp)]
                exact h.keys
              · rintro s₁ ⟨rfl⟩
                exact ⟨hst', hnext _ fun j hj => Nat.lt_succ_of_lt (hused j hj)⟩
              · intro hu
                rw [Bool.or_false] at hu
                exact h.succ.disk hu
        obtain ⟨used', hsent⟩ := hsent
        dsimp only
        cases socket.raises with
        | some e => exact ⟨used', hsent.stopped σ.saving⟩
        | none => exact ⟨used', hsent⟩

theorem Books.save (h : Books c cap base n used σ) (he : σ.engine = some s) (io : SaveIo) :
    Books c cap base n used (σ.saveStep io s) := by
  obtain ⟨hst, hpast⟩ := h.memory s he
  have hmem : ∀ v, Storable { s with sessionVersion := v } ∧
      Past c base n used { s with sessionVersion := v } :=
    fun v => ⟨⟨hst.sendingChainKey, hst.dhsPrivate, hst.dhr⟩, hpast⟩
  -- Raised or not, a save that does not return leaves the file as it was.
  have hraised : ∀ e v,
      saveSession io ⟨s, σ.file⟩ = .error e ⟨{ s with sessionVersion := v }, σ.file⟩ →
      Books c cap base n used (σ.saveStep io s) := by
    intro e v hr
    unfold Device.saveStep
    rw [hr]
    refine ⟨h.keys, h.falling, h.bound, ?_, h.disk⟩
    rintro s₁ ⟨rfl⟩
    exact hmem v
  rcases saveSession_cases io s σ.file with ⟨e, hr⟩ | ⟨-, ⟨m, hr⟩ | hr⟩
  · exact hraised e s.sessionVersion hr
  · exact hraised _ _ hr
  · unfold Device.saveStep
    rw [hr]
    refine ⟨h.keys, h.falling, h.bound, ?_, ?_⟩
    · rintro s₁ ⟨rfl⟩
      exact hmem _
    · intro _ s₁ hload
      obtain ⟨i, hi, hat, hused⟩ := (hmem (s.sessionVersion + 1)).2
      refine ⟨i, hi, ?_, hused⟩
      dsimp only at hload
      cases hd : stateFromDict cap (stateToDict { s with
          sessionVersion := s.sessionVersion + 1 }) with
      | error e => rw [loadSession, hd] at hload; cases hload
      | ok s₂ =>
          rw [loadSession, hd] at hload
          injection hload with hload
          obtain rfl : s₂ = s₁ := Option.some.inj hload
          rw [saved_sendingChain (hmem (s.sessionVersion + 1)).1 hd, hat]

/-- What one step that keeps the promise does to the books. -/
theorem Books.step (hlen : ∀ i sa f b, (c.hkdf i sa f b).length = 32)
    (h : Books c cap base n used σ) {act : LoopAct} (hact : UpToDate σ act) :
    ∃ used', Books c cap base (n + 1) used' (σ.step c cap act) := by
  cases act with
  | line pt socket =>
      cases he : σ.engine with
      | none => exact ⟨used, by simpa [Device.step, he] using h.succ⟩
      | some s =>
          cases hsav : σ.saving with
          | true => exact ⟨used, by simpa [Device.step, he, hsav] using h.succ⟩
          | false => simpa [Device.step, he, hsav] using h.line hlen he pt socket
  | save io =>
      cases he : σ.engine with
      | none => exact ⟨used, by simpa [Device.step, he] using h.succ⟩
      | some s =>
          cases hsav : σ.saving with
          | false => exact ⟨used, by simpa [Device.step, he, hsav] using h.succ⟩
          | true => exact ⟨used, by simpa [Device.step, he, hsav] using (h.save he io).succ⟩
  | crash => exact ⟨used, h.succ.stopped false⟩
  | restart =>
      cases he : σ.engine with
      | some s => exact ⟨used, by simpa [Device.step, he] using h.succ⟩
      | none =>
          refine ⟨used, ?_⟩
          simp only [Device.step, he]
          split
          · next s hload =>
              refine ⟨h.keys, h.falling, h.succ.bound, ?_, h.succ.disk⟩
              rintro s₁ ⟨rfl⟩
              refine ⟨?_, h.succ.disk hact s hload⟩
              -- Only a file with a session in it loads to one.
              cases hf : σ.file with
              | json d =>
                  rw [hf, loadSession] at hload
                  cases hd : stateFromDict cap d with
                  | error e => rw [hd] at hload; cases hload
                  | ok s₂ =>
                      rw [hd] at hload
                      injection hload with hload
                      obtain rfl : s₂ = s := Option.some.inj hload
                      exact loaded_storable hd
              | missing => rw [hf] at hload; cases hload
              | notJson => rw [hf] at hload; cases hload
          · exact h.succ

end Step

/-- A step puts nothing on the wire, or a message that `ratchet_encrypt`
returned. -/
theorem step_wire (c : Crypto Bytes Bytes Bytes) (cap : Nat) (σ : Device) (act : LoopAct) :
    (σ.step c cap act).wire = σ.wire ∨
    ∃ s s' pt w key, ratchetEncryptKeyed c pt s = .ok (w, key) s' ∧
      (σ.step c cap act).wire = ⟨pt, key, w.nonce⟩ :: σ.wire := by
  cases act with
  | line pt socket =>
      simp only [Device.step]
      split
      · next s _ _ =>
          unfold Device.sendLine
          split
          · exact Or.inl rfl
          · split
            · exact Or.inl rfl
            · next w key s' henc =>
                cases hon : socket.onWire with
                | true =>
                    refine Or.inr ⟨s, s', pt, w, key, henc, ?_⟩
                    cases socket.raises <;> rfl
                | false =>
                    refine Or.inl ?_
                    cases socket.raises <;> rfl
      · exact Or.inl rfl
  | save io =>
      simp only [Device.step]
      split
      · refine Or.inl ?_
        unfold Device.saveStep
        split <;> rfl
      · exact Or.inl rfl
  | crash => exact Or.inl rfl
  | restart =>
      simp only [Device.step]
      split
      · exact Or.inl rfl
      · split <;> exact Or.inl rfl

/-! ## Whole runs -/

theorem Books.noReuse {σ : Device} {used : List Nat} {s₀ : SessionState} {n : Nat}
    (h : Books c cap (sendingChain c s₀) n used σ) (hfresh : FreshChain c s₀ n) :
    NoReuse σ.wire := by
  have hnd : (σ.wire.map fun r => some r.key).Nodup := by
    rw [h.keys]
    refine List.Nodup.map_on ?_ (h.falling.imp Nat.ne_of_gt)
    intro i hi j hj hij
    rcases hfresh i (h.bound i hi) j (h.bound j hj) hij with hnone | heq
    · -- Every key on the wire is there.
      have hmem : (none : Option Bytes) ∈ σ.wire.map fun r => some r.key := by
        rw [h.keys]
        exact List.mem_map.mpr ⟨i, hi, hnone⟩
      simp at hmem
    · exact heq
  intro r hr r' hr' hkey _
  rw [List.inj_on_of_nodup_map hnd hr hr' (by rw [hkey])]

/-- Every message on the wire was sealed with the key and the nonce it stands
there with. -/
theorem wire_sealed (s₀ : SessionState) (file : Json) (acts : List LoopAct) :
    ∀ r ∈ (Device.run c cap (Device.start s₀ file) acts).wire,
      ∃ header ct, c.encrypt r.key r.nonce r.plaintext (headerAad header) = some ct := by
  refine runFrom_invariant (I := fun σ : Device => ∀ r ∈ σ.wire,
      ∃ header ct, c.encrypt r.key r.nonce r.plaintext (headerAad header) = some ct)
    (fun σ act h => ?_) (fun r hr => absurd hr List.not_mem_nil) acts
  rcases step_wire c cap σ act with hwire | ⟨s, s', pt, w, key, henc, hwire⟩
  · rw [hwire]
    exact h
  · rw [hwire]
    exact List.forall_mem_cons.mpr ⟨⟨_, _, (encrypt_sealed henc).2.2⟩, h⟩

/-- Over every run of the send loop from a session that was loaded, with
crashes and failed saves wherever they fall: if every restart finds a file
written after the last message that went out, no two different plaintexts
were ever on the wire under one key and nonce. -/
theorem no_reuse_when_saved (hlen : ∀ i sa f b, (c.hkdf i sa f b).length = 32)
    {file : Json} {s₀ : SessionState} (hload : stateFromDict cap file = .ok s₀)
    {acts : List LoopAct} (hfresh : FreshChain c s₀ acts.length)
    (hrun : Along (Device.step c cap) UpToDate (Device.start s₀ file) acts) :
    NoReuse (Device.run c cap (Device.start s₀ file) acts).wire := by
  have hpast : Past c (sendingChain c s₀) 0 [] s₀ :=
    ⟨0, Nat.le_refl 0, by simp [chainAt], nofun⟩
  have hstart : ∃ used, Books c cap (sendingChain c s₀) 0 used (Device.start s₀ file) := by
    refine ⟨[], rfl, List.Pairwise.nil, nofun, ?_, ?_⟩
    · rintro s ⟨rfl⟩
      exact ⟨loaded_storable hload, hpast⟩
    · intro _ s hs
      simp only [Device.start, loadSession, hload] at hs
      injection hs with hs
      rw [← Option.some.inj hs]
      exact hpast
  obtain ⟨used, hbooks⟩ := Along.counted
    (I := fun n σ => ∃ used, Books c cap (sendingChain c s₀) n used σ)
    (fun n σ act ⟨used, h⟩ hact => h.step hlen hact) hstart hrun
  rw [Nat.zero_add] at hbooks
  exact hbooks.noReuse hfresh

/-- A session as `create_initial_state` makes it, saved once, is read back as
it is, so a first start is a start from the file too. -/
theorem created_loads (hlen : ∀ i sa f b, (c.hkdf i sa f b).length = 32)
    (hbytes : ∀ k, c.bytes k = k) {rk g : Bytes} {isInitiator : Bool} (hg : g.length = 32)
    (h : createInitialState c rk isInitiator none cap g = .ok s) (v : Nat) (hv : 1 ≤ v) :
    stateFromDict cap (stateToDict { s with sessionVersion := v })
      = .ok { s with sessionVersion := v } := by
  simp only [createInitialState] at h
  split at h
  · cases h
  · next hrk =>
      injection h with h
      subst h
      have hck : (kdfInitialChain c.toKeyAlg rk).length = 32 := hlen _ _ _ _
      refine stateFromDict_stored (by simpa [hbytes] using hrk) ?_ ?_ ?_ nofun
        ⟨[], rfl, rfl⟩ rfl hv
      · cases isInitiator with
        | true => rintro b ⟨rfl⟩; exact hck
        | false => nofun
      · cases isInitiator with
        | true => nofun
        | false => rintro b ⟨rfl⟩; exact hck
      · rintro b ⟨rfl⟩
        exact hg

/-- The initiator of the examples, and its file after the first save. -/
def sampleSaved : SessionState := { sampleState true with sessionVersion := 2 }

theorem sampleSaved_loads :
    stateFromDict 1000 (stateToDict sampleSaved) = .ok sampleSaved := by
  exact created_loads (fun _ _ _ _ => mix_length _) (fun _ => rfl) (mix_length _)
    (sampleState_created true) 2 (by decide)

/-- Two lines, the second save fails; a third line is saved; crash, restart,
a fourth line. -/
def carefulRun : List LoopAct :=
  [.line [65] {}, .save .ok, .line [66] {}, .save (.failsLate "No space left on device"),
   .line [67] {}, .save .ok, .crash, .restart, .line [68] {}]

theorem no_reuse_carefulRun :
    (Device.run sampleCrypto 1000 (Device.start sampleSaved (stateToDict sampleSaved))
        carefulRun).wire.length = 4 ∧
      NoReuse (Device.run sampleCrypto 1000
        (Device.start sampleSaved (stateToDict sampleSaved)) carefulRun).wire :=
  ⟨by decide +kernel, no_reuse_when_saved (c := sampleCrypto) (fun _ _ _ _ => mix_length _)
    sampleSaved_loads (by decide +kernel) (by decide +kernel)⟩

/-- A line goes out, the process stops before the save, and the next process
sends another line: the same key, the same nonce. -/
def hastyRun : List LoopAct := [.line [65] {}, .crash, .restart, .line [66] {}]

theorem crash_reuses_key :
    ¬ NoReuse (Device.run sampleCrypto 1000
      (Device.start sampleSaved (stateToDict sampleSaved)) hastyRun).wire := by
  decide +kernel

end GhostChat.Proofs
