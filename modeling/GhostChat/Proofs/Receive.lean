import GhostChat.Lib.Run
import GhostChat.Proofs.Calls
import GhostChat.Ref.Client
import GhostChat.Ref.Sample

/-!
# What `recv_message` returns

With a double ratchet set, `recv_message` has one path that authenticates: a
JSON object with `header` and `ciphertext`, parsed, handed to
`ratchet_decrypt`. Every other way through the `try` block goes on to the code
written for the older session, and there, with no session to decrypt with,
the base64 decoding of the payload is the plaintext. So the question is which
payloads fall through, and which of those decode.

Three things fall through: a text `json.loads` turns away with one of the
three exceptions that are passed over, a value that does not look like a wire
message, and a wire message on which `ratchet_decrypt` itself raises a
`KeyError` or a `TypeError`. The last takes an engine that was badly made: one
without a DH key of its own, or one whose store of skipped keys has no room
for any (`PassedOver`).
-/

namespace GhostChat.Proofs

open GhostChat.Lib GhostChat.Lib.Effect GhostChat.Ref

variable {K P C : Type} {c : Crypto K P C} {a : KeyAlg K}
  {s : DoubleRatchetState K P} {msg : RatchetWireMessage C} {g : P}

/-! ## Which exceptions a decryption raises -/

/-- The call raised an exception that `recv_message` passes over. -/
def Passes {σ α : Type} : EStateM.Result Exn σ α → Prop
  | .ok _ _ => False
  | .error e _ => e.passed = true

/-- The header's key takes a DH: it is new, or it is the current one and
there is no chain for it. -/
def NeedsDh (s : DoubleRatchetState K P) (dh : Bytes) : Prop :=
  (s.dhr = none ∧ s.sendingChainKey.isSome) ∨
  (∃ d, s.dhr = some d ∧ d ≠ dh) ∨
  (s.dhr = some dh ∧ s.receivingChainKey = none)

/-- Where counting starts on the header's chain: at zero on a new one. -/
def startNr (s : DoubleRatchetState K P) (dh : Bytes) : Nat :=
  if s.dhr = some dh ∨ (s.dhr = none ∧ s.sendingChainKey = none) then s.Nr else 0

/-- `ratchet_decrypt` gets to the header's chain, and there either needs a DH
key the engine does not have, or has to file a key in a store of capacity
zero. -/
def PassedOver (c : Crypto K P C) (s : DoubleRatchetState K P)
    (msg : RatchetWireMessage C) : Prop :=
  ¬ Refused s msg ∧
  s.skippedMessageKeys.has msg.header.dh msg.header.n.toNat = false ∧
  ((NeedsDh s msg.header.dh ∧ s.dhsPrivate = none) ∨
   (s.skippedMessageKeys.maxKeys = 0 ∧
    (NeedsDh s msg.header.dh → ∃ k, dhWith c s.dhsPrivate msg.header.dh = .ok k) ∧
    startNr s msg.header.dh < msg.header.n.toNat ∧
    msg.header.n.toNat ≤ startNr s msg.header.dh + maxSkipDistance))

theorem refused_not_passes (h : Refused s msg) :
    ¬ Passes (ratchetDecryptKeyed c msg g s) := by
  cases hc : checkHeader msg with
  | error e =>
      have he : e.passed = false := by
        unfold checkHeader at hc
        repeat' split at hc
        all_goals cases hc
        all_goals rfl
      simp [ratchetDecryptKeyed, hc, Passes, he]
  | ok u =>
      cases hid : s.receivedIds.contains msg.header.dh msg.header.n.toNat with
      | true => simp [ratchetDecryptKeyed, hc, hid, Passes, Exn.passed]
      | false =>
          rcases h with ⟨e, he⟩ | hid' | ⟨hsk, hd, hn⟩
          · rw [hc] at he
            cases he
          · rw [hid] at hid'
            cases hid'
          · simp [ratchetDecryptKeyed, hc, hid, hsk, hd, hn, Passes, Exn.passed]

theorem openWith_not_passes (mk : K) (failed : String) :
    ¬ Passes (openWith c mk msg failed s) := by
  rw [openWith_eq]
  split
  · next e he =>
      unfold messageKeyToNonce at he
      split at he
      · cases he
        simp [Passes, Exn.passed]
      · cases he
  · repeat' split
    all_goals simp [Passes, Exn.passed]

@[simp] theorem passes_keyed (mk : K)
    (r : EStateM.Result Exn (DoubleRatchetState K P) Bytes) :
    Passes (keyed mk r) ↔ Passes r := by
  cases r <;> rfl

theorem dhWith_error_passed {dhs : Option P} {dh : Bytes} (hdh : dh.length = 32) {e : Exn}
    (h : dhWith c dhs dh = .error e) : e.passed = true ↔ dhs = none := by
  cases dhs with
  | none =>
      simp [dhWith, dhPubLen, hdh] at h
      subst h
      simp [Exn.passed]
  | some p =>
      rw [dhWith_some hdh] at h
      cases hk : c.sharedKey p dh with
      | some k => rw [hk] at h; cases h
      | none =>
          rw [hk] at h
          cases h
          simp [Exn.passed]

section Skip

variable (hlen : ∀ i sa f b, (a.bytes (a.hkdf i sa f b)).length = 32)

include hlen

/-- Filing a key raises a `KeyError` in a store of capacity zero and nowhere
else. -/
theorem skipped_add_passes {dh : Bytes} {n : Nat} (hdh : dh.length = 32)
    (hn : n < 2 ^ 32) (ck : K) (sk : SkippedMessageKeys K) :
    (∃ e sk', SkippedMessageKeys.add a dh n (kdfChain a ck).2 sk = .error e sk' ∧
      e.passed = true ∧ sk.maxKeys = 0) ∨
    (∃ sk', SkippedMessageKeys.add a dh n (kdfChain a ck).2 sk = .ok () sk' ∧
      sk'.maxKeys = sk.maxKeys ∧ 0 < sk.maxKeys) := by
  have hkey : (a.bytes (kdfChain a ck).2).length = 32 := hlen _ _ _ _
  have hn' : ¬ n > 0xFFFFFFFF := by omega
  rcases Nat.eq_zero_or_pos sk.maxKeys with hz | hroom
  · refine Or.inl ⟨.keyError "dictionary is empty", { sk with store := [] }, ?_, rfl, hz⟩
    simp [SkippedMessageKeys.add, dhPubLen, hdh, hkey, hn', hz, evictTo_zero]
  · rcases skipped_add_cases (n := n) hdh hkey sk with ⟨e, store, -, -, hbad⟩ | ⟨-, -, hadd⟩
    · omega
    · exact Or.inr ⟨_, hadd, rfl, hroom⟩

theorem skipReceivingLoop_passes {dh : Bytes} (hdh : dh.length = 32) {upTo : Nat}
    (hup : upTo ≤ 2 ^ 32) (fuel : Nat) (s : DoubleRatchetState K P) (ck : K)
    (hck : s.receivingChainKey = some ck) (hd : s.dhr = some dh) :
    (Passes (skipReceivingLoop a dh upTo fuel s) ∧
      s.skippedMessageKeys.maxKeys = 0 ∧ s.Nr < upTo ∧ 0 < fuel) ∨
    (∃ s' ck', skipReceivingLoop a dh upTo fuel s = .ok () s' ∧
      s'.receivingChainKey = some ck' ∧
      ¬ (s.skippedMessageKeys.maxKeys = 0 ∧ s.Nr < upTo ∧ 0 < fuel)) := by
  induction fuel generalizing s ck with
  | zero => exact Or.inr ⟨s, ck, rfl, hck, by omega⟩
  | succ fuel ih =>
      by_cases hlt : s.Nr < upTo
      · rcases skipped_add_passes hlen hdh (n := s.Nr) (by omega) ck
            s.skippedMessageKeys with ⟨e, sk, hadd, he, hz⟩ | ⟨sk, hadd, hcap, hroom⟩
        · rw [skipReceivingLoop_refused hlt hck hadd]
          exact Or.inl ⟨he, hz, hlt, Nat.succ_pos fuel⟩
        · rw [skipReceivingLoop_filed hlt hck hadd]
          rcases ih (withRecv s (some (kdfChain a ck).1) sk.store (s.Nr + 1)) _ rfl hd with
            ⟨-, hz, -, -⟩ | ⟨s', ck', hs', hck', -⟩
          · exact absurd hz (Nat.ne_of_gt hroom)
          · exact Or.inr ⟨s', ck', hs', hck', by omega⟩
      · rw [skipReceivingLoop_done (Nat.not_lt.mp hlt)]
        exact Or.inr ⟨s, ck, rfl, hck, by omega⟩

end Skip

section Decrypt

variable (hlen : ∀ i sa f b, (c.bytes (c.hkdf i sa f b)).length = 32)

include hlen

theorem decryptOnChain_passes {ck : K} (hck : s.receivingChainKey = some ck)
    (hd : s.dhr = some msg.header.dh) (hdh : msg.header.dh.length = 32)
    (hn : msg.header.n.toNat < 2 ^ 32) :
    Passes (decryptOnChain c msg s) ↔ s.skippedMessageKeys.maxKeys = 0 ∧
      s.Nr < msg.header.n.toNat ∧ msg.header.n.toNat ≤ s.Nr + maxSkipDistance := by
  by_cases hlt : msg.header.n.toNat < s.Nr
  · have : ¬ Passes (decryptOnChain c msg s) := by
      simp [decryptOnChain, hlt, Passes, Exn.passed]
    exact ⟨fun h => absurd h this, fun h => by omega⟩
  · by_cases hfar : s.Nr + maxSkipDistance < msg.header.n.toNat
    · have : ¬ Passes (decryptOnChain c msg s) := by
        have hgap : msg.header.n.toNat - s.Nr > maxSkipDistance := by omega
        simp [decryptOnChain, hlt, hck, hgap, Passes, Exn.passed]
      exact ⟨fun h => absurd h this, fun h => by omega⟩
    · rw [decryptOnChain_near (by omega) (by omega), skipReceivingUntil_some hck hd]
      rcases skipReceivingLoop_passes hlen hdh (Nat.le_of_lt hn)
          (msg.header.n.toNat - s.Nr) s ck hck hd with
        ⟨hp, hz, hNr, -⟩ | ⟨s', ck', hs', hck', hno⟩
      · refine ⟨fun _ => ⟨hz, hNr, by omega⟩, fun _ => ?_⟩
        cases hl : skipReceivingLoop c.toKeyAlg msg.header.dh msg.header.n.toNat
            (msg.header.n.toNat - s.Nr) s with
        | ok u s' => rw [hl] at hp; exact hp.elim
        | error e s' => rw [hl] at hp; exact hp
      · rw [hs']
        simp only [hck', passes_keyed]
        exact ⟨fun h => absurd h (openWith_not_passes _ _),
          fun h => absurd ⟨h.1, h.2.1, by omega⟩ hno⟩

/-- With the header's chain current, counting from `startNr`, in a store of
the same capacity. -/
def OnChain (s s₁ : DoubleRatchetState K P) (dh : Bytes) : Prop :=
  s₁.receivingChainKey.isSome ∧ s₁.dhr = some dh ∧ s₁.Nr = startNr s dh ∧
    s₁.skippedMessageKeys.maxKeys = s.skippedMessageKeys.maxKeys

theorem onChain_passes {s₁ : DoubleRatchetState K P} (h : OnChain s s₁ msg.header.dh)
    (hdh : msg.header.dh.length = 32) (hn : msg.header.n.toNat < 2 ^ 32) :
    Passes (decryptOnChain c msg s₁) ↔ s.skippedMessageKeys.maxKeys = 0 ∧
      startNr s msg.header.dh < msg.header.n.toNat ∧
      msg.header.n.toNat ≤ startNr s msg.header.dh + maxSkipDistance := by
  obtain ⟨hck, hd, hNr, hcap⟩ := h
  obtain ⟨ck, hck⟩ := Option.isSome_iff_exists.mp hck
  rw [decryptOnChain_passes hlen hck hd hdh hn, hNr, hcap]

omit hlen in
/-- The branches before the chain is used: without a DH they always get to the
chain, with one they get there when it succeeds. -/
theorem ensureReceivingChain_reaches (c : Crypto K P C) (s : DoubleRatchetState K P)
    (msg : RatchetWireMessage C) (g : P) :
    (¬ NeedsDh s msg.header.dh ∧
      ∃ s₁, ensureReceivingChain c msg.header.dh g s = .ok () s₁ ∧
        OnChain s s₁ msg.header.dh) ∨
    (NeedsDh s msg.header.dh ∧
      match dhWith c s.dhsPrivate msg.header.dh with
      | .error e => ∃ s₁, ensureReceivingChain c msg.header.dh g s = .error e s₁
      | .ok _ => ∃ s₁, ensureReceivingChain c msg.header.dh g s = .ok () s₁ ∧
          OnChain s s₁ msg.header.dh) := by
  by_cases ht : (s.dhr = none ∧ s.sendingChainKey.isSome) ∨
      ∃ d, s.dhr = some d ∧ d ≠ msg.header.dh
  · refine Or.inr ⟨by rw [NeedsDh, ← or_assoc]; exact Or.inl ht, ?_⟩
    have hstart : startNr s msg.header.dh = 0 := by
      refine if_neg ?_
      rcases ht with ⟨hd, hs⟩ | ⟨d, hd, hne⟩
      · rintro (h | h)
        · rw [hd] at h; cases h
        · rw [h.2] at hs; cases hs
      · rw [hd]
        rintro (h | h)
        · exact hne (Option.some.inj h)
        · cases h.1
    rw [ensureReceivingChain_turn ht]
    cases hw : dhWith c s.dhsPrivate msg.header.dh with
    | error e => exact ⟨_, dhRatchetReceive_failed hw⟩
    | ok k => exact ⟨_, dhRatchetReceive_done hw, rfl, rfl, hstart.symm, rfl⟩
  · rcases still_of_not_turn ht with ⟨hd, hs⟩ | hd
    · have hno : ¬ NeedsDh s msg.header.dh := by
        simp [NeedsDh, hd, hs]
      have hstart : startNr s msg.header.dh = s.Nr := if_pos (Or.inr ⟨hd, hs⟩)
      cases hck : s.receivingChainKey with
      | some ck =>
          exact Or.inl ⟨hno, _, ensureReceivingChain_boot hd hck hs,
            by rw [hck]; rfl, rfl, hstart.symm, rfl⟩
      | none =>
          exact Or.inl ⟨hno, _, ensureReceivingChain_first hd hck hs,
            rfl, rfl, hstart.symm, rfl⟩
    · have hstart : startNr s msg.header.dh = s.Nr := if_pos (Or.inl hd)
      cases hck : s.receivingChainKey with
      | some ck =>
          refine Or.inl ⟨?_, s, ensureReceivingChain_same hd hck, by rw [hck]; rfl, hd,
            hstart.symm, rfl⟩
          rintro (⟨h, -⟩ | ⟨d, h, hne⟩ | ⟨-, h⟩)
          · rw [hd] at h; cases h
          · rw [hd] at h; exact hne (Option.some.inj h).symm
          · rw [hck] at h; cases h
      | none =>
          refine Or.inr ⟨Or.inr (Or.inr ⟨hd, hck⟩), ?_⟩
          rw [ensureReceivingChain_late hd hck]
          cases hw : dhWith c s.dhsPrivate msg.header.dh with
          | error e => exact ⟨s, rfl⟩
          | ok k => exact ⟨_, rfl, rfl, hd, hstart.symm, rfl⟩

/-- On a message the parser let through, `ratchet_decrypt` raises a `KeyError`
or a `TypeError` exactly for an engine that was badly made. -/
theorem decrypt_passes_iff (hdh : msg.header.dh.length = 32)
    (hn : msg.header.n.toNat < 2 ^ 32) :
    Passes (ratchetDecryptKeyed c msg g s) ↔ PassedOver c s msg := by
  by_cases hr : Refused s msg
  · exact ⟨fun h => absurd h (refused_not_passes hr), fun h => absurd hr h.1⟩
  cases hget : Odict.get? s.skippedMessageKeys.store
      (msg.header.dh, msg.header.n.toNat) with
  | some mk =>
      have hsk : s.skippedMessageKeys.has msg.header.dh msg.header.n.toNat = true :=
        Odict.has_eq_true_iff.mpr ⟨_, hget⟩
      rw [decrypt_skipped hr hget, passes_keyed]
      refine ⟨fun h => absurd h (openWith_not_passes _ _), fun h => ?_⟩
      rw [h.2.1] at hsk
      cases hsk
  | none =>
      have hsk : s.skippedMessageKeys.has msg.header.dh msg.header.n.toNat = false :=
        Odict.has_eq_false_iff.mpr hget
      rw [decrypt_chain hr hsk, PassedOver, and_iff_right hr, and_iff_right hsk]
      rcases ensureReceivingChain_reaches c s msg g with
        ⟨hno, s₁, hen, hon⟩ | ⟨hneed, hen⟩
      · rw [hen]
        simp only [onChain_passes hlen hon hdh hn, hno, false_and, false_or,
          false_implies, true_and]
      · cases hw : dhWith c s.dhsPrivate msg.header.dh with
        | error e =>
            rw [hw] at hen
            obtain ⟨s₁, hen⟩ := hen
            rw [hen]
            simp only [Passes, dhWith_error_passed hdh hw, hneed, true_and, forall_const,
              reduceCtorEq, exists_false, false_and, and_false, or_false]
        | ok k =>
            rw [hw] at hen
            obtain ⟨s₁, hen, hon⟩ := hen
            obtain ⟨p, hp, -⟩ := dhWith_ok hw
            rw [hen]
            simp only [onChain_passes hlen hon hdh hn, hp, reduceCtorEq, and_false,
              false_or, Except.ok.injEq, exists_eq', implies_true, true_and]

end Decrypt

/-! ## The `try` block -/

section Receive

variable {c : Crypto K P Bytes} {loads : String → Except Exn Json} {text : String}
  {client : WebSocketClient K P} {fields : List (String × Json)}

/-- The payload is not settled inside the `try` block. -/
def FallsThrough (c : Crypto K P Bytes) (loads : String → Except Exn Json)
    (engine : DoubleRatchetState K P) (text : String) : Prop :=
  (∃ e, loads text = .error e ∧ e.passed = true) ∨
  (∃ v, loads text = .ok v ∧ looksLikeWire v = false) ∨
  ∃ v w, loads text = .ok v ∧ looksLikeWire v = true ∧ wireMessageFromDict v = .ok w ∧
    PassedOver c engine w

/-- A value that parses has the two fields that were asked for first. -/
theorem looksLikeWire_of_parsed {v : Json} {w : RatchetWireMessage Bytes}
    (h : wireMessageFromDict v = .ok w) : looksLikeWire v = true := by
  have hhas : ∀ {d : List (String × Json)} {key : String}, Json.get d key ≠ .null →
      Odict.has d key = true := by
    intro d key hne
    rw [← Odict.get?_isSome]
    cases hg : Odict.get? d key with
    | some x => rfl
    | none => exact absurd (by rw [Json.get, hg]; rfl) hne
  cases v with
  | dict d =>
      rw [wireMessageFromDict] at h
      have hheader : Odict.has d "header" = true := by
        refine hhas fun hnull => ?_
        rw [parseHeader, hnull] at h
        cases h
      have hct : Odict.has d "ciphertext" = true := by
        refine hhas fun hnull => ?_
        cases hp : parseHeader d with
        | error e => rw [hp] at h; cases h
        | ok header =>
            have hb : bodyStrings d = .error (.invalidHeader "missing ciphertext") := by
              rw [bodyStrings, hnull]
            rw [hp, hb] at h
            cases h
      rw [looksLikeWire, hheader, hct]
      rfl
  | _ => cases h

theorem passes_ratchetDecrypt {w : RatchetWireMessage Bytes} :
    Passes (ratchetDecrypt c w g s) ↔ Passes (ratchetDecryptKeyed c w g s) := by
  rw [ratchetDecrypt, map_apply]
  cases ratchetDecryptKeyed c w g s <;> rfl

theorem recvRatchet_of_wire {v : Json} {w : RatchetWireMessage Bytes}
    (hv : loads text = .ok v) (hlook : looksLikeWire v = true)
    (hw : wireMessageFromDict v = .ok w) :
    recvRatchet c loads text g s = match ratchetDecrypt c w g s with
      | .ok p s' => .ok (some p) s'
      | .error e s' => if e.passed then .ok none s' else .error e s' := by
  rw [recvRatchet]
  simp only [tryRatchet, bind_apply, hv, lift_ok, hlook, if_true, hw]
  cases ratchetDecrypt c w g s <;> rfl

/-- What the `try` block returns is what `ratchet_decrypt` returned. -/
theorem recvRatchet_some {p : Bytes} {s' : DoubleRatchetState K P}
    (h : recvRatchet c loads text g s = .ok (some p) s') :
    ∃ v w, loads text = .ok v ∧ wireMessageFromDict v = .ok w ∧
      ratchetDecrypt c w g s = .ok p s' := by
  cases hv : loads text with
  | error e =>
      simp only [recvRatchet, tryRatchet, bind_apply, hv, lift_error] at h
      split at h <;> cases h
  | ok v =>
      cases hlook : looksLikeWire v with
      | false => simp [recvRatchet, tryRatchet, hv, hlook] at h
      | true =>
          rcases wireMessageFromDict_parses v with ⟨m, hm⟩ | ⟨w, hw, -⟩
          · simp [recvRatchet, tryRatchet, hv, hlook, hm, Exn.passed] at h
          · rw [recvRatchet_of_wire hv hlook hw] at h
            refine ⟨v, w, rfl, hw, ?_⟩
            cases hr : ratchetDecrypt c w g s with
            | ok p₁ s₁ =>
                rw [hr] at h
                injection h with hp hs
                rw [Option.some.inj hp, hs]
            | error e s₁ =>
                rw [hr] at h
                dsimp only at h
                split at h <;> cases h

variable (hlen : ∀ i sa f b, (c.bytes (c.hkdf i sa f b)).length = 32)

include hlen

/-- Going on below the `try` block, exactly. -/
theorem recvRatchet_none_iff :
    (∃ s', recvRatchet c loads text g s = .ok none s') ↔ FallsThrough c loads s text := by
  cases hv : loads text with
  | error e =>
      simp only [recvRatchet, tryRatchet, bind_apply, hv, lift_error, FallsThrough,
        Except.error.injEq, exists_eq_left', reduceCtorEq, false_and, exists_false, or_false]
      cases e.passed <;> simp
  | ok v =>
      have hfall : FallsThrough c loads s text ↔ looksLikeWire v = false ∨
          ∃ w, looksLikeWire v = true ∧ wireMessageFromDict v = .ok w ∧ PassedOver c s w := by
        simp only [FallsThrough, hv, reduceCtorEq, false_and, exists_false, false_or,
          Except.ok.injEq, exists_eq_left', exists_and_left]
      rw [hfall]
      cases hlook : looksLikeWire v with
      | false => simp [recvRatchet, tryRatchet, hv, hlook]
      | true =>
          rcases wireMessageFromDict_parses v with ⟨m, hm⟩ | ⟨w, hw, hb⟩
          · simp [recvRatchet, tryRatchet, hv, hlook, hm, Exn.passed]
          · have hn : w.header.n.toNat < 2 ^ 32 := by
              have := hb.n
              omega
            have hpass := decrypt_passes_iff (c := c) (s := s) (g := g) hlen hb.dh hn
            rw [recvRatchet_of_wire hv hlook hw]
            simp only [hw, Except.ok.injEq, true_and, reduceCtorEq, false_or, exists_eq_left',
              ← hpass, ← passes_ratchetDecrypt]
            cases ratchetDecrypt c w g s with
            | ok p s' => simp [Passes]
            | error e s' => cases he : e.passed <;> simp [Passes, he]

/-! ## The whole call -/

omit hlen

/-- What a returned plaintext should be: the value `ratchet_decrypt` returned
on the wire message parsed from the payload. -/
def Authenticated (c : Crypto K P Bytes) (loads : String → Except Exn Json)
    (client : WebSocketClient K P) (msg : List (String × Json)) (g : P) : Prop :=
  ∀ sender p client', WebSocketClient.recvMessage c loads msg g client
      = .ok (sender, p) client' →
    sender = fromUser msg ∧
    ∃ text v w engine engine', payloadOf msg = .str text ∧ loads text = .ok v ∧
      wireMessageFromDict v = .ok w ∧ client.doubleRatchet = some engine ∧
      ratchetDecrypt c w g engine = .ok p engine' ∧
      client' = { client with doubleRatchet := some engine' }

/-- The double ratchet was set last. -/
def RatchetSet (client : WebSocketClient K P) : Prop :=
  client.session = none ∧ client.doubleRatchet.isSome

theorem onEngine_apply {α : Type} (x : Engine K P α) :
    onEngine s x client = match x s with
      | .ok r s' => .ok r { client with doubleRatchet := some s' }
      | .error e s' => .error e { client with doubleRatchet := some s' } := by
  rw [onEngine, zoom]
  cases x s <;> rfl

/-- `recv_message` with the double ratchet set: what the `try` block returned,
or the decoded payload as it stands. -/
theorem recvMessage_ratchet (hs : client.session = none)
    (he : client.doubleRatchet = some s) (hp : payloadOf fields = .str text) :
    WebSocketClient.recvMessage c loads fields g client =
      match recvRatchet c loads text g s with
      | .error e s' => .error e { client with doubleRatchet := some s' }
      | .ok (some p) s' =>
          .ok (fromUser fields, p) { client with doubleRatchet := some s' }
      | .ok none s' =>
          match b64Decode text with
          | .error e => .error e { client with doubleRatchet := some s' }
          | .ok p => .ok (fromUser fields, p) { client with doubleRatchet := some s' } := by
  simp only [WebSocketClient.recvMessage, hp, bind_apply, get_apply, he, onEngine_apply]
  cases recvRatchet c loads text g s with
  | error e s' => rfl
  | ok r s' =>
      cases r with
      | some p => rfl
      | none =>
          simp only [recvLegacy, bind_apply]
          cases b64Decode text with
          | error e => rfl
          | ok p => simp only [lift_ok, get_apply, hs, pure_apply]

theorem recvMessage_not_text (hp : ∀ text, payloadOf fields ≠ .str text) :
    ∃ e, WebSocketClient.recvMessage c loads fields g client = .error e client := by
  refine ⟨.typeError "payload is not a string", ?_⟩
  unfold WebSocketClient.recvMessage
  cases h : payloadOf fields with
  | str text => exact absurd h (hp text)
  | _ => rfl

/-- `send_message` with the double ratchet set: encrypt, then the socket. -/
theorem sendMessage_ratchet {toUsername : String} {pt : Bytes} {socket : Except Exn Unit}
    (he : client.doubleRatchet = some s) :
    WebSocketClient.sendMessage c toUsername pt socket client =
      match ratchetEncryptKeyed c pt s with
      | .error e s' => .error e { client with doubleRatchet := some s' }
      | .ok (w, _) s' =>
          match socket with
          | .error e => .error e { client with doubleRatchet := some s' }
          | .ok _ => .ok ⟨toUsername, wireMessageToDict w, some "double_ratchet"⟩
              { client with doubleRatchet := some s' } := by
  simp only [WebSocketClient.sendMessage, bind_apply, get_apply, he, onEngine_apply,
    ratchetEncrypt, map_apply]
  cases ratchetEncryptKeyed c pt s with
  | error e s' => rfl
  | ok r s' => cases socket <;> rfl

/-- Sends and receives leave the double ratchet set. -/
theorem call_ratchetSet {x : ClientCall K P} (h : RatchetSet client)
    (hx : x.isSetter = false) : RatchetSet (client.call c loads x) := by
  obtain ⟨hs, he⟩ := h
  obtain ⟨engine, he⟩ := Option.isSome_iff_exists.mp he
  cases x with
  | setSession session => cases hx
  | setDoubleRatchet engine => cases hx
  | send toUsername plaintext socket =>
      rw [WebSocketClient.call, sendMessage_ratchet he]
      repeat' split
      all_goals exact ⟨hs, rfl⟩
  | recv msg g =>
      by_cases hp : ∃ text, payloadOf msg = .str text
      · obtain ⟨text, hp⟩ := hp
        rw [WebSocketClient.call, recvMessage_ratchet hs he hp]
        repeat' split
        all_goals exact ⟨hs, rfl⟩
      · obtain ⟨e, he'⟩ : ∃ e, WebSocketClient.recvMessage c loads msg g client
            = .error e client := recvMessage_not_text (not_exists.mp hp)
        rw [WebSocketClient.call, he']
        exact ⟨hs, by rw [after_error, he]; rfl⟩

include hlen in
theorem ratchetSet_authenticated_iff (hs : client.session = none)
    (he : client.doubleRatchet = some s) :
    Authenticated c loads client fields g ↔
      ¬ ∃ text b, payloadOf fields = .str text ∧ FallsThrough c loads s text ∧
        b64Decode text = .ok b := by
  constructor
  · -- A payload that falls through and decodes is returned, and no call of
    -- `ratchet_decrypt` returned it.
    rintro hauth ⟨text, b, hp, hfall, hb⟩
    obtain ⟨s', hnone⟩ := (recvRatchet_none_iff (g := g) hlen).mpr hfall
    have hret : WebSocketClient.recvMessage c loads fields g client = _ :=
      recvMessage_ratchet hs he hp
    rw [hnone] at hret
    simp only [hb] at hret
    obtain ⟨-, text', v, w, engine, engine', hp', hv, hw, he', hdec, -⟩ := hauth _ _ _ hret
    obtain rfl : text = text' := by
      rw [hp] at hp'
      injection hp'
    obtain rfl : s = engine := Option.some.inj (he.symm.trans he')
    rw [recvRatchet_of_wire hv (looksLikeWire_of_parsed hw) hw, hdec] at hnone
    cases hnone
  · intro hno sender p client' hret
    by_cases hp : ∃ text, payloadOf fields = .str text
    · obtain ⟨text, hp⟩ := hp
      rw [recvMessage_ratchet hs he hp] at hret
      cases hr : recvRatchet c loads text g s with
      | error e s' => rw [hr] at hret; cases hret
      | ok r s' =>
          rw [hr] at hret
          cases r with
          | some p' =>
              injection hret with hpair hcl
              injection hpair with hsender hpt
              subst hpt
              obtain ⟨v, w, hv, hw, hdec⟩ := recvRatchet_some hr
              exact ⟨hsender.symm, text, v, w, s, s', hp, hv, hw, he, hdec, hcl.symm⟩
          | none =>
              have hfall := (recvRatchet_none_iff (g := g) hlen).mp ⟨s', hr⟩
              cases hb : b64Decode text with
              | error e => simp only [hb] at hret; cases hret
              | ok b => exact absurd ⟨text, b, hp, hfall, hb⟩ hno
    · obtain ⟨e, he'⟩ : ∃ e, WebSocketClient.recvMessage c loads fields g client
          = .error e client := recvMessage_not_text (not_exists.mp hp)
      rw [he'] at hret
      cases hret

include hlen in
/-- Whatever was done to a client before, once a double ratchet is set and no
setter is called after it, a message of the relay is answered with an
authenticated plaintext or an exception exactly when its payload does not
both fall through and decode. -/
theorem recv_authenticated_iff (client : WebSocketClient K P)
    (engine : DoubleRatchetState K P) (calls : List (ClientCall K P))
    (hcalls : ∀ x ∈ calls, x.isSetter = false) (msg : List (String × Json)) (g : P) :
    ∃ engine', (runFrom (WebSocketClient.call c loads) (client.setDoubleRatchet engine)
        calls).doubleRatchet = some engine' ∧
      (Authenticated c loads (runFrom (WebSocketClient.call c loads)
          (client.setDoubleRatchet engine) calls) msg g ↔
        ¬ ∃ text b, payloadOf msg = .str text ∧ FallsThrough c loads engine' text ∧
          b64Decode text = .ok b) := by
  have hrun : Along (WebSocketClient.call c loads) (fun _ x => x.isSetter = false)
      (client.setDoubleRatchet engine) calls := Along.of_forall hcalls
  obtain ⟨hs, he⟩ : RatchetSet (runFrom (WebSocketClient.call c loads)
      (client.setDoubleRatchet engine) calls) :=
    Along.invariant (fun _ _ h hx => call_ratchetSet h hx) ⟨rfl, rfl⟩ hrun
  obtain ⟨engine', he⟩ := Option.isSome_iff_exists.mp he
  exact ⟨engine', he, ratchetSet_authenticated_iff hlen hs he⟩

end Receive

/-- `json.loads` on a text that starts no JSON value. -/
def loadsNothing (_ : String) : Except Exn Json :=
  .error (.jsonDecodeError "Expecting value: line 1 column 1 (char 0)")

/-- The relay's message object: any sender, any payload. -/
def relayed (sender payload : String) : List (String × Json) :=
  [("type", .str "msg"), ("from", .str sender), ("payload", .str payload)]

/-- A fresh responder, set as the double ratchet of a new client. -/
def sampleClient : WebSocketClient Bytes Bytes :=
  ({} : WebSocketClient Bytes Bytes).setDoubleRatchet (sampleState false)

/-- One base64 digit does not decode, so a client that has already let one
such payload through its `try` block raises on the next. -/
theorem recv_authenticated_lone_digit :
    Authenticated sampleCrypto loadsNothing
      (sampleClient.call sampleCrypto loadsNothing (.recv (relayed "mallory" "B") []))
      (relayed "mallory" "A") [] := by
  obtain ⟨engine', -, h⟩ : ∃ engine', _ ∧ (Authenticated sampleCrypto loadsNothing _ _ _ ↔
      ¬ ∃ text b, _ ∧ FallsThrough sampleCrypto loadsNothing engine' text ∧ _) :=
    recv_authenticated_iff sampleCrypto_hkdf_length {} (sampleState false)
    [.recv (relayed "mallory" "B") []] (by simp [ClientCall.isSetter])
    (relayed "mallory" "A") []
  refine h.mpr ?_
  rintro ⟨text, b, hp, -, hb⟩
  obtain rfl : "A" = text := by injection hp
  cases hb

/-- The payload `aGVsbG8` is no JSON. It comes back as the message `hello`,
and no key of anybody had a part in it. -/
theorem unauthenticated_hello :
    WebSocketClient.recvMessage sampleCrypto loadsNothing (relayed "mallory" "aGVsbG8") []
        sampleClient = .ok (.str "mallory", ascii "hello") sampleClient ∧
      ¬ Authenticated sampleCrypto loadsNothing sampleClient
        (relayed "mallory" "aGVsbG8") [] := by
  have hret : WebSocketClient.recvMessage sampleCrypto loadsNothing
      (relayed "mallory" "aGVsbG8") [] sampleClient
        = .ok (.str "mallory", ascii "hello") sampleClient := by rfl
  refine ⟨hret, fun hauth => ?_⟩
  obtain ⟨-, text, v, w, engine, engine', -, hv, -⟩ := hauth _ _ _ hret
  cases hv

end GhostChat.Proofs
