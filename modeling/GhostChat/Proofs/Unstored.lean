import GhostChat.Proofs.Cover

/-!
# Plaintexts in a local list

`recv_text` and `recv_sealed` take an envelope out of the inbox, decrypt it and
put the text into `out`, one after the other, and return `out` at the end. What
was decrypted before an item raises is in `out` and nowhere else: the envelope
is gone, the ratchet has moved on, and no later call can decrypt it again.

So a call keeps what it obtains exactly if it comes to its end, or raises at
once. A plaintext that is not UTF-8 is lost by itself. `recv_group_text` has the
same list and ends its loop instead of raising.
-/

namespace GhostChat.Proofs

open GhostChat.Lib GhostChat.Lib.Effect GhostChat.Ref

variable {K P : Type} {c : Crypto K P Bytes}

/-! ## UTF-8 -/

theorem utf8Encode_of_decode {b : Bytes} {text : String} (h : decodeUtf8 b = .ok text) :
    utf8Encode text = b := by
  rw [decodeUtf8, String.fromUTF8?] at h
  split at h
  · next s hs =>
      cases h
      have harray : (utf8Encode text).toByteArray = b.toByteArray := by
        rw [utf8Encode_toByteArray]
        split at hs
        · cases hs
          rfl
        · cases hs
      have hdata := congrArg ByteArray.data harray
      simpa using hdata
  · cases h

/-! ## What a call makes of an item -/

inductive Reading where
  /-- It is not for this call, and stays. -/
  | passed
  /-- It did not open, and is dropped. -/
  | dropped
  /-- Its plaintext is put into `out`. -/
  | given (entry : Bytes × Bytes)
  /-- It was decrypted, and then its plaintext was no text. -/
  | spoiled (entry : Bytes × Bytes)
  /-- It raised before there was a plaintext. -/
  | refused

def Reading.raises : Reading → Bool
  | spoiled _ | refused => true
  | passed | dropped | given _ => false

/-- The peer and the plaintext that were obtained. -/
def Reading.obtained? : Reading → Option (Bytes × Bytes)
  | given entry | spoiled entry => some entry
  | passed | dropped | refused => none

def Reading.ofPlaintext (peerId plaintext : Bytes) : Reading :=
  if (decodeUtf8 plaintext).isOk then .given (peerId, plaintext) else .spoiled (peerId, plaintext)

theorem Reading.ofPlaintext_text {peerId plaintext : Bytes} {text : String}
    (h : decodeUtf8 plaintext = .ok text) :
    Reading.ofPlaintext peerId plaintext = .given (peerId, plaintext) := by
  rw [Reading.ofPlaintext, h]
  rfl

theorem Reading.ofPlaintext_error {peerId plaintext : Bytes} {exn : Exn}
    (h : decodeUtf8 plaintext = .error exn) :
    Reading.ofPlaintext peerId plaintext = .spoiled (peerId, plaintext) := by
  rw [Reading.ofPlaintext, h]
  rfl

/-- `recv_text`, on one item. -/
def readText (c : Crypto K P Bytes) (peerId : Bytes) (a : Arrival P) (m : SessionManager K P) :
    Reading × SessionManager K P :=
  match a.item with
  | .dict _ => (.passed, m)
  | .envelope env =>
      match SessionManager.decryptFrom c peerId env a.generated m with
      | .ok plaintext m' => (.ofPlaintext peerId plaintext, m')
      | .error _ m' => (.refused, m')

theorem readText_dict (c : Crypto K P Bytes) (peerId : Bytes) (fields : List (String × Json))
    (generated : P) (m : SessionManager K P) :
    readText c peerId ⟨.dict fields, generated⟩ m = (.passed, m) := rfl

/-- `recv_sealed`, on one item. -/
def readSealed (c : Crypto K P Bytes) (dropUndecryptable : Bool) (a : Arrival P)
    (m : SessionManager K P) : Reading × SessionManager K P :=
  match sealedDict a with
  | none => (.passed, m)
  | some item =>
      match SessionManager.decryptSealed c item a.generated m with
      | .ok (peerId, plaintext) m' => (.ofPlaintext peerId plaintext, m')
      | .error e m' =>
          (if e.isValueError && (dropUndecryptable && e.mentions undecryptable) then .dropped
            else .refused, m')

/-- The items of the inbox, up to the first that raises. -/
def readings (read : Arrival P → SessionManager K P → Reading × SessionManager K P) :
    SessionManager K P → List (Arrival P) → List Reading
  | _, [] => []
  | m, a :: rest =>
      let r := read a m
      if r.1.raises then [r.1] else r.1 :: readings read r.2 rest

section Readings

variable {read : Arrival P → SessionManager K P → Reading × SessionManager K P}
  {m m' : SessionManager K P} {a : Arrival P} {r : Reading}

theorem readings_raised (h : read a m = (r, m')) (hr : r.raises = true) (rest : List (Arrival P)) :
    readings read m (a :: rest) = [r] := by
  rw [readings, h]
  exact if_pos hr

theorem readings_on (h : read a m = (r, m')) (hr : r.raises = false) (rest : List (Arrival P)) :
    readings read m (a :: rest) = r :: readings read m' rest := by
  rw [readings, h]
  exact if_neg (Bool.eq_false_iff.mp hr)

end Readings

/-- The plaintexts that `decrypt_from` or `decrypt_sealed` returned. -/
def plaintextsOf (rs : List Reading) : List (Bytes × Bytes) := rs.filterMap (·.obtained?)

/-- A call that returns has all it obtained in what it returns; it raises where
an item does. -/
def Accounts {α : Type} (entry : α → Bytes × Bytes) (rs : List Reading) (out : List α) :
    EStateM.Result Exn (InMemoryEndpoint K P) (List α) → Prop
  | .ok r _ => (∀ x ∈ rs, x.raises = false) ∧
      ∃ new, r = out ++ new ∧ new.map entry = plaintextsOf rs
  | .error _ _ => ∃ x ∈ rs, x.raises = true

section Loop

variable {α : Type} {entry : α → Bytes × Bytes} {r : Reading} {rs : List Reading} {out : List α}
  {result : EStateM.Result Exn (InMemoryEndpoint K P) (List α)}

theorem Accounts.raised (hr : r.raises = true) (exn : Exn) (e : InMemoryEndpoint K P) :
    Accounts entry [r] out (.error exn e) := ⟨r, List.mem_singleton_self r, hr⟩

/-- One more item in front, that put `new` into `out`. -/
theorem Accounts.cons (hr : r.raises = false) (new : List α)
    (hnew : new.map entry = r.obtained?.toList) (h : Accounts entry rs (out ++ new) result) :
    Accounts entry (r :: rs) out result := by
  have hobtained : plaintextsOf (r :: rs) = r.obtained?.toList ++ plaintextsOf rs := by
    rw [plaintextsOf, List.filterMap_cons]
    cases r.obtained? <;> rfl
  cases result with
  | error exn e =>
      obtain ⟨x, hx, hraises⟩ := h
      exact ⟨x, List.mem_cons_of_mem r hx, hraises⟩
  | ok returned e =>
      obtain ⟨hall, more, rfl, hmore⟩ := h
      refine ⟨List.forall_mem_cons.mpr ⟨hr, hall⟩, new ++ more, List.append_assoc _ _ _, ?_⟩
      rw [List.map_append, hnew, hmore, hobtained]

variable {kept rest : List (Arrival P)} {e : InMemoryEndpoint K P}

/-- `recv_text` at a plain envelope: it raises, or goes on with one text more. -/
theorem recvTextLoop_envelope (c : Crypto K P Bytes) (peerId : Bytes)
    (env : ProtocolEnvelope Bytes) (generated : P) (m : SessionManager K P) :
    (∃ r m' exn, readText c peerId ⟨.envelope env, generated⟩ m = (r, m') ∧ r.raises = true ∧
        ∀ (kept rest : List (Arrival P)) (out : List String) (e : InMemoryEndpoint K P),
          e.manager = m →
            recvTextLoop c peerId kept (⟨.envelope env, generated⟩ :: rest) out e
              = .error exn { e with inbox := kept ++ rest, manager := m' }) ∨
      ∃ text m', readText c peerId ⟨.envelope env, generated⟩ m
          = (.given (peerId, utf8Encode text), m') ∧
        ∀ (kept rest : List (Arrival P)) (out : List String) (e : InMemoryEndpoint K P),
          e.manager = m →
            recvTextLoop c peerId kept (⟨.envelope env, generated⟩ :: rest) out e
              = recvTextLoop c peerId kept rest (out ++ [text])
                  { e with inbox := kept ++ rest, manager := m' } := by
  cases hcall : SessionManager.decryptFrom c peerId env generated m with
  | error exn m' =>
      refine Or.inl ⟨.refused, m', exn, by simp only [readText, hcall], rfl, ?_⟩
      rintro kept rest out e rfl
      simp only [recvTextLoop, bind_apply, modify_apply, InMemoryEndpoint.onManager, zoom, hcall]
  | ok plaintext m' =>
      cases htext : decodeUtf8 plaintext with
      | error exn =>
          refine Or.inl ⟨.spoiled (peerId, plaintext), m', exn, ?_, rfl, ?_⟩
          · simp only [readText, hcall, Reading.ofPlaintext_error htext]
          · rintro kept rest out e rfl
            simp only [recvTextLoop, bind_apply, modify_apply, InMemoryEndpoint.onManager, zoom,
              hcall, htext]
            rfl
      | ok text =>
          refine Or.inr ⟨text, m', ?_, ?_⟩
          · simp only [readText, hcall, Reading.ofPlaintext_text htext, utf8Encode_of_decode htext]
          · rintro kept rest out e rfl
            simp only [recvTextLoop, bind_apply, modify_apply, InMemoryEndpoint.onManager, zoom,
              hcall, htext]
            rfl

theorem recvTextLoop_accounts (peerId : Bytes) (out : List String) :
    Accounts (fun text => (peerId, utf8Encode text)) (readings (readText c peerId) e.manager rest)
      out (recvTextLoop c peerId kept rest out e) := by
  induction rest generalizing kept out e with
  | nil => exact ⟨fun x hx => absurd hx List.not_mem_nil, [], (List.append_nil out).symm, rfl⟩
  | cons a rest ih =>
      obtain ⟨item, generated⟩ := a
      cases item with
      | dict fields =>
          rw [readings_on (readText_dict c peerId fields generated _) rfl, recvTextLoop]
          refine Accounts.cons rfl [] rfl ?_
          rw [List.append_nil]
          exact ih out
      | envelope env =>
          rcases recvTextLoop_envelope c peerId env generated e.manager with
            ⟨r, m, exn, hread, hraises, hloop⟩ | ⟨text, m, hread, hloop⟩
          · rw [hloop kept rest out e rfl, readings_raised hread hraises]
            exact Accounts.raised hraises _ _
          · rw [hloop kept rest out e rfl, readings_on hread rfl]
            exact Accounts.cons rfl [text] rfl (ih _)

/-- The text of a decoding error does not mention decryption. -/
theorem decodeUtf8_error_mentions {b : Bytes} {exn : Exn} (h : decodeUtf8 b = .error exn) :
    exn.mentions undecryptable = false := by
  rw [decodeUtf8] at h
  split at h
  · cases h
  · cases h
    decide +kernel

/-- The `try` of `recv_sealed`: it raises, the item is dropped, or there is one
text more. -/
theorem openSealed_cases {a : Arrival P} {item : Json} (ha : sealedDict a = some item)
    (drop : Bool) (m : SessionManager K P) :
    (∃ r m' exn, readSealed c drop a m = (r, m') ∧ r.raises = true ∧
        openSealed c drop item a.generated m = .error exn m') ∨
      (∃ m', readSealed c drop a m = (.dropped, m') ∧
        openSealed c drop item a.generated m = .ok none m') ∨
      ∃ peerId text m', readSealed c drop a m = (.given (peerId, utf8Encode text), m') ∧
        openSealed c drop item a.generated m = .ok (some (peerId, text)) m' := by
  rw [openSealed, bind_apply, readSealed, ha]
  cases hcall : SessionManager.decryptSealed c item a.generated m with
  | error exn m' =>
      by_cases hdrop : (exn.isValueError && (drop && exn.mentions undecryptable)) = true
      · simp only [hcall, if_pos hdrop]
        exact Or.inr (Or.inl ⟨m', rfl, rfl⟩)
      · simp only [hcall, if_neg hdrop]
        exact Or.inl ⟨.refused, m', exn, rfl, rfl, rfl⟩
  | ok found m' =>
      simp only [hcall]
      cases htext : decodeUtf8 found.2 with
      | error exn =>
          refine Or.inl ⟨.spoiled (found.1, found.2), m', exn, ?_, rfl, ?_⟩
          · rw [Reading.ofPlaintext_error htext]
          · simp [decodeUtf8_error_mentions htext]
      | ok text =>
          refine Or.inr (Or.inr ⟨found.1, text, m', ?_, rfl⟩)
          rw [Reading.ofPlaintext_text htext, utf8Encode_of_decode htext]

theorem recvSealedLoop_accounts (drop : Bool) (out : List (Bytes × String)) :
    Accounts (fun x => (x.1, utf8Encode x.2)) (readings (readSealed c drop) e.manager rest) out
      (recvSealedLoop c drop kept rest out e) := by
  induction rest generalizing kept out e with
  | nil => exact ⟨fun x hx => absurd hx List.not_mem_nil, [], (List.append_nil out).symm, rfl⟩
  | cons a rest ih =>
      cases hsealed : sealedDict a with
      | none =>
          have hread : readSealed c drop a e.manager = (.passed, e.manager) := by
            rw [readSealed, hsealed]
          rw [readings_on hread rfl, recvSealedLoop_skip hsealed]
          refine Accounts.cons rfl [] rfl ?_
          rw [List.append_nil]
          exact ih out
      | some item =>
          rw [recvSealedLoop_open hsealed]
          rcases openSealed_cases (c := c) hsealed drop e.manager with
            ⟨r, m, exn, hread, hraises, hopen⟩ | ⟨m, hread, hopen⟩ |
              ⟨peerId, text, m, hread, hopen⟩
          · rw [hopen, readings_raised hread hraises]
            exact Accounts.raised hraises _ _
          · rw [hopen, readings_on hread rfl]
            exact Accounts.cons rfl [] rfl (ih _)
          · rw [hopen, readings_on hread rfl]
            exact Accounts.cons rfl [(peerId, text)] rfl (ih _)

end Loop

/-! ## Calls -/

/-- An endpoint, the plaintexts its calls have obtained, and those that were
given to the caller, with the peer of each. -/
structure Mailbox (K P : Type) where
  endpoint : InMemoryEndpoint K P
  obtained : List (Bytes × Bytes) := []
  delivered : List (Bytes × Bytes) := []

/-- Something arrives, the profile sends, or it reads. -/
inductive MailAct (P : Type) where
  | arrive (a : Arrival P)
  | encryptFor (peerId plaintext : Bytes)
  | encryptSealed (peerId plaintext : Bytes) (recipientLocator : String) (ttl : Int) (nonce : Bytes)
  | recvText (peerId : Bytes)
  | recvSealed (dropUndecryptable : Bool)

/-- A call that reads. -/
def Mailbox.read {α : Type} (σ : Mailbox K P) (entry : α → Bytes × Bytes) (rs : List Reading) :
    EStateM.Result Exn (InMemoryEndpoint K P) (List α) → Mailbox K P
  | .ok out e => {
      endpoint := e
      obtained := σ.obtained ++ plaintextsOf rs
      delivered := σ.delivered ++ out.map entry }
  | .error _ e => {
      endpoint := e
      obtained := σ.obtained ++ plaintextsOf rs
      delivered := σ.delivered }

/-- What `recv_text` makes of the inbox. -/
def Mailbox.texts (c : Crypto K P Bytes) (σ : Mailbox K P) (peerId : Bytes) : List Reading :=
  readings (readText c peerId) σ.endpoint.manager σ.endpoint.inbox

/-- What `recv_sealed` makes of it. -/
def Mailbox.sealedTexts (c : Crypto K P Bytes) (σ : Mailbox K P) (dropUndecryptable : Bool) :
    List Reading := readings (readSealed c dropUndecryptable) σ.endpoint.manager σ.endpoint.inbox

def Mailbox.step (c : Crypto K P Bytes) (σ : Mailbox K P) : MailAct P → Mailbox K P
  | .arrive a => { σ with endpoint := { σ.endpoint with inbox := σ.endpoint.inbox ++ [a] } }
  | .encryptFor peerId plaintext => { σ with
      endpoint := after (InMemoryEndpoint.onManager
        (SessionManager.encryptFor c peerId plaintext) σ.endpoint) }
  | .encryptSealed peerId plaintext recipientLocator ttl nonce => { σ with
      endpoint := after (InMemoryEndpoint.onManager
        (SessionManager.encryptSealed c peerId plaintext recipientLocator ttl nonce) σ.endpoint) }
  | .recvText peerId => σ.read (fun text => (peerId, utf8Encode text)) (σ.texts c peerId)
      (Ref.recvText c peerId σ.endpoint)
  | .recvSealed drop => σ.read (fun x => (x.1, utf8Encode x.2)) (σ.sealedTexts c drop)
      (Ref.recvSealed c drop σ.endpoint)

/-- Every plaintext a call obtained was given to the caller, by that call or
one after it. -/
def AllDelivered (σ : Mailbox K P) : Prop := σ.obtained.Subperm σ.delivered

/-- No item makes the call raise, or it raises before anything is obtained. -/
def Whole (rs : List Reading) : Prop := (∀ x ∈ rs, x.raises = false) ∨ plaintextsOf rs = []

def KeepsPlaintexts (c : Crypto K P Bytes) (σ : Mailbox K P) : MailAct P → Prop
  | .arrive _ | .encryptFor _ _ | .encryptSealed .. => True
  | .recvText peerId => Whole (σ.texts c peerId)
  | .recvSealed drop => Whole (σ.sealedTexts c drop)

instance Whole.decidable (rs : List Reading) : Decidable (Whole rs) :=
  inferInstanceAs (Decidable ((∀ x ∈ rs, x.raises = false) ∨ plaintextsOf rs = []))

instance KeepsPlaintexts.decidable (σ : Mailbox K P) :
    (act : MailAct P) → Decidable (KeepsPlaintexts c σ act)
  | .arrive _ | .encryptFor _ _ | .encryptSealed .. => inferInstanceAs (Decidable True)
  | .recvText _ | .recvSealed _ => inferInstanceAs (Decidable (Whole _))

/-- Nothing is given out that was not obtained, and that in order. -/
def NoMore (σ : Mailbox K P) : Prop := σ.delivered.Sublist σ.obtained

theorem NoMore.allDelivered_iff {σ : Mailbox K P} (h : NoMore σ) :
    AllDelivered σ ↔ σ.obtained.length ≤ σ.delivered.length := by
  constructor
  · exact fun hall => hall.length_le
  · intro hle
    rw [AllDelivered, h.eq_of_length_le hle]

theorem Mailbox.read_noMore {α : Type} {σ : Mailbox K P} (h : NoMore σ)
    {entry : α → Bytes × Bytes} {rs : List Reading}
    {result : EStateM.Result Exn (InMemoryEndpoint K P) (List α)}
    (hresult : Accounts entry rs [] result) : NoMore (σ.read entry rs result) := by
  cases result with
  | ok out e =>
      obtain ⟨-, new, rfl, hnew⟩ := hresult
      rw [NoMore, Mailbox.read, hnew]
      exact h.append (List.Sublist.refl _)
  | error exn e => exact h.trans (List.sublist_append_left _ _)

/-- A call that reads keeps what it obtains exactly if it is whole. -/
theorem Mailbox.read_iff {α : Type} {σ : Mailbox K P} (h : NoMore σ)
    {entry : α → Bytes × Bytes} {rs : List Reading}
    {result : EStateM.Result Exn (InMemoryEndpoint K P) (List α)}
    (hresult : Accounts entry rs [] result) :
    AllDelivered (σ.read entry rs result) ↔ AllDelivered σ ∧ Whole rs := by
  rw [(Mailbox.read_noMore h hresult).allDelivered_iff, h.allDelivered_iff]
  have hle := h.length_le
  cases result with
  | ok out e =>
      obtain ⟨hall, new, rfl, hnew⟩ := hresult
      have hwhole : Whole rs := Or.inl hall
      rw [Mailbox.read, hnew, and_iff_left hwhole]
      simp only [List.length_append]
      omega
  | error exn e =>
      obtain ⟨x, hx, hraises⟩ := hresult
      have hwhole : Whole rs ↔ (plaintextsOf rs).length = 0 := by
        rw [List.length_eq_zero_iff, Whole, or_iff_right]
        intro hall
        rw [hall x hx] at hraises
        cases hraises
      rw [hwhole]
      simp only [Mailbox.read, List.length_append]
      omega

theorem NoMore.step {σ : Mailbox K P} (h : NoMore σ) (act : MailAct P) :
    NoMore (σ.step c act) := by
  cases act with
  | arrive a => exact h
  | encryptFor peerId plaintext => exact h
  | encryptSealed peerId plaintext recipientLocator ttl nonce => exact h
  | recvText peerId => exact Mailbox.read_noMore h (recvTextLoop_accounts peerId [])
  | recvSealed drop => exact Mailbox.read_noMore h (recvSealedLoop_accounts drop [])

theorem step_allDelivered_iff {σ : Mailbox K P} (h : NoMore σ) (act : MailAct P) :
    AllDelivered (σ.step c act) ↔ AllDelivered σ ∧ KeepsPlaintexts c σ act := by
  cases act with
  | arrive a => exact (and_iff_left trivial).symm
  | encryptFor peerId plaintext => exact (and_iff_left trivial).symm
  | encryptSealed peerId plaintext recipientLocator ttl nonce => exact (and_iff_left trivial).symm
  | recvText peerId => exact Mailbox.read_iff h (recvTextLoop_accounts peerId [])
  | recvSealed drop => exact Mailbox.read_iff h (recvSealedLoop_accounts drop [])

/-- From any endpoint, with any messages in between: every plaintext that was
obtained is given to the caller, if and only if each call that reads comes to
its end or raises before it has obtained any. -/
theorem all_delivered_iff (e : InMemoryEndpoint K P) (acts : List (MailAct P)) :
    AllDelivered (runFrom (Mailbox.step c) { endpoint := e } acts) ↔
      Along (Mailbox.step c) (KeepsPlaintexts c) { endpoint := e } acts := by
  have hacts : Along (Mailbox.step c) (fun _ _ => True) ({ endpoint := e } : Mailbox K P) acts :=
    Along.of_forall (Q := fun _ => True) fun _ _ => trivial
  have hstart : NoMore ({ endpoint := e } : Mailbox K P) := List.Sublist.refl _
  rw [Along.iff_of_step (I := NoMore) (G := AllDelivered) (R := KeepsPlaintexts c)
    (fun σ act h _ => h.step act) (fun σ act h _ => step_allDelivered_iff h act) hstart hacts]
  exact and_iff_right (List.Subperm.refl _)

/-! ## The sample session -/

/-- What the initiator of the sample sends, and the responder's key pair for
it. -/
def sampleArrival (n : Nat) : Arrival Bytes :=
  let manager := (List.range n).foldl (fun m _ => after (SessionManager.encryptFor sampleCrypto
    (ascii "peer") (ascii "before") m)) (sampleSealed.manager .initiator)
  match SessionManager.encryptFor sampleCrypto (ascii "peer") (ascii "hello") manager with
  | .ok env _ => ⟨.envelope env, [3]⟩
  | .error _ _ => ⟨.dict [], [3]⟩

/-- Two messages are read, then a dummy is dropped, and a replay raises with
nothing before it. -/
def sampleReads : List (MailAct Bytes) := [
  .arrive (sampleArrival 0), .arrive (sampleArrival 1), .recvText (ascii "peer"),
  .arrive sampleDummy, .recvSealed true, .arrive (sampleArrival 0), .recvText (ascii "peer")]

def sampleResponder : InMemoryEndpoint Bytes Bytes where
  manager := sampleSealed.manager .responder

theorem all_delivered_sample :
    Along (Mailbox.step sampleCrypto) (KeepsPlaintexts sampleCrypto)
        { endpoint := sampleResponder } sampleReads ∧
      AllDelivered (runFrom (Mailbox.step sampleCrypto) { endpoint := sampleResponder }
        sampleReads) := by
  have hkeeps : Along (Mailbox.step sampleCrypto) (KeepsPlaintexts sampleCrypto)
      { endpoint := sampleResponder } sampleReads := by decide +kernel
  exact ⟨hkeeps, (all_delivered_iff sampleResponder sampleReads).mpr hkeeps⟩

/-- A message and a replay of it, in one inbox. -/
theorem plaintext_thrown_away :
    ¬ ∀ acts : List (MailAct Bytes), AllDelivered
      (runFrom (Mailbox.step sampleCrypto) { endpoint := sampleResponder } acts) := by
  intro h
  have hall := h [.arrive (sampleArrival 0), .arrive (sampleArrival 0), .recvText (ascii "peer"),
    .recvText (ascii "peer")]
  exact absurd hall.length_le (by decide +kernel)

end GhostChat.Proofs
