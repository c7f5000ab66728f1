import GhostChat.Proofs.Sealed
import GhostChat.Ref.TextChat

/-!
# The message API is a pair of text channels

Between `send_text` and `recv_text` stand a ratchet that numbers what it seals, a
replay cache, a fork detector, an inbox and a text encoding, and between the calls
anybody may put dicts into the inboxes. What the caller sees of it is two lists:
`recv_text` returns what the other side has sent since it was called last, all of
it and in order. That holds however the calls of the two profiles are interleaved,
and until the replay cache of a side is full, which is the one thing of all this
that shows (`texts_arrive_iff`).

The session underneath is a pair of counters (`sessionAt`). So the invariant is
about the inbox: its plain envelopes are the letters from the receiver's counter
on, and one call of `recv_text` takes up the counter and the inbox together.
-/

namespace GhostChat.Proofs

open GhostChat.Lib GhostChat.Lib.Effect GhostChat.Ref

variable {K P : Type} {c : Crypto K P Bytes} {l : Linking K P} {d : K}

/-! ## One call of `recv_text` -/

def plainOf : InboxItem → Option (ProtocolEnvelope Bytes)
  | .envelope env => some env
  | .dict _ => none

/-- The plain envelopes of an inbox, in order. -/
def plainEnvelopes (inbox : List (Arrival P)) : List (ProtocolEnvelope Bytes) :=
  inbox.filterMap fun a => plainOf a.item

/-- Letters that follow one another from number `r` on, with their texts. -/
structure InSequence (c : Crypto K P Bytes) (l : Linking K P) (d : K) (sender : Party) (r : Nat)
    (letters : List (Letter K Bytes)) (texts : List String) : Prop where
  numbered : ∀ {i x}, letters[i]? = some x → LetterAt c l d sender (r + i) x
  texts_eq : letters.map (·.plaintext) = texts.map utf8Encode

section Receive

variable (hlen : ∀ i s f b, (c.bytes (c.hkdf i s f b)).length = 32)
  (hd : ∀ who, dhWith c (some (l.dhs who)) (c.publicKey (l.dhs who.other)) = .ok d)
  (hinv : AeadInverse c) {who : Party} {s r : Nat}

include hlen hd hinv in
/-- The next letter, given to a manager that has the session. -/
theorem decryptFrom_next {m : SessionManager K P} {x : Letter K Bytes}
    (hsession : Odict.get? m.sessions (l.peerId who) = some (sessionAt c l d who s r))
    (hx : LetterAt c l d who.other r x) (g : P) :
    SessionManager.decryptFrom c (l.peerId who) x.env g m =
      if r < 1024 then .ok x.plaintext { m with
        sessions := Odict.set m.sessions (l.peerId who) (sessionAt c l d who s (r + 1)) }
      else .error (.valueError "replayed or stale envelope") { m with
        sessions := Odict.set m.sessions (l.peerId who)
          { sessionAt c l d who s r with resetState := ⟨true, some "replay-detected"⟩ } } := by
  simp only [SessionManager.decryptFrom, map_apply, SessionManager.decryptFromKeyed,
    SessionManager.withCtx, hsession, session_decrypt hlen hd hinv hx g]
  by_cases hr : r < 1024
  · simp only [if_pos hr]
  · simp only [if_neg hr]

theorem InSequence.tail {x : Letter K Bytes} {letters : List (Letter K Bytes)} {text : String}
    {texts : List String} (h : InSequence c l d who r (x :: letters) (text :: texts)) :
    InSequence c l d who (r + 1) letters texts where
  numbered {i y} hy := by
    have hnext := h.numbered (i := i + 1) hy
    rwa [← Nat.add_assoc, Nat.add_right_comm] at hnext
  texts_eq := (List.cons.inj h.texts_eq).2

include hlen hd hinv in
/-- The loop of `recv_text` at a letter. -/
theorem recvTextLoop_letter {x : Letter K Bytes} {text : String} (g : P)
    (rest kept : List (Arrival P)) (out : List String) {e : InMemoryEndpoint K P}
    (hx : LetterAt c l d who.other r x) (htext : x.plaintext = utf8Encode text)
    (hsession : Odict.get? e.manager.sessions (l.peerId who) = some (sessionAt c l d who s r)) :
    ∃ m, recvTextLoop c (l.peerId who) kept (⟨.envelope x.env, g⟩ :: rest) out e =
        (if r < 1024 then recvTextLoop c (l.peerId who) kept rest (out ++ [text])
          { e with inbox := kept ++ rest, manager := m }
        else .error (.valueError "replayed or stale envelope")
          { e with inbox := kept ++ rest, manager := m }) ∧
      (r < 1024 → Odict.get? m.sessions (l.peerId who) = some (sessionAt c l d who s (r + 1))) := by
  have hcall := decryptFrom_next hlen hd hinv hsession hx g
  by_cases hr : r < 1024
  · rw [if_pos hr] at hcall
    refine ⟨⟨e.manager.profile, Odict.set e.manager.sessions (l.peerId who)
      (sessionAt c l d who s (r + 1))⟩, ?_, fun _ => Odict.get?_set_self _ _ _⟩
    simp only [recvTextLoop, bind_apply, modify_apply, InMemoryEndpoint.onManager, zoom, hcall,
      htext, decodeUtf8_utf8Encode, lift_ok, if_pos hr]
  · obtain ⟨m, hrefused⟩ : ∃ m, SessionManager.decryptFrom c (l.peerId who) x.env g e.manager
        = .error (.valueError "replayed or stale envelope") m := ⟨_, hcall.trans (if_neg hr)⟩
    refine ⟨m, ?_, fun hlt => absurd hlt hr⟩
    simp only [recvTextLoop, bind_apply, modify_apply, InMemoryEndpoint.onManager, zoom,
      hrefused, if_neg hr]

include hlen hd hinv in
/-- The loop reads all letters, if the cache has room for them. -/
theorem recvTextLoop_reads (rest kept : List (Arrival P)) (out : List String)
    (e : InMemoryEndpoint K P) {letters : List (Letter K Bytes)} {texts : List String}
    (hplain : plainEnvelopes rest = letters.map (·.env))
    (hseq : InSequence c l d who.other r letters texts)
    (hsession : Odict.get? e.manager.sessions (l.peerId who) = some (sessionAt c l d who s r))
    (hinbox : e.inbox = kept ++ rest) (hkept : plainEnvelopes kept = []) :
    (r + letters.length ≤ 1024 →
      ∃ e', recvTextLoop c (l.peerId who) kept rest out e = .ok (out ++ texts) e' ∧
        plainEnvelopes e'.inbox = [] ∧
        Odict.get? e'.manager.sessions (l.peerId who)
          = some (sessionAt c l d who s (r + letters.length))) ∧
    (1024 < r + letters.length → letters ≠ [] →
      ∃ exn e', recvTextLoop c (l.peerId who) kept rest out e = .error exn e') := by
  induction rest generalizing kept out e letters texts r with
  | nil =>
      have hnone : letters = [] := List.map_eq_nil_iff.mp hplain.symm
      subst hnone
      have htexts : texts = [] := List.map_eq_nil_iff.mp hseq.texts_eq.symm
      subst htexts
      refine ⟨fun _ => ⟨e, ?_, ?_, hsession⟩, fun _ h => absurd rfl h⟩
      · rw [recvTextLoop, List.append_nil]
        rfl
      · rw [hinbox, List.append_nil]
        exact hkept
  | cons a rest ih =>
      obtain ⟨item, g⟩ := a
      cases item with
      | dict fields =>
          rw [recvTextLoop]
          refine ih _ out e hplain hseq hsession (by rw [hinbox, List.append_assoc]; rfl) ?_
          rw [plainEnvelopes, List.filterMap_append]
          exact List.append_eq_nil_iff.mpr ⟨hkept, rfl⟩
      | envelope env =>
          cases letters with
          | nil => cases hplain
          | cons x letters =>
              cases texts with
              | nil => cases hseq.texts_eq
              | cons text texts =>
                  obtain ⟨rfl, hrest⟩ := List.cons.inj hplain
                  have hx : LetterAt c l d who.other r x := hseq.numbered (i := 0) rfl
                  obtain ⟨m, hloop, hnext⟩ := recvTextLoop_letter hlen hd hinv g rest kept out
                    hx (List.cons.inj hseq.texts_eq).1 hsession
                  rw [hloop]
                  by_cases hr : r < 1024
                  · rw [if_pos hr]
                    obtain ⟨hreads, hfull⟩ := ih kept (out ++ [text])
                      { e with inbox := kept ++ rest, manager := m }
                      hrest hseq.tail (hnext hr) rfl hkept
                    have hcount : r + (x :: letters).length = r + 1 + letters.length := by
                      rw [List.length_cons]
                      omega
                    rw [hcount, List.append_cons out text texts]
                    refine ⟨hreads, fun hmany _ => hfull hmany fun hnone => ?_⟩
                    rw [hnone, List.length_nil] at hmany
                    omega
                  · rw [if_neg hr]
                    exact ⟨fun hroom => absurd hroom (by rw [List.length_cons]; omega),
                      fun _ _ => ⟨_, _, rfl⟩⟩

include hlen hd in
/-- A call of `encrypt_for`, on a manager that has the session. -/
theorem encryptFor_next {m : SessionManager K P} (pt : Bytes)
    (hsession : Odict.get? m.sessions (l.peerId who) = some (sessionAt c l d who s r)) :
    (∃ exn m', SessionManager.encryptFor c (l.peerId who) pt m = .error exn m') ∨
    ∃ x : Letter K Bytes, LetterAt c l d who s x ∧ x.plaintext = pt ∧
      SessionManager.encryptFor c (l.peerId who) pt m = .ok x.env { m with
        sessions := Odict.set m.sessions (l.peerId who) (sessionAt c l d who (s + 1) r) } := by
  cases henc : SessionContext.encryptKeyed c m.profile pt (sessionAt c l d who s r) with
  | error exn ctx =>
      refine Or.inl ⟨exn, { m with sessions := Odict.set m.sessions (l.peerId who) ctx }, ?_⟩
      simp only [SessionManager.encryptFor, map_apply, SessionManager.encryptForKeyed, bind_apply,
        get_apply, SessionManager.withCtx, hsession, henc]
  | ok x ctx =>
      obtain ⟨hletter, rfl⟩ := session_encrypt hlen hd henc
      refine Or.inr ⟨⟨pt, x.1, x.2⟩, hletter, rfl, ?_⟩
      simp only [SessionManager.encryptFor, map_apply, SessionManager.encryptForKeyed, bind_apply,
        get_apply, SessionManager.withCtx, hsession, henc]

end Receive

/-! ## Chats -/

/-- An endpoint that has sent `s` letters and read `r`, with the rest of those
sent to it in its inbox. -/
structure EndpointAt (c : Crypto K P Bytes) (l : Linking K P) (d : K) (who : Party) (s r : Nat)
    (letters : List (Letter K Bytes)) (e : InMemoryEndpoint K P) : Prop where
  session : Odict.get? e.manager.sessions (l.peerId who) = some (sessionAt c l d who s r)
  inbox : plainEnvelopes e.inbox = (letters.drop r).map (·.env)

/-- The two sessions are where the texts are. -/
structure Chatting (c : Crypto K P Bytes) (l : Linking K P) (d : K) (profile : Party → String)
    (letters : Party → List (Letter K Bytes)) (σ : TextChat K P) : Prop where
  endpoint : ∀ who, ∃ e, Odict.get? σ.endpoints (profile who) = some e ∧
    EndpointAt c l d who (letters who).length (σ.received who).length (letters who.other) e
  sent : ∀ who, InSequence c l d who 0 (letters who) (σ.sent who)
  received : ∀ who, σ.received who <+: σ.sent who.other
  room : ∀ who, (σ.received who).length ≤ 1024

/-- A call of `send_text` returns. -/
def Sends (c : Crypto K P Bytes) (l : Linking K P) (profile : Party → String)
    (σ : TextChat K P) : TextAct P → Prop
  | .send who text generated => (value? (Endpoints.sendText c (profile who) (profile who.other)
      (l.peerId who) text false [] generated σ.endpoints)).isSome
  | .recv _ | .post .. => True

/-- A call of `recv_text` returns what was sent since the last one. -/
def ReadsAll (c : Crypto K P Bytes) (l : Linking K P) (profile : Party → String)
    (σ : TextChat K P) : TextAct P → Prop
  | .recv who => value? (Endpoints.onEndpoint (profile who) (recvText c (l.peerId who))
      σ.endpoints) = some ((σ.sent who.other).drop (σ.received who).length)
  | .send .. | .post .. => True

/-- No more than 1024 texts have been sent to who calls `recv_text`. -/
def FitsCache (σ : TextChat K P) : TextAct P → Prop
  | .recv who => (σ.sent who.other).length ≤ 1024
  | .send .. | .post .. => True

section Chat

variable (hlen : ∀ i s f b, (c.bytes (c.hkdf i s f b)).length = 32)
  (hd : ∀ who, dhWith c (some (l.dhs who)) (c.publicKey (l.dhs who.other)) = .ok d)
  {profile : Party → String} {letters : Party → List (Letter K Bytes)} {σ : TextChat K P}

theorem onEndpoint_ok {α : Type} {endpoints : Endpoints K P} {p : String}
    {e e' : InMemoryEndpoint K P} {x : InMemoryEndpoint.Method K P α} {a : α}
    (he : Odict.get? endpoints p = some e) (hx : x e = .ok a e') :
    Endpoints.onEndpoint p x endpoints = .ok a (Odict.set endpoints p e') := by
  rw [Endpoints.onEndpoint, he]
  simp only [hx]

theorem onEndpoint_error {α : Type} {endpoints : Endpoints K P} {p : String}
    {e e' : InMemoryEndpoint K P} {x : InMemoryEndpoint.Method K P α} {exn : Exn}
    (he : Odict.get? endpoints p = some e) (hx : x e = .error exn e') :
    Endpoints.onEndpoint p x endpoints = .error exn (Odict.set endpoints p e') := by
  rw [Endpoints.onEndpoint, he]
  simp only [hx]

theorem InSequence.length_eq {who : Party} {r : Nat} {ls : List (Letter K Bytes)}
    {texts : List String} (h : InSequence c l d who r ls texts) : ls.length = texts.length := by
  have hlength := congrArg List.length h.texts_eq
  rwa [List.length_map, List.length_map] at hlength

/-- The letters from the receiver's counter on. -/
theorem InSequence.drop {who : Party} {ls : List (Letter K Bytes)} {texts : List String} (n : Nat)
    (h : InSequence c l d who 0 ls texts) :
    InSequence c l d who n (ls.drop n) (texts.drop n) where
  numbered {i x} hx := by
    rw [List.getElem?_drop] at hx
    have hnumber := h.numbered hx
    rwa [Nat.zero_add] at hnumber
  texts_eq := by rw [List.map_drop, h.texts_eq, List.map_drop]

theorem plainEnvelopes_append (a b : List (Arrival P)) :
    plainEnvelopes (a ++ b) = plainEnvelopes a ++ plainEnvelopes b :=
  List.filterMap_append

variable (hprofile : Function.Injective profile)

include hprofile in
theorem Chatting.post (h : Chatting c l d profile letters σ) (who : Party)
    (fields : List (String × Json)) (g : P) :
    Chatting c l d profile letters (σ.step c l profile (.post who fields g)) := by
  obtain ⟨e, he, hat⟩ := h.endpoint who
  have hdeliver : Endpoints.deliver (profile who) ⟨.dict fields, g⟩ σ.endpoints
      = .ok () (Odict.set σ.endpoints (profile who)
        { e with inbox := e.inbox ++ [⟨.dict fields, g⟩] }) := onEndpoint_ok he rfl
  rw [TextChat.step, hdeliver]
  refine ⟨fun x => ?_, h.sent, h.received, h.room⟩
  by_cases hx : x = who
  · subst hx
    refine ⟨_, Odict.get?_set_self _ _ _, hat.session, ?_⟩
    rw [plainEnvelopes_append, hat.inbox]
    exact List.append_nil _
  · obtain ⟨ex, hex, hrest⟩ := h.endpoint x
    exact ⟨ex, (Odict.get?_set_ne _ (hprofile.ne hx) _).trans hex, hrest⟩

theorem InSequence.concat {who : Party} {ls : List (Letter K Bytes)} {texts : List String}
    {x : Letter K Bytes} {text : String} (h : InSequence c l d who 0 ls texts)
    (hx : LetterAt c l d who ls.length x) (htext : x.plaintext = utf8Encode text) :
    InSequence c l d who 0 (ls ++ [x]) (texts ++ [text]) where
  numbered {i y} hy := by
    rcases getElem?_concat_cases hy with hy | ⟨rfl, rfl⟩
    · exact h.numbered hy
    · rw [Nat.zero_add]
      exact hx
  texts_eq := by
    rw [List.map_append, List.map_append, h.texts_eq, List.map_singleton, htext,
      List.map_singleton]

include hlen hd hprofile in
/-- A call of `send_text` that returns. -/
theorem sendText_next (h : Chatting c l d profile letters σ) {who : Party} {text : String} {g : P}
    (hsends : Sends c l profile σ (.send who text g)) :
    ∃ e e' m x, Odict.get? σ.endpoints (profile who) = some e ∧
      Odict.get? σ.endpoints (profile who.other) = some e' ∧
      LetterAt c l d who (letters who).length x ∧ x.plaintext = utf8Encode text ∧
      Odict.get? m.sessions (l.peerId who)
        = some (sessionAt c l d who ((letters who).length + 1) (σ.received who).length) ∧
      Endpoints.sendText c (profile who) (profile who.other) (l.peerId who) text false [] g
        σ.endpoints = .ok () (Odict.set (Odict.set σ.endpoints (profile who)
          { e with manager := m }) (profile who.other)
          { e' with inbox := e'.inbox ++ [⟨.envelope x.env, g⟩] }) := by
  obtain ⟨e, he, hat⟩ := h.endpoint who
  obtain ⟨e', he', hat'⟩ := h.endpoint who.other
  have hne : profile who.other ≠ profile who := hprofile.ne (Party.other_ne who)
  have hlookup : ∀ {p e}, Odict.get? σ.endpoints p = some e →
      Endpoints.lookup p σ.endpoints = .ok e σ.endpoints := by
    intro p e hp
    rw [Endpoints.lookup, bind_apply, get_apply]
    simp only [hp]
    rfl
  have hsend : Endpoints.sendText c (profile who) (profile who.other) (l.peerId who) text false []
      g σ.endpoints = (Endpoints.onEndpoint (profile who) (InMemoryEndpoint.onManager
        (SessionManager.encryptFor c (l.peerId who) (utf8Encode text))) >>= fun env =>
        Endpoints.deliver (profile who.other) ⟨.envelope env, g⟩) σ.endpoints := by
    rw [Endpoints.sendText, bind_apply, hlookup he]
    dsimp only
    rw [bind_apply, hlookup he']
    rfl
  rcases encryptFor_next hlen hd (utf8Encode text) hat.session with
    ⟨exn, m', herror⟩ | ⟨x, hx, htext, hok⟩
  · -- The call would have raised.
    exfalso
    have hraised : Endpoints.onEndpoint (profile who) (InMemoryEndpoint.onManager
        (SessionManager.encryptFor c (l.peerId who) (utf8Encode text))) σ.endpoints = .error exn
          (Odict.set σ.endpoints (profile who) { e with manager := m' }) :=
      onEndpoint_error he (by simp only [InMemoryEndpoint.onManager, zoom, herror])
    rw [Sends, hsend, bind_apply, hraised] at hsends
    cases hsends
  · refine ⟨e, e', ⟨e.manager.profile, Odict.set e.manager.sessions (l.peerId who)
      (sessionAt c l d who ((letters who).length + 1) (σ.received who).length)⟩, x, he, he', hx,
      htext, Odict.get?_set_self _ _ _, ?_⟩
    have hsealed : (InMemoryEndpoint.onManager
        (SessionManager.encryptFor c (l.peerId who) (utf8Encode text))) e = .ok x.env { e with
          manager := ⟨e.manager.profile, Odict.set e.manager.sessions (l.peerId who)
            (sessionAt c l d who ((letters who).length + 1) (σ.received who).length)⟩ } := by
      simp only [InMemoryEndpoint.onManager, zoom, hok]
    rw [hsend, bind_apply, onEndpoint_ok he hsealed]
    exact onEndpoint_ok ((Odict.get?_set_ne _ hne _).trans he') rfl

include hlen hd hprofile in
theorem Chatting.send (h : Chatting c l d profile letters σ) {who : Party} {text : String} {g : P}
    (hsends : Sends c l profile σ (.send who text g)) :
    ∃ letters', Chatting c l d profile letters' (σ.step c l profile (.send who text g)) := by
  obtain ⟨e, e', m, x, he, he', hx, htext, hsession, hcall⟩ :=
    sendText_next hlen hd hprofile h hsends
  refine ⟨Function.update letters who (letters who ++ [x]), ?_⟩
  have hne : profile who.other ≠ profile who := hprofile.ne (Party.other_ne who)
  rw [TextChat.step, hcall]
  dsimp only
  refine ⟨fun y => ?_, fun y => ?_, fun y => ?_, h.room⟩
  · obtain ⟨ey, hey, hat⟩ := h.endpoint y
    by_cases hy : y = who
    · subst hy
      obtain rfl : ey = e := Option.some.inj (hey.symm.trans he)
      refine ⟨{ ey with manager := m }, ?_, ?_, ?_⟩
      · rw [Odict.get?_set_ne _ hne.symm]
        exact Odict.get?_set_self _ _ _
      · rw [Function.update_self, List.length_append]
        exact hsession
      · rw [Function.update_of_ne (Party.other_ne y)]
        exact hat.inbox
    · obtain rfl : y = who.other := (Party.eq_or_other y who).resolve_left hy
      obtain rfl : ey = e' := Option.some.inj (hey.symm.trans he')
      refine ⟨_, Odict.get?_set_self _ _ _, ?_, ?_⟩
      · rw [Function.update_of_ne hy]
        exact hat.session
      · -- The letter stands behind those that wait.
        have hread : (σ.received who.other).length ≤ (letters who).length := by
          rw [(h.sent who).length_eq]
          have hle := (h.received who.other).length_le
          rwa [Party.other_other] at hle
        have hinbox := hat.inbox
        rw [Party.other_other] at hinbox
        rw [plainEnvelopes_append, hinbox, Party.other_other, Function.update_self,
          List.drop_append_of_le_length hread, List.map_append]
        rfl
  · show InSequence c l d y 0 (Function.update letters who (letters who ++ [x]) y)
      (Function.update σ.sent who (σ.sent who ++ [text]) y)
    by_cases hy : y = who
    · subst hy
      rw [Function.update_self, Function.update_self]
      exact (h.sent y).concat hx htext
    · rw [Function.update_of_ne hy, Function.update_of_ne hy]
      exact h.sent y
  · show σ.received y <+: Function.update σ.sent who (σ.sent who ++ [text]) y.other
    by_cases hy : y.other = who
    · rw [hy, Function.update_self]
      refine (h.received y).trans ?_
      rw [hy]
      exact List.prefix_append _ _
    · rw [Function.update_of_ne hy]
      exact h.received y

include hlen hd hprofile in
/-- A call of `recv_text`. -/
theorem Chatting.recv (hinv : AeadInverse c) (h : Chatting c l d profile letters σ) (who : Party) :
    (ReadsAll c l profile σ (.recv who) ↔ FitsCache σ (.recv who)) ∧
    (FitsCache σ (.recv who) →
      Chatting c l d profile letters (σ.step c l profile (.recv who))) := by
  obtain ⟨e, he, hat⟩ := h.endpoint who
  have hsent := h.sent who.other
  have hreads := recvTextLoop_reads hlen hd hinv e.inbox [] [] e hat.inbox
    (hsent.drop (σ.received who).length) hat.session rfl rfl
  have hle : (σ.received who).length ≤ (σ.sent who.other).length := (h.received who).length_le
  have hcount : (σ.received who).length
      + ((letters who.other).drop (σ.received who).length).length = (σ.sent who.other).length := by
    rw [List.length_drop, hsent.length_eq]
    omega
  rw [hcount] at hreads
  by_cases hfits : (σ.sent who.other).length ≤ 1024
  · obtain ⟨e', hloop, hplain, hsession⟩ := hreads.1 hfits
    have hcall : Endpoints.onEndpoint (profile who) (recvText c (l.peerId who)) σ.endpoints
        = .ok ((σ.sent who.other).drop (σ.received who).length)
          (Odict.set σ.endpoints (profile who) e') := by
      refine onEndpoint_ok he ?_
      rw [recvText, bind_apply, get_apply]
      exact hloop
    have hall : σ.received who ++ (σ.sent who.other).drop (σ.received who).length
        = σ.sent who.other := List.prefix_iff_eq_append.mp (h.received who)
    refine ⟨⟨fun _ => hfits, fun _ => ?_⟩, fun _ => ?_⟩
    · rw [ReadsAll, hcall]
      rfl
    · rw [TextChat.step, hcall]
      dsimp only
      rw [hall]
      refine ⟨fun y => ?_, h.sent, fun y => ?_, fun y => ?_⟩
      · show ∃ ey, Odict.get? (Odict.set σ.endpoints (profile who) e') (profile y) = some ey ∧
          EndpointAt c l d y (letters y).length
            (Function.update σ.received who (σ.sent who.other) y).length (letters y.other) ey
        by_cases hy : y = who
        · subst hy
          refine ⟨e', Odict.get?_set_self _ _ _, ?_, ?_⟩
          · rw [Function.update_self]
            exact hsession
          · rw [Function.update_self, hplain, ← hsent.length_eq, List.drop_length]
            rfl
        · obtain ⟨ey, hey, haty⟩ := h.endpoint y
          rw [Function.update_of_ne hy]
          exact ⟨ey, (Odict.get?_set_ne _ (hprofile.ne hy) _).trans hey, haty⟩
      · show Function.update σ.received who (σ.sent who.other) y <+: σ.sent y.other
        by_cases hy : y = who
        · subst hy
          rw [Function.update_self]
        · rw [Function.update_of_ne hy]
          exact h.received y
      · show (Function.update σ.received who (σ.sent who.other) y).length ≤ 1024
        by_cases hy : y = who
        · subst hy
          rw [Function.update_self]
          exact hfits
        · rw [Function.update_of_ne hy]
          exact h.room y
  · have hroom := h.room who
    have hpending : (letters who.other).drop (σ.received who).length ≠ [] := by
      intro hnone
      rw [hnone, List.length_nil] at hcount
      omega
    obtain ⟨exn, e', hloop⟩ := hreads.2 (by omega) hpending
    have hcall : Endpoints.onEndpoint (profile who) (recvText c (l.peerId who)) σ.endpoints
        = .error exn (Odict.set σ.endpoints (profile who) e') := by
      refine onEndpoint_error he ?_
      rw [recvText, bind_apply, get_apply]
      exact hloop
    refine ⟨⟨fun hall => ?_, fun h => absurd h hfits⟩, fun h => absurd h hfits⟩
    rw [ReadsAll, hcall] at hall
    cases hall

theorem Chatting.start (hdh : GoodDh c) {before : Party → SessionManager K P}
    (h : TextChat.Starts c l profile before σ) :
    ∃ d, (∀ who, dhWith c (some (l.dhs who)) (c.publicKey (l.dhs who.other)) = .ok d) ∧
      Chatting c l d profile (fun _ => []) σ := by
  obtain ⟨d, hd⟩ := linked_dh hdh l
  refine ⟨d, hd, fun who => ?_, fun who => ?_, fun who => ?_, fun who => ?_⟩
  · obtain ⟨m, groupManager, hmade, hregistered⟩ := h.registered who
    rw [h.received]
    refine ⟨_, hregistered, ?_, rfl⟩
    obtain ⟨d', hd', rfl⟩ := createSymmetricSession_ok hmade
    cases (hd who).symm.trans hd'
    rw [Odict.get?_set_self]
    cases who <;> rfl
  · rw [h.sent]
    refine ⟨fun {i x} hx => ?_, rfl⟩
    cases hx
  · rw [h.received]
    exact List.nil_prefix
  · rw [h.received]
    exact Nat.zero_le _

end Chat

/-- Two registered profiles with a fresh session exchange texts, and anybody puts
dicts into their inboxes, in any order. Every `recv_text` returns just the texts
sent to its caller since the last one, in order, exactly if at each call no more
than 1024 have ever been sent to who calls. -/
theorem texts_arrive_iff (hlen : ∀ i s f b, (c.bytes (c.hkdf i s f b)).length = 32)
    (hdh : GoodDh c) (hinv : AeadInverse c) {profile : Party → String}
    (hprofile : Function.Injective profile) {before : Party → SessionManager K P}
    {σ : TextChat K P} (hstart : TextChat.Starts c l profile before σ) {acts : List (TextAct P)}
    (hsends : Along (TextChat.step c l profile) (Sends c l profile) σ acts) :
    Along (TextChat.step c l profile) (ReadsAll c l profile) σ acts ↔
      Along (TextChat.step c l profile) FitsCache σ acts := by
  obtain ⟨d, hd, h₀⟩ := Chatting.start hdh hstart
  refine Along.congr (I := fun σ => ∃ letters, Chatting c l d profile letters σ)
    (fun σ act h hact => ?_) (fun σ act h hact hfits => ?_) ⟨_, h₀⟩ hsends
  · obtain ⟨letters, h⟩ := h
    cases act with
    | send who text g => exact Iff.rfl
    | post who fields g => exact Iff.rfl
    | recv who => exact (h.recv hlen hd hprofile hinv who).1
  · obtain ⟨letters, h⟩ := h
    cases act with
    | send who text g => exact h.send hlen hd hprofile hact
    | post who fields g => exact ⟨_, h.post hprofile who fields g⟩
    | recv who => exact ⟨_, (h.recv hlen hd hprofile hinv who).2 hfits⟩

instance Sends.decidable (c : Crypto K P Bytes) (l : Linking K P) (profile : Party → String)
    (σ : TextChat K P) : (act : TextAct P) → Decidable (Sends c l profile σ act)
  | .send _ _ _ => inferInstanceAs (Decidable (_ = true))
  | .recv _ => isTrue trivial
  | .post _ _ _ => isTrue trivial

instance FitsCache.decidable (σ : TextChat K P) :
    (act : TextAct P) → Decidable (FitsCache σ act)
  | .send _ _ _ => isTrue trivial
  | .recv _ => inferInstanceAs (Decidable (_ ≤ _))
  | .post _ _ _ => isTrue trivial

/-- Alice and Bob, registered and linked. -/
def textEndpoints : Endpoints Bytes Bytes :=
  after ((do
    Endpoints.registerEndpoint "alice" (sampleSealed.manager .initiator) none
    Endpoints.registerEndpoint "bob" (sampleSealed.manager .responder) none :
      Endpoints.Method Bytes Bytes Unit) [])

/-- Two texts of Alice's around a dict of somebody else's, and one of Bob's in
between. -/
def sampleTexts : List (TextAct Bytes) :=
  [.send .initiator "hi" [3], .post .responder [] [3], .send .responder "hello" [3],
    .send .initiator "how are you" [3], .recv .responder, .recv .initiator,
    .send .initiator "well" [3], .recv .responder]

theorem texts_arrive_iff_sample :
    Along (TextChat.step sampleCrypto sampleLinking symProfile)
      (ReadsAll sampleCrypto sampleLinking symProfile) { endpoints := textEndpoints }
      sampleTexts := by
  have hstart : TextChat.Starts sampleCrypto sampleLinking symProfile
      (fun who => { profile := symProfile who }) { endpoints := textEndpoints } := by
    refine ⟨fun who => ?_, fun _ => rfl, fun _ => rfl⟩
    cases who <;> exact ⟨_, _, rfl, rfl⟩
  refine (texts_arrive_iff sampleCrypto_hkdf_length sampleCrypto_goodDh sampleCrypto_inverse
    ?_ hstart (by decide +kernel)).mpr (by decide +kernel)
  intro x y
  cases x <;> cases y <;> decide

end GhostChat.Proofs
