import GhostChat.Proofs.BundleFiles

/-!
# One-time prekeys over restarts

While a process runs, a consumed prekey is out of the bundle and stays out:
`consume_one_time_prekey` takes from the dictionary and nothing puts back. The
bundle file however is written once, when the bundle is made, and a process
that starts takes what stands there. So the only way a prekey is used twice is
a start on a file that still lists it, and the file lists all of them.
-/

namespace GhostChat.Proofs

open GhostChat.Lib GhostChat.Lib.Effect GhostChat.Ref

variable {K P C : Type} {h : HandshakeCrypto K P C} {identity : IdentityKeyPair}

/-! ## One call -/

/-- The bundle has no one-time prekey under `id`. -/
def Without (id : Int) (b : ClientPreKeyBundle) : Prop := Odict.has b.oneTimePrekeys id = false

theorem without_iff {id : Int} {b : ClientPreKeyBundle} :
    Without id b ↔ Odict.get? b.oneTimePrekeys id = none := Odict.has_eq_false_iff

theorem has_erase_self (d : Odict Int OneTimePreKey) (id : Int) :
    Odict.has (Odict.erase d id) id = false :=
  Odict.has_eq_false_iff.mpr (Odict.get?_erase_self d id)

theorem has_erase_of_not {d : Odict Int OneTimePreKey} {id : Int}
    (hd : Odict.has d id = false) (id' : Int) : Odict.has (Odict.erase d id') id = false := by
  rw [Odict.has_erase, hd, Bool.and_false]

/-- What a successful call did to the bundle. -/
theorem responder_consumed {b b' : ClientPreKeyBundle} {idPub ephPub : Bytes} {keyId : Json}
    {ct suite : Option Bytes} {backend : Option (PqBackend K)} {x : X3DHResult K × HandshakeKeys K}
    (hok : x3dhResponderKeyed h idPub ephPub keyId ct suite backend b = .ok x b') :
    ∃ y, responderDh4 h ephPub keyId b = .ok y b' := by
  simp only [x3dhResponderKeyed] at hok
  obtain ⟨-, hok⟩ := guard_ok hok
  obtain ⟨_, _, hget, hok⟩ := bind_ok hok
  cases hget
  obtain ⟨_, -, hok⟩ := lift_bind_ok hok
  obtain ⟨_, -, hok⟩ := lift_bind_ok hok
  obtain ⟨_, -, hok⟩ := lift_bind_ok hok
  obtain ⟨_, -, hok⟩ := lift_bind_ok hok
  obtain ⟨_, -, hok⟩ := lift_bind_ok hok
  obtain ⟨_, -, hok⟩ := lift_bind_ok hok
  obtain ⟨_, -, hok⟩ := lift_bind_ok hok
  obtain ⟨opk, b₁, hopk, hok⟩ := bind_ok hok
  obtain ⟨_, -, hok⟩ := lift_bind_ok hok
  obtain ⟨_, -, hok⟩ := lift_bind_ok hok
  obtain ⟨_, -, hok⟩ := lift_bind_ok hok
  cases hok
  exact ⟨opk, hopk⟩

/-- No `session_init` brings a prekey back. -/
theorem respondToInit_without (id : Int) (init : List (String × Json)) (keys : Bytes × Bytes) :
    Keeps (Without id) (respondToInit h init keys) :=
  respondToInit_keeps (fun id' _ hb => has_erase_of_not hb id') init keys

/-- A call that returns used up the prekey the message names, if it names
one. -/
theorem respondToInit_ok {init : List (String × Json)} {keys : Bytes × Bytes}
    {b b' : ClientPreKeyBundle} {r : X3DHResult K}
    (hok : respondToInit h init keys b = .ok r b') :
    (Json.get init "opk_id_used" = .null ∧ b' = b) ∨
      ∃ id, (Json.get init "opk_id_used").asKey = .ok (some id) ∧ ¬ Without id b ∧
        Without id b' := by
  simp only [respondToInit, x3dhResponder, map_apply] at hok
  cases hr : x3dhResponderKeyed h keys.1 keys.2 (Json.get init "opk_id_used") none none none b with
  | error e b₁ => rw [hr] at hok; cases hok
  | ok x b₁ =>
      rw [hr] at hok
      cases hok
      obtain ⟨y, hy⟩ := responder_consumed hr
      rcases responderDh4_ok hy with ⟨hnull, -, hb⟩ | ⟨id, opk, k, hid, -, hopk, -, -, rfl⟩
      · exact Or.inl ⟨hnull, hb⟩
      · refine Or.inr ⟨id, hid, fun hno => ?_, has_erase_self _ _⟩
        rw [without_iff.mp hno] at hopk
        cases hopk

/-! ## Runs -/

/-- A start finds a file that lists no prekey already used. -/
def ReloadsUnused (identity : IdentityKeyPair) (σ : Keeper) : KeeperAct → Prop
  | .start _ _ => ∀ v b, σ.file = .json v → deserializeBundlePrivate v identity = .ok b →
      ∀ id ∈ σ.consumed, Without id b
  | .sessionInit _ => True
  | .stop => True

/-- Nobody has started this client yet. -/
def Unstarted (σ : Keeper) : Prop :=
  σ.bundle = none ∧ σ.consumed = []

structure SpentOnce (σ : Keeper) : Prop where
  nodup : σ.consumed.Nodup
  gone : ∀ b, σ.bundle = some b → ∀ id ∈ σ.consumed, Without id b
  unsaved : σ.file = .missing → σ.consumed = [] ∧ σ.bundle = none

/-- What `main` goes on with, and the file it leaves. -/
theorem loadOrGenerate_cases {gen : GeneratedKeys} {io : BundleIo} {file file' : BundleFile}
    {b : ClientPreKeyBundle}
    (hok : loadOrGenerateBundle h identity gen io file = .ok b file') :
    (∃ v, file = .json v ∧ deserializeBundlePrivate v identity = .ok b ∧ file' = file) ∨
      (file = .missing ∧ ∃ v, file' = .json v) := by
  simp only [loadOrGenerateBundle, bind_apply, get_apply] at hok
  cases file with
  | notJson => cases hok
  | json v =>
      obtain ⟨hb, hfile⟩ := ok_of_lift_ok hok
      exact Or.inl ⟨v, rfl, hb, hfile⟩
  | missing =>
      obtain ⟨b₁, -, hok⟩ := lift_bind_ok hok
      obtain ⟨_, file₁, hsave, hok⟩ := bind_ok hok
      cases hok
      refine Or.inr ⟨rfl, ?_⟩
      cases io with
      | fails msg left => cases hsave
      | ok =>
          obtain ⟨_, _, hset, hsave⟩ := bind_ok hsave
          obtain ⟨v, -, hsave⟩ := lift_bind_ok hsave
          cases hsave
          exact ⟨v, rfl⟩

/-- A failed start leaves a file where there was one. -/
theorem loadOrGenerate_error {gen : GeneratedKeys} {io : BundleIo} {file file' : BundleFile}
    {e : Exn} (herr : loadOrGenerateBundle h identity gen io file = .error e file')
    (hfile : file ≠ .missing) : file' = file := by
  simp only [loadOrGenerateBundle, bind_apply, get_apply] at herr
  cases file with
  | missing => exact absurd rfl hfile
  | notJson => cases herr; rfl
  | json v =>
      have hlift : (lift (deserializeBundlePrivate v identity) :
          EStateM Exn BundleFile ClientPreKeyBundle) (.json v) = .error e file' := herr
      cases hd : deserializeBundlePrivate v identity with
      | ok b => rw [hd] at hlift; cases hlift
      | error e' => rw [hd] at hlift; cases hlift; rfl

theorem SpentOnce.start {σ : Keeper} (hσ : SpentOnce σ) (gen : GeneratedKeys) (io : BundleIo)
    (hact : ReloadsUnused identity σ (.start gen io)) :
    SpentOnce (σ.step h identity (.start gen io)) := by
  simp only [Keeper.step]
  cases hb : σ.bundle with
  | some b => exact hσ
  | none =>
      simp only
      cases hload : loadOrGenerateBundle h identity gen io σ.file with
      | ok b file =>
          rcases loadOrGenerate_cases hload with ⟨v, hfile, hdes, rfl⟩ | ⟨hfile, v, rfl⟩
          · refine ⟨hσ.nodup, fun b' hb' => ?_, fun hmissing => ?_⟩
            · cases hb'
              exact hact v b hfile hdes
            · rw [hfile] at hmissing
              cases hmissing
          · have hnone := (hσ.unsaved hfile).1
            refine ⟨hσ.nodup, fun b' _ id hid => ?_, fun hmissing => by cases hmissing⟩
            simp only [hnone] at hid
            cases hid
      | error e file =>
          refine ⟨hσ.nodup, fun b' hb' => ?_, fun hmissing => ?_⟩
          · cases hb'
          · by_cases hfile : σ.file = .missing
            · exact ⟨(hσ.unsaved hfile).1, rfl⟩
            · have hsame := loadOrGenerate_error hload hfile
              simp only [hsame] at hmissing
              exact absurd hmissing hfile

theorem SpentOnce.sessionInit {σ : Keeper} (hσ : SpentOnce σ) (init : List (String × Json)) :
    SpentOnce (σ.step h identity (.sessionInit init)) := by
  simp only [Keeper.step]
  cases hb : σ.bundle with
  | none => exact hσ
  | some b =>
      have hfile : σ.file ≠ .missing := by
        intro hmissing
        have := (hσ.unsaved hmissing).2
        rw [hb] at this
        cases this
      cases hhandling : σ.handling with
      | false => exact hσ
      | true =>
          simp only
          cases hkeys : initKeys init with
          | error e =>
              refine ⟨hσ.nodup, fun b₁ hb₁ => ?_, fun hmissing => absurd hmissing hfile⟩
              cases hb₁
              exact hσ.gone b hb
          | ok keys =>
              simp only
              have hkeep : ∀ id, Without id b → Without id (after (respondToInit h init keys b)) :=
                fun id => respondToInit_without id init keys b
              cases hr : respondToInit h init keys b with
              | error e b' =>
                  rw [hr] at hkeep
                  refine ⟨hσ.nodup, fun b₁ hb₁ id hid => ?_, fun hmissing => absurd hmissing hfile⟩
                  cases hb₁
                  exact hkeep id (hσ.gone b hb id hid)
              | ok r b' =>
                  rw [hr] at hkeep
                  rcases respondToInit_ok hr with ⟨hnull, rfl⟩ | ⟨id, hid, hwas, hgone⟩
                  · rw [hnull]
                    refine ⟨hσ.nodup, fun b₁ hb₁ => ?_, fun hmissing => absurd hmissing hfile⟩
                    cases hb₁
                    exact hσ.gone b' hb
                  · simp only [recordConsumed, hid]
                    refine ⟨?_, fun b₁ hb₁ id' hid' => ?_, fun hmissing => absurd hmissing hfile⟩
                    · exact List.nodup_cons.mpr ⟨fun hmem => hwas (hσ.gone b hb id hmem), hσ.nodup⟩
                    · cases hb₁
                      rcases List.mem_cons.mp hid' with rfl | hid'
                      · exact hgone
                      · exact hkeep id' (hσ.gone b hb id' hid')

theorem SpentOnce.step {σ : Keeper} {act : KeeperAct} (hσ : SpentOnce σ)
    (hact : ReloadsUnused identity σ act) : SpentOnce (σ.step h identity act) := by
  cases act with
  | start gen io => exact hσ.start gen io hact
  | sessionInit init => exact hσ.sessionInit init
  | stop =>
      refine ⟨hσ.nodup, fun b hb => ?_, fun hmissing => ⟨(hσ.unsaved hmissing).1, rfl⟩⟩
      cases hb

/-- Over the life of a bundle, any number of processes and any `session_init`
messages: as long as every start finds a bundle file that lists no one-time
prekey already used, no id is consumed successfully by two `x3dh_responder`
calls. -/
theorem prekeys_consumed_once {σ : Keeper} (hstart : Unstarted σ) {acts : List KeeperAct}
    (hrun : Along (Keeper.step h identity) (ReloadsUnused identity) σ acts) :
    (runFrom (Keeper.step h identity) σ acts).consumed.Nodup := by
  obtain ⟨hbundle, hconsumed⟩ := hstart
  have hσ : SpentOnce σ := by
    refine ⟨?_, fun b hb => ?_, fun _ => ⟨hconsumed, hbundle⟩⟩
    · rw [hconsumed]
      exact List.nodup_nil
    · rw [hbundle] at hb
      cases hb
  exact (hrun.invariant (fun σ act hσ hact => hσ.step hact) hσ).nodup

/-! ## A first start and what follows -/

/-- A `session_init` that names the first one-time prekey. -/
def symInit : List (String × Json) :=
  [("from", .str "bob"), ("identity_dh_pub", .str (b64Encode (symPublicKey 5))),
    ("eph_pub", .str (b64Encode (symPublicKey 6))), ("opk_id_used", .int 1000)]

/-- A start that could not write its file, another one, and two peers that ask
for the same prekey. -/
def symLife : List KeeperAct :=
  [.start symGenerated (.fails "disk full" .missing), .start symGenerated .ok,
    .sessionInit symInit, .sessionInit symInit, .stop]

theorem prekeys_consumed_once_restart :
    (runFrom (Keeper.step symHandshake symIdentity) {} symLife).consumed = [1000] ∧
      (runFrom (Keeper.step symHandshake symIdentity) {} symLife).consumed.Nodup := by
  have hrun : Along (Keeper.step symHandshake symIdentity) (ReloadsUnused symIdentity) {}
      symLife := by
    refine ⟨fun v b hfile hb id hid => ?_, fun v b hfile hb id hid => ?_, trivial, trivial,
      trivial, trivial⟩
    · cases hid
    · cases hfile
  exact ⟨by decide +kernel, prekeys_consumed_once ⟨rfl, rfl⟩ hrun⟩

/-- The file is written when the bundle is made, so a restart brings the
prekeys back, and a message that was answered before is answered again. -/
theorem consumed_again {gen : GeneratedKeys} {b b' : ClientPreKeyBundle}
    (hgen : generatePrekeyBundle h b.identity gen none = .ok b) (hb : Tidy b)
    {init : List (String × Json)} {keys : Bytes × Bytes} (hkeys : initKeys init = .ok keys)
    {r : X3DHResult K} (hresp : respondToInit h init keys b = .ok r b') {id : Int}
    (hid : (Json.get init "opk_id_used").asKey = .ok (some id)) :
    (runFrom (Keeper.step h b.identity) {}
      [.start gen .ok, .sessionInit init, .stop, .start gen .ok, .sessionInit init]).consumed
        = [id, id] := by
  obtain ⟨v, hv, hread⟩ := deserialize_private (h := h) hb
  have hmade : loadOrGenerateBundle h b.identity gen .ok .missing = .ok b (.json v) := by
    simp only [loadOrGenerateBundle, saveBundleToFile, bind_apply, get_apply, hgen, hv, lift_ok]
    rfl
  have hloaded : loadOrGenerateBundle h b.identity gen .ok (.json v) = .ok b (.json v) := by
    simp only [loadOrGenerateBundle, bind_apply, get_apply, hread, lift_ok]
  simp only [runFrom, Keeper.step, hmade, hloaded, hkeys, hresp, recordConsumed, hid]

/-- Restarted after the prekey was used: the file has not heard of it. -/
theorem prekey_consumed_twice :
    ¬ (runFrom (Keeper.step symHandshake symIdentity) {}
      [.start symGenerated .ok, .sessionInit symInit, .stop, .start symGenerated .ok,
        .sessionInit symInit]).consumed.Nodup := by
  obtain ⟨b, hgen, r, b', hresp⟩ : ∃ b,
      generatePrekeyBundle symHandshake symIdentity symGenerated none = .ok b ∧
      ∃ r b', respondToInit symHandshake symInit (symPublicKey 5, symPublicKey 6) b = .ok r b' :=
    ⟨_, rfl, _, _, rfl⟩
  have hkeys : initKeys symInit = .ok (symPublicKey 5, symPublicKey 6) := by decide +kernel
  obtain ⟨hb, hidentity, -, -⟩ := generated_tidy symGenerated_sized symIdentity_signs
    (by rintro k ⟨⟩) (by rintro pq ⟨⟩) hgen
  have hid : (Json.get symInit "opk_id_used").asKey = .ok (some 1000) := rfl
  rw [← hidentity] at hgen
  rw [← hidentity, consumed_again hgen hb hkeys hresp hid]
  decide

end GhostChat.Proofs
