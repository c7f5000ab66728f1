import GhostChat.Proofs.Healed

/-!
# One forged header

A message with a ratchet key the engine has not seen makes it fold a DH output
into its root key before anything about the message is authenticated. The
message then fails to open, and the root key stays where it is. What becomes of
the session is settled by the DH output: every chain key the engine has from
then on comes after it, so every key it uses does, but for the message keys it
had already put aside. The peer computes that output with none of its keys, so
no key of the peer comes after it.

So the two sides never use one key again (`severed_by_header`). Whatever is
delivered later, in whatever order and by whomever: neither side opens another
message of the other, except those whose keys were in the store when the header
came.
-/

namespace GhostChat.Proofs

open GhostChat.Lib GhostChat.Lib.Effect GhostChat.Ref

variable {P C : Type} {c : Crypto SymKey P C} {cap : Nat} {who : Party} {k x : SymKey}
  {s : DoubleRatchetState SymKey P} {msg : RatchetWireMessage C} {kept : Set SymKey}

/-- The message makes the engine turn its ratchet and fold in `x`: no check
refuses it, its key is not in the store, its ratchet key is a new one. -/
structure TurnedOn (c : Crypto SymKey P C) (s : DoubleRatchetState SymKey P)
    (msg : RatchetWireMessage C) (x : SymKey) : Prop where
  passes : ¬ Refused s msg
  unfiled : s.skippedMessageKeys.has msg.header.dh msg.header.n.toNat = false
  new : (s.dhr = none ∧ s.sendingChainKey.isSome) ∨
    ∃ d, s.dhr = some d ∧ d ≠ msg.header.dh
  output : dhWith c s.dhsPrivate msg.header.dh = .ok x

/-! ## The engine that took the header -/

/-- Root and chain keys come after `x`; a message key does, or it is one of
those kept from before. -/
def After (x : SymKey) (kept : Set SymKey) : KeyKind → SymKey → SymKey → Prop
  | .root, _, t => t.show32.length = 32 ∧ x ∈ foldedIn t
  | .chain, _, t => x ∈ foldedIn t
  | .message, _, t => t ∈ kept ∨ x ∈ foldedIn t

theorem after_rule (hc : FreeTerms c) (x : SymKey) (kept : Set SymKey) :
    KeyRule c (After x kept) := by
  constructor
  · intro r ck h
    rw [hc.keys]
    obtain ⟨hf₁, hf₂⟩ := foldedIn_chain ck
    exact ⟨show x ∈ foldedIn _ from hf₁ ▸ h, Or.inr (hf₂ ▸ h)⟩
  · intro r h
    rw [hc.keys]
    show x ∈ foldedIn _
    rw [foldedIn_initial]
    exact h.2
  · intro r p X shared hsh h
    rw [hc.keys]
    obtain ⟨hf₁, hf₂⟩ := foldedIn_root h.1 shared
    refine ⟨⟨List.length_replicate, ?_⟩, ?_⟩
    · rw [hf₁]
      exact List.mem_cons_of_mem _ h.2
    · show x ∈ foldedIn _
      rw [hf₂]
      exact List.mem_cons_of_mem _ h.2
  · intro kind r p X shared t hsh h ht
    cases kind <;> exact ht

/-- The call that takes the header folds `x` in, and whatever comes of it, all
that is left of before is the store. -/
theorem TurnedOn.computes (hc : FreeTerms c) (h : TurnedOn c s msg x)
    (hs : Holds (fun _ => EngineKey) s) (g : P) :
    Computes (After x { t | ∃ e ∈ s.skippedMessageKeys.store, e.2 = t })
      (ratchetDecryptKeyed c msg g s) := by
  rw [decrypt_chain h.passes h.unfiled, ensureReceivingChain_turn h.new,
    dhRatchetReceive_done h.output]
  refine Holds.decryptOnChain (after_rule hc x _) ?_
  obtain ⟨hf₁, hf₂⟩ := foldedIn_root hs.root.length x
  rw [hc.keys]
  refine ⟨⟨List.length_replicate, ?_⟩, fun ck hck => ?_, fun ck hck => ?_, fun e he => ?_⟩
  · show x ∈ foldedIn _
    rw [hf₁]
    exact List.mem_cons_self
  · cases hck
  · injection hck with hck
    rw [← hck]
    show x ∈ foldedIn _
    rw [hf₂]
    exact List.mem_cons_self
  · exact Or.inl ⟨e, he, rfl⟩

/-- What it uses from that call on. -/
theorem TurnedOn.used (hc : FreeTerms c) {σ : Pair SymKey P C} (h : TurnedOn c (σ.engine who) msg x)
    (hs : Holds (fun _ => EngineKey) (σ.engine who)) (g : P) (later : List (Act P C))
    (hk : k ∈ usedSince who σ ((σ.step c (.decrypt who msg g)).run c later)) :
    (∃ e ∈ (σ.engine who).skippedMessageKeys.store, e.2 = k) ∨ x ∈ foldedIn k := by
  have hcomp := h.computes hc hs g
  have hstep : Tracks (After x { t | ∃ e ∈ (σ.engine who).skippedMessageKeys.store, e.2 = t })
      who σ.log (σ.step c (.decrypt who msg g)) := by
    cases hr : ratchetDecryptKeyed c msg g (σ.engine who) with
    | error e s =>
        rw [hr] at hcomp
        simp only [Pair.step, hr]
        refine ⟨?_, [], rfl, fun e he => by cases he⟩
        show Holds _ (Function.update σ.engine who s who)
        rw [Function.update_self]
        exact hcomp
    | ok p s =>
        rw [hr] at hcomp
        simp only [Pair.step, hr]
        refine ⟨?_, [_], rfl, fun e he k hk => ?_⟩
        · simpa only [Function.update_self] using hcomp.1
        · rw [List.mem_singleton.mp he] at hk
          simp only [keyUsedBy, if_true, Option.some.injEq] at hk
          simpa only [Function.update_self, hk] using hcomp.2
  have hrun : Tracks _ who σ.log ((σ.step c (.decrypt who msg g)).run c later) :=
    runFrom_invariant (I := Tracks _ who σ.log)
      (fun _ act ht => Tracks.step (after_rule hc x _) ht act) hstep later
  obtain ⟨new, hnew, hused⟩ := hrun.used
  rw [usedSince, hnew, List.length_append, Nat.add_sub_cancel, List.take_left] at hk
  obtain ⟨e, he, hke⟩ := List.mem_filterMap.mp hk
  exact hused e he k hke

/-! ## The peer -/

theorem foldedIn_rootAfter (l : List SymKey) : foldedIn (rootAfter symKeys symRoot l) = l := by
  induction l with
  | nil => rfl
  | cons s l ih =>
      rw [rootAfter_cons, show foldedIn (.kdf s (rootAfter symKeys symRoot l) rootInfo 0)
        = s :: foldedIn (rootAfter symKeys symRoot l) from if_pos rfl, ih]

theorem foldedIn_msgKey (l : List SymKey) (j : Nat) :
    foldedIn (msgKey symKeys symRoot l j) = l := by
  have hchain : foldedIn (chainKey symKeys symRoot l j) = l := by
    induction j with
    | zero =>
        cases l with
        | nil => exact foldedIn_initial symRoot
        | cons s l =>
            show foldedIn (chainHead symKeys symRoot (s :: l)) = s :: l
            rw [chainHead_cons, show foldedIn (.kdf s (rootAfter symKeys symRoot l) rootInfo 1)
              = s :: foldedIn (rootAfter symKeys symRoot l) from if_pos rfl, foldedIn_rootAfter]
    | succ j ih =>
        rw [chainKey_succ, (foldedIn_chain _).1]
        exact ih
  rw [msgKey, (foldedIn_chain _).2]
  exact hchain

/-- A DH output in a key a party has used was computed by it, with a private
key it was handed. -/
theorem Ledger.computed (hc : c.toKeyAlg = symKeys) {boot : Bool} {mine : List Bytes}
    {path : List (RootStep SymKey P)} {sent : List (Bytes × SymKey)} {got : List SymKey}
    (h : Ledger c symRoot cap boot mine path sent got s) (hk : k ∈ sent.map (·.2) ∨ k ∈ got)
    (hx : x ∈ foldedIn k) :
    ∃ q Z, c.publicKey q ∈ mine ∧ c.sharedKey q Z = some x := by
  have hchain : ∃ dir l j, IsChain boot dir path l ∧ k = msgKey c.toKeyAlg symRoot l j := by
    rcases hk with hk | hk
    · exact ⟨true, h.send.known k hk⟩
    · exact ⟨false, h.recv.known k hk⟩
  obtain ⟨dir, l, j, hl, rfl⟩ := hchain
  rw [hc, foldedIn_msgKey] at hx
  obtain ⟨st, hst, rfl⟩ := List.mem_map.mp (hl.suffix.subset hx)
  obtain ⟨newer, older, hpath⟩ := List.append_of_mem hst
  obtain ⟨hsh, hmine, -⟩ := h.dh.steps st older (hpath ▸ List.suffix_append newer (st :: older))
  exact ⟨st.priv, st.remote, hmine, hsh⟩

/-! ## Both -/

/-- Keys that were handed out stay so. -/
theorem run_append (σ : Pair SymKey P C) (acts acts' : List (Act P C)) :
    σ.run c (acts ++ acts') = (σ.run c acts).run c acts' :=
  runFrom_append σ acts acts'

theorem handed_subset (σ : Pair SymKey P C) (acts : List (Act P C)) (y : Party) :
    σ.handed y ⊆ (σ.run c acts).handed y := by
  induction acts generalizing σ with
  | nil => exact List.Subset.refl _
  | cons act acts ih =>
      refine List.Subset.trans ?_ (ih (σ.step c act))
      cases act with
      | encrypt z pt =>
          simp only [Pair.step]
          split <;> exact List.Subset.refl _
      | decrypt z msg g =>
          have hsub : σ.handed y ⊆ Function.update σ.handed z (g :: σ.handed z) y := by
            by_cases hy : y = z
            · subst hy
              rw [Function.update_self]
              exact List.subset_cons_self _ _
            · rw [Function.update_of_ne hy]
              exact List.Subset.refl _
          simp only [Pair.step]
          split <;> exact hsub

/-- An engine turns its ratchet on a header whose key is none of its peer's,
before or later. In every continuation of the run, under any messages: a key
it uses from then on and the peer ever uses was in its store before. -/
theorem severed_by_header (hc : FreeTerms c) (hdh : DhInjective c) {gen : Party → P}
    (hgen : c.publicKey (gen .initiator) ≠ c.publicKey (gen .responder))
    {σ : Pair SymKey P C} (hstart : Pair.start c symRoot cap gen = .ok σ)
    {before later : List (Act P C)} {g : P}
    (hfresh : Along (Pair.step c) (FreshKeys c) σ (before ++ .decrypt who msg g :: later))
    (hturn : TurnedOn c ((σ.run c before).engine who) msg x)
    (hforged : ∀ q ∈ (σ.run c (before ++ .decrypt who msg g :: later)).handed who.other,
      msg.header.dh ≠ c.publicKey q)
    (hused : k ∈ usedSince who (σ.run c before)
      (σ.run c (before ++ .decrypt who msg g :: later)))
    (hpeer : k ∈ usedKeys who.other (σ.run c (before ++ .decrypt who msg g :: later)).log) :
    ∃ e ∈ ((σ.run c before).engine who).skippedMessageKeys.store, e.2 = k := by
  have hgood : GoodKdf c.toKeyAlg symRoot := by
    rw [hc.keys]
    exact symbolic_good
  have hbefore : Holds (fun _ => EngineKey) ((σ.run c before).engine who) :=
    (Tracks.run (engineKey_rule hc) (engineKey_start hc hstart who) before).holds
  have hend := PairBooks.run hgood hgen hstart hfresh
  rw [run_append] at hused
  rcases hturn.used hc hbefore g later hused with hstored | hafter
  · exact hstored
  · -- The peer would have computed `x`, against the header's key or with its own.
    exfalso
    obtain ⟨path, hledger⟩ := hend.books who.other
    obtain ⟨q, Z, hq, hsh⟩ := hledger.computed hc.keys (mem_usedKeys hpeer) hafter
    obtain ⟨q', hq', hpub⟩ := List.mem_map.mp hq
    obtain ⟨p, hp, hsh'⟩ := dhWith_ok hturn.output
    rcases hdh _ _ _ _ _ hsh' hsh with ⟨hsame, -⟩ | ⟨hother, -⟩
    · obtain ⟨path', hledger'⟩ := (PairBooks.run hgood hgen hstart hfresh.split.1).books who
      obtain ⟨p', hp', hmine⟩ := hledger'.dh.own
      obtain rfl : p = p' := Option.some.inj (hp.symm.trans hp')
      obtain ⟨p₀, hp₀, hpub₀⟩ := List.mem_map.mp hmine
      have hp₀' : p₀ ∈ (σ.run c (before ++ .decrypt who msg g :: later)).handed who := by
        rw [run_append]
        exact handed_subset (σ.run c before) (.decrypt who msg g :: later) who hp₀
      have heq : c.publicKey p₀ = c.publicKey q' := hpub₀.trans (hsame.trans hpub.symm)
      cases who with
      | initiator => exact hend.apart p₀ hp₀' q' hq' heq
      | responder => exact hend.apart q' hq' p₀ hp₀' heq.symm
    · exact hforged q' hq' (hother.trans hpub.symm)

/-- The responder answers twice, and the initiator has read the second answer
only. -/
def lateAnswer : List (Act Nat Box) := script (symPair 1000) [
  fun _ => .encrypt .initiator [10], relay .responder 0 3 id,
  fun _ => .encrypt .responder [20], fun _ => .encrypt .responder [21],
  relay .initiator 2 4 id]

def forgedHeader : RatchetWireMessage Box where
  header := { dh := symPublicKey 77, n := 0, pn := 0 }
  ciphertext := ⟨symRoot, [], [], []⟩
  nonce := List.replicate 12 0

/-- The first answer comes late, and the responder writes again. -/
def afterForgery : List (Act Nat Box) :=
  script (((symPair 1000).run symbolic lateAnswer).step symbolic
    (.decrypt .initiator forgedHeader 5)) [
    relay .initiator 1 6 id, fun _ => .encrypt .responder [22], relay .initiator 3 7 id]

/-- The header comes between. The late answer is opened with the key that was
put aside for it, and the third is not. -/
theorem severed_by_header_lateAnswer :
    (∃ e ∈ (((symPair 1000).run symbolic lateAnswer).engine .initiator).skippedMessageKeys.store,
      e.2 = msgKey symKeys symRoot [symShared 1 2] 0) ∧
    msgKey symKeys symRoot [symShared 1 2] 2 ∉ usedSince .initiator
      ((symPair 1000).run symbolic lateAnswer) ((symPair 1000).run symbolic
        (lateAnswer ++ .decrypt .initiator forgedHeader 5 :: afterForgery)) := by
  have hturn : TurnedOn symbolic (((symPair 1000).run symbolic lateAnswer).engine .initiator)
      forgedHeader (.atom (.shared (unordered (symPublicKey 4) (symPublicKey 77)))) := by
    refine ⟨?_, by decide +kernel, Or.inr ⟨symPublicKey 2, by decide +kernel, by decide⟩,
      by decide +kernel⟩
    rintro (⟨e, he⟩ | hgot | hold)
    · cases he
    · revert hgot
      decide +kernel
    · revert hold
      decide +kernel
  have hsevered : ∀ {k}, k ∈ usedSince .initiator ((symPair 1000).run symbolic lateAnswer)
        ((symPair 1000).run symbolic
          (lateAnswer ++ .decrypt .initiator forgedHeader 5 :: afterForgery)) →
      k ∈ usedKeys .responder ((symPair 1000).run symbolic
        (lateAnswer ++ .decrypt .initiator forgedHeader 5 :: afterForgery)).log →
      ∃ e ∈ (((symPair 1000).run symbolic lateAnswer).engine .initiator).skippedMessageKeys.store,
        e.2 = k := fun hused hpeer =>
    severed_by_header symbolic_freeTerms symbolic_dhInjective (by decide) (symPair_start 1000)
      (by decide +kernel) hturn (by decide +kernel) hused hpeer
  refine ⟨hsevered (by decide +kernel) (by decide +kernel), fun hused => ?_⟩
  obtain ⟨e, he, hkey⟩ := hsevered hused (by decide +kernel)
  revert hkey he
  have hnone : ∀ e ∈ (((symPair 1000).run symbolic lateAnswer).engine
      .initiator).skippedMessageKeys.store,
        e.2 ≠ msgKey symKeys symRoot [symShared 1 2] 2 := by decide +kernel
  exact fun he hkey => hnone e he hkey

end GhostChat.Proofs
