import GhostChat.Proofs.Leaked

/-!
# How long a leak lasts

Whoever has read an engine's memory can go on computing what the engine
computes, for as long as he can compute the DH outputs the engine folds into
its root key. The first one he cannot compute shuts him out of the chain it
opens, and of every chain opened after it (`opens_later_iff`).

A key shows which DH outputs went into it, since each derivation keeps its
inputs (`foldedIn`), so "since the leak" can be read off the key and the root
key that leaked. Both directions are the rule of `Computed.lean` with a
property of terms: one says that the attacker follows, the other that a term
with a missing DH output among its newest ones is out of reach. The messages
are anybody's, the attacker's own among them, and a DH output against his own
public key is one he knows.
-/

namespace GhostChat.Proofs

open GhostChat.Lib GhostChat.Lib.Effect GhostChat.Ref

variable {P C : Type} {c : Crypto SymKey P C} {cap : Nat} {who : Party} {k t : SymKey}

/-- The DH outputs folded into a key, newest first. -/
def foldedIn : SymKey → List SymKey
  | .kdf ikm salt info _ => if info = rootInfo then ikm :: foldedIn salt else foldedIn ikm
  | _ => []

/-- Those of them that the root key `r` does not have yet. -/
def foldedSince (r k : SymKey) : List SymKey :=
  (foldedIn k).take ((foldedIn k).length - (foldedIn r).length)

theorem foldedIn_chain (ck : SymKey) : foldedIn (kdfChain symKeys ck).1 = foldedIn ck ∧
    foldedIn (kdfChain symKeys ck).2 = foldedIn ck :=
  ⟨if_neg (by decide), if_neg (by decide)⟩

theorem foldedIn_initial (r : SymKey) : foldedIn (kdfInitialChain symKeys r) = foldedIn r :=
  if_neg (by decide)

theorem foldedIn_root {r : SymKey} (hr : r.show32.length = 32) (s : SymKey) :
    foldedIn (kdfRoot symKeys r s).1 = s :: foldedIn r ∧
      foldedIn (kdfRoot symKeys r s).2 = s :: foldedIn r := by
  rw [kdfRoot, rootKeyOrSalt_of_length (show (symKeys.bytes r).length = 32 from hr)]
  exact ⟨if_pos rfl, if_pos rfl⟩

/-- A key of an engine: 32 bytes, derived or the root key of the handshake,
and made from DH outputs no newer than the root key's. -/
structure EngineKey (r t : SymKey) : Prop where
  length : t.show32.length = 32
  derived : IsDerived t
  outputs : ∀ s ∈ foldedIn t, ∃ ks, s = .atom (.shared ks)
  older : (foldedIn t).length ≤ (foldedIn r).length

theorem engineKey_rule (hc : FreeTerms c) : KeyRule c fun _ => EngineKey := by
  have h32 : ∀ i s f b, (Term.kdf i s f b : SymKey).show32.length = 32 :=
    fun _ _ _ _ => List.length_replicate
  constructor
  · intro r ck h
    rw [hc.keys]
    obtain ⟨hf₁, hf₂⟩ := foldedIn_chain ck
    exact ⟨⟨h32 _ _ _ _, Or.inr ⟨_, _, _, _, rfl⟩, hf₁ ▸ h.outputs, hf₁ ▸ h.older⟩,
      h32 _ _ _ _, Or.inr ⟨_, _, _, _, rfl⟩, hf₂ ▸ h.outputs, hf₂ ▸ h.older⟩
  · intro r h
    rw [hc.keys]
    have hf := foldedIn_initial r
    exact ⟨h32 _ _ _ _, Or.inr ⟨_, _, _, _, rfl⟩, hf ▸ h.outputs, hf ▸ h.older⟩
  · intro r p X shared hsh h
    rw [hc.keys]
    obtain ⟨hf₁, hf₂⟩ := foldedIn_root h.length shared
    have hout : ∀ s ∈ shared :: foldedIn r, ∃ ks, s = .atom (.shared ks) := by
      intro s hs
      rcases List.mem_cons.mp hs with rfl | hs
      · exact hc.shared p X s hsh
      · exact h.outputs s hs
    refine ⟨⟨h32 _ _ _ _, Or.inr ⟨_, _, _, _, rfl⟩, hf₁ ▸ hout, Nat.le_refl _⟩,
      h32 _ _ _ _, Or.inr ⟨_, _, _, _, rfl⟩, hf₂ ▸ hout, ?_⟩
    rw [hf₁, hf₂]
  · intro _ r p X shared t hsh h ht
    rw [hc.keys]
    refine ⟨ht.length, ht.derived, ht.outputs, ?_⟩
    rw [(foldedIn_root h.length shared).1, List.length_cons]
    exact Nat.le_succ_of_le ht.older

theorem engineKey_start {gen : Party → P} (hc : FreeTerms c) {σ : Pair SymKey P C}
    (hstart : Pair.start c symRoot cap gen = .ok σ) (who : Party) :
    Holds (fun _ => EngineKey) (σ.engine who) := by
  have hroot : EngineKey symRoot symRoot :=
    ⟨List.length_replicate, Or.inl rfl, fun s hs => (by cases hs), Nat.le_refl _⟩
  have hboot : EngineKey symRoot (kdfInitialChain c.toKeyAlg symRoot) :=
    (engineKey_rule hc).initial _ hroot
  rw [start_engine hstart who]
  refine ⟨hroot, fun ck hck => ?_, fun ck hck => ?_, fun e he => by cases he⟩
  · simp only [Option.ite_none_right_eq_some] at hck
    injection hck.2 with hck
    exact hck ▸ hboot
  · simp only [Option.ite_none_left_eq_some] at hck
    injection hck.2 with hck
    exact hck ▸ hboot

/-! ## Following -/

/-- `t` can be computed from what leaked and the DH outputs folded into it
since. -/
structure FollowsLeak (S : Set SymKey) (r₀ r t : SymKey) : Prop where
  key : EngineKey r t
  later : (foldedIn r₀).length ≤ (foldedIn r).length
  computed : Term.Derivable (S ∪ { s | s ∈ foldedSince r₀ t }) t

/-- Every DH output folded in since, folded in since a later key. -/
theorem foldedSince_cons {r₀ r s : SymKey} {t : SymKey}
    (hlater : (foldedIn r₀).length ≤ (foldedIn r).length) (ht : foldedIn t = s :: foldedIn r) :
    foldedSince r₀ t = s :: foldedSince r₀ r := by
  rw [foldedSince, ht, List.length_cons, Nat.succ_sub hlater, List.take_succ_cons, foldedSince]

theorem follows_rule (hc : FreeTerms c) (S : Set SymKey) (r₀ : SymKey) :
    KeyRule c fun _ => FollowsLeak S r₀ := by
  have hE := engineKey_rule hc
  constructor
  · intro r ck h
    obtain ⟨hk₁, hk₂⟩ := hE.chain r ck h.key
    rw [hc.keys] at hk₁ hk₂ ⊢
    obtain ⟨hf₁, hf₂⟩ := foldedIn_chain ck
    refine ⟨⟨hk₁, h.later, ?_⟩, hk₂, h.later, ?_⟩
    · rw [foldedSince, hf₁]
      exact .kdf _ _ h.computed (.lit _)
    · rw [foldedSince, hf₂]
      exact .kdf _ _ h.computed (.lit _)
  · intro r h
    have hk := hE.initial r h.key
    rw [hc.keys] at hk ⊢
    refine ⟨hk, h.later, ?_⟩
    rw [foldedSince, foldedIn_initial]
    exact .kdf _ _ h.computed (.lit _)
  · intro r p X shared hsh h
    obtain ⟨hk₁, hk₂⟩ := hE.root r p X shared hsh h.key
    rw [hc.keys] at hk₁ hk₂ ⊢
    obtain ⟨hf₁, hf₂⟩ := foldedIn_root h.key.length shared
    have hlater : (foldedIn r₀).length ≤ (foldedIn (kdfRoot symKeys r shared).1).length := by
      rw [hf₁, List.length_cons]
      exact Nat.le_succ_of_le h.later
    -- The root before is computed from fewer of them.
    have hr : ∀ t, foldedIn t = shared :: foldedIn r → ∀ b,
        Term.Derivable (S ∪ { s | s ∈ foldedSince r₀ t }) (.kdf shared r rootInfo b) := by
      intro t ht b
      rw [foldedSince_cons h.later ht]
      refine .kdf _ _ (.known (Or.inr List.mem_cons_self)) (h.computed.mono ?_)
      exact Set.union_subset_union_right S fun s hs => List.mem_cons_of_mem _ hs
    have hsalt : rootKeyOrSalt symKeys r = r :=
      rootKeyOrSalt_of_length (show (symKeys.bytes r).length = 32 from h.key.length)
    refine ⟨⟨hk₁, hlater, ?_⟩, hk₂, hlater, ?_⟩
    · have h₁ := hr _ hf₁ 0
      rw [kdfRoot, hsalt] at h₁ ⊢
      exact h₁
    · have h₂ := hr _ hf₂ 1
      rw [kdfRoot, hsalt] at h₂ ⊢
      exact h₂
  · intro _ r p X shared t hsh h ht
    refine ⟨hE.later .message r p X shared t hsh h.key ht.key, ?_, ht.computed⟩
    rw [hc.keys, (foldedIn_root h.key.length shared).1, List.length_cons]
    exact Nat.le_succ_of_le h.later

/-! ## Being shut out -/

/-- A DH output the attacker does not know. -/
def Unknown (known : Set (Bytes × Bytes)) (s : SymKey) : Prop :=
  ∃ ks, s = .atom (.shared ks) ∧ ks ∉ known

/-- Such DH outputs, and what has one of them among its newest. -/
theorem shutOut_sheltered (r₀ : SymKey) (known : Set (Bytes × Bytes)) :
    Term.Sheltered { t | Unknown known t ∨ ∃ s ∈ foldedSince r₀ t, Unknown known s } where
  lit := by
    intro b h
    rcases h with ⟨ks, h, -⟩ | ⟨s, hs, -⟩
    · cases h
    · simp [foldedSince, foldedIn] at hs
  cat := by
    intro x y h
    rcases h with ⟨ks, h, -⟩ | ⟨s, hs, -⟩
    · cases h
    · simp [foldedSince, foldedIn] at hs
  parent := by
    intro i s f b h
    rcases h with ⟨ks, h, -⟩ | ⟨x, hx, hun⟩
    · cases h
    · by_cases hf : f = rootInfo
      · have hfold : foldedIn (.kdf i s f b) = i :: foldedIn s := if_pos hf
        rw [foldedSince, hfold] at hx
        by_cases hlater : (foldedIn r₀).length ≤ (foldedIn s).length
        · rw [List.length_cons, Nat.succ_sub hlater, List.take_succ_cons] at hx
          rcases List.mem_cons.mp hx with rfl | hx
          · exact Or.inl (Or.inl hun)
          · exact Or.inr (Or.inr ⟨x, hx, hun⟩)
        · rw [List.length_cons, Nat.sub_eq_zero_of_le (by omega)] at hx
          cases hx
      · have hfold : foldedIn (.kdf i s f b) = foldedIn i := if_neg hf
        rw [foldedSince, hfold] at hx
        exact Or.inl (Or.inr ⟨x, hx, hun⟩)

/-- The attacker holds none of that when the state leaks. -/
theorem shutOut_avoids {s : DoubleRatchetState SymKey P} (h : Holds (fun _ => EngineKey) s)
    (known : Set (Bytes × Bytes)) : ∀ u ∈ leaked s known, ∀ v ∈ u.parts,
      v ∉ { t | Unknown known t ∨ ∃ x ∈ foldedSince s.rootKey t, Unknown known x } := by
  intro u hu v hv hout
  rcases hu with hu | ⟨ks, hks, rfl⟩
  · have hkey := holds_iff_held.mp h u hu
    rw [Term.parts_of_not_cat hkey.derived.ne_cat] at hv
    rw [show v = u from hv] at hout
    rcases hout with ⟨ks, he, -⟩ | ⟨x, hx, -⟩
    · exact hkey.derived.ne_shared ks he
    · rw [foldedSince, Nat.sub_eq_zero_of_le hkey.older] at hx
      cases hx
  · rw [show v = .atom (.shared ks) from hv] at hout
    rcases hout with ⟨ks', he, hnot⟩ | ⟨x, hx, -⟩
    · injection he with he
      injection he with he
      exact hnot (he ▸ hks)
    · simp [foldedSince, foldedIn] at hx

/-! ## Both ways -/

/-- The keys `who` has used on the way from `σ` to `σ'`. -/
def usedSince (who : Party) (σ σ' : Pair SymKey P C) : List SymKey :=
  usedKeys who (σ'.log.take (σ'.log.length - σ.log.length))

/-- An engine's memory leaks at some point of a run, and the attacker knows
some DH outputs besides, of the past and of the future. Over every
continuation of the run, under any messages: a key the engine uses after the
leak can be computed exactly if all the DH outputs folded into it since are
among those he knows. -/
theorem opens_later_iff (hc : FreeTerms c) {gen : Party → P} {σ : Pair SymKey P C}
    (hstart : Pair.start c symRoot cap gen = .ok σ) (before later : List (Act P C))
    (known : Set (Bytes × Bytes))
    (hk : k ∈ usedSince who (σ.run c before) ((σ.run c before).run c later)) :
    Term.Derivable (leaked ((σ.run c before).engine who) known) k ↔
      ∀ s ∈ foldedSince ((σ.run c before).engine who).rootKey k, s ∈ dhOutputs known := by
  have hleak : Holds (fun _ => EngineKey) ((σ.run c before).engine who) :=
    (Tracks.run (engineKey_rule hc) (engineKey_start hc hstart who) before).holds
  have hstart' : Holds (fun _ => FollowsLeak (heldKeys ((σ.run c before).engine who))
      ((σ.run c before).engine who).rootKey) ((σ.run c before).engine who) :=
    holds_iff_held.mpr fun t ht =>
      ⟨holds_iff_held.mp hleak t ht, Nat.le_refl _, .known (Or.inl ht)⟩
  obtain ⟨new, hnew, hused⟩ := (Tracks.run (follows_rule hc _ _) hstart' later).used
  have hfollow : FollowsLeak (heldKeys ((σ.run c before).engine who))
      ((σ.run c before).engine who).rootKey
      (((σ.run c before).run c later).engine who).rootKey k := by
    rw [usedSince, hnew, List.length_append, Nat.add_sub_cancel, List.take_left] at hk
    obtain ⟨e, he, hke⟩ := List.mem_filterMap.mp hk
    exact hused e he k hke
  constructor
  · intro hder s hs
    obtain ⟨ks, rfl⟩ := hfollow.key.outputs s (List.mem_of_mem_take hs)
    by_contra hnot
    refine (shutOut_sheltered _ known).not_derivable (shutOut_avoids hleak known)
      (Or.inr ⟨_, hs, ks, rfl, fun hks => ?_⟩) hder
    exact hnot ⟨ks, hks, rfl⟩
  · intro hall
    refine hfollow.computed.mono ?_
    exact Set.union_subset_union_right _ fun s hs => hall s hs

/-- The DH output of two of the generated keys. -/
def symShared (p q : Nat) : SymKey :=
  .atom (.shared (unordered (symPublicKey p) (symPublicKey q)))

/-- What follows `oneAnswer`: the initiator writes, is answered and writes
again. -/
def nextRound : List (Act Nat Box) := script ((symPair 1000).run symbolic oneAnswer) [
  fun _ => .encrypt .initiator [30], relay .responder 2 5 id,
  fun _ => .encrypt .responder [40], relay .initiator 3 6 id,
  fun _ => .encrypt .initiator [50]]

/-- The initiator's memory leaks after the first answer, its DH private key
with it, which opens two more DH outputs. The next answer can still be read.
The message after that cannot. -/
theorem opens_later_iff_nextRound :
    Term.Derivable (leaked (((symPair 1000).run symbolic oneAnswer).engine .initiator)
        { ks | symShared 4 2 = .atom (.shared ks) ∨ symShared 5 4 = .atom (.shared ks) })
      (msgKey symKeys symRoot [symShared 5 4, symShared 4 2, symShared 1 2] 0) ∧
    ¬ Term.Derivable (leaked (((symPair 1000).run symbolic oneAnswer).engine .initiator)
        { ks | symShared 4 2 = .atom (.shared ks) ∨ symShared 5 4 = .atom (.shared ks) })
      (msgKey symKeys symRoot [symShared 6 5, symShared 5 4, symShared 4 2, symShared 1 2] 0) := by
  constructor
  · refine (opens_later_iff symbolic_freeTerms (symPair_start 1000) oneAnswer nextRound _
      (by decide +kernel)).mpr ?_
    have hsince : foldedSince (((symPair 1000).run symbolic oneAnswer).engine .initiator).rootKey
        (msgKey symKeys symRoot [symShared 5 4, symShared 4 2, symShared 1 2] 0)
        = [symShared 5 4, symShared 4 2] := by decide +kernel
    intro s hs
    rw [hsince] at hs
    rcases List.mem_cons.mp hs with rfl | hs
    · exact ⟨_, Or.inr rfl, rfl⟩
    · rw [List.mem_singleton.mp hs]
      exact ⟨_, Or.inl rfl, rfl⟩
  · intro h
    have hall := (opens_later_iff symbolic_freeTerms (symPair_start 1000) oneAnswer nextRound _
      (by decide +kernel)).mp h
    obtain ⟨ks, hks, he⟩ := hall (symShared 6 5) (by decide +kernel)
    have hknown : symShared 4 2 = symShared 6 5 ∨ symShared 5 4 = symShared 6 5 := by
      rw [he]
      exact hks
    exact absurd hknown (by decide +kernel)

end GhostChat.Proofs
