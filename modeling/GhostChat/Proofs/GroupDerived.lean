import GhostChat.Proofs.GroupNonces
import GhostChat.Ref.GroupVerification

/-!
# What a group has derived is up to date

A state caches the inner nodes of its tree, the epoch secret, the application
key and a hash. `Scheduled` says that all of them are a function of the leaf
secrets, the epoch and the members; what is left here is to read the source's
own checks off it: every inner node from its children, the two hash functions
against each other, and what replicas with the same inputs tell each other.

`EpochManager` has one record for each epoch and is written at every state, so
it matters that no two states of a replica have the same epoch.
-/

namespace GhostChat.Proofs

open GhostChat.Lib GhostChat.Lib.Effect GhostChat.Ref

variable {K : Type} {a : KeyAlg K} {raw : Nat → K} {st st' : GroupState K}
  {ops : List (GroupOp K)} {sts : List (GroupState K)}

/-- Everything cached is what would be derived now. -/
structure Derived (a : KeyAlg K) (st : GroupState K) : Prop where
  nodes : ∀ i, 2 * i + 2 < st.tree.nodeSecrets.length → ∃ left right,
    st.tree.nodeSecrets[2 * i + 1]? = some (some left) ∧
    st.tree.nodeSecrets[2 * i + 2]? = some (some right) ∧
    st.tree.nodeSecrets[i]? = some (some (deriveInternalNodeSecret a left right i))
  secrets : ∃ root es, st.tree.rootSecret = some root ∧
    deriveEpochSecret a root st.epoch st.groupId = .ok es ∧
    st.groupSecret = some es ∧ st.applicationKey = some (deriveApplicationKey a es)
  hash : ∃ root h, st.tree.rootSecret = some root ∧
    deriveGroupHash a st.groupId st.epoch (Odict.keys st.members) root = .ok h ∧
    st.groupHash = some h ∧ st.computeGroupHash a = .ok h

theorem treeOf_nodes {i : Nat} (hi : 2 * i + 2 < (treeOf a raw).nodeSecrets.length) :
    ∃ left right, (treeOf a raw).nodeSecrets[2 * i + 1]? = some (some left) ∧
      (treeOf a raw).nodeSecrets[2 * i + 2]? = some (some right) ∧
      (treeOf a raw).nodeSecrets[i]? = some (some (deriveInternalNodeSecret a left right i)) := by
  have hlength : (treeOf a raw).nodeSecrets.length = 7 := rfl
  have hinner : i < 3 := by omega
  interval_cases i
  · exact ⟨leftNode a raw, rightNode a raw, rfl, rfl, rfl⟩
  · exact ⟨leafNode a raw 0, leafNode a raw 1, rfl, rfl, rfl⟩
  · exact ⟨leafNode a raw 2, leafNode a raw 3, rfl, rfl, rfl⟩

/-- The two hash functions are one where the tree has a root. -/
theorem computeGroupHash_eq {root : K} (h : st.tree.rootSecret = some root) :
    st.computeGroupHash a
      = deriveGroupHash a st.groupId st.epoch (Odict.keys st.members) root := by
  rw [GroupState.computeGroupHash, deriveGroupHash, h]

theorem Scheduled.derived (h : Scheduled a raw st) : Derived a st := by
  have hroot : st.tree.rootSecret = some (rootOf a raw) := by
    rw [h.tree]
    rfl
  obtain ⟨es, hes, hsecret, hkey⟩ := h.secret
  obtain ⟨gh, hgh, hhash⟩ := h.hash
  refine ⟨?_, ⟨_, es, hroot, hes, hsecret, hkey⟩,
    ⟨_, gh, hroot, hgh, hhash, (computeGroupHash_eq hroot).trans hgh⟩⟩
  rw [h.tree]
  intro i hi
  exact treeOf_nodes hi

/-! ## The states of a replica -/

theorem states_scheduled (hst : ∃ raw, Scheduled a raw st)
    (h : GroupState.states a st ops = .ok sts) {n : Nat} (hn : sts[n]? = some st') :
    (∃ raw, Scheduled a raw st') ∧ st'.epoch = st.epoch + n := by
  induction ops generalizing st sts n with
  | nil =>
      cases h
      cases n with
      | zero => cases hn; exact ⟨hst, rfl⟩
      | succ n => cases hn
  | cons op ops ih =>
      rw [GroupState.states] at h
      cases hcall : st.call a op with
      | error e st₁ => rw [hcall] at h; cases h
      | ok u st₁ =>
          rw [hcall] at h
          obtain ⟨rest, hrest, h⟩ := except_bind_ok h
          cases h
          obtain ⟨raw, hraw⟩ := hst
          cases n with
          | zero => cases hn; exact ⟨⟨raw, hraw⟩, rfl⟩
          | succ n =>
              obtain ⟨l, -, -, hnext, -, hepoch⟩ := call_ok hraw hcall
              obtain ⟨hsched, hlater⟩ := ih ⟨_, hnext⟩ hrest hn
              exact ⟨hsched, by omega⟩

/-- No two of them have one epoch. -/
theorem states_epochs_nodup (hst : ∃ raw, Scheduled a raw st)
    (h : GroupState.states a st ops = .ok sts) : (sts.map (·.epoch)).Nodup := by
  rw [List.nodup_iff_getElem?_ne_getElem?]
  intro i j hij hj heq
  rw [List.length_map] at hj
  have hi : i < sts.length := by omega
  rw [List.getElem?_map, List.getElem?_map, List.getElem?_eq_getElem hi,
    List.getElem?_eq_getElem hj] at heq
  have hepoch : sts[i].epoch = sts[j].epoch := Option.some.inj heq
  have hfst := (states_scheduled hst h (List.getElem?_eq_getElem hi)).2
  have hsnd := (states_scheduled hst h (List.getElem?_eq_getElem hj)).2
  omega

/-! ## What replicas tell each other -/

theorem summaryMatches_refl (a : KeyAlg K) (s : GroupStateSummary K) :
    summaryMatches a s s = true := by
  simp [summaryMatches]

theorem verifyConsistency_same (a : KeyAlg K) {summary : GroupStateSummary K}
    (h : summarizeState st = .ok summary) {remotes : List (GroupStateSummary K)}
    (hremotes : ∀ remote ∈ remotes, remote = summary) {previousEpoch : Option Nat}
    (hprevious : ∀ e ∈ previousEpoch, e ≤ st.epoch) :
    verifyConsistency a st remotes previousEpoch = .ok true := by
  have hepoch : summary.epoch = st.epoch := by
    rw [summarizeState] at h
    split at h
    · cases h
    · cases h
      rfl
  have hmonotone : previousEpoch.any (summary.epoch < ·) = false := by
    cases previousEpoch with
    | none => rfl
    | some e =>
        have := hprevious e rfl
        simp only [Option.any_some, decide_eq_false_iff_not]
        omega
  have hall : remotes.all (summaryMatches a summary) = true := by
    rw [List.all_eq_true]
    intro remote hremote
    rw [hremotes remote hremote]
    exact summaryMatches_refl a summary
  simp only [verifyConsistency, h, except_ok_bind, hmonotone, hall]
  rfl

/-- A manager that is shown states of different epochs has the hash of each. -/
theorem record_all : ∀ (sts : List (GroupState K)) (manager : EpochManager K),
    (∀ st ∈ sts, ∃ h, st.computeGroupHash a = .ok h) → (sts.map (·.epoch)).Nodup →
    ∃ manager', sts.foldlM (EpochManager.record a) manager = .ok manager' ∧
      (∀ st ∈ sts, ∃ h, st.computeGroupHash a = .ok h ∧
        Odict.get? manager'.history st.epoch = some ⟨st.epoch, h⟩) ∧
      ∀ e, e ∉ sts.map (·.epoch) →
        Odict.get? manager'.history e = Odict.get? manager.history e
  | [], manager, _, _ => ⟨manager, rfl, nofun, fun _ _ => rfl⟩
  | st :: sts, manager, hhash, hnodup => by
      obtain ⟨gh, hgh⟩ := hhash st List.mem_cons_self
      obtain ⟨hnot, hrest⟩ := List.nodup_cons.mp hnodup
      have hrecord : EpochManager.record a manager st
          = .ok { history := Odict.set manager.history st.epoch ⟨st.epoch, gh⟩ } := by
        rw [EpochManager.record, hgh]
        rfl
      obtain ⟨manager', hfold, hall, hothers⟩ := record_all sts _
        (fun st' hst' => hhash st' (List.mem_cons_of_mem _ hst')) hrest
      refine ⟨manager', ?_, ?_, ?_⟩
      · rw [List.foldlM_cons, hrecord]
        exact hfold
      · intro st' hst'
        rcases List.mem_cons.mp hst' with rfl | hst'
        · refine ⟨gh, hgh, ?_⟩
          rw [hothers _ hnot]
          exact Odict.get?_set_self _ _ _
        · exact hall st' hst'
      · intro e he
        rw [List.map_cons, List.mem_cons, not_or] at he
        rw [hothers e he.2]
        exact Odict.get?_set_ne _ he.1 _

/-- In every state that a replica goes through, with calls that return, the
epoch counts the calls, and everything cached is up to date; a replica with the
same inputs reports what this one finds consistent, with any earlier epoch
taken for the previous one; and whoever has recorded this one's states
verifies the other. -/
theorem derived_state_current {groupId : Bytes} {ms : List (Bytes × K)} {st₀ : GroupState K}
    (h₀ : GroupState.create a groupId ms = .ok st₀) (h : GroupState.states a st₀ ops = .ok sts)
    {n : Nat} (hn : sts[n]? = some st) :
    st.epoch = 1 + n ∧ Derived a st ∧
      ∀ st₀' sts' st', GroupState.create a groupId ms = .ok st₀' →
        GroupState.states a st₀' ops = .ok sts' → sts'[n]? = some st' →
        (∃ summary, summarizeState st' = .ok summary ∧
          ∀ remotes previousEpoch, (∀ remote ∈ remotes, remote = summary) →
            (∀ e ∈ previousEpoch, e ≤ st.epoch) →
            verifyConsistency a st remotes previousEpoch = .ok true) ∧
        ∃ manager, sts.foldlM (EpochManager.record a) {} = .ok manager ∧
          manager.verifyState a st' = .ok true := by
  obtain ⟨hsched₀, -, hepoch₀, -⟩ := create_scheduled h₀
  have hstart : ∃ raw, Scheduled a raw st₀ := ⟨_, hsched₀⟩
  obtain ⟨⟨raw, hsched⟩, hepoch⟩ := states_scheduled hstart h hn
  refine ⟨by rw [hepoch, hepoch₀, initialEpoch], hsched.derived, ?_⟩
  intro st₀' sts' st' h₀' h' hn'
  obtain rfl : st₀ = st₀' := Except.ok.inj (h₀.symm.trans h₀')
  obtain rfl : sts = sts' := Except.ok.inj (h.symm.trans h')
  obtain rfl : st = st' := Option.some.inj (hn.symm.trans hn')
  constructor
  · obtain ⟨-, gh, -, -, hhash, -⟩ := hsched.derived.hash
    have hsummary : summarizeState st = .ok ⟨st.groupId, st.epoch, gh,
        (Odict.keys st.members).mergeSort (· ≤ ·)⟩ := by
      rw [summarizeState, hhash]
    exact ⟨_, hsummary, fun remotes previousEpoch hremotes hprevious =>
      verifyConsistency_same a hsummary hremotes hprevious⟩
  · have hhashes : ∀ st ∈ sts, ∃ gh, st.computeGroupHash a = .ok gh := by
      intro st₁ hst₁
      obtain ⟨i, hi⟩ := List.getElem?_of_mem hst₁
      obtain ⟨⟨raw₁, hsched₁⟩, -⟩ := states_scheduled hstart h hi
      obtain ⟨-, gh, -, -, -, hcompute⟩ := hsched₁.derived.hash
      exact ⟨gh, hcompute⟩
    obtain ⟨manager, hfold, hall, -⟩ := record_all sts {} hhashes (states_epochs_nodup hstart h)
    obtain ⟨gh, hcompute, hrecord⟩ := hall st (List.mem_of_getElem? hn)
    refine ⟨manager, hfold, ?_⟩
    simp only [EpochManager.verifyState, hrecord, hcompute, except_ok_bind, decide_true]
    rfl

/-- The third member takes the leaf of the second one after it has left, and
leaves again. -/
def sampleChanges : List (GroupOp Bytes) :=
  [.remove [2] (mix [4]), .add [3] (mix [3]), .remove [3] (mix [5])]

theorem derived_state_current_sample :
    ∃ sts st, GroupState.states sampleCrypto.toKeyAlg sampleRoom sampleChanges = .ok sts ∧
      sts[3]? = some st ∧ st.epoch = 4 ∧ Derived sampleCrypto.toKeyAlg st ∧
      verifyConsistency sampleCrypto.toKeyAlg st [] (some 1) = .ok true := by
  have hreached : ((GroupState.states sampleCrypto.toKeyAlg sampleRoom sampleChanges).toOption.bind
      (·[3]?)).isSome = true := by
    decide +kernel
  cases hsts : GroupState.states sampleCrypto.toKeyAlg sampleRoom sampleChanges with
  | error e => rw [hsts] at hreached; cases hreached
  | ok sts =>
      rw [hsts] at hreached
      obtain ⟨st, hst⟩ := Option.isSome_iff_exists.mp hreached
      obtain ⟨hepoch, hderived, hreplicas⟩ :=
        derived_state_current sampleRoom_created hsts (n := 3) hst
      obtain ⟨⟨summary, -, hconsistent⟩, -⟩ := hreplicas _ _ _ sampleRoom_created hsts hst
      refine ⟨sts, st, rfl, hst, hepoch, hderived, hconsistent [] (some 1) nofun fun e he => ?_⟩
      cases he
      omega

end GhostChat.Proofs
