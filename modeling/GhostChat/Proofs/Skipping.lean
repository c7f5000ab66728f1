import GhostChat.Proofs.Calls
import GhostChat.Ref.Sample

/-!
# What skipping stores

`_skip_receiving_until` does three things in one loop: it steps the receiving
chain, it files the message key of the step under the number it belongs to,
and it counts. Filing evicts. So which key is under which number, and which
numbers are left at the end, depends on the order of the statements in the
round and on the store's own test of its length.

Taken apart they are simple. The chain key is an iterate of one function; the
items filed are the message keys of its first iterates, numbered from `Nr`;
and the store is the old one with these items pushed under its bound, one
after another. Where none of the numbers was in the store before, that is the
last `max_keys` of the old items and the new ones.

The loop runs on fuel, which is bookkeeping: whatever fuel covers the
distance, the loop ends because `Nr` has come to its aim.
-/

namespace GhostChat.Proofs

open GhostChat.Lib GhostChat.Lib.Effect GhostChat.Ref

variable {K P : Type} {a : KeyAlg K} {s : DoubleRatchetState K P}

/-! ## The chain -/

/-- The chain key `n` steps on. -/
def chainKeyAt (a : KeyAlg K) (ck : K) (n : Nat) : K := (fun ck => (kdfChain a ck).1)^[n] ck

theorem chainKeyAt_succ (ck : K) (n : Nat) :
    chainKeyAt a ck (n + 1) = (kdfChain a (chainKeyAt a ck n)).1 :=
  Function.iterate_succ_apply' _ _ _

/-- The first step may as well be taken first. -/
theorem chainKeyAt_step (ck : K) (n : Nat) :
    chainKeyAt a ck (n + 1) = chainKeyAt a (kdfChain a ck).1 n := rfl

/-- The message keys of `n` steps from `ck`, under the numbers from `lo` on. -/
def chainItems (a : KeyAlg K) (dh : Bytes) (ck : K) (lo n : Nat) : Odict (Bytes × Nat) K :=
  (List.range n).map fun j => ((dh, lo + j), (kdfChain a (chainKeyAt a ck j)).2)

theorem chainItems_succ (dh : Bytes) (ck : K) (lo n : Nat) :
    chainItems a dh ck lo (n + 1) =
      ((dh, lo), (kdfChain a ck).2) :: chainItems a dh (kdfChain a ck).1 (lo + 1) n := by
  rw [chainItems, chainItems, List.range_succ_eq_map, List.map_cons, List.map_map]
  refine congrArg₂ List.cons rfl (List.map_congr_left fun j _ => ?_)
  rw [Function.comp_apply, chainKeyAt_step, Nat.succ_eq_add_one, Nat.add_right_comm,
    Nat.add_assoc]

theorem chainItems_keys (dh : Bytes) (ck : K) (lo n : Nat) :
    Odict.keys (chainItems a dh ck lo n) = (List.range n).map fun j => (dh, lo + j) := by
  rw [Odict.keys, chainItems, List.map_map]
  rfl

theorem chainItems_nodup (dh : Bytes) (ck : K) (lo n : Nat) :
    (Odict.keys (chainItems a dh ck lo n)).Nodup := by
  rw [chainItems_keys]
  refine List.nodup_range.map fun i j h => ?_
  injection h with _ h
  omega

/-- Numbers that are not in a store, as keys of the items and keys of the
store. -/
theorem chainItems_fresh {store : Odict (Bytes × Nat) K} {dh : Bytes} {lo n : Nat}
    (hnew : ∀ i, lo ≤ i → i < lo + n → Odict.has store (dh, i) = false) (ck : K) :
    ∀ k ∈ Odict.keys (chainItems a dh ck lo n), k ∉ Odict.keys store := by
  intro k hk hold
  rw [chainItems_keys] at hk
  obtain ⟨j, hj, rfl⟩ := List.mem_map.mp hk
  have hj : j < n := List.mem_range.mp hj
  rw [← Odict.has_iff, hnew (lo + j) (by omega) (by omega)] at hold
  cases hold

/-! ## The store -/

/-- A key of the right length, within the range and with room to be had, is
pushed. -/
theorem skipped_add_push {dh : Bytes} {n : Nat} {key : K} (hdh : dh.length = 32)
    (hkey : (a.bytes key).length = 32) (hn : n < 2 ^ 32) (sk : SkippedMessageKeys K)
    (hcap : 0 < sk.maxKeys) :
    SkippedMessageKeys.add a dh n key sk = .ok ()
      { sk with store := Odict.push sk.maxKeys sk.store (dh, n) key } := by
  rcases skipped_add_cases (n := n) hdh hkey sk with ⟨e, store, -, -, hno⟩ | ⟨-, -, hadd⟩
  · omega
  · rw [hadd, Odict.push_eq_evictTo hcap]

/-! ## The loop -/

/-- With no way to go nothing is filed. -/
theorem skipReceivingLoop_here {dh : Bytes} {ck : K} (hck : s.receivingChainKey = some ck)
    (fuel : Nat) :
    skipReceivingLoop a dh s.Nr fuel s = .ok () (withRecv s
      (some (chainKeyAt a ck (s.Nr - s.Nr)))
      (Odict.pushAll s.skippedMessageKeys.maxKeys s.skippedMessageKeys.store
        (chainItems a dh ck s.Nr (s.Nr - s.Nr))) s.Nr) := by
  rw [skipReceivingLoop_done (Nat.le_refl _), Nat.sub_self]
  show _ = EStateM.Result.ok () (withRecv s (some ck) s.skippedMessageKeys.store s.Nr)
  rw [← hck, withRecv_self]

/-- Any fuel that covers the distance brings the counter to its aim, with the
items of the way pushed. -/
theorem skipReceivingLoop_pushes {dh : Bytes} {upTo : Nat}
    (hlen : ∀ i s f b, (a.bytes (a.hkdf i s f b)).length = 32) (hdh : dh.length = 32)
    (hmax : upTo ≤ 2 ^ 32) :
    ∀ (fuel : Nat) (s : DoubleRatchetState K P) (ck : K),
      s.receivingChainKey = some ck → s.Nr ≤ upTo → upTo ≤ s.Nr + fuel →
      (s.Nr < upTo → 0 < s.skippedMessageKeys.maxKeys) →
      skipReceivingLoop a dh upTo fuel s = .ok () (withRecv s
        (some (chainKeyAt a ck (upTo - s.Nr)))
        (Odict.pushAll s.skippedMessageKeys.maxKeys s.skippedMessageKeys.store
          (chainItems a dh ck s.Nr (upTo - s.Nr))) upTo) := by
  intro fuel
  induction fuel with
  | zero =>
      intro s ck hck hlo hfuel _
      obtain rfl : upTo = s.Nr := by omega
      exact skipReceivingLoop_here hck 0
  | succ fuel ih =>
      intro s ck hck hlo hfuel hcap
      rcases Nat.eq_or_lt_of_le hlo with heq | hlt
      · subst heq
        exact skipReceivingLoop_here hck (fuel + 1)
      · have hkey : (a.bytes (kdfChain a ck).2).length = 32 := hlen _ _ _ _
        have hn : s.Nr < 2 ^ 32 := by omega
        have hadd := skipped_add_push hdh hkey hn s.skippedMessageKeys (hcap hlt)
        have hdist : upTo - s.Nr = upTo - (s.Nr + 1) + 1 := by omega
        rw [skipReceivingLoop_filed hlt hck hadd, hdist, chainItems_succ, Odict.pushAll_cons,
          chainKeyAt_step]
        have hfuel : upTo ≤ s.Nr + 1 + fuel := by omega
        exact ih _ (kdfChain a ck).1 rfl hlt hfuel fun _ => hcap hlt

/-- From a state with a receiving chain and a remote key, `u` at or past the
counter and within the range: the counter ends at `u`, the chain key is that
many steps on, the items of the way are pushed, and nothing else is touched.
With none of them in the store before, the store is the last `max_keys` of the
old items and the new ones. -/
theorem skip_keeps_newest
    (hlen : ∀ i s f b, (a.bytes (a.hkdf i s f b)).length = 32) {ck : K} {dh : Bytes} {u : Nat}
    (hck : s.receivingChainKey = some ck) (hd : s.dhr = some dh) (hdh : dh.length = 32)
    (hlo : s.Nr ≤ u) (hhi : u ≤ 2 ^ 32) (hcap : 1 ≤ s.skippedMessageKeys.maxKeys)
    (hroom : s.skippedMessageKeys.store.length ≤ s.skippedMessageKeys.maxKeys) :
    ∃ store, skipReceivingUntil a u s = .ok () { s with
        receivingChainKey := some (chainKeyAt a ck (u - s.Nr))
        Nr := u
        skippedMessageKeys := { s.skippedMessageKeys with store := store } } ∧
      store = Odict.pushAll s.skippedMessageKeys.maxKeys s.skippedMessageKeys.store
        (chainItems a dh ck s.Nr (u - s.Nr)) ∧
      ((∀ i, s.Nr ≤ i → i < u → s.skippedMessageKeys.has dh i = false) →
        store = (s.skippedMessageKeys.store ++ chainItems a dh ck s.Nr (u - s.Nr)).rtake
          s.skippedMessageKeys.maxKeys) := by
  refine ⟨_, ?_, rfl, fun hnew => ?_⟩
  · rw [skipReceivingUntil_some hck hd]
    exact skipReceivingLoop_pushes hlen hdh hhi _ s ck hck hlo (by omega) fun _ => hcap
  · exact Odict.pushAll_new hcap hroom (chainItems_nodup _ _ _ _)
      (chainItems_fresh (fun i hi hlt => hnew i hi (by omega)) ck)

/-- A store of two with a key of an earlier chain in it. -/
def crowdedState : DoubleRatchetState Bytes Bytes :=
  { sampleState false with
    dhr := some (mix [7])
    Nr := 1
    skippedMessageKeys := { maxKeys := 2, store := [((mix [5], 0), mix [6])] } }

/-- Three keys skipped: the old one and the first of the three are gone. -/
theorem skip_keeps_newest_crowded :
    ∃ store, skipReceivingUntil sampleCrypto.toKeyAlg 4 crowdedState = .ok () { crowdedState with
        receivingChainKey := some (chainKeyAt sampleCrypto.toKeyAlg
          (kdfInitialChain sampleCrypto.toKeyAlg (mix [1])) 3)
        Nr := 4
        skippedMessageKeys := { maxKeys := 2, store := store } } ∧
      Odict.keys store = [(mix [7], 2), (mix [7], 3)] := by
  obtain ⟨store, hrun, -, hkept⟩ := skip_keeps_newest (s := crowdedState)
    sampleCrypto_hkdf_length rfl rfl (mix_length [7]) (u := 4) (by decide) (by decide)
    (by decide) (by decide)
  refine ⟨store, hrun, ?_⟩
  rw [hkept]
  · rfl
  · intro i hi _
    have hi : 1 ≤ i := hi
    refine Odict.has_of_not_mem fun hmem => ?_
    have hold : (mix [7], i) = (mix [5], 0) := List.mem_singleton.mp hmem
    injection hold with _ hzero
    omega

end GhostChat.Proofs
