import GhostChat.Lib.Run
import GhostChat.Proofs.GroupFiles
import GhostChat.Proofs.Malformed

/-!
# What a stored group may say

`deserialize_group_state` looks at which fields a dict has, at its epoch, and
at whether the members are a list. Everything else it takes as it finds it:
nothing compares the group hash with the rest, the leaf indexes with the tree
or the leaf offset with the number of nodes, and the decoders raise what they
raise.

So the state that is read is a sound one exactly if the dict describes one.
Later calls need only one thing of it: that the leaf offset is not among the
inner nodes. Until then each member may have a leaf of its own, but when
everybody has left the next member gets leaf 0.
-/

namespace GhostChat.Proofs

open GhostChat.Lib GhostChat.Lib.Effect GhostChat.Ref

/-! ## The leaves that later calls write -/

section Writes

variable {K : Type} {a : KeyAlg K} {st : GroupState K}

/-- The members that `add_member` moves to a larger tree. -/
def movedMembers (st : GroupState K) (pk : Bytes) : List GroupMember :=
  ((Odict.set st.members pk ⟨pk, st.members.length⟩).map (·.2)).filter
    (·.leafIndex < st.members.length)

/-- In the course of a membership change `set_leaf` is called with the leaf
index `l`, on the tree `t`. -/
inductive SetsLeaf (a : KeyAlg K) (st : GroupState K) : GroupOp K → GroupTree K → Nat → Prop
  | join {pk : Bytes} {s : K} (hnew : Odict.has st.members pk = false)
      (hroom : st.members.length < leafCount st.tree) :
      SetsLeaf a st (.add pk s) st.tree st.members.length
  | move {pk : Bytes} {s : K} {fresh t : GroupTree K} {before after : List GroupMember}
      {m : GroupMember} (hnew : Odict.has st.members pk = false)
      (hfull : leafCount st.tree ≤ st.members.length)
      (hmoved : movedMembers st pk = before ++ m :: after)
      (hfresh : GroupTree.forMemberCount ((movedMembers st pk).length + 1) = .ok fresh)
      (hbefore : GroupState.rekeyLeaves a st.groupSecret before fresh = .ok t) :
      SetsLeaf a st (.add pk s) t m.leafIndex
  | joinLarger {pk : Bytes} {s : K} {fresh t : GroupTree K}
      (hnew : Odict.has st.members pk = false)
      (hfull : leafCount st.tree ≤ st.members.length)
      (hfresh : GroupTree.forMemberCount ((movedMembers st pk).length + 1) = .ok fresh)
      (hmoved : GroupState.rekeyLeaves a st.groupSecret (movedMembers st pk) fresh = .ok t) :
      SetsLeaf a st (.add pk s) t st.members.length
  | leave {pk : Bytes} {s : K} {m : GroupMember} (hget : Odict.get? st.members pk = some m) :
      SetsLeaf a st (.remove pk s) st.tree m.leafIndex

/-- The nodes that have children, or would have them. -/
def innerCount (t : GroupTree K) : Nat := t.nodeSecrets.length / 2

/-- Whatever calls come, what they write with `set_leaf` is a leaf of its tree.
An index past the nodes raises with nothing written. -/
def WritesLeavesOnly (a : KeyAlg K) (st : GroupState K) : Prop :=
  ∀ calls op t l, SetsLeaf a (runFrom (callStep a) st calls) op t l →
    t.leafNodeIndex l < t.nodeSecrets.length → innerCount t ≤ t.leafNodeIndex l

/-- A leaf whose node is past the end is refused, so only the others matter. -/
theorem setLeaf_past {t : GroupTree K} {l : Nat} (h : t.nodeSecrets.length ≤ t.leafNodeIndex l)
    (s : K) : ∃ e, GroupTree.setLeaf a l s t = .error e t := by
  refine ⟨.indexError "list assignment index out of range", ?_⟩
  rw [GroupTree.setLeaf, bind_apply, get_apply]
  simp only [ite_run, if_neg (Nat.not_lt.mpr h)]
  rfl

/-- The leaves start where the inner nodes end, or later. -/
def Above (n o : Nat) : Prop := n / 2 ≤ o

theorem setsLeaf_above {op : GroupOp K} {t : GroupTree K} {l : Nat} (h : Laid Above st.tree)
    (hsets : SetsLeaf a st op t l) : Laid Above t := by
  have hseven : Above 7 3 := Nat.le_refl 3
  cases hsets with
  | join => exact h
  | move hnew hfull hmoved hfresh hbefore =>
      exact rekeyLeaves_kept setLeaf_laid (forMemberCount_laid hseven _ _ hfresh) hbefore
  | joinLarger hnew hfull hfresh hmoved =>
      exact rekeyLeaves_kept setLeaf_laid (forMemberCount_laid hseven _ _ hfresh) hmoved
  | leave => exact h

/-- Some members leave, and the tree is laid out as before. -/
theorem removeAll_mapKept {P : Nat → Nat → Prop} (s : K) (pks : List Bytes)
    (h : Laid P st.tree) :
    MapKept (st.members.filter (·.1 ∉ pks)) (Laid P)
      (runFrom (callStep a) st (pks.map (GroupOp.remove · s))) := by
  induction pks generalizing st with
  | nil => exact ⟨by simp [runFrom], h⟩
  | cons pk pks ih =>
      obtain ⟨hmembers, hlaid⟩ := removeMember_mapKept (a := a) setLeaf_laid h pk s
      have hrest : MapKept ((callStep a st (.remove pk s)).members.filter (·.1 ∉ pks)) (Laid P)
          _ :=
        ih hlaid
      have hstep : (callStep a st (.remove pk s)).members = Odict.erase st.members pk := hmembers
      rw [hstep, Odict.erase, List.filter_filter] at hrest
      rw [List.map_cons, runFrom]
      refine ⟨hrest.1.trans (List.filter_congr fun e _ => ?_), hrest.2⟩
      simp [Bool.and_comm]

theorem writesLeavesOnly_iff (hnodes : 0 < st.tree.nodeSecrets.length) :
    WritesLeavesOnly a st ↔ innerCount st.tree ≤ st.tree.leafOffset := by
  constructor
  · intro h
    by_contra hlow
    -- Everybody leaves, and somebody comes.
    have hsame : Laid (fun n o => n = st.tree.nodeSecrets.length ∧ o = st.tree.leafOffset)
        st.tree := ⟨rfl, rfl⟩
    obtain ⟨hmembers, hlength, hoffset⟩ :=
      removeAll_mapKept (a := a) (a.lit []) (Odict.keys st.members) hsame
    generalize hcalls : (Odict.keys st.members).map (GroupOp.remove · (a.lit [])) = calls
      at hmembers hlength hoffset
    have hempty : (runFrom (callStep a) st calls).members = [] := by
      rw [hmembers, List.filter_eq_nil_iff]
      intro e he
      have hkey : e.1 ∈ Odict.keys st.members := List.mem_map_of_mem he
      simpa using hkey
    have hleaf : leafCount (runFrom (callStep a) st calls).tree
        = (st.tree.nodeSecrets.length + 1) / 2 := by
      rw [leafCount, hlength]
    have hwrites := h calls (.add [] (a.lit [])) _ _
      (SetsLeaf.join (by rw [hempty]; rfl) (by rw [hempty, hleaf, List.length_nil]; omega))
    rw [hempty, List.length_nil, GroupTree.leafNodeIndex, innerCount, hlength, hoffset] at hwrites
    rw [innerCount] at hlow
    omega
  · intro h calls op t l hsets _
    have hrun : Laid Above (runFrom (callStep a) st calls).tree :=
      runFrom_invariant (I := fun st : GroupState K => Laid Above st.tree)
        (fun _ op hst =>
          callStep_kept setLeaf_laid (forMemberCount_laid (Nat.le_refl 3)) op hst) h calls
    have habove : innerCount t ≤ t.leafOffset := setsLeaf_above hrun hsets
    rw [GroupTree.leafNodeIndex]
    omega

end Writes

/-! ## What a dict describes -/

/-- A field with the base64 of `b` in it. -/
def TextField (data : List (String × Json)) (key : String) (b : Bytes) : Prop :=
  ∃ s, Odict.get? data key = some (.str s) ∧ b64Decode s = .ok b

/-- A field that `int` reads as `n`. -/
def NumberField (data : List (String × Json)) (key : String) (n : Int) : Prop :=
  ∃ v, Odict.get? data key = some v ∧ v.toInt = .ok n

def DescribesMember (item : Json) (m : RestoredMember) : Prop :=
  ∃ fields, item = .dict fields ∧ TextField fields "identity_pk" m.identityPk ∧
    NumberField fields "leaf_index" m.leafIndex

/-- A node secret in base64; what is no string is no secret. -/
def DescribesSecret (item : Json) (secret : Option Bytes) : Prop :=
  (∃ s b, item = .str s ∧ b64Decode s = .ok b ∧ secret = some b) ∨
    ((∀ s, item ≠ .str s) ∧ secret = none)

/-- Every field of the dict is there and decodes, and this is what they say.
The node secrets may be given by anything that can be iterated over. -/
structure Describes (data : List (String × Json)) (r : RestoredGroup) : Prop where
  groupId : TextField data "group_id" r.groupId
  epoch : NumberField data "epoch" r.epoch
  members : ∃ items ms, Odict.get? data "members" = some (.list items) ∧
    List.Forall₂ DescribesMember items ms ∧ ms.foldl enterMember [] = r.members
  nodeSecrets : ∃ v items, Odict.get? data "node_secrets" = some v ∧ v.iterate = .ok items ∧
    List.Forall₂ DescribesSecret items r.nodeSecrets
  leafOffset : NumberField data "leaf_offset" r.leafOffset
  groupSecret : TextField data "group_secret" r.groupSecret
  applicationKey : TextField data "application_key" r.applicationKey
  groupHash : TextField data "group_hash" r.groupHash

section Reading

variable {data : List (String × Json)} {r : RestoredGroup}

theorem b64uDecode_ok_iff {v : Json} {b : Bytes} :
    b64uDecode v = .ok b ↔ ∃ s, v = .str s ∧ b64Decode s = .ok b := by
  cases v with
  | str s =>
      rw [b64uDecode]
      cases h : b64Decode s with
      | ok b' => simp [h]
      | error e => simp [h]
  | _ => simp [b64uDecode]

theorem item_bind_ok_iff {α : Type} {key : String} {read : Json → Except Exn α} {w : α} :
    (Json.item data key >>= read) = .ok w ↔ ∃ v, Odict.get? data key = some v ∧ read v = .ok w := by
  rw [Json.item]
  cases Odict.get? data key with
  | none => simp [Bind.bind, Except.bind]
  | some v => simp

theorem item_text_iff {key : String} {b : Bytes} :
    (Json.item data key >>= b64uDecode) = .ok b ↔ TextField data key b := by
  rw [item_bind_ok_iff]
  constructor
  · rintro ⟨v, hv, hb⟩
    obtain ⟨s, rfl, hs⟩ := b64uDecode_ok_iff.mp hb
    exact ⟨s, hv, hs⟩
  · rintro ⟨s, hv, hs⟩
    exact ⟨_, hv, b64uDecode_ok_iff.mpr ⟨s, rfl, hs⟩⟩

theorem item_number_iff {key : String} {n : Int} :
    (Json.item data key >>= Json.toInt) = .ok n ↔ NumberField data key n := item_bind_ok_iff

theorem subscript_dict (key : String) : (Json.dict data).subscript key = Json.item data key := rfl

theorem readMember_ok_iff {item : Json} {m : RestoredMember} :
    readMember item = .ok m ↔ DescribesMember item m := by
  constructor
  · intro h
    obtain ⟨pk, hpk, h⟩ := except_bind_ok h
    obtain ⟨leaf, hleaf, h⟩ := except_bind_ok h
    cases h
    cases item with
    | dict fields => exact ⟨fields, rfl, item_text_iff.mp hpk, item_number_iff.mp hleaf⟩
    | _ => cases hpk
  · rintro ⟨fields, rfl, hpk, hleaf⟩
    rw [readMember, subscript_dict, subscript_dict, item_text_iff.mpr hpk, except_ok_bind,
      item_number_iff.mpr hleaf]
    rfl

theorem readSecret_ok_iff {item : Json} {secret : Option Bytes} :
    readSecret item = .ok secret ↔ DescribesSecret item secret := by
  cases item with
  | str s =>
      rw [readSecret, b64uDecode]
      cases h : b64Decode s with
      | ok b => simp [DescribesSecret, h, eq_comm]
      | error e => simp [DescribesSecret, h]
  | _ => simp [readSecret, DescribesSecret, eq_comm]

theorem readMembers_ok_iff {items : List Json} {members : Odict Bytes RestoredMember} :
    readMembers (.list items) = .ok members ↔
      ∃ ms, List.Forall₂ DescribesMember items ms ∧ ms.foldl enterMember [] = members := by
  refine foldlM_ok_iff.trans ?_
  simp only [readMember_ok_iff]

theorem readNodeSecrets_ok_iff {v : Json} {secrets : List (Option Bytes)} :
    readNodeSecrets v = .ok secrets ↔
      ∃ items, v.iterate = .ok items ∧ List.Forall₂ DescribesSecret items secrets := by
  rw [readNodeSecrets]
  cases v.iterate with
  | error e => simp [Bind.bind, Except.bind]
  | ok items => simp [mapM_ok_iff, readSecret_ok_iff]

theorem validated_iff : validateSerialized data = .ok [] ↔
    (∀ key ∈ requiredGroupFields, Odict.has data key = true) ∧ epochErrors data = .ok [] ∧
      memberErrors data = [] := by
  rw [validateSerialized]
  cases epochErrors data with
  | error e => simp [Bind.bind, Except.bind]
  | ok errors =>
      simp only [except_ok_bind, pure, Except.pure, Except.ok.injEq, List.append_eq_nil_iff,
        List.map_eq_nil_iff, List.filter_eq_nil_iff]
      simp [and_assoc]

theorem epochErrors_nil {e : Int} (hfield : NumberField data "epoch" e) :
    epochErrors data = .ok [] ↔ 1 ≤ e := by
  obtain ⟨v, hv, he⟩ := hfield
  rw [epochErrors, hv]
  dsimp only
  rw [he]
  by_cases hlow : e < 1
  · simp only [if_pos hlow]
    exact iff_of_false (by simp) (by omega)
  · simp only [if_neg hlow]
    exact iff_of_true trivial (by omega)

theorem memberErrors_nil {v : Json} (hfield : Odict.get? data "members" = some v) :
    memberErrors data = [] ↔ ∃ items, v = .list items := by
  rw [memberErrors, hfield]
  cases v <;> simp

theorem Describes.has (h : Describes data r) :
    ∀ key ∈ requiredGroupFields, Odict.has data key = true := by
  have htext : ∀ {key b}, TextField data key b → Odict.has data key = true := by
    intro key b hfield
    obtain ⟨s, hs, -⟩ := hfield
    exact Odict.has_eq_true_iff.mpr ⟨_, hs⟩
  have hnumber : ∀ {key n}, NumberField data key n → Odict.has data key = true := by
    intro key n hfield
    obtain ⟨v, hv, -⟩ := hfield
    exact Odict.has_eq_true_iff.mpr ⟨_, hv⟩
  obtain ⟨items, ms, hmembers, -⟩ := h.members
  obtain ⟨v, secrets, hnodes, -⟩ := h.nodeSecrets
  simp only [requiredGroupFields, List.forall_mem_cons, List.not_mem_nil, false_imp_iff,
    implies_true, and_true]
  exact ⟨htext h.groupId, hnumber h.epoch, Odict.has_eq_true_iff.mpr ⟨_, hmembers⟩,
    htext h.groupSecret, htext h.applicationKey, htext h.groupHash,
    Odict.has_eq_true_iff.mpr ⟨_, hnodes⟩, hnumber h.leafOffset⟩

theorem Describes.validated (h : Describes data r) (hepoch : 1 ≤ r.epoch) :
    validateSerialized data = .ok [] := by
  obtain ⟨items, ms, hmembers, -⟩ := h.members
  exact validated_iff.mpr ⟨h.has, (epochErrors_nil h.epoch).mpr hepoch,
    (memberErrors_nil hmembers).mpr ⟨items, rfl⟩⟩

/-- A dict is read exactly if it describes a state of some epoch. -/
theorem deserialize_ok_iff :
    deserializeGroupState data = .ok r ↔ Describes data r ∧ 1 ≤ r.epoch := by
  constructor
  · intro h
    obtain ⟨errors, hvalid, h⟩ := except_bind_ok h
    obtain ⟨herrors, h⟩ := except_guard_ok h
    rw [not_not.mp herrors] at hvalid
    obtain ⟨-, hepochs, hlist⟩ := validated_iff.mp hvalid
    obtain ⟨groupId, hgroupId, h⟩ := except_bind_ok h
    obtain ⟨epoch, hepoch, h⟩ := except_bind_ok h
    obtain ⟨members, hmembers, h⟩ := except_bind_ok h
    obtain ⟨nodeSecrets, hnodes, h⟩ := except_bind_ok h
    obtain ⟨leafOffset, hoffset, h⟩ := except_bind_ok h
    obtain ⟨groupSecret, hsecret, h⟩ := except_bind_ok h
    obtain ⟨applicationKey, hkey, h⟩ := except_bind_ok h
    obtain ⟨groupHash, hhash, h⟩ := except_bind_ok h
    cases h
    have hepoch := item_number_iff.mp hepoch
    obtain ⟨v, hv, hread⟩ := item_bind_ok_iff.mp hmembers
    obtain ⟨items, rfl⟩ := (memberErrors_nil hv).mp hlist
    obtain ⟨ms, hms, hfold⟩ := readMembers_ok_iff.mp hread
    obtain ⟨w, hw, hread⟩ := item_bind_ok_iff.mp hnodes
    obtain ⟨secrets, hiterate, hsecrets⟩ := readNodeSecrets_ok_iff.mp hread
    exact ⟨{
      groupId := item_text_iff.mp hgroupId
      epoch := hepoch
      members := ⟨items, ms, hv, hms, hfold⟩
      nodeSecrets := ⟨w, secrets, hw, hiterate, hsecrets⟩
      leafOffset := item_number_iff.mp hoffset
      groupSecret := item_text_iff.mp hsecret
      applicationKey := item_text_iff.mp hkey
      groupHash := item_text_iff.mp hhash }, (epochErrors_nil hepoch).mp hepochs⟩
  · rintro ⟨h, hepoch⟩
    obtain ⟨items, ms, hv, hms, hfold⟩ := h.members
    obtain ⟨w, secrets, hw, hiterate, hsecrets⟩ := h.nodeSecrets
    have hmembers : Json.item data "members" >>= readMembers = .ok r.members :=
      item_bind_ok_iff.mpr ⟨_, hv, readMembers_ok_iff.mpr ⟨ms, hms, hfold⟩⟩
    have hnodes : Json.item data "node_secrets" >>= readNodeSecrets = .ok r.nodeSecrets :=
      item_bind_ok_iff.mpr ⟨w, hw, readNodeSecrets_ok_iff.mpr ⟨secrets, hiterate, hsecrets⟩⟩
    simp only [deserializeGroupState, h.validated hepoch, except_ok_bind, ne_eq, not_true,
      if_false, item_text_iff.mpr h.groupId, item_number_iff.mpr h.epoch, hmembers, hnodes,
      item_number_iff.mpr h.leafOffset, item_text_iff.mpr h.groupSecret,
      item_text_iff.mpr h.applicationKey, item_text_iff.mpr h.groupHash]
    rfl

end Reading

/-! ## What is raised -/

/-- `InvalidGroupStateError`. -/
def StateRefusal (e : Exn) : Prop := ∃ m, e = .invalidGroupState m

/-- The readers raise everything but `InvalidGroupStateError`. -/
def Foreign {α : Type} (x : Except Exn α) : Prop :=
  Ends (fun _ => True) (fun e => ¬ StateRefusal e) x

section Foreign

variable {α β : Type} {data : List (String × Json)} {x : Except Exn α} {f : α → Except Exn β}

theorem Foreign.bind (h : Foreign x) (hf : ∀ v, Foreign (f v)) : Foreign (x >>= f) :=
  Ends.bind h fun v _ => hf v

theorem Foreign.mapM {γ : Type} {read : γ → Except Exn α} (h : ∀ item, Foreign (read item))
    (items : List γ) : Foreign (items.mapM read) := by
  induction items with
  | nil => trivial
  | cons item items ih =>
      rw [List.mapM_cons]
      exact (h item).bind fun v => ih.bind fun vs => trivial

theorem b64uDecode_foreign (v : Json) : Foreign (b64uDecode v) := by
  cases v with
  | str s =>
      rw [b64uDecode]
      cases b64Decode s with
      | ok b => trivial
      | error e => rintro ⟨m, ⟨⟩⟩
  | _ => rintro ⟨m, ⟨⟩⟩

theorem toInt_foreign (v : Json) : Foreign v.toInt := by
  by_cases h : ∀ negative, v ≠ .float (.infinite negative)
  · refine (toInt_ends h).mono (fun _ h => h) fun e he => ?_
    rintro ⟨m, rfl⟩
    obtain ⟨m', he | he⟩ := he <;> cases he
  · push Not at h
    obtain ⟨negative, rfl⟩ := h
    rintro ⟨m, ⟨⟩⟩

theorem item_foreign {read : Json → Except Exn α} (h : ∀ v, Foreign (read v)) (key : String) :
    Foreign (Json.item data key >>= read) := by
  rw [Json.item]
  cases Odict.get? data key with
  | some v => exact h v
  | none => rintro ⟨m, ⟨⟩⟩

theorem subscript_foreign {read : Json → Except Exn α} (h : ∀ v, Foreign (read v)) (key : String)
    (v : Json) : Foreign (v.subscript key >>= read) := by
  cases v with
  | dict fields => exact item_foreign h key
  | _ => rintro ⟨m, ⟨⟩⟩

theorem iterate_foreign (v : Json) : Foreign v.iterate := by
  cases v with
  | list items => trivial
  | str s => trivial
  | dict fields => trivial
  | _ => rintro ⟨m, ⟨⟩⟩

theorem readMembers_foreign (v : Json) : Foreign (readMembers v) := by
  refine (iterate_foreign v).bind fun items => Ends.foldlM trivial fun members item _ => ?_
  refine Foreign.bind ?_ fun m => trivial
  exact (subscript_foreign b64uDecode_foreign _ _).bind fun pk =>
    (subscript_foreign toInt_foreign _ _).bind fun leaf => trivial

theorem readNodeSecrets_foreign (v : Json) : Foreign (readNodeSecrets v) := by
  refine (iterate_foreign v).bind fun items => Foreign.mapM (fun item => ?_) items
  cases item with
  | str s => exact (b64uDecode_foreign _).bind fun b => trivial
  | _ => trivial

theorem epochErrors_foreign : Foreign (epochErrors data) := by
  rw [epochErrors]
  cases Odict.get? data "epoch" with
  | none => trivial
  | some v =>
      have hforeign := toInt_foreign v
      dsimp only
      generalize v.toInt = x at hforeign
      cases x with
      | ok n => trivial
      | error e => cases e <;> trivial

/-- After the first look the decoders raise what they raise. -/
theorem deserialize_foreign (hvalid : validateSerialized data = .ok []) :
    Foreign (deserializeGroupState data) := by
  rw [deserializeGroupState, hvalid, except_ok_bind, if_neg (not_not.mpr rfl)]
  refine (item_foreign b64uDecode_foreign _).bind fun groupId => ?_
  refine (item_foreign toInt_foreign _).bind fun epoch => ?_
  refine (item_foreign readMembers_foreign _).bind fun members => ?_
  refine (item_foreign readNodeSecrets_foreign _).bind fun nodeSecrets => ?_
  refine (item_foreign toInt_foreign _).bind fun leafOffset => ?_
  refine (item_foreign b64uDecode_foreign _).bind fun groupSecret => ?_
  refine (item_foreign b64uDecode_foreign _).bind fun applicationKey => ?_
  refine (item_foreign b64uDecode_foreign _).bind fun groupHash => ?_
  trivial

/-- What the first look finds wrong is refused, and nothing else is. -/
theorem deserialize_refused_iff :
    (∃ e, deserializeGroupState data = .error e ∧ StateRefusal e) ↔
      ∃ errors, validateSerialized data = .ok errors ∧ errors ≠ [] := by
  have hvalid : Foreign (validateSerialized data) := epochErrors_foreign.bind fun _ => trivial
  cases hchecked : validateSerialized data with
  | error e =>
      have he : ¬ StateRefusal e := by
        rw [hchecked] at hvalid
        exact hvalid
      rw [deserializeGroupState, hchecked]
      refine iff_of_false ?_ (by simp)
      rintro ⟨e', h, hrefusal⟩
      cases h
      exact he hrefusal
  | ok errors =>
      by_cases hempty : errors = []
      · rw [hempty] at hchecked
        refine iff_of_false ?_ (by simp [hempty])
        rintro ⟨e, h, hrefusal⟩
        exact (deserialize_foreign hchecked).error h hrefusal
      · rw [deserializeGroupState, hchecked, except_ok_bind, if_pos hempty]
        exact iff_of_true ⟨_, rfl, _, rfl⟩ ⟨errors, rfl, hempty⟩

end Foreign

/-! ## Sound states -/

section Sound

variable {a : KeyAlg Bytes} {r : RestoredGroup}

/-- What a loaded state should be: `validate` finds nothing, each member's leaf
is in the tree, and later calls write no other nodes. -/
structure Consistent (a : KeyAlg Bytes) (r : RestoredGroup) : Prop where
  valid : r.validate a = .ok []
  inside : ∀ e ∈ r.members,
    (0 ≤ e.2.leafIndex ∧ e.2.leafIndex < ((r.nodeSecrets.length + 1) / 2 : Nat)) ∧
    ((r.nodeSecrets.length / 2 : Nat) ≤ r.leafOffset + e.2.leafIndex ∧
      r.leafOffset + e.2.leafIndex < r.nodeSecrets.length)
  later : WritesLeavesOnly a r.live

/-- The same of the fields: nothing needed is empty, the epoch fits its
encoding, the hash is the hash of the rest, the leaf indexes are distinct and
none is negative or past the nodes, and the leaves start above the inner
nodes. -/
structure SoundGroup (a : KeyAlg Bytes) (r : RestoredGroup) : Prop where
  groupId : r.groupId ≠ []
  epoch : 1 ≤ r.epoch
  someone : r.members ≠ []
  root : ∃ root, r.rootSecret = .ok (some root)
  hash : ∃ h, r.computeGroupHash a = .ok h ∧ a.bytes r.groupHash = a.bytes h
  distinct : (r.members.map (·.2.leafIndex)).Nodup
  inside : ∀ e ∈ r.members, 0 ≤ e.2.leafIndex ∧ r.leafOffset + e.2.leafIndex < r.nodeSecrets.length
  above : (r.nodeSecrets.length / 2 : Nat) ≤ r.leafOffset

theorem restored_duplicateErrors_nil {seen : List Int} {ms : List RestoredMember} :
    RestoredGroup.duplicateErrors seen ms = [] ↔
      (ms.map (·.leafIndex)).Nodup ∧ ∀ m ∈ ms, m.leafIndex ∉ seen := by
  induction ms generalizing seen with
  | nil => simp [RestoredGroup.duplicateErrors]
  | cons m ms ih =>
      rw [RestoredGroup.duplicateErrors, List.append_eq_nil_iff, ih, List.map_cons,
        List.nodup_cons]
      by_cases hseen : m.leafIndex ∈ seen
      · rw [if_pos hseen]
        exact iff_of_false (by simp) fun h => h.2 m List.mem_cons_self hseen
      · rw [if_neg hseen]
        constructor
        · rintro ⟨-, hnd, hrest⟩
          refine ⟨⟨fun hmem => ?_, hnd⟩, fun m' hm' => ?_⟩
          · obtain ⟨m', hm', heq⟩ := List.mem_map.mp hmem
            exact hrest m' hm' (heq ▸ List.mem_cons_self)
          · rcases List.mem_cons.mp hm' with rfl | hm'
            · exact hseen
            · exact fun h => hrest m' hm' (List.mem_cons_of_mem _ h)
        · rintro ⟨⟨hnot, hnd⟩, hrest⟩
          refine ⟨rfl, hnd, fun m' hm' hmem => ?_⟩
          rcases List.mem_cons.mp hmem with heq | hmem
          · exact hnot (heq ▸ List.mem_map_of_mem hm')
          · exact hrest m' (List.mem_cons_of_mem m hm') hmem

theorem validate_nil_iff : r.validate a = .ok [] ↔ r.groupId ≠ [] ∧ 1 ≤ r.epoch ∧
    r.members ≠ [] ∧ (∃ root, r.rootSecret = .ok (some root)) ∧
    (∃ h, r.computeGroupHash a = .ok h ∧ a.bytes r.groupHash = a.bytes h) ∧
    (r.members.map (·.2.leafIndex)).Nodup := by
  rw [RestoredGroup.validate]
  cases r.rootSecret with
  | error e => simp [Bind.bind, Except.bind]
  | ok root =>
      cases r.computeGroupHash a with
      | error e => simp [Bind.bind, Except.bind]
      | ok computed =>
          have hdistinct : RestoredGroup.duplicateErrors [] (r.members.map (·.2)) = [] ↔
              (r.members.map (·.2.leafIndex)).Nodup := by
            rw [restored_duplicateErrors_nil, List.map_map]
            simp [Function.comp_def]
          simp only [except_ok_bind, pure, Except.pure, Except.ok.injEq, List.append_eq_nil_iff,
            hdistinct, and_assoc]
          cases root <;> simp [initialEpoch, not_lt]

theorem rootSecret_nodes {root : Option Bytes} (h : r.rootSecret = .ok root) :
    0 < r.nodeSecrets.length := by
  rw [RestoredGroup.rootSecret] at h
  split at h
  · cases h
  · next hnodes => simp [hnodes]

theorem consistent_iff : Consistent a r ↔ SoundGroup a r := by
  constructor
  · rintro ⟨hvalid, hinside, hlater⟩
    obtain ⟨hgroupId, hepoch, hsomeone, ⟨root, hroot⟩, hhash, hdistinct⟩ :=
      validate_nil_iff.mp hvalid
    have hnodes : 0 < r.live.tree.nodeSecrets.length := rootSecret_nodes hroot
    have habove : r.nodeSecrets.length / 2 ≤ r.leafOffset.toNat :=
      (writesLeavesOnly_iff hnodes).mp hlater
    refine ⟨hgroupId, hepoch, hsomeone, ⟨root, hroot⟩, hhash, hdistinct,
      fun e he => ⟨(hinside e he).1.1, (hinside e he).2.2⟩, ?_⟩
    -- The offset is not negative: a member has a leaf.
    obtain ⟨e, he⟩ := List.exists_mem_of_ne_nil _ hsomeone
    obtain ⟨⟨hleaf, hcount⟩, hnode, -⟩ := hinside e he
    omega
  · intro h
    obtain ⟨root, hroot⟩ := h.root
    have hnodes : 0 < r.live.tree.nodeSecrets.length := rootSecret_nodes hroot
    have habove := h.above
    refine ⟨validate_nil_iff.mpr ⟨h.groupId, h.epoch, h.someone, h.root, h.hash, h.distinct⟩,
      fun e he => ?_, (writesLeavesOnly_iff hnodes).mpr ?_⟩
    · obtain ⟨hleaf, hpast⟩ := h.inside e he
      omega
    · show r.nodeSecrets.length / 2 ≤ r.leafOffset.toNat
      omega

/-- The loader keeps its promise exactly for the dicts in which the first look
finds something wrong, and those that describe a sound state. -/
theorem loaded_group_consistent_iff (a : KeyAlg Bytes) (data : List (String × Json)) :
    Ends (Consistent a) StateRefusal (deserializeGroupState data) ↔
      (∃ errors, validateSerialized data = .ok errors ∧ errors ≠ []) ∨
        ∃ r, Describes data r ∧ SoundGroup a r := by
  rw [ends_iff, deserialize_refused_iff]
  refine or_congr_right (exists_congr fun r => ?_)
  rw [deserialize_ok_iff, consistent_iff]
  constructor
  · rintro ⟨⟨hdescribes, -⟩, hsound⟩
    exact ⟨hdescribes, hsound⟩
  · rintro ⟨hdescribes, hsound⟩
    exact ⟨⟨hdescribes, hsound.epoch⟩, hsound⟩

/-- A state that is loaded, and in which `validate` finds something. -/
theorem not_consistent {x : Except Exn RestoredGroup} {errors : List String}
    (hfound : x.toOption.bind (fun r => (r.validate a).toOption) = some errors)
    (herrors : errors ≠ []) : ¬ Ends (Consistent a) StateRefusal x := by
  intro h
  cases x with
  | error e => cases hfound
  | ok r =>
      have hvalid : r.validate a = .ok [] := Consistent.valid h
      rw [Except.toOption, Option.bind_some, hvalid] at hfound
      cases hfound
      exact herrors rfl

end Sound

/-- A group with nobody and no nodes, and with no base64 for its id. -/
def undecodableGroup : List (String × Json) := [
  ("group_id", .str "A"), ("epoch", .int 1), ("members", .list []), ("group_secret", .str ""),
  ("application_key", .str ""), ("group_hash", .str ""), ("node_secrets", .list []),
  ("leaf_offset", .int 0)]

/-- The file of three members with another group hash is loaded, and `validate`
notices; for an id that does not decode the loader raises something else. -/
theorem wrong_hash_loaded :
    ¬ Ends (Consistent sampleCrypto.toKeyAlg) StateRefusal (deserializeGroupState
        (Odict.set (serializeGroupState sampleTrio) "group_hash" (.str ""))) ∧
      ¬ Ends (Consistent sampleCrypto.toKeyAlg) StateRefusal
        (deserializeGroupState undecodableGroup) := by
  constructor
  · have hfound : (deserializeGroupState (Odict.set (serializeGroupState sampleTrio)
        "group_hash" (.str ""))).toOption.bind (fun r =>
          (r.validate sampleCrypto.toKeyAlg).toOption)
        = some ["group_hash does not match computed"] := by decide +kernel
    exact not_consistent hfound (List.cons_ne_nil _ _)
  · have hraised : deserializeGroupState undecodableGroup
        = .error (.invalidKeyFormat "Invalid base64-url data") := rfl
    rw [hraised]
    rintro ⟨m, ⟨⟩⟩

end GhostChat.Proofs
