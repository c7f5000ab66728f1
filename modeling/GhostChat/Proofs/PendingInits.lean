import Mathlib.Data.List.DropRight
import GhostChat.Proofs.OnWire
import GhostChat.Proofs.Registry

/-!
# What becomes of a session_init

A session_init that was accepted is in one of three places: in the queue of its
recipient, in the hands of a handler that took the queue and is sending it one
by one, or on the wire. It is in exactly one of them, and put on the wire once;
that is counted by `Inits.conserved`, over the numbers of all that were
accepted, and no step breaks it.

What can go wrong is the place. A queue is filed under the recipient as the
sender spelled it, and a register looks under the stripped name. And what is on
the wire is not looked after any more, so it has to have arrived, on a socket
that was open and registered.

All this is about records and numbers. `OnWire.kept_iff` takes it to the
messages: what is recorded as handed over is on the wire, what is counted as
queued is that message.
-/

namespace GhostChat.Proofs

open GhostChat.Lib GhostChat.Ref

variable {σ σ' : Relay}

/-! ## Names -/

theorem dropWhile_of_prefix {p : Char → Bool} {a b : List Char} (h : b <+: a)
    (ha : a.dropWhile p = a) : b.dropWhile p = b := by
  cases b with
  | nil => rfl
  | cons x b =>
      obtain ⟨t, rfl⟩ := h
      cases hx : p x with
      | false => rw [List.dropWhile_cons_of_neg (by simp [hx])]
      | true =>
          -- What begins with a character to drop is longer than what is left of it.
          have hlen := congrArg List.length ha
          rw [List.cons_append, List.dropWhile_cons_of_pos hx, List.length_cons] at hlen
          have hle := (List.dropWhile_sublist p (l := b ++ t)).length_le
          omega

theorem strip_strip (s : String) : strip (strip s) = strip s := by
  have hstrip : ∀ t : String, strip t
      = String.ofList ((t.toList.dropWhile isSpace).rdropWhile isSpace) := fun _ => rfl
  rw [hstrip (strip s), hstrip s, String.toList_ofList,
    dropWhile_of_prefix (List.rdropWhile_prefix _ _) (List.dropWhile_idempotent _ _),
    List.rdropWhile_idempotent]

/-- The name that was registered is its own normal form. -/
theorem nameOf_strip {raw : String} (h : strip raw ≠ "") :
    nameOf (.str (strip raw)) = some (strip raw) := by
  rw [nameOf, strip_strip, if_neg h]

theorem eq_str_of_dictKey {v : Json} {name : String} (h : v.dictKey = .ok (.str name)) :
    v = .str name := by
  cases v with
  | str raw =>
      injection h with h
      injection h with h
      rw [h]
  | float x =>
      cases x with
      | infinite negative => cases h
      | nan => cases h
      | finite x =>
          rw [Json.dictKey] at h
          split at h <;> cases h
  | null => cases h
  | bool b => cases h
  | int n => cases h
  | list items => cases h
  | dict fields => cases h

/-! ## Where a session_init is -/

/-- It was sent to a socket that was open and registered as the recipient, it is
queued for the recipient, or a handler that registered the recipient has it in
hand. -/
def Placed (σ : Relay) (n : Nat) (t : String) : Prop :=
  (∃ r ∈ σ.handed, r.number = n ∧ r.name = t ∧ r.arrived = true ∧ r.registered = true) ∨
  (∃ i ∈ (Odict.get? σ.pendingInits (.str t)).getD [], i.1 = n) ∨
  ∃ (w : Nat) (s : Socket), σ.sockets[w]? = some s ∧ s.username = .str t ∧ ∃ i ∈ inHand s, i.1 = n

/-- This holds of all that were accepted and are addressed to a user, under the
name a register of that user would take. -/
def InitsPlaced (σ : Relay) : Prop :=
  ∀ n toUser t, σ.accepted[n]? = some toUser → nameOf toUser = some t → Placed σ n t

/-- A session_init that is sent arrives at an open socket that is registered as
its recipient, and one that is queued is addressed in the normal form. -/
def InitArrives (σ : Relay) (act : RelayAct) : Prop :=
  match event σ act with
  | .init _ toUser key _ ok =>
      match σ.connection key with
      | some (_, w) => (ok && σ.isOpen w) = true
      | none => ∀ t, nameOf toUser = some t → key = .str t
  | .hand w name _ ok => (ok && σ.isOpen w) = true ∧ Odict.get? σ.connections name = some w
  | _ => True

def initNumbers (inits : List (Nat × Json)) : List Nat := inits.map (·.1)

/-- A handler that has taken a queue, or is about to, has registered the name it
is for. -/
def Entitled (accepted : List Json) (s : Socket) : Prop :=
  s.phase = .registering ∨ inHand s ≠ [] → ∃ t, s.username = .str t ∧ nameOf (.str t) = some t ∧
    ∀ i ∈ inHand s, accepted[i.1]? = some (.str t)

/-- What every step keeps. -/
structure Inits (σ : Relay) : Prop where
  conserved : (σ.handed.map (·.number) ++ initNumbers (σ.pendingInits.flatMap (·.2))
    ++ initNumbers (σ.sockets.flatMap inHand)).Perm (List.range σ.accepted.length)
  keys : (Odict.keys σ.pendingInits).Nodup
  keyed : ∀ key, ∀ i ∈ (Odict.get? σ.pendingInits key).getD [],
    ∃ toUser, σ.accepted[i.1]? = some toUser ∧ toUser.dictKey = .ok key
  entitled : ∀ (w : Nat) (s : Socket), σ.sockets[w]? = some s → Entitled σ.accepted s
  named : ∀ u w, Odict.get? σ.connections u = some w → nameOf (.str u) = some u

/-! ## Nothing is lost or doubled -/

theorem Entitled.idle {accepted : List Json} {s : Socket} (hphase : s.phase ≠ .registering)
    (hfree : inHand s = []) : Entitled accepted s := by
  rintro (hreg | hhand)
  · exact absurd hreg hphase
  · exact absurd hfree hhand

theorem accepted_concat {l : List Json} {n : Nat} {toUser : Json} (v : Json)
    (h : l[n]? = some toUser) : (l ++ [v])[n]? = some toUser := by
  rw [List.getElem?_append_left (List.getElem?_eq_some_iff.mp h).1, h]

theorem Entitled.longer {accepted : List Json} {s : Socket} (h : Entitled accepted s) (v : Json) :
    Entitled (accepted ++ [v]) s := by
  intro hphase
  obtain ⟨t, hname, ht, hall⟩ := h hphase
  exact ⟨t, hname, ht, fun i hi => accepted_concat v (hall i hi)⟩

/-- Of all sockets, if the one that was changed is. -/
theorem entitled_set {accepted : List Json} {sockets : List Socket} {w : Nat} {s : Socket}
    (h : ∀ (v : Nat) (t : Socket), sockets[v]? = some t → Entitled accepted t)
    (hs : sockets[w]? = some s) {s' : Socket} (hs' : Entitled accepted s') (v : Nat) (t : Socket)
    (ht : (sockets.set w s')[v]? = some t) : Entitled accepted t := by
  by_cases hv : v = w
  · subst hv
    rw [List.getElem?_set_self (List.getElem?_eq_some_iff.mp hs).1] at ht
    cases ht
    exact hs'
  · rw [List.getElem?_set_ne (Ne.symm hv)] at ht
    exact h v t ht

theorem flatMap_set_perm {α β : Type} (f : α → List β) {l : List α} {i : Nat} {x : α}
    (h : l[i]? = some x) (y : α) :
    (f x ++ (l.set i y).flatMap f).Perm (f y ++ l.flatMap f) := by
  induction l generalizing i with
  | nil => simp at h
  | cons z l ih =>
      cases i with
      | zero =>
          obtain rfl : z = x := by simpa using h
          rw [List.set_cons_zero, List.flatMap_cons, List.flatMap_cons, ← List.append_assoc,
            ← List.append_assoc]
          exact List.perm_append_comm.append_right _
      | succ i =>
          rw [List.set_cons_succ, List.flatMap_cons, List.flatMap_cons]
          have hswap : ∀ a b c : List β, (a ++ (b ++ c)).Perm (b ++ (a ++ c)) := by
            intro a b c
            rw [← List.append_assoc, ← List.append_assoc]
            exact List.perm_append_comm.append_right _
          exact (hswap _ _ _).trans (((ih (by simpa using h)).append_left _).trans (hswap _ _ _))

theorem held_set {sockets : List Socket} {w : Nat} {s : Socket} (hs : sockets[w]? = some s)
    (s' : Socket) :
    (initNumbers (inHand s) ++ initNumbers ((sockets.set w s').flatMap inHand)).Perm
      (initNumbers (inHand s') ++ initNumbers (sockets.flatMap inHand)) := by
  rw [initNumbers, initNumbers, ← List.map_append, initNumbers, initNumbers, ← List.map_append]
  exact (flatMap_set_perm inHand hs s').map _

theorem held_same {sockets : List Socket} {w : Nat} {s : Socket} (hs : sockets[w]? = some s)
    (s' : Socket) (hhand : inHand s' = inHand s) :
    (initNumbers ((sockets.set w s').flatMap inHand)).Perm
      (initNumbers (sockets.flatMap inHand)) := by
  have h := held_set hs s'
  rw [hhand] at h
  exact (List.perm_append_left_iff _).mp h

/-- Taking a queue from its place. -/
theorem queued_erase {pending : Odict DictKey (List (Nat × Json))}
    (hk : (Odict.keys pending).Nodup) (key : DictKey) :
    (initNumbers ((Odict.get? pending key).getD [])
        ++ initNumbers ((Odict.erase pending key).flatMap (·.2))).Perm
      (initNumbers (pending.flatMap (·.2))) := by
  rw [initNumbers, initNumbers, ← List.map_append]
  exact (Odict.queues_erase hk key).map _

/-- One more at the end of a queue. -/
theorem queued_push {pending : Odict DictKey (List (Nat × Json))}
    (hk : (Odict.keys pending).Nodup) (key : DictKey) (init : Nat × Json) :
    (initNumbers ((Odict.set pending key ((Odict.get? pending key).getD [] ++ [init])).flatMap
      (·.2))).Perm (init.1 :: initNumbers (pending.flatMap (·.2))) :=
  (Odict.queues_push hk key init).map _

/-- One is handed over that was queued or held. -/
theorem perm_hand {n : Nat} {a q q' d d' l : List Nat} (h : (a ++ q ++ d).Perm l)
    (hq : (n :: (q' ++ d')).Perm (q ++ d)) : (n :: a ++ q' ++ d').Perm l := by
  refine List.Perm.trans ?_ h
  rw [List.append_assoc, List.append_assoc, List.cons_append]
  exact List.perm_middle.symm.trans (hq.append_left a)

/-- A handler goes on with what it has in hand. -/
theorem Inits.goOn (h : Inits σ) {w : Nat} {s s' : Socket} (hs : σ.sockets[w]? = some s)
    (hsockets : σ'.sockets = σ.sockets.set w s') (hhand : inHand s' = inHand s)
    (hs' : Entitled σ.accepted s') (hhanded : σ'.handed = σ.handed)
    (hpending : σ'.pendingInits = σ.pendingInits) (haccepted : σ'.accepted = σ.accepted)
    (hnamed : ∀ u v, Odict.get? σ'.connections u = some v → nameOf (.str u) = some u) :
    Inits σ' := by
  refine ⟨?_, ?_, ?_, ?_, hnamed⟩
  · rw [hhanded, haccepted, hpending, hsockets]
    exact ((held_same hs s' hhand).append_left _).trans h.conserved
  · rw [hpending]
    exact h.keys
  · rw [hpending, haccepted]
    exact h.keyed
  · rw [hsockets, haccepted]
    exact entitled_set h.entitled hs hs'

theorem Inits.keyed_longer (h : Inits σ) (v : Json) (key : DictKey) (i : Nat × Json)
    (hi : i ∈ (Odict.get? σ.pendingInits key).getD []) :
    ∃ toUser, (σ.accepted ++ [v])[i.1]? = some toUser ∧ toUser.dictKey = .ok key := by
  obtain ⟨toUser, hat, hkey⟩ := h.keyed key i hi
  exact ⟨toUser, accepted_concat v hat, hkey⟩

/-- The name a handler takes a queue for. -/
theorem Inits.entitled_name (h : Inits σ) {w : Nat} {s : Socket} {name : String}
    (hs : σ.sockets[w]? = some s) (hphase : s.phase = .registering ∨ inHand s ≠ [])
    (hname : s.username = .str name) : nameOf (.str name) = some name ∧
      ∀ i ∈ inHand s, σ.accepted[i.1]? = some (.str name) := by
  obtain ⟨t, ht, hnorm, hall⟩ := h.entitled w s hs hphase
  obtain rfl : name = t := by rw [hname] at ht; injection ht
  exact ⟨hnorm, hall⟩

/-- What is queued under a name is addressed by it. -/
theorem Inits.queued_name (h : Inits σ) {name : String} {i : Nat × Json}
    (hi : i ∈ (Odict.get? σ.pendingInits (.str name)).getD []) :
    σ.accepted[i.1]? = some (.str name) := by
  obtain ⟨toUser, hat, hkey⟩ := h.keyed (.str name) i hi
  rw [eq_str_of_dictKey hkey] at hat
  exact hat

theorem Inits.step (h : Inits σ) (act : RelayAct) : Inits (σ.step act) := by
  have hdoes := step_does σ act
  generalize σ.step act = σ' at hdoes
  generalize event σ act = e at hdoes
  cases hdoes with
  | same => exact h
  | connect =>
      refine ⟨?_, h.keys, h.keyed, fun w s hs => ?_, h.named⟩
      · have hheld : (σ.sockets ++ [({} : Socket)]).flatMap inHand = σ.sockets.flatMap inHand := by
          simp [inHand]
        rw [hheld]
        exact h.conserved
      · rcases getElem?_concat_cases hs with hold | ⟨-, rfl⟩
        · exact h.entitled w s hold
        · exact Entitled.idle (by simp) rfl
  | @close w s hs => exact h.goOn hs rfl rfl (h.entitled w s hs) rfl rfl rfl h.named
  | @moved w s phase wire bundles hs hfree hrun hphase =>
      have hfree' : inHand { s with phase := phase } = [] := by
        rcases hphase with rfl | rfl <;> rfl
      have hidle : phase ≠ .registering := by
        rcases hphase with rfl | rfl <;> simp
      exact h.goOn hs rfl (hfree'.trans hfree.symm) (.idle hidle hfree') rfl rfl rfl h.named
  | @drained w s name hs hphase hname hempty =>
      have hfree : inHand s = [] := by rw [inHand, hphase]
      refine ⟨?_, h.keys.sublist (List.filter_sublist.map _),
        fun key i hi => h.keyed key i (Odict.mem_queue_erase.mp hi).2,
        entitled_set h.entitled hs (.idle (by simp) rfl), h.named⟩
      have hqueued := queued_erase h.keys (.str name)
      rw [hempty] at hqueued
      have hheld := held_same hs { s with phase := .receiving } hfree.symm
      exact ((hqueued.append_left _).append hheld).trans h.conserved
  | rejected hs hphase hrequest =>
      exact h.goOn hs rfl (inHand_receiving hphase).symm (.idle (by simp) rfl) rfl rfl rfl h.named
  | @registered w s raw pub wire hs hphase hname =>
      refine h.goOn hs rfl (inHand_receiving hphase).symm ?_ rfl rfl rfl fun u v hget => ?_
      · exact fun _ => ⟨strip raw, rfl, nameOf_strip hname, fun i hi => absurd hi List.not_mem_nil⟩
      · by_cases hu : u = strip raw
        · rw [hu]
          exact nameOf_strip hname
        · rw [Odict.get?_set_ne _ hu] at hget
          exact h.named u v hget
  | @live w w' s toUser name ok msg hs hphase hfrom hkey hthere =>
      refine ⟨?_, h.keys, h.keyed_longer toUser, fun v t ht => ?_, h.named⟩
      · rw [List.length_append, List.length_singleton, List.range_succ]
        refine List.Perm.trans (List.Perm.cons _ ?_) (List.perm_append_singleton _ _).symm
        have hheld := held_same hs { s with phase := .replying } (inHand_receiving hphase).symm
        exact (hheld.append_left _).trans h.conserved
      · have hidle : Entitled σ.accepted { s with phase := .replying } := .idle (by simp) rfl
        exact (entitled_set h.entitled hs hidle v t ht).longer toUser
  | @queued w s toUser msg key ok hs hphase hfrom hkey hgone =>
      refine ⟨?_, Odict.set_keys_nodup h.keys _ _, fun key' i hi => ?_,
        fun v t ht => (h.entitled v t ht).longer toUser, h.named⟩
      · rw [List.length_append, List.length_singleton, List.range_succ]
        have hpush := queued_push h.keys key (σ.accepted.length, msg)
        refine List.Perm.trans ((hpush.append_left _).append_right _) ?_
        refine List.Perm.trans ?_ (List.perm_append_singleton _ _).symm
        refine List.Perm.trans (List.perm_middle.append_right _) (List.Perm.cons _ h.conserved)
      · rcases Odict.mem_queue_push.mp hi with hi | ⟨rfl, rfl⟩
        · exact h.keyed_longer toUser key' i hi
        · exact ⟨toUser, List.getElem?_concat_length .., hkey⟩
  | message hs hphase hfrom =>
      exact h.goOn hs rfl (inHand_receiving hphase).symm (.idle (by simp) rfl) rfl rfl rfl h.named
  | @taken w s name init rest ok hs hphase hname hqueue =>
      obtain ⟨hnorm, -⟩ := h.entitled_name hs (Or.inl hphase) hname
      refine ⟨?_, h.keys.sublist (List.filter_sublist.map _),
        fun key i hi => h.keyed key i (Odict.mem_queue_erase.mp hi).2, ?_, h.named⟩
      · have hqueued := queued_erase h.keys (.str name)
        rw [hqueue] at hqueued
        have hheld := held_set hs { s with phase := .delivering rest }
        rw [show inHand s = [] by rw [inHand, hphase]] at hheld
        refine perm_hand h.conserved ?_
        refine ((hheld.append_left _).cons _).trans ?_
        refine List.Perm.trans ?_ (hqueued.append_right _)
        rw [← List.append_assoc]
        exact (List.perm_append_comm.cons _).append_right _
      · refine entitled_set h.entitled hs fun _ => ⟨name, hname, hnorm, fun i hi => ?_⟩
        refine h.queued_name ?_
        rw [hqueue]
        exact List.mem_cons_of_mem _ hi
  | @next w s name init rest ok hs hphase hname =>
      have hhand : inHand s = init :: rest := by rw [inHand, hphase]
      obtain ⟨hnorm, hall⟩ := h.entitled_name hs (Or.inr (by simp [hhand])) hname
      rw [hhand] at hall
      refine ⟨?_, h.keys, h.keyed, entitled_set h.entitled hs fun _ =>
        ⟨name, hname, hnorm, fun i hi => hall i (List.mem_cons_of_mem _ hi)⟩, h.named⟩
      refine perm_hand h.conserved ?_
      have hheld := held_set hs { s with phase := .delivering rest }
      rw [hhand] at hheld
      have hone := (List.perm_append_left_iff (initNumbers rest)).mp (List.perm_middle.trans hheld)
      exact List.perm_middle.symm.trans (hone.append_left _)
  | finished hs hphase =>
      exact h.goOn hs rfl (inHand_receiving hphase).symm (.idle (by simp) rfl) rfl rfl rfl h.named
  | @raised w s hs hphase =>
      have hnamed : ∀ u v, Odict.get? (σ.cleanUp s.username).connections u = some v →
          nameOf (.str u) = some u := fun u v hget => h.named u v (cleanUp_get hget)
      obtain ⟨connections, pubs, heq⟩ := cleanUp_frame σ s.username
      rw [heq] at hnamed ⊢
      exact h.goOn hs rfl (inHand_receiving hphase).symm (.idle (by simp) rfl) rfl rfl rfl hnamed

/-! ## In the right place -/

theorem mem_queued {pending : Odict DictKey (List (Nat × Json))} {key : DictKey} {i : Nat × Json}
    (h : i ∈ (Odict.get? pending key).getD []) : i.1 ∈ initNumbers (pending.flatMap (·.2)) := by
  cases hget : Odict.get? pending key with
  | none =>
      rw [hget] at h
      cases h
  | some inits =>
      rw [hget] at h
      exact List.mem_map_of_mem (List.mem_flatMap.mpr ⟨_, Odict.mem_of_get? hget, h⟩)

theorem mem_held {sockets : List Socket} {w : Nat} {s : Socket} {i : Nat × Json}
    (hs : sockets[w]? = some s) (h : i ∈ inHand s) :
    i.1 ∈ initNumbers (sockets.flatMap inHand) :=
  List.mem_map_of_mem (List.mem_flatMap.mpr ⟨s, List.mem_of_getElem? hs, h⟩)

/-- What was handed over is nowhere else. -/
theorem Inits.placed_handed (h : Inits σ) {r : HandedRecord} (hr : r ∈ σ.handed) {t : String}
    (ht : r.name = t) : Placed σ r.number t ↔ r.arrived = true ∧ r.registered = true := by
  have hnd : (σ.handed.map (·.number) ++ initNumbers (σ.pendingInits.flatMap (·.2))
      ++ initNumbers (σ.sockets.flatMap inHand)).Nodup := h.conserved.nodup_iff.mpr List.nodup_range
  rw [List.append_assoc, List.nodup_append] at hnd
  obtain ⟨hhanded, -, hapart⟩ := hnd
  have hmem : r.number ∈ σ.handed.map (·.number) := List.mem_map_of_mem hr
  constructor
  · rintro (⟨r', hr', hn, -, harrived⟩ | ⟨i, hi, hn⟩ | ⟨w, s, hs, -, i, hi, hn⟩)
    · rw [List.inj_on_of_nodup_map hhanded hr' hr hn] at harrived
      exact harrived
    · exact absurd hn.symm (hapart _ hmem _ (List.mem_append_left _ (mem_queued hi)))
    · exact absurd hn.symm (hapart _ hmem _ (List.mem_append_right _ (mem_held hs hi)))
  · rintro ⟨harrived, hregistered⟩
    exact Or.inl ⟨r, hr, rfl, ht, harrived, hregistered⟩

/-- What is queued is nowhere else, and in one queue. -/
theorem Inits.placed_queued (h : Inits σ) {key : DictKey} {i : Nat × Json}
    (hi : i ∈ (Odict.get? σ.pendingInits key).getD []) (t : String) :
    Placed σ i.1 t ↔ key = .str t := by
  have hnd : (σ.handed.map (·.number) ++ initNumbers (σ.pendingInits.flatMap (·.2))
      ++ initNumbers (σ.sockets.flatMap inHand)).Nodup := h.conserved.nodup_iff.mpr List.nodup_range
  rw [List.nodup_append] at hnd
  obtain ⟨hfirst, -, hheld⟩ := hnd
  have hqueued := mem_queued hi
  constructor
  · rintro (⟨r, hr, hn, -⟩ | ⟨i', hi', hn⟩ | ⟨w, s, hs, -, i', hi', hn⟩)
    · exact absurd hn ((List.nodup_append.mp hfirst).2.2 _ (List.mem_map_of_mem hr) _ hqueued)
    · obtain ⟨v, hat, hkey⟩ := h.keyed key i hi
      obtain ⟨v', hat', hkey'⟩ := h.keyed (.str t) i' hi'
      rw [hn, hat] at hat'
      obtain rfl : v = v' := Option.some.inj hat'
      rw [hkey] at hkey'
      exact Except.ok.inj hkey'
    · exact absurd hn.symm (hheld _ (List.mem_append_right _ hqueued) _ (mem_held hs hi'))
  · rintro rfl
    exact Or.inr (Or.inl ⟨i, hi, rfl⟩)

/-- Where something is kept it stays kept, if the step takes nothing away. -/
theorem Placed.mono {n : Nat} {t : String} (h : Placed σ n t)
    (hhanded : ∀ r ∈ σ.handed, r ∈ σ'.handed)
    (hqueued : ∀ i ∈ (Odict.get? σ.pendingInits (.str t)).getD [],
      i ∈ (Odict.get? σ'.pendingInits (.str t)).getD [])
    (hheld : ∀ (w : Nat) (s : Socket), σ.sockets[w]? = some s → inHand s ≠ [] →
      ∃ s', σ'.sockets[w]? = some s' ∧ s'.username = s.username ∧ inHand s' = inHand s) :
    Placed σ' n t := by
  rcases h with ⟨r, hr, hrest⟩ | ⟨i, hi, hn⟩ | ⟨w, s, hs, hname, i, hi, hn⟩
  · exact Or.inl ⟨r, hhanded r hr, hrest⟩
  · exact Or.inr (Or.inl ⟨i, hqueued i hi, hn⟩)
  · obtain ⟨s', hs', hname', hhand⟩ := hheld w s hs (List.ne_nil_of_mem hi)
    exact Or.inr (Or.inr ⟨w, s', hs', by rw [hname', hname], i, by rw [hhand]; exact hi, hn⟩)

/-- The hands of all others, and of a handler that has nothing in them. -/
theorem held_others {w : Nat} {s s' : Socket} (hs : σ.sockets[w]? = some s)
    (hsame : inHand s ≠ [] → s'.username = s.username ∧ inHand s' = inHand s) (v : Nat)
    (t : Socket) (ht : σ.sockets[v]? = some t) (hhand : inHand t ≠ []) :
    ∃ t', (σ.sockets.set w s')[v]? = some t' ∧ t'.username = t.username ∧ inHand t' = inHand t := by
  by_cases hv : v = w
  · subst hv
    obtain rfl : s = t := by rw [hs] at ht; injection ht
    exact ⟨s', List.getElem?_set_self (List.getElem?_eq_some_iff.mp hs).1, hsame hhand⟩
  · exact ⟨t, by rw [List.getElem?_set_ne (Ne.symm hv), ht], rfl, rfl⟩

theorem held_free {w : Nat} {s : Socket} (hs : σ.sockets[w]? = some s) (hfree : inHand s = [])
    (s' : Socket) (v : Nat) (t : Socket) (ht : σ.sockets[v]? = some t) (hhand : inHand t ≠ []) :
    ∃ t', (σ.sockets.set w s')[v]? = some t' ∧ t'.username = t.username ∧ inHand t' = inHand t :=
  held_others hs (fun hne => absurd hfree hne) v t ht hhand

/-- A handler takes the queue and hands over its first: what else was in the
queue is in its hands. -/
theorem Placed.taken {n w : Nat} {s : Socket} {t name : String} {init : Nat × Json}
    {rest : List (Nat × Json)} {record : HandedRecord} (h : Placed σ n t)
    (hs : σ.sockets[w]? = some s)
    (hfree : inHand s = []) (hname : s.username = .str name)
    (hqueue : Odict.get? σ.pendingInits (.str name) = some (init :: rest)) (hn : n ≠ init.1)
    (hhanded : σ'.handed = record :: σ.handed)
    (hpending : σ'.pendingInits = Odict.erase σ.pendingInits (.str name))
    (hsockets : σ'.sockets = σ.sockets.set w { s with phase := .delivering rest }) :
    Placed σ' n t := by
  rw [Placed, hhanded, hpending, hsockets]
  rcases h with ⟨r, hr, hrest⟩ | ⟨i, hi, rfl⟩ | ⟨v, u, hu, huname, i, hi, hin⟩
  · exact Or.inl ⟨r, List.mem_cons_of_mem _ hr, hrest⟩
  · by_cases ht : t = name
    · subst ht
      rw [hqueue, Option.getD_some] at hi
      have hi := (List.mem_cons.mp hi).resolve_left fun heq => hn (congrArg Prod.fst heq)
      have hw := (List.getElem?_eq_some_iff.mp hs).1
      exact Or.inr (Or.inr ⟨w, _, List.getElem?_set_self hw, hname, i, hi, rfl⟩)
    · exact Or.inr (Or.inl ⟨i, Odict.mem_queue_erase.mpr ⟨by simpa using ht, hi⟩, rfl⟩)
  · obtain ⟨u', hu', huname', huhand⟩ := held_free hs hfree
      { s with phase := .delivering rest } v u hu (List.ne_nil_of_mem hi)
    exact Or.inr (Or.inr ⟨v, u', hu', huname'.trans huname, i, by rw [huhand]; exact hi, hin⟩)

/-- A handler hands over the next one: the rest stays in its hands. -/
theorem Placed.next {n w : Nat} {s : Socket} {t : String} {init : Nat × Json}
    {rest : List (Nat × Json)} {record : HandedRecord} (h : Placed σ n t)
    (hs : σ.sockets[w]? = some s)
    (hhand : inHand s = init :: rest) (hn : n ≠ init.1)
    (hhanded : σ'.handed = record :: σ.handed) (hpending : σ'.pendingInits = σ.pendingInits)
    (hsockets : σ'.sockets = σ.sockets.set w { s with phase := .delivering rest }) :
    Placed σ' n t := by
  rw [Placed, hhanded, hpending, hsockets]
  rcases h with ⟨r, hr, hrest⟩ | hqueued | ⟨v, u, hu, huname, i, hi, rfl⟩
  · exact Or.inl ⟨r, List.mem_cons_of_mem _ hr, hrest⟩
  · exact Or.inr (Or.inl hqueued)
  · refine Or.inr (Or.inr ?_)
    by_cases hv : v = w
    · subst hv
      obtain rfl : s = u := by rw [hs] at hu; injection hu
      rw [hhand] at hi
      have hi := (List.mem_cons.mp hi).resolve_left fun heq => hn (congrArg Prod.fst heq)
      have hw := (List.getElem?_eq_some_iff.mp hs).1
      exact ⟨v, _, List.getElem?_set_self hw, huname, i, hi, rfl⟩
    · exact ⟨v, u, by rw [List.getElem?_set_ne (Ne.symm hv), hu], huname, i, hi, rfl⟩

/-- Nothing is accepted and nothing handed over. -/
theorem InitsPlaced.quiet (h : InitsPlaced σ) (haccepted : σ'.accepted = σ.accepted)
    (hhanded : σ'.handed = σ.handed)
    (hqueued : ∀ t, ∀ i ∈ (Odict.get? σ.pendingInits (.str t)).getD [],
      i ∈ (Odict.get? σ'.pendingInits (.str t)).getD [])
    (hheld : ∀ (w : Nat) (s : Socket), σ.sockets[w]? = some s → inHand s ≠ [] →
      ∃ s', σ'.sockets[w]? = some s' ∧ s'.username = s.username ∧ inHand s' = inHand s) :
    InitsPlaced σ' := by
  intro n toUser t hat ht
  rw [haccepted] at hat
  exact (h n toUser t hat ht).mono (fun r hr => by rw [hhanded]; exact hr) (hqueued t) hheld

/-- One more was accepted: the old ones are kept, and it is. -/
theorem InitsPlaced.accepted_iff (h : InitsPlaced σ) {v : Json}
    (haccepted : σ'.accepted = σ.accepted ++ [v])
    (hold : ∀ n t, Placed σ n t → Placed σ' n t) :
    InitsPlaced σ' ↔ ∀ t, nameOf v = some t → Placed σ' σ.accepted.length t := by
  rw [InitsPlaced, haccepted]
  constructor
  · intro hnew t ht
    exact hnew _ v t (List.getElem?_concat_length ..) ht
  · intro hnew n toUser t hat ht
    rcases getElem?_concat_cases hat with hat | ⟨rfl, rfl⟩
    · exact hold n t (h n toUser t hat ht)
    · exact hnew t ht

/-- One was handed over: the others are kept, and it is. -/
theorem InitsPlaced.handed_iff (h : InitsPlaced σ) {m : Nat} {name : String}
    (hm : σ.accepted[m]? = some (.str name)) (hname : nameOf (.str name) = some name)
    (haccepted : σ'.accepted = σ.accepted)
    (hold : ∀ n t, n ≠ m → Placed σ n t → Placed σ' n t) :
    InitsPlaced σ' ↔ Placed σ' m name := by
  rw [InitsPlaced, haccepted]
  constructor
  · intro hplaced
    exact hplaced m _ name hm hname
  · intro hplaced n toUser t hat ht
    by_cases hn : n = m
    · subst hn
      rw [hm] at hat
      obtain rfl := Option.some.inj hat
      rw [hname] at ht
      obtain rfl := Option.some.inj ht
      exact hplaced
    · exact hold n t hn (h n toUser t hat ht)

theorem Inits.placed_step (h : Inits σ) (act : RelayAct) (hplaced : InitsPlaced σ) :
    InitsPlaced (σ.step act) ↔ InitArrives σ act := by
  have h' := h.step act
  have hdoes := step_does σ act
  unfold InitArrives
  generalize σ.step act = σ' at hdoes h'
  generalize event σ act = e at hdoes
  cases hdoes with
  | same => exact iff_of_true hplaced trivial
  | connect =>
      refine iff_of_true (hplaced.quiet rfl rfl (fun _ _ hi => hi) fun w s hs _ => ?_) trivial
      exact ⟨s, by rw [List.getElem?_append_left (List.getElem?_eq_some_iff.mp hs).1, hs], rfl, rfl⟩
  | close hs =>
      exact iff_of_true (hplaced.quiet rfl rfl (fun _ _ hi => hi)
        (held_others hs fun _ => ⟨rfl, rfl⟩)) trivial
  | moved hs hfree hrun hphase =>
      exact iff_of_true (hplaced.quiet rfl rfl (fun _ _ hi => hi) (held_free hs hfree _)) trivial
  | @drained w s name hs hphase hname hempty =>
      have hfree : inHand s = [] := by rw [inHand, hphase]
      refine iff_of_true (hplaced.quiet rfl rfl (fun t i hi => ?_) (held_free hs hfree _)) trivial
      refine Odict.mem_queue_erase.mpr ⟨?_, hi⟩
      rintro ⟨⟩
      rw [hempty] at hi
      cases hi
  | rejected hs hphase _ | registered hs hphase _ | message hs hphase _ | finished hs hphase =>
      exact iff_of_true (hplaced.quiet rfl rfl (fun _ _ hi => hi)
        (held_free hs (inHand_receiving hphase) _)) trivial
  | @raised w s hs hphase =>
      obtain ⟨connections, pubs, heq⟩ := cleanUp_frame σ s.username
      rw [heq]
      exact iff_of_true (hplaced.quiet rfl rfl (fun _ _ hi => hi)
        (held_free hs (inHand_receiving hphase) _)) trivial
  | @live w w' s toUser name ok msg hs hphase hfrom hkey hthere =>
      have hconnection : σ.connection (.str name) = some (name, w') := by
        rw [Relay.connection, hthere]
        rfl
      have hname : nameOf toUser = some name := by
        rw [eq_str_of_dictKey hkey]
        exact h.named name w' hthere
      refine Iff.trans (hplaced.accepted_iff rfl fun n t hk => ?_) ?_
      · exact hk.mono (fun r hr => List.mem_cons_of_mem _ hr) (fun _ hi => hi)
          (held_free hs (inHand_receiving hphase) _)
      · simp only [hconnection, hname, Option.some.injEq, forall_eq']
        exact (h'.placed_handed List.mem_cons_self rfl).trans (and_iff_left rfl)
  | @queued w s toUser msg key ok hs hphase hfrom hkey hgone =>
      have hlast : (σ.accepted.length, msg) ∈ (Odict.get? (Odict.set σ.pendingInits key
          ((Odict.get? σ.pendingInits key).getD [] ++ [(σ.accepted.length, msg)])) key).getD
            [] :=
        Odict.mem_queue_push.mpr (Or.inr ⟨rfl, rfl⟩)
      refine Iff.trans (hplaced.accepted_iff rfl fun n t hk => ?_) ?_
      · exact hk.mono (fun _ hr => hr) (fun i hi => Odict.mem_queue_push.mpr (Or.inl hi))
          fun v t ht _ => ⟨t, ht, rfl, rfl⟩
      · simp only [hgone]
        exact forall_congr' fun t => imp_congr_right fun _ => h'.placed_queued hlast t
  | @taken w s name init rest ok hs hphase hname hqueue =>
      have hfree : inHand s = [] := by rw [inHand, hphase]
      obtain ⟨hnorm, -⟩ := h.entitled_name hs (Or.inl hphase) hname
      have hat : σ.accepted[init.1]? = some (.str name) := by
        refine h.queued_name ?_
        rw [hqueue]
        exact List.mem_cons_self
      refine Iff.trans (hplaced.handed_iff hat hnorm rfl fun n t hn hk => ?_) ?_
      · exact hk.taken hs hfree hname hqueue hn rfl rfl rfl
      · exact (h'.placed_handed List.mem_cons_self rfl).trans (by simp)
  | @next w s name init rest ok hs hphase hname =>
      have hhand : inHand s = init :: rest := by rw [inHand, hphase]
      obtain ⟨hnorm, hall⟩ := h.entitled_name hs (Or.inr (by simp [hhand])) hname
      refine Iff.trans (hplaced.handed_iff (hall init (by rw [hhand]; exact List.mem_cons_self))
        hnorm rfl fun n t hn hk => ?_) ?_
      · exact hk.next hs hhand hn rfl rfl rfl
      · exact (h'.placed_handed List.mem_cons_self rfl).trans (by simp)

theorem Inits.start : Inits {} := by
  refine ⟨List.Perm.refl _, List.nodup_nil, fun key i hi => ?_, nofun, nofun⟩
  cases hi

theorem Inits.run (acts : List RelayAct) : Inits (runFrom Relay.step {} acts) :=
  runFrom_invariant (fun _ act h => h.step act) Inits.start acts

/-! ## As the clients see it -/

/-- Message number `n` was sent to a socket that was open and registered as the
user: attempt and wire entry stand at the same place. -/
def WentOut (σ : Relay) (n : Nat) (t : String) (msg : Json) : Prop :=
  ∃ (k w : Nat) (r : HandedRecord), (initsOnWire σ)[k]? = some (w, msg, true) ∧
    σ.handed[k]? = some r ∧ r.number = n ∧ r.name = t ∧ r.registered = true

/-- A handler that registered the user has the message in hand. -/
def InHandOf (σ : Relay) (w n : Nat) (t : String) (msg : Json) : Prop :=
  ∃ s, σ.sockets[w]? = some s ∧ s.username = .str t ∧ (n, msg) ∈ inHand s

/-- Sent, or queued for the user, or about to be sent. -/
def Kept (σ : Relay) (n : Nat) (t : String) (msg : Json) : Prop :=
  WentOut σ n t msg ∨ (n, msg) ∈ (Odict.get? σ.pendingInits (.str t)).getD [] ∨
    ∃ w, InHandOf σ w n t msg

/-- After a run, this holds of every session_init that was accepted for a
user. -/
def InitsKept (acts : List RelayAct) : Prop :=
  ∀ n toUser t msg, (runFrom Relay.step {} acts).accepted[n]? = some toUser →
    nameOf toUser = some t → (acceptedInits acts)[n]? = some msg →
    Kept (runFrom Relay.step {} acts) n t msg

/-- When a register is over, what was accepted for its user before it has been
sent, unless a handler that registered the same user earlier has taken it and
is sending it. -/
def SentByRegister (acts : List RelayAct) : Prop :=
  ∀ (before : List RelayAct) (act : RelayAct) (later : List RelayAct) (w : Nat) (raw : String)
    (s : Socket), acts = before ++ act :: later →
    event (runFrom Relay.step {} before) act = .registered w raw →
    (runFrom Relay.step {} acts).sockets[w]? = some s → s.phase = .receiving →
    ∀ n toUser msg, (runFrom Relay.step {} before).accepted[n]? = some toUser →
      nameOf toUser = some (strip raw) → (acceptedInits before)[n]? = some msg →
      WentOut (runFrom Relay.step {} acts) n (strip raw) msg ∨
        ∃ v ≠ w, InHandOf (runFrom Relay.step {} acts) v n (strip raw) msg

section Seen

variable {inits : List Json} {n w : Nat} {t : String} {msg : Json}

theorem OnWire.sent_at (h : OnWire σ inits) {k : Nat} {r : HandedRecord}
    (hr : σ.handed[k]? = some r) : ∃ e, (initsOnWire σ)[k]? = some e ∧
      inits[r.number]? = some e.2.1 ∧ e.2.2 = r.arrived := by
  obtain ⟨hk, hget⟩ := List.getElem?_eq_some_iff.mp hr
  have hk' : k < (initsOnWire σ).length := by
    rw [h.sent.length_eq]
    exact hk
  have hat := h.sent.get hk' hk
  rw [List.get_eq_getElem, List.get_eq_getElem, hget] at hat
  exact ⟨_, List.getElem?_eq_getElem hk', hat⟩

/-- The records place a message where the clients see it. -/
theorem OnWire.kept_iff (h : OnWire σ inits) (hmsg : inits[n]? = some msg) :
    Kept σ n t msg ↔ Placed σ n t := by
  have hnamed : ∀ {i : Nat × Json}, inits[i.1]? = some i.2 → i.1 = n → i = (n, msg) := by
    rintro ⟨m, v⟩ hi rfl
    rw [hmsg] at hi
    rw [Option.some.inj hi]
  constructor
  · rintro (⟨k, w, r, he, hr, hn, ht, hregistered⟩ | hqueued | ⟨w, s, hs, hname, hi⟩)
    · obtain ⟨e, he', -, harrived⟩ := h.sent_at hr
      rw [he] at he'
      cases he'
      exact Or.inl ⟨r, List.mem_of_getElem? hr, hn, ht, harrived.symm, hregistered⟩
    · exact Or.inr (Or.inl ⟨_, hqueued, rfl⟩)
    · exact Or.inr (Or.inr ⟨w, s, hs, hname, _, hi, rfl⟩)
  · rintro (⟨r, hr, hn, ht, harrived, hregistered⟩ | ⟨i, hi, hn⟩ | ⟨w, s, hs, hname, i, hi, hn⟩)
    · obtain ⟨k, hk⟩ := List.getElem?_of_mem hr
      obtain ⟨⟨w, v, arrived⟩, he, hv, heq⟩ := h.sent_at hk
      rw [hn, hmsg] at hv
      obtain rfl : msg = v := Option.some.inj hv
      obtain rfl : arrived = true := heq.trans harrived
      exact Or.inl ⟨k, w, r, he, hk, hn, ht, hregistered⟩
    · rw [hnamed (h.queued _ i hi) hn] at hi
      exact Or.inr (Or.inl hi)
    · rw [hnamed (h.held w s hs i hi) hn] at hi
      exact Or.inr (Or.inr ⟨w, s, hs, hname, hi⟩)

theorem initsKept_iff (acts : List RelayAct) :
    InitsKept acts ↔ InitsPlaced (runFrom Relay.step {} acts) := by
  have hwire := onWire_run acts
  constructor
  · intro h n toUser t hat ht
    have hn : n < (acceptedInits acts).length := by
      rw [hwire.count]
      exact (List.getElem?_eq_some_iff.mp hat).1
    have hmsg := List.getElem?_eq_getElem hn
    exact (hwire.kept_iff hmsg).mp (h n toUser t _ hat ht hmsg)
  · intro h n toUser t msg hat ht hmsg
    exact (hwire.kept_iff hmsg).mpr (h n toUser t hat ht)

end Seen

/-! ## A register takes all there is -/

/-- The handler has answered the register of a user and not taken the queue. -/
def Waiting (σ : Relay) (w : Nat) (t : String) : Prop :=
  ∃ s, σ.sockets[w]? = some s ∧ s.phase = .registering ∧ s.username = .str t

/-- The handler of a register has not taken the queue yet, or the first `n`
session_inits are not in it. -/
structure Emptied (w : Nat) (t : String) (n : Nat) (σ : Relay) : Prop where
  later : n ≤ σ.accepted.length
  queue : Waiting σ w t ∨ ∀ i ∈ (Odict.get? σ.pendingInits (.str t)).getD [], n ≤ i.1

section Emptied

variable {w n : Nat} {t : String}

/-- Another handler changes. -/
theorem Waiting.set {v : Nat} {s s' : Socket} (hwait : Waiting σ w t)
    (hs : σ.sockets[v]? = some s) (hphase : s.phase ≠ .registering)
    (hsockets : σ'.sockets = σ.sockets.set v s') : Waiting σ' w t := by
  obtain ⟨u, hu, hreg, hname⟩ := hwait
  have hne : v ≠ w := by
    rintro rfl
    obtain rfl : s = u := Option.some.inj (hs.symm.trans hu)
    exact hphase hreg
  refine ⟨u, ?_, hreg, hname⟩
  rw [hsockets, List.getElem?_set_ne hne]
  exact hu

/-- The queue does not grow. -/
theorem Emptied.keep (h : Emptied w t n σ) (haccepted : σ'.accepted = σ.accepted)
    (hwait : Waiting σ w t → Waiting σ' w t)
    (hqueue : ∀ i ∈ (Odict.get? σ'.pendingInits (.str t)).getD [],
      i ∈ (Odict.get? σ.pendingInits (.str t)).getD []) : Emptied w t n σ' where
  later := haccepted ▸ h.later
  queue := h.queue.imp hwait fun hall i hi => hall i (hqueue i hi)

/-- A handler takes its queue: the one that waited has done so now. -/
theorem Emptied.take (h : Emptied w t n σ) {v : Nat} {s s' : Socket} {name : String}
    (hs : σ.sockets[v]? = some s) (hname : s.username = .str name)
    (haccepted : σ'.accepted = σ.accepted) (hsockets : σ'.sockets = σ.sockets.set v s')
    (hpending : σ'.pendingInits = Odict.erase σ.pendingInits (.str name)) : Emptied w t n σ' := by
  have hsub : ∀ i ∈ (Odict.get? σ'.pendingInits (.str t)).getD [],
      t ≠ name ∧ i ∈ (Odict.get? σ.pendingInits (.str t)).getD [] := by
    intro i hi
    rw [hpending] at hi
    obtain ⟨hkey, hi⟩ := Odict.mem_queue_erase.mp hi
    exact ⟨fun heq => hkey (by rw [heq]), hi⟩
  refine ⟨haccepted ▸ h.later, ?_⟩
  rcases h.queue with ⟨u, hu, hreg, huname⟩ | hall
  · by_cases hv : v = w
    · subst hv
      obtain rfl : s = u := Option.some.inj (hs.symm.trans hu)
      rw [hname] at huname
      cases huname
      exact Or.inr fun i hi => absurd rfl (hsub i hi).1
    · refine Or.inl ⟨u, ?_, hreg, huname⟩
      rw [hsockets, List.getElem?_set_ne hv]
      exact hu
  · exact Or.inr fun i hi => hall i (hsub i hi).2

theorem Emptied.step (h : Emptied w t n σ) (act : RelayAct) : Emptied w t n (σ.step act) := by
  have hdoes := step_does σ act
  generalize σ.step act = σ' at hdoes
  generalize event σ act = e at hdoes
  cases hdoes with
  | same => exact h
  | connect =>
      refine h.keep rfl (fun hwait => ?_) fun _ hi => hi
      obtain ⟨s, hs, hrest⟩ := hwait
      refine ⟨s, ?_, hrest⟩
      rw [List.getElem?_append_left (List.getElem?_eq_some_iff.mp hs).1]
      exact hs
  | @close v s hs =>
      refine h.keep rfl (fun hwait => ?_) fun _ hi => hi
      obtain ⟨u, hu, hreg, hname⟩ := hwait
      by_cases hv : v = w
      · subst hv
        obtain rfl : s = u := Option.some.inj (hs.symm.trans hu)
        exact ⟨_, List.getElem?_set_self (List.getElem?_eq_some_iff.mp hs).1, hreg, hname⟩
      · exact ⟨u, by rw [List.getElem?_set_ne hv]; exact hu, hreg, hname⟩
  | moved hs hfree hrun hphase hnot =>
      exact h.keep rfl (fun hwait => hwait.set hs hnot rfl) fun _ hi => hi
  | drained hs hphase hname hempty => exact h.take hs hname rfl rfl rfl
  | taken hs hphase hname hqueue => exact h.take hs hname rfl rfl rfl
  | rejected hs hphase | registered hs hphase | message hs hphase | finished hs hphase =>
      exact h.keep rfl (fun hwait => hwait.set hs (not_registering hphase) rfl) fun _ hi => hi
  | next hs hphase =>
      refine h.keep rfl (fun hwait => hwait.set hs ?_ rfl) fun _ hi => hi
      rw [hphase]
      rintro ⟨⟩
  | @raised v s hs hphase =>
      obtain ⟨connections, pubs, heq⟩ := cleanUp_frame σ s.username
      rw [heq]
      exact h.keep rfl (fun hwait => hwait.set hs (not_registering hphase) rfl) fun _ hi => hi
  | live hs hphase =>
      have hlater := h.later
      refine ⟨?_, h.queue.imp (fun hwait => hwait.set hs (not_registering hphase) rfl) id⟩
      rw [List.length_append]
      omega
  | @queued v s toUser msg key ok hs hphase hfrom hkey hgone =>
      have hlater := h.later
      refine ⟨?_, h.queue.imp id fun hall i hi => ?_⟩
      · rw [List.length_append]
        omega
      · rcases Odict.mem_queue_push.mp hi with hi | ⟨-, rfl⟩
        · exact hall i hi
        · exact hlater

/-- Once the handler of a register receives again, nothing that was accepted
before the register is queued for its user. -/
theorem register_empties {act : RelayAct} {later : List RelayAct} {raw : String} {s : Socket}
    (hevent : event σ act = .registered w raw)
    (hs : (runFrom Relay.step σ (act :: later)).sockets[w]? = some s)
    (hphase : s.phase = .receiving) :
    ∀ i ∈ (Odict.get? (runFrom Relay.step σ (act :: later)).pendingInits
      (.str (strip raw))).getD [], σ.accepted.length ≤ i.1 := by
  have hstart : Emptied w (strip raw) σ.accepted.length (σ.step act) := by
    have hdoes := step_does σ act
    generalize σ.step act = σ' at hdoes
    rw [hevent] at hdoes
    cases hdoes with
    | registered hs hphase hname =>
        exact ⟨Nat.le_refl _, Or.inl ⟨_, List.getElem?_set_self
          (List.getElem?_eq_some_iff.mp hs).1, rfl, rfl⟩⟩
  have hend : Emptied w (strip raw) σ.accepted.length (runFrom Relay.step (σ.step act) later) :=
    runFrom_invariant (fun _ act h => h.step act) hstart later
  refine hend.queue.resolve_left fun hwait => ?_
  obtain ⟨u, hu, hreg, -⟩ := hwait
  obtain rfl : s = u := Option.some.inj (hs.symm.trans hu)
  rw [hphase] at hreg
  cases hreg

end Emptied

/-! ## What was accepted stays accepted -/

theorem step_accepted (σ : Relay) (act : RelayAct) : σ.accepted <+: (σ.step act).accepted := by
  have hdoes := step_does σ act
  generalize σ.step act = σ' at hdoes
  generalize event σ act = e at hdoes
  cases hdoes with
  | live | queued => exact List.prefix_append _ _
  | @raised w s hs hphase =>
      obtain ⟨connections, pubs, heq⟩ := cleanUp_frame σ s.username
      have hsame : (σ.cleanUp s.username).accepted = σ.accepted := by rw [heq]
      exact ⟨[], (List.append_nil _).trans hsame.symm⟩
  | _ => exact List.prefix_refl _

theorem run_accepted (σ : Relay) (acts : List RelayAct) :
    σ.accepted <+: (runFrom Relay.step σ acts).accepted :=
  runFrom_prefix (·.accepted) step_accepted σ acts

theorem run_inits (x : Relay × List Json) (acts : List RelayAct) :
    x.2 <+: (runFrom acceptStep x acts).2 :=
  runFrom_prefix Prod.snd (fun _ _ => List.prefix_append _ _) x acts

theorem InitsKept.sentByRegister {acts : List RelayAct} (h : InitsKept acts) :
    SentByRegister acts := by
  rintro before act later w raw s rfl hevent hs hphase n toUser msg hat hname hmsg
  have hat' : (runFrom Relay.step {} (before ++ act :: later)).accepted[n]? = some toUser := by
    rw [runFrom_append]
    exact getElem?_stays (run_accepted _ _) hat
  have hmsg' : (acceptedInits (before ++ act :: later))[n]? = some msg := by
    rw [acceptedInits, runFrom_append]
    exact getElem?_stays (run_inits _ _) hmsg
  rcases h n toUser _ msg hat' hname hmsg' with hsent | hqueued | ⟨v, hhand⟩
  · exact Or.inl hsent
  · -- The register took what had been queued.
    rw [runFrom_append] at hqueued hs
    have hle := register_empties hevent hs hphase _ hqueued
    have hlt := (List.getElem?_eq_some_iff.mp hat).1
    exact absurd hle (by omega)
  · refine Or.inr ⟨v, fun hv => ?_, hhand⟩
    obtain ⟨u, hu, -, hi⟩ := hhand
    rw [hv] at hu
    obtain rfl : s = u := Option.some.inj (hs.symm.trans hu)
    rw [inHand_receiving hphase] at hi
    cases hi

/-- Over every run of the relay, and every part of it: each session_init that was
accepted for a user has been sent to a socket that was open and registered as
that user, or is queued for the user, or is in the hands of the handler that took
the queue as the user registered, and what was accepted before the user registers
is sent when the register is over; exactly if every session_init that is sent
arrives at an open and registered socket, and every one that is queued is
addressed by the stripped name. -/
theorem inits_kept_iff (acts : List RelayAct) :
    (∀ n, InitsKept (acts.take n) ∧ SentByRegister (acts.take n)) ↔
      Along Relay.step InitArrives {} acts := by
  have hplaced : (∀ n, InitsPlaced (runFrom Relay.step {} (acts.take n))) ↔
      Along Relay.step InitArrives {} acts :=
    Along.always_iff (fun σ act h => h.step act) (fun σ act h hplaced => h.placed_step act hplaced)
      Inits.start nofun
  rw [← hplaced]
  refine forall_congr' fun n => ?_
  rw [← initsKept_iff]
  exact ⟨fun h => h.1, fun h => ⟨h, h.sentByRegister⟩⟩

def initObj (toUser : String) : RelayInput :=
  .json (.dict [("type", .str "session_init"), ("to", .str toUser),
    ("identity_dh_pub", .str "aWQ"), ("eph_pub", .str "ZXBo")])

/-- `bob` has disconnected when `alice` opens a session, and the relay sends
her session_init to the socket he had. -/
def lostRun : List RelayAct := [
  .connect, .receive 0 (registerObj (.str "bob")) true, .resume 0 true, .resume 0 true,
  .receive 0 .failed true,
  .connect, .receive 1 (registerObj (.str "alice")) true, .resume 1 true, .resume 1 true,
  .receive 1 (initObj "bob") true]

theorem init_lost : ¬ InitsKept lostRun := by
  intro h
  have hplaced := (initsKept_iff lostRun).mp h 0 (.str "bob") "bob" rfl (by decide +kernel)
  -- It was handed over, once, and did not arrive.
  have harrived := (((Inits.run lostRun).placed_handed (r := ⟨0, "bob", false, true⟩)
    (List.mem_singleton.mpr rfl) rfl).mp hplaced).1
  cases harrived

end GhostChat.Proofs
