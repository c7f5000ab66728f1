import GhostChat.Proofs.RelaySteps

/-!
# Names on the relay

The registry says which socket a name is reached at, and the handler's variable
under which name a socket sends. Both are written by the register request, and
both can outlive what they stand for: the entry of the registry, because a
handler whose `receive_text` raises leaves without clean-up; the variable,
because it is assigned before it is checked and what is refused stays there.

Everything else keeps them true. So the registry is accurate at every moment
exactly if no handler leaves an entry behind, and what is relayed has a
registered name as its sender exactly if no request is relayed for a socket
whose last register request named something that is neither a string nor empty.
-/

namespace GhostChat.Proofs

open GhostChat.Lib GhostChat.Ref

variable {σ σ' : Relay}

/-! ## Who is there -/

/-- The handler of the socket is running. -/
def Alive (σ : Relay) (w : Nat) : Prop := ∃ s, σ.sockets[w]? = some s ∧ Running s

/-- The socket the name was last registered on. -/
def latestRegister (σ : Relay) (u : String) : Option Nat :=
  (σ.registers.find? (·.answered = some u)).map (·.socket)

/-- What the registry should say. -/
structure Accurate (σ : Relay) : Prop where
  running : ∀ u w, Odict.get? σ.connections u = some w → Alive σ w
  latest : ∀ u w, Odict.get? σ.connections u = some w → latestRegister σ u = some w
  /-- A user whose socket has gone is in neither table. -/
  gone : ∀ u, (∀ w, latestRegister σ u = some w → ¬ Alive σ w) →
    Odict.has σ.connections u = false ∧ Odict.has σ.ephemeralPubs u = false

/-- A handler that ends leaves no entry of its socket behind: where nothing is
cleaned up there is none, and where the current name is, there is no other. -/
def LeavesNothing (σ : Relay) (act : RelayAct) : Prop :=
  match event σ act with
  | .finished w => ∀ u ∈ Odict.keys σ.connections, Odict.get? σ.connections u ≠ some w
  | .raised w => ∀ u ∈ Odict.keys σ.connections, Odict.get? σ.connections u = some w →
      ∀ s ∈ σ.sockets[w]?, s.username = .str u
  | _ => True

/-- What every step keeps. -/
structure Registry (σ : Relay) : Prop where
  latest : ∀ u w, Odict.get? σ.connections u = some w → latestRegister σ u = some w
  named : ∀ u w, Odict.get? σ.connections u = some w → u ≠ ""
  pubs : ∀ u, Odict.has σ.ephemeralPubs u = Odict.has σ.connections u

theorem Registry.accurate_iff (h : Registry σ) : Accurate σ ↔
    ∀ u w, Odict.get? σ.connections u = some w → Alive σ w := by
  refine ⟨fun ha => ha.running, fun hrunning => ⟨hrunning, h.latest, fun u hgone => ?_⟩⟩
  have hnone : Odict.get? σ.connections u = none := by
    cases hget : Odict.get? σ.connections u with
    | none => rfl
    | some w => exact absurd (hrunning u w hget) (hgone w (h.latest u w hget))
  rw [h.pubs]
  exact ⟨Odict.has_eq_false_iff.mpr hnone, Odict.has_eq_false_iff.mpr hnone⟩

/-! ## Steps -/

theorem alive_set {w v : Nat} {s s' : Socket} (hs : σ.sockets[w]? = some s)
    (hsockets : σ'.sockets = σ.sockets.set w s') :
    Alive σ' v ↔ if v = w then Running s' else Alive σ v := by
  obtain ⟨hw, -⟩ := List.getElem?_eq_some_iff.mp hs
  rw [Alive, hsockets]
  by_cases hv : v = w
  · subst hv
    rw [if_pos rfl, List.getElem?_set_self hw]
    simp
  · rw [if_neg hv, List.getElem?_set_ne (Ne.symm hv)]
    rfl

/-- A handler that goes on is there as before. -/
theorem alive_set_running {w v : Nat} {s s' : Socket} (hs : σ.sockets[w]? = some s)
    (hsockets : σ'.sockets = σ.sockets.set w s') (hrun : Running s') (h : Alive σ v) :
    Alive σ' v := by
  rw [alive_set hs hsockets]
  split
  · exact hrun
  · exact h

theorem latestRegister_cons (r : RegisterRecord) (u : String)
    (hregisters : σ'.registers = r :: σ.registers) :
    latestRegister σ' u = if r.answered = some u then some r.socket else latestRegister σ u := by
  rw [latestRegister, hregisters, List.find?_cons]
  by_cases hu : r.answered = some u
  · rw [if_pos hu]
    simp [hu]
  · rw [if_neg hu]
    simp [hu, latestRegister]

theorem cleanUp_get {username : Json} {u : String} {w : Nat}
    (h : Odict.get? (σ.cleanUp username).connections u = some w) :
    Odict.get? σ.connections u = some w := by
  unfold Relay.cleanUp at h
  split at h
  · split at h
    · next name _ =>
        by_cases hu : u = name
        · rw [hu, Odict.get?_erase_self] at h
          cases h
        · rw [Odict.get?_erase_ne _ hu] at h
          exact h
    · exact h
  · exact h

theorem cleanUp_registers (username : Json) :
    (σ.cleanUp username).registers = σ.registers := by
  obtain ⟨connections, pubs, heq⟩ := cleanUp_frame σ username
  rw [heq]

/-- The name that is cleaned up is gone, and only it. -/
theorem cleanUp_get_iff {username : Json} {u : String} (hu : u ≠ "") {w : Nat} :
    Odict.get? (σ.cleanUp username).connections u = some w ↔
      Odict.get? σ.connections u = some w ∧ username ≠ .str u := by
  constructor
  · intro h
    refine ⟨cleanUp_get h, ?_⟩
    rintro rfl
    have hthere := cleanUp_get h
    have hhas : Odict.has σ.connections u = true := Odict.has_eq_true_iff.mpr ⟨_, hthere⟩
    rw [Relay.cleanUp, if_pos ⟨hu, hhas⟩, Odict.get?_erase_self] at h
    cases h
  · rintro ⟨h, hne⟩
    unfold Relay.cleanUp
    split
    · next name =>
        split
        · rw [Odict.get?_erase_ne _ (by rintro rfl; exact hne rfl)]
          exact h
        · exact h
    · exact h

theorem Registry.step (h : Registry σ) (act : RelayAct) : Registry (σ.step act) := by
  have hdoes := step_does σ act
  generalize σ.step act = σ' at hdoes
  generalize event σ act = e at hdoes
  cases hdoes with
  | rejected hs hphase hrequest =>
      refine ⟨fun u w hget => ?_, h.named, h.pubs⟩
      rw [latestRegister_cons _ u rfl, if_neg (by simp)]
      exact h.latest u w hget
  | @registered w s raw pub wire hs hphase hname =>
      refine ⟨fun u v hget => ?_, fun u v hget => ?_, fun u => ?_⟩
      · rw [latestRegister_cons _ u rfl]
        by_cases hu : strip raw = u
        · subst hu
          rw [Odict.get?_set_self] at hget
          simpa using hget
        · rw [Odict.get?_set_ne _ (Ne.symm hu)] at hget
          rw [if_neg (by simpa using hu)]
          exact h.latest u v hget
      · by_cases hu : u = strip raw
        · rw [hu]
          exact hname
        · rw [Odict.get?_set_ne _ hu] at hget
          exact h.named u v hget
      · rw [Odict.has_set, Odict.has_set, h.pubs]
  | @raised w s hs hphase =>
      refine ⟨fun u v hget => ?_, fun u v hget => h.named u v (cleanUp_get hget), fun u => ?_⟩
      · have hlatest := h.latest u v (cleanUp_get hget)
        rw [latestRegister] at hlatest ⊢
        dsimp only
        rw [cleanUp_registers]
        exact hlatest
      · show Odict.has (σ.cleanUp s.username).ephemeralPubs u
          = Odict.has (σ.cleanUp s.username).connections u
        unfold Relay.cleanUp
        split
        · split
          · rw [Odict.has_erase, Odict.has_erase, h.pubs]
          · exact h.pubs u
        · exact h.pubs u
  | _ => exact ⟨h.latest, h.named, h.pubs⟩

/-- An accurate registry stays accurate exactly if nothing is left behind. -/
theorem Registry.accurate_step (h : Registry σ) (act : RelayAct) (hgood : Accurate σ) :
    Accurate (σ.step act) ↔ LeavesNothing σ act := by
  rw [(h.step act).accurate_iff]
  have hrunning := hgood.running
  have hdoes := step_does σ act
  unfold LeavesNothing
  generalize σ.step act = σ' at hdoes
  generalize event σ act = e at hdoes
  cases hdoes with
  | same => exact iff_of_true hrunning trivial
  | connect =>
      refine iff_of_true (fun u w hget => ?_) trivial
      obtain ⟨s, hs, hrun⟩ := hrunning u w hget
      exact ⟨s, by rw [List.getElem?_append_left (List.getElem?_eq_some_iff.mp hs).1, hs], hrun⟩
  | @close w s hs =>
      refine iff_of_true (fun u v hget => ?_) trivial
      rw [alive_set hs rfl]
      split
      · next hv =>
          obtain ⟨s', hs', hrun⟩ := hrunning u v hget
          rw [hv, hs] at hs'
          cases hs'
          exact hrun
      · exact hrunning u v hget
  | @moved w s phase wire bundles hs hfree hrun hphase =>
      refine iff_of_true (fun u v hget => ?_) trivial
      refine alive_set_running hs rfl ?_ (hrunning u v hget)
      rcases hphase with rfl | rfl <;> trivial
  | @registered w s raw pub wire hs hphase hname =>
      refine iff_of_true (fun u v hget => ?_) trivial
      rw [alive_set hs rfl]
      split
      · trivial
      · next hv =>
          by_cases hu : u = strip raw
          · rw [hu, Odict.get?_set_self] at hget
            exact absurd (Option.some.inj hget).symm hv
          · rw [Odict.get?_set_ne _ hu] at hget
            exact hrunning u v hget
  | queued hs hphase hfrom hkey hgone => exact iff_of_true hrunning trivial
  | @finished w s hs hphase =>
      constructor
      · intro halive u _ hget
        have hw := halive u w hget
        rw [alive_set hs rfl, if_pos rfl] at hw
        exact hw
      · intro hnone u v hget
        rw [alive_set hs rfl]
        split
        · next hv =>
            rw [hv] at hget
            exact absurd hget (hnone u (Odict.mem_keys_of_get? hget))
        · exact hrunning u v hget
  | @raised w s hs hphase =>
      constructor
      · intro halive u _ hget t ht
        obtain rfl : s = t := by simpa [hs] using ht
        by_contra hne
        have hw := halive u w ((cleanUp_get_iff (h.named u w hget)).mpr ⟨hget, hne⟩)
        rw [alive_set hs rfl, if_pos rfl] at hw
        exact hw
      · intro hname u v hget
        have hbefore := cleanUp_get hget
        rw [alive_set hs rfl]
        split
        · next hv =>
            rw [hv] at hget hbefore
            have hcurrent := hname u (Odict.mem_keys_of_get? hbefore) hbefore s (by simp [hs])
            exact absurd hcurrent ((cleanUp_get_iff (h.named u w hbefore)).mp hget).2
        · exact hrunning u v hbefore
  | drained hs _ _ _ | rejected hs _ _ | live hs _ _ _ _ | message hs _ _ | taken hs _ _ _
  | next hs _ _ =>
      exact iff_of_true (fun u v hget => alive_set_running hs rfl trivial (hrunning u v hget))
        trivial

/-- Over every run of the relay, in every state on the way: each name in the
registry belongs to a socket whose handler is running and is the one that
registered it last, and a user whose socket has gone is in neither table;
exactly if no handler that ends leaves an entry of its socket behind. -/
theorem registry_accurate_iff (acts : List RelayAct) :
    (∀ n, Accurate (runFrom Relay.step {} (acts.take n))) ↔
      Along Relay.step LeavesNothing {} acts := by
  have hstart : Registry {} := ⟨nofun, nofun, fun _ => rfl⟩
  have hgood : Accurate {} := hstart.accurate_iff.mpr nofun
  exact Along.always_iff (fun σ act h => h.step act) (fun σ act h hgood => h.accurate_step act hgood)
    hstart hgood

def registerObj (username : Json) : RelayInput :=
  .json (.dict [("type", .str "register"), ("username", username)])

/-- `alice` registers and disconnects, and is in the registry for good. -/
theorem registry_stale : ¬ Accurate (runFrom Relay.step {} [.connect,
    .receive 0 (registerObj (.str "alice")) true, .resume 0 true, .resume 0 true,
    .receive 0 .failed true]) := by
  intro h
  obtain ⟨s, hs, hrun⟩ := h.running "alice" 0 (by decide +kernel)
  cases hs
  exact hrun

/-! ## Who is named as the sender -/

/-- The `username` of the last register request of a socket. -/
def requested (σ : Relay) (w : Nat) : Json :=
  ((σ.registers.find? (·.socket = w)).map (·.request)).getD .null

/-- The name a request is answered `ok` for. -/
def nameOf : Json → Option String
  | .str raw => if strip raw = "" then none else some (strip raw)
  | _ => none

/-- True as Python has it, and no string. -/
def strangeName : Json → Bool
  | .str _ => false
  | v => v.truthy

/-- The sender that was named is what the last register request of the socket
was answered `ok` for. -/
def RightSender (r : RelayedRecord) : Prop :=
  ∃ n, r.answered = some n ∧ n ≠ "" ∧ r.sender = .str n

/-- Nothing is relayed for a socket whose last register request was refused for
a name that was not empty and no string. -/
def NoStrangers (σ : Relay) (act : RelayAct) : Prop :=
  match event σ act with
  | .init w _ _ _ _ | .message w => strangeName (requested σ w) = false
  | _ => True

/-- A handler's variable is what the last request has left there. -/
structure Senders (σ : Relay) : Prop where
  username : ∀ w s, σ.sockets[w]? = some s → s.username = assigned (requested σ w)
  answered : ∀ w, σ.answeredName w = nameOf (requested σ w)
  known : ∀ r ∈ σ.registers, r.socket < σ.sockets.length

theorem not_rightSender {r : RelayedRecord} (h : r.answered = none) : ¬ RightSender r := by
  rintro ⟨n, hn, -⟩
  rw [h] at hn
  cases hn

theorem rightSender_iff {request v : Json} (hv : v = assigned request)
    (htruthy : v.truthy = true) :
    RightSender ⟨v, nameOf request⟩ ↔ strangeName request = false := by
  subst hv
  cases request with
  | str raw =>
      have hne : strip raw ≠ "" := by
        intro h
        rw [assigned, h] at htruthy
        cases htruthy
      refine iff_of_true ⟨strip raw, ?_, hne, rfl⟩ rfl
      rw [nameOf, if_neg hne]
  | null => cases htruthy
  | bool b =>
      exact iff_of_false (not_rightSender rfl) (by simpa [strangeName, assigned] using htruthy)
  | int n =>
      exact iff_of_false (not_rightSender rfl) (by simpa [strangeName, assigned] using htruthy)
  | float x =>
      exact iff_of_false (not_rightSender rfl) (by simpa [strangeName, assigned] using htruthy)
  | list items =>
      exact iff_of_false (not_rightSender rfl) (by simpa [strangeName, assigned] using htruthy)
  | dict fields =>
      exact iff_of_false (not_rightSender rfl) (by simpa [strangeName, assigned] using htruthy)

/-- One socket is written, and only that socket's last request may have
changed. -/
theorem Senders.username_set (h : Senders σ) {w : Nat} {s s' : Socket}
    (hs : σ.sockets[w]? = some s) (hsockets : σ'.sockets = σ.sockets.set w s')
    (hname : s'.username = assigned (requested σ' w))
    (hothers : ∀ v, v ≠ w → requested σ' v = requested σ v) (v : Nat) (t : Socket)
    (ht : σ'.sockets[v]? = some t) : t.username = assigned (requested σ' v) := by
  rw [hsockets] at ht
  by_cases hv : v = w
  · subst hv
    rw [List.getElem?_set_self (List.getElem?_eq_some_iff.mp hs).1] at ht
    cases ht
    exact hname
  · rw [List.getElem?_set_ne (Ne.symm hv)] at ht
    rw [hothers v hv]
    exact h.username v t ht

/-- A step that leaves the variable and the requests alone. -/
theorem Senders.set (h : Senders σ) {w : Nat} {s s' : Socket} (hs : σ.sockets[w]? = some s)
    (hsockets : σ'.sockets = σ.sockets.set w s') (hname : s'.username = s.username)
    (hregisters : σ'.registers = σ.registers) : Senders σ' := by
  have hrequested : ∀ v, requested σ' v = requested σ v := fun v => by
    rw [requested, requested, hregisters]
  refine ⟨h.username_set hs hsockets ?_ fun v _ => hrequested v, fun v => ?_, ?_⟩
  · rw [hname, hrequested]
    exact h.username w s hs
  · rw [hrequested, ← h.answered, Relay.answeredName, Relay.answeredName, hregisters]
  · rw [hregisters, hsockets, List.length_set]
    exact h.known

/-- A register request is now the last of its socket. -/
theorem Senders.request (h : Senders σ) {w : Nat} {s s' : Socket} {request : Json}
    (hs : σ.sockets[w]? = some s) (hsockets : σ'.sockets = σ.sockets.set w s')
    (hname : s'.username = assigned request)
    (hregisters : σ'.registers = ⟨w, request, nameOf request⟩ :: σ.registers) : Senders σ' := by
  have hrequested : ∀ v, requested σ' v = if v = w then request else requested σ v := fun v => by
    rw [requested, hregisters, List.find?_cons]
    by_cases hv : v = w
    · simp [hv]
    · simp [hv, Ne.symm hv, requested]
  refine ⟨h.username_set hs hsockets ?_ fun v hv => ?_, fun v => ?_, ?_⟩
  · rw [hname, hrequested, if_pos rfl]
  · rw [hrequested, if_neg hv]
  · rw [hrequested, Relay.answeredName, hregisters, List.find?_cons]
    by_cases hv : v = w
    · simp [hv]
    · rw [if_neg hv, ← h.answered, Relay.answeredName]
      simp [Ne.symm hv]
  · rw [hregisters, hsockets, List.length_set]
    intro r hr
    rcases List.mem_cons.mp hr with rfl | hr
    · exact (List.getElem?_eq_some_iff.mp hs).1
    · exact h.known r hr

theorem Senders.step (h : Senders σ) (act : RelayAct) : Senders (σ.step act) := by
  have hdoes := step_does σ act
  generalize σ.step act = σ' at hdoes
  generalize event σ act = e at hdoes
  cases hdoes with
  | same => exact h
  | connect =>
      refine ⟨fun w s hs => ?_, h.answered, fun r hr => ?_⟩
      · rcases getElem?_concat_cases hs with hold | ⟨rfl, rfl⟩
        · exact h.username w s hold
        · -- A new socket has no requests.
          have hnone : σ.registers.find? (·.socket = σ.sockets.length) = none := by
            rw [List.find?_eq_none]
            intro r hr heq
            have hlt := h.known r hr
            simp at heq
            omega
          show Json.null = assigned (requested σ σ.sockets.length)
          rw [requested, hnone]
          rfl
      · have hlt := h.known r hr
        simp only [List.length_append, List.length_singleton]
        omega
  | close hs => exact h.set hs rfl rfl rfl
  | moved hs hfree hrun hphase => exact h.set hs rfl rfl rfl
  | drained hs hphase hname hempty => exact h.set hs rfl rfl rfl
  | @rejected w s request wire hs hphase hrequest =>
      refine h.request hs rfl rfl ?_
      cases request with
      | str raw => rw [nameOf, if_pos (hrequest raw rfl)]
      | _ => rfl
  | @registered w s raw pub wire hs hphase hname =>
      refine h.request hs rfl (show _ = assigned (.str raw) from rfl) ?_
      rw [nameOf, if_neg hname]
  | live hs hphase hfrom hkey hthere => exact h.set hs rfl rfl rfl
  | queued hs hphase hfrom hkey hgone => exact ⟨h.username, h.answered, h.known⟩
  | message hs hphase hfrom => exact h.set hs rfl rfl rfl
  | taken hs hphase hname hqueue => exact h.set hs rfl rfl rfl
  | next hs hphase hname => exact h.set hs rfl rfl rfl
  | finished hs hphase => exact h.set hs rfl rfl rfl
  | @raised w s hs hphase => exact h.set hs rfl rfl (cleanUp_registers s.username)

/-- One more record: the old ones are right and the new one is. -/
theorem Senders.relayed_iff (h : Senders σ) {w : Nat} {s : Socket} (hs : σ.sockets[w]? = some s)
    (hfrom : s.username.truthy = true) :
    (∀ r ∈ ⟨s.username, σ.answeredName w⟩ :: σ.relayed, RightSender r) ↔
      (∀ r ∈ σ.relayed, RightSender r) ∧ strangeName (requested σ w) = false := by
  rw [List.forall_mem_cons, and_comm, h.answered,
    rightSender_iff (h.username w s hs) hfrom]

theorem Senders.right_step (h : Senders σ) (act : RelayAct) :
    (∀ r ∈ (σ.step act).relayed, RightSender r) ↔
      (∀ r ∈ σ.relayed, RightSender r) ∧ NoStrangers σ act := by
  have hdoes := step_does σ act
  unfold NoStrangers
  generalize σ.step act = σ' at hdoes
  generalize event σ act = e at hdoes
  cases hdoes with
  | live hs hphase hfrom hkey hthere => exact h.relayed_iff hs hfrom
  | queued hs hphase hfrom hkey hgone => exact h.relayed_iff hs hfrom
  | message hs hphase hfrom => exact h.relayed_iff hs hfrom
  | @raised w s hs hphase =>
      have hrelayed : (σ.cleanUp s.username).relayed = σ.relayed := by
        obtain ⟨connections, pubs, heq⟩ := cleanUp_frame σ s.username
        rw [heq]
      rw [and_iff_left trivial]
      show (∀ r ∈ (σ.cleanUp s.username).relayed, RightSender r) ↔ _
      rw [hrelayed]
  | _ => exact (and_iff_left trivial).symm

/-- Over every run of the relay: everything that was forwarded or queued named
as its sender a non-empty string that the last register request of its socket
was answered `ok` for, exactly if nothing was relayed for a socket whose last
register request was refused for a name that is true and no string. -/
theorem senders_registered_iff (acts : List RelayAct) :
    (∀ r ∈ (runFrom Relay.step {} acts).relayed, RightSender r) ↔
      Along Relay.step NoStrangers {} acts := by
  have hstart : Senders {} := ⟨nofun, fun _ => rfl, nofun⟩
  rw [Along.iff_of_step (P := fun _ _ => True) (I := Senders)
    (G := fun σ => ∀ r ∈ σ.relayed, RightSender r) (fun σ act h _ => h.step act)
    (fun σ act h _ => h.right_step act) hstart (Along.of_forall fun _ _ => trivial)]
  exact and_iff_right nofun

/-- A socket whose only register request was refused sends a message to `bob`
under the name `5`. -/
theorem sender_refused :
    ¬ ∀ r ∈ (runFrom Relay.step {} [.connect, .receive 0 (registerObj (.str "bob")) true,
      .resume 0 true, .connect, .receive 1 (registerObj (.int 5)) true, .resume 1 true,
      .receive 1 (.json (.dict [("type", .str "msg"), ("to", .str "bob"), ("payload", .str "")]))
        true]).relayed, RightSender r := by
  intro h
  obtain ⟨n, hn, -⟩ := h ⟨.int 5, none⟩ (List.mem_singleton.mpr rfl)
  cases hn

end GhostChat.Proofs
