import QuicP2p.Hyparview.Outcomes

/-! Every operation of a well-formed node returns and evolves it. The runs of the operations. -/

namespace QuicP2p.Hyparview

open Library

namespace Node

variable {T R : Type} {n m k : Node T R} {silent : T → Prop}

/-- What the receiver of a message other than `DISCONNECT` does about a sender it does not take
into its active view. -/
def Answered (n : Node T R) (sender : T) : Prop :=
  sender ∈ n.activeView ∨ sender = n.id ∨ .send sender (.disconnect ⟨n.id, true⟩) ∈ n.actions

/-- The sender of a message is in the active view afterwards, or it is told that it is not. -/
def Settled (n : Node T R) : ProtocolMessage T → Prop
  | .disconnect m => m.sender ∉ n.activeView
  | msg => Answered n msg.sender

lemma settled_eq {msg : ProtocolMessage T} (hm : ∀ x, msg ≠ .disconnect x) :
    n.Settled msg = Answered n msg.sender := by
  cases msg with
  | disconnect m => exact absurd rfl (hm m)
  | _ => rfl

variable [DecidableEq T]

lemma Evolves.then_effect {acts : List (Action T)} (h : Evolves silent n m) (hw : k.WellFormed)
    (he : Effect silent m k acts) (hv : ∀ x ∈ k.activeView, x ∈ m.activeView) :
    Evolves silent n k := by
  obtain ⟨_, as, ha⟩ := h
  exact ⟨hw, _, ha.trans_of_subset he hv⟩

lemma Evolves.then_keeps (h : Evolves silent n m) (hk : Keeps m k) : Evolves silent n k :=
  h.then_effect (hk.wellFormed h.1) hk.effect (fun _ hx => hk.active_perm.mem_iff.mp hx)

lemma Keeps.then_evolves (h : Keeps n m) (he : Evolves silent m k) : Evolves silent n k := by
  obtain ⟨hw, as, ha⟩ := he
  exact ⟨hw, as, h.effect.quiet_trans ha⟩

lemma Evolves.then_send (h : Evolves silent n m) (d : T) (msg : ProtocolMessage T)
    (hs : msg.sender = m.id) (ha : ∀ x, msg = .disconnect x → x.alive = true) :
    Evolves silent n (m.send d msg) :=
  h.then_effect (h.1.send d msg) (.send m d msg hs ha) (fun _ hx => hx)

lemma Evolves.then_sendEach (h : Evolves silent n m) (ds : List T) (msg : ProtocolMessage T)
    (hs : msg.sender = m.id) (ha : ∀ x, msg = .disconnect x → x.alive = true) :
    Evolves silent n (m.sendEach ds msg) := by
  refine h.then_effect (h.1.sendEach ds msg) (.sendEach m ds msg hs ha) fun x hx => ?_
  rwa [sendEach_eq] at hx

lemma Evolves.mono {silent' : T → Prop} (h : Evolves silent n m) (hs : ∀ x, silent x → silent' x) :
    Evolves silent' n m := by
  obtain ⟨hw, as, ha⟩ := h
  exact ⟨hw, as, { ha with downs := fun x hx => (ha.downs x hx).imp_left (hs x) }⟩

lemma WellFormed.not_overdrawnBy (h : n.WellFormed) (msg : ProtocolMessage T) :
    ¬ n.OverdrawnBy msg := by
  intro hc
  cases msg with
  | join m => exact h.not_activeBarred hc.2
  | forwardJoin m =>
    obtain ⟨_, hc⟩ := hc
    split at hc
    · exact h.not_activeBarred hc
    · exact h.not_passiveBarred hc.1
  | neighbor m => exact h.not_activeBarred hc.2.2
  | shuffle m => exact h.not_passiveBarred hc.2.1
  | shuffleReply m => exact h.not_passiveBarred hc.1
  | disconnect m => exact absurd hc.1 (Nat.pos_iff_ne_zero.mp h.passive_pos)

lemma WellFormed.not_overdraws (h : n.WellFormed) (op : Operation T) : ¬ n.Overdraws op := by
  cases op with
  | disconnect x alive => exact h.not_overdrawnBy (.disconnect ⟨x, alive⟩)
  | handleProtocolMessage msg => exact h.not_overdrawnBy msg
  | _ => exact fun h => h

lemma Filled.evolves (hm : Filled n m) (h : n.WellFormed) : Evolves silent n m := by
  cases hm with
  | idle => exact .refl h
  | @asked x g _ _ =>
    exact ((restocks_rng n g).evolves h).then_send _ _ rfl (fun _ he => by simp at he)

lemma syncActiveView_spec (h : n.WellFormed) : Evolves silent n n.syncActiveView :=
  ⟨h.sendEach _ _, _, .sendEach n _ _ rfl (fun _ he => by simp at he)⟩

lemma disconnectUnlessActiveViewNode_spec (silent : T → Prop) (h : n.WellFormed) (x : T) :
    Evolves silent n (n.disconnectUnlessActiveViewNode x) ∧
      (n.disconnectUnlessActiveViewNode x).activeView = n.activeView ∧
      Answered (n.disconnectUnlessActiveViewNode x) x := by
  unfold disconnectUnlessActiveViewNode
  split
  next hx =>
    have hs : Evolves silent n (n.send x (.disconnect ⟨n.id, true⟩)) :=
      (Evolves.refl h).then_send _ _ rfl (fun _ he => by simp at he; rw [← he])
    have hc : Effect silent (n.send x (.disconnect ⟨n.id, true⟩))
        ((n.send x (.disconnect ⟨n.id, true⟩)).pushBack (.disconnect x)) [.disconnect x] :=
      { id_eq := rfl
        options_eq := rfl
        actions_eq := rfl
        replayed := rfl
        announced := fun y hy hn => absurd hy hn
        ups := fun y hy => by simp at hy
        downs := fun y hy => by simp at hy
        closed := fun y hy => by
          have he : y = x := by simpa using hy
          exact he ▸ hx.1
        signed := fun d m hm => by simp at hm
        alive := fun d m hm => by simp at hm }
    exact ⟨hs.then_effect (hs.1.pushBack _) hc (fun _ hy => hy), rfl,
      .inr (.inr (by simp [Node.send, pushBack]))⟩
  next hx =>
    refine ⟨.refl h, rfl, ?_⟩
    by_cases ha : x ∈ n.activeView
    · exact .inl ha
    · refine .inr (.inl ?_)
      by_contra hi
      exact hx ⟨ha, fun he => hi he.symm⟩

variable [Rng R]

lemma perform_yields (h : n.WellFormed) (op : Operation T) :
    Yields (n.perform op) (Performed n op) :=
  (perform_performed h.sound op).yields (h.not_overdraws op)

lemma handleDisconnect_yields (h : n.WellFormed) (m : DisconnectMessage T) :
    Yields (n.handleDisconnect m) (Handled n (.disconnect m)) :=
  (handleDisconnect_handled h.sound m).yields (h.not_overdrawnBy (.disconnect m))

lemma fillActiveView_spec (silent : T → Prop) (h : n.WellFormed) :
    Yields n.fillActiveView (fun m => Evolves silent n m ∧
      ∀ x ∈ m.activeView, x ∈ n.activeView) := by
  refine (fillActiveView_filled n).mono fun m hm => ⟨hm.evolves h, fun x hx => ?_⟩
  rwa [hm.views.1] at hx

lemma Handled.evolves {msg : ProtocolMessage T} (hm : Handled n msg m) (h : n.WellFormed) :
    Evolves (Operation.silent (.handleProtocolMessage msg)) n m := by
  cases hm with
  | joined hk =>
    exact ((hk.evolves h).mono fun _ hs => hs.elim).then_sendEach _ _ rfl
      (fun _ he => by simp at he)
  | walkEnded _ hk => exact (hk.evolves h).mono fun _ hs => hs.elim
  | walkStuck _ hk hl hr =>
    have hl := hk.restocks.trans hl.restocks
    exact hl.then_evolves ((hr.evolves (hl.wellFormed h)).mono fun _ hs => hs.elim)
  | walkForwarded _ hk hl =>
    have hl := hk.restocks.trans hl.restocks
    exact (hl.evolves h).then_send _ _ rfl (fun _ he => by simp at he)
  | neighborAdmitted _ hk => exact (hk.evolves h).mono fun _ hs => hs.elim
  | neighborRefused => exact .refl h
  | @shuffleEnded m _ _ hk =>
    have hsent : Evolves (fun _ => False) n _ :=
      ((shufflePassive_restocks n).evolves h).then_send m.origin
      (.shuffleReply ⟨n.id, n.shufflePassive.passiveView.take m.nodes.length⟩) rfl
      (fun _ he => by simp at he)
    exact (hsent.then_keeps hk.restocks.toKeeps).mono fun _ hs => hs.elim
  | shuffleStuck _ hk => exact hk.restocks.evolves h
  | shuffleForwarded _ hk =>
    exact (hk.restocks.evolves h).then_send _ _ rfl (fun _ he => by simp at he)
  | shuffleReplied hk => exact hk.restocks.evolves h
  | @neighborLeft d v q k l r hv hk hq hl hr =>
    have hleft : Evolves (Operation.silent (.handleProtocolMessage (.disconnect d))) n
        (n.departed v d.sender d.alive) :=
      ⟨h.drop_active hv _, _, departure_effect h d.alive hv⟩
    have hgone := (hleft.then_keeps hk.keeps).then_keeps (keeps_unlisted hq)
    have hlast : Evolves (Operation.silent (.handleProtocolMessage (.disconnect d))) _ l :=
      hl.evolves hgone.1
    obtain ⟨hw, _, he⟩ := hlast
    have hfilled := hgone.then_effect hw he fun x hx => by rwa [hl.views.1] at hx
    exact hfilled.then_keeps hr.restocks.toKeeps
  | strangerLeft _ hk => exact hk.restocks.evolves h

lemma Handled.dismissed {d : DisconnectMessage T} (hm : Handled n (.disconnect d) m)
    (h : n.Sound) : d.sender ∉ m.activeView := by
  cases hm with
  | @neighborLeft _ v q k l _ hv hk hq hl hr =>
    have hview : m.activeView = v := by
      rw [hr.active_eq, hl.views.1]
      exact hk.same.1
    rw [hview]
    exact (h.stranger_departed hv d.alive).1
  | strangerLeft hd hk =>
    rw [hk.active_eq]
    exact hd

lemma handleDisconnect_spec (h : n.WellFormed) (msg : DisconnectMessage T) :
    Yields (n.handleDisconnect msg) (fun m =>
      Evolves (fun x => msg.alive = false ∧ x = msg.sender) n m ∧
      msg.sender ∉ m.activeView) :=
  (handleDisconnect_yields h msg).mono fun _ hm => ⟨hm.evolves h, hm.dismissed h.sound⟩

lemma disconnect_of_absent {x : T} (hx : x ∉ n.activeView) : n.disconnect x false = .ok n := by
  have hnone : n.removeFromActiveView ⟨x, false⟩ = .ok (false, n) := by
    rw [removeFromActiveView, List.idxOf?_eq_none_iff.mpr hx]
  simp [disconnect, handleProtocolMessage, handleDisconnect, hnone]

lemma Performed.evolves {op : Operation T} (hm : Performed n op m) (h : n.WellFormed) :
    Evolves op.silent n m := by
  cases hm with
  | join => exact (Evolves.refl h).then_send _ _ rfl (fun _ he => by simp at he)
  | disconnected hm => exact hm.evolves h
  | left hm => exact hm.evolves h
  | @answered msg k _ hk =>
    have hk := hk.evolves h
    obtain ⟨⟨hw, _, hu⟩, hv, _⟩ := disconnectUnlessActiveViewNode_spec
      (Operation.silent (.handleProtocolMessage msg)) hk.1 msg.sender
    exact hk.then_effect hw hu fun x hx => hv ▸ hx
  | unshuffled => exact .refl h
  | shuffled _ hk =>
    exact ((shuffled_restocks hk).evolves h).then_send _ _ rfl (fun _ he => by simp at he)
  | filled hm => exact hm.evolves h
  | synced => exact syncActiveView_spec h

lemma perform_spec (h : n.WellFormed) (op : Operation T) :
    Yields (n.perform op) (Evolves op.silent n) :=
  (perform_yields h op).mono fun _ hm => hm.evolves h

lemma shufflePassiveView_spec (h : n.WellFormed) :
    Yields n.shufflePassiveView (fun m => Evolves silent n m ∧
      ∀ x ∈ m.activeView, x ∈ n.activeView) := by
  refine (perform_yields h .shufflePassiveView).mono fun m hm => ?_
  refine ⟨(hm.evolves h).mono fun _ hs => hs.elim, fun x hx => ?_⟩
  cases hm with
  | unshuffled => exact hx
  | shuffled _ hk => exact (shuffled_restocks hk).active_perm.mem_iff.mp hx

lemma Performed.settled {msg : ProtocolMessage T}
    (hm : Performed n (.handleProtocolMessage msg) m) (h : n.WellFormed) : m.Settled msg := by
  cases hm with
  | left hm => exact hm.dismissed h.sound
  | answered hmsg hm =>
    rw [settled_eq hmsg]
    exact (disconnectUnlessActiveViewNode_spec (fun _ => False) (hm.evolves h).1 msg.sender).2.2

lemma handleProtocolMessage_spec (h : n.WellFormed) (msg : ProtocolMessage T) :
    Yields (n.handleProtocolMessage msg) (fun m =>
      Evolves (Operation.silent (.handleProtocolMessage msg)) n m ∧ m.Settled msg) :=
  (perform_yields h (.handleProtocolMessage msg)).mono fun _ hm => ⟨hm.evolves h, hm.settled h⟩

inductive Input (T : Type)
  | call (op : Operation T)
  | pollAction
  deriving DecidableEq

def step (n : Node T R) : Input T → Exec (Node T R)
  | .call op => n.perform op
  | .pollAction => .ok n.pollAction.2

lemma step_spec (h : n.WellFormed) (i : Input T) :
    Yields (n.step i) (fun m => m.WellFormed ∧ m.id = n.id ∧ m.options = n.options) := by
  cases i with
  | call op =>
    refine (perform_spec h op).mono ?_
    rintro m ⟨hw, as, he⟩
    exact ⟨hw, he.id_eq, he.options_eq⟩
  | pollAction => exact .ok ⟨pollAction_wellFormed h, rfl, rfl⟩

lemma run_spec {id : T} {rng : R} {options : NodeOptions} {tr : List (Taken (Node T R) (Input T))}
    (ha : 1 ≤ options.maxActiveViewSize.toNat) (hp : 1 ≤ options.maxPassiveViewSize.toNat)
    (h : Run step (withOptions id rng options) tr n) :
    n.WellFormed ∧ n.id = id ∧ n.options = options := by
  refine h.invariant (P := fun m => m.WellFormed ∧ m.id = id ∧ m.options = options) ?_
    ⟨withOptions_wellFormed id rng ha hp, rfl, rfl⟩
  rintro m i u ⟨hw, hid, ho⟩ hs
  obtain ⟨hw', hid', ho'⟩ := (step_spec hw i).of_ok hs
  exact ⟨hw', hid'.trans hid, ho'.trans ho⟩

/-- The views stay valid over every run, and no operation of any run panics. -/
theorem views_stay_valid {id : T} {rng : R} {options : NodeOptions}
    {tr : List (Taken (Node T R) (Input T))}
    (ha : 1 ≤ options.maxActiveViewSize.toNat) (hp : 1 ≤ options.maxPassiveViewSize.toNat)
    (h : Run step (withOptions id rng options) tr n) :
    n.activeView.Nodup ∧ n.passiveView.Nodup ∧ n.activeView.Disjoint n.passiveView ∧
      id ∉ n.activeView ∧ id ∉ n.passiveView ∧
      n.activeView.length ≤ options.maxActiveViewSize.toNat ∧
      n.passiveView.length ≤ options.maxPassiveViewSize.toNat ∧
      ∀ i, ∃ m, n.step i = .ok m := by
  obtain ⟨hw, hi, ho⟩ := run_spec ha hp h
  subst hi ho
  exact ⟨hw.active_nodup, hw.passive_nodup, fun x hx hx' => hw.disjoint x hx hx', hw.id_active,
    hw.id_passive, hw.active_le, hw.passive_le, fun i => (step_spec hw i).returns⟩

/-- Two joins at a node whose active view has one place: the second evicts the first. -/
def crowded : List (Input ℕ) :=
  [.call (.handleProtocolMessage (.join ⟨1⟩)), .call (.handleProtocolMessage (.join ⟨2⟩)),
    .pollAction]

theorem views_stay_valid_crowded :
    ∃ (tr : List (Taken (Node ℕ Playback) (Input ℕ))) (n : Node ℕ Playback),
      Run step (withOptions 0 ⟨[]⟩ { maxActiveViewSize := 1, maxPassiveViewSize := 1 }) tr n ∧
        n.activeView = [2] ∧ n.passiveView = [1] ∧
        n.activeView.Disjoint n.passiveView ∧ ∀ i, ∃ m, n.step i = .ok m := by
  refine ⟨_, _, Run.of_follow crowded rfl, rfl, rfl, ?_⟩
  have h := views_stay_valid (by decide) (by decide)
    (Run.of_follow (s := withOptions 0 (⟨[]⟩ : Playback)
      { maxActiveViewSize := 1, maxPassiveViewSize := 1 }) crowded rfl)
  exact ⟨h.2.2.1, h.2.2.2.2.2.2.2⟩

end Node

end QuicP2p.Hyparview
