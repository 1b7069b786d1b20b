import QuicP2p.P2p.Buffer

/-! The two layers agree on the neighbours, whatever waits in the queue between them. -/

namespace QuicP2p.P2p

open Library
open Hyparview (replay)

variable {K A M R : Type} [DecidableEq K] [DecidableEq A] [Rng R]

namespace P2PNode

/-- Replaying the events that wait in the queue of HyParView over the peers of Plumtree gives the
active view. -/
structure Coherent (n : P2PNode K A M R) : Prop where
  wellFormed : n.hyparviewNode.WellFormed
  valid : n.plumtreeNode.missings.Valid
  id_eq : n.plumtreeNode.id = n.hyparviewNode.id
  agreed : replay n.hyparviewNode.actions n.plumtreeNode.neighbours =
    some n.hyparviewNode.activeView.toFinset
  ups : ∀ x, .notify (.neighborUp x) ∈ n.hyparviewNode.actions → x ≠ n.hyparviewNode.id

/-- No connection that is about to be closed is one to a neighbour. -/
def Sparing (hv : HyparviewNode K A R) : Prop := ∀ x, .disconnect x ∈ hv.actions → x ∉ hv.activeView

/-- The call on the server that an action of HyParView makes. -/
def callOf : HyparviewAction K A → List (ServerCall K A M)
  | .send destination message => [.sendProtocolMessageSync destination (.hyparview message)]
  | .notify _ => []
  | .disconnect node => [.removeRemoteNode node.localId]

/-- What the execution of an action does to HyParView itself. -/
def reenter (hv : HyparviewNode K A R) : HyparviewAction K A → Exec (HyparviewNode K A R)
  | .disconnect node => hv.disconnect node false
  | _ => .ok hv

variable {n m : P2PNode K A M R} {hv : HyparviewNode K A R} {silent : NodeId K A → Prop}

lemma handleHyparviewAction_ok {a : HyparviewAction K A} (h : n.handleHyparviewAction a = .ok m) :
    reenter n.hyparviewNode a = .ok m.hyparviewNode ∧ m.server = n.server ++ callOf a := by
  cases a with
  | send d msg =>
    cases h
    exact ⟨rfl, rfl⟩
  | disconnect x =>
    obtain ⟨hv, hx, h⟩ := bind_eq_ok.mp h
    cases h
    exact ⟨hx, rfl⟩
  | notify e =>
    cases e with
    | neighborUp x =>
      cases h
      exact ⟨rfl, (List.append_nil _).symm⟩
    | neighborDown x =>
      obtain ⟨p, _, h⟩ := bind_eq_ok.mp h
      cases h
      exact ⟨rfl, (List.append_nil _).symm⟩

namespace Coherent

omit [Rng R] in
lemma congr (h : n.Coherent) (hh : m.hyparviewNode = n.hyparviewNode)
    (hp : m.plumtreeNode = n.plumtreeNode) : m.Coherent where
  wellFormed := hh ▸ h.wellFormed
  valid := hp ▸ h.valid
  id_eq := by rw [hh, hp, h.id_eq]
  agreed := by rw [hh, hp, h.agreed]
  ups x hx := by
    rw [hh] at hx ⊢
    exact h.ups x hx

omit [Rng R] in
lemma evolve (h : n.Coherent) (he : Hyparview.Node.Evolves silent n.hyparviewNode hv) :
    ({ n with hyparviewNode := hv } : P2PNode K A M R).Coherent := by
  obtain ⟨hw, as, he⟩ := he
  refine ⟨hw, h.valid, h.id_eq.trans he.id_eq.symm, ?_, ?_⟩
  · change replay hv.actions n.plumtreeNode.neighbours = some hv.activeView.toFinset
    rw [he.actions_eq, Hyparview.replay_append, h.agreed, Option.bind_some, he.replayed]
  · intro x hx
    change x ≠ hv.id
    change _ ∈ hv.actions at hx
    rw [he.actions_eq] at hx
    rw [he.id_eq]
    rcases List.mem_append.mp hx with hx | hx
    · exact h.ups x hx
    · exact he.ups x hx

omit [Rng R] in
lemma plumtree {p : PlumtreeNode K A M} (h : n.Coherent) (hv : p.missings.Valid)
    (hi : p.id = n.plumtreeNode.id) (hn : p.neighbours = n.plumtreeNode.neighbours) :
    ({ n with plumtreeNode := p } : P2PNode K A M R).Coherent where
  wellFormed := h.wellFormed
  valid := hv
  id_eq := hi.trans h.id_eq
  agreed := by
    change replay _ p.neighbours = _
    rw [hn]
    exact h.agreed
  ups := h.ups

lemma handleHyparviewAction (h : n.Coherent) {a : HyparviewAction K A}
    {rest : List (HyparviewAction K A)} (ha : n.hyparviewNode.actions = a :: rest) :
    Yields (P2PNode.handleHyparviewAction { n with
      hyparviewNode := { n.hyparviewNode with actions := rest } } a) Coherent := by
  obtain ⟨peers, hpeers, hrest⟩ : ∃ peers, a.apply n.plumtreeNode.neighbours = some peers ∧
      replay rest peers = some n.hyparviewNode.activeView.toFinset := by
    have hr := h.agreed
    rw [ha, Hyparview.replay_cons] at hr
    exact Option.bind_eq_some_iff.mp hr
  have hups : ∀ x, .notify (.neighborUp x) ∈ rest → x ≠ n.hyparviewNode.id := by
    intro x hx
    apply h.ups x
    rw [ha]
    exact List.mem_cons_of_mem _ hx
  have hw : ({ n.hyparviewNode with actions := rest } : HyparviewNode K A R).WellFormed :=
    h.wellFormed.congr rfl rfl (.refl _) (.refl _)
  have hpopped : peers = n.plumtreeNode.neighbours → ({ n with
      hyparviewNode := { n.hyparviewNode with actions := rest } } : P2PNode K A M R).Coherent := by
    rintro rfl
    exact ⟨hw, h.valid, h.id_eq, hrest, hups⟩
  cases a with
  | send d msg => exact .ok ((hpopped (Option.some.inj hpeers).symm).congr rfl rfl)
  | disconnect x =>
    have hc := hpopped (Option.some.inj hpeers).symm
    refine (Hyparview.Node.handleDisconnect_spec hw ⟨x, false⟩).bind ?_
    rintro hv ⟨he, _⟩
    exact .ok ((hc.evolve he).congr rfl rfl)
  | notify e =>
    cases e with
    | neighborUp x =>
      have hne : n.plumtreeNode.id ≠ x := by
        rw [h.id_eq]
        refine (h.ups x ?_).symm
        rw [ha]
        exact List.mem_cons_self
      have hgrown : peers = (n.plumtreeNode.handleNeighborUp x).neighbours := by
        rw [Plumtree.Node.neighbours_handleNeighborUp hne]
        simp only [Hyparview.Action.apply, Hyparview.Event.apply] at hpeers
        split_ifs at hpeers
        exact (Option.some.inj hpeers).symm
      obtain ⟨acts, he⟩ := Plumtree.Node.handleNeighborUp_effect h.valid x
      exact .ok ⟨hw, he.valid, he.id_eq.trans h.id_eq, hgrown ▸ hrest, hups⟩
    | neighborDown x =>
      refine (Plumtree.Node.handleNeighborDown_effect h.valid x).bind ?_
      rintro p ⟨⟨acts, he⟩, hp⟩
      have hshrunk : peers = p.neighbours := by
        rw [hp]
        simp only [Hyparview.Action.apply, Hyparview.Event.apply] at hpeers
        split_ifs at hpeers
        exact (Option.some.inj hpeers).symm
      exact .ok ⟨hw, he.valid, he.id_eq.trans h.id_eq, hshrunk ▸ hrest, hups⟩

lemma handleP2pnodeProtocolMessage (h : n.Coherent) {msg : P2pNodeProtocolMessage K A M} {b : Bool}
    (hm : n.handleP2pnodeProtocolMessage msg = .ok (b, m)) : m.Coherent := by
  cases msg with
  | hyparview msg =>
    obtain ⟨hv, hx, hm⟩ := bind_eq_ok.mp hm
    cases hm
    exact h.evolve ((Hyparview.Node.handleProtocolMessage_spec h.wellFormed msg).of_ok hx).1
  | plumtree msg =>
    cases hm
    have hn := Plumtree.Node.neighbours_handleProtocolMessage (n := n.plumtreeNode) msg
    by_cases hs : msg.sender ∈ n.plumtreeNode.neighbours
    · obtain ⟨acts, he⟩ := Plumtree.Node.handleProtocolMessage_effect h.valid msg hs
      exact h.plumtree he.valid he.id_eq hn
    · rw [Plumtree.Node.handleProtocolMessage_unknown hs]
      exact h
  | plumtreeStream msg => cases hm

omit [Rng R] in
lemma pollAction (h : n.Coherent) {a : Option (PlumtreeAction K A M)} {p : PlumtreeNode K A M}
    (hp : n.plumtreeNode.pollAction = .ok (a, p)) :
    ({ n with plumtreeNode := p } : P2PNode K A M R).Coherent := by
  obtain ⟨k, acts, he, hn, hr⟩ := (Plumtree.Node.pollAction_effect h.valid).of_ok hp
  cases hr
  exact h.plumtree he.valid he.id_eq hn

end Coherent

omit [Rng R] in
lemma Sparing.evolve {hv' : HyparviewNode K A R} (h : Sparing hv)
    (he : Hyparview.Node.Evolves silent hv hv') (hsub : ∀ x ∈ hv'.activeView, x ∈ hv.activeView) :
    Sparing hv' := by
  obtain ⟨_, as, he⟩ := he
  intro x hx
  rw [he.actions_eq] at hx
  rcases List.mem_append.mp hx with hx | hx
  · exact mt (hsub x) (h x hx)
  · exact he.closed x hx

omit [Rng R] in
lemma Sparing.of_evolves {hv' : HyparviewNode K A R} (ha : hv.actions = [])
    (he : Hyparview.Node.Evolves silent hv hv') : Sparing hv' := by
  obtain ⟨_, as, he⟩ := he
  intro x hx
  rw [he.actions_eq, ha, List.nil_append] at hx
  exact he.closed x hx

omit [Rng R] in
lemma whenDue_evolves {hv' : HyparviewNode K A R} {due now t : Plumtree.NodeTime}
    {base : Plumtree.Duration} {draw : ℕ}
    {task : HyparviewNode K A R → Exec (HyparviewNode K A R)} (hw : hv.WellFormed)
    (htask : Yields (task hv) (fun k => Hyparview.Node.Evolves (fun _ => False) hv k ∧
      ∀ x ∈ k.activeView, x ∈ hv.activeView))
    (h : whenDue hv due now task base draw = .ok (hv', t)) :
    Hyparview.Node.Evolves (fun _ => False) hv hv' ∧ ∀ x ∈ hv'.activeView, x ∈ hv.activeView := by
  rcases whenDue_ok h with rfl | h
  · exact ⟨.refl hw, fun x hx => hx⟩
  · exact htask.of_ok h

lemma handleTick_evolves {draws : Draws} (hw : n.hyparviewNode.WellFormed)
    (ht : n.handleTick draws = .ok m) :
    Hyparview.Node.Evolves (fun _ => False) n.hyparviewNode m.hyparviewNode ∧
      ∀ x ∈ m.hyparviewNode.activeView, x ∈ n.hyparviewNode.activeView := by
  obtain ⟨h₁, h₂, h₃, t₁, t₂, t₃, hshuffle, hsync, hfill, rfl⟩ := handleTick_ok ht
  obtain ⟨he₁, hsub₁⟩ := whenDue_evolves hw (Hyparview.Node.shufflePassiveView_spec hw) hshuffle
  have hspec₂ : Yields (.ok h₁.syncActiveView : Exec (HyparviewNode K A R)) (fun k =>
      Hyparview.Node.Evolves (fun _ => False) h₁ k ∧ ∀ x ∈ k.activeView, x ∈ h₁.activeView) := by
    refine .ok ⟨Hyparview.Node.syncActiveView_spec he₁.1, fun x hx => ?_⟩
    rwa [Hyparview.Node.activeView_syncActiveView] at hx
  obtain ⟨⟨hw₂, _, he₂⟩, hsub₂⟩ := whenDue_evolves he₁.1 hspec₂ hsync
  obtain ⟨⟨hw₃, _, he₃⟩, hsub₃⟩ :=
    whenDue_evolves hw₂ (Hyparview.Node.fillActiveView_spec _ hw₂) hfill
  exact ⟨(he₁.then_effect hw₂ he₂ hsub₂).then_effect hw₃ he₃ hsub₃,
    fun x hx => hsub₁ x (hsub₂ x (hsub₃ x hx))⟩

lemma handleTick_agrees {draws : Draws} (h : n.Coherent) (hs : Sparing n.hyparviewNode)
    (ht : n.handleTick draws = .ok m) : m.Coherent ∧ Sparing m.hyparviewNode := by
  obtain ⟨he, hsub⟩ := handleTick_evolves h.wellFormed ht
  obtain ⟨_, _, _, _, _, _, _, _, _, rfl⟩ := handleTick_ok ht
  have hticked : ({ n with plumtreeNode := n.plumtreeNode.tick n.params.tickInterval } :
      P2PNode K A M R).Coherent := h.plumtree h.valid rfl rfl
  exact ⟨(hticked.evolve he).congr rfl rfl, hs.evolve he hsub⟩

end P2PNode

/-- The stages of a poll at which it has drained the queue of HyParView. -/
def Stage.Drained : Stage → Prop
  | .idle => False
  | .hyparview _ => False
  | .buffer _ => True
  | .plumtree _ => True
  | .receive _ => True

namespace Session

open P2PNode (Sparing)

structure Agreeing (s : Session K A M R) : Prop where
  coherent : s.node.Coherent
  sparing : Sparing s.node.hyparviewNode
  drained : s.stage.Drained → s.node.hyparviewNode.actions = []

variable {s s₀ t : Session K A M R} {i : Input K A M}

omit [Rng R] in
lemma Agreeing.congr (h : s.Agreeing) (hh : t.node.hyparviewNode = s.node.hyparviewNode)
    (hp : t.node.Coherent) (hd : t.stage.Drained → s.stage.Drained) : t.Agreeing where
  coherent := hp
  sparing := hh ▸ h.sparing
  drained ht := hh ▸ h.drained (hd ht)

omit [Rng R] in
lemma Agreeing.found (h : s.Agreeing) {n : P2PNode K A M R} (hn : n.Coherent)
    (hh : n.hyparviewNode = s.node.hyparviewNode)
    {r : Option (PlumtreeAppMessage K A M) × P2PNode K A M R} {stage : Stage} {now : WallClock}
    (hr : Search now n r) (hd : s.stage.Drained) : (s.found stage r).Agreeing := by
  obtain ⟨⟨b, p, hr⟩, _⟩ := hr
  obtain ⟨found, m⟩ := r
  obtain rfl : m = _ := hr
  cases found with
  | none => exact h.congr hh (hn.congr rfl rfl) fun _ => hd
  | some message => exact h.congr hh (hn.congr rfl rfl) fun _ => hd

/-- A connection is closed to a node that is no neighbour, and HyParView does nothing about it. -/
lemma Agreeing.closing (h : s.Agreeing) {x : NodeId K A} {rest : List (HyparviewAction K A)}
    (ha : s.node.hyparviewNode.actions = .disconnect x :: rest) :
    x ∉ s.node.hyparviewNode.activeView ∧
      ({ s.node.hyparviewNode with actions := rest } : HyparviewNode K A R).disconnect x false =
        .ok { s.node.hyparviewNode with actions := rest } := by
  have hx : x ∉ s.node.hyparviewNode.activeView := by
    apply h.sparing x
    rw [ha]
    exact List.mem_cons_self
  exact ⟨hx, Hyparview.Node.disconnect_of_absent hx⟩

lemma Agreeing.popped (h : s.Agreeing) {a : HyparviewAction K A} {rest : List (HyparviewAction K A)}
    {n : P2PNode K A M R} (ha : s.node.hyparviewNode.actions = a :: rest)
    (hn : P2PNode.handleHyparviewAction { s.node with
      hyparviewNode := { s.node.hyparviewNode with actions := rest } } a = .ok n) :
    n.hyparviewNode = { s.node.hyparviewNode with actions := rest } := by
  have hre := (P2PNode.handleHyparviewAction_ok hn).1
  cases a with
  | disconnect x => exact (Except.ok.inj ((h.closing ha).2.symm.trans hre)).symm
  | _ => exact (Except.ok.inj hre).symm

lemma Agreeing.step (h : s.Agreeing) (hs : s.step i = .ok t) : t.Agreeing := by
  cases stepped_of_step hs with
  | refused => exact h
  | @joined c hidle =>
    have he : Hyparview.Node.Evolves (fun _ => False) s.node.hyparviewNode
        (s.node.hyparviewNode.join c) :=
      (Hyparview.Node.perform_spec h.coherent.wellFormed (.join c)).of_ok rfl
    refine ⟨h.coherent.evolve he, h.sparing.evolve he fun x hx => hx, ?_⟩
    intro hd
    rw [hidle] at hd
    exact hd.elim
  | @broadcast payload clock id n hidle hb =>
    obtain ⟨millis, _, _, rfl⟩ := P2PNode.broadcast_ok hb
    refine h.congr rfl ?_ fun hd => hd
    have hp := h.coherent.plumtree (p := s.node.plumtreeNode.broadcastMessage ⟨id, payload⟩)
      (by rw [Plumtree.Node.broadcastMessage_eq]; exact h.coherent.valid)
      (by rw [Plumtree.Node.broadcastMessage_eq]) (Plumtree.Node.neighbours_broadcastMessage _)
    exact hp.congr rfl rfl
  | left =>
    refine h.congr (by rw [P2PNode.leave_eq]) ?_ id
    rw [P2PNode.leave_eq]
    exact h.coherent.congr rfl rfl
  | arrived => exact h.congr rfl (h.coherent.congr rfl rfl) id
  | polled => exact h.congr rfl h.coherent False.elim
  | @reordered i j =>
    have hp := h.coherent.plumtree (p := s.node.plumtreeNode.reorder i j) h.coherent.valid rfl
      (Plumtree.Node.neighbours_reorder i j)
    exact h.congr rfl hp id
  | ticked _ ht =>
    obtain ⟨hc, hsp⟩ := P2PNode.handleTick_agrees h.coherent h.sparing ht
    exact ⟨hc, hsp, False.elim⟩
  | @acted b receive now a rest n hstage ha hn =>
    refine ⟨(h.coherent.handleHyparviewAction ha).of_ok hn, ?_, False.elim⟩
    change Sparing n.hyparviewNode
    rw [h.popped ha hn]
    intro x hx
    apply h.sparing x
    rw [ha]
    exact List.mem_cons_of_mem _ hx
  | drained hstage ha => exact ⟨h.coherent, h.sparing, fun _ => ha⟩
  | @searched b receive now r hstage hr =>
    refine h.found h.coherent rfl ((processSequentialMessages_spec _ _).of_ok hr) ?_
    rw [hstage]
    trivial
  | @executed b receive now a p r hstage ha hr =>
    have hd : s.stage.Drained := by
      rw [hstage]
      trivial
    have hp : ({ s.node with plumtreeNode := p } : P2PNode K A M R).Coherent :=
      h.coherent.pollAction ha
    cases a with
    | send d msg =>
      cases hr
      exact h.congr rfl (hp.congr rfl rfl) fun _ => hd
    | deliver m =>
      have hput : ({ s.node with
          plumtreeNode := p
          messageBuffer := s.node.messageBuffer.insert m.id.timestamp (m, receive.now) } :
            P2PNode K A M R).Coherent := hp.congr rfl rfl
      have hsearch := (processSequentialMessages_spec _ _).of_ok hr
      have hfound : (s.found (.plumtree true) r).Agreeing := h.found hput rfl hsearch hd
      exact ⟨hfound.coherent, hfound.sparing, hfound.drained⟩
  | @exhausted b receive now p hstage ha =>
    refine h.congr rfl (h.coherent.pollAction ha) fun _ => ?_
    rw [hstage]
    trivial
  | @received b stop receive now msg rest n hstage hm hn =>
    have ha : s.node.hyparviewNode.actions = [] := by
      apply h.drained
      rw [hstage]
      trivial
    have hc : ({ s.node with messageRx := rest } : P2PNode K A M R).Coherent :=
      h.coherent.congr rfl rfl
    refine ⟨hc.handleP2pnodeProtocolMessage hn, ?_, ?_⟩
    · cases msg with
      | hyparview msg =>
        obtain ⟨hv, hx, hn⟩ := bind_eq_ok.mp hn
        cases hn
        exact .of_evolves ha
          ((Hyparview.Node.handleProtocolMessage_spec h.coherent.wellFormed msg).of_ok hx).1
      | plumtree msg =>
        cases hn
        exact h.sparing
      | plumtreeStream msg => cases hn
    · cases msg with
      | hyparview msg =>
        obtain ⟨hv, hx, hn⟩ := bind_eq_ok.mp hn
        cases hn
        exact False.elim
      | plumtree msg =>
        cases hn
        exact fun _ => ha
      | plumtreeStream msg => cases hn
  | ended hstage =>
    refine h.congr rfl h.coherent fun _ => ?_
    rw [hstage]
    trivial

variable {tr : List (Taken (Session K A M R) (Input K A M))} {nodeId : NodeId K A} {rng : R}
  {draws : Draws} {choices : List ℕ}

omit [Rng R] in
lemma new_agreeing (h : Session.new nodeId rng draws choices = .ok s₀) : s₀.Agreeing := by
  obtain ⟨_, _, _, rfl⟩ := new_ok h
  refine ⟨⟨?_, ?_, rfl, rfl, ?_⟩, ?_, False.elim⟩
  · exact Hyparview.Node.withOptions_wellFormed nodeId rng (by decide) (by decide)
  · exact Plumtree.MissingMessages.new_valid choices
  · simp [Hyparview.Node.withOptions]
  · simp [Sparing, Hyparview.Node.withOptions]

lemma agreeing_of_run (h₀ : Session.new nodeId rng draws choices = .ok s₀)
    (h : Run step s₀ tr s) : s.Agreeing :=
  h.invariant (fun _ _ _ ha hs => ha.step hs) (new_agreeing h₀)

/-- In every reachable state the events that wait lead from the peers of Plumtree to the active
view, so the two are the same when none waits. -/
theorem neighbours_agree (h₀ : Session.new nodeId rng draws choices = .ok s₀)
    (h : Run step s₀ tr s) :
    replay s.node.hyparviewNode.actions s.node.plumtreeNode.neighbours =
        some s.node.hyparviewNode.activeView.toFinset ∧
      (s.node.hyparviewNode.actions = [] →
        s.node.plumtreeNode.neighbours = s.node.hyparviewNode.activeView.toFinset) := by
  have hs := (agreeing_of_run h₀ h).coherent.agreed
  refine ⟨hs, fun ha => ?_⟩
  rw [ha, Hyparview.replay_nil] at hs
  exact Option.some.inj hs

/-- A neighbour comes, and leaves in the middle of a poll. -/
def visited : List (Input ℕ ℕ ℕ) :=
  .arrive (.hyparview (.join ⟨⟨[], 1⟩⟩)) :: .arrive (.hyparview (.disconnect ⟨⟨[], 1⟩, true⟩)) ::
    (polled 1000).take 11

theorem neighbours_agree_visited : ∃ (s : Session ℕ ℕ ℕ Playback)
    (tr : List (Taken (Session ℕ ℕ ℕ Playback) (Input ℕ ℕ ℕ))), Run step solo tr s ∧
      s.node.hyparviewNode.actions.length = 3 ∧
      replay s.node.hyparviewNode.actions s.node.plumtreeNode.neighbours =
        some s.node.hyparviewNode.activeView.toFinset := by
  have hrun : follow step solo visited = .ok _ := rfl
  exact ⟨_, _, Run.of_follow visited hrun, by decide,
    (neighbours_agree new_solo (Run.of_follow visited hrun)).1⟩

/-- The action of HyParView that a step executes. -/
def performed (e : Taken (Session K A M R) (Input K A M)) : Option (HyparviewAction K A) :=
  match e.before.stage, e.input with
  | .hyparview _, .advance _ _ => e.before.node.hyparviewNode.actions.head?
  | _, _ => none

omit [DecidableEq K] [DecidableEq A] [Rng R] in
lemma performed_eq_some {e : Taken (Session K A M R) (Input K A M)} {a : HyparviewAction K A}
    (h : performed e = some a) : ∃ rest, e.before.node.hyparviewNode.actions = a :: rest := by
  unfold performed at h
  split at h
  · exact List.head?_eq_some_iff.mp h
  · cases h

lemma Agreeing.drain (h : s.Agreeing) {b : Bool} (hb : s.stage = .hyparview b)
    (hs : s.step i = .ok t) :
    s.node.hyparviewNode.actions = (performed ⟨s, i, t⟩).toList ++ t.node.hyparviewNode.actions ∧
      (t.stage.Drained → t.node.hyparviewNode.actions = []) := by
  refine ⟨?_, (h.step hs).drained⟩
  cases stepped_of_step hs with
  | refused hi =>
    cases i with
    | advance receive now => cases hb.symm.trans (hi receive now rfl)
    | _ => simp [performed]
  | arrived => simp [performed, P2PNode.arrive]
  | reordered => simp [performed, P2PNode.reorder]
  | acted _ ha hn =>
    have hp := h.popped ha hn
    simp [performed, hb, ha, hp]
  | drained _ ha => simp [performed, ha, hb]
  | joined hidle => cases hb.symm.trans hidle
  | broadcast hidle => cases hb.symm.trans hidle
  | left hidle => cases hb.symm.trans hidle
  | polled hidle => cases hb.symm.trans hidle
  | ticked hidle => cases hb.symm.trans hidle
  | searched hstage => cases hb.symm.trans hstage
  | executed hstage => cases hb.symm.trans hstage
  | exhausted hstage => cases hb.symm.trans hstage
  | received hstage => cases hb.symm.trans hstage
  | ended hstage => cases hb.symm.trans hstage

lemma Agreeing.drains (h : s.Agreeing) (hr : Run Session.step s tr t)
    (hd : ∀ e ∈ tr, ∃ b, e.before.stage = .hyparview b) :
    t.Agreeing ∧
      s.node.hyparviewNode.actions = tr.filterMap performed ++ t.node.hyparviewNode.actions := by
  induction hr with
  | start => exact ⟨h, rfl⟩
  | @next tr t u i _ hs ih =>
    obtain ⟨ht, hacts⟩ := ih fun e he => hd e (List.mem_append_left _ he)
    obtain ⟨b, hb⟩ := hd ⟨t, i, u⟩ (by simp)
    refine ⟨ht.step hs, ?_⟩
    rw [hacts, (ht.drain hb hs).1, List.filterMap_append, List.append_assoc]
    cases hp : performed ⟨t, i, u⟩ <;> simp [hp]

/-- The drain ends: one step for each action, and one that finds the queue empty. -/
lemma Agreeing.drain_ends (h : s.Agreeing) {b : Bool} (hb : s.stage = .hyparview b)
    {clock : List (WallClock × WallClock)}
    (hc : clock.length = s.node.hyparviewNode.actions.length + 1) :
    ∃ tr t b', follow Session.step s (clock.map fun c => .advance c.1 c.2) = .ok (tr, t) ∧
      (∀ e ∈ tr, ∃ b, e.before.stage = .hyparview b) ∧ t.stage = .buffer b' := by
  induction clock generalizing s b with
  | nil => simp at hc
  | cons c clock ih =>
    cases ha : s.node.hyparviewNode.actions with
    | nil =>
      obtain rfl : clock = [] := by simpa [ha] using hc
      obtain ⟨t, ht, hs⟩ : ∃ t, t.stage = .buffer b ∧ s.step (.advance c.1 c.2) = .ok t := by
        refine ⟨{ s with stage := .buffer b }, rfl, ?_⟩
        simp only [Session.step, advance, hb, advanceHyparview, Hyparview.Node.pollAction, ha]
        rfl
      refine ⟨[⟨s, .advance c.1 c.2, t⟩], t, b, ?_, ?_, ht⟩
      · simp only [List.map_cons, List.map_nil, follow, hs, ok_bind]
      · intro e he
        obtain rfl := List.mem_singleton.mp he
        exact ⟨b, hb⟩
    | cons a rest =>
      obtain ⟨n, hn, _⟩ := h.coherent.handleHyparviewAction ha
      obtain ⟨u, hu, hrest, hs⟩ : ∃ u, u.stage = .hyparview true ∧
          u.node.hyparviewNode.actions = rest ∧ s.step (.advance c.1 c.2) = .ok u := by
        refine ⟨{ s with node := n, stage := .hyparview true }, rfl, ?_, ?_⟩
        · change n.hyparviewNode.actions = rest
          rw [h.popped ha hn]
        · simp only [Session.step, advance, hb, advanceHyparview, Hyparview.Node.pollAction, ha,
            List.head?_cons, List.tail_cons, hn, ok_bind]
      have hlen : clock.length = u.node.hyparviewNode.actions.length + 1 := by
        rw [ha, List.length_cons, List.length_cons] at hc
        rw [hrest]
        omega
      obtain ⟨tr, t, b', ht, hd, hend⟩ := ih (h.step hs) hu hlen
      refine ⟨⟨s, .advance c.1 c.2, u⟩ :: tr, t, b', ?_, ?_, hend⟩
      · rw [List.map_cons, follow, hs, ok_bind, ht]
        rfl
      · intro e he
        rcases List.mem_cons.mp he with rfl | he
        · exact ⟨b, hb⟩
        · exact hd e he

/-- A connection is closed only to a node that is no neighbour, which changes nothing in HyParView;
so the drain of its queue executes the actions that waited when it began, and ends. -/
theorem closing_spares_neighbours (h₀ : Session.new nodeId rng draws choices = .ok s₀)
    (h : Run step s₀ tr s) :
    (∀ e ∈ tr, ∀ x, performed e = some (.disconnect x) →
      x ∉ e.before.node.hyparviewNode.activeView ∧
        e.before.node.hyparviewNode.pollAction.2.disconnect x false =
          .ok e.before.node.hyparviewNode.pollAction.2) ∧
    ∀ b, s.stage = .hyparview b →
      (∀ tr' t, Run step s tr' t → (∀ e ∈ tr', ∃ b, e.before.stage = .hyparview b) →
        s.node.hyparviewNode.actions =
            tr'.filterMap performed ++ t.node.hyparviewNode.actions ∧
          (t.stage.Drained → s.node.hyparviewNode.actions = tr'.filterMap performed)) ∧
      ∀ clock : List (WallClock × WallClock),
        clock.length = s.node.hyparviewNode.actions.length + 1 →
        ∃ tr' t b', follow step s (clock.map fun c => .advance c.1 c.2) = .ok (tr', t) ∧
          t.stage = .buffer b' ∧ tr'.filterMap performed = s.node.hyparviewNode.actions := by
  have hs := agreeing_of_run h₀ h
  refine ⟨fun e he x hx => ?_, fun b hb => ⟨fun tr' t hr hd => ?_, fun clock hc => ?_⟩⟩
  · obtain ⟨tr', hr, _, _⟩ := h.to_before he
    obtain ⟨rest, ha⟩ := performed_eq_some hx
    have hpoll : e.before.node.hyparviewNode.pollAction.2 =
        { e.before.node.hyparviewNode with actions := rest } := by
      simp only [Hyparview.Node.pollAction, ha, List.tail_cons]
    rw [hpoll]
    exact (agreeing_of_run h₀ hr).closing ha
  · obtain ⟨ht, hacts⟩ := hs.drains hr hd
    refine ⟨hacts, fun hend => ?_⟩
    rw [hacts, ht.drained hend, List.append_nil]
  · obtain ⟨tr', t, b', hf, hd, hend⟩ := hs.drain_ends hb hc
    obtain ⟨ht, hacts⟩ := hs.drains (Run.of_follow _ hf) hd
    refine ⟨tr', t, b', hf, hend, ?_⟩
    rw [hacts, ht.drained (by rw [hend]; trivial), List.append_nil]

theorem closing_spares_neighbours_visited : ∃ (s : Session ℕ ℕ ℕ Playback)
    (tr : List (Taken (Session ℕ ℕ ℕ Playback) (Input ℕ ℕ ℕ))), Run step solo tr s ∧
      .disconnect ⟨[], 1⟩ ∈ s.node.hyparviewNode.actions ∧
      ∃ tr' t b', follow step s (List.replicate 4 (.advance none none)) = .ok (tr', t) ∧
        t.stage = .buffer b' ∧ tr'.filterMap performed = s.node.hyparviewNode.actions := by
  have hrun : follow step solo visited = .ok _ := rfl
  exact ⟨_, _, Run.of_follow visited hrun, by decide,
    ((closing_spares_neighbours new_solo (Run.of_follow visited hrun)).2 false rfl).2
      (List.replicate 4 (none, none)) rfl⟩

end Session

end QuicP2p.P2p
