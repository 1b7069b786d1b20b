import QuicP2p.Hyparview.Forwarding

/-! The public operations of a node: what each of them comes to, and where it draws from an empty
view instead. Every property of the operations is proved from this description. -/

namespace QuicP2p.Hyparview

open Library

inductive Operation (T : Type)
  | join (contactNodeId : T)
  | disconnect (node : T) (alive : Bool)
  | handleProtocolMessage (message : ProtocolMessage T)
  | shufflePassiveView
  | fillActiveView
  | syncActiveView
  deriving DecidableEq

/-- The nodes that an operation may take out of the active view without telling them. -/
def Operation.silent {T : Type} : Operation T → T → Prop
  | .disconnect node alive, x => alive = false ∧ x = node
  | .handleProtocolMessage (.disconnect m), x => m.alive = false ∧ x = m.sender
  | _, _ => False

/-- The node that an operation may bring into the active view. -/
def Operation.Admits {T : Type} : Operation T → T → Prop
  | .handleProtocolMessage (.join m), x => x = m.sender
  | .handleProtocolMessage (.forwardJoin m), x => x = m.newNode
  | .handleProtocolMessage (.neighbor m), x => x = m.sender
  | _, _ => False

namespace Node

variable {T R : Type} [DecidableEq T]

/-- The condition under which the handler of a message draws from an empty view. -/
def OverdrawnBy (n : Node T R) : ProtocolMessage T → Prop
  | .join m => n.Stranger m.sender ∧ n.ActiveBarred
  | .forwardJoin m =>
    n.Stranger m.newNode ∧
      if m.ttl.isExpired ∨ n.activeView.isEmpty then n.ActiveBarred
      else n.PassiveBarred ∧ (m.ttl.asU8 = n.options.passiveRandomWalkLen ∨
        (n.isActiveViewFull ∧ ∀ x ∈ n.activeView, x ∈ [m.sender]))
  | .neighbor m => m.highPriority ∧ n.Stranger m.sender ∧ n.ActiveBarred
  | .shuffle m => m.ttl.isExpired ∧ n.PassiveBarred ∧ ∃ x ∈ m.nodes, n.Stranger x
  | .shuffleReply m => n.PassiveBarred ∧ ∃ x ∈ m.nodes, n.Stranger x
  | .disconnect m =>
    n.options.maxPassiveViewSize.toNat = 0 ∧
      if m.sender ∈ n.activeView then
        n.passiveView = [] ∨ (m.alive ∧ n.passiveView.length = 1)
      else m.sender ≠ n.id ∧ m.alive ∧ n.passiveView = []

/-- The condition under which an operation draws from an empty view. -/
def Overdraws (n : Node T R) : Operation T → Prop
  | .handleProtocolMessage msg => n.OverdrawnBy msg
  | .disconnect node alive => n.OverdrawnBy (.disconnect ⟨node, alive⟩)
  | _ => False

variable {n m k : Node T R}

lemma disconnectUnlessActiveViewNode_views (n : Node T R) (x : T) :
    (n.disconnectUnlessActiveViewNode x).activeView = n.activeView ∧
      (n.disconnectUnlessActiveViewNode x).passiveView = n.passiveView ∧
      (n.disconnectUnlessActiveViewNode x).options = n.options ∧
      (n.disconnectUnlessActiveViewNode x).id = n.id := by
  unfold disconnectUnlessActiveViewNode
  split
  · exact ⟨rfl, rfl, rfl, rfl⟩
  · exact ⟨rfl, rfl, rfl, rfl⟩

lemma disconnectUnlessActiveViewNode_sound (h : n.Sound) (x : T) :
    (n.disconnectUnlessActiveViewNode x).Sound := by
  obtain ⟨ha, hp, _, hi⟩ := n.disconnectUnlessActiveViewNode_views x
  exact h.congr hi (ha ▸ .refl _) (hp ▸ .refl _)

variable [Rng R]

def perform (n : Node T R) : Operation T → Exec (Node T R)
  | .join contactNodeId => .ok (n.join contactNodeId)
  | .disconnect node alive => n.disconnect node alive
  | .handleProtocolMessage message => n.handleProtocolMessage message
  | .shufflePassiveView => n.shufflePassiveView
  | .fillActiveView => n.fillActiveView
  | .syncActiveView => .ok n.syncActiveView

/-- What the handling of a message comes to. -/
inductive Handled (n : Node T R) : ProtocolMessage T → Node T R → Prop
  | joined {m : JoinMessage T} {k : Node T R} (hk : Admitted n m.sender true k) :
      Handled n (.join m) (k.sendEach (k.activeView.filter (fun x => x ≠ m.sender))
        (.forwardJoin ⟨k.id, m.sender, .new k.options.activeRandomWalkLen⟩))
  | walkEnded {m : ForwardJoinMessage T} {k : Node T R}
      (hm : m.ttl.isExpired = true ∨ n.activeView.isEmpty = true)
      (hk : Admitted n m.newNode true k) : Handled n (.forwardJoin m) k
  | walkStuck {m : ForwardJoinMessage T} {k l r : Node T R}
      (hm : ¬ (m.ttl.isExpired = true ∨ n.activeView.isEmpty = true))
      (hk : AddedIf (m.ttl.asU8 = n.options.passiveRandomWalkLen) n m.newNode k)
      (hl : Selected k [m.sender] none l) (hr : Admitted l m.newNode true r) :
      Handled n (.forwardJoin m) r
  | walkForwarded {m : ForwardJoinMessage T} {k l : Node T R} {d : T}
      (hm : ¬ (m.ttl.isExpired = true ∨ n.activeView.isEmpty = true))
      (hk : AddedIf (m.ttl.asU8 = n.options.passiveRandomWalkLen) n m.newNode k)
      (hl : Selected k [m.sender] (some d) l) :
      Handled n (.forwardJoin m) (l.send d (.forwardJoin ⟨l.id, m.newNode, m.ttl.decrement⟩))
  | neighborAdmitted {m : NeighborMessage T} {k : Node T R}
      (hm : m.highPriority = true ∨ ¬ n.isActiveViewFull = true)
      (hk : Admitted n m.sender false k) : Handled n (.neighbor m) k
  | neighborRefused {m : NeighborMessage T}
      (hm : ¬ (m.highPriority = true ∨ ¬ n.isActiveViewFull = true)) : Handled n (.neighbor m) n
  | shuffleEnded {m : ShuffleMessage T} {k : Node T R} (hm : m.ttl.isExpired = true)
      (hk : Stocked (n.shufflePassive.send m.origin (.shuffleReply ⟨n.id,
        n.shufflePassive.passiveView.take m.nodes.length⟩)) m.nodes k) : Handled n (.shuffle m) k
  | shuffleStuck {m : ShuffleMessage T} {k : Node T R} (hm : ¬ m.ttl.isExpired = true)
      (hk : Selected n [m.origin, m.sender] none k) : Handled n (.shuffle m) k
  | shuffleForwarded {m : ShuffleMessage T} {k : Node T R} {d : T} (hm : ¬ m.ttl.isExpired = true)
      (hk : Selected n [m.origin, m.sender] (some d) k) :
      Handled n (.shuffle m) (k.send d (.shuffle ⟨k.id, m.origin, m.nodes, m.ttl.decrement⟩))
  | shuffleReplied {m : ShuffleReplyMessage T} {k : Node T R} (hk : Stocked n m.nodes k) :
      Handled n (.shuffleReply m) k
  | neighborLeft {m : DisconnectMessage T} {v q : List T} {k l r : Node T R}
      (hv : n.activeView.Perm (m.sender :: v))
      (hk : Added (n.departed v m.sender m.alive) m.sender k)
      (hq : q.Perm (k.passiveView.erase m.sender)) (hl : Filled { k with passiveView := q } l)
      (hr : AddedIf (m.alive = true) l m.sender r) : Handled n (.disconnect m) r
  | strangerLeft {m : DisconnectMessage T} {k : Node T R} (hm : m.sender ∉ n.activeView)
      (hk : AddedIf (m.alive = true) n m.sender k) : Handled n (.disconnect m) k

/-- What an operation comes to. -/
inductive Performed (n : Node T R) : Operation T → Node T R → Prop
  | join {c : T} : Performed n (.join c) (n.join c)
  | disconnected {x : T} {alive : Bool} {m : Node T R} (hm : Handled n (.disconnect ⟨x, alive⟩) m) :
      Performed n (.disconnect x alive) m
  | left {d : DisconnectMessage T} {m : Node T R} (hm : Handled n (.disconnect d) m) :
      Performed n (.handleProtocolMessage (.disconnect d)) m
  | answered {msg : ProtocolMessage T} {m : Node T R} (hmsg : ∀ d, msg ≠ .disconnect d)
      (hm : Handled n msg m) : Performed n (.handleProtocolMessage msg)
        (m.disconnectUnlessActiveViewNode msg.sender)
  | unshuffled (h : n.activeView = []) : Performed n .shufflePassiveView n
  | shuffled {x : T} {g : R} {k : Node T R} (hx : x ∈ n.activeView)
      (hk : k = ({ n with rng := g } : Node T R).shufflePassive.shuffleActive) :
      Performed n .shufflePassiveView (k.send x (.shuffle ⟨k.id, k.id,
        k.passiveView.take k.options.shufflePassiveViewSize.toNat ++
          k.activeView.take k.options.shuffleActiveViewSize.toNat ++ [k.id],
        .new k.options.activeRandomWalkLen⟩))
  | filled {m : Node T R} (hm : Filled n m) : Performed n .fillActiveView m
  | synced : Performed n .syncActiveView n.syncActiveView

lemma handleJoin_handled (h : n.Sound) (m : JoinMessage T) :
    StopsIf (n.OverdrawnBy (.join m)) (n.handleJoin m) (Handled n (.join m)) :=
  (addToActiveView_admitted h m.sender true).andThen fun _ hk => .ok (.joined hk)

lemma handleForwardJoin_handled (h : n.Sound) (m : ForwardJoinMessage T) :
    StopsIf (n.OverdrawnBy (.forwardJoin m)) (n.handleForwardJoin m)
      (Handled n (.forwardJoin m)) := by
  unfold handleForwardJoin
  split
  next he =>
    refine ((addToActiveView_admitted h m.newNode true).congr ?_).mono fun _ => .walkEnded he
    rw [OverdrawnBy, if_pos he]
  next he =>
    have hne : n.activeView ≠ [] := fun hv => he (.inr (by simp [hv]))
    refine (StopsIf.bind (d := (∀ x ∈ n.activeView, x ∈ [m.sender]) ∧ n.Stranger m.newNode ∧
      n.ActiveBarred) (addToPassiveView_if n m.newNode _) ?_).congr ?_
    · intro k _ hk
      refine StopsIf.after (selectForwardingDestination_spec k _) ?_
      rintro ⟨next, l⟩ hl
      have hkl := hk.restocks.trans hl.restocks
      cases next with
      | some d =>
        refine .of_yields (.ok (.walkForwarded he hk hl)) fun hc => ?_
        cases hl with
        | found hx hn _ => exact hn (hc.1 _ (hk.active_eq ▸ hx))
      | none =>
        have hall : ∀ x ∈ n.activeView, x ∈ [m.sender] := by
          cases hl with
          | none hx _ => exact fun x hx' => hx x (hk.active_eq ▸ hx')
        refine ((addToActiveView_admitted (hkl.sound h) m.newNode true).congr ?_).mono
          fun _ => .walkStuck he hk hl
        rw [hkl.stranger_iff, hkl.activeBarred_iff, and_iff_right hall]
    · rw [OverdrawnBy, if_neg he, ActiveBarred]
      tauto

lemma handleNeighbor_handled (h : n.Sound) (m : NeighborMessage T) :
    StopsIf (n.OverdrawnBy (.neighbor m)) (n.handleNeighbor m) (Handled n (.neighbor m)) := by
  unfold handleNeighbor
  split
  next hp =>
    refine ((addToActiveView_admitted h m.sender false).congr
      ⟨fun hc => ⟨?_, hc⟩, fun hc => hc.2⟩).mono fun _ => .neighborAdmitted hp
    exact hp.resolve_right (not_not.mpr hc.2.1)
  next hp => exact .of_yields (.ok (.neighborRefused hp)) fun hc => hp (.inl hc.1)

lemma handleShuffle_handled (n : Node T R) (m : ShuffleMessage T) :
    StopsIf (n.OverdrawnBy (.shuffle m)) (n.handleShuffle m) (Handled n (.shuffle m)) := by
  unfold handleShuffle
  split
  next he =>
    refine ((addShuffledNodesToPassiveView_stocked _ m.nodes).congr ?_).mono
      fun _ => .shuffleEnded he
    have hk := shufflePassive_restocks n
    change (n.shufflePassive.PassiveBarred ∧ ∃ x ∈ m.nodes, n.shufflePassive.Stranger x) ↔ _
    simp only [hk.passiveBarred_iff, hk.stranger_iff, OverdrawnBy, he, true_and]
  next he =>
    refine .of_yields ((selectForwardingDestination_spec n _).bind ?_) fun hc => he hc.1
    rintro ⟨destination, k⟩ hk
    cases destination with
    | some d => exact .ok (.shuffleForwarded he hk)
    | none => exact .ok (.shuffleStuck he hk)

/-- A node of the passive view that is taken out of it is a stranger again. -/
lemma refill_filled (h : n.Sound) {x : T} (hx : x ∈ n.passiveView) :
    Yields (n.removeFromPassiveView x >>= fun n => n.fillActiveView) (fun m =>
      (∃ q, q.Perm (n.passiveView.erase x) ∧ Filled { n with passiveView := q } m) ∧
      m.Stranger x ∧ (m.PassiveBarred ↔
        n.options.maxPassiveViewSize.toNat = 0 ∧ n.passiveView.length = 1)) := by
  refine (removeFromPassiveView_removed n x).bind ?_
  rintro _ ⟨q, rfl, hq⟩
  refine (fillActiveView_filled _).mono fun m hm => ⟨⟨q, hq, hm⟩, ?_⟩
  obtain ⟨ha, hp, ho, hi⟩ := hm.views
  have hlen : q.length + 1 = n.passiveView.length := by
    rw [hq.length_eq, List.length_erase_of_mem hx]
    exact Nat.sub_add_cancel (List.length_pos_of_mem hx)
  rw [Stranger, ha, hi, PassiveBarred, hp, ho, ← List.length_eq_zero_iff, ← hlen]
  refine ⟨⟨fun hxa => h.disjoint x hxa hx, ?_⟩, by simp⟩
  rintro rfl
  exact h.id_passive hx

lemma handleDisconnect_handled (h : n.Sound) (m : DisconnectMessage T) :
    StopsIf (n.OverdrawnBy (.disconnect m)) (n.handleDisconnect m) (Handled n (.disconnect m)) := by
  unfold handleDisconnect
  by_cases hx : m.sender ∈ n.activeView
  · have hrest : ∀ r : Bool × Node T R, ¬ n.PassiveBarred → (r.1 = true ∧ ∃ v,
        n.activeView.Perm (m.sender :: v) ∧
          Added (n.departed v m.sender m.alive) m.sender r.2) →
        StopsIf (m.alive ∧ n.options.maxPassiveViewSize.toNat = 0 ∧ n.passiveView.length = 1)
          ((if r.1 = true then r.2.removeFromPassiveView m.sender >>= fun n => n.fillActiveView
            else .ok r.2) >>= fun n =>
              if m.alive then n.addToPassiveView m.sender else .ok n)
          (Handled n (.disconnect m)) := by
      rintro ⟨_, k⟩ - ⟨rfl, v, hv, hk⟩
      rw [if_pos rfl]
      refine StopsIf.after
        (refill_filled (hk.keeps.sound (h.departed hv _)) (hk.mem (h.stranger_departed hv _))) ?_
      rintro l ⟨⟨q, hq, hl⟩, hs, hb⟩
      refine ((addToPassiveView_if l m.sender _).congr (and_congr_right fun _ => ?_)).mono
        fun _ => .neighborLeft hv hk hq hl
      rw [and_iff_right hs, hb, hk.keeps.options_eq]
      exact and_congr_right fun hz => by rw [hk.restocks.stock hz]; rfl
    have hremoved : StopsIf n.PassiveBarred (n.removeFromActiveView m) (fun r => r.1 = true ∧
        ∃ v, n.activeView.Perm (m.sender :: v) ∧
          Added (n.departed v m.sender m.alive) m.sender r.2) := by
      unfold removeFromActiveView
      split
      next i hi =>
        obtain ⟨hlt, hi, _⟩ := List.idxOf?_eq_some_iff.mp hi
        have hi : n.activeView[i] = m.sender := by simpa using hi
        refine (removeFromActiveViewByIndex_added h hlt m.alive).andThen ?_
        rw [hi]
        exact fun k hk => .ok ⟨rfl, hk⟩
      next hi => exact absurd hx (List.idxOf?_eq_none_iff.mp hi)
    refine (hremoved.bind hrest).congr ?_
    rw [OverdrawnBy, if_pos hx, PassiveBarred]
    tauto
  · have hnone : n.removeFromActiveView m = .ok (false, n) := by
      rw [removeFromActiveView, List.idxOf?_eq_none_iff.mpr hx]
    rw [hnone]
    refine ((addToPassiveView_if n m.sender _).congr ?_).mono fun _ => .strangerLeft hx
    rw [OverdrawnBy, if_neg hx, Stranger, PassiveBarred]
    tauto

lemma handle_handled (h : n.Sound) (msg : ProtocolMessage T) :
    StopsIf (n.OverdrawnBy msg) (n.handle msg) (Handled n msg) := by
  cases msg with
  | join m => exact handleJoin_handled h m
  | forwardJoin m => exact handleForwardJoin_handled h m
  | neighbor m => exact handleNeighbor_handled h m
  | shuffle m => exact handleShuffle_handled n m
  | shuffleReply m =>
    exact (addShuffledNodesToPassiveView_stocked n m.nodes).mono fun _ => .shuffleReplied
  | disconnect m => exact handleDisconnect_handled h m

lemma handleProtocolMessage_eq (n : Node T R) (msg : ProtocolMessage T)
    (hm : ∀ x, msg ≠ .disconnect x) :
    n.handleProtocolMessage msg =
      n.handle msg >>= fun n => .ok (n.disconnectUnlessActiveViewNode msg.sender) := by
  cases msg with
  | disconnect m => exact absurd rfl (hm m)
  | _ => rfl

lemma handleProtocolMessage_performed (h : n.Sound) (msg : ProtocolMessage T) :
    StopsIf (n.OverdrawnBy msg) (n.handleProtocolMessage msg)
      (Performed n (.handleProtocolMessage msg)) := by
  by_cases hd : ∃ d, msg = .disconnect d
  · obtain ⟨d, rfl⟩ := hd
    exact (handleDisconnect_handled h d).mono fun _ => .left
  · have hmsg : ∀ d, msg ≠ .disconnect d := fun d hx => hd ⟨d, hx⟩
    rw [handleProtocolMessage_eq n msg hmsg]
    exact (handle_handled h msg).andThen fun _ hm => .ok (.answered hmsg hm)

lemma shufflePassiveView_performed (n : Node T R) :
    Yields n.shufflePassiveView (Performed n .shufflePassiveView) := by
  unfold shufflePassiveView
  refine (selectRandomFromActiveView_spec n).bind ?_
  rintro ⟨_, _⟩ (⟨rfl, he, rfl⟩ | ⟨x, hx, rfl, g, rfl⟩)
  · exact .ok (.unshuffled he)
  · exact .ok (.shuffled hx rfl)

/-- An operation of a node with sound views draws from an empty view, or comes to what is said
above. -/
lemma perform_performed (h : n.Sound) (op : Operation T) :
    StopsIf (n.Overdraws op) (n.perform op) (Performed n op) := by
  cases op with
  | join c => exact .of_yields (.ok .join) fun hc => hc
  | disconnect x alive => exact (handleDisconnect_handled h ⟨x, alive⟩).mono fun _ => .disconnected
  | handleProtocolMessage msg => exact handleProtocolMessage_performed h msg
  | shufflePassiveView => exact .of_yields (shufflePassiveView_performed n) fun hc => hc
  | fillActiveView =>
    exact .of_yields ((fillActiveView_filled n).mono fun _ => .filled) fun hc => hc
  | syncActiveView => exact .of_yields (.ok .synced) fun hc => hc

lemma Handled.same {msg : ProtocolMessage T} (hm : Handled n msg m) :
    m.id = n.id ∧ m.options = n.options := by
  cases hm with
  | joined hk =>
    rw [sendEach_eq]
    exact hk.same
  | walkEnded _ hk => exact hk.same
  | walkStuck _ hk hl hr =>
    have hl := hk.restocks.trans hl.restocks
    exact ⟨hr.same.1.trans hl.id_eq, hr.same.2.trans hl.options_eq⟩
  | walkForwarded _ hk hl =>
    have hl := hk.restocks.trans hl.restocks
    exact ⟨hl.id_eq, hl.options_eq⟩
  | neighborAdmitted _ hk => exact hk.same
  | neighborRefused => exact ⟨rfl, rfl⟩
  | shuffleEnded _ hk => exact ⟨hk.restocks.id_eq, hk.restocks.options_eq⟩
  | shuffleStuck _ hk => exact ⟨hk.restocks.id_eq, hk.restocks.options_eq⟩
  | shuffleForwarded _ hk => exact ⟨hk.restocks.id_eq, hk.restocks.options_eq⟩
  | shuffleReplied hk => exact ⟨hk.restocks.id_eq, hk.restocks.options_eq⟩
  | neighborLeft _ hk _ hl hr =>
    obtain ⟨_, _, ho, hi⟩ := hl.views
    exact ⟨hr.restocks.id_eq.trans (hi.trans hk.same.2.1),
      hr.restocks.options_eq.trans (ho.trans hk.same.2.2)⟩
  | strangerLeft _ hk => exact ⟨hk.restocks.id_eq, hk.restocks.options_eq⟩

lemma Performed.id_eq {op : Operation T} (hm : Performed n op m) : m.id = n.id := by
  cases hm with
  | join => rfl
  | disconnected hm => exact hm.same.1
  | left hm => exact hm.same.1
  | answered _ hk => exact (disconnectUnlessActiveViewNode_views _ _).2.2.2.trans hk.same.1
  | unshuffled => rfl
  | shuffled _ hk => exact (shuffled_restocks hk).id_eq
  | filled hm => exact hm.views.2.2.2
  | synced => rw [syncActiveView, sendEach_eq]

lemma Handled.subset {msg : ProtocolMessage T} (hm : Handled n msg m) {x : T}
    (hx : x ∈ m.activeView) :
    x ∈ n.activeView ∨ Operation.Admits (.handleProtocolMessage msg) x := by
  cases hm with
  | joined hk =>
    rw [sendEach_eq] at hx
    exact hk.subset hx
  | walkEnded _ hk => exact hk.subset hx
  | walkStuck _ hk hl hr =>
    have hl := hk.restocks.trans hl.restocks
    exact (hr.subset hx).imp_left hl.active_perm.mem_iff.mp
  | walkForwarded _ hk hl => exact .inl ((hk.restocks.trans hl.restocks).active_perm.mem_iff.mp hx)
  | neighborAdmitted _ hk => exact hk.subset hx
  | neighborRefused => exact .inl hx
  | shuffleEnded _ hk => exact .inl (hk.restocks.active_perm.mem_iff.mp hx)
  | shuffleStuck _ hk => exact .inl (hk.restocks.active_perm.mem_iff.mp hx)
  | shuffleForwarded _ hk => exact .inl (hk.restocks.active_perm.mem_iff.mp hx)
  | shuffleReplied hk => exact .inl (hk.restocks.active_perm.mem_iff.mp hx)
  | neighborLeft hv hk _ hl hr =>
    rw [hr.active_eq, hl.views.1] at hx
    have hx := hk.keeps.active_perm.mem_iff.mp hx
    exact .inl (hv.mem_iff.mpr (List.mem_cons_of_mem _ hx))
  | strangerLeft _ hk => exact .inl (hk.restocks.active_perm.mem_iff.mp hx)

lemma Performed.subset {op : Operation T} (hm : Performed n op m) {x : T}
    (hx : x ∈ m.activeView) : x ∈ n.activeView ∨ op.Admits x := by
  cases hm with
  | join => exact .inl hx
  | disconnected hm => exact hm.subset hx
  | left hm => exact hm.subset hx
  | @answered msg k _ hk =>
    rw [(k.disconnectUnlessActiveViewNode_views msg.sender).1] at hx
    exact hk.subset hx
  | unshuffled => exact .inl hx
  | shuffled _ hk => exact .inl ((shuffled_restocks hk).active_perm.mem_iff.mp hx)
  | filled hm =>
    rw [hm.views.1] at hx
    exact .inl hx
  | synced =>
    rw [activeView_syncActiveView] at hx
    exact .inl hx

lemma Handled.sound {msg : ProtocolMessage T} (hm : Handled n msg m) (h : n.Sound) : m.Sound := by
  cases hm with
  | joined hk => exact (hk.sound h).sendEach _ _
  | walkEnded _ hk => exact hk.sound h
  | walkStuck _ hk hl hr => exact hr.sound (hl.restocks.sound (hk.restocks.sound h))
  | walkForwarded _ hk hl => exact (hl.restocks.sound (hk.restocks.sound h)).send _ _
  | neighborAdmitted _ hk => exact hk.sound h
  | neighborRefused => exact h
  | shuffleEnded _ hk =>
    exact hk.restocks.sound (((shufflePassive_restocks n).sound h).send _ _)
  | shuffleStuck _ hk => exact hk.restocks.sound h
  | shuffleForwarded _ hk => exact (hk.restocks.sound h).send _ _
  | shuffleReplied hk => exact hk.restocks.sound h
  | neighborLeft hv hk hq hl hr =>
    have hk := hk.keeps.sound (h.departed hv _)
    exact hr.restocks.sound (hl.sound ((keeps_unlisted hq).sound hk))
  | strangerLeft _ hk => exact hk.restocks.sound h

lemma Performed.sound {op : Operation T} (hm : Performed n op m) (h : n.Sound) : m.Sound := by
  cases hm with
  | join => exact h.send _ _
  | disconnected hm => exact hm.sound h
  | left hm => exact hm.sound h
  | answered _ hm => exact disconnectUnlessActiveViewNode_sound (hm.sound h) _
  | unshuffled => exact h
  | shuffled _ hk => exact ((shuffled_restocks hk).sound h).send _ _
  | filled hm => exact hm.sound h
  | synced => exact h.sendEach _ _

end Node

end QuicP2p.Hyparview
