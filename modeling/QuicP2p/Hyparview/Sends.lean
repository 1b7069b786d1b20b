import QuicP2p.Hyparview.Symmetry

/-! What each operation sends, and to whom: no node talks to itself. -/

namespace QuicP2p.Hyparview

open Library

variable {T R : Type}

/-- The messages by which a node keeps its active view. -/
inductive Control (id : T) : T → ProtocolMessage T → Prop
  | disconnect {d : T} {alive : Bool} (h : d ≠ id) : Control id d (.disconnect ⟨id, alive⟩)
  | neighbor {d : T} {highPriority : Bool} (h : d ≠ id) :
      Control id d (.neighbor ⟨id, highPriority⟩)

/-- A message that does not go to its own sender, nor a `SHUFFLE` to the node where it began. -/
def Outward (id d : T) (msg : ProtocolMessage T) : Prop :=
  d ≠ id ∧ ∀ s, msg = .shuffle s → s.origin ≠ d

lemma Outward.of_control {id d : T} {msg : ProtocolMessage T} (h : Control id d msg) :
    Outward id d msg := by
  cases h with
  | disconnect h => exact ⟨h, fun s hs => by cases hs⟩
  | neighbor h => exact ⟨h, fun s hs => by cases hs⟩

/-- A call that names another node, or the handling of a message that did not come back to the node
where it began. -/
def Operation.Outward (id : T) : Operation T → Prop
  | .join contactNodeId => contactNodeId ≠ id
  | .handleProtocolMessage (.shuffle m) => m.origin ≠ id
  | _ => True

namespace Node

/-- The messages that the change from `n` to `m` queued satisfy `P`. -/
def Queues (P : T → ProtocolMessage T → Prop) (n m : Node T R) : Prop :=
  ∃ acts, m.actions = n.actions ++ acts ∧ ∀ d msg, .send d msg ∈ acts → P d msg

namespace Queues

variable {P Q : T → ProtocolMessage T → Prop} {n m k : Node T R}

lemma of_eq (h : m.actions = n.actions) : Queues P n m := ⟨[], by simp [h], by simp⟩

lemma trans (h : Queues P n m) (h' : Queues P m k) : Queues P n k := by
  obtain ⟨as, ha, has⟩ := h
  obtain ⟨bs, hb, hbs⟩ := h'
  refine ⟨as ++ bs, by rw [hb, ha, List.append_assoc], fun d msg hm => ?_⟩
  rcases List.mem_append.mp hm with hm | hm
  · exact has d msg hm
  · exact hbs d msg hm

lemma mono (h : Queues P n m) (hpq : ∀ d msg, P d msg → Q d msg) : Queues Q n m := by
  obtain ⟨as, ha, has⟩ := h
  exact ⟨as, ha, fun d msg hm => hpq d msg (has d msg hm)⟩

lemma send (n : Node T R) {d : T} {msg : ProtocolMessage T} (h : P d msg) :
    Queues P n (n.send d msg) := by
  refine ⟨[.send d msg], rfl, fun d' msg' hm => ?_⟩
  cases List.mem_singleton.mp hm
  exact h

lemma pushBack (n : Node T R) {a : Action T} (h : ∀ d msg, a = .send d msg → P d msg) :
    Queues P n (n.pushBack a) :=
  ⟨[a], rfl, fun d msg hm => h d msg (List.mem_singleton.mp hm).symm⟩

lemma sendEach (n : Node T R) {ds : List T} {msg : ProtocolMessage T} (h : ∀ d ∈ ds, P d msg) :
    Queues P n (n.sendEach ds msg) := by
  refine ⟨ds.map (.send · msg), by rw [sendEach_eq], fun d msg' hm => ?_⟩
  obtain ⟨d', hd, he⟩ := List.mem_map.mp hm
  cases he
  exact h d hd

end Queues

variable {n m k : Node T R} {x d : T} {msg : ProtocolMessage T}

lemma ne_id_of_mem (h : n.Sound) (hx : x ∈ n.activeView) : x ≠ n.id :=
  fun he => h.id_active (he ▸ hx)

lemma queues_departed (h : n.Sound) (hx : x ∈ n.activeView) (v : List T) (alive : Bool) :
    Queues (Control n.id) n (n.departed v x alive) := by
  refine ⟨departure n.id x alive, rfl, fun d msg hm => ?_⟩
  cases alive with
  | false => simp [departure] at hm
  | true =>
    obtain ⟨rfl, rfl⟩ : d = x ∧ msg = .disconnect ⟨n.id, true⟩ := by simpa [departure] using hm
    exact .disconnect (ne_id_of_mem h hx)

lemma queues_joined (n : Node T R) (hx : x ≠ n.id) (p : List T) (highPriority : Bool) :
    Queues (Control n.id) n (n.joined p x highPriority) := by
  refine ⟨arrival n.id x highPriority, rfl, fun d msg hm => ?_⟩
  obtain ⟨rfl, rfl⟩ : d = x ∧ msg = .neighbor ⟨n.id, highPriority⟩ := by
    simpa [arrival] using hm
  exact .neighbor hx

/-- The messages that an operation on `n` sends, which leaves it with the active view `view`. -/
inductive Sent (n : Node T R) (view : List T) : Operation T → T → ProtocolMessage T → Prop
  | control {op : Operation T} {d : T} {msg : ProtocolMessage T} (h : Control n.id d msg) :
      Sent n view op d msg
  | join {c : T} : Sent n view (.join c) c (.join ⟨n.id⟩)
  | forwardJoin {m : JoinMessage T} {d : T} (hd : d ∈ view) :
      Sent n view (.handleProtocolMessage (.join m)) d
        (.forwardJoin ⟨n.id, m.sender, .new n.options.activeRandomWalkLen⟩)
  | forwardedJoin {m : ForwardJoinMessage T} {d : T} (hd : d ∈ n.activeView) :
      Sent n view (.handleProtocolMessage (.forwardJoin m)) d
        (.forwardJoin ⟨n.id, m.newNode, m.ttl.decrement⟩)
  | shuffleReply {m : ShuffleMessage T} {nodes : List T} :
      Sent n view (.handleProtocolMessage (.shuffle m)) m.origin (.shuffleReply ⟨n.id, nodes⟩)
  | forwardedShuffle {m : ShuffleMessage T} {d : T} (hd : d ∈ n.activeView) (ho : d ≠ m.origin) :
      Sent n view (.handleProtocolMessage (.shuffle m)) d
        (.shuffle ⟨n.id, m.origin, m.nodes, m.ttl.decrement⟩)
  | shuffle {d : T} {nodes : List T} {ttl : TimeToLive} (hd : d ∈ n.activeView) :
      Sent n view .shufflePassiveView d (.shuffle ⟨n.id, n.id, nodes, ttl⟩)

lemma Filled.queues (hf : Filled n m) (h : n.Sound) : Queues (Control n.id) n m := by
  cases hf with
  | idle => exact .of_eq rfl
  | @asked x g _ hx =>
    refine ⟨_, rfl, fun d msg hm => ?_⟩
    cases List.mem_singleton.mp hm
    exact .neighbor fun he => h.id_passive (he ▸ hx)

lemma disconnectUnlessActiveViewNode_queues [DecidableEq T] (n : Node T R) (x : T) :
    Queues (Control n.id) n (n.disconnectUnlessActiveViewNode x) := by
  unfold disconnectUnlessActiveViewNode
  split
  next hx =>
    exact (Queues.send n (.disconnect hx.2.symm)).trans (.pushBack _ fun d msg he => by cases he)
  next => exact .of_eq rfl

lemma Sent.outward {op : Operation T} {view : List T} (hs : Sent n view op d msg) (h : n.Sound)
    (hview : n.id ∉ view) (hop : op.Outward n.id) : Outward n.id d msg := by
  cases hs with
  | control hc => exact .of_control hc
  | join => exact ⟨hop, fun s hs => by cases hs⟩
  | forwardJoin hd => exact ⟨fun he => hview (he ▸ hd), fun s hs => by cases hs⟩
  | forwardedJoin hd => exact ⟨ne_id_of_mem h hd, fun s hs => by cases hs⟩
  | shuffleReply => exact ⟨hop, fun s hs => by cases hs⟩
  | forwardedShuffle hd ho =>
    refine ⟨ne_id_of_mem h hd, fun s hs => ?_⟩
    cases hs
    exact ho.symm
  | shuffle hd =>
    refine ⟨ne_id_of_mem h hd, fun s hs => ?_⟩
    cases hs
    exact (ne_id_of_mem h hd).symm

variable [Rng R]

lemma Vacated.queues (hk : Vacated n k) (h : n.Sound) : Queues (Control n.id) n k := by
  cases hk with
  | room => exact .of_eq rfl
  | @evicted x v _ _ hv hm =>
    have hleft := queues_departed h (hv.mem_iff.mpr List.mem_cons_self) v true
    exact hleft.trans (.of_eq hm.keeps.actions_eq)

variable [DecidableEq T]

lemma Admitted.queues {highPriority : Bool} (hm : Admitted n x highPriority m) (h : n.Sound) :
    Queues (Control n.id) n m := by
  cases hm with
  | known => exact .of_eq rfl
  | @joined k p hx hk _ =>
    have hjoined := k.queues_joined (hk.stranger hx).2 p highPriority
    rw [hk.same.1] at hjoined
    exact (hk.queues h).trans hjoined

lemma Handled.dismissal_queues {d : DisconnectMessage T} (hm : Handled n (.disconnect d) m)
    (h : n.Sound) : Queues (Control n.id) n m := by
  cases hm with
  | @neighborLeft _ v q k l _ hv hk hq hl hr =>
    have hleft := queues_departed h (hv.mem_iff.mpr List.mem_cons_self) v d.alive
    have hk' := hk.keeps.trans (keeps_unlisted hq)
    have hfilled := hl.queues (hk'.sound (h.drop_active hv _))
    rw [hk'.id_eq] at hfilled
    exact ((hleft.trans (.of_eq hk'.actions_eq)).trans hfilled).trans
      (.of_eq hr.restocks.actions_eq)
  | strangerLeft _ hk => exact .of_eq hk.restocks.actions_eq

lemma Handled.queues (hm : Handled n msg m) (h : n.Sound) :
    Queues (Sent n m.activeView (.handleProtocolMessage msg)) n m := by
  cases hm with
  | @joined j k hk =>
    rw [sendEach_eq]
    have heach : ∀ d ∈ k.activeView.filter (fun x => x ≠ j.sender),
        Sent n k.activeView (.handleProtocolMessage (.join j)) d
          (.forwardJoin ⟨k.id, j.sender, .new k.options.activeRandomWalkLen⟩) := by
      intro d hd
      rw [hk.same.1, hk.same.2]
      exact .forwardJoin (List.mem_of_mem_filter hd)
    have hsent := Queues.sendEach k heach
    rw [sendEach_eq] at hsent
    exact ((hk.queues h).mono fun _ _ => .control).trans hsent
  | walkEnded _ hk => exact (hk.queues h).mono fun _ _ => .control
  | walkStuck _ hk hl hr =>
    have hl := hk.restocks.trans hl.restocks
    have hlanded := hr.queues (hl.sound h)
    rw [hl.id_eq] at hlanded
    exact (Queues.of_eq hl.actions_eq).trans (hlanded.mono fun _ _ => .control)
  | @walkForwarded f k l d _ hk hl =>
    have hkl := hk.restocks.trans hl.restocks
    refine (Queues.of_eq hkl.actions_eq).trans (.send l ?_)
    rw [hkl.id_eq]
    cases hl with
    | found hd => exact .forwardedJoin (hk.active_eq ▸ hd)
  | neighborAdmitted _ hk => exact (hk.queues h).mono fun _ _ => .control
  | neighborRefused => exact .of_eq rfl
  | shuffleEnded _ hk =>
    exact (Queues.send n.shufflePassive .shuffleReply).trans (.of_eq hk.restocks.actions_eq)
  | shuffleStuck _ hk => exact .of_eq hk.restocks.actions_eq
  | @shuffleForwarded s k d _ hk =>
    refine (Queues.of_eq hk.restocks.actions_eq).trans (.send k ?_)
    rw [hk.restocks.id_eq]
    cases hk with
    | found hd hno =>
      exact .forwardedShuffle hd fun he => hno (he ▸ List.mem_cons_self)
  | shuffleReplied hk => exact .of_eq hk.restocks.actions_eq
  | neighborLeft hv hk hq hl hr =>
    exact ((Handled.neighborLeft hv hk hq hl hr).dismissal_queues h).mono fun _ _ => .control
  | strangerLeft hd hk =>
    exact ((Handled.strangerLeft hd hk).dismissal_queues h).mono fun _ _ => .control

lemma Performed.queues {op : Operation T} (hm : Performed n op m) (h : n.Sound) :
    Queues (Sent n m.activeView op) n m := by
  cases hm with
  | join => exact .send n .join
  | disconnected hm => exact (hm.dismissal_queues h).mono fun _ _ => .control
  | left hm => exact hm.queues h
  | @answered msg k _ hk =>
    have hlast := k.disconnectUnlessActiveViewNode_queues msg.sender
    rw [hk.same.1] at hlast
    rw [(k.disconnectUnlessActiveViewNode_views msg.sender).1]
    exact (hk.queues h).trans (hlast.mono fun _ _ => .control)
  | unshuffled => exact .of_eq rfl
  | @shuffled x g k hx hk =>
    have hr := shuffled_restocks hk
    refine (Queues.of_eq hr.actions_eq).trans (.send k ?_)
    rw [hr.id_eq]
    exact .shuffle hx
  | filled hm => exact (hm.queues h).mono fun _ _ => .control
  | synced => exact .sendEach n fun d hd => .control (.neighbor (ne_id_of_mem h hd))

lemma Performed.outward {op : Operation T} (hm : Performed n op m) (h : n.Sound)
    (hop : op.Outward n.id) : Queues (Outward n.id) n m :=
  (hm.queues h).mono fun _ _ hs => hs.outward h (hm.id_eq ▸ (hm.sound h).id_active) hop

end Node

/-- The moves of a network whose nodes ask no node to join itself, and forge no message. -/
def Genuine : Move T (Operation T) → Prop
  | .call p (.join contactNodeId) => contactNodeId ≠ p
  | .call _ (.handleProtocolMessage _) => False
  | _ => True

namespace Cluster

variable {ids : Finset T} {w w' : Cluster T R} {p : T} {n : Node T R}
  {rest : List (T × ProtocolMessage T)} {mv : Move T (Operation T)}

/-- No message on its way goes to the node it comes from, nor a `SHUFFLE` to where it began. -/
structure Foreign (ids : Finset T) (w : Cluster T R) : Prop where
  sound : ∀ p ∈ ids, (w.node p).Sound
  id_eq : ∀ p ∈ ids, (w.node p).id = p
  queued : ∀ p ∈ ids, ∀ d m, .send d m ∈ (w.node p).actions → Outward p d m
  flying : ∀ d s, (d, .shuffle s) ∈ w.flight → s.origin ≠ d

lemma fresh_foreign (ids : Finset T) (options : T → NodeOptions) (rng : T → R) :
    Foreign ids (fresh options rng) where
  sound p _ := Node.Sound.withOptions p (rng p) (options p)
  id_eq p _ := rfl
  queued p _ d m hm := by simp [fresh, Node.withOptions] at hm
  flying d s hs := by simp [fresh] at hs

variable [Rng R] [DecidableEq T]

lemma Foreign.act (h : Foreign ids w) (hp : p ∈ ids) {op : Operation T} (hop : op.Outward p)
    (hs : (w.node p).perform op = .ok n) (hsub : ∀ e ∈ rest, e ∈ w.flight) :
    Foreign ids { w.update p n with flight := rest } := by
  have hw := h.sound p hp
  have hid := h.id_eq p hp
  have hm := (Node.perform_performed hw op).of_ok hs
  obtain ⟨acts, hacts, hout⟩ := hm.outward hw (hid.symm ▸ hop)
  have hqueued : ∀ d m, .send d m ∈ n.actions → Outward p d m := by
    intro d m hm
    rw [hacts] at hm
    rcases List.mem_append.mp hm with hm | hm
    · exact h.queued p hp d m hm
    · exact hid ▸ hout d m hm
  exact ⟨Network.forall_update h.sound (hm.sound hw),
    Network.forall_update (Q := fun q (m : Node T R) => m.id = q) h.id_eq (hm.id_eq.trans hid),
    Network.forall_update
      (Q := fun q (m : Node T R) => ∀ d msg, .send d msg ∈ m.actions → Outward q d msg)
      h.queued hqueued, fun d s hs => h.flying d s (hsub _ hs)⟩

lemma Foreign.poll (h : Foreign ids w) (hp : p ∈ ids) {out : Option (T × ProtocolMessage T)}
    (hs : protocol.poll (w.node p) = .ok (out, n)) :
    Foreign ids { w.update p n with flight := w.flight ++ out.toList } := by
  cases hs
  have hsound : (w.node p).pollAction.2.Sound :=
    (h.sound p hp).congr rfl (.refl _) (.refl _)
  refine ⟨Network.forall_update h.sound hsound,
    Network.forall_update (Q := fun q (m : Node T R) => m.id = q) h.id_eq (h.id_eq p hp),
    Network.forall_update
      (Q := fun q (m : Node T R) => ∀ d msg, .send d msg ∈ m.actions → Outward q d msg)
      h.queued fun d m hm => h.queued p hp d m (List.mem_of_mem_tail hm), fun d s hs => ?_⟩
  rcases List.mem_append.mp hs with hs | hs
  · exact h.flying d s hs
  · obtain ⟨a, ha, hout⟩ := Option.bind_eq_some_iff.mp (Option.mem_toList.mp hs)
    cases a with
    | send d' m =>
      cases hout
      exact (h.queued p hp d _ (List.mem_of_mem_head? ha)).2 s rfl
    | _ => cases hout

lemma Foreign.step (h : Foreign ids w) (hs : Network.step protocol ids w mv = .ok w')
    (hmv : Genuine mv) : Foreign ids w' := by
  have hreceive : ∀ d m, (d, m) ∈ w.flight → Operation.Outward d (.handleProtocolMessage m) := by
    intro d m hm
    cases m with
    | shuffle s => exact h.flying d s hm
    | _ => trivial
  cases Network.change_of_step hs with
  | idle => exact h
  | @called p op n hp hc =>
    refine h.act hp ?_ hc fun _ he => he
    cases op with
    | join c => exact hmv
    | handleProtocolMessage m => exact hmv.elim
    | _ => trivial
  | polled hp hc => exact h.poll hp hc
  | @delivered i d m n rest hd hf hc =>
    exact h.act hd (hreceive d m (hf.mem_iff.mpr List.mem_cons_self)) hc
      fun e he => hf.mem_iff.mpr (List.mem_cons_of_mem _ he)
  | @duplicated i d m n hd hm hc => exact h.act hd (hreceive d m hm) hc fun _ he => he
  | @discarded i d m rest hd hf =>
    exact ⟨h.sound, h.id_eq, h.queued,
      fun d s hs => h.flying d s (hf.mem_iff.mpr (List.mem_cons_of_mem _ hs))⟩
  | lost hf => exact ⟨h.sound, h.id_eq, h.queued, fun d s hs => h.flying d s (hf.mem hs)⟩

/-- No member ever queues a message to itself; no `SHUFFLE` goes to the node where it began, so no
node replies to its own. -/
theorem no_self_talk {options : T → NodeOptions} {rng : T → R}
    {tr : List (Taken (Cluster T R) (Move T (Operation T)))}
    (h : Run (Network.step protocol ids) (fresh options rng) tr w)
    (hmoves : ∀ e ∈ tr, Genuine e.input) :
    (∀ p ∈ ids, ∀ m, .send p m ∉ (w.node p).actions) ∧
      (∀ p ∈ ids, ∀ d s, .send d (.shuffle s) ∈ (w.node p).actions → s.origin ≠ d) ∧
      ∀ d s, (d, .shuffle s) ∈ w.flight → s.origin ≠ d := by
  have hw : Foreign ids w := h.invariant_of (C := fun e => Genuine e.input)
    (fun _ _ _ hf hs hc => hf.step hs hc) (fresh_foreign ids options rng) hmoves
  exact ⟨fun p hp m hm => (hw.queued p hp p m hm).1 rfl,
    fun p hp d s hs => (hw.queued p hp d _ hs).2 s rfl, hw.flying⟩

/-- Node 1 has joined the cluster of node 0 and shuffles its passive view. -/
theorem no_self_talk_shuffling :
    ∃ (tr : List (Taken (Cluster ℕ Playback) (Move ℕ (Operation ℕ)))) (w : Cluster ℕ Playback),
      Run (Network.step protocol {0, 1}) (fresh (fun _ => {}) (fun _ => ⟨[]⟩)) tr w ∧
        w.flight = [(0, .shuffle ⟨1, 1, [0, 1], ⟨5⟩⟩)] ∧
        ∀ d s, (d, .shuffle s) ∈ w.flight → s.origin ≠ d := by
  have hrun : follow (Network.step protocol {0, 1})
      (fresh (fun _ => {}) (fun _ => (⟨[]⟩ : Playback)))
      (joining ++ [.call 1 .shufflePassiveView, .poll 1]) = .ok _ := rfl
  refine ⟨_, _, Run.of_follow _ hrun, by decide,
    (no_self_talk (Run.of_follow _ hrun)
      (Run.inputs_of_follow _ hrun ?_)).2.2⟩
  simp [joining, Genuine]

end Cluster

end QuicP2p.Hyparview
