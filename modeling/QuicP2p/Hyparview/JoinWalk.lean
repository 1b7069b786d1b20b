import QuicP2p.Hyparview.Sends

/-! Join walks: a `FORWARD_JOIN` goes from node to node until one of them admits the new node. -/

namespace QuicP2p.Hyparview

open Library

variable {T R : Type}

def Action.asForwardJoin : Action T → Option (T × ForwardJoinMessage T)
  | .send d (.forwardJoin f) => some (d, f)
  | _ => none

/-- A message from a member; a `FORWARD_JOIN` also goes to a member and is about one. -/
def Routed (ids : Finset T) (d : T) (msg : ProtocolMessage T) : Prop :=
  msg.sender ∈ ids ∧ ∀ f, msg = .forwardJoin f → d ∈ ids ∧ f.newNode ∈ ids

def Operation.Routed (ids : Finset T) (id : T) : Operation T → Prop
  | .handleProtocolMessage msg => Hyparview.Routed ids id msg
  | _ => True

lemma Control.routed {ids : Finset T} {id d : T} {msg : ProtocolMessage T} (hid : id ∈ ids)
    (h : Control id d msg) : Routed ids d msg := by
  cases h with
  | disconnect => exact ⟨hid, fun f hf => by cases hf⟩
  | neighbor => exact ⟨hid, fun f hf => by cases hf⟩

lemma TimeToLive.toNat_decrement {ttl : TimeToLive} (h : ttl.isExpired = false) :
    ttl.decrement.val.toNat + 1 = ttl.val.toNat := by
  have hne : ttl.val ≠ 0 := by simpa [isExpired] using h
  have hpos : 1 ≤ ttl.val.toNat := UInt8.pos_iff_ne_zero.mpr hne
  have hsub : (ttl.val - 1).toNat = ttl.val.toNat - 1 :=
    UInt8.toNat_sub_of_le _ _ (UInt8.le_iff_toNat_le.mpr hpos)
  rw [decrement, if_neg hne, hsub]
  exact Nat.sub_add_cancel hpos

namespace Node

/-- The `FORWARD_JOIN` messages that the change from `n` to `m` queued. -/
def forwards (n m : Node T R) : List (T × ForwardJoinMessage T) :=
  (m.actions.drop n.actions.length).filterMap Action.asForwardJoin

variable {n m k : Node T R} {P Q : T → ProtocolMessage T → Prop} {d : T}
  {f : ForwardJoinMessage T} {ids : Finset T}

lemma forwards_eq {acts : List (Action T)} (h : m.actions = n.actions ++ acts) :
    forwards n m = acts.filterMap Action.asForwardJoin := by rw [forwards, h, List.drop_left]

lemma forwards_trans (h : Queues P n k) (h' : Queues Q k m) :
    forwards n m = forwards n k ++ forwards k m := by
  obtain ⟨as, ha, _⟩ := h
  obtain ⟨bs, hb, _⟩ := h'
  have hm : m.actions = n.actions ++ (as ++ bs) := by rw [hb, ha, List.append_assoc]
  rw [forwards_eq hm, forwards_eq ha, forwards_eq hb, List.filterMap_append]

lemma mem_forwards {acts : List (Action T)} (h : m.actions = n.actions ++ acts) :
    (d, f) ∈ forwards n m ↔ .send d (.forwardJoin f) ∈ acts := by
  rw [forwards_eq h, List.mem_filterMap]
  constructor
  · rintro ⟨a, ha, he⟩
    cases a with
    | send d' msg =>
      cases msg with
      | forwardJoin f' =>
        cases he
        exact ha
      | _ => cases he
    | _ => cases he
  · intro ha
    exact ⟨_, ha, rfl⟩

lemma forwards_of_control {id : T} (h : Queues (Control id) n m) : forwards n m = [] := by
  obtain ⟨as, ha, has⟩ := h
  apply List.eq_nil_iff_forall_not_mem.mpr
  rintro ⟨d, f⟩ hf
  cases has d _ ((mem_forwards ha).mp hf)

/-- What the handling of a `FORWARD_JOIN` comes to. -/
inductive Relayed (n : Node T R) (f : ForwardJoinMessage T) (m : Node T R) : Prop
  | landed (hf : forwards n m = []) (hx : f.newNode ∈ m.activeView ∨ f.newNode = m.id)
  | forwarded {d : T} (ht : f.ttl.isExpired = false) (hd : d ∈ n.activeView)
      (hf : forwards n m = [(d, ⟨n.id, f.newNode, f.ttl.decrement⟩)])

/-- A member whose neighbours are members. -/
structure Housed (ids : Finset T) (n : Node T R) : Prop where
  wellFormed : n.WellFormed
  id_mem : n.id ∈ ids
  views : ∀ x ∈ n.activeView, x ∈ ids

/-- The change keeps to the members. -/
structure Keeping (ids : Finset T) (n m : Node T R) : Prop where
  views : ∀ x ∈ m.activeView, x ∈ ids
  queues : Queues (Routed ids) n m

lemma Sent.routed {op : Operation T} {view : List T} {msg : ProtocolMessage T}
    (hs : Sent n view op d msg) (h : n.Housed ids) (hview : ∀ x ∈ view, x ∈ ids)
    (hop : op.Routed ids n.id) : Routed ids d msg := by
  cases hs with
  | control hc => exact hc.routed h.id_mem
  | forwardJoin hd =>
    refine ⟨h.id_mem, fun f hf => ?_⟩
    cases hf
    exact ⟨hview d hd, hop.1⟩
  | forwardedJoin hd =>
    refine ⟨h.id_mem, fun f hf => ?_⟩
    cases hf
    exact ⟨h.views d hd, (hop.2 _ rfl).2⟩
  | _ => exact ⟨h.id_mem, fun f hf => by cases hf⟩

variable [Rng R] [DecidableEq T]

lemma Handled.relayed (hm : Handled n (.forwardJoin f) m) (h : n.Sound) : Relayed n f m := by
  cases hm with
  | walkEnded _ hk =>
    apply Relayed.landed (forwards_of_control (hk.queues h))
    exact hk.admitted.imp_right fun hx => hx.trans hk.same.1.symm
  | @walkStuck _ k l _ _ hk hl hr =>
    have hl := hk.restocks.trans hl.restocks
    have hq := (Queues.of_eq hl.actions_eq).trans (hr.queues (hl.sound h))
    apply Relayed.landed (forwards_of_control hq)
    exact hr.admitted.imp_right fun hx => hx.trans hr.same.1.symm
  | @walkForwarded _ k l d hgo hk hl =>
    have hkl := hk.restocks.trans hl.restocks
    have hd : d ∈ n.activeView := by
      cases hl with
      | found hd => exact hk.active_eq ▸ hd
    apply Relayed.forwarded (by simpa using (not_or.mp hgo).1) hd
    have hsend : (l.send d (.forwardJoin ⟨l.id, f.newNode, f.ttl.decrement⟩)).actions =
        n.actions ++ [.send d (.forwardJoin ⟨n.id, f.newNode, f.ttl.decrement⟩)] := by
      rw [← hkl.actions_eq, ← hkl.id_eq]
      rfl
    rw [forwards_eq hsend]
    rfl

lemma Performed.relayed (hm : Performed n (.handleProtocolMessage (.forwardJoin f)) m)
    (h : n.Sound) : Relayed n f m := by
  cases hm with
  | @answered _ k _ hk =>
    obtain ⟨hview, _, _, hid⟩ := k.disconnectUnlessActiveViewNode_views f.sender
    have hlast := k.disconnectUnlessActiveViewNode_queues f.sender
    have hforwards : forwards n (k.disconnectUnlessActiveViewNode f.sender) = forwards n k := by
      rw [forwards_trans (hk.queues h) hlast, forwards_of_control hlast, List.append_nil]
    cases hk.relayed h with
    | landed hf hx =>
      apply Relayed.landed (hforwards.trans hf)
      rw [hview]
      exact hx.imp_right fun hx => hx.trans hid.symm
    | forwarded ht hd hf => exact .forwarded ht hd (hforwards.trans hf)

lemma Performed.keeping {op : Operation T} (hm : Performed n op m) (h : n.Housed ids)
    (hop : op.Routed ids n.id) : Keeping ids n m := by
  have hviews : ∀ x ∈ m.activeView, x ∈ ids := by
    intro x hx
    rcases hm.subset hx with hx | hx
    · exact h.views x hx
    · cases op with
      | handleProtocolMessage msg =>
        cases msg with
        | join j => exact hx ▸ hop.1
        | forwardJoin f => exact hx ▸ (hop.2 f rfl).2
        | neighbor j => exact hx ▸ hop.1
        | _ => exact hx.elim
      | _ => exact hx.elim
  exact ⟨hviews, (hm.queues h.wellFormed.sound).mono fun _ _ hs => hs.routed h hviews hop⟩

end Node

/-- The moves of a network that loses no message and forges none. -/
def Unlost : Move T (Operation T) → Prop
  | .call _ (.handleProtocolMessage _) => False
  | .lose _ => False
  | _ => True

/-- Where a join walk is: a message to `d` is on its way, or the node `n` has admitted the new
node. -/
inductive Station (T R : Type)
  | underway (d : T) (f : ForwardJoinMessage T)
  | landed (n : Node T R)

namespace Cluster

variable {ids : Finset T} {w w' : Cluster T R} {p d : T} {n : Node T R}
  {rest : List (T × ProtocolMessage T)} {mv : Move T (Operation T)}
  {tr : List (Taken (Cluster T R) (Move T (Operation T)))} {f : ForwardJoinMessage T} {k : ℕ}
  {s : Station T R}

structure Populated (ids : Finset T) (w : Cluster T R) : Prop where
  housed : ∀ p ∈ ids, (w.node p).Housed ids
  id_eq : ∀ p ∈ ids, (w.node p).id = p
  routed : ∀ d m, Pending ids w d m → Routed ids d m

lemma fresh_populated {options : T → NodeOptions} {rng : T → R}
    (hopt : ∀ p ∈ ids, 1 ≤ (options p).maxActiveViewSize.toNat ∧
      1 ≤ (options p).maxPassiveViewSize.toNat) : Populated ids (fresh options rng) where
  housed p hp := ⟨Node.withOptions_wellFormed p (rng p) (hopt p hp).1 (hopt p hp).2, hp,
    fun x hx => by simp [fresh, Node.withOptions] at hx⟩
  id_eq p _ := rfl
  routed d m hm := by simp [Pending, fresh, Node.withOptions] at hm

variable [DecidableEq T]

lemma queued_update {acts : List (Action T)} (hn : n.actions = (w.node p).actions ++ acts)
    {m : ProtocolMessage T} (h : ∃ q ∈ ids, .send d m ∈ (w.node q).actions) :
    ∃ q ∈ ids, .send d m ∈ ((w.update p n).node q).actions := by
  obtain ⟨q, hq, hm⟩ := h
  refine ⟨q, hq, ?_⟩
  rw [Network.node_update]
  split
  next hqp =>
    rw [hn, ← hqp]
    exact List.mem_append_left _ hm
  next => exact hm

variable [Rng R]

lemma Populated.act (h : Populated ids w) (hp : p ∈ ids) (op : Operation T)
    (hop : op.Routed ids p) (hs : (w.node p).perform op = .ok n)
    (hsub : ∀ e ∈ rest, e ∈ w.flight) : Populated ids { w.update p n with flight := rest } := by
  have hid := h.id_eq p hp
  have hm := (Node.perform_yields (h.housed p hp).wellFormed op).of_ok hs
  have hw := (hm.evolves (h.housed p hp).wellFormed).1
  have hk := hm.keeping (h.housed p hp) (hid.symm ▸ hop)
  obtain ⟨acts, hacts, hrouted⟩ := hk.queues
  have hnid : n.id = p := hm.id_eq.trans hid
  refine ⟨Network.forall_update (Q := fun _ (m : Node T R) => m.Housed ids) h.housed
    ⟨hw, hnid.symm ▸ hp, hk.views⟩,
    Network.forall_update (Q := fun q (m : Node T R) => m.id = q) h.id_eq hnid, fun d m hm => ?_⟩
  rcases hm with hm | ⟨q, hq, hm⟩
  · exact h.routed d m (.inl (hsub _ hm))
  · change _ ∈ ((w.update p n).node q).actions at hm
    rw [Network.node_update] at hm
    split at hm
    next hqp =>
      rw [hacts] at hm
      rcases List.mem_append.mp hm with hm | hm
      · exact h.routed d m (.inr ⟨p, hp, hm⟩)
      · exact hrouted d m hm
    next => exact h.routed d m (.inr ⟨q, hq, hm⟩)

lemma Populated.poll (h : Populated ids w) (hp : p ∈ ids) {out : Option (T × ProtocolMessage T)}
    (hs : protocol.poll (w.node p) = .ok (out, n)) :
    Populated ids { w.update p n with flight := w.flight ++ out.toList } := by
  have hpending := fun d m => pending_poll_iff (d := d) (m := m) hp hs
  cases hs
  have hhoused := h.housed p hp
  exact ⟨Network.forall_update (Q := fun _ (m : Node T R) => m.Housed ids) h.housed
    ⟨Node.pollAction_wellFormed hhoused.wellFormed, hhoused.id_mem, hhoused.views⟩,
    Network.forall_update (Q := fun q (m : Node T R) => m.id = q) h.id_eq (h.id_eq p hp),
    fun d m hm => h.routed d m ((hpending d m).mp hm)⟩

lemma Populated.step (h : Populated ids w) (hs : Network.step protocol ids w mv = .ok w')
    (hmv : Unlost mv) : Populated ids w' := by
  cases Network.change_of_step hs with
  | idle => exact h
  | @called p op n hp hc =>
    refine h.act hp op ?_ hc fun _ he => he
    cases op with
    | handleProtocolMessage m => exact hmv.elim
    | _ => trivial
  | polled hp hc => exact h.poll hp hc
  | @delivered i d m n rest hd hf hc =>
    have hm := h.routed d m (.inl (hf.mem_iff.mpr List.mem_cons_self))
    exact h.act hd (.handleProtocolMessage m) hm hc
      fun e he => hf.mem_iff.mpr (List.mem_cons_of_mem _ he)
  | @duplicated i d m n hd hm hc =>
    exact h.act hd (.handleProtocolMessage m) (h.routed d m (.inl hm)) hc fun _ he => he
  | @discarded i d m rest hd hf =>
    refine ⟨h.housed, h.id_eq, fun d m hm => h.routed d m (hm.imp_left fun hm => ?_)⟩
    exact hf.mem_iff.mpr (List.mem_cons_of_mem _ hm)
  | lost => exact hmv.elim

lemma pending_step (h : Populated ids w) (hs : Network.step protocol ids w mv = .ok w')
    (hmv : Unlost mv) {m : ProtocolMessage T} (hm : Pending ids w d m) :
    Pending ids w' d m ∨ w.Arrival mv d m := by
  rcases hm with hm | hm
  · refine (Network.mem_flight_of_step hs ?_ hm).imp_left .inl
    rintro i rfl
    exact hmv
  · left
    have hwf := fun q hq => (h.housed q hq).wellFormed
    cases Network.change_of_step hs with
    | idle => exact .inr hm
    | called hp hc =>
      obtain ⟨_, _, he⟩ := (Node.perform_spec (hwf _ hp) _).of_ok hc
      exact .inr (queued_update he.actions_eq hm)
    | polled hp hc => exact (pending_poll_iff hp hc).mpr (.inr hm)
    | delivered hp _ hc =>
      obtain ⟨⟨_, _, he⟩, _⟩ := (Node.handleProtocolMessage_spec (hwf _ hp) _).of_ok hc
      exact .inr (queued_update he.actions_eq hm)
    | duplicated hp _ hc =>
      obtain ⟨⟨_, _, he⟩, _⟩ := (Node.handleProtocolMessage_spec (hwf _ hp) _).of_ok hc
      exact .inr (queued_update he.actions_eq hm)
    | discarded => exact .inr hm
    | lost => exact .inr hm

/-- The walk that starts with the message `f` to `d`: where it may be after the steps of a run,
and after how many deliveries. -/
inductive Walk (ids : Finset T) (d : T) (f : ForwardJoinMessage T) :
    List (Taken (Cluster T R) (Move T (Operation T))) → ℕ → Station T R → Prop
  | start : Walk ids d f [] 0 (.underway d f)
  | waited {tr e k d' f'} (h : Walk ids d f tr k (.underway d' f'))
      (hm : Pending ids e.after d' (.forwardJoin f')) :
      Walk ids d f (tr ++ [e]) k (.underway d' f')
  | forwarded {tr e k d' f' d'' f''} (h : Walk ids d f tr k (.underway d' f'))
      (hm : e.before.Arrival e.input d' (.forwardJoin f'))
      (hf : (d'', f'') ∈ Node.forwards (e.before.node d') (e.after.node d')) :
      Walk ids d f (tr ++ [e]) (k + 1) (.underway d'' f'')
  | landed {tr e k d' f'} (h : Walk ids d f tr k (.underway d' f'))
      (hm : e.before.Arrival e.input d' (.forwardJoin f'))
      (hf : Node.forwards (e.before.node d') (e.after.node d') = []) :
      Walk ids d f (tr ++ [e]) (k + 1) (.landed (e.after.node d'))
  | rested {tr e k n} (h : Walk ids d f tr k (.landed n)) :
      Walk ids d f (tr ++ [e]) k (.landed n)

/-- What is known of a walk for `x` that starts with time to live `ttl`, after `k` deliveries. -/
def Kept (ids : Finset T) (w : Cluster T R) (x : T) (ttl k : ℕ) : Station T R → Prop
  | .underway d f =>
    Pending ids w d (.forwardJoin f) ∧ f.newNode = x ∧ k + f.ttl.val.toNat = ttl
  | .landed n => k ≤ ttl + 1 ∧ (x ∈ n.activeView ∨ x = n.id)

lemma Populated.relayed (h : Populated ids w) (hs : Network.step protocol ids w mv = .ok w')
    (hd : d ∈ ids) (hm : w.Arrival mv d (.forwardJoin f)) :
    (w.node d).Relayed f (w'.node d) ∧
      ∃ acts, (w'.node d).actions = (w.node d).actions ++ acts := by
  have hw := (h.housed d hd).wellFormed
  have hm := (Node.perform_yields hw (.handleProtocolMessage (.forwardJoin f))).of_ok
    (hm.receive hd hs)
  obtain ⟨_, _, he⟩ := hm.evolves hw
  exact ⟨hm.relayed hw.sound, _, he.actions_eq⟩

lemma Walk.kept {w₁ : Cluster T R} (hw : Populated ids w₁)
    (hstart : Pending ids w₁ d (.forwardJoin f)) (h : Walk ids d f tr k s)
    (hrun : Run (Network.step protocol ids) w₁ tr w) (hmoves : ∀ e ∈ tr, Unlost e.input) :
    Kept ids w f.newNode f.ttl.val.toNat k s := by
  have hpop : ∀ {tr w}, Run (Network.step protocol ids) w₁ tr w → (∀ e ∈ tr, Unlost e.input) →
      Populated ids w := fun hrun hc => hrun.invariant_of (C := fun e => Unlost e.input)
    (fun _ _ _ hf hs hc => hf.step hs hc) hw hc
  induction h generalizing w with
  | start =>
    obtain rfl := hrun.eq_of_nil
    exact ⟨hstart, rfl, Nat.zero_add _⟩
  | waited _ hm ih =>
    obtain ⟨hpre, _, rfl⟩ := hrun.unsnoc
    obtain ⟨_, hx, hk⟩ := ih hpre fun e he => hmoves e (List.mem_append_left _ he)
    exact ⟨hm, hx, hk⟩
  | @forwarded tr e k d' f' d'' f'' _ hm hf ih =>
    obtain ⟨hpre, hs, rfl⟩ := hrun.unsnoc
    have hmoves' := fun e he => hmoves e (List.mem_append_left _ he)
    obtain ⟨hpending, hx, hk⟩ := ih hpre hmoves'
    have hbefore := hpop hpre hmoves'
    obtain ⟨hd, _⟩ := (hbefore.routed _ _ hpending).2 _ rfl
    obtain ⟨hr, acts, hacts⟩ := hbefore.relayed hs hd hm
    cases hr with
    | landed hnone _ =>
      rw [hnone] at hf
      cases hf
    | @forwarded d ht _ hone =>
      have hmem := hf
      rw [hone] at hf
      cases List.mem_singleton.mp hf
      have hsent := (Node.mem_forwards hacts).mp hmem
      refine ⟨.inr ⟨d', hd, hacts ▸ List.mem_append_right _ hsent⟩, hx, ?_⟩
      have hdec := TimeToLive.toNat_decrement ht
      dsimp only at hdec ⊢
      omega
  | @landed tr e k d' f' _ hm hf ih =>
    obtain ⟨hpre, hs, rfl⟩ := hrun.unsnoc
    have hmoves' := fun e he => hmoves e (List.mem_append_left _ he)
    obtain ⟨hpending, hx, hk⟩ := ih hpre hmoves'
    have hbefore := hpop hpre hmoves'
    obtain ⟨hd, _⟩ := (hbefore.routed _ _ hpending).2 _ rfl
    obtain ⟨hr, _⟩ := hbefore.relayed hs hd hm
    cases hr with
    | landed _ hland => exact ⟨by omega, hx ▸ hland⟩
    | forwarded _ _ hone =>
      rw [hone] at hf
      cases hf
  | rested _ ih =>
    obtain ⟨hpre, _, rfl⟩ := hrun.unsnoc
    have hk := ih hpre fun e he => hmoves e (List.mem_append_left _ he)
    exact hk

lemma Walk.exists {w₁ : Cluster T R} (hw : Populated ids w₁)
    (hstart : Pending ids w₁ d (.forwardJoin f))
    (hrun : Run (Network.step protocol ids) w₁ tr w) (hmoves : ∀ e ∈ tr, Unlost e.input) :
    ∃ k s, Walk ids d f tr k s := by
  induction hrun with
  | start => exact ⟨0, _, .start⟩
  | @next tr t u i hrun hs ih =>
    have hmoves' := fun e he => hmoves e (List.mem_append_left _ he)
    obtain ⟨k, s, hwalk⟩ := ih hmoves'
    cases s with
    | landed n => exact ⟨k, _, .rested hwalk⟩
    | underway d' f' =>
      obtain ⟨hpending, _, _⟩ := hwalk.kept hw hstart hrun hmoves'
      have hbefore : Populated ids t := hrun.invariant_of (C := fun e => Unlost e.input)
        (fun _ _ _ hf hs hc => hf.step hs hc) hw hmoves'
      rcases pending_step hbefore hs (hmoves ⟨t, i, u⟩ (by simp)) hpending with hm | hm
      · exact ⟨k, _, .waited hwalk hm⟩
      · cases hf : Node.forwards (t.node d') (u.node d') with
        | nil => exact ⟨k + 1, _, .landed hwalk hm hf⟩
        | cons g gs =>
          have hg : (g.1, g.2) ∈ Node.forwards (t.node d') (u.node d') := by
            rw [hf]
            exact List.mem_cons_self
          exact ⟨k + 1, _, .forwarded hwalk hm hg⟩

lemma Populated.join (h : Populated ids w) (hs : Network.step protocol ids w mv = .ok w')
    (hp : p ∈ ids) {x : T} (hm : w.Arrival mv p (.join ⟨x⟩))
    (hf : (d, f) ∈ Node.forwards (w.node p) (w'.node p)) :
    Pending ids w' d (.forwardJoin f) ∧
      f = ⟨p, x, .new (w.node p).options.activeRandomWalkLen⟩ := by
  have hw := (h.housed p hp).wellFormed
  have hm := (Node.perform_yields hw (.handleProtocolMessage (.join ⟨x⟩))).of_ok (hm.receive hp hs)
  obtain ⟨as, has, hsent⟩ := hm.queues hw.sound
  have hmem := (Node.mem_forwards has).mp hf
  refine ⟨.inr ⟨p, hp, has ▸ List.mem_append_right _ hmem⟩, ?_⟩
  cases hsent _ _ hmem with
  | control hc => cases hc
  | forwardJoin => rw [h.id_eq p hp]

/-- Every `FORWARD_JOIN` that the handling of a `JOIN` queues is followed, over at most one
delivery more than its time to live, to a node that admits the new node. -/
theorem join_walk_lands {options : T → NodeOptions} {rng : T → R} {w₀ w₁ : Cluster T R}
    {tr₀ : List (Taken (Cluster T R) (Move T (Operation T)))} {x : T}
    (hopt : ∀ p ∈ ids, 1 ≤ (options p).maxActiveViewSize.toNat ∧
      1 ≤ (options p).maxPassiveViewSize.toNat)
    (h₀ : Run (Network.step protocol ids) (fresh options rng) tr₀ w₀)
    (hmoves₀ : ∀ e ∈ tr₀, Unlost e.input) (hp : p ∈ ids) (hjoin : w₀.Arrival mv p (.join ⟨x⟩))
    (hs : Network.step protocol ids w₀ mv = .ok w₁)
    (hf : (d, f) ∈ Node.forwards (w₀.node p) (w₁.node p))
    (hrun : Run (Network.step protocol ids) w₁ tr w) (hmoves : ∀ e ∈ tr, Unlost e.input) :
    f.newNode = x ∧ f.ttl.asU8 = (w₀.node p).options.activeRandomWalkLen ∧
      (∃ k s, Walk ids d f tr k s) ∧
      (∀ k s, Walk ids d f tr k s → k ≤ f.ttl.asU8.toNat + 1 ∧
        Kept ids w x f.ttl.asU8.toNat k s) ∧
      ∀ e ∈ tr, ∀ d' ∈ ids, ∀ f', e.before.Arrival e.input d' (.forwardJoin f') →
        (Node.forwards (e.before.node d') (e.after.node d')).length ≤ 1 ∧
          ∀ g ∈ Node.forwards (e.before.node d') (e.after.node d'), g.2.newNode = f'.newNode := by
  have hw₀ : Populated ids w₀ := h₀.invariant_of (C := fun e => Unlost e.input)
    (fun _ _ _ hf hs hc => hf.step hs hc) (fresh_populated hopt) hmoves₀
  have hmv : Unlost mv := by
    obtain ⟨i, rfl | rfl, _⟩ := hjoin
    · trivial
    · trivial
  have hw₁ := hw₀.step hs hmv
  obtain ⟨hstart, rfl⟩ := hw₀.join hs hp hjoin hf
  refine ⟨rfl, rfl, Walk.exists hw₁ hstart hrun hmoves, fun k s hwalk => ?_, ?_⟩
  · have hk := hwalk.kept hw₁ hstart hrun hmoves
    refine ⟨?_, hk⟩
    cases s with
    | underway => exact Nat.le_succ_of_le (Nat.le.intro hk.2.2)
    | landed => exact hk.1
  · intro e he d' hd' f' hm
    obtain ⟨tr', hbefore, hs', hsub⟩ := hrun.to_before he
    have hpop : Populated ids e.before := hbefore.invariant_of (C := fun e => Unlost e.input)
      (fun _ _ _ hf hs hc => hf.step hs hc) hw₁ fun e he => hmoves e (hsub he)
    cases (hpop.relayed hs' hd' hm).1 with
    | landed hnone _ => simp [hnone]
    | forwarded _ _ hone => simp [hone]

/-- Node 1 has joined the cluster of node 0, and the `JOIN` of node 2 is on its way. -/
def rejoining : Cluster ℕ Playback :=
  reached (Network.step protocol {0, 1, 2}) (fresh (fun _ => {}) (fun _ => ⟨[]⟩))
    (joining ++ [.call 2 (.join 0), .poll 2])

/-- Node 0 asks node 1 to admit node 2, which it does: it has no other neighbour. -/
theorem join_walk_lands_rejoining :
    ∃ (w₁ : Cluster ℕ Playback) (tr : List (Taken (Cluster ℕ Playback) (Move ℕ (Operation ℕ))))
      (w : Cluster ℕ Playback),
      Network.step protocol {0, 1, 2} rejoining (.deliver 0) = .ok w₁ ∧
        Run (Network.step protocol {0, 1, 2}) w₁ tr w ∧ 2 ∈ (w.node 1).activeView ∧
        ∃ k s, Walk {0, 1, 2} 1 ⟨0, 2, ⟨5⟩⟩ tr k s ∧ k ≤ 6 := by
  have h₀ : follow (Network.step protocol {0, 1, 2})
      (fresh (fun _ => {}) (fun _ => (⟨[]⟩ : Playback)))
      (joining ++ [.call 2 (.join 0), .poll 2]) = .ok (_, rejoining) := rfl
  have hs : Network.step protocol {0, 1, 2} rejoining (.deliver 0) = .ok _ := rfl
  have hrun : follow (Network.step protocol {0, 1, 2}) (reached (Network.step protocol {0, 1, 2})
      rejoining [.deliver 0]) [.poll 0, .poll 0, .poll 0, .deliver 1] = .ok _ := rfl
  obtain ⟨_, _, ⟨k, s, hwalk⟩, hall, _⟩ := join_walk_lands (fun _ _ => by decide)
    (Run.of_follow _ h₀) (Run.inputs_of_follow _ h₀ (by simp [joining, Unlost])) (p := 0)
    (d := 1) (f := ⟨0, 2, ⟨5⟩⟩) (by decide) ⟨0, .inl rfl, rfl⟩ hs (by decide)
    (Run.of_follow _ hrun) (Run.inputs_of_follow _ hrun (by simp [Unlost]))
  exact ⟨_, _, _, hs, Run.of_follow _ hrun, by decide, k, s, hwalk, (hall k s hwalk).1⟩

end Cluster

end QuicP2p.Hyparview
