import QuicP2p.P2p.Cluster
import QuicP2p.Plumtree.Integrity

/-! Two nodes with a link between them come to hold the same messages, unless one of them discards
an announcement of the other because it does not know it yet. -/

namespace QuicP2p.P2p.Cluster

open Library

variable {K A M R : Type} [DecidableEq K] [DecidableEq A] [Rng R]

variable {ids : Finset (NodeId K A)} {w w' : Cluster K A M R} {p q d u v : NodeId K A}
  {mv : Move (NodeId K A) (Input K A M)} {m : P2pNodeProtocolMessage K A M}
  {c : Input K A M} {t : Session K A M R} {ha hd : List (HyparviewAction K A)}
  {pa pd : List (PlumtreeAction K A M)} {calls : List (ServerCall K A M)}
  {input : Option (PlumtreeMessage K A M)} {k : PlumtreeNode K A M} {i : MessageId K A} {x : M}

/-- Copies of a message are the same wherever they are, and come from a node that holds it. A node
has used none of the identifiers that it will give. -/
structure Sound (ids : Finset (NodeId K A)) (w : Cluster K A M R) : Prop where
  agreeing : ∀ p ∈ ids, (w.node p).Agreeing
  id_eq : ∀ p ∈ ids, (w.node p).node.id = p
  gossiped : ∀ d ∈ ids, ∀ g, OnWay ids w d (.plumtree (.gossip g)) →
    g.sender ∈ ids ∧ (w.plumtree g.sender).messages.get g.message.id = some g.message.payload
  announced : ∀ d ∈ ids, ∀ h, OnWay ids w d (.plumtree (.ihave h)) →
    h.sender ∈ ids ∧ (w.plumtree h.sender).Holds h.messageId
  numbered : ∀ p ∈ ids, ∀ i, (w.plumtree p).Holds i ∨ (w.plumtree p).missings.Recorded i →
    i.node ∈ ids → i.seqno < (w.node i.node).node.messageSeqno
  same : ∀ p ∈ ids, ∀ q ∈ ids, ∀ i x y, (w.plumtree p).messages.get i = some x →
    (w.plumtree q).messages.get i = some y → x = y

section turn

omit [Rng R] in
lemma OnWay.turn (h : (w.node p).Turn c t ha hd pa pd calls input k) (ho : OnWay ids w d m) :
    OnWay ids (w.update p t) d m ∨ d = p ∧ (w.node p).taken c = some m := by
  rcases ho with ho | ⟨q, hq, ho⟩ | ho
  · exact .inl (.inl ho)
  · refine .inl (.inr (.inl ⟨q, hq, ?_⟩))
    by_cases hqp : q = p
    · subst hqp
      rw [Network.node_update_self]
      exact h.mem_outbox.mpr (.inl ho)
    · rwa [Network.node_update_of_ne w hqp]
  · by_cases hdp : d = p
    · subst hdp
      refine (h.received m ho).imp (fun ho => .inr (.inr ?_)) fun ho => ⟨rfl, ho⟩
      rwa [Network.node_update_self]
    · refine .inl (.inr (.inr ?_))
      rwa [Network.node_update_of_ne w hdp]

omit [Rng R] in
lemma onWay_of_outbox (hp : p ∈ ids) (h : (d, m) ∈ t.outbox) : OnWay ids (w.update p t) d m := by
  refine .inr (.inl ⟨p, hp, ?_⟩)
  rwa [Network.node_update_self]

omit [Rng R] in
lemma OnWay.of_turn {m : PlumtreeMessage K A M}
    (h : (w.node p).Turn c t ha hd pa pd calls input k)
    (hc : ∀ m, c = .arrive m → ∃ x, m = P2PNode.lost x)
    (ho : OnWay ids (w.update p t) d (.plumtree m)) :
    OnWay ids w d (.plumtree m) ∨ .send d m ∈ pa := by
  rcases ho with ho | ⟨q, hq, ho⟩ | ho
  · exact .inl (.inl ho)
  · by_cases hqp : q = p
    · subst hqp
      rw [Network.node_update_self] at ho
      exact (h.act_of_outbox ho).imp_left fun ho => .inr (.inl ⟨q, hq, ho⟩)
    · rw [Network.node_update_of_ne w hqp] at ho
      exact .inl (.inr (.inl ⟨q, hq, ho⟩))
  · by_cases hdp : d = p
    · subst hdp
      rw [Network.node_update_self] at ho
      rcases h.unchanged _ ho with ho | ho
      · exact .inl (.inr (.inr ho))
      · obtain ⟨x, hx⟩ := hc _ ho
        cases hx
    · rw [Network.node_update_of_ne w hdp] at ho
      exact .inl (.inr (.inr ho))

omit [DecidableEq K] [DecidableEq A] [Rng R] in
lemma onWay_of_taken (h : (w.node p).taken c = some m) : OnWay ids w p m :=
  .inr (.inr (Session.mem_of_taken h).1)

omit [Rng R] in
/-- The message that a turn brings to a node comes from a node that holds it, or is its own. -/
lemma Sound.source (hw : Sound ids w) (hp : p ∈ ids)
    (h : (w.node p).Turn c t ha hd pa pd calls input k)
    (hx : ⟨i, x⟩ ∈ (w.plumtree p).arrived input) :
    (∃ s ∈ ids, (w.plumtree s).messages.get i = some x) ∨
      i.node = (w.node p).node.id ∧ i.seqno = (w.node p).node.messageSeqno ∧
        t.node.messageSeqno = (w.node p).node.messageSeqno + 1 := by
  obtain ⟨g, hg, he, _⟩ := Plumtree.Node.mem_arrived hx
  rcases h.cause _ hg with htaken | ⟨payload, timestamp, hm, hseqno⟩
  · obtain ⟨hs, hget⟩ := hw.gossiped p hp g (onWay_of_taken htaken)
    rw [← he] at hget
    exact .inl ⟨g.sender, hs, hget⟩
  · cases hm
    cases he
    exact .inr ⟨rfl, rfl, hseqno⟩

omit [Rng R] in
lemma get_turn (h : (w.node p).Turn c t ha hd pa pd calls input k) :
    (plumtree (w.update p t) q).messages.get i = some x ↔
      (w.plumtree q).messages.get i = some x ∨ q = p ∧ ⟨i, x⟩ ∈ (w.plumtree p).arrived input := by
  by_cases hqp : q = p
  · subst hqp
    have hsame : (plumtree (w.update q t) q).messages = k.messages := by
      rw [plumtree, Network.node_update_self, h.same]
    rw [hsame, h.effect.stored i x]
    simp
  · rw [plumtree, Network.node_update_of_ne w hqp]
    simp [hqp]

omit [Rng R] in
lemma holds_turn (h : (w.node p).Turn c t ha hd pa pd calls input k)
    (hi : (w.plumtree q).Holds i) : (plumtree (w.update p t) q).Holds i := by
  obtain ⟨x, hx⟩ := hi
  exact ⟨x, (get_turn h).mpr (.inl hx)⟩

omit [Rng R] in
lemma seqno_turn (h : (w.node p).Turn c t ha hd pa pd calls input k) (q : NodeId K A) :
    (w.node q).node.messageSeqno ≤ ((w.update p t).node q).node.messageSeqno := by
  by_cases hqp : q = p
  · subst hqp
    rw [Network.node_update_self]
    exact h.seqno
  · rw [Network.node_update_of_ne w hqp]

end turn

namespace Sound

omit [Rng R] in
lemma fresh (hw : Sound ids w) (hp : p ∈ ids) (timestamp : ℕ) :
    ¬ (w.plumtree p).Holds ⟨(w.node p).node.id, (w.node p).node.messageSeqno, timestamp⟩ ∧
      ¬ (w.plumtree p).missings.Recorded
        ⟨(w.node p).node.id, (w.node p).node.messageSeqno, timestamp⟩ := by
  rw [← not_or]
  intro h
  have hlt := hw.numbered p hp _ h (by rwa [hw.id_eq p hp])
  simp [hw.id_eq p hp] at hlt

lemma turns (hw : Sound ids w) (hp : p ∈ ids) (hs : (w.node p).step c = .ok t) :
    (w.node p).Turns c t :=
  .of_step (hw.agreeing p hp) hs (hw.fresh hp)

omit [Rng R] in
lemma get_new (hw : Sound ids w) (hp : p ∈ ids) (h : (w.node p).Turn c t ha hd pa pd calls input k)
    (hq : q ∈ ids) (hx : (plumtree (w.update p t) q).messages.get i = some x) :
    (∃ s ∈ ids, (w.plumtree s).messages.get i = some x) ∨
      q = p ∧ i.node = p ∧ i.seqno = (w.node p).node.messageSeqno ∧
        t.node.messageSeqno = (w.node p).node.messageSeqno + 1 := by
  rcases (get_turn h).mp hx with hx | ⟨rfl, hx⟩
  · exact .inl ⟨q, hq, hx⟩
  · apply (hw.source hp h hx).imp_right
    rintro ⟨hn, hi⟩
    exact ⟨rfl, hn.trans (hw.id_eq q hp), hi⟩

omit [Rng R] in
lemma numbered_turn (hw : Sound ids w) (hp : p ∈ ids)
    (h : (w.node p).Turn c t ha hd pa pd calls input k) (hq : q ∈ ids)
    (hi : (plumtree (w.update p t) q).Holds i ∨
      (plumtree (w.update p t) q).missings.Recorded i) (hn : i.node ∈ ids) :
    i.seqno < ((w.update p t).node i.node).node.messageSeqno := by
  have hknown : ∀ s ∈ ids, (w.plumtree s).Holds i ∨ (w.plumtree s).missings.Recorded i →
      i.seqno < ((w.update p t).node i.node).node.messageSeqno :=
    fun s hs hi => (hw.numbered s hs i hi hn).trans_le (seqno_turn h i.node)
  rcases hi with ⟨x, hx⟩ | hi
  · rcases hw.get_new hp h hq hx with ⟨s, hs, hx⟩ | ⟨_, hnode, hseqno, ht⟩
    · exact hknown s hs (.inl ⟨x, hx⟩)
    · rw [hnode, Network.node_update_self, hseqno, ht]
      exact Nat.lt_succ_self _
  · by_cases hqp : q = p
    · subst hqp
      have hsame : (plumtree (w.update q t) q).missings = k.missings := by
        rw [plumtree, Network.node_update_self, h.same]
      rw [hsame] at hi
      rcases h.effect.recorded i hi with hi | ⟨⟨e, he, rfl⟩, _⟩
      · exact hknown q hq (.inr hi)
      · rcases h.cause _ he with htaken | ⟨_, _, hm, _⟩
        · obtain ⟨hs, hheld⟩ := hw.announced q hq e (onWay_of_taken htaken)
          exact hknown _ hs (.inl hheld)
        · cases hm
    · rw [plumtree, Network.node_update_of_ne w hqp] at hi
      exact hknown q hq (.inr hi)

lemma turn (hw : Sound ids w) (hp : p ∈ ids) (hs : (w.node p).step c = .ok t)
    (hc : ∀ m, c = .arrive m → ∃ x, m = P2PNode.lost x)
    (h : (w.node p).Turn c t ha hd pa pd calls input k) : Sound ids (w.update p t) where
  agreeing := Network.forall_update hw.agreeing ((hw.agreeing p hp).step hs)
  id_eq := Network.forall_update (Q := fun q (s : Session K A M R) => s.node.id = q) hw.id_eq
    (h.id_eq.trans (hw.id_eq p hp))
  gossiped d hd g ho := by
    rcases ho.of_turn h hc with ho | hm
    · obtain ⟨hs, hget⟩ := hw.gossiped d hd g ho
      exact ⟨hs, (get_turn h).mpr (.inl hget)⟩
    · have hsender : g.sender = p := (h.effect.signed _ _ hm).trans (hw.id_eq p hp)
      have hget := h.effect.carried d g hm
      rw [hsender]
      exact ⟨hp, (get_turn h).mpr (((h.effect.stored _ _).mp hget).imp_right fun hx => ⟨rfl, hx⟩)⟩
  announced d hd e ho := by
    rcases ho.of_turn h hc with ho | hm
    · obtain ⟨hs, hheld⟩ := hw.announced d hd e ho
      exact ⟨hs, holds_turn h hheld⟩
    · have hsender : e.sender = p := (h.effect.signed _ _ hm).trans (hw.id_eq p hp)
      obtain ⟨x, hget⟩ := h.effect.held d e hm
      rw [hsender]
      refine ⟨hp, x, (get_turn h).mpr ?_⟩
      exact ((h.effect.stored _ _).mp hget).imp_right fun hx => ⟨rfl, hx⟩
  numbered q hq i hi hn := hw.numbered_turn hp h hq hi hn
  same q hq r hr i x y hx hy := by
    have hown : ∀ s ∈ ids, ∀ z, (w.plumtree s).messages.get i = some z → i.node = p →
        i.seqno ≠ (w.node p).node.messageSeqno := by
      intro s hs z hz hnode hseqno
      have hlt := hw.numbered s hs i (.inl ⟨z, hz⟩) (hnode ▸ hp)
      rw [hnode, hseqno] at hlt
      exact absurd hlt (lt_irrefl _)
    rcases hw.get_new hp h hq hx with ⟨s, hs, hxs⟩ | ⟨rfl, hnode, hseqno, _⟩
    · rcases hw.get_new hp h hr hy with ⟨s', hs', hys⟩ | ⟨_, hnode, hseqno, _⟩
      · exact hw.same s hs s' hs' i x y hxs hys
      · exact absurd hseqno (hown s hs x hxs hnode)
    · rcases hw.get_new hp h hr hy with ⟨s', hs', hys⟩ | ⟨rfl, _⟩
      · exact absurd hseqno (hown s' hs' y hys hnode)
      · exact Option.some.inj (hx.symm.trans hy)

omit [Rng R] in
lemma carried (hw : Sound ids w) (h : Carried ids w mv w') : Sound ids w' where
  agreeing p hp := by
    refine (hw.agreeing p hp).congr (h.hyparview_eq p)
      ((hw.agreeing p hp).coherent.congr (h.hyparview_eq p) (h.plumtree_eq p)) fun hd => ?_
    rwa [h.stage_eq p] at hd
  id_eq p hp := by
    rw [P2PNode.id, h.plumtree_eq]
    exact hw.id_eq p hp
  gossiped d hd g ho := by
    rw [plumtree, h.plumtree_eq]
    exact hw.gossiped d hd g (h.fresh _ _ ho)
  announced d hd e ho := by
    rw [plumtree, h.plumtree_eq]
    exact hw.announced d hd e (h.fresh _ _ ho)
  numbered p hp i hi hn := by
    rw [plumtree, h.plumtree_eq] at hi
    rw [h.seqno_eq]
    exact hw.numbered p hp i hi hn
  same p hp q hq i x y hx hy := by
    rw [plumtree, h.plumtree_eq] at hx hy
    exact hw.same p hp q hq i x y hx hy

end Sound

/-- The identifier of the message that a message carries or tells of. -/
def announced : PlumtreeMessage K A M → Option (MessageId K A)
  | .gossip g => some g.message.id
  | .ihave h => some h.messageId
  | _ => none

/-- A node is about to drop a peer: the event waits, or the message that causes it is on its way. -/
def Doomed (ids : Finset (NodeId K A)) (w : Cluster K A M R) (u v : NodeId K A) : Prop :=
  .notify (.neighborDown v) ∈ (w.node u).node.hyparviewNode.actions ∨
    ∃ alive, OnWay ids w u (.hyparview (.disconnect ⟨v, alive⟩))

/-- The message of `u` will come to `v`: it is announced, or asked for, or `v` waits to ask. -/
def Pending (ids : Finset (NodeId K A)) (w : Cluster K A M R) (u v : NodeId K A)
    (i : MessageId K A) : Prop :=
  (∃ m, m.sender = u ∧ announced m = some i ∧ OnWay ids w v (.plumtree m)) ∨
  (∃ r, OnWay ids w u (.plumtree (.graft ⟨v, some i, r⟩))) ∨
  (u ∈ (w.plumtree v).neighbours ∧
    .notify (.neighborDown u) ∉ (w.node v).node.hyparviewNode.actions ∧
    ∃ e ∈ (w.plumtree v).missings.waiting, e.2.sender = u ∧ e.2.messageId = i)

/-- What `u` holds, its peer `v` holds or will get, unless `u` is about to drop it. -/
def Served (ids : Finset (NodeId K A)) (w : Cluster K A M R) (u v : NodeId K A) : Prop :=
  v ∈ (w.plumtree u).neighbours → Doomed ids w u v ∨
    ∀ i, (w.plumtree u).Holds i → (w.plumtree v).Holds i ∨ Pending ids w u v i

/-- What `v` does with the message leaves an announcement of `u` without an answer: it discards
the announcement of a message that it lacks, or drops `u` while it still waits to ask for one. -/
def Cuts (w : Cluster K A M R) (u v : NodeId K A) : P2pNodeProtocolMessage K A M → Prop
  | .plumtree m => m.sender = u ∧ u ∉ (w.plumtree v).neighbours ∧
    ∃ i ∈ announced m, ¬ (w.plumtree v).Holds i
  | .hyparview (.disconnect m) => m = ⟨u, false⟩ ∧ u ∈ (w.plumtree v).neighbours ∧
    ∃ e ∈ (w.plumtree v).missings.waiting, e.2.sender = u
  | _ => False

/-- In the step, `v` leaves an announcement without an answer, and the link stays up at `u`. -/
def Cut (ids : Finset (NodeId K A)) (w : Cluster K A M R) (u v : NodeId K A) :
    Move (NodeId K A) (Input K A M) → Prop
  | .call p c => p = v ∧ v ∈ (w.plumtree u).neighbours ∧ ¬ Doomed ids w u v ∧
    ∃ m ∈ (w.node v).taken c, Cuts w u v m
  | _ => False

section decidable

variable [DecidableEq M]

instance : Decidable (k.Holds i) := decidable_of_iff _ Option.isSome_iff_exists

instance : Decidable (OnWay ids w d m) := inferInstanceAs (Decidable (_ ∨ _ ∨ _))

instance : Decidable (Doomed ids w u v) := inferInstanceAs (Decidable (_ ∨ _))

instance : DecidablePred (Cuts w u v)
  | .plumtree m => inferInstanceAs (Decidable (_ ∧ _ ∧ ∃ i ∈ announced m, _))
  | .hyparview (.disconnect _) =>
    @instDecidableAnd _ _ inferInstance
      (@instDecidableAnd _ _ inferInstance Multiset.decidableExistsMultiset)
  | .hyparview (.join _) | .hyparview (.forwardJoin _) | .hyparview (.neighbor _)
  | .hyparview (.shuffle _) | .hyparview (.shuffleReply _) | .plumtreeStream _ =>
    inferInstanceAs (Decidable False)

instance : DecidablePred (Cut ids w u v)
  | .call _ c => inferInstanceAs (Decidable (_ ∧ _ ∧ _ ∧ ∃ m ∈ (w.node v).taken c, _))
  | .poll _ | .deliver _ | .lose _ | .duplicate _ => inferInstanceAs (Decidable False)

end decidable

section served

omit [Rng R] in
lemma neighbours_turn (h : (w.node p).Turn c t ha hd pa pd calls input k) :
    (plumtree (w.update p t) p).neighbours = k.neighbours := by
  rw [plumtree, Network.node_update_self, h.neighbours_eq]

omit [Rng R] in
/-- A peer that is about to be dropped stays so until it is. -/
lemma Doomed.turn (h : (w.node p).Turn c t ha hd pa pd calls input k) (hdoomed : Doomed ids w u v)
    (hv : v ∈ (w.plumtree u).neighbours) (hv' : v ∈ (plumtree (w.update p t) u).neighbours) :
    Doomed ids (w.update p t) u v := by
  have hdown : u = p → .notify (.neighborDown v) ∈ (w.node p).node.hyparviewNode.actions ++ ha →
      Doomed ids (w.update p t) u v := by
    rintro rfl hdown
    rw [plumtree, Network.node_update_self] at hv'
    refine .inl ?_
    rw [Network.node_update_self]
    exact (h.down_kept hdown).resolve_right fun hn => hn hv'
  rcases hdoomed with hdoomed | ⟨alive, ho⟩
  · by_cases hup : u = p
    · exact hdown hup (List.mem_append_left _ (hup ▸ hdoomed))
    · refine .inl ?_
      rwa [Network.node_update_of_ne w hup]
  · rcases ho.turn h with ho | ⟨hup, htaken⟩
    · exact .inr ⟨alive, ho⟩
    · exact hdown hup (List.mem_append_right _ (h.told v alive htaken (hup ▸ hv)))

omit [Rng R] in
/-- The holder of a message moves: it announces the message, or answers the request for it. -/
lemma Served.turn_holder (hs : Served ids w u v) (hw : Sound ids w) (hu : u ∈ ids) (huv : v ≠ u)
    (h : (w.node u).Turn c t ha hd pa pd calls input k)
    (hv' : v ∈ (plumtree (w.update u t) u).neighbours)
    (hdoomed : ¬ Doomed ids (w.update u t) u v)
    (hi : (plumtree (w.update u t) u).Holds i) (hno : ¬ (w.plumtree v).Holds i) :
    Pending ids (w.update u t) u v i := by
  have hid : (w.plumtree u).id = u := hw.id_eq u hu
  have hv : v ∈ k.neighbours := neighbours_turn h ▸ hv'
  have hk : k.Holds i := by
    obtain ⟨x, hx⟩ := hi
    refine ⟨x, (h.effect.stored i x).mpr ?_⟩
    exact ((get_turn h).mp hx).imp_right And.right
  have hact : ∀ m, .send v m ∈ pa → OnWay ids (w.update u t) v (.plumtree m) :=
    fun m hm => onWay_of_outbox hu (h.outbox_of_act hm)
  rcases h.effect.spread v hv i hk with ⟨hold, hheld⟩ | ha | ⟨g, hg, hsender, hgi⟩
  · have hserved := (hs hold).resolve_left fun hd => hdoomed (hd.turn h hold hv')
    rcases (hserved i hheld).resolve_left hno with ⟨m, hm, hmi, ho⟩ | ⟨r, ho⟩ | hwaiting
    · refine .inl ⟨m, hm, hmi, (ho.turn h).resolve_right ?_⟩
      exact fun he => huv he.1
    · rcases ho.turn h with ho | ⟨_, htaken⟩
      · exact .inr (.inl ⟨r, ho⟩)
      · obtain ⟨x, r', hans⟩ := h.effect.answered _ (h.heard _ htaken hold) i rfl hk
        rw [h.effect.id_eq, hid] at hans
        exact .inl ⟨.gossip ⟨u, ⟨i, x⟩, r'⟩, rfl, rfl, hact _ hans⟩
    · refine .inr (.inr ?_)
      rwa [plumtree, Network.node_update_of_ne w huv]
  · rw [hid] at ha
    rcases ha with ⟨x, r, ha⟩ | ⟨r, b, ha⟩
    · exact .inl ⟨.gossip ⟨u, ⟨i, x⟩, r⟩, rfl, rfl, hact _ ha⟩
    · exact .inl ⟨.ihave ⟨u, i, r, b⟩, rfl, rfl, hact _ ha⟩
  · rcases h.cause _ hg with htaken | ⟨_, _, hm, _⟩
    · obtain ⟨_, hget⟩ := hw.gossiped u hu g (onWay_of_taken htaken)
      rw [hsender, hgi] at hget
      exact absurd ⟨_, hget⟩ hno
    · cases hm
      exact absurd (hsender.symm.trans hid) huv

omit [Rng R] in
/-- The node without the message moves: it gets the message, waits to ask for it, or asks. -/
lemma Served.turn_waiter (hs : Served ids w u v) (hw : Sound ids w) (hvids : v ∈ ids) (huv : u ≠ v)
    (h : (w.node v).Turn c t ha hd pa pd calls input k)
    (hcut : ¬ Cut ids w u v (.call v c))
    (hv : v ∈ (w.plumtree u).neighbours) (hdoomed : ¬ Doomed ids (w.update v t) u v)
    (hi : (w.plumtree u).Holds i) (hno : ¬ k.Holds i) :
    Pending ids (w.update v t) u v i := by
  have hid : (w.plumtree v).id = v := hw.id_eq v hvids
  have hstays : v ∈ (plumtree (w.update v t) u).neighbours := by
    rwa [plumtree, Network.node_update_of_ne w huv]
  have hlinked : ¬ Doomed ids w u v := fun hd => hdoomed (hd.turn h hv hstays)
  have hlacks : ¬ (w.plumtree v).Holds i := fun hh => hno (h.effect.holds hh)
  have hnode : (w.update v t).node v = t := Network.node_update_self w v t
  -- Nothing that `v` does takes `u` from its neighbours, but a message that cuts the link.
  have hsteady : (w.node v).taken c ≠ some (P2PNode.lost u) → u ∈ (w.plumtree v).neighbours →
      .notify (.neighborDown u) ∉ (w.node v).node.hyparviewNode.actions →
      u ∈ t.node.plumtreeNode.neighbours ∧
        .notify (.neighborDown u) ∉ t.node.hyparviewNode.actions := by
    intro htaken hu hdown
    have hnone : .notify (.neighborDown u) ∉ (w.node v).node.hyparviewNode.actions ++ ha := by
      rw [List.mem_append, not_or]
      refine ⟨hdown, fun hx => ?_⟩
      rcases h.down_new hx with hsent | hlost
      · rw [hw.id_eq v hvids] at hsent
        exact hdoomed (.inr ⟨true, onWay_of_outbox hvids hsent⟩)
      · exact htaken hlost
    refine ⟨h.peer_kept hu hnone, fun hx => hnone ?_⟩
    rw [h.hyparview]
    exact List.mem_append_right _ hx
  have hwaiting : ∀ e ∈ k.missings.waiting, e.2.sender = u → e.2.messageId = i →
      u ∈ t.node.plumtreeNode.neighbours →
      .notify (.neighborDown u) ∉ t.node.hyparviewNode.actions →
      Pending ids (w.update v t) u v i := by
    intro e he hsender hei hu hdown
    refine .inr (.inr ?_)
    rw [plumtree, hnode]
    refine ⟨hu, hdown, e, ?_, hsender, hei⟩
    rw [h.same]
    exact he
  rcases (((hs hv).resolve_left hlinked) i hi).resolve_left hlacks with
    ⟨m, hm, hmi, ho⟩ | ⟨r, ho⟩ | ⟨hu, hdown, e, he, hsender, hei⟩
  · rcases ho.turn h with ho | ⟨_, htaken⟩
    · exact .inl ⟨m, hm, hmi, ho⟩
    · by_cases hu : u ∈ (w.plumtree v).neighbours
      · have hinput := h.heard m htaken (hm ▸ hu)
        have hempty : (w.node v).node.hyparviewNode.actions = [] := by
          obtain ⟨_, b, hstage⟩ := Session.mem_of_taken htaken
          apply (hw.agreeing v hvids).drained
          rw [hstage]
          trivial
        obtain ⟨hu', hdown⟩ := hsteady (by rw [htaken]; simp [P2PNode.lost]) hu (by simp [hempty])
        have hans := h.effect.answered m hinput
        cases m with
        | gossip g => exact absurd (Option.some.inj hmi ▸ hans) hno
        | ihave e =>
          rcases hans with hans | ⟨time, b, hans⟩
          · exact absurd (Option.some.inj hmi ▸ hans) hno
          · exact hwaiting _ hans hm (Option.some.inj hmi) hu' hdown
        | _ => cases hmi
      · exact absurd ⟨rfl, hv, hlinked, _, htaken, hm, hu, i, hmi, hlacks⟩ hcut
  · exact .inr (.inl ⟨r, (ho.turn h).resolve_right fun hd => huv hd.1⟩)
  · have htaken : (w.node v).taken c ≠ some (P2PNode.lost u) := fun htaken =>
      hcut ⟨rfl, hv, hlinked, _, htaken, rfl, hu, e, he, hsender⟩
    obtain ⟨hu', hdown'⟩ := hsteady htaken hu hdown
    rcases h.effect.kept e he with he' | hheld | ⟨r, hgraft⟩ | hgone
    · exact hwaiting e he' hsender hei hu' hdown'
    · exact absurd (hei ▸ hheld) hno
    · rw [hsender, hei, hid] at hgraft
      exact .inr (.inl ⟨r, onWay_of_outbox hvids (h.outbox_of_act hgraft)⟩)
    · rw [h.neighbours_eq] at hu'
      exact absurd (hsender ▸ hu') hgone

omit [Rng R] in
lemma Pending.turn (h : (w.node p).Turn c t ha hd pa pd calls input k) (hpu : u ≠ p) (hpv : v ≠ p)
    (hi : Pending ids w u v i) : Pending ids (w.update p t) u v i := by
  rcases hi with ⟨m, hm, hmi, ho⟩ | ⟨r, ho⟩ | hwaiting
  · exact .inl ⟨m, hm, hmi, (ho.turn h).resolve_right fun hd => hpv hd.1⟩
  · exact .inr (.inl ⟨r, (ho.turn h).resolve_right fun hd => hpu hd.1⟩)
  · refine .inr (.inr ?_)
    rwa [plumtree, Network.node_update_of_ne w hpv]

omit [Rng R] in
lemma Served.turn (hs : Served ids w u v) (hw : Sound ids w) (hu : u ∈ ids) (hvids : v ∈ ids)
    (h : (w.node p).Turn c t ha hd pa pd calls input k) (hcut : ¬ Cut ids w u v (.call p c)) :
    Served ids (w.update p t) u v := by
  intro hv'
  by_cases hdoomed : Doomed ids (w.update p t) u v
  · exact .inl hdoomed
  refine .inr fun i hi => ?_
  by_cases hno : (plumtree (w.update p t) v).Holds i
  · exact .inl hno
  have huv : v ≠ u := by
    rintro rfl
    exact hno hi
  refine .inr ?_
  by_cases hpu : u = p
  · subst hpu
    exact hs.turn_holder hw hu huv h hv' hdoomed hi fun hh => hno (holds_turn h hh)
  · have hsame : plumtree (w.update p t) u = w.plumtree u := by
      rw [plumtree, Network.node_update_of_ne w hpu]
    rw [hsame] at hi hv'
    by_cases hpv : v = p
    · subst hpv
      apply hs.turn_waiter hw hvids huv.symm h hcut hv' hdoomed hi
      rintro ⟨x, hx⟩
      refine hno ⟨x, ?_⟩
      exact (get_turn h).mpr (((h.effect.stored i x).mp hx).imp_right fun hx => ⟨rfl, hx⟩)
    · have hlinked : ¬ Doomed ids w u v := fun hd => hdoomed (hd.turn h hv' (hsame.symm ▸ hv'))
      have hlacks : ¬ (w.plumtree v).Holds i := fun hh => hno (holds_turn h hh)
      exact (((hs hv').resolve_left hlinked i hi).resolve_left hlacks).turn h hpu hpv

omit [Rng R] in
lemma Served.carried (hs : Served ids w u v) (h : Carried ids w mv w') (hu : u ∈ ids) (hv : v ∈ ids)
    (hmv : Reliable u v w mv) : Served ids w' u v := by
  have hkept : ∀ d ∈ ids, ∀ m, d = u ∧ m.sender = some v ∨ d = v ∧ m.sender = some u →
      OnWay ids w d m → OnWay ids w' d m := by
    intro d hd m hm ho
    refine (h.kept d hd m ho).resolve_right ?_
    rintro ⟨j, rfl, hj⟩
    obtain ⟨hu, hv⟩ := hmv d m hj
    exact hm.elim hu hv
  intro hv'
  rw [plumtree, h.plumtree_eq] at hv'
  refine (hs hv').imp ?_ fun hserved i hi => ?_
  · rintro (hdown | ⟨alive, ho⟩)
    · refine .inl ?_
      rwa [h.hyparview_eq]
    · exact .inr ⟨alive, hkept u hu _ (.inl ⟨rfl, rfl⟩) ho⟩
  · rw [plumtree, h.plumtree_eq] at hi ⊢
    refine (hserved i hi).imp_right ?_
    rintro (⟨m, hm, hmi, ho⟩ | ⟨r, ho⟩ | hwaiting)
    · exact .inl ⟨m, hm, hmi, hkept v hv _ (.inr ⟨rfl, congrArg some hm⟩) ho⟩
    · exact .inr (.inl ⟨r, hkept u hu _ (.inl ⟨rfl, rfl⟩) ho⟩)
    · refine .inr (.inr ?_)
      rwa [plumtree, h.plumtree_eq, h.hyparview_eq]

end served

omit [DecidableEq K] [DecidableEq A] [Rng R] in
lemma Reliable.symm {a b : NodeId K A} (h : Reliable a b w mv) : Reliable b a w mv := by
  cases mv with
  | call p c =>
    cases c with
    | arrive m => exact h
    | _ => trivial
  | lose i => exact fun d m hi => (h d m hi).symm
  | _ => trivial

/-- No message waits to be sent or to be handled. -/
def Quiet (s : Session K A M R) : Prop :=
  s.node.hyparviewNode.actions = [] ∧ s.node.plumtreeNode.actions = [] ∧ s.node.server = [] ∧
    s.node.messageRx = []

instance [DecidableEq M] (s : Session K A M R) : Decidable (Quiet s) :=
  inferInstanceAs (Decidable (_ ∧ _ ∧ _ ∧ _))

/-- What a run keeps that cuts no link between the two nodes. -/
structure Sharing (ids : Finset (NodeId K A)) (a b : NodeId K A) (w : Cluster K A M R) : Prop where
  sound : Sound ids w
  forth : Served ids w a b
  back : Served ids w b a

lemma Sharing.step {a b : NodeId K A} (h : Sharing ids a b w) (ha : a ∈ ids) (hb : b ∈ ids)
    (hs : Network.step protocol ids w mv = .ok w') (hmv : Reliable a b w mv)
    (hcut : ¬ Cut ids w a b mv ∧ ¬ Cut ids w b a mv) : Sharing ids a b w' := by
  cases step_of_step h.sound.id_eq hs with
  | @turned p c t hp ht =>
    obtain ⟨_, _, _, _, _, _, _, hturn⟩ := h.sound.turns hp ht
    have hc : ∀ m, c = .arrive m → ∃ x, m = P2PNode.lost x := by
      rintro m rfl
      exact hmv
    exact ⟨h.sound.turn hp ht hc hturn, h.forth.turn h.sound ha hb hturn hcut.1,
      h.back.turn h.sound hb ha hturn hcut.2⟩
  | carried hcarried =>
    exact ⟨h.sound.carried hcarried, h.forth.carried hcarried ha hb hmv,
      h.back.carried hcarried hb ha hmv.symm⟩

variable {w₀ : Cluster K A M R} {rng : NodeId K A → R} {draws : NodeId K A → Draws}
  {choices : NodeId K A → List ℕ} {a b : NodeId K A}
  {tr : List (Taken (Cluster K A M R) (Move (NodeId K A) (Input K A M)))}

omit [DecidableEq K] [DecidableEq A] [Rng R] in
lemma not_onWay_of_quiet (hf : w.flight = []) (hq : ∀ p ∈ ids, Quiet (w.node p)) (hd : d ∈ ids) :
    ¬ OnWay ids w d m := by
  rintro (h | ⟨p, hp, h⟩ | h)
  · simp [hf] at h
  · obtain ⟨hh, hpt, hs, _⟩ := hq p hp
    simp [Session.outbox, hh, hpt, hs] at h
  · obtain ⟨_, _, _, hr⟩ := hq d hd
    simp [hr] at h

omit [Rng R] in
lemma sharing_of_new
    (h₀ : ∀ p ∈ ids, Session.new p (rng p) (draws p) (choices p) = .ok (w₀.node p))
    (hf : w₀.flight = []) (ha : a ∈ ids) (hb : b ∈ ids) : Sharing ids a b w₀ := by
  have hnew : ∀ p ∈ ids, w₀.plumtree p = .withOptions p {} (choices p) ∧ Quiet (w₀.node p) := by
    intro p hp
    obtain ⟨_, _, _, hs⟩ := Session.new_ok (h₀ p hp)
    rw [plumtree, hs]
    exact ⟨rfl, rfl, rfl, rfl, rfl⟩
  have hquiet : ∀ d ∈ ids, ∀ m, ¬ OnWay ids w₀ d m := fun d hd m =>
    not_onWay_of_quiet hf (fun p hp => (hnew p hp).2) hd
  have hnone : ∀ p ∈ ids, ∀ i x, (w₀.plumtree p).messages.get i ≠ some x := by
    intro p hp i x
    rw [(hnew p hp).1]
    simp [Plumtree.Node.withOptions]
  have hserved : ∀ u ∈ ids, ∀ v, Served ids w₀ u v := by
    intro u hu v _
    right
    rintro i ⟨x, hx⟩
    exact absurd hx (hnone u hu i x)
  refine ⟨⟨fun p hp => Session.new_agreeing (h₀ p hp), fun p hp => ?_,
    fun d hd g ho => absurd ho (hquiet d hd _), fun d hd e ho => absurd ho (hquiet d hd _), ?_,
    fun p hp q hq i x y hx => absurd hx (hnone p hp i x)⟩, hserved a ha b, hserved b hb a⟩
  · change (w₀.plumtree p).id = p
    rw [(hnew p hp).1]
    rfl
  · rintro p hp i (⟨x, hx⟩ | hi)
    · exact absurd hx (hnone p hp i x)
    · rw [(hnew p hp).1] at hi
      simp [Plumtree.Node.withOptions, Plumtree.MissingMessages.Recorded,
        Plumtree.MissingMessages.new] at hi

omit [Rng R] in
/-- At rest, what one of two linked nodes holds the other holds. -/
lemma Served.at_rest (hs : Served ids w u v) (hu : u ∈ ids) (hv : v ∈ ids) (hf : w.flight = [])
    (hq : ∀ p ∈ ids, Quiet (w.node p)) (hw : (w.plumtree v).missings.waiting = 0)
    (hl : v ∈ (w.plumtree u).neighbours) (hi : (w.plumtree u).Holds i) :
    (w.plumtree v).Holds i := by
  rcases hs hl with (hdown | ⟨_, ho⟩) | hserved
  · simp [(hq u hu).1] at hdown
  · exact absurd ho (not_onWay_of_quiet hf hq hu)
  · rcases hserved i hi with hi | ⟨_, _, _, ho⟩ | ⟨_, ho⟩ | ⟨_, _, e, he, _⟩
    · exact hi
    · exact absurd ho (not_onWay_of_quiet hf hq hv)
    · exact absurd ho (not_onWay_of_quiet hf hq hu)
    · simp [hw] at he

/-- Two nodes that have each other in their active views hold the same messages at rest, if in no
step one of them leaves an announcement of the other without an answer. -/
theorem history_synchronised
    (h₀ : ∀ p ∈ ids, Session.new p (rng p) (draws p) (choices p) = .ok (w₀.node p))
    (hf₀ : w₀.flight = []) (h : Run (Network.step protocol ids) w₀ tr w)
    (hmoves : ∀ e ∈ tr, Reliable a b e.before e.input)
    (hcut : ∀ e ∈ tr, ¬ Cut ids e.before a b e.input ∧ ¬ Cut ids e.before b a e.input)
    (ha : a ∈ ids) (hb : b ∈ ids) (hf : w.flight = []) (hq : ∀ p ∈ ids, Quiet (w.node p))
    (hwaiting : ∀ p ∈ ids, (w.plumtree p).missings.waiting = 0)
    (hab : b ∈ (w.node a).node.hyparviewNode.activeView)
    (hba : a ∈ (w.node b).node.hyparviewNode.activeView) (i : MessageId K A) :
    (w.plumtree a).messages.get i = (w.plumtree b).messages.get i := by
  have hw : Sharing ids a b w := h.invariant_of
    (C := fun e => Reliable a b e.before e.input ∧
      ¬ Cut ids e.before a b e.input ∧ ¬ Cut ids e.before b a e.input)
    (fun t mv u hs ht hc => hs.step ha hb ht hc.1 hc.2) (sharing_of_new h₀ hf₀ ha hb)
    fun e he => ⟨hmoves e he, hcut e he⟩
  have hlink : ∀ u ∈ ids, ∀ v ∈ (w.node u).node.hyparviewNode.activeView,
      v ∈ (w.plumtree u).neighbours := by
    intro u hu v hv
    have hagreed := (hw.sound.agreeing u hu).coherent.agreed
    rw [(hq u hu).1, Hyparview.replay_nil] at hagreed
    rw [plumtree, Option.some.inj hagreed]
    exact List.mem_toFinset.mpr hv
  have hforth : ∀ x, (w.plumtree a).messages.get i = some x →
      (w.plumtree b).messages.get i = some x := by
    intro x hx
    obtain ⟨y, hy⟩ := hw.forth.at_rest ha hb hf hq (hwaiting b hb) (hlink a ha b hab) ⟨x, hx⟩
    rw [hy, hw.sound.same a ha b hb i x y hx hy]
  have hback : ∀ x, (w.plumtree b).messages.get i = some x →
      (w.plumtree a).messages.get i = some x := by
    intro x hx
    obtain ⟨y, hy⟩ := hw.back.at_rest hb ha hf hq (hwaiting a ha) (hlink b hb a hba) ⟨x, hx⟩
    rw [hy, hw.sound.same b hb a ha i x y hx hy]
  exact Option.ext fun x => ⟨hforth x, hback x⟩

abbrev host (n : ℕ) : NodeId ℕ ℕ := ⟨[], n⟩

def fresh : Cluster ℕ ℕ ℕ Playback where
  node p := { Session.solo with node := { Session.solo.node with
    hyparviewNode := .new p ⟨[]⟩
    plumtreeNode := .withOptions p {} [] } }
  flight := []

lemma new_fresh (p : NodeId ℕ ℕ) : Session.new p ⟨[]⟩ ⟨0, 0, 0⟩ [] = .ok (fresh.node p) := rfl

def stages (n k : ℕ) : List (Move (NodeId ℕ ℕ) (Input ℕ ℕ ℕ)) :=
  .replicate k (.call (host n) (.advance (some 1000) (some 1000)))

/-- The move loses no message, and brings none from outside. -/
def Undisturbed : Move (NodeId ℕ ℕ) (Input ℕ ℕ ℕ) → Bool
  | .call _ (.arrive _) => false
  | .lose _ => false
  | _ => true

lemma reliable_of_undisturbed {a b : NodeId ℕ ℕ} {w : Cluster ℕ ℕ ℕ Playback}
    {mv : Move (NodeId ℕ ℕ) (Input ℕ ℕ ℕ)} (h : Undisturbed mv) : Reliable a b w mv := by
  cases mv with
  | call p c =>
    cases c with
    | arrive m => cases h
    | _ => trivial
  | lose i => cases h
  | _ => trivial

/-- A node broadcasts, and another joins it. It sends a `NEIGHBOR` and then an `IHAVE`. -/
def linking : List (Move (NodeId ℕ ℕ) (Input ℕ ℕ ℕ)) :=
  .flatten
    [[.call (host 0) (.broadcast 7 (some 1000)), .call (host 1) (.join (host 0)),
      .call (host 1) (.poll none)], stages 1 1, [.poll (host 1), .deliver 0],
      [.call (host 0) (.poll none)], stages 0 12, [.poll (host 0), .poll (host 0)]]

/-- The messages come in the order in which they were sent, and the other node asks. -/
def ordered : List (Move (NodeId ℕ ℕ) (Input ℕ ℕ ℕ)) :=
  .flatten
    [linking, [.deliver 0, .deliver 0], stages 1 12, [.poll (host 1), .deliver 0], stages 0 6,
      stages 1 4,
      .flatten (.replicate 5 (.call (host 1) (.poll (some ⟨0, 0, 0⟩)) :: stages 1 4)),
      [.poll (host 1), .deliver 0], stages 0 6, [.poll (host 0), .deliver 0],
      [.call (host 1) (.poll none)], stages 1 6]

set_option maxRecDepth 4000 in
theorem history_synchronised_ordered : ∃ (w : Cluster ℕ ℕ ℕ Playback)
    (tr : List (Taken (Cluster ℕ ℕ ℕ Playback) (Move (NodeId ℕ ℕ) (Input ℕ ℕ ℕ)))),
      Run (Network.step protocol {host 0, host 1}) fresh tr w ∧
      (w.plumtree (host 0)).messages.get ⟨host 0, 0, 1000⟩ = some 7 ∧
      (w.plumtree (host 0)).messages.get ⟨host 0, 0, 1000⟩ =
        (w.plumtree (host 1)).messages.get ⟨host 0, 0, 1000⟩ := by
  have hrun : follow (Network.step protocol {host 0, host 1}) fresh ordered = .ok _ := rfl
  have hmoves := Run.inputs_of_follow (C := fun mv => Undisturbed mv) ordered hrun (by decide)
  refine ⟨_, _, Run.of_follow ordered hrun, ?_, history_synchronised (a := host 0) (b := host 1)
    (fun p _ => new_fresh p) ?_ (Run.of_follow ordered hrun)
    (fun e he => reliable_of_undisturbed (hmoves e he)) ?_ ?_ ?_ ?_ ?_ ?_ ?_ ?_ _⟩
  · rfl
  · rfl
  · decide
  · decide
  · decide
  · rfl
  · decide
  · decide
  · decide
  · decide

/-- The `IHAVE` comes first: the other node does not know its sender, and discards it. -/
def overtaken : List (Move (NodeId ℕ ℕ) (Input ℕ ℕ ℕ)) :=
  .flatten
    [linking, [.deliver 1, .deliver 0], stages 1 10, [.poll (host 1), .deliver 0], stages 0 6]

set_option maxRecDepth 2000 in
/-- The two nodes are at rest and linked, and the message of the first never comes to the other. -/
theorem history_missed : ∃ (w : Cluster ℕ ℕ ℕ Playback)
    (tr : List (Taken (Cluster ℕ ℕ ℕ Playback) (Move (NodeId ℕ ℕ) (Input ℕ ℕ ℕ)))),
      Run (Network.step protocol {host 0, host 1}) fresh tr w ∧
      (∀ e ∈ tr, Reliable (host 0) (host 1) e.before e.input) ∧ w.flight = [] ∧
      (∀ p ∈ ({host 0, host 1} : Finset _), Quiet (w.node p)) ∧
      (∀ p ∈ ({host 0, host 1} : Finset _), (w.plumtree p).missings.waiting = 0) ∧
      host 1 ∈ (w.node (host 0)).node.hyparviewNode.activeView ∧
      host 0 ∈ (w.node (host 1)).node.hyparviewNode.activeView ∧
      (w.plumtree (host 0)).messages.get ⟨host 0, 0, 1000⟩ = some 7 ∧
      (w.plumtree (host 1)).messages.get ⟨host 0, 0, 1000⟩ = none := by
  have hrun : follow (Network.step protocol {host 0, host 1}) fresh overtaken = .ok _ := rfl
  have hmoves := Run.inputs_of_follow (C := fun mv => Undisturbed mv) overtaken hrun (by decide)
  refine ⟨_, _, Run.of_follow overtaken hrun,
    fun e he => reliable_of_undisturbed (hmoves e he), ?_, ?_, ?_, ?_, ?_, ?_, ?_⟩
  · rfl
  · decide
  · decide
  · decide
  · decide
  · rfl
  · rfl

end QuicP2p.P2p.Cluster
