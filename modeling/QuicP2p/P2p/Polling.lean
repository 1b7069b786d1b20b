import QuicP2p.P2p.Draining
import QuicP2p.P2p.Layers

/-! A poll of a node ends: it hands out a message, or it has drained all its queues. -/

namespace QuicP2p.P2p

open Library
open P2PNode (toDo)

variable {K A M R : Type}

/-- The stages that are left of a poll, if the pass of its loop is the last. -/
def Stage.left : Stage → ℕ
  | .idle => 0
  | .receive b => 5 * b.toNat + 1
  | .plumtree b => 5 * b.toNat + 2
  | .buffer b => 5 * b.toNat + 3
  | .hyparview b => 5 * b.toNat + 4

namespace Session

variable [DecidableEq K] [DecidableEq A] [Rng R] {s s₀ t : Session K A M R} {i : Input K A M}
  {tr : List (Taken (Session K A M R) (Input K A M))} {receive now : WallClock}
  {nodeId : NodeId K A} {rng : R} {draws : Draws} {choices : List ℕ}

/-- What a poll has still to do: to handle the messages it has received, then to execute the actions
of HyParView and those of Plumtree, which only the former bring anew. -/
def remaining (s : Session K A M R) : ℕ ×ₗ ℕ ×ₗ ℕ ×ₗ ℕ :=
  toLex (s.node.messageRx.length, toLex (s.node.hyparviewNode.actions.length,
    toLex (toDo s.node.plumtreeNode, s.stage.left)))

/-- Plumtree has nothing to do: it waits for announced messages at most. -/
def Waits (s : Session K A M R) : Prop :=
  s.node.plumtreeNode.actions = [] ∧
    ∀ a ∈ s.node.plumtreeNode.missings.waiting, s.node.plumtreeNode.clock.now < a.1

/-- The poll can go on: it has found no message of a stream, and what it has drained is empty. -/
structure Polling (s : Session K A M R) : Prop where
  agreeing : s.Agreeing
  harmless : ∀ stream, .plumtreeStream stream ∉ s.node.messageRx
  waits : s.stage = .receive false → s.Waits

lemma pollAction_none {p q : PlumtreeNode K A M} (h : p.missings.Valid)
    (hp : p.pollAction = .ok (none, q)) :
    toDo q ≤ toDo p ∧ q.actions = [] ∧ ∀ a ∈ q.missings.waiting, q.clock.now < a.1 := by
  obtain ⟨m, hm, ⟨spent, hspent, _⟩, hlate⟩ := Plumtree.Node.handleExpiration_spec h
  rw [Plumtree.Node.pollAction, hm, ok_bind] at hp
  obtain ⟨hnone, rfl⟩ := Prod.mk.inj (Except.ok.inj hp)
  have hnil : m.actions.tail = [] := by rw [List.head?_eq_none_iff.mp hnone, List.tail_nil]
  refine ⟨?_, hnil, fun a ha => ?_⟩
  · have hwaiting : p.missings.waiting.card = spent.length + m.missings.waiting.card := by
      rw [hspent.waiting_eq, Multiset.card_add, Multiset.coe_card]
    simp only [toDo, hnil, List.length_nil]
    omega
  · change m.clock.now < a.1
    rw [hspent.clock_eq]
    exact hlate a ha

omit [DecidableEq K] [DecidableEq A] [Rng R] in
lemma handlePlumtreeAction_returns (n : P2PNode K A M R) (receive now : WallClock)
    (a : PlumtreeAction K A M) : ∃ r, n.handlePlumtreeAction receive now a = .ok r := by
  cases a with
  | send d m => exact ⟨_, rfl⟩
  | deliver m => exact (processSequentialMessages_spec _ now).returns

lemma Polling.returns (h : s.Polling) (receive now : WallClock) :
    ∃ t, s.step (.advance receive now) = .ok t := by
  have hc := h.agreeing.coherent
  cases hs : s.stage with
  | idle => exact ⟨s, by simp only [step, advance, hs]⟩
  | hyparview b =>
    simp only [step, advance, hs, advanceHyparview, Hyparview.Node.pollAction]
    cases ha : s.node.hyparviewNode.actions with
    | nil => exact ⟨_, rfl⟩
    | cons a rest =>
      obtain ⟨n, hn, _⟩ := hc.handleHyparviewAction ha
      simp only [List.head?_cons, List.tail_cons, hn]
      exact ⟨_, rfl⟩
  | buffer b =>
    obtain ⟨r, hr, _⟩ := processSequentialMessages_spec s.node now
    simp only [step, advance, hs, hr]
    exact ⟨_, rfl⟩
  | plumtree b =>
    obtain ⟨⟨action, p⟩, hp, _⟩ := P2PNode.pollAction_toDo hc.valid
    simp only [step, advance, hs, advancePlumtree, hp, ok_bind]
    cases action with
    | none => exact ⟨_, rfl⟩
    | some a =>
      obtain ⟨r, hr⟩ := handlePlumtreeAction_returns { s.node with plumtreeNode := p } receive now a
      dsimp only
      rw [hr]
      exact ⟨_, rfl⟩
  | receive b =>
    simp only [step, advance, hs, advanceReceive]
    cases hm : s.node.messageRx with
    | nil => exact ⟨_, rfl⟩
    | cons m rest =>
      cases m with
      | hyparview m =>
        obtain ⟨hv, hx⟩ := (Hyparview.Node.handleProtocolMessage_spec hc.wellFormed m).returns
        simp only [P2PNode.handleP2pnodeProtocolMessage, hx]
        exact ⟨_, rfl⟩
      | plumtree m => exact ⟨_, rfl⟩
      | plumtreeStream m => exact absurd (by rw [hm]; exact List.mem_cons_self) (h.harmless m)

/-- How a poll ends: it hands out a message, or there is nothing left to do. -/
structure Ended (s t : Session K A M R) : Prop where
  stage_eq : t.stage = .idle
  outcome : (∃ m, t.handedOut = s.handedOut ++ [m]) ∨
    t.handedOut = s.handedOut ∧ t.node.hyparviewNode.actions = [] ∧ t.Waits ∧ t.node.messageRx = []

/-- The poll goes on, and has less to do. -/
structure Continues (s t : Session K A M R) : Prop where
  stage_ne : t.stage ≠ .idle
  handedOut_eq : t.handedOut = s.handedOut
  less : t.remaining < s.remaining
  polling : t.Polling

omit [Rng R] in
lemma remaining_lt_of_rx (h : t.node.messageRx.length < s.node.messageRx.length) :
    t.remaining < s.remaining := Prod.Lex.toLex_lt_toLex.mpr (.inl h)

omit [Rng R] in
lemma remaining_lt_of_hyparview (hr : t.node.messageRx = s.node.messageRx)
    (h : t.node.hyparviewNode.actions.length < s.node.hyparviewNode.actions.length) :
    t.remaining < s.remaining := by
  refine Prod.Lex.toLex_lt_toLex.mpr (.inr ⟨congrArg List.length hr, ?_⟩)
  exact Prod.Lex.toLex_lt_toLex.mpr (.inl h)

omit [Rng R] in
lemma remaining_lt_of_plumtree (hr : t.node.messageRx = s.node.messageRx)
    (hh : t.node.hyparviewNode = s.node.hyparviewNode)
    (h : toDo t.node.plumtreeNode < toDo s.node.plumtreeNode ∨
      toDo t.node.plumtreeNode ≤ toDo s.node.plumtreeNode ∧ t.stage.left < s.stage.left) :
    t.remaining < s.remaining := by
  refine Prod.Lex.toLex_lt_toLex.mpr (.inr ⟨congrArg List.length hr, ?_⟩)
  refine Prod.Lex.toLex_lt_toLex.mpr (.inr ⟨congrArg (fun n => n.actions.length) hh, ?_⟩)
  rcases h with h | ⟨hle, hstage⟩
  · exact Prod.Lex.toLex_lt_toLex.mpr (.inl h)
  · rcases hle.lt_or_eq with h | h
    · exact Prod.Lex.toLex_lt_toLex.mpr (.inl h)
    · exact Prod.Lex.toLex_lt_toLex.mpr (.inr ⟨h, hstage⟩)

lemma Polling.advance (h : s.Polling) (hs : s.stage ≠ .idle)
    (ht : s.step (.advance receive now) = .ok t) : s.Ended t ∨ s.Continues t := by
  have hagreeing := h.agreeing.step ht
  have hgo : t.stage ≠ .idle → t.handedOut = s.handedOut → t.remaining < s.remaining →
      (∀ m ∈ t.node.messageRx, m ∈ s.node.messageRx) → (t.stage = .receive false → t.Waits) →
      s.Continues t := fun hstage hout hless hrx hwaits =>
    ⟨hstage, hout, hless, hagreeing, fun stream hm => h.harmless stream (hrx _ hm), hwaits⟩
  cases stepped_of_step ht with
  | refused hidle => exact absurd (hidle _ _ rfl) hs
  | @acted b _ _ a rest n hstage ha hn =>
    have hpopped := h.agreeing.popped ha hn
    have hrx := (P2PNode.handleHyparviewAction_kept hn).1
    refine .inr (hgo (by simp) rfl (remaining_lt_of_hyparview hrx ?_) (fun m hm => hrx ▸ hm)
      (by simp))
    rw [hpopped, ha]
    exact Nat.lt_succ_self _
  | drained hstage ha =>
    refine .inr (hgo (by simp) rfl (remaining_lt_of_plumtree rfl rfl (.inr ⟨le_rfl, ?_⟩)) (by simp)
      (by simp))
    rw [hstage]
    exact Nat.lt_succ_self _
  | @searched b _ _ r hstage hr =>
    obtain ⟨⟨_, _, hr⟩, _⟩ := (processSequentialMessages_spec _ _).of_ok hr
    obtain ⟨_ | m, n⟩ := r
    · obtain rfl : n = _ := hr
      refine .inr (hgo (by simp [found]) rfl (remaining_lt_of_plumtree rfl rfl (.inr ⟨le_rfl, ?_⟩))
        (by simp [found]) (by simp [found]))
      rw [hstage]
      exact Nat.lt_succ_self _
    · exact .inl ⟨rfl, .inl ⟨m, rfl⟩⟩
  | @executed b _ _ a p r hstage ha hr =>
    obtain ⟨hh, hp, _, hrx, _⟩ := P2PNode.handlePlumtreeAction_ok hr
    have hless := ((P2PNode.pollAction_toDo h.agreeing.coherent.valid).of_ok ha).1 a rfl
    obtain ⟨_ | m, n⟩ := r
    · dsimp only at hh hp hrx
      refine .inr (hgo (by simp [found]) rfl (remaining_lt_of_plumtree hrx hh (.inl ?_))
        (fun m hm => hrx ▸ hm) (by simp [found]))
      change toDo n.plumtreeNode < _
      rwa [hp]
    · exact .inl ⟨rfl, .inl ⟨m, rfl⟩⟩
  | @exhausted b _ _ p hstage ha =>
    obtain ⟨hle, hwaits⟩ := pollAction_none h.agreeing.coherent.valid ha
    refine .inr (hgo (by simp) rfl (remaining_lt_of_plumtree rfl rfl (.inr ⟨hle, ?_⟩)) (by simp)
      (fun _ => hwaits))
    rw [hstage]
    exact Nat.lt_succ_self _
  | @received b stop _ _ m rest n hstage hm hn =>
    have hrx : n.messageRx = rest := by
      cases m with
      | hyparview m =>
        obtain ⟨_, _, hn⟩ := bind_eq_ok.mp hn
        cases hn
        rfl
      | plumtree m =>
        cases hn
        rfl
      | plumtreeStream m => cases hn
    refine .inr (hgo (by split <;> simp) rfl (remaining_lt_of_rx ?_) ?_ (by split <;> simp))
    · rw [hrx, hm]
      exact Nat.lt_succ_self _
    · intro m' hm'
      rw [hm]
      exact List.mem_cons_of_mem _ (hrx ▸ hm')
  | @ended b _ _ hstage hm =>
    cases b with
    | true =>
      refine .inr (hgo (by simp) rfl (remaining_lt_of_plumtree rfl rfl (.inr ⟨le_rfl, ?_⟩))
        (by simp) (by simp))
      rw [hstage]
      simp [Stage.left]
    | false =>
      refine .inl ⟨rfl, .inr ⟨rfl, ?_, h.waits hstage, hm⟩⟩
      exact h.agreeing.drained (by rw [hstage]; trivial)

end Session

end QuicP2p.P2p
