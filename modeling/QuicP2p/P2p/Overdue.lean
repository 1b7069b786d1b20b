import QuicP2p.P2p.Buffer

/-! What each message that leaves the buffer early or late has waited for. -/

namespace QuicP2p.P2p

open Library

variable {K A M R : Type}

namespace P2PNode

variable {n : P2PNode K A M R}

/-- A message that a search takes has the least timestamp, and is overdue or in sequence. -/
lemma first_of_search {clock : WallClock} {m : PlumtreeAppMessage K A M} {k : P2PNode K A M R}
    (h : n.processSequentialMessages clock = .ok (some m, k)) :
    ∃ e ∈ n.messageBuffer.first, e.2.1 = m ∧ (Overdue clock e.2.2 ∨ n.InSequence e.1) := by
  rw [Session.processSequentialMessages_eq] at h
  have hbuffer : n.trimProcessedMessages.messageBuffer = n.messageBuffer := by
    rw [Session.trimProcessedMessages_eq]
  cases hf : n.messageBuffer.first with
  | none =>
    rw [hf] at h
    cases h
  | some e =>
    obtain ⟨j, x, t⟩ := e
    rw [hf] at h
    dsimp only at h
    by_cases hripe : Overdue clock t ∨ n.InSequence j
    · rw [if_pos hripe,
        Session.takeBuffered_of_first (n := n.trimProcessedMessages) (hbuffer ▸ hf)] at h
      cases h
      exact ⟨_, rfl, rfl, hripe⟩
    · rw [if_neg hripe] at h
      cases h

lemma search_of_first {clock : WallClock} {e : ℕ × PlumtreeAppMessage K A M × ℕ}
    (hf : n.messageBuffer.first = some e) (h : Overdue clock e.2.2 ∨ n.InSequence e.1) :
    ∃ k, n.processSequentialMessages clock = .ok (some e.2.1, k) := by
  have hbuffer : n.trimProcessedMessages.messageBuffer = n.messageBuffer := by
    rw [Session.trimProcessedMessages_eq]
  obtain ⟨j, x, t⟩ := e
  rw [Session.processSequentialMessages_eq, hf]
  dsimp only
  rw [if_pos h, Session.takeBuffered_of_first (n := n.trimProcessedMessages) (hbuffer ▸ hf)]
  exact ⟨_, rfl⟩

/-- Whatever is overdue in the buffer, a search takes a message exactly if the entry with the least
timestamp is overdue itself, or is in sequence. -/
theorem overdue_taken_iff (n : P2PNode K A M R) (clock : WallClock) :
    (∃ m k, n.processSequentialMessages clock = .ok (some m, k)) ↔
      ∃ e ∈ n.messageBuffer.first, Overdue clock e.2.2 ∨ n.InSequence e.1 := by
  constructor
  · rintro ⟨m, k, h⟩
    obtain ⟨e, he, _, hripe⟩ := first_of_search h
    exact ⟨e, he, hripe⟩
  · rintro ⟨e, he, hripe⟩
    obtain ⟨k, hk⟩ := search_of_first he hripe
    exact ⟨_, k, hk⟩

end P2PNode

namespace Session

/-- Node 1 sends a message that leaves the buffer, and two that come late, one after the other. -/
def overtaken : List (Input ℕ ℕ ℕ) :=
  .arrive (.hyparview (.join ⟨⟨[], 1⟩⟩)) :: polled 1000 ++ gossiped 0 300 :: polled 2000 ++
    polled 3100 ++ gossiped 1 200 :: polled 4000

theorem overdue_taken_iff_overtaken : ∃ (s : Session ℕ ℕ ℕ Playback)
    (tr : List (Taken (Session ℕ ℕ ℕ Playback) (Input ℕ ℕ ℕ))), Run step solo tr s ∧
      (∃ e ∈ s.node.messageBuffer.entries, Overdue (some 5100) e.2.2) ∧
      ∃ m k, s.node.processSequentialMessages (some 5100) = .ok (some m, k) := by
  have hrun : follow step solo overtaken = .ok _ := rfl
  exact ⟨_, _, Run.of_follow overtaken hrun, by decide,
    (P2PNode.overdue_taken_iff _ (some 5100)).mpr (by decide)⟩

set_option maxRecDepth 2000 in
/-- The second message is overdue, and stays in the buffer behind the third. -/
theorem overdue_blocked : ∃ (s : Session ℕ ℕ ℕ Playback)
    (tr : List (Taken (Session ℕ ℕ ℕ Playback) (Input ℕ ℕ ℕ))), Run step solo tr s ∧
      (∃ e ∈ s.node.messageBuffer.entries, Overdue (some 5100) e.2.2) ∧
      ∀ m k, s.node.processSequentialMessages (some 5100) ≠ .ok (some m, k) := by
  have hrun : follow step solo (overtaken ++ gossiped 2 150 :: polled 4900) = .ok _ := rfl
  refine ⟨_, _, Run.of_follow _ hrun, by decide, fun m k h => ?_⟩
  obtain ⟨e, he, _, hripe⟩ := P2PNode.first_of_search h
  revert hripe
  cases he
  decide

section Steps

variable [DecidableEq K] [DecidableEq A] [Rng R] {s t s₀ : Session K A M R} {i : Input K A M}
  {m : PlumtreeAppMessage K A M}

/-- The buffer that a step searches: with the message of the Deliver action that it executes. -/
def searched (s : Session K A M R) : Input K A M → BTreeMap (PlumtreeAppMessage K A M × ℕ)
  | .advance receive _ => s.delivering.elim s.node.messageBuffer
      (fun m => s.node.messageBuffer.insert m.id.timestamp (m, receive.now))
  | _ => s.node.messageBuffer

lemma first_of_step (hs : s.step i = .ok t) (hm : t.handedOut = s.handedOut ++ [m]) :
    ∃ receive now, i = .advance receive now ∧ ∃ e ∈ (s.searched i).first, e.2.1 = m ∧
      (Overdue now e.2.2 ∨ s.node.InSequence e.1) := by
  have hfound : ∀ {stage : Stage} {r : Option (PlumtreeAppMessage K A M) × P2PNode K A M R},
      (s.found stage r).handedOut = s.handedOut ++ [m] → ∃ k, r = (some m, k) := by
    intro stage r hr
    obtain ⟨_ | x, k⟩ := r
    · simp [found] at hr
    · have hx : x = m := by simpa [found] using hr
      exact ⟨k, by rw [hx]⟩
  cases stepped_of_step hs with
  | @searched b receive now r hstage hr =>
    obtain ⟨k, rfl⟩ := hfound hm
    obtain ⟨e, he, hem, hripe⟩ := P2PNode.first_of_search hr
    have hd : s.delivering = none := by simp only [delivering, hstage]
    refine ⟨receive, now, rfl, e, ?_, hem, hripe⟩
    rw [Session.searched, hd]
    exact he
  | @executed b receive now a p r hstage ha hr =>
    obtain ⟨k, rfl⟩ := hfound (r := r) hm
    cases a with
    | send d msg => cases hr
    | deliver x =>
      obtain ⟨e, he, hem, hripe⟩ := P2PNode.first_of_search hr
      have hd : s.delivering = some x := delivering_of_executed hstage ha
      refine ⟨receive, now, rfl, e, ?_, hem, hripe⟩
      rw [Session.searched, hd]
      exact he
  | _ => simp at hm

/-- Every message that is handed out has the least timestamp of the buffer; if it is the first of
all, or comes before the one handed out last, it is overdue. -/
theorem inversions_paid {nodeId : NodeId K A} {rng : R} {draws : Draws} {choices : List ℕ}
    {tr : List (Taken (Session K A M R) (Input K A M))}
    (h₀ : Session.new nodeId rng draws choices = .ok s₀) (h : Run step s₀ tr s)
    {e : Taken (Session K A M R) (Input K A M)} (he : e ∈ tr)
    (hm : e.after.handedOut = e.before.handedOut ++ [m]) :
    ∃ receive now receiveTime, e.input = .advance receive now ∧
      (m.id.timestamp, (m, receiveTime)) ∈ (e.before.searched e.input).entries ∧
      (∀ b ∈ (e.before.searched e.input).entries, m.id.timestamp ≤ b.2.1.id.timestamp) ∧
      ((∀ last ∈ e.before.handedOut.getLast?, m.id.timestamp < last.id.timestamp) →
        Overdue now receiveTime) := by
  obtain ⟨tr', hr, hs, _⟩ := h.to_before he
  have htracked : e.before.shelf.Tracked stamp := by
    refine hr.invariant (P := fun s => s.shelf.Tracked stamp)
      (fun _ _ _ ht hs => ht.step (shelf_of_step hs)) ?_
    rw [shelf_new h₀]
    exact ⟨rfl, by simp [BTreeMap.empty]⟩
  obtain ⟨receive, now, hi, ⟨k, x, time⟩, hf, rfl, hripe⟩ := first_of_step hs hm
  have hkeyed : ∀ b ∈ (e.before.searched e.input).entries, b.1 = b.2.1.id.timestamp := by
    rw [hi]
    intro b hb
    cases hd : e.before.delivering with
    | none =>
      simp only [searched, hd] at hb
      exact htracked.keyed b hb
    | some a =>
      simp only [searched, hd] at hb
      exact (htracked.put a receive.now).keyed b hb
  have hmem := BTreeMap.first_mem hf
  have hk : k = x.id.timestamp := hkeyed _ hmem
  refine ⟨receive, now, time, hi, hk ▸ hmem, ?_, ?_⟩
  · intro b hb
    rw [← hkeyed b hb, ← hk]
    exact BTreeMap.first_le hf hb
  · intro hlast
    refine hripe.resolve_right ?_
    rintro ⟨back, hback, hle⟩
    -- the back of the trimmed list is the timestamp of the message handed out last
    have hb : back ∈ e.before.handedOut.getLast?.map stamp := htracked.back_eq ▸ hback
    obtain ⟨last, hl, rfl⟩ := Option.mem_map.mp hb
    have hlt := hlast last hl
    rw [← hk] at hlt
    exact absurd hle (Nat.not_le.mpr hlt)

end Steps

/-- Node 1 sends a message, and the next poll is about to search the buffer. -/
def awaited : List (Input ℕ ℕ ℕ) :=
  .arrive (.hyparview (.join ⟨⟨[], 1⟩⟩)) :: polled 1000 ++ gossiped 0 100 :: polled 2000 ++
    [.poll none, .advance (some 3100) (some 3100)]

theorem inversions_paid_awaited : ∃ (s t : Session ℕ ℕ ℕ Playback)
    (tr : List (Taken (Session ℕ ℕ ℕ Playback) (Input ℕ ℕ ℕ))) (m : PlumtreeAppMessage ℕ ℕ ℕ),
      Run step solo (tr ++ [⟨s, .advance (some 3100) (some 3100), t⟩]) t ∧
      t.handedOut = s.handedOut ++ [m] ∧ ∃ receive now receiveTime,
        (.advance (some 3100) (some 3100) : Input ℕ ℕ ℕ) = .advance receive now ∧
        (m.id.timestamp, (m, receiveTime)) ∈
          (s.searched (.advance (some 3100) (some 3100))).entries ∧
        (∀ b ∈ (s.searched (.advance (some 3100) (some 3100))).entries,
          m.id.timestamp ≤ b.2.1.id.timestamp) ∧
        ((∀ last ∈ s.handedOut.getLast?, m.id.timestamp < last.id.timestamp) →
          Overdue now receiveTime) := by
  have hrun : follow step solo awaited = .ok _ := rfl
  have hlast := (Run.of_follow awaited hrun).next (i := .advance (some 3100) (some 3100)) rfl
  exact ⟨_, _, _, _, hlast, rfl,
    inversions_paid new_solo hlast (List.mem_append_right _ (List.mem_singleton_self _)) rfl⟩

end Session

end QuicP2p.P2p
