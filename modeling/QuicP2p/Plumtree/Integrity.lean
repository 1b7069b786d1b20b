import QuicP2p.Plumtree.Cluster

/-! Messages are stored, carried and delivered as they were broadcast, and delivered once. -/

namespace QuicP2p.Plumtree

open Library

variable {N I P : Type} [DecidableEq N] [DecidableEq I]

omit [DecidableEq N] in
lemma Node.WellFormed.congr {n m : Node N I P} (h : n.WellFormed)
    (hm : m.messages = n.messages) (hs : m.missings = n.missings) : m.WellFormed where
  valid := hs ▸ h.valid
  recorded i hi := by
    rw [Node.Holds, hm]
    exact h.recorded i (hs ▸ hi)

omit [DecidableEq N] in
lemma Node.mem_arrived {n : Node N I P} {input : Option (ProtocolMessage N I P)}
    {x : Message I P} (h : x ∈ n.arrived input) :
    ∃ g, input = some (.gossip g) ∧ x = g.message ∧ ¬ n.Holds x.id := by
  unfold Node.arrived at h
  split at h
  next g =>
    split_ifs at h with hg
    · simp at h
    · rw [List.mem_singleton] at h
      exact ⟨g, rfl, h, h ▸ mt HashMap.containsKey_iff.mpr hg⟩
  next => simp at h

/-- The moves of a network whose applications keep the messages they got. -/
def Keeping : Move N (Call N I P) → Prop
  | .call _ c => c.Keeping
  | _ => True

/-- The Deliver actions that a node has queued since the start, executed or not. -/
def delivers (p : N) (tr : List (Taken (Cluster N I P) (Move N (Call N I P))))
    (w : Cluster N I P) : List (Message I P) :=
  (tr.flatMap (executed p) ++ (w.node p).actions).filterMap Action.delivered

namespace Cluster

/-- Whatever is stored, recorded or on its way was broadcast, and a payload comes from a node
that has it. -/
structure Sound (ids : Finset N) (bs : List (Message I P)) (w : Cluster N I P) : Prop where
  wellFormed : ∀ p ∈ ids, (w.node p).WellFormed
  id_eq : ∀ p ∈ ids, (w.node p).id = p
  stored : ∀ p ∈ ids, ∀ i x, (w.node p).messages.get i = some x → ⟨i, x⟩ ∈ bs
  recorded : ∀ p ∈ ids, ∀ i, (w.node p).missings.Recorded i → ∃ x, ⟨i, x⟩ ∈ bs
  gossiped : ∀ d g, (d, .gossip g) ∈ sent ids w →
    g.message ∈ bs ∧ g.sender ∈ ids ∧ (w.node g.sender).Holds g.message.id
  announced : ∀ d h, (d, .ihave h) ∈ sent ids w → ∃ x, ⟨h.messageId, x⟩ ∈ bs

variable {ids : Finset N} {w w' : Cluster N I P} {mv : Move N (Call N I P)}
  {bs bs' : List (Message I P)} {p : N} {m : Node N I P}
  {input : Option (ProtocolMessage N I P)} {acts : List (Action N I P)}
  {used : Multiset (N × ProtocolMessage N I P)}
  {tr : List (Taken (Cluster N I P) (Move N (Call N I P)))}

lemma Sound.arrived (h : Sound ids bs w) (hm : Moved ids w w' mv p m input acts used)
    {x : Message I P} (hx : x ∈ (w.node p).arrived input) :
    x ∈ bs ++ (broadcastOf ids mv).toList := by
  obtain ⟨g, hg, rfl, _⟩ := Node.mem_arrived hx
  cases hm.trigger with
  | internal => simp at hg
  | broadcast hp b =>
    cases hg
    simp [broadcastOf, hp]
  | arrival hb hin hs =>
    cases hg
    exact List.mem_append_left _ (h.gossiped _ _ hin).1

lemma Sound.moved (h : Sound ids bs w) (hm : Moved ids w w' mv p m input acts used) :
    Sound ids (bs ++ (broadcastOf ids mv).toList) w' := by
  have hold : ∀ x ∈ bs, x ∈ bs ++ (broadcastOf ids mv).toList := fun x hx =>
    List.mem_append_left _ hx
  obtain ⟨hid, hmessages, hmissings, _⟩ := hm.same
  have hstored : ∀ i x, m.messages.get i = some x → ⟨i, x⟩ ∈ bs ++ (broadcastOf ids mv).toList := by
    intro i x hx
    rcases (hm.effect.stored i x).mp hx with hx | hx
    · exact hold _ (h.stored p hm.mem i x hx)
    · exact h.arrived hm hx
  refine ⟨?_, ?_, ?_, ?_, ?_, ?_⟩
  · intro q hq
    by_cases hqp : q = p
    · subst hqp
      exact (hm.effect.wellFormed (h.wellFormed q hq)).congr hmessages hmissings
    · rw [(hm.others q hqp).1]
      exact h.wellFormed q hq
  · intro q hq
    by_cases hqp : q = p
    · subst hqp
      rw [hid, hm.effect.id_eq, h.id_eq q hq]
    · rw [(hm.others q hqp).1, h.id_eq q hq]
  · intro q hq i x hx
    by_cases hqp : q = p
    · subst hqp
      exact hstored i x (hmessages ▸ hx)
    · rw [(hm.others q hqp).1] at hx
      exact hold _ (h.stored q hq i x hx)
  · intro q hq i hi
    by_cases hqp : q = p
    · subst hqp
      rw [hmissings] at hi
      rcases hm.effect.recorded i hi with hi | ⟨⟨a, ha, rfl⟩, _⟩
      · obtain ⟨x, hx⟩ := h.recorded q hq i hi
        exact ⟨x, hold _ hx⟩
      · cases hm.trigger with
        | internal => simp at ha
        | broadcast hp b => simp at ha
        | arrival hb hin hs =>
          cases ha
          obtain ⟨x, hx⟩ := h.announced _ _ hin
          exact ⟨x, hold _ hx⟩
    · rw [(hm.others q hqp).1] at hi
      obtain ⟨x, hx⟩ := h.recorded q hq i hi
      exact ⟨x, hold _ hx⟩
  · intro d g hg
    rcases hm.sent_cases hg with hg | hg
    · obtain ⟨hb, hs, hh⟩ := h.gossiped d g hg
      exact ⟨hold _ hb, hs, hm.holds hh⟩
    · have hcarried := hm.effect.carried d g hg
      have hs : g.sender = p := (hm.effect.signed d _ hg).trans (h.id_eq p hm.mem)
      refine ⟨hstored _ _ hcarried, hs ▸ hm.mem, ?_⟩
      rw [hs]
      exact hm.holds_self.mpr ⟨_, hcarried⟩
  · intro d a ha
    rcases hm.sent_cases ha with ha | ha
    · obtain ⟨x, hx⟩ := h.announced d a ha
      exact ⟨x, hold _ hx⟩
    · obtain ⟨x, hx⟩ := hm.effect.held d a ha
      exact ⟨x, hstored _ _ hx⟩

lemma Sound.still (h : Sound ids bs w) (hs : Still ids w w' mv) : Sound ids bs w' where
  wellFormed := by
    rw [hs.node_eq]
    exact h.wellFormed
  id_eq := by
    rw [hs.node_eq]
    exact h.id_eq
  stored := by
    rw [hs.node_eq]
    exact h.stored
  recorded := by
    rw [hs.node_eq]
    exact h.recorded
  gossiped d g hg := by
    rw [hs.node_eq]
    exact h.gossiped d g (Multiset.mem_of_le hs.sent_le hg)
  announced d a ha := h.announced d a (Multiset.mem_of_le hs.sent_le ha)

lemma Sound.cases (h : Sound ids bs w) (hs : Network.step protocol ids w mv = .ok w')
    (hkeep : Keeping mv)
    (hfresh : ((bs ++ (broadcastOf ids mv).toList).map Message.id).Nodup) :
    (∃ p m input acts used, Moved ids w w' mv p m input acts used) ∨ Still ids w w' mv := by
  refine moved_of_step hs h.wellFormed (fun p c hc => by simpa [hc, Keeping] using hkeep) ?_
  rintro p hp m rfl
  have hnew : ∀ x, (⟨m.id, x⟩ : Message I P) ∉ bs := by
    intro x hx
    rw [broadcastOf, if_pos hp, List.map_append, List.nodup_append] at hfresh
    exact hfresh.2.2 m.id (List.mem_map.mpr ⟨_, hx, rfl⟩) m.id (by simp) rfl
  refine ⟨?_, ?_⟩
  · rintro ⟨x, hx⟩
    exact hnew x (h.stored p hp m.id x hx)
  · intro hr
    obtain ⟨x, hx⟩ := h.recorded p hp m.id hr
    exact hnew x hx

omit [DecidableEq N] in
lemma fresh_sound (options : N → NodeOptions) (choices : N → List ℕ) :
    Sound ids [] (fresh options choices : Cluster N I P) where
  wellFormed p _ := Node.withOptions_wellFormed p (options p) (choices p)
  id_eq p _ := rfl
  stored p _ i x hx := by simp [fresh, Node.withOptions] at hx
  recorded p _ i hi := by
    simp [fresh, Node.withOptions, MissingMessages.Recorded, MissingMessages.new] at hi
  gossiped d g hg := by
    simp [Network.mem_transit, fresh, Node.withOptions, Node.queued] at hg
  announced d a ha := by
    simp [Network.mem_transit, fresh, Node.withOptions, Node.queued] at ha

omit [DecidableEq I] in
lemma broadcasts_concat (e : Taken (Cluster N I P) (Move N (Call N I P))) :
    broadcasts ids (tr ++ [e]) = broadcasts ids tr ++ (broadcastOf ids e.input).toList := by
  rw [broadcasts, List.filterMap_append, broadcasts]
  cases h : broadcastOf ids e.input <;> simp [h]

lemma delivers_concat (e : Taken (Cluster N I P) (Move N (Call N I P))) :
    delivers p (tr ++ [e]) w' =
      (tr.flatMap (executed p)).filterMap Action.delivered ++
        (executed p e ++ (w'.node p).actions).filterMap Action.delivered := by
  simp [delivers]

/-- What a node has delivered is what it holds, and each message once. -/
structure Logged (ids : Finset N) (tr : List (Taken (Cluster N I P) (Move N (Call N I P))))
    (w : Cluster N I P) : Prop where
  nodup : ∀ p ∈ ids, ((delivers p tr w).map Message.id).Nodup
  stored : ∀ p ∈ ids, ∀ i x, (w.node p).messages.get i = some x ↔ ⟨i, x⟩ ∈ delivers p tr w

lemma delivers_moved (hm : Moved ids w w' mv p m input acts used) :
    delivers p (tr ++ [⟨w, mv, w'⟩]) w' = delivers p tr w ++ (w.node p).arrived input := by
  obtain ⟨rest, hself, hrest⟩ := hm.self
  have hacts : (w'.node p).actions = rest := by rw [hself]
  rw [delivers_concat, hacts, hrest, List.filterMap_append, hm.effect.delivered,
    ← List.append_assoc, ← List.filterMap_append, delivers]

lemma delivers_same {q : N} (hacts : (w'.node q).actions = (w.node q).actions)
    (hq : executed q ⟨w, mv, w'⟩ = []) :
    delivers q (tr ++ [⟨w, mv, w'⟩]) w' = delivers q tr w := by
  rw [delivers_concat, hq, hacts, List.nil_append, ← List.filterMap_append, delivers]

lemma Logged.moved (h : Logged ids tr w) (hm : Moved ids w w' mv p m input acts used) :
    Logged ids (tr ++ [⟨w, mv, w'⟩]) w' := by
  have hsame : ∀ q, q ≠ p → delivers q (tr ++ [⟨w, mv, w'⟩]) w' = delivers q tr w := by
    intro q hq
    obtain ⟨hn, hx⟩ := hm.others q hq
    exact delivers_same (by rw [hn]) hx
  constructor
  · intro q hq
    by_cases hqp : q = p
    · subst hqp
      rw [delivers_moved hm, List.map_append, List.nodup_append]
      refine ⟨h.nodup q hq, ?_, ?_⟩
      · unfold Node.arrived
        split
        · split <;> simp
        · simp
      · intro a ha b hb hab
        obtain ⟨⟨i, x⟩, hx, rfl⟩ := List.mem_map.mp ha
        obtain ⟨y, hy, rfl⟩ := List.mem_map.mp hb
        obtain ⟨_, _, _, hnew⟩ := Node.mem_arrived hy
        exact hnew (hab ▸ ⟨x, (h.stored q hq i x).mpr hx⟩)
    · rw [hsame q hqp]
      exact h.nodup q hq
  · intro q hq i x
    by_cases hqp : q = p
    · subst hqp
      rw [delivers_moved hm, List.mem_append, hm.same.2.1, hm.effect.stored, h.stored q hq]
    · rw [hsame q hqp, (hm.others q hqp).1]
      exact h.stored q hq i x

lemma Logged.still (h : Logged ids tr w) (hs : Still ids w w' mv) :
    Logged ids (tr ++ [⟨w, mv, w'⟩]) w' := by
  have hsame : ∀ q ∈ ids, delivers q (tr ++ [⟨w, mv, w'⟩]) w' = delivers q tr w :=
    fun q hq => delivers_same (by rw [hs.node_eq]) (hs.executed_eq q hq)
  constructor
  · intro q hq
    rw [hsame q hq]
    exact h.nodup q hq
  · intro q hq i x
    rw [hsame q hq, hs.node_eq]
    exact h.stored q hq i x

lemma sound_of_run {w₀ : Cluster N I P} (h₀ : Sound ids [] w₀) (hl : Logged ids [] w₀)
    (h : Run (Network.step protocol ids) w₀ tr w) (hkeep : ∀ e ∈ tr, Keeping e.input)
    (hfresh : ((broadcasts ids tr).map Message.id).Nodup) :
    Sound ids (broadcasts ids tr) w ∧ Logged ids tr w := by
  refine h.history (P := fun tr w => (∀ e ∈ tr, Keeping e.input) →
    ((broadcasts ids tr).map Message.id).Nodup → Sound ids (broadcasts ids tr) w ∧ Logged ids tr w)
    ?_ (fun _ _ => ⟨h₀, hl⟩) hkeep hfresh
  intro tr w mv w' ih hs hkeep hfresh
  rw [broadcasts_concat] at hfresh ⊢
  have hprefix : ((broadcasts ids tr).map Message.id).Nodup := by
    rw [List.map_append] at hfresh
    exact hfresh.of_append_left
  obtain ⟨hw, hl⟩ := ih (fun e he => hkeep e (List.mem_append_left _ he)) hprefix
  rcases hw.cases hs (hkeep ⟨w, mv, w'⟩ (by simp)) hfresh with
    ⟨p, m, input, acts, used, hm⟩ | hstill
  · exact ⟨hw.moved hm, hl.moved hm⟩
  · rw [hstill.silent]
    exact ⟨by simpa using hw.still hstill, hl.still hstill⟩

lemma held_of_run {w₀ : Cluster N I P} (h₀ : Sound ids [] w₀) (hl : Logged ids [] w₀)
    (h : Run (Network.step protocol ids) w₀ tr w) (hkeep : ∀ e ∈ tr, Keeping e.input)
    (hfresh : ((broadcasts ids tr).map Message.id).Nodup) :
    ∀ m ∈ broadcasts ids tr, ∃ p ∈ ids, (w.node p).Holds m.id := by
  induction h with
  | start => simp [broadcasts]
  | @next tr w w' mv hr hs ih =>
    have hkeep' : ∀ e ∈ tr, Keeping e.input := fun e he => hkeep e (List.mem_append_left _ he)
    rw [broadcasts_concat] at hfresh ⊢
    have hprefix : ((broadcasts ids tr).map Message.id).Nodup := by
      rw [List.map_append] at hfresh
      exact hfresh.of_append_left
    have hw := (sound_of_run h₀ hl hr hkeep' hprefix).1
    intro b hb
    rcases hw.cases hs (hkeep ⟨w, mv, w'⟩ (by simp)) hfresh with ⟨p, m, _, _, _, hm⟩ | hstill
    · rcases List.mem_append.mp hb with hb | hb
      · obtain ⟨q, hq, hh⟩ := ih hkeep' hprefix b hb
        exact ⟨q, hq, hm.holds hh⟩
      · have hb : broadcastOf ids mv = some b := by simpa using hb
        cases hm.trigger with
        | internal hn => simp [hn] at hb
        | broadcast hp b' =>
          simp only [broadcastOf, if_pos hp, Option.some.injEq] at hb
          subst hb
          exact ⟨p, hp, hm.holds_self.mpr (hm.effect.answered _ rfl)⟩
        | arrival hn => simp [hn] at hb
    · rw [hstill.silent, Option.toList_none, List.append_nil] at hb
      rw [hstill.node_eq]
      exact ih hkeep' hprefix b hb

lemma fresh_logged (options : N → NodeOptions) (choices : N → List ℕ) :
    Logged ids [] (fresh options choices : Cluster N I P) where
  nodup p _ := by simp [delivers, fresh, Node.withOptions]
  stored p _ i x := by simp [delivers, fresh, Node.withOptions]

/-- Each node delivers a message at most once, delivers exactly what it holds, and delivers it
with the payload it was broadcast with, whatever the network loses, repeats or reorders. -/
theorem delivered_once {options : N → NodeOptions} {choices : N → List ℕ}
    (h : Run (Network.step protocol ids) (fresh options choices) tr w)
    (hkeep : ∀ e ∈ tr, Keeping e.input) (hfresh : ((broadcasts ids tr).map Message.id).Nodup)
    (hp : p ∈ ids) :
    ((delivers p tr w).map Message.id).Nodup ∧
      (∀ i, i ∈ (delivers p tr w).map Message.id ↔ ∃ x, (w.node p).messages.get i = some x) ∧
      ∀ m ∈ delivers p tr w, m ∈ broadcasts ids tr := by
  obtain ⟨hw, hl⟩ := sound_of_run (fresh_sound options choices) (fresh_logged options choices)
    h hkeep hfresh
  refine ⟨hl.nodup p hp, fun i => ?_, fun m hm => ?_⟩
  · simp only [hl.stored p hp, List.mem_map]
    constructor
    · rintro ⟨⟨j, x⟩, hx, rfl⟩
      exact ⟨x, hx⟩
    · rintro ⟨x, hx⟩
      exact ⟨_, hx, rfl⟩
  · exact hw.stored p hp m.id m.payload ((hl.stored p hp m.id m.payload).mpr hm)

/-- Node 0 broadcasts to node 1, which gets the message twice. -/
def repeated : List (Move ℕ (Call ℕ ℕ ℕ)) :=
  [.call 0 (.handleNeighborUp 1), .call 1 (.handleNeighborUp 0),
    .call 0 (.broadcastMessage ⟨7, 70⟩), .poll 0, .poll 0, .duplicate 0, .deliver 0, .poll 1,
    .poll 1, .lose 0]

theorem delivered_once_repeated :
    ∃ (tr : List (Taken (Cluster ℕ ℕ ℕ) (Move ℕ (Call ℕ ℕ ℕ)))) (w : Cluster ℕ ℕ ℕ),
      Run (Network.step protocol {0, 1}) (fresh (fun _ => {}) (fun _ => [])) tr w ∧
        delivers 1 tr w = [⟨7, 70⟩] ∧ ((delivers 1 tr w).map Message.id).Nodup ∧
        ∀ m ∈ delivers 1 tr w, m ∈ broadcasts {0, 1} tr := by
  have hrun : follow (Network.step protocol {0, 1})
      (fresh (fun _ => {}) (fun _ => [])) repeated = .ok _ := rfl
  refine ⟨_, _, Run.of_follow repeated hrun, rfl, ?_⟩
  have h := delivered_once (p := 1) (Run.of_follow repeated hrun)
    (Run.inputs_of_follow repeated hrun (by simp [repeated, Keeping, Call.Keeping])) (by decide)
    (by decide)
  exact ⟨h.1, h.2.2⟩

end Cluster

end QuicP2p.Plumtree
