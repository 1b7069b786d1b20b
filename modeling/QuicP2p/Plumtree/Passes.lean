import QuicP2p.Library.Loops
import QuicP2p.Plumtree.Sends

/-! How long the loops over expired announcements run. A pass costs the items that it takes from
the queue. -/

namespace QuicP2p.Plumtree

open Library

variable {N I P : Type} [DecidableEq N] [DecidableEq I]

namespace MissingMessages

/-- A pass of the loop of `pop_expired`. -/
def Pass (clock : Clock) (m : MissingMessages N I) (taken : ℕ)
    (r : (Option (IhaveMessage N I) × MissingMessages N I) ⊕ MissingMessages N I) : Prop :=
  m.popPass clock = .ok (taken, r)

variable {m : MissingMessages N I} {clock : Clock} {k : ℕ}
  {r : Option (IhaveMessage N I) × MissingMessages N I}

omit [DecidableEq N] in
lemma length_of_popped {m' : MissingMessages N I} {ihave : IhaveMessage N I}
    (h : Popped clock m m' (some ihave)) : 0 < m.timeoutQueue.items.length := by
  cases h with
  | expired ht hw hmin =>
    have hc := congrArg Multiset.card hw
    rw [Multiset.card_cons] at hc
    have hle : m.waiting.card ≤ m.timeoutQueue.items.length := List.length_filterMap_le _ _
    omega

/-- What the loop took from the queue is what the queue lost. -/
structure Spent (m : MissingMessages N I) (k : ℕ) (found : Option (IhaveMessage N I))
    (m' : MissingMessages N I) : Prop where
  valid : m'.Valid
  load_le : k + m'.load ≤ m.load
  pos : found ≠ none → 0 < k

lemma pass_progress (h : m.Valid) :
    Progress (Pass clock) Valid (fun m k r => Spent m k r.1 r.2)
      (fun m => m.timeoutQueue.items.length) m := by
  obtain ⟨r, hr, hp⟩ := popPass_spec h clock
  cases hp with
  | nothing hlate => exact .done hr ⟨h, by simp, by simp⟩
  | expired hv hpop hrec hload =>
    exact .done hr ⟨hv, (Nat.add_comm _ _).trans_le hload, fun _ => Nat.one_pos⟩
  | leftover hv hw hrec hload hlen =>
    apply Progress.again hr hv hlen
    intro j a ha
    have hle := ha.load_le
    exact ⟨ha.valid, by omega, by omega⟩

lemma popExpired_ends (h : m.Valid) (clock : Clock) :
    ∃ k found m', Loop (Pass clock) m k (found, m') ∧ Spent m k found m' := by
  obtain ⟨k, ⟨found, m'⟩, hl, hs⟩ := Loop.of_progress (fun _ => pass_progress) h
  exact ⟨k, found, m', hl, hs⟩

/-- The number of passes that the model allows is never reached. -/
lemma popExpiredLoop_of_loop (hl : Loop (Pass clock) m k r) (h : m.Valid) {passes : ℕ}
    (hp : m.timeoutQueue.items.length ≤ passes) : popExpiredLoop clock passes m = .ok r := by
  induction hl generalizing passes with
  | done hr =>
    have hd := (popPass_spec h clock).of_ok hr
    cases passes with
    | zero =>
      cases hd with
      | nothing hlate => rfl
      | expired hv hpop hrec hload =>
        have hpos := length_of_popped hpop
        omega
    | succ passes =>
      rw [popExpiredLoop, hr]
      rfl
  | again hr hl ih =>
    cases (popPass_spec h clock).of_ok hr with
    | leftover hv hw hrec hload hlen =>
      cases passes with
      | zero => omega
      | succ passes =>
        rw [popExpiredLoop, hr]
        exact ih hv (by omega)

lemma popExpired_of_loop (hl : Loop (Pass clock) m k r) (h : m.Valid) :
    m.popExpired clock = .ok r :=
  popExpiredLoop_of_loop hl h le_rfl

end MissingMessages

namespace Node

/-- A pass of the loop of `handle_expiration`, with the loop of `pop_expired` that it runs. -/
inductive ExpirationPass (n : Node N I P) : ℕ → Node N I P ⊕ Node N I P → Prop
  | expired {k : ℕ} {ihave : IhaveMessage N I} {missings : MissingMessages N I}
      (hl : Loop (MissingMessages.Pass n.clock) n.missings k (some ihave, missings)) :
      ExpirationPass n k (.inr ({ n with missings := missings }.sendGraft ihave).2)
  | nothing {k : ℕ} {missings : MissingMessages N I}
      (hl : Loop (MissingMessages.Pass n.clock) n.missings k (none, missings)) :
      ExpirationPass n k (.inl { n with missings := missings })

/-- A pass of the loop of `handle_neighbor_down`, which ends at the first request that is sent. -/
inductive GraftPass (n : Node N I P) : ℕ → Node N I P ⊕ Node N I P → Prop
  | sent {k : ℕ} {ihave : IhaveMessage N I} {missings : MissingMessages N I}
      (hl : Loop (MissingMessages.Pass .max) n.missings k (some ihave, missings))
      (hs : ({ n with missings := missings }.sendGraft ihave).1 = true) :
      GraftPass n k (.inl ({ n with missings := missings }.sendGraft ihave).2)
  | unsent {k : ℕ} {ihave : IhaveMessage N I} {missings : MissingMessages N I}
      (hl : Loop (MissingMessages.Pass .max) n.missings k (some ihave, missings))
      (hs : ({ n with missings := missings }.sendGraft ihave).1 = false) :
      GraftPass n k (.inr ({ n with missings := missings }.sendGraft ihave).2)
  | nothing {k : ℕ} {missings : MissingMessages N I}
      (hl : Loop (MissingMessages.Pass .max) n.missings k (none, missings)) :
      GraftPass n k (.inl { n with missings := missings })

variable {id : N} {options : NodeOptions} {choices : List ℕ} {n k : Node N I P}
  {tr : List (Taken (Node N I P) (Input N I P))} {c : ℕ}

/-- A request changes nothing in the table, so the next pass starts with what the last one left. -/
lemma spent_sendGraft {ihave : IhaveMessage N I} {missings : MissingMessages N I}
    (h : MissingMessages.Spent n.missings c (some ihave) missings) :
    ∀ m, m = ({ n with missings := missings }.sendGraft ihave).2 →
      m.missings.Valid ∧ m.missings.load < n.missings.load ∧
        ∀ j, j ≤ m.missings.load → c + j ≤ n.missings.load := by
  rintro m rfl
  rw [missings_sendGraft]
  have hc := h.pos (by simp)
  have hle := h.load_le
  exact ⟨h.valid, by dsimp only; omega, fun j hj => by dsimp only at hj; omega⟩

lemma expirationPass_progress (h : n.missings.Valid) :
    Progress ExpirationPass (fun n => n.missings.Valid) (fun n c _ => c ≤ n.missings.load)
      (fun n => n.missings.load) n := by
  obtain ⟨c, found, missings, hl, hs⟩ := MissingMessages.popExpired_ends h n.clock
  cases found with
  | none => exact .done (.nothing hl) ((Nat.le_add_right _ _).trans hs.load_le)
  | some ihave =>
    obtain ⟨hv, hlt, hle⟩ := spent_sendGraft hs _ rfl
    exact .again (.expired hl) hv hlt fun j _ hj => hle j hj

lemma graftPass_progress (h : n.missings.Valid) :
    Progress GraftPass (fun n => n.missings.Valid) (fun n c _ => c ≤ n.missings.load)
      (fun n => n.missings.load) n := by
  obtain ⟨c, found, missings, hl, hs⟩ := MissingMessages.popExpired_ends h .max
  have hc := (Nat.le_add_right _ _).trans hs.load_le
  cases found with
  | none => exact .done (.nothing hl) hc
  | some ihave =>
    obtain ⟨hv, hlt, hle⟩ := spent_sendGraft hs _ rfl
    cases hsent : ({ n with missings := missings }.sendGraft ihave).1 with
    | true => exact .done (.sent hl hsent) hc
    | false => exact .again (.unsent hl hsent) hv hlt fun j _ hj => hle j hj

lemma popExpired_of_loop {clock : Clock} {r : Option (IhaveMessage N I)}
    {missings : MissingMessages N I}
    (hl : Loop (MissingMessages.Pass clock) n.missings c (r, missings)) (h : n.missings.Valid) :
    n.popExpired clock = .ok (r, { n with missings := missings }) := by
  rw [popExpired, MissingMessages.popExpired_of_loop hl h]
  rfl

lemma valid_of_popExpired {clock : Clock} {r : Option (IhaveMessage N I)} (h : n.missings.Valid)
    (hp : n.popExpired clock = .ok (r, k)) : k.missings.Valid := by
  obtain ⟨missings, rfl, hv, _⟩ := (popExpired_spec h clock).of_ok hp
  exact hv

/-- What the model's loop returns is what the loop ends with. -/
lemma handleExpirationLoop_eq (hl : Loop ExpirationPass n c k) (h : n.missings.Valid)
    {passes : ℕ} {m : Node N I P} (hm : handleExpirationLoop passes n = .ok m) : m = k := by
  induction hl generalizing passes with
  | done hp =>
    cases passes with
    | zero => cases hm
    | succ passes =>
      cases hp with
      | nothing hl =>
        rw [handleExpirationLoop, popExpired_of_loop hl h] at hm
        cases hm
        rfl
  | again hp _ ih =>
    cases passes with
    | zero => cases hm
    | succ passes =>
      cases hp with
      | expired hl =>
        have hpop := popExpired_of_loop hl h
        rw [handleExpirationLoop, hpop] at hm
        apply ih _ hm
        rw [missings_sendGraft]
        exact valid_of_popExpired h hpop

lemma graftLoop_eq (hl : Loop GraftPass n c k) (h : n.missings.Valid)
    {passes : ℕ} {m : Node N I P} (hm : graftLoop passes n = .ok m) : m = k := by
  induction hl generalizing passes with
  | done hp =>
    cases passes with
    | zero => cases hm
    | succ passes =>
      cases hp with
      | nothing hl =>
        rw [graftLoop, popExpired_of_loop hl h] at hm
        cases hm
        rfl
      | sent hl hs =>
        rw [graftLoop, popExpired_of_loop hl h, ok_bind] at hm
        dsimp only at hm
        rw [if_pos hs] at hm
        cases hm
        rfl
  | again hp _ ih =>
    cases passes with
    | zero => cases hm
    | succ passes =>
      cases hp with
      | unsent hl hs =>
        have hpop := popExpired_of_loop hl h
        rw [graftLoop, hpop, ok_bind] at hm
        dsimp only at hm
        rw [if_neg (by simp [hs])] at hm
        apply ih _ hm
        rw [missings_sendGraft]
        exact valid_of_popExpired h hpop

lemma handleExpiration_ends (h : n.missings.Valid) :
    ∃ c k, Loop ExpirationPass n c k ∧ c ≤ n.missings.load ∧ n.handleExpiration = .ok k := by
  obtain ⟨c, k, hl, hc⟩ := Loop.of_progress (P := fun n : Node N I P => n.missings.Valid)
    (fun _ => expirationPass_progress) h
  obtain ⟨m, hm, _⟩ := handleExpiration_spec h
  exact ⟨c, k, hl, hc, hm.trans (congrArg _ (handleExpirationLoop_eq hl h hm))⟩

/-- The loop of a departure starts when no eager peer is left. -/
lemma handleNeighborDown_ends (h : n.missings.Valid) (x : N) :
    ∃ c k, Loop GraftPass (n.dropPeer x) c k ∧ c ≤ n.missings.load ∧
      n.handleNeighborDown x = .ok
        (if n.isKnownNode x then
          if (n.dropPeer x).eagerPushPeers.isEmpty then k else n.dropPeer x
        else n) := by
  obtain ⟨c, k, hl, hc⟩ := Loop.of_progress (P := fun n : Node N I P => n.missings.Valid)
    (s := n.dropPeer x) (fun _ => graftPass_progress) h
  refine ⟨c, k, hl, hc, ?_⟩
  obtain ⟨m, hm, _⟩ := graftLoop_spec (n := n.dropPeer x) h waiting_card_lt
  have heq := graftLoop_eq hl h hm
  subst heq
  unfold handleNeighborDown
  split
  · dsimp only
    split
    · exact hm
    · rfl
  · rfl

/-- Draining expired announcements ends, and takes no more items from the queue than it holds with
those that its announcements leave in it. -/
theorem draining_ends (h : Run step (withOptions id options choices) tr n) (clock : Clock) :
    (∃ c r, Loop (MissingMessages.Pass clock) n.missings c r ∧
      c ≤ 2 * n.missings.queuedMessages + n.missings.queuedEntries ∧
      n.missings.popExpired clock = .ok r) ∧
    (∃ c k, Loop ExpirationPass { n with clock := clock } c k ∧
      c ≤ 2 * n.missings.queuedMessages + n.missings.queuedEntries ∧
      handleExpiration { n with clock := clock } = .ok k) ∧
    ∀ x, ∃ c k, Loop GraftPass (n.dropPeer x) c k ∧
      c ≤ 2 * n.missings.queuedMessages + n.missings.queuedEntries ∧
      n.handleNeighborDown x = .ok
        (if n.isKnownNode x then
          if (n.dropPeer x).eagerPushPeers.isEmpty then k else n.dropPeer x
        else n) := by
  have hv := valid_of_run h
  refine ⟨?_, handleExpiration_ends (n := { n with clock := clock }) hv, handleNeighborDown_ends hv⟩
  obtain ⟨c, found, missings, hl, hs⟩ := MissingMessages.popExpired_ends hv clock
  exact ⟨c, _, hl, (Nat.le_add_right _ _).trans hs.load_le,
    MissingMessages.popExpired_of_loop hl hv⟩

/-- Two peers announce a message. Peer 1 is the last eager one. -/
def announcedTwice : List (Input ℕ ℕ ℕ) :=
  [.call (.handleNeighborUp 1), .call (.handleNeighborUp 2), .receive (.prune ⟨2⟩),
    .receive (.ihave ⟨1, 7, 0, false⟩), .receive (.ihave ⟨2, 7, 0, false⟩)]

theorem draining_ends_twice : ∃ (n : Node ℕ ℕ ℕ) (tr : List (Taken (Node ℕ ℕ ℕ) (Input ℕ ℕ ℕ))),
    Run step (.new 0 []) tr n ∧ n.missings.queuedMessages = 2 ∧ n.missings.queuedEntries = 0 ∧
      ∃ c k, Loop GraftPass (n.dropPeer 1) c k ∧ c ≤ 4 ∧ n.handleNeighborDown 1 = .ok k ∧
        .send 2 (.graft ⟨0, some 7, 0⟩) ∈ k.actions := by
  have hrun : follow step (.new 0 []) announcedTwice = .ok _ := rfl
  obtain ⟨_, _, hdown⟩ := draining_ends (Run.of_follow announcedTwice hrun) .max
  obtain ⟨c, k, hl, hc, hk⟩ := hdown 1
  refine ⟨_, _, Run.of_follow _ hrun, by decide, by decide, c, k, hl, hc, hk, ?_⟩
  cases hk
  decide

end Node

end QuicP2p.Plumtree
