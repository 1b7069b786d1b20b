import QuicP2p.Library.Network
import QuicP2p.Library.Runs

/-! Networks whose nodes run the parties of another protocol: they hold its messages back before
they send them, and again after they have arrived. -/

namespace QuicP2p.Library

section Covers

variable {α : Type} {f t t' : Multiset α} {a : α}

/-- The same messages, of which `t` may have more copies. -/
def Covers (f t : Multiset α) : Prop := f ≤ t ∧ ∀ x ∈ t, x ∈ f

lemma Covers.refl (f : Multiset α) : Covers f f := ⟨le_rfl, fun _ h => h⟩

lemma Covers.add (h : Covers f t) (s : Multiset α) : Covers (f + s) (t + s) := by
  refine ⟨add_le_add_left h.1 s, fun x hx => ?_⟩
  rw [Multiset.mem_add] at hx ⊢
  exact hx.imp_left (h.2 x)

lemma Covers.again (h : Covers f t) (ha : a ∈ t) : Covers f (t + {a}) := by
  refine ⟨h.1.trans (Multiset.le_add_right _ _), fun x hx => ?_⟩
  rcases Multiset.mem_add.mp hx with hx | hx
  · exact h.2 x hx
  · exact h.2 x (Multiset.mem_singleton.mp hx ▸ ha)

/-- A copy goes: either another one stays, or the last goes on both sides. -/
lemma Covers.shrink (h : Covers f t) (ht : {a} + t' = t) :
    Covers f t' ∨ ∃ g, f = a ::ₘ g ∧ Covers g t' := by
  classical
  subst ht
  rw [Multiset.singleton_add] at h
  by_cases ha : f.count a ≤ t'.count a
  · refine .inl ⟨Multiset.le_iff_count.mpr fun x => ?_, fun x hx => ?_⟩
    · by_cases hx : x = a
      · rwa [hx]
      · have hle := Multiset.count_le_of_le x h.1
        rwa [Multiset.count_cons_of_ne hx] at hle
    · exact h.2 x (Multiset.mem_cons_of_mem hx)
  · have hmem : a ∈ f := h.2 a (Multiset.mem_cons_self a t')
    refine .inr ⟨f.erase a, (Multiset.cons_erase hmem).symm,
      Multiset.erase_le_iff_le_cons.mpr h.1, fun x hx => ?_⟩
    by_cases hxa : x = a
    · subst hxa
      have hpos := Multiset.count_pos.mpr hx
      have herase := Multiset.count_erase_self x f
      apply Multiset.count_pos.mp
      omega
    · exact (Multiset.mem_erase_of_ne hxa).mpr (h.2 x (Multiset.mem_cons_of_mem hx))

end Covers

section FilterMap

variable {α β : Type} (f : α → Option β)

lemma filterMap_toList (o : Option α) : o.toList.filterMap f = (o.bind f).toList := by
  cases o with
  | none => rfl
  | some a => cases ha : f a <;> simp [ha]

lemma filterMap_cons_toList (a : α) (l : List α) :
    (a :: l).filterMap f = (f a).toList ++ l.filterMap f := by
  cases ha : f a <;> simp [ha]

lemma coe_filterMap_cons (a : α) (l : List α) :
    (↑((a :: l).filterMap f) : Multiset β) = ↑(f a).toList + ↑(l.filterMap f) := by
  rw [filterMap_cons_toList, Multiset.coe_add]

end FilterMap

variable {ε ε' I S M C T N D : Type}

/-- What a host does to its guest in one step: it calls it, takes an action from it, or hands it a
message. -/
inductive Deed (I M C : Type)
  | call (cs : List C)
  | poll (out : Option (I × M))
  | receive (m : M)

namespace Deed

/-- The messages that a deed of the host at `p` uses up. -/
def taken (p : I) : Deed I M C → Multiset (I × M)
  | .receive m => {(p, m)}
  | _ => 0

/-- The messages that a deed brings. -/
def given : Deed I M C → Multiset (I × M)
  | .poll out => ↑out.toList
  | _ => 0

def calls : Deed I M C → List C
  | .call cs => cs
  | _ => []

def Does (P : Protocol ε I S M C) (s : S) : Deed I M C → S → Prop
  | .call cs, t => cs.foldlM P.call s = .ok t
  | .poll out, t => P.poll s = .ok (out, t)
  | .receive m, t => P.receive s m = .ok t

end Deed

/-- How a node of one network hosts a party of another. -/
structure Hosting (I S M T N : Type) where
  guest : T → S
  /-- The message of the guest that a message of the host carries. -/
  carried : N → Option M
  /-- The messages of the guests that the host has not sent yet, or not handed on. -/
  stored : T → Multiset (I × M)

namespace Hosting

variable [DecidableEq I] (h : Hosting I S M T N) (ids : Finset I)

def mail (e : I × N) : Option (I × M) := (h.carried e.2).map (e.1, ·)

/-- The messages of the guests that are on their way. -/
def waiting (w : Network I T N) : Multiset (I × M) :=
  Network.transit h.stored ids ⟨w.node, w.flight.filterMap h.mail⟩

/-- The network of the guests, in which a message is in flight until its host hands it on. -/
structure Hosted (w : Network I T N) (v : Network I S M) : Prop where
  node_eq : ∀ p ∈ ids, v.node p = h.guest (w.node p)
  covers : Covers ↑v.flight (h.waiting ids w)

/-- The steps of the guests that a deed of the host at `p` comes to. -/
def Traced (p : I) (v v' : Network I S M) :
    Deed I M C → List (Taken (Network I S M) (Move I C)) → Prop
  | .call cs, tr => tr.map Taken.input = cs.map (.call p)
  | .poll _, tr => tr = [⟨v, .poll p, v'⟩]
  | .receive m, tr => ∃ mv, tr = [⟨v, mv, v'⟩] ∧ Network.Arrival v mv p m

/-- The steps of the guests that a step of the hosts comes to. -/
inductive Shadows (Did : T → D → Deed I M C → T → Prop) (w w' : Network I T N)
    (v v' : Network I S M) : Move I D → List (Taken (Network I S M) (Move I C)) → Prop
  | acted {p : I} {d : D} {deed : Deed I M C} {tr : List (Taken (Network I S M) (Move I C))}
      (hp : p ∈ ids) (hd : Did (w.node p) d deed (w'.node p)) (ht : Traced p v v' deed tr)
      (hn : ∀ q, q ≠ p → w'.node q = w.node q) : Shadows Did w w' v v' (.call p d) tr
  | idle {mv : Move I D} (hmv : ∀ p d, mv = .call p d → p ∉ ids) : Shadows Did w w' v v' mv []
  | discarded {mv : Move I D} {i : ℕ} {d : I} {m : M} (hmv : ∀ p d, mv ≠ .call p d) (hd : d ∉ ids)
      (hi : v.flight[i]? = some (d, m)) :
      Shadows Did w w' v v' mv [⟨v, .deliver i, v'⟩]
  | lost {i j : ℕ} {d : I} {n : N} {m : M} (hi : w.flight[i]? = some (d, n))
      (hn : h.carried n = some m) (hj : v.flight[j]? = some (d, m)) :
      Shadows Did w w' v v' (.lose i) [⟨v, .lose j, v'⟩]

/-- The hosts keep an account of the messages of their guests. -/
structure Hosts (P : Protocol ε I S M C) (H : Protocol ε' I T N D) (Inv : I → T → Prop)
    (Ok : D → Prop) (Did : T → D → Deed I M C → T → Prop) : Prop where
  call : ∀ {p s d t}, Inv p s → Ok d → H.call s d = .ok t → ∃ deed, Did s d deed t ∧
    deed.Does P (h.guest s) (h.guest t) ∧ deed.taken p + h.stored t = h.stored s + deed.given
  poll : ∀ {p s out t}, Inv p s → H.poll s = .ok (out, t) →
    h.guest t = h.guest s ∧ ↑(out.bind h.mail).toList + h.stored t = h.stored s
  receive : ∀ {p s n t}, Inv p s → H.receive s n = .ok t →
    h.guest t = h.guest s ∧ h.stored t = h.stored s + ↑(h.mail (p, n)).toList

variable {h ids} {P : Protocol ε I S M C} {H : Protocol ε' I T N D} {w w' : Network I T N}
  {v : Network I S M} {p : I} {t : T}

omit [DecidableEq I] in
lemma mem_waiting {e : I × M} : e ∈ h.waiting ids w ↔
    (∃ n, (e.1, n) ∈ w.flight ∧ h.carried n = some e.2) ∨ ∃ p ∈ ids, e ∈ h.stored (w.node p) := by
  rw [waiting, Network.mem_transit]
  refine or_congr_left ?_
  obtain ⟨d, m⟩ := e
  simp only [List.mem_filterMap, mail, Option.map_eq_some_iff, Prod.mk.injEq]
  constructor
  · rintro ⟨⟨d', n⟩, hn, m', hm, rfl, rfl⟩
    exact ⟨n, hn, hm⟩
  · rintro ⟨n, hn, hm⟩
    exact ⟨(d, n), hn, m, hm, rfl, rfl⟩

omit [DecidableEq I] in
variable (h ids) in
lemma exists_hosted (w : Network I T N) : ∃ v : Network I S M, h.Hosted ids w v ∧
    (∀ p, v.node p = h.guest (w.node p)) ∧ ∀ e, e ∈ v.flight ↔ e ∈ h.waiting ids w := by
  obtain ⟨f, hf⟩ := Quot.exists_rep (h.waiting ids w)
  have hf : (↑f : Multiset (I × M)) = h.waiting ids w := hf
  refine ⟨⟨fun p => h.guest (w.node p), f⟩, ⟨fun p _ => rfl, ?_⟩, fun p => rfl, fun e => ?_⟩
  · change Covers (f : Multiset (I × M)) _
    rw [hf]
    exact .refl _
  · rw [← hf]
    exact Multiset.mem_coe.symm

omit [DecidableEq I] in
lemma Hosted.mem_flight {v : Network I S M} (hv : h.Hosted ids w v) (e : I × M) :
    e ∈ v.flight ↔ e ∈ h.waiting ids w := by
  constructor
  · exact fun he => Multiset.mem_of_le hv.covers.1 (Multiset.mem_coe.mpr he)
  · exact fun he => Multiset.mem_coe.mp (hv.covers.2 e he)

lemma waiting_update (hp : p ∈ ids) {f : List (I × N)} {a b : Multiset (I × M)}
    (hu : a + (↑(f.filterMap h.mail) + h.stored t) =
      ↑(w.flight.filterMap h.mail) + h.stored (w.node p) + b) :
    a + h.waiting ids { w.update p t with flight := f } = h.waiting ids w + b :=
  Network.transit_update (w := ⟨w.node, w.flight.filterMap h.mail⟩) hp hu

lemma guest_update (hv : ∀ p ∈ ids, v.node p = h.guest (w.node p)) {s : S}
    (hs : s = h.guest t) {f : List (I × N)} {g : List (I × M)} :
    ∀ q ∈ ids, ({ v.update p s with flight := g } : Network I S M).node q =
      h.guest (({ w.update p t with flight := f } : Network I T N).node q) := by
  intro q hq
  dsimp only
  rw [Network.node_update, Network.node_update]
  split
  · exact hs
  · exact hv q hq

lemma guest_still (hv : ∀ p ∈ ids, v.node p = h.guest (w.node p))
    (hg : h.guest t = h.guest (w.node p)) {f : List (I × N)} :
    ∀ q ∈ ids, v.node q = h.guest (({ w.update p t with flight := f } : Network I T N).node q) := by
  intro q hq
  dsimp only
  rw [hv q hq, Network.node_update]
  split
  next hqp => rw [hqp, hg]
  next => rfl

omit [DecidableEq I] in
lemma exists_index {e : I × M} {g : Multiset (I × M)}
    (hf : (v.flight : Multiset (I × M)) = e ::ₘ g) :
    ∃ i, v.flight[i]? = some e ∧ (↑(v.flight.eraseIdx i) : Multiset (I × M)) = g := by
  have he : e ∈ v.flight := by
    rw [← Multiset.mem_coe, hf]
    exact Multiset.mem_cons_self e g
  obtain ⟨i, hi⟩ := List.mem_iff_getElem?.mp he
  refine ⟨i, hi, ?_⟩
  obtain ⟨hlt, heq⟩ := List.getElem?_eq_some_iff.mp hi
  have hperm := List.getElem_cons_eraseIdx_perm hlt
  rw [heq] at hperm
  have hcons : e ::ₘ (↑(v.flight.eraseIdx i) : Multiset (I × M)) = e ::ₘ g := by
    rw [← hf]
    exact Multiset.coe_eq_coe.mpr hperm
  exact (Multiset.cons_inj_right e).mp hcons

lemma run_calls (hp : p ∈ ids) {cs : List C} {s : S} (hs : cs.foldlM P.call (v.node p) = .ok s) :
    ∃ tr, Run (Network.step P ids) v tr (v.update p s) ∧
      tr.map Taken.input = cs.map (.call p) := by
  induction cs generalizing v with
  | nil =>
    cases hs
    rw [Network.update_node]
    exact ⟨[], .start, rfl⟩
  | cons c cs ih =>
    rw [List.foldlM_cons] at hs
    obtain ⟨u, hu, hs⟩ := bind_eq_ok.mp hs
    have hstep : Network.step P ids v (.call p c) = .ok (v.update p u) := by
      simp only [Network.step, if_pos hp, hu]
      rfl
    obtain ⟨tr, hrun, htr⟩ := ih (v := v.update p u) (by rwa [Network.node_update_self])
    have hsame : (v.update p u).update p s = v.update p s := by
      simp only [Network.update, Function.update_idem]
    rw [hsame] at hrun
    exact ⟨_, Run.cons hstep hrun, by rw [List.map_cons, htr, List.map_cons]⟩

lemma Hosted.act (hv : h.Hosted ids w v) (hp : p ∈ ids) {deed : Deed I M C}
    (hd : deed.Does P (h.guest (w.node p)) (h.guest t))
    (hm : deed.taken p + h.stored t = h.stored (w.node p) + deed.given) :
    ∃ tr v', Run (Network.step P ids) v tr v' ∧ h.Hosted ids (w.update p t) v' ∧
      Traced p v v' deed tr := by
  have hsum : deed.taken p + h.waiting ids (w.update p t) = h.waiting ids w + deed.given := by
    refine waiting_update (f := w.flight) hp ?_
    rw [add_left_comm, hm, add_assoc]
  rw [← hv.node_eq p hp] at hd
  cases deed with
  | call cs =>
    obtain ⟨tr, hrun, htr⟩ := run_calls hp hd
    refine ⟨tr, _, hrun, ⟨guest_update (f := w.flight) (g := v.flight) hv.node_eq rfl, ?_⟩, htr⟩
    have hsame : h.waiting ids (w.update p t) = h.waiting ids w := by
      simpa [Deed.taken, Deed.given] using hsum
    rw [hsame]
    exact hv.covers
  | poll out =>
    have hstep : Network.step P ids v (.poll p) =
        .ok { v.update p (h.guest t) with flight := v.flight ++ out.toList } := by
      have hpoll : P.poll (v.node p) = .ok (out, h.guest t) := hd
      simp only [Network.step, if_pos hp, hpoll]
      rfl
    refine ⟨_, _, Run.next .start hstep, ⟨guest_update (f := w.flight) hv.node_eq rfl, ?_⟩, rfl⟩
    have hsame : h.waiting ids (w.update p t) = h.waiting ids w + ↑out.toList := by
      simpa [Deed.taken, Deed.given] using hsum
    rw [hsame, ← Multiset.coe_add]
    exact hv.covers.add _
  | receive m =>
    have hr : P.receive (v.node p) m = .ok (h.guest t) := hd
    have hsub : {(p, m)} + h.waiting ids (w.update p t) = h.waiting ids w := by
      simpa [Deed.taken, Deed.given] using hsum
    have hmem : (p, m) ∈ v.flight := by
      apply hv.covers.2
      rw [← hsub]
      exact Multiset.mem_add.mpr (.inl (Multiset.mem_singleton_self _))
    have hcase : ∀ {u : Network I S M}, Network.receive P ids u p m =
        (P.receive (u.node p) m).map (u.update p) := by
      intro u
      rw [Network.receive, if_pos hp]
      cases P.receive (u.node p) m <;> rfl
    rcases hv.covers.shrink hsub with hc | ⟨g, hg, hc⟩
    · -- another copy is on its way, so the message arrives as a duplicate
      obtain ⟨i, hi⟩ := List.mem_iff_getElem?.mp hmem
      have hstep : Network.step P ids v (.duplicate i) = .ok (v.update p (h.guest t)) := by
        simp only [Network.step, hi, hcase, hr]
        rfl
      exact ⟨_, _, Run.next .start hstep,
        ⟨guest_update (f := w.flight) (g := v.flight) hv.node_eq rfl, hc⟩,
        _, rfl, i, .inr rfl, hi⟩
    · obtain ⟨i, hi, hrest⟩ := exists_index hg
      have hstep : Network.step P ids v (.deliver i) =
          .ok { v.update p (h.guest t) with flight := v.flight.eraseIdx i } := by
        simp only [Network.step, hi, hcase, hr]
        rfl
      exact ⟨_, _, Run.next .start hstep, ⟨guest_update (f := w.flight) hv.node_eq rfl,
        hrest ▸ hc⟩, _, rfl, i, .inl rfl, hi⟩

omit [DecidableEq I] in
lemma Hosted.drop (hv : h.Hosted ids w v) {d : I} {n : N} {f : List (I × N)}
    (hf : w.flight.Perm ((d, n) :: f)) :
    h.Hosted ids { w with flight := f } v ∨ ∃ i m, v.flight[i]? = some (d, m) ∧
      h.carried n = some m ∧
      h.Hosted ids { w with flight := f } { v with flight := v.flight.eraseIdx i } := by
  have hperm : (↑(w.flight.filterMap h.mail) : Multiset (I × M)) =
      ↑(((d, n) :: f).filterMap h.mail) := Multiset.coe_eq_coe.mpr (hf.filterMap _)
  cases hc : h.carried n with
  | none =>
    refine .inl ⟨hv.node_eq, ?_⟩
    have hsame : h.waiting ids { w with flight := f } = h.waiting ids w := by
      rw [waiting, waiting, Network.transit, Network.transit, hperm, coe_filterMap_cons, mail, hc]
      exact congrArg (· + _) (zero_add _).symm
    rw [hsame]
    exact hv.covers
  | some m =>
    have hsub : {(d, m)} + h.waiting ids { w with flight := f } = h.waiting ids w := by
      rw [waiting, waiting, Network.transit, Network.transit, hperm, coe_filterMap_cons, mail, hc,
        add_assoc]
      rfl
    rcases hv.covers.shrink hsub with hcov | ⟨g, hg, hcov⟩
    · exact .inl ⟨hv.node_eq, hcov⟩
    · obtain ⟨i, hi, hrest⟩ := exists_index hg
      exact .inr ⟨i, m, hi, rfl, hv.node_eq, hrest ▸ hcov⟩

lemma Hosted.carry (hv : h.Hosted ids w v) (hp : p ∈ ids) {f : List (I × N)}
    (hg : h.guest t = h.guest (w.node p))
    (hm : (↑(f.filterMap h.mail) : Multiset (I × M)) + h.stored t =
      ↑(w.flight.filterMap h.mail) + h.stored (w.node p)) :
    h.Hosted ids { w.update p t with flight := f } v := by
  refine ⟨guest_still hv.node_eq hg, ?_⟩
  have hsame := waiting_update (a := 0) (b := 0) hp (by rw [zero_add, add_zero, hm])
  rw [zero_add, add_zero] at hsame
  rw [hsame]
  exact hv.covers

variable {Inv : I → T → Prop} {Ok : D → Prop} {Did : T → D → Deed I M C → T → Prop} {mv : Move I D}

/-- The step lemma: the guests follow each step of their hosts. -/
lemma Hosted.step (hh : h.Hosts P H Inv Ok Did) (hinv : ∀ p ∈ ids, Inv p (w.node p))
    (hok : ∀ p d, mv = .call p d → Ok d) (hv : h.Hosted ids w v)
    (hs : Network.step H ids w mv = .ok w') :
    ∃ tr v', Run (Network.step P ids) v tr v' ∧ h.Hosted ids w' v' ∧
      h.Shadows ids Did w w' v v' mv tr := by
  cases Network.change_of_step hs with
  | idle hidle =>
    refine ⟨[], v, .start, hv, .idle ?_⟩
    rintro p d rfl
    exact hidle p rfl
  | @called p d t hp hc =>
    obtain ⟨deed, hdid, hdoes, hm⟩ := hh.call (hinv p hp) (hok p d rfl) hc
    obtain ⟨tr, v', hrun, hv', htr⟩ := hv.act hp hdoes hm
    refine ⟨tr, v', hrun, hv', .acted hp ?_ htr fun q hq => Network.node_update_of_ne w hq t⟩
    rwa [Network.node_update_self]
  | @polled p out t hp hc =>
    obtain ⟨hg, hm⟩ := hh.poll (hinv p hp) hc
    refine ⟨[], v, .start, hv.carry hp hg ?_, .idle (by simp)⟩
    rw [← hm, List.filterMap_append, ← Multiset.coe_add, add_assoc, filterMap_toList]
  | @delivered i d n t rest hd hf hc =>
    obtain ⟨hg, hm⟩ := hh.receive (hinv d hd) hc
    refine ⟨[], v, .start, hv.carry hd hg ?_, .idle (by simp)⟩
    have hperm : (↑(w.flight.filterMap h.mail) : Multiset (I × M)) =
        ↑(((d, n) :: rest).filterMap h.mail) := Multiset.coe_eq_coe.mpr (hf.filterMap _)
    rw [hm, hperm, coe_filterMap_cons]
    abel
  | @duplicated i d n t hd hf hc =>
    obtain ⟨hg, hm⟩ := hh.receive (hinv d hd) hc
    have hsum := waiting_update (h := h) (a := 0) (b := ↑(h.mail (d, n)).toList)
      (f := w.flight) hd (t := t) (by rw [zero_add, hm, add_assoc])
    rw [zero_add] at hsum
    refine ⟨[], v, .start, ⟨guest_still (f := w.flight) hv.node_eq hg, ?_⟩, .idle (by simp)⟩
    rw [Network.update] at hsum
    rw [Network.update, hsum]
    cases hmail : h.mail (d, n) with
    | none => simpa using hv.covers
    | some e =>
      refine hv.covers.again (Network.mem_transit.mpr (.inl ?_))
      exact List.mem_filterMap.mpr ⟨_, hf, hmail⟩
  | @discarded i d n rest hd hf =>
    rcases hv.drop hf with hv' | ⟨j, m, hj, _, hv'⟩
    · exact ⟨[], v, .start, hv', .idle (by simp)⟩
    · have hstep : Network.step P ids v (.deliver j) =
          .ok { v with flight := v.flight.eraseIdx j } := by
        simp only [Network.step, hj, Network.receive, if_neg hd]
      exact ⟨_, _, Run.next .start hstep, hv', .discarded (by simp) hd hj⟩
  | @lost i rest hf =>
    cases hs
    by_cases hi : i < w.flight.length
    · rcases hv.drop (List.getElem_cons_eraseIdx_perm hi).symm with hv' | ⟨j, m, hj, hm, hv'⟩
      · exact ⟨[], v, .start, hv', .idle (by simp)⟩
      · have hstep : Network.step P ids v (.lose j) =
            .ok { v with flight := v.flight.eraseIdx j } := rfl
        exact ⟨_, _, Run.next .start hstep, hv', .lost (List.getElem?_eq_getElem hi) hm hj⟩
    · rw [List.eraseIdx_of_length_le (Nat.le_of_not_lt hi)]
      exact ⟨[], v, .start, hv, .idle (by simp)⟩

/-- The run lemma: the guests follow a run of their hosts with one of their own, and what the steps
that follow each other keep holds of the two runs. -/
lemma Hosted.run {w₀ : Network I T N} {v₀ : Network I S M}
    {tr : List (Taken (Network I T N) (Move I D))}
    {Q : List (Taken (Network I T N) (Move I D)) → Network I T N →
      List (Taken (Network I S M) (Move I C)) → Network I S M → Prop}
    (hh : h.Hosts P H Inv Ok Did)
    (hkeep : ∀ w mv w', (∀ p ∈ ids, Inv p (w.node p)) → Network.step H ids w mv = .ok w' →
      ∀ p ∈ ids, Inv p (w'.node p))
    (hQ : ∀ tr w mv w' tr' v v' add, Q tr w tr' v → h.Hosted ids w v →
      (∀ p ∈ ids, Inv p (w.node p)) → Network.step H ids w mv = .ok w' →
      Run (Network.step P ids) v add v' → h.Shadows ids Did w w' v v' mv add →
      Q (tr ++ [⟨w, mv, w'⟩]) w' (tr' ++ add) v')
    (hrun : Run (Network.step H ids) w₀ tr w)
    (hok : ∀ e ∈ tr, ∀ p d, e.input = .call p d → Ok d) (h₀ : ∀ p ∈ ids, Inv p (w₀.node p))
    (hv₀ : h.Hosted ids w₀ v₀) (hQ₀ : Q [] w₀ [] v₀) :
    (∀ p ∈ ids, Inv p (w.node p)) ∧ ∃ tr' v, Run (Network.step P ids) v₀ tr' v ∧
      h.Hosted ids w v ∧ Q tr w tr' v := by
  refine hrun.history (P := fun tr w => (∀ e ∈ tr, ∀ p d, e.input = .call p d → Ok d) →
    (∀ p ∈ ids, Inv p (w.node p)) ∧ ∃ tr' v, Run (Network.step P ids) v₀ tr' v ∧
      h.Hosted ids w v ∧ Q tr w tr' v) ?_ (fun _ => ⟨h₀, [], v₀, .start, hv₀, hQ₀⟩) hok
  intro tr w mv w' ih hs hok
  obtain ⟨hinv, tr', v, hr, hv, hq⟩ := ih fun e he => hok e (List.mem_append_left _ he)
  obtain ⟨add, v', hadd, hv', hshadow⟩ :=
    hv.step hh hinv (fun p d hmv => hok ⟨w, mv, w'⟩ (by simp) p d hmv) hs
  exact ⟨hkeep w mv w' hinv hs, _, v', hr.append hadd, hv',
    hQ _ _ _ _ _ _ _ _ hq hv hinv hs hadd hshadow⟩

end Hosting

end QuicP2p.Library
