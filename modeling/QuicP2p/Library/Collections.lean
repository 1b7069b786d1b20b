import QuicP2p.Library.Vectors

/-! Sets with an iteration order, maps sorted by key and queues sorted by priority. -/

namespace QuicP2p.Library

/-- A set, with the order in which it is iterated. -/
structure HashSet (α : Type) where
  toList : List α
  nodup : toList.Nodup

namespace HashSet

variable {α : Type}

instance : Membership α (HashSet α) := ⟨fun s a => a ∈ s.toList⟩

instance [DecidableEq α] (a : α) (s : HashSet α) : Decidable (a ∈ s) :=
  inferInstanceAs (Decidable (a ∈ s.toList))

def empty : HashSet α := ⟨[], List.nodup_nil⟩

def isEmpty (s : HashSet α) : Bool := s.toList.isEmpty

@[simp] lemma mem_toList {a : α} {s : HashSet α} : a ∈ s.toList ↔ a ∈ s := .rfl

@[simp] lemma notMem_empty (a : α) : a ∉ (empty : HashSet α) := List.not_mem_nil

lemma isEmpty_iff {s : HashSet α} : s.isEmpty = true ↔ ∀ a, a ∉ s := by
  rw [isEmpty, List.isEmpty_iff, List.eq_nil_iff_forall_not_mem]
  exact .rfl

/-- Exchange two places of the iteration order. -/
def reorder (s : HashSet α) (i j : ℕ) : HashSet α :=
  match h : swap s.toList i j with
  | some l => ⟨l, (swap_perm h).nodup_iff.mpr s.nodup⟩
  | none => s

@[simp] lemma mem_reorder {a : α} {s : HashSet α} {i j : ℕ} : a ∈ s.reorder i j ↔ a ∈ s := by
  unfold reorder
  split
  next l h => exact (swap_perm h).mem_iff
  next => exact .rfl

variable [DecidableEq α]

def insert (s : HashSet α) (a : α) : HashSet α := ⟨s.toList.insert a, s.nodup.insert⟩

def remove (s : HashSet α) (a : α) : HashSet α := ⟨s.toList.erase a, s.nodup.erase a⟩

@[simp] lemma mem_insert {a b : α} {s : HashSet α} : b ∈ s.insert a ↔ b = a ∨ b ∈ s :=
  List.mem_insert_iff

@[simp] lemma mem_remove {a b : α} {s : HashSet α} : b ∈ s.remove a ↔ b ≠ a ∧ b ∈ s :=
  s.nodup.mem_erase_iff

end HashSet

/-- A map, with the order in which it is iterated. -/
structure HashMap (K V : Type) where
  entries : AList (fun _ : K => V)

namespace HashMap

variable {K V : Type}

def empty : HashMap K V := ⟨∅⟩

def keys (m : HashMap K V) : List K := m.entries.keys

def len (m : HashMap K V) : ℕ := m.keys.length

/-- The entries, in the order in which they are iterated. -/
def iter (m : HashMap K V) : List (K × V) := m.entries.entries.map (fun e => (e.1, e.2))

variable [DecidableEq K]

def get (m : HashMap K V) (k : K) : Option V := m.entries.lookup k

def insert (m : HashMap K V) (k : K) (v : V) : HashMap K V := ⟨m.entries.insert k v⟩

def remove (m : HashMap K V) (k : K) : HashMap K V := ⟨m.entries.erase k⟩

def containsKey (m : HashMap K V) (k : K) : Bool := (m.get k).isSome

/-- Exchange two places of the iteration order. -/
def reorder (m : HashMap K V) (i j : ℕ) : HashMap K V :=
  match h : swap m.entries.entries i j with
  | some l => ⟨⟨l, (List.perm_nodupKeys (swap_perm h)).mpr m.entries.nodupKeys⟩⟩
  | none => m

variable {m : HashMap K V} {k j : K} {v : V}

lemma containsKey_iff : m.containsKey k = true ↔ ∃ v, m.get k = some v :=
  Option.isSome_iff_exists

@[simp] lemma get_empty (k : K) : (empty : HashMap K V).get k = none := AList.lookup_empty k

lemma get_insert : (m.insert k v).get j = if j = k then some v else m.get j := by
  split
  next h =>
    subst h
    exact AList.lookup_insert _
  next h => exact AList.lookup_insert_ne h

lemma get_remove : (m.remove k).get j = if j = k then none else m.get j := by
  split
  next h =>
    subst h
    exact AList.lookup_erase _ _
  next h => exact AList.lookup_erase_ne h

@[simp] lemma get_insert_self : (m.insert k v).get k = some v := by rw [get_insert, if_pos rfl]

@[simp] lemma get_remove_self : (m.remove k).get k = none := by rw [get_remove, if_pos rfl]

lemma get_insert_of_ne (h : j ≠ k) : (m.insert k v).get j = m.get j := by
  rw [get_insert, if_neg h]

lemma get_remove_of_ne (h : j ≠ k) : (m.remove k).get j = m.get j := by
  rw [get_remove, if_neg h]

lemma get_insert_eq_some {w : V} :
    (m.insert k w).get j = some v ↔ j = k ∧ w = v ∨ j ≠ k ∧ m.get j = some v := by
  rw [get_insert]
  split_ifs with h
  · simp [h]
  · simp [h]

lemma get_remove_eq_some : (m.remove k).get j = some v ↔ j ≠ k ∧ m.get j = some v := by
  rw [get_remove]
  split_ifs with h
  · simp [h]
  · simp [h]

lemma exists_get_insert {w : V} :
    (∃ v, (m.insert k w).get j = some v) ↔ j = k ∨ ∃ v, m.get j = some v := by
  rw [get_insert]
  split_ifs with h
  · simp [h]
  · simp [h]

lemma mem_keys : k ∈ m.keys ↔ ∃ v, m.get k = some v := by
  rw [← Option.isSome_iff_exists]
  exact AList.lookup_isSome.symm

lemma len_eq_zero : m.len = 0 ↔ ∀ k, m.get k = none := by
  rw [len, List.length_eq_zero_iff, List.eq_nil_iff_forall_not_mem]
  apply forall_congr'
  intro k
  rw [mem_keys, Option.eq_none_iff_forall_ne_some, not_exists]

lemma mem_iter : (k, v) ∈ m.iter ↔ m.get k = some v := by
  have hget : m.get k = some v ↔ ⟨k, v⟩ ∈ m.entries.entries := AList.mem_lookup_iff
  rw [iter, List.mem_map, hget]
  constructor
  · rintro ⟨⟨j, w⟩, hm, he⟩
    cases he
    exact hm
  · exact fun hm => ⟨_, hm, rfl⟩

@[simp] lemma get_reorder {i i' : ℕ} : (m.reorder i i').get k = m.get k := by
  unfold reorder
  split
  next l h =>
    exact List.perm_dlookup k ((List.perm_nodupKeys (swap_perm h)).mpr m.entries.nodupKeys)
      (swap_perm h)
  next => rfl

end HashMap

/-- A map whose entries are kept in increasing order of their keys. -/
structure BTreeMap (β : Type) where
  entries : List (ℕ × β)
  sorted : entries.Pairwise (fun a b => a.1 < b.1)

namespace BTreeMap

variable {β : Type}

def empty : BTreeMap β := ⟨[], .nil⟩

def first (m : BTreeMap β) : Option (ℕ × β) := m.entries.head?

def get (m : BTreeMap β) (k : ℕ) : Option β := (m.entries.find? (fun e => e.1 = k)).map Prod.snd

def insertList (k : ℕ) (v : β) : List (ℕ × β) → List (ℕ × β)
  | [] => [(k, v)]
  | e :: es =>
    if k < e.1 then (k, v) :: e :: es
    else if k = e.1 then (k, v) :: es
    else e :: insertList k v es

lemma mem_insertList {k : ℕ} {v : β} {e : ℕ × β} {es : List (ℕ × β)}
    (h : e ∈ insertList k v es) : e = (k, v) ∨ e ∈ es := by
  induction es with
  | nil => simpa [insertList] using h
  | cons a es ih =>
    simp only [insertList] at h
    split_ifs at h <;> simp only [List.mem_cons] at h ⊢ <;> tauto

lemma insertList_sorted {k : ℕ} {v : β} {es : List (ℕ × β)}
    (h : es.Pairwise (fun a b => a.1 < b.1)) :
    (insertList k v es).Pairwise (fun a b => a.1 < b.1) := by
  induction es with
  | nil => simp [insertList]
  | cons a es ih =>
    obtain ⟨ha, hs⟩ := List.pairwise_cons.mp h
    simp only [insertList]
    split_ifs with hlt heq
    · refine .cons ?_ h
      intro e he
      rcases List.mem_cons.mp he with rfl | he
      · exact hlt
      · exact hlt.trans (ha e he)
    · exact .cons (fun e he => heq ▸ ha e he) hs
    · refine .cons ?_ (ih hs)
      intro e he
      rcases mem_insertList he with rfl | he
      · exact (by omega : a.1 < k)
      · exact ha e he

def insert (m : BTreeMap β) (k : ℕ) (v : β) : BTreeMap β :=
  ⟨insertList k v m.entries, insertList_sorted m.sorted⟩

def remove (m : BTreeMap β) (k : ℕ) : Option β × BTreeMap β :=
  (m.get k, ⟨m.entries.filter (fun e => e.1 ≠ k), m.sorted.filter _⟩)

/-- What the map holds, as the values with their keys. -/
def contents (m : BTreeMap β) : Multiset (ℕ × β) := m.entries

lemma get_eq_some {m : BTreeMap β} {k : ℕ} {v : β} : m.get k = some v ↔ (k, v) ∈ m.entries := by
  obtain ⟨es, hs⟩ := m
  simp only [get, Option.map_eq_some_iff]
  constructor
  · rintro ⟨⟨k', v'⟩, hf, rfl⟩
    have hk : k' = k := by simpa using List.find?_some hf
    exact hk ▸ List.mem_of_find?_eq_some hf
  · intro hm
    refine ⟨(k, v), ?_, rfl⟩
    induction es with
    | nil => simp at hm
    | cons e es ih =>
      obtain ⟨he, hs⟩ := List.pairwise_cons.mp hs
      rcases List.mem_cons.mp hm with rfl | hm
      · simp
      · have hlt := he _ hm
        rw [List.find?_cons_of_neg (by simpa using hlt.ne)]
        exact ih hs hm

lemma first_mem {m : BTreeMap β} {e : ℕ × β} (h : m.first = some e) : e ∈ m.entries :=
  List.mem_of_head? h

lemma first_le {m : BTreeMap β} {e : ℕ × β} (h : m.first = some e) {a : ℕ × β}
    (ha : a ∈ m.entries) : e.1 ≤ a.1 := by
  obtain ⟨_ | ⟨b, es⟩, hs⟩ := m
  · simp [first] at h
  · cases h
    rcases List.mem_cons.mp ha with rfl | ha
    · exact le_rfl
    · exact ((List.pairwise_cons.mp hs).1 a ha).le

lemma mem_insert {m : BTreeMap β} {k : ℕ} {v : β} {e : ℕ × β}
    (h : e ∈ (m.insert k v).entries) : e = (k, v) ∨ e ∈ m.entries := mem_insertList h

lemma exists_mem_insert {m : BTreeMap β} {k j : ℕ} {v : β} :
    (∃ e ∈ (m.insert k v).entries, e.1 = j) ↔ j = k ∨ ∃ e ∈ m.entries, e.1 = j := by
  have hlist : ∀ es : List (ℕ × β),
      (∃ e ∈ insertList k v es, e.1 = j) ↔ j = k ∨ ∃ e ∈ es, e.1 = j := by
    intro es
    induction es with
    | nil => simp [insertList, eq_comm]
    | cons e es ih =>
      simp only [insertList]
      split_ifs with hlt heq
      · simp [eq_comm]
      · simp [heq, eq_comm]
      · simp only [List.exists_mem_cons_iff, ih]
        tauto
  exact hlist m.entries

lemma first_insert (m : BTreeMap β) (k : ℕ) (v : β) :
    (m.insert k v).first = if m.first.all (fun e => k ≤ e.1) then some (k, v) else m.first := by
  obtain ⟨_ | ⟨e, es⟩, hs⟩ := m
  · rfl
  · simp only [first, insert, insertList, List.head?_cons, Option.all_some, decide_eq_true_eq]
    split_ifs with hlt heq hle <;> first | rfl | omega

lemma mem_remove {m : BTreeMap β} {k : ℕ} {e : ℕ × β} :
    e ∈ (m.remove k).2.entries ↔ e ∈ m.entries ∧ e.1 ≠ k := by
  simp [remove]

lemma contents_insert (m : BTreeMap β) (k : ℕ) (v : β) :
    (m.insert k v).contents + ((m.get k).map (k, ·)).elim 0 ({·}) = (k, v) ::ₘ m.contents := by
  obtain ⟨es, hs⟩ := m
  simp only [contents, insert, get]
  induction es with
  | nil => simp [insertList]
  | cons e es ih =>
    obtain ⟨he, hs⟩ := List.pairwise_cons.mp hs
    simp only [insertList]
    split_ifs with hlt heq
    · have hn : (e :: es).find? (fun e => e.1 = k) = none := by
        simp only [List.find?_eq_none, List.mem_cons, forall_eq_or_imp, decide_eq_true_eq]
        exact ⟨by omega, fun a ha hk => by have := he a ha; omega⟩
      simp [hn]
    · subst heq
      rw [List.find?_cons_of_pos (by simp), Option.map_some, Option.map_some, Option.elim_some,
        ← Multiset.cons_coe, ← Multiset.cons_coe, Multiset.cons_add, add_comm,
        Multiset.singleton_add]
    · rw [List.find?_cons_of_neg (by simpa using Ne.symm heq), ← Multiset.cons_coe,
        Multiset.cons_add, ih hs, Multiset.cons_swap, Multiset.cons_coe]

lemma contents_remove {m : BTreeMap β} {k : ℕ} {v : β} (h : m.get k = some v) :
    (k, v) ::ₘ (m.remove k).2.contents = m.contents := by
  have hm := get_eq_some.mp h
  clear h
  obtain ⟨es, hs⟩ := m
  simp only [contents, remove] at hm ⊢
  induction es with
  | nil => simp at hm
  | cons e es ih =>
    obtain ⟨he, hs⟩ := List.pairwise_cons.mp hs
    rcases List.mem_cons.mp hm with rfl | hm
    · have hf : es.filter (fun e => e.1 ≠ k) = es :=
        List.filter_eq_self.mpr fun a ha => by simpa using (he a ha).ne'
      rw [List.filter_cons_of_neg (by simp), hf, Multiset.cons_coe]
    · have hlt := he _ hm
      rw [List.filter_cons_of_pos (by simpa using hlt.ne), ← Multiset.cons_coe,
        Multiset.cons_swap, ih hs hm, Multiset.cons_coe]

end BTreeMap

/-- A heap that gives out an element of least key first, with the choices it will make between
elements of equal keys. -/
structure BinaryHeap (α : Type) where
  items : List α
  choices : List ℕ

namespace BinaryHeap

variable {α β : Type} [LinearOrder β]

def new (choices : List ℕ) : BinaryHeap α := ⟨[], choices⟩

def push (h : BinaryHeap α) (x : α) : BinaryHeap α := { h with items := h.items ++ [x] }

def least (key : α → β) (h : BinaryHeap α) : List α :=
  h.items.filter (fun x => ∀ y ∈ h.items, key x ≤ key y)

def peek (key : α → β) (h : BinaryHeap α) : Option α :=
  (h.least key)[h.choices.headD 0 % (h.least key).length]?

def contents (h : BinaryHeap α) : Multiset α := h.items

@[simp] lemma contents_new (choices : List ℕ) : (new choices : BinaryHeap α).contents = 0 := rfl

@[simp] lemma contents_push (h : BinaryHeap α) (x : α) :
    (h.push x).contents = x ::ₘ h.contents := by
  simp only [contents, push, ← Multiset.coe_add, Multiset.coe_singleton]
  rw [add_comm, Multiset.singleton_add]

lemma mem_least {key : α → β} {h : BinaryHeap α} {x : α} :
    x ∈ h.least key ↔ x ∈ h.items ∧ ∀ y ∈ h.items, key x ≤ key y := by
  simp [least]

lemma least_ne_nil (key : α → β) {h : BinaryHeap α} (hne : h.items ≠ []) : h.least key ≠ [] := by
  cases hm : h.items.argmin key with
  | none => exact absurd (List.argmin_eq_none.mp hm) hne
  | some x =>
    have hx : x ∈ h.least key :=
      mem_least.mpr ⟨List.argmin_mem hm, fun y hy => List.le_of_mem_argmin hy hm⟩
    exact List.ne_nil_of_mem hx

lemma peek_eq_none {key : α → β} {h : BinaryHeap α} : h.peek key = none ↔ h.items = [] := by
  constructor
  · intro hp
    by_contra hne
    have hpos := List.length_pos_iff.mpr (least_ne_nil key hne)
    have hlt := Nat.mod_lt (h.choices.headD 0) hpos
    rw [peek, List.getElem?_eq_none_iff] at hp
    omega
  · intro he
    simp [peek, least, he]

lemma peek_mem {key : α → β} {h : BinaryHeap α} {x : α} (hp : h.peek key = some x) :
    x ∈ h.contents ∧ ∀ y ∈ h.contents, key x ≤ key y :=
  mem_least.mp (List.mem_of_getElem? hp)

variable [DecidableEq α]

def pop (key : α → β) (h : BinaryHeap α) : Option (α × BinaryHeap α) :=
  (h.peek key).map (fun x => (x, ⟨h.items.erase x, h.choices.tail⟩))

lemma pop_of_peek {key : α → β} {h : BinaryHeap α} {x : α} (hp : h.peek key = some x) :
    ∃ r, h.pop key = some (x, r) ∧ h.contents = x ::ₘ r.contents := by
  refine ⟨⟨h.items.erase x, h.choices.tail⟩, by simp [pop, hp], ?_⟩
  have hx : x ∈ h.items := (peek_mem hp).1
  exact Multiset.coe_eq_coe.mpr (List.perm_cons_erase hx)

end BinaryHeap

end QuicP2p.Library
