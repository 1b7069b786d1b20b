import QuicP2p.Library.Outcome

/-! Texts in which a symbol stands for a group of a fixed number of bits. -/

namespace QuicP2p.Library

/-- The lowest bits of a number, the highest one first. -/
def bits : ℕ → ℕ → List Bool
  | 0, _ => []
  | w + 1, v => v.testBit w :: bits w v

def ofBits : List Bool → ℕ
  | [] => 0
  | b :: bs => b.toNat * 2 ^ bs.length + ofBits bs

@[simp] lemma length_bits (w v : ℕ) : (bits w v).length = w := by
  induction w with
  | zero => rfl
  | succ w ih => simp [bits, ih]

lemma ofBits_lt (bs : List Bool) : ofBits bs < 2 ^ bs.length := by
  induction bs with
  | nil => exact Nat.one_pos
  | cons b bs ih =>
    rw [ofBits, List.length_cons, Nat.pow_succ]
    cases b <;> simp <;> omega

lemma ofBits_bits (w v : ℕ) : ofBits (bits w v) = v % 2 ^ w := by
  induction w with
  | zero => simp [bits, ofBits, Nat.mod_one]
  | succ w ih =>
    rw [bits, ofBits, length_bits, ih, Nat.mod_pow_succ, Nat.toNat_testBit]
    ring

lemma ofBits_inj {as bs : List Bool} (hl : as.length = bs.length) (h : ofBits as = ofBits bs) :
    as = bs := by
  induction as generalizing bs with
  | nil => exact (List.length_eq_zero_iff.mp hl.symm).symm
  | cons a as ih =>
    cases bs with
    | nil => cases hl
    | cons b bs =>
      have hlen : as.length = bs.length := Nat.succ.inj hl
      have ha := ofBits_lt as
      have hb := ofBits_lt bs
      rw [hlen] at ha
      rw [ofBits, ofBits, hlen] at h
      obtain ⟨rfl, hrest⟩ : a = b ∧ ofBits as = ofBits bs := by
        cases a <;> cases b <;> simp at h ⊢ <;> omega
      rw [ih hlen hrest]

lemma bits_ofBits (bs : List Bool) : bits bs.length (ofBits bs) = bs := by
  refine ofBits_inj (length_bits _ _) ?_
  rw [ofBits_bits, Nat.mod_eq_of_lt (ofBits_lt bs)]

section

variable {α β : Type}

/-- The first `n` groups of `w` elements of a list. -/
def groups (w : ℕ) : ℕ → List α → List (List α)
  | 0, _ => []
  | n + 1, l => l.take w :: groups w n (l.drop w)

@[simp] lemma length_groups (w n : ℕ) (l : List α) : (groups w n l).length = n := by
  induction n generalizing l with
  | zero => rfl
  | succ n ih => rw [groups, List.length_cons, ih]

lemma flatten_groups (w n : ℕ) (l : List α) : (groups w n l).flatten = l.take (w * n) := by
  induction n generalizing l with
  | zero => simp [groups]
  | succ n ih =>
    rw [groups, List.flatten_cons, ih, Nat.mul_succ, Nat.add_comm, List.take_add]

lemma length_of_mem_groups {w n : ℕ} {l g : List α} (hl : w * n ≤ l.length)
    (hg : g ∈ groups w n l) : g.length = w := by
  induction n generalizing l with
  | zero => simp [groups] at hg
  | succ n ih =>
    rw [Nat.mul_succ] at hl
    rcases List.mem_cons.mp hg with rfl | hg
    · rw [List.length_take]
      omega
    · refine ih ?_ hg
      rw [List.length_drop]
      omega

/-- The groups of a list that was made of groups. -/
lemma groups_flatMap {w : ℕ} {f : α → List β} (hf : ∀ x, (f x).length = w) (xs : List α)
    (l : List β) : groups w xs.length (xs.flatMap f ++ l) = xs.map f := by
  induction xs with
  | nil => rfl
  | cons x xs ih =>
    rw [List.length_cons, groups, List.flatMap_cons, List.append_assoc, List.take_left' (hf x),
      List.drop_left' (hf x), ih, List.map_cons]

end

def bytesToBits (bytes : List UInt8) : List Bool := bytes.flatMap (fun b => bits 8 b.toNat)

lemma length_bytesToBits (bytes : List UInt8) : (bytesToBits bytes).length = 8 * bytes.length := by
  induction bytes with
  | nil => rfl
  | cons b bytes ih =>
    have hcons : bytesToBits (b :: bytes) = bits 8 b.toNat ++ bytesToBits bytes := rfl
    rw [hcons, List.length_append, length_bits, ih, List.length_cons]
    ring

def bitsToBytes (bs : List Bool) : List UInt8 :=
  (groups 8 (bs.length / 8) bs).map (fun g => UInt8.ofNat (ofBits g))

lemma bitsToBytes_append (bytes : List UInt8) {rest : List Bool} (hr : rest.length < 8) :
    bitsToBytes (bytesToBits bytes ++ rest) = bytes := by
  have hcount : (bytesToBits bytes ++ rest).length / 8 = bytes.length := by
    rw [List.length_append, length_bytesToBits]
    omega
  rw [bitsToBytes, hcount, bytesToBits,
    groups_flatMap (f := fun b : UInt8 => bits 8 b.toNat) fun b => length_bits 8 _, List.map_map]
  have hbyte : ∀ b : UInt8, UInt8.ofNat (ofBits (bits 8 b.toNat)) = b := by
    intro b
    have hb : b.toNat % 2 ^ 8 = b.toNat := Nat.mod_eq_of_lt b.toNat_lt
    rw [ofBits_bits, hb]
    exact UInt8.ofNat_toNat
  exact (List.map_congr_left fun b _ => hbyte b).trans (List.map_id bytes)

/-- The symbols for groups of `width` bits, by the numbers that these write. -/
structure Alphabet where
  width : ℕ
  symbol : ℕ → UInt8
  digit : UInt8 → Option ℕ
  width_pos : 0 < width
  width_le : width ≤ 8
  digit_symbol : ∀ v < 2 ^ width, digit (symbol v) = some v

namespace Alphabet

/-- The alphabet of a list of distinct symbols. -/
def ofSymbols (width : ℕ) (symbols : List UInt8) (hpos : 0 < width) (hle : width ≤ 8)
    (hlen : symbols.length = 2 ^ width) (hnodup : symbols.Nodup) : Alphabet where
  width := width
  symbol v := symbols.getD v 0
  digit c := if c ∈ symbols then some (symbols.idxOf c) else none
  width_pos := hpos
  width_le := hle
  digit_symbol v hv := by
    rw [← hlen] at hv
    rw [List.getD_eq_getElem _ _ hv, if_pos (List.getElem_mem hv), hnodup.idxOf_getElem]

variable (a : Alphabet)

/-- The number of symbols for a number of bytes; the last one may be filled up with zeros. -/
def encodeLen (n : ℕ) : ℕ := (8 * n + (a.width - 1)) / a.width

def encode (bytes : List UInt8) : List UInt8 :=
  (groups a.width (a.encodeLen bytes.length)
    (bytesToBits bytes ++ List.replicate (a.width - 1) false)).map (fun g => a.symbol (ofBits g))

/-- What the symbols write, with no look at whether it is written as `encode` does. -/
def read (text : List UInt8) : Option (List UInt8) :=
  (text.mapM a.digit).map (fun vs => bitsToBytes (vs.flatMap (bits a.width)))

/-- The text is read if it is what `encode` makes of the bytes. -/
def decode (text : List UInt8) : Option (List UInt8) :=
  (a.read text).filter (fun bytes => a.encode bytes = text)

lemma encodeLen_bounds (n : ℕ) :
    8 * n ≤ a.width * a.encodeLen n ∧ a.width * a.encodeLen n ≤ 8 * n + (a.width - 1) := by
  have hw := a.width_pos
  have hdiv := Nat.div_add_mod (8 * n + (a.width - 1)) a.width
  have hmod := Nat.mod_lt (8 * n + (a.width - 1)) hw
  rw [encodeLen]
  omega

lemma mem_encode {c : UInt8} {bytes : List UInt8} (h : c ∈ a.encode bytes) :
    ∃ v < 2 ^ a.width, c = a.symbol v := by
  obtain ⟨g, hg, rfl⟩ := List.mem_map.mp h
  refine ⟨ofBits g, ?_, rfl⟩
  rw [← length_of_mem_groups ?_ hg]
  · exact ofBits_lt g
  · rw [List.length_append, length_bytesToBits, List.length_replicate]
    exact (a.encodeLen_bounds bytes.length).2

@[simp] lemma length_encode (bytes : List UInt8) :
    (a.encode bytes).length = a.encodeLen bytes.length := by
  rw [encode, List.length_map, length_groups]

lemma mapM_digit {gs : List (List Bool)} (h : ∀ g ∈ gs, g.length = a.width) :
    (gs.map (fun g => a.symbol (ofBits g))).mapM a.digit = some (gs.map ofBits) := by
  induction gs with
  | nil => rfl
  | cons g gs ih =>
    have hg := ofBits_lt g
    rw [h g List.mem_cons_self] at hg
    have hgs := ih fun g hg => h g (List.mem_cons_of_mem _ hg)
    rw [List.map_cons, List.mapM_cons, a.digit_symbol _ hg, hgs]
    rfl

lemma flatMap_bits {gs : List (List Bool)} (h : ∀ g ∈ gs, g.length = a.width) :
    (gs.map ofBits).flatMap (bits a.width) = gs.flatten := by
  induction gs with
  | nil => rfl
  | cons g gs ih =>
    have hg : bits a.width (ofBits g) = g := by
      rw [← h g List.mem_cons_self, bits_ofBits]
    rw [List.map_cons, List.flatMap_cons, hg, ih fun g hg => h g (List.mem_cons_of_mem _ hg),
      List.flatten_cons]

lemma read_encode (bytes : List UInt8) : a.read (a.encode bytes) = some bytes := by
  obtain ⟨hlow, hhigh⟩ := a.encodeLen_bounds bytes.length
  have hwidth := a.width_le
  have hpos := a.width_pos
  generalize hgroups : groups a.width (a.encodeLen bytes.length)
    (bytesToBits bytes ++ List.replicate (a.width - 1) false) = gs
  have hlen : ∀ g ∈ gs, g.length = a.width := by
    intro g hg
    rw [← hgroups] at hg
    refine length_of_mem_groups ?_ hg
    rw [List.length_append, length_bytesToBits, List.length_replicate]
    exact hhigh
  rw [read, encode, hgroups, a.mapM_digit hlen, Option.map_some, a.flatMap_bits hlen, ← hgroups,
    flatten_groups, List.take_append, length_bytesToBits, List.take_replicate,
    List.take_of_length_le (by rw [length_bytesToBits]; exact hlow), bitsToBytes_append]
  rw [List.length_replicate]
  omega

lemma decode_eq_some {text bytes : List UInt8} :
    a.decode text = some bytes ↔ text = a.encode bytes := by
  rw [decode, Option.filter_eq_some_iff, decide_eq_true_iff]
  constructor
  · exact fun h => h.2.symm
  · rintro rfl
    exact ⟨a.read_encode bytes, rfl⟩

end Alphabet

end QuicP2p.Library
