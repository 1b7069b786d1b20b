import QuicP2p.Library.Encoding
import QuicP2p.Stop

/-! Public keys, and how they are printed and parsed. -/

namespace QuicP2p.P2p

open Library

/-- The bytes of a string. -/
def asBytes (s : String) : List UInt8 := s.toUTF8.data.toList

/-- What is used of an encoding of bytes as text. -/
structure Encoding (D : Type) where
  encode : List UInt8 → String
  decodeLen : ℕ → Except D ℕ
  decode : List UInt8 → Except D (List UInt8)
  decodeMut : List UInt8 → (n : ℕ) → Exec (Except D (Vector UInt8 n))

/-- What is used of the keys that verify signatures. -/
structure KeyScheme (V S : Type) where
  asBytes : V → Vector UInt8 32
  fromBytes : Vector UInt8 32 → Except S V
  toPublicKeyDer : V → Option (List UInt8)

structure PublicKey (V : Type) where
  key : V
  deriving DecidableEq

structure LocalNodeId (V : Type) where
  publicKey : PublicKey V
  deriving DecidableEq

inductive KeyParsingError (D S : Type)
  | decodeError (err : D)
  | signatureError (err : S)
  deriving DecidableEq

variable {V D S : Type}

namespace PublicKey

def asBytes (keys : KeyScheme V S) (k : PublicKey V) : Vector UInt8 32 := keys.asBytes k.key

def tryFrom (keys : KeyScheme V S) (bytes : Vector UInt8 32) : Except S (PublicKey V) := do
  let key ← keys.fromBytes bytes
  .ok ⟨key⟩

/-- The text is decoded into a buffer of 32 bytes. -/
def fromStr (hexlower : Encoding D) (keys : KeyScheme V S) (s : String) :
    Exec (Except (KeyParsingError D S) (PublicKey V)) := do
  match ← hexlower.decodeMut (P2p.asBytes s) 32 with
  | .ok bytes =>
    match tryFrom keys bytes with
    | .ok k => .ok (.ok k)
    | .error err => .ok (.error (.signatureError err))
  | .error err => .ok (.error (.decodeError err))

end PublicKey

def LocalNodeId.asBytes (keys : KeyScheme V S) (n : LocalNodeId V) : Vector UInt8 32 :=
  n.publicKey.asBytes keys

def LocalNodeId.display (hexlower : Encoding D) (keys : KeyScheme V S) (n : LocalNodeId V) :
    String := hexlower.encode (n.asBytes keys).toList

/-- The documented behaviour of the encoding in lower case hexadecimal digits: two digits a byte,
nothing but its own encodings decoded, and a panic where the buffer does not have the right
length. -/
structure Encoding.HexLower (e : Encoding D) : Prop where
  decodeLen_eq_ok : ∀ len n, e.decodeLen len = .ok n ↔ len = 2 * n
  length_encode : ∀ bytes, (asBytes (e.encode bytes)).length = 2 * bytes.length
  decode_eq_ok : ∀ text bytes, e.decode text = .ok bytes ↔ text = asBytes (e.encode bytes)
  decodeMut_panics : ∀ text n, e.decodeLen text.length ≠ .ok n →
    ∃ why, e.decodeMut text n = .error why
  decodeMut_fills : ∀ text n, e.decodeLen text.length = .ok n →
    ∃ r, e.decodeMut text n = .ok r ∧ r.map Vector.toList = e.decode text

/-- Keys are made from their bytes and from no others. -/
structure KeyScheme.Exact (keys : KeyScheme V S) : Prop where
  fromBytes_eq_ok : ∀ bytes v, keys.fromBytes bytes = .ok v ↔ keys.asBytes v = bytes

lemma asBytes_injective : Function.Injective asBytes := by
  intro s t h
  refine String.toByteArray_inj.mp (ByteArray.ext ?_)
  exact Array.toList_inj.mp h

section

variable {hexlower : Encoding D} {keys : KeyScheme V S}

lemma tryFrom_eq_ok (hkeys : keys.Exact) {bytes : Vector UInt8 32} {k : PublicKey V} :
    PublicKey.tryFrom keys bytes = .ok k ↔ k.asBytes keys = bytes := by
  have hmap : PublicKey.tryFrom keys bytes = .ok k ↔ keys.fromBytes bytes = .ok k.key := by
    unfold PublicKey.tryFrom
    cases keys.fromBytes bytes with
    | error err => simp [bind, Except.bind]
    | ok v =>
      simp only [bind, Except.bind, Except.ok.injEq]
      exact ⟨fun h => h ▸ rfl, fun h => h ▸ rfl⟩
  rw [hmap, hkeys.fromBytes_eq_ok]
  rfl

lemma fromStr_of_length (hhex : hexlower.HexLower) (hkeys : keys.Exact) {s : String}
    (hs : (asBytes s).length = 64) :
    ∃ r, PublicKey.fromStr hexlower keys s = .ok r ∧
      ∀ k, r = .ok k ↔ s = (LocalNodeId.mk k).display hexlower keys := by
  have hlen : hexlower.decodeLen (asBytes s).length = .ok 32 := by
    rw [hhex.decodeLen_eq_ok, hs]
  obtain ⟨r, hr, hdec⟩ := hhex.decodeMut_fills _ _ hlen
  have hprint : ∀ k : PublicKey V, s = (LocalNodeId.mk k).display hexlower keys ↔
      hexlower.decode (asBytes s) = .ok (k.asBytes keys).toList := by
    intro k
    rw [hhex.decode_eq_ok]
    exact asBytes_injective.eq_iff.symm
  unfold PublicKey.fromStr
  rw [hr]
  cases r with
  | error err =>
    refine ⟨.error (.decodeError err), rfl, fun k => ?_⟩
    rw [hprint, ← hdec]
    simp [Except.map]
  | ok bytes =>
    have hmatch : ∀ k, s = (LocalNodeId.mk k).display hexlower keys ↔
        PublicKey.tryFrom keys bytes = .ok k := by
      intro k
      rw [hprint, ← hdec, tryFrom_eq_ok hkeys]
      simp only [Except.map, Except.ok.injEq]
      constructor
      · exact fun h => (Vector.toList_inj.mp h).symm
      · exact fun h => h ▸ rfl
    simp only [ok_bind]
    cases hk : PublicKey.tryFrom keys bytes with
    | error err =>
      refine ⟨.error (.signatureError err), rfl, fun k => ?_⟩
      rw [hmatch, hk]
      simp
    | ok k' =>
      refine ⟨.ok k', rfl, fun k => ?_⟩
      rw [hmatch, hk]
      simp

/-- Parsing returns, and accepts what is printed and no more, exactly on texts of 64 bytes. On all
others it panics. -/
theorem fromStr_exact_iff (hhex : hexlower.HexLower) (hkeys : keys.Exact) (s : String) :
    (∃ r, PublicKey.fromStr hexlower keys s = .ok r ∧
      ∀ k, r = .ok k ↔ s = (LocalNodeId.mk k).display hexlower keys) ↔
      (asBytes s).length = 64 := by
  constructor
  · rintro ⟨r, hr, _⟩
    by_contra hs
    have hlen : hexlower.decodeLen (asBytes s).length ≠ .ok 32 := by
      rw [Ne, hhex.decodeLen_eq_ok]
      exact hs
    obtain ⟨why, hwhy⟩ := hhex.decodeMut_panics _ _ hlen
    unfold PublicKey.fromStr at hr
    rw [hwhy] at hr
    cases hr
  · exact fromStr_of_length hhex hkeys

end

def ofAscii (bytes : List UInt8) : String :=
  String.ofList (bytes.map (fun b => Char.ofNat b.toNat))

lemma val_ofNat {b : UInt8} (h : b.toNat < 128) : (Char.ofNat b.toNat).val.toNat = b.toNat := by
  rw [Char.ofNat, dif_pos (.inl (by omega))]
  simp [Char.ofNatAux]

lemma utf8EncodeChar_ofNat {b : UInt8} (h : b.toNat < 128) :
    String.utf8EncodeChar (Char.ofNat b.toNat) = [b] := by
  have hval := val_ofNat h
  rw [String.utf8EncodeChar_eq_singleton]
  · have hbyte : (Char.ofNat b.toNat).val.toUInt8 = b := by
      rw [← UInt8.toNat_inj, UInt32.toNat_toUInt8, hval]
      omega
    rw [hbyte]
  · rw [Char.utf8Size_eq_one_iff, UInt32.le_iff_toNat_le, hval]
    exact Nat.le_of_lt_succ h

lemma asBytes_ofAscii {bytes : List UInt8} (h : ∀ b ∈ bytes, b.toNat < 128) :
    asBytes (ofAscii bytes) = bytes := by
  have hflat : asBytes (ofAscii bytes) =
      bytes.flatMap (fun b => String.utf8EncodeChar (Char.ofNat b.toNat)) := by
    rw [asBytes, ofAscii, String.toUTF8_eq_toByteArray, String.toByteArray_ofList, List.utf8Encode,
      List.data_toByteArray, List.toList_toArray, List.flatMap_map]
  rw [hflat]
  clear hflat
  induction bytes with
  | nil => rfl
  | cons b bytes ih =>
    rw [List.flatMap_cons, utf8EncodeChar_ofNat (h b List.mem_cons_self),
      ih fun x hx => h x (List.mem_cons_of_mem _ hx), List.singleton_append]

/-- The encoding with a given alphabet. -/
def ofAlphabet (a : Alphabet) : Encoding Unit where
  encode bytes := ofAscii (a.encode bytes)
  decodeLen len :=
    if a.encodeLen (len * a.width / 8) = len then .ok (len * a.width / 8) else .error ()
  decode text := (a.decode text).elim (.error ()) .ok
  decodeMut text n :=
    if a.encodeLen n = text.length then
      .ok ((a.decode text).elim (.error ()) fun bytes =>
        if h : bytes.length = n then .ok ⟨bytes.toArray, h⟩ else .error ())
    else .error (.assertion "left == right")

def hexDigits : Alphabet :=
  .ofSymbols 4 [48, 49, 50, 51, 52, 53, 54, 55, 56, 57, 97, 98, 99, 100, 101, 102]
    (by decide) (by decide) rfl (by decide)

example : (ofAlphabet hexDigits).encode [171, 1] = "ab01" := by decide

lemma hexDigits_encodeLen (n : ℕ) : hexDigits.encodeLen n = 2 * n := by
  have hlen : hexDigits.encodeLen n = (8 * n + 3) / 4 := rfl
  omega

lemma hexDigits_ascii (bytes : List UInt8) : ∀ c ∈ hexDigits.encode bytes, c.toNat < 128 := by
  intro c hc
  obtain ⟨v, hv, rfl⟩ := hexDigits.mem_encode hc
  have hall : ∀ v < 2 ^ 4, (hexDigits.symbol v).toNat < 128 := by decide
  exact hall v hv

lemma hexDigits_decodeLen (len n : ℕ) :
    (ofAlphabet hexDigits).decodeLen len = .ok n ↔ len = 2 * n := by
  have hlen : (ofAlphabet hexDigits).decodeLen len =
      if hexDigits.encodeLen (len * 4 / 8) = len then .ok (len * 4 / 8) else .error () := rfl
  rw [hlen, hexDigits_encodeLen]
  split_ifs with h
  · rw [Except.ok.injEq]
    omega
  · simp only [false_iff]
    omega

lemma hexDigits_hexLower : (ofAlphabet hexDigits).HexLower where
  decodeLen_eq_ok := hexDigits_decodeLen
  length_encode bytes := by
    have henc : (ofAlphabet hexDigits).encode bytes = ofAscii (hexDigits.encode bytes) := rfl
    rw [henc, asBytes_ofAscii (hexDigits_ascii bytes), Alphabet.length_encode, hexDigits_encodeLen]
  decode_eq_ok text bytes := by
    have henc : (ofAlphabet hexDigits).encode bytes = ofAscii (hexDigits.encode bytes) := rfl
    rw [henc, asBytes_ofAscii (hexDigits_ascii bytes), ← hexDigits.decode_eq_some]
    change (hexDigits.decode text).elim (Except.error ()) Except.ok = Except.ok bytes ↔ _
    cases hexDigits.decode text <;> simp
  decodeMut_panics text n h := by
    have hne : hexDigits.encodeLen n ≠ text.length := by
      rw [hexDigits_encodeLen]
      exact fun he => h ((hexDigits_decodeLen text.length n).mpr he.symm)
    exact ⟨_, if_neg hne⟩
  decodeMut_fills text n h := by
    have hlen : hexDigits.encodeLen n = text.length := by
      rw [hexDigits_encodeLen]
      exact ((hexDigits_decodeLen text.length n).mp h).symm
    refine ⟨_, if_pos hlen, ?_⟩
    change _ = (hexDigits.decode text).elim (Except.error ()) Except.ok
    cases hd : hexDigits.decode text with
    | none => rfl
    | some bytes =>
      have htext := hexDigits.decode_eq_some.mp hd
      have hbytes : bytes.length = n := by
        rw [htext, Alphabet.length_encode, hexDigits_encodeLen, hexDigits_encodeLen] at hlen
        omega
      rw [Option.elim_some, Option.elim_some, dif_pos hbytes]
      rfl

/-- Keys that are told by their bytes, with the certificates of Ed25519. -/
def rawKeys : KeyScheme (Vector UInt8 32) Unit where
  asBytes v := v
  fromBytes bytes := .ok bytes
  toPublicKeyDer v := some ([48, 42, 48, 5, 6, 3, 43, 101, 112, 3, 33, 0] ++ v.toList)

lemma rawKeys_exact : rawKeys.Exact where
  fromBytes_eq_ok bytes v := by
    change Except.ok bytes = Except.ok v ↔ v = bytes
    rw [Except.ok.injEq]
    exact eq_comm

/-- The base point of the curve as a key. -/
def basePoint : PublicKey (Vector UInt8 32) := ⟨(Vector.replicate 31 0x66).push 0x58 |>.reverse⟩

theorem fromStr_exact_iff_basePoint : PublicKey.fromStr (ofAlphabet hexDigits) rawKeys
    ((LocalNodeId.mk basePoint).display (ofAlphabet hexDigits) rawKeys) = .ok (.ok basePoint) := by
  have hs : (asBytes ((LocalNodeId.mk basePoint).display (ofAlphabet hexDigits) rawKeys)).length =
      64 := by
    refine (hexDigits_hexLower.length_encode _).trans ?_
    rw [Vector.length_toList]
  obtain ⟨r, hr, hk⟩ := (fromStr_exact_iff hexDigits_hexLower rawKeys_exact _).mpr hs
  rw [hr, (hk basePoint).mpr rfl]

/-- On a text of two digits the parser panics. -/
theorem fromStr_short_panics : PublicKey.fromStr (ofAlphabet hexDigits) rawKeys "58" =
    .error (.assertion "left == right") := rfl

end QuicP2p.P2p
