import QuicP2p.P2p.Keys

/-! The names under which nodes are dialled, and the check of the key that answers. -/

namespace QuicP2p.P2p

open Library

variable {V D S : Type}

/-- The parts of a string between the occurrences of a character. -/
def split (s : String) (c : Char) : List String := (s.toList.splitOn c).map String.ofList

def tryIntoArray (n : ℕ) (bytes : List UInt8) : Option (Vector UInt8 n) :=
  if h : bytes.length = n then some ⟨bytes.toArray, h⟩ else none

namespace Name

def encode (base32Dnssec : Encoding D) (keys : KeyScheme V S) (nodeId : PublicKey V) : String :=
  base32Dnssec.encode (nodeId.asBytes keys).toList ++ ".upaomo.invalid"

def decode (base32Dnssec : Encoding D) (keys : KeyScheme V S) (name : String) : Option V :=
  match split name '.' with
  | [base32NodeId, "upaomo", "invalid"] => do
    let bytes ← (base32Dnssec.decode (asBytes base32NodeId)).toOption
    let bytes ← tryIntoArray 32 bytes
    (keys.fromBytes bytes).toOption
  | _ => none

end Name

inductive ServerName
  | dnsName (name : String)
  | ipAddress (address : String)
  deriving DecidableEq

inductive CertificateError
  | notValidForName
  | unknownIssuer
  deriving DecidableEq

inductive TlsError
  | unsupportedNameType
  | invalidCertificate (err : CertificateError)
  deriving DecidableEq

def publicKeyToSpki (keys : KeyScheme V S) (remotePeerId : V) : Exec (List UInt8) :=
  orPanic (.expect "valid key") (keys.toPublicKeyDer remotePeerId)

def verifyServerCert (base32Dnssec : Encoding D) (keys : KeyScheme V S) (endEntity : List UInt8)
    (intermediates : List (List UInt8)) (serverName : ServerName) : Exec (Except TlsError Unit) :=
  match serverName with
  | .dnsName dnsName =>
    match Name.decode base32Dnssec keys dnsName with
    | some remotePeerId =>
      if intermediates ≠ [] then .ok (.error (.invalidCertificate .unknownIssuer))
      else do
        let spki ← publicKeyToSpki keys remotePeerId
        if spki ≠ endEntity then .ok (.error (.invalidCertificate .unknownIssuer))
        else .ok (.ok ())
    | none => .ok (.error (.invalidCertificate .notValidForName))
  | .ipAddress _ => .ok (.error .unsupportedNameType)

lemma split_name {s : String} (h : '.' ∉ s.toList) :
    split (s ++ ".upaomo.invalid") '.' = [s, "upaomo", "invalid"] := by
  have hjoin : (s ++ ".upaomo.invalid").toList =
      ['.'].intercalate [s.toList, "upaomo".toList, "invalid".toList] := by
    simp [List.intercalate, List.intersperse]
  have hno : ∀ l ∈ [s.toList, "upaomo".toList, "invalid".toList], '.' ∉ l := by
    simp [h]
  rw [split, hjoin, List.splitOn_intercalate _ hno (by simp)]
  simp

lemma tryIntoArray_toList {n : ℕ} (v : Vector UInt8 n) : tryIntoArray n v.toList = some v := by
  rw [tryIntoArray, dif_pos Vector.length_toList]
  exact congrArg some (Vector.toArray_inj.mp Array.toArray_toList)

section

variable {base32Dnssec : Encoding D} {keys : KeyScheme V S}

/-- Names are read back, if the encoding is and has no dots, and the keys have their own bytes. -/
lemma decode_encode
    (hround : ∀ bytes, base32Dnssec.decode (asBytes (base32Dnssec.encode bytes)) = .ok bytes)
    (hdot : ∀ bytes, '.' ∉ (base32Dnssec.encode bytes).toList)
    (hkey : ∀ v, keys.fromBytes (keys.asBytes v) = .ok v) (k : PublicKey V) :
    Name.decode base32Dnssec keys (Name.encode base32Dnssec keys k) = some k.key := by
  rw [Name.decode, Name.encode, split_name (hdot _)]
  change (do
    let bytes ← (base32Dnssec.decode
      (asBytes (base32Dnssec.encode (k.asBytes keys).toList))).toOption
    let bytes ← tryIntoArray 32 bytes
    (keys.fromBytes bytes).toOption) = some k.key
  rw [hround, PublicKey.asBytes]
  change (do
    let bytes ← tryIntoArray 32 (keys.asBytes k.key).toList
    (keys.fromBytes bytes).toOption) = some k.key
  rw [tryIntoArray_toList, Option.bind_eq_bind, Option.bind_some, hkey]
  rfl

/-- The name of one key and the certificate of another are accepted together if the keys are the
same and nothing stands between them; and the name is read back as its key. -/
theorem dialled_key_accepted_iff
    (hround : ∀ bytes, base32Dnssec.decode (asBytes (base32Dnssec.encode bytes)) = .ok bytes)
    (hdot : ∀ bytes, '.' ∉ (base32Dnssec.encode bytes).toList)
    (hkey : ∀ v, keys.fromBytes (keys.asBytes v) = .ok v)
    (hder : ∀ v, ∃ der, keys.toPublicKeyDer v = some der)
    (hspki : Function.Injective keys.toPublicKeyDer) (k k' : PublicKey V)
    (intermediates : List (List UInt8)) :
    (∃ spki r, publicKeyToSpki keys k'.key = .ok spki ∧
      verifyServerCert base32Dnssec keys spki intermediates
        (.dnsName (Name.encode base32Dnssec keys k)) = .ok r ∧
      (r = .ok () ↔ k = k' ∧ intermediates = [])) ∧
      Name.decode base32Dnssec keys (Name.encode base32Dnssec keys k) = some k.key := by
  have hname := decode_encode hround hdot hkey k
  refine ⟨?_, hname⟩
  obtain ⟨der, hk⟩ := hder k.key
  obtain ⟨der', hk'⟩ := hder k'.key
  have hsame : der = der' ↔ k = k' := by
    constructor
    · rintro rfl
      have hkeys := hspki (hk.trans hk'.symm)
      cases k
      cases k'
      exact congrArg PublicKey.mk hkeys
    · rintro rfl
      exact Option.some.inj (hk.symm.trans hk')
  simp only [publicKeyToSpki, verifyServerCert, hname, hk, hk', orPanic_some, ok_bind, ← hsame]
  refine ⟨der', ?_⟩
  by_cases hi : intermediates = []
  · by_cases hd : der = der'
    · exact ⟨.ok (), rfl, by simp [hi, hd], by simp [hi, hd]⟩
    · exact ⟨.error (.invalidCertificate .unknownIssuer), rfl, by simp [hi, hd], by simp [hd]⟩
  · exact ⟨.error (.invalidCertificate .unknownIssuer), rfl, by simp [hi], by simp [hi]⟩

end

def base32Digits : Alphabet :=
  .ofSymbols 5 [48, 49, 50, 51, 52, 53, 54, 55, 56, 57, 97, 98, 99, 100, 101, 102, 103, 104, 105,
    106, 107, 108, 109, 110, 111, 112, 113, 114, 115, 116, 117, 118]
    (by decide) (by decide) rfl (by decide)

example : (ofAlphabet base32Digits).encode [102, 111, 111, 98, 97, 114] = "cpnmuoj1e8" := by decide

lemma base32Digits_symbol {c : UInt8} {bytes : List UInt8} (h : c ∈ base32Digits.encode bytes) :
    c.toNat < 128 ∧ Char.ofNat c.toNat ≠ '.' := by
  obtain ⟨v, hv, rfl⟩ := base32Digits.mem_encode h
  have hall : ∀ v < 2 ^ 5, (base32Digits.symbol v).toNat < 128 ∧
      Char.ofNat (base32Digits.symbol v).toNat ≠ '.' := by decide
  exact hall v hv

lemma base32Digits_round (bytes : List UInt8) :
    (ofAlphabet base32Digits).decode (asBytes ((ofAlphabet base32Digits).encode bytes)) =
      .ok bytes := by
  have hsymbol : ∀ c ∈ base32Digits.encode bytes, c.toNat < 128 :=
    fun c hc => (base32Digits_symbol hc).1
  have hascii := asBytes_ofAscii hsymbol
  change ((base32Digits.decode (asBytes (ofAscii (base32Digits.encode bytes)))).elim
    (Except.error ()) Except.ok) = Except.ok bytes
  rw [hascii, base32Digits.decode_eq_some.mpr rfl]
  rfl

lemma base32Digits_dot (bytes : List UInt8) :
    '.' ∉ ((ofAlphabet base32Digits).encode bytes).toList := by
  change '.' ∉ (ofAscii (base32Digits.encode bytes)).toList
  rw [ofAscii, String.toList_ofList]
  intro hm
  obtain ⟨c, hc, hdot⟩ := List.mem_map.mp hm
  exact (base32Digits_symbol hc).2 hdot

theorem dialled_key_accepted_iff_basePoint : ∃ spki,
    publicKeyToSpki rawKeys basePoint.key = .ok spki ∧
      verifyServerCert (ofAlphabet base32Digits) rawKeys spki []
        (.dnsName (Name.encode (ofAlphabet base32Digits) rawKeys basePoint)) = .ok (.ok ()) := by
  have hkey : ∀ v, rawKeys.fromBytes (rawKeys.asBytes v) = .ok v := fun _ => rfl
  have hspki : Function.Injective rawKeys.toPublicKeyDer := fun v w h =>
    Vector.toList_inj.mp (List.append_cancel_left (Option.some.inj h))
  obtain ⟨⟨spki, r, hspki, hr, hiff⟩, _⟩ := dialled_key_accepted_iff base32Digits_round
    base32Digits_dot hkey (fun _ => ⟨_, rfl⟩) hspki basePoint basePoint []
  rw [hiff.mpr ⟨rfl, rfl⟩] at hr
  exact ⟨spki, hspki, hr⟩

end QuicP2p.P2p
