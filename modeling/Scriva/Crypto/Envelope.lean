import Scriva.Lib.Fallible
import Scriva.Lib.Text
import Mathlib.Tactic

/-!
# Envelopes and keys

A sealed value is a text: a marker that no caller may use, a version, the id of
the key and the sealed bytes.  Reading takes it apart, asks for the key by its
id and opens the bytes.  The cipher and the textual form of its output are
parameters, of which only the round trips are assumed.

A keyring has keys by id, one of which is current.  A check text, sealed with a
key, tells later whether a key is that one.
-/

namespace Scriva.Crypto.Envelope

open Lib.Text

abbrev Key := Bytes

def keySize : Nat := 32

inductive CryptoError where
  | reservedPrefix
  | keyUnavailable
  | decryptFailed
  | wrongEncryptionKey
  | invalidKeyID
  | invalidKeySize
deriving DecidableEq, Repr

/-- Authenticated encryption and the textual form of what it writes.  A number
stands for the randomness of a nonce, which is written with the ciphertext. -/
structure Cipher where
  sealBytes : Key → Nat → Bytes → Bytes → Bytes
  openBytes : Key → Bytes → Bytes → Option Bytes
  encode : Bytes → List Char
  decode : List Char → Option Bytes
  openBytes_sealBytes : ∀ key nonce plaintext aad,
    openBytes key (sealBytes key nonce plaintext aad) aad = some plaintext
  decode_encode : ∀ payload, decode (encode payload) = some payload

theorem toNat_ofNat_byte (byte : UInt8) : (Char.ofNat byte.toNat).toNat = byte.toNat := by
  have small : byte.toNat < 256 := byte.toNat_lt
  rw [Char.toNat_ofNat, if_pos (Or.inl (by omega))]

/-- A cipher to compute with: it writes the key in front of the plaintext and
takes only that key to open it. -/
def tagging : Cipher where
  sealBytes key _ plaintext _ := key ++ plaintext
  openBytes key payload _ :=
    if key.isPrefixOf payload then some (payload.drop key.length) else none
  encode payload := payload.map fun byte => Char.ofNat byte.toNat
  decode text := some (text.map fun c => UInt8.ofNat c.toNat)
  openBytes_sealBytes key _ plaintext _ := by
    rw [if_pos (List.isPrefixOf_iff_prefix.mpr (List.prefix_append key plaintext)),
      List.drop_left]
  decode_encode payload := by
    rw [List.map_map]
    congr 1
    conv_rhs => rw [← List.map_id payload]
    apply List.map_congr_left
    intro byte _
    change UInt8.ofNat (Char.ofNat byte.toNat).toNat = byte
    rw [toNat_ofNat_byte, UInt8.ofNat_toNat]

/-! ## Envelopes -/

def marker : List Char :=
  '\x00' :: "scrivaenc".toList

def version : List Char :=
  "v1".toList

def isEncrypted (s : String) : Bool :=
  (marker ++ [':']).isPrefixOf s.toList

def hasReservedPrefix (s : String) : Bool :=
  marker.isPrefixOf s.toList

theorem hasReservedPrefix_of_isEncrypted {s : String} (sealed : isEncrypted s) :
    hasReservedPrefix s := by
  rw [isEncrypted, List.isPrefixOf_iff_prefix] at sealed
  rw [hasReservedPrefix, List.isPrefixOf_iff_prefix]
  exact (List.prefix_append marker [':']).trans sealed

def validateKeyID (keyID : String) : Except CryptoError Unit :=
  if keyID.toList = [] ∨ ':' ∈ keyID.toList then .error .invalidKeyID else .ok ()

/-- Split at the first occurrence of a character. -/
def cut (separator : Char) : List Char → Option (List Char × List Char)
  | [] => none
  | c :: rest =>
    if c = separator then some ([], rest)
    else (cut separator rest).map fun (front, back) => (c :: front, back)

/-- What is in front of the first separator, and what is behind it. -/
theorem cut_eq_some {separator : Char} {text front back : List Char} :
    cut separator text = some (front, back) ↔
      text = front ++ separator :: back ∧ separator ∉ front := by
  induction text generalizing front with
  | nil => simp [cut]
  | cons c text ih =>
    rw [cut]
    split_ifs with here
    · subst here
      cases front with
      | nil => simp
      | cons d front => simp +contextual [eq_comm]
    · rw [Option.map_eq_some_iff]
      cases front with
      | nil => simp [here]
      | cons d front =>
        simp only [Prod.exists, Prod.mk.injEq, List.cons_append, List.cons.injEq, List.mem_cons]
        constructor
        · rintro ⟨front', back', found, ⟨rfl, rfl⟩, rfl⟩
          obtain ⟨rfl, free⟩ := ih.mp found
          exact ⟨⟨rfl, rfl⟩, not_or.mpr ⟨Ne.symm here, free⟩⟩
        · rintro ⟨⟨rfl, split⟩, free⟩
          exact ⟨front, back, ih.mpr ⟨split, (not_or.mp free).2⟩, ⟨rfl, rfl⟩, rfl⟩

variable (cipher : Cipher)

/-- The key id and the sealed bytes of an envelope. -/
def parse (envelope : String) : Except CryptoError (String × Bytes) :=
  if !isEncrypted envelope then .error .decryptFailed
  else
    match cut ':' (envelope.toList.drop (marker.length + 1)) with
    | none => .error .decryptFailed
    | some (found, rest) =>
      match cut ':' rest with
      | none => .error .decryptFailed
      | some (keyID, payload) =>
        if found ≠ version then .error .decryptFailed
        else if keyID = [] then .error .decryptFailed
        else
          match cipher.decode payload with
          | none => .error .decryptFailed
          | some payload => .ok (String.ofList keyID, payload)

/-- The id of the key that an envelope was sealed with. -/
def keyID (envelope : String) : Except CryptoError String :=
  (parse cipher envelope).map Prod.fst

/-- The text of an envelope. -/
def envelopeText (keyID : String) (payload : Bytes) : String :=
  String.ofList (marker ++ ':' :: (version ++ ':' :: (keyID.toList ++ ':' :: cipher.encode payload)))

def encrypt (key : Key) (keyID : String) (nonce : Nat) (plaintext aad : Bytes) :
    Except CryptoError String := do
  validateKeyID keyID
  if key.length ≠ keySize then .error .invalidKeySize
  else .ok (envelopeText cipher keyID (cipher.sealBytes key nonce plaintext aad))

def decrypt (key : Key) (envelope : String) (aad : Bytes) : Except CryptoError Bytes := do
  let (_, payload) ← parse cipher envelope
  if key.length ≠ keySize then .error .decryptFailed
  else
    match cipher.openBytes key payload aad with
    | none => .error .decryptFailed
    | some plaintext => .ok plaintext

theorem isEncrypted_envelopeText (keyID : String) (payload : Bytes) :
    isEncrypted (envelopeText cipher keyID payload) := by
  rw [isEncrypted, envelopeText, String.toList_ofList, List.isPrefixOf_iff_prefix]
  exact ⟨_, by rw [List.append_assoc]; rfl⟩

variable {keyID envelope check : String} {key other : Key} {nonce : Nat}
  {plaintext aad found : Bytes}

theorem validateKeyID_eq_ok :
    validateKeyID keyID = .ok () ↔ keyID.toList ≠ [] ∧ ':' ∉ keyID.toList := by
  rw [validateKeyID]
  split_ifs with invalid
  · constructor
    · intro absurd
      cases absurd
    · rintro ⟨filled, plain⟩
      rcases invalid with empty | inside
      · exact absurd empty filled
      · exact absurd inside plain
  · exact ⟨fun _ => not_or.mp invalid, fun _ => rfl⟩

theorem parse_envelopeText (valid : validateKeyID keyID = .ok ()) (payload : Bytes) :
    parse cipher (envelopeText cipher keyID payload) = .ok (keyID, payload) := by
  obtain ⟨filled, plain⟩ := validateKeyID_eq_ok.mp valid
  have text : (envelopeText cipher keyID payload).toList.drop (marker.length + 1) =
      version ++ ':' :: (keyID.toList ++ ':' :: cipher.encode payload) := by
    rw [envelopeText, String.toList_ofList]
    rfl
  have first : cut ':' (version ++ ':' :: (keyID.toList ++ ':' :: cipher.encode payload)) =
      some (version, keyID.toList ++ ':' :: cipher.encode payload) :=
    cut_eq_some.mpr ⟨rfl, by decide⟩
  rw [parse, isEncrypted_envelopeText, text, first]
  simp only [Bool.not_true, Bool.false_eq_true, if_false, cut_eq_some.mpr ⟨rfl, plain⟩, ne_eq,
    not_true_eq_false, filled, cipher.decode_encode, String.ofList_toList]

/-- What an encryption writes: an envelope with the id of the key. -/
theorem encrypt_eq_ok (sealed : encrypt cipher key keyID nonce plaintext aad = .ok envelope) :
    validateKeyID keyID = .ok () ∧ key.length = keySize ∧
      envelope = envelopeText cipher keyID (cipher.sealBytes key nonce plaintext aad) := by
  rcases valid : validateKeyID keyID with error | ⟨⟩
  · rw [encrypt, valid] at sealed
    cases sealed
  · rw [encrypt, valid] at sealed
    change (if key.length ≠ keySize then _ else _) = _ at sealed
    split_ifs at sealed with size
    exact ⟨rfl, not_not.mp size, (Except.ok.inj sealed).symm⟩

theorem isEncrypted_encrypt (sealed : encrypt cipher key keyID nonce plaintext aad = .ok envelope) :
    isEncrypted envelope := by
  obtain ⟨-, -, rfl⟩ := encrypt_eq_ok cipher sealed
  exact isEncrypted_envelopeText cipher keyID _

theorem parse_encrypt (sealed : encrypt cipher key keyID nonce plaintext aad = .ok envelope) :
    parse cipher envelope = .ok (keyID, cipher.sealBytes key nonce plaintext aad) := by
  obtain ⟨valid, -, rfl⟩ := encrypt_eq_ok cipher sealed
  exact parse_envelopeText cipher valid _

/-- Decryption reads the sealed bytes, whatever key id they were sealed under. -/
theorem decrypt_envelopeText (valid : validateKeyID keyID = .ok ()) (size : key.length = keySize)
    (payload aad : Bytes) :
    decrypt cipher key (envelopeText cipher keyID payload) aad =
      match cipher.openBytes key payload aad with
      | none => .error .decryptFailed
      | some plaintext => .ok plaintext := by
  rw [decrypt, parse_envelopeText cipher valid]
  change (if key.length ≠ keySize then _ else _) = _
  rw [if_neg (not_not.mpr size)]

theorem decrypt_encrypt (sealed : encrypt cipher key keyID nonce plaintext aad = .ok envelope) :
    decrypt cipher key envelope aad = .ok plaintext := by
  obtain ⟨valid, size, rfl⟩ := encrypt_eq_ok cipher sealed
  rw [decrypt_envelopeText cipher valid size, cipher.openBytes_sealBytes]

/-! ## Keyrings -/

/-- Keys by id, one of them current. -/
structure Keyring where
  keys : String → Option Key
  currentID : String

variable {ring : Keyring}

namespace Keyring

def add (ring : Keyring) (keyID : String) (key : Key) : Except CryptoError Keyring := do
  validateKeyID keyID
  if key.length ≠ keySize then .error .invalidKeySize
  else .ok { ring with keys := Function.update ring.keys keyID (some key) }

def new (keyID : String) (key : Key) : Except CryptoError Keyring := do
  let ring ← add ⟨fun _ => none, ""⟩ keyID key
  return { ring with currentID := keyID }

def setCurrent (ring : Keyring) (keyID : String) : Except CryptoError Keyring :=
  if (ring.keys keyID).isNone then .error .keyUnavailable
  else .ok { ring with currentID := keyID }

def current (ring : Keyring) : Except CryptoError (String × Key) :=
  match ring.keys ring.currentID with
  | none => .error .keyUnavailable
  | some key => .ok (ring.currentID, key)

def byID (ring : Keyring) (keyID : String) : Except CryptoError Key :=
  match ring.keys keyID with
  | none => .error .keyUnavailable
  | some key => .ok key

/-- Every key of one ring is in the other under its id. -/
def Within (ring later : Keyring) : Prop :=
  ∀ keyID key, ring.keys keyID = some key → later.keys keyID = some key

theorem Within.refl (ring : Keyring) : Within ring ring :=
  fun _ _ found => found

theorem current_eq_ok (found : ring.current = .ok (keyID, key)) :
    ring.currentID = keyID ∧ ring.keys keyID = some key := by
  rw [current] at found
  split at found
  · cases found
  · rename_i held there
    obtain ⟨rfl, rfl⟩ := Prod.mk.inj (Except.ok.inj found)
    exact ⟨rfl, there⟩

end Keyring

/-- Open an envelope with the key that it names. -/
def decryptWith (ring : Keyring) (envelope : String) (aad : Bytes) : Except CryptoError Bytes := do
  let (keyID, _) ← parse cipher envelope
  match ring.byID keyID with
  | .error _ => .error .keyUnavailable
  | .ok key => decrypt cipher key envelope aad

variable {payload : Bytes}

theorem decryptWith_of_parse (parsed : parse cipher envelope = .ok (keyID, payload)) :
    decryptWith cipher ring envelope aad =
      match ring.byID keyID with
      | .error _ => .error .keyUnavailable
      | .ok key => decrypt cipher key envelope aad := by
  rw [decryptWith, parsed]
  rfl

/-- What was sealed with a key opens with every keyring that has the key under
that id. -/
theorem decryptWith_encrypt (sealed : encrypt cipher key keyID nonce plaintext aad = .ok envelope)
    (held : ring.keys keyID = some key) : decryptWith cipher ring envelope aad = .ok plaintext := by
  rw [decryptWith_of_parse cipher (parse_encrypt cipher sealed), Keyring.byID, held]
  exact decrypt_encrypt cipher sealed

/-- What opens with one keyring opens with every keyring that has its keys. -/
theorem decryptWith_mono {later : Keyring} (within : ring.Within later)
    (opened : decryptWith cipher ring envelope aad = .ok plaintext) :
    decryptWith cipher later envelope aad = .ok plaintext := by
  rcases parsed : parse cipher envelope with error | ⟨keyID, payload⟩
  · rw [decryptWith, parsed] at opened
    cases opened
  · rw [decryptWith_of_parse cipher parsed, Keyring.byID] at opened ⊢
    rcases held : ring.keys keyID with - | key
    · rw [held] at opened
      cases opened
    · rw [held] at opened
      rw [within keyID key held]
      exact opened

/-! ## Envelopes are unambiguous -/

/-- What an envelope has in front of its sealed bytes. -/
def header (keyID : String) : List Char :=
  marker ++ ':' :: (version ++ ':' :: (keyID.toList ++ [':']))

/-- What is read as an envelope has the header of a valid key id. -/
theorem header_of_parse (parsed : parse cipher envelope = .ok (keyID, payload)) :
    validateKeyID keyID = .ok () ∧ ∃ text, envelope.toList = header keyID ++ text ∧
      cipher.decode text = some payload := by
  rw [parse] at parsed
  split_ifs at parsed with marked
  split at parsed
  · cases parsed
  rename_i found rest first
  split at parsed
  · cases parsed
  rename_i name text second
  split_ifs at parsed with versioned empty
  split at parsed
  · cases parsed
  rename_i bytes decoded
  obtain ⟨rfl, rfl⟩ := Prod.mk.inj (Except.ok.inj parsed)
  obtain ⟨start, -⟩ := cut_eq_some.mp first
  obtain ⟨rfl, plain⟩ := cut_eq_some.mp second
  rw [not_not] at versioned
  subst versioned
  refine ⟨validateKeyID_eq_ok.mpr ?_, text, ?_, decoded⟩
  · rw [String.toList_ofList]
    exact ⟨empty, plain⟩
  · rw [Bool.not_eq_true', Bool.not_eq_false, isEncrypted, List.isPrefixOf_iff_prefix] at marked
    obtain ⟨behind, split⟩ := marked
    have same : envelope.toList.drop (marker.length + 1) = behind := by
      rw [← split]
      rfl
    rw [← split, ← same, start, header, String.toList_ofList]
    simp only [List.append_assoc, List.cons_append, List.nil_append]

/-- Whatever is sealed with a key of the right size under a valid id is marked,
names the id and opens with a keyring that has the key under it; and whatever is
read as an envelope has a valid id and begins with the header that sealing
writes for it. -/
theorem envelopes_unambiguous (cipher : Cipher) :
    (∀ (key : Key) (keyID : String) (nonce : Nat) (plaintext aad : Bytes),
      key.length = keySize → validateKeyID keyID = .ok () →
        ∃ envelope, encrypt cipher key keyID nonce plaintext aad = .ok envelope ∧
          isEncrypted envelope = true ∧ hasReservedPrefix envelope = true ∧
          Envelope.keyID cipher envelope = .ok keyID ∧ header keyID <+: envelope.toList ∧
          ∀ ring : Keyring, ring.keys keyID = some key →
            decryptWith cipher ring envelope aad = .ok plaintext) ∧
      ∀ envelope keyID payload, parse cipher envelope = .ok (keyID, payload) →
        validateKeyID keyID = .ok () ∧ header keyID <+: envelope.toList := by
  refine ⟨fun key keyID nonce plaintext aad size valid => ?_, fun envelope keyID payload parsed => ?_⟩
  · have sealed : encrypt cipher key keyID nonce plaintext aad =
        .ok (envelopeText cipher keyID (cipher.sealBytes key nonce plaintext aad)) := by
      rw [encrypt, valid]
      exact if_neg (not_not.mpr size)
    have marked := isEncrypted_encrypt cipher sealed
    have parsed := parse_encrypt cipher sealed
    obtain ⟨-, text, split, -⟩ := header_of_parse cipher parsed
    refine ⟨_, sealed, marked, hasReservedPrefix_of_isEncrypted marked, ?_, ⟨text, split.symm⟩,
      fun ring held => decryptWith_encrypt cipher sealed held⟩
    rw [Envelope.keyID, parsed]
    rfl
  · obtain ⟨valid, text, split, -⟩ := header_of_parse cipher parsed
    exact ⟨valid, text, split.symm⟩

/-! ## Key checks -/

def keyCheckConstant : Bytes :=
  utf8 "scriva encryption key-check v1".toList

def keyCheckAAD : Bytes :=
  utf8 "scriva:key-check".toList

def makeKeyCheck (key : Key) (keyID : String) (nonce : Nat) : Except CryptoError String :=
  encrypt cipher key keyID nonce keyCheckConstant keyCheckAAD

def verifyKeyCheck (key : Key) (envelope : String) : Except CryptoError Unit :=
  match decrypt cipher key envelope keyCheckAAD with
  | .error _ => .error .wrongEncryptionKey
  | .ok plaintext => if plaintext = keyCheckConstant then .ok () else .error .wrongEncryptionKey

/-- A key passes the check that was made with it. -/
theorem verifyKeyCheck_makeKeyCheck (made : makeKeyCheck cipher key keyID nonce = .ok check) :
    verifyKeyCheck cipher key check = .ok () := by
  rw [verifyKeyCheck, decrypt_encrypt cipher made]
  exact if_pos rfl

/-- Nothing sealed with one key opens with another. -/
def Authentic : Prop :=
  ∀ {key other : Key} (nonce : Nat) (plaintext aad : Bytes), key.length = keySize →
    other.length = keySize → other ≠ key →
      cipher.openBytes other (cipher.sealBytes key nonce plaintext aad) aad = none

theorem eq_of_decrypt (authentic : Authentic cipher)
    (sealed : encrypt cipher key keyID nonce plaintext aad = .ok envelope)
    (opened : decrypt cipher other envelope aad = .ok found) : other = key := by
  obtain ⟨valid, size, rfl⟩ := encrypt_eq_ok cipher sealed
  by_contra different
  by_cases fits : other.length = keySize
  · rw [decrypt_envelopeText cipher valid fits,
      authentic nonce _ _ size fits different] at opened
    cases opened
  · rw [decrypt, parse_envelopeText cipher valid] at opened
    change (if other.length ≠ keySize then _ else _) = _ at opened
    rw [if_pos fits] at opened
    cases opened

/-- Another key does not pass the check. -/
theorem eq_of_verifyKeyCheck (authentic : Authentic cipher)
    (made : makeKeyCheck cipher key keyID nonce = .ok check)
    (verified : verifyKeyCheck cipher other check = .ok ()) : other = key := by
  rw [verifyKeyCheck] at verified
  rcases opened : decrypt cipher other check keyCheckAAD with error | found
  · rw [opened] at verified
    cases verified
  · exact eq_of_decrypt cipher authentic made opened

/-- What a keyring opens of an envelope is what was sealed, whatever its keys. -/
theorem decryptWith_sealed (authentic : Authentic cipher)
    (sealed : encrypt cipher key keyID nonce plaintext aad = .ok envelope)
    (opened : decryptWith cipher ring envelope aad = .ok found) : found = plaintext := by
  rw [decryptWith_of_parse cipher (parse_encrypt cipher sealed)] at opened
  split at opened
  · cases opened
  · rename_i other named
    obtain rfl := eq_of_decrypt cipher authentic sealed opened
    exact Except.ok.inj (opened.symm.trans (decrypt_encrypt cipher sealed))

theorem authentic_tagging : Authentic tagging := by
  intro key other nonce plaintext aad size fits different
  change (if other.isPrefixOf (key ++ plaintext) then _ else none) = none
  rw [if_neg]
  intro front
  rw [List.isPrefixOf_iff_prefix] at front
  have same : other <+: key := List.prefix_of_prefix_length_le front
    (List.prefix_append key plaintext) (by rw [fits, size])
  exact different (same.eq_of_length (by rw [fits, size]))

end Scriva.Crypto.Envelope
