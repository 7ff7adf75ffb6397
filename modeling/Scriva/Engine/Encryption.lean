import Scriva.Crypto.Envelope
import Scriva.Store.Maps
import Scriva.Engine.Calls

/-!
# Encryption of records

A policy says which part of a record is sealed when it is written: named
fields, or the whole record apart from some columns.  Reading does not look at
the policy but at the mode that was fixed when encryption was first enabled and
at the marker of each value.

The relation between a stored record and what it means depends on the mode, the
collection and the keys only.  Sealing establishes it, reading computes the
plain record from it, and it stays true as keys are added and policies change.
-/

namespace Scriva.Engine.Encryption

open Lib.Fallible Lib.Text Lib.JsonText Store.Record
open Crypto.Envelope (Cipher Keyring CryptoError Key hasReservedPrefix isEncrypted)
open Engine.Collection (keyField)
open Data (get_overlay get_filter ext_get get_set)
open Crypto.Envelope (decryptWith decryptWith_encrypt isEncrypted_encrypt)

/-! ## Policies -/

inductive EncryptionMode where
  | off
  | fields
  | record
  | other (name : String)
deriving DecidableEq, Repr

def secureDataField : String :=
  "secure_data"

structure EncryptionPolicy where
  mode : EncryptionMode
  fields : List String
  indexFields : List String
deriving DecidableEq, Repr

inductive PolicyError where
  | noFields
  | encryptedField (field : String)
  | plainField (field : String)
  | unknownMode (mode : EncryptionMode)
deriving DecidableEq, Repr

namespace EncryptionPolicy

/-- The zero policy, under which nothing is sealed. -/
def disabled : EncryptionPolicy :=
  ⟨.off, [], []⟩

def validate (policy : EncryptionPolicy) : Except PolicyError Unit :=
  match policy.mode with
  | .fields =>
    if policy.fields = [] then .error .noFields
    else
      match policy.fields.find? fun f => f = keyField ∨ f = secureDataField with
      | some f => .error (.encryptedField f)
      | none => .ok ()
  | .record =>
    if secureDataField ∈ policy.indexFields then .error (.plainField secureDataField)
    else .ok ()
  | mode => .error (.unknownMode mode)

/-- A policy that passes the check is of one of the two modes, does not seal
the key and does not have the blob as a column. -/
theorem validate_eq_ok {policy : EncryptionPolicy} (valid : policy.validate = .ok ()) :
    (policy.mode = .fields ∨ policy.mode = .record) ∧
      (policy.mode = .fields → keyField ∉ policy.fields) ∧
      (policy.mode = .record → secureDataField ∉ policy.indexFields) := by
  rw [validate] at valid
  rcases shape : policy.mode with - | - | - | name
  · rw [shape] at valid
    cases valid
  · refine ⟨Or.inl rfl, fun _ => ?_, (fun different => by cases different)⟩
    rw [shape] at valid
    dsimp only at valid
    split_ifs at valid
    rcases searched : policy.fields.find? fun f => f = keyField ∨ f = secureDataField with - | f
    · intro member
      have refused := List.find?_eq_none.mp searched keyField member
      simp at refused
    · rw [searched] at valid
      cases valid
  · refine ⟨Or.inr rfl, (fun different => by cases different), fun _ => ?_⟩
    rw [shape] at valid
    dsimp only at valid
    split_ifs at valid with reserved
    exact reserved
  · rw [shape] at valid
    cases valid

end EncryptionPolicy

/-- The encryption of a collection under its current policy.  The keys are
those of the provider at the time of a call. -/
structure PolicyEncryptor where
  collection : String
  readMode : EncryptionMode
  writePolicy : EncryptionPolicy
  epoch : Nat
deriving DecidableEq, Repr

inductive EncryptionError where
  | reservedValue
  | reservedField
  | noKey (reason : CryptoError)
  | sealing (field : String) (reason : CryptoError)
  | opening (field : String) (reason : CryptoError)
  | policy (reason : PolicyError)
  | modeSwitch (present asked : EncryptionMode)
  | noKeyProvider
  | notEncrypted
  | keyCheck (reason : CryptoError)
  | persist
deriving DecidableEq, Repr

/-! ## The form of values -/

/-- A value with its maps in order. -/
abbrev Proper (N : Type) := { value : Value N // canonical value = true }

variable {N : Type} [JsonNumber N]

def marshal (value : Value N) : Bytes :=
  utf8 (render (toJson value))

def unmarshal? (bytes : Bytes) : Option (Proper N) :=
  ((utf8? bytes).bind parse).bind fun json =>
    match read : (ofJson? json : Option (Value N)) with
    | some value => some ⟨value, canonical_ofJson? json value read⟩
    | none => none

def unmarshalMap? (bytes : Bytes) : Option (Option (Data N)) :=
  ((utf8? bytes).bind parse).bind (Data.merge? none)

theorem parse_marshal (value : Value N) :
    (utf8? (marshal value)).bind parse = some (toJson value) := by
  have read := parse_render (toJson value) [] (wellFormed_toJson value) (by simp)
  rw [List.append_nil] at read
  rw [marshal, utf8?_utf8, Option.bind_some, read]

theorem unmarshal?_marshal (value : Proper N) : unmarshal? (marshal value.1) = some value := by
  have read := ofJson?_toJson value.1 value.2
  rw [unmarshal?, parse_marshal, Option.bind_some]
  split
  · rename_i found again
    rw [read] at again
    exact congrArg some (Subtype.ext (Option.some.inj again).symm)
  · rename_i again
    rw [read] at again
    cases again

theorem unmarshalMap?_marshal (data : Data N) :
    unmarshalMap? (marshal (.obj data.fields)) = some (some data) := by
  rw [unmarshalMap?, parse_marshal, Option.bind_some]
  exact Data.merge?_toJson data

/-! ## Sealing -/

section Functions

variable (cipher : Cipher) (keys : Keyring) (e : PolicyEncryptor)

def PolicyEncryptor.enabled : Bool :=
  e.writePolicy.mode ≠ .off

def aad (collection field : String) : Bytes :=
  utf8 (collection.toList ++ '\x1f' :: field.toList)

/-- The envelope of a value under a field. -/
def sealValue (keyID : String) (key : Key) (seed : Nat) (field : String) (value : Value N) :
    Except EncryptionError String :=
  (Crypto.Envelope.encrypt cipher key keyID seed (marshal value) (aad e.collection field)).mapError
    (.sealing field)

/-- Some value begins with the reserved marker. -/
def hasReservedValue (data : Data N) : Bool :=
  data.fields.any fun field =>
    match field.2 with
    | .str text => hasReservedPrefix text
    | _ => false

/-- Replace named fields by their envelopes. -/
def sealFields (keyID : String) (key : Key) (seed : Nat) (data : Data N) :
    List String → Data N → Except EncryptionError (Data N)
  | [], out => .ok out
  | f :: fields, out =>
    match data.get f with
    | none => sealFields keyID key seed data fields out
    | some value =>
      match sealValue cipher e keyID key seed f value with
      | .error error => .error error
      | .ok envelope => sealFields keyID key seed data fields (out.set f envelope)

/-- The fields that stay columns in record mode. -/
def isColumn (policy : EncryptionPolicy) (field : String) : Bool :=
  field = keyField ∨ field ∈ policy.indexFields

/-- The stored form under a policy that seals. -/
def encryptUnder (keyID : String) (key : Key) (seed : Nat) (data : Data N) :
    Except EncryptionError (Data N) :=
  match e.writePolicy.mode with
  | .fields => sealFields cipher e keyID key seed data e.writePolicy.fields data
  | .record =>
    if (data.get secureDataField).isSome then .error .reservedField
    else
      let rest := data.filter fun field => !isColumn e.writePolicy field
      match sealValue cipher e keyID key seed secureDataField (.obj rest.fields) with
      | .error error => .error error
      | .ok envelope =>
        .ok ((data.filter (isColumn e.writePolicy)).set secureDataField envelope)
  | _ => .ok data

def encrypt (seed : Nat) (data : Data N) : Except EncryptionError (Data N) :=
  if hasReservedValue data then .error .reservedValue
  else if !e.enabled then .ok data
  else
    match keys.current with
    | .error reason => .error (.noKey reason)
    | .ok (keyID, key) => encryptUnder cipher e keyID key seed data

/-! ## Reading -/

def maybeDecryptValue (field : String) (value : Proper N) : Except EncryptionError (Proper N) :=
  match value.1 with
  | .str text =>
    if isEncrypted text then
      match decryptWith cipher keys text (aad e.collection field) with
      | .error reason => .error (.opening field reason)
      | .ok plaintext =>
        match unmarshal? plaintext with
        | some opened => .ok opened
        | none => .error (.opening field .decryptFailed)
    else .ok value
  | _ => .ok value

/-- The map inside the blob of a record; a value that is no blob has none. -/
def decryptBlob (blob : Option (Value N)) : Except EncryptionError (Data N) :=
  match blob with
  | some (.str text) =>
    if isEncrypted text then
      match decryptWith cipher keys text (aad e.collection secureDataField) with
      | .error reason => .error (.opening secureDataField reason)
      | .ok plaintext =>
        match unmarshalMap? plaintext with
        | some merged => .ok (merged.getD Data.empty)
        | none => .error (.opening secureDataField .decryptFailed)
    else .ok Data.empty
  | _ => .ok Data.empty

/-- Open the values of some fields and put them into a map. -/
def openFields (stored : Data N) : List String → Data N → Except EncryptionError (Data N)
  | [], out => .ok out
  | f :: fields, out =>
    match found : stored.get f with
    | none => openFields stored fields out
    | some value =>
      match maybeDecryptValue cipher keys e f ⟨value, Data.canonical_of_get found⟩ with
      | .error error => .error error
      | .ok opened => openFields stored fields (out.put f opened.1 opened.2)

omit [JsonNumber N] in
/-- Copy some fields of a map to another one. -/
def copyFields (data : Data N) (wanted : String → Bool) (out : Data N) : Data N :=
  out.overlay (data.filter wanted)

def materializeFields (stored : Data N) (fields : List String) :
    Except EncryptionError (Data N) :=
  match fields with
  | [] => openFields cipher keys e stored (stored.fields.map Prod.fst) Data.empty
  | fields =>
    (openFields cipher keys e stored fields Data.empty).map
      (copyFields stored (· = keyField))

def materializeRecord (stored : Data N) (fields : List String) :
    Except EncryptionError (Data N) :=
  match fields with
  | [] =>
    (decryptBlob cipher keys e (stored.get secureDataField)).map fun merged =>
      (stored.filter (· ≠ secureDataField)).overlay merged
  | fields =>
    let isHere := fun f => (stored.get f).isSome ∧ f ≠ secureDataField
    let columns := stored.filter fun f =>
      f = keyField ∨ f ∈ fields ∧ f ≠ secureDataField
    if fields.any fun f => f ≠ keyField ∧ ¬isHere f then
      (decryptBlob cipher keys e (stored.get secureDataField)).map fun merged =>
        copyFields merged
          (fun f => f ∈ fields ∧ f ≠ keyField ∧ (columns.get f).isNone) columns
    else .ok columns

def materialize (stored : Data N) (fields : List String) : Except EncryptionError (Data N) :=
  if e.readMode = .record then materializeRecord cipher keys e stored fields
  else materializeFields cipher keys e stored fields

def reencrypt (seed : Nat) (stored : Data N) : Except EncryptionError (Data N) :=
  (materialize cipher keys e stored []).bind (encrypt cipher keys e seed)

end Functions

/-- A view of a record limited to the named fields and its key. -/
def projectData (data : Data N) (fields : List String) : Data N :=
  if fields = [] then data
  else data.filter fun f => f = keyField ∨ f ∈ fields

/-- A field is opaque on disk under the current policy. -/
def isEncryptedField (policy : EncryptionPolicy) (field : String) : Bool :=
  match policy.mode with
  | .fields => field ∈ policy.fields
  | .record => !isColumn policy field
  | _ => false

/-! ## What a stored record means -/

variable {field keyID : String} {e' : PolicyEncryptor} {key : Key} {seed : Nat}

section Stored

variable (cipher : Cipher) (keys : Keyring) (collection : String)

/-- A stored value means a value: it is that value and has no marker, or it is an
envelope of the value under a key that is there. -/
inductive Means (field : String) : Value N → Value N → Prop where
  | plain {value : Value N}
      (unmarked : ∀ text, value = .str text → isEncrypted text = false) : Means field value value
  | closed {value : Value N} {keyID envelope : String} {key : Key} {seed : Nat}
      (proper : canonical value = true) (held : keys.keys keyID = some key)
      (made : Crypto.Envelope.encrypt cipher key keyID seed (marshal value)
        (aad collection field) = .ok envelope) :
      Means field (.str envelope) value

/-- What the blob of a record means. -/
inductive BlobMeans : Option (Value N) → Data N → Prop where
  | absent {blob : Option (Value N)}
      (unmarked : ∀ text, blob = some (.str text) → isEncrypted text = false) :
      BlobMeans blob Data.empty
  | closed {rest : Data N} {keyID envelope : String} {key : Key} {seed : Nat}
      (held : keys.keys keyID = some key)
      (made : Crypto.Envelope.encrypt cipher key keyID seed (marshal (.obj rest.fields))
        (aad collection secureDataField) = .ok envelope) :
      BlobMeans (some (.str envelope)) rest

structure FieldsMean (stored plain : Data N) : Prop where
  keyed : stored.get keyField = plain.get keyField
  each : ∀ field, Option.Rel (Means cipher keys collection field) (stored.get field)
    (plain.get field)

/-- The columns and the fields of the blob are apart, and together they are the
plain record. -/
structure RecordMeans (stored plain rest : Data N) : Prop where
  blob : BlobMeans cipher keys collection (stored.get secureDataField) rest
  apart : ∀ field, rest.get field ≠ none →
    field ≠ keyField ∧ field ≠ secureDataField ∧ stored.get field = none
  whole : ∀ field, plain.get field =
    if field = secureDataField then none else (rest.get field).or (stored.get field)

/-- A stored record means a plain one, read under a mode. -/
def RecordHolds (mode : EncryptionMode) (stored plain : Data N) : Prop :=
  if mode = .record then ∃ rest, RecordMeans cipher keys collection stored plain rest
  else FieldsMean cipher keys collection stored plain

variable {cipher keys collection}

theorem Means.mono {later : Keyring} (within : keys.Within later) {stored plain : Value N}
    (means : Means cipher keys collection field stored plain) :
    Means cipher later collection field stored plain := by
  cases means with
  | plain unmarked => exact .plain unmarked
  | closed proper held made => exact .closed proper (within _ _ held) made

variable {rest : Data N} {mode : EncryptionMode}

theorem BlobMeans.mono {later : Keyring} (within : keys.Within later) {blob : Option (Value N)}
    (means : BlobMeans cipher keys collection blob rest) :
    BlobMeans cipher later collection blob rest := by
  cases means with
  | absent unmarked => exact .absent unmarked
  | closed held made => exact .closed (within _ _ held) made

/-- What a record means stays as it is when keys are added. -/
theorem RecordHolds.mono {later : Keyring} (within : keys.Within later) {stored plain : Data N}
    (holds : RecordHolds cipher keys collection mode stored plain) :
    RecordHolds cipher later collection mode stored plain := by
  rw [RecordHolds] at holds ⊢
  split_ifs at holds ⊢
  · obtain ⟨rest, means⟩ := holds
    exact ⟨rest, means.blob.mono within, means.apart, means.whole⟩
  · refine ⟨holds.keyed, fun field => ?_⟩
    have one := holds.each field
    revert one
    generalize stored.get field = left
    generalize plain.get field = right
    rintro (⟨means⟩ | -)
    · exact .some (means.mono within)
    · exact .none

/-! ### Reading computes what is meant -/

variable {e : PolicyEncryptor}

theorem maybeDecryptValue_means {stored : Proper N} {plain : Value N}
    (means : Means cipher keys e.collection field stored.1 plain) :
    ∃ opened, maybeDecryptValue cipher keys e field stored = .ok opened ∧ opened.1 = plain := by
  obtain ⟨stored, ordered⟩ := stored
  rw [maybeDecryptValue]
  rcases means with unmarked | ⟨proper, held, made⟩
  · refine ⟨⟨stored, ordered⟩, ?_, rfl⟩
    split
    · rename_i text same
      rw [if_neg]
      rw [unmarked text same]
      exact Bool.false_ne_true
    · rfl
  · refine ⟨⟨plain, proper⟩, ?_, rfl⟩
    have opened := decryptWith_encrypt cipher made held
    have marked := isEncrypted_encrypt cipher made
    dsimp only
    rw [if_pos marked, opened]
    dsimp only
    rw [unmarshal?_marshal (⟨plain, proper⟩ : Proper N)]

theorem decryptBlob_means {blob : Option (Value N)}
    (means : BlobMeans cipher keys e.collection blob rest) :
    decryptBlob cipher keys e blob = .ok rest := by
  rw [decryptBlob.eq_def]
  rcases means with unmarked | ⟨held, made⟩
  · split
    · rename_i text
      rw [if_neg]
      rw [unmarked text rfl]
      exact Bool.false_ne_true
    · rfl
  · have opened := decryptWith_encrypt cipher made held
    have marked := isEncrypted_encrypt cipher made
    dsimp only
    rw [if_pos marked, opened]
    dsimp only
    rw [unmarshalMap?_marshal]
    rfl

/-- A record is read value by value. -/
structure Reads (cipher : Cipher) (keys : Keyring) (e : PolicyEncryptor) (stored plain : Data N) :
    Prop where
  absent : ∀ field, stored.get field = none → plain.get field = none
  value : ∀ field value (found : stored.get field = some value), ∃ opened,
    maybeDecryptValue cipher keys e field ⟨value, Data.canonical_of_get found⟩ = .ok opened ∧
      plain.get field = some opened.1

section Projections

variable {stored plain full : Data N} {fields : List String}

theorem FieldsMean.reads (means : FieldsMean cipher keys e.collection stored plain) :
    Reads cipher keys e stored plain := by
  constructor
  · intro field missing
    have one := means.each field
    rw [missing] at one
    revert one
    generalize plain.get field = value
    rintro ⟨⟩
    rfl
  · intro field value found
    have one := means.each field
    rw [found] at one
    revert one
    generalize plain.get field = meant
    rintro ⟨holds⟩
    have proper : Means cipher keys e.collection field
        (⟨value, Data.canonical_of_get found⟩ : Proper N).1 _ := holds
    obtain ⟨opened, ended, rfl⟩ := maybeDecryptValue_means proper
    exact ⟨opened, ended, rfl⟩

theorem Reads.openFields (reads : Reads cipher keys e stored plain) (fields : List String)
    (out : Data N) :
    ∃ opened, openFields cipher keys e stored fields out = .ok opened ∧
      ∀ name, opened.get name =
        if name ∈ fields then (plain.get name).or (out.get name) else out.get name := by
  induction fields generalizing out with
  | nil => exact ⟨out, rfl, fun name => by simp⟩
  | cons f fields ih =>
    rw [Encryption.openFields]
    split
    · rename_i missing
      obtain ⟨opened, ended, found⟩ := ih out
      refine ⟨opened, ended, fun name => ?_⟩
      rw [found]
      by_cases here : name = f
      · subst here
        rw [reads.absent name missing]
        simp
      · simp [here]
    · rename_i value found
      obtain ⟨opened, ended, there⟩ := reads.value f value found
      rw [ended]
      obtain ⟨all, final, each⟩ := ih (out.put f opened.1 opened.2)
      refine ⟨all, final, fun name => ?_⟩
      rw [each, Data.get_put]
      by_cases here : name = f
      · subst here
        rw [there]
        simp
      · simp [here]

theorem openFields_eq_ok {out opened : Data N}
    (read : openFields cipher keys e stored fields out = .ok opened) (field : String) :
    (field ∈ fields → ∀ value (found : stored.get field = some value), ∃ one,
      maybeDecryptValue cipher keys e field ⟨value, Data.canonical_of_get found⟩ = .ok one ∧
        opened.get field = some one.1) ∧
      (field ∉ fields ∨ stored.get field = none → opened.get field = out.get field) := by
  induction fields generalizing out with
  | nil =>
    cases read
    exact ⟨nofun, fun _ => rfl⟩
  | cons f fields ih =>
    rw [openFields] at read
    split at read
    · rename_i missing
      obtain ⟨inside, outside⟩ := ih read
      grind
    · rename_i value found
      split at read
      · cases read
      · rename_i one ended
        obtain ⟨inside, outside⟩ := ih read
        rw [Data.get_put] at outside
        grind

omit [JsonNumber N] in
theorem get_copyFields (data out : Data N) (wanted : String → Bool) (field : String) :
    (copyFields data wanted out).get field =
      if wanted field then (data.get field).or (out.get field) else out.get field := by
  rw [copyFields, get_overlay, get_filter]
  split_ifs <;> rfl

omit [JsonNumber N] in
theorem get_projectData (data : Data N) (fields : List String) (field : String) :
    (projectData data fields).get field =
      if fields = [] ∨ field = keyField ∨ field ∈ fields then data.get field else none := by
  rw [projectData]
  by_cases full : fields = []
  · simp [full]
  · simp [full]

theorem materializeFields_nil_iff :
    materializeFields cipher keys e stored [] = .ok plain ↔ Reads cipher keys e stored plain := by
  rw [materializeFields]
  constructor
  · intro read
    have each := openFields_eq_ok read
    refine ⟨fun field missing => (each field).2 (Or.inr missing), fun field value found => ?_⟩
    have member : stored.get field ≠ none := by
      rw [found]
      exact Option.some_ne_none value
    exact (each field).1 (Data.mem_names_iff.mpr member) value found
  · intro reads
    obtain ⟨opened, ended, found⟩ := reads.openFields (stored.fields.map Prod.fst) Data.empty
    rw [ended]
    congr 1
    apply ext_get
    intro field
    rw [found, Data.get_empty, Option.or_none]
    split_ifs with member
    · rfl
    · exact (reads.absent field (not_not.mp (mt Data.mem_names_iff.mpr member))).symm

/-- The key is not opened for a projection. -/
theorem Reads.project_iff (reads : Reads cipher keys e stored full) (filled : fields ≠ []) :
    materializeFields cipher keys e stored fields = .ok (projectData full fields) ↔
      full.get keyField = stored.get keyField := by
  obtain ⟨opened, ended, found⟩ := reads.openFields fields Data.empty
  have got : materializeFields cipher keys e stored fields =
      .ok (copyFields stored (· = keyField) opened) := by
    rw [materializeFields.eq_def]
    split
    · exact absurd rfl filled
    · rw [ended]
      rfl
  rw [got, Except.ok.injEq]
  have absent := reads.absent keyField
  constructor
  · intro same
    have key := congrArg (Data.get · keyField) same
    rcases here : stored.get keyField with - | value <;>
      grind [get_copyFields, get_projectData, Data.get_empty]
  · intro same
    apply ext_get
    grind [get_copyFields, get_projectData, Data.get_empty]

theorem keyField_ne_secureDataField : keyField ≠ secureDataField := by
  decide

/-- The columns come before the blob in a projection. -/
theorem materializeRecord_project_iff {merged : Data N}
    (blob : decryptBlob cipher keys e (stored.get secureDataField) = .ok merged)
    (filled : fields ≠ []) :
    materializeRecord cipher keys e stored fields =
        .ok (projectData ((stored.filter (· ≠ secureDataField)).overlay merged) fields) ↔
      ∀ field, field = keyField ∨ field ∈ fields ∧ field ≠ secureDataField ∧ stored.get field ≠ none →
        (merged.get field).or (stored.get field) = stored.get field := by
  obtain ⟨out, got, found⟩ : ∃ out, materializeRecord cipher keys e stored fields = .ok out ∧
      ∀ field, out.get field = if field = keyField then stored.get field else
        if field ∈ fields then
          if field = secureDataField then merged.get field else (stored.get field).or (merged.get field)
        else none := by
    rw [materializeRecord.eq_def]
    split
    · exact absurd rfl filled
    · dsimp only
      split_ifs with needBlob
      · rw [blob]
        refine ⟨_, rfl, fun field => ?_⟩
        rw [get_copyFields]
        simp only [get_filter]
        rcases stored.get field with - | value <;> grind
      · refine ⟨_, rfl, fun field => ?_⟩
        simp only [get_filter]
        rcases here : stored.get field with - | value <;> grind
  rw [got, Except.ok.injEq]
  have apart := keyField_ne_secureDataField
  constructor
  · intro same field
    have one := congrArg (Data.get · field) same
    simp only [get_projectData, get_overlay, get_filter] at one
    rcases here : stored.get field with - | value <;> grind
  · intro same
    apply ext_get
    intro field
    have one := same field
    simp only [get_projectData, get_overlay, get_filter]
    rcases here : stored.get field with - | value <;> grind

/-- If the whole record is read, a projection of it is read and is that of the
whole record, if and only if the stored key is its key and, in record mode, no
column that is asked for has another value in the blob. -/
theorem materialize_project_iff (whole : materialize cipher keys e stored [] = .ok full)
    (filled : fields ≠ []) :
    materialize cipher keys e stored fields = .ok (projectData full fields) ↔
      full.get keyField = stored.get keyField ∧ (e.readMode = .record → ∀ field ∈ fields,
        field ≠ secureDataField → stored.get field ≠ none →
          full.get field = stored.get field) := by
  rw [materialize] at whole ⊢
  split_ifs at whole ⊢ with isRecord
  · rw [materializeRecord] at whole
    obtain ⟨merged, blob, whole⟩ := ok_of_bind whole
    cases whole
    have apart := keyField_ne_secureDataField
    rw [materializeRecord_project_iff blob filled]
    simp only [get_overlay, get_filter]
    grind
  · rw [(materializeFields_nil_iff.mp whole).project_iff filled]
    exact (and_iff_left (absurd · isRecord)).symm

/-- Reading a record, whole or projected, gives what it means, whatever the
current policy is. -/
theorem materialize_holds (holds : RecordHolds cipher keys e.collection e.readMode stored plain)
    (fields : List String) :
    materialize cipher keys e stored fields = .ok (projectData plain fields) := by
  have whole : materialize cipher keys e stored [] = .ok plain := by
    rw [RecordHolds] at holds
    rw [materialize]
    split_ifs at holds ⊢
    · obtain ⟨rest, means⟩ := holds
      rw [materializeRecord, decryptBlob_means means.blob]
      change Except.ok ((stored.filter (· ≠ secureDataField)).overlay rest) = _
      congr 1
      apply ext_get
      intro field
      have apart := means.apart field
      have whole := means.whole field
      rw [get_overlay, get_filter]
      rcases here : rest.get field with - | value <;> grind
    · exact materializeFields_nil_iff.mpr holds.reads
  by_cases filled : fields = []
  · rw [filled]
    exact whole
  · refine (materialize_project_iff whole filled).mpr ?_
    rw [RecordHolds] at holds
    split_ifs at holds with isRecord
    · obtain ⟨rest, means⟩ := holds
      have column : ∀ field, field = keyField ∨ field ≠ secureDataField ∧ stored.get field ≠ none →
          plain.get field = stored.get field := by
        intro field column
        have apart := means.apart field
        have whole := means.whole field
        have names := keyField_ne_secureDataField
        rcases here : rest.get field with - | value <;> grind
      exact ⟨column keyField (Or.inl rfl), fun _ field _ apart here =>
        column field (Or.inr ⟨apart, here⟩)⟩
    · exact ⟨holds.keyed.symm, fun record => absurd record isRecord⟩

end Projections

/-! ### Reading depends on the mode, the collection and the keys -/

/-- What a read opens of a record with some keys opens with others. -/
def Opens (cipher : Cipher) (keys later : Keyring) (e : PolicyEncryptor) (stored : Data N) :
    Prop :=
  ∀ field text plaintext, (e.readMode = .record → field = secureDataField) →
    stored.get field = some (.str text) →
    decryptWith cipher keys text (aad e.collection field) = .ok plaintext →
      decryptWith cipher later text (aad e.collection field) = .ok plaintext

section Opens

variable {later : Keyring} {stored : Data N}

theorem Opens.value (opens : Opens cipher keys later e stored) (apart : e.readMode ≠ .record)
    {value opened : Proper N} (found : stored.get field = some value.1)
    (read : maybeDecryptValue cipher keys e field value = .ok opened) :
    maybeDecryptValue cipher later e field value = .ok opened := by
  rw [maybeDecryptValue] at read ⊢
  split at read
  · rename_i text shape
    split_ifs at read ⊢
    · split at read
      · cases read
      · rename_i plaintext outcome
        rw [opens field text plaintext (absurd · apart) (by rw [found, shape]) outcome]
        exact read
    · exact read
  · exact read

theorem Opens.blob (opens : Opens cipher keys later e stored) {merged : Data N}
    (read : decryptBlob cipher keys e (stored.get secureDataField) = .ok merged) :
    decryptBlob cipher later e (stored.get secureDataField) = .ok merged := by
  rw [decryptBlob.eq_def] at read ⊢
  split at read
  · rename_i text found
    split_ifs at read ⊢
    · split at read
      · cases read
      · rename_i plaintext outcome
        rw [opens secureDataField text plaintext (fun _ => rfl) found outcome]
        exact read
    · exact read
  · exact read

variable {plain : Data N}

/-- What reads with some keys reads the same with others. -/
theorem Opens.read (opens : Opens cipher keys later e stored)
    (read : materialize cipher keys e stored [] = .ok plain) :
    materialize cipher later e stored [] = .ok plain := by
  rw [materialize] at read ⊢
  split_ifs at read ⊢ with isRecord
  · rw [materializeRecord] at read ⊢
    obtain ⟨merged, outcome, read⟩ := ok_of_bind read
    rw [opens.blob outcome]
    exact read
  · have reads := materializeFields_nil_iff.mp read
    refine materializeFields_nil_iff.mpr ⟨reads.absent, fun field value found => ?_⟩
    obtain ⟨opened, outcome, there⟩ := reads.value field value found
    exact ⟨opened, opens.value isRecord found outcome, there⟩

theorem materialize_mono (within : keys.Within later)
    (read : materialize cipher keys e stored [] = .ok plain) :
    materialize cipher later e stored [] = .ok plain :=
  Opens.read (fun _ _ _ _ _ opened => Crypto.Envelope.decryptWith_mono cipher within opened) read

/-- Whatever keys are given, they open nothing but what was sealed. -/
theorem opens_of_holds (authentic : Crypto.Envelope.Authentic cipher)
    (holds : RecordHolds cipher later e.collection e.readMode stored plain) :
    Opens cipher keys later e stored := by
  intro field text plaintext blob found opened
  have marked : isEncrypted text = true := by
    by_contra unmarked
    rw [decryptWith, Crypto.Envelope.parse, if_pos (by simpa using unmarked)] at opened
    cases opened
  -- an envelope opens to what was sealed in it, under every keyring that opens it
  have agrees {keyID envelope : String} {key : Key} {seed : Nat} {bytes : Bytes}
      (held : later.keys keyID = some key)
      (made : Crypto.Envelope.encrypt cipher key keyID seed bytes (aad e.collection field) =
        .ok envelope) (same : text = envelope) :
      decryptWith cipher later text (aad e.collection field) = .ok plaintext := by
    subst same
    rw [Crypto.Envelope.decryptWith_sealed cipher authentic made opened]
    exact decryptWith_encrypt cipher made held
  rw [RecordHolds] at holds
  split_ifs at holds with isRecord
  · obtain ⟨rest, means⟩ := holds
    obtain rfl := blob isRecord
    have sealed := means.blob
    rw [found] at sealed
    cases sealed with
    | absent unmarked =>
      rw [unmarked text rfl] at marked
      cases marked
    | closed held made => exact agrees held made rfl
  · have each := holds.each field
    rcases there : plain.get field with - | value
    · rw [found, there] at each
      cases each
    · rw [found, there] at each
      cases each with
      | some means =>
        cases means with
        | plain unmarked =>
          rw [unmarked text rfl] at marked
          cases marked
        | closed proper held made => exact agrees held made rfl

end Opens

theorem materialize_congr (mode : e'.readMode = e.readMode)
    (collection : e'.collection = e.collection) (stored : Data N) (fields : List String) :
    materialize cipher keys e' stored fields = materialize cipher keys e stored fields := by
  have value : ∀ field (stored : Proper N), maybeDecryptValue cipher keys e' field stored =
      maybeDecryptValue cipher keys e field stored := by
    intro field stored
    rw [maybeDecryptValue, maybeDecryptValue, collection]
  have opens : ∀ fields out, openFields cipher keys e' stored fields out =
      openFields cipher keys e stored fields out := by
    intro fields
    induction fields with
    | nil => exact fun _ => rfl
    | cons f fields ih =>
      intro out
      simp only [openFields, value, ih]
  have blob : ∀ blob : Option (Value N), decryptBlob cipher keys e' blob =
      decryptBlob cipher keys e blob := by
    intro blob
    rw [decryptBlob.eq_def, decryptBlob.eq_def cipher keys e, collection]
  rw [materialize, materialize, mode]
  split_ifs
  · simp only [materializeRecord.eq_def, blob]
  · simp only [materializeFields.eq_def, opens]

/-! ### Sealing establishes what is meant -/

omit [JsonNumber N] in
/-- No text of a record is marked as an envelope. -/
def Unmarked (data : Data N) : Prop :=
  ∀ field text, data.get field = some (.str text) → isEncrypted text = false

variable {data : Data N} {envelope : String}

omit [JsonNumber N] in
theorem hasReservedValue_eq_false :
    hasReservedValue data = false ↔
      ∀ field text, data.get field = some (.str text) → hasReservedPrefix text = false := by
  rw [hasReservedValue, List.any_eq_false]
  constructor
  · intro clean field text found
    have one := clean (field, .str text) (mem_of_lookup found)
    simpa using one
  · rintro clean ⟨field, value⟩ member
    have found : data.get field = some value := Data.get_of_mem member
    cases value with
    | str text => simpa using clean field text found
    | _ => exact Bool.false_ne_true

omit [JsonNumber N] in
theorem unmarked_of_unreserved (clean : hasReservedValue data = false) : Unmarked data := by
  intro field text found
  have free := hasReservedValue_eq_false.mp clean field text found
  by_contra marked
  rw [Bool.not_eq_false] at marked
  rw [Crypto.Envelope.hasReservedPrefix_of_isEncrypted marked] at free
  cases free

theorem fieldsMean_self (unmarked : Unmarked data) :
    FieldsMean cipher keys collection data data := by
  refine ⟨rfl, fun field => ?_⟩
  rcases found : data.get field with - | value
  · exact .none
  · refine .some (.plain fun text same => ?_)
    exact unmarked field text (by rw [found, same])

theorem recordMeans_self (free : data.get secureDataField = none) :
    RecordMeans cipher keys collection data data Data.empty := by
  refine ⟨.absent fun text same => ?_, fun field present => absurd rfl present, fun field => ?_⟩
  · rw [free] at same
    cases same
  · split_ifs with isBlob
    · rw [isBlob, free]
    · rfl

/-- A record that has no mark, and no field of the name of the blob where there
are blobs, means itself. -/
theorem recordHolds_self (unmarked : Unmarked data)
    (free : mode = .record → data.get secureDataField = none) :
    RecordHolds cipher keys collection mode data data := by
  rw [RecordHolds]
  split_ifs with isRecord
  · exact ⟨Data.empty, recordMeans_self (free isRecord)⟩
  · exact fieldsMean_self unmarked

theorem sealValue_eq_ok {value : Value N}
    (sealed : sealValue cipher e keyID key seed field value = .ok envelope) :
    Crypto.Envelope.encrypt cipher key keyID seed (marshal value) (aad e.collection field) =
      .ok envelope := by
  exact ok_of_mapError sealed

/-- A named field that is there is replaced by its envelope, and every other
one is kept. -/
theorem sealFields_eq_ok {fields : List String} {out stored : Data N}
    (sealed : sealFields cipher e keyID key seed data fields out = .ok stored) (name : String) :
    (name ∈ fields → ∀ value, data.get name = some value →
      ∃ envelope, sealValue cipher e keyID key seed name value = .ok envelope ∧
        stored.get name = some (.str envelope)) ∧
    (name ∉ fields ∨ data.get name = none → stored.get name = out.get name) := by
  induction fields generalizing out with
  | nil =>
    obtain rfl := Except.ok.inj sealed
    exact ⟨fun member => absurd member List.not_mem_nil, fun _ => rfl⟩
  | cons f fields ih =>
    rw [sealFields] at sealed
    rcases found : data.get f with - | value
    · rw [found] at sealed
      obtain ⟨replaced, kept⟩ := ih sealed
      constructor
      · intro member value there
        rcases List.mem_cons.mp member with rfl | later
        · rw [found] at there
          cases there
        · exact replaced later value there
      · rintro (outside | missing)
        · exact kept (Or.inl fun later => outside (.tail _ later))
        · exact kept (Or.inr missing)
    · rw [found] at sealed
      dsimp only at sealed
      split at sealed
      · cases sealed
      · rename_i envelope made
        obtain ⟨replaced, kept⟩ := ih sealed
        constructor
        · intro member value' there
          by_cases later : name ∈ fields
          · exact replaced later value' there
          · rcases List.mem_cons.mp member with rfl | later'
            · obtain rfl := Option.some.inj (found.symm.trans there)
              refine ⟨envelope, made, ?_⟩
              rw [kept (Or.inl later), get_set, if_pos rfl]
            · exact absurd later' later
        · rintro (outside | missing)
          · rw [List.mem_cons, not_or] at outside
            rw [kept (Or.inl outside.2), get_set, if_neg outside.1]
          · have apart : name ≠ f := by
              rintro rfl
              rw [found] at missing
              cases missing
            rw [kept (Or.inr missing), get_set, if_neg apart]

theorem fieldsMean_sealFields {data stored : Data N} {fields : List String}
    (held : keys.keys keyID = some key) (unmarked : Unmarked data) (plainKey : keyField ∉ fields)
    (sealed : sealFields cipher e keyID key seed data fields data = .ok stored) :
    FieldsMean cipher keys e.collection stored data := by
  refine ⟨(sealFields_eq_ok sealed keyField).2 (Or.inl plainKey), fun field => ?_⟩
  obtain ⟨replaced, kept⟩ := sealFields_eq_ok sealed field
  rcases found : data.get field with - | value
  · rw [kept (Or.inr found), found]
    exact .none
  · by_cases member : field ∈ fields
    · obtain ⟨envelope, made, there⟩ := replaced member value found
      rw [there]
      exact .some (.closed (Data.canonical_of_get found) held (sealValue_eq_ok made))
    · rw [kept (Or.inl member), found]
      refine .some (.plain fun text same => ?_)
      exact unmarked field text (by rw [found, same])

theorem recordMeans_sealValue
    {policy : EncryptionPolicy} (held : keys.keys keyID = some key)
    (free : data.get secureDataField = none)
    (sealed : sealValue cipher e keyID key seed secureDataField
      (.obj (data.filter fun field => !isColumn policy field).fields) = .ok envelope) :
    RecordMeans cipher keys e.collection
      ((data.filter (isColumn policy)).set secureDataField envelope) data
      (data.filter fun field => !isColumn policy field) := by
  constructor
  · rw [get_set, if_pos rfl]
    exact .closed held (sealValue_eq_ok sealed)
  · intro field present
    rw [get_filter] at present
    split_ifs at present with inside
    · have notBlob : field ≠ secureDataField := by
        rintro rfl
        exact present free
      have notColumn : isColumn policy field = false := by simpa using inside
      refine ⟨?_, notBlob, ?_⟩
      · rintro rfl
        simp [isColumn] at notColumn
      · rw [get_set, if_neg notBlob, get_filter, notColumn]
        exact if_neg Bool.false_ne_true
    · exact absurd rfl present
  · intro field
    split_ifs with isBlob
    · rw [isBlob, free]
    · rw [get_set, if_neg isBlob, get_filter, get_filter]
      cases isColumn policy field <;> simp

end Stored

/-! ## Policies that fit the mode of reading -/

/-- Reading is in one of the two modes, and the policy is of that mode or
disabled. -/
structure Fit (e : PolicyEncryptor) : Prop where
  reads : e.readMode = .fields ∨ e.readMode = .record
  writes : e.writePolicy = .disabled ∨
    e.writePolicy.validate = .ok () ∧ e.writePolicy.mode = e.readMode

/-- A plain record loses a field when it is read in record mode. -/
def Lossy (e : PolicyEncryptor) (data : Data N) : Prop :=
  e.readMode = .record ∧ e.enabled = false ∧ data.get secureDataField ≠ none

variable {cipher : Cipher} {keys : Keyring} {e : PolicyEncryptor}

/-- An accepted write has no reserved value, and is stored as it is or in the
form that the policy gives it under the current key. -/
theorem encrypt_eq_ok {data stored : Data N}
    (accepted : encrypt cipher keys e seed data = .ok stored) :
    hasReservedValue data = false ∧
      (e.enabled = false ∧ stored = data ∨
        e.enabled = true ∧ ∃ keyID key, keys.current = .ok (keyID, key) ∧
          encryptUnder cipher e keyID key seed data = .ok stored) := by
  rw [encrypt] at accepted
  split_ifs at accepted with reserved off
  · refine ⟨by simpa using reserved, Or.inl ⟨by simpa using off, ?_⟩⟩
    exact (Except.ok.inj accepted).symm
  · refine ⟨by simpa using reserved, Or.inr ⟨by simpa using off, ?_⟩⟩
    rcases now : keys.current with reason | ⟨keyID, key⟩
    · rw [now] at accepted
      cases accepted
    · rw [now] at accepted
      exact ⟨keyID, key, rfl, accepted⟩

theorem Fit.valid_of_enabled (fit : Fit e) (enabled : e.enabled = true) :
    e.writePolicy.validate = .ok () ∧ e.writePolicy.mode = e.readMode := by
  rcases fit.writes with off | valid
  · rw [PolicyEncryptor.enabled, off] at enabled
    simp [EncryptionPolicy.disabled] at enabled
  · exact valid

theorem encryptUnder_record {data stored : Data N} (mode : e.writePolicy.mode = .record)
    (sealed : encryptUnder cipher e keyID key seed data = .ok stored) :
    data.get secureDataField = none ∧ ∃ envelope,
      sealValue cipher e keyID key seed secureDataField
        (.obj (data.filter fun field => !isColumn e.writePolicy field).fields) = .ok envelope ∧
      stored = (data.filter (isColumn e.writePolicy)).set secureDataField envelope := by
  rw [encryptUnder, mode] at sealed
  dsimp only at sealed
  split_ifs at sealed with taken
  rcases made : sealValue cipher e keyID key seed secureDataField
      (.obj (data.filter fun field => !isColumn e.writePolicy field).fields) with error | envelope
  · rw [made] at sealed
    cases sealed
  · rw [made] at sealed
    exact ⟨by simpa using taken, envelope, rfl, (Except.ok.inj sealed).symm⟩

theorem encryptUnder_holds {data stored : Data N} (fit : Fit e) (enabled : e.enabled = true)
    (held : keys.keys keyID = some key) (unmarked : Unmarked data)
    (sealed : encryptUnder cipher e keyID key seed data = .ok stored) :
    RecordHolds cipher keys e.collection e.readMode stored data := by
  obtain ⟨valid, mode⟩ := fit.valid_of_enabled enabled
  obtain ⟨-, plainKey, -⟩ := EncryptionPolicy.validate_eq_ok valid
  rcases fit.reads with inFields | inRecord
  · rw [encryptUnder, mode, inFields] at sealed
    rw [RecordHolds, inFields, if_neg (by decide)]
    exact fieldsMean_sealFields held unmarked (plainKey (mode.trans inFields)) sealed
  · obtain ⟨free, envelope, made, rfl⟩ := encryptUnder_record (mode.trans inRecord) sealed
    rw [RecordHolds, inRecord, if_pos rfl]
    exact ⟨_, recordMeans_sealValue held free made⟩

/-- An accepted write is stored in a form that means what was written, unless
it is a plain record with a field of the name of the blob. -/
theorem encrypt_holds {data stored : Data N} (fit : Fit e)
    (accepted : encrypt cipher keys e seed data = .ok stored) (kept : ¬Lossy e data) :
    RecordHolds cipher keys e.collection e.readMode stored data := by
  obtain ⟨unreserved, plain | sealed⟩ := encrypt_eq_ok accepted
  · obtain ⟨disabled, rfl⟩ := plain
    refine recordHolds_self (unmarked_of_unreserved unreserved) fun isRecord => ?_
    by_contra present
    exact kept ⟨isRecord, disabled, present⟩
  · obtain ⟨enabled, keyID, key, now, stored⟩ := sealed
    have held := (Crypto.Envelope.Keyring.current_eq_ok now).2
    exact encryptUnder_holds fit enabled held (unmarked_of_unreserved unreserved) stored

/-- A plain record with a field of the name of the blob is read without it. -/
theorem materialize_lossy {data stored : Data N} {later : Keyring} (lossy : Lossy e data)
    (accepted : encrypt cipher keys e seed data = .ok stored) (mode : e'.readMode = .record) :
    materialize cipher later e' stored [] = .ok (data.filter (· ≠ secureDataField)) := by
  obtain ⟨unreserved, plain | sealed⟩ := encrypt_eq_ok accepted
  case inr =>
    rw [lossy.2.1] at sealed
    exact absurd sealed.1 Bool.false_ne_true
  obtain ⟨-, rfl⟩ := plain
  have blob : decryptBlob cipher later e' (stored.get secureDataField) = .ok Data.empty := by
    refine decryptBlob_means (.absent fun text found => ?_)
    exact unmarked_of_unreserved unreserved _ text found
  rw [materialize, if_pos mode, materializeRecord, blob]
  rfl

theorem materialize_of_accepted {data stored : Data N} (fit : Fit e)
    (accepted : encrypt cipher keys e seed data = .ok stored) :
    ∃ plain, materialize cipher keys e stored [] = .ok plain := by
  by_cases lossy : Lossy e data
  · exact ⟨_, materialize_lossy lossy accepted lossy.1⟩
  · exact ⟨_, materialize_holds (encrypt_holds fit accepted lossy) []⟩

/-! ## The encryption that the engine relies on -/

def toError : EncryptionError → Directory.Error
  | .reservedField => .reservedField
  | _ => .encryption

/-- The encryption of a collection, as its procedures call it. -/
def PolicyEncryptor.toEncryptor (cipher : Cipher) (keys : Keyring) (e : PolicyEncryptor) :
    Directory.Encryptor N where
  epoch := e.epoch
  isEncryptedField := isEncryptedField e.writePolicy
  encrypt seed data :=
    ((encrypt cipher keys e seed (data.getD Data.empty)).mapError toError).map some
  materialize stored :=
    ((materialize cipher keys e (stored.getD Data.empty) []).mapError toError).map some

theorem toEncryptor_encrypt_eq_ok {data stored : Option (Data N)} :
    (e.toEncryptor cipher keys).encrypt seed data = .ok stored ↔
      ∃ sealed, encrypt cipher keys e seed (data.getD Data.empty) = .ok sealed ∧
        stored = some sealed := by
  constructor
  · intro accepted
    obtain ⟨sealed, made, rfl⟩ := ok_of_map accepted
    exact ⟨sealed, ok_of_mapError made, rfl⟩
  · rintro ⟨sealed, accepted, rfl⟩
    change ((encrypt cipher keys e seed (data.getD Data.empty)).mapError toError).map some = _
    rw [accepted]
    rfl

end Scriva.Engine.Encryption
