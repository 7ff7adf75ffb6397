import Scriva.Engine.Policies
import Scriva.Engine.Sequential

/-!
# Opening a collection that holds sealed data

Two parts of an opening read the metadata file.  Loading restores the id counter
from it and, if it cannot be read, writes a new file, which has no encryption
block.  Then the encryption is set up from the block in the file, and a file
that has none belongs to a collection in the clear.  So the encryptor depends on
the metadata file and on the configuration, not on what is in the segments.
-/

namespace Scriva.Engine.FailClosed

open Store.Record Store.Ndjson Directory Engine.Collection Load Encryption Policies
open Crypto.Envelope (Cipher Keyring Authentic isEncrypted tagging)

variable {N : Type} [JsonNumber N]

/-- A directory, and the encryption block of its metadata file if that can be
read. -/
structure Site where
  disk : Disk
  block : Option EncryptionMeta

/-- The block that is in the metadata file after loading. -/
def Site.kept (site : Site) : Option EncryptionMeta :=
  -- a file without a readable counter has been replaced
  site.disk.idCounter.bind fun _ => site.block

inductive OpenError where
  | load (error : Error)
  | encryption (error : EncryptionError)

section Opening

variable (cipher : Cipher)

/-- The encryption as the procedures of the collection call it. -/
def Protection.encryptor (p : Protection) : Option (Encryptor N) :=
  p.enc.bind fun e => p.keyProvider.map fun keys => e.toEncryptor cipher keys

def openSite (how : Persisting) (seed : Nat) (cfg : Config) (asked : OpenConfig) (name : String)
    (order : RenameOrder) (site : Site) : Except OpenError (World N) :=
  match openCollection cfg none order site.disk with
  | (.error e, _) => .error (.load e)
  | (.ok (), w) =>
    match initEncryption cipher how seed asked name site.kept with
    | (.error e, _) => .error (.encryption e)
    | (.ok (), p) => .ok { w with col := { w.col with enc := Protection.encryptor cipher p } }

variable {cipher} {how : Persisting} {seed : Nat} {cfg : Config} {asked : OpenConfig}
  {name : String} {order : RenameOrder} {site : Site} {w : World N}

theorem opening_of_opened
    (opened : openSite cipher how seed cfg asked name order site = .ok w) :
    ∃ p, Opening cipher seed asked name site.kept (.ok (), p) ∧
      w.col.enc = Protection.encryptor cipher p := by
  have opening := opening_initEncryption cipher how seed asked name site.kept
  rw [openSite] at opened
  split at opened
  · cases opened
  · split at opened
    · cases opened
    · rename_i p success
      obtain rfl := Except.ok.inj opened
      rw [success] at opening
      exact ⟨p, opening, rfl⟩

/-- A collection with a block is read in its mode and written under its policy. -/
theorem enc_of_block (opened : openSite cipher how seed cfg asked name order site = .ok w)
    {m : EncryptionMeta} (kept : site.kept = some m) :
    ∃ keys ∈ asked.keyProvider, w.col.enc = some ((m.encryptor name).toEncryptor cipher keys) := by
  obtain ⟨p, opening, enc⟩ := opening_of_opened opened
  rw [kept] at opening
  cases opening with
  | @block _ keys _ _ given =>
    refine ⟨keys, given, ?_⟩
    rw [enc, Protection.encryptor, installed, given]
    rfl

/-- A collection without a block has an encryptor if it is asked for. -/
theorem active_of_opened (opened : openSite cipher how seed cfg asked name order site = .ok w) :
    w.col.enc.isSome ↔ site.kept.isSome ∨ asked.encryption.isSome := by
  rcases kept : site.kept with - | m
  · obtain ⟨p, opening, enc⟩ := opening_of_opened opened
    rw [kept] at opening
    rw [enc]
    cases opening with
    | enabled enables =>
      obtain ⟨keys, given, -⟩ := enables.checked
      rw [Protection.encryptor, installed, Option.mem_def.mp given, enables.asked]
      exact iff_of_true rfl (.inr rfl)
    | bare nothing =>
      rw [nothing]
      exact iff_of_false Bool.false_ne_true (by simp)
  · obtain ⟨keys, -, enc⟩ := enc_of_block opened kept
    rw [enc]
    exact iff_of_true rfl (.inl rfl)

end Opening

/-- A record has nothing under a field but an envelope. -/
def Concealed (data : Option (Data N)) (field : String) : Prop :=
  ∀ stored ∈ data, ∀ value, stored.get field = some value →
    ∃ text, value = .str text ∧ isEncrypted text = true

theorem concealed_encrypt {cipher : Cipher} {keys : Keyring} {e : PolicyEncryptor} {seed : Nat}
    {data stored : Data N} (accepted : encrypt cipher keys e seed data = .ok stored)
    {field : String} (hidden : isEncryptedField e.writePolicy field = true) :
    Concealed (some stored) field := by
  rintro _ ⟨⟩ value found
  have envelope {keyID text : String} {key : Crypto.Envelope.Key} {name : String} {v : Value N}
      (made : sealValue cipher e keyID key seed name v = .ok text) : isEncrypted text = true :=
    Crypto.Envelope.isEncrypted_encrypt cipher (sealValue_eq_ok made)
  rw [isEncryptedField] at hidden
  obtain ⟨-, ⟨off, -⟩ | ⟨-, keyID, key, -, sealed⟩⟩ := encrypt_eq_ok accepted
  · rw [PolicyEncryptor.enabled, decide_eq_false_iff_not, not_not] at off
    rw [off] at hidden
    cases hidden
  · cases mode : e.writePolicy.mode with
    | off | other =>
      rw [mode] at hidden
      cases hidden
    | fields =>
      rw [encryptUnder, mode] at sealed
      rw [mode] at hidden
      obtain ⟨replaced, kept⟩ := sealFields_eq_ok sealed field
      rcases there : data.get field with - | plain
      · rw [kept (.inr there), there] at found
        cases found
      · obtain ⟨text, made, stands⟩ := replaced (of_decide_eq_true hidden) plain there
        exact ⟨text, Option.some.inj (found.symm.trans stands), envelope made⟩
    | record =>
      rw [mode] at hidden
      obtain ⟨-, text, made, rfl⟩ := encryptUnder_record mode sealed
      rw [Data.get_set] at found
      split_ifs at found
      · exact ⟨text, (Option.some.inj found).symm, envelope made⟩
      · rw [Data.get_filter, if_neg (by simpa using hidden)] at found
        cases found

/-- A directory that opens has an encryptor if its metadata can be read and has an
encryption block, or else if a policy is configured; and only then.  Otherwise
stored data is served as it is, and data is written as it is given.  With the
block, whatever keys are given, what is read of a record that was sealed in the
mode of the block is what its owner wrote, and no field that the policy of the
block encrypts is written in the clear. -/
theorem opening_fails_closed_iff {cipher : Cipher} (authentic : Authentic cipher)
    (how : Persisting) (seed : Nat) (cfg : Config) (asked : OpenConfig) (name : String)
    (order : RenameOrder) (site : Site) (w : World N)
    (opened : openSite cipher how seed cfg asked name order site = .ok w) :
    (w.col.enc.isSome ↔
        site.disk.idCounter.isSome ∧ site.block.isSome ∨ asked.encryption.isSome) ∧
      (w.col.enc.isSome ∨
        (∀ stored, Collection.materialize w.col.enc (some stored) = .ok (some stored)) ∧
          ∀ nonce e, sealEntryData w.col.enc nonce e = .ok e) ∧
      ∀ m, site.disk.idCounter.isSome → site.block = some m →
        (∀ (owned : Keyring) (stored plain : Data N),
          RecordHolds cipher owned name m.effectiveReadMode stored plain →
          ∀ out, Collection.materialize w.col.enc (some stored) = .ok out → out = some plain) ∧
        ∀ (nonce : Nat) (e e' : Entry N), sealEntryData w.col.enc nonce e = .ok e' →
          e'.epoch = m.epoch ∧
            ∀ field, isEncryptedField m.policy field = true → Concealed e'.data field := by
  have kept : site.kept.isSome ↔ site.disk.idCounter.isSome ∧ site.block.isSome := by
    rw [Site.kept]
    cases site.disk.idCounter with
    | none => simp
    | some counter => simp
  refine ⟨by rw [active_of_opened opened, kept], ?_, fun m readable block => ?_⟩
  · cases w.col.enc with
    | none => exact .inr ⟨fun _ => rfl, fun _ _ => rfl⟩
    | some => exact .inl rfl
  obtain ⟨counter, known⟩ := Option.isSome_iff_exists.mp readable
  obtain ⟨keys, -, enc⟩ := enc_of_block opened (m := m) (by rw [Site.kept, known, block]; rfl)
  rw [enc]
  refine ⟨fun owned stored plain holds out read => ?_, fun nonce e e' sealed => ?_⟩
  · change ((materialize cipher keys (m.encryptor name) stored []).mapError toError).map some =
      .ok out at read
    rcases result : materialize cipher keys (m.encryptor name) stored [] with error | served
    · rw [result] at read
      cases read
    · rw [result] at read
      have same := (opens_of_holds authentic holds).read result
      have meant : materialize cipher owned (m.encryptor name) stored [] =
          .ok (projectData plain []) := materialize_holds holds []
      rw [meant] at same
      rw [← Except.ok.inj read, ← Except.ok.inj same]
      rfl
  · rcases result : ((m.encryptor name).toEncryptor cipher keys).encrypt nonce e.data
      with error | data
    · rw [sealEntryData, result] at sealed
      cases sealed
    · rw [sealEntryData, result] at sealed
      obtain rfl := Except.ok.inj sealed
      obtain ⟨stored, accepted, rfl⟩ := toEncryptor_encrypt_eq_ok.mp result
      exact ⟨rfl, fun field hidden => concealed_encrypt accepted hidden⟩

/-! ## A directory with one sealed record -/

open Engine.Sequential (fresh stillEnv smallConfig oneField)

def letterKey : Keyring :=
  ⟨fun keyID => if keyID = "k" then some (List.replicate 32 65) else none, "k"⟩

/-- The block with which the collection was created. -/
def sealedBlock : Option EncryptionMeta :=
  (initEncryption tagging .done 1 ⟨some letterKey, some recordPolicy, none⟩ "users"
    none).2.disk

/-- One segment holds the record. -/
def roomy : Config := { smallConfig with segmentMaxSize := 4096 }

def sealedDisk : Disk :=
  ((insert stillEnv (some (oneField "n" 5))).run (fresh roomy
    (some ((⟨"users", .record, recordPolicy, 1⟩ : PolicyEncryptor).toEncryptor
      tagging letterKey)) .asWritten)).2.disk

/-- Open a directory with the key of the collection and without a policy. -/
def reopened (disk : Disk) : Except OpenError (World Int) :=
  openSite tagging .done 2 roomy ⟨some letterKey, none, none⟩ "users" .asWritten
    ⟨disk, sealedBlock⟩

/-- The directory with its metadata file. -/
def notedDisk : Disk := { sealedDisk with idCounter := some 1 }

set_option maxRecDepth 8000 in
theorem opening_closed_noted : ∃ w, reopened notedDisk = .ok w ∧ w.col.enc.isSome := by
  rcases opened : reopened notedDisk with error | w
  · have opens : (reopened notedDisk).toBool = true := by decide +kernel
    rw [opened] at opens
    cases opens
  · have closed := opening_fails_closed_iff Crypto.Envelope.authentic_tagging .done 2 roomy
      ⟨some letterKey, none, none⟩ "users" .asWritten _ w opened
    exact ⟨w, rfl, closed.1.mpr (.inl ⟨rfl, by decide +kernel⟩)⟩

def marked : Value Int → Bool
  | .str text => isEncrypted text
  | _ => false

set_option maxRecDepth 8000 in
/-- Without the metadata file the collection opens in the clear: there is no
encryptor, a read gives the envelope, and an insert is accepted. -/
theorem opening_in_the_clear :
    (reopened { sealedDisk with idCounter := none, index := none }).toOption.map
      (fun w => (w.col.enc.isSome, ((get w 0 1).toOption.bind Record.data).bind
        (fun data => (data.get secureDataField).map marked),
        ((insert stillEnv (some (oneField "n" 6))).run w).1.toBool)) =
          some (false, some true, true) := by
  decide +kernel

end Scriva.Engine.FailClosed
