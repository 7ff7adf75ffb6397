import Scriva.Engine.KeyRotation

/-!
# Opening with a passphrase

The key of a database is derived from a passphrase and a salt.  The salt is
recorded in the block of a collection that is encrypted when it is opened; a
policy that is first set on an open collection writes a block without it.  An
opening takes the first salt that it finds and makes a new one if there is none.

So the passphrase opens the database again as long as some collection that
records the salt is there whenever some collection is encrypted.
-/

namespace Scriva.Engine.Passphrase

open Lib.Text Store.Record Encryption Policies KeyRotation
open Crypto.Envelope (Cipher Keyring Key CryptoError makeKeyCheck verifyKeyCheck Authentic
  keySize tagging)
open Relation (ReflTransGen)

/-- Key derivation gives a key of the length that its parameters say. -/
structure Derivation where
  deriveKey : String → Bytes → KDFParams → Key
  length_deriveKey : ∀ passphrase salt params,
    (deriveKey passphrase salt params).length = params.keyLen

def builtinKeyID : String :=
  "k1"

def defaultKDFParams : KDFParams :=
  ⟨64 * 1024, 3, 1, keySize, 16⟩

/-- The key of an open database and how it was derived. -/
structure Session where
  keys : Keyring
  kdf : EncryptionKDF

variable {N : Type} [JsonNumber N]

/-- The first derivation that a collection records. -/
def findPersistedKDF (vaults : List (Vault N)) : Option EncryptionKDF :=
  vaults.findSome? fun v => v.protection.disk.bind EncryptionMeta.kdf

/-- The keyring of the key that a derivation gives. -/
def resolveKeys (derivation : Derivation) (passphrase : String) (kdf : EncryptionKDF) :
    Except CryptoError Keyring :=
  Keyring.new builtinKeyID (derivation.deriveKey passphrase kdf.salt kdf.params)

def resolvePassphrase (derivation : Derivation) (passphrase : String) (salt : Bytes)
    (vaults : List (Vault N)) : Except CryptoError Session :=
  let kdf := (findPersistedKDF vaults).getD ⟨"argon2id", salt, defaultKDFParams⟩
  (resolveKeys derivation passphrase kdf).map (⟨·, kdf⟩)

/-- What is left of a collection when the process has ended. -/
def closed (v : Vault N) : Vault N :=
  ⟨⟨v.protection.name, none, none, none, v.protection.disk⟩, v.records⟩

/-- Close a collection: an open one writes its metadata. -/
def shut (v : Vault N) : Vault N :=
  closed (if v.protection.keyProvider.isSome then ⟨v.protection.flush, v.records⟩ else v)

/-- How an opening writes the metadata of a collection, and its randomness. -/
structure Chance where
  how : Persisting
  seed : Nat

/-- Open one collection; one that does not open is left with what is on disk. -/
def openOne (cipher : Cipher) (chance : Chance) (cfg : OpenConfig) (v : Vault N) :
    Except EncryptionError Unit × Vault N :=
  match initEncryption cipher chance.how chance.seed cfg v.protection.name v.protection.disk with
  | (.ok (), p) => (.ok (), ⟨p, v.records⟩)
  | (.error error, p) =>
    (.error error, closed ⟨{ v.protection with disk := p.disk }, v.records⟩)

/-- Open the collections up to the first that does not open. -/
def openEach (cipher : Cipher) (chance : String → Chance) (cfg : String → OpenConfig) :
    List (Vault N) → Except EncryptionError Unit × List (Vault N)
  | [] => (.ok (), [])
  | v :: vaults =>
    match openOne cipher (chance v.protection.name) (cfg v.protection.name) v with
    | (.error error, v') => (.error error, v' :: vaults)
    | (.ok (), v') =>
      let (result, vaults') := openEach cipher chance cfg vaults
      (result, v' :: vaults')

/-- A data directory, and the key if it is open. -/
structure Site (N : Type) where
  session : Option Session
  vaults : List (Vault N)

/-- The configuration of the collections of a session. -/
def Session.config (session : Session) (asked : Option EncryptionPolicy) : OpenConfig :=
  ⟨some session.keys, asked, some session.kdf⟩

/-- Open a data directory with the passphrase.  A failed opening leaves no open
collection. -/
def startup (cipher : Cipher) (derivation : Derivation) (passphrase : String) (salt : Bytes)
    (chance : String → Chance) (asked : String → Option EncryptionPolicy)
    (vaults : List (Vault N)) : Site N :=
  match resolvePassphrase derivation passphrase salt vaults with
  | .error _ => ⟨none, vaults.map closed⟩
  | .ok session =>
    match openEach cipher chance (fun name => session.config (asked name))
        (vaults.map closed) with
    | (.ok (), opened) => ⟨some session, opened⟩
    | (.error _, left) => ⟨none, left.map closed⟩

section Steps

variable (cipher : Cipher) (derivation : Derivation) (passphrase : String)
  (guard : List (Vault N) → Prop)

/-- What happens to a data directory that is always opened with the same
passphrase, if the openings of the whole directory are at times that meet a
guard.  A process may end at any time. -/
inductive Step : Site N → Site N → Prop where
  | startup {site : Site N} (salt : Bytes) (chance : String → Chance)
      (asked : String → Option EncryptionPolicy) (meets : guard site.vaults) :
      Step site (startup cipher derivation passphrase salt chance asked site.vaults)
  | create {session : Session} {before after : List (Vault N)} (chance : Chance)
      (asked : Option EncryptionPolicy) (name : String) :
      Step ⟨some session, before ++ after⟩
        ⟨some session, before ++
          (openOne cipher chance (session.config asked)
            ⟨plaintext name none, []⟩).2 :: after⟩
  | reopen {session : Session} {before after : List (Vault N)} {v : Vault N} (chance : Chance)
      (asked : Option EncryptionPolicy) :
      Step ⟨some session, before ++ v :: after⟩
        ⟨some session, before ++
          (openOne cipher chance (session.config asked) (shut v)).2 :: after⟩
  | setEncryptionPolicy {session : Session} {before after : List (Vault N)} {v : Vault N}
      (isOpen : v.protection.keyProvider = some session.keys) (chance : Chance)
      (policy : Option EncryptionPolicy) :
      Step ⟨some session, before ++ v :: after⟩
        ⟨some session, before ++ ⟨(setEncryptionPolicy cipher chance.how chance.seed
          v.protection policy).2, v.records⟩ :: after⟩
  | rotateKey {session : Session} {before after : List (Vault N)} {v : Vault N}
      (isOpen : v.protection.keyProvider = some session.keys) (chance : Chance) :
      Step ⟨some session, before ++ v :: after⟩
        ⟨some session, before ++
          ⟨(rotateKey cipher chance.how chance.seed v.protection).2, v.records⟩ :: after⟩
  | flush {session : Session} {before after : List (Vault N)} {v : Vault N}
      (isOpen : v.protection.keyProvider = some session.keys) :
      Step ⟨some session, before ++ v :: after⟩
        ⟨some session, before ++ ⟨v.protection.flush, v.records⟩ :: after⟩
  | write {session : Session} {before after : List (Vault N)} {v : Vault N}
      {e : PolicyEncryptor} {seed : Nat} {data stored : Data N}
      (isOpen : v.protection.keyProvider = some session.keys) (now : v.protection.enc = some e)
      (accepted : encrypt cipher session.keys e seed data = .ok stored) :
      Step ⟨some session, before ++ v :: after⟩
        ⟨some session, before ++ ⟨v.protection, stored :: v.records⟩ :: after⟩
  | writePlain {session : Session} {before after : List (Vault N)} {v : Vault N} {data : Data N}
      (isOpen : v.protection.keyProvider = some session.keys) (now : v.protection.enc = none)
      (unmarked : Unmarked data) :
      Step ⟨some session, before ++ v :: after⟩
        ⟨some session, before ++ ⟨v.protection, data :: v.records⟩ :: after⟩
  | drop {session : Session} {before after : List (Vault N)} {v : Vault N} :
      Step ⟨some session, before ++ v :: after⟩ ⟨some session, before ++ after⟩

end Steps

/-- If some collection is encrypted, some collection records the derivation of
the key. -/
def Recorded (vaults : List (Vault N)) : Prop :=
  (∃ v ∈ vaults, v.protection.disk ≠ none) →
    ∃ v ∈ vaults, ∃ m ∈ v.protection.disk, m.kdf ≠ none

/-! ## What ties a collection to a session -/

variable (cipher : Cipher)

/-- A block whose key check was made with the key of the session, and that
records no other derivation. -/
structure Tied (session : Session) (m : EncryptionMeta) : Prop where
  checked : Checked cipher session.keys m
  kdf : m.kdf = none ∨ m.kdf = some session.kdf

/-- A collection whose blocks are tied to the session and whose records can be
read.  Where nothing is encrypted no value is marked. -/
structure Safe (session : Session) (v : Vault N) : Prop where
  settled : Settled v.protection
  provider : v.protection.keyProvider = none ∧ v.protection.enc = none ∨
    v.protection.keyProvider = some session.keys
  memory : ∀ m ∈ v.protection.encMeta, Tied cipher session m
  disk : ∀ m ∈ v.protection.disk, Tied cipher session m
  plain : v.protection.disk = none ∨ v.protection.keyProvider ≠ none ∧ v.protection.enc = none →
    ∀ stored ∈ v.records, Unmarked stored
  readable : ∀ m ∈ v.protection.disk, ∀ stored ∈ v.records, ∃ plain,
    materialize cipher session.keys (m.encryptor v.protection.name) stored [] = .ok plain

variable {cipher}

variable {data : Data N} {session : Session} {name : String} {disk : Option EncryptionMeta}
  {v : Vault N} {e : PolicyEncryptor} {vaults : List (Vault N)}

/-- A record without marks reads in every mode. -/
theorem materialize_unmarked {keys : Keyring} (e : PolicyEncryptor) (unmarked : Unmarked data) :
    ∃ plain, materialize cipher keys e data [] = .ok plain := by
  by_cases isRecord : e.readMode = .record
  · have blob : decryptBlob cipher keys e (data.get secureDataField) = .ok Data.empty :=
      decryptBlob_means (.absent fun text found => unmarked _ text found)
    rw [materialize, if_pos isRecord, materializeRecord, blob]
    exact ⟨_, rfl⟩
  · rw [materialize, if_neg isRecord]
    exact ⟨data, materializeFields_nil_iff.mpr (fieldsMean_self unmarked).reads⟩

/-- What is asked of the block on disk for a collection that has just been
opened or closed. -/
structure Resting (cipher : Cipher) (session : Session) (name : String)
    (disk : Option EncryptionMeta) (records : List (Data N)) : Prop where
  block : ∀ m ∈ disk, Tied cipher session m ∧ MetaFit m ∧ ∀ stored ∈ records, ∃ plain,
    materialize cipher session.keys (m.encryptor name) stored [] = .ok plain
  bare : disk = none → ∀ stored ∈ records, Unmarked stored

theorem Resting.closed {records : List (Data N)}
    (resting : Resting cipher session name disk records) :
    Safe cipher session ⟨⟨name, none, none, none, disk⟩, records⟩ where
  settled := ⟨nofun, fun m there => (resting.block m there).2.1, nofun, nofun, nofun, nofun,
    fun _ => rfl⟩
  provider := Or.inl ⟨rfl, rfl⟩
  memory := nofun
  disk := fun m there => (resting.block m there).1
  plain := by
    rintro (nothing | ⟨isOpen, -⟩)
    · exact resting.bare nothing
    · exact absurd rfl isOpen
  readable := fun m there => (resting.block m there).2.2

theorem Resting.opened {records : List (Data N)}
    (resting : Resting cipher session name disk records) :
    Safe cipher session ⟨installed name (some session.keys) disk, records⟩ where
  settled := settled_installed fun m there => (resting.block m there).2.1
  provider := Or.inr rfl
  memory := fun m there => (resting.block m there).1
  disk := fun m there => (resting.block m there).1
  plain := by
    rintro (nothing | ⟨-, nothing⟩)
    · exact resting.bare nothing
    · exact resting.bare (Option.map_eq_none_iff.mp nothing)
  readable := fun m there => (resting.block m there).2.2

theorem Safe.rests (safe : Safe cipher session v) :
    Resting cipher session v.protection.name v.protection.disk v.records where
  block := fun m there => ⟨safe.disk m there, safe.settled.blocks m there, safe.readable m there⟩
  bare := fun nothing => safe.plain (Or.inl nothing)

theorem Safe.closed (safe : Safe cipher session v) : Safe cipher session (closed v) :=
  safe.rests.closed

/-- A collection without a block is not tied to any session. -/
theorem Safe.closed_of_bare {other : Session} (safe : Safe cipher session v)
    (nothing : v.protection.disk = none) : Safe cipher other (Passphrase.closed v) := by
  have resting : Resting cipher other v.protection.name v.protection.disk v.records := by
    refine ⟨fun m there => ?_, safe.rests.bare⟩
    rw [nothing] at there
    cases there
  exact resting.closed

theorem Safe.unmarked_of_unencrypted (safe : Safe cipher session v)
    (isOpen : v.protection.keyProvider = some session.keys) (now : v.protection.enc = none) :
    ∀ stored ∈ v.records, Unmarked stored := by
  refine safe.plain (Or.inr ⟨?_, now⟩)
  rw [isOpen]
  exact Option.some_ne_none _

/-- The records of an open collection can be read in the mode of its policy, and
in every mode if it has none. -/
theorem Safe.readable_mode (safe : Safe cipher session v)
    (isOpen : v.protection.keyProvider = some session.keys)
    (collection : e.collection = v.protection.name)
    (mode : ∀ cur ∈ v.protection.enc, e.readMode = cur.readMode) :
    ∀ stored ∈ v.records, ∃ plain, materialize cipher session.keys e stored [] = .ok plain := by
  intro stored member
  rcases now : v.protection.enc with - | cur
  · exact materialize_unmarked e (safe.unmarked_of_unencrypted isOpen now stored member)
  · obtain ⟨m, there, same⟩ := safe.settled.mode cur now
    have fit := safe.settled.blocks m there
    have modes : e.readMode = (m.encryptor v.protection.name).readMode :=
      (mode cur now).trans (same.symm.trans fit.effectiveReadMode_eq.symm)
    rw [materialize_congr modes collection]
    exact safe.readable m there stored member

/-! ## What the steps keep -/

theorem Safe.flush (safe : Safe cipher session v)
    (isOpen : v.protection.keyProvider = some session.keys) :
    Safe cipher session ⟨v.protection.flush, v.records⟩ where
  settled := safe.settled.changes (.kept rfl rfl rfl (Or.inr rfl))
  provider := Or.inr isOpen
  memory := safe.memory
  disk := safe.memory
  plain := by
    have bare : v.protection.enc = none → ∀ stored ∈ v.records, Unmarked stored :=
      safe.unmarked_of_unencrypted isOpen
    rintro (nothing | ⟨-, now⟩)
    · apply bare
      by_contra present
      obtain ⟨e, now⟩ := Option.ne_none_iff_exists'.mp present
      obtain ⟨m, there, -⟩ := safe.settled.modeCached e now
      have absent : v.protection.encMeta = none := nothing
      rw [absent] at there
      cases there
    · exact bare now
  readable := by
    intro m there
    have fit := safe.settled.cached m there
    refine safe.readable_mode isOpen rfl fun cur now => ?_
    obtain ⟨m', there', mode⟩ := safe.settled.modeCached cur now
    obtain rfl := Option.some.inj (there'.symm.trans there)
    exact fit.effectiveReadMode_eq.trans mode

theorem Safe.called {p : Protection} (safe : Safe cipher session v)
    (isOpen : v.protection.keyProvider = some session.keys)
    (called : Called cipher v.protection p) : Safe cipher session ⟨p, v.records⟩ := by
  have settled := safe.settled.changes called.changes
  cases called with
  | unchanged same =>
    rw [same]
    exact safe
  | changed m fit mode kdf minted result =>
    have written : ∀ m' ∈ some m, Tied cipher session m' := by
      rintro _ ⟨⟩
      refine ⟨checked_of_minted (fun m cached => (safe.memory m cached).checked) isOpen minted, ?_⟩
      rw [kdf]
      rcases cached : v.protection.encMeta with - | prev
      · exact Or.inl rfl
      · exact (safe.memory prev cached).kdf
    have readable : ∀ m' ∈ some m, ∀ stored ∈ v.records, ∃ plain,
        materialize cipher session.keys (m'.encryptor v.protection.name) stored [] = .ok plain := by
      rintro _ ⟨⟩
      exact safe.readable_mode isOpen rfl fun cur now =>
        fit.effectiveReadMode_eq.trans (mode cur now)
    rcases result with rfl | rfl
    · exact ⟨settled, Or.inr isOpen, written, written, nofun, readable⟩
    · refine ⟨settled, Or.inr isOpen, safe.memory, written, ?_, readable⟩
      rintro (nothing | ⟨-, now⟩)
      · cases nothing
      · exact safe.unmarked_of_unencrypted isOpen now

theorem Safe.write {seed : Nat} {data stored : Data N} (safe : Safe cipher session v)
    (now : v.protection.enc = some e)
    (accepted : encrypt cipher session.keys e seed data = .ok stored) :
    Safe cipher session ⟨v.protection, stored :: v.records⟩ :=
  { safe with
    plain := by
      have encrypted : v.protection.enc ≠ none := by
        rw [now]
        exact Option.some_ne_none e
      rintro (nothing | ⟨-, bare⟩)
      · exact absurd (safe.settled.enc_eq_none nothing) encrypted
      · exact absurd bare encrypted
    readable := by
      intro m there stored' member
      rcases List.mem_cons.mp member with rfl | old
      · obtain ⟨m', there', mode⟩ := safe.settled.mode e now
        obtain rfl := Option.some.inj (there'.symm.trans there)
        have modes : (m'.encryptor v.protection.name).readMode = e.readMode :=
          (safe.settled.blocks m' there).effectiveReadMode_eq.trans mode
        rw [materialize_congr modes (safe.settled.named e now).symm]
        exact materialize_of_accepted (safe.settled.fit e now) accepted
      · exact safe.readable m there stored' old }

theorem Safe.writePlain (safe : Safe cipher session v)
    (isOpen : v.protection.keyProvider = some session.keys) (now : v.protection.enc = none)
    (unmarked : Unmarked data) : Safe cipher session ⟨v.protection, data :: v.records⟩ :=
  { safe with
    plain := by
      intro _ stored member
      rcases List.mem_cons.mp member with rfl | old
      · exact unmarked
      · exact safe.unmarked_of_unencrypted isOpen now stored old
    readable := by
      intro m there stored member
      rcases List.mem_cons.mp member with rfl | old
      · exact materialize_unmarked _ unmarked
      · exact safe.readable m there stored old }

/-! ## Opening -/

variable {chance : Chance} {asked : Option EncryptionPolicy}

/-- Opening a collection leaves it open or closed, with the block that it had, if
it had one, on disk. -/
theorem Safe.openOne_cases (safe : Safe cipher session v) (chance : Chance)
    (asked : Option EncryptionPolicy) :
    ∃ block, Resting cipher session v.protection.name block v.records ∧
      (∀ m ∈ v.protection.disk, block = some m) ∧
      (openOne cipher chance (session.config asked) v =
          (.ok (), ⟨installed v.protection.name (some session.keys) block, v.records⟩) ∨
        ∃ error, openOne cipher chance (session.config asked) v =
          (.error error, ⟨⟨v.protection.name, none, none, none, block⟩, v.records⟩)) := by
  have rests := safe.rests
  have opening := opening_initEncryption cipher chance.how chance.seed (session.config asked)
    v.protection.name v.protection.disk
  rw [openOne]
  generalize initEncryption cipher chance.how chance.seed (session.config asked)
    v.protection.name v.protection.disk = outcome at opening ⊢
  generalize v.protection.disk = disk at opening rests ⊢
  have enabled : disk = none → ∀ m, Enables cipher chance.seed (session.config asked) m →
      Resting cipher session v.protection.name (some m) v.records := by
    intro nothing m enables
    refine ⟨?_, nofun⟩
    rintro _ ⟨⟩
    refine ⟨⟨?_, Or.inr enables.kdf⟩, enables.fit, fun stored member => ?_⟩
    · obtain ⟨keys, given, fresh⟩ := enables.checked
      cases given
      exact checked_freshKeyCheck fresh
    · exact materialize_unmarked _ (rests.bare nothing stored member)
  cases opening with
  | block given current verified =>
    refine ⟨_, rests, ?_, Or.inl rfl⟩
    rintro _ ⟨⟩
    rfl
  | enabled enables => exact ⟨_, enabled rfl _ enables, nofun, Or.inl rfl⟩
  | bare nothing => exact ⟨_, rests, nofun, Or.inl rfl⟩
  | @failed _ error p same =>
    refine ⟨disk, rests, ?_, Or.inr ⟨error, ?_⟩⟩
    · rintro _ ⟨⟩
      rfl
    · rw [← same]
      rfl
  | @unsynced error p m enables written =>
    refine ⟨some m, enabled rfl m enables, nofun, Or.inr ⟨error, ?_⟩⟩
    rw [← written]
    rfl

theorem Safe.openOne (safe : Safe cipher session v) (chance : Chance)
    (asked : Option EncryptionPolicy) :
    Safe cipher session (openOne cipher chance (session.config asked) v).2 := by
  obtain ⟨block, resting, -, ended | ⟨error, ended⟩⟩ := safe.openOne_cases chance asked
  · rw [ended]
    exact resting.opened
  · rw [ended]
    exact resting.closed

theorem safe_openEach (safe : ∀ v ∈ vaults, Safe cipher session v) (chance : String → Chance)
    (asked : String → Option EncryptionPolicy) :
    ∀ v ∈ (openEach cipher chance (fun name => session.config (asked name)) vaults).2,
      Safe cipher session v := by
  induction vaults with
  | nil =>
    exact List.forall_mem_nil _
  | cons v vaults ih =>
    have first := (safe v (.head _)).openOne (chance v.protection.name)
      (asked v.protection.name)
    have rest := ih fun v member => safe v (.tail _ member)
    rw [openEach]
    rcases outcome : openOne cipher (chance v.protection.name)
        (session.config (asked v.protection.name)) v with ⟨error | ⟨⟩, v'⟩
    · rw [outcome] at first
      intro w member
      rcases List.mem_cons.mp member with rfl | later
      · exact first
      · exact safe w (.tail _ later)
    · rw [outcome] at first
      intro w member
      rcases List.mem_cons.mp member with rfl | later
      · exact first
      · exact rest w later

/-! ## The session of an opening -/

variable {derivation : Derivation} {passphrase : String}

/-- A session whose key is the one that its derivation gives. -/
def Resolved (derivation : Derivation) (passphrase : String) (session : Session) : Prop :=
  resolveKeys derivation passphrase session.kdf = .ok session.keys

omit [JsonNumber N] in
theorem findPersistedKDF_eq_some {kdf : EncryptionKDF}
    (found : findPersistedKDF vaults = some kdf) :
    ∃ v ∈ vaults, ∃ m ∈ v.protection.disk, m.kdf = some kdf := by
  obtain ⟨v, member, there⟩ := List.exists_of_findSome?_eq_some found
  obtain ⟨m, block, recorded⟩ := Option.bind_eq_some_iff.mp there
  exact ⟨v, member, m, block, recorded⟩

omit [JsonNumber N] in
theorem findPersistedKDF_ne_none {m : EncryptionMeta} (member : v ∈ vaults)
    (there : v.protection.disk = some m) (recorded : m.kdf ≠ none) :
    findPersistedKDF vaults ≠ none := by
  intro nothing
  have absent := List.findSome?_eq_none_iff.mp nothing v member
  rw [there] at absent
  exact recorded absent

/-- An opening of a directory that records the derivation has the session that
the collections are tied to; where nothing is encrypted, every session will do. -/
theorem safe_resolvePassphrase {session' : Session} {salt : Bytes}
    (resolved : Resolved derivation passphrase session) (safe : ∀ v ∈ vaults, Safe cipher session v)
    (recorded : Recorded vaults)
    (opening : resolvePassphrase derivation passphrase salt vaults = .ok session') :
    Resolved derivation passphrase session' ∧
      (∀ v ∈ vaults.map Passphrase.closed, Safe cipher session' v) ∧
      ((∃ v ∈ vaults, v.protection.disk ≠ none) → session' = session) := by
  rw [resolvePassphrase] at opening
  rcases made : resolveKeys derivation passphrase
      ((findPersistedKDF vaults).getD ⟨"argon2id", salt, defaultKDFParams⟩) with error | keys
  · rw [made] at opening
    cases opening
  rw [made] at opening
  obtain rfl := Except.ok.inj opening
  refine ⟨made, ?_⟩
  by_cases encrypted : ∃ v ∈ vaults, v.protection.disk ≠ none
  · obtain ⟨v, member, m, there, kdf⟩ := recorded encrypted
    obtain ⟨found, first⟩ := Option.ne_none_iff_exists'.mp
      (findPersistedKDF_ne_none member there kdf)
    obtain ⟨w, other, m', block, same⟩ := findPersistedKDF_eq_some first
    have tied := ((safe w other).disk m' block).kdf
    rw [same] at tied
    have own : found = session.kdf := by
      rcases tied with absent | tied
      · cases absent
      · exact Option.some.inj tied
    have equal : (⟨keys, (findPersistedKDF vaults).getD
        ⟨"argon2id", salt, defaultKDFParams⟩⟩ : Session) = session := by
      have keysEqual : keys = session.keys := by
        rw [first, Option.getD_some, own, resolved] at made
        exact (Except.ok.inj made).symm
      rw [first, Option.getD_some, own, keysEqual]
    dsimp only
    rw [equal]
    refine ⟨?_, fun _ => rfl⟩
    intro o there
    obtain ⟨u, member', rfl⟩ := List.mem_map.mp there
    exact (safe u member').closed
  · refine ⟨?_, fun present => absurd present encrypted⟩
    intro o there
    obtain ⟨u, member, rfl⟩ := List.mem_map.mp there
    refine (safe u member).closed_of_bare ?_
    by_contra present
    exact encrypted ⟨u, member, present⟩

/-! ## Runs -/

/-- All collections are tied to the session that the directory is open in, or
to one that the next opening can have. -/
structure Kept (cipher : Cipher) (derivation : Derivation) (passphrase : String)
    (site : Site N) (session : Session) : Prop where
  resolved : Resolved derivation passphrase session
  current : ∀ s ∈ site.session, s = session
  safe : ∀ v ∈ site.vaults, Safe cipher session v

theorem Kept.replace {before after : List (Vault N)} {v' : Vault N}
    (kept : Kept cipher derivation passphrase ⟨some session, before ++ v :: after⟩ session)
    (safe : Safe cipher session v → Safe cipher session v') :
    Kept cipher derivation passphrase ⟨some session, before ++ v' :: after⟩ session where
  resolved := kept.resolved
  current := kept.current
  safe := by
    intro other member
    rcases List.mem_append.mp member with front | back
    · exact kept.safe other (List.mem_append_left _ front)
    · rcases List.mem_cons.mp back with rfl | later
      · exact safe (kept.safe v (List.mem_append_right _ (.head _)))
      · exact kept.safe other (List.mem_append_right _ (.tail _ later))

theorem Safe.shut (safe : Safe cipher session v) : Safe cipher session (Passphrase.shut v) := by
  rw [Passphrase.shut]
  split_ifs with isOpen
  · rcases safe.provider with ⟨nothing, -⟩ | provider
    · rw [nothing] at isOpen
      cases isOpen
    · exact (safe.flush provider).closed
  · exact safe.closed

theorem safe_plaintext (session : Session) (name : String) :
    Safe cipher session (⟨plaintext name none, []⟩ : Vault N) := by
  have resting : Resting cipher session name none ([] : List (Data N)) := by
    refine ⟨fun m absent => ?_, fun _ stored absent => ?_⟩
    · cases absent
    · cases absent
  exact resting.closed

variable {site : Site N} {o : Vault N} {chance : Chance} {asked : Option EncryptionPolicy}

theorem Kept.startup (kept : Kept cipher derivation passphrase site session)
    (recorded : Recorded site.vaults) (salt : Bytes) (chance : String → Chance)
    (asked : String → Option EncryptionPolicy) :
    ∃ session', Kept cipher derivation passphrase
      (Passphrase.startup cipher derivation passphrase salt chance asked site.vaults) session' := by
  rw [Passphrase.startup]
  rcases opening : resolvePassphrase derivation passphrase salt site.vaults with error | session'
  · refine ⟨session, kept.resolved, ?_, ?_⟩
    · exact nofun
    · intro v member
      obtain ⟨u, there, rfl⟩ := List.mem_map.mp member
      exact (kept.safe u there).closed
  · obtain ⟨resolved, safe, -⟩ :=
      safe_resolvePassphrase kept.resolved kept.safe recorded opening
    have after := safe_openEach safe chance asked
    dsimp only
    rcases outcome : openEach cipher chance (fun name => session'.config (asked name))
        (site.vaults.map Passphrase.closed) with ⟨error | ⟨⟩, vaults⟩
    · rw [outcome] at after
      refine ⟨session', resolved, ?_, ?_⟩
      · exact nofun
      · intro v member
        obtain ⟨u, there, rfl⟩ := List.mem_map.mp member
        exact (after u there).closed
    · rw [outcome] at after
      refine ⟨session', resolved, ?_, after⟩
      rintro s ⟨⟩
      rfl

theorem kept_step {site' : Site N}
    (kept : ∃ session, Kept cipher derivation passphrase site session)
    (step : Step cipher derivation passphrase Recorded site site') :
    ∃ session, Kept cipher derivation passphrase site' session := by
  obtain ⟨session, kept⟩ := kept
  cases step with
  | startup salt chance asked recorded => exact kept.startup recorded salt chance asked
  | @create s before after chance asked name =>
    obtain rfl := kept.current s rfl
    refine ⟨s, kept.resolved, kept.current, ?_⟩
    intro v member
    rcases List.mem_append.mp member with front | back
    · exact kept.safe v (List.mem_append_left _ front)
    · rcases List.mem_cons.mp back with rfl | later
      · exact (safe_plaintext s name).openOne chance asked
      · exact kept.safe v (List.mem_append_right _ later)
  | @reopen s before after v chance asked =>
    obtain rfl := kept.current s rfl
    exact ⟨s, kept.replace fun safe => safe.shut.openOne chance asked⟩
  | @setEncryptionPolicy s before after v isOpen chance policy =>
    obtain rfl := kept.current s rfl
    exact ⟨s, kept.replace fun safe => safe.called isOpen
      (called_setEncryptionPolicy cipher safe.settled chance.how chance.seed policy)⟩
  | @rotateKey s before after v isOpen chance =>
    obtain rfl := kept.current s rfl
    exact ⟨s, kept.replace fun safe => safe.called isOpen
      (called_rotateKey cipher safe.settled chance.how chance.seed)⟩
  | @flush s before after v isOpen =>
    obtain rfl := kept.current s rfl
    exact ⟨s, kept.replace fun safe => safe.flush isOpen⟩
  | @write s before after v e seed data stored isOpen now accepted =>
    obtain rfl := kept.current s rfl
    exact ⟨s, kept.replace fun safe => safe.write now accepted⟩
  | @writePlain s before after v data isOpen now unmarked =>
    obtain rfl := kept.current s rfl
    exact ⟨s, kept.replace fun safe => safe.writePlain isOpen now unmarked⟩
  | @drop s before after v =>
    obtain rfl := kept.current s rfl
    refine ⟨s, kept.resolved, kept.current, ?_⟩
    intro other member
    apply kept.safe
    rcases List.mem_append.mp member with front | back
    · exact List.mem_append_left _ front
    · exact List.mem_append_right _ (.tail _ back)

theorem exists_resolved (derivation : Derivation) (passphrase : String) (salt : Bytes) :
    ∃ session, Resolved derivation passphrase session ∧
      session.kdf = ⟨"argon2id", salt, defaultKDFParams⟩ := by
  have size := derivation.length_deriveKey passphrase salt defaultKDFParams
  have fits : (derivation.deriveKey passphrase salt defaultKDFParams).length = keySize := size
  obtain ⟨keys, made⟩ : ∃ keys, resolveKeys derivation passphrase
      ⟨"argon2id", salt, defaultKDFParams⟩ = .ok keys := by
    rw [resolveKeys, Keyring.new, Keyring.add]
    have valid : Crypto.Envelope.validateKeyID builtinKeyID = .ok () := by decide
    rw [valid]
    change ∃ keys, Except.bind (if (derivation.deriveKey passphrase salt
      defaultKDFParams).length ≠ keySize then _ else _) _ = .ok keys
    rw [if_neg (not_not.mpr fits)]
    exact ⟨_, rfl⟩
  exact ⟨⟨keys, _⟩, made, rfl⟩

/-- A session has one key, which is current and of the right size. -/
theorem Resolved.key (resolved : Resolved derivation passphrase session) :
    let key := derivation.deriveKey passphrase session.kdf.salt session.kdf.params
    session.keys.current = .ok (builtinKeyID, key) ∧ key.length = keySize ∧
      ∀ keyID held, session.keys.keys keyID = some held → held = key := by
  intro key
  rw [Resolved, resolveKeys, Keyring.new, Keyring.add] at resolved
  have valid : Crypto.Envelope.validateKeyID builtinKeyID = .ok () := by decide
  rw [valid] at resolved
  change Except.bind (if key.length ≠ keySize then _ else _) _ = .ok session.keys at resolved
  split_ifs at resolved with size
  case pos => cases resolved
  have shape : session.keys =
      ⟨Function.update (fun _ => none) builtinKeyID (some key), builtinKeyID⟩ :=
    (Except.ok.inj resolved).symm
  refine ⟨?_, not_not.mp size, ?_⟩
  · rw [shape, Keyring.current]
    dsimp only
    rw [Function.update_self]
  · intro keyID held found
    rw [shape] at found
    change Function.update (fun _ => none) builtinKeyID (some key) keyID = some held at found
    by_cases same : keyID = builtinKeyID
    · subst same
      rw [Function.update_self] at found
      exact (Option.some.inj found).symm
    · rw [Function.update_of_ne same] at found
      cases found

omit [JsonNumber N] in
/-- A collection with a block only opens if the current key passes its check. -/
theorem verified_of_openOne {m : EncryptionMeta} (there : v.protection.disk = some m)
    (success : (openOne cipher chance (session.config asked) v).1 = .ok ()) :
    ∃ keyID key, session.keys.current = .ok (keyID, key) ∧
      verifyKeyCheck cipher key m.keyCheck = .ok () := by
  have opening := opening_initEncryption cipher chance.how chance.seed (session.config asked)
    v.protection.name (some m)
  rw [openOne, there] at success
  generalize initEncryption cipher chance.how chance.seed (session.config asked)
    v.protection.name (some m) = outcome at opening success
  cases opening with
  | block given current verified =>
    cases given
    exact ⟨_, _, current, verified⟩
  | failed => cases success

theorem Safe.opens (safe : Safe cipher session v)
    (resolved : Resolved derivation passphrase session) (written : chance.how = .done)
    (valid : ∀ policy ∈ asked, policy.validate = .ok ()) :
    (Passphrase.openOne cipher chance (session.config asked) v).1 = .ok () := by
  obtain ⟨current, size, only⟩ := resolved.key
  obtain ⟨p, success⟩ : ∃ p, initEncryption cipher chance.how chance.seed
      (session.config asked) v.protection.name v.protection.disk = (.ok (), p) := by
    rcases there : v.protection.disk with - | m
    · rcases wanted : asked with - | policy
      · exact ⟨_, rfl⟩
      · have fresh : ∃ check, freshKeyCheck cipher session.keys chance.seed = .ok check := by
          have made : ∃ check, makeKeyCheck cipher
              (derivation.deriveKey passphrase session.kdf.salt session.kdf.params)
              builtinKeyID chance.seed = .ok check := by
            rw [makeKeyCheck, Crypto.Envelope.encrypt]
            have valid : Crypto.Envelope.validateKeyID builtinKeyID = .ok () := by decide
            rw [valid]
            change ∃ check, (if _ ≠ keySize then _ else _) = Except.ok check
            rw [if_neg (not_not.mpr size)]
            exact ⟨_, rfl⟩
          obtain ⟨check, made⟩ := made
          rw [freshKeyCheck, current]
          dsimp only
          rw [made]
          exact ⟨_, rfl⟩
        obtain ⟨⟨check, keyID⟩, fresh⟩ := fresh
        have fits := valid policy wanted
        rw [initEncryption.eq_def]
        dsimp only [Session.config]
        rw [fits, fresh, written]
        exact ⟨_, rfl⟩
    · have given : (session.config asked).keyProvider = some session.keys := rfl
      apply (initEncryption_block_iff cipher given).mpr
      obtain ⟨held, nonce, found, made⟩ := (safe.disk m there).checked
      refine ⟨_, _, current, ?_⟩
      rw [← only _ held found]
      exact Crypto.Envelope.verifyKeyCheck_makeKeyCheck cipher made
  rw [Passphrase.openOne, success]

omit [JsonNumber N] in
/-- Opening each collection succeeds if and only if all of them open. -/
theorem openEach_cases (cipher : Cipher) (chance : String → Chance) (cfg : String → OpenConfig)
    (vaults : List (Vault N)) :
    (∀ v ∈ vaults, (openOne cipher (chance v.protection.name) (cfg v.protection.name) v).1 =
        .ok ()) ∧
      openEach cipher chance cfg vaults = (.ok (), vaults.map fun v =>
        (openOne cipher (chance v.protection.name) (cfg v.protection.name) v).2) ∨
    (∃ v ∈ vaults, (openOne cipher (chance v.protection.name) (cfg v.protection.name) v).1 ≠
        .ok ()) ∧ ∃ error left, openEach cipher chance cfg vaults = (.error error, left) := by
  induction vaults with
  | nil => exact Or.inl ⟨List.forall_mem_nil _, rfl⟩
  | cons v vaults ih =>
    rw [openEach, List.forall_mem_cons, List.map_cons, List.exists_mem_cons_iff]
    rcases openOne cipher (chance v.protection.name) (cfg v.protection.name) v with
      ⟨error | ⟨⟩, o⟩
    · exact Or.inr ⟨Or.inl nofun, error, _, rfl⟩
    · rcases ih with ⟨each, opened⟩ | ⟨some, error, left, opened⟩
      · rw [opened]
        exact Or.inl ⟨⟨rfl, each⟩, rfl⟩
      · rw [opened]
        exact Or.inr ⟨Or.inr some, error, _, rfl⟩

theorem kept_run
    (run : ReflTransGen (Step cipher derivation passphrase Recorded) ⟨none, []⟩ site) :
    ∃ session, Kept cipher derivation passphrase site session := by
  induction run with
  | refl =>
    obtain ⟨session, resolved, -⟩ := exists_resolved derivation passphrase []
    exact ⟨session, resolved, nofun, List.forall_mem_nil _⟩
  | tail _ step ih => exact kept_step ih step

theorem Kept.resolves (kept : Kept cipher derivation passphrase site session) (salt : Bytes) :
    ∃ session', resolvePassphrase derivation passphrase salt site.vaults = .ok session' := by
  rw [resolvePassphrase]
  rcases found : findPersistedKDF site.vaults with - | kdf
  · obtain ⟨session', resolved, kdf⟩ := exists_resolved derivation passphrase salt
    rw [Option.getD_none, ← kdf, resolved]
    exact ⟨_, rfl⟩
  · obtain ⟨v, member, m, block, recorded⟩ := findPersistedKDF_eq_some found
    have own : kdf = session.kdf := by
      rcases ((kept.safe v member).disk m block).kdf with absent | tied
      · rw [recorded] at absent
        cases absent
      · exact Option.some.inj (recorded.symm.trans tied)
    rw [Option.getD_some, own, kept.resolved]
    exact ⟨_, rfl⟩

/-- A database is only ever opened with one passphrase, at times when some
collection records the derivation of the key if any is encrypted.  At such a
time the passphrase opens it, if the policies that are asked for are valid and
the metadata can be written; every record can be read, and records of an
encrypted collection that was open read as they did.  At another time the
passphrase does not open it, if the new salt gives another key. -/
theorem passphrase_reopens_iff (cipher : Cipher) (derivation : Derivation) (passphrase : String)
    (site : Site N)
    (run : ReflTransGen (Step cipher derivation passphrase Recorded) ⟨none, []⟩ site)
    (salt : Bytes) (chance : String → Chance) (asked : String → Option EncryptionPolicy)
    (written : ∀ name, (chance name).how = .done)
    (valid : ∀ name, ∀ policy ∈ asked name, policy.validate = .ok ()) :
    (Recorded site.vaults → ∃ session,
      (startup cipher derivation passphrase salt chance asked site.vaults).session =
        some session ∧
      ∀ v ∈ site.vaults,
        ∃ o ∈ (startup cipher derivation passphrase salt chance asked site.vaults).vaults,
          o.records = v.records ∧ (v.protection.disk ≠ none → o.protection.enc ≠ none) ∧
          ∀ e ∈ o.protection.enc, ∀ stored ∈ v.records, ∃ plain,
            materialize cipher session.keys e stored [] = .ok plain ∧
            ∀ before ∈ site.session, ∀ cur ∈ v.protection.enc,
              materialize cipher before.keys cur stored [] = .ok plain) ∧
    (Authentic cipher → ¬Recorded site.vaults →
      (∀ v ∈ site.vaults, ∀ m ∈ v.protection.disk, ∀ key nonce,
        makeKeyCheck cipher key m.currentKeyID nonce = .ok m.keyCheck →
          derivation.deriveKey passphrase salt defaultKDFParams ≠ key) →
      (startup cipher derivation passphrase salt chance asked site.vaults).session = none) := by
  obtain ⟨session, kept⟩ := kept_run run
  constructor
  · intro recorded
    obtain ⟨session', opening⟩ := kept.resolves salt
    obtain ⟨resolved, safe, same⟩ :=
      safe_resolvePassphrase kept.resolved kept.safe recorded opening
    rw [startup, opening]
    rcases openEach_cases cipher chance (fun name => session'.config (asked name))
      (site.vaults.map Passphrase.closed) with ⟨-, opened⟩ | ⟨⟨v, member, fails⟩, -⟩
    case inr => exact absurd ((safe v member).opens resolved (written _) (valid _)) fails
    dsimp only
    rw [opened]
    refine ⟨session', rfl, fun v member => ?_⟩
    have there : Passphrase.closed v ∈ site.vaults.map Passphrase.closed :=
      List.mem_map_of_mem member
    have opens := (safe _ there).opens resolved (written v.protection.name)
      (valid v.protection.name)
    obtain ⟨block, resting, own, ended | ⟨error, ended⟩⟩ :=
      (safe _ there).openOne_cases (chance v.protection.name) (asked v.protection.name)
    case inr =>
      rw [ended] at opens
      cases opens
    refine ⟨_, List.mem_map.mpr ⟨_, there, congrArg Prod.snd ended⟩, rfl, ?_, ?_⟩
    · intro encrypted
      obtain ⟨m, there⟩ := Option.ne_none_iff_exists'.mp encrypted
      rw [own m there]
      exact Option.some_ne_none _
    · intro e now stored record
      obtain ⟨m, there, rfl⟩ := Option.map_eq_some_iff.mp now
      obtain ⟨plain, read⟩ := (resting.block m there).2.2 stored record
      refine ⟨plain, read, fun before current cur policy => ?_⟩
      have settled := (kept.safe v member).settled
      obtain ⟨m', onDisk, mode⟩ := settled.mode cur policy
      cases (own m' onDisk).symm.trans there
      have sameSession : session' = session := same ⟨v, member, by
        rw [Option.mem_def.mp onDisk]
        exact Option.some_ne_none m⟩
      have modes : cur.readMode = (m.encryptor v.protection.name).readMode :=
        mode.symm.trans (settled.blocks m onDisk).effectiveReadMode_eq.symm
      rw [materialize_congr modes (settled.named cur policy), kept.current before current,
        ← sameSession]
      exact read
  · intro authentic unrecorded fresh
    obtain ⟨⟨v, member, encrypted⟩, nowhere⟩ := Classical.not_imp.mp unrecorded
    obtain ⟨m, block⟩ := Option.ne_none_iff_exists'.mp encrypted
    have missing : findPersistedKDF site.vaults = none := by
      by_contra found
      obtain ⟨kdf, found⟩ := Option.ne_none_iff_exists'.mp found
      obtain ⟨w, there, m', block', recorded⟩ := findPersistedKDF_eq_some found
      refine nowhere ⟨w, there, m', block', ?_⟩
      rw [recorded]
      exact Option.some_ne_none kdf
    obtain ⟨session', resolved, kdf⟩ := exists_resolved derivation passphrase salt
    have opening : resolvePassphrase derivation passphrase salt site.vaults = .ok session' := by
      rw [resolvePassphrase, missing, Option.getD_none, ← kdf, resolved]
      rfl
    obtain ⟨current, -, -⟩ := resolved.key
    rw [kdf] at current
    rw [startup, opening]
    rcases openEach_cases cipher chance (fun name => session'.config (asked name))
      (site.vaults.map Passphrase.closed) with ⟨each, -⟩ | ⟨-, error, left, failed⟩
    · -- the collection with the block does not open
      obtain ⟨keyID, key, now, verified⟩ :=
        verified_of_openOne (v := Passphrase.closed v) block (each _ (List.mem_map_of_mem member))
      obtain ⟨-, rfl⟩ := Prod.mk.inj (Except.ok.inj (now.symm.trans current))
      obtain ⟨key, nonce, -, made⟩ := ((kept.safe v member).disk m block).checked
      exact absurd (Crypto.Envelope.eq_of_verifyKeyCheck cipher authentic made verified)
        (fresh v member m block key nonce made)
    · dsimp only
      rw [failed]

/-! ## A policy that is first set on an open collection -/

/-- A derivation to compute with: the salt, filled up to the length of a key. -/
def padding : Derivation where
  deriveKey _ salt params := (salt ++ List.replicate params.keyLen 0).take params.keyLen
  length_deriveKey _ salt params := by
    rw [List.length_take, List.length_append, List.length_replicate]
    omega

def easy : String → Chance :=
  fun _ => ⟨.done, 1⟩

/-- The session of a new directory with the salt `[1]`. -/
def firstSession : Session where
  keys := ⟨Function.update (fun _ => none) builtinKeyID
    (some (padding.deriveKey "secret" [1] defaultKDFParams)), builtinKeyID⟩
  kdf := ⟨"argon2id", [1], defaultKDFParams⟩

/-- A collection that is created in the first session. -/
def firstVault (asked : Option EncryptionPolicy) : Vault Int :=
  (openOne tagging ⟨.done, 1⟩ (firstSession.config asked)
    ⟨plaintext "users" none, []⟩).2

theorem firstVault_run (guard : List (Vault Int) → Prop) (empty : guard [])
    (asked : Option EncryptionPolicy) :
    ReflTransGen (Step tagging padding "secret" guard)
      (⟨none, []⟩ : Site Int) ⟨some firstSession, [firstVault asked]⟩ := by
  have start : Step tagging padding "secret" guard (⟨none, []⟩ : Site Int)
      ⟨some firstSession, [] ++ []⟩ := .startup [1] easy (fun _ => none) empty
  have create : Step tagging padding "secret" guard
      ⟨some firstSession, [] ++ []⟩ ⟨some firstSession, [] ++ firstVault asked :: []⟩ :=
    .create ⟨.done, 1⟩ asked "users"
  exact (ReflTransGen.single start).tail create

/-- A collection that is encrypted from the start is opened by the passphrase. -/
theorem passphrase_reopens_created :
    ∃ site : Site Int,
      ReflTransGen (Step tagging padding "secret" Recorded)
        ⟨none, []⟩ site ∧ Recorded site.vaults ∧
      ∃ session, (startup tagging padding "secret" [2] easy (fun _ => none)
        site.vaults).session = some session := by
  have empty : Recorded ([] : List (Vault Int)) := by
    rintro ⟨v, absent, -⟩
    cases absent
  have run := firstVault_run Recorded empty (some recordPolicy)
  have recorded : Recorded [firstVault (some recordPolicy)] := fun _ =>
    ⟨_, List.mem_singleton_self _, _, rfl, Option.some_ne_none firstSession.kdf⟩
  obtain ⟨opens, -⟩ := passphrase_reopens_iff tagging padding "secret" _ run [2]
    easy (fun _ => none) (fun _ => rfl) (fun _ policy absent => by cases absent)
  obtain ⟨session, opened, -⟩ := opens recorded
  exact ⟨_, run, recorded, session, opened⟩

/-- The directory is opened for the first time, a collection is created and
encryption is enabled on it with `SetEncryptionPolicy`.  The same passphrase
does not open the directory again. -/
theorem passphrase_forgotten :
    ∃ site : Site Int,
      ReflTransGen (Step tagging padding "secret" fun _ => True)
        ⟨none, []⟩ site ∧
      (startup tagging padding "secret" [2] easy (fun _ => none)
        site.vaults).session = none := by
  have enable : Step tagging padding "secret" (fun _ => True)
      ⟨some firstSession, [] ++ firstVault none :: []⟩
      ⟨some firstSession, [] ++ ⟨(setEncryptionPolicy tagging .done 2
        (firstVault none).protection (some recordPolicy)).2, []⟩ :: []⟩ :=
    .setEncryptionPolicy rfl ⟨.done, 2⟩ (some recordPolicy)
  exact ⟨_, (firstVault_run _ trivial none).tail enable, rfl⟩

end Scriva.Engine.Passphrase
