import Scriva.Engine.Policies
import Mathlib.Logic.Relation

/-!
# Rotating keys

A database has encrypted collections that share one keyring.  Keys are added
and promoted on the keyring, and the collections take over the promoted key one
by one.  Every sealed value names its key, so what was sealed stays readable as
long as the keyring has all keys.

Opening a collection checks the current key alone against the check that the
collection has stored.  So a database in which some collection has not yet
taken over the promoted key does not open with it.
-/

namespace Scriva.Engine.KeyRotation

open Lib.Fallible Store.Record Encryption Policies
open Crypto.Envelope (Cipher Keyring Key makeKeyCheck verifyKeyCheck Authentic tagging)
open Relation (ReflTransGen)

variable {N : Type} [JsonNumber N]

/-- A collection: its encryption and its records as they are stored. -/
structure Vault (N : Type) where
  protection : Protection
  records : List (Data N)

structure Database (N : Type) where
  keys : Keyring
  vaults : List (Vault N)

/-- The collections see the keys of the shared keyring. -/
def Database.share (db : Database N) (keys : Keyring) : Database N where
  keys := keys
  vaults := db.vaults.map fun v =>
    { v with protection := { v.protection with keyProvider := some keys } }

variable (cipher : Cipher)

def openVault (how : Persisting) (seed : Nat) (cfg : OpenConfig) (v : Vault N) :
    Except EncryptionError (Vault N) :=
  match initEncryption cipher how seed cfg v.protection.name v.protection.disk with
  | (.ok (), opened) => .ok ⟨opened, v.records⟩
  | (.error error, _) => .error error

/-- Opening a database opens its collections one after the other and ends at
the first that does not open. -/
def openVaults (how : Persisting) (seed : Nat) (cfg : OpenConfig) :
    List (Vault N) → Except EncryptionError (List (Vault N))
  | [] => .ok []
  | v :: vaults =>
    match openVault cipher how seed cfg v with
    | .error error => .error error
    | .ok opened => (openVaults how seed cfg vaults).map (opened :: ·)

/-- The steps of a rotation and what goes on besides: new encrypted collections,
writes, changes of policies, writes of the metadata and restarts.  A key is added under an id that no
other key has. -/
inductive Step : Database N → Database N → Prop where
  | create {keys : Keyring} {vaults : List (Vault N)} {how : Persisting} {seed : Nat}
      {cfg : OpenConfig} {name : String} {p : Protection} (given : cfg.keyProvider = some keys)
      (asked : cfg.encryption ≠ none)
      (opened : initEncryption cipher how seed cfg name none = (.ok (), p)) :
      Step ⟨keys, vaults⟩ ⟨keys, vaults ++ [⟨p, []⟩]⟩
  | add {db : Database N} {keyID : String} {key : Key} {keys : Keyring}
      (vacant : ∀ held, db.keys.keys keyID = some held → held = key)
      (added : db.keys.add keyID key = .ok keys) : Step db (db.share keys)
  | promote {db : Database N} {keyID : String} {keys : Keyring}
      (promoted : db.keys.setCurrent keyID = .ok keys) : Step db (db.share keys)
  | rotateKey {keys : Keyring} {before after : List (Vault N)} {v : Vault N}
      (how : Persisting) (seed : Nat) :
      Step ⟨keys, before ++ v :: after⟩
        ⟨keys, before ++ ⟨(rotateKey cipher how seed v.protection).2, v.records⟩ :: after⟩
  | setEncryptionPolicy {keys : Keyring} {before after : List (Vault N)} {v : Vault N}
      (how : Persisting) (seed : Nat) (policy : Option EncryptionPolicy) :
      Step ⟨keys, before ++ v :: after⟩
        ⟨keys, before ++
          ⟨(setEncryptionPolicy cipher how seed v.protection policy).2, v.records⟩ :: after⟩
  | flush {keys : Keyring} {before after : List (Vault N)} {v : Vault N} :
      Step ⟨keys, before ++ v :: after⟩
        ⟨keys, before ++ ⟨v.protection.flush, v.records⟩ :: after⟩
  | write {keys : Keyring} {before after : List (Vault N)} {v : Vault N} {e : PolicyEncryptor}
      {seed : Nat} {data stored : Data N} (now : v.protection.enc = some e)
      (accepted : encrypt cipher keys e seed data = .ok stored) :
      Step ⟨keys, before ++ v :: after⟩
        ⟨keys, before ++ ⟨v.protection, stored :: v.records⟩ :: after⟩
  | restart {db : Database N} {how : Persisting} {seed : Nat} {cfg : OpenConfig}
      {keys : Keyring} {vaults : List (Vault N)} (given : cfg.keyProvider = some keys)
      (within : db.keys.Within keys)
      (opened : openVaults cipher how seed cfg db.vaults = .ok vaults) : Step db ⟨keys, vaults⟩

/-- The key check of a block was made with the key that the block names. -/
def Checked (keys : Keyring) (m : EncryptionMeta) : Prop :=
  ∃ key seed, keys.keys m.currentKeyID = some key ∧
    makeKeyCheck cipher key m.currentKeyID seed = .ok m.keyCheck

/-- An encrypted collection whose records can be read. -/
structure Sound (keys : Keyring) (v : Vault N) : Prop where
  provider : v.protection.keyProvider = some keys
  settled : Settled v.protection
  encrypted : v.protection.enc ≠ none
  memory : ∀ m ∈ v.protection.encMeta, Checked cipher keys m
  disk : ∀ m ∈ v.protection.disk, Checked cipher keys m
  readable : ∀ e ∈ v.protection.enc, ∀ stored ∈ v.records,
    ∃ plain, materialize cipher keys e stored [] = .ok plain

variable {cipher}

variable {keys later : Keyring} {seed : Nat} {v : Vault N} {p : Protection} {how : Persisting}
  {cfg : OpenConfig} {keyID : String} {key : Key} {db db' : Database N}

theorem Checked.mono (within : keys.Within later) {m : EncryptionMeta}
    (checked : Checked cipher keys m) : Checked cipher later m := by
  obtain ⟨key, seed, held, made⟩ := checked
  exact ⟨key, seed, within _ _ held, made⟩

theorem checked_freshKeyCheck {check keyID : String}
    (fresh : freshKeyCheck cipher keys seed = .ok (check, keyID)) :
    ∃ key seed, keys.keys keyID = some key ∧ makeKeyCheck cipher key keyID seed = .ok check := by
  rw [freshKeyCheck] at fresh
  rcases now : keys.current with reason | ⟨current, key⟩
  · rw [now] at fresh
    cases fresh
  · rw [now] at fresh
    dsimp only at fresh
    split at fresh
    · cases fresh
    · rename_i found made
      obtain ⟨rfl, rfl⟩ := Prod.mk.inj (Except.ok.inj fresh)
      exact ⟨key, seed, (Crypto.Envelope.Keyring.current_eq_ok now).2, made⟩

/-! ## What the steps keep -/

/-- More keys keep a collection sound. -/
theorem Sound.provide (sound : Sound cipher keys v) (within : keys.Within later) :
    Sound cipher later { v with protection := { v.protection with keyProvider := some later } } :=
  { provider := rfl
    settled := sound.settled.changes (.kept rfl rfl rfl (Or.inl rfl))
    encrypted := sound.encrypted
    memory := fun m there => (sound.memory m there).mono within
    disk := fun m there => (sound.disk m there).mono within
    readable := by
      intro e now stored member
      obtain ⟨plain, read⟩ := sound.readable e now stored member
      exact ⟨plain, materialize_mono within read⟩ }

/-- The block that a call writes has a check of the key that it names. -/
theorem checked_of_minted {m : EncryptionMeta} (memory : ∀ m ∈ p.encMeta, Checked cipher keys m)
    (provider : p.keyProvider = some keys)
    (minted : (∃ prev ∈ p.encMeta, m.keyCheck = prev.keyCheck ∧
        m.currentKeyID = prev.currentKeyID) ∨
      ∃ keys ∈ p.keyProvider, ∃ seed,
        freshKeyCheck cipher keys seed = .ok (m.keyCheck, m.currentKeyID)) :
    Checked cipher keys m := by
  rcases minted with ⟨prev, cached, check, keyID⟩ | ⟨given, there, seed, fresh⟩
  · rw [Checked, check, keyID]
    exact memory prev cached
  · cases there.symm.trans provider
    exact checked_freshKeyCheck fresh

theorem Sound.called (sound : Sound cipher keys v) (called : Called cipher v.protection p) :
    Sound cipher keys ⟨p, v.records⟩ := by
  have changes := called.changes
  have settled := sound.settled.changes changes
  obtain ⟨e, now⟩ := Option.ne_none_iff_exists'.mp sound.encrypted
  obtain ⟨e', next, mode, collection⟩ := changes.mode_kept sound.settled now
  have readable : ∀ e ∈ p.enc, ∀ stored ∈ v.records,
      ∃ plain, materialize cipher keys e stored [] = .ok plain := by
    rw [next]
    rintro _ ⟨⟩ stored member
    rw [materialize_congr mode collection]
    exact sound.readable e now stored member
  have encrypted : p.enc ≠ none := by
    rw [next]
    exact Option.some_ne_none e'
  cases called with
  | unchanged same =>
    rw [same]
    exact sound
  | changed m fit mode kdf minted result =>
    have written : ∀ m' ∈ some m, Checked cipher keys m' := by
      rintro _ ⟨⟩
      exact checked_of_minted sound.memory sound.provider minted
    rcases result with rfl | rfl
    · exact ⟨sound.provider, settled, encrypted, written, written, readable⟩
    · exact ⟨sound.provider, settled, encrypted, sound.memory, written, readable⟩

/-! ## Opening -/

theorem Sound.block (sound : Sound cipher keys v) : ∃ m, v.protection.disk = some m := by
  obtain ⟨e, now⟩ := Option.ne_none_iff_exists'.mp sound.encrypted
  obtain ⟨m, there, -⟩ := sound.settled.mode e now
  exact ⟨m, there⟩

omit [JsonNumber N] in
theorem openVault_eq_ok {v opened : Vault N}
    (success : openVault cipher how seed cfg v = .ok opened) :
    initEncryption cipher how seed cfg v.protection.name v.protection.disk =
      (.ok (), opened.protection) ∧ opened.records = v.records := by
  rw [openVault] at success
  rcases outcome : initEncryption cipher how seed cfg v.protection.name v.protection.disk
      with ⟨error | ⟨⟩, p⟩
  · rw [outcome] at success
    cases success
  · rw [outcome] at success
    obtain rfl := Except.ok.inj success
    exact ⟨rfl, rfl⟩

/-- A collection that opens with all its keys is sound, and each of its records
reads as it did. -/
theorem Sound.opened {v opened : Vault N} (sound : Sound cipher keys v) (within : keys.Within later)
    (given : cfg.keyProvider = some later)
    (success : openVault cipher how seed cfg v = .ok opened) :
    Sound cipher later opened ∧
      ∀ e ∈ v.protection.enc, ∀ e' ∈ opened.protection.enc, ∀ stored ∈ v.records,
        materialize cipher later e' stored [] = materialize cipher keys e stored [] := by
  obtain ⟨opens, records⟩ := openVault_eq_ok success
  obtain ⟨m, there⟩ := sound.block
  obtain ⟨p, records'⟩ := opened
  cases records
  have fit := sound.settled.blocks m there
  have shape : p = installed v.protection.name (some later) (some m) := by
    have opening := opening_initEncryption cipher how seed cfg v.protection.name v.protection.disk
    rw [opens, there] at opening
    rw [← given]
    cases opening
    rfl
  have reads : ∀ e ∈ v.protection.enc, ∀ stored ∈ v.records,
      materialize cipher later (m.encryptor v.protection.name) stored [] =
        materialize cipher keys e stored [] := by
    intro e now stored member
    obtain ⟨plain, read⟩ := sound.readable e now stored member
    obtain ⟨m', there', mode⟩ := sound.settled.mode e now
    cases there.symm.trans there'
    have modes : (m.encryptor v.protection.name).readMode = e.readMode :=
      fit.effectiveReadMode_eq.trans mode
    rw [materialize_congr modes (sound.settled.named e now).symm, read,
      materialize_mono within read]
  cases shape
  constructor
  · obtain ⟨e, now⟩ := Option.ne_none_iff_exists'.mp sound.encrypted
    have checked : ∀ m' ∈ some m, Checked cipher later m' := by
      rintro _ ⟨⟩
      exact (sound.disk m there).mono within
    refine ⟨rfl, settled_installed (there ▸ sound.settled.blocks), Option.some_ne_none _, checked,
      checked, ?_⟩
    rintro _ ⟨⟩ stored member
    rw [reads e now stored member]
    exact sound.readable e now stored member
  · rintro e now _ ⟨⟩ stored member
    exact reads e now stored member

section

omit [JsonNumber N]

/-- The opened collections are the collections, each opened. -/
theorem openVaults_eq_ok {vaults opened : List (Vault N)}
    (success : openVaults cipher how seed cfg vaults = .ok opened) :
    vaults.map (openVault cipher how seed cfg) = opened.map .ok := by
  induction vaults generalizing opened with
  | nil =>
    cases success
    rfl
  | cons v vaults ih =>
    rw [openVaults] at success
    split at success
    · cases success
    · rename_i o first
      obtain ⟨others, rest, success⟩ := ok_of_bind success
      cases success
      rw [List.map_cons, first, ih rest]
      rfl

theorem openVaults_ok_of_forall {vaults : List (Vault N)}
    (each : ∀ v ∈ vaults, ∃ o, openVault cipher how seed cfg v = .ok o) :
    ∃ opened, openVaults cipher how seed cfg vaults = .ok opened := by
  induction vaults with
  | nil => exact ⟨[], rfl⟩
  | cons v vaults ih =>
    obtain ⟨o, first⟩ := each v (.head _)
    obtain ⟨opened, rest⟩ := ih fun v member => each v (.tail _ member)
    refine ⟨o :: opened, ?_⟩
    rw [openVaults, first, rest]
    rfl

theorem exists_openVault {vaults opened : List (Vault N)}
    (success : openVaults cipher how seed cfg vaults = .ok opened) (member : v ∈ vaults) :
    ∃ o ∈ opened, openVault cipher how seed cfg v = .ok o := by
  have there := List.mem_map_of_mem member (f := openVault cipher how seed cfg)
  rw [openVaults_eq_ok success] at there
  obtain ⟨o, there, opens⟩ := List.mem_map.mp there
  exact ⟨o, there, opens.symm⟩

end

/-! ## Runs -/

def AllSound (cipher : Cipher) (db : Database N) : Prop :=
  ∀ v ∈ db.vaults, Sound cipher db.keys v

theorem within_add (vacant : ∀ held, keys.keys keyID = some held → held = key)
    (added : keys.add keyID key = .ok later) : keys.Within later := by
  intro other held found
  rw [Keyring.add] at added
  obtain ⟨⟨⟩, valid, added⟩ := ok_of_bind added
  change (if key.length ≠ Crypto.Envelope.keySize then _ else _) = _ at added
  split_ifs at added
  obtain rfl := Except.ok.inj added
  change Function.update keys.keys keyID (some key) other = some held
  by_cases same : other = keyID
  · subst same
    rw [Function.update_self, vacant held found]
  · rw [Function.update_of_ne same, found]

theorem within_setCurrent (promoted : keys.setCurrent keyID = .ok later) : keys.Within later := by
  intro other held found
  rw [Keyring.setCurrent] at promoted
  split_ifs at promoted
  obtain rfl := Except.ok.inj promoted
  exact found

theorem allSound_share (sound : AllSound cipher db) (within : db.keys.Within keys) :
    AllSound cipher (db.share keys) := by
  intro v member
  obtain ⟨old, there, rfl⟩ := List.mem_map.mp member
  exact (sound old there).provide within

theorem allSound_replace {before after : List (Vault N)} {v' : Vault N}
    (sound : AllSound cipher ⟨keys, before ++ v :: after⟩)
    (kept : Sound cipher keys v → Sound cipher keys v') :
    AllSound cipher ⟨keys, before ++ v' :: after⟩ := by
  intro other member
  rcases List.mem_append.mp member with front | back
  · exact sound other (List.mem_append_left _ front)
  · rcases List.mem_cons.mp back with rfl | later
    · exact kept (sound v (List.mem_append_right _ (.head _)))
    · exact sound other (List.mem_append_right _ (.tail _ later))

theorem sound_created {name : String} (given : cfg.keyProvider = some keys)
    (asked : cfg.encryption ≠ none)
    (opened : initEncryption cipher how seed cfg name none = (.ok (), p)) :
    Sound cipher keys (⟨p, []⟩ : Vault N) := by
  have opening := opening_initEncryption cipher how seed cfg name none
  rw [opened] at opening
  cases opening with
  | bare nothing => exact absurd nothing asked
  | @enabled m enables =>
    have fit : ∀ m' ∈ some m, MetaFit m' := by
      rintro _ ⟨⟩
      exact enables.fit
    have checked : ∀ m' ∈ some m, Checked cipher keys m' := by
      rintro _ ⟨⟩
      obtain ⟨own, there, fresh⟩ := enables.checked
      cases there.symm.trans given
      exact checked_freshKeyCheck fresh
    exact ⟨given, settled_installed fit, Option.some_ne_none _, checked, checked, nofun⟩

theorem allSound_step (sound : AllSound cipher db) (step : Step cipher db db') :
    AllSound cipher db' := by
  cases step with
  | create given asked opened =>
    intro v member
    rcases List.mem_append.mp member with old | new
    · exact sound v old
    · rw [List.mem_singleton.mp new]
      exact sound_created given asked opened
  | add vacant added => exact allSound_share sound (within_add vacant added)
  | promote promoted => exact allSound_share sound (within_setCurrent promoted)
  | rotateKey how seed =>
    exact allSound_replace sound fun one =>
      one.called (called_rotateKey cipher one.settled how seed)
  | setEncryptionPolicy how seed policy =>
    exact allSound_replace sound fun one =>
      one.called (called_setEncryptionPolicy cipher one.settled how seed policy)
  | flush =>
    exact allSound_replace sound fun one =>
      { provider := one.provider
        settled := one.settled.changes (.kept rfl rfl rfl (Or.inr rfl))
        encrypted := one.encrypted
        memory := one.memory
        disk := one.memory
        readable := one.readable }
  | @write keys before after v e seed data stored now accepted =>
    refine allSound_replace sound fun one =>
      { one with readable := fun e' now' stored' member => ?_ }
    obtain rfl := Option.some.inj (now.symm.trans now')
    rcases List.mem_cons.mp member with rfl | old
    · exact materialize_of_accepted (one.settled.fit e now) accepted
    · exact one.readable e now stored' old
  | @restart db how seed cfg keys vaults given within opened =>
    intro o member
    have there : .ok o ∈ db.vaults.map (openVault cipher how seed cfg) := by
      rw [openVaults_eq_ok opened]
      exact List.mem_map_of_mem member
    obtain ⟨v, there, success⟩ := List.mem_map.mp there
    exact ((sound v there).opened within given success).1

theorem allSound_run (sound : AllSound cipher db)
    (run : ReflTransGen (Step cipher) db db') : AllSound cipher db' := by
  induction run with
  | refl => exact sound
  | tail _ step ih => exact allSound_step ih step

/-- The block of a collection names the key that is current in a keyring. -/
def Promoted (keys : Keyring) (v : Vault N) : Prop :=
  ∀ m ∈ v.protection.disk, ∃ key, keys.keys keys.currentID = some key ∧
    keys.keys m.currentKeyID = some key

omit [JsonNumber N] in
theorem current_of_held (held : keys.keys keys.currentID = some key) :
    keys.current = .ok (keys.currentID, key) := by
  rw [Keyring.current, held]

/-- A collection opens if its block names the current key. -/
theorem openVault_of_promoted (sound : Sound cipher keys v) (within : keys.Within later)
    (given : cfg.keyProvider = some later) (promoted : Promoted later v) :
    ∃ opened, openVault cipher how seed cfg v = .ok opened := by
  obtain ⟨m, there⟩ := sound.block
  obtain ⟨key, current, named⟩ := promoted m there
  obtain ⟨made, nonce, held, check⟩ := (sound.disk m there).mono within
  obtain rfl := Option.some.inj (held.symm.trans named)
  obtain ⟨opened, success⟩ := (initEncryption_block_iff cipher given).mpr
    ⟨_, _, current_of_held current, Crypto.Envelope.verifyKeyCheck_makeKeyCheck cipher check⟩
  refine ⟨⟨opened, v.records⟩, ?_⟩
  rw [openVault, there, success]

/-- A collection that opens names the current key, if no other key opens what
was sealed with it. -/
theorem promoted_of_openVault {v opened : Vault N} (authentic : Authentic cipher)
    (sound : Sound cipher keys v) (within : keys.Within later)
    (given : cfg.keyProvider = some later)
    (success : openVault cipher how seed cfg v = .ok opened) : Promoted later v := by
  intro m there
  have opens := (openVault_eq_ok success).1
  rw [Option.mem_def.mp there] at opens
  obtain ⟨keyID, key, now, verified⟩ := (initEncryption_block_iff cipher given).mp ⟨_, opens⟩
  obtain ⟨rfl, current⟩ := Crypto.Envelope.Keyring.current_eq_ok now
  obtain ⟨made, nonce, held, check⟩ := (sound.disk m there).mono within
  obtain rfl := Crypto.Envelope.eq_of_verifyKeyCheck cipher authentic check verified
  exact ⟨_, current, held⟩

/-- Keys are added and promoted, collections rotate one by one and are used in
between, and the database is stopped at any point.  With a keyring that has all
keys it opens if every collection names the current key in its block, and then
every record reads as it did before the stop; and it opens only then. -/
theorem reopens_iff_promoted (cipher : Cipher) (db db' : Database N) (sound : AllSound cipher db)
    (run : ReflTransGen (Step cipher) db db') (keys : Keyring)
    (within : db'.keys.Within keys) (how : Persisting) (seed : Nat) (cfg : OpenConfig)
    (given : cfg.keyProvider = some keys) :
    ((∀ v ∈ db'.vaults, Promoted keys v) →
      ∃ opened, openVaults cipher how seed cfg db'.vaults = .ok opened ∧
        ∀ v ∈ db'.vaults, ∃ o ∈ opened, o.records = v.records ∧
          ∃ e e', v.protection.enc = some e ∧ o.protection.enc = some e' ∧
            ∀ stored ∈ v.records, ∃ plain,
              materialize cipher db'.keys e stored [] = .ok plain ∧
                materialize cipher keys e' stored [] = .ok plain) ∧
    (Authentic cipher → ∀ opened, openVaults cipher how seed cfg db'.vaults = .ok opened →
      ∀ v ∈ db'.vaults, Promoted keys v) := by
  have all := allSound_run sound run
  constructor
  · intro promoted
    obtain ⟨opened, success⟩ : ∃ opened,
        openVaults cipher how seed cfg db'.vaults = .ok opened :=
      openVaults_ok_of_forall fun v member =>
        openVault_of_promoted (all v member) within given (promoted v member)
    refine ⟨opened, success, fun v member => ?_⟩
    obtain ⟨o, there, opens⟩ := exists_openVault success member
    obtain ⟨after, reads⟩ := (all v member).opened within given opens
    obtain ⟨e, now⟩ := Option.ne_none_iff_exists'.mp (all v member).encrypted
    obtain ⟨e', now'⟩ := Option.ne_none_iff_exists'.mp after.encrypted
    refine ⟨o, there, (openVault_eq_ok opens).2, e, e', now, now', fun stored record => ?_⟩
    obtain ⟨plain, read⟩ := (all v member).readable e now stored record
    exact ⟨plain, read, (reads e now e' now' stored record).trans read⟩
  · intro authentic opened success v member
    obtain ⟨o, -, opens⟩ := exists_openVault success member
    exact promoted_of_openVault authentic (all v member) within given opens

/-! ## A rotation -/

def sealAll : OpenConfig :=
  ⟨some oneKey, some recordPolicy, none⟩

/-- The keyring with a second key, which is promoted. -/
def twoKeys : Keyring :=
  ⟨Function.update oneKey.keys "k2" (some (List.replicate 32 2)), "k2"⟩

def created (name : String) : Vault Int :=
  ⟨(initEncryption tagging .done 1 sealAll name none).2, []⟩

theorem created_run (names : List String) :
    ReflTransGen (Step tagging) (⟨oneKey, []⟩ : Database Int)
      ⟨oneKey, names.map created⟩ := by
  induction names using List.reverseRecOn with
  | nil => exact .refl
  | append_singleton names name ih =>
    have opened : initEncryption tagging .done 1 sealAll name none =
        (.ok (), (created name).protection) := rfl
    have create : Step tagging (⟨oneKey, names.map created⟩ : Database Int)
        ⟨oneKey, names.map created ++ [created name]⟩ :=
      .create (rfl : sealAll.keyProvider = some oneKey) (Option.some_ne_none _) opened
    rw [List.map_append]
    exact ih.tail create

/-- A new key is added and promoted. -/
theorem promoted_run (vaults : List (Vault Int)) :
    ReflTransGen (Step tagging) ⟨oneKey, vaults⟩
      (Database.share ⟨oneKey, vaults⟩ twoKeys) := by
  have vacant : ∀ held, oneKey.keys "k2" = some held → held = List.replicate 32 2 := by
    intro held found
    cases found
  have added : oneKey.add "k2" (List.replicate 32 2) = .ok ⟨twoKeys.keys, "k1"⟩ := rfl
  have promoted : Keyring.setCurrent ⟨twoKeys.keys, "k1"⟩ "k2" = .ok twoKeys := rfl
  have add : Step tagging ⟨oneKey, vaults⟩
      (Database.share ⟨oneKey, vaults⟩ ⟨twoKeys.keys, "k1"⟩) := .add vacant added
  have promote : Step tagging
      (Database.share ⟨oneKey, vaults⟩ ⟨twoKeys.keys, "k1"⟩)
      ((Database.share ⟨oneKey, vaults⟩ ⟨twoKeys.keys, "k1"⟩).share twoKeys) :=
    .promote promoted
  have same : (Database.share ⟨oneKey, vaults⟩ ⟨twoKeys.keys, "k1"⟩).share twoKeys =
      Database.share ⟨oneKey, vaults⟩ twoKeys := by
    rw [Database.share, Database.share, List.map_map]
    rfl
  rw [same] at promote
  exact (ReflTransGen.single add).tail promote

/-- A collection before and after it has taken over the second key. -/
def waiting (name : String) (records : List (Data Int)) : Vault Int :=
  ⟨{ (created name).protection with keyProvider := some twoKeys }, records⟩

def rotated (name : String) (records : List (Data Int)) : Vault Int :=
  ⟨(rotateKey tagging .done 2 (waiting name records).protection).2, records⟩

def note : Data Int := ⟨[("text", .str "draft")], rfl⟩

/-- A record is sealed in one of two collections, a second key is promoted, and both
take it over.  The database opens, and the record is still read. -/
theorem reopens_promoted_two :
    ∃ (db : Database Int) (stored : Data Int),
      ReflTransGen (Step tagging) ⟨oneKey, []⟩ db ∧
      db.vaults.map Vault.records = [[stored], []] ∧
      ∃ opened, openVaults tagging .done 3 ⟨some twoKeys, none, none⟩ db.vaults =
          .ok opened ∧
        ∃ o ∈ opened, o.records = [stored] ∧ ∃ e plain, o.protection.enc = some e ∧
          materialize tagging twoKeys e stored [] = .ok plain := by
  obtain ⟨e, now, sealed⟩ := (Option.any_eq_true _ _).mp
    (by decide +kernel : ((created "users").protection.enc.any fun e =>
      (encrypt tagging oneKey e 5 note).toOption.isSome) = true)
  obtain ⟨stored, accepted⟩ : ∃ stored,
      encrypt tagging oneKey e 5 note = .ok stored := by
    rcases made : encrypt tagging oneKey e 5 note with reason | stored
    · rw [made] at sealed
      cases sealed
    · exact ⟨stored, rfl⟩
  have write : Step tagging
      (⟨oneKey, [] ++ created "users" :: [created "orders"]⟩ : Database Int)
      ⟨oneKey, [] ++ ⟨(created "users").protection, [stored]⟩ :: [created "orders"]⟩ :=
    .write now accepted
  have first : Step tagging
      (⟨twoKeys, [] ++ waiting "users" [stored] :: [waiting "orders" []]⟩ : Database Int)
      ⟨twoKeys, [] ++ rotated "users" [stored] :: [waiting "orders" []]⟩ := .rotateKey .done 2
  have second : Step tagging
      (⟨twoKeys, [rotated "users" [stored]] ++ waiting "orders" [] :: []⟩ : Database Int)
      ⟨twoKeys, [rotated "users" [stored]] ++ rotated "orders" [] :: []⟩ := .rotateKey .done 2
  have run : ReflTransGen (Step tagging) (⟨oneKey, []⟩ : Database Int)
      ⟨twoKeys, [rotated "users" [stored], rotated "orders" []]⟩ :=
    ((((created_run ["users", "orders"]).tail write).trans (promoted_run _)).tail first).tail second
  have sound : AllSound tagging (⟨oneKey, []⟩ : Database Int) := by
    intro v member
    cases member
  have promoted (name : String) (records : List (Data Int)) :
      Promoted twoKeys (rotated name records) := by
    rintro m ⟨⟩
    exact ⟨List.replicate 32 2, rfl, rfl⟩
  obtain ⟨opens, -⟩ := reopens_iff_promoted tagging _ _ sound run twoKeys
    (Crypto.Envelope.Keyring.Within.refl twoKeys) .done 3 ⟨some twoKeys, none, none⟩ rfl
  obtain ⟨opened, success, reads⟩ := opens (by
    rw [List.forall_mem_cons]
    exact ⟨promoted _ _, List.forall_mem_singleton.mpr (promoted _ _)⟩)
  obtain ⟨o, inside, same, _, e', _, now', each⟩ := reads _ (.head _)
  obtain ⟨plain, -, read⟩ := each stored (.head _)
  exact ⟨_, stored, run, rfl, opened, success, o, inside, same, e', plain, now', read⟩

/-- Two collections are created under the first key, a second key is promoted,
and the process stops when one of them has taken it over.  The database does not
open with the keyring that has both keys. -/
theorem interrupted_rotation_fails :
    ∃ db : Database Int,
      ReflTransGen (Step tagging) ⟨oneKey, []⟩ db ∧
      db.keys = twoKeys ∧
      openVaults tagging .done 3 ⟨some twoKeys, none, none⟩ db.vaults =
        .error (.keyCheck .wrongEncryptionKey) := by
  have rotate : Step tagging
      (⟨twoKeys, [] ++ waiting "users" [] :: [waiting "orders" []]⟩ : Database Int)
      ⟨twoKeys, [] ++ rotated "users" [] :: [waiting "orders" []]⟩ := .rotateKey .done 2
  have run : ReflTransGen (Step tagging) (⟨oneKey, []⟩ : Database Int)
      ⟨twoKeys, [rotated "users" [], waiting "orders" []]⟩ :=
    ((created_run ["users", "orders"]).trans (promoted_run _)).tail rotate
  exact ⟨_, run, rfl, rfl⟩

end Scriva.Engine.KeyRotation
