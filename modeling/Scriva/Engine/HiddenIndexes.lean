import Scriva.Engine.Footprint
import Scriva.Engine.Policies
import Scriva.Engine.Sequential

/-!
# Indexes and encrypted fields

An index holds the values of its field as they are, in memory and in its file.
A field that the current policy encrypts cannot be given an index.  An index
that is there already is not looked at when the policy changes.  So the values
of encrypted fields stay out of the indexes if no policy takes effect that
encrypts a field with an index, with the file of one, or with one in the making.
-/

namespace Scriva.Engine.HiddenIndexes

open Store.Record Store.Ndjson SecondaryIndex Directory Engine.Collection Compactor Load LoadJsonl
open Encryption Policies Interleaving Engine.Turns Footprint
open Crypto.Envelope (Cipher Keyring)
open Calls (Exposed)
open Applying (applyEntry)
open Relation (ReflTransGen)

variable {N : Type} [JsonNumber N]

/-! ## Runs -/

/-- What can be under way in an open collection. -/
inductive Activity (N : Type) where
  | request (env : Env) (asked : Request N)
  | dropIndex (field : String)
  | applyEntry (e : Entry N)
  | compactRound (env : Env) (pass : PassEnv)
  | compactNow (env : Env) (pass : PassEnv)
  | migrateNow (env : Env) (pass : PassEnv)
  | close

def Activity.proc : Activity N → Proc N Unit
  | .request env asked => do
    let _ ← asked.proc env
    return ()
  | .dropIndex field => Collection.dropIndex field
  | .applyEntry e => Applying.applyEntry e
  | .compactRound env pass => Compactor.compactRound env pass
  | .compactNow env pass => Compactor.compactNow env pass
  | .migrateNow env pass => Compactor.migrateNow env pass
  | .close => Load.close

/-- A collection with its encryption and what is under way in it.  While it is
closed, the encryption is the one it was last open with. -/
structure Site (N : Type) where
  protection : Protection
  world : World N
  threads : List (Proc N Unit)
  opened : Bool

variable (cipher : Cipher)

/-- The encryption that the procedures see. -/
def encryptor (p : Protection) : Option (Encryptor N) :=
  p.enc.map (PolicyEncryptor.toEncryptor cipher (p.keyProvider.getD ⟨fun _ => none, ""⟩))

def Site.install (site : Site N) (p : Protection) : Site N :=
  { site with
    protection := p
    world := { site.world with col := { site.world.col with enc := encryptor cipher p } } }

/-- The write policy that is in effect. -/
def Site.policy (site : Site N) : Option EncryptionPolicy :=
  site.protection.enc.map PolicyEncryptor.writePolicy

inductive Step : Site N → Site N → Prop where
  | start {site : Site N} (activity : Activity N) (opened : site.opened = true) :
      Step site { site with threads := site.threads ++ [activity.proc] }
  | turn {site : Site N} {w : World N} {threads : List (Proc N Unit)}
      (taken : Turn (site.world, site.threads) (w, threads)) :
      Step site { site with world := w, threads }
  /-- A later step of the directory is going to fail. -/
  | fault {site : Site N} (fault : Option (Nat × Nat)) :
      Step site { site with world := { site.world with fault } }
  | setEncryptionPolicy {site : Site N} (how : Persisting) (seed : Nat)
      (policy : Option EncryptionPolicy) (opened : site.opened = true) :
      Step site (site.install cipher
        (site.protection.step cipher (.setEncryptionPolicy how seed policy)))
  | rotateKey {site : Site N} (how : Persisting) (seed : Nat) (opened : site.opened = true) :
      Step site (site.install cipher (site.protection.step cipher (.rotateKey how seed)))
  | provide {site : Site N} (keys : Keyring) (opened : site.opened = true) :
      Step site (site.install cipher (site.protection.step cipher (.provide keys)))
  | flush {site : Site N} (opened : site.opened = true) :
      Step site (site.install cipher (site.protection.step cipher .flush))
  /-- The process ends, and the next one begins to open the collection. -/
  | stop {site : Site N} (cfg : Config) (order : RenameOrder) :
      Step site ⟨site.protection, ⟨blank cfg none, site.world.disk, [], [], none⟩,
        [load order], false⟩
  /-- The directory has been read, and the encryption is set up. -/
  | reopen {site : Site N} (how : Persisting) (seed : Nat) (cfg : OpenConfig)
      (loaded : site.threads = [.done (.ok ())]) (closed : site.opened = false)
      (accepted : (initEncryption cipher how seed cfg site.protection.name
        site.protection.disk).1 = .ok ()) :
      Step site { site.install cipher (initEncryption cipher how seed cfg site.protection.name
        site.protection.disk).2 with threads := [], opened := true }
  | refuse {site : Site N} (how : Persisting) (seed : Nat) (cfg : OpenConfig)
      {error : EncryptionError} (loaded : site.threads = [.done (.ok ())])
      (closed : site.opened = false)
      (failed : (initEncryption cipher how seed cfg site.protection.name
        site.protection.disk).1 = .error error) :
      Step site { site with
        protection := { site.protection with
          disk := (initEncryption cipher how seed cfg site.protection.name
            site.protection.disk).2.disk }
        threads := [] }

/-- A collection that was never encrypted, about to be opened. -/
def unopened (name : String) (keyProvider : Option Keyring) (cfg : Config) (order : RenameOrder)
    (disk : Disk) : Site N :=
  ⟨plaintext name keyProvider, ⟨blank cfg none, disk, [], [], none⟩, [load order], false⟩

/-! ## Policies that take effect -/

def Plain (policy : Option EncryptionPolicy) (field : String) : Prop :=
  ∀ p ∈ policy, isEncryptedField p field = false

/-- No index is on an encrypted field, and none is let through. -/
abbrev Tidy (policy : Option EncryptionPolicy) : World N → Prop :=
  Within (fun enc => ∀ field, Exposed enc field → Plain policy field) (Plain policy)

/-- If a step puts another policy into effect, no field that the policy encrypts
has an index, and no call under way has come to the point of making one. -/
def Spares (site site' : Site N) : Prop :=
  site'.policy = site.policy ∨
    (∀ field, Indexed site.world field → Plain site'.policy field) ∧
      ∀ p ∈ site.threads, Guards (Tidy site'.policy) p

theorem plain_of_exposed (p : Protection) {field : String}
    (exposed : Exposed (encryptor cipher p : Option (Encryptor N)) field) :
    Plain (p.enc.map PolicyEncryptor.writePolicy) field := by
  intro policy effective
  obtain ⟨e, active, rfl⟩ := Option.mem_map.mp effective
  exact exposed _ (Option.mem_map_of_mem _ active)

theorem guards_activity (policy : Option EncryptionPolicy) (activity : Activity N) :
    Guards (Tidy policy) activity.proc := by
  have gate : ∀ enc : Option (Encryptor N), (∀ field, Exposed enc field → Plain policy field) →
      ∀ field, Exposed enc field → Plain policy field := fun _ passes => passes
  have reaped (env : Env) : Guards (Tidy policy) (reapExpired env : Proc N Unit) :=
    guards_reapExpired fun ids => (entries_within.reapLocked env ids).locked
  cases activity with
  | request env asked => exact ((sections_within gate).request env asked).bind fun _ => guards_done _
  | dropIndex field => exact guards_dropIndex field
  | applyEntry e => exact guards_applyEntry gate e
  | compactRound env pass =>
    exact (reaped env).attempt.bind fun _ => (guards_compact false pass).attempt
  | compactNow env pass => exact (reaped env).bind fun _ => guards_compact true pass
  | migrateNow env pass => exact guards_migrateNow env pass
  | close => exact guards_close

/-- No index is on a field that the policy in effect encrypts, and what is under
way leaves it so. -/
structure Hidden (site : Site N) : Prop where
  indexed : ∀ field, Indexed site.world field → Plain site.policy field
  gate : site.opened = true → ∀ field, Exposed site.world.col.enc field → Plain site.policy field
  threads : site.opened = true → ∀ p ∈ site.threads, Guards (Tidy site.policy) p
  loading : site.opened = false →
    ∀ p ∈ site.threads, Guards (Within (fun _ => True) (Plain site.policy)) p

omit [JsonNumber N] in
theorem Hidden.tidy {site : Site N} (hidden : Hidden site) (opened : site.opened = true) :
    Tidy site.policy site.world :=
  ⟨hidden.gate opened, hidden.indexed⟩

omit [JsonNumber N] in
theorem Hidden.turn {site : Site N} {w : World N} {threads : List (Proc N Unit)}
    (hidden : Hidden site) (taken : Turn (site.world, site.threads) (w, threads)) :
    Hidden { site with world := w, threads } := by
  by_cases phase : site.opened = true
  · obtain ⟨tidy, later⟩ := taken.guards (hidden.tidy phase) (hidden.threads phase)
    refine ⟨tidy.indexed, fun _ => tidy.enc, fun _ => later, fun closed => ?_⟩
    exact absurd (phase.symm.trans closed) (by simp)
  · have closed : site.opened = false := Bool.eq_false_iff.mpr phase
    obtain ⟨within, later⟩ := taken.guards ⟨trivial, hidden.indexed⟩ (hidden.loading closed)
    exact ⟨within.indexed, fun opened => absurd opened phase, fun opened => absurd opened phase,
      fun _ => later⟩

/-- A change of the encryption of an open collection. -/
theorem Hidden.install {site : Site N} {p : Protection} (hidden : Hidden site)
    (opened : site.opened = true) (spares : Spares site (site.install cipher p)) :
    Hidden (site.install cipher p) := by
  have gate : ∀ field, Exposed (site.install cipher p).world.col.enc field →
      Plain (site.install cipher p).policy field := fun _ => plain_of_exposed cipher p
  rcases spares with same | ⟨indexed, threads⟩
  · refine ⟨fun field found => ?_, fun _ => gate, fun _ => ?_, fun closed => ?_⟩
    · rw [same]
      exact hidden.indexed field found
    · rw [same]
      exact hidden.threads opened
    · exact absurd (closed.symm.trans opened) (by simp)
  · refine ⟨indexed, fun _ => gate, fun _ => threads, fun closed => ?_⟩
    exact absurd (closed.symm.trans opened) (by simp)

theorem hidden_unopened (name : String) (keyProvider : Option Keyring) (cfg : Config)
    (order : RenameOrder) (disk : Disk) :
    Hidden (unopened name keyProvider cfg order disk : Site N) where
  indexed _ _ policy absurd := nomatch absurd
  gate absurd := nomatch absurd
  threads absurd := nomatch absurd
  loading _ p member := by
    rw [List.mem_singleton.mp member]
    exact guards_load order

theorem hidden_step {site site' : Site N} (hidden : Hidden site) (step : Step cipher site site')
    (spares : Spares site site') : Hidden site' := by
  cases step with
  | start activity opened =>
    refine ⟨hidden.indexed, hidden.gate, fun _ p member => ?_, fun closed => ?_⟩
    · rcases List.mem_append.mp member with before | added
      · exact hidden.threads opened p before
      · rw [List.mem_singleton.mp added]
        exact guards_activity _ activity
    · exact absurd (closed.symm.trans opened) (by simp)
  | turn taken => exact hidden.turn taken
  | fault fault => exact ⟨hidden.indexed, hidden.gate, hidden.threads, hidden.loading⟩
  | setEncryptionPolicy how seed policy opened => exact hidden.install cipher opened spares
  | rotateKey how seed opened => exact hidden.install cipher opened spares
  | provide keys opened => exact hidden.install cipher opened spares
  | flush opened => exact hidden.install cipher opened spares
  | stop cfg order =>
    refine ⟨?_, nofun, nofun,
      fun _ p member => ?_⟩
    · rintro field (absurd | inFile)
      · cases absurd
      · exact hidden.indexed field (Or.inr inFile)
    · rw [List.mem_singleton.mp member]
      exact guards_load order
  | reopen how seed cfg loaded closed accepted =>
    refine ⟨fun field found => ?_, fun _ _ => plain_of_exposed cipher _, fun _ p member => ?_,
      nofun⟩
    · rcases spares with same | ⟨indexed, -⟩
      · rw [same]
        exact hidden.indexed field found
      · exact indexed field found
    · cases member
  | refuse how seed cfg loaded closed failed =>
    refine ⟨hidden.indexed, hidden.gate, fun _ p member => ?_, fun _ p member => ?_⟩
    · cases member
    · cases member

theorem hidden_run {site site' : Site N} (hidden : Hidden site)
    (reached : ReflTransGen
      (fun site site' => Step cipher site site' ∧ Spares site site') site site') :
    Hidden site' := by
  induction reached with
  | refl => exact hidden
  | tail _ step ih => exact hidden_step cipher ih step.1 step.2

/-! ## Encrypted fields have no index -/

/-- Whatever is done to a collection, in any order and with failures and ends of
the process at any point: as long as no policy takes effect that encrypts a
field with an index, no index is on an encrypted field, in memory or on disk. -/
theorem encrypted_never_indexed (name : String) (keyProvider : Option Keyring) (cfg : Config)
    (order : RenameOrder) (disk : Disk) {site : Site N}
    (reached : ReflTransGen
      (fun site site' => Step cipher site site' ∧ Spares site site')
      (unopened name keyProvider cfg order disk) site)
    {policy : EncryptionPolicy} (effective : site.policy = some policy) {field : String}
    (encrypted : isEncryptedField policy field = true) : ¬Indexed site.world field := by
  intro found
  have hidden := hidden_run cipher (hidden_unopened name keyProvider cfg order disk) reached
  have plain := hidden.indexed field found policy effective
  rw [encrypted] at plain
  cases plain

/-! ### Runs of one activity after another -/

/-- A site after a procedure has run with nothing in between. -/
def Site.ran (site : Site N) (p : Proc N Unit) : Site N :=
  { site with
    world := (p.run site.world).2
    threads := site.threads ++ [.done (p.run site.world).1] }

theorem run_alone (site : Site N) (p : Proc N Unit) :
    ReflTransGen (fun site site' => Step cipher site site' ∧ Spares site site')
      { site with threads := site.threads ++ [p] } (site.ran p) := by
  induction p generalizing site with
  | done result => exact .refl
  | step change rest ih =>
    refine .head ⟨.turn (Turn.take site.world site.threads [] change rest), Or.inl rfl⟩ ?_
    exact ih site.world { site with world := change site.world }

theorem run_activity (site : Site N) (opened : site.opened = true) (activity : Activity N) :
    ReflTransGen (fun site site' => Step cipher site site' ∧ Spares site site')
      site (site.ran activity.proc) :=
  .head ⟨.start activity opened, Or.inl rfl⟩ (run_alone cipher site activity.proc)

section Examples

open Crypto.Envelope (tagging)
open Engine.Sequential (stillEnv smallConfig)

/-- A new collection with a key before and after it is opened. -/
def starting : Site Int :=
  ⟨plaintext "users" (some oneKey), ⟨blank smallConfig none, .empty, [], [], none⟩, [], false⟩

def opened : Site Int :=
  { (starting.ran (load .asWritten)).install tagging (plaintext "users" (some oneKey)) with
    threads := []
    opened := true }

theorem reaches_opened :
    ReflTransGen (fun site site' => Step tagging site site' ∧ Spares site site')
      (unopened "users" (some oneKey) smallConfig .asWritten .empty) opened := by
  have loaded : ((load .asWritten : Proc Int Unit).run starting.world).1 = .ok () := by
    decide +kernel
  have threads : (starting.ran (load .asWritten)).threads = [.done (.ok ())] := by
    rw [Site.ran, loaded]
    rfl
  have step := @Step.reopen Int _ tagging (starting.ran (load .asWritten)) .done 1
    ⟨some oneKey, none, none⟩ threads rfl rfl
  exact .tail (run_alone tagging starting (load .asWritten)) ⟨step, Or.inl rfl⟩

def ssnPolicy : EncryptionPolicy :=
  ⟨.fields, ["ssn"], []⟩

def insertSsn : Activity Int :=
  .request stillEnv (.call (.insert (some (Data.empty.set "ssn" "123-45")) none))

/-- The site after encryption has been enabled for the field `ssn`. -/
def Site.enabled (site : Site Int) : Site Int :=
  site.install tagging
    (site.protection.step tagging (.setEncryptionPolicy .done 1 (some ssnPolicy)))

def ensure (field : String) : Activity Int :=
  .request stillEnv (.call (.ensureIndex field false))

/-- Indexes are asked for on the field and on another, and a record is inserted. -/
def tried : Site Int :=
  ((opened.enabled.ran (ensure "ssn").proc).ran (ensure "name").proc).ran insertSsn.proc

set_option maxRecDepth 4000 in
/-- The field is encrypted from the start; the other one is given its index. -/
theorem encrypted_never_indexed_ssn : ¬Indexed tried.world "ssn" ∧ Indexed tried.world "name" := by
  have nothing : ∀ field, ¬Indexed opened.world field := by
    have memory : opened.world.col.sidx = [] := by decide +kernel
    have files : opened.world.disk.sidx = ∅ := by decide +kernel
    rintro field (inMemory | inFile)
    · rw [memory] at inMemory
      cases inMemory
    · rw [files] at inFile
      exact Finmap.notMem_empty inFile
  have spares : Spares opened opened.enabled :=
    Or.inr ⟨fun field found => absurd found (nothing field), nofun⟩
  have effective : tried.policy = some ssnPolicy := by decide +kernel
  have encrypted : isEncryptedField ssnPolicy "ssn" = true := by decide
  have other : tried.world.col.sidx.map Sidx.field = ["name"] := by decide +kernel
  refine ⟨encrypted_never_indexed tagging "users" (some oneKey) smallConfig .asWritten .empty
    ((((reaches_opened.tail ⟨.setEncryptionPolicy .done 1 (some ssnPolicy) rfl, spares⟩).trans
      (run_activity tagging opened.enabled rfl (ensure "ssn"))).trans
        (run_activity tagging _ rfl (ensure "name"))).trans
          (run_activity tagging _ rfl insertSsn)) effective encrypted, Or.inl ?_⟩
  rw [other]
  exact .head _

/-- A record has been inserted and its field given an index. -/
def indexed : Site Int :=
  (opened.ran insertSsn.proc).ran (ensure "ssn").proc

/-- The index on the field. -/
def ssnIndex : Sidx :=
  indexed.world.col.sidx.headD (newSecondaryIndex "" false)

theorem world_enabled (site : Site Int) :
    site.enabled.world.col.sidx = site.world.col.sidx ∧
      site.enabled.world.disk = site.world.disk :=
  ⟨rfl, rfl⟩

/-- A record is inserted, its field `ssn` is given an index, and then encryption
is enabled for the field.  The index in memory and its file go on holding the
value of the record. -/
theorem index_survives_policy :
    ReflTransGen (Step tagging)
        (unopened "users" (some oneKey) smallConfig .asWritten .empty) indexed.enabled ∧
      indexed.enabled.policy = some ssnPolicy ∧ isEncryptedField ssnPolicy "ssn" = true ∧
      indexed.enabled.world.col.sidx = [ssnIndex] ∧
      indexed.enabled.world.disk.sidx.lookup "ssn" = some ssnIndex.persist ∧
      ssnIndex.field = "ssn" ∧ ssnIndex.bucket "123-45" = {1} := by
  have reached : ReflTransGen (Step tagging)
      (unopened "users" (some oneKey) smallConfig .asWritten .empty) indexed :=
    ((reaches_opened.trans (run_activity tagging opened rfl insertSsn)).trans
      (run_activity tagging _ rfl (ensure "ssn"))).lift id fun _ _ step => step.1
  have held : indexed.world.col.sidx = [ssnIndex] ∧
      indexed.world.disk.sidx.lookup "ssn" = some ssnIndex.persist ∧
      ssnIndex.field = "ssn" ∧ ssnIndex.bucket "123-45" = {1} := by
    decide +kernel
  have effective : indexed.enabled.policy = some ssnPolicy := by decide +kernel
  rw [(world_enabled indexed).1, (world_enabled indexed).2]
  exact ⟨reached.tail (.setEncryptionPolicy .done 1 (some ssnPolicy) rfl), effective, by decide,
    held⟩

end Examples

end Scriva.Engine.HiddenIndexes
