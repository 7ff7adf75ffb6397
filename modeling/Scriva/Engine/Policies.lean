import Scriva.Engine.Encryption

/-!
# Changing policies

The encryption of an open collection is its key provider, its current policy
and the block of its metadata; the block is also in the metadata on disk, from
where the next opening takes it.  A change of policy or of the key writes the
block first and puts the new policy in place when that has succeeded.

The mode of reading is fixed by the first policy.  So whatever is accepted
under one policy is read back under it and under every later one, with one
exception: a plain record of record mode.
-/

namespace Scriva.Engine.Policies

open Lib.Text Lib.Fallible Store.Record Encryption
open Crypto.Envelope (Cipher Keyring makeKeyCheck verifyKeyCheck tagging)

/-! ## Metadata -/

structure KDFParams where
  memory : Nat
  iterations : Nat
  parallelism : Nat
  keyLen : Nat
  saltLen : Nat
deriving DecidableEq, Repr

structure EncryptionKDF where
  algo : String
  salt : Bytes
  params : KDFParams
deriving DecidableEq, Repr

structure EncryptionMeta where
  policy : EncryptionPolicy
  readMode : EncryptionMode
  epoch : Nat
  kdf : Option EncryptionKDF
  keyCheck : String
  currentKeyID : String
deriving DecidableEq, Repr

/-- Blocks of an earlier version have no mode of reading; it is then the mode
of their policy. -/
def EncryptionMeta.effectiveReadMode (m : EncryptionMeta) : EncryptionMode :=
  if m.readMode ≠ .off then m.readMode else m.policy.mode

/-- How writing the metadata ends: it is done, nothing is written, or it is
written but the directory could not be synced and the call fails. -/
inductive Persisting where
  | done
  | refused
  | unsynced
deriving DecidableEq, Repr

/-- The encryption of a collection, and the block on disk. -/
structure Protection where
  name : String
  keyProvider : Option Keyring
  enc : Option PolicyEncryptor
  encMeta : Option EncryptionMeta
  disk : Option EncryptionMeta

/-- The part of the configuration that opening a collection reads. -/
structure OpenConfig where
  keyProvider : Option Keyring
  encryption : Option EncryptionPolicy
  encryptionKDF : Option EncryptionKDF

/-! ## Calls -/

variable (cipher : Cipher)

/-- A key check made with the current key, and the id of that key. -/
def freshKeyCheck (keys : Keyring) (seed : Nat) : Except EncryptionError (String × String) :=
  match keys.current with
  | .error reason => .error (.noKey reason)
  | .ok (keyID, key) =>
    match makeKeyCheck cipher key keyID seed with
    | .error reason => .error (.keyCheck reason)
    | .ok check => .ok (check, keyID)

def initEncryption (how : Persisting) (seed : Nat) (cfg : OpenConfig) (name : String)
    (disk : Option EncryptionMeta) : Except EncryptionError Unit × Protection :=
  let opened : Protection := ⟨name, cfg.keyProvider, none, none, disk⟩
  match disk, cfg.encryption with
  | some m, _ =>
    match cfg.keyProvider with
    | none => (.error .noKeyProvider, opened)
    | some keys =>
      match keys.current with
      | .error reason => (.error (.noKey reason), opened)
      | .ok (_, key) =>
        match verifyKeyCheck cipher key m.keyCheck with
        | .error reason => (.error (.keyCheck reason), opened)
        | .ok () =>
          (.ok (), { opened with
            encMeta := some m
            enc := some ⟨name, m.effectiveReadMode, m.policy, m.epoch⟩ })
  | none, some policy =>
    match policy.validate with
    | .error reason => (.error (.policy reason), opened)
    | .ok () =>
      match cfg.keyProvider with
      | none => (.error .noKeyProvider, opened)
      | some keys =>
        match freshKeyCheck cipher keys seed with
        | .error error => (.error error, opened)
        | .ok (check, keyID) =>
          let m : EncryptionMeta :=
            ⟨policy, policy.mode, 1, cfg.encryptionKDF, check, keyID⟩
          let enabled : Protection := { opened with
            encMeta := some m
            enc := some ⟨name, policy.mode, policy, 1⟩ }
          match how with
          | .done => (.ok (), { enabled with disk := some m })
          | .refused => (.error .persist, enabled)
          | .unsynced => (.error .persist, { enabled with disk := some m })
  | none, none => (.ok (), opened)

/-- The next block: the derivation of the key is kept, and so is the key check
unless there is a new one. -/
def nextMeta (prev : Option EncryptionMeta) (readMode : EncryptionMode)
    (writePolicy : EncryptionPolicy) (newEpoch : Nat) (keyOverride : Option (String × String)) :
    EncryptionMeta where
  policy := writePolicy
  readMode := readMode
  epoch := newEpoch
  kdf := prev.bind EncryptionMeta.kdf
  keyCheck := (keyOverride.map Prod.fst).getD ((prev.map EncryptionMeta.keyCheck).getD "")
  currentKeyID := (keyOverride.map Prod.snd).getD ((prev.map EncryptionMeta.currentKeyID).getD "")

/-- The epoch of the policy that comes after the current one. -/
def nextEpoch (epoch : Option Nat) : Nat :=
  match epoch with
  | none => 1
  | some e => e + 1

def applyEncryptionChange (how : Persisting) (p : Protection) (readMode : EncryptionMode)
    (writePolicy : EncryptionPolicy) (newEpoch : Nat) (keyOverride : Option (String × String)) :
    Except EncryptionError Unit × Protection :=
  let m := nextMeta p.encMeta readMode writePolicy newEpoch keyOverride
  match how with
  | .done => (.ok (), { p with
      encMeta := some m
      enc := some ⟨p.name, readMode, writePolicy, newEpoch⟩
      disk := some m })
  | .refused => (.error .persist, p)
  | .unsynced => (.error .persist, { p with disk := some m })

def setEncryptionPolicy (how : Persisting) (seed : Nat) (p : Protection)
    (policy : Option EncryptionPolicy) : Except EncryptionError Unit × Protection :=
  match policy with
  | none =>
    match p.enc with
    | none => (.ok (), p)
    | some cur =>
      if !cur.enabled then (.ok (), p)
      else applyEncryptionChange how p cur.readMode .disabled (cur.epoch + 1) none
  | some policy =>
    match policy.validate with
    | .error reason => (.error (.policy reason), p)
    | .ok () =>
      match p.enc with
      | some cur =>
        if policy.mode ≠ cur.readMode then
          (.error (.modeSwitch cur.readMode policy.mode), p)
        else applyEncryptionChange how p cur.readMode policy (cur.epoch + 1) none
      | none =>
        match p.keyProvider with
        | none => (.error .noKeyProvider, p)
        | some keys =>
          match freshKeyCheck cipher keys seed with
          | .error error => (.error error, p)
          | .ok fresh => applyEncryptionChange how p policy.mode policy 1 (some fresh)

def rotateKey (how : Persisting) (seed : Nat) (p : Protection) :
    Except EncryptionError Unit × Protection :=
  match p.enc, p.keyProvider with
  | some cur, some keys =>
    match freshKeyCheck cipher keys seed with
    | .error error => (.error error, p)
    | .ok fresh =>
      applyEncryptionChange how p cur.readMode cur.writePolicy (cur.epoch + 1) (some fresh)
  | _, _ => (.error .notEncrypted, p)

/-! ## Runs -/

/-- Other calls write the metadata again, with the block as it is in memory. -/
def Protection.flush (p : Protection) : Protection :=
  { p with disk := p.encMeta }

/-- A call on the collection, a change of the keys of its provider, a call that
writes the metadata, or an end of the process and the next opening. -/
inductive AdminStep where
  | setEncryptionPolicy (how : Persisting) (seed : Nat) (policy : Option EncryptionPolicy)
  | rotateKey (how : Persisting) (seed : Nat)
  | provide (keys : Keyring)
  | flush
  | reopen (how : Persisting) (seed : Nat) (cfg : OpenConfig)

/-- An opening that fails leaves what is on disk for the next one. -/
def Protection.step (p : Protection) : AdminStep → Protection
  | .setEncryptionPolicy how seed policy => (setEncryptionPolicy cipher how seed p policy).2
  | .rotateKey how seed => (rotateKey cipher how seed p).2
  | .provide keys => { p with keyProvider := p.keyProvider.map fun _ => keys }
  | .flush => p.flush
  | .reopen how seed cfg =>
    match initEncryption cipher how seed cfg p.name p.disk with
    | (.ok (), opened) => opened
    | (.error _, failed) => { p with disk := failed.disk }

def Protection.run (p : Protection) (steps : List AdminStep) : Protection :=
  steps.foldl (Protection.step cipher) p

/-- A collection that was never encrypted. -/
def plaintext (name : String) (keyProvider : Option Keyring) : Protection :=
  ⟨name, keyProvider, none, none, none⟩

/-! ## What a step does -/

/-- A block as the calls write it. -/
structure MetaFit (m : EncryptionMeta) : Prop where
  reads : m.readMode = .fields ∨ m.readMode = .record
  writes : m.policy = .disabled ∨ m.policy.validate = .ok () ∧ m.policy.mode = m.readMode

/-- The encryption that a block describes. -/
def EncryptionMeta.encryptor (m : EncryptionMeta) (name : String) : PolicyEncryptor :=
  ⟨name, m.effectiveReadMode, m.policy, m.epoch⟩

variable {m : EncryptionMeta} {p : Protection}

theorem MetaFit.effectiveReadMode_eq (fit : MetaFit m) : m.effectiveReadMode = m.readMode := by
  rw [EncryptionMeta.effectiveReadMode, if_pos]
  rcases fit.reads with mode | mode
  · rw [mode]
    decide
  · rw [mode]
    decide

theorem MetaFit.fit (fit : MetaFit m) (name : String) : Fit (m.encryptor name) := by
  constructor
  · change m.effectiveReadMode = _ ∨ m.effectiveReadMode = _
    rw [fit.effectiveReadMode_eq]
    exact fit.reads
  · change m.policy = _ ∨ m.policy.validate = _ ∧ m.policy.mode = m.effectiveReadMode
    rw [fit.effectiveReadMode_eq]
    exact fit.writes

/-- The policy fits the blocks in memory and on disk, which read in the same
mode. -/
structure Settled (p : Protection) : Prop where
  cached : ∀ m ∈ p.encMeta, MetaFit m
  blocks : ∀ m ∈ p.disk, MetaFit m
  fit : ∀ e ∈ p.enc, Fit e
  named : ∀ e ∈ p.enc, e.collection = p.name
  modeCached : ∀ e ∈ p.enc, ∃ m ∈ p.encMeta, m.readMode = e.readMode
  mode : ∀ e ∈ p.enc, ∃ m ∈ p.disk, m.readMode = e.readMode
  bare : p.enc = none → p.encMeta = none

/-- A step leaves policy and blocks, writes the block in memory to disk, or
writes a block of the same mode and may put its policy in place. -/
inductive Changes (p p' : Protection) : Prop where
  | kept (name : p'.name = p.name) (enc : p'.enc = p.enc) (encMeta : p'.encMeta = p.encMeta)
      (disk : p'.disk = p.disk ∨ p'.disk = p.encMeta)
  | written (name : p'.name = p.name) (m : EncryptionMeta) (fit : MetaFit m)
      (disk : p'.disk = some m) (enc : p'.enc = p.enc) (encMeta : p'.encMeta = p.encMeta)
      (mode : ∀ cur ∈ p.enc, m.readMode = cur.readMode)
  | installed (name : p'.name = p.name) (m : EncryptionMeta) (fit : MetaFit m)
      (disk : p'.disk = some m) (enc : p'.enc = some (m.encryptor p.name))
      (encMeta : p'.encMeta = some m) (mode : ∀ cur ∈ p.enc, m.readMode = cur.readMode)

/-- An open collection with the block that is on disk. -/
def installed (name : String) (keyProvider : Option Keyring) (block : Option EncryptionMeta) :
    Protection :=
  ⟨name, keyProvider, block.map (EncryptionMeta.encryptor · name), block, block⟩

theorem settled_installed {name : String} {keyProvider : Option Keyring}
    {block : Option EncryptionMeta} (fit : ∀ m ∈ block, MetaFit m) :
    Settled (installed name keyProvider block) := by
  rcases block with - | m
  · exact ⟨nofun, nofun, nofun, nofun, nofun, nofun, fun _ => rfl⟩
  · have mode := (fit m rfl).effectiveReadMode_eq.symm
    refine ⟨fit, fit, ?_, ?_, ?_, ?_, nofun⟩
    · rintro _ ⟨⟩
      exact (fit m rfl).fit name
    · rintro _ ⟨⟩
      rfl
    · rintro _ ⟨⟩
      exact ⟨m, rfl, mode⟩
    · rintro _ ⟨⟩
      exact ⟨m, rfl, mode⟩

/-- A call leaves the collection as it is, or it writes the block of a policy that
fits and may put it in place.  The derivation of the key is kept, and so is the
key check unless one is made with the current key. -/
inductive Called (p p' : Protection) : Prop where
  | unchanged (same : p' = p)
  | changed (m : EncryptionMeta) (fit : MetaFit m)
      (mode : ∀ cur ∈ p.enc, m.readMode = cur.readMode)
      (kdf : m.kdf = p.encMeta.bind EncryptionMeta.kdf)
      (minted : (∃ prev ∈ p.encMeta, m.keyCheck = prev.keyCheck ∧
          m.currentKeyID = prev.currentKeyID) ∨
        ∃ keys ∈ p.keyProvider, ∃ seed,
          freshKeyCheck cipher keys seed = .ok (m.keyCheck, m.currentKeyID))
      (result : p' = installed p.name p.keyProvider (some m) ∨ p' = { p with disk := some m })

theorem called_applyEncryptionChange (settled : Settled p) {readMode : EncryptionMode}
    {writePolicy : EncryptionPolicy} {keyOverride : Option (String × String)}
    (reads : readMode = .fields ∨ readMode = .record)
    (writes : writePolicy = .disabled ∨
      writePolicy.validate = .ok () ∧ writePolicy.mode = readMode)
    (mode : ∀ cur ∈ p.enc, readMode = cur.readMode)
    (minted : keyOverride = none ∧ p.enc ≠ none ∨
      ∃ keys ∈ p.keyProvider, ∃ seed fresh, freshKeyCheck cipher keys seed = .ok fresh ∧
        keyOverride = some fresh) (how : Persisting) (newEpoch : Nat) :
    Called cipher p (applyEncryptionChange how p readMode writePolicy newEpoch keyOverride).2 := by
  let m := nextMeta p.encMeta readMode writePolicy newEpoch keyOverride
  have fit : MetaFit m := ⟨reads, writes⟩
  have changed : ∀ p', p' = installed p.name p.keyProvider (some m) ∨ p' = { p with disk := some m } →
      Called cipher p p' := by
    refine fun p' => .changed m fit mode rfl ?_
    rcases minted with ⟨rfl, encrypted⟩ | ⟨keys, given, seed, fresh, made, rfl⟩
    · obtain ⟨e, now⟩ := Option.ne_none_iff_exists'.mp encrypted
      obtain ⟨prev, cached, -⟩ := settled.modeCached e now
      refine Or.inl ⟨prev, cached, ?_⟩
      dsimp only [m]
      rw [Option.mem_def.mp cached]
      exact ⟨rfl, rfl⟩
    · exact Or.inr ⟨keys, given, seed, made⟩
  cases how with
  | done =>
    refine changed _ (Or.inl ?_)
    rw [installed, Option.map_some, EncryptionMeta.encryptor, fit.effectiveReadMode_eq]
    rfl
  | refused => exact .unchanged rfl
  | unsynced => exact changed _ (Or.inr rfl)

theorem called_setEncryptionPolicy (settled : Settled p) (how : Persisting) (seed : Nat)
    (policy : Option EncryptionPolicy) :
    Called cipher p (setEncryptionPolicy cipher how seed p policy).2 := by
  have onlyOne : ∀ {cur : PolicyEncryptor}, p.enc = some cur →
      (∀ other ∈ p.enc, cur.readMode = other.readMode) ∧ p.enc ≠ none := by
    intro cur now
    rw [now]
    exact ⟨by rintro _ ⟨⟩; rfl, Option.some_ne_none cur⟩
  rw [setEncryptionPolicy.eq_def]
  rcases policy with - | policy
  · rcases now : p.enc with - | cur
    · exact .unchanged rfl
    · dsimp only
      split_ifs
      · exact .unchanged rfl
      · exact called_applyEncryptionChange cipher settled (settled.fit cur now).reads (Or.inl rfl)
          (onlyOne now).1 (Or.inl ⟨rfl, (onlyOne now).2⟩) how _
  · dsimp only
    rcases valid : policy.validate with reason | ⟨⟩
    · exact .unchanged rfl
    · rcases now : p.enc with - | cur
      · rcases given : p.keyProvider with - | keys
        · exact .unchanged rfl
        · dsimp only
          rcases made : freshKeyCheck cipher keys seed with error | fresh
          · exact .unchanged rfl
          · refine called_applyEncryptionChange cipher settled
              (EncryptionPolicy.validate_eq_ok valid).1 (Or.inr ⟨valid, rfl⟩) ?_
              (Or.inr ⟨keys, given, seed, fresh, made, rfl⟩) how _
            rw [now]
            exact nofun
      · dsimp only
        split_ifs with same
        · exact .unchanged rfl
        · exact called_applyEncryptionChange cipher settled (settled.fit cur now).reads
            (Or.inr ⟨valid, not_not.mp same⟩) (onlyOne now).1 (Or.inl ⟨rfl, (onlyOne now).2⟩) how _

theorem called_rotateKey (settled : Settled p) (how : Persisting) (seed : Nat) :
    Called cipher p (rotateKey cipher how seed p).2 := by
  rw [rotateKey.eq_def]
  split
  · rename_i cur keys now given
    rcases made : freshKeyCheck cipher keys seed with error | fresh
    · exact .unchanged rfl
    · have fit := settled.fit cur now
      refine called_applyEncryptionChange cipher settled fit.reads fit.writes ?_
        (Or.inr ⟨keys, given, seed, fresh, made, rfl⟩) how _
      rw [now]
      rintro _ ⟨⟩
      rfl
  · exact .unchanged rfl

variable {cipher}

variable {p' : Protection}

theorem Called.changes (called : Called cipher p p') : Changes p p' := by
  cases called with
  | unchanged same =>
    rw [same]
    exact .kept rfl rfl rfl (Or.inl rfl)
  | changed m fit mode kdf minted result =>
    rcases result with rfl | rfl
    · exact .installed rfl m fit rfl rfl rfl mode
    · exact .written rfl m fit rfl rfl rfl mode

variable (cipher)

/-- A block with which an opening enables the policy it is asked for. -/
structure Enables (seed : Nat) (cfg : OpenConfig) (m : EncryptionMeta) : Prop where
  asked : cfg.encryption = some m.policy
  valid : m.policy.validate = .ok ()
  mode : m.readMode = m.policy.mode
  epoch : m.epoch = 1
  kdf : m.kdf = cfg.encryptionKDF
  checked : ∃ keys ∈ cfg.keyProvider,
    freshKeyCheck cipher keys seed = .ok (m.keyCheck, m.currentKeyID)

variable {cipher}

variable {seed : Nat} {cfg : OpenConfig}

theorem Enables.fit (enables : Enables cipher seed cfg m) : MetaFit m := by
  constructor
  · rw [enables.mode]
    exact (EncryptionPolicy.validate_eq_ok enables.valid).1
  · exact Or.inr ⟨enables.valid, enables.mode.symm⟩

variable (cipher)

/-- How an opening can end: with the block on disk, whose check the current key
passes, with the block of the policy that is asked for, or with none; a failed
one may have written the block of the policy. -/
inductive Opening (seed : Nat) (cfg : OpenConfig) (name : String) :
    Option EncryptionMeta → Except EncryptionError Unit × Protection → Prop where
  | block {m : EncryptionMeta} {keys : Keyring} {keyID : String}
      {key : Crypto.Envelope.Key} (given : cfg.keyProvider = some keys) (current : keys.current = .ok (keyID, key))
      (verified : verifyKeyCheck cipher key m.keyCheck = .ok ()) :
      Opening seed cfg name (some m) (.ok (), installed name cfg.keyProvider (some m))
  | enabled {m : EncryptionMeta} (enables : Enables cipher seed cfg m) :
      Opening seed cfg name none (.ok (), installed name cfg.keyProvider (some m))
  | bare (nothing : cfg.encryption = none) :
      Opening seed cfg name none (.ok (), installed name cfg.keyProvider none)
  | failed {disk : Option EncryptionMeta} {error : EncryptionError} {p : Protection}
      (same : p.disk = disk) : Opening seed cfg name disk (.error error, p)
  | unsynced {error : EncryptionError} {p : Protection} {m : EncryptionMeta}
      (enables : Enables cipher seed cfg m) (written : p.disk = some m) :
      Opening seed cfg name none (.error error, p)

theorem opening_initEncryption (how : Persisting) (seed : Nat) (cfg : OpenConfig) (name : String)
    (disk : Option EncryptionMeta) :
    Opening cipher seed cfg name disk (initEncryption cipher how seed cfg name disk) := by
  rw [initEncryption.eq_def]
  rcases disk with - | m
  · rcases asked : cfg.encryption with - | policy
    · exact .bare asked
    · dsimp only
      rcases valid : policy.validate with reason | ⟨⟩
      · exact .failed rfl
      rcases given : cfg.keyProvider with - | keys
      · exact .failed rfl
      dsimp only
      rcases fresh : freshKeyCheck cipher keys seed with error | ⟨check, keyID⟩
      · exact .failed rfl
      have enables : Enables cipher seed cfg
          ⟨policy, policy.mode, 1, cfg.encryptionKDF, check, keyID⟩ :=
        ⟨asked, valid, rfl, rfl, rfl, keys, given, fresh⟩
      cases how with
      | done =>
        have opens : Opening cipher seed cfg name none _ := .enabled enables
        rw [installed, Option.map_some, EncryptionMeta.encryptor,
          enables.fit.effectiveReadMode_eq, given] at opens
        exact opens
      | refused => exact .failed rfl
      | unsynced => exact .unsynced enables rfl
  · rcases given : cfg.keyProvider with - | keys
    · exact .failed rfl
    dsimp only
    rcases current : keys.current with reason | ⟨keyID, key⟩
    · exact .failed rfl
    dsimp only
    rcases verified : verifyKeyCheck cipher key m.keyCheck with reason | ⟨⟩
    · exact .failed rfl
    · have opens : Opening cipher seed cfg name (some m) _ := .block given current verified
      rw [given] at opens
      exact opens

variable {how : Persisting} {name : String}

/-- A collection with a block opens when the current key passes its check. -/
theorem initEncryption_block_iff {keys : Keyring} (given : cfg.keyProvider = some keys) :
    (∃ opened, initEncryption cipher how seed cfg name (some m) = (.ok (), opened)) ↔
      ∃ keyID key, keys.current = .ok (keyID, key) ∧
        verifyKeyCheck cipher key m.keyCheck = .ok () := by
  constructor
  · rintro ⟨opened, success⟩
    have opening := opening_initEncryption cipher how seed cfg name (some m)
    rw [success] at opening
    cases opening with
    | block given' current verified =>
      cases given'.symm.trans given
      exact ⟨_, _, current, verified⟩
  · rintro ⟨keyID, key, current, verified⟩
    rw [initEncryption, given]
    dsimp only
    rw [current]
    dsimp only
    rw [verified]
    exact ⟨_, rfl⟩

theorem Settled.enc_eq_none (settled : Settled p) (nothing : p.disk = none) : p.enc = none := by
  by_contra present
  obtain ⟨e, now⟩ := Option.ne_none_iff_exists'.mp present
  obtain ⟨m, there, -⟩ := settled.mode e now
  rw [nothing] at there
  cases there

theorem changes_reopen (settled : Settled p) (how : Persisting) (seed : Nat) (cfg : OpenConfig) :
    Changes p (p.step cipher (.reopen how seed cfg)) := by
  have noMode : p.disk = none → ∀ m : EncryptionMeta, ∀ cur ∈ p.enc,
      m.readMode = cur.readMode := by
    intro nothing m cur present
    rw [settled.enc_eq_none nothing] at present
    cases present
  have opening := opening_initEncryption cipher how seed cfg p.name p.disk
  rw [Protection.step]
  generalize initEncryption cipher how seed cfg p.name p.disk = outcome at opening ⊢
  generalize there : p.disk = disk at opening
  cases opening with
  | @block m keys keyID key given current verified =>
    refine .installed rfl m (settled.blocks m there) rfl rfl rfl fun cur present => ?_
    obtain ⟨m', there', mode⟩ := settled.mode cur present
    cases there'.symm.trans there
    exact mode
  | enabled enables => exact .installed rfl _ enables.fit rfl rfl rfl (noMode there _)
  | bare =>
    have bare := settled.enc_eq_none there
    exact .kept rfl bare.symm (settled.bare bare).symm (Or.inl there.symm)
  | failed same => exact .kept rfl rfl rfl (Or.inl (same.trans there.symm))
  | unsynced enables written =>
    exact .written rfl _ enables.fit written rfl rfl (noMode there _)

theorem changes_step (settled : Settled p) (s : AdminStep) : Changes p (p.step cipher s) := by
  cases s with
  | setEncryptionPolicy how seed policy =>
    exact (called_setEncryptionPolicy cipher settled how seed policy).changes
  | rotateKey how seed => exact (called_rotateKey cipher settled how seed).changes
  | provide keys => exact .kept rfl rfl rfl (Or.inl rfl)
  | flush => exact .kept rfl rfl rfl (Or.inr rfl)
  | reopen how seed cfg => exact changes_reopen cipher settled how seed cfg

variable {cipher}

theorem Settled.changes (settled : Settled p) (changes : Changes p p') : Settled p' := by
  obtain ⟨name', keys', enc', encMeta', disk'⟩ := p'
  cases changes with
  | kept name enc encMeta disk =>
    cases name
    cases enc
    cases encMeta
    rcases disk with disk | disk
    · cases disk
      exact { settled with }
    · cases disk
      exact { settled with blocks := settled.cached, mode := settled.modeCached }
  | written name m fit disk enc encMeta mode =>
    cases name
    cases disk
    cases enc
    cases encMeta
    refine { settled with blocks := ?_, mode := fun e now => ⟨m, rfl, mode e now⟩ }
    rintro _ ⟨⟩
    exact fit
  | installed name m fit disk enc encMeta mode =>
    cases name
    cases disk
    cases enc
    cases encMeta
    have fits : ∀ m' ∈ some m, MetaFit m' := by
      rintro _ ⟨⟩
      exact fit
    exact settled_installed fits

variable {e : PolicyEncryptor}

/-- Once there is a policy there is one of the same mode and the same
collection. -/
theorem Changes.mode_kept (changes : Changes p p') (settled : Settled p) (now : p.enc = some e) :
    ∃ e', p'.enc = some e' ∧ e'.readMode = e.readMode ∧ e'.collection = e.collection := by
  cases changes with
  | kept name enc encMeta disk => exact ⟨e, enc.trans now, rfl, rfl⟩
  | written name m fit disk enc encMeta mode => exact ⟨e, enc.trans now, rfl, rfl⟩
  | installed name m fit disk enc encMeta mode =>
    refine ⟨m.encryptor p.name, enc, ?_, (settled.named e now).symm⟩
    exact fit.effectiveReadMode_eq.trans (mode e now)

theorem settled_plaintext (name : String) (keyProvider : Option Keyring) :
    Settled (plaintext name keyProvider) := by
  have bare : Settled (installed name keyProvider none) := settled_installed nofun
  exact bare

variable (cipher)

theorem settled_run (settled : Settled p) (steps : List AdminStep) :
    Settled (p.run cipher steps) := by
  induction steps generalizing p with
  | nil => exact settled
  | cons s steps ih => exact ih (settled.changes (changes_step cipher settled s))

theorem mode_run (settled : Settled p) (now : p.enc = some e) (steps : List AdminStep) :
    ∃ e', (p.run cipher steps).enc = some e' ∧ e'.readMode = e.readMode ∧
      e'.collection = e.collection := by
  induction steps generalizing p e with
  | nil => exact ⟨e, now, rfl, rfl⟩
  | cons s steps ih =>
    have changes := changes_step cipher settled s
    obtain ⟨e₁, next, mode, collection⟩ := changes.mode_kept settled now
    obtain ⟨e', last, mode', collection'⟩ := ih (settled.changes changes) next
    exact ⟨e', last, mode'.trans mode, collection'.trans collection⟩

/-! ## Reading back -/

section ReadBack

variable {N : Type} [JsonNumber N]

/-- Whatever calls have led to a policy and whatever calls follow, a record
whose write the policy accepted is read back as it was written, whole and in
every projection, exactly when it is not a plain record of record mode with a
field of the name of the blob. -/
theorem accepted_reads_back_iff (cipher : Cipher) (name : String)
    (keyProvider : Option Keyring) (before after : List AdminStep) (keys later : Keyring)
    (e e' : PolicyEncryptor)
    (written : ((plaintext name keyProvider).run cipher before).enc = some e)
    (read : (((plaintext name keyProvider).run cipher before).run cipher after).enc = some e')
    (within : keys.Within later) (seed : Nat) (data : Option (Data N)) (stored : Data N)
    (accepted : encrypt cipher keys e seed (data.getD Data.empty) = .ok stored) :
    (∀ fields, materialize cipher later e' stored fields =
        .ok (projectData (data.getD Data.empty) fields)) ↔
      ¬(e.readMode = .record ∧ e.writePolicy.mode = .off ∧
        (data.getD Data.empty).get secureDataField ≠ none) := by
  have settled := settled_run cipher (settled_plaintext name keyProvider) before
  obtain ⟨e₁, last, mode, collection⟩ := mode_run cipher settled written after
  obtain rfl := Option.some.inj (last.symm.trans read)
  have disabled : e.enabled = false ↔ e.writePolicy.mode = .off := by
    simp [PolicyEncryptor.enabled]
  rw [← disabled]
  change _ ↔ ¬Lossy e (data.getD Data.empty)
  constructor
  · rintro all lossy
    have whole := all []
    rw [materialize_lossy lossy accepted (mode.trans lossy.1)] at whole
    have same : (data.getD Data.empty).filter (· ≠ secureDataField) = data.getD Data.empty :=
      Except.ok.inj whole
    apply lossy.2.2
    rw [← same, Data.get_filter]
    exact if_neg (by simp)
  · intro kept fields
    have holds := (encrypt_holds (settled.fit e written) accepted kept).mono within
    rw [← mode, ← collection] at holds
    exact materialize_holds holds fields

/-- A keyring with one key. -/
def oneKey : Keyring :=
  ⟨fun keyID => if keyID = "k1" then some (List.replicate 32 1) else none, "k1"⟩

def recordPolicy : EncryptionPolicy :=
  ⟨.record, [], []⟩

/-- Whole records are sealed. -/
def sealing : Directory.Encryptor Int :=
  (⟨"users", .record, recordPolicy, 1⟩ : PolicyEncryptor).toEncryptor tagging oneKey

/-- A record sealed whole is read back after encryption has been disabled. -/
theorem accepted_reads_back_sealed :
    ∃ stored, encrypt tagging oneKey ⟨"users", .record, recordPolicy, 1⟩ 7
        ((some ((Data.empty : Data Int).set "name" "ada")).getD Data.empty) = .ok stored ∧
      ∀ fields, materialize tagging oneKey
          ⟨"users", .record, .disabled, 2⟩ stored fields =
        .ok (projectData ((some ((Data.empty : Data Int).set "name" "ada")).getD Data.empty)
          fields) := by
  refine ⟨_, rfl, ?_⟩
  refine (accepted_reads_back_iff tagging "users" (some oneKey)
    [.setEncryptionPolicy .done 1 (some recordPolicy)] [.setEncryptionPolicy .done 2 none]
    oneKey oneKey ⟨"users", .record, recordPolicy, 1⟩ ⟨"users", .record, .disabled, 2⟩ ?_ ?_
    (Crypto.Envelope.Keyring.Within.refl oneKey) 7 _ _ rfl).mpr ?_
  · decide +kernel
  · decide +kernel
  · decide +kernel

/-- Encryption is enabled for whole records and then disabled.  A record with
the field `secure_data` is accepted and stored as it is, and it is read back
without the field. -/
theorem disabled_drops_field :
    ∃ e stored, ((plaintext "users" (some oneKey)).run tagging
        [.setEncryptionPolicy .done 1 (some recordPolicy),
          .setEncryptionPolicy .done 2 none]).enc = some e ∧
      encrypt tagging oneKey e 7
        ((Data.empty : Data Int).set "secure_data" "note") = .ok stored ∧
      stored = (Data.empty : Data Int).set "secure_data" "note" ∧
      materialize tagging oneKey e stored [] = .ok Data.empty := by
  refine ⟨⟨"users", .record, .disabled, 2⟩, _, ?_, rfl, rfl, rfl⟩
  decide +kernel

/-! ## Migrations -/

/-- A stored record is encrypted anew, with some of the keys and under a policy
that calls lead to. -/
def Migrates (cipher : Cipher) (p : Protection) (keys : Keyring) (plain stored stored' : Data N) :
    Prop :=
  ∃ steps e given seed, (p.run cipher steps).enc = some e ∧ given.Within keys ∧ ¬Lossy e plain ∧
    reencrypt cipher given e seed stored = .ok stored'

theorem holds_of_migrates {cipher : Cipher} {p : Protection} {keys : Keyring} {e : PolicyEncryptor}
    {plain stored stored' : Data N} (settled : Settled p) (now : p.enc = some e)
    (holds : RecordHolds cipher keys e.collection e.readMode stored plain)
    (migrates : Migrates cipher p keys plain stored stored') :
    RecordHolds cipher keys e.collection e.readMode stored' plain := by
  obtain ⟨steps, e', given, seed, later, within, kept, moved⟩ := migrates
  obtain ⟨e₁, last, mode, collection⟩ := mode_run cipher settled now steps
  obtain rfl := Option.some.inj (last.symm.trans later)
  obtain ⟨opened, read, made⟩ := ok_of_bind moved
  rw [← mode, ← collection] at holds ⊢
  -- fewer keys open nothing else
  have whole := (materialize_holds holds []).symm.trans (materialize_mono within read)
  obtain rfl : plain = opened := Except.ok.inj whole
  exact (encrypt_holds ((settled_run cipher settled steps).fit _ last) made kept).mono within

/-- A record is read back as it was written after any number of migrations, each
under a policy that came into force later. -/
theorem migrated_reads_back (cipher : Cipher) (name : String) (keyProvider : Option Keyring)
    (before : List AdminStep) (keys : Keyring) (e : PolicyEncryptor) (seed : Nat)
    (plain stored stored' : Data N)
    (written : ((plaintext name keyProvider).run cipher before).enc = some e)
    (accepted : encrypt cipher keys e seed plain = .ok stored) (kept : ¬Lossy e plain)
    (migrated : Relation.ReflTransGen
      (Migrates cipher ((plaintext name keyProvider).run cipher before) keys plain) stored stored')
    (fields : List String) :
    materialize cipher keys e stored' fields = .ok (projectData plain fields) := by
  have settled := settled_run cipher (settled_plaintext name keyProvider) before
  refine materialize_holds ?_ fields
  induction migrated with
  | refl => exact encrypt_holds (settled.fit e written) accepted kept
  | tail _ step holds => exact holds_of_migrates settled written holds step

/-- A plain record is sealed whole by a migration. -/
theorem migrated_reads_back_sealed :
    ∃ stored, reencrypt tagging oneKey ⟨"users", .record, recordPolicy, 3⟩ 7
        ((Data.empty : Data Int).set "name" "ada") = .ok stored ∧
      materialize tagging oneKey ⟨"users", .record, .disabled, 2⟩ stored [] =
        .ok ((Data.empty : Data Int).set "name" "ada") := by
  refine ⟨_, rfl, migrated_reads_back tagging "users" (some oneKey)
    [.setEncryptionPolicy .done 1 (some recordPolicy), .setEncryptionPolicy .done 2 none]
    oneKey ⟨"users", .record, .disabled, 2⟩ 0 _ _ _ rfl rfl (fun lossy => lossy.2.2 rfl)
    (.single ?_) []⟩
  exact ⟨[.setEncryptionPolicy .done 3 (some recordPolicy)], _, oneKey, 7, rfl,
    Crypto.Envelope.Keyring.Within.refl oneKey, fun lossy => lossy.2.2 rfl, rfl⟩

/-! ## Projections -/

/-- A record without marks is read as it is stored, but for the field of the name
of the blob. -/
theorem get_of_unmarked {cipher : Cipher} {keys : Keyring} {e : PolicyEncryptor}
    {stored full : Data N} (unmarked : Unmarked stored)
    (whole : materialize cipher keys e stored [] = .ok full) {field : String}
    (apart : field ≠ secureDataField) : full.get field = stored.get field := by
  rw [materialize] at whole
  split_ifs at whole
  · have blob : decryptBlob cipher keys e (stored.get secureDataField) = .ok Data.empty :=
      decryptBlob_means (.absent fun text found => unmarked _ text found)
    rw [materializeRecord, blob] at whole
    cases whole
    rw [Data.get_overlay, Data.get_filter, if_pos (decide_eq_true apart), Data.get_empty,
      Option.none_or]
  · cases whole.symm.trans (materializeFields_nil_iff.mpr (fieldsMean_self unmarked).reads)
    rfl

/-- If the whole of a record can be read, a projection of it is read as that of
the whole record, whatever calls have led to the policies, if it was written
through one or has no marked value.  For any other record it is, if and only if
the stored key is the key and no column that is asked for has another value in
the blob. -/
theorem projection_commutes_iff (cipher : Cipher) (name : String) (keyProvider : Option Keyring)
    (before after : List AdminStep) (keys later : Keyring) (e' : PolicyEncryptor)
    (read : (((plaintext name keyProvider).run cipher before).run cipher after).enc = some e')
    (within : keys.Within later) (stored full : Data N)
    (whole : materialize cipher later e' stored [] = .ok full) (fields : List String)
    (filled : fields ≠ []) :
    ((∃ e seed data, ((plaintext name keyProvider).run cipher before).enc = some e ∧
          encrypt cipher keys e seed data = .ok stored) ∨ Unmarked stored →
        materialize cipher later e' stored fields = .ok (projectData full fields)) ∧
      (materialize cipher later e' stored fields = .ok (projectData full fields) ↔
        full.get Collection.keyField = stored.get Collection.keyField ∧ (e'.readMode = .record → ∀ field ∈ fields,
          field ≠ secureDataField → stored.get field ≠ none →
            full.get field = stored.get field)) := by
  have exactly := materialize_project_iff whole filled
  have plain (unmarked : Unmarked stored) :
      materialize cipher later e' stored fields = .ok (projectData full fields) :=
    exactly.mpr ⟨get_of_unmarked unmarked whole keyField_ne_secureDataField,
      fun _ field _ apart _ => get_of_unmarked unmarked whole apart⟩
  refine ⟨?_, exactly⟩
  rintro (⟨e, seed, data, written, accepted⟩ | unmarked)
  · have settled := settled_run cipher (settled_plaintext name keyProvider) before
    obtain ⟨e₁, last, mode, collection⟩ := mode_run cipher settled written after
    obtain rfl := Option.some.inj (last.symm.trans read)
    obtain ⟨unreserved, ⟨-, rfl⟩ | ⟨enabled, keyID, key, now, sealed⟩⟩ := encrypt_eq_ok accepted
    · exact plain (unmarked_of_unreserved unreserved)
    · have holds := (encryptUnder_holds (settled.fit e written) enabled
        (Crypto.Envelope.Keyring.current_eq_ok now).2 (unmarked_of_unreserved unreserved)
        sealed).mono within
      rw [← mode, ← collection] at holds
      cases whole.symm.trans (materialize_holds holds [])
      exact materialize_holds holds fields
  · exact plain unmarked

/-- The encryption of whole records from the start. -/
def whole : PolicyEncryptor :=
  ⟨"users", .record, recordPolicy, 1⟩

theorem run_whole : ((plaintext "users" (some oneKey)).run tagging
    [.setEncryptionPolicy .done 1 (some recordPolicy)]).enc = some whole := by
  decide +kernel

/-- The name of a record sealed whole is read alone. -/
theorem projection_commutes_sealed :
    ∃ stored full, encrypt tagging oneKey whole 7
        ((Data.empty : Data Int).set "name" "ada") = .ok stored ∧
      materialize tagging oneKey whole stored ["name", "_key", "name"] =
        .ok (projectData full ["name", "_key", "name"]) := by
  obtain ⟨stored, accepted⟩ : ∃ stored, encrypt tagging oneKey whole 7
      ((Data.empty : Data Int).set "name" "ada") = .ok stored := ⟨_, rfl⟩
  obtain ⟨full, read⟩ := materialize_of_accepted ⟨.inr rfl, .inr ⟨rfl, rfl⟩⟩ accepted
  exact ⟨stored, full, accepted, (projection_commutes_iff tagging "users"
    (some oneKey) [.setEncryptionPolicy .done 1 (some recordPolicy)] [] oneKey oneKey whole run_whole
    (Crypto.Envelope.Keyring.Within.refl oneKey) stored full read _ (List.cons_ne_nil _ _)).1
    (Or.inl ⟨whole, 7, _, run_whole, accepted⟩)⟩

/-- A record that was stored before encryption holds the blob of another record
besides its name.  Read whole it has the name of the blob, and its own name in a
projection. -/
theorem copied_blob_hides_column :
    ((plaintext "users" (some oneKey)).run tagging
      [.setEncryptionPolicy .done 1 (some recordPolicy)]).enc = some whole ∧
    ∃ blob, encrypt tagging oneKey whole 7
        ((Data.empty : Data Int).set "name" "ada") = .ok blob ∧
      materialize tagging oneKey whole (blob.set "name" "bob") [] =
        .ok ((Data.empty : Data Int).set "name" "ada") ∧
      materialize tagging oneKey whole (blob.set "name" "bob") ["name"] =
        .ok ((Data.empty : Data Int).set "name" "bob") := by
  obtain ⟨stored, accepted⟩ : ∃ stored, encrypt tagging oneKey whole 7
      ((Data.empty : Data Int).set "name" "ada") = .ok stored := ⟨_, rfl⟩
  refine ⟨run_whole, stored, accepted, ?_⟩
  obtain ⟨-, ⟨off, -⟩ | ⟨-, keyID, key, now, sealed⟩⟩ := encrypt_eq_ok accepted
  · cases off
  · obtain ⟨-, envelope, made, rfl⟩ := encryptUnder_record rfl sealed
    have blob := decryptBlob_means (.closed (Crypto.Envelope.Keyring.current_eq_ok now).2
      (sealValue_eq_ok made))
    have isRecord : whole.readMode = .record := rfl
    constructor
    · rw [materialize, if_pos isRecord, materializeRecord]
      change Except.map _ (decryptBlob _ _ _ (some (.str envelope))) = _
      rw [blob]
      rfl
    · rw [materialize, if_pos isRecord]
      rfl

end ReadBack

end Scriva.Engine.Policies
