import Scriva.Engine.SecondaryIndex

/-!
# The collection and its directory

The state an engine procedure runs on: the collection in memory, its directory
on disk, and the steps by which the directory was changed.  A procedure is a
state transformer that may fail; every change of the directory goes through
`perform`, one step at a time, so that the directory at any point of a run is
the directory before it with a prefix of the steps applied.

Files that are replaced by a rename of a temporary file are changed in one
step.  An append can be cut short, by a failure or by the end of the process.
-/

namespace Scriva.Engine.Directory

open Lib.Text Lib.Keyed Store.Record Store.Ndjson Segment PrimaryIndex SecondaryIndex
open Store.Rfc3339 (Timestamp)

/-! ## The directory -/

/-- The files that hold lines: segments, and the temporary files of a
compaction, which may have been merged. -/
inductive FileName where
  | segment (number : Nat)
  | temp (number : Nat)
  | merged (number : Nat)
deriving DecidableEq, Repr

def FileName.isTemp : FileName → Bool
  | .segment _ => false
  | .temp _ | .merged _ => true

/-- A number for every name, for listing names in some order. -/
def FileName.code : FileName → Nat
  | .segment number => 3 * number
  | .temp number => 3 * number + 1
  | .merged number => 3 * number + 2

def FileName.ofCode (code : Nat) : FileName :=
  if code % 3 = 0 then .segment (code / 3)
  else if code % 3 = 1 then .temp (code / 3)
  else .merged (code / 3)

@[simp]
theorem FileName.ofCode_code (name : FileName) : ofCode name.code = name := by
  cases name with
  | segment number => simp [code, ofCode]
  | temp number =>
    have remainder : (3 * number + 1) % 3 = 1 := by omega
    have quotient : (3 * number + 1) / 3 = number := by omega
    simp [code, ofCode, remainder, quotient]
  | merged number =>
    have remainder : (3 * number + 2) % 3 = 2 := by omega
    have quotient : (3 * number + 2) / 3 = number := by omega
    simp [code, ofCode, remainder, quotient]

/-- The intent record of a compaction swap. -/
structure CompactManifest where
  renames : List (FileName × Nat)
  removals : List Nat
deriving DecidableEq

structure Disk where
  files : Map FileName Bytes
  manifest : Option CompactManifest
  index : Option IndexFile
  sidx : Map String SidxFile
  /-- The id counter of the metadata file. -/
  idCounter : Option Nat
deriving DecidableEq

def Disk.empty : Disk where
  files := ∅
  manifest := none
  index := none
  sidx := ∅
  idCounter := none

/-- The names in the directory. -/
def Disk.names (disk : Disk) : List FileName :=
  ((disk.files.keys.image FileName.code).sort (· ≤ ·)).map FileName.ofCode

theorem Disk.mem_names (disk : Disk) (name : FileName) :
    name ∈ disk.names ↔ name ∈ disk.files := by
  simp only [names, List.mem_map, Finset.mem_sort, Finset.mem_image, Finmap.mem_keys]
  constructor
  · rintro ⟨_, ⟨other, member, rfl⟩, rfl⟩
    rwa [FileName.ofCode_code]
  · intro member
    exact ⟨_, ⟨name, member, rfl⟩, FileName.ofCode_code name⟩

/-- The content of a segment file. -/
def Disk.segment (disk : Disk) (number : Nat) : Option Bytes :=
  disk.files.lookup (.segment number)

/-- One change of the directory. -/
inductive DiskStep where
  | create (name : FileName)
  | append (name : FileName) (bytes : Bytes)
  | truncate (name : FileName) (size : Nat)
  | remove (name : FileName)
  | rename (source : FileName) (target : FileName)
  | writeManifest (manifest : CompactManifest)
  | removeManifest
  | writeIndex (file : IndexFile)
  | writeSidx (field : String) (file : SidxFile)
  | removeSidx (field : String)
  | writeMeta (idCounter : Nat)
deriving DecidableEq

def DiskStep.apply (disk : Disk) : DiskStep → Disk
  | .create name =>
    if name ∈ disk.files then disk
    else { disk with files := disk.files.insert name [] }
  | .append name bytes =>
    { disk with
      files := disk.files.insert name ((disk.files.lookup name).getD [] ++ bytes) }
  | .truncate name size =>
    { disk with
      files := disk.files.insert name (((disk.files.lookup name).getD []).take size) }
  | .remove name => { disk with files := disk.files.erase name }
  | .rename source target =>
    match disk.files.lookup source with
    | some bytes =>
      { disk with files := (disk.files.erase source).insert target bytes }
    | none => disk
  | .writeManifest manifest => { disk with manifest := some manifest }
  | .removeManifest => { disk with manifest := none }
  | .writeIndex file => { disk with index := some file }
  | .writeSidx field file => { disk with sidx := disk.sidx.insert field file }
  | .removeSidx field => { disk with sidx := disk.sidx.erase field }
  | .writeMeta idCounter => { disk with idCounter := some idCounter }

theorem Disk.segment_append (disk : Disk) (number other : Nat) (bytes : Bytes) :
    (DiskStep.apply disk (.append (.segment number) bytes)).segment other =
      if other = number then some ((disk.segment number).getD [] ++ bytes)
      else disk.segment other := by
  simp [DiskStep.apply, segment, lookup_insert_if]

theorem Disk.segment_create (disk : Disk) (number other : Nat) :
    (DiskStep.apply disk (.create (.segment number))).segment other =
      if other = number then some ((disk.segment number).getD [])
      else disk.segment other := by
  by_cases present : FileName.segment number ∈ disk.files
  · obtain ⟨bytes, found⟩ := Finmap.mem_iff.mp present
    by_cases same : other = number
    · subst same
      simp [DiskStep.apply, segment, present, found]
    · simp [DiskStep.apply, present, same]
  · simp [DiskStep.apply, segment, present, lookup_insert_if,
      Finmap.lookup_eq_none.mpr present]

/-- A step that did not finish: some of the bytes of an append arrive; any
other step has taken effect or not. -/
def DiskStep.torn (disk : Disk) (arrived : Nat) : DiskStep → Disk
  | .append name bytes => DiskStep.apply disk (.append name (bytes.take arrived))
  | step => if arrived = 0 then disk else step.apply disk

/-- The directory after steps. -/
def Disk.after (disk : Disk) (steps : List DiskStep) : Disk :=
  steps.foldl DiskStep.apply disk

/-- The directory when the process ends after `done` steps of a procedure, in
the middle of the next one. -/
def Disk.crash (disk : Disk) (steps : List DiskStep) (done arrived : Nat) : Disk :=
  let reached := disk.after (steps.take done)
  match steps[done]? with
  | some step => step.torn reached arrived
  | none => reached

/-! ## The collection in memory -/

inductive SyncMode where
  | none
  | always
  | interval
deriving DecidableEq, Repr

structure Config where
  segmentMaxSize : Nat
  syncMode : SyncMode
  /-- In nanoseconds, zero for no default. -/
  defaultTTL : Nat
  /-- Zero for no limit. -/
  maxRecords : Nat
  maxBytes : Nat
  /-- The share of stale lines above which a pass is worth its while. -/
  compactDirtyPct : Rat
deriving DecidableEq, Repr

inductive Error where
  | io
  | notFound (id : Nat)
  | reservedField
  | keyNotFound (key : String)
  | duplicateKey (field key : String)
  | resourceExhausted
  | append (reason : AppendError)
  | encryption
  | fieldEncrypted (field : String)
  | deletedBeforeCommit (id : Nat)
  | segmentNotFound (id : Nat)
  | unreadable
  | indexNotFound (field : String)
  | malformedLine (number : Nat)
  | missingKeyField (number : Nat)
  | keyNotString (number : Nat)
  | unknownOp (op : Op)
deriving DecidableEq

/-- The encryption of a collection under its current policy.  A seed stands
for the randomness of an encryption. -/
structure Encryptor (N : Type) where
  epoch : Nat
  isEncryptedField : String → Bool
  encrypt : Nat → Option (Data N) → Except Error (Option (Data N))
  materialize : Option (Data N) → Except Error (Option (Data N))

/-- An open segment.  Its file may have been replaced under its name while it
was open, and then appends no longer reach the directory. -/
structure Handle where
  number : Nat
  size : Nat
  orphaned : Bool := false
deriving DecidableEq, Repr

structure Collection (N : Type) where
  cfg : Config
  enc : Option (Encryptor N)
  sealed : List Handle
  active : Handle
  index : Index
  idSeq : Nat
  sidx : List Sidx

structure World (N : Type) where
  col : Collection N
  disk : Disk
  /-- The entries shipped to followers, in order. -/
  feed : List (Entry N)
  /-- The steps performed, in order. -/
  trace : List DiskStep
  /-- A failure to come: how many steps still succeed, and how much of the
  failing one arrives. -/
  fault : Option (Nat × Nat)

/-! ## Procedures -/

/-- A procedure of the engine: it has ended with a result, or it changes the
world by one step and goes on with what it saw.  Between two steps other
procedures may run. -/
inductive Proc (N α : Type) where
  | done (result : Except Error α)
  | step (change : World N → World N) (rest : World N → Proc N α)

namespace Proc

variable {N α β : Type}

/-- Run a procedure to its end with nothing in between. -/
def run : Proc N α → World N → Except Error α × World N
  | .done result, w => (result, w)
  | .step change rest, w => (rest w).run (change w)

protected def pure (value : α) : Proc N α := .done (.ok value)

protected def bind : Proc N α → (α → Proc N β) → Proc N β
  | .done (.ok value), next => next value
  | .done (.error e), _ => .done (.error e)
  | .step change rest, next => .step change fun w => (rest w).bind next

instance : Monad (Proc N) where
  pure := Proc.pure
  bind := Proc.bind

def fail (e : Error) : Proc N α := .done (.error e)

/-- Go on with a computed value, or stop with its error. -/
def check (result : Except Error α) : Proc N α := .done result

/-- Read the collection and the directory. -/
def read (f : World N → α) : Proc N α :=
  .step (fun w => w) fun w => .done (.ok (f w))

def modify (f : Collection N → Collection N) : Proc N Unit :=
  .step (fun w => { w with col := f w.col }) fun _ => .done (.ok ())

/-- Run a procedure whose failure is ignored. -/
def attempt : Proc N α → Proc N Unit
  | .done _ => .done (.ok ())
  | .step change rest => .step change fun w => (rest w).attempt

/-- Clean up after a failure, and fail. -/
def onError : Proc N α → Proc N Unit → Proc N α
  | .done (.ok value), _ => .done (.ok value)
  | .done (.error e), cleanup => cleanup.attempt.bind fun _ => .done (.error e)
  | .step change rest, cleanup => .step change fun w => (rest w).onError cleanup

/-- Run a procedure under the write lock of the collection, with nothing in
between. -/
def locked (p : Proc N α) : Proc N α :=
  .step (fun w => (p.run w).2) fun w => .done (p.run w).1

end Proc

/-- The world after one successful step. -/
def World.perform {N : Type} (w : World N) (step : DiskStep) : World N :=
  { w with disk := step.apply w.disk, trace := w.trace ++ [step] }

@[simp]
theorem World.col_perform {N : Type} (w : World N) (step : DiskStep) :
    (w.perform step).col = w.col := rfl

@[simp]
theorem World.disk_perform {N : Type} (w : World N) (step : DiskStep) :
    (w.perform step).disk = step.apply w.disk := rfl

/-- The world after a step that may be the one to fail. -/
def World.tryPerform {N : Type} (w : World N) (step : DiskStep) : World N :=
  match w.fault with
  | none => w.perform step
  | some (0, arrived) => { w with disk := step.torn w.disk arrived, fault := none }
  | some (later + 1, arrived) => { w.perform step with fault := some (later, arrived) }

/-- The world after a read or flush that may be the step to fail. -/
def World.tryAccess {N : Type} (w : World N) : World N :=
  match w.fault with
  | none | some (0, _) => { w with fault := none }
  | some (later + 1, arrived) => { w with fault := some (later, arrived) }

theorem World.col_tryPerform {N : Type} (w : World N) (step : DiskStep) :
    (w.tryPerform step).col = w.col := by
  unfold World.tryPerform
  split <;> rfl

theorem World.col_tryAccess {N : Type} (w : World N) : w.tryAccess.col = w.col := by
  unfold World.tryAccess
  split <;> rfl

/-- The next step fails. -/
def World.failing {N : Type} (w : World N) : Bool :=
  match w.fault with
  | some (0, _) => true
  | _ => false

/-- Change the directory by one step. -/
def Proc.perform {N : Type} (step : DiskStep) : Proc N Unit :=
  .step (fun w => w.tryPerform step) fun w =>
    if w.failing then .done (.error .io) else .done (.ok ())

/-- Read or flush a file. -/
def Proc.access {N : Type} : Proc N Unit :=
  .step World.tryAccess fun w =>
    if w.failing then .done (.error .io) else .done (.ok ())

/-! ### Running -/

namespace Proc

variable {N α β : Type}

theorem run_bind (first : Proc N α) (next : α → Proc N β) (w : World N) :
    (first >>= next).run w =
      match first.run w with
      | (.ok value, w) => (next value).run w
      | (.error e, w) => (.error e, w) := by
  change (first.bind next).run w = _
  induction first generalizing w with
  | done result => cases result <;> rfl
  | step change rest ih => exact ih w (change w)

theorem bind_assoc {γ : Type} (p : Proc N α) (f : α → Proc N β) (g : β → Proc N γ) :
    p >>= f >>= g = p >>= fun value => f value >>= g := by
  change (p.bind f).bind g = p.bind fun value => (f value).bind g
  induction p with
  | done result =>
    cases result with
    | ok value => rfl
    | error e => rfl
  | step change rest ih =>
    rw [Proc.bind, Proc.bind, Proc.bind]
    congr
    funext w
    exact ih w

variable {first p : Proc N α} {w w' : World N} {value : α} {e : Error}

theorem run_bind_ok (ended : first.run w = (.ok value, w')) (next : α → Proc N β) :
    (first >>= next).run w = (next value).run w' := by
  rw [run_bind, ended]

theorem run_bind_error (ended : first.run w = (.error e, w')) (next : α → Proc N β) :
    (first >>= next).run w = (.error e, w') := by
  rw [run_bind, ended]

theorem run_bind_congr {second : Proc N α} (same : first.run w = second.run w')
    (next : α → Proc N β) : (first >>= next).run w = (second >>= next).run w' := by
  rw [run_bind, run_bind, same]

@[simp]
theorem run_pure (value : α) (w : World N) :
    (Pure.pure value : Proc N α).run w = (.ok value, w) := rfl

@[simp]
theorem run_fail (e : Error) (w : World N) :
    (fail e : Proc N α).run w = (.error e, w) := rfl

@[simp]
theorem run_check (result : Except Error α) (w : World N) :
    (check result : Proc N α).run w = (result, w) := rfl

@[simp]
theorem run_read (f : World N → α) (w : World N) : (read f).run w = (.ok (f w), w) := rfl

@[simp]
theorem run_modify (f : Collection N → Collection N) (w : World N) :
    (modify f).run w = (.ok (), { w with col := f w.col }) := rfl

@[simp]
theorem run_locked (p : Proc N α) (w : World N) : p.locked.run w = p.run w := rfl

@[simp]
theorem run_attempt (p : Proc N α) (w : World N) :
    p.attempt.run w = (.ok (), (p.run w).2) := by
  induction p generalizing w with
  | done result => rfl
  | step change rest ih => exact ih w (change w)

theorem run_onError_ok (ended : p.run w = (.ok value, w')) (cleanup : Proc N Unit) :
    (p.onError cleanup).run w = (.ok value, w') := by
  induction p generalizing w with
  | done result =>
    obtain ⟨rfl, rfl⟩ := Prod.mk.inj ended
    rfl
  | step change rest ih => exact ih w ended

theorem run_onError_error (failed : p.run w = (.error e, w')) (cleanup : Proc N Unit) :
    (p.onError cleanup).run w = (.error e, (cleanup.run w').2) := by
  induction p generalizing w with
  | done result =>
    obtain ⟨rfl, rfl⟩ := Prod.mk.inj failed
    change (cleanup.attempt >>= fun _ => Proc.done (.error e)).run w = _
    rw [run_bind_ok (run_attempt cleanup w)]
    rfl
  | step change rest ih => exact ih w failed

@[simp]
theorem run_perform (calm : w.fault = none) (step : DiskStep) :
    (perform step).run w = (.ok (), w.perform step) := by
  simp [perform, run, World.tryPerform, World.failing, calm]

@[simp]
theorem run_access (calm : w.fault = none) : (access : Proc N Unit).run w = (.ok (), w) := by
  obtain ⟨col, disk, feed, trace, fault⟩ := w
  obtain rfl : fault = none := calm
  rfl

end Proc

end Scriva.Engine.Directory
