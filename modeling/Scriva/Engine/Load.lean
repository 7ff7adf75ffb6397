import Scriva.Engine.Compactor

/-!
# Opening and closing a collection

Opening rolls an interrupted compaction forward or discards its temporary
files, finds the segments, cuts off an unfinished last line, decides whether
the persisted indexes can be used, and restores the id counter.  Closing
writes the indexes and the counter.
-/

namespace Scriva.Engine.Load

open Lib.Text Store.Record Store.Ndjson Segment PrimaryIndex SecondaryIndex Directory
open Engine.Collection Compactor

variable {N : Type}

/-! ## Recovering a compaction -/

/-- The order in which an iteration yields the renames of a manifest. -/
structure RenameOrder where
  run : List (FileName × Nat) → List (FileName × Nat)
  perm : ∀ renames, (run renames).Perm renames

def RenameOrder.asWritten : RenameOrder where
  run renames := renames
  perm renames := List.Perm.refl renames

def removeFiles : List FileName → Proc N Unit
  | [] => return ()
  | name :: names => do
    Proc.perform (.remove name)
    removeFiles names

def discardCompactTemps : Proc N Unit := do
  let names ← Proc.read fun w => w.disk.names.filter FileName.isTemp
  removeFiles names

/-- Apply the renames whose source is still there. -/
def rollForward : List (FileName × Nat) → Proc N Unit
  | [] => return ()
  | (source, number) :: renames => do
    let outstanding ← Proc.read fun w => decide (source ∈ w.disk.files)
    if outstanding then Proc.perform (.rename source (.segment number))
    rollForward renames

/-- The result says whether a swap had to be rolled forward. -/
def recoverCompaction (order : RenameOrder) : Proc N Bool := do
  let manifest ← Proc.read fun w => w.disk.manifest
  match manifest with
  | none => do
    discardCompactTemps
    return false
  | some manifest => do
    rollForward (order.run manifest.renames)
    removeFiles (manifest.removals.map FileName.segment)
    discardCompactTemps
    Proc.access
    clearCompactManifest
    return true

/-! ## Finding the segments -/

/-- The file name of a segment. -/
def segmentName (number : Nat) : String :=
  "seg_" ++ String.ofList (padded 6 number) ++ ".ndjson"

def FileName.segmentNumber? : FileName → Option Nat
  | .segment number => some number
  | .temp _ | .merged _ => none

/-- The segments in the order of their file names. -/
def segmentPaths (disk : Disk) : List Nat :=
  (disk.names.filterMap FileName.segmentNumber?).insertionSort
    fun a b => segmentName a ≤ segmentName b

def fileSize (disk : Disk) (number : Nat) : Nat :=
  ((disk.segment number).map List.length).getD 0

/-- The last segment is opened for appending, the others are sealed. -/
def loadSegments : Proc N Unit := do
  let paths ← Proc.read fun w => segmentPaths w.disk
  Proc.modify fun c => { c with sealed := [] }
  let sizes ← Proc.read fun w =>
    paths.dropLast.map fun number => (⟨number, fileSize w.disk number, false⟩ : Handle)
  Proc.modify fun c => { c with sealed := sizes }
  let number := paths.getLast?.getD 1
  let size ← openActiveSegment (.segment number)
  Proc.modify fun c => { c with active := ⟨number, size, false⟩ }

variable [JsonNumber N]

/-! ## Restoring the indexes -/

/-- The sizes of the segments in memory. -/
def segmentSizes (c : Collection N) (number : Nat) : Option Nat :=
  ((c.sealed ++ [c.active]).find? fun handle => handle.number = number).map Handle.size

def rebuildAndPersist : Proc N Unit := do
  rebuildIndex
  persistIndex.attempt

/-- The result says whether the index had to be rebuilt. -/
def loadIndex (swapRecovered : Bool) : Proc N Bool := do
  if swapRecovered then
    rebuildAndPersist
    return true
  else
    let w ← Proc.read id
    match PrimaryIndex.load w.disk.index with
    | .error .malformed => Proc.fail .unreadable
    | .error .notExist | .error .stale => do
      rebuildAndPersist
      return true
    | .ok index =>
      if segmentsValid index (segmentSizes w.col) then do
        Proc.modify fun c => { c with index }
        return false
      else do
        rebuildAndPersist
        return true

/-- Load or rebuild the index of one file. -/
def loadSidxFile (rebuilt : Bool) (field : String) (file : SidxFile) :
    Proc N Sidx := do
  let (loaded, valid) := (newSecondaryIndex field false).load file
  if valid && !rebuilt then
    return loaded
  else
    let segments ← Proc.read fun w => allSegments w.col
    let latest ← readLatest (N := N) segments ∅
    (persistSidx (loaded.fill latest) : Proc N Unit).attempt
    return loaded.fill latest

def loadSidx (rebuilt : Bool) : List (String × SidxFile) → Proc N Unit
  | [] => return ()
  | (field, file) :: rest => do
    let s ← loadSidxFile rebuilt field file
    Proc.modify fun c => { c with sidx := c.sidx ++ [s] }
    loadSidx rebuilt rest

/-- The index files in the order of their names. -/
def sidxFiles (disk : Disk) : List (String × SidxFile) :=
  (disk.sidx.keys.sort (· ≤ ·)).filterMap fun field =>
    (disk.sidx.lookup field).map fun file => (field, file)

/-! ## Restoring the id counter -/

/-- The highest id in a file, zero if it cannot be read. -/
def maxIDIn (N : Type) [JsonNumber N] (file : Option Bytes) : Nat :=
  (((file.bind (scanAll (N := N))).getD []).map Entry.id).foldl max 0

def loadCounter : Proc N Unit := do
  let w ← Proc.read id
  match w.disk.idCounter with
  | some idCounter =>
    Proc.modify fun c => { c with
      idSeq := max idCounter (maxIDIn N (w.disk.segment w.col.active.number)) }
  | none => do
    let highest := max ((w.col.index.keys.sort (· ≤ ·)).foldl max 0)
      (((allSegments w.col).map fun number => maxIDIn N (w.disk.segment number)).foldl
        max 0)
    Proc.modify fun c => { c with idSeq := highest }
    persistMeta.attempt

/-! ## Opening and closing -/

def load (order : RenameOrder) : Proc N Unit := do
  let swapRecovered ← recoverCompaction order
  loadSegments
  let rebuilt ← loadIndex swapRecovered
  let files ← Proc.read fun w => sidxFiles w.disk
  loadSidx rebuilt files
  loadCounter

/-- A collection before its directory has been read. -/
def blank (cfg : Config) (enc : Option (Encryptor N)) : Collection N where
  cfg := cfg
  enc := enc
  sealed := []
  active := ⟨1, 0, false⟩
  index := ∅
  idSeq := 0
  sidx := []

/-- Open the collection in a directory. -/
def openCollection (cfg : Config) (enc : Option (Encryptor N)) (order : RenameOrder)
    (disk : Disk) : Except Error Unit × World N :=
  (load order).run ⟨blank cfg enc, disk, [], [], none⟩

def persistIndexes : List Sidx → Proc N Unit
  | [] => return ()
  | s :: rest => do
    (persistSidx s : Proc N Unit).attempt
    persistIndexes rest

def close : Proc N Unit := Proc.locked do
  Proc.access
  persistIndex
  let indexes ← Proc.read fun w => w.col.sidx
  persistIndexes indexes
  persistMeta

end Scriva.Engine.Load
