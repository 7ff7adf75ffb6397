import Scriva.Engine.Collection

/-!
# Compaction

One pass over the sealed segments: the latest entry of every id is resolved,
the survivors are written to temporary files, the intended swap is recorded in
a manifest, and the temporary files take the places of the first segments
while the remaining old ones are removed.  The indexes are rebuilt from the
new layout before the manifest is retired.

The phases are separate procedures because they run under different locks:
the snapshot under the read lock, the resolution and the temporary files under
none, the swap under the write lock.
-/

namespace Scriva.Engine.Compactor

open Lib.Text Lib.Keyed Store.Record Store.Ndjson Segment PrimaryIndex SecondaryIndex Directory
open Engine.Collection
open Proc (access perform)

variable {N : Type} [JsonNumber N]

/-! ## Resolving -/

/-- The last entry of every id, whatever its operation. -/
def keepLatest (latest : Map Nat (Entry N)) (e : Entry N) : Map Nat (Entry N) :=
  latest.insert e.id e

/-- Scan segments one after another for the last entry of every id. -/
def scanResolved : List Nat → Map Nat (Entry N) → Proc N (Map Nat (Entry N))
  | [], latest => return latest
  | segment :: segments, latest => do
    access
    let entries ← Proc.read fun w => (w.disk.segment segment).bind scanAll
    match entries with
    | none => Proc.fail .unreadable
    | some entries => scanResolved segments (entries.foldl keepLatest latest)

/-- Tombstones and records whose time has passed do not survive. -/
def survives (now : Int) (e : Entry N) : Bool :=
  e.op ≠ .delete && !expired e.expiresAt now

/-- The survivors, in the order in which the iteration yields their ids. -/
def survivors (iteration : Iteration) (now : Int) (latest : Map Nat (Entry N)) :
    List (Entry N) :=
  ((iteration.keys latest.keys).filterMap latest.lookup).filter (survives now)

def resolveEntries (iteration : Iteration) (now : Int) (segments : List Nat) :
    Proc N (List (Entry N)) := do
  let latest ← scanResolved segments ∅
  return survivors iteration now latest

/-- Bring entries of earlier policies to the current one. -/
def reencryptForMigration (enc : Option (Encryptor N)) (seed : Nat) :
    List (Entry N) → Except Error (List (Entry N))
  | [] => .ok []
  | e :: entries =>
    match enc with
    | none => .ok (e :: entries)
    | some policy =>
      if e.op = .delete ∨ e.epoch = policy.epoch then
        (reencryptForMigration enc (seed + 1) entries).map (e :: ·)
      else
        match (policy.materialize e.data).bind (policy.encrypt seed) with
        | .error error => .error error
        | .ok data =>
          (reencryptForMigration enc (seed + 1) entries).map
            ({ e with data, epoch := policy.epoch } :: ·)

/-! ## Temporary files -/

/-- A temporary segment and its size. -/
structure TempSegment where
  name : FileName
  size : Nat
deriving DecidableEq, Repr

def newTemp (number : Nat) : Proc N TempSegment := do
  let size ← openActiveSegment (.temp number)
  return ⟨.temp number, size⟩

def appendTemp (temp : TempSegment) (e : Entry N) : Proc N TempSegment := do
  let bytes ← Proc.check ((appendBytes e).mapError Error.append)
  perform (.append temp.name bytes)
  return { temp with size := temp.size + bytes.length }

/-- Seal a temporary file: flush and close it. -/
def sealTemp : Proc N Unit :=
  access

/-- Write entries one after another, starting a new file whenever the current
one has reached the maximum size. -/
def writeEntries (maxSize : Nat) :
    List (Entry N) → List TempSegment → TempSegment → Nat → Proc N (List TempSegment)
  | [], finished, current, _ => do
    sealTemp
    return finished ++ [current]
  | e :: entries, finished, current, next => do
    if maxSize ≤ current.size then
      sealTemp
      let fresh ← newTemp next
      let fresh ← appendTemp fresh e
      writeEntries maxSize entries (finished ++ [current]) fresh (next + 1)
    else
      let current ← appendTemp current e
      writeEntries maxSize entries finished current next

def appendAll : List (Entry N) → TempSegment → Proc N TempSegment
  | [], temp => return temp
  | e :: entries, temp => do
    let temp ← appendTemp temp e
    appendAll entries temp

def mergeName : FileName → FileName
  | .temp number => .merged number
  | name => name

/-- Append the entries of a temporary file to another. -/
def copyInto (source target : TempSegment) : Proc N TempSegment := do
  access
  let entries ← Proc.read fun w => (w.disk.files.lookup source.name).bind scanAll
  match entries with
  | none => Proc.fail .unreadable
  | some entries => appendAll (N := N) entries target

def mergeSegments (a b : TempSegment) : Proc N TempSegment := do
  let size ← openActiveSegment (mergeName a.name)
  let merged ← copyInto a ⟨mergeName a.name, size⟩
  let merged ← copyInto b merged
  sealTemp
  return merged

/-- Merge files below a tenth of the maximum size into their successors where
both fit into one. -/
def rebalance (maxSize : Nat) : List TempSegment → Proc N (List TempSegment)
  | [] => return []
  | [s] => return [s]
  | s :: next :: rest => do
    if maxSize / 10 ≤ s.size then
      let rest ← rebalance maxSize (next :: rest)
      return s :: rest
    else if s.size + next.size ≤ maxSize then
      let merged ← mergeSegments s next
      (perform (.remove s.name) : Proc N Unit).attempt
      (perform (.remove next.name) : Proc N Unit).attempt
      let rest ← rebalance maxSize rest
      return merged :: rest
    else
      let rest ← rebalance maxSize (next :: rest)
      return s :: rest

def writeCompacted (maxSize : Nat) (entries : List (Entry N)) :
    Proc N (List TempSegment) := do
  if entries = [] then return []
  let first ← newTemp 1
  let temps ← writeEntries maxSize entries [] first 2
  rebalance maxSize temps

/-! ## The gate -/

/-- A line is stale if it is a tombstone or the index points elsewhere. -/
def isStale (c : Collection N) (segment : Nat) (e : Entry N) : Bool :=
  e.op = .delete || (c.index.lookup e.id).map IndexEntry.segment ≠ some segment

/-- The lines of the readable segments among the given ones. -/
def gateLines (files : Nat → Option Bytes) (segments : List Nat) :
    List (Nat × Entry N) :=
  segments.flatMap fun segment =>
    (((files segment).bind scanAll).getD []).map fun e => (segment, e)

/-- The share of the lines that are stale is above the limit.  The quotient is exact;
the `float64` quotient of the source is it rounded once as long as there are fewer
than 2^53 lines, and is compared alike unless it is rounded to the limit itself. -/
def isDirty (c : Collection N) (files : Nat → Option Bytes) (segments : List Nat) :
    Bool :=
  let lines := gateLines (N := N) files segments
  let stale := lines.filter fun line => isStale c line.1 line.2
  lines ≠ [] && c.cfg.compactDirtyPct < (stale.length : Rat) / lines.length

def migrationPendingIn (c : Collection N) (segments : List Nat) : Bool :=
  match c.enc with
  | none => false
  | some enc => decide (∃ id ∈ c.index.keys, ∃ loc ∈ c.index.lookup id,
      loc.epoch ≠ enc.epoch ∧ loc.segment ∈ segments)

/-! ## The pass -/

/-- What a pass takes from its surroundings. -/
structure PassEnv where
  now : Int
  seed : Nat
  iteration : Iteration

/-- Resolve the segments of the snapshot and write the temporary files. -/
def preparePass (env : PassEnv) (toCompact : List Nat) :
    Proc N (List TempSegment) := do
  let resolved ← resolveEntries env.iteration env.now toCompact
  let enc ← readEnc
  let resolved ← Proc.check (reencryptForMigration enc env.seed resolved)
  let maxSize ← Proc.read fun w => w.col.cfg.segmentMaxSize
  writeCompacted maxSize resolved

/-- The final numbers of the temporary files, in order from one. -/
def finalNumbers (temps : List TempSegment) : List Nat :=
  (List.range temps.length).map (· + 1)

def passManifest (toCompact : List Nat) (temps : List TempSegment) :
    CompactManifest where
  renames := (temps.map TempSegment.name).zip (finalNumbers temps)
  removals := toCompact.filter fun number => number ∉ finalNumbers temps

/-- A file moved onto the name of the open active segment orphans it. -/
def replaceFile (number : Nat) (c : Collection N) : Collection N :=
  if c.active.number = number then
    { c with active := { c.active with orphaned := true } }
  else c

/-- Rename the temporary files into place. -/
def renameTemps : List (FileName × Nat) → Proc N (List Handle)
  | [] => return []
  | (source, number) :: renames => do
    perform (.rename source (.segment number))
    Proc.modify (replaceFile number)
    let size ← Proc.read fun w => ((w.disk.segment number).map List.length).getD 0
    let rest ← renameTemps renames
    return ⟨number, size, false⟩ :: rest

def removeSegments : List Nat → Proc N Unit
  | [] => return ()
  | number :: numbers => do
    (perform (.remove (.segment number)) : Proc N Unit).attempt
    removeSegments numbers

/-- Rebuild the primary index from the current segments. -/
def rebuildIndex : Proc N Unit := do
  access
  let rebuilt ← Proc.read fun w => rebuild N w.disk.segment (allSegments w.col)
  match rebuilt with
  | none => Proc.fail .unreadable
  | some index => Proc.modify fun c => { c with index }

/-- The part of the pass under the write lock. -/
def swapPass (manifest : CompactManifest) : Proc N Unit := Proc.locked do
  let sealed ← renameTemps manifest.renames
  removeSegments manifest.removals
  Proc.modify fun c => { c with sealed }
  rebuildIndex

def persistIndex : Proc N Unit := do
  let index ← Proc.read fun w => w.col.index
  perform (.writeIndex (persist index))

/-- Rebuild and persist the indexes on some fields. -/
def rebuildIndexes (segments : List Nat) : List String → Proc N Unit
  | [] => return ()
  | field :: fields => do
    rebuildSidx field segments
    (persistIndexOn (N := N) field).attempt
    rebuildIndexes segments fields

def clearCompactManifest : Proc N Unit := do
  perform .removeManifest
  access

/-- The part of the pass after the swap. -/
def finishPass : Proc N Unit := do
  persistIndex
  let fields ← Proc.read fun w => w.col.sidx.map Sidx.field
  let segments ← Proc.read fun w => allSegments w.col
  rebuildIndexes segments fields
  clearCompactManifest

/-- The pass over a snapshot of the sealed segments. -/
def runPass (env : PassEnv) (toCompact : List Nat) : Proc N Unit := do
  let temps ← preparePass env toCompact
  perform (.writeManifest (passManifest toCompact temps))
  swapPass (passManifest toCompact temps)
  finishPass

/-- A pass that is not forced needs a reason to run. -/
def worthwhile (w : World N) (toCompact : List Nat) : Bool :=
  isDirty w.col w.disk.segment toCompact || migrationPendingIn w.col toCompact

def compact (force : Bool) (env : PassEnv) : Proc N Unit := do
  let toCompact ← Proc.read fun w => w.col.sealed.map Handle.number
  if toCompact = [] then return ()
  let worth ← Proc.read fun w => worthwhile w toCompact
  if !force && !worth then return ()
  runPass env toCompact

/-! ## Passes on request -/

/-- A round of the background compactor. -/
def compactRound (env : Env) (pass : PassEnv) : Proc N Unit := do
  (reapExpired env).attempt
  (compact false pass).attempt

def compactNow (env : Env) (pass : PassEnv) : Proc N Unit := do
  reapExpired env
  compact true pass

/-- Seal the active segment unless it is empty. -/
def sealActive : Proc N Unit := do
  let activeHasData ← Proc.read fun w => decide (0 < w.col.active.size)
  if activeHasData then rotateSegment

/-- Bring every record to the current policy. -/
def migrateNow (env : Env) (pass : PassEnv) : Proc N Unit := do
  let enc ← readEnc
  if enc.isNone then return ()
  sealActive
  reapExpired env
  compact true pass

end Scriva.Engine.Compactor
