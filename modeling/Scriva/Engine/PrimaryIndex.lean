import Scriva.Engine.Segment
import Scriva.Lib.Keyed

/-!
# The primary index

The map from record ids to the location of their latest version, its
reconstruction from segment files, and the file it is persisted to.

A rebuild replays located entries one by one.  What it leaves at an id follows
from the lines of that id alone: the last insert or update not followed by a
delete, with a revision that counts the writes but never falls below one that
a line records.
-/

namespace Scriva.Engine.PrimaryIndex

open Lib.Text Lib.Lines Lib.Keyed Store.Record Store.Ndjson Segment

/-- Where the latest version of a record is, with what the line says about its
revision, expiry and epoch.  A segment is named by its number. -/
structure IndexEntry where
  segment : Nat
  offset : Nat
  rev : Nat
  expiresAt : Int
  epoch : Nat
deriving DecidableEq, Repr

abbrev Index := Map Nat IndexEntry

/-! ## The index file -/

/-- The content of the index file.  The digest stands for the checksum of the
entries it was computed from. -/
inductive IndexFile where
  | malformed
  | file (entries digest : Index)
deriving DecidableEq

def persist (index : Index) : IndexFile :=
  .file index index

inductive LoadError where
  | notExist
  | stale
  | malformed
deriving DecidableEq

def load : Option IndexFile → Except LoadError Index
  | none => .error .notExist
  | some .malformed => .error .malformed
  | some (.file entries digest) =>
    if entries = digest then .ok entries else .error .stale

/-- Every entry points inside one of the given segment files. -/
def segmentsValid (index : Index) (sizes : Nat → Option Nat) : Prop :=
  ∀ id ∈ index.keys, ∀ e ∈ index.lookup id, ∃ size ∈ sizes e.segment, e.offset < size

instance (index : Index) (sizes : Nat → Option Nat) :
    Decidable (segmentsValid index sizes) := by
  unfold segmentsValid
  infer_instance

/-! ## Replaying entries -/

variable {N : Type}

/-- An entry and where its line starts. -/
structure Located (N : Type) where
  segment : Nat
  offset : Nat
  entry : Entry N

/-- The revision of a write, from the one in front of it and the recorded one. -/
def nextRev (current : Option IndexEntry) (recorded : Nat) : Nat :=
  max ((current.map IndexEntry.rev).getD 0 + 1) recorded

def Located.toIndexEntry (located : Located N) (rev : Nat) : IndexEntry where
  segment := located.segment
  offset := located.offset
  rev := rev
  expiresAt := located.entry.expiresAt
  epoch := located.entry.epoch

def rebuildEntry (fresh : Index) (located : Located N) : Index :=
  match located.entry.op with
  | .insert | .update =>
    fresh.insert located.entry.id (located.toIndexEntry
      (nextRev (fresh.lookup located.entry.id) located.entry.rev))
  | .delete => fresh.erase located.entry.id
  | .other _ _ => fresh

def replay (log : List (Located N)) : Index :=
  log.foldl rebuildEntry ∅

/-! ## What a replay leaves at an id -/

/-- One line of an id: the located version it leaves and its revision. -/
def versionStep (line : Located N) (current : Option (Located N × Nat)) :
    Option (Located N × Nat) :=
  match line.entry.op with
  | .insert | .update =>
    some (line, max ((current.map Prod.snd).getD 0 + 1) line.entry.rev)
  | .delete => none
  | .other _ _ => current

/-- The version of a record after a log, with its revision. -/
def version (log : List (Located N)) (id : Nat) : Option (Located N × Nat) :=
  history (fun line => line.entry.id) versionStep log id none

/-- The latest version of a record after a log. -/
def live (log : List (Located N)) (id : Nat) : Option (Located N) :=
  (version log id).map Prod.fst

def versionEntry (found : Located N × Nat) : IndexEntry :=
  found.1.toIndexEntry found.2

def indexStep (line : Located N) (current : Option IndexEntry) : Option IndexEntry :=
  match line.entry.op with
  | .insert | .update => some (line.toIndexEntry (nextRev current line.entry.rev))
  | .delete => none
  | .other _ _ => current

theorem rebuildEntry_eq_alter (fresh : Index) (line : Located N) :
    rebuildEntry fresh line =
      alter fresh line.entry.id (indexStep line (fresh.lookup line.entry.id)) := by
  unfold rebuildEntry indexStep
  split
  · rfl
  · rfl
  · rfl
  · exact (alter_lookup fresh _).symm

theorem indexStep_map (line : Located N) (current : Option (Located N × Nat)) :
    indexStep line (current.map versionEntry) = (versionStep line current).map versionEntry := by
  unfold indexStep versionStep
  split <;> cases current <;> rfl

/-- The index after a replay holds the version of each record. -/
theorem lookup_replay (log : List (Located N)) (id : Nat) :
    (replay log).lookup id = (version log id).map versionEntry := by
  rw [replay, lookup_foldl (fun line : Located N => line.entry.id) indexStep log ∅ id
    rebuildEntry rebuildEntry_eq_alter, Finmap.lookup_empty, version, history, history]
  have follow (lines : List (Located N)) (current : Option (Located N × Nat)) :
      lines.foldl (fun value line => indexStep line value) (current.map versionEntry) =
        (lines.foldl (fun value line => versionStep line value) current).map
          versionEntry := by
    induction lines generalizing current with
    | nil => rfl
    | cons line lines ih =>
      rw [List.foldl_cons, List.foldl_cons, indexStep_map, ih]
  exact follow _ none

/-! ## Rebuilding from files -/

variable [JsonNumber N]

/-- The entries of a file with the offsets of its lines.  The scan and the
offsets are taken separately; an entry without an offset is out of range. -/
def locateFile (segment : Nat) (file : Bytes) : Option (List (Located N)) :=
  match scanAll file with
  | none => none
  | some entries =>
    if entries.length ≤ (scanOffsets file).length then
      some (List.zipWith (Located.mk segment) (scanOffsets file) entries)
    else none

def rebuildFrom (files : Nat → Option Bytes) : List Nat → Index → Option Index
  | [], fresh => some fresh
  | segment :: segments, fresh =>
    match (files segment).bind (locateFile (N := N) segment) with
    | none => none
    | some located => rebuildFrom files segments (located.foldl rebuildEntry fresh)

/-- Replay all entries of the segments in order. -/
def rebuild (N : Type) [JsonNumber N] (files : Nat → Option Bytes)
    (segments : List Nat) : Option Index :=
  rebuildFrom (N := N) files segments ∅

/-! ## Layouts -/

/-- Segments in order, each with its lines. -/
abbrev Layout (N : Type) [JsonNumber N] := List (Nat × List (SegmentLine N))

def locateLines (segment : Nat) (offset : Nat) :
    List (SegmentLine N) → List (Located N)
  | [] => []
  | line :: lines =>
    ⟨segment, offset, line.entry⟩ ::
      locateLines segment (offset + line.raw.length + 1) lines

/-- Every line of a layout with its place. -/
def located (layout : Layout N) : List (Located N) :=
  layout.flatMap fun segment => locateLines segment.1 0 segment.2

/-- The files hold the lines of the layout. -/
def Holds (files : Nat → Option Bytes) (layout : Layout N) : Prop :=
  ∀ segment ∈ layout, files segment.1 = some (fileOf segment.2)

theorem map_entry_locateLines (segment offset : Nat) (lines : List (SegmentLine N)) :
    (locateLines segment offset lines).map Located.entry =
      lines.map SegmentLine.entry := by
  induction lines generalizing offset with
  | nil => rfl
  | cons line lines ih => simp [locateLines, ih]

theorem zipWith_locateLines (segment offset : Nat) (lines : List (SegmentLine N)) :
    List.zipWith (Located.mk segment)
        (starts offset (lines.map SegmentLine.raw))
        (lines.map SegmentLine.entry) = locateLines segment offset lines := by
  induction lines generalizing offset with
  | nil => rfl
  | cons line lines ih => simp [starts, locateLines, ih]

theorem locateFile_fileOf (segment : Nat) (lines : List (SegmentLine N)) :
    locateFile segment (fileOf lines) = some (locateLines segment 0 lines) := by
  simp only [locateFile, scanAll_fileOf, scanOffsets_fileOf, length_starts,
    List.length_map, le_refl, if_true, zipWith_locateLines]

theorem rebuildFrom_eq {files : Nat → Option Bytes} {layout : Layout N}
    (holds : Holds files layout) (fresh : Index) :
    rebuildFrom (N := N) files (layout.map Prod.fst) fresh =
      some ((located layout).foldl rebuildEntry fresh) := by
  induction layout generalizing fresh with
  | nil => rfl
  | cons segment layout ih =>
    have here := holds segment (.head _)
    have rest : Holds files layout := fun other member =>
      holds other (.tail _ member)
    simp only [List.map_cons, rebuildFrom, here, Option.bind_some,
      locateFile_fileOf, ih rest, located, List.flatMap_cons,
      List.foldl_append]

/-- A rebuild from files that hold a layout is the replay of its lines. -/
theorem rebuild_eq_replay {files : Nat → Option Bytes} {layout : Layout N}
    (holds : Holds files layout) :
    rebuild N files (layout.map Prod.fst) = some (replay (located layout)) :=
  rebuildFrom_eq holds ∅

end Scriva.Engine.PrimaryIndex
