import Scriva.Engine.Sequential

/-!
# The gate of the compactor

A background pass runs if enough of the lines in the sealed segments are stale.
The gate takes a line for stale if it is a tombstone or if the index points into
another segment.  It does not compare offsets: an overwritten version is missed
if the current one is in the same segment.
-/

namespace Scriva.Engine.Gate

open Lib.Text Store.Record Store.Ndjson Segment PrimaryIndex Directory Compactor Coherence
open Engine.Sequential (smallConfig)

variable {N : Type} [JsonNumber N]

/-- How many lines the gate takes for stale. -/
def staleCount (c : Collection N) (files : Nat → Option Bytes) (segments : List Nat) : Nat :=
  ((gateLines files segments).filter fun line => isStale c line.1 line.2).length

/-- A line is the current version of a record that is not deleted. -/
def isCurrent (s : Segments N) (line : Located N) : Bool :=
  line.entry.op ≠ .delete &&
    (live s.log line.entry.id).map (fun live => (live.segment, live.offset)) =
      some (line.segment, line.offset)

/-- The sealed lines that are not. -/
def staleLines (s : Segments N) : List (Located N) :=
  (located s.sealed).filter fun line => !isCurrent s line

/-- No version in a sealed segment has a later one in the same segment that is
current. -/
def OverwrittenElsewhere (s : Segments N) : Prop :=
  ∀ line ∈ located s.sealed, line.entry.op ≠ .delete → ∀ current ∈ live s.log line.entry.id,
    current.segment = line.segment → current.offset = line.offset

variable {s : Segments N} {files : Nat → Option Bytes} {c : Collection N}

theorem map_locateLines (segment offset : Nat) (lines : List (SegmentLine N)) :
    (locateLines segment offset lines).map (fun line => (line.segment, line.entry)) =
      lines.map fun line => (segment, line.entry) := by
  induction lines generalizing offset with
  | nil => rfl
  | cons line lines ih => rw [locateLines, List.map_cons, List.map_cons, ih]

theorem gateLines_eq {layout : Layout N} (holds : Holds files layout) :
    gateLines files (layout.map Prod.fst) =
      (located layout).map fun line => (line.segment, line.entry) := by
  rw [gateLines, located, List.flatMap_map, List.map_flatMap]
  refine List.flatMap_congr fun segment member => ?_
  rw [holds segment member, Option.bind_some, scanAll_fileOf, Option.getD_some, List.map_map,
    map_locateLines]
  rfl

/-- The gate compares the segments of a line and of the current version. -/
theorem isStale_eq (index : c.index = replay s.log) (line : Located N) :
    isStale c line.segment line.entry = (decide (line.entry.op = .delete) ||
      decide ((live s.log line.entry.id).map Located.segment ≠ some line.segment)) := by
  rw [isStale, index, lookup_replay, live, Option.map_map, Option.map_map]
  rfl

theorem isStale_of_overwritten (index : c.index = replay s.log) (line : Located N) :
    isStale c line.segment line.entry = (!isCurrent s line) ↔
      (line.entry.op ≠ .delete → ∀ current ∈ live s.log line.entry.id,
        current.segment = line.segment → current.offset = line.offset) := by
  rw [isStale_eq index, isCurrent]
  rcases live s.log line.entry.id with - | current
  · simp
  · by_cases deleted : line.entry.op = .delete
    · simp [deleted]
    · by_cases same : current.segment = line.segment
      · simp [deleted, same]
      · simp [deleted, same]

/-- What the gate takes for stale is stale. -/
theorem not_current_of_stale (index : c.index = replay s.log) {line : Located N}
    (stale : isStale c line.segment line.entry = true) : (!isCurrent s line) = true := by
  rw [← (isStale_of_overwritten index line).mpr fun put current found same => ?_, stale]
  rw [isStale_eq index, Option.mem_def.mp found] at stale
  simp [put, same] at stale

/-- A weaker test counts no more than it has to if it agrees everywhere. -/
theorem length_filter_eq_iff {α : Type} {l : List α} {p q : α → Bool}
    (weaker : ∀ x, p x = true → q x = true) :
    (l.filter p).length = (l.filter q).length ↔ ∀ x ∈ l, p x = q x := by
  have inside : l.filter p = (l.filter q).filter p := by
    rw [List.filter_filter]
    refine List.filter_congr fun x _ => ?_
    cases held : p x with
    | false => rfl
    | true => rw [weaker x held]; rfl
  rw [inside, List.length_filter_eq_length_iff]
  constructor
  · intro all x member
    cases held : q x with
    | false => exact Bool.eq_false_of_not_eq_true fun more => by simp [weaker x more] at held
    | true => exact all x (List.mem_filter.mpr ⟨member, held⟩)
  · intro same x member
    obtain ⟨inside, held⟩ := List.mem_filter.mp member
    rw [same x inside, held]

/-- The gate counts every stale line if and only if no version is overwritten in
its own segment.  It then lets a pass run exactly when the share of the stale
lines is above the limit. -/
theorem gate_counts_stale_iff (s : Segments N) (files : Nat → Option Bytes) (c : Collection N)
    (holds : Holds files s.layout) (index : c.index = replay s.log) :
    (staleCount c files (s.sealed.map Prod.fst) = (staleLines s).length ↔
        OverwrittenElsewhere s) ∧
      (OverwrittenElsewhere s → (isDirty c files (s.sealed.map Prod.fst) = true ↔
        located s.sealed ≠ [] ∧
          c.cfg.compactDirtyPct < ((staleLines s).length : Rat) / (located s.sealed).length)) := by
  have sealed : Holds files s.sealed := fun segment member =>
    holds segment (List.mem_append_left _ member)
  have lines := gateLines_eq sealed
  have count : staleCount c files (s.sealed.map Prod.fst) =
      ((located s.sealed).filter fun line => isStale c line.segment line.entry).length := by
    rw [staleCount, lines, List.filter_map, List.length_map]
    rfl
  have exact : staleCount c files (s.sealed.map Prod.fst) = (staleLines s).length ↔
      OverwrittenElsewhere s := by
    rw [count, staleLines, length_filter_eq_iff fun line => not_current_of_stale index]
    exact forall₂_congr fun line _ => isStale_of_overwritten index line
  refine ⟨exact, fun elsewhere => ?_⟩
  have same := exact.mpr elsewhere
  rw [staleCount, lines] at same
  simp [isDirty, lines, same]

/-- A record on its line. -/
def plainLine : SegmentLine Int where
  raw := ((encode plainRecord).getD []).dropLast
  entry := plainRecord
  plain := by decide +kernel
  fits := by decide +kernel
  reads := by decide +kernel

/-- Another record. -/
def otherLine : SegmentLine Int where
  raw := ((encode { plainRecord with id := 8 }).getD []).dropLast
  entry := { plainRecord with id := 8 }
  plain := by decide +kernel
  fits := by decide +kernel
  reads := by decide +kernel

/-- The first record is deleted. -/
def deletedLine : SegmentLine Int where
  raw := ((encode (newDelete 7 plainRecord.ts : Entry Int)).getD []).dropLast
  entry := newDelete 7 plainRecord.ts
  plain := by decide +kernel
  fits := by decide +kernel
  reads := by decide +kernel

/-- Two sealed segments, and an empty one after them. -/
def sealedAs (first second : List (SegmentLine Int)) : Segments Int where
  sealed := [(1, first), (2, second)]
  number := 3
  active := []
  increasing := by simp
  positive := by simp

def filesOf (first second : List (SegmentLine Int)) (segment : Nat) : Option Bytes :=
  some (if segment = 1 then fileOf first else if segment = 2 then fileOf second else [])

/-- The collection with the limit that is the default. -/
def collectionOf (first second : List (SegmentLine Int)) : Collection Int :=
  ⟨{ smallConfig with compactDirtyPct := 3 / 10 }, none, [handleOf (1, first), handleOf (2, second)],
    ⟨3, 0, false⟩, replay (sealedAs first second).log, 7, []⟩

theorem holds_filesOf (first second : List (SegmentLine Int)) :
    Holds (filesOf first second) (sealedAs first second).layout := by
  simp [Holds, Segments.layout, sealedAs, filesOf]

/-- A version that is overwritten in the next segment, a deleted record and its
tombstone are all counted. -/
theorem gate_counts_three :
    staleCount (collectionOf [plainLine, otherLine] [otherLine, deletedLine])
        (filesOf [plainLine, otherLine] [otherLine, deletedLine]) [1, 2] = 3 ∧
      isDirty (collectionOf [plainLine, otherLine] [otherLine, deletedLine])
        (filesOf [plainLine, otherLine] [otherLine, deletedLine]) [1, 2] = true := by
  have elsewhere : OverwrittenElsewhere
      (sealedAs [plainLine, otherLine] [otherLine, deletedLine]) := by
    unfold OverwrittenElsewhere
    decide +kernel
  obtain ⟨counted, dirty⟩ := gate_counts_stale_iff
    (sealedAs [plainLine, otherLine] [otherLine, deletedLine]) _
    (collectionOf [plainLine, otherLine] [otherLine, deletedLine]) (holds_filesOf _ _) rfl
  exact ⟨(counted.mpr elsewhere).trans (by decide +kernel),
    (dirty elsewhere).mpr (by decide +kernel)⟩

/-- Of two versions in one segment the first is stale, and the gate counts none. -/
theorem gate_misses_overwritten :
    staleCount (collectionOf [plainLine, plainLine] []) (filesOf [plainLine, plainLine] [])
        [1, 2] = 0 ∧
      (staleLines (sealedAs [plainLine, plainLine] [])).length = 1 ∧
      isDirty (collectionOf [plainLine, plainLine] []) (filesOf [plainLine, plainLine] [])
        [1, 2] = false := by
  decide +kernel

end Scriva.Engine.Gate
