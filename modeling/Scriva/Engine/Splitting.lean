import Scriva.Engine.Sequential
import Scriva.Engine.Compactor

/-!
# What a compaction writes

The resolved entries are split over temporary files, and small neighbours are
merged.  For entries that a line says in full nothing is lost by that: read again,
the files that are returned hold the entries in order, and no other temporary
file is left.  A file is full before the next one is begun, so that merging, which
looks for files below a tenth of the maximum size in front of others, finds none.
Whatever temporary files are in a directory, recovery discards.
-/

namespace Scriva.Engine.Splitting

open Lib.Text Lib.Keyed Store.Record Store.Ndjson Segment Directory Engine.Collection Compactor
open Load Opening Engine.Sequential

variable {N : Type}

/-! ## Piles of temporary files -/

/-- No temporary file is left from an earlier pass. -/
def NoTemps (disk : Disk) : Prop :=
  ∀ name : FileName, name.isTemp = true → disk.files.lookup name = none

variable [JsonNumber N]

/-- A temporary file that holds these entries. -/
structure Filled (disk : Disk) (temp : TempSegment) (part : List (Entry N)) : Prop where
  temporary : temp.name.isTemp = true
  file : ∃ lines : List (SegmentLine N), disk.files.lookup temp.name = some (fileOf lines) ∧
    temp.size = (fileOf lines).length ∧ lines.map SegmentLine.entry = part

/-- The temporary files of a directory with their entries. -/
structure Pile (disk : Disk) (pile : List (TempSegment × List (Entry N))) : Prop where
  filled : ∀ pair ∈ pile, Filled disk pair.1 pair.2
  distinct : (pile.map fun pair => pair.1.name).Nodup
  only : ∀ name, name.isTemp = true → disk.files.lookup name ≠ none →
    ∃ pair ∈ pile, pair.1.name = name

variable {disk disk' : Disk} {temp : TempSegment} {e : Entry N} {part entries : List (Entry N)}
  {pile mid : List (TempSegment × List (Entry N))} {w : World N}

theorem pile_nil (bare : NoTemps disk) : Pile (N := N) disk [] where
  filled := List.forall_mem_nil _
  distinct := List.nodup_nil
  only name temporary present := absurd (bare name temporary) present

/-- The file on top is replaced by another of its name, or one is put there. -/
theorem Pile.topped (stack : Pile disk (pile ++ mid)) (old : ∀ pair ∈ mid, pair.1.name = temp.name)
    (fresh : ∀ pair ∈ pile, pair.1.name ≠ temp.name) (filled : Filled disk' temp part)
    (frame : ∀ name, name ≠ temp.name → disk'.files.lookup name = disk.files.lookup name) :
    Pile disk' (pile ++ [(temp, part)]) where
  filled := by
    refine List.forall_mem_append.mpr ⟨fun pair member => ?_, List.forall_mem_singleton.mpr filled⟩
    obtain ⟨temporary, lines, found, rest⟩ := stack.filled pair (List.mem_append_left _ member)
    exact ⟨temporary, lines, (frame _ (fresh pair member)).trans found, rest⟩
  distinct := by
    have apart := stack.distinct
    rw [List.map_append] at apart ⊢
    refine List.nodup_append.mpr ⟨(List.nodup_append.mp apart).1, List.nodup_singleton _, ?_⟩
    intro name member other same
    obtain ⟨pair, inside, rfl⟩ := List.mem_map.mp member
    rw [List.map_singleton, List.mem_singleton] at same
    rw [same]
    exact fresh pair inside
  only := by
    intro name temporary present
    by_cases same : name = temp.name
    · exact ⟨_, List.mem_append_right _ (List.mem_singleton_self _), same.symm⟩
    · rw [frame name same] at present
      obtain ⟨pair, inside, rfl⟩ := stack.only name temporary present
      rcases List.mem_append.mp inside with below | top
      · exact ⟨pair, List.mem_append_left _ below, rfl⟩
      · exact absurd (old pair top) same

theorem Pile.newTemp (calm : w.fault = none) (stack : Pile w.disk pile) (number : Nat)
    (fresh : ∀ pair ∈ pile, pair.1.name ≠ .temp number) :
    ∃ w', (newTemp number : Proc N TempSegment).run w = (.ok ⟨.temp number, 0⟩, w') ∧
      w'.fault = none ∧ Pile w'.disk (pile ++ [(⟨.temp number, 0⟩, [])]) := by
  have absent : w.disk.files.lookup (.temp number) = none := by
    by_contra present
    obtain ⟨pair, inside, name⟩ := stack.only (.temp number) rfl present
    exact fresh pair inside name
  have disk : (w.perform (.create (.temp number))).disk =
      { w.disk with files := w.disk.files.insert (.temp number) [] } := by
    rw [World.disk_perform, DiskStep.apply, if_neg (Finmap.lookup_eq_none.mp absent)]
  refine ⟨w.perform (.create (.temp number)), ?_, calm, ?_⟩
  · have empty : ((w.perform (.create (.temp number))).disk.files.lookup
        (.temp number)).getD [] = [] := by
      rw [disk, Finmap.lookup_insert]
      rfl
    rw [Compactor.newTemp, openActiveSegment, Proc.bind_assoc,
      Proc.run_bind_ok (Proc.run_perform calm _), Proc.bind_assoc,
      Proc.run_bind_ok (Proc.run_read _ _), empty]
    rfl
  · rw [disk]
    have whole : Pile w.disk (pile ++ []) := by rwa [List.append_nil]
    refine topped whole (List.forall_mem_nil _) fresh
      ⟨rfl, [], Finmap.lookup_insert _, rfl, rfl⟩ fun name other => ?_
    exact Finmap.lookup_insert_of_ne _ other

theorem Pile.appendTemp (calm : w.fault = none) (stack : Pile w.disk (pile ++ [(temp, part)]))
    (storable : Storable e) {bytes : Bytes} (accepted : appendBytes e = .ok bytes) :
    ∃ w', (appendTemp temp e).run w =
        (.ok { temp with size := temp.size + bytes.length }, w') ∧ w'.fault = none ∧
      Pile w'.disk (pile ++ [({ temp with size := temp.size + bytes.length }, part ++ [e])]) := by
  refine ⟨w.perform (.append temp.name bytes), ?_, calm, ?_⟩
  · rw [Compactor.appendTemp, accepted]
    exact (Proc.run_bind_ok (Proc.run_check _ w) _).trans
      (Proc.run_bind_ok (Proc.run_perform calm _) _)
  · obtain ⟨temporary, lines, found, size, rfl⟩ :=
      stack.filled _ (List.mem_append_right _ (List.mem_singleton_self _))
    obtain ⟨line, rfl, rfl⟩ := exists_line_of_appendBytes storable accepted
    have apart := stack.distinct
    rw [List.map_append, List.nodup_append] at apart
    rw [World.disk_perform, DiskStep.apply, found, Option.getD_some, ← fileOf_append]
    refine topped stack (List.forall_mem_singleton.mpr rfl) (fun pair member => ?_)
      ⟨temporary, lines ++ [line], Finmap.lookup_insert _, ?_, List.map_append⟩
      fun name other => Finmap.lookup_insert_of_ne _ other
    · exact apart.2.2 _ (List.mem_map_of_mem member) _ (.head _)
    · rw [size, fileOf_append, List.length_append]

/-! ## Splitting and merging -/

/-- The entries are written behind those of a pile; every file but the last has reached
the maximum size. -/
theorem run_writeEntries (maxSize : Nat) {next : Nat} {current : TempSegment}
    (storable : ∀ e ∈ entries, Storable e)
    (fits : ∀ e ∈ entries, ∃ bytes, appendBytes e = .ok bytes) (calm : w.fault = none)
    (stack : Pile w.disk (pile ++ [(current, part)]))
    (below : ∀ pair ∈ pile ++ [(current, part)], ∃ number < next, pair.1.name = .temp number)
    (full : ∀ pair ∈ pile, maxSize ≤ pair.1.size) :
    ∃ front last w', (writeEntries maxSize entries (pile.map Prod.fst) current next).run w =
        (.ok ((front ++ [last]).map Prod.fst), w') ∧ Pile w'.disk (front ++ [last]) ∧
      (∀ pair ∈ front, maxSize ≤ pair.1.size) ∧
      (front ++ [last]).flatMap Prod.snd = pile.flatMap Prod.snd ++ part ++ entries := by
  induction entries generalizing w pile part current next with
  | nil =>
    refine ⟨pile, (current, part), w, ?_, stack, full, ?_⟩
    · rw [writeEntries, sealTemp, Proc.run_bind_ok (Proc.run_access calm), List.map_append]
      rfl
    · rw [List.flatMap_append, List.append_nil, List.flatMap_singleton]
  | cons e entries ih =>
    obtain ⟨bytes, accepted⟩ := fits e (.head _)
    -- the entry goes into the file on top
    have put {w : World N} {pile : List (TempSegment × List (Entry N))} {part : List (Entry N)}
        {current : TempSegment} (next : Nat) (calm : w.fault = none)
        (stack : Pile w.disk (pile ++ [(current, part)]))
        (below : ∀ pair ∈ pile ++ [(current, part)], ∃ number < next, pair.1.name = .temp number)
        (full : ∀ pair ∈ pile, maxSize ≤ pair.1.size) :
        ∃ front last w', (appendTemp current e >>= fun current =>
            writeEntries maxSize entries (pile.map Prod.fst) current next).run w =
            (.ok ((front ++ [last]).map Prod.fst), w') ∧ Pile w'.disk (front ++ [last]) ∧
          (∀ pair ∈ front, maxSize ≤ pair.1.size) ∧
          (front ++ [last]).flatMap Prod.snd = pile.flatMap Prod.snd ++ part ++ e :: entries := by
      obtain ⟨w', ran, calm', stack'⟩ := stack.appendTemp calm (storable e (.head _)) accepted
      rw [Proc.run_bind_ok ran, List.append_cons, List.append_assoc _ part]
      refine ih (fun other member => storable other (.tail _ member))
        (fun other member => fits other (.tail _ member)) calm' stack' ?_ full
      simp only [List.forall_mem_append, List.forall_mem_singleton] at below ⊢
      exact below
    rw [writeEntries]
    split_ifs with reached
    · -- the current file is full, and the entry is the first of a new one
      have fresh : ∀ pair ∈ pile ++ [(current, part)], pair.1.name ≠ .temp next := by
        intro pair member same
        obtain ⟨number, small, name⟩ := below pair member
        rw [name] at same
        cases same
        exact lt_irrefl _ small
      obtain ⟨w', ran, calm', stack'⟩ := stack.newTemp calm next fresh
      rw [sealTemp, Proc.run_bind_ok (Proc.run_access calm), Proc.run_bind_ok ran]
      have written := put (next + 1) calm' stack' ?_ ?_
      · simpa only [List.map_append, List.map_singleton, List.flatMap_append,
          List.flatMap_singleton, List.append_nil] using written
      · refine List.forall_mem_append.mpr ⟨fun pair member => ?_, ?_⟩
        · obtain ⟨number, small, name⟩ := below pair member
          exact ⟨number, Nat.lt_succ_of_lt small, name⟩
        · exact List.forall_mem_singleton.mpr ⟨next, Nat.lt_succ_self next, rfl⟩
      · exact List.forall_mem_append.mpr ⟨full, List.forall_mem_singleton.mpr reached⟩
    · exact put next calm stack below full

/-- Files that have reached the maximum size are not merged. -/
theorem rebalance_full (maxSize : Nat) {front : List TempSegment} (last : TempSegment)
    (large : ∀ temp ∈ front, maxSize ≤ temp.size) :
    (rebalance maxSize (front ++ [last]) : Proc N (List TempSegment)) = pure (front ++ [last]) := by
  induction front with
  | nil => rfl
  | cons temp front ih =>
    obtain ⟨next, rest, shape⟩ := List.exists_cons_of_ne_nil (l := front ++ [last]) (by simp)
    have rest := ih fun other member => large other (.tail _ member)
    rw [List.cons_append, shape, rebalance,
      if_pos ((Nat.div_le_self _ _).trans (large temp (.head _))), ← shape, rest]
    rfl

/-- The files of a compaction before small ones are merged. -/
def splitCompacted (maxSize : Nat) (entries : List (Entry N)) : Proc N (List TempSegment) := do
  let first ← newTemp 1
  writeEntries maxSize entries [] first 2

theorem writeCompacted_eq (maxSize : Nat) (some? : entries ≠ []) :
    writeCompacted maxSize entries = splitCompacted maxSize entries >>= rebalance maxSize := by
  rw [writeCompacted, if_neg some?, splitCompacted, Proc.bind_assoc]

/-- The entries that are read from a temporary file. -/
def entriesIn (disk : Disk) (temp : TempSegment) : List (Entry N) :=
  ((disk.files.lookup temp.name).bind scanAll).getD []

/-- What is read from the files is what was appended to them. -/
theorem Pile.flatMap_entriesIn (stack : Pile disk pile) :
    (pile.map Prod.fst).flatMap (entriesIn disk) = pile.flatMap Prod.snd := by
  rw [List.flatMap_map]
  refine List.flatMap_congr fun pair member => ?_
  obtain ⟨-, lines, found, -, held⟩ := stack.filled pair member
  rw [entriesIn, found, Option.bind_some, scanAll_fileOf, Option.getD_some, held]

/-- From a directory without temporary files, entries that fit into lines are
split and merged without an error.  The files that are returned have different
names, are all there and hold the entries in order; there are not more than
before merging, and those that were merged are not larger than the maximum; and
no other temporary file is left.  From any directory, recovery discards every
temporary file. -/
theorem compacted_complete (w : World N) (calm : w.fault = none) (bare : NoTemps w.disk)
    (maxSize : Nat) (entries : List (Entry N)) (storable : ∀ e ∈ entries, Storable e)
    (fits : ∀ e ∈ entries, ∃ bytes, appendBytes e = .ok bytes) :
    (∃ split temps w', (writeCompacted maxSize entries).run w = (.ok temps, w') ∧
      (entries ≠ [] → ∃ w₁, (splitCompacted maxSize entries).run w = (.ok split, w₁) ∧
        (rebalance maxSize split).run w₁ = (.ok temps, w')) ∧
      (temps.map TempSegment.name).Nodup ∧
      (∀ temp ∈ temps, ∃ file, w'.disk.files.lookup temp.name = some file ∧
        (temp ∈ split ∨ file.length ≤ maxSize)) ∧
      temps.flatMap (entriesIn w'.disk) = entries ∧ temps.length ≤ split.length ∧
      ∀ name, name.isTemp = true → name ∈ w'.disk.files → name ∈ temps.map TempSegment.name) ∧
    ∀ left : World N, left.fault = none → ∃ swept,
      (discardCompactTemps : Proc N Unit).run left = (.ok (), swept) ∧ NoTemps swept.disk := by
  refine ⟨?_, fun left calm => ?_⟩
  · by_cases nothing : entries = []
    · subst nothing
      exact ⟨[], [], w, rfl, absurd rfl, .nil, List.forall_mem_nil _, rfl, le_rfl,
        fun name temporary present => absurd present (Finmap.lookup_eq_none.mp (bare name temporary))⟩
    · obtain ⟨w₁, opened, calm₁, begun⟩ :=
        (pile_nil (N := N) bare).newTemp calm 1 (List.forall_mem_nil _)
      obtain ⟨front, last, w₂, written, stack, full, held⟩ := run_writeEntries maxSize storable fits
        calm₁ begun (List.forall_mem_singleton.mpr ⟨1, Nat.lt_succ_self 1, rfl⟩)
        (List.forall_mem_nil _)
      have split : (splitCompacted maxSize entries).run w =
          (.ok ((front ++ [last]).map Prod.fst), w₂) := by
        rw [splitCompacted, Proc.run_bind_ok opened]
        exact written
      have merged : (rebalance (N := N) maxSize ((front ++ [last]).map Prod.fst)).run w₂ =
          (.ok ((front ++ [last]).map Prod.fst), w₂) := by
        rw [List.map_append, List.map_singleton, rebalance_full maxSize last.1
          (List.forall_mem_map.mpr full)]
        rfl
      refine ⟨_, _, w₂, ?_, fun _ => ⟨w₂, split, merged⟩, ?_, fun temp member => ?_, ?_, le_rfl,
        fun name temporary present => ?_⟩
      · rw [writeCompacted_eq maxSize nothing, Proc.run_bind_ok split, merged]
      · rw [List.map_map]
        exact stack.distinct
      · obtain ⟨pair, inside, rfl⟩ := List.mem_map.mp member
        obtain ⟨-, lines, found, -⟩ := stack.filled pair inside
        exact ⟨_, found, .inl member⟩
      · rw [stack.flatMap_entriesIn, held]
        rfl
      · obtain ⟨pair, inside, rfl⟩ := stack.only name temporary
          (by rwa [Ne, Finmap.lookup_eq_none, not_not])
        exact List.mem_map_of_mem (List.mem_map_of_mem inside)
  · obtain ⟨swept, ran, -, -, -, clean⟩ := run_discardCompactTemps calm
    exact ⟨swept, ran, clean.temps⟩

/-- Five records, two of which fill a file of 100 bytes. -/
def several : List (Entry Int) :=
  [1, 2, 3, 4, 5].map fun id => newInsert id (some (oneField "n" 5)) stillEnv.ts

/-- A collection whose directory has no files. -/
def bareWorld : World Int :=
  { fresh smallConfig none .asWritten with disk := .empty, fault := none }

set_option maxRecDepth 4000 in
/-- They are written to three files.  A file before the last has reached the
maximum size, so that no two are merged. -/
theorem compacted_complete_several :
    ∃ temps w', (writeCompacted 100 several).run bareWorld = (.ok temps, w') ∧
      temps.length = 3 ∧ temps.flatMap (entriesIn w'.disk) = several := by
  have written : ∀ e ∈ several, ∃ bytes, appendBytes e = .ok bytes := by
    intro e member
    have fits : ∀ e ∈ several, (appendBytes e).toBool = true := by decide +kernel
    rcases accepted : appendBytes e with reason | bytes
    · have fits := fits e member
      rw [accepted] at fits
      cases fits
    · exact ⟨bytes, rfl⟩
  have files : ((writeCompacted 100 several).run bareWorld).1.toOption.map List.length = some 3 := by
    decide +kernel
  obtain ⟨⟨_, temps, w', ran, -, -, -, whole, -⟩, -⟩ := compacted_complete bareWorld rfl
    (fun _ _ => rfl) 100 several (by decide +kernel) written
  rw [ran] at files
  exact ⟨temps, w', ran, Option.some.inj files, whole⟩

end Scriva.Engine.Splitting
