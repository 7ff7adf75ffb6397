import Scriva.Engine.Load
import Scriva.Engine.Calls

/-!
# Opening a directory

What an open makes of a directory whose segment files hold the lines of given
segments, the last of them possibly with an unfinished line.  The segments are
found in the order of their numbers as long as their names have the same
width, the unfinished line is cut off, and the indexes either are loaded from
their files or speak of every line there is.
-/

namespace Scriva.Engine.Opening

open Lib.Text Lib.Keyed Store.Record Segment PrimaryIndex SecondaryIndex Directory Engine.Collection
open Compactor Load Journal Coherence Writing Calls
open SecondaryIndex.Sidx (Exact wanted)
open Proc (run_bind_ok run_read run_modify run_attempt run_perform)

/-! ## The order of segment files -/

theorem lt_append_of_lt {front back : List Char} (same : front.length = back.length)
    (below : front < back) (left right : List Char) : front ++ left < back ++ right := by
  induction front generalizing back with
  | nil =>
    obtain rfl := List.length_eq_zero_iff.mp same.symm
    exact absurd below (lt_irrefl _)
  | cons c front ih =>
    obtain ⟨d, back, rfl⟩ := List.exists_cons_of_length_eq_add_one same.symm
    rw [List.cons_append, List.cons_append, List.cons_lt_cons_iff]
    rcases List.cons_lt_cons_iff.mp below with first | ⟨rfl, later⟩
    · exact .inl first
    · exact .inr ⟨rfl, ih (by simpa using same) later⟩

/-- Segment names of six digits are ordered like their numbers. -/
theorem segmentName_lt {small large : Nat} (fits : large < 10 ^ 6) (below : small < large) :
    segmentName small < segmentName large := by
  have digits := padded_lt_padded (by decide) fits below
  have length : (padded 6 small).length = (padded 6 large).length := by
    rw [length_padded (by decide) fits, length_padded (by decide) (below.trans fits)]
  have tails := lt_append_of_lt length digits ".ndjson".toList ".ndjson".toList
  rw [String.lt_iff_toList_lt, segmentName, segmentName]
  simp only [String.toList_append, String.toList_ofList, List.append_assoc]
  exact List.append_left_lt tails

theorem nodup_names (disk : Disk) : disk.names.Nodup := by
  unfold Disk.names
  refine List.Nodup.map_on ?_ (Finset.sort_nodup _ _)
  intro a first b second same
  rw [Finset.mem_sort, Finset.mem_image] at first second
  obtain ⟨x, -, rfl⟩ := first
  obtain ⟨y, -, rfl⟩ := second
  rw [FileName.ofCode_code, FileName.ofCode_code] at same
  rw [same]

theorem mem_segmentPaths (disk : Disk) (number : Nat) :
    number ∈ segmentPaths disk ↔ (disk.segment number).isSome := by
  rw [segmentPaths, List.mem_insertionSort, List.mem_filterMap]
  constructor
  · rintro ⟨name, member, here⟩
    rw [Disk.mem_names] at member
    cases name with
    | segment other =>
      obtain rfl := Option.some.inj here
      exact Finmap.lookup_isSome.mpr member
    | temp | merged => cases here
  · intro present
    refine ⟨.segment number, ?_, rfl⟩
    rw [Disk.mem_names]
    exact Finmap.lookup_isSome.mp present

theorem segmentPaths_eq {disk : Disk} {numbers : List Nat}
    (increasing : numbers.Pairwise (· < ·)) (named : ∀ n ∈ numbers, n < 10 ^ 6)
    (same : ∀ n, (disk.segment n).isSome ↔ n ∈ numbers) :
    segmentPaths disk = numbers := by
  have order : numbers.Pairwise fun a b => segmentName a ≤ segmentName b := by
    refine increasing.imp_of_mem ?_
    intro a b _ inside below
    exact (segmentName_lt (named b inside) below).le
  have distinct : (segmentPaths disk).Nodup := by
    rw [segmentPaths, (List.perm_insertionSort _ _).nodup_iff]
    refine (nodup_names disk).filterMap ?_
    intro a b number first second
    cases a with
    | segment x =>
      cases b with
      | segment y =>
        obtain rfl := Option.some.inj (Option.mem_def.mp first)
        obtain rfl := Option.some.inj (Option.mem_def.mp second)
        rfl
      | temp | merged => cases second
    | temp | merged => cases first
  have perm : (segmentPaths disk).Perm numbers := by
    rw [List.perm_ext_iff_of_nodup distinct increasing.nodup]
    intro n
    rw [mem_segmentPaths, same]
  have sorted : (segmentPaths disk).Pairwise fun a b => segmentName a ≤ segmentName b := by
    have total : Std.Total fun a b : Nat => segmentName a ≤ segmentName b :=
      ⟨fun a b => le_total _ _⟩
    have trans : IsTrans Nat fun a b => segmentName a ≤ segmentName b :=
      ⟨fun a b c => le_trans⟩
    exact List.pairwise_insertionSort _ _
  refine perm.eq_of_pairwise ?_ sorted order
  intro a b first second forward backward
  rcases lt_trichotomy a b with less | equal | more
  · exact absurd backward (segmentName_lt (named b second) less).not_ge
  · exact equal
  · have inside : a ∈ numbers := perm.mem_iff.mp first
    exact absurd forward (segmentName_lt (named a inside) more).not_ge

/-! ## Directories of segments -/

variable {N : Type} [JsonNumber N]

/-- The segment files hold these lines, the last one followed by an unfinished
line. -/
structure Stands (disk : Disk) (s : Segments N) (tail : Bytes) : Prop where
  holds : Holds disk.segment s.sealed
  last : disk.segment s.number = some (fileOf s.active ++ tail)
  only : ∀ number, (disk.segment number).isSome → number ∈ s.numbers
  unfinished : newline ∉ tail
  named : ∀ number ∈ s.numbers, number < 10 ^ 6

theorem Stands.of_onDisk {disk : Disk} {s : Segments N} (onDisk : OnDisk disk s.layout)
    (named : ∀ number ∈ s.numbers, number < 10 ^ 6) : Stands disk s [] where
  holds := fun segment member => onDisk.holds segment (List.mem_append_left _ member)
  last := by
    rw [List.append_nil]
    exact onDisk.holds (s.number, s.active) (by simp [Segments.layout])
  only := fun number present => by
    rw [← Segments.map_fst_layout]
    exact onDisk.only number present
  unfinished := List.not_mem_nil
  named := named

/-- The segment files hold these lines, or there are none yet. -/
structure Lies (disk : Disk) (s : Segments N) (tail : Bytes) : Prop where
  holds : Holds disk.segment s.sealed
  last : (disk.segment s.number).getD [] = fileOf s.active ++ tail
  started : disk.segment s.number = none → s.sealed = [] ∧ s.number = 1
  only : ∀ number, (disk.segment number).isSome → number ∈ s.numbers
  unfinished : newline ∉ tail
  named : ∀ number ∈ s.numbers, number < 10 ^ 6

theorem Stands.lies {disk : Disk} {s : Segments N} {tail : Bytes} (stands : Stands disk s tail) :
    Lies disk s tail where
  holds := stands.holds
  last := by rw [stands.last, Option.getD_some]
  started := fun none => by
    rw [stands.last] at none
    cases none
  only := stands.only
  unfinished := stands.unfinished
  named := stands.named

theorem Lies.segmentPaths_eq {disk : Disk} {s : Segments N} {tail : Bytes}
    (lies : Lies disk s tail) (there : (disk.segment s.number).isSome) :
    segmentPaths disk = s.numbers := by
  refine Opening.segmentPaths_eq s.increasing lies.named fun number => ⟨lies.only number, ?_⟩
  intro member
  rcases List.mem_append.mp member with old | last
  · obtain ⟨segment, inside, rfl⟩ := List.mem_map.mp old
    rw [lies.holds segment inside]
    rfl
  · rwa [List.mem_singleton.mp last]

/-- The numbers of the files, and the first one if there is none. -/
theorem Lies.segmentPaths {disk : Disk} {s : Segments N} {tail : Bytes} (lies : Lies disk s tail) :
    (segmentPaths disk).dropLast = s.sealed.map Prod.fst ∧
      (Load.segmentPaths disk).getLast?.getD 1 = s.number := by
  rcases there : disk.segment s.number with - | file
  · obtain ⟨alone, first⟩ := lies.started there
    have paths : Load.segmentPaths disk = [] := by
      rw [List.eq_nil_iff_forall_not_mem]
      intro number member
      have present := (mem_segmentPaths disk number).mp member
      have inside := lies.only number present
      rw [Segments.numbers, alone, List.map_nil, List.nil_append, List.mem_singleton] at inside
      rw [inside, there] at present
      cases present
    rw [paths, alone, first]
    exact ⟨rfl, rfl⟩
  · have paths := lies.segmentPaths_eq (by rw [there]; rfl)
    rw [paths]
    simp [Segments.numbers]

/-- The handles of a collection are those of its segments. -/
structure Opened (w : World N) (s : Segments N) : Prop where
  sealed : w.col.sealed = s.sealed.map handleOf
  active : w.col.active = handleOf (s.number, s.active)
  disk : OnDisk w.disk s.layout
  calm : w.fault = none

variable {w w' : World N} {s : Segments N} {log : List (Located N)} {recovered : Bool}

theorem Opened.allSegments_eq (opened : Opened w s) : allSegments w.col = s.numbers := by
  simp [allSegments, opened.sealed, opened.active, Segments.numbers, handleOf]

theorem Opened.congr (opened : Opened w s) (sealed : w'.col.sealed = w.col.sealed)
    (active : w'.col.active = w.col.active) (files : w'.disk.files = w.disk.files)
    (calm : w'.fault = none) : Opened w' s where
  sealed := sealed.trans opened.sealed
  active := active.trans opened.active
  disk := by
    have segment : w'.disk.segment = w.disk.segment := by
      funext number
      rw [Disk.segment, Disk.segment, files]
    exact ⟨by rw [segment]; exact opened.disk.holds, by rw [segment]; exact opened.disk.only⟩
  calm := calm

/-- The state of a collection whose segments have been found. -/
structure Found (w w' : World N) (s : Segments N) : Prop where
  col : w'.col = { w.col with
    sealed := s.sealed.map handleOf, active := handleOf (s.number, s.active) }
  index : w'.disk.index = w.disk.index
  sidx : w'.disk.sidx = w.disk.sidx
  opened : Opened w' s

theorem run_loadSegments {tail : Bytes} (calm : w.fault = none) (lies : Lies w.disk s tail) :
    ∃ w', (loadSegments : Proc N Unit).run w = (.ok (), w') ∧ Found w w' s := by
  obtain ⟨sealed, active⟩ := lies.segmentPaths
  have sizes : (s.sealed.map Prod.fst).map
      (fun number => (⟨number, fileSize w.disk number, false⟩ : Handle)) =
        s.sealed.map handleOf := by
    rw [List.map_map]
    apply List.map_congr_left
    intro segment member
    simp [fileSize, lies.holds segment member, handleOf]
  let ready : World N := { w with col := { w.col with sealed := s.sealed.map handleOf } }
  obtain ⟨size, w', opened, calm', -⟩ :=
    run_openActiveSegment_calm (w := ready) calm (.segment s.number)
  obtain ⟨col, index, sidx, rfl, segment⟩ := yields_openActiveSegment s.number _ _ opened
  have whole : recoverPartialLine ((ready.disk.segment s.number).getD []) =
      (fileOf s.active).length := by
    rw [lies.last, recoverPartialLine_fileOf s.active lies.unfinished]
  rw [whole] at opened segment
  rw [lies.last, List.take_left] at segment
  have disk : OnDisk w'.disk s.layout := by
    constructor
    · intro other member
      rw [segment]
      rcases List.mem_append.mp member with old | last
      · rw [if_neg (numbers_lt s old).ne]
        exact lies.holds other old
      · obtain rfl := List.mem_singleton.mp last
        exact if_pos rfl
    · intro number present
      rw [Segments.map_fst_layout]
      rw [segment] at present
      split_ifs at present with here
      · rw [here]
        simp [Segments.numbers]
      · exact lies.only number present
  refine ⟨{ w' with col := { w'.col with active := handleOf (s.number, s.active) } }, ?_,
    by rw [col], index, sidx, ⟨by rw [col], rfl, disk, calm'⟩⟩
  rw [loadSegments, run_bind_ok (run_read _ w),
    run_bind_ok (run_modify _ w), run_bind_ok (run_read _ _),
    run_bind_ok (run_modify _ _), sealed, active, sizes]
  exact run_bind_ok opened _

/-- The segments of an empty collection. -/
def firstSegment (N : Type) [JsonNumber N] : Segments N where
  sealed := []
  number := 1
  active := []
  increasing := List.pairwise_singleton _ _
  positive := by simp

/-! ## The primary index -/

/-- The open does not use the index file. -/
def Distrusts (w : World N) (recovered : Bool) : Prop :=
  recovered = true ∨ PrimaryIndex.load w.disk.index = .error .notExist ∨
    PrimaryIndex.load w.disk.index = .error .stale ∨
    ∃ index, PrimaryIndex.load w.disk.index = .ok index ∧
      ¬ segmentsValid index (segmentSizes w.col)

/-- The world with a rebuilt and persisted index. -/
def afterRebuild (w : World N) (index : Index) : World N :=
  { w.perform (.writeIndex (persist index)) with col := { w.col with index } }

theorem run_rebuildIndex (opened : Opened w s) :
    (rebuildIndex : Proc N Unit).run w =
      (.ok (), { w with col := { w.col with index := replay s.log } }) := by
  have rebuilt : rebuild N w.disk.segment (allSegments w.col) = some (replay s.log) := by
    rw [opened.allSegments_eq, ← Segments.map_fst_layout,
      rebuild_eq_replay opened.disk.holds, Segments.log]
  rw [rebuildIndex, run_bind_ok (Proc.run_access opened.calm),
    run_bind_ok (run_read _ w), rebuilt]
  rfl

theorem run_rebuildAndPersist (opened : Opened w s) :
    (rebuildAndPersist : Proc N Unit).run w = (.ok (), afterRebuild w (replay s.log)) := by
  rw [rebuildAndPersist, run_bind_ok (run_rebuildIndex opened), run_attempt,
    persistIndex, run_bind_ok (run_read _ _), run_perform]
  · rfl
  · exact opened.calm

theorem run_loadIndex_rebuilt (opened : Opened w s) (distrusts : Distrusts w recovered) :
    (loadIndex recovered : Proc N Bool).run w = (.ok true, afterRebuild w (replay s.log)) := by
  have rebuilds : (do
      rebuildAndPersist
      return true : Proc N Bool).run w = (.ok true, afterRebuild w (replay s.log)) :=
    run_bind_ok (run_rebuildAndPersist opened) _
  unfold loadIndex
  cases recovered with
  | true => exact rebuilds
  | false =>
    rw [if_neg Bool.false_ne_true, run_bind_ok (run_read _ w)]
    rcases distrusts with absurd | missing | stale | ⟨index, loaded, invalid⟩
    · cases absurd
    · simp only [id_eq, missing]
      exact rebuilds
    · simp only [id_eq, stale]
      exact rebuilds
    · simp only [id_eq, loaded, if_neg invalid]
      exact rebuilds

/-! ## Secondary indexes -/

/-- An index that has been restored from the file of its field. -/
structure Restored (log : List (Located N)) (pair : String × SidxFile) (t : Sidx) : Prop where
  field : t.field = pair.1
  exact : t.Exact (wanted pair.1 log)

omit [JsonNumber N] in
theorem field_load (field : String) (file : SidxFile) :
    ((newSecondaryIndex field false).load file).1.field = field := by
  cases file with
  | malformed => rfl
  | file name unique buckets digest =>
    simp only [Sidx.load]
    split_ifs <;> rfl

omit [JsonNumber N] in
theorem run_persistSidx_attempt (calm : w.fault = none) (t : Sidx) :
    ∃ w', ((persistSidx t : Proc N Unit).attempt).run w = (.ok (), w') ∧ w'.col = w.col ∧
      w'.disk.files = w.disk.files ∧ w'.fault = none := by
  rw [run_attempt, persistSidx]
  split_ifs
  · rw [run_perform calm]
    exact ⟨_, rfl, rfl, rfl, calm⟩
  · exact ⟨_, rfl, rfl, rfl, calm⟩

theorem run_loadSidxFile_rebuilt (opened : Opened w s) (field : String) (file : SidxFile) :
    ∃ t w', (loadSidxFile (N := N) true field file).run w = (.ok t, w') ∧
      Restored s.log (field, file) t ∧ w'.col = w.col ∧ Opened w' s := by
  obtain ⟨filled, rebuilt, sameField, -, exact⟩ :=
    Sidx.rebuild_exact ((newSecondaryIndex field false).load file).1 opened.disk.holds
  rw [Segments.map_fst_layout, ← opened.allSegments_eq] at rebuilt
  obtain ⟨latest, scanned, rfl⟩ := Option.map_eq_some_iff.mp rebuilt
  rw [field_load] at exact sameField
  have read := run_readLatest opened.calm (allSegments w.col) ∅
  rw [scanned] at read
  obtain ⟨w', written, col, files, calm⟩ := run_persistSidx_attempt opened.calm
    (((newSecondaryIndex field false).load file).1.fill latest)
  refine ⟨((newSecondaryIndex field false).load file).1.fill latest, w', ?_, ⟨sameField, exact⟩, col,
    opened.congr (by rw [col]) (by rw [col]) files calm⟩
  unfold loadSidxFile
  simp only [Bool.not_true, Bool.and_false, Bool.false_eq_true, if_false]
  rw [run_bind_ok (run_read _ w), run_bind_ok read, run_bind_ok written]
  rfl

/-- The indexes are restored from their files, one for each. -/
theorem run_loadSidx_rebuilt (opened : Opened w s) (files : List (String × SidxFile)) :
    ∃ added w', (loadSidx true files : Proc N Unit).run w = (.ok (), w') ∧
      w'.col = { w.col with sidx := w.col.sidx ++ added } ∧
      List.Forall₂ (Restored s.log) files added ∧ Opened w' s := by
  induction files generalizing w with
  | nil => exact ⟨[], w, rfl, by simp, .nil, opened⟩
  | cons pair files ih =>
    obtain ⟨t, w₁, first, restored, col, opened₁⟩ :=
      run_loadSidxFile_rebuilt opened pair.1 pair.2
    obtain ⟨added, w₂, later, col₂, others, opened₂⟩ := ih
      (w := { w₁ with col := { w₁.col with sidx := w₁.col.sidx ++ [t] } })
      (opened₁.congr rfl rfl rfl opened₁.calm)
    refine ⟨t :: added, w₂, ?_, ?_, .cons restored others, opened₂⟩
    · rw [loadSidx, run_bind_ok first, run_bind_ok (run_modify _ w₁)]
      exact later
    · rw [col₂, col]
      simp

theorem mem_sidxFiles (disk : Disk) (pair : String × SidxFile) :
    pair ∈ sidxFiles disk ↔ disk.sidx.lookup pair.1 = some pair.2 := by
  simp only [sidxFiles, List.mem_filterMap, Finset.mem_sort, Finmap.mem_keys,
    Option.map_eq_some_iff]
  constructor
  · rintro ⟨field, -, file, found, rfl⟩
    exact found
  · intro found
    exact ⟨pair.1, Finmap.mem_of_lookup_eq_some found, pair.2, found, rfl⟩

theorem nodup_sidxFiles (disk : Disk) : ((sidxFiles disk).map Prod.fst).Nodup := by
  have fields : (sidxFiles disk).map Prod.fst =
      (disk.sidx.keys.sort (· ≤ ·)).filter fun field => (disk.sidx.lookup field).isSome := by
    rw [sidxFiles, List.map_filterMap, ← List.filterMap_eq_filter]
    apply List.filterMap_congr
    intro field _
    rcases found : disk.sidx.lookup field with - | file
    · simp [Option.guard, found]
    · simp [Option.guard, found]
  rw [fields]
  exact (Finset.sort_nodup _ _).filter _

/-! ## The open as a whole -/

theorem run_loadCounter (calm : w.fault = none) :
    ∃ w', (loadCounter : Proc N Unit).run w = (.ok (), w') ∧
      w'.col = { w.col with idSeq := w'.col.idSeq } ∧ w'.disk.files = w.disk.files ∧
      w'.fault = none := by
  rw [loadCounter, run_bind_ok (run_read _ w)]
  split
  · exact ⟨_, rfl, rfl, rfl, calm⟩
  · rw [run_bind_ok (run_modify _ w), run_attempt, run_persistMeta]
    · exact ⟨_, rfl, rfl, rfl, calm⟩
    · exact calm

/-- The part of an open after the segments have been found. -/
def restore (recovered : Bool) : Proc N Unit := do
  let rebuilt ← loadIndex recovered
  let files ← Proc.read fun w => sidxFiles w.disk
  loadSidx rebuilt files
  loadCounter

/-- A collection as an open of a directory leaves it, with indexes that speak of
`log`. -/
structure Reopened (cfg : Config) (enc : Option (Encryptor N)) (disk : Disk) (w : World N)
    (s : Segments N) (log : List (Located N)) : Prop where
  cfg : w.col.cfg = cfg
  enc : w.col.enc = enc
  opened : Opened w s
  index : w.col.index = replay log
  sidx : List.Forall₂ (Restored log) (sidxFiles disk) w.col.sidx

/-- An open that does not use the index file rebuilds all indexes. -/
theorem run_restore_rebuilt (opened : Opened w s) (blank : w.col.sidx = [])
    (distrusts : Distrusts w recovered) :
    ∃ w', (restore recovered : Proc N Unit).run w = (.ok (), w') ∧
      Reopened w.col.cfg w.col.enc w.disk w' s s.log := by
  have loaded := run_loadIndex_rebuilt opened distrusts
  obtain ⟨added, w₂, later, col, restored, opened₂⟩ := run_loadSidx_rebuilt
    (w := afterRebuild w (replay s.log)) (opened.congr rfl rfl rfl opened.calm) (sidxFiles w.disk)
  obtain ⟨w', ended, col', files, calm⟩ := run_loadCounter opened₂.calm
  rw [col] at col'
  refine ⟨w', ?_, by rw [col']; rfl, by rw [col']; rfl, ?_, by rw [col']; rfl, ?_⟩
  · rw [restore, run_bind_ok loaded, run_bind_ok (run_read _ _)]
    exact (run_bind_ok later _).trans ended
  · exact opened₂.congr (by rw [col', col]) (by rw [col', col]) files calm
  · have sidx : w'.col.sidx = added := by
      rw [col']
      change w.col.sidx ++ added = added
      rw [blank, List.nil_append]
    rwa [sidx]

/-! ### Without an interrupted swap -/

omit [JsonNumber N] in
theorem run_removeFiles (calm : w.fault = none) (names : List FileName) :
    ∃ w', (removeFiles names : Proc N Unit).run w = (.ok (), w') ∧ w'.col = w.col ∧
      w'.feed = w.feed ∧ w'.fault = none ∧
      (∀ name, w'.disk.files.lookup name =
        if name ∈ names then none else w.disk.files.lookup name) ∧
      w'.disk = { w.disk with files := w'.disk.files } := by
  induction names generalizing w with
  | nil => exact ⟨w, rfl, rfl, rfl, calm, fun _ => rfl, rfl⟩
  | cons first names ih =>
    obtain ⟨w', run, col, feed, calm', lookup, disk⟩ :=
      ih (w := w.perform (.remove first)) calm
    refine ⟨w', ?_, col, feed, calm', ?_, disk⟩
    · rw [removeFiles, run_bind_ok (run_perform calm _)]
      exact run
    · intro name
      rw [lookup]
      simp only [World.disk_perform, DiskStep.apply, lookup_erase_if, List.mem_cons]
      by_cases later : name ∈ names
      · simp [later]
      · by_cases here : name = first
        · simp [here]
        · simp [later, here]

/-- The directory has lost its temporary files. -/
structure Swept (disk disk' : Disk) : Prop where
  segment : disk'.segment = disk.segment
  temps : ∀ name, name.isTemp → disk'.files.lookup name = none
  manifest : disk'.manifest = disk.manifest
  index : disk'.index = disk.index
  sidx : disk'.sidx = disk.sidx
  idCounter : disk'.idCounter = disk.idCounter

omit [JsonNumber N] in
theorem run_discardCompactTemps (calm : w.fault = none) :
    ∃ w', (discardCompactTemps : Proc N Unit).run w = (.ok (), w') ∧ w'.col = w.col ∧
      w'.feed = w.feed ∧ w'.fault = none ∧ Swept w.disk w'.disk := by
  obtain ⟨w', run, col, feed, calm', lookup, disk⟩ :=
    run_removeFiles calm (w.disk.names.filter FileName.isTemp)
  refine ⟨w', ?_, col, feed, calm', ?_⟩
  · rw [discardCompactTemps, run_bind_ok (run_read _ w)]
    exact run
  · refine ⟨?_, ?_, by rw [disk], by rw [disk], by rw [disk], by rw [disk]⟩
    · funext number
      rw [Disk.segment, lookup, if_neg]
      · rfl
      · intro member
        rw [List.mem_filter] at member
        cases member.2
    · intro name temp
      rw [lookup]
      split_ifs with listed
      · rfl
      · rw [List.mem_filter, not_and, Disk.mem_names] at listed
        exact Finmap.lookup_eq_none.mpr fun member => listed member temp

omit [JsonNumber N] in
theorem run_recover_clean (order : RenameOrder) (calm : w.fault = none)
    (clean : w.disk.manifest = none) :
    ∃ w', (recoverCompaction order : Proc N Bool).run w = (.ok false, w') ∧
      w'.col = w.col ∧ w'.feed = w.feed ∧ w'.fault = none ∧ Swept w.disk w'.disk := by
  obtain ⟨w', run, rest⟩ := run_discardCompactTemps calm
  refine ⟨w', ?_, rest⟩
  rw [recoverCompaction, run_bind_ok (run_read _ w), clean]
  exact run_bind_ok run _

theorem Swept.lies {disk disk' : Disk} {tail : Bytes} (swept : Swept disk disk')
    (lies : Lies disk s tail) : Lies disk' s tail := by
  obtain ⟨holds, last, started, only, unfinished, named⟩ := lies
  rw [← swept.segment] at holds last started only
  exact ⟨holds, last, started, only, unfinished, named⟩

/-- The sizes of segments. -/
def sizesOf (s : Segments N) (number : Nat) : Option Nat :=
  ((s.layout.find? fun segment => segment.1 = number).map fun segment =>
    (fileOf segment.2).length)

theorem Opened.segmentSizes_eq_sizesOf (opened : Opened w s) :
    segmentSizes w.col = sizesOf s := by
  funext number
  have handles : w.col.sealed ++ [w.col.active] = s.layout.map handleOf := by
    rw [opened.sealed, opened.active, Segments.layout, List.map_append, List.map_singleton]
  rw [segmentSizes, sizesOf, handles, List.find?_map, Option.map_map]
  rfl

/-- An open of a directory with these segments does not use its index file. -/
def Unusable (index : Option IndexFile) (s : Segments N) : Prop :=
  PrimaryIndex.load index = .error .notExist ∨ PrimaryIndex.load index = .error .stale ∨
    ∃ entries, PrimaryIndex.load index = .ok entries ∧ ¬ segmentsValid entries (sizesOf s)

/-- A collection before its directory has been read, and the directory. -/
def start (cfg : Config) (enc : Option (Encryptor N)) (disk : Disk) : World N :=
  ⟨blank cfg enc, disk, [], [], none⟩

section Clean

variable {cfg : Config} {enc : Option (Encryptor N)} {disk : Disk}

/-- An open that cannot use the index file speaks of every line. -/
theorem open_rebuilt {tail : Bytes} (order : RenameOrder) (clean : disk.manifest = none)
    (lies : Lies disk s tail) (unusable : Unusable disk.index s) :
    ∃ w, openCollection cfg enc order disk = (.ok (), w) ∧
      Reopened cfg enc disk w s s.log := by
  obtain ⟨w₁, recover, col, -, calm, swept⟩ :=
    run_recover_clean order (w := start cfg enc disk) rfl clean
  obtain ⟨w₂, segments, found⟩ := run_loadSegments calm (swept.lies lies)
  have distrusts : Distrusts w₂ false := by
    right
    rw [found.opened.segmentSizes_eq_sizesOf, found.index, swept.index]
    exact unusable
  have blank : w₂.col.sidx = [] := by
    rw [found.col, col]
    rfl
  obtain ⟨w₃, rest, reopened⟩ := run_restore_rebuilt found.opened blank distrusts
  refine ⟨w₃, ?_, ?_⟩
  · change (load order).run (start cfg enc disk) = _
    rw [Load.load, run_bind_ok recover, run_bind_ok segments]
    exact rest
  · rw [found.col, col] at reopened
    have files : sidxFiles w₂.disk = sidxFiles disk := by
      rw [sidxFiles, sidxFiles, found.sidx, swept.sidx]
      rfl
    exact ⟨reopened.cfg, reopened.enc, reopened.opened, reopened.index, files ▸ reopened.sidx⟩

/-- An open of a directory without segments starts the first one. -/
theorem open_empty (order : RenameOrder) (clean : disk.manifest = none)
    (empty : ∀ number, disk.segment number = none) (unindexed : disk.index = none) :
    ∃ w, openCollection cfg enc order disk = (.ok (), w) ∧
      Reopened cfg enc disk w (firstSegment N) [] := by
  have lies : Lies disk (firstSegment N) [] := by
    refine ⟨nofun, ?_, fun _ => ⟨rfl, rfl⟩, ?_, nofun, ?_⟩
    · rw [empty]
      rfl
    · intro number present
      rw [empty] at present
      cases present
    · intro number member
      rw [List.mem_singleton.mp member]
      exact (by decide : 1 < 10 ^ 6)
  refine open_rebuilt order clean lies (.inl ?_)
  rw [unindexed]
  rfl

end Clean

/-- Indexes restored from the files of different fields are exact and distinct. -/
theorem indexed_of_restored {files : List (String × SidxFile)} {indexes : List Sidx}
    (restored : List.Forall₂ (Restored log) files indexes)
    (distinct : (files.map Prod.fst).Nodup) : Indexed indexes log := by
  have fields : indexes.map Sidx.field = files.map Prod.fst := by
    induction restored with
    | nil => rfl
    | cons first _ ih =>
      rw [List.map_cons, List.nodup_cons] at distinct
      rw [List.map_cons, List.map_cons, first.field, ih distinct.2]
  refine ⟨?_, by rw [fields]; exact distinct⟩
  clear fields distinct
  induction restored with
  | nil => intro t member; cases member
  | cons first _ ih =>
    intro t member
    rcases List.mem_cons.mp member with rfl | later
    · rw [first.field]
      exact first.exact
    · exact ih t later

theorem Reopened.indexed {cfg : Config} {enc : Option (Encryptor N)} {disk : Disk}
    (reopened : Reopened cfg enc disk w s log) : Indexed w.col.sidx log :=
  indexed_of_restored reopened.sidx (nodup_sidxFiles disk)

/-- A reopened collection is coherent if its indexes speak of every line. -/
theorem Reopened.coherent {cfg : Config} {enc : Option (Encryptor N)} {disk : Disk}
    (reopened : Reopened cfg enc disk w s s.log) (written : ∀ e ∈ s.entries, Written e)
    (recorded : Recorded s.entries) (counted : ∀ e ∈ s.entries, e.id ≤ w.col.idSeq) :
    Coherent w s where
  sealed := reopened.opened.sealed
  active := reopened.opened.active
  disk := reopened.opened.disk
  index := reopened.index
  written := written
  recorded := recorded
  counted := counted
  indexed := reopened.indexed

end Scriva.Engine.Opening
