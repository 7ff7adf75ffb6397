import Scriva.Engine.Applying
import Scriva.Engine.Load

/-!
# The indexes that a procedure makes

Which fields have an index in memory or in a file is changed by few steps: one
registers an index after the policy has been asked, one drops it, and index
files are written for indexes that are in memory.  So if every field that the
policy leaves plain satisfies a condition and every field with an index does,
each step of each procedure keeps it so.
-/

namespace Scriva.Engine.Footprint

open Lib.Keyed Store.Record Store.Ndjson PrimaryIndex SecondaryIndex Directory Engine.Collection
open Compactor Load Machine Interleaving Engine.Turns
open Calls (Exposed)
open Applying (applyEntry applyLocked applyPut applyDelete finishApply raiseIdSeq)

variable {N : Type}

/-! ## Fields with an index -/

/-- A field has an index in memory or in a file. -/
def Indexed (w : World N) (field : String) : Prop :=
  field ∈ w.col.sidx.map Sidx.field ∨ field ∈ w.disk.sidx

/-- The policy satisfies a condition, and so does every field with an index. -/
structure Within (governs : Option (Encryptor N) → Prop) (shown : String → Prop)
    (w : World N) : Prop where
  enc : governs w.col.enc
  indexed : ∀ field, Indexed w field → shown field

variable {governs : Option (Encryptor N) → Prop} {shown : String → Prop}

variable {w w' : World N} {disk : Disk} {field : String} {f : Collection N → Collection N}
  {β : Type}

/-- Only indexes on shown fields are added. -/
theorem Within.grow (within : Within governs shown w) (enc : w'.col.enc = w.col.enc)
    (memory : ∀ field ∈ w'.col.sidx.map Sidx.field,
      field ∈ w.col.sidx.map Sidx.field ∨ shown field)
    (files : ∀ field ∈ w'.disk.sidx, field ∈ w.disk.sidx ∨ shown field) :
    Within governs shown w' where
  enc := by
    rw [enc]
    exact within.enc
  indexed := by
    rintro field (inMemory | inFile)
    · rcases memory field inMemory with before | allowed
      · exact within.indexed field (Or.inl before)
      · exact allowed
    · rcases files field inFile with before | allowed
      · exact within.indexed field (Or.inr before)
      · exact allowed

/-- Neither the policy nor the fields of the indexes change. -/
theorem Within.same (within : Within governs shown w) (enc : w'.col.enc = w.col.enc)
    (memory : w'.col.sidx.map Sidx.field = w.col.sidx.map Sidx.field)
    (files : w'.disk.sidx = w.disk.sidx) : Within governs shown w' :=
  within.grow enc (fun _ member => Or.inl (memory ▸ member))
    fun _ member => Or.inl (files ▸ member)

instance : Lenient (Within governs shown : World N → Prop) where
  same within aside files := within.same aside.enc (by rw [aside.sidx]) files

/-! ## Steps -/

/-- The fields whose file a step may write. -/
def DiskStep.indexes : DiskStep → Option String
  | .writeSidx field _ => some field
  | _ => none

theorem mem_sidx_apply {step : DiskStep} (member : field ∈ (step.apply disk).sidx) :
    field ∈ disk.sidx ∨ DiskStep.indexes step = some field := by
  cases step with
  | create name =>
    rw [DiskStep.apply] at member
    split_ifs at member
    · exact Or.inl member
    · exact Or.inl member
  | rename source target =>
    rw [DiskStep.apply] at member
    split at member
    · exact Or.inl member
    · exact Or.inl member
  | writeSidx other file =>
    rcases Finmap.mem_insert.mp member with rfl | before
    · exact Or.inr rfl
    · exact Or.inl before
  | removeSidx other => exact Or.inl (Finmap.mem_erase.mp member).2
  | append | truncate | remove | writeManifest | removeManifest | writeIndex | writeMeta =>
    exact Or.inl member

theorem mem_sidx_torn {step : DiskStep} {arrived : Nat}
    (member : field ∈ (step.torn disk arrived).sidx) :
    field ∈ disk.sidx ∨ DiskStep.indexes step = some field := by
  have whole : ∀ disk' : Disk, disk' = (if arrived = 0 then disk else step.apply disk) →
      field ∈ disk'.sidx → field ∈ disk.sidx ∨ DiskStep.indexes step = some field := by
    rintro _ rfl member
    split_ifs at member
    · exact Or.inl member
    · exact mem_sidx_apply member
  cases step with
  | append name bytes => exact Or.inl member
  | create | truncate | remove | rename | writeManifest | removeManifest | writeIndex |
      writeSidx | removeSidx | writeMeta => exact whole _ rfl member

theorem guards_step {step : DiskStep}
    (allowed : ∀ field, DiskStep.indexes step = some field → shown field) :
    Guards (Within governs shown) (Proc.perform step : Proc N Unit) := by
  refine guards_perform ?_
  rintro ⟨col, disk, feed, trace, fault⟩ within
  have grown : ∀ disk' : Disk,
      (∀ field ∈ disk'.sidx, field ∈ disk.sidx ∨ DiskStep.indexes step = some field) →
        ∀ feed trace fault, Within governs shown (⟨col, disk', feed, trace, fault⟩ : World N) :=
    fun disk' added feed trace fault =>
      within.grow rfl (fun _ member => Or.inl member) fun field member =>
        (added field member).imp_right (allowed field)
  rcases fault with - | ⟨- | later, arrived⟩
  · exact grown _ (fun _ => mem_sidx_apply) _ _ _
  · exact grown _ (fun _ => mem_sidx_torn) _ _ _
  · exact grown _ (fun _ => mem_sidx_apply) _ _ _

theorem guards_update (enc : ∀ c, (f c).enc = c.enc)
    (memory : ∀ c, (f c).sidx.map Sidx.field = c.sidx.map Sidx.field) :
    Guards (Within governs shown) (Proc.modify f : Proc N Unit) :=
  guards_modify fun w within => within.same (enc w.col) (memory w.col) rfl

theorem guards_change {next : Unit → Proc N β}
    (later : ∀ value, Guards (Within governs shown) (next value)) (enc : ∀ c, (f c).enc = c.enc)
    (memory : ∀ c, (f c).sidx.map Sidx.field = c.sidx.map Sidx.field) :
    Guards (Within governs shown) (Proc.modify f >>= next) :=
  (guards_update enc memory).bind later

/-! ## Writes -/

variable [JsonNumber N]

theorem field_follow (id : Nat) (data : Option (Data N)) (follow : Follow) (s : Sidx) :
    (follow.apply id data s).field = s.field := by
  cases follow with
  | index => exact Sidx.field_indexEntry s id data
  | move => exact Sidx.field_updateEntry s id data

theorem entries_within :
    Entries (fun _ => True) (Within governs shown : World N → Prop) where
  known _ _ := trivial
  set _ _ _ within := within.same rfl rfl rfl
  follow id plain follow within := by
    refine within.same rfl ?_ rfl
    rw [followEntry, List.map_map]
    exact List.map_congr_left fun s _ => field_follow id plain follow s
  drop _ within := within.same rfl rfl rfl
  unfollow id within := by
    refine within.same rfl ?_ rfl
    rw [unfollowEntry, List.map_map]
    exact List.map_congr_left fun s _ => Sidx.field_remove s id

/-! ## Making and dropping indexes -/

theorem guards_rebuildSidx (field : String) (segments : List Nat) :
    Guards (Within governs shown) (rebuildSidx field segments : Proc N Unit) := by
  refine (guards_readLatest guards_flush segments ∅).bind fun latest => guards_update (fun _ => rfl) fun c => ?_
  rw [fillIndex, List.map_map]
  refine List.map_congr_left fun s _ => ?_
  dsimp only [Function.comp_apply]
  split_ifs
  · exact (Sidx.flags_fill s latest).1
  · rfl

variable {s : Sidx}

section

omit [JsonNumber N]

theorem guards_persistSidx (allowed : shown s.field) :
    Guards (Within governs shown) (persistSidx s : Proc N Unit) := by
  rw [persistSidx]
  split_ifs
  · refine guards_step fun field writes => ?_
    cases writes
    exact allowed
  · exact guards_done _

theorem findIndex_field {c : Collection N} (found : findIndex c field = some s) :
    s ∈ c.sidx ∧ s.field = field :=
  ⟨List.mem_of_find?_eq_some found, by simpa using List.find?_some found⟩

theorem guards_persistIndexOn (field : String) :
    Guards (Within governs shown) (persistIndexOn field : Proc N Unit) := by
  refine guards_read fun w within => ?_
  rcases found : findIndex w.col field with - | s
  · exact guards_done _
  · refine guards_persistSidx (within.indexed _ (Or.inl ?_))
    exact List.mem_map_of_mem (findIndex_field found).1

theorem guards_registerIndex (allowed : shown field) (unique : Bool) :
    Guards (Within governs shown) (registerIndex field unique : Proc N Bool) := by
  refine fun w within => ⟨?_, trivial⟩
  dsimp only
  split_ifs
  · exact within
  · refine within.grow rfl (fun other member => ?_) fun _ member => Or.inl member
    rw [List.map_append] at member
    rcases List.mem_append.mp member with before | added
    · exact Or.inl before
    · rw [List.mem_singleton.mp added]
      exact Or.inr allowed

theorem guards_dropIndexEntry (field : String) :
    Guards (Within governs shown) (Proc.modify (dropIndexEntry field) : Proc N Unit) := by
  refine guards_modify fun w within => within.grow rfl (fun other member => Or.inl ?_)
    fun _ member => Or.inl member
  obtain ⟨s, kept, rfl⟩ := List.mem_map.mp member
  exact List.mem_map_of_mem (List.mem_of_mem_filter kept)

end

/-- The check at the start of `ensureIndex` lets only shown fields pass. -/
theorem guards_ensureIndex
    (gate : ∀ enc, governs enc → ∀ field, Exposed enc field → shown field)
    (field : String) (unique : Bool) :
    Guards (Within governs shown) (ensureIndex field unique : Proc N Unit) := by
  refine guards_read fun w within => ?_
  split_ifs with hidden
  · exact guards_done _
  · have allowed : shown field := by
      refine gate w.col.enc within.enc field fun policy active => ?_
      rw [Option.mem_def] at active
      rw [active] at hidden
      simpa using hidden
    refine (guards_registerIndex allowed unique).bind fun fresh => ?_
    split_ifs
    · exact guards_look fun segments => ((guards_rebuildSidx field segments).onError
        (guards_dropIndexEntry field)).bind fun _ => guards_persistIndexOn field
    · exact guards_done _

omit [JsonNumber N] in
theorem guards_dropIndex (field : String) :
    Guards (Within governs shown) (dropIndex field : Proc N Unit) := by
  refine guards_look fun found => ?_
  split_ifs
  · refine (guards_dropIndexEntry field).bind fun _ => Guards.attempt (guards_step ?_)
    exact nofun
  · exact guards_done _

/-! ## Requests -/

section Gated

variable (gate : ∀ enc, governs enc → ∀ field, Exposed enc field → shown field)
include gate

theorem sections_within : Sections (Within governs shown : World N → Prop) :=
  entries_within.sections (guards_ensureIndex gate)

theorem guards_applyEntry (e : Entry N) : Guards (Within governs shown) (applyEntry e) := by
  have finished (id : Nat) : Guards (Within governs shown) (finishApply id : Proc N Bool) :=
    guards_change (fun _ => guards_syncActive.bind fun _ => guards_isFull) (fun _ => rfl)
      fun _ => rfl
  have applied : Guards (Within governs shown) (applyLocked e) := by
    refine guards_look fun cur => ?_
    have put : Guards (Within governs shown) (applyPut e cur) := by
      rw [applyPut]
      split_ifs
      · exact guards_done _
      · exact (entries_within.put trivial _ _).bind fun _ => finished _
      · exact (entries_within.put trivial _ _).bind fun _ => finished _
    cases e.op with
    | delete =>
      change Guards _ (applyDelete e cur)
      rw [applyDelete]
      split_ifs
      · exact guards_done _
      · exact (entries_within.delete _).bind fun _ => finished _
    | insert => exact put
    | update => exact put
    | other name rest => exact guards_done _
  rw [applyEntry]
  split_ifs
  · exact (guards_ensureIndex gate _ _).bind fun _ => applied.locked.bind fun _ =>
      guards_rotateIf _
  · exact applied.locked.bind fun _ => guards_rotateIf _

end Gated

/-! ## Passes -/

theorem guards_scanResolved (segments : List Nat) (latest : Map Nat (Entry N)) :
    Guards (Within governs shown) (scanResolved segments latest) := by
  induction segments generalizing latest with
  | nil => exact guards_done _
  | cons segment segments ih =>
    refine guards_flush.bind fun _ => guards_look fun entries => ?_
    rcases entries with - | entries
    · exact guards_done _
    · exact ih _

omit [JsonNumber N] in
theorem guards_newTemp (number : Nat) :
    Guards (Within governs shown) (newTemp number : Proc N TempSegment) :=
  (guards_openActiveSegment _).bind fun _ => guards_done _

theorem guards_appendTemp (temp : TempSegment) (e : Entry N) :
    Guards (Within governs shown) (appendTemp temp e) :=
  (guards_done _).bind fun _ => (guards_aside rfl).bind fun _ => guards_done _

theorem guards_writeEntries (maxSize : Nat) (entries : List (Entry N))
    (finished : List TempSegment) (current : TempSegment) (next : Nat) :
    Guards (Within governs shown) (writeEntries maxSize entries finished current next) := by
  induction entries generalizing finished current next with
  | nil => exact guards_flush.bind fun _ => guards_done _
  | cons e entries ih =>
    rw [writeEntries]
    split_ifs
    · exact guards_flush.bind fun _ => (guards_newTemp next).bind fun _ =>
        (guards_appendTemp _ _).bind fun _ => ih _ _ _
    · exact (guards_appendTemp _ _).bind fun _ => ih _ _ _

theorem guards_copyInto (source target : TempSegment) :
    Guards (Within governs shown) (copyInto source target : Proc N TempSegment) := by
  have appended (entries : List (Entry N)) (temp : TempSegment) :
      Guards (Within governs shown) (appendAll entries temp) := by
    induction entries generalizing temp with
    | nil => exact guards_done _
    | cons e entries ih => exact (guards_appendTemp _ _).bind fun _ => ih _
  refine guards_flush.bind fun _ => guards_look fun entries => ?_
  rcases entries with - | entries
  · exact guards_done _
  · exact appended entries target

theorem guards_mergeSegments (a b : TempSegment) :
    Guards (Within governs shown) (mergeSegments a b : Proc N TempSegment) :=
  (guards_openActiveSegment _).bind fun _ => (guards_copyInto _ _).bind fun _ =>
    (guards_copyInto _ _).bind fun _ => guards_flush.bind fun _ => guards_done _

theorem guards_rebalance (maxSize : Nat) (temps : List TempSegment) :
    Guards (Within governs shown) (rebalance maxSize temps : Proc N (List TempSegment)) := by
  fun_induction rebalance (N := N) maxSize temps with
  | case1 => exact guards_done _
  | case2 s => exact guards_done _
  | case3 s next rest large ih => exact ih.bind fun _ => guards_done _
  | case4 s next rest small fits ih =>
    exact (guards_mergeSegments s next).bind fun _ => (guards_aside rfl).attempt.bind fun _ =>
      (guards_aside rfl).attempt.bind fun _ => ih.bind fun _ => guards_done _
  | case5 s next rest small wide ih => exact ih.bind fun _ => guards_done _

theorem guards_preparePass (env : PassEnv) (toCompact : List Nat) :
    Guards (Within governs shown) (preparePass env toCompact : Proc N (List TempSegment)) := by
  refine Guards.bind ((guards_scanResolved toCompact ∅).bind fun _ => guards_done _) fun _ =>
    guards_look fun _ => (guards_done _).bind fun resolved => guards_look fun maxSize => ?_
  rw [writeCompacted]
  split_ifs
  · exact guards_done _
  · exact (guards_newTemp 1).bind fun _ => (guards_writeEntries _ _ _ _ _).bind fun _ =>
      guards_rebalance _ _

theorem guards_rebuildIndex : Guards (Within governs shown) (rebuildIndex : Proc N Unit) := by
  refine guards_flush.bind fun _ => guards_look fun rebuilt => ?_
  rcases rebuilt with - | index
  · exact guards_done _
  · exact guards_update (fun _ => rfl) fun _ => rfl

theorem guards_swapPass (manifest : CompactManifest) :
    Guards (Within governs shown) (swapPass manifest : Proc N Unit) := by
  have renamed (renames : List (FileName × Nat)) :
      Guards (Within governs shown) (renameTemps renames : Proc N (List Handle)) := by
    induction renames with
    | nil => exact guards_done _
    | cons first renames ih =>
      refine (guards_aside rfl).bind fun _ => guards_change (fun _ => guards_look fun _ =>
        ih.bind fun _ => guards_done _) (fun c => ?_) fun c => ?_
      · rw [replaceFile]
        split_ifs
        · rfl
        · rfl
      · rw [replaceFile]
        split_ifs
        · rfl
        · rfl
  have removed (numbers : List Nat) :
      Guards (Within governs shown) (removeSegments numbers : Proc N Unit) := by
    induction numbers with
    | nil => exact guards_done _
    | cons number numbers ih => exact (guards_aside rfl).attempt.bind fun _ => ih
  exact Guards.locked ((renamed _).bind fun _ => (removed _).bind fun _ =>
    guards_change (fun _ => guards_rebuildIndex) (fun _ => rfl) fun _ => rfl)

omit [JsonNumber N] in
theorem guards_persistIndex : Guards (Within governs shown) (persistIndex : Proc N Unit) :=
  guards_look fun _ => guards_aside rfl

theorem guards_rebuildIndexes (segments : List Nat) (fields : List String) :
    Guards (Within governs shown) (rebuildIndexes segments fields : Proc N Unit) := by
  induction fields with
  | nil => exact guards_done _
  | cons field fields ih =>
    exact (guards_rebuildSidx field segments).bind fun _ =>
      (guards_persistIndexOn field).attempt.bind fun _ => ih

omit [JsonNumber N] in
theorem guards_clearCompactManifest :
    Guards (Within governs shown) (clearCompactManifest : Proc N Unit) :=
  (guards_aside rfl).bind fun _ => guards_flush

theorem guards_compact (force : Bool) (env : PassEnv) :
    Guards (Within governs shown) (compact force env : Proc N Unit) := by
  have finished : Guards (Within governs shown) (finishPass : Proc N Unit) :=
    guards_persistIndex.bind fun _ => guards_look fun fields => guards_look fun segments =>
      (guards_rebuildIndexes segments fields).bind fun _ => guards_clearCompactManifest
  refine guards_look fun toCompact => ?_
  split_ifs
  · exact guards_done _
  · refine guards_look fun worth => ?_
    split_ifs
    · exact guards_done _
    · exact (guards_preparePass env toCompact).bind fun temps => (guards_aside rfl).bind fun _ =>
        (guards_swapPass _).bind fun _ => finished

theorem guards_migrateNow (env : Env) (pass : PassEnv) :
    Guards (Within governs shown) (migrateNow env pass : Proc N Unit) := by
  refine guards_look fun enc => ?_
  split_ifs
  · exact guards_done _
  · refine Guards.bind (guards_look fun activeHasData => ?_) fun _ =>
      (guards_reapExpired fun ids => (entries_within.reapLocked env ids).locked).bind fun _ =>
        guards_compact true pass
    split_ifs
    · exact guards_rotateSegment
    · exact guards_done _

/-! ## Opening and closing -/

section

omit [JsonNumber N]

theorem guards_close : Guards (Within governs shown) (close : Proc N Unit) := by
  have persisted (indexes : List Sidx) (allowed : ∀ s ∈ indexes, shown s.field) :
      Guards (Within governs shown) (persistIndexes indexes : Proc N Unit) := by
    induction indexes with
    | nil => exact guards_done _
    | cons s rest ih =>
      exact (guards_persistSidx (allowed s (.head _))).attempt.bind fun _ =>
        ih fun t member => allowed t (List.mem_cons_of_mem s member)
  exact Guards.locked (guards_flush.bind fun _ => guards_persistIndex.bind fun _ =>
    guards_read fun w within => (persisted _ fun s member =>
      within.indexed _ (Or.inl (List.mem_map_of_mem member))).bind fun _ => guards_persistMeta)

theorem guards_removeFiles (names : List FileName) :
    Guards (Within governs shown) (removeFiles names : Proc N Unit) := by
  induction names with
  | nil => exact guards_done _
  | cons name names ih => exact (guards_aside rfl).bind fun _ => ih

theorem guards_recoverCompaction (order : RenameOrder) :
    Guards (Within governs shown) (recoverCompaction order : Proc N Bool) := by
  have forward (renames : List (FileName × Nat)) :
      Guards (Within governs shown) (rollForward renames : Proc N Unit) := by
    induction renames with
    | nil => exact guards_done _
    | cons first renames ih =>
      refine guards_look fun outstanding => ?_
      split_ifs
      · exact (guards_aside rfl).bind fun _ => ih
      · exact ih
  have discarded : Guards (Within governs shown) (discardCompactTemps : Proc N Unit) :=
    guards_look fun names => guards_removeFiles names
  refine guards_look fun manifest => ?_
  rcases manifest with - | manifest
  · exact discarded.bind fun _ => guards_done _
  · exact (forward _).bind fun _ => (guards_removeFiles _).bind fun _ => discarded.bind fun _ =>
      guards_flush.bind fun _ => guards_clearCompactManifest.bind fun _ => guards_done _

theorem guards_loadSegments : Guards (Within governs shown) (loadSegments : Proc N Unit) :=
  guards_look fun _ => guards_change (fun _ => guards_look fun _ => guards_change (fun _ =>
    (guards_openActiveSegment _).bind fun _ => guards_update (fun _ => rfl) fun _ => rfl)
      (fun _ => rfl) fun _ => rfl) (fun _ => rfl) fun _ => rfl

end

theorem guards_loadIndex (swapRecovered : Bool) :
    Guards (Within governs shown) (loadIndex swapRecovered : Proc N Bool) := by
  have rebuilt : Guards (Within governs shown) (do
      rebuildAndPersist
      return true : Proc N Bool) :=
    Guards.bind (guards_rebuildIndex.bind fun _ => guards_persistIndex.attempt) fun _ =>
      guards_done _
  rw [loadIndex]
  split_ifs
  · exact rebuilt
  · refine guards_look fun w => ?_
    split
    · exact guards_done _
    · exact rebuilt
    · exact rebuilt
    · split_ifs
      · exact guards_change (fun _ => guards_done _) (fun _ => rfl) fun _ => rfl
      · exact rebuilt

/-- An index that is loaded or rebuilt from its file is on the field of the
file. -/
theorem guards_loadSidxFile {next : Sidx → Proc N β} (rebuilt : Bool) (field : String)
    (file : SidxFile) (allowed : shown field)
    (later : ∀ s, s.field = field → Guards (Within governs shown) (next s)) :
    Guards (Within governs shown) (loadSidxFile rebuilt field file >>= next) := by
  have named : ((newSecondaryIndex field false).load file).1.field = field := by
    cases file with
    | malformed => rfl
    | file =>
      rw [Sidx.load]
      split_ifs
      · rfl
      · rfl
  rw [loadSidxFile]
  dsimp only
  split_ifs
  · exact later _ named
  · rw [Proc.bind_assoc]
    refine guards_look fun segments => ?_
    rw [Proc.bind_assoc]
    refine (guards_readLatest guards_flush segments ∅).bind fun latest => ?_
    have filled := (Sidx.flags_fill ((newSecondaryIndex field false).load file).1 latest).1.trans named
    rw [Proc.bind_assoc]
    refine (guards_persistSidx ?_).attempt.bind fun _ => later _ filled
    rw [filled]
    exact allowed

theorem guards_loadSidx (rebuilt : Bool) (files : List (String × SidxFile))
    (allowed : ∀ file ∈ files, shown file.1) :
    Guards (Within governs shown) (loadSidx rebuilt files : Proc N Unit) := by
  induction files with
  | nil => exact guards_done _
  | cons first rest ih =>
    obtain ⟨field, file⟩ := first
    have here : shown field := allowed _ (.head _)
    refine guards_loadSidxFile rebuilt field file here fun s named => Guards.bind ?_ fun _ =>
      ih fun other member => allowed other (.tail _ member)
    refine guards_modify fun w within => within.grow rfl (fun other member => ?_)
      fun _ member => Or.inl member
    rw [List.map_append] at member
    rcases List.mem_append.mp member with before | added
    · exact Or.inl before
    · rw [List.mem_singleton.mp added, named]
      exact Or.inr here

theorem guards_loadCounter : Guards (Within governs shown) (loadCounter : Proc N Unit) := by
  refine guards_look fun w => ?_
  split
  · exact guards_update (fun _ => rfl) fun _ => rfl
  · exact guards_change (fun _ => guards_persistMeta.attempt) (fun _ => rfl) fun _ => rfl

/-- Opening a collection makes no index without a file. -/
theorem guards_load (order : RenameOrder) :
    Guards (Within governs shown) (load order : Proc N Unit) := by
  refine (guards_recoverCompaction order).bind fun _ => guards_loadSegments.bind fun _ =>
    (guards_loadIndex _).bind fun rebuilt => guards_read fun w within =>
      (guards_loadSidx rebuilt _ fun file member => within.indexed _ (Or.inr ?_)).bind fun _ =>
        guards_loadCounter
  obtain ⟨field, listed, found⟩ := List.mem_filterMap.mp member
  obtain ⟨content, -, rfl⟩ := Option.map_eq_some_iff.mp found
  exact Finmap.mem_keys.mp ((Finset.mem_sort _).mp listed)

end Scriva.Engine.Footprint
