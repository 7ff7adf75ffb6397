import Scriva.Engine.Counts
import Scriva.Engine.Crash

/-!
# Batches across a process death

The lines of a batch carry nothing that groups them, so an open after a death
in the middle of a batch finds the records of the lines that are complete.  It
finds all of the batch or nothing of it when all lines are complete or none is.
-/

namespace Scriva.Engine.TornBatches

open Lib.Text Store.Record Store.Ndjson Segment PrimaryIndex Directory Engine.Collection Load
open Coherence Calls Batches Machine Opening Engine.Sequential Crash
open Counts (FitRun amid_reached noReturns_fresh reached shortLived)

variable {N : Type} [JsonNumber N]

/-! ## The steps of batches -/

section Steps

variable {enc : Option (Encryptor N)} {env : Env}

theorem traced_isFull : Traced enc (isFull : Proc N Bool) fun _ => True :=
  traced_read fun _ _ => trivial

theorem traced_finish (committed : List (Entry N)) :
    Traced enc (do
      syncActive
      publishCommit committed
      isFull : Proc N Bool) fun _ => True :=
  traced_syncActive.bind fun _ _ =>
    (traced_publishCommit committed).bind fun _ _ => traced_isFull

theorem traced_buildEntries (lawful : ∀ policy ∈ enc, Lawful policy) (expiresAt : Int)
    {records : List (Option (Data N))} (keep : ∀ data ∈ records, Keepable enc data)
    (position : Nat) : Traced enc (buildEntries env expiresAt records position)
      fun built => ∀ pair ∈ built, Storable pair.1 := by
  induction records generalizing position with
  | nil => exact traced_pure nofun
  | cons data records ih =>
    refine traced_reserveID.bind fun id _ => traced_readEnc.bind ?_
    rintro _ rfl
    refine (traced_check _).bind fun e sealed => ?_
    have storable : Storable e := by
      rcases sealEntryData_cases lawful (env.seed + position)
        (e := { newInsert id data env.ts with rev := 1, expiresAt })
        (keep data (.head _)) env.ts.2 with ⟨e', sealed', puts⟩ | ⟨error, failed, -⟩
      · rw [sealed] at sealed'
        obtain rfl := Except.ok.inj sealed'
        exact puts.storable
      · rw [sealed] at failed
        cases failed
    refine (ih (fun data member => keep data (.tail _ member))
      (position + 1)).bind fun rest others => traced_pure ?_
    intro pair member
    rcases List.mem_cons.mp member with rfl | later
    · exact storable
    · exact others pair later

theorem traced_putAll {built : List (Entry N × Option (Data N))}
    (storable : ∀ pair ∈ built, Storable pair.1) : Traced enc (putAll built) fun _ => True := by
  induction built with
  | nil => exact traced_pure trivial
  | cons pair built ih =>
    refine (traced_putEntry (storable pair (.head _)) _ _).bind fun _ _ => ?_
    exact ih fun other member => storable other (.tail _ member)

theorem traced_insertMany (lawful : ∀ policy ∈ enc, Lawful policy)
    {records : List (Option (Data N))} (keep : ∀ data ∈ records, Keepable enc data)
    (expiresAt : Option Int) :
    Traced enc (Collection.insertMany env records expiresAt) fun _ => True := by
  rw [Collection.insertMany]
  split_ifs
  · exact traced_pure trivial
  have readCfg : Traced enc (Proc.read fun w => w.col.cfg : Proc N Config) fun _ => True :=
    traced_read fun _ _ => trivial
  refine (traced_check _).bind fun _ _ => readCfg.bind fun cfg _ => ?_
  refine (traced_buildEntries lawful _ keep 0).bind fun built storable => ?_
  have inside : Traced enc (insertManyLocked env.ts built) fun _ => True :=
    traced_readCol.bind fun c _ => (traced_check _).bind fun _ _ =>
      (traced_check _).bind fun _ _ => (traced_putAll storable).bind fun _ _ =>
        traced_finish _
  exact inside.locked.bind fun full _ => (traced_rotateIf full).bind fun _ _ =>
    traced_pure trivial

theorem traced_txApplyAll {staged : List (TxOp N × Option (Data N))}
    (filled : ∀ pair ∈ staged, pair.1.kind ≠ .delete → pair.2 ≠ some Data.empty) :
    Traced enc (txApplyAll env staged) fun _ => True := by
  induction staged with
  | nil => exact traced_pure trivial
  | cons pair staged ih =>
    obtain ⟨op, stored⟩ := pair
    have first (c : Collection N) :
        Traced enc (txWrite op (txEntry env c op stored)) fun _ => True := by
      have utc : (60 : Int) ∣ op.ts.1.offset := by
        rw [op.ts.2]
        exact dvd_zero _
      have kept := filled (op, stored) (.head _)
      unfold txWrite txEntry
      cases kind : op.kind with
      | insert | update =>
        exact traced_putEntry ⟨utc, kept (by simp [kind])⟩ _ _
      | delete => exact traced_deleteEntry ⟨utc, nofun⟩
    have applied : Traced enc (txApply env op stored) fun _ => True :=
      traced_readCol.bind fun c _ => (first c).bind fun _ _ => traced_pure trivial
    refine applied.bind fun e _ => ?_
    have others := ih fun other member => filled other (.tail _ member)
    exact others.bind fun _ _ => traced_pure trivial

theorem traced_commitTx (lawful : ∀ policy ∈ enc, Lawful policy) {ops : List (TxOp N)}
    (keep : ∀ op ∈ ops, op.kind ≠ .delete → Keepable enc op.data) :
    Traced enc (Collection.commitTx env ops) fun _ => True := by
  have inside : Traced enc (commitTxLocked env ops) fun _ => True := by
    refine traced_readCol.bind fun c cipher => (traced_check _).bind fun _ _ => ?_
    refine (traced_check _).bind fun _ _ => (traced_check _).bind fun _ _ => ?_
    refine (traced_check _).bind fun staged sealed => ?_
    rw [cipher] at sealed
    have filled : ∀ pair ∈ staged, pair.1.kind ≠ .delete → pair.2 ≠ some Data.empty := by
      have planned : Plans.Planned _ _ (txSeal enc env.seed ops) := planned_txSeal lawful keep
      rw [sealed] at planned
      exact fun pair member put => (planned.2 pair member put).filled
    exact (traced_txApplyAll filled).bind fun committed _ => traced_finish committed
  rw [Collection.commitTx]
  split_ifs
  · exact traced_pure trivial
  · exact inside.locked.bind fun full _ => (traced_rotateIf full).bind fun _ _ =>
      traced_persistMeta.attempt
  · exact inside.locked.bind fun full _ => (traced_rotateIf full).bind fun _ _ =>
      traced_pure trivial

end Steps

/-! ## Reopening after a death -/

/-- The data that a batch writes. -/
def batchData : Call N → Option (List (Option (Data N)))
  | .insertMany records _ => some records
  | .commitTx ops => some ((ops.filter fun op => op.kind ≠ .delete).map TxOp.data)
  | _ => none

theorem traced_batch {enc : Option (Encryptor N)} (lawful : ∀ policy ∈ enc, Lawful policy)
    (env : Env) {call : Call N} {written : List (Option (Data N))}
    (batch : batchData call = some written) (keep : ∀ data ∈ written, Keepable enc data) :
    Traced enc (call.proc env) fun _ => True := by
  cases call with
  | insertMany records expiresAt =>
    obtain rfl := Option.some.inj batch
    exact (traced_insertMany lawful keep expiresAt).bind fun _ _ => traced_pure trivial
  | commitTx ops =>
    obtain rfl := Option.some.inj batch
    refine (traced_commitTx lawful fun op member put => ?_).bind fun _ _ => traced_pure trivial
    exact keep op.data (List.mem_map_of_mem (List.mem_filter.mpr ⟨member, by simp [put]⟩))
  | _ => cases batch

/-- An index file that an open does not use. -/
def Lost (index : Option IndexFile) : Prop :=
  PrimaryIndex.load index = .error .notExist ∨ PrimaryIndex.load index = .error .stale

section Reopening

variable {enc : Option (Encryptor N)} {disk : Disk} {s : Segments N}

/-- An open without an index file shows the versions of all complete lines. -/
theorem open_lost (cfg : Config) (order : RenameOrder) (clean : disk.manifest = none) {tail : Bytes}
    (stands : Stands disk s tail) {index : Option IndexFile} (lost : Lost index) :
    ∃ w, openCollection cfg enc order { disk with index } = (.ok (), w) ∧
      w.col.enc = enc ∧ Recalls w s s.log := by
  have unusable : Unusable index s := lost.imp_right .inl
  have stands' : Stands { disk with index } s tail :=
    ⟨stands.holds, stands.last, stands.only, stands.unfinished, stands.named⟩
  have clean' : ({ disk with index } : Disk).manifest = none := clean
  obtain ⟨w, opened, reopened⟩ := open_rebuilt order clean' stands'.lies unusable
  exact ⟨w, opened, reopened.enc, reopened.opened.allSegments_eq, reopened.opened.disk.holds,
    reopened.index, List.Subset.refl _⟩

/-- Two collections whose indexes speak of the same lines show the same
records. -/
theorem get_congr {w w' : World N} {s s' : Segments N} (recalls : Recalls w s s.log)
    (recalls' : Recalls w' s' s'.log) (same : s'.log = s.log) (enc : w'.col.enc = w.col.enc)
    (now : Int) (id : Nat) : get w' now id = get w now id := by
  rw [recalls.get_eq, recalls'.get_eq, same, enc]

/-- A collection with one record. -/
def served : World Int := reached (fresh smallConfig none .asWritten) shortLived

end Reopening

/-- After a death during a batch, an open that rebuilds the index shows what an
open before the batch or after it would have shown, if none of the batch's
lines is complete or all are. -/
theorem batch_death_all_or_nothing (cfg : Config) (enc : Option (Encryptor N))
    (order : RenameOrder) (lawful : ∀ policy ∈ enc, Lawful policy) (w : World N)
    (s : Segments N) (filed : Filed enc w s) (clean : w.disk.manifest = none) (env : Env)
    (call : Call N) (written : List (Option (Data N))) (batch : batchData call = some written)
    (keep : ∀ data ∈ written, Keepable enc data) (result : Except Error Reply) (w' : World N)
    (ran : (call.proc env).run w = (result, w')) (named : w'.col.active.number < 10 ^ 6)
    (done arrived : Nat) (index : Option IndexFile) (lost : Lost index) (crashed : Disk)
    (death : crashed = w.disk.crash (w'.trace.drop w.trace.length) done arrived)
    (whole : completeLines crashed = completeLines w.disk ∨
      result.isOk ∧ completeLines crashed = completeLines w'.disk) :
    ∃ before after reopened,
      openCollection cfg enc order { w.disk with index } = (.ok (), before) ∧
      openCollection cfg enc order { w'.disk with index } = (.ok (), after) ∧
      openCollection cfg enc order { crashed with index } = (.ok (), reopened) ∧
      ((∀ now id, get reopened now id = get before now id) ∨
        result.isOk ∧ ∀ now id, get reopened now id = get after now id) := by
  obtain ⟨⟨steps, s', logged, filed'⟩, -⟩ := traced_batch lawful env batch keep w s filed
  rw [ran] at logged filed'
  have last : s'.number < 10 ^ 6 := filed'.active ▸ named
  have taken : w'.trace.drop w.trace.length = steps := by
    rw [logged.trace, List.drop_left]
  rw [taken] at death
  obtain ⟨t, tail, stands, above, below, manifest⟩ :=
    logged.grows.crash filed.disk last done arrived
  rw [← death] at stands manifest
  have early := stands_of_onDisk filed.disk (logged.grows.number_le.trans_lt last)
  have late := stands_of_onDisk filed'.disk last
  have clean' : w'.disk.manifest = none := by
    rw [logged.disk, logged.grows.manifest_after, clean]
  obtain ⟨before, openedBefore, encBefore, recallsBefore⟩ := open_lost cfg order clean early lost
  obtain ⟨after, openedAfter, encAfter, recallsAfter⟩ := open_lost cfg order clean' late lost
  obtain ⟨reopened, opened, enc', recalls⟩ :=
    open_lost cfg order (manifest.trans clean) stands lost
  refine ⟨before, after, reopened, openedBefore, openedAfter, opened, ?_⟩
  rw [completeLines_of_stands stands, completeLines_of_stands early,
    completeLines_of_stands late] at whole
  rcases whole with none? | ⟨accepted, all?⟩
  · left
    have same := above.eq_of_length none?.symm
    exact get_congr recallsBefore recalls same.symm (enc'.trans encBefore.symm)
  · right
    have same := below.eq_of_length all?
    exact ⟨accepted, get_congr recallsAfter recalls same (enc'.trans encAfter.symm)⟩

theorem filed_of_coherent {w : World N} {s : Segments N} (coherent : Coherent w s)
    (calm : w.fault = none) : Filed w.col.enc w s where
  enc := rfl
  calm := calm
  attached := coherent.not_orphaned
  active := coherent.active_number
  sealed := by
    rw [coherent.sealed, List.map_map]
    rfl
  disk := coherent.disk

/-- A configuration with room for many lines in a segment. -/
def roomyConfig : Config := { smallConfig with segmentMaxSize := 4096 }

/-- A batch of two records. -/
def twoRecords : Call Int :=
  .insertMany [some (oneField "n" 5), some (oneField "n" 6)] none

/-- What is left when a new collection dies during the batch. -/
def deathAfter (done arrived : Nat) : Disk :=
  (fresh roomyConfig none .asWritten : World Int).disk.crash
    (((twoRecords.proc stillEnv).run (fresh roomyConfig none .asWritten)).2.trace.drop
      (fresh roomyConfig none .asWritten : World Int).trace.length) done arrived

theorem batch_death_small :
    ∃ before after reopened : World Int,
      openCollection roomyConfig none .asWritten
        { (fresh roomyConfig none .asWritten : World Int).disk with index := none } =
          (.ok (), before) ∧
      openCollection roomyConfig none .asWritten
        { ((twoRecords.proc stillEnv).run (fresh roomyConfig none .asWritten)).2.disk with
          index := none } = (.ok (), after) ∧
      openCollection roomyConfig none .asWritten { deathAfter 2 0 with index := none } =
        (.ok (), reopened) ∧
      ((∀ now id, get reopened now id = get before now id) ∨
        ((twoRecords.proc stillEnv).run (fresh roomyConfig none .asWritten)).1.isOk ∧
          ∀ now id, get reopened now id = get after now id) := by
  have unencrypted : ∀ policy ∈ (none : Option (Encryptor Int)), Lawful policy :=
    nofun
  obtain ⟨amid, -, enc⟩ := amid_fresh roomyConfig .asWritten unencrypted
  have filed := filed_of_coherent amid.coherent amid.calm
  rw [enc] at filed
  refine batch_death_all_or_nothing roomyConfig none .asWritten unencrypted _ _ filed ?_ stillEnv
    twoRecords _ rfl ?_ _ _ rfl ?_ 2 0 none (.inl rfl) (deathAfter 2 0) rfl (.inr ⟨?_, ?_⟩)
  · decide +kernel
  · intro data member
    fin_cases member
    · exact .inl (by decide)
    · exact .inl (by decide)
  · decide +kernel
  · decide +kernel
  · decide +kernel

/-- The first of two records survives the death of the process between their
lines, and the second does not. -/
theorem insertMany_death_splits :
    ∃ w : World Int,
      openCollection roomyConfig none .asWritten { deathAfter 1 0 with index := none } =
        (.ok (), w) ∧
      (get w 0 1).toOption.isSome = true ∧ (get w 0 2).toOption.isNone = true := by
  have opens : (openCollection roomyConfig none .asWritten
      { deathAfter 1 0 with index := none } : Except Error Unit × World Int).1 = .ok () := by
    decide +kernel
  refine ⟨_, Prod.ext opens rfl, ?_, ?_⟩
  · decide +kernel
  · decide +kernel

end Scriva.Engine.TornBatches
