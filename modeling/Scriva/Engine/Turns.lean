import Scriva.Engine.Interleaving
import Scriva.Engine.LoadJsonl
import Scriva.Engine.Calls

/-!
# Requests that take turns

What the procedures of the engine have in common when a condition on the world is
to be kept at every turn.  Most of their steps write lines or files aside and
change neither the policy nor an index; a condition that allows all of those is
`Lenient`.  What is left are the critical sections, and if each of them keeps a
lenient condition, every request does.
-/

namespace Scriva.Engine.Turns

open Store.Record Store.Ndjson PrimaryIndex SecondaryIndex Directory Engine.Collection Machine
open LoadJsonl Interleaving
open Calls (id_of_sealed)

variable {N : Type}

/-! ## Steps aside -/

/-- The configuration, the policy and the indexes are the same. -/
structure Aside (c c' : Collection N) : Prop where
  cfg : c'.cfg = c.cfg
  enc : c'.enc = c.enc
  index : c'.index = c.index
  sidx : c'.sidx = c.sidx

theorem Aside.refl (c : Collection N) : Aside c c :=
  ⟨rfl, rfl, rfl, rfl⟩

/-- A condition that asks for nothing but the configuration, the policy, the
indexes and the fields with an index file. -/
class Lenient (kept : World N → Prop) : Prop where
  same : ∀ {w w' : World N}, kept w → Aside w.col w'.col →
    w'.disk.sidx = w.disk.sidx → kept w'

/-- A lenient condition that may ask for the ids taken as well. -/
class Tolerant (kept : World N → Prop) : Prop where
  same : ∀ {w w' : World N}, kept w → Aside w.col w'.col → w'.col.idSeq = w.col.idSeq →
    w'.disk.sidx = w.disk.sidx → kept w'

instance (kept : World N → Prop) [Lenient kept] : Tolerant kept :=
  ⟨fun holds aside _ => Lenient.same holds aside⟩

/-- A condition that does not ask for the secondary indexes. -/
class Indexless (kept : World N → Prop) : Prop where
  sidx : ∀ {w : World N} (sidx : List Sidx), kept w → kept { w with col := { w.col with sidx } }
  flush : ∀ w : World N, kept w → kept w.tryAccess
  persist : ∀ (w : World N) field file, kept w → kept (w.tryPerform (.writeSidx field file))

theorem Indexless.of_col (asked : Collection N → Prop)
    (same : ∀ c sidx, asked c → asked { c with sidx }) : Indexless fun w => asked w.col where
  sidx sidx holds := same _ sidx holds
  flush w holds := by rwa [World.col_tryAccess]
  persist w field file holds := by rwa [World.col_tryPerform]

/-- The fields whose file a step may write or remove. -/
def DiskStep.indexFile : DiskStep → Option String
  | .writeSidx field _ => some field
  | .removeSidx field => some field
  | _ => none

theorem sidx_apply {step : DiskStep} (aside : DiskStep.indexFile step = none) (disk : Disk) :
    (step.apply disk).sidx = disk.sidx := by
  cases step with
  | create name =>
    rw [DiskStep.apply]
    split_ifs
    · rfl
    · rfl
  | rename source target =>
    rw [DiskStep.apply]
    split
    · rfl
    · rfl
  | writeSidx field file => cases aside
  | removeSidx field => cases aside
  | append | truncate | remove | writeManifest | removeManifest | writeIndex | writeMeta => rfl

theorem sidx_torn {step : DiskStep} (aside : DiskStep.indexFile step = none) (disk : Disk)
    (arrived : Nat) : (step.torn disk arrived).sidx = disk.sidx := by
  have whole : (if arrived = 0 then disk else step.apply disk).sidx = disk.sidx := by
    split_ifs
    · rfl
    · exact sidx_apply aside disk
  cases step with
  | append name bytes => rfl
  | create | truncate | remove | rename | writeManifest | removeManifest | writeIndex |
      writeSidx | removeSidx | writeMeta => exact whole

theorem sidx_tryPerform {step : DiskStep} (aside : DiskStep.indexFile step = none) (w : World N) :
    (w.tryPerform step).disk.sidx = w.disk.sidx := by
  unfold World.tryPerform
  split
  · exact sidx_apply aside w.disk
  · exact sidx_torn aside w.disk _
  · exact sidx_apply aside w.disk

section Steps

variable {kept : World N → Prop}

theorem guards_look {α β : Type} {f : World N → α} {next : α → Proc N β}
    (later : ∀ value, Guards kept (next value)) : Guards kept (Proc.read f >>= next) :=
  guards_read fun w _ => later (f w)

theorem guards_see {α : Type} (f : World N → α) : Guards kept (Proc.read f) :=
  fun _ holds => ⟨holds, trivial⟩

variable [Tolerant kept]

/-- A step that writes no file of an index. -/
theorem guards_aside {step : DiskStep} (aside : DiskStep.indexFile step = none) :
    Guards kept (Proc.perform step : Proc N Unit) := by
  refine guards_perform fun w holds => Tolerant.same holds ?_ ?_ (sidx_tryPerform aside w)
  · rw [World.col_tryPerform]
    exact Aside.refl w.col
  · rw [World.col_tryPerform]

theorem guards_flush : Guards kept (Proc.access : Proc N Unit) := by
  refine guards_access fun w holds => Tolerant.same holds ?_ ?_ ?_
  · rw [World.col_tryAccess]
    exact Aside.refl w.col
  · rw [World.col_tryAccess]
  · unfold World.tryAccess
    split <;> rfl

theorem guards_adjust {β : Type} {f : Collection N → Collection N} {next : Unit → Proc N β}
    (later : ∀ value, Guards kept (next value))
    (aside : ∀ c, Aside c (f c) ∧ (f c).idSeq = c.idSeq) :
    Guards kept (Proc.modify f >>= next) :=
  (guards_modify fun w holds =>
    Tolerant.same holds (aside w.col).1 (aside w.col).2 rfl).bind later

theorem guards_persistMeta : Guards kept (persistMeta : Proc N Unit) :=
  guards_look fun _ => guards_aside rfl

theorem guards_openActiveSegment (name : FileName) :
    Guards kept (openActiveSegment name : Proc N Nat) := by
  refine (guards_aside rfl).bind fun _ => guards_look fun file => ?_
  split_ifs
  · exact (guards_aside rfl).bind fun _ => guards_done _
  · exact guards_done _

theorem guards_rotateSegment : Guards kept (rotateSegment : Proc N Unit) := by
  refine Guards.locked (guards_flush.bind fun _ => guards_adjust (fun _ => guards_look fun number =>
    (guards_openActiveSegment _).bind fun size => guards_adjust (fun _ => guards_look fun mode => ?_)
      fun _ => ⟨⟨rfl, rfl, rfl, rfl⟩, rfl⟩) fun _ => ⟨⟨rfl, rfl, rfl, rfl⟩, rfl⟩)
  split_ifs
  · exact guards_flush.bind fun _ => guards_persistMeta.attempt
  · exact guards_persistMeta.attempt

theorem guards_rotateIf (full : Bool) : Guards kept (rotateIf full : Proc N Unit) := by
  cases full with
  | false => exact guards_done _
  | true => exact guards_rotateSegment

theorem guards_syncActive : Guards kept (syncActive : Proc N Unit) := by
  refine guards_look fun mode => ?_
  split_ifs
  · exact guards_flush
  · exact guards_done _

theorem guards_publishCommit (committed : List (Entry N)) :
    Guards kept (publishCommit committed) :=
  fun w holds => ⟨Tolerant.same holds (Aside.refl w.col) rfl rfl, trivial⟩

theorem guards_commit {β : Type} {committed : List (Entry N)} {next : Proc N β}
    (later : Guards kept next) :
    Guards kept (do
      syncActive
      publishCommit committed
      next) :=
  guards_syncActive.bind fun _ => (guards_publishCommit _).bind fun _ => later

omit [Tolerant kept] in
theorem guards_reserveID [Lenient kept] : Guards kept (reserveID : Proc N Nat) :=
  fun _ holds => ⟨Lenient.same holds ⟨rfl, rfl, rfl, rfl⟩ rfl, trivial⟩

omit [Tolerant kept] in
theorem guards_isFull : Guards kept (isFull : Proc N Bool) :=
  guards_see _

variable [JsonNumber N]

theorem guards_appendActive (e : Entry N) : Guards kept (appendActive e) := by
  refine (guards_done _).bind fun bytes => guards_look fun active => ?_
  split_ifs
  · exact guards_flush.bind fun _ => guards_adjust (fun _ => guards_done _)
      fun _ => ⟨⟨rfl, rfl, rfl, rfl⟩, rfl⟩
  · exact (guards_aside rfl).bind fun _ => guards_adjust (fun _ => guards_done _)
      fun _ => ⟨⟨rfl, rfl, rfl, rfl⟩, rfl⟩

omit [Tolerant kept] in
theorem guards_readLatest (flush : Guards kept (Proc.access : Proc N Unit)) (segments : List Nat)
    (latest : Lib.Keyed.Map Nat (Option (Option (Data N)))) :
    Guards kept (readLatest segments latest) := by
  induction segments generalizing latest with
  | nil => exact guards_done _
  | cons segment segments ih =>
    refine flush.bind fun _ => guards_look fun entries => ?_
    rcases entries with - | entries
    · exact guards_done _
    · exact ih _

theorem guards_reapExpired {env : Env}
    (reap : ∀ ids, Guards kept (reapLocked env ids : Proc N Bool).locked) :
    Guards kept (Collection.reapExpired env : Proc N Unit) := by
  refine guards_look fun index => ?_
  dsimp only
  split_ifs
  · exact guards_done _
  · exact (reap _).bind fun _ => guards_rotateIf _

end Steps

/-! ## Entries -/

variable [JsonNumber N]

/-- A condition is kept where records with the allowed ids are put, and where any
are dropped. -/
structure Entries (allowed : Nat → Prop) (kept : World N → Prop) : Prop where
  known : ∀ {w id loc}, kept w → w.col.index.lookup id = some loc → allowed id
  set : ∀ {w} (e : Entry N) offset, allowed e.id → kept w →
    kept { w with col := setEntry e offset w.col }
  follow : ∀ {w} id plain follow, kept w → kept { w with col := followEntry id plain follow w.col }
  drop : ∀ {w} id, kept w → kept { w with col := dropEntry id w.col }
  unfollow : ∀ {w} id, kept w → kept { w with col := unfollowEntry id w.col }

namespace Entries

variable {allowed : Nat → Prop} {kept : World N → Prop} [Tolerant kept] {e : Entry N}
  {staged : List (TxOp N × Option (Data N))} {built : List (Entry N × Option (Data N))}
  (entries : Entries allowed kept)
include entries

theorem put (inside : allowed e.id) (plain : Option (Data N)) (follow : Follow) :
    Guards kept (putEntry e plain follow) :=
  (guards_appendActive e).bind fun offset =>
    (guards_modify fun _ => entries.set e offset inside).bind fun _ =>
      guards_modify fun _ => entries.follow e.id plain follow

theorem delete (e : Entry N) : Guards kept (deleteEntry e) :=
  (guards_appendActive e).bind fun _ => (guards_modify fun _ => entries.drop e.id).bind fun _ =>
    guards_modify fun _ => entries.unfollow e.id

theorem putAll (inside : ∀ entry ∈ built, allowed entry.1.id) :
    Guards kept (Collection.putAll built) := by
  induction built with
  | nil => exact guards_done _
  | cons first rest ih =>
    exact (entries.put (inside first (.head _)) _ _).bind fun _ =>
      ih fun entry member => inside entry (.tail _ member)

/-- What is sealed keeps its id. -/
theorem putSealed {enc : Option (Encryptor N)} {seed : Nat} (inside : allowed e.id)
    (plain : Option (Data N)) (follow : Follow) :
    Guards kept (do
      let e ← Proc.check (sealEntryData enc seed e)
      putEntry e plain follow
      return e) := by
  rcases sealed : sealEntryData enc seed e with error | stored
  · exact guards_done _
  · have same : allowed stored.id := (id_of_sealed sealed).symm ▸ inside
    exact (entries.put same _ _).bind fun _ => guards_done _

theorem replaceLocked {id : Nat} (inside : allowed id) (env : Env) (stamped : Data N)
    (cur : IndexEntry) : Guards kept (Collection.replaceLocked env stamped id cur) :=
  guards_look fun _ => (guards_done _).bind fun _ => entries.putSealed inside _ _

theorem txApplyAll {env : Env}
    (inside : ∀ op ∈ staged.map Prod.fst, op.kind ≠ .delete → allowed op.id) :
    Guards kept (Collection.txApplyAll env staged) := by
  induction staged with
  | nil => exact guards_done _
  | cons first rest ih =>
    obtain ⟨op, stored⟩ := first
    refine Guards.bind (guards_look fun c => Guards.bind ?_ fun _ => guards_done _) fun _ =>
      (ih fun op member => inside op (.tail _ member)).bind fun _ => guards_done _
    have here := inside op (.head _)
    rw [txWrite, txEntry]
    rcases kind : op.kind with - | - | -
    · exact entries.put (here (by rw [kind]; decide)) _ _
    · exact entries.put (here (by rw [kind]; decide)) _ _
    · exact entries.delete _

theorem updateLocked (e : Entry N) (data : Option (Data N)) (expiresAt : Option Int) :
    Guards kept (Collection.updateLocked e data expiresAt) := by
  refine guards_read fun w holds => ?_
  rcases found : w.col.index.lookup e.id with - | cur
  · exact guards_done _
  · refine (guards_done _).bind fun _ => ?_
    dsimp only
    refine (entries.put ?_ _ _).bind fun _ => guards_commit guards_isFull
    exact entries.known holds found

theorem deleteRecord (env : Env) (id : Nat) : Guards kept (Collection.delete env id) := by
  refine Guards.locked (guards_look fun found => ?_)
  rcases found with - | loc
  · exact guards_done _
  · exact (entries.delete _).bind fun _ => guards_syncActive.bind fun _ => guards_publishCommit _

omit [Tolerant kept] in
/-- The record that carries a key is known. -/
theorem carried {env : Env} {w : World N} (holds : kept w) {key : String} {id : Nat}
    {loc : IndexEntry} (found : carrying env w.col key = some (id, loc)) : allowed id := by
  obtain ⟨first, -, placed⟩ := Option.bind_eq_some_iff.mp found
  obtain ⟨place, here, same⟩ := Option.map_eq_some_iff.mp placed
  cases same
  exact entries.known holds here

theorem compareAndSwapLocked (env : Env) (key : String) (data : Option (Data N))
    (test : Option (Data N) → Nat → Bool) :
    Guards kept (Collection.compareAndSwapLocked env key data test) := by
  refine guards_read fun w holds => ?_
  rw [id_eq]
  rcases found : carrying env w.col key with - | ⟨id, loc⟩
  · exact guards_done _
  · refine (guards_done _).bind fun current => (guards_done _).bind fun plain => ?_
    split_ifs
    · exact (entries.replaceLocked (entries.carried holds found) _ _ _).bind fun _ =>
        guards_commit (guards_isFull.bind fun _ => guards_done _)
    · exact guards_done _

theorem reapLocked (env : Env) (ids : List Nat) : Guards kept (Collection.reapLocked env ids) := by
  have reaped : Guards kept (reapAll env ids : Proc N Unit) := by
    induction ids with
    | nil => exact guards_done _
    | cons id ids ih =>
      refine guards_look fun found => ?_
      split_ifs
      · exact (entries.delete _).bind fun _ => ih
      · exact ih
  exact reaped.bind fun _ => guards_syncActive.bind fun _ => guards_isFull

theorem insertLocked (inside : allowed e.id) (data : Option (Data N)) :
    Guards kept (Collection.insertLocked e data) :=
  guards_look fun _ => (guards_done _).bind fun _ => (guards_done _).bind fun _ =>
    (entries.put inside _ _).bind fun _ => guards_commit guards_isFull

end Entries

section Indexless

variable {kept : World N → Prop} [Indexless kept]

theorem Indexless.guards_rebuildSidx (field : String) (segments : List Nat) :
    Guards kept (rebuildSidx (N := N) field segments) :=
  (guards_readLatest (guards_access Indexless.flush) segments ∅).bind fun _ =>
    guards_modify fun _ => Indexless.sidx _

omit [JsonNumber N] in
theorem Indexless.guards_persistIndexOn (field : String) :
    Guards kept (persistIndexOn field : Proc N Unit) := by
  refine guards_look fun found => ?_
  rcases found with - | s
  · exact guards_done _
  · change Guards kept (persistSidx s)
    rw [persistSidx]
    split_ifs
    · exact guards_perform fun w => Indexless.persist w _ _
    · exact guards_done _

theorem guards_ensureIndex (field : String) (unique : Bool) :
    Guards kept (Collection.ensureIndex field unique : Proc N Unit) := by
  refine guards_look fun enc => ?_
  split_ifs
  · exact guards_done _
  · refine Guards.bind (fun w holds => ⟨?_, trivial⟩) fun fresh => ?_
    · dsimp only
      split_ifs
      · exact holds
      · exact Indexless.sidx _ holds
    · split_ifs
      · exact guards_look fun segments => Guards.bind
          ((Indexless.guards_rebuildSidx field segments).onError
            (guards_modify fun _ => Indexless.sidx _))
          fun _ => Indexless.guards_persistIndexOn field
      · exact guards_done _

end Indexless

/-! ## Requests -/

/-- Every critical section of the requests keeps a condition. -/
structure Sections (kept : World N → Prop) : Prop where
  insert : ∀ e data, Guards kept (insertLocked e data).locked
  insertMany : ∀ ts built, Guards kept (insertManyLocked ts built).locked
  update : ∀ e data expiresAt, Guards kept (updateLocked e data expiresAt).locked
  delete : ∀ env id, Guards kept (Collection.delete env id)
  upsert : ∀ env key stamped, Guards kept (upsertLocked env key stamped).locked
  swap : ∀ env key data test, Guards kept (compareAndSwapLocked env key data test).locked
  commit : ∀ env ops, Guards kept (commitTxLocked env ops).locked
  reap : ∀ env ids, Guards kept (reapLocked env ids).locked
  index : ∀ field unique, Guards kept (Collection.ensureIndex field unique)

/-- The sections of a condition that any entry keeps. -/
theorem Entries.sections {kept : World N → Prop} [Lenient kept]
    (entries : Entries (fun _ => True) kept)
    (index : ∀ field unique, Guards kept (Collection.ensureIndex field unique)) :
    Sections kept where
  insert _ data := (entries.insertLocked trivial data).locked
  insertMany _ _ := Guards.locked <| guards_look fun _ => (guards_done _).bind fun _ =>
    (guards_done _).bind fun _ => (entries.putAll fun _ _ => trivial).bind fun _ =>
      guards_commit guards_isFull
  update e data expiresAt := (entries.updateLocked e data expiresAt).locked
  delete := entries.deleteRecord
  upsert env key stamped := by
    refine Guards.locked (guards_look fun found => Guards.bind ?_ fun _ =>
      guards_commit (guards_isFull.bind fun _ => guards_done _))
    rcases found with - | ⟨id, cur⟩
    · exact guards_reserveID.bind fun _ => guards_look fun _ => (guards_done _).bind fun _ =>
        (guards_done _).bind fun _ => entries.putSealed trivial _ _
    · exact entries.replaceLocked trivial env stamped cur
  swap env key data test := (entries.compareAndSwapLocked env key data test).locked
  commit _ _ := Guards.locked <| guards_look fun _ => (guards_done _).bind fun _ =>
    (guards_done _).bind fun _ => (guards_done _).bind fun _ => (guards_done _).bind fun _ =>
      (entries.txApplyAll fun _ _ _ => trivial).bind fun _ => guards_commit guards_isFull
  reap env ids := (entries.reapLocked env ids).locked
  index := index

namespace Sections

variable {kept : World N → Prop} [Lenient kept]

theorem insertRecord (sections : Sections kept) (env : Env) (data : Option (Data N))
    (expiresAt : Int) : Guards kept (Collection.insertRecord env data expiresAt) :=
  guards_reserveID.bind fun _ => guards_look fun _ => (guards_done _).bind fun _ =>
    (sections.insert _ _).bind fun _ => (guards_rotateIf _).bind fun _ => guards_done _

omit [JsonNumber N] in
theorem buildEntries (env : Env) (expiresAt : Int) (records : List (Option (Data N)))
    (position : Nat) : Guards kept (Collection.buildEntries env expiresAt records position) := by
  induction records generalizing position with
  | nil => exact guards_done _
  | cons data records ih =>
    exact guards_reserveID.bind fun _ => guards_look fun _ => (guards_done _).bind fun _ =>
      (ih _).bind fun _ => guards_done _

theorem insertBatch (sections : Sections kept) (env : Env) (records : List (Option (Data N)))
    (expiresAt : Option Int) : Guards kept (Collection.insertMany env records expiresAt) := by
  rw [Collection.insertMany]
  split_ifs
  · exact guards_done _
  · exact (guards_done _).bind fun _ => guards_look fun _ => (buildEntries _ _ _ _).bind
      fun built => (sections.insertMany _ built).bind fun _ => (guards_rotateIf _).bind fun _ =>
        guards_done _

theorem updateRecord (sections : Sections kept) (env : Env) (id : Nat) (data : Option (Data N))
    (expiresAt : Option Int) : Guards kept (Collection.updateRecord env id data expiresAt) :=
  guards_look fun _ => (guards_done _).bind fun _ => (sections.update _ _ _).bind fun _ =>
    guards_rotateIf _

theorem compareAndSwap (sections : Sections kept) (env : Env) (key : String)
    (data : Option (Data N)) (test : Option (Data N) → Nat → Bool) :
    Guards kept (Collection.compareAndSwap env key data test) :=
  (sections.swap _ _ _ _).bind fun _ => (guards_rotateIf _).bind fun _ => guards_done _

theorem commitTx (sections : Sections kept) (env : Env) (ops : List (TxOp N)) :
    Guards kept (Collection.commitTx env ops) := by
  rw [Collection.commitTx]
  split_ifs
  · exact guards_done _
  · exact (sections.commit env ops).bind fun full => (guards_rotateIf full).bind fun _ =>
      guards_persistMeta.attempt
  · exact (sections.commit env ops).bind fun full => (guards_rotateIf full).bind fun _ =>
      guards_done _

theorem call (sections : Sections kept) (env : Env) (made : Call N) :
    Guards kept (made.proc env) := by
  cases made with
  | insert data expiresAt =>
    exact Guards.bind ((guards_done _).bind fun _ => guards_look fun _ =>
      sections.insertRecord _ _ _) fun _ => guards_done _
  | insertMany records expiresAt =>
    exact (sections.insertBatch env records expiresAt).bind fun _ => guards_done _
  | update id data =>
    exact Guards.bind ((guards_done _).bind fun _ => sections.updateRecord _ _ _ _) fun _ =>
      guards_done _
  | updateWithExpiry id data expiresAt =>
    exact Guards.bind ((guards_done _).bind fun _ => guards_look fun _ =>
      sections.updateRecord _ _ _ _) fun _ => guards_done _
  | delete id => exact (sections.delete env id).bind fun _ => guards_done _
  | insertWithKey key data =>
    exact Guards.bind ((guards_done _).bind fun _ => (sections.index _ _).bind fun _ =>
      guards_look fun _ => sections.insertRecord _ _ _) fun _ => guards_done _
  | upsert key data =>
    exact Guards.bind ((guards_done _).bind fun _ => (sections.index _ _).bind fun _ =>
      (sections.upsert _ _ _).bind fun _ => (guards_rotateIf _).bind fun _ =>
        guards_done _) fun _ => guards_done _
  | updateIfRev key expectedRev data =>
    exact Guards.bind ((guards_done _).bind fun _ => sections.compareAndSwap _ _ _ _) fun _ =>
      guards_done _
  | updateIfMatch key pred data =>
    exact Guards.bind ((guards_done _).bind fun _ => sections.compareAndSwap _ _ _ _) fun _ =>
      guards_done _
  | commitTx ops => exact (sections.commitTx env ops).bind fun _ => guards_done _
  | rotateSegment => exact guards_rotateSegment.bind fun _ => guards_done _
  | ensureIndex field unique => exact (sections.index field unique).bind fun _ => guards_done _

omit [JsonNumber N] in
theorem stageInserts (ts : Utc) (records : List (Option (Data N))) :
    Guards kept (LoadJsonl.stageInserts ts records) := by
  induction records with
  | nil => exact guards_done _
  | cons data records ih =>
    exact guards_reserveID.bind fun _ => ih.bind fun _ => guards_done _

theorem loadJSONL (sections : Sections kept) (env : Env) (text : List Char) (keyedBy : String) :
    Guards kept (LoadJsonl.loadJSONL env text keyedBy : Proc N Nat) := by
  have rest : Guards kept (do
      let records ← Proc.check (parseJSONL keyedBy text)
      if records = [] then return 0
      let ops ← LoadJsonl.stageInserts env.ts records
      Collection.commitTx env ops
      return records.length : Proc N Nat) := by
    refine (guards_done _).bind fun records => ?_
    split_ifs
    · exact guards_done _
    · exact (stageInserts _ _).bind fun ops => (sections.commitTx env ops).bind fun _ =>
        guards_done _
  rw [LoadJsonl.loadJSONL]
  split_ifs
  · exact (sections.index _ _).bind fun _ => rest
  · exact rest

/-- If every critical section keeps a lenient condition, every request keeps it at
each of its turns. -/
theorem request (sections : Sections kept) (env : Env) (asked : Request N) :
    Guards kept (asked.proc env) := by
  cases asked with
  | call made => exact sections.call env made
  | updateByKey key data =>
    exact Guards.bind ((guards_done _).bind fun _ => guards_look fun _ =>
      (guards_done _).bind fun _ => sections.updateRecord _ _ _ _) fun _ => guards_done _
  | deleteByKey key =>
    exact Guards.bind (guards_look fun _ => (guards_done _).bind fun _ => sections.delete _ _)
      fun _ => guards_done _
  | loadJSONL text keyedBy =>
    exact (sections.loadJSONL env text keyedBy).bind fun _ => guards_done _
  | reapExpired => exact (guards_reapExpired (sections.reap env)).bind fun _ => guards_done _

end Sections

end Scriva.Engine.Turns
