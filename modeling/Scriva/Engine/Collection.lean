import Scriva.Engine.Directory

/-!
# Operations on a collection

The write paths of a collection and its reads by id.  Every write goes the
same way: under the write lock, checks that change nothing and one line per
record appended to the active segment with the indexes following each line;
after it, a rotation when the active segment has reached its size.

What the source takes from its surroundings is an argument here: the clock,
the randomness of an encryption, and the order in which iterations over maps
yield their keys.
-/

namespace Scriva.Engine.Collection

open Lib.Text Lib.Keyed Store.Record Store.Ndjson Segment PrimaryIndex SecondaryIndex Directory
open Store.Rfc3339 (Timestamp)
open Proc (check perform access fail)

/-! ## Surroundings -/

/-- A timestamp in UTC, as the clock gives it. -/
abbrev Utc := { ts : Timestamp // ts.offset = 0 }

/-- The order in which an iteration yields the keys of a map. -/
structure Iteration where
  keys : Finset Nat → List Nat
  nodup : ∀ s, (keys s).Nodup
  mem : ∀ s key, key ∈ keys s ↔ key ∈ s

def Iteration.ascending : Iteration where
  keys s := s.sort (· ≤ ·)
  nodup s := s.sort_nodup (· ≤ ·)
  mem s _ := s.mem_sort (· ≤ ·)

/-- What a call takes from its surroundings. -/
structure Env where
  /-- Nanoseconds since the epoch. -/
  now : Int
  ts : Utc
  seed : Nat
  iteration : Iteration

/-- The id that the iteration over a bucket yields first. -/
def Env.first (env : Env) (ids : Finset Nat) : Option Nat :=
  (env.iteration.keys ids).head?

theorem Env.first_mem {env : Env} {ids : Finset Nat} {id : Nat}
    (found : env.first ids = some id) : id ∈ ids :=
  (env.iteration.mem ids id).mp (List.mem_of_mem_head? found)

variable {N : Type}

/-- The reserved field that holds a record's string key. -/
def keyField : String := "_key"

def stampKey (data : Option (Data N)) (key : String) : Data N :=
  (data.getD Data.empty).set keyField key

/-- Data that sets the reserved field itself is refused. -/
def checkReserved (data : Option (Data N)) : Except Error Unit :=
  if (field? data keyField).isSome then .error .reservedField else .ok ()

/-! ## Expiry -/

def expired (deadline now : Int) : Bool :=
  deadline ≠ 0 && deadline ≤ now

def resolveInsertExpiry (cfg : Config) (now : Int) : Option Int → Int
  | some explicit => explicit
  | none => if cfg.defaultTTL > 0 then now + cfg.defaultTTL else 0

/-! ## Quotas -/

def quotaEnabled (cfg : Config) : Bool :=
  cfg.maxRecords > 0 || cfg.maxBytes > 0

/-- The size of all segments. -/
def sizeBytes (c : Collection N) : Nat :=
  (c.sealed.map Handle.size).sum + c.active.size

/-- The limit of bytes as it is compared: converted to a signed 64-bit word. -/
def byteLimit (cfg : Config) : Int :=
  Int.bmod cfg.maxBytes (2 ^ 64)

def checkQuota (c : Collection N) (newRecords newBytes : Nat) : Except Error Unit :=
  if c.cfg.maxRecords > 0 ∧ c.index.keys.card + newRecords > c.cfg.maxRecords then
    .error .resourceExhausted
  else if c.cfg.maxBytes > 0 ∧ (sizeBytes c + newBytes : Nat) > byteLimit c.cfg then
    .error .resourceExhausted
  else .ok ()

/-! ## Segments -/

/-- Open a file for appending, cutting off an unfinished last line. -/
def openActiveSegment (name : FileName) : Proc N Nat := do
  perform (.create name)
  let file ← Proc.read fun w => (w.disk.files.lookup name).getD []
  if recoverPartialLine file < file.length then
    perform (.truncate name (recoverPartialLine file))
  return recoverPartialLine file

def persistMeta : Proc N Unit := do
  let idCounter ← Proc.read fun w => w.col.idSeq
  perform (.writeMeta idCounter)

/-- The number past those of the given segments. -/
def nextNumber (sealed : List Handle) : Nat :=
  (sealed.map Handle.number).foldl max 0 + 1

/-- Seal the active segment and open one numbered past all others. -/
def rotateSegment : Proc N Unit := Proc.locked do
  access
  Proc.modify fun c => { c with sealed := c.sealed ++ [c.active] }
  let number ← Proc.read fun w => nextNumber w.col.sealed
  let size ← openActiveSegment (.segment number)
  Proc.modify fun c => { c with active := ⟨number, size, false⟩ }
  let mode ← Proc.read fun w => w.col.cfg.syncMode
  if mode ≠ .none then access
  persistMeta.attempt

/-- The active segment has reached the size at which it is sealed. -/
def isFull : Proc N Bool :=
  Proc.read fun w => decide (w.col.cfg.segmentMaxSize ≤ w.col.active.size)

def rotateIf (full : Bool) : Proc N Unit :=
  if full then rotateSegment else return ()

/-- Flush the active segment before a write is acknowledged. -/
def syncActive : Proc N Unit := do
  let mode ← Proc.read fun w => w.col.cfg.syncMode
  if mode = .always then access

/-- Ship committed entries to the followers.  This comes after the flush, so
that a follower sees durable entries only. -/
def publishCommit (committed : List (Entry N)) : Proc N Unit :=
  .step (fun w => { w with feed := w.feed ++ committed }) fun _ => return ()

/-- Take the next id without writing anything. -/
def reserveID : Proc N Nat :=
  .step (fun w => { w with col := { w.col with idSeq := w.col.idSeq + 1 } })
    fun w => return w.col.idSeq + 1

def readEnc : Proc N (Option (Encryptor N)) :=
  Proc.read fun w => w.col.enc

/-- The stored form of an entry under the current policy. -/
def sealEntryData (enc : Option (Encryptor N)) (seed : Nat) (e : Entry N) :
    Except Error (Entry N) :=
  match enc with
  | none => .ok e
  | some enc => (enc.encrypt seed e.data).map fun data =>
    { e with data, epoch := enc.epoch }

variable [JsonNumber N]

def entryQuotaBytes (cfg : Config) (e : Entry N) : Nat :=
  if cfg.maxBytes = 0 then 0 else ((encode e).map List.length).getD 0

/-! ## Unique indexes -/

/-- The first unique index on which another record holds the key of the data. -/
def sidxCheckUnique (c : Collection N) (id : Nat) (data : Option (Data N)) :
    Except Error Unit :=
  match c.sidx.find? fun s =>
      s.unique && (indexKey s.field data).any fun key => s.conflict key id with
  | some s => .error (.duplicateKey s.field ((indexKey s.field data).getD ""))
  | none => .ok ()

inductive TxOpKind where
  | insert
  | update
  | delete
deriving DecidableEq, Repr

/-- A write staged in a transaction. -/
structure TxOp (N : Type) where
  kind : TxOpKind
  id : Nat
  data : Option (Data N)
  ts : Utc

/-- The keys that earlier writes of a batch have taken, by field. -/
abbrev Claims := List ((String × String) × Nat)

/-- Check one write against one unique index and the claims so far. -/
def txCheckIndex (op : TxOp N) (claimed : Claims) (s : Sidx) :
    Except Error Claims :=
  if s.unique then
    match indexKey s.field op.data with
    | none => .ok claimed
    | some key =>
      if s.conflict key op.id then .error (.duplicateKey s.field key)
      else
        match claimed.lookup (s.field, key) with
        | some taken =>
          if taken ≠ op.id then .error (.duplicateKey s.field key)
          else .ok (((s.field, key), op.id) :: claimed)
        | none => .ok (((s.field, key), op.id) :: claimed)
  else .ok claimed

def txCheckOp (indexes : List Sidx) (op : TxOp N) (claimed : Claims) :
    Except Error Claims :=
  match op.kind with
  | .delete => .ok claimed
  | .insert | .update => indexes.foldlM (txCheckIndex op) claimed

def txCheckFrom (indexes : List Sidx) : List (TxOp N) → Claims → Except Error Unit
  | [], _ => .ok ()
  | op :: ops, claimed =>
    match txCheckOp indexes op claimed with
    | .ok claimed => txCheckFrom indexes ops claimed
    | .error e => .error e

/-- Check a batch against the unique indexes and against itself. -/
def txCheckUnique (c : Collection N) (ops : List (TxOp N)) : Except Error Unit :=
  txCheckFrom c.sidx ops []

/-! ## Appending -/

/-- Append an entry to the active segment; the result is its offset. -/
def appendActive (e : Entry N) : Proc N Nat := do
  let bytes ← check ((appendBytes e).mapError Error.append)
  let active ← Proc.read fun w => w.col.active
  if active.orphaned then access
  else perform (.append (.segment active.number) bytes)
  Proc.modify fun c =>
    { c with active := { c.active with size := c.active.size + bytes.length } }
  return active.size

/-! ## Writing one record -/

/-- How the secondary indexes follow the data of a write. -/
inductive Follow where
  /-- Index a new record. -/
  | index
  /-- Move a record from the key of its old data. -/
  | move
deriving DecidableEq, Repr

def Follow.apply (id : Nat) (data : Option (Data N)) (s : Sidx) : Follow → Sidx
  | .index => s.indexEntry id data
  | .move => s.updateEntry id data

/-- Point the primary index at a line of the active segment. -/
def setEntry (e : Entry N) (offset : Nat) (c : Collection N) : Collection N :=
  let loc : IndexEntry := ⟨c.active.number, offset, e.rev, e.expiresAt, e.epoch⟩
  { c with index := c.index.insert e.id loc }

/-- The secondary indexes see the data before encryption. -/
def followEntry (id : Nat) (plain : Option (Data N)) (follow : Follow)
    (c : Collection N) : Collection N :=
  { c with sidx := c.sidx.map fun s => follow.apply id plain s }

/-- Append an insert or update and let the indexes follow. -/
def putEntry (e : Entry N) (plain : Option (Data N)) (follow : Follow) :
    Proc N Unit := do
  let offset ← appendActive e
  Proc.modify (setEntry e offset)
  Proc.modify (followEntry e.id plain follow)

def dropEntry (id : Nat) (c : Collection N) : Collection N :=
  { c with index := c.index.erase id }

def unfollowEntry (id : Nat) (c : Collection N) : Collection N :=
  { c with sidx := c.sidx.map fun s => s.remove id }

/-- Append a tombstone and let the indexes follow. -/
def deleteEntry (e : Entry N) : Proc N Unit := do
  let _ ← appendActive e
  Proc.modify (dropEntry e.id)
  Proc.modify (unfollowEntry e.id)

/-! ## Insert -/

/-- An insert under the write lock; the result says whether the active segment
is full. -/
def insertLocked (e : Entry N) (data : Option (Data N)) : Proc N Bool := do
  let c ← Proc.read fun w => w.col
  check (checkQuota c 1 (entryQuotaBytes c.cfg e))
  check (sidxCheckUnique c e.id data)
  putEntry e data .index
  syncActive
  publishCommit [e]
  isFull

def insertRecord (env : Env) (data : Option (Data N)) (expiresAt : Int) :
    Proc N Nat := do
  let id ← reserveID
  let enc ← readEnc
  let e ← check (sealEntryData enc env.seed
    { newInsert id data env.ts with rev := 1, expiresAt })
  let full ← (insertLocked e data).locked
  rotateIf full
  return id

def insertWithExpiry (env : Env) (data : Option (Data N)) (expiresAt : Option Int) :
    Proc N Nat := do
  check (checkReserved data)
  let cfg ← Proc.read fun w => w.col.cfg
  insertRecord env data (resolveInsertExpiry cfg env.now expiresAt)

def insert (env : Env) (data : Option (Data N)) : Proc N Nat :=
  insertWithExpiry env data none

/-- Give every record of a batch an id and its stored form. -/
def buildEntries (env : Env) (expiresAt : Int) :
    List (Option (Data N)) → Nat → Proc N (List (Entry N × Option (Data N)))
  | [], _ => return []
  | data :: records, position => do
    let id ← reserveID
    let enc ← readEnc
    let e ← check (sealEntryData enc (env.seed + position)
      { newInsert id data env.ts with rev := 1, expiresAt })
    let rest ← buildEntries env expiresAt records (position + 1)
    return (e, data) :: rest

def putAll : List (Entry N × Option (Data N)) → Proc N Unit
  | [] => return ()
  | (e, plain) :: rest => do
    putEntry e plain .index
    putAll rest

def insertManyLocked (ts : Utc) (built : List (Entry N × Option (Data N))) :
    Proc N Bool := do
  let c ← Proc.read fun w => w.col
  check (checkQuota c built.length
    ((built.map fun entry => entryQuotaBytes c.cfg entry.1).sum))
  check (txCheckUnique c
    (built.map fun entry => ⟨.insert, entry.1.id, entry.2, ts⟩))
  putAll built
  syncActive
  publishCommit (built.map Prod.fst)
  isFull

def insertMany (env : Env) (records : List (Option (Data N)))
    (expiresAt : Option Int) : Proc N (List Nat) := do
  if records = [] then return []
  check (records.forM checkReserved)
  let cfg ← Proc.read fun w => w.col.cfg
  let built ← buildEntries env (resolveInsertExpiry cfg env.now expiresAt) records 0
  let full ← (insertManyLocked env.ts built).locked
  rotateIf full
  return built.map fun entry => entry.1.id

/-! ## Update and delete -/

/-- An update under the write lock.  `expiresAt` is the new deadline; without
one the record keeps its own. -/
def updateLocked (e : Entry N) (data : Option (Data N)) (expiresAt : Option Int) :
    Proc N Bool := do
  let c ← Proc.read fun w => w.col
  match c.index.lookup e.id with
  | none => fail (.notFound e.id)
  | some cur =>
    check (sidxCheckUnique c e.id data)
    let e := { e with rev := cur.rev + 1, expiresAt := expiresAt.getD cur.expiresAt }
    putEntry e data .move
    syncActive
    publishCommit [e]
    isFull

def updateRecord (env : Env) (id : Nat) (data : Option (Data N))
    (expiresAt : Option Int) : Proc N Unit := do
  let enc ← readEnc
  let e ← check (sealEntryData enc env.seed (newUpdate id data env.ts))
  let full ← (updateLocked e data expiresAt).locked
  rotateIf full

def update (env : Env) (id : Nat) (data : Option (Data N)) : Proc N Unit := do
  check (checkReserved data)
  updateRecord env id data none

def updateWithExpiry (env : Env) (id : Nat) (data : Option (Data N))
    (expiresAt : Option Int) : Proc N Unit := do
  check (checkReserved data)
  let cfg ← Proc.read fun w => w.col.cfg
  updateRecord env id data (some (resolveInsertExpiry cfg env.now expiresAt))

def delete (env : Env) (id : Nat) : Proc N Unit := Proc.locked do
  let found ← Proc.read fun w => w.col.index.lookup id
  match found with
  | none => fail (.notFound id)
  | some _ =>
    deleteEntry (newDelete id env.ts)
    syncActive
    publishCommit [newDelete id env.ts]

/-! ## Reading -/

/-- The data as its owner wrote it. -/
def materialize (enc : Option (Encryptor N)) (stored : Option (Data N)) :
    Except Error (Option (Data N)) :=
  match enc with
  | none => .ok stored
  | some enc => enc.materialize stored

/-- The segments in replay order. -/
def allSegments (c : Collection N) : List Nat :=
  c.sealed.map Handle.number ++ [c.active.number]

/-- Read the line an index entry points at. -/
def readEntry (w : World N) (id : Nat) (loc : IndexEntry) : Except Error (Entry N) :=
  if loc.segment ∈ allSegments w.col then
    match (w.disk.segment loc.segment).bind fun file => readAt file loc.offset with
    | some e => .ok e
    | none => .error .unreadable
  else .error (.segmentNotFound id)

/-- The stored entry of a record and its place. -/
def getStored (w : World N) (now : Int) (id : Nat) :
    Except Error (Entry N × IndexEntry) :=
  match w.col.index.lookup id with
  | none => .error (.notFound id)
  | some loc =>
    if expired loc.expiresAt now then .error (.notFound id)
    else (readEntry w id loc).map fun e => (e, loc)

structure Record (N : Type) where
  id : Nat
  key : String
  rev : Nat
  ts : Timestamp
  data : Option (Data N)

/-- The string under the key field, empty if there is none. -/
def keyOf (data : Option (Data N)) : String :=
  match field? data keyField with
  | some (.str key) => key
  | _ => ""

def get (w : World N) (now : Int) (id : Nat) : Except Error (Record N) :=
  match getStored w now id with
  | .error e => .error e
  | .ok (e, loc) =>
    (materialize w.col.enc e.data).map fun data =>
      { id, key := keyOf data, rev := loc.rev, ts := e.ts, data }

/-! ## Secondary index management -/

def findIndex (c : Collection N) (field : String) : Option Sidx :=
  c.sidx.find? fun s => s.field = field

/-- The name of the index file and of its temporary file is a file name. -/
def sidxNameValid (field : String) : Bool :=
  '/' ∉ field.toList && '\x00' ∉ field.toList &&
    decide ((utf8 field.toList).length + 14 ≤ 255)

def persistSidx (s : Sidx) : Proc N Unit :=
  if sidxNameValid s.field then perform (.writeSidx s.field s.persist)
  else fail .io

/-- Scan segments one after another for the latest data of every id. -/
def readLatest :
    List Nat → Map Nat (Option (Option (Data N))) →
      Proc N (Map Nat (Option (Option (Data N))))
  | [], latest => return latest
  | segment :: segments, latest => do
    access
    let entries ← Proc.read fun w => (w.disk.segment segment).bind scanAll
    match entries with
    | none => fail .unreadable
    | some entries => readLatest segments (entries.foldl Sidx.latestEntry latest)

/-- Replace the content of the index on a field. -/
def fillIndex (field : String) (latest : Map Nat (Option (Option (Data N))))
    (c : Collection N) : Collection N :=
  { c with sidx := c.sidx.map fun s => if s.field = field then s.fill latest else s }

/-- Rebuild the index on a field from the given segments.  Only the last step
is under the lock of the index. -/
def rebuildSidx (field : String) (segments : List Nat) : Proc N Unit := do
  let latest ← readLatest segments ∅
  Proc.modify (fillIndex field latest)

def persistIndexOn (field : String) : Proc N Unit := do
  let found ← Proc.read fun w => findIndex w.col field
  match found with
  | none => return ()
  | some s => persistSidx s

/-- Register an empty index; the result says whether there was none before. -/
def registerIndex (field : String) (unique : Bool) : Proc N Bool :=
  .step
    (fun w => if (findIndex w.col field).isSome then w
      else { w with col := { w.col with
        sidx := w.col.sidx ++ [newSecondaryIndex field unique] } })
    fun w => return (findIndex w.col field).isNone

def dropIndexEntry (field : String) (c : Collection N) : Collection N :=
  { c with sidx := c.sidx.filter fun s => s.field ≠ field }

/-- Create an index unless the field has one already. -/
def ensureIndex (field : String) (unique : Bool) : Proc N Unit := do
  let enc ← readEnc
  if enc.any fun enc => enc.isEncryptedField field then
    fail (.fieldEncrypted field)
  else
    let fresh ← registerIndex field unique
    if fresh then
      let segments ← Proc.read fun w => allSegments w.col
      (rebuildSidx (N := N) field segments).onError
        (Proc.modify (dropIndexEntry field))
      persistIndexOn field

def ensureKeyIndex : Proc N Unit :=
  ensureIndex keyField true

def dropIndex (field : String) : Proc N Unit := do
  let found ← Proc.read fun w => (findIndex w.col field).isSome
  if found then
    Proc.modify (dropIndexEntry field)
    (perform (.removeSidx field) : Proc N Unit).attempt
  else fail (.indexNotFound field)

/-! ## Keyed writes -/

def indexLookup (c : Collection N) (field key : String) : Finset Nat :=
  ((findIndex c field).map fun s => s.bucket key).getD ∅

/-- The record that the first id under a key stands for. -/
def carrying (env : Env) (c : Collection N) (key : String) :
    Option (Nat × IndexEntry) :=
  (env.first (indexLookup c keyField key)).bind fun id =>
    (c.index.lookup id).map fun loc => (id, loc)

def insertWithKey (env : Env) (key : String) (data : Option (Data N)) :
    Proc N Nat := do
  check (checkReserved data)
  ensureKeyIndex
  let cfg ← Proc.read fun w => w.col.cfg
  insertRecord env (some (stampKey data key)) (resolveInsertExpiry cfg env.now none)

def resolveKey (env : Env) (c : Collection N) (key : String) : Except Error Nat :=
  match env.first (indexLookup c keyField key) with
  | some id => .ok id
  | none => .error (.keyNotFound key)

def updateByKey (env : Env) (key : String) (data : Option (Data N)) : Proc N Unit := do
  check (checkReserved data)
  let c ← Proc.read fun w => w.col
  let id ← check (resolveKey env c key)
  updateRecord env id (some (stampKey data key)) none

/-- Tombstone the records among the given ones that are still expired. -/
def reapAll (env : Env) : List Nat → Proc N Unit
  | [] => return ()
  | id :: ids => do
    let found ← Proc.read fun w => w.col.index.lookup id
    if found.any fun loc => expired loc.expiresAt env.now then
      deleteEntry (newDelete id env.ts)
    reapAll env ids

def reapLocked (env : Env) (ids : List Nat) : Proc N Bool := do
  reapAll env ids
  syncActive
  isFull

/-- Make the removal of expired records durable. -/
def reapExpired (env : Env) : Proc N Unit := do
  let index ← Proc.read fun w => w.col.index
  let ids := (env.iteration.keys index.keys).filter fun id =>
    (index.lookup id).any fun loc => expired loc.expiresAt env.now
  if ids = [] then return ()
  let full ← (reapLocked env ids).locked
  rotateIf full

def deleteByKey (env : Env) (key : String) : Proc N Unit := do
  let c ← Proc.read fun w => w.col
  let id ← check (resolveKey env c key)
  delete env id

/-- Replace the record that carries a key; the result is the entry written. -/
def replaceLocked (env : Env) (stamped : Data N) (id : Nat) (cur : IndexEntry) :
    Proc N (Entry N) := do
  let c ← Proc.read fun w => w.col
  check (sidxCheckUnique c id (some stamped))
  let e ← check (sealEntryData c.enc env.seed
    { newUpdate id (some stamped) env.ts with
      rev := cur.rev + 1, expiresAt := cur.expiresAt })
  putEntry e (some stamped) .move
  return e

/-- Insert a record under a key that no record carries; the result is the entry
written. -/
def insertKeyLocked (env : Env) (stamped : Data N) : Proc N (Entry N) := do
  let id ← reserveID
  let c ← Proc.read fun w => w.col
  let e : Entry N := { newInsert id (some stamped) env.ts with
    rev := 1, expiresAt := resolveInsertExpiry c.cfg env.now none }
  check (checkQuota c 1 (entryQuotaBytes c.cfg e))
  check (sidxCheckUnique c id (some stamped))
  let e ← check (sealEntryData c.enc env.seed e)
  putEntry e (some stamped) .index
  return e

/-- Write under a key; the result is the entry written. -/
def writeKeyLocked (env : Env) (stamped : Data N) :
    Option (Nat × IndexEntry) → Proc N (Entry N)
  | some (id, cur) => replaceLocked env stamped id cur
  | none => insertKeyLocked env stamped

/-- An upsert under the write lock: the id and revision of the record, and
whether the active segment is full. -/
def upsertLocked (env : Env) (key : String) (stamped : Data N) :
    Proc N ((Nat × Nat) × Bool) := do
  let found ← Proc.read fun w => carrying env w.col key
  let e ← writeKeyLocked env stamped found
  syncActive
  publishCommit [e]
  let full ← isFull
  return ((e.id, e.rev), full)

/-- Insert under a key, or replace the record that carries it. -/
def upsert (env : Env) (key : String) (data : Option (Data N)) :
    Proc N (Record N) := do
  check (checkReserved data)
  ensureKeyIndex
  let ((id, rev), full) ← (upsertLocked env key (stampKey data key)).locked
  rotateIf full
  return { id, key, rev, ts := env.ts, data := some (stampKey data key) }

/-- A conditional update under the write lock: whether it was applied, and
whether the active segment is full. -/
def compareAndSwapLocked (env : Env) (key : String) (data : Option (Data N))
    (test : Option (Data N) → Nat → Bool) : Proc N (Bool × Bool) := do
  let w ← Proc.read id
  match carrying env w.col key with
  | none => return (false, false)
  | some (id, loc) =>
    let current ← check (readEntry w id loc)
    let plain ← check (materialize w.col.enc current.data)
    if test plain loc.rev then
      let e ← replaceLocked env (stampKey data key) id loc
      syncActive
      publishCommit [e]
      let full ← isFull
      return (true, full)
    else return (false, false)

/-- Update the record under a key if its data and revision pass a test. -/
def compareAndSwap (env : Env) (key : String) (data : Option (Data N))
    (test : Option (Data N) → Nat → Bool) : Proc N Bool := do
  let (swapped, full) ← (compareAndSwapLocked env key data test).locked
  rotateIf full
  return swapped

def updateIfRev (env : Env) (key : String) (expectedRev : Nat)
    (data : Option (Data N)) : Proc N Bool := do
  check (checkReserved data)
  compareAndSwap env key data fun _ rev => rev = expectedRev

def updateIfMatch (env : Env) (key : String) (pred : Option (Data N) → Bool)
    (data : Option (Data N)) : Proc N Bool := do
  check (checkReserved data)
  compareAndSwap env key data fun current _ => pred current

/-! ## Transactions -/

/-- Every record that a batch updates or deletes still exists. -/
def txTargetsExist (c : Collection N) (ops : List (TxOp N)) : Except Error Unit :=
  ops.forM fun op =>
    if op.kind ≠ .insert ∧ (c.index.lookup op.id).isNone then
      .error (.deletedBeforeCommit op.id)
    else .ok ()

def txInserts (ops : List (TxOp N)) : List (TxOp N) :=
  ops.filter fun op => op.kind = .insert

def txCheckQuota (env : Env) (c : Collection N) (ops : List (TxOp N)) :
    Except Error Unit :=
  if quotaEnabled c.cfg ∧ txInserts ops ≠ [] then
    checkQuota c (txInserts ops).length
      (((txInserts ops).map fun op => entryQuotaBytes c.cfg
        { newInsert op.id op.data op.ts with
          rev := 1, expiresAt := resolveInsertExpiry c.cfg env.now none }).sum)
  else .ok ()

/-- The stored data of every insert and update of a batch. -/
def txSeal (enc : Option (Encryptor N)) (seed : Nat) :
    List (TxOp N) → Except Error (List (TxOp N × Option (Data N)))
  | [] => .ok []
  | op :: ops =>
    match op.kind, enc with
    | .delete, _ | _, none => (txSeal enc (seed + 1) ops).map ((op, op.data) :: ·)
    | .insert, some policy | .update, some policy =>
      match policy.encrypt seed op.data with
      | .error e => .error e
      | .ok data => (txSeal enc (seed + 1) ops).map ((op, data) :: ·)

def txEpoch (enc : Option (Encryptor N)) : Nat :=
  (enc.map Encryptor.epoch).getD 0

/-- The entry of a staged write, as the collection stands. -/
def txEntry (env : Env) (c : Collection N) (op : TxOp N) (stored : Option (Data N)) :
    Entry N :=
  match op.kind with
  | .insert => { newInsert op.id stored op.ts with
      rev := 1
      expiresAt := resolveInsertExpiry c.cfg env.now none
      epoch := txEpoch c.enc }
  | .update => { newUpdate op.id stored op.ts with
      rev := ((c.index.lookup op.id).map IndexEntry.rev).getD 0 + 1
      expiresAt := ((c.index.lookup op.id).map IndexEntry.expiresAt).getD 0
      epoch := txEpoch c.enc }
  | .delete => newDelete op.id op.ts

def txWrite (op : TxOp N) (e : Entry N) : Proc N Unit :=
  match op.kind with
  | .insert => putEntry e op.data .index
  | .update => putEntry e op.data .move
  | .delete => deleteEntry e

def txApply (env : Env) (op : TxOp N) (stored : Option (Data N)) : Proc N (Entry N) := do
  let c ← Proc.read fun w => w.col
  txWrite op (txEntry env c op stored)
  return txEntry env c op stored

/-- Apply staged writes in order; the result is the entries written. -/
def txApplyAll (env : Env) : List (TxOp N × Option (Data N)) → Proc N (List (Entry N))
  | [] => return []
  | (op, stored) :: rest => do
    let e ← txApply env op stored
    let committed ← txApplyAll env rest
    return e :: committed

def commitTxLocked (env : Env) (ops : List (TxOp N)) : Proc N Bool := do
  let c ← Proc.read fun w => w.col
  check (txTargetsExist c ops)
  check (txCheckUnique c ops)
  check (txCheckQuota env c ops)
  let staged ← check (txSeal c.enc env.seed ops)
  let committed ← txApplyAll env staged
  syncActive
  publishCommit committed
  isFull

def commitTx (env : Env) (ops : List (TxOp N)) : Proc N Unit := do
  if ops = [] then return ()
  let full ← (commitTxLocked env ops).locked
  rotateIf full
  if (txInserts ops).any fun op => op.id > 0 then persistMeta.attempt

end Scriva.Engine.Collection
