import Scriva.Replication.Tailing

/-!
# Replication records

A committed entry is sent as a record, and a follower makes an entry of the
record.  The record has no field for the epoch of the encryption policy, so the
entries of a follower are those of no policy: an entry comes back unchanged only
if it was written under none.
-/

namespace Scriva.Replication.Wire

open Store.Record Store.Ndjson Store.Rfc3339

variable {N : Type}

/-! ## Records -/

/-- The messages for data and for times.  JSON data comes back, and so does a
time in UTC. -/
structure Protobuf (N : Type) where
  Struct : Type
  newStruct : Data N → Option Struct
  asMap : Struct → Data N
  map_asMap : ∀ data, (newStruct data).map asMap = some data
  Time : Type
  newTime : Timestamp → Time
  asTime : Time → Timestamp
  asTime_newTime : ∀ ts, ts.offset = 0 → asTime (newTime ts) = ts

inductive ReplicationOp where
  | unspecified
  | insert
  | update
  | delete

structure ReplicationEntry (N : Type) where
  lsn : Nat
  collection : String
  entry : Entry N

structure ReplicationRecord (pb : Protobuf N) where
  lsn : Nat
  collection : String
  op : ReplicationOp
  id : Nat
  rev : Nat
  data : Option pb.Struct
  expiresAt : Int
  ts : pb.Time

def replOpToProto : Op → ReplicationOp
  | .insert => .insert
  | .update => .update
  | .delete => .delete
  | .other _ _ => .unspecified

def replOpFromProto : ReplicationOp → Op
  | .insert => .insert
  | .update => .update
  | .delete => .delete
  | .unspecified => .other "" unnamed_empty

variable (pb : Protobuf N)

def replEntryToProto (re : ReplicationEntry N) : Option (ReplicationRecord pb) :=
  let record : ReplicationRecord pb :=
    { lsn := re.lsn
      collection := re.collection
      op := replOpToProto re.entry.op
      id := re.entry.id
      rev := re.entry.rev
      data := none
      expiresAt := re.entry.expiresAt
      ts := pb.newTime re.entry.ts }
  match re.entry.data with
  | none => some record
  | some data => (pb.newStruct data).map fun st => { record with data := some st }

def replRecordToEntry (record : ReplicationRecord pb) : Entry N where
  id := record.id
  op := replOpFromProto record.op
  ts := pb.asTime record.ts
  rev := record.rev
  data := record.data.map pb.asMap
  expiresAt := record.expiresAt

/-- An entry as a follower receives it. -/
def received (re : ReplicationEntry N) : Option (Entry N) :=
  (replEntryToProto pb re).map (replRecordToEntry pb)

/-- Commits have one of the three operations, and their times are in UTC. -/
def Committed (e : Entry N) : Prop :=
  (e.op = .insert ∨ e.op = .update ∨ e.op = .delete) ∧ e.ts.offset = 0

variable {pb} {re : ReplicationEntry N} {e : Entry N}

/-- Everything but the epoch arrives. -/
theorem received_eq (utc : re.entry.ts.offset = 0) :
    received pb re = some (Tailing.replRecordToEntry re.entry) := by
  obtain ⟨lsn, collection, id, op, ts, rev, data, epoch, expiresAt⟩ := re
  have same : replOpFromProto (replOpToProto op) = Tailing.wireOp op := by cases op <;> rfl
  have stamp := pb.asTime_newTime ts utc
  rcases data with - | data
  · simp only [received, replEntryToProto, Option.map_some, replRecordToEntry, same, stamp,
      Option.map_none, Tailing.replRecordToEntry]
  · obtain ⟨st, sent, back⟩ := Option.map_eq_some_iff.mp (pb.map_asMap data)
    simp only [received, replEntryToProto, sent, Option.map_some, replRecordToEntry, same, stamp,
      back, Tailing.replRecordToEntry]

theorem unchanged_iff (committed : Committed e) :
    Tailing.replRecordToEntry e = e ↔ e.epoch = 0 := by
  have same : Tailing.wireOp e.op = e.op := by
    rcases committed.1 with op | op | op <;> rw [op] <;> rfl
  rw [Tailing.replRecordToEntry, same]
  exact ⟨fun same => (congrArg Entry.epoch same).symm, fun none => by rw [← none]⟩

/-- The number of live records, and of those written under a policy. -/
def countAtEpoch (live : List (Entry N)) (epoch : Nat) : Nat × Nat :=
  (live.length, live.countP (·.epoch = epoch))

/-- The entries that a compaction brings to a policy. -/
def migrating (live : List (Entry N)) (epoch : Nat) : List (Entry N) :=
  live.filter fun e => !(e.op = .delete || e.epoch = epoch)

/-- Entries come back as they were, to be migrated as on the leader, if and only
if they were written under no policy; else some policy shows another progress. -/
theorem received_unchanged_iff (live : List (ReplicationEntry N))
    (committed : ∀ re ∈ live, Committed re.entry) :
    ∃ copies, List.Forall₂ (fun re copy => received pb re = some copy) live copies ∧
      (copies = live.map (·.entry) ↔ ∀ re ∈ live, re.entry.epoch = 0) ∧
      ((∀ epoch, countAtEpoch copies epoch = countAtEpoch (live.map (·.entry)) epoch ∧
          migrating copies epoch = migrating (live.map (·.entry)) epoch) ↔
        ∀ re ∈ live, re.entry.epoch = 0) := by
  have sent : List.Forall₂ (fun re copy => received pb re = some copy) live
      ((live.map (·.entry)).map Tailing.replRecordToEntry) := by
    rw [List.map_map, List.forall₂_map_right_iff, List.forall₂_same]
    exact fun re member => received_eq (committed re member).2
  have unchanged : (live.map (·.entry)).map Tailing.replRecordToEntry = live.map (·.entry) ↔
      ∀ re ∈ live, re.entry.epoch = 0 := by
    rw [List.map_map, List.map_inj_left]
    exact forall₂_congr fun re member => unchanged_iff (committed re member)
  refine ⟨_, sent, unchanged, fun same re member => ?_, fun none epoch => ?_⟩
  · by_contra written
    have counted := congrArg Prod.snd (same re.entry.epoch).1
    have nothing : ((live.map (·.entry)).map Tailing.replRecordToEntry).countP
        (·.epoch = re.entry.epoch) = 0 := by
      rw [List.countP_map, List.countP_eq_zero]
      exact fun e _ same => written (of_decide_eq_true same).symm
    rw [countAtEpoch, nothing, countAtEpoch, eq_comm, List.countP_eq_zero] at counted
    exact counted re.entry (List.mem_map_of_mem member) (decide_eq_true rfl)
  · rw [unchanged.mpr none]
    exact ⟨rfl, rfl⟩

/-! ## One record -/

/-- Messages that hold their contents as they are. -/
def plainProtobuf : Protobuf Int where
  Struct := Data Int
  newStruct := some
  asMap := id
  map_asMap _ := rfl
  Time := Timestamp
  newTime := id
  asTime := id
  asTime_newTime _ _ := rfl

/-- An insert of an empty record, written under a policy or under none. -/
def inserted (epoch : Nat) : ReplicationEntry Int :=
  ⟨1, "c", { emptyRecord with epoch }⟩

theorem received_unchanged_plain :
    ∃ copies, List.Forall₂ (fun re copy => received plainProtobuf re = some copy) [inserted 0]
      copies ∧ copies = [(inserted 0).entry] := by
  obtain ⟨copies, sent, same, -⟩ := received_unchanged_iff [inserted 0]
    (List.forall_mem_singleton.mpr ⟨.inl rfl, rfl⟩)
  exact ⟨copies, sent, same.mpr (List.forall_mem_singleton.mpr rfl)⟩

/-- The leader has nothing left to migrate, and the follower everything. -/
theorem epoch_not_received :
    Committed (inserted 1).entry ∧
      ∃ copy, received plainProtobuf (inserted 1) = some copy ∧ copy ≠ (inserted 1).entry ∧
        countAtEpoch [(inserted 1).entry] 1 = (1, 1) ∧ countAtEpoch [copy] 1 = (1, 0) ∧
        migrating [(inserted 1).entry] 1 = [] ∧ migrating [copy] 1 = [copy] :=
  ⟨⟨.inl rfl, rfl⟩, { emptyRecord with epoch := 0 }, rfl, by decide, rfl, rfl, rfl, rfl⟩

end Scriva.Replication.Wire
