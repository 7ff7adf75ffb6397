import Scriva.Engine.Collection
import Scriva.Engine.Journal

/-!
# Coherent collections

A collection in memory is coherent with the lines in its directory when its
segments are the files there, its primary index is what a rebuild would give,
every line records its revision, and every secondary index is exact.  Reads by
id then return the records of the journal, and each primitive change a write
path makes keeps the collection coherent.
-/

namespace Scriva.Engine.Coherence

open Lib.Lines Lib.Keyed Store.Record Store.Ndjson Segment PrimaryIndex SecondaryIndex Directory
open Engine.Collection Journal
open SecondaryIndex.Sidx (Exact wanted)

variable {N : Type} [JsonNumber N]

/-! ## Segments -/

/-- The lines of a collection: the sealed segments and the active one, with
positive numbers in increasing order. -/
structure Segments (N : Type) [JsonNumber N] where
  sealed : Layout N
  number : Nat
  active : List (SegmentLine N)
  increasing : (sealed.map Prod.fst ++ [number]).Pairwise (· < ·)
  positive : ∀ n ∈ sealed.map Prod.fst ++ [number], 0 < n

namespace Segments

def layout (s : Segments N) : Layout N :=
  s.sealed ++ [(s.number, s.active)]

def numbers (s : Segments N) : List Nat :=
  s.sealed.map Prod.fst ++ [s.number]

/-- Every line with its place, in order. -/
def log (s : Segments N) : List (Located N) :=
  located s.layout

/-- The journal. -/
def entries (s : Segments N) : List (Entry N) :=
  s.log.map Located.entry

theorem map_fst_layout (s : Segments N) : s.layout.map Prod.fst = s.numbers := by
  simp [layout, numbers]

/-- One more line in the active segment. -/
def append (s : Segments N) (line : SegmentLine N) : Segments N :=
  { s with active := s.active ++ [line] }

/-- The active segment sealed, and an empty one after it. -/
def rotate (s : Segments N) : Segments N where
  sealed := s.layout
  number := s.number + 1
  active := []
  increasing := by
    rw [map_fst_layout, List.pairwise_append]
    refine ⟨s.increasing, List.pairwise_singleton _ _, ?_⟩
    intro n member next here
    rw [List.mem_singleton.mp here]
    rcases List.mem_append.mp member with old | last
    · have below := (List.pairwise_append.mp s.increasing).2.2 n old s.number
        (List.mem_singleton_self _)
      omega
    · rw [List.mem_singleton.mp last]
      omega
  positive := by
    intro n member
    rw [map_fst_layout] at member
    rcases List.mem_append.mp member with old | last
    · exact s.positive n old
    · rw [List.mem_singleton.mp last]
      omega

end Segments

theorem locateLines_append (segment offset : Nat) (front back : List (SegmentLine N)) :
    locateLines segment offset (front ++ back) =
      locateLines segment offset front ++
        locateLines segment (offset + (fileOf front).length) back := by
  induction front generalizing offset with
  | nil => simp [locateLines]
  | cons line front ih =>
    have size : offset + line.raw.length + 1 + (fileOf front).length =
        offset + (fileOf (line :: front)).length := by
      simp only [fileOf, List.map_cons, joinLines_cons, List.length_append,
        List.length_cons]
      omega
    simp only [List.cons_append, locateLines, ih, size]

/-- A line in its place: what is in front of it in its segment is its offset. -/
theorem mem_locateLines {segment offset : Nat} {lines : List (SegmentLine N)}
    {place : Located N} (member : place ∈ locateLines segment offset lines) :
    ∃ front line back, lines = front ++ line :: back ∧
      place = ⟨segment, offset + (fileOf front).length, line.entry⟩ := by
  induction lines generalizing offset with
  | nil => simp [locateLines] at member
  | cons line lines ih =>
    rcases List.mem_cons.mp member with rfl | later
    · exact ⟨[], line, lines, rfl, rfl⟩
    · obtain ⟨front, found, back, rfl, rfl⟩ := ih later
      refine ⟨line :: front, found, back, rfl, ?_⟩
      simp only [fileOf, List.map_cons, joinLines_cons, List.length_append,
        List.length_cons, Located.mk.injEq, true_and, and_true]
      omega

theorem mem_located {layout : Layout N} {place : Located N}
    (member : place ∈ located layout) :
    ∃ lines front line back, (place.segment, lines) ∈ layout ∧
      lines = front ++ line :: back ∧ place.offset = (fileOf front).length ∧
      place.entry = line.entry := by
  obtain ⟨⟨segment, lines⟩, inside, here⟩ := List.mem_flatMap.mp member
  obtain ⟨front, line, back, split, rfl⟩ := mem_locateLines here
  exact ⟨lines, front, line, back, inside, split, by simp, rfl⟩

namespace Segments

theorem log_append (s : Segments N) (line : SegmentLine N) :
    (s.append line).log =
      s.log ++ [⟨s.number, (fileOf s.active).length, line.entry⟩] := by
  simp [log, append, layout, located, locateLines_append, locateLines]

theorem entries_append (s : Segments N) (line : SegmentLine N) :
    (s.append line).entries = s.entries ++ [line.entry] := by
  simp [entries, log_append]

@[simp]
theorem log_rotate (s : Segments N) : s.rotate.log = s.log := by
  simp [log, rotate, layout, located, locateLines]

@[simp]
theorem entries_rotate (s : Segments N) : s.rotate.entries = s.entries := by
  simp [entries]

end Segments

/-! ## The latest version of a record -/

omit [JsonNumber N] in
theorem live_snoc (log : List (Located N)) (line : Located N) (id : Nat) :
    live (log ++ [line]) id =
      if id = line.entry.id then
        (match line.entry.op with
          | .insert | .update => some line
          | .delete => none
          | .other _ _ => live log id)
      else live log id := by
  simp only [live, version, history_append, history_cons, history_nil]
  by_cases here : id = line.entry.id
  · subst here
    cases op : line.entry.op <;> simp [versionStep, op]
  · simp [here, Ne.symm here]

omit [JsonNumber N] in
/-- A live version is a line of the log: an insert or update of its id. -/
theorem live_mem {log : List (Located N)} {id : Nat} {line : Located N}
    (found : live log id = some line) :
    line ∈ log ∧ line.entry.id = id ∧ Op.isPut line.entry.op := by
  induction log using List.reverseRecOn with
  | nil => simp [live, version] at found
  | append_singleton log last ih =>
    rw [live_snoc] at found
    split_ifs at found with here
    · cases op : last.entry.op with
      | insert | update =>
        simp only [op, Option.some.injEq] at found
        subst found
        exact ⟨by simp, here.symm, by rw [op]; rfl⟩
      | delete => simp [op] at found
      | other text unnamed =>
        simp only [op] at found
        obtain ⟨member, rest⟩ := ih found
        exact ⟨List.mem_append_left _ member, rest⟩
    · obtain ⟨member, rest⟩ := ih found
      exact ⟨List.mem_append_left _ member, rest⟩

theorem wanted_snoc (field : String) (log : List (Located N)) (line : Located N) :
    wanted field (log ++ [line]) =
      Function.update (wanted field log) line.entry.id
        (match line.entry.op with
          | .insert | .update => indexKey field line.entry.data
          | .delete => none
          | .other _ _ => wanted field log line.entry.id) := by
  funext id
  rw [wanted, live_snoc, Function.update_apply]
  by_cases here : id = line.entry.id
  · subst here
    cases op : line.entry.op <;> simp [wanted]
  · simp [here, wanted]

omit [JsonNumber N] in
/-- The index of a log with recorded revisions points at the live versions. -/
theorem lookup_replay_recorded {log : List (Located N)}
    (recorded : Recorded (log.map Located.entry)) (id : Nat) :
    (replay log).lookup id =
      (live log id).map fun line => line.toIndexEntry line.entry.rev := by
  rw [lookup_replay, version_of_recorded recorded, Option.map_map]
  rfl

/-! ## Coherence -/

/-- The handle of a segment with these lines. -/
def handleOf (segment : Nat × List (SegmentLine N)) : Handle where
  number := segment.1
  size := (fileOf segment.2).length
  orphaned := false

/-- The segment files of a directory are those of a layout. -/
structure OnDisk (disk : Disk) (layout : Layout N) : Prop where
  holds : Holds disk.segment layout
  only : ∀ number, (disk.segment number).isSome → number ∈ layout.map Prod.fst

/-- A collection whose primary index speaks of these lines of its segments. -/
structure Recalls (w : World N) (s : Segments N) (log : List (Located N)) : Prop where
  segments : allSegments w.col = s.numbers
  holds : Holds w.disk.segment s.layout
  index : w.col.index = replay log
  within : log ⊆ s.log

namespace Recalls

variable {w : World N} {s : Segments N} {log : List (Located N)}

/-- A line is read at its place. -/
theorem reads (recalls : Recalls w s log) {line : Located N} (member : line ∈ log)
    (id rev : Nat) : readEntry w id (line.toIndexEntry rev) = .ok line.entry := by
  obtain ⟨lines, front, here, back, inside, split, offset, entry⟩ :=
    mem_located (recalls.within member)
  have known : line.segment ∈ allSegments w.col := by
    rw [recalls.segments, ← Segments.map_fst_layout]
    exact List.mem_map_of_mem inside
  have file : w.disk.segment line.segment = some (fileOf lines) := recalls.holds _ inside
  simp only [readEntry, Located.toIndexEntry, known, if_true, file, Option.bind_some,
    offset, split, readAt_fileOf, entry]

/-- A read by id returns the version of the record unless its time has passed. -/
theorem get_eq (recalls : Recalls w s log) (now : Int) (id : Nat) :
    get w now id =
      match version log id with
      | none => .error (.notFound id)
      | some (line, rev) =>
        if expired line.entry.expiresAt now then .error (.notFound id)
        else (materialize w.col.enc line.entry.data).map fun data =>
          { id, key := keyOf data, rev, ts := line.entry.ts, data } := by
  have lookup : w.col.index.lookup id = (version log id).map versionEntry := by
    rw [recalls.index, lookup_replay]
  rcases found : version log id with - | ⟨line, rev⟩
  · rw [found] at lookup
    simp only [Collection.get, getStored, lookup, Option.map_none]
  · rw [found] at lookup
    have alive : live log id = some line := by rw [live, found]; rfl
    have reads := recalls.reads (live_mem alive).1 id rev
    have expiry : (line.toIndexEntry rev).expiresAt = line.entry.expiresAt := rfl
    simp only [Collection.get, getStored, lookup, Option.map_some, versionEntry, reads,
      expiry]
    split_ifs
    · rfl
    · rfl

end Recalls

/-- Secondary indexes that map keys to the records of a log, one to a field. -/
structure Indexed (indexes : List Sidx) (log : List (Located N)) : Prop where
  exact : ∀ s ∈ indexes, s.Exact (wanted s.field log)
  distinct : (indexes.map Sidx.field).Nodup

/-- An entry as the engine writes it: of a named operation, and with nothing
that its line would not say. -/
structure Written (e : Entry N) : Prop where
  named : Op.isPut e.op ∨ e.op = .delete
  storable : Storable e

/-- The primary index of a collection speaks of the lines in its segments. -/
structure Standing (w : World N) (s : Segments N) : Prop where
  sealed : w.col.sealed = s.sealed.map handleOf
  active : w.col.active = handleOf (s.number, s.active)
  disk : OnDisk w.disk s.layout
  index : w.col.index = replay s.log
  written : ∀ e ∈ s.entries, Written e

namespace Standing

variable {w : World N} {s : Segments N}

theorem allSegments_eq (standing : Standing w s) : allSegments w.col = s.numbers := by
  simp [allSegments, standing.sealed, standing.active, Segments.numbers, handleOf]

theorem recalls (standing : Standing w s) : Recalls w s s.log :=
  ⟨standing.allSegments_eq, standing.disk.holds, standing.index, List.Subset.refl _⟩

end Standing

/-- A collection and its directory agree on the lines in the segments. -/
structure Coherent (w : World N) (s : Segments N) : Prop where
  sealed : w.col.sealed = s.sealed.map handleOf
  active : w.col.active = handleOf (s.number, s.active)
  disk : OnDisk w.disk s.layout
  index : w.col.index = replay s.log
  written : ∀ e ∈ s.entries, Written e
  recorded : Recorded s.entries
  counted : ∀ e ∈ s.entries, e.id ≤ w.col.idSeq
  indexed : Indexed w.col.sidx s.log

namespace Coherent

variable {w : World N} {s : Segments N}

theorem standing (coherent : Coherent w s) : Standing w s :=
  ⟨coherent.sealed, coherent.active, coherent.disk, coherent.index, coherent.written⟩

theorem allSegments_eq (coherent : Coherent w s) : allSegments w.col = s.numbers :=
  coherent.standing.allSegments_eq

/-- The index is what a rebuild from the segments gives. -/
theorem rebuild_eq (coherent : Coherent w s) :
    rebuild N w.disk.segment (allSegments w.col) = some w.col.index := by
  rw [coherent.allSegments_eq, ← Segments.map_fst_layout,
    rebuild_eq_replay coherent.disk.holds, coherent.index, Segments.log]

theorem lookup_index (coherent : Coherent w s) (id : Nat) :
    w.col.index.lookup id =
      (live s.log id).map fun line => line.toIndexEntry line.entry.rev := by
  rw [coherent.index, lookup_replay_recorded coherent.recorded]

theorem recalls (coherent : Coherent w s) : Recalls w s s.log :=
  coherent.standing.recalls

theorem record_eq (_ : Coherent w s) (id : Nat) :
    records s.entries id = (live s.log id).map Located.entry :=
  (map_entry_live s.log id).symm

/-- The index has an entry exactly for the records of the journal. -/
theorem lookup_index_eq_none (coherent : Coherent w s) {id : Nat} :
    w.col.index.lookup id = none ↔ records s.entries id = none := by
  rw [coherent.lookup_index, coherent.record_eq, Option.map_eq_none_iff,
    Option.map_eq_none_iff]

/-- What the index says about a record is what its line says. -/
theorem index_of_record (coherent : Coherent w s) {id : Nat} {e : Entry N}
    (found : records s.entries id = some e) :
    ∃ loc, w.col.index.lookup id = some loc ∧ loc.rev = e.rev ∧
      loc.expiresAt = e.expiresAt ∧ loc.epoch = e.epoch ∧
      readEntry w id loc = .ok e := by
  rw [coherent.record_eq, Option.map_eq_some_iff] at found
  obtain ⟨line, alive, rfl⟩ := found
  refine ⟨line.toIndexEntry line.entry.rev, ?_, rfl, rfl, rfl, ?_⟩
  · rw [coherent.lookup_index, alive, Option.map_some]
  · exact coherent.recalls.reads (live_mem alive).1 id line.entry.rev

theorem record_of_index (coherent : Coherent w s) {id : Nat} {loc : IndexEntry}
    (found : w.col.index.lookup id = some loc) :
    ∃ e, records s.entries id = some e ∧ loc.rev = e.rev ∧
      loc.expiresAt = e.expiresAt ∧ loc.epoch = e.epoch ∧
      readEntry w id loc = .ok e := by
  rcases held : records s.entries id with - | e
  · rw [coherent.lookup_index_eq_none.mpr held] at found
    cases found
  · obtain ⟨here, same, rest⟩ := coherent.index_of_record held
    rw [found, Option.some.injEq] at same
    subst same
    exact ⟨e, rfl, rest⟩

/-- A read by id returns the record of the journal unless its time has passed. -/
theorem get_eq (coherent : Coherent w s) (now : Int) (id : Nat) :
    get w now id =
      match records s.entries id with
      | none => .error (.notFound id)
      | some e =>
        if expired e.expiresAt now then .error (.notFound id)
        else (materialize w.col.enc e.data).map fun data =>
          { id, key := keyOf data, rev := e.rev, ts := e.ts, data } := by
  rw [coherent.recalls.get_eq, version_of_recorded coherent.recorded, coherent.record_eq]
  rcases live s.log id with - | line
  · rfl
  · rfl

end Coherent

end Scriva.Engine.Coherence
