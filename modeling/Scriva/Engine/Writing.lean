import Scriva.Engine.Coherence

/-!
# What a write does

Every write path changes a collection by a few primitive steps: it takes an
id, appends one line and lets the indexes follow, starts a new active segment,
notes the id counter, ships entries to the followers, or registers a new index.  Each of them changes the
directory by at most one step and keeps the collection coherent; the lines of
the segments grow by exactly the entries appended.
-/

namespace Scriva.Engine.Writing

open Lib.Text Store.Record Store.Ndjson Segment PrimaryIndex SecondaryIndex Directory
open Engine.Collection Journal Coherence
open SecondaryIndex.Sidx (Exact wanted)

variable {N : Type}

/-! ## Primitive steps -/

def afterReserve (w : World N) : World N :=
  { w with col := { w.col with idSeq := w.col.idSeq + 1 } }

/-- Bytes at the end of the active segment. -/
def afterAppend (w : World N) (bytes : Bytes) : World N :=
  let active := { w.col.active with size := w.col.active.size + bytes.length }
  if w.col.active.orphaned then { w with col := { w.col with active } }
  else
    { w.perform (.append (.segment w.col.active.number) bytes) with
      col := { w.col with active } }

def afterDelete (w : World N) (e : Entry N) (bytes : Bytes) : World N :=
  { afterAppend w bytes with
    col := unfollowEntry e.id (dropEntry e.id (afterAppend w bytes).col) }

/-- A new active segment after the present one. -/
def afterRotate (w : World N) : World N :=
  let sealed := w.col.sealed ++ [w.col.active]
  let active : Handle := ⟨nextNumber sealed, 0, false⟩
  { w.perform (.create (.segment (nextNumber sealed))) with
    col := { w.col with sealed, active } }

def afterNote (w : World N) : World N :=
  w.perform (.writeMeta w.col.idSeq)

/-- Entries shipped to the followers. -/
def afterPublish (w : World N) (committed : List (Entry N)) : World N :=
  { w with feed := w.feed ++ committed }

def afterRegister (w : World N) (t : Sidx) : World N :=
  { w with col := { w.col with sidx := w.col.sidx ++ [t] } }

def afterPersist (w : World N) (t : Sidx) : World N :=
  w.perform (.writeSidx t.field t.persist)

/-- The indexed fields, with whether the index is unique. -/
def indexFlags (c : Collection N) : List (String × Bool) :=
  c.sidx.map fun t => (t.field, t.unique)

variable [JsonNumber N]

def afterPut (w : World N) (e : Entry N) (plain : Option (Data N)) (follow : Follow)
    (bytes : Bytes) : World N :=
  { afterAppend w bytes with
    col := followEntry e.id plain follow
      (setEntry e w.col.active.size (afterAppend w bytes).col) }

/-- The revision under which the index knows a record, zero if it does not. -/
def revAt (index : Index) (id : Nat) : Nat :=
  ((index.lookup id).map IndexEntry.rev).getD 0

/-- An insert or update that may be appended: it carries a revision above the
present one, its id has been taken, a new record is not known yet, and the
indexed fields are stored as they are. -/
structure Writable (w : World N) (e : Entry N) (plain : Option (Data N))
    (follow : Follow) : Prop where
  put : Op.isPut e.op
  storable : Storable e
  above : revAt w.col.index e.id < e.rev
  reserved : e.id ≤ w.col.idSeq
  fresh : follow = .index → w.col.index.lookup e.id = none
  agrees : ∀ t ∈ w.col.sidx, indexKey t.field e.data = indexKey t.field plain

/-- A primitive step with the entry it appends, if any. -/
inductive Step : World N → List (Entry N) → World N → Prop where
  | reserve (w : World N) : Step w [] (afterReserve w)
  | put {w : World N} {e : Entry N} {plain : Option (Data N)} {follow : Follow}
      {bytes : Bytes} (writable : Writable w e plain follow)
      (accepted : appendBytes e = .ok bytes) :
      Step w [e] (afterPut w e plain follow bytes)
  | delete {w : World N} {e : Entry N} {bytes : Bytes} (tombstone : e.op = .delete)
      (storable : Storable e) (reserved : e.id ≤ w.col.idSeq)
      (accepted : appendBytes e = .ok bytes) : Step w [e] (afterDelete w e bytes)
  | rotate (w : World N) : Step w [] (afterRotate w)
  | note (w : World N) : Step w [] (afterNote w)
  | publish (w : World N) (committed : List (Entry N)) : Step w [] (afterPublish w committed)
  | register {w : World N} {t : Sidx} (fresh : t.field ∉ w.col.sidx.map Sidx.field)
      (plain : ∀ policy ∈ w.col.enc, policy.isEncryptedField t.field = false)
      (rebuilt : (newSecondaryIndex t.field t.unique).rebuild N w.disk.segment
        (allSegments w.col) = some t) : Step w [] (afterRegister w t)
  | persist {w : World N} {t : Sidx} (member : t ∈ w.col.sidx) :
      Step w [] (afterPersist w t)

/-- Primitive steps one after another, with the entries they append. -/
inductive Steps : World N → List (Entry N) → World N → Prop where
  | refl (w : World N) : Steps w [] w
  | head {w next final : World N} {es rest : List (Entry N)} (step : Step w es next)
      (later : Steps next rest final) : Steps w (es ++ rest) final

variable {w' a b c : World N} {es : List (Entry N)} {disk : Disk} {e : Entry N} {bytes : Bytes}
  {indexes : List Sidx} {log : List (Located N)}

theorem Step.steps {w : World N} (step : Step w es w') : Steps w es w' := by
  have chain := Steps.head step (.refl w')
  rwa [List.append_nil] at chain

theorem Steps.trans {fs : List (Entry N)} (first : Steps a es b) (second : Steps b fs c) :
    Steps a (es ++ fs) c := by
  induction first with
  | refl w => exact second
  | head step later ih =>
    rw [List.append_assoc]
    exact .head step (ih second)

/-! ## What steps leave alone -/

/-- What primitive steps keep of a collection. -/
structure Steady (w w' : World N) : Prop where
  calm : w.fault = none → w'.fault = none
  cfg : w'.col.cfg = w.col.cfg
  enc : w'.col.enc = w.col.enc
  flags : indexFlags w.col <+: indexFlags w'.col
  counter : w.col.idSeq ≤ w'.col.idSeq

/-- No segment file has a carriage return, which the scanner would take off a
line. -/
def NoReturns (disk : Disk) : Prop :=
  ∀ number file, disk.segment number = some file → (13 : UInt8) ∉ file

/-- What primitive steps keep. -/
structure Frame (w w' : World N) : Prop extends Steady w w' where
  plain : NoReturns w.disk → NoReturns w'.disk

omit [JsonNumber N] in
theorem Frame.refl (w : World N) : Frame w w :=
  ⟨⟨fun calm => calm, rfl, rfl, List.prefix_rfl, le_rfl⟩, fun plain => plain⟩

omit [JsonNumber N] in
theorem Frame.trans (first : Frame a b) (second : Frame b c) :
    Frame a c where
  calm := fun calm => second.calm (first.calm calm)
  cfg := second.cfg.trans first.cfg
  enc := second.enc.trans first.enc
  flags := first.flags.trans second.flags
  counter := first.counter.trans second.counter
  plain := fun plain => second.plain (first.plain plain)

theorem noReturns_append (plain : NoReturns disk) (number : Nat)
    (accepted : appendBytes e = .ok bytes) :
    NoReturns (DiskStep.apply disk (.append (.segment number) bytes)) := by
  intro other file found
  rw [Disk.segment_append] at found
  split_ifs at found
  · obtain rfl := Option.some.inj found
    rw [List.mem_append]
    rintro (old | new)
    · rcases before : disk.segment number with - | file
      · rw [before] at old
        cases old
      · rw [before] at old
        exact plain number file before old
    · exact absurd (not_control_of_appendBytes accepted new) (by decide)
  · exact plain other file found

theorem noReturns_create (plain : NoReturns disk) (number : Nat) :
    NoReturns (DiskStep.apply disk (.create (.segment number))) := by
  intro other file found
  rw [Disk.segment_create] at found
  split_ifs at found
  · obtain rfl := Option.some.inj found
    rcases before : disk.segment number with - | file
    · exact List.not_mem_nil
    · exact plain number file before
  · exact plain other file found

theorem noReturns_afterAppend {w : World N} (plain : NoReturns w.disk)
    (accepted : appendBytes e = .ok bytes) : NoReturns (afterAppend w bytes).disk := by
  unfold afterAppend
  split_ifs
  · exact plain
  · exact noReturns_append plain _ accepted

section

omit [JsonNumber N]

theorem frame_afterReserve (w : World N) : Frame w (afterReserve w) :=
  ⟨⟨fun calm => calm, rfl, rfl, List.prefix_rfl, Nat.le_succ _⟩, fun plain => plain⟩

theorem steady_afterAppend (w : World N) (bytes : Bytes) : Steady w (afterAppend w bytes) := by
  unfold afterAppend
  split_ifs
  · exact ⟨fun calm => calm, rfl, rfl, List.prefix_rfl, le_rfl⟩
  · exact ⟨fun calm => calm, rfl, rfl, List.prefix_rfl, le_rfl⟩

theorem sidx_afterAppend (w : World N) (bytes : Bytes) :
    (afterAppend w bytes).col.sidx = w.col.sidx := by
  unfold afterAppend
  split_ifs <;> rfl

end

theorem flags_afterPut (w : World N) (e : Entry N) (plain : Option (Data N))
    (follow : Follow) (bytes : Bytes) :
    indexFlags (afterPut w e plain follow bytes).col = indexFlags w.col := by
  simp only [indexFlags, afterPut, followEntry, setEntry, sidx_afterAppend, List.map_map]
  apply List.map_congr_left
  intro t _
  cases follow <;> simp [Follow.apply]

omit [JsonNumber N] in
theorem flags_afterDelete (w : World N) (e : Entry N) (bytes : Bytes) :
    indexFlags (afterDelete w e bytes).col = indexFlags w.col := by
  simp only [indexFlags, afterDelete, unfollowEntry, dropEntry, sidx_afterAppend, List.map_map]
  apply List.map_congr_left
  intro t _
  simp

theorem steady_afterPut (w : World N) (e : Entry N) (plain : Option (Data N))
    (follow : Follow) (bytes : Bytes) : Steady w (afterPut w e plain follow bytes) where
  calm := (steady_afterAppend w bytes).calm
  cfg := (steady_afterAppend w bytes).cfg
  enc := (steady_afterAppend w bytes).enc
  flags := by rw [flags_afterPut]
  counter := (steady_afterAppend w bytes).counter

omit [JsonNumber N] in
theorem steady_afterDelete (w : World N) (e : Entry N) (bytes : Bytes) :
    Steady w (afterDelete w e bytes) where
  calm := (steady_afterAppend w bytes).calm
  cfg := (steady_afterAppend w bytes).cfg
  enc := (steady_afterAppend w bytes).enc
  flags := by rw [flags_afterDelete]
  counter := (steady_afterAppend w bytes).counter

theorem Step.frame {w : World N} (step : Step w es w') : Frame w w' := by
  cases step with
  | reserve => exact frame_afterReserve w
  | put writable accepted =>
    exact ⟨steady_afterPut w _ _ _ _, fun plain => noReturns_afterAppend plain accepted⟩
  | delete tombstone storable reserved accepted =>
    exact ⟨steady_afterDelete w _ _, fun plain => noReturns_afterAppend plain accepted⟩
  | rotate =>
    exact ⟨⟨fun calm => calm, rfl, rfl, List.prefix_rfl, le_rfl⟩,
      fun plain => noReturns_create plain _⟩
  | note | publish | persist =>
    exact ⟨⟨fun calm => calm, rfl, rfl, List.prefix_rfl, le_rfl⟩, fun plain => plain⟩
  | @register t fresh plain rebuilt =>
    refine ⟨⟨fun calm => calm, rfl, rfl, ?_, le_rfl⟩, fun plain => plain⟩
    simp only [indexFlags, afterRegister, List.map_append]
    exact List.prefix_append _ _

theorem Steps.frame {w : World N} (steps : Steps w es w') : Frame w w' := by
  induction steps with
  | refl w => exact Frame.refl w
  | head step later ih => exact step.frame.trans ih

/-! ## Steps keep a collection coherent -/

omit [JsonNumber N] in
theorem nextRev_of_lt {current : Option IndexEntry} {rev : Nat}
    (above : (current.map IndexEntry.rev).getD 0 < rev) : nextRev current rev = rev :=
  Nat.max_eq_right above

omit [JsonNumber N] in
theorem replay_snoc (log : List (Located N)) (line : Located N) :
    replay (log ++ [line]) = rebuildEntry (replay log) line := by
  rw [replay, List.foldl_append]
  rfl

theorem numbers_lt (s : Segments N) {segment : Nat × List (SegmentLine N)}
    (member : segment ∈ s.sealed) : segment.1 < s.number :=
  (List.pairwise_append.mp s.increasing).2.2 _ (List.mem_map_of_mem member) _
    (List.mem_singleton_self _)

/-- One more line in the active file. -/
theorem onDisk_append {s : Segments N} (onDisk : OnDisk disk s.layout) (line : SegmentLine N) :
    OnDisk (DiskStep.apply disk (.append (.segment s.number) (fileOf [line])))
      (s.append line).layout := by
  have last : disk.segment s.number = some (fileOf s.active) :=
    onDisk.holds (s.number, s.active) (by simp [Segments.layout])
  constructor
  · intro segment member
    rw [Disk.segment_append, last, Option.getD_some, ← fileOf_append]
    rcases List.mem_append.mp member with old | new
    · rw [if_neg (numbers_lt s old).ne]
      exact onDisk.holds segment (List.mem_append_left _ old)
    · obtain rfl := List.mem_singleton.mp new
      exact if_pos rfl
  · intro number present
    rw [Segments.map_fst_layout]
    change number ∈ s.numbers
    rw [Disk.segment_append] at present
    split_ifs at present with here
    · simp [Segments.numbers, here]
    · rw [← Segments.map_fst_layout]
      exact onDisk.only number present

theorem foldl_max_le_iff (numbers : List Nat) (start bound : Nat) :
    numbers.foldl max start ≤ bound ↔ start ≤ bound ∧ ∀ n ∈ numbers, n ≤ bound := by
  induction numbers generalizing start with
  | nil => simp
  | cons n numbers ih =>
    simp only [List.foldl_cons, ih, max_le_iff, List.forall_mem_cons, and_assoc]

/-- A new active segment is numbered one past the last one. -/
theorem nextNumber_eq (s : Segments N) : nextNumber (s.layout.map handleOf) = s.number + 1 := by
  have numbers : (s.layout.map handleOf).map Handle.number = s.numbers := by
    rw [← Segments.map_fst_layout, List.map_map]
    rfl
  have highest : s.numbers.foldl max 0 = s.number := by
    apply le_antisymm
    · rw [foldl_max_le_iff]
      refine ⟨Nat.zero_le _, ?_⟩
      intro n member
      rcases List.mem_append.mp member with old | last
      · obtain ⟨segment, inside, rfl⟩ := List.mem_map.mp old
        exact (numbers_lt s inside).le
      · exact (List.mem_singleton.mp last).le
    · exact ((foldl_max_le_iff s.numbers 0 _).mp le_rfl).2 s.number
        (by simp [Segments.numbers])
  rw [nextNumber, numbers, highest]

theorem not_mem_numbers (s : Segments N) : s.number + 1 ∉ s.numbers := by
  intro member
  rcases List.mem_append.mp member with old | last
  · obtain ⟨segment, inside, same⟩ := List.mem_map.mp old
    have below := numbers_lt s inside
    omega
  · have same := List.mem_singleton.mp last
    omega

theorem onDisk_rotate {s : Segments N} (onDisk : OnDisk disk s.layout) :
    OnDisk (DiskStep.apply disk (.create (.segment (s.number + 1)))) s.rotate.layout := by
  have absent : disk.segment (s.number + 1) = none := by
    rw [← Option.not_isSome_iff_eq_none]
    intro present
    have member := onDisk.only _ present
    rw [Segments.map_fst_layout] at member
    exact not_mem_numbers s member
  constructor
  · intro segment member
    rw [Disk.segment_create, absent]
    rcases List.mem_append.mp member with old | new
    · have differs : segment.1 ≠ s.number + 1 := by
        rintro same
        apply not_mem_numbers s
        rw [← same, ← Segments.map_fst_layout]
        exact List.mem_map_of_mem old
      rw [if_neg differs]
      exact onDisk.holds segment old
    · obtain rfl := List.mem_singleton.mp new
      exact if_pos rfl
  · intro number present
    rw [Segments.map_fst_layout]
    change number ∈ s.layout.map Prod.fst ++ [s.number + 1]
    rw [Disk.segment_create] at present
    split_ifs at present with here
    · simp [here]
    · exact List.mem_append_left _ (onDisk.only number present)

/-- The secondary indexes after a write know the record under its new key. -/
theorem indexed_put (line : Located N) {plain : Option (Data N)} {follow : Follow}
    (indexed : Indexed indexes log) (put : Op.isPut line.entry.op)
    (fresh : follow = .index → live log line.entry.id = none)
    (agrees : ∀ t ∈ indexes, indexKey t.field line.entry.data = indexKey t.field plain) :
    Indexed (indexes.map fun t => follow.apply line.entry.id plain t) (log ++ [line]) := by
  have field (t : Sidx) : (follow.apply line.entry.id plain t).field = t.field := by
    cases follow <;> simp [Follow.apply]
  constructor
  · intro after member
    obtain ⟨t, inside, rfl⟩ := List.mem_map.mp member
    have want : wanted t.field (log ++ [line]) =
        Function.update (wanted t.field log) line.entry.id (indexKey t.field plain) := by
      rw [wanted_snoc, ← agrees t inside]
      cases op : line.entry.op with
      | insert | update => rfl
      | delete | other => simp [op, Op.isPut] at put
    rw [field, want]
    cases follow with
    | index =>
      apply (indexed.exact t inside).indexEntry
      rw [wanted, fresh rfl, Option.bind_none]
    | move => exact (indexed.exact t inside).updateEntry _ _
  · rw [List.map_map]
    have fields : (Sidx.field ∘ fun t => follow.apply line.entry.id plain t) = Sidx.field :=
      funext field
    rw [fields]
    exact indexed.distinct

/-- The secondary indexes after a tombstone have forgotten the record. -/
theorem indexed_delete (line : Located N) (indexed : Indexed indexes log)
    (tombstone : line.entry.op = .delete) :
    Indexed (indexes.map fun t => t.remove line.entry.id) (log ++ [line]) := by
  constructor
  · intro after member
    obtain ⟨t, inside, rfl⟩ := List.mem_map.mp member
    rw [Sidx.field_remove, wanted_snoc, tombstone]
    exact (indexed.exact t inside).remove _
  · rw [List.map_map]
    have fields : (Sidx.field ∘ fun t => t.remove line.entry.id) = Sidx.field :=
      funext fun t => t.field_remove _
    rw [fields]
    exact indexed.distinct

end Scriva.Engine.Writing

namespace Scriva.Engine.Coherence.Standing

open Lib.Text Store.Record Store.Ndjson Segment PrimaryIndex SecondaryIndex Directory
open Engine.Collection Journal Writing

variable {N : Type} [JsonNumber N] {w : World N} {s : Segments N}

theorem not_orphaned (standing : Standing w s) : w.col.active.orphaned = false := by
  rw [standing.active]
  rfl

theorem active_number (standing : Standing w s) : w.col.active.number = s.number := by
  rw [standing.active]
  rfl

theorem active_size (standing : Standing w s) :
    w.col.active.size = (fileOf s.active).length := by
  rw [standing.active]
  rfl

/-- The files and the handle of the active segment after an append. -/
theorem afterAppend_eq (standing : Standing w s) (line : SegmentLine N) :
    (afterAppend w (fileOf [line])).disk =
        DiskStep.apply w.disk (.append (.segment s.number) (fileOf [line])) ∧
      (afterAppend w (fileOf [line])).col =
        { w.col with active := handleOf (s.number, s.active ++ [line]) } := by
  simp [afterAppend, standing.not_orphaned, standing.active_number, standing.active_size,
    World.perform, handleOf]

variable {line : SegmentLine N}

theorem written_append (standing : Standing w s) (written : Written line.entry) :
    ∀ e ∈ (s.append line).entries, Written e := by
  intro e member
  rw [s.entries_append, List.mem_append, List.mem_singleton] at member
  rcases member with old | rfl
  · exact standing.written e old
  · exact written

theorem delete (standing : Standing w s) (tombstone : line.entry.op = .delete)
    (storable : Storable line.entry) :
    Standing (afterDelete w line.entry (fileOf [line])) (s.append line) := by
  obtain ⟨disk, col⟩ := standing.afterAppend_eq line
  constructor
  case sealed =>
    simp only [afterDelete, unfollowEntry, dropEntry, col]
    exact standing.sealed
  case active =>
    simp only [afterDelete, unfollowEntry, dropEntry, col]
    rfl
  case disk =>
    simp only [afterDelete, disk]
    exact onDisk_append standing.disk line
  case index =>
    simp only [afterDelete, unfollowEntry, dropEntry, col, standing.index, s.log_append line,
      replay_snoc, rebuildEntry, tombstone]
  case written =>
    exact standing.written_append ⟨.inr tombstone, storable⟩

theorem sealed_append (standing : Standing w s) :
    w.col.sealed ++ [w.col.active] = s.layout.map handleOf := by
  rw [standing.sealed, standing.active, Segments.layout, List.map_append, List.map_singleton]

theorem nextNumber_sealed (standing : Standing w s) :
    nextNumber (w.col.sealed ++ [w.col.active]) = s.number + 1 := by
  rw [standing.sealed_append, nextNumber_eq]

theorem rotate (standing : Standing w s) : Standing (afterRotate w) s.rotate := by
  have number := standing.nextNumber_sealed
  constructor
  case sealed =>
    exact standing.sealed_append
  case active =>
    simp only [afterRotate, number]
    rfl
  case disk =>
    simp only [afterRotate, number]
    exact onDisk_rotate standing.disk
  case index =>
    rw [s.log_rotate]
    exact standing.index
  case written =>
    rw [s.entries_rotate]
    exact standing.written

end Scriva.Engine.Coherence.Standing

namespace Scriva.Engine.Coherence.Coherent

open Lib.Text Store.Record Store.Ndjson Segment PrimaryIndex SecondaryIndex Directory
open Engine.Collection Journal Writing

variable {N : Type} [JsonNumber N] {w : World N} {s : Segments N}

theorem not_orphaned (coherent : Coherent w s) : w.col.active.orphaned = false :=
  coherent.standing.not_orphaned

theorem active_number (coherent : Coherent w s) : w.col.active.number = s.number :=
  coherent.standing.active_number

theorem revAt_eq (coherent : Coherent w s) (id : Nat) :
    revAt w.col.index id = revOf (records s.entries id) := by
  rw [revAt, revOf, coherent.lookup_index, coherent.record_eq, Option.map_map,
    Option.map_map]
  rfl

variable {e : Entry N} {bytes : Bytes} {w' : World N} {es : List (Entry N)}

theorem put {plain : Option (Data N)} {follow : Follow} (coherent : Coherent w s)
    (writable : Writable w e plain follow) (accepted : appendBytes e = .ok bytes) :
    ∃ line : SegmentLine N, line.entry = e ∧
      Coherent (afterPut w e plain follow bytes) (s.append line) := by
  obtain ⟨line, rfl, rfl⟩ := exists_line_of_appendBytes writable.storable accepted
  obtain ⟨disk, col⟩ := coherent.standing.afterAppend_eq line
  have log := s.log_append line
  have above := writable.above
  rw [coherent.revAt_eq] at above
  refine ⟨line, rfl, ?_⟩
  constructor
  case sealed =>
    simp only [afterPut, followEntry, setEntry, col]
    exact coherent.sealed
  case active =>
    simp only [afterPut, followEntry, setEntry, col]
    rfl
  case disk =>
    simp only [afterPut, disk]
    exact onDisk_append coherent.disk line
  case index =>
    -- the revision that a replay computes is the one the line carries
    have rev : nextRev ((replay s.log).lookup line.entry.id) line.entry.rev =
        line.entry.rev := by
      apply nextRev_of_lt
      have same := coherent.revAt_eq line.entry.id
      rw [revAt, coherent.index] at same
      rw [same]
      exact above
    have replayed : replay (s.append line).log = (replay s.log).insert line.entry.id
        ⟨s.number, (fileOf s.active).length, line.entry.rev, line.entry.expiresAt,
          line.entry.epoch⟩ := by
      rw [log, replay_snoc, rebuildEntry]
      cases op : line.entry.op with
      | insert | update => simp only [rev, Located.toIndexEntry]
      | delete | other =>
        have put := writable.put
        rw [op] at put
        cases put
    simp only [afterPut, followEntry, setEntry, col, handleOf, coherent.standing.active_size,
      coherent.index, replayed]
  case written =>
    exact coherent.standing.written_append ⟨.inl writable.put, writable.storable⟩
  case recorded =>
    rw [s.entries_append, recorded_snoc]
    exact ⟨coherent.recorded, fun _ => above⟩
  case counted =>
    intro e member
    simp only [afterPut, followEntry, setEntry, col]
    rw [s.entries_append, List.mem_append, List.mem_singleton] at member
    rcases member with old | rfl
    · exact coherent.counted e old
    · exact writable.reserved
  case indexed =>
    simp only [afterPut, followEntry, setEntry, col, log]
    apply indexed_put ⟨s.number, (fileOf s.active).length, line.entry⟩
      coherent.indexed writable.put
    · intro new
      have missing := writable.fresh new
      rw [coherent.lookup_index, Option.map_eq_none_iff] at missing
      exact missing
    · exact writable.agrees

theorem delete (coherent : Coherent w s) (tombstone : e.op = .delete) (storable : Storable e)
    (reserved : e.id ≤ w.col.idSeq) (accepted : appendBytes e = .ok bytes) :
    ∃ line : SegmentLine N, line.entry = e ∧
      Coherent (afterDelete w e bytes) (s.append line) := by
  obtain ⟨line, rfl, rfl⟩ := exists_line_of_appendBytes storable accepted
  obtain ⟨-, col⟩ := coherent.standing.afterAppend_eq line
  have after := coherent.standing.delete tombstone storable
  refine ⟨line, rfl, after.sealed, after.active, after.disk, after.index, after.written,
    ?recorded, ?counted, ?indexed⟩
  case recorded =>
    rw [s.entries_append, recorded_snoc]
    refine ⟨coherent.recorded, ?_⟩
    intro put
    rw [tombstone] at put
    cases put
  case counted =>
    intro e member
    simp only [afterDelete, unfollowEntry, dropEntry, col]
    rw [s.entries_append, List.mem_append, List.mem_singleton] at member
    rcases member with old | rfl
    · exact coherent.counted e old
    · exact reserved
  case indexed =>
    simp only [afterDelete, unfollowEntry, dropEntry, col, s.log_append line]
    exact indexed_delete ⟨s.number, (fileOf s.active).length, line.entry⟩
      coherent.indexed tombstone

theorem rotate (coherent : Coherent w s) : Coherent (afterRotate w) s.rotate := by
  have after := coherent.standing.rotate
  refine ⟨after.sealed, after.active, after.disk, after.index, after.written,
    ?recorded, ?counted, ?indexed⟩
  case recorded =>
    rw [s.entries_rotate]
    exact coherent.recorded
  case counted =>
    rw [s.entries_rotate]
    exact coherent.counted
  case indexed =>
    rw [s.log_rotate]
    exact coherent.indexed

theorem reserve (coherent : Coherent w s) : Coherent (afterReserve w) s :=
  { coherent with
    counted := fun e member => Nat.le_succ_of_le (coherent.counted e member) }

theorem note (coherent : Coherent w s) : Coherent (afterNote w) s :=
  { coherent with disk := ⟨coherent.disk.holds, coherent.disk.only⟩ }

theorem publish (coherent : Coherent w s) (committed : List (Entry N)) :
    Coherent (afterPublish w committed) s :=
  { coherent with disk := coherent.disk }

theorem register {t : Sidx} (coherent : Coherent w s)
    (fresh : t.field ∉ w.col.sidx.map Sidx.field)
    (rebuilt : (newSecondaryIndex t.field t.unique).rebuild N w.disk.segment
      (allSegments w.col) = some t) : Coherent (afterRegister w t) s := by
  refine { coherent with disk := coherent.disk, indexed := ⟨?_, ?_⟩ }
  · intro other member
    rcases List.mem_append.mp member with old | new
    · exact coherent.indexed.exact other old
    · obtain rfl := List.mem_singleton.mp new
      have filled := Sidx.rebuild_exact (newSecondaryIndex other.field other.unique)
        coherent.disk.holds
      rw [coherent.allSegments_eq, ← Segments.map_fst_layout] at rebuilt
      obtain ⟨found, same, -, -, exact⟩ := filled
      rw [rebuilt, Option.some.injEq] at same
      subst same
      exact exact
  · simp only [afterRegister, List.map_append, List.map_singleton]
    rw [List.nodup_append]
    refine ⟨coherent.indexed.distinct, List.nodup_singleton _, ?_⟩
    rintro field old other new rfl
    rw [List.mem_singleton.mp new] at old
    exact fresh old

theorem persist (coherent : Coherent w s) (t : Sidx) : Coherent (afterPersist w t) s :=
  { coherent with disk := ⟨coherent.disk.holds, coherent.disk.only⟩ }

theorem step (coherent : Coherent w s) (step : Step w es w') :
    ∃ s', Coherent w' s' ∧ s'.entries = s.entries ++ es := by
  cases step with
  | reserve => exact ⟨s, coherent.reserve, (List.append_nil _).symm⟩
  | put writable accepted =>
    obtain ⟨line, entry, after⟩ := coherent.put writable accepted
    exact ⟨_, after, by rw [s.entries_append, entry]⟩
  | delete tombstone storable reserved accepted =>
    obtain ⟨line, entry, after⟩ := coherent.delete tombstone storable reserved accepted
    exact ⟨_, after, by rw [s.entries_append, entry]⟩
  | rotate => exact ⟨_, coherent.rotate, by rw [s.entries_rotate, List.append_nil]⟩
  | note => exact ⟨s, coherent.note, (List.append_nil _).symm⟩
  | publish => exact ⟨s, coherent.publish _, (List.append_nil _).symm⟩
  | register fresh plain rebuilt =>
    exact ⟨s, coherent.register fresh rebuilt, (List.append_nil _).symm⟩
  | persist => exact ⟨s, coherent.persist _, (List.append_nil _).symm⟩

/-- Steps one after another add their entries to the lines. -/
theorem steps (coherent : Coherent w s) (steps : Steps w es w') :
    ∃ s', Coherent w' s' ∧ s'.entries = s.entries ++ es := by
  induction steps generalizing s with
  | refl w => exact ⟨s, coherent, (List.append_nil _).symm⟩
  | head first later ih =>
    obtain ⟨middle, between, grown⟩ := coherent.step first
    obtain ⟨final, after, entries⟩ := ih between
    exact ⟨final, after, by rw [entries, grown, List.append_assoc]⟩

end Scriva.Engine.Coherence.Coherent
