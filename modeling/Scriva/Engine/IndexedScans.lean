import Scriva.Engine.Counts
import Scriva.Engine.OrderedIndex

/-!
# Scans with and without an index

A collection without encryption and an index on one field of it.  Writes take
maps of values of the language: the records are stored as the decoder will read
them, and the index follows the values as they were given, until it is rebuilt
from the segments.

A scan with a test on the field takes its candidates from the index if the index
can serve the test, and else reads the segments.  Candidates are tested again, so
the two answers differ exactly where the index lacks a record that passes the
test: where its value was given in a form that prints differently from the one
that is compared.
-/

namespace Scriva.Engine.IndexedScans

open Lib.Text Lib.Keyed Store.Record Store.Given Store.Ndjson Segment PrimaryIndex SecondaryIndex
open Directory Engine.Collection Journal Coherence Scanning OrderedIndex
open Lib.JsonText (isNumberChar)
open Query (Filter FieldFilter NumberOrder decodeValue equal)
open Writing (Writable afterPut afterDelete afterReserve revAt NoReturns sidx_afterAppend)
open Calls (Lawful)
open Engine.Sequential (fresh smallConfig amid_fresh)
open Counts (tidy_of_noReturns noReturns_fresh)
open Relation (ReflTransGen)

variable {N : Type} [JsonNumber N] [NumberOrder N] [GoFloat N]

/-! ## A collection and an index on a field -/

/-- The collection with no index registered, the index, and the value of the
field that the index was given for every id. -/
structure Shelf (N : Type) where
  w : World N
  index : Ordered N
  given : Nat → Option (GoValue N)

/-- The index follows the value that a write gives to the field. -/
def followGiven (index : Ordered N) (id : Nat) (value : Option (GoValue N)) :
    Follow → Ordered N
  | .index =>
    match value with
    | some value => index.add value id
    | none => index
  | .move =>
    match value with
    | some value => index.update id value
    | none => index.remove id

/-- The data that a record is read with. -/
def storedData (w : World N) (id : Nat) : Option (Option (Data N)) :=
  (w.col.index.lookup id).bind fun loc => (readEntry w id loc).toOption.map Entry.data

inductive Step : Shelf N → Shelf N → Prop where
  | put {shelf : Shelf N} {e : Entry N} {fields : Option (GoData N)} {follow : Follow}
      {bytes : Bytes} (writable : Writable shelf.w e e.data follow)
      (accepted : appendBytes e = .ok bytes) (written : Written fields e.data) :
      Step shelf
        { w := afterPut shelf.w e e.data follow bytes
          index := followGiven shelf.index e.id (given? fields shelf.index.sidx.field) follow
          given := Function.update shelf.given e.id (given? fields shelf.index.sidx.field) }
  | delete {shelf : Shelf N} {e : Entry N} {bytes : Bytes} (tombstone : e.op = .delete)
      (storable : Storable e) (reserved : e.id ≤ shelf.w.col.idSeq)
      (accepted : appendBytes e = .ok bytes) :
      Step shelf
        { w := afterDelete shelf.w e bytes
          index := shelf.index.remove e.id
          given := Function.update shelf.given e.id none }
  /-- A step of a write that appends no line. -/
  | other {shelf : Shelf N} {w : World N} (step : Writing.Step shelf.w [] w)
      (bare : w.col.sidx = []) : Step shelf { shelf with w }
  /-- A compaction or a reopening, after which every record has the same data. -/
  | moved {shelf : Shelf N} {w : World N} {s : Segments N} (after : Coherent w s)
      (bare : w.col.sidx = []) (plain : w.col.enc = none) (noReturns : NoReturns w.disk)
      (same : ∀ id, storedData w id = storedData shelf.w id) : Step shelf { shelf with w }
  | rebuild {shelf : Shelf N} {latest : Map Nat (Option (Option (Data N)))}
      (scanned : Sidx.scanLatest shelf.w.disk.segment (allSegments shelf.w.col) ∅ = some latest) :
      Step shelf
        { shelf with
          index := shelf.index.fill latest
          given := givenIn shelf.index.sidx.field latest }
  | reload {shelf : Shelf N} {unique : Bool} {loaded : Ordered N}
      (read : (Ordered.new shelf.index.sidx.field unique).load shelf.index.persist =
        (loaded, true)) : Step shelf { shelf with index := loaded }

/-- A collection on which an index has just been created. -/
structure Begun (shelf : Shelf N) : Prop where
  coherent : ∃ s, Coherent shelf.w s
  bare : shelf.w.col.sidx = []
  plain : shelf.w.col.enc = none
  noReturns : NoReturns shelf.w.disk
  built : ∃ field unique latest,
    Sidx.scanLatest shelf.w.disk.segment (allSegments shelf.w.col) ∅ = some latest ∧
      shelf.index = (Ordered.new field unique).fill latest ∧ shelf.given = givenIn field latest

/-! ## What runs keep -/

/-- The value that a log of lines gives to a field of a record. -/
def storedValue (field : String) (log : List (Located N)) (id : Nat) : Option (Value N) :=
  (live log id).bind fun line => field? line.entry.data field

/-- The index holds the values it was given, and each has the JSON form of the
stored one. -/
structure Kept (shelf : Shelf N) (s : Segments N) : Prop where
  coherent : Coherent shelf.w s
  bare : shelf.w.col.sidx = []
  plain : shelf.w.col.enc = none
  noReturns : NoReturns shelf.w.disk
  given : ∀ id, (shelf.given id).map GoValue.toJson =
    (storedValue shelf.index.sidx.field s.log id).map toJson
  maintains : Maintains shelf.index shelf.given

omit [NumberOrder N] [GoFloat N] in
theorem storedData_eq {w : World N} {s : Segments N} (recalls : Recalls w s s.log) (id : Nat) :
    storedData w id = (live s.log id).map fun line => line.entry.data := by
  rw [storedData]
  rcases known : w.col.index.lookup id with - | loc
  · rcases alive : live s.log id with - | line
    · rfl
    · obtain ⟨loc, there⟩ := index_of_live recalls alive
      rw [known] at there
      cases there
  · obtain ⟨line, alive, -, -, -, reads⟩ := live_of_index recalls known
    rw [alive, Option.bind_some, reads]
    rfl

omit [NumberOrder N] [GoFloat N] in
/-- The value of a field is that of the data that the record is read with. -/
theorem storedValue_eq {w : World N} {s : Segments N} (recalls : Recalls w s s.log)
    (field : String) (id : Nat) :
    storedValue field s.log id = (storedData w id).bind fun data => field? data field := by
  rw [storedData_eq recalls, Option.bind_map]
  rfl

theorem field_fill (index : Ordered N) (latest : Map Nat (Option (Option (Data N)))) :
    (index.fill latest).sidx.field = index.sidx.field :=
  (Sidx.flags_fill index.sidx latest).1

theorem field_remove (index : Ordered N) (id : Nat) :
    (index.remove id).sidx.field = index.sidx.field := by
  rw [Ordered.remove]
  split
  · rfl
  · exact Sidx.field_shrink _ _ _

theorem field_update (index : Ordered N) (id : Nat) (value : GoValue N) :
    (index.update id value).sidx.field = index.sidx.field := by
  rw [Ordered.update]
  split
  · rfl
  · exact Sidx.field_shrink _ _ _

theorem field_followGiven (index : Ordered N) (id : Nat) (value : Option (GoValue N))
    (follow : Follow) : (followGiven index id value follow).sidx.field = index.sidx.field := by
  cases follow with
  | index => cases value <;> rfl
  | move =>
    cases value with
    | none => exact field_remove index id
    | some value => exact field_update index id value

theorem maintains_followGiven {index : Ordered N} {given : Nat → Option (GoValue N)}
    (maintains : Maintains index given) {id : Nat} {follow : Follow}
    (fresh : follow = .index → given id = none) (value : Option (GoValue N)) :
    Maintains (followGiven index id value follow) (Function.update given id value) := by
  cases follow with
  | index =>
    cases value with
    | none =>
      have same : Function.update given id none = given := by
        rw [← fresh rfl, Function.update_eq_self]
      rw [same]
      exact maintains
    | some value => exact maintains.add (fresh rfl) value
  | move =>
    cases value with
    | none => exact maintains.remove id
    | some value => exact maintains.update id value

variable {latest : Map Nat (Option (Option (Data N)))}

omit [NumberOrder N] [GoFloat N] in
theorem givenIn_eq {w : World N} {s : Segments N} (coherent : Coherent w s) (field : String)
    (scanned : Sidx.scanLatest w.disk.segment (allSegments w.col) ∅ = some latest) (id : Nat) :
    givenIn field latest id = (storedValue field s.log id).map GoValue.ofValue := by
  rw [coherent.allSegments_eq, ← Segments.map_fst_layout, Sidx.scanLatest_eq coherent.disk.holds,
    Option.some.injEq] at scanned
  have looked := lookup_foldl (fun e : Entry N => e.id) Sidx.latestStep
    ((located s.layout).map Located.entry) ∅ id Sidx.latestEntry Sidx.latestEntry_eq_alter
  rw [scanned, Finmap.lookup_empty] at looked
  rw [givenIn, looked, Sidx.join_history_latestStep, Option.bind_map]
  rfl

theorem kept_rebuild {shelf : Shelf N} {s : Segments N} (coherent : Coherent shelf.w s)
    (bare : shelf.w.col.sidx = []) (plain : shelf.w.col.enc = none)
    (noReturns : NoReturns shelf.w.disk) (index : Ordered N)
    (scanned : Sidx.scanLatest shelf.w.disk.segment (allSegments shelf.w.col) ∅ = some latest) :
    Kept ⟨shelf.w, index.fill latest, givenIn index.sidx.field latest⟩ s where
  coherent := coherent
  bare := bare
  plain := plain
  noReturns := noReturns
  given := by
    intro id
    rw [field_fill]
    dsimp only
    rw [givenIn_eq coherent _ scanned, Option.map_map]
    congr 1
    funext value
    exact GoValue.toJson_ofValue value
  maintains := maintains_fill index latest

theorem kept_of_begun {shelf : Shelf N} (begun : Begun shelf) : ∃ s, Kept shelf s := by
  obtain ⟨s, coherent⟩ := begun.coherent
  obtain ⟨field, unique, latest, scanned, index, given⟩ := begun.built
  have kept := kept_rebuild coherent begun.bare begun.plain begun.noReturns
    (Ordered.new field unique) scanned
  refine ⟨s, ?_⟩
  obtain ⟨w, rebuilt, values⟩ := shelf
  cases index
  cases given
  exact kept

omit [JsonNumber N] [NumberOrder N] [GoFloat N] in
theorem storedValue_snoc (field : String) (log : List (Located N)) (line : Located N) :
    storedValue field (log ++ [line]) =
      Function.update (storedValue field log) line.entry.id
        (match line.entry.op with
          | .insert | .update => field? line.entry.data field
          | .delete => none
          | .other _ _ => storedValue field log line.entry.id) := by
  funext id
  rw [storedValue, live_snoc, Function.update_apply]
  by_cases here : id = line.entry.id
  · rw [if_pos here, if_pos here]
    cases line.entry.op with
    | insert | update | delete => rfl
    | other => rw [storedValue, here]
  · rw [if_neg here, if_neg here, storedValue]

theorem Kept.step {shelf shelf' : Shelf N} {s : Segments N} (kept : Kept shelf s)
    (step : Step shelf shelf') : ∃ s', Kept shelf' s' := by
  cases step with
  | @put e fields follow bytes writable accepted written =>
    obtain ⟨line, rfl, after⟩ := kept.coherent.put writable accepted
    have frame := (Writing.Step.put writable accepted).frame
    have fresh : follow = .index → shelf.given line.entry.id = none := by
      intro new
      have missing := writable.fresh new
      rw [kept.coherent.lookup_index, Option.map_eq_none_iff] at missing
      have none := kept.given line.entry.id
      rw [storedValue, show live s.log line.entry.id = Option.none from missing] at none
      exact Option.map_eq_none_iff.mp none
    refine ⟨_, after, ?_, frame.enc.trans kept.plain, frame.plain kept.noReturns, ?_,
      maintains_followGiven kept.maintains fresh _⟩
    · simp [afterPut, followEntry, setEntry, sidx_afterAppend, kept.bare]
    · intro id
      have value : (match line.entry.op with
          | .insert | .update => field? line.entry.data shelf.index.sidx.field
          | .delete => none
          | .other _ _ => storedValue shelf.index.sidx.field s.log line.entry.id) =
          field? line.entry.data shelf.index.sidx.field := by
        have put := writable.put
        cases op : line.entry.op with
        | insert | update => rfl
        | delete | other => simp [op, Op.isPut] at put
      rw [field_followGiven, s.log_append, storedValue_snoc]
      dsimp only
      rw [value, Function.update_apply, Function.update_apply]
      split
      · exact written.field _
      · exact kept.given id
  | @delete e bytes tombstone storable reserved accepted =>
    obtain ⟨line, rfl, after⟩ := kept.coherent.delete tombstone storable reserved accepted
    have frame := (Writing.Step.delete tombstone storable reserved accepted).frame
    refine ⟨_, after, ?_, frame.enc.trans kept.plain, frame.plain kept.noReturns, ?_,
      kept.maintains.remove _⟩
    · simp [afterDelete, unfollowEntry, dropEntry, sidx_afterAppend, kept.bare]
    · intro id
      rw [field_remove, s.log_append, storedValue_snoc]
      dsimp only
      rw [tombstone, Function.update_apply, Function.update_apply]
      split
      · rfl
      · exact kept.given id
  | @other w step bare =>
    obtain ⟨s', after, entries⟩ := kept.coherent.step step
    refine ⟨s', after, bare, step.frame.enc.trans kept.plain,
      step.frame.plain kept.noReturns, fun id => ?_, kept.maintains⟩
    have same := congrArg (fun es => records es id) entries
    rw [List.append_nil, after.record_eq, kept.coherent.record_eq] at same
    have value := congrArg (fun e => e.bind fun e => field? e.data shelf.index.sidx.field) same
    rw [Option.bind_map, Option.bind_map] at value
    exact (kept.given id).trans (congrArg _ value.symm)
  | moved after bare plain noReturns same =>
    refine ⟨_, after, bare, plain, noReturns, fun id => ?_, kept.maintains⟩
    rw [storedValue_eq after.recalls, same, ← storedValue_eq kept.coherent.recalls]
    exact kept.given id
  | rebuild scanned =>
    exact ⟨s, kept_rebuild kept.coherent kept.bare kept.plain kept.noReturns _ scanned⟩
  | @reload unique _ read =>
    have maintains := kept.maintains.loaded (.new shelf.index.sidx.field unique)
    cases read.symm.trans (kept.maintains.load _)
    rw [read] at maintains
    exact ⟨s, kept.coherent, kept.bare, kept.plain, kept.noReturns, kept.given, maintains⟩

theorem kept_of_run {start shelf : Shelf N} (begun : Begun start)
    (run : ReflTransGen Step start shelf) : ∃ s, Kept shelf s := by
  induction run with
  | refl => exact kept_of_begun begun
  | tail _ step ih =>
    obtain ⟨s, kept⟩ := ih
    exact kept.step step

/-! ## Answers -/

def withIndexes (w : World N) (indexes : List Sidx) : World N :=
  { w with col := { w.col with sidx := indexes } }

/-- Two scans return the same ids, revisions and data. -/
def SameAnswer (search : Search N) (w w' : World N) (f : Filter) : Prop :=
  ∃ results results', scan search w f = .ok results ∧ scan search w' f = .ok results' ∧
    ∀ answer, answer ∈ results.map (fun r => (r.id, r.rev, r.data)) ↔
      answer ∈ results'.map fun r => (r.id, r.rev, r.data)

/-- Every unexpired record that passes the test is in the part of the index that
the test reads: for a test of equality its value was given in a form that prints
as the value of the filter does, and for a range that the index serves it is
ordered inside the range. -/
def Covers (now : Int) (shelf : Shelf N) (test : FieldFilter) : Prop :=
  ∀ id e loc value held, getStored shelf.w now id = .ok (e, loc) →
    field? e.data test.field = some value → shelf.given id = some held →
    (test.op = .eq → equal value (decodeValue test.value) = true →
      held.sprint = filterValueToIndexKey N test.value) ∧
    (isRange test.op = true → (valKind (decodeValue test.value : Value N)).1 = shelf.index.view.kind →
      inRange test.op (Query.compare value (decodeValue test.value)) = true →
      inRange test.op (Query.compare (goValKind held).2
        (valKind (decodeValue test.value : Value N)).2) = true)

section Answers

variable {w : World N} {s : Segments N} (search : Search N) (f : Filter)

section

omit [GoFloat N]

/-- Without encryption a scan returns the matches. -/
theorem scan_eq_found (recalls : Recalls w s s.log) (tidy : Tidy s) (plain : w.col.enc = none) :
    scan search w f = .ok (found search f w s) := by
  rcases scan_eq search f recalls tidy (by rw [Opens, plain]; exact fun _ line _ => ⟨_, rfl⟩) with
    ⟨e, refused, -⟩ | ⟨-, rows, scanned, same⟩
  · rw [plain] at refused
    cases refused
  · rw [plain] at same
    rw [scanned, List.map_injective_iff.mpr (fun _ _ => Except.ok.inj) same]

theorem id_of_idMatch {id : Nat} {r : ScanResult N} (hit : idMatch search f w id = some r) :
    r.id = id := by
  rw [idMatch] at hit
  split at hit
  · cases hit
  · split at hit
    · rw [← Option.some.inj hit]
    · cases hit

/-- The matches among the lines are those of the records. -/
theorem mem_stream_iff (recalls : Recalls w s s.log) (r : ScanResult N) :
    r ∈ s.log.filterMap (lineMatch search f w) ↔ ∃ id, idMatch search f w id = some r := by
  rw [List.mem_filterMap]
  constructor
  · rintro ⟨line, inside, hit⟩
    rw [lineMatch] at hit
    split at hit
    · cases hit
    · rename_i loc known
      simp only [Option.ite_none_right_eq_some, Option.some.injEq] at hit
      obtain ⟨⟨place, -, fresh, fits⟩, rfl⟩ := hit
      obtain ⟨last, alive, matched⟩ := idMatch_of_known search f recalls known
      obtain ⟨other, alive', segment, offset, -⟩ := live_of_index recalls known
      rw [alive, Option.some.injEq] at alive'
      subst alive'
      have same := entry_of_place recalls inside (live_mem alive).1
        (place.1.symm.trans segment) (place.2.symm.trans offset)
      refine ⟨line.entry.id, ?_⟩
      rw [matched, fresh, ← same, fits]
      rfl
  · rintro ⟨id, hit⟩
    rcases known : w.col.index.lookup id with - | loc
    · rw [idMatch, getStored, known] at hit
      cases hit
    · obtain ⟨line, alive, matched⟩ := idMatch_of_known search f recalls known
      obtain ⟨other, alive', segment, offset, -⟩ := live_of_index recalls known
      rw [alive, Option.some.injEq] at alive'
      subst alive'
      obtain ⟨inside, same, put⟩ := live_mem alive
      rw [matched] at hit
      simp only [Option.ite_none_left_eq_some, Option.ite_none_right_eq_some,
        Option.some.injEq] at hit
      obtain ⟨fresh, fits, rfl⟩ := hit
      have kept : line.entry.op ≠ .delete := by
        intro tombstone
        rw [tombstone] at put
        cases put
      refine ⟨line, inside, ?_⟩
      rw [lineMatch, same, known]
      exact if_pos ⟨⟨segment, offset⟩, kept, Bool.eq_false_iff.mpr fresh, fits⟩

/-- The two answers are the same when the index has every match. -/
theorem sameAnswer_iff (recalls : Recalls w s s.log) (tidy : Tidy s) (plain : w.col.enc = none)
    {present absent : List Sidx}
    (unserved : indexCandidates search (withIndexes w absent).col f = none) :
    SameAnswer search (withIndexes w present) (withIndexes w absent) f ↔
      ∀ ids, indexCandidates search (withIndexes w present).col f = some ids →
        ∀ id r, idMatch search f w id = some r → id ∈ ids := by
  have still (indexes : List Sidx) : Recalls (withIndexes w indexes) s s.log :=
    ⟨recalls.segments, recalls.holds, recalls.index, recalls.within⟩
  have streamed : found search f (withIndexes w absent) s =
      s.log.filterMap (lineMatch search f w) := by
    rw [found, unserved]
    rfl
  rw [SameAnswer, scan_eq_found search f (still present) tidy plain,
    scan_eq_found search f (still absent) tidy plain, streamed]
  rcases candidates : indexCandidates search (withIndexes w present).col f with - | ids
  · refine iff_of_true ⟨_, _, rfl, rfl, fun answer => ?_⟩ (by rintro _ ⟨⟩)
    rw [found, candidates]
    rfl
  · have listed (r : ScanResult N) : r ∈ found search f (withIndexes w present) s ↔
        ∃ id ∈ ids, idMatch search f w id = some r := by
      rw [found, candidates]
      change r ∈ (ids.insertionSort (· ≤ ·)).filterMap (idMatch search f w) ↔ _
      simp only [List.mem_filterMap, List.mem_insertionSort]
    constructor
    · rintro ⟨results, results', scanned, scanned', same⟩ other equal id r hit
      obtain rfl := Except.ok.inj scanned
      obtain rfl := Except.ok.inj scanned'
      obtain rfl := Option.some.inj equal
      have answered := (same (r.id, r.rev, r.data)).mpr
        (List.mem_map.mpr ⟨r, (mem_stream_iff search f recalls r).mpr ⟨id, hit⟩, rfl⟩)
      obtain ⟨r', inside, pair⟩ := List.mem_map.mp answered
      obtain ⟨id', member, hit'⟩ := (listed r').mp inside
      have first : r'.id = r.id := congrArg Prod.fst pair
      rw [id_of_idMatch search f hit', id_of_idMatch search f hit] at first
      exact first ▸ member
    · intro complete
      refine ⟨_, _, rfl, rfl, fun answer => ?_⟩
      have same (r : ScanResult N) : r ∈ found search f (withIndexes w present) s ↔
          r ∈ s.log.filterMap (lineMatch search f w) := by
        rw [listed, mem_stream_iff search f recalls]
        constructor
        · rintro ⟨id, -, hit⟩
          exact ⟨id, hit⟩
        · rintro ⟨id, hit⟩
          exact ⟨id, complete ids rfl id r hit, hit⟩
      simp only [List.mem_map, same]

end

end Answers

/-! ## Where an index keeps the answer -/

omit [GoFloat N] in
/-- A test passes on the data that have the field with a passing value. -/
theorem matchData_field_iff (regexp : Query.Regexp) (test : FieldFilter) (data : Option (Data N)) :
    (test.op = .eq → ((Filter.field test).matchData regexp data = true ↔
      ∃ value, field? data test.field = some value ∧
        equal value (decodeValue test.value) = true)) ∧
    (isRange test.op = true → ((Filter.field test).matchData regexp data = true ↔
      ∃ value, field? data test.field = some value ∧
        inRange test.op (Query.compare value (decodeValue test.value)) = true)) := by
  rw [Filter.matchData, FieldFilter.matchData]
  rcases field? data test.field with - | value
  · simp
  · cases test.op <;> simp [isRange, inRange]

omit [GoFloat N] in
theorem idMatch_eq_some_iff {w : World N} (search : Search N) (f : Filter) (id : Nat) :
    (∃ r, idMatch search f w id = some r) ↔
      ∃ e loc, getStored w search.now id = .ok (e, loc) ∧
        f.matchData search.regexp e.data = true := by
  rw [idMatch]
  rcases getStored w search.now id with error | ⟨e, loc⟩
  · simp
  · simp

variable {now : Int} {e : Entry N} {loc : IndexEntry}

omit [NumberOrder N] [GoFloat N] in
theorem storedData_of_getStored {w : World N} {id : Nat}
    (read : getStored w now id = .ok (e, loc)) : storedData w id = some e.data := by
  rw [getStored] at read
  rcases known : w.col.index.lookup id with - | loc'
  · rw [known] at read
    cases read
  · rw [known] at read
    dsimp only at read
    split at read
    · cases read
    · rw [storedData, known, Option.bind_some]
      rcases line : readEntry w id loc' with error | e'
      · rw [line] at read
        cases read
      · rw [line] at read
        cases read
        rfl

namespace Kept

variable {shelf : Shelf N} {s : Segments N}

/-- A record that has the field was given a value for it. -/
theorem held_of_stored (kept : Kept shelf s) {id : Nat} {value : Value N}
    (read : getStored shelf.w now id = .ok (e, loc))
    (present : field? e.data shelf.index.sidx.field = some value) :
    ∃ held, shelf.given id = some held := by
  have given := kept.given id
  rw [storedValue_eq kept.coherent.recalls, storedData_of_getStored read, Option.bind_some,
    present, Option.map_some] at given
  obtain ⟨held, found, -⟩ := Option.map_eq_some_iff.mp given
  exact ⟨held, found⟩

variable {test : FieldFilter}

/-- Every match is among the ids exactly where `inside` holds of every value that
passes the test. -/
theorem among_iff (kept : Kept shelf s) (search : Search N)
    (about : test.field = shelf.index.sidx.field) {passes : Value N → Prop}
    (hits : ∀ data : Option (Data N),
      (Filter.field test).matchData search.regexp data = true ↔
        ∃ value, field? data test.field = some value ∧ passes value) {ids : List Nat}
    {inside : GoValue N → Prop}
    (members : ∀ id, id ∈ ids ↔ ∃ held, shelf.given id = some held ∧ inside held) :
    (∀ id r, idMatch search (.field test) shelf.w id = some r → id ∈ ids) ↔
      ∀ id e loc value held, getStored shelf.w search.now id = .ok (e, loc) →
        field? e.data test.field = some value → shelf.given id = some held →
        passes value → inside held := by
  constructor
  · intro complete id e loc value held read present given passed
    obtain ⟨r, hit⟩ := (idMatch_eq_some_iff search (.field test) id).mpr
      ⟨e, loc, read, (hits e.data).mpr ⟨value, present, passed⟩⟩
    obtain ⟨held', given', holds⟩ := (members id).mp (complete id r hit)
    rw [given, Option.some.injEq] at given'
    exact given' ▸ holds
  · intro covered id r hit
    obtain ⟨e, loc, read, fits⟩ := (idMatch_eq_some_iff search (.field test) id).mp ⟨r, hit⟩
    obtain ⟨value, present, passed⟩ := (hits e.data).mp fits
    obtain ⟨held, given⟩ := kept.held_of_stored read (about ▸ present)
    exact (members id).mpr ⟨held, given, covered id e loc value held read present given passed⟩

/-- The index has every match of a test on its field exactly where it covers
the test. -/
theorem complete_iff (kept : Kept shelf s) (search : Search N)
    (about : test.field = shelf.index.sidx.field) (view : search.view test.field = shelf.index.view)
    {indexes : List Sidx}
    (found : findIndex (withIndexes shelf.w indexes).col test.field = some shelf.index.sidx) :
    (∀ ids, indexCandidates search (withIndexes shelf.w indexes).col (.field test) = some ids →
      ∀ id r, idMatch search (.field test) shelf.w id = some r → id ∈ ids) ↔
      Covers search.now shelf test := by
  by_cases equality : test.op = .eq
  · have noRange : isRange .eq = false := rfl
    have members (id : Nat) :
        id ∈ (shelf.index.sidx.bucket (filterValueToIndexKey N test.value)).sort (· ≤ ·) ↔
          ∃ held, shelf.given id = some held ∧
            held.sprint = filterValueToIndexKey N test.value := by
      rw [Finset.mem_sort, kept.maintains.exact.bucket, Option.map_eq_some_iff]
    have among := kept.among_iff search about
      (fun data => (matchData_field_iff search.regexp test data).1 equality) members
    rw [indexCandidates_eq search equality found]
    simp only [Option.some.injEq, forall_eq', Covers, equality, noRange, forall_true_left,
      Bool.false_eq_true, false_imp_iff, and_true]
    exact among
  · by_cases range : isRange test.op = true
    · have candidates : indexCandidates search (withIndexes shelf.w indexes).col (.field test) =
          lookupRange shelf.index.view shelf.index.sidx test.op (decodeValue test.value) := by
        rw [indexCandidates]
        cases op : test.op with
        | gt | gte | lt | lte =>
          dsimp only
          rw [found, view]
          rfl
        | eq | neq | contains | regex | other =>
          rw [op] at range
          cases range
      rw [candidates]
      simp only [Covers, equality, false_imp_iff, true_and, range, forall_true_left]
      have hits (data : Option (Data N)) :=
        (matchData_field_iff search.regexp test data).2 range
      by_cases same : (valKind (decodeValue test.value : Value N)).1 = shelf.index.view.kind
      · obtain ⟨ids, served, members⟩ := mem_lookupRange kept.maintains range same
        rw [served]
        simp only [Option.some.injEq, forall_eq', same, forall_true_left]
        exact kept.among_iff search about hits members
      · simp only [same, false_imp_iff, implies_true, iff_true]
        intro ids served id r hit
        -- the index serves a value of another kind only before it has seen any
        have empty : shelf.index.view.kind = .empty := by
          rw [lookupRange] at served
          split at served
          · assumption
          · cases served
          · rw [if_pos same] at served
            cases served
        obtain ⟨e, loc, read, fits⟩ := (idMatch_eq_some_iff search (.field test) id).mp ⟨r, hit⟩
        obtain ⟨value, present, -⟩ := (hits e.data).mp fits
        obtain ⟨held, given⟩ := kept.held_of_stored read (about ▸ present)
        exact absurd (kept.maintains.mem_buckets given)
          (kept.maintains.not_mem_of_empty empty _)
    · have candidates : indexCandidates search (withIndexes shelf.w indexes).col (.field test) =
          none := by
        rw [indexCandidates]
        cases op : test.op with
        | eq => exact absurd op equality
        | gt | gte | lt | lte =>
          rw [op] at range
          exact absurd rfl range
        | neq | contains | regex | other => rfl
      rw [candidates]
      simp [Covers, equality, range]

end Kept

/-- An index on a field keeps the answer to a test on it exactly where it covers
the test, in every state that a run leads to. -/
theorem index_keeps_answer_iff {start shelf : Shelf N} (begun : Begun start)
    (run : ReflTransGen Step start shelf) (search : Search N) {test : FieldFilter}
    (about : test.field = shelf.index.sidx.field)
    (view : search.view test.field = shelf.index.view) {others : List Sidx}
    (apart : ∀ t ∈ others, t.field ≠ test.field) :
    SameAnswer search (withIndexes shelf.w (others ++ [shelf.index.sidx]))
        (withIndexes shelf.w others) (.field test) ↔
      Covers search.now shelf test := by
  obtain ⟨s, kept⟩ := kept_of_run begun run
  have missing : findIndex (withIndexes shelf.w others).col test.field = none :=
    List.find?_eq_none.mpr fun t member => by simpa using apart t member
  have found : findIndex (withIndexes shelf.w (others ++ [shelf.index.sidx])).col test.field =
      some shelf.index.sidx := by
    have skipped : others.find? (fun t => decide (t.field = test.field)) = none := missing
    rw [findIndex]
    change (others ++ [shelf.index.sidx]).find? _ = _
    rw [List.find?_append, skipped, Option.none_or, List.find?_singleton,
      if_pos (decide_eq_true about.symm)]
  have unserved : indexCandidates search (withIndexes shelf.w others).col (.field test) = none := by
    rw [indexCandidates]
    cases test.op with
    | eq => exact congrArg (Option.map _) missing
    | gt | gte | lt | lte =>
      dsimp only
      rw [missing]
      rfl
    | neq | contains | regex | other => rfl
  rw [sameAnswer_iff search _ kept.coherent.recalls
    (tidy_of_noReturns kept.coherent.disk.holds kept.noReturns) kept.plain unserved]
  exact kept.complete_iff search about view found

/-! ## Whole numbers with the two zeros of floats -/

inductive Whole where
  | int (value : Int)
  | negZero
deriving DecidableEq

namespace Whole

def format : Whole → String
  | .int value => String.ofList (signed value)
  | .negZero => "-0"

def parse (literal : String) : Option Whole :=
  if literal = "-0" then some .negZero else (signed? literal.toList).map .int

theorem parse_format (number : Whole) : parse (format number) = some number := by
  cases number with
  | negZero => rfl
  | int value =>
    have apart : String.ofList (signed value) ≠ "-0" := by
      intro same
      have text : signed value = ['-', '0'] := by simpa using congrArg String.toList same
      have read := signed?_signed value
      rw [text, show signed? ['-', '0'] = some 0 by decide, Option.some.injEq] at read
      rw [← read] at text
      exact absurd text (by decide)
    rw [format, parse, if_neg apart, String.toList_ofList, signed?_signed]
    rfl

def toInt : Whole → Int
  | .int value => value
  | .negZero => 0

end Whole

instance : JsonNumber Whole where
  format := Whole.format
  parse := Whole.parse
  sprint := Whole.format
  parse_format := Whole.parse_format
  format_literal number := by
    cases number with
    | int value => exact JsonNumber.format_literal value
    | negZero =>
      change "-0".toList ≠ [] ∧ ∀ c ∈ "-0".toList, isNumberChar c
      simp [isNumberChar]

instance : NumberOrder Whole where
  compare left right := Ord.compare left.toInt right.toInt
  compare_of_sprint left right same := by
    have parsed := congrArg Whole.parse same
    rw [show JsonNumber.sprint left = left.format from rfl,
      show JsonNumber.sprint right = right.format from rfl, Whole.parse_format,
      Whole.parse_format, Option.some.injEq] at parsed
    rw [parsed]
    exact Int.compare_eq_eq.mpr rfl

instance : GoFloat Whole where
  parseFloat := Whole.parse
  zero := .int 0
  parseFloat_sprint := Whole.parse_format
  transitive := by
    refine { eq_swap := ?_, isLE_trans := ?_ }
    · intro left right
      exact Std.OrientedOrd.eq_swap
    · intro first second third
      exact Std.TransOrd.isLE_trans

/-! ## One record -/

/-- A record with the number as its field `n`. -/
def numbered (number : Whole) : Entry Whole where
  id := 1
  op := .insert
  ts := .zero
  rev := 1
  data := some ⟨[("n", .num number)], rfl⟩


/-- A new collection with an index on the field `n`. -/
def blankShelf : Shelf Whole where
  w := fresh smallConfig none .asWritten
  index := (Ordered.new "n" false).fill ∅
  given := givenIn "n" ∅

/-- The record inserted, with its number in the given form. -/
def shelfWith (number : Whole) (value : GoValue Whole) : Shelf Whole where
  w := afterPut (afterReserve blankShelf.w) (numbered number) (numbered number).data .index
    ((appendBytes (numbered number)).toOption.getD [])
  index := followGiven blankShelf.index 1 (some value) .index
  given := Function.update blankShelf.given 1 (some value)

theorem begun_blankShelf : Begun blankShelf := by
  have lawful : ∀ policy ∈ (none : Option (Encryptor Whole)), Lawful policy :=
    nofun
  obtain ⟨amid, -, plain⟩ := amid_fresh smallConfig .asWritten lawful
  exact ⟨⟨_, amid.coherent⟩, by decide +kernel, plain,
    noReturns_fresh smallConfig .asWritten lawful, "n", false, ∅, by decide +kernel, rfl, rfl⟩

variable {number : Whole}

theorem writable_numbered (storable : Storable (numbered number)) :
    Writable (afterReserve blankShelf.w) (numbered number) (numbered number).data .index where
  put := rfl
  storable := storable
  above := by
    change revAt (afterReserve blankShelf.w).col.index 1 < 1
    decide +kernel
  reserved := Nat.succ_le_succ (Nat.zero_le _)
  fresh := fun _ => by
    change (afterReserve blankShelf.w).col.index.lookup 1 = none
    decide +kernel
  agrees := fun _ _ => rfl

theorem run_shelfWith {value : GoValue Whole} (same : value.toJson = .num number.format)
    (accepted : (appendBytes (numbered number)).toOption.isSome = true)
    (storable : Storable (numbered number)) :
    ReflTransGen Step blankShelf (shelfWith number value) := by
  have reserved : Step blankShelf { blankShelf with w := afterReserve blankShelf.w } :=
    .other (.reserve _) begun_blankShelf.bare
  have encoded : appendBytes (numbered number) =
      .ok ((appendBytes (numbered number)).toOption.getD []) := by
    rcases read : appendBytes (numbered number) with error | bytes
    · rw [read] at accepted
      cases accepted
    · rfl
  have written : Written (some [("n", value)]) (numbered number).data := by
    change some [("n", value.toJson)] = some [("n", .num number.format)]
    rw [same]
  have put : Step ⟨afterReserve blankShelf.w, blankShelf.index, blankShelf.given⟩
      ⟨_, followGiven blankShelf.index 1 (given? (some [("n", value)]) blankShelf.index.sidx.field)
          .index,
        Function.update blankShelf.given 1
          (given? (some [("n", value)]) blankShelf.index.sidx.field)⟩ :=
    .put (writable_numbered storable) encoded written
  have field : blankShelf.index.sidx.field = "n" := by decide +kernel
  rw [field] at put
  exact (ReflTransGen.single reserved).tail put

/-- A query with an index's ordered view. -/
def searchWith (shelf : Shelf Whole) : Search Whole := ⟨fun _ => none, fun _ => shelf.index.view, 0⟩

/-- A small integer is found whichever form it was given in. -/
theorem index_keeps_answer_small :
    SameAnswer (searchWith (shelfWith (.int 5) (.int 5)))
      (withIndexes (shelfWith (.int 5) (.int 5)).w ([] ++ [(shelfWith (.int 5) (.int 5)).index.sidx]))
      (withIndexes (shelfWith (.int 5) (.int 5)).w []) (.field ⟨"n", .eq, "5"⟩) := by
  refine (index_keeps_answer_iff begun_blankShelf
    (run_shelfWith rfl (by decide +kernel) (by decide +kernel)) _ (by decide +kernel) rfl
    (by intro _ absurd; cases absurd)).mpr ?_
  intro id e loc value held read present given
  have held : held = .int 5 := by
    rw [shelfWith] at given
    dsimp only at given
    rw [Function.update_apply] at given
    split at given
    · exact (Option.some.inj given).symm
    · cases given
  subst held
  exact ⟨fun _ _ => by decide +kernel, nofun⟩

/-- Negative zero equals zero, and an index has it under another key. -/
theorem index_misses_negative_zero :
    ReflTransGen Step blankShelf (shelfWith .negZero (.float .negZero)) ∧
      ((scan (searchWith (shelfWith .negZero (.float .negZero)))
        (withIndexes (shelfWith .negZero (.float .negZero)).w [])
          (.field ⟨"n", .eq, "0"⟩)).map List.length).toOption = some 1 ∧
      ((scan (searchWith (shelfWith .negZero (.float .negZero)))
        (withIndexes (shelfWith .negZero (.float .negZero)).w
          [(shelfWith .negZero (.float .negZero)).index.sidx])
          (.field ⟨"n", .eq, "0"⟩)).map List.length).toOption = some 0 := by
  refine ⟨run_shelfWith rfl (by decide +kernel) (by decide +kernel), ?_, ?_⟩
  · decide +kernel
  · decide +kernel

end Scriva.Engine.IndexedScans
