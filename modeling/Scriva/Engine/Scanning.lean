import Scriva.Engine.Calls
import Scriva.Query.Filter

/-!
# Scans and counts

A scan visits the records that match a filter, from a secondary index where one
can serve the filter and else from the segments, where a line counts if the
primary index points at it.  A count takes the size of an index where it can.
Both pass over records whose time has passed, except where the size of an index
is taken for the answer.
-/

namespace Scriva.Engine.Scanning

open Lib.Text Store.Rfc3339 Store.Record Store.Ndjson Segment PrimaryIndex
open SecondaryIndex Directory Engine.Collection Coherence
open Query (Filter FieldFilter Regexp NumberOrder decodeValue equal equal_of_sprint)
open Calls (findIndex_eq_some)

variable {N : Type}

/-! ## Ordered views of indexes -/

inductive IndexKind where
  | empty
  | numeric
  | string
  | mixed
deriving DecidableEq, Repr

structure OrderedKey (N : Type) where
  key : String
  val : Value N

/-- The ordered view that an index keeps beside its buckets. -/
structure OrderedView (N : Type) where
  kind : IndexKind
  sorted : List (OrderedKey N)

/-- The least position in `lo..hi` from which on a test holds, by bisection. -/
def search (test : Nat → Bool) : Nat → Nat → Nat → Nat
  | 0, lo, _ => lo
  | fuel + 1, lo, hi =>
    if lo < hi then
      let mid := (lo + hi) / 2
      if test mid then search test fuel lo mid else search test fuel (mid + 1) hi
    else lo

variable [JsonNumber N]

def valKind : Value N → IndexKind × Value N
  | .num number => (.numeric, .num number)
  | .str text => (.string, .str text)
  | value => (.string, .str (sprint value))

variable [NumberOrder N]

/-- The positions of the ordered view that a range covers. -/
def rangeBounds (view : OrderedView N) (op : Query.Op) (value : Value N) : Option (Nat × Nat) :=
  let n := view.sorted.length
  let find (test : Ordering → Bool) : Nat :=
    search (fun i => ((view.sorted[i]?).map fun entry =>
      test (Query.compare entry.val value)).getD false) n 0 n
  match op with
  | .gt => some (find (· = .gt), n)
  | .gte => some (find (· ≠ .lt), n)
  | .lt => some (0, find (· ≠ .lt))
  | .lte => some (0, find (· = .gt))
  | _ => none

/-- The ids whose field satisfies a range, if the ordered view can serve it. -/
def lookupRange (view : OrderedView N) (s : Sidx) (op : Query.Op) (value : Value N) :
    Option (List Nat) :=
  match view.kind with
  | .empty => some []
  | .mixed => none
  | kind =>
    if (valKind value).1 ≠ kind then none
    else (rangeBounds view op (valKind value).2).map fun (lo, hi) =>
      ((view.sorted.take hi).drop lo).flatMap fun entry =>
        (s.bucket entry.key).sort (· ≤ ·)

/-! ## Visiting matches -/

structure ScanResult (N : Type) where
  id : Nat
  rev : Nat
  data : Option (Data N)
  ts : Timestamp

/-- What a query sees beside the collection: the regular expressions of the
platform, the ordered view of the index on a field, and the time. -/
structure Search (N : Type) where
  regexp : Regexp
  view : String → OrderedView N
  now : Int

section Visit

variable {σ : Type} (visit : ScanResult N → σ → Except Error σ)

def filterValueToIndexKey (N : Type) [JsonNumber N] (text : String) : String :=
  sprint (decodeValue text : Value N)

/-- The ids that an index holds for a filter. -/
def indexCandidates (search : Search N) (c : Collection N) : Filter → Option (List Nat)
  | .field test =>
    match test.op with
    | .eq => (findIndex c test.field).map fun s =>
      (s.bucket (filterValueToIndexKey N test.value)).sort (· ≤ ·)
    | .gt | .gte | .lt | .lte => (findIndex c test.field).bind fun s =>
      lookupRange (search.view test.field) s test.op (decodeValue test.value)
    | _ => none
  | _ => none

/-- Visit the matches among the given ids; an id that cannot be read is passed
over. -/
def visitIds (search : Search N) (w : World N) (f : Filter) : List Nat → σ → Except Error σ
  | [], acc => .ok acc
  | id :: ids, acc =>
    match getStored w search.now id with
    | .error _ => visitIds search w f ids acc
    | .ok (e, loc) =>
      if f.matchData search.regexp e.data then
        (visit ⟨id, loc.rev, e.data, e.ts⟩ acc).bind (visitIds search w f ids)
      else visitIds search w f ids acc

def visitCandidates (search : Search N) (w : World N) (f : Filter) (ids : List Nat) (acc : σ) :
    Except Error σ :=
  visitIds visit search w f (ids.insertionSort (· ≤ ·)) acc

/-- Visit the line at an offset if it is the present version of a record. -/
def visitLine (search : Search N) (w : World N) (f : Filter) (segment offset : Nat)
    (e : Entry N) (acc : σ) : Except Error σ :=
  match w.col.index.lookup e.id with
  | none => .ok acc
  | some loc =>
    if loc.segment ≠ segment ∨ loc.offset ≠ offset then .ok acc
    else if e.op = .delete then .ok acc
    else if expired loc.expiresAt search.now then .ok acc
    else if f.matchData search.regexp e.data then visit ⟨e.id, loc.rev, e.data, e.ts⟩ acc
    else .ok acc

/-- Lines in order with their offsets; the first that is too long or cannot be
decoded ends the scan. -/
def scanLines (yield : Nat → Entry N → σ → Except Error σ) :
    List Bytes → Nat → σ → Except Error σ
  | [], _, acc => .ok acc
  | line :: lines, offset, acc =>
    if line.length < maxScanTokenSize then
      let next := offset + (dropCR line).length + 1
      if dropCR line = [] then scanLines yield lines next acc
      else
        match decode (dropCR line) with
        | .error _ => .error .unreadable
        | .ok e => (yield offset e acc).bind (scanLines yield lines next)
    else .error .unreadable

def scanFrom (file : Bytes) (yield : Nat → Entry N → σ → Except Error σ) (acc : σ) :
    Except Error σ :=
  scanLines yield (scannedLines file) 0 acc

def streamSegments (search : Search N) (w : World N) (f : Filter) :
    List Nat → σ → Except Error σ
  | [], acc => .ok acc
  | segment :: segments, acc =>
    match w.disk.segment segment with
    | none => .error .unreadable
    | some file =>
      (scanFrom file (visitLine visit search w f segment) acc).bind
        (streamSegments search w f segments)

def streamLive (search : Search N) (w : World N) (f : Filter) (acc : σ) : Except Error σ :=
  streamSegments visit search w f (allSegments w.col) acc

/-- A filter must not be about encrypted fields. -/
def checkFilterFields (enc : Option (Encryptor N)) (f : Filter) : Except Error Unit :=
  match enc.bind fun enc => f.firstField enc.isEncryptedField with
  | some field => .error (.fieldEncrypted field)
  | none => .ok ()

def forEachMatch (search : Search N) (w : World N) (f : Filter) (acc : σ) : Except Error σ :=
  match checkFilterFields w.col.enc f with
  | .error e => .error e
  | .ok _ =>
    match indexCandidates search w.col f with
    | some ids => visitCandidates visit search w f ids acc
    | none => streamLive visit search w f acc

end Visit

/-! ## Scan, Count, Aggregate -/

/-- Every match with its data as its owner wrote it. -/
def scan (search : Search N) (w : World N) (f : Filter) : Except Error (List (ScanResult N)) :=
  forEachMatch (fun r found =>
    (materialize w.col.enc r.data).map fun data => found ++ [{ r with data }]) search w f []

def count (search : Search N) (w : World N) (f : Filter) : Except Error Nat :=
  let stream := forEachMatch (fun _ n => .ok (n + 1)) search w f 0
  match f with
  | .matchAll => .ok w.col.index.keys.card
  | .field test =>
    if test.op = .eq then
      match findIndex w.col test.field with
      | some s => .ok (s.bucket (filterValueToIndexKey N test.value)).card
      | none => stream
    else stream
  | _ => stream

/-- An encrypted field cannot be aggregated. -/
def checkField (enc : Option (Encryptor N)) (field : String) : Except Error Unit :=
  if field ≠ "" ∧ enc.any (fun enc => enc.isEncryptedField field) then
    .error (.fieldEncrypted field)
  else .ok ()

/-- The counts that an aggregation without a group field emits: one, except that
an aggregation of a numeric field emits no group when nothing matches. -/
def aggregate (search : Search N) (w : World N) (f : Filter) (field : String) :
    Except Error (List Nat) :=
  match checkField w.col.enc field with
  | .error e => .error e
  | .ok _ =>
    if field = "" then (count search w f).map fun n => [n]
    else (forEachMatch (fun _ n => .ok (n + 1)) search w f 0).map fun n =>
      if n = 0 then [] else [n]

/-! ## The matches of a filter -/

variable {lines : List (SegmentLine N)}

section Matches

variable {σ : Type} {w : World N} {s : Segments N} (visit : ScanResult N → σ → Except Error σ)
  (search : Search N) (f : Filter)

/-- The match that the line at a place is, if it is one. -/
def lineMatch (w : World N) (line : Located N) : Option (ScanResult N) :=
  match w.col.index.lookup line.entry.id with
  | none => none
  | some loc =>
    if (loc.segment = line.segment ∧ loc.offset = line.offset) ∧ line.entry.op ≠ .delete ∧
        expired loc.expiresAt search.now = false ∧
        f.matchData search.regexp line.entry.data = true then
      some ⟨line.entry.id, loc.rev, line.entry.data, line.entry.ts⟩
    else none

/-- The match that a record is, if it is one. -/
def idMatch (w : World N) (id : Nat) : Option (ScanResult N) :=
  match getStored w search.now id with
  | .error _ => none
  | .ok (e, loc) =>
    if f.matchData search.regexp e.data then some ⟨id, loc.rev, e.data, e.ts⟩ else none

theorem visitIds_eq (ids : List Nat) (acc : σ) :
    visitIds visit search w f ids acc =
      (ids.filterMap (idMatch search f w)).foldlM (fun acc r => visit r acc) acc := by
  induction ids generalizing acc with
  | nil => rfl
  | cons id ids ih =>
    rw [visitIds]
    rcases read : getStored w search.now id with e | ⟨e, loc⟩
    · have none : idMatch search f w id = none := by rw [idMatch, read]
      rw [List.filterMap_cons_none none]
      exact ih acc
    · by_cases fits : f.matchData search.regexp e.data = true
      · have some : idMatch search f w id = some ⟨id, loc.rev, e.data, e.ts⟩ := by
          rw [idMatch, read]
          exact if_pos fits
        rw [List.filterMap_cons_some some, List.foldlM_cons]
        simp only [fits, if_true]
        rcases visit ⟨id, loc.rev, e.data, e.ts⟩ acc with error | next
        · rfl
        · exact ih next
      · have none : idMatch search f w id = none := by
          rw [idMatch, read]
          exact if_neg fits
        rw [List.filterMap_cons_none none]
        simp only [fits]
        exact ih acc

theorem visitLine_eq (line : Located N) (acc : σ) :
    visitLine visit search w f line.segment line.offset line.entry acc =
      match lineMatch search f w line with
      | none => .ok acc
      | some r => visit r acc := by
  rw [visitLine, lineMatch]
  rcases w.col.index.lookup line.entry.id with - | loc
  · rfl
  · by_cases place : loc.segment = line.segment ∧ loc.offset = line.offset
    · by_cases tombstone : line.entry.op = .delete
      · simp [place, tombstone]
      · cases late : expired loc.expiresAt search.now with
        | true => simp [place, tombstone, late]
        | false =>
          by_cases fits : f.matchData search.regexp line.entry.data = true
          · simp [place, tombstone, late, fits]
          · simp [place, tombstone, late, fits]
    · have elsewhere : loc.segment ≠ line.segment ∨ loc.offset ≠ line.offset :=
        not_and_or.mp place
      simp [place, elsewhere]

/-- Lines end without a carriage return, as the engine writes them. -/
def Tidy (s : Segments N) : Prop :=
  ∀ segment ∈ s.layout, ∀ line ∈ segment.2, dropCR line.raw = line.raw

omit [NumberOrder N] in
theorem scanLines_eq (yield : Located N → σ → Except Error σ) (segment : Nat)
    (tidy : ∀ line ∈ lines, dropCR line.raw = line.raw) (offset : Nat) (acc : σ) :
    scanLines (fun offset e acc => yield ⟨segment, offset, e⟩ acc) (lines.map SegmentLine.raw)
        offset acc =
      (locateLines segment offset lines).foldlM (fun acc line => yield line acc) acc := by
  induction lines generalizing offset acc with
  | nil => rfl
  | cons line lines ih =>
    have whole := tidy line (.head _)
    have later (offset : Nat) (acc : σ) :=
      ih (fun other member => tidy other (.tail _ member)) offset acc
    rw [List.map_cons, scanLines, locateLines, List.foldlM_cons, if_pos line.fits,
      if_neg line.dropCR_ne_nil, line.reads, whole]
    change (yield ⟨segment, offset, line.entry⟩ acc).bind _ = _
    rcases yield ⟨segment, offset, line.entry⟩ acc with error | next
    · rfl
    · exact later _ next

theorem foldlM_lineMatch (lines : List (Located N)) (acc : σ) :
    lines.foldlM (fun acc line =>
        visitLine visit search w f line.segment line.offset line.entry acc) acc =
      (lines.filterMap (lineMatch search f w)).foldlM (fun acc r => visit r acc) acc := by
  induction lines generalizing acc with
  | nil => rfl
  | cons line lines ih =>
    rw [List.foldlM_cons, visitLine_eq]
    rcases found : lineMatch search f w line with - | r
    · rw [List.filterMap_cons_none found]
      exact ih acc
    · rw [List.filterMap_cons_some found, List.foldlM_cons]
      change (visit r acc).bind _ = _
      rcases visit r acc with error | next
      · rfl
      · exact ih next

theorem streamSegments_eq {layout : Layout N} (holds : Holds w.disk.segment layout)
    (tidy : ∀ segment ∈ layout, ∀ line ∈ segment.2, dropCR line.raw = line.raw) (acc : σ) :
    streamSegments visit search w f (layout.map Prod.fst) acc =
      ((located layout).filterMap (lineMatch search f w)).foldlM (fun acc r => visit r acc) acc := by
  induction layout generalizing acc with
  | nil => rfl
  | cons segment layout ih =>
    have file := holds segment (.head _)
    have here : scanFrom (fileOf segment.2) (visitLine visit search w f segment.1) acc =
        ((locateLines segment.1 0 segment.2).filterMap (lineMatch search f w)).foldlM
          (fun acc r => visit r acc) acc := by
      rw [scanFrom, scannedLines_fileOf, ← foldlM_lineMatch]
      exact scanLines_eq (fun line acc =>
        visitLine visit search w f line.segment line.offset line.entry acc) segment.1
        (tidy segment (.head _)) 0 acc
    rw [List.map_cons, streamSegments, file]
    simp only [here]
    rw [located, List.flatMap_cons, List.filterMap_append, List.foldlM_append]
    rcases ((locateLines segment.1 0 segment.2).filterMap (lineMatch search f w)).foldlM
      (fun acc r => visit r acc) acc with error | next
    · rfl
    · exact ih (fun other member => holds other (.tail _ member))
        (fun other member => tidy other (.tail _ member)) next

/-- The matches of a filter in a collection whose index speaks of all lines. -/
def found (w : World N) (s : Segments N) : List (ScanResult N) :=
  match indexCandidates search w.col f with
  | some ids => (ids.insertionSort (· ≤ ·)).filterMap (idMatch search f w)
  | none => s.log.filterMap (lineMatch search f w)

/-- A query visits the matches one after another. -/
theorem forEachMatch_eq (recalls : Recalls w s s.log) (tidy : Tidy s) (acc : σ) :
    forEachMatch visit search w f acc =
      match checkFilterFields w.col.enc f with
      | .error e => .error e
      | .ok _ => (found search f w s).foldlM (fun acc r => visit r acc) acc := by
  rw [forEachMatch]
  rcases checkFilterFields w.col.enc f with e | ⟨⟩
  · rfl
  · rw [found]
    rcases indexCandidates search w.col f with - | ids
    · rw [streamLive, recalls.segments, ← Segments.map_fst_layout]
      exact streamSegments_eq visit search f recalls.holds tidy acc
    · exact visitIds_eq visit search f _ acc

end Matches

/-! ## What scans and counts return -/

section Counts

variable {w : World N} {s : Segments N} (search : Search N) (f : Filter)

variable {loc : IndexEntry} {line : Located N} {r : ScanResult N} {test : FieldFilter}

section

omit [NumberOrder N]

/-- The index entry of a record points at its latest line. -/
theorem live_of_index (recalls : Recalls w s s.log) {id : Nat}
    (known : w.col.index.lookup id = some loc) :
    ∃ line, live s.log id = some line ∧ loc.segment = line.segment ∧ loc.offset = line.offset ∧
      loc.expiresAt = line.entry.expiresAt ∧ readEntry w id loc = .ok line.entry := by
  rw [recalls.index, lookup_replay, Option.map_eq_some_iff] at known
  obtain ⟨⟨line, rev⟩, version, rfl⟩ := known
  have alive : live s.log id = some line := by
    rw [live, version]
    rfl
  exact ⟨line, alive, rfl, rfl, rfl, recalls.reads (live_mem alive).1 id rev⟩

theorem index_of_live (recalls : Recalls w s s.log) {id : Nat} (alive : live s.log id = some line) :
    ∃ loc, w.col.index.lookup id = some loc := by
  obtain ⟨found, version, -⟩ := Option.map_eq_some_iff.mp alive
  rw [recalls.index, lookup_replay, version]
  exact ⟨_, rfl⟩

theorem entry_of_place (recalls : Recalls w s s.log) {other : Located N} (member : line ∈ s.log)
    (inside : other ∈ s.log) (segment : line.segment = other.segment)
    (offset : line.offset = other.offset) : line.entry = other.entry := by
  have first := recalls.reads member 0 0
  have second := recalls.reads inside 0 0
  rw [readEntry, Located.toIndexEntry] at first second
  dsimp only at first second
  rw [segment, offset] at first
  exact Except.ok.inj (first.symm.trans second)

end

/-- A candidate of the index matches when it has not expired and its latest data match. -/
theorem idMatch_of_known (recalls : Recalls w s s.log) {id : Nat}
    (known : w.col.index.lookup id = some loc) :
    ∃ line, live s.log id = some line ∧ idMatch search f w id =
      if expired loc.expiresAt search.now then none
      else if f.matchData search.regexp line.entry.data then
        some ⟨id, loc.rev, line.entry.data, line.entry.ts⟩
      else none := by
  obtain ⟨line, alive, -, -, -, reads⟩ := live_of_index recalls known
  refine ⟨line, alive, ?_⟩
  rw [idMatch, getStored, known]
  dsimp only
  rw [reads]
  cases expired loc.expiresAt search.now with
  | true => rfl
  | false => rfl

/-- The latest data of every record can be given to its owner. -/
def Opens (w : World N) (s : Segments N) : Prop :=
  ∀ id line, live s.log id = some line →
    ∃ data, materialize w.col.enc line.entry.data = .ok data

theorem opens_of_found (recalls : Recalls w s s.log) (opens : Opens w s)
    (member : r ∈ found search f w s) : ∃ data, materialize w.col.enc r.data = .ok data := by
  rw [found] at member
  rcases candidates : indexCandidates search w.col f with - | ids
  · rw [candidates] at member
    obtain ⟨line, inside, hit⟩ := List.mem_filterMap.mp member
    rw [lineMatch] at hit
    split at hit
    · cases hit
    · rename_i loc known
      simp only [Option.ite_none_right_eq_some, Option.some.injEq] at hit
      obtain ⟨⟨place, -⟩, rfl⟩ := hit
      obtain ⟨last, alive, segment, offset, -⟩ := live_of_index recalls known
      have same := entry_of_place recalls inside (live_mem alive).1
        (place.1.symm.trans segment) (place.2.symm.trans offset)
      dsimp only
      rw [same]
      exact opens _ last alive
  · rw [candidates] at member
    obtain ⟨id, -, hit⟩ := List.mem_filterMap.mp member
    rcases known : w.col.index.lookup id with - | loc
    · rw [idMatch, getStored, known] at hit
      cases hit
    · obtain ⟨last, alive, matched⟩ := idMatch_of_known search f recalls known
      rw [matched] at hit
      simp only [Option.ite_none_left_eq_some, Option.ite_none_right_eq_some,
        Option.some.injEq] at hit
      obtain ⟨-, -, rfl⟩ := hit
      exact opens id last alive

/-- A match with its data as its owner wrote it. -/
def shown (enc : Option (Encryptor N)) (r : ScanResult N) : Except Error (ScanResult N) :=
  (materialize enc r.data).map fun data => { r with data }

omit [JsonNumber N] [NumberOrder N] in
theorem foldlM_materialize {rs : List (ScanResult N)}
    (opens : ∀ r ∈ rs, ∃ data, materialize w.col.enc r.data = .ok data)
    (front : List (ScanResult N)) :
    ∃ rows, rs.foldlM (fun found r => (materialize w.col.enc r.data).map fun data =>
        found ++ [{ r with data }]) front = .ok (front ++ rows) ∧
      rs.map (shown w.col.enc) = rows.map .ok := by
  induction rs generalizing front with
  | nil => exact ⟨[], by rw [List.append_nil]; rfl, rfl⟩
  | cons r rs ih =>
    obtain ⟨data, opened⟩ := opens r (.head _)
    obtain ⟨rows, rest, same⟩ := ih (fun other member => opens other (.tail _ member))
      (front ++ [{ r with data }])
    refine ⟨{ r with data } :: rows, ?_, ?_⟩
    · rw [List.foldlM_cons, opened, List.append_cons]
      exact rest
    · rw [List.map_cons, List.map_cons, same, shown, opened]
      rfl

/-- A scan returns the matches, unless the filter is about encrypted fields. -/
theorem scan_eq (recalls : Recalls w s s.log) (tidy : Tidy s) (opens : Opens w s) :
    (∃ e, checkFilterFields w.col.enc f = .error e ∧ scan search w f = .error e) ∨
      (checkFilterFields w.col.enc f = .ok () ∧
        ∃ rows, scan search w f = .ok rows ∧
          (found search f w s).map (shown w.col.enc) = rows.map .ok) := by
  rw [scan, forEachMatch_eq _ search f recalls tidy]
  rcases checkFilterFields w.col.enc f with e | ⟨⟩
  · exact .inl ⟨e, rfl, rfl⟩
  · obtain ⟨rows, ended, same⟩ := foldlM_materialize
      (fun r member => opens_of_found search f recalls opens member) []
    exact .inr ⟨rfl, rows, ended, same⟩

theorem stream_eq (recalls : Recalls w s s.log) (tidy : Tidy s) :
    forEachMatch (fun _ n => .ok (n + 1)) search w f 0 =
      (checkFilterFields w.col.enc f).map fun _ => (found search f w s).length := by
  rw [forEachMatch_eq _ search f recalls tidy]
  rcases checkFilterFields w.col.enc f with e | ⟨⟩
  · rfl
  · refine (List.foldlM_pure (m := Except Error) (f := fun n _ => n + 1)).trans ?_
    rw [List.foldl_add_const, Nat.one_mul, Nat.zero_add]
    rfl

/-! ## Where the fast paths of a count agree -/

section

omit [NumberOrder N]

theorem offset_of_mem_locateLines {segment offset : Nat}
    (member : line ∈ locateLines segment offset lines) :
    line.segment = segment ∧ offset ≤ line.offset := by
  induction lines generalizing offset with
  | nil => cases member
  | cons first lines ih =>
    rcases List.mem_cons.mp member with rfl | later
    · exact ⟨rfl, Nat.le_refl _⟩
    · obtain ⟨same, above⟩ := ih later
      exact ⟨same, by omega⟩

theorem pairwise_locateLines (segment offset : Nat) (lines : List (SegmentLine N)) :
    (locateLines segment offset lines).Pairwise fun a b => a.offset ≠ b.offset := by
  induction lines generalizing offset with
  | nil => exact .nil
  | cons first lines ih =>
    refine .cons ?_ (ih _)
    intro line member
    have above := (offset_of_mem_locateLines member).2
    dsimp only
    omega

theorem pairwise_place (s : Segments N) :
    s.log.Pairwise fun a b => ¬(a.segment = b.segment ∧ a.offset = b.offset) := by
  rw [Segments.log, located, List.pairwise_flatMap]
  refine ⟨fun segment _ => ?_, ?_⟩
  · exact (pairwise_locateLines segment.1 0 segment.2).imp fun apart same => apart same.2
  · have increasing := s.increasing
    rw [← Segments.numbers, ← Segments.map_fst_layout, List.pairwise_map] at increasing
    refine increasing.imp ?_
    intro first second below a inFirst b inSecond same
    rw [(offset_of_mem_locateLines inFirst).1, (offset_of_mem_locateLines inSecond).1] at same
    omega

end

/-- A match of a scan of the lines is the unexpired record of its id. -/
theorem lineMatch_eq_some (hit : lineMatch search f w line = some r) :
    ∃ loc, w.col.index.lookup r.id = some loc ∧ loc.segment = line.segment ∧
      loc.offset = line.offset ∧ expired loc.expiresAt search.now = false := by
  rw [lineMatch] at hit
  split at hit
  · cases hit
  · rename_i loc known
    simp only [Option.ite_none_right_eq_some, Option.some.injEq] at hit
    obtain ⟨⟨place, -, fresh, -⟩, rfl⟩ := hit
    exact ⟨loc, known, place.1, place.2, fresh⟩

/-- The ids whose records have not expired. -/
def unexpired (search : Search N) (w : World N) : Nat → Bool :=
  fun id => (w.col.index.lookup id).any fun loc => !expired loc.expiresAt search.now

/-- A scan of the lines meets a record once. -/
theorem nodup_stream (w : World N) (s : Segments N) :
    ((s.log.filterMap (lineMatch search f w)).map ScanResult.id).Nodup := by
  rw [List.Nodup, List.pairwise_map, List.pairwise_filterMap]
  refine (pairwise_place s).imp ?_
  intro a b apart r hit r' hit' same
  obtain ⟨loc, known, segment, offset, -⟩ := lineMatch_eq_some search _ hit
  obtain ⟨loc', known', segment', offset', -⟩ := lineMatch_eq_some search _ hit'
  rw [same, known', Option.some.injEq] at known
  subst known
  exact apart ⟨segment.symm.trans segment', offset.symm.trans offset'⟩

/-- A scan with the filter that every record passes finds the unexpired ones. -/
theorem length_found_matchAll (recalls : Recalls w s s.log) :
    (found search .matchAll w s).length =
      (w.col.index.keys.filter fun id => unexpired search w id).card := by
  have nodup : ((found search .matchAll w s).map ScanResult.id).Nodup :=
    nodup_stream search .matchAll w s
  rw [← List.length_map ScanResult.id, ← List.toFinset_card_of_nodup nodup]
  congr 1
  ext id
  rw [List.mem_toFinset, List.mem_map, Finset.mem_filter, Finmap.mem_keys,
    ← Finmap.lookup_isSome, unexpired]
  constructor
  · rintro ⟨r, member, rfl⟩
    obtain ⟨line, -, hit⟩ := List.mem_filterMap.mp member
    obtain ⟨loc, known, -, -, fresh⟩ := lineMatch_eq_some search _ hit
    rw [known, Option.any_some, fresh]
    exact ⟨rfl, rfl⟩
  · rintro ⟨-, fresh⟩
    obtain ⟨loc, known, early⟩ := (Option.any_eq_true _ _).mp fresh
    obtain ⟨line, alive, segment, offset, -⟩ := live_of_index recalls known
    obtain ⟨inside, same, put⟩ := live_mem alive
    have kept : line.entry.op ≠ .delete := by
      intro tombstone
      rw [tombstone] at put
      cases put
    refine ⟨⟨id, loc.rev, line.entry.data, line.entry.ts⟩,
      List.mem_filterMap.mpr ⟨line, inside, ?_⟩, rfl⟩
    rw [lineMatch, same, known]
    exact if_pos ⟨⟨segment, offset⟩, kept, (Bool.not_eq_true' _).mp early, rfl⟩

/-- The data that an index has under the key of a value pass the test for it. -/
theorem matchData_of_indexKey (equality : test.op = .eq) {data : Option (Data N)}
    (key : indexKey test.field data = some (filterValueToIndexKey N test.value)) :
    (Filter.field test).matchData search.regexp data = true := by
  rw [indexKey, Option.map_eq_some_iff] at key
  obtain ⟨value, present, same⟩ := key
  rw [Filter.matchData, FieldFilter.matchData, present, equality]
  exact equal_of_sprint same

theorem indexCandidates_eq (equality : test.op = .eq) {t : Sidx}
    (known : findIndex w.col test.field = some t) :
    indexCandidates search w.col (.field test) =
      some ((t.bucket (filterValueToIndexKey N test.value)).sort (· ≤ ·)) := by
  rw [indexCandidates, equality]
  exact congrArg (Option.map _) known

/-- A scan with a test for equality on an indexed field finds the unexpired
records of the bucket. -/
theorem length_found_eq (recalls : Recalls w s s.log) (equality : test.op = .eq) {t : Sidx}
    (exact : t.Exact (Sidx.wanted t.field s.log)) (known : findIndex w.col test.field = some t) :
    (found search (.field test) w s).length =
      ((t.bucket (filterValueToIndexKey N test.value)).filter
        fun id => unexpired search w id).card := by
  have field := (findIndex_eq_some known).2
  have hit : ∀ id ∈ t.bucket (filterValueToIndexKey N test.value),
      (idMatch search (.field test) w id).isSome = unexpired search w id := by
    intro id member
    have want := (exact.bucket _ id).mp member
    rw [Sidx.wanted, Option.bind_eq_some_iff] at want
    obtain ⟨line, alive, key⟩ := want
    rw [field] at key
    have fits := matchData_of_indexKey search equality key
    obtain ⟨loc, there⟩ := index_of_live recalls alive
    obtain ⟨last, alive', matched⟩ := idMatch_of_known search (.field test) recalls there
    rw [alive, Option.some.injEq] at alive'
    subst alive'
    rw [matched, unexpired, there, Option.any_some, fits]
    cases expired loc.expiresAt search.now with
    | true => rfl
    | false => rfl
  obtain ⟨ids, sorted⟩ : ∃ ids, ids =
      ((t.bucket (filterValueToIndexKey N test.value)).sort (· ≤ ·)).insertionSort (· ≤ ·) :=
    ⟨_, rfl⟩
  have perm : ids.Perm ((t.bucket (filterValueToIndexKey N test.value)).sort (· ≤ ·)) := by
    rw [sorted]
    exact List.perm_insertionSort _ _
  have nodup : ids.Nodup := perm.nodup_iff.mpr (Finset.sort_nodup _ _)
  have member (id : Nat) : id ∈ ids ↔ id ∈ t.bucket (filterValueToIndexKey N test.value) := by
    rw [perm.mem_iff, Finset.mem_sort]
  rw [found, indexCandidates_eq search equality known]
  change ((List.insertionSort _ _).filterMap _).length = _
  rw [← sorted, List.length_filterMap_eq_countP, List.countP_congr (fun id inside => by
    rw [hit id ((member id).mp inside)]), List.countP_eq_length_filter,
    ← List.toFinset_card_of_nodup (nodup.filter _)]
  congr 1
  ext id
  rw [List.mem_toFinset, List.mem_filter, Finset.mem_filter, member]

/-- A count, and the counts of ungrouped aggregations, fail where a scan fails,
and else are the number of records that the scan returns. -/
def Agrees (search : Search N) (w : World N) (f : Filter) : Prop :=
  match scan search w f with
  | .error _ => (∃ e, count search w f = .error e) ∧
      ∀ field, ∃ e, aggregate search w f field = .error e
  | .ok results => count search w f = .ok results.length ∧
      ∀ field, checkField w.col.enc field = .ok () →
        (aggregate search w f field).map List.sum = .ok results.length

/-- The size of an index is the answer only where no record in it has expired,
and where the filter is not about an encrypted field. -/
def SizesAnswer (search : Search N) (w : World N) : Filter → Prop
  | .matchAll => ∀ id ∈ w.col.index.keys, unexpired search w id = true
  | .field test => test.op = .eq → ∀ t, findIndex w.col test.field = some t →
      checkFilterFields w.col.enc (.field test) = .ok () ∧
        ∀ id ∈ t.bucket (filterValueToIndexKey N test.value), unexpired search w id = true
  | _ => True

/-- A count fails only where its stream does. -/
theorem count_stream_or_ok :
    count search w f = forEachMatch (fun _ n => .ok (n + 1)) search w f 0 ∨
      ∃ n, count search w f = .ok n := by
  cases f with
  | matchAll => exact .inr ⟨_, rfl⟩
  | and filters | or filters => exact .inl rfl
  | field test =>
    rw [count]
    split
    · rcases findIndex w.col test.field with - | t
      · exact .inl rfl
      · exact .inr ⟨_, rfl⟩
    · exact .inl rfl

/-- Aggregations agree with a scan where the count does. -/
theorem agrees_iff (recalls : Recalls w s s.log) (tidy : Tidy s) (opens : Opens w s) :
    Agrees search w f ↔
      count search w f = (checkFilterFields w.col.enc f).map fun _ =>
        (found search f w s).length := by
  have streamed := stream_eq search f recalls tidy
  rw [Agrees]
  rcases scan_eq search f recalls tidy opens with
    ⟨e, refused, scanned⟩ | ⟨passed, results, scanned, same⟩
  · rw [scanned, refused]
    rw [refused] at streamed
    constructor
    · rintro ⟨⟨e', failed⟩, -⟩
      rcases count_stream_or_ok search f (w := w) with same | ⟨n, counted⟩
      · exact same.trans streamed
      · rw [counted] at failed
        cases failed
    · intro counted
      refine ⟨⟨e, counted⟩, fun field => ?_⟩
      rw [aggregate]
      rcases checkField w.col.enc field with e' | ⟨⟩
      · exact ⟨e', rfl⟩
      · refine ⟨e, ?_⟩
        dsimp only
        split
        · rw [counted]
          rfl
        · rw [streamed]
          rfl
  · have length := congrArg List.length same
    rw [List.length_map, List.length_map] at length
    rw [scanned, passed, length]
    rw [passed, length] at streamed
    refine ⟨fun agrees => agrees.1, fun counted => ⟨counted, ?_⟩⟩
    intro field plain
    rw [aggregate, plain]
    dsimp only
    split
    · rw [counted]
      simp [Except.map]
    · rw [streamed]
      change Except.ok (List.sum (if results.length = 0 then [] else [results.length])) = _
      split
      · rename_i empty
        rw [empty]
        rfl
      · simp

/-- Counts agree with scans exactly where no index whose size is taken for an
answer has a record past its deadline, and none is on an encrypted field. -/
theorem agrees_iff_sizesAnswer (recalls : Recalls w s s.log) (indexed : Indexed w.col.sidx s.log)
    (tidy : Tidy s) (opens : Opens w s) :
    Agrees search w f ↔ SizesAnswer search w f := by
  rw [agrees_iff search f recalls tidy opens]
  have streamed := stream_eq search f recalls tidy
  cases f with
  | and filters | or filters => exact iff_of_true streamed trivial
  | matchAll =>
    have passed : checkFilterFields w.col.enc .matchAll = .ok () := by
      rw [checkFilterFields]
      rcases w.col.enc with - | enc
      · rfl
      · rfl
    rw [passed, length_found_matchAll search recalls, count, SizesAnswer]
    change Except.ok _ = Except.ok _ ↔ _
    rw [Except.ok.injEq, eq_comm, Finset.card_filter_eq_iff]
  | field test =>
    rw [SizesAnswer]
    by_cases equality : test.op = .eq
    · rcases known : findIndex w.col test.field with - | t
      · refine iff_of_true ?_ nofun
        rw [count, if_pos equality, known]
        exact streamed
      · have counted : count search w (.field test) =
            .ok (t.bucket (filterValueToIndexKey N test.value)).card := by
          rw [count, if_pos equality, known]
        have exact := indexed.exact t (findIndex_eq_some known).1
        rw [counted, length_found_eq search recalls equality exact known]
        rcases checkFilterFields w.col.enc (.field test) with e | ⟨⟩
        · refine iff_of_false nofun fun answer => ?_
          exact nomatch (answer equality t rfl).1
        · change Except.ok _ = Except.ok _ ↔ _
          rw [Except.ok.injEq, eq_comm, Finset.card_filter_eq_iff]
          constructor
          · rintro fresh - t' same
            rw [← Option.some.inj same]
            exact ⟨rfl, fresh⟩
          · intro answer
            exact (answer equality t rfl).2
    · refine iff_of_true ?_ fun same => absurd same equality
      rw [count, if_neg equality]
      exact streamed

end Counts

end Scriva.Engine.Scanning
