import Scriva.Engine.Counts

/-!
# Candidates of an index

A query that an index serves goes through the ids that the index lists.  For each
of them the place of the record is looked up, its segment is found and its line
is read, with the lock released in between, so that a pass of the compactor may
come at any of these points.  An id for which one of the three does not succeed
is taken for one that was deleted meanwhile, and passed over.
-/

namespace Scriva.Engine.Candidates

open Store.Record Store.Ndjson Segment PrimaryIndex Directory Engine.Collection Scanning Lib.Fallible
open Query (Filter NumberOrder)

variable {N σ : Type} [JsonNumber N] [NumberOrder N]

/-- The collection as it is when the place of a record is looked up, when its
segment is found, and when its line is read. -/
structure Moments (N : Type) where
  looked : World N
  found : World N
  opened : World N

/-- What the record is read from. -/
def Moments.world (m : Moments N) : World N :=
  { m.looked with
    col := { m.looked.col with sealed := m.found.col.sealed, active := m.found.col.active }
    disk := m.opened.disk }

/-- A match is returned with its data as its owner wrote it. -/
def yield (enc : Option (Encryptor N)) (r : ScanResult N) (rows : List (ScanResult N)) :
    Except Error (List (ScanResult N)) :=
  (shown enc r).map fun r => rows ++ [r]

/-- The loop over the candidates, each at its own moments. -/
def scanCandidates (enc : Option (Encryptor N)) (search : Search N) (f : Filter)
    (moments : Nat → Moments N) (ids : List Nat) (rows : List (ScanResult N)) :
    Except Error (List (ScanResult N)) :=
  ids.foldlM (fun rows id => visitIds (yield enc) search (moments id).world f [id] rows) rows

/-- The scan that the ids of an index serve. -/
def scanServed (enc : Option (Encryptor N)) (search : Search N) (f : Filter)
    (moments : Nat → Moments N) (ids : List Nat) : Except Error (List (ScanResult N)) :=
  scanCandidates enc search f moments (ids.insertionSort (· ≤ ·)) []

section Loop

variable {search : Search N} {f : Filter} {w : World N} {enc : Option (Encryptor N)}
  {moments : Nat → Moments N} {ids : List Nat} {rows acc : List (ScanResult N)}

theorem visitIds_one {visit : ScanResult N → σ → Except Error σ} (id : Nat) (acc : σ) :
    visitIds visit search w f [id] acc =
      match idMatch search f w id with
      | none => .ok acc
      | some r => visit r acc := by
  rw [visitIds_eq]
  rcases hit : idMatch search f w id with - | r
  · rw [List.filterMap_cons_none hit]
    rfl
  · rw [List.filterMap_cons_some hit, List.filterMap_nil, List.foldlM_cons]
    dsimp only
    rcases visit r acc with error | next <;> rfl

/-- If nothing changes in between, this is the loop of a scan. -/
theorem scanCandidates_still (ids : List Nat) (acc : List (ScanResult N)) :
    scanCandidates enc search f (fun _ => ⟨w, w, w⟩) ids acc =
      visitIds (yield enc) search w f ids acc := by
  induction ids generalizing acc with
  | nil => rfl
  | cons id ids ih =>
    rw [scanCandidates, List.foldlM_cons, visitIds_eq _ _ _ (id :: ids)]
    change visitIds _ search w f [id] acc >>= _ = _
    rw [visitIds_one]
    rcases hit : idMatch search f w id with - | r
    · rw [List.filterMap_cons_none hit, ← visitIds_eq]
      exact ih acc
    · rw [List.filterMap_cons_some hit, List.foldlM_cons]
      dsimp only
      rcases yield enc r acc with error | next
      · rfl
      · exact (ih next).trans (visitIds_eq _ _ _ _ _)

/-- A scan of a collection in which nothing changes meanwhile. -/
theorem scan_eq_scanServed (allowed : checkFilterFields w.col.enc f = .ok ())
    (served : indexCandidates search w.col f = some ids) :
    scan search w f = scanServed w.col.enc search f (fun _ => ⟨w, w, w⟩) ids := by
  rw [scan, forEachMatch, allowed, scanServed, scanCandidates_still]
  dsimp only
  rw [served]
  dsimp only
  rw [visitCandidates]
  congr 1
  funext r found
  rw [yield, shown]
  rcases materialize w.col.enc r.data with error | data <;> rfl

/-- A scan that ends without an error returns the candidates that were read and
found to match. -/
theorem ids_visited (ended : scanCandidates enc search f moments ids acc = .ok rows) :
    rows.map ScanResult.id = acc.map ScanResult.id ++
      ids.filter fun id => (idMatch search f (moments id).world id).isSome := by
  induction ids generalizing acc with
  | nil =>
    obtain rfl := Except.ok.inj ended
    exact (List.append_nil _).symm
  | cons id ids ih =>
    rw [scanCandidates, List.foldlM_cons, visitIds_one] at ended
    obtain ⟨next, visited, ended⟩ := ok_of_bind ended
    rw [ih ended, List.filter_cons]
    rcases hit : idMatch search f (moments id).world id with - | r
    · rw [hit] at visited
      obtain rfl := Except.ok.inj visited
      rfl
    · rw [hit] at visited
      have visited : yield enc r acc = .ok next := visited
      have same : r.id = id := by
        unfold idMatch at hit
        split at hit
        · cases hit
        · split_ifs at hit
          cases hit
          rfl
      rcases opened : materialize enc r.data with error | data
      · rw [yield, shown, opened] at visited
        cases visited
      · rw [yield, shown, opened] at visited
        obtain rfl := Except.ok.inj visited
        rw [List.map_append, List.append_assoc]
        change _ ++ (r.id :: _) = _ ++ (id :: _)
        rw [same]
        rfl

/-- The record is there, and its time has not passed. -/
def Present (now : Int) (w : World N) (id : Nat) : Prop :=
  ∃ loc, w.col.index.lookup id = some loc ∧ expired loc.expiresAt now = false

/-- An entry is read for a record: its place is looked up, its segment is listed
when it is sought, and the line there is decoded when the file is opened. -/
def Moments.Reads (m : Moments N) (now : Int) (id : Nat) (e : Entry N) : Prop :=
  ∃ loc, m.looked.col.index.lookup id = some loc ∧ expired loc.expiresAt now = false ∧
    loc.segment ∈ allSegments m.found.col ∧
    ∃ file, m.opened.disk.segment loc.segment = some file ∧ readAt file loc.offset = some e

theorem isSome_idMatch_iff (m : Moments N) (id : Nat) :
    (idMatch search f m.world id).isSome = true ↔
      ∃ e, m.Reads search.now id e ∧ f.matchData search.regexp e.data = true := by
  have place : m.world.col.index = m.looked.col.index := rfl
  have listed : allSegments m.world.col = allSegments m.found.col := rfl
  have files : m.world.disk = m.opened.disk := rfl
  rw [idMatch, getStored, place]
  simp only [Moments.Reads]
  rcases m.looked.col.index.lookup id with - | loc
  · simp
  rcases late : expired loc.expiresAt search.now with - | -
  · simp only [readEntry, listed, files]
    by_cases known : loc.segment ∈ allSegments m.found.col
    · rcases opened : m.opened.disk.segment loc.segment with - | file
      · simp [known, late, opened, Except.map]
      · rcases line : (readAt file loc.offset : Option (Entry N)) with - | e
        · simp [known, late, opened, line, Except.map]
        · simp [known, late, opened, line, Except.map]
    · simp [known, late, Except.map]
  · simp [late]

/-- A scan that an index serves and that ends without an error has returned every
record that is there and matches, exactly if the index lists each of them, and each
can be read where it was looked up, as an entry that matches. -/
theorem matches_returned_iff (served : indexCandidates search w.col f = some ids)
    (ended : scanServed enc search f moments ids = .ok rows) (held : Nat → Option (Data N)) :
    (∀ id, Present search.now w id → Present search.now (moments id).looked id →
        f.matchData search.regexp (held id) = true → id ∈ rows.map ScanResult.id) ↔
      ∀ id, Present search.now w id → Present search.now (moments id).looked id →
        f.matchData search.regexp (held id) = true →
          (∃ ids, indexCandidates search w.col f = some ids ∧ id ∈ ids) ∧
            ∃ e, (moments id).Reads search.now id e ∧ f.matchData search.regexp e.data = true := by
  refine forall_congr' fun id => forall₃_congr fun _ _ _ => ?_
  rw [ids_visited ended, List.map_nil, List.nil_append, List.mem_filter, List.mem_insertionSort,
    isSome_idMatch_iff, served]
  refine and_congr_left fun _ => ⟨fun listed => ⟨ids, rfl, listed⟩, ?_⟩
  rintro ⟨_, ⟨⟩, listed⟩
  exact listed

end Loop

section Examples

open Counts (reached searchAt)
open Engine.Sequential (fresh smallConfig stillEnv oneField)

/-- Two records in a collection with an index. -/
def indexed : World Int :=
  reached (fresh smallConfig none .asWritten) [.request stillEnv (.call (.ensureIndex "n" false)),
    .request stillEnv (.call (.insert (some (oneField "n" 5)) none)),
    .request stillEnv (.call (.insert (some (oneField "n" 6)) none))]

/-- Its segments cannot be opened. -/
def closed : World Int :=
  { indexed with disk := { indexed.disk with files := ∅ } }

def fives : Filter := .field ⟨"n", .eq, "5"⟩

/-- The data of the two records. -/
def numbers (id : Nat) : Option (Data Int) :=
  some (oneField "n" (if id = 1 then 5 else 6))

set_option maxRecDepth 4000 in
theorem matches_returned_indexed : ∃ rows, scan (searchAt 0) indexed fives = .ok rows ∧
    1 ∈ rows.map ScanResult.id := by
  have read : ((indexed.col.index.lookup 1).any fun loc => !expired loc.expiresAt 0) = true ∧
      indexCandidates (searchAt 0) indexed.col fives = some [1] ∧
      indexed.col.enc.isNone = true ∧ (scan (searchAt 0) indexed fives).isOk = true ∧
      (idMatch (searchAt 0) fives indexed 1).isSome = true := by decide +kernel
  obtain ⟨live, served, bare, ended, read⟩ := read
  obtain ⟨loc, known, ahead⟩ := (Option.any_eq_true _ _).mp live
  have present : Present (searchAt 0).now indexed 1 :=
    ⟨loc, known, (Bool.not_eq_true' _).mp ahead⟩
  have same : scan (searchAt 0) indexed fives = _ :=
    scan_eq_scanServed (by rw [Option.isNone_iff_eq_none.mp bare]; rfl) served
  rcases outcome : scan (searchAt 0) indexed fives with error | rows
  · rw [outcome] at ended
    cases ended
  · refine ⟨rows, rfl, (matches_returned_iff served (same.symm.trans outcome) numbers).mpr ?_ 1
      present present (by decide)⟩
    intro id _ _ fits
    obtain rfl : id = 1 := by
      by_contra other
      rw [numbers, if_neg other] at fits
      exact absurd fits (by decide)
    exact ⟨⟨[1], served, .head _⟩, (isSome_idMatch_iff ⟨indexed, indexed, indexed⟩ 1).mp read⟩

set_option maxRecDepth 4000 in
/-- The index lists a live record that matches, and the scan that it serves ends
without an error and without the record. -/
theorem unreadable_match_hidden :
    indexCandidates (searchAt 0) closed.col fives = some [1] ∧
      (closed.col.index.lookup 1).map (fun loc => expired loc.expiresAt 0) = some false ∧
      ((scan (searchAt 0) indexed fives).map fun rows => rows.map ScanResult.id).toOption =
        some [1] ∧
      ((scan (searchAt 0) closed fives).map fun rows => rows.map ScanResult.id).toOption =
        some [] := by
  decide +kernel

end Examples

end Scriva.Engine.Candidates
