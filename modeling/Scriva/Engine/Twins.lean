import Scriva.Engine.IndexedScans
import Scriva.Engine.Turns

/-!
# Collections that differ in expired records

Two collections are compared here that hold the same records, but for some that
are past their deadline in the first and gone from the second.  `Twin` says so.
What reads by id and scans give is the same; what asks an index is the same as
long as it does not depend on the gone records, and then both collections append
the same line and stay together.
-/

namespace Scriva.Engine.Twins

open Lib.Fallible Store.Record Store.Ndjson PrimaryIndex SecondaryIndex Directory Engine.Collection
open Journal Coherence Writing Calls Plans Machine Refinement Batches Requests Scanning Interleaving
open Turns
open Query (Filter NumberOrder)
open Reading (storedLine)
open Uniqueness (storedLine_of_coherent)
open Engine.Sequential (Amid.call)
open Keys (getByKey)
open Counts (queryable_of_amid)
open IndexedScans (mem_stream_iff)

variable {N : Type} [JsonNumber N]

/-! ## Results -/

inductive Result (N : Type) where
  | record (outcome : Except Error (Record N))
  | answer (present : Bool)
  | rows (outcome : Except Error (List (ScanResult N)))
  | reply (outcome : Except Error Reply)

omit [JsonNumber N] in
/-- Some record is under a key in the index. -/
def existsKey (c : Collection N) (key : String) : Bool :=
  decide (indexLookup c keyField key).Nonempty

/-- Errors that say that there is no such record. -/
inductive Absent : Error → Prop where
  | notFound (id : Nat) : Absent (.notFound id)
  | keyNotFound (key : String) : Absent (.keyNotFound key)

/-- Results that a caller takes for the same.  A scan may give its rows in
another order. -/
inductive Same : Result N → Result N → Prop where
  | refl (result : Result N) : Same result result
  | absent {e e' : Error} (left : Absent e) (right : Absent e') :
      Same (.record (.error e)) (.record (.error e'))
  | rows {rows rows' : List (ScanResult N)} (members : ∀ row, row ∈ rows ↔ row ∈ rows') :
      Same (.rows (.ok rows)) (.rows (.ok rows'))

/-! ## Two collections -/

/-- The records of one collection that the other does not have. -/
def removed (w v : World N) : Finset Nat :=
  w.col.index.keys.filter fun id => v.col.index.lookup id = none

/-- Collections with the same records, but for some that are past their deadline
in the first and gone from the second. -/
structure Twin (gone : Finset Nat) (now : Int) (w v : World N) : Prop where
  left : ∃ s store, Amid w s store
  right : ∃ s store, Amid v s store
  plain : NoReturns w.disk ∧ NoReturns v.disk
  cfg : v.col.cfg = w.col.cfg
  enc : v.col.enc = w.col.enc
  idSeq : v.col.idSeq = w.col.idSeq
  flags : indexFlags v.col = indexFlags w.col
  same : ∀ id ∉ gone, storedLine v id = storedLine w id
  missing : ∀ id ∈ gone, storedLine v id = none
  past : ∀ id ∈ gone, ∃ e, storedLine w id = some e ∧ expired e.expiresAt now = true

variable {i j : Sidx}

section Indexes

variable {w v : World N} {s t : Segments N} {store store' : Store N} {gone : Finset Nat}
  {now : Int}

theorem storedLine_eq (coherent : Coherent w s) (id : Nat) :
    storedLine w id = records s.entries id := by
  rw [storedLine_of_coherent coherent, coherent.record_eq]

omit [JsonNumber N] in
theorem expired_later {deadline later : Int} (past : expired deadline now = true)
    (order : now ≤ later) : expired deadline later = true := by
  rw [expired, Bool.and_eq_true, decide_eq_true_eq] at past ⊢
  exact ⟨past.1, decide_eq_true ((of_decide_eq_true past.2).trans order)⟩

namespace Twin

/-- A record that is not gone is known to both or to neither, at the same
revision and with the same line. -/
theorem lookup (twin : Twin gone now w v) {id : Nat} (kept : id ∉ gone) :
    (w.col.index.lookup id = none ∧ v.col.index.lookup id = none) ∨
      ∃ loc loc' e, w.col.index.lookup id = some loc ∧ v.col.index.lookup id = some loc' ∧
        loc'.rev = loc.rev ∧ loc'.expiresAt = loc.expiresAt ∧
        readEntry w id loc = .ok e ∧ readEntry v id loc' = .ok e := by
  obtain ⟨s, store, amid⟩ := twin.left
  obtain ⟨t, store', amid'⟩ := twin.right
  have same := twin.same id kept
  rw [storedLine_eq amid.coherent, storedLine_eq amid'.coherent] at same
  rcases held : records s.entries id with - | e
  · exact .inl ⟨amid.coherent.lookup_index_eq_none.mpr held,
      amid'.coherent.lookup_index_eq_none.mpr (same.trans held)⟩
  · obtain ⟨loc, known, rev, expiry, -, read⟩ := amid.coherent.index_of_record held
    obtain ⟨loc', known', rev', expiry', -, read'⟩ :=
      amid'.coherent.index_of_record (same.trans held)
    exact .inr ⟨loc, loc', e, known, known', rev'.trans rev.symm, expiry'.trans expiry.symm,
      read, read'⟩

/-- A record that is gone is past its deadline in the first collection. -/
theorem lookup_gone (twin : Twin gone now w v) {id : Nat} (dropped : id ∈ gone) :
    v.col.index.lookup id = none ∧
      ∃ loc, w.col.index.lookup id = some loc ∧ expired loc.expiresAt now = true := by
  obtain ⟨s, store, amid⟩ := twin.left
  obtain ⟨t, store', amid'⟩ := twin.right
  have missing := twin.missing id dropped
  obtain ⟨e, held, past⟩ := twin.past id dropped
  rw [storedLine_eq amid'.coherent] at missing
  rw [storedLine_eq amid.coherent] at held
  obtain ⟨loc, known, -, expiry, -⟩ := amid.coherent.index_of_record held
  exact ⟨amid'.coherent.lookup_index_eq_none.mpr missing, loc, known, expiry ▸ past⟩

/-- The gone records are those that the second collection does not have. -/
theorem removed_eq (twin : Twin gone now w v) : removed w v = gone := by
  ext id
  rw [removed, Finset.mem_filter, Finmap.mem_keys, ← Finmap.lookup_isSome]
  by_cases dropped : id ∈ gone
  · obtain ⟨missing, loc, known, -⟩ := twin.lookup_gone dropped
    rw [known]
    exact iff_of_true ⟨rfl, missing⟩ dropped
  · refine iff_of_false ?_ dropped
    rintro ⟨here, missing⟩
    rcases twin.lookup dropped with ⟨neither, -⟩ | ⟨-, loc', -, -, known', -⟩
    · rw [neither] at here
      cases here
    · rw [missing] at known'
      cases known'

/-- What an index has under a key, it has in both collections but for the gone
records. -/
theorem bucket (twin : Twin gone now w v) (inside : i ∈ w.col.sidx) (inside' : j ∈ v.col.sidx)
    (field : j.field = i.field) (key : String) : j.bucket key = i.bucket key \ gone := by
  obtain ⟨s, store, amid⟩ := twin.left
  obtain ⟨t, store', amid'⟩ := twin.right
  have wanted (world : World N) (segments : Segments N) (coherent : Coherent world segments)
      (index : Sidx) (member : index ∈ world.col.sidx) (id : Nat) :
      id ∈ index.bucket key ↔
        (storedLine world id).bind (fun e => indexKey index.field e.data) = some key := by
    rw [(coherent.indexed.exact index member).bucket, storedLine_of_coherent coherent,
      Sidx.wanted]
    rcases live segments.log id with - | line
    · rfl
    · rfl
  ext id
  rw [wanted v t amid'.coherent j inside', Finset.mem_sdiff, wanted w s amid.coherent i inside,
    field]
  by_cases dropped : id ∈ gone
  · rw [twin.missing id dropped]
    exact iff_of_false (by rintro ⟨⟩) fun both => both.2 dropped
  · rw [twin.same id dropped]
    exact ⟨fun here => ⟨here, dropped⟩, And.left⟩

theorem fields (twin : Twin gone now w v) :
    v.col.sidx.map Sidx.field = w.col.sidx.map Sidx.field :=
  fields_of_flags twin.flags

theorem indexLookup_eq (twin : Twin gone now w v) (field key : String) :
    indexLookup v.col field key = indexLookup w.col field key \ gone := by
  rw [indexLookup, indexLookup]
  rcases found : findIndex w.col field with - | i
  · have unindexed := findIndex_eq_none.mp found
    rw [← twin.fields] at unindexed
    rw [findIndex_eq_none.mpr unindexed]
    exact (Finset.empty_sdiff gone).symm
  · obtain ⟨inside, named⟩ := findIndex_eq_some found
    rcases found' : findIndex v.col field with - | j
    · refine absurd ?_ (findIndex_eq_none.mp found')
      rw [twin.fields]
      exact List.mem_map.mpr ⟨i, inside, named⟩
    · obtain ⟨inside', named'⟩ := findIndex_eq_some found'
      exact twin.bucket inside inside' (named'.trans named.symm) key

end Twin

end Indexes

/-! ## Reads -/

variable {env : Env} {key : String}

section Reads

variable {w v : World N} {gone : Finset Nat} {now later : Int}

/-- A record that is gone is absent from both collections for a read by id. -/
theorem Twin.getStored_gone (twin : Twin gone now w v) (order : now ≤ later) {id : Nat}
    (dropped : id ∈ gone) :
    getStored w later id = .error (.notFound id) ∧
      getStored v later id = .error (.notFound id) := by
  obtain ⟨missing, loc, known, past⟩ := twin.lookup_gone dropped
  rw [getStored, getStored, known, missing]
  exact ⟨if_pos (expired_later past order), rfl⟩

/-- A read by id finds the same line at the same revision, or nothing. -/
theorem Twin.getStored_cases (twin : Twin gone now w v) (order : now ≤ later) (id : Nat) :
    (getStored w later id = .error (.notFound id) ∧
        getStored v later id = .error (.notFound id)) ∨
      ∃ e loc loc', getStored w later id = .ok (e, loc) ∧
        getStored v later id = .ok (e, loc') ∧ loc'.rev = loc.rev := by
  by_cases dropped : id ∈ gone
  · exact .inl (twin.getStored_gone order dropped)
  · rcases twin.lookup dropped with ⟨known, known'⟩ |
      ⟨loc, loc', e, known, known', rev, expiry, read, read'⟩
    · rw [getStored, getStored, known, known']
      exact .inl ⟨rfl, rfl⟩
    · rw [getStored, getStored, known, known']
      dsimp only
      rw [expiry, read, read']
      split_ifs
      · exact .inl ⟨rfl, rfl⟩
      · exact .inr ⟨e, loc, loc', rfl, rfl, rev⟩

theorem Twin.get_eq (twin : Twin gone now w v) (order : now ≤ later) (id : Nat) :
    get v later id = get w later id := by
  rw [Collection.get, Collection.get]
  rcases twin.getStored_cases order id with ⟨none, none'⟩ | ⟨e, loc, loc', found, found', rev⟩
  · rw [none, none']
  · rw [found, found', twin.enc]
    dsimp only
    rw [rev]

theorem Twin.get_gone (twin : Twin gone now w v) (order : now ≤ later) {id : Nat}
    (dropped : id ∈ gone) : get w later id = .error (.notFound id) := by
  rw [Collection.get, (twin.getStored_gone order dropped).1]

/-- A read by key that finds no record past its deadline beside others. -/
theorem Twin.getByKey_same (twin : Twin gone now w v) (order : now ≤ env.now)
    (blind : Disjoint (indexLookup w.col keyField key) gone ∨
      indexLookup w.col keyField key ⊆ gone) :
    Same (.record (getByKey env w key)) (.record (getByKey env v key)) := by
  have bucket := twin.indexLookup_eq keyField key
  rw [getByKey, getByKey, resolveKey, resolveKey]
  rcases blind with apart | inside
  · rw [bucket, Finset.sdiff_eq_self_of_disjoint apart]
    rcases env.first (indexLookup w.col keyField key) with - | id
    · exact .refl _
    · dsimp only
      rw [twin.get_eq order]
      exact .refl _
  · have none : env.first (∅ : Finset Nat) = none := by
      rcases chosen : env.first ∅ with - | id
      · rfl
      · exact absurd (Env.first_mem chosen) (Finset.notMem_empty id)
    rw [bucket, Finset.sdiff_eq_empty_iff_subset.mpr inside, none]
    rcases chosen : env.first (indexLookup w.col keyField key) with - | id
    · exact .refl _
    · dsimp only
      rw [twin.get_gone order (inside (Env.first_mem chosen))]
      exact .absent (.notFound id) (.keyNotFound key)

theorem Twin.existsKey_eq (twin : Twin gone now w v)
    (blind : indexLookup w.col keyField key ⊆ gone → indexLookup w.col keyField key = ∅) :
    existsKey v.col key = existsKey w.col key := by
  rw [existsKey, existsKey, twin.indexLookup_eq, decide_eq_decide,
    Finset.nonempty_iff_ne_empty, Finset.nonempty_iff_ne_empty, ne_eq, ne_eq,
    Finset.sdiff_eq_empty_iff_subset, not_iff_not]
  constructor
  · exact blind
  · intro empty
    rw [empty]
    exact Finset.empty_subset gone

end Reads

/-! ## Scans -/

section Scans

variable [NumberOrder N] {w v : World N} {gone : Finset Nat} {now : Int}

/-- An index that serves a filter has every match. -/
def Finds (search : Search N) (w : World N) (f : Filter) : Prop :=
  ∀ ids, indexCandidates search w.col f = some ids →
    ∀ id r, idMatch search f w id = some r → id ∈ ids

variable {f : Filter}

/-- A scan whose index has every match gives the matching records, with their
data as their owner wrote them. -/
theorem scan_rows {s : Segments N} {store : Store N} (amid : Amid w s store)
    (plain : NoReturns w.disk) {search : Search N} (finds : Finds search w f) :
    (∃ e, checkFilterFields w.col.enc f = .error e ∧ scan search w f = .error e) ∨
      (checkFilterFields w.col.enc f = .ok () ∧ ∃ rows, scan search w f = .ok rows ∧
        ∀ row, row ∈ rows ↔ ∃ id r, idMatch search f w id = some r ∧
          shown w.col.enc r = .ok row) := by
  have queryable := queryable_of_amid amid plain
  have members (r : ScanResult N) :
      r ∈ found search f w s ↔ ∃ id, idMatch search f w id = some r := by
    rw [found]
    rcases candidates : indexCandidates search w.col f with - | ids
    · exact mem_stream_iff search f queryable.recalls r
    · simp only [List.mem_filterMap, List.mem_insertionSort]
      exact exists_congr fun id => and_iff_right_of_imp fun hit => finds ids candidates id r hit
  refine (scan_eq search f queryable.recalls queryable.tidy queryable.opens).imp_right ?_
  rintro ⟨passed, rows, scanned, same⟩
  refine ⟨passed, rows, scanned, fun row => ?_⟩
  rw [← List.mem_map_of_injective (f := Except.ok (ε := Error)) fun _ _ => Except.ok.inj, ← same,
    List.mem_map]
  simp only [members, exists_and_right, exists_comm (α := Nat)]

/-- A scan is blind to the records past their deadline. -/
theorem Twin.scan_same (twin : Twin gone now w v) {search search' : Search N}
    (regexp : search'.regexp = search.regexp) (time : search'.now = search.now)
    (order : now ≤ search.now) (finds : Finds search w f) (finds' : Finds search' v f) :
    Same (.rows (scan search w f)) (.rows (scan search' v f)) := by
  obtain ⟨s, store, amid⟩ := twin.left
  obtain ⟨t, store', amid'⟩ := twin.right
  have hits (id : Nat) : idMatch search' f v id = idMatch search f w id := by
    rw [idMatch, idMatch, time, regexp]
    rcases twin.getStored_cases order id with
      ⟨none, none'⟩ | ⟨e, loc, loc', found, found', rev⟩
    · rw [none, none']
    · rw [found, found']
      dsimp only
      rw [rev]
  rcases scan_rows amid twin.plain.1 finds with
    ⟨e, refused, ended⟩ | ⟨passed, rows, ended, members⟩
  · rcases scan_rows amid' twin.plain.2 finds' with ⟨e', refused', ended'⟩ | ⟨passed', -⟩
    · rw [twin.enc, refused, Except.error.injEq] at refused'
      rw [ended, ended', refused']
      exact .refl _
    · rw [twin.enc, refused] at passed'
      cases passed'
  · rcases scan_rows amid' twin.plain.2 finds' with
      ⟨e', refused', -⟩ | ⟨-, rows', ended', members'⟩
    · rw [twin.enc, passed] at refused'
      cases refused'
    · rw [ended, ended']
      refine .rows fun row => ?_
      simp only [members, members', hits, twin.enc]

end Scans

/-! ## The counter of ids -/

variable {α β : Type} {p : Proc N α}

section Counter

def Counting (n : Nat) (w : World N) : Prop :=
  w.col.idSeq = n

variable {n : Nat}

instance : Tolerant (Counting n : World N → Prop) :=
  ⟨fun holds _ count _ => count.trans holds⟩

instance : Indexless (Counting n : World N → Prop) :=
  .of_col (fun c => c.idSeq = n) fun _ _ holds => holds

theorem entries_counting : Entries (fun _ => True) (Counting n : World N → Prop) where
  known _ _ := trivial
  set _ _ _ holds := holds
  follow _ _ _ holds := holds
  drop _ holds := holds
  unfollow _ holds := holds

theorem idSeq_insertRecord (env : Env) (data : Option (Data N)) (expiresAt : Int) (w : World N) :
    ((insertRecord env data expiresAt).run w).2.col.idSeq = w.col.idSeq + 1 := by
  have rest : Guards (Counting (w.col.idSeq + 1)) (do
      let enc ← readEnc
      let e ← Proc.check (sealEntryData enc env.seed
        { newInsert (w.col.idSeq + 1) data env.ts with rev := 1, expiresAt })
      let full ← (insertLocked e data).locked
      rotateIf full
      return w.col.idSeq + 1) :=
    guards_look fun _ => (guards_done _).bind fun e =>
      (entries_counting.insertLocked trivial _).locked.bind fun full =>
      (guards_rotateIf full).bind fun _ => guards_done _
  rw [insertRecord, Proc.run_bind_ok (run_reserveID w)]
  exact rest.run (w := afterReserve w) rfl

end Counter

/-! ## Writes -/

/-- The unique indexes take the same view of a write whether or not the gone
records are in them. -/
def Impartial (gone : Finset Nat) (c : Collection N) (id : Nat) (data : Option (Data N)) : Prop :=
  ∀ i ∈ c.sidx, i.unique = true → ∀ key, indexKey i.field data = some key →
    ∀ other ∈ i.bucket key, other ≠ id → ∃ holder ∈ i.bucket key, holder ∉ gone ∧ holder ≠ id

/-- An insert for which neither the unique indexes nor the quota depend on the
gone records. -/
structure InsertBlind (gone : Finset Nat) (env : Env) (w v : World N) (data : Option (Data N))
    (expiresAt : Int) : Prop where
  unique : Impartial gone w.col (w.col.idSeq + 1) data
  quota : ∀ e, sealEntryData w.col.enc env.seed
      { newInsert (w.col.idSeq + 1) data env.ts with rev := 1, expiresAt } = .ok e →
    checkQuota v.col 1 (entryQuotaBytes w.col.cfg e) =
      checkQuota w.col 1 (entryQuotaBytes w.col.cfg e)

section Writes

variable {w v : World N} {gone : Finset Nat} {now : Int}

/-- The lines of a plan. -/
def linesOf (plan : Except Error (Entry N)) : List (Entry N) :=
  plan.toOption.toList

variable {plan : Except Error (Entry N)} {e : Entry N} {w' : World N} {es : List (Entry N)}
  {c : Collection N} {data : Option (Data N)} {expiresAt : Int}

omit [JsonNumber N] in
theorem mem_linesOf : e ∈ linesOf plan ↔ plan = .ok e := by
  rcases plan with error | line
  · exact iff_of_false nofun nofun
  · simp [linesOf, Except.toOption, eq_comm]

/-- A procedure that executes a plan, with what it replies made of the result. -/
theorem executes_returning {result : Entry N → α} (answer : α → Reply)
    (executed : Executes p w plan result) :
    Writes (do
      let value ← p
      return answer value) w (plan.map fun e => answer (result e)) (linesOf plan) := by
  rcases plan with error | e
  · exact Writes.bind_error executed
  · have ended : Writes (do
        let value ← p
        return answer value) w (.ok (answer (result e))) ([e] ++ []) :=
      Writes.bind executed (writes_pure _ _)
    exact ended

theorem storedLine_steps {s : Segments N} (coherent : Coherent w s) (steps : Steps w es w')
    (id : Nat) : storedLine w' id = applyEntries (storedLine w) es id := by
  obtain ⟨s', after, entries⟩ := coherent.steps steps
  have start : storedLine w = records s.entries := funext (storedLine_eq coherent)
  rw [storedLine_eq after, entries, records_append, start]

omit [JsonNumber N] in
theorem state_returning (answer : α → β) (p : Proc N α) (w : World N) :
    ((do
      let value ← p
      return answer value : Proc N β).run w).2 = (p.run w).2 := by
  rw [Proc.run_bind]
  rcases p.run w with ⟨outcome, after⟩
  cases outcome with
  | error e => rfl
  | ok value => rfl

/-- A new record, answered with its id. -/
def newRecord (env : Env) (data : Option (Data N)) (expiresAt : Int) : Proc N Reply := do
  let id ← insertRecord env data expiresAt
  return .id id

theorem amid_call (amid : ∃ s store, Amid w s store) (env : Env) (made : Call N)
    (fit : Admissible w made) :
    (∃ s store, Amid ((made.proc env).run w).2 s store) ∧ Frame w ((made.proc env).run w).2 := by
  obtain ⟨s, store, before⟩ := amid
  obtain ⟨s', store', after, -, frame⟩ := Amid.call before env fit
  exact ⟨⟨s', store', after⟩, frame⟩

/-- A call has the same result on two collections and keeps them together. -/
def Alike (gone : Finset Nat) (now : Int) (env : Env) (made : Call N) (w v : World N) : Prop :=
  ((made.proc env).run v).1 = ((made.proc env).run w).1 ∧
    Twin gone now ((made.proc env).run w).2 ((made.proc env).run v).2

theorem delete_replies (amid : ∃ s store, Amid w s store) (env : Env) (id : Nat) :
    Writes ((Call.delete id : Call N).proc env) w
      ((deletePlan env w.col id).map fun _ => .done) (linesOf (deletePlan env w.col id)) := by
  obtain ⟨s, store, amid⟩ := amid
  exact executes_returning (p := Collection.delete env id) (fun _ => Reply.done)
    (delete_executes amid.coherent amid.calm env id)

/-! ### The records that plans are about -/

theorem id_of_insertPlan (planned : insertPlan env c data expiresAt = .ok e) :
    e.id = c.idSeq + 1 := by
  rw [insertPlan] at planned
  obtain ⟨stored, sealed, planned⟩ := ok_of_bind planned
  obtain ⟨-, -, planned⟩ := ok_of_bind planned
  obtain ⟨-, -, planned⟩ := ok_of_bind planned
  rw [lineOf_eq_ok planned]
  exact id_of_sealed sealed

theorem id_of_updatePlan {id : Nat} {expiresAt : Option Int}
    (planned : updatePlan env c id data expiresAt = .ok e) : e.id = id := by
  rw [updatePlan] at planned
  obtain ⟨stored, sealed, planned⟩ := ok_of_bind planned
  split at planned
  · cases planned
  · rename_i cur found
    obtain ⟨-, -, planned⟩ := ok_of_bind planned
    rw [lineOf_eq_ok planned]
    exact id_of_sealed sealed

theorem id_of_deletePlan {id : Nat} (planned : deletePlan env c id = .ok e) : e.id = id := by
  rw [deletePlan] at planned
  split at planned
  · cases planned
  · rename_i cur found
    rw [lineOf_eq_ok planned]
    rfl

theorem id_of_replacePlan {stamped : Data N} {id : Nat} {cur : IndexEntry}
    (planned : replacePlan env c stamped id cur = .ok e) : e.id = id := by
  rw [replacePlan] at planned
  obtain ⟨-, -, planned⟩ := ok_of_bind planned
  obtain ⟨stored, sealed, planned⟩ := ok_of_bind planned
  rw [lineOf_eq_ok planned]
  exact id_of_sealed sealed

theorem id_of_swapPlan {w : World N} {test : Option (Data N) → Nat → Bool}
    (planned : swapPlan env w key data test = .ok (some e)) :
    ∃ loc, carrying env w.col key = some (e.id, loc) := by
  obtain ⟨id, loc, found, -, replaced⟩ := swapPlan_some planned
  rw [id_of_replacePlan replaced]
  exact ⟨loc, found⟩

namespace Twin

theorem conflict_eq (twin : Twin gone now w v) (inside : i ∈ w.col.sidx) (inside' : j ∈ v.col.sidx)
    (field : j.field = i.field) {id : Nat}
    (fair : ∀ other ∈ i.bucket key, other ≠ id →
      ∃ holder ∈ i.bucket key, holder ∉ gone ∧ holder ≠ id) :
    j.conflict key id = i.conflict key id := by
  rw [Sidx.conflict, Sidx.conflict, twin.bucket inside inside' field, decide_eq_decide]
  constructor
  · rintro ⟨other, member, differs⟩
    exact ⟨other, (Finset.mem_sdiff.mp member).1, differs⟩
  · rintro ⟨other, member, differs⟩
    obtain ⟨holder, there, kept, apart⟩ := fair other member differs
    exact ⟨holder, Finset.mem_sdiff.mpr ⟨there, kept⟩, apart⟩

/-- The unique indexes of both collections give the same verdict. -/
theorem unique_eq (twin : Twin gone now w v) {id : Nat} (fair : Impartial gone w.col id data) :
    sidxCheckUnique v.col id data = sidxCheckUnique w.col id data := by
  have along (is js : List Sidx) (within : ∀ i ∈ is, i ∈ w.col.sidx)
      (within' : ∀ j ∈ js, j ∈ v.col.sidx)
      (flags : js.map (fun t => (t.field, t.unique)) = is.map fun t => (t.field, t.unique)) :
      ((js.find? fun t => t.unique && (indexKey t.field data).any fun key =>
          t.conflict key id).map Sidx.field) =
        (is.find? fun t => t.unique && (indexKey t.field data).any fun key =>
          t.conflict key id).map Sidx.field := by
    induction is generalizing js with
    | nil =>
      obtain rfl := List.map_eq_nil_iff.mp flags
      rfl
    | cons i is ih =>
      obtain ⟨j, js, rfl, head, tail⟩ := List.map_eq_cons_iff.mp flags
      obtain ⟨field, unique⟩ := Prod.mk.inj head
      have verdict : (j.unique && (indexKey j.field data).any fun key => j.conflict key id) =
          (i.unique && (indexKey i.field data).any fun key => i.conflict key id) := by
        rw [unique, field]
        cases marked : i.unique with
        | false => rfl
        | true =>
          rcases named : indexKey i.field data with - | key
          · rfl
          · exact twin.conflict_eq (within i (.head _))
              (within' j (.head _)) field
              (fair i (within i (.head _)) marked key named)
      rw [List.find?_cons, List.find?_cons, verdict]
      split
      · exact congrArg some field
      · exact ih js (fun other member => within other (.tail _ member))
          (fun other member => within' other (.tail _ member)) tail
  have same := along w.col.sidx v.col.sidx (fun _ member => member) (fun _ member => member)
    twin.flags
  rw [sidxCheckUnique, sidxCheckUnique]
  revert same
  generalize List.find? _ v.col.sidx = first
  generalize List.find? _ w.col.sidx = first'
  intro same
  rcases first with - | j
  · rcases first' with - | i
    · rfl
    · cases same
  · rcases first' with - | i
    · cases same
    · dsimp only
      rw [Option.some.inj same]

/-! ### Plans -/

theorem insertPlan_eq (twin : Twin gone now w v) (blind : InsertBlind gone env w v data expiresAt) :
    insertPlan env v.col data expiresAt = insertPlan env w.col data expiresAt := by
  rw [insertPlan, insertPlan, twin.enc, twin.idSeq]
  rcases sealed : sealEntryData w.col.enc env.seed
    { newInsert (w.col.idSeq + 1) data env.ts with rev := 1, expiresAt } with error | e
  · rfl
  · have fixed : e.id = w.col.idSeq + 1 := id_of_sealed sealed
    change insertLockedPlan v.col e data = insertLockedPlan w.col e data
    rw [insertLockedPlan, insertLockedPlan, twin.cfg, blind.quota e sealed, fixed,
      twin.unique_eq blind.unique]

theorem updatePlan_eq (twin : Twin gone now w v) (env : Env) {id : Nat} (kept : id ∉ gone)
    (fair : Impartial gone w.col id data) :
    updatePlan env v.col id data none = updatePlan env w.col id data none := by
  rw [updatePlan, updatePlan, twin.enc]
  rcases sealEntryData w.col.enc env.seed (newUpdate id data env.ts) with error | e
  · rfl
  · rcases twin.lookup kept with ⟨known, known'⟩ | ⟨loc, loc', -, known, known', rev, expiry, -⟩
    · rw [known, known']
    · rw [known, known']
      change Except.bind _ _ = Except.bind _ _
      dsimp only [Except.bind]
      rw [twin.unique_eq fair, rev, expiry]

theorem deletePlan_eq (twin : Twin gone now w v) (env : Env) {id : Nat} (kept : id ∉ gone) :
    deletePlan env v.col id = deletePlan env w.col id := by
  rw [deletePlan, deletePlan]
  rcases twin.lookup kept with ⟨known, known'⟩ | ⟨loc, loc', -, known, known', -⟩
  · rw [known, known']
  · rw [known, known']

/-- The record under a key whose records have not been removed. -/
theorem carrying_cases (twin : Twin gone now w v) (env : Env)
    (apart : Disjoint (Collection.indexLookup w.col keyField key) gone) :
    (carrying env w.col key = none ∧ carrying env v.col key = none) ∨
      ∃ id loc loc' e, id ∉ gone ∧ carrying env w.col key = some (id, loc) ∧
        carrying env v.col key = some (id, loc') ∧ loc'.rev = loc.rev ∧
        loc'.expiresAt = loc.expiresAt ∧ readEntry w id loc = .ok e ∧
        readEntry v id loc' = .ok e := by
  rw [carrying, carrying, twin.indexLookup_eq, Finset.sdiff_eq_self_of_disjoint apart]
  rcases chosen : env.first (Collection.indexLookup w.col keyField key) with - | id
  · exact .inl ⟨rfl, rfl⟩
  · have kept : id ∉ gone := Finset.disjoint_left.mp apart (Env.first_mem chosen)
    rcases twin.lookup kept with
      ⟨known, known'⟩ | ⟨loc, loc', e, known, known', rev, expiry, read, read'⟩
    · rw [Option.bind_some, Option.bind_some, known, known']
      exact .inl ⟨rfl, rfl⟩
    · rw [Option.bind_some, Option.bind_some, known, known']
      exact .inr ⟨id, loc, loc', e, kept, rfl, rfl, rev, expiry, read, read'⟩

theorem replacePlan_eq (twin : Twin gone now w v) (env : Env) {id : Nat} {stamped : Data N}
    (fair : Impartial gone w.col id (some stamped)) {loc loc' : IndexEntry}
    (rev : loc'.rev = loc.rev) (expiry : loc'.expiresAt = loc.expiresAt) :
    replacePlan env v.col stamped id loc' = replacePlan env w.col stamped id loc := by
  rw [replacePlan, replacePlan, twin.unique_eq fair, twin.enc, rev, expiry]

theorem swapPlan_eq (twin : Twin gone now w v) (env : Env)
    (apart : Disjoint (Collection.indexLookup w.col keyField key) gone)
    (fair : ∀ id loc, carrying env w.col key = some (id, loc) →
      Impartial gone w.col id (some (stampKey data key))) (test : Option (Data N) → Nat → Bool) :
    swapPlan env v key data test = swapPlan env w key data test := by
  rw [swapPlan, swapPlan]
  rcases twin.carrying_cases env apart with
    ⟨none, none'⟩ | ⟨id, loc, loc', e, -, found, found', rev, expiry, read, read'⟩
  · rw [none, none']
  · rw [found, found']
    dsimp only
    rw [read, read', twin.enc, rev,
      twin.replacePlan_eq env (fair id loc found) rev expiry]

/-! ### Calls -/

theorem steps (twin : Twin gone now w v) {v' : World N} (left : Steps w es w')
    (right : Steps v es v') (amid : ∃ s store, Amid w' s store) (amid' : ∃ s store, Amid v' s store)
    (idSeq : v'.col.idSeq = w'.col.idSeq) (flags : indexFlags v'.col = indexFlags w'.col)
    (apart : ∀ e ∈ es, e.id ∉ gone) : Twin gone now w' v' := by
  obtain ⟨s, store, before⟩ := twin.left
  obtain ⟨t, store', before'⟩ := twin.right
  have untouched {id : Nat} (dropped : id ∈ gone) : ∀ e ∈ es, e.id ≠ id := by
    rintro e member rfl
    exact apart e member dropped
  refine ⟨amid, amid', ⟨left.frame.plain twin.plain.1, right.frame.plain twin.plain.2⟩,
    ?_, ?_, idSeq, flags, ?_, ?_, ?_⟩
  · rw [left.frame.cfg, right.frame.cfg, twin.cfg]
  · rw [left.frame.enc, right.frame.enc, twin.enc]
  · intro id kept
    rw [storedLine_steps before.coherent left, storedLine_steps before'.coherent right,
      applyEntries_eq_history, applyEntries_eq_history, twin.same id kept]
  · intro id dropped
    rw [storedLine_steps before'.coherent right,
      applyEntries_of_untouched _ (untouched dropped), twin.missing id dropped]
  · intro id dropped
    rw [storedLine_steps before.coherent left, applyEntries_of_untouched _ (untouched dropped)]
    exact twin.past id dropped

theorem call (twin : Twin gone now w v) {made : Call N} (fit : Admissible w made)
    (fit' : Admissible v made) {result : Except Error Reply}
    (left : Writes (made.proc env) w result es) (right : Writes (made.proc env) v result es)
    (counting : Guards (Counting w.col.idSeq) (made.proc env))
    (apart : ∀ e ∈ es, e.id ∉ gone) : Alike gone now env made w v := by
  refine ⟨right.1.trans left.1.symm, twin.steps left.2.steps right.2.steps
    (amid_call twin.left env made fit).1 (amid_call twin.right env made fit').1
    ((counting.run twin.idSeq).trans (counting.run rfl).symm) ?_ apart⟩
  rw [left.2.flags, right.2.flags, twin.flags]

theorem update_alike (twin : Twin gone now w v) (env : Env) {id : Nat} (kept : id ∉ gone)
    (keep : Keepable w.col.enc data) (fair : Impartial gone w.col id data) :
    Alike gone now env (.update id data) w v := by
  have keep' : Keepable v.col.enc data := by
    rw [twin.enc]
    exact keep
  have counting : Guards (Counting w.col.idSeq) ((Call.update id data).proc env) :=
    Guards.bind ((guards_done _).bind fun _ => guards_look fun _ => (guards_done _).bind fun _ =>
      (entries_counting.updateLocked _ _ _).locked.bind fun full => guards_rotateIf full) fun _ =>
        guards_done _
  let plan (c : Collection N) : Except Error (Entry N) := do
    checkReserved data
    updatePlan env c id data none
  have executed (world : World N) (amid : ∃ s store, Amid world s store)
      (keep : Keepable world.col.enc data) : Writes ((Call.update id data).proc env) world
        ((plan world.col).map fun _ => .done) (linesOf (plan world.col)) := by
    obtain ⟨s, store, amid⟩ := amid
    exact executes_returning (p := Collection.update env id data) (fun _ => Reply.done)
      (executes_check fun _ _ => updateRecord_executes amid.coherent amid.calm amid.governed
        env id keep none)
  have right := executed v twin.right keep'
  simp only [plan, twin.updatePlan_eq env kept fair] at right
  refine twin.call keep keep' (executed w twin.left keep) right counting fun e member => ?_
  obtain ⟨-, -, planned⟩ := ok_of_bind (mem_linesOf.mp member)
  rw [id_of_updatePlan planned]
  exact kept

theorem delete_alike (twin : Twin gone now w v) (env : Env) {id : Nat} (kept : id ∉ gone) :
    Alike gone now env (.delete id) w v := by
  have counting : Guards (Counting w.col.idSeq) ((Call.delete id : Call N).proc env) :=
    (entries_counting.deleteRecord env id).bind fun _ => guards_done _
  have right := delete_replies twin.right env id
  rw [twin.deletePlan_eq env kept] at right
  refine twin.call trivial trivial (delete_replies twin.left env id) right counting
    fun e member => ?_
  rw [id_of_deletePlan (mem_linesOf.mp member)]
  exact kept

theorem updateIfRev_alike (twin : Twin gone now w v) (env : Env) (expectedRev : Nat)
    (apart : Disjoint (Collection.indexLookup w.col keyField key) gone)
    (fair : ∀ id loc, carrying env w.col key = some (id, loc) →
      Impartial gone w.col id (some (stampKey data key))) :
    Alike gone now env (.updateIfRev key expectedRev data) w v := by
  have counting : Guards (Counting w.col.idSeq)
      ((Call.updateIfRev key expectedRev data).proc env) :=
    Guards.bind ((guards_done _).bind fun _ =>
      (entries_counting.compareAndSwapLocked env key _ _).locked.bind fun _ =>
        (guards_rotateIf _).bind fun _ => guards_done _) fun _ => guards_done _
  rcases reserved : checkReserved data with e | ⟨⟩
  · have refused (world : World N) :
        Writes ((Call.updateIfRev key expectedRev data).proc env) world (.error e) [] :=
      Writes.bind_error (writes_check_error reserved)
    exact twin.call trivial trivial (refused w) (refused v) counting nofun
  · obtain ⟨plan, planned⟩ : ∃ plan, swapPlan env w key data
        (fun _ rev => decide (rev = expectedRev)) = plan := ⟨_, rfl⟩
    have executed (world : World N) (amid : ∃ s store, Amid world s store)
        (same : swapPlan env world key data (fun _ rev => decide (rev = expectedRev)) = plan) :
        Writes ((Call.updateIfRev key expectedRev data).proc env) world
          (plan.map fun line => .swapped line.isSome) ((plan.toOption.bind id).toList) := by
      obtain ⟨s, store, amid⟩ := amid
      have swaps := compareAndSwap_swaps amid.coherent amid.calm amid.governed env key data
        fun _ rev => decide (rev = expectedRev)
      rw [same] at swaps
      have ends {swapped : Bool} {es : List (Entry N)}
          (ran : Writes (compareAndSwap env key data fun _ rev => decide (rev = expectedRev)) world
            (.ok swapped) es) :
          Writes ((Call.updateIfRev key expectedRev data).proc env) world
            (.ok (.swapped swapped)) (es ++ []) :=
        Writes.bind (writes_check_ok reserved ran) (writes_pure _ _)
      rcases plan with error | - | e
      · exact Writes.bind_error (writes_check_ok reserved swaps)
      · exact ends swaps
      · exact ends swaps
    refine twin.call trivial trivial (executed w twin.left planned)
      (executed v twin.right ((twin.swapPlan_eq env apart fair _).trans planned)) counting
      fun e member => ?_
    have line : plan = .ok (some e) := by
      rcases plan with error | - | line
      · cases member
      · cases member
      · rw [List.mem_singleton.mp member]
    obtain ⟨loc, found⟩ := id_of_swapPlan (planned.trans line)
    obtain ⟨id, chosen, rest⟩ := Option.bind_eq_some_iff.mp found
    obtain ⟨entry, -, pair⟩ := Option.map_eq_some_iff.mp rest
    rw [← (Prod.mk.inj pair).1]
    exact Finset.disjoint_left.mp apart (Env.first_mem chosen)

/-- An id that has not been taken is not that of a gone record. -/
theorem fresh_kept (twin : Twin gone now w v) : w.col.idSeq + 1 ∉ gone := by
  intro dropped
  obtain ⟨s, store, amid⟩ := twin.left
  obtain ⟨-, loc, known, -⟩ := twin.lookup_gone dropped
  exact absurd (le_of_index amid.coherent known) (Nat.not_succ_le_self _)

theorem insertRecord_writes (twin : Twin gone now w v) (keep : Keepable w.col.enc data)
    (blind : InsertBlind gone env w v data expiresAt) :
    Executes (insertRecord env data expiresAt) w (insertPlan env w.col data expiresAt)
        (fun _ => w.col.idSeq + 1) ∧
      Executes (insertRecord env data expiresAt) v (insertPlan env w.col data expiresAt)
        fun _ => w.col.idSeq + 1 := by
  obtain ⟨s, store, amid⟩ := twin.left
  obtain ⟨t, store', amid'⟩ := twin.right
  refine ⟨insertRecord_executes amid.coherent amid.calm amid.governed env keep expiresAt, ?_⟩
  rw [← twin.enc] at keep
  have right := insertRecord_executes amid'.coherent amid'.calm amid'.governed env keep expiresAt
  rw [twin.insertPlan_eq blind, twin.idSeq] at right
  exact right

/-- A new record is answered with the same id, and the collections stay
together. -/
theorem newRecord_alike (twin : Twin gone now w v) (keep : Keepable w.col.enc data)
    (blind : InsertBlind gone env w v data expiresAt)
    (after : ∃ s store, Amid ((newRecord env data expiresAt).run w).2 s store)
    (after' : ∃ s store, Amid ((newRecord env data expiresAt).run v).2 s store) :
    ((newRecord env data expiresAt).run v).1 = ((newRecord env data expiresAt).run w).1 ∧
      Twin gone now ((newRecord env data expiresAt).run w).2
        ((newRecord env data expiresAt).run v).2 := by
  obtain ⟨executed, executed'⟩ := twin.insertRecord_writes keep blind
  have left : Writes (newRecord env data expiresAt) w _ _ := executes_returning Reply.id executed
  have right : Writes (newRecord env data expiresAt) v _ _ := executes_returning Reply.id executed'
  refine ⟨right.1.trans left.1.symm, twin.steps left.2.steps right.2.steps after after' ?_ ?_ ?_⟩
  · rw [newRecord, state_returning, state_returning, idSeq_insertRecord, idSeq_insertRecord,
      twin.idSeq]
  · rw [left.2.flags, right.2.flags, twin.flags]
  · intro e member
    rw [id_of_insertPlan (mem_linesOf.mp member)]
    exact twin.fresh_kept

theorem insert_alike (twin : Twin gone now w v) (env : Env) (keep : Keepable w.col.enc data)
    {expiresAt : Option Int}
    (blind : InsertBlind gone env w v data (resolveInsertExpiry w.col.cfg env.now expiresAt)) :
    Alike gone now env (.insert data expiresAt) w v := by
  rcases reserved : checkReserved data with e | ⟨⟩
  · have refused (world : World N) :
        ((Call.insert data expiresAt).proc env).run world = (.error e, world) :=
      Proc.run_bind_error (Proc.run_bind_error (by rw [reserved]; rfl) _) _
    rw [Alike, refused, refused]
    exact ⟨rfl, twin⟩
  · have shape (world : World N) (cfg : world.col.cfg = w.col.cfg) :
        ((Call.insert data expiresAt).proc env).run world =
          (newRecord env data (resolveInsertExpiry w.col.cfg env.now expiresAt)).run world := by
      refine Proc.run_bind_congr ?_ _
      rw [insertWithExpiry, reserved, ← cfg]
      rfl
    have keep' : Keepable v.col.enc data := by
      rw [twin.enc]
      exact keep
    rw [Alike, shape w rfl, shape v twin.cfg]
    refine twin.newRecord_alike keep blind ?_ ?_
    · rw [← shape w rfl]
      exact (amid_call twin.left env (.insert data expiresAt) keep).1
    · rw [← shape v twin.cfg]
      exact (amid_call twin.right env (.insert data expiresAt) keep').1

theorem ensureKeyIndex_alike (twin : Twin gone now w v) (env : Env) :
    ((ensureKeyIndex : Proc N Unit).run v).1 = ((ensureKeyIndex : Proc N Unit).run w).1 ∧
      Twin gone now ((ensureKeyIndex : Proc N Unit).run w).2
        ((ensureKeyIndex : Proc N Unit).run v).2 ∧
      ((ensureKeyIndex : Proc N Unit).run w).2.col.cfg = w.col.cfg := by
  obtain ⟨s, store, amid⟩ := twin.left
  obtain ⟨t, store', amid'⟩ := twin.right
  obtain ⟨after, frame⟩ := amid_call twin.left env (.ensureIndex keyField true) trivial
  obtain ⟨after', -⟩ := amid_call twin.right env (.ensureIndex keyField true) trivial
  have state (world : World N) :
      (((Call.ensureIndex keyField true : Call N).proc env).run world).2 =
        ((ensureKeyIndex : Proc N Unit).run world).2 :=
    state_returning (fun _ => Reply.done) _ world
  rw [state] at after after' frame
  by_cases hidden : ∃ policy ∈ w.col.enc, policy.isEncryptedField keyField = true
  · obtain ⟨policy, active, encrypted⟩ := hidden
    have active' : v.col.enc = some policy := twin.enc.trans active
    rw [ensureKeyIndex, ensureIndex_encrypted true active encrypted,
      ensureIndex_encrypted true active' encrypted]
    exact ⟨rfl, twin, rfl⟩
  · have plain : ∀ policy ∈ w.col.enc, policy.isEncryptedField keyField = false := by
      intro policy active
      exact Bool.eq_false_iff.mpr fun encrypted => hidden ⟨policy, active, encrypted⟩
    have plain' : ∀ policy ∈ v.col.enc, policy.isEncryptedField keyField = false := by
      rw [twin.enc]
      exact plain
    by_cases known : keyField ∈ w.col.sidx.map Sidx.field
    · have known' := known
      rw [← twin.fields] at known'
      rw [ensureKeyIndex, ensureIndex_known keyField true plain known,
        ensureIndex_known keyField true plain' known']
      exact ⟨rfl, twin, rfl⟩
    · have known' := known
      rw [← twin.fields] at known'
      obtain ⟨steps, ended, flags⟩ :=
        ensureIndex_register amid.coherent amid.calm true plain known
      obtain ⟨steps', ended', flags'⟩ :=
        ensureIndex_register amid'.coherent amid'.calm true plain' known'
      refine ⟨ended'.trans ended.symm, twin.steps steps steps' after after' ?_ ?_ ?_, frame.cfg⟩
      · have counting : Guards (Counting w.col.idSeq) (ensureKeyIndex : Proc N Unit) :=
          guards_ensureIndex keyField true
        exact (counting.run twin.idSeq).trans (counting.run rfl).symm
      · rw [ensureKeyIndex, flags, flags', twin.flags]
      · intro _ absurd
        cases absurd

theorem insertWithKey_alike (twin : Twin gone now w v) (env : Env)
    (blind : InsertBlind gone env ((ensureKeyIndex : Proc N Unit).run w).2
      ((ensureKeyIndex : Proc N Unit).run v).2 (some (stampKey data key))
      (resolveInsertExpiry w.col.cfg env.now none)) :
    Alike gone now env (.insertWithKey key data) w v := by
  rcases reserved : checkReserved data with e | ⟨⟩
  · have refused (world : World N) :
        ((Call.insertWithKey key data).proc env).run world = (.error e, world) :=
      Proc.run_bind_error (Proc.run_bind_error (by rw [reserved]; rfl) _) _
    rw [Alike, refused, refused]
    exact ⟨rfl, twin⟩
  · obtain ⟨ended, ensured, cfg⟩ := twin.ensureKeyIndex_alike env
    have starts (world : World N) : (Collection.insertWithKey env key data).run world =
        (do
          ensureKeyIndex
          let cfg ← Proc.read fun w => w.col.cfg
          insertRecord env (some (stampKey data key))
            (resolveInsertExpiry cfg env.now none) : Proc N Nat).run world := by
      rw [Collection.insertWithKey, reserved]
      rfl
    rcases made : (ensureKeyIndex : Proc N Unit).run w with ⟨outcome, w₁⟩
    rcases made' : (ensureKeyIndex : Proc N Unit).run v with ⟨outcome', v₁⟩
    rw [made, made'] at ended ensured blind
    rw [made] at cfg
    obtain rfl : outcome' = outcome := ended
    cases outcome' with
    | error e =>
      have refused {world world' : World N}
          (failed : (ensureKeyIndex : Proc N Unit).run world = (.error e, world')) :
          ((Call.insertWithKey key data).proc env).run world = (.error e, world') := by
        refine Proc.run_bind_error ?_ _
        rw [starts]
        exact Proc.run_bind_error failed _
      rw [Alike, refused made, refused made']
      exact ⟨rfl, ensured⟩
    | ok _ =>
      have shape {world world' : World N}
          (passed : (ensureKeyIndex : Proc N Unit).run world = (.ok (), world'))
          (settings : world'.col.cfg = w.col.cfg) :
          ((Call.insertWithKey key data).proc env).run world =
            (newRecord env (some (stampKey data key))
              (resolveInsertExpiry w.col.cfg env.now none)).run world' := by
        refine Proc.run_bind_congr ?_ _
        rw [starts, Proc.run_bind_ok passed, ← settings]
        rfl
      have left := shape made cfg
      have right := shape made' (ensured.cfg.trans cfg)
      rw [Alike, left, right]
      refine ensured.newRecord_alike (keepable_stampKey _ data key) blind ?_ ?_
      · rw [← left]
        exact (amid_call twin.left env (.insertWithKey key data) trivial).1
      · rw [← right]
        exact (amid_call twin.right env (.insertWithKey key data) trivial).1

end Twin

end Writes

end Scriva.Engine.Twins
