import Scriva.Engine.IndexedScans

/-!
# Indexes over their life, and their files

A file holds the JSON of an index and a checksum of the part that matters.  The
ids of a bucket are written in whatever order a map is iterated in; loading
computes the checksum again from what was parsed, and makes the reverse map and
the ordered view anew.  The JSON is a parameter, of which only the round trip is
assumed; nothing is assumed of the checksum.

`Reached` follows an index through additions, updates, removals, rebuilds and
loads, with the value that every id was given.
-/

namespace Scriva.Engine.IndexFiles

open Lib.Text Lib.Keyed Store.Record Store.Given PrimaryIndex SecondaryIndex Scanning OrderedIndex
open Query (NumberOrder)
open IndexedScans (Whole)

/-- What is written for a type, and how it is read. -/
structure Json (α : Type) where
  Text : Type
  marshal : α → Text
  unmarshal : Text → Option α
  unmarshal_marshal : ∀ value, unmarshal (marshal value) = some value

structure IndexRecord where
  entries : Index
  checksum : String

/-- The ids of a bucket are in the order in which they were written. -/
structure SidxRecord where
  field : String
  unique : Bool
  kind : String
  buckets : Map String (List Nat)
  checksum : String

/-- The forms of the index files, and of the parts that are summed. -/
structure Format where
  index : Json IndexRecord
  entries : Index → Bytes
  sidx : Json SidxRecord
  buckets : Map String (List Nat) → Bytes
  checksum : Bytes → String

/-- The orders in which the ids of the buckets are listed. -/
structure Iteration where
  list : String → Finset Nat → List Nat
  toFinset_list : ∀ key ids, (list key ids).toFinset = ids

variable (format : Format)

def persistIndex (index : Index) : format.index.Text :=
  format.index.marshal ⟨index, format.checksum (format.entries index)⟩

def loadIndex (text : format.index.Text) : Except LoadError Index :=
  match format.index.unmarshal text with
  | none => .error .malformed
  | some file =>
    if format.checksum (format.entries file.entries) ≠ file.checksum then .error .stale
    else .ok file.entries

variable {N : Type} [JsonNumber N] [NumberOrder N]

/-- The buckets as lists. -/
def listed (iteration : Iteration) (s : Sidx) : Map String (List Nat) :=
  collect (fun key => iteration.list key (s.bucket key)) (s.buckets.keys.sort (· ≤ ·))

def persist (iteration : Iteration) (index : Ordered N) : format.sidx.Text :=
  let buckets := listed iteration index.sidx
  format.sidx.marshal ⟨index.sidx.field, index.sidx.unique, kindText index.view.kind, buckets,
    format.checksum (format.buckets buckets)⟩

/-- Values of one kind compare as the values by which they are ordered. -/
theorem compare_valKind {held value : Value N} (same : (valKind held).1 = (valKind value).1) :
    Query.compare (valKind held).2 (valKind value).2 = Query.compare held value := by
  cases held <;> cases value <;> rfl

/-- A range lookup is answered by an index that has seen no value, or in a range
of its kind. -/
theorem kind_of_served {view : OrderedView N} {s : Sidx} {op : Query.Op} {value : Value N}
    {ids : List Nat} (served : lookupRange view s op value = some ids) :
    view.kind = .empty ∧ ids = [] ∨ isRange op = true ∧ (valKind value).1 = view.kind := by
  unfold lookupRange at served
  split at served
  · rename_i empty
    exact .inl ⟨empty, (Option.some.inj served).symm⟩
  · cases served
  · split_ifs at served with same
    refine .inr ⟨?_, not_not.mp same⟩
    cases op with
    | gt | gte | lt | lte => rfl
    | eq | neq | contains | regex | other => cases served

variable [GoFloat N]

/-- Load a file into an index; the flag says whether the buckets were loaded. -/
def load (index : Ordered N) (text : format.sidx.Text) : Ordered N × Bool :=
  match format.sidx.unmarshal text with
  | none => (index, false)
  | some file =>
    if format.checksum (format.buckets file.buckets) ≠ file.checksum then
      ({ index with sidx := { index.sidx with unique := file.unique } }, false)
    else
      let fresh := collect (fun key => ((file.buckets.lookup key).getD []).toFinset)
        (file.buckets.keys.sort (· ≤ ·))
      let kind := parseIndexKind file.kind
      let kind := if kind = .empty ∧ fresh ≠ ∅ then inferKind N fresh else kind
      (⟨⟨index.sidx.field, file.unique, fresh, Sidx.reverseOf fresh⟩, kind,
        buildSorted fresh kind⟩, true)

theorem lookup_listed (iteration : Iteration) (s : Sidx) (key : String) :
    (listed iteration s).lookup key = (s.buckets.lookup key).map (iteration.list key) := by
  rw [listed, lookup_collect]
  simp only [Finset.mem_sort, Finmap.mem_keys]
  rcases found : s.buckets.lookup key with - | ids
  · exact if_neg (Finmap.lookup_eq_none.mp found)
  · rw [if_pos (Finmap.mem_of_lookup_eq_some found), Sidx.bucket, found]
    rfl

/-- Whatever order the ids were listed in, the buckets are the same. -/
theorem collect_listed (iteration : Iteration) (s : Sidx) :
    collect (fun key => (((listed iteration s).lookup key).getD []).toFinset)
      ((listed iteration s).keys.sort (· ≤ ·)) = s.buckets := by
  refine Finmap.ext_lookup fun key => ?_
  rw [lookup_collect]
  simp only [Finset.mem_sort, Finmap.mem_keys, ← Finmap.lookup_isSome]
  rw [lookup_listed]
  rcases s.buckets.lookup key with - | ids
  · rfl
  · exact congrArg some (iteration.toFinset_list key ids)

/-- The files and their checksums come to what is assumed of them elsewhere. -/
theorem load_persist (iteration : Iteration) (index into : Ordered N) :
    load format into (persist format iteration index) = into.load index.persist := by
  rw [load, persist, format.sidx.unmarshal_marshal]
  dsimp only
  rw [if_neg (not_not.mpr rfl), collect_listed]
  have read : into.sidx.load index.persist.file = (⟨into.sidx.field, index.sidx.unique,
      index.sidx.buckets, Sidx.reverseOf index.sidx.buckets⟩, true) := if_pos rfl
  rw [Ordered.load, read]
  rfl

/-! ## Runs -/

/-- An index after some operations, and the values that the ids were given. -/
inductive Reached : Ordered N → (Nat → Option (GoValue N)) → Prop where
  | new (field : String) (unique : Bool) : Reached (.new field unique) fun _ => none
  | add {index given} (reached : Reached index given) {id : Nat}
      (fresh : index.sidx.reverse.lookup id = none) (value : GoValue N) :
      Reached (index.add value id) (Function.update given id (some value))
  | update {index given} (reached : Reached index given) (id : Nat) (value : GoValue N) :
      Reached (index.update id value) (Function.update given id (some value))
  | remove {index given} (reached : Reached index given) (id : Nat) :
      Reached (index.remove id) (Function.update given id none)
  | rebuild {index given} (reached : Reached index given)
      (latest : Map Nat (Option (Option (Data N)))) :
      Reached (index.fill latest) (givenIn index.sidx.field latest)
  | load {index given into given'} (reached : Reached into given')
      (written : Reached index given) (iteration : Iteration) :
      Reached (load format into (persist format iteration index)).1 given

variable {format} {index : Ordered N} {given : Nat → Option (GoValue N)}

theorem maintains_new (field : String) (unique : Bool) :
    Maintains (.new field unique : Ordered N) fun _ => none where
  exact := Sidx.exact_new field unique
  filled _ member := absurd member Finmap.notMem_empty
  kinds := .inr nofun
  arranged _ := ⟨[], rfl, .nil, fun _ => iff_of_false List.not_mem_nil Finmap.notMem_empty⟩

theorem Reached.maintains (reached : Reached format index given) : Maintains index given := by
  induction reached with
  | new field unique => exact maintains_new field unique
  | add _ fresh value ih =>
    rw [ih.exact.reverse, Option.map_eq_none_iff] at fresh
    exact ih.add fresh value
  | update _ id value ih => exact ih.update id value
  | remove _ id ih => exact ih.remove id
  | rebuild _ latest _ => exact maintains_fill _ latest
  | load _ _ iteration _ written =>
    rw [load_persist]
    exact written.loaded _

/-! ## What an index represents -/

/-- In every index that is reached: the buckets and the reverse map are inverse to
each other and hold the texts of the given values, no bucket is empty, and in an
index of one kind the ordered view increases and has the keys of the buckets with
the values they stand for.  If the values are those of JSON, a range lookup that
is answered returns the ids whose value is in the range. -/
theorem index_represents (format : Format) (index : Ordered N)
    (given : Nat → Option (GoValue N)) (reached : Reached format index given) :
    (∀ key id, id ∈ index.sidx.bucket key ↔ index.sidx.reverse.lookup id = some key) ∧
      (∀ id, index.sidx.reverse.lookup id = (given id).map GoValue.sprint) ∧
      (∀ key ∈ index.sidx.buckets, (index.sidx.bucket key).Nonempty) ∧
      (index.view.kind = .numeric ∨ index.view.kind = .string →
        index.view.sorted.Pairwise (fun a b => orderLessKey a b = true) ∧
        (∀ key, key ∈ index.view.sorted.map OrderedKey.key ↔ key ∈ index.sidx.buckets) ∧
        ∀ id held, given id = some held →
          ⟨held.sprint, (goValKind held).2⟩ ∈ index.view.sorted) ∧
      ((∀ id held, given id = some held → ∃ value, held = .ofValue value) →
        ∀ op value ids, lookupRange index.view index.sidx op value = some ids →
          ∀ id, id ∈ ids ↔ ∃ held : Value N, given id = some (.ofValue held) ∧
            inRange op (Query.compare held value) = true) := by
  have maintains := reached.maintains
  refine ⟨fun key id => ?_, maintains.exact.reverse, maintains.filled, fun homogeneous => ?_,
    fun json op value ids served => ?_⟩
  · rw [maintains.exact.bucket, maintains.exact.reverse]
  · have one : index.view.kind ≠ .mixed := by
      rcases homogeneous with kind | kind
      all_goals
        rw [kind]
        exact nofun
    obtain ⟨names, sorted, ordered, members⟩ := maintains.arranged one
    rw [sorted]
    refine ⟨?_, fun key => ?_, fun id held found => ?_⟩
    · rw [List.pairwise_map]
      refine ordered.imp fun less => ?_
      rw [orderLessKey_entryOf, less]
      rfl
    · rw [List.map_map]
      exact (List.map_id names).symm ▸ members key
    · have kind := maintains.kinds.resolve_left one id held found
      rw [goValKind_snd, kind]
      exact List.mem_map_of_mem ((members _).mpr (maintains.mem_buckets found))
  · intro id
    rcases kind_of_served served with ⟨empty, rfl⟩ | ⟨range, same⟩
    · refine iff_of_false List.not_mem_nil ?_
      rintro ⟨held, found, -⟩
      exact maintains.not_mem_of_empty empty _ (maintains.mem_buckets found)
    · obtain ⟨ids', found, members⟩ := mem_lookupRange maintains range same
      cases served.symm.trans found
      rw [members id]
      have one : index.view.kind ≠ .mixed := by
        rw [← same]
        cases value <;> exact nofun
      have kind {held : Value N} (found : given id = some (.ofValue held)) :
          (valKind held).1 = (valKind value).1 := by
        rw [valKind_eq, same]
        exact maintains.kinds.resolve_left one id _ found
      constructor
      · rintro ⟨held, found, hit⟩
        obtain ⟨held, rfl⟩ := json id held found
        rw [← valKind_eq, compare_valKind (kind found)] at hit
        exact ⟨held, found, hit⟩
      · rintro ⟨held, found, hit⟩
        refine ⟨_, found, ?_⟩
        rw [← valKind_eq, compare_valKind (kind found)]
        exact hit

/-- Files that hold what they stand for. -/
def asWritten : Format where
  index := ⟨_, id, some, fun _ => rfl⟩
  entries _ := []
  sidx := ⟨_, id, some, fun _ => rfl⟩
  buckets _ := []
  checksum _ := ""

/-- The ids of a bucket in ascending order. -/
def ascending : Iteration where
  list _ ids := ids.sort (· ≤ ·)
  toFinset_list _ ids := ids.sort_toFinset (· ≤ ·)

/-- Two numbers, of which one is changed and one is removed. -/
def changed : Ordered Whole :=
  ((((Ordered.new "n" false).add (.float (.int 5)) 1).add (.float (.int 7)) 2).update 1
    (.float (.int 9))).remove 2

/-- The index is read from its file. -/
def reread : Ordered Whole :=
  (load asWritten (.new "n" true) (persist asWritten ascending changed)).1

/-- The number nine is left. -/
def nine (id : Nat) : Option (GoValue Whole) :=
  if id = 1 then some (.ofValue (.num (.int 9))) else none

theorem index_represents_reread :
    lookupRange reread.view reread.sidx .gte (.num (.int 6)) = some [1] ∧
      reread.sidx.reverse.lookup 1 = some "9" ∧ reread.sidx.reverse.lookup 2 = none ∧
      ∀ id, id ∈ [1] ↔ ∃ held : Value Whole, nine id = some (.ofValue held) ∧
        inRange .gte (Query.compare held (.num (.int 6))) = true := by
  have written : Reached asWritten changed nine := by
    have last : Reached asWritten changed _ :=
      .remove (.update (.add (.add (.new "n" false) rfl _) rfl _) 1 _) 2
    convert last using 1
    funext id
    simp only [nine, Function.update_apply]
    split_ifs <;> first | rfl | omega
  have served : lookupRange reread.view reread.sidx .gte (.num (.int 6)) = some [1] := by
    decide +kernel
  obtain ⟨-, texts, -, -, ranges⟩ := index_represents asWritten reread nine
    (.load (.new "n" true) written ascending)
  refine ⟨served, texts 1, texts 2, ranges (fun id held found => ?_) _ _ _ served⟩
  rw [nine] at found
  split_ifs at found
  exact ⟨_, (Option.some.inj found).symm⟩

/-! ## What is loaded -/

/-- There is one order of the keys of an index. -/
theorem arranged_unique {view view' : OrderedView N} {keys : String → Prop}
    (arranged : Arranged view keys) (arranged' : Arranged view' keys) (same : view.kind = view'.kind) :
    view = view' := by
  obtain ⟨names, sorted, ordered, members⟩ := arranged
  obtain ⟨names', sorted', ordered', members'⟩ := arranged'
  rw [← same] at sorted' ordered'
  have apart {a b : String} (less : keyOrder N view.kind a b = .lt) : a ≠ b := by
    rintro rfl
    rw [keyOrder_self] at less
    cases less
  have perm : names.Perm names' := (List.perm_ext_iff_of_nodup (ordered.imp apart)
    (ordered'.imp apart)).mpr fun key => (members key).trans (members' key).symm
  obtain rfl : names = names' := perm.eq_of_pairwise (fun a b _ _ less more =>
    have loop : keyOrder N view.kind a a = .lt := Std.TransCmp.lt_trans less more
    absurd rfl (apart loop)) ordered ordered'
  obtain ⟨kind, entries⟩ := view
  obtain ⟨kind', entries'⟩ := view'
  cases same
  cases sorted.trans sorted'.symm
  rfl

/-- What is written to a file, in whatever order the ids of the buckets are
listed, is loaded into a new index: a primary index as it was, and a secondary
index with its buckets, its reverse map and its unique flag, and with the answers
it gave to range lookups. -/
theorem indexes_load_back (format : Format) :
    (∀ index : Index, loadIndex format (persistIndex format index) = .ok index) ∧
      ∀ (index : Ordered N) (given : Nat → Option (GoValue N)), Reached format index given →
        ∀ (iteration : Iteration) (unique : Bool), ∃ loaded : Ordered N,
          load format (.new index.sidx.field unique) (persist format iteration index) =
              (loaded, true) ∧
            loaded.sidx = index.sidx ∧ ∀ op value,
              lookupRange loaded.view loaded.sidx op value =
                lookupRange index.view index.sidx op value := by
  refine ⟨fun index => ?_, fun index given reached iteration unique => ?_⟩
  · rw [loadIndex, persistIndex, format.index.unmarshal_marshal]
    exact if_neg (not_not.mpr rfl)
  · have maintains := reached.maintains
    have loaded := maintains.loaded (.new index.sidx.field unique)
    rw [load_persist, maintains.load] at *
    refine ⟨_, rfl, rfl, fun op value => ?_⟩
    by_cases mixed : index.view.kind = .mixed
    · rw [lookupRange, lookupRange, mixed]
    · exact congrArg (lookupRange · index.sidx op value)
        (arranged_unique (loaded.arranged mixed) (maintains.arranged mixed) rfl)

/-- An id that is added twice, under six and then under five. -/
def twice : Ordered Whole :=
  ((Ordered.new "n" false).add (.float (.int 6)) 1).add (.float (.int 5)) 1

/-- It is in two buckets, and loading makes its reverse entry out of either. -/
theorem twice_added_loads_other :
    twice.sidx.reverse.lookup 1 = some "5" ∧
      ∃ loaded : Ordered Whole,
        load asWritten (.new "n" false) (persist asWritten ascending twice) = (loaded, true) ∧
          loaded.sidx.reverse.lookup 1 = some "6" := by
  have sorted : twice.sidx.buckets.keys.sort (· ≤ ·) = ["5", "6"] := by
    have keys : twice.sidx.buckets.keys = insert "5" {"6"} := by decide +kernel
    have least : ∀ key ∈ ({"6"} : Finset String), "5" ≤ key := by decide +kernel
    have fresh : "5" ∉ ({"6"} : Finset String) := by decide +kernel
    rw [keys, Finset.sort_insert (· ≤ ·) least fresh, Finset.sort_singleton]
  have loaded := load_persist asWritten ascending twice (.new "n" false)
  refine ⟨by decide +kernel, _, loaded.trans rfl, ?_⟩
  change (Sidx.reverseOf twice.sidx.buckets).lookup 1 = some "6"
  rw [Sidx.reverseOf, sorted]
  decide +kernel

end Scriva.Engine.IndexFiles
