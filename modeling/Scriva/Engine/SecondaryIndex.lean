import Scriva.Engine.PrimaryIndex

/-!
# Secondary indexes

An inverted index from the textual key of a field's value to the ids of the
records holding it, with the reverse map that finds the bucket an id occupies.

`Exact` says that an index maps a key to an id exactly when a given assignment
does.  Every mutation changes the assignment at the one id it is about, and a
rebuild establishes the assignment that the replayed lines determine.
-/

namespace Scriva.Engine.SecondaryIndex

open Lib.Text Lib.Keyed Store.Record Store.Ndjson Segment PrimaryIndex

/-- A secondary index on one field. -/
structure Sidx where
  field : String
  unique : Bool
  buckets : Map String (Finset Nat)
  reverse : Map Nat String
deriving DecidableEq

def newSecondaryIndex (field : String) (unique : Bool) : Sidx where
  field := field
  unique := unique
  buckets := ∅
  reverse := ∅

namespace Sidx

/-- The ids under a key. -/
def bucket (s : Sidx) (key : String) : Finset Nat :=
  (s.buckets.lookup key).getD ∅

def addKey (s : Sidx) (key : String) (id : Nat) : Sidx :=
  { s with
    buckets := s.buckets.insert key (insert id (s.bucket key))
    reverse := s.reverse.insert id key }

/-- Take an id out of a bucket, dropping the bucket when it becomes empty. -/
def shrink (s : Sidx) (key : String) (id : Nat) : Sidx :=
  if (s.bucket key).erase id = ∅ then { s with buckets := s.buckets.erase key }
  else { s with buckets := s.buckets.insert key ((s.bucket key).erase id) }

def remove (s : Sidx) (id : Nat) : Sidx :=
  match s.reverse.lookup id with
  | none => s
  | some key =>
    let shrunk := s.shrink key id
    { shrunk with reverse := shrunk.reverse.erase id }

def updateKey (s : Sidx) (id : Nat) (key : String) : Sidx :=
  match s.reverse.lookup id with
  | none => s.addKey key id
  | some old => (s.shrink old id).addKey key id

/-- The ids under a key that are not the given one. -/
def conflict (s : Sidx) (key : String) (id : Nat) : Bool :=
  decide (∃ existing ∈ s.bucket key, existing ≠ id)

/-! ## The index file -/

end Sidx

/-- The content of an index file.  The digest stands for the checksum of the
buckets. -/
inductive SidxFile where
  | malformed
  | file (field : String) (unique : Bool) (buckets digest : Map String (Finset Nat))
deriving DecidableEq

namespace Sidx

def persist (s : Sidx) : SidxFile :=
  .file s.field s.unique s.buckets s.buckets

/-- The reverse of a bucket map. -/
def reverseOf (buckets : Map String (Finset Nat)) : Map Nat String :=
  (buckets.keys.sort (· ≤ ·)).foldl
    (fun reverse key =>
      (((buckets.lookup key).getD ∅).sort (· ≤ ·)).foldl
        (fun reverse id => reverse.insert id key) reverse) ∅

/-- Load a file into an index.  The unique flag is restored even when the
checksum does not match; the flag says whether the buckets were loaded. -/
def load (s : Sidx) : SidxFile → Sidx × Bool
  | .malformed => (s, false)
  | .file _ unique buckets digest =>
    if buckets = digest then
      ({ s with unique, buckets, reverse := reverseOf buckets }, true)
    else ({ s with unique }, false)

end Sidx

/-! ## Values and records -/

section Records

variable {N : Type} [JsonNumber N]

/-- The bucket key of a value. -/
def toIndexKey (value : Value N) : String :=
  sprint value

/-- The bucket key that a record has on a field, if it has the field. -/
def indexKey (field : String) (data : Option (Data N)) : Option String :=
  (field? data field).map toIndexKey

namespace Sidx

/-- Index a new record. -/
def indexEntry (s : Sidx) (id : Nat) (data : Option (Data N)) : Sidx :=
  match indexKey s.field data with
  | some key => s.addKey key id
  | none => s

/-- Move a record to the key of its new data. -/
def updateEntry (s : Sidx) (id : Nat) (data : Option (Data N)) : Sidx :=
  match indexKey s.field data with
  | some key => s.updateKey id key
  | none => s.remove id

/-- The latest data of every id, or that it was deleted. -/
def latestEntry (latest : Map Nat (Option (Option (Data N)))) (e : Entry N) :
    Map Nat (Option (Option (Data N))) :=
  match e.op with
  | .insert | .update => latest.insert e.id (some e.data)
  | .delete => latest.insert e.id none
  | .other _ _ => latest

def scanLatest (files : Nat → Option Bytes) :
    List Nat → Map Nat (Option (Option (Data N))) →
      Option (Map Nat (Option (Option (Data N))))
  | [], latest => some latest
  | segment :: segments, latest =>
    match (files segment).bind (scanAll (N := N)) with
    | none => none
    | some entries => scanLatest files segments (entries.foldl latestEntry latest)

/-- The buckets of the latest data, replacing whatever was indexed. -/
def fill (s : Sidx) (latest : Map Nat (Option (Option (Data N)))) : Sidx :=
  (latest.keys.sort (· ≤ ·)).foldl
    (fun s id =>
      match latest.lookup id with
      | some (some data) => s.indexEntry id data
      | _ => s)
    { s with buckets := ∅, reverse := ∅ }

/-- Reconstruct the index by replaying the entries of the segments. -/
def rebuild (N : Type) [JsonNumber N] (s : Sidx) (files : Nat → Option Bytes)
    (segments : List Nat) : Option Sidx :=
  (scanLatest (N := N) files segments ∅).map s.fill

end Sidx

end Records

/-! ## Exactness -/

namespace Sidx

/-- The index maps a key to an id exactly when `want` does. -/
structure Exact (s : Sidx) (want : Nat → Option String) : Prop where
  reverse : ∀ id, s.reverse.lookup id = want id
  bucket : ∀ key id, id ∈ s.bucket key ↔ want id = some key

theorem bucket_insert (s : Sidx) (key other : String) (ids : Finset Nat) :
    bucket { s with buckets := s.buckets.insert key ids } other =
      if other = key then ids else s.bucket other := by
  unfold bucket
  rw [lookup_insert_if]
  split_ifs <;> rfl

theorem bucket_erase (s : Sidx) (key other : String) :
    bucket { s with buckets := s.buckets.erase key } other =
      if other = key then ∅ else s.bucket other := by
  unfold bucket
  rw [lookup_erase_if]
  split_ifs <;> rfl

theorem mem_bucket_shrink (s : Sidx) (key other : String) (id member : Nat) :
    member ∈ (s.shrink key id).bucket other ↔
      member ∈ s.bucket other ∧ ¬ (other = key ∧ member = id) := by
  have content : (s.shrink key id).bucket other =
      if other = key then (s.bucket other).erase id else s.bucket other := by
    unfold shrink
    split_ifs with emptied same same
    · rw [bucket_erase, if_pos same, same, emptied]
    · rw [bucket_erase, if_neg same]
    · rw [bucket_insert, if_pos same, same]
    · rw [bucket_insert, if_neg same]
  rw [content]
  split_ifs with same
  · simp [same, and_comm]
  · simp [same]

@[simp]
theorem reverse_shrink (s : Sidx) (key : String) (id : Nat) :
    (s.shrink key id).reverse = s.reverse := by
  unfold shrink
  split_ifs <;> rfl

@[simp]
theorem field_shrink (s : Sidx) (key : String) (id : Nat) :
    (s.shrink key id).field = s.field := by
  unfold shrink
  split_ifs <;> rfl

@[simp]
theorem unique_shrink (s : Sidx) (key : String) (id : Nat) :
    (s.shrink key id).unique = s.unique := by
  unfold shrink
  split_ifs <;> rfl

theorem mem_bucket_addKey (s : Sidx) (key other : String) (id member : Nat) :
    member ∈ (s.addKey key id).bucket other ↔
      member ∈ s.bucket other ∨ (other = key ∧ member = id) := by
  have content : (s.addKey key id).bucket other =
      if other = key then insert id (s.bucket other) else s.bucket other := by
    unfold addKey bucket
    rw [lookup_insert_if]
    split_ifs with same
    · rw [same]
      rfl
    · rfl
  rw [content]
  split_ifs with same
  · simp [same, or_comm]
  · simp [same]

theorem exact_new (field : String) (unique : Bool) :
    (newSecondaryIndex field unique).Exact fun _ => none :=
  ⟨fun _ => rfl, fun _ _ => by simp [bucket, newSecondaryIndex]⟩

variable {s : Sidx} {want : Nat → Option String}

/-- Adding an id that is not indexed yet. -/
theorem Exact.addKey (exact : s.Exact want) {id : Nat} (fresh : want id = none) (key : String) :
    (s.addKey key id).Exact (Function.update want id (some key)) := by
  constructor
  · intro other
    simp only [Sidx.addKey, lookup_insert_if, exact.reverse, Function.update_apply]
  · intro other member
    rw [mem_bucket_addKey, exact.bucket, Function.update_apply]
    by_cases same : member = id
    · simp [same, fresh, eq_comm]
    · simp [same]

theorem Exact.shrink (exact : s.Exact want) {id : Nat} {key : String} (indexed : want id = some key)
    (other : String) (member : Nat) :
    member ∈ (s.shrink key id).bucket other ↔ member ≠ id ∧ want member = some other := by
  rw [mem_bucket_shrink, exact.bucket]
  constructor
  · rintro ⟨held, apart⟩
    refine ⟨fun same => apart ⟨?_, same⟩, held⟩
    rw [same, indexed] at held
    exact (Option.some.inj held).symm
  · rintro ⟨differs, held⟩
    exact ⟨held, fun both => differs both.2⟩

theorem Exact.remove (exact : s.Exact want) (id : Nat) :
    (s.remove id).Exact (Function.update want id none) := by
  unfold Sidx.remove
  split
  · rename_i absent
    rw [exact.reverse] at absent
    rwa [← absent, Function.update_eq_self]
  · rename_i key indexed
    rw [exact.reverse] at indexed
    constructor
    · intro other
      simp only [reverse_shrink, lookup_erase_if, exact.reverse, Function.update_apply]
    · intro other member
      refine (exact.shrink indexed other member).trans ?_
      rw [Function.update_apply]
      split_ifs with same
      · simp [same]
      · simp [same]

theorem Exact.updateKey (exact : s.Exact want) (id : Nat) (key : String) :
    (s.updateKey id key).Exact (Function.update want id (some key)) := by
  unfold Sidx.updateKey
  split
  · rename_i absent
    exact exact.addKey ((exact.reverse id).symm.trans absent) key
  · rename_i old indexed
    rw [exact.reverse] at indexed
    constructor
    · intro other
      simp only [Sidx.addKey, reverse_shrink, lookup_insert_if, exact.reverse,
        Function.update_apply]
    · intro other member
      rw [mem_bucket_addKey, exact.shrink indexed, Function.update_apply]
      by_cases same : member = id
      · simp [same, eq_comm]
      · simp [same]

/-! ## Records keep an index exact -/

section Records

variable {N : Type} [JsonNumber N]

@[simp]
theorem field_addKey (s : Sidx) (key : String) (id : Nat) :
    (s.addKey key id).field = s.field := rfl

@[simp]
theorem unique_addKey (s : Sidx) (key : String) (id : Nat) :
    (s.addKey key id).unique = s.unique := rfl

@[simp]
theorem field_remove (s : Sidx) (id : Nat) : (s.remove id).field = s.field := by
  unfold remove
  split
  · rfl
  · exact field_shrink s _ id

@[simp]
theorem unique_remove (s : Sidx) (id : Nat) : (s.remove id).unique = s.unique := by
  unfold remove
  split
  · rfl
  · exact unique_shrink s _ id

@[simp]
theorem field_indexEntry (s : Sidx) (id : Nat) (data : Option (Data N)) :
    (s.indexEntry id data).field = s.field := by
  unfold indexEntry
  split <;> rfl

@[simp]
theorem unique_indexEntry (s : Sidx) (id : Nat) (data : Option (Data N)) :
    (s.indexEntry id data).unique = s.unique := by
  unfold indexEntry
  split <;> rfl

@[simp]
theorem field_updateEntry (s : Sidx) (id : Nat) (data : Option (Data N)) :
    (s.updateEntry id data).field = s.field := by
  unfold updateEntry updateKey
  split
  · split <;> simp
  · simp

@[simp]
theorem unique_updateEntry (s : Sidx) (id : Nat) (data : Option (Data N)) :
    (s.updateEntry id data).unique = s.unique := by
  unfold updateEntry updateKey
  split
  · split <;> simp
  · simp

theorem Exact.indexEntry (exact : s.Exact want) {id : Nat} (fresh : want id = none)
    (data : Option (Data N)) :
    (s.indexEntry id data).Exact (Function.update want id (indexKey s.field data)) := by
  unfold Sidx.indexEntry
  split
  · rename_i key found
    rw [found]
    exact exact.addKey fresh key
  · rename_i missing
    rwa [missing, ← fresh, Function.update_eq_self]

theorem Exact.updateEntry (exact : s.Exact want) (id : Nat) (data : Option (Data N)) :
    (s.updateEntry id data).Exact (Function.update want id (indexKey s.field data)) := by
  unfold Sidx.updateEntry
  split
  · rename_i key found
    rw [found]
    exact exact.updateKey id key
  · rename_i missing
    rw [missing]
    exact exact.remove id

/-- The assignment that a log of lines determines for a field. -/
def wanted (field : String) (log : List (Located N)) (id : Nat) : Option String :=
  (live log id).bind fun line => indexKey field line.entry.data

def latestStep (e : Entry N) (current : Option (Option (Option (Data N)))) :
    Option (Option (Option (Data N))) :=
  match e.op with
  | .insert | .update => some (some e.data)
  | .delete => some none
  | .other _ _ => current

omit [JsonNumber N] in
theorem latestEntry_eq_alter (latest : Map Nat (Option (Option (Data N))))
    (e : Entry N) :
    latestEntry latest e = alter latest e.id (latestStep e (latest.lookup e.id)) := by
  unfold latestEntry latestStep
  split
  · rfl
  · rfl
  · rfl
  · exact (alter_lookup latest _).symm

omit [JsonNumber N] in
/-- The latest data of an id is that of its live version. -/
theorem join_history_latestStep (log : List (Located N)) (id : Nat) :
    (history (fun e : Entry N => e.id) latestStep (log.map Located.entry) id none).join =
      (live log id).map fun line => line.entry.data := by
  have follow (current : Option (Option (Option (Data N))))
      (found : Option (Located N × Nat))
      (agrees : current.join = found.map fun line => line.1.entry.data) :
      (history (fun e : Entry N => e.id) latestStep (log.map Located.entry) id
          current).join =
        (history (fun line => line.entry.id) versionStep log id found).map
          fun line => line.1.entry.data := by
    induction log generalizing current found with
    | nil => exact agrees
    | cons line log ih =>
      rw [List.map_cons, history_cons, history_cons]
      apply ih
      split_ifs with here
      · unfold latestStep versionStep
        split <;> simp_all
      · exact agrees
  have result := follow none none rfl
  rw [result, live, version, Option.map_map]
  rfl

variable {files : Nat → Option Bytes} {layout : Layout N}

theorem scanLatest_eq (holds : Holds files layout) (latest : Map Nat (Option (Option (Data N)))) :
    scanLatest files (layout.map Prod.fst) latest =
      some (((located layout).map Located.entry).foldl latestEntry latest) := by
  induction layout generalizing latest with
  | nil => rfl
  | cons segment layout ih =>
    have here := holds segment (.head _)
    have rest : Holds files layout := fun other member =>
      holds other (.tail _ member)
    simp only [List.map_cons, scanLatest, here, Option.bind_some, scanAll_fileOf,
      ih rest, located, List.flatMap_cons, List.map_append,
      map_entry_locateLines, List.foldl_append]

/-- The index holds the records added so far, the last of them at the end. -/
theorem Exact.foldl_indexEntry (exact : s.Exact want) (latest : Map Nat (Option (Option (Data N))))
    {ids : List Nat} (distinct : ids.Nodup) (fresh : ∀ id ∈ ids, want id = none) :
    (ids.foldl (fun s id =>
        match latest.lookup id with
        | some (some data) => s.indexEntry id data
        | _ => s) s).Exact
      (fun id => if id ∈ ids then (latest.lookup id).join.bind (indexKey s.field)
        else want id) := by
  induction ids generalizing s want with
  | nil => simpa using exact
  | cons id ids ih =>
    obtain ⟨here, rest⟩ := List.nodup_cons.mp distinct
    have absent := fresh id (.head _)
    -- the record at `id` goes in first; the others are untouched by it
    have step : (match latest.lookup id with
        | some (some data) => s.indexEntry id data
        | _ => s).Exact (Function.update want id
          ((latest.lookup id).join.bind (indexKey s.field))) ∧
        (match latest.lookup id with
          | some (some data) => s.indexEntry id data
          | _ => s).field = s.field := by
      rcases latest.lookup id with - | - | data
      · exact ⟨by rwa [Option.join_none, Option.bind_none, ← absent,
          Function.update_eq_self], rfl⟩
      · exact ⟨by rwa [Option.join_some, Option.bind_none, ← absent,
          Function.update_eq_self], rfl⟩
      · exact ⟨exact.indexEntry absent data, field_indexEntry s id data⟩
    have others : ∀ other ∈ ids, Function.update want id
        ((latest.lookup id).join.bind (indexKey s.field)) other = none := by
      intro other member
      have differs : other ≠ id := by
        rintro rfl
        exact here member
      rw [Function.update_of_ne differs]
      exact fresh other (.tail _ member)
    have result := ih step.1 rest others
    rw [step.2] at result
    rw [List.foldl_cons]
    convert result using 2 with other
    by_cases same : other = id
    · subst same
      simp [here]
    · simp [same]

theorem flags_fill (s : Sidx) (latest : Map Nat (Option (Option (Data N)))) :
    (s.fill latest).field = s.field ∧ (s.fill latest).unique = s.unique := by
  have keep (ids : List Nat) (t : Sidx) :
      (ids.foldl (fun s id =>
          match latest.lookup id with
          | some (some data) => s.indexEntry id data
          | _ => s) t).field = t.field ∧
        (ids.foldl (fun s id =>
          match latest.lookup id with
          | some (some data) => s.indexEntry id data
          | _ => s) t).unique = t.unique := by
    induction ids generalizing t with
    | nil => exact ⟨rfl, rfl⟩
    | cons id ids ih =>
      rw [List.foldl_cons, (ih _).1, (ih _).2]
      split
      · exact ⟨field_indexEntry t id _, unique_indexEntry t id _⟩
      · exact ⟨rfl, rfl⟩
  exact keep _ _

theorem exact_fill (s : Sidx) (latest : Map Nat (Option (Option (Data N)))) :
    (s.fill latest).Exact fun id =>
      (latest.lookup id).join.bind (indexKey s.field) := by
  have start : Exact { s with buckets := ∅, reverse := ∅ } fun _ => none :=
    exact_new s.field s.unique
  have filled := start.foldl_indexEntry latest (latest.keys.sort_nodup (· ≤ ·))
    fun _ _ => rfl
  have content : (fun id => (latest.lookup id).join.bind (indexKey s.field)) =
      fun id => if id ∈ latest.keys.sort (· ≤ ·) then
        (latest.lookup id).join.bind (indexKey s.field) else none := by
    funext id
    split_ifs with known
    · rfl
    · rw [Finset.mem_sort, Finmap.mem_keys] at known
      rw [Finmap.lookup_eq_none.mpr known]
      rfl
  rw [content]
  exact filled

/-- A rebuild indexes exactly the live records of the lines it replays. -/
theorem rebuild_exact (s : Sidx) (holds : Holds files layout) :
    ∃ rebuilt, s.rebuild N files (layout.map Prod.fst) = some rebuilt ∧
      rebuilt.field = s.field ∧ rebuilt.unique = s.unique ∧
      rebuilt.Exact (wanted s.field (located layout)) := by
  let latest := ((located layout).map Located.entry).foldl latestEntry ∅
  have scanned : s.rebuild N files (layout.map Prod.fst) = some (s.fill latest) := by
    rw [rebuild, scanLatest_eq holds, Option.map_some]
  refine ⟨s.fill latest, scanned, (flags_fill s latest).1, (flags_fill s latest).2, ?_⟩
  convert exact_fill s latest using 2 with id
  have found := lookup_foldl (fun e : Entry N => e.id) latestStep
    ((located layout).map Located.entry) ∅ id latestEntry latestEntry_eq_alter
  rw [Finmap.lookup_empty] at found
  rw [found, join_history_latestStep, wanted, Option.bind_map]
  rfl

end Records

/-! ## Persisting and loading -/

theorem lookup_foldl_insert (ids : List Nat) (key : String) (m : Map Nat String)
    (id : Nat) :
    (ids.foldl (fun reverse id => reverse.insert id key) m).lookup id =
      if id ∈ ids then some key else m.lookup id := by
  induction ids generalizing m with
  | nil => simp
  | cons first ids ih =>
    rw [List.foldl_cons, ih, lookup_insert_if]
    by_cases later : id ∈ ids
    · simp [later]
    · simp [later]

theorem lookup_reverseOf (exact : s.Exact want) (id : Nat) :
    (reverseOf s.buckets).lookup id = want id := by
  have follow (keys : List String) (m : Map Nat String) :
      (keys.foldl (fun reverse key =>
          (((s.buckets.lookup key).getD ∅).sort (· ≤ ·)).foldl
            (fun reverse id => reverse.insert id key) reverse) m).lookup id =
        if ∃ key ∈ keys, want id = some key then want id else m.lookup id := by
    induction keys generalizing m with
    | nil => simp
    | cons key keys ih =>
      have inside : id ∈ ((s.buckets.lookup key).getD ∅).sort (· ≤ ·) ↔
          want id = some key := by
        rw [Finset.mem_sort]
        exact exact.bucket key id
      rw [List.foldl_cons, ih, lookup_foldl_insert]
      simp only [inside, List.mem_cons, exists_eq_or_imp]
      by_cases later : ∃ key ∈ keys, want id = some key
      · simp [later]
      · by_cases here : want id = some key
        · simp [here]
        · simp [later, here]
  rw [reverseOf, follow, Finmap.lookup_empty]
  rcases held : want id with - | key
  · simp
  · have member : id ∈ s.bucket key := (exact.bucket key id).mpr held
    have known : key ∈ s.buckets := by
      by_contra missing
      simp [bucket, Finmap.lookup_eq_none.mpr missing] at member
    simp [Finmap.mem_keys.mpr known]

end Sidx

end Scriva.Engine.SecondaryIndex
