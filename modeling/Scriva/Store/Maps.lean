import Scriva.Store.Record

/-!
# Maps of fields

What the code does with maps from field names to values: it leaves fields out,
sets a field, and writes the fields of one map over another.  A map is
determined by the values it has under each name.
-/

namespace Scriva.Store.Record

variable {N : Type}

/-! ## Looking up fields -/

variable {name : String} {fields : List (String × Value N)} {value : Value N}

theorem lookup_of_above (above : ∀ field ∈ fields, name < field.1) : fields.lookup name = none := by
  induction fields with
  | nil => rfl
  | cons field fields ih =>
    have differs : name ≠ field.1 := (above field (.head _)).ne
    rw [lookup_cons_if, if_neg differs]
    exact ih fun other member => above other (.tail _ member)

theorem mem_of_lookup (found : fields.lookup name = some value) : (name, value) ∈ fields := by
  induction fields with
  | nil => cases found
  | cons field fields ih =>
    rw [lookup_cons_if] at found
    split_ifs at found with here
    · obtain rfl := Option.some.inj found
      rw [here]
      exact (.head _)
    · exact List.mem_cons_of_mem _ (ih found)

theorem lookup_of_mem (ordered : canonicalFields fields) (member : (name, value) ∈ fields) :
    fields.lookup name = some value := by
  induction fields with
  | nil => cases member
  | cons field fields ih =>
    obtain ⟨least, -, tail⟩ := (canonicalFields_cons_iff _ _ _).mp ordered
    rw [lookup_cons_if]
    rcases List.mem_cons.mp member with rfl | later
    · exact if_pos rfl
    · rw [if_neg (least _ later).ne']
      exact ih tail later

theorem canonical_of_mem (ordered : canonicalFields fields) (member : (name, value) ∈ fields) :
    canonical value := by
  induction fields with
  | nil => cases member
  | cons field fields ih =>
    obtain ⟨-, nested, tail⟩ := (canonicalFields_cons_iff _ _ _).mp ordered
    rcases List.mem_cons.mp member with rfl | later
    · exact nested
    · exact ih tail later

/-- Fields in order are determined by what is found under each name. -/
theorem fields_ext {left right : List (String × Value N)} (orderedLeft : canonicalFields left)
    (orderedRight : canonicalFields right)
    (same : ∀ name, left.lookup name = right.lookup name) : left = right := by
  induction left generalizing right with
  | nil =>
    cases right with
    | nil => rfl
    | cons field right =>
      have found := same field.1
      rw [lookup_cons_if, if_pos rfl] at found
      cases found
  | cons field left ih =>
    obtain ⟨leastLeft, -, tailLeft⟩ := (canonicalFields_cons_iff _ _ _).mp orderedLeft
    have inRight : (field.1, field.2) ∈ right := by
      apply mem_of_lookup
      rw [← same, lookup_cons_if, if_pos rfl]
    cases right with
    | nil => cases inRight
    | cons other right =>
      obtain ⟨leastRight, -, tailRight⟩ := (canonicalFields_cons_iff _ _ _).mp orderedRight
      have inLeft : (other.1, other.2) ∈ field :: left := by
        apply mem_of_lookup
        rw [same, lookup_cons_if, if_pos rfl]
      -- the first field of each side is the least one of both
      have heads : field = other := by
        rcases List.mem_cons.mp inRight with here | later
        · exact here
        · rcases List.mem_cons.mp inLeft with back | beyond
          · exact back.symm
          · exact absurd (leastRight _ later) (leastLeft _ beyond).asymm
      subst heads
      congr 1
      refine ih tailLeft tailRight fun name => ?_
      by_cases here : name = field.1
      · subst here
        rw [lookup_of_above leastLeft, lookup_of_above leastRight]
      · have found := same name
        rwa [lookup_cons_if, lookup_cons_if, if_neg here, if_neg here] at found

namespace Data

theorem ext_get {left right : Data N} (same : ∀ field, left.get field = right.get field) :
    left = right :=
  Data.ext (fields_ext left.ordered right.ordered same)

variable {data : Data N} {field : String} {upper : List (String × Value N)}

theorem get_of_mem (member : (field, value) ∈ data.fields) : data.get field = some value :=
  lookup_of_mem data.ordered member

theorem canonical_of_get (found : data.get field = some value) : canonical value :=
  canonical_of_mem data.ordered (mem_of_lookup found)

theorem mem_names_iff : field ∈ data.fields.map Prod.fst ↔ data.get field ≠ none := by
  constructor
  · intro member
    obtain ⟨⟨name, value⟩, here, rfl⟩ := List.mem_map.mp member
    rw [get_of_mem here]
    exact Option.some_ne_none _
  · intro present
    obtain ⟨value, found⟩ := Option.ne_none_iff_exists'.mp present
    exact List.mem_map.mpr ⟨(field, value), mem_of_lookup found, rfl⟩

@[simp]
theorem get_empty (field : String) : (Data.empty : Data N).get field = none := rfl

/-! ## Changing maps -/

/-- A copy of the record with one field set. -/
def put (data : Data N) (field : String) (value : Value N) (ordered : canonical value) :
    Data N where
  fields := insertField field value data.fields
  ordered := canonicalFields_insertField data.ordered ordered

@[simp]
theorem get_put (data : Data N) (field other : String) (value : Value N)
    (ordered : canonical value) :
    (data.put field value ordered).get other =
      if other = field then some value else data.get other :=
  lookup_insertField field other value data.fields

theorem canonicalFields_filter (ordered : canonicalFields fields) (keep : String → Bool) :
    canonicalFields (fields.filter fun field => keep field.1) := by
  induction fields with
  | nil => rfl
  | cons field fields ih =>
    obtain ⟨least, nested, tail⟩ := (canonicalFields_cons_iff _ _ _).mp ordered
    rw [List.filter_cons]
    split_ifs
    · rw [canonicalFields_cons_iff]
      exact ⟨fun other member => least other (List.mem_of_mem_filter member), nested,
        ih tail⟩
    · exact ih tail

/-- The fields with names that pass a test. -/
def filter (data : Data N) (keep : String → Bool) : Data N where
  fields := data.fields.filter fun field => keep field.1
  ordered := canonicalFields_filter data.ordered keep

@[simp]
theorem get_filter (data : Data N) (keep : String → Bool) (field : String) :
    (data.filter keep).get field = if keep field then data.get field else none := by
  change (data.fields.filter fun field => keep field.1).lookup field =
    if keep field then data.fields.lookup field else none
  induction data.fields with
  | nil => simp
  | cons first fields ih =>
    rw [List.filter_cons, lookup_cons_if]
    by_cases same : field = first.1
    · subst same
      by_cases kept : keep first.1 = true
      · rw [if_pos kept, if_pos kept, lookup_cons_if, if_pos rfl, if_pos rfl]
      · rw [if_neg kept, ih, if_neg kept, if_neg kept]
    · by_cases kept : keep first.1 = true
      · rw [if_pos kept, if_neg same, lookup_cons_if, if_neg same, ih]
      · rw [if_neg kept, if_neg same, ih]

/-- The fields of one map written over another. -/
def overlayFields (fields upper : List (String × Value N)) : List (String × Value N) :=
  upper.foldl (fun fields field => insertField field.1 field.2 fields) fields

theorem canonicalFields_overlay (ordered : canonicalFields fields)
    (orderedUpper : canonicalFields upper) : canonicalFields (overlayFields fields upper) := by
  induction upper generalizing fields with
  | nil => exact ordered
  | cons field upper ih =>
    obtain ⟨-, nested, tail⟩ := (canonicalFields_cons_iff _ _ _).mp orderedUpper
    exact ih (canonicalFields_insertField ordered nested) tail

def overlay (data upper : Data N) : Data N where
  fields := overlayFields data.fields upper.fields
  ordered := canonicalFields_overlay data.ordered upper.ordered

theorem lookup_overlayFields (ordered : canonicalFields upper) (name : String) :
    (overlayFields fields upper).lookup name = (upper.lookup name).or (fields.lookup name) := by
  induction upper generalizing fields with
  | nil => rfl
  | cons field upper ih =>
    obtain ⟨least, -, tail⟩ := (canonicalFields_cons_iff _ _ _).mp ordered
    have step : overlayFields fields (field :: upper) =
        overlayFields (insertField field.1 field.2 fields) upper := rfl
    rw [step, ih tail, lookup_insertField, lookup_cons_if]
    split_ifs with here
    · subst here
      rw [lookup_of_above least]
      rfl
    · rfl

@[simp]
theorem get_overlay (data upper : Data N) (field : String) :
    (data.overlay upper).get field = (upper.get field).or (data.get field) :=
  lookup_overlayFields upper.ordered field

end Data

end Scriva.Store.Record
