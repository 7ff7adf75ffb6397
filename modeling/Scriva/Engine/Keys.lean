import Scriva.Engine.Requests
import Scriva.Engine.Uniqueness

/-!
# String keys

A string key is a text under a reserved field of a record.  Keyed writes put it
there, a unique index that the first of them creates keeps it with one record,
and reads by key go through that index.

Three ways around this are open: a plain update replaces the data of a record
and with it the field, a transaction writes whatever data was staged, and an
index on the reserved field may be created before the unique one.  A request
that takes none of them keeps every key where it is.
-/

namespace Scriva.Engine.Keys

open Lib.Fallible Store.Record PrimaryIndex SecondaryIndex Directory Engine.Collection Load Journal
open Coherence Writing Calls Machine Refinement Batches Engine.Sequential LoadJsonl Requests Reading
open Uniqueness (claimsOf mem_claimsOf storedLine_of_coherent)

variable {N : Type}

/-! ## Keys in the abstract store -/

/-- What a record has under the reserved field. -/
def keyHeld (store : Store N) (id : Nat) : Option (Value N) :=
  (store.stock id).bind fun held => field? held.data keyField

/-- Keys are texts, each with one record, and guarded by a unique index. -/
structure Guarded (store : Store N) : Prop where
  text : ∀ {id value}, keyHeld store id = some value → ∃ key, value = .str key
  indexed : ∀ {id value}, keyHeld store id = some value → (keyField, true) ∈ store.indexes
  exclusive : ∀ {id other value}, keyHeld store id = some value →
    keyHeld store other = some value → id = other
  unshared : (keyField, false) ∉ store.indexes

/-- A record that has a key keeps it or is gone. -/
def Keeps (store store' : Store N) : Prop :=
  ∀ id value, keyHeld store id = some value →
    keyHeld store' id = some value ∨ store'.stock id = none

theorem Keeps.refl (store : Store N) : Keeps store store :=
  fun _ _ held => .inl held

theorem keyHeld_ensure (store : Store N) (field : String) (unique : Bool) (id : Nat) :
    keyHeld (store.ensure field unique) id = keyHeld store id := by
  rw [keyHeld, keyHeld, stock_ensure]

theorem keyHeld_put (store : Store N) (id : Nat) (held : Held N) (other : Nat) :
    keyHeld (store.put id held) other =
      if other = id then field? held.data keyField else keyHeld store other := by
  simp only [keyHeld, Store.put, Stock.put, Function.update_apply]
  split_ifs
  · rfl
  · rfl

variable {field : String} {unique : Bool}

/-- A new index leaves the keys guarded unless it takes the place of the unique
one. -/
theorem Guarded.ensure {store : Store N} (guarded : Guarded store)
    (apart : field = keyField → unique = false → store.indexed keyField) :
    Guarded (store.ensure field unique) := by
  have grown (flags : String × Bool) (member : flags ∈ store.indexes) :
      flags ∈ (store.ensure field unique).indexes := by
    unfold Store.ensure
    split_ifs
    · exact member
    · exact List.mem_append_left _ member
  constructor
  · intro id value held
    exact guarded.text (keyHeld_ensure store field unique id ▸ held)
  · intro id value held
    exact grown _ (guarded.indexed (keyHeld_ensure store field unique id ▸ held))
  · intro id other value mine theirs
    rw [keyHeld_ensure] at mine theirs
    exact guarded.exclusive mine theirs
  · unfold Store.ensure
    split_ifs with known
    · exact guarded.unshared
    · intro member
      rcases List.mem_append.mp member with old | new
      · exact guarded.unshared old
      · obtain ⟨rfl, rfl⟩ := Prod.mk.inj (List.mem_singleton.mp new)
        exact known (apart rfl rfl)

/-- After a keyed write has seen to its index, the index is there and unique. -/
theorem Guarded.ensured {store : Store N} (guarded : Guarded store) :
    (keyField, true) ∈ (store.ensure keyField true).indexes := by
  unfold Store.ensure
  split_ifs with known
  · obtain ⟨⟨field, unique⟩, member, rfl⟩ := List.mem_map.mp known
    cases unique with
    | true => exact member
    | false => exact absurd member guarded.unshared
  · exact List.mem_append_right _ (List.mem_singleton_self _)

variable [JsonNumber N]

/-! ## Writes -/

/-- Writes that may change the keys of a store: the texts that they bring are
guarded and accepted, and none is brought to two records. -/
structure Claims (store : Store N) (claims : List (Nat × Option (Data N))) : Prop where
  text : ∀ {id data value}, (id, data) ∈ claims → field? data keyField = some value →
    (∃ key, value = .str key) ∧ (keyField, true) ∈ store.indexes
  accepts : ∀ {id data}, (id, data) ∈ claims → store.Accepts id data
  distinct : ∀ {id data other data' value}, (id, data) ∈ claims → (other, data') ∈ claims →
    field? data keyField = some value → field? data' keyField = some value → id = other

variable {data : Option (Data N)} {value : Value N} {held : Held N} {ts : Utc} {ids : List Nat}

theorem indexKey_of_field (held : field? data keyField = some value) :
    indexKey keyField data = some (toIndexKey value) := by
  rw [indexKey, held, Option.map_some]

/-- A record has the key it had, or none, or one that was claimed for it. -/
theorem Guarded.rewrite {store store' : Store N} {claims : List (Nat × Option (Data N))}
    (guarded : Guarded store) (claimed : Claims store claims)
    (indexes : store'.indexes = store.indexes)
    (holds : ∀ id, keyHeld store' id = none ∨ keyHeld store' id = keyHeld store id ∨
      ∃ data, (id, data) ∈ claims ∧ keyHeld store' id = field? data keyField) :
    Guarded store' := by
  -- a key that is claimed for a record is with no other record before
  have apart {id other : Nat} {data : Option (Data N)} {value : Value N}
      (claim : (id, data) ∈ claims) (given : field? data keyField = some value)
      (old : keyHeld store other = some value) : id = other := by
    by_contra differs
    obtain ⟨held, found, has⟩ := Option.bind_eq_some_iff.mp old
    exact claimed.accepts claim keyField (claimed.text claim given).2 _ (indexKey_of_field given)
      other held (Ne.symm differs) found (indexKey_of_field has)
  constructor
  · intro id value held
    rcases holds id with gone | same | ⟨data, claim, given⟩
    · rw [gone] at held
      cases held
    · exact guarded.text (same ▸ held)
    · exact (claimed.text claim (given ▸ held)).1
  · intro id value held
    rw [indexes]
    rcases holds id with gone | same | ⟨data, claim, given⟩
    · rw [gone] at held
      cases held
    · exact guarded.indexed (same ▸ held)
    · exact (claimed.text claim (given ▸ held)).2
  · intro id other value mine theirs
    rcases holds id with gone | same | ⟨data, claim, given⟩
    · rw [gone] at mine
      cases mine
    · rcases holds other with gone | same' | ⟨data, claim, given⟩
      · rw [gone] at theirs
        cases theirs
      · exact guarded.exclusive (same ▸ mine) (same' ▸ theirs)
      · exact (apart claim (given ▸ theirs) (same ▸ mine)).symm
    · rcases holds other with gone | same | ⟨data', claim', given'⟩
      · rw [gone] at theirs
        cases theirs
      · exact apart claim (given ▸ mine) (same ▸ theirs)
      · exact claimed.distinct claim claim' (given ▸ mine) (given' ▸ theirs)
  · rw [indexes]
    exact guarded.unshared

theorem Guarded.put {store : Store N} (guarded : Guarded store) {id : Nat}
    (accepts : store.Accepts id held.data)
    (text : ∀ value, field? held.data keyField = some value →
      (∃ key, value = .str key) ∧ (keyField, true) ∈ store.indexes) :
    Guarded (store.put id held) := by
  have claimed : Claims store [(id, held.data)] := by
    constructor
    · intro other data value member given
      obtain ⟨rfl, rfl⟩ := Prod.mk.inj (List.mem_singleton.mp member)
      exact text value given
    · intro other data member
      obtain ⟨rfl, rfl⟩ := Prod.mk.inj (List.mem_singleton.mp member)
      exact accepts
    · intro other data another data' value member member' _ _
      exact (Prod.mk.inj (List.mem_singleton.mp member)).1.trans
        (Prod.mk.inj (List.mem_singleton.mp member')).1.symm
  refine guarded.rewrite claimed rfl fun other => ?_
  rw [keyHeld_put]
  split_ifs with here
  · subst here
    exact .inr (.inr ⟨held.data, List.mem_singleton_self _, rfl⟩)
  · exact .inr (.inl rfl)

/-! ## Batches -/

omit [JsonNumber N] in
theorem data_of_mem_insertOps {records : List (Option (Data N))} {op : TxOp N}
    (member : op ∈ insertOps ts ids records) : op.data ∈ records := by
  obtain ⟨position, found⟩ := List.mem_iff_getElem?.mp member
  obtain ⟨id, data, -, there, rfl⟩ := List.getElem?_zipWith_eq_some.mp found
  exact List.mem_of_getElem? there

omit [JsonNumber N] in
/-- A record after some writes of a batch is as it was, or gone, or as one of
the writes left it. -/
theorem stock_applyAll_cases (deadline : Int) (stock : Stock N) (ops : List (TxOp N))
    (id : Nat) :
    stock.applyAll deadline ops id = stock id ∨ stock.applyAll deadline ops id = none ∨
      ∃ op ∈ ops, op.kind ≠ .delete ∧ op.id = id ∧
        ∃ held, stock.applyAll deadline ops id = some held ∧ held.data = op.data := by
  induction ops using List.reverseRecOn with
  | nil => exact .inl rfl
  | append_singleton ops op ih =>
    have last : stock.applyAll deadline (ops ++ [op]) =
        Stock.apply deadline (stock.applyAll deadline ops) op := by
      rw [Stock.applyAll, List.foldl_append]
      rfl
    rw [last]
    by_cases here : id = op.id
    · subst here
      right
      rw [Stock.apply]
      cases kind : op.kind with
      | delete => exact .inl (Function.update_self _ _ _)
      | insert =>
        exact .inr ⟨op, List.mem_append_right _ (List.mem_singleton_self _),
          by rw [kind]; decide, rfl, _, Function.update_self _ _ _, rfl⟩
      | update =>
        exact .inr ⟨op, List.mem_append_right _ (List.mem_singleton_self _),
          by rw [kind]; decide, rfl, _, Function.update_self _ _ _, rfl⟩
    · rw [Stock.apply_of_ne deadline _ op here]
      rcases ih with same | gone | ⟨write, member, rest⟩
      · exact .inl same
      · exact .inr (.inl gone)
      · exact .inr (.inr ⟨write, List.mem_append_left _ member, rest⟩)

/-- The writes of a batch leave every key where it is: a record with a key is
given the same one, and what is new are texts under a guarded field. -/
structure Settled (store : Store N) (ops : List (TxOp N)) : Prop where
  kept : ∀ op ∈ ops, op.kind ≠ .delete → ∀ value, keyHeld store op.id = some value →
    field? op.data keyField = some value
  text : ∀ op ∈ ops, op.kind ≠ .delete → ∀ value, field? op.data keyField = some value →
    (∃ key, value = .str key) ∧ (keyField, true) ∈ store.indexes

theorem Guarded.applyAll {store : Store N} (guarded : Guarded store) {ops : List (TxOp N)}
    (settled : Settled store ops) (admits : store.Admits ops) (deadline : Int)
    {applied : List (TxOp N)} (some? : applied ⊆ ops) :
    Guarded (store.applyAll deadline applied) ∧ Keeps store (store.applyAll deadline applied) := by
  have claimed : Claims store (claimsOf ops) := by
    constructor
    · intro id data value member given
      obtain ⟨op, listed, put, rfl, rfl⟩ := mem_claimsOf.mp member
      exact settled.text op listed put value given
    · intro id data member
      obtain ⟨op, listed, put, rfl, rfl⟩ := mem_claimsOf.mp member
      exact admits.accepts op listed put
    · intro id data other data' value member member' given given'
      obtain ⟨op, listed, put, rfl, rfl⟩ := mem_claimsOf.mp member
      obtain ⟨op', listed', put', rfl, rfl⟩ := mem_claimsOf.mp member'
      refine admits.distinct keyField (settled.text op listed put value given).2 op listed put
        op' listed' put' ?_ ?_
      · rw [indexKey_of_field given]
        rfl
      · rw [indexKey_of_field given, indexKey_of_field given']
  have cases (id : Nat) : (store.applyAll deadline applied).stock id = store.stock id ∨
      (store.applyAll deadline applied).stock id = none ∨
        ∃ op ∈ applied, op.kind ≠ .delete ∧ op.id = id ∧
          ∃ held, (store.applyAll deadline applied).stock id = some held ∧ held.data = op.data :=
    stock_applyAll_cases deadline store.stock applied id
  constructor
  · refine guarded.rewrite claimed rfl fun id => ?_
    rcases cases id with same | gone | ⟨op, member, put, rfl, held, found, data⟩
    · right
      left
      rw [keyHeld, same]
      rfl
    · left
      rw [keyHeld, gone]
      rfl
    · right
      right
      refine ⟨op.data, mem_claimsOf.mpr ⟨op, some? member, put, rfl, rfl⟩, ?_⟩
      rw [keyHeld, found, ← data]
      rfl
  · intro id value held
    rcases cases id with same | gone | ⟨op, member, put, rfl, after, found, data⟩
    · left
      rw [keyHeld, same]
      exact held
    · exact .inr gone
    · left
      rw [keyHeld, found]
      change field? after.data keyField = some value
      rw [data]
      exact settled.kept op (some? member) put value held

/-! ## Requests -/

/-- A request takes none of the ways around the keys, as the store stands. -/
def Respects (store : Store N) : Request N → Prop
  | .call (.update id _) | .call (.updateWithExpiry id _ _) => keyHeld store id = none
  | .call (.commitTx ops) => Settled store ops
  | .call (.ensureIndex field unique) =>
    field = keyField → unique = false → store.indexed keyField
  | _ => True

/-- The data of plain writes that have passed the check of the reserved field. -/
def Unreserved : Request N → Prop
  | .call (.insert data _) | .call (.update _ data) | .call (.updateWithExpiry _ data _) =>
    field? data keyField = none
  | .call (.insertMany records _) => ∀ data ∈ records, field? data keyField = none
  | _ => True

section Steps

variable {cfg : Config} {enc : Option (Encryptor N)} {env : Env} {store store' : Store N}

/-- A new record. -/
theorem Guarded.inserts {deadline : Int} {id : Nat} (guarded : Guarded store)
    (inserts : Inserts store data deadline id store')
    (text : ∀ value, field? data keyField = some value →
      (∃ key, value = .str key) ∧ (keyField, true) ∈ store.indexes) :
    Guarded store' ∧ Keeps store store' ∧ keyHeld store' id = field? data keyField := by
  obtain ⟨absent, accepts⟩ := inserts
  refine ⟨guarded.put accepts text, ?_, ?_⟩
  · intro other value held
    have differs : other ≠ id := by
      rintro rfl
      rw [keyHeld, absent] at held
      cases held
    rw [keyHeld_put, if_neg differs]
    exact .inl held
  · rw [keyHeld_put, if_pos rfl]

variable {deadline : Int → Int} {key keyedBy : String} {call : Call N} {number : Nat}

theorem Guarded.replaces {id rev : Nat} (guarded : Guarded store)
    (replaces : Replaces store id data deadline rev store')
    (text : ∀ value, field? data keyField = some value →
      (∃ key, value = .str key) ∧ (keyField, true) ∈ store.indexes)
    (kept : ∀ value, keyHeld store id = some value → field? data keyField = some value) :
    Guarded store' ∧ Keeps store store' ∧ keyHeld store' id = field? data keyField := by
  obtain ⟨found, accepts⟩ := replaces
  refine ⟨guarded.put accepts text, ?_, ?_⟩
  · intro other value held
    left
    rw [keyHeld_put]
    split_ifs with here
    · subst here
      exact kept value held
    · exact held
  · rw [keyHeld_put, if_pos rfl]

theorem Guarded.removes (guarded : Guarded store) (indexes : store'.indexes = store.indexes)
    (stock : ∀ id, store'.stock id = store.stock id ∨ store'.stock id = none) :
    Guarded store' ∧ Keeps store store' := by
  have claimed : Claims store [] :=
    ⟨nofun, nofun, nofun⟩
  constructor
  · refine guarded.rewrite claimed indexes fun id => ?_
    rcases stock id with same | gone
    · exact .inr (.inl (by rw [keyHeld, keyHeld, same]))
    · exact .inl (by rw [keyHeld, gone]; rfl)
  · intro id value held
    rcases stock id with same | gone
    · left
      rw [keyHeld, same]
      exact held
    · exact .inr gone

theorem Guarded.drop (guarded : Guarded store) (id : Nat) :
    Guarded (store.drop id) ∧ Keeps store (store.drop id) := by
  refine guarded.removes rfl fun other => ?_
  by_cases here : other = id
  · subst here
    exact .inr (Function.update_self _ _ _)
  · exact .inl (Function.update_of_ne here _ _)

section

omit [JsonNumber N]

theorem keeps_ensure (store : Store N) (field : String) (unique : Bool) :
    Keeps store (store.ensure field unique) :=
  fun id _ held => .inl ((keyHeld_ensure store field unique id).trans held)

theorem Keeps.after_ensure (kept : Keeps (store.ensure field unique) store') : Keeps store store' :=
  fun id value held => kept id value ((keyHeld_ensure store field unique id).trans held)

theorem field_stampKey (data : Option (Data N)) (key : String) :
    field? (some (stampKey data key)) keyField = some (.str key) := by
  rw [field?, Option.bind_some, stampKey, Data.get_set, if_pos rfl]

end

theorem Guarded.held_of_carries (guarded : Guarded store) {id : Nat}
    (carries : store.Carries key id held) : keyHeld store id = some (.str key) := by
  obtain ⟨found, carried⟩ := carries
  obtain ⟨value, has, same⟩ := Option.map_eq_some_iff.mp carried
  have mine : keyHeld store id = some value := by
    rw [keyHeld, found]
    exact has
  obtain ⟨text, rfl⟩ := guarded.text mine
  obtain rfl : text = key := same
  exact mine

theorem Guarded.inserts_stamped {deadline : Int} {id : Nat} (guarded : Guarded store)
    (inserts : Inserts (store.ensure keyField true) (some (stampKey data key)) deadline id store') :
    Guarded store' ∧ Keeps store store' ∧ keyHeld store' id = some (.str key) := by
  have ensured : Guarded (store.ensure keyField true) :=
    guarded.ensure nofun
  have text (value : Value N) (given : field? (some (stampKey data key)) keyField = some value) :
      (∃ key, value = .str key) ∧ (keyField, true) ∈ (store.ensure keyField true).indexes := by
    rw [field_stampKey] at given
    exact ⟨⟨key, (Option.some.inj given).symm⟩, guarded.ensured⟩
  obtain ⟨after, kept, has⟩ := ensured.inserts inserts text
  exact ⟨after, kept.after_ensure, has.trans (field_stampKey data key)⟩

theorem Guarded.replaces_stamped {id rev : Nat} (guarded : Guarded store)
    (carries : store.Carries key id held)
    (replaces : Replaces store id (some (stampKey data key)) deadline rev store') :
    Guarded store' ∧ Keeps store store' ∧ keyHeld store' id = some (.str key) := by
  have mine := guarded.held_of_carries carries
  have text (value : Value N) (given : field? (some (stampKey data key)) keyField = some value) :
      (∃ key, value = .str key) ∧ (keyField, true) ∈ store.indexes := by
    rw [field_stampKey] at given
    exact ⟨⟨key, (Option.some.inj given).symm⟩, guarded.indexed mine⟩
  obtain ⟨after, kept, has⟩ := guarded.replaces replaces text fun value old => by
    rw [mine] at old
    rw [field_stampKey]
    exact old
  exact ⟨after, kept, has.trans (field_stampKey data key)⟩

theorem Guarded.upserts {id rev : Nat} (guarded : Guarded store)
    (carries : store.Carries key id held)
    (replaces : Replaces (store.ensure keyField true) id (some (stampKey data key)) deadline rev
      store') : Guarded store' ∧ Keeps store store' ∧ keyHeld store' id = some (.str key) := by
  have ensured : Guarded (store.ensure keyField true) :=
    guarded.ensure nofun
  have also : (store.ensure keyField true).Carries key id held :=
    ⟨by rw [stock_ensure]; exact carries.1, carries.2⟩
  obtain ⟨after, kept, has⟩ := ensured.replaces_stamped also replaces
  exact ⟨after, kept.after_ensure, has⟩

omit [JsonNumber N] in
/-- New records whose keys, if any, are texts under a guarded field. -/
theorem settled_insertOps {records : List (Option (Data N))}
    (absent : ∀ id ∈ ids, store.stock id = none)
    (text : ∀ data ∈ records, ∀ value, field? data keyField = some value →
      (∃ key, value = .str key) ∧ (keyField, true) ∈ store.indexes) :
    Settled store (insertOps ts ids records) := by
  constructor
  · intro op member _ value held
    rw [keyHeld, absent _ (id_of_mem_insertOps member)] at held
    cases held
  · intro op member _
    exact text _ (data_of_mem_insertOps member)

theorem Guarded.performs {reply : Except Error Reply} (guarded : Guarded store)
    (performs : Performs cfg enc env store call reply store')
    (respects : Respects store (.call call))
    (checked : Unreserved (.call call) ∨ reply = .error .reservedField) :
    Guarded store' ∧ Keeps store store' := by
  have untouched : Guarded store ∧ Keeps store store := ⟨guarded, .refl store⟩
  have without {data : Option (Data N)} (free : field? data keyField = none) (value : Value N)
      (given : field? data keyField = some value) :
      (∃ key, value = .str key) ∧ (keyField, true) ∈ store.indexes := by
    rw [free] at given
    cases given
  cases performs with
  | insert inserts =>
    have free := checked.resolve_right nofun
    obtain ⟨after, kept, -⟩ := guarded.inserts inserts (without free)
    exact ⟨after, kept⟩
  | insertMany each distinct absent admits =>
    have free := checked.resolve_right nofun
    exact guarded.applyAll (settled_insertOps absent fun data member => without (free data member))
      admits _ (List.Subset.refl _)
  | insertManyCut stored each distinct absent admits =>
    have free := checked.resolve_right nofun
    exact guarded.applyAll (settled_insertOps absent fun data member => without (free data member))
      admits _ (List.take_subset _ _)
  | update replaces | updateWithExpiry replaces =>
    have free := checked.resolve_right nofun
    obtain ⟨after, kept, -⟩ := guarded.replaces replaces (without free) fun value held => by
      rw [show keyHeld store _ = none from respects] at held
      cases held
    exact ⟨after, kept⟩
  | delete found => exact guarded.drop _
  | insertWithKey inserts | upsertNew unused inserts =>
    obtain ⟨after, kept, -⟩ := guarded.inserts_stamped inserts
    exact ⟨after, kept⟩
  | upsertOld carries replaces =>
    obtain ⟨after, kept, -⟩ := guarded.upserts carries replaces
    exact ⟨after, kept⟩
  | updateIfRev carries expected replaces | updateIfMatch carries expected replaces =>
    obtain ⟨after, kept, -⟩ := guarded.replaces_stamped carries replaces
    exact ⟨after, kept⟩
  | commitTx targets admits => exact guarded.applyAll respects admits _ (List.Subset.refl _)
  | commitTxCut stored targets admits =>
    exact guarded.applyAll respects admits _ (List.take_subset _ _)
  | ensureIndex | ensureIndexUnwritten unnamed =>
    exact ⟨guarded.ensure respects, keeps_ensure store _ _⟩
  | refusedKeyed refusal keyed =>
    exact ⟨guarded.ensure nofun, keeps_ensure store _ _⟩
  | updateMissing | updateWithExpiryMissing | deleteMissing | updateIfRevKeeps
  | updateIfMatchKeeps | commitTxMissing | rotateSegment | refused => exact untouched

/-- The records of a load have a text as their key, or none. -/
theorem prepareRecord_text {line : List Char}
    (prepared : prepareRecord keyedBy line number = .ok data)
    (given : field? data keyField = some value) : keyedBy ≠ "" ∧ ∃ key, value = .str key := by
  unfold prepareRecord at prepared
  split at prepared
  · cases prepared
  by_cases unkeyed : keyedBy = ""
  · rw [if_pos unkeyed] at prepared
    split_ifs at prepared with reserved
    cases prepared
    rw [given] at reserved
    exact absurd rfl reserved
  · rw [if_neg unkeyed] at prepared
    refine ⟨unkeyed, ?_⟩
    split at prepared
    · split_ifs at prepared
      cases prepared
      rw [field_stampKey] at given
      exact ⟨_, (Option.some.inj given).symm⟩
    · cases prepared
    · cases prepared

theorem prepareRecords_text {lines : List (List Char)} {records : List (Option (Data N))}
    (prepared : prepareRecords keyedBy lines number = .ok records) (member : data ∈ records)
    (given : field? data keyField = some value) : keyedBy ≠ "" ∧ ∃ key, value = .str key := by
  induction lines generalizing number records with
  | nil =>
    cases prepared
    cases member
  | cons line lines ih =>
    rw [prepareRecords] at prepared
    split_ifs at prepared
    · exact ih prepared member
    rcases first : prepareRecord (N := N) keyedBy (trimSpace line) number with e | head
    · rw [first] at prepared
      cases prepared
    rw [first] at prepared
    rcases later : prepareRecords (N := N) keyedBy lines (number + 1) with e | rest
    · simp only [later] at prepared
      cases prepared
    · simp only [later] at prepared
      cases prepared
      rcases List.mem_cons.mp member with rfl | member
      · exact prepareRecord_text first given
      · exact ih later member

theorem Guarded.serves {request : Request N} {reply : Except Error Reply}
    (guarded : Guarded store) (serves : Serves cfg enc env store request reply store')
    (respects : Respects store request)
    (checked : Unreserved request ∨ reply = .error .reservedField) :
    Guarded store' ∧ Keeps store store' := by
  have ready (keyedBy : String) : Guarded (prepared store keyedBy) := by
    unfold prepared
    split_ifs
    · exact guarded
    · exact guarded.ensure nofun
  have same (keyedBy : String) (id : Nat) :
      keyHeld (prepared store keyedBy) id = keyHeld store id := by
    rw [keyHeld, keyHeld, stock_prepared]
  cases serves with
  | call performs => exact guarded.performs performs respects checked
  | updateByKey carries replaces =>
    obtain ⟨after, kept, -⟩ := guarded.replaces_stamped carries replaces
    exact ⟨after, kept⟩
  | deleteByKey carries => exact guarded.drop _
  | @load _ _ keyedBy records ids _ parsed each distinct absent performs =>
    have settled : Settled (prepared store keyedBy) (insertOps env.ts ids records) := by
      refine settled_insertOps (fun id member => ?_) fun data member value given => ?_
      · rw [stock_prepared]
        exact absent id member
      · obtain ⟨keyed, text⟩ := prepareRecords_text parsed member given
        refine ⟨text, ?_⟩
        rw [prepared, if_neg keyed]
        exact guarded.ensured
    obtain ⟨after, kept⟩ := (ready keyedBy).performs performs settled (.inl trivial)
    exact ⟨after, fun id value held => kept id value ((same keyedBy id).trans held)⟩
  | loadMalformed malformed =>
    exact ⟨ready _, fun id value held => .inl ((same _ id).trans held)⟩
  | reap reaps =>
    refine guarded.removes reaps.indexes fun id => ?_
    rcases reaps.stock id with same | ⟨gone, -⟩
    · exact .inl same
    · exact .inr gone
  | updateByKeyMissing | deleteByKeyMissing | refused => exact ⟨guarded, .refl store⟩

theorem Guarded.gives {reply : Except Error Reply} (guarded : Guarded store)
    (performs : Performs cfg enc env store call reply store') :
    (∀ id, call = .insertWithKey key data → reply = .ok (.id id) →
      keyHeld store' id = some (.str key)) ∧
    ∀ id rev, call = .upsert key data → reply = .ok (.record id rev) →
      keyHeld store' id = some (.str key) := by
  constructor
  · rintro id rfl rfl
    cases performs with
    | insertWithKey inserts => exact (guarded.inserts_stamped inserts).2.2
  · rintro id rev rfl rfl
    cases performs with
    | upsertNew unused inserts => exact (guarded.inserts_stamped inserts).2.2
    | upsertOld carries replaces => exact (guarded.upserts carries replaces).2.2

end Steps

/-! ## Keys in a collection -/

/-- What a record has under the reserved field. -/
def keyValue (w : World N) (id : Nat) : Option (Value N) :=
  (storedLine w id).bind fun e =>
    (materialize w.col.enc e.data).toOption.bind fun data => field? data keyField

def getByKey (env : Env) (w : World N) (key : String) : Except Error (Record N) :=
  match resolveKey env w.col key with
  | .error e => .error e
  | .ok id => get w env.now id

/-- A request takes none of the ways around the keys. -/
def KeepsKeys (w : World N) : Request N → Prop
  | .call (.update id _) | .call (.updateWithExpiry id _ _) => keyValue w id = none
  | .call (.commitTx ops) => ∀ op ∈ ops, op.kind ≠ .delete →
      (∀ value, keyValue w op.id = some value → field? op.data keyField = some value) ∧
        ∀ value, field? op.data keyField = some value →
          (∃ key, value = .str key) ∧ keyField ∈ w.col.sidx.map Sidx.field
  | .call (.ensureIndex field unique) =>
    field = keyField → unique = false → keyField ∈ w.col.sidx.map Sidx.field
  | _ => True

/-- A key is with one record, and a read by key returns that record until its
time has passed. -/
structure KeysRead (w : World N) : Prop where
  exclusive : ∀ id other key, keyValue w id = some (.str key) →
    keyValue w other = some (.str key) → id = other
  found : ∀ id key, keyValue w id = some (.str key) → ∀ (env : Env) loc,
    w.col.index.lookup id = some loc → expired loc.expiresAt env.now = false →
      ∃ record, getByKey env w key = .ok record ∧ record.id = id ∧ record.key = key

section Collections

variable {w : World N} {s : Segments N} {store : Store N}

theorem keyValue_eq (amid : Amid w s store) (id : Nat) : keyValue w id = keyHeld store id := by
  rw [keyValue, keyHeld, storedLine_of_coherent amid.coherent,
    ← amid.coherent.record_eq]
  rcases there : store.stock id with - | held
  · rw [amid.describes.stocked.absent_iff.mpr there]
    rfl
  · obtain ⟨e, alive, shows⟩ := amid.describes.stocked.of_stock there
    rw [alive, Option.bind_some, shows.stored.opens]
    rfl

theorem keysRead (amid : Amid w s store) (guarded : Guarded store) : KeysRead w := by
  constructor
  · intro id other key mine theirs
    rw [keyValue_eq amid] at mine theirs
    exact guarded.exclusive mine theirs
  · intro id key mine env loc known alive
    rw [keyValue_eq amid] at mine
    obtain ⟨held, there, has⟩ := Option.bind_eq_some_iff.mp mine
    rcases resolveKey_cases amid env key with
      ⟨other, -, theirs, resolved, -, carries⟩ | ⟨-, unindexed | unused⟩
    · obtain rfl : other = id := guarded.exclusive (guarded.held_of_carries carries) mine
      obtain ⟨e, recorded, -, expiry, -⟩ := amid.coherent.record_of_index known
      obtain ⟨e', alive', shows⟩ := amid.describes.stocked.of_stock there
      obtain rfl : e = e' := Option.some.inj (recorded.symm.trans alive')
      refine ⟨⟨other, key, e.rev, e.ts, held.data⟩, ?_, rfl, rfl⟩
      have read : get w env.now other = .ok ⟨other, keyOf held.data, e.rev, e.ts, held.data⟩ := by
        rw [amid.coherent.get_eq, recorded]
        simp only [← expiry, alive, shows.stored.opens]
        rfl
      rw [getByKey, resolved]
      simp only [read, keyOf, has]
    · exact absurd (List.mem_map_of_mem (guarded.indexed mine)) unindexed
    · exact absurd ⟨there, indexKey_of_field has⟩ (unused id held)

theorem respects_of_keepsKeys (amid : Amid w s store) (guarded : Guarded store)
    {request : Request N} (keeps : KeepsKeys w request) : Respects store request := by
  have fields := fields_of_store amid.describes
  have unique (known : keyField ∈ w.col.sidx.map Sidx.field) : (keyField, true) ∈ store.indexes := by
    rw [← fields] at known
    obtain ⟨⟨field, unique⟩, member, rfl⟩ := List.mem_map.mp known
    cases unique with
    | true => exact member
    | false => exact absurd member guarded.unshared
  cases request with
  | call made =>
    cases made with
    | update id data | updateWithExpiry id data expiresAt =>
      exact (keyValue_eq amid id).symm.trans keeps
    | commitTx ops =>
      constructor
      · intro op member put value held
        exact (keeps op member put).1 value ((keyValue_eq amid op.id).trans held)
      · intro op member put value given
        obtain ⟨text, known⟩ := (keeps op member put).2 value given
        exact ⟨text, unique known⟩
    | ensureIndex field flag =>
      intro here plain
      rw [Store.indexed, fields]
      exact keeps here plain
    | insert | insertMany | delete | insertWithKey | upsert | updateIfRev | updateIfMatch
    | rotateSegment => trivial
  | updateByKey | deleteByKey | loadJSONL | reapExpired => trivial

omit [JsonNumber N] in
theorem free_of_check (passed : checkReserved data = .ok ()) : field? data keyField = none := by
  rw [checkReserved] at passed
  split_ifs at passed with reserved
  exact Option.not_isSome_iff_eq_none.mp reserved

omit [JsonNumber N] in
theorem free_of_checks {records : List (Option (Data N))}
    (passed : records.forM checkReserved = .ok ()) :
    ∀ data ∈ records, field? data keyField = none := by
  induction records with
  | nil => exact nofun
  | cons data records ih =>
    rw [List.forM] at passed
    obtain ⟨⟨⟩, first, passed⟩ := ok_of_bind passed
    exact List.forall_mem_cons.mpr ⟨free_of_check first, ih passed⟩

/-- The reserved field is refused before anything else. -/
theorem reply_of_reserved (env : Env) (w : World N) {request : Request N}
    (reserved : ¬ Unreserved request) :
    ((request.proc env).run w).1 = .error .reservedField := by
  have refused {data : Option (Data N)} (has : ¬ field? data keyField = none) :
      checkReserved data = .error .reservedField :=
    (checkReserved_cases data).resolve_left fun passed => has (free_of_check passed)
  cases request with
  | call made =>
    cases made with
    | insert data expiresAt =>
      have call : Writes (insertWithExpiry env data expiresAt) w (.error .reservedField) [] :=
        writes_check_error (refused reserved)
      exact call.bind_error.1
    | update id data =>
      have call : Writes (Collection.update env id data) w (.error .reservedField) [] :=
        writes_check_error (refused reserved)
      exact call.bind_error.1
    | updateWithExpiry id data expiresAt =>
      have call : Writes (Collection.updateWithExpiry env id data expiresAt) w
          (.error .reservedField) [] := writes_check_error (refused reserved)
      exact call.bind_error.1
    | insertMany records expiresAt =>
      have some? : records ≠ [] := by
        rintro rfl
        exact reserved nofun
      have refused : records.forM checkReserved = .error .reservedField :=
        (forM_checkReserved_cases records).resolve_left fun passed =>
          reserved (free_of_checks passed)
      have call : Writes (Collection.insertMany env records expiresAt) w
          (.error .reservedField) [] := by
        rw [Collection.insertMany, if_neg some?]
        exact writes_check_error refused
      exact call.bind_error.1
    | delete | insertWithKey | upsert | updateIfRev | updateIfMatch | commitTx | ensureIndex
    | rotateSegment => exact absurd trivial reserved
  | updateByKey | deleteByKey | loadJSONL | reapExpired => exact absurd trivial reserved

end Collections

/-! ## Runs -/

/-- One move of a run: a request, or an id reserved for a staged insert. -/
inductive Move (N : Type) where
  | request (env : Env) (request : Request N)
  | reserve

def Move.proc : Move N → Proc N Reply
  | .request env asked => asked.proc env
  | .reserve => do
    let id ← reserveID
    return .id id

def Move.next (move : Move N) (w : World N) : World N :=
  (move.proc.run w).2

def Move.reply (move : Move N) (w : World N) : Except Error Reply :=
  (move.proc.run w).1

/-- The requests of a run are fit where they are made, and take none of the
ways around the keys. -/
def KeyRun : World N → List (Move N) → Prop
  | _, [] => True
  | w, move :: rest =>
    (∀ env request, move = .request env request → Fit w request ∧ KeepsKeys w request) ∧
      KeyRun (move.next w) rest

/-- A record that a keyed write was acknowledged for has the key. -/
def Gives (w : World N) (move : Move N) : Prop :=
  ∀ env key data,
    (∀ id, move = .request env (.call (.insertWithKey key data)) → move.reply w = .ok (.id id) →
      keyValue (move.next w) id = some (.str key)) ∧
    ∀ id rev, move = .request env (.call (.upsert key data)) →
      move.reply w = .ok (.record id rev) → keyValue (move.next w) id = some (.str key)

/-- In every state of a run each key is with one record and reads by key return
it; a record keeps its key to its end. -/
def KeysStay : World N → List (Move N) → Prop
  | w, [] => KeysRead w
  | w, move :: rest =>
    KeysRead w ∧ Gives w move ∧
      (∀ id key, keyValue w id = some (.str key) →
        keyValue (move.next w) id = some (.str key) ∨
          (move.next w).col.index.lookup id = none) ∧
      KeysStay (move.next w) rest

/-- One move. -/
theorem Guarded.move {w : World N} {s : Segments N} {store : Store N} (amid : Amid w s store)
    (guarded : Guarded store) {move : Move N}
    (fit : ∀ env request, move = .request env request → Fit w request ∧ KeepsKeys w request) :
    ∃ s' store', Amid (move.next w) s' store' ∧ Guarded store' ∧ Keeps store store' ∧
      Gives w move := by
  cases move with
  | reserve =>
    refine ⟨s, store, Amid.reserve amid, guarded, .refl store, ?_⟩
    exact fun _ _ _ => ⟨nofun, nofun⟩
  | request env request =>
    obtain ⟨fit, keeps⟩ := fit env request rfl
    obtain ⟨s', store', after, serves, -⟩ := request_served amid env fit
    have checked : Unreserved request ∨
        ((request.proc env).run w).1 = .error .reservedField :=
      or_iff_not_imp_left.mpr (reply_of_reserved env w)
    obtain ⟨guarded', kept⟩ :=
      guarded.serves serves (respects_of_keepsKeys amid guarded keeps) checked
    refine ⟨s', store', after, guarded', kept, ?_⟩
    have performed {call : Call N} (asked : request = .call call) {reply : Reply}
        (ended : ((request.proc env).run w).1 = .ok reply) :
        Performs w.col.cfg w.col.enc env store call (.ok reply) store' := by
      subst asked
      rw [ended] at serves
      cases serves with
      | call performs => exact performs
    intro _ key data
    constructor
    · rintro id ⟨⟩ ended
      exact (keyValue_eq after id).trans ((guarded.gives (performed rfl ended)).1 id rfl rfl)
    · rintro id rev ⟨⟩ ended
      exact (keyValue_eq after id).trans
        ((guarded.gives (performed rfl ended)).2 id rev rfl rfl)

theorem keysStay_of_guarded {w : World N} {s : Segments N} {store : Store N}
    (amid : Amid w s store) (guarded : Guarded store) {moves : List (Move N)}
    (run : KeyRun w moves) : KeysStay w moves := by
  induction moves generalizing w s store with
  | nil => exact keysRead amid guarded
  | cons move moves ih =>
    obtain ⟨fit, rest⟩ := run
    obtain ⟨s', store', after, guarded', kept, gives⟩ := guarded.move amid fit
    refine ⟨keysRead amid guarded, gives, ?_, ih after guarded' rest⟩
    intro id key held
    rw [keyValue_eq amid] at held
    rcases kept id _ held with still | gone
    · exact .inl ((keyValue_eq after id).trans still)
    · exact .inr (after.coherent.lookup_index_eq_none.mpr
        (after.describes.stocked.absent_iff.mpr gone))

/-- In every run of a new collection whose requests take none of the ways
around the keys, string keys are fixed and exclusive. -/
theorem keys_fixed_exclusive (cfg : Config) (enc : Option (Encryptor N)) (order : RenameOrder)
    (lawful : ∀ policy ∈ enc, Lawful policy) (moves : List (Move N))
    (run : KeyRun (fresh cfg enc order) moves) : KeysStay (fresh cfg enc order) moves := by
  have guarded : Guarded (Store.empty : Store N) := by
    constructor
    · exact nofun
    · exact nofun
    · exact nofun
    · exact nofun
  exact keysStay_of_guarded (amid_fresh cfg order lawful).1 guarded run

theorem keys_fixed_exclusive_small :
    KeysStay (fresh smallConfig none .asWritten)
      [.request stillEnv (.call (.insertWithKey "k" (some (oneField "n" 5)))), .reserve,
        .request stillEnv (.updateByKey "k" (some (oneField "n" 6))),
        .request stillEnv (.deleteByKey "k"),
        .request stillEnv (.call (.upsert "k" none))] := by
  refine keys_fixed_exclusive smallConfig none .asWritten nofun _
    ⟨?_, ?_, ?_, ?_, ?_, trivial⟩
  case refine_2 => rintro env request ⟨⟩
  all_goals
    rintro env request ⟨⟩
    exact ⟨trivial, trivial⟩

/-- A plain update takes the key from its record: the record is still there,
and no read by key finds it. -/
theorem update_drops_key :
    ∃ w : World Int,
      w = (Move.request stillEnv (.call (.update 1 (some (oneField "n" 6))))).next
        ((Move.request stillEnv (.call (.insertWithKey "k" (some (oneField "n" 5))))).next
          (fresh smallConfig none .asWritten)) ∧
      (get w 0 1).toOption.isSome = true ∧
      (getByKey stillEnv w "k").toOption.isNone = true := by
  refine ⟨_, rfl, ?_, ?_⟩
  · decide +kernel
  · decide +kernel

end Scriva.Engine.Keys
