import Scriva.Engine.Collection

/-!
# What a collection is for

A collection without its files: records by id, each with its data, revision
and deadline, and the fields that are indexed.  `Performs` says how a call
that ends with a given reply changes such a store.  The id of a new record and
which of several records under a key is meant are up to the reply; everything
else is determined.

A unique index constrains the accepted writes: no other record may hold the
key that a write gives its record, and no two records of a batch may be given
the same key.
-/

namespace Scriva.Engine.Machine

open Store.Record Segment SecondaryIndex Directory Engine.Collection

variable {N : Type}

/-! ## Stores -/

/-- A record as its owner sees it. -/
structure Held (N : Type) where
  data : Option (Data N)
  rev : Nat
  /-- Nanoseconds since the epoch, zero for never. -/
  deadline : Int

abbrev Stock (N : Type) := Nat → Option (Held N)

structure Store (N : Type) where
  stock : Stock N
  /-- The indexed fields, with whether the index is unique. -/
  indexes : List (String × Bool)

def Stock.put (stock : Stock N) (id : Nat) (held : Held N) : Stock N :=
  Function.update stock id (some held)

def Stock.drop (stock : Stock N) (id : Nat) : Stock N :=
  Function.update stock id none

/-- One write of a batch; `deadline` is that of new records. -/
def Stock.apply (deadline : Int) (stock : Stock N) (op : TxOp N) : Stock N :=
  match op.kind with
  | .insert => stock.put op.id ⟨op.data, 1, deadline⟩
  | .update => stock.put op.id
      ⟨op.data, ((stock op.id).map Held.rev).getD 0 + 1,
        ((stock op.id).map Held.deadline).getD 0⟩
  | .delete => stock.drop op.id

def Stock.applyAll (deadline : Int) (stock : Stock N) (ops : List (TxOp N)) : Stock N :=
  ops.foldl (Stock.apply deadline) stock

/-- The store with a record replaced. -/
def Store.put (store : Store N) (id : Nat) (held : Held N) : Store N :=
  { store with stock := store.stock.put id held }

def Store.drop (store : Store N) (id : Nat) : Store N :=
  { store with stock := store.stock.drop id }

def Store.applyAll (store : Store N) (deadline : Int) (ops : List (TxOp N)) : Store N :=
  { store with stock := store.stock.applyAll deadline ops }

/-- New records of a batch. -/
def insertOps (ts : Utc) (ids : List Nat) (records : List (Option (Data N))) :
    List (TxOp N) :=
  List.zipWith (fun id data => ⟨.insert, id, data, ts⟩) ids records

def Store.indexed (store : Store N) (field : String) : Prop :=
  field ∈ store.indexes.map Prod.fst

/-- Index a field unless it is indexed already. -/
def Store.ensure (store : Store N) (field : String) (unique : Bool) : Store N :=
  if field ∈ store.indexes.map Prod.fst then store
  else { store with indexes := store.indexes ++ [(field, unique)] }

variable [JsonNumber N]

/-- No other record holds a key on this field that the data would be given. -/
def Stock.Unclaimed (stock : Stock N) (field : String) (id : Nat)
    (data : Option (Data N)) : Prop :=
  ∀ key, indexKey field data = some key →
    ∀ other held, other ≠ id → stock other = some held → indexKey field held.data ≠ some key

/-- The unique indexes of a store accept a write. -/
def Store.Accepts (store : Store N) (id : Nat) (data : Option (Data N)) : Prop :=
  ∀ field, (field, true) ∈ store.indexes → store.stock.Unclaimed field id data

/-- The unique indexes of a store accept a batch: each of its writes, and no
key is given to two records. -/
structure Store.Admits (store : Store N) (ops : List (TxOp N)) : Prop where
  accepts : ∀ op ∈ ops, op.kind ≠ .delete → store.Accepts op.id op.data
  distinct : ∀ field, (field, true) ∈ store.indexes →
    ∀ op ∈ ops, op.kind ≠ .delete → ∀ other ∈ ops, other.kind ≠ .delete →
      (indexKey field op.data).isSome →
        indexKey field op.data = indexKey field other.data → op.id = other.id

/-! ## Calls -/

inductive Call (N : Type) where
  | insert (data : Option (Data N)) (expiresAt : Option Int)
  | insertMany (records : List (Option (Data N))) (expiresAt : Option Int)
  | update (id : Nat) (data : Option (Data N))
  | updateWithExpiry (id : Nat) (data : Option (Data N)) (expiresAt : Option Int)
  | delete (id : Nat)
  | insertWithKey (key : String) (data : Option (Data N))
  | upsert (key : String) (data : Option (Data N))
  | updateIfRev (key : String) (expectedRev : Nat) (data : Option (Data N))
  | updateIfMatch (key : String) (pred : Option (Data N) → Bool) (data : Option (Data N))
  | commitTx (ops : List (TxOp N))
  | rotateSegment
  | ensureIndex (field : String) (unique : Bool)

inductive Reply where
  | done
  | id (id : Nat)
  | ids (ids : List Nat)
  | record (id rev : Nat)
  | swapped (swapped : Bool)
  | loaded (count : Nat)
deriving DecidableEq, Repr

def Call.proc (env : Env) : Call N → Proc N Reply
  | .insert data expiresAt => do
    let id ← insertWithExpiry env data expiresAt
    return .id id
  | .insertMany records expiresAt => do
    let ids ← Collection.insertMany env records expiresAt
    return .ids ids
  | .update id data => do
    Collection.update env id data
    return .done
  | .updateWithExpiry id data expiresAt => do
    Collection.updateWithExpiry env id data expiresAt
    return .done
  | .delete id => do
    Collection.delete env id
    return .done
  | .insertWithKey key data => do
    let id ← Collection.insertWithKey env key data
    return .id id
  | .upsert key data => do
    let record ← Collection.upsert env key data
    return .record record.id record.rev
  | .updateIfRev key expectedRev data => do
    let swapped ← Collection.updateIfRev env key expectedRev data
    return .swapped swapped
  | .updateIfMatch key pred data => do
    let swapped ← Collection.updateIfMatch env key pred data
    return .swapped swapped
  | .commitTx ops => do
    Collection.commitTx env ops
    return .done
  | .rotateSegment => do
    Collection.rotateSegment
    return .done
  | .ensureIndex field unique => do
    Collection.ensureIndex field unique
    return .done

/-! ## What calls do -/

/-- Errors with which a call may be refused as a whole. -/
inductive Refusal (enc : Option (Encryptor N)) : Error → Prop where
  | reserved : Refusal enc .reservedField
  | duplicate (field key : String) : Refusal enc (.duplicateKey field key)
  | exhausted : Refusal enc .resourceExhausted
  | append (reason : AppendError) : Refusal enc (.append reason)
  | encrypt {policy : Encryptor N} {seed : Nat} {data : Option (Data N)} {e : Error}
      (active : enc = some policy) (failed : policy.encrypt seed data = .error e) :
      Refusal enc e
  | hidden {policy : Encryptor N} {field : String} (active : enc = some policy)
      (encrypted : policy.isEncryptedField field = true) :
      Refusal enc (.fieldEncrypted field)

/-- A record of the store that carries a key. -/
def Store.Carries (store : Store N) (key : String) (id : Nat) (held : Held N) : Prop :=
  store.stock id = some held ∧ indexKey keyField held.data = some key

section Performs

variable (cfg : Config) (enc : Option (Encryptor N)) (env : Env)

/-- A new record: under an unused id, at its first revision. -/
inductive Inserts (store : Store N) (data : Option (Data N)) (deadline : Int) :
    Nat → Store N → Prop where
  | mk {id : Nat} (absent : store.stock id = none) (accepts : store.Accepts id data) :
      Inserts store data deadline id (store.put id ⟨data, 1, deadline⟩)

/-- A replaced record: at the next revision. -/
inductive Replaces (store : Store N) (id : Nat) (data : Option (Data N))
    (deadline : Int → Int) : Nat → Store N → Prop where
  | mk {held : Held N} (found : store.stock id = some held)
      (accepts : store.Accepts id data) :
      Replaces store id data deadline (held.rev + 1)
        (store.put id ⟨data, held.rev + 1, deadline held.deadline⟩)

/-- How a call with a reply changes a store. -/
inductive Performs : Store N → Call N → Except Error Reply → Store N → Prop where
  | insert {store store' : Store N} {data : Option (Data N)} {expiresAt : Option Int}
      {id : Nat}
      (inserts : Inserts store data (resolveInsertExpiry cfg env.now expiresAt) id store') :
      Performs store (.insert data expiresAt) (.ok (.id id)) store'
  | insertMany {store : Store N} {records : List (Option (Data N))}
      {expiresAt : Option Int} {ids : List Nat} (each : ids.length = records.length)
      (distinct : ids.Nodup) (absent : ∀ id ∈ ids, store.stock id = none)
      (admits : store.Admits (insertOps env.ts ids records)) :
      Performs store (.insertMany records expiresAt) (.ok (.ids ids))
        (store.applyAll (resolveInsertExpiry cfg env.now expiresAt)
          (insertOps env.ts ids records))
  | insertManyCut {store : Store N} {records : List (Option (Data N))}
      {expiresAt : Option Int} {ids : List Nat} {reason : AppendError} (stored : Nat)
      (each : ids.length = records.length) (distinct : ids.Nodup)
      (absent : ∀ id ∈ ids, store.stock id = none)
      (admits : store.Admits (insertOps env.ts ids records)) :
      Performs store (.insertMany records expiresAt) (.error (.append reason))
        (store.applyAll (resolveInsertExpiry cfg env.now expiresAt)
          ((insertOps env.ts ids records).take stored))
  | update {store store' : Store N} {id rev : Nat} {data : Option (Data N)}
      (replaces : Replaces store id data (fun deadline => deadline) rev store') :
      Performs store (.update id data) (.ok .done) store'
  | updateMissing {store : Store N} {id : Nat} {data : Option (Data N)}
      (absent : store.stock id = none) :
      Performs store (.update id data) (.error (.notFound id)) store
  | updateWithExpiry {store store' : Store N} {id rev : Nat} {data : Option (Data N)}
      {expiresAt : Option Int}
      (replaces : Replaces store id data
        (fun _ => resolveInsertExpiry cfg env.now expiresAt) rev store') :
      Performs store (.updateWithExpiry id data expiresAt) (.ok .done) store'
  | updateWithExpiryMissing {store : Store N} {id : Nat} {data : Option (Data N)}
      {expiresAt : Option Int} (absent : store.stock id = none) :
      Performs store (.updateWithExpiry id data expiresAt) (.error (.notFound id)) store
  | delete {store : Store N} {id : Nat} {held : Held N}
      (found : store.stock id = some held) :
      Performs store (.delete id) (.ok .done) (store.drop id)
  | deleteMissing {store : Store N} {id : Nat} (absent : store.stock id = none) :
      Performs store (.delete id) (.error (.notFound id)) store
  | insertWithKey {store store' : Store N} {key : String} {data : Option (Data N)}
      {id : Nat}
      (inserts : Inserts (store.ensure keyField true) (some (stampKey data key))
        (resolveInsertExpiry cfg env.now none) id store') :
      Performs store (.insertWithKey key data) (.ok (.id id)) store'
  | upsertNew {store store' : Store N} {key : String} {data : Option (Data N)} {id : Nat}
      (unused : ∀ other held, ¬ store.Carries key other held)
      (inserts : Inserts (store.ensure keyField true) (some (stampKey data key))
        (resolveInsertExpiry cfg env.now none) id store') :
      Performs store (.upsert key data) (.ok (.record id 1)) store'
  | upsertOld {store store' : Store N} {key : String} {data : Option (Data N)}
      {id rev : Nat} {held : Held N} (carries : store.Carries key id held)
      (replaces : Replaces (store.ensure keyField true) id (some (stampKey data key))
        (fun deadline => deadline) rev store') :
      Performs store (.upsert key data) (.ok (.record id rev)) store'
  | updateIfRev {store store' : Store N} {key : String} {expectedRev id rev : Nat}
      {data : Option (Data N)} {held : Held N} (carries : store.Carries key id held)
      (expected : held.rev = expectedRev)
      (replaces : Replaces store id (some (stampKey data key))
        (fun deadline => deadline) rev store') :
      Performs store (.updateIfRev key expectedRev data) (.ok (.swapped true)) store'
  | updateIfRevKeeps {store : Store N} {key : String} {expectedRev : Nat}
      {data : Option (Data N)}
      (reason : ¬ store.indexed keyField ∨ (∀ id held, ¬ store.Carries key id held) ∨
        ∃ id held, store.Carries key id held ∧ held.rev ≠ expectedRev) :
      Performs store (.updateIfRev key expectedRev data) (.ok (.swapped false)) store
  | updateIfMatch {store store' : Store N} {key : String} {pred : Option (Data N) → Bool}
      {id rev : Nat} {data : Option (Data N)} {held : Held N}
      (carries : store.Carries key id held) (expected : pred held.data = true)
      (replaces : Replaces store id (some (stampKey data key))
        (fun deadline => deadline) rev store') :
      Performs store (.updateIfMatch key pred data) (.ok (.swapped true)) store'
  | updateIfMatchKeeps {store : Store N} {key : String} {pred : Option (Data N) → Bool}
      {data : Option (Data N)}
      (reason : ¬ store.indexed keyField ∨ (∀ id held, ¬ store.Carries key id held) ∨
        ∃ id held, store.Carries key id held ∧ pred held.data = false) :
      Performs store (.updateIfMatch key pred data) (.ok (.swapped false)) store
  | commitTx {store : Store N} {ops : List (TxOp N)}
      (targets : ∀ op ∈ ops, op.kind ≠ .insert → (store.stock op.id).isSome)
      (admits : store.Admits ops) :
      Performs store (.commitTx ops) (.ok .done)
        (store.applyAll (resolveInsertExpiry cfg env.now none) ops)
  | commitTxCut {store : Store N} {ops : List (TxOp N)} {reason : AppendError}
      (stored : Nat)
      (targets : ∀ op ∈ ops, op.kind ≠ .insert → (store.stock op.id).isSome)
      (admits : store.Admits ops) :
      Performs store (.commitTx ops) (.error (.append reason))
        (store.applyAll (resolveInsertExpiry cfg env.now none) (ops.take stored))
  | commitTxMissing {store : Store N} {ops : List (TxOp N)} {id : Nat}
      (absent : store.stock id = none) :
      Performs store (.commitTx ops) (.error (.deletedBeforeCommit id)) store
  | rotateSegment {store : Store N} :
      Performs store .rotateSegment (.ok .done) store
  | ensureIndex {store : Store N} {field : String} {unique : Bool} :
      Performs store (.ensureIndex field unique) (.ok .done) (store.ensure field unique)
  | ensureIndexUnwritten {store : Store N} {field : String} {unique : Bool}
      (unnamed : sidxNameValid field = false) :
      Performs store (.ensureIndex field unique) (.error .io) (store.ensure field unique)
  | refused {store : Store N} {call : Call N} {e : Error} (refusal : Refusal enc e) :
      Performs store call (.error e) store
  | refusedKeyed {store : Store N} {call : Call N} {e : Error} (refusal : Refusal enc e)
      (keyed : (∃ key data, call = .insertWithKey key data) ∨
        ∃ key data, call = .upsert key data) :
      Performs store call (.error e) (store.ensure keyField true)

end Performs

end Scriva.Engine.Machine
