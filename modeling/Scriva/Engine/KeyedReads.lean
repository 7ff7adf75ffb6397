import Scriva.Engine.Keys

/-!
# Reading what was written under a key

A write under a key goes to the record that the index on keys yields first, or
to a new record if there is none under the key.  It appends one line, which
keeps the deadline of the record that it replaces.  A read by key asks the same
index.  It returns what was written unless other records are under the key, or
the record was past its deadline when it was replaced and not yet reaped.
-/

namespace Scriva.Engine.KeyedReads

open Lib.Fallible Store.Record Store.Ndjson PrimaryIndex SecondaryIndex Directory Engine.Collection
open Journal Coherence Calls Plans Machine Refinement Batches Requests
open Engine.Sequential (fresh amid_fresh smallConfig stillEnv oneField)
open LoadJsonl (Request Request.proc)
open Keys (getByKey)

variable {N : Type} [JsonNumber N]

/-! ## Writes under a key -/

inductive KeyedWrite where
  | upsert
  | updateIfRev (expectedRev : Nat)
  | updateByKey

def KeyedWrite.request (key : String) (data : Option (Data N)) : KeyedWrite → Request N
  | .upsert => .call (.upsert key data)
  | .updateIfRev expectedRev => .call (.updateIfRev key expectedRev data)
  | .updateByKey => .updateByKey key data

/-- The collection in which the key is resolved: an upsert creates the index on
keys first. -/
def KeyedWrite.start (w : World N) : KeyedWrite → World N
  | .upsert => ((ensureKeyIndex : Proc N Unit).run w).2
  | .updateIfRev _ | .updateByKey => w

/-- A reply that says that the write was made. -/
def Succeeds (outcome : Except Error Reply) : Prop :=
  ∃ reply, outcome = .ok reply ∧ reply ≠ .swapped false

/-- The id and revision of the record that is written under a key. -/
def target (env : Env) (w : World N) (key : String) : Nat × Nat :=
  match carrying env w.col key with
  | some (id, loc) => (id, loc.rev + 1)
  | none => (w.col.idSeq + 1, 1)

/-- The deadline that a line under a key is given. -/
def givenDeadline (env : Env) (w : World N) (key : String) : Int :=
  match carrying env w.col key with
  | some (_, loc) => loc.expiresAt
  | none => resolveInsertExpiry w.col.cfg env.now none

/-- A read by key finds this data at this revision. -/
def Reads (env : Env) (w : World N) (key : String) (data : Option (Data N)) (id rev : Nat) : Prop :=
  ∃ ts, getByKey env w key = .ok ⟨id, key, rev, ts, some (stampKey data key)⟩

/-! ## The index on keys -/

section Resolving

variable {w : World N} {s : Segments N}

end Resolving

/-! ## What a write leaves to be read -/

section Reading

variable {w w' : World N} {s : Segments N} {env : Env} {key : String} {data : Option (Data N)}
  {e : Entry N}

/-- A collection after a line under a key has been appended. -/
structure Rewritten (env : Env) (w : World N) (s : Segments N) (key : String)
    (data : Option (Data N)) (e : Entry N) (w' : World N) : Prop where
  coherent : Coherent w s
  governed : Governed w.col
  known : keyField ∈ w.col.sidx.map Sidx.field
  wrote : Wrote w [e] w'
  put : Op.isPut e.op
  puts : Puts w.col.enc e.op (target env w key).1 (some (stampKey data key)) (target env w key).2
    (givenDeadline env w key) e

namespace Rewritten

end Rewritten

end Reading

/-! ## Writes that succeed -/

section Success

variable {w : World N} {s : Segments N} {store : Store N} {env : Env} {key : String}
  {data : Option (Data N)}

/-- A write that succeeded appended a line under the key. -/
def Leaves (env : Env) (w : World N) (key : String) (data : Option (Data N)) (kind : KeyedWrite) :
    Prop :=
  ∃ s e, Rewritten env (kind.start w) s key data e
      (((kind.request key data).proc env).run w).2 ∧
    (∀ id rev, (((kind.request key data).proc env).run w).1 = .ok (.record id rev) →
      id = e.id ∧ rev = e.rev) ∧
    ∀ expectedRev, kind = .updateIfRev expectedRev → e.rev = expectedRev + 1

end Success

/-! ## Where a write under a key can be read -/

/-- Records that live for five nanoseconds. -/
def briefConfig : Config := { smallConfig with defaultTTL := 5 }

/-- A record under a key, past its deadline at the time 5. -/
def lapsed : World Int :=
  (((KeyedWrite.upsert.request "k" (some (oneField "n" 5))).proc stillEnv).run
    (fresh briefConfig none .asWritten)).2

end Scriva.Engine.KeyedReads
