import Scriva.Engine.Machine

/-!
# Bulk loads

A bulk load reads one record from every line of its input.  All lines are read
before anything is written, and the records are then committed as one batch of
inserts.  A keyed load takes the string key of each record from a named field.
-/

namespace Scriva.Engine.LoadJsonl

open Lib.JsonText Store.Record Directory Engine.Collection
open Machine (Call Reply)

variable {N : Type} [JsonNumber N]

/-! ## Reading the input -/

/-- White space as the trimming of lines sees it, which is more than what a
document may have between its tokens. -/
def isSpaceRune (c : Char) : Bool :=
  (9 ≤ c.toNat && c.toNat ≤ 13) || (0x2000 ≤ c.toNat && c.toNat ≤ 0x200A) ||
    [0x20, 0x85, 0xA0, 0x1680, 0x2028, 0x2029, 0x202F, 0x205F, 0x3000].contains c.toNat

def trimSpace (line : List Char) : List Char :=
  ((line.dropWhile isSpaceRune).reverse.dropWhile isSpaceRune).reverse

/-- The lines of a text; the last one may lack its newline. -/
def physicalLines : List Char → List (List Char)
  | [] => []
  | c :: text =>
    if c = '\n' then [] :: physicalLines text
    else
      match physicalLines text with
      | [] => [[c]]
      | line :: lines => (c :: line) :: lines

/-- The record of one line.  A document that is `null` is a record without
data. -/
def prepareRecord (keyedBy : String) (line : List Char) (number : Nat) :
    Except Error (Option (Data N)) :=
  match (parse line).bind (Data.merge? none) with
  | none => .error (.malformedLine number)
  | some data =>
    if keyedBy = "" then
      if (field? data keyField).isSome then .error .reservedField else .ok data
    else
      match field? data keyedBy with
      | some (.str key) =>
        if keyedBy ≠ keyField ∧ (field? data keyField).isSome then .error .reservedField
        else .ok (some (stampKey data key))
      | some _ => .error (.keyNotString number)
      | none => .error (.missingKeyField number)

/-- The records of all lines that are not blank. -/
def prepareRecords (keyedBy : String) :
    List (List Char) → Nat → Except Error (List (Option (Data N)))
  | [], _ => .ok []
  | line :: lines, number =>
    if trimSpace line = [] then prepareRecords keyedBy lines (number + 1)
    else
      match prepareRecord keyedBy (trimSpace line) number with
      | .error e => .error e
      | .ok data => (prepareRecords keyedBy lines (number + 1)).map (data :: ·)

def parseJSONL (keyedBy : String) (text : List Char) :
    Except Error (List (Option (Data N))) :=
  prepareRecords keyedBy (physicalLines text) 1

/-! ## Loading -/

/-- Stage every record as an insert under a new id. -/
def stageInserts (ts : Utc) : List (Option (Data N)) → Proc N (List (TxOp N))
  | [] => return []
  | data :: records => do
    let id ← reserveID
    let ops ← stageInserts ts records
    return ⟨.insert, id, data, ts⟩ :: ops

/-- Load records; the result is their number. -/
def loadJSONL (env : Env) (text : List Char) (keyedBy : String) : Proc N Nat := do
  if keyedBy ≠ "" then ensureKeyIndex
  let records ← Proc.check (parseJSONL keyedBy text)
  if records = [] then return 0
  let ops ← stageInserts env.ts records
  commitTx env ops
  return records.length

/-! ## Requests -/

/-- A change that users ask for: one of the calls, a write by string key, a
load, or the removal of expired records. -/
inductive Request (N : Type) where
  | call (call : Call N)
  | updateByKey (key : String) (data : Option (Data N))
  | deleteByKey (key : String)
  | loadJSONL (text : List Char) (keyedBy : String)
  | reapExpired

def Request.proc (env : Env) : Request N → Proc N Reply
  | .call made => made.proc env
  | .updateByKey key data => do
    Collection.updateByKey env key data
    return .done
  | .deleteByKey key => do
    Collection.deleteByKey env key
    return .done
  | .loadJSONL text keyedBy => do
    let loaded ← LoadJsonl.loadJSONL env text keyedBy
    return .loaded loaded
  | .reapExpired => do
    Collection.reapExpired env
    return .done

end Scriva.Engine.LoadJsonl
