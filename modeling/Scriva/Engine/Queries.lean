import Scriva.Engine.Scanning
import Scriva.Lib.Heap

/-!
# Ordered scans and aggregations

A scan may ask for an order of its rows, for the rows after a given one and for
a limited number of them; with a limit only the smallest rows are kept, in a
heap.  An aggregation folds the rows into groups.  Both look at rows as they
are stored, and a row is decrypted when it is handed out.

What is done with the rows does not depend on where they come from, so it is
defined for any source of rows and any way to finish one.
-/

namespace Scriva.Engine.Queries

open Store.Record Directory Engine.Collection Scanning
open Lib.Heap (Sorter)
open Query (Filter NumberOrder)

variable {N : Type}

/-! ## Options -/

structure SortField where
  field : String
  desc : Bool
deriving DecidableEq, Repr

/-- The keys and the id of the last row of a page. -/
structure PageCursor (N : Type) where
  keys : List (Value N)
  id : Nat

inductive PageToken (N : Type) where
  | empty
  | malformed
  | cursor (cursor : PageCursor N)

structure ScanOptions (N : Type) where
  filter : Filter
  /-- Zero for no limit. -/
  limit : Nat
  offset : Nat
  orderBy : String
  descending : Bool
  /-- Takes precedence over the single field. -/
  sort : List SortField
  pageToken : PageToken N

def ScanOptions.sortFields (opts : ScanOptions N) : List SortField :=
  if opts.sort = [] ∧ opts.orderBy ≠ "" then [⟨opts.orderBy, opts.descending⟩] else opts.sort

/-- A page token asks for an order even if no field is named. -/
def ScanOptions.ordered (opts : ScanOptions N) : Bool :=
  match opts.pageToken with
  | .empty => opts.sortFields ≠ []
  | _ => true

inductive ScanError where
  | engine (e : Error)
  | invalidPageToken
deriving DecidableEq

structure Answer (N : Type) where
  rows : List (ScanResult N)
  nextPageToken : Option (PageCursor N)

/-! ## Ordering rows -/

/-- What an ordering sees of a row; an absent field counts as null. -/
structure SortRow (N : Type) where
  value : String → Value N
  id : Nat

def valueOf (r : ScanResult N) (field : String) : Value N :=
  (field? r.data field).getD .null

def sortRow (r : ScanResult N) : SortRow N :=
  ⟨valueOf r, r.id⟩

section Order

variable [JsonNumber N] [NumberOrder N]

/-- The fields in turn, and the id last. -/
def sortLess : List SortField → SortRow N → SortRow N → Bool
  | [], a, b => decide (a.id < b.id)
  | sf :: fields, a, b =>
    let result := Query.compare (a.value sf.field) (b.value sf.field)
    match if sf.desc then result.swap else result with
    | .lt => true
    | .gt => false
    | .eq => sortLess fields a b

/-- The last row of the page before; of two keys for one field the later
counts. -/
def boundary (fields : List SortField) (cursor : PageCursor N) : SortRow N where
  value field := ((((fields.map SortField.field).zip cursor.keys).reverse).lookup field).getD .null
  id := cursor.id

/-- The rows after those of the page before. -/
def cursorAfter (fields : List SortField) :
    PageToken N → Except ScanError (Option (SortRow N → Bool))
  | .empty => .ok none
  | .malformed => .error .invalidPageToken
  | .cursor cursor =>
    if cursor.keys.length ≠ fields.length then .error .invalidPageToken
    else .ok (some (sortLess fields (boundary fields cursor)))

end Order

/-! ## Pages -/

section Pages

variable {α : Type} (less : α → α → Bool)

/-- Keep the smallest rows; the largest of those kept is the first. -/
def topKPush (cap : Nat) (buffer : List α) (row : α) : List α :=
  if cap = 0 then buffer
  else if buffer.length < cap then Lib.Heap.push (fun a b => less b a) buffer row
  else
    match buffer with
    | [] => []
    | largest :: rest =>
      if less row largest then Lib.Heap.fix (fun a b => less b a) (row :: rest)
      else largest :: rest

/-- The sum as a signed 64-bit number.  A negative one keeps nothing, like zero. -/
def topKCap (offset limit : Nat) : Nat :=
  (Int.bmod (offset + limit) (2 ^ 64)).toNat

/-- The number of rows that could be on a page, and those kept. -/
structure Collected (α : Type) where
  matched : Nat
  buffer : List α

def collect (after : Option (α → Bool)) (offset limit : Nat) (acc : Collected α) (row : α) :
    Collected α :=
  if (after.map fun test => test row).getD true then
    ⟨acc.matched + 1,
      if 0 < limit then topKPush less (topKCap offset limit) acc.buffer row
      else acc.buffer ++ [row]⟩
  else acc

def page (sorter : Sorter) (offset limit : Nat) (buffer : List α) : List α :=
  let rest := (sorter.sort less buffer).drop offset
  if 0 < limit then rest.take limit else rest

end Pages

/-- Rows handed out in the order in which they come.  A scan that has reached
its limit ends. -/
structure Progress (N : Type) where
  skipped : Nat
  rows : List (ScanResult N)
  stopped : Bool

def advance (opts : ScanOptions N) (finalize : ScanResult N → Except Error (ScanResult N))
    (r : ScanResult N) (acc : Progress N) : Except Error (Progress N) :=
  if acc.stopped then .ok acc
  else if acc.skipped < opts.offset then .ok { acc with skipped := acc.skipped + 1 }
  else (finalize r).map fun row =>
    { acc with
      rows := acc.rows ++ [row]
      stopped := 0 < opts.limit && opts.limit ≤ acc.rows.length + 1 }

/-! ## Scans -/

section Scans

variable [JsonNumber N] [NumberOrder N] (sorter : Sorter) (opts : ScanOptions N)
  (finalize : ScanResult N → Except Error (ScanResult N))

def scanUnordered (feed : (ScanResult N → Progress N → Except Error (Progress N)) → Progress N →
    Except Error (Progress N)) : Except ScanError (Answer N) :=
  match feed (advance opts finalize) ⟨0, [], false⟩ with
  | .error e => .error (.engine e)
  | .ok done => .ok ⟨done.rows, none⟩

/-- The token of the next page, if there are rows beyond this one. -/
def nextToken (fields : List SortField) (matched : Nat) (rows : List (ScanResult N)) :
    Option (PageCursor N) :=
  if 0 < opts.limit ∧ opts.offset + opts.limit < matched then
    rows.getLast?.map fun last => ⟨fields.map fun sf => valueOf last sf.field, last.id⟩
  else none

def rowLess (fields : List SortField) (a b : ScanResult N) : Bool :=
  sortLess fields (sortRow a) (sortRow b)

/-- Sort the rows that were kept, and hand out those of the page. -/
def emitPage (done : Collected (ScanResult N)) : Except ScanError (Answer N) :=
  let rows := page (rowLess opts.sortFields) sorter opts.offset opts.limit done.buffer
  match rows.mapM finalize with
  | .error e => .error (.engine e)
  | .ok finished => .ok ⟨finished, nextToken opts opts.sortFields done.matched rows⟩

def scanOrdered
    (feed : (ScanResult N → Collected (ScanResult N) → Except Error (Collected (ScanResult N))) →
      Collected (ScanResult N) → Except Error (Collected (ScanResult N))) :
    Except ScanError (Answer N) :=
  match cursorAfter opts.sortFields opts.pageToken with
  | .error e => .error e
  | .ok after =>
    match feed (fun r acc => .ok (collect (rowLess opts.sortFields)
        (after.map fun test r => test (sortRow r)) opts.offset opts.limit acc r)) ⟨0, []⟩ with
    | .error e => .error (.engine e)
    | .ok done => emitPage sorter opts finalize done

def answer (feed : {σ : Type} → (ScanResult N → σ → Except Error σ) → σ → Except Error σ) :
    Except ScanError (Answer N) :=
  if opts.ordered then scanOrdered sorter opts finalize feed
  else scanUnordered opts finalize feed

end Scans

/-! ## Aggregations -/

structure AggregateSpec where
  filter : Filter
  groupBy : String
  field : String

/-- The arithmetic of the numbers. -/
class Arithmetic (N : Type) where
  zero : N
  add : N → N → N
  divide : N → Nat → N
  less : N → N → Bool

instance : Arithmetic Int where
  zero := 0
  add := (· + ·)
  divide sum count := sum / count
  less a b := decide (a < b)

structure AggAcc (N : Type) where
  key : Value N
  count : Nat
  numCount : Nat
  sum : N
  min : N
  max : N
  hasNum : Bool

structure GroupResult (N : Type) where
  key : Value N
  count : Nat
  sum : N
  avg : N
  min : N
  max : N
  numeric : Bool
deriving DecidableEq

/-- The type of a value under the `%T` verb. -/
def goType : Value N → String
  | .null => "<nil>"
  | .bool _ => "bool"
  | .num _ => "float64"
  | .str _ => "string"
  | .arr _ => "[]interface \x7b\x7d"
  | .obj _ => "map[string]interface \x7b\x7d"

section Groups

variable [JsonNumber N] [Arithmetic N]

/-- Values of different types are in different groups though they read alike. -/
def canonicalGroupKey : Value N → String
  | .null => "\x00null"
  | value => goType value ++ "\x00" ++ sprint value

/-- Take a row into the account of its group. -/
def AggAcc.take (acc : AggAcc N) (value : Option (Value N)) : AggAcc N :=
  let acc := { acc with count := acc.count + 1 }
  match value with
  | some (.num n) =>
    { acc with
      sum := Arithmetic.add acc.sum n
      numCount := acc.numCount + 1
      min := if !acc.hasNum || Arithmetic.less n acc.min then n else acc.min
      max := if !acc.hasNum || Arithmetic.less acc.max n then n else acc.max
      hasNum := true }
  | _ => acc

/-- Change the account under a key, or open one. -/
def upsertGroup (key : String) (fresh : AggAcc N) (change : AggAcc N → AggAcc N) :
    List (String × AggAcc N) → List (String × AggAcc N)
  | [] => [(key, change fresh)]
  | (other, acc) :: groups =>
    if other = key then (key, change acc) :: groups
    else (other, acc) :: upsertGroup key fresh change groups

def addRow (spec : AggregateSpec) (r : ScanResult N) (groups : List (String × AggAcc N)) :
    List (String × AggAcc N) :=
  let key := if spec.groupBy = "" then .null else valueOf r spec.groupBy
  let value := if spec.field = "" then none else some (valueOf r spec.field)
  upsertGroup (canonicalGroupKey key) ⟨key, 0, 0, Arithmetic.zero, Arithmetic.zero, Arithmetic.zero, false⟩
    (fun acc => acc.take value) groups

def AggAcc.result (acc : AggAcc N) : GroupResult N where
  key := acc.key
  count := acc.count
  sum := acc.sum
  avg := if acc.hasNum then Arithmetic.divide acc.sum acc.numCount else Arithmetic.zero
  min := acc.min
  max := acc.max
  numeric := acc.hasNum

/-- The group of an aggregation that only counts. -/
def countResult (n : Nat) : GroupResult N :=
  ⟨.null, n, Arithmetic.zero, Arithmetic.zero, Arithmetic.zero, Arithmetic.zero, false⟩

variable [NumberOrder N]

/-- The order in which the groups are emitted is that of an iteration over a map
and of a sort that is not stable. -/
def aggregateGroups (arrange : List (GroupResult N) → List (GroupResult N)) (search : Search N)
    (w : World N) (spec : AggregateSpec) : Except Error (List (GroupResult N)) :=
  match checkField w.col.enc spec.groupBy with
  | .error e => .error e
  | .ok _ =>
    match checkField w.col.enc spec.field with
    | .error e => .error e
    | .ok _ =>
      if spec.groupBy = "" ∧ spec.field = "" then
        (count search w spec.filter).map fun n => [countResult n]
      else
        (forEachMatch (fun r groups => .ok (addRow spec r groups)) search w spec.filter
          []).map fun groups => arrange (groups.map fun group => group.2.result)

end Groups

end Scriva.Engine.Queries
