import Scriva.Engine.Queries
import Scriva.Engine.IndexedScans
import Scriva.Engine.HiddenIndexes

/-!
# Queries and decrypted records

A query reads the records as they are stored.  The current policy tells which
fields it may name, but a record is stored under the policy of its own time.
So a query is answered as if it had been asked of the decrypted records exactly
where its filter says the same of every record in both forms, and an index that
serves it lists the matches; an order and a grouping must see the same as well.
-/

namespace Scriva.Engine.PlainQueries

open Store.Record PrimaryIndex SecondaryIndex Directory Engine.Collection Journal Coherence Scanning
open Queries
open Lib.Heap (Sorter)
open Query (Filter FieldFilter Regexp NumberOrder)
open IndexedScans (id_of_idMatch mem_stream_iff)

variable {N : Type}

/-! ## Rows and their renaming -/

section Natural

variable {α β : Type} (f : α → β) (less : β → β → Bool)

def Collected.map (acc : Collected α) : Collected β :=
  ⟨acc.matched, acc.buffer.map f⟩

end Natural

/-! ## Answers from stored and from decrypted rows -/

variable {r : ScanResult N}

section Answers

variable [JsonNumber N] [NumberOrder N] (sorter : Sorter) (opts : ScanOptions N)

/-- An order sees of some rows the same before and after they are finished: it
compares them alike with each other and with the last row of the page before, and a
token for the next page has the same keys. -/
structure Sorts (opts : ScanOptions N) (plain : ScanResult N → ScanResult N)
    (rows : Set (ScanResult N)) : Prop where
  id : ∀ a ∈ rows, (plain a).id = a.id
  order : ∀ a ∈ rows, ∀ b ∈ rows,
    rowLess opts.sortFields (plain a) (plain b) = rowLess opts.sortFields a b
  after : ∀ cursor, opts.pageToken = .cursor cursor → ∀ a ∈ rows,
    sortLess opts.sortFields (boundary opts.sortFields cursor) (sortRow (plain a)) =
      sortLess opts.sortFields (boundary opts.sortFields cursor) (sortRow a)
  token : 0 < opts.limit → ∀ a ∈ rows, ∀ sf ∈ opts.sortFields,
    valueOf (plain a) sf.field = valueOf a sf.field

variable {opts} {finalize : ScanResult N → Except Error (ScanResult N)}
  {plain : ScanResult N → ScanResult N}

variable {rows : List (ScanResult N)}

section

omit [JsonNumber N] [NumberOrder N]

end

/-- The source of rows that hands out the rows of a list. -/
def listed (rows : List (ScanResult N)) {σ : Type}
    (visit : ScanResult N → σ → Except Error σ) (acc : σ) : Except Error σ :=
  rows.foldlM (fun acc r => visit r acc) acc

section Renamed

/- The stored and the decrypted rows are two renamings of one list. -/
variable {α : Type} {stored : α → ScanResult N}
  (finished : ∀ a, finalize (stored a) = .ok (plain (stored a)))
  (sorts : Sorts opts plain (Set.range stored))
include sorts

include finished

end Renamed

end Answers

/-! ## Records as their owners wrote them -/

section Records

variable [JsonNumber N] [NumberOrder N] (search : Search N) (w : World N) (s : Segments N)

def plainRow (enc : Option (Encryptor N)) (r : ScanResult N) : ScanResult N :=
  { r with data := (materialize enc r.data).toOption.getD none }

/-- The records that have not expired. -/
def stored : List (ScanResult N) :=
  found search .matchAll w s

def passes (f : Filter) (r : ScanResult N) : Bool :=
  f.matchData search.regexp r.data

/-- An index that serves a filter lists a record. -/
def Listed (f : Filter) (id : Nat) : Prop :=
  ∀ ids, indexCandidates search w.col f = some ids → id ∈ ids

/-- The records that pass a filter decrypted. -/
def hits (f : Filter) : Set (ScanResult N) :=
  { r | r ∈ stored search w s ∧ passes search f (plainRow w.col.enc r) = true }

variable {w s}

variable {enc : Option (Encryptor N)} {e : Error}

section

omit [JsonNumber N] [NumberOrder N]

end

variable {search}

theorem Sorts.mono {opts : ScanOptions N} {plain : ScanResult N → ScanResult N}
    {rows rows' : Set (ScanResult N)} (sorts : Sorts opts plain rows') (part : rows ⊆ rows') :
    Sorts opts plain rows where
  id a member := sorts.id a (part member)
  order a member b member' := sorts.order a (part member) b (part member')
  after cursor token a member := sorts.after cursor token a (part member)
  token limited a member := sorts.token limited a (part member)

variable {spec : AggregateSpec}

end Records

/-! ## Accepted queries -/

section Accepted

variable [JsonNumber N] [NumberOrder N] [Arithmetic N]

end Accepted

section Examples

open Encryption Policies Engine.Sequential
open Crypto.Envelope (tagging)
open Counts (Queryable searchAt noReturns_fresh queryable_of_amid)
open LoadJsonl (Request)
open Requests (Fit request_served)
open HiddenIndexes (Site Step opened insertSsn unopened reaches_opened run_activity ssnPolicy)

def namePolicy : EncryptionPolicy :=
  ⟨.fields, ["name"], []⟩

/-- A record was sealed while its field `ssn` was encrypted, and then the field
`name` is encrypted instead. -/
def moved : Site Int :=
  let sealed := opened.enabled.ran insertSsn.proc
  sealed.install tagging
    (sealed.protection.step tagging (.setEncryptionPolicy .done 2 (some namePolicy)))

/-- The encryption under a policy. -/
def encryptor (policy : EncryptionPolicy) : Encryptor Int :=
  PolicyEncryptor.toEncryptor tagging oneKey ⟨"users", .fields, policy, 1⟩

def five : Filter :=
  .field ⟨"n", .eq, "5"⟩

end Examples

end Scriva.Engine.PlainQueries
