import Scriva.Engine.Keys
import Scriva.Engine.Scanning

/-!
# Counts of a collection

In the states that requests lead to, the indexes speak of the lines in the
segments, every line can be read and every record can be given to its owner.  A
count then differs from a scan only where it takes the size of an index for the
answer: the index still has records whose time has passed, and it answers for
an encrypted field that a scan refuses.
-/

namespace Scriva.Engine.Counts

open Store.Record Segment PrimaryIndex Directory Engine.Collection Load Journal Coherence Writing
open Calls Machine Batches Engine.Sequential Requests Scanning
open Query (Filter FieldFilter NumberOrder)
open Keys (Move)

variable {N : Type} [JsonNumber N]

/-! ## States that can be queried -/

/-- A collection whose indexes speak of the lines in its segments, which can be
read. -/
structure Queryable (w : World N) (s : Segments N) : Prop where
  recalls : Recalls w s s.log
  indexed : Indexed w.col.sidx s.log
  tidy : Tidy s
  opens : Opens w s

theorem mem_fileOf {lines : List (SegmentLine N)} {line : SegmentLine N} (member : line ∈ lines)
    {byte : UInt8} (inside : byte ∈ line.raw) : byte ∈ fileOf lines := by
  obtain ⟨front, back, rfl⟩ := List.append_of_mem member
  rw [fileOf_append, List.mem_append]
  refine .inr ?_
  rw [← List.singleton_append, fileOf_append, List.mem_append, fileOf_singleton, List.mem_append]
  exact .inl (.inl inside)

theorem tidy_of_noReturns {disk : Disk} {s : Segments N} (holds : Holds disk.segment s.layout)
    (plain : NoReturns disk) : Tidy s := by
  intro segment member line inside
  unfold dropCR
  rw [if_neg]
  intro last
  exact plain _ _ (holds segment member) (mem_fileOf inside (List.mem_of_getLast? last))

theorem queryable_of_amid {w : World N} {s : Segments N} {store : Store N} (amid : Amid w s store)
    (plain : NoReturns w.disk) : Queryable w s where
  recalls := amid.coherent.recalls
  indexed := amid.coherent.indexed
  tidy := tidy_of_noReturns amid.coherent.disk.holds plain
  opens := by
    intro id line alive
    have held : records s.entries id = some line.entry := by
      rw [amid.coherent.record_eq, alive, Option.map_some]
    obtain ⟨shown, -, shows⟩ := amid.describes.stocked.of_journal held
    exact ⟨shown.data, shows.stored.opens⟩

/-! ## Runs -/

/-- Data and ids of a run are as callers give them. -/
def FitRun : World N → List (Move N) → Prop
  | _, [] => True
  | w, move :: rest =>
    (∀ env request, move = .request env request → Fit w request) ∧ FitRun (move.next w) rest

def reached (w : World N) (moves : List (Move N)) : World N :=
  moves.foldl (fun w move => move.next w) w

theorem amid_reached {w : World N} {s : Segments N} {store : Store N} (amid : Amid w s store)
    (plain : NoReturns w.disk) {moves : List (Move N)} (fit : FitRun w moves) :
    ∃ s' store', Amid (reached w moves) s' store' ∧ NoReturns (reached w moves).disk := by
  induction moves generalizing w s store with
  | nil => exact ⟨s, store, amid, plain⟩
  | cons move moves ih =>
    obtain ⟨first, rest⟩ := fit
    cases move with
    | reserve => exact ih (Amid.reserve amid) plain rest
    | request env request =>
      obtain ⟨s', store', after, -, frame⟩ := request_served amid env (first env request rfl)
      exact ih after (frame.plain plain) rest

theorem noReturns_fresh (cfg : Config) {enc : Option (Encryptor N)} (order : RenameOrder)
    (lawful : ∀ policy ∈ enc, Lawful policy) : NoReturns (fresh cfg enc order).disk := by
  have onDisk := (amid_fresh cfg order lawful).1.coherent.disk
  intro number file found
  have known := onDisk.only number (by rw [found]; rfl)
  obtain rfl : number = 1 := List.mem_singleton.mp known
  have empty := onDisk.holds (1, []) (List.mem_singleton_self _)
  rw [found, Option.some.injEq] at empty
  rw [empty]
  exact List.not_mem_nil

/-! ## Rebuilds -/

/-- The indexes in memory are what a rebuild from the segments gives. -/
structure Rebuilds (w : World N) : Prop where
  primary : rebuild N w.disk.segment (allSegments w.col) = some w.col.index
  secondary : ∀ s ∈ w.col.sidx, ∃ rebuilt,
    s.rebuild N w.disk.segment (allSegments w.col) = some rebuilt ∧ rebuilt.unique = s.unique ∧
      (∀ id, rebuilt.reverse.lookup id = s.reverse.lookup id) ∧
      ∀ key, rebuilt.bucket key = s.bucket key

theorem rebuilds_of_coherent {w : World N} {s : Segments N} (coherent : Coherent w s) :
    Rebuilds w where
  primary := coherent.rebuild_eq
  secondary := by
    intro i known
    have kept := coherent.indexed.exact i known
    obtain ⟨rebuilt, scanned, -, unique, exact⟩ := i.rebuild_exact coherent.disk.holds
    rw [coherent.allSegments_eq, ← Segments.map_fst_layout]
    refine ⟨rebuilt, scanned, unique, fun id => ?_, fun key => Finset.ext fun id => ?_⟩
    · exact (exact.reverse id).trans (kept.reverse id).symm
    · exact (exact.bucket key id).trans (kept.bucket key id).symm

/-- Whatever requests a new collection has served, a rebuild changes none of its
indexes. -/
theorem rebuilds_reached (cfg : Config) (enc : Option (Encryptor N)) (order : RenameOrder)
    (lawful : ∀ policy ∈ enc, Lawful policy) (moves : List (Move N))
    (fit : FitRun (fresh cfg enc order) moves) : Rebuilds (reached (fresh cfg enc order) moves) := by
  obtain ⟨s, store, amid, -⟩ := amid_reached (amid_fresh cfg order lawful).1
    (noReturns_fresh cfg order lawful) fit
  exact rebuilds_of_coherent amid.coherent

theorem rebuilds_reached_indexed : Rebuilds (reached (fresh smallConfig none .asWritten)
    [.request stillEnv (.call (.ensureIndex "n" false)),
      .request stillEnv (.call (.insert (some (oneField "n" 5)) none))]) := by
  refine rebuilds_reached smallConfig none .asWritten nofun _ ⟨?_, ?_, trivial⟩
  · rintro env request ⟨⟩
    trivial
  · rintro env request ⟨⟩
    exact .inl (by decide)

variable [NumberOrder N]

/-- Every run of a new collection leads to a state that can be queried; in such
a state a count agrees with a scan exactly where no index whose size is taken
for the answer has a record past its deadline, and none is on an encrypted
field. -/
theorem count_agrees_iff :
    (∀ (cfg : Config) (enc : Option (Encryptor N)) (order : RenameOrder)
      (moves : List (Move N)), (∀ policy ∈ enc, Lawful policy) →
      FitRun (fresh cfg enc order) moves →
        ∃ s, Queryable (reached (fresh cfg enc order) moves) s) ∧
    ∀ (w : World N) (s : Segments N), Queryable w s →
      ∀ (search : Search N) (f : Filter), Agrees search w f ↔ SizesAnswer search w f := by
  constructor
  · intro cfg enc order moves lawful fit
    obtain ⟨s, store, amid, plain⟩ := amid_reached (amid_fresh cfg order lawful).1
      (noReturns_fresh cfg order lawful) fit
    exact ⟨s, queryable_of_amid amid plain⟩
  · intro w s queryable search f
    exact agrees_iff_sizesAnswer search f queryable.recalls queryable.indexed queryable.tidy
      queryable.opens

/-- A query at a time, with no regular expressions and no ordered views. -/
def searchAt (now : Int) : Search Int := ⟨fun _ => none, fun _ => ⟨.empty, []⟩, now⟩

/-- One record, until the time 5. -/
def shortLived : List (Move Int) :=
  [.request stillEnv (.call (.insert (some (oneField "n" 5)) (some 5)))]

theorem count_agrees_small :
    Agrees (searchAt 4) (reached (fresh smallConfig none .asWritten) shortLived) .matchAll := by
  obtain ⟨s, queryable⟩ := (count_agrees_iff (N := Int)).1 smallConfig none .asWritten shortLived
    nofun ⟨by rintro env request ⟨⟩; exact .inl (by decide), trivial⟩
  refine (count_agrees_iff.2 _ s queryable (searchAt 4) .matchAll).mpr ?_
  rw [SizesAnswer]
  decide +kernel

/-- After its deadline a record is counted and not scanned, until it is
reaped. -/
theorem count_includes_expired :
    (count (searchAt 5) (reached (fresh smallConfig none .asWritten) shortLived)
        .matchAll).toOption = some 1 ∧
      ((scan (searchAt 5) (reached (fresh smallConfig none .asWritten) shortLived)
        .matchAll).map List.length).toOption = some 0 := by
  decide +kernel

end Scriva.Engine.Counts
