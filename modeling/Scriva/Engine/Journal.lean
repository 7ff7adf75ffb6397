import Scriva.Engine.PrimaryIndex

/-!
# The journal of a collection

The entries of all segments in order, and the record each id has after them:
the last insert or update that no delete follows.  A journal records its
revisions when every insert and update carries a revision above that of the
record it supersedes; a replay then gives every record exactly the revision
its line says.
-/

namespace Scriva.Engine.Journal

open Lib.Keyed Store.Ndjson PrimaryIndex

variable {N : Type}

/-- Records by id: what a collection is for. -/
abbrev Records (N : Type) := Nat → Option (Entry N)

def Op.isPut : Op → Bool
  | .insert | .update => true
  | .delete | .other _ _ => false

/-- What an entry makes of the record with its id. -/
def recordStep (e : Entry N) (current : Option (Entry N)) : Option (Entry N) :=
  match e.op with
  | .insert | .update => some e
  | .delete => none
  | .other _ _ => current

/-- One entry changes the record with its id. -/
def applyEntry (records : Records N) (e : Entry N) : Records N :=
  Function.update records e.id (recordStep e (records e.id))

def applyEntries (records : Records N) (entries : List (Entry N)) : Records N :=
  entries.foldl applyEntry records

/-- The records after a journal. -/
def records (entries : List (Entry N)) : Records N :=
  applyEntries (fun _ => none) entries

@[simp]
theorem applyEntries_nil (start : Records N) : applyEntries start [] = start := rfl

@[simp]
theorem applyEntries_cons (start : Records N) (e : Entry N) (entries : List (Entry N)) :
    applyEntries start (e :: entries) = applyEntries (applyEntry start e) entries := rfl

theorem applyEntries_append (start : Records N) (front back : List (Entry N)) :
    applyEntries start (front ++ back) =
      applyEntries (applyEntries start front) back :=
  List.foldl_append

theorem records_append (front back : List (Entry N)) :
    records (front ++ back) = applyEntries (records front) back :=
  applyEntries_append _ front back

theorem records_snoc (front : List (Entry N)) (e : Entry N) :
    records (front ++ [e]) = applyEntry (records front) e :=
  records_append front [e]

theorem applyEntry_of_ne (start : Records N) {e : Entry N} {id : Nat}
    (other : id ≠ e.id) : applyEntry start e id = start id :=
  Function.update_of_ne other _ _

theorem applyEntry_same (start : Records N) (e : Entry N) :
    applyEntry start e e.id = recordStep e (start e.id) :=
  Function.update_self _ _ _

/-- What entries make of a record depends on the entries with its id. -/
theorem applyEntries_eq_history (start : Records N) (entries : List (Entry N)) (id : Nat) :
    applyEntries start entries id =
      history (fun e : Entry N => e.id) recordStep entries id (start id) := by
  induction entries generalizing start with
  | nil => rfl
  | cons e entries ih =>
    rw [applyEntries_cons, ih, history_cons]
    by_cases same : e.id = id
    · subst same
      rw [applyEntry_same, if_pos rfl]
    · rw [applyEntry_of_ne start (Ne.symm same), if_neg same]

theorem applyEntries_of_untouched (start : Records N) {entries : List (Entry N)}
    {id : Nat} (untouched : ∀ e ∈ entries, e.id ≠ id) :
    applyEntries start entries id = start id := by
  rw [applyEntries_eq_history, history_of_not_mem _ _ _ untouched]

/-! ## Located lines -/

/-- The live version of a record holds the record's entry. -/
theorem map_entry_live (log : List (Located N)) (id : Nat) :
    (live log id).map Located.entry = records (log.map Located.entry) id := by
  have follow (found : Option (Located N × Nat)) :
      (history (fun line => line.entry.id) versionStep log id found).map
          (fun line => line.1.entry) =
        history (fun e : Entry N => e.id) recordStep (log.map Located.entry) id
          (found.map fun line => line.1.entry) := by
    induction log generalizing found with
    | nil => rfl
    | cons line log ih =>
      rw [List.map_cons, history_cons, history_cons, ih]
      split_ifs with here
      · congr 1
        cases op : line.entry.op <;> simp [versionStep, recordStep, op]
      · rfl
  rw [live, version, Option.map_map, records, applyEntries_eq_history]
  exact follow none

/-! ## Recorded revisions -/

/-- The revision of a record, zero if there is none. -/
def revOf (record : Option (Entry N)) : Nat :=
  (record.map Entry.rev).getD 0

/-- Every insert and update carries a revision above the one it supersedes. -/
def Recorded (entries : List (Entry N)) : Prop :=
  ∀ front e back, entries = front ++ e :: back → Op.isPut e.op →
    revOf (records front e.id) < e.rev

theorem recorded_nil : Recorded ([] : List (Entry N)) := by
  intro front e back split
  simp at split

theorem Recorded.front {front back : List (Entry N)} (recorded : Recorded (front ++ back)) :
    Recorded front := by
  intro before e after split
  exact recorded before e (after ++ back) (by rw [split]; simp)

theorem recorded_snoc {entries : List (Entry N)} {e : Entry N} :
    Recorded (entries ++ [e]) ↔
      Recorded entries ∧ (Op.isPut e.op → revOf (records entries e.id) < e.rev) := by
  constructor
  · intro recorded
    exact ⟨recorded.front, recorded entries e [] rfl⟩
  · rintro ⟨recorded, last⟩ front put back split
    rcases List.eq_nil_or_concat back with rfl | ⟨back, final, rfl⟩
    · obtain ⟨rfl, tail⟩ := List.append_inj' split rfl
      obtain rfl := List.singleton_injective tail
      exact last
    · have shape : entries = front ++ put :: back := by
        have grouped : entries ++ [e] = (front ++ put :: back) ++ [final] := by
          rw [split, List.concat_eq_append]
          simp
        exact (List.append_inj' grouped rfl).1
      exact recorded front put back shape

/-- A replay of a journal with recorded revisions gives every record the
revision of its line. -/
theorem version_of_recorded {log : List (Located N)}
    (recorded : Recorded (log.map Located.entry)) (id : Nat) :
    version log id = (live log id).map fun line => (line, line.entry.rev) := by
  induction log using List.reverseRecOn with
  | nil => rfl
  | append_singleton log line ih =>
    rw [List.map_append, List.map_singleton, recorded_snoc] at recorded
    obtain ⟨before, last⟩ := recorded
    have earlier := ih before
    simp only [version, live, history_append, history_cons, history_nil] at earlier ⊢
    by_cases here : line.entry.id = id
    · subst here
      simp only [if_true]
      have rev : ((version log line.entry.id).map Prod.snd).getD 0 =
          revOf (records (log.map Located.entry) line.entry.id) := by
        rw [← map_entry_live, revOf, version, earlier]
        simp only [Option.map_map, live, version]
        rfl
      cases op : line.entry.op with
      | insert | update =>
        have above := last (by rw [op]; rfl)
        rw [← rev, version] at above
        simpa [versionStep, op] using above
      | delete => simp [versionStep, op]
      | other text unnamed => simpa [versionStep, op] using earlier
    · simp only [here, if_false]
      exact earlier

end Scriva.Engine.Journal
