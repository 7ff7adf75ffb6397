import Scriva.Lib.Replay
import Scriva.Engine.Reading
import Scriva.Engine.Turns

/-!
# Entries of a leader applied by a follower

A follower writes the entries of its leader as they are, without giving ids or
revisions and without checking unique fields.  An entry whose effect is there
already is passed over: a put of a revision that is not above the present one,
and a deletion of a record that is not there.  So what a record shows changes
as a replay that is guarded by revisions says, whether or not a new segment is
started or an index on the keys is created on the way.
-/

namespace Scriva.Engine.Applying

open Lib.Text Lib.Replay Store.Record Store.Ndjson Segment PrimaryIndex SecondaryIndex Directory
open Engine.Collection Calls Reading Engine.Turns

variable {N : Type} [JsonNumber N]

/-! ## Applying an entry -/

/-- Keep the id counter ahead of an applied id. -/
def raiseIdSeq (id : Nat) (c : Collection N) : Collection N :=
  { c with idSeq := max c.idSeq id }

/-- After the line and the indexes: the counter and the flush; the result says
whether the active segment is full. -/
def finishApply (id : Nat) : Proc N Bool := do
  Proc.modify (raiseIdSeq id)
  syncActive
  isFull

/-- A deletion of a record that is not there is passed over. -/
def applyDelete (e : Entry N) (cur : Option IndexEntry) : Proc N Bool :=
  if cur.isNone then return false
  else do
    deleteEntry e
    finishApply e.id

/-- An insert or update of a revision that is not above the present one is
passed over. -/
def applyPut (e : Entry N) (cur : Option IndexEntry) : Proc N Bool :=
  if cur.any fun cur => e.rev ≤ cur.rev then return false
  else do
    putEntry e e.data (if cur.isSome then .move else .index)
    finishApply e.id

/-- Apply an entry under the write lock. -/
def applyLocked (e : Entry N) : Proc N Bool := do
  let cur ← Proc.read fun w => w.col.index.lookup e.id
  match e.op with
  | .delete => applyDelete e cur
  | .insert | .update => applyPut e cur
  | .other _ _ => Proc.fail (.unknownOp e.op)

/-- Write an entry of the leader as it is.  A keyed record needs the index on the
keys first. -/
def applyEntry (e : Entry N) : Proc N Unit := do
  if (field? e.data keyField).isSome then ensureKeyIndex
  let full ← (applyLocked e).locked
  rotateIf full

/-! ## What records show -/

/-- The revision and the deadline of a record, and its data if its line can be
read. -/
abbrev Shown (N : Type) := Nat × Int × Option (Option (Data N))

def shown (w : World N) (id : Nat) : Option (Shown N) :=
  (w.col.index.lookup id).map fun loc =>
    (loc.rev, loc.expiresAt, (storedLine w id).map Entry.data)

/-- What the line of an entry says of its data, if it can be read. -/
def lineData (e : Entry N) : Option (Option (Data N)) :=
  match appendBytes e with
  | .ok bytes => (readAt (N := N) bytes 0).map Entry.data
  | .error _ => none

/-- What an entry makes its record show. -/
def showing (e : Entry N) : Option (Shown N) :=
  match e.op with
  | .insert | .update => some (e.rev, e.expiresAt, lineData e)
  | .delete | .other _ _ => none

/-- The line of a storable entry says its data. -/
theorem lineData_of_storable {e : Entry N} (storable : Storable e) {bytes : Bytes}
    (accepted : appendBytes e = .ok bytes) : lineData e = some e.data := by
  rw [lineData, accepted]
  change (readAt (N := N) bytes 0).map Entry.data = some e.data
  rcases readAt_appendBytes accepted with read | unread
  · rw [read, storable.written_eq]
    rfl
  · obtain ⟨line, same, rfl⟩ := exists_line_of_appendBytes storable accepted
    have read := readAt_fileOf [] [] line
    rw [List.nil_append, fileOf_nil, List.length_nil] at read
    rw [read] at unread
    cases unread

/-! ## Changes that show nothing -/

/-- The segments and the primary index are as they were, and no failure is to
come. -/
structure Untouched (w w' : World N) : Prop where
  index : w'.col.index = w.col.index
  sealed : w'.col.sealed = w.col.sealed
  active : w'.col.active = w.col.active
  files : w'.disk.files = w.disk.files
  calm : w'.fault = none

section Unseen

variable {w w' : World N}

theorem Untouched.sound (untouched : Untouched w w') (sound : Sound w) : Sound w' := by
  have still : Still w { w' with col := { w'.col with sidx := w.col.sidx, enc := w.col.enc } } :=
    .of_eq sound untouched.index untouched.sealed untouched.active untouched.files
      (List.Subset.refl _) rfl
  exact ⟨still.sound.attached, still.sound.file, still.sound.apart, still.sound.known⟩

theorem Untouched.shown_eq (untouched : Untouched w w') (id : Nat) : shown w' id = shown w id := by
  have numbers : allSegments w'.col = allSegments w.col := by
    rw [allSegments, allSegments, untouched.sealed, untouched.active]
  have segment : w'.disk.segment = w.disk.segment := by
    funext number
    rw [Disk.segment, Disk.segment, untouched.files]
  simp only [shown, storedLine, readEntry, untouched.index, numbers, segment]

instance (w : World N) : Indexless (Untouched w) where
  sidx _ := fun ⟨index, sealed, active, files, calm⟩ => ⟨index, sealed, active, files, calm⟩
  flush := by
    rintro ⟨col, disk, feed, trace, fault⟩ untouched
    obtain rfl : fault = none := untouched.calm
    exact untouched
  persist := by
    rintro ⟨col, disk, feed, trace, fault⟩ field file untouched
    obtain rfl : fault = none := untouched.calm
    exact ⟨untouched.index, untouched.sealed, untouched.active, untouched.files, rfl⟩

/-- Nothing is seen of a rotation. -/
theorem rotateIf_shown (sound : Sound w) (calm : w.fault = none) (full : Bool) :
    ∃ w', (rotateIf full : Proc N Unit).run w = (.ok (), w') ∧ Sound w' ∧ w'.fault = none ∧
      ∀ id, shown w' id = shown w id := by
  cases full with
  | false => exact ⟨w, rfl, sound, calm, fun _ => rfl⟩
  | true =>
    obtain ⟨w', ran, calm', index⟩ := run_rotateSegment_calm calm
    have still := yields_rotateSegment sound () w' ran
    refine ⟨w', ran, still.sound, calm', fun id => ?_⟩
    rw [shown, shown, index, still.lines id]

end Unseen

/-! ## Changes that show -/

section Changes

variable {w : World N} {e : Entry N}

/-- The effect of an entry is there already. -/
def passedOver (w : World N) (e : Entry N) : Bool :=
  match e.op with
  | .delete => (w.col.index.lookup e.id).isNone
  | .insert | .update => (w.col.index.lookup e.id).any fun cur => e.rev ≤ cur.rev
  | .other _ _ => false

/-- How the locked part may end: the entry is refused or passed over, or its line is
written and the counter raised. -/
inductive Locked (w : World N) (e : Entry N) : Except Error Bool × World N → Prop where
  | refused (reason : Error) : Locked w e (.error reason, w)
  | passed (known : passedOver w e = true) : Locked w e (.ok false, w)
  | written {w₁ w₂ : World N} {bytes : Bytes} {change : Sidx → Sidx}
      (accepted : appendBytes e = .ok bytes)
      (marked : Marked w e bytes (showing e).isSome change w₁)
      (finished : Untouched w₁ w₂) (new : passedOver w e = false) (full : Bool) :
      Locked w e (.ok full, w₂)

/-- How applying an entry may end. -/
inductive Ending (w : World N) (e : Entry N) : Except Error Unit × World N → Prop where
  | refused {w' : World N} (untouched : Untouched w w') (reason : Error) :
      Ending w e (.error reason, w')
  | passed {w' : World N} (untouched : Untouched w w') (known : passedOver w e = true) :
      Ending w e (.ok (), w')
  | written {w₁ w₂ w₃ : World N} {bytes : Bytes} {change : Sidx → Sidx}
      (untouched : Untouched w w₁) (accepted : appendBytes e = .ok bytes)
      (marked : Marked w₁ e bytes (showing e).isSome change w₂)
      (finished : Untouched w₂ w₃) (new : passedOver w e = false) (full : Bool) :
      Ending w e ((rotateIf full).run w₃)

/-- A line that is written, or not accepted. -/
theorem locked_of_line (calm : w.fault = none) {line : Proc N Unit} {after : Bytes → World N}
    {change : Sidx → Sidx}
    (ran : line.run w = match appendBytes e with
      | .ok bytes => (.ok (), after bytes)
      | .error reason => (.error (.append reason), w))
    (marked : ∀ bytes, Marked w e bytes (showing e).isSome change (after bytes))
    (new : passedOver w e = false) :
    Locked w e ((do
      line
      finishApply e.id : Proc N Bool).run w) := by
  rcases accepted : appendBytes e with reason | bytes
  · rw [accepted] at ran
    rw [Proc.run_bind_error ran]
    exact .refused _
  · rw [accepted] at ran
    have calm' := (marked bytes).steady.calm calm
    obtain ⟨w₂, made⟩ : ∃ w₂ : World N,
      w₂ = { after bytes with col := raiseIdSeq e.id (after bytes).col } := ⟨_, rfl⟩
    have finished : Untouched (after bytes) w₂ := by
      rw [made]
      exact ⟨rfl, rfl, rfl, rfl, calm'⟩
    rw [Proc.run_bind_ok ran, finishApply, Proc.run_bind_ok (Proc.run_modify _ _), ← made,
      Proc.run_bind_ok (run_syncActive finished.calm), isFull, Proc.run_read]
    exact .written accepted (marked bytes) finished new _

theorem locked_applyLocked (sound : Sound w) (calm : w.fault = none) (e : Entry N) :
    Locked w e ((applyLocked e).run w) := by
  have put (op : e.op = .insert ∨ e.op = .update) :
      Locked w e ((applyPut e (w.col.index.lookup e.id)).run w) := by
    have stale : passedOver w e = (w.col.index.lookup e.id).any fun cur => e.rev ≤ cur.rev := by
      rw [passedOver]
      rcases op with op | op <;> rw [op]
    have kept : (showing e).isSome = true := by
      rw [showing]
      rcases op with op | op <;> rw [op] <;> rfl
    rw [applyPut, ← stale]
    generalize (if (w.col.index.lookup e.id).isSome then Follow.move else .index) = follow
    split_ifs with known
    · exact .passed known
    · exact locked_of_line calm (run_putEntry calm _ _ _)
        (fun bytes => kept ▸ sound.marked_put e e.data follow bytes) (Bool.eq_false_iff.mpr known)
  rw [applyLocked, Proc.run_bind_ok (Proc.run_read _ w)]
  cases op : e.op with
  | other text unnamed => exact .refused _
  | insert => exact put (.inl op)
  | update => exact put (.inr op)
  | delete =>
    have absent : passedOver w e = (w.col.index.lookup e.id).isNone := by rw [passedOver, op]
    change Locked w e ((applyDelete e _).run w)
    rw [applyDelete, ← absent]
    split_ifs with known
    · exact .passed known
    · have gone : (showing e).isSome = false := by rw [showing, op]; rfl
      exact locked_of_line calm (run_deleteEntry calm _)
        (fun bytes => gone ▸ sound.marked_delete e bytes) (Bool.eq_false_iff.mpr known)

theorem ending_applyEntry (sound : Sound w) (calm : w.fault = none) (e : Entry N) :
    Ending w e ((applyEntry e).run w) := by
  have rest {w₁ : World N} (untouched : Untouched w w₁) : Ending w e ((do
      let full ← (applyLocked e).locked
      rotateIf full : Proc N Unit).run w₁) := by
    have same : passedOver w₁ e = passedOver w e := by
      rw [passedOver, passedOver, untouched.index]
    have locked := locked_applyLocked (untouched.sound sound) untouched.calm e
    rw [Proc.run_bind, Proc.run_locked]
    generalize (applyLocked e).run w₁ = outcome at locked
    cases locked with
    | refused reason => exact .refused untouched reason
    | passed known => exact .passed untouched (same ▸ known)
    | written accepted marked finished new full =>
      exact .written untouched accepted marked finished (same ▸ new) full
  have start : Untouched w w := ⟨rfl, rfl, rfl, rfl, calm⟩
  rw [applyEntry]
  split_ifs with keyed
  · have untouched : Untouched w _ := (guards_ensureIndex keyField true).run start
    rw [Proc.run_bind, ensureKeyIndex]
    rcases shape : (ensureIndex keyField true : Proc N Unit).run w with ⟨reason | done, w₁⟩
    all_goals rw [shape] at untouched
    · exact .refused untouched reason
    · exact rest untouched
  · exact rest start

/-- What every record shows after an attempt to apply an entry. -/
def Applied {α : Type} (w : World N) (e : Entry N) (outcome : Except Error α × World N) : Prop :=
  Sound outcome.2 ∧ outcome.2.fault = none ∧
    match outcome.1 with
    | .ok _ => ∀ id, shown outcome.2 id =
        if id = e.id then accept Prod.fst (shown w id) (showing e) else shown w id
    | .error _ => ∀ id, shown outcome.2 id = shown w id

/-- A replay guarded by revisions keeps what is there under an entry passed over. -/
theorem accept_showing (w : World N) (e : Entry N) :
    accept Prod.fst (shown w e.id) (showing e) =
      if passedOver w e then shown w e.id else showing e := by
  rw [passedOver, showing, shown]
  cases e.op <;> rcases w.col.index.lookup e.id with - | cur
  case insert.some | update.some => simp [accept]
  all_goals rfl

/-- The line of an entry makes its record show what the entry says. -/
theorem shown_marked {w' : World N} (sound : Sound w) {bytes : Bytes}
    (accepted : appendBytes e = .ok bytes) {change : Sidx → Sidx}
    (marked : Marked w e bytes (showing e).isSome change w') (id : Nat) :
    shown w' id = if id = e.id then showing e else shown w id := by
  obtain ⟨-, others, here⟩ := sound.marked accepted marked
  rw [shown, marked.lookup]
  split_ifs with same kept
  · rw [same, here, if_pos kept]
    rw [showing, lineData, accepted] at kept ⊢
    cases op : e.op with
    | insert | update => rfl
    | delete | other => rw [op] at kept; cases kept
  · rw [Option.not_isSome_iff_eq_none.mp kept]
    rfl
  · rw [others id same, shown]

/-- An entry is applied as a replay guarded by revisions says, or not at all. -/
theorem applyEntry_applied (sound : Sound w) (calm : w.fault = none) (e : Entry N) :
    Applied w e ((applyEntry e).run w) := by
  have ending := ending_applyEntry sound calm e
  have replayed := accept_showing w e
  generalize (applyEntry e).run w = outcome at ending
  cases ending with
  | refused untouched reason => exact ⟨untouched.sound sound, untouched.calm, untouched.shown_eq⟩
  | passed untouched known =>
    refine ⟨untouched.sound sound, untouched.calm, fun id => (untouched.shown_eq id).trans ?_⟩
    split_ifs with same
    · rw [same, replayed, if_pos known]
    · rfl
  | written untouched accepted marked finished new full =>
    have sound₁ := untouched.sound sound
    obtain ⟨w', rotated, sound', calm', same⟩ :=
      rotateIf_shown (finished.sound (sound₁.marked accepted marked).1) finished.calm full
    rw [rotated]
    refine ⟨sound', calm', fun id => ?_⟩
    rw [same, finished.shown_eq, shown_marked sound₁ accepted marked, untouched.shown_eq]
    split_ifs with here
    · rw [here, replayed, new]
      rfl
    · rfl

end Changes

end Scriva.Engine.Applying
