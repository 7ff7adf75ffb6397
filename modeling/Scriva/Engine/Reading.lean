import Scriva.Engine.Calls

/-!
# The lines that records are read from

What accepted procedures do to the lines of records, for a collection of which
little is assumed: its active file ends with a newline and its primary index
points into its segments.  A put changes the line of its record, a deletion
removes it, and nothing else moves.
-/

namespace Scriva.Engine.Reading

open Lib.Text Lib.Lines Lib.Keyed Store.Record Store.Ndjson Segment PrimaryIndex SecondaryIndex
open Directory Engine.Collection Writing Calls Outcome

variable {N : Type} [JsonNumber N]

/-! ## Lines of records -/

/-- The line of a record, if it can be read. -/
def storedLine (w : World N) (id : Nat) : Option (Entry N) :=
  (w.col.index.lookup id).bind fun loc => (readEntry w id loc).toOption

/-- The active file is complete and has the size noted for it, and the primary
index points into the segments. -/
structure Sound (w : World N) : Prop where
  attached : w.col.active.orphaned = false
  file : ∃ file, w.disk.segment w.col.active.number = some file ∧
    file.length = w.col.active.size ∧ (file ≠ [] → file.getLast? = some newline)
  apart : w.col.active.number ∉ w.col.sealed.map Handle.number
  known : ∀ id loc, w.col.index.lookup id = some loc → loc.segment ∈ allSegments w.col ∧
    (loc.segment = w.col.active.number → loc.offset < w.col.active.size)

/-! ## Reading beside an append -/

omit [JsonNumber N] in
theorem scannedLines_line {line : Bytes} (plain : newline ∉ line) (rest : Bytes) :
    ∃ lines, scannedLines (line ++ newline :: rest) = line :: lines := by
  rw [scannedLines, splitLines_line rest plain]
  rcases splitLines rest with ⟨lines, tail⟩
  by_cases ended : tail = []
  · exact ⟨lines, by simp [ended]⟩
  · exact ⟨lines ++ [tail], by simp [ended]⟩

/-- What is appended to a complete file is not read with the lines before. -/
theorem readAt_append {file : Bytes} (complete : file ≠ [] → file.getLast? = some newline)
    {offset : Nat} (inside : offset < file.length) (bytes : Bytes) :
    readAt (N := N) (file ++ bytes) offset = readAt file offset := by
  have filled : file ≠ [] := by
    rintro rfl
    cases inside
  have ending : newline ∈ file.drop offset := by
    have last : (file.drop offset).getLast? = some newline := by
      rw [List.getLast?_drop, if_neg (by omega)]
      exact complete filled
    exact List.mem_of_getLast? last
  obtain ⟨line, rest, split, plain⟩ := List.eq_append_cons_of_mem ending
  obtain ⟨lines, before⟩ := scannedLines_line plain rest
  obtain ⟨more, after⟩ := scannedLines_line plain (rest ++ bytes)
  rw [readAt, readAt, List.drop_append_of_le_length inside.le, split, before]
  rw [List.append_assoc, List.cons_append, after]

/-- What is appended to a file is read as if it stood alone. -/
theorem readAt_end (file bytes : Bytes) :
    readAt (N := N) (file ++ bytes) file.length = readAt bytes 0 := by
  rw [readAt, List.drop_left, readAt, List.drop_zero]

variable {e : Entry N} {bytes : Bytes} {w' : World N}

/-- What an append writes is read as its entry, or not at all. -/
theorem readAt_appendBytes (accepted : appendBytes e = .ok bytes) :
    readAt bytes 0 = some e.written ∨ readAt (N := N) bytes 0 = none := by
  obtain ⟨raw, rfl, plain, fits, whole, decoded⟩ := appendBytes_shape accepted
  obtain ⟨lines, scanned⟩ := scannedLines_line plain []
  rw [readAt, List.drop_zero, scanned]
  simp only [fits, if_true, whole, decoded]
  split_ifs
  · exact .inl rfl
  · exact .inr rfl

/-! ## What steps do to the lines of records -/

/-- Nothing that a record shows has changed, and the indexes are still there. -/
structure Still (w w' : World N) : Prop where
  sound : Sound w'
  lines : ∀ id, storedLine w' id = storedLine w id
  sidx : w.col.sidx ⊆ w'.col.sidx
  enc : w'.col.enc = w.col.enc

theorem Still.refl {w : World N} (sound : Sound w) : Still w w :=
  ⟨sound, fun _ => rfl, List.Subset.refl _, rfl⟩

theorem Still.trans {a b c : World N} (first : Still a b) (second : Still b c) : Still a c where
  sound := second.sound
  lines := fun id => (second.lines id).trans (first.lines id)
  sidx := List.Subset.trans first.sidx second.sidx
  enc := second.enc.trans first.enc

/-- Changes beside the segments and the primary index. -/
theorem Still.of_eq {w : World N} (sound : Sound w) (index : w'.col.index = w.col.index)
    (sealed : w'.col.sealed = w.col.sealed) (active : w'.col.active = w.col.active)
    (files : w'.disk.files = w.disk.files) (sidx : w.col.sidx ⊆ w'.col.sidx)
    (enc : w'.col.enc = w.col.enc) : Still w w' := by
  have numbers : allSegments w'.col = allSegments w.col := by
    rw [allSegments, allSegments, sealed, active]
  have segment : w'.disk.segment = w.disk.segment := by
    funext number
    rw [Disk.segment, Disk.segment, files]
  refine ⟨⟨?_, ?_, ?_, ?_⟩, ?_, sidx, enc⟩
  · rw [active]
    exact sound.attached
  · rw [active, segment]
    exact sound.file
  · rw [active, sealed]
    exact sound.apart
  · rw [index, numbers, active]
    exact sound.known
  · intro id
    simp only [storedLine, readEntry, index, numbers, segment]

section Steps

variable {w : World N}

omit [JsonNumber N] in
theorem lookup_setEntry (e : Entry N) (offset : Nat) (c : Collection N) (id : Nat) :
    (setEntry e offset c).index.lookup id =
      if id = e.id then some ⟨c.active.number, offset, e.rev, e.expiresAt, e.epoch⟩
      else c.index.lookup id :=
  lookup_insert_if _ _ _ _

/-- One line has been appended to the active segment. -/
structure Appended (w : World N) (bytes : Bytes) (w' : World N) : Prop where
  sealed : w'.col.sealed = w.col.sealed
  active : w'.col.active = { w.col.active with size := w.col.active.size + bytes.length }
  segment : w'.disk.segment = Function.update w.disk.segment w.col.active.number
    ((w.disk.segment w.col.active.number).map (· ++ bytes))

section

omit [JsonNumber N]

theorem Appended.allSegments_eq (appended : Appended w bytes w') :
    allSegments w'.col = allSegments w.col := by
  rw [allSegments, allSegments, appended.sealed, appended.active]

theorem Sound.afterAppend_eq (sound : Sound w) (bytes : Bytes) :
    afterAppend w bytes = { w.perform (.append (.segment w.col.active.number) bytes) with
      col := { w.col with active :=
        { w.col.active with size := w.col.active.size + bytes.length } } } := by
  rw [afterAppend, if_neg (by rw [sound.attached]; exact Bool.false_ne_true)]

theorem Sound.appended (sound : Sound w) (bytes : Bytes) :
    Appended w bytes (afterAppend w bytes) := by
  rw [sound.afterAppend_eq]
  obtain ⟨file, found, -⟩ := sound.file
  refine ⟨rfl, rfl, ?_⟩
  funext number
  change (DiskStep.apply w.disk _).segment number = _
  rw [Disk.segment_append, Function.update_apply, found]
  rfl

theorem Appended.of_eq {w'' : World N} (appended : Appended w bytes w')
    (sealed : w''.col.sealed = w'.col.sealed) (active : w''.col.active = w'.col.active)
    (disk : w''.disk = w'.disk) : Appended w bytes w'' where
  sealed := sealed.trans appended.sealed
  active := active.trans appended.active
  segment := by rw [disk, appended.segment]

end

/-- A collection is sound after an append if its index points at what it
pointed at, or at the new line. -/
theorem Sound.grow (sound : Sound w) (accepted : appendBytes e = .ok bytes)
    (appended : Appended w bytes w')
    (points : ∀ id loc, w'.col.index.lookup id = some loc →
      w.col.index.lookup id = some loc ∨
        (loc.segment = w.col.active.number ∧ loc.offset = w.col.active.size)) : Sound w' := by
  obtain ⟨file, found, size, complete⟩ := sound.file
  obtain ⟨raw, shape, -⟩ := appendBytes_shape accepted
  have filled : 0 < bytes.length := by
    rw [shape]
    simp
  refine ⟨?_, ?_, ?_, ?_⟩
  · rw [appended.active]
    exact sound.attached
  · rw [appended.active]
    refine ⟨file ++ bytes, ?_, by rw [List.length_append, size], fun _ => ?_⟩
    · rw [appended.segment, Function.update_self, found]
      rfl
    · rw [shape, ← List.append_assoc, List.getLast?_concat]
  · rw [appended.active, appended.sealed]
    exact sound.apart
  · intro id loc there
    rw [appended.allSegments_eq, appended.active]
    rcases points id loc there with old | ⟨segment, offset⟩
    · obtain ⟨known, inside⟩ := sound.known id loc old
      exact ⟨known, fun same => (inside same).trans_le (Nat.le_add_right _ _)⟩
    · refine ⟨by simp [allSegments, segment], fun _ => ?_⟩
      rw [offset]
      exact Nat.lt_add_of_pos_right filled

theorem Sound.readEntry_appended (sound : Sound w) (appended : Appended w bytes w') {id : Nat}
    {loc : IndexEntry} (found : w.col.index.lookup id = some loc) :
    readEntry w' id loc = readEntry w id loc := by
  obtain ⟨file, there, size, complete⟩ := sound.file
  obtain ⟨known, inside⟩ := sound.known id loc found
  have file? : (w'.disk.segment loc.segment).bind (fun file => readAt (N := N) file loc.offset) =
      (w.disk.segment loc.segment).bind fun file => readAt file loc.offset := by
    rw [appended.segment, Function.update_apply]
    split_ifs with here
    · rw [here, there, Option.map_some, Option.bind_some, Option.bind_some]
      exact readAt_append complete (size ▸ inside here) bytes
    · rfl
  simp only [readEntry, appended.allSegments_eq, known, if_true, file?]

/-- A record that the index still knows where it was is read as before. -/
theorem Sound.storedLine_appended (sound : Sound w) (appended : Appended w bytes w') {id : Nat}
    (same : w'.col.index.lookup id = w.col.index.lookup id) :
    storedLine w' id = storedLine w id := by
  rw [storedLine, storedLine, same]
  rcases found : w.col.index.lookup id with - | loc
  · rfl
  · rw [Option.bind_some, Option.bind_some, sound.readEntry_appended appended found]

/-- The place of the line of an entry. -/
def placeOf (w : World N) (e : Entry N) : IndexEntry :=
  ⟨w.col.active.number, w.col.active.size, e.rev, e.expiresAt, e.epoch⟩

/-- The line of an entry has been appended and the indexes have followed: the
record is known where the line is, or no longer. -/
structure Marked (w : World N) (e : Entry N) (bytes : Bytes) (kept : Bool)
    (change : Sidx → Sidx) (w' : World N) : Prop where
  steady : Steady w w'
  appended : Appended w bytes w'
  sidx : w'.col.sidx = w.col.sidx.map change
  lookup : ∀ id, w'.col.index.lookup id =
    if id = e.id then (if kept then some (placeOf w e) else none) else w.col.index.lookup id

theorem Sound.marked_put (sound : Sound w) (e : Entry N) (plain : Option (Data N))
    (follow : Follow) (bytes : Bytes) :
    Marked w e bytes true (follow.apply e.id plain) (afterPut w e plain follow bytes) where
  steady := steady_afterPut w e plain follow bytes
  appended := (sound.appended bytes).of_eq rfl rfl rfl
  sidx := by
    rw [← sidx_afterAppend w bytes]
    rfl
  lookup id := by
    change (setEntry e w.col.active.size (afterAppend w bytes).col).index.lookup id = _
    rw [lookup_setEntry, sound.afterAppend_eq]
    rfl

omit [JsonNumber N] in
theorem Sound.marked_delete (sound : Sound w) (e : Entry N) (bytes : Bytes) :
    Marked w e bytes false (fun s => s.remove e.id) (afterDelete w e bytes) where
  steady := steady_afterDelete w e bytes
  appended := (sound.appended bytes).of_eq rfl rfl rfl
  sidx := by
    rw [← sidx_afterAppend w bytes]
    rfl
  lookup id := by
    change ((afterAppend w bytes).col.index.erase e.id).lookup id = _
    rw [lookup_erase_if, sound.afterAppend_eq]
    rfl

/-- The lines of records after that of one was written. -/
theorem Sound.marked (sound : Sound w) (accepted : appendBytes e = .ok bytes) {kept : Bool}
    {change : Sidx → Sidx} (marked : Marked w e bytes kept change w') :
    Sound w' ∧ (∀ id, id ≠ e.id → storedLine w' id = storedLine w id) ∧
      storedLine w' e.id = if kept then readAt bytes 0 else none := by
  obtain ⟨-, appended, -, lookup⟩ := marked
  refine ⟨sound.grow accepted appended ?_, ?_, ?_⟩
  · intro id loc found
    rw [lookup] at found
    split_ifs at found with here
    · obtain rfl := Option.some.inj found
      exact .inr ⟨rfl, rfl⟩
    · exact .inl found
  · intro id differs
    exact sound.storedLine_appended appended (by rw [lookup, if_neg differs])
  · rw [storedLine, lookup, if_pos rfl]
    split_ifs
    · obtain ⟨file, there, size, -⟩ := sound.file
      have inside : w.col.active.number ∈ allSegments w'.col := by
        rw [appended.allSegments_eq]
        simp [allSegments]
      have grown : w'.disk.segment w.col.active.number = some (file ++ bytes) := by
        rw [appended.segment, Function.update_self, there]
        rfl
      rw [Option.bind_some]
      simp only [placeOf, readEntry, inside, if_true, grown, Option.bind_some, ← size, readAt_end]
      rcases readAt (N := N) bytes 0 with - | read
      · rfl
      · rfl
    · rfl

end Steps

/-! ## Procedures -/

section Procedures

variable {w : World N}

theorem yields_appendActive (e : Entry N) :
    Yields (appendActive e) w fun offset w' => offset = w.col.active.size ∧
      ∃ bytes fault, appendBytes e = .ok bytes ∧ w' = { afterAppend w bytes with fault } := by
  rw [appendActive]
  refine yields_check ?_
  intro bytes passed
  have accepted : appendBytes e = .ok bytes := by
    rcases given : appendBytes e with reason | written
    · rw [given] at passed
      cases passed
    · rw [given] at passed
      cases passed
      rfl
  refine yields_read ?_
  split_ifs with orphaned
  · refine yields_access fun fault => yields_modify (yields_pure ⟨rfl, bytes, fault, accepted, ?_⟩)
    rw [afterAppend, if_pos orphaned]
  · refine yields_perform fun fault =>
      yields_modify (yields_pure ⟨rfl, bytes, fault, accepted, ?_⟩)
    rw [afterAppend, if_neg orphaned]
    rfl

theorem yields_putEntry (e : Entry N) (plain : Option (Data N)) (follow : Follow) :
    Yields (putEntry e plain follow) w fun _ w' => ∃ bytes fault,
      appendBytes e = .ok bytes ∧ w' = { afterPut w e plain follow bytes with fault } := by
  refine (yields_appendActive e).bind ?_
  rintro _ _ ⟨rfl, bytes, fault, accepted, rfl⟩
  refine yields_modify ?_
  rintro _ _ ⟨⟩
  exact ⟨bytes, fault, accepted, rfl⟩

theorem yields_deleteEntry (e : Entry N) :
    Yields (deleteEntry e) w fun _ w' => ∃ bytes fault,
      appendBytes e = .ok bytes ∧ w' = { afterDelete w e bytes with fault } := by
  refine (yields_appendActive e).bind ?_
  rintro _ _ ⟨rfl, bytes, fault, accepted, rfl⟩
  refine yields_modify ?_
  rintro _ _ ⟨⟩
  exact ⟨bytes, fault, accepted, rfl⟩

theorem yields_syncActive (sound : Sound w) :
    Yields (syncActive : Proc N Unit) w fun _ w' => Still w w' := by
  have same (fault : Option (Nat × Nat)) : Still w { w with fault } :=
    .of_eq sound rfl rfl rfl rfl (List.Subset.refl _) rfl
  refine yields_read ?_
  split_ifs
  · refine (yields_accessed w).imp ?_
    rintro _ _ ⟨fault, rfl⟩
    exact same fault
  · exact yields_pure (.refl sound)

theorem yields_publishCommit (sound : Sound w) (committed : List (Entry N)) :
    Yields (publishCommit committed) w fun _ w' => Still w w' := by
  rintro _ _ ⟨⟩
  exact .of_eq sound rfl rfl rfl rfl (List.Subset.refl _) rfl

/-- What comes after the lines of a write: the flush, and the entries shipped. -/
theorem yields_flush (sound : Sound w) (committed : List (Entry N)) :
    Yields (do
      syncActive
      publishCommit committed) w fun _ w' => Still w w' := by
  refine (yields_syncActive sound).bind ?_
  intro _ _ still
  exact (yields_publishCommit still.sound committed).imp fun _ _ => still.trans

/-- Noting the id counter touches the metadata only, also if it fails. -/
theorem persistMeta_attempt (sound : Sound w) :
    Yields (persistMeta.attempt : Proc N Unit) w fun _ w' => Still w w' := by
  rintro _ w' ran
  rw [Proc.run_attempt] at ran
  obtain ⟨-, rfl⟩ := Prod.mk.inj ran
  rw [persistMeta, Proc.run_bind_ok (Proc.run_read _ w)]
  obtain ⟨col, disk, feed, trace, fault⟩ := w
  rcases fault with - | ⟨remaining, arrived⟩
  · exact .of_eq sound rfl rfl rfl rfl (List.Subset.refl _) rfl
  · cases remaining with
    | zero =>
      refine .of_eq sound rfl rfl rfl ?_ (List.Subset.refl _) rfl
      change (if arrived = 0 then disk else _ : Disk).files = disk.files
      split_ifs
      · rfl
      · rfl
    | succ remaining => exact .of_eq sound rfl rfl rfl rfl (List.Subset.refl _) rfl

omit [JsonNumber N] in
/-- The file that is opened for appending is complete. -/
theorem yields_opened (number : Nat) :
    Yields (openActiveSegment (.segment number) : Proc N Nat) w fun size w' =>
      w'.col = w.col ∧
      (∀ other, other ≠ number → w'.disk.segment other = w.disk.segment other) ∧
      ∃ file, w'.disk.segment number = some file ∧ file.length = size ∧
        (file ≠ [] → file.getLast? = some newline) := by
  refine (yields_openActiveSegment number).imp ?_
  rintro size w' ⟨col, -, -, rfl, segment⟩
  obtain ⟨cut, size⟩ := take_recoverPartialLine ((w.disk.segment number).getD [])
  refine ⟨col, fun other differs => (segment other).trans (if_neg differs), _,
    (segment number).trans (if_pos rfl), ?_⟩
  rw [cut]
  exact ⟨size, getLast?_joinLines⟩

theorem nextNumber_not_mem (handles : List Handle) :
    nextNumber handles ∉ handles.map Handle.number := by
  intro member
  have below := ((foldl_max_le_iff (handles.map Handle.number) 0 _).mp le_rfl).2 _ member
  rw [nextNumber] at below
  omega

theorem yields_rotateSegment (sound : Sound w) :
    Yields (rotateSegment : Proc N Unit) w fun _ w' => Still w w' := by
  refine yields_locked (yields_access fun fault => yields_modify (yields_read ?_))
  let sealed := w.col.sealed ++ [w.col.active]
  refine (yields_opened (nextNumber sealed)).bind ?_
  rintro size w₁ ⟨same, others, file, found, length, complete⟩
  have col : w₁.col = { w.col with sealed } := same
  refine yields_modify (yields_read ?_)
  obtain ⟨w₂, made⟩ : ∃ w₂ : World N, w₂ = { w₁ with col := { w₁.col with
    active := ⟨nextNumber sealed, size, false⟩ } } := ⟨_, rfl⟩
  have sealed₂ : w₂.col.sealed = sealed := by
    rw [made]
    change w₁.col.sealed = sealed
    rw [col]
  have active₂ : w₂.col.active = ⟨nextNumber sealed, size, false⟩ := by rw [made]
  have index₂ : w₂.col.index = w.col.index := by
    rw [made]
    change w₁.col.index = w.col.index
    rw [col]
  have sidx₂ : w₂.col.sidx = w.col.sidx := by
    rw [made]
    change w₁.col.sidx = w.col.sidx
    rw [col]
  have enc₂ : w₂.col.enc = w.col.enc := by
    rw [made]
    change w₁.col.enc = w.col.enc
    rw [col]
  have disk₂ : w₂.disk = w₁.disk := by rw [made]
  have numbers : allSegments w₂.col = allSegments w.col ++ [nextNumber sealed] := by
    rw [allSegments, allSegments, sealed₂, active₂, List.map_append]
    rfl
  have past : nextNumber sealed ∉ allSegments w.col := by
    have fresh := nextNumber_not_mem sealed
    rwa [List.map_append] at fresh
  have still : Still w w₂ := by
    refine ⟨⟨by rw [active₂], ?_, ?_, ?_⟩, ?_, by rw [sidx₂]; exact List.Subset.refl _, enc₂⟩
    · rw [active₂, disk₂]
      exact ⟨file, found, length, complete⟩
    · rw [active₂, sealed₂]
      exact nextNumber_not_mem sealed
    · intro id loc there
      rw [index₂] at there
      obtain ⟨known, -⟩ := sound.known id loc there
      rw [numbers, active₂]
      refine ⟨List.mem_append_left _ known, ?_⟩
      intro here
      change loc.segment = nextNumber sealed at here
      rw [here] at known
      exact absurd known past
    · intro id
      rw [storedLine, storedLine, index₂]
      rcases there : w.col.index.lookup id with - | loc
      · rfl
      · obtain ⟨known, -⟩ := sound.known id loc there
        have differs : loc.segment ≠ nextNumber sealed := fun same => past (same ▸ known)
        have kept : loc.segment ∈ allSegments w₂.col := by
          rw [numbers]
          exact List.mem_append_left _ known
        have same : w₂.disk.segment loc.segment = w.disk.segment loc.segment := by
          rw [disk₂]
          exact others loc.segment differs
        simp only [Option.bind_some, readEntry, kept, known, if_true, same]
  have noted (w₃ : World N) (step : Still w w₃) :
      Yields (persistMeta.attempt : Proc N Unit) w₃ fun _ w' => Still w w' :=
    (persistMeta_attempt step.sound).imp fun _ _ => step.trans
  rw [← made]
  split_ifs
  · refine yields_access fun fault => noted _ (still.trans ?_)
    exact .of_eq still.sound rfl rfl rfl rfl (List.Subset.refl _) rfl
  · exact noted _ still

theorem yields_rotateIf (sound : Sound w) (full : Bool) :
    Yields (rotateIf full : Proc N Unit) w fun _ w' => Still w w' := by
  cases full with
  | true => exact yields_rotateSegment sound
  | false => exact yields_pure (.refl sound)

theorem yields_readLatest (segments : List Nat) (latest : Map Nat (Option (Option (Data N)))) :
    Yields (readLatest segments latest) w fun _ w' => ∃ fault, w' = { w with fault } := by
  induction segments generalizing w latest with
  | nil => exact yields_pure ⟨w.fault, rfl⟩
  | cons segment segments ih =>
    refine yields_access fun fault => yields_read ?_
    split
    · exact yields_fail _
    · rename_i entries _
      refine (ih (entries.foldl Sidx.latestEntry latest)).imp ?_
      rintro _ _ ⟨again, rfl⟩
      exact ⟨again, rfl⟩

theorem yields_persistIndexOn (sound : Sound w) (field : String) :
    Yields (persistIndexOn field : Proc N Unit) w fun _ w' => Still w w' := by
  refine yields_read ?_
  split
  · exact yields_pure (.refl sound)
  · rw [persistSidx]
    split_ifs
    · refine (yields_performed _ w).imp ?_
      rintro _ _ ⟨fault, rfl⟩
      exact .of_eq sound rfl rfl rfl rfl (List.Subset.refl _) rfl
    · exact yields_fail _

theorem yields_ensureIndex (sound : Sound w) (field : String) (unique : Bool) :
    Yields (ensureIndex field unique : Proc N Unit) w fun _ w' => Still w w' := by
  refine yields_read ?_
  split_ifs with hidden
  · exact yields_fail _
  intro value w' ran
  rcases known : findIndex w.col field with - | t
  · -- the index is registered empty, and filled from the segments
    let registered : World N := { w with col := { w.col with
      sidx := w.col.sidx ++ [newSecondaryIndex field unique] } }
    have first : (registerIndex field unique : Proc N Bool).run w = (.ok true, registered) := by
      simp [registerIndex, Proc.run, known, registered]
    rw [Proc.run_bind_ok first, if_pos rfl] at ran
    have others (t : Sidx) (member : t ∈ w.col.sidx) : t.field ≠ field := by
      have absent := List.find?_eq_none.mp known t member
      simpa using absent
    have filled : Yields (rebuildSidx (N := N) field (allSegments registered.col)) registered
        fun _ w' => Still w w' := by
      refine (yields_readLatest _ _).bind ?_
      rintro latest _ ⟨fault, rfl⟩ _ _ ⟨⟩
      refine .of_eq sound rfl rfl rfl rfl ?_ rfl
      intro t member
      refine List.mem_map.mpr ⟨t, List.mem_append_left _ member, ?_⟩
      rw [if_neg (others t member)]
    have rest : Yields (do
        let segments ← Proc.read fun w => allSegments w.col
        (rebuildSidx (N := N) field segments).onError (Proc.modify (dropIndexEntry field))
        persistIndexOn field) registered fun _ w' => Still w w' := by
      refine yields_read ((filled.onError _).bind ?_)
      intro _ w₁ still
      exact (yields_persistIndexOn still.sound field).imp fun _ _ => still.trans
    exact rest value w' ran
  · have first : (registerIndex field unique : Proc N Bool).run w = (.ok false, w) := by
      simp [registerIndex, Proc.run, known]
    rw [Proc.run_bind_ok first, if_neg Bool.false_ne_true] at ran
    cases ran
    exact .refl sound

end Procedures

end Scriva.Engine.Reading
