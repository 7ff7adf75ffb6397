import Scriva.Engine.Opening

/-!
# Process deaths

A process that dies in the middle of a call leaves its directory after some of
the steps of the call, the next one perhaps half done.  The calls that write
append lines to the active file, start new active files, and write files that
are no segments; so whenever the process dies, the segment files hold the lines
up to some place, the last one followed by an unfinished line, and the next
open finds these lines.
-/

namespace Scriva.Engine.Crash

open Lib.Text Store.Record Store.Ndjson Segment PrimaryIndex Directory Engine.Collection Load
open Coherence Writing Calls Opening

variable {N : Type} [JsonNumber N]

/-! ## The steps of a call that writes -/

/-- A step on a file that is no segment: the metadata or a secondary index. -/
def aside : DiskStep → Bool
  | .writeMeta _ | .writeSidx _ _ => true
  | _ => false

/-- The steps of a call that writes, seen from the segments. -/
inductive Grows : Segments N → List DiskStep → Segments N → Prop where
  | refl (s : Segments N) : Grows s [] s
  | line {s s' : Segments N} {steps : List DiskStep} (line : SegmentLine N)
      (rest : Grows (s.append line) steps s') :
      Grows s (.append (.segment s.number) (fileOf [line]) :: steps) s'
  | rotate {s s' : Segments N} {steps : List DiskStep} (rest : Grows s.rotate steps s') :
      Grows s (.create (.segment (s.number + 1)) :: steps) s'
  | aside {s s' : Segments N} {step : DiskStep} {steps : List DiskStep}
      (other : aside step = true) (rest : Grows s steps s') : Grows s (step :: steps) s'

variable {tail : Bytes}

section Grows

variable {s s' s'' : Segments N} {steps more : List DiskStep} {disk : Disk}

theorem Grows.trans (first : Grows s steps s') (second : Grows s' more s'') :
    Grows s (steps ++ more) s'' := by
  induction first with
  | refl s => exact second
  | line line _ ih => exact .line line (ih second)
  | rotate _ ih => exact .rotate (ih second)
  | aside other _ ih => exact .aside other (ih second)

/-- Lines are only added, after those that are there. -/
theorem Grows.log_prefix (grows : Grows s steps s') : s.log <+: s'.log := by
  induction grows with
  | refl s => exact List.prefix_rfl
  | line line _ ih =>
    rw [Segments.log_append] at ih
    exact (List.prefix_append _ _).trans ih
  | rotate _ ih => rwa [Segments.log_rotate] at ih
  | aside _ _ ih => exact ih

theorem Grows.number_le (grows : Grows s steps s') : s.number ≤ s'.number := by
  induction grows with
  | refl s => exact le_rfl
  | line _ _ ih => exact ih
  | rotate _ ih => exact (Nat.le_succ _).trans ih
  | aside _ _ ih => exact ih

omit [JsonNumber N] in
theorem segment_aside (disk : Disk) {step : DiskStep} (other : aside step = true) (number : Nat) :
    (DiskStep.apply disk step).segment number = disk.segment number := by
  cases step with
  | writeMeta | writeSidx => rfl
  | _ => cases other

theorem onDisk_aside (onDisk : OnDisk disk s.layout) {step : DiskStep}
    (other : aside step = true) : OnDisk (DiskStep.apply disk step) s.layout := by
  have same := segment_aside disk other
  constructor
  · intro segment member
    rw [same]
    exact onDisk.holds segment member
  · intro number present
    rw [same] at present
    exact onDisk.only number present

/-- No step of such a call is about the manifest of a compaction. -/
theorem Grows.manifest_after (grows : Grows s steps s') (disk : Disk) :
    (disk.after steps).manifest = disk.manifest := by
  induction grows generalizing disk with
  | refl s => rfl
  | line line _ ih => exact ih _
  | rotate _ ih =>
    refine (ih _).trans ?_
    rw [DiskStep.apply]
    split_ifs
    · rfl
    · rfl
  | @aside _ _ step _ other _ ih =>
    refine (ih _).trans ?_
    cases step with
    | writeMeta | writeSidx => rfl
    | _ => cases other

theorem Grows.onDisk (grows : Grows s steps s') (onDisk : OnDisk disk s.layout) :
    OnDisk (disk.after steps) s'.layout := by
  induction grows generalizing disk with
  | refl s => exact onDisk
  | line line _ ih => exact ih (onDisk_append onDisk line)
  | rotate _ ih => exact ih (onDisk_rotate onDisk)
  | aside other _ ih => exact ih (onDisk_aside onDisk other)

theorem stands_of_onDisk (onDisk : OnDisk disk s.layout) (named : s.number < 10 ^ 6) :
    Stands disk s [] := by
  refine Stands.of_onDisk onDisk ?_
  intro number member
  rcases List.mem_append.mp member with old | last
  · obtain ⟨segment, inside, rfl⟩ := List.mem_map.mp old
    exact (numbers_lt s inside).trans named
  · rw [List.mem_singleton.mp last]
    exact named

theorem stands_of_torn (onDisk : OnDisk disk s.layout) (named : s.number < 10 ^ 6)
    (unfinished : newline ∉ tail) :
    Stands (DiskStep.apply disk (.append (.segment s.number) tail)) s tail := by
  have stands := stands_of_onDisk onDisk named
  have last := stands.last
  rw [List.append_nil] at last
  refine ⟨?_, ?_, ?_, unfinished, stands.named⟩
  · intro segment member
    rw [Disk.segment_append, if_neg (numbers_lt s member).ne]
    exact stands.holds segment member
  · rw [Disk.segment_append, if_pos rfl, last]
    rfl
  · intro number present
    rw [Disk.segment_append] at present
    split_ifs at present with here
    · exact List.mem_append_right _ (List.mem_singleton.mpr here)
    · exact stands.only number present

/-- A directory that holds the lines up to some place between `s` and `s'`. -/
def Between (s s' : Segments N) (disk disk' : Disk) : Prop :=
  ∃ t tail, Stands disk' t tail ∧ s.log <+: t.log ∧ t.log <+: s'.log ∧
    disk'.manifest = disk.manifest

theorem between_start (onDisk : OnDisk disk s.layout) (named : s.number < 10 ^ 6)
    (below : s.log <+: s'.log) : Between s s' disk disk :=
  ⟨s, [], stands_of_onDisk onDisk named, List.prefix_rfl, below, rfl⟩

theorem Between.earlier {t : Segments N} {disk₁ disk' : Disk} (between : Between t s' disk₁ disk')
    (below : s.log <+: t.log) (manifest : disk₁.manifest = disk.manifest) :
    Between s s' disk disk' := by
  obtain ⟨u, tail, stands, after, before, same⟩ := between
  exact ⟨u, tail, stands, below.trans after, before, same.trans manifest⟩

/-- The first step of a call, half done. -/
theorem Grows.torn_head {step : DiskStep} (grows : Grows s (step :: steps) s')
    (onDisk : OnDisk disk s.layout) (named : s'.number < 10 ^ 6) (arrived : Nat) :
    Between s s' disk (step.torn disk arrived) := by
  have early : s.number < 10 ^ 6 := grows.number_le.trans_lt named
  have start := between_start onDisk early grows.log_prefix
  -- a step that is no append has taken effect or not
  have whole {t : Segments N} (rest : Grows t steps s') (below : s.log <+: t.log)
      (after : OnDisk (DiskStep.apply disk step) t.layout)
      (manifest : (DiskStep.apply disk step).manifest = disk.manifest) :
      Between s s' disk (DiskStep.apply disk step) := by
    have there := between_start after (rest.number_le.trans_lt named) rest.log_prefix
    exact there.earlier below manifest
  cases grows with
  | line line rest =>
    by_cases finished : arrived ≤ line.raw.length
    · have part : (fileOf [line]).take arrived = line.raw.take arrived := by
        rw [fileOf_singleton, List.take_append_of_le_length finished]
      refine ⟨s, line.raw.take arrived, ?_, List.prefix_rfl, ?_, rfl⟩
      · rw [DiskStep.torn, part]
        exact stands_of_torn onDisk early fun member => line.plain (List.mem_of_mem_take member)
      · exact ((Segments.log_append s line).symm ▸ List.prefix_append _ _).trans
          rest.log_prefix
    · have all : (fileOf [line]).take arrived = fileOf [line] := by
        apply List.take_of_length_le
        rw [fileOf_singleton, List.length_append, List.length_singleton]
        omega
      rw [DiskStep.torn, all]
      refine whole rest ?_ (onDisk_append onDisk line) rfl
      rw [Segments.log_append]
      exact List.prefix_append _ _
  | rotate rest =>
    change Between s s' disk (if arrived = 0 then disk else DiskStep.apply disk _)
    split_ifs
    · exact start
    · refine whole rest ?_ (onDisk_rotate onDisk) ?_
      · rw [Segments.log_rotate]
      · rw [DiskStep.apply]
        split_ifs
        · rfl
        · rfl
  | aside other rest =>
    cases step with
    | writeMeta | writeSidx =>
      change Between s s' disk (if arrived = 0 then disk else DiskStep.apply disk _)
      split_ifs
      · exact start
      · exact whole rest List.prefix_rfl (onDisk_aside onDisk other) rfl
    | _ => cases other

/-- Whenever the process dies during a call that writes, the directory holds the
lines up to some place. -/
theorem Grows.crash (grows : Grows s steps s') (onDisk : OnDisk disk s.layout)
    (named : s'.number < 10 ^ 6) (done arrived : Nat) :
    Between s s' disk (disk.crash steps done arrived) := by
  induction done generalizing s steps disk with
  | zero =>
    cases steps with
    | nil =>
      cases grows
      exact between_start onDisk named List.prefix_rfl
    | cons step steps => exact grows.torn_head onDisk named arrived
  | succ done ih =>
    cases grows with
    | refl => exact between_start onDisk named List.prefix_rfl
    | line line rest =>
      refine (ih rest (onDisk_append onDisk line)).earlier ?_ rfl
      rw [Segments.log_append]
      exact List.prefix_append _ _
    | rotate rest =>
      refine (ih rest (onDisk_rotate onDisk)).earlier ?_ ?_
      · rw [Segments.log_rotate]
      · exact (Grows.rotate (Grows.refl s.rotate)).manifest_after disk
    | @aside _ _ step steps other rest =>
      refine (ih rest (onDisk_aside onDisk other)).earlier List.prefix_rfl ?_
      exact (Grows.aside other (Grows.refl s)).manifest_after disk

end Grows

/-! ## Complete lines -/

/-- The number of complete lines in the segment files. -/
def completeLines (disk : Disk) : Nat :=
  ((segmentPaths disk).map fun number => ((disk.segment number).getD []).count newline).sum

theorem count_newline_fileOf (lines : List (SegmentLine N)) :
    (fileOf lines).count newline = lines.length := by
  induction lines with
  | nil => rfl
  | cons line lines ih =>
    have here : (fileOf [line]).count newline = 1 := by
      rw [fileOf_singleton, List.count_append, List.count_eq_zero.mpr line.plain]
      rfl
    rw [← List.singleton_append, fileOf_append, List.count_append, here, ih,
      List.length_append, List.length_singleton]

theorem length_locateLines (segment offset : Nat) (lines : List (SegmentLine N)) :
    (locateLines segment offset lines).length = lines.length := by
  have entries := congrArg List.length (map_entry_locateLines segment offset lines)
  rwa [List.length_map, List.length_map] at entries

theorem completeLines_of_stands {disk : Disk} {s : Segments N} (stands : Stands disk s tail) :
    completeLines disk = s.log.length := by
  have sealed : s.sealed.map (fun segment => ((disk.segment segment.1).getD []).count newline) =
      s.sealed.map fun segment => (locateLines segment.1 0 segment.2).length := by
    apply List.map_congr_left
    intro segment member
    rw [stands.holds segment member, Option.getD_some, count_newline_fileOf, length_locateLines]
  have last : ((disk.segment s.number).getD []).count newline = s.active.length := by
    rw [stands.last, Option.getD_some, List.count_append, count_newline_fileOf,
      List.count_eq_zero.mpr stands.unfinished, Nat.add_zero]
  have total : s.log.length =
      (s.sealed.map fun segment => (locateLines segment.1 0 segment.2).length).sum +
        s.active.length := by
    rw [Segments.log, located, List.length_flatMap, Segments.layout, List.map_append,
      List.sum_append]
    simp [length_locateLines]
  rw [completeLines, stands.lies.segmentPaths_eq (by rw [stands.last]; rfl), Segments.numbers,
    List.map_append, List.sum_append,
    List.map_map, total, ← sealed, List.map_singleton, List.sum_singleton, last]
  rfl

/-! ## The steps of procedures -/

/-- The segments of a collection, with no failure to come, are in its
directory. -/
structure Filed (enc : Option (Encryptor N)) (w : World N) (s : Segments N) : Prop where
  enc : w.col.enc = enc
  calm : w.fault = none
  attached : w.col.active.orphaned = false
  active : w.col.active.number = s.number
  sealed : w.col.sealed.map Handle.number = s.sealed.map Prod.fst
  disk : OnDisk w.disk s.layout

/-- What a procedure has done to the directory. -/
structure Logged (w : World N) (s : Segments N) (steps : List DiskStep) (w' : World N)
    (s' : Segments N) : Prop where
  trace : w'.trace = w.trace ++ steps
  disk : w'.disk = w.disk.after steps
  grows : Grows s steps s'

/-- A procedure takes only the steps of calls that write, and a value that it
ends with satisfies a condition. -/
def Traced (enc : Option (Encryptor N)) {α : Type} (p : Proc N α) (post : α → Prop) : Prop :=
  ∀ w s, Filed enc w s →
    (∃ steps s', Logged w s steps (p.run w).2 s' ∧ Filed enc (p.run w).2 s') ∧
      ∀ value, (p.run w).1 = .ok value → post value

section Traced

variable {α β : Type} {enc : Option (Encryptor N)} {w w' : World N} {s s' : Segments N}

theorem Logged.trans {w'' : World N} {s'' : Segments N} {steps more : List DiskStep}
    (first : Logged w s steps w' s') (second : Logged w' s' more w'' s'') :
    Logged w s (steps ++ more) w'' s'' where
  trace := by rw [second.trace, first.trace, List.append_assoc]
  disk := by
    rw [second.disk, first.disk]
    exact (List.foldl_append (f := DiskStep.apply)).symm
  grows := first.grows.trans second.grows

/-- A change in memory only. -/
theorem logged_of_eq (disk : w'.disk = w.disk) (trace : w'.trace = w.trace) :
    Logged w s [] w' s where
  trace := by rw [trace, List.append_nil]
  disk := disk
  grows := .refl s

theorem Filed.of_eq (filed : Filed enc w s) (cipher : w'.col.enc = w.col.enc)
    (calm : w'.fault = none) (sealed : w'.col.sealed = w.col.sealed)
    (active : w'.col.active = w.col.active) (disk : w'.disk = w.disk) : Filed enc w' s where
  enc := cipher.trans filed.enc
  calm := calm
  attached := by rw [active]; exact filed.attached
  active := by rw [active]; exact filed.active
  sealed := by rw [sealed]; exact filed.sealed
  disk := by rw [disk]; exact filed.disk

variable {p : Proc N α} {post : α → Prop} {e : Entry N}

theorem traced_still (still : ∀ w, w.fault = none → (p.run w).2 = w)
    (holds : ∀ w value, w.col.enc = enc → (p.run w).1 = .ok value → post value) :
    Traced enc p post := by
  intro w s filed
  refine ⟨⟨[], s, ?_⟩, fun value => holds w value filed.enc⟩
  rw [still w filed.calm]
  exact ⟨logged_of_eq rfl rfl, filed⟩

theorem traced_pure {value : α} (holds : post value) : Traced enc (pure value : Proc N α) post :=
  traced_still (fun _ _ => rfl) fun _ _ _ same => by
    obtain rfl := Except.ok.inj same
    exact holds

theorem traced_check (outcome : Except Error α) :
    Traced enc (Proc.check outcome : Proc N α) fun value => outcome = .ok value :=
  traced_still (fun _ _ => rfl) fun _ _ _ same => same

theorem traced_read {f : World N → α} (holds : ∀ w, w.col.enc = enc → post (f w)) :
    Traced enc (Proc.read f) post :=
  traced_still (fun _ _ => rfl) fun w _ active same => by
    obtain rfl := Except.ok.inj same
    exact holds w active

theorem traced_readEnc : Traced enc (readEnc : Proc N _) fun value => value = enc :=
  traced_read fun _ active => active

theorem traced_readCol :
    Traced enc (Proc.read fun w => w.col : Proc N (Collection N)) fun c => c.enc = enc :=
  traced_read fun _ active => active

theorem Traced.bind {next : α → Proc N β} {mid : α → Prop} {post : β → Prop}
    (first : Traced enc p mid) (later : ∀ value, mid value → Traced enc (next value) post) :
    Traced enc (p >>= next) post := by
  intro w s filed
  obtain ⟨⟨steps, s₁, logged, filed₁⟩, holds⟩ := first w s filed
  rcases ran : p.run w with ⟨outcome, w₁⟩
  rw [ran] at logged filed₁ holds
  cases outcome with
  | error e =>
    rw [Proc.run_bind_error ran]
    exact ⟨⟨steps, s₁, logged, filed₁⟩, nofun⟩
  | ok value =>
    obtain ⟨⟨more, s₂, logged', filed₂⟩, holds'⟩ := later value (holds value rfl) w₁ s₁ filed₁
    rw [Proc.run_bind_ok ran]
    exact ⟨⟨steps ++ more, s₂, logged.trans logged', filed₂⟩, holds'⟩

theorem Traced.locked (traced : Traced enc p post) :
    Traced enc p.locked post := traced

theorem Traced.attempt (traced : Traced enc p post) : Traced enc p.attempt fun _ => True := by
  intro w s filed
  rw [Proc.run_attempt]
  exact ⟨(traced w s filed).1, fun _ _ => trivial⟩

theorem traced_reserveID : Traced enc (reserveID : Proc N Nat) fun _ => True := by
  intro w s filed
  exact ⟨⟨[], s, logged_of_eq rfl rfl, filed.of_eq rfl filed.calm rfl rfl rfl⟩,
    fun _ _ => trivial⟩

theorem traced_publishCommit (committed : List (Entry N)) :
    Traced enc (publishCommit committed) fun _ => True := by
  intro w s filed
  exact ⟨⟨[], s, logged_of_eq rfl rfl, filed.of_eq rfl filed.calm rfl rfl rfl⟩,
    fun _ _ => trivial⟩

theorem traced_syncActive : Traced enc (syncActive : Proc N Unit) fun _ => True :=
  traced_still (fun w calm => by rw [run_syncActive calm]) fun _ _ _ _ => trivial

theorem traced_persistMeta : Traced enc (persistMeta : Proc N Unit) fun _ => True := by
  intro w s filed
  rw [run_persistMeta filed.calm]
  refine ⟨⟨[.writeMeta w.col.idSeq], s, ⟨rfl, rfl, .aside rfl (.refl s)⟩, ?_⟩, fun _ _ => trivial⟩
  have noted : aside (.writeMeta w.col.idSeq) = true := rfl
  exact ⟨filed.enc, filed.calm, filed.attached, filed.active, filed.sealed,
    onDisk_aside filed.disk noted⟩

theorem Filed.append (filed : Filed enc w s) (line : SegmentLine N) {c : Collection N}
    (cipher : c.enc = w.col.enc) (sealed : c.sealed = w.col.sealed)
    (number : c.active.number = w.col.active.number)
    (attached : c.active.orphaned = false) :
    Logged w s [.append (.segment s.number) (fileOf [line])]
        { w.perform (.append (.segment w.col.active.number) (fileOf [line])) with col := c }
        (s.append line) ∧
      Filed enc { w.perform (.append (.segment w.col.active.number) (fileOf [line])) with col := c }
        (s.append line) := by
  rw [filed.active]
  refine ⟨⟨rfl, rfl, .line line (.refl _)⟩, cipher.trans filed.enc, filed.calm,
    attached, number.trans filed.active, ?_, onDisk_append filed.disk line⟩
  rw [sealed]
  exact filed.sealed

theorem traced_putEntry (storable : Storable e) (plain : Option (Data N)) (follow : Follow) :
    Traced enc (putEntry e plain follow) fun _ => True := by
  intro w s filed
  rw [run_putEntry filed.calm]
  rcases accepted : appendBytes e with reason | bytes
  · exact ⟨⟨[], s, logged_of_eq rfl rfl, filed⟩, fun _ _ => trivial⟩
  · obtain ⟨line, -, rfl⟩ := exists_line_of_appendBytes storable accepted
    refine ⟨⟨[.append (.segment s.number) (fileOf [line])], s.append line, ?_⟩, fun _ _ => trivial⟩
    simp only [afterPut, afterAppend, filed.attached, Bool.false_eq_true, if_false]
    exact filed.append line rfl rfl rfl rfl

theorem traced_deleteEntry (storable : Storable e) : Traced enc (deleteEntry e) fun _ => True := by
  intro w s filed
  rw [run_deleteEntry filed.calm]
  rcases accepted : appendBytes e with reason | bytes
  · exact ⟨⟨[], s, logged_of_eq rfl rfl, filed⟩, fun _ _ => trivial⟩
  · obtain ⟨line, -, rfl⟩ := exists_line_of_appendBytes storable accepted
    refine ⟨⟨[.append (.segment s.number) (fileOf [line])], s.append line, ?_⟩, fun _ _ => trivial⟩
    simp only [afterDelete, afterAppend, filed.attached, Bool.false_eq_true, if_false]
    exact filed.append line rfl rfl rfl rfl

theorem Filed.nextNumber_eq (filed : Filed enc w s) :
    nextNumber (w.col.sealed ++ [w.col.active]) = s.number + 1 := by
  have numbers : (w.col.sealed ++ [w.col.active]).map Handle.number =
      (s.layout.map handleOf).map Handle.number := by
    rw [List.map_append, filed.sealed, List.map_singleton, filed.active, Segments.layout]
    simp [handleOf]
  rw [← Writing.nextNumber_eq s, nextNumber, nextNumber, numbers]

theorem traced_rotateSegment : Traced enc (rotateSegment : Proc N Unit) fun _ => True := by
  intro w s filed
  have next := filed.nextNumber_eq
  have absent : w.disk.segment (nextNumber (w.col.sealed ++ [w.col.active])) = none := by
    rw [next, ← Option.not_isSome_iff_eq_none]
    intro present
    have member := filed.disk.only _ present
    rw [Segments.map_fst_layout] at member
    exact not_mem_numbers s member
  rw [run_rotateSegment_absent filed.calm absent]
  have created : Grows s [.create (.segment (s.number + 1)), .writeMeta w.col.idSeq] s.rotate :=
    .rotate (.aside rfl (.refl _))
  have sealed : (w.col.sealed ++ [w.col.active]).map Handle.number =
      s.rotate.sealed.map Prod.fst := by
    rw [List.map_append, filed.sealed, List.map_singleton, filed.active]
    exact (Segments.map_fst_layout s).symm
  refine ⟨⟨_, s.rotate, ⟨?_, ?_, created⟩, filed.enc, filed.calm, rfl, next, sealed, ?_⟩,
    fun _ _ => trivial⟩
  · simp [afterNote, afterRotate, World.perform, next]
  · simp [afterNote, afterRotate, World.perform, next, Disk.after]
  · simp only [afterNote, afterRotate, World.perform, next]
    exact created.onDisk filed.disk

theorem traced_rotateIf (full : Bool) : Traced enc (rotateIf full : Proc N Unit) fun _ => True := by
  cases full with
  | true => exact traced_rotateSegment
  | false => exact traced_pure trivial

end Traced

end Scriva.Engine.Crash
