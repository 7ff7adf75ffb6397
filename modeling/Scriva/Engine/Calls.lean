import Scriva.Engine.Machine
import Scriva.Engine.Outcome
import Scriva.Engine.Writing

/-!
# What the calls write

Each write path, run on a coherent collection with no failing step, either is
refused and appends nothing, or appends the entries that its arguments and the
collection before it determine.  A batch whose record turns out too large for
a line ends there, with the earlier records appended.
-/

namespace Scriva.Engine.Calls

open Lib.Fallible Lib.Keyed Store.Record Store.Ndjson Segment PrimaryIndex SecondaryIndex Directory
open Engine.Collection Journal Coherence Writing Outcome
open Machine (Refusal)
open Proc (run_bind run_bind_ok run_read run_access run_perform run_modify)

variable {N α β : Type} [JsonNumber N]

/-! ## Procedures that write -/

/-- Steps that append entries and register no index. -/
structure Wrote (w : World N) (es : List (Entry N)) (w' : World N) : Prop where
  steps : Steps w es w'
  flags : indexFlags w'.col = indexFlags w.col

theorem Wrote.refl (w : World N) : Wrote w [] w :=
  ⟨.refl w, rfl⟩

variable {es fs : List (Entry N)} {p : Proc N α} {w' : World N} {next : α → Proc N β} {value : α}
  {result : Except Error β}

theorem Wrote.trans {a b c : World N} (first : Wrote a es b) (second : Wrote b fs c) :
    Wrote a (es ++ fs) c :=
  ⟨first.steps.trans second.steps, second.flags.trans first.flags⟩

theorem wrote_reserve (w : World N) : Wrote w [] (afterReserve w) :=
  ⟨(Step.reserve w).steps, rfl⟩

/-- Run from `w`, a procedure ends with the result and has appended exactly
these entries. -/
def Writes (p : Proc N α) (w : World N) (result : Except Error α)
    (es : List (Entry N)) : Prop :=
  (p.run w).1 = result ∧ Wrote w es (p.run w).2

theorem writes_of_run {w : World N} {result : Except Error α} (run : p.run w = (result, w'))
    (wrote : Wrote w es w') : Writes p w result es := by
  rw [Writes, run]
  exact ⟨rfl, wrote⟩

theorem Writes.bind {w : World N} (first : Writes p w (.ok value) es)
    (second : Writes (next value) (p.run w).2 result fs) :
    Writes (p >>= next) w result (es ++ fs) := by
  obtain ⟨ended, steps⟩ := first
  rw [Writes, run_bind]
  rcases shape : p.run w with ⟨outcome, after⟩
  rw [shape] at ended steps second
  obtain rfl : outcome = .ok value := ended
  exact ⟨second.1, steps.trans second.2⟩

theorem Writes.bind_error {w : World N} {e : Error} (first : Writes p w (.error e) es) :
    Writes (p >>= next) w (.error e) es := by
  obtain ⟨ended, steps⟩ := first
  rw [Writes, run_bind]
  rcases shape : p.run w with ⟨outcome, after⟩
  rw [shape] at ended steps
  obtain rfl : outcome = .error e := ended
  exact ⟨rfl, steps⟩

/-- Go on after a step that reads. -/
theorem writes_bind_ok {w : World N} (first : p.run w = (.ok value, w')) (quiet : Wrote w [] w')
    (second : Writes (next value) w' result es) : Writes (p >>= next) w result es := by
  have start : Writes p w (.ok value) [] := writes_of_run first quiet
  apply Writes.bind start
  rwa [first]

theorem writes_bind_error {w : World N} {e : Error} (first : p.run w = (.error e, w)) :
    Writes (p >>= next) w (.error e) [] :=
  (writes_of_run first (.refl w)).bind_error

/-! ## The shared parts -/

variable {full : Bool}

section Parts

variable {w : World N} {s : Segments N}

omit [JsonNumber N] in
theorem run_reserveID (w : World N) :
    (reserveID : Proc N Nat).run w = (.ok (w.col.idSeq + 1), afterReserve w) := rfl

theorem run_appendActive (calm : w.fault = none) (e : Entry N) :
    (appendActive e).run w =
      match appendBytes e with
      | .ok bytes => (.ok w.col.active.size, afterAppend w bytes)
      | .error reason => (.error (.append reason), w) := by
  rcases encoded : appendBytes e with reason | bytes
  · simp [appendActive, run_bind, Except.mapError, encoded]
  · by_cases orphaned : w.col.active.orphaned
    · simp [appendActive, run_bind, Except.mapError, encoded, orphaned, calm,
        afterAppend]
    · simp [appendActive, run_bind, Except.mapError, encoded, orphaned, calm,
        afterAppend]

theorem run_putEntry (calm : w.fault = none) (e : Entry N) (plain : Option (Data N))
    (follow : Follow) :
    (putEntry e plain follow).run w =
      match appendBytes e with
      | .ok bytes => (.ok (), afterPut w e plain follow bytes)
      | .error reason => (.error (.append reason), w) := by
  rw [putEntry, run_bind, run_appendActive calm]
  rcases appendBytes e with reason | bytes
  · rfl
  · rfl

theorem run_deleteEntry (calm : w.fault = none) (e : Entry N) :
    (deleteEntry e).run w =
      match appendBytes e with
      | .ok bytes => (.ok (), afterDelete w e bytes)
      | .error reason => (.error (.append reason), w) := by
  rw [deleteEntry, run_bind, run_appendActive calm]
  rcases appendBytes e with reason | bytes
  · rfl
  · rfl

section

omit [JsonNumber N]

theorem run_syncActive (calm : w.fault = none) :
    (syncActive : Proc N Unit).run w = (.ok (), w) := by
  rw [syncActive, run_bind_ok (run_read _ w)]
  split_ifs
  · exact run_access calm
  · rfl

theorem run_persistMeta (calm : w.fault = none) :
    (persistMeta : Proc N Unit).run w = (.ok (), afterNote w) := by
  rw [persistMeta, run_bind, run_read]
  exact run_perform calm _

/-- Opening a segment that does not exist creates an empty one. -/
theorem run_openActiveSegment (calm : w.fault = none) {number : Nat}
    (absent : w.disk.segment number = none) :
    (openActiveSegment (.segment number) : Proc N Nat).run w =
      (.ok 0, w.perform (.create (.segment number))) := by
  have empty : ((w.perform (.create (.segment number))).disk.files.lookup
      (.segment number)).getD [] = [] := by
    have created := Disk.segment_create w.disk number number
    rw [if_pos rfl, absent] at created
    change (Disk.segment _ number).getD [] = []
    rw [World.disk_perform, created]
    rfl
  rw [openActiveSegment, run_bind, run_perform calm]
  simp only [run_bind, run_read, empty]
  rfl

/-- The file that is opened for appending has lost an unfinished line. -/
theorem yields_openActiveSegment (number : Nat) :
    Yields (openActiveSegment (.segment number) : Proc N Nat) w fun size w' =>
      w'.col = w.col ∧ w'.disk.index = w.disk.index ∧ w'.disk.sidx = w.disk.sidx ∧
      size = recoverPartialLine ((w.disk.segment number).getD []) ∧
      ∀ other, w'.disk.segment other = if other = number then
        some (((w.disk.segment number).getD []).take size) else w.disk.segment other := by
  refine yields_perform fun fault => yields_read ?_
  obtain ⟨file, found⟩ : ∃ file, file = (w.disk.segment number).getD [] := ⟨_, rfl⟩
  have created (other : Nat) := Disk.segment_create w.disk number other
  have here : ((w.perform (.create (.segment number))).disk.files.lookup
      (.segment number)).getD [] = file := by
    change (Disk.segment _ number).getD [] = file
    rw [World.disk_perform, created, if_pos rfl, found]
    rfl
  have index : (w.perform (.create (.segment number))).disk.index = w.disk.index := by
    rw [World.disk_perform, DiskStep.apply]
    split_ifs <;> rfl
  have sidx : (w.perform (.create (.segment number))).disk.sidx = w.disk.sidx := by
    rw [World.disk_perform, DiskStep.apply]
    split_ifs <;> rfl
  simp only [here]
  rw [← found] at created ⊢
  split_ifs with torn
  · refine yields_perform fun fault => yields_pure ⟨rfl, index, sidx, rfl, fun other => ?_⟩
    change Finmap.lookup (FileName.segment other) (Finmap.insert _ _ _) = _
    simp only [lookup_insert_if, FileName.segment.injEq]
    split_ifs with same
    · change some ((((w.perform (.create (.segment number))).disk.files.lookup
        (.segment number)).getD []).take _) = _
      rw [here]
    · exact (created other).trans (if_neg same)
  · refine yields_pure ⟨rfl, index, sidx, rfl, fun other => ?_⟩
    rw [List.take_of_length_le (not_lt.mp torn)]
    exact created other

theorem run_openActiveSegment_calm (calm : w.fault = none) (name : FileName) :
    ∃ size w', (openActiveSegment name : Proc N Nat).run w = (.ok size, w') ∧
      w'.fault = none ∧ w'.col = w.col := by
  rw [openActiveSegment, run_bind_ok (run_perform calm _),
    run_bind_ok (run_read _ _)]
  split_ifs
  · rw [run_bind_ok (run_perform (w := w.perform (.create name)) calm _)]
    exact ⟨_, _, rfl, calm, rfl⟩
  · exact ⟨_, _, rfl, calm, rfl⟩

/-- A rotation opens the new segment after it has sealed the active one. -/
theorem run_rotateSegment_opened (calm : w.fault = none) {size : Nat} {w₁ : World N}
    (opened : (openActiveSegment (.segment (nextNumber (w.col.sealed ++ [w.col.active])))).run
      { w with col := { w.col with sealed := w.col.sealed ++ [w.col.active] } } = (.ok size, w₁))
    (calm₁ : w₁.fault = none) :
    (rotateSegment : Proc N Unit).run w = (.ok (), afterNote { w₁ with col := { w₁.col with
      active := ⟨nextNumber (w.col.sealed ++ [w.col.active]), size, false⟩ } }) := by
  obtain ⟨w₂, moved⟩ : ∃ w₂ : World N, w₂ = { w₁ with col := { w₁.col with
    active := ⟨nextNumber (w.col.sealed ++ [w.col.active]), size, false⟩ } } := ⟨_, rfl⟩
  have calm₂ : w₂.fault = none := by rw [moved]; exact calm₁
  rw [rotateSegment, Proc.run_locked, run_bind_ok (run_access calm),
    run_bind_ok (run_modify _ w), run_bind_ok (run_read _ _),
    run_bind_ok opened, run_bind_ok (run_modify _ _), ← moved,
    run_bind_ok (run_read _ _)]
  split_ifs
  · rw [run_bind_ok (run_access calm₂), Proc.run_attempt, run_persistMeta calm₂]
  · rw [Proc.run_attempt, run_persistMeta calm₂]

/-- A rotation fails only if a step of the directory does. -/
theorem run_rotateSegment_calm (calm : w.fault = none) :
    ∃ w', (rotateSegment : Proc N Unit).run w = (.ok (), w') ∧ w'.fault = none ∧
      w'.col.index = w.col.index := by
  obtain ⟨size, w₁, opened, calm₁, col⟩ := run_openActiveSegment_calm (w := { w with
    col := { w.col with sealed := w.col.sealed ++ [w.col.active] } }) calm
      (.segment (nextNumber (w.col.sealed ++ [w.col.active])))
  refine ⟨_, run_rotateSegment_opened calm opened calm₁, calm₁, ?_⟩
  change w₁.col.index = w.col.index
  rw [col]

/-- A rotation when there is no file under the next number. -/
theorem run_rotateSegment_absent (calm : w.fault = none)
    (absent : w.disk.segment (nextNumber (w.col.sealed ++ [w.col.active])) = none) :
    (rotateSegment : Proc N Unit).run w = (.ok (), afterNote (afterRotate w)) :=
  run_rotateSegment_opened calm (run_openActiveSegment (w := { w with
    col := { w.col with sealed := w.col.sealed ++ [w.col.active] } }) calm absent) calm

end

theorem run_rotateSegment_standing (standing : Standing w s) (calm : w.fault = none) :
    (rotateSegment : Proc N Unit).run w = (.ok (), afterNote (afterRotate w)) := by
  refine run_rotateSegment_absent calm ?_
  rw [standing.nextNumber_sealed, ← Option.not_isSome_iff_eq_none]
  intro present
  have member := standing.disk.only _ present
  rw [Segments.map_fst_layout] at member
  exact not_mem_numbers s member

theorem run_rotateSegment (coherent : Coherent w s) (calm : w.fault = none) :
    (rotateSegment : Proc N Unit).run w = (.ok (), afterNote (afterRotate w)) :=
  run_rotateSegment_standing coherent.standing calm

theorem run_rotateIf (coherent : Coherent w s) (calm : w.fault = none) (full : Bool) :
    Writes (rotateIf full) w (.ok ()) [] := by
  cases full with
  | true =>
    refine writes_of_run (run_rotateSegment coherent calm) ⟨?_, rfl⟩
    exact .head (.rotate w) (Step.note _).steps
  | false => exact writes_of_run rfl (.refl w)

/-- What follows the critical section of a call: the rotation, and a rest that
appends nothing. -/
theorem Writes.rotate {p : Proc N β} {value : β} {rest : Proc N α} {result : Except Error α}
    {next : β → Proc N α} (coherent : Coherent w s) (calm : w.fault = none)
    (wrote : Writes p w (.ok value) es) (shape : next value = (do rotateIf full; rest))
    (quiet : ∀ w' : World N, w'.fault = none → Writes rest w' result []) :
    Writes (p.locked >>= next) w result es := by
  obtain ⟨after, still, -⟩ := coherent.steps wrote.2.steps
  have calmAfter := wrote.2.steps.frame.calm calm
  have rotated := run_rotateIf still calmAfter full
  have ended : Writes (next value) (p.run w).2 result ([] ++ []) := by
    rw [shape]
    exact rotated.bind (quiet _ (rotated.2.steps.frame.calm calmAfter))
  have whole : Writes (p.locked >>= next) w result (es ++ ([] ++ [])) :=
    Writes.bind (p := p.locked) wrote ended
  rwa [List.append_nil, List.append_nil] at whole

theorem Writes.refused {p : Proc N β} {e : Error} (wrote : Writes p w (.error e) es)
    (next : β → Proc N α) : Writes (p.locked >>= next) w (.error e) es :=
  Writes.bind_error (p := p.locked) wrote

theorem writes_pure (value : α) (w : World N) :
    Writes (pure value : Proc N α) w (.ok value) [] :=
  writes_of_run rfl (.refl w)

end Parts

/-! ## Stored data -/

/-- What the engine relies on from an encryption policy: a field that is not
encrypted is stored as it is, and data with fields is stored with fields and
read back as it was. -/
structure Lawful (policy : Encryptor N) : Prop where
  keeps : ∀ {seed : Nat} {data stored : Option (Data N)} {field : String},
    policy.encrypt seed data = .ok stored → policy.isEncryptedField field = false →
      field? stored field = field? data field
  filled : ∀ {seed : Nat} {data stored : Option (Data N)},
    policy.encrypt seed data = .ok stored → fieldsOf data ≠ [] → fieldsOf stored ≠ []
  opens : ∀ {seed : Nat} {data stored : Option (Data N)},
    policy.encrypt seed data = .ok stored → fieldsOf data ≠ [] →
      policy.materialize stored = .ok data

/-- The policy of a collection is lawful, and no index is on a field that it
encrypts. -/
structure Governed (c : Collection N) : Prop where
  lawful : ∀ policy ∈ c.enc, Lawful policy
  plain : ∀ policy ∈ c.enc, ∀ field ∈ c.sidx.map Sidx.field,
    policy.isEncryptedField field = false

/-- Data that can be stored: it has fields, or it is nil and nothing is
encrypted. -/
def Keepable (enc : Option (Encryptor N)) (data : Option (Data N)) : Prop :=
  fieldsOf data ≠ [] ∨ (data = none ∧ enc = none)

/-- No policy encrypts a field. -/
def Exposed (enc : Option (Encryptor N)) (field : String) : Prop :=
  ∀ policy ∈ enc, policy.isEncryptedField field = false

/-- The stored form of data. -/
structure Stored (enc : Option (Encryptor N)) (plain stored : Option (Data N)) : Prop where
  filled : stored ≠ some Data.empty
  agrees : ∀ field, Exposed enc field → field? stored field = field? plain field
  opens : materialize enc stored = .ok plain

variable {data stored plain : Option (Data N)} {policy : Encryptor N} {seed : Nat}
  {c c' : Collection N} {enc : Option (Encryptor N)} {e : Entry N}

section

omit [JsonNumber N]

theorem ne_empty_of_fieldsOf (filled : fieldsOf data ≠ []) : data ≠ some Data.empty := by
  rintro rfl
  exact filled rfl

theorem stored_plain (keep : Keepable none data) :
    Stored none data data where
  filled := by
    rcases keep with filled | ⟨rfl, -⟩
    · exact ne_empty_of_fieldsOf filled
    · exact nofun
  agrees := fun _ _ => rfl
  opens := rfl

theorem stored_encrypt (lawful : Lawful policy) (keep : Keepable (some policy) data)
    (encrypted : policy.encrypt seed data = .ok stored) : Stored (some policy) data stored := by
  have filled : fieldsOf data ≠ [] := by
    rcases keep with filled | ⟨-, inactive⟩
    · exact filled
    · cases inactive
  constructor
  · exact ne_empty_of_fieldsOf (lawful.filled encrypted filled)
  · intro field exposed
    exact lawful.keeps encrypted (exposed policy rfl)
  · exact lawful.opens encrypted filled

theorem Governed.congr (governed : Governed c) (enc : c'.enc = c.enc)
    (fields : c'.sidx.map Sidx.field = c.sidx.map Sidx.field) : Governed c' where
  lawful := by
    rw [enc]
    exact governed.lawful
  plain := by
    rw [enc, fields]
    exact governed.plain

theorem fields_of_flags (flags : indexFlags c' = indexFlags c) :
    c'.sidx.map Sidx.field = c.sidx.map Sidx.field := by
  have fields := congrArg (List.map Prod.fst) flags
  rwa [indexFlags, indexFlags, List.map_map, List.map_map] at fields

end

/-- Steps keep a collection governed. -/
theorem Governed.step {w : World N} (governed : Governed w.col) (step : Step w es w') :
    Governed w'.col := by
  cases step with
  | reserve | rotate | note | publish | persist => exact governed.congr rfl rfl
  | put =>
    exact governed.congr (steady_afterPut w _ _ _ _).enc
      (fields_of_flags (flags_afterPut w _ _ _ _))
  | delete =>
    exact governed.congr (steady_afterDelete w _ _).enc
      (fields_of_flags (flags_afterDelete w _ _))
  | @register t fresh plain rebuilt =>
    refine ⟨governed.lawful, ?_⟩
    intro policy active field member
    simp only [afterRegister, List.map_append, List.map_singleton, List.mem_append,
      List.mem_singleton] at member
    rcases member with old | rfl
    · exact governed.plain policy active field old
    · exact plain policy active

theorem Governed.steps {w : World N} (governed : Governed w.col) (steps : Steps w es w') :
    Governed w'.col := by
  induction steps with
  | refl w => exact governed
  | head step later ih => exact ih (governed.step step)

/-- An entry that puts data into a record. -/
structure Puts (enc : Option (Encryptor N)) (op : Op) (id : Nat)
    (plain : Option (Data N)) (rev : Nat) (expiresAt : Int) (e : Entry N) : Prop where
  op : e.op = op
  id : e.id = id
  rev : e.rev = rev
  expiresAt : e.expiresAt = expiresAt
  utc : e.ts.offset = 0
  stored : Stored enc plain e.data

section

omit [JsonNumber N]

theorem Puts.storable {op : Op} {id rev : Nat} {expiresAt : Int}
    (puts : Puts enc op id plain rev expiresAt e) : Storable e := by
  refine ⟨?_, puts.stored.filled⟩
  rw [puts.utc]
  exact dvd_zero _

/-- Sealing an entry stores its data, or is refused. -/
theorem sealEntryData_cases (lawful : ∀ policy ∈ enc, Lawful policy) (seed : Nat)
    (keep : Keepable enc e.data) (utc : e.ts.offset = 0) :
    (∃ e', sealEntryData enc seed e = .ok e' ∧
        Puts enc e.op e.id e.data e.rev e.expiresAt e') ∨
      ∃ error, sealEntryData enc seed e = .error error ∧ Refusal enc error := by
  rcases enc with - | policy
  · left
    exact ⟨e, rfl, rfl, rfl, rfl, rfl, utc, stored_plain keep⟩
  · rcases encrypted : policy.encrypt seed e.data with error | data
    · right
      exact ⟨error, by simp [sealEntryData, encrypted, Except.map],
        .encrypt rfl encrypted⟩
    · left
      refine ⟨{ e with data, epoch := policy.epoch }, ?_, rfl, rfl, rfl, rfl, utc, ?_⟩
      · simp [sealEntryData, encrypted, Except.map]
      · exact stored_encrypt (lawful policy rfl) keep encrypted

theorem id_of_sealed {stored : Entry N} (sealed : sealEntryData enc seed e = .ok stored) :
    stored.id = e.id := by
  rcases enc with - | policy
  · rw [← Except.ok.inj sealed]
  · rw [sealEntryData] at sealed
    obtain ⟨data, encrypted, sealed⟩ := ok_of_bind sealed
    rw [← Except.ok.inj sealed]

end

/-! ## Checks -/

section Checks

variable {w : World N}

theorem writes_read {f : World N → α} (later : Writes (next (f w)) w result es) :
    Writes (Proc.read f >>= next) w result es :=
  writes_bind_ok (run_read f w) (.refl w) later

variable {outcome : Except Error α}

theorem writes_check_ok (passed : outcome = .ok value) (later : Writes (next value) w result es) :
    Writes (Proc.check outcome >>= next) w result es := by
  subst passed
  exact writes_bind_ok (Proc.run_check _ w) (.refl w) later

theorem writes_check_error {e : Error} (failed : outcome = .error e) :
    Writes (Proc.check outcome >>= next) w (.error e) [] := by
  subst failed
  exact writes_bind_error (Proc.run_check _ w)

omit [JsonNumber N] in
theorem checkQuota_cases (c : Collection N) (newRecords newBytes : Nat) :
    checkQuota c newRecords newBytes = .ok () ∨
      checkQuota c newRecords newBytes = .error .resourceExhausted := by
  unfold checkQuota
  split_ifs
  · exact .inr rfl
  · exact .inr rfl
  · exact .inl rfl

omit [JsonNumber N] in
theorem checkQuota_eq_ok_iff (c : Collection N) (records bytes : Nat) :
    checkQuota c records bytes = .ok () ↔
      (c.cfg.maxRecords = 0 ∨ c.index.keys.card + records ≤ c.cfg.maxRecords) ∧
        (c.cfg.maxBytes = 0 ∨ (sizeBytes c + bytes : Nat) ≤ byteLimit c.cfg) := by
  unfold checkQuota
  split_ifs with many large
  · simp only [false_iff]
    omega
  · simp only [false_iff]
    omega
  · simp only [true_iff]
    omega

theorem sidxCheckUnique_cases (c : Collection N) (id : Nat) (data : Option (Data N)) :
    sidxCheckUnique c id data = .ok () ∨
      ∃ field key, sidxCheckUnique c id data = .error (.duplicateKey field key) := by
  unfold sidxCheckUnique
  split
  · exact .inr ⟨_, _, rfl⟩
  · exact .inl rfl

omit [JsonNumber N] in
theorem checkReserved_cases (data : Option (Data N)) :
    checkReserved data = .ok () ∨ checkReserved data = .error .reservedField := by
  unfold checkReserved
  split_ifs
  · exact .inr rfl
  · exact .inl rfl

omit [JsonNumber N] in
theorem run_publishCommit (w : World N) (committed : List (Entry N)) :
    (publishCommit committed).run w = (.ok (), afterPublish w committed) := rfl

/-- What ends a critical section: the flush, the feed, and a rest that appends
nothing. -/
theorem Writes.finishWith {rest : α → Proc N β} (calm : w.fault = none)
    (wrote : Writes p w (.ok value) es) (committed : α → List (Entry N))
    (quiet : Writes (rest value) (afterPublish (p.run w).2 (committed value)) result []) :
    Writes (do
      let value ← p
      syncActive
      publishCommit (committed value)
      rest value) w result es := by
  have flushed := run_syncActive (N := N) (wrote.2.steps.frame.calm calm)
  have shipped : Wrote (p.run w).2 [] (afterPublish (p.run w).2 (committed value)) :=
    ⟨(Step.publish _ _).steps, rfl⟩
  have tail : Writes (do
      syncActive
      publishCommit (committed value)
      rest value) (p.run w).2 result [] :=
    writes_bind_ok flushed (.refl _)
      (writes_bind_ok (run_publishCommit _ _) shipped quiet)
  have whole : Writes (do
      let value ← p
      syncActive
      publishCommit (committed value)
      rest value) w result (es ++ []) := Writes.bind wrote tail
  rwa [List.append_nil] at whole

theorem Writes.finish (calm : w.fault = none) (wrote : Writes p w (.ok value) es)
    (committed : α → List (Entry N)) :
    ∃ full, Writes (do
      let value ← p
      syncActive
      publishCommit (committed value)
      isFull : Proc N Bool) w (.ok full) es :=
  ⟨_, wrote.finishWith calm committed (writes_of_run rfl (.refl _))⟩

end Checks

/-! ## Insert -/

variable {t : Sidx}

section Insert

variable {w : World N} {s : Segments N}

/-- A record under the id just taken is new to the collection. -/
theorem index_fresh (coherent : Coherent w s) {id : Nat} (beyond : w.col.idSeq < id) :
    w.col.index.lookup id = none := by
  rw [coherent.lookup_index_eq_none]
  apply applyEntries_of_untouched
  intro e member same
  have counted := coherent.counted e member
  omega

/-- Stored data has the keys of the data before encryption. -/
theorem Stored.indexKey_eq (kept : Stored w.col.enc plain stored) (governed : Governed w.col)
    (member : t ∈ w.col.sidx) : indexKey t.field stored = indexKey t.field plain := by
  have exposed : Exposed w.col.enc t.field := fun policy active =>
    governed.plain policy active _ (List.mem_map_of_mem member)
  rw [indexKey, indexKey, kept.agrees _ exposed]

theorem Puts.writable_new {op : Op} {id : Nat} {expiresAt : Int}
    (puts : Puts w.col.enc op id plain 1 expiresAt e) (governed : Governed w.col)
    (put : Op.isPut op) (reserved : id ≤ w.col.idSeq) (fresh : w.col.index.lookup id = none) :
    Writable w e plain .index where
  put := by rw [puts.op]; exact put
  storable := puts.storable
  above := by
    rw [revAt, puts.id, fresh, puts.rev]
    exact Nat.zero_lt_one
  reserved := by rw [puts.id]; exact reserved
  fresh := fun _ => by rw [puts.id]; exact fresh
  agrees := fun _ member => puts.stored.indexKey_eq governed member

theorem Puts.writable_next {op : Op} {id : Nat} {expiresAt : Int}
    (puts : Puts w.col.enc op id plain (revAt w.col.index id + 1) expiresAt e)
    (governed : Governed w.col) (put : Op.isPut op) (reserved : id ≤ w.col.idSeq) :
    Writable w e plain .move where
  put := by rw [puts.op]; exact put
  storable := puts.storable
  above := by
    rw [puts.id, puts.rev]
    exact Nat.lt_succ_self _
  reserved := by rw [puts.id]; exact reserved
  fresh := nofun
  agrees := fun _ member => puts.stored.indexKey_eq governed member

end Insert

/-! ## Update and delete -/

variable {loc : IndexEntry}

section Update

variable {w : World N} {s : Segments N}

/-- A record that the index knows has an id that was taken. -/
theorem le_of_index (coherent : Coherent w s) {id : Nat}
    (found : w.col.index.lookup id = some loc) : id ≤ w.col.idSeq := by
  obtain ⟨e, held, -⟩ := coherent.record_of_index found
  rw [coherent.record_eq, Option.map_eq_some_iff] at held
  obtain ⟨line, alive, rfl⟩ := held
  obtain ⟨member, same, -⟩ := live_mem alive
  rw [← same]
  exact coherent.counted line.entry (List.mem_map_of_mem member)

theorem revAt_of_lookup {index : Index} {id : Nat} (found : index.lookup id = some loc) :
    revAt index id = loc.rev := by
  rw [revAt, found]
  rfl

theorem Writes.rotateLast {p : Proc N Bool} (coherent : Coherent w s) (calm : w.fault = none)
    (wrote : Writes p w (.ok full) es) : Writes (p.locked >>= rotateIf) w (.ok ()) es := by
  obtain ⟨after, still, -⟩ := coherent.steps wrote.2.steps
  have rotated := run_rotateIf still (wrote.2.steps.frame.calm calm) full
  have whole : Writes (p.locked >>= rotateIf) w (.ok ()) (es ++ []) :=
    Writes.bind (p := p.locked) wrote rotated
  rwa [List.append_nil] at whole

omit [JsonNumber N] in
theorem storable_newDelete (id : Nat) (ts : Utc) : Storable (newDelete id ts : Entry N) := by
  refine ⟨?_, nofun⟩
  have utc := ts.property
  simp only [newDelete, utc]
  exact dvd_zero _

end Update

/-! ## Secondary indexes -/

section Indexes

variable {w : World N} {s : Segments N}

theorem run_readLatest (calm : w.fault = none) (segments : List Nat)
    (latest : Map Nat (Option (Option (Data N)))) :
    (readLatest segments latest).run w =
      match Sidx.scanLatest w.disk.segment segments latest with
      | some latest => (.ok latest, w)
      | none => (.error .unreadable, w) := by
  induction segments generalizing latest with
  | nil => rfl
  | cons segment segments ih =>
    rw [readLatest, run_bind_ok (run_access calm),
      run_bind_ok (run_read _ w), Sidx.scanLatest]
    rcases (w.disk.segment segment).bind (scanAll (N := N)) with - | entries
    · rfl
    · exact ih _

variable {field : String}

omit [JsonNumber N] in
theorem findIndex_eq_none : findIndex c field = none ↔ field ∉ c.sidx.map Sidx.field := by
  simp only [findIndex, List.find?_eq_none, decide_eq_true_eq, List.mem_map, not_exists,
    not_and]

omit [JsonNumber N] in
theorem findIndex_eq_some (found : findIndex c field = some t) : t ∈ c.sidx ∧ t.field = field := by
  refine ⟨List.mem_of_find?_eq_some found, ?_⟩
  have holds := List.find?_some found
  exact of_decide_eq_true holds

theorem fillIndex_register (c : Collection N) (t : Sidx)
    (latest : Map Nat (Option (Option (Data N))))
    (fresh : t.field ∉ c.sidx.map Sidx.field) :
    fillIndex t.field latest { c with sidx := c.sidx ++ [t] } =
      { c with sidx := c.sidx ++ [t.fill latest] } := by
  have others : (c.sidx.map fun other =>
      if other.field = t.field then other.fill latest else other) = c.sidx := by
    conv_rhs => rw [← List.map_id c.sidx]
    apply List.map_congr_left
    intro other member
    rw [if_neg]
    · rfl
    · intro same
      exact fresh (same ▸ List.mem_map_of_mem member)
  simp only [fillIndex, List.map_append, List.map_singleton, others, if_true]

section

omit [JsonNumber N]

theorem findIndex_register (t : Sidx) (fresh : t.field ∉ w.col.sidx.map Sidx.field) :
    findIndex (afterRegister w t).col t.field = some t := by
  have missing := findIndex_eq_none.mpr fresh
  simp only [findIndex, afterRegister, List.find?_append, List.find?_singleton, decide_true,
    if_true]
  rw [findIndex] at missing
  rw [missing]
  rfl

/-- An index on a field without one is dropped again if it cannot be filled. -/
theorem dropIndexEntry_register (t : Sidx) (fresh : t.field ∉ w.col.sidx.map Sidx.field) :
    dropIndexEntry t.field (afterRegister w t).col = w.col := by
  have kept : (w.col.sidx.filter fun other => other.field ≠ t.field) = w.col.sidx := by
    rw [List.filter_eq_self]
    intro other member
    have differs : other.field ≠ t.field := fun same => fresh (same ▸ List.mem_map_of_mem member)
    simpa using differs
  simp only [dropIndexEntry, afterRegister, List.filter_append]
  rw [kept]
  simp

theorem run_registerIndex (unique : Bool) (fresh : field ∉ w.col.sidx.map Sidx.field) :
    (registerIndex field unique : Proc N Bool).run w =
      (.ok true, afterRegister w (newSecondaryIndex field unique)) := by
  simp [registerIndex, Proc.run, findIndex_eq_none.mpr fresh, afterRegister]

theorem any_isEncryptedField (plain : ∀ policy ∈ w.col.enc, policy.isEncryptedField field = false) :
    (w.col.enc.any fun policy => policy.isEncryptedField field) = false := by
  rcases active : w.col.enc with - | policy
  · rfl
  · exact plain policy active

end

/-- A new index on a field that has none is registered, filled from the segments
and persisted, unless a segment cannot be scanned. -/
theorem run_ensureIndex_fresh (calm : w.fault = none) (unique : Bool)
    (plain : ∀ policy ∈ w.col.enc, policy.isEncryptedField field = false)
    (fresh : field ∉ w.col.sidx.map Sidx.field) :
    (ensureIndex field unique).run w =
      match Sidx.scanLatest (N := N) w.disk.segment (allSegments w.col) ∅ with
      | none => (.error .unreadable, w)
      | some latest =>
        let filled := afterRegister w ((newSecondaryIndex field unique).fill latest)
        if sidxNameValid field then (.ok (), filled.perform
          (.writeSidx field ((newSecondaryIndex field unique).fill latest).persist))
        else (.error .io, filled) := by
  have read := run_readLatest (N := N) (w := afterRegister w (newSecondaryIndex field unique))
    calm (allSegments w.col) ∅
  have segments : (afterRegister w (newSecondaryIndex field unique)).disk.segment =
    w.disk.segment := rfl
  rw [segments] at read
  rw [ensureIndex, readEnc, run_bind_ok (run_read _ w), any_isEncryptedField plain]
  simp only [Bool.false_eq_true, if_false]
  rw [run_bind_ok (run_registerIndex unique fresh)]
  simp only [if_true]
  rw [run_bind_ok (run_read _ _)]
  rcases scanned : Sidx.scanLatest (N := N) w.disk.segment (allSegments w.col) ∅ with - | latest
  · rw [scanned] at read
    have failed := Proc.run_bind_error read fun latest => Proc.modify (fillIndex field latest)
    have dropped := dropIndexEntry_register (newSecondaryIndex field unique) fresh
    refine (Proc.run_bind_error (Proc.run_onError_error failed _) _).trans ?_
    rw [run_modify]
    exact congrArg (fun c => (Except.error Error.unreadable, { w with col := c })) dropped
  · rw [scanned] at read
    have refilled : (rebuildSidx field (allSegments w.col) : Proc N Unit).run
        (afterRegister w (newSecondaryIndex field unique)) =
          (.ok (), afterRegister w ((newSecondaryIndex field unique).fill latest)) := by
      rw [rebuildSidx, run_bind_ok read, run_modify]
      exact congrArg (fun c => (Except.ok (), { w with col := c }))
        (fillIndex_register w.col (newSecondaryIndex field unique) latest fresh)
    refine (run_bind_ok (Proc.run_onError_ok refilled _) _).trans ?_
    obtain ⟨t, filled⟩ : ∃ t, t = (newSecondaryIndex field unique).fill latest := ⟨_, rfl⟩
    obtain rfl : t.field = field := by
      rw [filled]
      exact (Sidx.flags_fill _ latest).1
    dsimp only
    rw [← filled, persistIndexOn, run_bind_ok (run_read _ _), findIndex_register t fresh]
    change (persistSidx t : Proc N Unit).run _ = _
    rw [persistSidx]
    split_ifs
    · exact run_perform (w := afterRegister w t) calm _
    · rfl

/-- An index on a field that has none is registered and filled from the
segments, even if its file cannot be written. -/
theorem ensureIndex_register (coherent : Coherent w s) (calm : w.fault = none) (unique : Bool)
    (plain : ∀ policy ∈ w.col.enc, policy.isEncryptedField field = false)
    (fresh : field ∉ w.col.sidx.map Sidx.field) :
    Steps w [] ((ensureIndex field unique).run w).2 ∧
      ((ensureIndex field unique).run w).1 =
        (if sidxNameValid field then .ok () else .error .io) ∧
      indexFlags ((ensureIndex field unique).run w).2.col =
        indexFlags w.col ++ [(field, unique)] := by
  obtain ⟨filled, rebuilt, sameField, sameUnique, -⟩ :=
    Sidx.rebuild_exact (newSecondaryIndex field unique) coherent.disk.holds
  rw [Segments.map_fst_layout, ← coherent.allSegments_eq] at rebuilt
  obtain ⟨latest, scanned, made⟩ := Option.map_eq_some_iff.mp rebuilt
  obtain rfl : filled.field = field := sameField
  have step : Step w [] (afterRegister w filled) := by
    refine .register fresh plain ?_
    rw [sameUnique]
    exact rebuilt
  have flags : indexFlags (afterRegister w filled).col =
      indexFlags w.col ++ [(filled.field, unique)] := by
    simp only [indexFlags, afterRegister, List.map_append, List.map_singleton, sameUnique]
    rfl
  rw [run_ensureIndex_fresh calm unique plain fresh, scanned]
  dsimp only
  rw [made]
  split_ifs
  · refine ⟨.head step (Step.persist ?_).steps, rfl, flags⟩
    exact List.mem_append_right _ (List.mem_singleton_self _)
  · exact ⟨step.steps, rfl, flags⟩

/-- An index on a field that has one already is left as it is. -/
theorem ensureIndex_known (field : String) (unique : Bool)
    (plain : ∀ policy ∈ w.col.enc, policy.isEncryptedField field = false)
    (known : field ∈ w.col.sidx.map Sidx.field) :
    (ensureIndex field unique).run w = (.ok (), w) := by
  have exposed := any_isEncryptedField plain
  have found : (findIndex w.col field).isSome = true := by
    rw [Option.isSome_iff_ne_none]
    intro missing
    exact findIndex_eq_none.mp missing known
  have registered : (registerIndex field unique : Proc N Bool).run w = (.ok false, w) := by
    simp [registerIndex, Proc.run, found]
  rw [ensureIndex, readEnc, run_bind_ok (run_read _ w), exposed]
  simp only [Bool.false_eq_true, if_false]
  rw [run_bind_ok registered]
  rfl

theorem ensureIndex_encrypted (unique : Bool) (active : w.col.enc = some policy)
    (hidden : policy.isEncryptedField field = true) :
    (ensureIndex field unique).run w = (.error (.fieldEncrypted field), w) := by
  rw [ensureIndex, readEnc, run_bind_ok (run_read _ w), active]
  simp [hidden]

end Indexes

/-! ## Keyed writes -/

section Keyed

variable {w : World N} {s : Segments N}

omit [JsonNumber N] in
theorem keepable_stampKey (enc : Option (Encryptor N)) (data : Option (Data N))
    (key : String) : Keepable enc (some (stampKey data key)) := by
  left
  intro empty
  exact Data.set_ne_empty _ _ _ (Data.ext empty)

variable {env : Env} {key : String} {stamped : Data N}

omit [JsonNumber N] in
theorem eq_empty_of_first {ids : Finset Nat} (none : env.first ids = none) : ids = ∅ := by
  have keys : env.iteration.keys ids = [] := List.head?_eq_none_iff.mp none
  ext id
  rw [← env.iteration.mem, keys]
  simp

theorem carrying_some (coherent : Coherent w s) {id : Nat}
    (found : carrying env w.col key = some (id, loc)) :
    w.col.index.lookup id = some loc ∧ keyField ∈ w.col.sidx.map Sidx.field ∧
      ∃ e, records s.entries id = some e ∧ indexKey keyField e.data = some key := by
  obtain ⟨first, chosen, rest⟩ := Option.bind_eq_some_iff.mp found
  obtain ⟨entry, known, same⟩ := Option.map_eq_some_iff.mp rest
  obtain ⟨rfl, rfl⟩ := Prod.mk.inj same
  refine ⟨known, ?_⟩
  have member := Env.first_mem chosen
  rcases there : findIndex w.col keyField with - | t
  · simp [indexLookup, there] at member
  · simp only [indexLookup, there, Option.map_some, Option.getD_some] at member
    obtain ⟨inside, field⟩ := findIndex_eq_some there
    have want := ((coherent.indexed.exact t inside).bucket key first).mp member
    rw [field, Sidx.wanted] at want
    obtain ⟨line, alive, here⟩ := Option.bind_eq_some_iff.mp want
    exact ⟨field ▸ List.mem_map_of_mem inside, line.entry,
      by rw [coherent.record_eq, alive]; rfl, here⟩

/-- If there is an index on the key field and no record is found under a key,
then no record carries it. -/
theorem carrying_none (coherent : Coherent w s) (known : keyField ∈ w.col.sidx.map Sidx.field)
    (missing : carrying env w.col key = none) {id : Nat} (held : records s.entries id = some e) :
    indexKey keyField e.data ≠ some key := by
  intro carries
  rcases there : findIndex w.col keyField with - | t
  · exact findIndex_eq_none.mp there known
  · obtain ⟨inside, field⟩ := findIndex_eq_some there
    have exact := coherent.indexed.exact t inside
    have want (other : Nat) : other ∈ t.bucket key ↔
        ∃ e, records s.entries other = some e ∧ indexKey keyField e.data = some key := by
      rw [exact.bucket, field, Sidx.wanted, Option.bind_eq_some_iff, coherent.record_eq]
      simp [Option.map_eq_some_iff]
    have lookup : indexLookup w.col keyField key = t.bucket key := by
      simp [indexLookup, there]
    rw [carrying, lookup] at missing
    rcases chosen : env.first (t.bucket key) with - | first
    · have empty := eq_empty_of_first chosen
      have member := (want id).mpr ⟨e, held, carries⟩
      rw [empty] at member
      exact Finset.notMem_empty _ member
    · obtain ⟨other, alive, -⟩ := (want first).mp (Env.first_mem chosen)
      obtain ⟨loc, found, -⟩ := coherent.index_of_record alive
      rw [chosen, Option.bind_some, found] at missing
      cases missing

end Keyed

end Scriva.Engine.Calls
