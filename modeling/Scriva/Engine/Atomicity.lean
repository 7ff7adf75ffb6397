import Scriva.Engine.LoadJsonl
import Scriva.Engine.Sequential

/-!
# Batches that are refused

A batch is checked as a whole before its first line is appended, but whether a
line can be appended at all is found out line by line.  So a batch that ends
with an error has changed nothing if a check refused it or if its first line
could not be appended, and has left its first lines behind otherwise.
-/

namespace Scriva.Engine.Atomicity

open Lib.Text Lib.Keyed Store.Record Store.Ndjson Segment PrimaryIndex SecondaryIndex Directory
open Engine.Collection Machine Writing Calls Batches LoadJsonl Engine.Sequential
open Proc (run_bind_ok run_bind_error run_bind)

variable {N : Type}

variable [JsonNumber N] {records : List (Option (Data N))}

/-! ## Line by line -/

/-- The lines of a segment can hold an entry. -/
def Fits (e : Entry N) : Prop :=
  ∃ bytes, appendBytes e = .ok bytes

/-- If the first line can be appended, so can all others. -/
def Lead (lines : List (Entry N)) : Prop :=
  ∀ e rest, lines = e :: rest → Fits e → ∀ other ∈ rest, Fits other

/-- A procedure appends lines until one does not fit. -/
structure LineByLine {α : Type} (lines : List (Entry N)) (w : World N) (p : Proc N α) :
    Prop where
  whole : (∀ e ∈ lines, Fits e) → ∃ value w', p.run w = (.ok value, w') ∧ w'.fault = none
  first : ∀ e rest, lines = e :: rest → ¬ Fits e →
    ∃ reason, p.run w = (.error (.append reason), w)
  later : ∀ e rest, lines = e :: rest → Fits e → (∃ other ∈ rest, ¬ Fits other) →
    ∃ reason w', p.run w = (.error (.append reason), w') ∧
      w.col.active.size < w'.col.active.size

section LineByLine

variable {α β : Type} {w : World N} {lines : List (Entry N)}

theorem lineByLine_nil (calm : w.fault = none) (value : α) :
    LineByLine [] w (pure value : Proc N α) where
  whole := fun _ => ⟨value, w, rfl, calm⟩
  first := nofun
  later := nofun

variable {p : Proc N α}

theorem LineByLine.map (lined : LineByLine lines w p) (f : α → β) :
    LineByLine lines w (do
      let value ← p
      return f value) where
  whole := by
    intro fits
    obtain ⟨value, w', ran, calm⟩ := lined.whole fits
    exact ⟨f value, w', run_bind_ok ran _, calm⟩
  first := by
    intro e rest shape refused
    obtain ⟨reason, ran⟩ := lined.first e rest shape refused
    exact ⟨reason, run_bind_error ran _⟩
  later := by
    intro e rest shape fits refused
    obtain ⟨reason, w', ran, grew⟩ := lined.later e rest shape fits refused
    exact ⟨reason, w', run_bind_error ran _, grew⟩

/-- One line, and then the others. -/
theorem LineByLine.cons {e : Entry N} {next : α → Proc N β}
    (refused : ¬ Fits e → ∃ reason, p.run w = (.error (.append reason), w))
    (appended : Fits e → ∃ value w', p.run w = (.ok value, w') ∧
      w.col.active.size < w'.col.active.size ∧ LineByLine lines w' (next value)) :
    LineByLine (e :: lines) w (p >>= next) where
  whole := by
    intro fits
    obtain ⟨value, w₁, ran, -, rest⟩ := appended (fits e (.head _))
    obtain ⟨value', w', later, calm⟩ := rest.whole fun other member =>
      fits other (.tail _ member)
    exact ⟨value', w', (run_bind_ok ran _).trans later, calm⟩
  first := by
    rintro _ _ ⟨⟩ unfit
    obtain ⟨reason, ran⟩ := refused unfit
    exact ⟨reason, run_bind_error ran _⟩
  later := by
    rintro _ _ ⟨⟩ fits ⟨other, member, unfit⟩
    obtain ⟨value, w₁, ran, grew, rest⟩ := appended fits
    cases lines with
    | nil => cases member
    | cons next' others =>
      by_cases fits' : Fits next'
      · have further : ∃ other ∈ others, ¬ Fits other := by
          rcases List.mem_cons.mp member with rfl | inside
          · exact absurd fits' unfit
          · exact ⟨other, inside, unfit⟩
        obtain ⟨reason, w', later, more⟩ := rest.later next' others rfl fits' further
        exact ⟨reason, w', (run_bind_ok ran _).trans later, grew.trans more⟩
      · obtain ⟨reason, later⟩ := rest.first next' others rfl fits'
        exact ⟨reason, w₁, (run_bind_ok ran _).trans later, grew⟩

end LineByLine

/-! ## The loops of batches -/

variable {c : Collection N}

section Loops

variable {w : World N}

theorem fits_iff {e : Entry N} : ¬ Fits e ↔ ∃ reason, appendBytes e = .error reason := by
  unfold Fits
  rcases appendBytes e with reason | bytes
  · simp
  · simp

omit [JsonNumber N] in
theorem size_afterAppend (w : World N) (bytes : Bytes) :
    (afterAppend w bytes).col.active.size = w.col.active.size + bytes.length := by
  unfold afterAppend
  split_ifs
  · rfl
  · rfl

theorem size_lt_afterAppend (w : World N) {e : Entry N} {bytes : Bytes}
    (accepted : appendBytes e = .ok bytes) :
    w.col.active.size < (afterAppend w bytes).col.active.size := by
  obtain ⟨raw, rfl, -⟩ := appendBytes_shape accepted
  rw [size_afterAppend, List.length_append, List.length_singleton]
  omega

/-- A write fails because its line does not fit, or makes the segment longer. -/
theorem putEntry_cases (calm : w.fault = none) (e : Entry N) (plain : Option (Data N))
    (follow : Follow) :
    (¬ Fits e → ∃ reason, (putEntry e plain follow).run w = (.error (.append reason), w)) ∧
      (Fits e → ∃ bytes, appendBytes e = .ok bytes ∧
        (putEntry e plain follow).run w = (.ok (), afterPut w e plain follow bytes) ∧
        w.col.active.size < (afterPut w e plain follow bytes).col.active.size) := by
  have run := run_putEntry calm e plain follow
  constructor
  · intro unfit
    obtain ⟨reason, refused⟩ := fits_iff.mp unfit
    rw [refused] at run
    exact ⟨reason, run⟩
  · rintro ⟨bytes, accepted⟩
    rw [accepted] at run
    exact ⟨bytes, accepted, run, size_lt_afterAppend w accepted⟩

theorem deleteEntry_cases (calm : w.fault = none) (e : Entry N) :
    (¬ Fits e → ∃ reason, (deleteEntry e).run w = (.error (.append reason), w)) ∧
      (Fits e → ∃ bytes, appendBytes e = .ok bytes ∧
        (deleteEntry e).run w = (.ok (), afterDelete w e bytes) ∧
        w.col.active.size < (afterDelete w e bytes).col.active.size) := by
  have run := run_deleteEntry calm e
  constructor
  · intro unfit
    obtain ⟨reason, refused⟩ := fits_iff.mp unfit
    rw [refused] at run
    exact ⟨reason, run⟩
  · rintro ⟨bytes, accepted⟩
    rw [accepted] at run
    exact ⟨bytes, accepted, run, size_lt_afterAppend w accepted⟩

theorem putAll_lineByLine (calm : w.fault = none) (built : List (Entry N × Option (Data N))) :
    LineByLine (built.map Prod.fst) w (putAll built) := by
  induction built generalizing w with
  | nil => exact lineByLine_nil calm ()
  | cons pair built ih =>
    obtain ⟨refused, appended⟩ := putEntry_cases calm pair.1 pair.2 .index
    refine LineByLine.cons refused fun fits => ?_
    obtain ⟨bytes, -, ran, grew⟩ := appended fits
    refine ⟨(), _, ran, grew, ih ?_⟩
    exact (steady_afterPut w pair.1 pair.2 .index bytes).calm calm

/-- What the entries of a transaction depend on. -/
structure SameRevs (c c' : Collection N) : Prop where
  cfg : c.cfg = c'.cfg
  enc : c.enc = c'.enc
  revs : ∀ id, (c.index.lookup id).map IndexEntry.rev = (c'.index.lookup id).map IndexEntry.rev
  deadlines : ∀ id, (c.index.lookup id).map IndexEntry.expiresAt =
    (c'.index.lookup id).map IndexEntry.expiresAt

/-- The collection after a staged write, as far as later entries depend on it. -/
def txAfter (op : TxOp N) (e : Entry N) (c : Collection N) : Collection N :=
  match op.kind with
  | .insert | .update => setEntry e c.active.size c
  | .delete => dropEntry e.id c

/-- The lines of a transaction. -/
def txLines (env : Env) : Collection N → List (TxOp N × Option (Data N)) → List (Entry N)
  | _, [] => []
  | c, (op, stored) :: staged =>
    txEntry env c op stored ::
      txLines env (txAfter op (txEntry env c op stored) c) staged

variable {c' : Collection N}

section

omit [JsonNumber N]

theorem txEntry_congr (same : SameRevs c c') (env : Env) (op : TxOp N) (stored : Option (Data N)) :
    txEntry env c op stored = txEntry env c' op stored := by
  unfold txEntry
  rw [same.cfg, same.enc, same.revs, same.deadlines]

theorem SameRevs.set (same : SameRevs c c') (e : Entry N) (offset offset' : Nat) :
    SameRevs (setEntry e offset c) (setEntry e offset' c') where
  cfg := same.cfg
  enc := same.enc
  revs := by
    intro id
    simp only [setEntry, lookup_insert_if]
    split_ifs
    · rfl
    · exact same.revs id
  deadlines := by
    intro id
    simp only [setEntry, lookup_insert_if]
    split_ifs
    · rfl
    · exact same.deadlines id

theorem SameRevs.drop (same : SameRevs c c') (id : Nat) :
    SameRevs (dropEntry id c) (dropEntry id c') where
  cfg := same.cfg
  enc := same.enc
  revs := by
    intro other
    simp only [dropEntry, lookup_erase_if]
    split_ifs
    · rfl
    · exact same.revs other
  deadlines := by
    intro other
    simp only [dropEntry, lookup_erase_if]
    split_ifs
    · rfl
    · exact same.deadlines other

theorem SameRevs.after (same : SameRevs c c') (op : TxOp N) (e : Entry N) :
    SameRevs (txAfter op e c) (txAfter op e c') := by
  unfold txAfter
  cases op.kind with
  | insert | update => exact same.set e _ _
  | delete => exact same.drop e.id

theorem txLines_congr (same : SameRevs c c') (env : Env)
    (staged : List (TxOp N × Option (Data N))) : txLines env c staged = txLines env c' staged := by
  induction staged generalizing c c' with
  | nil => rfl
  | cons pair staged ih =>
    rw [txLines, txLines, txEntry_congr same, ih (same.after _ _)]

theorem sameRevs_append (w : World N) (same : SameRevs c w.col) (bytes : Bytes) :
    SameRevs c (afterAppend w bytes).col := by
  unfold afterAppend
  split_ifs
  · exact ⟨same.cfg, same.enc, same.revs, same.deadlines⟩
  · exact ⟨same.cfg, same.enc, same.revs, same.deadlines⟩

end

theorem txApplyAll_lineByLine (env : Env) (calm : w.fault = none) (same : SameRevs c w.col)
    (staged : List (TxOp N × Option (Data N))) :
    LineByLine (txLines env c staged) w (txApplyAll env staged) := by
  induction staged generalizing w c with
  | nil => exact lineByLine_nil calm []
  | cons pair staged ih =>
    obtain ⟨op, stored⟩ := pair
    obtain ⟨e, entry⟩ : ∃ e, e = txEntry env c op stored := ⟨_, rfl⟩
    have here : txEntry env w.col op stored = e := by rw [entry, txEntry_congr same]
    rw [txLines, ← entry]
    have applied {result : Except Error Unit} {w' : World N}
        (wrote : (txWrite op e).run w = (result, w')) :
        (txApply env op stored).run w = (result.map fun _ => e, w') := by
      rw [txApply, run_bind_ok (Proc.run_read _ w), here, run_bind, wrote]
      cases result with
      | error _ => rfl
      | ok _ => rfl
    have step {w' : World N} (wrote : (txWrite op e).run w = (.ok (), w'))
        (grew : w.col.active.size < w'.col.active.size) (calm' : w'.fault = none)
        (same' : SameRevs (txAfter op e c) w'.col) :
        ∃ value w', (txApply env op stored).run w = (.ok value, w') ∧
          w.col.active.size < w'.col.active.size ∧
          LineByLine (txLines env (txAfter op e c) staged) w' (do
            let committed ← txApplyAll env staged
            return value :: committed) :=
      ⟨e, w', applied wrote, grew, (ih calm' same').map (e :: ·)⟩
    have put {follow : Follow} (body : txWrite op e = putEntry e op.data follow)
        (after : txAfter op e c = setEntry e c.active.size c) :
        LineByLine (e :: txLines env (txAfter op e c) staged) w
          (txApplyAll env ((op, stored) :: staged)) := by
      obtain ⟨refused, appended⟩ := putEntry_cases calm e op.data follow
      rw [← body] at refused appended
      refine LineByLine.cons (fun unfit => ?_) fun fits => ?_
      · obtain ⟨reason, ran⟩ := refused unfit
        exact ⟨reason, applied ran⟩
      · obtain ⟨bytes, -, ran, grew⟩ := appended fits
        refine step ran grew ((steady_afterPut w e op.data follow bytes).calm calm) ?_
        have set := (sameRevs_append w same bytes).set e c.active.size w.col.active.size
        rw [after]
        exact ⟨set.cfg, set.enc, set.revs, set.deadlines⟩
    cases kind : op.kind with
    | insert => exact put (by rw [txWrite, kind]) (by rw [txAfter, kind])
    | update => exact put (by rw [txWrite, kind]) (by rw [txAfter, kind])
    | delete =>
      obtain ⟨refused, appended⟩ := deleteEntry_cases calm e
      have body : txWrite op e = deleteEntry e := by rw [txWrite, kind]
      rw [← body] at refused appended
      refine LineByLine.cons (fun unfit => ?_) fun fits => ?_
      · obtain ⟨reason, ran⟩ := refused unfit
        exact ⟨reason, applied ran⟩
      · obtain ⟨bytes, -, ran, grew⟩ := appended fits
        refine step ran grew ((steady_afterDelete w e bytes).calm calm) ?_
        have dropped := (sameRevs_append w same bytes).drop e.id
        rw [txAfter, kind]
        exact ⟨dropped.cfg, dropped.enc, dropped.revs, dropped.deadlines⟩

end Loops

/-! ## Batches that end with an error -/

section Errors

variable {w w' : World N} {e : Error}

/-- The segments, the indexes and what followers have been sent are as they
were. -/
structure Untouched (w w' : World N) : Prop where
  files : w'.disk.files = w.disk.files
  sealed : w'.col.sealed = w.col.sealed
  active : w'.col.active = w.col.active
  index : w'.col.index = w.col.index
  sidx : w'.col.sidx = w.col.sidx
  feed : w'.feed = w.feed

omit [JsonNumber N] in
theorem untouched_counted (w : World N) (idSeq : Nat) : Untouched w (counted w idSeq) :=
  ⟨rfl, rfl, rfl, rfl, rfl, rfl⟩

omit [JsonNumber N] in
theorem Untouched.trans {a b c : World N} (first : Untouched a b) (second : Untouched b c) :
    Untouched a c where
  files := second.files.trans first.files
  sealed := second.sealed.trans first.sealed
  active := second.active.trans first.active
  index := second.index.trans first.index
  sidx := second.sidx.trans first.sidx
  feed := second.feed.trans first.feed

/-- A batch has changed nothing and its first line decides, or it has made the
active segment longer before a line did not fit. -/
def Stopped (lines : List (Entry N)) (w w' : World N) : Prop :=
  (Untouched w w' ∧ Lead lines) ∨ (w.col.active.size < w'.col.active.size ∧ ¬ Lead lines)

theorem Stopped.untouched_iff {lines : List (Entry N)} (stopped : Stopped lines w w') :
    Untouched w w' ↔ Lead lines := by
  rcases stopped with ⟨untouched, lead⟩ | ⟨grew, unled⟩
  · exact ⟨fun _ => lead, fun _ => untouched⟩
  · refine ⟨fun untouched => ?_, fun lead => absurd lead unled⟩
    rw [untouched.active] at grew
    exact absurd grew (lt_irrefl _)

/-- Nothing fails after the lines, so an error comes from a line. -/
theorem LineByLine.stopped {α β : Type} {lines : List (Entry N)} {p : Proc N α}
    {next : α → Proc N β} (lined : LineByLine lines w p)
    (tail : ∀ value w', w'.fault = none → ∃ result w'', (next value).run w' = (.ok result, w''))
    (ran : (p >>= next).run w = (.error e, w')) : Stopped lines w w' := by
  by_cases fits : ∀ e ∈ lines, Fits e
  · obtain ⟨value, w₁, first, calm⟩ := lined.whole fits
    obtain ⟨result, w₂, rest⟩ := tail value w₁ calm
    rw [run_bind_ok first, rest] at ran
    cases ran
  push Not at fits
  obtain ⟨unfit, member, refused⟩ := fits
  cases lines with
  | nil => cases member
  | cons first rest =>
    by_cases starts : Fits first
    · have further : ∃ other ∈ rest, ¬ Fits other := by
        rcases List.mem_cons.mp member with rfl | inside
        · exact absurd starts refused
        · exact ⟨unfit, inside, refused⟩
      obtain ⟨reason, w₁, stopped, grew⟩ := lined.later first rest rfl starts further
      rw [run_bind_error stopped] at ran
      cases ran
      refine .inr ⟨grew, fun lead => ?_⟩
      obtain ⟨other, inside, unfit⟩ := further
      exact unfit (lead first rest rfl starts other inside)
    · obtain ⟨reason, stopped⟩ := lined.first first rest rfl starts
      rw [run_bind_error stopped] at ran
      cases ran
      refine .inl ⟨⟨rfl, rfl, rfl, rfl, rfl, rfl⟩, ?_⟩
      rintro _ _ ⟨⟩ fits
      exact absurd fits starts

/-- A procedure ends without an error, and no failure is to come. -/
def Succeeds {α : Type} (p : Proc N α) (w : World N) : Prop :=
  ∃ value w', p.run w = (.ok value, w') ∧ w'.fault = none

section

omit [JsonNumber N]

theorem Succeeds.bind {α β : Type} {p : Proc N α} {next : α → Proc N β} {value : α}
    (first : p.run w = (.ok value, w')) (later : Succeeds (next value) w') :
    Succeeds (p >>= next) w := by
  obtain ⟨result, final, rest, calm⟩ := later
  exact ⟨result, final, (run_bind_ok first next).trans rest, calm⟩

theorem Succeeds.then {α β : Type} {p : Proc N α} {next : α → Proc N β}
    (first : Succeeds p w)
    (later : ∀ value w', w'.fault = none → Succeeds (next value) w') :
    Succeeds (p >>= next) w := by
  obtain ⟨value, w', ran, calm⟩ := first
  exact Succeeds.bind ran (later value w' calm)

theorem persistMeta_succeeds (calm : w.fault = none) :
    Succeeds (persistMeta.attempt : Proc N Unit) w := by
  refine ⟨(), afterNote w, ?_, calm⟩
  rw [Proc.run_attempt, run_persistMeta calm]

theorem rotateIf_succeeds (calm : w.fault = none) (full : Bool) :
    Succeeds (rotateIf full : Proc N Unit) w := by
  cases full with
  | false => exact ⟨(), w, rfl, calm⟩
  | true =>
    obtain ⟨w', ran, calm', -⟩ := run_rotateSegment_calm calm
    exact ⟨(), w', ran, calm'⟩

/-- What comes after the lines under the lock does not fail. -/
theorem finish_succeeds (calm : w.fault = none) (committed : List (Entry N)) :
    Succeeds (do
      syncActive
      publishCommit committed
      isFull : Proc N Bool) w :=
  Succeeds.bind (run_syncActive calm) ⟨_, _, rfl, calm⟩

end

/-- A batch under the lock, and what comes after it. -/
theorem LineByLine.batch_stopped {α β : Type} {lines : List (Entry N)} {p : Proc N α}
    {next : Bool → Proc N β} (lined : LineByLine lines w p) (committed : α → List (Entry N))
    (tail : ∀ full w', w'.fault = none → Succeeds (next full) w')
    (ran : ((do
      let value ← p
      syncActive
      publishCommit (committed value)
      isFull : Proc N Bool).locked >>= next).run w = (.error e, w')) :
    Stopped lines w w' := by
  let finish (value : α) : Proc N Bool := do
    syncActive
    publishCommit (committed value)
    isFull
  have rest : ∀ value w₁, w₁.fault = none →
      ∃ result w₂, (finish value >>= next).run w₁ = (.ok result, w₂) := by
    intro value w₁ calm
    obtain ⟨result, w₂, later, -⟩ := (finish_succeeds calm (committed value)).then tail
    exact ⟨result, w₂, later⟩
  have regrouped : (p >>= fun value => finish value >>= next).run w = (.error e, w') := by
    rw [run_bind, Proc.run_locked, run_bind] at ran
    rw [run_bind]
    rcases shape : p.run w with ⟨outcome, middle⟩
    rw [shape] at ran
    cases outcome with
    | error _ => exact ran
    | ok value =>
      simp only at ran ⊢
      rw [run_bind]
      exact ran
  exact lined.stopped rest regrouped

/-! ### New records -/

/-- The lines of a batch of new records, none if a check refuses it. -/
def insertLines (env : Env) (c : Collection N) (records : List (Option (Data N)))
    (expiresAt : Option Int) : List (Entry N) :=
  match insertChecks env c records expiresAt with
  | .error _ => []
  | .ok built => built.map Prod.fst

theorem lead_nil : Lead ([] : List (Entry N)) :=
  nofun

theorem insertMany_stopped (calm : w.fault = none) (env : Env) (records : List (Option (Data N)))
    (expiresAt : Option Int) (ran : (insertMany env records expiresAt).run w = (.error e, w')) :
    Stopped (insertLines env w.col records expiresAt) w w' := by
  by_cases some? : records = []
  · rw [insertMany, if_pos some?] at ran
    cases ran
  obtain ⟨idSeq, shape, -⟩ := run_insertMany env some? expiresAt w
  rw [shape] at ran
  rw [insertLines]
  rcases checked : insertChecks env w.col records expiresAt with e' | built
  · rw [checked] at ran
    cases ran
    exact .inl ⟨untouched_counted w idSeq, lead_nil⟩
  · rw [checked] at ran
    have lined := putAll_lineByLine (w := counted w idSeq) calm built
    have stopped : Stopped (built.map Prod.fst) (counted w idSeq) w' := by
      refine lined.batch_stopped (fun _ => built.map Prod.fst) (fun full w₁ calm₁ => ?_) ran
      exact (rotateIf_succeeds calm₁ full).then fun _ w₂ calm₂ => ⟨_, w₂, rfl, calm₂⟩
    rcases stopped with ⟨untouched, lead⟩ | grew
    · exact .inl ⟨(untouched_counted w idSeq).trans untouched, lead⟩
    · exact .inr grew

/-! ### Transactions -/

/-- The lines of a transaction, none if a check refuses it. -/
def commitLines (env : Env) (c : Collection N) (ops : List (TxOp N)) : List (Entry N) :=
  match commitChecks env c ops with
  | .error _ => []
  | .ok staged => txLines env c staged

theorem commitLines_counted (env : Env) (w : World N) (idSeq : Nat) (ops : List (TxOp N)) :
    commitLines env (counted w idSeq).col ops = commitLines env w.col ops := by
  have checks : commitChecks env (counted w idSeq).col ops = commitChecks env w.col ops := rfl
  rw [commitLines, commitLines, checks]
  rcases commitChecks env w.col ops with e | staged
  · rfl
  · have same : SameRevs (counted w idSeq).col w.col :=
      ⟨rfl, rfl, fun _ => rfl, fun _ => rfl⟩
    exact txLines_congr same env staged

theorem commitTx_stopped (calm : w.fault = none) (env : Env) (ops : List (TxOp N))
    (ran : (commitTx env ops).run w = (.error e, w')) :
    Stopped (commitLines env w.col ops) w w' := by
  by_cases some? : ops = []
  · rw [commitTx, if_pos some?] at ran
    cases ran
  rw [run_commitTx env some?] at ran
  rw [commitLines]
  rcases checked : commitChecks env w.col ops with e' | staged
  · rw [checked] at ran
    cases ran
    exact .inl ⟨untouched_counted w w.col.idSeq, lead_nil⟩
  · rw [checked] at ran
    have same : SameRevs w.col w.col := ⟨rfl, rfl, fun _ => rfl, fun _ => rfl⟩
    refine (txApplyAll_lineByLine env calm same staged).batch_stopped
      (fun committed => committed) (fun full w₁ calm₁ => ?_) ran
    refine (rotateIf_succeeds calm₁ full).then fun _ w₂ calm₂ => ?_
    split_ifs
    · exact persistMeta_succeeds calm₂
    · exact ⟨_, w₂, rfl, calm₂⟩

/-! ### Loads -/

/-- There can be no index of the keys: they are encrypted, or the segments to
fill it from cannot be scanned. -/
def KeyIndexRefused (w : World N) : Prop :=
  (∃ policy ∈ w.col.enc, policy.isEncryptedField keyField = true) ∨
    (keyField ∉ w.col.sidx.map Sidx.field ∧
      Sidx.scanLatest (N := N) w.disk.segment (allSegments w.col) ∅ = none)

/-- The index of the keys is refused, there already, or added. -/
theorem ensureKeyIndex_calm (calm : w.fault = none) :
    (KeyIndexRefused w ∧ ∃ e, (ensureKeyIndex : Proc N Unit).run w = (.error e, w)) ∨
      (¬ KeyIndexRefused w ∧ keyField ∈ w.col.sidx.map Sidx.field ∧
        (ensureKeyIndex : Proc N Unit).run w = (.ok (), w)) ∨
      (¬ KeyIndexRefused w ∧ keyField ∉ w.col.sidx.map Sidx.field ∧
        ∃ w', (ensureKeyIndex : Proc N Unit).run w = (.ok (), w') ∧ w'.fault = none ∧
          w'.col.active = w.col.active ∧ w'.col.sidx.length = w.col.sidx.length + 1) := by
  by_cases hidden : ∃ policy ∈ w.col.enc, policy.isEncryptedField keyField = true
  · obtain ⟨policy, active, encrypted⟩ := hidden
    exact .inl ⟨.inl ⟨policy, active, encrypted⟩, _, ensureIndex_encrypted true active encrypted⟩
  have plain : ∀ policy ∈ w.col.enc, policy.isEncryptedField keyField = false := by
    intro policy active
    by_contra shown
    exact hidden ⟨policy, active, by simpa using shown⟩
  by_cases known : keyField ∈ w.col.sidx.map Sidx.field
  · refine .inr (.inl ⟨?_, known, ensureIndex_known keyField true plain known⟩)
    rintro (encrypted | ⟨unknown, -⟩)
    · exact hidden encrypted
    · exact unknown known
  have run := run_ensureIndex_fresh calm true plain known
  rcases scanned : Sidx.scanLatest (N := N) w.disk.segment (allSegments w.col) ∅ with - | latest
  · rw [scanned] at run
    exact .inl ⟨.inr ⟨known, scanned⟩, .unreadable, run⟩
  · rw [scanned] at run
    refine .inr (.inr ⟨?_, known, _, run, calm, rfl, by simp [afterRegister]⟩)
    rintro (encrypted | ⟨-, unreadable⟩)
    · exact hidden encrypted
    · rw [scanned] at unreadable
      cases unreadable

/-- The writes of a load. -/
def stagedInserts (ts : Utc) : List (Option (Data N)) → Nat → List (TxOp N)
  | [], _ => []
  | data :: records, last => ⟨.insert, last + 1, data, ts⟩ :: stagedInserts ts records (last + 1)

omit [JsonNumber N] in
theorem run_stageInserts (ts : Utc) (records : List (Option (Data N))) (w : World N) :
    (stageInserts ts records).run w =
      (.ok (stagedInserts ts records w.col.idSeq),
        counted w (w.col.idSeq + records.length)) := by
  induction records generalizing w with
  | nil => rfl
  | cons data records ih =>
    have total : w.col.idSeq + (data :: records).length =
        w.col.idSeq + 1 + records.length := by
      rw [List.length_cons]
      omega
    rw [stageInserts, run_bind_ok (run_reserveID w),
      run_bind_ok (ih (afterReserve w)), total]
    rfl

/-- The lines of a load, none if its input or a check refuses it. -/
def loadLines (env : Env) (c : Collection N) (text : List Char) (keyedBy : String) :
    List (Entry N) :=
  match parseJSONL keyedBy text with
  | .error _ => []
  | .ok records => commitLines env c (stagedInserts env.ts records c.idSeq)

/-- A load after the index of the keys is there. -/
def loadRecords (env : Env) (text : List Char) (keyedBy : String) : Proc N Nat := do
  let records ← Proc.check (parseJSONL keyedBy text)
  if records = [] then return 0
  let ops ← stageInserts env.ts records
  commitTx env ops
  return records.length

/-- A load fails on its input, or when its records are committed under new ids. -/
theorem loadRecords_error {env : Env} {text : List Char} {keyedBy : String}
    (ran : (loadRecords (N := N) env text keyedBy).run w = (.error e, w')) :
    (parseJSONL (N := N) keyedBy text = .error e ∧ w' = w) ∨
      ∃ records, parseJSONL keyedBy text = .ok records ∧ records ≠ [] ∧
        (commitTx env (stagedInserts env.ts records w.col.idSeq)).run
          (counted w (w.col.idSeq + records.length)) = (.error e, w') := by
  rw [loadRecords, run_check_bind] at ran
  rcases parsed : parseJSONL (N := N) keyedBy text with e' | records
  · rw [parsed] at ran
    cases ran
    exact .inl ⟨rfl, rfl⟩
  rw [parsed] at ran
  simp only at ran
  split_ifs at ran with empty
  · cases ran
  rw [run_bind_ok (run_stageInserts env.ts records w), run_bind] at ran
  rcases committed : (commitTx env (stagedInserts env.ts records w.col.idSeq)).run
      (counted w (w.col.idSeq + records.length)) with ⟨outcome, w₁⟩
  rw [committed] at ran
  cases outcome with
  | ok _ => cases ran
  | error e' =>
    cases ran
    exact .inr ⟨records, rfl, empty, committed⟩

theorem loadRecords_stopped (calm : w.fault = none) (env : Env) (text : List Char)
    (keyedBy : String) (ran : (loadRecords (N := N) env text keyedBy).run w = (.error e, w')) :
    Stopped (loadLines env w.col text keyedBy) w w' := by
  rw [loadLines]
  rcases loadRecords_error ran with ⟨refused, rfl⟩ | ⟨records, parsed, -, committed⟩
  · rw [refused]
    exact .inl ⟨untouched_counted w' w'.col.idSeq, lead_nil⟩
  · generalize w.col.idSeq + records.length = idSeq at committed
    have stopped := commitTx_stopped (w := counted w idSeq) calm env _ committed
    rw [commitLines_counted] at stopped
    rw [parsed]
    rcases stopped with ⟨untouched, lead⟩ | grew
    · exact .inl ⟨(untouched_counted w idSeq).trans untouched, lead⟩
    · exact .inr grew

theorem loadJSONL_untouched_iff (calm : w.fault = none) (env : Env) (text : List Char)
    (keyedBy : String)
    (ran : (LoadJsonl.loadJSONL (N := N) env text keyedBy).run w = (.error e, w')) :
    Untouched w w' ↔
      (keyedBy = "" ∧ Lead (loadLines env w.col text keyedBy)) ∨
        (keyedBy ≠ "" ∧ (KeyIndexRefused w ∨ (keyField ∈ w.col.sidx.map Sidx.field ∧
          Lead (loadLines env w.col text keyedBy)))) := by
  rw [LoadJsonl.loadJSONL] at ran
  by_cases keyed : keyedBy = ""
  · have body : (loadRecords (N := N) env text keyedBy).run w = (.error e, w') := by
      rw [if_neg (not_not.mpr keyed)] at ran
      exact ran
    rw [(loadRecords_stopped calm env text keyedBy body).untouched_iff]
    simp [keyed]
  · rw [if_pos keyed] at ran
    rcases ensureKeyIndex_calm calm with
      ⟨refused, e', ended⟩ | ⟨open?, known, ended⟩ | ⟨open?, unknown, w₁, ended, calm₁, active, more⟩
    · rw [run_bind_error ended] at ran
      cases ran
      simp only [keyed, ne_eq, not_false_eq_true, true_and, false_and, false_or, refused,
        true_or, iff_true]
      exact ⟨rfl, rfl, rfl, rfl, rfl, rfl⟩
    · rw [run_bind_ok ended] at ran
      have body : (loadRecords (N := N) env text keyedBy).run w = (.error e, w') := ran
      rw [(loadRecords_stopped calm env text keyedBy body).untouched_iff]
      simp [keyed, open?, known]
    · rw [run_bind_ok ended] at ran
      have body : (loadRecords (N := N) env text keyedBy).run w₁ = (.error e, w') := ran
      have stopped := loadRecords_stopped calm₁ env text keyedBy body
      have touched : ¬ Untouched w w' := by
        intro untouched
        rcases stopped with ⟨same, -⟩ | ⟨grew, -⟩
        · have length := congrArg List.length (same.sidx.symm.trans untouched.sidx)
          omega
        · rw [untouched.active, active] at grew
          exact absurd grew (lt_irrefl _)
      simp [keyed, open?, unknown, touched]

end Errors

/-! ## Batches -/

inductive Batch (N : Type) where
  | insertMany (records : List (Option (Data N))) (expiresAt : Option Int)
  | commitTx (ops : List (TxOp N))
  | loadJSONL (text : List Char) (keyedBy : String)

/-- The request that gives a batch. -/
def Batch.request : Batch N → Request N
  | .insertMany records expiresAt => .call (.insertMany records expiresAt)
  | .commitTx ops => .call (.commitTx ops)
  | .loadJSONL text keyedBy => .loadJSONL text keyedBy

/-- An error cannot leave a part of a batch behind: a check refuses the batch,
or its first line does not fit, or all of them do; and a keyed load finds the
index of the keys, or there can be none. -/
def Batch.Whole (env : Env) (w : World N) : Batch N → Prop
  | .insertMany records expiresAt => Lead (insertLines env w.col records expiresAt)
  | .commitTx ops => Lead (commitLines env w.col ops)
  | .loadJSONL text keyedBy =>
    (keyedBy = "" ∧ Lead (loadLines env w.col text keyedBy)) ∨
      (keyedBy ≠ "" ∧ (KeyIndexRefused w ∨ (keyField ∈ w.col.sidx.map Sidx.field ∧
        Lead (loadLines env w.col text keyedBy))))

omit [JsonNumber N] in
/-- A call that is replied to with an error has failed with it. -/
theorem run_of_reply_error {α : Type} {p : Proc N α} {f : α → Reply} {w : World N}
    (ran : (do
      let value ← p
      return f value : Proc N Reply).run w = (.error e, w')) : p.run w = (.error e, w') := by
  rw [run_bind] at ran
  rcases shape : p.run w with ⟨outcome, middle⟩
  rw [shape] at ran
  cases outcome with
  | ok value => cases ran
  | error e' =>
    cases ran
    rfl

/-- A batch that ends with an error has changed nothing exactly if no part of
it can be left behind. -/
theorem batch_error_untouched_iff (w : World N) (calm : w.fault = none) (env : Env)
    (batch : Batch N) (e : Error) (w' : World N)
    (ran : (batch.request.proc env).run w = (.error e, w')) :
    Untouched w w' ↔ batch.Whole env w := by
  cases batch with
  | insertMany records expiresAt =>
    exact (insertMany_stopped calm env records expiresAt (run_of_reply_error ran)).untouched_iff
  | commitTx ops => exact (commitTx_stopped calm env ops (run_of_reply_error ran)).untouched_iff
  | loadJSONL text keyedBy =>
    exact loadJSONL_untouched_iff calm env text keyedBy (run_of_reply_error ran)

/-- A new collection. -/
def small : World Int := fresh smallConfig none .asWritten

/-- A collection with two records and a unique index on their numbers. -/
def filled : World Int :=
  ((insertMany stillEnv [some (oneField "n" 5), some (oneField "n" 6)] none).run
    ((ensureIndex "n" true).run small).2).2

/-- Three records, of which the last has a number that is taken. -/
def clashing : List (Option (Data Int)) :=
  [some (oneField "n" 7), some (oneField "n" 8), some (oneField "n" 6)]

set_option maxRecDepth 4000 in
theorem batch_error_untouched_filled :
    ∃ w', ((Batch.insertMany clashing none).request.proc stillEnv).run filled =
        (.error (.duplicateKey "n" "6"), w') ∧ Untouched filled w' := by
  have ran : ((Batch.insertMany clashing none).request.proc stillEnv).run filled =
      (.error (.duplicateKey "n" "6"), _) := Prod.ext (by decide +kernel) rfl
  have lines : insertLines stillEnv filled.col clashing none = [] := by decide +kernel
  have whole : (Batch.insertMany clashing none).Whole stillEnv filled := by
    rw [Batch.Whole, lines]
    exact lead_nil
  exact ⟨_, ran, (batch_error_untouched_iff filled (by decide +kernel) stillEnv _ _ _ ran).mpr
    whole⟩

theorem txCheckFrom_nil (ops : List (TxOp N)) (claimed : Claims) :
    txCheckFrom [] ops claimed = .ok () := by
  induction ops generalizing claimed with
  | nil => rfl
  | cons op ops ih =>
    rw [txCheckFrom, txCheckOp]
    cases op.kind with
    | insert | update | delete => exact ih claimed

/-- Without limits and indexes only the records themselves are checked. -/
theorem insertChecks_plain (unindexed : c.sidx = []) (records? : c.cfg.maxRecords = 0)
    (bytes? : c.cfg.maxBytes = 0) (env : Env) (free : records.forM checkReserved = .ok ())
    (expiresAt : Option Int) :
    insertChecks env c records expiresAt =
      sealInserts c.enc env (resolveInsertExpiry c.cfg env.now expiresAt) records c.idSeq 0 := by
  have quota (count size : Nat) : checkQuota c count size = .ok () := by
    simp [checkQuota, records?, bytes?]
  have unique (ops : List (TxOp N)) : txCheckUnique c ops = .ok () := by
    rw [txCheckUnique, unindexed, txCheckFrom_nil]
  simp only [insertChecks, free, quota, unique]
  rcases sealInserts c.enc env (resolveInsertExpiry c.cfg env.now expiresAt) records c.idSeq 0
    with e | built
  · rfl
  · rfl

/-- The line of a record as the new collection numbers it. -/
def smallLine (id : Nat) (data : Data Int) : Entry Int :=
  { newInsert id (some data) .zero with rev := 1 }

theorem insertMany_small_cut {first second : Data Int}
    (free : [some first, some second].forM checkReserved = .ok ())
    (fits : Fits (smallLine 1 first)) (unfit : ¬ Fits (smallLine 2 second)) :
    ∃ reason w', ((Batch.insertMany [some first, some second] none).request.proc stillEnv).run
        small = (.error (.append reason), w') ∧
      small.col.active.size < w'.col.active.size := by
  have unencrypted : ∀ policy ∈ (none : Option (Encryptor Int)), Lawful policy :=
    nofun
  obtain ⟨amid, cfg, enc⟩ := amid_fresh smallConfig .asWritten unencrypted
  have enc? : small.col.enc = none := enc
  have cfg? : small.col.cfg = smallConfig := cfg
  have idSeq? : small.col.idSeq = 0 := by decide +kernel
  have unindexed : small.col.sidx = [] := by decide +kernel
  have checks : insertChecks stillEnv small.col [some first, some second] none =
      .ok [(smallLine 1 first, some first), (smallLine 2 second, some second)] := by
    rw [insertChecks_plain unindexed (by rw [cfg?]; rfl) (by rw [cfg?]; rfl) stillEnv free none,
      enc?, cfg?, idSeq?]
    rfl
  have some? : [some first, some second] ≠ [] := List.cons_ne_nil _ _
  obtain ⟨idSeq, shape, -⟩ := run_insertMany stillEnv some? none small
  rw [checks] at shape
  have lined := putAll_lineByLine (w := counted small idSeq) amid.calm
    [(smallLine 1 first, some first), (smallLine 2 second, some second)]
  obtain ⟨reason, w', stopped, grew⟩ := lined.later (smallLine 1 first) [smallLine 2 second] rfl
    fits ⟨_, List.mem_singleton_self _, unfit⟩
  refine ⟨reason, w', ?_, grew⟩
  have inside : (storeAll [(smallLine 1 first, some first),
      (smallLine 2 second, some second)]).locked.run (counted small idSeq) =
        (.error (.append reason), w') := run_bind_error stopped _
  exact run_bind_error (shape.trans (run_bind_error inside _)) _

/-- A text as long as the longest line. -/
def longText : String := String.ofList (List.replicate maxScanTokenSize 'a')

def longRecord : Data Int := ⟨[("n", .str longText)], rfl⟩

/-- A record that is too long for a line leaves the records before it. -/
theorem insertMany_leaves_first :
    ∃ reason w', ((Batch.insertMany [some (oneField "n" 5), some longRecord]
        none).request.proc stillEnv).run small = (.error (.append reason), w') ∧
      small.col.active.size < w'.col.active.size := by
  have fits : Fits (smallLine 1 (oneField "n" 5)) := by
    by_contra unfit
    obtain ⟨reason, refused⟩ := fits_iff.mp unfit
    have accepted : (appendBytes (smallLine 1 (oneField "n" 5))).toBool = true := by decide +kernel
    rw [refused] at accepted
    cases accepted
  have unfit : ¬ Fits (smallLine 2 longRecord) := by
    rintro ⟨bytes, accepted⟩
    refine appendBytes_long rfl (.head _) ?_ bytes accepted
    rw [longText, String.toList_ofList, List.length_replicate]
  exact insertMany_small_cut rfl fits unfit

end Scriva.Engine.Atomicity
