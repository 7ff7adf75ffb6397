import Scriva.Engine.Calls

/-!
# What a write of one record comes to

A write of one record is determined by the collection before it: its checks,
made in order on what the call was given and on the indexes, end it with an
error or give the one line that it appends.  `Executes` ties such a plan to the
procedure.  Two collections whose plans for a call are the same thus append the
same line and give the same reply, wherever their lines are.
-/

namespace Scriva.Engine.Plans

open Lib.Fallible Store.Record Store.Ndjson Segment PrimaryIndex Directory Engine.Collection Journal
open Coherence Writing Calls
open Machine (Refusal)

variable {N : Type} [JsonNumber N]

/-! ## Plans -/

/-- An entry whose line can be appended. -/
def lineOf (e : Entry N) : Except Error (Entry N) :=
  ((appendBytes e).mapError Error.append).map fun _ => e

/-- The line of an insert under the write lock. -/
def insertLockedPlan (c : Collection N) (e : Entry N) (data : Option (Data N)) :
    Except Error (Entry N) := do
  checkQuota c 1 (entryQuotaBytes c.cfg e)
  sidxCheckUnique c e.id data
  lineOf e

def insertPlan (env : Env) (c : Collection N) (data : Option (Data N)) (expiresAt : Int) :
    Except Error (Entry N) := do
  let e ← sealEntryData c.enc env.seed
    { newInsert (c.idSeq + 1) data env.ts with rev := 1, expiresAt }
  insertLockedPlan c e data

def updatePlan (env : Env) (c : Collection N) (id : Nat) (data : Option (Data N))
    (expiresAt : Option Int) : Except Error (Entry N) := do
  let e ← sealEntryData c.enc env.seed (newUpdate id data env.ts)
  match c.index.lookup id with
  | none => .error (.notFound id)
  | some cur =>
    sidxCheckUnique c id data
    lineOf { e with rev := cur.rev + 1, expiresAt := expiresAt.getD cur.expiresAt }

def deletePlan (env : Env) (c : Collection N) (id : Nat) : Except Error (Entry N) :=
  match c.index.lookup id with
  | none => .error (.notFound id)
  | some _ => lineOf (newDelete id env.ts)

/-- The line that replaces the record under a key. -/
def replacePlan (env : Env) (c : Collection N) (stamped : Data N) (id : Nat)
    (cur : IndexEntry) : Except Error (Entry N) := do
  sidxCheckUnique c id (some stamped)
  let e ← sealEntryData c.enc env.seed
    { newUpdate id (some stamped) env.ts with rev := cur.rev + 1, expiresAt := cur.expiresAt }
  lineOf e

/-- The line of a new record under a key. -/
def insertKeyPlan (env : Env) (c : Collection N) (stamped : Data N) : Except Error (Entry N) := do
  let e : Entry N := { newInsert (c.idSeq + 1) (some stamped) env.ts with
    rev := 1, expiresAt := resolveInsertExpiry c.cfg env.now none }
  checkQuota c 1 (entryQuotaBytes c.cfg e)
  sidxCheckUnique c (c.idSeq + 1) (some stamped)
  let e ← sealEntryData c.enc env.seed e
  lineOf e

/-- The line of a conditional update, if its test passes. -/
def swapPlan (env : Env) (w : World N) (key : String) (data : Option (Data N))
    (test : Option (Data N) → Nat → Bool) : Except Error (Option (Entry N)) :=
  match carrying env w.col key with
  | none => .ok none
  | some (id, loc) => do
    let current ← readEntry w id loc
    let plain ← materialize w.col.enc current.data
    if test plain loc.rev then
      (replacePlan env w.col (stampKey data key) id loc).map some
    else .ok none

variable {α β : Type} {data : Option (Data N)} {e : Entry N} {plan : Except Error (Entry N)}
  {refused : Error → Prop} {made : Entry N → Prop} {enc : Option (Encryptor N)}

/-- A conditional update that is made replaces the record under the key. -/
theorem swapPlan_some {env : Env} {w : World N} {key : String} {test : Option (Data N) → Nat → Bool}
    (planned : swapPlan env w key data test = .ok (some e)) :
    ∃ id loc, carrying env w.col key = some (id, loc) ∧ (∃ plain, test plain loc.rev = true) ∧
      replacePlan env w.col (stampKey data key) id loc = .ok e := by
  rw [swapPlan] at planned
  rcases found : carrying env w.col key with - | ⟨id, loc⟩
  · rw [found] at planned
    cases planned
  · rw [found] at planned
    obtain ⟨current, -, planned⟩ := ok_of_bind planned
    obtain ⟨plain, -, planned⟩ := ok_of_bind planned
    split_ifs at planned with passed
    · obtain ⟨line, replaced, planned⟩ := ok_of_bind planned
      obtain rfl := Option.some.inj (Except.ok.inj planned)
      exact ⟨id, loc, rfl, ⟨plain, passed⟩, replaced⟩
    · cases planned

theorem lineOf_eq_ok {line : Entry N} (planned : lineOf e = .ok line) : line = e := by
  rw [lineOf] at planned
  obtain ⟨bytes, encoded, planned⟩ := ok_of_bind planned
  exact (Except.ok.inj planned).symm

/-! ## What plans come to -/

/-- A plan ends with an error of some kind, or gives what is described. -/
def Planned (refused : Error → Prop) (made : α → Prop) : Except Error α → Prop
  | .error e => refused e
  | .ok value => made value

theorem Planned.bind {first : Except Error α} {next : α → Except Error β} {known : α → Prop}
    {made : β → Prop} (start : Planned refused known first)
    (later : ∀ value, known value → Planned refused made (next value)) :
    Planned refused made (first >>= next) := by
  rcases first with error | value
  · exact start
  · exact later value start

theorem Planned.imp {outcome : Except Error α} {made made' : α → Prop}
    (planned : Planned refused made outcome) (weaker : ∀ value, made value → made' value) :
    Planned refused made' outcome := by
  rcases outcome with error | value
  · exact planned
  · exact weaker value planned

theorem Planned.known {outcome : Except Error α} {made : α → Prop}
    (planned : Planned refused made outcome) :
    Planned refused (fun value => made value ∧ outcome = .ok value) outcome := by
  rcases outcome with error | value
  · exact planned
  · exact ⟨planned, rfl⟩

omit [JsonNumber N] in
theorem planned_quota (c : Collection N) (records bytes : Nat) :
    Planned (Refusal enc) (fun _ => True) (checkQuota c records bytes) := by
  rcases checkQuota_cases c records bytes with within | exhausted
  · rw [within]
    exact trivial
  · rw [exhausted]
    exact .exhausted

theorem planned_unique (c : Collection N) (id : Nat) (data : Option (Data N)) :
    Planned (Refusal enc) (fun _ => sidxCheckUnique c id data = .ok ())
      (sidxCheckUnique c id data) := by
  rcases sidxCheckUnique_cases c id data with unique | ⟨field, key, duplicate⟩
  · rw [unique]
    exact rfl
  · rw [duplicate]
    exact .duplicate field key

omit [JsonNumber N] in
theorem planned_seal (lawful : ∀ policy ∈ enc, Lawful policy) (seed : Nat)
    (keep : Keepable enc e.data) (utc : e.ts.offset = 0) :
    Planned (Refusal enc) (Puts enc e.op e.id e.data e.rev e.expiresAt)
      (sealEntryData enc seed e) := by
  rcases sealEntryData_cases lawful seed keep utc with ⟨stored, sealed, puts⟩ | ⟨error, failed, refusal⟩
  · rw [sealed]
    exact puts
  · rw [failed]
    exact refusal

theorem planned_lineOf (holds : made e) : Planned (Refusal enc) made (lineOf e) := by
  rw [lineOf]
  rcases appendBytes e with reason | bytes
  · exact .append reason
  · exact holds

variable {env : Env} {c : Collection N} {expiresAt : Int} {stamped : Data N} {id : Nat}
  {loc : IndexEntry}

theorem insertPlan_planned (lawful : ∀ policy ∈ c.enc, Lawful policy)
    (keep : Keepable c.enc data) :
    Planned (Refusal c.enc) (fun e => Puts c.enc .insert (c.idSeq + 1) data 1 expiresAt e ∧
      sidxCheckUnique c e.id data = .ok ()) (insertPlan env c data expiresAt) :=
  .bind (planned_seal lawful _ keep env.ts.property) fun _ puts =>
    .bind (planned_quota _ _ _) fun _ _ => .bind (planned_unique _ _ _) fun _ unique =>
      planned_lineOf ⟨puts, unique⟩

theorem insertKeyPlan_planned (lawful : ∀ policy ∈ c.enc, Lawful policy)
    (keep : Keepable c.enc (some stamped)) :
    Planned (Refusal c.enc) (fun e => Puts c.enc .insert (c.idSeq + 1) (some stamped) 1
        (resolveInsertExpiry c.cfg env.now none) e ∧
      sidxCheckUnique c (c.idSeq + 1) (some stamped) = .ok ()) (insertKeyPlan env c stamped) :=
  .bind (planned_quota _ _ _) fun _ _ => .bind (planned_unique _ _ _) fun _ unique =>
    .bind (planned_seal lawful _ keep env.ts.property) fun _ puts => planned_lineOf ⟨puts, unique⟩

theorem replacePlan_planned (lawful : ∀ policy ∈ c.enc, Lawful policy)
    (keep : Keepable c.enc (some stamped)) :
    Planned (Refusal c.enc) (fun e => Puts c.enc .update id (some stamped) (loc.rev + 1)
        loc.expiresAt e ∧
      sidxCheckUnique c id (some stamped) = .ok ()) (replacePlan env c stamped id loc) :=
  .bind (planned_unique _ _ _) fun _ unique =>
    .bind (planned_seal lawful _ keep env.ts.property) fun _ puts => planned_lineOf ⟨puts, unique⟩

theorem updatePlan_planned (lawful : ∀ policy ∈ c.enc, Lawful policy) (keep : Keepable c.enc data)
    (found : c.index.lookup id = some loc) (expiresAt : Option Int) :
    Planned (Refusal c.enc) (fun e => Puts c.enc .update id data (loc.rev + 1)
        (expiresAt.getD loc.expiresAt) e ∧
      sidxCheckUnique c id data = .ok ()) (updatePlan env c id data expiresAt) := by
  rw [updatePlan, found]
  exact .bind (planned_seal lawful _ keep env.ts.property) fun _ puts =>
    .bind (planned_unique _ _ _) fun _ unique =>
      planned_lineOf ⟨{ puts with rev := rfl, expiresAt := rfl }, unique⟩

/-- A procedure ends with the error of a plan, or appends its line. -/
def Executes {α : Type} (p : Proc N α) (w : World N) (plan : Except Error (Entry N))
    (reply : Entry N → α) : Prop :=
  match plan with
  | .error e => Writes p w (.error e) []
  | .ok e => Writes p w (.ok (reply e)) [e]

/-! ## Procedures execute their plans -/

section Executes

variable {w w' : World N} {s : Segments N} {p : Proc N α} {reply : Entry N → α}
  {plain : Option (Data N)} {follow : Follow}

theorem Executes.imp {q : Proc N β} {answer : Entry N → β} (executed : Executes p w' plan reply)
    (failed : ∀ error, Writes p w' (.error error) [] → Writes q w (.error error) [])
    (done : ∀ e, plan = .ok e → Writes p w' (.ok (reply e)) [e] → Writes q w (.ok (answer e)) [e]) :
    Executes q w plan answer := by
  rcases plan with error | e
  · exact failed error executed
  · exact done e rfl executed

theorem executes_read {f : World N → β} {next : β → Proc N α}
    (later : Executes (next (f w)) w plan reply) : Executes (Proc.read f >>= next) w plan reply :=
  later.imp (fun _ => writes_read) fun _ _ => writes_read

/-- A check of a procedure is one of its plan. -/
theorem executes_check {outcome : Except Error β} {next : β → Proc N α}
    {plan : β → Except Error (Entry N)}
    (later : ∀ value, outcome = .ok value → Executes (next value) w (plan value) reply) :
    Executes (Proc.check outcome >>= next) w (outcome >>= plan) reply := by
  rcases outcome with error | value
  · exact writes_check_error rfl
  · exact (later value rfl).imp (fun _ => writes_check_ok rfl) fun _ _ => writes_check_ok rfl

theorem Executes.cases (executed : Executes p w plan reply) (planned : Planned refused made plan) :
    (∃ e, made e ∧ Writes p w (.ok (reply e)) [e]) ∨
      ∃ error, refused error ∧ Writes p w (.error error) [] := by
  rcases plan with error | e
  · exact .inr ⟨error, planned, executed⟩
  · exact .inl ⟨e, planned, executed⟩

theorem putEntry_executes (calm : w.fault = none) (writable : Writable w e plain follow) :
    Executes (putEntry e plain follow) w (lineOf e) fun _ => () := by
  have run := run_putEntry calm e plain follow
  rw [lineOf]
  rcases encoded : appendBytes e with reason | bytes
  · rw [encoded] at run
    exact writes_of_run run (.refl w)
  · rw [encoded] at run
    exact writes_of_run run
      ⟨(Step.put writable encoded).steps, flags_afterPut w e plain follow bytes⟩

theorem deleteEntry_executes (calm : w.fault = none) (tombstone : e.op = .delete)
    (storable : Storable e) (reserved : e.id ≤ w.col.idSeq) :
    Executes (deleteEntry e) w (lineOf e) fun _ => () := by
  have run := run_deleteEntry calm e
  rw [lineOf]
  rcases encoded : appendBytes e with reason | bytes
  · rw [encoded] at run
    exact writes_of_run run (.refl w)
  · rw [encoded] at run
    exact writes_of_run run ⟨(Step.delete tombstone storable reserved encoded).steps,
      flags_afterDelete w e bytes⟩

/-- Appending a line, or finding that it is too long for one. -/
theorem Executes.line (executed : Executes p w (lineOf e) reply) :
    Writes p w (.ok (reply e)) [e] ∨ ∃ reason, Writes p w (.error (.append reason)) [] := by
  rw [lineOf] at executed
  generalize appendBytes e = encoded at executed
  rcases encoded with reason | bytes
  · exact .inr ⟨reason, executed⟩
  · exact .inl executed

/-- A critical section that ends with the flush and the feed. -/
theorem Executes.finish (calm : w.fault = none) (executed : Executes p w plan reply)
    (committed : α → List (Entry N)) :
    ∃ full, Executes (do
      let value ← p
      syncActive
      publishCommit (committed value)
      isFull) w plan fun _ => full := by
  rcases plan with error | e
  · exact ⟨false, Writes.bind_error executed⟩
  · exact Writes.finish calm executed committed

theorem insertLocked_executes (calm : w.fault = none) (writable : Writable w e data .index) :
    ∃ full, Executes (insertLocked e data) w (insertLockedPlan w.col e data) fun _ => full := by
  obtain ⟨full, finished⟩ := (putEntry_executes calm writable).finish calm fun _ => [e]
  exact ⟨full, executes_read (executes_check fun _ _ => executes_check fun _ _ => finished)⟩

/-- The rotation after a critical section changes neither the reply nor the
lines. -/
theorem Executes.rotate {p : Proc N β} {reply : Entry N → β} {next : β → Proc N α}
    {answer : Entry N → α} {full : Entry N → Bool} (coherent : Coherent w s)
    (calm : w.fault = none) (executed : Executes p w plan reply)
    (shape : ∀ e, plan = .ok e → next (reply e) = (do rotateIf (full e); return answer e)) :
    Executes (p.locked >>= next) w plan answer :=
  executed.imp (fun _ failed => failed.refused next) fun e planned wrote =>
    wrote.rotate coherent calm (shape e planned) fun w' _ => writes_pure _ w'

theorem executes_reserve {next : Nat → Proc N α}
    (later : Executes (next (w.col.idSeq + 1)) (afterReserve w) plan reply) :
    Executes (reserveID >>= next) w plan reply :=
  later.imp (fun _ => writes_bind_ok (run_reserveID w) (wrote_reserve w)) fun _ _ =>
    writes_bind_ok (run_reserveID w) (wrote_reserve w)

/-- The entry of a new record can be written once its id has been taken. -/
theorem writable_reserved (coherent : Coherent w s) (governed : Governed w.col)
    (puts : Puts w.col.enc .insert (w.col.idSeq + 1) plain 1 expiresAt e) :
    Writable (afterReserve w) e plain .index :=
  Puts.writable_new (w := afterReserve w) puts (governed.congr rfl rfl) rfl le_rfl
    (index_fresh coherent (Nat.lt_succ_self _))

/-- The entry of the next revision of a record can be written. -/
theorem writable_found (coherent : Coherent w s) (governed : Governed w.col)
    (found : w.col.index.lookup id = some loc)
    (puts : Puts w.col.enc .update id plain (loc.rev + 1) expiresAt e) :
    Writable w e plain .move := by
  rw [← revAt_of_lookup found] at puts
  exact puts.writable_next governed rfl (le_of_index coherent found)

omit [JsonNumber N] in
theorem puts_of_sealed {stored : Entry N} {seed : Nat} (lawful : ∀ policy ∈ enc, Lawful policy)
    (keep : Keepable enc e.data) (utc : e.ts.offset = 0)
    (sealed : sealEntryData enc seed e = .ok stored) :
    Puts enc e.op e.id e.data e.rev e.expiresAt stored := by
  have planned := planned_seal lawful seed keep utc
  rwa [sealed] at planned

theorem executes_return (calm : w.fault = none) (writable : Writable w e plain follow) :
    Executes (do
      putEntry e plain follow
      return e) w (lineOf e) fun e => e := by
  refine (putEntry_executes calm writable).imp (fun _ => Writes.bind_error) fun line planned wrote => ?_
  obtain rfl := lineOf_eq_ok planned
  have ended : Writes (do
      putEntry line plain follow
      return line) w (.ok line) ([line] ++ []) := Writes.bind wrote (writes_pure _ _)
  exact ended

/-- A conditional update under the write lock ends as a plan says. -/
def SwapsLocked (p : Proc N (Bool × Bool)) (w : World N)
    (plan : Except Error (Option (Entry N))) : Prop :=
  match plan with
  | .error e => Writes p w (.error e) []
  | .ok none => Writes p w (.ok (false, false)) []
  | .ok (some e) => ∃ full, Writes p w (.ok (true, full)) [e]

/-- A conditional update ends as a plan says. -/
def Swaps (p : Proc N Bool) (w : World N) (plan : Except Error (Option (Entry N))) : Prop :=
  match plan with
  | .error e => Writes p w (.error e) []
  | .ok none => Writes p w (.ok false) []
  | .ok (some e) => Writes p w (.ok true) [e]

theorem SwapsLocked.imp {p q : Proc N (Bool × Bool)} {plan : Except Error (Option (Entry N))}
    (swapped : SwapsLocked p w plan)
    (step : ∀ {result es}, Writes p w result es → Writes q w result es) :
    SwapsLocked q w plan := by
  rcases plan with error | - | e
  · exact step swapped
  · exact step swapped
  · obtain ⟨full, wrote⟩ := swapped
    exact ⟨full, step wrote⟩

theorem swapsLocked_check {outcome : Except Error α} {next : α → Proc N (Bool × Bool)}
    {plan : α → Except Error (Option (Entry N))}
    (later : ∀ value, SwapsLocked (next value) w (plan value)) :
    SwapsLocked (Proc.check outcome >>= next) w (outcome >>= plan) := by
  rcases outcome with error | value
  · exact writes_check_error rfl
  · exact (later value).imp fun wrote => writes_check_ok rfl wrote

section Calls

variable (coherent : Coherent w s) (calm : w.fault = none)

include coherent calm

/-- What a delete comes to. -/
theorem delete_executes (env : Env) (id : Nat) :
    Executes (Collection.delete env id) w (deletePlan env w.col id) fun _ => () := by
  have looked {plan : Except Error (Entry N)} : Executes (match w.col.index.lookup id with
      | none => Proc.fail (.notFound id)
      | some _ => do
        deleteEntry (newDelete id env.ts)
        syncActive
        publishCommit [newDelete id env.ts]) w plan (fun _ => ()) →
      Executes (Collection.delete env id) w plan fun _ => () :=
    fun later => executes_read later
  refine looked ?_
  rw [deletePlan]
  rcases found : w.col.index.lookup id with - | loc
  · exact writes_of_run rfl (.refl w)
  · exact (deleteEntry_executes calm rfl (storable_newDelete id env.ts)
      (le_of_index coherent found)).imp (fun _ => Writes.bind_error) fun _ _ wrote =>
        wrote.finishWith calm (fun _ => [newDelete id env.ts]) (writes_pure _ _)

/-- What a delete does: a tombstone for a known record, or nothing. -/
theorem delete_writes (env : Env) (id : Nat) :
    (∃ loc, w.col.index.lookup id = some loc ∧
        Writes (Collection.delete env id) w (.ok ()) [newDelete id env.ts]) ∨
      (w.col.index.lookup id = none ∧
        Writes (Collection.delete env id) w (.error (.notFound id)) []) ∨
      ∃ reason, Writes (Collection.delete env id) w (.error (.append reason)) [] := by
  have executed := delete_executes coherent calm env id
  rw [deletePlan] at executed
  rcases found : w.col.index.lookup id with - | loc
  · rw [found] at executed
    exact .inr (.inl ⟨rfl, executed⟩)
  · rw [found] at executed
    rcases executed.line with wrote | large
    · exact .inl ⟨loc, rfl, wrote⟩
    · exact .inr (.inr large)

variable (governed : Governed w.col)

include governed

theorem insertRecord_executes (env : Env) (keep : Keepable w.col.enc data) (expiresAt : Int) :
    Executes (insertRecord env data expiresAt) w (insertPlan env w.col data expiresAt)
      fun _ => w.col.idSeq + 1 := by
  refine executes_reserve (executes_read (executes_check fun e sealed => ?_))
  have puts := puts_of_sealed governed.lawful (by exact keep) env.ts.property sealed
  obtain ⟨full, executed⟩ := insertLocked_executes (w := afterReserve w) calm
    (writable_reserved coherent governed puts)
  exact executed.rotate coherent.reserve calm fun _ _ => rfl

theorem updateRecord_executes (env : Env) (id : Nat) (keep : Keepable w.col.enc data)
    (expiresAt : Option Int) :
    Executes (updateRecord env id data expiresAt) w (updatePlan env w.col id data expiresAt)
      fun _ => () := by
  refine executes_read (executes_check fun e sealed => ?_)
  have puts := puts_of_sealed governed.lawful (by exact keep) env.ts.property sealed
  obtain rfl : e.id = id := puts.id
  rcases found : w.col.index.lookup e.id with - | loc
  · refine Writes.refused (writes_read ?_) _
    simp only [found]
    exact writes_of_run rfl (.refl w)
  · obtain ⟨full, finished⟩ := (putEntry_executes calm (writable_found coherent governed found
      (e := { e with rev := loc.rev + 1, expiresAt := expiresAt.getD loc.expiresAt })
      { puts with rev := rfl, expiresAt := rfl })).finish calm fun _ => [_]
    have locked : Executes (updateLocked e data expiresAt) w (do
        sidxCheckUnique w.col e.id data
        lineOf { e with rev := loc.rev + 1, expiresAt := expiresAt.getD loc.expiresAt })
        fun _ => full := by
      refine executes_read ?_
      simp only [found]
      exact executes_check fun _ _ => finished
    exact locked.imp (fun _ failed => failed.refused _) fun _ _ wrote =>
      wrote.rotateLast coherent calm

theorem replaceLocked_executes (env : Env) (found : w.col.index.lookup id = some loc)
    (keep : Keepable w.col.enc (some stamped)) :
    Executes (replaceLocked env stamped id loc) w (replacePlan env w.col stamped id loc)
      fun e => e := by
  refine executes_read (executes_check fun _ _ => executes_check fun e sealed => ?_)
  have puts := puts_of_sealed governed.lawful (by exact keep) env.ts.property sealed
  exact executes_return calm (writable_found coherent governed found puts)

theorem insertKeyLocked_executes (env : Env) (keep : Keepable w.col.enc (some stamped)) :
    Executes (insertKeyLocked env stamped) w (insertKeyPlan env w.col stamped) fun e => e := by
  refine executes_reserve (executes_read (executes_check fun _ _ => executes_check fun _ _ =>
    executes_check fun e sealed => ?_))
  have puts := puts_of_sealed governed.lawful (by exact keep) env.ts.property sealed
  exact executes_return (w := afterReserve w) calm (writable_reserved coherent governed puts)

/-- What an update does: the next revision of a known record, or nothing. -/
theorem updateRecord_writes (env : Env) (id : Nat) (keep : Keepable w.col.enc data)
    (expiresAt : Option Int) :
    (∃ loc e, w.col.index.lookup id = some loc ∧
        Puts w.col.enc .update id data (loc.rev + 1) (expiresAt.getD loc.expiresAt) e ∧
        sidxCheckUnique w.col id data = .ok () ∧
        Writes (updateRecord env id data expiresAt) w (.ok ()) [e]) ∨
      (w.col.index.lookup id = none ∧
        Writes (updateRecord env id data expiresAt) w (.error (.notFound id)) []) ∨
      ∃ error, Refusal w.col.enc error ∧
        Writes (updateRecord env id data expiresAt) w (.error error) [] := by
  have executed := updateRecord_executes coherent calm governed env id keep expiresAt
  rcases found : w.col.index.lookup id with - | loc
  · rw [updatePlan, found] at executed
    rcases sealEntryData_cases governed.lawful env.seed (e := newUpdate id data env.ts)
        (by exact keep) env.ts.property with ⟨e, sealed, -⟩ | ⟨error, failed, refusal⟩
    · rw [sealed] at executed
      exact .inr (.inl ⟨rfl, executed⟩)
    · rw [failed] at executed
      exact .inr (.inr ⟨error, refusal, executed⟩)
  · rcases executed.cases (updatePlan_planned governed.lawful keep found expiresAt) with
      ⟨e, ⟨puts, unique⟩, wrote⟩ | refused
    · exact .inl ⟨loc, e, rfl, puts, unique, wrote⟩
    · exact .inr (.inr refused)

/-- What the line written under a key says: the next revision of the record
that carries it, or a new record. -/
def KeyPuts (env : Env) (c : Collection N) (stamped : Data N) (e : Entry N) :
    Option (Nat × IndexEntry) → Prop
  | none => Puts c.enc .insert (c.idSeq + 1) (some stamped) 1
        (resolveInsertExpiry c.cfg env.now none) e ∧
      sidxCheckUnique c (c.idSeq + 1) (some stamped) = .ok ()
  | some (id, loc) => Puts c.enc .update id (some stamped) (loc.rev + 1) loc.expiresAt e ∧
      sidxCheckUnique c id (some stamped) = .ok ()

theorem writeKeyLocked_writes (env : Env) (key : String)
    (keep : Keepable w.col.enc (some stamped)) :
    (∃ e, KeyPuts env w.col stamped e (carrying env w.col key) ∧
        Writes (writeKeyLocked env stamped (carrying env w.col key)) w (.ok e) [e]) ∨
      ∃ error, Refusal w.col.enc error ∧
        Writes (writeKeyLocked env stamped (carrying env w.col key)) w (.error error) [] := by
  rcases found : carrying env w.col key with - | ⟨id, loc⟩
  · exact (insertKeyLocked_executes coherent calm governed env keep).cases
      (insertKeyPlan_planned governed.lawful keep)
  · exact (replaceLocked_executes coherent calm governed env
      (carrying_some coherent found).1 keep).cases (replacePlan_planned governed.lawful keep)

/-- An upsert once the key field is indexed. -/
def upsertRecord (env : Env) (key : String) (data : Option (Data N)) : Proc N (Record N) := do
  let ((id, rev), full) ← (upsertLocked env key (stampKey data key)).locked
  rotateIf full
  return { id, key, rev, ts := env.ts, data := some (stampKey data key) }

/-- What an upsert does: the line under its key, or nothing. -/
theorem upsertRecord_writes (env : Env) (key : String) (data : Option (Data N)) :
    (∃ e, KeyPuts env w.col (stampKey data key) e (carrying env w.col key) ∧
        Writes (upsertRecord env key data) w
          (.ok ⟨e.id, key, e.rev, env.ts, some (stampKey data key)⟩) [e]) ∨
      ∃ error, Refusal w.col.enc error ∧ Writes (upsertRecord env key data) w (.error error) [] := by
  rcases writeKeyLocked_writes coherent calm governed env key
      (keepable_stampKey w.col.enc data key) with ⟨e, puts, wrote⟩ | ⟨error, refusal, refused⟩
  · have ended : Writes (do
        let e ← writeKeyLocked env (stampKey data key) (carrying env w.col key)
        syncActive
        publishCommit [e]
        let full ← isFull
        return ((e.id, e.rev), full)) w (.ok ((e.id, e.rev), _)) [e] :=
      wrote.finishWith calm (fun e => [e]) (writes_read (writes_pure _ _))
    have inside : Writes (upsertLocked env key (stampKey data key)) w
        (.ok ((e.id, e.rev), _)) [e] := writes_read ended
    exact .inl ⟨e, puts, inside.rotate coherent calm rfl fun w' _ => writes_pure _ w'⟩
  · have inside : Writes (upsertLocked env key (stampKey data key)) w (.error error) [] :=
      writes_read refused.bind_error
    exact .inr ⟨error, refusal, inside.refused _⟩

theorem compareAndSwapLocked_swaps (env : Env) (key : String) (data : Option (Data N))
    (test : Option (Data N) → Nat → Bool) :
    SwapsLocked (compareAndSwapLocked env key data test) w (swapPlan env w key data test) := by
  have looked {plan : Except Error (Option (Entry N))} :
      SwapsLocked (match carrying env w.col key with
        | none => (return (false, false) : Proc N (Bool × Bool))
        | some (id, loc) => do
          let current ← Proc.check (readEntry w id loc)
          let plain ← Proc.check (materialize w.col.enc current.data)
          if test plain loc.rev then
            let e ← replaceLocked env (stampKey data key) id loc
            syncActive
            publishCommit [e]
            let full ← isFull
            return (true, full)
          else return (false, false)) w plan →
      SwapsLocked (compareAndSwapLocked env key data test) w plan :=
    fun swapped => swapped.imp fun wrote => writes_read wrote
  refine looked ?_
  rw [swapPlan]
  rcases found : carrying env w.col key with - | ⟨id, loc⟩
  · exact writes_pure _ w
  · refine swapsLocked_check fun current => swapsLocked_check fun plain => ?_
    cases test plain loc.rev with
    | false => exact writes_pure _ w
    | true =>
      have executed := replaceLocked_executes coherent calm governed env
        (carrying_some coherent found).1 (keepable_stampKey w.col.enc data key)
      rw [if_pos rfl, if_pos rfl]
      generalize replacePlan env w.col (stampKey data key) id loc = plan at executed
      rcases plan with error | e
      · exact Writes.bind_error executed
      · exact ⟨_, Writes.finishWith calm executed (fun e => [e]) (writes_of_run rfl (.refl _))⟩

theorem compareAndSwap_swaps (env : Env) (key : String) (data : Option (Data N))
    (test : Option (Data N) → Nat → Bool) :
    Swaps (compareAndSwap env key data test) w (swapPlan env w key data test) := by
  have locked := compareAndSwapLocked_swaps coherent calm governed env key data test
  generalize swapPlan env w key data test = plan at locked
  rcases plan with error | - | e
  · exact Writes.refused locked _
  · exact Writes.rotate coherent calm locked rfl fun w' _ => writes_pure _ w'
  · obtain ⟨full, ended⟩ := locked
    exact Writes.rotate coherent calm ended rfl fun w' _ => writes_pure _ w'

end Calls

end Executes

end Scriva.Engine.Plans
