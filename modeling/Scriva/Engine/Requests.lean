import Scriva.Engine.Atomicity

/-!
# Requests refine the abstract store

The writes by string key, the bulk load and the removal of expired records are
put together from the calls: a key is resolved and the record under it is
written, a load creates the index of the keys, takes ids and commits a
transaction, and the removal writes tombstones.  `Serves` says how each of them
changes the abstract store.
-/

namespace Scriva.Engine.Requests

open Store.Record Store.Ndjson PrimaryIndex SecondaryIndex Directory Engine.Collection Journal
open Coherence Writing Calls Plans Machine Refinement Batches Engine.Sequential LoadJsonl Atomicity

variable {N : Type} [JsonNumber N]

/-! ## What requests do -/

omit [JsonNumber N] in
/-- Some of the records whose time has passed are gone. -/
structure Reaps (now : Int) (store store' : Store N) : Prop where
  indexes : store'.indexes = store.indexes
  stock : ∀ id, store'.stock id = store.stock id ∨
    store'.stock id = none ∧ ∃ held, store.stock id = some held ∧ expired held.deadline now

/-- No record can be found under a key. -/
def Unfound (store : Store N) (key : String) : Prop :=
  ¬ store.indexed keyField ∨ ∀ id held, ¬ store.Carries key id held

omit [JsonNumber N] in
/-- The store that a load commits to. -/
def prepared (store : Store N) (keyedBy : String) : Store N :=
  if keyedBy = "" then store else store.ensure keyField true

omit [JsonNumber N] in
theorem stock_prepared (store : Store N) (keyedBy : String) :
    (prepared store keyedBy).stock = store.stock := by
  unfold prepared
  split_ifs
  · rfl
  · exact stock_ensure _ _ _

section Serves

variable (cfg : Config) (enc : Option (Encryptor N)) (env : Env)

/-- How a request with a reply changes a store. -/
inductive Serves : Store N → Request N → Except Error Reply → Store N → Prop where
  | call {store store' : Store N} {made : Call N} {reply : Except Error Reply}
      (performs : Performs cfg enc env store made reply store') :
      Serves store (.call made) reply store'
  | updateByKey {store store' : Store N} {key : String} {data : Option (Data N)}
      {id rev : Nat} {held : Held N} (carries : store.Carries key id held)
      (replaces : Replaces store id (some (stampKey data key))
        (fun deadline => deadline) rev store') :
      Serves store (.updateByKey key data) (.ok .done) store'
  | updateByKeyMissing {store : Store N} {key : String} {data : Option (Data N)}
      (unfound : Unfound store key) :
      Serves store (.updateByKey key data) (.error (.keyNotFound key)) store
  | deleteByKey {store : Store N} {key : String} {id : Nat} {held : Held N}
      (carries : store.Carries key id held) :
      Serves store (.deleteByKey key) (.ok .done) (store.drop id)
  | deleteByKeyMissing {store : Store N} {key : String} (unfound : Unfound store key) :
      Serves store (.deleteByKey key) (.error (.keyNotFound key)) store
  | load {store store' : Store N} {text : List Char} {keyedBy : String}
      {records : List (Option (Data N))} {ids : List Nat} {reply : Except Error Reply}
      (parsed : parseJSONL keyedBy text = .ok records) (each : ids.length = records.length)
      (distinct : ids.Nodup) (absent : ∀ id ∈ ids, store.stock id = none)
      (performs : Performs cfg enc env (prepared store keyedBy)
        (.commitTx (insertOps env.ts ids records)) reply store') :
      Serves store (.loadJSONL text keyedBy) (reply.map fun _ => .loaded records.length)
        store'
  | loadMalformed {store : Store N} {text : List Char} {keyedBy : String} {e : Error}
      (malformed : parseJSONL (N := N) keyedBy text = .error e) :
      Serves store (.loadJSONL text keyedBy) (.error e) (prepared store keyedBy)
  | reap {store store' : Store N} {reply : Except Error Reply}
      (reaps : Reaps env.now store store') : Serves store .reapExpired reply store'
  | refused {store : Store N} {request : Request N} {e : Error} (refusal : Refusal enc e) :
      Serves store request (.error e) store

end Serves

/-- Data and ids as callers give them. -/
def Fit (w : World N) : Request N → Prop
  | .call made => Admissible w made
  | .loadJSONL text keyedBy => ∀ records, parseJSONL keyedBy text = .ok records →
      ∀ data ∈ records, Keepable w.col.enc data
  | .updateByKey _ _ | .deleteByKey _ | .reapExpired => True

/-- A request changes the store as the machine says for its reply. -/
def Served (env : Env) (w : World N) (store : Store N) (request : Request N) : Prop :=
  ∃ s' store', Amid ((request.proc env).run w).2 s' store' ∧
    Serves w.col.cfg w.col.enc env store request ((request.proc env).run w).1 store' ∧
    Frame w ((request.proc env).run w).2

section Requests

variable {env : Env} {w : World N} {s : Segments N} {store : Store N}

variable {α β : Type} {p : Proc N α} {es : List (Entry N)} {stock : Stock N} {now : Int}

/-- A procedure that writes leads to a store with the stock after its lines. -/
theorem Amid.writes {result : Except Error α} (amid : Amid w s store) (wrote : Writes p w result es)
    (stocked : Stocked w.col.enc (applyEntries (records s.entries) es) stock) :
    ∃ s', Amid (p.run w).2 s' { store with stock } := by
  obtain ⟨s', coherent, entries⟩ := amid.coherent.steps wrote.2.steps
  refine ⟨s', coherent, wrote.2.steps.frame.calm amid.calm,
    amid.governed.steps wrote.2.steps, ?_, ?_⟩
  · rw [wrote.2.steps.frame.enc, entries, records_append]
    exact stocked
  · rw [wrote.2.flags]
    exact amid.describes.indexes

theorem served_of_writes {request : Request N} {result : Except Error Reply} (amid : Amid w s store)
    (wrote : Writes (request.proc env) w result es)
    (stocked : Stocked w.col.enc (applyEntries (records s.entries) es) stock)
    (serves : Serves w.col.cfg w.col.enc env store request result { store with stock }) :
    Served env w store request := by
  obtain ⟨s', after⟩ := Amid.writes amid wrote stocked
  refine ⟨s', { store with stock }, after, ?_, wrote.2.steps.frame⟩
  rw [wrote.1]
  exact serves

/-! ## Keys -/

theorem fields_of_store (describes : Describes w s store) :
    store.indexes.map Prod.fst = w.col.sidx.map Sidx.field := by
  rw [describes.indexes, indexFlags, List.map_map]
  rfl

theorem known_of_indexLookup (coherent : Coherent w s) {key : String} {id : Nat}
    (member : id ∈ indexLookup w.col keyField key) :
    ∃ loc, w.col.index.lookup id = some loc := by
  rcases there : findIndex w.col keyField with - | t
  · simp [indexLookup, there] at member
  · simp only [indexLookup, there, Option.map_some, Option.getD_some] at member
    have want := ((coherent.indexed.exact t (findIndex_eq_some there).1).bucket key id).mp member
    obtain ⟨line, alive, -⟩ := Option.bind_eq_some_iff.mp want
    exact ⟨_, by rw [coherent.lookup_index, alive, Option.map_some]⟩

theorem resolveKey_cases (amid : Amid w s store) (env : Env) (key : String) :
    (∃ id loc held, resolveKey env w.col key = .ok id ∧ w.col.index.lookup id = some loc ∧
        store.Carries key id held) ∨
      (resolveKey env w.col key = .error (.keyNotFound key) ∧ Unfound store key) := by
  rcases chosen : env.first (indexLookup w.col keyField key) with - | id
  · right
    have missing : carrying env w.col key = none := by rw [carrying, chosen, Option.bind_none]
    refine ⟨by rw [resolveKey, chosen], ?_⟩
    by_cases known : keyField ∈ w.col.sidx.map Sidx.field
    · exact .inr (unused_of_carrying amid.coherent amid.governed amid.describes known missing)
    · left
      rw [Store.indexed, fields_of_store amid.describes]
      exact known
  · left
    obtain ⟨loc, known⟩ := known_of_indexLookup amid.coherent (Env.first_mem chosen)
    have found : carrying env w.col key = some (id, loc) := by
      rw [carrying, chosen, Option.bind_some, known, Option.map_some]
    obtain ⟨-, held, e, carries, -⟩ :=
      carries_of_carrying amid.coherent amid.governed amid.describes found
    exact ⟨id, loc, held, by rw [resolveKey, chosen], known, carries⟩

theorem updateByKey_served (amid : Amid w s store) (env : Env) (key : String)
    (data : Option (Data N)) : Served env w store (.updateByKey key data) := by
  have begins {result : Except Error Unit} {es : List (Entry N)} {id : Nat}
      (free : checkReserved data = .ok ()) (resolved : resolveKey env w.col key = .ok id)
      (later : Writes (updateRecord env id (some (stampKey data key)) none) w result es) :
      Writes (Collection.updateByKey env key data) w result es :=
    writes_check_ok free (writes_read (writes_check_ok resolved later))
  rcases checkReserved_cases data with free | reserved
  swap
  · have call : Writes (Collection.updateByKey env key data) w (.error .reservedField) [] :=
      writes_check_error reserved
    exact served_of_writes amid call.bind_error amid.describes.stocked (.refused .reserved)
  rcases resolveKey_cases amid env key with ⟨id, loc, held, resolved, known, carries⟩ | ⟨missing, unfound⟩
  swap
  · have call : Writes (Collection.updateByKey env key data) w (.error (.keyNotFound key)) [] :=
      writes_check_ok free (writes_read (writes_check_error missing))
    exact served_of_writes amid call.bind_error amid.describes.stocked
      (.updateByKeyMissing unfound)
  rcases updateRecord_writes amid.coherent amid.calm amid.governed env id
      (keepable_stampKey w.col.enc data key) none with
    ⟨loc', e, found, puts, unique, wrote⟩ | ⟨gone, -⟩ | ⟨error, refusal, refused⟩
  · exact served_of_writes amid (Writes.reply (begins free resolved wrote) fun _ => .done)
      (stocked_put amid.describes puts rfl)
      (.updateByKey carries
        (replaces_of_index amid.coherent amid.governed amid.describes _ found unique))
  · rw [gone] at known
    cases known
  · exact served_of_writes amid (begins free resolved refused).bind_error
      amid.describes.stocked (.refused refusal)

theorem deleteByKey_served (amid : Amid w s store) (env : Env) (key : String) :
    Served env w store (.deleteByKey key) := by
  have begins {result : Except Error Unit} {es : List (Entry N)} {id : Nat}
      (resolved : resolveKey env w.col key = .ok id)
      (later : Writes (Collection.delete env id) w result es) :
      Writes (Collection.deleteByKey env key) w result es :=
    writes_read (writes_check_ok resolved later)
  rcases resolveKey_cases amid env key with
    ⟨id, loc, held, resolved, known, carries⟩ | ⟨missing, unfound⟩
  swap
  · have call : Writes (Collection.deleteByKey env key) w (.error (.keyNotFound key)) [] :=
      writes_read (writes_check_error missing)
    exact served_of_writes amid call.bind_error amid.describes.stocked
      (.deleteByKeyMissing unfound)
  rcases delete_writes amid.coherent amid.calm env id with
    ⟨loc', -, wrote⟩ | ⟨gone, -⟩ | ⟨reason, refused⟩
  · exact served_of_writes amid (Writes.reply (begins resolved wrote) fun _ => .done)
      (amid.describes.stocked.drop rfl rfl) (.deleteByKey carries)
  · rw [gone] at known
    cases known
  · exact served_of_writes amid (begins resolved refused).bind_error amid.describes.stocked
      (.refused (.append reason))

/-! ## Loading -/

theorem Amid.counted (amid : Amid w s store) {idSeq : Nat} (above : w.col.idSeq ≤ idSeq) :
    Amid (counted w idSeq) s store where
  coherent := { amid.coherent with
    counted := fun e member => (amid.coherent.counted e member).trans above }
  calm := amid.calm
  governed := amid.governed.congr rfl rfl
  describes := ⟨amid.describes.stocked, amid.describes.indexes⟩

omit [JsonNumber N] in
/-- Staged inserts are new records under the ids after the last one. -/
theorem stagedInserts_eq (ts : Utc) (records : List (Option (Data N))) (last : Nat) :
    stagedInserts ts records last =
      insertOps ts (List.range' (last + 1) records.length) records := by
  induction records generalizing last with
  | nil => rfl
  | cons data records ih =>
    rw [stagedInserts, ih, List.length_cons, List.range'_succ]
    rfl

omit [JsonNumber N] in
theorem map_id_insertOps (ts : Utc) {ids : List Nat} {records : List (Option (Data N))}
    (each : ids.length = records.length) : (insertOps ts ids records).map TxOp.id = ids := by
  rw [insertOps, List.map_zipWith, ← List.map_uncurry_zip_eq_zipWith]
  exact List.map_fst_zip each.le

/-- New records under ids beyond the counter can be committed. -/
theorem admissible_staged (amid : Amid w s store) (ts : Utc)
    {records : List (Option (Data N))} (keep : ∀ data ∈ records, Keepable w.col.enc data) :
    Admissible (counted w (w.col.idSeq + records.length))
      (.commitTx (insertOps ts (List.range' (w.col.idSeq + 1) records.length) records)) := by
  have each (op : TxOp N) (member : op ∈ insertOps ts
      (List.range' (w.col.idSeq + 1) records.length) records) :
      op.data ∈ records ∧ op.id ∈ List.range' (w.col.idSeq + 1) records.length := by
    obtain ⟨position, found⟩ := List.mem_iff_getElem?.mp member
    obtain ⟨id, data, here, there, rfl⟩ := List.getElem?_zipWith_eq_some.mp found
    exact ⟨List.mem_of_getElem? there, List.mem_of_getElem? here⟩
  refine ⟨fun op member _ => keep _ (each op member).1, ?_, ?_⟩
  · intro op member _
    obtain ⟨low, high⟩ := List.mem_range'_1.mp (each op member).2
    refine ⟨?_, index_fresh amid.coherent low⟩
    change op.id ≤ w.col.idSeq + records.length
    omega
  · refine (List.filter_sublist.map _).nodup ?_
    rw [map_id_insertOps ts (List.length_range')]
    exact List.nodup_range'

theorem loadRecords_served {w₁ : World N} {s₁ : Segments N} {text : List Char}
    {keyedBy : String} (amid : Amid w₁ s₁ (prepared store keyedBy)) (frame : Frame w w₁)
    (env : Env)
    (run : ((Request.loadJSONL text keyedBy).proc env).run w = (do
      let count ← loadRecords env text keyedBy
      return Reply.loaded count : Proc N Reply).run w₁)
    (keep : ∀ records, parseJSONL keyedBy text = .ok records →
      ∀ data ∈ records, Keepable w₁.col.enc data) :
    Served env w store (.loadJSONL text keyedBy) := by
  have ends {reply : Except Error Reply} {w' : World N} {s' : Segments N} {store' : Store N}
      (ended : (do
        let count ← loadRecords env text keyedBy
        return Reply.loaded count : Proc N Reply).run w₁ = (reply, w'))
      (after : Amid w' s' store') (kept : Frame w₁ w')
      (serves : Serves w.col.cfg w.col.enc env store (.loadJSONL text keyedBy) reply store') :
      Served env w store (.loadJSONL text keyedBy) := by
    refine ⟨s', store', ?_⟩
    rw [run, ended]
    exact ⟨after, serves, frame.trans kept⟩
  rcases parsed : parseJSONL (N := N) keyedBy text with e | records
  · refine ends ?_ amid (.refl w₁) (.loadMalformed parsed)
    rw [loadRecords, parsed]
    rfl
  by_cases empty : records = []
  · subst empty
    have nothing : Performs w.col.cfg w.col.enc env (prepared store keyedBy)
        (.commitTx (insertOps env.ts [] [])) (.ok .done) (prepared store keyedBy) :=
      .commitTx (List.forall_mem_nil _) ⟨List.forall_mem_nil _, fun _ _ => List.forall_mem_nil _⟩
    refine ends ?_ amid (.refl w₁) (.load parsed rfl List.nodup_nil (List.forall_mem_nil _) nothing)
    rw [loadRecords, parsed]
    rfl
  have staged := run_stageInserts env.ts records w₁
  rw [stagedInserts_eq] at staged
  have above : w₁.col.idSeq ≤ w₁.col.idSeq + records.length := Nat.le_add_right _ _
  obtain ⟨s', store', after, performs, kept⟩ := Amid.call (Amid.counted amid above) env
    (admissible_staged amid env.ts (keep records parsed))
  have fresh (id : Nat) (member : id ∈ List.range' (w₁.col.idSeq + 1) records.length) :
      store.stock id = none := by
    rw [← stock_prepared store keyedBy]
    exact absent_of_unreserved amid.coherent amid.describes (List.mem_range'_1.mp member).1
  have frame₁ : Frame w₁ (counted w₁ (w₁.col.idSeq + records.length)) :=
    ⟨⟨fun calm => calm, rfl, rfl, List.prefix_rfl, above⟩, fun plain => plain⟩
  have performs' := performs
  change Performs w₁.col.cfg w₁.col.enc _ _ _ _ _ at performs'
  rw [frame.cfg, frame.enc] at performs'
  refine ends ?_ after (frame₁.trans kept)
    (.load parsed (by simp) List.nodup_range' fresh performs')
  rw [Action.reply, Action.next, Action.proc, Call.proc]
  -- what is left is that the load ends as its transaction does
  rcases committed : (commitTx env (insertOps env.ts (List.range' (w₁.col.idSeq + 1)
      records.length) records)).run (counted w₁ (w₁.col.idSeq + records.length)) with
    ⟨outcome, w₂⟩
  have body : (loadRecords env text keyedBy).run w₁ = (do
      commitTx env (insertOps env.ts (List.range' (w₁.col.idSeq + 1) records.length) records)
      return records.length : Proc N Nat).run (counted w₁ (w₁.col.idSeq + records.length)) := by
    rw [loadRecords, parsed, Proc.run_bind_ok (Proc.run_check _ _), if_neg empty,
      Proc.run_bind_ok staged]
  cases outcome with
  | ok _ =>
    rw [Proc.run_bind_ok committed] at body ⊢
    exact Proc.run_bind_ok body _
  | error e =>
    rw [Proc.run_bind_error committed] at body ⊢
    exact Proc.run_bind_error body _

theorem load_served (amid : Amid w s store) (env : Env) (text : List Char) (keyedBy : String)
    (keep : ∀ records, parseJSONL keyedBy text = .ok records →
      ∀ data ∈ records, Keepable w.col.enc data) :
    Served env w store (.loadJSONL text keyedBy) := by
  by_cases keyed : keyedBy = ""
  · have same : prepared store keyedBy = store := if_pos keyed
    refine loadRecords_served (same.symm ▸ amid) (.refl w) env ?_ keep
    rw [Request.proc, LoadJsonl.loadJSONL, if_neg (not_not.mpr keyed)]
    rfl
  rcases ensureKeyIndex_cases amid.coherent amid.calm amid.governed amid.describes with
    ⟨policy, active, hidden, refused⟩ |
    ⟨w₁, s₁, ensured, steps, coherent, -, calm, governed, describes, -⟩
  · have call : Writes (LoadJsonl.loadJSONL (N := N) env text keyedBy) w
        (.error (.fieldEncrypted keyField)) [] := by
      rw [LoadJsonl.loadJSONL, if_pos keyed]
      exact writes_bind_error refused
    exact served_of_writes amid call.bind_error amid.describes.stocked
      (.refused (.hidden active hidden))
  · have same : prepared store keyedBy = store.ensure keyField true := if_neg keyed
    have ready : Amid w₁ s₁ (prepared store keyedBy) :=
      same.symm ▸ ⟨coherent, calm, governed, describes⟩
    refine loadRecords_served ready steps.frame env ?_ ?_
    · rw [Request.proc, LoadJsonl.loadJSONL, if_pos keyed]
      exact Proc.run_bind_congr (Proc.run_bind_ok ensured _) _
    · intro records parsed data member
      rw [steps.frame.enc]
      exact keep records parsed data member

/-! ## Removing expired records -/

section

omit [JsonNumber N]

theorem Reaps.refl (now : Int) (store : Store N) : Reaps now store store :=
  ⟨rfl, fun _ => .inl rfl⟩

theorem Reaps.trans {a b c : Store N} (first : Reaps now a b) (second : Reaps now b c) :
    Reaps now a c := by
  refine ⟨second.indexes.trans first.indexes, ?_⟩
  intro id
  rcases second.stock id with same | ⟨gone, held, found, past⟩
  · rw [same]
    exact first.stock id
  · right
    rcases first.stock id with same | ⟨missing, -⟩
    · exact ⟨gone, held, same ▸ found, past⟩
    · rw [missing] at found
      cases found

theorem reaps_drop {id : Nat} {held : Held N} (found : store.stock id = some held)
    (past : expired held.deadline now) : Reaps now store (store.drop id) := by
  refine ⟨rfl, ?_⟩
  intro other
  by_cases here : other = id
  · subst here
    exact .inr ⟨Function.update_self _ _ _, held, found, past⟩
  · exact .inl (Function.update_of_ne here _ _)

end

/-- A procedure that only removes expired records. -/
def Sweeps {α : Type} (p : Proc N α) (env : Env) (w : World N) (store : Store N) : Prop :=
  ∃ s' store', Amid (p.run w).2 s' store' ∧ Reaps env.now store store' ∧ Frame w (p.run w).2

theorem sweeps_of_writes {result : Except Error α} (amid : Amid w s store) (env : Env)
    (wrote : Writes p w result []) : Sweeps p env w store := by
  obtain ⟨s', after⟩ := Amid.writes amid wrote amid.describes.stocked
  exact ⟨s', store, after, .refl _ _, wrote.2.steps.frame⟩

/-- Removing more records after some have been removed. -/
theorem Sweeps.bind {next : α → Proc N β} (first : Sweeps p env w store)
    (later : ∀ value w' s' store', Amid w' s' store' → Sweeps (next value) env w' store') :
    Sweeps (p >>= next) env w store := by
  obtain ⟨s₁, store₁, amid₁, reaps₁, frame₁⟩ := first
  rcases ran : p.run w with ⟨outcome, w₁⟩
  rw [ran] at amid₁ frame₁
  cases outcome with
  | ok value =>
    obtain ⟨s', store', after, reaps, frame⟩ := later value w₁ s₁ store₁ amid₁
    refine ⟨s', store', ?_⟩
    rw [Proc.run_bind_ok ran]
    exact ⟨after, reaps₁.trans reaps, frame₁.trans frame⟩
  | error e =>
    refine ⟨s₁, store₁, ?_⟩
    rw [Proc.run_bind_error ran]
    exact ⟨amid₁, reaps₁, frame₁⟩

theorem sweeps_read {f : World N → α} {next : α → Proc N β}
    (later : Sweeps (next (f w)) env w store) : Sweeps (Proc.read f >>= next) env w store := by
  rw [Sweeps, Proc.run_bind_ok (Proc.run_read f w)]
  exact later

theorem deleteExpired_sweeps (amid : Amid w s store) (env : Env) {id : Nat} {loc : IndexEntry}
    (found : w.col.index.lookup id = some loc) (past : expired loc.expiresAt env.now) :
    Sweeps (deleteEntry (newDelete id env.ts)) env w store := by
  obtain ⟨held, there, -, deadline⟩ := held_of_index amid.coherent amid.describes found
  rcases (deleteEntry_executes amid.calm rfl (storable_newDelete id env.ts)
      (le_of_index amid.coherent found)).line with wrote | ⟨reason, large⟩
  · obtain ⟨s', after⟩ := Amid.writes amid wrote (amid.describes.stocked.drop rfl rfl)
    exact ⟨s', store.drop id, after, reaps_drop there (deadline ▸ past), wrote.2.steps.frame⟩
  · exact sweeps_of_writes amid env large

theorem reapAll_sweeps (amid : Amid w s store) (env : Env) (ids : List Nat) :
    Sweeps (reapAll env ids) env w store := by
  induction ids generalizing w s store with
  | nil => exact sweeps_of_writes amid env (writes_pure () w)
  | cons id ids ih =>
    refine sweeps_read ?_
    split_ifs with past
    · obtain ⟨loc, found, past⟩ := (Option.any_eq_true _ _).mp past
      exact (deleteExpired_sweeps amid env found past).bind fun _ w' s' store' => ih
    · exact ih amid

theorem reapExpired_served (amid : Amid w s store) (env : Env) :
    Served env w store .reapExpired := by
  have inside (ids : List Nat) : Sweeps (reapLocked (N := N) env ids).locked env w store := by
    refine (reapAll_sweeps amid env ids).bind fun _ w₁ s₁ store₁ amid₁ => ?_
    refine (sweeps_of_writes amid₁ env (writes_of_run (run_syncActive amid₁.calm)
      (.refl w₁))).bind fun _ w₂ s₂ store₂ amid₂ => ?_
    exact sweeps_of_writes amid₂ env (writes_of_run rfl (.refl w₂))
  have swept : Sweeps (Collection.reapExpired (N := N) env) env w store := by
    refine sweeps_read ?_
    dsimp only
    split_ifs
    · exact sweeps_of_writes amid env (writes_pure () w)
    · refine (inside _).bind fun full w₁ s₁ store₁ amid₁ => ?_
      exact sweeps_of_writes amid₁ env (run_rotateIf amid₁.coherent amid₁.calm full)
  have replied : Sweeps (Request.reapExpired.proc (N := N) env) env w store :=
    swept.bind fun _ w₁ s₁ store₁ amid₁ => sweeps_of_writes amid₁ env (writes_pure Reply.done w₁)
  obtain ⟨s', store', after, reaps, frame⟩ := replied
  exact ⟨s', store', after, .reap reaps, frame⟩

/-- Every request changes the store as the machine says. -/
theorem request_served (amid : Amid w s store) (env : Env) {request : Request N}
    (fit : Fit w request) : Served env w store request := by
  cases request with
  | call made =>
    obtain ⟨s', store', after, performs, frame⟩ := Amid.call amid env fit
    exact ⟨s', store', after, .call performs, frame⟩
  | updateByKey key data => exact updateByKey_served amid env key data
  | deleteByKey key => exact deleteByKey_served amid env key
  | loadJSONL text keyedBy => exact load_served amid env text keyedBy fit
  | reapExpired => exact reapExpired_served amid env

end Requests

end Scriva.Engine.Requests
