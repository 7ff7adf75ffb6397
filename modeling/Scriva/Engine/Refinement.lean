import Scriva.Engine.Plans

/-!
# Calls refine the abstract store

A store describes a coherent collection when every record of one is a record
of the other, with its data decrypted, and their indexes are the same.  Every
call that ends with a reply changes the store as `Performs` says for it.
-/

namespace Scriva.Engine.Refinement

open Lib.Fallible Store.Record Store.Ndjson PrimaryIndex SecondaryIndex Directory Engine.Collection
open Journal Coherence Writing Calls Plans Machine

variable {N : Type}

/-! ## Records in stock -/

/-- A line that holds a record. -/
structure Shows (enc : Option (Encryptor N)) (e : Entry N) (held : Held N) : Prop where
  rev : e.rev = held.rev
  deadline : e.expiresAt = held.deadline
  stored : Stored enc held.data e.data

def Stocked (enc : Option (Encryptor N)) (journal : Records N) (stock : Stock N) : Prop :=
  ∀ id, Option.Rel (Shows enc) (journal id) (stock id)

variable {e : Entry N} {held : Held N} {plain : Option (Data N)} {deadline : Int}

section Stocks

variable {enc : Option (Encryptor N)} {journal : Records N} {stock : Stock N}

theorem stocked_empty : Stocked enc (fun _ => none : Records N) fun _ => none :=
  fun _ => .none

theorem Stocked.of_journal (stocked : Stocked enc journal stock) {id : Nat}
    (found : journal id = some e) : ∃ held, stock id = some held ∧ Shows enc e held := by
  have related := stocked id
  rw [found] at related
  rcases there : stock id with - | held
  · rw [there] at related
    cases related
  · rw [there] at related
    cases related with
    | some shows => exact ⟨held, rfl, shows⟩

theorem Stocked.of_stock (stocked : Stocked enc journal stock) {id : Nat}
    (found : stock id = some held) : ∃ e, journal id = some e ∧ Shows enc e held := by
  have related := stocked id
  rw [found] at related
  rcases there : journal id with - | e
  · rw [there] at related
    cases related
  · rw [there] at related
    cases related with
    | some shows => exact ⟨e, rfl, shows⟩

theorem Stocked.absent_iff (stocked : Stocked enc journal stock) {id : Nat} :
    journal id = none ↔ stock id = none := by
  constructor
  · intro absent
    rcases there : stock id with - | held
    · rfl
    · obtain ⟨e, found, -⟩ := stocked.of_stock there
      rw [absent] at found
      cases found
  · intro absent
    rcases there : journal id with - | e
    · rfl
    · obtain ⟨held, found, -⟩ := stocked.of_journal there
      rw [absent] at found
      cases found

theorem Puts.isPut_step {op : Op} {id rev : Nat} (puts : Puts enc op id plain rev deadline e)
    (put : Op.isPut op) (current : Option (Entry N)) : recordStep e current = some e := by
  unfold recordStep
  rw [puts.op]
  cases op with
  | insert | update => rfl
  | delete | other => cases put

theorem Stocked.put {op : Op} {id rev : Nat} (stocked : Stocked enc journal stock)
    (puts : Puts enc op id plain rev deadline e) (put : Op.isPut op) :
    Stocked enc (applyEntry journal e) (stock.put id ⟨plain, rev, deadline⟩) := by
  intro other
  obtain rfl := puts.id
  by_cases same : other = e.id
  · subst same
    rw [applyEntry_same, Puts.isPut_step puts put, Stock.put, Function.update_self]
    exact .some ⟨puts.rev, puts.expiresAt, puts.stored⟩
  · rw [applyEntry_of_ne _ same, Stock.put, Function.update_of_ne same]
    exact stocked other

theorem Stocked.drop {id : Nat} (stocked : Stocked enc journal stock) (tombstone : e.op = .delete)
    (here : e.id = id) : Stocked enc (applyEntry journal e) (stock.drop id) := by
  intro other
  subst here
  by_cases same : other = e.id
  · subst same
    rw [applyEntry_same, Stock.drop, Function.update_self, recordStep, tombstone]
    exact .none
  · rw [applyEntry_of_ne _ same, Stock.drop, Function.update_of_ne same]
    exact stocked other

end Stocks

variable [JsonNumber N]

/-! ## Uniqueness checks -/

variable {t : Sidx} {data : Option (Data N)}

section Unique

variable {w : World N} {s : Segments N} {store : Store N}

/-- A store describes a collection: its records and its indexes. -/
structure Describes (w : World N) (s : Segments N) (store : Store N) : Prop where
  stocked : Stocked w.col.enc (records s.entries) store.stock
  indexes : store.indexes = indexFlags w.col

/-- Without a conflict on a unique index no other record holds the key. -/
theorem unclaimed_of_conflict (coherent : Coherent w s) (governed : Governed w.col)
    (describes : Describes w s store) (member : t ∈ w.col.sidx) {id : Nat}
    (free : ∀ key, indexKey t.field data = some key → t.conflict key id = false) :
    store.stock.Unclaimed t.field id data := by
  intro key given other held differs found holds
  obtain ⟨e, alive, shows⟩ := describes.stocked.of_stock found
  have same := shows.stored.indexKey_eq governed member
  have want : Sidx.wanted t.field s.log other = some key := by
    rw [coherent.record_eq] at alive
    obtain ⟨line, live, rfl⟩ := Option.map_eq_some_iff.mp alive
    rw [Sidx.wanted, live, Option.bind_some, same, holds]
  have inside := ((coherent.indexed.exact t member).bucket key other).mpr want
  have clear := free key given
  rw [Sidx.conflict, decide_eq_false_iff_not] at clear
  exact clear ⟨other, inside, differs⟩

theorem unique_index (describes : Describes w s store) {field : String}
    (unique : (field, true) ∈ store.indexes) :
    ∃ t ∈ w.col.sidx, t.field = field ∧ t.unique = true := by
  rw [describes.indexes] at unique
  obtain ⟨t, member, same⟩ := List.mem_map.mp unique
  obtain ⟨rfl, marked⟩ := Prod.mk.inj same
  exact ⟨t, member, rfl, marked⟩

/-- A write that passes the check of the unique indexes is accepted. -/
theorem accepts_of_check (coherent : Coherent w s) (governed : Governed w.col)
    (describes : Describes w s store) {id : Nat} (passed : sidxCheckUnique w.col id data = .ok ()) :
    store.Accepts id data := by
  intro field unique
  obtain ⟨t, member, rfl, marked⟩ := unique_index describes unique
  apply unclaimed_of_conflict coherent governed describes member
  intro key given
  unfold sidxCheckUnique at passed
  split at passed
  · cases passed
  · rename_i clear
    have pass := List.find?_eq_none.mp clear t member
    simpa [marked, given] using pass

end Unique

/-! ### Batches -/

variable {op : TxOp N} {claimed claimed' : Claims} {indexes : List Sidx} {ops : List (TxOp N)}

theorem txCheckIndex_ok (passed : txCheckIndex op claimed t = .ok claimed') :
    (∀ key taken, claimed.lookup key = some taken → claimed'.lookup key = some taken) ∧
      (t.unique = true → ∀ key, indexKey t.field op.data = some key →
        t.conflict key op.id = false ∧ claimed'.lookup (t.field, key) = some op.id) := by
  unfold txCheckIndex at passed
  split_ifs at passed with unique
  · rcases given : indexKey t.field op.data with - | key
    · rw [given] at passed
      obtain rfl := Except.ok.inj passed
      exact ⟨fun _ _ held => held, nofun⟩
    · rw [given] at passed
      simp only at passed
      split_ifs at passed with clash
      -- a key that was claimed before was claimed by the same record
      have earlier : claimed' = ((t.field, key), op.id) :: claimed ∧
          ∀ taken, claimed.lookup (t.field, key) = some taken → taken = op.id := by
        rcases claim : claimed.lookup (t.field, key) with - | taken
        · rw [claim] at passed
          exact ⟨(Except.ok.inj passed).symm, nofun⟩
        · rw [claim] at passed
          simp only at passed
          split_ifs at passed with other
          refine ⟨(Except.ok.inj passed).symm, ?_⟩
          rintro found same
          obtain rfl := Option.some.inj same
          exact not_not.mp other
      obtain ⟨rfl, mine⟩ := earlier
      constructor
      · intro other taken held
        by_cases same : other = (t.field, key)
        · subst same
          rw [List.lookup_cons_self, mine taken held]
        · rw [List.lookup_cons, beq_false_of_ne same]
          exact held
      · intro _ found same
        obtain rfl := Option.some.inj same
        exact ⟨by simpa using clash, List.lookup_cons_self⟩
  · obtain rfl := Except.ok.inj passed
    exact ⟨fun _ _ held => held, fun marked => absurd marked unique⟩

theorem txCheckIndexes_ok (passed : indexes.foldlM (txCheckIndex op) claimed = .ok claimed') :
    (∀ key taken, claimed.lookup key = some taken → claimed'.lookup key = some taken) ∧
      ∀ t ∈ indexes, t.unique = true → ∀ key, indexKey t.field op.data = some key →
        t.conflict key op.id = false ∧ claimed'.lookup (t.field, key) = some op.id := by
  induction indexes generalizing claimed with
  | nil =>
    obtain rfl := Except.ok.inj passed
    exact ⟨fun _ _ held => held, nofun⟩
  | cons first indexes ih =>
    rw [List.foldlM_cons] at passed
    obtain ⟨middle, here, passed⟩ := ok_of_bind passed
    obtain ⟨keeps, checked⟩ := txCheckIndex_ok here
    obtain ⟨later, rest⟩ := ih passed
    refine ⟨fun key taken held => later key taken (keeps key taken held), ?_⟩
    intro t member marked key given
    rcases List.mem_cons.mp member with rfl | inside
    · obtain ⟨clear, mine⟩ := checked marked key given
      exact ⟨clear, later _ _ mine⟩
    · exact rest t inside marked key given

/-- A checked batch leaves every key of a unique index with one record. -/
theorem txCheckFrom_ok (passed : txCheckFrom indexes ops claimed = .ok ()) :
    ∃ final : Claims,
      (∀ key taken, claimed.lookup key = some taken → final.lookup key = some taken) ∧
      ∀ op ∈ ops, op.kind ≠ .delete → ∀ t ∈ indexes, t.unique = true →
        ∀ key, indexKey t.field op.data = some key →
          t.conflict key op.id = false ∧ final.lookup (t.field, key) = some op.id := by
  induction ops generalizing claimed with
  | nil => exact ⟨claimed, fun _ _ held => held, nofun⟩
  | cons first ops ih =>
    rw [txCheckFrom] at passed
    rcases here : txCheckOp indexes first claimed with e | middle
    · rw [here] at passed
      cases passed
    · rw [here] at passed
      obtain ⟨final, later, rest⟩ := ih passed
      have checked : (∀ key taken, claimed.lookup key = some taken →
            middle.lookup key = some taken) ∧
          (first.kind ≠ .delete → ∀ t ∈ indexes, t.unique = true →
            ∀ key, indexKey t.field first.data = some key →
              t.conflict key first.id = false ∧
                middle.lookup (t.field, key) = some first.id) := by
        unfold txCheckOp at here
        split at here
        · rename_i removal
          obtain rfl := Except.ok.inj here
          exact ⟨fun _ _ held => held, fun put => absurd removal put⟩
        · exact ⟨(txCheckIndexes_ok here).1, fun _ => (txCheckIndexes_ok here).2⟩
        · exact ⟨(txCheckIndexes_ok here).1, fun _ => (txCheckIndexes_ok here).2⟩
      refine ⟨final, fun key taken held => later _ _ (checked.1 key taken held), ?_⟩
      intro op member put t inside marked key given
      rcases List.mem_cons.mp member with rfl | more
      · obtain ⟨clear, mine⟩ := checked.2 put t inside marked key given
        exact ⟨clear, later _ _ mine⟩
      · exact rest op more put t inside marked key given

/-- A batch that passes the check of the unique indexes is admitted. -/
theorem admits_of_check {w : World N} {s : Segments N} {store : Store N} (coherent : Coherent w s)
    (governed : Governed w.col) (describes : Describes w s store)
    (passed : txCheckUnique w.col ops = .ok ()) : store.Admits ops := by
  obtain ⟨final, -, checked⟩ := txCheckFrom_ok passed
  constructor
  · intro op member put field unique
    obtain ⟨t, inside, rfl, marked⟩ := unique_index describes unique
    apply unclaimed_of_conflict coherent governed describes inside
    intro key given
    exact (checked op member put t inside marked key given).1
  · intro field unique op member put other inside puts given same
    obtain ⟨t, here, rfl, marked⟩ := unique_index describes unique
    obtain ⟨key, holds⟩ := Option.isSome_iff_exists.mp given
    have mine := (checked op member put t here marked key holds).2
    have theirs := (checked other inside puts t here marked key (same ▸ holds)).2
    exact Option.some.inj (mine.symm.trans theirs)

/-! ## Single writes -/

/-- Data and ids as callers give them: every line says all of its data, and a
transaction inserts under ids that were reserved for it. -/
def Admissible (w : World N) : Call N → Prop
  | .insert data _ | .update _ data | .updateWithExpiry _ data _ =>
    Keepable w.col.enc data
  | .insertMany records _ => ∀ data ∈ records, Keepable w.col.enc data
  | .commitTx ops =>
    (∀ op ∈ ops, op.kind ≠ .delete → Keepable w.col.enc op.data) ∧
      (∀ op ∈ ops, op.kind = .insert →
        op.id ≤ w.col.idSeq ∧ w.col.index.lookup op.id = none) ∧
      ((txInserts ops).map TxOp.id).Nodup
  | .delete _ | .insertWithKey _ _ | .upsert _ _ | .updateIfRev _ _ _
  | .updateIfMatch _ _ _ | .rotateSegment | .ensureIndex _ _ => True

/-- A call changes the store as the machine says for its reply. -/
def Refines (env : Env) (w : World N) (s : Segments N) (store : Store N)
    (call : Call N) : Prop :=
  ∃ es store', Steps w es ((call.proc env).run w).2 ∧
    Performs w.col.cfg w.col.enc env store call ((call.proc env).run w).1 store' ∧
    Stocked w.col.enc (applyEntries (records s.entries) es) store'.stock ∧
    store'.indexes = indexFlags ((call.proc env).run w).2.col

variable {call : Call N} {result : Except Error Reply} {es : List (Entry N)} {loc : IndexEntry}

section Single

variable {env : Env} {w : World N} {s : Segments N} {store : Store N}

theorem refines_of_writes {stock : Stock N} (describes : Describes w s store)
    (wrote : Writes (call.proc env) w result es)
    (stocked : Stocked w.col.enc (applyEntries (records s.entries) es) stock)
    (performs : Performs w.col.cfg w.col.enc env store call result { store with stock }) :
    Refines env w s store call := by
  refine ⟨es, { store with stock }, wrote.2.steps, ?_, stocked, ?_⟩
  · rw [wrote.1]
    exact performs
  · rw [wrote.2.flags]
    exact describes.indexes

theorem refines_refused {e : Error} (describes : Describes w s store)
    (wrote : Writes (call.proc env) w (.error e) []) (refusal : Refusal w.col.enc e) :
    Refines env w s store call :=
  refines_of_writes describes wrote describes.stocked (.refused refusal)

theorem Writes.reply {α : Type} {p : Proc N α} {value : α} (wrote : Writes p w (.ok value) es)
    (f : α → Reply) :
    Writes (do
      let value ← p
      return f value) w (.ok (f value)) es := by
  have whole : Writes (do
      let value ← p
      return f value) w (.ok (f value)) (es ++ []) :=
    Calls.Writes.bind wrote (writes_pure _ _)
  rwa [List.append_nil] at whole

/-- A record that the index knows is in stock. -/
theorem held_of_index (coherent : Coherent w s) (describes : Describes w s store) {id : Nat}
    (found : w.col.index.lookup id = some loc) :
    ∃ held, store.stock id = some held ∧ loc.rev = held.rev ∧
      loc.expiresAt = held.deadline := by
  obtain ⟨e, alive, rev, expiry, -⟩ := coherent.record_of_index found
  obtain ⟨held, there, shows⟩ := describes.stocked.of_journal alive
  exact ⟨held, there, rev.trans shows.rev, expiry.trans shows.deadline⟩

theorem absent_of_index (coherent : Coherent w s) (describes : Describes w s store)
    {id : Nat} (missing : w.col.index.lookup id = none) : store.stock id = none :=
  describes.stocked.absent_iff.mp (coherent.lookup_index_eq_none.mp missing)

theorem absent_of_unreserved (coherent : Coherent w s) (describes : Describes w s store)
    {id : Nat} (beyond : w.col.idSeq < id) : store.stock id = none :=
  absent_of_index coherent describes (index_fresh coherent beyond)

theorem stocked_put {op : Op} {id rev : Nat} (describes : Describes w s store)
    (puts : Puts w.col.enc op id plain rev deadline e) (put : Op.isPut op) :
    Stocked w.col.enc (applyEntries (records s.entries) [e])
      (store.put id ⟨plain, rev, deadline⟩).stock :=
  describes.stocked.put puts put

/-- The store after an update of a record that the index knows. -/
theorem replaces_of_index (coherent : Coherent w s) (governed : Governed w.col)
    (describes : Describes w s store) {id : Nat} (deadline : Int → Int)
    (found : w.col.index.lookup id = some loc) (unique : sidxCheckUnique w.col id data = .ok ()) :
    Replaces store id data deadline (loc.rev + 1)
      (store.put id ⟨data, loc.rev + 1, deadline loc.expiresAt⟩) := by
  obtain ⟨held, there, rev, expiry⟩ := held_of_index coherent describes found
  rw [rev, expiry]
  exact .mk there (accepts_of_check coherent governed describes unique)

theorem delete_refines (coherent : Coherent w s) (calm : w.fault = none)
    (describes : Describes w s store) (id : Nat) :
    Refines env w s store (.delete id) := by
  rcases delete_writes coherent calm env id with
    ⟨loc, found, wrote⟩ | ⟨missing, wrote⟩ | ⟨reason, refused⟩
  · obtain ⟨held, there, -⟩ := held_of_index coherent describes found
    exact refines_of_writes describes (Writes.reply wrote fun _ => .done)
      (describes.stocked.drop rfl rfl) (.delete there)
  · exact refines_of_writes describes wrote.bind_error describes.stocked
      (.deleteMissing (absent_of_index coherent describes missing))
  · exact refines_refused describes refused.bind_error (.append reason)

section Calm

variable (coherent : Coherent w s) (calm : w.fault = none) (governed : Governed w.col)
  (describes : Describes w s store)

include coherent calm governed describes

theorem insert_refines (keep : Keepable w.col.enc data) (expiresAt : Option Int) :
    Refines env w s store (.insert data expiresAt) := by
  rcases checkReserved_cases data with free | reserved
  · have begins {result : Except Error Nat} {es : List (Entry N)}
        (later : Writes (insertRecord env data (resolveInsertExpiry w.col.cfg env.now expiresAt)) w
          result es) : Writes (insertWithExpiry env data expiresAt) w result es :=
      writes_check_ok free (writes_read later)
    rcases (insertRecord_executes coherent calm governed env keep _).cases
        (insertPlan_planned governed.lawful keep) with
      ⟨e, ⟨puts, unique⟩, wrote⟩ | ⟨error, refusal, refused⟩
    · refine refines_of_writes describes (Writes.reply (begins wrote) .id)
        (stocked_put describes puts rfl) (.insert ?_)
      rw [puts.id] at unique
      exact .mk (absent_of_unreserved coherent describes (Nat.lt_succ_self _))
        (accepts_of_check coherent governed describes unique)
    · exact refines_refused describes (begins refused).bind_error refusal
  · exact refines_refused describes (Writes.bind_error (writes_check_error reserved)) .reserved

/-- A call that checks its data and then updates a record by its id. -/
theorem refines_of_updateRecord {id : Nat} {p : Proc N Unit} (expiresAt : Option Int)
    (keep : Keepable w.col.enc data)
    (shape : call.proc env = (do
      let value ← p
      return (fun _ => .done) value))
    (reserved : checkReserved data = .error .reservedField →
      Writes p w (.error .reservedField) [])
    (begins : ∀ {result es}, checkReserved data = .ok () →
      Writes (updateRecord env id data expiresAt) w result es → Writes p w result es)
    (updates : ∀ {rev store'}, Replaces store id data (fun deadline => expiresAt.getD deadline) rev
      store' → Performs w.col.cfg w.col.enc env store call (.ok .done) store')
    (misses : store.stock id = none →
      Performs w.col.cfg w.col.enc env store call (.error (.notFound id)) store) :
    Refines env w s store call := by
  have fails {error : Error} {es : List (Entry N)} (failed : Writes p w (.error error) es) :
      Writes (call.proc env) w (.error error) es := by
    rw [shape]
    exact failed.bind_error
  rcases checkReserved_cases data with free | taken
  · rcases updateRecord_writes coherent calm governed env id keep expiresAt with
      ⟨loc, e, found, puts, unique, wrote⟩ | ⟨missing, wrote⟩ | ⟨error, refusal, refused⟩
    · have done := Writes.reply (begins free wrote) fun _ => Reply.done
      rw [← shape] at done
      exact refines_of_writes describes done (stocked_put describes puts rfl)
        (updates (replaces_of_index coherent governed describes _ found unique))
    · exact refines_of_writes describes (fails (begins free wrote)) describes.stocked
        (misses (absent_of_index coherent describes missing))
    · exact refines_refused describes (fails (begins free refused)) refusal
  · exact refines_refused describes (fails (reserved taken)) .reserved

theorem update_refines (id : Nat) (keep : Keepable w.col.enc data) :
    Refines env w s store (.update id data) :=
  refines_of_updateRecord coherent calm governed describes none keep rfl
    (fun reserved => writes_check_error reserved) (fun free wrote => writes_check_ok free wrote)
    .update .updateMissing

theorem updateWithExpiry_refines (id : Nat) (keep : Keepable w.col.enc data)
    (expiresAt : Option Int) :
    Refines env w s store (.updateWithExpiry id data expiresAt) :=
  refines_of_updateRecord coherent calm governed describes
    (some (resolveInsertExpiry w.col.cfg env.now expiresAt)) keep rfl (fun reserved => writes_check_error reserved)
    (fun free wrote => writes_check_ok free (writes_read wrote))
    .updateWithExpiry .updateWithExpiryMissing

end Calm

end Single

/-! ## Keyed writes -/

section Keyed

variable {env : Env} {w : World N} {s : Segments N} {store : Store N}

theorem refines_after {q : Proc N Reply} {w' : World N} {s' : Segments N} {store' : Store N}
    {stock : Stock N} (run : (call.proc env).run w = q.run w') (steps : Steps w [] w')
    (entries : s'.entries = s.entries) (describes : Describes w' s' store')
    (wrote : Writes q w' result es)
    (stocked : Stocked w'.col.enc (applyEntries (records s'.entries) es) stock)
    (performs : Performs w'.col.cfg w'.col.enc env store call result { store' with stock }) :
    Refines env w s store call := by
  have frame := steps.frame
  rw [frame.cfg, frame.enc] at performs
  rw [frame.enc, entries] at stocked
  refine ⟨es, { store' with stock }, ?_, ?_, stocked, ?_⟩
  · rw [run]
    exact steps.trans wrote.2.steps
  · rw [run, wrote.1]
    exact performs
  · rw [run, wrote.2.flags]
    exact describes.indexes

/-- Stored data carries the same key as the data before encryption. -/
theorem key_of_shows (governed : Governed w.col) (known : keyField ∈ w.col.sidx.map Sidx.field)
    (shows : Shows w.col.enc e held) : indexKey keyField e.data = indexKey keyField held.data := by
  have exposed : Exposed w.col.enc keyField := fun policy active =>
    governed.plain policy active _ known
  rw [indexKey, indexKey, shows.stored.agrees _ exposed]

variable {key : String}

/-- The record that the index on the key field gives carries the key. -/
theorem carries_of_carrying (coherent : Coherent w s) (governed : Governed w.col)
    (describes : Describes w s store) {id : Nat} (found : carrying env w.col key = some (id, loc)) :
    w.col.index.lookup id = some loc ∧
      ∃ held e, store.Carries key id held ∧ loc.rev = held.rev ∧
        readEntry w id loc = .ok e ∧ materialize w.col.enc e.data = .ok held.data := by
  obtain ⟨known, indexed, e, alive, carries⟩ := carrying_some coherent found
  obtain ⟨held, there, shows⟩ := describes.stocked.of_journal alive
  obtain ⟨other, same, rev, -, -, reads⟩ := coherent.record_of_index known
  rw [alive, Option.some.injEq] at same
  subst same
  refine ⟨known, held, e, ⟨there, ?_⟩, rev.trans shows.rev, reads, shows.stored.opens⟩
  rw [← key_of_shows governed indexed shows]
  exact carries

/-- Without a record in the index on the key field no record carries the key. -/
theorem unused_of_carrying (coherent : Coherent w s) (governed : Governed w.col)
    (describes : Describes w s store) (known : keyField ∈ w.col.sidx.map Sidx.field)
    (missing : carrying env w.col key = none) (id : Nat) (held : Held N) :
    ¬ store.Carries key id held := by
  rintro ⟨there, carries⟩
  obtain ⟨e, alive, shows⟩ := describes.stocked.of_stock there
  apply carrying_none coherent known missing alive
  rw [key_of_shows governed known shows]
  exact carries

omit [JsonNumber N] in
theorem stock_ensure (store : Store N) (field : String) (unique : Bool) :
    (store.ensure field unique).stock = store.stock := by
  unfold Store.ensure
  split_ifs <;> rfl

theorem run_upsert {w' : World N} (env : Env) (key : String) (free : checkReserved data = .ok ())
    (ensured : (ensureKeyIndex : Proc N Unit).run w = (.ok (), w')) :
    ((Call.upsert key data).proc env).run w = (do
      let record ← upsertRecord env key data
      return Reply.record record.id record.rev : Proc N Reply).run w' := by
  apply Proc.run_bind_congr
  rw [Collection.upsert, Proc.run_bind_ok (by rw [free]; rfl), Proc.run_bind_ok ensured]
  rfl

variable (coherent : Coherent w s) (calm : w.fault = none) (governed : Governed w.col)
  (describes : Describes w s store)

include coherent calm governed describes

/-- Creating an index is refused, or leaves the records as they are and the field
indexed, even if the file of the index cannot be written. -/
theorem ensureIndex_cases (field : String) (unique : Bool) :
    (∃ policy, w.col.enc = some policy ∧ policy.isEncryptedField field = true ∧
        (ensureIndex field unique).run w = (.error (.fieldEncrypted field), w)) ∨
      ∃ result w' s', (ensureIndex field unique).run w = (result, w') ∧
        (result = .ok () ∨ sidxNameValid field = false ∧ result = .error .io) ∧ Steps w [] w' ∧
        Coherent w' s' ∧ s'.entries = s.entries ∧ w'.fault = none ∧ Governed w'.col ∧
        Describes w' s' (store.ensure field unique) ∧ field ∈ w'.col.sidx.map Sidx.field := by
  have fields : store.indexes.map Prod.fst = w.col.sidx.map Sidx.field := by
    rw [describes.indexes, indexFlags, List.map_map]
    rfl
  by_cases plain : ∀ policy ∈ w.col.enc, policy.isEncryptedField field = false
  · right
    by_cases known : field ∈ w.col.sidx.map Sidx.field
    · refine ⟨.ok (), w, s, ensureIndex_known field unique plain known, .inl rfl, .refl w, coherent,
        rfl, calm, governed, ?_, known⟩
      rw [Store.ensure, fields, if_pos known]
      exact describes
    · obtain ⟨steps, ended, flags⟩ := ensureIndex_register coherent calm unique plain known
      obtain ⟨s', after, entries⟩ := coherent.steps steps
      rw [List.append_nil] at entries
      refine ⟨_, ((ensureIndex field unique).run w).2, s', Prod.ext ended rfl, ?_, steps, after,
        entries, steps.frame.calm calm, governed.steps steps, ⟨?_, ?_⟩, ?_⟩
      · cases sidxNameValid field with
        | true => exact .inl rfl
        | false => exact .inr ⟨rfl, rfl⟩
      · rw [steps.frame.enc, entries, Store.ensure, fields, if_neg known]
        exact describes.stocked
      · rw [Store.ensure, fields, if_neg known]
        refine Eq.trans ?_ flags.symm
        rw [describes.indexes]
      · have listed := congrArg (List.map Prod.fst) flags
        rw [indexFlags, List.map_map, List.map_append] at listed
        change List.map Sidx.field _ = _ ++ [field] at listed
        rw [listed]
        exact List.mem_append_right _ (List.mem_singleton_self _)
  · left
    obtain ⟨policy, active, hidden⟩ := not_forall₂.mp plain
    have visible : policy.isEncryptedField field = true := by simpa using hidden
    exact ⟨policy, active, visible, ensureIndex_encrypted unique active visible⟩

/-- Creating the index on the key field is refused, or leaves the records as
they are and the field indexed. -/
theorem ensureKeyIndex_cases :
    (∃ policy, w.col.enc = some policy ∧ policy.isEncryptedField keyField = true ∧
        (ensureKeyIndex : Proc N Unit).run w = (.error (.fieldEncrypted keyField), w)) ∨
      ∃ w' s', (ensureKeyIndex : Proc N Unit).run w = (.ok (), w') ∧ Steps w [] w' ∧
        Coherent w' s' ∧ s'.entries = s.entries ∧ w'.fault = none ∧ Governed w'.col ∧
        Describes w' s' (store.ensure keyField true) ∧
        keyField ∈ w'.col.sidx.map Sidx.field := by
  rcases ensureIndex_cases coherent calm governed describes keyField true with
    hidden | ⟨result, w', s', ran, rfl | ⟨invalid, -⟩, rest⟩
  · exact .inl hidden
  · exact .inr ⟨w', s', ran, rest⟩
  · exact absurd invalid (by decide)

theorem insertWithKey_refines (key : String) (data : Option (Data N)) :
    Refines env w s store (.insertWithKey key data) := by
  rcases checkReserved_cases data with free | reserved
  · rcases ensureKeyIndex_cases coherent calm governed describes with
      ⟨policy, active, hidden, refused⟩ |
      ⟨w', s', ensured, steps, coherent', entries, calm', governed', describes', -⟩
    · exact refines_refused describes
        (Writes.bind_error (writes_check_ok free (writes_bind_error refused)))
        (.hidden active hidden)
    · have run : ((Call.insertWithKey key data).proc env).run w = (do
          let id ← insertRecord env (some (stampKey data key))
            (resolveInsertExpiry w'.col.cfg env.now none)
          return Reply.id id : Proc N Reply).run w' := by
        apply Proc.run_bind_congr
        rw [Collection.insertWithKey, Proc.run_bind_ok (by rw [free]; rfl),
          Proc.run_bind_ok ensured, Proc.run_bind_ok (Proc.run_read _ w')]
      have keep := keepable_stampKey w'.col.enc data key
      rcases (insertRecord_executes coherent' calm' governed' env keep _).cases
          (insertPlan_planned governed'.lawful keep) with
        ⟨e, ⟨puts, unique⟩, wrote⟩ | ⟨error, refusal, refused⟩
      · refine refines_after run steps entries describes' (Writes.reply wrote .id)
          (stocked_put describes' puts rfl) (.insertWithKey ?_)
        rw [puts.id] at unique
        exact .mk (absent_of_unreserved coherent' describes' (Nat.lt_succ_self _))
          (accepts_of_check coherent' governed' describes' unique)
      · exact refines_after run steps entries describes' refused.bind_error
          describes'.stocked (.refusedKeyed refusal (.inl ⟨key, data, rfl⟩))
  · exact refines_refused describes (Writes.bind_error (writes_check_error reserved)) .reserved

theorem upsert_refines (key : String) (data : Option (Data N)) :
    Refines env w s store (.upsert key data) := by
  rcases checkReserved_cases data with free | reserved
  · rcases ensureKeyIndex_cases coherent calm governed describes with
      ⟨policy, active, hidden, refused⟩ |
      ⟨w', s', ensured, steps, coherent', entries, calm', governed', describes', known⟩
    · exact refines_refused describes
        (Writes.bind_error (writes_check_ok free (writes_bind_error refused)))
        (.hidden active hidden)
    · have run := run_upsert env key free ensured
      rcases upsertRecord_writes coherent' calm' governed' env key data with
        ⟨e, puts, wrote⟩ | ⟨error, refusal, refused⟩
      · have done := Writes.reply wrote fun record => Reply.record record.id record.rev
        rcases found : carrying env w'.col key with - | ⟨id, loc⟩
        · rw [found] at puts
          obtain ⟨puts, unique⟩ := puts
          refine refines_after run steps entries describes' done
            (stocked_put describes' puts rfl) ?_
          rw [puts.id, puts.rev]
          refine .upsertNew ?_ (.mk ?_ ?_)
          · intro other held carries
            refine unused_of_carrying coherent' governed' describes' known found other
              held ⟨?_, carries.2⟩
            rw [stock_ensure]
            exact carries.1
          · exact absent_of_unreserved coherent' describes' (Nat.lt_succ_self _)
          · exact accepts_of_check coherent' governed' describes' unique
        · rw [found] at puts
          obtain ⟨puts, unique⟩ := puts
          obtain ⟨there, held, -, carries, -⟩ :=
            carries_of_carrying coherent' governed' describes' found
          have before : store.Carries key id held := by
            refine ⟨?_, carries.2⟩
            rw [← stock_ensure store keyField true]
            exact carries.1
          refine refines_after run steps entries describes' done
            (stocked_put describes' puts rfl) ?_
          rw [puts.id, puts.rev]
          exact .upsertOld before (replaces_of_index coherent' governed' describes'
            (fun deadline => deadline) there unique)
      · exact refines_after run steps entries describes' refused.bind_error
          describes'.stocked (.refusedKeyed refusal (.inr ⟨key, data, rfl⟩))
  · exact refines_refused describes (Writes.bind_error (writes_check_error reserved)) .reserved

/-- A call that checks its data and then makes a conditional update: it is
applied to a record that carries the key and passes the test, or it changes
nothing. -/
theorem refines_of_compareAndSwap {test : Option (Data N) → Nat → Bool} {p : Proc N Bool}
    (shape : call.proc env = (do
      let value ← p
      return .swapped value))
    (body : p = (do
      Proc.check (checkReserved data)
      compareAndSwap env key data test))
    (swaps : ∀ {id rev held store'}, store.Carries key id held → test held.data held.rev = true →
      Replaces store id (some (stampKey data key)) (fun deadline => deadline) rev store' →
      Performs w.col.cfg w.col.enc env store call (.ok (.swapped true)) store')
    (keeps : (¬ store.indexed keyField ∨ (∀ id held, ¬ store.Carries key id held) ∨
        ∃ id held, store.Carries key id held ∧ test held.data held.rev = false) →
      Performs w.col.cfg w.col.enc env store call (.ok (.swapped false)) store) :
    Refines env w s store call := by
  subst body
  rcases checkReserved_cases data with free | reserved
  swap
  · refine refines_refused describes ?_ .reserved
    rw [shape]
    exact Writes.bind_error (writes_check_error reserved)
  have fails {error : Error} (failed : Writes (compareAndSwap env key data test) w (.error error) [])
      (refusal : Refusal w.col.enc error) : Refines env w s store call := by
    refine refines_refused describes ?_ refusal
    rw [shape]
    exact Writes.bind_error (writes_check_ok free failed)
  have ends {swapped : Bool} {es : List (Entry N)}
      (wrote : Writes (compareAndSwap env key data test) w (.ok swapped) es) :
      Writes (call.proc env) w (.ok (.swapped swapped)) es := by
    rw [shape]
    exact Writes.reply (writes_check_ok free wrote) .swapped
  have swapped := compareAndSwap_swaps coherent calm governed env key data test
  rw [swapPlan] at swapped
  rcases found : carrying env w.col key with - | ⟨id, loc⟩
  · rw [found] at swapped
    refine refines_of_writes describes (ends swapped) describes.stocked (keeps ?_)
    by_cases known : keyField ∈ w.col.sidx.map Sidx.field
    · exact .inr (.inl (unused_of_carrying coherent governed describes known found))
    · left
      rw [Store.indexed, describes.indexes, indexFlags, List.map_map]
      exact known
  · obtain ⟨there, held, current, carries, rev, reads, opens⟩ :=
      carries_of_carrying coherent governed describes found
    have plan : (do
        let current ← readEntry w id loc
        let plain ← materialize w.col.enc current.data
        if test plain loc.rev then
          (replacePlan env w.col (stampKey data key) id loc).map some
        else .ok none) = if test held.data held.rev then
          (replacePlan env w.col (stampKey data key) id loc).map some else .ok none := by
      rw [reads, ← rev]
      change (materialize w.col.enc current.data).bind _ = _
      rw [opens]
      rfl
    rw [found] at swapped
    change Swaps _ _ (do
      let current ← readEntry w id loc
      let plain ← materialize w.col.enc current.data
      if test plain loc.rev then
        (replacePlan env w.col (stampKey data key) id loc).map some
      else .ok none) at swapped
    rw [plan] at swapped
    rcases passed : test held.data held.rev with - | -
    · rw [passed] at swapped
      exact refines_of_writes describes (ends swapped) describes.stocked
        (keeps (.inr (.inr ⟨id, held, carries, passed⟩)))
    · rw [passed, if_pos rfl] at swapped
      have planned : Planned (Refusal w.col.enc) _ (replacePlan env w.col (stampKey data key) id loc) :=
        replacePlan_planned governed.lawful (keepable_stampKey w.col.enc data key)
      generalize replacePlan env w.col (stampKey data key) id loc = plan at swapped planned
      rcases plan with error | e
      · exact fails swapped planned
      · obtain ⟨puts, unique⟩ := planned
        exact refines_of_writes describes (ends swapped) (stocked_put describes puts rfl)
          (swaps carries passed (replaces_of_index coherent governed describes
            (fun deadline => deadline) there unique))

theorem updateIfRev_refines (key : String) (expectedRev : Nat) (data : Option (Data N)) :
    Refines env w s store (.updateIfRev key expectedRev data) := by
  refine refines_of_compareAndSwap coherent calm governed describes rfl rfl ?_ ?_
  · exact fun carries passed => .updateIfRev carries (of_decide_eq_true passed)
  · rintro (unindexed | unused | ⟨id, held, carries, failed⟩)
    · exact .updateIfRevKeeps (.inl unindexed)
    · exact .updateIfRevKeeps (.inr (.inl unused))
    · exact .updateIfRevKeeps (.inr (.inr ⟨id, held, carries, of_decide_eq_false failed⟩))

theorem updateIfMatch_refines (key : String) (pred : Option (Data N) → Bool)
    (data : Option (Data N)) :
    Refines env w s store (.updateIfMatch key pred data) :=
  refines_of_compareAndSwap coherent calm governed describes rfl rfl
    (fun carries passed => .updateIfMatch carries passed) .updateIfMatchKeeps

end Keyed

end Scriva.Engine.Refinement
