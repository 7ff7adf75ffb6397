import Scriva.Engine.Twins

/-!
# What is seen of the reaper

A record past its deadline is hidden from reads by id and from scans.  It stays
in the indexes until the reaper has removed it, and whatever asks an index sees
it there: the test for a key, the target of an update or a delete, the check of
a unique index, and the quota.

A collection that the reaper has visited is a twin of the one that it has not.
`Blind` says that an operation asks no index about the removed records.
-/

namespace Scriva.Engine.Reaping

open Store.Record Store.Ndjson Segment PrimaryIndex Directory Engine.Collection Journal Coherence
open Writing Outcome Calls Plans Machine Refinement Batches Requests Scanning Interleaving Turns
open Twins
open Query (Filter NumberOrder)
open Load (RenameOrder)
open Reading (storedLine)
open Keys (getByKey)
open Engine.Sequential (fresh stillEnv smallConfig oneField)

variable {N : Type} [JsonNumber N]

/-! ## Operations -/

/-- An operation after the reaper had its chance. -/
inductive Operation (N : Type) where
  | get (id : Nat)
  | getByKey (key : String)
  | existsKey (key : String)
  | scan (f : Filter)
  | insert (data : Option (Data N)) (expiresAt : Option Int)
  | insertWithKey (key : String) (data : Option (Data N))
  | update (id : Nat) (data : Option (Data N))
  | updateIfRev (key : String) (expectedRev : Nat) (data : Option (Data N))
  | delete (id : Nat)

def called (env : Env) (w : World N) (call : Call N) : Result N × World N :=
  (.reply ((call.proc env).run w).1, ((call.proc env).run w).2)

/-! ## Runs -/

section Runs

variable [NumberOrder N] (regexp : Query.Regexp) (view : World N → String → OrderedView N)

/-- What an operation ends with, and the collection after it. -/
def Operation.run (env : Env) (w : World N) : Operation N → Result N × World N
  | .get id => (.record (Collection.get w env.now id), w)
  | .getByKey key => (.record (Keys.getByKey env w key), w)
  | .existsKey key => (.answer (Twins.existsKey w.col key), w)
  | .scan f => (.rows (Scanning.scan ⟨regexp, view w, env.now⟩ w f), w)
  | .insert data expiresAt => called env w (.insert data expiresAt)
  | .insertWithKey key data => called env w (.insertWithKey key data)
  | .update id data => called env w (.update id data)
  | .updateIfRev key expectedRev data => called env w (.updateIfRev key expectedRev data)
  | .delete id => called env w (.delete id)

/-- Operations, each with its surroundings, have the same results on two
collections. -/
def Agree : World N → World N → List (Env × Operation N) → Prop
  | _, _, [] => True
  | w, v, (env, op) :: rest =>
    Same (op.run regexp view env w).1 (op.run regexp view env v).1 ∧
      Agree (op.run regexp view env w).2 (op.run regexp view env v).2 rest

/-- An operation asks no index about the gone records: it names no such record
and no key that one holds, and the unique indexes and the quota decide without
them.  A scan finds what matches. -/
def Blind (gone : Finset Nat) (env : Env) (w v : World N) : Operation N → Prop
  | .get _ => True
  | .getByKey key => Disjoint (indexLookup w.col keyField key) gone ∨
      indexLookup w.col keyField key ⊆ gone
  | .existsKey key => indexLookup w.col keyField key ⊆ gone →
      indexLookup w.col keyField key = ∅
  | .scan f => Finds ⟨regexp, view w, env.now⟩ w f ∧ Finds ⟨regexp, view v, env.now⟩ v f
  | .insert data expiresAt => Keepable w.col.enc data ∧
      InsertBlind gone env w v data (resolveInsertExpiry w.col.cfg env.now expiresAt)
  | .insertWithKey key data => InsertBlind gone env ((ensureKeyIndex : Proc N Unit).run w).2
      ((ensureKeyIndex : Proc N Unit).run v).2 (some (stampKey data key))
      (resolveInsertExpiry w.col.cfg env.now none)
  | .update id data => id ∉ gone ∧ Keepable w.col.enc data ∧ Impartial gone w.col id data
  | .updateIfRev key _ data => Disjoint (indexLookup w.col keyField key) gone ∧
      ∀ id loc, carrying env w.col key = some (id, loc) →
        Impartial gone w.col id (some (stampKey data key))
  | .delete id => id ∉ gone

/-- Every operation of a run is blind to the gone records where it is made, and
none is made before a time. -/
def BlindRun (gone : Finset Nat) (now : Int) :
    World N → World N → List (Env × Operation N) → Prop
  | _, _, [] => True
  | w, v, (env, op) :: rest => now ≤ env.now ∧ Blind regexp view gone env w v op ∧
      BlindRun gone now (op.run regexp view env w).2 (op.run regexp view env v).2 rest

variable {w v : World N} {gone : Finset Nat} {now : Int}

variable {env : Env}

omit [NumberOrder N] in
theorem same_of_alike {made : Call N} (alike : Alike gone now env made w v) :
    Same (called env w made).1 (called env v made).1 ∧
      Twin gone now (called env w made).2 (called env v made).2 := by
  rw [called, called, alike.1]
  exact ⟨.refl _, alike.2⟩

/-- An operation that is blind to the gone records. -/
theorem operation_same (twin : Twin gone now w v) (order : now ≤ env.now) {op : Operation N}
    (blind : Blind regexp view gone env w v op) :
    Same (op.run regexp view env w).1 (op.run regexp view env v).1 ∧
      Twin gone now (op.run regexp view env w).2 (op.run regexp view env v).2 := by
  cases op with
  | get id =>
    refine ⟨?_, twin⟩
    rw [Operation.run, Operation.run, twin.get_eq order]
    exact .refl _
  | getByKey key => exact ⟨twin.getByKey_same order blind, twin⟩
  | existsKey key =>
    refine ⟨?_, twin⟩
    rw [Operation.run, Operation.run, twin.existsKey_eq blind]
    exact .refl _
  | scan f =>
    refine ⟨twin.scan_same ?_ ?_ order blind.1 blind.2, twin⟩
    · rfl
    · rfl
  | insert data expiresAt => exact same_of_alike (twin.insert_alike env blind.1 blind.2)
  | insertWithKey key data => exact same_of_alike (twin.insertWithKey_alike env blind)
  | update id data => exact same_of_alike (twin.update_alike env blind.1 blind.2.1 blind.2.2)
  | updateIfRev key expectedRev data =>
    exact same_of_alike (twin.updateIfRev_alike env expectedRev blind.1 blind.2)
  | delete id => exact same_of_alike (twin.delete_alike env blind)

theorem agree_of_twin (twin : Twin gone now w v) {ops : List (Env × Operation N)}
    (blind : BlindRun regexp view gone now w v ops) : Agree regexp view w v ops := by
  induction ops generalizing w v with
  | nil => trivial
  | cons made rest ih =>
    obtain ⟨order, here, later⟩ := blind
    obtain ⟨same, after⟩ := operation_same regexp view twin order here
    exact ⟨same, ih after later⟩

end Runs

/-! ## The reaper -/

section Reaper

variable {w v : World N} {now : Int}

/-- Some records past their deadline have been removed. -/
def Shed (now : Int) (w v : World N) : Prop :=
  ∃ gone, Twin gone now w v

variable {s : Segments N} {store : Store N} {α : Type} {p : Proc N α} {loc : IndexEntry}

theorem twin_refl (amid : Amid w s store) (plain : NoReturns w.disk) : Twin ∅ now w w where
  left := ⟨s, store, amid⟩
  right := ⟨s, store, amid⟩
  plain := ⟨plain, plain⟩
  cfg := rfl
  enc := rfl
  idSeq := rfl
  flags := rfl
  same := fun _ _ => rfl
  missing := by
    intro id absurd
    cases absurd
  past := by
    intro id absurd
    cases absurd

/-- A step of the reaper that appends nothing. -/
theorem Shed.quiet (shed : Shed now w v) {result : Except Error α} (wrote : Writes p v result [])
    (counts : Guards (Counting v.col.idSeq) p) : Shed now w (p.run v).2 := by
  obtain ⟨gone, twin⟩ := shed
  obtain ⟨t, store, amid⟩ := twin.right
  obtain ⟨t', after⟩ := Amid.writes amid wrote amid.describes.stocked
  have frame := wrote.2.steps.frame
  have lines (id : Nat) : storedLine (p.run v).2 id = storedLine v id :=
    storedLine_steps amid.coherent wrote.2.steps id
  refine ⟨gone, twin.left, ⟨t', _, after⟩, ⟨twin.plain.1, frame.plain twin.plain.2⟩,
    frame.cfg.trans twin.cfg, frame.enc.trans twin.enc, (counts.run rfl).trans twin.idSeq,
    wrote.2.flags.trans twin.flags, ?_, ?_, twin.past⟩
  · intro id kept
    rw [lines, twin.same id kept]
  · intro id dropped
    rw [lines, twin.missing id dropped]

theorem Shed.deleteExpired (shed : Shed now w v) (ts : Utc) {id : Nat}
    (found : v.col.index.lookup id = some loc) (past : expired loc.expiresAt now = true) :
    Shed now w ((deleteEntry (newDelete id ts : Entry N)).run v).2 := by
  obtain ⟨gone, twin⟩ := shed
  obtain ⟨t, store, amid⟩ := twin.right
  rcases (deleteEntry_executes amid.calm rfl (storable_newDelete id ts)
      (le_of_index amid.coherent found)).line with wrote | ⟨reason, large⟩
  · obtain ⟨t', after⟩ := Amid.writes amid wrote (amid.describes.stocked.drop rfl rfl)
    have frame := wrote.2.steps.frame
    have lines (other : Nat) : storedLine ((deleteEntry (newDelete id ts : Entry N)).run v).2 other =
        applyEntry (storedLine v) (newDelete id ts) other :=
      storedLine_steps amid.coherent wrote.2.steps other
    have kept : id ∉ gone := by
      intro dropped
      rw [(twin.lookup_gone dropped).1] at found
      cases found
    refine ⟨insert id gone, twin.left, ⟨t', _, after⟩, ⟨twin.plain.1, frame.plain twin.plain.2⟩,
      frame.cfg.trans twin.cfg, frame.enc.trans twin.enc,
      ((entries_counting.delete _).run rfl).trans twin.idSeq, wrote.2.flags.trans twin.flags, ?_, ?_, ?_⟩
    · intro other stays
      rw [Finset.mem_insert, not_or] at stays
      rw [lines, applyEntry_of_ne _ stays.1, twin.same other stays.2]
    · intro other leaves
      rw [lines]
      by_cases here : other = id
      · subst here
        exact applyEntry_same _ (newDelete other ts)
      · rw [applyEntry_of_ne _ here]
        exact twin.missing other (Finset.mem_of_mem_insert_of_ne leaves here)
    · intro other leaves
      rcases Finset.mem_insert.mp leaves with rfl | before
      · obtain ⟨e, held, -, expiry, -⟩ := amid.coherent.record_of_index found
        refine ⟨e, ?_, expiry ▸ past⟩
        rw [← twin.same other kept, storedLine_eq amid.coherent, held]
      · exact twin.past other before
  · exact Shed.quiet ⟨gone, twin⟩ large (entries_counting.delete _)

theorem preserves_syncActive (now : Int) :
    Preserves (syncActive : Proc N Unit) (Shed now w) := by
  intro v shed
  obtain ⟨gone, twin⟩ := shed
  obtain ⟨t, store, amid⟩ := twin.right
  exact Shed.quiet ⟨gone, twin⟩ (writes_of_run (run_syncActive amid.calm) (.refl v))
    guards_syncActive

theorem preserves_rotateIf (now : Int) (full : Bool) :
    Preserves (rotateIf full : Proc N Unit) (Shed now w) := by
  intro v shed
  obtain ⟨gone, twin⟩ := shed
  obtain ⟨t, store, amid⟩ := twin.right
  exact Shed.quiet ⟨gone, twin⟩ (run_rotateIf amid.coherent amid.calm full)
    (guards_rotateIf full)

theorem preserves_reapAll (env : Env) (ids : List Nat) :
    Preserves (reapAll env ids) (Shed env.now w) := by
  induction ids with
  | nil => exact preserves_done _
  | cons id ids ih =>
    intro v shed
    rw [reapAll, Proc.run_bind_ok (Proc.run_read _ v)]
    dsimp only
    split_ifs with past
    · obtain ⟨loc, found, past⟩ := (Option.any_eq_true _ _).mp past
      have after := shed.deleteExpired env.ts found past
      rw [Proc.run_bind]
      rcases ran : (deleteEntry (newDelete id env.ts : Entry N)).run v with ⟨outcome, v₁⟩
      rw [ran] at after
      cases outcome with
      | error e => exact after
      | ok _ => exact ih v₁ after
    · exact ih v shed

/-- The reaper removes some of the records that are past their deadline, and
changes nothing else. -/
theorem preserves_reapExpired (env : Env) :
    Preserves (reapExpired env) (Shed env.now w) := by
  refine (preserves_read _).bind fun index => ?_
  dsimp only
  split_ifs
  · exact preserves_done _
  · refine Preserves.bind (p := Proc.locked _) ?_ (preserves_rotateIf env.now)
    exact (preserves_reapAll env _).bind fun _ => (preserves_syncActive env.now).bind fun _ =>
      preserves_read _

/-- What is left after the reaper was there before, with the same deadline. -/
theorem Shed.lookup (shed : Shed now w v) {id : Nat} (left : v.col.index.lookup id = some loc) :
    ∃ loc', w.col.index.lookup id = some loc' ∧ loc.expiresAt = loc'.expiresAt := by
  obtain ⟨gone, twin⟩ := shed
  have kept : id ∉ gone := by
    intro dropped
    rw [(twin.lookup_gone dropped).1] at left
    cases left
  rcases twin.lookup kept with ⟨-, none⟩ | ⟨loc₁, loc₂, -, known, known', -, expiry, -⟩
  · rw [none] at left
    cases left
  · rw [left, Option.some.injEq] at known'
    subst known'
    exact ⟨loc₁, known, expiry⟩

theorem shed_refl (amid : Amid w s store) (plain : NoReturns w.disk) : Shed now w w :=
  ⟨∅, twin_refl amid plain⟩

/-- If tombstones can be written, none of the given records is left past its
deadline. -/
theorem reapAll_clears (env : Env) {ids : List Nat} (amid : Amid v s store)
    (plain : NoReturns v.disk)
    (writable : ∀ id ∈ ids, ∃ bytes, appendBytes (newDelete id env.ts : Entry N) = .ok bytes) :
    ∀ id ∈ ids, ∀ loc, ((reapAll env ids).run v).2.col.index.lookup id = some loc →
      expired loc.expiresAt env.now = false := by
  induction ids generalizing v s store with
  | nil =>
    intro id absurd
    cases absurd
  | cons first ids ih =>
    have rest := fun id member => writable id (.tail _ member)
    rw [reapAll, Proc.run_bind_ok (Proc.run_read _ v)]
    dsimp only
    split_ifs with past
    · obtain ⟨loc₀, found, past⟩ := (Option.any_eq_true _ _).mp past
      obtain ⟨bytes, accepted⟩ := writable first (.head _)
      have run := run_deleteEntry amid.calm (newDelete first env.ts : Entry N)
      rw [accepted] at run
      have shed : Shed env.now v (afterDelete v (newDelete first env.ts) bytes) := by
        have after := (shed_refl amid plain).deleteExpired env.ts found past
        rwa [run] at after
      obtain ⟨gone, twin⟩ := shed
      obtain ⟨t, store', amid'⟩ := twin.right
      rw [Proc.run_bind_ok run]
      intro id member loc left
      rcases List.mem_cons.mp member with rfl | later
      · obtain ⟨loc', known, -⟩ := Shed.lookup (preserves_reapAll env ids _
          (shed_refl amid' twin.plain.2)) left
        have erased : (afterDelete v (newDelete id env.ts : Entry N) bytes).col.index.lookup id =
            none := Finmap.lookup_erase _ _
        rw [erased] at known
        cases known
      · exact ih amid' twin.plain.2 rest id later loc left
    · intro id member loc left
      rcases List.mem_cons.mp member with rfl | later
      · obtain ⟨loc', known, expiry⟩ := Shed.lookup (preserves_reapAll env ids _
          (shed_refl amid plain)) left
        rw [known, Option.any_some, Bool.not_eq_true] at past
        rw [expiry]
        exact past
      · exact ih amid plain rest id later loc left

omit [JsonNumber N] in
theorem kept_bind {β : Type} {next : α → Proc N β} {kept : World N → Prop}
    (start : kept (p.run w).2) (later : ∀ value, Preserves (next value) kept) :
    kept ((p >>= next).run w).2 := by
  rw [Proc.run_bind]
  rcases ran : p.run w with ⟨outcome, after⟩
  rw [ran] at start
  cases outcome with
  | error e => exact start
  | ok value => exact later value after start

/-- If tombstones can be written, the reaper leaves no record that is past its
deadline. -/
theorem reapExpired_clears (env : Env) (amid : Amid w s store) (plain : NoReturns w.disk)
    (writable : ∀ id loc, w.col.index.lookup id = some loc →
      expired loc.expiresAt env.now = true →
        ∃ bytes, appendBytes (newDelete id env.ts : Entry N) = .ok bytes) {id : Nat}
    (known : w.col.index.lookup id = some loc) (past : expired loc.expiresAt env.now = true) :
    ((reapExpired env).run w).2.col.index.lookup id = none := by
  have whole := preserves_reapExpired env w (shed_refl amid plain)
  rcases left : ((reapExpired env).run w).2.col.index.lookup id with - | loc'
  · rfl
  · exfalso
    obtain ⟨loc₀, known₀, expiry⟩ := whole.lookup left
    rw [known, Option.some.injEq] at known₀
    subst known₀
    have listed (other : Nat) : other ∈ (env.iteration.keys w.col.index.keys).filter (fun id =>
        (w.col.index.lookup id).any fun loc => expired loc.expiresAt env.now) ↔
          ∃ loc, w.col.index.lookup other = some loc ∧ expired loc.expiresAt env.now = true := by
      rw [List.mem_filter, env.iteration.mem, Finmap.mem_keys, ← Finmap.lookup_isSome,
        Option.any_eq_true]
      constructor
      · exact And.right
      · rintro ⟨loc, found, passed⟩
        exact ⟨by rw [found]; rfl, loc, found, passed⟩
    rw [reapExpired, Proc.run_bind_ok (Proc.run_read _ w)] at left
    dsimp only at left
    generalize candidates : (env.iteration.keys w.col.index.keys).filter (fun id =>
      (w.col.index.lookup id).any fun loc => expired loc.expiresAt env.now) = ids at left listed
    have member := (listed id).mpr ⟨loc, known, past⟩
    rw [if_neg (List.ne_nil_of_mem member)] at left
    have reaped := preserves_reapAll env ids w (shed_refl amid plain)
    obtain ⟨gone, twin⟩ := reaped
    obtain ⟨t, store', amid'⟩ := twin.right
    have tail : Shed env.now ((reapAll env ids).run w).2
        ((do
          let full ← (reapLocked env ids).locked
          rotateIf full : Proc N Unit).run w).2 :=
      kept_bind (p := (reapLocked env ids).locked) (kept_bind (p := reapAll env ids)
        (shed_refl amid' twin.plain.2) fun _ => (preserves_syncActive env.now).bind fun _ =>
          preserves_read _) (preserves_rotateIf env.now)
    obtain ⟨loc₁, known₁, expiry₁⟩ := tail.lookup left
    have fresh := reapAll_clears env amid plain
      (fun other inside => by
        obtain ⟨loc, found, passed⟩ := (listed other).mp inside
        exact writable other loc found passed) id member loc₁ known₁
    rw [← expiry₁, expiry, past] at fresh
    cases fresh

/-- A reaper that finds nothing past its deadline does nothing. -/
theorem reapExpired_idle (env : Env)
    (none : ∀ id loc, w.col.index.lookup id = some loc →
      expired loc.expiresAt env.now = false) :
    ((reapExpired env).run w).2 = w := by
  have empty : (env.iteration.keys w.col.index.keys).filter (fun id =>
      (w.col.index.lookup id).any fun loc => expired loc.expiresAt env.now) = [] := by
    rw [List.filter_eq_nil_iff]
    intro id _ past
    obtain ⟨loc, found, passed⟩ := (Option.any_eq_true _ _).mp past
    rw [none id loc found] at passed
    cases passed
  rw [reapExpired, Proc.run_bind_ok (Proc.run_read _ w)]
  dsimp only
  rw [if_pos empty]
  rfl

end Reaper

/-! ## Where the reaper is not seen -/

section Seen

variable [NumberOrder N]

/-- No operation is made before a time. -/
def Later (now : Int) (ops : List (Env × Operation N)) : Prop :=
  ∀ made ∈ ops, now ≤ made.1.now

theorem agree_refl (regexp : Query.Regexp) (view : World N → String → OrderedView N) (w : World N)
    (ops : List (Env × Operation N)) : Agree regexp view w w ops := by
  induction ops generalizing w with
  | nil => trivial
  | cons made rest ih => exact ⟨.refl _, ih _⟩

/-- Every run of a new collection leads to a state of the kind that is spoken of
here.  In such a state all later operations are blind to the reaper exactly if
it finds nothing to remove, as long as it can write its tombstones: a delete
tells the difference otherwise.  And whatever it removes, runs of operations
that ask no index about the removed records are blind to it. -/
theorem reaper_unseen_iff (regexp : Query.Regexp) (view : World N → String → OrderedView N) :
    (∀ (cfg : Config) (enc : Option (Encryptor N)) (order : RenameOrder)
      (moves : List (Keys.Move N)), (∀ policy ∈ enc, Lawful policy) →
      Counts.FitRun (fresh cfg enc order) moves →
        ∃ s store, Amid (Counts.reached (fresh cfg enc order) moves) s store ∧
          NoReturns (Counts.reached (fresh cfg enc order) moves).disk) ∧
    ∀ (w : World N) (s : Segments N) (store : Store N), Amid w s store → NoReturns w.disk →
      ∀ env : Env,
        ((∀ id loc, w.col.index.lookup id = some loc → expired loc.expiresAt env.now = true →
            ∃ bytes, appendBytes (newDelete id env.ts : Entry N) = .ok bytes) →
          ((∀ ops, Later env.now ops →
              Agree regexp view w ((reapExpired env).run w).2 ops) ↔
            ∀ id loc, w.col.index.lookup id = some loc →
              expired loc.expiresAt env.now = false)) ∧
        ∀ ops, BlindRun regexp view (removed w ((reapExpired env).run w).2) env.now w
            ((reapExpired env).run w).2 ops →
          Agree regexp view w ((reapExpired env).run w).2 ops := by
  constructor
  · intro cfg enc order moves lawful fit
    obtain ⟨s, store, amid, plain⟩ := Counts.amid_reached
      (Sequential.amid_fresh cfg order lawful).1 (Counts.noReturns_fresh cfg order lawful) fit
    exact ⟨s, store, amid, plain⟩
  · intro w s store amid plain env
    constructor
    · intro writable
      constructor
      · intro unseen id loc known
        rw [Bool.eq_false_iff]
        intro past
        obtain ⟨same, -⟩ := unseen [(env, .delete id)] (by
          intro made member
          rw [List.mem_singleton.mp member])
        obtain ⟨bytes, accepted⟩ := writable id loc known past
        have cleared := reapExpired_clears env amid plain writable known past
        obtain ⟨gone, twin⟩ := preserves_reapExpired env w (shed_refl amid plain)
        have removes : deletePlan env w.col id = .ok (newDelete id env.ts) := by
          rw [deletePlan, known]
          dsimp only
          rw [lineOf, accepted]
          rfl
        have misses : deletePlan env ((reapExpired env).run w).2.col id =
            .error (.notFound id) := by
          rw [deletePlan, cleared]
        have left := (delete_replies ⟨s, store, amid⟩ env id).1
        have right := (delete_replies twin.right env id).1
        rw [removes] at left
        rw [misses] at right
        change Same (.reply (((Call.delete id : Call N).proc env).run w).1)
          (.reply (((Call.delete id : Call N).proc env).run ((reapExpired env).run w).2).1) at same
        rw [left, right] at same
        cases same
      · intro none ops _
        rw [reapExpired_idle env none]
        exact agree_refl regexp view w ops
    · intro ops blind
      obtain ⟨gone, twin⟩ := preserves_reapExpired env w (shed_refl amid plain)
      rw [twin.removed_eq] at blind
      exact agree_of_twin regexp view twin blind

omit [JsonNumber N] [NumberOrder N] in
theorem checkQuota_unlimited {c : Collection N} (records : c.cfg.maxRecords = 0)
    (bytes : c.cfg.maxBytes = 0) (newRecords newBytes : Nat) :
    checkQuota c newRecords newBytes = .ok () := by
  rw [checkQuota, records, bytes]
  rfl

/-- A time past the deadline of the record. -/
def lateEnv : Env := { stillEnv with now := 5 }

/-- One record, until the time 5. -/
def unreaped : World Int :=
  Counts.reached (fresh smallConfig none .asWritten) Counts.shortLived

theorem reaper_unseen_small :
    Agree (fun _ => none) (fun _ _ => ⟨.empty, []⟩) unreaped ((reapExpired lateEnv).run unreaped).2
      [(lateEnv, .get 1), (lateEnv, .existsKey "k"),
        (lateEnv, .insert (some (oneField "n" 6)) none), (lateEnv, .delete 2)] := by
  obtain ⟨s, store, amid, plain⟩ := (reaper_unseen_iff (N := Int) (fun _ => none)
    fun _ _ => ⟨.empty, []⟩).1 smallConfig none .asWritten Counts.shortLived
    nofun ⟨by rintro env request ⟨⟩; exact .inl (by decide), trivial⟩
  refine ((reaper_unseen_iff (fun _ => none) fun _ _ => ⟨.empty, []⟩).2 unreaped s store amid plain
    lateEnv).2 _ ?_
  have unindexed : unreaped.col.sidx.isEmpty = true := by decide +kernel
  have limits : (unreaped.col.cfg.maxRecords = 0 ∧ unreaped.col.cfg.maxBytes = 0) ∧
      ((reapExpired lateEnv).run unreaped).2.col.cfg.maxRecords = 0 ∧
        ((reapExpired lateEnv).run unreaped).2.col.cfg.maxBytes = 0 := by decide +kernel
  have later : 2 ∉ removed unreaped ((reapExpired lateEnv).run unreaped).2 := by decide +kernel
  have blind : InsertBlind (removed unreaped ((reapExpired lateEnv).run unreaped).2) lateEnv
      unreaped ((reapExpired lateEnv).run unreaped).2 (some (oneField "n" 6))
      (resolveInsertExpiry unreaped.col.cfg lateEnv.now none) := by
    constructor
    · intro i inside
      rw [List.isEmpty_iff.mp unindexed] at inside
      cases inside
    · intro e _
      rw [checkQuota_unlimited limits.1.1 limits.1.2, checkQuota_unlimited limits.2.1 limits.2.2]
  exact ⟨by decide, trivial, by decide, fun _ => by decide +kernel, by decide,
    ⟨.inl (by decide), blind⟩, by decide, later, trivial⟩

/-- A collection of at most one record, each under its key until five
nanoseconds after it was written. -/
def tightConfig : Config :=
  { smallConfig with maxRecords := 1, defaultTTL := 5 }

/-- A record under a key, past its deadline at the time 5. -/
def lapsed : World Int :=
  (((Call.upsert "k" (some (oneField "n" 5))).proc stillEnv).run
    (fresh tightConfig none .asWritten)).2

/-- Without the reaper a record past its deadline is there for a test of its key,
keeps the quota full, and can be deleted. -/
theorem reaper_seen :
    existsKey lapsed.col "k" = true ∧
      existsKey ((reapExpired lateEnv).run lapsed).2.col "k" = false ∧
      (((Call.insert (some (oneField "n" 6)) none).proc lateEnv).run lapsed).1 =
        .error .resourceExhausted ∧
      (((Call.insert (some (oneField "n" 6)) none).proc lateEnv).run
        ((reapExpired lateEnv).run lapsed).2).1 = .ok (.id 2) ∧
      (((Call.delete 1).proc lateEnv).run lapsed).1 = .ok .done ∧
      (((Call.delete 1).proc lateEnv).run ((reapExpired lateEnv).run lapsed).2).1 =
        .error (.notFound 1) := by
  decide +kernel

end Seen

end Scriva.Engine.Reaping
