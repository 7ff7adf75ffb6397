import Scriva.Engine.Refinement

/-!
# Batches refine the abstract store

A batch is applied one write at a time under the lock.  As long as every write
can be appended, the store sees the whole batch; a record that is too large for
a line ends it, and the writes in front of that record stay.

The writes of a batch are in order when no insert is under an id that an
earlier write of the batch has touched.
-/

namespace Scriva.Engine.Batches

open Lib.Fallible Store.Record Store.Ndjson PrimaryIndex SecondaryIndex Directory Engine.Collection
open Journal Coherence Writing Calls Plans Machine Refinement

variable {N : Type} [JsonNumber N]

/-! ## Applying writes in order -/

/-- Writes that can be applied one after another. -/
structure Ready (w : World N) (ops : List (TxOp N)) : Prop where
  reserved : ∀ op ∈ ops, op.id ≤ w.col.idSeq
  fresh : ∀ op ∈ ops, op.kind = .insert → w.col.index.lookup op.id = none
  apart : ops.Pairwise fun earlier later => later.kind = .insert → earlier.id ≠ later.id

/-- A collection in the middle of a batch. -/
structure Amid (w : World N) (s : Segments N) (store : Store N) : Prop where
  coherent : Coherent w s
  calm : w.fault = none
  governed : Governed w.col
  describes : Describes w s store

/-- A procedure applies writes, all of them or those in front of one that is
too large for a line. -/
def Progress {α : Type} (p : Proc N α) (w : World N) (s : Segments N) (store : Store N)
    (deadline : Int) (ops : List (TxOp N)) : Prop :=
  (∃ value es, Writes p w (.ok value) es ∧
      Stocked w.col.enc (applyEntries (records s.entries) es)
        (store.stock.applyAll deadline ops)) ∨
    ∃ reason applied es, Writes p w (.error (.append reason)) es ∧
      Stocked w.col.enc (applyEntries (records s.entries) es)
        (store.stock.applyAll deadline (ops.take applied))

/-- One write of a batch: its line, or nothing. -/
def Applies {α : Type} (p : Proc N α) (w : World N) (s : Segments N) (store : Store N)
    (deadline : Int) (op : TxOp N) : Prop :=
  (∃ value e, e.id = op.id ∧ Writes p w (.ok value) [e] ∧
      Stocked w.col.enc (applyEntry (records s.entries) e)
        (store.stock.apply deadline op)) ∨
    ∃ reason, Writes p w (.error (.append reason)) []

variable {op : TxOp N} {ops : List (TxOp N)}

section Progress

variable {α β : Type} {w : World N} {s : Segments N} {store : Store N} {deadline : Int}

theorem progress_nil (amid : Amid w s store) (value : α) :
    Progress (pure value : Proc N α) w s store deadline [] :=
  .inl ⟨value, [], writes_pure _ w, amid.describes.stocked⟩

variable {p : Proc N α} {value : α} {e : Entry N}

/-- The state after one write of a batch. -/
theorem Amid.next {stock : Stock N} (amid : Amid w s store) (wrote : Writes p w (.ok value) [e])
    (stocked : Stocked w.col.enc (applyEntry (records s.entries) e) stock) :
    ∃ s', s'.entries = s.entries ++ [e] ∧
      Amid (p.run w).2 s' { store with stock } := by
  obtain ⟨s', coherent, entries⟩ := amid.coherent.steps wrote.2.steps
  refine ⟨s', entries, coherent, wrote.2.steps.frame.calm amid.calm,
    amid.governed.steps wrote.2.steps, ?_, ?_⟩
  · rw [wrote.2.steps.frame.enc, entries, records_snoc]
    exact stocked
  · rw [wrote.2.flags]
    exact amid.describes.indexes

theorem Ready.next {s' : Segments N} (ready : Ready w (op :: ops)) (coherent : Coherent w s)
    (after : Coherent (p.run w).2 s') (entries : s'.entries = s.entries ++ [e])
    (here : e.id = op.id) (wrote : Writes p w (.ok value) [e]) : Ready (p.run w).2 ops := by
  obtain ⟨apart, rest⟩ := List.pairwise_cons.mp ready.apart
  refine ⟨?_, ?_, rest⟩
  · intro other member
    exact (ready.reserved other (.tail _ member)).trans
      wrote.2.steps.frame.counter
  · intro other member inserts
    have untouched : other.id ≠ e.id := by
      rw [here]
      exact (apart other member inserts).symm
    rw [after.lookup_index_eq_none, entries, records_snoc, applyEntry_of_ne _ untouched,
      ← coherent.lookup_index_eq_none]
    exact ready.fresh other (.tail _ member) inserts

theorem Progress.cons {q : α → Proc N β} (amid : Amid w s store) (ready : Ready w (op :: ops))
    (first : Applies p w s store deadline op)
    (rest : ∀ value w' s', Amid w' s' { store with stock := store.stock.apply deadline op } →
      w'.col.cfg = w.col.cfg → w'.col.enc = w.col.enc → Ready w' ops →
      Progress (q value) w' s' { store with stock := store.stock.apply deadline op } deadline ops) :
    Progress (p >>= q) w s store deadline (op :: ops) := by
  rcases first with ⟨value, e, here, wrote, stocked⟩ | ⟨reason, large⟩
  · obtain ⟨s', entries, amid'⟩ := amid.next wrote stocked
    have frame := wrote.2.steps.frame
    have ready' := ready.next amid.coherent amid'.coherent entries here wrote
    have shape (es : List (Entry N)) : applyEntries (records s'.entries) es =
        applyEntries (records s.entries) ([e] ++ es) := by
      rw [entries, records_append, ← applyEntries_append]
    rcases rest value _ s' amid' frame.cfg frame.enc ready' with
      ⟨final, es, later, after⟩ | ⟨reason, applied, es, later, after⟩
    · rw [frame.enc, shape] at after
      exact .inl ⟨final, [e] ++ es, Calls.Writes.bind wrote later, after⟩
    · rw [frame.enc, shape] at after
      exact .inr ⟨reason, applied + 1, [e] ++ es, Calls.Writes.bind wrote later, after⟩
  · exact .inr ⟨reason, 0, [], large.bind_error, amid.describes.stocked⟩

theorem Progress.map (progress : Progress p w s store deadline ops) (f : α → β) :
    Progress (do
      let value ← p
      return f value) w s store deadline ops := by
  rcases progress with ⟨value, es, wrote, stocked⟩ | ⟨reason, applied, es, cut, stocked⟩
  · have ended : Writes (do
        let value ← p
        return f value) w (.ok (f value)) (es ++ []) :=
      Calls.Writes.bind wrote (writes_pure _ _)
    rw [List.append_nil] at ended
    exact .inl ⟨f value, es, ended, stocked⟩
  · exact .inr ⟨reason, applied, es, cut.bind_error, stocked⟩

theorem putNew_applies (amid : Amid w s store) (inserts : op.kind = .insert)
    (reserved : op.id ≤ w.col.idSeq) (fresh : w.col.index.lookup op.id = none)
    (puts : Puts w.col.enc .insert op.id op.data 1 deadline e) :
    Applies (putEntry e op.data .index) w s store deadline op := by
  rcases (putEntry_executes amid.calm
      (puts.writable_new amid.governed rfl reserved fresh)).line with wrote | large
  · refine .inl ⟨(), e, puts.id, wrote, ?_⟩
    rw [Stock.apply, inserts]
    exact amid.describes.stocked.put puts rfl
  · exact .inr large

theorem putNext_applies (amid : Amid w s store) (updates : op.kind = .update)
    (reserved : op.id ≤ w.col.idSeq)
    (puts : Puts w.col.enc .update op.id op.data
      (((w.col.index.lookup op.id).map IndexEntry.rev).getD 0 + 1)
      (((w.col.index.lookup op.id).map IndexEntry.expiresAt).getD 0) e) :
    Applies (putEntry e op.data .move) w s store deadline op := by
  rcases (putEntry_executes amid.calm
      (Puts.writable_next puts amid.governed rfl reserved)).line with wrote | large
  · refine .inl ⟨(), e, puts.id, wrote, ?_⟩
    -- the index and the store know the same revision and deadline
    have known : ((w.col.index.lookup op.id).map IndexEntry.rev).getD 0 =
          ((store.stock op.id).map Held.rev).getD 0 ∧
        ((w.col.index.lookup op.id).map IndexEntry.expiresAt).getD 0 =
          ((store.stock op.id).map Held.deadline).getD 0 := by
      rcases found : w.col.index.lookup op.id with - | loc
      · rw [absent_of_index amid.coherent amid.describes found]
        exact ⟨rfl, rfl⟩
      · obtain ⟨held, there, rev, expiry⟩ :=
          held_of_index amid.coherent amid.describes found
        rw [there]
        exact ⟨rev, expiry⟩
    rw [Stock.apply, updates, ← known.1, ← known.2]
    exact amid.describes.stocked.put puts rfl
  · exact .inr large

theorem delete_applies (amid : Amid w s store) (deletes : op.kind = .delete)
    (reserved : op.id ≤ w.col.idSeq) :
    Applies (deleteEntry (newDelete op.id op.ts)) w s store deadline op := by
  rcases (deleteEntry_executes amid.calm rfl (storable_newDelete op.id op.ts) reserved).line with
    wrote | large
  · refine .inl ⟨(), _, rfl, wrote, ?_⟩
    rw [Stock.apply, deletes]
    exact amid.describes.stocked.drop rfl rfl
  · exact .inr large

end Progress

/-! ## The checks of a batch -/

/-- The world with other ids taken. -/
def counted (w : World N) (idSeq : Nat) : World N :=
  { w with col := { w.col with idSeq } }

/-- The entries of new records under the ids after `last`. -/
def sealInserts (enc : Option (Encryptor N)) (env : Env) (expiresAt : Int) :
    List (Option (Data N)) → Nat → Nat → Except Error (List (Entry N × Option (Data N)))
  | [], _, _ => .ok []
  | data :: records, last, position =>
    match sealEntryData enc (env.seed + position)
        { newInsert (last + 1) data env.ts with rev := 1, expiresAt } with
    | .error e => .error e
    | .ok e =>
      (sealInserts enc env expiresAt records (last + 1) (position + 1)).map ((e, data) :: ·)

section

omit [JsonNumber N]

theorem run_check_bind {α β : Type} (outcome : Except Error α) (next : α → Proc N β)
    (w : World N) :
    (Proc.check outcome >>= next).run w =
      match outcome with
      | .ok value => (next value).run w
      | .error e => (.error e, w) := by
  cases outcome with
  | ok value => rfl
  | error e => rfl

theorem run_readEnc (w : World N) : (readEnc : Proc N _).run w = (.ok w.col.enc, w) := rfl

/-- One id is taken for every record, up to one that cannot be sealed. -/
theorem run_buildEntries (env : Env) (expiresAt : Int) (records : List (Option (Data N)))
    (position : Nat) (w : World N) :
    ∃ idSeq, (buildEntries env expiresAt records position).run w =
        (sealInserts w.col.enc env expiresAt records w.col.idSeq position, counted w idSeq) ∧
      w.col.idSeq ≤ idSeq ∧
      (∀ built, sealInserts w.col.enc env expiresAt records w.col.idSeq position = .ok built →
        idSeq = w.col.idSeq + records.length) ∧
      (records ≠ [] → w.col.idSeq < idSeq) := by
  induction records generalizing w position with
  | nil => exact ⟨w.col.idSeq, rfl, le_rfl, fun _ _ => rfl, absurd rfl⟩
  | cons data records ih =>
    have enc : (afterReserve w).col.enc = w.col.enc := rfl
    rw [buildEntries, Proc.run_bind_ok (run_reserveID w),
      Proc.run_bind_ok (run_readEnc (afterReserve w)), run_check_bind, sealInserts, enc]
    rcases sealEntryData w.col.enc (env.seed + position) _ with e | e
    · exact ⟨w.col.idSeq + 1, rfl, Nat.le_succ _, nofun, fun _ => Nat.lt_succ_self _⟩
    · obtain ⟨idSeq, later, above, taken, -⟩ := ih (position + 1) (afterReserve w)
      have rest : (buildEntries env expiresAt records (position + 1)).run (afterReserve w) =
          (sealInserts w.col.enc env expiresAt records (w.col.idSeq + 1) (position + 1),
            counted w idSeq) := later
      have total : ∀ built, sealInserts w.col.enc env expiresAt records (w.col.idSeq + 1)
          (position + 1) = .ok built → idSeq = w.col.idSeq + 1 + records.length := taken
      refine ⟨idSeq, ?_, (Nat.le_succ _).trans above, ?_, fun _ => above⟩
      · simp only [Proc.run_bind, rest]
        rcases sealInserts w.col.enc env expiresAt records (w.col.idSeq + 1) (position + 1)
          with e' | built
        · rfl
        · rfl
      · intro built sealed
        rcases shape : sealInserts w.col.enc env expiresAt records (w.col.idSeq + 1)
          (position + 1) with e' | rest
        · rw [shape] at sealed
          cases sealed
        · rw [total rest shape, List.length_cons]
          omega

end

/-- Everything that is checked before the first record of a batch is stored. -/
def insertChecks (env : Env) (c : Collection N) (records : List (Option (Data N)))
    (expiresAt : Option Int) : Except Error (List (Entry N × Option (Data N))) := do
  records.forM checkReserved
  let built ← sealInserts c.enc env (resolveInsertExpiry c.cfg env.now expiresAt) records
    c.idSeq 0
  checkQuota c built.length ((built.map fun entry => entryQuotaBytes c.cfg entry.1).sum)
  txCheckUnique c (built.map fun entry => ⟨.insert, entry.1.id, entry.2, env.ts⟩)
  return built

/-- The lines of a batch of new records, and what comes after them under the
lock. -/
def storeAll (built : List (Entry N × Option (Data N))) : Proc N Bool := do
  putAll built
  syncActive
  publishCommit (built.map Prod.fst)
  isFull

/-- The batch once it has passed the checks. -/
def insertManyChecked (built : List (Entry N × Option (Data N))) : Proc N (List Nat) := do
  let full ← (storeAll built).locked
  rotateIf full
  return built.map fun entry => entry.1.id

theorem run_insertManyLocked (ts : Utc) (built : List (Entry N × Option (Data N)))
    (w : World N) :
    (insertManyLocked ts built).run w =
      match checkQuota w.col built.length
          ((built.map fun entry => entryQuotaBytes w.col.cfg entry.1).sum) with
      | .error e => (.error e, w)
      | .ok _ =>
        match txCheckUnique w.col
            (built.map fun entry => ⟨.insert, entry.1.id, entry.2, ts⟩) with
        | .error e => (.error e, w)
        | .ok _ => (storeAll built).run w := by
  rw [insertManyLocked, Proc.run_bind_ok (Proc.run_read _ w), run_check_bind]
  rcases checkQuota w.col built.length _ with e | -
  · rfl
  · simp only [run_check_bind]
    rcases txCheckUnique w.col _ with e | -
    · rfl
    · rfl

theorem run_insertMany {records : List (Option (Data N))} (env : Env) (some? : records ≠ [])
    (expiresAt : Option Int) (w : World N) :
    ∃ idSeq, (insertMany env records expiresAt).run w =
        (match insertChecks env w.col records expiresAt with
        | .error e => (.error e, counted w idSeq)
        | .ok built => (insertManyChecked built).run (counted w idSeq)) ∧
      w.col.idSeq ≤ idSeq ∧
      (∀ built, insertChecks env w.col records expiresAt = .ok built →
        idSeq = w.col.idSeq + records.length) ∧
      (records.forM checkReserved = .ok () → w.col.idSeq < idSeq) := by
  obtain ⟨idSeq, entries, above, total, more⟩ := run_buildEntries env
    (resolveInsertExpiry w.col.cfg env.now expiresAt) records 0 w
  rw [insertMany, if_neg some?, run_check_bind, insertChecks]
  rcases records.forM checkReserved with e | -
  · exact ⟨w.col.idSeq, rfl, le_rfl, nofun, nofun⟩
  refine ⟨idSeq, ?_, above, fun built checked => ?_, fun _ => more some?⟩
  swap
  · obtain ⟨_, -, checked⟩ := ok_of_bind checked
    obtain ⟨sealed, same, -⟩ := ok_of_bind checked
    exact total sealed same
  simp only [Proc.run_bind_ok (Proc.run_read _ w)]
  rw [Proc.run_bind, entries]
  rcases sealInserts w.col.enc env (resolveInsertExpiry w.col.cfg env.now expiresAt) records
    w.col.idSeq 0 with e | built
  · rfl
  have locked := run_insertManyLocked env.ts built (counted w idSeq)
  have cfg : (counted w idSeq).col.cfg = w.col.cfg := rfl
  have quota : checkQuota (counted w idSeq).col = checkQuota w.col := rfl
  have unique : txCheckUnique (counted w idSeq).col = txCheckUnique w.col := rfl
  rw [cfg, quota, unique] at locked
  simp only [Proc.run_bind, Proc.run_locked, locked, insertManyChecked]
  change _ = match (do
    checkQuota w.col built.length _
    txCheckUnique w.col _
    return built : Except Error _) with | .error e => _ | .ok built => _
  rcases checkQuota w.col built.length _ with e | -
  · rfl
  rcases txCheckUnique w.col _ with e | -
  · rfl
  · rfl

/-- Everything that is checked before the first write of a batch is applied. -/
def commitChecks (env : Env) (c : Collection N) (ops : List (TxOp N)) :
    Except Error (List (TxOp N × Option (Data N))) := do
  txTargetsExist c ops
  txCheckUnique c ops
  txCheckQuota env c ops
  txSeal c.enc env.seed ops

/-- The lines of a transaction, and what comes after them under the lock. -/
def applyStaged (env : Env) (staged : List (TxOp N × Option (Data N))) : Proc N Bool := do
  let committed ← txApplyAll env staged
  syncActive
  publishCommit committed
  isFull

/-- The transaction once it has passed the checks. -/
def commitTxChecked (env : Env) (ops : List (TxOp N))
    (staged : List (TxOp N × Option (Data N))) : Proc N Unit := do
  let full ← (applyStaged env staged).locked
  rotateIf full
  if (txInserts ops).any fun op => op.id > 0 then persistMeta.attempt

theorem run_commitTx (env : Env) {ops : List (TxOp N)} (some? : ops ≠ []) (w : World N) :
    (commitTx env ops).run w =
      match commitChecks env w.col ops with
      | .error e => (.error e, w)
      | .ok staged => (commitTxChecked env ops staged).run w := by
  have locked : (commitTxLocked env ops).run w =
      match commitChecks env w.col ops with
      | .error e => (.error e, w)
      | .ok staged => (applyStaged env staged).run w := by
    rw [commitTxLocked, Proc.run_bind_ok (Proc.run_read _ w), run_check_bind, commitChecks]
    rcases txTargetsExist w.col ops with e | -
    · rfl
    simp only [run_check_bind]
    rcases txCheckUnique w.col ops with e | -
    · rfl
    rcases txCheckQuota env w.col ops with e | -
    · rfl
    rcases txSeal w.col.enc env.seed ops with e | staged
    · rfl
    · rfl
  rw [commitTx, if_neg some?, Proc.run_bind, Proc.run_locked, locked]
  rcases commitChecks env w.col ops with e | staged
  · rfl
  · exact (Proc.run_bind (applyStaged env staged).locked _ w).symm

/-! ## Inserting many records -/

section InsertMany

variable {w : World N} {s : Segments N} {store : Store N} {deadline : Int}

/-- The new records of a batch as writes of it. -/
def builtOps (ts : Utc) (built : List (Entry N × Option (Data N))) : List (TxOp N) :=
  built.map fun entry => ⟨.insert, entry.1.id, entry.2, ts⟩

omit [JsonNumber N] in
theorem builtOps_eq_insertOps (ts : Utc) (built : List (Entry N × Option (Data N))) :
    insertOps ts (built.map fun entry => entry.1.id) (built.map Prod.snd) =
      builtOps ts built := by
  induction built with
  | nil => rfl
  | cons entry built ih =>
    simp only [List.map_cons, insertOps, List.zipWith_cons_cons, builtOps] at ih ⊢
    rw [ih]

variable {built : List (Entry N × Option (Data N))} {records : List (Option (Data N))}

theorem putAll_progress (ts : Utc) (amid : Amid w s store) (ready : Ready w (builtOps ts built))
    (puts : ∀ entry ∈ built, Puts w.col.enc .insert entry.1.id entry.2 1 deadline entry.1) :
    Progress (putAll built) w s store deadline (builtOps ts built) := by
  induction built generalizing w s store with
  | nil => exact progress_nil amid _
  | cons entry built ih =>
    have here := puts entry (.head _)
    have first : Applies (putEntry entry.1 entry.2 .index) w s store deadline
        ⟨.insert, entry.1.id, entry.2, ts⟩ :=
      putNew_applies amid rfl (ready.reserved _ (.head _))
        (ready.fresh _ (.head _) rfl) here
    refine Progress.cons amid ready first ?_
    intro _ w' s' amid' _ enc ready'
    apply ih amid' ready'
    intro other member
    rw [enc]
    exact puts other (.tail _ member)

section

omit [JsonNumber N]

/-- The ids of a batch follow one another. -/
theorem planned_sealInserts {enc : Option (Encryptor N)} (env : Env) (deadline : Int)
    (lawful : ∀ policy ∈ enc, Lawful policy) (keep : ∀ data ∈ records, Keepable enc data)
    (last position : Nat) :
    Planned (Refusal enc) (fun built => built.map Prod.snd = records ∧
        (built.map fun entry => entry.1.id) = List.range' (last + 1) records.length ∧
        ∀ entry ∈ built, Puts enc .insert entry.1.id entry.2 1 deadline entry.1)
      (sealInserts enc env deadline records last position) := by
  induction records generalizing last position with
  | nil => exact ⟨rfl, rfl, nofun⟩
  | cons data records ih =>
    have first := planned_seal lawful (env.seed + position)
      (e := { newInsert (last + 1) data env.ts with rev := 1, expiresAt := deadline })
      (keep data (.head _)) env.ts.property
    have later := ih (fun data member => keep data (.tail _ member))
      (last + 1) (position + 1)
    rw [sealInserts]
    generalize sealEntryData enc _ _ = stored at first ⊢
    rcases stored with error | e
    · exact first
    generalize sealInserts enc env deadline records (last + 1) (position + 1) = rest at later ⊢
    rcases rest with error | built
    · exact later
    obtain ⟨names, ids, puts⟩ := later
    have here : e.id = last + 1 := first.id
    refine ⟨congrArg (data :: ·) names, ?_, List.forall_mem_cons.mpr
      ⟨{ first with id := rfl }, puts⟩⟩
    rw [List.map_cons, ids, List.length_cons, List.range'_succ, here]

theorem forM_checkReserved_cases (records : List (Option (Data N))) :
    records.forM checkReserved = .ok () ∨
      records.forM checkReserved = .error Error.reservedField := by
  induction records with
  | nil => exact .inl rfl
  | cons data records ih =>
    rcases checkReserved_cases data with free | reserved
    · rcases ih with passed | refused
      · exact .inl (by rw [List.forM, free]; exact passed)
      · exact .inr (by rw [List.forM, free]; exact refused)
    · exact .inr (by rw [List.forM, reserved]; rfl)

theorem planned_reserved {enc : Option (Encryptor N)} (records : List (Option (Data N))) :
    Planned (Refusal enc) (fun _ => True) (records.forM checkReserved) := by
  rcases forM_checkReserved_cases records with free | reserved
  · rw [free]
    exact trivial
  · rw [reserved]
    exact .reserved

end

/-- The keys of a batch are new, or one of them is a duplicate. -/
theorem planned_checkFrom {refused : Error → Prop}
    (duplicate : ∀ field key, refused (.duplicateKey field key)) (indexes : List Sidx)
    (ops : List (TxOp N)) (claimed : Claims) :
    Planned refused (fun _ => True) (txCheckFrom indexes ops claimed) := by
  have one (op : TxOp N) (claimed : Claims) (t : Sidx) :
      Planned refused (fun _ => True) (txCheckIndex op claimed t) := by
    unfold txCheckIndex
    split_ifs
    · split
      · exact trivial
      · split_ifs
        · exact duplicate _ _
        · split
          · split_ifs
            · exact duplicate _ _
            · exact trivial
          · exact trivial
    · exact trivial
  have all (op : TxOp N) (rest : List Sidx) (claimed : Claims) :
      Planned refused (fun _ => True) (rest.foldlM (txCheckIndex op) claimed) := by
    induction rest generalizing claimed with
    | nil => exact trivial
    | cons t rest ih =>
      rw [List.foldlM_cons]
      exact (one op claimed t).bind fun claimed' _ => ih claimed'
  induction ops generalizing claimed with
  | nil => exact trivial
  | cons op ops ih =>
    have here : Planned refused (fun _ => True) (txCheckOp indexes op claimed) := by
      unfold txCheckOp
      split
      · exact trivial
      · exact all op indexes claimed
      · exact all op indexes claimed
    rw [txCheckFrom]
    generalize txCheckOp indexes op claimed = checked at here
    rcases checked with error | claimed'
    · exact here
    · exact ih claimed'

theorem planned_batch {enc : Option (Encryptor N)} (c : Collection N) (ops : List (TxOp N)) :
    Planned (Refusal enc) (fun _ => txCheckUnique c ops = .ok ()) (txCheckUnique c ops) :=
  (planned_checkFrom .duplicate c.sidx ops []).known.imp fun _ checked => checked.2

theorem planned_insertChecks {c : Collection N} (env : Env)
    (lawful : ∀ policy ∈ c.enc, Lawful policy) (keep : ∀ data ∈ records, Keepable c.enc data)
    (expiresAt : Option Int) :
    Planned (Refusal c.enc) (fun built => (built.map Prod.snd = records ∧
        (built.map fun entry => entry.1.id) = List.range' (c.idSeq + 1) records.length ∧
        ∀ entry ∈ built, Puts c.enc .insert entry.1.id entry.2 1
          (resolveInsertExpiry c.cfg env.now expiresAt) entry.1) ∧
        txCheckUnique c (builtOps env.ts built) = .ok ())
      (insertChecks env c records expiresAt) :=
  .bind (planned_reserved records) fun _ _ =>
    .bind (planned_sealInserts env _ lawful keep c.idSeq 0) fun _ puts =>
      .bind (planned_quota _ _ _) fun _ _ => .bind (planned_batch _ _) fun _ unique =>
        ⟨puts, unique⟩

theorem wrote_counted {idSeq : Nat} (above : w.col.idSeq ≤ idSeq) :
    Wrote w [] (counted w idSeq) := by
  induction idSeq, above using Nat.le_induction with
  | base => exact .refl w
  | succ idSeq _ taken => exact taken.trans (wrote_reserve _)

/-- New ids are not those of earlier records, and each is used once. -/
theorem ready_of_reserved (ts : Utc) {w' : World N} {count : Nat} (coherent : Coherent w s)
    (col : w'.col = { w.col with idSeq := w.col.idSeq + count })
    (ids : (built.map fun entry => entry.1.id) = List.range' (w.col.idSeq + 1) count) :
    Ready w' (builtOps ts built) := by
  have range (op : TxOp N) (member : op ∈ builtOps ts built) :
      w.col.idSeq < op.id ∧ op.id ≤ w.col.idSeq + count := by
    obtain ⟨entry, inside, rfl⟩ := List.mem_map.mp member
    have listed : entry.1.id ∈ List.range' (w.col.idSeq + 1) count := by
      rw [← ids]
      exact List.mem_map_of_mem (f := fun entry : Entry N × Option (Data N) => entry.1.id)
        inside
    rw [List.mem_range'_1] at listed
    change w.col.idSeq < entry.1.id ∧ entry.1.id ≤ w.col.idSeq + count
    omega
  constructor
  · intro op member
    rw [col]
    exact (range op member).2
  · intro op member _
    rw [col]
    exact index_fresh coherent (range op member).1
  · have distinct : (built.map fun entry => entry.1.id).Nodup := by
      rw [ids]
      exact List.nodup_range'
    rw [List.Nodup, List.pairwise_map] at distinct
    rw [builtOps, List.pairwise_map]
    refine distinct.imp ?_
    intro earlier later differ _
    exact differ

theorem insertMany_refines {env : Env} (coherent : Coherent w s) (calm : w.fault = none)
    (governed : Governed w.col) (describes : Describes w s store)
    (keep : ∀ data ∈ records, Keepable w.col.enc data) (expiresAt : Option Int) :
    Refines env w s store (.insertMany records expiresAt) := by
  by_cases empty : records = []
  · subst empty
    have call : Writes (Collection.insertMany env ([] : List (Option (Data N))) expiresAt)
        w (.ok []) [] := writes_pure _ w
    refine refines_of_writes describes (Writes.reply call .ids) describes.stocked
      (.insertMany rfl List.nodup_nil ?_ ⟨?_, ?_⟩)
    · exact nofun
    · exact nofun
    · exact nofun
  obtain ⟨idSeq, ran, above, total, -⟩ := run_insertMany env empty expiresAt w
  have taken := wrote_counted above
  have planned := planned_insertChecks env governed.lawful keep expiresAt
  rcases checked : insertChecks env w.col records expiresAt with error | built
  · rw [checked] at ran planned
    exact refines_refused describes (writes_of_run ran taken).bind_error planned
  rw [checked] at ran planned
  obtain ⟨⟨data, ids, puts⟩, unique⟩ := planned
  have call {result : Except Error (List Nat)} {es : List (Entry N)}
      (later : Writes (insertManyChecked built) (counted w idSeq) result es) :
      Writes (Collection.insertMany env records expiresAt) w result es := by
    rw [Writes, ran]
    exact ⟨later.1, taken.trans later.2⟩
  -- from here on the ids are taken
  obtain ⟨s', coherent', entries⟩ := coherent.steps taken.steps
  rw [List.append_nil] at entries
  have describes' : Describes (counted w idSeq) s' store := by
    refine ⟨?_, describes.indexes⟩
    rw [entries]
    exact describes.stocked
  have amid : Amid (counted w idSeq) s' store :=
    ⟨coherent', calm, governed.congr rfl rfl, describes'⟩
  have col : (counted w idSeq).col = { w.col with idSeq := w.col.idSeq + records.length } := by
    rw [total built checked]
    rfl
  have ready := ready_of_reserved env.ts coherent col ids
  have ops : insertOps env.ts (built.map fun entry => entry.1.id) records =
      builtOps env.ts built := by
    rw [← data, builtOps_eq_insertOps]
  have admits : store.Admits (insertOps env.ts (built.map fun entry => entry.1.id) records) := by
    rw [ops]
    exact admits_of_check coherent governed describes unique
  have each : (built.map fun entry => entry.1.id).length = records.length := by
    rw [ids, List.length_range']
  have distinct : (built.map fun entry => entry.1.id).Nodup := by
    rw [ids]
    exact List.nodup_range'
  have absent : ∀ id ∈ built.map fun entry => entry.1.id, store.stock id = none := by
    intro id member
    rw [ids, List.mem_range'_1] at member
    exact absent_of_unreserved coherent describes (by omega)
  rcases putAll_progress env.ts amid ready puts with
    ⟨_, es, stored, stocked⟩ | ⟨reason, applied, es, cut, stocked⟩
  · rw [entries, ← ops] at stocked
    obtain ⟨full, ended⟩ := stored.finish amid.calm fun _ => built.map Prod.fst
    have whole := call (ended.rotate coherent' amid.calm rfl fun w _ => writes_pure _ w)
    exact refines_of_writes describes (Writes.reply whole .ids) stocked
      (.insertMany each distinct absent admits)
  · rw [entries, ← ops] at stocked
    have inside : Writes (storeAll built) (counted w idSeq) (.error (.append reason)) es :=
      cut.bind_error
    exact refines_of_writes describes (call (inside.refused _)).bind_error stocked
      (.insertManyCut applied each distinct absent admits)

end InsertMany

/-! ## Transactions -/

section Transactions

variable {env : Env} {w : World N} {s : Segments N} {store : Store N}

omit [JsonNumber N] in
theorem txTargetsExist_cases (c : Collection N) (ops : List (TxOp N)) :
    (txTargetsExist c ops = .ok () ∧
        ∀ op ∈ ops, op.kind ≠ .insert → (c.index.lookup op.id).isSome) ∨
      ∃ id, c.index.lookup id = none ∧
        txTargetsExist c ops = .error (.deletedBeforeCommit id) := by
  induction ops with
  | nil => exact .inl ⟨rfl, nofun⟩
  | cons op ops ih =>
    by_cases gone : op.kind ≠ .insert ∧ (c.index.lookup op.id).isNone
    · refine .inr ⟨op.id, Option.isNone_iff_eq_none.mp gone.2, ?_⟩
      rw [txTargetsExist, List.forM, if_pos gone]
      rfl
    · have first : txTargetsExist c (op :: ops) = txTargetsExist c ops := by
        rw [txTargetsExist, List.forM, if_neg gone]
        rfl
      rw [first]
      rcases ih with ⟨passed, rest⟩ | missing
      · refine .inl ⟨passed, ?_⟩
        intro other member target
        rcases List.mem_cons.mp member with rfl | later
        · by_contra missing
          exact gone ⟨target,
            Option.isNone_iff_eq_none.mpr (Option.not_isSome_iff_eq_none.mp missing)⟩
        · exact rest other later target
      · exact .inr missing

theorem planned_txQuota {enc : Option (Encryptor N)} (env : Env) (c : Collection N)
    (ops : List (TxOp N)) :
    Planned (Refusal enc) (fun _ => True) (txCheckQuota env c ops) := by
  unfold txCheckQuota
  split_ifs
  · exact planned_quota c _ _
  · exact trivial

/-- The data that is stored for one write of a batch. -/
def txStored (enc : Option (Encryptor N)) (seed : Nat) (op : TxOp N) :
    Except Error (Option (Data N)) :=
  if op.kind = .delete then .ok op.data
  else
    match enc with
    | none => .ok op.data
    | some policy => policy.encrypt seed op.data

variable {enc : Option (Encryptor N)} {seed : Nat}

section

omit [JsonNumber N]

theorem txSeal_cons : txSeal enc seed (op :: ops) = (do
    let data ← txStored enc seed op
    let rest ← txSeal enc (seed + 1) ops
    return (op, data) :: rest) := by
  have later (data : Option (Data N)) : (txSeal enc (seed + 1) ops).map ((op, data) :: ·) = (do
      let rest ← txSeal enc (seed + 1) ops
      return (op, data) :: rest) := by
    rcases txSeal enc (seed + 1) ops with error | rest
    · rfl
    · rfl
  rcases kind : op.kind with - | - | -
  case delete =>
    simp only [txSeal, txStored, kind, later]
    rfl
  all_goals
    rcases enc with - | policy
    · simp only [txSeal, txStored, kind, later]
      rfl
    · simp only [txSeal, txStored, kind, later]
      rcases policy.encrypt seed op.data with error | data
      · rfl
      · rfl

theorem planned_txStored (lawful : ∀ policy ∈ enc, Lawful policy)
    (keep : op.kind ≠ .delete → Keepable enc op.data) :
    Planned (Refusal enc) (fun data => op.kind ≠ .delete → Stored enc op.data data)
      (txStored enc seed op) := by
  unfold txStored
  split_ifs with kind
  · exact fun kept => absurd kind kept
  rcases enc with - | policy
  · exact fun _ => stored_plain (keep kind)
  change Planned _ _ (policy.encrypt seed op.data)
  rcases encrypted : policy.encrypt seed op.data with error | data
  · exact .encrypt rfl encrypted
  · exact fun _ => stored_encrypt (lawful policy rfl) (keep kind) encrypted

/-- Sealing a batch stores the data of its inserts and updates, or is refused. -/
theorem planned_txSeal (lawful : ∀ policy ∈ enc, Lawful policy)
    (keep : ∀ op ∈ ops, op.kind ≠ .delete → Keepable enc op.data) :
    Planned (Refusal enc) (fun staged => staged.map Prod.fst = ops ∧
        ∀ pair ∈ staged, pair.1.kind ≠ .delete → Stored enc pair.1.data pair.2)
      (txSeal enc seed ops) := by
  induction ops generalizing seed with
  | nil => exact ⟨rfl, nofun⟩
  | cons op ops ih =>
    rw [txSeal_cons]
    refine (planned_txStored lawful (keep op (.head _))).bind fun data stored => ?_
    refine (ih fun other member => keep other (.tail _ member)).bind ?_
    rintro rest ⟨names, each⟩
    exact ⟨congrArg (op :: ·) names, List.forall_mem_cons.mpr ⟨stored, each⟩⟩

end

theorem txApply_applies {stored : Option (Data N)} (amid : Amid w s store)
    (ready : Ready w (op :: ops)) (keeps : op.kind ≠ .delete → Stored w.col.enc op.data stored) :
    Applies (txApply env op stored) w s store (resolveInsertExpiry w.col.cfg env.now none)
      op := by
  have reserved := ready.reserved op (.head _)
  have shape {p : Proc N Unit} (body : txWrite op (txEntry env w.col op stored) = p)
      (applies : Applies p w s store (resolveInsertExpiry w.col.cfg env.now none) op) :
      Applies (txApply env op stored) w s store
        (resolveInsertExpiry w.col.cfg env.now none) op := by
    subst body
    rcases applies with ⟨_, e, here, wrote, after⟩ | ⟨reason, large⟩
    · have ended : Writes (do
          txWrite op (txEntry env w.col op stored)
          return txEntry env w.col op stored) w (.ok _) ([e] ++ []) :=
        Calls.Writes.bind wrote (writes_pure _ _)
      exact .inl ⟨_, e, here, writes_read ended, after⟩
    · exact .inr ⟨reason, writes_read large.bind_error⟩
  cases kind : op.kind with
  | insert =>
    rw [txWrite, txEntry, kind] at shape
    have put : op.kind ≠ .delete := by simp [kind]
    exact shape rfl (putNew_applies amid kind reserved
      (ready.fresh op (.head _) kind)
      ⟨rfl, rfl, rfl, rfl, op.ts.property, keeps put⟩)
  | update =>
    rw [txWrite, txEntry, kind] at shape
    have put : op.kind ≠ .delete := by simp [kind]
    exact shape rfl (putNext_applies amid kind reserved
      ⟨rfl, rfl, rfl, rfl, op.ts.property, keeps put⟩)
  | delete =>
    rw [txWrite, txEntry, kind] at shape
    exact shape rfl (delete_applies amid kind reserved)

variable (env) in
theorem txApplyAll_progress {staged : List (TxOp N × Option (Data N))}
    (amid : Amid w s store) (ready : Ready w (staged.map Prod.fst))
    (keeps : ∀ pair ∈ staged, pair.1.kind ≠ .delete →
      Stored w.col.enc pair.1.data pair.2) :
    Progress (txApplyAll env staged) w s store
      (resolveInsertExpiry w.col.cfg env.now none) (staged.map Prod.fst) := by
  induction staged generalizing w s store with
  | nil => exact progress_nil amid _
  | cons pair staged ih =>
    refine Progress.cons amid ready
      (txApply_applies amid ready (keeps pair (.head _))) ?_
    intro e w' s' amid' cfg enc ready'
    have rest := ih amid' ready' (by
      intro other member put
      rw [enc]
      exact keeps other (.tail _ member) put)
    rw [cfg] at rest
    exact rest.map (e :: ·)

/-- Inserts under new ids after targets that exist are in order. -/
theorem ready_of_admissible (coherent : Coherent w s)
    (inserts : ∀ op ∈ ops, op.kind = .insert →
      op.id ≤ w.col.idSeq ∧ w.col.index.lookup op.id = none)
    (distinct : ((txInserts ops).map TxOp.id).Nodup)
    (targets : ∀ op ∈ ops, op.kind ≠ .insert → (w.col.index.lookup op.id).isSome) :
    Ready w ops := by
  constructor
  · intro op member
    by_cases kind : op.kind = .insert
    · exact (inserts op member kind).1
    · obtain ⟨loc, found⟩ := Option.isSome_iff_exists.mp (targets op member kind)
      exact le_of_index coherent found
  · intro op member kind
    exact (inserts op member kind).2
  · rw [txInserts, List.Nodup, List.pairwise_map, List.pairwise_filter] at distinct
    refine distinct.imp_of_mem ?_
    intro earlier later first second differ kind same
    by_cases also : earlier.kind = .insert
    · exact differ (by simp [also]) (by simp [kind]) same
    · have known := targets earlier first also
      rw [same, (inserts later second kind).2] at known
      cases known

/-- Noting the id counter after a transaction appends nothing. -/
theorem writes_note {p : Proc N Unit} (shape : p = persistMeta.attempt ∨ p = pure ())
    (calm : w.fault = none) : Writes p w (.ok ()) [] := by
  rcases shape with rfl | rfl
  · refine writes_of_run ?_ ⟨(Step.note w).steps, rfl⟩
    rw [Proc.run_attempt, run_persistMeta calm]
  · exact writes_pure _ w

theorem commitTx_refines (coherent : Coherent w s) (calm : w.fault = none)
    (governed : Governed w.col) (describes : Describes w s store)
    (keep : ∀ op ∈ ops, op.kind ≠ .delete → Keepable w.col.enc op.data)
    (inserts : ∀ op ∈ ops, op.kind = .insert →
      op.id ≤ w.col.idSeq ∧ w.col.index.lookup op.id = none)
    (distinct : ((txInserts ops).map TxOp.id).Nodup) : Refines env w s store (.commitTx ops) := by
  have amid : Amid w s store := ⟨coherent, calm, governed, describes⟩
  by_cases empty : ops = []
  · subst empty
    have call : Writes (Collection.commitTx env ([] : List (TxOp N))) w (.ok ()) [] :=
      writes_pure _ w
    refine refines_of_writes describes (Writes.reply call fun _ => .done)
      describes.stocked (.commitTx ?_ ⟨?_, ?_⟩)
    · exact nofun
    · exact nofun
    · exact nofun
  have ran := run_commitTx env empty w
  rcases txTargetsExist_cases w.col ops with ⟨exist, targets⟩ | ⟨id, missing, gone⟩
  swap
  · rw [commitChecks, gone] at ran
    exact refines_of_writes describes (writes_of_run ran (.refl w)).bind_error
      describes.stocked (.commitTxMissing (absent_of_index coherent describes missing))
  have planned : Planned (Refusal w.col.enc) (fun staged => txCheckUnique w.col ops = .ok () ∧
      staged.map Prod.fst = ops ∧
        ∀ pair ∈ staged, pair.1.kind ≠ .delete → Stored w.col.enc pair.1.data pair.2)
      (commitChecks env w.col ops) := by
    have reached : Planned (Refusal w.col.enc) (fun _ => True) (txTargetsExist w.col ops) := by
      rw [exist]
      exact trivial
    exact .bind reached fun _ _ => .bind (planned_batch _ _) fun _ unique =>
      .bind (planned_txQuota _ _ _) fun _ _ =>
        (planned_txSeal governed.lawful keep).imp fun _ sealed => ⟨unique, sealed⟩
  generalize commitChecks env w.col ops = checked at ran planned
  rcases checked with error | staged
  · exact refines_refused describes (writes_of_run ran (.refl w)).bind_error planned
  obtain ⟨unique, names, each⟩ := planned
  have call {result : Except Error Unit} {es : List (Entry N)}
      (later : Writes (commitTxChecked env ops staged) w result es) :
      Writes (Collection.commitTx env ops) w result es := by
    rw [Writes, ran]
    exact later
  have held : ∀ op ∈ ops, op.kind ≠ .insert → (store.stock op.id).isSome := by
    intro op member target
    obtain ⟨loc, found⟩ := Option.isSome_iff_exists.mp (targets op member target)
    obtain ⟨held, there, -⟩ := held_of_index coherent describes found
    rw [there]
    rfl
  have admits := admits_of_check coherent governed describes unique
  have ready := ready_of_admissible coherent inserts distinct targets
  rw [← names] at ready
  rcases txApplyAll_progress env amid ready each with
    ⟨committed, es, stored, stocked⟩ | ⟨reason, applied, es, cut, stocked⟩
  · rw [names] at stocked
    obtain ⟨full, ended⟩ := stored.finish calm fun committed => committed
    have whole := call (ended.rotate coherent calm rfl fun w' calm' =>
      writes_note (by split_ifs <;> simp) calm')
    exact refines_of_writes describes (Writes.reply whole fun _ => .done) stocked
      (.commitTx held admits)
  · rw [names] at stocked
    have inside : Writes (applyStaged env staged) w (.error (.append reason)) es := cut.bind_error
    exact refines_of_writes describes (call (inside.refused _)).bind_error stocked
      (.commitTxCut applied held admits)

end Transactions

/-! ## All calls -/

section Calls

variable {env : Env} {w : World N} {s : Segments N} {store : Store N}

theorem rotateSegment_refines (coherent : Coherent w s) (calm : w.fault = none)
    (describes : Describes w s store) : Refines env w s store .rotateSegment := by
  have call : Writes (rotateSegment : Proc N Unit) w (.ok ()) [] :=
    writes_of_run (run_rotateSegment coherent calm)
      ⟨.head (.rotate w) (Step.note _).steps, rfl⟩
  exact refines_of_writes describes (Writes.reply call fun _ => .done) describes.stocked
    .rotateSegment

theorem ensureIndex_refines (coherent : Coherent w s) (calm : w.fault = none)
    (governed : Governed w.col) (describes : Describes w s store) (field : String)
    (unique : Bool) : Refines env w s store (.ensureIndex field unique) := by
  rcases ensureIndex_cases coherent calm governed describes field unique with
    ⟨policy, active, hidden, ran⟩ |
    ⟨result, w', s', ran, ended, steps, -, entries, -, -, describes', -⟩
  · have call : Writes (Collection.ensureIndex field unique) w
        (.error (.fieldEncrypted field)) [] := writes_of_run ran (.refl w)
    exact refines_refused describes call.bind_error (.hidden active hidden)
  · have stocked := describes'.stocked
    rw [steps.frame.enc, entries] at stocked
    have refines {reply : Except Error Reply}
        (run : ((Call.ensureIndex field unique).proc env).run w = (reply, w'))
        (performs : Performs w.col.cfg w.col.enc env store (.ensureIndex field unique) reply
          (store.ensure field unique)) : Refines env w s store (.ensureIndex field unique) := by
      rw [Refines, run]
      exact ⟨[], store.ensure field unique, steps, performs, stocked, describes'.indexes⟩
    rcases ended with rfl | ⟨invalid, rfl⟩
    · exact refines (Proc.run_bind_ok ran _) .ensureIndex
    · exact refines (Proc.run_bind_error ran _) (.ensureIndexUnwritten invalid)

/-- Every admissible call changes the store as the machine says. -/
theorem call_refines (coherent : Coherent w s) (calm : w.fault = none)
    (governed : Governed w.col) (describes : Describes w s store) {call : Call N}
    (admissible : Admissible w call) : Refines env w s store call := by
  cases call with
  | insert data expiresAt =>
    exact insert_refines coherent calm governed describes admissible expiresAt
  | insertMany records expiresAt =>
    exact insertMany_refines coherent calm governed describes admissible expiresAt
  | update id data => exact update_refines coherent calm governed describes id admissible
  | updateWithExpiry id data expiresAt =>
    exact updateWithExpiry_refines coherent calm governed describes id admissible expiresAt
  | delete id => exact delete_refines coherent calm describes id
  | insertWithKey key data =>
    exact insertWithKey_refines coherent calm governed describes key data
  | upsert key data => exact upsert_refines coherent calm governed describes key data
  | updateIfRev key expectedRev data =>
    exact updateIfRev_refines coherent calm governed describes key expectedRev data
  | updateIfMatch key pred data =>
    exact updateIfMatch_refines coherent calm governed describes key pred data
  | commitTx ops =>
    obtain ⟨keep, inserts, distinct⟩ := admissible
    exact commitTx_refines coherent calm governed describes keep inserts distinct
  | rotateSegment => exact rotateSegment_refines coherent calm describes
  | ensureIndex field unique =>
    exact ensureIndex_refines coherent calm governed describes field unique

end Calls

end Scriva.Engine.Batches
