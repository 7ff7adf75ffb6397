import Scriva.Engine.Uniqueness

/-!
# Transactions as writes in turn

A transaction that commits is compared with its writes made one at a time.  The
two differ in when segments are rotated, and in nothing that a reader sees, as
long as every write can be made in its turn: a target is looked for before the
whole batch by the one and at its turn by the other, the reserved field is
checked by the single writes only, and the quota of bytes is checked for the
inserts of a batch alone and before they are encrypted.
-/

namespace Scriva.Engine.InTurn

open Lib.Text Store.Record Store.Ndjson Segment PrimaryIndex SecondaryIndex Directory
open Engine.Collection Writing Calls Batches Engine.Sequential Coherence Machine Refinement
open Atomicity Reading Uniqueness Lib.Fallible
open Proc (run_bind_ok run_read run_check run_bind_error)

variable {N : Type} [JsonNumber N]

/-! ## One write at a time -/

/-- An insert under an id that was reserved for it. -/
def insertReserved (env : Env) (id : Nat) (data : Option (Data N)) : Proc N Unit := do
  Proc.check (checkReserved data)
  let cfg ← Proc.read fun w => w.col.cfg
  let enc ← readEnc
  let e ← Proc.check (sealEntryData enc env.seed
    { newInsert id data env.ts with
      rev := 1, expiresAt := resolveInsertExpiry cfg env.now none })
  let full ← (insertLocked e data).locked
  rotateIf full

/-- `Insert` reserves the next id and inserts under it, unless the data use a
reserved field. -/
theorem insert_insertReserved (env : Env) (data : Option (Data N)) (w : World N) :
    (Collection.insert env data).run w =
      match checkReserved data with
      | .error e => (.error e, w)
      | .ok _ => (insertReserved env (w.col.idSeq + 1) data >>= fun _ =>
          pure (w.col.idSeq + 1)).run (afterReserve w) := by
  rw [Collection.insert, insertWithExpiry, run_check_bind, insertReserved]
  cases checkReserved data with
  | error e => rfl
  | ok free =>
    dsimp only
    rw [run_bind_ok (run_read _ w), insertRecord, run_bind_ok (run_reserveID w),
      Proc.bind_assoc, run_bind_ok (run_check _ _), Proc.bind_assoc,
      run_bind_ok (run_read _ _)]
    simp only [Proc.bind_assoc]
    rfl

/-- The single write that a write of a transaction stands for. -/
def applyOne (env : Env) (op : TxOp N) : Proc N Unit :=
  match op.kind with
  | .insert => insertReserved env op.id op.data
  | .update => update env op.id op.data
  | .delete => delete env op.id

/-- The writes of a transaction, each by itself, at the times at which they
were staged and with the randomness that the transaction gives them. -/
def oneByOne (env : Env) : List (TxOp N) → Proc N Unit
  | [] => return ()
  | op :: ops => do
    applyOne { env with ts := op.ts } op
    oneByOne { env with seed := env.seed + 1 } ops

/-! ## Collections that show the same records -/

/-- A collection between calls: sound, without a failure to come, and with no
segment file beside its own. -/
structure Fine (w : World N) : Prop where
  sound : Sound w
  calm : w.fault = none
  only : ∀ number, (w.disk.segment number).isSome → number ∈ allSegments w.col

/-- Two collections that agree on everything but the places of lines. -/
structure Alike (w w' : World N) : Prop where
  cfg : w'.col.cfg = w.col.cfg
  enc : w'.col.enc = w.col.enc
  sidx : w'.col.sidx = w.col.sidx
  size : sizeBytes w'.col = sizeBytes w.col
  index : ∀ id, (w'.col.index.lookup id).map (fun loc => (loc.rev, loc.expiresAt)) =
    (w.col.index.lookup id).map fun loc => (loc.rev, loc.expiresAt)
  lines : ∀ id, storedLine w' id = storedLine w id

section Alike

variable {a b c w : World N}

theorem Alike.refl (w : World N) : Alike w w :=
  ⟨rfl, rfl, rfl, rfl, fun _ => rfl, fun _ => rfl⟩

theorem Alike.symm (alike : Alike a b) : Alike b a :=
  ⟨alike.cfg.symm, alike.enc.symm, alike.sidx.symm, alike.size.symm,
    fun id => (alike.index id).symm, fun id => (alike.lines id).symm⟩

theorem Alike.trans (first : Alike a b) (second : Alike b c) : Alike a c :=
  ⟨second.cfg.trans first.cfg, second.enc.trans first.enc, second.sidx.trans first.sidx,
    second.size.trans first.size, fun id => (second.index id).trans (first.index id),
    fun id => (second.lines id).trans (first.lines id)⟩

theorem Alike.lookup_isSome (alike : Alike a b) (id : Nat) :
    (b.col.index.lookup id).isSome = (a.col.index.lookup id).isSome := by
  have same := congrArg Option.isSome (alike.index id)
  rwa [Option.isSome_map, Option.isSome_map] at same

theorem Alike.keys (alike : Alike a b) : b.col.index.keys = a.col.index.keys := by
  ext id
  rw [Finmap.mem_keys, Finmap.mem_keys, ← Finmap.lookup_isSome, ← Finmap.lookup_isSome,
    alike.lookup_isSome]

variable {a' b' : World N} {e : Entry N} {bytes : Bytes} {kept : Bool} {change : Sidx → Sidx}

omit [JsonNumber N] in
theorem sizeBytes_appended (appended : Appended a bytes a') :
    sizeBytes a'.col = sizeBytes a.col + bytes.length := by
  rw [sizeBytes, sizeBytes, appended.sealed, appended.active]
  exact (Nat.add_assoc _ _ _).symm

/-- A line appended to both. -/
theorem Alike.marked (alike : Alike a b) (soundA : Sound a) (soundB : Sound b)
    (accepted : appendBytes e = .ok bytes) (markA : Marked a e bytes kept change a')
    (markB : Marked b e bytes kept change b') : Alike a' b' := by
  obtain ⟨-, othersA, hereA⟩ := soundA.marked accepted markA
  obtain ⟨-, othersB, hereB⟩ := soundB.marked accepted markB
  refine ⟨?_, ?_, ?_, ?_, ?_, ?_⟩
  · rw [markA.steady.cfg, markB.steady.cfg, alike.cfg]
  · rw [markA.steady.enc, markB.steady.enc, alike.enc]
  · rw [markA.sidx, markB.sidx, alike.sidx]
  · rw [sizeBytes_appended markA.appended, sizeBytes_appended markB.appended, alike.size]
  · intro id
    rw [markA.lookup, markB.lookup]
    split_ifs
    · rfl
    · rfl
    · exact alike.index id
  · intro id
    by_cases here : id = e.id
    · rw [here, hereA, hereB]
    · rw [othersA id here, othersB id here, alike.lines]

theorem Fine.marked (fine : Fine a) (accepted : appendBytes e = .ok bytes)
    (mark : Marked a e bytes kept change a') : Fine a' := by
  refine ⟨(fine.sound.marked accepted mark).1, mark.steady.calm fine.calm, ?_⟩
  intro number present
  rw [mark.appended.allSegments_eq]
  rw [mark.appended.segment, Function.update_apply] at present
  split_ifs at present with here
  · rw [here]
    exact List.mem_append_right _ (List.mem_singleton_self _)
  · exact fine.only number present

theorem Fine.rotate (fine : Fine w) :
    (rotateSegment : Proc N Unit).run w = (.ok (), afterNote (afterRotate w)) ∧
      Fine (afterNote (afterRotate w)) ∧ Alike w (afterNote (afterRotate w)) := by
  have fresh := nextNumber_not_mem (w.col.sealed ++ [w.col.active])
  have absent : w.disk.segment (nextNumber (w.col.sealed ++ [w.col.active])) = none := by
    rw [← Option.not_isSome_iff_eq_none]
    intro present
    apply fresh
    have member := fine.only _ present
    rwa [allSegments, ← List.map_singleton, ← List.map_append] at member
  have ran := run_rotateSegment_absent fine.calm absent
  have still := yields_rotateSegment fine.sound () _ ran
  refine ⟨ran, ⟨still.sound, fine.calm, ?_⟩, ⟨rfl, rfl, rfl, ?_, fun _ => rfl, still.lines⟩⟩
  · intro number present
    change ((DiskStep.apply w.disk (.create (.segment (nextNumber (w.col.sealed ++
      [w.col.active]))))).segment number).isSome at present
    change number ∈ (w.col.sealed ++ [w.col.active]).map Handle.number ++
      [nextNumber (w.col.sealed ++ [w.col.active])]
    rw [Disk.segment_create] at present
    split_ifs at present with here
    · exact List.mem_append_right _ (List.mem_singleton.mpr here)
    · refine List.mem_append_left _ ?_
      rw [List.map_append, List.map_singleton]
      exact fine.only number present
  · change ((w.col.sealed ++ [w.col.active]).map Handle.size).sum + 0 = _
    rw [List.map_append, List.sum_append, sizeBytes]
    simp

theorem Fine.rotateIf (fine : Fine w) (full : Bool) :
    ∃ w', (rotateIf full : Proc N Unit).run w = (.ok (), w') ∧ Fine w' ∧ Alike w w' := by
  cases full with
  | true => exact ⟨_, fine.rotate⟩
  | false => exact ⟨w, rfl, fine, .refl w⟩

omit [JsonNumber N] in
theorem Fine.publish (fine : Fine w) (committed : List (Entry N)) :
    Fine (afterPublish w committed) :=
  ⟨⟨fine.sound.attached, fine.sound.file, fine.sound.apart, fine.sound.known⟩, fine.calm,
    fine.only⟩

theorem alike_publish (w : World N) (committed : List (Entry N)) :
    Alike w (afterPublish w committed) :=
  ⟨rfl, rfl, rfl, rfl, fun _ => rfl, fun _ => rfl⟩

end Alike

/-! ## A write in its turn -/

variable {data : Option (Data N)}

section Turn

variable {w w' after : World N}

/-- A procedure succeeds, and its world shows the same records as another. -/
def Makes (p : Proc N Unit) (w after : World N) : Prop :=
  ∃ w', p.run w = (.ok (), w') ∧ Fine w' ∧ Alike after w'

/-- What comes after the line of a write: the flush, the publication and the
rotation. -/
theorem Fine.completes (fine : Fine after) {body : Proc N Bool} (committed : List (Entry N))
    (written : body.run w = (do
      syncActive
      publishCommit committed
      isFull : Proc N Bool).run after) : Makes (body.locked >>= Collection.rotateIf) w after := by
  rw [run_bind_ok (run_syncActive fine.calm),
    run_bind_ok (run_publishCommit after committed)] at written
  obtain ⟨w', rotated, fine', alike⟩ := (fine.publish committed).rotateIf
    (decide (after.col.cfg.segmentMaxSize ≤ after.col.active.size))
  have locked : body.locked.run w = _ := written
  exact ⟨w', (run_bind_ok locked _).trans rotated, fine',
    (alike_publish after committed).trans alike⟩

theorem run_putEntry_ok (fine : Fine w) {e : Entry N} {bytes : Bytes}
    (accepted : appendBytes e = .ok bytes) (plain : Option (Data N)) (follow : Follow) :
    (putEntry e plain follow).run w = (.ok (), afterPut w e plain follow bytes) := by
  rw [run_putEntry fine.calm, accepted]

theorem insertReserved_makes (fine : Fine w) (env : Env) {id : Nat} {e : Entry N} {bytes : Bytes}
    (free : checkReserved data = .ok ())
    (sealed : sealEntryData w.col.enc env.seed { newInsert id data env.ts with
      rev := 1, expiresAt := resolveInsertExpiry w.col.cfg env.now none } = .ok e)
    (quota : checkQuota w.col 1 (entryQuotaBytes w.col.cfg e) = .ok ())
    (unique : sidxCheckUnique w.col e.id data = .ok ()) (accepted : appendBytes e = .ok bytes) :
    Makes (insertReserved env id data) w (afterPut w e data .index bytes) := by
  have written : (insertLocked e data).run w = (do
      syncActive
      publishCommit [e]
      isFull : Proc N Bool).run (afterPut w e data .index bytes) := by
    rw [insertLocked, run_bind_ok (run_read _ w), quota,
      run_bind_ok (run_check _ w), unique, run_bind_ok (run_check _ w),
      run_bind_ok (run_putEntry_ok fine accepted data .index)]
  have done := (fine.marked accepted (fine.sound.marked_put _ _ _ _)).completes [e] written
  rw [Makes, insertReserved, free, run_bind_ok (run_check _ w),
    run_bind_ok (run_read _ w), readEnc, run_bind_ok (run_read _ w), sealed,
    run_bind_ok (run_check _ w)]
  exact done

theorem checks_of_insertReserved {env : Env} {id : Nat} {e : Entry N}
    (ran : (insertReserved env id data).run w = (.ok (), w'))
    (sealed : sealEntryData w.col.enc env.seed { newInsert id data env.ts with
      rev := 1, expiresAt := resolveInsertExpiry w.col.cfg env.now none } = .ok e) :
    checkReserved data = .ok () ∧ checkQuota w.col 1 (entryQuotaBytes w.col.cfg e) = .ok () := by
  rw [insertReserved, run_check_bind] at ran
  rcases free : checkReserved data with error | ⟨⟩
  · rw [free] at ran
    cases ran
  · rw [free] at ran
    simp only at ran
    rw [run_bind_ok (run_read _ w), readEnc, run_bind_ok (run_read _ w),
      sealed, run_bind_ok (run_check _ w)] at ran
    rcases quota : checkQuota w.col 1 (entryQuotaBytes w.col.cfg e) with error | ⟨⟩
    · have refused : (insertLocked e data).locked.run w = (.error error, w) := by
        rw [Proc.run_locked, insertLocked, run_bind_ok (run_read _ w), quota]
        rfl
      rw [run_bind_error refused] at ran
      cases ran
    · exact ⟨rfl, rfl⟩

variable {loc : IndexEntry}

theorem update_makes (fine : Fine w) (env : Env) {id : Nat} {e : Entry N} {bytes : Bytes}
    (free : checkReserved data = .ok ())
    (sealed : sealEntryData w.col.enc env.seed (newUpdate id data env.ts) = .ok e)
    (found : w.col.index.lookup e.id = some loc) (unique : sidxCheckUnique w.col e.id data = .ok ())
    (accepted : appendBytes { e with rev := loc.rev + 1, expiresAt := loc.expiresAt } = .ok bytes) :
    Makes (Collection.update env id data) w
      (afterPut w { e with rev := loc.rev + 1, expiresAt := loc.expiresAt } data .move bytes) := by
  have written : (updateLocked e data none).run w = (do
      syncActive
      publishCommit [{ e with rev := loc.rev + 1, expiresAt := loc.expiresAt }]
      isFull : Proc N Bool).run (afterPut w
        { e with rev := loc.rev + 1, expiresAt := loc.expiresAt } data .move bytes) := by
    rw [updateLocked, run_bind_ok (run_read _ w)]
    simp only [found]
    rw [unique, run_bind_ok (run_check _ w)]
    exact run_bind_ok (run_putEntry_ok fine accepted data .move) _
  have done := (fine.marked accepted (fine.sound.marked_put _ _ _ _)).completes _ written
  rw [Makes, Collection.update, free, run_bind_ok (run_check _ w), updateRecord,
    readEnc, run_bind_ok (run_read _ w), sealed, run_bind_ok (run_check _ w)]
  exact done

theorem delete_makes (fine : Fine w) (env : Env) {id : Nat} {bytes : Bytes}
    (found : w.col.index.lookup id = some loc)
    (accepted : appendBytes (newDelete (N := N) id env.ts) = .ok bytes) :
    Makes (Collection.delete env id) w (afterDelete w (newDelete id env.ts) bytes) := by
  have fine' := fine.marked accepted (fine.sound.marked_delete _ _)
  have removed : (deleteEntry (newDelete (N := N) id env.ts)).run w =
      (.ok (), afterDelete w (newDelete id env.ts) bytes) := by
    rw [run_deleteEntry fine.calm, accepted]
  refine ⟨_, ?_, fine'.publish [newDelete id env.ts], alike_publish _ _⟩
  rw [Collection.delete, Proc.run_locked, run_bind_ok (run_read _ w)]
  simp only [found]
  rw [run_bind_ok removed, run_bind_ok (run_syncActive fine'.calm)]
  exact run_publishCommit _ _

end Turn

/-! ## A transaction and its writes in turn -/

/-- The world after the line of a staged write. -/
def txStep (w : World N) (op : TxOp N) (e : Entry N) (bytes : Bytes) : World N :=
  match op.kind with
  | .insert => afterPut w e op.data .index bytes
  | .update => afterPut w e op.data .move bytes
  | .delete => afterDelete w e bytes

/-- The bytes of a line. -/
def lineSize (e : Entry N) : Nat :=
  ((appendBytes e).toOption.map List.length).getD 0

/-- The quota of bytes admits every insert among some lines when it comes after
the lines in front of it. -/
def RoomFor (cfg : Config) : Nat → List (Entry N) → Prop
  | _, [] => True
  | size, e :: es =>
    (e.op = .insert → cfg.maxBytes = 0 ∨ (size + entryQuotaBytes cfg e : Nat) ≤ byteLimit cfg) ∧
      RoomFor cfg (size + lineSize e) es

variable {staged : List (TxOp N × Option (Data N))} {es : List (Entry N)} {seed : Nat}

section Steps

variable {a b w : World N} {env : Env} {op : TxOp N} {e : Entry N} {bytes : Bytes}

/-- What a staged write does to an index. -/
def txChange (op : TxOp N) (id : Nat) : Sidx → Sidx :=
  match op.kind with
  | .insert => Follow.index.apply id op.data
  | .update => Follow.move.apply id op.data
  | .delete => fun s => s.remove id

theorem Fine.step (fine : Fine w) (op : TxOp N) (e : Entry N) (bytes : Bytes) :
    Marked w e bytes (decide (op.kind ≠ .delete)) (txChange op e.id) (txStep w op e bytes) := by
  unfold txStep txChange
  cases op.kind with
  | insert | update => exact fine.sound.marked_put _ _ _ _
  | delete => exact fine.sound.marked_delete _ _

/-- The lines of the rest of a transaction, seen from after its first line. -/
theorem txLines_txStep (env : Env) (w : World N) (op : TxOp N) (e : Entry N) (bytes : Bytes)
    (staged : List (TxOp N × Option (Data N))) :
    txLines env (txStep w op e bytes).col staged = txLines env (txAfter op e w.col) staged := by
  have same := sameRevs_append w (c := w.col) ⟨rfl, rfl, fun _ => rfl, fun _ => rfl⟩ bytes
  refine (txLines_congr ?_ env staged).symm
  unfold txStep txAfter
  cases op.kind with
  | insert | update =>
    have set := same.set e w.col.active.size w.col.active.size
    exact ⟨set.cfg, set.enc, set.revs, set.deadlines⟩
  | delete =>
    have dropped := same.drop e.id
    exact ⟨dropped.cfg, dropped.enc, dropped.revs, dropped.deadlines⟩

/-- A transaction that applies its writes has applied the first one. -/
theorem run_txWrite (calm : w.fault = none) (op : TxOp N) (e : Entry N) :
    (txWrite op e).run w =
      match appendBytes e with
      | .ok bytes => (.ok (), txStep w op e bytes)
      | .error reason => (.error (.append reason), w) := by
  unfold txWrite txStep
  cases op.kind with
  | insert | update => exact run_putEntry calm e _ _
  | delete => exact run_deleteEntry calm e

theorem run_txApplyAll_cons (calm : w.fault = none) {stored : Option (Data N)}
    (ran : (txApplyAll env ((op, stored) :: staged)).run w = (.ok es, w')) :
    ∃ bytes es', appendBytes (txEntry env w.col op stored) = .ok bytes ∧
      (txApplyAll env staged).run (txStep w op (txEntry env w.col op stored) bytes) =
        (.ok es', w') := by
  obtain ⟨e, entry⟩ : ∃ e, e = txEntry env w.col op stored := ⟨_, rfl⟩
  rw [← entry]
  have wrote := run_txWrite calm op e
  rw [txApplyAll, txApply, Proc.bind_assoc, run_bind_ok (run_read _ w), ← entry] at ran
  rcases appended : appendBytes e with reason | bytes
  · rw [appended] at wrote
    rw [Proc.bind_assoc, run_bind_error wrote] at ran
    cases ran
  · rw [appended] at wrote
    rw [Proc.bind_assoc, run_bind_ok wrote, run_bind_ok (Proc.run_pure _ _),
      Proc.run_bind] at ran
    rcases rest : (txApplyAll env staged).run (txStep w op e bytes) with ⟨outcome, after⟩
    rw [rest] at ran
    cases outcome with
    | error reason => cases ran
    | ok committed =>
      cases ran
      exact ⟨bytes, committed, rfl, rest⟩

variable {enc : Option (Encryptor N)} {key : String} {member : Nat}
  {claims : List (Nat × Option (Data N))}

omit [JsonNumber N] in
theorem txSeal_cons {ops : List (TxOp N)} (sealed : txSeal enc seed (op :: ops) = .ok staged) :
    ∃ stored rest, staged = (op, stored) :: rest ∧ txSeal enc (seed + 1) ops = .ok rest ∧
      (op.kind ≠ .delete → ∀ e : Entry N, e.data = op.data → e.epoch = 0 →
        sealEntryData enc seed e = .ok { e with data := stored, epoch := txEpoch enc }) := by
  rw [Batches.txSeal_cons] at sealed
  obtain ⟨stored, first, sealed⟩ := ok_of_bind sealed
  obtain ⟨rest, later, sealed⟩ := ok_of_bind sealed
  cases sealed
  refine ⟨stored, rest, rfl, later, fun put e data epoch => ?_⟩
  rw [txStored.eq_def, if_neg put] at first
  rcases enc with - | policy
  · cases first
    rw [← data]
    change Except.ok e = .ok { e with epoch := 0 }
    rw [← epoch]
  · change policy.encrypt seed op.data = .ok stored at first
    rw [sealEntryData, data, first]
    rfl

omit [JsonNumber N] in
theorem map_fst_txSeal {ops : List (TxOp N)} (sealed : txSeal enc seed ops = .ok staged) :
    staged.map Prod.fst = ops := by
  induction ops generalizing seed staged with
  | nil =>
    cases sealed
    rfl
  | cons op ops ih =>
    obtain ⟨stored, rest, rfl, later, -⟩ := txSeal_cons sealed
    rw [List.map_cons, ih later]

/-- What a single write needs beyond what a transaction checks. -/
def Turn (c : Collection N) (op : TxOp N) (e : Entry N) : Prop :=
  (op.kind ≠ .delete → field? op.data keyField = none) ∧
    (op.kind = .insert → c.cfg.maxBytes = 0 ∨
      (sizeBytes c + entryQuotaBytes c.cfg e : Nat) ≤ byteLimit c.cfg)

theorem mem_bucket_remove (s : Sidx) {id : Nat} (held : member ∈ (s.remove id).bucket key) :
    member ∈ s.bucket key := by
  unfold Sidx.remove at held
  split at held
  · exact held
  · exact ((Sidx.mem_bucket_shrink _ _ _ _ _).mp held).1

/-- A write puts a record into no bucket but that of its own key. -/
theorem mem_bucket_apply (follow : Follow) (s : Sidx) {id : Nat}
    (held : member ∈ (follow.apply id data s).bucket key) :
    member ∈ s.bucket key ∨ (member = id ∧ indexKey s.field data = some key) := by
  have added {t : Sidx} {own : String} (given : indexKey s.field data = some own)
      (smaller : ∀ member, member ∈ t.bucket key → member ∈ s.bucket key)
      (held : member ∈ (t.addKey own id).bucket key) :
      member ∈ s.bucket key ∨ (member = id ∧ indexKey s.field data = some key) := by
    rcases (Sidx.mem_bucket_addKey t own key id member).mp held with old | ⟨rfl, rfl⟩
    · exact .inl (smaller member old)
    · exact .inr ⟨rfl, given⟩
  cases follow with
  | index =>
    rw [Follow.apply, Sidx.indexEntry] at held
    split at held
    · rename_i given
      exact added given (fun _ old => old) held
    · exact .inl held
  | move =>
    rw [Follow.apply, Sidx.updateEntry] at held
    split at held
    · rename_i given
      rw [Sidx.updateKey] at held
      split at held
      · exact added given (fun _ old => old) held
      · exact added given
          (fun _ old => ((Sidx.mem_bucket_shrink _ _ _ _ _).mp old).1) held
    · exact .inl (mem_bucket_remove s held)

/-- Writes that are clear stay so when one of them is made, or a record is
deleted. -/
theorem cleared_map {indexes : List Sidx} (cleared : Cleared indexes claims) {change : Sidx → Sidx}
    (field : ∀ s, (change s).field = s.field) (unique : ∀ s, (change s).unique = s.unique)
    (grown : ∀ s key member, member ∈ (change s).bucket key → member ∈ s.bucket key ∨
      ∃ data, (member, data) ∈ claims ∧ indexKey s.field data = some key) :
    Cleared (indexes.map change) claims := by
  intro t member guard id data claim key given
  obtain ⟨s, inside, rfl⟩ := List.mem_map.mp member
  rw [unique] at guard
  rw [field] at given ⊢
  obtain ⟨clear, alone⟩ := cleared s inside guard id data claim key given
  refine ⟨?_, alone⟩
  rw [Sidx.conflict, decide_eq_false_iff_not] at clear ⊢
  rintro ⟨other, held, differs⟩
  rcases grown s key other held with old | ⟨data', claim', given'⟩
  · exact clear ⟨other, old, differs⟩
  · exact differs (alone other data' claim' given')

theorem cleared_txStep (fine : Fine w) {ops : List (TxOp N)}
    (cleared : Cleared w.col.sidx (claimsOf (op :: ops))) (named : e.id = op.id) (bytes : Bytes) :
    Cleared (txStep w op e bytes).col.sidx (claimsOf ops) := by
  have flags (s : Sidx) : (txChange op e.id s).field = s.field ∧
      (txChange op e.id s).unique = s.unique := by
    unfold txChange
    cases op.kind <;> simp [Follow.apply]
  have fewer : Cleared (txStep w op e bytes).col.sidx (claimsOf (op :: ops)) := by
    rw [(fine.step op e bytes).sidx]
    refine cleared_map cleared (fun s => (flags s).1) (fun s => (flags s).2)
      fun s key member held => ?_
    have put (kept : op.kind ≠ .delete) (follow : Follow)
        (held : member ∈ (follow.apply e.id op.data s).bucket key) : member ∈ s.bucket key ∨
          ∃ data, (member, data) ∈ claimsOf (op :: ops) ∧ indexKey s.field data = some key := by
      refine (mem_bucket_apply follow s held).imp_right ?_
      rintro ⟨rfl, given⟩
      exact ⟨op.data, mem_claimsOf.mpr ⟨op, List.mem_cons_self, kept, named.symm, rfl⟩, given⟩
    unfold txChange at held
    rcases kind : op.kind with - | - | -
    all_goals rw [kind] at held
    · exact put (by simp [kind]) .index held
    · exact put (by simp [kind]) .move held
    · exact .inl (mem_bucket_remove s held)
  intro t member unique id data claim key given
  have later {id : Nat} {data : Option (Data N)} (claim : (id, data) ∈ claimsOf ops) :
      (id, data) ∈ claimsOf (op :: ops) := by
    obtain ⟨op', inside, rest⟩ := mem_claimsOf.mp claim
    exact mem_claimsOf.mpr ⟨op', List.mem_cons_of_mem _ inside, rest⟩
  obtain ⟨clear, alone⟩ := fewer t member unique id data (later claim) key given
  exact ⟨clear, fun other data' claim' => alone other data' (later claim')⟩

theorem check_of_cleared {c : Collection N} (cleared : Cleared c.sidx claims) {id : Nat}
    (claim : (id, data) ∈ claims) : sidxCheckUnique c id data = .ok () := by
  have clear : (c.sidx.find? fun s =>
      s.unique && (indexKey s.field data).any fun key => s.conflict key id) = none := by
    rw [List.find?_eq_none]
    intro s member taken
    obtain ⟨unique, clash⟩ := (Bool.and_eq_true _ _).mp taken
    obtain ⟨key, given, conflict⟩ := (Option.any_eq_true _ _).mp clash
    rw [(cleared s member unique id data claim key given).1] at conflict
    cases conflict
  rw [sidxCheckUnique, clear]

section

omit [JsonNumber N]

theorem id_txEntry (env : Env) (c : Collection N) (op : TxOp N) (stored : Option (Data N)) :
    (txEntry env c op stored).id = op.id := by
  unfold txEntry
  cases op.kind with
  | insert | update | delete => rfl

theorem op_txEntry (env : Env) (c : Collection N) (op : TxOp N) (stored : Option (Data N)) :
    (txEntry env c op stored).op = .insert ↔ op.kind = .insert := by
  unfold txEntry
  cases op.kind with
  | insert => simp [newInsert]
  | update => simp [newUpdate]
  | delete => simp [newDelete]

theorem checkReserved_eq_ok_iff (data : Option (Data N)) :
    checkReserved data = .ok () ↔ field? data keyField = none := by
  unfold checkReserved
  split_ifs with set
  · simp [Option.isSome_iff_ne_none.mp set]
  · simp [Option.not_isSome_iff_eq_none.mp set]

end

/-- How the data of a write is stored. -/
def Seals (enc : Option (Encryptor N)) (seed : Nat) (op : TxOp N) (stored : Option (Data N)) :
    Prop :=
  op.kind ≠ .delete → ∀ e : Entry N, e.data = op.data → e.epoch = 0 →
    sealEntryData enc seed e = .ok { e with data := stored, epoch := txEpoch enc }

/-- A write succeeds in its turn when nothing but the checks of a transaction
and those of `Turn` can stop it. -/
theorem applyOne_makes (fine : Fine w) {stored : Option (Data N)}
    (seals : Seals w.col.enc env.seed op stored)
    (found : op.kind ≠ .insert → (w.col.index.lookup op.id).isSome)
    (unique : op.kind ≠ .delete → sidxCheckUnique w.col op.id op.data = .ok ())
    (records : op.kind = .insert → w.col.cfg.maxRecords = 0 ∨
      w.col.index.keys.card + 1 ≤ w.col.cfg.maxRecords)
    (turn : Turn w.col op (txEntry env w.col op stored))
    (accepted : appendBytes (txEntry env w.col op stored) = .ok bytes) :
    Makes (applyOne { env with ts := op.ts } op) w
      (txStep w op (txEntry env w.col op stored) bytes) := by
  obtain ⟨free, room⟩ := turn
  unfold applyOne txStep
  unfold Seals at seals
  unfold txEntry at room accepted ⊢
  rcases kind : op.kind with - | - | -
  all_goals simp only [kind, ne_eq, reduceCtorEq, not_false_eq_true, not_true_eq_false,
    forall_const] at *
  case insert =>
    exact insertReserved_makes fine _ ((checkReserved_eq_ok_iff _).mpr free) (seals _ rfl rfl)
      ((checkQuota_eq_ok_iff _ _ _).mpr ⟨records, room⟩) unique accepted
  case update =>
    obtain ⟨loc, at?⟩ := Option.isSome_iff_exists.mp found
    rw [at?] at accepted ⊢
    exact update_makes fine { env with ts := op.ts } ((checkReserved_eq_ok_iff _).mpr free)
      (seals _ rfl rfl) at? unique accepted
  case delete =>
    obtain ⟨loc, at?⟩ := Option.isSome_iff_exists.mp found
    exact delete_makes fine { env with ts := op.ts } at? accepted

/-- A write that succeeds in its turn has passed the checks of `Turn`. -/
theorem turn_of_applyOne (env : Env) {stored : Option (Data N)}
    (seals : Seals w.col.enc env.seed op stored)
    (ran : (applyOne { env with ts := op.ts } op).run w = (.ok (), w')) :
    Turn w.col op (txEntry env w.col op stored) := by
  unfold applyOne at ran
  unfold Turn txEntry
  rcases kind : op.kind with - | - | -
  case delete => exact ⟨fun put => absurd rfl put, nofun⟩
  case update =>
    refine ⟨fun _ => ?_, nofun⟩
    rw [kind, Collection.update, run_check_bind] at ran
    rcases free : checkReserved op.data with error | ⟨⟩
    · rw [free] at ran
      cases ran
    · exact (checkReserved_eq_ok_iff _).mp free
  case insert =>
    rw [kind] at ran
    obtain ⟨free, quota⟩ := checks_of_insertReserved ran (seals (by simp [kind]) _ rfl rfl)
    exact ⟨fun _ => (checkReserved_eq_ok_iff _).mp free,
      fun _ => ((checkQuota_eq_ok_iff _ _ _).mp quota).2⟩

theorem lookup_txStep (fine : Fine w) (op : TxOp N) (e : Entry N) (bytes : Bytes) (id : Nat) :
    ((txStep w op e bytes).col.index.lookup id).isSome =
      if id = e.id then decide (op.kind ≠ .delete) else (w.col.index.lookup id).isSome := by
  rw [(fine.step op e bytes).lookup]
  split_ifs with here kept
  · exact kept.symm
  · exact (Bool.eq_false_iff.mpr kept).symm
  · rfl

theorem card_txStep (fine : Fine w) (ops : List (TxOp N)) (named : e.id = op.id)
    (found : op.kind ≠ .insert → (w.col.index.lookup op.id).isSome) (bytes : Bytes) :
    (txStep w op e bytes).col.index.keys.card + (txInserts ops).length ≤
      w.col.index.keys.card + (txInserts (op :: ops)).length := by
  have listed (w : World N) (id : Nat) :
      id ∈ w.col.index.keys ↔ (w.col.index.lookup id).isSome = true := by
    rw [Finmap.mem_keys, Finmap.lookup_isSome]
  by_cases insert? : op.kind = .insert
  · have grown : (txStep w op e bytes).col.index.keys ⊆ insert op.id w.col.index.keys := by
      intro id held
      rw [listed, lookup_txStep fine] at held
      split_ifs at held with here
      · exact Finset.mem_insert.mpr (.inl (here.trans named))
      · exact Finset.mem_insert_of_mem ((listed w id).mpr held)
    have count := (Finset.card_le_card grown).trans (Finset.card_insert_le _ _)
    simp only [txInserts, List.filter_cons, insert?, decide_true, if_true, List.length_cons]
    omega
  · have kept : (txStep w op e bytes).col.index.keys ⊆ w.col.index.keys := by
      intro id held
      rw [listed, lookup_txStep fine] at held
      split_ifs at held with here
      · rw [here, named, listed]
        exact found insert?
      · exact (listed w id).mpr held
    have count := Finset.card_le_card kept
    simp only [txInserts, List.filter_cons, insert?, decide_false, Bool.false_eq_true, if_false]
    omega

theorem Alike.sameRevs (alike : Alike a b) : SameRevs b.col a.col where
  cfg := alike.cfg
  enc := alike.enc
  revs id := by
    have same := congrArg (Option.map Prod.fst) (alike.index id)
    rwa [Option.map_map, Option.map_map] at same
  deadlines id := by
    have same := congrArg (Option.map Prod.snd) (alike.index id)
    rwa [Option.map_map, Option.map_map] at same

end Steps

/-! ## Batches in turn -/

/-- No write of a batch is to a record that the batch has deleted. -/
def InOrder (ops : List (TxOp N)) : Prop :=
  ops.Pairwise fun earlier later => earlier.kind = .delete → later.id ≠ earlier.id

/-- No write of a batch sets the reserved field. -/
def Unreserved (ops : List (TxOp N)) : Prop :=
  ∀ op ∈ ops, op.kind ≠ .delete → field? op.data keyField = none

variable {a' : World N}

section Batches

variable {a b w : World N} {env : Env} {op : TxOp N} {ops : List (TxOp N)}

/-- What the checks of a transaction say about the writes that are left. -/
structure Ready (w : World N) (ops : List (TxOp N)) : Prop where
  order : InOrder ops
  cleared : Cleared w.col.sidx (claimsOf ops)
  targets : ∀ op ∈ ops, op.kind ≠ .insert → (w.col.index.lookup op.id).isSome
  records : txInserts ops = [] ∨ w.col.cfg.maxRecords = 0 ∨
    w.col.index.keys.card + (txInserts ops).length ≤ w.col.cfg.maxRecords

theorem Ready.alike (ready : Ready a ops) (alike : Alike a b) : Ready b ops where
  order := ready.order
  cleared := by
    rw [alike.sidx]
    exact ready.cleared
  targets op member kind := by
    rw [alike.lookup_isSome]
    exact ready.targets op member kind
  records := by
    rw [alike.cfg, alike.keys]
    exact ready.records

theorem Ready.step (ready : Ready w (op :: ops)) (fine : Fine w) {e : Entry N}
    (named : e.id = op.id) (bytes : Bytes) : Ready (txStep w op e bytes) ops where
  order := (List.pairwise_cons.mp ready.order).2
  cleared := cleared_txStep fine ready.cleared named bytes
  targets later member kind := by
    rw [lookup_txStep fine]
    split_ifs with here
    · refine decide_eq_true fun deleted => ?_
      exact (List.pairwise_cons.mp ready.order).1 later member deleted (here.trans named)
    · exact ready.targets later (.tail _ member) kind
  records := by
    have count := card_txStep fine ops named (ready.targets op (.head _)) bytes
    rw [(fine.step op e bytes).steady.cfg]
    refine ready.records.imp ?_ fun records => records.imp_right count.trans
    intro none?
    exact List.filter_eq_nil_iff.mpr fun later member =>
      List.filter_eq_nil_iff.mp none? later (.tail _ member)

theorem Ready.makes (ready : Ready w (op :: ops)) (env : Env) (fine : Fine w) {stored : Option (Data N)}
    {bytes : Bytes} (seals : Seals w.col.enc env.seed op stored)
    (turn : Turn w.col op (txEntry env w.col op stored))
    (accepted : appendBytes (txEntry env w.col op stored) = .ok bytes) :
    Makes (applyOne { env with ts := op.ts } op) w
      (txStep w op (txEntry env w.col op stored) bytes) := by
  refine applyOne_makes fine seals (ready.targets op (.head _)) ?_ ?_ turn accepted
  · intro put
    exact check_of_cleared ready.cleared
      (mem_claimsOf.mpr ⟨op, List.mem_cons_self, put, rfl, rfl⟩)
  · intro insert?
    have records := ready.records
    simp only [txInserts, List.filter_cons, insert?, decide_true, if_true,
      List.length_cons, reduceCtorEq, false_or] at records
    omega

/-- The checks that the writes left have to pass in their turns. -/
def Turns (env : Env) (w : World N) (staged : List (TxOp N × Option (Data N))) : Prop :=
  Unreserved (staged.map Prod.fst) ∧
    RoomFor w.col.cfg (sizeBytes w.col) (txLines env w.col staged)

theorem turns_cons {stored : Option (Data N)} {bytes : Bytes} (fine : Fine a) (alike : Alike a b)
    (staged : List (TxOp N × Option (Data N)))
    (accepted : appendBytes (txEntry env a.col op stored) = .ok bytes) :
    Turns env a ((op, stored) :: staged) ↔
      Turn b.col op (txEntry env b.col op stored) ∧
        Turns env (txStep a op (txEntry env a.col op stored) bytes) staged := by
  obtain ⟨e, entry⟩ : ∃ e, e = txEntry env a.col op stored := ⟨_, rfl⟩
  have kind := op_txEntry env a.col op stored
  have size : lineSize e = bytes.length := by
    rw [lineSize, entry, accepted]
    rfl
  rw [txEntry_congr alike.sameRevs]
  rw [← entry] at kind ⊢
  have mark := fine.step op e bytes
  rw [Turns, Turns, Turn, txLines, ← entry, RoomFor, sizeBytes_appended mark.appended,
    txLines_txStep, mark.steady.cfg, size, kind, alike.cfg, alike.size, Unreserved,
    List.map_cons, List.forall_mem_cons, Unreserved]
  tauto

/-- A batch that has passed the checks of a transaction, in one piece and write
by write. -/
theorem oneByOne_of_txApplyAll (sealed : txSeal a.col.enc seed ops = .ok staged) (fineA : Fine a)
    (fineB : Fine b) (alike : Alike a b) (ready : Ready b ops)
    (ran : (txApplyAll env staged).run a = (.ok es, a')) :
    (Turns env a staged → Makes (oneByOne { env with seed } ops) b a') ∧
      (∀ b', (oneByOne { env with seed } ops).run b = (.ok (), b') → Turns env a staged) := by
  induction ops generalizing a b seed staged es with
  | nil =>
    cases sealed
    cases ran
    exact ⟨fun _ => ⟨b, rfl, fineB, alike⟩,
      fun _ _ => ⟨nofun, trivial⟩⟩
  | cons op ops ih =>
    obtain ⟨stored, rest, rfl, later, seals⟩ := txSeal_cons sealed
    obtain ⟨bytes, es', accepted, ran'⟩ := run_txApplyAll_cons fineA.calm ran
    have named := id_txEntry env b.col op stored
    have entry := txEntry_congr alike.sameRevs env op stored
    rw [← alike.enc] at seals
    have stepped : Alike (txStep a op (txEntry env a.col op stored) bytes)
        (txStep b op (txEntry env b.col op stored) bytes) := by
      rw [entry]
      exact alike.marked fineA.sound fineB.sound accepted (fineA.step _ _ _) (fineB.step _ _ _)
    -- once the first write is made, the induction is about the other ones
    have further {b₁ : World N} (fine₁ : Fine b₁)
        (made : Alike (txStep b op (txEntry env b.col op stored) bytes) b₁) :
        (Turns env (txStep a op (txEntry env a.col op stored) bytes) rest →
            Makes (oneByOne { env with seed := seed + 1 } ops) b₁ a') ∧
          ∀ b', (oneByOne { env with seed := seed + 1 } ops).run b₁ = (.ok (), b') →
            Turns env (txStep a op (txEntry env a.col op stored) bytes) rest := by
      refine ih ?_ (fineA.marked accepted (fineA.step op _ bytes)) fine₁ (stepped.trans made)
        ((ready.step fineB named bytes).alike made) ran'
      rw [(fineA.step op _ bytes).steady.enc]
      exact later
    have accepted' : appendBytes (txEntry env b.col op stored) = .ok bytes := by
      rwa [entry]
    have made (turn : Turn b.col op (txEntry env b.col op stored)) :
        Makes (applyOne { env with seed, ts := op.ts } op) b
          (txStep b op (txEntry env b.col op stored) bytes) :=
      ready.makes { env with seed } fineB seals turn accepted'
    rw [turns_cons fineA alike rest accepted]
    constructor
    · rintro ⟨turn, turns⟩
      obtain ⟨b₁, first, fine₁, made⟩ := made turn
      obtain ⟨b', others, done⟩ := (further fine₁ made).1 turns
      exact ⟨b', (run_bind_ok first _).trans others, done⟩
    · intro b' whole
      rw [oneByOne, Proc.run_bind] at whole
      rcases first : (applyOne { env with seed, ts := op.ts } op).run b with ⟨outcome, b₁⟩
      rw [first] at whole
      cases outcome with
      | error error => cases whole
      | ok _ =>
        have turn : Turn b.col op (txEntry env b.col op stored) :=
          turn_of_applyOne { env with seed } seals first
        obtain ⟨_, again, fine₁, made⟩ := made turn
        obtain rfl := (Prod.mk.inj (again.symm.trans first)).2
        exact ⟨turn, (further fine₁ made).2 b' whole⟩

end Batches

/-! ## Transactions that mean their writes in order -/

/-- Two collections with the same records: the same data, revision and expiry
under every id. -/
structure SameRecords (w w' : World N) : Prop where
  index : ∀ id, (w'.col.index.lookup id).map (fun loc => (loc.rev, loc.expiresAt)) =
    (w.col.index.lookup id).map fun loc => (loc.rev, loc.expiresAt)
  read : ∀ now id, (Collection.get w' now id).toOption = (Collection.get w now id).toOption

/-- No write of a batch is to a record that the batch has deleted, and no insert
is under the id of a record. -/
structure Orderly (w : World N) (ops : List (TxOp N)) : Prop where
  inOrder : InOrder ops
  absent : ∀ op ∈ ops, op.kind = .insert → w.col.index.lookup op.id = none
  apart : ops.Pairwise fun earlier later => later.kind = .insert → later.id ≠ earlier.id

section Transactions

variable {a b w w' : World N}

/-- What a reader gets depends on the line and the index entry of the record. -/
theorem toOption_get (w : World N) (now : Int) (id : Nat) :
    (Collection.get w now id).toOption =
      ((w.col.index.lookup id).map fun loc => (loc.rev, loc.expiresAt)).bind fun loc =>
        if expired loc.2 now then none
        else (storedLine w id).bind fun e =>
          (materialize w.col.enc e.data).toOption.map fun data =>
            { id, key := keyOf data, rev := loc.1, ts := e.ts, data } := by
  rw [Collection.get, getStored, storedLine]
  rcases w.col.index.lookup id with - | loc
  · rfl
  · simp only [Option.map_some, Option.bind_some]
    split_ifs
    · rfl
    · rcases readEntry w id loc with error | e
      · rfl
      · rcases materialized : materialize w.col.enc e.data with error | data
        · simp [materialized, Except.map, Except.toOption]
        · simp [materialized, Except.map, Except.toOption]

theorem Alike.sameRecords (alike : Alike a b) : SameRecords a b where
  index := alike.index
  read now id := by
    rw [toOption_get, toOption_get, alike.index, alike.enc]
    simp only [alike.lines]

theorem fine_of_txApplyAll {env : Env} (fine : Fine a)
    (ran : (txApplyAll env staged).run a = (.ok es, a')) : Fine a' := by
  induction staged generalizing a es with
  | nil =>
    cases ran
    exact fine
  | cons pair staged ih =>
    obtain ⟨bytes, es', accepted, rest⟩ := run_txApplyAll_cons fine.calm ran
    exact ih (fine.marked accepted (fine.step pair.1 _ bytes)) rest

/-- A transaction that commits has passed its checks and applied its writes. -/
theorem applied_of_commitTx (fine : Fine w) {env : Env} {ops : List (TxOp N)}
    (ran : (commitTx env ops).run w = (.ok (), w')) :
    ∃ staged es a', commitChecks env w.col ops = .ok staged ∧
      (txApplyAll env staged).run w = (.ok es, a') ∧ Alike a' w' := by
  by_cases some? : ops = []
  · rw [commitTx, if_pos some?] at ran
    cases ran
    have quota : txCheckQuota env w.col ([] : List (TxOp N)) = .ok () :=
      if_neg fun enabled => enabled.2 rfl
    rw [some?]
    refine ⟨[], [], w, ?_, rfl, .refl w⟩
    rw [commitChecks, quota]
    rfl
  rw [run_commitTx env some?] at ran
  rcases checked : commitChecks env w.col ops with error | staged
  · rw [checked] at ran
    cases ran
  rw [checked] at ran
  simp only at ran
  rcases applied : (txApplyAll env staged).run w with ⟨error | es, a'⟩
  · have stopped : (applyStaged env staged).locked.run w = (.error error, a') :=
      run_bind_error applied _
    rw [commitTxChecked, run_bind_error stopped] at ran
    cases ran
  · refine ⟨staged, es, a', rfl, applied, ?_⟩
    have written : (applyStaged env staged).run w = (do
        syncActive
        publishCommit es
        isFull : Proc N Bool).run a' := run_bind_ok applied _
    obtain ⟨w₁, made, fine₁, alike⟩ := (fine_of_txApplyAll fine applied).completes es written
    have whole : commitTxChecked env ops staged = (do
        (applyStaged env staged).locked >>= Collection.rotateIf
        if (txInserts ops).any fun op => op.id > 0 then persistMeta.attempt) := by
      rw [commitTxChecked, Proc.bind_assoc]
    rw [whole, run_bind_ok made] at ran
    split_ifs at ran
    · rw [Proc.run_attempt, run_persistMeta fine₁.calm] at ran
      cases ran
      exact alike.trans ⟨rfl, rfl, rfl, rfl, fun _ => rfl, fun _ => rfl⟩
    · cases ran
      exact alike

/-- The checks of a transaction leave its writes ready to be made in turn. -/
theorem ready_of_commitChecks {env : Env} {ops : List (TxOp N)}
    (checked : commitChecks env w.col ops = .ok staged) (order : InOrder ops) :
    Ready w ops ∧ txSeal w.col.enc env.seed ops = .ok staged := by
  rw [commitChecks] at checked
  rcases txTargetsExist_cases w.col ops with ⟨exist, targets⟩ | ⟨id, -, missing⟩
  · rw [exist] at checked
    rcases unique : txCheckUnique w.col ops with error | ⟨⟩
    · rw [unique] at checked
      cases checked
    rcases quota : txCheckQuota env w.col ops with error | ⟨⟩
    · rw [unique, quota] at checked
      cases checked
    rw [unique, quota] at checked
    refine ⟨⟨order, cleared_of_batch (List.Subset.refl _) unique, targets, ?_⟩, checked⟩
    rw [txCheckQuota] at quota
    split_ifs at quota with limited
    · exact .inr ((checkQuota_eq_ok_iff _ _ _).mp quota).1
    · rcases not_and_or.mp limited with unlimited | none?
      · refine .inr (.inl ?_)
        simp only [quotaEnabled, Bool.or_eq_true, decide_eq_true_eq] at unlimited
        omega
      · exact .inl (not_not.mp none?)
  · rw [missing] at checked
    cases checked

/-- A committed transaction, on a collection between calls, means its writes in
order exactly when they are orderly, leave the reserved field alone, and every
insert in its turn stays within the quota of bytes. -/
theorem commitTx_in_turn_iff (w : World N) (fine : Fine w) (env : Env) (ops : List (TxOp N))
    (w' : World N) (ran : (commitTx env ops).run w = (.ok (), w')) :
    (Orderly w ops ∧
        ∃ w'', (oneByOne env ops).run w = (.ok (), w'') ∧ SameRecords w' w'') ↔
      Orderly w ops ∧ Unreserved ops ∧
        RoomFor w.col.cfg (sizeBytes w.col) (commitLines env w.col ops) := by
  obtain ⟨staged, es, a', checked, applied, alike⟩ := applied_of_commitTx fine ran
  refine and_congr_right fun orderly => ?_
  obtain ⟨ready, sealed⟩ := ready_of_commitChecks checked orderly.inOrder
  have writes := map_fst_txSeal sealed
  obtain ⟨succeeds, only⟩ := oneByOne_of_txApplyAll sealed fine fine (.refl w) ready applied
  rw [Turns, writes] at succeeds only
  rw [commitLines, checked]
  constructor
  · rintro ⟨w'', each, -⟩
    exact only w'' each
  · intro turns
    obtain ⟨w'', each, -, same⟩ := succeeds turns
    exact ⟨w'', each, (alike.symm.trans same).sameRecords⟩

end Transactions

theorem fine_of_coherent {w : World N} {s : Segments N} (coherent : Coherent w s)
    (calm : w.fault = none) : Fine w where
  sound := sound_of_coherent coherent
  calm := calm
  only number present := by
    rw [coherent.allSegments_eq, ← Segments.map_fst_layout]
    exact coherent.disk.only number present

/-- A collection with one record. -/
def smallOne : World Int :=
  (Action.call stillEnv (.insert (some (oneField "n" 5)) none)).next small

theorem commitTx_in_turn_small :
    ∃ w', (commitTx stillEnv [⟨.update, 1, some (oneField "n" 6), stillEnv.ts⟩,
        ⟨.insert, 2, some (oneField "n" 7), stillEnv.ts⟩,
        ⟨.delete, 1, none, stillEnv.ts⟩]).run smallOne = (.ok (), w') ∧
      ∃ w'', (oneByOne stillEnv [⟨.update, 1, some (oneField "n" 6), stillEnv.ts⟩,
        ⟨.insert, 2, some (oneField "n" 7), stillEnv.ts⟩,
        ⟨.delete, 1, none, stillEnv.ts⟩]).run smallOne = (.ok (), w'') ∧ SameRecords w' w'' := by
  obtain ⟨ops, batch⟩ : ∃ ops : List (TxOp Int), ops =
      [⟨.update, 1, some (oneField "n" 6), stillEnv.ts⟩,
        ⟨.insert, 2, some (oneField "n" 7), stillEnv.ts⟩,
        ⟨.delete, 1, none, stillEnv.ts⟩] := ⟨_, rfl⟩
  have unencrypted : ∀ policy ∈ (none : Option (Encryptor Int)), Lawful policy :=
    nofun
  have keep : Admissible small (.insert (some (oneField "n" 5)) none) := .inl (by decide)
  obtain ⟨s, store, amid, -⟩ :=
    Amid.call (amid_fresh smallConfig .asWritten unencrypted).1 stillEnv keep
  have committed : ((commitTx stillEnv ops).run smallOne).1 = .ok () := by
    rw [batch]
    decide +kernel
  have unlimited : smallOne.col.cfg.maxBytes = 0 := by decide +kernel
  have room (size : Nat) (es : List (Entry Int)) : RoomFor smallOne.col.cfg size es := by
    induction es generalizing size with
    | nil => trivial
    | cons e es ih => exact ⟨fun _ => .inl unlimited, ih _⟩
  have orderly : Orderly smallOne ops := by
    refine ⟨?_, ?_, ?_⟩
    · rw [batch]
      unfold InOrder
      decide
    · have absent : smallOne.col.index.lookup 2 = none := by decide +kernel
      rw [batch]
      intro op member insert?
      fin_cases member
      · cases insert?
      · exact absent
      · cases insert?
    · rw [batch]
      decide
  have unreserved : Unreserved ops := by
    rw [batch]
    unfold Unreserved
    decide
  rw [← batch]
  refine ⟨_, Prod.ext committed rfl, ?_⟩
  exact ((commitTx_in_turn_iff smallOne (fine_of_coherent amid.coherent amid.calm) stillEnv ops _
    (Prod.ext committed rfl)).mpr ⟨orderly, unreserved, room _ _⟩).2

/-- A transaction that deletes a record and then updates it commits, and the
record is there again, but the update by itself would not have been accepted. -/
theorem commitTx_updates_deleted :
    ((commitTx stillEnv [⟨.delete, 1, none, stillEnv.ts⟩,
        ⟨.update, 1, some (oneField "n" 6), stillEnv.ts⟩]).run smallOne).1 = .ok () ∧
      ((oneByOne stillEnv [⟨.delete, 1, none, stillEnv.ts⟩,
        ⟨.update, 1, some (oneField "n" 6), stillEnv.ts⟩]).run smallOne).1 =
          .error (.notFound 1) := by
  constructor
  · decide +kernel
  · decide +kernel

end Scriva.Engine.InTurn
