import Scriva.Engine.Turns
import Scriva.Engine.InTurn
import Scriva.Engine.Policies

/-!
# Quotas

A collection may be limited in its records and in the bytes of its segments.  The
limits are checked in the critical sections that create records, before anything
is appended: against the length of the primary index, and against the sizes of
the segments with the lines that are to come.

The lines to come are measured as they are handed in.  An insert and a batch are
sealed before that; a keyed write and a transaction are measured in the clear and
sealed afterwards, so that what is appended may be longer.
-/

namespace Scriva.Engine.Quotas

open Lib.Fallible Lib.Text Store.Record Store.Ndjson Segment PrimaryIndex Directory
open Engine.Collection Compactor Machine LoadJsonl Coherence Outcome Interleaving Engine.Turns
open Writing (afterReserve)
open Calls (checkQuota_eq_ok_iff checkQuota_cases sidxCheckUnique_cases id_of_sealed
  run_reserveID)
open Batches (txTargetsExist_cases planned_checkFrom)
open Plans (Planned)
open Uniqueness (Faulty fails_putEntry fails_putAll fails_txApplyAll fails_finish
  fails_syncActive)
open Engine.InTurn (map_fst_txSeal txSeal_cons)

variable {N : Type}

/-! ## Ids at every turn -/

/-- A condition on the configuration and the ids in the index. -/
def On (kept : Config → Finset Nat → Prop) (w : World N) : Prop :=
  kept w.col.cfg w.col.index.keys

instance (kept : Config → Finset Nat → Prop) : Indexless (On kept : World N → Prop) :=
  .of_col (fun c => kept c.cfg c.index.keys) fun _ _ holds => holds

instance (kept : Config → Finset Nat → Prop) : Lenient (On kept : World N → Prop) where
  same holds aside _ := by
    rw [On, aside.cfg, aside.index]
    exact holds

/-- The ids are among the given ones. -/
def Among (cfg : Config) (ids : Finset Nat) (cfg' : Config) (keys : Finset Nat) : Prop :=
  cfg' = cfg ∧ keys ⊆ ids

/-- The number of records is within the limit. -/
def Budget (cfg : Config) (cfg' : Config) (keys : Finset Nat) : Prop :=
  cfg' = cfg ∧ (cfg.maxRecords = 0 ∨ keys.card ≤ cfg.maxRecords)

variable {e : Entry N}

section Ids

variable {kept : Config → Finset Nat → Prop} {cfg : Config} {ids : Finset Nat}

variable [JsonNumber N]

theorem entries_among : Entries (· ∈ ids) (On (Among cfg ids) : World N → Prop) where
  known holds found := holds.2 (Finmap.mem_keys.mpr (Finmap.mem_of_lookup_eq_some found))
  set e _ inside holds := by
    refine ⟨holds.1, fun id member => ?_⟩
    rw [Finmap.mem_keys] at member
    rcases Finmap.mem_insert.mp member with rfl | before
    · exact inside
    · exact holds.2 (Finmap.mem_keys.mpr before)
  follow _ _ _ holds := holds
  drop id holds := by
    refine ⟨holds.1, fun other member => holds.2 ?_⟩
    change other ∈ (Finmap.erase id _).keys at member
    rw [Finmap.keys_erase] at member
    exact Finset.mem_of_mem_erase member
  unfollow _ holds := holds

end Ids

/-! ## The critical sections -/

variable {c : Collection N} {env : Env} {staged : List (TxOp N × Option (Data N))}

section Sections

variable [JsonNumber N] {cfg : Config} {w : World N}

variable {α : Type} {p : Proc N α} {loc : IndexEntry}

section

omit [JsonNumber N]

/-- A section that puts no more ids than there is room for. -/
theorem budget_run (holds : On (Budget cfg) w) (ids : Finset Nat)
    (guarded : Guards (On (Among cfg (w.col.index.keys ∪ ids))) p)
    (room : cfg.maxRecords = 0 ∨ w.col.index.keys.card + ids.card ≤ cfg.maxRecords) :
    On (Budget cfg) (p.run w).2 := by
  obtain ⟨same, inside⟩ := guarded.run (w := w) ⟨holds.1, Finset.subset_union_left⟩
  refine ⟨same, room.imp_right fun fits => ?_⟩
  exact (Finset.card_le_card inside).trans ((Finset.card_union_le _ _).trans fits)

/-- A section that puts ids that are there already. -/
theorem budget_steady (holds : On (Budget cfg) w)
    (guarded : Guards (On (Among cfg w.col.index.keys)) p) : On (Budget cfg) (p.run w).2 := by
  refine budget_run holds ∅ ?_ ?_
  · rw [Finset.union_empty]
    exact guarded
  · rw [Finset.card_empty, Nat.add_zero]
    exact holds.2

/-- A section that asks for room before it puts new ids. -/
theorem budget_checked {p : Unit → Proc N α} (holds : On (Budget cfg) w) (ids : Finset Nat)
    {records bytes : Nat} (few : ids.card ≤ records)
    (guarded : Guards (On (Among cfg (w.col.index.keys ∪ ids))) (p ())) :
    On (Budget cfg) ((Proc.check (checkQuota w.col records bytes) >>= p).run w).2 := by
  rcases checkQuota_cases w.col records bytes with fits | exhausted
  · rw [fits]
    refine budget_run holds ids guarded ?_
    have room := ((checkQuota_eq_ok_iff _ _ _).mp fits).1
    rw [holds.1] at room
    exact room.imp_right fun fits => (Nat.add_le_add_left few _).trans fits
  · rw [exhausted]
    exact holds

theorem mem_keys_of_lookup {id : Nat} (found : c.index.lookup id = some loc) : id ∈ c.index.keys :=
  Finmap.mem_keys.mpr (Finmap.mem_of_lookup_eq_some found)

end

/-- The ids of the inserts of a batch. -/
def insertedIds (ops : List (TxOp N)) : Finset Nat :=
  ((txInserts ops).map TxOp.id).toFinset

omit [JsonNumber N] in
theorem card_insertedIds_le (ops : List (TxOp N)) :
    (insertedIds ops).card ≤ (txInserts ops).length := by
  refine (List.toFinset_card_le _).trans ?_
  rw [List.length_map]

theorem budget_commitTx (holds : On (Budget cfg) w) (env : Env) (ops : List (TxOp N)) :
    On (Budget cfg) ((commitTxLocked env ops).run w).2 := by
  rw [commitTxLocked, Proc.run_bind_ok (Proc.run_read _ w)]
  rcases txTargetsExist_cases w.col ops with ⟨exist, targets⟩ | ⟨id, -, missing⟩
  · rw [exist, Proc.run_bind_ok (Proc.run_check _ w)]
    rcases unique : txCheckUnique w.col ops with error | ⟨⟩
    · exact holds
    rw [Proc.run_bind_ok (Proc.run_check _ w)]
    rcases staging : txSeal w.col.enc env.seed ops with error | staged
    · rcases txCheckQuota env w.col ops with error | ⟨⟩
      · exact holds
      · exact holds
    have known : ∀ op ∈ staged.map Prod.fst, op.kind ≠ .delete →
        op.id ∈ w.col.index.keys ∪ insertedIds ops := by
      rw [map_fst_txSeal staging]
      intro op member put
      by_cases new : op.kind = .insert
      · refine Finset.mem_union_right _ (List.mem_toFinset.mpr (List.mem_map_of_mem ?_))
        exact List.mem_filter.mpr ⟨member, decide_eq_true new⟩
      · refine Finset.mem_union_left _ ?_
        obtain ⟨loc, found⟩ := Option.isSome_iff_exists.mp (targets op member new)
        exact mem_keys_of_lookup found
    have applied : Guards (On (Among cfg (w.col.index.keys ∪ insertedIds ops))) (do
        let committed ← txApplyAll env staged
        syncActive
        publishCommit committed
        isFull : Proc N Bool) :=
      (entries_among.txApplyAll known).bind fun _ => guards_commit guards_isFull
    rw [txCheckQuota]
    split_ifs with limited
    · exact budget_checked holds (insertedIds ops) (card_insertedIds_le ops) applied
    · refine budget_run holds (insertedIds ops) applied ?_
      rcases not_and_or.mp limited with unlimited | none?
      · left
        simp only [quotaEnabled, Bool.or_eq_true, decide_eq_true_eq] at unlimited
        rw [← holds.1]
        omega
      · rw [insertedIds, not_not.mp none?, List.map_nil, List.toFinset_nil, Finset.card_empty,
          Nat.add_zero]
        exact holds.2
  · rw [missing]
    exact holds

theorem budget_upsert (holds : On (Budget cfg) w) (env : Env) (key : String)
    (stamped : Data N) : On (Budget cfg) ((upsertLocked env key stamped).run w).2 := by
  rw [upsertLocked, Proc.run_bind_ok (Proc.run_read _ w)]
  rcases found : carrying env w.col key with - | ⟨id, cur⟩
  · have held : On (Budget cfg) (afterReserve w) := holds
    rw [writeKeyLocked, insertKeyLocked, Proc.bind_assoc, Proc.run_bind_ok (run_reserveID w),
      Proc.bind_assoc, Proc.run_bind_ok (Proc.run_read _ _), Proc.bind_assoc]
    refine budget_checked held {w.col.idSeq + 1} (Finset.card_singleton _).le ?_
    refine Guards.bind ((guards_done _).bind fun _ => entries_among.putSealed ?_ _ _) fun _ =>
      guards_commit (guards_isFull.bind fun _ => guards_done _)
    exact Finset.mem_union_right _ (Finset.mem_singleton_self _)
  · have inside : id ∈ w.col.index.keys := entries_among.carried ⟨holds.1, subset_rfl⟩ found
    exact budget_steady holds ((entries_among.replaceLocked inside _ _ _).bind
      fun _ => guards_commit (guards_isFull.bind fun _ => guards_done _))

theorem budget_insertMany (holds : On (Budget cfg) w) (ts : Utc)
    (built : List (Entry N × Option (Data N))) :
    On (Budget cfg) ((insertManyLocked ts built).run w).2 := by
  rw [insertManyLocked, Proc.run_bind_ok (Proc.run_read _ w)]
  refine budget_checked holds (built.map fun entry => entry.1.id).toFinset ?_
    ((guards_done _).bind fun _ => (entries_among.putAll fun entry member => ?_).bind fun _ =>
      guards_commit guards_isFull)
  · refine (List.toFinset_card_le _).trans ?_
    rw [List.length_map]
  · refine Finset.mem_union_right _ (List.mem_toFinset.mpr ?_)
    exact List.mem_map_of_mem member

theorem budget_insert (holds : On (Budget cfg) w) (e : Entry N) (data : Option (Data N)) :
    On (Budget cfg) ((insertLocked e data).run w).2 := by
  rw [insertLocked, Proc.run_bind_ok (Proc.run_read _ w)]
  refine budget_checked holds {e.id} (Finset.card_singleton _).le ((guards_done _).bind fun _ =>
    (entries_among.put ?_ _ _).bind fun _ => guards_commit guards_isFull)
  exact Finset.mem_union_right _ (Finset.mem_singleton_self _)

/-- Every critical section keeps the number of records within the limit. -/
theorem sections_budget (cfg : Config) : Sections (On (Budget cfg) : World N → Prop) where
  insert e data _ holds := ⟨budget_insert holds e data, trivial⟩
  insertMany ts built _ holds := ⟨budget_insertMany holds ts built, trivial⟩
  update e data expiresAt _ holds :=
    ⟨budget_steady holds (entries_among.updateLocked e data expiresAt), trivial⟩
  delete env id _ holds :=
    ⟨budget_steady (p := Collection.delete env id) holds (entries_among.deleteRecord env id), trivial⟩
  upsert env key stamped _ holds := ⟨budget_upsert holds env key stamped, trivial⟩
  swap env key data test _ holds :=
    ⟨budget_steady holds (entries_among.compareAndSwapLocked env key data test), trivial⟩
  commit env ops _ holds := ⟨budget_commitTx holds env ops, trivial⟩
  reap env ids _ holds := ⟨budget_steady holds (entries_among.reapLocked env ids), trivial⟩
  index := guards_ensureIndex

end Sections

/-! ## Bytes -/

variable {β : Type} {committed : List (Entry N)} {rest : Proc N β}

section Bytes

variable [JsonNumber N] {w : World N}

/-- The length of the line of an entry, zero if it has none. -/
def lineLength (e : Entry N) : Nat :=
  ((encode e).map List.length).getD 0

def linesLength (es : List (Entry N)) : Nat :=
  (es.map lineLength).sum

theorem lineLength_eq {bytes : Bytes} (accepted : appendBytes e = .ok bytes) :
    lineLength e = bytes.length := by
  unfold appendBytes at accepted
  split at accepted
  · cases accepted
  · rename_i line encoded
    split_ifs at accepted
    rw [lineLength, encoded, ← Except.ok.inj accepted]
    rfl

/-- The segments have grown by so many bytes, under the same configuration and
policy. -/
structure Grown (c : Collection N) (bytes : Nat) (c' : Collection N) : Prop where
  size : sizeBytes c' = sizeBytes c + bytes
  cfg : c'.cfg = c.cfg
  enc : c'.enc = c.enc

omit [JsonNumber N] in
theorem Grown.trans {a b : Collection N} {first second : Nat} (one : Grown a first b)
    (two : Grown b second c) : Grown a (first + second) c :=
  ⟨by rw [two.size, one.size, Nat.add_assoc], two.cfg.trans one.cfg, two.enc.trans one.enc⟩

theorem yields_putEntry (e : Entry N) (plain : Option (Data N)) (follow : Follow) :
    Yields (putEntry e plain follow) w fun _ w' => Grown w.col (lineLength e) w'.col := by
  have indexed {w₁ : World N} (grown : Grown w.col (lineLength e) w₁.col) (offset : Nat) :
      Yields (do
        Proc.modify (setEntry e offset)
        Proc.modify (followEntry e.id plain follow)) w₁ fun _ w' =>
          Grown w.col (lineLength e) w'.col := by
    rintro value w' ⟨⟩
    exact ⟨grown.size, grown.cfg, grown.enc⟩
  have appended : Yields (appendActive e) w fun _ w' => Grown w.col (lineLength e) w'.col := by
    refine yields_check fun bytes accepted => yields_read ?_
    have written : appendBytes e = .ok bytes := by
      rcases result : appendBytes e with reason | line
      · rw [result] at accepted
        cases accepted
      · rw [result] at accepted
        rw [Except.ok.inj accepted]
    have larger {w₁ : World N} (same : w₁.col = w.col) :
        Yields (do
          Proc.modify fun c =>
            { c with active := { c.active with size := c.active.size + bytes.length } }
          return w.col.active.size : Proc N Nat) w₁ fun _ w' =>
            Grown w.col (lineLength e) w'.col := by
      refine yields_modify (yields_pure ⟨?_, ?_, ?_⟩)
      · rw [lineLength_eq written, same, sizeBytes, sizeBytes, Nat.add_assoc]
      · rw [same]
      · rw [same]
    split_ifs
    · exact yields_access fun fault => larger rfl
    · exact yields_perform fun fault => larger rfl
  exact appended.bind fun offset w₁ grown => indexed grown offset

theorem yields_putAll (built : List (Entry N × Option (Data N))) :
    Yields (putAll built) w fun _ w' =>
      Grown w.col (linesLength (built.map Prod.fst)) w'.col := by
  induction built generalizing w with
  | nil => exact yields_pure ⟨rfl, rfl, rfl⟩
  | cons first rest ih =>
    refine (yields_putEntry first.1 first.2 .index).bind fun _ w₁ grown => ?_
    exact ih.imp fun _ w₂ later => grown.trans later

/-- The entries of inserts depend on nothing that the inserts change. -/
theorem yields_txApplyAll (inserts : ∀ op ∈ staged.map Prod.fst, op.kind = .insert) :
    Yields (txApplyAll env staged) w fun _ w' =>
      Grown w.col (linesLength (staged.map fun op => txEntry env w.col op.1 op.2)) w'.col := by
  induction staged generalizing w with
  | nil => exact yields_pure ⟨rfl, rfl, rfl⟩
  | cons first rest ih =>
    obtain ⟨op, stored⟩ := first
    have new : op.kind = .insert := inserts op (.head _)
    have applied : Yields (txApply env op stored) w fun _ w' =>
        Grown w.col (lineLength (txEntry env w.col op stored)) w'.col := by
      refine yields_read ?_
      have put := yields_putEntry (w := w) (txEntry env w.col op stored) op.data .index
      have written : txWrite op (txEntry env w.col op stored) =
          putEntry (txEntry env w.col op stored) op.data .index := by
        rw [txWrite, new]
      rw [written]
      exact put.bind fun _ w₁ grown => yields_pure grown
    refine applied.bind fun _ w₁ grown => ?_
    have same : (rest.map fun op => txEntry env w₁.col op.1 op.2) =
        rest.map fun op => txEntry env w.col op.1 op.2 := by
      refine List.map_congr_left fun other member => ?_
      have insert? := inserts other.1
        (.tail _ (List.mem_map_of_mem member))
      simp only [txEntry, insert?, grown.cfg, grown.enc]
    have later := ih (w := w₁) fun op member => inserts op (.tail _ member)
    refine later.bind fun _ w₂ rest' => yields_pure ?_
    rw [same] at rest'
    exact grown.trans rest'

end Bytes

/-! ## Creating records -/

/-- The critical section of a call that may create records. -/
inductive Creation (N : Type) where
  /-- An entry in its stored form, and its data before that. -/
  | insert (e : Entry N) (plain : Option (Data N))
  | insertMany (ts : Utc) (built : List (Entry N × Option (Data N)))
  | upsert (env : Env) (key : String) (stamped : Data N)
  | commitTx (env : Env) (ops : List (TxOp N))

namespace Creation

/-- The entry of a new record as it is before sealing. -/
def plainEntry (env : Env) (cfg : Config) (id : Nat) (data : Option (Data N)) (ts : Utc) :
    Entry N :=
  { newInsert id data ts with rev := 1, expiresAt := resolveInsertExpiry cfg env.now none }

/-- The entries as they are measured. -/
def measured (c : Collection N) : Creation N → List (Entry N)
  | .insert e _ => [e]
  | .insertMany _ built => built.map Prod.fst
  | .upsert env _ stamped => [plainEntry env c.cfg (c.idSeq + 1) (some stamped) env.ts]
  | .commitTx env ops => ops.map fun op => plainEntry env c.cfg op.id op.data op.ts

/-- The entries as they are appended. -/
def stored (c : Collection N) : Creation N → Except Error (List (Entry N))
  | .insert e _ => .ok [e]
  | .insertMany _ built => .ok (built.map Prod.fst)
  | .upsert env _ stamped =>
    (sealEntryData c.enc env.seed
      (plainEntry env c.cfg (c.idSeq + 1) (some stamped) env.ts)).map ([·])
  | .commitTx env ops =>
    (txSeal c.enc env.seed ops).map fun staged =>
      staged.map fun op => txEntry env c op.1 op.2

/-- The entries are measured as they are appended: an insert and a batch are sealed
before, and any section is if there is no encryption. -/
def Plain (c : Collection N) : Creation N → Prop
  | .insert _ _ | .insertMany _ _ => True
  | .upsert _ _ _ | .commitTx _ _ => c.enc = none

variable [JsonNumber N]

def proc : Creation N → Proc N Unit
  | .insert e plain => do
    let _ ← (insertLocked e plain).locked
    return ()
  | .insertMany ts built => do
    let _ ← (insertManyLocked ts built).locked
    return ()
  | .upsert env key stamped => do
    let _ ← (upsertLocked env key stamped).locked
    return ()
  | .commitTx env ops => do
    let _ ← (commitTxLocked env ops).locked
    return ()

/-- The measured entries are within the limits. -/
def Fitting (c : Collection N) (creation : Creation N) : Prop :=
  (c.cfg.maxRecords = 0 ∨
      c.index.keys.card + (creation.measured c).length ≤ c.cfg.maxRecords) ∧
    (c.cfg.maxBytes = 0 ∨
      (sizeBytes c + linesLength (creation.measured c) : Nat) ≤ byteLimit c.cfg)

end Creation

section Created

variable [JsonNumber N] {w : World N}

variable {ops : List (TxOp N)} {creation : Creation N} {lines : List (Entry N)}

/-- Errors other than an exhausted quota. -/
def Afforded (e : Error) : Prop :=
  e ≠ .resourceExhausted

instance : Faulty Afforded where
  io := nofun
  append _ := nofun

variable {α : Type} {error : Error} {bytes : Nat}

/-- A procedure that appends lines of so many bytes, or fails for another reason
than its quota. -/
def Appends (c : Collection N) (bytes : Nat) (p : Proc N α) (w : World N) : Prop :=
  Ends p w (fun _ w' => Grown c bytes w'.col) fun e _ => Afforded e

/-- A creation that is accepted has been found to be within the limits, and the
segments have grown by its stored entries; one that is refused for its quota has
been found to be beyond a limit. -/
def Settles (creation : Creation N) (c : Collection N) (bytes : Nat) (p : Proc N α)
    (w : World N) : Prop :=
  Ends p w (fun _ w' => creation.Fitting c ∧ Grown c bytes w'.col)
    fun e _ => e = .resourceExhausted → ¬creation.Fitting c

theorem Appends.settles {p : Proc N α} (appends : Appends c bytes p w)
    (fits : creation.Fitting c) : Settles creation c bytes p w :=
  appends.imp (fun _ _ grown => ⟨fits, grown⟩) fun _ _ afforded exhausted =>
    absurd exhausted afforded

end Created

/-! ## Runs -/

/-- The records that a read finds at a time. -/
def visible (now : Int) (c : Collection N) : Finset Nat :=
  c.index.keys.filter fun id =>
    (c.index.lookup id).any fun loc => !expired loc.expiresAt now

variable [JsonNumber N]

/-- A collection and the requests under way in it. -/
abbrev Scene (N : Type) := World N × List (Proc N Reply)

inductive Step : Scene N → Scene N → Prop where
  | ask (w : World N) (procs : List (Proc N Reply)) (env : Env) (asked : Request N) :
      Step (w, procs) (w, procs ++ [asked.proc env])
  | turn {scene scene' : Scene N} (taken : Turn scene scene') : Step scene scene'
  /-- Whatever else happens puts no id into the index: a pass of the compactor, a
  change of policy, an entry of the leader for a record that is there. -/
  | aside {w w' : World N} (procs : List (Proc N Reply)) (cfg : w'.col.cfg = w.col.cfg)
      (ids : w'.col.index.keys ⊆ w.col.index.keys) : Step (w, procs) (w', procs)

/-- The records are within the limit, and what is under way leaves it so. -/
structure Budgeted (cfg : Config) (scene : Scene N) : Prop where
  now : On (Budget cfg) scene.1
  later : ∀ p ∈ scene.2, Guards (On (Budget cfg)) p

omit [JsonNumber N] in
theorem budget_shrink {cfg : Config} {w w' : World N} (within : On (Budget cfg) w)
    (same : w'.col.cfg = w.col.cfg) (ids : w'.col.index.keys ⊆ w.col.index.keys) :
    On (Budget cfg) w' := by
  obtain ⟨configured, few⟩ := within
  refine ⟨same.trans configured, ?_⟩
  rcases few with unlimited | few
  · exact .inl unlimited
  · exact .inr ((Finset.card_le_card ids).trans few)

theorem Budgeted.step {cfg : Config} {scene scene' : Scene N} (budgeted : Budgeted cfg scene)
    (step : Step scene scene') : Budgeted cfg scene' := by
  cases step with
  | ask w procs env asked =>
    refine ⟨budgeted.now, fun p member => ?_⟩
    rcases List.mem_append.mp member with before | new
    · exact budgeted.later p before
    · rw [List.mem_singleton.mp new]
      exact (sections_budget cfg).request env asked
  | turn taken =>
    obtain ⟨now, later⟩ := taken.guards budgeted.now budgeted.later
    exact ⟨now, later⟩
  | aside procs same ids => exact ⟨budget_shrink budgeted.now same ids, budgeted.later⟩

open Policies (sealing)
open Engine.Sequential (fresh stillEnv smallConfig oneField)

def limited (maxRecords maxBytes : Nat) : Config := { smallConfig with maxRecords, maxBytes }

/-- One record that fits. -/
def small : Creation Int := .insert (newInsert 1 (some (oneField "n" 5)) stillEnv.ts) none

end Scriva.Engine.Quotas
