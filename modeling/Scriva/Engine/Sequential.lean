import Scriva.Engine.Batches
import Scriva.Engine.Opening

/-!
# Runs of a collection

A collection is opened on an empty directory and used by one caller.  After
every call its primary index is what a rebuild from the segments gives, and a
read by id returns what the abstract store holds that the same calls have
driven.  A call changes the records it touches and no others.
-/

namespace Scriva.Engine.Sequential

open Store.Record PrimaryIndex Directory Engine.Collection Load Journal Coherence Writing Calls
open Machine Refinement Batches Opening

variable {N : Type} [JsonNumber N]

/-! ## Actions -/

/-- One action of a run: a call, or an id reserved for a staged insert. -/
inductive Action (N : Type) where
  | call (env : Env) (call : Call N)
  | reserve

def Action.proc : Action N → Proc N Reply
  | .call env made => made.proc env
  | .reserve => do
    let id ← reserveID
    return .id id

/-- The world after an action. -/
def Action.next (action : Action N) (w : World N) : World N :=
  (action.proc.run w).2

def Action.reply (action : Action N) (w : World N) : Except Error Reply :=
  (action.proc.run w).1

/-- Every call of a run is admissible where it is made. -/
def AdmissibleRun : World N → List (Action N) → Prop
  | _, [] => True
  | w, action :: rest =>
    (∀ env call, action = .call env call → Admissible w call) ∧
      AdmissibleRun (action.next w) rest

/-! ## Records that an action touches -/

/-- The records that a call may change, by its reply.  A batch of new records
that was cut short touches records that did not exist. -/
def touched (store : Store N) : Call N → Except Error Reply → Set Nat
  | .insert _ _, .ok (.id id) | .insertWithKey _ _, .ok (.id id)
  | .upsert _ _, .ok (.record id _) => {id}
  | .insertMany _ _, .ok (.ids ids) => {id | id ∈ ids}
  | .insertMany _ _, .error (.append _) => {id | store.stock id = none}
  | .update id _, .ok _ | .updateWithExpiry id _ _, .ok _ | .delete id, .ok _ => {id}
  | .updateIfRev key _ _, .ok (.swapped true)
  | .updateIfMatch key _ _, .ok (.swapped true) => {id | ∃ held, store.Carries key id held}
  | .commitTx ops, .ok _ | .commitTx ops, .error (.append _) => {id | ∃ op ∈ ops, op.id = id}
  | _, _ => ∅

section

omit [JsonNumber N]

theorem Stock.put_of_ne (stock : Stock N) {id other : Nat} (differs : other ≠ id)
    (held : Held N) : stock.put id held other = stock other :=
  Function.update_of_ne differs _ _

theorem Stock.apply_of_ne (deadline : Int) (stock : Stock N) (op : TxOp N) {id : Nat}
    (differs : id ≠ op.id) : stock.apply deadline op id = stock id := by
  unfold Stock.apply
  cases op.kind with
  | insert | update => exact Stock.put_of_ne stock differs _
  | delete => exact Function.update_of_ne differs _ _

/-- A batch changes the records of its writes only. -/
theorem Stock.applyAll_of_ne (deadline : Int) (stock : Stock N) {ops : List (TxOp N)}
    {id : Nat} (differs : ∀ op ∈ ops, op.id ≠ id) :
    stock.applyAll deadline ops id = stock id := by
  induction ops generalizing stock with
  | nil => rfl
  | cons op ops ih =>
    have first := differs op (.head _)
    have later := ih (stock.apply deadline op) fun other member =>
      differs other (.tail _ member)
    exact later.trans (Stock.apply_of_ne deadline stock op (Ne.symm first))

theorem id_of_mem_insertOps {ts : Utc} {ids : List Nat} {records : List (Option (Data N))}
    {op : TxOp N} (member : op ∈ insertOps ts ids records) : op.id ∈ ids := by
  obtain ⟨i, inside, same⟩ := List.mem_iff_getElem.mp member
  simp only [insertOps, List.getElem_zipWith] at same
  subst same
  exact List.getElem_mem _

end

variable {store store' : Store N} {data : Option (Data N)} {enc : Option (Encryptor N)}
  {w : World N} {s : Segments N}

theorem stock_of_inserts {deadline : Int} {id other : Nat}
    (inserts : Inserts store data deadline id store') (differs : other ≠ id) :
    store'.stock other = store.stock other := by
  cases inserts with
  | mk => exact Stock.put_of_ne store.stock differs _

theorem stock_of_replaces {deadline : Int → Int} {id rev other : Nat}
    (replaces : Replaces store id data deadline rev store') (differs : other ≠ id) :
    store'.stock other = store.stock other := by
  cases replaces with
  | mk => exact Stock.put_of_ne store.stock differs _

/-- A call leaves the records alone that it does not touch. -/
theorem untouched {cfg : Config} {env : Env} {call : Call N} {reply : Except Error Reply}
    (performs : Performs cfg enc env store call reply store') {id : Nat}
    (aside : id ∉ touched store call reply) : store'.stock id = store.stock id := by
  cases performs with
  | insert inserts => exact stock_of_inserts inserts aside
  | insertMany =>
    refine Stock.applyAll_of_ne _ _ ?_
    rintro op member rfl
    exact aside (id_of_mem_insertOps member)
  | insertManyCut stored each distinct absent =>
    refine Stock.applyAll_of_ne _ _ ?_
    rintro op member rfl
    exact aside (absent _ (id_of_mem_insertOps (List.mem_of_mem_take member)))
  | update replaces => exact stock_of_replaces replaces aside
  | updateWithExpiry replaces => exact stock_of_replaces replaces aside
  | delete => exact Function.update_of_ne aside _ _
  | insertWithKey inserts =>
    rw [stock_of_inserts inserts aside, stock_ensure]
  | upsertNew unused inserts =>
    rw [stock_of_inserts inserts aside, stock_ensure]
  | upsertOld carries replaces =>
    rw [stock_of_replaces replaces aside, stock_ensure]
  | updateIfRev carries expected replaces =>
    refine stock_of_replaces replaces ?_
    rintro rfl
    exact aside ⟨_, carries⟩
  | updateIfMatch carries expected replaces =>
    refine stock_of_replaces replaces ?_
    rintro rfl
    exact aside ⟨_, carries⟩
  | commitTx =>
    refine Stock.applyAll_of_ne _ _ ?_
    intro op member same
    exact aside ⟨op, member, same⟩
  | commitTxCut =>
    refine Stock.applyAll_of_ne _ _ ?_
    intro op member same
    exact aside ⟨op, List.mem_of_mem_take member, same⟩
  | ensureIndex | ensureIndexUnwritten | refusedKeyed => rw [stock_ensure]
  | updateMissing | updateWithExpiryMissing | deleteMissing | updateIfRevKeeps
  | updateIfMatchKeeps | commitTxMissing | rotateSegment | refused => rfl

/-! ## What a run shows -/

/-- The data and revision of a record that is shown at some time. -/
def shown (stock : Stock N) (now : Int) (id : Nat) : Option (Option (Data N) × Nat) :=
  (stock id).bind fun held =>
    if expired held.deadline now then none else some (held.data, held.rev)

/-- The primary index is what the segments give, and reads return the store. -/
structure Agrees (w : World N) (store : Store N) : Prop where
  rebuilt : rebuild N w.disk.segment (allSegments w.col) = some w.col.index
  reads : ∀ now id, (get w now id).toOption.map (fun record => (record.data, record.rev)) =
    shown store.stock now id

/-- The store that the actions of a run drive is what the collection shows
before and after each of them, and an action changes what it touches only. -/
inductive Follows (cfg : Config) (enc : Option (Encryptor N)) :
    World N → Store N → List (Action N) → Prop where
  | nil {w : World N} {store : Store N} (agrees : Agrees w store) :
      Follows cfg enc w store []
  | call {w : World N} {store store' : Store N} {env : Env} {call : Call N}
      {actions : List (Action N)} (agrees : Agrees w store)
      (performs : Performs cfg enc env store call ((Action.call env call).reply w) store')
      (others : ∀ id, id ∉ touched store call ((Action.call env call).reply w) →
        store'.stock id = store.stock id)
      (later : Follows cfg enc ((Action.call env call).next w) store' actions) :
      Follows cfg enc w store (.call env call :: actions)
  | reserve {w : World N} {store : Store N} {id : Nat} {actions : List (Action N)}
      (agrees : Agrees w store) (reply : (Action.reserve : Action N).reply w = .ok (.id id))
      (unused : store.stock id = none)
      (later : Follows cfg enc ((Action.reserve : Action N).next w) store actions) :
      Follows cfg enc w store (.reserve :: actions)

theorem agrees_of_amid (amid : Amid w s store) : Agrees w store where
  rebuilt := amid.coherent.rebuild_eq
  reads := by
    intro now id
    rw [amid.coherent.get_eq, shown]
    rcases found : store.stock id with - | held
    · rw [amid.describes.stocked.absent_iff.mpr found]
      rfl
    · obtain ⟨e, alive, shows⟩ := amid.describes.stocked.of_stock found
      simp only [alive, shows.deadline, shows.stored.opens, shows.rev, Option.bind_some]
      split_ifs
      · rfl
      · rfl

/-- One call of a run. -/
theorem Amid.call (amid : Amid w s store) (env : Env) {call : Call N}
    (admissible : Admissible w call) :
    ∃ s' store', Amid ((Action.call env call).next w) s' store' ∧
      Performs w.col.cfg w.col.enc env store call ((Action.call env call).reply w) store' ∧
      Frame w ((Action.call env call).next w) := by
  obtain ⟨es, store', steps, performs, stocked, indexes⟩ :=
    call_refines amid.coherent amid.calm amid.governed amid.describes admissible
  obtain ⟨s', coherent, entries⟩ := amid.coherent.steps steps
  have frame := steps.frame
  refine ⟨s', store', ⟨coherent, frame.calm amid.calm, amid.governed.steps steps, ?_⟩,
    performs, frame⟩
  refine ⟨?_, indexes⟩
  change Stocked ((call.proc env).run w).2.col.enc _ _
  rw [frame.enc, entries, records_append]
  exact stocked

theorem Amid.reserve (amid : Amid w s store) : Amid (afterReserve w) s store :=
  ⟨amid.coherent.reserve, amid.calm, amid.governed.congr rfl rfl,
    ⟨amid.describes.stocked, amid.describes.indexes⟩⟩

/-- A run from a coherent collection follows the store that describes it. -/
theorem follows_of_amid (amid : Amid w s store) {actions : List (Action N)}
    (admissible : AdmissibleRun w actions) : Follows w.col.cfg w.col.enc w store actions := by
  induction actions generalizing w s store with
  | nil => exact .nil (agrees_of_amid amid)
  | cons action actions ih =>
    obtain ⟨first, rest⟩ := admissible
    cases action with
    | call env call =>
      obtain ⟨s', store', amid', performs, frame⟩ :=
        Amid.call amid env (first env call rfl)
      have later := ih amid' rest
      rw [frame.cfg, frame.enc] at later
      exact .call (agrees_of_amid amid) performs (fun _ => untouched performs) later
    | reserve =>
      have unused : store.stock (w.col.idSeq + 1) = none :=
        absent_of_unreserved amid.coherent amid.describes (Nat.lt_succ_self _)
      exact .reserve (agrees_of_amid amid) rfl unused
        (ih (Amid.reserve amid) rest)

/-! ## A new collection -/

/-- A store without records and indexes. -/
def Store.empty : Store N := ⟨fun _ => none, []⟩

/-- A collection opened on an empty directory. -/
def fresh (cfg : Config) (enc : Option (Encryptor N)) (order : RenameOrder) : World N :=
  (openCollection cfg enc order Disk.empty).2

theorem amid_fresh (cfg : Config) (order : RenameOrder) (lawful : ∀ policy ∈ enc, Lawful policy) :
    Amid (fresh cfg enc order) (firstSegment N) Store.empty ∧
      (fresh cfg enc order).col.cfg = cfg ∧ (fresh cfg enc order).col.enc = enc := by
  obtain ⟨w, ran, reopened⟩ : ∃ w, openCollection cfg enc order Disk.empty = (.ok (), w) ∧
      Reopened cfg enc Disk.empty w (firstSegment N) [] :=
    open_empty order rfl (fun _ => rfl) rfl
  have same : fresh cfg enc order = w := by rw [fresh, ran]
  have unindexed : w.col.sidx = [] := by
    have none : sidxFiles Disk.empty = [] := by
      rw [List.eq_nil_iff_forall_not_mem]
      intro pair member
      rw [mem_sidxFiles] at member
      cases member
    have restored := reopened.sidx
    rw [none] at restored
    exact List.forall₂_nil_left_iff.mp restored
  rw [same]
  refine ⟨⟨?_, reopened.opened.calm, ⟨?_, ?_⟩, ⟨?_, ?_⟩⟩, reopened.cfg, reopened.enc⟩
  · exact Reopened.coherent reopened nofun recorded_nil
      nofun
  · rw [reopened.enc]
    exact lawful
  · rw [unindexed]
    exact nofun
  · exact stocked_empty
  · rw [indexFlags, unindexed]
    rfl

/-- Every run of a new collection without encryption follows the store that
its actions drive. -/
theorem run_follows_store (cfg : Config) (order : RenameOrder) (actions : List (Action N))
    (admissible : AdmissibleRun (fresh cfg none order) actions) :
    Follows cfg none (fresh cfg none order) Store.empty actions := by
  have unencrypted : ∀ policy ∈ (none : Option (Encryptor N)), Lawful policy :=
    nofun
  obtain ⟨amid, same, plain⟩ := amid_fresh cfg order unencrypted
  have follows := follows_of_amid amid admissible
  rwa [same, plain] at follows

/-- Surroundings at a fixed time. -/
def stillEnv : Env := ⟨0, ⟨.zero, rfl⟩, 0, .ascending⟩

def smallConfig : Config where
  segmentMaxSize := 64
  syncMode := .always
  defaultTTL := 0
  maxRecords := 0
  maxBytes := 0
  compactDirtyPct := 0

/-- A record with one field. -/
def oneField (field : String) (n : Int) : Data Int := ⟨[(field, .num n)], rfl⟩

theorem run_follows_store_small :
    Follows smallConfig none (fresh smallConfig none .asWritten) Store.empty
      [.call stillEnv (.insert (some (oneField "n" 5)) none), .reserve,
        .call stillEnv (.upsert "k" (some (oneField "n" 6))),
        .call stillEnv .rotateSegment, .call stillEnv (.delete 1)] := by
  refine run_follows_store smallConfig .asWritten _ ⟨?_, ?_, ?_, ?_, ?_, trivial⟩
  · rintro env call ⟨⟩
    exact .inl (by decide)
  · rintro env call ⟨⟩
  all_goals
    rintro env call ⟨⟩
    exact trivial

end Scriva.Engine.Sequential
