import Scriva.Engine.Atomicity
import Scriva.Engine.Reading
import Scriva.Engine.Turns

/-!
# Unique indexes

Accepted writes keep the keys of a unique index apart.  Nothing is assumed of
a collection but that its active file ends with a newline and its primary index
points into its segments: revisions, the id counter and the ids that a
transaction inserts under are arbitrary.  What a batch may do to the keys does
not depend on the order of its writes: after it a record has the key it had, or
none, or the one of a write of the batch under its id.
-/

namespace Scriva.Engine.Uniqueness

open Lib.Text Lib.Lines Lib.Keyed Store.Record Store.Ndjson Segment PrimaryIndex SecondaryIndex
open Directory Engine.Collection Machine Writing Calls Refinement LoadJsonl Coherence
open Engine.Sequential Atomicity Batches Outcome Reading Lib.Fallible

variable {N : Type} [JsonNumber N]

/-! ## Keys of records -/

/-- The key that a record has on a field.  Indexed fields are stored as they
are, so it is read off the stored line. -/
def keyAt (w : World N) (field : String) (id : Nat) : Option String :=
  (storedLine w id).bind fun e => indexKey field e.data

/-- No two records have the same key on a unique index of `indexes`. -/
def Distinct (indexes : List Sidx) (w : World N) : Prop :=
  ∀ t ∈ indexes, t.unique = true → ∀ id other key,
    keyAt w t.field id = some key → keyAt w t.field other = some key → id = other

/-- The unique indexes map a key to the records that have it. -/
def Tallies (w : World N) : Prop :=
  ∀ t ∈ w.col.sidx, t.unique = true → ∀ key id,
    id ∈ t.bucket key ↔ keyAt w t.field id = some key


/-! ## Writes within their claims -/

/-- After a batch, a record has the key it had, or none, or that of a write of
the batch under its id. -/
structure Within (w₀ : World N) (claims : List (Nat × Option (Data N))) (w : World N) :
    Prop where
  sound : Sound w
  enc : w.col.enc = w₀.col.enc
  holds : ∀ field, Exposed w₀.col.enc field → ∀ id,
    keyAt w field id = none ∨ keyAt w field id = keyAt w₀ field id ∨
      ∃ data, (id, data) ∈ claims ∧ keyAt w field id = indexKey field data

/-- The writes of a batch have passed the checks of the unique indexes. -/
def Cleared (indexes : List Sidx) (claims : List (Nat × Option (Data N))) : Prop :=
  ∀ t ∈ indexes, t.unique = true → ∀ id data, (id, data) ∈ claims → ∀ key,
    indexKey t.field data = some key → t.conflict key id = false ∧
      ∀ other data', (other, data') ∈ claims → indexKey t.field data' = some key → other = id

/-- Writes that have passed the checks keep the keys apart. -/
theorem Within.distinct {w₀ w : World N} {claims : List (Nat × Option (Data N))}
    (within : Within w₀ claims w) (cleared : Cleared w₀.col.sidx claims)
    (governed : Governed w₀.col) (tallies : Tallies w₀)
    (distinct : Distinct w₀.col.sidx w₀) : Distinct w₀.col.sidx w := by
  intro t member unique id other key mine theirs
  have exposed : Exposed w₀.col.enc t.field := fun policy active =>
    governed.plain policy active t.field (List.mem_map_of_mem member)
  -- a key that a write of the batch gives is with no other record before it
  have apart {id other : Nat} {data : Option (Data N)} (claim : (id, data) ∈ claims)
      (given : indexKey t.field data = some key) (old : keyAt w₀ t.field other = some key) :
      id = other := by
    have clear := (cleared t member unique id data claim key given).1
    rw [Sidx.conflict, decide_eq_false_iff_not] at clear
    by_contra differs
    exact clear ⟨other, (tallies t member unique key other).mpr old, Ne.symm differs⟩
  rcases within.holds t.field exposed id with gone | old | ⟨data, claim, given⟩
  · rw [gone] at mine
    cases mine
  · rcases within.holds t.field exposed other with gone | old' | ⟨data, claim, given⟩
    · rw [gone] at theirs
      cases theirs
    · exact distinct t member unique id other key (old ▸ mine) (old' ▸ theirs)
    · exact (apart claim (given ▸ theirs) (old ▸ mine)).symm
  · rcases within.holds t.field exposed other with gone | old | ⟨data', claim', given'⟩
    · rw [gone] at theirs
      cases theirs
    · exact apart claim (given ▸ mine) (old ▸ theirs)
    · exact ((cleared t member unique id data claim key (given ▸ mine)).2 other data' claim'
        (given' ▸ theirs)).symm

variable {e : Entry N} {plain : Option (Data N)}

section Within

variable {w₀ w w' : World N} {claims : List (Nat × Option (Data N))}

theorem within_of_still (still : Still w₀ w) (claims : List (Nat × Option (Data N))) :
    Within w₀ claims w where
  sound := still.sound
  enc := still.enc
  holds := by
    intro field _ id
    right
    left
    rw [keyAt, keyAt, still.lines]

theorem Within.still (within : Within w₀ claims w) (still : Still w w') :
    Within w₀ claims w' where
  sound := still.sound
  enc := still.enc.trans within.enc
  holds := by
    intro field exposed id
    have same : keyAt w' field id = keyAt w field id := by
      rw [keyAt, keyAt, still.lines]
    rw [same]
    exact within.holds field exposed id

omit [JsonNumber N] in
theorem field?_writtenData (data : Option (Data N)) (field : String) :
    field? (writtenData data) field = field? data field := by
  rcases data with - | data
  · rfl
  · rw [writtenData]
    split_ifs with empty
    · rw [field?, field?, Option.bind_none, Option.bind_some, Data.get,
        List.isEmpty_iff.mp empty]
      rfl
    · rfl

variable {bytes : Bytes}

theorem Within.marked {kept : Bool} {change : Sidx → Sidx} (within : Within w₀ claims w)
    (accepted : appendBytes e = .ok bytes) (marked : Marked w e bytes kept change w')
    (fault : Option (Nat × Nat))
    (claim : kept = true → (e.id, plain) ∈ claims ∧
      ∀ field, Exposed w₀.col.enc field → field? e.data field = field? plain field) :
    Within w₀ claims { w' with fault } := by
  obtain ⟨sound, others, here⟩ := within.sound.marked accepted marked
  refine Within.still ⟨sound, marked.steady.enc.trans within.enc, ?_⟩
    (.of_eq sound rfl rfl rfl rfl (List.Subset.refl _) rfl)
  intro field exposed id
  by_cases same : id = e.id
  · subst same
    rw [keyAt, here]
    split_ifs with written
    · obtain ⟨claim, stored⟩ := claim written
      rcases readAt_appendBytes accepted with written | unread
      · right
        right
        refine ⟨plain, claim, ?_⟩
        rw [written, Option.bind_some, indexKey, indexKey, ← stored field exposed]
        exact congrArg _ (field?_writtenData e.data field)
      · left
        rw [unread]
        rfl
    · exact .inl rfl
  · rw [keyAt, others id same]
    exact within.holds field exposed id

theorem Within.put (within : Within w₀ claims w) (follow : Follow) (claim : (e.id, plain) ∈ claims)
    (stored : ∀ field, Exposed w₀.col.enc field → field? e.data field = field? plain field)
    (accepted : appendBytes e = .ok bytes) (fault : Option (Nat × Nat)) :
    Within w₀ claims { afterPut w e plain follow bytes with fault } :=
  within.marked accepted (within.sound.marked_put e plain follow bytes) fault
    fun _ => ⟨claim, stored⟩

theorem Within.delete (within : Within w₀ claims w) (accepted : appendBytes e = .ok bytes)
    (fault : Option (Nat × Nat)) : Within w₀ claims { afterDelete w e bytes with fault } :=
  @Within.marked _ _ e none _ _ _ _ _ _ _ within accepted (within.sound.marked_delete e bytes) fault
    nofun

end Within

/-! ## Checks -/

variable {ops : List (TxOp N)}

section Checks

variable {indexes : List Sidx} {c : Collection N}

theorem cleared_nil (indexes : List Sidx) :
    Cleared indexes ([] : List (Nat × Option (Data N))) := by
  intro t _ _ id data claim
  cases claim

variable {data : Option (Data N)}

theorem cleared_of_check (known : indexes ⊆ c.sidx) {id : Nat}
    (passed : sidxCheckUnique c id data = .ok ()) : Cleared indexes [(id, data)] := by
  intro t member unique id' data' claim key given
  obtain ⟨rfl, rfl⟩ := Prod.mk.inj (List.mem_singleton.mp claim)
  constructor
  · unfold sidxCheckUnique at passed
    split at passed
    · cases passed
    · rename_i clear
      have pass := List.find?_eq_none.mp clear t (known member)
      simpa [unique, given] using pass
  · intro other data'' claim' _
    exact (Prod.mk.inj (List.mem_singleton.mp claim')).1

/-- The records that the inserts and updates of a batch write. -/
def claimsOf (ops : List (TxOp N)) : List (Nat × Option (Data N)) :=
  (ops.filter fun op => op.kind ≠ .delete).map fun op => (op.id, op.data)

omit [JsonNumber N] in
theorem mem_claimsOf {id : Nat} :
    (id, data) ∈ claimsOf ops ↔ ∃ op ∈ ops, op.kind ≠ .delete ∧ op.id = id ∧ op.data = data := by
  simp only [claimsOf, List.mem_map, List.mem_filter, decide_eq_true_eq, Prod.mk.injEq,
    and_assoc]

theorem cleared_of_batch (known : indexes ⊆ c.sidx) (passed : txCheckUnique c ops = .ok ()) :
    Cleared indexes (claimsOf ops) := by
  obtain ⟨final, -, checked⟩ := txCheckFrom_ok passed
  intro t member unique id data claim key given
  obtain ⟨op, inside, put, rfl, rfl⟩ := mem_claimsOf.mp claim
  obtain ⟨clear, mine⟩ := checked op inside put t (known member) unique key given
  refine ⟨clear, ?_⟩
  intro other data' claim' given'
  obtain ⟨op', inside', put', rfl, rfl⟩ := mem_claimsOf.mp claim'
  have theirs := (checked op' inside' put' t (known member) unique key given').2
  exact Option.some.inj (theirs.symm.trans mine)

end Checks

/-! ## Write paths -/

section Paths

variable {w₀ w : World N} {claims : List (Nat × Option (Data N))} {env : Env}

/-- A write has kept within claims that passed the checks. -/
def Kept (w₀ w : World N) : Prop :=
  ∃ claims, Cleared w₀.col.sidx claims ∧ Within w₀ claims w

theorem kept_of_still (still : Still w₀ w) : Kept w₀ w :=
  ⟨[], cleared_nil _, within_of_still still []⟩

theorem Kept.still {w' : World N} (kept : Kept w₀ w) (still : Still w w') : Kept w₀ w' := by
  obtain ⟨claims, cleared, within⟩ := kept
  exact ⟨claims, cleared, within.still still⟩

theorem Kept.sound (kept : Kept w₀ w) : Sound w := by
  obtain ⟨_, -, within⟩ := kept
  exact within.sound

variable {enc : Option (Encryptor N)} {seed : Nat}

omit [JsonNumber N] in
/-- The stored form of an entry agrees with it on fields that are not
encrypted. -/
theorem sealEntryData_agrees (lawful : ∀ policy ∈ enc, Lawful policy) {e' : Entry N}
    (sealed : sealEntryData enc seed e = .ok e') :
    e'.id = e.id ∧ ∀ field, Exposed enc field → field? e'.data field = field? e.data field := by
  rcases enc with - | policy
  · cases sealed
    exact ⟨rfl, fun _ _ => rfl⟩
  · rw [sealEntryData] at sealed
    obtain ⟨data, encrypted, sealed⟩ := ok_of_bind sealed
    cases sealed
    exact ⟨rfl, fun field exposed =>
      (lawful policy rfl).keeps encrypted (exposed policy rfl)⟩

theorem Kept.rotateIf (kept : Kept w₀ w) (full : Bool) :
    Yields (rotateIf full : Proc N Unit) w fun _ w' => Kept w₀ w' :=
  (yields_rotateIf kept.sound full).imp fun _ _ => kept.still

/-- What comes after the lines of a write under the lock. -/
theorem Kept.finish {β : Type} {post : β → World N → Prop} {rest : Proc N β}
    (kept : Kept w₀ w) (committed : List (Entry N))
    (later : ∀ w', Kept w₀ w' → Yields rest w' post) :
    Yields (do
      syncActive
      publishCommit committed
      rest) w post := by
  refine (yields_syncActive kept.sound).bind fun _ w₁ flushed => ?_
  refine (yields_publishCommit flushed.sound committed).bind fun _ w₂ shipped => ?_
  exact later w₂ (kept.still (flushed.trans shipped))

theorem Kept.isFull (kept : Kept w₀ w) :
    Yields (isFull : Proc N Bool) w fun _ w' => Kept w₀ w' := by
  rintro _ _ ⟨⟩
  exact kept

theorem yields_put (within : Within w₀ claims w) (cleared : Cleared w₀.col.sidx claims)
    (follow : Follow) (claim : (e.id, plain) ∈ claims)
    (stored : ∀ field, Exposed w₀.col.enc field → field? e.data field = field? plain field) :
    Yields (putEntry e plain follow) w fun _ w' => Kept w₀ w' := by
  refine (yields_putEntry e plain follow).imp ?_
  rintro _ _ ⟨bytes, fault, accepted, rfl⟩
  exact ⟨claims, cleared, within.put follow claim stored accepted fault⟩

theorem yields_reserveID (still : Still w₀ w) :
    Yields (reserveID : Proc N Nat) w fun _ w' => Still w₀ w' := by
  rintro _ _ ⟨⟩
  exact still.trans (.of_eq still.sound rfl rfl rfl rfl (List.Subset.refl _) rfl)

theorem yields_insertRecord (lawful : ∀ policy ∈ w₀.col.enc, Lawful policy)
    (still : Still w₀ w) (data : Option (Data N)) (expiresAt : Int) :
    Yields (insertRecord env data expiresAt) w fun _ w' => Kept w₀ w' := by
  refine (yields_reserveID still).bind fun id w₁ reserved => ?_
  refine yields_read (yields_check ?_)
  intro e sealed
  rw [reserved.enc] at sealed
  obtain ⟨-, agrees⟩ := sealEntryData_agrees lawful sealed
  have inside : Yields (insertLocked e data) w₁ fun _ w' => Kept w₀ w' := by
    refine yields_read (yields_check fun _ _ => yields_check fun _ unique => ?_)
    have put := yields_put (within_of_still reserved _)
      (cleared_of_check reserved.sidx unique) .index (.head _) agrees
    exact put.bind fun _ w' kept => kept.finish [e] fun w' kept => kept.isFull
  refine (yields_locked inside).bind fun full w' kept => ?_
  exact (kept.rotateIf full).bind fun _ w' kept => yields_pure kept

theorem yields_updateRecord (lawful : ∀ policy ∈ w₀.col.enc, Lawful policy)
    (still : Still w₀ w) (id : Nat) (data : Option (Data N)) (expiresAt : Option Int) :
    Yields (updateRecord env id data expiresAt) w fun _ w' => Kept w₀ w' := by
  refine yields_read (yields_check ?_)
  intro e sealed
  rw [still.enc] at sealed
  obtain ⟨-, agrees⟩ := sealEntryData_agrees lawful sealed
  have inside : Yields (updateLocked e data expiresAt) w fun _ w' => Kept w₀ w' := by
    refine yields_read ?_
    split
    · exact yields_fail _
    · rename_i cur _
      refine yields_check fun _ unique => ?_
      let e' : Entry N :=
        { e with rev := cur.rev + 1, expiresAt := expiresAt.getD cur.expiresAt }
      have put : Yields (putEntry e' data .move) w fun _ w' => Kept w₀ w' :=
        yields_put (within_of_still still _) (cleared_of_check still.sidx unique) .move
          List.mem_cons_self agrees
      exact put.bind fun _ w' kept => kept.finish [e'] fun w' kept => kept.isFull
  exact (yields_locked inside).bind fun full w' kept => kept.rotateIf full

theorem yields_delete (still : Still w₀ w) (id : Nat) :
    Yields (delete env id : Proc N Unit) w fun _ w' => Kept w₀ w' := by
  refine yields_locked (yields_read ?_)
  split
  · exact yields_fail _
  · refine (yields_deleteEntry _).bind ?_
    rintro _ _ ⟨bytes, fault, accepted, rfl⟩
    have deleted := (within_of_still still []).delete accepted fault
    refine (yields_flush deleted.sound _).imp ?_
    intro _ w' still'
    exact ⟨[], cleared_nil _, deleted.still still'⟩

variable (env) in
theorem yields_replaceLocked (lawful : ∀ policy ∈ w₀.col.enc, Lawful policy)
    (still : Still w₀ w) (stamped : Data N) (id : Nat) (cur : IndexEntry) :
    Yields (replaceLocked env stamped id cur) w fun _ w' => Kept w₀ w' := by
  refine yields_read (yields_check fun _ unique => yields_check fun e sealed => ?_)
  rw [still.enc] at sealed
  obtain ⟨same, agrees⟩ := sealEntryData_agrees lawful sealed
  have claim : (e.id, some stamped) ∈ [(id, some stamped)] := by
    rw [same]
    exact (.head _)
  have put := yields_put (within_of_still still _) (cleared_of_check still.sidx unique) .move
    claim agrees
  exact put.bind fun _ w' kept => yields_pure kept

theorem yields_insertKeyLocked (lawful : ∀ policy ∈ w₀.col.enc, Lawful policy)
    (still : Still w₀ w) (stamped : Data N) :
    Yields (insertKeyLocked env stamped) w fun _ w' => Kept w₀ w' := by
  refine (yields_reserveID still).bind fun id w₁ reserved => ?_
  refine yields_read (yields_check fun _ _ => yields_check fun _ unique =>
    yields_check fun e sealed => ?_)
  rw [reserved.enc] at sealed
  obtain ⟨same, agrees⟩ := sealEntryData_agrees lawful sealed
  have claim : (e.id, some stamped) ∈ [(id, some stamped)] := by
    rw [same]
    exact (.head _)
  have put := yields_put (within_of_still reserved _) (cleared_of_check reserved.sidx unique)
    .index claim agrees
  exact put.bind fun _ w' kept => yields_pure kept

theorem yields_upsert (lawful : ∀ policy ∈ w₀.col.enc, Lawful policy) (still : Still w₀ w)
    (key : String) (data : Option (Data N)) :
    Yields (upsert env key data) w fun _ w' => Kept w₀ w' := by
  refine yields_check fun _ _ => ?_
  refine (yields_ensureIndex still.sound keyField true).bind fun _ w₁ ensured => ?_
  have still₁ := still.trans ensured
  have inside : Yields (upsertLocked env key (stampKey data key)) w₁ fun _ w' => Kept w₀ w' := by
    refine yields_read ?_
    have written : Yields (writeKeyLocked env (stampKey data key) (carrying env w₁.col key)) w₁
        fun _ w' => Kept w₀ w' := by
      rcases carrying env w₁.col key with - | ⟨id, cur⟩
      · exact yields_insertKeyLocked lawful still₁ _
      · exact yields_replaceLocked env lawful still₁ _ id cur
    refine written.bind fun e w₂ kept => kept.finish [e] fun w₃ kept => ?_
    exact kept.isFull.bind fun _ w₄ kept => yields_pure kept
  refine (yields_locked inside).bind ?_
  rintro ⟨⟨id, rev⟩, full⟩ w₂ kept
  exact (kept.rotateIf full).bind fun _ w₃ kept => yields_pure kept

theorem yields_compareAndSwap (lawful : ∀ policy ∈ w₀.col.enc, Lawful policy)
    (still : Still w₀ w) (key : String) (data : Option (Data N))
    (test : Option (Data N) → Nat → Bool) :
    Yields (compareAndSwap env key data test) w fun _ w' => Kept w₀ w' := by
  have inside : Yields (compareAndSwapLocked env key data test) w fun _ w' => Kept w₀ w' := by
    refine yields_read ?_
    split
    · exact yields_pure (kept_of_still still)
    · rename_i id loc _
      refine yields_check fun _ _ => yields_check fun _ _ => ?_
      split_ifs
      · have replaced := yields_replaceLocked env lawful still (stampKey data key) id loc
        refine replaced.bind fun e w₂ kept => kept.finish [e] fun w₃ kept => ?_
        exact kept.isFull.bind fun _ w₄ kept => yields_pure kept
      · exact yields_pure (kept_of_still still)
  refine (yields_locked inside).bind ?_
  rintro ⟨swapped, full⟩ w₂ kept
  exact (kept.rotateIf full).bind fun _ w₃ kept => yields_pure kept

/-! ### Batches -/

/-- The entries of a batch agree with its records on fields that are not
encrypted. -/
theorem yields_buildEntries (lawful : ∀ policy ∈ w₀.col.enc, Lawful policy)
    (still : Still w₀ w) (expiresAt : Int) (records : List (Option (Data N)))
    (position : Nat) :
    Yields (buildEntries env expiresAt records position) w fun built w' => Still w₀ w' ∧
      ∀ pair ∈ built, ∀ field, Exposed w₀.col.enc field →
        field? pair.1.data field = field? pair.2 field := by
  induction records generalizing w position with
  | nil => exact yields_pure ⟨still, nofun⟩
  | cons data records ih =>
    refine (yields_reserveID still).bind fun id w₁ reserved => ?_
    refine yields_read (yields_check fun e sealed => ?_)
    rw [reserved.enc] at sealed
    obtain ⟨-, agrees⟩ := sealEntryData_agrees lawful sealed
    refine (ih reserved (position + 1)).bind ?_
    rintro built w₂ ⟨still₂, each⟩
    refine yields_pure ⟨still₂, ?_⟩
    intro pair member
    rcases List.mem_cons.mp member with rfl | later
    · exact agrees
    · exact each pair later

theorem yields_putAll {built : List (Entry N × Option (Data N))}
    (within : Within w₀ claims w) (cleared : Cleared w₀.col.sidx claims)
    (claimed : ∀ pair ∈ built, (pair.1.id, pair.2) ∈ claims)
    (stored : ∀ pair ∈ built, ∀ field, Exposed w₀.col.enc field →
      field? pair.1.data field = field? pair.2 field) :
    Yields (putAll built) w fun _ w' => Kept w₀ w' := by
  induction built generalizing w with
  | nil => exact yields_pure ⟨claims, cleared, within⟩
  | cons pair built ih =>
    refine (yields_putEntry pair.1 pair.2 .index).bind ?_
    rintro _ _ ⟨bytes, fault, accepted, rfl⟩
    have put := within.put .index (claimed pair (.head _))
      (stored pair (.head _)) accepted fault
    exact ih put (fun other member => claimed other (.tail _ member))
      fun other member => stored other (.tail _ member)

theorem yields_insertMany (lawful : ∀ policy ∈ w₀.col.enc, Lawful policy)
    (still : Still w₀ w) (records : List (Option (Data N))) (expiresAt : Option Int) :
    Yields (insertMany env records expiresAt) w fun _ w' => Kept w₀ w' := by
  rw [insertMany]
  split_ifs
  · exact yields_pure (kept_of_still still)
  refine yields_check fun _ _ => yields_read ?_
  refine (yields_buildEntries lawful still _ records 0).bind ?_
  rintro built w₁ ⟨still₁, each⟩
  have inside : Yields (insertManyLocked env.ts built) w₁ fun _ w' => Kept w₀ w' := by
    refine yields_read (yields_check fun _ _ => yields_check fun _ unique => ?_)
    have cleared := cleared_of_batch still₁.sidx unique
    have claimed : ∀ pair ∈ built, (pair.1.id, pair.2) ∈
        claimsOf (built.map fun entry => ⟨.insert, entry.1.id, entry.2, env.ts⟩) := by
      intro pair member
      refine mem_claimsOf.mpr ⟨_, List.mem_map_of_mem member, ?_, rfl, rfl⟩
      rintro ⟨⟩
    refine (yields_putAll (within_of_still still₁ _) cleared claimed each).bind ?_
    exact fun _ w₂ kept => kept.finish _ fun w₃ kept => kept.isFull
  refine (yields_locked inside).bind fun full w₂ kept => ?_
  exact (kept.rotateIf full).bind fun _ w₃ kept => yields_pure kept

variable {staged : List (TxOp N × Option (Data N))}

omit [JsonNumber N] in
/-- Sealing a batch keeps its writes, and their fields that are not encrypted. -/
theorem txSeal_agrees (lawful : ∀ policy ∈ enc, Lawful policy)
    (sealed : txSeal enc seed ops = .ok staged) :
    ∀ pair ∈ staged, pair.1 ∈ ops ∧
      ∀ field, Exposed enc field → field? pair.2 field = field? pair.1.data field := by
  induction ops generalizing seed staged with
  | nil =>
    cases sealed
    exact nofun
  | cons op ops ih =>
    rw [txSeal_cons] at sealed
    obtain ⟨data, first, sealed⟩ := ok_of_bind sealed
    obtain ⟨others, later, sealed⟩ := ok_of_bind sealed
    cases sealed
    refine List.forall_mem_cons.mpr ⟨⟨List.mem_cons_self, fun field exposed => ?_⟩, ?_⟩
    · unfold txStored at first
      split_ifs at first
      · cases first
        rfl
      rcases enc with - | policy
      · cases first
        rfl
      · exact (lawful policy rfl).keeps first (exposed policy rfl)
    · intro pair inside
      obtain ⟨known, same⟩ := ih later pair inside
      exact ⟨List.mem_cons_of_mem _ known, same⟩

theorem yields_txApplyAll (within : Within w₀ (claimsOf ops) w)
    (cleared : Cleared w₀.col.sidx (claimsOf ops))
    (stored : ∀ pair ∈ staged, pair.1 ∈ ops ∧ ∀ field, Exposed w₀.col.enc field →
      field? pair.2 field = field? pair.1.data field) :
    Yields (txApplyAll env staged) w fun _ w' => Kept w₀ w' := by
  induction staged generalizing w with
  | nil => exact yields_pure ⟨_, cleared, within⟩
  | cons pair staged ih =>
    obtain ⟨op, data⟩ := pair
    obtain ⟨inside, agrees⟩ := stored (op, data) (.head _)
    have first : Yields (txApply env op data) w fun _ w' =>
        Within w₀ (claimsOf ops) w' := by
      refine yields_read ?_
      have written : Yields (txWrite op (txEntry env w.col op data)) w fun _ w' =>
          Within w₀ (claimsOf ops) w' := by
        have put (kept : op.kind ≠ .delete) (follow : Follow) {e : Entry N}
            (id : e.id = op.id) (same : e.data = data) :
            Yields (putEntry e op.data follow) w fun _ w' => Within w₀ (claimsOf ops) w' := by
          refine (yields_putEntry e op.data follow).imp ?_
          rintro _ _ ⟨bytes, fault, accepted, rfl⟩
          refine within.put follow ?_ (by rw [same]; exact agrees) accepted fault
          exact mem_claimsOf.mpr ⟨op, inside, kept, id.symm, rfl⟩
        cases kind : op.kind with
        | insert =>
          rw [txWrite, txEntry, kind]
          exact put (by simp [kind]) .index rfl rfl
        | update =>
          rw [txWrite, txEntry, kind]
          exact put (by simp [kind]) .move rfl rfl
        | delete =>
          rw [txWrite, txEntry, kind]
          refine (yields_deleteEntry _).imp ?_
          rintro _ _ ⟨bytes, fault, accepted, rfl⟩
          exact within.delete accepted fault
      exact written.bind fun _ w' within' => yields_pure within'
    refine first.bind fun e w₁ within₁ => ?_
    refine (ih within₁ fun other member =>
      stored other (.tail _ member)).bind ?_
    exact fun _ w₂ kept => yields_pure kept

theorem yields_commitTx (lawful : ∀ policy ∈ w₀.col.enc, Lawful policy) (still : Still w₀ w)
    (ops : List (TxOp N)) : Yields (commitTx env ops) w fun _ w' => Kept w₀ w' := by
  rw [commitTx]
  by_cases empty : ops = []
  · rw [if_pos empty]
    exact yields_pure (kept_of_still still)
  rw [if_neg empty]
  have inside : Yields (commitTxLocked env ops) w fun _ w' => Kept w₀ w' := by
    refine yields_read (yields_check fun _ _ => yields_check fun _ unique =>
      yields_check fun _ _ => yields_check fun staged sealed => ?_)
    rw [still.enc] at sealed
    refine (yields_txApplyAll (within_of_still still _)
      (cleared_of_batch still.sidx unique) (txSeal_agrees lawful sealed)).bind ?_
    exact fun committed w₁ kept => kept.finish committed fun w₂ kept => kept.isFull
  refine (yields_locked inside).bind fun full w₁ kept => ?_
  refine (kept.rotateIf full).bind fun _ w₂ kept => ?_
  split_ifs
  · exact (persistMeta_attempt kept.sound).imp fun _ _ => kept.still
  · exact yields_pure kept

theorem yields_stageInserts (still : Still w₀ w) (ts : Utc) (records : List (Option (Data N))) :
    Yields (stageInserts ts records) w fun _ w' => Still w₀ w' := by
  induction records generalizing w with
  | nil => exact yields_pure still
  | cons data records ih =>
    refine (yields_reserveID still).bind fun id w₁ reserved => ?_
    exact (ih reserved).bind fun _ w₂ staged => yields_pure staged

theorem yields_loadJSONL (lawful : ∀ policy ∈ w₀.col.enc, Lawful policy) (still : Still w₀ w)
    (text : List Char) (keyedBy : String) :
    Yields (LoadJsonl.loadJSONL (N := N) env text keyedBy) w fun _ w' => Kept w₀ w' := by
  have rest {w : World N} (still : Still w₀ w) : Yields (do
      let records ← Proc.check (parseJSONL keyedBy text)
      if records = [] then return 0
      let ops ← stageInserts env.ts records
      commitTx (N := N) env ops
      return records.length) w fun _ w' => Kept w₀ w' := by
    refine yields_check fun records _ => ?_
    split_ifs
    · exact yields_pure (kept_of_still still)
    · refine (yields_stageInserts still env.ts records).bind fun ops w₁ staged => ?_
      exact (yields_commitTx lawful staged ops).bind fun _ w₂ kept => yields_pure kept
  rw [LoadJsonl.loadJSONL]
  split_ifs
  · refine (yields_ensureIndex still.sound keyField true).bind fun _ w₁ ensured => ?_
    exact rest (still.trans ensured)
  · exact rest still

theorem yields_reapAll (kept : Kept w₀ w) (ids : List Nat) :
    Yields (reapAll env ids : Proc N Unit) w fun _ w' => Kept w₀ w' := by
  induction ids generalizing w with
  | nil => exact yields_pure kept
  | cons id ids ih =>
    refine yields_read ?_
    split_ifs
    · refine (yields_deleteEntry _).bind ?_
      rintro _ _ ⟨bytes, fault, accepted, rfl⟩
      obtain ⟨claims, cleared, within⟩ := kept
      exact ih ⟨claims, cleared, within.delete accepted fault⟩
    · exact ih kept

theorem yields_reapExpired (still : Still w₀ w) :
    Yields (reapExpired env : Proc N Unit) w fun _ w' => Kept w₀ w' := by
  refine yields_read ?_
  dsimp only
  split_ifs
  · exact yields_pure (kept_of_still still)
  · have inside (ids : List Nat) : Yields (reapLocked (N := N) env ids) w fun _ w' =>
        Kept w₀ w' := by
      refine (yields_reapAll (kept_of_still still) ids).bind fun _ w₁ kept => ?_
      refine (yields_syncActive kept.sound).bind fun _ w₂ flushed => ?_
      exact (kept.still flushed).isFull
    exact (yields_locked (inside _)).bind fun full w₁ kept => kept.rotateIf full

/-- Every request keeps within claims that passed the checks. -/
theorem yields_request (lawful : ∀ policy ∈ w₀.col.enc, Lawful policy) (still : Still w₀ w)
    (request : Request N) : Yields (request.proc env) w fun _ w' => Kept w₀ w' := by
  have replied {α : Type} {p : Proc N α} {f : α → Reply}
      (done : Yields p w fun _ w' => Kept w₀ w') : Yields (do
        let value ← p
        return f value) w fun _ w' => Kept w₀ w' :=
    done.bind fun _ w' kept => yields_pure kept
  cases request with
  | updateByKey key data =>
    refine replied (yields_check fun _ _ => yields_read (yields_check fun id _ => ?_))
    exact yields_updateRecord lawful still id _ none
  | deleteByKey key =>
    exact replied (yields_read (yields_check fun id _ => yields_delete still id))
  | loadJSONL text keyedBy => exact replied (yields_loadJSONL lawful still text keyedBy)
  | reapExpired => exact replied (yields_reapExpired still)
  | call made =>
    cases made with
    | insert data expiresAt =>
      exact replied (yields_check fun _ _ => yields_read
        (yields_insertRecord lawful still data _))
    | insertMany records expiresAt =>
      exact replied (yields_insertMany lawful still records expiresAt)
    | update id data =>
      exact replied (yields_check fun _ _ => yields_updateRecord lawful still id data none)
    | updateWithExpiry id data expiresAt =>
      exact replied (yields_check fun _ _ => yields_read
        (yields_updateRecord lawful still id data _))
    | delete id => exact replied (yields_delete still id)
    | insertWithKey key data =>
      refine replied (yields_check fun _ _ => ?_)
      refine (yields_ensureIndex still.sound keyField true).bind fun _ w₁ ensured => ?_
      exact yields_read (yields_insertRecord lawful (still.trans ensured) _ _)
    | upsert key data => exact replied (yields_upsert lawful still key data)
    | updateIfRev key expectedRev data =>
      exact replied (yields_check fun _ _ =>
        yields_compareAndSwap lawful still key data _)
    | updateIfMatch key pred data =>
      exact replied (yields_check fun _ _ =>
        yields_compareAndSwap lawful still key data _)
    | commitTx ops => exact replied (yields_commitTx lawful still ops)
    | rotateSegment =>
      refine replied ((yields_rotateSegment still.sound).imp fun _ _ rotated => ?_)
      exact kept_of_still (still.trans rotated)
    | ensureIndex field unique =>
      refine replied ((yields_ensureIndex still.sound field unique).imp
        fun _ _ ensured => ?_)
      exact kept_of_still (still.trans ensured)

end Paths

/-! ## Rejected batches -/

/-- The errors with which appending a line or flushing it fails are among the
allowed ones. -/
class Faulty (allowed : Error → Prop) : Prop where
  io : allowed .io
  append : ∀ reason, allowed (.append reason)

/-- Errors other than a refused key. -/
def Unclaimed (e : Error) : Prop :=
  ∀ field key, e ≠ .duplicateKey field key

instance : Faulty Unclaimed where
  io := nofun
  append _ := nofun

section Rejected

variable {allowed : Error → Prop} [Faulty allowed]

theorem fails_appendActive (e : Entry N) : Fails (appendActive e) allowed := by
  refine (fails_check ?_).bind fun bytes => (fails_read _).bind fun active => ?_
  · intro error refused
    rcases appended : appendBytes e with reason | bytes
    · rw [appended] at refused
      cases refused
      exact Faulty.append _
    · rw [appended] at refused
      cases refused
  · have rest : ∀ _ : Unit, Fails (do
        Proc.modify fun c =>
          { c with active := { c.active with size := c.active.size + bytes.length } }
        return active.size : Proc N Nat) allowed :=
      fun _ => (fails_modify _).bind fun _ => fails_pure _
    split_ifs
    · exact (fails_access Faulty.io).bind rest
    · exact (fails_perform Faulty.io _).bind rest

theorem fails_putEntry (e : Entry N) (plain : Option (Data N)) (follow : Follow) :
    Fails (putEntry e plain follow) allowed :=
  (fails_appendActive e).bind fun _ => (fails_modify _).bind fun _ => fails_modify _

theorem fails_deleteEntry (e : Entry N) : Fails (deleteEntry e) allowed :=
  (fails_appendActive e).bind fun _ => (fails_modify _).bind fun _ => fails_modify _

section

omit [JsonNumber N]

theorem fails_syncActive : Fails (syncActive : Proc N Unit) allowed := by
  refine (fails_read _).bind fun mode => ?_
  split_ifs
  · exact fails_access Faulty.io
  · exact fails_pure _

theorem fails_rotateIf (full : Bool) : Fails (rotateIf full : Proc N Unit) allowed := by
  have created (name : FileName) : Fails (openActiveSegment name : Proc N Nat) allowed := by
    refine (fails_perform Faulty.io _).bind fun _ => (fails_read _).bind fun file => ?_
    split_ifs
    · exact (fails_perform Faulty.io _).bind fun _ => fails_pure _
    · exact fails_pure _
  have rotated : Fails (rotateSegment : Proc N Unit) allowed := by
    refine (fails_access Faulty.io).bind fun _ => (fails_modify _).bind fun _ => ?_
    refine (fails_read _).bind fun number => (created _).bind fun size => ?_
    refine (fails_modify _).bind fun _ => (fails_read _).bind fun mode => ?_
    split_ifs
    · exact (fails_access Faulty.io).bind fun _ => fails_attempt _
    · exact fails_attempt _
  cases full with
  | true => exact rotated
  | false => exact fails_pure _

/-- What comes after the lines of a batch. -/
theorem fails_finish {α : Type} {rest : Proc N α} (committed : List (Entry N))
    (later : Fails rest allowed) :
    Fails (do
      syncActive
      publishCommit committed
      rest) allowed := by
  refine fails_syncActive.bind fun _ => ?_
  have published : Fails (publishCommit committed : Proc N Unit) allowed := by
    rintro w e w' ⟨⟩
  exact published.bind fun _ => later

end

theorem fails_putAll (built : List (Entry N × Option (Data N))) :
    Fails (putAll built) allowed := by
  induction built with
  | nil => exact fails_pure _
  | cons entry built ih => exact (fails_putEntry _ _ _).bind fun _ => ih

theorem fails_txApplyAll (env : Env) (staged : List (TxOp N × Option (Data N))) :
    Fails (txApplyAll env staged) allowed := by
  induction staged with
  | nil => exact fails_pure _
  | cons first staged ih =>
    obtain ⟨op, stored⟩ := first
    have written (e : Entry N) : Fails (txWrite op e) allowed := by
      unfold txWrite
      cases op.kind with
      | insert | update => exact fails_putEntry _ _ _
      | delete => exact fails_deleteEntry _
    have applied : Fails (txApply env op stored) allowed :=
      (fails_read _).bind fun c => (written _).bind fun _ => fails_pure _
    exact applied.bind fun e => ih.bind fun _ => fails_pure _

theorem fails_insertManyChecked (built : List (Entry N × Option (Data N))) :
    Fails (insertManyChecked built) Unclaimed := by
  have stored : Fails (storeAll built).locked Unclaimed :=
    (fails_putAll built).bind fun _ => fails_finish _ (fails_read _)
  exact stored.bind fun full => (fails_rotateIf full).bind fun _ => fails_pure _

theorem fails_commitTxChecked (env : Env) (ops : List (TxOp N))
    (staged : List (TxOp N × Option (Data N))) :
    Fails (commitTxChecked env ops staged) Unclaimed := by
  have stored : Fails (applyStaged env staged).locked Unclaimed :=
    (fails_txApplyAll env staged).bind fun _ => fails_finish _ (fails_read _)
  refine stored.bind fun full => (fails_rotateIf full).bind fun _ => ?_
  split_ifs
  · exact fails_attempt _
  · exact fails_pure _

/-- What a batch leaves that is refused for a duplicate key: the ids that it
took are gone, and a keyed load may have created the index of the keys. -/
def Leaves (w w' : World N) : Batch N → Prop
  | .insertMany _ _ => ∃ idSeq, w.col.idSeq < idSeq ∧ w' = counted w idSeq
  | .commitTx _ => w' = w
  | .loadJSONL _ keyedBy => ∃ idSeq w₁, w.col.idSeq < idSeq ∧ w' = counted w₁ idSeq ∧
      if keyedBy = "" then w₁ = w else (ensureKeyIndex : Proc N Unit).run w = (.ok (), w₁)

variable {w w' : World N} {field key : String}

omit [JsonNumber N] in
theorem counted_ne {w₁ : World N} {idSeq : Nat} (more : w.col.idSeq < idSeq) :
    counted w₁ idSeq ≠ w := by
  rintro rfl
  exact absurd more (lt_irrefl _)

/-- Only a transaction leaves nothing behind. -/
theorem Leaves.eq_iff {batch : Batch N} (leaves : Leaves w w' batch) :
    w' = w ↔ ∃ ops, batch = .commitTx ops := by
  cases batch with
  | insertMany records expiresAt =>
    obtain ⟨idSeq, more, rfl⟩ := leaves
    refine iff_of_false (counted_ne more) ?_
    rintro ⟨ops, ⟨⟩⟩
  | commitTx ops => exact iff_of_true leaves ⟨ops, rfl⟩
  | loadJSONL text keyedBy =>
    obtain ⟨idSeq, w₁, more, rfl, -⟩ := leaves
    refine iff_of_false (counted_ne more) ?_
    rintro ⟨ops, ⟨⟩⟩

theorem insertMany_duplicate (env : Env) (records : List (Option (Data N)))
    (expiresAt : Option Int)
    (ran : (insertMany env records expiresAt).run w = (.error (.duplicateKey field key), w')) :
    ∃ idSeq, w.col.idSeq < idSeq ∧ w' = counted w idSeq := by
  by_cases some? : records = []
  · subst some?
    cases ran
  · obtain ⟨idSeq, shape, -, -, more⟩ := run_insertMany env some? expiresAt w
    rw [ran] at shape
    rcases checked : insertChecks env w.col records expiresAt with e | built
    all_goals rw [checked] at shape
    · obtain ⟨same, rfl⟩ := Prod.mk.inj shape
      rcases forM_checkReserved_cases records with free | reserved
      · exact ⟨idSeq, more free, rfl⟩
      · rw [insertChecks, reserved] at checked
        cases checked
        cases same
    · exact absurd rfl (fails_insertManyChecked built _ _ _ shape.symm field key)

theorem commitTx_duplicate (env : Env) (ops : List (TxOp N))
    (ran : (commitTx env ops).run w = (.error (.duplicateKey field key), w')) : w' = w := by
  by_cases some? : ops = []
  · subst some?
    cases ran
  · have shape := run_commitTx env some? w
    rw [ran] at shape
    rcases checked : commitChecks env w.col ops with e | staged
    all_goals rw [checked] at shape
    · exact (Prod.mk.inj shape).2
    · exact absurd rfl (fails_commitTxChecked env ops staged _ _ _ shape.symm field key)

theorem unclaimed_of_prepare {keyedBy : String} {lines : List (List Char)} {number : Nat}
    {e : Error} (refused : prepareRecords (N := N) keyedBy lines number = .error e) :
    Unclaimed e := by
  have record {line : List Char} {number : Nat} {e : Error}
      (refused : prepareRecord (N := N) keyedBy line number = .error e) : Unclaimed e := by
    unfold prepareRecord at refused
    repeat' split at refused
    all_goals cases refused
    all_goals exact nofun
  induction lines generalizing number with
  | nil => cases refused
  | cons line lines ih =>
    rw [prepareRecords] at refused
    split_ifs at refused
    · exact ih refused
    · rcases prepared : prepareRecord (N := N) keyedBy (trimSpace line) number with e' | data
      · rw [prepared] at refused
        obtain rfl := Except.error.inj refused
        exact record prepared
      · rw [prepared] at refused
        rcases later : prepareRecords (N := N) keyedBy lines (number + 1) with e' | rest
        · rw [later] at refused
          obtain rfl := Except.error.inj refused
          exact ih later
        · rw [later] at refused
          cases refused

theorem loadRecords_duplicate (env : Env) (text : List Char) (keyedBy : String)
    (ran : (loadRecords (N := N) env text keyedBy).run w =
      (.error (.duplicateKey field key), w')) :
    ∃ idSeq, w.col.idSeq < idSeq ∧ w' = counted w idSeq := by
  rcases loadRecords_error ran with ⟨refused, -⟩ | ⟨records, -, some?, committed⟩
  · exact absurd rfl (unclaimed_of_prepare refused field key)
  · exact ⟨_, Nat.lt_add_of_pos_right (List.length_pos_iff.mpr some?),
      commitTx_duplicate env _ committed⟩

theorem fails_readLatest (segments : List Nat)
    (latest : Map Nat (Option (Option (Data N)))) :
    Fails (readLatest segments latest) Unclaimed := by
  induction segments generalizing latest with
  | nil => exact fails_pure _
  | cons segment segments ih =>
    refine (fails_access nofun).bind fun _ => (fails_read _).bind fun entries => ?_
    cases entries with
    | none => exact fails_fail nofun
    | some entries => exact ih _

theorem fails_ensureKeyIndex : Fails (ensureKeyIndex : Proc N Unit) Unclaimed := by
  refine (fails_read _).bind fun enc => ?_
  split_ifs
  · exact fails_fail nofun
  have registered : Fails (registerIndex keyField true : Proc N Bool) Unclaimed := by
    rintro w e w' ⟨⟩
  have rebuilt (segments : List Nat) :
      Fails (rebuildSidx (N := N) keyField segments) Unclaimed :=
    (fails_readLatest segments _).bind fun latest => fails_modify _
  have persisted : Fails (persistIndexOn keyField : Proc N Unit) Unclaimed := by
    refine (fails_read _).bind fun found => ?_
    cases found with
    | none => exact fails_pure _
    | some t =>
      change Fails (if sidxNameValid t.field then _ else _) _
      split_ifs
      · exact fails_perform nofun _
      · exact fails_fail nofun
  refine registered.bind fun fresh => ?_
  split_ifs
  · exact (fails_read _).bind fun segments =>
      ((rebuilt segments).onError _).bind fun _ => persisted
  · exact fails_pure _

theorem loadJSONL_duplicate (env : Env) (text : List Char) (keyedBy : String)
    (ran : (LoadJsonl.loadJSONL (N := N) env text keyedBy).run w =
      (.error (.duplicateKey field key), w')) : Leaves w w' (.loadJSONL text keyedBy) := by
  rw [LoadJsonl.loadJSONL] at ran
  by_cases keyed : keyedBy = ""
  · rw [if_neg (not_not.mpr keyed)] at ran
    obtain ⟨idSeq, more, rfl⟩ := loadRecords_duplicate env text keyedBy (w := w) ran
    exact ⟨idSeq, w, more, rfl, by rw [if_pos keyed]⟩
  · rw [if_pos keyed] at ran
    rcases ended : (ensureKeyIndex : Proc N Unit).run w with ⟨outcome, w₁⟩
    cases outcome with
    | error e =>
      rw [Proc.run_bind_error ended] at ran
      cases ran
      exact absurd rfl (fails_ensureKeyIndex _ _ _ ended field key)
    | ok _ =>
      rw [Proc.run_bind_ok ended] at ran
      obtain ⟨idSeq, more, rfl⟩ := loadRecords_duplicate env text keyedBy (w := w₁) ran
      have same : w₁.col.idSeq = w.col.idSeq := by
        have indexless : Turns.Indexless fun v : World N => v.col.idSeq = w.col.idSeq :=
          .of_col (fun c => c.idSeq = w.col.idSeq) fun _ _ holds => holds
        have guarded : Interleaving.Guards (fun v : World N => v.col.idSeq = w.col.idSeq)
            ensureKeyIndex := Turns.guards_ensureIndex keyField true
        have kept := guarded.run (w := w) rfl
        rwa [ended] at kept
      exact ⟨idSeq, w₁, same ▸ more, rfl, by rw [if_neg keyed]; exact ended⟩

end Rejected

/-! ## Collections that follow their segments -/

section Coherent

variable {w : World N} {s : Segments N}

theorem storedLine_of_coherent (coherent : Coherent w s) (id : Nat) :
    storedLine w id = (live s.log id).map Located.entry := by
  rw [storedLine, coherent.lookup_index]
  rcases alive : live s.log id with - | line
  · rfl
  · have read := coherent.recalls.reads (live_mem alive).1 id line.entry.rev
    simp only [Option.map_some, Option.bind_some, read]
    rfl

/-- The unique indexes of a collection that follows its segments agree with
its records. -/
theorem tallies_of_coherent (coherent : Coherent w s) : Tallies w := by
  intro t member _ key id
  rw [(coherent.indexed.exact t member).bucket, keyAt, storedLine_of_coherent coherent,
    Sidx.wanted]
  rcases live s.log id with - | line
  · rfl
  · rfl

theorem sound_of_coherent (coherent : Coherent w s) : Sound w where
  attached := by rw [coherent.active]; rfl
  file := by
    have inside : (s.number, s.active) ∈ s.layout := List.mem_append_right _ (.head _)
    refine ⟨fileOf s.active, ?_, ?_, ?_⟩
    · rw [coherent.active]
      exact coherent.disk.holds _ inside
    · rw [coherent.active]
      rfl
    · intro some?
      exact getLast?_joinLines some?
  apart := by
    intro member
    have below := (List.pairwise_append.mp s.increasing).2.2
    rw [coherent.active, coherent.sealed, List.map_map] at member
    exact absurd (below _ member _ (.head _)) (lt_irrefl _)
  known := by
    intro id loc found
    rw [coherent.lookup_index, Option.map_eq_some_iff] at found
    obtain ⟨line, alive, rfl⟩ := found
    obtain ⟨lines, front, here, back, inside, split, offset, -⟩ := mem_located (live_mem alive).1
    constructor
    · rw [coherent.allSegments_eq, ← Segments.map_fst_layout]
      exact List.mem_map_of_mem inside
    · intro active
      have file := coherent.disk.holds _ inside
      rw [Located.toIndexEntry] at active
      dsimp only at file active ⊢
      rw [active, coherent.active] at file
      have same : fileOf s.active = fileOf lines := by
        have current := coherent.disk.holds _ (List.mem_append_right s.sealed (.head _))
        exact Option.some.inj (current.symm.trans file)
      rw [coherent.active, handleOf, Located.toIndexEntry]
      dsimp only
      rw [same, split, offset]
      simp only [fileOf, List.map_append, List.map_cons, joinLines_append, joinLines_cons,
        List.length_append, List.length_cons]
      omega

end Coherent

/-! ## Unique indexes stay unique -/

/-- Every accepted request keeps the keys of the unique indexes apart, whatever
steps of the directory were to fail.  A batch that is refused for a duplicate
changes nothing exactly if it is a transaction; any other leaves the ids taken that
it asked for, and a keyed load the index of the keys. -/
theorem accepted_distinct_duplicate_leaves (w : World N) (sound : Sound w)
    (governed : Governed w.col) (tallies : Tallies w) (distinct : Distinct w.col.sidx w)
    (env : Env) :
    (∀ (request : Request N) reply w', (request.proc env).run w = (.ok reply, w') →
      Distinct w.col.sidx w') ∧
    ∀ (batch : Batch N) field key w',
      (batch.request.proc env).run w = (.error (.duplicateKey field key), w') →
      (w' = w ↔ ∃ ops, batch = .commitTx ops) ∧ Leaves w w' batch := by
  constructor
  · intro request reply w' accepted
    obtain ⟨claims, cleared, within⟩ :=
      yields_request governed.lawful (.refl sound) request reply w' accepted
    exact within.distinct cleared governed tallies distinct
  · intro batch field key w' refused
    have leaves : Leaves w w' batch := by
      cases batch with
      | insertMany records expiresAt =>
        exact insertMany_duplicate env records expiresAt (run_of_reply_error refused)
      | commitTx ops => exact commitTx_duplicate env ops (run_of_reply_error refused)
      | loadJSONL text keyedBy =>
        exact loadJSONL_duplicate env text keyedBy (run_of_reply_error refused)
    exact ⟨leaves.eq_iff, leaves⟩

/-- A new collection with a unique index. -/
def smallUnique : World Int :=
  (Action.call stillEnv (.ensureIndex "n" true)).next small

theorem distinct_small_batch :
    Distinct smallUnique.col.sidx
      (((Request.call (.insertMany [some (oneField "n" 5), some (oneField "n" 6)] none)).proc
        stillEnv).run smallUnique).2 := by
  have unencrypted : ∀ policy ∈ (none : Option (Encryptor Int)), Lawful policy :=
    nofun
  have new : Admissible small (.ensureIndex "n" true) := trivial
  obtain ⟨s, store, amid, -⟩ :=
    Amid.call (amid_fresh smallConfig .asWritten unencrypted).1 stillEnv new
  have empty : smallUnique.col.index = ∅ := by decide +kernel
  have distinct : Distinct smallUnique.col.sidx smallUnique := by
    intro t _ _ id other key mine
    rw [keyAt, storedLine, empty] at mine
    cases mine
  have accepted : (((Request.call (.insertMany [some (oneField "n" 5), some (oneField "n" 6)]
      none)).proc stillEnv).run smallUnique).1 = .ok (.ids [1, 2]) := by decide +kernel
  exact (accepted_distinct_duplicate_leaves smallUnique (sound_of_coherent amid.coherent)
    amid.governed (tallies_of_coherent amid.coherent) distinct stillEnv).1 _ _ _
    (Prod.ext accepted rfl)

/-- Two lines with one key. -/
def twins : List Char := "\x7b\"k\":\"a\"\x7d\n\x7b\"k\":\"a\"\x7d\n".toList

set_option maxRecDepth 4000 in
/-- A load that is refused for its keys leaves the index of the keys, in memory and
on disk, and two ids taken. -/
theorem refused_load_leaves_index :
    (((Request.loadJSONL twins "k").proc stillEnv).run small).1 =
        .error (.duplicateKey keyField "a") ∧
      small.col.sidx = [] ∧
      ((((Request.loadJSONL twins "k").proc stillEnv).run small).2.col.sidx.map Sidx.field) =
        [keyField] ∧
      keyField ∈ (((Request.loadJSONL twins "k").proc stillEnv).run small).2.disk.sidx ∧
      (((Request.loadJSONL twins "k").proc stillEnv).run small).2.col.idSeq =
        small.col.idSeq + 2 := by
  decide +kernel

end Scriva.Engine.Uniqueness
