import Scriva.Engine.Applying
import Scriva.Engine.Uniqueness

/-!
# A follower and the log of its leader

A follower begins with a snapshot in which each collection is as it was at some
time after a number that was read before.  It then takes the records of its
leader from that number on, applies those above its watermark, and moves the
watermark along.  It may lose its connection and continue from any number that
is not above the watermark, and the watermark itself may be an older one after
a restart, so that records are applied again onto later states.  When it has
come to where it was furthest, its collections are those of the leader.
-/

namespace Scriva.Replication.Tailing

open Lib.Text Lib.Keyed Lib.Replay Store.Record Store.Ndjson Engine.Segment Engine.Directory
open Engine.Load Engine.Coherence Engine.Opening Engine.Reading Engine.Uniqueness Engine.Applying
open Engine.Journal (recorded_nil)
open Engine.Sequential (fresh smallConfig oneField)

variable {N : Type} [JsonNumber N]

/-! ## Records on the wire -/

/-- An operation as a record carries it. -/
def wireOp : Op → Op
  | .insert => .insert
  | .update => .update
  | .delete => .delete
  | .other _ _ => .other "" unnamed_empty

/-- The entry that a follower makes of a record; the epoch of an encryption is
not sent. -/
def replRecordToEntry (e : Entry N) : Entry N :=
  { e with op := wireOp e.op, epoch := 0 }

/-! ## The follower -/

structure Follower (N : Type) where
  collections : Map String (World N)
  appliedLSN : Nat
  /-- The last number received on the stream. -/
  received : Nat
  /-- The highest number ever applied. -/
  furthest : Nat

/-- How the follower opens collections. -/
structure Setting (N : Type) where
  cfg : Config
  enc : Option (Encryptor N)
  order : RenameOrder

variable (setting : Setting N)

/-- The collection of a name, created if the follower has none. -/
def Follower.collection (f : Follower N) (name : String) : World N :=
  (f.collections.lookup name).getD (fresh setting.cfg setting.enc setting.order)

/-- Apply an entry to a collection. -/
def applyReplication (f : Follower N) (name : String) (e : Entry N) :
    Except Error Unit × Map String (World N) :=
  let outcome := (applyEntry e).run (f.collection setting name)
  (outcome.1, f.collections.insert name outcome.2)

/-- What a follower does while its leader has a log, in which the entry at a
position has the next number. -/
inductive Step (log : List (String × Entry N)) : Follower N → Follower N → Prop where
  /-- A stream begins. -/
  | connect {f : Follower N} (fromLSN : Nat) (earlier : fromLSN ≤ f.appliedLSN) :
      Step log f { f with received := fromLSN }
  /-- A restart finds an older watermark. -/
  | restart {f : Follower N} (noted : Nat) (earlier : noted ≤ f.appliedLSN) :
      Step log f { f with appliedLSN := noted, received := noted }
  /-- A record that is not above the watermark is passed over. -/
  | skip {f : Follower N} {name : String} {e : Entry N} (here : log[f.received]? = some (name, e))
      (known : f.received + 1 ≤ f.appliedLSN) : Step log f { f with received := f.received + 1 }
  | apply {f : Follower N} {name : String} {e : Entry N} {collections : Map String (World N)}
      (here : log[f.received]? = some (name, e)) (above : f.appliedLSN < f.received + 1)
      (ended : applyReplication setting f name (replRecordToEntry e) = (.ok (), collections)) :
      Step log f
        { collections
          appliedLSN := f.received + 1
          received := f.received + 1
          furthest := max f.furthest (f.received + 1) }
  /-- A record that cannot be applied ends the stream. -/
  | fail {f : Follower N} {name : String} {e : Entry N} {collections : Map String (World N)}
      {reason : Error} (here : log[f.received]? = some (name, e))
      (above : f.appliedLSN < f.received + 1)
      (ended : applyReplication setting f name (replRecordToEntry e) =
        (.error reason, collections)) :
      Step log f { f with collections, received := f.appliedLSN }

/-! ## The leader -/

/-- The entry that a record has after one was written, if it is still there. -/
def kept (e : Entry N) : Option (Entry N) :=
  match e.op with
  | .insert | .update => some e
  | .delete | .other _ _ => none

/-- The records of the leader after the first entries of its log. -/
def leaderState (log : List (String × Entry N)) (n : Nat) (name : String) (id : Nat) :
    Option (Entry N) :=
  after (log.map fun entry => ⟨(entry.1, entry.2.id), kept entry.2⟩) n (name, id)

/-- The revisions of a record increase from one deletion to the next. -/
def RevisionsIncrease (log : List (String × Entry N)) : Prop :=
  ∀ (i j : Nat) (name : String) (first second : Entry N), i < j →
    log[i]? = some (name, first) → log[j]? = some (name, second) → first.id = second.id →
    (first.op = .insert ∨ first.op = .update) → (second.op = .insert ∨ second.op = .update) →
    (∀ (k : Nat) (e : Entry N), i < k → k < j → log[k]? = some (name, e) → e.id = first.id →
      e.op ≠ .delete) → first.rev < second.rev

/-- What a follower shows of a record of the leader: its revision, its deadline
and its data, as far as the line for it can be read. -/
def replica (e : Entry N) : Shown N :=
  (e.rev, e.expiresAt, lineData (replRecordToEntry e))

/-- What the follower shows of a record. -/
def Follower.shows (f : Follower N) (name : String) (id : Nat) : Option (Shown N) :=
  shown (f.collection setting name) id

/-! ## What applying a record does -/

section Applying

variable {setting}

theorem fresh_coherent (setting : Setting N) :
    Coherent (fresh setting.cfg setting.enc setting.order) (firstSegment N) ∧
      (fresh setting.cfg setting.enc setting.order).fault = none ∧
      ∀ id, shown (fresh setting.cfg setting.enc setting.order) id = none := by
  obtain ⟨w, ran, reopened⟩ : ∃ w, openCollection setting.cfg setting.enc setting.order
      Disk.empty = (.ok (), w) ∧ Reopened setting.cfg setting.enc Disk.empty w (firstSegment N) [] :=
    open_empty setting.order rfl (fun _ => rfl) rfl
  have same : fresh setting.cfg setting.enc setting.order = w := by rw [fresh, ran]
  rw [same]
  refine ⟨Reopened.coherent reopened (List.forall_mem_nil _) recorded_nil
    (List.forall_mem_nil _), reopened.opened.calm, ?_⟩
  intro id
  rw [shown, reopened.index]
  rfl

/-- Every collection can be worked on. -/
def Working (f : Follower N) : Prop :=
  ∀ name w, f.collections.lookup name = some w → Sound w ∧ w.fault = none

theorem Working.collection {f : Follower N} (working : Working f) (name : String) :
    Sound (f.collection setting name) ∧ (f.collection setting name).fault = none := by
  rw [Follower.collection]
  rcases found : f.collections.lookup name with - | w
  · exact ⟨sound_of_coherent (fresh_coherent setting).1, (fresh_coherent setting).2.1⟩
  · exact working name w found

/-- The change that a record of the feed brings. -/
def change (entry : String × Entry N) : Change (String × Nat) (Shown N) :=
  ⟨(entry.1, entry.2.id), (kept entry.2).map replica⟩

theorem showing_replRecordToEntry (e : Entry N) :
    showing (replRecordToEntry e) = (kept e).map replica := by
  rw [showing, kept]
  change (match wireOp e.op with
    | .insert | .update => some (e.rev, e.expiresAt, lineData (replRecordToEntry e))
    | .delete | .other _ _ => none) = _
  rcases e.op with - | - | - | ⟨name, other⟩ <;> rfl

/-- What a follower shows, name and id together. -/
def view (setting : Setting N) (collections : Map String (World N)) (key : String × Nat) :
    Option (Shown N) :=
  shown ((collections.lookup key.1).getD (fresh setting.cfg setting.enc setting.order)) key.2

variable {f : Follower N} {name : String} {e : Entry N} {collections : Map String (World N)}

theorem applied_collection (setting : Setting N) (working : Working f) (name : String)
    (e : Entry N) :
    Applied (f.collection setting name) e ((applyEntry e).run (f.collection setting name)) :=
  applyEntry_applied (working.collection name).1 (working.collection name).2 e

omit [JsonNumber N] in
theorem Working.insert (working : Working f) {w : World N} (sound : Sound w)
    (calm : w.fault = none) (name : String) {appliedLSN received furthest : Nat} :
    Working ⟨f.collections.insert name w, appliedLSN, received, furthest⟩ := by
  intro other w' found
  rw [lookup_insert_if] at found
  split_ifs at found with same
  · rw [← Option.some.inj found]
    exact ⟨sound, calm⟩
  · exact working other w' found

theorem view_insert (collections : Map String (World N)) (name : String) (w : World N)
    (key : String × Nat) :
    view setting (collections.insert name w) key =
      if key.1 = name then shown w key.2 else view setting collections key := by
  rw [view, lookup_insert_if]
  split_ifs
  · rfl
  · rfl

/-- A record that is applied changes the view as a replay does. -/
theorem applyReplication_ok (working : Working f)
    (ended : applyReplication setting f name (replRecordToEntry e) = (.ok (), collections)) :
    ∃ w, collections = f.collections.insert name w ∧ Sound w ∧ w.fault = none ∧
      view setting collections =
        apply Prod.fst (view setting f.collections) (change (name, e)) := by
  obtain ⟨sound, calm, shows⟩ :=
    applied_collection setting working name (replRecordToEntry e)
  rw [applyReplication, Prod.mk.injEq] at ended
  obtain ⟨result, rfl⟩ := ended
  rw [result] at shows
  refine ⟨_, rfl, sound, calm, ?_⟩
  funext ⟨other, id⟩
  rw [apply, Function.update_apply, view_insert]
  by_cases sameName : other = name
  · subst sameName
    rw [if_pos rfl, shows, showing_replRecordToEntry]
    by_cases sameId : id = e.id
    · subst sameId
      rw [if_pos (show (other, e.id).2 = (replRecordToEntry e).id from rfl),
        if_pos (show (other, e.id) = (change (other, e)).key from rfl)]
      rfl
    · rw [if_neg (show (other, id).2 ≠ (replRecordToEntry e).id from sameId),
        if_neg (fun same => sameId (congrArg Prod.snd same))]
      rfl
  · rw [if_neg sameName, if_neg (fun same => sameName (congrArg Prod.fst same))]

/-- A record that cannot be applied changes nothing that shows. -/
theorem applyReplication_error (working : Working f) {reason : Error}
    (ended : applyReplication setting f name (replRecordToEntry e) =
      (.error reason, collections)) :
    ∃ w, collections = f.collections.insert name w ∧ Sound w ∧ w.fault = none ∧
      view setting collections = view setting f.collections := by
  obtain ⟨sound, calm, shows⟩ :=
    applied_collection setting working name (replRecordToEntry e)
  rw [applyReplication, Prod.mk.injEq] at ended
  obtain ⟨result, rfl⟩ := ended
  rw [result] at shows
  refine ⟨_, rfl, sound, calm, ?_⟩
  funext ⟨other, id⟩
  rw [view_insert]
  split_ifs with sameName
  · rw [shows, ← show other = name from sameName]
    rfl
  · rfl

end Applying

/-! ## Whole runs -/

section Runs

variable {setting} {log : List (String × Entry N)} {f f' : Follower N} {high : Nat}

/-- The stream is not ahead of the watermark, which is not ahead of the furthest
number, and each record is as the log made it at a number between the
watermark and the furthest one. -/
structure Between (setting : Setting N) (log : List (String × Entry N)) (high : Nat)
    (f : Follower N) : Prop where
  working : Working f
  behind : f.received ≤ f.appliedLSN
  reached : f.appliedLSN ≤ max high f.furthest
  ahead : Ahead (log.map change) f.appliedLSN (max high f.furthest) (view setting f.collections)

theorem increasing_change (increase : RevisionsIncrease log) :
    Increasing Prod.fst (log.map change) := by
  have put {i : Nat} {key : String × Nat} {value : Option (Shown N)}
      (here : (log.map change)[i]? = some ⟨key, value⟩) :
      ∃ e, log[i]? = some (key.1, e) ∧ e.id = key.2 ∧ (kept e).map replica = value := by
    rw [List.getElem?_map, Option.map_eq_some_iff] at here
    obtain ⟨⟨name, e⟩, there, same⟩ := here
    cases same
    exact ⟨e, there, rfl, rfl⟩
  have stays {e : Entry N} {value : Shown N} (same : (kept e).map replica = some value) :
      (e.op = .insert ∨ e.op = .update) ∧ value.1 = e.rev := by
    rw [kept] at same
    rcases shape : e.op with - | - | - | ⟨text, other⟩ <;> rw [shape] at same <;> cases same
    · exact ⟨.inl rfl, rfl⟩
    · exact ⟨.inr rfl, rfl⟩
  intro i j key first second before here there between
  obtain ⟨e, entry, id, value⟩ := put here
  obtain ⟨e', entry', id', value'⟩ := put there
  rw [(stays value).2, (stays value').2]
  refine increase i j key.1 e e' before entry entry' (id.trans id'.symm) (stays value).1
    (stays value').1 ?_
  intro k removed above within place same gone
  refine between k above within ?_
  rw [List.getElem?_map, place, Option.map_some, change, kept, gone, same, id]
  rfl

/-- One step keeps every record between the two numbers. -/
theorem Between.step (increase : RevisionsIncrease log) (between : Between setting log high f)
    (step : Step setting log f f') : Between setting log high f' := by
  cases step with
  | connect fromLSN earlier =>
    exact ⟨between.working, earlier, between.reached, between.ahead⟩
  | restart noted earlier =>
    exact ⟨between.working, le_rfl, earlier.trans between.reached,
      between.ahead.mono earlier le_rfl⟩
  | skip here known =>
    exact ⟨between.working, known, between.reached, between.ahead⟩
  | apply here above ended =>
    rename_i name e collections
    obtain ⟨w, rfl, sound, calm, changed⟩ := applyReplication_ok between.working ended
    have next : f.received = f.appliedLSN := by
      have := between.behind
      omega
    have place : (log.map change)[f.appliedLSN]? = some (change (name, e)) := by
      rw [List.getElem?_map, ← next, here, Option.map_some]
    refine ⟨between.working.insert sound calm name, le_rfl, ?_, ?_⟩
    · exact le_max_of_le_right (le_max_right _ _)
    · rw [changed, next, ← max_assoc]
      exact between.ahead.apply (increasing_change increase) place
  | fail here above ended =>
    obtain ⟨w, rfl, sound, calm, same⟩ := applyReplication_error between.working ended
    refine ⟨between.working.insert sound calm _, le_rfl, between.reached, ?_⟩
    rw [same]
    exact between.ahead

theorem Between.run (increase : RevisionsIncrease log) (between : Between setting log high f)
    (run : Relation.ReflTransGen (Step setting log) f f') : Between setting log high f' := by
  induction run with
  | refl => exact between
  | tail _ step ih => exact ih.step increase step

theorem leaderState_replica (log : List (String × Entry N)) (n : Nat) (name : String) (id : Nat) :
    after (log.map change) n (name, id) = (leaderState log n name id).map replica := by
  rw [leaderState, ← after_map, List.map_map]
  rfl

/-- A follower with a snapshot in which each collection is as the leader had it
at an instant of its own, not before the watermark. -/
structure Bootstrapped (setting : Setting N) (log : List (String × Entry N)) (watermark : Nat)
    (instant : String → Nat) (f : Follower N) : Prop where
  working : Working f
  appliedLSN : f.appliedLSN = watermark
  received : f.received = watermark
  furthest : f.furthest = watermark
  late : ∀ name, watermark ≤ instant name
  restored : ∀ name id,
    f.shows setting name id = (leaderState log (instant name) name id).map replica

theorem Bootstrapped.between {watermark : Nat} {instant : String → Nat}
    (bootstrapped : Bootstrapped setting log watermark instant f)
    (instants : ∀ name, instant name ≤ high) : Between setting log high f := by
  obtain ⟨working, applied, received, furthest, late, restored⟩ := bootstrapped
  refine ⟨working, received.le.trans applied.ge, ?_, ?_⟩
  · rw [applied, ← furthest]
    exact le_max_right _ _
  · rintro ⟨name, id⟩
    refine ⟨instant name, applied.le.trans (late name), (instants name).trans (le_max_left _ _), ?_⟩
    rw [leaderState_replica, ← restored]
    rfl

/-- Whatever connections are lost and whatever is replayed, a follower that has
applied the feed through a number that is not below any instant of its
snapshot or any number it had applied has the records of its leader at that
number: their revisions, their deadlines and their data as the lines of the
entries say it, which for an entry that can be stored is the data itself. -/
theorem tailing_converges (increase : RevisionsIncrease log) {watermark : Nat}
    {instant : String → Nat} (bootstrapped : Bootstrapped setting log watermark instant f)
    (run : Relation.ReflTransGen (Step setting log) f f')
    (instants : ∀ name, instant name ≤ f'.appliedLSN) (furthest : f'.furthest ≤ f'.appliedLSN) :
    (∀ name id,
      f'.shows setting name id = (leaderState log f'.appliedLSN name id).map replica) ∧
    ∀ (e : Entry N) (bytes : Bytes), Storable e →
      appendBytes (replRecordToEntry e) = .ok bytes →
      replica e = (e.rev, e.expiresAt, some e.data) := by
  constructor
  · intro name id
    have ended := (bootstrapped.between instants).run increase run
    have same := ended.ahead.eq_after (max_le le_rfl furthest)
    rw [← leaderState_replica, ← same]
    rfl
  · intro e bytes storable accepted
    have kept : Storable (replRecordToEntry e) := storable
    rw [replica, lineData_of_storable kept accepted]
    rfl

end Runs

/-- A log with one record. -/
def shortLog : List (String × Entry Int) :=
  [("c", newInsert 1 (some (oneField "n" 5)) .zero)]

/-- A new follower that applies a record, loses its watermark and takes the record
again. -/
theorem tailing_converges_small :
    ∃ f : Follower Int, f.furthest = 1 ∧
      f.shows ⟨smallConfig, none, .asWritten⟩ "c" 1 =
        (leaderState shortLog 1 "c" 1).map replica := by
  have increase : RevisionsIncrease shortLog := by
    intro i j name first second before here there
    have inside : j < shortLog.length := (List.getElem?_eq_some_iff.mp there).1
    have short : shortLog.length = 1 := rfl
    omega
  have bootstrapped : Bootstrapped ⟨smallConfig, none, .asWritten⟩ shortLog 0 (fun _ => 0)
      ⟨∅, 0, 0, 0⟩ :=
    ⟨nofun, rfl, rfl, rfl, fun _ => le_rfl,
      fun _ id => (fresh_coherent _).2.2 id⟩
  have first : Step ⟨smallConfig, none, .asWritten⟩ shortLog ⟨∅, 0, 0, 0⟩ _ :=
    .apply rfl Nat.zero_lt_one (Prod.ext (by decide +kernel) rfl)
  have taken := Relation.ReflTransGen.single first
  have lost := taken.tail (.restart 0 (Nat.zero_le _))
  have again := lost.tail (.apply rfl Nat.zero_lt_one (Prod.ext (by decide +kernel) rfl))
  exact ⟨_, rfl, (tailing_converges increase bootstrapped again (fun _ => Nat.zero_le _) le_rfl).1
    "c" 1⟩

end Scriva.Replication.Tailing
