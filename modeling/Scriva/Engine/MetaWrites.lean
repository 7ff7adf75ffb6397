import Scriva.Engine.Policies
import Mathlib.Logic.Relation

/-!
# Writing the metadata

Several calls write the metadata of a collection: changes of the policy, the
rotation of a segment and closing hold the lock of the collection from the
snapshot to the end of the write, while a commit takes its snapshot without the
lock and a change of the default lifetime writes its snapshot after releasing
it.  All of them write the same temporary file and rename it.

The calls are taken apart into the steps on the files and run in every
interleaving.  The block on disk stays at the last change of the policy as long
as the temporary file has one writer at a time and no snapshot that is written
without the lock is older than that change.
-/

namespace Scriva.Engine.MetaWrites

open Encryption Policies
open Function (update_of_ne update_self)
open Relation (ReflTransGen)
open Function (update)

structure CollectionMeta where
  idCounter : Nat
  createdAt : Int
  defaultTTLSeconds : Int
  encryption : Option EncryptionMeta
deriving DecidableEq, Repr

/-- The text of the metadata, over some alphabet, can be read back. -/
structure MetaCodec (α : Type) where
  marshal : CollectionMeta → List α
  unmarshal : List α → Option CollectionMeta
  unmarshal_marshal : ∀ m, unmarshal (marshal m) = some m

variable {α : Type}

/-! ## Files -/

/-- The contents of files, and the files that the temporary name and the name of
the metadata stand for. -/
structure Files (α : Type) where
  contents : Nat → List α
  fresh : Nat
  temp : Option Nat
  metaFile : Option Nat

/-- What the metadata on disk says. -/
def Files.onDisk (codec : MetaCodec α) (f : Files α) : Option CollectionMeta :=
  f.metaFile.bind fun file => codec.unmarshal (f.contents file)

/-- How far a write of a snapshot has come. -/
inductive Progress where
  | ready
  | opened (file : Nat)
  | written (file : Nat)
  | ended (success : Bool)
deriving DecidableEq, Repr

structure Persist where
  snapshot : CollectionMeta
  progress : Progress
deriving DecidableEq, Repr

/-- The write is between opening the temporary file and renaming it. -/
def Persist.inTemp (p : Persist) : Bool :=
  match p.progress with
  | .opened _ | .written _ => true
  | _ => false

inductive Act where
  | openTemp
  | writeTemp
  | publish
  | fail
deriving DecidableEq, Repr

/-- The steps of writing a file atomically.  Every call may fail, and then the
temporary file is removed; the sync of the directory comes after the rename. -/
inductive Moves (codec : MetaCodec α) : Files α → Persist → Act → Files α → Persist → Prop where
  | create {f : Files α} {m : CollectionMeta} (vacant : f.temp = none) :
      Moves codec f ⟨m, .ready⟩ .openTemp
        { f with
          contents := update f.contents f.fresh []
          fresh := f.fresh + 1
          temp := some f.fresh }
        ⟨m, .opened f.fresh⟩
  | truncate {f : Files α} {m : CollectionMeta} {file : Nat} (taken : f.temp = some file) :
      Moves codec f ⟨m, .ready⟩ .openTemp
        { f with contents := update f.contents file [] } ⟨m, .opened file⟩
  | createFails {f : Files α} {m : CollectionMeta} :
      Moves codec f ⟨m, .ready⟩ .fail f ⟨m, .ended false⟩
  | write {f : Files α} {m : CollectionMeta} {file : Nat} :
      Moves codec f ⟨m, .opened file⟩ .writeTemp
        { f with
          contents := update f.contents file
            (codec.marshal m ++ (f.contents file).drop (codec.marshal m).length) }
        ⟨m, .written file⟩
  | writeFails {f : Files α} {m : CollectionMeta} {file : Nat} (part : Nat) :
      Moves codec f ⟨m, .opened file⟩ .fail
        { f with
          contents := update f.contents file
            ((codec.marshal m).take part ++ (f.contents file).drop part)
          temp := none }
        ⟨m, .ended false⟩
  | renameFails {f : Files α} {m : CollectionMeta} {file : Nat} :
      Moves codec f ⟨m, .written file⟩ .fail { f with temp := none } ⟨m, .ended false⟩
  | rename {f : Files α} {m : CollectionMeta} {file target : Nat} (there : f.temp = some target)
      (synced : Bool) :
      Moves codec f ⟨m, .written file⟩ .publish
        { f with metaFile := some target, temp := none } ⟨m, .ended synced⟩

/-! ## Calls -/

/-- What a thread does to the metadata: a change of the policy, a call that holds
the lock, or one that does not. -/
inductive Task where
  | idle
  | change (next : EncryptionMeta) (prev : Option EncryptionMeta) (persist : Persist)
  | locked (persist : Persist)
  | unlocked (persist : Persist)
deriving DecidableEq, Repr

def Task.persist? : Task → Option Persist
  | .idle => none
  | .change _ _ p | .locked p | .unlocked p => some p

def Task.moved : Task → Persist → Task
  | .idle, _ => .idle
  | .change next prev _, p => .change next prev p
  | .locked _, p => .locked p
  | .unlocked _, p => .unlocked p

structure State (α : Type) where
  idSeq : Nat
  createdAt : Int
  explicitDefaultTTLSecs : Int
  encMeta : Option EncryptionMeta
  /-- The epoch of the current policy, if there is one. -/
  epoch : Option Nat
  mu : Bool
  tasks : Nat → Task
  files : Files α
  /-- The block of the last change of the policy that has returned. -/
  returned : Option EncryptionMeta
  /-- The block of the last change whose write has succeeded, which has returned
  or is about to. -/
  durable : Option EncryptionMeta

def State.metaSnapshot (s : State α) : CollectionMeta :=
  ⟨s.idSeq, s.createdAt, s.explicitDefaultTTLSecs, s.encMeta⟩

def State.set (s : State α) (thread : Nat) (task : Task) : State α :=
  { s with tasks := update s.tasks thread task }

/-- The change that a thread has just written with success. -/
def Task.wrote : Task → Persist → Option EncryptionMeta
  | .change next _ _, ⟨_, .ended true⟩ => some next
  | _, _ => none

inductive Step (codec : MetaCodec α) (guard : State α → Nat → Act → Prop) : State α → State α → Prop where
  | reserve {s : State α} : Step codec guard s { s with idSeq := s.idSeq + 1 }
  | beginChange {s : State α} {thread : Nat} (idle : s.tasks thread = .idle) (free : s.mu = false)
      (readMode : EncryptionMode) (writePolicy : EncryptionPolicy)
      (keyOverride : Option (String × String)) {next : EncryptionMeta}
      (made : next =
        nextMeta s.encMeta readMode writePolicy (nextEpoch s.epoch) keyOverride) :
      Step codec guard s ({ s with encMeta := some next, mu := true }.set thread
        (.change next s.encMeta
          ⟨{ s with encMeta := some next }.metaSnapshot, .ready⟩))
  | endChange {s : State α} {thread : Nat} {next : EncryptionMeta} {prev : Option EncryptionMeta}
      {m : CollectionMeta} (written : s.tasks thread = .change next prev ⟨m, .ended true⟩) :
      Step codec guard s ({ s with
        mu := false
        epoch := some next.epoch
        returned := some next }.set thread .idle)
  | rollBack {s : State α} {thread : Nat} {next : EncryptionMeta} {prev : Option EncryptionMeta}
      {m : CollectionMeta} (failed : s.tasks thread = .change next prev ⟨m, .ended false⟩) :
      Step codec guard s ({ s with mu := false, encMeta := prev }.set thread .idle)
  | lock {s : State α} {thread : Nat} (idle : s.tasks thread = .idle) (free : s.mu = false) :
      Step codec guard s ({ s with mu := true }.set thread (.locked ⟨s.metaSnapshot, .ready⟩))
  | unlock {s : State α} {thread : Nat} {m : CollectionMeta} {success : Bool}
      (done : s.tasks thread = .locked ⟨m, .ended success⟩) :
      Step codec guard s ({ s with mu := false }.set thread .idle)
  | commit {s : State α} {thread : Nat} (idle : s.tasks thread = .idle) :
      Step codec guard s (s.set thread (.unlocked ⟨s.metaSnapshot, .ready⟩))
  | setDefaultTTL {s : State α} {thread : Nat} (idle : s.tasks thread = .idle)
      (free : s.mu = false) (seconds : Int) :
      Step codec guard s ({ s with explicitDefaultTTLSecs := seconds }.set thread
        (.unlocked ⟨{ s with explicitDefaultTTLSecs := seconds }.metaSnapshot, .ready⟩))
  | finish {s : State α} {thread : Nat} {m : CollectionMeta} {success : Bool}
      (done : s.tasks thread = .unlocked ⟨m, .ended success⟩) :
      Step codec guard s (s.set thread .idle)
  | persist {s : State α} {thread : Nat} {p p' : Persist} {act : Act} {files : Files α}
      (going : (s.tasks thread).persist? = some p)
      (moves : Moves codec s.files p act files p') (meets : guard s thread act) :
      Step codec guard s ({ s with
        files := files
        durable := ((s.tasks thread).wrote p').or s.durable }.set thread
          ((s.tasks thread).moved p'))

/-- A block is a given one or one of a later epoch. -/
def Fresh (since : Option EncryptionMeta) (block : Option EncryptionMeta) : Prop :=
  ∀ r ∈ since, ∃ b ∈ block, r.epoch < b.epoch ∨ b = r

/-- The metadata on disk can be read and has the block of the last change of the
policy that has returned, or a later one. -/
def NotRegressed (codec : MetaCodec α) (s : State α) : Prop :=
  ∀ r ∈ s.returned, ∃ m ∈ s.files.onDisk codec, Fresh (some r) m.encryption

/-- The temporary file has one writer at a time, and a snapshot written without
the lock is not older than the last change. -/
def Calm (s : State α) (thread : Nat) : Act → Prop
  | .openTemp => ∀ other ≠ thread, ∀ p ∈ (s.tasks other).persist?, p.inTemp = false
  | .publish => ∀ p, s.tasks thread = .unlocked p → Fresh s.durable p.snapshot.encryption
  | _ => True

/-! ## Freshness -/

theorem Fresh.refl (block : Option EncryptionMeta) : Fresh block block :=
  fun r there => ⟨r, there, Or.inr rfl⟩

theorem Fresh.trans {first second third : Option EncryptionMeta} (before : Fresh first second)
    (after : Fresh second third) : Fresh first third := by
  intro r there
  obtain ⟨b, middle, older⟩ := before r there
  obtain ⟨c, last, newer⟩ := after b middle
  refine ⟨c, last, ?_⟩
  rcases older with older | rfl
  · rcases newer with newer | rfl
    · exact Or.inl (older.trans newer)
    · exact Or.inl older
  · exact newer

theorem fresh_next {block : Option EncryptionMeta} {next : EncryptionMeta}
    (epoch : next.epoch = nextEpoch (block.map EncryptionMeta.epoch)) :
    Fresh block (some next) := by
  rintro r there
  refine ⟨next, rfl, Or.inl ?_⟩
  rw [epoch, Option.mem_def.mp there]
  exact Nat.lt_succ_self _

/-! ## The files -/

/-- The writer has the temporary file, and what it has written is in it. -/
def TempOk (codec : MetaCodec α) (f : Files α) (p : Persist) : Prop :=
  match p.progress with
  | .opened file => f.temp = some file ∧ f.contents file = []
  | .written file => f.temp = some file ∧ f.contents file = codec.marshal p.snapshot
  | _ => True

/-- The temporary file is not the metadata, and no name stands for a file that is
still to be made. -/
structure Apart (f : Files α) : Prop where
  differ : ∀ file ∈ f.temp, f.metaFile ≠ some file
  temp : ∀ file ∈ f.temp, file < f.fresh
  metaFile : ∀ file ∈ f.metaFile, file < f.fresh

variable {codec : MetaCodec α} {f f' files : Files α} {p p' : Persist} {act : Act}
  {tasks : Nat → Task} {mu : Bool} {thread : Nat} {task : Task} {s s' : State α}

/-- Changing a file that is not the metadata keeps what is on disk. -/
theorem onDisk_update {file : Nat} (other : f.metaFile ≠ some file) (bytes : List α) :
    (f.metaFile.bind fun n => codec.unmarshal (update f.contents file bytes n)) =
      f.onDisk codec := by
  rw [Files.onDisk]
  rcases there : f.metaFile with - | n
  · rfl
  · have differs : n ≠ file := by
      rintro rfl
      exact other there
    rw [Option.bind_some, Option.bind_some, update_of_ne differs]

/-- What a step of a writer does to the files that it has for itself. -/
theorem moves_files (moves : Moves codec f p act f' p') (apart : Apart f) (own : TempOk codec f p) :
    Apart f' ∧ TempOk codec f' p' ∧ p'.snapshot = p.snapshot ∧
      (act ≠ .publish → f'.onDisk codec = f.onDisk codec ∧ p'.progress ≠ .ended true) ∧
      (act = .publish → f'.onDisk codec = some p.snapshot) := by
  cases moves with
  | create vacant =>
    have other : f.metaFile ≠ some f.fresh := fun same =>
      absurd (apart.metaFile _ same) (lt_irrefl _)
    refine ⟨⟨?_, ?_, ?_⟩, ⟨rfl, update_self _ _ _⟩, rfl,
      fun _ => ⟨onDisk_update other [], nofun⟩, nofun⟩
    · rintro file ⟨⟩
      exact other
    · rintro file ⟨⟩
      exact Nat.lt_succ_self _
    · intro file there
      exact (apart.metaFile file there).trans (Nat.lt_succ_self _)
  | @truncate m file taken =>
    exact ⟨⟨apart.differ, apart.temp, apart.metaFile⟩, ⟨taken, update_self _ _ _⟩,
      rfl, fun _ => ⟨onDisk_update (apart.differ file taken) [], nofun⟩, nofun⟩
  | createFails => exact ⟨apart, trivial, rfl, fun _ => ⟨rfl, nofun⟩, nofun⟩
  | @write m file =>
    obtain ⟨taken, blank⟩ := own
    refine ⟨⟨apart.differ, apart.temp, apart.metaFile⟩, ⟨taken, ?_⟩, rfl,
      fun _ => ⟨onDisk_update (apart.differ file taken) _, nofun⟩, nofun⟩
    change update f.contents file _ file = _
    rw [update_self, blank, List.drop_nil, List.append_nil]
  | @writeFails m file part =>
    exact ⟨⟨nofun, nofun, apart.metaFile⟩, trivial, rfl,
      fun _ => ⟨onDisk_update (apart.differ file own.1) _, nofun⟩, nofun⟩
  | renameFails =>
    exact ⟨⟨nofun, nofun, apart.metaFile⟩, trivial, rfl, fun _ => ⟨rfl, nofun⟩, nofun⟩
  | @rename m file target there synced =>
    obtain ⟨taken, whole⟩ := own
    obtain rfl := Option.some.inj (there.symm.trans taken)
    refine ⟨⟨nofun, nofun, ?_⟩, trivial, rfl, fun absurd => absurd rfl |>.elim, fun _ => ?_⟩
    · rintro n ⟨⟩
      exact apart.temp _ there
    · rw [Files.onDisk]
      change codec.unmarshal (f.contents _) = _
      rw [whole, codec.unmarshal_marshal]

/-! ## The lock -/

def Task.holds : Task → Bool
  | .change _ _ _ | .locked _ => true
  | _ => false

/-- The block that the holder of the lock has: a change under way the next one, and
any other call that of the last change. -/
def Holds (s : State α) : Task → Prop
  | .change next prev p =>
    s.encMeta = some next ∧ prev = s.returned ∧ next.epoch = nextEpoch s.epoch ∧
      p.snapshot.encryption = some next ∧
      s.durable = if p.progress = .ended true then some next else s.returned
  | .locked p =>
    s.encMeta = s.returned ∧ s.durable = s.returned ∧ p.snapshot.encryption = s.returned
  | _ => False

theorem Holds.holds (here : Holds s task) : task.holds = true := by
  cases task with
  | idle | unlocked => cases here
  | change | locked => rfl

/-- The lock is free, and the block in memory is that of the last change, or one
thread holds it. -/
def Lock (s : State α) : Prop :=
  (s.mu = false ∧ (∀ i, (s.tasks i).holds = false) ∧ s.encMeta = s.returned ∧
      s.durable = s.returned) ∨
    ∃ holder, s.mu = true ∧ (∀ i ≠ holder, (s.tasks i).holds = false) ∧
      Holds s (s.tasks holder)

theorem Lock.free (lock : Lock s) (free : s.mu = false) :
    (∀ i, (s.tasks i).holds = false) ∧ s.encMeta = s.returned ∧ s.durable = s.returned := by
  rcases lock with ⟨-, rest⟩ | ⟨holder, held, -⟩
  · exact rest
  · cases free.symm.trans held

theorem Lock.holder (lock : Lock s) (going : s.tasks thread = task) (holds : task.holds = true) :
    s.mu = true ∧ (∀ i ≠ thread, (s.tasks i).holds = false) ∧ Holds s task := by
  subst going
  rcases lock with ⟨-, none, -⟩ | ⟨holder, held, others, here⟩
  · cases (none thread).symm.trans holds
  · by_cases same : thread = holder
    · subst same
      exact ⟨held, others, here⟩
    · cases (others thread same).symm.trans holds

theorem holds_update (others : ∀ i ≠ thread, (tasks i).holds = false) :
    ∀ i ≠ thread, (update tasks thread task i).holds = false := by
  intro i differs
  rw [update_of_ne differs]
  exact others i differs

/-- The thread that holds the lock from now on. -/
theorem lock_held (tasks : s'.tasks = update s.tasks thread task) (held : s'.mu = true)
    (others : ∀ i ≠ thread, (s.tasks i).holds = false) (here : Holds s' task) : Lock s' := by
  refine .inr ⟨thread, held, ?_, ?_⟩
  · rw [tasks]
    exact holds_update others
  · rw [tasks, update_self]
    exact here

theorem lock_released (tasks : s'.tasks = update s.tasks thread .idle)
    (free : s'.mu = false) (others : ∀ i ≠ thread, (s.tasks i).holds = false)
    (memory : s'.encMeta = s'.returned) (settled : s'.durable = s'.returned) : Lock s' := by
  refine .inl ⟨free, fun i => ?_, memory, settled⟩
  rw [tasks]
  by_cases here : i = thread
  · rw [here, update_self]
    rfl
  · exact holds_update others i here

/-- A thread without the lock does something else without it. -/
theorem Lock.replace (lock : Lock s) (old : (s.tasks thread).holds = false)
    (new : task.holds = false) (tasks : s'.tasks = update s.tasks thread task)
    (same : (s'.mu, s'.epoch, s'.encMeta, s'.returned, s'.durable) =
      (s.mu, s.epoch, s.encMeta, s.returned, s.durable)) : Lock s' := by
  simp only [Prod.mk.injEq] at same
  obtain ⟨mu, epoch, encMeta, returned, durable⟩ := same
  have none (i : Nat) (free : (s.tasks i).holds = false) : (s'.tasks i).holds = false := by
    rw [tasks]
    by_cases here : i = thread
    · rw [here, update_self, new]
    · rw [update_of_ne here, free]
  rcases lock with ⟨free, all, memory, settled⟩ | ⟨holder, held, others, here⟩
  · refine .inl ⟨mu.trans free, fun i => none i (all i), ?_, ?_⟩
    · rw [encMeta, returned, memory]
    · rw [durable, returned, settled]
  · refine .inr ⟨holder, mu.trans held, fun i differs => none i (others i differs), ?_⟩
    have elsewhere : holder ≠ thread := by
      rintro rfl
      cases old.symm.trans here.holds
    rw [tasks, update_of_ne elsewhere]
    unfold Holds at here ⊢
    rw [epoch, encMeta, returned, durable]
    exact here

/-! ## The temporary file -/

/-- At most one thread writes the temporary file, and it has it for itself. -/
def OneWriter (codec : MetaCodec α) (f : Files α) (tasks : Nat → Task) : Prop :=
  ∃ writer, ∀ i, ∀ p ∈ (tasks i).persist?, TempOk codec f p ∧ (p.inTemp = true → i = writer)

theorem tempOk_of_out (out : p.inTemp = false) : TempOk codec f p := by
  obtain ⟨m, progress⟩ := p
  cases progress with
  | opened | written => cases out
  | ready | ended => trivial

theorem OneWriter.quiet (single : OneWriter codec f tasks)
    (out : ∀ p ∈ task.persist?, p.inTemp = false) :
    OneWriter codec f (update tasks thread task) := by
  obtain ⟨writer, each⟩ := single
  refine ⟨writer, fun i p there => ?_⟩
  by_cases here : i = thread
  · rw [here, update_self] at there
    exact ⟨tempOk_of_out (out p there), fun inside => nomatch (out p there).symm.trans inside⟩
  · rw [update_of_ne here] at there
    exact each i p there

/-- While a writer takes a step on the temporary file no other has it. -/
theorem others_out (single : OneWriter codec s.files s.tasks)
    (going : (s.tasks thread).persist? = some p) (moves : Moves codec s.files p act files p')
    (calm : Calm s thread act) :
    files = s.files ∧ p'.inTemp = false ∨
      ∀ other ≠ thread, ∀ q ∈ (s.tasks other).persist?, q.inTemp = false := by
  obtain ⟨writer, each⟩ := single
  have inside (inTemp : p.inTemp = true) :
      ∀ other ≠ thread, ∀ q ∈ (s.tasks other).persist?, q.inTemp = false := by
    intro other differs q there
    by_contra also
    have here := (each thread p going).2 inTemp
    have too := (each other q there).2 (Bool.eq_true_of_not_eq_false also)
    exact differs (too.trans here.symm)
  cases moves with
  | create vacant => exact Or.inr calm
  | truncate taken => exact Or.inr calm
  | createFails => exact Or.inl ⟨rfl, rfl⟩
  | write | writeFails | renameFails | rename => exact Or.inr (inside rfl)

theorem persist?_moved (going : task.persist? = some p) : (task.moved p').persist? = some p' := by
  cases task with
  | idle => cases going
  | change | locked | unlocked => rfl

theorem OneWriter.moves (single : OneWriter codec s.files s.tasks)
    (going : (s.tasks thread).persist? = some p) (moves : Moves codec s.files p act files p')
    (calm : Calm s thread act) (own : TempOk codec files p') :
    OneWriter codec files (update s.tasks thread ((s.tasks thread).moved p')) := by
  have there' : ((s.tasks thread).moved p').persist? = some p' := persist?_moved going
  rcases others_out single going moves calm with ⟨rfl, out⟩ | others
  · refine single.quiet fun q there => ?_
    rw [there'] at there
    rw [← Option.mem_some_iff.mp there]
    exact out
  · refine ⟨thread, fun i q there => ?_⟩
    by_cases here : i = thread
    · rw [here, update_self, there'] at there
      rw [← Option.mem_some_iff.mp there]
      exact ⟨own, fun _ => here⟩
    · rw [update_of_ne here] at there
      have out := others i here q there
      exact ⟨tempOk_of_out out, fun inside => nomatch out.symm.trans inside⟩

/-! ## Steps and runs -/

structure Inv (codec : MetaCodec α) (s : State α) : Prop where
  lock : Lock s
  epoch : s.epoch = s.returned.map EncryptionMeta.epoch
  apart : Apart s.files
  writer : OneWriter codec s.files s.tasks
  disk : ∀ d ∈ s.durable, ∃ m ∈ s.files.onDisk codec, Fresh (some d) m.encryption

theorem Inv.own (inv : Inv codec s) (here : s.tasks thread = task)
    (going : task.persist? = some p) : TempOk codec s.files p := by
  obtain ⟨writer, each⟩ := inv.writer
  subst here
  exact (each thread p going).1

theorem moves_progress (moves : Moves codec f p act f' p') : p.progress ≠ .ended true := by
  cases moves with
  | _ => exact nofun

theorem wrote_eq_none (going : p.progress ≠ .ended true) : task.wrote p = none := by
  obtain ⟨m, progress⟩ := p
  cases task with
  | change next prev q =>
    cases progress with
    | ended success =>
      cases success with
      | true => exact absurd rfl going
      | false => rfl
    | _ => rfl
  | _ => rfl

theorem wrote_change (next : EncryptionMeta) (prev : Option EncryptionMeta) (q p : Persist) :
    (Task.change next prev q).wrote p =
      if p.progress = .ended true then some next else none := by
  split_ifs with ended
  · obtain ⟨m, progress⟩ := p
    subst ended
    rfl
  · exact wrote_eq_none ended

variable (files) in
/-- A step of a write keeps the lock, and what it publishes is as new as the last
change. -/
theorem Inv.moved (inv : Inv codec s) (going : (s.tasks thread).persist? = some p)
    (start : p.progress ≠ .ended true) (snapshot : p'.snapshot = p.snapshot)
    (calm : Calm s thread act) :
    Lock ({ s with
      files := files
      durable := ((s.tasks thread).wrote p').or s.durable }.set thread
        ((s.tasks thread).moved p')) ∧
      (act = .publish → Fresh (((s.tasks thread).wrote p').or s.durable)
        p.snapshot.encryption) := by
  rcases here : s.tasks thread with - | ⟨next, prev, q⟩ | q | q
  · rw [here] at going
    cases going
  · rw [here] at going
    obtain rfl := Option.some.inj going
    obtain ⟨held, others, kept⟩ := inv.lock.holder here rfl
    obtain ⟨memory, former, numbered, taken, settled⟩ := kept
    rw [if_neg start] at settled
    rw [wrote_change]
    refine ⟨lock_held rfl held others ⟨memory, former, numbered, ?_, ?_⟩, fun _ => ?_⟩
    · rw [snapshot, taken]
    · change (if p'.progress = .ended true then some next else none).or s.durable = _
      split_ifs
      · rfl
      · exact settled
    · rw [taken, settled]
      split_ifs
      · exact Fresh.refl _
      · rw [inv.epoch] at numbered
        exact fresh_next numbered
  · rw [here] at going
    obtain rfl := Option.some.inj going
    obtain ⟨held, others, kept⟩ := inv.lock.holder here rfl
    obtain ⟨memory, settled, taken⟩ := kept
    refine ⟨lock_held rfl held others ⟨memory, settled, snapshot ▸ taken⟩, fun _ => ?_⟩
    change Fresh s.durable _
    rw [taken, settled]
    exact Fresh.refl _
  · rw [here] at going
    obtain rfl := Option.some.inj going
    refine ⟨inv.lock.replace (by rw [here]; rfl) rfl rfl rfl, ?_⟩
    rintro rfl
    exact calm q here

theorem Inv.persist (inv : Inv codec s) (going : (s.tasks thread).persist? = some p)
    (moves : Moves codec s.files p act files p') (calm : Calm s thread act) :
    Inv codec ({ s with
      files := files
      durable := ((s.tasks thread).wrote p').or s.durable }.set thread
        ((s.tasks thread).moved p')) := by
  obtain ⟨apart, own, snapshot, silent, published⟩ :=
    moves_files moves inv.apart (inv.own rfl going)
  obtain ⟨lock, fresh⟩ := inv.moved files going (moves_progress moves) snapshot calm
  refine ⟨lock, inv.epoch, apart, inv.writer.moves going moves calm own, fun d there => ?_⟩
  change d ∈ ((s.tasks thread).wrote p').or s.durable at there
  by_cases publish : act = .publish
  · refine ⟨p.snapshot, published publish, ?_⟩
    rintro r ⟨⟩
    exact fresh publish d there
  · obtain ⟨same, ending⟩ := silent publish
    rw [wrote_eq_none ending, Option.none_or] at there
    obtain ⟨m, found, fresh⟩ := inv.disk d there
    exact ⟨m, same.trans found, fresh⟩

theorem inv_step (inv : Inv codec s) (step : Step codec Calm s s') : Inv codec s' := by
  cases step with
  | reserve => exact ⟨inv.lock, inv.epoch, inv.apart, inv.writer, inv.disk⟩
  | @beginChange thread idle free readMode writePolicy keyOverride next made =>
    obtain ⟨none, memory, settled⟩ := inv.lock.free free
    refine ⟨lock_held rfl rfl (fun i _ => none i) ⟨rfl, memory, ?_, rfl, settled⟩, inv.epoch,
      inv.apart, inv.writer.quiet ?_, inv.disk⟩
    · rw [made]
      rfl
    · rintro p ⟨⟩
      rfl
  | @endChange thread next prev m written =>
    obtain ⟨-, others, kept⟩ := inv.lock.holder written rfl
    obtain ⟨memory, -, -, -, settled⟩ := kept
    refine ⟨lock_released rfl rfl others memory settled, rfl, inv.apart, inv.writer.quiet ?_,
      inv.disk⟩
    rintro p ⟨⟩
  | @rollBack thread next prev m failed =>
    obtain ⟨-, others, kept⟩ := inv.lock.holder failed rfl
    obtain ⟨-, former, -, -, settled⟩ := kept
    refine ⟨lock_released rfl rfl others former settled, inv.epoch, inv.apart,
      inv.writer.quiet ?_, inv.disk⟩
    rintro p ⟨⟩
  | @lock thread idle free =>
    obtain ⟨none, memory, settled⟩ := inv.lock.free free
    refine ⟨lock_held rfl rfl (fun i _ => none i) ⟨memory, settled, memory⟩, inv.epoch,
      inv.apart, inv.writer.quiet ?_, inv.disk⟩
    rintro p ⟨⟩
    rfl
  | @unlock thread m success done =>
    obtain ⟨-, others, kept⟩ := inv.lock.holder done rfl
    obtain ⟨memory, settled, -⟩ := kept
    refine ⟨lock_released rfl rfl others memory settled, inv.epoch, inv.apart,
      inv.writer.quiet ?_, inv.disk⟩
    rintro p ⟨⟩
  | @commit thread idle | @setDefaultTTL thread idle =>
    refine ⟨inv.lock.replace (by rw [idle]; rfl) rfl rfl rfl, inv.epoch, inv.apart,
      inv.writer.quiet ?_, inv.disk⟩
    rintro p ⟨⟩
    rfl
  | @finish thread m success done =>
    refine ⟨inv.lock.replace (by rw [done]; rfl) rfl rfl rfl, inv.epoch, inv.apart,
      inv.writer.quiet ?_, inv.disk⟩
    rintro p ⟨⟩
  | persist going moves calm => exact inv.persist going moves calm

/-- A collection that was opened with a block, or without one, and has no call
under way.  A temporary file may have been left behind. -/
structure Opened (codec : MetaCodec α) (s : State α) : Prop where
  free : s.mu = false
  idle : ∀ i, s.tasks i = .idle
  epoch : s.epoch = s.encMeta.map EncryptionMeta.epoch
  returned : s.returned = s.encMeta
  durable : s.durable = s.encMeta
  apart : Apart s.files
  disk : ∃ m ∈ s.files.onDisk codec, m.encryption = s.encMeta

theorem inv_opened (opened : Opened codec s) : Inv codec s := by
  refine ⟨.inl ⟨opened.free, fun i => ?_, opened.returned.symm, ?_⟩, ?_, opened.apart,
    ⟨0, fun i p there => ?_⟩, fun d there => ?_⟩
  · rw [opened.idle i]
    rfl
  · rw [opened.durable, opened.returned]
  · rw [opened.epoch, opened.returned]
  · rw [opened.idle i] at there
    cases there
  · obtain ⟨m, found, same⟩ := opened.disk
    rw [opened.durable] at there
    refine ⟨m, found, ?_⟩
    rw [same, ← Option.mem_def.mp there]
    exact Fresh.refl _

theorem inv_run (inv : Inv codec s) (run : ReflTransGen (Step codec Calm) s s') :
    Inv codec s' := by
  induction run with
  | refl => exact inv
  | tail _ step ih => exact inv_step ih step

/-- The last change whose write has succeeded is the last that has returned, or a
later one. -/
theorem Inv.fresh_durable (inv : Inv codec s) : Fresh s.returned s.durable := by
  rcases inv.lock with ⟨-, -, -, settled⟩ | ⟨holder, -, -, kept⟩
  · rw [settled]
    exact Fresh.refl _
  · generalize s.tasks holder = task at kept
    cases task with
    | idle | unlocked => cases kept
    | change next prev p =>
      obtain ⟨-, -, numbered, -, settled⟩ := kept
      rw [settled]
      split_ifs
      · rw [inv.epoch] at numbered
        exact fresh_next numbered
      · exact Fresh.refl _
    | locked p =>
      rw [kept.2.1]
      exact Fresh.refl _

/-- In every interleaving of calls in which the temporary file has one writer at
a time and no snapshot that is written without the lock is older than the last
change, the metadata on disk never falls behind a change of the policy that has
returned.  A snapshot without the lock that is older puts an older block on
disk. -/
theorem meta_never_regresses_iff (codec : MetaCodec α) (s₀ s : State α) (opened : Opened codec s₀)
    (run : ReflTransGen (Step codec Calm) s₀ s) :
    NotRegressed codec s ∧
      ∀ thread p p' files, s.tasks thread = .unlocked p →
        Moves codec s.files p .publish files p' →
          ((∀ d ∈ s.durable, ∃ m ∈ files.onDisk codec, Fresh (some d) m.encryption) ↔
            Fresh s.durable p.snapshot.encryption) := by
  have inv := inv_run (inv_opened opened) run
  constructor
  · intro r there
    obtain ⟨d, durable, newer⟩ := inv.fresh_durable r there
    obtain ⟨m, found, fresh⟩ := inv.disk d durable
    have older : Fresh (some r) (some d) := by
      rintro r' ⟨⟩
      exact ⟨d, rfl, newer⟩
    exact ⟨m, found, older.trans fresh⟩
  · intro thread p p' files going moves
    obtain ⟨-, -, -, -, published⟩ := moves_files moves inv.apart (inv.own going rfl)
    have there := published rfl
    constructor
    · intro disk d durable
      obtain ⟨m, found, fresh⟩ := disk d durable
      obtain rfl := Option.some.inj (there.symm.trans found)
      exact fresh d rfl
    · intro fresh d durable
      refine ⟨_, there, ?_⟩
      rintro d' ⟨⟩
      exact fresh d durable

/-! ## A commit and a change of the policy -/

/-- A text of one symbol. -/
def oneSymbol : MetaCodec CollectionMeta where
  marshal m := [m]
  unmarshal text := text.head?
  unmarshal_marshal _ := rfl

/-- A plain collection that has just been opened. -/
def plainState : State CollectionMeta where
  idSeq := 0
  createdAt := 0
  explicitDefaultTTLSecs := 0
  encMeta := none
  epoch := none
  mu := false
  tasks _ := .idle
  files := ⟨fun _ => [⟨0, 0, 0, none⟩], 1, none, some 0⟩
  returned := none
  durable := none

theorem opened_plainState : Opened oneSymbol plainState := by
  refine ⟨rfl, fun _ => rfl, rfl, rfl, rfl, ⟨?_, ?_, ?_⟩, ⟨_, rfl, rfl⟩⟩
  · rintro file ⟨⟩
  · rintro file ⟨⟩
  · rintro file ⟨⟩
    exact Nat.zero_lt_one

def firstBlock : EncryptionMeta :=
  nextMeta none .record ⟨.record, [], []⟩ 1 (some ("check", "k1"))

theorem tasks_set_of_ne {thread i : Nat} {task : Task} (differs : i ≠ thread) :
    (s.set thread task).tasks i = s.tasks i :=
  update_of_ne differs _ _

/-- One call is under way beside a thread, and it is not in its temporary file. -/
theorem calm_openTemp (thread other : Nat)
    (idle : ∀ i, i ≠ thread → i ≠ other → s.tasks i = .idle)
    (outside : ∀ p ∈ (s.tasks other).persist?, p.inTemp = false) : Calm s thread .openTemp := by
  intro i differs p there
  rcases eq_or_ne i other with rfl | apart
  · exact outside p there
  · rw [idle i differs apart] at there
    cases there

/-- While a change of the policy is under way a commit takes its snapshot, with the
block of the change, and writes it after the change has returned. -/
theorem meta_kept_by_commit :
    ∃ s, ReflTransGen (Step oneSymbol Calm) plainState s ∧
      s.returned = some firstBlock ∧ s.files.onDisk oneSymbol = some ⟨0, 0, 0, some firstBlock⟩ ∧
      NotRegressed oneSymbol s := by
  have begun := ReflTransGen.single (@Step.beginChange _ oneSymbol Calm plainState 1
    rfl rfl .record ⟨.record, [], []⟩ (some ("check", "k1")) _ rfl)
  have snapshot := begun.tail (@Step.commit _ _ _ _ 0 rfl)
  have created := snapshot.tail (@Step.persist _ _ _ _ 1 _ _ _ _ rfl (.create rfl) (by
    refine calm_openTemp 1 0 (fun i here there => ?_) ?_
    · simp only [tasks_set_of_ne here, tasks_set_of_ne there]
      rfl
    · rintro p ⟨⟩
      rfl))
  have wrote := created.tail (@Step.persist _ _ _ _ 1 _ _ _ _ rfl .write trivial)
  have renamed := wrote.tail (@Step.persist _ _ _ _ 1 _ _ _ _ rfl (.rename rfl true)
    fun _ unlocked => by cases unlocked)
  have returned := renamed.tail (@Step.endChange _ _ _ _ 1 _ _ _ rfl)
  have created' := returned.tail (@Step.persist _ _ _ _ 0 _ _ _ _ rfl (.create rfl) (by
    refine calm_openTemp 0 1 (fun i here there => ?_) ?_
    · simp only [tasks_set_of_ne here, tasks_set_of_ne there]
      rfl
    · rintro p ⟨⟩))
  have wrote' := created'.tail (@Step.persist _ _ _ _ 0 _ _ _ _ rfl .write trivial)
  have last := wrote'.tail (@Step.persist _ _ _ _ 0 _ _ _ _ rfl (.rename rfl true) (by
    rintro p ⟨⟩
    exact Fresh.refl _))
  have ended := last.tail (@Step.finish _ _ _ _ 0 _ _ rfl)
  exact ⟨_, ended, rfl, rfl, (meta_never_regresses_iff oneSymbol _ _ opened_plainState ended).1⟩

/-- A commit takes its snapshot, a policy is enabled and the call returns, and
then the commit writes its snapshot: the metadata on disk has no policy. -/
theorem commit_overwrites_policy :
    ∃ s, ReflTransGen (Step oneSymbol fun _ _ _ => True) plainState s ∧
      s.returned = some firstBlock ∧
      s.files.onDisk oneSymbol = some ⟨0, 0, 0, none⟩ ∧ ¬NotRegressed oneSymbol s := by
  have snapshot := ReflTransGen.single
    (@Step.commit _ oneSymbol (fun _ _ _ => True) plainState 0 rfl)
  have begun := snapshot.tail (@Step.beginChange _ _ _ _ 1 rfl rfl .record
    ⟨.record, [], []⟩ (some ("check", "k1")) _ rfl)
  have created := begun.tail (@Step.persist _ _ _ _ 1 _ _ _ _ rfl (.create rfl) trivial)
  have wrote := created.tail (@Step.persist _ _ _ _ 1 _ _ _ _ rfl .write trivial)
  have renamed := wrote.tail (@Step.persist _ _ _ _ 1 _ _ _ _ rfl (.rename rfl true) trivial)
  have returned := renamed.tail (@Step.endChange _ _ _ _ 1 _ _ _ rfl)
  have created' := returned.tail (@Step.persist _ _ _ _ 0 _ _ _ _ rfl (.create rfl) trivial)
  have wrote' := created'.tail (@Step.persist _ _ _ _ 0 _ _ _ _ rfl .write trivial)
  have last := wrote'.tail (@Step.persist _ _ _ _ 0 _ _ _ _ rfl (.rename rfl true) trivial)
  refine ⟨_, last, rfl, rfl, fun kept => ?_⟩
  obtain ⟨m, ⟨⟩, fresh⟩ := kept firstBlock rfl
  obtain ⟨b, absent, -⟩ := fresh firstBlock rfl
  cases absent

end Scriva.Engine.MetaWrites
