import Scriva.Replication.Broker

/-!
# Followers across restarts of their leader

A leader notes the last number it assigned when it is closed, and only then.
After a crash it goes on from the number noted before, with nothing in its
buffer.  A follower comes back with the last number it applied: it is refused
if that is below what the leader can serve, and otherwise it takes what it is
sent, passing over the records that are not above its own number.

So whether a follower gets everything depends on where it stood when the leader
crashed.  It does if it was below the noted number, since it is then refused,
or had applied all that was assigned and nothing is published again under a
number that it has seen.
-/

namespace Scriva.Replication.Restarts

open Lib.Keyed Store.Ndjson Broker
open Relation (ReflTransGen)

variable {N : Type}

/-! ## A leader and its followers -/

/-- A follower: its watermark, the subscription it reads and how many records it
has taken from it, the commits it has applied, and whether it was told to
start again from a snapshot.  A commit is an entry together with the start of
the leader it belongs to. -/
structure Replica (N : Type) where
  appliedLSN : Nat
  stream : Option (Nat × Nat)
  applied : List (Nat × ReplicationEntry N)
  refused : Bool

structure Cluster (N : Type) where
  /-- The number in the state file of the leader. -/
  noted : Nat
  /-- How often the leader was started before. -/
  starts : Nat
  /-- What the leader has committed since it was started last. -/
  feed : Feed N
  /-- What it had committed before. -/
  past : List (Nat × ReplicationEntry N)
  followers : String → Option (Replica N)

/-- All that the leader has committed. -/
def Cluster.commits (s : Cluster N) : List (Nat × ReplicationEntry N) :=
  s.past ++ s.feed.log.map fun re => (s.starts, re)

def Cluster.setFollower (s : Cluster N) (name : String) (f : Replica N) : Cluster N :=
  { s with followers := Function.update s.followers name (some f) }

/-- A follower takes a record: one that is not above its watermark is passed
over. -/
def Replica.take (f : Replica N) (starts id taken : Nat) (re : ReplicationEntry N) : Replica N :=
  if re.lsn ≤ f.appliedLSN then { f with stream := some (id, taken + 1) }
  else
    { f with
      appliedLSN := re.lsn
      stream := some (id, taken + 1)
      applied := f.applied ++ [(starts, re)] }

/-- The leader after a start that found a number in the state file. -/
def Cluster.restarted (s : Cluster N) (ringSize subBuf : Int) (noted : Nat) : Cluster N where
  noted := noted
  starts := s.starts + 1
  feed := Feed.start ringSize subBuf noted
  past := s.commits
  followers := fun name => (s.followers name).map fun f => { f with stream := none }

/-- What a follower does while it keeps tailing, and what the leader does for its
stream. -/
inductive Tails (name : String) : Cluster N → Cluster N → Prop where
  | connect {s : Cluster N} {f : Replica N} {broker : ReplicationBroker N} {id : Nat}
      {sub : ReplSub N} (found : s.followers name = some f) (idle : f.stream = none)
      (willing : f.refused = false) (unlocked : s.feed.sending = none)
      (accepted : s.feed.broker.subscribe f.appliedLSN = some (broker, id, sub)) :
      Tails name s (Cluster.setFollower
        { s with feed := { s.feed with broker, subs := s.feed.subs.insert id sub } } name
        { f with stream := some (id, 0) })
  /-- Something that the follower needs is no longer kept. -/
  | refuse {s : Cluster N} {f : Replica N} (found : s.followers name = some f)
      (idle : f.stream = none) (willing : f.refused = false) (unlocked : s.feed.sending = none)
      (behind : s.feed.broker.subscribe f.appliedLSN = none) :
      Tails name s (s.setFollower name { f with refused := true })
  /-- The channel was full. -/
  | overflow {s : Cluster N} {f : Replica N} {id taken : Nat} {sub : ReplSub N}
      (found : s.followers name = some f) (tailing : f.stream = some (id, taken))
      (subscribed : s.feed.subs.lookup id = some sub) (dead : sub.dead = true) :
      Tails name s (s.setFollower name { f with stream := none, refused := true })
  /-- The leader takes an entry from the channel and sends it. -/
  | receive {s : Cluster N} {f : Replica N} {id taken : Nat} {sub : ReplSub N}
      (found : s.followers name = some f) (tailing : f.stream = some (id, taken))
      (subscribed : s.feed.subs.lookup id = some sub) :
      Tails name s { s with feed := { s.feed with subs := s.feed.subs.insert id sub.receive } }
  | take {s : Cluster N} {f : Replica N} {id taken : Nat} {sub : ReplSub N}
      {re : ReplicationEntry N} (found : s.followers name = some f)
      (tailing : f.stream = some (id, taken)) (subscribed : s.feed.subs.lookup id = some sub)
      (next : sub.given[taken]? = some re) :
      Tails name s (s.setFollower name (f.take s.starts id taken re))
  /-- A stream that the leader has ended is given up. -/
  | ended {s : Cluster N} {f : Replica N} {id taken : Nat} (found : s.followers name = some f)
      (tailing : f.stream = some (id, taken)) (gone : id ∉ s.feed.broker.subs) :
      Tails name s (s.setFollower name { f with stream := none })

inductive Step : Cluster N → Cluster N → Prop where
  | tails {s s' : Cluster N} (name : String) (step : Tails name s s') : Step s s'
  /-- What the broker does besides publishing. -/
  | serve {s : Cluster N} {feed : Feed N} (step : Broker.Step s.feed feed)
      (quiet : feed.log = s.feed.log) : Step s { s with feed }
  | publish {s : Cluster N} (unlocked : s.feed.sending = none) (collection : String)
      (entry : Entry N) :
      Step s { s with feed := { s.feed with
        broker := (s.feed.broker.record collection entry).1
        sending := some ((s.feed.broker.record collection entry).2, s.feed.broker.subs)
        log := s.feed.log ++ [(s.feed.broker.record collection entry).2] } }
  | disconnect {s : Cluster N} {name : String} {f : Replica N}
      (found : s.followers name = some f) : Step s (s.setFollower name { f with stream := none })
  /-- A follower starts from a snapshot that has all that was committed. -/
  | bootstrap {s : Cluster N} (unlocked : s.feed.sending = none) (name : String) :
      Step s (s.setFollower name ⟨s.feed.broker.lsn, none, s.commits, false⟩)
  /-- A leader that was closed had noted its last number. -/
  | close {s : Cluster N} (ringSize subBuf : Int) :
      Step s (s.restarted ringSize subBuf s.feed.broker.lsn)
  | crash {s : Cluster N} (ringSize subBuf : Int) :
      Step s (s.restarted ringSize subBuf s.noted)

/-- A leader that is started for the first time here. -/
def Cluster.start (ringSize subBuf : Int) (noted : Nat) : Cluster N :=
  ⟨noted, 0, Feed.start ringSize subBuf noted, [], fun _ => none⟩

/-! ## What followers can rely on -/

/-- A follower that reads a stream and has taken all there is. -/
def Drained (s : Cluster N) (f : Replica N) : Prop :=
  s.feed.sending = none ∧ ∃ id sub, f.stream = some (id, sub.given.length) ∧
    s.feed.subs.lookup id = some sub ∧ id ∈ s.feed.broker.subs ∧ sub.dead = false ∧ sub.ch = []

/-- No commit is skipped without a word. -/
structure NothingSkipped (s : Cluster N) : Prop where
  /-- A record that will be passed over has been applied. -/
  discards : ∀ name f id taken sub re, s.followers name = some f →
    f.stream = some (id, taken) → s.feed.subs.lookup id = some sub →
    sub.given[taken]? = some re → re.lsn ≤ f.appliedLSN → (s.starts, re) ∈ f.applied
  /-- A follower that has taken all there is has applied every commit. -/
  complete : ∀ name f, s.followers name = some f → Drained s f →
    ∀ commit ∈ s.commits, commit ∈ f.applied
  /-- A follower that keeps tailing comes to have applied every commit or is told to
  start again. -/
  progress : ∀ name f, s.followers name = some f → s.feed.sending = none →
    ∃ s' f', ReflTransGen (Tails name) s s' ∧ s'.followers name = some f' ∧
      (f'.refused = true ∨ ∀ commit ∈ s.commits, commit ∈ f'.applied)

/-- What is needed for an entry to be published: no follower has applied more
than the leader has assigned. -/
def MayPublish (s : Cluster N) : Prop :=
  ∀ name f, s.followers name = some f → f.refused = false → f.appliedLSN ≤ s.feed.broker.lsn

/-- What is needed for a start that finds a number in the state file: every
follower is below that number or has applied all that was assigned. -/
def MayRestart (noted : Nat) (s : Cluster N) : Prop :=
  ∀ name f, s.followers name = some f → f.refused = false →
    f.appliedLSN < noted ∨ s.feed.broker.lsn ≤ f.appliedLSN

/-- A step that is safe for the followers. -/
def Careful (s s' : Cluster N) : Prop :=
  Step s s' ∧ (s.feed.log.length < s'.feed.log.length → MayPublish s) ∧
    (s.starts < s'.starts → MayRestart s'.noted s)

/-! ## Subscriptions over time -/

/-- A subscription later: it may have been given more. -/
structure Grown (sub sub' : ReplSub N) : Prop where
  fromLSN : sub'.fromLSN = sub.fromLSN
  opened : sub'.opened = sub.opened
  given : sub.given.length ≤ sub'.given.length

theorem Grown.refl (sub : ReplSub N) : Grown sub sub :=
  ⟨rfl, rfl, le_rfl⟩

theorem grown_offer (subBuf : Nat) (re : ReplicationEntry N) (sub : ReplSub N) :
    Grown sub (sub.offer subBuf re) := by
  unfold ReplSub.offer
  split_ifs
  · exact .refl sub
  · exact ⟨rfl, rfl, le_rfl⟩
  · exact ⟨rfl, rfl, le_rfl⟩

theorem grown_receive (sub : ReplSub N) : Grown sub sub.receive := by
  unfold ReplSub.receive
  split
  · exact .refl sub
  · refine ⟨rfl, rfl, ?_⟩
    rw [ReplSub.given, ReplSub.given, List.length_append, List.length_append, List.length_append]
    exact Nat.add_le_add_left (Nat.le_add_right _ _) _

theorem dead_receive (sub : ReplSub N) : sub.receive.dead = sub.dead := by
  unfold ReplSub.receive
  split
  · rfl
  · rfl

/-- Every subscription is still there, and may have been given more. -/
def Grows (subs subs' : Map Nat (ReplSub N)) : Prop :=
  ∀ id sub, subs.lookup id = some sub → ∃ sub', subs'.lookup id = some sub' ∧ Grown sub sub'

theorem grows_refl (subs : Map Nat (ReplSub N)) : Grows subs subs :=
  fun _ sub found => ⟨sub, found, .refl sub⟩

variable {subs : Map Nat (ReplSub N)} {sub : ReplSub N}

theorem grows_insert {id : Nat} {sub' : ReplSub N} (found : subs.lookup id = some sub)
    (grown : Grown sub sub') : Grows subs (subs.insert id sub') := by
  intro other held there
  rw [lookup_insert_if]
  split_ifs with same
  · rw [same, found] at there
    cases there
    exact ⟨sub', rfl, grown⟩
  · exact ⟨held, there, .refl held⟩

theorem grows_new {id : Nat} (unused : subs.lookup id = none) (sub : ReplSub N) :
    Grows subs (subs.insert id sub) := by
  intro other held there
  rw [lookup_insert_if]
  split_ifs with same
  · rw [same, unused] at there
    cases there
  · exact ⟨held, there, .refl held⟩

variable {broker : ReplicationBroker N}

section Feeds

variable {restored : Nat} {s s' : Feed N}

theorem lookup_subscribed (invariant : Broker.Invariant restored s) {fromLSN id : Nat}
    (accepted : s.broker.subscribe fromLSN = some (broker, id, sub)) : s.subs.lookup id = none := by
  unfold ReplicationBroker.subscribe at accepted
  split_ifs at accepted
  simp only [Option.some.injEq, Prod.mk.injEq] at accepted
  obtain ⟨-, rfl, -⟩ := accepted
  rcases found : s.subs.lookup (s.broker.subSeq + 1) with - | held
  · rfl
  · exact absurd (invariant.ids _ held found) (Nat.not_succ_le_self _)

theorem grows_step (invariant : Broker.Invariant restored s) (step : Broker.Step s s') :
    Grows s.subs s'.subs := by
  cases step with
  | publish => exact grows_refl _
  | send sending next found => exact grows_insert found (grown_offer _ _ _)
  | unlock => exact grows_refl _
  | subscribe unlocked fromLSN accepted =>
    exact grows_new (lookup_subscribed invariant accepted) _
  | unsubscribe => exact grows_refl _
  | receive found => exact grows_insert found (grown_receive _)

end Feeds

/-! ## The invariant -/

/-- Where a follower is in the subscription that it reads. -/
structure Reads (s : Cluster N) (f : Replica N) (taken : Nat) (sub : ReplSub N) : Prop where
  served : s.noted ≤ f.appliedLSN
  place : f.appliedLSN = sub.fromLSN + taken
  within : taken ≤ sub.given.length
  assigned : sub.fromLSN ≤ sub.opened ∨ s.feed.log = []

/-- What a follower that was not refused has applied: everything up to its
watermark, unless the watermark is too low to be served. -/
structure Tracks (s : Cluster N) (f : Replica N) : Prop where
  past : s.noted ≤ f.appliedLSN → ∀ commit ∈ s.past, commit ∈ f.applied
  present : s.noted ≤ f.appliedLSN → ∀ re ∈ s.feed.log, re.lsn ≤ f.appliedLSN →
    (s.starts, re) ∈ f.applied
  bounded : f.appliedLSN ≤ s.feed.broker.lsn ∨ s.feed.log = []
  reads : ∀ id taken, f.stream = some (id, taken) →
    ∃ sub, s.feed.subs.lookup id = some sub ∧ Reads s f taken sub
  known : ∀ commit ∈ f.applied, commit.1 < s.starts ∨
    commit.1 = s.starts ∧ commit.2.lsn ≤ f.appliedLSN

structure Safe (s : Cluster N) : Prop where
  feed : Broker.Invariant s.noted s.feed
  past : ∀ commit ∈ s.past, commit.1 < s.starts
  tracks : ∀ name f, s.followers name = some f → f.refused = false → Tracks s f
  refused : ∀ name f, s.followers name = some f → f.refused = true → f.stream = none

section Steps

variable {s s' : Cluster N} {f : Replica N} {name : String}

/-- A follower that does nothing while the broker serves. -/
theorem Tracks.serve {feed : Feed N} (tracks : Tracks s f) (log : feed.log = s.feed.log)
    (lsn : feed.broker.lsn = s.feed.broker.lsn) (grows : Grows s.feed.subs feed.subs) :
    Tracks { s with feed } f := by
  obtain ⟨past, present, bounded, reads, known⟩ := tracks
  refine ⟨past, ?_, ?_, ?_, known⟩
  · dsimp only
    rw [log]
    exact present
  · dsimp only
    rw [log, lsn]
    exact bounded
  · intro id taken stream
    obtain ⟨sub, found, served, place, within, assigned⟩ := reads id taken stream
    obtain ⟨sub', found', grown⟩ := grows id sub found
    refine ⟨sub', found', served, ?_, within.trans grown.given, ?_⟩
    · rw [grown.fromLSN, place]
    · dsimp only
      rw [grown.fromLSN, grown.opened, log]
      exact assigned

theorem Tracks.closed (tracks : Tracks s f) : Tracks s { f with stream := none } :=
  ⟨tracks.past, tracks.present, tracks.bounded, nofun, tracks.known⟩

variable {re : ReplicationEntry N}

/-- The number of the next record is the one after the watermark. -/
theorem Reads.next (safe : Broker.Invariant s.noted s.feed) {taken id : Nat}
    (found : s.feed.subs.lookup id = some sub) (reads : Reads s f taken sub)
    (next : sub.given[taken]? = some re) : re.lsn = f.appliedLSN + 1 ∧ re ∈ s.feed.log := by
  have inside : re ∈ sub.given := List.mem_of_getElem? next
  rcases reads.assigned with assigned | empty
  · obtain ⟨numbers, start⟩ := safe.contiguous found assigned
    refine ⟨?_, List.mem_of_mem_filter (start.subset inside)⟩
    have number : (sub.given.map ReplicationEntry.lsn)[taken]? = some re.lsn := by
      rw [List.getElem?_map, next]
      rfl
    have short : taken < sub.given.length := (List.getElem?_eq_some_iff.mp next).1
    rw [numbers, List.getElem?_range' short, Option.some.injEq] at number
    have place := reads.place
    omega
  · have run := (safe.follows id sub found).run
    rw [empty, List.drop_nil, List.prefix_nil] at run
    rw [(List.append_eq_nil_iff.mp run).1] at inside
    cases inside

/-- What a follower has applied does not depend on the other followers. -/
theorem Tracks.setFollower (tracks : Tracks s f) (name : String) (g : Replica N) :
    Tracks (s.setFollower name g) f := by
  obtain ⟨past, present, bounded, reads, known⟩ := tracks
  refine ⟨past, present, bounded, ?_, known⟩
  intro id taken stream
  obtain ⟨sub, found, served, place, within, assigned⟩ := reads id taken stream
  exact ⟨sub, found, served, place, within, assigned⟩

theorem Safe.setFollower (safe : Safe s) (name : String)
    (tracks : f.refused = false → Tracks s f) (refused : f.refused = true → f.stream = none) :
    Safe (s.setFollower name f) := by
  refine ⟨safe.feed, safe.past, ?_, ?_⟩
  · intro other held there willing
    rw [Cluster.setFollower] at there
    dsimp only at there
    rw [Function.update_apply] at there
    split_ifs at there with same
    · cases there
      exact (tracks willing).setFollower name f
    · exact (safe.tracks other held there willing).setFollower name f
  · intro other held there
    rw [Cluster.setFollower] at there
    dsimp only at there
    rw [Function.update_apply] at there
    split_ifs at there with same
    · cases there
      exact refused
    · exact safe.refused other held there

/-- Only a follower that was not refused reads a stream. -/
theorem Safe.willing (safe : Safe s) (found : s.followers name = some f) {id taken : Nat}
    (tailing : f.stream = some (id, taken)) : f.refused = false := by
  rcases shape : f.refused with - | -
  · rfl
  · rw [safe.refused name f found shape] at tailing
    cases tailing

theorem Numbered.eq_of_lsn {restored : Nat} {log : List (ReplicationEntry N)}
    (numbered : Numbered restored log) {re' : ReplicationEntry N} (inside : re ∈ log)
    (inside' : re' ∈ log) (same : re.lsn = re'.lsn) : re = re' := by
  have distinct : (log.map ReplicationEntry.lsn).Nodup := by
    rw [numbered]
    exact List.nodup_range'
  exact List.inj_on_of_nodup_map distinct inside inside' same

theorem Tracks.take (safe : Safe s) (tracks : Tracks s f) {id taken : Nat}
    (tailing : f.stream = some (id, taken)) (subscribed : s.feed.subs.lookup id = some sub)
    (next : sub.given[taken]? = some re) : Tracks s (f.take s.starts id taken re) := by
  obtain ⟨past, present, bounded, reads, known⟩ := tracks
  obtain ⟨sub', found, place⟩ := reads id taken tailing
  rw [subscribed] at found
  cases found
  obtain ⟨number, inside⟩ := place.next safe.feed subscribed next
  have above : ¬re.lsn ≤ f.appliedLSN := by omega
  rw [Replica.take, if_neg above]
  refine ⟨?_, ?_, ?_, ?_, ?_⟩
  · intro _ commit member
    exact List.mem_append_left _ (past place.served commit member)
  · intro _ other there below
    dsimp only at below
    rcases Nat.lt_or_ge f.appliedLSN other.lsn with later | earlier
    · -- only the record just taken has the new number
      have same := Numbered.eq_of_lsn safe.feed.keeps.numbered there inside (by omega)
      rw [same]
      exact List.mem_append_right _ (.head _)
    · exact List.mem_append_left _ (present place.served other there earlier)
  · left
    have upper := (safe.feed.keeps.numbered.bounds inside).2
    rw [safe.feed.keeps.lsn]
    exact upper
  · rintro _ _ ⟨⟩
    refine ⟨sub, subscribed, ?_, ?_, ?_, place.assigned⟩
    · dsimp only
      exact place.served.trans (by omega)
    · have here := place.place
      dsimp only
      omega
    · exact (List.getElem?_eq_some_iff.mp next).1
  · intro commit member
    rcases List.mem_append.mp member with old | new
    · rcases known commit old with before | ⟨now, below⟩
      · exact .inl before
      · exact .inr ⟨now, below.trans (by dsimp only; omega)⟩
    · rw [List.mem_singleton] at new
      rw [new]
      exact .inr ⟨rfl, le_rfl⟩

/-- What the broker does besides publishing keeps every follower where it is. -/
theorem Safe.serve (safe : Safe s) {feed : Feed N} (step : Broker.Step s.feed feed)
    (quiet : feed.log = s.feed.log) : Safe { s with feed } := by
  have invariant := safe.feed.step step
  have lsn : feed.broker.lsn = s.feed.broker.lsn := by
    rw [invariant.keeps.lsn, safe.feed.keeps.lsn, quiet]
  refine ⟨invariant, safe.past, ?_, safe.refused⟩
  intro name f found willing
  exact (safe.tracks name f found willing).serve quiet lsn (grows_step safe.feed step)

theorem Tracks.connect (safe : Safe s) (tracks : Tracks s f) {id : Nat}
    (accepted : s.feed.broker.subscribe f.appliedLSN = some (broker, id, sub)) :
    Tracks { s with feed := { s.feed with broker, subs := s.feed.subs.insert id sub } }
      { f with stream := some (id, 0) } := by
  have served := (safe.feed.keeps.subscribe_isSome f.appliedLSN).mp (by rw [accepted]; rfl)
  have shape := accepted
  unfold ReplicationBroker.subscribe at shape
  split_ifs at shape
  simp only [Option.some.injEq, Prod.mk.injEq] at shape
  obtain ⟨rfl, rfl, rfl⟩ := shape
  refine ⟨tracks.past, tracks.present, tracks.bounded, ?_, tracks.known⟩
  rintro _ _ ⟨⟩
  refine ⟨_, Finmap.lookup_insert _, ?_⟩
  exact ⟨(Nat.le_add_right _ _).trans served, rfl, Nat.zero_le _, tracks.bounded⟩

theorem Safe.tails (safe : Safe s) (step : Tails name s s') : Safe s' := by
  cases step with
  | connect found idle willing unlocked accepted =>
    have served : Safe _ := safe.serve (.subscribe unlocked _ accepted) rfl
    exact served.setFollower name
      (fun _ => (safe.tracks name _ found willing).connect safe accepted)
      (fun refused => absurd (willing.symm.trans refused) Bool.false_ne_true)
  | refuse found idle willing unlocked behind =>
    exact safe.setFollower name nofun fun _ => idle
  | overflow found tailing subscribed dead =>
    exact safe.setFollower name nofun fun _ => rfl
  | receive found tailing subscribed => exact safe.serve (.receive subscribed) rfl
  | take found tailing subscribed next =>
    have willing := safe.willing found tailing
    refine safe.setFollower name
      (fun _ => (safe.tracks name _ found willing).take safe tailing subscribed next) ?_
    intro refused
    rw [Replica.take] at refused
    split_ifs at refused
    · exact absurd (willing.symm.trans refused) Bool.false_ne_true
    · exact absurd (willing.symm.trans refused) Bool.false_ne_true
  | ended found tailing gone =>
    exact safe.setFollower name
      (fun willing => (safe.tracks name _ found willing).closed) fun _ => rfl

/-- An entry that is published has a number that no follower has applied. -/
theorem Safe.publish (safe : Safe s) (may : MayPublish s) (unlocked : s.feed.sending = none)
    (collection : String) (entry : Entry N) :
    Safe { s with feed := { s.feed with
      broker := (s.feed.broker.record collection entry).1
      sending := some ((s.feed.broker.record collection entry).2, s.feed.broker.subs)
      log := s.feed.log ++ [(s.feed.broker.record collection entry).2] } } := by
  refine ⟨safe.feed.publish unlocked collection entry, safe.past, ?_, safe.refused⟩
  intro name f found willing
  have low := may name f found willing
  obtain ⟨past, present, bounded, reads, known⟩ := safe.tracks name f found willing
  refine ⟨past, ?_, .inl (low.trans (Nat.le_succ _)), ?_, known⟩
  · intro served re member below
    rcases List.mem_append.mp member with old | new
    · exact present served re old below
    · rw [List.mem_singleton] at new
      rw [new] at below
      exact absurd (Nat.lt_of_succ_le below) (Nat.not_lt.mpr low)
  · intro id taken stream
    obtain ⟨sub, subscribed, served, place, within, assigned⟩ := reads id taken stream
    refine ⟨sub, subscribed, served, place, within, .inl ?_⟩
    rcases assigned with assigned | empty
    · exact assigned
    · -- nothing was published yet, so the follower would be above the leader
      obtain ⟨after, upper, -, -⟩ := safe.feed.follows id sub subscribed
      have lsn := safe.feed.keeps.lsn
      rw [sentTo_idle unlocked, empty] at upper
      rw [empty] at lsn
      rw [ReplSub.base, List.length_nil] at upper
      rw [List.length_nil] at lsn
      rw [ReplSub.base] at after
      omega

/-- A follower that survives a restart has applied all that was committed before,
or will be refused. -/
theorem Safe.restarted (safe : Safe s) {noted : Nat} (may : MayRestart noted s)
    (ringSize subBuf : Int) (later : s.noted ≤ noted) :
    Safe (s.restarted ringSize subBuf noted) := by
  refine ⟨Broker.invariant_start ringSize subBuf noted, ?_, ?_, ?_⟩
  · intro commit member
    rcases List.mem_append.mp member with old | new
    · exact (safe.past commit old).trans (Nat.lt_succ_self _)
    · obtain ⟨re, -, rfl⟩ := List.mem_map.mp new
      exact Nat.lt_succ_self _
  · intro name f found willing
    obtain ⟨g, there, rfl⟩ := Option.map_eq_some_iff.mp found
    obtain ⟨past, present, bounded, reads, known⟩ := safe.tracks name g there willing
    refine ⟨?_, nofun, .inr rfl, nofun, ?_⟩
    · intro served commit member
      have all : s.feed.broker.lsn ≤ g.appliedLSN :=
        (may name g there willing).resolve_left (Nat.not_lt.mpr served)
      rcases List.mem_append.mp member with old | new
      · exact past (later.trans served) commit old
      · obtain ⟨re, inside, rfl⟩ := List.mem_map.mp new
        have upper := (safe.feed.keeps.numbered.bounds inside).2
        rw [← safe.feed.keeps.lsn] at upper
        exact present (later.trans served) re inside (upper.trans all)
    · intro commit member
      left
      rcases known commit member with before | ⟨now, -⟩
      · exact before.trans (Nat.lt_succ_self _)
      · rw [now]
        exact Nat.lt_succ_self _
  · intro name f found _
    obtain ⟨g, -, rfl⟩ := Option.map_eq_some_iff.mp found
    rfl

theorem Safe.bootstrap (safe : Safe s) (name : String) :
    Safe (s.setFollower name ⟨s.feed.broker.lsn, none, s.commits, false⟩) := by
  refine safe.setFollower name (fun _ => ?_) fun _ => rfl
  refine ⟨?_, ?_, .inl le_rfl, nofun, ?_⟩
  · exact fun _ _ member => List.mem_append_left _ member
  · exact fun _ _ inside _ => List.mem_append_right _ (List.mem_map_of_mem inside)
  · intro commit member
    rcases List.mem_append.mp member with old | new
    · exact .inl (safe.past commit old)
    · obtain ⟨re, inside, rfl⟩ := List.mem_map.mp new
      right
      refine ⟨rfl, ?_⟩
      dsimp only
      rw [safe.feed.keeps.lsn]
      exact (safe.feed.keeps.numbered.bounds inside).2

theorem Safe.step (safe : Safe s) (careful : Careful s s') : Safe s' := by
  obtain ⟨step, publishing, restarting⟩ := careful
  have noted : s.noted ≤ s.feed.broker.lsn := by
    rw [safe.feed.keeps.lsn]
    exact Nat.le_add_right _ _
  cases step with
  | tails name step => exact safe.tails step
  | serve step quiet => exact safe.serve step quiet
  | publish unlocked collection entry =>
    refine safe.publish (publishing ?_) unlocked collection entry
    rw [List.length_append]
    exact Nat.lt_succ_self _
  | disconnect found =>
    exact safe.setFollower _ (fun willing => (safe.tracks _ _ found willing).closed) fun _ => rfl
  | bootstrap unlocked name => exact safe.bootstrap name
  | close ringSize subBuf =>
    exact safe.restarted (restarting (Nat.lt_succ_self _)) ringSize subBuf noted
  | crash ringSize subBuf =>
    exact safe.restarted (restarting (Nat.lt_succ_self _)) ringSize subBuf le_rfl

theorem safe_start (ringSize subBuf : Int) (noted : Nat) :
    Safe (Cluster.start ringSize subBuf noted : Cluster N) :=
  ⟨Broker.invariant_start ringSize subBuf noted, nofun,
    nofun, nofun⟩

/-- In every state of a run of careful steps. -/
theorem safe_of_careful (safe : Safe s) (run : ReflTransGen Careful s s') : Safe s' := by
  induction run with
  | refl => exact safe
  | tail _ careful ih => exact ih.step careful

end Steps

/-! ## Tailing to the end -/

section Progress

variable {s s' : Cluster N} {f : Replica N} {name : String}

/-- A follower that has taken all there is has applied every commit. -/
theorem Safe.complete (safe : Safe s) (found : s.followers name = some f) (drained : Drained s f) :
    ∀ commit ∈ s.commits, commit ∈ f.applied := by
  obtain ⟨unlocked, id, sub, tailing, subscribed, registered, alive, empty⟩ := drained
  have tracks := safe.tracks name f found (safe.willing found tailing)
  obtain ⟨held, there, reads⟩ := tracks.reads id _ tailing
  rw [subscribed] at there
  cases there
  intro commit member
  rcases List.mem_append.mp member with old | new
  · exact tracks.past reads.served commit old
  · obtain ⟨re, inside, rfl⟩ := List.mem_map.mp new
    refine tracks.present reads.served re inside ?_
    rcases reads.assigned with assigned | none
    · have all := safe.feed.complete subscribed assigned registered alive unlocked
      rw [empty, List.append_nil] at all
      have place := reads.place
      rcases Nat.lt_or_ge sub.fromLSN re.lsn with above | below
      · -- what is above the number it asked for was given
        have given : re ∈ sub.given := by
          rw [all, List.mem_filter]
          exact ⟨inside, decide_eq_true above⟩
        have number := List.mem_map_of_mem (f := ReplicationEntry.lsn) given
        rw [(safe.feed.contiguous subscribed assigned).1, List.mem_range'_1] at number
        omega
      · omega
    · rw [none] at inside
      cases inside

/-- What is committed does not change while a follower tails. -/
theorem commits_tails (step : Tails name s s') : s'.commits = s.commits := by
  cases step <;> rfl

theorem follower_setFollower (s : Cluster N) (name : String) (f : Replica N) :
    (s.setFollower name f).followers name = some f :=
  Function.update_self _ _ _

/-- The end of tailing: the follower was refused or has taken all there is. -/
def Settles (name : String) (s : Cluster N) : Prop :=
  ∃ s' f', ReflTransGen (Tails name) s s' ∧ s'.followers name = some f' ∧
    (f'.refused = true ∨ Drained s' f')

theorem Settles.step (step : Tails name s s') (settles : Settles name s') : Settles name s := by
  obtain ⟨s'', f'', run, found, ended⟩ := settles
  exact ⟨s'', f'', .head step run, found, ended⟩

theorem stream_take (f : Replica N) (starts id taken : Nat) (re : ReplicationEntry N) :
    (f.take starts id taken re).stream = some (id, taken + 1) := by
  rw [Replica.take]
  split_ifs
  · rfl
  · rfl

/-- A follower with an empty channel takes one record after another. -/
theorem settles_of_empty {id taken : Nat} (unlocked : s.feed.sending = none)
    (found : s.followers name = some f) (tailing : f.stream = some (id, taken))
    (subscribed : s.feed.subs.lookup id = some sub) (registered : id ∈ s.feed.broker.subs)
    (alive : sub.dead = false) (empty : sub.ch = []) (within : taken ≤ sub.given.length) :
    Settles name s := by
  induction left : sub.given.length - taken generalizing s f taken with
  | zero =>
    have all : taken = sub.given.length := by omega
    rw [all] at tailing
    exact ⟨s, f, .refl, found,
      .inr ⟨unlocked, id, sub, tailing, subscribed, registered, alive, empty⟩⟩
  | succ left ih =>
    have short : taken < sub.given.length := by omega
    have next := List.getElem?_eq_getElem short
    refine .step (.take found tailing subscribed next) ?_
    exact ih unlocked (follower_setFollower s name _) (stream_take _ _ _ _ _) subscribed
      registered short (by omega)

/-- A follower whose subscription is alive is sent all that is in its channel. -/
theorem settles_of_alive {id taken : Nat} (unlocked : s.feed.sending = none)
    (found : s.followers name = some f) (tailing : f.stream = some (id, taken))
    (subscribed : s.feed.subs.lookup id = some sub) (registered : id ∈ s.feed.broker.subs)
    (alive : sub.dead = false) (within : taken ≤ sub.given.length) : Settles name s := by
  induction channel : sub.ch generalizing s sub with
  | nil =>
    exact settles_of_empty unlocked found tailing subscribed registered alive channel within
  | cons re ch ih =>
    refine .step (.receive found tailing subscribed) ?_
    have grown := grown_receive sub
    have rest : sub.receive.ch = ch := by rw [ReplSub.receive, channel]
    exact ih unlocked found (Finmap.lookup_insert _) registered
      ((dead_receive sub).trans alive) (within.trans grown.given) rest

theorem settles_idle (unlocked : s.feed.sending = none)
    (found : s.followers name = some f) (idle : f.stream = none) : Settles name s := by
  rcases willing : f.refused with - | -
  · rcases answer : s.feed.broker.subscribe f.appliedLSN with - | ⟨broker, id, sub⟩
    · refine .step (.refuse found idle willing unlocked answer) ?_
      exact ⟨_, _, .refl, follower_setFollower s name _, .inl rfl⟩
    · refine .step (.connect found idle willing unlocked answer) ?_
      unfold ReplicationBroker.subscribe at answer
      split_ifs at answer
      simp only [Option.some.injEq, Prod.mk.injEq] at answer
      obtain ⟨rfl, rfl, rfl⟩ := answer
      exact settles_of_empty unlocked (follower_setFollower _ name _) rfl
        (Finmap.lookup_insert _) (Finset.mem_insert_self _ _) rfl rfl (Nat.zero_le _)
  · exact ⟨s, f, .refl, found, .inl willing⟩

theorem Safe.settles (safe : Safe s) (unlocked : s.feed.sending = none)
    (found : s.followers name = some f) : Settles name s := by
  rcases tailing : f.stream with - | ⟨id, taken⟩
  · exact settles_idle unlocked found tailing
  · have tracks := safe.tracks name f found (safe.willing found tailing)
    obtain ⟨sub, subscribed, reads⟩ := tracks.reads id taken tailing
    by_cases registered : id ∈ s.feed.broker.subs
    · rcases alive : sub.dead with - | -
      · exact settles_of_alive unlocked found tailing subscribed registered alive reads.within
      · refine .step (.overflow found tailing subscribed alive) ?_
        exact ⟨_, _, .refl, follower_setFollower s name _, .inl rfl⟩
    · refine .step (.ended found tailing registered) ?_
      exact settles_idle unlocked (follower_setFollower s name _) rfl

theorem Safe.nothingSkipped (safe : Safe s) : NothingSkipped s where
  discards := by
    intro name f id taken sub re found tailing subscribed next below
    have tracks := safe.tracks name f found (safe.willing found tailing)
    obtain ⟨held, there, reads⟩ := tracks.reads id taken tailing
    rw [subscribed] at there
    cases there
    have number := (reads.next safe.feed subscribed next).1
    omega
  complete := fun _ _ found drained => safe.complete found drained
  progress := by
    intro name f found unlocked
    obtain ⟨s', f', run, found', ended⟩ := safe.settles unlocked found
    have kept : Safe s' ∧ s'.commits = s.commits := by
      clear found' ended
      induction run with
      | refl => exact ⟨safe, rfl⟩
      | tail _ step ih =>
        exact ⟨ih.1.tails step, (commits_tails step).trans ih.2⟩
    refine ⟨s', f', run, found', ended.imp_right ?_⟩
    intro drained
    rw [← kept.2]
    exact kept.1.complete found' drained

end Progress

/-! ## Crashes that skip commits -/

section Skipping

variable {s s' : Cluster N} {f : Replica N} {name : String}

/-- A leader that has published nothing since it was started, and a follower that
it serves: the follower stays as it is. -/
structure Stalled (name : String) (f : Replica N) (s : Cluster N) : Prop where
  feed : Broker.Invariant s.noted s.feed
  idle : s.feed.log = []
  alive : ∀ id sub, s.feed.subs.lookup id = some sub → sub.dead = false
  served : s.noted ≤ f.appliedLSN
  follower : ∃ stream, s.followers name = some { f with stream, refused := false }

theorem Stalled.setStream (stalled : Stalled name f s) (stream : Option (Nat × Nat)) :
    Stalled name f (s.setFollower name { f with stream, refused := false }) :=
  ⟨stalled.feed, stalled.idle, stalled.alive, stalled.served, stream,
    follower_setFollower s name _⟩

theorem Stalled.serve {feed : Feed N} (stalled : Stalled name f s)
    (step : Broker.Step s.feed feed) (quiet : feed.log = s.feed.log)
    (alive : ∀ id sub, feed.subs.lookup id = some sub → sub.dead = false) :
    Stalled name f { s with feed } :=
  ⟨stalled.feed.step step, quiet.trans stalled.idle, alive, stalled.served, stalled.follower⟩

theorem Stalled.tails (stalled : Stalled name f s) (step : Tails name s s') :
    Stalled name f s' := by
  obtain ⟨stream, here⟩ := stalled.follower
  cases step with
  | connect found idle willing unlocked accepted =>
    rw [here, Option.some.injEq] at found
    subst found
    have served : Stalled name f _ := stalled.serve (.subscribe unlocked _ accepted) rfl (by
      unfold ReplicationBroker.subscribe at accepted
      split_ifs at accepted
      simp only [Option.some.injEq, Prod.mk.injEq] at accepted
      obtain ⟨-, -, rfl⟩ := accepted
      intro other held there
      dsimp only at there
      rw [lookup_insert_if] at there
      split_ifs at there with same
      · cases there
        rfl
      · exact stalled.alive other held there)
    exact served.setStream _
  | refuse found idle willing unlocked behind =>
    -- nothing was dropped from the buffer, so the follower is served
    rw [here, Option.some.injEq] at found
    subst found
    have accepted := (stalled.feed.keeps.subscribe_isSome f.appliedLSN).mpr
      (by rw [stalled.idle]; simpa using stalled.served)
    rw [behind] at accepted
    cases accepted
  | overflow found tailing subscribed dead =>
    rw [stalled.alive _ _ subscribed] at dead
    cases dead
  | receive found tailing subscribed =>
    refine stalled.serve (.receive subscribed) rfl ?_
    intro other held there
    dsimp only at there
    rw [lookup_insert_if] at there
    split_ifs at there with same
    · cases there
      exact (dead_receive _).trans (stalled.alive _ _ subscribed)
    · exact stalled.alive other held there
  | take found tailing subscribed next =>
    have run := (stalled.feed.follows _ _ subscribed).run
    rw [stalled.idle, List.drop_nil, List.prefix_nil] at run
    rw [(List.append_eq_nil_iff.mp run).1] at next
    cases next
  | ended found tailing gone =>
    rw [here, Option.some.injEq] at found
    subst found
    exact stalled.setStream none

/-- After a crash every follower that is not refused must have applied all that
was assigned. -/
theorem Safe.mayRestart (safe : Safe s) {ringSize subBuf : Int}
    (skipped : NothingSkipped (s.restarted ringSize subBuf s.noted)) : MayRestart s.noted s := by
  intro name f found willing
  by_contra between
  obtain ⟨served, short⟩ := not_or.mp between
  rw [Nat.not_lt] at served
  rw [Nat.not_le] at short
  -- the entry after the watermark was committed and is not applied
  obtain ⟨re, inside, number⟩ := safe.feed.keeps.numbered.exists_of_between (f.appliedLSN + 1)
    (by omega) (by rw [← safe.feed.keeps.lsn]; omega)
  have missing : (s.starts, re) ∉ f.applied := by
    intro member
    rcases (safe.tracks name f found willing).known _ member with before | ⟨-, below⟩
    · exact Nat.lt_irrefl _ before
    · dsimp only at below
      omega
  have there : (s.restarted ringSize subBuf s.noted).followers name =
      some { f with stream := none } := by
    rw [Cluster.restarted]
    dsimp only
    rw [found]
    rfl
  have stalled : Stalled name f (s.restarted ringSize subBuf s.noted) := by
    refine ⟨Broker.invariant_start ringSize subBuf s.noted, rfl, nofun,
      served, none, ?_⟩
    rw [there, ← willing]
  obtain ⟨s', f', run, found', ended⟩ := skipped.progress name _ there rfl
  have stays : Stalled name f s' := by
    clear found' ended
    induction run with
    | refl => exact stalled
    | tail _ step ih => exact ih.tails step
  obtain ⟨stream, same⟩ := stays.follower
  rw [same, Option.some.injEq] at found'
  subst found'
  rcases ended with refused | all
  · cases refused
  · exact missing (all _ (List.mem_append_left _ (List.mem_append_right _
      (List.mem_map_of_mem inside))))

end Skipping

/-- In every state of a run of careful steps, whatever the sizes of the buffers
and the number that the leader began with, no commit is skipped: what a
follower passes over it has applied, a follower that has taken all there is
has applied every commit, and a follower that keeps tailing gets there or is
told to start again from a snapshot.  A crash after which this still holds was
one that careful steps allow. -/
theorem careful_run_skips_nothing (ringSize subBuf : Int) (noted : Nat) {s : Cluster N}
    (run : ReflTransGen Careful (Cluster.start ringSize subBuf noted) s) :
    NothingSkipped s ∧ ∀ ringSize' subBuf' : Int,
      NothingSkipped (s.restarted ringSize' subBuf' s.noted) → MayRestart s.noted s := by
  have safe := safe_of_careful (safe_start ringSize subBuf noted) run
  exact ⟨safe.nothingSkipped, fun _ _ => safe.mayRestart⟩

/-- A leader crashes when its follower has applied all that it assigned. -/
theorem careful_run_skips_nothing_small :
    ∃ s : Cluster Int, s.starts = 1 ∧ s.commits.length = 1 ∧ NothingSkipped s := by
  have published : Careful (Cluster.start 1 1 7 : Cluster Int) _ :=
    ⟨.publish rfl "c" plainEntry, nofun,
      fun same => absurd same (lt_irrefl _)⟩
  have unlocked := (ReflTransGen.single published).tail
    ⟨.serve (.unlock rfl) rfl, fun same => absurd same (lt_irrefl _),
      fun same => absurd same (lt_irrefl _)⟩
  have followed := unlocked.tail
    ⟨.bootstrap rfl "f", fun same => absurd same (lt_irrefl _),
      fun same => absurd same (lt_irrefl _)⟩
  have crashed := followed.tail
    ⟨.crash 1 1, (fun longer => absurd longer (by decide)), by
      intro _ name f found _
      rw [Cluster.setFollower] at found
      dsimp only at found
      rw [Function.update_apply] at found
      split_ifs at found
      · cases found
        exact .inr le_rfl
      · cases found⟩
  exact ⟨_, rfl, rfl, (careful_run_skips_nothing 1 1 7 crashed).1⟩

/-- A follower applies the first entry of a leader, which then crashes without
having noted its number.  The next entry gets the same number, and the follower
passes it over. -/
theorem crash_skips_commit :
    ∃ s : Cluster Int, ReflTransGen Step (Cluster.start 1 1 0) s ∧ ¬NothingSkipped s := by
  have followed := ReflTransGen.single
    (Step.bootstrap (s := (Cluster.start 1 1 0 : Cluster Int)) rfl "f")
  have published := followed.tail (.publish rfl "c" plainEntry)
  have unlocked := published.tail (.serve (.unlock rfl) rfl)
  have connected := unlocked.tail (.tails "f" (.connect rfl rfl rfl rfl rfl))
  have taken := connected.tail (.tails "f" (.take rfl rfl rfl rfl))
  have crashed := taken.tail (.crash 1 1)
  have back := crashed.tail (.tails "f" (.connect rfl rfl rfl rfl rfl))
  have again := back.tail (.publish rfl "c" plainEntry)
  have sent := again.tail (.serve (.send rfl (Finset.mem_insert_self 1 ∅) rfl) rfl)
  have received := sent.tail (.tails "f" (.receive rfl rfl rfl))
  refine ⟨_, received, ?_⟩
  intro skipped
  have applied := skipped.discards "f" _ 1 0 _ _ rfl rfl rfl rfl (by decide)
  cases List.mem_singleton.mp applied

end Scriva.Replication.Restarts
