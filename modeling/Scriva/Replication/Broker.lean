import Scriva.Lib.Keyed
import Scriva.Lib.Ring
import Scriva.Store.Ndjson

/-!
# The replication feed

A leader numbers the entries it commits, keeps the latest ones in a circular
buffer and sends each to the followers that have subscribed.  A follower asks
for what comes after a number.  It is given the entries that are still in the
buffer, and the later ones through a channel of limited size; a follower whose
channel is full is marked dead instead of being sent an entry.

Publishing holds the lock of the broker while it sends to one follower after
another, in any order, and followers take entries from their channels at any
time in between.
-/

namespace Scriva.Replication.Broker

open Lib.Keyed Lib.Ring Store.Ndjson

variable {N : Type}

/-! ## The broker -/

/-- A committed write with its number. -/
structure ReplicationEntry (N : Type) where
  lsn : Nat
  collection : String
  entry : Entry N

/-- A subscription: its channel and whether it was marked dead, and what its
follower has of it. -/
structure ReplSub (N : Type) where
  ch : List (ReplicationEntry N)
  dead : Bool
  /-- The number it was asked for. -/
  fromLSN : Nat
  /-- The number that the leader had assigned last when it began. -/
  opened : Nat
  backlog : List (ReplicationEntry N)
  /-- What was taken from the channel. -/
  received : List (ReplicationEntry N)

/-- All that the follower was given. -/
def ReplSub.given (sub : ReplSub N) : List (ReplicationEntry N) :=
  sub.backlog ++ sub.received

def defaultReplicationRingSize : Nat := 8192

structure ReplicationBroker (N : Type) where
  /-- The last number assigned. -/
  lsn : Nat
  ring : Buffer (ReplicationEntry N)
  subBuf : Nat
  /-- The subscriptions that entries are sent to. -/
  subs : Finset Nat
  subSeq : Nat

namespace ReplicationBroker

def new (ringSize subBuf : Int) : ReplicationBroker N :=
  let ringSize := if ringSize ≤ 0 then defaultReplicationRingSize else ringSize.toNat
  let subBuf := if subBuf ≤ 0 then ringSize else subBuf.toNat
  ⟨0, .empty ringSize, subBuf, ∅, 0⟩

def setLSN (b : ReplicationBroker N) (lsn : Nat) : ReplicationBroker N :=
  if b.lsn < lsn then { b with lsn } else b

/-- The lowest number that can still be served. -/
def oldest (b : ReplicationBroker N) : Nat :=
  if b.ring.size = 0 then b.lsn + 1
  else ((b.ring.nth 0).map ReplicationEntry.lsn).getD 0

/-- Number an entry and keep it. -/
def record (b : ReplicationBroker N) (collection : String) (entry : Entry N) :
    ReplicationBroker N × ReplicationEntry N :=
  let re : ReplicationEntry N := ⟨b.lsn + 1, collection, entry⟩
  ({ b with lsn := b.lsn + 1, ring := b.ring.push re }, re)

/-- Register a follower that has everything up to a number.  The result is its
subscription, unless something it needs is no longer kept. -/
def subscribe (b : ReplicationBroker N) (fromLSN : Nat) :
    Option (ReplicationBroker N × Nat × ReplSub N) :=
  if fromLSN + 1 < b.oldest then none
  else
    let id := b.subSeq + 1
    let backlog := b.ring.contents.filter fun re => fromLSN < re.lsn
    some ({ b with subs := insert id b.subs, subSeq := id }, id,
      ⟨[], false, fromLSN, b.lsn, backlog, []⟩)

def unsubscribe (b : ReplicationBroker N) (id : Nat) : ReplicationBroker N :=
  { b with subs := b.subs.erase id }

end ReplicationBroker

/-- Send an entry without waiting: a subscription with a full channel is marked
dead, and one that is dead gets nothing. -/
def ReplSub.offer (subBuf : Nat) (re : ReplicationEntry N) (sub : ReplSub N) : ReplSub N :=
  if sub.dead then sub
  else if sub.ch.length < subBuf then { sub with ch := sub.ch ++ [re] }
  else { sub with dead := true }

/-- Take the first entry from the channel, if there is one. -/
def ReplSub.receive (sub : ReplSub N) : ReplSub N :=
  match sub.ch with
  | [] => sub
  | re :: ch => { sub with ch, received := sub.received ++ [re] }

/-! ## Runs -/

/-- A broker, every subscription made so far, the sends that a publisher still
has to do while it holds the lock, and all that was published. -/
structure Feed (N : Type) where
  broker : ReplicationBroker N
  subs : Map Nat (ReplSub N)
  sending : Option (ReplicationEntry N × Finset Nat)
  log : List (ReplicationEntry N)

/-- A broker after a start with the number noted in the state file. -/
def Feed.start (ringSize subBuf : Int) (restored : Nat) : Feed N :=
  ⟨(ReplicationBroker.new ringSize subBuf).setLSN restored, ∅, none, []⟩

inductive Step : Feed N → Feed N → Prop where
  | publish {s : Feed N} (unlocked : s.sending = none) (collection : String) (entry : Entry N) :
      Step s { s with
        broker := (s.broker.record collection entry).1
        sending := some ((s.broker.record collection entry).2, s.broker.subs)
        log := s.log ++ [(s.broker.record collection entry).2] }
  | send {s : Feed N} {re : ReplicationEntry N} {waiting : Finset Nat} {id : Nat} {sub : ReplSub N}
      (sending : s.sending = some (re, waiting)) (next : id ∈ waiting)
      (found : s.subs.lookup id = some sub) :
      Step s { s with
        subs := s.subs.insert id (sub.offer s.broker.subBuf re)
        sending := some (re, waiting.erase id) }
  | unlock {s : Feed N} {re : ReplicationEntry N} (sending : s.sending = some (re, ∅)) :
      Step s { s with sending := none }
  | subscribe {s : Feed N} {id : Nat} {broker : ReplicationBroker N} {sub : ReplSub N}
      (unlocked : s.sending = none) (fromLSN : Nat)
      (accepted : s.broker.subscribe fromLSN = some (broker, id, sub)) :
      Step s { s with broker, subs := s.subs.insert id sub }
  | unsubscribe {s : Feed N} (unlocked : s.sending = none) (id : Nat) :
      Step s { s with broker := s.broker.unsubscribe id }
  | receive {s : Feed N} {id : Nat} {sub : ReplSub N} (found : s.subs.lookup id = some sub) :
      Step s { s with subs := s.subs.insert id sub.receive }

/-! ## Numbers -/

/-- The entries carry the numbers after a base, one after another. -/
def Numbered (base : Nat) (log : List (ReplicationEntry N)) : Prop :=
  log.map ReplicationEntry.lsn = List.range' (base + 1) log.length

variable {re : ReplicationEntry N}

theorem numbered_snoc {base : Nat} {log : List (ReplicationEntry N)} (numbered : Numbered base log)
    (next : re.lsn = base + log.length + 1) : Numbered base (log ++ [re]) := by
  rw [Numbered, List.map_append, numbered, List.length_append, List.length_singleton,
    List.range'_1_concat, List.map_singleton, next]
  congr 2
  omega

theorem Numbered.drop {base : Nat} {log : List (ReplicationEntry N)} (numbered : Numbered base log)
    (n : Nat) : Numbered (base + n) (log.drop n) := by
  rw [Numbered, List.map_drop, numbered, List.drop_range', List.length_drop]
  congr 1
  omega

theorem Numbered.of_prefix {base : Nat} {front log : List (ReplicationEntry N)}
    (numbered : Numbered base log) (start : front <+: log) : Numbered base front := by
  obtain ⟨back, rfl⟩ := start
  rw [Numbered, List.map_append, List.length_append, ← List.range'_append_1] at numbered
  exact (List.append_inj numbered (by rw [List.length_map, List.length_range'])).1

/-- The entries above a number are the end of a numbered log. -/
theorem Numbered.filter_above {base : Nat} {log : List (ReplicationEntry N)}
    (numbered : Numbered base log) (lsn : Nat) :
    log.filter (fun re => lsn < re.lsn) = log.drop (lsn - base) := by
  induction log generalizing base with
  | nil => rw [List.filter_nil, List.drop_nil]
  | cons first log ih =>
    rw [Numbered, List.map_cons, List.length_cons, List.range'_succ, List.cons.injEq] at numbered
    obtain ⟨here, later⟩ := numbered
    have rest := ih later
    rcases Nat.lt_or_ge base lsn with above | below
    · have skipped : lsn - base = lsn - (base + 1) + 1 := by omega
      rw [List.filter_cons_of_neg (by simp [here]; omega), rest, skipped, List.drop_succ_cons]
    · have all : lsn - base = 0 := by omega
      have none : lsn - (base + 1) = 0 := by omega
      rw [List.filter_cons_of_pos (by simp [here]; omega), rest, all, none, List.drop_zero,
        List.drop_zero]

theorem Numbered.exists_of_between {base : Nat} {log : List (ReplicationEntry N)}
    (numbered : Numbered base log) (lsn : Nat) (above : base < lsn)
    (below : lsn ≤ base + log.length) : ∃ re ∈ log, re.lsn = lsn := by
  have member : lsn ∈ log.map ReplicationEntry.lsn := by
    rw [numbered, List.mem_range'_1]
    omega
  obtain ⟨re, inside, same⟩ := List.mem_map.mp member
  exact ⟨re, inside, same⟩

theorem Numbered.bounds {base : Nat} {log : List (ReplicationEntry N)}
    (numbered : Numbered base log) (member : re ∈ log) :
    base < re.lsn ∧ re.lsn ≤ base + log.length := by
  have inside : re.lsn ∈ log.map ReplicationEntry.lsn := List.mem_map_of_mem member
  rw [numbered, List.mem_range'_1] at inside
  omega

/-! ## The broker and the log -/

/-- The broker keeps the end of the log and knows its length. -/
structure Keeps (restored : Nat) (b : ReplicationBroker N) (log : List (ReplicationEntry N)) :
    Prop where
  numbered : Numbered restored log
  lsn : b.lsn = restored + log.length
  ring : b.ring.Holds (log.drop (log.length - b.ring.cap))

section Brokers

variable {restored : Nat} {b : ReplicationBroker N} {log : List (ReplicationEntry N)}

theorem ring_setLSN (b : ReplicationBroker N) (lsn : Nat) : (b.setLSN lsn).ring = b.ring := by
  unfold ReplicationBroker.setLSN
  split_ifs
  · rfl
  · rfl

theorem keeps_start (ringSize subBuf : Int) (restored : Nat) :
    Keeps restored ((ReplicationBroker.new ringSize subBuf).setLSN restored : ReplicationBroker N)
      [] := by
  have room : 0 < if ringSize ≤ 0 then defaultReplicationRingSize else ringSize.toNat := by
    split_ifs with unset
    · decide
    · omega
  refine ⟨rfl, ?_, ?_⟩
  · unfold ReplicationBroker.setLSN
    split_ifs with above
    · rfl
    · exact (Nat.eq_zero_of_not_pos above).symm
  · rw [ring_setLSN, List.drop_nil]
    exact Buffer.holds_empty room

theorem Keeps.record (keeps : Keeps restored b log) (collection : String) (entry : Entry N) :
    Keeps restored (b.record collection entry).1 (log ++ [(b.record collection entry).2]) where
  numbered := numbered_snoc keeps.numbered (by rw [← keeps.lsn]; rfl)
  lsn := by
    rw [List.length_append, List.length_singleton, ← Nat.add_assoc, ← keeps.lsn]
    rfl
  ring := keeps.ring.push _

/-- The lowest number that can be served is the one after those that were
dropped. -/
theorem Keeps.oldest_eq (keeps : Keeps restored b log) :
    b.oldest = restored + (log.length - b.ring.cap) + 1 := by
  have ring := keeps.ring
  unfold ReplicationBroker.oldest
  rcases kept : log.drop (log.length - b.ring.cap) with - | ⟨first, rest⟩
  · rw [kept] at ring
    have short : log.length ≤ log.length - b.ring.cap := List.drop_eq_nil_iff.mp kept
    have room := ring.room
    have none : b.ring.size = 0 := ring.size
    rw [if_pos none, keeps.lsn]
    omega
  · have numbered := keeps.numbered.drop (log.length - b.ring.cap)
    rw [kept] at ring numbered
    have filled : b.ring.size ≠ 0 := by
      rw [ring.size]
      exact Nat.succ_ne_zero _
    rw [if_neg filled, ring.items 0 (Nat.succ_pos _)]
    rw [Numbered, List.map_cons, List.length_cons, List.range'_succ, List.cons.injEq] at numbered
    exact numbered.1

theorem Keeps.subscribe_isSome (keeps : Keeps restored b log) (fromLSN : Nat) :
    (b.subscribe fromLSN).isSome ↔ restored + (log.length - b.ring.cap) ≤ fromLSN := by
  unfold ReplicationBroker.subscribe
  rw [keeps.oldest_eq]
  split_ifs with behind
  · exact iff_of_false Bool.false_ne_true (by omega)
  · exact iff_of_true rfl (by omega)

variable {fromLSN : Nat}

/-- A follower that is accepted is given all that the leader has above its
number. -/
theorem Keeps.backlog_eq (keeps : Keeps restored b log)
    (served : restored + (log.length - b.ring.cap) ≤ fromLSN) :
    (b.ring.contents.filter fun re => fromLSN < re.lsn) = log.drop (fromLSN - restored) := by
  have numbered := keeps.numbered.drop (log.length - b.ring.cap)
  rw [keeps.ring.contents_eq, numbered.filter_above, List.drop_drop]
  congr 1
  omega

/-- A follower is accepted exactly when all that it lacks is still kept. -/
theorem Keeps.accepts_iff (keeps : Keeps restored b log) (assigned : fromLSN ≤ b.lsn) :
    (b.subscribe fromLSN).isSome ↔ ∀ lsn, fromLSN < lsn → lsn ≤ b.lsn →
      ∃ re ∈ b.ring.contents, re.lsn = lsn ∧ re ∈ log := by
  have kept := keeps.ring.contents_eq
  have numbered := keeps.numbered.drop (log.length - b.ring.cap)
  have length := keeps.lsn
  have room := keeps.ring.room
  rw [keeps.subscribe_isSome, kept]
  constructor
  · intro served lsn above below
    obtain ⟨re, member, same⟩ := numbered.exists_of_between lsn (by omega)
      (by rw [List.length_drop]; omega)
    exact ⟨re, member, same, List.mem_of_mem_drop member⟩
  · intro served
    by_contra behind
    obtain ⟨re, member, same, -⟩ := served (fromLSN + 1) (Nat.lt_succ_self _) (by omega)
    have above := (numbered.bounds member).1
    omega

end Brokers

/-! ## Subscriptions and the log -/

/-- The number after which a subscription follows the log. -/
def ReplSub.base (sub : ReplSub N) : Nat :=
  min sub.fromLSN sub.opened

/-- The entries that have been sent, or would have been sent, to a subscription. -/
def Feed.sentTo (s : Feed N) (id : Nat) : List (ReplicationEntry N) :=
  match s.sending with
  | none => s.log
  | some (_, waiting) => if id ∈ waiting then s.log.dropLast else s.log

/-- What a subscription was given and has in its channel is a run of the log,
and it lacks nothing of it while it is registered and not dead. -/
structure Follows (restored : Nat) (s : Feed N) (id : Nat) (sub : ReplSub N) : Prop where
  after : restored ≤ sub.base
  within : sub.base ≤ restored + (s.sentTo id).length
  run : sub.given ++ sub.ch <+: s.log.drop (sub.base - restored)
  current : id ∈ s.broker.subs → sub.dead = false →
    sub.given ++ sub.ch = (s.sentTo id).drop (sub.base - restored)

structure Invariant (restored : Nat) (s : Feed N) : Prop where
  keeps : Keeps restored s.broker s.log
  ids : ∀ id sub, s.subs.lookup id = some sub → id ≤ s.broker.subSeq
  sending : ∀ re waiting, s.sending = some (re, waiting) →
    s.log = s.log.dropLast ++ [re] ∧ waiting ⊆ s.broker.subs
  follows : ∀ id sub, s.subs.lookup id = some sub → Follows restored s id sub

section Runs

variable {restored : Nat} {s : Feed N}

theorem sentTo_idle (unlocked : s.sending = none) (id : Nat) : s.sentTo id = s.log := by
  rw [Feed.sentTo, unlocked]

theorem invariant_start (ringSize subBuf : Int) (restored : Nat) :
    Invariant restored (Feed.start ringSize subBuf restored : Feed N) where
  keeps := keeps_start ringSize subBuf restored
  ids := nofun
  sending := nofun
  follows := nofun

theorem Invariant.publish (invariant : Invariant restored s) (unlocked : s.sending = none)
    (collection : String) (entry : Entry N) :
    Invariant restored { s with
      broker := (s.broker.record collection entry).1
      sending := some ((s.broker.record collection entry).2, s.broker.subs)
      log := s.log ++ [(s.broker.record collection entry).2] } where
  keeps := invariant.keeps.record collection entry
  ids := invariant.ids
  sending := by
    rintro re waiting ⟨⟩
    refine ⟨?_, Finset.Subset.refl _⟩
    rw [List.dropLast_concat]
  follows := by
    intro id sub found
    obtain ⟨after, within, run, current⟩ := invariant.follows id sub found
    rw [sentTo_idle unlocked] at within current
    have longer : s.log.drop (sub.base - restored) <+:
        (s.log ++ [(s.broker.record collection entry).2]).drop (sub.base - restored) := by
      rw [List.drop_append_of_le_length (by omega)]
      exact List.prefix_append _ _
    refine ⟨after, ?_, run.trans longer, ?_⟩
    · rw [Feed.sentTo]
      dsimp only
      split_ifs
      · rwa [List.dropLast_concat]
      · rw [List.length_append]
        omega
    · intro registered alive
      have waiting : id ∈ s.broker.subs := registered
      rw [Feed.sentTo]
      dsimp only
      rw [if_pos waiting, List.dropLast_concat]
      exact current waiting alive

theorem Invariant.unlock (invariant : Invariant restored s) (sending : s.sending = some (re, ∅)) :
    Invariant restored { s with sending := none } where
  keeps := invariant.keeps
  ids := invariant.ids
  sending := nofun
  follows := by
    intro id sub found
    have all : s.sentTo id = s.log := by
      rw [Feed.sentTo, sending]
      exact if_neg (Finset.notMem_empty id)
    obtain ⟨after, within, run, current⟩ := invariant.follows id sub found
    rw [all] at within current
    exact ⟨after, within, run, current⟩

variable {sub : ReplSub N} {s' : Feed N}

/-- A subscription after one send. -/
theorem Follows.offer {id subBuf : Nat} (follows : Follows restored s id sub)
    (registered : id ∈ s.broker.subs) (log : s'.log = s.log)
    (ended : s.log = s.log.dropLast ++ [re]) (before : s.sentTo id = s.log.dropLast)
    (after : s'.sentTo id = s.log) : Follows restored s' id (sub.offer subBuf re) := by
  obtain ⟨above, within, run, current⟩ := follows
  rw [before] at within current
  have whole : (s.log.dropLast).drop (sub.base - restored) ++ [re] =
      s.log.drop (sub.base - restored) := by
    conv_rhs => rw [ended]
    rw [List.drop_append_of_le_length (by omega)]
  have within' : sub.base ≤ restored + (s'.sentTo id).length := by
    rw [List.length_dropLast] at within
    rw [after]
    omega
  unfold ReplSub.offer
  split_ifs with dead room
  · refine ⟨above, within', by rw [log]; exact run, ?_⟩
    intro _ alive
    rw [dead] at alive
    cases alive
  · rw [Bool.not_eq_true] at dead
    have longer : sub.given ++ (sub.ch ++ [re]) = s.log.drop (sub.base - restored) := by
      rw [← whole, ← current registered dead, List.append_assoc]
    refine ⟨above, within', ?_, ?_⟩
    · rw [log]
      change sub.given ++ (sub.ch ++ [re]) <+: s.log.drop (sub.base - restored)
      rw [longer]
    · intro _ _
      rw [after]
      exact longer
  · refine ⟨above, within', by rw [log]; exact run, ?_⟩
    intro _ alive
    cases alive

theorem Invariant.send (invariant : Invariant restored s) {waiting : Finset Nat} {id : Nat}
    (sending : s.sending = some (re, waiting)) (next : id ∈ waiting)
    (found : s.subs.lookup id = some sub) :
    Invariant restored { s with
      subs := s.subs.insert id (sub.offer s.broker.subBuf re)
      sending := some (re, waiting.erase id) } := by
  obtain ⟨ended, known⟩ := invariant.sending re waiting sending
  refine ⟨invariant.keeps, ?_, ?_, ?_⟩
  · intro other held there
    rw [lookup_insert_if] at there
    split_ifs at there with same
    · rw [same]
      exact invariant.ids id sub found
    · exact invariant.ids other held there
  · rintro _ _ ⟨⟩
    exact ⟨ended, (Finset.erase_subset _ _).trans known⟩
  · intro other held there
    rw [lookup_insert_if] at there
    split_ifs at there with same
    · obtain rfl := Option.some.inj there
      subst same
      refine (invariant.follows other sub found).offer (known next) rfl ended ?_ ?_
      · rw [Feed.sentTo, sending]
        exact if_pos next
      · rw [Feed.sentTo]
        exact if_neg (Finset.notMem_erase other waiting)
    · -- the others wait or do not wait as before
      have unmoved : Feed.sentTo { s with
          subs := s.subs.insert id (sub.offer s.broker.subBuf re)
          sending := some (re, waiting.erase id) } other = s.sentTo other := by
        rw [Feed.sentTo, Feed.sentTo, sending]
        simp only [Finset.mem_erase, same, ne_eq, not_false_eq_true, true_and]
      obtain ⟨after, within, run, current⟩ := invariant.follows other held there
      refine ⟨after, ?_, run, ?_⟩
      · rwa [unmoved]
      · rwa [unmoved]

theorem Invariant.subscribe (invariant : Invariant restored s) {fromLSN id : Nat}
    {broker : ReplicationBroker N} (unlocked : s.sending = none)
    (accepted : s.broker.subscribe fromLSN = some (broker, id, sub)) :
    Invariant restored { s with broker, subs := s.subs.insert id sub } := by
  have keeps := invariant.keeps
  have served := (keeps.subscribe_isSome fromLSN).mp (by rw [accepted]; rfl)
  have backlog := keeps.backlog_eq served
  have lsn := keeps.lsn
  unfold ReplicationBroker.subscribe at accepted
  split_ifs at accepted
  simp only [Option.some.injEq, Prod.mk.injEq] at accepted
  obtain ⟨rfl, rfl, rfl⟩ := accepted
  refine ⟨⟨keeps.numbered, keeps.lsn, keeps.ring⟩, ?_, ?_, ?_⟩
  · intro other held there
    rw [lookup_insert_if] at there
    split_ifs at there with same
    · rw [same]
    · exact (invariant.ids other held there).trans (Nat.le_succ _)
  · intro re waiting sending
    rw [unlocked] at sending
    cases sending
  · intro other held there
    rw [lookup_insert_if] at there
    split_ifs at there with same
    · obtain rfl := Option.some.inj there
      have base : ReplSub.base (N := N) ⟨[], false, fromLSN, s.broker.lsn,
          s.broker.ring.contents.filter fun re => fromLSN < re.lsn, []⟩ =
            min fromLSN s.broker.lsn := rfl
      have given : s.broker.ring.contents.filter (fun re => fromLSN < re.lsn) ++ [] ++ [] =
          s.log.drop (min fromLSN s.broker.lsn - restored) := by
        rw [List.append_nil, List.append_nil, backlog]
        rcases Nat.le_total fromLSN s.broker.lsn with low | high
        · rw [Nat.min_eq_left low]
        · rw [Nat.min_eq_right high, List.drop_eq_nil_of_le (by omega),
            List.drop_eq_nil_of_le (by omega)]
      refine ⟨?_, ?_, ?_, ?_⟩
      · rw [base]
        omega
      · rw [base, sentTo_idle (by exact unlocked)]
        dsimp only
        omega
      · rw [base]
        exact given ▸ List.prefix_rfl
      · intro _ _
        rw [base, sentTo_idle (by exact unlocked)]
        exact given
    · obtain ⟨after, within, run, current⟩ := invariant.follows other held there
      rw [sentTo_idle unlocked] at within current
      refine ⟨after, ?_, run, ?_⟩
      · rwa [sentTo_idle (by exact unlocked)]
      · intro registered alive
        rw [sentTo_idle (by exact unlocked)]
        exact current ((Finset.mem_insert.mp registered).resolve_left same) alive

theorem Invariant.unsubscribe (invariant : Invariant restored s) (unlocked : s.sending = none)
    (id : Nat) : Invariant restored { s with broker := s.broker.unsubscribe id } where
  keeps := ⟨invariant.keeps.numbered, invariant.keeps.lsn, invariant.keeps.ring⟩
  ids := invariant.ids
  sending := by
    intro re waiting sending
    rw [unlocked] at sending
    cases sending
  follows := by
    intro other sub found
    obtain ⟨after, within, run, current⟩ := invariant.follows other sub found
    exact ⟨after, within, run, fun registered => current (Finset.mem_of_mem_erase registered)⟩

theorem Invariant.receive (invariant : Invariant restored s) {id : Nat}
    (found : s.subs.lookup id = some sub) :
    Invariant restored { s with subs := s.subs.insert id sub.receive } where
  keeps := invariant.keeps
  ids := by
    intro other held there
    rw [lookup_insert_if] at there
    split_ifs at there with same
    · rw [same]
      exact invariant.ids id sub found
    · exact invariant.ids other held there
  sending := invariant.sending
  follows := by
    intro other held there
    rw [lookup_insert_if] at there
    split_ifs at there with same
    · obtain rfl := Option.some.inj there
      subst same
      obtain ⟨after, within, run, current⟩ := invariant.follows other sub found
      rcases channel : sub.ch with - | ⟨re, ch⟩
      · have idle : sub.receive = sub := by rw [ReplSub.receive, channel]
        rw [idle]
        exact ⟨after, within, run, current⟩
      · -- the entry goes from the front of the channel to the end of what was given
        have moved : sub.receive.given ++ sub.receive.ch = sub.given ++ sub.ch := by
          rw [ReplSub.receive, channel]
          simp [ReplSub.given]
        have base : sub.receive.base = sub.base := by
          rw [ReplSub.receive, channel]
          rfl
        have dead : sub.receive.dead = sub.dead := by
          rw [ReplSub.receive, channel]
        refine ⟨?_, ?_, ?_, ?_⟩
        · rwa [base]
        · rw [base]
          exact within
        · rw [moved, base]
          exact run
        · rw [moved, base, dead]
          exact current
    · obtain ⟨after, within, run, current⟩ := invariant.follows other held there
      exact ⟨after, within, run, current⟩

theorem Invariant.step (invariant : Invariant restored s) (step : Step s s') :
    Invariant restored s' := by
  cases step with
  | publish unlocked collection entry => exact invariant.publish unlocked collection entry
  | send sending next found => exact invariant.send sending next found
  | unlock sending => exact invariant.unlock sending
  | subscribe unlocked fromLSN accepted => exact invariant.subscribe unlocked accepted
  | unsubscribe unlocked id => exact invariant.unsubscribe unlocked id
  | receive found => exact invariant.receive found

/-- The states of runs of a broker. -/
def Reached (ringSize subBuf : Int) (restored : Nat) (s : Feed N) : Prop :=
  Relation.ReflTransGen Step (Feed.start ringSize subBuf restored) s

theorem invariant_of_reached {ringSize subBuf : Int} (reached : Reached ringSize subBuf restored s) :
    Invariant restored s := by
  induction reached with
  | refl => exact invariant_start ringSize subBuf restored
  | tail _ step invariant => exact invariant.step step

/-- What a subscription was given are the published entries above its number, one
after another. -/
theorem Invariant.contiguous (invariant : Invariant restored s) {id : Nat}
    (found : s.subs.lookup id = some sub) (assigned : sub.fromLSN ≤ sub.opened) :
    sub.given.map ReplicationEntry.lsn = List.range' (sub.fromLSN + 1) sub.given.length ∧
      sub.given <+: s.log.filter fun re => sub.fromLSN < re.lsn := by
  have numbered := invariant.keeps.numbered
  have base : sub.base = sub.fromLSN := Nat.min_eq_left assigned
  obtain ⟨after, -, run, -⟩ := invariant.follows id sub found
  rw [base] at after run
  have start : sub.given <+: s.log.drop (sub.fromLSN - restored) :=
    (List.prefix_append _ _).trans run
  have shifted := numbered.drop (sub.fromLSN - restored)
  rw [Nat.add_sub_cancel' after] at shifted
  rw [numbered.filter_above]
  exact ⟨shifted.of_prefix start, start⟩

/-- A subscription that is registered and not dead lacks nothing but what is in
its channel. -/
theorem Invariant.complete (invariant : Invariant restored s) {id : Nat}
    (found : s.subs.lookup id = some sub) (assigned : sub.fromLSN ≤ sub.opened)
    (registered : id ∈ s.broker.subs) (alive : sub.dead = false) (unlocked : s.sending = none) :
    sub.given ++ sub.ch = s.log.filter fun re => sub.fromLSN < re.lsn := by
  have base : sub.base = sub.fromLSN := Nat.min_eq_left assigned
  obtain ⟨-, -, -, current⟩ := invariant.follows id sub found
  rw [base, sentTo_idle unlocked] at current
  rw [invariant.keeps.numbered.filter_above]
  exact current registered alive

end Runs

/-! ## No gap and no duplicate -/

/-- What followers can rely on, whatever else goes on. -/
structure Gapless (restored : Nat) (s : Feed N) : Prop where
  /-- Numbers are assigned one after another. -/
  numbers : s.log.map ReplicationEntry.lsn = List.range' (restored + 1) s.log.length ∧
    s.broker.lsn = restored + s.log.length
  /-- A number that was assigned is accepted exactly when all above it is kept. -/
  accepts : ∀ fromLSN ≤ s.broker.lsn, (s.broker.subscribe fromLSN).isSome ↔
    ∀ lsn, fromLSN < lsn → lsn ≤ s.broker.lsn →
      ∃ re ∈ s.broker.ring.contents, re.lsn = lsn ∧ re ∈ s.log
  /-- What a follower was given are the published entries above its number, one
  after another. -/
  contiguous : ∀ id sub, s.subs.lookup id = some sub → sub.fromLSN ≤ sub.opened →
    sub.given.map ReplicationEntry.lsn = List.range' (sub.fromLSN + 1) sub.given.length ∧
      sub.given <+: s.log.filter fun re => sub.fromLSN < re.lsn
  /-- A follower that is registered and not dead has all that was published above
  its number, or has it in its channel. -/
  complete : ∀ id sub, s.subs.lookup id = some sub → sub.fromLSN ≤ sub.opened →
    id ∈ s.broker.subs → sub.dead = false → s.sending = none →
      sub.given ++ sub.ch = s.log.filter fun re => sub.fromLSN < re.lsn

/-- In every run of a broker, of any capacity and with channels of any size, the
feed has no gap and no duplicate. -/
theorem feed_no_gap_no_duplicate (ringSize subBuf : Int) (restored : Nat) {s : Feed N}
    (reached : Reached ringSize subBuf restored s) : Gapless restored s := by
  have invariant := invariant_of_reached reached
  have numbered := invariant.keeps.numbered
  exact ⟨⟨numbered, invariant.keeps.lsn⟩, fun _ => invariant.keeps.accepts_iff,
    fun _ _ => invariant.contiguous, fun _ _ => invariant.complete⟩

/-- An insert of a record without data. -/
def plainEntry : Entry Int := newInsert 1 none .zero

/-- A ring of two entries has wrapped when a follower subscribes to what it still has,
and a further entry is sent and received. -/
theorem feed_no_gap_no_duplicate_small :
    ∃ s : Feed Int, (∃ sub, s.subs.lookup 1 = some sub ∧
        sub.given.map ReplicationEntry.lsn = [9, 10, 11]) ∧
      (s.broker.subscribe 7).isNone = true ∧ Gapless 7 s := by
  have first := Relation.ReflTransGen.single
    (Step.publish (s := Feed.start 2 1 7) rfl "c" plainEntry)
  have second := (first.tail (.unlock rfl)).tail (.publish rfl "c" plainEntry)
  have third := (second.tail (.unlock rfl)).tail (.publish rfl "c" plainEntry)
  have subscribed := (third.tail (.unlock rfl)).tail (.subscribe rfl 8 rfl)
  have fourth := subscribed.tail (.publish rfl "c" plainEntry)
  have sent := fourth.tail (.send rfl (Finset.mem_insert_self 1 _) (Finmap.lookup_insert _))
  have received := (sent.tail (.unlock rfl)).tail (.receive (Finmap.lookup_insert _))
  exact ⟨_, ⟨_, Finmap.lookup_insert _, by decide⟩, by decide, feed_no_gap_no_duplicate 2 1 7 received⟩

end Scriva.Replication.Broker
