import Scriva.Lib.Keyed
import Scriva.Lib.Overflow
import Scriva.Store.Ndjson

/-!
# Watching a collection

Every write is announced to the subscribers of its collection.  A subscriber has
a channel of limited size, and an announcement never waits for it: what does not
fit is dropped, and a sentinel tells the subscriber about it once there is room.

An announcement holds the lock of the watchers while it goes through them, in
any order, with two attempts to send for each; subscribers take from their
channels at any time in between.
-/

namespace Scriva.Engine.Watch

open Lib.Keyed Lib.Overflow Store.Record Store.Rfc3339 Store.Ndjson
open Relation (ReflTransGen)

variable {N : Type}

structure WatchEvent (N : Type) where
  op : Op
  id : Nat
  data : Option (Data N)
  ts : Timestamp

def defaultWatchBufferSize : Nat := 64

/-- The size of the channels of a collection that is opened with a size. -/
def watchBufferSize (size : Int) : Nat :=
  if size ≤ 0 then defaultWatchBufferSize else size.toNat

structure Watcher (N : Type) where
  channel : Channel (WatchEvent N)
  /-- The number of events that had been emitted when it subscribed. -/
  since : Nat

/-- An emit that holds the lock: its event, the watchers it has yet to go to, and
the one it has tried to send the sentinel to. -/
structure Emitting (N : Type) where
  event : WatchEvent N
  waiting : Finset Nat
  current : Option Nat

structure Hub (N : Type) where
  watchBufferSize : Nat
  watchers : Finset Nat
  watcherIDSeq : Nat
  /-- The ids of subscriptions that wait for the lock. -/
  reserved : Finset Nat
  /-- Every subscription made so far. -/
  subscriptions : Map Nat (Watcher N)
  emitting : Option (Emitting N)
  /-- Every event so far. -/
  log : List (WatchEvent N)

namespace Hub

def start (size : Int) : Hub N :=
  ⟨Watch.watchBufferSize size, ∅, 0, ∅, ∅, none, []⟩

def beginEmit (s : Hub N) (event : WatchEvent N) : Hub N :=
  { s with emitting := some ⟨event, s.watchers, none⟩, log := s.log ++ [event] }

def reserve (s : Hub N) : Hub N :=
  { s with
    watcherIDSeq := s.watcherIDSeq + 1
    reserved := insert (s.watcherIDSeq + 1) s.reserved }

def subscribe (s : Hub N) (id : Nat) : Hub N :=
  { s with
    watchers := insert id s.watchers
    reserved := s.reserved.erase id
    subscriptions := s.subscriptions.insert id ⟨Channel.empty, s.log.length⟩ }

def cancel (s : Hub N) (id : Nat) : Hub N :=
  { s with watchers := s.watchers.erase id }

/-- Change the channel of a watcher. -/
def put (s : Hub N) (id : Nat) (w : Watcher N) (channel : Channel (WatchEvent N)) : Hub N :=
  { s with subscriptions := s.subscriptions.insert id { w with channel } }

end Hub

inductive Step : Hub N → Hub N → Prop where
  | emit {s : Hub N} (unlocked : s.emitting = none) (event : WatchEvent N) :
      Step s (s.beginEmit event)
  | flush {s : Hub N} {m : Emitting N} {id : Nat} {w : Watcher N}
      {channel : Channel (WatchEvent N)} (emitting : s.emitting = some m)
      (free : m.current = none) (next : id ∈ m.waiting)
      (found : s.subscriptions.lookup id = some w)
      (flushed : w.channel.flush s.watchBufferSize = some channel) :
      Step s { s.put id w channel with
        emitting := some { m with waiting := m.waiting.erase id, current := some id } }
  | backedUp {s : Hub N} {m : Emitting N} {id : Nat} {w : Watcher N}
      (emitting : s.emitting = some m) (free : m.current = none) (next : id ∈ m.waiting)
      (found : s.subscriptions.lookup id = some w)
      (full : w.channel.flush s.watchBufferSize = none) :
      Step s { s.put id w (w.channel.skip m.event) with
        emitting := some { m with waiting := m.waiting.erase id } }
  | offer {s : Hub N} {m : Emitting N} {id : Nat} {w : Watcher N}
      (emitting : s.emitting = some m) (current : m.current = some id)
      (found : s.subscriptions.lookup id = some w) :
      Step s { s.put id w (w.channel.offer s.watchBufferSize m.event) with
        emitting := some { m with current := none } }
  | unlock {s : Hub N} {m : Emitting N} (emitting : s.emitting = some m)
      (all : m.waiting = ∅) (free : m.current = none) : Step s { s with emitting := none }
  | reserve {s : Hub N} : Step s s.reserve
  | subscribe {s : Hub N} {id : Nat} (unlocked : s.emitting = none) (member : id ∈ s.reserved) :
      Step s (s.subscribe id)
  | cancel {s : Hub N} {id : Nat} (unlocked : s.emitting = none) : Step s (s.cancel id)
  | receive {s : Hub N} {id : Nat} {w : Watcher N} (found : s.subscriptions.lookup id = some w) :
      Step s (s.put id w w.channel.receive)

/-! ## One watcher -/

/-- How far the emit under way has come with a watcher: it has yet to come to it, or
has found room for the sentinel. -/
inductive Phase (N : Type) where
  | none
  | waiting (event : WatchEvent N)
  | current (event : WatchEvent N)

/-- The event that has yet to be offered. -/
def Phase.pending : Phase N → List (WatchEvent N)
  | .none => []
  | .waiting event | .current event => [event]

def Hub.phase (s : Hub N) (id : Nat) : Phase N :=
  match s.emitting with
  | none => .none
  | some m =>
    if m.current = some id then .current m.event
    else if id ∈ m.waiting then .waiting m.event
    else .none

/-- All that the steps change for one watcher. -/
structure Seat (N : Type) where
  log : List (WatchEvent N)
  registered : Bool
  phase : Phase N
  channel : Channel (WatchEvent N)

def Hub.seat (s : Hub N) (id : Nat) (channel : Channel (WatchEvent N)) : Seat N :=
  ⟨s.log, id ∈ s.watchers, s.phase id, channel⟩

/-- What a step may do to one watcher. -/
inductive Moves (size : Nat) : Seat N → Seat N → Prop where
  | same {a : Seat N} : Moves size a a
  | emit {log : List (WatchEvent N)} {registered : Bool} {channel : Channel (WatchEvent N)}
      (event : WatchEvent N) : Moves size ⟨log, registered, .none, channel⟩
        ⟨log ++ [event], registered, if registered then .waiting event else .none, channel⟩
  | flush {log : List (WatchEvent N)} {registered : Bool} {event : WatchEvent N}
      {channel flushed : Channel (WatchEvent N)} (fits : channel.flush size = some flushed) :
      Moves size ⟨log, registered, .waiting event, channel⟩
        ⟨log, registered, .current event, flushed⟩
  | backedUp {log : List (WatchEvent N)} {registered : Bool} {event : WatchEvent N}
      {channel : Channel (WatchEvent N)} (full : channel.flush size = none) :
      Moves size ⟨log, registered, .waiting event, channel⟩
        ⟨log, registered, .none, channel.skip event⟩
  | offer {log : List (WatchEvent N)} {registered : Bool} {event : WatchEvent N}
      {channel : Channel (WatchEvent N)} : Moves size ⟨log, registered, .current event, channel⟩
        ⟨log, registered, .none, channel.offer size event⟩
  | cancel {log : List (WatchEvent N)} {registered : Bool} {channel : Channel (WatchEvent N)} :
      Moves size ⟨log, registered, .none, channel⟩ ⟨log, false, .none, channel⟩
  | receive {a : Seat N} : Moves size a { a with channel := a.channel.receive }

/-- An emit does not come to a watcher twice. -/
def Apart (s : Hub N) : Prop :=
  ∀ m, s.emitting = some m → ∀ id, m.current = some id → id ∉ m.waiting

/-- A watcher stays, and a step does to it what it may. -/
def Follows (s s' : Hub N) (id : Nat) : Prop :=
  ∃ change : Channel (WatchEvent N) → Channel (WatchEvent N), s'.subscriptions.lookup id =
      (s.subscriptions.lookup id).map (fun w => { w with channel := change w.channel }) ∧
    ∀ w, s.subscriptions.lookup id = some w →
      Moves s.watchBufferSize (s.seat id w.channel) (s'.seat id (change w.channel))

variable {w : Watcher N} {channel : Channel (WatchEvent N)}

section Steps

variable {s s' : Hub N} {m : Emitting N} {id : Nat}

theorem phase_of_unlocked (unlocked : s.emitting = none) (id : Nat) : s.phase id = .none := by
  rw [Hub.phase, unlocked]

theorem phase_waiting (emitting : s.emitting = some m) (free : m.current = none)
    (next : id ∈ m.waiting) : s.phase id = .waiting m.event := by
  simp [Hub.phase, emitting, free, next]

theorem apart_step (apart : Apart s) (step : Step s s') : Apart s' := by
  cases step with
  | flush =>
    rintro m' ⟨⟩ id ⟨⟩
    exact Finset.notMem_erase _ _
  | backedUp emitting free =>
    rintro m' ⟨⟩ id turn
    cases free.symm.trans turn
  | emit | offer =>
    rintro m' ⟨⟩ id ⟨⟩
  | unlock => exact nofun
  | reserve | subscribe | cancel | receive => exact apart

theorem follows_same (lookup : s'.subscriptions.lookup id = s.subscriptions.lookup id)
    (moves : ∀ channel, Moves s.watchBufferSize (s.seat id channel) (s'.seat id channel)) :
    Follows s s' id := by
  refine ⟨fun channel => channel, ?_, fun w _ => moves w.channel⟩
  rw [lookup, Option.map_id']

/-- A step at a watcher, seen from every watcher. -/
theorem follows_put {other : Nat} (found : s.subscriptions.lookup other = some w)
    (put : s'.subscriptions = (s.put other w channel).subscriptions)
    (here : Moves s.watchBufferSize (s.seat other w.channel) (s'.seat other channel))
    (elsewhere : id ≠ other → ∀ channel, s'.seat id channel = s.seat id channel) :
    Follows s s' id := by
  by_cases same : id = other
  · subst same
    refine ⟨fun _ => channel, ?_, fun w' found' => ?_⟩
    · rw [put, found]
      exact Finmap.lookup_insert _
    · obtain rfl := Option.some.inj (found.symm.trans found')
      exact here
  · refine follows_same ?_ fun channel => ?_
    · rw [put]
      exact Finmap.lookup_insert_of_ne _ same
    · rw [elsewhere same channel]
      exact .same

/-- A step makes a subscription, or does to a watcher what it may. -/
theorem follows_step (apart : Apart s) (step : Step s s') (id : Nat) :
    (s.emitting = none ∧ s'.emitting = none ∧ s'.log = s.log ∧
      s'.subscriptions.lookup id = some ⟨Channel.empty, s.log.length⟩) ∨ Follows s s' id := by
  cases step with
  | emit unlocked event =>
    refine .inr (follows_same rfl fun channel => ?_)
    have phase : (s.beginEmit event).phase id =
        if decide (id ∈ s.watchers) then .waiting event else .none := by
      simp [Hub.phase, Hub.beginEmit]
    rw [Hub.seat, Hub.seat, phase, phase_of_unlocked unlocked]
    exact .emit event
  | @flush m other w channel emitting free next found flushed =>
    refine .inr (follows_put found rfl ?_ fun differs channel => ?_)
    · rw [Hub.seat, Hub.seat, phase_waiting emitting free next, Hub.phase]
      simp only [if_true]
      exact .flush flushed
    · simp [Hub.seat, Hub.phase, Hub.put, emitting, free, differs, differs.symm]
  | @backedUp m other w emitting free next found full =>
    refine .inr (follows_put found rfl ?_ fun differs channel => ?_)
    · rw [Hub.seat, Hub.seat, phase_waiting emitting free next, Hub.phase]
      simp only [free, Finset.notMem_erase, reduceCtorEq, if_false]
      exact .backedUp full
    · simp [Hub.seat, Hub.phase, Hub.put, emitting, free, differs]
  | @offer m other w emitting current found =>
    have passed := apart m emitting other current
    refine .inr (follows_put found rfl ?_ fun differs channel => ?_)
    · rw [Hub.seat, Hub.seat, Hub.phase, emitting, Hub.phase]
      simp only [current, passed, reduceCtorEq, if_false, if_true]
      exact .offer
    · simp [Hub.seat, Hub.phase, Hub.put, emitting, current, differs.symm]
  | unlock emitting all free =>
    refine .inr (follows_same rfl fun channel => ?_)
    have phase : s.phase id = .none := by simp [Hub.phase, emitting, all, free]
    rw [Hub.seat, phase]
    exact .same
  | reserve => exact .inr (follows_same rfl fun _ => .same)
  | @subscribe other unlocked member =>
    by_cases same : id = other
    · subst same
      exact .inl ⟨unlocked, unlocked, rfl, Finmap.lookup_insert _⟩
    · refine .inr (follows_same (Finmap.lookup_insert_of_ne _ same) fun channel => ?_)
      simp only [Hub.seat, Hub.subscribe, Hub.phase, Finset.mem_insert, same, false_or]
      exact .same
  | @cancel other unlocked =>
    refine .inr (follows_same rfl fun channel => ?_)
    have phase : (s.cancel other).phase id = .none := phase_of_unlocked unlocked id
    rw [Hub.seat, Hub.seat, phase, phase_of_unlocked unlocked]
    by_cases same : id = other
    · simp only [Hub.cancel, same, Finset.notMem_erase, decide_false]
      exact .cancel
    · simp only [Hub.cancel, Finset.mem_erase, same, ne_eq, not_false_eq_true, true_and]
      exact .same
  | receive found => exact .inr (follows_put found rfl .receive fun _ _ => rfl)

end Steps

/-! ## What has reached a watcher -/

/-- A watcher has been sent what it may of the events since it subscribed, up to
the one that is being emitted, or up to its cancellation. -/
structure Reached (since : Nat) (a : Seat N) : Prop where
  split : ∃ before seen rest, a.log = before ++ (seen ++ rest) ∧ before.length = since ∧
    a.channel.Sound seen ∧ (a.registered → rest = a.phase.pending)
  registered : a.phase.pending ≠ [] → a.registered
  clear : ∀ event, a.phase = .current event → a.channel.overflowed = false

theorem Reached.moves {a b : Seat N} {size since : Nat} (reached : Reached since a)
    (moves : Moves size a b) : Reached since b := by
  obtain ⟨⟨before, seen, rest, whole, length, sound, due⟩, registered, clear⟩ := reached
  -- the event of the emit has been dealt with
  have settled {event : WatchEvent N} {channel : Channel (WatchEvent N)}
      (phase : a.phase.pending = [event]) (after : channel.Sound (seen ++ [event])) :
      Reached since ⟨a.log, a.registered, .none, channel⟩ := by
    have registered := registered (by simp [phase])
    rw [due registered, phase] at whole
    exact ⟨⟨before, seen ++ [event], [], by simp [whole], length, after, fun _ => rfl⟩,
      fun absurd => (absurd rfl).elim, nofun⟩
  cases moves with
  | same => exact ⟨⟨before, seen, rest, whole, length, sound, due⟩, registered, clear⟩
  | @emit log signed channel event =>
    cases signed with
    | false => exact ⟨⟨before, seen, rest ++ [event], by simp [show log = _ from whole], length,
        sound, nofun⟩, fun absurd => (absurd rfl).elim, nofun⟩
    | true =>
      have done : rest = [] := due rfl
      subst done
      exact ⟨⟨before, seen, [event], by simp [show log = _ from whole], length, sound,
        fun _ => rfl⟩, fun _ => rfl, nofun⟩
  | flush fits =>
    exact ⟨⟨before, seen, rest, whole, length, (sound.flush fits).1, due⟩, registered,
      fun _ _ => (sound.flush fits).2⟩
  | backedUp full => exact settled rfl (sound.skip full _)
  | offer => exact settled rfl (sound.offer (clear _ rfl) _)
  | cancel =>
    exact ⟨⟨before, seen, rest, whole, length, sound, nofun⟩, fun absurd => (absurd rfl).elim,
      nofun⟩
  | receive =>
    refine ⟨⟨before, seen, rest, whole, length, sound.receive, due⟩, registered, ?_⟩
    intro event phase
    exact (Channel.overflowed_receive a.channel).trans (clear event phase)

/-- Every watcher has been sent what it may. -/
structure Kept (s : Hub N) : Prop where
  apart : Apart s
  reached : ∀ id w, s.subscriptions.lookup id = some w → Reached w.since (s.seat id w.channel)

theorem kept_start (size : Int) : Kept (Hub.start size : Hub N) where
  apart := nofun
  reached id w found := by
    rw [Hub.start, Finmap.lookup_empty] at found
    cases found

theorem kept_step {s s' : Hub N} (kept : Kept s) (step : Step s s') : Kept s' where
  apart := apart_step kept.apart step
  reached id w' found' := by
    rcases follows_step kept.apart step id with ⟨-, unlocked, log, fresh⟩ | ⟨change, lookup, moves⟩
    · obtain rfl := Option.some.inj (fresh.symm.trans found')
      have idle := phase_of_unlocked unlocked id
      refine ⟨⟨s.log, [], [], by simp [Hub.seat, log], rfl, .empty, fun _ => ?_⟩, ?_, ?_⟩
      · rw [Hub.seat, idle]
        rfl
      · rw [Hub.seat, idle]
        exact fun absurd => (absurd rfl).elim
      · exact fun _ _ => rfl
    · rw [lookup] at found'
      obtain ⟨w, found, rfl⟩ := Option.map_eq_some_iff.mp found'
      exact (kept.reached id w found).moves (moves w found)

theorem kept_run {s s' : Hub N} (kept : Kept s) (run : ReflTransGen Step s s') :
    Kept s' := by
  induction run with
  | refl => exact kept
  | tail _ step ih => exact kept_step ih step

/-- The events since a watcher subscribed, with those it has been sent what it may
of in front. -/
theorem Kept.split {s : Hub N} {id : Nat} (kept : Kept s)
    (found : s.subscriptions.lookup id = some w) :
    ∃ before seen rest, s.log = before ++ (seen ++ rest) ∧ before.length = w.since ∧
      w.channel.Sound seen ∧ (id ∈ s.watchers → s.emitting = none → rest = []) := by
  obtain ⟨before, seen, rest, whole, since, sound, due⟩ := (kept.reached id w found).split
  refine ⟨before, seen, rest, whole, since, sound, fun registered unlocked => ?_⟩
  rw [due (decide_eq_true registered), Hub.seat, phase_of_unlocked unlocked]
  rfl

/-- Nothing is lost silently.  The events that a subscriber is sent are some of
those emitted since it subscribed, in their order.  Everything it is sent stands
for a place of its own among them: an event for itself, and a sentinel for an
event that is not sent.  Places increase, and two events in a row without a
sentinel between them are neighbours. -/
theorem watch_reports_loss (size : Int) (s : Hub N)
    (run : ReflTransGen Step (Hub.start size) s) (id : Nat) (w : Watcher N)
    (found : s.subscriptions.lookup id = some w) :
    (w.channel.sent.filterMap Item.event?).Sublist (s.log.drop w.since) ∧
      ∃ told : List (Nat × Item (WatchEvent N)), told.map Prod.snd = w.channel.sent ∧
        Accounts (s.log.drop w.since) told := by
  obtain ⟨before, seen, rest, whole, since, sound, -⟩ :=
    (kept_run (kept_start size) run).split found
  have emitted : s.log.drop w.since = seen ++ rest := by
    rw [whole, ← since, List.drop_left]
  rw [emitted]
  obtain ⟨told, items, accounts, -, -⟩ := sound.sent.accounts
  exact ⟨sound.sent.sublist.trans (List.sublist_append_left _ _), told, items,
    accounts.append rest⟩

/-! ## Recovery -/

/-- The steps of one emit, from taking the lock to releasing it, and what
subscribers do meanwhile. -/
def Emits (event : WatchEvent N) (s s' : Hub N) : Prop :=
  ReflTransGen (fun a b => Step a b ∧ a.emitting ≠ none) (s.beginEmit event) s' ∧
    s'.emitting = none

/-- The sentinel, if something was missed. -/
def notice (c : Channel (WatchEvent N)) : List (Item (WatchEvent N)) :=
  if c.missed = [] then [] else [.overflow]

variable {seen : List (WatchEvent N)}

theorem flush_drained {c : Channel (WatchEvent N)} {size : Nat} (sound : c.Sound seen)
    (drained : c.ch = []) (room : 0 < size) :
    ∃ c', c.flush size = some c' ∧ c'.sent = c.sent ++ notice c ∧ c'.ch.length ≤ 1 := by
  by_cases set : c.overflowed = true
  · have lost := sound.flagged.mp set
    refine ⟨{ c with ch := c.ch ++ [.overflow], overflowed := false, missed := [] }, ?_, ?_, ?_⟩
    · rw [Channel.flush, if_pos set, drained]
      exact if_pos room
    · rw [notice, if_neg lost, Channel.sent, Channel.sent, List.append_assoc]
    · simp [drained]
  · have none : c.missed = [] := by
      by_contra lost
      exact set (sound.flagged.mpr lost)
    refine ⟨c, if_neg set, ?_, ?_⟩
    · rw [notice, if_pos none, List.append_nil]
    · simp [drained]

/-- An emit on its way to a watcher that had taken everything: not yet there,
after the sentinel, or done. -/
def Delivering (event : WatchEvent N) (old : Channel (WatchEvent N)) (a : Seat N) : Prop :=
  match a.phase with
  | .waiting e => e = event ∧ a.channel = old
  | .current e =>
    e = event ∧ a.channel.sent = old.sent ++ notice old ∧ a.channel.ch.length ≤ 1
  | .none => a.channel.sent = old.sent ++ (notice old ++ [.event event])

section Delivery

variable {s s' : Hub N} {event : WatchEvent N} {id : Nat} {old : Channel (WatchEvent N)}

theorem Delivering.moves {a b : Seat N} {size : Nat} (delivering : Delivering event old a)
    (sound : old.Sound seen) (drained : old.ch = []) (room : 2 ≤ size) (moves : Moves size a b)
    (quiet : b.log = a.log) : Delivering event old b := by
  have positive : 0 < size := by omega
  obtain ⟨c, made, sent, short⟩ := flush_drained sound drained positive
  cases moves with
  | same | cancel => exact delivering
  | emit event => exact absurd quiet (by simp)
  | flush fits =>
    obtain ⟨same, rfl⟩ := delivering
    obtain rfl := Option.some.inj (made.symm.trans fits)
    exact ⟨same, sent, short⟩
  | backedUp full =>
    obtain ⟨-, rfl⟩ := delivering
    cases made.symm.trans full
  | @offer _ _ e channel =>
    obtain ⟨rfl, before, few⟩ := delivering
    have fits : channel.ch.length < size := by
      have few : channel.ch.length ≤ 1 := few
      omega
    have before : channel.sent = old.sent ++ notice old := before
    change (channel.offer size e).sent = _
    rw [Channel.offer, if_pos fits, Channel.sent, ← List.append_assoc]
    change channel.sent ++ _ = _
    rw [before, List.append_assoc]
  | receive =>
    have same := Channel.sent_receive a.channel
    unfold Delivering at delivering ⊢
    rcases phase : a.phase with - | e | e
    · rw [phase] at delivering
      exact same.trans delivering
    · rw [phase] at delivering
      obtain ⟨is, rfl⟩ := delivering
      exact ⟨is, by simp [Channel.receive, drained]⟩
    · rw [phase] at delivering
      obtain ⟨is, before, few⟩ := delivering
      exact ⟨is, same.trans before, (Channel.length_receive a.channel).trans few⟩

/-- No step changes the size of the channels. -/
theorem watchBufferSize_step (step : Step s s') : s'.watchBufferSize = s.watchBufferSize := by
  cases step with
  | emit | flush | backedUp | offer | unlock | reserve | subscribe | cancel | receive => rfl

/-- While an emit holds the lock, no other event is logged. -/
theorem log_of_locked (step : Step s s') (locked : s.emitting ≠ none) : s'.log = s.log := by
  cases step with
  | emit unlocked => exact absurd unlocked locked
  | flush | backedUp | offer | unlock | reserve | subscribe | cancel | receive => rfl

/-- With room for two, an emit reaches a watcher that had taken everything. -/
theorem Emits.delivers (emits : Emits event s s') (kept : Kept s) (unlocked : s.emitting = none)
    (room : 2 ≤ s.watchBufferSize) (registered : id ∈ s.watchers)
    (found : s.subscriptions.lookup id = some w) (drained : w.channel.ch = []) :
    ∃ w', s'.subscriptions.lookup id = some w' ∧
      w'.channel.sent = w.channel.sent ++ (notice w.channel ++ [.event event]) := by
  obtain ⟨-, seen, -, -, -, sound, -⟩ := kept.split found
  obtain ⟨run, ended⟩ := emits
  have all : Apart s' ∧ 2 ≤ s'.watchBufferSize ∧ ∃ w', s'.subscriptions.lookup id = some w' ∧
      Delivering event w.channel (s'.seat id w'.channel) := by
    clear ended
    induction run with
    | refl =>
      have phase : (s.beginEmit event).phase id = .waiting event :=
        phase_waiting (m := ⟨event, s.watchers, none⟩) rfl rfl registered
      refine ⟨apart_step kept.apart (.emit unlocked event), room, w, found, ?_⟩
      rw [Hub.seat, phase]
      exact ⟨rfl, rfl⟩
    | tail _ step ih =>
      obtain ⟨apart, room, w', found', delivering⟩ := ih
      refine ⟨apart_step apart step.1, (watchBufferSize_step step.1).ge.trans' room, ?_⟩
      rcases follows_step apart step.1 id with ⟨unlocked, -⟩ | ⟨change, lookup, moves⟩
      · exact absurd unlocked step.2
      · rw [found'] at lookup
        exact ⟨_, lookup, delivering.moves sound drained room (moves w' found')
          (log_of_locked step.1 step.2)⟩
  obtain ⟨-, -, w', found', delivering⟩ := all
  rw [Hub.seat, phase_of_unlocked ended] at delivering
  exact ⟨w', found', delivering⟩

end Delivery

/-! ## A single subscriber -/

theorem lookup_put_same (s : Hub N) (id : Nat) (w : Watcher N)
    (channel : Channel (WatchEvent N)) :
    (s.put id w channel).subscriptions.lookup id = some { w with channel } :=
  Finmap.lookup_insert _

/-- A channel after an emit that nothing interrupts. -/
def announce (size : Nat) (event : WatchEvent N) (c : Channel (WatchEvent N)) :
    Channel (WatchEvent N) :=
  match c.flush size with
  | some c' => c'.offer size event
  | none => c.skip event

def Hub.announced (s : Hub N) (id : Nat) (w : Watcher N) (event : WatchEvent N) : Hub N :=
  { s.put id w (announce s.watchBufferSize event w.channel) with log := s.log ++ [event] }

theorem emits_announced {s : Hub N} {id : Nat} (unlocked : s.emitting = none)
    (alone : s.watchers = {id}) (found : s.subscriptions.lookup id = some w)
    (event : WatchEvent N) : Emits event s (s.announced id w event) := by
  have next : id ∈ ({id} : Finset Nat) := Finset.mem_singleton_self id
  refine ⟨?_, unlocked⟩
  rw [Hub.beginEmit, alone]
  rcases flushed : w.channel.flush s.watchBufferSize with - | c
  · refine .head ⟨.backedUp rfl rfl next found flushed, nofun⟩
      (.head ⟨.unlock rfl (Finset.erase_singleton id) rfl, nofun⟩ ?_)
    rw [Hub.announced, announce, flushed, Hub.put, Hub.put, ← alone, ← unlocked]
  · refine .head ⟨.flush rfl rfl next found flushed, nofun⟩
      (.head ⟨.offer rfl rfl (lookup_put_same _ id w c), nofun⟩
        (.head ⟨.unlock rfl (Finset.erase_singleton id) rfl, nofun⟩ ?_))
    rw [Hub.announced, announce, flushed, Hub.put, Hub.put, Hub.put, ← alone, ← unlocked]
    simp only [Finmap.insert_insert]
    exact .refl

theorem Emits.run {s s' : Hub N} {event : WatchEvent N} (emits : Emits event s s')
    (unlocked : s.emitting = none) : ReflTransGen Step s s' :=
  .head (.emit unlocked event) (emits.1.lift id fun _ _ step => step.1)

/-- A collection with one subscriber, that was there from the start. -/
structure Alone (size : Int) (c : Channel (WatchEvent N)) (log : List (WatchEvent N))
    (s : Hub N) : Prop where
  run : ReflTransGen Step (Hub.start size) s
  unlocked : s.emitting = none
  buffer : s.watchBufferSize = watchBufferSize size
  watchers : s.watchers = {1}
  found : s.subscriptions.lookup 1 = some ⟨c, 0⟩
  log : s.log = log

theorem alone_subscribed (size : Int) :
    Alone size Channel.empty [] ((Hub.start size : Hub N).reserve.subscribe 1) where
  run := .head .reserve (.single (.subscribe rfl (Finset.mem_insert_self _ _)))
  unlocked := rfl
  buffer := rfl
  watchers := rfl
  found := Finmap.lookup_insert _
  log := rfl

namespace Alone

variable {size : Int} {c : Channel (WatchEvent N)} {log : List (WatchEvent N)} {s : Hub N}

theorem announced (alone : Alone size c log s) (event : WatchEvent N) :
    Alone size (announce (watchBufferSize size) event c) (log ++ [event])
      (s.announced 1 ⟨c, 0⟩ event) where
  run := alone.run.trans
    ((emits_announced alone.unlocked alone.watchers alone.found event).run alone.unlocked)
  unlocked := alone.unlocked
  buffer := alone.buffer
  watchers := alone.watchers
  found := by
    rw [← alone.buffer]
    exact lookup_put_same s 1 ⟨c, 0⟩ _
  log := by rw [← alone.log]; rfl

theorem receive (alone : Alone size c log s) :
    Alone size c.receive log (s.put 1 ⟨c, 0⟩ c.receive) where
  run := alone.run.tail (.receive alone.found)
  unlocked := alone.unlocked
  buffer := alone.buffer
  watchers := alone.watchers
  found := lookup_put_same s 1 ⟨c, 0⟩ _
  log := alone.log

end Alone

/-- A subscriber with room for one event has missed the second one and taken the
first. -/
theorem reaches_overflow {size : Int} (one : watchBufferSize size = 1) (event : WatchEvent N) :
    ∃ s, Alone size ⟨[], true, [.event event], [event]⟩ [event, event] s := by
  have reached := (((alone_subscribed size).announced event).announced event).receive
  have channel : (announce (watchBufferSize size) event
      (announce (watchBufferSize size) event Channel.empty)).receive =
        ⟨[], true, [.event event], [event]⟩ := by
    simp [one, announce, Channel.flush, Channel.offer, Channel.receive, Channel.empty]
  rw [channel] at reached
  exact ⟨_, reached⟩

/-- With room for one, the sentinel takes the place of the event. -/
theorem lost_again {size : Int} (one : watchBufferSize size = 1) (event : WatchEvent N) :
    ∃ s s', Alone size ⟨[], true, [.event event], [event]⟩ [event, event] s ∧ Emits event s s' ∧
      s'.subscriptions.lookup 1 =
        some ⟨⟨[.overflow], true, [.event event], [event]⟩, 0⟩ := by
  obtain ⟨s, alone⟩ := reaches_overflow one event
  refine ⟨s, _, alone, emits_announced alone.unlocked alone.watchers alone.found event, ?_⟩
  have channel : announce (watchBufferSize size) event
      ⟨[], true, [.event event], [event]⟩ = ⟨[.overflow], true, [.event event], [event]⟩ := by
    simp [one, announce, Channel.flush, Channel.offer]
  rw [← channel]
  exact (alone.announced event).found

theorem watchBufferSize_pos (size : Int) : 0 < watchBufferSize size := by
  unfold watchBufferSize
  split_ifs with none
  · decide
  · omega

/-- A subscriber that has taken everything is sent the next event, after one
sentinel if it had missed events and after none otherwise: this holds exactly if
the channels have room for two. -/
theorem watch_recovers_iff (size : Int) :
    (∀ (s s' : Hub N) (event : WatchEvent N) (id : Nat) (w : Watcher N),
        ReflTransGen Step (Hub.start size) s → s.emitting = none → id ∈ s.watchers →
          s.subscriptions.lookup id = some w → w.channel.ch = [] → Emits event s s' →
            ∃ w', s'.subscriptions.lookup id = some w' ∧
              w'.channel.sent = w.channel.sent ++
                ((if w.channel.missed = [] then [] else [.overflow]) ++ [.event event])) ↔
      2 ≤ watchBufferSize size := by
  constructor
  · intro recovers
    by_contra small
    have one : watchBufferSize size = 1 := by
      have := watchBufferSize_pos size
      omega
    have event : WatchEvent N := ⟨.insert, 1, none, .zero⟩
    obtain ⟨s, s', alone, emits, lost⟩ := lost_again one event
    have registered : 1 ∈ s.watchers := by
      rw [alone.watchers]
      exact Finset.mem_singleton_self 1
    obtain ⟨w', found', sent⟩ := recovers s s' event 1 _ alone.run alone.unlocked registered
      alone.found rfl emits
    obtain rfl := Option.some.inj (lost.symm.trans found')
    simp [Channel.sent] at sent
  · intro room s s' event id w run unlocked registered found drained emits
    have kept := kept_run (kept_start size) run
    have buffer : s.watchBufferSize = watchBufferSize size := by
      clear unlocked registered found emits kept
      induction run with
      | refl => rfl
      | tail _ step ih => exact (watchBufferSize_step step).trans ih
    exact emits.delivers kept unlocked (buffer ▸ room) registered found drained

/-- An insert of a record without data. -/
def bareInsert : WatchEvent Int :=
  ⟨.insert, 1, none, .zero⟩

/-- A subscriber with room for one event is drained after it has missed one: the
next event is lost again. -/
theorem single_slot_stays_behind :
    ∃ s s' w', ReflTransGen Step (Hub.start 1) s ∧ s.emitting = none ∧ 1 ∈ s.watchers ∧
      s.subscriptions.lookup 1 = some ⟨⟨[], true, [.event bareInsert], [bareInsert]⟩, 0⟩ ∧
      Emits bareInsert s s' ∧ s'.subscriptions.lookup 1 = some w' ∧
      w'.channel.sent = [.event bareInsert, .overflow] := by
  obtain ⟨s, s', alone, emits, lost⟩ := lost_again (N := Int) (rfl : watchBufferSize 1 = 1)
    bareInsert
  refine ⟨s, s', _, alone.run, alone.unlocked, ?_, alone.found, emits, lost, rfl⟩
  rw [alone.watchers]
  exact Finset.mem_singleton_self 1

/-- What a subscriber with room for one is sent of two events, the second of
which it misses. -/
theorem watch_reports_loss_missed :
    ∃ (s : Hub Int) (w : Watcher Int), ReflTransGen Step (Hub.start 1) s ∧
      s.subscriptions.lookup 1 = some w ∧ w.channel.missed = [bareInsert] ∧
      ∃ told : List (Nat × Item (WatchEvent Int)), told.map Prod.snd = [.event bareInsert] ∧
        Accounts [bareInsert, bareInsert] told := by
  obtain ⟨s, alone⟩ := reaches_overflow (rfl : watchBufferSize 1 = 1) bareInsert
  have accounted := (watch_reports_loss 1 s alone.run 1 _ alone.found).2
  rw [alone.log] at accounted
  exact ⟨s, _, alone.run, alone.found, rfl, accounted⟩

end Scriva.Engine.Watch
