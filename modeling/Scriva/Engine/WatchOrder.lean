import Scriva.Engine.Watch
import Scriva.Engine.Collection

/-!
# The order of events

A write is committed under the lock of the collection and announced after this
lock has been given up, and after a rotation if the active segment is full.
Between the two any other call may commit and announce writes.  The events of a
record are emitted in the order of its writes if every call emits its events in
turn: only when no call that has committed before it still has an event of the
same record to emit.
-/

namespace Scriva.Engine.WatchOrder

open Lib.Overflow Store.Record Store.Rfc3339 Store.Ndjson Watch
open Engine.Collection (TxOp TxOpKind)
open Relation (ReflTransGen)

variable {N : Type}

/-! ## Writes and their events -/

/-- What a call has committed under the lock. -/
inductive Write (N : Type) where
  | insert (id : Nat) (data : Option (Data N)) (ts : Timestamp)
  | insertMany (records : List (Nat × Option (Data N))) (ts : Timestamp)
  | update (id : Nat) (data : Option (Data N)) (ts : Timestamp)
  | delete (id : Nat) (ts : Timestamp)
  | upsert (present : Bool) (id : Nat) (stamped : Data N) (ts : Timestamp)
  | compareAndSwap (id : Nat) (stamped : Data N) (ts : Timestamp)
  | commitTx (ops : List (TxOp N))
  | reapExpired (reaped : List (Nat × Timestamp))
  | applyEntry (e : Entry N)

def txEvent (op : TxOp N) : WatchEvent N :=
  match op.kind with
  | .insert => ⟨.insert, op.id, op.data, op.ts⟩
  | .update => ⟨.update, op.id, op.data, op.ts⟩
  | .delete => ⟨.delete, op.id, none, op.ts⟩

def appliedEvents (e : Entry N) : List (WatchEvent N) :=
  match e.op with
  | .insert => [⟨.insert, e.id, e.data, e.ts⟩]
  | .update => [⟨.update, e.id, e.data, e.ts⟩]
  | .delete => [⟨.delete, e.id, none, e.ts⟩]
  | .other _ _ => []

/-- The events of a write, one for each of its lines and in their order. -/
def Write.events : Write N → List (WatchEvent N)
  | .insert id data ts => [⟨.insert, id, data, ts⟩]
  | .insertMany records ts => records.map fun record => ⟨.insert, record.1, record.2, ts⟩
  | .update id data ts => [⟨.update, id, data, ts⟩]
  | .delete id ts => [⟨.delete, id, none, ts⟩]
  | .upsert present id stamped ts => [⟨if present then .update else .insert, id, stamped, ts⟩]
  | .compareAndSwap id stamped ts => [⟨.update, id, stamped, ts⟩]
  | .commitTx ops => ops.map txEvent
  | .reapExpired reaped => reaped.map fun record => ⟨.delete, record.1, none, record.2⟩
  | .applyEntry e => appliedEvents e

/-- The event of a removal has no data. -/
theorem data_of_delete (write : Write N) :
    ∀ e ∈ write.events, e.op = .delete → e.data = none := by
  cases write with
  | insert | update | compareAndSwap | delete => simp [Write.events]
  | insertMany records ts => exact List.forall_mem_map.mpr fun _ _ => nofun
  | reapExpired reaped => exact List.forall_mem_map.mpr fun _ _ _ => rfl
  | upsert present id stamped ts => cases present <;> simp [Write.events]
  | commitTx ops =>
    refine List.forall_mem_map.mpr fun op _ => ?_
    rw [txEvent]
    cases op.kind <;> simp
  | applyEntry e =>
    rw [Write.events, appliedEvents]
    cases e.op <;> simp

/-! ## Runs -/

/-- A call that has given up the lock: whether it has to rotate the active
segment first, and the events it has to emit. -/
structure Writer (N : Type) where
  needRotate : Bool
  events : List (WatchEvent N)

/-- The writes in the order of the log, the calls after their commit in the same
order, and the watchers. -/
structure Scene (N : Type) where
  committed : List (WatchEvent N)
  writers : List (Writer N)
  hub : Hub N

def Scene.start (size : Int) : Scene N :=
  ⟨[], [], Hub.start size⟩

inductive Action (N : Type) where
  | commit (write : Write N)
  | abort (lines : List (WatchEvent N))
  | rotate
  | rotateFails (lost : List (WatchEvent N))
  | emit (earlier : List (Writer N)) (event : WatchEvent N)
  | finish
  | hub

inductive Step : Scene N → Action N → Scene N → Prop where
  | commit {s : Scene N} (write : Write N) (needRotate : Bool) :
      Step s (.commit write) { s with
        committed := s.committed ++ write.events
        writers := s.writers ++ [⟨needRotate, write.events⟩] }
  /-- A call fails after it has written some lines. -/
  | abort {s : Scene N} (lines : List (WatchEvent N)) :
      Step s (.abort lines) { s with committed := s.committed ++ lines }
  | rotate {s : Scene N} {before after : List (Writer N)} {events : List (WatchEvent N)}
      (writers : s.writers = before ++ ⟨true, events⟩ :: after) :
      Step s .rotate { s with writers := before ++ ⟨false, events⟩ :: after }
  /-- A call returns the error of its rotation and emits nothing. -/
  | rotateFails {s : Scene N} {before after : List (Writer N)} {events : List (WatchEvent N)}
      (writers : s.writers = before ++ ⟨true, events⟩ :: after) :
      Step s (.rotateFails events) { s with writers := before ++ after }
  | emit {s : Scene N} {before after : List (Writer N)} {event : WatchEvent N}
      {events : List (WatchEvent N)}
      (writers : s.writers = before ++ ⟨false, event :: events⟩ :: after)
      (unlocked : s.hub.emitting = none) :
      Step s (.emit before event) { s with
        writers := before ++ ⟨false, events⟩ :: after
        hub := s.hub.beginEmit event }
  | finish {s : Scene N} {before after : List (Writer N)}
      (writers : s.writers = before ++ ⟨false, []⟩ :: after) :
      Step s .finish { s with writers := before ++ after }
  | hub {s : Scene N} {hub : Hub N} (step : Watch.Step s.hub hub) (quiet : hub.log = s.hub.log) :
      Step s .hub { s with hub }

/-- No call fails after it has written a line, and a call emits an event only
when no earlier call has an event of the same record left. -/
def Action.InTurn : Action N → Prop
  | .abort lines => lines = []
  | .rotateFails lost => lost = []
  | .emit earlier event => ∀ writer ∈ earlier, ∀ e ∈ writer.events, e.id ≠ event.id
  | _ => True

abbrev Turn (s s' : Scene N) : Prop :=
  ∃ action : Action N, Step s action s' ∧ action.InTurn

/-! ## The order is kept -/

/-- The events of one record. -/
def about (id : Nat) (events : List (WatchEvent N)) : List (WatchEvent N) :=
  events.filter fun e => e.id = id

theorem about_append (id : Nat) (front back : List (WatchEvent N)) :
    about id (front ++ back) = about id front ++ about id back :=
  List.filter_append ..

/-- The events that are yet to be emitted, by the order of the commits. -/
def pendingOf (writers : List (Writer N)) : List (WatchEvent N) :=
  writers.flatMap Writer.events

theorem pendingOf_append (front back : List (Writer N)) :
    pendingOf (front ++ back) = pendingOf front ++ pendingOf back :=
  List.flatMap_append

theorem pendingOf_cons (writer : Writer N) (writers : List (Writer N)) :
    pendingOf (writer :: writers) = writer.events ++ pendingOf writers :=
  List.flatMap_cons

/-- The writes of every record have been announced in their order up to some
point, and the rest is yet to be. -/
def InOrder (s : Scene N) : Prop :=
  ∀ id, about id s.committed = about id s.hub.log ++ about id (pendingOf s.writers)

theorem about_eq_nil {id : Nat} {events : List (WatchEvent N)}
    (others : ∀ e ∈ events, e.id ≠ id) : about id events = [] := by
  refine List.filter_eq_nil_iff.mpr fun e member => ?_
  simpa using others e member

theorem inOrder_step {s s' : Scene N} (ordered : InOrder s) (turn : Turn s s') : InOrder s' := by
  obtain ⟨action, step, inTurn⟩ := turn
  intro id
  have before := ordered id
  cases step with
  | commit write needRotate =>
    rw [about_append, before, pendingOf_append, about_append, pendingOf_cons,
      List.append_assoc]
    simp [pendingOf]
  | abort lines =>
    obtain rfl : lines = [] := inTurn
    rw [List.append_nil]
    exact before
  | rotate writers =>
    rw [writers, pendingOf_append, pendingOf_cons] at before
    rw [pendingOf_append, pendingOf_cons]
    exact before
  | rotateFails writers =>
    obtain rfl := (inTurn : _ = [])
    rw [writers, pendingOf_append, pendingOf_cons, List.nil_append] at before
    rw [pendingOf_append]
    exact before
  | emit writers unlocked =>
    rename_i front back event events
    rw [writers, pendingOf_append, pendingOf_cons, about_append, about_append] at before
    rw [pendingOf_append, pendingOf_cons, about_append, about_append]
    change about id s.committed = about id (s.hub.log ++ [event]) ++ _
    rw [about_append, before]
    by_cases here : event.id = id
    · -- no event of the record is pending before this one
      have none : about id (pendingOf front) = [] := by
        refine about_eq_nil fun e member => ?_
        obtain ⟨writer, inside, own⟩ := List.mem_flatMap.mp member
        exact here ▸ inTurn writer inside e own
      rw [none]
      simp [about, here]
    · simp [about, here]
  | finish writers =>
    rw [writers, pendingOf_append, pendingOf_cons, List.nil_append] at before
    rw [pendingOf_append]
    exact before
  | hub step quiet =>
    change _ = about id _ ++ _
    rw [quiet]
    exact before

theorem inOrder_start (size : Int) : InOrder (Scene.start size : Scene N) :=
  fun _ => rfl

theorem inOrder_run {s s' : Scene N} (ordered : InOrder s) (run : ReflTransGen Turn s s') :
    InOrder s' := by
  induction run with
  | refl => exact ordered
  | tail _ turn ih => exact inOrder_step ih turn

/-- The watchers take their own steps. -/
theorem hub_step {s s' : Scene N} {action : Action N} (step : Step s action s') :
    ReflTransGen Watch.Step s.hub s'.hub := by
  cases step with
  | commit | abort | rotate | rotateFails | finish => exact .refl
  | emit writers unlocked => exact .single (.emit unlocked _)
  | hub step quiet => exact .single step

theorem hub_run {s s' : Scene N} (run : ReflTransGen Turn s s') :
    ReflTransGen Watch.Step s.hub s'.hub := by
  induction run with
  | refl => exact .refl
  | tail _ turn ih =>
    obtain ⟨action, step, -⟩ := turn
    exact ih.trans (hub_step step)

/-! ## What a subscriber receives -/

/-- The buffer of a subscriber has never been full when an event came. -/
def KeptUp (c : Channel (WatchEvent N)) : Prop :=
  c.missed = [] ∧ .overflow ∉ c.sent

def eventsOf (items : List (Item (WatchEvent N))) : List (WatchEvent N) :=
  items.filterMap Item.event?

theorem sent_of_keptUp {c : Channel (WatchEvent N)} {seen : List (WatchEvent N)}
    (sound : c.Sound seen) (keptUp : KeptUp c) : eventsOf c.sent = seen := by
  refine sound.sent.all ?_ keptUp.2
  rcases flag : c.overflowed with - | -
  · rfl
  · exact absurd keptUp.1 (sound.flagged.mp flag)

theorem infix_about {id : Nat} {part whole : List (WatchEvent N)} (inside : part <:+: whole) :
    about id part <:+: about id whole := by
  obtain ⟨front, back, rfl⟩ := inside
  exact ⟨about id front, about id back, by rw [about_append, about_append]⟩

/-- All calls have returned, and nothing is being emitted. -/
def Settled (s : Scene N) : Prop :=
  s.writers = [] ∧ s.hub.emitting = none

section Received

variable {size : Int} {s : Scene N} {sub : Nat} {w : Watcher N}
  (run : ReflTransGen Turn (Scene.start size) s)
include run

theorem bare_of_deleted : ∀ e ∈ s.committed, e.op = .delete → e.data = none := by
  induction run with
  | refl => exact List.forall_mem_nil _
  | tail _ turn ih =>
    obtain ⟨action, step, inTurn⟩ := turn
    cases step with
    | commit write needRotate => exact List.forall_mem_append.mpr ⟨ih, data_of_delete write⟩
    | abort lines =>
      obtain rfl : lines = [] := inTurn
      rw [List.append_nil]
      exact ih
    | rotate | rotateFails | emit | finish | hub => exact ih

variable (found : s.hub.subscriptions.lookup sub = some w) (keptUp : KeptUp w.channel)
include found keptUp

/-- Once everything has been emitted and received, a subscriber has the events of
the last writes of a record. -/
theorem suffix_of_settled (settled : Settled s) (registered : sub ∈ s.hub.watchers)
    (drained : w.channel.ch = []) (id : Nat) :
    about id (eventsOf w.channel.received) <:+ about id s.committed := by
  obtain ⟨before, seen, rest, whole, -, sound, due⟩ :=
    (Watch.kept_run (kept_start size) (hub_run run)).split found
  have sent := sent_of_keptUp sound keptUp
  rw [due registered settled.2, List.append_nil] at whole
  rw [Channel.sent, drained, List.append_nil] at sent
  refine ⟨about id before, ?_⟩
  rw [inOrder_run (inOrder_start size) run id, settled.1, whole, ← sent, about_append]
  exact (List.append_nil _).symm

theorem infix_received (id : Nat) :
    about id (eventsOf w.channel.received) <:+: about id s.committed := by
  obtain ⟨before, seen, rest, whole, -, sound, -⟩ :=
    (Watch.kept_run (kept_start size) (hub_run run)).split found
  have received : eventsOf w.channel.received <:+: s.hub.log := by
    refine ⟨before, eventsOf w.channel.ch ++ rest, ?_⟩
    rw [whole, ← sent_of_keptUp sound keptUp, Channel.sent, eventsOf, eventsOf, eventsOf,
      List.filterMap_append]
    simp only [List.append_assoc]
  rw [inOrder_run (inOrder_start size) run id]
  exact (infix_about received).trans (List.prefix_append _ _).isInfix

end Received

/-- If every event is emitted in turn, a subscriber that keeps up receives the
events of a record in the order in which its writes were committed; once
everything has been emitted and received, the last event is that of the last
write. -/
theorem events_follow_commits (size : Int) (s : Scene N)
    (run : ReflTransGen Turn (Scene.start size) s) (sub : Nat) (w : Watcher N)
    (found : s.hub.subscriptions.lookup sub = some w) (keptUp : KeptUp w.channel) (id : Nat) :
    about id (eventsOf w.channel.received) <:+: about id s.committed ∧
      (Settled s → sub ∈ s.hub.watchers → w.channel.ch = [] →
        about id (eventsOf w.channel.received) ≠ [] →
          (about id (eventsOf w.channel.received)).getLast? = (about id s.committed).getLast?) := by
  refine ⟨infix_received run found keptUp id, fun settled registered drained some' => ?_⟩
  obtain ⟨front, whole⟩ := suffix_of_settled run found keptUp settled registered drained id
  rw [← whole, List.getLast?_append_of_ne_nil _ some']

/-! ## One subscriber and two writes -/

theorem turns_of_emits {hub hub' : Hub N} {event : WatchEvent N} (emits : Emits event hub hub')
    (committed : List (WatchEvent N)) (writers : List (Writer N)) :
    ReflTransGen Turn ⟨committed, writers, hub.beginEmit event⟩
      ⟨committed, writers, hub'⟩ := by
  obtain ⟨run, -⟩ := emits
  induction run with
  | refl => exact .refl
  | tail _ step ih =>
    exact ih.tail ⟨.hub, .hub step.1 (log_of_locked step.1 step.2), trivial⟩

theorem turn_finish (committed : List (WatchEvent N)) (writers : List (Writer N)) (hub : Hub N) :
    Turn ⟨committed, ⟨false, []⟩ :: writers, hub⟩ ⟨committed, writers, hub⟩ :=
  ⟨.finish, @Step.finish _ ⟨committed, ⟨false, []⟩ :: writers, hub⟩ [] writers rfl, trivial⟩

/-- A run in which calls may emit their events out of turn. -/
abbrev Reaches (s s' : Scene N) : Prop :=
  ReflTransGen (fun a b => ∃ action : Action N, Step a action b) s s'

theorem reaches_of_turns {s s' : Scene N} (run : ReflTransGen Turn s s') :
    Reaches s s' :=
  run.lift id fun _ _ turn => turn.imp fun _ step => step.1

section Example

def updated : WatchEvent Int :=
  ⟨.update, 1, none, .zero⟩

def deleted : WatchEvent Int :=
  ⟨.delete, 1, none, .zero⟩

/-- The channel of a subscriber that takes two events. -/
def taken (first second : WatchEvent Int) : Channel (WatchEvent Int) :=
  ⟨[], false, [.event first, .event second], []⟩

theorem keptUp_taken (first second : WatchEvent Int) : KeptUp (taken first second) :=
  ⟨rfl, by simp [taken, Channel.sent]⟩

variable {write : Write Int} {e : WatchEvent Int}

/-- A write and a delete are committed, by two calls. -/
theorem turns_committed (single : write.events = [e]) :
    ∃ hub : Hub Int, Alone 0 Channel.empty [] hub ∧
      ReflTransGen Turn (Scene.start 0)
        ⟨[e, deleted], [⟨false, [e]⟩, ⟨false, [deleted]⟩], hub⟩ := by
  refine ⟨_, alone_subscribed 0, ?_⟩
  refine .head ⟨.hub, .hub .reserve rfl, trivial⟩ ?_
  refine .head ⟨.hub, .hub (.subscribe rfl (Finset.mem_insert_self _ _)) rfl, trivial⟩ ?_
  refine .head ⟨.commit write, .commit _ false, trivial⟩ ?_
  rw [single]
  exact .single ⟨.commit (.delete 1 .zero), .commit _ false, trivial⟩

theorem turns_finish {hub : Hub Int} {first second : WatchEvent Int}
    (alone : Alone 0 (announce 64 second (announce 64 first Channel.empty)) [first, second] hub)
    (committed : List (WatchEvent Int)) :
    ∃ hub', Alone 0 (taken first second) [first, second] hub' ∧
      ReflTransGen Turn ⟨committed, [⟨false, []⟩, ⟨false, []⟩], hub⟩
        ⟨committed, [], hub'⟩ := by
  have channel : (announce 64 second (announce 64 first Channel.empty)).receive.receive =
      taken first second := by
    simp [announce, Channel.flush, Channel.offer, Channel.receive, Channel.empty, taken]
  have done := alone.receive.receive
  rw [channel] at done
  refine ⟨_, done, ?_⟩
  refine .head (turn_finish committed _ hub) (.head (turn_finish committed _ hub) ?_)
  refine .head ⟨.hub, .hub (.receive alone.found) rfl, trivial⟩ ?_
  refine .single ⟨.hub, .hub ?_ rfl, trivial⟩
  rw [← channel]
  exact .receive alone.receive.found

theorem turns_taken (single : write.events = [e]) :
    ∃ hub : Hub Int, Alone 0 (taken e deleted) [e, deleted] hub ∧
      ReflTransGen Turn (Scene.start 0) ⟨[e, deleted], [], hub⟩ := by
  obtain ⟨hub, alone, run⟩ := turns_committed single
  have first := emits_announced alone.unlocked alone.watchers alone.found e
  have second := emits_announced (alone.announced e).unlocked
    (alone.announced e).watchers (alone.announced e).found deleted
  obtain ⟨hub', done, finish⟩ := turns_finish ((alone.announced e).announced deleted)
    [e, deleted]
  refine ⟨hub', done, (run.tail ⟨.emit [] e, @Step.emit _ _ [] _ _ _ rfl alone.unlocked,
    List.forall_mem_nil _⟩).trans ((turns_of_emits first _ _).trans (.trans (.single
      ⟨.emit [⟨false, []⟩] deleted, @Step.emit _ _ [⟨false, []⟩] [] _ _ rfl
        (alone.announced e).unlocked, ?_⟩) ((turns_of_emits second _ _).trans finish)))⟩
  intro writer member other own
  obtain rfl := List.mem_singleton.mp member
  cases own

/-- An update and a delete of one record by two calls that emit in turn. -/
theorem events_follow_commits_updated :
    ∃ (s : Scene Int) (w : Watcher Int), ReflTransGen Turn (Scene.start 0) s ∧
      s.committed = [updated, deleted] ∧ s.hub.subscriptions.lookup 1 = some w ∧
      about 1 (eventsOf w.channel.received) <:+: about 1 s.committed ∧
      (about 1 (eventsOf w.channel.received)).getLast? = some deleted := by
  obtain ⟨hub', done, whole⟩ := @turns_taken (.update 1 none .zero) updated rfl
  have registered : 1 ∈ hub'.watchers := by
    rw [done.watchers]
    exact Finset.mem_singleton_self 1
  obtain ⟨order, last⟩ := events_follow_commits 0 _ whole 1 _ done.found
    (keptUp_taken updated deleted) 1
  exact ⟨_, _, whole, rfl, done.found, order,
    last ⟨rfl, done.unlocked⟩ registered rfl (List.cons_ne_nil _ _)⟩

/-- The call that has deleted a record emits its event before the call that has
updated it: the last event a subscriber receives is the update. -/
theorem update_announced_after_delete :
    ∃ (s : Scene Int) (w : Watcher Int), Reaches (Scene.start 0) s ∧ Settled s ∧
      s.hub.subscriptions.lookup 1 = some w ∧ KeptUp w.channel ∧ w.channel.ch = [] ∧
      s.committed = [updated, deleted] ∧ eventsOf w.channel.received = [deleted, updated] := by
  obtain ⟨hub, alone, run⟩ := @turns_committed (.update 1 none .zero) updated rfl
  have first := emits_announced alone.unlocked alone.watchers alone.found deleted
  have second := emits_announced (alone.announced deleted).unlocked
    (alone.announced deleted).watchers (alone.announced deleted).found updated
  obtain ⟨hub', done, finish⟩ := turns_finish ((alone.announced deleted).announced updated)
    [updated, deleted]
  refine ⟨⟨[updated, deleted], [], hub'⟩, _, ?_, ⟨rfl, done.unlocked⟩, done.found,
    keptUp_taken deleted updated, rfl, rfl, rfl⟩
  refine ((reaches_of_turns run).tail ⟨.emit [⟨false, [updated]⟩] deleted,
    @Step.emit _ _ [⟨false, [updated]⟩] [] _ _ rfl alone.unlocked⟩).trans
      ((reaches_of_turns (turns_of_emits first _ _)).trans (.trans (.single ⟨.emit [] updated,
        @Step.emit _ _ [] [⟨false, []⟩] _ _ rfl (alone.announced deleted).unlocked⟩)
          (reaches_of_turns ((turns_of_emits second _ _).trans finish))))

end Example

end Scriva.Engine.WatchOrder
