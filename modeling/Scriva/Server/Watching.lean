import Scriva.Engine.WatchOrder
import Scriva.Engine.Sequential
import Scriva.Query.Filter

/-!
# Filtered watches

The server takes the events of a subscription one by one, evaluates the filter of
the request on the data of the event, and sends those that pass.  The event of a
removal has no data.  So a client that has been shown a record learns of its
removal exactly if its filter accepts a record without fields.
-/

namespace Scriva.Server.Watching

open Lib.Overflow Store.Record Store.Rfc3339 Store.Ndjson Engine.Watch Engine.WatchOrder
open Query (Filter NumberOrder Regexp)
open Engine.Collection (keyOf)
open Engine.Sequential (oneField)

variable {N : Type} [JsonNumber N] [NumberOrder N]

inductive WatchOp where
  | unspecified
  | inserted
  | updated
  | deleted

inductive Message (N : Type) where
  | overflow
  | event (op : WatchOp) (id : Nat) (key : String) (data : Option (Data N)) (ts : Timestamp)

def watchOp : Op → WatchOp
  | .insert => .inserted
  | .update => .updated
  | .delete => .deleted
  | .other _ _ => .unspecified

/-- What is sent for an item of the channel.  An overflow passes every filter. -/
def watch (regexp : Regexp) (f : Filter) : Item (WatchEvent N) → Option (Message N)
  | .overflow => some .overflow
  | .event e =>
    if f.matchData regexp e.data then
      some (.event (watchOp e.op) e.id (keyOf e.data) e.data e.ts)
    else none

/-- What a message says of a record. -/
def Message.about? (id : Nat) : Message N → Option WatchOp
  | .overflow => none
  | .event op id' _ _ _ => if id' = id then some op else none

/-- What a client has been told of a record, after the items of the channel. -/
def told (regexp : Regexp) (f : Filter) (id : Nat) (items : List (Item (WatchEvent N))) :
    List WatchOp :=
  (items.filterMap (watch regexp f)).filterMap (Message.about? id)

variable {regexp : Regexp} {f : Filter} {id : Nat}

/-- A client is told of the events that pass its filter. -/
theorem told_eq (items : List (Item (WatchEvent N))) :
    told regexp f id items = ((about id (eventsOf items)).filter fun e =>
      f.matchData regexp e.data).map fun e => watchOp e.op := by
  induction items with
  | nil => rfl
  | cons item items ih =>
    rw [told] at ih
    rcases item with e | -
    · simp only [told, watch, eventsOf, about, Item.event?, List.filterMap_cons] at ih ⊢
      by_cases passed : f.matchData regexp e.data <;> by_cases here : e.id = id <;>
        simp [passed, here, ih, Message.about?]
    · exact ih

/-- If every event is emitted in turn, a client that keeps up and has been shown
the last write of a record before its removal is told of the removal exactly if
its filter accepts a record without fields. -/
theorem removal_told_iff (regexp : Regexp) (f : Filter) (size : Int) (s : Scene N)
    (run : Relation.ReflTransGen Turn (Scene.start size) s) (settled : Settled s) (sub : Nat)
    (w : Watcher N) (found : s.hub.subscriptions.lookup sub = some w)
    (registered : sub ∈ s.hub.watchers) (keptUp : KeptUp w.channel) (drained : w.channel.ch = [])
    (id : Nat) (before : List (WatchEvent N)) (e gone : WatchEvent N)
    (commits : about id s.committed = before ++ [e, gone])
    (written : e.op = .insert ∨ e.op = .update) (removes : gone.op = .delete)
    (received : e ∈ eventsOf w.channel.received) (matched : f.matchData regexp e.data = true) :
    (told regexp f id w.channel.received).getLast? = some .deleted ↔
      f.matchData regexp (none : Option (Data N)) = true := by
  have inside : ∀ other ∈ [e, gone], other ∈ about id s.committed := by
    rw [commits]
    exact fun other member => List.mem_append_right before member
  have bare : gone.data = none :=
    bare_of_deleted run gone (List.mem_of_mem_filter (inside gone (by simp))) removes
  have here : e ∈ about id (eventsOf w.channel.received) :=
    List.mem_filter.mpr ⟨received, (List.mem_filter.mp (inside e (.head _))).2⟩
  -- the last two events that the client has received are those of the write and the removal
  obtain ⟨front, split⟩ : [e, gone] <:+ about id (eventsOf w.channel.received) := by
    have ends := suffix_of_settled run found keptUp settled registered drained id
    rw [commits] at ends
    rcases List.suffix_or_suffix_of_suffix (List.suffix_append before [e, gone]) ends with
      whole | part
    · exact whole
    · rcases List.suffix_cons_iff.mp part with same | short
      · rw [same]
      · have same := List.mem_singleton.mp (short.subset here)
        rw [same, removes] at written
        rcases written with ⟨⟨⟩⟩ | ⟨⟨⟩⟩
  rw [told_eq, ← split, List.filter_append]
  by_cases accepts : f.matchData regexp (none : Option (Data N)) = true
  · simp [matched, bare, accepts, removes, watchOp]
  · rcases written with op | op
    · simp [matched, bare, accepts, op, watchOp]
    · simp [matched, bare, accepts, op, watchOp]

/-! ## One record -/

def five : Option (Data Int) :=
  some (oneField "n" 5)

def inserted : WatchEvent Int :=
  ⟨.insert, 1, five, .zero⟩

/-- A watch of everything is told of the removal. -/
theorem removal_told_matchAll :
    ∃ (s : Scene Int) (w : Watcher Int), Relation.ReflTransGen Turn (Scene.start 0) s ∧
      s.hub.subscriptions.lookup 1 = some w ∧
      (told (fun _ => none) .matchAll 1 w.channel.received).getLast? = some .deleted := by
  obtain ⟨hub, done, run⟩ := @turns_taken (.insert 1 five .zero) inserted rfl
  have registered : 1 ∈ hub.watchers := by
    rw [done.watchers]
    exact Finset.mem_singleton_self 1
  exact ⟨_, _, run, done.found, (removal_told_iff (fun _ => none) .matchAll 0 _ run
    ⟨rfl, done.unlocked⟩ 1 _ done.found registered (keptUp_taken inserted deleted) rfl 1 []
    inserted deleted rfl (.inl rfl) rfl (.head _) rfl).mpr rfl⟩

/-- A watch of the records with a field equal to five is shown such a record and
is never told that it has been deleted. -/
theorem removal_not_told :
    ∃ (s : Scene Int) (w : Watcher Int), Relation.ReflTransGen Turn (Scene.start 0) s ∧
      Settled s ∧ s.hub.subscriptions.lookup 1 = some w ∧ 1 ∈ s.hub.watchers ∧
      KeptUp w.channel ∧ w.channel.ch = [] ∧ s.committed = [inserted, deleted] ∧
      told (fun _ => none) (.field ⟨"n", .eq, "5"⟩) 1 w.channel.received = [.inserted] := by
  obtain ⟨hub, done, run⟩ := @turns_taken (.insert 1 five .zero) inserted rfl
  refine ⟨_, _, run, ⟨rfl, done.unlocked⟩, done.found, ?_, keptUp_taken inserted deleted, rfl,
    rfl, ?_⟩
  · rw [done.watchers]
    exact Finset.mem_singleton_self 1
  · have passed : Query.Filter.matchData (fun _ => none) inserted.data (.field ⟨"n", .eq, "5"⟩) = true := by
      decide +kernel
    rw [told_eq]
    change (List.filter _ [inserted, deleted]).map _ = _
    rw [List.filter_cons_of_pos (by exact passed)]
    rfl

end Scriva.Server.Watching
