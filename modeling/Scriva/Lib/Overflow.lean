import Mathlib.Data.List.Chain

/-!
# Channels that report an overflow

A channel of limited size whose sender never waits.  What does not fit is
dropped and a flag is set; before anything is sent again, a sentinel takes the
place of what was dropped and clears the flag.

The taken items and the missed ones are kept beside the channel: no operation
depends on them.
-/

namespace Scriva.Lib.Overflow

variable {E : Type}

inductive Item (E : Type) where
  | event (e : E)
  | overflow
deriving DecidableEq, Repr

/-- The event of an item, if it has one. -/
def Item.event? : Item E → Option E
  | .event e => some e
  | .overflow => none

structure Channel (E : Type) where
  ch : List (Item E)
  overflowed : Bool
  /-- What was taken from the channel. -/
  received : List (Item E)
  /-- What was dropped since the last item was sent. -/
  missed : List E

namespace Channel

def empty : Channel E :=
  ⟨[], false, [], []⟩

/-- All that was sent. -/
def sent (c : Channel E) : List (Item E) :=
  c.received ++ c.ch

/-- Send the sentinel if the flag is set; nothing if there is no room for it. -/
def flush (size : Nat) (c : Channel E) : Option (Channel E) :=
  if c.overflowed then
    if c.ch.length < size then
      some { c with ch := c.ch ++ [.overflow], overflowed := false, missed := [] }
    else none
  else some c

/-- An event that is not even offered. -/
def skip (e : E) (c : Channel E) : Channel E :=
  { c with missed := c.missed ++ [e] }

/-- Send an event, or drop it and set the flag. -/
def offer (size : Nat) (e : E) (c : Channel E) : Channel E :=
  if c.ch.length < size then { c with ch := c.ch ++ [.event e] }
  else { c with overflowed := true, missed := c.missed ++ [e] }

/-- Take the first item, if there is one. -/
def receive (c : Channel E) : Channel E :=
  match c.ch with
  | [] => c
  | item :: ch => { c with ch, received := c.received ++ [item] }

theorem sent_receive (c : Channel E) : c.receive.sent = c.sent := by
  unfold receive
  split
  · rfl
  · rename_i item ch shape
    simp [sent, shape]

theorem overflowed_receive (c : Channel E) : c.receive.overflowed = c.overflowed := by
  unfold receive
  split
  · rfl
  · rfl

theorem missed_receive (c : Channel E) : c.receive.missed = c.missed := by
  unfold receive
  split
  · rfl
  · rfl

theorem length_receive (c : Channel E) : c.receive.ch.length ≤ c.ch.length := by
  unfold receive
  split
  · exact le_rfl
  · rename_i item ch shape
    rw [shape]
    exact Nat.le_succ _

end Channel

/-! ## What a sender may send -/

/-- Items that report some events, and whether an event was dropped since the
last item: an event is sent only if none was, and a sentinel only if one was. -/
inductive Sent : List E → List (Item E) → Bool → Prop where
  | start : Sent [] [] false
  | event {emitted : List E} {items : List (Item E)} (before : Sent emitted items false) (e : E) :
      Sent (emitted ++ [e]) (items ++ [.event e]) false
  | drop {emitted : List E} {items : List (Item E)} {dropped : Bool}
      (before : Sent emitted items dropped) (e : E) : Sent (emitted ++ [e]) items true
  | sentinel {emitted : List E} {items : List (Item E)} (before : Sent emitted items true) :
      Sent emitted (items ++ [.overflow]) false

variable {items : List (Item E)} {dropped : Bool} {place : Nat} {item : Item E}
  {told : List (Nat × Item E)}

/-- The events that were sent are some of those there were, in their order. -/
theorem Sent.sublist {emitted : List E} (sent : Sent emitted items dropped) :
    (items.filterMap Item.event?).Sublist emitted := by
  induction sent with
  | start => exact .slnil
  | event before e ih =>
    rw [List.filterMap_append]
    exact ih.append (List.Sublist.refl [e])
  | drop before e ih => exact ih.trans (List.sublist_append_left _ _)
  | sentinel before ih =>
    rw [List.filterMap_append]
    exact (List.append_nil _).symm ▸ ih

/-- Without a sentinel and with nothing dropped at the end, every event was sent. -/
theorem Sent.all {emitted : List E} (sent : Sent emitted items dropped) (none : dropped = false)
    (clean : .overflow ∉ items) : items.filterMap Item.event? = emitted := by
  induction sent with
  | start => rfl
  | event before e ih =>
    rw [List.filterMap_append, ih rfl fun inside => clean (List.mem_append_left _ inside)]
    rfl
  | drop => cases none
  | sentinel => exact absurd (List.mem_append_right _ (List.mem_singleton_self _)) clean

/-- An item stands for the event at a place: it is that event, or the sentinel in
place of it. -/
def StandsFor (emitted : List E) (place : Nat) : Item E → Prop
  | .event e => emitted[place]? = some e
  | .overflow => place < emitted.length

/-- Two items in a row are of neighbouring places, unless one is a sentinel. -/
def Adjoins : Nat × Item E → Nat × Item E → Prop
  | (i, .event _), (j, .event _) => j = i + 1
  | _, _ => True

/-- Items in the order of the events they stand for, each for another one, with a
sentinel in every gap. -/
structure Accounts (emitted : List E) (told : List (Nat × Item E)) : Prop where
  standsFor : ∀ item ∈ told, StandsFor emitted item.1 item.2
  ordered : told.Pairwise fun a b => a.1 < b.1
  gapless : told.IsChain Adjoins

theorem StandsFor.append {emitted : List E} (stands : StandsFor emitted place item)
    (later : List E) : StandsFor (emitted ++ later) place item := by
  cases item with
  | event e =>
    change (emitted ++ later)[place]? = some e
    have found : emitted[place]? = some e := stands
    obtain ⟨short, -⟩ := List.getElem?_eq_some_iff.mp found
    rw [List.getElem?_append_left short]
    exact found
  | overflow =>
    change place < (emitted ++ later).length
    rw [List.length_append]
    exact Nat.lt_add_right _ stands

theorem StandsFor.lt_length {emitted : List E} (stands : StandsFor emitted place item) :
    place < emitted.length := by
  cases item with
  | event e => exact (List.getElem?_eq_some_iff.mp stands).1
  | overflow => exact stands

theorem Accounts.append {emitted : List E} (accounts : Accounts emitted told) (later : List E) :
    Accounts (emitted ++ later) told :=
  ⟨fun item member => (accounts.standsFor item member).append later, accounts.ordered,
    accounts.gapless⟩

/-- One more item, for a later place. -/
theorem Accounts.snoc {emitted : List E} (accounts : Accounts emitted told)
    (stands : StandsFor emitted place item) (later : ∀ old ∈ told, old.1 < place)
    (adjoins : ∀ last ∈ told.getLast?, Adjoins last (place, item)) :
    Accounts emitted (told ++ [(place, item)]) where
  standsFor other member := by
    rcases List.mem_append.mp member with old | new
    · exact accounts.standsFor other old
    · obtain rfl := List.mem_singleton.mp new
      exact stands
  ordered := by
    refine List.pairwise_append.mpr ⟨accounts.ordered, List.pairwise_singleton _ _, ?_⟩
    intro old member new last
    obtain rfl := List.mem_singleton.mp last
    exact later old member
  gapless := by
    refine List.isChain_append.mpr ⟨accounts.gapless, List.isChain_singleton _, ?_⟩
    intro last found new first
    obtain rfl := Option.mem_some_iff.mp first
    exact adjoins last found

/-- What was sent accounts for every event: each item stands for a place of its
own, and events that follow each other without a sentinel are neighbours. -/
theorem Sent.accounts {emitted : List E} (sent : Sent emitted items dropped) :
    ∃ told : List (Nat × Item E), told.map Prod.snd = items ∧ Accounts emitted told ∧
      (dropped = true → ∃ place < emitted.length, ∀ old ∈ told, old.1 < place) ∧
      (dropped = false → ∀ i e, told.getLast? = some (i, .event e) → i + 1 = emitted.length) := by
  induction sent with
  | start =>
    refine ⟨[], rfl, ⟨List.forall_mem_nil _, .nil, .nil⟩, nofun, ?_⟩
    intro _ i e absurd
    cases absurd
  | event before e ih =>
    rename_i emitted items
    obtain ⟨told, rfl, accounts, -, next⟩ := ih
    refine ⟨told ++ [(emitted.length, .event e)], by simp, ?_, nofun, ?_⟩
    · refine (accounts.append [e]).snoc ?_ ?_ ?_
      · change (emitted ++ [e])[emitted.length]? = some e
        simp
      · exact fun old member => (accounts.standsFor old member).lt_length
      · rintro ⟨i, f | -⟩ found
        · exact (next rfl _ _ found).symm
        · trivial
    · intro _ i f found
      rw [List.getLast?_concat, Option.some.injEq, Prod.mk.injEq] at found
      rw [← found.1, List.length_append, List.length_singleton]
  | drop before e ih =>
    rename_i emitted items dropped
    obtain ⟨told, rfl, accounts, -, -⟩ := ih
    refine ⟨told, rfl, accounts.append [e], fun _ => ⟨emitted.length, ?_, ?_⟩,
      nofun⟩
    · simp
    · exact fun old member => (accounts.standsFor old member).lt_length
  | sentinel before ih =>
    rename_i emitted items
    obtain ⟨told, rfl, accounts, gap, -⟩ := ih
    obtain ⟨place, short, later⟩ := gap rfl
    have stands : StandsFor emitted place .overflow := short
    refine ⟨told ++ [(place, .overflow)], by simp, accounts.snoc stands later ?_,
      nofun, ?_⟩
    · rintro ⟨i, f | -⟩ -
      · trivial
      · trivial
    · intro _ i e found
      rw [List.getLast?_concat] at found
      cases found

/-! ## Channels send what they may -/

/-- A channel after some events: it has sent what it may, and its flag tells
whether something was missed. -/
structure Channel.Sound (emitted : List E) (c : Channel E) : Prop where
  sent : Sent emitted c.sent c.overflowed
  flagged : c.overflowed = true ↔ c.missed ≠ []

namespace Channel.Sound

variable {emitted : List E} {c c' : Channel E} {size : Nat}

theorem empty : Sound [] (Channel.empty : Channel E) :=
  ⟨.start, by simp [Channel.empty]⟩

theorem receive (sound : Sound emitted c) : Sound emitted c.receive where
  sent := by
    rw [sent_receive, overflowed_receive]
    exact sound.sent
  flagged := by
    rw [overflowed_receive, missed_receive]
    exact sound.flagged

/-- After a flush the flag is not set. -/
theorem flush (sound : Sound emitted c) (flushed : c.flush size = some c') :
    Sound emitted c' ∧ c'.overflowed = false := by
  rw [Channel.flush] at flushed
  split_ifs at flushed with set room
  · obtain rfl := Option.some.inj flushed
    refine ⟨⟨?_, by simp⟩, rfl⟩
    have before := sound.sent
    rw [set] at before
    have after := before.sentinel
    rwa [Channel.sent, List.append_assoc] at after
  · obtain rfl := Option.some.inj flushed
    exact ⟨sound, by simpa using set⟩

theorem skip (sound : Sound emitted c) (full : c.flush size = none) (e : E) :
    Sound (emitted ++ [e]) (c.skip e) := by
  rw [Channel.flush] at full
  split_ifs at full with set room
  refine ⟨?_, ?_⟩
  · have after := sound.sent.drop e
    rwa [← set] at after
  · simp [Channel.skip, set]

theorem offer (sound : Sound emitted c) (clear : c.overflowed = false) (e : E) :
    Sound (emitted ++ [e]) (c.offer size e) := by
  have before := sound.sent
  rw [clear] at before
  rw [Channel.offer]
  split_ifs with room
  · refine ⟨?_, sound.flagged⟩
    have after := before.event e
    rw [Channel.sent, List.append_assoc] at after
    rwa [clear]
  · exact ⟨before.drop e, by simp⟩

end Channel.Sound

end Scriva.Lib.Overflow
