import Scriva.Replication.Broker

/-!
# Promoting a follower

A follower keeps two numbers of its leader: the one it has applied and the
highest one it has heard of.  Promotion makes it a leader that goes on numbering
from what it has applied, or from its own counter if that is higher.  What it
has only heard of plays a part in the decision whether to promote, and none in
the numbering.

So a follower that is promoted although it is behind gives out numbers that its
leader had given out before.
-/

namespace Scriva.Replication.Promotion

open Store.Ndjson Broker

variable {N : Type}

/-! ## Nodes -/

inductive Role where
  | leader
  | follower
deriving DecidableEq, Repr

/-- The content of the state file. -/
structure ReplState where
  leaderLSN : Nat
  appliedLSN : Nat
deriving DecidableEq, Repr

structure Node (N : Type) where
  role : Role
  /-- The highest number applied as a follower. -/
  appliedLSN : Nat
  /-- The highest number that the leader is known to hold. -/
  lastLeaderLSN : Nat
  /-- Absent unless replication is enabled. -/
  broker : Option (ReplicationBroker N)
  stored : Option ReplState

namespace Node

def currentLSN (n : Node N) : Nat :=
  (n.broker.map ReplicationBroker.lsn).getD 0

/-- Write the state file.  A write that fails leaves the file as it was. -/
def persistReplState (written : Bool) (n : Node N) : Node N :=
  if written then { n with stored := some ⟨n.currentLSN, n.appliedLSN⟩ } else n

def noteLeaderLSN (lsn : Nat) (n : Node N) : Node N :=
  if lsn ≤ n.lastLeaderLSN then n else { n with lastLeaderLSN := lsn }

def setAppliedLSN (lsn : Nat) (written : Bool) (n : Node N) : Node N :=
  if lsn ≤ n.appliedLSN then n else persistReplState written { n with appliedLSN := lsn }

def replicationLag (n : Node N) : Nat :=
  if n.appliedLSN < n.lastLeaderLSN then n.lastLeaderLSN - n.appliedLSN else 0

end Node

inductive PromoteError where
  | notFollower
  | replicaLagExceeded (applied leader lag threshold : Nat)
deriving DecidableEq, Repr

structure PromoteResult where
  role : Role
  lsn : Nat
  lag : Nat
deriving DecidableEq, Repr

/-- The node as a leader that numbers from what was applied. -/
def Node.asLeader (n : Node N) : Node N :=
  { n with role := .leader, broker := n.broker.map fun b => b.setLSN n.appliedLSN }

def promote (maxLag : Nat) (force written : Bool) (n : Node N) :
    Except PromoteError PromoteResult × Node N :=
  if n.role ≠ .follower then (.error .notFollower, n)
  else if !force && maxLag < n.replicationLag then
    (.error (.replicaLagExceeded n.appliedLSN n.lastLeaderLSN n.replicationLag maxLag), n)
  else
    (.ok ⟨.leader, max n.appliedLSN n.asLeader.currentLSN, n.replicationLag⟩,
      n.asLeader.persistReplState written)

/-! ## What happens to a node -/

inductive Event (N : Type) where
  /-- A write is committed. -/
  | publish (collection : String) (entry : Entry N)
  | subscribe (fromLSN : Nat)
  | unsubscribe (id : Nat)
  | noteLeader (lsn : Nat)
  | apply (lsn : Nat) (written : Bool)
  | promote (maxLag : Nat) (force written : Bool)
  | close (written : Bool)
  /-- The process ends, with or without a close before, and is started again with
  replication on or off as it was. -/
  | restart (ringSize : Nat) (role : Role)

def Event.isRestart : Event N → Bool
  | .restart _ _ => true
  | _ => false

/-- The numbers that a leader restores when it is started. -/
def Node.restart (ringSize : Nat) (role : Role) (n : Node N) : Node N where
  role := role
  appliedLSN := (n.stored.map ReplState.appliedLSN).getD 0
  lastLeaderLSN := 0
  broker := n.broker.map fun _ =>
    (ReplicationBroker.new (ringSize + 1) 0).setLSN
      ((n.stored.map ReplState.leaderLSN).getD 0)
  stored := n.stored

/-- A follower takes no writes of its own, and nothing is numbered without a
broker. -/
def Node.publish (collection : String) (entry : Entry N) (n : Node N) : List Nat × Node N :=
  match n.role, n.broker with
  | .leader, some b =>
    ([(b.record collection entry).2.lsn], { n with broker := some (b.record collection entry).1 })
  | _, _ => ([], n)

/-- The number assigned in an event, if any, and the node after it. -/
def Node.handle (n : Node N) : Event N → List Nat × Node N
  | .publish collection entry => n.publish collection entry
  | .subscribe fromLSN =>
    ([], { n with broker := n.broker.map fun b =>
      ((b.subscribe fromLSN).map Prod.fst).getD b })
  | .unsubscribe id => ([], { n with broker := n.broker.map fun b => b.unsubscribe id })
  | .noteLeader lsn => ([], n.noteLeaderLSN lsn)
  | .apply lsn written => ([], n.setAppliedLSN lsn written)
  | .promote maxLag force written => ([], (promote maxLag force written n).2)
  | .close written =>
    ([], if n.broker.isSome || 0 < n.appliedLSN then n.persistReplState written else n)
  | .restart ringSize role => ([], n.restart ringSize role)

/-- The numbers assigned in a run. -/
def Node.assigned (n : Node N) : List (Event N) → List Nat
  | [] => []
  | event :: events => (n.handle event).1 ++ (n.handle event).2.assigned events

/-- The highest number that the leader of a follower is known to have assigned. -/
def Node.knownLSN (n : Node N) : Nat :=
  max n.appliedLSN n.lastLeaderLSN

/-! ## Numbers after a promotion -/

/-- The counter of a node is not below a number, and neither is the one it would
restore, if it can be started again. -/
structure Above (bound : Nat) (restarts : Bool) (n : Node N) : Prop where
  counter : ∀ b ∈ n.broker, bound ≤ b.lsn
  noted : restarts → n.broker.isSome → ∃ state ∈ n.stored, bound ≤ state.leaderLSN

section Above

variable {bound : Nat} {restarts : Bool} {n : Node N}

@[simp]
theorem lsn_setLSN (b : ReplicationBroker N) (lsn : Nat) : (b.setLSN lsn).lsn = max b.lsn lsn := by
  rw [ReplicationBroker.setLSN]
  split_ifs with below
  · exact (max_eq_right below.le).symm
  · exact (max_eq_left (not_lt.mp below)).symm

theorem lsn_subscribe {b after : ReplicationBroker N} {fromLSN : Nat} {rest : Nat × ReplSub N}
    (subscribed : b.subscribe fromLSN = some (after, rest)) : after.lsn = b.lsn := by
  rw [ReplicationBroker.subscribe] at subscribed
  split_ifs at subscribed
  cases subscribed
  rfl

/-- Changing what is neither the counter nor in the state file. -/
theorem Above.of_eq (above : Above bound restarts n) {after : Node N}
    (broker : after.broker = n.broker) (stored : after.stored = n.stored) :
    Above bound restarts after where
  counter := by
    rw [broker]
    exact above.counter
  noted := by
    rw [broker, stored]
    exact above.noted

/-- A broker that numbers from at least where the old one did. -/
theorem Above.raise (above : Above bound restarts n)
    {change : ReplicationBroker N → ReplicationBroker N} (grows : ∀ b, b.lsn ≤ (change b).lsn) :
    Above bound restarts { n with broker := n.broker.map change } where
  counter := by
    intro b member
    obtain ⟨old, there, rfl⟩ := Option.map_eq_some_iff.mp member
    exact (above.counter old there).trans (grows old)
  noted := by
    intro may present
    rw [Option.isSome_map] at present
    exact above.noted may present

theorem Above.persist (above : Above bound restarts n) (written : Bool) :
    Above bound restarts (n.persistReplState written) := by
  rw [Node.persistReplState]
  split_ifs
  · refine ⟨above.counter, fun _ present => ⟨_, rfl, ?_⟩⟩
    obtain ⟨b, there⟩ := Option.isSome_iff_exists.mp present
    have here : n.broker = some b := there
    rw [Node.currentLSN, here]
    exact above.counter b here
  · exact above

theorem Above.asLeader (above : Above bound restarts n) : Above bound restarts n.asLeader := by
  have grows (b : ReplicationBroker N) : b.lsn ≤ (b.setLSN n.appliedLSN).lsn := by simp
  exact (above.raise grows).of_eq rfl rfl

/-- Every event keeps the counter above a number that it is above of, and assigns
only higher ones. -/
theorem Above.handle (above : Above bound restarts n) {event : Event N}
    (allowed : event.isRestart → restarts) :
    (∀ lsn ∈ (n.handle event).1, bound < lsn) ∧ Above bound restarts (n.handle event).2 := by
  have silent {after : Node N} (kept : Above bound restarts after) :
      (∀ lsn ∈ ([] : List Nat), bound < lsn) ∧ Above bound restarts after := by
    refine ⟨?_, kept⟩
    intro lsn member
    cases member
  cases event with
  | publish collection entry =>
    rw [Node.handle, Node.publish]
    split
    · rename_i b _ there
      have below := above.counter b there
      refine ⟨?_, ?_, ?_⟩
      · intro lsn member
        rw [List.mem_singleton.mp member]
        exact Nat.lt_succ_of_le below
      · rintro after ⟨⟩
        exact below.trans (Nat.le_succ _)
      · intro may _
        exact above.noted may (by rw [there]; rfl)
    · exact silent above
  | subscribe fromLSN =>
    refine silent (above.raise ?_)
    intro b
    rcases subscribed : b.subscribe fromLSN with - | ⟨after, rest⟩
    · exact le_rfl
    · exact (lsn_subscribe subscribed).ge
  | unsubscribe id => exact silent (above.raise fun _ => le_rfl)
  | noteLeader lsn =>
    rw [Node.handle, Node.noteLeaderLSN]
    split_ifs
    · exact silent above
    · exact silent (above.of_eq rfl rfl)
  | apply lsn written =>
    rw [Node.handle, Node.setAppliedLSN]
    split_ifs
    · exact silent above
    · have applied : Above bound restarts { n with appliedLSN := lsn } := above.of_eq rfl rfl
      exact silent (applied.persist written)
  | promote maxLag force written =>
    rw [Node.handle, promote]
    split_ifs
    · exact silent above
    · exact silent above
    · exact silent (above.asLeader.persist written)
  | close written =>
    rw [Node.handle]
    split_ifs
    · exact silent (above.persist written)
    · exact silent above
  | restart ringSize role =>
    have may := allowed rfl
    refine silent ⟨?_, ?_⟩
    · intro b member
      obtain ⟨old, there, rfl⟩ := Option.map_eq_some_iff.mp member
      obtain ⟨state, noted, below⟩ := above.noted may (by rw [there]; rfl)
      have restored : (n.stored.map ReplState.leaderLSN).getD 0 = state.leaderLSN := by
        rw [noted]
        rfl
      rw [lsn_setLSN, restored]
      exact below.trans (le_max_right _ _)
    · intro _ present
      refine above.noted may ?_
      rwa [Node.handle, Node.restart, Option.isSome_map] at present

/-- All numbers of a run are above one that the counter is above of. -/
theorem Above.assigned (above : Above bound restarts n) {events : List (Event N)}
    (allowed : ∀ event ∈ events, event.isRestart → restarts) :
    ∀ lsn ∈ n.assigned events, bound < lsn := by
  induction events generalizing n with
  | nil => exact nofun
  | cons event events ih =>
    obtain ⟨fresh, kept⟩ := above.handle (allowed event (.head _))
    intro lsn member
    rw [Node.assigned, List.mem_append] at member
    rcases member with here | later
    · exact fresh lsn here
    · exact ih kept (fun other inside => allowed other (.tail _ inside))
        lsn later

end Above

theorem asLeader_publish {n : Node N} {b : ReplicationBroker N} (numbers : n.broker = some b)
    (written : Bool) (collection : String) (entry : Entry N) :
    (n.asLeader.persistReplState written).assigned [.publish collection entry] =
      [max b.lsn n.appliedLSN + 1] := by
  have broker : (n.asLeader.persistReplState written).broker = some (b.setLSN n.appliedLSN) := by
    rw [Node.persistReplState]
    split_ifs
    · rw [Node.asLeader, numbers]
      rfl
    · rw [Node.asLeader, numbers]
      rfl
  have role : (n.asLeader.persistReplState written).role = .leader := by
    rw [Node.persistReplState]
    split_ifs
    · rfl
    · rfl
  simp only [Node.assigned, Node.handle, Node.publish, broker, role, List.append_nil,
    ReplicationBroker.record, lsn_setLSN]

/-- A promotion that is refused changes nothing.  After one that succeeds every
number assigned is above all that the old leader is known to have assigned
exactly if the new leader assigns none, or one of its own counters had reached
them.  (The node is started again only if the state file could be written.) -/
theorem promote_fresh_iff (maxLag : Nat) (force written : Bool) (n : Node N) :
    match promote maxLag force written n with
    | (.error _, after) => after = n
    | (.ok _, after) =>
      (∀ events : List (Event N), (∀ event ∈ events, event.isRestart → written) →
          ∀ lsn ∈ after.assigned events, n.knownLSN < lsn) ↔
        n.broker = none ∨ n.knownLSN ≤ max n.appliedLSN n.currentLSN := by
  rw [promote]
  split_ifs
  · rfl
  · rfl
  constructor
  · intro fresh
    rcases numbers : n.broker with - | b
    · exact .inl rfl
    · refine .inr ?_
      have first := asLeader_publish numbers written "" Entry.zero
      have above := fresh [.publish "" Entry.zero]
        (fun event member may => by
          rw [List.mem_singleton.mp member] at may
          cases may)
        (max b.lsn n.appliedLSN + 1) (by rw [first]; exact List.mem_singleton_self _)
      have counter : n.currentLSN = b.lsn := by
        rw [Node.currentLSN, numbers]
        rfl
      rw [counter, max_comm]
      exact Nat.le_of_lt_succ above
  · intro condition events allowed
    have leads : Above n.knownLSN false n.asLeader := by
      refine ⟨?_, nofun⟩
      intro b member
      obtain ⟨old, there, rfl⟩ := Option.map_eq_some_iff.mp member
      rcases condition with none | reached
      · rw [none] at there
        cases there
      · have counter : n.currentLSN = old.lsn := by
          rw [Node.currentLSN, there]
          rfl
        rw [lsn_setLSN, max_comm, ← counter]
        exact reached
    have above : Above n.knownLSN written (n.asLeader.persistReplState written) := by
      cases written with
      | false => exact leads
      | true =>
        refine ⟨leads.counter, fun _ present => ⟨_, rfl, ?_⟩⟩
        obtain ⟨b, there⟩ := Option.isSome_iff_exists.mp present
        have here : n.asLeader.broker = some b := there
        rw [Node.currentLSN, here]
        exact leads.counter b here
    exact above.assigned allowed

/-! ## A follower that is behind -/

/-- A follower that has applied five of the nine numbers it has heard of. -/
def behind : Node Int where
  role := .follower
  appliedLSN := 5
  lastLeaderLSN := 9
  broker := some (.new 4 0)
  stored := some ⟨0, 5⟩

/-- Promoted by force, it numbers its first write as the leader had numbered
another one. -/
theorem promote_reissues :
    (promote 0 true true behind).1 = .ok ⟨.leader, 5, 4⟩ ∧
      (promote 0 true true behind).2.assigned [.publish "c" Entry.zero] = [6] ∧
      6 ≤ behind.lastLeaderLSN := by
  refine ⟨rfl, rfl, ?_⟩
  decide

/-- One that has caught up is promoted without force. -/
theorem promote_fresh_caughtUp :
    ∀ lsn ∈ (promote 0 false true { behind with appliedLSN := 9 }).2.assigned
        [.publish "c" Entry.zero, .restart 3 .leader, .publish "c" Entry.zero], 9 < lsn := by
  have condition : ({ behind with appliedLSN := 9 } : Node Int).knownLSN ≤
      max 9 ({ behind with appliedLSN := 9 } : Node Int).currentLSN := by decide
  exact (promote_fresh_iff 0 false true { behind with appliedLSN := 9 }).mpr
    (.inr condition) _ fun _ _ _ => rfl

end Scriva.Replication.Promotion
