import Scriva.Engine.Sequential
import Scriva.Server.Snapshot

/-!
# Keys that are restricted to some collections

A key may have a list of the collections that it is for.  The interceptor looks
for the target of a request through one accessor of its message, `GetCollection`,
and lets a message without that accessor pass.  The handlers reach a collection
by the name in the message, by the transaction that the message names, or, for
an archive and for the feed of entries, without a name.  A stream of the feed
stays open and is sent what is committed later, and the numbers of the entries
count those of all collections.  The name of a collection is a path below the data
directory, so that the files of one may be within the directory of another.
-/

namespace Scriva.Server.Confinement

open Store.Record Store.Ndjson Engine.Directory Engine.Collection
open Snapshot (Path join)

variable {N α ν : Type}

/-! ## The server -/

/-- What the handlers run on. -/
structure Setup (N : Type) where
  dataDir : List Char
  /-- The number of entries that are kept for followers. -/
  ring : Nat
  /-- The collection of a name and a default lifetime, opened on the files of its
  directory, and these files; it may have been opened although an error is returned. -/
  createCollection : String → Int → Disk → Except Error Unit × Option (World N) × Disk

/-- The directory of a collection. -/
def Setup.dir (db : Setup N) (name : String) : Path :=
  join db.dataDir ⟨false, name.toList.splitOn '/'⟩

structure Tx (N : Type) where
  collection : String
  ops : List (TxOp N)

structure GRPCServer (N ν : Type) where
  /-- The collections; their files are those of their directories. -/
  collections : String → Option (World N)
  files : Path → Disk
  txs : String → Option (Tx N)
  /-- The committed entries of all collections, in the order of their numbers. -/
  feed : List (String × Entry N)
  /-- The role of the node, its watermarks and its followers. -/
  node : ν
  /-- The key has an open stream of the feed. -/
  tailing : Bool

/-- Requests, by what their handlers do.  A method on a collection is one of
Insert, InsertMany, FindById, Find, Update, Delete, Upsert, FindByKey,
UpdateByKey, DeleteByKey, UpdateIfRev, EnsureIndex, DropIndex, ListIndexes, Watch,
Aggregate, CollectionStats and Compact; a request of the node is
ReplicationStatus or Promote. -/
inductive Rpc (N α ν : Type) where
  | createCollection (name : String) (defaultTTLSeconds : Int)
  | dropCollection (name : String)
  | listCollections
  | onCollection (collection : String) (method : World N → α × World N)
  /-- An Insert, Update or Delete that names a transaction; an insert takes an
  id. -/
  | stage (collection txID : String) (reserve : Bool) (op : Nat → TxOp N)
  | beginTx (collection newTxID : String)
  | commitTx (env : Env) (txID : String)
  | rollbackTx (txID : String)
  | snapshot
  | replicate (fromLSN : Nat) (subscribe : ν → ν)
  | onNode (answer : Nat → ν → α × ν)

/-- Entries with their numbers. -/
abbrev Numbered (N : Type) := List ((String × Entry N) × Nat)

inductive Response (N α : Type) where
  | permissionDenied
  | invalidArgument
  | notFound
  | alreadyExists
  | failedPrecondition
  | failed (error : Error)
  | done
  | id (id : Nat)
  | txID (txID : String)
  | names (names : String → Bool)
  | answer (answer : α)
  | archive (files : String → Option Disk)
  | records (records : Numbered N)

def Response.ofOutcome : Except Error Unit → Response N α
  | .ok _ => .done
  | .error e => .failed e

/-- A path is a directory or leads through it. -/
def below (dir path : Path) : Bool :=
  dir.rooted = path.rooted && dir.parts.isPrefixOf path.parts

section Handlers

variable (db : Setup N)

namespace GRPCServer

/-- A collection with its files. -/
def world (s : GRPCServer N ν) (name : String) : Option (World N) :=
  (s.collections name).map fun w => { w with disk := s.files (db.dir name) }

def set (s : GRPCServer N ν) (name : String) (w : Option (World N)) : GRPCServer N ν :=
  { s with collections := Function.update s.collections name w }

def setTx (s : GRPCServer N ν) (txID : String) (tx : Option (Tx N)) : GRPCServer N ν :=
  { s with txs := Function.update s.txs txID tx }

def publish (s : GRPCServer N ν) (records : List (String × Entry N)) : GRPCServer N ν :=
  { s with feed := s.feed ++ records }

/-- A collection and the files of its directory are changed. -/
def keep (s : GRPCServer N ν) (name : String) (w : Option (World N)) (disk : Disk) :
    GRPCServer N ν :=
  { s.set name w with files := Function.update s.files (db.dir name) disk }

/-- A collection has changed, and the feed has what it has published. -/
def put (s : GRPCServer N ν) (name : String) (w w' : World N) : GRPCServer N ν :=
  (s.keep db name (some w') w'.disk).publish
    ((w'.feed.drop w.feed.length).map fun e => (name, e))

/-- The directory of a collection is removed with all that is in it. -/
def remove (s : GRPCServer N ν) (name : String) : GRPCServer N ν :=
  { s.set name none with
    files := fun path => if below (db.dir name) path then .empty else s.files path }

end GRPCServer

variable [JsonNumber N]

def handle (s : GRPCServer N ν) : Rpc N α ν → Response N α × GRPCServer N ν
  | .createCollection name defaultTTLSeconds =>
    if name = "" ∨ defaultTTLSeconds < 0 then (.invalidArgument, s)
    else if (s.collections name).isSome then (.alreadyExists, s)
    else
      let (outcome, w, disk) := db.createCollection name defaultTTLSeconds (s.files (db.dir name))
      (.ofOutcome outcome, s.keep db name w disk)
  | .dropCollection name =>
    if (s.collections name).isNone then (.notFound, s)
    else (.done, s.remove db name)
  | .listCollections => (.names fun name => (s.collections name).isSome, s)
  | .onCollection collection method =>
    match s.world db collection with
    | none => (.notFound, s)
    | some w => (.answer (method w).1, s.put db collection w (method w).2)
  | .stage collection txID reserve op =>
    match s.collections collection, s.txs txID with
    | none, _ | _, none => (.notFound, s)
    | some w, some tx =>
      if tx.collection ≠ collection then (.invalidArgument, s)
      else
        let idSeq := if reserve then w.col.idSeq + 1 else w.col.idSeq
        (.id (op idSeq).id, (s.set collection (some { w with col := { w.col with idSeq } })).setTx
          txID (some { tx with ops := tx.ops ++ [op idSeq] }))
  | .beginTx collection newTxID =>
    if collection = "" then (.invalidArgument, s)
    else if (s.collections collection).isNone then (.notFound, s)
    else (.txID newTxID, s.setTx newTxID (some ⟨collection, []⟩))
  | .commitTx env txID =>
    match s.txs txID with
    | none => (.notFound, s)
    | some tx =>
      match s.world db tx.collection with
      | none => (.notFound, s)
      | some w =>
        let (outcome, w') := (commitTx env tx.ops).run w
        (.ofOutcome outcome, (s.put db tx.collection w w').setTx txID none)
  | .rollbackTx txID =>
    if (s.txs txID).isNone then (.notFound, s)
    else (.done, s.setTx txID none)
  | .snapshot => (.archive fun name => (s.world db name).map World.disk, s)
  | .replicate fromLSN subscribe =>
    if fromLSN + db.ring < s.feed.length then (.failedPrecondition, s)
    else (.records ((s.feed.zipIdx 1).drop fromLSN),
      { s with node := subscribe s.node, tailing := true })
  | .onNode answer =>
    ((.answer (answer s.feed.length s.node).1), { s with node := (answer s.feed.length s.node).2 })

/-- The accessor `GetCollection` of a message, if it has one. -/
def Rpc.getCollection : Rpc N α ν → Option String
  | .onCollection collection _ | .stage collection _ _ _ | .beginTx collection _ => some collection
  | _ => none

structure Principal where
  name : String
  collections : Option (Finset String)

def Principal.allowsCollection (p : Principal) (name : String) : Bool :=
  p.collections.all fun allowed => name ∈ allowed

def Principal.checkCollectionAccess (p : Principal) (rpc : Rpc N α ν) : Bool :=
  rpc.getCollection.all p.allowsCollection

def serve (p : Principal) (s : GRPCServer N ν) (rpc : Rpc N α ν) : Response N α × GRPCServer N ν :=
  if p.checkCollectionAccess rpc then handle db s rpc else (.permissionDenied, s)

/-! ## Runs -/

/-- What happens at the server: a request with the key, what other clients do, and
the end of the streams of the key.  Others leave the server in some state, and its
feed is what they have committed. -/
inductive Event (N α ν : Type) where
  | request (rpc : Rpc N α ν)
  | others (next : GRPCServer N ν)
  | cancel

/-- What the client with the key is sent. -/
structure Output (N α : Type) where
  response : Option (Response N α)
  sent : Numbered N

/-- The entries that an open stream is sent. -/
def sent (s s' : GRPCServer N ν) : Numbered N :=
  if s.tailing then (s'.feed.zipIdx 1).drop s.feed.length else []

def step (p : Principal) (s : GRPCServer N ν) : Event N α ν → Output N α × GRPCServer N ν
  | .request rpc =>
    let (response, s') := serve db p s rpc
    (⟨some response, sent s s'⟩, s')
  | .others next =>
    let s' := { next with feed := s.feed ++ next.feed, tailing := s.tailing }
    (⟨none, sent s s'⟩, s')
  | .cancel => (⟨none, []⟩, { s with tailing := false })

def run (p : Principal) (s : GRPCServer N ν) :
    List (Event N α ν) → List (Output N α) × GRPCServer N ν
  | [] => ([], s)
  | event :: events =>
    let (output, s') := step db p s event
    let (outputs, s'') := run p s' events
    (output :: outputs, s'')

/-! ## Confinement -/

section

omit [JsonNumber N]

variable (allowed : Finset String)

/-- Every entry of the feed is of a collection of the list. -/
def Listed (s : GRPCServer N ν) : Prop :=
  ∀ record ∈ s.feed, record.1 ∈ allowed

/-- The directories of the collections outside the list are clear of something. -/
def Others (s : GRPCServer N ν) (clear : Path → Prop) : Prop :=
  ∀ other ∉ allowed, (s.collections other).isSome → clear (db.dir other)

/-- No collection outside the list has its files in the directory of this one. -/
def Alone (s : GRPCServer N ν) (name : String) : Prop :=
  Others db allowed s fun dir => dir ≠ db.dir name

/-- A request that does not get past the accessor to other collections: it
creates or drops a collection of the list, commits a transaction of one, or asks
for the archive or the feed when they have no other.  Nor does it reach the files of
others through a path: a directory is not made within another's, and none is removed
with another's in it. -/
def Bounded (s : GRPCServer N ν) : Rpc N α ν → Prop
  | .createCollection name defaultTTLSeconds =>
    name ≠ "" → 0 ≤ defaultTTLSeconds → (s.collections name).isSome = false →
      name ∈ allowed ∧ Others db allowed s fun dir => below dir (db.dir name) = false
  | .dropCollection name => (s.collections name).isSome →
      name ∈ allowed ∧ Others db allowed s fun dir => below (db.dir name) dir = false
  | .onCollection collection _ =>
    collection ∈ allowed → (s.collections collection).isSome → Alone db allowed s collection
  | .commitTx _ txID => ∀ tx ∈ s.txs txID, (s.collections tx.collection).isSome →
      tx.collection ∈ allowed ∧ Alone db allowed s tx.collection
  | .snapshot => ∀ name, (s.collections name).isSome → name ∈ allowed
  | .replicate _ _ | .onNode _ => Listed allowed s
  | _ => True

/-- While the key has an open stream, others commit to collections of the list. -/
def Event.Bounded (s : GRPCServer N ν) : Event N α ν → Prop
  | .request rpc => Confinement.Bounded db allowed s rpc
  | .others next => s.tailing = true → Listed allowed next
  | .cancel => True

/-- Servers that differ in the contents of collections outside a list and in what was
committed there. -/
structure Agree (s t : GRPCServer N ν) : Prop where
  inside : ∀ name ∈ allowed, t.collections name = s.collections name
  files : ∀ name ∈ allowed, t.files (db.dir name) = s.files (db.dir name)
  names : ∀ name, (t.collections name).isSome = (s.collections name).isSome
  txs : t.txs = s.txs
  feed : t.feed.filter (fun record => record.1 ∈ allowed) =
    s.feed.filter fun record => record.1 ∈ allowed
  node : t.node = s.node
  tailing : t.tailing = s.tailing
  /-- A stream was opened when the feed had no other entries. -/
  tailed : s.tailing = true → Listed allowed s ∧ Listed allowed t

/-- The same requests, and steps of others that differ in collections outside the
list. -/
inductive Event.Like : Event N α ν → Event N α ν → Prop where
  | request (rpc : Rpc N α ν) : Like (.request rpc) (.request rpc)
  | others {s t : GRPCServer N ν} (agree : Agree db allowed s t) : Like (.others s) (.others t)
  | cancel : Like .cancel .cancel

end

variable (p : Principal) (allowed : Finset String)

/-- No request of a run changes, creates or removes a collection outside the list. -/
def Kept (s : GRPCServer N ν) : List (Event N α ν) → Prop
  | [] => True
  | event :: events =>
    (∀ rpc, event = .request rpc → ∀ name ∉ allowed,
      (step db p s event).2.world db name = s.world db name) ∧
      Kept (step db p s event).2 events

/-- Two servers answer alike and go on agreeing, both have published the same of the
list, and nothing outside the list has changed. -/
structure Alike (s t : GRPCServer N ν) (left right : Response N α × GRPCServer N ν) : Prop where
  response : right.1 = left.1
  agree : Agree db allowed left.2 right.2
  outside : ∀ name ∉ allowed, left.2.world db name = s.world db name
  published : ∃ records, left.2.feed = s.feed ++ records ∧ right.2.feed = t.feed ++ records

end Handlers

section Confined

variable {db : Setup N} {allowed : Finset String} {s t : GRPCServer N ν}

theorem below_self (dir : Path) : below dir dir = true := by
  simp [below]

theorem world_eq_none (db : Setup N) {name : String} (missing : ¬(s.collections name).isSome) :
    s.world db name = none := by
  rw [GRPCServer.world, Option.not_isSome_iff_eq_none.mp missing]
  rfl

theorem Agree.world (agree : Agree db allowed s t) {name : String} (inside : name ∈ allowed) :
    t.world db name = s.world db name := by
  rw [GRPCServer.world, GRPCServer.world, agree.inside name inside, agree.files name inside]

/-- Feeds without other entries are the same. -/
theorem Agree.feed_eq (agree : Agree db allowed s t) (left : Listed allowed s)
    (right : Listed allowed t) : t.feed = s.feed := by
  have whole {u : GRPCServer N ν} (listed : Listed allowed u) :
      u.feed.filter (fun record => record.1 ∈ allowed) = u.feed :=
    List.filter_eq_self.mpr fun record member => decide_eq_true (listed record member)
  have same := agree.feed
  rwa [whole left, whole right] at same

theorem Agree.set (agree : Agree db allowed s t) (name : String) (w : Option (World N)) :
    Agree db allowed (s.set name w) (t.set name w) :=
  { agree with
    inside := by
      intro other member
      simp only [GRPCServer.set, Function.update_apply, agree.inside other member]
    names := by
      intro other
      simp only [GRPCServer.set, Function.update_apply]
      split_ifs
      · rfl
      · exact agree.names other }

theorem Agree.setTx (agree : Agree db allowed s t) (txID : String) (tx : Option (Tx N)) :
    Agree db allowed (s.setTx txID tx) (t.setTx txID tx) :=
  { agree with txs := by rw [GRPCServer.setTx, GRPCServer.setTx, agree.txs] }

theorem Agree.keep (agree : Agree db allowed s t) (name : String) (w : Option (World N))
    (disk : Disk) : Agree db allowed (s.keep db name w disk) (t.keep db name w disk) :=
  { agree.set name w with
    files := by
      intro other member
      simp only [GRPCServer.keep, Function.update_apply, agree.files other member] }

theorem Agree.publish (agree : Agree db allowed s t) {records : List (String × Entry N)}
    (listed : ∀ record ∈ records, record.1 ∈ allowed) :
    Agree db allowed (s.publish records) (t.publish records) :=
  { agree with
    feed := by
      simp only [GRPCServer.publish, List.filter_append]
      rw [agree.feed]
    tailed := by
      intro tailing
      obtain ⟨left, right⟩ := agree.tailed tailing
      exact ⟨List.forall_mem_append.mpr ⟨left, listed⟩, List.forall_mem_append.mpr ⟨right, listed⟩⟩ }

theorem Agree.remove (agree : Agree db allowed s t) (name : String) :
    Agree db allowed (s.remove db name) (t.remove db name) :=
  { agree.set name none with
    files := by
      intro other member
      simp only [GRPCServer.remove, agree.files other member] }

/-! ### What a request leaves as it was -/

theorem Agree.quiet {s' t' : GRPCServer N ν} (agree : Agree db allowed s' t')
    (outside : ∀ name ∉ allowed, s'.world db name = s.world db name)
    (left : s'.feed = s.feed) (right : t'.feed = t.feed) (response : Response N α) :
    Alike db allowed s t (response, s') (response, t') := by
  refine ⟨rfl, agree, outside, [], ?_, ?_⟩
  · rw [List.append_nil, left]
  · rw [List.append_nil, right]

theorem Agree.stay (agree : Agree db allowed s t) (response : Response N α) :
    Alike db allowed s t (response, s) (response, t) :=
  agree.quiet (fun _ _ => rfl) rfl rfl response

theorem collections_set {name : String} (inside : name ∈ allowed) (w : Option (World N))
    {other : String} (outside : other ∉ allowed) :
    (s.set name w).collections other = s.collections other := by
  refine Function.update_of_ne ?_ _ _
  rintro rfl
  exact outside inside

/-- A collection of the list that shares its directory with no other is changed. -/
theorem world_keep {name : String} (inside : name ∈ allowed) (alone : Alone db allowed s name)
    (w : Option (World N)) (disk : Disk) {other : String} (outside : other ∉ allowed) :
    (s.keep db name w disk).world db other = s.world db other := by
  simp only [GRPCServer.world, GRPCServer.keep, collections_set inside w outside]
  rcases there : s.collections other with - | w
  · rfl
  · rw [Function.update_of_ne (alone other outside (by rw [there]; rfl))]

theorem Agree.put (agree : Agree db allowed s t) {name : String} (inside : name ∈ allowed)
    (alone : Alone db allowed s name) (w w' : World N) (response : Response N α) :
    Alike db allowed s t (response, s.put db name w w') (response, t.put db name w w') := by
  have listed : ∀ record ∈ (w'.feed.drop w.feed.length).map fun e => (name, e),
      record.1 ∈ allowed := by
    intro record member
    obtain ⟨e, -, rfl⟩ := List.mem_map.mp member
    exact inside
  refine ⟨rfl, (agree.keep name _ _).publish listed, ?_, _, rfl, rfl⟩
  exact fun _ outside => world_keep inside alone _ _ outside

theorem Alike.setTx {left right : Response N α × GRPCServer N ν}
    (alike : Alike db allowed s t left right) (txID : String) (tx : Option (Tx N)) :
    Alike db allowed s t (left.1, left.2.setTx txID tx) (right.1, right.2.setTx txID tx) :=
  ⟨alike.response, alike.agree.setTx txID tx, alike.outside, alike.published⟩

theorem Agree.removed (agree : Agree db allowed s t) {name : String} (inside : name ∈ allowed)
    (clear : Others db allowed s fun dir => below (db.dir name) dir = false)
    (response : Response N α) :
    Alike db allowed s t (response, s.remove db name) (response, t.remove db name) := by
  refine (agree.remove name).quiet (s := s) (t := t) (fun other outside => ?_) rfl rfl response
  simp only [GRPCServer.world, GRPCServer.remove, collections_set inside none outside]
  rcases there : s.collections other with - | w
  · rfl
  · rw [clear other outside (by rw [there]; rfl), if_neg Bool.false_ne_true]

variable [JsonNumber N] {p : Principal}

/-- What a request of a restricted key does on two servers that agree. -/
theorem Agree.serve (agree : Agree db allowed s t) (restricted : p.collections = some allowed)
    {rpc : Rpc N α ν} (bounded : Bounded db allowed s rpc) (bounded' : Bounded db allowed t rpc) :
    Alike db allowed s t (serve db p s rpc) (serve db p t rpc) := by
  rw [Confinement.serve, Confinement.serve]
  have within (name : String) (target : rpc.getCollection = some name)
      (access : p.checkCollectionAccess rpc = true) : name ∈ allowed := by
    rw [Principal.checkCollectionAccess, target, Option.all_some, Principal.allowsCollection,
      restricted, Option.all_some, decide_eq_true_eq] at access
    exact access
  split_ifs with access
  · cases rpc with
    | createCollection name defaultTTLSeconds =>
      rw [handle, handle, agree.names]
      split_ifs with invalid present
      · exact agree.stay _
      · exact agree.stay _
      · obtain ⟨inside, clear⟩ := bounded (fun empty => invalid (.inl empty))
          (not_lt.mp fun negative => invalid (.inr negative)) (Bool.eq_false_iff.mpr present)
        have alone : Alone db allowed s name := by
          intro other outside there same
          have within := clear other outside there
          rw [same, below_self] at within
          cases within
        rw [agree.files name inside]
        rcases db.createCollection name defaultTTLSeconds (s.files (db.dir name)) with
          ⟨outcome, w, disk⟩
        exact (agree.keep name w disk).quiet (s := s) (t := t)
          (fun _ => world_keep inside alone w disk) rfl rfl _
    | dropCollection name =>
      rw [handle, handle]
      simp only [Option.isNone_iff_eq_none, ← Option.not_isSome_iff_eq_none, agree.names]
      split_ifs with present
      · obtain ⟨inside, clear⟩ := bounded present
        exact agree.removed inside clear _
      · exact agree.stay _
    | listCollections =>
      rw [handle, handle, funext agree.names]
      exact agree.stay _
    | onCollection collection method =>
      have inside := within collection rfl access
      rw [handle, handle, agree.world inside]
      rcases found : s.world db collection with - | w
      · exact agree.stay _
      · have there : (s.collections collection).isSome := by
          rw [← Option.isSome_map, ← GRPCServer.world, found]
          rfl
        exact agree.put inside (bounded inside there) w _ _
    | stage collection txID reserve op =>
      have inside := within collection rfl access
      rw [handle.eq_def, handle.eq_def]
      dsimp only
      rw [agree.inside collection inside]
      rcases s.collections collection with - | w
      · exact agree.stay _
      · rw [agree.txs]
        rcases s.txs txID with - | tx
        · exact agree.stay _
        · dsimp only
          by_cases other : tx.collection ≠ collection
          · rw [if_pos other, if_pos other]
            exact agree.stay _
          · rw [if_neg other, if_neg other]
            refine ((agree.set collection _).quiet (s := s) (t := t) (fun other outside => ?_)
              rfl rfl _).setTx txID _
            rw [GRPCServer.world, GRPCServer.world, collections_set inside _ outside]
            rfl
    | beginTx collection newTxID =>
      rw [handle, handle, agree.inside collection (within collection rfl access)]
      split_ifs
      · exact agree.stay _
      · exact agree.stay _
      · exact (agree.stay _).setTx newTxID _
    | commitTx env txID =>
      rw [handle, handle, agree.txs]
      rcases found : s.txs txID with - | tx
      · exact agree.stay _
      · dsimp only
        by_cases there : (s.collections tx.collection).isSome
        · obtain ⟨inside, alone⟩ := bounded tx found there
          rw [agree.world inside]
          rcases s.world db tx.collection with - | w
          · exact agree.stay _
          · exact (agree.put inside alone w _ _).setTx txID none
        · rw [world_eq_none db there, world_eq_none db (by rwa [agree.names])]
          exact agree.stay _
    | rollbackTx txID =>
      rw [handle, handle, agree.txs]
      split_ifs
      · exact agree.stay _
      · exact (agree.stay _).setTx txID none
    | snapshot =>
      have same : t.world db = s.world db := by
        funext name
        by_cases inside : name ∈ allowed
        · exact agree.world inside
        · have missing : ¬(s.collections name).isSome := fun there => inside (bounded name there)
          rw [world_eq_none db missing, world_eq_none db (by rwa [agree.names])]
      rw [handle, handle, same]
      exact agree.stay _
    | replicate fromLSN subscribe =>
      have feeds := agree.feed_eq bounded bounded'
      rw [handle, handle, feeds, agree.node]
      split_ifs
      · exact agree.stay _
      · refine Agree.quiet ?_ ?_ ?_ ?_ _
        · exact { agree with
            feed := rfl
            node := rfl
            tailing := rfl
            tailed := fun _ => ⟨bounded, bounded⟩ }
        · exact fun _ _ => rfl
        · rfl
        · exact feeds.symm
    | onNode answer =>
      have feeds := agree.feed_eq bounded bounded'
      rw [handle, handle, feeds, agree.node]
      refine Agree.quiet ?_ ?_ ?_ ?_ _
      · exact { agree with feed := rfl, node := rfl, tailed := fun _ => ⟨bounded, bounded⟩ }
      · exact fun _ _ => rfl
      · rfl
      · exact feeds.symm
  · exact agree.stay _

/-- What a step does on two servers that agree. -/
theorem Agree.step (agree : Agree db allowed s t) (restricted : p.collections = some allowed)
    {event event' : Event N α ν} (like : Event.Like db allowed event event')
    (bounded : event.Bounded db allowed s) (bounded' : event'.Bounded db allowed t) :
    (step db p t event').1 = (step db p s event).1 ∧
      Agree db allowed (step db p s event).2 (step db p t event').2 ∧
      ∀ rpc, event = .request rpc → ∀ name ∉ allowed,
        (step db p s event).2.world db name = s.world db name := by
  cases like with
  | request rpc =>
    have alike : Alike db allowed s t (Confinement.serve db p s rpc) (Confinement.serve db p t rpc) :=
      agree.serve restricted bounded bounded'
    refine ⟨?_, alike.agree, fun _ _ => alike.outside⟩
    obtain ⟨records, left, right⟩ := alike.published
    simp only [Confinement.step, alike.response, sent, agree.tailing]
    split_ifs with tailing
    · obtain ⟨listed, listed'⟩ := agree.tailed tailing
      rw [left, right, agree.feed_eq listed listed']
    · rfl
  | @others s' t' agree' =>
    have extended : (t.feed ++ t'.feed).filter (fun record => record.1 ∈ allowed) =
        (s.feed ++ s'.feed).filter fun record => record.1 ∈ allowed := by
      rw [List.filter_append, List.filter_append, agree.feed, agree'.feed]
    have tailed (tailing : s.tailing = true) :
        (∀ record ∈ s.feed ++ s'.feed, record.1 ∈ allowed) ∧
          ∀ record ∈ t.feed ++ t'.feed, record.1 ∈ allowed := by
      obtain ⟨listed, listed'⟩ := agree.tailed tailing
      exact ⟨List.forall_mem_append.mpr ⟨listed, bounded tailing⟩,
        List.forall_mem_append.mpr ⟨listed', bounded' (agree.tailing.trans tailing)⟩⟩
    have after : Agree db allowed (Confinement.step db p s (.others s' : Event N α ν)).2
        (Confinement.step db p t (.others t' : Event N α ν)).2 :=
      { agree' with feed := extended, tailing := agree.tailing, tailed := tailed }
    refine ⟨?_, after, ?_⟩
    · simp only [Confinement.step, sent, agree.tailing]
      split_ifs with tailing
      · obtain ⟨listed, listed'⟩ := agree.tailed tailing
        have feeds : t.feed ++ t'.feed = s.feed ++ s'.feed :=
          after.feed_eq (tailed tailing).1 (tailed tailing).2
        rw [feeds, agree.feed_eq listed listed']
      · rfl
    · intro rpc impossible
      cases impossible
  | cancel =>
    refine ⟨rfl, { agree with tailing := rfl, tailed := ?_ }, ?_⟩
    · exact fun tailing => absurd tailing Bool.false_ne_true
    · intro rpc impossible
      cases impossible

end Confined

/-! ## A key for one of three collections -/

open Engine.Sequential (fresh stillEnv smallConfig oneField)
open Engine.Load (openCollection)

def smallSetup : Setup Int where
  dataDir := ['d']
  ring := 8
  createCollection _ _ disk :=
    let (opened, w) := openCollection smallConfig none .asWritten disk
    (opened, opened.toOption.map fun _ => w, w.disk)

def blank : World Int := fresh smallConfig none .asWritten

/-- A record of another collection. -/
def theirRecord (n : Int) : Entry Int := newInsert 1 (some (oneField "n" n)) stillEnv.ts

/-- A collection that has given out some ids. -/
def theirs (n : Nat) : World Int :=
  { blank with col := { blank.col with idSeq := n } }

/-- The collection of the key, one with its directory in that of the first, and one that
has an open transaction. -/
def house (n : Nat) (feed : List (String × Entry Int)) : GRPCServer Int Unit where
  collections name := if name = "mine" ∨ name = "mine/x" then some blank
    else if name = "theirs" then some (theirs n) else none
  files path := if path = smallSetup.dir "theirs" then (theirs n).disk
    else if path = smallSetup.dir "mine" ∨ path = smallSetup.dir "mine/x" then blank.disk else .empty
  txs txID := if txID = "t" then some ⟨"theirs", [⟨.insert, 1, some (oneField "n" 7), stillEnv.ts⟩]⟩
    else none
  feed := feed
  node := ()
  tailing := false

/-- The key tails the feed while another client writes to its collection; its streams
end, and the other collection is written to. -/
def day (n : Nat) : List (Event Int Nat Unit) :=
  [.request (.replicate 0 id), .others (house n [("mine", theirRecord 1)]), .cancel,
    .others (house n [("theirs", theirRecord n)]),
    .request (.onCollection "theirs" fun w => (w.col.idSeq, w)),
    .request (.onCollection "mine" fun w => (w.col.idSeq, w)), .request .listCollections]

end Scriva.Server.Confinement
