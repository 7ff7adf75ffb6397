import Scriva.Lib.Sorted
import Scriva.Store.Given
import Scriva.Engine.Scanning

/-!
# Secondary indexes with their ordered view

Beside its buckets an index keeps the kind of the values it has seen and, while
they are all of one kind, its keys in the order of the values they stand for.
The keys and kinds are those of the values given to the write, not of the values
that a reader gets back.

`Maintains` says of an index which value every id was given: the buckets are
those of the texts of the values, and the ordered view has every bucket once, in
order.  Every operation keeps it, a rebuild or a load establishes it, and a
range lookup then returns the ids whose value is in the range.
-/

namespace Scriva.Engine.OrderedIndex

open Lib.Keyed Lib.Sorted Store.Record Store.Given SecondaryIndex Scanning
open Query (NumberOrder)
open SecondaryIndex.Sidx (Exact)

variable {N : Type} [JsonNumber N] [NumberOrder N]

/-- What the ordered view relies on: a number can be read back from its form
under `%v`, and numbers are compared by a total preorder. -/
class GoFloat (N : Type) [JsonNumber N] [NumberOrder N] where
  parseFloat : String → Option N
  zero : N
  parseFloat_sprint : ∀ number, parseFloat (JsonNumber.sprint number) = some number
  transitive : Std.TransCmp (NumberOrder.compare (N := N))

/-! ## Kinds and the order of keys -/

/-- The kind of a given value, and the value by which it is ordered. -/
def goValKind : GoValue N → IndexKind × Value N
  | .float number => (.numeric, .num number)
  | .str text => (.string, .str text)
  | value => (.string, .str value.sprint)

def mergeKind (cur next : IndexKind) : IndexKind :=
  if cur = .empty then next
  else if cur = next then cur
  else .mixed

def kindText : IndexKind → String
  | .numeric => "numeric"
  | .string => "string"
  | .mixed => "mixed"
  | .empty => ""

def parseIndexKind (text : String) : IndexKind :=
  if text = "numeric" then .numeric
  else if text = "string" then .string
  else if text = "mixed" then .mixed
  else .empty

def orderLessKey (a b : OrderedKey N) : Bool :=
  match Query.compare a.val b.val with
  | .lt => true
  | .gt => false
  | .eq => a.key < b.key

def searchSorted (sorted : List (OrderedKey N)) (target : OrderedKey N) : Nat :=
  search (fun i => ((sorted[i]?).map fun entry => !orderLessKey entry target).getD false)
    sorted.length 0 sorted.length

/-- Add a new bucket key to the ordered view. -/
def orderedInsert (view : OrderedView N) (key : String) (val : Value N) : OrderedView N :=
  if view.kind = .mixed then view
  else
    let i := searchSorted view.sorted ⟨key, val⟩
    if ((view.sorted[i]?).map OrderedKey.key) = some key then view
    else { view with sorted := view.sorted.take i ++ ⟨key, val⟩ :: view.sorted.drop i }

/-- Fold the kind of a value into the view, and drop the order of a field that
has values of different kinds. -/
def observe (view : OrderedView N) (value : GoValue N) : OrderedView N :=
  let kind := mergeKind view.kind (goValKind value).1
  ⟨kind, if kind = .mixed then [] else view.sorted⟩

variable [GoFloat N]

/-- The value that a bucket key stands for in an index of one kind. -/
def valForKind (kind : IndexKind) (key : String) : Value N :=
  if kind = .numeric then .num ((GoFloat.parseFloat key).getD GoFloat.zero) else .str key

def entryOf (kind : IndexKind) (key : String) : OrderedKey N :=
  ⟨key, valForKind kind key⟩

/-- Take the key of an emptied bucket out of the ordered view. -/
def orderedRemove (view : OrderedView N) (key : String) : OrderedView N :=
  if view.kind = .mixed then view
  else
    let i := searchSorted view.sorted (entryOf view.kind key)
    if ((view.sorted[i]?).map OrderedKey.key) = some key then
      { view with sorted := view.sorted.take i ++ view.sorted.drop (i + 1) }
    else view

/-- The bucket keys in order, for a field of one kind. -/
def buildSorted (buckets : Map String (Finset Nat)) (kind : IndexKind) : List (OrderedKey N) :=
  if kind = .mixed ∨ kind = .empty then []
  else ((buckets.keys.sort (· ≤ ·)).insertionSort fun a b =>
    orderLessKey (entryOf kind b : OrderedKey N) (entryOf kind a) = false).map (entryOf kind)

/-- The kind of an index file that does not record it. -/
def inferKind (N : Type) [JsonNumber N] [NumberOrder N] [GoFloat N]
    (buckets : Map String (Finset Nat)) : IndexKind :=
  if ∀ key ∈ buckets.keys, (GoFloat.parseFloat key : Option N).isSome then .numeric
  else .string

/-! ## Operations of an index -/

structure Ordered (N : Type) where
  sidx : Sidx
  view : OrderedView N

structure OrderedFile where
  file : SidxFile
  kind : String

/-- The value that the latest data give to an id. -/
def givenIn (field : String) (latest : Map Nat (Option (Option (Data N)))) (id : Nat) :
    Option (GoValue N) :=
  ((latest.lookup id).join.bind fun data => field? data field).map GoValue.ofValue

namespace Ordered

def new (field : String) (unique : Bool) : Ordered N :=
  ⟨newSecondaryIndex field unique, ⟨.empty, []⟩⟩

def add (index : Ordered N) (value : GoValue N) (id : Nat) : Ordered N where
  sidx := index.sidx.addKey value.sprint id
  view :=
    if index.sidx.buckets.lookup value.sprint = none then
      orderedInsert (observe index.view value) value.sprint (goValKind value).2
    else observe index.view value

/-- Take an id out of a bucket, and the bucket out of the view when it becomes
empty. -/
def shrink (index : Ordered N) (key : String) (id : Nat) : Ordered N where
  sidx := index.sidx.shrink key id
  view := if (index.sidx.bucket key).erase id = ∅ then orderedRemove index.view key else index.view

def remove (index : Ordered N) (id : Nat) : Ordered N :=
  match index.sidx.reverse.lookup id with
  | none => index
  | some key =>
    let shrunk := index.shrink key id
    { shrunk with sidx := { shrunk.sidx with reverse := shrunk.sidx.reverse.erase id } }

def update (index : Ordered N) (id : Nat) (value : GoValue N) : Ordered N :=
  match index.sidx.reverse.lookup id with
  | none => index.add value id
  | some old => (index.shrink old id).add value id

/-- Index the latest data, replacing whatever was indexed. -/
def fill (index : Ordered N) (latest : Map Nat (Option (Option (Data N)))) : Ordered N :=
  let sidx := index.sidx.fill latest
  let kinds := (latest.keys.sort (· ≤ ·)).filterMap fun id =>
    (givenIn index.sidx.field latest id).map fun value => (goValKind value).1
  let kind := kinds.foldl mergeKind .empty
  ⟨sidx, kind, buildSorted sidx.buckets kind⟩

def persist (index : Ordered N) : OrderedFile :=
  ⟨index.sidx.persist, kindText index.view.kind⟩

/-- Load a file into an index; the flag says whether the buckets were loaded. -/
def load (index : Ordered N) (f : OrderedFile) : Ordered N × Bool :=
  match index.sidx.load f.file with
  | (sidx, false) => (⟨sidx, index.view⟩, false)
  | (sidx, true) =>
    let kind := parseIndexKind f.kind
    let kind := if kind = .empty ∧ sidx.buckets ≠ ∅ then inferKind N sidx.buckets else kind
    (⟨sidx, kind, buildSorted sidx.buckets kind⟩, true)

end Ordered

/-! ## The order of the keys -/

/-- How the values of two keys compare. -/
def keyCompare (N : Type) [JsonNumber N] [NumberOrder N] [GoFloat N] (kind : IndexKind)
    (a b : String) : Ordering :=
  Query.compare (valForKind kind a : Value N) (valForKind kind b)

/-- The order of keys: by their values, and keys of equal values by themselves. -/
def keyOrder (N : Type) [JsonNumber N] [NumberOrder N] [GoFloat N] (kind : IndexKind) :
    String → String → Ordering :=
  compareLex (keyCompare N kind) Ord.compare

theorem keyCompare_eq (kind : IndexKind) (a b : String) :
    keyCompare N kind a b =
      if kind = .numeric then
        NumberOrder.compare ((GoFloat.parseFloat a).getD (GoFloat.zero : N))
          ((GoFloat.parseFloat b).getD GoFloat.zero)
      else Ord.compare a b := by
  rw [keyCompare, valForKind, valForKind]
  by_cases numeric : kind = .numeric
  · rw [if_pos numeric, if_pos numeric, if_pos numeric, Query.compare]
  · rw [if_neg numeric, if_neg numeric, if_neg numeric]
    rfl

instance (kind : IndexKind) : Std.TransCmp (keyCompare N kind) := by
  have := GoFloat.transitive (N := N)
  refine { eq_swap := ?_, isLE_trans := ?_ }
  · intro a b
    rw [keyCompare_eq, keyCompare_eq]
    split
    · exact Std.OrientedCmp.eq_swap
    · exact Std.OrientedCmp.eq_swap
  · intro a b c first second
    rw [keyCompare_eq] at first second ⊢
    split at first
    · rename_i numeric
      rw [if_pos numeric] at second ⊢
      exact Std.TransCmp.isLE_trans first second
    · rename_i other
      rw [if_neg other] at second ⊢
      exact Std.TransCmp.isLE_trans first second

instance (kind : IndexKind) : Std.TransCmp (keyOrder N kind) := by
  unfold keyOrder
  infer_instance

variable {a b : String} {keys : String → Prop}

theorem isLE_of_keyOrder {kind : IndexKind} (less : keyOrder N kind a b = .lt) :
    (keyCompare N kind a b).isLE = true := by
  unfold keyOrder compareLex at less
  rcases ordered : keyCompare N kind a b with - | - | -
  · rfl
  · rfl
  · rw [ordered] at less
    cases less

@[simp]
theorem keyOrder_self (kind : IndexKind) (key : String) : keyOrder N kind key key = .eq :=
  Std.ReflCmp.compare_self

/-- Keys that are not in order one way are in order the other way. -/
theorem keyOrder_of_ne {kind : IndexKind} (differs : a ≠ b) (ordered : keyOrder N kind a b ≠ .lt) :
    keyOrder N kind b a = .lt := by
  rcases found : keyOrder N kind a b with - | - | -
  · exact absurd found ordered
  · exfalso
    unfold keyOrder compareLex at found
    exact differs (Std.LawfulEqCmp.eq_of_compare (Ordering.then_eq_eq.mp found).2)
  · exact Std.OrientedCmp.gt_iff_lt.mp found

theorem orderLessKey_entryOf (kind : IndexKind) (a b : String) :
    orderLessKey (entryOf kind a : OrderedKey N) (entryOf kind b) =
      decide (keyOrder N kind a b = .lt) := by
  rw [orderLessKey, keyOrder, compareLex, keyCompare]
  change (match Query.compare (valForKind kind a : Value N) (valForKind kind b) with
    | .lt => true | .gt => false | .eq => decide (a < b)) = _
  rcases Query.compare (valForKind kind a : Value N) (valForKind kind b) with - | - | -
  · rfl
  · exact decide_eq_decide.mpr compare_lt_iff_lt.symm
  · rfl

/-! ## Bisection -/

/-- Bisection finds the place from which on a test holds. -/
theorem search_eq {test : Nat → Bool} {first n : Nat}
    (below : ∀ i, i < first → test i = false)
    (above : ∀ i, first ≤ i → i < n → test i = true) (fuel : Nat) {lo hi : Nat}
    (low : lo ≤ first) (high : first ≤ hi) (inside : hi ≤ n) (enough : hi - lo ≤ fuel) :
    search test fuel lo hi = first := by
  induction fuel generalizing lo hi with
  | zero =>
    rw [search]
    omega
  | succ fuel ih =>
    rw [search]
    by_cases open' : lo < hi
    · rw [if_pos open']
      dsimp only
      by_cases left : (lo + hi) / 2 < first
      · rw [below _ left]
        exact ih (by omega) high inside (by omega)
      · rw [above _ (by omega) (by omega)]
        exact ih low (by omega) (by omega) (by omega)
    · rw [if_neg open']
      omega

theorem search_list {α : Type} {items : List α} {test : α → Bool}
    (upward : Upward test items) :
    search (fun i => ((items[i]?).map test).getD false) items.length 0 items.length =
      items.findIdx test := by
  refine search_eq ?_ ?_ _ (Nat.zero_le _) List.findIdx_le_length le_rfl le_rfl
  · intro i before
    have inside : i < items.length := lt_of_lt_of_le before List.findIdx_le_length
    rw [List.getElem?_eq_getElem inside]
    exact List.not_of_lt_findIdx before
  · intro i after inside
    rw [List.getElem?_eq_getElem inside]
    exact getElem_of_findIdx_le upward inside after

/-! ## The ordered view -/

/-- The view has exactly the given keys, in order and with their values. -/
def Arranged (view : OrderedView N) (keys : String → Prop) : Prop :=
  ∃ names : List String, view.sorted = names.map (entryOf view.kind) ∧
    names.Pairwise (fun a b => keyOrder N view.kind a b = .lt) ∧ ∀ key, key ∈ names ↔ keys key

theorem Arranged.congr {view : OrderedView N} {keys' : String → Prop}
    (arranged : Arranged view keys) (same : ∀ key, keys key ↔ keys' key) : Arranged view keys' := by
  obtain ⟨names, sorted, ordered, members⟩ := arranged
  exact ⟨names, sorted, ordered, fun key => (members key).trans (same key)⟩

variable {key : String}

section Arranged

variable {kind : IndexKind} {names : List String}

/-- The place of a key, behind the keys that are less. -/
def place (N : Type) [JsonNumber N] [NumberOrder N] [GoFloat N] (kind : IndexKind)
    (names : List String) (key : String) : Nat :=
  names.findIdx fun name => decide (keyOrder N kind name key ≠ .lt)

theorem upward_names (ordered : names.Pairwise fun a b => keyOrder N kind a b = .lt)
    (key : String) : Upward (fun name => decide (keyOrder N kind name key ≠ .lt)) names := by
  refine ordered.imp ?_
  intro a b less notLess
  rw [decide_eq_true_eq] at notLess ⊢
  exact fun below => notLess (Std.TransCmp.lt_trans less below)

theorem searchSorted_eq (ordered : names.Pairwise fun a b => keyOrder N kind a b = .lt)
    (key : String) :
    searchSorted (names.map (entryOf kind)) (entryOf kind key : OrderedKey N) =
      place N kind names key := by
  have test (name : String) : (!orderLessKey (entryOf kind name : OrderedKey N) (entryOf kind key)) =
      decide (keyOrder N kind name key ≠ .lt) := by
    rw [orderLessKey_entryOf, decide_not]
  rw [searchSorted, search_list, List.findIdx_map, place]
  · congr 1
    funext name
    exact test name
  · rw [Upward, List.pairwise_map]
    simp only [test]
    exact upward_names ordered key

/-- A key that is there is at its place. -/
theorem getElem?_place (ordered : names.Pairwise fun a b => keyOrder N kind a b = .lt)
    (member : key ∈ names) : names[place N kind names key]? = some key := by
  have dropped : names.drop (place N kind names key) = _ := drop_findIdx (upward_names ordered key)
  have behind : key ∈ names.drop (place N kind names key) := by
    rw [dropped, List.mem_filter, keyOrder_self]
    exact ⟨member, rfl⟩
  have sorted := ordered.sublist (List.drop_sublist (place N kind names key) names)
  rw [← List.head?_drop]
  rcases rest : names.drop (place N kind names key) with - | ⟨head, tail⟩
  · rw [rest] at behind
    cases behind
  · rw [rest] at behind sorted
    rcases List.mem_cons.mp behind with rfl | later
    · rfl
    · -- a key in front of it would be less, and those are not behind the place
      have front := List.Mem.head (a := head) tail
      rw [← rest, dropped] at front
      have notLess := of_decide_eq_true (List.mem_filter.mp front).2
      exact absurd ((List.pairwise_cons.mp sorted).1 key later) notLess

theorem Arranged.insert {view : OrderedView N} (arranged : Arranged view keys)
    (one : view.kind ≠ .mixed) (absent : ¬ keys key) :
    Arranged (orderedInsert view key (valForKind view.kind key))
      fun other => keys other ∨ other = key := by
  obtain ⟨names, sorted, ordered, members⟩ := arranged
  have missing : ¬ (((view.sorted[searchSorted view.sorted (entryOf view.kind key)]?).map
      OrderedKey.key) = some key) := by
    intro found
    obtain ⟨entry, there, rfl⟩ := Option.map_eq_some_iff.mp found
    have member := List.mem_of_getElem? there
    rw [sorted, List.mem_map] at member
    obtain ⟨name, inside, rfl⟩ := member
    exact absent ((members name).mp inside)
  have inserted : orderedInsert view key (valForKind view.kind key) =
      { view with sorted := (names.take (place N view.kind names key) ++
        key :: names.drop (place N view.kind names key)).map (entryOf view.kind) } := by
    rw [orderedInsert, if_neg one]
    refine (if_neg missing).trans ?_
    change OrderedView.mk _ (view.sorted.take (searchSorted view.sorted (entryOf view.kind key)) ++
      entryOf view.kind key ::
        view.sorted.drop (searchSorted view.sorted (entryOf view.kind key))) = _
    rw [sorted, searchSorted_eq ordered, List.map_append, List.map_cons, List.map_take,
      List.map_drop]
  rw [inserted]
  refine ⟨_, rfl, ?_, ?_⟩
  · refine pairwise_insert ordered (upward_names ordered key) ?_ ?_
    · intro other member below
      exact not_not.mp (of_decide_eq_false below)
    · intro other member above
      refine keyOrder_of_ne ?_ (of_decide_eq_true above)
      rintro rfl
      exact absent ((members other).mp member)
  · intro other
    rw [List.mem_append, List.mem_cons, or_left_comm, ← List.mem_append,
      List.take_append_drop, members other]
    exact or_comm

theorem Arranged.remove {view : OrderedView N} (arranged : Arranged view keys)
    (one : view.kind ≠ .mixed) (present : keys key) :
    Arranged (orderedRemove view key) fun other => keys other ∧ other ≠ key := by
  obtain ⟨names, sorted, ordered, members⟩ := arranged
  have there := getElem?_place ordered ((members key).mpr present)
  have nodup : names.Nodup := ordered.imp fun less same => by
    rw [same, keyOrder_self] at less
    cases less
  have erased : names.take (place N view.kind names key) ++
      names.drop (place N view.kind names key + 1) = names.erase key := by
    obtain ⟨inside, value⟩ := List.getElem?_eq_some_iff.mp there
    rw [← List.eraseIdx_eq_take_drop_succ, List.erase_eq_eraseIdx_of_idxOf]
    rw [← nodup.idxOf_getElem _ inside, value]
  have removed : orderedRemove view key =
      { view with sorted := (names.erase key).map (entryOf view.kind) } := by
    have found : ((view.sorted[searchSorted view.sorted (entryOf view.kind key)]?).map
        OrderedKey.key) = some key := by
      rw [sorted, searchSorted_eq ordered, List.getElem?_map, there]
      rfl
    rw [orderedRemove, if_neg one]
    dsimp only
    rw [if_pos found, sorted, searchSorted_eq ordered, ← List.map_take, ← List.map_drop,
      ← List.map_append, erased]
  rw [removed]
  refine ⟨_, rfl, ordered.sublist List.erase_sublist, fun other => ?_⟩
  rw [nodup.mem_erase_iff, members other]
  exact and_comm

end Arranged

/-! ## Buckets are not empty -/

/-- Every bucket of the index has an id. -/
def Filled (s : Sidx) : Prop :=
  ∀ key ∈ s.buckets, (s.bucket key).Nonempty

variable {s : Sidx}

theorem mem_buckets_of_mem {id : Nat} (member : id ∈ s.bucket key) : key ∈ s.buckets := by
  by_contra missing
  rw [Sidx.bucket, Finmap.lookup_eq_none.mpr missing] at member
  cases member

theorem mem_buckets_addKey (s : Sidx) (key other : String) (id : Nat) :
    other ∈ (s.addKey key id).buckets ↔ other ∈ s.buckets ∨ other = key := by
  rw [Sidx.addKey, Finmap.mem_insert]
  exact or_comm

theorem Filled.addKey (filled : Filled s) (key : String) (id : Nat) : Filled (s.addKey key id) := by
  intro other member
  rcases (mem_buckets_addKey s key other id).mp member with old | rfl
  · obtain ⟨first, inside⟩ := filled other old
    exact ⟨first, (Sidx.mem_bucket_addKey s key other id first).mpr (.inl inside)⟩
  · exact ⟨id, (Sidx.mem_bucket_addKey s other other id id).mpr (.inr ⟨rfl, rfl⟩)⟩

theorem mem_buckets_shrink (present : key ∈ s.buckets) (other : String) (id : Nat) :
    other ∈ (s.shrink key id).buckets ↔
      other ∈ s.buckets ∧ ((s.bucket key).erase id = ∅ → other ≠ key) := by
  rw [Sidx.shrink]
  split
  · rename_i emptied
    rw [Finmap.mem_erase, and_comm]
    exact and_congr_right fun _ => ⟨fun differs _ => differs, fun differs => differs emptied⟩
  · rename_i kept
    rw [Finmap.mem_insert]
    constructor
    · rintro (rfl | old)
      · exact ⟨present, fun emptied => absurd emptied kept⟩
      · exact ⟨old, fun emptied => absurd emptied kept⟩
    · rintro ⟨old, -⟩
      exact .inr old

theorem Filled.shrink (filled : Filled s) (present : key ∈ s.buckets) (id : Nat) :
    Filled (s.shrink key id) := by
  intro other member
  obtain ⟨old, differs⟩ := (mem_buckets_shrink present other id).mp member
  by_cases same : other = key
  · subst same
    obtain ⟨rest, inside⟩ := Finset.nonempty_iff_ne_empty.mpr fun emptied => differs emptied rfl
    refine ⟨rest, (Sidx.mem_bucket_shrink s other other id rest).mpr ?_⟩
    exact ⟨Finset.mem_of_mem_erase inside, fun both => Finset.ne_of_mem_erase inside both.2⟩
  · obtain ⟨first, inside⟩ := filled other old
    refine ⟨first, (Sidx.mem_bucket_shrink s key other id first).mpr ?_⟩
    exact ⟨inside, fun both => same both.1⟩

/-! ## Maintained indexes -/

/-- The index holds the values that the ids were given. -/
structure Maintains (index : Ordered N) (given : Nat → Option (GoValue N)) : Prop where
  exact : index.sidx.Exact fun id => (given id).map GoValue.sprint
  filled : Filled index.sidx
  kinds : index.view.kind = .mixed ∨
    ∀ id value, given id = some value → (goValKind value).1 = index.view.kind
  arranged : index.view.kind ≠ .mixed → Arranged index.view fun key => key ∈ index.sidx.buckets

omit [NumberOrder N] [GoFloat N] in
theorem goValKind_ne_empty (value : GoValue N) : (goValKind value).1 ≠ .empty := by
  cases value <;> exact nofun

/-- The value by which a given value is ordered is the one its text stands for. -/
theorem goValKind_snd (value : GoValue N) :
    (goValKind value).2 = valForKind (goValKind value).1 value.sprint := by
  cases value with
  | float number =>
    change Value.num number = Value.num ((GoFloat.parseFloat (JsonNumber.sprint number)).getD _)
    rw [GoFloat.parseFloat_sprint, Option.getD_some]
  | null | bool | int | str | arr | obj => rfl

omit [NumberOrder N] [GoFloat N] in
/-- The texts of the given values after one of them changed. -/
theorem map_update (given : Nat → Option (GoValue N)) (id : Nat) (value : Option (GoValue N)) :
    (fun other => (Function.update given id value other).map GoValue.sprint) =
      Function.update (fun other => (given other).map GoValue.sprint) id
        (value.map GoValue.sprint) :=
  Function.comp_update (Option.map GoValue.sprint) given id value

theorem mergeKind_of_ne_mixed {cur next : IndexKind} (one : mergeKind cur next ≠ .mixed) :
    mergeKind cur next = next ∧ (cur = .empty ∨ cur = next) := by
  unfold mergeKind at one ⊢
  by_cases empty : cur = .empty
  · rw [if_pos empty]
    exact ⟨rfl, .inl empty⟩
  · rw [if_neg empty] at one ⊢
    by_cases same : cur = next
    · rw [if_pos same]
      exact ⟨same, .inr same⟩
    · rw [if_neg same] at one
      exact absurd rfl one

namespace Maintains

variable {index : Ordered N} {given : Nat → Option (GoValue N)}

theorem given_of_bucket (maintains : Maintains index given) (member : key ∈ index.sidx.buckets) :
    ∃ id value, given id = some value ∧ value.sprint = key := by
  obtain ⟨id, inside⟩ := maintains.filled key member
  obtain ⟨value, held, text⟩ := Option.map_eq_some_iff.mp ((maintains.exact.bucket key id).mp inside)
  exact ⟨id, value, held, text⟩

theorem mem_buckets (maintains : Maintains index given) {id : Nat} {value : GoValue N}
    (held : given id = some value) : value.sprint ∈ index.sidx.buckets := by
  refine mem_buckets_of_mem ((maintains.exact.bucket _ id).mpr ?_)
  rw [held, Option.map_some]

theorem not_mem_of_empty (maintains : Maintains index given) (empty : index.view.kind = .empty)
    (key : String) : key ∉ index.sidx.buckets := by
  intro member
  obtain ⟨id, value, held, -⟩ := maintains.given_of_bucket member
  rcases maintains.kinds with mixed | same
  · rw [empty] at mixed
    cases mixed
  · exact goValKind_ne_empty value ((same id value held).trans empty)

end Maintains

/-- The view after an id has been put under the key of a value. -/
theorem arranged_add {index : Ordered N} (value : GoValue N) (id : Nat)
    (arranged : index.view.kind ≠ .mixed →
      Arranged index.view fun key => key ∈ index.sidx.buckets)
    (blank : index.view.kind = .empty → ∀ key, key ∉ index.sidx.buckets)
    (one : mergeKind index.view.kind (goValKind value).1 ≠ .mixed) :
    Arranged (index.add value id).view fun key => key ∈ (index.add value id).sidx.buckets := by
  obtain ⟨merged, before⟩ := mergeKind_of_ne_mixed one
  have observed : Arranged (observe index.view value) fun key => key ∈ index.sidx.buckets := by
    have same : observe index.view value = ⟨(goValKind value).1, index.view.sorted⟩ := by
      rw [observe, if_neg one, merged]
    rw [same]
    rcases before with empty | same
    · obtain ⟨names, sorted, ordered, members⟩ := arranged (by rw [empty]; exact nofun)
      have none : names = [] := List.eq_nil_iff_forall_not_mem.mpr fun key member =>
        blank empty key ((members key).mp member)
      subst none
      exact ⟨[], sorted, .nil, members⟩
    · have here := arranged (by rw [same, ← merged]; exact one)
      rw [← same]
      exact here
  have kind : (observe index.view value).kind = (goValKind value).1 := merged
  have keys (key : String) : key ∈ (index.add value id).sidx.buckets ↔
      key ∈ index.sidx.buckets ∨ key = value.sprint :=
    mem_buckets_addKey index.sidx value.sprint key id
  rw [Ordered.add]
  dsimp only
  split
  · rename_i absent
    have missing := Finmap.lookup_eq_none.mp absent
    have inserted := observed.insert (by rw [kind, ← merged]; exact one) missing
    rw [kind, ← goValKind_snd] at inserted
    exact inserted.congr fun key => (keys key).symm
  · rename_i present
    have member : value.sprint ∈ index.sidx.buckets :=
      not_not.mp fun missing => present (Finmap.lookup_eq_none.mpr missing)
    refine observed.congr fun key => Iff.trans ?_ (keys key).symm
    exact ⟨.inl, fun either => either.elim (fun old => old) fun same => same ▸ member⟩

omit [GoFloat N] in
theorem kind_orderedInsert (view : OrderedView N) (key : String) (val : Value N) :
    (orderedInsert view key val).kind = view.kind := by
  rw [orderedInsert]
  dsimp only
  split
  · rfl
  · split <;> rfl

theorem kind_orderedRemove (view : OrderedView N) (key : String) :
    (orderedRemove view key).kind = view.kind := by
  rw [orderedRemove]
  dsimp only
  split
  · rfl
  · split <;> rfl

omit [GoFloat N] in
theorem kind_add (index : Ordered N) (value : GoValue N) (id : Nat) :
    (index.add value id).view.kind = mergeKind index.view.kind (goValKind value).1 := by
  rw [Ordered.add]
  dsimp only
  split
  · exact kind_orderedInsert _ _ _
  · rfl

theorem kind_shrink (index : Ordered N) (key : String) (id : Nat) :
    (index.shrink key id).view.kind = index.view.kind := by
  rw [Ordered.shrink]
  dsimp only
  split
  · exact kind_orderedRemove _ _
  · rfl

theorem arranged_shrink {index : Ordered N} (id : Nat) (present : key ∈ index.sidx.buckets)
    (one : index.view.kind ≠ .mixed)
    (arranged : Arranged index.view fun key => key ∈ index.sidx.buckets) :
    Arranged (index.shrink key id).view fun key' => key' ∈ (index.shrink key id).sidx.buckets := by
  have keys (other : String) := mem_buckets_shrink present other id
  rw [Ordered.shrink]
  dsimp only
  split
  · rename_i emptied
    refine (arranged.remove one present).congr fun other => Iff.trans ?_ (keys other).symm
    exact and_congr_right fun _ => ⟨fun differs _ => differs, fun differs => differs emptied⟩
  · rename_i kept
    refine arranged.congr fun other => Iff.trans ?_ (keys other).symm
    exact ⟨fun old => ⟨old, fun emptied => absurd emptied kept⟩, fun both => both.1⟩

namespace Maintains

variable {index : Ordered N} {given : Nat → Option (GoValue N)}

theorem kinds_update (maintains : Maintains index given) (id : Nat) (value : GoValue N) :
    mergeKind index.view.kind (goValKind value).1 = .mixed ∨
      ∀ other value', Function.update given id (some value) other = some value' →
        (goValKind value').1 = mergeKind index.view.kind (goValKind value).1 := by
  by_cases one : mergeKind index.view.kind (goValKind value).1 = .mixed
  · exact .inl one
  · refine .inr fun other value' held => ?_
    obtain ⟨merged, before⟩ := mergeKind_of_ne_mixed one
    rw [merged]
    rw [Function.update_apply] at held
    split at held
    · rw [Option.some.inj held]
    · rcases maintains.kinds with mixed | same
      · rw [mixed] at before
        rcases before with absurd | kind
        · cases absurd
        · exact absurd (merged.trans kind.symm) one
      · rcases before with empty | kind
        · exact absurd ((same other value' held).trans empty) (goValKind_ne_empty value')
        · exact (same other value' held).trans kind

theorem add (maintains : Maintains index given) {id : Nat} (fresh : given id = none)
    (value : GoValue N) :
    Maintains (index.add value id) (Function.update given id (some value)) where
  exact := by
    rw [map_update]
    exact maintains.exact.addKey (by rw [fresh, Option.map_none]) value.sprint
  filled := maintains.filled.addKey _ _
  kinds := by
    rw [kind_add]
    exact maintains.kinds_update id value
  arranged := by
    rw [kind_add]
    exact arranged_add value id maintains.arranged maintains.not_mem_of_empty

theorem remove (maintains : Maintains index given) (id : Nat) :
    Maintains (index.remove id) (Function.update given id none) := by
  have exact : (index.remove id).sidx.Exact fun other =>
      (Function.update given id none other).map GoValue.sprint := by
    rw [map_update]
    have same : (index.remove id).sidx = index.sidx.remove id := by
      rw [Ordered.remove, Sidx.remove]
      rcases index.sidx.reverse.lookup id with - | key
      · rfl
      · rfl
    rw [same]
    exact maintains.exact.remove id
  rw [Ordered.remove] at exact ⊢
  rcases held : index.sidx.reverse.lookup id with - | key
  · rw [held] at exact
    have none : given id = none := by
      rw [maintains.exact.reverse id, Option.map_eq_none_iff] at held
      exact held
    rwa [← none, Function.update_eq_self]
  · rw [held] at exact
    have present : key ∈ index.sidx.buckets := by
      rw [maintains.exact.reverse id] at held
      exact mem_buckets_of_mem ((maintains.exact.bucket key id).mpr held)
    refine ⟨exact, maintains.filled.shrink present id, ?_, ?_⟩
    · dsimp only
      rw [kind_shrink]
      refine maintains.kinds.imp (fun mixed => mixed) fun same other value found => ?_
      rw [Function.update_apply] at found
      split at found
      · cases found
      · exact same other value found
    · dsimp only
      rw [kind_shrink]
      exact fun one => arranged_shrink id present one (maintains.arranged one)

theorem update (maintains : Maintains index given) (id : Nat) (value : GoValue N) :
    Maintains (index.update id value) (Function.update given id (some value)) := by
  rcases held : index.sidx.reverse.lookup id with - | old
  · have none : given id = none := by
      rw [maintains.exact.reverse id, Option.map_eq_none_iff] at held
      exact held
    rw [Ordered.update, held]
    exact maintains.add none value
  · have wanted := held
    rw [maintains.exact.reverse id] at wanted
    have present : old ∈ index.sidx.buckets :=
      mem_buckets_of_mem ((maintains.exact.bucket old id).mpr wanted)
    have used : index.view.kind ≠ .empty := fun empty =>
      maintains.not_mem_of_empty empty old present
    have exact : (index.update id value).sidx.Exact fun other =>
        (Function.update given id (some value) other).map GoValue.sprint := by
      rw [map_update]
      have updated := maintains.exact.updateKey id value.sprint
      rw [Sidx.updateKey, held] at updated
      rw [Ordered.update, held]
      exact updated
    rw [Ordered.update, held] at exact ⊢
    refine ⟨exact, (maintains.filled.shrink present id).addKey _ _, ?_, ?_⟩
    · rw [kind_add, kind_shrink]
      exact maintains.kinds_update id value
    · rw [kind_add]
      refine arranged_add value id ?_ ?_
      · rw [kind_shrink]
        exact fun one => arranged_shrink id present one (maintains.arranged one)
      · rw [kind_shrink]
        exact fun empty => absurd empty used

end Maintains

/-! ## Rebuilding and loading -/

theorem foldl_mergeKind {kinds : List IndexKind} (seen : ∀ kind ∈ kinds, kind ≠ .empty)
    {cur : IndexKind} (one : kinds.foldl mergeKind cur ≠ .mixed) :
    (cur = .empty ∨ cur = kinds.foldl mergeKind cur) ∧
      ∀ kind ∈ kinds, kind = kinds.foldl mergeKind cur := by
  induction kinds generalizing cur with
  | nil => exact ⟨.inr rfl, nofun⟩
  | cons kind kinds ih =>
    rw [List.foldl_cons] at one ⊢
    obtain ⟨here, later⟩ := ih
      (fun other member => seen other (.tail _ member)) one
    have first : mergeKind cur kind ≠ .mixed := by
      intro mixed
      rcases here with empty | same
      · rw [mixed] at empty
        cases empty
      · exact one (same.symm.trans mixed)
    obtain ⟨merged, before⟩ := mergeKind_of_ne_mixed first
    have same : kind = kinds.foldl mergeKind (mergeKind cur kind) := by
      rcases here with empty | same
      · exact absurd (merged.symm.trans empty) (seen kind (.head _))
      · exact merged.symm.trans same
    refine ⟨before.imp_right fun equal => equal.trans same, ?_⟩
    intro other member
    rcases List.mem_cons.mp member with rfl | inside
    · exact same
    · exact later other inside

theorem arranged_buildSorted {buckets : Map String (Finset Nat)} {kind : IndexKind}
    (one : kind ≠ .mixed) (blank : kind = .empty → ∀ key, key ∉ buckets) :
    Arranged (⟨kind, buildSorted buckets kind⟩ : OrderedView N) fun key => key ∈ buckets := by
  by_cases empty : kind = .empty
  · refine ⟨[], ?_, .nil, fun key => iff_of_false List.not_mem_nil (blank empty key)⟩
    rw [buildSorted, if_pos (.inr empty), List.map_nil]
  · let before : String → String → Prop := fun a b =>
      orderLessKey (entryOf kind b : OrderedKey N) (entryOf kind a) = false
    have before_iff (a b : String) : before a b ↔ keyOrder N kind b a ≠ .lt := by
      change orderLessKey (entryOf kind b : OrderedKey N) (entryOf kind a) = false ↔ _
      rw [orderLessKey_entryOf, decide_eq_false_iff_not]
    have total : Std.Total before := by
      refine ⟨fun a b => ?_⟩
      rw [before_iff, before_iff]
      by_contra both
      rw [not_or, not_not, not_not] at both
      exact absurd both.1 (by rw [Std.OrientedCmp.gt_of_lt both.2]; exact nofun)
    have transitive : IsTrans String before := by
      refine ⟨fun a b c first second => ?_⟩
      rw [before_iff] at first second ⊢
      intro less
      refine first ?_
      exact Std.TransCmp.lt_of_isLE_of_lt (Std.OrientedCmp.isLE_of_isGE
        (Ordering.isGE_iff_ne_lt.mpr second)) less
    have sorted := List.pairwise_insertionSort before (buckets.keys.sort (· ≤ ·))
    have nodup : ((buckets.keys.sort (· ≤ ·)).insertionSort before).Nodup :=
      (List.perm_insertionSort before _).nodup_iff.mpr (Finset.sort_nodup _ _)
    refine ⟨(buckets.keys.sort (· ≤ ·)).insertionSort before, ?_, ?_, ?_⟩
    · rw [buildSorted, if_neg (not_or.mpr ⟨one, empty⟩)]
    · refine (sorted.and nodup).imp ?_
      rintro a b ⟨notLess, differs⟩
      exact keyOrder_of_ne differs.symm ((before_iff a b).mp notLess)
    · intro key
      rw [List.mem_insertionSort, Finset.mem_sort, Finmap.mem_keys]

omit [NumberOrder N] [GoFloat N] in
theorem filled_fill (s : Sidx) (latest : Map Nat (Option (Option (Data N)))) :
    Filled (s.fill latest) := by
  refine List.foldlRecOn _ _ (fun _ missing => absurd missing Finmap.notMem_empty) ?_
  intro t filled id _
  split
  · rw [Sidx.indexEntry]
    split
    · exact filled.addKey _ _
    · exact filled
  · exact filled

/-- A rebuilt index maintains the values of the latest data. -/
theorem maintains_fill (index : Ordered N) (latest : Map Nat (Option (Option (Data N)))) :
    Maintains (index.fill latest) (givenIn index.sidx.field latest) := by
  have exact : (index.sidx.fill latest).Exact fun id =>
      (givenIn index.sidx.field latest id).map GoValue.sprint := by
    convert Sidx.exact_fill index.sidx latest using 2 with id
    rw [givenIn, Option.map_map]
    rcases (latest.lookup id).join with - | data
    · rfl
    · rw [Option.bind_some, Option.bind_some, indexKey]
      congr 1
      funext value
      exact GoValue.sprint_ofValue value
  have filled := filled_fill index.sidx latest
  have kinds : (index.fill latest).view.kind = .mixed ∨
      ∀ id value, givenIn index.sidx.field latest id = some value →
        (goValKind value).1 = (index.fill latest).view.kind := by
    by_cases mixed : (index.fill latest).view.kind = .mixed
    · exact .inl mixed
    · refine .inr fun id value held => ?_
      refine (foldl_mergeKind ?_ mixed).2 _ ?_
      · intro kind member
        obtain ⟨other, -, found⟩ := List.mem_filterMap.mp member
        obtain ⟨value, -, rfl⟩ := Option.map_eq_some_iff.mp found
        exact goValKind_ne_empty value
      · refine List.mem_filterMap.mpr ⟨id, ?_, by rw [held, Option.map_some]⟩
        rw [Finset.mem_sort, Finmap.mem_keys]
        by_contra missing
        rw [givenIn, Finmap.lookup_eq_none.mpr missing] at held
        cases held
  refine ⟨exact, filled, kinds, fun one => arranged_buildSorted one fun empty key member => ?_⟩
  obtain ⟨id, inside⟩ := filled key member
  obtain ⟨value, held, -⟩ := Option.map_eq_some_iff.mp ((exact.bucket key id).mp inside)
  rcases kinds with mixed | same
  · exact one mixed
  · exact goValKind_ne_empty value ((same id value held).trans empty)

theorem parseIndexKind_kindText (kind : IndexKind) : parseIndexKind (kindText kind) = kind := by
  cases kind <;> decide

/-- An index that was written to a file is loaded as it was. -/
theorem Maintains.load {index : Ordered N} {given : Nat → Option (GoValue N)}
    (maintains : Maintains index given) (into : Ordered N) :
    into.load index.persist = (⟨{ index.sidx with field := into.sidx.field }, index.view.kind,
      buildSorted index.sidx.buckets index.view.kind⟩, true) := by
  have reverse : Sidx.reverseOf index.sidx.buckets = index.sidx.reverse :=
    Finmap.ext_lookup fun id =>
      (Sidx.lookup_reverseOf maintains.exact id).trans (maintains.exact.reverse id).symm
  have read : into.sidx.load index.persist.file =
      ({ index.sidx with field := into.sidx.field }, true) := by
    dsimp only
    rw [← reverse]
    exact if_pos rfl
  have kind : parseIndexKind index.persist.kind = index.view.kind :=
    parseIndexKind_kindText index.view.kind
  have recorded : ¬ (index.view.kind = .empty ∧ index.sidx.buckets ≠ ∅) := by
    rintro ⟨empty, used⟩
    refine used (Finmap.ext_lookup fun key => ?_)
    rw [Finmap.lookup_empty, Finmap.lookup_eq_none]
    exact maintains.not_mem_of_empty empty key
  rw [Ordered.load, read]
  dsimp only
  rw [kind, if_neg recorded]

theorem Maintains.loaded {index : Ordered N} {given : Nat → Option (GoValue N)}
    (maintains : Maintains index given) (into : Ordered N) :
    Maintains (into.load index.persist).1 given := by
  rw [maintains.load]
  exact ⟨⟨maintains.exact.reverse, maintains.exact.bucket⟩, maintains.filled, maintains.kinds,
    fun one => arranged_buildSorted one maintains.not_mem_of_empty⟩

/-! ## Range lookups -/

/-- The results of a comparison that a range accepts. -/
def inRange (op : Query.Op) (result : Ordering) : Bool :=
  match op with
  | .gt => result = .gt
  | .gte => result ≠ .lt
  | .lt => result = .lt
  | .lte => result ≠ .gt
  | _ => false

def isRange (op : Query.Op) : Bool :=
  op = .gt || op = .gte || op = .lt || op = .lte

variable {op : Query.Op}

section Ranges

variable {kind : IndexKind} {names : List String}

theorem upward_gt (ordered : names.Pairwise fun a b => keyOrder N kind a b = .lt)
    (text : String) : Upward (fun name => decide (keyCompare N kind name text = .gt)) names := by
  refine ordered.imp ?_
  intro a b less above
  rw [decide_eq_true_eq] at above ⊢
  exact Std.TransCmp.gt_of_isGE_of_gt (Std.OrientedCmp.isGE_of_isLE (isLE_of_keyOrder less)) above

theorem upward_ge (ordered : names.Pairwise fun a b => keyOrder N kind a b = .lt)
    (text : String) : Upward (fun name => decide (keyCompare N kind name text ≠ .lt)) names := by
  refine ordered.imp ?_
  intro a b less notBelow
  rw [decide_eq_true_eq] at notBelow ⊢
  exact fun below => notBelow (Std.TransCmp.lt_of_isLE_of_lt (isLE_of_keyOrder less) below)

/-- The part of an ordered view that a range covers is that of the keys whose
value is in the range. -/
theorem slice_eq (ordered : names.Pairwise fun a b => keyOrder N kind a b = .lt)
    (range : isRange op = true) (text : String) :
    (rangeBounds ⟨kind, names.map (entryOf kind)⟩ op (valForKind kind text : Value N)).map
        (fun (lo, hi) => ((names.map (entryOf kind)).take hi).drop lo) =
      some ((names.filter fun name => inRange op (keyCompare N kind name text)).map
        (entryOf kind : String → OrderedKey N)) := by
  have find (test : Ordering → Bool)
      (upward : Upward (fun name => test (keyCompare N kind name text)) names) :
      search (fun i => (((names.map (entryOf kind : String → OrderedKey N))[i]?).map fun entry =>
          test (Query.compare entry.val (valForKind kind text))).getD false)
        (names.map (entryOf kind : String → OrderedKey N)).length 0
        (names.map (entryOf kind : String → OrderedKey N)).length =
      names.findIdx fun name => test (keyCompare N kind name text) := by
    refine (search_list ?_).trans (List.findIdx_map _ _ _)
    rw [Upward, List.pairwise_map]
    exact upward
  have gt := upward_gt ordered text
  have ge := upward_ge ordered text
  have above := find (· = .gt) gt
  have notBelow := find (· ≠ .lt) ge
  beta_reduce at above notBelow
  cases op with
  | gt =>
    rw [rangeBounds]
    dsimp only
    rw [above, Option.map_some, List.take_length, ← List.map_drop, drop_findIdx gt]
    rfl
  | gte =>
    rw [rangeBounds]
    dsimp only
    rw [notBelow, Option.map_some, List.take_length, ← List.map_drop, drop_findIdx ge]
    rfl
  | lt =>
    rw [rangeBounds]
    dsimp only
    rw [notBelow, Option.map_some, List.drop_zero, ← List.map_take, take_findIdx ge]
    simp only [decide_not, Bool.not_not]
    rfl
  | lte =>
    rw [rangeBounds]
    dsimp only
    rw [above, Option.map_some, List.drop_zero, ← List.map_take, take_findIdx gt]
    simp only [← decide_not]
    rfl
  | eq | neq | contains | regex | other => cases range

end Ranges

omit [NumberOrder N] [GoFloat N] in
theorem valKind_eq (value : Value N) : valKind value = goValKind (GoValue.ofValue value) := by
  cases value with
  | bool flag => cases flag <;> rfl
  | null | num | str => rfl
  | arr items =>
    rw [valKind, GoValue.ofValue, goValKind, ← GoValue.ofValue, GoValue.sprint_ofValue]
    all_goals exact nofun
  | obj fields =>
    rw [valKind, GoValue.ofValue, goValKind, ← GoValue.ofValue, GoValue.sprint_ofValue]
    all_goals exact nofun

/-- A range lookup that the index serves returns the ids whose given value is in
the range. -/
theorem mem_lookupRange {index : Ordered N} {given : Nat → Option (GoValue N)}
    (maintains : Maintains index given) (range : isRange op = true) {value : Value N}
    (same : (valKind value).1 = index.view.kind) :
    ∃ ids, lookupRange index.view index.sidx op value = some ids ∧
      ∀ id, id ∈ ids ↔ ∃ held, given id = some held ∧
        inRange op (Query.compare (goValKind held).2 (valKind value).2) = true := by
  have one : index.view.kind ≠ .mixed := by
    rw [← same]
    cases value <;> exact nofun
  have used : index.view.kind ≠ .empty := by
    rw [← same, valKind_eq]
    exact goValKind_ne_empty _
  have query : (valKind value).2 = valForKind index.view.kind (sprint value) := by
    rw [← same, valKind_eq, goValKind_snd, GoValue.sprint_ofValue]
  obtain ⟨names, sorted, ordered, members⟩ := maintains.arranged one
  have served : lookupRange index.view index.sidx op value =
      some ((names.filter fun name =>
        inRange op (keyCompare N index.view.kind name (sprint value))).flatMap fun name =>
          (index.sidx.bucket name).sort (· ≤ ·)) := by
    have view : index.view = ⟨index.view.kind, names.map (entryOf index.view.kind)⟩ := by
      rw [← sorted]
    have slice := slice_eq ordered range (sprint value)
    have looked : lookupRange index.view index.sidx op value =
        (rangeBounds index.view op (valKind value).2).map fun (lo, hi) =>
          ((index.view.sorted.take hi).drop lo).flatMap fun entry =>
            (index.sidx.bucket entry.key).sort (· ≤ ·) := by
      rw [lookupRange]
      split
      · rename_i empty
        exact absurd empty used
      · rename_i mixed
        exact absurd mixed one
      · rw [if_neg (not_not.mpr same)]
    rw [looked, query, sorted]
    rw [← view] at slice
    have mapped := congrArg (Option.map fun part : List (OrderedKey N) =>
      part.flatMap fun entry => (index.sidx.bucket entry.key).sort (· ≤ ·)) slice
    rw [Option.map_map, Option.map_some, List.flatMap_map] at mapped
    exact mapped
  refine ⟨_, served, fun id => ?_⟩
  rw [List.mem_flatMap]
  constructor
  · rintro ⟨name, inside, member⟩
    obtain ⟨-, hit⟩ := List.mem_filter.mp inside
    rw [Finset.mem_sort, maintains.exact.bucket name id] at member
    obtain ⟨held, found, rfl⟩ := Option.map_eq_some_iff.mp member
    refine ⟨held, found, ?_⟩
    have kind := maintains.kinds.resolve_left one id held found
    rw [query, goValKind_snd, kind]
    exact hit
  · rintro ⟨held, found, hit⟩
    have kind := maintains.kinds.resolve_left one id held found
    rw [query, goValKind_snd, kind] at hit
    refine ⟨held.sprint, List.mem_filter.mpr ⟨?_, hit⟩, ?_⟩
    · exact (members held.sprint).mpr (maintains.mem_buckets found)
    · rw [Finset.mem_sort, maintains.exact.bucket, found, Option.map_some]

end Scriva.Engine.OrderedIndex
