import Scriva.Lib.Sorted
import Scriva.Engine.Counts
import Scriva.Engine.SortOrder

/-!
# The groups of an aggregation

An aggregation takes the rows of a scan one by one into the accounts of their
groups.  At the end the accounts are read out of a map, in any order, and sorted
by their keys with a sort that is not stable.  The order in which they are
emitted is settled by the data only if the comparison tells all keys apart.
-/

namespace Scriva.Engine.Groups

open Lib.Sorted Lib.Fallible Store.Record Store.Ndjson Directory Engine.Collection Scanning
open Queries SortOrder
open Query (Filter NumberOrder)

variable {N : Type} [JsonNumber N] [NumberOrder N] {search : Search N} {w : World N} {f : Filter}

/-! ## The rows of a query -/

section Rows

variable {σ τ : Type} {visit : ScanResult N → σ → Except Error σ}
  {visit' : ScanResult N → τ → Except Error τ} {h : σ → τ}

theorem visitIds_map (commutes : ∀ r acc, visit' r (h acc) = (visit r acc).map h)
    (ids : List Nat) (acc : σ) :
    visitIds visit' search w f ids (h acc) = (visitIds visit search w f ids acc).map h := by
  induction ids generalizing acc with
  | nil => rfl
  | cons id ids ih =>
    rw [visitIds, visitIds]
    rcases getStored w search.now id with error | ⟨e, loc⟩
    · exact ih acc
    · dsimp only
      rw [commutes]
      split_ifs
      · rcases visit ⟨id, loc.rev, e.data, e.ts⟩ acc with error | next
        · rfl
        · exact ih next
      · exact ih acc

theorem visitLine_map (commutes : ∀ r acc, visit' r (h acc) = (visit r acc).map h)
    (segment offset : Nat) (e : Entry N) (acc : σ) :
    visitLine visit' search w f segment offset e (h acc) =
      (visitLine visit search w f segment offset e acc).map h := by
  rw [visitLine, visitLine]
  rcases w.col.index.lookup e.id with - | loc
  · rfl
  · dsimp only
    rw [commutes]
    split_ifs <;> rfl

omit [NumberOrder N] in
theorem scanLines_map {yield : Nat → Entry N → σ → Except Error σ}
    {yield' : Nat → Entry N → τ → Except Error τ}
    (commutes : ∀ offset e acc, yield' offset e (h acc) = (yield offset e acc).map h)
    (lines : List Lib.Text.Bytes) (offset : Nat) (acc : σ) :
    scanLines yield' lines offset (h acc) = (scanLines yield lines offset acc).map h := by
  induction lines generalizing offset acc with
  | nil => rfl
  | cons line lines ih =>
    rw [scanLines, scanLines]
    dsimp only
    split_ifs
    · exact ih _ acc
    · rcases (decode (Segment.dropCR line) : Except _ (Entry N)) with error | e
      · rfl
      · dsimp only
        rw [commutes]
        rcases yield offset e acc with error | next
        · rfl
        · exact ih _ next
    · rfl

theorem streamSegments_map (commutes : ∀ r acc, visit' r (h acc) = (visit r acc).map h)
    (segments : List Nat) (acc : σ) :
    streamSegments visit' search w f segments (h acc) =
      (streamSegments visit search w f segments acc).map h := by
  induction segments generalizing acc with
  | nil => rfl
  | cons segment segments ih =>
    rw [streamSegments, streamSegments]
    rcases w.disk.segment segment with - | file
    · rfl
    · dsimp only
      rw [scanFrom, scanFrom, scanLines_map (visitLine_map commutes segment)]
      rcases scanLines (visitLine visit search w f segment) (Segment.scannedLines file) 0 acc
        with error | next
      · rfl
      · exact ih next

/-- What is done with the rows does not change which rows are visited. -/
theorem forEachMatch_map (commutes : ∀ r acc, visit' r (h acc) = (visit r acc).map h) (acc : σ) :
    forEachMatch visit' search w f (h acc) = (forEachMatch visit search w f acc).map h := by
  rw [forEachMatch, forEachMatch]
  rcases checkFilterFields w.col.enc f with error | ⟨⟩
  · rfl
  · rcases indexCandidates search w.col f with - | ids
    · exact streamSegments_map commutes _ acc
    · exact visitIds_map commutes _ acc

end Rows

/-- The rows that match a filter, as they are stored. -/
def matching (search : Search N) (w : World N) (f : Filter) :
    Except Error (List (ScanResult N)) :=
  forEachMatch (fun r rows => .ok (rows ++ [r])) search w f []

theorem forEachMatch_eq_foldl {σ : Type} (step : σ → ScanResult N → σ) (acc : σ) :
    forEachMatch (fun r acc => .ok (step acc r)) search w f acc =
      (matching search w f).map (List.foldl step acc) := by
  refine forEachMatch_map (h := List.foldl step acc) (fun r rows => ?_) []
  rw [Except.map, List.foldl_append]
  rfl

/-! ## Keys of groups -/

section Keys

variable {a b c : Value N}

omit [NumberOrder N] in
/-- Values in one group are of one type and have one text. -/
theorem text_of_canonical (same : canonicalGroupKey a = canonicalGroupKey b) :
    isNum a = isNum b ∧ sprint a = sprint b := by
  have chars := congrArg String.toList same
  -- the first letters of the types differ
  cases a <;> cases b <;> simp [canonicalGroupKey, goType, isNum, String.toList_append] at chars ⊢
  all_goals exact String.toList_inj.mp chars

variable [trans : Std.TransCmp (NumberOrder.compare (N := N))]

/-- Values in one group compare alike. -/
theorem compare_congr (same : canonicalGroupKey a = canonicalGroupKey b) (c : Value N) :
    Query.compare a c = Query.compare b c := by
  obtain ⟨number, text⟩ := text_of_canonical same
  by_cases numbers : isNum a = true ∧ isNum c = true
  · obtain ⟨k, rfl⟩ := exists_num numbers.2
    obtain ⟨n, rfl⟩ := exists_num (number ▸ numbers.1)
    obtain ⟨m, rfl⟩ := exists_num numbers.1
    change NumberOrder.compare m k = NumberOrder.compare n k
    exact Std.TransCmp.congr_left (NumberOrder.compare_of_sprint m n text)
  · rw [not_and_or, Bool.not_eq_true, Bool.not_eq_true] at numbers
    have numbers' : isNum b = false ∨ isNum c = false := number ▸ numbers
    rw [compare_of_text numbers, compare_of_text numbers', text]

theorem compare_congr_right (same : canonicalGroupKey a = canonicalGroupKey b) (c : Value N) :
    Query.compare c a = Query.compare c b := by
  rw [compare_swap c a, compare_swap c b, compare_congr same]

end Keys

/-! ## The groups of the rows -/

section Accounts

variable [Arithmetic N] {keys : Set (Value N)} {accounts : List (String × AggAcc N)} {key : String}
  {fresh : AggAcc N} {change : AggAcc N → AggAcc N}

/-- The value by which a row is grouped. -/
def groupKey (spec : AggregateSpec) (r : ScanResult N) : Value N :=
  if spec.groupBy = "" then .null else valueOf r spec.groupBy

/-- The accounts of the groups that some values open. -/
structure Accounts (keys : Set (Value N)) (accounts : List (String × AggAcc N)) : Prop where
  nodup : (accounts.map Prod.fst).Nodup
  named : ∀ account ∈ accounts, account.1 = canonicalGroupKey account.2.key
  opened : ∀ account ∈ accounts, account.2.key ∈ keys
  covered : ∀ key ∈ keys, canonicalGroupKey key ∈ accounts.map Prod.fst

omit [JsonNumber N] [NumberOrder N] [Arithmetic N] in
theorem map_fst_upsertGroup (key : String) (fresh : AggAcc N) (change : AggAcc N → AggAcc N)
    (accounts : List (String × AggAcc N)) :
    (upsertGroup key fresh change accounts).map Prod.fst =
      if key ∈ accounts.map Prod.fst then accounts.map Prod.fst
      else accounts.map Prod.fst ++ [key] := by
  induction accounts with
  | nil => rfl
  | cons account accounts ih =>
    obtain ⟨other, acc⟩ := account
    rw [upsertGroup]
    by_cases same : other = key
    · rw [if_pos same, List.map_cons, List.map_cons, same, if_pos (List.mem_cons_self ..)]
    · rw [if_neg same, List.map_cons, List.map_cons, ih]
      have later : key ∈ other :: accounts.map Prod.fst ↔ key ∈ accounts.map Prod.fst :=
        List.mem_cons.trans (or_iff_right fun here => same here.symm)
      simp only [later]
      split_ifs <;> rfl

omit [JsonNumber N] [NumberOrder N] [Arithmetic N] in
theorem mem_upsertGroup (keeps : ∀ acc, (change acc).key = acc.key) {account : String × AggAcc N}
    (member : account ∈ upsertGroup key fresh change accounts) :
    (account.1 = key ∧ account.2.key = fresh.key) ∨
      ∃ old ∈ accounts, account.1 = old.1 ∧ account.2.key = old.2.key := by
  induction accounts with
  | nil =>
    obtain rfl := List.mem_singleton.mp member
    exact .inl ⟨rfl, keeps fresh⟩
  | cons first accounts ih =>
    obtain ⟨other, acc⟩ := first
    rw [upsertGroup] at member
    split_ifs at member with same
    all_goals rcases List.mem_cons.mp member with rfl | later
    · exact .inr ⟨_, .head _, same.symm, keeps acc⟩
    · exact .inr ⟨account, .tail _ later, rfl, rfl⟩
    · exact .inr ⟨_, .head _, rfl, rfl⟩
    · rcases ih later with new | ⟨old, before, held⟩
      · exact .inl new
      · exact .inr ⟨old, .tail _ before, held⟩

omit [JsonNumber N] [NumberOrder N] in
theorem AggAcc.key_take (acc : AggAcc N) (value : Option (Value N)) :
    (acc.take value).key = acc.key := by
  unfold AggAcc.take
  split <;> rfl

omit [NumberOrder N] in
theorem Accounts.row (held : Accounts keys accounts) (spec : AggregateSpec) (r : ScanResult N) :
    Accounts (insert (groupKey spec r) keys) (addRow spec r accounts) := by
  have names : (addRow spec r accounts).map Prod.fst =
      if canonicalGroupKey (groupKey spec r) ∈ accounts.map Prod.fst then accounts.map Prod.fst
      else accounts.map Prod.fst ++ [canonicalGroupKey (groupKey spec r)] :=
    map_fst_upsertGroup _ _ _ accounts
  have origin {account : String × AggAcc N} (member : account ∈ addRow spec r accounts) :=
    mem_upsertGroup (fun acc => AggAcc.key_take acc _) member
  refine ⟨?_, fun account member => ?_, fun account member => ?_, fun key member => ?_⟩
  · rw [names]
    split_ifs with known
    · exact held.nodup
    · rw [← List.concat_eq_append]
      exact held.nodup.concat known
  · rcases origin member with ⟨name, key⟩ | ⟨old, before, name, key⟩
    · rw [name, key]
    · rw [name, key, held.named old before]
  · rcases origin member with ⟨-, key⟩ | ⟨old, before, -, key⟩
    · rw [key]
      exact Set.mem_insert _ _
    · rw [key]
      exact Set.mem_insert_of_mem _ (held.opened old before)
  · rw [names]
    rcases Set.mem_insert_iff.mp member with rfl | before
    · split_ifs with known
      · exact known
      · exact List.mem_append_right _ (List.mem_singleton_self _)
    · split_ifs
      · exact held.covered key before
      · exact List.mem_append_left _ (held.covered key before)

omit [NumberOrder N] in
theorem Accounts.rows (held : Accounts keys accounts) (spec : AggregateSpec)
    (rows : List (ScanResult N)) :
    Accounts (keys ∪ { key | ∃ r ∈ rows, groupKey spec r = key })
      (rows.foldl (fun groups r => addRow spec r groups) accounts) := by
  induction rows generalizing keys accounts with
  | nil => simpa using held
  | cons r rows ih =>
    have later := ih (held.row spec r)
    rw [List.foldl_cons]
    convert later using 1
    ext key
    simp only [Set.mem_union, Set.mem_ofPred_eq, List.mem_cons, exists_eq_or_imp, Set.mem_insert_iff]
    tauto

/-- The groups that some values open, one for each text and type. -/
structure Grouped (keys : Set (Value N)) (groups : List (GroupResult N)) : Prop where
  apart : (groups.map fun g => canonicalGroupKey g.key).Nodup
  opened : ∀ g ∈ groups, g.key ∈ keys
  covered : ∀ key ∈ keys, ∃ g ∈ groups, canonicalGroupKey g.key = canonicalGroupKey key

omit [NumberOrder N] in
theorem Accounts.grouped (held : Accounts keys accounts) :
    Grouped keys (accounts.map fun account => account.2.result) := by
  have names : (accounts.map fun account => account.2.result).map
      (fun g => canonicalGroupKey g.key) = accounts.map Prod.fst := by
    rw [List.map_map]
    exact List.map_congr_left fun account member => (held.named account member).symm
  refine ⟨names ▸ held.nodup, fun g member => ?_, fun key member => ?_⟩
  · obtain ⟨account, inside, rfl⟩ := List.mem_map.mp member
    exact held.opened account inside
  · have known := held.covered key member
    rw [← names] at known
    exact List.mem_map.mp known

end Accounts

/-! ## The order of the groups -/

/-- The comparison under which the groups are sorted. -/
def before (g h : GroupResult N) : Bool :=
  decide (Query.compare g.key h.key = .lt)

/-- The comparison is transitive on some values, and those that it calls equal are
in one group. -/
def Separated (keys : Set (Value N)) : Prop :=
  (∀ a ∈ keys, ∀ b ∈ keys, Query.compare a b = .eq → canonicalGroupKey a = canonicalGroupKey b) ∧
    ∀ a ∈ keys, ∀ b ∈ keys, ∀ c ∈ keys,
      Query.compare a b = .lt → Query.compare b c = .lt → Query.compare a c = .lt

section Order

variable [trans : Std.TransCmp (NumberOrder.compare (N := N))] {keys : Set (Value N)}
  {groups : List (GroupResult N)} {a b : Value N}

theorem compare_eq_gt : Query.compare a b = .gt ↔ Query.compare b a = .lt := by
  rw [compare_swap, Ordering.swap_eq_gt]

theorem before_asymm (g h : GroupResult N) (forth : before g h = true) : before h g = false := by
  have less : Query.compare g.key h.key = .lt := of_decide_eq_true forth
  have more := compare_eq_gt.mpr less
  rw [before, more]
  rfl

/-- Where groups have one order, their values are separated. -/
theorem Grouped.separated (grouped : Grouped keys groups) (weak : Weak before groups)
    (total : ∀ g ∈ groups, ∀ h ∈ groups, g ≠ h → before g h = true ∨ before h g = true) :
    Separated keys := by
  have equal : ∀ a ∈ keys, ∀ b ∈ keys, Query.compare a b = .eq →
      canonicalGroupKey a = canonicalGroupKey b := by
    intro a inA b inB same
    obtain ⟨g, inG, groupA⟩ := grouped.covered a inA
    obtain ⟨h, inH, groupB⟩ := grouped.covered b inB
    by_contra differ
    have tied : Query.compare g.key h.key = .eq := by
      rw [compare_congr groupA, compare_congr_right groupB, same]
    have apart : g ≠ h := by
      rintro rfl
      exact differ (groupA.symm.trans groupB)
    rcases total g inG h inH apart with less | less
    · rw [before, tied] at less
      cases less
    · rw [before, compare_swap, tied] at less
      cases less
  refine ⟨equal, fun a inA b inB c inC first second => ?_⟩
  obtain ⟨g, inG, groupA⟩ := grouped.covered a inA
  obtain ⟨h, inH, groupB⟩ := grouped.covered b inB
  obtain ⟨k, inK, groupC⟩ := grouped.covered c inC
  have forth : before g h = true := by
    rw [before, compare_congr groupA, compare_congr_right groupB, first]
    rfl
  have onward : before h k = true := by
    rw [before, compare_congr groupB, compare_congr_right groupC, second]
    rfl
  have reached := weak.trans g inG h inH k inK (before_asymm _ _ forth) (before_asymm _ _ onward)
  rw [before, compare_congr groupC, compare_congr_right groupA] at reached
  rcases found : Query.compare a c with - | - | -
  · rfl
  · rw [← compare_congr_right (equal a inA c inC found), ← compare_eq_gt, first] at second
    cases second
  · rw [compare_eq_gt.mp found] at reached
    cases reached

theorem Grouped.weak (grouped : Grouped keys groups) (separated : Separated keys) :
    Weak before groups := by
  refine ⟨fun g _ h _ => before_asymm g h, fun g inG h inH k inK above above' => ?_⟩
  have notLess : Query.compare h.key g.key ≠ .lt := of_decide_eq_false above
  have notLess' : Query.compare k.key h.key ≠ .lt := of_decide_eq_false above'
  refine decide_eq_false ?_
  rcases first : Query.compare g.key h.key with - | - | -
  · rcases second : Query.compare h.key k.key with - | - | -
    · have whole := separated.2 _ (grouped.opened g inG) _ (grouped.opened h inH) _
        (grouped.opened k inK) first second
      rw [compare_eq_gt.mpr whole]
      exact nofun
    · have same := separated.1 _ (grouped.opened h inH) _ (grouped.opened k inK) second
      rwa [← compare_congr same]
    · exact absurd (compare_eq_gt.mp second) notLess'
  · have same := separated.1 _ (grouped.opened g inG) _ (grouped.opened h inH) first
    rwa [compare_congr_right same]
  · exact absurd (compare_eq_gt.mp first) notLess

/-- Groups can be emitted in one order exactly if their values are separated. -/
theorem Grouped.unique_iff (grouped : Grouped keys groups) :
    (∀ out out', Arranged before groups out → Arranged before groups out' → out = out') ↔
      Separated keys := by
  rw [arranged_unique_iff grouped.apart.of_map before_asymm]
  constructor
  · rintro ⟨weak, total⟩
    exact grouped.separated weak total
  · intro separated
    refine ⟨grouped.weak separated, fun g inG h inH differ => ?_⟩
    rcases found : Query.compare g.key h.key with - | - | -
    · exact .inl (decide_eq_true found)
    · have same := separated.1 _ (grouped.opened g inG) _ (grouped.opened h inH) found
      exact absurd (List.inj_on_of_nodup_map grouped.apart inG inH same) differ
    · exact .inr (decide_eq_true (compare_eq_gt.mp found))

end Order

variable [Arithmetic N] {spec : AggregateSpec} {groups : List (GroupResult N)}

/-- A run may emit the groups in this order. -/
def Emits (search : Search N) (w : World N) (spec : AggregateSpec)
    (out : List (GroupResult N)) : Prop :=
  ∃ groups, aggregateGroups id search w spec = .ok groups ∧ Arranged before groups out

theorem aggregateGroups_eq_ok (accepted : aggregateGroups id search w spec = .ok groups) :
    (spec.groupBy = "" ∧ ∃ n, groups = [countResult n]) ∨
      ∃ rows, matching search w spec.filter = .ok rows ∧
        Grouped { key | ∃ r ∈ rows, groupKey spec r = key } groups := by
  rw [aggregateGroups] at accepted
  split at accepted
  · cases accepted
  · split at accepted
    · cases accepted
    · split_ifs at accepted with bare
      · obtain ⟨n, -, rfl⟩ := ok_of_map accepted
        exact .inl ⟨bare.1, n, rfl⟩
      · obtain ⟨accounts, ran, rfl⟩ := ok_of_map accepted
        rw [forEachMatch_eq_foldl (fun groups r => addRow spec r groups)] at ran
        obtain ⟨rows, visited, rfl⟩ := ok_of_map ran
        have none? : Accounts (∅ : Set (Value N)) [] :=
          ⟨List.nodup_nil, List.forall_mem_nil _, List.forall_mem_nil _, fun _ => False.elim⟩
        have grouped := (none?.rows spec rows).grouped
        rw [Set.empty_union] at grouped
        exact .inr ⟨rows, visited, grouped⟩

/-- An aggregation emits its groups in one order exactly if the comparison is
transitive on the values by which the matching rows are grouped, and calls no two
of them equal that are in different groups. -/
theorem emitted_order_unique_iff [Std.TransCmp (NumberOrder.compare (N := N))]
    (accepted : aggregateGroups id search w spec = .ok groups) :
    (∀ out out', Emits search w spec out → Emits search w spec out' → out = out') ↔
      ∀ rows, matching search w spec.filter = .ok rows →
        Separated { key | ∃ r ∈ rows, groupKey spec r = key } := by
  have emits (out : List (GroupResult N)) : Emits search w spec out ↔ Arranged before groups out := by
    constructor
    · rintro ⟨_, ran, arranged⟩
      cases accepted.symm.trans ran
      exact arranged
    · exact fun arranged => ⟨groups, accepted, arranged⟩
  simp only [emits]
  rcases aggregateGroups_eq_ok accepted with ⟨bare, n, rfl⟩ | ⟨rows, visited, grouped⟩
  · -- a single group, and its value is null
    refine iff_of_true (fun out out' arranged arranged' => ?_) fun rows _ => ?_
    · rw [List.perm_singleton.mp arranged.perm, List.perm_singleton.mp arranged'.perm]
    · have null : ∀ key ∈ { key | ∃ r ∈ rows, groupKey spec r = key }, key = .null := by
        rintro _ ⟨r, -, rfl⟩
        exact if_pos bare
      refine ⟨fun a inA b inB _ => ?_, fun a inA b inB c _ less => ?_⟩
      · rw [null a inA, null b inB]
      · rw [null a inA, null b inB, compare_of_text (.inl rfl), Std.ReflOrd.compare_self] at less
        cases less
  · rw [grouped.unique_iff]
    constructor
    · intro separated rows' visited'
      cases visited.symm.trans visited'
      exact separated
    · exact fun all => all rows visited

section Examples

open Counts (reached searchAt)
open Engine.Sequential (fresh smallConfig stillEnv oneField)

theorem ok_of_toOption {α : Type} {outcome : Except Error α} {a : α}
    (some : outcome.toOption = some a) : outcome = .ok a := by
  cases outcome with
  | error => cases some
  | ok => exact congrArg _ (Option.some.inj some)

/-- Records after one another. -/
def holding (records : List (Data Int)) : World Int :=
  reached (fresh smallConfig none .asWritten)
    (records.map fun data => .request stillEnv (.call (.insert (some data) none)))

def text (value : String) : Data Int := ⟨[("a", .str value)], rfl⟩

def byA : AggregateSpec := ⟨.matchAll, "a", ""⟩

def counted (key : Value Int) (count : Nat) : GroupResult Int :=
  ⟨key, count, 0, 0, 0, 0, false⟩

/-- Three records in two groups. -/
def numbered : World Int :=
  holding [oneField "a" 2, oneField "a" 1, oneField "a" 2]

set_option maxRecDepth 4000 in
/-- Two numbers have one order. -/
theorem emitted_order_unique_numbers :
    Emits (searchAt 0) numbered byA [counted (.num 1) 1, counted (.num 2) 2] ∧
      ∀ out, Emits (searchAt 0) numbered byA out →
        out = [counted (.num 1) 1, counted (.num 2) 2] := by
  have ran : aggregateGroups id (searchAt 0) numbered byA =
      .ok [counted (.num 2) 2, counted (.num 1) 1] := ok_of_toOption (by decide +kernel)
  have emits : Emits (searchAt 0) numbered byA [counted (.num 1) 1, counted (.num 2) 2] :=
    ⟨_, ran, .swap _ _ _, fun _ => by decide⟩
  refine ⟨emits, fun out emits' => (emitted_order_unique_iff ran).mpr ?_ out _ emits' emits⟩
  intro rows visited
  have values : ((matching (searchAt 0) numbered byA.filter).map fun rows =>
      rows.map (groupKey byA)).toOption = some [.num 2, .num 1, .num 2] := by decide +kernel
  rw [visited] at values
  have inside (key : Value Int) (member : key ∈ { key | ∃ r ∈ rows, groupKey byA r = key }) :
      key ∈ [.num 2, .num 1, .num 2] := by
    obtain ⟨r, visited, rfl⟩ := member
    rw [← Option.some.inj values]
    exact List.mem_map_of_mem visited
  have separated : Separated { key : Value Int | key ∈ [.num 2, .num 1, .num 2] } := by
    simp only [Separated, Set.mem_ofPred_eq]
    decide +kernel
  exact ⟨fun a inA b inB => separated.1 a (inside a inA) b (inside b inB),
    fun a inA b inB c inC => separated.2 a (inside a inA) b (inside b inB) c (inside c inC)⟩

set_option maxRecDepth 4000 in
/-- The number 1 and the text `1` are two groups, and neither comes first. -/
theorem equal_texts_unordered :
    Emits (searchAt 0) (holding [oneField "a" 1, text "1"]) byA
        [counted (.num 1) 1, counted (.str "1") 1] ∧
      Emits (searchAt 0) (holding [oneField "a" 1, text "1"]) byA
        [counted (.str "1") 1, counted (.num 1) 1] := by
  have ran : aggregateGroups id (searchAt 0) (holding [oneField "a" 1, text "1"]) byA =
      .ok [counted (.num 1) 1, counted (.str "1") 1] := ok_of_toOption (by decide +kernel)
  exact ⟨⟨_, ran, .refl _, fun _ => by decide⟩, ⟨_, ran, .swap _ _ _, fun _ => by decide⟩⟩

end Examples

end Scriva.Engine.Groups
