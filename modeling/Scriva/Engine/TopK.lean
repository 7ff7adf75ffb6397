import Scriva.Engine.SortOrder

/-!
# Bounded pages

An ordered scan with a limit keeps the smallest rows that it has met in a heap, with
the largest of them first, and sorts them at the end.  After every row the heap
has the smallest rows so far, so the page is the one that a sort of all rows would
give.

The capacity of the heap is the sum of the offset and the limit.  If the sum does not
fit into 64 bits nothing is kept at all.
-/

namespace Scriva.Engine.TopK

open Lib.Heap Lib.Sorted Queries
open SortOrder (StrictTotal)

variable {α : Type} {less : α → α → Bool} {cap : Nat} {rows seen buffer : List α} {row : α}

/-- A heap with the smallest of the rows seen, the largest of these first. -/
structure Kept (less : α → α → Bool) (cap : Nat) (seen buffer : List α) : Prop where
  heaped : Heaped (fun a b => less b a) buffer
  few : buffer.length ≤ cap
  smallest : ∃ rest, (buffer ++ rest).Perm seen ∧
    (∀ a ∈ buffer, ∀ b ∈ rest, less b a = false) ∧ (rest ≠ [] → buffer.length = cap)

theorem kept_nil (less : α → α → Bool) (cap : Nat) : Kept less cap [] [] where
  heaped _ _ := rfl
  few := Nat.zero_le _
  smallest := ⟨[], .refl _, List.forall_mem_nil _, fun some => absurd rfl some⟩

theorem weak_flip (weak : Weak less seen) : Weak (fun a b => less b a) seen where
  asymm a inA b inB before := weak.asymm b inB a inA before
  trans a inA b inB c inC lower upper := weak.trans c inC b inB a inA upper lower

/-- The first row that is kept is the largest. -/
theorem Kept.largest {first : α} {others : List α} (kept : Kept less cap seen (first :: others))
    (weak : Weak less seen) : ∀ a ∈ first :: others, less first a = false := by
  intro a member
  obtain ⟨rest, perm, -⟩ := kept.smallest
  have part := (List.append_subset.mp perm.subset).1
  obtain ⟨i, inside, rfl⟩ := List.getElem_of_mem member
  have root := kept.heaped.first (weak_flip (weak.subset part)) i
  rwa [before_of_lt inside (Nat.zero_lt_succ _)] at root

/-- A row that is pushed. -/
theorem Kept.push (kept : Kept less cap seen buffer) (weak : Weak less (row :: seen)) :
    Kept less cap (row :: seen) (topKPush less cap buffer row) := by
  obtain ⟨heaped, few, rest, perm, below, full⟩ := id kept
  obtain ⟨part, apart⟩ := List.append_subset.mp
    (List.Subset.trans perm.subset (List.subset_cons_self row seen))
  have here : row ∈ row :: seen := .head _
  rw [topKPush.eq_def]
  split_ifs with none room
  · obtain rfl := List.eq_nil_of_length_eq_zero (Nat.le_zero.mp (few.trans_eq none))
    exact ⟨heaped, few, row :: rest, perm.cons row, List.forall_mem_nil _, fun _ => none.symm⟩
  · -- nothing has been left out so far
    obtain rfl : rest = [] := by
      by_contra some
      exact absurd (full some) (Nat.ne_of_lt room)
    rw [List.append_nil] at perm
    obtain ⟨pushed, heaped⟩ := heaped_push heaped (weak_flip (weak.subset (by
      rw [List.append_subset]
      exact ⟨part, List.cons_subset.mpr ⟨here, List.nil_subset _⟩⟩)))
    refine ⟨heaped, ?_, [], ?_, fun _ _ => List.forall_mem_nil _, fun some => absurd rfl some⟩
    · rw [pushed.length_eq]
      exact room
    · rw [List.append_nil]
      exact pushed.trans (perm.cons row)
  · cases buffer with
    | nil => exact absurd (Nat.pos_of_ne_zero none) room
    | cons first others =>
      have largest := kept.largest (weak.subset (List.subset_cons_self _ _))
      have whole : (first :: others).length = cap := le_antisymm few (not_lt.mp room)
      have inFirst : first ∈ row :: seen := part (.head _)
      change Kept less cap (row :: seen) (if less row first then _ else _)
      split_ifs with smaller
      · -- the largest row makes room
        have members : row :: others ⊆ row :: seen :=
          List.cons_subset.mpr ⟨here, (List.cons_subset.mp part).2⟩
        obtain ⟨fixed, heaped⟩ := heaped_fix heaped (weak_flip (weak.subset members))
        have behind := weak.asymm row here first inFirst smaller
        refine ⟨heaped, ?_, first :: rest, ?_, fun a inA b inB => ?_, fun _ => ?_⟩
        · rw [fixed.length_eq]
          exact few
        · exact (fixed.append_right _).trans
            ((List.perm_middle.cons row).trans (perm.cons row))
        · rcases List.mem_cons.mp (fixed.subset inA) with rfl | old
          · rcases List.mem_cons.mp inB with rfl | left
            · exact behind
            · exact weak.trans _ here _ inFirst _ (apart left) behind (below _ (.head _) _ left)
          · rcases List.mem_cons.mp inB with rfl | left
            · exact largest a (List.mem_cons_of_mem _ old)
            · exact below a (List.mem_cons_of_mem _ old) b left
        · rw [fixed.length_eq]
          exact whole
      · refine ⟨heaped, few, row :: rest, ?_, fun a inA b inB => ?_, fun _ => whole⟩
        · exact List.perm_middle.trans (perm.cons row)
        · rcases List.mem_cons.mp inB with rfl | left
          · exact weak.trans a (part inA) first inFirst _ here (largest a inA)
              ((Bool.not_eq_true _).mp smaller)
          · exact below a inA b left

theorem weak_of_strictTotal (total : StrictTotal less { r | r ∈ rows }) : Weak less rows where
  asymm a inA b inB forth := by
    by_contra back
    have loop := total.transitive a inA b inB a inA forth ((Bool.not_eq_false _).mp back)
    rw [total.irreflexive a inA] at loop
    cases loop
  trans a inA b inB c inC lower upper := by
    by_contra wrong
    have down := (Bool.not_eq_false _).mp wrong
    rcases eq_or_ne b c with rfl | differ
    · exact wrong lower
    · rcases total.total b inB c inC differ with forth | back
      · rw [total.transitive b inB c inC a inA forth down] at lower
        cases lower
      · rw [back] at upper
        cases upper

variable {sorter : Sorter} {offset limit : Nat}

/-- What is kept of the rows that have been pushed. -/
def topK (less : α → α → Bool) (offset limit : Nat) (rows : List α) : List α :=
  rows.foldl (topKPush less (topKCap offset limit)) []

theorem kept_topK (capacity : topKCap offset limit = cap) (weak : Weak less rows) :
    Kept less cap rows.reverse (topK less offset limit rows) := by
  induction rows using List.reverseRecOn with
  | nil => exact kept_nil _ _
  | append_singleton rows row ih =>
    have kept := ih (weak.subset (List.subset_append_left _ _))
    rw [topK, List.foldl_append, List.foldl_cons, List.foldl_nil, capacity, List.reverse_append,
      List.reverse_singleton, List.singleton_append]
    rw [topK, capacity] at kept
    refine kept.push (weak.subset ?_)
    rw [List.cons_subset]
    exact ⟨List.mem_append_right _ (.head _), fun a member =>
      List.mem_append_left _ (List.mem_reverse.mp member)⟩

/-- The smallest rows in order are where the order of all rows begins. -/
theorem slice_of_kept (sorts : ∀ items, Arranged less items (sorter.sort less items))
    (kept : Kept less (offset + limit) seen buffer) (perm : seen.Perm rows) (weak : Weak less rows)
    (apart : ∀ a ∈ rows, ∀ b ∈ rows, a ≠ b → less a b = true ∨ less b a = true) :
    ((sorter.sort less buffer).drop offset).take limit =
      ((sorter.sort less rows).drop offset).take limit := by
  obtain ⟨-, -, rest, all, below, full⟩ := kept
  have whole := all.trans perm
  have part := List.append_subset.mp whole.subset
  have front := sorts buffer
  have back := sorts rest
  have arranged : Arranged less rows (sorter.sort less buffer ++ sorter.sort less rest) := by
    refine ⟨(front.perm.append back.perm).trans whole, fun _ => ?_⟩
    refine List.pairwise_append.mpr
      ⟨front.sorted (weak.subset part.1), back.sorted (weak.subset part.2), fun a inA b inB => ?_⟩
    exact below a (front.perm.subset inA) b (back.perm.subset inB)
  rw [(sorts rows).unique weak apart arranged]
  rcases eq_or_ne rest [] with rfl | some
  · rw [back.perm.eq_nil, List.append_nil]
  · have long := front.perm.length_eq.trans (full some)
    rw [List.drop_append_of_le_length (by omega), List.take_append_of_le_length (by
      rw [List.length_drop]
      omega)]

theorem topKCap_of_lt (fits : offset + limit < 2 ^ 63) : topKCap offset limit = offset + limit := by
  unfold topKCap
  rw [Int.bmod_def]
  omega

theorem topKCap_of_ge (first : offset < 2 ^ 63) (second : limit < 2 ^ 63)
    (large : 2 ^ 63 ≤ offset + limit) : topKCap offset limit = 0 := by
  unfold topKCap
  rw [Int.bmod_def]
  omega

/-- With no capacity nothing is kept. -/
theorem topK_of_overflow (none : topKCap offset limit = 0) (weak : Weak less rows) :
    topK less offset limit rows = [] :=
  List.eq_nil_of_length_eq_zero (Nat.le_zero.mp (kept_topK none weak).few)

/-- For every strict total order of the rows and every sort, the heap never has more
rows than the offset and the limit, and the page is the slice of the sorted rows if and
only if the capacity fits its 64 bits or the slice is empty. -/
theorem page_eq_slice_iff {α : Type} (less : α → α → Bool) (sorter : Sorter)
    (sorts : ∀ items, Arranged less items (sorter.sort less items)) (rows : List α)
    (total : StrictTotal less { r | r ∈ rows }) (offset limit : Nat) (positive : 0 < limit)
    (first : offset < 2 ^ 63) (second : limit < 2 ^ 63) :
    (∀ seen, seen <+: rows → (topK less offset limit seen).length ≤ offset + limit) ∧
    (page less sorter offset limit (topK less offset limit rows) =
        ((sorter.sort less rows).drop offset).take limit ↔
      offset + limit < 2 ^ 63 ∨ rows.length ≤ offset) := by
  have weak := weak_of_strictTotal total
  rcases lt_or_ge (offset + limit) (2 ^ 63) with fits | large
  · have kept {seen : List α} (part : seen <+: rows) :=
      kept_topK (topKCap_of_lt fits) (weak.subset part.subset)
    refine ⟨fun seen part => (kept part).few, iff_of_true ?_ (Or.inl fits)⟩
    rw [page, if_pos positive]
    exact slice_of_kept sorts (kept (List.prefix_refl rows)) (List.reverse_perm _) weak total.total
  · have none {seen : List α} (part : seen <+: rows) : topK less offset limit seen = [] :=
      topK_of_overflow (topKCap_of_ge first second large) (weak.subset part.subset)
    refine ⟨fun seen part => ?_, ?_⟩
    · rw [none part]
      exact Nat.zero_le _
    · rw [none (List.prefix_refl rows), page, if_pos positive, (sorts []).perm.eq_nil,
        List.drop_nil, List.take_nil, eq_comm, List.take_eq_nil_iff, List.drop_eq_nil_iff,
        (sorts _).perm.length_eq]
      omega

def smaller (a b : Nat) : Bool :=
  decide (a < b)

theorem arranged_insertion (items : List Nat) :
    Arranged smaller items (Sorter.insertion.sort smaller items) := by
  refine ⟨List.perm_insertionSort _ _, fun _ => ?_⟩
  have total : Std.Total fun a b : Nat => smaller b a = false := ⟨fun a b => by
    simp only [smaller, decide_eq_false_iff_not]
    omega⟩
  have trans : IsTrans Nat fun a b => smaller b a = false := ⟨fun a b c => by
    simp only [smaller, decide_eq_false_iff_not]
    omega⟩
  exact List.pairwise_insertionSort _ _

theorem strictTotal_smaller (rows : Set Nat) : StrictTotal smaller rows where
  irreflexive a _ := decide_eq_false (lt_irrefl a)
  transitive _ _ _ _ _ _ lower upper :=
    decide_eq_true ((of_decide_eq_true lower).trans (of_decide_eq_true upper))
  total _ _ _ _ differ := (lt_or_gt_of_ne differ).imp decide_eq_true decide_eq_true

theorem page_of_five :
    page smaller Sorter.insertion 1 2 (topK smaller 1 2 [5, 1, 4, 2, 3]) = [2, 3] := by
  refine ((page_eq_slice_iff _ _ arranged_insertion [5, 1, 4, 2, 3] (strictTotal_smaller _)
    1 2 (by decide) (by decide) (by decide)).2.mpr (Or.inl (by decide))).trans ?_
  decide

/-- The limit is the largest number and one row is skipped: the sum is negative, and
the page of three rows is empty. -/
theorem large_limit_loses_rows :
    page smaller Sorter.insertion 1 (2 ^ 63 - 1) (topK smaller 1 (2 ^ 63 - 1) [3, 1, 2]) =
        [] ∧
      ((Sorter.insertion.sort smaller [3, 1, 2]).drop 1).take (2 ^ 63 - 1) = [2, 3] := by
  constructor
  · rw [topK_of_overflow (topKCap_of_ge (by decide) (by decide) (by decide))
      (weak_of_strictTotal (strictTotal_smaller _))]
    rfl
  · decide +kernel

end Scriva.Engine.TopK
