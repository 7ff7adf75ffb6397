import Scriva.Engine.Queries

/-!
# The order of sorted scans

Rows are compared field by field, and by id last.  Two numbers compare as
numbers and any other two values by their text, so the comparison of values is
a total preorder only where both orders fit together: no value that is not a
number may stand between two numbers in the order of text against the order of
the numbers.  Under this condition the order of rows with distinct ids is strict
and total, for any fields and directions.
-/

namespace Scriva.Engine.SortOrder

open Store.Record Queries
open Query (NumberOrder)

/-- A test puts the members of a set into a strict total order. -/
structure StrictTotal {α : Type} (less : α → α → Bool) (rows : Set α) : Prop where
  irreflexive : ∀ a ∈ rows, less a a = false
  transitive : ∀ a ∈ rows, ∀ b ∈ rows, ∀ c ∈ rows,
    less a b = true → less b c = true → less a c = true
  total : ∀ a ∈ rows, ∀ b ∈ rows, a ≠ b → less a b = true ∨ less b a = true

/-- A comparison of the members of a set. -/
def within {α : Type} (cmp : α → α → Ordering) (rows : Set α) (a b : rows) : Ordering :=
  cmp a b

/-- What comes before in a comparison that is transitive on a set, and tells its
members apart, is a strict total order there. -/
theorem strictTotal_of_transCmp {α : Type} {cmp : α → α → Ordering} {rows : Set α}
    (trans : Std.TransCmp (within cmp rows))
    (apart : ∀ a ∈ rows, ∀ b ∈ rows, cmp a b = .eq → a = b) :
    StrictTotal (fun a b => decide (cmp a b = .lt)) rows where
  irreflexive a member := by
    have same : within cmp rows ⟨a, member⟩ ⟨a, member⟩ = .eq := Std.ReflCmp.compare_self
    have same : cmp a a = .eq := same
    rw [same]
    rfl
  transitive a inA b inB c inC first second := by
    have before : within cmp rows ⟨a, inA⟩ ⟨b, inB⟩ = .lt := of_decide_eq_true first
    have after : within cmp rows ⟨b, inB⟩ ⟨c, inC⟩ = .lt := of_decide_eq_true second
    have whole := Std.TransCmp.lt_trans before after
    exact decide_eq_true whole
  total a inA b inB differ := by
    rcases found : cmp a b with - | - | -
    · exact Or.inl rfl
    · exact absurd (apart a inA b inB found) differ
    · have after : within cmp rows ⟨a, inA⟩ ⟨b, inB⟩ = .gt := found
      have before := Std.OrientedCmp.gt_iff_lt.mp after
      exact Or.inr (decide_eq_true before)

variable {N : Type} [JsonNumber N] [NumberOrder N]

/-! ## Comparing values -/

def isNum : Value N → Bool
  | .num _ => true
  | _ => false

variable {a b : Value N}

theorem compare_of_text (text : isNum a = false ∨ isNum b = false) :
    Query.compare a b = Ord.compare (sprint a) (sprint b) := by
  unfold Query.compare
  split
  · rcases text with absurd | absurd
    · cases absurd
    · cases absurd
  · rfl

omit [JsonNumber N] [NumberOrder N] in
theorem exists_num {v : Value N} (number : isNum v = true) : ∃ n, v = .num n := by
  cases v with
  | num n => exact ⟨n, rfl⟩
  | null | bool | str | arr | obj => cases number

variable [trans : Std.TransCmp (NumberOrder.compare (N := N))]

theorem compare_swap (a b : Value N) : Query.compare a b = (Query.compare b a).swap := by
  by_cases numbers : isNum a = true ∧ isNum b = true
  · obtain ⟨m, rfl⟩ := exists_num numbers.1
    obtain ⟨n, rfl⟩ := exists_num numbers.2
    have swapped : NumberOrder.compare m n = (NumberOrder.compare n m).swap :=
      Std.OrientedCmp.eq_swap
    exact swapped
  · have text : isNum a = false ∨ isNum b = false := by
      rw [not_and_or, Bool.not_eq_true, Bool.not_eq_true] at numbers
      exact numbers
    rw [compare_of_text text, compare_of_text text.symm]
    exact Std.OrientedOrd.eq_swap

theorem lt_of_not_isLE (above : ¬(Query.compare a b).isLE = true) : Query.compare b a = .lt := by
  rw [compare_swap]
  rcases found : Query.compare a b with - | - | -
  · rw [found] at above
    exact absurd rfl above
  · rw [found] at above
    exact absurd rfl above
  · rfl

theorem not_isLE_of_lt {m n : N} (less : NumberOrder.compare m n = .lt) :
    ¬(NumberOrder.compare n m).isLE = true := by
  have after : NumberOrder.compare n m = .gt := Std.OrientedCmp.gt_of_lt less
  rw [after]
  exact Bool.false_ne_true

/-- The orders of numbers and of text fit together on some values: a value that
is not a number stands between two numbers in the order of text only if the
numbers are in that order, and between equal numbers only if all three have one
text. -/
def Consistent (values : Set (Value N)) : Prop :=
  ∀ (m n : N) (v : Value N), .num m ∈ values → .num n ∈ values → v ∈ values → isNum v = false →
    (Query.compare (.num m) v).isLE = true → (Query.compare v (.num n)).isLE = true →
      NumberOrder.compare m n = .lt ∨
        NumberOrder.compare m n = .eq ∧ Query.compare (.num m) v = .eq ∧
          Query.compare v (.num n) = .eq

variable {values : Set (Value N)} {c : Value N} {rows : Set (SortRow N)} {fields : List SortField}
  {i j k : Nat}

/-- Where the orders fit together, the comparison of values is transitive: only
two numbers and another value have to be looked at, since any other three values
are compared in one way. -/
theorem Consistent.isLE_trans (consistent : Consistent values) (inA : a ∈ values) (inB : b ∈ values)
    (inC : c ∈ values) (first : (Query.compare a b).isLE = true)
    (second : (Query.compare b c).isLE = true) : (Query.compare a c).isLE = true := by
  rcases numA : isNum a with - | -
  · rcases numB : isNum b with - | -
    · rw [compare_of_text (Or.inl numA)] at first ⊢
      rw [compare_of_text (Or.inl numB)] at second
      exact Std.TransOrd.isLE_trans first second
    · rcases numC : isNum c with - | -
      · rw [compare_of_text (Or.inl numA)] at first ⊢
        rw [compare_of_text (Or.inr numC)] at second
        exact Std.TransOrd.isLE_trans first second
      · obtain ⟨m, rfl⟩ := exists_num numB
        obtain ⟨n, rfl⟩ := exists_num numC
        by_contra above
        have below : Query.compare (.num n) a = .lt := lt_of_not_isLE above
        rcases consistent n m a inC inB inA numA (by rw [below]; rfl) first with less | ⟨-, same, -⟩
        · exact not_isLE_of_lt less second
        · rw [below] at same
          cases same
  · rcases numB : isNum b with - | -
    · rcases numC : isNum c with - | -
      · rw [compare_of_text (Or.inr numB)] at first
        rw [compare_of_text (Or.inl numB)] at second
        rw [compare_of_text (Or.inr numC)]
        exact Std.TransOrd.isLE_trans first second
      · obtain ⟨m, rfl⟩ := exists_num numA
        obtain ⟨n, rfl⟩ := exists_num numC
        change (NumberOrder.compare m n).isLE = true
        rcases consistent m n b inA inC inB numB first second with less | ⟨same, -⟩
        · rw [less]
          rfl
        · rw [same]
          rfl
    · rcases numC : isNum c with - | -
      · obtain ⟨m, rfl⟩ := exists_num numA
        obtain ⟨n, rfl⟩ := exists_num numB
        by_contra above
        have below : Query.compare c (.num m) = .lt := lt_of_not_isLE above
        rcases consistent n m c inB inA inC numC second (by rw [below]; rfl) with less | ⟨-, -, same⟩
        · exact not_isLE_of_lt less first
        · rw [below] at same
          cases same
      · obtain ⟨m, rfl⟩ := exists_num numA
        obtain ⟨n, rfl⟩ := exists_num numB
        obtain ⟨k, rfl⟩ := exists_num numC
        have before : (NumberOrder.compare m n).isLE = true := first
        have after : (NumberOrder.compare n k).isLE = true := second
        have whole := Std.TransCmp.isLE_trans before after
        exact whole

/-! ## Comparing rows -/

/-- The result of a comparison in a direction. -/
def directed (desc : Bool) (result : Ordering) : Ordering :=
  if desc then result.swap else result

def fieldOrder (sf : SortField) (a b : SortRow N) : Ordering :=
  directed sf.desc (Query.compare (a.value sf.field) (b.value sf.field))

/-- The fields in turn, and the id last. -/
def sortOrder : List SortField → SortRow N → SortRow N → Ordering
  | [], a, b => Ord.compare a.id b.id
  | sf :: fields, a, b => compareLex (fieldOrder sf) (sortOrder fields) a b

omit trans in
theorem sortLess_cons (sf : SortField) (fields : List SortField) (a b : SortRow N) :
    sortLess (sf :: fields) a b =
      match fieldOrder sf a b with
      | .lt => true
      | .gt => false
      | .eq => sortLess fields a b :=
  rfl

omit trans in
theorem sortLess_eq (fields : List SortField) (a b : SortRow N) :
    sortLess fields a b = decide (sortOrder fields a b = .lt) := by
  induction fields with
  | nil =>
    rw [sortLess, sortOrder]
    exact decide_eq_decide.mpr Nat.compare_eq_lt.symm
  | cons sf fields ih =>
    rw [sortLess_cons, sortOrder, compareLex]
    rcases fieldOrder sf a b with - | - | -
    · rfl
    · exact ih
    · rfl

/-- Where the values of a field fit together, rows are compared by it
transitively. -/
theorem transCmp_fieldOrder (consistent : Consistent values) {sf : SortField}
    (inside : ∀ row ∈ rows, row.value sf.field ∈ values) :
    Std.TransCmp (within (fieldOrder sf) rows) where
  eq_swap {a b} := by
    change directed _ _ = (directed _ _).swap
    rw [compare_swap]
    cases sf.desc with
    | false => rfl
    | true => rfl
  isLE_trans {a b c} first second := by
    change (directed _ _).isLE = true at first second ⊢
    have inA := inside a a.2
    have inB := inside b b.2
    have inC := inside c c.2
    cases direction : sf.desc with
    | false =>
      rw [direction] at first second
      exact consistent.isLE_trans inA inB inC first second
    | true =>
      rw [direction] at first second
      change (Query.compare _ _).swap.isLE = true at first second ⊢
      rw [← compare_swap] at first second ⊢
      exact consistent.isLE_trans inC inB inA second first

omit trans in
theorem transCmp_sortOrder (each : ∀ sf ∈ fields, Std.TransCmp (within (fieldOrder sf) rows)) :
    Std.TransCmp (within (sortOrder fields) rows) := by
  induction fields with
  | nil =>
    exact inferInstanceAs (Std.TransCmp (compareOn fun row : rows => row.1.id))
  | cons sf fields ih =>
    have first := each sf (.head _)
    have rest := ih fun other member => each other (.tail _ member)
    exact inferInstanceAs (Std.TransCmp (compareLex (within (fieldOrder sf) rows)
      (within (sortOrder fields) rows)))

omit trans in
theorem id_of_sortOrder {a b : SortRow N} (same : sortOrder fields a b = .eq) : a.id = b.id := by
  induction fields with
  | nil => exact Nat.compare_eq_eq.mp same
  | cons sf fields ih =>
    rw [sortOrder, compareLex, Ordering.then_eq_eq] at same
    exact ih same.2

theorem strictTotal_sortLess {allowed : String → Set (Value N)}
    (consistent : ∀ field, Consistent (allowed field))
    (inside : ∀ row ∈ rows, ∀ sf ∈ fields, row.value sf.field ∈ allowed sf.field)
    (distinct : rows.InjOn SortRow.id) : StrictTotal (sortLess fields) rows := by
  have each (sf : SortField) (member : sf ∈ fields) :
      Std.TransCmp (within (fieldOrder sf) rows) :=
    transCmp_fieldOrder (consistent sf.field) fun row present => inside row present sf member
  have ordered := strictTotal_of_transCmp (transCmp_sortOrder each) fun a inA b inB same =>
    distinct inA inB (id_of_sortOrder same)
  have same : sortLess fields =
      fun a b : SortRow N => decide (sortOrder fields a b = .lt) :=
    funext fun a => funext fun b => sortLess_eq fields a b
  rw [same]
  exact ordered

/-! ## Where the orders do not fit together -/

/-- A row with one value. -/
def single (value : Value N) (id : Nat) : SortRow N :=
  ⟨fun _ => value, id⟩

section

omit trans

theorem sortLess_single (field : String)
    (before : Query.compare a b = .lt ∨ Query.compare a b = .eq ∧ i < j) :
    sortLess [⟨field, false⟩] (single a i) (single b j) = true := by
  have order : fieldOrder ⟨field, false⟩ (single a i) (single b j) = Query.compare a b := rfl
  rw [sortLess_cons, order]
  rcases before with less | ⟨same, lower⟩
  · rw [less]
  · rw [same]
    exact decide_eq_true lower

theorem not_sortLess_single (field : String)
    (after : Query.compare a b = .gt ∨ Query.compare a b = .eq ∧ j ≤ i) :
    sortLess [⟨field, false⟩] (single a i) (single b j) = false := by
  have order : fieldOrder ⟨field, false⟩ (single a i) (single b j) = Query.compare a b := rfl
  rw [sortLess_cons, order]
  rcases after with greater | ⟨same, higher⟩
  · rw [greater]
  · rw [same]
    exact decide_eq_false (not_lt.mpr higher)

/-- Rows with three values out of order are not in a strict total order, if the
ids of rows with equal values are given suitably. -/
theorem not_strictTotal (field : String)
    (first : Query.compare a b = .lt ∨ Query.compare a b = .eq ∧ i < j)
    (second : Query.compare b c = .lt ∨ Query.compare b c = .eq ∧ j < k)
    (last : Query.compare a c = .gt ∨ Query.compare a c = .eq ∧ k ≤ i) :
    ¬StrictTotal (sortLess [⟨field, false⟩]) {single a i, single b j, single c k} := by
  intro ordered
  have whole := ordered.transitive (single a i) (by simp) (single b j) (by simp) (single c k)
    (by simp) (sortLess_single field first) (sortLess_single field second)
  rw [not_sortLess_single field last] at whole
  cases whole

end

omit [JsonNumber N] [NumberOrder N] trans in
theorem injOn_single (ij : i ≠ j) (ik : i ≠ k) (jk : j ≠ k) :
    Set.InjOn SortRow.id {single a i, single b j, single c k} := by
  rintro x (rfl | rfl | rfl) y (rfl | rfl | rfl) same
  · rfl
  · exact absurd same ij
  · exact absurd same ik
  · exact absurd same ij.symm
  · rfl
  · exact absurd same jk
  · exact absurd same ik.symm
  · exact absurd same jk.symm
  · rfl

omit trans in
/-- If any rows with the allowed values are ordered well by a field, the orders
fit together on these values. -/
theorem consistent_of_strictTotal (field : String)
    (ordered : ∀ rows : Set (SortRow N), (∀ row ∈ rows, row.value field ∈ values) →
      rows.InjOn SortRow.id → StrictTotal (sortLess [⟨field, false⟩]) rows) :
    Consistent values := by
  intro m n v inM inN inV _ below above
  have inside (i j k : Nat) : ∀ row ∈ ({single (.num m) i, single v j, single (.num n) k} :
      Set (SortRow N)), row.value field ∈ values := by
    rintro row (rfl | rfl | rfl)
    · exact inM
    · exact inV
    · exact inN
  -- the ids decide between equal values
  rcases found : NumberOrder.compare m n with - | - | -
  · exact Or.inl rfl
  · have tied : Query.compare (.num m) (.num n) = .eq := found
    rcases Ordering.isLE_iff_eq_lt_or_eq_eq.mp below with less | same
    · refine absurd (ordered _ (inside 3 1 2) (injOn_single (by decide) (by decide) (by decide))) ?_
      refine not_strictTotal field (Or.inl less) ?_ (Or.inr ⟨tied, by decide⟩)
      exact (Ordering.isLE_iff_eq_lt_or_eq_eq.mp above).imp_right fun same => ⟨same, by decide⟩
    · rcases Ordering.isLE_iff_eq_lt_or_eq_eq.mp above with less | same'
      · refine absurd
          (ordered _ (inside 2 3 1) (injOn_single (by decide) (by decide) (by decide))) ?_
        exact not_strictTotal field (Or.inr ⟨same, by decide⟩) (Or.inl less)
          (Or.inr ⟨tied, by decide⟩)
      · exact Or.inr ⟨rfl, same, same'⟩
  · refine absurd (ordered _ (inside 1 2 3) (injOn_single (by decide) (by decide) (by decide))) ?_
    refine not_strictTotal field ?_ ?_ (Or.inl found)
    · exact (Ordering.isLE_iff_eq_lt_or_eq_eq.mp below).imp_right fun same => ⟨same, by decide⟩
    · exact (Ordering.isLE_iff_eq_lt_or_eq_eq.mp above).imp_right fun same => ⟨same, by decide⟩

/-- The order of rows with distinct ids is strict and total, for any fields and
directions, exactly if the values of every field fit together. -/
theorem sortLess_strict_total_iff (allowed : String → Set (Value N)) :
    (∀ (fields : List SortField) (rows : Set (SortRow N)),
        (∀ row ∈ rows, ∀ sf ∈ fields, row.value sf.field ∈ allowed sf.field) →
          rows.InjOn SortRow.id → StrictTotal (sortLess fields) rows) ↔
      ∀ field, Consistent (allowed field) := by
  constructor
  · intro ordered field
    refine consistent_of_strictTotal field fun rows inside distinct => ?_
    refine ordered [⟨field, false⟩] rows (fun row member sf listed => ?_) distinct
    obtain rfl := List.mem_singleton.mp listed
    exact inside row member
  · intro consistent fields rows inside distinct
    exact strictTotal_sortLess consistent inside distinct

/-! ## Numbers and text in one field -/

instance : Std.TransCmp (NumberOrder.compare (N := Int)) :=
  inferInstanceAs (Std.TransCmp (Ord.compare : Int → Int → Ordering))

omit trans in
theorem consistent_of_isNum (numbers : ∀ v ∈ values, isNum v = true) : Consistent values := by
  intro m n v _ _ member text
  rw [numbers v member] at text
  cases text

/-- The ages of two people, the older one first, are ordered well. -/
theorem sortLess_strict_total_ages :
    StrictTotal (sortLess [⟨"age", true⟩])
      ({single (.num 9) 1, single (.num 10) 2} : Set (SortRow Int)) := by
  refine (sortLess_strict_total_iff (N := Int) fun _ => { v | isNum v = true }).mpr
    (fun _ => consistent_of_isNum fun _ number => number) [⟨"age", true⟩] _ ?_ ?_
  · rintro row (rfl | rfl) sf -
    · rfl
    · rfl
  · rintro x (rfl | rfl) y (rfl | rfl) same
    · rfl
    · cases same
    · cases same
    · rfl

/-- Two comes before ten and ten before the text `15`, which comes before two. -/
theorem mixed_values_cycle :
    sortLess [⟨"v", false⟩] (single (.num 2) 1) (single (.num 10) 2 : SortRow Int) = true ∧
      sortLess [⟨"v", false⟩] (single (.num 10) 2) (single (.str "15") 3 : SortRow Int) = true ∧
      sortLess [⟨"v", false⟩] (single (.num 2) 1) (single (.str "15") 3 : SortRow Int) = false := by
  decide +kernel

end Scriva.Engine.SortOrder
