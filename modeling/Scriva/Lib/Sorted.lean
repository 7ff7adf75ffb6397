import Mathlib.Data.List.Basic
import Mathlib.Data.List.Pairwise
import Mathlib.Tactic

/-!
# Sorted lists and upward tests

A test that keeps holding from some place of a list on.  The first place at
which it holds splits the list into the elements that fail the test and those
that pass it, so a slice from there is the same as a filter.  In a list that is
sorted strictly this is where an element belongs.

A sort that need not be stable is free to choose where its test leaves ties, and
in all where the test is no order.
-/

namespace Scriva.Lib.Sorted

variable {α : Type} {test : α → Bool} {items : List α}

/-- Once the test holds it keeps holding. -/
def Upward (test : α → Bool) (items : List α) : Prop :=
  items.Pairwise fun a b => test a = true → test b = true

theorem Upward.all {first : α} (upward : Upward test (first :: items))
    (holds : test first = true) : ∀ item ∈ items, test item = true := by
  intro item member
  exact (List.pairwise_cons.mp upward).1 item member holds

theorem Upward.tail {first : α} (upward : Upward test (first :: items)) :
    Upward test items :=
  (List.pairwise_cons.mp upward).2

theorem drop_findIdx (upward : Upward test items) :
    items.drop (items.findIdx test) = items.filter test := by
  induction items with
  | nil => rfl
  | cons first items ih =>
    rw [List.findIdx_cons]
    cases holds : test first with
    | true =>
      rw [List.filter_cons_of_pos holds, List.filter_eq_self.mpr (upward.all holds)]
      rfl
    | false =>
      rw [List.filter_cons_of_neg (by rw [holds]; exact Bool.false_ne_true)]
      exact ih upward.tail

theorem take_findIdx (upward : Upward test items) :
    items.take (items.findIdx test) = items.filter fun item => !test item := by
  induction items with
  | nil => rfl
  | cons first items ih =>
    rw [List.findIdx_cons]
    cases holds : test first with
    | true =>
      rw [List.filter_cons_of_neg (by rw [holds]; exact Bool.false_ne_true)]
      refine (List.filter_eq_nil_iff.mpr ?_).symm
      intro item member
      rw [upward.all holds item member]
      exact Bool.false_ne_true
    | false =>
      rw [List.filter_cons_of_pos (by rw [holds]; rfl)]
      exact congrArg (first :: ·) (ih upward.tail)

/-- Every element from the first one that passes the test on passes it. -/
theorem getElem_of_findIdx_le (upward : Upward test items) {i : Nat}
    (inside : i < items.length) (after : items.findIdx test ≤ i) : test items[i] = true := by
  have member : items[i] ∈ items.drop (items.findIdx test) := by
    rw [List.mem_drop_iff_getElem]
    exact ⟨i - items.findIdx test, by omega, by congr 1; omega⟩
  rw [drop_findIdx upward, List.mem_filter] at member
  exact member.2

/-- An element put in front of those that pass the test. -/
theorem pairwise_insert {less : α → α → Prop} (sorted : items.Pairwise less) {item : α}
    (upward : Upward test items) (before : ∀ other ∈ items, test other = false → less other item)
    (after : ∀ other ∈ items, test other = true → less item other) :
    (items.take (items.findIdx test) ++ item :: items.drop (items.findIdx test)).Pairwise less := by
  have halves := sorted
  rw [← List.take_append_drop (items.findIdx test) items, List.pairwise_append] at halves
  obtain ⟨front, back, across⟩ := halves
  have lower : ∀ other ∈ items.take (items.findIdx test), less other item := by
    intro other member
    have inside := List.mem_of_mem_take member
    rw [take_findIdx upward, List.mem_filter] at member
    exact before other inside ((Bool.not_eq_true' _).mp member.2)
  have upper : ∀ other ∈ items.drop (items.findIdx test), less item other := by
    intro other member
    have inside := List.mem_of_mem_drop member
    rw [drop_findIdx upward, List.mem_filter] at member
    exact after other inside member.2
  rw [List.pairwise_append]
  refine ⟨front, List.pairwise_cons.mpr ⟨upper, back⟩, ?_⟩
  intro left inFront right inBack
  rcases List.mem_cons.mp inBack with rfl | later
  · exact lower left inFront
  · exact across left inFront right later

/-! ## Sorts that are not stable -/

section Arranging

variable (less : α → α → Bool) (items out : List α)

/-- The test orders the members of a list up to ties. -/
structure Weak : Prop where
  asymm : ∀ a ∈ items, ∀ b ∈ items, less a b = true → less b a = false
  trans : ∀ a ∈ items, ∀ b ∈ items, ∀ c ∈ items,
    less b a = false → less c b = false → less c a = false

/-- What the sort may return. -/
structure Arranged : Prop where
  perm : out.Perm items
  sorted : Weak less items → out.Pairwise fun a b => less b a = false

variable {less items out}

theorem Weak.subset {items' : List α} (weak : Weak less items) (part : items' ⊆ items) :
    Weak less items' where
  asymm a inA b inB := weak.asymm a (part inA) b (part inB)
  trans a inA b inB c inC := weak.trans a (part inA) b (part inB) c (part inC)

/-- Without ties there is no choice. -/
theorem Arranged.unique {out' : List α} (weak : Weak less items)
    (apart : ∀ a ∈ items, ∀ b ∈ items, a ≠ b → less a b = true ∨ less b a = true)
    (arranged : Arranged less items out) (arranged' : Arranged less items out') : out = out' := by
  refine List.Perm.eq_of_pairwise ?_ (arranged.sorted weak) (arranged'.sorted weak)
    (arranged.perm.trans arranged'.perm.symm)
  intro a b inA inB above below
  by_contra differ
  rcases apart a (arranged.perm.mem_iff.mp inA) b (arranged'.perm.mem_iff.mp inB) differ
    with less | less
  · rw [less] at below
    cases below
  · rw [less] at above
    cases above

/-- One member does not come after another. -/
def atMost (less : α → α → Bool) (items : List α) (x y : { x // x ∈ items }) : Bool :=
  !less y x

theorem atMost_iff {x y : { x // x ∈ items }} :
    atMost less items x y = true ↔ less y x = false :=
  iff_of_eq (Bool.not_eq_true' _)

theorem Weak.atMost_trans (weak : Weak less items) (x y z : { x // x ∈ items })
    (first : atMost less items x y = true) (second : atMost less items y z = true) :
    atMost less items x z = true := by
  rw [atMost_iff] at first second ⊢
  exact weak.trans x x.2 y y.2 z z.2 first second

theorem Weak.atMost_total (weak : Weak less items) (x y : { x // x ∈ items }) :
    (atMost less items x y || atMost less items y x) = true := by
  rw [Bool.or_eq_true, atMost_iff, atMost_iff]
  by_cases forth : less y x = true
  · exact .inr (weak.asymm y y.2 x x.2 forth)
  · exact .inl ((Bool.not_eq_true _).mp forth)

/-- Two members in front of the others. -/
theorem exists_perm_front {x y : { x // x ∈ items }} (differ : x ≠ y) :
    ∃ rest, (x :: y :: rest).Perm items.attach := by
  classical
  have second : y ∈ items.attach.erase x :=
    (List.mem_erase_of_ne differ.symm).mpr (List.mem_attach _ _)
  exact ⟨_, ((List.perm_cons_erase (List.mem_attach _ x)).trans
    ((List.perm_cons_erase second).cons x)).symm⟩

/-- Of two tied members the sort may put either first, as a stable sort does with
the one that it meets first. -/
theorem exists_arranged (weak : Weak less items) {a b : α} (inA : a ∈ items) (inB : b ∈ items)
    (differ : a ≠ b) (tied : less b a = false) :
    ∃ out, Arranged less items out ∧ [a, b].Sublist out := by
  obtain ⟨rest, whole⟩ := exists_perm_front (x := ⟨a, inA⟩) (y := ⟨b, inB⟩)
    fun same => differ (congrArg Subtype.val same)
  have sorted := List.pairwise_mergeSort weak.atMost_trans weak.atMost_total
    (⟨a, inA⟩ :: ⟨b, inB⟩ :: rest)
  have pair : [⟨a, inA⟩, ⟨b, inB⟩].Sublist
      ((⟨a, inA⟩ :: ⟨b, inB⟩ :: rest).mergeSort (atMost less items)) :=
    List.pair_sublist_mergeSort weak.atMost_trans weak.atMost_total (atMost_iff.mpr tied)
      (((List.nil_sublist _).cons_cons _).cons_cons _)
  refine ⟨_, ⟨?_, fun _ => ?_⟩, pair.map Subtype.val⟩
  · have perm := ((List.mergeSort_perm _ (atMost less items)).trans whole).map Subtype.val
    rwa [List.attach_map_subtype_val] at perm
  · rw [List.pairwise_map]
    exact sorted.imp fun before => atMost_iff.mp before

theorem not_sublist_swap {a b : α} (nodup : out.Nodup) (forth : [a, b].Sublist out) :
    ¬[b, a].Sublist out := by
  intro back
  induction out with
  | nil => cases forth
  | cons c out ih =>
    obtain ⟨fresh, nodup⟩ := List.nodup_cons.mp nodup
    cases forth with
    | cons _ forth =>
      cases back with
      | cons _ back => exact ih nodup forth back
      | cons_cons _ rest => exact fresh (forth.subset (by simp))
    | cons_cons _ rest =>
      cases back with
      | cons _ back => exact fresh (back.subset (by simp))
      | cons_cons _ rest' => exact fresh (rest.subset (by simp))

/-- There is one result exactly if the test orders the members and leaves no
ties. -/
theorem arranged_unique_iff (nodup : items.Nodup)
    (asymm : ∀ a b, less a b = true → less b a = false) :
    (∀ out out', Arranged less items out → Arranged less items out' → out = out') ↔
      Weak less items ∧
        ∀ a ∈ items, ∀ b ∈ items, a ≠ b → less a b = true ∨ less b a = true := by
  constructor
  · intro unique
    have weak : Weak less items := by
      by_contra broken
      -- the sort may then return the members in any order
      have any {out : List α} (perm : out.Perm items) : Arranged less items out :=
        ⟨perm, fun weak => absurd weak broken⟩
      rcases items with - | ⟨a, - | ⟨b, rest⟩⟩
      · exact broken ⟨List.forall_mem_nil _, List.forall_mem_nil _⟩
      · refine broken ⟨fun _ _ _ _ => asymm _ _, ?_⟩
        simp only [List.mem_singleton]
        rintro _ rfl _ rfl _ rfl same _
        exact same
      · have same := unique _ _ (any (.refl _)) (any (.swap a b rest))
        rw [(List.cons.inj same).1] at nodup
        exact (List.nodup_cons.mp nodup).1 (.head _)
    refine ⟨weak, fun a inA b inB differ => ?_⟩
    by_contra tied
    obtain ⟨forth, back⟩ := not_or.mp tied
    obtain ⟨out, arranged, first⟩ := exists_arranged weak inA inB differ ((Bool.not_eq_true _).mp back)
    obtain ⟨out', arranged', second⟩ :=
      exists_arranged weak inB inA differ.symm ((Bool.not_eq_true _).mp forth)
    rw [unique out out' arranged arranged'] at first
    exact not_sublist_swap (arranged'.perm.nodup_iff.mpr nodup) first second
  · rintro ⟨weak, apart⟩ out out' arranged arranged'
    exact arranged.unique weak apart arranged'

end Arranging

end Scriva.Lib.Sorted
