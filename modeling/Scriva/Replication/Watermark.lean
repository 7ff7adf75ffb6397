import Scriva.Engine.InTurn
import Scriva.Replication.Tailing

/-!
# The watermark of a follower and the loss of power

A follower notes in a file the number that it has applied.  The file is written
and flushed before the next record is taken.  The lines of the records are in
the segments, which are flushed after each line only in one of the modes, when
a segment is sealed, and by a timer in another mode.  A loss of power may take
anything that was not flushed.
-/

namespace Scriva.Replication.Watermark

open Lib.Text Lib.Lines Lib.Keyed Store.Record Store.Ndjson Engine.Segment Engine.Directory
open Engine.Collection Engine.Writing Engine.Calls Engine.Opening Engine.Reading Engine.InTurn
open Engine.Applying Tailing
open Engine.Journal (recorded_nil)
open Engine.Sequential (fresh smallConfig oneField)
open Relation (ReflTransGen)
open Function (update_apply)

variable {N : Type} [JsonNumber N]

/-! ## What applying an entry writes -/

/-- The active segment has grown, the other segments are as they were, and new
ones are empty. -/
structure Extends (w w' : World N) (back : Bytes) : Prop where
  held : ∀ number file, w.disk.segment number = some file →
    w'.disk.segment number = some (if number = w.col.active.number then file ++ back else file)
  new : ∀ number, w.disk.segment number = none → ∀ file ∈ w'.disk.segment number, file = []

/-- A line was written if the entry was not passed over, and nothing else. -/
def Writes {α : Type} (w : World N) (e : Entry N) (outcome : Except Error α × World N) : Prop :=
  Fine outcome.2 ∧ ∃ back, Extends w outcome.2 back ∧
    match outcome.1 with
    | .ok _ => if passedOver w e then back = [] else appendBytes e = .ok back
    | .error _ => back = []

section Writing

variable {w w' : World N} {e : Entry N}

section

omit [JsonNumber N]

theorem extends_of_segment (same : w'.disk.segment = w.disk.segment) : Extends w w' [] := by
  constructor
  · intro number file found
    rw [same, List.append_nil, ite_self, found]
  · intro number absent file member
    rw [same, absent] at member
    cases member

theorem Extends.trans {w₁ : World N} {back : Bytes} (first : Extends w w₁ back)
    (second : Extends w₁ w' []) : Extends w w' back := by
  constructor
  · intro number file found
    have held := second.held number _ (first.held number file found)
    rwa [List.append_nil, ite_self] at held
  · intro number absent file member
    rcases between : w₁.disk.segment number with - | held
    · exact second.new number between file member
    · have empty := first.new number absent held between
      have kept := second.held number held between
      rw [List.append_nil, ite_self] at kept
      rw [kept, Option.mem_some] at member
      rw [← member, empty]

theorem Extends.of_untouched {w₁ : World N} {back : Bytes} (untouched : Untouched w w₁)
    (extend : Extends w₁ w' back) : Extends w w' back := by
  have segment : w₁.disk.segment = w.disk.segment := by
    funext number
    rw [Disk.segment, Disk.segment, untouched.files]
  obtain ⟨held, new⟩ := extend
  rw [segment, untouched.active] at held
  rw [segment] at new
  exact ⟨held, new⟩

theorem extends_of_appended {bytes : Bytes} (appended : Appended w bytes w') :
    Extends w w' bytes := by
  constructor
  · intro number file found
    rw [appended.segment, update_apply]
    split_ifs with active
    · rw [← active, found]
      rfl
    · exact found
  · intro number absent file member
    rw [appended.segment, update_apply] at member
    split_ifs at member with active
    · rw [← active, absent] at member
      cases member
    · rw [absent] at member
      cases member

theorem extends_rotate (w : World N) : Extends w (afterNote (afterRotate w)) [] := by
  have segment (number : Nat) := Disk.segment_create w.disk
    (nextNumber (w.col.sealed ++ [w.col.active])) number
  constructor
  · intro number file found
    rw [List.append_nil, ite_self]
    refine (segment number).trans ?_
    split_ifs with next
    · rw [← next, found]
      rfl
    · exact found
  · intro number absent file member
    change file ∈ (DiskStep.apply w.disk _).segment number at member
    rw [segment] at member
    split_ifs at member with next
    · rw [← next, absent, Option.getD_none, Option.mem_some] at member
      exact member.symm
    · rw [absent] at member
      cases member

theorem Untouched.fine {w₁ : World N} (untouched : Untouched w w₁) (sound : Sound w₁)
    (fine : Fine w) : Fine w₁ := by
  refine ⟨sound, untouched.calm, ?_⟩
  intro number present
  rw [Disk.segment, untouched.files] at present
  rw [allSegments, untouched.sealed, untouched.active]
  exact fine.only number present

end

theorem applyEntry_writes (fine : Fine w) (e : Entry N) : Writes w e ((applyEntry e).run w) := by
  have ending := ending_applyEntry fine.sound fine.calm e
  have still {w₁ : World N} (untouched : Untouched w w₁) : Fine w₁ ∧ Extends w w₁ [] :=
    ⟨Untouched.fine untouched (untouched.sound fine.sound) fine,
      (extends_of_segment rfl).of_untouched untouched⟩
  generalize (applyEntry e).run w = outcome at ending
  cases ending with
  | refused untouched reason => exact ⟨(still untouched).1, [], (still untouched).2, rfl⟩
  | passed untouched known =>
    exact ⟨(still untouched).1, [], (still untouched).2, (if_pos known).mpr rfl⟩
  | @written w₁ w₂ w₃ bytes change untouched accepted marked finished new full =>
    have result : if passedOver w e then bytes = [] else appendBytes e = .ok bytes := by
      rw [new]
      exact accepted
    have fine₂ := (still untouched).1.marked accepted marked
    have fine₃ := Untouched.fine finished (finished.sound fine₂.sound) fine₂
    have extend : Extends w w₃ bytes := ((extends_of_appended marked.appended).trans
      ((extends_of_segment rfl).of_untouched finished)).of_untouched untouched
    cases full with
    | false => exact ⟨fine₃, bytes, extend, result⟩
    | true =>
      obtain ⟨rotated, fine₄, -⟩ := fine₃.rotate
      change Writes w e ((rotateSegment : Proc N Unit).run w₃)
      rw [rotated]
      exact ⟨fine₄, bytes, extend.trans (extends_rotate w₃), result⟩

omit [JsonNumber N] in
/-- Bytes are only added. -/
theorem Extends.grows {back : Bytes} (extend : Extends w w' back) (number : Nat) :
    (w.disk.segment number).getD [] <+: (w'.disk.segment number).getD [] := by
  rcases found : w.disk.segment number with - | file
  · exact List.nil_prefix
  · rw [extend.held number file found, Option.getD_some, Option.getD_some]
    split_ifs
    · exact List.prefix_append _ _
    · exact List.prefix_rfl

end Writing

/-! ## Flushing and losing -/

/-- A follower, how much of each segment of each collection was flushed, the
number in the state file with what the segments held when it was written, and
the records for which lines were written. -/
structure Node (N : Type) where
  follower : Follower N
  flushed : String → Nat → Nat
  persisted : Nat
  vouched : String → Nat → Bytes
  written : List (Nat × String × Entry N)

variable (setting : Setting N)

/-- A segment file. -/
def Node.file (s : Node N) (name : String) (number : Nat) : Option Bytes :=
  (s.follower.collection setting name).disk.segment number

/-- The active segment is flushed after a line in one of the modes, and when it is
sealed. -/
def flushes (w w' : World N) (e : Entry N) : Bool :=
  !passedOver w e &&
    (decide (setting.cfg.syncMode = .always) ||
      decide (w'.col.active.number ≠ w.col.active.number))

/-- A collection after a call, and nothing more. -/
def Node.setCollection (s : Node N) (name : String) (w : World N) : Node N :=
  { s with follower := { s.follower with collections := s.follower.collections.insert name w } }

/-- A follower after a record was applied: it goes on from its number, and has
noted nothing yet. -/
def Node.applied (s : Node N) (lsn : Nat) (name : String) (e : Entry N) (w' : World N) : Node N :=
  let w := s.follower.collection setting name
  let size := ((w'.disk.segment w.col.active.number).getD []).length
  { s.setCollection name w' with
    follower := { (s.setCollection name w').follower with
      appliedLSN := lsn
      received := lsn
      furthest := max s.follower.furthest lsn }
    flushed :=
      if flushes setting w w' e then
        Function.update s.flushed name (Function.update (s.flushed name) w.col.active.number size)
      else s.flushed
    written := if passedOver w e then s.written else s.written ++ [(lsn, name, e)] }

/-- What a follower does apart from noting its number. -/
inductive Works : Node N → Node N → Prop where
  | apply {s : Node N} {w' : World N} (lsn : Nat) (name : String) (e : Entry N)
      (above : s.follower.appliedLSN < lsn)
      (ended : (applyEntry e).run (s.follower.collection setting name) = (.ok (), w')) :
      Works s (s.applied setting lsn name e w')
  | fail {s : Node N} {w' : World N} {reason : Error} (name : String) (e : Entry N)
      (ended : (applyEntry e).run (s.follower.collection setting name) = (.error reason, w')) :
      Works s (s.setCollection name w')
  /-- A file is flushed, by the timer or by the system. -/
  | flush (s : Node N) (name : String) (number : Nat) :
      Works s { s with flushed := Function.update s.flushed name (Function.update (s.flushed name)
        number ((s.file setting name number).getD []).length) }

/-- The state file has been written and flushed. -/
def Node.noted (s : Node N) : Node N :=
  { s with
    persisted := s.follower.appliedLSN
    vouched := fun name number => (s.file setting name number).getD [] }

def Step (s s' : Node N) : Prop :=
  Works setting s s' ∨ s' = s.noted setting

/-- Everything in the segments was flushed. -/
def AllFlushed (s : Node N) : Prop :=
  ∀ name number, s.flushed name number = ((s.file setting name number).getD []).length

/-- A step in which the number is noted only if everything was flushed. -/
def Careful (s s' : Node N) : Prop :=
  Works setting s s' ∨ s' = s.noted setting ∧ AllFlushed setting s

/-- The segments that are found after a loss of power have what was flushed, and
perhaps something after it.  In the middle of a call no less was flushed than
before it. -/
def Lost (s : Node N) (files : String → Nat → Option Bytes) : Prop :=
  ∀ name number file, s.file setting name number = some file →
    file.take (s.flushed name number) <+: (files name number).getD []

/-- A file has a line. -/
def Carries (file line : Bytes) : Prop :=
  ∃ front back, file = front ++ line ++ back ∧ (front ≠ [] → front.getLast? = some newline)

/-- What a restart leaves of a segment that it opens for appending. -/
def recovered (file : Bytes) : Bytes :=
  file.take (recoverPartialLine file)

/-- Whatever is lost, the segments have what they had when the number was noted,
and after a restart the lines of all records up to that number. -/
def Honest (s : Node N) : Prop :=
  ∀ files, Lost setting s files →
    (∀ name number, s.vouched name number <+: (files name number).getD []) ∧
    ∀ lsn name e, (lsn, name, e) ∈ s.written → lsn ≤ s.persisted →
      ∃ line number, appendBytes e = .ok line ∧
        Carries (recovered ((files name number).getD [])) line

/-! ## Runs -/

/-- A follower that begins: what it finds was flushed, and is what its number
stands for. -/
structure Begun (s : Node N) : Prop where
  fine : ∀ name w, s.follower.collections.lookup name = some w → Fine w
  noted : s.persisted ≤ s.follower.appliedLSN
  flushed : AllFlushed setting s
  vouched : ∀ name number, s.vouched name number = (s.file setting name number).getD []
  written : s.written = []

/-- What the number stands for was flushed, and the records up to it are in that. -/
structure Backed (s : Node N) : Prop where
  fine : ∀ name w, s.follower.collections.lookup name = some w → Fine w
  noted : s.persisted ≤ s.follower.appliedLSN
  bounded : ∀ name number, s.flushed name number ≤ ((s.file setting name number).getD []).length
  vouched : ∀ name number, s.vouched name number <+:
    ((s.file setting name number).getD []).take (s.flushed name number)
  carried : ∀ lsn name e, (lsn, name, e) ∈ s.written →
    ∃ line number, appendBytes e = .ok line ∧ Carries ((s.file setting name number).getD []) line
  backed : ∀ lsn name e, (lsn, name, e) ∈ s.written → lsn ≤ s.persisted →
    ∃ line number, appendBytes e = .ok line ∧ Carries (s.vouched name number) line

section Flushing

variable {setting} {s s' : Node N}

theorem Carries.mono {file file' line : Bytes} (carries : Carries file line)
    (longer : file <+: file') : Carries file' line := by
  obtain ⟨front, back, rfl, complete⟩ := carries
  obtain ⟨rest, rfl⟩ := longer
  exact ⟨front, back ++ rest, by simp only [List.append_assoc], complete⟩

/-- A restart takes no complete line away. -/
theorem prefix_recovered {front file : Bytes} (complete : front ≠ [] → front.getLast? = some newline)
    (start : front <+: file) : front <+: recovered file := by
  obtain ⟨rest, rfl⟩ := start
  obtain ⟨lines, plain, rfl⟩ : ∃ lines, (∀ line ∈ lines, newline ∉ line) ∧ front = joinLines lines :=
    ⟨_, newline_notMem_splitLines front |>.1, (joinLines_of_complete complete).symm⟩
  rw [recovered, (take_recoverPartialLine _).1, splitLines_append plain, joinLines_append]
  exact List.prefix_append _ _

theorem Carries.recovered {file file' line : Bytes} (carries : Carries file line)
    (ended : line.getLast? = some newline) (longer : file <+: file') :
    Carries (recovered file') line := by
  obtain ⟨front, back, rfl, complete⟩ := carries
  have filled : line ≠ [] := by
    rintro rfl
    cases ended
  have start : front ++ line <+: file' := (List.prefix_append _ _).trans longer
  obtain ⟨rest, whole⟩ := prefix_recovered (fun _ => by
    rw [List.getLast?_append_of_ne_nil _ filled, ended]) start
  exact ⟨front, rest, whole.symm, complete⟩

theorem collection_fine (setting : Setting N)
    (fine : ∀ name w, s.follower.collections.lookup name = some w → Fine w)
    (name : String) : Fine (s.follower.collection setting name) := by
  rw [Follower.collection]
  rcases found : s.follower.collections.lookup name with - | w
  · exact fine_of_coherent (fresh_coherent setting).1 (fresh_coherent setting).2.1
  · exact fine name w found

theorem collection_setCollection (s : Node N) (name other : String) (w : World N) :
    (s.setCollection name w).follower.collection setting other =
      if other = name then w else s.follower.collection setting other := by
  rw [Follower.collection, Node.setCollection]
  dsimp only
  rw [lookup_insert_if]
  split_ifs
  · rfl
  · rfl

omit [JsonNumber N] in
theorem fine_setCollection {name : String} {w' : World N}
    (all : ∀ name w, s.follower.collections.lookup name = some w → Fine w) (fine : Fine w') :
    ∀ other w, (s.setCollection name w').follower.collections.lookup other = some w → Fine w := by
  intro other w found
  change (s.follower.collections.insert name w').lookup other = some w at found
  rw [lookup_insert_if] at found
  split_ifs at found with same
  · rw [← Option.some.inj found]
    exact fine
  · exact all other w found

section Calls

variable {name : String} {w' : World N} {back : Bytes}
  (extend : Extends (s.follower.collection setting name) w' back)

include extend

theorem grows_setCollection (other : String) (number : Nat) :
    (s.file setting other number).getD [] <+:
      ((s.setCollection name w').file setting other number).getD [] := by
  rw [Node.file, Node.file, collection_setCollection]
  split_ifs with same
  · rw [same]
    exact extend.grows number
  · exact List.prefix_rfl

theorem file_setCollection (other : String) (number : Nat) :
    ((s.setCollection name w').file setting other number).getD [] =
        (s.file setting other number).getD [] ∨
      other = name ∧ number = (s.follower.collection setting name).col.active.number ∧
        back ≠ [] := by
  rw [Node.file, Node.file, collection_setCollection]
  split_ifs with same
  · subst same
    rcases before : (s.follower.collection setting other).disk.segment number with - | old
    · left
      rcases after : w'.disk.segment number with - | file
      · rfl
      · exact extend.new number before file after
    · rw [extend.held number old before]
      split_ifs with active
      · by_cases empty : back = []
        · left
          rw [empty, List.append_nil]
        · exact .inr ⟨rfl, active, empty⟩
      · exact .inl rfl
  · exact .inl rfl

/-- A call after which the flushed parts are no shorter. -/
theorem Backed.setCollection (backed : Backed setting s) (fine : Fine w')
    {flushed : String → Nat → Nat} {appliedLSN : Nat} (received furthest : Nat)
    (later : s.follower.appliedLSN ≤ appliedLSN)
    (changed : ∀ other number, flushed other number = s.flushed other number ∨
      flushed other number = (((s.setCollection name w').file setting other number).getD []).length) :
    Backed setting
      { s with
        follower := { (s.setCollection name w').follower with appliedLSN, received, furthest }
        flushed } := by
  have grows := grows_setCollection extend
  refine ⟨fine_setCollection backed.fine fine, backed.noted.trans later, ?_, ?_, ?_, backed.backed⟩
  · intro other number
    rcases changed other number with same | whole
    · change flushed other number ≤ _
      rw [same]
      exact (backed.bounded other number).trans (grows other number).length_le
    · exact whole.le
  · intro other number
    refine (backed.vouched other number).trans ?_
    change _ <+: (((s.setCollection name w').file setting other number).getD []).take
      (flushed other number)
    rcases changed other number with same | whole
    · rw [same]
      exact (grows other number).take _
    · rw [whole, List.take_length]
      exact (List.take_prefix _ _).trans (grows other number)
  · intro lsn other e member
    obtain ⟨line, number, accepted, carries⟩ := backed.carried lsn other e member
    exact ⟨line, number, accepted, carries.mono (grows other number)⟩

end Calls

theorem flushed_applied (s : Node N) (lsn : Nat) (name : String) (e : Entry N) (w' : World N)
    (other : String) (number : Nat) :
    (s.applied setting lsn name e w').flushed other number = s.flushed other number ∨
      (s.applied setting lsn name e w').flushed other number =
        (((s.setCollection name w').file setting other number).getD []).length := by
  rw [Node.applied]
  dsimp only
  split_ifs
  · rw [update_apply]
    split_ifs with same
    · rw [update_apply]
      split_ifs with active
      · right
        rw [Node.file, collection_setCollection, if_pos same, active]
      · exact .inl (by rw [same])
    · exact .inl rfl
  · exact .inl rfl

theorem Backed.apply (backed : Backed setting s) {lsn : Nat} {name : String} {e : Entry N}
    {w' : World N} {back : Bytes} (above : s.follower.appliedLSN < lsn) (fine : Fine w')
    (extend : Extends (s.follower.collection setting name) w' back)
    (result : if passedOver (s.follower.collection setting name) e then back = []
      else appendBytes e = .ok back) : Backed setting (s.applied setting lsn name e w') := by
  have base := backed.setCollection extend fine lsn (max s.follower.furthest lsn) above.le
    (flushed_applied s lsn name e w')
  have added : ∀ lsn' other e', (lsn', other, e') ∈ (s.applied setting lsn name e w').written →
      (lsn', other, e') ∈ s.written ∨ lsn' = lsn ∧ other = name ∧ e' = e ∧
        appendBytes e = .ok back := by
    intro lsn' other e' member
    rw [Node.applied] at member
    dsimp only at member
    split_ifs at member result with passed
    · exact .inl member
    · rcases List.mem_append.mp member with old | new
      · exact .inl old
      · rw [List.mem_singleton, Prod.mk.injEq, Prod.mk.injEq] at new
        exact .inr ⟨new.1, new.2.1, new.2.2, result⟩
  refine ⟨base.fine, base.noted, base.bounded, base.vouched, ?_, ?_⟩
  · intro lsn' other e' member
    rcases added lsn' other e' member with old | ⟨-, rfl, rfl, accepted⟩
    · exact base.carried lsn' other e' old
    · obtain ⟨file, found, -, complete⟩ := (collection_fine setting backed.fine other).sound.file
      refine ⟨back, (s.follower.collection setting other).col.active.number, accepted, file, [], ?_,
        complete⟩
      change ((s.setCollection other w').file setting other _).getD [] = _
      rw [Node.file, collection_setCollection, if_pos rfl, extend.held _ _ found, if_pos rfl,
        List.append_nil]
      rfl
  · intro lsn' other e' member low
    rcases added lsn' other e' member with old | ⟨rfl, -⟩
    · exact base.backed lsn' other e' old low
    · have noted := backed.noted
      change lsn' ≤ s.persisted at low
      omega

theorem flushed_update (s : Node N) (name other : String) (number number' : Nat) :
    Function.update s.flushed name (Function.update (s.flushed name) number
        ((s.file setting name number).getD []).length) other number' =
      if other = name ∧ number' = number then ((s.file setting other number').getD []).length
      else s.flushed other number' := by
  rw [update_apply]
  by_cases same : other = name
  · subst same
    rw [if_pos rfl, update_apply]
    by_cases here : number' = number
    · subst here
      rw [if_pos rfl, if_pos ⟨rfl, rfl⟩]
    · rw [if_neg here, if_neg fun both => here both.2]
  · rw [if_neg same, if_neg fun both => same both.1]

theorem Backed.works (backed : Backed setting s) (work : Works setting s s') :
    Backed setting s' := by
  cases work with
  | apply lsn name e above ended =>
    have writes := applyEntry_writes (collection_fine setting backed.fine name) e
    rw [ended] at writes
    obtain ⟨fine, back, extend, result⟩ := writes
    exact backed.apply above fine extend result
  | fail name e ended =>
    have writes := applyEntry_writes (collection_fine setting backed.fine name) e
    rw [ended] at writes
    obtain ⟨fine, back, extend, -⟩ := writes
    exact backed.setCollection extend fine _ _ le_rfl fun _ _ => .inl rfl
  | flush name number =>
    refine ⟨backed.fine, backed.noted, ?_, ?_, backed.carried, backed.backed⟩
    · intro other number'
      dsimp only
      rw [flushed_update]
      split_ifs
      · exact le_rfl
      · exact backed.bounded other number'
    · intro other number'
      refine (backed.vouched other number').trans ?_
      dsimp only
      rw [flushed_update]
      split_ifs
      · change _ <+: ((s.file setting other number').getD []).take _
        rw [List.take_length]
        exact List.take_prefix _ _
      · exact List.prefix_rfl

theorem Backed.noting (backed : Backed setting s) (flushed : AllFlushed setting s) :
    Backed setting (s.noted setting) := by
  refine ⟨backed.fine, le_rfl, backed.bounded, ?_, backed.carried, ?_⟩
  · intro name number
    change _ <+: ((s.file setting name number).getD []).take (s.flushed name number)
    rw [flushed name number, List.take_length]
    exact List.prefix_rfl
  · exact fun lsn name e member _ => backed.carried lsn name e member

theorem Begun.backed (begun : Begun setting s) : Backed setting s := by
  refine ⟨begun.fine, begun.noted, fun name number => (begun.flushed name number).le, ?_, ?_, ?_⟩
  · intro name number
    rw [begun.flushed name number, List.take_length, begun.vouched]
  · intro lsn name e member
    rw [begun.written] at member
    cases member
  · intro lsn name e member
    rw [begun.written] at member
    cases member

theorem Backed.run (backed : Backed setting s)
    (run : ReflTransGen (Careful setting) s s') : Backed setting s' := by
  induction run with
  | refl => exact backed
  | tail _ step ih =>
    rcases step with work | ⟨rfl, flushed⟩
    · exact ih.works work
    · exact ih.noting flushed

theorem Backed.honest (backed : Backed setting s) : Honest setting s := by
  intro files lost
  have kept (name : String) (number : Nat) :
      s.vouched name number <+: (files name number).getD [] := by
    refine (backed.vouched name number).trans ?_
    rcases found : s.file setting name number with - | file
    · rw [Option.getD_none, List.take_nil]
      exact List.nil_prefix
    · exact lost name number file found
  refine ⟨kept, ?_⟩
  intro lsn name e member low
  obtain ⟨line, number, accepted, carries⟩ := backed.backed lsn name e member low
  obtain ⟨raw, rfl, -⟩ := appendBytes_shape accepted
  exact ⟨_, number, accepted, carries.recovered List.getLast?_concat (kept name number)⟩

/-- A number that stands for what is found after any loss was noted when
everything was flushed. -/
theorem Backed.allFlushed (backed : Backed setting s) (honest : Honest setting (s.noted setting)) :
    AllFlushed setting s := by
  obtain ⟨kept, -⟩ := honest
    (fun name number => some (((s.file setting name number).getD []).take (s.flushed name number)))
    (by
      intro name number file found
      have held : s.file setting name number = some file := found
      dsimp only
      rw [held]
      exact List.prefix_rfl)
  intro name number
  refine le_antisymm (backed.bounded name number) ?_
  have length := (kept name number).length_le
  change ((s.file setting name number).getD []).length ≤ _ at length
  rw [Option.getD_some, List.length_take] at length
  exact length.trans (Nat.min_le_left _ _)

/-- With a flush after each line everything is flushed between the calls. -/
theorem AllFlushed.works (always : setting.cfg.syncMode = .always) (backed : Backed setting s)
    (flushed : AllFlushed setting s) (work : Works setting s s') : AllFlushed setting s' := by
  cases work with
  | apply lsn name e above ended =>
    rename_i w'
    have writes := applyEntry_writes (collection_fine setting backed.fine name) e
    rw [ended] at writes
    obtain ⟨-, back, extend, result⟩ := writes
    intro other number
    change _ = (((s.setCollection name w').file setting other number).getD []).length
    rcases flushed_applied s lsn name e w' other number with same | whole
    · rw [same, flushed other number]
      rcases file_setCollection extend other number with unchanged | ⟨rfl, rfl, filled⟩
      · rw [unchanged]
      · -- the line was written, and so it was flushed
        dsimp only at result
        split_ifs at result with passed
        · exact absurd result filled
        · rw [Bool.not_eq_true] at passed
          have flushing : flushes setting (s.follower.collection setting other) w' e = true := by
            rw [flushes, passed, always]
            rfl
          rw [← flushed, ← same, Node.applied]
          dsimp only
          rw [if_pos flushing, Function.update_self, Function.update_self, Node.file,
            collection_setCollection, if_pos rfl]
    · exact whole
  | fail name e ended =>
    rename_i w' reason
    have writes := applyEntry_writes (collection_fine setting backed.fine name) e
    rw [ended] at writes
    obtain ⟨-, back, extend, rfl⟩ := writes
    intro other number
    rcases file_setCollection extend other number with unchanged | ⟨-, -, filled⟩
    · rw [unchanged]
      exact flushed other number
    · exact absurd rfl filled
  | flush name number =>
    intro other number'
    dsimp only
    rw [flushed_update]
    split_ifs
    · rfl
    · exact flushed other number'

/-- With a flush after each line every step is careful. -/
theorem careful_of_always (always : setting.cfg.syncMode = .always) (begun : Begun setting s)
    (run : ReflTransGen (Step setting) s s') :
    ReflTransGen (Careful setting) s s' ∧ AllFlushed setting s' := by
  induction run with
  | refl => exact ⟨.refl, begun.flushed⟩
  | tail _ step ih =>
    obtain ⟨careful, flushed⟩ := ih
    rcases step with work | rfl
    · exact ⟨careful.tail (.inl work),
        AllFlushed.works always (begun.backed.run careful) flushed work⟩
    · exact ⟨careful.tail (.inr ⟨rfl, flushed⟩), flushed⟩

end Flushing

/-- A follower that notes its number only when everything in its segments was
flushed finds after a loss of power, at any time, all that the number stands
for; a number that is noted at another time does not stand for what may be
found.  With a flush after each line the number is never noted at another
time. -/
theorem watermark_honest_iff_flushed {s : Node N} (begun : Begun setting s) :
    (∀ s', ReflTransGen (Careful setting) s s' →
      Honest setting s' ∧ (Honest setting (s'.noted setting) ↔ AllFlushed setting s')) ∧
    (setting.cfg.syncMode = .always → ∀ s', ReflTransGen (Step setting) s s' →
      ReflTransGen (Careful setting) s s') := by
  constructor
  · intro s' run
    have backed := begun.backed.run run
    exact ⟨backed.honest, backed.allFlushed, fun flushed => (backed.noting flushed).honest⟩
  · exact fun always s' run => (careful_of_always always begun run).1

/-- A follower that has nothing. -/
def Node.empty : Node N :=
  ⟨⟨∅, 0, 0, 0⟩, fun _ _ => 0, 0, fun _ _ => [], []⟩

theorem file_empty (name : String) (number : Nat) :
    ((Node.empty : Node N).file setting name number).getD [] = [] := by
  have coherent := (fresh_coherent setting).1
  change ((fresh setting.cfg setting.enc setting.order).disk.segment number).getD [] = []
  rcases found : (fresh setting.cfg setting.enc setting.order).disk.segment number with - | file
  · rfl
  · have member := coherent.disk.only number (by rw [found]; rfl)
    obtain rfl := List.mem_singleton.mp member
    have held := coherent.disk.holds (1, []) (.head _)
    exact Option.some.inj (found.symm.trans held)

theorem begun_empty : Begun setting (Node.empty : Node N) := by
  refine ⟨nofun, le_rfl, ?_, ?_, rfl⟩
  · intro name number
    rw [file_empty]
    rfl
  · intro name number
    rw [file_empty]
    rfl

/-- The first record of a leader. -/
def firstEntry : Entry Int := newInsert 1 (some (oneField "n" 5)) .zero

theorem watermark_honest_small :
    ∃ s : Node Int, s.persisted = 1 ∧ s.written.length = 1 ∧
      Honest ⟨smallConfig, none, .asWritten⟩ s := by
  have applied : Works ⟨smallConfig, none, .asWritten⟩ Node.empty _ :=
    .apply 1 "c" firstEntry Nat.zero_lt_one (Prod.ext (by decide +kernel) rfl)
  have noted := (ReflTransGen.single (r := Step _) (.inl applied)).tail (.inr rfl)
  obtain ⟨honest, careful⟩ := watermark_honest_iff_flushed ⟨smallConfig, none, .asWritten⟩
    (begun_empty (N := Int) _)
  exact ⟨_, rfl, by decide +kernel, (honest _ (careful rfl _ noted)).1⟩

/-- Nothing is flushed, and segments are large. -/
def fastConfig : Config := { smallConfig with segmentMaxSize := 4096, syncMode := .none }

/-- Without a flush, a record is lost although its number was noted. -/
theorem watermark_dishonest :
    ∃ s : Node Int, ReflTransGen (Step ⟨fastConfig, none, .asWritten⟩) Node.empty s ∧
      ¬Honest ⟨fastConfig, none, .asWritten⟩ s := by
  have applied : Works ⟨fastConfig, none, .asWritten⟩ Node.empty _ :=
    .apply 1 "c" firstEntry Nat.zero_lt_one (Prod.ext (by decide +kernel) rfl)
  have noted := (ReflTransGen.single (r := Step _) (.inl applied)).tail (.inr rfl)
  refine ⟨_, noted, ?_⟩
  intro honest
  obtain ⟨-, lines⟩ := honest (fun _ _ => some []) (by
    intro name number file found
    have unflushed : ((Node.empty : Node Int).applied ⟨fastConfig, none, .asWritten⟩ 1 "c"
        firstEntry ((applyEntry firstEntry).run (fresh fastConfig none .asWritten)).2).flushed =
          fun _ _ => 0 :=
      if_neg (by decide +kernel)
    change file.take (((Node.empty : Node Int).applied ⟨fastConfig, none, .asWritten⟩ 1 "c"
        firstEntry ((applyEntry firstEntry).run (fresh fastConfig none .asWritten)).2).flushed
          name number) <+: _
    rw [unflushed]
    exact List.nil_prefix)
  have written : ((Node.empty : Node Int).applied ⟨fastConfig, none, .asWritten⟩ 1 "c"
      firstEntry ((applyEntry firstEntry).run (fresh fastConfig none .asWritten)).2).written =
        [(1, "c", firstEntry)] :=
    if_neg (by decide +kernel)
  obtain ⟨line, number, accepted, front, back, whole, -⟩ := lines 1 "c" firstEntry
    (by
      change _ ∈ ((Node.empty : Node Int).applied ⟨fastConfig, none, .asWritten⟩ 1 "c"
        firstEntry ((applyEntry firstEntry).run (fresh fastConfig none .asWritten)).2).written
      rw [written]
      exact (.head _)) le_rfl
  obtain ⟨raw, rfl, -⟩ := appendBytes_shape accepted
  have length := congrArg List.length whole
  rw [recovered, Option.getD_some, List.take_nil, List.length_append, List.length_append,
    List.length_append, List.length_nil, List.length_singleton] at length
  omega

end Scriva.Replication.Watermark
