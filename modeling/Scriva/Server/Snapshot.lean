import Scriva.Lib.Text
import Mathlib.Tactic

/-!
# Extracting a snapshot

A follower unpacks the archive of the leader into its data directory.  The names
in the archive are arbitrary texts.  A path is followed as the elements of its
cleaned form; a name below the data directory is the file it says, since there
are no symbolic links.

What is extracted stays below the data directory, but for directories on the way
to it that are missing.
-/

namespace Scriva.Server.Snapshot

open Lib.Text

/-! ## Paths -/

abbrev Name := List Char

/-- The elements of a cleaned path, and whether it starts at the root. -/
@[ext]
structure Path where
  rooted : Bool
  parts : List Name
deriving DecidableEq

def dotDot : Name := ['.', '.']

/-- One more element behind a cleaned path. -/
def cleanStep (rooted : Bool) (parts : List Name) (part : Name) : List Name :=
  if part = [] ∨ part = ['.'] then parts
  else if part ≠ dotDot then parts ++ [part]
  else
    match parts.getLast? with
    | none => if rooted then [] else [dotDot]
    | some last => if last = dotDot then parts ++ [dotDot] else parts.dropLast

def isAbs (text : List Char) : Bool :=
  text.head? = some '/'

def clean (text : List Char) : Path :=
  ⟨isAbs text, (text.splitOn '/').foldl (cleanStep (isAbs text)) []⟩

/-- The elements of a path behind those of a directory, cleaned together. -/
def join (dir : List Char) (path : Path) : Path :=
  ⟨isAbs dir, path.parts.foldl (cleanStep (isAbs dir)) (clean dir).parts⟩

/-- A path without its last element. -/
def Path.dir (path : Path) : Path :=
  { path with parts := path.parts.dropLast }

/-- An element that names a file or a directory below another. -/
def Ordinary (name : Name) : Prop :=
  name ≠ [] ∧ name ≠ ['.'] ∧ name ≠ dotDot

theorem foldl_ordinary {names : List Name} (ordinary : ∀ name ∈ names, Ordinary name)
    (rooted : Bool) (start : List Name) :
    names.foldl (cleanStep rooted) start = start ++ names := by
  induction names generalizing start with
  | nil => rw [List.foldl_nil, List.append_nil]
  | cons name names ih =>
    obtain ⟨⟨filled, plain, down⟩, later⟩ := List.forall_mem_cons.mp ordinary
    rw [List.foldl_cons, cleanStep, if_neg (not_or.mpr ⟨filled, plain⟩), if_pos down, ih later,
      List.append_assoc, List.singleton_append]

/-- Steps upwards are in front. -/
def Tidy (parts : List Name) : Prop :=
  ∃ ups names, parts = List.replicate ups dotDot ++ names ∧ ∀ name ∈ names, Ordinary name

theorem Tidy.cleanStep {parts : List Name} (tidy : Tidy parts) (part : Name) :
    Tidy (cleanStep false parts part) := by
  obtain ⟨ups, names, rfl, ordinary⟩ := tidy
  rw [Snapshot.cleanStep]
  by_cases nothing : part = [] ∨ part = ['.']
  · rw [if_pos nothing]
    exact ⟨ups, names, rfl, ordinary⟩
  rw [if_neg nothing]
  by_cases down : part ≠ dotDot
  · rw [if_pos down]
    refine ⟨ups, names ++ [part], List.append_assoc .., List.forall_mem_append.mpr ⟨ordinary, ?_⟩⟩
    exact List.forall_mem_singleton.mpr ⟨(not_or.mp nothing).1, (not_or.mp nothing).2, down⟩
  rw [if_neg down]
  rcases List.eq_nil_or_concat names with rfl | ⟨front, last, rfl⟩
  · -- only steps upwards so far: one more
    rw [List.append_nil]
    cases ups with
    | zero => exact ⟨1, [], rfl, ordinary⟩
    | succ ups =>
      rw [List.getLast?_replicate, if_neg (Nat.succ_ne_zero ups)]
      have climbed : List.replicate (ups + 1) dotDot ++ [dotDot] =
          List.replicate (ups + 2) dotDot ++ [] := by
        rw [List.append_nil, ← List.replicate_succ']
      exact ⟨ups + 2, [], climbed, ordinary⟩
  · have named := ordinary last (by simp)
    rw [List.concat_eq_append, ← List.append_assoc, List.getLast?_concat]
    dsimp only
    rw [if_neg named.2.2, List.dropLast_concat]
    exact ⟨ups, front, rfl, fun name member => ordinary name (by simp [member])⟩

/-- A cleaned path that does not start at the root and not upwards leads down. -/
theorem ordinary_of_clean {text : List Char} (relative : (clean text).rooted = false)
    (inside : (clean text).parts.head? ≠ some dotDot) :
    ∀ name ∈ (clean text).parts, Ordinary name := by
  have tidy (parts start : List Name) (tidy : Tidy start) :
      Tidy (parts.foldl (cleanStep false) start) := by
    induction parts generalizing start with
    | nil => exact tidy
    | cons part parts ih => exact ih _ (tidy.cleanStep part)
  have relative : isAbs text = false := relative
  obtain ⟨ups, names, shape, ordinary⟩ := tidy (text.splitOn '/') [] ⟨0, [], rfl, nofun⟩
  rw [clean, relative] at inside ⊢
  rw [shape] at inside ⊢
  cases ups with
  | zero => exact ordinary
  | succ ups => exact absurd rfl inside

/-! ## Extracting -/

inductive Node where
  | dir
  | file (content : Bytes)
deriving DecidableEq

abbrev Tree := Path → Option Node

/-- Create a directory unless it is there; the flag says whether none has failed. -/
def mkdir : Tree × Bool → Path → Tree × Bool
  | (tree, false), _ => (tree, false)
  | (tree, true), path =>
    match tree path with
    | none => (Function.update tree path (some .dir), true)
    | some .dir => (tree, true)
    | some (.file _) => (tree, false)

def mkdirAll (tree : Tree) (path : Path) : Tree × Bool :=
  (path.parts.inits.tail.map (Path.mk path.rooted)).foldl mkdir (tree, true)

/-- Create a file, or truncate it. -/
def openFile (tree : Tree) (path : Path) : Option Tree :=
  if tree path = some .dir then none else some (Function.update tree path (some (.file [])))

/-- A header of the archive, and what the reader yields behind it. -/
structure Header where
  name : String
  regular : Bool
  size : Int
  content : Bytes

/-- Extract one entry; the flag says whether there was no error. -/
def extractEntry (dataDir : String) (tree : Tree) (hdr : Header) : Tree × Bool :=
  if hdr.regular = false then (tree, true)
  else
    let path := clean hdr.name.toList
    if path = ⟨false, []⟩ ∨ path.rooted = true ∨ path.parts.head? = some dotDot then (tree, false)
    else
      let dest := join dataDir.toList path
      match mkdirAll tree dest.dir with
      | (tree, false) => (tree, false)
      | (tree, true) =>
        match openFile tree dest with
        | none => (tree, false)
        | some tree =>
          (Function.update tree dest (some (.file (hdr.content.take hdr.size.toNat))),
            hdr.size.toNat ≤ hdr.content.length)

def extractSnapshot (dataDir : String) : List Header → Tree → Tree × Bool
  | [], tree => (tree, true)
  | hdr :: archive, tree =>
    match extractEntry dataDir tree hdr with
    | (tree, false) => (tree, false)
    | (tree, true) => extractSnapshot dataDir archive tree

/-! ## Containment -/

/-- The path is that of the directory, or leads down from it. -/
def Below (root path : Path) : Prop :=
  path.rooted = root.rooted ∧
    ∃ names, path.parts = root.parts ++ names ∧ ∀ name ∈ names, Ordinary name

/-- The path leads to the directory. -/
def Leading (root path : Path) : Prop :=
  path.rooted = root.rooted ∧ path.parts <+: root.parts

/-- What may become of a path: a directory is made below the root or on the way to
it, or a file is made or written anew below the root. -/
def Changes (root path : Path) (before after : Option Node) : Prop :=
  (before = none ∧ after = some .dir ∧ (Below root path ∨ Leading root path)) ∨
    (before ≠ some .dir ∧ (∃ content, after = some (.file content)) ∧ Below root path ∧
      path ≠ root)

def Contained (root : Path) (before after : Tree) : Prop :=
  ∀ path, after path ≠ before path → Changes root path (before path) (after path)

variable {root path : Path} {before mid after : Tree}

theorem contained_refl (root : Path) (tree : Tree) : Contained root tree tree :=
  fun _ differs => absurd rfl differs

theorem Contained.trans (first : Contained root before mid) (second : Contained root mid after) :
    Contained root before after := by
  intro path differs
  by_cases same : after path = mid path
  · rw [same] at differs ⊢
    exact first path differs
  by_cases still : mid path = before path
  · rw [← still]
    exact second path same
  · -- what the second step changes was made by the first, so it is a file
    rcases second path same with ⟨missing, -, -⟩ | ⟨notDir, written, below⟩
    · rcases first path still with ⟨-, made, -⟩ | ⟨-, ⟨content, made⟩, -⟩
      · cases missing.symm.trans made
      · cases missing.symm.trans made
    · rcases first path still with ⟨-, made, -⟩ | ⟨absent, -, -⟩
      · exact absurd made notDir
      · exact .inr ⟨absent, written, below⟩

theorem contained_update {tree : Tree} {node : Node}
    (changes : Changes root path (tree path) (some node)) :
    Contained root tree (Function.update tree path (some node)) := by
  intro other differs
  by_cases same : other = path
  · subst same
    rwa [Function.update_self]
  · rw [Function.update_of_ne same] at differs
    exact absurd rfl differs

theorem contained_mkdirs {paths : List Path} (allowed : ∀ path ∈ paths, Below root path ∨
    Leading root path) (tree : Tree) (going : Bool) :
    Contained root tree (paths.foldl mkdir (tree, going)).1 := by
  induction paths generalizing tree going with
  | nil => exact contained_refl root tree
  | cons path paths ih =>
    obtain ⟨here, later⟩ := List.forall_mem_cons.mp allowed
    rw [List.foldl_cons]
    cases going with
    | false => exact ih later tree false
    | true =>
      rw [mkdir]
      split
      · rename_i missing
        exact (contained_update (.inl ⟨missing, rfl, here⟩)).trans (ih later _ _)
      · exact ih later tree true
      · exact ih later tree false

theorem contained_mkdirAll (below : Below root path) (tree : Tree) :
    Contained root tree (mkdirAll tree path.dir).1 := by
  obtain ⟨same, names, shape, ordinary⟩ := below
  refine contained_mkdirs (fun other member => ?_) tree true
  obtain ⟨parts, inside, rfl⟩ := List.mem_map.mp member
  have front : parts <+: root.parts ++ names := by
    rw [← shape]
    exact ((List.mem_inits _ _).mp (List.mem_of_mem_tail inside)).trans (List.dropLast_prefix _)
  rcases List.prefix_or_prefix_of_prefix front (List.prefix_append _ _) with leads | ⟨rest, rfl⟩
  · exact .inr ⟨same, leads⟩
  · rw [List.prefix_append_right_inj] at front
    exact .inl ⟨same, rest, rfl, fun name inside => ordinary name (front.subset inside)⟩

theorem contained_extractEntry (dataDir : String) (tree : Tree) (hdr : Header) :
    Contained (clean dataDir.toList) tree (extractEntry dataDir tree hdr).1 := by
  rw [extractEntry]
  split_ifs with skipped
  · exact contained_refl _ tree
  dsimp only
  split_ifs with refused
  · exact contained_refl _ tree
  push Not at refused
  obtain ⟨named, relative, inside⟩ := refused
  have relative := Bool.eq_false_of_not_eq_true relative
  have ordinary := ordinary_of_clean relative inside
  have joined : (join dataDir.toList (clean hdr.name.toList)).parts =
      (clean dataDir.toList).parts ++ (clean hdr.name.toList).parts :=
    foldl_ordinary ordinary _ _
  have below : Below (clean dataDir.toList) (join dataDir.toList (clean hdr.name.toList)) :=
    ⟨rfl, _, joined, ordinary⟩
  have strict : join dataDir.toList (clean hdr.name.toList) ≠ clean dataDir.toList := by
    intro same
    rw [same, List.self_eq_append_right] at joined
    exact named (Path.ext relative joined)
  have parents := contained_mkdirAll below tree
  split
  · rename_i made
    rwa [made] at parents
  · rename_i made
    rw [made] at parents
    rw [openFile]
    split_ifs with occupied
    · exact parents
    · dsimp only
      rw [Function.update_idem]
      exact parents.trans (contained_update (.inr ⟨occupied, ⟨_, rfl⟩, below, strict⟩))

/-- Whatever the archive and the files that are there: files are made or written
anew strictly below the data directory only, no directory becomes a file, and
directories are made at or below the data directory, or on the way to it where
they are missing. -/
theorem extraction_contained (dataDir : String) (archive : List Header) (tree : Tree) :
    Contained (clean dataDir.toList) tree (extractSnapshot dataDir archive tree).1 := by
  induction archive generalizing tree with
  | nil => exact contained_refl _ tree
  | cons hdr archive ih =>
    have first := contained_extractEntry dataDir tree hdr
    rw [extractSnapshot]
    split
    · rename_i failed
      rwa [failed] at first
    · rename_i ended
      rw [ended] at first
      exact first.trans (ih _)

/-- A file for a data directory whose parent is missing. -/
theorem parent_made :
    (extractSnapshot "/x/y" [⟨"c/f", true, 0, []⟩] fun _ => none).1 ⟨true, [['x']]⟩ = some .dir ∧
      ¬Below (clean "/x/y".toList) ⟨true, [['x']]⟩ := by
  constructor
  · decide +kernel
  · rintro ⟨-, names, split, -⟩
    have parts : (clean "/x/y".toList).parts = [['x'], ['y']] := by decide +kernel
    rw [parts] at split
    simp at split

end Scriva.Server.Snapshot
