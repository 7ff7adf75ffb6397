import Scriva.Lib.Text

/-!
# Newline-terminated lines

A file of lines is split into its complete lines and the bytes after the last
newline.  Joining complete lines and splitting again returns them, which is
what makes an append-only file of lines readable; bytes of a line whose
newline is missing end up in the tail and never in a line.
-/

namespace Scriva.Lib.Lines

open Text

/-- The complete lines of a file, without their newlines, and its tail. -/
def splitLines : Bytes → List Bytes × Bytes
  | [] => ([], [])
  | byte :: rest =>
    match splitLines rest with
    | (lines, tail) =>
      if byte = newline then ([] :: lines, tail)
      else
        match lines with
        | [] => ([], byte :: tail)
        | line :: lines => ((byte :: line) :: lines, tail)

def joinLines (lines : List Bytes) : Bytes :=
  lines.flatMap (· ++ [newline])

/-- The offsets at which lines start, the first one at `offset`. -/
def starts (offset : Nat) : List Bytes → List Nat
  | [] => []
  | line :: lines => offset :: starts (offset + line.length + 1) lines

@[simp]
theorem joinLines_nil : joinLines [] = [] := rfl

@[simp]
theorem joinLines_cons (line : Bytes) (lines : List Bytes) :
    joinLines (line :: lines) = line ++ newline :: joinLines lines := by
  simp [joinLines]

@[simp]
theorem joinLines_append (front back : List Bytes) :
    joinLines (front ++ back) = joinLines front ++ joinLines back :=
  List.flatMap_append

theorem joinLines_singleton (line : Bytes) :
    joinLines [line] = line ++ [newline] := by
  simp

@[simp]
theorem length_starts (offset : Nat) (lines : List Bytes) :
    (starts offset lines).length = lines.length := by
  induction lines generalizing offset with
  | nil => rfl
  | cons line lines ih => simp [starts, ih]

/-- A tail without a newline has no complete line. -/
theorem splitLines_tail {tail : Bytes} (plain : newline ∉ tail) :
    splitLines tail = ([], tail) := by
  induction tail with
  | nil => rfl
  | cons byte tail ih =>
    rw [List.mem_cons, not_or] at plain
    simp [splitLines, ih plain.2, Ne.symm plain.1]

theorem splitLines_line {line : Bytes} (rest : Bytes) (plain : newline ∉ line) :
    splitLines (line ++ newline :: rest) =
      (line :: (splitLines rest).1, (splitLines rest).2) := by
  induction line with
  | nil => simp [splitLines]
  | cons byte line ih =>
    rw [List.mem_cons, not_or] at plain
    simp [splitLines, ih plain.2, Ne.symm plain.1]

/-- Splitting returns the lines that were joined, and what follows them is split
as if it stood alone. -/
theorem splitLines_append {lines : List Bytes} (plain : ∀ line ∈ lines, newline ∉ line)
    (rest : Bytes) :
    splitLines (joinLines lines ++ rest) =
      (lines ++ (splitLines rest).1, (splitLines rest).2) := by
  induction lines with
  | nil => rfl
  | cons line lines ih =>
    have later := ih fun other member =>
      plain other (.tail _ member)
    rw [joinLines_cons, List.append_assoc, List.cons_append,
      splitLines_line _ (plain line (.head _)), later]
    rfl

/-- Splitting returns the lines that were joined, and the unfinished line that
follows them. -/
theorem splitLines_joinLines {lines : List Bytes} {tail : Bytes}
    (plain : ∀ line ∈ lines, newline ∉ line) (unfinished : newline ∉ tail) :
    splitLines (joinLines lines ++ tail) = (lines, tail) := by
  rw [splitLines_append plain, splitLines_tail unfinished, List.append_nil]

theorem newline_notMem_splitLines (file : Bytes) :
    (∀ line ∈ (splitLines file).1, newline ∉ line) ∧ newline ∉ (splitLines file).2 := by
  induction file with
  | nil => exact ⟨nofun, List.not_mem_nil⟩
  | cons byte rest ih =>
    rw [splitLines]
    rcases split : splitLines rest with ⟨lines, tail⟩
    rw [split] at ih
    obtain ⟨plain, unfinished⟩ := ih
    simp only
    split_ifs with ended
    · refine ⟨?_, unfinished⟩
      intro line member
      rcases List.mem_cons.mp member with rfl | later
      · exact List.not_mem_nil
      · exact plain line later
    · cases lines with
      | nil =>
        refine ⟨nofun, ?_⟩
        rw [List.mem_cons, not_or]
        exact ⟨Ne.symm ended, unfinished⟩
      | cons first lines =>
        refine ⟨?_, unfinished⟩
        intro line member
        rcases List.mem_cons.mp member with rfl | later
        · rw [List.mem_cons, not_or]
          exact ⟨Ne.symm ended, plain first (.head _)⟩
        · exact plain line (.tail _ later)

theorem joinLines_splitLines (file : Bytes) :
    joinLines (splitLines file).1 ++ (splitLines file).2 = file := by
  induction file with
  | nil => rfl
  | cons byte rest ih =>
    rw [splitLines]
    rcases split : splitLines rest with ⟨lines, tail⟩
    rw [split] at ih
    simp only
    split_ifs with ended
    · rw [joinLines_cons, ended, ← ih]
      rfl
    · cases lines with
      | nil => exact congrArg (byte :: ·) ih
      | cons line lines =>
        rw [joinLines_cons] at ih ⊢
        exact congrArg (byte :: ·) ih

theorem joinLines_of_complete {file : Bytes} (complete : file ≠ [] → file.getLast? = some newline) :
    joinLines (splitLines file).1 = file := by
  have whole := joinLines_splitLines file
  rcases List.eq_nil_or_concat (splitLines file).2 with none | ⟨front, last, tail⟩
  · rwa [none, List.append_nil] at whole
  · have unfinished := (newline_notMem_splitLines file).2
    have filled : file ≠ [] := by
      rw [← whole, tail]
      simp
    have ended := complete filled
    rw [← whole, tail, List.concat_eq_append, ← List.append_assoc, List.getLast?_concat,
      Option.some.injEq] at ended
    rw [tail, ended] at unfinished
    exact absurd (by simp) unfinished

theorem getLast?_joinLines {lines : List Bytes} (filled : joinLines lines ≠ []) :
    (joinLines lines).getLast? = some newline := by
  rcases List.eq_nil_or_concat lines with rfl | ⟨front, line, rfl⟩
  · exact absurd rfl filled
  · rw [List.concat_eq_append, joinLines_append, joinLines_singleton, ← List.append_assoc,
      List.getLast?_concat]

end Scriva.Lib.Lines
