import Scriva.Engine.Scanning

/-!
# Byte positions in a segment file

A segment file is walked in several ways: backwards in chunks for the last
newline when it is opened for appending, forwards in chunks for the offsets of
its lines, and by a line scanner from its start or from an offset.  The walks
agree on where the lines are, wherever a file was cut before it was opened and
however its bytes are divided into chunks.  They do not agree any more once a
write has failed half way.
-/

namespace Scriva.Engine.Positions

open Lib.Text Lib.Lines Store.Record Store.Ndjson Segment PrimaryIndex Coherence Scanning
open Directory (Error)

/-! ## The search for the last newline -/

/-- A read fails if it goes beyond the end of the file. -/
def readFull (file : Bytes) (offset size : Nat) : Option Bytes :=
  if offset + size ≤ file.length then some ((file.drop offset).take size) else none

/-- The last newline in front of a position. -/
def lastNewline (buffer : Bytes) : Nat → Option Nat
  | 0 => none
  | i + 1 => if buffer[i]? = some newline then some i else lastNewline buffer i

/-- The end of the last line, searched from an offset on; an offset in front of the
file is its start. -/
def searchBack (file : Bytes) (offset : Int) : Option Nat :=
  match readFull file offset.toNat (file.length - offset.toNat) with
  | none => none
  | some buffer =>
    match lastNewline buffer buffer.length with
    | some i => some (offset.toNat + i + 1)
    | none =>
      if offset.toNat = 0 then some 0 else searchBack file (offset.toNat - 512)
termination_by offset.toNat
decreasing_by omega

/-- What is left of a file without its unfinished line, and its size. -/
def recover (file : Bytes) : Option (Bytes × Nat) :=
  if file.length = 0 then some (file, 0)
  else
    match readFull file (file.length - 1) 1 with
    | none => none
    | some last =>
      if last = [newline] then some (file, file.length)
      else (searchBack file (file.length - 512)).map fun size => (file.take size, size)

/-- A file whose last line is finished. -/
def Complete (file : Bytes) : Prop :=
  file = [] ∨ file.getLast? = some newline

structure LongestComplete (kept file : Bytes) : Prop where
  within : kept <+: file
  complete : Complete kept
  longest : ∀ other, other <+: file → Complete other → other.length ≤ kept.length

theorem lastNewline_cases (buffer : Bytes) (n : Nat) :
    (lastNewline buffer n = none ∧ newline ∉ buffer.take n) ∨
      ∃ i, lastNewline buffer n = some i ∧ buffer[i]? = some newline ∧
        newline ∉ (buffer.take n).drop (i + 1) := by
  induction n with
  | zero => exact .inl ⟨rfl, by simp⟩
  | succ n ih =>
    rw [lastNewline]
    split_ifs with here
    · refine .inr ⟨n, rfl, here, ?_⟩
      rw [List.drop_of_length_le (List.length_take_le _ _)]
      exact List.not_mem_nil
    · have grow : buffer.take (n + 1) = buffer.take n ++ buffer[n]?.toList :=
        List.take_add_one
      have other : newline ∉ buffer[n]?.toList := by
        simpa [eq_comm] using here
      rcases ih with ⟨none, plain⟩ | ⟨i, found, at', plain⟩
      · refine .inl ⟨none, ?_⟩
        rw [grow, List.mem_append, not_or]
        exact ⟨plain, other⟩
      · refine .inr ⟨i, found, at', ?_⟩
        rw [grow, List.drop_append]
        intro member
        rcases List.mem_append.mp member with early | late
        · exact plain early
        · exact other (List.mem_of_mem_drop late)

theorem recoverPartialLine_of_plain {file : Bytes} (plain : newline ∉ file) :
    recoverPartialLine file = 0 := by
  rw [recoverPartialLine, splitLines_tail plain]
  exact Nat.sub_self _

theorem recoverPartialLine_of_last (front : Bytes) {tail : Bytes} (unfinished : newline ∉ tail) :
    recoverPartialLine (front ++ newline :: tail) = front.length + 1 := by
  have lines : joinLines (splitLines (front ++ [newline])).1 = front ++ [newline] :=
    joinLines_of_complete fun _ => List.getLast?_concat
  have split := splitLines_joinLines (newline_notMem_splitLines (front ++ [newline])).1 unfinished
  rw [lines, List.append_assoc, List.singleton_append] at split
  rw [recoverPartialLine, split, List.length_append, List.length_cons, ← Nat.add_assoc,
    Nat.add_right_comm]
  exact Nat.add_sub_cancel _ _

theorem searchBack_eq (file : Bytes) (offset : Int) (inside : offset.toNat ≤ file.length) :
    searchBack file offset = some (recoverPartialLine file) := by
  have read : readFull file offset.toNat (file.length - offset.toNat) =
      some (file.drop offset.toNat) := by
    rw [readFull, if_pos (by omega), List.take_of_length_le (by simp)]
  have parts := List.take_append_drop offset.toNat file
  rw [searchBack, read]
  dsimp only
  rcases lastNewline_cases (file.drop offset.toNat) (file.drop offset.toNat).length with
    ⟨none, plain⟩ | ⟨i, found, here, plain⟩
  · rw [List.take_length] at plain
    rw [none]
    dsimp only
    split_ifs with start
    · rw [start, List.drop_zero] at plain
      rw [recoverPartialLine_of_plain plain]
    · exact searchBack_eq file _ (by omega)
  · rw [List.take_length] at plain
    rw [found]
    obtain ⟨bound, value⟩ := List.getElem?_eq_some_iff.mp here
    have split : file.drop offset.toNat =
        (file.drop offset.toNat).take i ++ newline :: (file.drop offset.toNat).drop (i + 1) := by
      rw [← value, List.getElem_cons_drop, List.take_append_drop]
    rw [split, ← List.append_assoc] at parts
    have size := recoverPartialLine_of_last (file.take offset.toNat ++
      (file.drop offset.toNat).take i) plain
    rw [parts, List.length_append, List.length_take_of_le inside,
      List.length_take_of_le bound.le] at size
    rw [size]
termination_by offset.toNat
decreasing_by omega

/-- The search backwards finds the part of the file that is kept. -/
theorem recover_eq (file : Bytes) :
    recover file = some (file.take (recoverPartialLine file), recoverPartialLine file) := by
  rw [recover]
  split_ifs with empty
  · rw [List.eq_nil_of_length_eq_zero empty]
    rfl
  · obtain ⟨front, last, rfl⟩ : ∃ front last, file = front ++ [last] := by
      rcases List.eq_nil_or_concat file with none | ⟨front, last, rest⟩
      · exact absurd (congrArg List.length none) empty
      · exact ⟨front, last, by rw [rest, List.concat_eq_append]⟩
    have read : readFull (front ++ [last]) ((front ++ [last]).length - 1) 1 = some [last] := by
      rw [readFull, if_pos (by simp), List.length_append, List.length_singleton,
        Nat.add_sub_cancel, List.drop_left]
      rfl
    rw [read]
    dsimp only
    split_ifs with ended
    · have size := recoverPartialLine_of_last front List.not_mem_nil
      rw [List.singleton_inj.mp ended, size, List.take_of_length_le (by simp), List.length_append,
        List.length_singleton]
    · rw [searchBack_eq _ _ (by omega)]
      rfl

theorem longestComplete_take (file : Bytes) :
    LongestComplete (file.take (recoverPartialLine file)) file := by
  have kept := (take_recoverPartialLine file).1
  have parts := joinLines_splitLines file
  have unfinished := (newline_notMem_splitLines file).2
  rw [kept]
  generalize (splitLines file).1 = lines at parts ⊢
  generalize (splitLines file).2 = tail at parts unfinished
  subst parts
  refine ⟨List.prefix_append _ _, ?_, ?_⟩
  · rw [Complete, or_iff_not_imp_left]
    exact getLast?_joinLines
  · intro other within complete
    by_contra longer
    obtain ⟨more, rfl⟩ : joinLines lines <+: other :=
      List.prefix_of_prefix_length_le (List.prefix_append _ _) within (by omega)
    -- what is longer ends inside the unfinished line
    have rest : more <+: tail := (List.prefix_append_right_inj _).mp within
    rcases List.eq_nil_or_concat more with rfl | ⟨front, last, rfl⟩
    · simp at longer
    · rw [Complete, List.concat_eq_append, ← List.append_assoc, List.getLast?_concat] at complete
      rcases complete with none | ended
      · simp at none
      · obtain rfl := Option.some.inj ended
        exact unfinished (rest.subset (by simp))

/-- The first of some items that fit into a size. -/
def fitting {α : Type} (size : α → Nat) : Nat → List α → List α
  | _, [] => []
  | n, a :: items => if size a ≤ n then a :: fitting size (n - size a) items else []

theorem fitting_subset {α : Type} (size : α → Nat) (n : Nat) (items : List α) :
    fitting size n items ⊆ items := by
  induction items generalizing n with
  | nil => exact List.Subset.refl _
  | cons a items ih =>
    rw [fitting]
    split_ifs
    · exact List.cons_subset_cons a (ih _)
    · exact List.nil_subset _

theorem fitting_map {α β : Type} (f : α → β) (size : β → Nat) (n : Nat) (items : List α) :
    fitting size n (items.map f) = (fitting (fun a => size (f a)) n items).map f := by
  induction items generalizing n with
  | nil => rfl
  | cons a items ih =>
    rw [List.map_cons, fitting, fitting]
    split_ifs
    · rw [ih, List.map_cons]
    · rfl

/-- A cut through lines leaves those that end in front of it and a piece without
a newline. -/
theorem recover_take {lines : List Bytes} (plain : ∀ line ∈ lines, newline ∉ line) (cut : Nat) :
    recover ((joinLines lines).take cut) =
      some (joinLines (fitting (fun line => line.length + 1) cut lines),
        (joinLines (fitting (fun line => line.length + 1) cut lines)).length) := by
  obtain ⟨kept, size⟩ := take_recoverPartialLine ((joinLines lines).take cut)
  suffices split : (splitLines ((joinLines lines).take cut)).1 =
      fitting (fun line => line.length + 1) cut lines by
    rw [recover_eq, kept, ← size, split]
  clear kept size
  induction lines generalizing cut with
  | nil => simp [fitting, splitLines]
  | cons line lines ih =>
    rw [List.forall_mem_cons] at plain
    rw [fitting]
    split_ifs with fits
    · have whole : (joinLines (line :: lines)).take cut =
          line ++ newline :: (joinLines lines).take (cut - (line.length + 1)) := by
        have first : joinLines (line :: lines) = (line ++ [newline]) ++ joinLines lines := by
          simp
        rw [first, List.take_append, List.take_of_length_le (by simpa using fits)]
        simp
      rw [whole, splitLines_line _ plain.1, ih plain.2]
    · rw [joinLines_cons, List.take_append_of_le_length (by omega),
        splitLines_tail fun member => plain.1 (List.mem_of_mem_take member)]

variable {N : Type} [JsonNumber N]

theorem exists_lines_encode (entries : List (Entry N)) :
    ∃ lines : List Bytes, (∀ line ∈ lines, newline ∉ line) ∧
      entries.filterMap encode = lines.map (· ++ [newline]) := by
  induction entries with
  | nil => exact ⟨[], List.forall_mem_nil _, rfl⟩
  | cons e entries ih =>
    obtain ⟨lines, plain, rest⟩ := ih
    rcases encoded : encode e with - | bytes
    · exact ⟨lines, plain, by rw [List.filterMap_cons_none encoded, rest]⟩
    · obtain ⟨raw, rfl, printed, -⟩ := encode_shape encoded
      refine ⟨raw :: lines, List.forall_mem_cons.mpr ⟨newline_notMem_of_printable printed, plain⟩, ?_⟩
      rw [List.filterMap_cons_some encoded, rest, List.map_cons]

/-- Opening a file for appending ends and reads nothing beyond the file; it keeps
the longest part that has no unfinished line, so of encoded entries that were
cut anywhere those whose line ends in front of the cut. -/
theorem torn_tail_recovered :
    (∀ file, ∃ kept, recover file = some (kept, kept.length) ∧ LongestComplete kept file) ∧
      ∀ (entries : List (Entry N)) (cut : Nat),
        recover ((entries.filterMap encode).flatten.take cut) =
          some ((fitting List.length cut (entries.filterMap encode)).flatten,
            (fitting List.length cut (entries.filterMap encode)).flatten.length) := by
  constructor
  · intro file
    refine ⟨file.take (recoverPartialLine file), ?_, longestComplete_take file⟩
    obtain ⟨kept, size⟩ := take_recoverPartialLine file
    rw [recover_eq, kept, size]
  · intro entries cut
    obtain ⟨lines, plain, encoded⟩ := exists_lines_encode entries
    have kept := recover_take plain cut
    simp only [joinLines, List.flatMap_def] at kept
    rw [encoded, fitting_map]
    simpa only [List.length_append, List.length_singleton] using kept

/-! ## The walk in chunks -/

structure Walk where
  lineStart : Nat
  inLine : Bool
  offsets : List Nat

/-- The bytes of a chunk, the first of them at a position of the file. -/
def walkChunk : Nat → Bytes → Walk → Walk
  | _, [], walk => walk
  | pos, byte :: bytes, walk =>
    let lineStart := if walk.inLine then walk.lineStart else pos
    walkChunk (pos + 1) bytes <|
      if byte = newline then ⟨lineStart, false, walk.offsets ++ [lineStart]⟩
      else ⟨lineStart, true, walk.offsets⟩

def walkChunks : Nat → List Bytes → Walk → Walk
  | _, [], walk => walk
  | pos, chunk :: chunks, walk =>
    walkChunks (pos + chunk.length) chunks (walkChunk pos chunk walk)

/-- The offsets of the lines of a file that is read in chunks. -/
def chunkOffsets (chunks : List Bytes) : List Nat :=
  (walkChunks 0 chunks ⟨0, false, []⟩).offsets

theorem walkChunk_append (pos : Nat) (front back : Bytes) (walk : Walk) :
    walkChunk pos (front ++ back) walk =
      walkChunk (pos + front.length) back (walkChunk pos front walk) := by
  induction front generalizing pos walk with
  | nil => rfl
  | cons byte front ih =>
    rw [List.cons_append, walkChunk, walkChunk, ih, List.length_cons, Nat.add_assoc,
      Nat.add_comm 1]

theorem walkChunks_eq (pos : Nat) (chunks : List Bytes) (walk : Walk) :
    walkChunks pos chunks walk = walkChunk pos chunks.flatten walk := by
  induction chunks generalizing pos walk with
  | nil => rfl
  | cons chunk chunks ih =>
    rw [walkChunks, ih, List.flatten_cons, walkChunk_append]

/-- A line that has begun keeps its start. -/
theorem walkChunk_line {line : Bytes} (plain : newline ∉ line) (pos : Nat) (rest : Bytes)
    (walk : Walk) :
    walkChunk pos (line ++ newline :: rest) walk =
      walkChunk (pos + line.length + 1) rest
        ⟨if walk.inLine then walk.lineStart else pos, false,
          walk.offsets ++ [if walk.inLine then walk.lineStart else pos]⟩ := by
  induction line generalizing pos walk with
  | nil => rfl
  | cons byte line ih =>
    rw [List.mem_cons, not_or] at plain
    rw [List.cons_append, walkChunk, if_neg (Ne.symm plain.1), ih plain.2, List.length_cons]
    simp only [if_true, Nat.add_assoc, Nat.add_comm 1]

theorem walkChunk_tail {tail : Bytes} (plain : newline ∉ tail) (pos : Nat) (walk : Walk) :
    (walkChunk pos tail walk).offsets = walk.offsets := by
  induction tail generalizing pos walk with
  | nil => rfl
  | cons byte tail ih =>
    rw [List.mem_cons, not_or] at plain
    rw [walkChunk, if_neg (Ne.symm plain.1), ih plain.2]

/-- However a file is divided into chunks, the walk finds the starts of its
lines. -/
theorem chunkOffsets_eq (chunks : List Bytes) :
    chunkOffsets chunks = scanOffsets chunks.flatten := by
  have along (lines : List Bytes) (plain : ∀ line ∈ lines, newline ∉ line) {tail : Bytes}
      (unfinished : newline ∉ tail) (pos start : Nat) (offsets : List Nat) :
      (walkChunk pos (joinLines lines ++ tail) ⟨start, false, offsets⟩).offsets =
        offsets ++ starts pos lines := by
    induction lines generalizing pos start offsets with
    | nil => rw [joinLines_nil, List.nil_append, walkChunk_tail unfinished, starts, List.append_nil]
    | cons line lines ih =>
      rw [List.forall_mem_cons] at plain
      rw [joinLines_cons, List.append_assoc, List.cons_append, walkChunk_line plain.1,
        ih plain.2, starts]
      simp
  obtain ⟨plain, unfinished⟩ := newline_notMem_splitLines chunks.flatten
  have whole := along _ plain unfinished 0 0 []
  rwa [joinLines_splitLines, ← walkChunks_eq] at whole

/-! ## Appends, failed writes and cuts -/

/-- A segment, and the entries that appends have returned an offset for. -/
structure Tracked (N : Type) where
  number : Nat
  file : Bytes
  size : Nat
  log : List (Located N)

inductive Event (N : Type) where
  | append (e : Entry N)
  /-- The write of a line fails after some of its bytes. -/
  | shortWrite (e : Entry N) (arrived : Nat)
  /-- The file is cut and opened again. -/
  | reopen (cut : Nat)

/-- The line of an entry, empty if it is refused. -/
def lineBytes (e : Entry N) : Bytes :=
  (appendBytes e).toOption.getD []

/-- What a failed write has left of a line. -/
def leftover (e : Entry N) (arrived : Nat) : Bytes :=
  (lineBytes e).dropLast.take arrived

/-- The offset of an append is the size that was recorded, while the bytes go to
the end of the file. -/
def Tracked.step (s : Tracked N) : Event N → Tracked N
  | .append e =>
    match appendBytes e with
    | .error _ => s
    | .ok bytes =>
      { s with
        file := s.file ++ bytes
        size := s.size + bytes.length
        log := s.log ++ [⟨s.number, s.size, e⟩] }
  | .shortWrite e arrived => { s with file := s.file ++ leftover e arrived }
  | .reopen cut =>
    match recover (s.file.take cut) with
    | none => s
    | some (file, size) =>
      { s with
        file, size
        log := s.log.filter fun line => line.offset + (lineBytes line.entry).length ≤ cut }

def run (number : Nat) (events : List (Event N)) : Tracked N :=
  events.foldl Tracked.step ⟨number, [], 0, []⟩

/-- All ways of reading the segment find the entries that were appended, where
they were appended. -/
structure Agrees (s : Tracked N) : Prop where
  scanFrom : scanFrom s.file (fun offset e found =>
    .ok (found ++ [(⟨s.number, offset, e⟩ : Located N)])) [] = .ok s.log
  scanOffsets : ∀ chunks, chunks.flatten = s.file →
    chunkOffsets chunks = s.log.map Located.offset
  readAt : ∀ line ∈ s.log, readAt s.file line.offset = some line.entry
  scanAll : scanAll s.file = some (s.log.map Located.entry)
  size : s.size = s.file.length

/-- The segment is made up of the lines of the entries appended to it. -/
structure Sound (s : Tracked N) (lines : List (SegmentLine N)) : Prop where
  file : s.file = fileOf lines
  size : s.size = (fileOf lines).length
  log : s.log = locateLines s.number 0 lines
  written : ∀ line ∈ lines, appendBytes line.entry = .ok (fileOf [line])

variable {s : Tracked N} {lines : List (SegmentLine N)}

theorem map_offset_locateLines (segment offset : Nat) (lines : List (SegmentLine N)) :
    (locateLines segment offset lines).map Located.offset =
      starts offset (lines.map SegmentLine.raw) := by
  induction lines generalizing offset with
  | nil => rfl
  | cons line lines ih => simp [locateLines, starts, ih]

theorem Sound.agrees (sound : Sound s lines) : Agrees s where
  scanFrom := by
    have tidy : ∀ line ∈ lines, dropCR line.raw = line.raw := by
      intro line member
      obtain ⟨raw, same, -, -, whole, -⟩ := appendBytes_shape (sound.written line member)
      rw [fileOf_singleton] at same
      rw [List.append_cancel_right same, whole]
    have collected (found rest : List (Located N)) :
        rest.foldlM (fun found line => (.ok (found ++ [line]) : Except Error _)) found =
          .ok (found ++ rest) := by
      induction rest generalizing found with
      | nil => rw [List.append_nil]; rfl
      | cons line rest ih =>
        rw [List.foldlM_cons]
        exact (ih _).trans (by rw [List.append_assoc]; rfl)
    rw [Scanning.scanFrom, sound.file, scannedLines_fileOf, sound.log,
      scanLines_eq (fun line found => .ok (found ++ [line])) s.number tidy]
    exact collected [] _
  scanOffsets := by
    intro chunks all
    rw [chunkOffsets_eq, all, sound.file, scanOffsets_fileOf, sound.log, map_offset_locateLines]
  readAt := by
    intro place member
    rw [sound.log] at member
    obtain ⟨front, line, back, rfl, rfl⟩ := mem_locateLines member
    rw [sound.file]
    simpa using readAt_fileOf front back line
  scanAll := by
    rw [sound.file, sound.log, scanAll_fileOf, map_entry_locateLines]
  size := by rw [sound.file, sound.size]

theorem filter_locateLines (written : ∀ line ∈ lines,
    (lineBytes line.entry).length = line.raw.length + 1) (segment offset cut : Nat) :
    (locateLines segment offset lines).filter
        (fun line => line.offset + (lineBytes line.entry).length ≤ cut) =
      locateLines segment offset (fitting (fun line => line.raw.length + 1) (cut - offset) lines) := by
  induction lines generalizing offset with
  | nil => rfl
  | cons line lines ih =>
    rw [List.forall_mem_cons] at written
    have rest := ih written.2 (offset + line.raw.length + 1)
    rw [fitting]
    split_ifs with fits
    · have here : offset + (line.raw.length + 1) ≤ cut := by omega
      rw [locateLines, locateLines, List.filter_cons_of_pos (by simpa [written.1] using here), rest,
        Nat.sub_sub, Nat.add_assoc]
    · have beyond : ¬offset + (line.raw.length + 1) ≤ cut := by omega
      change List.filter _ (_ :: _) = []
      rw [List.filter_cons_of_neg (by simpa [written.1] using beyond), List.filter_eq_nil_iff]
      intro later member fits
      have after := (offset_of_mem_locateLines member).2
      have inside := of_decide_eq_true fits
      omega

/-- Events that leave no part of a line behind. -/
def Event.Harmless : Event N → Prop
  | .append e => Storable e
  | .shortWrite e arrived => leftover e arrived = []
  | .reopen _ => True

theorem Sound.step (sound : Sound s lines) {event : Event N} (harmless : event.Harmless) :
    ∃ lines', Sound (s.step event) lines' := by
  cases event with
  | append e =>
    rw [Tracked.step]
    rcases accepted : appendBytes e with reason | bytes
    · exact ⟨lines, sound⟩
    · obtain ⟨line, rfl, rfl⟩ := exists_line_of_appendBytes harmless accepted
      refine ⟨lines ++ [line], ?_, ?_, ?_, ?_⟩
      · rw [fileOf_append, ← sound.file]
      · rw [fileOf_append, List.length_append, ← sound.size]
      · rw [locateLines_append, ← sound.log, Nat.zero_add, ← sound.size]
        rfl
      · exact List.forall_mem_append.mpr ⟨sound.written, by simpa using accepted⟩
  | shortWrite e arrived =>
    refine ⟨lines, ?_, sound.size, sound.log, sound.written⟩
    change s.file ++ leftover e arrived = fileOf lines
    rw [show leftover e arrived = [] from harmless, List.append_nil, sound.file]
  | reopen cut =>
    have plain : ∀ raw ∈ lines.map SegmentLine.raw, newline ∉ raw := by
      intro raw member
      obtain ⟨line, -, rfl⟩ := List.mem_map.mp member
      exact line.plain
    have kept := recover_take plain cut
    rw [fitting_map] at kept
    have size (line : SegmentLine N) (member : line ∈ lines) :
        (lineBytes line.entry).length = line.raw.length + 1 := by
      rw [lineBytes, sound.written line member, fileOf_singleton]
      simp [Except.toOption]
    refine ⟨fitting (fun line => line.raw.length + 1) cut lines, ?_⟩
    rw [Tracked.step, sound.file, fileOf, kept]
    refine ⟨rfl, rfl, ?_, fun line member => sound.written line (fitting_subset _ _ _ member)⟩
    rw [sound.log]
    exact filter_locateLines size s.number 0 cut

theorem exists_sound_run (number : Nat) (events : List (Event N))
    (harmless : ∀ event ∈ events, event.Harmless) : ∃ lines, Sound (run number events) lines := by
  induction events using List.reverseRecOn with
  | nil => exact ⟨[], rfl, rfl, rfl, List.forall_mem_nil _⟩
  | append_singleton events event ih =>
    rw [List.forall_mem_append, List.forall_mem_singleton] at harmless
    obtain ⟨lines, sound⟩ := ih harmless.1
    rw [run, List.foldl_append]
    exact sound.step harmless.2

/-- Appends of entries that a line says in full, and cuts. -/
def Event.Whole : Event N → Prop
  | .append e => Storable e
  | .shortWrite _ _ => False
  | .reopen _ => True

/-- If every entry appended can be said by a line, the offsets that appends return,
scans report and the walk in chunks computes are the same, and the entries are
read there. -/
theorem positions_agree (number : Nat) (events : List (Event N))
    (whole : ∀ event ∈ events, event.Whole) : Agrees (run number events) := by
  obtain ⟨lines, sound⟩ := exists_sound_run number events fun event member => by
    cases event with
    | append e => exact whole _ member
    | shortWrite e arrived => exact (whole _ member).elim
    | reopen cut => exact trivial
  exact sound.agrees

theorem positions_agree_plainRecord :
    Agrees (run 1 [.append plainRecord, .append plainRecord, .reopen 100, .append plainRecord]) := by
  apply positions_agree
  simp [Event.Whole, show Storable plainRecord by decide]

/-- A record with the empty map is appended, but cannot be read. -/
theorem positions_empty_map :
    (run 1 [.append emptyRecord]).log.map Located.entry = [emptyRecord] ∧
      ¬Agrees (run 1 [.append emptyRecord]) := by
  refine ⟨by decide +kernel, fun agrees => ?_⟩
  have scanned : (scanAll (N := Int) (run 1 [.append emptyRecord]).file).isSome = false := by
    decide +kernel
  rw [agrees.scanAll] at scanned
  cases scanned

/-! ## Failed writes -/

/-- Appends of entries that a line says in full, and failed writes. -/
def Event.Unopened : Event N → Prop
  | .append e => Storable e
  | .shortWrite _ _ => True
  | .reopen _ => False

/-- The recorded size does not go beyond the file, and falls behind with every part
of a line that is left. -/
theorem size_run (number : Nat) (events : List (Event N))
    (unopened : ∀ event ∈ events, event.Unopened) :
    (run number events).size ≤ (run number events).file.length ∧
      ((run number events).size = (run number events).file.length →
        ∀ e arrived, .shortWrite e arrived ∈ events → leftover e arrived = []) := by
  induction events using List.reverseRecOn with
  | nil => exact ⟨le_rfl, nofun⟩
  | append_singleton events event ih =>
    rw [List.forall_mem_append, List.forall_mem_singleton] at unopened
    obtain ⟨within, rest⟩ := ih unopened.1
    rw [run, List.foldl_append]
    change ((run number events).step event).size ≤ ((run number events).step event).file.length ∧
      (((run number events).step event).size = ((run number events).step event).file.length → _)
    cases event with
    | append e =>
      rw [Tracked.step]
      rcases appendBytes e with reason | bytes
      · refine ⟨within, fun same e arrived member => rest same e arrived ?_⟩
        simpa using member
      · dsimp only
        rw [List.length_append]
        refine ⟨by omega, fun same e arrived member => rest (by omega) e arrived ?_⟩
        simpa using member
    | shortWrite e arrived =>
      rw [Tracked.step]
      dsimp only
      rw [List.length_append]
      refine ⟨by omega, fun same e' arrived' member => ?_⟩
      rcases List.mem_append.mp member with early | last
      · exact rest (by omega) e' arrived' early
      · obtain ⟨rfl, rfl⟩ := Event.shortWrite.inj (List.mem_singleton.mp last)
        exact List.eq_nil_of_length_eq_zero (by omega)
    | reopen cut => exact unopened.2.elim

/-- A segment is read as it was written after failed writes if and only if none of
them has left a part of its line. -/
theorem failed_append_harmless_iff (number : Nat) (events : List (Event N))
    (unopened : ∀ event ∈ events, event.Unopened) :
    Agrees (run number events) ↔
      ∀ e arrived, .shortWrite e arrived ∈ events → leftover e arrived = [] := by
  constructor
  · intro agrees
    exact (size_run number events unopened).2 agrees.size
  · intro clean
    obtain ⟨lines, sound⟩ := exists_sound_run number events fun event member => by
      cases event with
      | append e => exact unopened _ member
      | shortWrite e arrived => exact clean e arrived member
      | reopen cut => exact (unopened _ member).elim
    exact sound.agrees

theorem failed_append_harmless_plainRecord :
    Agrees (run 1 [.append plainRecord, .shortWrite plainRecord 0, .append plainRecord]) := by
  rw [failed_append_harmless_iff]
  · simp [leftover]
  · simp [Event.Unopened, show Storable plainRecord by decide]

/-- One byte is left of a failed write, and a whole line follows. -/
def torn : Tracked Int :=
  run 1 [.shortWrite plainRecord 1, .append plainRecord]

/-- The next append after it returns an offset at which its entry is not found, and
the segment cannot be scanned any more. -/
theorem failed_append_harms :
    torn.log.map Located.offset = [0] ∧ torn.log.map Located.entry = [plainRecord] ∧
      readAt (N := Int) torn.file 0 = none ∧ scanAll (N := Int) torn.file = none ∧
      torn.size + 1 = torn.file.length := by
  decide +kernel

end Scriva.Engine.Positions
