import Scriva.Lib.Text

/-!
# JSON text

JSON as a syntax tree, its compact rendering, and a recursive-descent reader.
Numbers are kept as their literal text, so that a reader of the tree decides
by itself how a literal is to be understood: as a machine integer or as a
floating-point value.

Strings are escaped the way common encoders escape them for embedding in
HTML: quotes, backslashes and control characters, the three characters `<`,
`>` and `&`, and the two Unicode line separators.  The main theorem is that
reading a rendered tree returns the tree.
-/

namespace Scriva.Lib.JsonText

open Text

/-! ## Syntax trees -/

/-- A JSON document.  Object fields keep their textual order. -/
inductive Json where
  | null
  | bool (value : Bool)
  | num (literal : String)
  | str (text : String)
  | arr (items : List Json)
  | obj (fields : List (String × Json))
deriving Repr

/-! ## Rendering -/

/-- Four lowercase hexadecimal digits of a code unit. -/
def hex4 (code : Nat) : List Char :=
  [Nat.digitChar (code / 4096 % 16), Nat.digitChar (code / 256 % 16),
    Nat.digitChar (code / 16 % 16), Nat.digitChar (code % 16)]

/-- Characters written as a `\u` escape although they have no short form. -/
def needsUnicodeEscape (c : Char) : Bool :=
  c.toNat < 0x20 || c = '<' || c = '>' || c = '&' ||
    c.toNat = 0x2028 || c.toNat = 0x2029

/-- One character of a string literal. -/
def escapeChar (c : Char) : List Char :=
  if c = '"' then ['\\', '"']
  else if c = '\\' then ['\\', '\\']
  else if c = '\n' then ['\\', 'n']
  else if c = '\r' then ['\\', 'r']
  else if c = '\t' then ['\\', 't']
  else if c.toNat = 8 then ['\\', 'b']
  else if c.toNat = 12 then ['\\', 'f']
  else if needsUnicodeEscape c then '\\' :: 'u' :: hex4 c.toNat
  else [c]

/-- A string literal with its closing quote, but without the opening one. -/
def renderChars : List Char → List Char
  | [] => ['"']
  | c :: rest => escapeChar c ++ renderChars rest

/-- A complete string literal. -/
def renderString (text : String) : List Char :=
  '"' :: renderChars text.toList

mutual

/-- The compact rendering of a document. -/
def render : Json → List Char
  | .null => ['n', 'u', 'l', 'l']
  | .bool true => ['t', 'r', 'u', 'e']
  | .bool false => ['f', 'a', 'l', 's', 'e']
  | .num literal => literal.toList
  | .str text => renderString text
  | .arr [] => ['[', ']']
  | .arr (item :: items) => '[' :: (render item ++ renderItems items)
  | .obj [] => ['{', '}']
  | .obj ((name, value) :: fields) =>
    '{' :: (renderString name ++ ':' :: (render value ++ renderFields fields))

/-- The items after the first one, with the closing bracket. -/
def renderItems : List Json → List Char
  | [] => [']']
  | item :: items => ',' :: (render item ++ renderItems items)

/-- The fields after the first one, with the closing brace. -/
def renderFields : List (String × Json) → List Char
  | [] => ['}']
  | (name, value) :: fields =>
    ',' :: (renderString name ++ ':' :: (render value ++ renderFields fields))

end

/-! ### The length of a rendering -/

theorem length_le_renderChars (text : List Char) :
    text.length ≤ (renderChars text).length := by
  induction text with
  | nil => exact Nat.zero_le _
  | cons c text ih =>
    have one : 1 ≤ (escapeChar c).length := by
      unfold escapeChar
      split_ifs
      all_goals simp
    rw [renderChars, List.length_append, List.length_cons]
    omega

variable {name : String} {value : Json} {fields : List (String × Json)} {c : Char}

theorem length_le_renderFields (member : (name, value) ∈ fields) :
    (render value).length ≤ (renderFields fields).length := by
  induction fields with
  | nil => cases member
  | cons first fields ih =>
    obtain ⟨other, held⟩ := first
    rw [renderFields]
    simp only [List.length_cons, List.length_append]
    rcases List.mem_cons.mp member with same | later
    · obtain ⟨rfl, rfl⟩ := Prod.mk.inj same
      omega
    · have rest := ih later
      omega

/-- A field of an object is no longer than the object. -/
theorem length_le_render_obj (member : (name, value) ∈ fields) :
    (render value).length ≤ (render (.obj fields)).length := by
  cases fields with
  | nil => cases member
  | cons first fields =>
    have rest := length_le_renderFields member
    rw [render]
    rw [renderFields] at rest
    exact rest

/-! ## Reading -/

def isSpace (c : Char) : Bool :=
  c = ' ' || c = '\t' || c = '\n' || c = '\r'

def skipSpace (input : List Char) : List Char :=
  input.dropWhile isSpace

/-- The characters that can occur inside a number literal. -/
def isNumberChar (c : Char) : Bool :=
  c.isDigit || c = '-' || c = '+' || c = '.' || c = 'e' || c = 'E'

def hexValue (c : Char) : Option Nat :=
  if c.isDigit then some (c.toNat - 48)
  else if 'a' ≤ c ∧ c ≤ 'f' then some (c.toNat - 87)
  else if 'A' ≤ c ∧ c ≤ 'F' then some (c.toNat - 55)
  else none

def hex4Value (a b c d : Char) : Option Nat :=
  match hexValue a, hexValue b, hexValue c, hexValue d with
  | some a, some b, some c, some d => some (4096 * a + 256 * b + 16 * c + d)
  | _, _, _, _ => none

/-- The code of a one-letter escape. -/
def unescapeCode (c : Char) : Option Nat :=
  if c = '"' then some 34
  else if c = '\\' then some 92
  else if c = '/' then some 47
  else if c = 'n' then some 10
  else if c = 'r' then some 13
  else if c = 't' then some 9
  else if c = 'b' then some 8
  else if c = 'f' then some 12
  else none

/-- Put a code unit in front of the units that have been read. -/
def consUnit (code : Nat) :
    Option (List Nat × List Char) → Option (List Nat × List Char)
  | some (units, rest) => some (code :: units, rest)
  | none => none

/--
Read the rest of a string literal after its opening quote, as code units:
a `\u` escape gives one unit, any other character its own code.
-/
def parseUnits : List Char → Option (List Nat × List Char)
  | [] => none
  | '"' :: rest => some ([], rest)
  | '\\' :: 'u' :: a :: b :: c :: d :: rest =>
    match hex4Value a b c d with
    | some code => consUnit code (parseUnits rest)
    | none => none
  | '\\' :: c :: rest =>
    match unescapeCode c with
    | some code => consUnit code (parseUnits rest)
    | none => none
  | c :: rest =>
    if c.toNat < 0x20 then none else consUnit c.toNat (parseUnits rest)

def isHighSurrogate (code : Nat) : Bool := 0xD800 ≤ code && code < 0xDC00

def isLowSurrogate (code : Nat) : Bool := 0xDC00 ≤ code && code < 0xE000

/-- A unit on its own; a lone surrogate becomes the replacement character. -/
def unitChar (code : Nat) : Char :=
  if isHighSurrogate code || isLowSurrogate code then Char.ofNat 0xFFFD
  else Char.ofNat code

/-- Join code units to characters: a surrogate pair stands for one. -/
def joinUnits : List Nat → List Char
  | [] => []
  | [code] => [unitChar code]
  | high :: low :: tail =>
    if isHighSurrogate high && isLowSurrogate low then
      Char.ofNat (0x10000 + (high - 0xD800) * 0x400 + (low - 0xDC00)) ::
        joinUnits tail
    else
      unitChar high :: joinUnits (low :: tail)

/-- Read the rest of a string literal after its opening quote. -/
def parseChars (input : List Char) : Option (String × List Char) :=
  match parseUnits input with
  | some (units, rest) => some (String.ofList (joinUnits units), rest)
  | none => none

/-- A number literal extends as far as its characters do. -/
def parseNumber (input : List Char) : Option (Json × List Char) :=
  some (.num (String.ofList (input.takeWhile isNumberChar)),
    input.dropWhile isNumberChar)

def parseWord : List Char → Option (Json × List Char)
  | 'n' :: 'u' :: 'l' :: 'l' :: rest => some (.null, rest)
  | 't' :: 'r' :: 'u' :: 'e' :: rest => some (.bool true, rest)
  | 'f' :: 'a' :: 'l' :: 's' :: 'e' :: rest => some (.bool false, rest)
  | _ => none

mutual

/-- Read one document from the front of the input. -/
def parseValue : Nat → List Char → Option (Json × List Char)
  | 0, _ => none
  | fuel + 1, input =>
    match skipSpace input with
    | [] => none
    | c :: rest =>
      if c = '"' then
        (parseChars rest).map fun read => (.str read.1, read.2)
      else if c = '[' then
        match skipSpace rest with
        | ']' :: tail => some (.arr [], tail)
        | items =>
          (parseItems fuel items).map fun read => (.arr read.1, read.2)
      else if c = '{' then
        match skipSpace rest with
        | '}' :: tail => some (.obj [], tail)
        | fields =>
          (parseFields fuel fields).map fun read => (.obj read.1, read.2)
      else if isNumberChar c then parseNumber (c :: rest)
      else parseWord (c :: rest)

/-- Read the items of an array up to the closing bracket. -/
def parseItems : Nat → List Char → Option (List Json × List Char)
  | 0, _ => none
  | fuel + 1, input =>
    match parseValue fuel input with
    | none => none
    | some (item, rest) =>
      match skipSpace rest with
      | ',' :: tail =>
        (parseItems fuel tail).map fun read => (item :: read.1, read.2)
      | ']' :: tail => some ([item], tail)
      | _ => none

/-- Read the fields of an object up to the closing brace. -/
def parseFields : Nat → List Char → Option (List (String × Json) × List Char)
  | 0, _ => none
  | fuel + 1, input =>
    match skipSpace input with
    | '"' :: rest =>
      match parseChars rest with
      | none => none
      | some (name, rest) =>
        match skipSpace rest with
        | ':' :: rest =>
          match parseValue fuel rest with
          | none => none
          | some (value, rest) =>
            match skipSpace rest with
            | ',' :: tail =>
              (parseFields fuel tail).map fun read =>
                ((name, value) :: read.1, read.2)
            | '}' :: tail => some ([(name, value)], tail)
            | _ => none
        | _ => none
    | _ => none

end

/-- Read a text that holds exactly one document. -/
def parse (input : List Char) : Option Json :=
  match parseValue (input.length + 1) input with
  | some (document, rest) => if skipSpace rest = [] then some document else none
  | none => none

/-! ## Reading a rendered string -/

theorem hexValue_digitChar (digit : Nat) (bound : digit < 16) :
    hexValue (Nat.digitChar digit) = some digit := by
  interval_cases digit <;> decide

theorem hex4Value_hex4 (code : Nat) (bound : code < 65536) :
    hex4Value (Nat.digitChar (code / 4096 % 16))
        (Nat.digitChar (code / 256 % 16)) (Nat.digitChar (code / 16 % 16))
        (Nat.digitChar (code % 16)) = some code := by
  have digit (value : Nat) : value % 16 < 16 := Nat.mod_lt _ (by decide)
  simp only [hex4Value, hexValue_digitChar _ (digit _), Option.some.injEq]
  omega

theorem needsUnicodeEscape_lt (escaped : needsUnicodeEscape c) : c.toNat < 65536 := by
  simp only [needsUnicodeEscape, Bool.or_eq_true, decide_eq_true_eq] at escaped
  rcases escaped with ((((h | h) | h) | h) | h) | h
  · omega
  · subst h; decide
  · subst h; decide
  · subst h; decide
  · omega
  · omega

/-- One escaped character is read back as its own code. -/
theorem parseUnits_escapeChar (c : Char) (rest : List Char) :
    parseUnits (escapeChar c ++ rest) = consUnit c.toNat (parseUnits rest) := by
  unfold escapeChar
  by_cases quote : c = '"'
  · subst c
    simp [parseUnits, unescapeCode]
  by_cases backslash : c = '\\'
  · subst c
    simp [parseUnits, unescapeCode]
  by_cases newline : c = '\n'
  · subst c
    simp [parseUnits, unescapeCode]
  by_cases carriage : c = '\r'
  · subst c
    simp [parseUnits, unescapeCode]
  by_cases tab : c = '\t'
  · subst c
    simp [parseUnits, unescapeCode]
  by_cases backspace : c.toNat = 8
  · simp [quote, backslash, newline, carriage, tab, backspace, parseUnits,
      unescapeCode]
  by_cases formFeed : c.toNat = 12
  · simp [quote, backslash, newline, carriage, tab, formFeed, parseUnits,
      unescapeCode]
  simp only [quote, backslash, newline, carriage, tab, backspace, formFeed,
    if_false]
  split
  · rename_i escaped
    simp [parseUnits, hex4, hex4Value_hex4 _ (needsUnicodeEscape_lt escaped)]
  · rename_i plain
    have printable : ¬ c.toNat < 0x20 := by
      intro control
      simp [needsUnicodeEscape, control] at plain
    rw [List.singleton_append, parseUnits]
    · simp [printable]
    all_goals simp_all

theorem parseUnits_renderChars (text rest : List Char) :
    parseUnits (renderChars text ++ rest) =
      some (text.map Char.toNat, rest) := by
  induction text with
  | nil => simp [renderChars, parseUnits]
  | cons c text induction =>
    rw [renderChars, List.append_assoc, parseUnits_escapeChar, induction]
    rfl

theorem not_surrogate (c : Char) :
    isHighSurrogate c.toNat = false ∧ isLowSurrogate c.toNat = false := by
  have valid := c.valid
  simp only [UInt32.isValidChar, Nat.isValidChar] at valid
  have code : c.toNat = c.val.toNat := rfl
  constructor
  · simp only [isHighSurrogate, Bool.and_eq_false_iff, decide_eq_false_iff_not]
    omega
  · simp only [isLowSurrogate, Bool.and_eq_false_iff, decide_eq_false_iff_not]
    omega

/-- The codes of characters contain no surrogates, so nothing is joined. -/
theorem joinUnits_toNat (text : List Char) :
    joinUnits (text.map Char.toNat) = text := by
  have single (c : Char) : unitChar c.toNat = c := by
    simp [unitChar, not_surrogate c, Char.ofNat_toNat]
  induction text with
  | nil => rfl
  | cons c text induction =>
    cases text with
    | nil => simp [joinUnits, single]
    | cons d text =>
      simp only [List.map_cons] at induction ⊢
      rw [joinUnits]
      simp [not_surrogate c, single, induction]

theorem parseChars_renderChars (text : String) (rest : List Char) :
    parseChars (renderChars text.toList ++ rest) = some (text, rest) := by
  simp [parseChars, parseUnits_renderChars, joinUnits_toNat]

/-! ## Reading a rendered document -/

mutual

/-- Every number literal in the document is non-empty and delimits itself. -/
def WellFormed : Json → Prop
  | .null | .bool _ | .str _ => True
  | .num literal => literal.toList ≠ [] ∧ ∀ c ∈ literal.toList, isNumberChar c
  | .arr items => WellFormedItems items
  | .obj fields => WellFormedFields fields

def WellFormedItems : List Json → Prop
  | [] => True
  | item :: items => WellFormed item ∧ WellFormedItems items

def WellFormedFields : List (String × Json) → Prop
  | [] => True
  | (_, value) :: fields => WellFormed value ∧ WellFormedFields fields

end

theorem wellFormedFields_append (front back : List (String × Json)) :
    WellFormedFields (front ++ back) ↔
      WellFormedFields front ∧ WellFormedFields back := by
  induction front with
  | nil => simp [WellFormedFields]
  | cons field front induction => simp [WellFormedFields, induction, and_assoc]

/-- What may follow a document: nothing that would prolong a number. -/
def Delimited (rest : List Char) : Prop :=
  ∀ c tail, rest = c :: tail → isNumberChar c = false

theorem delimited_cons (rest : List Char) (stop : isNumberChar c = false) :
    Delimited (c :: rest) := by
  intro c' tail equal
  cases equal
  exact stop

theorem skipSpace_cons (rest : List Char) (solid : isSpace c = false) :
    skipSpace (c :: rest) = c :: rest := by
  simp [skipSpace, solid]

theorem isSpace_of_isNumberChar (number : isNumberChar c) : isSpace c = false := by
  simp only [isNumberChar, Bool.or_eq_true, decide_eq_true_eq] at number
  rcases number with ((((h | h) | h) | h) | h) | h
  · by_contra space
    simp only [isSpace, Bool.or_eq_true, decide_eq_true_eq,
      Bool.not_eq_false] at space
    rcases space with ((rfl | rfl) | rfl) | rfl <;> simp at h
  all_goals subst h; decide

theorem takeWhile_literal {literal rest : List Char}
    (numeric : ∀ c ∈ literal, isNumberChar c) (stop : Delimited rest) :
    (literal ++ rest).takeWhile isNumberChar = literal ∧
      (literal ++ rest).dropWhile isNumberChar = rest := by
  induction literal with
  | nil =>
    cases rest with
    | nil => simp
    | cons c tail => simp [stop c tail rfl]
  | cons c literal induction =>
    have head : isNumberChar c := numeric c (by simp)
    have tail := induction fun d member => numeric d (by simp [member])
    simp [head, tail]

/-- A rendered document starts with a character that is neither blank nor a
closing bracket. -/
theorem render_head {document : Json} (wellFormed : WellFormed document) :
    ∃ c tail, render document = c :: tail ∧ isSpace c = false ∧
      c ≠ ']' ∧ c ≠ '}' := by
  cases document with
  | null => exact ⟨_, _, rfl, by decide, by decide, by decide⟩
  | bool value =>
    cases value <;> exact ⟨_, _, rfl, by decide, by decide, by decide⟩
  | num literal =>
    simp only [WellFormed] at wellFormed
    obtain ⟨nonempty, numeric⟩ := wellFormed
    cases shape : literal.toList with
    | nil => exact (nonempty shape).elim
    | cons c tail =>
      have number : isNumberChar c := numeric c (by simp [shape])
      refine ⟨c, tail, by simp [render, shape],
        isSpace_of_isNumberChar number, ?_, ?_⟩
      · rintro rfl
        simp [isNumberChar] at number
      · rintro rfl
        simp [isNumberChar] at number
  | str text => exact ⟨_, _, rfl, by decide, by decide, by decide⟩
  | arr items =>
    cases items <;>
      exact ⟨_, _, by rw [render], by decide, by decide, by decide⟩
  | obj fields =>
    cases fields <;>
      exact ⟨_, _, by rw [render], by decide, by decide, by decide⟩

theorem ne_opening_of_isNumberChar (number : isNumberChar c) : c ≠ '"' ∧ c ≠ '[' ∧ c ≠ '{' := by
  refine ⟨?_, ?_, ?_⟩ <;> rintro rfl <;> simp [isNumberChar] at number

theorem parseValue_bracket (fuel : Nat) {c : Char} (tail : List Char)
    (solid : isSpace c = false) (open' : c ≠ ']') :
    parseValue (fuel + 1) ('[' :: c :: tail) =
      (parseItems fuel (c :: tail)).map fun read => (.arr read.1, read.2) := by
  rw [parseValue, skipSpace_cons _ (by decide)]
  simp only [skipSpace_cons _ solid]
  split <;> simp_all

theorem parseValue_brace (fuel : Nat) (tail : List Char) :
    parseValue (fuel + 1) ('{' :: '"' :: tail) =
      (parseFields fuel ('"' :: tail)).map fun read => (.obj read.1, read.2) := by
  rw [parseValue, skipSpace_cons _ (by decide)]
  simp [skipSpace, isSpace]

mutual

/-- Reading a rendered document returns it, and what follows it. -/
theorem parseValue_render (document : Json) (fuel : Nat) (rest : List Char)
    (wellFormed : WellFormed document)
    (enough : (render document).length ≤ fuel) (stop : Delimited rest) :
    parseValue fuel (render document ++ rest) = some (document, rest) := by
  obtain ⟨fuel, rfl⟩ : ∃ before, fuel = before + 1 := by
    obtain ⟨c, tail, shape, -⟩ := render_head wellFormed
    rw [shape, List.length_cons] at enough
    exact ⟨fuel - 1, by omega⟩
  match document with
  | .null =>
    simp [render, parseValue, skipSpace, isSpace, parseWord, isNumberChar]
  | .bool true =>
    simp [render, parseValue, skipSpace, isSpace, parseWord, isNumberChar]
  | .bool false =>
    simp [render, parseValue, skipSpace, isSpace, parseWord, isNumberChar]
  | .num literal =>
    simp only [WellFormed] at wellFormed
    obtain ⟨nonempty, numeric⟩ := wellFormed
    cases shape : literal.toList with
    | nil => exact (nonempty shape).elim
    | cons c tail =>
      have number : isNumberChar c := numeric c (by simp [shape])
      have lexed := takeWhile_literal numeric stop
      rw [shape, List.cons_append] at lexed
      obtain ⟨quote, bracket, brace⟩ := ne_opening_of_isNumberChar number
      simp only [render, shape, List.cons_append, parseValue,
        skipSpace_cons _ (isSpace_of_isNumberChar number), quote, bracket,
        brace, if_false, number, if_true, parseNumber, lexed]
      rw [← shape, String.ofList_toList]
  | .str text =>
    simp [render, renderString, parseValue, skipSpace, isSpace,
      parseChars_renderChars]
  | .arr [] => simp [render, parseValue, skipSpace, isSpace]
  | .arr (item :: items) =>
    simp only [WellFormed, WellFormedItems] at wellFormed
    simp only [render, List.length_cons] at enough
    have read := parseItems_render item items fuel rest wellFormed.1
      wellFormed.2 (by omega)
    obtain ⟨c, tail, shape, solid, bracket, -⟩ := render_head wellFormed.1
    simp only [render, shape, List.cons_append, List.append_assoc] at read ⊢
    rw [parseValue_bracket fuel _ solid bracket, read]
    rfl
  | .obj [] => simp [render, parseValue, skipSpace, isSpace]
  | .obj ((name, value) :: fields) =>
    simp only [WellFormed, WellFormedFields] at wellFormed
    simp only [render, List.length_cons] at enough
    have read := parseFields_render name value fields fuel rest wellFormed.1
      wellFormed.2 (by simp only [renderString] at enough ⊢; omega)
    simp only [render, renderString, List.cons_append,
      List.append_assoc] at read ⊢
    rw [parseValue_brace, read]
    rfl
termination_by fuel

theorem parseItems_render (item : Json) (items : List Json) (fuel : Nat)
    (rest : List Char) (wellFormed : WellFormed item)
    (allWellFormed : WellFormedItems items)
    (enough : (render item ++ renderItems items).length ≤ fuel) :
    parseItems fuel (render item ++ (renderItems items ++ rest)) =
      some (item :: items, rest) := by
  obtain ⟨fuel, rfl⟩ : ∃ before, fuel = before + 1 := by
    cases items <;> simp [renderItems] at enough <;>
      exact ⟨fuel - 1, by omega⟩
  rw [List.length_append] at enough
  match items with
  | [] =>
    simp only [renderItems, List.length_singleton] at enough
    have first := parseValue_render item fuel (']' :: rest) wellFormed
      (by omega) (delimited_cons _ (by decide))
    simp [parseItems, renderItems, first, skipSpace, isSpace]
  | next :: items =>
    simp only [renderItems, List.length_cons] at enough
    simp only [WellFormedItems] at allWellFormed
    have first := parseValue_render item fuel
      (renderItems (next :: items) ++ rest) wellFormed (by omega)
      (by
        simp only [renderItems, List.cons_append]
        exact delimited_cons _ (by decide))
    have tail := parseItems_render next items fuel rest allWellFormed.1
      allWellFormed.2 (by omega)
    simp only [renderItems, List.cons_append, List.append_assoc] at first tail
    simp [parseItems, renderItems, first, skipSpace, isSpace, tail]
termination_by fuel

theorem parseFields_render (name : String) (value : Json)
    (fields : List (String × Json)) (fuel : Nat) (rest : List Char)
    (wellFormed : WellFormed value) (allWellFormed : WellFormedFields fields)
    (enough : (renderString name ++
      ':' :: (render value ++ renderFields fields)).length ≤ fuel) :
    parseFields fuel
        (renderString name ++
          ':' :: (render value ++ (renderFields fields ++ rest))) =
      some ((name, value) :: fields, rest) := by
  obtain ⟨fuel, rfl⟩ : ∃ before, fuel = before + 1 := by
    simp [renderString] at enough
    exact ⟨fuel - 1, by omega⟩
  simp only [List.length_append, List.length_cons] at enough
  match fields with
  | [] =>
    simp only [renderFields, List.length_singleton] at enough
    have first := parseValue_render value fuel ('}' :: rest) wellFormed
      (by omega) (delimited_cons _ (by decide))
    simp [parseFields, renderString, renderFields, parseChars_renderChars,
      first, skipSpace, isSpace]
  | (next, nextValue) :: fields =>
    simp only [renderFields, List.length_cons, List.length_append] at enough
    simp only [WellFormedFields] at allWellFormed
    have first := parseValue_render value fuel
      (renderFields ((next, nextValue) :: fields) ++ rest) wellFormed
      (by omega)
      (by
        simp only [renderFields, List.cons_append]
        exact delimited_cons _ (by decide))
    have tail := parseFields_render next nextValue fields fuel rest
      allWellFormed.1 allWellFormed.2
      (by simp only [List.length_append, List.length_cons]; omega)
    simp only [renderFields, renderString, List.cons_append,
      List.append_assoc] at first tail
    simp [parseFields, renderString, renderFields, parseChars_renderChars,
      first, skipSpace, isSpace, tail]
termination_by fuel

end

theorem isNumberChar_of_isSpace (space : isSpace c) : isNumberChar c = false := by
  simp only [isSpace, Bool.or_eq_true, decide_eq_true_eq] at space
  rcases space with ((rfl | rfl) | rfl) | rfl <;> decide

/-- Reading a rendered document returns exactly that document, whatever blank
space follows it. -/
theorem parse_render (document : Json) (blank : List Char)
    (wellFormed : WellFormed document) (spaces : ∀ c ∈ blank, isSpace c) :
    parse (render document ++ blank) = some document := by
  have stop : Delimited blank := by
    rintro c tail rfl
    exact isNumberChar_of_isSpace (spaces c (.head _))
  have read := parseValue_render document
    ((render document ++ blank).length + 1) blank wellFormed
    (by rw [List.length_append]; omega) stop
  have skipped : skipSpace blank = [] := List.dropWhile_eq_nil_iff.mpr spaces
  simp only [parse, read, skipped, if_true]

/-! ## A rendered document has no control characters -/

theorem printable_escapeChar (c : Char) : printable (escapeChar c) := by
  unfold escapeChar
  split_ifs with quote backslash newline carriage tab backspace formFeed escaped
  any_goals decide
  · have digit (value : Nat) : 32 ≤ (Nat.digitChar (value % 16)).toNat := by
      have bound : value % 16 < 16 := Nat.mod_lt _ (by decide)
      interval_cases value % 16 <;> decide
    simp only [hex4, printable_cons, digit, decide_true, Bool.true_and]
    decide
  · simp only [needsUnicodeEscape, Bool.or_eq_true, decide_eq_true_eq, not_or,
      not_lt] at escaped
    have code : 32 ≤ c.toNat := escaped.1.1.1.1.1
    simp only [printable_cons, code, decide_true, Bool.true_and]
    rfl

theorem printable_renderString (text : String) : printable (renderString text) := by
  have chars (text : List Char) : printable (renderChars text) := by
    induction text with
    | nil => decide
    | cons c text ih =>
      simp [renderChars, printable_escapeChar, ih]
  simp [renderString, chars]

theorem printable_of_isNumberChar {text : List Char}
    (number : ∀ c ∈ text, isNumberChar c) : printable text := by
  refine List.all_eq_true.mpr fun c member => ?_
  have allowed := number c member
  simp only [isNumberChar, Bool.or_eq_true, decide_eq_true_eq] at allowed
  rcases allowed with ((((digit | rfl) | rfl) | rfl) | rfl) | rfl
  · have code : 48 ≤ c.toNat := by
      simp only [Char.isDigit, Bool.and_eq_true, decide_eq_true_eq] at digit
      exact digit.1
    simpa using by omega
  all_goals decide

mutual

theorem printable_render (document : Json)
    (wellFormed : WellFormed document) : printable (render document) := by
  match document with
  | .null | .bool true | .bool false => decide
  | .num literal => exact printable_of_isNumberChar wellFormed.2
  | .str text => exact printable_renderString text
  | .arr [] | .obj [] => decide
  | .arr (item :: items) =>
    simp only [WellFormed, WellFormedItems] at wellFormed
    simp [render, printable_render item wellFormed.1,
      printable_renderItems items wellFormed.2]
  | .obj ((name, value) :: fields) =>
    simp only [WellFormed, WellFormedFields] at wellFormed
    simp [render, printable_renderString, printable_render value wellFormed.1,
      printable_renderFields fields wellFormed.2]

theorem printable_renderItems (items : List Json)
    (wellFormed : WellFormedItems items) : printable (renderItems items) := by
  match items with
  | [] => decide
  | item :: items =>
    simp only [WellFormedItems] at wellFormed
    simp [renderItems, printable_render item wellFormed.1,
      printable_renderItems items wellFormed.2]

theorem printable_renderFields (fields : List (String × Json))
    (wellFormed : WellFormedFields fields) : printable (renderFields fields) := by
  match fields with
  | [] => decide
  | (name, value) :: fields =>
    simp only [WellFormedFields] at wellFormed
    simp [renderFields, printable_renderString,
      printable_render value wellFormed.1,
      printable_renderFields fields wellFormed.2]

end

end Scriva.Lib.JsonText
