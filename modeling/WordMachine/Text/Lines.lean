/-
  Lines of text and their ends.

  There are two notions of a line's end.  A line typed at the console loses a final
  newline and then a final carriage return, each of them on its own (`chomp`).  A
  text that holds many lines is cut after every newline, and a carriage return
  belongs to the end of a line only where a newline follows it (`splitLines`).

  * `eq_or_eq_append_dropTrailing`: dropping an end removes at most one character, and
    only that character;
  * `splitLines_newline`, `splitLines_return_newline`, `splitLines_cons`: the text
    read character by character.
-/
namespace WordMachine

/-! ## The end of one line -/

/-- The text without its last character, if that is `c`. -/
def dropTrailing (c : Char) (text : List Char) : List Char :=
  if text.getLast? = some c then text.dropLast else text

/-- The characters of a line: a final newline is dropped, then a final carriage
    return, whether or not there was a newline. -/
def chomp (line : String) : String :=
  String.ofList (dropTrailing '\r' (dropTrailing '\n' line.toList))

@[simp] theorem dropTrailing_nil (c : Char) : dropTrailing c [] = [] := rfl

@[simp] theorem dropTrailing_append_self (c : Char) (text : List Char) :
    dropTrailing c (text ++ [c]) = text := by
  simp [dropTrailing]

theorem dropTrailing_append_of_ne {c d : Char} (h : d ≠ c) (text : List Char) :
    dropTrailing c (text ++ [d]) = text ++ [d] := by
  simp [dropTrailing, h]

theorem dropTrailing_eq_self_iff {c : Char} {line : List Char} :
    dropTrailing c line = line ↔ line.getLast? ≠ some c := by
  constructor
  · intro h hlast
    obtain ⟨front, rfl⟩ := List.getLast?_eq_some_iff.mp hlast
    rw [dropTrailing_append_self] at h
    simp at h
  · intro h
    rw [dropTrailing, if_neg h]

/-- Nothing is dropped but one `c` at the end. -/
theorem eq_or_eq_append_dropTrailing (c : Char) (text : List Char) :
    text = dropTrailing c text ∨ text = dropTrailing c text ++ [c] := by
  unfold dropTrailing
  split
  · next h =>
    obtain ⟨front, rfl⟩ := List.getLast?_eq_some_iff.mp h
    simp
  · exact Or.inl rfl

theorem toList_chomp (line : String) :
    (chomp line).toList = dropTrailing '\r' (dropTrailing '\n' line.toList) := by
  simp [chomp]

/-! ## The lines of a text -/

/-- Puts a character in front of the first line. -/
def consFirst (c : Char) : List (List Char) → List (List Char)
  | [] => [[c]]
  | line :: lines => (c :: line) :: lines

/-- One character to the left of lines already read.  The flag says that a newline
    follows the character. -/
def splitStep (c : Char) : List (List Char) × Bool → List (List Char) × Bool
  | (lines, beforeNewline) =>
    if c = '\n' then ([] :: lines, true)
    else if c = '\r' ∧ beforeNewline then (lines, false)
    else (consFirst c lines, false)

/-- The lines of a text, each without the newline, or the carriage return and newline,
    that ends it.  The last line needs no end. -/
def splitLines (text : List Char) : List (List Char) :=
  (text.foldr splitStep ([], false)).1

/-- The lines of a text, as strings. -/
def linesOf (text : String) : List String := (splitLines text.toList).map String.ofList

@[simp] theorem splitLines_nil : splitLines [] = [] := rfl

@[simp] theorem splitLines_newline (text : List Char) :
    splitLines ('\n' :: text) = [] :: splitLines text := by
  simp [splitLines, splitStep]

@[simp] theorem splitLines_return_newline (text : List Char) :
    splitLines ('\r' :: '\n' :: text) = [] :: splitLines text := by
  simp [splitLines, splitStep]

/-- Any other character starts the first of the lines that follow. -/
theorem splitLines_cons {c : Char} {text : List Char} (hn : c ≠ '\n')
    (hr : c = '\r' → text.head? ≠ some '\n') :
    splitLines (c :: text) = consFirst c (splitLines text) := by
  have hflag : (text.foldr splitStep ([], false)).2 = true → text.head? = some '\n' := by
    cases text with
    | nil => simp
    | cons d text =>
      simp only [List.foldr_cons, splitStep, List.head?_cons, Option.some.injEq]
      split
      · next h => exact fun _ => h
      · split <;> simp
  simp only [splitLines, List.foldr_cons, splitStep, hn, if_false]
  split
  · next h => exact absurd (hflag h.2) (hr h.1)
  · rfl

end WordMachine
