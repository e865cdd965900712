/-
  Transcripts: the conversation between a program and its user.

  A transcript holds every line of input and every run of output between two of them, in
  order.  The output since the last line is kept apart until the next one closes it.

  * `logInput` and `logOutput` extend a transcript, `entries` and `inputs` show it;
  * `render` writes the conversation, the input lines behind an arrow, and
    `renderInputs` the input lines alone, in the form that `readInputs` reads;
  * `text` and `inputText` are the texts that these two write (`render_eq`,
    `renderInputs_eq`);
  * `entries_logInput`, `entries_logOutput`, `inputs_logInput`, `inputs_logOutput`: what
    the views show after an extension.
-/
import WordMachine.Device
import WordMachine.Text.Lines

namespace WordMachine

/-! ## Entries -/

/-- A part of a conversation. -/
inductive Entry where
  /-- A line that the user submitted, without its end. -/
  | input (line : String)
  /-- What the program wrote between two lines of input. -/
  | output (text : String)
deriving DecidableEq, Repr

namespace Entry

/-- The pieces of an entry, as they are written one after the other: output as it is, an
    input line behind an arrow. -/
def pieces : Entry → List String
  | input line => ["> ", line, "\n"]
  | output text => [text]

/-- The text of an entry. -/
def text (entry : Entry) : String := String.join entry.pieces

/-- The line of an input entry. -/
def line? : Entry → Option String
  | input line => some line
  | output _ => none

end Entry

/-! ## Transcripts -/

/-- The entries that are complete, and the output since the last line of input. -/
structure Transcript where
  closed : Array Entry
  pending : String
deriving DecidableEq

namespace Transcript

/-- The transcript of nothing. -/
def empty : Transcript := ⟨#[], ""⟩

instance : Inhabited Transcript := ⟨empty⟩

/-- A run of output as an entry; no output makes none. -/
def outputEntry (text : String) : List Entry := if text = "" then [] else [.output text]

/-- A line of input was submitted. -/
def logInput (line : String) : Transcript → Transcript
  | ⟨closed, pending⟩ => ⟨(closed ++ outputEntry pending).push (.input line), ""⟩

/-- The program wrote some text. -/
def logOutput (text : String) : Transcript → Transcript
  | ⟨closed, pending⟩ => ⟨closed, pending ++ text⟩

/-- All entries so far, with the output that no line of input has followed yet. -/
def entries (t : Transcript) : List Entry := t.closed.toList ++ outputEntry t.pending

/-- The lines of input, in the order they were submitted. -/
def inputs (t : Transcript) : List String := t.closed.toList.filterMap Entry.line?

/-! ## Writing and reading -/

/-- Writes the conversation and flushes. -/
def render (t : Transcript) : Action Sink Unit := do
  Sink.writeAll (t.entries.flatMap Entry.pieces)
  Sink.flush

/-- Writes the lines of input and flushes. -/
def renderInputs (t : Transcript) : Action Sink Unit := do
  Sink.writeAll (t.inputs.flatMap fun line => [line, "\n"])
  Sink.flush

/-- The text of the conversation. -/
def text (t : Transcript) : String := String.join (t.entries.map Entry.text)

/-- The text of the lines of input, each followed by a newline. -/
def inputText (t : Transcript) : String := String.join (t.inputs.map fun line => line ++ "\n")

/-- The lines of a text that holds lines of input. -/
def readInputs (text : String) : List String := linesOf text

/-! ## What the views show -/

@[simp] theorem entries_empty : empty.entries = [] := rfl

@[simp] theorem inputs_empty : empty.inputs = [] := rfl

@[simp] theorem entries_logInput (t : Transcript) (line : String) :
    (t.logInput line).entries = t.entries ++ [.input line] := by
  cases t; simp [logInput, entries, outputEntry]

/-- Output extends the run that is open. -/
theorem entries_logOutput (t : Transcript) (text : String) :
    (t.logOutput text).entries = t.closed.toList ++ outputEntry (t.pending ++ text) := by
  cases t; rfl

@[simp] theorem inputs_logInput (t : Transcript) (line : String) :
    (t.logInput line).inputs = t.inputs ++ [line] := by
  obtain ⟨closed, pending⟩ := t
  have h : (outputEntry pending).filterMap Entry.line? = [] := by
    unfold outputEntry; split <;> rfl
  simp [logInput, inputs, h, Entry.line?]

@[simp] theorem inputs_logOutput (t : Transcript) (text : String) :
    (t.logOutput text).inputs = t.inputs := by
  cases t; rfl

/-! ## What is written -/

/-- A text made of parts that are made of pieces. -/
theorem join_flatMap {α : Type} (f : α → List String) (parts : List α) :
    String.join (parts.flatMap f) = String.join (parts.map fun part => String.join (f part)) := by
  induction parts with
  | nil => rfl
  | cons part parts ih => simp [ih]

/-- The conversation is written as one text. -/
theorem render_eq (t : Transcript) :
    t.render = (do Sink.writeText t.text; Sink.flush) := by
  rw [render, Sink.writeAll_eq, join_flatMap]; rfl

/-- The lines of input are written as one text. -/
theorem renderInputs_eq (t : Transcript) :
    t.renderInputs = (do Sink.writeText t.inputText; Sink.flush) := by
  rw [renderInputs, Sink.writeAll_eq, join_flatMap, inputText]
  simp

end Transcript

end WordMachine
