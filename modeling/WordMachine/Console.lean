/-
  The console: the machine's conversation with the outside.

  Characters go out one at a time.  Input arrives a line at a time, from the lines in the
  queue first and from the source after them, and is handed out one character at a time.

  * `writeChar` and `readChar` are the two directions, `refill` takes the next line;
  * a line is asked for only after the output was flushed, and only once every character
    of the line before it was handed out;
  * `charOf` is the character that a code stands for, and the replacement character if it
    stands for none.
-/
import WordMachine.Transcript

namespace WordMachine

/-- The two devices, the characters of the current line that were not read yet, the lines
    that come before the source, and the transcript if one is kept. -/
structure Console where
  source : Source
  sink : Sink
  pending : List Char
  queue : List String
  transcript : Option Transcript
deriving DecidableEq, Inhabited

namespace Console

/-- A console before anything was read or written. -/
def new (source : Source) (sink : Sink) : Console := ⟨source, sink, [], [], none⟩

/-- An action on the source. -/
@[inline] def onSource {α : Type} (x : Action Source α) : Action Console α :=
  x.zoom fun ⟨source, sink, pending, queue, transcript⟩ =>
    (source, fun source => ⟨source, sink, pending, queue, transcript⟩)

/-- An action on the sink. -/
@[inline] def onSink {α : Type} (x : Action Sink α) : Action Console α :=
  x.zoom fun ⟨source, sink, pending, queue, transcript⟩ =>
    (sink, fun sink => ⟨source, sink, pending, queue, transcript⟩)

/-- Records something, if a transcript is kept. -/
def logged (f : Transcript → Transcript) : Action Console Unit :=
  Action.change fun ⟨source, sink, pending, queue, transcript⟩ =>
    ⟨source, sink, pending, queue, transcript.map f⟩

/-! ## Setting up -/

/-- Puts lines at the end of the queue. -/
def queueLines (lines : List String) (console : Console) : Console :=
  { console with queue := console.queue ++ lines }

/-- Keeps a transcript from now on, or goes on with the one that is kept. -/
def record (console : Console) : Console :=
  { console with transcript := some (console.transcript.getD .empty) }

/-! ## Output -/

/-- The character with a code, if there is one. -/
def char? (code : Word) : Option Char :=
  if h : code.toNat.isValidChar then some (Char.ofNatAux code.toNat h) else none

/-- Stands for a code that is no character. -/
def replacement : Char := '\uFFFD'

/-- The character written for a code. -/
def charOf (code : Word) : Char := (char? code).getD replacement

/-- Flushes the output. -/
def flush : Action Console Unit := onSink Sink.flush

/-- Writes the character for a code.  Only what was written whole is recorded. -/
def writeChar (code : Word) : Action Console Unit := do
  if (char? code).isNone then Action.note (.replacedCode code)
  onSink (Sink.write (String.utf8EncodeChar (charOf code)))
  logged (Transcript.logOutput (String.singleton (charOf code)))

/-! ## Input -/

/-- Takes the next line: the first one of the queue, or else one from the source. -/
def takeLine : Action Console String := fun console =>
  match console.queue with
  | line :: queue => ⟨.ok line, { console with queue }, []⟩
  | [] => onSource Source.readLine console

/-- Flushes the output and takes the next line.  Its characters, less its end, and a
    newline are what is read next. -/
def refill : Action Console Unit := do
  flush
  let line ← takeLine
  let line := chomp line
  Action.note (.inputLine line)
  logged (Transcript.logInput line)
  Action.change fun console => { console with pending := console.pending ++ line.toList ++ ['\n'] }

/-- Takes the next character of the current line. -/
def takeChar : Action Console Char := fun console =>
  match console.pending with
  | c :: pending => ⟨.ok c, { console with pending }, []⟩
  | [] => ⟨.error .inputExhausted, console, []⟩

/-- Reads the code of the next character, taking a new line once the current one is used
    up.  A character whose code is no value is used up as well. -/
def readChar : Action Console Word := do
  if ← Action.view (·.pending.isEmpty) then refill
  let c ← takeChar
  if c.toNat < valueCount then pure (.ofNat c.toNat)
  else Action.fail (.valueRange c.toNat)

/-! ## What the operations do -/

theorem char?_eq_some_iff {code : Word} {c : Char} :
    char? code = some c ↔ c.toNat = code.toNat := by
  by_cases h : code.toNat.isValidChar
  · rw [char?, dif_pos h]
    constructor
    · rintro h'
      cases h'
      rfl
    · intro h'
      exact congrArg some (Char.toNat_inj.mp h'.symm)
  · rw [char?, dif_neg h]
    refine ⟨by simp, fun h' => absurd ?_ h⟩
    rw [← h']
    exact c.valid

@[simp] theorem onSink_apply {α : Type} (x : Action Sink α) (console : Console) :
    onSink x console = ⟨(x console.sink).outcome,
      { console with sink := (x console.sink).state }, (x console.sink).log⟩ := rfl

@[simp] theorem onSource_apply {α : Type} (x : Action Source α) (console : Console) :
    onSource x console = ⟨(x console.source).outcome,
      { console with source := (x console.source).state }, (x console.source).log⟩ := rfl

@[simp] theorem logged_apply (f : Transcript → Transcript) (console : Console) :
    logged f console =
      ⟨.ok (), { console with transcript := console.transcript.map f }, []⟩ := rfl

/-- Recording twice is recording once. -/
@[simp] theorem record_record (console : Console) : console.record.record = console.record := rfl

theorem takeChar_of_cons {console : Console} {c : Char} {rest : List Char}
    (h : console.pending = c :: rest) :
    takeChar console = ⟨.ok c, { console with pending := rest }, []⟩ := by
  unfold takeChar
  simp only [h]

/-- While there are characters of the current line, the next one is read. -/
theorem readChar_of_cons {console : Console} {c : Char} {rest : List Char}
    (h : console.pending = c :: rest) :
    readChar console =
      ⟨if c.toNat < valueCount then .ok (.ofNat c.toNat) else .error (.valueRange c.toNat),
        { console with pending := rest }, []⟩ := by
  unfold readChar
  rw [Action.bind_ok (Action.view_apply _ console)]
  simp only [h, List.isEmpty_cons, Bool.false_eq_true, if_false, List.nil_append]
  rw [Action.bind_ok (takeChar_of_cons h)]
  by_cases hc : c.toNat < 32768 <;> simp [hc]

end Console

end WordMachine
