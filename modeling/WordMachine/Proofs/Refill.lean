/-
  How a console takes a line, when its sink never fails.

  * `Sink.Infallible`: the sink takes everything, and every flush succeeds;
  * `charsOf line` is what is handed out for a line, its end replaced by a newline, and `codeOf`
    what a read makes of one character;
  * `takeLine_frame`, `takeCode_frame`: what is left alone where a line or a code is taken, and
    `keeps_takeLine`, `keeps_takeCode`: what is kept for that reason;
  * `readChar_of_line`, `readChar_of_no_line`: a read that finds nothing left of the current line
    flushes, takes the next line if there is one, and hands out its first character;
  * `keeps_writeChar`: what a write keeps.
-/
import WordMachine.Proofs.Invariant
import WordMachine.Proofs.Upcoming

namespace WordMachine

open WordMachine.Action

/-! ## Sinks that do not fail -/

namespace Sink

variable {sink : Sink}

/-- The sink takes everything, and every flush of it succeeds. -/
structure Infallible (sink : Sink) : Prop where
  capacity : sink.capacity = none
  flushFailure : sink.flushFailure = none

/-- The sink after one more flush. -/
def flushed (sink : Sink) : Sink := { sink with flushes := sink.flushes + 1 }

namespace Infallible

theorem flushed (h : sink.Infallible) : sink.flushed.Infallible := ⟨h.capacity, h.flushFailure⟩

/-- What was written and how often it was flushed is all there is to such a sink. -/
theorem ext {sink' : Sink} (h : sink.Infallible) (h' : sink'.Infallible)
    (hwritten : sink.written = sink'.written) (hflushes : sink.flushes = sink'.flushes) :
    sink = sink' := by
  obtain ⟨written, capacity, failure, flushes⟩ := sink
  obtain ⟨written', capacity', failure', flushes'⟩ := sink'
  obtain ⟨rfl, rfl⟩ : capacity = none ∧ failure = none := ⟨h.capacity, h.flushFailure⟩
  obtain ⟨rfl, rfl⟩ : capacity' = none ∧ failure' = none := ⟨h'.capacity, h'.flushFailure⟩
  obtain rfl : written = written' := hwritten
  obtain rfl : flushes = flushes' := hflushes
  rfl

theorem flush_eq (h : sink.Infallible) : flush sink = ⟨.ok (), sink.flushed, []⟩ := by
  obtain ⟨written, capacity, failure, flushes⟩ := sink
  obtain rfl : failure = none := h.flushFailure
  rfl

theorem write_eq (h : sink.Infallible) (bytes : List UInt8) :
    write bytes sink = ⟨.ok (), { sink with written := sink.written ++ bytes }, []⟩ :=
  write_of_fits (fits_of_capacity_eq_none h.capacity bytes)

theorem write (h : sink.Infallible) (bytes : List UInt8) :
    (Sink.write bytes sink).state.Infallible := by
  rw [h.write_eq]
  exact ⟨h.capacity, h.flushFailure⟩

/-- A text that is written and flushed comes behind what was written before. -/
theorem writeText_flush (h : sink.Infallible) (text : String) :
    ((do writeText text; flush : Action Sink Unit) sink).outcome = .ok () ∧
      ((do writeText text; flush : Action Sink Unit) sink).state.written.toList =
        sink.written.toList ++ text.toUTF8.data.toList := by
  have hflush : Infallible { sink with written := sink.written ++ text.toUTF8.data.toList } :=
    ⟨h.capacity, h.flushFailure⟩
  rw [writeText, bind_ok (h.write_eq _), hflush.flush_eq]
  exact ⟨rfl, Array.toList_appendList⟩

end Infallible

theorem written_writeText (text : String) :
    ((do writeText text; flush : Action Sink Unit) .unlimited).state.written.toList =
      text.toUTF8.data.toList := by
  have hall : Sink.unlimited.Infallible := ⟨rfl, rfl⟩
  exact (hall.writeText_flush text).2.trans (List.nil_append _)

end Sink

namespace Console

variable {console console' : Console} {line : String} {fault : Fault}

/-! ## Taking a line -/

/-- What is handed out for a line: its characters less its end, and a newline. -/
def charsOf (line : String) : List Char := (chomp line).toList ++ ['\n']

/-- What a read makes of a character: its code, if that is a value. -/
def codeOf (c : Char) : Except Fault Word :=
  if c.toNat < valueCount then .ok (.ofNat c.toNat) else .error (.valueRange c.toNat)

theorem charsOf_eq_cons (line : String) :
    charsOf line = (charsOf line).headD '\n' :: (charsOf line).tail := by
  unfold charsOf
  rcases (chomp line).toList with _ | ⟨c, rest⟩
  · rfl
  · rfl

/-- The console after its output was flushed. -/
def flushed (console : Console) : Console := { console with sink := console.sink.flushed }

/-- The console with a line to hand out, which is recorded. -/
def start (line : String) (console : Console) : Console :=
  { console with
    pending := console.pending ++ charsOf line
    transcript := console.transcript.map (Transcript.logInput (chomp line)) }

/-- A flush is counted also where it fails, and reports nothing. -/
theorem flush_apply (console : Console) :
    flush console = ⟨(flush console).outcome, console.flushed, []⟩ := by
  obtain ⟨source, ⟨written, capacity, failure, flushes⟩, pending, queue, transcript⟩ := console
  cases failure with
  | none => rfl
  | some text => rfl

theorem flush_eq (h : console.sink.Infallible) : flush console = ⟨.ok (), console.flushed, []⟩ := by
  rw [flush, onSink_apply, h.flush_eq]
  rfl

theorem refill_of_line (h : console.sink.Infallible)
    (htake : takeLine console.flushed = ⟨.ok line, console', []⟩) :
    refill console = ⟨.ok (), console'.start line, [.inputLine (chomp line)]⟩ := by
  rw [refill, bind_ok (flush_eq h), bind_ok htake]
  simp only [start, charsOf, ← List.append_assoc]
  rfl

theorem refill_of_no_line (h : console.sink.Infallible)
    (htake : takeLine console.flushed = ⟨.error fault, console', []⟩) :
    refill console = ⟨.error fault, console', []⟩ := by
  rw [refill, bind_ok (flush_eq h), bind_error htake]
  rfl

theorem takeLine_of_queue {queue : List String} (h : console.queue = line :: queue) :
    takeLine console = ⟨.ok line, { console with queue }, []⟩ := by
  unfold takeLine
  simp only [h]

theorem takeLine_of_source {source : Source} {outcome : Except Fault String}
    (h : console.queue = []) (hread : Source.readLine console.source = ⟨outcome, source, []⟩) :
    takeLine console = ⟨outcome, { console with source }, []⟩ := by
  unfold takeLine
  split
  · next heq => cases h.symm.trans heq
  · rw [onSource_apply, hread]

/-- To take a line changes the source and the queue at most, and reports nothing. -/
theorem takeLine_frame (console : Console) : ∃ source queue,
    (takeLine console).state = { console with source, queue } ∧ (takeLine console).log = [] := by
  unfold takeLine
  split
  · next line queue _ => exact ⟨console.source, queue, rfl, rfl⟩
  · exact ⟨_, console.queue, rfl, Source.log_readLine console.source⟩

/-- To take a character changes what is left of the current line at most, and reports nothing. -/
theorem takeChar_frame (console : Console) : ∃ pending,
    (takeChar console).state = { console with pending } ∧ (takeChar console).log = [] := by
  unfold takeChar
  split
  · next c pending _ => exact ⟨pending, rfl, rfl⟩
  · exact ⟨console.pending, rfl, rfl⟩

/-- Nor does it matter whether its code is a value. -/
theorem takeCode_frame (console : Console) : ∃ pending,
    (takeCode console).state = { console with pending } ∧ (takeCode console).log = [] := by
  obtain ⟨pending, hstate, hlog⟩ := takeChar_frame console
  refine ⟨pending, ?_⟩
  rw [takeCode, bind_apply]
  split
  · split
    · exact ⟨hstate, by rw [hlog]; rfl⟩
    · exact ⟨hstate, by rw [hlog]; rfl⟩
  · exact ⟨hstate, hlog⟩

theorem keeps_takeLine {P : Console → Prop}
    (hP : ∀ console source queue, P console → P { console with source, queue }) :
    Keeps P takeLine := by
  intro console h
  obtain ⟨source, queue, hstate, -⟩ := takeLine_frame console
  rw [hstate]
  exact hP console source queue h

theorem keeps_takeCode {P : Console → Prop}
    (hP : ∀ console pending, P console → P { console with pending }) : Keeps P takeCode := by
  intro console h
  obtain ⟨pending, hstate, -⟩ := takeCode_frame console
  rw [hstate]
  exact hP console pending h

theorem pending_takeLine (console : Console) :
    (takeLine console).state.pending = console.pending := by
  obtain ⟨source, queue, hstate, -⟩ := takeLine_frame console
  rw [hstate]

theorem takeCode_of_cons {c : Char} {rest : List Char} (h : console.pending = c :: rest) :
    takeCode console = ⟨codeOf c, { console with pending := rest }, []⟩ := by
  rw [← readChar_of_ne_nil (h ▸ List.cons_ne_nil c rest), readChar_of_cons h, codeOf]

/-- The first character of a line is handed out where it is taken. -/
theorem readChar_of_line (h : console.sink.Infallible) (hp : console.pending = [])
    (htake : takeLine console.flushed = ⟨.ok line, console', []⟩) :
    readChar console = ⟨codeOf ((charsOf line).headD '\n'),
      { console'.start line with pending := (charsOf line).tail },
      [.inputLine (chomp line)]⟩ := by
  have hnil : console'.pending = [] := by
    have hstate := pending_takeLine console.flushed
    rw [htake] at hstate
    exact hstate.trans hp
  have hcons : (console'.start line).pending =
      (charsOf line).headD '\n' :: (charsOf line).tail := by
    rw [start, hnil, List.nil_append]
    exact charsOf_eq_cons line
  rw [readChar_of_nil hp, bind_ok (refill_of_line h htake), takeCode_of_cons hcons]
  simp only [List.append_nil]

theorem readChar_of_no_line (h : console.sink.Infallible) (hp : console.pending = [])
    (htake : takeLine console.flushed = ⟨.error fault, console', []⟩) :
    readChar console = ⟨.error fault, console', []⟩ := by
  rw [readChar_of_nil hp, bind_error (refill_of_no_line h htake)]

/-! ## Writing a character -/

/-- What is kept where bytes are written and where they are recorded, is kept where a character is
    written. -/
theorem keeps_writeChar {P : Console → Prop} (hwrite : ∀ bytes, Keeps P (onSink (Sink.write bytes)))
    (hlog : ∀ text, Keeps P (logged (Transcript.logOutput text))) (code : Word) :
    Keeps P (writeChar code) := by
  have hput := (hwrite (String.utf8EncodeChar (charOf code))).bind fun _ =>
    hlog (String.singleton (charOf code))
  exact Keeps.ite (.bind (.note _) fun _ => hput) hput

end Console

end WordMachine
