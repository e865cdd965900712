/-
  Rendering to a sink with little room.

  * `Entry.shown`, `shownLine`: an entry and a line of input as they are written, each in its own
    words; `text_eq`, `inputText_eq`: a transcript is written as these, one after the other;
  * `Sink.CutAt limit flushFailure bytes r`: of the bytes as many were written as there was room
    for, and the sink was flushed if that was all of them;
  * `rendering_is_cut`: so a transcript and its lines of input are written.
-/
import WordMachine.Proofs.Truncation

namespace WordMachine

open WordMachine.Action

/-! ## What is to be written -/

/-- An entry in full: output as it is, a line of input behind an arrow. -/
def Entry.shown : Entry → String
  | output text => text
  | input line => "> " ++ line ++ "\n"

theorem Entry.text_eq_shown (entry : Entry) : entry.text = entry.shown := by
  cases entry with
  | output text => simp [Entry.text, pieces, shown]
  | input line => simp [Entry.text, pieces, shown, String.append_assoc]

namespace Transcript

/-- A line of input in full. -/
def shownLine (line : String) : String := line ++ "\n"

theorem text_eq (t : Transcript) : t.text = String.join (t.entries.map Entry.shown) :=
  congrArg String.join (List.map_congr_left fun entry _ => entry.text_eq_shown)

theorem inputText_eq (t : Transcript) : t.inputText = String.join (t.inputs.map shownLine) := rfl

end Transcript

/-! ## Cuts -/

namespace Sink

/-- What comes of writing the bytes to a new sink with room for `limit` of them and flushing it
    then. -/
structure CutAt (limit : Nat) (flushFailure : Option String) (bytes : List UInt8)
    (r : Ran Sink Unit) : Prop where
  written : r.state.written.toList = bytes.take limit
  full_iff : r.outcome = .error (.device .full) ↔ limit < bytes.length
  flushes_of_lt : limit < bytes.length → r.state.flushes = 0
  flushes_of_le : bytes.length ≤ limit → r.state.flushes = 1
  /-- If there is room for all, the outcome is the one of the flush. -/
  outcome_of_le : bytes.length ≤ limit → r.outcome =
    match flushFailure with
    | none => .ok ()
    | some text => .error (.device (.reported text))

variable {limit : Nat} {bytes : List UInt8}

theorem cutAt_of_le (flushFailure : Option String) (h : bytes.length ≤ limit) :
    CutAt limit flushFailure bytes
      ((do write bytes; flush : Action Sink Unit) (limited limit flushFailure)) := by
  have hfits : (limited limit flushFailure).Fits bytes := h
  have hwritten : ((#[] : Array UInt8) ++ bytes).toList = bytes.take limit := by
    rw [Array.toList_appendList, List.take_of_length_le h]
    exact List.nil_append bytes
  have hnot : ¬ limit < bytes.length := Nat.not_lt.mpr h
  rw [bind_ok (write_of_fits hfits)]
  cases flushFailure with
  | none => exact ⟨hwritten, iff_of_false nofun hnot, fun hlt => absurd hlt hnot, fun _ => rfl,
      fun _ => rfl⟩
  | some text => exact ⟨hwritten, iff_of_false nofun hnot, fun hlt => absurd hlt hnot, fun _ => rfl,
      fun _ => rfl⟩

theorem cutAt_of_lt (flushFailure : Option String) (h : limit < bytes.length) :
    CutAt limit flushFailure bytes
      ((do write bytes; flush : Action Sink Unit) (limited limit flushFailure)) := by
  have hnot : ¬ bytes.length ≤ limit := Nat.not_le.mpr h
  have hwritten : ((#[] : Array UInt8) ++ bytes.take limit).toList = bytes.take limit := by
    rw [Array.toList_appendList]
    exact List.nil_append _
  have hwrite : write bytes (limited limit flushFailure) = ⟨.error (.device .full),
      { limited limit flushFailure with written := #[] ++ bytes.take limit }, []⟩ :=
    write_of_not_fits rfl h
  rw [bind_error hwrite]
  exact ⟨hwritten, iff_of_true rfl h, fun _ => rfl, fun hle => absurd hle hnot,
    fun hle => absurd hle hnot⟩

/-- **A text is cut at the limit**, and flushed if it is whole. -/
theorem cutAt_writeText_flush (limit : Nat) (flushFailure : Option String) (text : String) :
    CutAt limit flushFailure text.toUTF8.data.toList
      ((do writeText text; flush : Action Sink Unit) (limited limit flushFailure)) :=
  (Nat.lt_or_ge limit _).elim (cutAt_of_lt flushFailure) (cutAt_of_le flushFailure)

end Sink

namespace Transcript

/-- **What is rendered to a sink with little room is the front of the whole.**  Of the entries, or
    of the lines of input, one behind the other, exactly the bytes that there is room for are
    written; that fails exactly where there are more of them, and then nothing is flushed.
    Otherwise the sink is flushed once, and the outcome is the one of the flush.  The transcript is
    not part of what rendering acts on, so it stays as it is. -/
theorem rendering_is_cut (t : Transcript) (limit : Nat) (flushFailure : Option String) :
    Sink.CutAt limit flushFailure (String.join (t.entries.map Entry.shown)).toUTF8.data.toList
        (t.render (.limited limit flushFailure)) ∧
      Sink.CutAt limit flushFailure (String.join (t.inputs.map shownLine)).toUTF8.data.toList
        (t.renderInputs (.limited limit flushFailure)) := by
  rw [render_eq, renderInputs_eq, text_eq, inputText_eq]
  exact ⟨Sink.cutAt_writeText_flush limit flushFailure _,
    Sink.cutAt_writeText_flush limit flushFailure _⟩

/-- The line of input is cut behind its arrow. -/
example :
    let t := (empty.logOutput "Go?\n").logInput "go"
    (t.render (.limited 6 none)).state.written.toList = "Go?\n> ".toUTF8.data.toList := by
  decide +kernel

end Transcript

end WordMachine
