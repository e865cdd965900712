/-
  Which lines are read back from the text that they are written to.

  * `newline_not_mem_splitLines`: the lines of a text hold no newline;
  * `Transcript.readInputs_inputText_iff`: so a transcript's lines are read back just where none of
    them holds a newline and none ends in a carriage return;
  * `Transcript.renderInputs_of_infallible`: a sink that does not fail takes the whole text;
  * `readInputs_written_iff`: the same for any sequence of lines and output that was recorded.
-/
import WordMachine.Proofs.Grouping
import WordMachine.Proofs.Replay

namespace WordMachine

open WordMachine.Action

/-! ## The lines of a text -/

section

variable {c : Char} {lines : List (List Char)}

theorem newline_not_mem_consFirst (hc : c ≠ '\n') (h : ∀ line ∈ lines, '\n' ∉ line) :
    ∀ line ∈ consFirst c lines, '\n' ∉ line := by
  have hcons {line : List Char} (hline : '\n' ∉ line) : '\n' ∉ c :: line := by
    rw [List.mem_cons, not_or]
    exact ⟨Ne.symm hc, hline⟩
  cases lines with
  | nil =>
    rintro line hline
    rw [consFirst, List.mem_singleton] at hline
    exact hline ▸ hcons List.not_mem_nil
  | cons first others =>
    rw [List.forall_mem_cons] at h
    rw [consFirst, List.forall_mem_cons]
    exact ⟨hcons h.1, h.2⟩

theorem newline_not_mem_splitStep (c : Char) {found : List (List Char) × Bool}
    (h : ∀ line ∈ found.1, '\n' ∉ line) : ∀ line ∈ (splitStep c found).1, '\n' ∉ line := by
  obtain ⟨lines, beforeNewline⟩ := found
  rw [splitStep]
  split
  · exact List.forall_mem_cons.mpr ⟨List.not_mem_nil, h⟩
  · next hc =>
    split
    · exact h
    · exact newline_not_mem_consFirst hc h

/-- **The lines of a text hold no newline.** -/
theorem newline_not_mem_splitLines (text : List Char) : ∀ line ∈ splitLines text, '\n' ∉ line := by
  unfold splitLines
  induction text with
  | nil => exact nofun
  | cons c text ih => exact newline_not_mem_splitStep c ih

theorem newline_not_mem_linesOf {line text : String} (h : line ∈ linesOf text) :
    '\n' ∉ line.toList := by
  obtain ⟨chars, hchars, rfl⟩ := List.mem_map.mp h
  rw [String.toList_ofList]
  exact newline_not_mem_splitLines text.toList chars hchars

end

namespace Transcript

variable {t : Transcript} {sink : Sink}

/-! ## The lines of a transcript -/

/-- A line that holds no newline is read back just where it does not end in a carriage return. -/
theorem readInputs_inputText_iff_of_not_mem (h : ∀ line ∈ t.inputs, '\n' ∉ line.toList) :
    readInputs t.inputText = t.inputs ↔
      ∀ line ∈ t.inputs, line.toList.getLast? ≠ some '\r' := by
  have hline (line : String) :
      String.ofList (dropTrailing '\r' line.toList) = line ↔ line.toList.getLast? ≠ some '\r' := by
    rw [← String.toList_inj, String.toList_ofList, dropTrailing_eq_self_iff]
  calc readInputs t.inputText = t.inputs
      ↔ t.inputs.map (fun line => String.ofList (dropTrailing '\r' line.toList)) =
          t.inputs.map id := by rw [readInputs_inputText h, List.map_id]
    _ ↔ ∀ line ∈ t.inputs, line.toList.getLast? ≠ some '\r' := by
        rw [List.map_inj_left]
        exact forall₂_congr fun line _ => hline line

/-- **The lines that are read back** are those that hold no newline and do not end in a carriage
    return. -/
theorem readInputs_inputText_iff (t : Transcript) :
    readInputs t.inputText = t.inputs ↔
      ∀ line ∈ t.inputs, '\n' ∉ line.toList ∧ line.toList.getLast? ≠ some '\r' := by
  constructor
  · intro h
    -- What was read back are the lines of a text, so it holds no newline.
    have hnewline : ∀ line ∈ t.inputs, '\n' ∉ line.toList := by
      intro line hline
      rw [← h] at hline
      exact newline_not_mem_linesOf hline
    have hreturn := (readInputs_inputText_iff_of_not_mem hnewline).mp h
    exact fun line hline => ⟨hnewline line hline, hreturn line hline⟩
  · intro h
    exact (readInputs_inputText_iff_of_not_mem fun line hline => (h line hline).1).mpr
      fun line hline => (h line hline).2

/-! ## Writing them -/

theorem renderInputs_of_infallible (h : sink.Infallible) (t : Transcript) :
    (t.renderInputs sink).outcome = .ok () ∧
      (t.renderInputs sink).state.written.toList =
        sink.written.toList ++ t.inputText.toUTF8.data.toList := by
  rw [renderInputs_eq]
  exact h.writeText_flush t.inputText

/-- **The lines that were recorded are read back just where none of them holds a newline and none
    ends in a carriage return.**  They are written whole to a sink that does not fail, and what is
    written is a text. -/
theorem readInputs_written_iff (h : sink.Infallible) (said : List Entry) :
    ((empty.logAll said).renderInputs sink).outcome = .ok () ∧
      ∃ bytes text, ((empty.logAll said).renderInputs sink).state.written.toList =
          sink.written.toList ++ bytes ∧
        Source.textOf bytes = .ok text ∧
        (readInputs text = (empty.logAll said).inputs ↔
          ∀ line, .input line ∈ said → '\n' ∉ line.toList ∧ line.toList.getLast? ≠ some '\r') := by
  obtain ⟨hout, hwritten⟩ := renderInputs_of_infallible h (empty.logAll said)
  refine ⟨hout, _, _, hwritten, Source.textOf_ofText _, ?_⟩
  have hmem (line : String) : line ∈ (empty.logAll said).inputs ↔ .input line ∈ said := by
    rw [(logAll_empty said).2, List.mem_filterMap]
    constructor
    · rintro ⟨entry, hentry, hline⟩
      cases entry with
      | input line' =>
        obtain rfl : line' = line := Option.some.inj hline
        exact hentry
      | output text => cases hline
    · exact fun hline => ⟨.input line, hline, rfl⟩
  rw [readInputs_inputText_iff]
  exact forall_congr' fun line => imp_congr_left (hmem line)

/-- A line with a carriage return in it, an empty one and some output, written behind other bytes;
    and a line that ends in a carriage return. -/
theorem readInputs_written_iff_return :
    let sink : Sink := ⟨#[62], none, none, 1⟩
    sink.Infallible ∧
      (∃ bytes text, ((empty.logAll [.input "a\rb", .output "?", .input ""]).renderInputs
            sink).state.written.toList = sink.written.toList ++ bytes ∧
          Source.textOf bytes = .ok text ∧ readInputs text = ["a\rb", ""]) ∧
      ∃ bytes text, ((empty.logAll [.input "a\r"]).renderInputs sink).state.written.toList =
          sink.written.toList ++ bytes ∧
        Source.textOf bytes = .ok text ∧ readInputs text ≠ ["a\r"] := by
  intro sink
  have h : sink.Infallible := ⟨rfl, rfl⟩
  obtain ⟨-, bytes, text, hbytes, htext, hiff⟩ :=
    readInputs_written_iff h [.input "a\rb", .output "?", .input ""]
  obtain ⟨-, bytes', text', hbytes', htext', hiff'⟩ := readInputs_written_iff h [.input "a\r"]
  refine ⟨h, ⟨bytes, text, hbytes, htext, hiff.mpr ?_⟩, bytes', text', hbytes', htext', ?_⟩
  · intro line hline
    simp only [List.mem_cons, Entry.input.injEq, reduceCtorEq, List.not_mem_nil, or_false,
      false_or] at hline
    rcases hline with rfl | rfl
    · decide
    · decide
  · intro hread
    exact (hiff'.mp hread "a\r" List.mem_cons_self).2 (by decide)

end Transcript

end WordMachine
