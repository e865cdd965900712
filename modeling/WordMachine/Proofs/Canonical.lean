/-
  Transcripts are canonical: what was logged decides what they are, and they show all of it.

  A list of entries stands for the calls that log them, one after the other.  Of such a list there
  are the lines, and the texts before, between and after the lines; the calls that made up one of
  these texts do not matter, and neither do calls that log no text.

  * `Entry.gaps`: the texts around the lines; `Entry.between`: texts and lines as entries;
  * `grouped_eq_between`: the entries of a transcript are made of these two, and `gaps_grouped`,
    `lines_grouped`: they can be read off the entries again;
  * `Transcript.ClosedByLine`: the complete entries do not end in output, which `log` keeps;
    `eq_of_entries`: such a transcript is its entries;
  * `transcripts_canonical`: the same state, the same entries, and the same lines and texts.
-/
import WordMachine.Proofs.Grouping

namespace WordMachine

namespace Entry

open Transcript (outputEntry)

variable {entries : List Entry}

/-! ## The texts around the lines -/

/-- The text of an output entry. -/
def output? : Entry → Option String
  | output text => some text
  | input _ => none

/-- The output before, between and after the lines, each in one text. -/
def gaps (entries : List Entry) : List String :=
  (entries.splitOnP fun entry => entry.line?.isSome).map fun run =>
    String.join (run.filterMap output?)

@[simp] theorem gaps_nil : gaps [] = [""] := by
  rw [gaps, List.splitOnP_nil]
  rfl

@[simp] theorem gaps_input (line : String) (entries : List Entry) :
    gaps (input line :: entries) = "" :: gaps entries := by
  have hline : (input line).line?.isSome = true := rfl
  rw [gaps, List.splitOnP_cons_eq_if_modifyHead, if_pos hline]
  rfl

/-- Output comes in front of the first text. -/
@[simp] theorem gaps_output (text : String) (entries : List Entry) :
    gaps (output text :: entries) = (gaps entries).modifyHead (text ++ ·) := by
  have hnot : ¬ (output text).line?.isSome = true := Bool.false_ne_true
  rw [gaps, gaps, List.splitOnP_cons_eq_if_modifyHead, if_neg hnot]
  obtain ⟨run, runs, hruns⟩ := List.exists_cons_of_ne_nil
    (List.splitOnP_ne_nil (fun entry : Entry => entry.line?.isSome) entries)
  have hjoin : String.join ((output text :: run).filterMap output?) =
      text ++ String.join (run.filterMap output?) := String.join_cons
  rw [hruns, List.modifyHead_cons, List.map_cons, List.map_cons, List.modifyHead_cons, hjoin]

theorem exists_gaps_eq_cons (entries : List Entry) : ∃ gap gaps', gaps entries = gap :: gaps' := by
  refine List.exists_cons_of_ne_nil ?_
  rw [gaps, Ne, List.map_eq_nil_iff]
  exact List.splitOnP_ne_nil _ _

/-- The first of some texts, a line, the next text, and so on: there is one text more than there are
    lines. -/
def between : List String → List String → List Entry
  | [], _ => []
  | gap :: _, [] => outputEntry gap
  | gap :: gaps', line :: lines => outputEntry gap ++ input line :: between gaps' lines

theorem before_between (text gap : String) (gaps' lines : List String) :
    before (output text) (between (gap :: gaps') lines) =
      between ((text ++ gap) :: gaps') lines := by
  cases lines with
  | nil =>
    have hbefore (gap : String) : between (gap :: gaps') [] = before (output gap) [] :=
      (List.append_nil _).symm
    rw [hbefore, hbefore, before_before]
  | cons line lines =>
    have hbefore (gap : String) : between (gap :: gaps') (line :: lines) =
        before (output gap) (input line :: between gaps' lines) := rfl
    rw [hbefore, hbefore, before_before]

/-- **Grouped entries are the texts with the lines between them.** -/
theorem grouped_eq_between (entries : List Entry) :
    grouped entries = between (gaps entries) (entries.filterMap line?) := by
  induction entries with
  | nil => rfl
  | cons entry entries ih =>
    rw [grouped_cons, ih]
    cases entry with
    | input line =>
      rw [gaps_input]
      rfl
    | output text =>
      obtain ⟨gap, gaps', hgaps⟩ := exists_gaps_eq_cons entries
      rw [gaps_output, hgaps, List.modifyHead_cons, before_between]
      rfl

/-! ## Both can be read off again -/

theorem gaps_grouped (entries : List Entry) : gaps (grouped entries) = gaps entries := by
  refine apply_grouped (fun entries => ?_) (fun text run entries => ?_) ?_ entries
  · have hid : (("" : String) ++ ·) = id := funext fun _ => String.empty_append
    rw [gaps_output, hid, List.modifyHead_id]
    rfl
  · have happend : ((text ++ run) ++ ·) = (text ++ ·) ∘ (run ++ ·) :=
      funext fun _ => String.append_assoc
    rw [gaps_output, gaps_output, gaps_output, List.modifyHead_modifyHead, happend]
  · intro entry entries entries' h
    cases entry with
    | input line => rw [gaps_input, gaps_input, h]
    | output text => rw [gaps_output, gaps_output, h]

theorem lines_grouped (entries : List Entry) :
    (grouped entries).filterMap line? = entries.filterMap line? := by
  refine apply_grouped (f := (·.filterMap line?)) (fun _ => rfl) (fun _ _ _ => rfl) ?_ entries
  intro entry entries entries' h
  simp only [List.filterMap_cons, h]

/-- Entries are grouped alike just where their lines and the texts around them are the same. -/
theorem grouped_eq_iff {entries' : List Entry} : grouped entries = grouped entries' ↔
    entries.filterMap line? = entries'.filterMap line? ∧ gaps entries = gaps entries' := by
  constructor
  · intro h
    rw [← lines_grouped entries, ← gaps_grouped entries, h, lines_grouped, gaps_grouped]
    exact ⟨rfl, rfl⟩
  · rintro ⟨hlines, hgaps⟩
    rw [grouped_eq_between, grouped_eq_between, hlines, hgaps]

end Entry

namespace Transcript

variable {t t' : Transcript}

/-! ## The state of a transcript -/

/-- The entries that are complete do not end in output: what was written since the last line is
    still pending. -/
def ClosedByLine (t : Transcript) : Prop := ∀ entry ∈ t.closed.toList.getLast?, ¬ entry.IsOutput

theorem closedByLine_empty : empty.ClosedByLine := nofun

theorem ClosedByLine.log (h : t.ClosedByLine) (entry : Entry) : (t.log entry).ClosedByLine := by
  cases entry with
  | output text => exact h
  | input line =>
    intro entry hentry
    rw [Transcript.log, logInput, Array.toList_push, List.getLast?_concat, Option.mem_some_iff]
      at hentry
    rw [← hentry]
    exact id

theorem closedByLine_logAll (h : t.ClosedByLine) (entries : List Entry) :
    (t.logAll entries).ClosedByLine := by
  induction entries generalizing t with
  | nil => exact h
  | cons entry entries ih => exact ih (h.log entry)

/-- An open run is shown as output, so it is not among the complete entries of another state. -/
theorem ClosedByLine.ne_append (h : t.ClosedByLine) (front : List Entry) (text : String) :
    t.closed.toList ≠ front ++ [.output text] := by
  intro heq
  refine h (.output text) ?_ trivial
  rw [heq, List.getLast?_concat]
  rfl

/-- **A transcript is its entries.** -/
theorem eq_of_entries (ht : t.ClosedByLine) (ht' : t'.ClosedByLine) (h : t.entries = t'.entries) :
    t = t' := by
  obtain ⟨closed, pending⟩ := t
  obtain ⟨closed', pending'⟩ := t'
  simp only [entries] at h
  by_cases hp : pending = ""
  · by_cases hp' : pending' = ""
    · rw [hp, hp', Entry.outputEntry_empty, List.append_nil, List.append_nil] at h
      rw [hp, hp', Array.toList_inj.mp h]
    · rw [hp, Entry.outputEntry_empty, List.append_nil, Entry.outputEntry_of_ne hp'] at h
      exact absurd h (ht.ne_append _ _)
  · by_cases hp' : pending' = ""
    · rw [hp', Entry.outputEntry_empty, List.append_nil, Entry.outputEntry_of_ne hp] at h
      exact absurd h.symm (ht'.ne_append _ _)
    · rw [Entry.outputEntry_of_ne hp, Entry.outputEntry_of_ne hp'] at h
      obtain ⟨hclosed, hpending⟩ := List.append_inj' h rfl
      rw [Array.toList_inj.mp hclosed, Entry.output.inj (List.singleton_inj.mp hpending)]

/-- **Transcripts are canonical.**  Whatever is logged, the entries hold no empty output and no two
    runs of output side by side.  Their lines are the lines that were logged, each run is what was
    logged between its neighbours, and the inputs do not depend on the output.  Two transcripts are
    the same just where their entries are, and these just where the same lines were logged, with
    the same text before, between and after them. -/
theorem transcripts_canonical (calls : List Entry) :
    let t := empty.logAll calls
    Entry.Grouped t.entries ∧
      t.inputs = calls.filterMap Entry.line? ∧
      t.entries.filterMap Entry.line? = calls.filterMap Entry.line? ∧
      t.entries = Entry.between (Entry.gaps calls) (calls.filterMap Entry.line?) ∧
      (∀ text, (t.logOutput text).inputs = t.inputs) ∧
      ∀ calls' : List Entry,
        (t = empty.logAll calls' ↔ t.entries = (empty.logAll calls').entries) ∧
        (t.entries = (empty.logAll calls').entries ↔
          calls.filterMap Entry.line? = calls'.filterMap Entry.line? ∧
            Entry.gaps calls = Entry.gaps calls') := by
  intro t
  obtain ⟨hentries, hinputs⟩ := logAll_empty calls
  refine ⟨?_, hinputs, ?_, ?_, inputs_logOutput t, fun calls' => ⟨⟨congrArg entries, ?_⟩, ?_⟩⟩
  · rw [hentries]
    exact Entry.grouped_isGrouped calls
  · rw [hentries, Entry.lines_grouped]
  · rw [hentries, Entry.grouped_eq_between]
  · exact eq_of_entries (closedByLine_logAll closedByLine_empty calls)
      (closedByLine_logAll closedByLine_empty calls')
  · rw [hentries, (logAll_empty calls').1]
    exact Entry.grouped_eq_iff

/-- Where a text was cut, and whether an empty one was logged, does not show; that a line was logged
    twice does. -/
example :
    empty.logAll [.output "a", .output "", .output "b", .input "", .input ""] =
        empty.logAll [.output "ab", .input "", .output "", .input ""] ∧
      empty.logAll [.input "", .input ""] ≠ empty.logAll [.input ""] := by
  decide

end Transcript

end WordMachine
