/-
  Conversations in runs: what the entries of a transcript are made of.

  * `Entry.before`, `Entry.grouped`: adjacent output is one run, and no output is none;
  * `Entry.Grouped`: there is nothing to join and nothing to drop (`grouped_isGrouped`);
  * `Entry.apply_grouped`: what grouping does not change, such as the bytes of output
    (`Entry.written`);
  * `Transcript.log`: a transcript is extended by an entry; `entries_logAll`, `inputs_logAll`: what
    it shows after it was extended by many is the grouping of them, and their lines.
-/
import WordMachine.Transcript
import Mathlib.Data.List.Chain

namespace WordMachine

namespace Entry

/-! ## Runs of output -/

/-- An entry in front of others.  Output joins the run behind it, and no output is no entry. -/
def before : Entry → List Entry → List Entry
  | output text, output run :: entries => output (text ++ run) :: entries
  | output text, entries => Transcript.outputEntry text ++ entries
  | input line, entries => input line :: entries

/-- The entries with adjacent output in one run, and without empty output. -/
def grouped (entries : List Entry) : List Entry := entries.foldr before []

theorem grouped_cons (entry : Entry) (entries : List Entry) :
    grouped (entry :: entries) = entry.before (grouped entries) := rfl

/-- The entry is output. -/
def IsOutput : Entry → Prop
  | output _ => True
  | input _ => False

/-- No output is empty, and no two runs of output are adjacent. -/
structure Grouped (entries : List Entry) : Prop where
  nonempty : output "" ∉ entries
  apart : entries.IsChain fun e e' => ¬ (e.IsOutput ∧ e'.IsOutput)

variable {entries : List Entry} {text : String}

/-- The entries start with a run of output, or with none. -/
theorem starts (entries : List Entry) :
    (∃ run rest, entries = output run :: rest) ∨ (∀ e ∈ entries.head?, ¬ e.IsOutput) ∧
      ∀ text, before (output text) entries = Transcript.outputEntry text ++ entries := by
  match entries with
  | output run :: rest => exact Or.inl ⟨run, rest, rfl⟩
  | [] => exact Or.inr ⟨nofun, fun text => rfl⟩
  | input line :: rest =>
    refine Or.inr ⟨?_, fun text => rfl⟩
    rintro _ ⟨⟩ ⟨⟩

@[simp] theorem outputEntry_empty : Transcript.outputEntry "" = [] := rfl

theorem outputEntry_of_ne (h : text ≠ "") : Transcript.outputEntry text = [output text] := if_neg h

/-- Empty output makes no difference. -/
@[simp] theorem before_empty (entries : List Entry) : before (output "") entries = entries := by
  rcases starts entries with ⟨run, rest, rfl⟩ | ⟨-, h⟩
  · rw [before, String.empty_append]
  · rw [h]
    rfl

/-- Output in front of output is one run. -/
theorem before_before (front back : String) (entries : List Entry) :
    before (output front) (before (output back) entries) =
      before (output (front ++ back)) entries := by
  rcases starts entries with ⟨run, rest, rfl⟩ | ⟨-, h⟩
  · rw [before, before, before, String.append_assoc]
  · by_cases hback : back = ""
    · rw [hback, before_empty, String.append_empty]
    · have hne : front ++ back ≠ "" := fun hnil => hback (String.append_eq_empty_iff.mp hnil).2
      rw [h, h, outputEntry_of_ne hback, outputEntry_of_ne hne]
      rfl

theorem isGrouped_cons {entry : Entry} : Grouped (entry :: entries) ↔
    entry ≠ output "" ∧ (∀ e ∈ entries.head?, ¬ (entry.IsOutput ∧ e.IsOutput)) ∧
      Grouped entries := by
  constructor
  · rintro ⟨hnonempty, hapart⟩
    rw [List.mem_cons, not_or] at hnonempty
    rw [List.isChain_cons] at hapart
    exact ⟨Ne.symm hnonempty.1, hapart.1, hnonempty.2, hapart.2⟩
  · rintro ⟨hne, hhead, hnonempty, hapart⟩
    refine ⟨?_, List.isChain_cons.mpr ⟨hhead, hapart⟩⟩
    rw [List.mem_cons, not_or]
    exact ⟨hne.symm, hnonempty⟩

theorem Grouped.before (h : Grouped entries) (entry : Entry) : Grouped (entry.before entries) := by
  cases entry with
  | input line =>
    refine isGrouped_cons.mpr ⟨nofun, ?_, h⟩
    rintro e - ⟨⟨⟩, -⟩
  | output text =>
    rcases starts entries with ⟨run, rest, rfl⟩ | ⟨hhead, hbefore⟩
    · obtain ⟨hrun, hapart, hrest⟩ := isGrouped_cons.mp h
      refine isGrouped_cons.mpr ⟨?_, hapart, hrest⟩
      intro hnil
      have hempty := String.append_eq_empty_iff.mp (Entry.output.inj hnil)
      exact hrun (congrArg output hempty.2)
    · rw [hbefore]
      by_cases htext : text = ""
      · rw [htext]
        exact h
      · rw [outputEntry_of_ne htext]
        refine isGrouped_cons.mpr ⟨fun hnil => htext (Entry.output.inj hnil), ?_, h⟩
        rintro e he ⟨-, hout⟩
        exact hhead e he hout

/-- **A grouping has nothing left to group.** -/
theorem grouped_isGrouped (entries : List Entry) : Grouped (grouped entries) := by
  induction entries with
  | nil => exact ⟨List.not_mem_nil, .nil⟩
  | cons entry entries ih => exact ih.before entry

/-! ## What grouping does not change -/

section

variable {β : Type} {f : List Entry → β}

/-- What depends neither on empty output nor on where output is cut does not depend on whether an
    entry joined those behind it. -/
theorem apply_before (hempty : ∀ entries, f (output "" :: entries) = f entries)
    (hcut : ∀ text run entries,
      f (output (text ++ run) :: entries) = f (output text :: output run :: entries))
    (entry : Entry) (entries : List Entry) : f (entry.before entries) = f (entry :: entries) := by
  cases entry with
  | input line => rfl
  | output text =>
    rcases starts entries with ⟨run, rest, rfl⟩ | ⟨-, hbefore⟩
    · exact hcut text run rest
    · rw [hbefore]
      by_cases htext : text = ""
      · rw [htext]
        exact (hempty entries).symm
      · rw [outputEntry_of_ne htext]
        rfl

/-- If moreover it is settled by the first entry and by what it is for the others, grouping does not
    change it. -/
theorem apply_grouped (hempty : ∀ entries, f (output "" :: entries) = f entries)
    (hcut : ∀ text run entries,
      f (output (text ++ run) :: entries) = f (output text :: output run :: entries))
    (hcons : ∀ entry entries entries',
      f entries = f entries' → f (entry :: entries) = f (entry :: entries'))
    (entries : List Entry) : f (grouped entries) = f entries := by
  induction entries with
  | nil => rfl
  | cons entry entries ih =>
    rw [grouped_cons, apply_before hempty hcut]
    exact hcons entry _ _ ih

end

/-- The bytes that an entry of output was written as. -/
def written : Entry → List UInt8
  | output text => text.toUTF8.data.toList
  | input _ => []

/-- Grouping does not change the bytes. -/
theorem flatMap_written_grouped (entries : List Entry) :
    (grouped entries).flatMap written = entries.flatMap written := by
  refine apply_grouped (f := (·.flatMap written)) (fun entries => rfl) ?_ ?_ entries
  · intro text run entries
    simp [written]
  · intro entry entries entries' h
    exact congrArg (entry.written ++ ·) h

end Entry

namespace Transcript

/-! ## Extending a transcript -/

/-- The entry is the next part of the conversation. -/
def log : Entry → Transcript → Transcript
  | .input line => logInput line
  | .output text => logOutput text

/-- The same for entries one after the other. -/
def logAll (entries : List Entry) (t : Transcript) : Transcript :=
  entries.foldl (fun t entry => t.log entry) t

theorem entries_logAll (entries : List Entry) (t : Transcript) :
    (t.logAll entries).entries =
      t.closed.toList ++ (Entry.output t.pending).before (Entry.grouped entries) := by
  induction entries generalizing t with
  | nil => exact (congrArg _ (List.append_nil _)).symm
  | cons entry entries ih =>
    obtain ⟨closed, pending⟩ := t
    rw [logAll, List.foldl_cons, ← logAll, ih]
    cases entry with
    | input line =>
      -- The line closes the run before it, and the next one is still empty.
      rw [log, logInput, Entry.before_empty]
      simp [Entry.grouped, Entry.before]
    | output text =>
      rw [log, logOutput, Entry.grouped_cons, Entry.before_before]

theorem inputs_logAll (entries : List Entry) (t : Transcript) :
    (t.logAll entries).inputs = t.inputs ++ entries.filterMap Entry.line? := by
  induction entries generalizing t with
  | nil => exact (List.append_nil _).symm
  | cons entry entries ih =>
    rw [logAll, List.foldl_cons, ← logAll, ih]
    cases entry with
    | input line => rw [log, inputs_logInput, List.append_assoc]; rfl
    | output text => rw [log, inputs_logOutput]; rfl

/-- A transcript of its own is the grouping of what it was extended by. -/
theorem logAll_empty (entries : List Entry) :
    (empty.logAll entries).entries = Entry.grouped entries ∧
      (empty.logAll entries).inputs = entries.filterMap Entry.line? := by
  rw [entries_logAll, inputs_logAll]
  exact ⟨Entry.before_empty _, rfl⟩

end Transcript

end WordMachine
