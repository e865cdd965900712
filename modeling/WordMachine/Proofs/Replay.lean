/-
  Replaying a recorded run.

  The lines that were recorded are written to a text, and the lines of that text are queued for
  another machine.

  * `Transcript.readInputs_inputText`: a line is read back without a carriage return at its end;
  * `map_chomp_readInputs_iff`: what the queue offers is what was recorded just where no line ends
    in a carriage return;
  * `Console.Records`, `records_after`: what a console recorded is what it no longer offers;
  * `recording`, `replaying`: the two machines, and `replaying_ends`: the second run ends as the
    first one did, if its lines are read back;
  * `not_replaying_return`: it does not if a line ends in a carriage return.
-/
import WordMachine.Proofs.Ending
import WordMachine.Proofs.InputLines

namespace WordMachine

open WordMachine.Action

/-! ## Writing lines and reading them back -/

section

variable {c d : Char} {line : List Char} {lines : List (List Char)} {text : String}

theorem dropTrailing_of_not_mem (h : c ∉ line) : dropTrailing c line = line :=
  dropTrailing_eq_self_iff.mpr fun hlast => h (List.mem_of_getLast? hlast)

theorem mem_of_mem_dropTrailing (h : d ∈ dropTrailing c line) : d ∈ line := by
  rcases eq_or_eq_append_dropTrailing c line with heq | heq
  · rw [heq]
    exact h
  · rw [heq]
    exact List.mem_append_left _ h

theorem dropTrailing_twice_eq_self_iff :
    dropTrailing c (dropTrailing c line) = line ↔ line.getLast? ≠ some c := by
  rw [← dropTrailing_eq_self_iff]
  constructor
  · intro h
    rcases eq_or_eq_append_dropTrailing c (dropTrailing c line) with heq | heq
    · exact heq.trans h
    · -- Then the line would be longer than itself.
      have hlong := congrArg List.length heq
      rw [h, List.length_append, List.length_singleton] at hlong
      rcases eq_or_eq_append_dropTrailing c line with hline | hline
      · exact hline.symm
      · have hshort := congrArg List.length hline
        rw [List.length_append, List.length_singleton] at hshort
        omega
  · intro h
    rw [h, h]

theorem dropTrailing_cons (h : c ≠ d ∨ line ≠ []) :
    dropTrailing d (c :: line) = c :: dropTrailing d line := by
  rcases line with _ | ⟨x, line⟩
  · have hcd : c ≠ d := h.resolve_right fun hne => hne rfl
    exact dropTrailing_append_of_ne hcd []
  · unfold dropTrailing
    rw [List.getLast?_cons_cons]
    split
    · rfl
    · rfl

theorem splitLines_append_newline (h : '\n' ∉ line) (rest : List Char) :
    splitLines (line ++ '\n' :: rest) = dropTrailing '\r' line :: splitLines rest := by
  induction line with
  | nil => exact splitLines_newline rest
  | cons c line ih =>
    rw [List.mem_cons, not_or] at h
    by_cases hend : c = '\r' ∧ line = []
    · obtain ⟨rfl, rfl⟩ := hend
      exact splitLines_return_newline rest
    · have hne : c ≠ '\r' ∨ line ≠ [] := not_and_or.mp hend
      have hhead : c = '\r' → (line ++ '\n' :: rest).head? ≠ some '\n' := by
        rintro hc
        obtain ⟨x, line, rfl⟩ := List.exists_cons_of_ne_nil (hne.resolve_left fun hn => hn hc)
        rintro ⟨⟩
        exact h.2 List.mem_cons_self
      rw [List.cons_append, splitLines_cons (Ne.symm h.1) hhead, ih h.2, dropTrailing_cons hne]
      rfl

theorem splitLines_flatMap (h : ∀ line ∈ lines, '\n' ∉ line) :
    splitLines (lines.flatMap fun line => line ++ ['\n']) = lines.map (dropTrailing '\r') := by
  induction lines with
  | nil => rfl
  | cons line lines ih =>
    rw [List.forall_mem_cons] at h
    rw [List.flatMap_cons, List.append_assoc, List.singleton_append,
      splitLines_append_newline h.1, ih h.2, List.map_cons]

/-- No newline is left in a line whose end was dropped. -/
theorem newline_not_mem_of_linesThrough {line : String}
    (h : line ∈ (linesThrough text).map chomp) : '\n' ∉ line.toList := by
  obtain ⟨whole, hwhole, rfl⟩ := List.mem_map.mp h
  obtain ⟨run, hrun, rfl⟩ := List.mem_map.mp hwhole
  obtain ⟨front, hfront, heq⟩ := exists_of_mem_cutAfter hrun
  have hdrop : dropTrailing '\n' run = front := by
    rcases heq with rfl | rfl
    · exact dropTrailing_of_not_mem hfront
    · exact dropTrailing_append_self '\n' front
  rw [toList_chomp, String.toList_ofList, hdrop]
  exact fun hmem => hfront (mem_of_mem_dropTrailing hmem)

end

namespace Transcript

variable {t : Transcript}

theorem toList_inputText (t : Transcript) :
    t.inputText.toList = (t.inputs.map String.toList).flatMap fun line => line ++ ['\n'] := by
  rw [inputText, String.toList_join, List.flatMap_map, List.flatMap_map]
  simp

/-- A line is read back without a carriage return at its end. -/
theorem readInputs_inputText (h : ∀ line ∈ t.inputs, '\n' ∉ line.toList) :
    readInputs t.inputText =
      t.inputs.map fun line => String.ofList (dropTrailing '\r' line.toList) := by
  have hlines : ∀ line ∈ t.inputs.map String.toList, '\n' ∉ line := by
    simpa using h
  rw [readInputs, linesOf, toList_inputText, splitLines_flatMap hlines, List.map_map, List.map_map]
  rfl

/-- What the queue offers of lines that were written and read back is what was recorded, just where
    no line ends in a carriage return. -/
theorem map_chomp_readInputs_iff (h : ∀ line ∈ t.inputs, '\n' ∉ line.toList) :
    (readInputs t.inputText).map chomp = t.inputs ↔
      ∀ line ∈ t.inputs, line.toList.getLast? ≠ some '\r' := by
  have hline (line : String) (hmem : line ∈ t.inputs) :
      chomp (String.ofList (dropTrailing '\r' line.toList)) = line ↔
        line.toList.getLast? ≠ some '\r' := by
    have hnone : '\n' ∉ dropTrailing '\r' line.toList :=
      fun hn => h line hmem (mem_of_mem_dropTrailing hn)
    rw [chomp, String.toList_ofList, dropTrailing_of_not_mem hnone, ← String.toList_inj,
      String.toList_ofList, dropTrailing_twice_eq_self_iff]
  calc (readInputs t.inputText).map chomp = t.inputs
      ↔ t.inputs.map (fun line => chomp (String.ofList (dropTrailing '\r' line.toList))) =
          t.inputs.map id := by
        rw [readInputs_inputText h, List.map_map, List.map_id]
        rfl
    _ ↔ ∀ line ∈ t.inputs, line.toList.getLast? ≠ some '\r' := by
        rw [List.map_inj_left]
        exact forall₂_congr hline

/-- The text that is written holds the lines. -/
theorem textOf_renderInputs (t : Transcript) :
    Source.textOf (t.renderInputs .unlimited).state.written.toList = .ok t.inputText := by
  rw [renderInputs_eq, Sink.written_writeText]
  exact Source.textOf_ofText _

end Transcript

/-! ## What is recorded -/

namespace Console

variable {console : Console} {past lines : List String}

/-- The console has recorded the one and offers the other lines. -/
structure Records (past lines : List String) (console : Console) : Prop where
  infallible : console.sink.Infallible
  inputs : console.transcript.map Transcript.inputs = some past
  offers : console.Offers lines

theorem records_readChar_of_nil (h : Records past lines console) (hp : console.pending = []) :
    Records (past ++ lines.take 1) (lines.drop 1) (readChar console).state := by
  have hoffers : console.flushed.Offers lines := h.offers
  rcases takeLine_of_offers hoffers with
    ⟨rfl, htake⟩ | ⟨line, rest, source, queue, rfl, htake, hrest⟩
  · rw [readChar_of_no_line h.infallible hp htake]
    refine ⟨h.infallible.flushed, ?_, h.offers⟩
    rw [List.take_nil, List.append_nil]
    exact h.inputs
  · rw [readChar_of_line h.infallible hp htake]
    obtain ⟨t, ht, rfl⟩ := Option.map_eq_some_iff.mp h.inputs
    dsimp only [start]
    refine ⟨h.infallible.flushed, ?_, hrest.congr rfl rfl⟩
    show (console.transcript.map _).map _ = _
    rw [ht, Option.map_some, Option.map_some, Transcript.inputs_logInput]
    rfl

theorem keeps_records_writeChar (code : Word) : Keeps (Records past lines) (writeChar code) := by
  refine keeps_writeChar (fun bytes _ h => ⟨h.infallible.write bytes, h.inputs, h.offers⟩)
    (fun text console h => ⟨h.infallible, ?_, h.offers⟩) code
  obtain ⟨t, ht, rfl⟩ := Option.map_eq_some_iff.mp h.inputs
  show (console.transcript.map _).map _ = _
  rw [ht, Option.map_some, Option.map_some, Transcript.inputs_logOutput]

end Console

namespace Machine

variable {m : Machine} {k : Nat} {past lines : List String}

theorem records_step (h : m.console.Records past lines) :
    (step m).state.console.Records (past ++ lines.take (if m.AsksLine then 1 else 0))
      (lines.drop (if m.AsksLine then 1 else 0)) := by
  by_cases hask : m.AsksLine
  · rw [if_pos hask, console_step_of_reads hask.1]
    exact Console.records_readChar_of_nil h hask.2
  · rw [if_neg hask, List.take_zero, List.append_nil, List.drop_zero]
    exact console_step_of_not_asks hask h
      (fun _ _ hc => ⟨hc.infallible, hc.inputs, hc.offers⟩) Console.keeps_records_writeChar

/-- The lines that were asked for are recorded, the others are left. -/
theorem records_after (k : Nat) (h : m.console.Records past lines) :
    (m.after k).console.Records (past ++ lines.take (m.asked k)) (lines.drop (m.asked k)) := by
  induction k generalizing m past lines with
  | zero =>
    rw [asked, List.take_zero, List.append_nil, List.drop_zero]
    exact h
  | succ k ih =>
    have hrest := ih (records_step h)
    rw [List.append_assoc, ← List.take_add, List.drop_drop, Nat.add_comm] at hrest
    exact hrest

theorem outcome_steps_ok_iff :
    (steps k m).outcome = .ok () ↔ ∀ j < k, (step (m.after j)).outcome = .ok () := by
  induction k generalizing m with
  | zero => exact ⟨fun _ => nofun, fun _ => rfl⟩
  | succ k ih =>
    rcases hs : step m with ⟨fault | ⟨⟩, m', log⟩
    · rw [steps_of_fault hs]
      refine ⟨nofun, fun h => ?_⟩
      exact (congrArg Ran.outcome hs).symm.trans (h 0 (Nat.zero_lt_succ k))
    · have hnext (j : Nat) : m.after (j + 1) = m'.after j := by rw [after_succ, hs]
      rw [steps_of_ok hs]
      refine ih.trans ⟨fun h j hj => ?_, fun h j hj => ?_⟩
      · cases j with
        | zero => exact congrArg Ran.outcome hs
        | succ j =>
          rw [hnext]
          exact h j (Nat.lt_of_succ_lt_succ hj)
      · rw [← hnext]
        exact h (j + 1) (Nat.succ_lt_succ hj)

theorem state_steps_of_ok (h : (steps k m).outcome = .ok ()) : (steps k m).state = m.after k := by
  induction k generalizing m with
  | zero => rfl
  | succ k ih =>
    rcases hs : step m with ⟨fault | ⟨⟩, m', log⟩
    · rw [steps_of_fault hs] at h
      cases h
    · rw [steps_of_ok hs] at h ⊢
      rw [after_succ, hs]
      exact ih h

/-! ## Replaying -/

variable {store : Store} {rule : EmptyReturn} {text : String} {sink : Sink}
  {r : Ran Machine Unit} {t : Transcript}

/-- A machine that reads a text and keeps a transcript. -/
def recording (store : Store) (rule : EmptyReturn) (text : String) (sink : Sink) : Machine :=
  ((new store (.ofText text) sink).withEmptyReturn rule).record

/-- A machine that reads nothing but the lines in its queue. -/
def replaying (store : Store) (rule : EmptyReturn) (lines : List String) (sink : Sink) : Machine :=
  ((new store (.ofText "") sink).withEmptyReturn rule).queueLines lines

/-- What was recorded is what was asked for. -/
theorem inputs_of_recording {k : Nat} (hs : sink.Infallible)
    (ht : ((recording store rule text sink).after k).console.transcript = some t) :
    t.inputs =
      ((linesThrough text).map chomp).take ((recording store rule text sink).asked k) := by
  have hrecords : (recording store rule text sink).console.Records []
      ((linesThrough text).map chomp) := ⟨hs, rfl, text, rfl, rfl⟩
  have hpast := (records_after k hrecords).inputs
  rw [ht] at hpast
  exact Option.some.inj hpast

/-- What is read back is what the queue offers. -/
theorem offers_replaying (hnewline : ∀ line ∈ t.inputs, '\n' ∉ line.toList)
    (hreturn : ∀ line ∈ t.inputs, line.toList.getLast? ≠ some '\r') :
    (replaying store rule (Transcript.readInputs t.inputText) sink).console.Offers t.inputs := by
  have hempty : linesThrough "" = [] := rfl
  refine ⟨"", rfl, ?_⟩
  rw [hempty, List.append_nil]
  exact (Transcript.map_chomp_readInputs_iff hnewline).mpr hreturn |>.symm

/-- **A recorded run can be replayed**, if none of its lines ends in a carriage return.  Its lines
    are read back from the text that they are written to, and with them in the queue the same
    program halts as it did, with the same store, stack and output. -/
theorem replaying_ends (hs : sink.Infallible) (h : (recording store rule text sink).Ends r)
    (hok : r.outcome = .ok ()) (ht : r.state.console.transcript = some t)
    (hreturn : ∀ line ∈ t.inputs, line.toList.getLast? ≠ some '\r') :
    ∃ recorded r', Source.textOf (t.renderInputs .unlimited).state.written.toList = .ok recorded ∧
      (replaying store rule (Transcript.readInputs recorded) sink).Ends r' ∧
      r'.outcome = .ok () ∧ r'.state.halted = true ∧ r'.state.store = r.state.store ∧
      r'.state.stack = r.state.stack ∧ r'.state.output = r.state.output := by
  obtain ⟨k, ⟨fault, -, rfl⟩ | ⟨hsteps, hhalted, rfl⟩⟩ := h.cases
  · cases hok
  · have hafter := state_steps_of_ok hsteps
    rw [hafter] at ht hhalted ⊢
    have hinputs := inputs_of_recording hs ht
    have hnewline : ∀ line ∈ t.inputs, '\n' ∉ line.toList := by
      intro line hmem
      rw [hinputs] at hmem
      exact newline_not_mem_of_linesThrough (List.mem_of_mem_take hmem)
    -- The transcripts differ, which is why they are not related.
    have hbeside : Beside
        (Console.Shares (fun _ _ => True) (0 + (recording store rule text sink).asked k))
        (recording store rule text sink)
        (replaying store rule (Transcript.readInputs t.inputText) sink) := by
      refine ⟨rfl, rfl, rfl, rfl, rfl, hs, rfl, trivial, (linesThrough text).map chomp, t.inputs,
        ⟨text, rfl, rfl⟩, offers_replaying hnewline hreturn, ?_⟩
      rw [Nat.zero_add, hinputs, List.take_take, Nat.min_self]
    obtain ⟨hsame, hend⟩ := shares_after (fun _ _ _ _ => trivial) hbeside
    have hsteps' := outcome_steps_ok_iff.mpr fun j hj =>
      (hsame j hj).1.symm.trans (outcome_steps_ok_iff.mp hsteps j hj)
    have hafter' := state_steps_of_ok hsteps'
    have hends := ends_of_steps_halted hsteps' (hafter' ▸ hend.halted ▸ hhalted)
    rw [hafter'] at hends
    have hsink := hend.console.infallible
    rw [hend.console.sink] at hsink
    refine ⟨t.inputText, _, t.textOf_renderInputs, hends, ?_, hend.halted ▸ hhalted,
      hend.store.symm, hend.stack.symm, ?_⟩
    · rw [Console.flush_eq hsink]
    · have hwritten := congrArg Sink.written hend.console.sink.symm
      exact hwritten

/-- A line that the source ends with a carriage return and a newline, and what the other machine
    makes of it. -/
theorem replaying_ends_readingTwo :
    let m := recording readingTwo .halts "a\r\nb" .unlimited
    (steps 3 m).state.console.transcript = some ⟨#[.input "a"], ""⟩ ∧
      ∃ r', (replaying readingTwo .halts ["a"] .unlimited).Ends r' ∧ r'.outcome = .ok () ∧
        r'.state.store = (steps 3 m).state.store := by
  intro m
  have hok : (steps 3 m).outcome = .ok () := by decide +kernel
  have hhalted : (steps 3 m).state.halted = true := by decide +kernel
  have hflush : (Console.flush (steps 3 m).state.console).outcome = .ok () := by decide +kernel
  have ht : (steps 3 m).state.console.transcript = some ⟨#[.input "a"], ""⟩ := by decide +kernel
  have hread : Transcript.readInputs (Transcript.mk #[.input "a"] "").inputText = ["a"] := by
    decide +kernel
  obtain ⟨recorded, r', hrecorded, hends, hout, -, hstore, -⟩ :=
    replaying_ends ⟨rfl, rfl⟩ (ends_of_steps_halted hok hhalted) hflush ht (by decide +kernel)
  rw [Transcript.textOf_renderInputs] at hrecorded
  obtain rfl := Except.ok.inj hrecorded
  rw [hread] at hends
  exact ⟨ht, r', hends, hout, hstore⟩

/-- A line that still ends in a carriage return loses it on the way: the first run reads `'a'` and
    the return, the second one `'a'` and the newline. -/
theorem not_replaying_return :
    ¬ ∀ (store : Store) (rule : EmptyReturn) (text : String) (sink : Sink) (r : Ran Machine Unit)
      (t : Transcript), sink.Infallible → (recording store rule text sink).Ends r →
      r.outcome = .ok () → r.state.console.transcript = some t →
      ∃ recorded r', Source.textOf (t.renderInputs .unlimited).state.written.toList = .ok recorded ∧
        (replaying store rule (Transcript.readInputs recorded) sink).Ends r' ∧
        r'.outcome = .ok () ∧ r'.state.halted = true ∧ r'.state.store = r.state.store ∧
        r'.state.stack = r.state.stack ∧ r'.state.output = r.state.output := by
  intro h
  let m := recording readingTwo .halts "a\r\r\n" .unlimited
  let m' := replaying readingTwo .halts ["a"] .unlimited
  have hends := ends_of_steps_halted (show (steps 3 m).outcome = .ok () by decide +kernel)
    (by decide +kernel)
  have hends' := ends_of_steps_halted (show (steps 3 m').outcome = .ok () by decide +kernel)
    (by decide +kernel)
  have hread : Transcript.readInputs (Transcript.mk #[.input "a\r"] "").inputText = ["a"] := by
    decide +kernel
  obtain ⟨recorded, r', hrecorded, hreplayed, -, -, hstore, -⟩ :=
    h _ _ _ _ _ ⟨#[.input "a\r"], ""⟩ ⟨rfl, rfl⟩ hends (by decide +kernel) (by decide +kernel)
  rw [Transcript.textOf_renderInputs] at hrecorded
  obtain rfl := Except.ok.inj hrecorded
  rw [hread] at hreplayed
  rw [hreplayed.unique hends'] at hstore
  have hcell : (steps 3 m).state.store.cells[6] = 13 := by decide +kernel
  have hcell' : (steps 3 m').state.store.cells[6] = 10 := by decide +kernel
  have heq : (steps 3 m').state.store.cells[6] = (steps 3 m).state.store.cells[6] :=
    congrArg (fun s : Store => s.cells[6]) hstore
  rw [hcell, hcell'] at heq
  cases heq

end Machine

end WordMachine
