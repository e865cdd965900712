/-
  A program that copies the first line of a text.

  What the program does with a line is an induction on the characters that are left of it, one round
  of the loop each.

  * `Copied`: how a run ends that has copied a line, and `Copies`: what a run comes to that has the
    characters of a line to copy;
  * `Copies.cons`, `copies_nil`, `copies_of_refused`: a round with one character, with the newline,
    and with a character that is no value;
  * `copies_of_read`: what is left of a line is copied;
  * `echo_copies_line`: the program copies the first line of any text.
-/
import WordMachine.Proofs.EchoRound

namespace WordMachine

open WordMachine.Action
open Instruction (encodeAll)

/-- The lines of a text are all of it. -/
theorem join_linesThrough (text : String) : String.join (linesThrough text) = text := by
  rw [← String.toList_inj, String.toList_join, linesThrough, List.flatMap_map]
  simp only [String.toList_ofList, List.flatMap_id', flatten_cutAfter]

namespace Machine

variable {m m' : Machine} {x : Char} {console : Console} {log : List Event} {line : List Char}
  {written : List UInt8} {source : Source} {inputs : Option (List String)} {r : Ran Machine Unit}

/-! ## A line -/

/-- The run has copied a line behind what was written before: it ends where the program does, with
    the newline in the first register and the truth in the second. -/
structure Copied (line : List Char) (written : List UInt8) (source : Source)
    (inputs : Option (List String)) (r : Ran Machine Unit) : Prop where
  outcome : r.outcome = .ok ()
  output : r.state.output.toList = written ++ (line ++ ['\n']).flatMap String.utf8EncodeChar
  first : r.state.store.getRegister 0 = .ok 10
  second : r.state.store.getRegister 1 = .ok 1
  pc : r.state.store.pc = 12
  stack : r.state.stack.toList = []
  source : r.state.console.source = source
  inputs : r.state.console.transcript.map Transcript.inputs = inputs

/-- The machine copies a line, or the part of it before the first character that is no value. -/
structure Copies (line : List Char) (written : List UInt8) (source : Source)
    (inputs : Option (List String)) (m : Machine) : Prop where
  ends : (∀ x ∈ line, x.toNat < valueCount) → ∃ r, m.Ends r ∧ Copied line written source inputs r
  faults : ∀ front x back, line = front ++ x :: back → (∀ y ∈ front, y.toNat < valueCount) →
    valueCount ≤ x.toNat → ∃ r, m.Ends r ∧ r.outcome = .error (.valueRange x.toNat) ∧
      r.state.output.toList = written ++ front.flatMap String.utf8EncodeChar

theorem Copied.cons (h : Copied line (written ++ String.utf8EncodeChar x) source inputs r)
    (log : List Event) : Copied (x :: line) written source inputs (r.behind log) where
  outcome := h.outcome
  output := by
    rw [List.cons_append, List.flatMap_cons, ← List.append_assoc]
    exact h.output
  first := h.first
  second := h.second
  pc := h.pc
  stack := h.stack
  source := h.source
  inputs := h.inputs

/-- A line with one more character before it. -/
theorem Copies.cons (h : Copies line (written ++ String.utf8EncodeChar x) source inputs m')
    (hleads : LeadsTo m m') (hx : x.toNat < valueCount) :
    Copies (x :: line) written source inputs m := by
  obtain ⟨log, hleads⟩ := hleads
  constructor
  · intro hvalues
    obtain ⟨r, hends, hcopied⟩ := h.ends fun y hy => hvalues y (List.mem_cons_of_mem _ hy)
    exact ⟨r.behind log, hleads r hends, hcopied.cons log⟩
  · intro front y back hline hvalues hy
    rcases front with _ | ⟨z, front⟩
    · obtain ⟨rfl, -⟩ := List.cons.inj hline
      exact absurd hx (Nat.not_lt.mpr hy)
    · obtain ⟨rfl, hrest⟩ := List.cons.inj hline
      obtain ⟨r, hends, hout, houtput⟩ :=
        h.faults front y back hrest (fun z hz => hvalues z (List.mem_cons_of_mem _ hz)) hy
      refine ⟨r.behind log, hleads r hends, hout, ?_⟩
      rw [List.flatMap_cons, ← List.append_assoc]
      exact houtput

/-- The newline alone. -/
theorem copies_nil (h : InEcho 0 m)
    (hread : Console.readChar m.console = ⟨.ok 10, console, log⟩) (hs : console.sink.Infallible) :
    Copies [] console.sink.written.toList console.source
      (console.transcript.map Transcript.inputs) m := by
  obtain ⟨m', ⟨log', hleads⟩, h', hconsole, hfirst, hsecond⟩ := h.round_last hread hs
  have hs' : m'.console.sink.Infallible := by
    rw [hconsole]
    exact Console.infallible_echoed hs '\n'
  obtain ⟨⟨outcome, state, log''⟩, hends, rfl, rfl⟩ := h'.halts hs'
  have hregister {a : Word} (ha : a.IsRegister) :
      (m'.store.goTo 12).get a = .ok (m'.store.dereference a) := Store.get_of_isRegister ha
  constructor
  · intro _
    refine ⟨_, hleads _ hends, rfl, ?_, ?_, ?_, rfl, h'.stack, ?_, ?_⟩
    · show m'.console.sink.written.toList = _
      rw [hconsole, Console.written_echoed]
      rfl
    · exact (hregister (by decide)).trans (congrArg Except.ok hfirst)
    · exact (hregister (by decide)).trans (congrArg Except.ok hsecond)
    · show m'.console.source = _
      rw [hconsole]
      rfl
    · show m'.console.transcript.map Transcript.inputs = _
      rw [hconsole, Console.inputs_echoed]
  · intro front x back hline
    exact absurd hline (by simp)

/-- A character that is no value ends the run, where it was read. -/
theorem copies_of_refused (h : InEcho 0 m)
    (hread : Console.readChar m.console = ⟨.error (.valueRange x.toNat), console, log⟩)
    (hx : ¬ x.toNat < valueCount) :
    Copies (x :: line) console.sink.written.toList source inputs m := by
  have hstep := h.step_refused hread
  constructor
  · intro hvalues
    exact absurd (hvalues x List.mem_cons_self) hx
  · intro front y back hline hvalues _
    rcases front with _ | ⟨z, front⟩
    · obtain ⟨rfl, -⟩ := List.cons.inj hline
      exact ⟨_, ends_of_fault hstep, rfl, (List.append_nil _).symm⟩
    · obtain ⟨rfl, -⟩ := List.cons.inj hline
      exact absurd (hvalues x List.mem_cons_self) hx

/-- **The program copies what is left of a line**, by as many rounds as there are characters. -/
theorem copies_of_read (h : InEcho 0 m)
    (hread : Console.readChar m.console = ⟨Console.codeOf x, console, log⟩)
    (hs : console.sink.Infallible) (hline : x :: console.pending = line ++ ['\n'])
    (hnewline : '\n' ∉ line) :
    Copies line console.sink.written.toList console.source
      (console.transcript.map Transcript.inputs) m := by
  induction line generalizing m x console log with
  | nil =>
    obtain ⟨rfl, -⟩ := List.cons.inj hline
    exact copies_nil h hread hs
  | cons y line ih =>
    obtain ⟨rfl, hpending⟩ := List.cons.inj hline
    rw [List.mem_cons, not_or] at hnewline
    by_cases hx : x.toNat < valueCount
    · rw [Console.codeOf, if_pos hx] at hread
      obtain ⟨m', hleads, h', hconsole⟩ := h.round_again hread hx hs (Ne.symm hnewline.1)
      -- The next round reads the next character of the line.
      obtain ⟨c, rest, hrest⟩ := List.exists_cons_of_ne_nil (List.concat_ne_nil '\n' line)
      have hcons : (console.echoed x).pending = c :: rest := hpending.trans hrest
      have hread' : Console.readChar m'.console =
          ⟨Console.codeOf c, { console.echoed x with pending := rest }, []⟩ := by
        rw [hconsole]
        exact Console.readChar_of_cons hcons
      have hcopies := ih h' hread' (Console.infallible_echoed hs x) hrest.symm hnewline.2
      refine Copies.cons ?_ hleads hx
      rw [← Console.written_echoed, ← Console.inputs_echoed x]
      exact hcopies
    · rw [Console.codeOf, if_neg hx] at hread
      exact copies_of_refused h hread hx

/-! ## The first line of a text -/

theorem inEcho_new (source : Source) (sink : Sink) :
    InEcho 0 (new Store.echoing source sink).record where
  running := rfl
  pc := rfl
  program := by
    show Store.echoing.block 0 (encodeAll echo).length = encodeAll echo
    decide +kernel
  stack := rfl

/-- **The program copies the first line of any text.**  A line that consists of values is copied
    whole, followed by a newline, and nothing behind it is read.  The first character that is no
    value ends the run behind those before it, and so does the end of the text where there is no
    line. -/
theorem echo_copies_line {sink : Sink} (hs : sink.Infallible) (text : String) :
    let m := (new Store.echoing (.ofText text) sink).record
    (text = "" →
      ∃ r, m.Ends r ∧ r.outcome = .error .inputExhausted ∧ r.state.output = sink.written) ∧
    (text ≠ "" → ∃ line lines, linesThrough text = line :: lines ∧
      Copies (chomp line).toList sink.written.toList (.ofText (String.join lines))
        (some [chomp line]) m) := by
  intro m
  have hm : InEcho 0 m := inEcho_new _ _
  constructor
  · rintro rfl
    have hread : Console.readChar m.console = ⟨.error .inputExhausted, m.console.flushed, []⟩ :=
      Console.readChar_of_no_line hs rfl (Console.takeLine_of_source rfl rfl)
    exact ⟨_, ends_of_fault (hm.step_refused hread), rfl, rfl⟩
  · intro hne
    rcases Source.readLine_ofText text with ⟨hnil, -⟩ | ⟨line, text', hlines, hreadLine⟩
    · have hempty := join_linesThrough text
      rw [hnil] at hempty
      exact absurd hempty.symm hne
    · have htake : Console.takeLine m.console.flushed =
          ⟨.ok line, { m.console.flushed with source := .ofText text' }, []⟩ :=
        Console.takeLine_of_source rfl hreadLine
      have hmem : chomp line ∈ (linesThrough text).map chomp := by
        rw [hlines]
        exact List.mem_cons_self
      have hcopies := copies_of_read hm (Console.readChar_of_line hs rfl htake) hs.flushed
        (Console.charsOf_eq_cons line).symm (newline_not_mem_of_linesThrough hmem)
      refine ⟨line, linesThrough text', hlines, ?_⟩
      rw [join_linesThrough]
      exact hcopies

/-- A line in front of another one, with a sink that was written to before; a line with a character
    that is no value; and no line at all. -/
theorem echo_copies_line_hello :
    let sink : Sink := ⟨#[62], none, none, 0⟩
    let run (text : String) := (new Store.echoing (.ofText text) sink).record
    sink.Infallible ∧
    (∃ r, (run "hé\r\nworld\n").Ends r ∧
      Copied "hé".toList [62] (.ofText "world\n") (some ["hé"]) r) ∧
    (∃ r, (run "h\u8000\n").Ends r ∧ r.outcome = .error (.valueRange 32768) ∧
      r.state.output.toList = [62, 104]) ∧
    ∃ r, (run "").Ends r ∧ r.outcome = .error .inputExhausted ∧ r.state.output = #[62] := by
  intro sink run
  have hs : sink.Infallible := ⟨rfl, rfl⟩
  refine ⟨hs, ?_, ?_, (echo_copies_line hs "").1 rfl⟩
  · obtain ⟨line, lines, hlines, hcopies⟩ := (echo_copies_line hs "hé\r\nworld\n").2 (by decide)
    obtain ⟨rfl, rfl⟩ : line = "hé\r\n" ∧ lines = ["world\n"] :=
      List.cons.inj (hlines.symm.trans (by decide +kernel))
    have hchomp : (chomp "hé\r\n").toList = ['h', 'é'] := by decide +kernel
    exact hcopies.ends (by simp [hchomp])
  · obtain ⟨line, lines, hlines, hcopies⟩ := (echo_copies_line hs "h\u8000\n").2 (by decide)
    obtain ⟨rfl, rfl⟩ : line = "h\u8000\n" ∧ lines = [] :=
      List.cons.inj (hlines.symm.trans (by decide +kernel))
    exact hcopies.faults ['h'] '\u8000' [] (by decide +kernel)
      (List.forall_mem_singleton.mpr (by decide)) (by decide)

end Machine

end WordMachine
