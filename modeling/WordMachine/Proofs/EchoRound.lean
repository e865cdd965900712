/-
  A program that copies a line, one round of its loop at a time.

  The program reads a character, writes it and begins again unless it was a newline.

  * `echo`, `Store.echoing`: the program, and the store that holds nothing else;
  * `performAll_copyOne`, `perform_jf_of_zero` and the like: what its instructions do where they
    succeed;
  * `InEcho p m`: the machine is about to take the instruction of the program at the position `p`,
    which `InEcho.step` says what it does with;
  * `LeadsTo m m'`: the run of the one machine goes on as that of the other;
  * `InEcho.round_again`, `round_last`: what one round does with a character, and with the newline;
    `step_refused`: there is no round if the read fails; `halts`: the end behind the loop.
-/
import WordMachine.Proofs.Conversation
import WordMachine.Proofs.Replay
import WordMachine.Proofs.StraightLine

namespace WordMachine

open WordMachine.Action
open Instruction (encodeAll)

/-! ## The program -/

/-- Reads a character into the first register, writes it and compares it with the newline. -/
def copyOne : List Instruction :=
  [⟨.inp, 32768, 0, 0⟩, ⟨.out, 32768, 0, 0⟩, ⟨.eq, 32769, 32768, 10⟩]

/-- Back to the beginning, unless the comparison came out true. -/
def again : Instruction := ⟨.jf, 32769, 0, 0⟩

/-- The program: a loop around `copyOne`, and a halt behind it. -/
def echo : List Instruction := copyOne ++ [again, ⟨.halt, 0, 0, 0⟩]

/-- The store that holds the program and nothing else. -/
def Store.echoing : Store :=
  (writeBlock 0 [20, 32768, 19, 32768, 4, 32769, 32768, 10, 8, 32769, 0, 0] .empty).state

/-- A register is no ordinary memory. -/
theorem Store.sameMemory_write {s : Store} {a : Word} (ha : a.IsRegister) (v : Word) :
    s.SameMemory (s.write a v) := by
  intro k hk
  have hne : a.toNat ≠ k := Nat.ne_of_gt (Nat.lt_of_lt_of_le hk ha.1)
  rw [word_write ha.2, if_neg hne]

/-- The console after a character was written. -/
def Console.echoed (c : Char) (console : Console) : Console :=
  { console with
    sink := { console.sink with written := console.sink.written ++ String.utf8EncodeChar c }
    transcript := console.transcript.map (Transcript.logOutput (String.singleton c)) }

theorem Console.written_echoed (c : Char) (console : Console) :
    (console.echoed c).sink.written.toList =
      console.sink.written.toList ++ String.utf8EncodeChar c := Array.toList_appendList

theorem Console.inputs_echoed (c : Char) (console : Console) :
    (console.echoed c).transcript.map Transcript.inputs =
      console.transcript.map Transcript.inputs := by
  rw [echoed, Option.map_map]
  exact congrArg (Option.map · _) (funext fun t => Transcript.inputs_logOutput t _)

theorem Console.infallible_echoed {console : Console} (h : console.sink.Infallible) (c : Char) :
    (console.echoed c).sink.Infallible := ⟨h.capacity, h.flushFailure⟩

namespace Machine

variable {m m' : Machine} {i : Instruction} {a b c code v : Word} {x : Char} {console : Console}
  {log : List Event} {fault : Fault}

/-! ## The instructions of the program -/

theorem toNat_ofNat_of_value (hx : x.toNat < valueCount) :
    (UInt16.ofNat x.toNat).toNat = x.toNat :=
  UInt16.toNat_ofNat_of_lt' (Nat.lt_trans hx (by decide))

theorem isValue_ofNat (hx : x.toNat < valueCount) : Word.IsValue (.ofNat x.toNat) := by
  rw [Word.IsValue, toNat_ofNat_of_value hx]
  exact hx

theorem ofNat_eq_ten_iff (hx : x.toNat < valueCount) : UInt16.ofNat x.toNat = 10 ↔ x = '\n' := by
  rw [← UInt16.toNat_inj, toNat_ofNat_of_value hx, ← Char.toNat_inj]
  rfl

/-- A character that is a value is written as it is. -/
theorem writeChar_ofNat (hs : console.sink.Infallible) (hx : x.toNat < valueCount) :
    ∃ log, Console.writeChar (.ofNat x.toNat) console = ⟨.ok (), console.echoed x, log⟩ := by
  have hchar : Console.charOf (.ofNat x.toNat) = x := by
    rw [Console.charOf, Console.char?_eq_some_iff.mpr (toNat_ofNat_of_value hx).symm]
    rfl
  have hwritten := Console.writeChar_of_ok
    (hs.write_eq (String.utf8EncodeChar (Console.charOf (.ofNat x.toNat))))
  rw [hchar] at hwritten
  rcases hw : Console.writeChar (.ofNat x.toNat) console with ⟨outcome, console', log⟩
  rw [hw] at hwritten
  obtain ⟨rfl, rfl⟩ := hwritten
  exact ⟨log, rfl⟩

/-- The first three instructions take a character over, and say whether it is the newline. -/
theorem performAll_copyOne
    (hread : Console.readChar m.console = ⟨.ok (.ofNat x.toNat), console, log⟩)
    (hx : x.toNat < valueCount) (hs : console.sink.Infallible) :
    ∃ log, performAll copyOne m = ⟨.ok (), { m with
      store := (m.store.write 32768 (.ofNat x.toNat)).write 32769
        (.ofBool (UInt16.ofNat x.toNat == 10))
      console := console.echoed x }, log⟩ := by
  obtain ⟨log', hwrite⟩ := writeChar_ofNat hs hx
  have hfirst : (32768 : Word).IsAddress := by decide
  have hsecond : (32769 : Word).IsAddress := by decide
  let m₁ : Machine := { m with store := m.store.write 32768 (.ofNat x.toNat), console }
  let m₂ : Machine := { m₁ with console := console.echoed x }
  have hregister : m₁.store.dereference 32768 = .ofNat x.toNat := by
    rw [Store.dereference_write (by decide) (by decide), if_pos rfl]
  have hinp : perform (Instruction.resolved m.store ⟨.inp, 32768, 0, 0⟩) m =
      ⟨.ok (), m₁, log ++ [.executed .inp [32768] (some (.ofNat x.toNat))]⟩ :=
    perform_inp_of_ok hread hfirst (isValue_ofNat hx)
  have hout : perform (Instruction.resolved m₁.store ⟨.out, 32768, 0, 0⟩) m₁ =
      ⟨.ok (), m₂, log' ++ [.executed .out [.ofNat x.toNat] none]⟩ := by
    show perform ⟨.out, m₁.store.dereference 32768, 0, 0⟩ m₁ = _
    rw [hregister]
    exact perform_out_of_ok hwrite
  have heq : perform (Instruction.resolved m₂.store ⟨.eq, 32769, 32768, 10⟩) m₂ =
      ⟨.ok (), { m₂ with
        store := m₂.store.write 32769 (.ofBool (UInt16.ofNat x.toNat == 10)) },
        [.executed .eq [32769, .ofNat x.toNat, 10]
          (some (.ofBool (UInt16.ofNat x.toNat == 10)))]⟩ := by
    show perform ⟨.eq, 32769, m₁.store.dereference 32768, 10⟩ m₂ = _
    rw [hregister]
    exact put_of_isValue hsecond (Word.isValue_ofBool _) .eq _
  rw [copyOne, performAll_of_ok hinp, performAll_of_ok hout, performAll_of_ok heq]
  exact ⟨_, rfl⟩

theorem perform_jf_of_zero (hb : b.IsValue) :
    perform ⟨.jf, 0, b, c⟩ m =
      ⟨.ok (), { m with store := { m.store with pc := b } }, [.executed .jf [0, b] none]⟩ := by
  rw [perform, if_pos rfl, bind_ok (onStore_jump hb)]
  rfl

theorem perform_jf_of_ne (ha : a ≠ 0) :
    perform ⟨.jf, a, b, c⟩ m = ⟨.ok (), m, [.executed .jf [a, b] none]⟩ := by
  rw [perform, if_neg ha]
  rfl

/-! ## Where the machine is in the program -/

/-- The machine is about to take the instruction at a position of the program, and there is nothing
    on its stack. -/
structure InEcho (p : Nat) (m : Machine) : Prop where
  running : m.halted = false
  pc : m.store.pc.toNat = p
  program : m.store.block 0 (encodeAll echo).length = encodeAll echo
  stack : m.stack.toList = []

/-- The run goes on as that of another machine. -/
def LeadsTo (m m' : Machine) : Prop := ∃ log, ∀ r, m'.Ends r → m.Ends (r.behind log)

theorem leadsTo_of_steps {n : Nat} (h : steps n m = ⟨.ok (), m', log⟩) : LeadsTo m m' := by
  have hok : (steps n m).outcome = .ok () := by rw [h]
  have hends (r : Ran Machine Unit) := ends_steps (r := r) hok
  rw [h] at hends
  exact ⟨log, fun r hr => (hends _).mpr ⟨r, hr, rfl⟩⟩

theorem LeadsTo.step (h : LeadsTo m m') {n : Machine} (hs : step m' = ⟨.ok (), n, log⟩) :
    LeadsTo m n := by
  obtain ⟨log', h⟩ := h
  refine ⟨log' ++ log, fun r hr => ?_⟩
  rw [← Ran.behind_behind]
  exact h _ ((ends_of_ok hs).mpr ⟨r, hr, rfl⟩)

namespace InEcho

variable {p : Nat} {front back : List Instruction}

/-- An instruction of the program is carried out where it is stored. -/
theorem step (h : InEcho (encodeAll front).length m) (hecho : echo = front ++ i :: back) :
    step m = perform (i.resolved m.store)
      (m.goTo ((encodeAll front).length + i.encode.length)) := by
  have hwords : encodeAll echo = encodeAll front ++ (i.encode ++ encodeAll back) := by
    rw [hecho, encodeAll, List.flatMap_append, List.flatMap_cons]
    rfl
  have hprogram := h.program
  rw [hwords] at hprogram
  have hstored := (Store.block_of_append (Store.block_of_append hprogram).2).1
  have hfits : (encodeAll front).length + i.encode.length ≤ valueCount := by
    have hlength := congrArg List.length hwords
    rw [List.length_append, List.length_append] at hlength
    have htwelve : (encodeAll echo).length = 12 := rfl
    simp only [valueCount]
    omega
  rw [Nat.zero_add, ← h.pc] at hstored
  rw [← h.pc] at hfits ⊢
  have hholds := Store.holds_of_block hstored hfits
  rw [step_of_holds h.running hholds, Instruction.length_encode, Nat.add_comm _ 1, ← Nat.add_assoc]
  rfl

/-- The first three instructions are a block. -/
theorem before_copyOne (h : InEcho 0 m) : Before (copyOne ++ []) m where
  running := h.running
  straight := by decide +kernel
  fits := by
    rw [h.pc]
    decide
  stored := by
    have hwords : encodeAll echo = encodeAll copyOne ++ [8, 32769, 0, 0] := rfl
    have hprogram := h.program
    rw [hwords] at hprogram
    rw [h.pc, List.append_nil]
    exact (Store.block_of_append hprogram).1

theorem copies_char (h : InEcho 0 m)
    (hread : Console.readChar m.console = ⟨.ok (.ofNat x.toNat), console, log⟩)
    (hx : x.toNat < valueCount) (hs : console.sink.Infallible) :
    ∃ m', LeadsTo m m' ∧ InEcho (encodeAll copyOne).length m' ∧ m'.console = console.echoed x ∧
      m'.store.dereference 32768 = .ofNat x.toNat ∧
      m'.store.dereference 32769 = .ofBool (UInt16.ofNat x.toNat == 10) := by
  obtain ⟨log', hperform⟩ := performAll_copyOne hread hx hs
  have hsteps := h.before_copyOne.steps_of_ok (by rw [hperform])
  rw [hperform, h.pc, Nat.zero_add] at hsteps
  have hfirst : (32768 : Word).IsRegister := by decide
  have hsecond : (32769 : Word).IsRegister := by decide
  refine ⟨_, leadsTo_of_steps hsteps, ⟨h.running, rfl, ?_, h.stack⟩, rfl, ?_, ?_⟩
  · have hsame : m.store.SameMemory ((m.store.write 32768 (.ofNat x.toNat)).write 32769
        (.ofBool (UInt16.ofNat x.toNat == 10))) := fun k hk =>
      (Store.sameMemory_write hsecond _ k hk).trans (Store.sameMemory_write hfirst _ k hk)
    exact (hsame.block (by decide)).trans h.program
  · show Store.dereference (Store.write _ _ _) 32768 = _
    rw [Store.dereference_write hsecond hfirst, if_neg (by decide),
      Store.dereference_write hfirst hfirst, if_pos rfl]
  · show Store.dereference (Store.write _ _ _) 32769 = _
    rw [Store.dereference_write hsecond hsecond, if_pos rfl]

/-- Where no character is read, the run is at its end. -/
theorem step_refused (h : InEcho 0 m)
    (hread : Console.readChar m.console = ⟨.error fault, console, log⟩) :
    Machine.step m = ⟨.error fault, { m.goTo 2 with console }, log⟩ := by
  have hhead : InEcho (encodeAll []).length m := h
  have hecho : echo = [] ++ ⟨.inp, 32768, 0, 0⟩ :: echo.tail := rfl
  exact (hhead.step hecho).trans (perform_inp_of_error hread)

/-- **A character that is not the newline is copied**, and the program is at its beginning again. -/
theorem round_again (h : InEcho 0 m)
    (hread : Console.readChar m.console = ⟨.ok (.ofNat x.toNat), console, log⟩)
    (hx : x.toNat < valueCount) (hs : console.sink.Infallible) (hne : x ≠ '\n') :
    ∃ m', LeadsTo m m' ∧ InEcho 0 m' ∧ m'.console = console.echoed x := by
  obtain ⟨m', hleads, h', hconsole, -, htest⟩ := h.copies_char hread hx hs
  have hbool : (UInt16.ofNat x.toNat == 10) = false :=
    beq_eq_false_iff_ne.mpr (mt (ofNat_eq_ten_iff hx).mp hne)
  have hzero : m'.store.dereference 32769 = 0 := by
    rw [htest, hbool]
    rfl
  have hecho : echo = copyOne ++ again :: [⟨.halt, 0, 0, 0⟩] := rfl
  have hstep := h'.step hecho
  have hresolved : again.resolved m'.store = ⟨.jf, m'.store.dereference 32769, 0, 0⟩ := rfl
  rw [hresolved, hzero, perform_jf_of_zero (by decide)] at hstep
  exact ⟨_, hleads.step hstep, ⟨h'.running, rfl, h'.program, h'.stack⟩, hconsole⟩

/-- **The newline is copied as well**, and the program is behind its loop. -/
theorem round_last (h : InEcho 0 m)
    (hread : Console.readChar m.console = ⟨.ok 10, console, log⟩) (hs : console.sink.Infallible) :
    ∃ m', LeadsTo m m' ∧ InEcho (encodeAll (copyOne ++ [again])).length m' ∧
      m'.console = console.echoed '\n' ∧ m'.store.dereference 32768 = 10 ∧
      m'.store.dereference 32769 = 1 := by
  obtain ⟨m', hleads, h', hconsole, hcopy, htest⟩ := h.copies_char (x := '\n') hread (by decide) hs
  have hone : m'.store.dereference 32769 = 1 := htest
  have hecho : echo = copyOne ++ again :: [⟨.halt, 0, 0, 0⟩] := rfl
  have hstep := h'.step hecho
  have hresolved : again.resolved m'.store = ⟨.jf, m'.store.dereference 32769, 0, 0⟩ := rfl
  rw [hresolved, hone, perform_jf_of_ne (by decide)] at hstep
  exact ⟨_, hleads.step hstep, ⟨h'.running, rfl, h'.program, h'.stack⟩, hconsole, hcopy, hone⟩

/-- Behind the loop the run ends, and its flush succeeds. -/
theorem halts (h : InEcho (encodeAll (copyOne ++ [again])).length m)
    (hs : m.console.sink.Infallible) :
    ∃ r, m.Ends r ∧ r.outcome = .ok () ∧ r.state = { (m.goTo 12).flushed with halted := true } := by
  have hecho : echo = (copyOne ++ [again]) ++ ⟨.halt, 0, 0, 0⟩ :: [] := rfl
  have hstep : Machine.step m = ⟨.ok (), { m.goTo 12 with halted := true },
      [.executed .halt [] none]⟩ := h.step hecho
  refine ⟨_, (ends_of_ok hstep).mpr ⟨_, ends_of_halted rfl, rfl⟩, ?_, ?_⟩
  · rw [finish_ok]
    exact congrArg Ran.outcome (Console.flush_eq hs)
  · rw [finish_ok]
    rfl

end InEcho

end Machine

end WordMachine
