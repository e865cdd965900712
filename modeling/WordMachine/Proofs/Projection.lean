/-
  The projection of a machine to the reference machine, and what its parts do there.

  * `Console.project`, `Machine.project`: the store is taken apart into memory, registers and
    program counter, the stack is turned around, and every word becomes a number;
  * `project_injective`: nothing is lost;
  * `does_set`, `does_push` and so on: each operation of the store and of the stack does what the
    reference machine does, with any arguments;
  * `simulates_readChar`, `simulates_writeChar`: so does the console, for the code of a character.
-/
import WordMachine.Proofs.Reference
import WordMachine.Proofs.Simulation
import WordMachine.Proofs.WellFormed
import WordMachine.Proofs.Upcoming
import Mathlib.Data.List.Basic

namespace WordMachine

open WordMachine.Action

/-- The terminal of the reference machine. -/
def Console.project (console : Console) : Reference.Terminal where
  input := console.source
  output := console.sink
  codes := console.pending.map Char.toNat
  lines := console.queue
  transcript := console.transcript

/-- The state of the reference machine. -/
def Machine.project (m : Machine) : Reference.State where
  memory i := (m.store.word i).toNat
  registers r := (m.store.word (32768 + r)).toNat
  stack := m.stack.toList.reverse.map UInt16.toNat
  pc := m.store.pc.toNat
  halted := m.halted
  terminal := m.console.project
  emptyReturn := m.onEmptyReturn

namespace Console

theorem project_injective : Function.Injective project := by
  rintro ⟨source, sink, pending, queue, transcript⟩ ⟨source', sink', pending', queue', transcript'⟩ h
  simp only [project, Reference.Terminal.mk.injEq] at h
  obtain ⟨rfl, rfl, hpending, rfl, rfl⟩ := h
  obtain rfl := List.map_injective_iff.mpr (fun c d => Char.toNat_inj.mp) hpending
  rfl

end Console

namespace Machine

variable {m : Machine} {a v w : Word}

/-- **The projection forgets nothing.** -/
theorem project_injective : Function.Injective project := by
  intro m m' h
  obtain ⟨store, stack, console, halted, rule⟩ := m
  obtain ⟨store', stack', console', halted', rule'⟩ := m'
  simp only [project, Reference.State.mk.injEq] at h
  obtain ⟨hmemory, hregisters, hstack, hpc, rfl, hconsole, rfl⟩ := h
  obtain rfl := Console.project_injective hconsole
  obtain rfl : stack = stack' := by
    refine CallStack.ext_toList (List.reverse_injective ?_)
    exact List.map_injective_iff.mpr (fun v w => UInt16.toNat_inj.mp) hstack
  obtain rfl : store = store' := by
    refine Store.ext_word (UInt16.toNat_inj.mp hpc) fun i hi => UInt16.toNat_inj.mp ?_
    rcases Nat.lt_or_ge i 32768 with hlt | hge
    · exact congrFun hmemory ⟨i, hlt⟩
    · obtain ⟨r, rfl⟩ := Nat.exists_eq_add_of_le hge
      exact congrFun hregisters ⟨r, by simp only [addressCount] at hi; omega⟩
  rfl

/-! ## The store -/

/-- What the operations of the machine come to in the reference machine. -/
abbrev Does {α β : Type} (f : α → β) : Action Machine α → Reference.Effect β → Prop :=
  Simulates WellFormed project f

theorem registers_project {i : Nat} (h : 32768 ≤ i) (hi : i - 32768 < 8) :
    m.project.registers ⟨i - 32768, hi⟩ = (m.store.word i).toNat := by
  simp only [project]
  rw [Nat.add_sub_cancel' h]

theorem project_write (ha : a.IsAddress) (v : Word) :
    ({ m with store := m.store.write a v } : Machine).project =
      if a.toNat < 32768 then
        { m.project with
          memory := fun i => if i = a.toNat then v.toNat else m.project.memory i }
      else { m.project with
        registers := fun r => if 32768 + r = a.toNat then v.toNat else m.project.registers r } := by
  have hword (i : Nat) : ((m.store.write a v).word i).toNat =
      if i = a.toNat then v.toNat else (m.store.word i).toNat := by
    rw [Store.word_write ha, apply_ite UInt16.toNat]
    simp only [eq_comm]
  split
  · next hlt =>
    simp only [project, hword, Store.pc_write, Reference.State.mk.injEq, true_and, and_true]
    funext r
    exact if_neg (by omega)
  · next hge =>
    simp only [project, hword, Store.pc_write, Reference.State.mk.injEq, and_true]
    funext i
    exact if_neg (by omega)

theorem does_set (a v : Word) :
    Does (fun _ => ()) (onStore (Store.set a v)) (Reference.write a.toNat v.toNat) := by
  intro m _
  by_cases ha : a.IsAddress
  · have ha' : ¬ 32775 < a.toNat := Nat.not_lt.mpr (Nat.le_of_lt_succ ha)
    by_cases hv : v.IsValue
    · have hv' : ¬ 32767 < v.toNat := Nat.not_lt.mpr (Nat.le_of_lt_succ hv)
      rw [onStore_apply, Store.set_eq ha hv, Reference.write, if_neg ha', if_neg hv']
      simp only [Except.map, project_write ha]
      split
      · rfl
      · rfl
    · have hv' : 32767 < v.toNat := Nat.not_lt.mp hv
      rw [onStore_apply, Store.set_of_not_isValue ha hv, Reference.write, if_neg ha', if_pos hv']
      rfl
  · have ha' : 32775 < a.toNat := Nat.not_lt.mp ha
    rw [onStore_apply, Store.set_of_not_isAddress ha, Reference.write, if_pos ha']
    rfl

theorem does_get (a : Word) :
    Does UInt16.toNat (onStore (Action.inspect (·.get a))) (Reference.read a.toNat) := by
  intro m _
  rw [onStore_apply, inspect_apply]
  by_cases ha : a.IsAddress
  · have ha' : a.toNat < 32776 := ha
    rw [Store.get_eq ha, Reference.read]
    split
    · rfl
    · next hge =>
      rw [dif_pos (by omega), registers_project (Nat.not_lt.mp hge)]
      rfl
  · have ha' : 32776 ≤ a.toNat := Nat.not_lt.mp ha
    rw [Store.get_of_not_isAddress ha, Reference.read, dif_neg (by omega), dif_neg (by omega)]
    rfl

theorem does_jump (a : Word) :
    Does (fun _ => ()) (onStore (Store.jump a)) (Reference.jump a.toNat) := by
  intro m _
  by_cases ha : a.IsValue
  · have ha' : ¬ 32767 < a.toNat := Nat.not_lt.mpr (Nat.le_of_lt_succ ha)
    rw [onStore_apply, Store.jump_of_isValue ha, Reference.jump, if_neg ha']
    rfl
  · have ha' : 32767 < a.toNat := Nat.not_lt.mp ha
    rw [onStore_apply, Store.jump_of_not_isValue ha, Reference.jump, if_pos ha']
    rfl

theorem does_dereference (w : Word) :
    Does UInt16.toNat (onStore (Action.view (·.dereference w))) (Reference.resolve w.toNat) := by
  intro m _
  rw [onStore_apply, view_apply, Store.dereference_eq, Reference.resolve]
  by_cases hw : w.IsRegister
  · have hw' : 32768 ≤ w.toNat ∧ w.toNat - 32768 < 8 := by
      have h := hw.2
      exact ⟨hw.1, by simp only [addressCount] at h; omega⟩
    rw [if_pos hw, dif_pos hw', registers_project hw.1]
    rfl
  · have hw' : ¬ (32768 ≤ w.toNat ∧ w.toNat - 32768 < 8) := fun h =>
      hw ⟨h.1, by simp only [addressCount]; omega⟩
    rw [if_neg hw, dif_neg hw']
    rfl

/-! ## The stack -/

theorem does_push (v : Word) :
    Does (fun _ => ()) (onStack (CallStack.push v)) (Reference.push v.toNat) := by
  intro m _
  by_cases hv : v.IsValue
  · have hv' : ¬ 32767 < v.toNat := Nat.not_lt.mpr (Nat.le_of_lt_succ hv)
    rw [onStack_apply, CallStack.push_of_isValue hv, Reference.push, if_neg hv']
    simp [Except.map, project, CallStack.toList]
  · have hv' : 32767 < v.toNat := Nat.not_lt.mp hv
    rw [onStack_apply, CallStack.push_of_not_isValue hv, Reference.push, if_pos hv']
    rfl

theorem does_pop : Does UInt16.toNat (onStack CallStack.pop) Reference.pop := by
  intro m _
  rcases m.stack.eq_nil_or_append with hs | ⟨below, v, hs⟩
  · have hp : m.project.stack = [] := by simp [project, hs]
    rw [onStack_apply, CallStack.pop_of_nil hs, Reference.pop]
    simp only [hp]
    rfl
  · have hp : m.project.stack = v.toNat :: below.reverse.map UInt16.toNat := by
      simp [project, hs]
    rw [onStack_apply, CallStack.pop_of_append hs, Reference.pop]
    simp only [hp]
    rfl

/-! ## The console -/

theorem does_onConsole {α β : Type} {f : α → β} {x : Action Console α}
    {y : StateT Reference.Terminal (Except Fault) β}
    (h : Simulates (fun _ => True) Console.project f x y) :
    Does f (onConsole x) (Reference.onTerminal y) := by
  intro m _
  show (y m.console.project >>= fun r => _) = _
  rw [h m.console trivial, onConsole_apply]
  rcases (x m.console).outcome with fault | a
  · rfl
  · rfl

end Machine

namespace Console

theorem simulates_writeChar {code : Word} (h : code.IsValue) :
    Simulates (fun _ => True) project (fun _ => ()) (writeChar code)
      (Reference.Terminal.emit code.toNat) := by
  intro console _
  rw [writeChar_of_isValue h]
  rcases hw : Sink.write (String.utf8EncodeChar (Char.ofNat code.toNat)) console.sink with
    ⟨fault | ⟨⟨⟩⟩, sink, log⟩
  · have hsink : onSink (Sink.write (String.utf8EncodeChar (Char.ofNat code.toNat))) console =
        ⟨.error fault, { console with sink }, log⟩ := by
      rw [onSink_apply, hw]
    rw [bind_error hsink]
    simp only [Reference.Terminal.emit, project, hw]
    rfl
  · have hsink : onSink (Sink.write (String.utf8EncodeChar (Char.ofNat code.toNat))) console =
        ⟨.ok (), { console with sink }, log⟩ := by
      rw [onSink_apply, hw]
    rw [bind_ok hsink]
    simp only [Reference.Terminal.emit, project, hw]
    rfl

theorem simulates_flushThenTake :
    Simulates (fun _ => True) project id flushThenTake Reference.Terminal.nextLine := by
  rintro ⟨source, ⟨written, capacity, failure, flushes⟩, pending, queue, transcript⟩ _
  cases failure with
  | some text => rfl
  | none => cases queue with
    | cons line queue => rfl
    | nil =>
      have htake : flushThenTake ⟨source, ⟨written, capacity, none, flushes⟩, pending, [],
          transcript⟩ = onSource Source.readLine
            ⟨source, ⟨written, capacity, none, flushes + 1⟩, pending, [], transcript⟩ := rfl
      rw [htake, onSource_apply]
      simp only [Reference.Terminal.nextLine, project, Sink.flush]
      rcases Source.readLine source with ⟨fault | line, source', log⟩
      · rfl
      · rfl

/-- The reference machine drops the end of a line at once, the console one character of it after
    the other. -/
theorem withoutEnd_eq_chomp (line : String) :
    Reference.Terminal.withoutEnd line.toList = (chomp line).toList := by
  have hends {c : Char} {rest : List Char} (h : line.toList.reverse = c :: rest) :
      line.toList = rest.reverse ++ [c] := by
    rw [← List.reverse_reverse line.toList, h, List.reverse_cons]
  have hkeep {c : Char} {line : List Char} (h : ∀ rest, line.reverse ≠ c :: rest) :
      dropTrailing c line = line := by
    refine dropTrailing_eq_self_iff.mpr fun hlast => ?_
    obtain ⟨front, rfl⟩ := List.getLast?_eq_some_iff.mp hlast
    exact h front.reverse List.reverse_concat
  rw [toList_chomp]
  unfold Reference.Terminal.withoutEnd
  split
  · next rest h =>
    rw [hends h, List.reverse_cons, dropTrailing_append_self, dropTrailing_append_self]
  · next rest hno h =>
    rw [hends h, dropTrailing_append_self, hkeep]
    intro rest' hrest
    exact hno rest' ((List.reverse_reverse rest).symm.trans hrest)
  · next rest h =>
    rw [hends h, dropTrailing_append_of_ne (by decide), dropTrailing_append_self]
  · next hno hn hr => rw [hkeep hn, hkeep hr]

theorem simulates_refill :
    Simulates (fun _ => True) project id refill Reference.Terminal.refill := by
  rw [refill_eq]
  refine simulates_flushThenTake.bind (fun _ _ => trivial) fun line console _ => ?_
  have hcodes : (console.pending ++ (chomp line).toList ++ ['\n']).map Char.toNat =
      console.pending.map Char.toNat ++ (chomp line).toList.map Char.toNat ++ [10] := by
    rw [List.map_append, List.map_append]
    rfl
  show Except.ok ((), (⟨console.source, console.sink,
    console.pending.map Char.toNat ++ (Reference.Terminal.withoutEnd line.toList).map Char.toNat ++
      [10], console.queue, console.transcript.map (Transcript.logInput (String.ofList
        (Reference.Terminal.withoutEnd line.toList)))⟩ : Reference.Terminal)) = _
  rw [withoutEnd_eq_chomp, String.ofList_toList, ← hcodes]
  rfl

theorem simulates_takeCode :
    Simulates (fun _ => True) project UInt16.toNat takeCode Reference.Terminal.nextCode := by
  intro console _
  rcases hp : console.pending with _ | ⟨c, rest⟩
  · have htake : takeChar console = ⟨.error .inputExhausted, console, []⟩ := by
      unfold takeChar
      simp only [hp]
    rw [takeCode, bind_error htake]
    simp only [Reference.Terminal.nextCode, project, hp]
    rfl
  · rw [takeCode, bind_ok (takeChar_of_cons hp)]
    simp only [Reference.Terminal.nextCode, project, hp, List.map_cons]
    by_cases hc : c.toNat < valueCount
    · have hc' : ¬ 32767 < c.toNat := Nat.not_lt.mpr (Nat.le_of_lt_succ hc)
      have hcode : (UInt16.ofNat c.toNat).toNat = c.toNat :=
        UInt16.toNat_ofNat_of_lt' (Nat.lt_trans hc (by decide))
      rw [if_pos hc, if_neg hc']
      simp only [pure_apply, Except.map, hcode]
    · have hc' : 32767 < c.toNat := Nat.not_lt.mp hc
      rw [if_neg hc, if_pos hc']
      rfl

theorem simulates_readChar :
    Simulates (fun _ => True) project UInt16.toNat readChar Reference.Terminal.receive := by
  intro console _
  show (if console.project.codes.isEmpty then
    (Reference.Terminal.refill >>= fun _ => Reference.Terminal.nextCode) else
      Reference.Terminal.nextCode) console.project = _
  by_cases hp : console.pending = []
  · have hcodes : console.project.codes.isEmpty = true := by simp [project, hp]
    rw [if_pos hcodes, readChar_of_nil hp]
    exact (simulates_refill.bind (fun _ _ => trivial) fun _ => simulates_takeCode) console trivial
  · have hcodes : ¬ console.project.codes.isEmpty = true := by simp [project, hp]
    rw [if_neg hcodes, readChar_of_ne_nil hp]
    exact simulates_takeCode console trivial

end Console

end WordMachine
