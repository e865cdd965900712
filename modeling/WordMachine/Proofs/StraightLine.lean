/-
  Blocks of instructions that go straight on.

  A block is stored as its instructions are, one behind the other.  The machine takes them back as
  they were written, whatever the length of each, because none of them writes to ordinary memory,
  and each moves the program counter behind itself before it is carried out.

  * `Instruction.encodeAll` stores a block, and `Instruction.resolved s` puts what the operands
    stand for in the place of what was stored;
  * `Instruction.StraightLine`: what may stand in such a block;
  * `Machine.performAll` carries out a list of instructions, wherever the program counter is;
  * `Machine.Before is m`: the machine is about to take the instructions of a block;
  * `Before.step`, `Before.next`: the next step carries out the first of them, and the machine is
    before the others then;
  * `Before.steps_of_ok`, `Before.steps_of_error`: so all of them are carried out, or those up to
    the first fault;
  * `block_is_performed`: to write a block and to step through it is to carry out its instructions;
  * `eq_take_of_first_fault`: the fault of a block has one place.
-/
import WordMachine.Proofs.Ending
import WordMachine.Proofs.Loading
import WordMachine.Proofs.Perform
import WordMachine.Proofs.Symmetry

namespace WordMachine

open WordMachine.Action

/-! ## Stored instructions -/

namespace Instruction

variable {i : Instruction}

/-- The words that store some instructions, one behind the other. -/
def encodeAll (is : List Instruction) : List Word := is.flatMap encode

theorem encodeAll_cons (i : Instruction) (is : List Instruction) :
    encodeAll (i :: is) = i.encode ++ encodeAll is := List.flatMap_cons

theorem length_encodeAll_cons (i : Instruction) (is : List Instruction) :
    (encodeAll (i :: is)).length = i.encode.length + (encodeAll is).length := by
  rw [encodeAll_cons, List.length_append]

theorem length_encode (i : Instruction) : i.encode.length = i.opcode.operands.length + 1 := by
  rw [encode, List.length_cons, length_operands]

/-- The instruction with what its operands stand for. -/
def resolved (s : Store) (i : Instruction) : Instruction :=
  .ofOperands i.opcode (List.zipWith s.resolve i.opcode.operands i.operands)

/-- The instruction goes straight on, and writes to a register if it writes at all. -/
structure StraightLine (i : Instruction) : Prop where
  opcode : i.opcode.goesStraight = true
  operands : ∀ w ∈ i.operands, w.IsAddress
  destinations : ∀ p ∈ i.opcode.operands.zip i.operands, p.1 = .destination → p.2.IsRegister

instance (i : Instruction) : Decidable i.StraightLine :=
  -- Decided over the list, never over all the words there are.
  letI := List.decidableBAll (fun w : Word => w.IsAddress) i.operands
  decidable_of_iff (i.opcode.goesStraight = true ∧ (∀ w ∈ i.operands, w.IsAddress) ∧
      ∀ p ∈ i.opcode.operands.zip i.operands, p.1 = .destination → p.2.IsRegister)
    ⟨fun ⟨hop, hwords, hdest⟩ => ⟨hop, hwords, hdest⟩,
      fun h => ⟨h.opcode, h.operands, h.destinations⟩⟩

/-- The destination is the first operand. -/
theorem operands_of_hasDestination (hop : i.opcode.hasDestination = true) :
    ∃ kinds words, i.opcode.operands = .destination :: kinds ∧ i.operands = i.a :: words := by
  rw [Opcode.hasDestination, beq_iff_eq] at hop
  obtain ⟨kinds, hkinds⟩ := List.head?_eq_some_iff.mp hop
  refine ⟨kinds, [i.b, i.c].take kinds.length, hkinds, ?_⟩
  rw [operands, hkinds, List.length_cons, List.take_succ_cons]

theorem StraightLine.isRegister_a (h : i.StraightLine) (hop : i.opcode.hasDestination = true) :
    i.a.IsRegister := by
  obtain ⟨kinds, words, hkinds, hwords⟩ := operands_of_hasDestination hop
  refine h.destinations (.destination, i.a) ?_ rfl
  rw [hkinds, hwords, List.zip_cons_cons]
  exact List.mem_cons_self

theorem a_resolved (s : Store) (hop : i.opcode.hasDestination = true) :
    (i.resolved s).a = i.a := by
  obtain ⟨kinds, words, hkinds, hwords⟩ := operands_of_hasDestination hop
  rw [resolved, hkinds, hwords]
  rfl

/-- A stored instruction consists of addresses. -/
theorem StraightLine.isAddress_of_mem (h : i.StraightLine) {w : Word} (hw : w ∈ i.encode) :
    w.IsAddress := by
  rcases List.mem_cons.mp hw with rfl | hw
  · cases i.opcode <;> decide
  · exact h.operands w hw

theorem isAddress_of_mem_encodeAll {is : List Instruction} (h : ∀ i ∈ is, i.StraightLine) :
    ∀ w ∈ encodeAll is, w.IsAddress := by
  intro w hw
  obtain ⟨i, hi, hwi⟩ := List.mem_flatMap.mp hw
  exact (h i hi).isAddress_of_mem hwi

end Instruction

open Instruction (encodeAll)

namespace Store

variable {s t : Store} {i : Instruction} {p n : Nat}

theorem block_add (s : Store) (p n k : Nat) :
    s.block p (n + k) = s.block p n ++ s.block (p + n) k := by
  simp only [block, List.range_add, List.map_append, List.map_map, Function.comp_def, Nat.add_assoc]

theorem block_succ (s : Store) (p n : Nat) :
    s.block p (n + 1) = s.word p :: s.block (p + 1) n := by
  rw [Nat.add_comm, block_add]
  rfl

@[simp] theorem length_block (s : Store) (p n : Nat) : (s.block p n).length = n := by
  rw [block, List.length_map, List.length_range]

/-- Two parts of a block, each in its place. -/
theorem block_of_append {ws ws' : List Word} (h : s.block p (ws ++ ws').length = ws ++ ws') :
    s.block p ws.length = ws ∧ s.block (p + ws.length) ws'.length = ws' := by
  rw [List.length_append, block_add] at h
  exact List.append_inj h (length_block s p ws.length)

theorem operandsAt_eq (s : Store) (operands : List Operand) (p : Nat) :
    s.operandsAt p operands = List.zipWith s.resolve operands (s.block p operands.length) := by
  induction operands generalizing p with
  | nil => rfl
  | cons operand operands ih =>
    rw [operandsAt, ih, List.length_cons, block_succ, List.zipWith_cons_cons]

/-- **An instruction is taken as it was stored.** -/
theorem holds_of_block (hblock : s.block s.pc.toNat i.encode.length = i.encode)
    (hfit : s.pc.toNat + i.encode.length ≤ valueCount) : s.Holds (i.resolved s) := by
  rw [i.length_encode] at hfit
  rw [i.length_encode, block_succ, Instruction.encode] at hblock
  obtain ⟨hcode, hoperands⟩ := List.cons.inj hblock
  refine ⟨?_, ?_, ?_⟩
  · rw [hcode]
    exact Opcode.ofCode?_code _
  · rwa [Nat.add_assoc, Nat.add_comm 1]
  · show i.resolved s =
      .ofOperands i.opcode (s.operandsAt (s.pc.toNat + 1) i.opcode.operands)
    rw [operandsAt_eq, hoperands, Instruction.resolved]

/-- The ordinary memory is the same. -/
def SameMemory (s t : Store) : Prop := ∀ k < valueCount, t.word k = s.word k

theorem SameMemory.block (h : s.SameMemory t) (hfit : p + n ≤ valueCount) :
    t.block p n = s.block p n := by
  refine List.map_congr_left fun j hj => h (p + j) ?_
  have hlt := List.mem_range.mp hj
  omega

/-- Ordinary memory ends below the registers. -/
theorem keeps_sameMemory_set {a : Word} (ha : a.IsRegister) (v : Word) :
    Keeps s.SameMemory (set a v) := by
  intro t h
  by_cases hv : v.IsValue
  · rw [set_eq ha.2 hv]
    intro k hk
    have hne : a.toNat ≠ k := Nat.ne_of_gt (Nat.lt_of_lt_of_le hk ha.1)
    rw [word_write ha.2, if_neg hne, h k hk]
  · rw [set_of_not_isValue ha.2 hv]
    exact h

end Store

/-- The machine with its program counter at a position. -/
def Machine.goTo (p : Nat) (m : Machine) : Machine := { m with store := m.store.goTo p }

/-- What an action comes to, with the program counter at a position. -/
def Ran.goTo (p : Nat) (r : Ran Machine Unit) : Ran Machine Unit :=
  ⟨r.outcome, r.state.goTo p, r.log⟩

namespace Machine

variable {m m' : Machine} {i : Instruction} {is front back : List Instruction} {fault : Fault}
  {log : List Event}

/-! ## The program counter has no part in it -/

@[simp] theorem goTo_pc (m : Machine) : m.goTo m.store.pc.toNat = m := by
  rw [goTo, Store.goTo_pc]

theorem commutes_set_goTo (p : Nat) (a v : Word) :
    Commutes (·.goTo p) id (Store.set a v) (Store.set a v) := by
  intro s
  simp only [Store.set]
  split
  · split <;> rfl
  · rfl

theorem perform_goTo (hi : i.opcode.goesStraight = true) (p : Nat) (m : Machine) :
    perform i (m.goTo p) = (perform i m).goTo p := by
  have hperform := commutes_perform_of_goesStraight (f := (·.goTo p)) (g := id) (w := id)
    (commutes_set_goTo p) hi fun _ _ => rfl
  have hm := hperform m
  rw [Instruction.moved_id, Event.moved_id, List.map_id] at hm
  exact hm

/-! ## Carrying out many instructions -/

/-- Carries out some instructions, each with what its operands stand for by then. -/
def performAll : List Instruction → Action Machine Unit
  | [] => pure ()
  | i :: is => do
    let s ← view (·.store)
    perform (i.resolved s)
    performAll is

theorem performAll_of_ok (h : perform (i.resolved m.store) m = ⟨.ok (), m', log⟩) :
    performAll (i :: is) m = (performAll is m').behind log := by
  rw [performAll, bind_ok (view_apply _ m)]
  exact congrArg (Ran.behind []) (bind_ok h)

theorem performAll_of_fault (h : perform (i.resolved m.store) m = ⟨.error fault, m', log⟩) :
    performAll (i :: is) m = ⟨.error fault, m', log⟩ := by
  rw [performAll, bind_ok (view_apply _ m)]
  exact congrArg (Ran.behind []) (bind_error h)

theorem performAll_goTo (h : ∀ i ∈ is, i.opcode.goesStraight = true) (p : Nat) (m : Machine) :
    performAll is (m.goTo p) = (performAll is m).goTo p := by
  induction is generalizing m with
  | nil => rfl
  | cons i is ih =>
    have hi := perform_goTo (i := i.resolved m.store) (h i List.mem_cons_self) p m
    rcases hperform : perform (i.resolved m.store) m with ⟨fault | ⟨⟩, m', log⟩
    · rw [hperform] at hi
      rw [performAll_of_fault hperform]
      exact performAll_of_fault hi
    · rw [hperform] at hi
      rw [performAll_of_ok hperform]
      refine (performAll_of_ok hi).trans ?_
      exact congrArg (Ran.behind log) (ih (fun i hi => h i (List.mem_cons_of_mem _ hi)) m')

theorem outcome_performAll_front (h : front <+: is)
    (hok : (performAll is m).outcome = .ok ()) : (performAll front m).outcome = .ok () := by
  induction front generalizing is m with
  | nil => rfl
  | cons i front ih =>
    obtain ⟨back, rfl⟩ := h
    rw [List.cons_append] at hok
    rcases hperform : perform (i.resolved m.store) m with ⟨fault | ⟨⟩, m', log⟩
    · rw [performAll_of_fault hperform] at hok
      cases hok
    · rw [performAll_of_ok hperform] at hok ⊢
      exact ih (List.prefix_append front back) hok

/-- There is one first fault. -/
theorem eq_take_of_first_fault {n : Nat} {fault' : Fault} (his : is = front ++ i :: back)
    (hok : (performAll front m).outcome = .ok ())
    (hfault : (performAll (front ++ [i]) m).outcome = .error fault)
    (hn : (performAll (is.take n) m).outcome = .ok ())
    (hn' : (performAll (is.take (n + 1)) m).outcome = .error fault') :
    front ++ [i] = is.take (n + 1) := by
  have hfront : front <+: is := ⟨i :: back, his.symm⟩
  have hfront' : front ++ [i] <+: is := ⟨back, by rw [his, List.append_assoc]; rfl⟩
  have hlength : (front ++ [i]).length = front.length + 1 := List.length_append
  have hn : front.length = n := by
    rcases Nat.lt_trichotomy front.length n with hlt | heq | hgt
    · have hprefix : front ++ [i] <+: is.take n :=
        List.prefix_take_iff.mpr ⟨hfront', by omega⟩
      cases hfault.symm.trans (outcome_performAll_front hprefix hn)
    · exact heq
    · have hprefix : is.take (n + 1) <+: front := by
        rw [List.prefix_iff_eq_take.mp hfront]
        exact List.take_prefix_take_left hgt
      cases hn'.symm.trans (outcome_performAll_front hprefix hok)
  rw [← hn, ← hlength]
  exact List.prefix_iff_eq_take.mp hfront'

/-! ## What is kept -/

/-- The machine goes on, and ordinary memory is that of a store. -/
structure GoesOnWith (s : Store) (m : Machine) : Prop where
  running : m.halted = false
  memory : s.SameMemory m.store

theorem keeps_goesOnWith_set {s : Store} {a : Word} (ha : a.IsRegister) (v : Word) :
    Keeps (GoesOnWith s) (onStore (Store.set a v)) :=
  fun m h => ⟨h.running, Store.keeps_sameMemory_set ha v m.store h.memory⟩

theorem keeps_goesOnWith_put {s : Store} {a : Word} (ha : a.IsRegister) (op : Opcode)
    (sources : List Word) (v : Word) : Keeps (GoesOnWith s) (put op a sources v) :=
  .bind (keeps_goesOnWith_set ha v) fun _ => .note _

/-- An instruction of a block writes to a register at most. -/
theorem keeps_goesOnWith_perform {s : Store} (hi : i.opcode.goesStraight = true)
    (ha : i.opcode.hasDestination = true → i.a.IsRegister) :
    Keeps (GoesOnWith s) (perform i) := by
  have hstack {α : Type} (x : Action CallStack α) : Keeps (GoesOnWith s) (onStack x) :=
    fun m h => ⟨h.running, h.memory⟩
  have hconsole {α : Type} (x : Action Console α) : Keeps (GoesOnWith s) (onConsole x) :=
    fun m h => ⟨h.running, h.memory⟩
  obtain ⟨op, a, b, c⟩ := i
  cases op with
  | set => exact .bind (keeps_goesOnWith_set (ha rfl) _) fun _ => .note _
  | push => exact .bind (hstack _) fun _ => .note _
  | pop => exact .bind (hstack _) fun _ => keeps_goesOnWith_put (ha rfl) _ _ _
  | eq | gt | add | mult | and | or | not => exact keeps_goesOnWith_put (ha rfl) _ _ _
  | mod => exact .ite (.fail _) (keeps_goesOnWith_put (ha rfl) _ _ _)
  | rmem =>
    refine .bind (fun m h => ⟨h.running, h.memory⟩) fun _ => keeps_goesOnWith_put (ha rfl) _ _ _
  | out => exact .bind (hconsole _) fun _ => .note _
  | inp => exact .bind (hconsole _) fun _ => keeps_goesOnWith_put (ha rfl) _ _ _
  | noop => exact .note _
  | halt | jmp | jt | jf | wmem | call | ret => cases hi

/-! ## Stepping through a block -/

/-- The machine goes on, and these instructions are stored where its program counter is. -/
structure Before (is : List Instruction) (m : Machine) : Prop where
  running : m.halted = false
  straight : ∀ i ∈ is, i.StraightLine
  fits : m.store.pc.toNat + (encodeAll is).length ≤ valueCount
  stored : m.store.block m.store.pc.toNat (encodeAll is).length = encodeAll is

namespace Before

/-- The first instruction and the others, each in their place. -/
theorem cons (h : Before (i :: is) m) :
    m.store.pc.toNat + i.encode.length + (encodeAll is).length ≤ valueCount ∧
      m.store.block m.store.pc.toNat i.encode.length = i.encode ∧
      m.store.block (m.store.pc.toNat + i.encode.length) (encodeAll is).length = encodeAll is := by
  obtain ⟨-, -, hfits, hstored⟩ := h
  rw [Instruction.length_encodeAll_cons, ← Nat.add_assoc] at hfits
  rw [Instruction.encodeAll_cons] at hstored
  exact ⟨hfits, Store.block_of_append hstored⟩

/-- The position behind the first instruction is one that the program counter can have. -/
theorem toNat_pc_goTo (h : Before (i :: is) m) (m' : Machine) :
    (m'.goTo (m.store.pc.toNat + i.encode.length)).store.pc.toNat =
      m.store.pc.toNat + i.encode.length :=
  Store.toNat_pc_goTo (Nat.le_trans (Nat.le_add_right _ _) h.cons.1)

/-- A step carries out the first instruction, with the program counter behind it. -/
theorem step (h : Before (i :: is) m) :
    step m = (perform (i.resolved m.store) m).goTo (m.store.pc.toNat + i.encode.length) := by
  obtain ⟨hfits, hfirst, -⟩ := h.cons
  have hholds := Store.holds_of_block hfirst (Nat.le_trans (Nat.le_add_right _ _) hfits)
  have hi : (i.resolved m.store).opcode.goesStraight = true :=
    (h.straight i List.mem_cons_self).opcode
  rw [step_of_holds h.running hholds, Instruction.length_encode, Nat.add_comm _ 1, ← Nat.add_assoc]
  exact perform_goTo hi _ m

/-- The others are next, and as they were stored. -/
theorem next (h : Before (i :: is) m)
    (hperform : perform (i.resolved m.store) m = ⟨.ok (), m', log⟩) :
    Before is (m'.goTo (m.store.pc.toNat + i.encode.length)) := by
  obtain ⟨hfits, -, hothers⟩ := h.cons
  have hi := h.straight i List.mem_cons_self
  have ha (hop : i.opcode.hasDestination = true) : (i.resolved m.store).a.IsRegister := by
    rw [Instruction.a_resolved m.store hop]
    exact hi.isRegister_a hop
  have hkept := keeps_goesOnWith_perform (s := m.store) (i := i.resolved m.store) hi.opcode ha m
    ⟨h.running, fun _ _ => rfl⟩
  rw [hperform] at hkept
  refine ⟨hkept.running, fun j hj => h.straight j (List.mem_cons_of_mem _ hj), ?_, ?_⟩
  · rwa [h.toNat_pc_goTo]
  · rw [h.toNat_pc_goTo]
    exact (hkept.memory.block hfits).trans hothers

/-- What is left to do after the first instruction is the same for the steps and for the list. -/
theorem performAll_next (h : Before (i :: is) m) (hfront : front <+: is) (m' : Machine) :
    performAll front (m'.goTo (m.store.pc.toNat + i.encode.length)) =
      (performAll front m').goTo (m.store.pc.toNat + i.encode.length) :=
  performAll_goTo
    (fun j hj => (h.straight j (List.mem_cons_of_mem _ (hfront.subset hj))).opcode) _ m'

/-- **A block is carried out** by as many steps as it has instructions. -/
theorem steps_of_ok (h : Before (front ++ back) m) (hok : (performAll front m).outcome = .ok ()) :
    steps front.length m =
      (performAll front m).goTo (m.store.pc.toNat + (encodeAll front).length) := by
  induction front generalizing m with
  | nil => exact congrArg (Ran.mk _ · _) (goTo_pc m).symm
  | cons i front ih =>
    rcases hperform : perform (i.resolved m.store) m with ⟨fault | ⟨⟩, m', log⟩
    · rw [performAll_of_fault hperform] at hok
      cases hok
    · have hstep := h.step
      have hrest := h.performAll_next (List.prefix_append front back) m'
      rw [hperform] at hstep
      rw [performAll_of_ok hperform] at hok ⊢
      have hok' : (performAll front m').outcome = .ok () := hok
      have hih := ih (h.next hperform) (by rw [hrest]; exact hok')
      rw [hrest, h.toNat_pc_goTo] at hih
      rw [List.length_cons, Machine.steps_of_ok hstep, hih, Instruction.length_encodeAll_cons,
        ← Nat.add_assoc]
      rfl

/-- **The first fault ends it**, just behind its instruction. -/
theorem steps_of_error (h : Before is m) (herror : (performAll is m).outcome = .error fault) :
    ∃ front i back, is = front ++ i :: back ∧ (performAll front m).outcome = .ok () ∧
      (performAll (front ++ [i]) m).outcome = .error fault ∧
      steps is.length m =
        (performAll is m).goTo (m.store.pc.toNat + (encodeAll (front ++ [i])).length) := by
  induction is generalizing m with
  | nil => cases herror
  | cons i is ih =>
    have hstep := h.step
    rcases hperform : perform (i.resolved m.store) m with ⟨fault' | ⟨⟩, m', log⟩
    · rw [hperform] at hstep
      refine ⟨[], i, is, rfl, rfl, ?_, ?_⟩
      · rw [performAll_of_fault hperform] at herror
        rw [List.nil_append, performAll_of_fault hperform]
        exact herror
      · rw [performAll_of_fault hperform, List.length_cons, steps_of_fault hstep, List.nil_append,
          Instruction.length_encodeAll_cons]
        rfl
    · have hrest := h.performAll_next (List.prefix_refl is) m'
      rw [hperform] at hstep
      rw [performAll_of_ok hperform] at herror
      have herror' : (performAll is m').outcome = .error fault := herror
      obtain ⟨front, j, back, rfl, hok, hfault, hsteps⟩ :=
        ih (h.next hperform) (by rw [hrest]; exact herror')
      have hprefix : front ++ [j] <+: front ++ j :: back :=
        ⟨back, (List.append_cons front j back).symm⟩
      rw [h.performAll_next (List.prefix_append front _)] at hok
      rw [h.performAll_next hprefix] at hfault
      rw [hrest, h.toNat_pc_goTo] at hsteps
      refine ⟨i :: front, j, back, rfl, ?_, ?_, ?_⟩
      · rw [performAll_of_ok hperform]
        exact hok
      · rw [List.cons_append, performAll_of_ok hperform]
        exact hfault
      · rw [performAll_of_ok hperform, List.length_cons, Machine.steps_of_ok hstep, hsteps,
          List.cons_append, Instruction.length_encodeAll_cons, ← Nat.add_assoc]
        rfl

end Before

/-- **To write a block and to step through it is to carry out its instructions.**  Where it fits, the
    block is written.  A machine whose program counter is at the block, whatever else there is in it,
    comes in as many steps as there are instructions to what the instructions come to, up to the
    first fault.  The program counter is behind the instructions that were carried out, and behind
    the one that faulted. -/
theorem block_is_performed (is : List Instruction) (position : Word)
    (hstraight : ∀ i ∈ is, i.StraightLine)
    (hfit : position.toNat + (encodeAll is).length ≤ valueCount) :
    (∀ s, ∃ t, Store.writeBlock position (encodeAll is) s = ⟨.ok (), t, []⟩ ∧
      s.Loaded position.toNat (encodeAll is) t) ∧
    ∀ m : Machine, m.halted = false → m.store.pc = position →
      m.store.block position.toNat (encodeAll is).length = encodeAll is →
      (∀ front back, is = front ++ back → (performAll front m).outcome = .ok () →
        steps front.length m =
          (performAll front m).goTo (position.toNat + (encodeAll front).length)) ∧
      ∀ fault, (performAll is m).outcome = .error fault →
        ∃ front i back, is = front ++ i :: back ∧ (performAll front m).outcome = .ok () ∧
          (performAll (front ++ [i]) m).outcome = .error fault ∧
          steps is.length m =
            (performAll is m).goTo (position.toNat + (encodeAll (front ++ [i])).length) := by
  constructor
  · intro s
    have hwords := Instruction.isAddress_of_mem_encodeAll hstraight
    exact ⟨_, Store.writeBlock_eq hfit hwords, Store.loaded_overwrite _ _ _ _⟩
  · rintro m hrunning rfl hstored
    have hm : Before is m := ⟨hrunning, hstraight, hfit, hstored⟩
    constructor
    · rintro front back rfl hok
      exact hm.steps_of_ok hok
    · intro fault herror
      exact hm.steps_of_error herror

/-- A block with a fault in its midst: a register is set and looked at, the comparison clears it,
    and then it is divided by. -/
def dividing : List Instruction :=
  [⟨.set, 32769, 5, 0⟩, ⟨.push, 32769, 0, 0⟩, ⟨.gt, 32769, 4, 32769⟩, ⟨.mod, 32768, 9, 32769⟩,
    ⟨.noop, 0, 0, 0⟩]

/-- Each of the first three instructions finds in the register what the one before it left there. -/
theorem performAll_dividing (m : Machine) : ∃ m' log,
    m'.stack.toList = m.stack.toList ++ [5] ∧ m'.store.dereference 32769 = 0 ∧
      ∀ is, performAll (dividing.take 3 ++ is) m = (performAll is m').behind log := by
  have hregister : (32769 : Word).IsRegister := by decide
  have hvalue : (5 : Word).IsValue := by decide
  let m₁ : Machine := { m with store := m.store.write 32769 5 }
  let m₂ : Machine := { m₁ with stack := ⟨(m.stack.toList ++ [5]).toArray⟩ }
  let m₃ : Machine := { m₂ with store := m₁.store.write 32769 0 }
  have hfive : m₁.store.dereference 32769 = 5 := by
    rw [Store.dereference_write hregister hregister, if_pos rfl]
  have hzero : m₃.store.dereference 32769 = 0 := by
    rw [Store.dereference_write hregister hregister, if_pos rfl]
  have hset : perform (Instruction.resolved m.store ⟨.set, 32769, 5, 0⟩) m =
      ⟨.ok (), m₁, [.executed .set [32769, 5] none]⟩ := bind_ok (onStore_set hregister.2 hvalue)
  have hpush : perform (Instruction.resolved m₁.store ⟨.push, 32769, 0, 0⟩) m₁ =
      ⟨.ok (), m₂, [.executed .push [5] none]⟩ := by
    show perform ⟨.push, m₁.store.dereference 32769, 0, 0⟩ m₁ = _
    rw [hfive]
    exact bind_ok (onStack_push hvalue)
  have hgt : perform (Instruction.resolved m₂.store ⟨.gt, 32769, 4, 32769⟩) m₂ =
      ⟨.ok (), m₃, [.executed .gt [32769, 4, 5] (some 0)]⟩ := by
    show perform ⟨.gt, 32769, 4, m₁.store.dereference 32769⟩ m₂ = _
    rw [hfive]
    exact put_of_isValue hregister.2 (by decide) .gt _
  have hall (is : List Instruction) : performAll (dividing.take 3 ++ is) m =
      (((performAll is m₃).behind [.executed .gt [32769, 4, 5] (some 0)]).behind
        [.executed .push [5] none]).behind [.executed .set [32769, 5] none] := by
    show performAll
      (⟨.set, 32769, 5, 0⟩ :: ⟨.push, 32769, 0, 0⟩ :: ⟨.gt, 32769, 4, 32769⟩ :: is) m = _
    rw [performAll_of_ok hset, performAll_of_ok hpush, performAll_of_ok hgt]
  simp only [Ran.behind_behind] at hall
  exact ⟨m₃, _, rfl, hzero, hall⟩

/-- The fault is the one of its fourth instruction, and the last one is not reached. -/
theorem block_is_performed_dividing :
    let m := new (Store.writeBlock 0 (encodeAll dividing) .empty).state ⟨[], none⟩ .unlimited
    (performAll dividing m).outcome = .error .divisionByZero ∧
      (performAll dividing m).state.stack.toList = [5] ∧
      steps 5 m = (performAll dividing m).goTo 13 := by
  intro m
  obtain ⟨m', log, hstack, hzero, hall⟩ := performAll_dividing m
  have hthree : (performAll (dividing.take 3) m).outcome = .ok () := by
    have hnothing := hall []
    rw [List.append_nil] at hnothing
    rw [hnothing]
    rfl
  have hmod (is : List Instruction) :
      performAll (⟨.mod, 32768, 9, 32769⟩ :: is) m' = ⟨.error .divisionByZero, m', []⟩ := by
    refine performAll_of_fault ?_
    show perform ⟨.mod, 32768, 9, m'.store.dereference 32769⟩ m' = _
    rw [hzero]
    rfl
  have hfour : (performAll (dividing.take 4) m).outcome = .error .divisionByZero := by
    have hlast := hall [⟨.mod, 32768, 9, 32769⟩]
    rw [hmod] at hlast
    exact congrArg Ran.outcome hlast
  have hwhole : performAll dividing m =
      (performAll [⟨.mod, 32768, 9, 32769⟩, ⟨.noop, 0, 0, 0⟩] m').behind log := hall _
  rw [hmod] at hwhole
  have herror : (performAll dividing m).outcome = .error .divisionByZero :=
    congrArg Ran.outcome hwhole
  have hstored : m.store.block 0 (encodeAll dividing).length = encodeAll dividing := by
    decide +kernel
  obtain ⟨front, i, back, his, hok, hfault, hsteps⟩ :=
    ((block_is_performed dividing 0 (by decide +kernel) (by decide)).2 m rfl rfl hstored).2 _ herror
  rw [eq_take_of_first_fault his hok hfault hthree hfour] at hsteps
  refine ⟨herror, ?_, hsteps⟩
  rw [hwhole]
  exact hstack

end Machine

end WordMachine
