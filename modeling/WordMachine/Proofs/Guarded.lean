/-
  Operations within their domains.

  Some operations that a machine is built from have a domain: a cell is read or written below
  the number of cells, a sum or a product has to fit its width, a difference must not be
  negative, nothing is divided by zero.  A guarded action checks this at each use, and has no
  result where an operation is used outside of its domain.

  * `index?`, `update?`, `copy?`, `plus?`, `sum?`, `product?`, `remainder?`, `minus?` are the
    operations with a domain;
  * `Guarded.set`, `Guarded.takeWord`, ..., `Guarded.step`, `Guarded.run` are the operations of
    a store and of a machine, built from these;
  * `set_eq`, `takeWord_eq`, ..., `step_eq`, `run_eq`: they are the plain operations, so no
    check ever fails.
-/
import WordMachine.Machine.Run

namespace WordMachine

/-- An action that has no result where it uses an operation outside of its domain. -/
def Guarded (σ α : Type) : Type := σ → Option (Ran σ α)

namespace Guarded

/-! ## Guarded actions -/

section Actions

variable {σ α β : Type}

protected def pure (a : α) : Guarded σ α := fun s => some ⟨.ok a, s, []⟩

/-- Runs one action, then the next on what it left, unless there was a fault or no result. -/
protected def bind (x : Guarded σ α) (f : α → Guarded σ β) : Guarded σ β := fun s =>
  match x s with
  | none => none
  | some ⟨.ok a, s', log⟩ => (f a s').map fun r => ⟨r.outcome, r.state, log ++ r.log⟩
  | some ⟨.error fault, s', log⟩ => some ⟨.error fault, s', log⟩

instance : Monad (Guarded σ) where
  pure := Guarded.pure
  bind := Guarded.bind

/-- An action that uses no operation with a domain. -/
def ofAction (x : Action σ α) : Guarded σ α := fun s => some (x s)

/-- The value of an operation with a domain. -/
def demand (f : σ → Option α) : Guarded σ α := fun s => (f s).map fun a => ⟨.ok a, s, []⟩

/-- A change of the state by an operation with a domain. -/
def alter (f : σ → Option σ) : Guarded σ Unit := fun s => (f s).map fun s' => ⟨.ok (), s', []⟩

theorem ofAction_pure (a : α) : (ofAction (pure a) : Guarded σ α) = pure a := rfl

theorem ofAction_bind (x : Action σ α) (f : α → Action σ β) :
    ofAction (x >>= f) = ofAction x >>= fun a => ofAction (f a) := by
  funext s
  show some ((x >>= f) s) = Guarded.bind (ofAction x) (fun a => ofAction (f a)) s
  rcases h : x s with ⟨fault | a, s', log⟩
  · simp only [Guarded.bind, ofAction, h, Action.bind_error h]
  · simp only [Guarded.bind, ofAction, h, Action.bind_ok h, Option.map_some]

/-- After a success that reported nothing, the next action runs on the state left behind. -/
theorem bind_ok {x : Guarded σ α} {f : α → Guarded σ β} {s s' : σ} {a : α}
    (h : x s = some ⟨.ok a, s', []⟩) : (x >>= f) s = f a s' := by
  show Guarded.bind x f s = _
  rcases hf : f a s' with _ | r <;> simp only [Guarded.bind, h, hf] <;> rfl

theorem demand_ok (f : σ → Option α) {s : σ} {a : α} (h : f s = some a) :
    demand f s = some ⟨.ok a, s, []⟩ := by
  simp only [demand, h, Option.map_some]

theorem demand_const {o : Option α} {a : α} (h : o = some a) (s : σ) :
    demand (fun _ => o) s = some ⟨.ok a, s, []⟩ :=
  demand_ok _ h

theorem alter_ok (f : σ → Option σ) {s s' : σ} (h : f s = some s') :
    alter f s = some ⟨.ok (), s', []⟩ := by
  simp only [alter, h, Option.map_some]

end Actions

/-! ## Operations with a domain -/

/-- The word in a cell, if there is such a cell. -/
def index? (s : Store) (i : Nat) : Option Word := s.cells[i]?

/-- The store with another word in a cell, if there is such a cell. -/
def update? (s : Store) (i : Nat) (w : Word) : Option Store :=
  if h : i < addressCount then some { s with cells := s.cells.set i w } else none

/-- The store with the cells from `start` to before `stop` replaced, if there are such cells and
    as many words. -/
def copy? (s : Store) (start stop : Nat) (words : List Word) : Option Store :=
  if h : start ≤ stop ∧ stop ≤ addressCount ∧ words.length = stop - start then
    some { s with cells := Store.overwrite s.cells start words (by omega) }
  else none

/-- The sum, unless it would not fit into 16 bits. -/
def plus? (w k : Word) : Option Word :=
  if w.toNat + k.toNat < 65536 then some (w + k) else none

/-- The sum, unless it would not fit into 32 bits. -/
def sum? (b c : UInt32) : Option UInt32 :=
  if b.toNat + c.toNat < 4294967296 then some (b + c) else none

/-- The product, unless it would not fit into 32 bits. -/
def product? (b c : UInt32) : Option UInt32 :=
  if b.toNat * c.toNat < 4294967296 then some (b * c) else none

/-- The remainder, unless it is by zero. -/
def remainder? (b c : Word) : Option Word := if c = 0 then none else some (b % c)

/-- The difference, unless it would be negative. -/
def minus? (n k : Nat) : Option Nat := if k ≤ n then some (n - k) else none

theorem demand_index {i : Nat} (h : i < addressCount) (s : Store) :
    demand (index? · i) s = some ⟨.ok s.cells[i], s, []⟩ :=
  demand_ok _ (Vector.getElem?_eq_getElem h)

theorem demand_minus {σ : Type} {n k : Nat} (h : k ≤ n) (s : σ) :
    demand (fun _ => minus? n k) s = some ⟨.ok (n - k), s, []⟩ :=
  demand_const (if_pos h) s

/-- The values end far below the last word. -/
theorem plus?_one {w : Word} (h : w.IsValue) : plus? w 1 = some (w + 1) :=
  if_pos (Nat.lt_trans (Nat.add_lt_add_right h 1) (by decide))

/-- Words are too short for their sum to overflow. -/
theorem sum?_eq (b c : Word) :
    sum? b.toUInt32 c.toUInt32 = some (b.toUInt32 + c.toUInt32) := by
  have hb := b.toNat_lt
  have hc := c.toNat_lt
  exact if_pos (by simp only [UInt16.toNat_toUInt32]; omega)

/-- Words are too short for their product to overflow. -/
theorem product?_eq (b c : Word) :
    product? b.toUInt32 c.toUInt32 = some (b.toUInt32 * c.toUInt32) := by
  have hb := b.toNat_lt
  have hc := c.toNat_lt
  refine if_pos ?_
  simp only [UInt16.toNat_toUInt32]
  calc b.toNat * c.toNat ≤ (2 ^ 16 - 1) * (2 ^ 16 - 1) :=
        Nat.mul_le_mul (by omega) (by omega)
    _ < 4294967296 := by decide

/-! ## The store -/

open WordMachine.Action (fail note view)

/-- Reads a word, from its cell. -/
def get (address : Word) : Guarded Store Word :=
  if address.IsAddress then demand (index? · address.toNat)
  else ofAction (fail (.addressRange address.toNat))

/-- Writes a value, to its cell. -/
def set (address value : Word) : Guarded Store Unit :=
  if address.IsAddress then
    if value.IsValue then alter (update? · address.toNat value)
    else ofAction (fail (.valueRange value.toNat))
  else ofAction (fail (.addressRange address.toNat))

/-- The address of a register, which is found by addition. -/
def registerAddress (index : Nat) : Guarded Store Word :=
  if index < registerCount then demand fun _ => plus? 32768 (.ofNat index)
  else ofAction (fail (.addressRange (valueCount + index)))

def setRegister (index : Nat) (value : Word) : Guarded Store Unit := do
  let address ← registerAddress index
  set address value

def getRegister (index : Nat) : Guarded Store Word := do
  let address ← registerAddress index
  get address

/-- Reads the register that a word names, from its cell. -/
def dereference (w : Word) : Guarded Store Word :=
  if w.IsRegister then demand (index? · w.toNat) else pure w

/-- Reads the word under the program counter, from its cell, and moves on. -/
def takeWord (operand : Operand) : Guarded Store Word := do
  let pc ← ofAction (view Store.pc)
  if pc.IsValue then
    let w ← demand (index? · pc.toNat)
    alter fun s => (plus? s.pc 1).map fun pc => { s with pc }
    if operand.dereferences then dereference w else pure w
  else ofAction (fail (.addressRange pc.toNat))

def takeOperands : List Operand → Guarded Store (List Word)
  | [] => pure []
  | operand :: operands => do
    let w ← takeWord operand
    let words ← takeOperands operands
    pure (w :: words)

def takeInstruction : Guarded Store Instruction := do
  let pc ← ofAction (view Store.pc)
  let code ← takeWord .destination
  match Opcode.ofCode? code with
  | none => ofAction (fail (.invalidOpcode code pc))
  | some op =>
    let words ← takeOperands op.operands
    pure (.ofOperands op words)

/-- Writes a block, to its cells.  The last address of a block that does not fit is found by
    subtraction. -/
def writeBlock (position : Word) (words : List Word) : Guarded Store Unit :=
  let stop := position.toNat + words.length
  if stop ≤ valueCount then
    match words.find? (fun w => ¬ w.IsAddress) with
    | some w => ofAction (fail (.valueRange w.toNat))
    | none => alter (copy? · position.toNat stop words)
  else do
    let last ← demand fun _ => minus? stop 1
    ofAction (fail (.addressRange last))

/-- Loads an image.  The room for it is found by subtraction. -/
def loadImage (image : List UInt8) (base : Word) : Guarded Store Unit :=
  match Image.decode? image with
  | none => ofAction (fail (.load (.oddLength image.length)))
  | some words => do
    let room ← demand fun _ => minus? valueCount (min base.toNat valueCount)
    if room < words.length then ofAction (fail (.load (.tooLong words.length base)))
    else do
      writeBlock base words
      ofAction (note (.loaded words.length base))

/-! ## They are the plain operations -/

theorem get_eq (a : Word) : get a = ofAction (Action.inspect (·.get a)) := by
  funext s
  show get a s = some ⟨s.get a, s, []⟩
  by_cases h : a.IsAddress
  · rw [get, if_pos h, demand_index h, Store.get_of_isAddress h]
  · rw [get, if_neg h, Store.get_of_not_isAddress h]; rfl

theorem set_eq (a v : Word) : set a v = ofAction (Store.set a v) := by
  funext s
  by_cases ha : a.IsAddress
  · by_cases hv : v.IsValue
    · have ha' : a.toNat < addressCount := ha
      rw [set, if_pos ha, if_pos hv, alter_ok _ (dif_pos ha'), ofAction,
        Store.set_of_isAddress ha hv]
    · rw [set, if_pos ha, if_neg hv, ofAction, ofAction, Store.set_of_not_isValue ha hv]; rfl
  · rw [set, if_neg ha, ofAction, ofAction, Store.set_of_not_isAddress ha]; rfl

theorem registerAddress_eq (index : Nat) :
    registerAddress index = ofAction (Action.inspect fun _ => Store.registerAddress index) := by
  funext s
  by_cases h : index < registerCount
  · have hi : (UInt16.ofNat index).toNat = index :=
      UInt16.toNat_ofNat_of_lt' (Nat.lt_trans h (by decide))
    have hplus : plus? 32768 (.ofNat index) = some (.ofNat (valueCount + index)) := by
      rw [plus?, if_pos (by rw [hi]; simp at h ⊢; omega), UInt16.ofNat_add]; rfl
    rw [registerAddress, if_pos h, demand_const hplus, ofAction, Action.inspect_apply,
      Store.registerAddress, if_pos h]
  · rw [registerAddress, if_neg h, ofAction, ofAction, Action.inspect_apply,
      Store.registerAddress, if_neg h]; rfl

theorem setRegister_eq (index : Nat) (v : Word) :
    setRegister index v = ofAction (Store.setRegister index v) := by
  simp only [setRegister, registerAddress_eq, set_eq, Store.setRegister, ofAction_bind]

theorem getRegister_eq (index : Nat) :
    getRegister index = ofAction (Action.inspect (·.getRegister index)) := by
  funext s
  simp only [getRegister, registerAddress_eq, get_eq, ← ofAction_bind, Store.getRegister]
  refine congrArg some ?_
  rcases Store.registerAddress index with fault | a <;> rfl

theorem dereference_eq (w : Word) : dereference w = ofAction (view (·.dereference w)) := by
  funext s
  show dereference w s = some ⟨.ok (s.dereference w), s, []⟩
  by_cases h : w.IsRegister
  · rw [dereference, if_pos h, demand_index h.2, Store.dereference, dif_pos h]
  · rw [dereference, if_neg h, Store.dereference_of_not_isRegister h]; rfl

theorem takeWord_eq (operand : Operand) : takeWord operand = ofAction (Store.takeWord operand) := by
  funext s
  rw [takeWord, bind_ok (rfl : ofAction (view Store.pc) s = some ⟨.ok s.pc, s, []⟩)]
  by_cases h : s.pc.IsValue
  · have hi : s.pc.toNat < addressCount := Nat.lt_trans h (by decide)
    have hnext : (plus? s.pc 1).map (fun pc => { s with pc }) =
        some ({ s with pc := s.pc + 1 } : Store) := by
      rw [plus?_one h, Option.map_some]
    rw [if_pos h, bind_ok (demand_index hi s), bind_ok (alter_ok _ hnext), dereference_eq,
      ofAction, Store.takeWord, dif_pos h]
    cases operand <;> rfl
  · rw [if_neg h, ofAction, ofAction, Store.takeWord, dif_neg h]; rfl

theorem takeOperands_eq (operands : List Operand) :
    takeOperands operands = ofAction (Store.takeOperands operands) := by
  induction operands with
  | nil => rfl
  | cons operand operands ih =>
    simp only [takeOperands, Store.takeOperands, takeWord_eq, ih, ofAction_bind, ofAction_pure]

theorem takeInstruction_eq : takeInstruction = ofAction Store.takeInstruction := by
  simp only [takeInstruction, Store.takeInstruction, takeWord_eq, ofAction_bind]
  congr 1; funext pc; congr 1; funext code
  rcases Opcode.ofCode? code with _ | op
  · rfl
  · simp only [takeOperands_eq, ofAction_bind, ofAction_pure]

theorem writeBlock_eq (position : Word) (words : List Word) :
    writeBlock position words = ofAction (Store.writeBlock position words) := by
  funext s
  by_cases h : position.toNat + words.length ≤ valueCount
  · have hcells : position.toNat + words.length ≤ addressCount := Nat.le_trans h (by decide)
    have hcopy : copy? s position.toNat (position.toNat + words.length) words =
        some { s with cells := Store.overwrite s.cells position.toNat words hcells } :=
      dif_pos ⟨by omega, hcells, by omega⟩
    simp only [writeBlock, if_pos h, ofAction, Store.writeBlock, dif_pos h]
    split
    · next hf => simp only [hf]; rfl
    · next hf =>
      simp only [hf]
      exact alter_ok (copy? · position.toNat (position.toNat + words.length) words) hcopy
  · have hpos : 1 ≤ position.toNat + words.length := by simp only [valueCount] at h; omega
    simp only [writeBlock, if_neg h, ofAction, Store.writeBlock, dif_neg h]
    rw [bind_ok (demand_minus hpos s)]; rfl

theorem loadImage_eq (image : List UInt8) (base : Word) :
    loadImage image base = ofAction (Store.loadImage image base) := by
  unfold loadImage Store.loadImage
  rcases Image.decode? image with _ | words
  · rfl
  · have hroom : valueCount - min base.toNat valueCount = Store.room base := by
      rw [Store.room]; omega
    funext s
    simp only
    rw [bind_ok (demand_minus (Nat.min_le_right base.toNat valueCount) s), hroom]
    split
    · rfl
    · rw [writeBlock_eq, ← ofAction_bind]

/-! ## The machine -/

/-- A guarded action on the store. -/
def onStore {α : Type} (x : Guarded Store α) : Guarded Machine α := fun m =>
  (x m.store).map fun r => ⟨r.outcome, { m with store := r.state }, r.log⟩

def add (b c : Word) : Option Word :=
  (sum? b.toUInt32 c.toUInt32).map fun sum => (sum % 32768).toUInt16

def mul (b c : Word) : Option Word :=
  (product? b.toUInt32 c.toUInt32).map fun product => (product % 32768).toUInt16

def put (op : Opcode) (destination : Word) (sources : List Word) (result : Word) :
    Guarded Machine Unit := do
  onStore (set destination result)
  ofAction (note (.executed op (destination :: sources) (some result)))

/-- Carries out an instruction.  One that neither calculates nor uses a cell is carried out as
    it is. -/
def perform : Instruction → Guarded Machine Unit
  | ⟨.set, a, b, _⟩ => do
    onStore (set a b)
    ofAction (Machine.done .set [a, b])
  | ⟨.pop, a, _, _⟩ => do
    let value ← ofAction (Machine.onStack CallStack.pop)
    put .pop a [] value
  | ⟨.eq, a, b, c⟩ => put .eq a [b, c] (.ofBool (b == c))
  | ⟨.gt, a, b, c⟩ => put .gt a [b, c] (.ofBool (b > c))
  | ⟨.add, a, b, c⟩ => do
    let sum ← demand fun _ => add b c
    put .add a [b, c] sum
  | ⟨.mult, a, b, c⟩ => do
    let product ← demand fun _ => mul b c
    put .mult a [b, c] product
  | ⟨.mod, a, b, c⟩ =>
    if c = 0 then ofAction (fail .divisionByZero)
    else do
      let remainder ← demand fun _ => remainder? b c
      put .mod a [b, c] remainder
  | ⟨.and, a, b, c⟩ => put .and a [b, c] (b &&& c)
  | ⟨.or, a, b, c⟩ => put .or a [b, c] (b ||| c)
  | ⟨.not, a, b, _⟩ => put .not a [b] b.complement
  | ⟨.rmem, a, b, _⟩ => do
    let value ← onStore (get b)
    put .rmem a [b] value
  | ⟨.wmem, a, b, _⟩ => do
    onStore (set a b)
    ofAction (Machine.done .wmem [a, b])
  | ⟨.inp, a, _, _⟩ => do
    let code ← ofAction (Machine.onConsole Console.readChar)
    put .inp a [] code
  | i => ofAction (Machine.perform i)

def step : Guarded Machine Unit := do
  if ← ofAction (view Machine.halted) then pure ()
  else
    let instruction ← onStore takeInstruction
    perform instruction

def run : Nat → Machine → Option (Option (Ran Machine Unit))
  | 0, _ => some none
  | fuel + 1, m =>
    if m.halted then some (some (Machine.finish (.ok ()) m))
    else
      match step m with
      | none => none
      | some ⟨.ok (), m', log⟩ =>
        (run fuel m').map fun ended => ended.map fun r => ⟨r.outcome, r.state, log ++ r.log⟩
      | some ⟨.error fault, m', log⟩ =>
        let ended := Machine.finish (.error fault) m'
        some (some ⟨.error fault, ended.state, log ++ ended.log⟩)

theorem onStore_eq {α : Type} (x : Action Store α) :
    onStore (ofAction x) = ofAction (Machine.onStore x) := rfl

theorem add_eq (b c : Word) : add b c = some (b.add c) := by
  rw [add, sum?_eq, Option.map_some, Word.add]

theorem mul_eq (b c : Word) : mul b c = some (b.mul c) := by
  rw [mul, product?_eq, Option.map_some, Word.mul]

theorem put_eq (op : Opcode) (destination : Word) (sources : List Word) (result : Word) :
    put op destination sources result =
      ofAction (Machine.put op destination sources result) := by
  rw [put, set_eq, onStore_eq, ← ofAction_bind, Machine.put]

theorem demand_bind {σ α β : Type} {o : Option α} {a : α} (h : o = some a)
    (f : α → Guarded σ β) : ((demand fun _ => o) >>= f) = f a := by
  funext s
  exact bind_ok (demand_const h s)

theorem perform_eq (i : Instruction) : perform i = ofAction (Machine.perform i) := by
  obtain ⟨op, a, b, c⟩ := i
  cases op with
  | set | wmem => simp only [perform, set_eq, onStore_eq, ← ofAction_bind]; rfl
  | pop | inp => simp only [perform, put_eq, ← ofAction_bind]; rfl
  | eq | gt | and | or | not => exact put_eq _ _ _ _
  | add => simp only [perform, demand_bind (add_eq b c), put_eq]; rfl
  | mult => simp only [perform, demand_bind (mul_eq b c), put_eq]; rfl
  | mod =>
    by_cases hc : c = 0
    · simp only [perform, Machine.perform, hc, if_true]
    · have hrem : remainder? b c = some (b % c) := if_neg hc
      simp only [perform, Machine.perform, hc, if_false, demand_bind hrem, put_eq]
  | rmem => simp only [perform, get_eq, put_eq, onStore_eq, ← ofAction_bind]; rfl
  | halt | push | jmp | jt | jf | call | ret | out | noop => rfl

theorem step_eq : step = ofAction Machine.step := by
  simp only [step, Machine.step, takeInstruction_eq, onStore_eq, ofAction_bind]
  congr 1; funext halted
  cases halted
  · simp only [Bool.false_eq_true, if_false, perform_eq, ofAction_bind]
  · rfl

theorem run_eq (fuel : Nat) (m : Machine) : run fuel m = some (Machine.run fuel m) := by
  induction fuel generalizing m with
  | zero => rfl
  | succ fuel ih =>
    rcases hm : m.halted with _ | _
    · rw [run, hm, if_neg Bool.false_ne_true, step_eq, ofAction]
      rcases hs : Machine.step m with ⟨fault | ⟨⟨⟩⟩, m', log⟩
      · rw [Machine.run_of_fault hm hs]
      · rw [Machine.run_of_ok hm hs]
        simp only [ih, Option.map_some]
    · rw [run, hm, if_pos rfl, Machine.run_of_halted hm]

end Guarded

end WordMachine
