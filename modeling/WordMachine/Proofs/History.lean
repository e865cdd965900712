/-
  The store as the history of the calls made of it.

  * `Store.Call` is a call that may change a store, and `Store.after` makes calls one after the
    other, the ones that fault included, and keeps what each came to: a `Store.History`;
  * `History.word`, `History.position`, `History.resolve` read a history and no store: the word
    that was written to a cell last, where the program counter stands, and what a word stands for;
  * `Call.Admitted`, `Call.Done`: when a call succeeds, and what it has done then.  One that is not
    admitted leaves the store alone (`not_admitted_keeps`);
  * `Tells.answered`, `tells_after`: what the history tells is so after each call, and after all;
  * `after_tells`: the store is read from the history.
-/
import WordMachine.Proofs.Fetch
import WordMachine.Proofs.Loading
import Mathlib.Data.List.DropRight

namespace WordMachine

namespace Store

/-! ## Calls -/

/-- A call that may change a store, with its arguments. -/
inductive Call where
  | set (address value : Word)
  | setRegister (index : Nat) (value : Word)
  | writeBlock (position : Word) (words : List Word)
  | loadImage (image : List UInt8) (base : Word)
  | jump (address : Word)
  | takeWord (operand : Operand)

/-- What the call does.  Only taking a word produces one. -/
def Call.action : Call → Action Store (Option Word)
  | set address value => do Store.set address value; pure none
  | setRegister index value => do Store.setRegister index value; pure none
  | writeBlock position words => do Store.writeBlock position words; pure none
  | loadImage image base => do Store.loadImage image base; pure none
  | jump address => do Store.jump address; pure none
  | takeWord operand => do
    let w ← Store.takeWord operand
    pure (some w)

/-- A call, and what it came to. -/
structure Answered where
  call : Call
  outcome : Except Fault (Option Word)

/-- The calls made so far, the first one first. -/
abbrev History := List Answered

/-- The store after some calls, and their history.  A fault does not keep the next call from being
    made. -/
def after (s : Store) : List Call → History × Store
  | [] => ([], s)
  | call :: calls =>
    let r := call.action s
    let (log, t) := r.state.after calls
    (⟨call, r.outcome⟩ :: log, t)

theorem after_append (s : Store) (calls calls' : List Call) :
    s.after (calls ++ calls') =
      ((s.after calls).1 ++ ((s.after calls).2.after calls').1,
        ((s.after calls).2.after calls').2) := by
  induction calls generalizing s with
  | nil => rfl
  | cons call calls ih => simp only [List.cons_append, after, ih]

theorem map_call_after (s : Store) (calls : List Call) :
    (s.after calls).1.map Answered.call = calls := by
  induction calls generalizing s with
  | nil => rfl
  | cons call calls ih => simp only [after, List.map_cons, ih]

/-- Up to any of its calls, a history is that of the calls until then. -/
theorem after_split {s : Store} {calls : List Call} {front back : History} {a : Answered}
    (h : (s.after calls).1 = front ++ a :: back) :
    ∃ t, s.after (front.map Answered.call) = (front, t) ∧ a.outcome = (a.call.action t).outcome := by
  have hcalls : calls = front.map Answered.call ++ a.call :: back.map Answered.call := by
    rw [← map_call_after s calls, h, List.map_append, List.map_cons]
  have hsplit := congrArg Prod.fst (after_append s (front.map Answered.call)
    (a.call :: back.map Answered.call))
  rw [← hcalls, h] at hsplit
  have hlength : front.length = (s.after (front.map Answered.call)).1.length := by
    have hfront := congrArg List.length (map_call_after s (front.map Answered.call))
    rw [List.length_map, List.length_map] at hfront
    exact hfront.symm
  obtain ⟨hfront, hrest⟩ := List.append_inj hsplit hlength
  have ha := (List.cons.inj hrest).1
  exact ⟨_, Prod.ext hfront.symm rfl, congrArg Answered.outcome ha⟩

/-! ## What a history tells -/

/-- The word that a block has for a cell, if it covers the cell. -/
def blockWord? (position : Nat) (words : List Word) (i : Nat) : Option Word :=
  if position ≤ i then words[i - position]? else none

/-- The word that the call is to write to a cell, if it covers the cell. -/
def Call.word? : Call → Nat → Option Word
  | set address value, i => if address.toNat = i then some value else none
  | setRegister index value, i => if valueCount + index = i then some value else none
  | writeBlock position words, i => blockWord? position.toNat words i
  | loadImage image base, i => blockWord? base.toNat (Image.words image) i
  | jump _, _ | takeWord _, _ => none

namespace Answered

/-- The word that was written to a cell: a call that failed has written nothing. -/
def word? : Answered → Nat → Option Word
  | ⟨call, .ok _⟩, i => call.word? i
  | ⟨_, .error _⟩, _ => none

/-- Where the program counter was sent, if it was. -/
def target? : Answered → Option Nat
  | ⟨.jump address, .ok _⟩ => some address.toNat
  | _ => none

/-- A word was taken. -/
def tookWord : Answered → Bool
  | ⟨.takeWord _, .ok _⟩ => true
  | _ => false

end Answered

namespace History

/-- The word that was written to a cell last, and 0 if there is none. -/
def word (log : History) (i : Nat) : Word := ((log.filterMap (·.word? i)).getLast?).getD 0

/-- The program counter: where it was sent last, and a word further for each word taken since. -/
def position (log : History) : Nat :=
  ((log.filterMap Answered.target?).getLast?).getD 0 +
    (log.rtakeWhile fun a => a.target?.isNone).countP Answered.tookWord

/-- What an operand word stands for. -/
def resolve (log : History) (operand : Operand) (w : Word) : Word :=
  if operand.dereferences ∧ w.IsRegister then log.word w.toNat else w

theorem word_concat (log : History) (a : Answered) (i : Nat) :
    History.word (log ++ [a]) i = (a.word? i).getD (log.word i) := by
  rcases h : a.word? i with _ | w
  · simp [word, h]
  · simp [word, h]

theorem position_concat (log : History) (a : Answered) :
    History.position (log ++ [a]) =
      a.target?.getD (log.position + if a.tookWord then 1 else 0) := by
  rcases h : a.target? with _ | p
  · simp [position, h, List.countP_append, List.countP_singleton, Nat.add_assoc]
  · simp [position, h]

end History

/-! ## What a call does -/

/-- The arguments of the call are such that it succeeds, with the program counter at `p`. -/
def Call.Admitted : Call → Nat → Prop
  | set address value, _ => address.IsAddress ∧ value.IsValue
  | setRegister index value, _ => index < registerCount ∧ value.IsValue
  | writeBlock position words, _ =>
    position.toNat + words.length ≤ valueCount ∧ ∀ w ∈ words, w.IsAddress
  | loadImage image base, _ =>
    image.length % 2 = 0 ∧ base.toNat + image.length / 2 ≤ valueCount ∧
      ∀ w ∈ Image.words image, w.IsAddress
  | jump address, _ => address.IsValue
  | takeWord _, p => p < valueCount

/-- Where the call moves the program counter. -/
def Call.move : Call → Nat → Nat
  | jump address, _ => address.toNat
  | takeWord _, p => p + 1
  | _, p => p

/-- The word that the call produces, if it does. -/
def Call.produced? (s : Store) : Call → Option Word
  | takeWord operand => some (s.resolve operand (s.word s.pc.toNat))
  | _ => none

/-- The call succeeded, and this is what it has done. -/
structure Call.Done (s : Store) (call : Call) (r : Ran Store (Option Word)) : Prop where
  outcome : r.outcome = .ok (call.produced? s)
  word : ∀ i < addressCount, r.state.word i = (call.word? i).getD (s.word i)
  pc : r.state.pc.toNat = call.move s.pc.toNat

variable {s : Store} {call : Call}

theorem word_overwrite_eq (position : Nat) (words : List Word)
    (h : position + words.length ≤ addressCount) {i : Nat} (hi : i < addressCount) :
    ({ s with cells := overwrite s.cells position words h } : Store).word i =
      (blockWord? position words i).getD (s.word i) := by
  rw [word_overwrite _ _ h hi, blockWord?]
  split <;> rfl

section

variable {index : Nat}

theorem toNat_register (h : index < registerCount) :
    (UInt16.ofNat (valueCount + index)).toNat = valueCount + index :=
  UInt16.toNat_ofNat_of_lt' (by simp only [registerCount, valueCount, UInt16.size] at h ⊢; omega)

theorem isRegister_register (h : index < registerCount) :
    Word.IsRegister (.ofNat (valueCount + index)) := by
  rw [Word.IsRegister, toNat_register h]
  exact ⟨Nat.le_add_right _ _, Nat.add_lt_add_left h _⟩

/-- A register is written under its index or under its name. -/
theorem setRegister_eq (h : index < registerCount) (v : Word) :
    setRegister index v = set (.ofNat (valueCount + index)) v := by
  rw [setRegister, registerAddress, if_pos h]
  rfl

theorem setRegister_of_not (h : ¬ index < registerCount) (v : Word) :
    setRegister index v s = ⟨.error (.addressRange (valueCount + index)), s, []⟩ := by
  rw [setRegister, registerAddress, if_neg h]
  rfl

/-- It is read under either name, and it is what its name stands for. -/
theorem getRegister_eq (s : Store) (h : index < registerCount) :
    s.getRegister index = s.get (.ofNat (valueCount + index)) ∧
      s.getRegister index = .ok (s.dereference (.ofNat (valueCount + index))) := by
  have hget : s.getRegister index = s.get (.ofNat (valueCount + index)) := by
    rw [getRegister, registerAddress, if_pos h]
    rfl
  exact ⟨hget, hget.trans (get_of_isRegister (isRegister_register h))⟩

end

theorem done_set {a v : Word} (ha : a.IsAddress) (hv : v.IsValue) :
    (Call.set a v).Done s ((Call.set a v).action s) := by
  rw [Call.action, Action.bind_ok (set_eq ha hv)]
  refine ⟨rfl, fun i _ => ?_, rfl⟩
  refine (word_write ha v i).trans ?_
  rw [Call.word?]
  split <;> rfl

/-- **An admitted call succeeds.** -/
theorem Call.Admitted.done (h : call.Admitted s.pc.toNat) : call.Done s (call.action s) := by
  cases call with
  | set a v => exact done_set h.1 h.2
  | setRegister index v =>
    have hset := done_set (s := s) (isRegister_register h.1).2 h.2
    rw [Call.action] at hset
    rw [Call.action, setRegister_eq h.1]
    refine ⟨hset.outcome, fun i hi => ?_, hset.pc⟩
    rw [hset.word i hi, Call.word?, Call.word?, toNat_register h.1]
  | writeBlock p words =>
    rw [Call.action, Action.bind_ok (writeBlock_eq h.1 h.2)]
    exact ⟨rfl, fun i hi => word_overwrite_eq _ _ _ hi, rfl⟩
  | loadImage image base =>
    obtain ⟨heven, hfit, hw⟩ := h
    obtain ⟨words, rfl⟩ : ∃ words, image = Image.encode words := ⟨_, (Image.encode_words heven).symm⟩
    rw [Image.length_encode_div] at hfit
    rw [Image.words_encode] at hw
    rw [Call.action, Action.bind_ok (loadImage_of_fits hfit hw)]
    refine ⟨rfl, fun i hi => ?_, rfl⟩
    rw [Call.word?, Image.words_encode]
    exact word_overwrite_eq _ _ _ hi
  | jump a =>
    rw [Call.action, Action.bind_ok (jump_of_isValue h)]
    exact ⟨rfl, fun i hi => rfl, rfl⟩
  | takeWord operand =>
    have htake := takeWord_goTo (s := s) operand h
    rw [goTo_pc] at htake
    rw [Call.action, Action.bind_ok htake]
    exact ⟨rfl, fun i hi => rfl, toNat_pc_goTo h⟩

/-- **Any other call faults and leaves the store alone.** -/
theorem not_admitted_keeps (h : ¬ call.Admitted s.pc.toNat) :
    ∃ fault, call.action s = ⟨.error fault, s, []⟩ := by
  cases call with
  | set a v =>
    by_cases ha : a.IsAddress
    · have hv : ¬ v.IsValue := fun hv => h ⟨ha, hv⟩
      exact ⟨_, Action.bind_error (set_of_not_isValue ha hv)⟩
    · exact ⟨_, Action.bind_error (set_of_not_isAddress ha)⟩
  | setRegister index v =>
    by_cases hi : index < registerCount
    · have hv : ¬ v.IsValue := fun hv => h ⟨hi, hv⟩
      have hset := set_of_not_isValue (s := s) (isRegister_register hi).2 hv
      rw [← setRegister_eq hi] at hset
      exact ⟨_, Action.bind_error hset⟩
    · exact ⟨_, Action.bind_error (setRegister_of_not hi v)⟩
  | writeBlock p words =>
    by_cases hp : p.toNat + words.length ≤ valueCount
    · rcases hw : words.find? (fun w => ¬ w.IsAddress) with _ | w
      · exact absurd ⟨hp, find?_eq_none_iff.mp hw⟩ h
      · exact ⟨_, Action.bind_error (writeBlock_of_find? hp hw)⟩
    · exact ⟨_, Action.bind_error (writeBlock_of_not_fits hp)⟩
  | loadImage image base =>
    have hload := loading s base image
    rw [Call.action]
    generalize hr : loadImage image base s = r at hload
    cases hload with
    | loaded hfit hw =>
      refine absurd ⟨Image.length_encode_mod _, ?_, ?_⟩ h
      · rwa [Image.length_encode_div]
      · rwa [Image.words_encode]
    | odd | tooLong | beyond | improper => exact ⟨_, Action.bind_error hr⟩
  | jump a => exact ⟨_, Action.bind_error (jump_of_not_isValue h)⟩
  | takeWord operand => exact ⟨_, Action.bind_error (dif_neg h)⟩

/-- A call succeeds exactly if it is admitted. -/
theorem succeeds_iff_admitted (s : Store) (call : Call) :
    (∃ produced, (call.action s).outcome = .ok produced) ↔ call.Admitted s.pc.toNat := by
  refine ⟨fun ⟨produced, hok⟩ => ?_, fun h => ⟨_, h.done.outcome⟩⟩
  by_contra h
  obtain ⟨fault, hfault⟩ := not_admitted_keeps h
  rw [hfault] at hok
  cases hok

/-! ## The history of a store -/

/-- The store is as the history tells. -/
structure Tells (log : History) (s : Store) : Prop where
  word : ∀ i < addressCount, s.word i = log.word i
  pc : s.pc.toNat = log.position

theorem tells_empty : Tells [] empty where
  word i _ := word_empty i
  pc := rfl

namespace Tells

variable {log : History}

/-- A call that succeeded is one more to tell, and so is one that did not. -/
theorem answered (h : Tells log s) (call : Call) :
    Tells (log ++ [⟨call, (call.action s).outcome⟩]) (call.action s).state := by
  by_cases hadmitted : call.Admitted s.pc.toNat
  · have hdone := hadmitted.done
    rw [hdone.outcome]
    constructor
    · intro i hi
      rw [hdone.word i hi, History.word_concat, h.word i hi]
      rfl
    · rw [hdone.pc, History.position_concat, h.pc]
      cases call <;> rfl
  · obtain ⟨fault, hfault⟩ := not_admitted_keeps hadmitted
    rw [hfault]
    constructor
    · intro i hi
      rw [History.word_concat, h.word i hi]
      rfl
    · rw [History.position_concat, h.pc]
      cases call <;> rfl

theorem after (h : Tells log s) (calls : List Call) :
    Tells (log ++ (s.after calls).1) (s.after calls).2 := by
  induction calls generalizing log s with
  | nil => rwa [Store.after, List.append_nil]
  | cons call calls ih =>
    have hrest := ih (h.answered call)
    rwa [List.append_assoc] at hrest

theorem resolve (h : Tells log s) (operand : Operand) (w : Word) :
    s.resolve operand w = log.resolve operand w := by
  cases operand with
  | destination => rfl
  | value =>
    rw [resolve_value, dereference_eq]
    by_cases hw : w.IsRegister
    · rw [if_pos hw, h.word _ hw.2]
      exact (if_pos ⟨rfl, hw⟩).symm
    · rw [if_neg hw]
      exact (if_neg fun h => hw h.2).symm

end Tells

theorem tells_after (calls : List Call) : Tells (empty.after calls).1 (empty.after calls).2 :=
  tells_empty.after calls

/-- **The store is its history.**  After any calls of the empty store, each cell holds the word that
    was written there last, the registers are read under both their names, and the program counter
    is where it was sent last and moved on by each word taken since.  Exactly the calls that their
    arguments admit have succeeded, and a word that was taken is the one that the history until then
    tells. -/
theorem after_tells (calls : List Call) (log : History) (s : Store)
    (h : empty.after calls = (log, s)) :
    log.map Answered.call = calls ∧
    (∀ a : Word, a.IsAddress → s.get a = .ok (log.word a.toNat)) ∧
    (∀ index < registerCount,
      s.getRegister index = s.get (.ofNat (valueCount + index)) ∧
      s.getRegister index = .ok (s.dereference (.ofNat (valueCount + index)))) ∧
    s.pc.toNat = log.position ∧
    ∀ (front : History) (a : Answered) (back : History), log = front ++ a :: back →
      ((∃ produced, a.outcome = .ok produced) ↔ a.call.Admitted front.position) ∧
      ∀ operand produced, a = ⟨.takeWord operand, .ok produced⟩ →
        produced = some (front.resolve operand (front.word front.position)) := by
  have htells := tells_after calls
  have hcalls := map_call_after empty calls
  rw [h] at htells hcalls
  refine ⟨hcalls, fun a ha => ?_, fun index => getRegister_eq s, htells.pc,
    fun front a back hlog => ?_⟩
  · rw [get_eq ha, htells.word _ ha]
  · obtain ⟨t, ht, houtcome⟩ := after_split ((congrArg Prod.fst h).trans hlog)
    have hfront := tells_after (front.map Answered.call)
    rw [ht] at hfront
    have hsucceeds := succeeds_iff_admitted t a.call
    rw [← houtcome, hfront.pc] at hsucceeds
    refine ⟨hsucceeds, fun operand produced ha => ?_⟩
    subst ha
    have hadmitted := hsucceeds.mp ⟨_, rfl⟩
    have hdone := Call.Admitted.done (s := t) (hfront.pc.symm ▸ hadmitted)
    have hpos : t.pc.toNat < addressCount := by
      rw [hfront.pc]
      exact Nat.lt_trans hadmitted (by decide)
    have hproduced := houtcome.trans hdone.outcome
    rw [Call.produced?, hfront.resolve, hfront.word _ hpos, hfront.pc] at hproduced
    exact Except.ok.inj hproduced

/-- The proper beginning of a block that failed is not in the store, and the next word is taken from
    the block before. -/
theorem after_tells_of_failed_block :
    let (log, s) := empty.after [.writeBlock 0 [7, 32769], .writeBlock 1 [9, 32776], .jump 1,
      .takeWord .destination, .setRegister 8 1]
    s.get 1 = .ok 32769 ∧ s.get 32769 = .ok 0 ∧ s.pc.toNat = 2 ∧
      log.map Answered.outcome = [.ok none, .error (.valueRange 32776), .ok none,
        .ok (some 32769), .error (.addressRange 32776)] := by
  obtain ⟨-, hget, -, hpc, -⟩ := after_tells [.writeBlock 0 [7, 32769], .writeBlock 1 [9, 32776],
    .jump 1, .takeWord .destination, .setRegister 8 1] _ _ rfl
  exact ⟨hget 1 (by decide), hget 32769 (by decide), hpc, rfl⟩

end Store

end WordMachine
