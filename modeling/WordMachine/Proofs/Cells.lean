/-
  The cells of a store, looked up by number.

  * `Store.word s i` is the word in cell `i`: ordinary memory first, then the registers;
  * `Store.write s a v` is the store with another word at an address;
  * `get_eq`, `set_eq`, `dereference_eq`, `writeBlock_eq`: the operations of a store in these
    terms, where they succeed, and `writeBlock_of_find?`, `writeBlock_of_not_fits`: where a block is
    not written;
  * `word_write`, `word_overwrite`: what the cells hold afterwards, and `ext_word`: a store is
    its words and its program counter.
-/
import WordMachine.Store.Image

namespace WordMachine

namespace Store

variable {s t : Store} {a v w : Word}

/-- The word in a cell; beyond the last cell there is 0. -/
def word (s : Store) (i : Nat) : Word := s.cells[i]?.getD 0

/-- The store with another word at an address. -/
def write (s : Store) (address value : Word) : Store :=
  { s with cells := s.cells.setIfInBounds address.toNat value }

theorem word_eq {i : Nat} (h : i < addressCount) : s.word i = s.cells[i] := by
  simp only [word, Vector.getElem?_eq_getElem h, Option.getD_some]

theorem ext_word (hpc : s.pc = t.pc) (hw : ∀ i < addressCount, s.word i = t.word i) : s = t := by
  obtain ⟨cells, pc⟩ := s
  obtain ⟨cells', pc'⟩ := t
  obtain rfl : pc = pc' := hpc
  congr 1
  refine Vector.ext fun i hi => ?_
  have h := hw i hi
  rwa [word_eq hi, word_eq hi] at h

@[simp] theorem word_empty (i : Nat) : empty.word i = 0 := by
  by_cases h : i < addressCount
  · rw [word_eq h]; simp [empty]
  · simp [word, empty, show ¬ i < 32776 from h]

@[simp] theorem pc_write (s : Store) (a v : Word) : (s.write a v).pc = s.pc := rfl

theorem word_write (ha : a.IsAddress) (v : Word) (i : Nat) :
    (s.write a v).word i = if a.toNat = i then v else s.word i := by
  have ha' : a.toNat < 32776 := ha
  simp only [word, write, Vector.getElem?_setIfInBounds, ha', if_true]
  split <;> rfl

/-! ## The operations, where they succeed -/

theorem get_eq (ha : a.IsAddress) : s.get a = .ok (s.word a.toNat) := by
  rw [get_of_isAddress ha, word_eq ha]

theorem get_write (ha : a.IsAddress) (v : Word) : (s.write a v).get a = .ok v := by
  rw [get_eq ha, word_write ha, if_pos rfl]

theorem set_eq (ha : a.IsAddress) (hv : v.IsValue) : set a v s = ⟨.ok (), s.write a v, []⟩ := by
  rw [set_of_isAddress ha hv, write]
  congr 2
  refine Vector.ext fun i hi => ?_
  have ha' : a.toNat < addressCount := ha
  exact (Vector.getElem_set ha' hi).trans (Vector.getElem_setIfInBounds hi).symm

theorem dereference_eq (s : Store) (w : Word) :
    s.dereference w = if w.IsRegister then s.word w.toNat else w := by
  by_cases h : w.IsRegister
  · rw [dereference, dif_pos h, if_pos h, word_eq h.2]
  · rw [dereference, dif_neg h, if_neg h]

/-- A register holds what was written to it last. -/
theorem dereference_write {b : Word} (ha : a.IsRegister) (hb : b.IsRegister) (v : Word) :
    (s.write a v).dereference b = if a = b then v else s.dereference b := by
  rw [dereference_eq, if_pos hb, dereference_eq, if_pos hb, word_write ha.2]
  simp only [UInt16.toNat_inj]

@[simp] theorem resolve_destination (s : Store) (w : Word) : s.resolve .destination w = w := rfl

@[simp] theorem resolve_value (s : Store) (w : Word) :
    s.resolve .value w = s.dereference w := rfl

/-! ## Blocks -/

theorem word_overwrite (position : Nat) (words : List Word)
    (h : position + words.length ≤ addressCount) {i : Nat} (hi : i < addressCount) :
    ({ s with cells := overwrite s.cells position words h } : Store).word i =
      if position ≤ i then words[i - position]?.getD (s.word i) else s.word i := by
  rw [word_eq hi, getElem_overwrite _ _ _ h _ hi, word_eq hi]

theorem find?_eq_none_iff {words : List Word} :
    words.find? (fun w => ¬ w.IsAddress) = none ↔ ∀ w ∈ words, w.IsAddress := by
  simp [List.find?_eq_none]

section

variable {position : Word} {words : List Word}

theorem writeBlock_eq (h : position.toNat + words.length ≤ valueCount)
    (hw : ∀ w ∈ words, w.IsAddress) :
    writeBlock position words s = ⟨.ok (), { s with
      cells := overwrite s.cells position.toNat words (Nat.le_trans h (by decide)) }, []⟩ := by
  rw [writeBlock, dif_pos h]
  split
  · next heq => cases (find?_eq_none_iff.mpr hw).symm.trans heq
  · rfl

/-- The first word that is no address stops the block. -/
theorem writeBlock_of_find? (h : position.toNat + words.length ≤ valueCount)
    (hw : words.find? (fun w => ¬ w.IsAddress) = some w) :
    writeBlock position words s = ⟨.error (.valueRange w.toNat), s, []⟩ := by
  rw [writeBlock, dif_pos h]
  split
  · next heq =>
    cases hw.symm.trans heq
    rfl
  · next heq => cases hw.symm.trans heq

theorem writeBlock_of_not_fits (h : ¬ position.toNat + words.length ≤ valueCount) :
    writeBlock position words s =
      ⟨.error (.addressRange (position.toNat + words.length - 1)), s, []⟩ :=
  dif_neg h

end

end Store

end WordMachine
