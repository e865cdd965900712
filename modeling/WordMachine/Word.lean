/-
  Words, and what they stand for.

  A word is stored in 16 bits.  Below `valueCount` it is a value, the eight words
  above the values name the registers, and the words below `addressCount` are the
  addresses of the store: ordinary memory, then the registers.

  * `IsValue`, `IsRegister`, `IsAddress` are the three classes;
  * `add`, `mul`, `complement`, `ofBool` are the operations whose result is taken
    modulo `valueCount` or within its 15 bits;
  * `ofBytes`, `low`, `high` take a word to its two bytes and back;
  * `toNat_add`, `toNat_mul`: sums and products are those of the naturals modulo
    `valueCount`, for any two words: the 32 bit intermediate never overflows;
  * `toNat_complement`, `isValue_*`: the operations keep to the values.
-/
namespace WordMachine

/-- A stored word of 16 bits. -/
abbrev Word := UInt16

/-- The number of values, which is also the number of cells of ordinary memory. -/
@[simp] abbrev valueCount : Nat := 32768

/-- The number of registers. -/
@[simp] abbrev registerCount : Nat := 8

/-- The number of addresses: the cells of ordinary memory, then the registers. -/
@[simp] abbrev addressCount : Nat := 32776

namespace Word

/-! ## The classes of words -/

/-- A word that arithmetic can produce and a register can hold. -/
def IsValue (w : Word) : Prop := w.toNat < valueCount

/-- A word that names a register. -/
def IsRegister (w : Word) : Prop := valueCount ≤ w.toNat ∧ w.toNat < addressCount

/-- A word that is the address of a cell or of a register. -/
def IsAddress (w : Word) : Prop := w.toNat < addressCount

instance (w : Word) : Decidable w.IsValue := inferInstanceAs (Decidable (_ < _))

instance (w : Word) : Decidable w.IsRegister := inferInstanceAs (Decidable (_ ∧ _))

instance (w : Word) : Decidable w.IsAddress := inferInstanceAs (Decidable (_ < _))

theorem isAddress_iff (w : Word) : w.IsAddress ↔ w.IsValue ∨ w.IsRegister := by
  simp only [IsAddress, IsValue, IsRegister, valueCount, addressCount]; omega

theorem IsValue.isAddress {w : Word} (h : w.IsValue) : w.IsAddress :=
  (isAddress_iff w).mpr (Or.inl h)

/-! ## Operations on words -/

/-- The sum modulo `valueCount`. -/
def add (b c : Word) : Word := ((b.toUInt32 + c.toUInt32) % 32768).toUInt16

/-- The product modulo `valueCount`. -/
def mul (b c : Word) : Word := ((b.toUInt32 * c.toUInt32) % 32768).toUInt16

/-- The word with its 15 value bits inverted. -/
def complement (b : Word) : Word := b ^^^ 32767

/-- The truth value as a word: 1 or 0. -/
def ofBool (p : Bool) : Word := if p then 1 else 0

/-- The word stored as a low byte followed by a high byte. -/
def ofBytes (low high : UInt8) : Word := low.toUInt16 + high.toUInt16 * 256

/-- The low byte of a word. -/
def low (w : Word) : UInt8 := w.toUInt8

/-- The high byte of a word. -/
def high (w : Word) : UInt8 := (w >>> 8).toUInt8

@[simp] theorem low_ofBytes (l h : UInt8) : (ofBytes l h).low = l := by
  have hl := l.toNat_lt
  apply UInt8.toNat_inj.mp
  simp only [ofBytes, low, UInt16.toNat_toUInt8, UInt16.toNat_add, UInt16.toNat_mul,
    UInt8.toNat_toUInt16, UInt16.reduceToNat]
  omega

@[simp] theorem high_ofBytes (l h : UInt8) : (ofBytes l h).high = h := by
  have hl := l.toNat_lt
  have hh := h.toNat_lt
  apply UInt8.toNat_inj.mp
  simp only [ofBytes, high, UInt16.toNat_toUInt8, UInt16.toNat_add, UInt16.toNat_mul,
    UInt16.toNat_shiftRight, UInt8.toNat_toUInt16, UInt16.reduceToNat,
    Nat.shiftRight_eq_div_pow, Nat.reduceMod, Nat.reducePow]
  omega

@[simp] theorem ofBytes_low_high (w : Word) : ofBytes w.low w.high = w := by
  have hw := w.toNat_lt
  apply UInt16.toNat_inj.mp
  simp only [ofBytes, low, high, UInt16.toNat_toUInt8, UInt16.toNat_add, UInt16.toNat_mul,
    UInt16.toNat_shiftRight, UInt8.toNat_toUInt16, UInt16.reduceToNat,
    Nat.shiftRight_eq_div_pow, Nat.reduceMod, Nat.reducePow]
  omega

theorem toNat_add (b c : Word) : (add b c).toNat = (b.toNat + c.toNat) % valueCount := by
  have hb := b.toNat_lt
  have hc := c.toNat_lt
  simp only [add, UInt32.toNat_toUInt16, UInt32.toNat_mod, UInt32.toNat_add,
    UInt16.toNat_toUInt32, UInt32.reduceToNat, valueCount]
  omega

theorem toNat_mul (b c : Word) : (mul b c).toNat = b.toNat * c.toNat % valueCount := by
  have hb := b.toNat_lt
  have hc := c.toNat_lt
  have : b.toNat * c.toNat < 2 ^ 32 := by
    calc b.toNat * c.toNat ≤ (2 ^ 16 - 1) * (2 ^ 16 - 1) :=
          Nat.mul_le_mul (by omega) (by omega)
      _ < 2 ^ 32 := by decide
  simp only [mul, UInt32.toNat_toUInt16, UInt32.toNat_mod, UInt32.toNat_mul,
    UInt16.toNat_toUInt32, UInt32.reduceToNat, Nat.mod_eq_of_lt this,
    valueCount]
  omega

theorem isValue_add (b c : Word) : (add b c).IsValue := by
  unfold IsValue; rw [toNat_add]; exact Nat.mod_lt _ (by decide)

theorem isValue_mul (b c : Word) : (mul b c).IsValue := by
  unfold IsValue; rw [toNat_mul]; exact Nat.mod_lt _ (by decide)

theorem isValue_ofBool (p : Bool) : (ofBool p).IsValue := by
  cases p <;> decide

section

variable {b c : Word}

theorem isValue_mod (hb : b.IsValue) : (b % c).IsValue := by
  rw [IsValue, UInt16.toNat_mod]
  exact Nat.lt_of_le_of_lt (Nat.mod_le _ _) hb

theorem isValue_and (hb : b.IsValue) : (b &&& c).IsValue := by
  rw [IsValue, UInt16.toNat_and]
  exact Nat.lt_of_le_of_lt Nat.and_le_left hb

theorem isValue_or (hb : b.IsValue) (hc : c.IsValue) : (b ||| c).IsValue := by
  rw [IsValue, UInt16.toNat_or]
  exact Nat.or_lt_two_pow (n := 15) hb hc

/-- The complement is what is missing to the greatest value. -/
theorem toNat_complement (hb : b.IsValue) : b.complement.toNat = 32767 - b.toNat := by
  have hnot : BitVec.ofNat 15 b.toNat ^^^ BitVec.allOnes 15 = ~~~BitVec.ofNat 15 b.toNat :=
    BitVec.xor_allOnes
  have h := congrArg BitVec.toNat hnot
  rw [BitVec.toNat_xor, BitVec.toNat_not, BitVec.toNat_allOnes, BitVec.toNat_ofNat,
    Nat.mod_eq_of_lt hb] at h
  rw [complement, UInt16.toNat_xor]
  exact h

theorem isValue_complement (hb : b.IsValue) : b.complement.IsValue := by
  rw [IsValue, toNat_complement hb]
  exact Nat.lt_of_le_of_lt (Nat.sub_le _ _) (by decide)

end

end Word

end WordMachine
