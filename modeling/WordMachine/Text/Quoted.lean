/-
  Text in quotes, as messages show it.

  * `escape` writes one character: a quote and a backslash get a backslash, the
    usual blanks have a letter of their own, and every other control character is
    given by its code in hexadecimal;
  * `quoted` puts the escaped text between quotes.

  Only control characters are given by their codes.  Messages give those of characters that
  extend the one before them (U+0301) and of others that cannot be printed (U+00AD, U+200B) as
  well; here these stand for themselves, since the tables that tell them apart are left out.
-/
namespace WordMachine

/-- A control character: below the space, the delete character, or one of the 32
    codes from it on. -/
def IsControl (c : Char) : Prop := c.toNat < 32 ∨ (127 ≤ c.toNat ∧ c.toNat < 160)

instance (c : Char) : Decidable (IsControl c) := inferInstanceAs (Decidable (_ ∨ _))

/-- One character inside quotes. -/
def escape (c : Char) : List Char :=
  match c with
  | '"' => ['\\', '"']
  | '\\' => ['\\', '\\']
  | '\t' => ['\\', 't']
  | '\r' => ['\\', 'r']
  | '\n' => ['\\', 'n']
  | '\x00' => ['\\', '0']
  | c =>
    if IsControl c then ['\\', 'u', '\x7b'] ++ Nat.toDigits 16 c.toNat ++ ['\x7d'] else [c]

/-- The text between quotes, each character escaped. -/
def quoted (text : String) : String :=
  String.ofList (['"'] ++ text.toList.flatMap escape ++ ['"'])

/-- A character that is neither special nor a control character stands for itself. -/
theorem escape_eq_self {c : Char} (hq : c ≠ '"') (hb : c ≠ '\\') (hc : ¬ IsControl c) :
    escape c = [c] := by
  have ht : c ≠ '\t' := fun h => hc (h ▸ by decide)
  have hr : c ≠ '\r' := fun h => hc (h ▸ by decide)
  have hn : c ≠ '\n' := fun h => hc (h ▸ by decide)
  have h0 : c ≠ '\x00' := fun h => hc (h ▸ by decide)
  simp [escape, hc]

end WordMachine
