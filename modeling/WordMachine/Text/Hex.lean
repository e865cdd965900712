/-
  Words in hexadecimal.

  Addresses are shown with four digits: lower case in the text of a fault and of a
  load, upper case where a run ended.

  * `hexDigits` are the four digits of a word, highest first;
  * `foldl_digitValues`: their values make up the word in base 16.
-/
import WordMachine.Word

namespace WordMachine

namespace Word

/-- The values of the four base 16 digits of a word, highest first. -/
def digitValues (w : Word) : List Nat :=
  [w.toNat / 4096, w.toNat / 256 % 16, w.toNat / 16 % 16, w.toNat % 16]

/-- The four digits of a word, in lower case. -/
def hexDigits (w : Word) : List Char := w.digitValues.map Nat.digitChar

/-- The address as it is written in messages: `0x` and four lower case digits. -/
def hex (w : Word) : String := "0x" ++ String.ofList w.hexDigits

/-- The address as it is written where a run ended: `0x` and four upper case digits. -/
def upperHex (w : Word) : String := "0x" ++ String.ofList (w.hexDigits.map Char.toUpper)

theorem digitValues_lt (w : Word) : ∀ d ∈ w.digitValues, d < 16 := by
  have hw := w.toNat_lt
  simp only [digitValues, List.mem_cons, List.not_mem_nil, or_false]
  rintro d (rfl | rfl | rfl | rfl) <;> omega

/-- The digits determine the word: they are its value in base 16. -/
theorem foldl_digitValues (w : Word) :
    w.digitValues.foldl (fun n d => 16 * n + d) 0 = w.toNat := by
  simp only [digitValues, List.foldl_cons, List.foldl_nil]; omega

end Word

end WordMachine
