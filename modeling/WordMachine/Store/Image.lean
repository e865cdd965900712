/-
  Program images: words stored as pairs of bytes, the low byte first.

  * `Image.encode` and `Image.decode?` take words to bytes and back: exactly the byte
    strings of even length are images (`decode?_eq_some_iff`);
  * `Store.loadImage` writes the words of an image to the store, or changes nothing;
  * `Store.ofImage` and `Store.ofFile` start from the empty store.
-/
import WordMachine.Store.Basic

namespace WordMachine

/-! ## Words as bytes -/

namespace Image

/-- The bytes of some words, the low byte of each first. -/
def encode (words : List Word) : List UInt8 := words.flatMap fun w => [w.low, w.high]

/-- One byte to the left of what has been read: the first half of a word, or the byte
    that waits for its first half. -/
def step (byte : UInt8) : Option UInt8 × List Word → Option UInt8 × List Word
  | (none, words) => (some byte, words)
  | (some high, words) => (none, .ofBytes byte high :: words)

/-- The words of a byte string, which has to have an even length. -/
def decode? (bytes : List UInt8) : Option (List Word) :=
  match bytes.foldr step (none, []) with
  | (none, words) => some words
  | (some _, _) => none

@[simp] theorem length_encode (words : List Word) :
    (encode words).length = 2 * words.length := by
  induction words with
  | nil => rfl
  | cons w words ih => simp only [encode, List.flatMap_cons, List.length_append] at ih ⊢
                       simp [ih]; omega

theorem foldr_step_encode (words : List Word) :
    (encode words).foldr step (none, []) = (none, words) := by
  induction words with
  | nil => rfl
  | cons w words ih => simp only [encode, List.flatMap_cons] at ih ⊢; simp [step, ih]

/-- What has been read is the encoding of the words found, after the byte that waits. -/
theorem eq_encode_of_foldr_step (bytes : List UInt8) :
    bytes = (bytes.foldr step (none, [])).1.toList ++
      encode (bytes.foldr step (none, [])).2 := by
  induction bytes with
  | nil => rfl
  | cons byte bytes ih =>
    rw [List.foldr_cons]
    rcases h : bytes.foldr step (none, []) with ⟨_ | high, words⟩
    · rw [h] at ih; simpa [step] using ih
    · rw [h] at ih; simpa [step, encode] using ih

/-- Exactly the encodings of words are images. -/
theorem decode?_eq_some_iff {bytes : List UInt8} {words : List Word} :
    decode? bytes = some words ↔ bytes = encode words := by
  constructor
  · intro h
    have key := eq_encode_of_foldr_step bytes
    unfold decode? at h
    split at h
    · next hs => rw [hs] at key; cases h; exact key
    · cases h
  · rintro rfl
    simp [decode?, foldr_step_encode]

end Image

/-! ## Loading -/

namespace Store

/-- The number of words that fit between a base and the registers. -/
def room (base : Word) : Nat := valueCount - base.toNat

/-- Writes the words of an image to the store from `base` on. -/
def loadImage (image : List UInt8) (base : Word) : Action Store Unit :=
  match Image.decode? image with
  | none => Action.fail (.load (.oddLength image.length))
  | some words =>
    if room base < words.length then Action.fail (.load (.tooLong words.length base))
    else do
      writeBlock base words
      Action.note (.loaded words.length base)

/-- Loads an image at address zero of the empty store. -/
def ofImage (image : List UInt8) : Ran Store Unit := loadImage image 0 empty

/-- Loads an image file, given what reading it came to, at address zero of the empty
    store. -/
def ofFile (path : String) (contents : Except DeviceError (List UInt8)) : Ran Store Unit :=
  (do
    let image ← Action.inspect fun _ => contents.mapError Fault.device
    Action.note (.fileRead image.length path)
    loadImage image 0 : Action Store Unit) empty

end Store

end WordMachine
