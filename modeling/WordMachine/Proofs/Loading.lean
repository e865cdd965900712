/-
  Loading an image: how it ends, and what the store holds then.

  * `Image.words`: the words of a byte string, two bytes each, and `encode_words`,
    `words_encode`: there and back;
  * `Store.Loaded s p words t`: the store `t` is `s` with the words in the cells from `p` on;
  * `Store.Loading s base image r`: the five ways in which loading can end, of which only the last
    touches the store, and `loading`: there is no other way;
  * `loading_inverts_encoding`: loading and encoding are each other's inverse, and an image is
    loaded whole or not at all;
  * `Store.AsSpecified`: how loading is specified to end, and `loadImage_asSpecified_iff`: it ends
    so but for an image without words beyond the first register.
-/
import WordMachine.Proofs.WellFormed

namespace WordMachine

/-! ## The words of a byte string -/

namespace Image

/-- The words of a byte string, the low byte of each first.  A last byte on its own is left out. -/
def words : List UInt8 → List Word
  | low :: high :: bytes => .ofBytes low high :: words bytes
  | _ => []

variable {bytes : List UInt8} {ws : List Word}

@[simp] theorem words_encode (ws : List Word) : words (encode ws) = ws := by
  induction ws with
  | nil => rfl
  | cons w ws ih =>
    have hw := Word.ofBytes_low_high w
    simp only [encode, List.flatMap_cons, List.cons_append, List.nil_append, words] at ih ⊢
    rw [hw, ih]

theorem encode_words (h : bytes.length % 2 = 0) : encode (words bytes) = bytes := by
  fun_induction words bytes with
  | case1 low high bytes ih =>
    have hrest : bytes.length % 2 = 0 := by
      rwa [List.length_cons, List.length_cons, Nat.add_assoc, Nat.add_mod_right] at h
    have hbytes : encode (.ofBytes low high :: words bytes) =
        low :: high :: encode (words bytes) := by
      simp [encode]
    rw [hbytes, ih hrest]
  | case2 bytes hshort =>
    rcases bytes with _ | ⟨low, _ | ⟨high, bytes⟩⟩
    · rfl
    · cases h
    · exact absurd rfl (hshort low high bytes)

/-- A byte string has an odd length, or it is an image. -/
theorem odd_or_encode (bytes : List UInt8) :
    bytes.length % 2 = 1 ∨ ∃ ws, bytes = encode ws := by
  rcases Nat.mod_two_eq_zero_or_one bytes.length with h | h
  · exact Or.inr ⟨words bytes, (encode_words h).symm⟩
  · exact Or.inl h

theorem length_encode_mod (ws : List Word) : (encode ws).length % 2 = 0 := by
  rw [length_encode, Nat.mul_mod_right]

theorem length_encode_div (ws : List Word) : (encode ws).length / 2 = ws.length := by
  rw [length_encode, Nat.mul_div_cancel_left _ Nat.two_pos]

theorem encode_eq_nil_iff : encode ws = [] ↔ ws = [] := by
  rw [← List.length_eq_zero_iff, length_encode, ← List.length_eq_zero_iff]
  omega

theorem decode?_encode (ws : List Word) : decode? (encode ws) = some ws :=
  decode?_eq_some_iff.mpr rfl

theorem decode?_of_odd (h : bytes.length % 2 = 1) : decode? bytes = none := by
  rcases hd : decode? bytes with _ | ws
  · rfl
  · rw [decode?_eq_some_iff.mp hd, length_encode_mod] at h
    cases h

end Image

namespace Store

variable {s t : Store} {base : Word} {image : List UInt8} {words : List Word}

/-! ## A block of cells -/

/-- The words in so many cells from a position on. -/
def block (s : Store) (p n : Nat) : List Word := (List.range n).map fun j => s.word (p + j)

/-- The store `t` is the store `s` with the words in the cells from a position on. -/
structure Loaded (s : Store) (p : Nat) (words : List Word) (t : Store) : Prop where
  block : t.block p words.length = words
  elsewhere : ∀ i < addressCount, (i < p ∨ p + words.length ≤ i) → t.word i = s.word i
  pc : t.pc = s.pc

theorem loaded_overwrite (s : Store) (p : Nat) (words : List Word)
    (h : p + words.length ≤ addressCount) :
    s.Loaded p words { s with cells := overwrite s.cells p words h } where
  block := by
    refine List.ext_getElem (by simp [Store.block]) fun j _ hj => ?_
    have hbelow : p + j < addressCount := by omega
    simp only [Store.block, List.getElem_map, List.getElem_range]
    rw [word_overwrite _ _ h hbelow, if_pos (Nat.le_add_right p j), Nat.add_sub_cancel_left,
      List.getElem?_eq_getElem hj]
    rfl
  elsewhere i hi hout := by
    rw [word_overwrite _ _ h hi]
    split
    · have hbehind : words[i - p]? = none := List.getElem?_eq_none (by omega)
      rw [hbehind]
      rfl
    · rfl
  pc := rfl

/-! ## How loading ends -/

theorem loadImage_of_odd (h : image.length % 2 = 1) :
    loadImage image base s = ⟨.error (.load (.oddLength image.length)), s, []⟩ := by
  rw [loadImage, Image.decode?_of_odd h]
  rfl

theorem loadImage_of_no_room (h : room base < words.length) :
    loadImage (Image.encode words) base s =
      ⟨.error (.load (.tooLong words.length base)), s, []⟩ := by
  rw [loadImage, Image.decode?_encode]
  simp only [if_pos h]
  rfl

/-- With room for its words, an image is loaded as a block is written. -/
theorem loadImage_of_room (h : ¬ room base < words.length) :
    loadImage (Image.encode words) base s =
      (writeBlock base words >>= fun _ => Action.note (.loaded words.length base)) s := by
  rw [loadImage, Image.decode?_encode]
  simp only [if_neg h]

theorem room_of_fits (h : base.toNat + words.length ≤ valueCount) :
    ¬ room base < words.length := by
  rw [room]
  omega

theorem loadImage_of_fits (h : base.toNat + words.length ≤ valueCount)
    (hw : ∀ w ∈ words, w.IsAddress) :
    loadImage (Image.encode words) base s = ⟨.ok (), { s with
      cells := overwrite s.cells base.toNat words (Nat.le_trans h (by decide)) },
      [.loaded words.length base]⟩ := by
  rw [loadImage_of_room (room_of_fits h), Action.bind_ok (writeBlock_eq h hw)]
  rfl

theorem loadImage_of_find? {w : Word} (h : base.toNat + words.length ≤ valueCount)
    (hw : words.find? (fun w => ¬ w.IsAddress) = some w) :
    loadImage (Image.encode words) base s = ⟨.error (.valueRange w.toNat), s, []⟩ := by
  rw [loadImage_of_room (room_of_fits h), Action.bind_error (writeBlock_of_find? h hw)]

/-- Beyond the first register there is room for no word, but no words need none, and so it is the
    block that does not fit. -/
theorem loadImage_nil_of_beyond (h : valueCount < base.toNat) :
    loadImage [] base s = ⟨.error (.addressRange (base.toNat - 1)), s, []⟩ := by
  have hfit : ¬ base.toNat + ([] : List Word).length ≤ valueCount := Nat.not_le.mpr h
  have hroom : ¬ room base < ([] : List Word).length := Nat.not_lt_zero _
  exact (loadImage_of_room hroom).trans (Action.bind_error (writeBlock_of_not_fits hfit))

/-- How loading an image at a base can end. -/
inductive Loading (s : Store) (base : Word) : List UInt8 → Ran Store Unit → Prop
  | odd {image : List UInt8} : image.length % 2 = 1 →
      Loading s base image ⟨.error (.load (.oddLength image.length)), s, []⟩
  | tooLong {words : List Word} : words ≠ [] → valueCount < base.toNat + words.length →
      Loading s base (Image.encode words) ⟨.error (.load (.tooLong words.length base)), s, []⟩
  | beyond : valueCount < base.toNat →
      Loading s base [] ⟨.error (.addressRange (base.toNat - 1)), s, []⟩
  | improper {words : List Word} {w : Word} : base.toNat + words.length ≤ valueCount →
      words.find? (fun w => ¬ w.IsAddress) = some w →
      Loading s base (Image.encode words) ⟨.error (.valueRange w.toNat), s, []⟩
  | loaded {words : List Word} {t : Store} : base.toNat + words.length ≤ valueCount →
      (∀ w ∈ words, w.IsAddress) → s.Loaded base.toNat words t →
      Loading s base (Image.encode words) ⟨.ok (), t, [.loaded words.length base]⟩

/-- **Loading ends in one of five ways.** -/
theorem loading (s : Store) (base : Word) (image : List UInt8) :
    Loading s base image (loadImage image base s) := by
  rcases Image.odd_or_encode image with hodd | ⟨words, rfl⟩
  · rw [loadImage_of_odd hodd]
    exact .odd hodd
  · by_cases hfit : base.toNat + words.length ≤ valueCount
    · rcases hw : words.find? (fun w => ¬ w.IsAddress) with _ | w
      · have hproper := find?_eq_none_iff.mp hw
        rw [loadImage_of_fits hfit hproper]
        exact .loaded hfit hproper (loaded_overwrite _ _ _ _)
      · rw [loadImage_of_find? hfit hw]
        exact .improper hfit hw
    · cases words with
      | nil =>
        have hbeyond : valueCount < base.toNat := Nat.lt_of_not_le hfit
        exact (loadImage_nil_of_beyond (s := s) hbeyond).symm ▸ .beyond hbeyond
      | cons w words =>
        have hroom : room base < (w :: words).length := by
          rw [room, List.length_cons]
          rw [List.length_cons] at hfit
          omega
        rw [loadImage_of_no_room hroom]
        exact .tooLong (List.cons_ne_nil _ _) (Nat.lt_of_not_le hfit)

/-! ## There and back -/

/-- **Loading and encoding are each other's inverse, and loading is all or nothing.**  Words that fit
    below the registers are found in the store after their encoding was loaded, and nothing else has
    changed.  Of an image that was loaded, the cells are the words.  One that was not has changed
    nothing.  To start from an image is to load it at address zero of the empty store. -/
theorem loading_inverts_encoding (s : Store) (base : Word) :
    (∀ words : List Word, (∀ w ∈ words, w.IsAddress) → base.toNat + words.length ≤ valueCount →
      (loadImage (Image.encode words) base s).outcome = .ok () ∧
        s.Loaded base.toNat words (loadImage (Image.encode words) base s).state) ∧
    (∀ image, (loadImage image base s).outcome = .ok () →
      Image.encode ((loadImage image base s).state.block base.toNat (image.length / 2)) = image) ∧
    (∀ image fault, (loadImage image base s).outcome = .error fault →
      (loadImage image base s).state = s) ∧
    ∀ image, ofImage image = loadImage image 0 empty := by
  refine ⟨fun words hw hfit => ?_, fun image hok => ?_, fun image fault herror => ?_, fun _ => rfl⟩
  · rw [loadImage_of_fits hfit hw]
    exact ⟨rfl, loaded_overwrite _ _ _ _⟩
  · have hload := loading s base image
    generalize loadImage image base s = r at hload hok ⊢
    cases hload with
    | loaded _ _ hloaded => rw [Image.length_encode_div, hloaded.block]
    | odd | tooLong | beyond | improper => cases hok
  · have hload := loading s base image
    generalize loadImage image base s = r at hload herror ⊢
    cases hload with
    | loaded => cases herror
    | odd | tooLong | beyond | improper => rfl

/-- An image that fills ordinary memory to its end, and one with a word that is no address. -/
theorem loading_inverts_encoding_at_end :
    let s := (loadImage [9, 0, 0, 128, 40, 0, 99, 0] 32764 empty).state
    s.block 32764 4 = [9, 32768, 40, 99] ∧ s.word 32768 = 0 ∧
      Image.encode (s.block 32764 4) = [9, 0, 0, 128, 40, 0, 99, 0] ∧
      (loadImage [1, 0, 8, 128] 32764 s).state = s := by
  intro s
  have hwords : ∀ w ∈ ([9, 32768, 40, 99] : List Word), w.IsAddress := by
    simp [Word.IsAddress]
  have hfit : (32764 : Word).toNat + [9, 32768, 40, 99].length ≤ valueCount := by decide
  obtain ⟨hok, hloaded⟩ := (loading_inverts_encoding empty 32764).1 _ hwords hfit
  have hfault : loadImage (Image.encode [1, 32776]) 32764 s = ⟨.error (.valueRange 32776), s, []⟩ :=
    loadImage_of_find? (w := 32776) (by decide) (by decide +kernel)
  refine ⟨hloaded.block, ?_, ?_, ?_⟩
  · exact (hloaded.elsewhere 32768 (by decide) (Or.inr (by decide))).trans (word_empty _)
  · exact (loading_inverts_encoding empty 32764).2.1 _ hok
  · exact (loading_inverts_encoding s 32764).2.2.1 _ _ (congrArg Ran.outcome hfault)

/-! ## How loading is specified to end -/

/-- An image of an odd length, or without room below the registers, is malformed.  Otherwise the
    first word that is no address is the fault, if there is one. -/
def AsSpecified (image : List UInt8) (base : Word) (outcome : Except Fault Unit) : Prop :=
  if image.length % 2 = 1 then ∃ defect, outcome = .error (.load defect)
  else if valueCount < base.toNat + image.length / 2 then ∃ defect, outcome = .error (.load defect)
  else match (Image.words image).find? fun w => ¬ w.IsAddress with
    | some w => outcome = .error (.valueRange w.toNat)
    | none => outcome = .ok ()

theorem asSpecified_of_odd {outcome : Except Fault Unit} (h : image.length % 2 = 1) :
    AsSpecified image base outcome ↔ ∃ defect, outcome = .error (.load defect) := by
  rw [AsSpecified, if_pos h]

theorem asSpecified_encode (words : List Word) (base : Word) (outcome : Except Fault Unit) :
    AsSpecified (Image.encode words) base outcome ↔
      if valueCount < base.toNat + words.length then ∃ defect, outcome = .error (.load defect)
      else match words.find? fun w => ¬ w.IsAddress with
        | some w => outcome = .error (.valueRange w.toNat)
        | none => outcome = .ok () := by
  have heven : ¬ (Image.encode words).length % 2 = 1 := by
    rw [Image.length_encode_mod]
    exact Nat.zero_ne_one
  rw [AsSpecified, if_neg heven, Image.length_encode_div, Image.words_encode]

theorem asSpecified_of_fits {outcome : Except Fault Unit}
    (h : base.toNat + words.length ≤ valueCount) :
    AsSpecified (Image.encode words) base outcome ↔
      match words.find? fun w => ¬ w.IsAddress with
      | some w => outcome = .error (.valueRange w.toNat)
      | none => outcome = .ok () := by
  rw [asSpecified_encode, if_neg (Nat.not_lt.mpr h)]

theorem asSpecified_of_beyond {outcome : Except Fault Unit}
    (h : valueCount < base.toNat + words.length) :
    AsSpecified (Image.encode words) base outcome ↔ ∃ defect, outcome = .error (.load defect) := by
  rw [asSpecified_encode, if_pos h]

/-- No address is a fault that an image is specified to have. -/
theorem not_asSpecified_nil {a : Nat} (h : valueCount < base.toNat) :
    ¬ AsSpecified [] base (.error (.addressRange a)) := by
  have hbeyond : valueCount < base.toNat + ([] : List Word).length := h
  intro hspec
  obtain ⟨defect, hdefect⟩ := (asSpecified_of_beyond hbeyond).mp hspec
  cases hdefect

/-- **Loading ends as it is specified, but for an image without words beyond the first register.**
    That one fails with an address. -/
theorem loadImage_asSpecified_iff (s : Store) (base : Word) (image : List UInt8) :
    (AsSpecified image base (loadImage image base s).outcome ↔
      ¬ (image = [] ∧ valueCount < base.toNat)) ∧
    ∀ a, (loadImage image base s).outcome = .error (.addressRange a) ↔
      image = [] ∧ valueCount < base.toNat ∧ a = base.toNat - 1 := by
  have hload := loading s base image
  generalize loadImage image base s = r at hload ⊢
  cases hload with
  | odd hodd =>
    have hne : image ≠ [] := by
      rintro rfl
      cases hodd
    exact ⟨iff_of_true ((asSpecified_of_odd hodd).mpr ⟨_, rfl⟩) fun h => hne h.1,
      fun a => iff_of_false nofun fun h => hne h.1⟩
  | tooLong hne hlong =>
    have hne' := mt Image.encode_eq_nil_iff.mp hne
    exact ⟨iff_of_true ((asSpecified_of_beyond hlong).mpr ⟨_, rfl⟩) fun h => hne' h.1,
      fun a => iff_of_false nofun fun h => hne' h.1⟩
  | beyond hbeyond =>
    refine ⟨iff_of_false (fun h => ?_) fun h => h ⟨rfl, hbeyond⟩, fun a => ⟨?_, ?_⟩⟩
    · exact not_asSpecified_nil hbeyond h
    · rintro ⟨⟩
      exact ⟨rfl, hbeyond, rfl⟩
    · rintro ⟨-, -, rfl⟩
      rfl
  | improper hfit hw =>
    have hbase : ¬ valueCount < base.toNat := by omega
    exact ⟨iff_of_true ((asSpecified_of_fits hfit).mpr (by rw [hw])) fun h => hbase h.2,
      fun a => iff_of_false nofun fun h => hbase h.2.1⟩
  | @loaded words _ hfit hw =>
    have hbase : ¬ valueCount < base.toNat := by omega
    have hnone := find?_eq_none_iff.mpr hw
    exact ⟨iff_of_true ((asSpecified_of_fits hfit).mpr (by rw [hnone])) fun h => hbase h.2,
      fun a => iff_of_false nofun fun h => hbase h.2.1⟩

/-- An image without words, at the address 40000. -/
theorem not_asSpecified_loadImage_nil :
    ¬ AsSpecified [] 40000 (loadImage [] 40000 empty).outcome := by
  have hbeyond : valueCount < (40000 : Word).toNat := by decide
  rw [loadImage_nil_of_beyond hbeyond]
  exact not_asSpecified_nil hbeyond

end Store

end WordMachine
