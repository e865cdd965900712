/-
  The lines of a source.

  A line is a run of bytes that ends after a newline.  What is left behind the last newline is a
  line as well if the source ends there; if it fails there, that line never ends.

  * `cutAfter a l` cuts a list after each `a`: bytes into lines, with `a` the newline, and a text
    into its lines (`linesThrough`);
  * `Source.textOf` is what a line of bytes reads as;
  * `readLine_of_newline`, `readLine_of_last`, `readLine_of_cut`: what reading takes from a source;
  * `Source.ofText` is the source that holds a text, whose lines are read one by one
    (`readLine_ofText`).
-/
import WordMachine.Device
import Mathlib.Data.List.SplitBy
import Mathlib.Data.List.TakeDrop
import Mathlib.Data.List.TakeWhile

namespace WordMachine

/-! ## Cutting a list -/

section

variable {α : Type} [DecidableEq α] {a : α} {l front : List α}

/-- The runs of a list, each but the last up to and with the next `a`. -/
def cutAfter (a : α) (l : List α) : List (List α) := l.splitBy fun x _ => x ≠ a

@[simp] theorem cutAfter_nil (a : α) : cutAfter a [] = [] := rfl

@[simp] theorem flatten_cutAfter (a : α) (l : List α) : (cutAfter a l).flatten = l :=
  List.flatten_splitBy _ l

theorem isChain_of_not_mem (h : a ∉ l) : l.IsChain fun x _ => decide (x ≠ a) = true := by
  induction l with
  | nil => exact .nil
  | cons x l ih =>
    rw [List.mem_cons, not_or] at h
    exact List.isChain_cons.mpr ⟨fun _ _ => decide_eq_true (Ne.symm h.1), ih h.2⟩

theorem cutAfter_of_not_mem (hne : l ≠ []) (h : a ∉ l) : cutAfter a l = [l] :=
  List.splitBy_of_isChain hne (isChain_of_not_mem h)

theorem cutAfter_append_cons (h : a ∉ front) (rest : List α) :
    cutAfter a (front ++ a :: rest) = (front ++ [a]) :: cutAfter a rest := by
  have hrun : (front ++ [a]).IsChain fun x _ => decide (x ≠ a) = true := by
    refine List.isChain_append.mpr ⟨isChain_of_not_mem h, .singleton a, fun x hx _ _ => ?_⟩
    exact decide_eq_true fun hxa => h (hxa ▸ List.mem_of_getLast? hx)
  have hend : ∀ x ∈ (front ++ [a]).getLast?, ∀ y ∈ rest.head?, decide (x ≠ a) = false := by
    intro x hx _ _
    rw [List.getLast?_concat, Option.mem_some] at hx
    simp [hx]
  calc cutAfter a (front ++ a :: rest)
      = cutAfter a ((front ++ [a]) ++ rest) := by rw [List.append_assoc]; rfl
    _ = (front ++ [a]) :: cutAfter a rest := by
      rw [cutAfter, List.splitBy_append hend, List.splitBy_of_isChain (by simp) hrun]
      rfl

/-- A list is empty, or one run without an end, or it has a first run. -/
theorem eq_nil_or_run (a : α) (l : List α) :
    l = [] ∨ (l ≠ [] ∧ a ∉ l) ∨ ∃ front rest, a ∉ front ∧ l = front ++ a :: rest := by
  by_cases h : a ∈ l
  · obtain ⟨front, rest, rfl, hfront⟩ := List.eq_append_cons_of_mem h
    exact Or.inr (Or.inr ⟨front, rest, hfront, rfl⟩)
  · by_cases hne : l = []
    · exact Or.inl hne
    · exact Or.inr (Or.inl ⟨hne, h⟩)

/-- A run holds `a` at its end only. -/
theorem exists_of_mem_cutAfter {run : List α} (h : run ∈ cutAfter a l) :
    ∃ front, a ∉ front ∧ (run = front ∨ run = front ++ [a]) := by
  induction hn : l.length using Nat.strong_induction_on generalizing l with
  | _ n ih =>
    rcases eq_nil_or_run a l with rfl | ⟨hne, hl⟩ | ⟨front, rest, hfront, rfl⟩
    · exact absurd h List.not_mem_nil
    · rw [cutAfter_of_not_mem hne hl, List.mem_singleton] at h
      exact ⟨l, hl, Or.inl h⟩
    · rw [cutAfter_append_cons hfront, List.mem_cons] at h
      rcases h with rfl | h
      · exact ⟨front, hfront, Or.inr rfl⟩
      · refine ih rest.length ?_ h rfl
        simp only [List.length_append, List.length_cons] at hn
        omega

theorem span_of_not_mem (h : a ∉ l) : l.span (· ≠ a) = (l, []) := by
  have hne : ∀ x ∈ l, decide (x ≠ a) = true := fun x hx => decide_eq_true fun hxa => h (hxa ▸ hx)
  rw [List.span_eq_takeWhile_dropWhile, List.takeWhile_eq_self_iff.mpr hne,
    List.dropWhile_eq_nil_iff.mpr hne]

theorem span_append_cons (h : a ∉ front) (rest : List α) :
    (front ++ a :: rest).span (· ≠ a) = (front, a :: rest) := by
  have hne : ∀ x ∈ front, decide (x ≠ a) = true :=
    fun x hx => decide_eq_true fun hxa => h (hxa ▸ hx)
  rw [List.span_eq_takeWhile_dropWhile, List.takeWhile_append_of_pos hne,
    List.dropWhile_append_of_pos hne]
  simp

end

/-! ## Reading a line -/

namespace Source

variable {bytes front : List UInt8} {text : String}

/-- What a line of bytes reads as. -/
def textOf (line : List UInt8) : Except Fault String :=
  match String.fromUTF8? line.toByteArray with
  | some text => .ok text
  | none => .error (.device .malformedText)

theorem readLine_of_newline (h : newline ∉ front) (rest : List UInt8) (failure : Option String) :
    readLine ⟨front ++ newline :: rest, failure⟩ =
      ⟨textOf (front ++ [newline]), ⟨rest, failure⟩, []⟩ := by
  have hline : front ++ (newline :: rest).take 1 = front ++ [newline] := rfl
  unfold readLine textOf
  simp only [span_append_cons h]
  cases failure with
  | none =>
    simp only [hline]
    rcases String.fromUTF8? (front ++ [newline]).toByteArray with _ | text
    · rfl
    · rfl
  | some reported =>
    simp only [hline]
    rcases String.fromUTF8? (front ++ [newline]).toByteArray with _ | text
    · rfl
    · rfl

theorem readLine_of_last (hne : bytes ≠ []) (h : newline ∉ bytes) :
    readLine ⟨bytes, none⟩ = ⟨textOf bytes, ⟨[], none⟩, []⟩ := by
  obtain ⟨first, others, rfl⟩ := List.exists_cons_of_ne_nil hne
  have hline : first :: others ++ ([] : List UInt8).take 1 = first :: others :=
    List.append_nil (first :: others)
  unfold readLine textOf
  simp only [span_of_not_mem h, hline]
  rcases String.fromUTF8? (first :: others).toByteArray with _ | text
  · rfl
  · rfl

theorem readLine_of_cut (h : newline ∉ bytes) (text : String) :
    readLine ⟨bytes, some text⟩ =
      ⟨.error (.device (.reported text)), ⟨[], some text⟩, []⟩ := by
  unfold readLine
  simp only [span_of_not_mem h]

theorem readLine_of_nil : readLine ⟨[], none⟩ = ⟨.error .inputExhausted, ⟨[], none⟩, []⟩ := rfl

/-! ## Sources of text -/

/-- The source that holds a text and ends after it. -/
def ofText (text : String) : Source := ⟨text.toUTF8.data.toList, none⟩

theorem ofText_ofList (text : List Char) :
    ofText (String.ofList text) = ⟨text.flatMap String.utf8EncodeChar, none⟩ := by
  rw [ofText, String.toUTF8, String.toByteArray_ofList, List.utf8Encode, List.data_toByteArray]

/-- The newline is one byte, and this byte is in no other character. -/
theorem newline_mem_utf8EncodeChar {c : Char} :
    newline ∈ String.utf8EncodeChar c ↔ c = '\n' := by
  have hc : c = '\n' ↔ c.val.toNat = 10 := by
    rw [← Char.toNat_inj]; rfl
  have hb (n : Nat) : newline = UInt8.ofNat n ↔ n % 256 = 10 := by
    rw [← UInt8.toNat_inj, UInt8.toNat_ofNat', eq_comm]; rfl
  rw [hc]
  simp only [String.utf8EncodeChar]
  split
  · simp only [List.mem_singleton, hb]; omega
  · split
    · simp only [List.mem_cons, List.not_mem_nil, or_false, hb]; omega
    · split
      · simp only [List.mem_cons, List.not_mem_nil, or_false, hb]; omega
      · simp only [List.mem_cons, List.not_mem_nil, or_false, hb]; omega

theorem newline_mem_encode {text : List Char} :
    newline ∈ text.flatMap String.utf8EncodeChar ↔ '\n' ∈ text := by
  simp only [List.mem_flatMap, newline_mem_utf8EncodeChar, exists_eq_right]

theorem textOf_encode (text : List Char) :
    textOf (text.flatMap String.utf8EncodeChar) = .ok (String.ofList text) := by
  have hvalid : (text.flatMap String.utf8EncodeChar).toByteArray.IsValidUTF8 :=
    ByteArray.isValidUTF8_utf8Encode
  rw [textOf, String.fromUTF8?, dif_pos hvalid]
  rfl

theorem textOf_ofText (text : String) : textOf (ofText text).bytes = .ok text := by
  obtain ⟨text, rfl⟩ : ∃ l, text = String.ofList l := ⟨text.toList, String.ofList_toList.symm⟩
  rw [ofText_ofList, textOf_encode]

end Source

/-- The lines of a text, each with the newline that ends it. -/
def linesThrough (text : String) : List String :=
  (cutAfter '\n' text.toList).map String.ofList

namespace Source

/-- **The lines of a text are read one by one.** -/
theorem readLine_ofText (text : String) :
    (linesThrough text = [] ∧
        readLine (ofText text) = ⟨.error .inputExhausted, ofText text, []⟩) ∨
      ∃ line text', linesThrough text = line :: linesThrough text' ∧
        readLine (ofText text) = ⟨.ok line, ofText text', []⟩ := by
  obtain ⟨text, rfl⟩ : ∃ l, text = String.ofList l := ⟨text.toList, String.ofList_toList.symm⟩
  simp only [linesThrough, String.toList_ofList, ofText_ofList]
  rcases eq_nil_or_run '\n' text with rfl | ⟨hne, h⟩ | ⟨front, rest, h, rfl⟩
  · exact Or.inl ⟨rfl, readLine_of_nil⟩
  · refine Or.inr ⟨String.ofList text, String.ofList [], ?_, ?_⟩
    · rw [cutAfter_of_not_mem hne h, String.toList_ofList]
      rfl
    · have hbytes : text.flatMap String.utf8EncodeChar ≠ [] := by
        obtain ⟨c, hc⟩ := List.exists_mem_of_ne_nil text hne
        exact fun h0 => String.utf8EncodeChar_ne_nil (List.flatMap_eq_nil_iff.mp h0 c hc)
      rw [readLine_of_last hbytes (newline_mem_encode.not.mpr h), textOf_encode, ofText_ofList]
      rfl
  · refine Or.inr ⟨String.ofList (front ++ ['\n']), String.ofList rest, ?_, ?_⟩
    · rw [cutAfter_append_cons h, String.toList_ofList]
      rfl
    · have hend : front.flatMap String.utf8EncodeChar ++ [newline] =
          (front ++ ['\n']).flatMap String.utf8EncodeChar := by
        rw [List.flatMap_append]; rfl
      have hbytes : (front ++ '\n' :: rest).flatMap String.utf8EncodeChar =
          front.flatMap String.utf8EncodeChar ++ newline :: rest.flatMap String.utf8EncodeChar := by
        rw [List.flatMap_append]; rfl
      rw [hbytes, readLine_of_newline (newline_mem_encode.not.mpr h), hend, textOf_encode,
        ofText_ofList]

end Source

end WordMachine
