/-
  Output to a sink that fills up.

  A sink with room for so many bytes cuts off what is written at a byte, which may be in the midst
  of a character.  A transcript holds whole characters: those whose bytes all found room.

  * `Console.encoded`: the bytes that codes are written as; `attempted`: the codes that a list of
    uses writes, and `Console.succeeded`: those of them that are written without a fault;
  * `Fitting limit codes whole`: with room for so many bytes, `whole` is all that fits of the codes;
  * `Sink.write_take`: a write to a sink that holds the first bytes of a text;
  * `Sink.Truncated`: the sink holds the first bytes of its codes; `truncated_use`,
    `truncated_serve`: each use keeps this, and so does a list of them;
  * `limited_sink_truncates`: what the sink and the transcript hold then, and which writes fail.
-/
import WordMachine.Proofs.Conversation

namespace WordMachine

open WordMachine.Action

/-- A sink with room for so many bytes, before anything was written. -/
def Sink.limited (limit : Nat) (flushFailure : Option String) : Sink :=
  ⟨#[], some limit, flushFailure, 0⟩

/-- The codes that a use writes. -/
def Use.codes : Use → List Word
  | .write code => [code]
  | _ => []

/-- The codes that the uses write, whether or not there is room for them. -/
def attempted (uses : List Use) : List Word := uses.flatMap Use.codes

namespace Console

variable {console : Console} {codes whole : List Word} {code : Word} {limit : Nat}

/-! ## The bytes of codes -/

/-- The bytes that codes are written as, one after the other. -/
def encoded (codes : List Word) : List UInt8 :=
  codes.flatMap fun code => String.utf8EncodeChar (charOf code)

@[simp] theorem encoded_append (codes codes' : List Word) :
    encoded (codes ++ codes') = encoded codes ++ encoded codes' := List.flatMap_append

@[simp] theorem encoded_singleton (code : Word) :
    encoded [code] = String.utf8EncodeChar (charOf code) := List.flatMap_singleton _ _

theorem length_encoded_le (h : codes <+: whole) :
    (encoded codes).length ≤ (encoded whole).length := by
  obtain ⟨rest, rfl⟩ := h
  rw [encoded_append, List.length_append]
  exact Nat.le_add_right _ _

theorem isValidUTF8_encoded (codes : List Word) : (encoded codes).toByteArray.IsValidUTF8 := by
  have hchars : encoded codes = (codes.map charOf).flatMap String.utf8EncodeChar := by
    rw [List.flatMap_map, encoded]
  rw [hchars]
  exact ByteArray.isValidUTF8_utf8Encode

/-- A code has 16 bits, and its character three bytes at most. -/
theorem length_utf8EncodeChar_charOf_le (code : Word) :
    (String.utf8EncodeChar (charOf code)).length ≤ 3 := by
  have hlt : (charOf code).toNat < 65536 := by
    rw [charOf]
    rcases hc : char? code with _ | c
    · decide
    · rw [Option.getD_some, char?_eq_some_iff.mp hc]
      exact code.toNat_lt
  have hle : (charOf code).val ≤ 65535 := by
    rw [UInt32.le_iff_toNat_le]
    exact Nat.le_of_lt_succ hlt
  rw [String.length_utf8EncodeChar, Char.utf8Size]
  split
  · decide
  · split
    · decide
    · exact Nat.le_of_eq (if_pos hle)

/-! ## What fits -/

/-- With room for so many bytes, `whole` is the front of the codes that fits: there are no others,
    or the next one has too many bytes. -/
structure Fitting (limit : Nat) (codes whole : List Word) : Prop where
  front : whole <+: codes
  fits : (encoded whole).length ≤ limit
  next : whole = codes ∨ ∃ code, whole ++ [code] <+: codes ∧
    limit < (encoded (whole ++ [code])).length

namespace Fitting

theorem nil (limit : Nat) : Fitting limit [] [] := ⟨List.prefix_refl [], Nat.zero_le _, Or.inl rfl⟩

/-- If there is room for all codes, all of them fit. -/
theorem eq_of_length_le (h : Fitting limit codes whole) (hle : (encoded codes).length ≤ limit) :
    whole = codes := by
  rcases h.next with heq | ⟨code, hfront, hlt⟩
  · exact heq
  · exact absurd (Nat.le_trans (length_encoded_le hfront) hle) (Nat.not_le_of_lt hlt)

theorem concat_of_le (h : Fitting limit codes whole)
    (hle : (encoded (codes ++ [code])).length ≤ limit) :
    Fitting limit (codes ++ [code]) (whole ++ [code]) := by
  have hcodes := length_encoded_le (List.prefix_append codes [code])
  obtain rfl := h.eq_of_length_le (Nat.le_trans hcodes hle)
  exact ⟨List.prefix_refl _, hle, Or.inl rfl⟩

/-- A code without room for it changes nothing. -/
theorem concat_of_lt (h : Fitting limit codes whole)
    (hlt : limit < (encoded (codes ++ [code])).length) : Fitting limit (codes ++ [code]) whole := by
  refine ⟨h.front.trans (List.prefix_append codes [code]), h.fits, Or.inr ?_⟩
  rcases h.next with rfl | ⟨next, hfront, hnext⟩
  · exact ⟨code, List.prefix_refl _, hlt⟩
  · exact ⟨next, hfront.trans (List.prefix_append codes [code]), hnext⟩

/-- What fits is found in front, and of the code behind it there are two bytes at most. -/
theorem prefix_take (h : Fitting limit codes whole) :
    encoded whole <+: (encoded codes).take limit ∧
      ((encoded codes).take limit).length ≤ (encoded whole).length + 2 := by
  obtain ⟨rest, hrest⟩ := h.front
  have hfront : encoded whole <+: encoded codes := by
    rw [← hrest, encoded_append]
    exact List.prefix_append _ _
  refine ⟨List.prefix_take_iff.mpr ⟨hfront, h.fits⟩, ?_⟩
  rw [List.length_take]
  rcases h.next with rfl | ⟨code, -, hlt⟩
  · omega
  · have hthree := length_utf8EncodeChar_charOf_le code
    rw [encoded_append, List.length_append, encoded_singleton] at hlt
    omega

end Fitting

end Console

/-! ## The sink -/

namespace Sink

open Console (encoded Fitting)

variable {sink : Sink} {limit : Nat} {front bytes : List UInt8} {codes whole : List Word}

/-- To a sink that holds the first bytes of a text, more of the text is written.  That succeeds
    where there is room for all of it, and in any case the sink holds the first bytes. -/
theorem write_take (hcapacity : sink.capacity = some limit)
    (hwritten : sink.written.toList = front.take limit) (hne : bytes ≠ []) :
    (write bytes sink).outcome =
        (if (front ++ bytes).length ≤ limit then .ok () else .error (.device .full)) ∧
      (write bytes sink).state.capacity = some limit ∧
      (write bytes sink).state.written.toList = (front ++ bytes).take limit := by
  have hpos : 0 < bytes.length := List.length_pos_iff.mpr hne
  have hsize : sink.written.size = min limit front.length := by
    rw [← Array.length_toList, hwritten, List.length_take]
  rw [List.length_append]
  by_cases hfit : front.length + bytes.length ≤ limit
  · have hfits : sink.Fits bytes := by
      simp only [Fits, hcapacity]
      omega
    rw [write_of_fits hfits, if_pos hfit]
    refine ⟨rfl, hcapacity, ?_⟩
    have hfront : front.length ≤ limit := Nat.le_trans (Nat.le_add_right _ _) hfit
    rw [Array.toList_appendList, hwritten, List.take_of_length_le hfront,
      List.take_of_length_le (by rwa [List.length_append])]
  · rw [write_of_not_fits hcapacity (by omega), if_neg hfit]
    refine ⟨rfl, hcapacity, ?_⟩
    have hroom : limit - sink.written.size = limit - front.length := by omega
    rw [Array.toList_appendList, hwritten, hroom, List.take_append]

/-- The sink holds the first bytes of the codes, and these are the codes that found room. -/
structure Truncated (limit : Nat) (codes whole : List Word) (sink : Sink) : Prop where
  capacity : sink.capacity = some limit
  written : sink.written.toList = (encoded codes).take limit
  fitting : Fitting limit codes whole

theorem truncated_limited (limit : Nat) (flushFailure : Option String) :
    (limited limit flushFailure).Truncated limit [] [] :=
  ⟨rfl, List.take_nil.symm, .nil limit⟩

theorem Truncated.flushed (h : sink.Truncated limit codes whole) :
    sink.flushed.Truncated limit codes whole :=
  ⟨h.capacity, h.written, h.fitting⟩

end Sink

namespace Console

variable {console : Console} {codes whole : List Word} {limit : Nat}

theorem attempted_front (uses uses' : List Use) (code code' : Word) :
    attempted uses ++ [code] <+: attempted (uses ++ .write code :: uses') ++ [code'] := by
  refine ⟨attempted uses' ++ [code'], ?_⟩
  simp only [attempted, List.flatMap_append, List.flatMap_cons, Use.codes, List.append_assoc]

/-! ## Writing characters -/

/-- Writing a character does to the sink what writing its bytes does, and succeeds with it. -/
theorem sink_writeChar (code : Word) (console : Console) :
    (writeChar code console).outcome =
        (Sink.write (String.utf8EncodeChar (charOf code)) console.sink).outcome ∧
      (writeChar code console).state.sink =
        (Sink.write (String.utf8EncodeChar (charOf code)) console.sink).state := by
  rcases hw : Sink.write (String.utf8EncodeChar (charOf code)) console.sink with
    ⟨fault | ⟨⟨⟩⟩, sink, log⟩
  · obtain ⟨hout, hstate⟩ := writeChar_of_error hw
    exact ⟨hout, congrArg Console.sink hstate⟩
  · obtain ⟨hout, hstate⟩ := writeChar_of_ok hw
    exact ⟨hout, congrArg Console.sink hstate⟩

theorem outcome_writeChar_of_truncated (h : console.sink.Truncated limit codes whole)
    (code : Word) : (writeChar code console).outcome =
      if (encoded (codes ++ [code])).length ≤ limit then .ok () else .error (.device .full) := by
  rw [(sink_writeChar code console).1, encoded_append, encoded_singleton]
  exact (Sink.write_take h.capacity h.written String.utf8EncodeChar_ne_nil).1

/-- The code that a use writes, if that succeeds. -/
def wrote : Use → Console → List Word
  | .write code, console =>
    match (writeChar code console).outcome with
    | .ok () => [code]
    | .error _ => []
  | _, _ => []

/-- The codes that the uses write without a fault. -/
def succeeded : List Use → Console → List Word
  | [], _ => []
  | u :: uses, console => console.wrote u ++ succeeded uses (console.use u)

theorem truncated_writeChar (h : console.sink.Truncated limit codes whole) (code : Word) :
    (writeChar code console).state.sink.Truncated limit (codes ++ [code])
      (whole ++ console.wrote (.write code)) := by
  obtain ⟨-, hcapacity, hwritten⟩ := Sink.write_take h.capacity h.written
    (String.utf8EncodeChar_ne_nil (c := charOf code))
  rw [(sink_writeChar code console).2]
  refine ⟨hcapacity, ?_, ?_⟩
  · rw [hwritten, encoded_append, encoded_singleton]
  · rw [wrote, outcome_writeChar_of_truncated h]
    by_cases hle : (encoded (codes ++ [code])).length ≤ limit
    · rw [if_pos hle]
      exact h.fitting.concat_of_le hle
    · rw [if_neg hle, List.append_nil]
      exact h.fitting.concat_of_lt (Nat.lt_of_not_le hle)

/-- Only writing takes room. -/
theorem truncated_use (h : console.sink.Truncated limit codes whole) (u : Use) :
    (console.use u).sink.Truncated limit (codes ++ u.codes) (whole ++ console.wrote u) := by
  cases u with
  | write code => exact truncated_writeChar h code
  | read =>
    simp only [Use.codes, wrote, List.append_nil]
    exact keeps_readChar (fun _ hs => hs.flushed) console h
  | flush =>
    simp only [Use.codes, wrote, List.append_nil]
    rw [use, flush_apply]
    exact h.flushed
  | queueLines | record =>
    simp only [Use.codes, wrote, List.append_nil]
    exact h

/-- **A sink that fills up holds the first bytes of what is written**, however the console is
    used. -/
theorem truncated_serve (h : console.sink.Truncated limit codes whole) (uses : List Use) :
    (console.serve uses).2.sink.Truncated limit (codes ++ attempted uses)
      (whole ++ console.succeeded uses) := by
  induction uses generalizing console codes whole with
  | nil =>
    rw [attempted, List.flatMap_nil, succeeded, List.append_nil, List.append_nil]
    exact h
  | cons u uses ih =>
    rw [serve_cons, attempted, List.flatMap_cons, ← attempted, succeeded, ← List.append_assoc,
      ← List.append_assoc]
    exact ih (truncated_use h u)

/-! ## The transcript -/

/-- What was written without a fault is what was said. -/
theorem flatMap_written_said (u : Use) (console : Console) :
    (console.said u).flatMap Entry.written = encoded (console.wrote u) := by
  cases u with
  | write code =>
    rw [said, wrote]
    rcases (writeChar code console).outcome with fault | ⟨⟩
    · rfl
    · rw [List.flatMap_singleton, Entry.written_singleton, encoded_singleton]
  | read => exact flatMap_written_said_read console
  | flush | queueLines | record => rfl

theorem flatMap_written_conversation (uses : List Use) (console : Console) :
    (console.conversation uses).flatMap Entry.written = encoded (console.succeeded uses) := by
  induction uses generalizing console with
  | nil => rfl
  | cons u uses ih =>
    rw [conversation, List.flatMap_append, flatMap_written_said, ih, succeeded, encoded_append]

/-- The output in a transcript is what was written without a fault since it was begun. -/
theorem written_transcript_serve (h : console.transcript = some .empty) (uses : List Use) :
    ∃ t, (console.serve uses).2.transcript = some t ∧
      t.entries.flatMap Entry.written = encoded (console.succeeded uses) := by
  refine ⟨_, transcript_serve_of_some h uses, ?_⟩
  rw [(Transcript.logAll_empty _).1, Entry.flatMap_written_grouped, flatMap_written_conversation]

/-- **A sink that fills up cuts the output at a byte, and the transcript is exact.**  Over any uses
    of a new console that keeps a transcript, the sink holds the first bytes of the codes that were
    to be written, as many as there is room for.  A write succeeds just where there is room for its
    code and all before it, fails with the fault of the device otherwise, and no later one succeeds
    then.  The output in the transcript is that of the writes that succeeded: whole characters, the
    front of what the sink holds, and at most two bytes short of it. -/
theorem limited_sink_truncates (limit : Nat) (flushFailure : Option String) (source : Source)
    (uses : List Use) :
    let start := (new source (.limited limit flushFailure)).record
    let console := (start.serve uses).2
    console.sink.written.toList = (encoded (attempted uses)).take limit ∧
      (∀ code, (writeChar code console).outcome =
        if (encoded (attempted uses ++ [code])).length ≤ limit then .ok ()
        else .error (.device .full)) ∧
      (∀ code, (writeChar code console).outcome ≠ .ok () → ∀ uses' code',
        (writeChar code' (start.serve (uses ++ .write code :: uses')).2).outcome =
          .error (.device .full)) ∧
      ∃ t, console.transcript = some t ∧
        t.entries.flatMap Entry.written = encoded (start.succeeded uses) ∧
        t.entries.flatMap Entry.written <+: console.sink.written.toList ∧
        console.sink.written.size ≤ (t.entries.flatMap Entry.written).length + 2 ∧
        (t.entries.flatMap Entry.written).toByteArray.IsValidUTF8 := by
  intro start console
  have hstart : start.sink.Truncated limit [] [] := Sink.truncated_limited limit flushFailure
  have hserve (uses : List Use) :
      (start.serve uses).2.sink.Truncated limit (attempted uses) (start.succeeded uses) :=
    truncated_serve hstart uses
  have houtcome := outcome_writeChar_of_truncated (hserve uses)
  refine ⟨(hserve uses).written, houtcome, fun code hfail uses' code' => ?_, ?_⟩
  · have hfull : limit < (encoded (attempted uses ++ [code])).length := by
      rw [houtcome] at hfail
      exact Nat.lt_of_not_le fun hle => hfail (if_pos hle)
    have hfront := length_encoded_le (attempted_front uses uses' code code')
    rw [outcome_writeChar_of_truncated (hserve _), if_neg]
    exact Nat.not_le_of_lt (Nat.lt_of_lt_of_le hfull hfront)
  · have hfresh : start.transcript = some .empty := rfl
    obtain ⟨t, ht, hwritten⟩ := written_transcript_serve hfresh uses
    obtain ⟨hcut, hlength⟩ := (hserve uses).fitting.prefix_take
    rw [← (hserve uses).written] at hcut hlength
    refine ⟨t, ht, hwritten, ?_, ?_, ?_⟩
    · rw [hwritten]
      exact hcut
    · rw [hwritten]
      exact hlength
    · rw [hwritten]
      exact isValidUTF8_encoded _

/-- Room for three bytes: the second character is cut in its midst, and there is no room for a third
    one, although a line is read and a flush fails in between. -/
theorem limited_sink_truncates_midway :
    let start := (new ⟨[97, 10], none⟩ (.limited 3 (some "lost"))).record
    let uses := [.write 233, .read, .write 8364]
    (start.serve uses).2.sink.written.toList = [195, 169, 226] ∧
      (writeChar 8364 (start.serve [.write 233, .read]).2).outcome ≠ .ok () ∧
      (writeChar 97 (start.serve (uses ++ [.flush])).2).outcome = .error (.device .full) := by
  intro start uses
  obtain ⟨-, -, hlater, -⟩ :=
    limited_sink_truncates 3 (some "lost") ⟨[97, 10], none⟩ [.write 233, .read]
  have hfail : (writeChar 8364 (start.serve [.write 233, .read]).2).outcome ≠ .ok () := by
    decide +kernel
  refine ⟨?_, hfail, hlater 8364 hfail [.flush] 97⟩
  rw [(limited_sink_truncates 3 (some "lost") ⟨[97, 10], none⟩ uses).1]
  decide +kernel

end Console

end WordMachine
