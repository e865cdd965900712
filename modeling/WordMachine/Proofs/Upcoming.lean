/-
  What reading and writing at the console come to.

  * `Console.nextChar?`: the character that is read next, the first one left of the current line,
    or else of the next line, which is taken after a flush;
  * `outcome_readChar`: reading comes to its code, if that is a value;
  * `FaultsReading`: when reading faults and with what, and `outcome_readChar_error_iff`;
  * `outcome_writeChar_error_iff`: writing the character of a value faults exactly where the sink
    has too little room for its bytes.
-/
import WordMachine.Console
import Mathlib.Data.List.TakeDrop

namespace WordMachine

open WordMachine.Action

/-! ## The source -/

namespace Source

/-- Reading a line ends the input, or it is the device that fails. -/
theorem outcome_readLine_error {source : Source} {fault : Fault}
    (h : (readLine source).outcome = .error fault) :
    (fault = .inputExhausted ∧ source.bytes = [] ∧ source.failure = none) ∨
      ∃ e, fault = .device e := by
  unfold readLine at h
  split at h
  · exact Or.inr ⟨_, (Except.error.inj h).symm⟩
  · next hspan hfail =>
    refine Or.inl ⟨(Except.error.inj h).symm, ?_, hfail⟩
    rw [List.span_eq_takeWhile_dropWhile, Prod.mk.injEq] at hspan
    calc source.bytes
        = source.bytes.takeWhile (· ≠ newline) ++ source.bytes.dropWhile (· ≠ newline) :=
          List.takeWhile_append_dropWhile.symm
      _ = [] := by rw [hspan.1, hspan.2, List.append_nil]
  · split at h
    · cases h
    · exact Or.inr ⟨_, (Except.error.inj h).symm⟩

theorem outcome_readLine_end {source : Source} (hb : source.bytes = [])
    (hf : source.failure = none) : (readLine source).outcome = .error .inputExhausted := by
  obtain ⟨bytes, failure⟩ := source
  obtain rfl : bytes = [] := hb
  obtain rfl : failure = none := hf
  rfl

theorem log_readLine (source : Source) : (readLine source).log = [] := by
  unfold readLine
  split
  · rfl
  · rfl
  · split
    · rfl
    · rfl

end Source

namespace Console

variable {console : Console} {fault : Fault} {code : Word}

/-! ## Reading -/

/-- The line that is taken once the current one is used up, after the output was flushed. -/
def nextLine? (console : Console) : Except Fault String :=
  match console.sink.flushFailure, console.queue with
  | some text, _ => .error (.device (.reported text))
  | none, line :: _ => .ok line
  | none, [] => (Source.readLine console.source).outcome

/-- The character that is read next.  A line has a newline behind it, so it has a first one. -/
def nextChar? (console : Console) : Except Fault Char :=
  match console.pending with
  | c :: _ => .ok c
  | [] => console.nextLine?.map fun line => (chomp line).toList.headD '\n'

/-- Nothing is left to read: of the current line, in the queue, or in the source. -/
structure Exhausted (console : Console) : Prop where
  pending : console.pending = []
  queue : console.queue = []
  bytes : console.source.bytes = []
  failure : console.source.failure = none
  /-- The flush before the input ended did not fail. -/
  flushed : console.sink.flushFailure = none

/-- Takes the next line, once the output was flushed. -/
def flushThenTake : Action Console String := flush >>= fun _ => takeLine

/-- Hands out the characters of a line, which is reported and recorded without its end. -/
def handOut (line : String) : Action Console Unit := do
  note (.inputLine (chomp line))
  logged (Transcript.logInput (chomp line))
  change fun console =>
    { console with pending := console.pending ++ (chomp line).toList ++ ['\n'] }

theorem refill_eq : refill = flushThenTake >>= handOut := (bind_assoc _ _ _).symm

theorem outcome_flushThenTake (console : Console) :
    (flushThenTake console).outcome = console.nextLine? := by
  obtain ⟨source, ⟨written, capacity, failure, flushes⟩, pending, queue, transcript⟩ := console
  cases failure with
  | some text => rfl
  | none => cases queue with
    | nil => rfl
    | cons line queue => rfl

theorem pending_flushThenTake (console : Console) :
    (flushThenTake console).state.pending = console.pending := by
  obtain ⟨source, ⟨written, capacity, failure, flushes⟩, pending, queue, transcript⟩ := console
  cases failure with
  | some text => rfl
  | none => cases queue with
    | nil => rfl
    | cons line queue => rfl

/-- The line that was taken is behind what was left of the line before it. -/
theorem refill_of_ok {line : String} (h : console.nextLine? = .ok line) :
    (refill console).outcome = .ok () ∧
      (refill console).state.pending = console.pending ++ (chomp line).toList ++ ['\n'] := by
  have hpending := pending_flushThenTake console
  have hout := (outcome_flushThenTake console).trans h
  rcases htake : flushThenTake console with ⟨fault | line', console', log⟩
  · rw [htake] at hout; cases hout
  · rw [htake] at hout hpending
    cases hout
    rw [refill_eq, bind_ok htake]
    refine ⟨rfl, ?_⟩
    rw [← hpending]
    rfl

theorem refill_of_error (h : console.nextLine? = .error fault) :
    (refill console).outcome = .error fault := by
  rw [refill_eq, bind_apply, outcome_flushThenTake, h]

/-- Takes the code of the next character of the current line. -/
def takeCode : Action Console Word := do
  let c ← takeChar
  if c.toNat < valueCount then pure (.ofNat c.toNat) else fail (.valueRange c.toNat)

/-- With nothing left of the current line, a line is taken first. -/
theorem readChar_of_nil (h : console.pending = []) :
    readChar console = (refill >>= fun _ => takeCode) console := by
  rw [readChar, bind_ok (view_apply _ _), h]
  rfl

theorem readChar_of_ne_nil (h : console.pending ≠ []) : readChar console = takeCode console := by
  rw [readChar, bind_ok (view_apply _ _), List.isEmpty_eq_false_iff.mpr h]
  rfl

theorem outcome_takeCode {c : Char} {rest : List Char} (h : console.pending = c :: rest) :
    (takeCode console).outcome =
      if c.toNat < valueCount then .ok (.ofNat c.toNat) else .error (.valueRange c.toNat) := by
  rw [← readChar_of_ne_nil (h ▸ List.cons_ne_nil c rest), readChar_of_cons h]

/-- **Reading comes to the next character**, if its code is a value. -/
theorem outcome_readChar (console : Console) : (readChar console).outcome =
    console.nextChar? >>= fun c =>
      if c.toNat < valueCount then .ok (.ofNat c.toNat) else .error (.valueRange c.toNat) := by
  unfold nextChar?
  rcases hp : console.pending with _ | ⟨c, rest⟩
  · rw [readChar_of_nil hp, bind_apply]
    rcases hl : console.nextLine? with fault | line
    · rw [refill_of_error hl]
      rfl
    · obtain ⟨hout, hpending⟩ := refill_of_ok hl
      obtain ⟨c, rest, hrest, hc⟩ : ∃ c rest, (refill console).state.pending = c :: rest ∧
          (chomp line).toList.headD '\n' = c := by
        rw [hpending, hp]
        rcases (chomp line).toList with _ | ⟨c, rest⟩
        · exact ⟨'\n', [], rfl, rfl⟩
        · exact ⟨c, rest ++ ['\n'], rfl, rfl⟩
      rw [hout]
      simp only [Except.map, hc]
      exact outcome_takeCode hrest
  · rw [readChar_of_ne_nil (hp ▸ List.cons_ne_nil c rest)]
    exact outcome_takeCode hp

/-- A code that was read is a value. -/
theorem isValue_readChar (h : (readChar console).outcome = .ok code) : code.IsValue := by
  rw [outcome_readChar] at h
  rcases hc : console.nextChar? with fault | c
  · rw [hc] at h; cases h
  · rw [hc] at h
    have h' : (if c.toNat < valueCount then .ok (.ofNat c.toNat) else
        .error (.valueRange c.toNat) : Except Fault Word) = .ok code := h
    split at h'
    · next hlt =>
      cases h'
      rw [Word.IsValue, UInt16.toNat_ofNat_of_lt' (Nat.lt_trans hlt (by decide))]
      exact hlt
    · cases h'

/-! ## The faults of reading -/

theorem nextChar?_of_exhausted (h : console.Exhausted) :
    console.nextChar? = .error .inputExhausted := by
  simp only [nextChar?, nextLine?, h.pending, h.flushed, h.queue,
    Source.outcome_readLine_end h.bytes h.failure]
  rfl

/-- Without a next character the input has ended, or a device has failed. -/
theorem nextChar?_error_cases (h : console.nextChar? = .error fault) :
    (fault = .inputExhausted ∧ console.Exhausted) ∨ ∃ e, fault = .device e := by
  unfold nextChar? at h
  split at h
  · cases h
  · next hp =>
    rcases hl : console.nextLine? with fault' | line
    · rw [hl] at h
      cases h
      unfold nextLine? at hl
      split at hl
      · exact Or.inr ⟨_, (Except.error.inj hl).symm⟩
      · cases hl
      · next hf hq =>
        rcases Source.outcome_readLine_error hl with ⟨rfl, hb, hs⟩ | hdevice
        · exact Or.inl ⟨rfl, hp, hq, hb, hs, hf⟩
        · exact Or.inr hdevice
    · rw [hl] at h; cases h

/-- When reading a character faults, and with what. -/
def FaultsReading (console : Console) : Fault → Prop
  | .valueRange v => ∃ c, console.nextChar? = .ok c ∧ valueCount ≤ c.toNat ∧ v = c.toNat
  | .inputExhausted => console.Exhausted
  | .device e => console.nextChar? = .error (.device e)
  | _ => False

theorem faultsReading_iff_of_error {fault' : Fault} (hc : console.nextChar? = .error fault') :
    console.FaultsReading fault ↔ fault' = fault := by
  constructor
  · intro h
    cases fault with
    | inputExhausted => exact Except.error.inj (hc.symm.trans (nextChar?_of_exhausted h))
    | valueRange v =>
      obtain ⟨c, h, -⟩ := h
      cases hc.symm.trans h
    | device e => exact Except.error.inj (hc.symm.trans h)
    | addressRange | invalidOpcode | stackUnderflow | divisionByZero | load => exact h.elim
  · rintro rfl
    rcases nextChar?_error_cases hc with ⟨rfl, hend⟩ | ⟨e, rfl⟩
    · exact hend
    · exact hc

theorem faultsReading_iff_of_ok {c : Char} (hc : console.nextChar? = .ok c) :
    console.FaultsReading fault ↔ valueCount ≤ c.toNat ∧ fault = .valueRange c.toNat := by
  constructor
  · intro h
    cases fault with
    | inputExhausted => cases hc.symm.trans (nextChar?_of_exhausted h)
    | valueRange v =>
      obtain ⟨c', h, hle, rfl⟩ := h
      cases hc.symm.trans h
      exact ⟨hle, rfl⟩
    | device e => cases hc.symm.trans h
    | addressRange | invalidOpcode | stackUnderflow | divisionByZero | load => exact h.elim
  · rintro ⟨hle, rfl⟩
    exact ⟨c, hc, hle, rfl⟩

theorem outcome_readChar_error_iff :
    (readChar console).outcome = .error fault ↔ console.FaultsReading fault := by
  rw [outcome_readChar]
  rcases hc : console.nextChar? with fault' | c
  · rw [faultsReading_iff_of_error hc]
    exact ⟨Except.error.inj, congrArg Except.error⟩
  · rw [faultsReading_iff_of_ok hc]
    show (if c.toNat < valueCount then .ok (.ofNat c.toNat) else .error (.valueRange c.toNat) :
      Except Fault Word) = .error fault ↔ _
    split
    · next hlt => exact ⟨fun h => (by cases h), fun h => absurd hlt (Nat.not_lt.mpr h.1)⟩
    · next hlt =>
      rw [Except.error.injEq, eq_comm]
      exact (and_iff_right (Nat.le_of_not_lt hlt)).symm

/-! ## Writing -/

/-- A value is the code of a character. -/
theorem char?_of_isValue (h : code.IsValue) : char? code = some (Char.ofNat code.toNat) := by
  have hvalid : code.toNat.isValidChar := Or.inl (Nat.lt_trans h (by decide))
  rw [char?, dif_pos hvalid, Char.ofNat, dif_pos hvalid]

/-- Its character is written and recorded. -/
theorem writeChar_of_isValue (h : code.IsValue) : writeChar code = (do
    onSink (Sink.write (String.utf8EncodeChar (Char.ofNat code.toNat)))
    logged (Transcript.logOutput (String.singleton (Char.ofNat code.toNat)))) := by
  unfold writeChar charOf
  simp only [char?_of_isValue h]
  rfl

theorem outcome_write (bytes : List UInt8) (sink : Sink) : (Sink.write bytes sink).outcome =
    if sink.Fits bytes then .ok () else .error (.device .full) := by
  unfold Sink.write
  split
  · rfl
  · rfl

/-- Writing a character faults exactly where there is too little room for its bytes. -/
theorem outcome_writeChar_error_iff (h : code.IsValue) :
    (writeChar code console).outcome = .error fault ↔
      ¬ console.sink.Fits (String.utf8EncodeChar (Char.ofNat code.toNat)) ∧
        fault = .device .full := by
  rw [writeChar_of_isValue h, bind_apply, onSink_apply, outcome_write]
  split
  · next heq =>
    split at heq
    · next hfits => exact ⟨fun h => (by cases h), fun h => absurd hfits h.1⟩
    · cases heq
  · next heq =>
    split at heq
    · cases heq
    · next hfits =>
      cases heq
      rw [Except.error.injEq, eq_comm]
      exact (and_iff_right hfits).symm

end Console

end WordMachine
