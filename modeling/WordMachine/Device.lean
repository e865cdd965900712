/-
  The devices at the two ends of the console: where bytes come from and where they go.

  A source holds the bytes that are left to read.  Once they are used up it either
  reports the end of the input, or keeps failing.  A sink keeps what was written; it may
  have room for so many bytes only, and it may fail to flush.

  * `Source.readLine` takes the bytes through the next newline, or to the end;
  * `Sink.write` stores as many of the bytes as fit, and fails if not all of them do
    (`write_of_fits`, `write_of_not_fits`);
  * `write_append`, `writeAll_eq`: it does not matter in how many parts something is
    written;
  * `Sink.flush` counts every call.
-/
import WordMachine.Action

namespace WordMachine

/-! ## Sources -/

/-- The bytes left to read, and the failure that every read reports after them instead of
    the end. -/
structure Source where
  bytes : List UInt8
  failure : Option String
deriving DecidableEq, Inhabited

namespace Source

/-- The byte that ends a line. -/
def newline : UInt8 := 10

/-- Reads one line.  It reaches through the next newline, or to the end of the bytes.
    Where the bytes run out before a newline and the source fails, the line is lost; a
    line that is not text is used up. -/
def readLine : Action Source String := fun source =>
  match source.bytes.span (· ≠ newline), source.failure with
  | (_, []), some text => ⟨.error (.device (.reported text)), { source with bytes := [] }, []⟩
  | ([], []), none => ⟨.error .inputExhausted, source, []⟩
  | (line, rest), _ =>
    match String.fromUTF8? (line ++ rest.take 1).toByteArray with
    | some text => ⟨.ok text, { source with bytes := rest.drop 1 }, []⟩
    | none => ⟨.error (.device .malformedText), { source with bytes := rest.drop 1 }, []⟩

end Source

/-! ## Sinks -/

/-- What was written, the number of bytes there is room for, the failure of every flush,
    and the number of flushes so far. -/
structure Sink where
  written : Array UInt8
  capacity : Option Nat
  flushFailure : Option String
  flushes : Nat
deriving DecidableEq, Inhabited

namespace Sink

/-- A sink that takes everything. -/
def unlimited : Sink := ⟨#[], none, none, 0⟩

/-- The bytes are within the room that is left. -/
def Fits (sink : Sink) (bytes : List UInt8) : Prop :=
  match sink.capacity with
  | none => True
  | some capacity => bytes.length ≤ capacity - sink.written.size

instance (sink : Sink) (bytes : List UInt8) : Decidable (sink.Fits bytes) := by
  unfold Fits; split <;> infer_instance

/-- Writes the bytes, or as many of them as there is room for. -/
def write (bytes : List UInt8) : Action Sink Unit := fun sink =>
  if sink.Fits bytes then ⟨.ok (), { sink with written := sink.written ++ bytes }, []⟩
  else
    let room := sink.capacity.getD 0 - sink.written.size
    ⟨.error (.device .full), { sink with written := sink.written ++ bytes.take room }, []⟩

/-- Writes a text in UTF-8. -/
def writeText (text : String) : Action Sink Unit := write text.toUTF8.data.toList

/-- Writes texts one after the other. -/
def writeAll : List String → Action Sink Unit
  | [] => pure ()
  | text :: texts => do
    writeText text
    writeAll texts

/-- Flushes what was written. -/
def flush : Action Sink Unit := fun sink =>
  let flushed := { sink with flushes := sink.flushes + 1 }
  match sink.flushFailure with
  | none => ⟨.ok (), flushed, []⟩
  | some text => ⟨.error (.device (.reported text)), flushed, []⟩

theorem write_of_fits {sink : Sink} {bytes : List UInt8} (h : sink.Fits bytes) :
    write bytes sink = ⟨.ok (), { sink with written := sink.written ++ bytes }, []⟩ := by
  simp [write, h]

/-- Without a limit everything fits. -/
theorem fits_of_capacity_eq_none {sink : Sink} (h : sink.capacity = none)
    (bytes : List UInt8) : sink.Fits bytes := by
  simp [Fits, h]

theorem write_of_not_fits {sink : Sink} {bytes : List UInt8} {capacity : Nat}
    (hc : sink.capacity = some capacity) (h : capacity - sink.written.size < bytes.length) :
    write bytes sink =
      ⟨.error (.device .full),
        { sink with written := sink.written ++ bytes.take (capacity - sink.written.size) },
        []⟩ := by
  have hfits : ¬ sink.Fits bytes := by simp only [Fits, hc]; omega
  simp [write, hfits, hc]

/-- There is always room for nothing. -/
@[simp] theorem write_nil : write [] = pure () := by
  funext sink
  have hfits : sink.Fits [] := by unfold Fits; split <;> simp
  simp [write_of_fits hfits]

/-- Bytes may be written in two parts. -/
theorem write_append (front back : List UInt8) :
    write (front ++ back) = (do write front; write back) := by
  funext sink
  have hsize : (sink.written ++ front).size = sink.written.size + front.length := by
    rw [← Array.length_toList, Array.toList_appendList, List.length_append, Array.length_toList]
  have happend (l : List UInt8) : sink.written ++ front ++ l = sink.written ++ (front ++ l) := by
    apply Array.toList_inj.mp; simp
  by_cases hfront : sink.Fits front
  · rw [Action.bind_ok (write_of_fits hfront)]
    rcases hc : sink.capacity with _ | capacity
    · rw [write_of_fits (fits_of_capacity_eq_none hc _),
        write_of_fits (fits_of_capacity_eq_none rfl _)]
      simp [happend, hc]
    · simp only [Fits, hc] at hfront
      by_cases hall : front.length + back.length ≤ capacity - sink.written.size
      · have hb : Fits ⟨sink.written ++ front, some capacity, sink.flushFailure, sink.flushes⟩
            back := by
          simp only [Fits, hsize]; omega
        rw [write_of_fits (by simpa only [Fits, hc, List.length_append] using hall),
          write_of_fits hb]
        simp [happend, hc]
      · rw [write_of_not_fits hc (by simp only [List.length_append]; omega),
          write_of_not_fits rfl (by simp only [hsize]; omega), hsize, happend]
        rw [List.take_append, List.take_of_length_le hfront, Nat.sub_sub]
        simp [hc]
  · rcases hc : sink.capacity with _ | capacity
    · exact absurd (fits_of_capacity_eq_none hc _) hfront
    · simp only [Fits, hc] at hfront
      rw [Action.bind_error (write_of_not_fits hc (by omega)),
        write_of_not_fits hc (by simp only [List.length_append]; omega),
        List.take_append_of_le_length (by omega)]

/-- Texts written one after the other are one text. -/
theorem writeAll_eq (texts : List String) : writeAll texts = writeText (String.join texts) := by
  induction texts with
  | nil => simp [writeAll, writeText]
  | cons text texts ih =>
    rw [writeAll, ih, String.join_cons]
    simp only [writeText]
    rw [← write_append]
    simp

end Sink

end WordMachine
