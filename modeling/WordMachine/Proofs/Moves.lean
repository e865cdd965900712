/-
  What a read, a write and a flush of a watched console come to.

  * `flushConsole_of_eq`, `readChar_of_nil`, `readChar_of_refused`: a read with nothing left of the
    current line flushes first, and comes to the fault of that flush;
  * `Moves`: what a read, a write or a flush leaves (`moves_readChar`, `moves_writeChar`,
    `moves_flushFor`).
-/
import WordMachine.Proofs.Watching

namespace WordMachine

open WordMachine.Action WordMachine.Watched

/-- The lines that were recorded. -/
def Console.inputs (console : Console) : List String := (console.transcript.getD .empty).inputs

theorem Console.inputs_logOutput (console : Console) (text : String) :
    Console.inputs { console with
      transcript := console.transcript.map (Transcript.logOutput text) } = console.inputs := by
  obtain ⟨source, sink, pending, queue, transcript⟩ := console
  cases transcript with
  | none => rfl
  | some t => exact Transcript.inputs_logOutput t text

namespace Devices

variable {d : Devices} {w : Watched Console}

/-! ## What the operations come to -/

/-- What a read, a write or a flush leaves. -/
inductive Moves (d : Devices) (w : Watched Console) : Watched Console → Prop
  /-- A read hands out a character of the current line. -/
  | handedOut {c : Char} {rest : List Char} (h : w.state.pending = c :: rest) :
    Moves d w ⟨{ w.state with pending := rest }, w.contacts⟩
  /-- If there is none, a flush comes first, and no line is taken if that fails. -/
  | refused {fault : Fault} {sink : Sink} {log : List Event}
    (h : d.flush w.state.sink = ⟨.error fault, sink, log⟩) :
    Moves d w ⟨{ w.state with sink }, w.contacts ++ [.asked] ++ [.flushed false]⟩
  | took {console : Console} {log : List Event} {c : Contact}
    (h : d.flush w.state.sink = ⟨.ok (), console.sink, log⟩) (hc : c.takes = true) :
    Moves d w ⟨console, w.contacts ++ [.asked] ++ [.flushed true] ++ [c]⟩
  /-- A write records no line. -/
  | wrote {bytes : List UInt8} {transcript : Option Transcript}
    (h : Console.inputs { w.state with transcript } = w.state.inputs) :
    Moves d w ⟨{ w.state with sink := (d.write bytes w.state.sink).state, transcript },
      w.contacts ++ [.wrote]⟩
  /-- The flush behind a call is all that there is to it. -/
  | flushed {c : Contact} (hc : c.isCall = true) :
    Moves d w ⟨{ w.state with sink := (d.flush w.state.sink).state },
      w.contacts ++ [c] ++ [.flushed (d.flush w.state.sink).outcome.isOk]⟩

theorem flushConsole_of_eq {outcome : Except Fault Unit} {sink : Sink} {log : List Event}
    (h : d.flush w.state.sink = ⟨outcome, sink, log⟩) :
    d.flushConsole w =
      ⟨outcome, ⟨{ w.state with sink }, w.contacts ++ [.flushed outcome.isOk]⟩, log⟩ := by
  simp only [flushConsole, seen, Console.onSink_apply, h]

/-- With nothing left of the current line, a read is a call for a line. -/
theorem readChar_of_nil (d : Devices) (h : w.state.pending = []) :
    d.readChar w =
      (d.refill >>= fun _ => unseen Console.takeCode) ⟨w.state, w.contacts ++ [.asked]⟩ := by
  rw [readChar, bind_ok (view_apply _ _), h]
  simp only [List.isEmpty_nil, if_true, List.nil_append]
  exact call_bind .asked (d.refill >>= fun _ => unseen Console.takeCode) w

/-- **A read whose flush fails comes to that fault**, and nothing is lost. -/
theorem readChar_of_refused {fault : Fault} {sink : Sink} {log : List Event}
    (hp : w.state.pending = []) (h : d.flush w.state.sink = ⟨.error fault, sink, log⟩) :
    d.readChar w =
      ⟨.error fault, ⟨{ w.state with sink }, w.contacts ++ [.asked] ++ [.flushed false]⟩, log⟩ := by
  have hflush : d.flushConsole ⟨w.state, w.contacts ++ [.asked]⟩ =
      ⟨.error fault, ⟨{ w.state with sink }, w.contacts ++ [.asked] ++ [.flushed false]⟩, log⟩ :=
    flushConsole_of_eq h
  rw [readChar_of_nil d hp, refill, bind_error (bind_error hflush)]

/-- These contacts were made, and this is the sink. -/
def At (contacts : List Contact) (sink : Sink) (w : Watched Console) : Prop :=
  w.contacts = contacts ∧ w.state.sink = sink

theorem keeps_at {α : Type} {contacts : List Contact} {sink : Sink} {x : Action Console α}
    (hx : Keeps (fun console => console.sink = sink) x) : Keeps (At contacts sink) (unseen x) :=
  fun w hw => ⟨hw.1, hx w.state hw.2⟩

/-- To take a line makes one contact, and leaves the sink alone. -/
theorem at_takeLine (d : Devices) (w : Watched Console) :
    ∃ c, c.takes = true ∧ At (w.contacts ++ [c]) w.state.sink (d.takeLine w).state := by
  rcases hq : w.state.queue with _ | ⟨line, queue⟩
  · rw [takeLine_of_nil d hq]
    exact ⟨.readSource, rfl, rfl, rfl⟩
  · rw [takeLine_of_cons d hq]
    exact ⟨.tookQueued, rfl, rfl, rfl⟩

/-- Behind a flush that succeeds a line is taken, or what there is of one. -/
theorem at_readChar {sink : Sink} {log : List Event} (hp : w.state.pending = [])
    (h : d.flush w.state.sink = ⟨.ok (), sink, log⟩) :
    ∃ c, c.takes = true ∧
      At (w.contacts ++ [.asked] ++ [.flushed true] ++ [c]) sink (d.readChar w).state := by
  have hflush : d.flushConsole ⟨w.state, w.contacts ++ [.asked]⟩ =
      ⟨.ok (), ⟨{ w.state with sink }, w.contacts ++ [.asked] ++ [.flushed true]⟩, log⟩ :=
    flushConsole_of_eq h
  obtain ⟨c, hc, htake⟩ :=
    d.at_takeLine ⟨{ w.state with sink }, w.contacts ++ [.asked] ++ [.flushed true]⟩
  refine ⟨c, hc, ?_⟩
  rw [readChar_of_nil d hp, refill]
  refine Keeps.state_bind ?_ fun _ => keeps_at (Console.keeps_takeCode fun _ _ h => h)
  rw [bind_ok hflush]
  exact Keeps.state_bind htake fun _ => .bind (.note _) fun _ =>
    .bind (keeps_at fun _ h => h) fun _ => keeps_at fun _ h => h

theorem readChar_of_cons (d : Devices) {c : Char} {rest : List Char}
    (hp : w.state.pending = c :: rest) : d.readChar w = unseen Console.takeCode w := by
  rw [readChar, bind_ok (view_apply _ _), hp]
  rfl

theorem moves_readChar (d : Devices) (w : Watched Console) : Moves d w (d.readChar w).state := by
  rcases hp : w.state.pending with _ | ⟨c, rest⟩
  · rcases hflush : d.flush w.state.sink with ⟨fault | ⟨⟩, sink, log⟩
    · rw [readChar_of_refused hp hflush]
      exact .refused hflush
    · obtain ⟨c, hc, hread⟩ := at_readChar hp hflush
      rcases hr : (d.readChar w).state with ⟨console, contacts⟩
      rw [hr] at hread
      obtain ⟨rfl, rfl⟩ := hread
      exact .took hflush hc
  · rw [readChar_of_cons d hp, unseen, Console.takeCode_of_cons hp]
    exact .handedOut hp

/-- There is nothing else to writing a character, but for a report. -/
theorem writeChar_eq_put (d : Devices) (code : Word) (w : Watched Console) :
    (d.writeChar code w).outcome = (d.put code w).outcome ∧
      (d.writeChar code w).state = (d.put code w).state := by
  unfold writeChar
  split
  · rw [bind_ok (note_apply _ _)]
    exact ⟨rfl, rfl⟩
  · exact ⟨rfl, rfl⟩

section

variable {code : Word} {sink : Sink} {log : List Event}

theorem seen_write {outcome : Except Fault Unit} {bytes : List UInt8}
    (h : d.write bytes w.state.sink = ⟨outcome, sink, log⟩) :
    seen (fun _ => .wrote) (Console.onSink (d.write bytes)) w =
      ⟨outcome, ⟨{ w.state with sink }, w.contacts ++ [.wrote]⟩, log⟩ := by
  simp only [seen, Console.onSink_apply, h]

/-- A character that is written is recorded. -/
theorem writeChar_of_ok
    (h : d.write (String.utf8EncodeChar (Console.charOf code)) w.state.sink =
      ⟨.ok (), sink, log⟩) :
    (d.writeChar code w).outcome = .ok () ∧
      (d.writeChar code w).state =
        ⟨{ w.state with
          sink
          transcript := w.state.transcript.map
            (Transcript.logOutput (String.singleton (Console.charOf code))) },
          w.contacts ++ [.wrote]⟩ := by
  obtain ⟨hout, hstate⟩ := d.writeChar_eq_put code w
  rw [hout, hstate, put, bind_ok (seen_write h)]
  exact ⟨rfl, rfl⟩

theorem writeChar_of_error {fault : Fault}
    (h : d.write (String.utf8EncodeChar (Console.charOf code)) w.state.sink =
      ⟨.error fault, sink, log⟩) :
    (d.writeChar code w).outcome = .error fault ∧
      (d.writeChar code w).state = ⟨{ w.state with sink }, w.contacts ++ [.wrote]⟩ := by
  obtain ⟨hout, hstate⟩ := d.writeChar_eq_put code w
  rw [hout, hstate, put, bind_error (seen_write h)]
  exact ⟨rfl, rfl⟩

end

theorem moves_writeChar (d : Devices) (code : Word) (w : Watched Console) :
    Moves d w (d.writeChar code w).state := by
  rcases hw : d.write (String.utf8EncodeChar (Console.charOf code)) w.state.sink with
    ⟨fault | ⟨⟩, sink, log⟩
  · rw [(writeChar_of_error hw).2]
    obtain rfl : (d.write _ w.state.sink).state = sink := congrArg Ran.state hw
    exact .wrote rfl
  · rw [(writeChar_of_ok hw).2]
    obtain rfl : (d.write _ w.state.sink).state = sink := congrArg Ran.state hw
    exact .wrote (Console.inputs_logOutput _ _)

theorem moves_flushFor (d : Devices) {c : Contact} (hc : c.isCall = true) (w : Watched Console) :
    Moves d w (d.flushFor c w).state := by
  rw [flushFor, call_bind]
  exact .flushed hc

end Devices

/-! ## The console of a machine -/

namespace Console

variable {console : Console} {code : Word} {sink : Sink} {log : List Event}

theorem writeChar_of_ok
    (h : Sink.write (String.utf8EncodeChar (charOf code)) console.sink = ⟨.ok (), sink, log⟩) :
    (writeChar code console).outcome = .ok () ∧
      (writeChar code console).state = { console with
        sink
        transcript :=
          console.transcript.map (Transcript.logOutput (String.singleton (charOf code))) } := by
  obtain ⟨hout, hstate⟩ :=
    Devices.writeChar_of_ok (d := Devices.plain) (w := ⟨console, []⟩) h
  rw [← Devices.unwatched_of_alike (Devices.alike_writeChar code) ⟨console, []⟩]
  exact ⟨hout, congrArg Watched.state hstate⟩

theorem writeChar_of_error {fault : Fault}
    (h : Sink.write (String.utf8EncodeChar (charOf code)) console.sink =
      ⟨.error fault, sink, log⟩) :
    (writeChar code console).outcome = .error fault ∧
      (writeChar code console).state = { console with sink } := by
  obtain ⟨hout, hstate⟩ :=
    Devices.writeChar_of_error (d := Devices.plain) (w := ⟨console, []⟩) h
  rw [← Devices.unwatched_of_alike (Devices.alike_writeChar code) ⟨console, []⟩]
  exact ⟨hout, congrArg Watched.state hstate⟩

end Console

end WordMachine
