/-
  A transcript is the conversation, from the first time on that one was asked for.

  * `Devices.said`: what one use of a console adds to the conversation, a character that was
    written or a line that was taken; `conversation`: what a list of uses adds; `recorded`: the
    conversation since the first use that asks for a transcript.  `Console.said`, `conversation`
    and `recorded` are the same over the devices of a console (`recorded_plain`);
  * `transcript_writeChar`, `transcript_refill`: what is recorded where a character is written and
    where a line is taken, and nothing where that fails;
  * `transcript_use`, `transcript_serve`: a transcript is extended by what was said;
  * `Devices.TakesAll`, `written_serve`: where the sink takes everything, the bytes written are
    those of the output that was said;
  * `transcript_is_conversation`: both as they are shown.
-/
import WordMachine.Proofs.Grouping
import WordMachine.Proofs.Moves

namespace WordMachine

open WordMachine.Action WordMachine.Watched

theorem Entry.written_singleton (c : Char) :
    (Entry.output (String.singleton c)).written = String.utf8EncodeChar c := by
  have hbytes := Source.ofText_ofList [c]
  rw [List.flatMap_singleton] at hbytes
  exact congrArg Source.bytes hbytes

/-! ## The conversation -/

namespace Console

/-- What one use adds to the conversation: the character that it wrote, or the line that it took
    before it read a character.  A use that fails adds nothing by that. -/
def said : Use → Console → List Entry
  | .write code, console =>
    match (writeChar code console).outcome with
    | .ok () => [.output (String.singleton (charOf code))]
    | .error _ => []
  | .read, console =>
    match console.pending, console.nextLine? with
    | [], .ok line => [.input (chomp line)]
    | _, _ => []
  | _, _ => []

/-- What the uses add, one after the other. -/
def conversation : List Use → Console → List Entry
  | [], _ => []
  | u :: uses, console => console.said u ++ conversation uses (console.use u)

/-- The conversation since the first use that asks for a transcript, if there is one. -/
def recorded : List Use → Console → Option (List Entry)
  | [], _ => none
  | .record :: uses, console => some (conversation uses console.record)
  | u :: uses, console => recorded uses (console.use u)

end Console

namespace Devices

/-- The line that comes next: the oldest of the queue, or what the source reads. -/
def line? (d : Devices) (console : Console) : Except Fault String :=
  match console.queue with
  | line :: _ => .ok line
  | [] => (d.readLine console.source).outcome

/-- The line that is taken once the current one is used up, after the output was flushed. -/
def nextLine? (d : Devices) (console : Console) : Except Fault String :=
  match (d.flush console.sink).outcome with
  | .ok () => d.line? console
  | .error fault => .error fault

/-- The same over any devices: the character that a use wrote, or the line that it took before it
    read a character. -/
def said (d : Devices) : Use → Watched Console → List Entry
  | .write code, w =>
    match (d.writeChar code w).outcome with
    | .ok () => [.output (String.singleton (Console.charOf code))]
    | .error _ => []
  | .read, w =>
    match w.state.pending, d.nextLine? w.state with
    | [], .ok line => [.input (chomp line)]
    | _, _ => []
  | _, _ => []

def conversation (d : Devices) : List Use → Watched Console → List Entry
  | [], _ => []
  | u :: uses, w => d.said u w ++ conversation d uses (d.use u w)

def recorded (d : Devices) : List Use → Watched Console → Option (List Entry)
  | [], _ => none
  | .record :: uses, w => some (d.conversation uses (d.use .record w))
  | u :: uses, w => recorded d uses (d.use u w)

variable {d : Devices} {w : Watched Console} {t : Transcript}

/-! ## What is recorded -/

theorem map_logAll_nil (transcript : Option Transcript) :
    transcript.map (Transcript.logAll []) = transcript :=
  Option.map_id_apply

/-- A character is recorded where it was written. -/
theorem transcript_writeChar (d : Devices) (code : Word) (w : Watched Console) :
    (d.writeChar code w).state.state.transcript =
      w.state.transcript.map (Transcript.logAll (d.said (.write code) w)) := by
  rcases hw : d.write (String.utf8EncodeChar (Console.charOf code)) w.state.sink with
    ⟨fault | ⟨⟨⟩⟩, sink, log⟩
  · obtain ⟨hout, hstate⟩ := writeChar_of_error hw
    rw [hstate, said, hout, map_logAll_nil]
  · obtain ⟨hout, hstate⟩ := writeChar_of_ok hw
    rw [hstate, said, hout]
    rfl

/-- To take a line records nothing yet. -/
theorem takeLine_line? (d : Devices) (w : Watched Console) :
    (d.takeLine w).outcome = d.line? w.state ∧
      (d.takeLine w).state.state.transcript = w.state.transcript := by
  rcases hq : w.state.queue with _ | ⟨line, queue⟩
  · rw [takeLine_of_nil d hq, line?, hq]
    exact ⟨rfl, rfl⟩
  · rw [takeLine_of_cons d hq, line?, hq]
    exact ⟨rfl, rfl⟩

/-- A line is recorded where it was taken. -/
theorem transcript_refill (d : Devices) (w : Watched Console) :
    (d.refill w).state.state.transcript =
      match d.nextLine? w.state with
      | .ok line => w.state.transcript.map (Transcript.logInput (chomp line))
      | .error _ => w.state.transcript := by
  rcases hflush : d.flush w.state.sink with ⟨fault | ⟨⟩, sink, log⟩
  · rw [refill, bind_error (flushConsole_of_eq hflush), nextLine?, hflush]
  · obtain ⟨hout, hkeep⟩ := d.takeLine_line?
      ⟨{ w.state with sink }, w.contacts ++ [.flushed true]⟩
    have hline : d.line? { w.state with sink } = d.line? w.state := rfl
    have hflush' : d.flushConsole w =
        ⟨.ok (), ⟨{ w.state with sink }, w.contacts ++ [.flushed true]⟩, log⟩ :=
      flushConsole_of_eq hflush
    rw [refill, bind_ok hflush', nextLine?, hflush, ← hline, ← hout]
    rcases htake : d.takeLine ⟨{ w.state with sink }, w.contacts ++ [.flushed true]⟩ with
      ⟨fault | line, w', log'⟩
    · rw [htake] at hkeep
      rw [bind_error htake, htake]
      exact hkeep
    · rw [htake] at hkeep
      rw [bind_ok htake, htake]
      exact congrArg (Option.map (Transcript.logInput (chomp line))) hkeep

theorem transcript_readChar (d : Devices) (w : Watched Console) :
    (d.readChar w).state.state.transcript =
      w.state.transcript.map (Transcript.logAll (d.said .read w)) := by
  rcases hp : w.state.pending with _ | ⟨c, rest⟩
  · have hrefill := d.transcript_refill ⟨w.state, w.contacts ++ [.asked]⟩
    have hread : (d.readChar w).state.state.transcript =
        (d.refill ⟨w.state, w.contacts ++ [.asked]⟩).state.state.transcript := by
      have hcode (transcript : Option Transcript) :
          Keeps (fun w => w.state.transcript = transcript) (unseen Console.takeCode) :=
        fun w hw => Console.keeps_takeCode (P := fun console => console.transcript = transcript)
          (fun _ _ h => h) w.state hw
      rw [readChar_of_nil d hp]
      exact Keeps.state_bind (P := fun w' : Watched Console => w'.state.transcript = _) rfl
        fun _ => hcode _
    rw [hread, hrefill, said, hp]
    rcases d.nextLine? w.state with fault | line
    · exact (map_logAll_nil _).symm
    · rfl
  · obtain ⟨pending, hstate, -⟩ := Console.takeCode_frame w.state
    have hkeep : (d.readChar w).state.state.transcript = w.state.transcript := by
      rw [readChar_of_cons d hp]
      show (Console.takeCode w.state).state.transcript = _
      rw [hstate]
    rw [hkeep, said, hp, map_logAll_nil]

/-- **A transcript is extended by what was said.** -/
theorem transcript_use {u : Use} (hu : u ≠ .record) (d : Devices) (w : Watched Console) :
    (d.use u w).state.transcript = w.state.transcript.map (Transcript.logAll (d.said u w)) := by
  cases u with
  | read => exact d.transcript_readChar w
  | write code => exact d.transcript_writeChar code w
  | flush =>
    rw [use, flushFor, call_bind]
    exact (map_logAll_nil _).symm
  | queueLines lines => exact (map_logAll_nil _).symm
  | record => exact absurd rfl hu

/-- To ask for a transcript that is kept adds nothing. -/
theorem transcript_use_of_some (h : w.state.transcript = some t) (d : Devices) (u : Use) :
    (d.use u w).state.transcript = some (t.logAll (d.said u w)) := by
  by_cases hu : u = .record
  · rw [hu, use, Console.record, h]
    rfl
  · rw [transcript_use hu, h]
    rfl

theorem transcript_serve_of_some (h : w.state.transcript = some t) (d : Devices)
    (uses : List Use) :
    (d.serve uses w).state.transcript = some (t.logAll (d.conversation uses w)) := by
  induction uses generalizing w t with
  | nil => exact h
  | cons u uses ih =>
    rw [serve, ih (transcript_use_of_some h d u), conversation, Transcript.logAll,
      Transcript.logAll, Transcript.logAll, List.foldl_append]

/-- **A transcript begins with the first use that asks for it.** -/
theorem transcript_serve (h : w.state.transcript = none) (d : Devices) (uses : List Use) :
    (d.serve uses w).state.transcript =
      (d.recorded uses w).map fun entries => Transcript.empty.logAll entries := by
  induction uses generalizing w with
  | nil => exact h
  | cons u uses ih =>
    rw [serve]
    by_cases hu : u = .record
    · have hrecord : (d.use .record w).state.transcript = some .empty := by
        rw [use, Console.record, h]
        rfl
      rw [hu]
      exact transcript_serve_of_some hrecord d uses
    · have hnone : (d.use u w).state.transcript = none := by
        rw [transcript_use hu, h]
        rfl
      rw [ih hnone]
      cases u with
      | record => exact absurd rfl hu
      | read | write | flush | queueLines => rfl

/-! ## The bytes that were written -/

/-- Sinks with this property take everything that is written to them, and a flush does not change
    what was written, whether it succeeds or not. -/
structure TakesAll (d : Devices) (P : Sink → Prop) : Prop where
  write : ∀ sink bytes, P sink → (d.write bytes sink).outcome = .ok () ∧
    P (d.write bytes sink).state ∧
    (d.write bytes sink).state.written.toList = sink.written.toList ++ bytes
  flush : ∀ sink, P sink →
    P (d.flush sink).state ∧ (d.flush sink).state.written = sink.written

/-- A read does no more to the sink than to flush it. -/
theorem sink_readChar (d : Devices) (w : Watched Console) :
    (d.readChar w).state.state.sink = w.state.sink ∨
      (d.readChar w).state.state.sink = (d.flush w.state.sink).state := by
  rcases hp : w.state.pending with _ | ⟨c, rest⟩
  · rcases hflush : d.flush w.state.sink with ⟨fault | ⟨⟩, sink, log⟩
    · rw [readChar_of_refused hp hflush]
      exact Or.inr rfl
    · obtain ⟨c, -, hread⟩ := at_readChar hp hflush
      exact Or.inr hread.2
  · obtain ⟨pending, hstate, -⟩ := Console.takeCode_frame w.state
    refine Or.inl ?_
    rw [readChar_of_cons d hp]
    show (Console.takeCode w.state).state.sink = _
    rw [hstate]

theorem flatMap_written_said_read (d : Devices) (w : Watched Console) :
    (d.said .read w).flatMap Entry.written = [] := by
  rw [said]
  split
  · rfl
  · rfl

/-- The bytes of what was said are written, if the sink takes everything. -/
theorem written_use {P : Sink → Prop} (hd : d.TakesAll P) (h : P w.state.sink) (u : Use) :
    P (d.use u w).state.sink ∧
      (d.use u w).state.sink.written.toList =
        w.state.sink.written.toList ++ (d.said u w).flatMap Entry.written := by
  obtain ⟨hflush, hkeep⟩ := hd.flush w.state.sink h
  cases u with
  | read =>
    rw [flatMap_written_said_read, List.append_nil, use]
    rcases d.sink_readChar w with hsink | hsink
    · rw [hsink]
      exact ⟨h, rfl⟩
    · rw [hsink, hkeep]
      exact ⟨hflush, rfl⟩
  | write code =>
    obtain ⟨hok, hP, hwritten⟩ :=
      hd.write w.state.sink (String.utf8EncodeChar (Console.charOf code)) h
    rcases hw : d.write (String.utf8EncodeChar (Console.charOf code)) w.state.sink with
      ⟨outcome, sink, log⟩
    rw [hw] at hok hP hwritten
    obtain rfl : outcome = .ok () := hok
    obtain ⟨hout, hstate⟩ := writeChar_of_ok hw
    rw [use, hstate, said, hout]
    simp only [List.flatMap_singleton, Entry.written_singleton]
    exact ⟨hP, hwritten⟩
  | flush =>
    have hstate : (d.use .flush w).state.sink = (d.flush w.state.sink).state := by
      rw [use, flushFor, call_bind]
      rfl
    rw [hstate, hkeep]
    exact ⟨hflush, (List.append_nil _).symm⟩
  | queueLines | record => exact ⟨h, (List.append_nil _).symm⟩

theorem written_serve {P : Sink → Prop} (hd : d.TakesAll P) (h : P w.state.sink)
    (uses : List Use) :
    (d.serve uses w).state.sink.written.toList =
      w.state.sink.written.toList ++ (d.conversation uses w).flatMap Entry.written := by
  induction uses generalizing w with
  | nil => exact (List.append_nil _).symm
  | cons u uses ih =>
    obtain ⟨hP, hwritten⟩ := written_use hd h u
    rw [serve, ih hP, hwritten, conversation, List.flatMap_append, List.append_assoc]

/-- **What a transcript shows and what was written**, if the sink takes everything and a transcript
    is kept from the start. -/
theorem written_eq_entries {P : Sink → Prop} (hd : d.TakesAll P) (h : P w.state.sink)
    (hnone : w.state.transcript = none) (uses : List Use) :
    ∃ t, (d.serve (.record :: uses) w).state.transcript = some t ∧
      (d.serve (.record :: uses) w).state.sink.written.toList =
        w.state.sink.written.toList ++ t.entries.flatMap Entry.written := by
  refine ⟨_, transcript_serve hnone d (.record :: uses), ?_⟩
  rw [written_serve hd h, (Transcript.logAll_empty _).1, Entry.flatMap_written_grouped]
  rfl

/-- The entries and the inputs are what was said, grouped. -/
theorem shows_recorded (hnone : w.state.transcript = none) (d : Devices) (uses : List Use) :
    (d.serve uses w).state.transcript.map Transcript.entries =
        (d.recorded uses w).map Entry.grouped ∧
      (d.serve uses w).state.transcript.map Transcript.inputs =
        (d.recorded uses w).map (List.filterMap Entry.line?) ∧
      ∀ t, (d.serve uses w).state.transcript = some t → Entry.Grouped t.entries := by
  rw [transcript_serve hnone]
  refine ⟨?_, ?_, ?_⟩
  · rw [Option.map_map]
    exact congrArg (Option.map · _) (funext fun entries => (Transcript.logAll_empty entries).1)
  · rw [Option.map_map]
    exact congrArg (Option.map · _) (funext fun entries => (Transcript.logAll_empty entries).2)
  · intro t ht
    obtain ⟨entries, -, rfl⟩ := Option.map_eq_some_iff.mp ht
    rw [(Transcript.logAll_empty entries).1]
    exact Entry.grouped_isGrouped entries

/-! ## The devices of a console -/

theorem nextLine?_plain (console : Console) : plain.nextLine? console = console.nextLine? := by
  obtain ⟨source, ⟨written, capacity, failure, flushes⟩, pending, queue, transcript⟩ := console
  cases failure with
  | some text => rfl
  | none => cases queue with
    | nil => rfl
    | cons line queue => rfl

theorem said_plain (u : Use) (w : Watched Console) : plain.said u w = w.state.said u := by
  cases u with
  | read => rw [said, Console.said, nextLine?_plain]
  | write code => rw [said, Console.said, (alike_writeChar code w _ rfl).1]
  | flush | queueLines | record => rfl

theorem conversation_plain (uses : List Use) (w : Watched Console) :
    plain.conversation uses w = w.state.conversation uses := by
  induction uses generalizing w with
  | nil => rfl
  | cons u uses ih => rw [conversation, Console.conversation, ih, said_plain, state_use_plain]

theorem recorded_plain (uses : List Use) (w : Watched Console) :
    plain.recorded uses w = w.state.recorded uses := by
  induction uses generalizing w with
  | nil => rfl
  | cons u uses ih =>
    have hnext := ih (plain.use u w)
    rw [state_use_plain] at hnext
    cases u with
    | record => exact congrArg some (conversation_plain uses _)
    | read | write | flush | queueLines => exact hnext

/-- A sink without a limit takes everything. -/
theorem takesAll_plain : plain.TakesAll fun sink => sink.capacity = none := by
  refine ⟨fun sink bytes h => ?_, fun sink h => ?_⟩
  · have hfits := Sink.fits_of_capacity_eq_none h bytes
    have hw : plain.write bytes sink = _ := Sink.write_of_fits hfits
    rw [hw]
    exact ⟨rfl, h, Array.toList_appendList⟩
  · obtain ⟨written, capacity, failure, flushes⟩ := sink
    cases failure with
    | none => exact ⟨h, rfl⟩
    | some text => exact ⟨h, rfl⟩

end Devices

namespace Console

variable {console : Console}

theorem transcript_writeChar (code : Word) (console : Console) :
    (writeChar code console).state.transcript =
      console.transcript.map (Transcript.logAll (console.said (.write code))) := by
  have h := Devices.plain.transcript_writeChar code ⟨console, []⟩
  rw [Devices.said_plain, (Devices.alike_writeChar code _ _ rfl).2.2] at h
  exact h

theorem transcript_readChar (console : Console) :
    (readChar console).state.transcript =
      console.transcript.map (Transcript.logAll (console.said .read)) := by
  have h := Devices.plain.transcript_readChar ⟨console, []⟩
  rw [Devices.said_plain, (Devices.alike_readChar _ _ rfl).2.2] at h
  exact h

/-- A read does no more to the sink than to flush it. -/
theorem keeps_readChar {P : Sink → Prop} (hflush : ∀ sink, P sink → P sink.flushed) :
    Keeps (fun console => P console.sink) readChar := by
  intro console h
  have hflushed : (Sink.flush console.sink).state = console.sink.flushed :=
    congrArg (fun r => r.state.sink) (flush_apply console)
  have hsink := Devices.plain.sink_readChar ⟨console, []⟩
  rw [(Devices.alike_readChar _ _ rfl).2.2] at hsink
  rcases hsink with hsink | hsink
  · exact hsink ▸ h
  · rw [hsink]
    exact hflushed ▸ hflush console.sink h

theorem flatMap_written_said_read (console : Console) :
    (console.said .read).flatMap Entry.written = [] := by
  rw [← Devices.said_plain .read ⟨console, []⟩]
  exact Devices.flatMap_written_said_read .plain ⟨console, []⟩

theorem transcript_serve_of_some {t : Transcript} (h : console.transcript = some t)
    (uses : List Use) :
    (console.serve uses).2.transcript = some (t.logAll (console.conversation uses)) := by
  have hserve := Devices.transcript_serve_of_some (w := ⟨console, []⟩) h .plain uses
  rw [Devices.state_serve_plain, Devices.conversation_plain] at hserve
  exact hserve

/-- **A transcript is the conversation.**  Over any uses of a console, its entries are what was said
    since the first use that asked for a transcript, with adjacent output in one run, and its
    inputs are the lines of that.  Where nothing limits the sink and a transcript is kept from the
    start, the bytes written on the way are those of its output.  The same holds over any devices
    in the place of its own. -/
theorem transcript_is_conversation (h : console.transcript = none) (uses : List Use) :
    ((console.serve uses).2.transcript.map Transcript.entries =
        (console.recorded uses).map Entry.grouped ∧
      (console.serve uses).2.transcript.map Transcript.inputs =
        (console.recorded uses).map (List.filterMap Entry.line?) ∧
      (∀ t, (console.serve uses).2.transcript = some t → Entry.Grouped t.entries) ∧
      (console.sink.capacity = none →
        ∃ t, (console.serve (.record :: uses)).2.transcript = some t ∧
          (console.serve (.record :: uses)).2.sink.written.toList =
            console.sink.written.toList ++ t.entries.flatMap Entry.written)) ∧
    ∀ (d : Devices) (contacts : List Contact),
      (d.serve uses ⟨console, contacts⟩).state.transcript.map Transcript.entries =
          (d.recorded uses ⟨console, contacts⟩).map Entry.grouped ∧
        (d.serve uses ⟨console, contacts⟩).state.transcript.map Transcript.inputs =
          (d.recorded uses ⟨console, contacts⟩).map (List.filterMap Entry.line?) ∧
        (∀ t, (d.serve uses ⟨console, contacts⟩).state.transcript = some t →
          Entry.Grouped t.entries) ∧
        ∀ P, d.TakesAll P → P console.sink →
          ∃ t, (d.serve (.record :: uses) ⟨console, contacts⟩).state.transcript = some t ∧
            (d.serve (.record :: uses) ⟨console, contacts⟩).state.sink.written.toList =
              console.sink.written.toList ++ t.entries.flatMap Entry.written := by
  have hall (d : Devices) (contacts : List Contact) :=
    Devices.shows_recorded (w := ⟨console, contacts⟩) h d uses
  refine ⟨?_, fun d contacts => ?_⟩
  · obtain ⟨hentries, hinputs, hgrouped⟩ := hall .plain []
    rw [Devices.state_serve_plain, Devices.recorded_plain] at hentries hinputs
    rw [Devices.state_serve_plain] at hgrouped
    refine ⟨hentries, hinputs, hgrouped, fun hcapacity => ?_⟩
    have hwritten := Devices.written_eq_entries (w := ⟨console, []⟩) Devices.takesAll_plain
      hcapacity h uses
    rw [Devices.state_serve_plain] at hwritten
    exact hwritten
  · obtain ⟨hentries, hinputs, hgrouped⟩ := hall d contacts
    exact ⟨hentries, hinputs, hgrouped, fun P hd hP => Devices.written_eq_entries hd hP h uses⟩

/-- Recording begins behind a character that was written, and goes on where it is asked for again.
    A code that is no character is recorded as what was written for it.  A read whose flush fails
    records nothing, and the second one records the line. -/
theorem transcript_is_conversation_midway :
    let console := Console.new ⟨[97, 98, 10], none⟩ .unlimited
    let uses := [.write 63, .record, .write 33, .write 33, .read, .record, .write 55296]
    let tries := [.record, .write 33, .read, .write 33, .read]
    console.transcript = none ∧
      (console.serve uses).2.transcript.map Transcript.entries =
        some [.output "!!", .input "ab", .output "\uFFFD"] ∧
      (Devices.busyOnce.serve tries ⟨console, []⟩).state.transcript.map Transcript.entries =
        some [.output "!!", .input "ab"] := by
  intro console uses tries
  have hnone : console.transcript = none := rfl
  refine ⟨hnone, ?_, ?_⟩
  · rw [(transcript_is_conversation hnone uses).1.1]
    decide +kernel
  · rw [((transcript_is_conversation hnone tries).2 .busyOnce []).1]
    decide +kernel

end Console

end WordMachine
