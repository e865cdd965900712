/-
  What the reads of a console deliver: every line in order, once and whole.

  A console is used in any order: characters are read and written, the output is flushed, lines
  are queued and a transcript is begun.  What the reads come to depends on the reads and on the
  queued lines alone.

  * `Use` is one use, `Console.use` the console after it, and `Console.serve` what a list of them
    does;
  * `Feed` is what is left to deliver: of the current line, in the queue, and of the source, cut
    into lines.  `Feed.read` says which comes next, and `Feed.serve` carries out a list of uses;
  * `readChar_feed`: a read of the console is a read of its feed;
  * `Accounts`: the lines taken and what is left of them, which `accounts_read` and
    `accounts_serve` keep;
  * `serve_delivers`: the two come to the same over any uses, and nothing is lost on the way.
-/
import WordMachine.Proofs.Lines
import WordMachine.Proofs.Refill

namespace WordMachine

open WordMachine.Action

/-! ## Uses -/

/-- What the owner of a console asks of it. -/
inductive Use where
  | read
  | write (code : Word)
  | flush
  | queueLines (lines : List String)
  | record

/-- What the reads come to, and the console at the end.  A use that faults leaves a console to go
    on with. -/
def Console.serve : List Use → Console → List (Except Fault Word) × Console
  | [], console => ([], console)
  | .read :: uses, console =>
    let r := readChar console
    let rest := serve uses r.state
    (r.outcome :: rest.1, rest.2)
  | .write code :: uses, console => serve uses (writeChar code console).state
  | .flush :: uses, console => serve uses (flush console).state
  | .queueLines lines :: uses, console => serve uses (console.queueLines lines)
  | .record :: uses, console => serve uses console.record

/-- The console after one use. -/
def Console.use : Use → Console → Console
  | .read, console => (readChar console).state
  | .write code, console => (writeChar code console).state
  | .flush, console => (flush console).state
  | .queueLines lines, console => console.queueLines lines
  | .record, console => console.record

theorem Console.serve_cons (u : Use) (uses : List Use) (console : Console) :
    (console.serve (u :: uses)).2 = ((console.use u).serve uses).2 := by
  cases u with
  | read | write | flush | queueLines | record => rfl

/-- The lines that are queued on the way. -/
def queuedBy : List Use → List String
  | [] => []
  | .queueLines lines :: uses => lines ++ queuedBy uses
  | _ :: uses => queuedBy uses

/-! ## Feeds -/

/-- What a line of the source reads as.  Where the source fails, a line without a newline never
    ends: it is lost, and what is read is the failure. -/
def Source.reading (failure : Option String) (line : List UInt8) : Except Fault String :=
  match failure with
  | none => textOf line
  | some text =>
    if line.getLast? = some newline then textOf line else .error (.device (.reported text))

/-- What is left to deliver: the characters of the current line, the lines in the queue, and the
    lines of the source.  After them the source ends, or it keeps failing. -/
structure Feed where
  current : List Char
  queue : List String
  lines : List (List UInt8)
  failure : Option String

namespace Feed

/-- A line is taken, and its first character delivered. -/
def start (line : String) (feed : Feed) : Except Fault Word × Feed :=
  (Console.codeOf ((Console.charsOf line).headD '\n'),
    { feed with current := (Console.charsOf line).tail })

/-- What a read comes to, and what is left to deliver after it. -/
def read : Feed → Except Fault Word × Feed
  -- The current line comes first, character by character.
  | ⟨c :: current, queue, lines, failure⟩ =>
    (Console.codeOf c, ⟨current, queue, lines, failure⟩)
  -- Then the oldest line of the queue.
  | ⟨[], line :: queue, lines, failure⟩ => start line ⟨[], queue, lines, failure⟩
  -- Then the next line of the source; it is used up even if it is no text.
  | ⟨[], [], line :: lines, failure⟩ =>
    match Source.reading failure line with
    | .ok text => start text ⟨[], [], lines, failure⟩
    | .error fault => (.error fault, ⟨[], [], lines, failure⟩)
  -- At the end nothing changes any more.
  | ⟨[], [], [], none⟩ => (.error .inputExhausted, ⟨[], [], [], none⟩)
  | ⟨[], [], [], some text⟩ => (.error (.device (.reported text)), ⟨[], [], [], some text⟩)

/-- What the reads come to, and what is left at the end.  Only queued lines add to it. -/
def serve : List Use → Feed → List (Except Fault Word) × Feed
  | [], feed => ([], feed)
  | .read :: uses, feed =>
    let rest := serve uses feed.read.2
    (feed.read.1 :: rest.1, rest.2)
  | .queueLines lines :: uses, feed => serve uses { feed with queue := feed.queue ++ lines }
  | _ :: uses, feed => serve uses feed

end Feed

namespace Console

variable {console : Console}

/-- What a console has left to deliver. -/
def feed (console : Console) : Feed :=
  ⟨console.pending, console.queue, cutAfter Source.newline console.source.bytes,
    console.source.failure⟩

/-! ## A read delivers what the feed says -/

theorem reading_of_newline (failure : Option String) (front : List UInt8) :
    Source.reading failure (front ++ [Source.newline]) =
      Source.textOf (front ++ [Source.newline]) := by
  cases failure with
  | none => rfl
  | some text => rw [Source.reading, if_pos List.getLast?_concat]

/-- Reading a line takes the first one, and all of its bytes. -/
theorem readLine_cases (source : Source) :
    (source.bytes = [] ∧ Source.readLine source =
      ⟨.error (source.failure.elim .inputExhausted fun text => .device (.reported text)),
        source, []⟩) ∨
    ∃ line rest, cutAfter Source.newline source.bytes = line :: cutAfter Source.newline rest ∧
      Source.readLine source =
        ⟨Source.reading source.failure line, ⟨rest, source.failure⟩, []⟩ := by
  obtain ⟨bytes, failure⟩ := source
  rcases eq_nil_or_run Source.newline bytes with rfl | ⟨hne, h⟩ | ⟨front, rest, h, rfl⟩
  · refine Or.inl ⟨rfl, ?_⟩
    cases failure with
    | none => rfl
    | some text => rfl
  · refine Or.inr ⟨bytes, [], by rw [cutAfter_of_not_mem hne h]; rfl, ?_⟩
    cases failure with
    | none => exact Source.readLine_of_last hne h
    | some text =>
      have hlast : bytes.getLast? ≠ some Source.newline :=
        fun heq => h (List.mem_of_getLast? heq)
      rw [Source.readLine_of_cut h, Source.reading, if_neg hlast]
  · refine Or.inr ⟨front ++ [Source.newline], rest, cutAfter_append_cons h rest, ?_⟩
    rw [Source.readLine_of_newline h, reading_of_newline]

/-- A read of a console comes to what its feed says, and leaves what the feed says. -/
theorem readChar_feed (h : console.sink.Infallible) :
    ((readChar console).outcome, (readChar console).state.feed) = console.feed.read ∧
      (readChar console).state.sink.Infallible := by
  obtain ⟨source, sink, pending, queue, transcript⟩ := console
  have hs : sink.flushed.Infallible := Sink.Infallible.flushed h
  rcases pending with _ | ⟨c, rest⟩
  · rcases queue with _ | ⟨line, queue⟩
    · rcases readLine_cases source with ⟨hbytes, hread⟩ | ⟨line, rest, hcut, hread⟩
      · rw [readChar_of_no_line h rfl (takeLine_of_source rfl hread)]
        refine ⟨?_, hs⟩
        simp only [feed, flushed, hbytes, cutAfter_nil]
        cases source.failure with
        | none => rfl
        | some text => rfl
      · rcases hreading : Source.reading source.failure line with fault | text
        · rw [hreading] at hread
          rw [readChar_of_no_line h rfl (takeLine_of_source rfl hread)]
          refine ⟨?_, hs⟩
          simp only [feed, hcut, Feed.read, hreading]
          rfl
        · rw [hreading] at hread
          rw [readChar_of_line h rfl (takeLine_of_source rfl hread)]
          refine ⟨?_, hs⟩
          simp only [feed, hcut, Feed.read, hreading]
          rfl
    · rw [readChar_of_line h rfl (takeLine_of_queue rfl)]
      refine ⟨?_, hs⟩
      simp only [feed, Feed.read, Feed.start]
      rfl
  · rw [readChar_of_cons rfl]
    exact ⟨rfl, h⟩

/-- To write a character leaves the feed as it is. -/
theorem feed_writeChar (h : console.sink.Infallible) (code : Word) :
    (writeChar code console).state.feed = console.feed ∧
      (writeChar code console).state.sink.Infallible := by
  have hkeep : Keeps (fun c : Console => c.feed = console.feed ∧ c.sink.Infallible)
      (writeChar code) :=
    keeps_writeChar (fun bytes _ hc => ⟨hc.1, hc.2.write bytes⟩) (fun _ _ hc => hc) code
  exact hkeep console ⟨rfl, h⟩

/-- Over any uses, the reads come to what the feed says. -/
theorem serve_feed (h : console.sink.Infallible) (uses : List Use) :
    (console.serve uses).1 = (console.feed.serve uses).1 ∧
      (console.serve uses).2.feed = (console.feed.serve uses).2 := by
  induction uses generalizing console with
  | nil => exact ⟨rfl, rfl⟩
  | cons use uses ih =>
    cases use with
    | read =>
      obtain ⟨hread, hs⟩ := readChar_feed h
      obtain ⟨hreads, hfeed⟩ := ih hs
      rw [Feed.serve, ← hread]
      exact ⟨congrArg _ hreads, hfeed⟩
    | write code =>
      obtain ⟨hfeed, hs⟩ := feed_writeChar h code
      have hrest := ih hs
      rw [hfeed] at hrest
      exact hrest
    | flush =>
      have hflush : (flush console).state = console.flushed := by rw [flush_eq h]
      rw [serve, hflush]
      exact @ih console.flushed h.flushed
    | queueLines lines => exact @ih (console.queueLines lines) h
    | record => exact @ih console.record h

end Console

/-! ## Nothing is lost -/

/-- A line that was taken: one of the queue, or one of the source. -/
inductive Taken where
  | queued (line : String)
  | read (line : List UInt8)

namespace Taken

def queued? : Taken → Option String
  | queued line => some line
  | read _ => none

def read? : Taken → Option (List UInt8)
  | queued _ => none
  | read line => some line

/-- The characters handed out for a line.  There are none for a line of the source that reads as a
    fault. -/
def chars (failure : Option String) : Taken → List Char
  | queued line => Console.charsOf line
  | read line =>
    match Source.reading failure line with
    | .ok text => Console.charsOf text
    | .error _ => []

end Taken

/-- The code that a read used up, whether or not it is a value. -/
def codeTaken? : Except Fault Word → Option Nat
  | .ok code => some code.toNat
  | .error (.valueRange code) => some code
  | .error _ => none

/-- What was taken on the way from one feed to another, while lines were added to the queue: with
    what is left it makes up what there was. -/
structure Accounts (feed : Feed) (added : List String) (taken : List Taken)
    (outcomes : List (Except Fault Word)) (feed' : Feed) : Prop where
  queue : feed.queue ++ added = taken.filterMap Taken.queued? ++ feed'.queue
  lines : feed.lines = taken.filterMap Taken.read? ++ feed'.lines
  codes : (feed.current ++ taken.flatMap (Taken.chars feed.failure)).map Char.toNat =
    outcomes.filterMap codeTaken? ++ feed'.current.map Char.toNat
  failure : feed'.failure = feed.failure

namespace Accounts

variable {feed feed' feed'' : Feed} {added added' : List String} {taken taken' : List Taken}
  {outcomes outcomes' : List (Except Fault Word)}

theorem refl (feed : Feed) : Accounts feed [] [] [] feed := by
  refine ⟨?_, rfl, ?_, rfl⟩
  · simp
  · simp

theorem trans (h : Accounts feed added taken outcomes feed')
    (h' : Accounts feed' added' taken' outcomes' feed'') :
    Accounts feed (added ++ added') (taken ++ taken') (outcomes ++ outcomes') feed'' where
  queue := by
    rw [← List.append_assoc, h.queue, List.append_assoc, h'.queue, List.filterMap_append,
      List.append_assoc]
  lines := by rw [h.lines, h'.lines, List.filterMap_append, List.append_assoc]
  codes := by
    have hcodes := h'.codes
    rw [h.failure] at hcodes
    rw [List.flatMap_append, ← List.append_assoc, List.map_append, h.codes, List.append_assoc,
      ← List.map_append, hcodes, List.filterMap_append, List.append_assoc]
  failure := h'.failure.trans h.failure

end Accounts

theorem codeTaken?_codeOf (c : Char) : codeTaken? (Console.codeOf c) = some c.toNat := by
  unfold Console.codeOf
  split
  · next h =>
    have hcode : (UInt16.ofNat c.toNat).toNat = c.toNat :=
      UInt16.toNat_ofNat_of_lt' (Nat.lt_trans h (by decide))
    rw [codeTaken?, hcode]
  · rfl

/-- A line that does not read as a text is the device's fault. -/
theorem codeTaken?_of_reading {failure : Option String} {line : List UInt8} {fault : Fault}
    (h : Source.reading failure line = .error fault) : codeTaken? (.error fault) = none := by
  have htext {fault : Fault} (h : Source.textOf line = .error fault) :
      codeTaken? (.error fault) = none := by
    unfold Source.textOf at h
    split at h
    · cases h
    · cases h; rfl
  unfold Source.reading at h
  split at h
  · exact htext h
  · split at h
    · exact htext h
    · cases h; rfl

/-- The first character of a line is delivered, the others are left. -/
theorem codes_start (line : String) :
    (Console.charsOf line).map Char.toNat =
      [Console.codeOf ((Console.charsOf line).headD '\n')].filterMap codeTaken? ++
        (Console.charsOf line).tail.map Char.toNat := by
  conv => lhs; rw [Console.charsOf_eq_cons line]
  simp [codeTaken?_codeOf]

/-- The accounts of one read. -/
theorem accounts_read (feed : Feed) :
    ∃ taken, Accounts feed [] taken [feed.read.1] feed.read.2 := by
  obtain ⟨current, queue, lines, failure⟩ := feed
  rcases current with _ | ⟨c, current⟩
  · rcases queue with _ | ⟨line, queue⟩
    · rcases lines with _ | ⟨line, lines⟩
      · refine ⟨[], ?_⟩
        cases failure with
        | none => exact ⟨rfl, rfl, rfl, rfl⟩
        | some text => exact ⟨rfl, rfl, rfl, rfl⟩
      · refine ⟨[.read line], ?_⟩
        rcases hreading : Source.reading failure line with fault | text
        · simp only [Feed.read, hreading]
          refine ⟨rfl, rfl, ?_, rfl⟩
          simp [Taken.chars, hreading, codeTaken?_of_reading hreading]
        · simp only [Feed.read, hreading]
          refine ⟨rfl, rfl, ?_, rfl⟩
          simp only [List.nil_append, List.flatMap_singleton, Taken.chars, hreading, Feed.start]
          exact codes_start text
    · refine ⟨[.queued line], List.append_nil _, rfl, ?_, rfl⟩
      simp only [List.nil_append, List.flatMap_singleton, Taken.chars, Feed.read, Feed.start]
      exact codes_start line
  · refine ⟨[], List.append_nil _, rfl, ?_, rfl⟩
    simp [Feed.read, codeTaken?_codeOf]

theorem accounts_serve (uses : List Use) (feed : Feed) :
    ∃ taken, Accounts feed (queuedBy uses) taken (feed.serve uses).1 (feed.serve uses).2 := by
  induction uses generalizing feed with
  | nil => exact ⟨[], .refl feed⟩
  | cons use uses ih =>
    cases use with
    | read =>
      obtain ⟨taken, hread⟩ := accounts_read feed
      obtain ⟨taken', hrest⟩ := ih feed.read.2
      exact ⟨taken ++ taken', hread.trans hrest⟩
    | queueLines lines =>
      obtain ⟨taken, hrest⟩ := ih { feed with queue := feed.queue ++ lines }
      refine ⟨taken, ?_, hrest.lines, hrest.codes, hrest.failure⟩
      rw [queuedBy, ← List.append_assoc]
      exact hrest.queue
    | write | flush | record => exact ih feed

namespace Console

variable {console : Console}

/-- **The reads of a console deliver every line in order, once and whole.**  They come to what its
    feed says: the current line first, then the queued lines in the order they were queued, then
    the lines of the source.  At any time, what was taken and what is left is all there was, and
    the codes of what was taken were handed out, but for those left of the current line. -/
theorem serve_delivers (h : console.sink.Infallible) (uses : List Use) :
    (console.serve uses).1 = (console.feed.serve uses).1 ∧
      (console.serve uses).2.feed = (console.feed.serve uses).2 ∧
      ∃ taken, Accounts console.feed (queuedBy uses) taken (console.serve uses).1
        (console.serve uses).2.feed := by
  obtain ⟨hreads, hfeed⟩ := serve_feed h uses
  obtain ⟨taken, haccounts⟩ := accounts_serve uses console.feed
  rw [← hreads, ← hfeed] at haccounts
  exact ⟨hreads, hfeed, taken, haccounts⟩

/-- A line that is no text, and a line that is queued behind it. -/
theorem serve_delivers_after_fault :
    let console := Console.new ⟨[255, 10], some "lost"⟩ .unlimited
    console.sink.Infallible ∧
      (console.serve [.read, .queueLines ["b"], .read, .record, .read, .read]).1 =
        [.error (.device .malformedText), .ok 98, .ok 10, .error (.device (.reported "lost"))] := by
  intro console
  have hs : console.sink.Infallible := ⟨rfl, rfl⟩
  refine ⟨hs, ?_⟩
  rw [(serve_delivers hs _).1]
  decide +kernel

/-- Where the source fails, the bytes behind the last newline are not delivered as a line. -/
theorem not_delivers_cut_line :
    ¬ ∀ (source : Source) (line : List UInt8) (lines : List (List UInt8)) (text : String),
      cutAfter Source.newline source.bytes = line :: lines → Source.textOf line = .ok text →
        (readChar (.new source .unlimited)).outcome = codeOf ((charsOf text).headD '\n') := by
  intro h
  have hline : cutAfter Source.newline [97] = [[97]] := cutAfter_of_not_mem (by simp) (by decide)
  have htext : Source.textOf [97] = .ok "a" := Source.textOf_encode ['a']
  have hread := h ⟨[97], some "lost"⟩ [97] [] "a" hline htext
  rw [readChar_of_no_line ⟨rfl, rfl⟩ rfl
    (takeLine_of_source rfl (Source.readLine_of_cut (by decide) "lost"))] at hread
  have hcode : codeOf ((charsOf "a").headD '\n') = .ok 97 := by decide +kernel
  rw [hcode] at hread
  cases hread

end Console

end WordMachine
