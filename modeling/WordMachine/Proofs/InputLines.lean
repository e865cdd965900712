/-
  A run depends on its input through the lines it takes.

  Where a line comes from does not matter, from the queue or from the source, and a line that is
  not taken does not matter either.

  * `Console.Offers`: the lines that are left to take, each without its end;
  * `Machine.asked`: for how many lines a number of steps asks; there is a flush for each of them
    (`flushes_after`);
  * `Console.Shares T n`: two consoles that offer the same first `n` lines and differ in nothing
    else but their transcripts, which `T` relates;
  * `shares_step`, `shares_after`: machines with such consoles go on in the same way, as long as
    they ask for no more lines than these;
  * `runsAlike_of_offers`: so do machines that agree and have the same lines left.
-/
import WordMachine.Proofs.Lines
import WordMachine.Proofs.Refill
import WordMachine.Proofs.TwoRuns
import Mathlib.Logic.Function.Iterate

namespace WordMachine

open WordMachine.Action

namespace Console

variable {console : Console} {lines : List String} {n : Nat}

/-! ## The lines that are left -/

/-- The lines left to take: those of the queue, then those of a source that holds a text. -/
def Offers (console : Console) (lines : List String) : Prop :=
  ∃ text, console.source = .ofText text ∧
    lines = (console.queue ++ linesThrough text).map chomp

theorem Offers.congr {console' : Console} (h : console.Offers lines)
    (hsource : console'.source = console.source) (hqueue : console'.queue = console.queue) :
    console'.Offers lines := by
  rw [Offers, hsource, hqueue]
  exact h

/-- The first line is taken, if there is one. -/
theorem takeLine_of_offers (h : console.Offers lines) :
    (lines = [] ∧ takeLine console = ⟨.error .inputExhausted, console, []⟩) ∨
      ∃ line rest source queue, lines = chomp line :: rest ∧
        takeLine console = ⟨.ok line, { console with source, queue }, []⟩ ∧
        Offers { console with source, queue } rest := by
  obtain ⟨source, sink, pending, queue, transcript⟩ := console
  obtain ⟨text, rfl, rfl⟩ := h
  rcases queue with _ | ⟨line, queue⟩
  · rcases Source.readLine_ofText text with ⟨hnil, hread⟩ | ⟨line, text', hlines, hread⟩
    · exact Or.inl ⟨by rw [hnil]; rfl, takeLine_of_source rfl hread⟩
    · refine Or.inr ⟨line, (linesThrough text').map chomp, .ofText text', [], ?_,
        takeLine_of_source rfl hread, text', rfl, rfl⟩
      rw [hlines]
      rfl
  · exact Or.inr ⟨line, (queue ++ linesThrough text).map chomp, .ofText text, queue, rfl,
      takeLine_of_queue rfl, text, rfl, rfl⟩

/-! ## Consoles that offer the same lines -/

variable {T : Option Transcript → Option Transcript → Prop}

/-- The consoles offer the same first `n` lines.  They may offer them from different places. -/
structure Shares (T : Option Transcript → Option Transcript → Prop) (n : Nat)
    (c c' : Console) : Prop where
  sink : c.sink = c'.sink
  infallible : c.sink.Infallible
  pending : c.pending = c'.pending
  transcript : T c.transcript c'.transcript
  lines : ∃ lines lines', c.Offers lines ∧ c'.Offers lines' ∧ lines.take n = lines'.take n

/-- What is recorded on both sides keeps the transcripts related. -/
def KeptByLogging (T : Option Transcript → Option Transcript → Prop) : Prop :=
  ∀ (f : Transcript → Transcript) t t', T t t' → T (t.map f) (t'.map f)

/-- To take a line uses up one of those that are shared. -/
theorem alike_readChar_of_nil (hT : KeptByLogging T) :
    Alike (fun c c' => Shares T (n + 1) c c' ∧ c.pending = []) readChar readChar (Shares T n) := by
  rintro c c' ⟨h, hp⟩
  have hp' : c'.pending = [] := h.pending ▸ hp
  have hs' : c'.sink.Infallible := h.sink ▸ h.infallible
  have hsink : c.flushed.sink = c'.flushed.sink := congrArg Sink.flushed h.sink
  obtain ⟨lines, lines', hlines, hlines', hshare⟩ := h.lines
  have hoffers : c.flushed.Offers lines := hlines
  have hoffers' : c'.flushed.Offers lines' := hlines'
  rcases takeLine_of_offers hoffers with
    ⟨rfl, htake⟩ | ⟨line, rest, source, queue, rfl, htake, hrest⟩
  · rcases takeLine_of_offers hoffers' with
      ⟨rfl, htake'⟩ | ⟨line', rest', source', queue', rfl, htake', hrest'⟩
    · rw [readChar_of_no_line h.infallible hp htake, readChar_of_no_line hs' hp' htake']
      exact ⟨rfl, rfl, hsink, h.infallible.flushed, h.pending, h.transcript, [], [], hlines,
        hlines', rfl⟩
    · cases hshare
  · rcases takeLine_of_offers hoffers' with
      ⟨rfl, htake'⟩ | ⟨line', rest', source', queue', rfl, htake', hrest'⟩
    · cases hshare
    · obtain ⟨hline, htail⟩ := List.cons.inj hshare
      have hchars : charsOf line = charsOf line' := by rw [charsOf, charsOf, hline]
      have htranscript : T (c.transcript.map (Transcript.logInput (chomp line)))
          (c'.transcript.map (Transcript.logInput (chomp line'))) := by
        rw [hline]
        exact hT _ _ _ h.transcript
      rw [readChar_of_line h.infallible hp htake, readChar_of_line hs' hp' htake', hchars, hline]
      dsimp only [start]
      exact ⟨rfl, rfl, hsink, h.infallible.flushed, rfl, htranscript, rest, rest',
        hrest.congr rfl rfl, hrest'.congr rfl rfl, htail⟩

theorem alike_readChar_of_ne :
    Alike (fun c c' => Shares T n c c' ∧ c.pending ≠ []) readChar readChar (Shares T n) := by
  rintro c c' ⟨h, hp⟩
  obtain ⟨x, rest, hp⟩ := List.exists_cons_of_ne_nil hp
  rw [readChar_of_cons hp, readChar_of_cons (h.pending ▸ hp)]
  exact ⟨rfl, rfl, h.sink, h.infallible, rfl, h.transcript, h.lines⟩

theorem alike_writeChar (hT : KeptByLogging T) (code : Word) :
    Alike (Shares T n) (writeChar code) (writeChar code) (Shares T n) := by
  have hwrite : Alike (Shares T n) (onSink (Sink.write (String.utf8EncodeChar (charOf code))))
      (onSink (Sink.write (String.utf8EncodeChar (charOf code)))) (Shares T n) := by
    intro c c' h
    rw [onSink_apply, onSink_apply, ← h.sink]
    exact ⟨rfl, rfl, rfl, h.infallible.write _, h.pending, h.transcript, h.lines⟩
  have hlog : Alike (Shares T n) (logged (Transcript.logOutput (String.singleton (charOf code))))
      (logged (Transcript.logOutput (String.singleton (charOf code)))) (Shares T n) :=
    .change fun c c' h =>
      ⟨h.sink, h.infallible, h.pending, hT _ _ _ h.transcript, h.lines⟩
  have hput := hwrite.bind fun _ => hlog
  exact .ite (.bind (.note _) fun _ => hput) hput

/-! ## Flushes -/

/-- The sink was flushed so many times. -/
def FlushedTimes (count : Nat) (console : Console) : Prop := console.sink.flushes = count

theorem keepsFlushes_writeChar (count : Nat) (code : Word) :
    Keeps (FlushedTimes count) (writeChar code) := by
  refine keeps_writeChar (fun bytes console h => ?_) (fun _ _ h => h) code
  rw [onSink_apply]
  simp only [Sink.write]
  split
  · exact h
  · exact h

/-- A line is asked for after one flush, whether or not there is one. -/
theorem flushes_readChar_of_nil (h : console.pending = []) :
    (readChar console).state.sink.flushes = console.sink.flushes + 1 := by
  have hflush : FlushedTimes (console.sink.flushes + 1) (flush console).state := by
    rw [flush_apply]
    rfl
  have hrefill : FlushedTimes (console.sink.flushes + 1) (refill console).state := by
    unfold refill
    exact Keeps.state_bind hflush fun _ => .bind (keeps_takeLine fun _ _ _ h => h) fun _ =>
      .bind (.note _) fun _ => .bind (fun _ h => h) fun _ => fun _ h => h
  rw [readChar_of_nil h]
  exact Keeps.state_bind hrefill fun _ => keeps_takeCode fun _ _ h => h

end Console

namespace Machine

variable {m m' : Machine} {n : Nat}

/-! ## Asking for lines -/

/-- The next step asks for a line. -/
def AsksLine (m : Machine) : Prop := m.Reads ∧ m.console.pending = []

instance (m : Machine) : Decidable m.AsksLine := inferInstanceAs (Decidable (_ ∧ _))

/-- The machine after a number of steps, which go on behind a fault. -/
def after (k : Nat) (m : Machine) : Machine := (fun m => (step m).state)^[k] m

theorem after_succ (k : Nat) (m : Machine) : m.after (k + 1) = (step m).state.after k := rfl

theorem after_succ' (k : Nat) (m : Machine) : m.after (k + 1) = (step (m.after k)).state :=
  Function.iterate_succ_apply' _ k m

/-- What every step keeps, any number of them keeps. -/
theorem keeps_after {P : Machine → Prop} (hstep : Keeps P step) (hm : P m) (k : Nat) :
    P (m.after k) :=
  Function.Iterate.rec P hm hstep k

/-- For how many lines these steps ask. -/
def asked : Nat → Machine → Nat
  | 0, _ => 0
  | k + 1, m => asked k (step m).state + if m.AsksLine then 1 else 0

/-- A step that asks for no line keeps what does not depend on the current line, if writing does. -/
theorem console_step_of_not_asks {P : Console → Prop} (hask : ¬ m.AsksLine) (h : P m.console)
    (hpending : ∀ c rest, P c → P { c with pending := rest })
    (hwrite : ∀ code, Keeps P (Console.writeChar code)) : P (step m).state.console := by
  refine console_step (P := fun c => P c ∧ (m.Reads → c.pending ≠ []))
    ⟨h, fun hr hp => hask ⟨hr, hp⟩⟩ (fun _ _ hc => hc.1) (fun hr c hc => ?_)
    (fun _ c code hc => hwrite code c hc.1)
  obtain ⟨x, rest, hp⟩ := List.exists_cons_of_ne_nil (hc.2 hr)
  rw [Console.readChar_of_cons hp]
  exact hpending c rest hc.1

theorem flushes_step (m : Machine) :
    (step m).state.console.sink.flushes =
      m.console.sink.flushes + if m.AsksLine then 1 else 0 := by
  by_cases hask : m.AsksLine
  · rw [if_pos hask, console_step_of_reads hask.1]
    exact Console.flushes_readChar_of_nil hask.2
  · rw [if_neg hask]
    exact console_step_of_not_asks (P := fun c => c.sink.flushes = m.console.sink.flushes) hask rfl
      (fun _ _ hc => hc) (Console.keepsFlushes_writeChar _)

/-- **Every line that is asked for is announced by one flush**, and nothing else flushes. -/
theorem flushes_after (k : Nat) (m : Machine) :
    (m.after k).console.sink.flushes = m.console.sink.flushes + m.asked k := by
  induction k generalizing m with
  | zero => rfl
  | succ k ih =>
    calc ((step m).state.after k).console.sink.flushes
        = (step m).state.console.sink.flushes + (step m).state.asked k := ih _
      _ = m.console.sink.flushes + m.asked (k + 1) := by
        rw [flushes_step, asked]
        omega

/-! ## Two machines that share lines -/

section

variable {T : Option Transcript → Option Transcript → Prop}

theorem shares_step (hT : Console.KeptByLogging T)
    (h : Beside (Console.Shares T (n + if m.AsksLine then 1 else 0)) m m') :
    (step m).outcome = (step m').outcome ∧ (step m).log = (step m').log ∧
      Beside (Console.Shares T n) (step m).state (step m').state := by
  by_cases hask : m.AsksLine
  -- To ask for a line takes one of those that are shared; any other step leaves them as they are.
  · rw [if_pos hask] at h
    have hm : Beside (fun c c' => Console.Shares T (n + 1) c c' ∧ c.pending = []) m m' :=
      ⟨h.store, h.stack, h.halted, h.onEmptyReturn, h.console, hask.2⟩
    exact alike_step hm (fun hno => absurd hask.1 hno)
      (fun _ => Console.alike_readChar_of_nil hT) (fun hno => absurd hask.1 hno)
  · rw [if_neg hask] at h
    have hm : Beside (fun c c' => Console.Shares T n c c' ∧ (m.Reads → c.pending ≠ [])) m m' :=
      ⟨h.store, h.stack, h.halted, h.onEmptyReturn, h.console, fun hr hp => hask ⟨hr, hp⟩⟩
    exact alike_step hm (fun _ c c' hc => hc.1)
      (fun hr c c' hc => Console.alike_readChar_of_ne c c' ⟨hc.1, hc.2 hr⟩)
      (fun _ code c c' hc => Console.alike_writeChar hT code c c' hc.1)

/-- The lines that are shared last for as many steps as ask for no more of them. -/
theorem shares_after (hT : Console.KeptByLogging T) {k : Nat}
    (h : Beside (Console.Shares T (n + m.asked k)) m m') :
    (∀ j < k, (step (m.after j)).outcome = (step (m'.after j)).outcome ∧
        (step (m.after j)).log = (step (m'.after j)).log) ∧
      Beside (Console.Shares T n) (m.after k) (m'.after k) := by
  induction k generalizing m m' with
  | zero => exact ⟨nofun, h⟩
  | succ k ih =>
    rw [asked, ← Nat.add_assoc] at h
    obtain ⟨hout, hlog, hstep⟩ := shares_step hT h
    obtain ⟨hrest, hend⟩ := ih hstep
    refine ⟨fun j hj => ?_, hend⟩
    cases j with
    | zero => exact ⟨hout, hlog⟩
    | succ j => exact hrest j (Nat.lt_of_succ_lt_succ hj)

end

/-! ## Machines that agree -/

/-- The machines agree, but for the lines they have left. -/
structure Agrees (m m' : Machine) : Prop where
  store : m.store = m'.store
  stack : m.stack = m'.stack
  halted : m.halted = m'.halted
  onEmptyReturn : m.onEmptyReturn = m'.onEmptyReturn
  pending : m.console.pending = m'.console.pending
  transcript : m.console.transcript = m'.console.transcript
  output : m.output = m'.output
  flushes : m.console.sink.flushes = m'.console.sink.flushes

/-- Over so many steps the machines come to the same, report the same, and agree at the end. -/
structure RunsAlike (k : Nat) (m m' : Machine) : Prop where
  outcome : ∀ j < k, (step (m.after j)).outcome = (step (m'.after j)).outcome
  log : ∀ j < k, (step (m.after j)).log = (step (m'.after j)).log
  agrees : (m.after k).Agrees (m'.after k)

theorem Beside.agrees (h : Beside (Console.Shares Eq n) m m') : m.Agrees m' where
  store := h.store
  stack := h.stack
  halted := h.halted
  onEmptyReturn := h.onEmptyReturn
  pending := h.console.pending
  transcript := h.console.transcript
  output := congrArg Sink.written h.console.sink
  flushes := congrArg Sink.flushes h.console.sink

variable {lines lines' : List String}

theorem Agrees.beside (h : m.Agrees m') (hs : m.console.sink.Infallible)
    (hs' : m'.console.sink.Infallible) (hl : m.console.Offers lines)
    (hl' : m'.console.Offers lines') (hshare : lines.take n = lines'.take n) :
    Beside (Console.Shares Eq n) m m' := by
  have hsink : m.console.sink = m'.console.sink := hs.ext hs' h.output h.flushes
  exact ⟨h.store, h.stack, h.halted, h.onEmptyReturn, hsink, hs, h.pending, h.transcript, lines,
    lines', hl, hl', hshare⟩

/-- **A run depends on its input only through the lines it takes.**  Machines that agree, and whose
    first `n` lines are the same wherever they come from, run alike for as many steps as the first
    one asks for no more than `n` lines; and for ever, if all their lines are the same. -/
theorem runsAlike_of_offers (hs : m.console.sink.Infallible) (hs' : m'.console.sink.Infallible)
    (hl : m.console.Offers lines) (hl' : m'.console.Offers lines') (h : m.Agrees m') :
    (∀ n k, lines.take n = lines'.take n → m.asked k ≤ n → RunsAlike k m m') ∧
      (lines = lines' → ∀ k, RunsAlike k m m') := by
  have hrun (n k : Nat) (hshare : lines.take n = lines'.take n) (hask : m.asked k ≤ n) :
      RunsAlike k m m' := by
    obtain ⟨spare, rfl⟩ := Nat.exists_eq_add_of_le' hask
    have hkept : Console.KeptByLogging Eq := fun f _ _ heq => congrArg (Option.map f) heq
    obtain ⟨hsteps, hend⟩ := shares_after hkept (h.beside hs hs' hl hl' hshare)
    exact ⟨fun j hj => (hsteps j hj).1, fun j hj => (hsteps j hj).2, hend.agrees⟩
  refine ⟨hrun, ?_⟩
  rintro rfl k
  exact hrun _ k rfl (Nat.le_refl _)

/-- A program that reads two characters into cell 6 and halts. -/
def readingTwo : Store := (Store.writeBlock 0 [20, 6, 20, 6, 0] .empty).state

/-- The first line comes from the queue or from the source; the second one is not taken. -/
theorem runsAlike_readingTwo :
    let m := (new readingTwo (.ofText "b\nc") .unlimited).queueLines ["a"]
    let m' := new readingTwo (.ofText "a\r\nd") .unlimited
    m.console.Offers ["a", "b", "c"] ∧ m'.console.Offers ["a", "d"] ∧ m.asked 3 ≤ 1 ∧
      RunsAlike 3 m m' := by
  intro m m'
  have hl : m.console.Offers ["a", "b", "c"] := ⟨"b\nc", rfl, by decide +kernel⟩
  have hl' : m'.console.Offers ["a", "d"] := ⟨"a\r\nd", rfl, by decide +kernel⟩
  have hask : m.asked 3 ≤ 1 := by decide +kernel
  have hs : Sink.unlimited.Infallible := ⟨rfl, rfl⟩
  have h : m.Agrees m' := ⟨rfl, rfl, rfl, rfl, rfl, rfl, rfl, rfl⟩
  exact ⟨hl, hl', hask, (runsAlike_of_offers hs hs hl hl' h).1 1 3 rfl hask⟩

end Machine

end WordMachine
