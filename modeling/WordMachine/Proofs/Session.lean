/-
  Sessions: the command line is a run of the machine, and the files that it keeps.

  * `Options.Finds`: the image and the lines to replay are there; `Options.machine`: the machine
    that is asked for;
  * `carryOut_prepare`, `carryOut_keepFiles`, `carryOut_session`: what a session comes to;
  * `Machine.Ends.record`: a run that keeps a transcript is the run without it, and
    `Machine.run_ok_iff_halted`: without a limit to the output it succeeds where the machine halts;
  * `Tells`: what an invocation shows, reports and keeps of a run, and `invoke_is_run`: every
    invocation does whose session files can be kept; `not_tells_of_creates`: that they can be
    created is not enough.
-/
import WordMachine.Proofs.Conversation
import WordMachine.Proofs.Perform
import WordMachine.Proofs.Recording
import WordMachine.Proofs.Sandbox

namespace WordMachine

open WordMachine.Action

/-! ## What is asked for -/

namespace Options

variable {options : Options} {files : Files} {image input : List UInt8} {lines : List String}

/-- The image that is asked for is there and loads, and so are the lines to replay. -/
structure Finds (options : Options) (files : Files) (image : List UInt8) (lines : List String) :
    Prop where
  found : files.read options.image = .ok image
  loads : (Store.loadImage image options.base .empty).outcome = .ok ()
  replays : match options.input with
    | none => lines = []
    | some path => ∃ contents text, files.read path = .ok contents ∧
        String.fromUTF8? contents.toByteArray = some text ∧ lines = Transcript.readInputs text

/-- The machine that is asked for, before its first step and without a transcript. -/
def machine (options : Options) (image : List UInt8) (lines : List String) (input : List UInt8) :
    Machine :=
  ((Machine.new (Store.loadImage image options.base .empty).state ⟨input, none⟩
    .unlimited).queueLines lines).withEmptyReturn (if options.strictReturn then .faults else .halts)

/-- The same machine, which keeps a transcript if a session file is asked for. -/
def prepared (options : Options) (image : List UInt8) (lines : List String)
    (input : List UInt8) : Machine :=
  if options.transcript.isSome ∨ options.replayOut.isSome then
    (options.machine image lines input).record
  else options.machine image lines input

end Options

namespace Sandbox

variable {fuel : Nat} {bound : Option Level} {s : Sandbox} {options : Options}
  {image input : List UInt8} {lines : List String}

theorem carryOut_keepFiles (fuel : Nat) (bound : Option Level) (s : Sandbox) (options : Options)
    (t : Transcript) :
    ∃ outcome files events, options.Keeping s.files (some t) outcome files ∧
      s.carryOut (keepFiles (host fuel bound) options t) =
        some (outcome, ({ s with files } : Sandbox).noting bound events) := by
  obtain ⟨outcome, files₁, events₁, h₁, hout₁⟩ :=
    carryOut_keepFile fuel bound s options.transcript t.render .transcriptWritten
  rw [t.render_eq, Sink.written_writeText] at h₁
  rw [keepFiles_eq]
  rcases outcome with problem | ⟨⟩
  · exact ⟨_, files₁, events₁, .stopped h₁, carryOut_bind_error hout₁⟩
  · obtain ⟨outcome, files₂, events₂, h₂, hout₂⟩ :=
      carryOut_keepFile fuel bound (({ s with files := files₁ } : Sandbox).noting bound events₁)
        options.replayOut t.renderInputs .inputsWritten
    rw [t.renderInputs_eq, Sink.written_writeText] at h₂
    refine ⟨outcome, files₂, events₁ ++ events₂, .went h₁ h₂, ?_⟩
    rw [carryOut_bind_ok hout₁, hout₂, ← noting_noting]
    rfl

/-! ## Preparing -/

theorem carryOut_prepare (fuel : Nat) (bound : Option Level) (input : List UInt8)
    (h : options.Finds s.files image lines) :
    ∃ events, s.carryOut (prepare (host fuel bound) options ⟨input, none⟩ .unlimited) =
      some (.ok (options.prepared image lines input), s.noting bound events) := by
  have himage : s.carryOut (readFile (host fuel bound) options.image) = some (.ok image, s) := by
    rw [carryOut_readFile, h.found]
    rfl
  let loaded := Store.loadImage image options.base .empty
  let reader (lines : List String) : Machine :=
    (Machine.new loaded.state ⟨input, none⟩ .unlimited).queueLines lines
  have hmachine : (if options.strictReturn then (reader lines).withEmptyReturn .faults
      else reader lines) = options.machine image lines input := by
    rw [Options.machine]
    rcases options.strictReturn with _ | _
    · rfl
    · rfl
  refine ⟨loaded.log, ?_⟩
  rw [prepare, carryOut_bind_ok himage]
  dsimp only
  rw [carryOut_bind_ok (carryOut_notes s _), h.loads]
  dsimp only
  have hreplays := h.replays
  rcases hinput : options.input with _ | path
  · rw [hinput] at hreplays
    obtain rfl := hreplays
    refine (carryOut_bind_ok (carryOut_pure _ [])).trans ?_
    rw [hmachine]
    rfl
  · rw [hinput] at hreplays
    obtain ⟨contents, text, hread, htext, rfl⟩ := hreplays
    have hread' : (s.noting bound loaded.log).files.read path = .ok contents := hread
    refine (carryOut_bind_ok (carryOut_readTextFile hread' htext)).trans ?_
    refine (carryOut_bind_ok (carryOut_pure _ _)).trans ?_
    rw [hmachine]
    rfl

/-! ## The run and its conclusion -/

/-- What is reported of a run if nothing else goes wrong. -/
def reported (r : Ran Machine Unit) : Except Problem Unit :=
  r.outcome.mapError (Problem.faulted r.state.store.pc)

/-- What is left to do after a run: the session files are written if a transcript was kept, and only
    then is a fault reported. -/
def conclude (host : Host Place (StateT Sandbox Option)) (options : Options)
    (t? : Option Transcript) (last : ExceptT Problem (StateT Sandbox Option) Unit) :
    ExceptT Problem (StateT Sandbox Option) Unit :=
  match t? with
  | some t => keepFiles host options t >>= fun _ => last
  | none => last

theorem carryOut_conclude (fuel : Nat) (bound : Option Level) (s : Sandbox) (options : Options)
    (t? : Option Transcript) {last : ExceptT Problem (StateT Sandbox Option) Unit}
    {report : Except Problem Unit} (hlast : ∀ s, carryOut s last = some (report, s)) :
    ∃ outcome files events, options.Keeping s.files t? outcome files ∧
      s.carryOut (conclude (host fuel bound) options t? last) =
        some (outcome >>= fun _ => report,
          ({ s with files } : Sandbox).noting bound events) := by
  cases t? with
  | none =>
    refine ⟨_, _, [], .silent, ?_⟩
    rw [noting_nil]
    exact hlast s
  | some t =>
    obtain ⟨outcome, files, events, hkeeping, hout⟩ := carryOut_keepFiles fuel bound s options t
    refine ⟨outcome, files, events, hkeeping, ?_⟩
    rcases outcome with problem | ⟨⟩
    · exact carryOut_bind_error hout
    · exact (carryOut_bind_ok hout).trans (hlast _)

/-- The fault of a run is thrown. -/
def reportFault (r : Ran Machine Unit) : ExceptT Problem (StateT Sandbox Option) Unit :=
  match r.outcome with
  | .error fault => throw (.faulted r.state.store.pc fault)
  | .ok () => pure ()

theorem carryOut_reportFault (r : Ran Machine Unit) (s : Sandbox) :
    s.carryOut (reportFault r) = some (reported r, s) := by
  rw [reportFault, reported]
  rcases r.outcome with fault | ⟨⟩
  · exact carryOut_throw s _
  · exact carryOut_pure s ()

/-- **A session is its run and its conclusion**, whatever becomes of the session files. -/
theorem carryOut_session_eq (s : Sandbox) (bound : Option Level) {r : Ran Machine Unit}
    (hfinds : options.Finds s.files image lines)
    (hrun : Machine.run fuel (options.prepared image lines input) = some r) :
    ∃ events, s.carryOut (session (host fuel bound) options ⟨input, none⟩ .unlimited) =
      (({ s with output := s.output ++ r.state.output } : Sandbox).noting bound events).carryOut
        (conclude (host fuel bound) options r.state.console.transcript (reportFault r)) := by
  obtain ⟨events, hprepare⟩ := carryOut_prepare fuel bound input hfinds
  rw [session, carryOut_bind_ok hprepare, carryOut_bind_ok (carryOut_execute hrun _)]
  obtain ⟨outcome, m, log⟩ := r
  dsimp only
  -- What follows the run is a match on the transcript, and so is its conclusion.
  rcases outcome with fault | ⟨⟩
  · refine ⟨events ++ log ++ [.stopped m.store.pc fault], ?_⟩
    dsimp only
    rw [carryOut_bind_ok (carryOut_note _ _), ← noting_noting, ← noting_noting]
    rcases m.console.transcript with _ | t
    · rfl
    · rfl
  · refine ⟨events ++ log, ?_⟩
    rw [← noting_noting]
    rcases m.console.transcript with _ | t
    · rfl
    · rfl

/-- **A session shows its run, keeps its files, and reports a fault last.** -/
theorem carryOut_session (s : Sandbox) (bound : Option Level) {r : Ran Machine Unit}
    (hfinds : options.Finds s.files image lines)
    (hrun : Machine.run fuel (options.prepared image lines input) = some r) :
    ∃ outcome files events,
      options.Keeping s.files r.state.console.transcript outcome files ∧
      s.carryOut (session (host fuel bound) options ⟨input, none⟩ .unlimited) =
        some (outcome >>= fun _ => reported r,
          ({ s with files, output := s.output ++ r.state.output } : Sandbox).noting bound
            events) := by
  obtain ⟨events, hsession⟩ := carryOut_session_eq s bound hfinds hrun
  obtain ⟨outcome, files, events', hkeeping, hend⟩ := carryOut_conclude fuel bound
    (({ s with output := s.output ++ r.state.output } : Sandbox).noting bound events)
    options r.state.console.transcript (carryOut_reportFault r)
  refine ⟨outcome, files, events ++ events', hkeeping, hsession.trans (hend.trans ?_)⟩
  rw [← noting_noting]
  rfl

/-- What an invocation comes to whose session comes to that. -/
def ending (outcome : Except Problem Unit) : Ending :=
  match outcome with
  | .ok () => .success
  | .error problem => .failure problem

/-- **An invocation that finds its image is a run**, and what becomes of the session files. -/
theorem invoke_of_run {arguments : List String} {files : Files} {r : Ran Machine Unit}
    (hfinds : options.Finds files image lines)
    (hparse : Request.parse arguments = .ok (.run options))
    (hrun : Machine.run fuel (options.prepared image lines input) = some r) :
    ∃ outcome files' events,
      options.Keeping files r.state.console.transcript outcome files' ∧
      invoke fuel files arguments input =
        some (ending (outcome >>= fun _ => reported r),
          (⟨files', r.state.output, []⟩ : Sandbox).noting options.logLevel events) := by
  obtain ⟨outcome, files', events, hkeeping, hsession⟩ :=
    carryOut_session ⟨files, #[], []⟩ options.logLevel hfinds hrun
  refine ⟨outcome, files', events, hkeeping, ?_⟩
  rw [Array.empty_append] at hsession
  unfold invoke WordMachine.invoke
  rw [hparse]
  show Option.bind (carryOut ⟨files, #[], []⟩
    (session (host fuel options.logLevel) options ⟨input, none⟩ .unlimited)) _ = _
  rw [hsession]
  rcases outcome >>= fun _ => reported r with problem | ⟨⟩
  · rfl
  · rfl

end Sandbox

/-! ## Runs with a transcript, and without a limit to the output -/

namespace Console

theorem keeps_transcript_readChar : Keeps (fun c => c.transcript.isSome) readChar := by
  intro c h
  rw [transcript_readChar, Option.isSome_map]
  exact h

theorem keeps_transcript_writeChar (code : Word) :
    Keeps (fun c => c.transcript.isSome) (writeChar code) := by
  intro c h
  rw [transcript_writeChar, Option.isSome_map]
  exact h

end Console

namespace Machine

variable {m : Machine} {r : Ran Machine Unit} {fuel : Nat}

theorem keeps_transcript_step : Keeps (fun m => m.console.transcript.isSome) step := fun _ hm =>
  console_step (P := fun c => c.transcript.isSome) (Q := fun c => c.transcript.isSome) hm
    (fun _ _ hc => hc) (fun _ => Console.keeps_transcript_readChar)
    (fun _ c code hc => Console.keeps_transcript_writeChar code c hc)

theorem keeps_transcript_finish (outcome : Except Fault Unit) :
    Keeps (fun m => m.console.transcript.isSome) (finish outcome) := by
  intro m hm
  rcases outcome with fault | ⟨⟩
  · rw [finish_error]
    exact hm
  · rw [finish_ok]
    exact hm

/-- **A run that keeps a transcript is the run without it.** -/
theorem Ends.record (h : m.Ends r) :
    ∃ m' t, m.record.Ends ⟨r.outcome, m', r.log⟩ ∧
      m'.unrecorded = r.state.unrecorded ∧ m'.console.transcript = some t := by
  obtain ⟨fuel, hrun⟩ := h
  obtain ⟨r, hends, rfl⟩ := Devices.ends_of_run (w := ⟨m, []⟩) hrun
  have hlike : Watched.Both (Beside Console.Like) ⟨m, []⟩ ⟨m.record, []⟩ :=
    ⟨⟨rfl, rfl, rfl, rfl, rfl⟩, rfl⟩
  obtain ⟨v, hrecord, hboth⟩ := hends.of_unrecorded hlike
  obtain ⟨fuel', hrun'⟩ := hrecord.ends
  have hsome : v.state.console.transcript.isSome :=
    keeps_run keeps_transcript_step keeps_transcript_finish (m := m.record) rfl hrun'
  obtain ⟨t, ht⟩ := Option.isSome_iff_exists.mp hsome
  exact ⟨v.state, t, ⟨fuel', hrun'⟩, (unrecorded_eq_iff.mpr hboth.state).symm, ht⟩

theorem infallible_step (h : m.console.sink.Infallible) : (step m).state.console.sink.Infallible :=
  console_step (P := fun c => c.sink.Infallible) (Q := fun c => c.sink.Infallible) h
    (fun _ _ hc => hc)
    (fun _ c hc => Console.keeps_readChar (fun _ hs => hs.flushed) c hc)
    (fun _ c code hc => Console.keeps_writeChar (P := fun c => c.sink.Infallible)
      (fun bytes _ hc => hc.write bytes) (fun _ _ hc => hc) code c hc)

/-- A step that faults does not halt. -/
theorem halted_of_step_error {fault : Fault} (hm : m.WellFormed)
    (h : (step m).outcome = .error fault) : (step m).state.halted = false := by
  obtain ⟨hr, ⟨p, -, hstate⟩ | ⟨i, -, -, hsame, -⟩⟩ := step_error_cases hm h
  · rw [hstate]
    exact hr
  · rw [hsame]
    exact hr

/-- **Without a limit to the output a run succeeds where the machine halts.** -/
theorem run_ok_iff_halted (hm : m.WellFormed) (hs : m.console.sink.Infallible)
    (h : run fuel m = some r) : r.outcome = .ok () ↔ r.state.halted = true := by
  induction fuel generalizing m r with
  | zero => cases h
  | succ fuel ih =>
    rcases hr : m.halted with _ | _
    · rcases hstep : step m with ⟨fault | ⟨⟩, m', log⟩
      · have hhalted := halted_of_step_error hm (congrArg Ran.outcome hstep)
        rw [hstep] at hhalted
        rw [run_of_fault hr hstep, finish_error] at h
        cases h
        exact iff_of_false nofun fun hh => Bool.false_ne_true (hhalted.symm.trans hh)
      · have hm' := keeps_step m hm
        have hs' := infallible_step hs
        rw [hstep] at hm' hs'
        rw [run_of_ok hr hstep] at h
        obtain ⟨r', hr', rfl⟩ := Option.map_eq_some_iff.mp h
        have hrest : r'.outcome = .ok () ↔ r'.state.halted = true := ih hm' hs' hr'
        exact hrest
    · rw [run_of_halted hr, finish_ok, Console.flush_eq hs] at h
      cases h
      exact iff_of_true rfl hr

end Machine

/-! ## Invocations -/

namespace Options

variable {options : Options} {image input : List UInt8} {lines : List String}

theorem wellFormed_machine (options : Options) (image : List UInt8) (lines : List String)
    (input : List UInt8) : (options.machine image lines input).WellFormed :=
  ⟨Store.keeps_loadImage image options.base _ Store.wellFormed_empty, CallStack.wellFormed_empty⟩

theorem infallible_machine (options : Options) (image : List UInt8) (lines : List String)
    (input : List UInt8) : (options.machine image lines input).console.sink.Infallible :=
  ⟨rfl, rfl⟩

/-- The machine that is run comes to what it comes to without a transcript, and its transcript is
    what it is whenever one is kept. -/
theorem run_prepared {fuel : Nat} {r : Ran Machine Unit} {m : Machine} {t : Transcript}
    (hrun : Machine.run fuel (options.machine image lines input) = some r)
    (hrecord : Machine.run fuel (options.machine image lines input).record =
      some ⟨r.outcome, m, r.log⟩)
    (hsame : m.unrecorded = r.state.unrecorded) (ht : m.console.transcript = some t) :
    ∃ m', Machine.run fuel (options.prepared image lines input) = some ⟨r.outcome, m', r.log⟩ ∧
      m'.unrecorded = r.state.unrecorded ∧
      (options.transcript.isSome ∨ options.replayOut.isSome → m'.console.transcript = some t) := by
  unfold Options.prepared
  split
  · exact ⟨m, hrecord, hsame, fun _ => ht⟩
  · next hno => exact ⟨r.state, hrun, rfl, fun h => absurd h hno⟩

/-- Without a request for a session file nothing has to be kept. -/
theorem keeps_of_asked {t : Transcript} {files : Files}
    (h : options.transcript.isSome ∨ options.replayOut.isSome → options.Keeps t files) :
    options.Keeps t files := by
  refine ⟨fun path hpath => ?_, fun path hpath => ?_⟩
  · exact (h (Or.inl (Option.isSome_of_mem hpath))).transcript path hpath
  · exact (h (Or.inr (Option.isSome_of_mem hpath))).replayOut path hpath

end Options

/-- What comes of an invocation that runs a machine to the end `r`, with the transcript `t`. -/
structure Tells (options : Options) (r : Ran Machine Unit) (t : Transcript) (ending : Ending)
    (s : Sandbox) : Prop where
  /-- It succeeds if the machine has halted. -/
  success : ending.exitStatus = 0 ∧ ending.report = [] ↔ r.state.halted = true
  /-- Otherwise it reports where the program has stopped, and why. -/
  failure : r.state.halted = false → ∃ fault, r.outcome = .error fault ∧
    ending.exitStatus = 1 ∧
    ending.report = s!"Program faulted at {r.state.store.pc.upperHex}" :: fault.message ::
      match fault with
      | .device error => [error.message]
      | _ => []
  /-- It shows the output and nothing else. -/
  output : s.output = r.state.output
  log : s.log = []
  /-- It keeps the transcript in the files that are asked for. -/
  keeps : options.Keeps t s.files

theorem tells_of_run {options : Options} {r : Ran Machine Unit} {t : Transcript} {s : Sandbox}
    (hend : r.outcome = .ok () ↔ r.state.halted = true) (houtput : s.output = r.state.output)
    (hlog : s.log = []) (hkeeps : options.Keeps t s.files) :
    Tells options r t (Sandbox.ending (Sandbox.reported r)) s := by
  unfold Sandbox.reported
  rcases hout : r.outcome with fault | ⟨⟩
  · have hr : r.state.halted = false := by
      rw [← Bool.not_eq_true, ← hend, hout]
      nofun
    refine ⟨iff_of_false (fun h => absurd h.1 nofun) ?_, fun _ => ⟨fault, hout, rfl, ?_⟩, houtput,
      hlog, hkeeps⟩
    · rw [hr]
      exact Bool.false_ne_true
    · cases fault with
      | device error => rfl
      | _ => rfl
  · have hr : r.state.halted = true := hend.mp hout
    refine ⟨iff_of_true ⟨rfl, rfl⟩ hr, fun h => ?_, houtput, hlog, hkeeps⟩
    cases hr.symm.trans h

theorem invoke_tells {options : Options} {files : Files} {image input : List UInt8}
    {lines arguments : List String} {fuel : Nat} {r : Ran Machine Unit} {m : Machine}
    {t : Transcript} (hfinds : options.Finds files image lines) (hquiet : options.logLevel = none)
    (hkeep : options.CanKeep files t) (hparse : Request.parse arguments = .ok (.run options))
    (hrun : Machine.run fuel (options.machine image lines input) = some r)
    (hrecord : Machine.run fuel (options.machine image lines input).record =
      some ⟨r.outcome, m, r.log⟩)
    (hsame : m.unrecorded = r.state.unrecorded) (ht : m.console.transcript = some t) :
    ∃ ending s, Sandbox.invoke fuel files arguments input = some (ending, s) ∧
      Tells options r t ending s := by
  obtain ⟨m', hrun', hsame', hkept⟩ := Options.run_prepared hrun hrecord hsame ht
  obtain ⟨outcome, files', events, hkeeping, hinvoke⟩ :=
    Sandbox.invoke_of_run hfinds hparse hrun'
  obtain rfl := (hkeeping.ok_iff_stores hkept).mpr hkeep.stores
  have hend := Machine.run_ok_iff_halted (options.wellFormed_machine image lines input)
    (options.infallible_machine image lines input) hrun
  have hpc : m'.store.pc = r.state.store.pc := congrArg (fun m => m.store.pc) hsame'
  have houtput : m'.output = r.state.output := congrArg (fun m => m.output) hsame'
  have hreported : Sandbox.reported ⟨r.outcome, m', r.log⟩ = Sandbox.reported r := by
    simp only [Sandbox.reported, hpc]
  rw [hquiet, Sandbox.noting_none] at hinvoke
  refine ⟨_, _, hinvoke, ?_⟩
  show Tells options r t (Sandbox.ending (Sandbox.reported ⟨r.outcome, m', r.log⟩)) _
  rw [hreported]
  refine tells_of_run hend houtput rfl (Options.keeps_of_asked fun hasked => ?_)
  rw [hkept hasked] at hkeeping
  exact hkeeping.keeps hkeep

/-- **The command line is a run of the machine, and the files that it keeps.**  An invocation that
    finds an image that loads, and the lines to replay, shows the output of the machine with that
    image and with those lines before its input, and reports how its run ends.  Whichever session
    files are asked for, if they can be created, if there is room for them and they are not the
    same, this does not change, and they hold the transcript of that run, whether it halts or
    faults. -/
theorem invoke_is_run {options : Options} {files : Files} {image input : List UInt8}
    {lines : List String} {r : Ran Machine Unit} (hfinds : options.Finds files image lines)
    (hquiet : options.logLevel = none) (h : (options.machine image lines input).Ends r) :
    ∃ t, (∃ m, (options.machine image lines input).record.Ends ⟨r.outcome, m, r.log⟩ ∧
        m.unrecorded = r.state.unrecorded ∧ m.console.transcript = some t) ∧
      ∃ steps, ∀ fuel ≥ steps, ∀ transcript replayOut arguments,
        ({ options with transcript, replayOut } : Options).CanKeep files t →
        Request.parse arguments = .ok (.run { options with transcript, replayOut }) →
        ∃ ending s, Sandbox.invoke fuel files arguments input = some (ending, s) ∧
          Tells { options with transcript, replayOut } r t ending s := by
  obtain ⟨m, t, hrecord, hsame, ht⟩ := h.record
  refine ⟨t, ⟨m, hrecord, hsame, ht⟩, ?_⟩
  obtain ⟨steps, hrun⟩ := h
  obtain ⟨steps', hrecord⟩ := hrecord
  refine ⟨max steps steps', fun fuel hfuel transcript replayOut arguments hkeep hparse => ?_⟩
  exact invoke_tells ⟨hfinds.found, hfinds.loads, hfinds.replays⟩ hquiet hkeep hparse
    (Machine.run_mono hrun ((Nat.le_max_left ..).trans hfuel))
    (Machine.run_mono hrecord ((Nat.le_max_right ..).trans hfuel)) hsame ht

/-- A program that reads a character into its own text and writes it, and then reads two more. -/
def readingOnImage : List UInt8 := Image.encode [20, 3, 19, 0, 20, 3, 20, 3]

/-- A program that returns at once. -/
def returningImage : List UInt8 := Image.encode [18]

/-- A run with both session files, which ends at a line of input that is not text, and a run that
    may not return from an empty stack. -/
theorem invoke_is_run_malformed_and_strict :
    let files := Files.workspace
      [("a.bin", readingOnImage), ("b.bin", returningImage), ("i.txt", [120, 10])]
    let keeping := ["a.bin", "--input", "i.txt", "--transcript", "t.txt", "--replay-out",
      "/work/r.txt", "--log-level", "off"]
    let strictly := ["b.bin", "--strict-ret", "--log-level", "off"]
    ∃ steps, ∀ fuel ≥ steps,
      (∃ ending s, Sandbox.invoke fuel files keeping [255, 10] = some (ending, s) ∧
        ending.exitStatus = 1 ∧
        ending.report = ["Program faulted at 0x0008",
          "i/o error: stream did not contain valid UTF-8", "stream did not contain valid UTF-8"] ∧
        s.output = #[120] ∧ s.files.read "t.txt" = .ok "> x\nx".toUTF8.data.toList ∧
        s.files.read "/work/r.txt" = .ok "x\n".toUTF8.data.toList) ∧
      ∃ ending s, Sandbox.invoke fuel files strictly [] = some (ending, s) ∧
        ending.exitStatus = 1 ∧
        ending.report = ["Program faulted at 0x0001", "pop from an empty stack"] := by
  intro files keeping strictly
  let options : Options :=
    ⟨"a.bin", 0, some "i.txt", some "t.txt", some "/work/r.txt", false, none⟩
  let m := options.machine readingOnImage ["x"] [255, 10]
  have hfinds : options.Finds files readingOnImage ["x"] :=
    ⟨by decide +kernel, by decide +kernel, [120, 10], "x\n", by decide +kernel, by decide +kernel,
      by decide +kernel⟩
  have hkeep : options.CanKeep files ⟨#[.input "x"], "x"⟩ := by
    refine ⟨⟨?_, ?_⟩, ?_⟩
    · rintro _ ⟨⟩
      exact Files.takes_iff.mpr ⟨["t.txt", "work"], .unlimited, by decide +kernel, rfl⟩
    · rintro _ ⟨⟩
      exact Files.takes_iff.mpr ⟨["r.txt", "work"], .unlimited, by decide +kernel, rfl⟩
    · rintro _ ⟨⟩ _ ⟨⟩ - -
      decide +kernel
  have hparse : Request.parse keeping = .ok (.run options) := by decide +kernel
  have hends := Machine.ends_of_steps_error
    (show (Machine.steps 4 m).outcome = .error (.device .malformedText) by decide +kernel)
  have hends' := Machine.ends_of_steps_error
    (show (Machine.steps 4 m.record).outcome = .error (.device .malformedText) by decide +kernel)
  have htext : (Machine.steps 4 m.record).state.flushed.console.transcript =
      some ⟨#[.input "x"], "x"⟩ := by decide +kernel
  -- Runs end in one way only, so the transcript is the one that these four steps have kept.
  obtain ⟨t, ⟨m', hrecord, -, ht⟩, steps, hinvoke⟩ := invoke_is_run hfinds rfl hends
  have hstate := congrArg (fun r => r.state.console.transcript) (hrecord.unique hends')
  obtain rfl : t = ⟨#[.input "x"], "x"⟩ :=
    Option.some.inj (ht.symm.trans (hstate.trans htext))
  let strict : Options := ⟨"b.bin", 0, none, none, none, true, none⟩
  have hfinds' : strict.Finds files returningImage [] :=
    ⟨by decide +kernel, by decide +kernel, rfl⟩
  have hparse' : Request.parse strictly = .ok (.run strict) := by decide +kernel
  have hreturn := Machine.ends_of_steps_error
    (show (Machine.steps 1 (strict.machine returningImage [] [])).outcome =
      .error .stackUnderflow by decide +kernel)
  obtain ⟨t', -, steps', hinvoke'⟩ := invoke_is_run hfinds' rfl hreturn
  refine ⟨max steps steps', fun fuel hfuel => ⟨?_, ?_⟩⟩
  · obtain ⟨ending, s, hs, htells⟩ :=
      hinvoke fuel ((Nat.le_max_left ..).trans hfuel) _ _ keeping hkeep hparse
    obtain ⟨fault, hfault, hstatus, hreport⟩ := htells.failure (by decide +kernel)
    obtain rfl : .device .malformedText = fault := Except.error.inj hfault
    refine ⟨ending, s, hs, hstatus, hreport.trans (by decide +kernel), ?_, ?_, ?_⟩
    · exact htells.output.trans (by decide +kernel)
    · exact (htells.keeps.transcript _ rfl).trans (by decide +kernel)
    · exact (htells.keeps.replayOut _ rfl).trans (by decide +kernel)
  · obtain ⟨ending, s, hs, htells⟩ :=
      hinvoke' fuel ((Nat.le_max_right ..).trans hfuel) none none strictly
        ⟨⟨nofun, nofun⟩, nofun⟩ hparse'
    obtain ⟨fault, hfault, hstatus, hreport⟩ := htells.failure (by decide +kernel)
    obtain rfl : .stackUnderflow = fault := Except.error.inj hfault
    exact ⟨ending, s, hs, hstatus, hreport.trans (by decide +kernel)⟩

/-- A program that writes a character and halts. -/
def writingImage : List UInt8 := Image.encode [19, 65, 0]

/-- **A device without room can be created, and still the invocation fails.**  The machine halts,
    and what is reported is the failing write alone. -/
theorem not_tells_of_creates :
    let files := Files.workspace [("a.bin", writingImage)]
    let arguments := ["a.bin", "--transcript", "/dev/full", "--log-level", "off"]
    let options : Options := ⟨"a.bin", 0, none, some "/dev/full", none, false, none⟩
    Request.parse arguments = .ok (.run options) ∧ options.Finds files writingImage [] ∧
      files.Creates "/dev/full" ∧
      ∃ r, (options.machine writingImage [] []).Ends r ∧ r.state.halted = true ∧
        ∃ steps, ∀ fuel ≥ steps, ∃ ending s,
          Sandbox.invoke fuel files arguments [] = some (ending, s) ∧ ending.exitStatus = 1 ∧
            ending.report = ["No space left on device (os error 28)"] ∧ s.output = #[65] ∧
            ∀ t, ¬ Tells options r t ending s := by
  intro files arguments options
  let m := options.machine writingImage [] []
  have hfinds : options.Finds files writingImage [] :=
    ⟨by decide +kernel, by decide +kernel, rfl⟩
  have hparse : Request.parse arguments = .ok (.run options) := by decide +kernel
  have hopened : files.opened "/dev/full" = .ok (["full", "dev"], .upTo 0) := by decide +kernel
  have hends := Machine.ends_of_steps_halted
    (show (Machine.steps 2 m).outcome = .ok () by decide +kernel)
    (show (Machine.steps 2 m).state.halted = true by decide +kernel)
  obtain ⟨steps, hrun⟩ := Machine.ends_of_steps_halted
    (show (Machine.steps 2 (options.prepared writingImage [] [])).outcome = .ok () by
      decide +kernel)
    (show (Machine.steps 2 (options.prepared writingImage [] [])).state.halted = true by
      decide +kernel)
  refine ⟨hparse, hfinds, Files.creates_iff.mpr ⟨_, _, hopened⟩, _, hends, by decide +kernel,
    steps, fun fuel hfuel => ?_⟩
  obtain ⟨outcome, files', events, hkeeping, hinvoke⟩ :=
    Sandbox.invoke_of_run hfinds hparse (Machine.run_mono hrun hfuel)
  have ht : (Machine.steps 2 (options.prepared writingImage [] [])).state.flushed.console.transcript
      = some ⟨#[], "A"⟩ := by decide +kernel
  rw [ht] at hkeeping
  obtain ⟨rfl, rfl⟩ := hkeeping.of_cut rfl hopened (by decide +kernel)
  have houtput : (Machine.steps 2 (options.prepared writingImage [] [])).state.flushed.output =
      #[65] := by decide +kernel
  refine ⟨_, _, hinvoke, rfl, rfl, houtput, fun t htells => ?_⟩
  exact absurd (htells.success.mpr (by decide +kernel)).1 (by decide)

end WordMachine
