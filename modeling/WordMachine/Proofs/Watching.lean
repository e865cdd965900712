/-
  What is done to the devices, and in which order.

  The states of a machine do not tell what came first.  So each contact with a device is written
  down where it happens, together with the calls that make for a flush.  The devices may be any:
  one that fails now and then is a device as well.

  * `Contact`, `Watched`: what is written down, and a state with all that was written down so far;
  * `Devices`: how a sink is written to and flushed, and how a source is read;
    `Devices.plain` are those of a console, and `busyOnce` fail once and then recover;
  * `Devices.readChar`, `writeChar`, `step`, `run`: what a console and a machine do with any
    devices, watched; `serve` for all that the owner of a console may ask of it, and `Ends` for the
    runs that end;
  * `state_serve_plain`, `ends_of_run`, `Ends.ends`: watching makes no difference.
-/
import WordMachine.Proofs.Deliveries
import WordMachine.Proofs.Ending
import WordMachine.Proofs.TwoRuns

namespace WordMachine

open WordMachine.Action

/-! ## Watched states -/

/-- A contact with a device, or a call that makes for a flush. -/
inductive Contact where
  /-- A character is written to the sink. -/
  | wrote
  /-- The sink is flushed, which succeeds or not. -/
  | flushed (ok : Bool)
  /-- The first line of the queue is taken. -/
  | tookQueued
  /-- The source is read, whatever comes of it. -/
  | readSource
  /-- A character is asked for, and there is none left of the current line. -/
  | asked
  /-- The owner of the console asks for a flush. -/
  | told
  /-- A run comes to its end. -/
  | ended
deriving DecidableEq, Repr

/-- The contact takes a line, or what there is of one. -/
def Contact.takes : Contact → Bool
  | tookQueued | readSource => true
  | _ => false

def Contact.isFlush : Contact → Bool
  | flushed _ => true
  | _ => false

/-- The contact is a call for nothing but a flush. -/
def Contact.isCall : Contact → Bool
  | told | ended => true
  | _ => false

/-- A state, and the contacts on the way to it, the oldest first. -/
structure Watched (σ : Type) where
  state : σ
  contacts : List Contact

/-- What came of a watched action, but for the contacts. -/
def Ran.unwatched {σ α : Type} (r : Ran (Watched σ) α) : Ran σ α :=
  ⟨r.outcome, r.state.state, r.log⟩

theorem Ran.unwatched_behind {σ α : Type} (log : List Event) (r : Ran (Watched σ) α) :
    (r.behind log).unwatched = r.unwatched.behind log := rfl

namespace Watched

variable {σ α : Type}

/-- An action that makes no contact. -/
def unseen (x : Action σ α) : Action (Watched σ) α := fun w =>
  ⟨(x w.state).outcome, ⟨(x w.state).state, w.contacts⟩, (x w.state).log⟩

/-- An action that makes one contact, which may depend on what comes of it. -/
def seen (contact : Except Fault α → Contact) (x : Action σ α) : Action (Watched σ) α := fun w =>
  ⟨(x w.state).outcome, ⟨(x w.state).state, w.contacts ++ [contact (x w.state).outcome]⟩,
    (x w.state).log⟩

/-- Writes down a call. -/
def call (contact : Contact) : Action (Watched σ) Unit :=
  change fun w => ⟨w.state, w.contacts ++ [contact]⟩

/-- The console of a machine that is watched. -/
def console (w : Watched Machine) : Watched Console := ⟨w.state.console, w.contacts⟩

def onConsole (x : Action (Watched Console) α) : Action (Watched Machine) α := fun w =>
  ⟨(x w.console).outcome,
    ⟨{ w.state with console := (x w.console).state.state }, (x w.console).state.contacts⟩,
    (x w.console).log⟩

end Watched

open Watched

/-! ## Consoles and machines over any devices -/

/-- What a sink does with bytes and with a flush, and how a source reads a line. -/
structure Devices where
  write : List UInt8 → Action Sink Unit
  flush : Action Sink Unit
  readLine : Action Source String

namespace Devices

/-- The devices of a console. -/
def plain : Devices := ⟨Sink.write, Sink.flush, Source.readLine⟩

/-- The same, but for the first flush, which fails. -/
def busyOnce : Devices :=
  { plain with
    flush := fun sink =>
      if sink.flushes = 0 then ⟨.error (.device (.reported "busy")), sink.flushed, []⟩
      else Sink.flush sink }

section

variable (d : Devices)

def flushConsole : Action (Watched Console) Unit :=
  seen (fun outcome => .flushed outcome.isOk) (Console.onSink d.flush)

def takeLine : Action (Watched Console) String := fun w =>
  match w.state.queue with
  | line :: queue => ⟨.ok line, ⟨{ w.state with queue }, w.contacts ++ [.tookQueued]⟩, []⟩
  | [] => seen (fun _ => .readSource) (Console.onSource d.readLine) w

def refill : Action (Watched Console) Unit := do
  d.flushConsole
  let line ← d.takeLine
  let line := chomp line
  note (.inputLine line)
  unseen (Console.logged (Transcript.logInput line))
  unseen (change fun console : Console =>
    { console with pending := console.pending ++ line.toList ++ ['\n'] })

def readChar : Action (Watched Console) Word := do
  if ← view (·.state.pending.isEmpty) then
    call .asked
    d.refill
  unseen Console.takeCode

def put (code : Word) : Action (Watched Console) Unit := do
  seen (fun _ => .wrote)
    (Console.onSink (d.write (String.utf8EncodeChar (Console.charOf code))))
  unseen (Console.logged (Transcript.logOutput (String.singleton (Console.charOf code))))

def writeChar (code : Word) : Action (Watched Console) Unit := do
  if (Console.char? code).isNone then note (.replacedCode code)
  d.put code

/-- A flush that is asked for, or that comes at the end of a run. -/
def flushFor (contact : Contact) : Action (Watched Console) Unit := do
  call contact
  d.flushConsole

/-- The console after one use. -/
def use : Use → Watched Console → Watched Console
  | .read, w => (d.readChar w).state
  | .write code, w => (d.writeChar code w).state
  | .flush, w => (d.flushFor .told w).state
  | .queueLines lines, w => ⟨w.state.queueLines lines, w.contacts⟩
  | .record, w => ⟨w.state.record, w.contacts⟩

/-- The console after some uses.  A use that faults leaves a console to go on with. -/
def serve : List Use → Watched Console → Watched Console
  | [], w => w
  | u :: uses, w => serve uses (d.use u w)

def perform : Instruction → Action (Watched Machine) Unit
  | ⟨.out, a, _, _⟩ => do
    onConsole (d.writeChar a)
    unseen (Machine.done .out [a])
  | ⟨.inp, a, _, _⟩ => do
    let code ← onConsole d.readChar
    unseen (Machine.put .inp a [] code)
  | i => unseen (Machine.perform i)

def step : Action (Watched Machine) Unit := do
  if ← view (·.state.halted) then pure ()
  else
    let instruction ← unseen (Machine.onStore Store.takeInstruction)
    d.perform instruction

def finish (outcome : Except Fault Unit) : Action (Watched Machine) Unit := fun w =>
  match onConsole (d.flushFor .ended) w with
  | ⟨flushed, w', log⟩ =>
    match outcome, flushed with
    | .ok (), .ok () => ⟨.ok (), w', log ++ [.halted w'.state.store.pc]⟩
    | .error fault, _ => ⟨.error fault, w', log⟩
    | .ok (), .error fault => ⟨.error fault, w', log⟩

/-- A run, or the first `fuel` steps of it if it takes more. -/
def run : Nat → Action (Watched Machine) Unit
  | 0 => pure ()
  | fuel + 1 => fun w =>
    if w.state.halted then d.finish (.ok ()) w
    else
      match d.step w with
      | ⟨.ok (), w', log⟩ => (run fuel w').behind log
      | ⟨.error fault, w', log⟩ => (d.finish (.error fault) w').behind log

/-- A run that ends: the machine has halted, or a step faults, or the run goes on with a step and
    ends after that. -/
inductive Ends : Watched Machine → Ran (Watched Machine) Unit → Prop
  | halted {w : Watched Machine} (h : w.state.halted = true) : Ends w (d.finish (.ok ()) w)
  | fault {w w' : Watched Machine} {fault : Fault} {log : List Event}
    (h : w.state.halted = false) (hs : d.step w = ⟨.error fault, w', log⟩) :
    Ends w ((d.finish (.error fault) w').behind log)
  | step {w w' : Watched Machine} {log : List Event} {r : Ran (Watched Machine) Unit}
    (h : w.state.halted = false) (hs : d.step w = ⟨.ok (), w', log⟩) (hr : Ends w' r) :
    Ends w (r.behind log)

end

/-! ## Watching makes no difference -/

section

variable {σ α β : Type}

/-- The state is the one that is watched. -/
def Shows (w : Watched σ) (s : σ) : Prop := w.state = s

theorem unwatched_of_alike {x : Action (Watched σ) α} {y : Action σ α}
    (hxy : Alike Shows x y Shows) (w : Watched σ) : (x w).unwatched = y w.state := by
  obtain ⟨hout, hlog, hstate⟩ := hxy w w.state rfl
  rw [Ran.unwatched, hout, hlog, hstate]

theorem alike_unseen (x : Action σ α) : Alike Shows (unseen x) x Shows := by
  rintro w _ rfl
  exact ⟨rfl, rfl, rfl⟩

theorem alike_seen (contact : Except Fault α → Contact) (x : Action σ α) :
    Alike Shows (seen contact x) x Shows := by
  rintro w _ rfl
  exact ⟨rfl, rfl, rfl⟩

theorem call_bind (contact : Contact) (x : Action (Watched σ) α) (w : Watched σ) :
    (call contact >>= fun _ => x) w = x ⟨w.state, w.contacts ++ [contact]⟩ := by
  rw [call, bind_ok (change_apply _ w)]
  rfl

theorem alike_call_bind (contact : Contact) {x : Action (Watched σ) α} {y : Action σ α}
    (hxy : Alike Shows x y Shows) : Alike Shows (call contact >>= fun _ => x) y Shows := by
  intro w s h
  rw [call_bind]
  exact hxy _ s h

theorem alike_onConsole {x : Action (Watched Console) α} {y : Action Console α}
    (hxy : Alike Shows x y Shows) :
    Alike Shows (onConsole x) (Machine.onConsole y) Shows := by
  rintro w _ rfl
  obtain ⟨hout, hlog, hstate⟩ := hxy w.console w.state.console rfl
  have hconsole : (x w.console).state.state = (y w.state.console).state := hstate
  refine ⟨hout, hlog, ?_⟩
  simp only [Shows, onConsole, Machine.onConsole_apply, hconsole]

end

theorem alike_flushConsole : Alike Shows plain.flushConsole Console.flush Shows := alike_seen _ _

theorem takeLine_of_nil (d : Devices) {w : Watched Console} (h : w.state.queue = []) :
    d.takeLine w = seen (fun _ => .readSource) (Console.onSource d.readLine) w := by
  simp only [takeLine, h]

theorem takeLine_of_cons (d : Devices) {w : Watched Console} {line : String}
    {queue : List String} (h : w.state.queue = line :: queue) :
    d.takeLine w =
      ⟨.ok line, ⟨{ w.state with queue }, w.contacts ++ [.tookQueued]⟩, []⟩ := by
  simp only [takeLine, h]

theorem alike_takeLine : Alike Shows plain.takeLine Console.takeLine Shows := by
  rintro w _ rfl
  rcases hq : w.state.queue with _ | ⟨line, queue⟩
  · have hread : Console.takeLine w.state = Console.onSource Source.readLine w.state := by
      simp only [Console.takeLine, hq]
    rw [takeLine_of_nil plain hq, hread]
    exact alike_seen _ _ w _ rfl
  · rw [takeLine_of_cons plain hq, Console.takeLine_of_queue hq]
    exact ⟨rfl, rfl, rfl⟩

theorem alike_readChar : Alike Shows plain.readChar Console.readChar Shows := by
  have hrefill : Alike Shows plain.refill Console.refill Shows :=
    .bind alike_flushConsole fun _ => .bind alike_takeLine fun _ => .bind (.note _) fun _ =>
      .bind (alike_unseen _) fun _ => alike_unseen _
  have hcode : Alike Shows (unseen Console.takeCode) Console.takeCode Shows := alike_unseen _
  refine .bind (.view fun w s h => congrArg (·.pending.isEmpty) h) fun _ => .ite ?_ hcode
  exact alike_call_bind _ (hrefill.bind fun _ => hcode)

theorem alike_writeChar (code : Word) :
    Alike Shows (plain.writeChar code) (Console.writeChar code) Shows := by
  have hput := (alike_seen (fun _ => .wrote)
    (Console.onSink (Sink.write (String.utf8EncodeChar (Console.charOf code))))).bind fun _ =>
      alike_unseen
        (Console.logged (Transcript.logOutput (String.singleton (Console.charOf code))))
  exact .ite (.bind (.note _) fun _ => hput) hput

theorem alike_flushFor (contact : Contact) :
    Alike Shows (plain.flushFor contact) Console.flush Shows :=
  alike_call_bind contact alike_flushConsole

theorem state_use_plain (u : Use) (w : Watched Console) :
    (plain.use u w).state = w.state.use u := by
  cases u with
  | read => exact (alike_readChar w _ rfl).2.2
  | write code => exact (alike_writeChar code w _ rfl).2.2
  | flush => exact (alike_flushFor .told w _ rfl).2.2
  | queueLines lines => rfl
  | record => rfl

/-- A console that is watched is used as any other. -/
theorem state_serve_plain (uses : List Use) (w : Watched Console) :
    (plain.serve uses w).state = (w.state.serve uses).2 := by
  induction uses generalizing w with
  | nil => rfl
  | cons u uses ih => rw [serve, ih, Console.serve_cons, state_use_plain]

theorem perform_of_ne (d : Devices) {i : Instruction} (hinp : i.opcode ≠ .inp)
    (hout : i.opcode ≠ .out) : d.perform i = unseen (Machine.perform i) := by
  obtain ⟨op, a, b, c⟩ := i
  cases op with
  | inp => exact absurd rfl hinp
  | out => exact absurd rfl hout
  | _ => rfl

theorem alike_perform (i : Instruction) :
    Alike Shows (plain.perform i) (Machine.perform i) Shows := by
  by_cases hinp : i.opcode = .inp
  · obtain ⟨op, a, b, c⟩ := i
    obtain rfl : op = .inp := hinp
    exact .bind (alike_onConsole alike_readChar) fun _ => alike_unseen _
  · by_cases hout : i.opcode = .out
    · obtain ⟨op, a, b, c⟩ := i
      obtain rfl : op = .out := hout
      exact .bind (alike_onConsole (alike_writeChar a)) fun _ => alike_unseen _
    · rw [perform_of_ne plain hinp hout]
      exact alike_unseen _

theorem alike_step : Alike Shows plain.step Machine.step Shows := by
  refine .bind (.view fun w m h => congrArg Machine.halted h) fun _ => .ite (.pure ()) ?_
  exact .bind (alike_unseen _) alike_perform

theorem alike_finish (outcome : Except Fault Unit) :
    Alike Shows (plain.finish outcome) (Machine.finish outcome) Shows := by
  intro w m h
  obtain ⟨hout, hlog, hstate⟩ := alike_onConsole (alike_flushFor .ended) w m h
  unfold finish Machine.finish
  rcases hw : onConsole (plain.flushFor .ended) w with ⟨flushed, w', log⟩
  rcases hm : Machine.onConsole Console.flush m with ⟨flushed', m', log'⟩
  rw [hw, hm] at hout hlog hstate
  obtain rfl : flushed = flushed' := hout
  obtain rfl : log = log' := hlog
  obtain rfl : w'.state = m' := hstate
  rcases outcome with fault | ⟨⟩
  · exact ⟨rfl, rfl, rfl⟩
  · rcases flushed with fault | ⟨⟩
    · exact ⟨rfl, rfl, rfl⟩
    · exact ⟨rfl, rfl, rfl⟩

/-- A run that ends is watched to its end. -/
theorem ends_of_run {fuel : Nat} {w : Watched Machine} {r : Ran Machine Unit}
    (h : Machine.run fuel w.state = some r) : ∃ r', plain.Ends w r' ∧ r'.unwatched = r := by
  induction fuel generalizing w r with
  | zero => cases h
  | succ fuel ih =>
    rcases hhalted : w.state.halted with _ | _
    · have hstep := unwatched_of_alike alike_step w
      rcases hw : plain.step w with ⟨outcome, w', log⟩
      rw [hw] at hstep
      rcases outcome with fault | ⟨⟩
      · rw [Machine.run_of_fault hhalted hstep.symm] at h
        cases h
        refine ⟨_, .fault hhalted hw, ?_⟩
        rw [Ran.unwatched_behind, unwatched_of_alike (alike_finish _) w', Machine.finish_error]
        rfl
      · rw [Machine.run_of_ok hhalted hstep.symm] at h
        obtain ⟨r₁, hr₁, rfl⟩ := Option.map_eq_some_iff.mp h
        obtain ⟨r', hends, rfl⟩ := ih hr₁
        exact ⟨_, .step hhalted hw hends, rfl⟩
    · rw [Machine.run_of_halted hhalted] at h
      cases h
      exact ⟨_, .halted hhalted, unwatched_of_alike (alike_finish _) w⟩

/-- And what is watched to its end is such a run. -/
theorem Ends.ends {w : Watched Machine} {r : Ran (Watched Machine) Unit} (h : plain.Ends w r) :
    w.state.Ends r.unwatched := by
  induction h with
  | @halted w h =>
    rw [unwatched_of_alike (alike_finish _) w]
    exact Machine.ends_of_halted h
  | @fault w w' fault log h hs =>
    have hstep := unwatched_of_alike alike_step w
    rw [hs] at hstep
    have hends := Machine.ends_of_fault hstep.symm
    rw [Ran.unwatched_behind, unwatched_of_alike (alike_finish _) w', Machine.finish_error,
      Ran.behind, List.append_nil]
    exact hends
  | @step w w' log r h hs hr ih =>
    have hstep := unwatched_of_alike alike_step w
    rw [hs] at hstep
    exact (Machine.ends_of_ok hstep.symm).mpr ⟨_, ih, rfl⟩

end Devices

end WordMachine
