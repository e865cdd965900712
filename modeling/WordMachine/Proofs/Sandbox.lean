/-
  Sandboxes: what the parts of a session come to on a host that is a value.

  * `Sandbox.carryOut`: what a part of a session comes to, and the sandbox after it;
  * `carryOut_readFile`, `carryOut_readTextFile`, `carryOut_writeFile`, `carryOut_keepFile`,
    `carryOut_execute`: the parts that use the host, one by one.  What becomes of a file is
    `Files.Keeping`.
-/
import WordMachine.Proofs.Keeping

namespace WordMachine

/-! ## Carrying out a session -/

namespace Sandbox

section

variable {α β : Type} {x : ExceptT Problem (StateT Sandbox Option) α}
  {f : α → ExceptT Problem (StateT Sandbox Option) β} {s s' : Sandbox} {a : α} {problem : Problem}

/-- What a part of a session comes to in a sandbox, if it comes to an end, and the sandbox after
    it. -/
def carryOut (s : Sandbox) (x : ExceptT Problem (StateT Sandbox Option) α) :
    Option (Except Problem α × Sandbox) :=
  x.run.run s

theorem carryOut_pure (s : Sandbox) (a : α) : s.carryOut (pure a) = some (.ok a, s) := rfl

theorem carryOut_throw (s : Sandbox) (problem : Problem) :
    s.carryOut (throw problem : ExceptT Problem (StateT Sandbox Option) α) =
      some (.error problem, s) := rfl

theorem carryOut_bind_ok (h : s.carryOut x = some (.ok a, s')) :
    s.carryOut (x >>= f) = s'.carryOut (f a) := by
  show Option.bind (s.carryOut x) _ = _
  rw [h]
  rfl

theorem carryOut_bind_error (h : s.carryOut x = some (.error problem, s')) :
    s.carryOut (x >>= f) = some (.error problem, s') := by
  show Option.bind (s.carryOut x) _ = _
  rw [h]
  rfl

/-- What the host does cannot fail. -/
theorem carryOut_lift {x : StateT Sandbox Option α} (h : x.run s = some (a, s')) :
    s.carryOut (liftM x) = some (.ok a, s') := by
  show Option.bind (x.run s) _ = _
  rw [h]
  rfl

end

variable {fuel : Nat} {bound : Option Level} {s : Sandbox}

/-- The sandbox after events were shown. -/
def noting (bound : Option Level) (events : List Event) (s : Sandbox) : Sandbox :=
  { s with log := s.log ++ Event.within bound events }

theorem noting_nil (s : Sandbox) : s.noting bound [] = s := by
  rw [noting, Event.within, List.filter_nil, List.append_nil]

theorem noting_noting (s : Sandbox) (front back : List Event) :
    (s.noting bound front).noting bound back = s.noting bound (front ++ back) := by
  simp only [noting, Event.within, List.filter_append, List.append_assoc]

/-- Without a bound no event is shown. -/
theorem noting_none (s : Sandbox) (events : List Event) : s.noting none events = s := by
  have hnone : Event.within none events = [] := by
    rw [Event.within, List.filter_eq_nil_iff]
    exact fun event _ => Bool.false_ne_true
  rw [noting, hnone, List.append_nil]

theorem carryOut_note (s : Sandbox) (event : Event) :
    s.carryOut (liftM ((host fuel bound).note event)) = some (.ok (), s.noting bound [event]) :=
  rfl

theorem carryOut_notes (s : Sandbox) (events : List Event) :
    s.carryOut (forIn events PUnit.unit fun event _ => do
      liftM ((host fuel bound).note event)
      pure (ForInStep.yield PUnit.unit)) = some (.ok PUnit.unit, s.noting bound events) := by
  induction events generalizing s with
  | nil => rw [noting_nil]; rfl
  | cons event events ih =>
    rw [List.forIn_cons, bind_assoc, carryOut_bind_ok (carryOut_note s event)]
    exact (ih _).trans (by rw [noting_noting]; rfl)

theorem carryOut_readFile (s : Sandbox) (path : String) :
    s.carryOut (readFile (host fuel bound) path) =
      some ((s.files.read path).mapError (Problem.unreadable path), s) := by
  have hread : ((host fuel bound).read path).run s = some (s.files.read path, s) := rfl
  rw [readFile, carryOut_bind_ok (carryOut_lift hread)]
  rcases s.files.read path with error | contents
  · rfl
  · rfl

theorem carryOut_readTextFile {path : String} {contents : List UInt8} {text : String}
    (hread : s.files.read path = .ok contents)
    (htext : String.fromUTF8? contents.toByteArray = some text) :
    s.carryOut (readTextFile (host fuel bound) path) = some (.ok text, s) := by
  have hfile : s.carryOut (readFile (host fuel bound) path) = some (.ok contents, s) := by
    rw [carryOut_readFile, hread]
    rfl
  rw [readTextFile, carryOut_bind_ok hfile, htext]
  rfl

theorem run_create (s : Sandbox) (path : String) :
    ((host fuel bound).create path).run s =
      match s.files.create path with
      | .ok (place, files) => some (.ok place, { s with files })
      | .error error => some (.error error, s) := by
  rcases hcreate : s.files.create path with error | ⟨place, files⟩
  · simp [host, hcreate]
  · simp [host, hcreate]

theorem run_write (s : Sandbox) (place : Place) (contents : List UInt8) :
    ((host fuel bound).write place contents).run s =
      some ((s.files.write place contents).1,
        { s with files := (s.files.write place contents).2 }) :=
  rfl

/-- **A file is refused, cut or kept**, and the event is shown if it is kept. -/
theorem carryOut_writeFile (fuel : Nat) (bound : Option Level) (s : Sandbox) (path : String)
    (render : Action Sink Unit) (event : Event) :
    ∃ outcome files events,
      s.files.Keeping path (render .unlimited).state.written.toList outcome files ∧
      s.carryOut (writeFile (host fuel bound) path render event) =
        some (outcome, ({ s with files } : Sandbox).noting bound events) := by
  unfold writeFile
  generalize (render .unlimited).state.written.toList = contents
  rcases hopened : s.files.opened path with error | ⟨place, access⟩
  · have hcreate : ((host fuel bound).create path).run s = some (.error error, s) := by
      rw [run_create, Files.create, hopened]
      rfl
    refine ⟨_, _, [], .refused hopened, ?_⟩
    rw [carryOut_bind_ok (carryOut_lift hcreate), noting_nil]
    rfl
  · have hcreate : ((host fuel bound).create path).run s =
        some (.ok place, { s with files := s.files.put place (.file access []) }) := by
      rw [run_create, Files.create_of_opened hopened]
    have hwrite : ((host fuel bound).write place contents).run
        { s with files := s.files.put place (.file access []) } =
          some (if access.taken contents = contents then .ok () else .error .noSpace,
            { s with files := s.files.put place (.file access (access.taken contents)) }) := by
      rw [run_write, Files.write_put]
    by_cases htaken : access.taken contents = contents
    · refine ⟨_, _, [event], .kept hopened htaken, ?_⟩
      rw [if_pos htaken, htaken] at hwrite
      rw [carryOut_bind_ok (carryOut_lift hcreate)]
      dsimp only
      rw [carryOut_bind_ok (carryOut_lift hwrite)]
      rfl
    · refine ⟨_, _, [], .cut hopened htaken, ?_⟩
      rw [if_neg htaken] at hwrite
      rw [carryOut_bind_ok (carryOut_lift hcreate)]
      dsimp only
      rw [carryOut_bind_ok (carryOut_lift hwrite), noting_nil]
      rfl

/-! ## Session files -/

/-- Writes one session file, if it is asked for. -/
def keepFile (host : Host Place (StateT Sandbox Option)) (path? : Option String)
    (render : Action Sink Unit) (event : String → Event) :
    ExceptT Problem (StateT Sandbox Option) Unit :=
  match path? with
  | some path => writeFile host path render (event path)
  | none => pure ()

/-- The one session file is written after the other. -/
theorem keepFiles_eq (host : Host Place (StateT Sandbox Option)) (options : Options)
    (t : Transcript) : keepFiles host options t = (do
      keepFile host options.transcript t.render .transcriptWritten
      keepFile host options.replayOut t.renderInputs .inputsWritten) := by
  unfold keepFiles keepFile
  rcases options.transcript with _ | path
  · rcases options.replayOut with _ | path'
    · rfl
    · rfl
  · rcases options.replayOut with _ | path'
    · rfl
    · rfl

theorem carryOut_keepFile (fuel : Nat) (bound : Option Level) (s : Sandbox)
    (path? : Option String) (render : Action Sink Unit) (event : String → Event) :
    ∃ outcome files events,
      s.files.KeepingAsked path? (render .unlimited).state.written.toList outcome files ∧
      s.carryOut (keepFile (host fuel bound) path? render event) =
        some (outcome, ({ s with files } : Sandbox).noting bound events) := by
  cases path? with
  | none =>
    refine ⟨.ok (), s.files, [], ⟨rfl, rfl⟩, ?_⟩
    rw [noting_nil]
    rfl
  | some path => exact carryOut_writeFile fuel bound s path render (event path)

/-! ## Running -/

/-- The sandbox after a run: its output and its events were shown. -/
def showing (bound : Option Level) (r : Ran Machine Unit) (s : Sandbox) : Sandbox :=
  ({ s with output := s.output ++ r.state.output } : Sandbox).noting bound r.log

theorem carryOut_execute {m : Machine} {r : Ran Machine Unit} (h : Machine.run fuel m = some r)
    (s : Sandbox) :
    s.carryOut (liftM ((host fuel bound).execute m)) =
      some (.ok (r.outcome, r.state), s.showing bound r) := by
  have hkeeping : Machine.runKeeping (fun event => event.level.Within bound) fuel m =
      some ⟨r.outcome, r.state, Event.within bound r.log⟩ := by
    rw [Machine.runKeeping_eq, h]
    rfl
  refine carryOut_lift ?_
  show Option.bind (Option.bind (Machine.runKeeping _ fuel m) _) _ = _
  rw [hkeeping]
  rfl

end Sandbox

end WordMachine
