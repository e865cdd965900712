/-
  Recording is passive: a transcript takes copies, and nothing depends on it.

  * `Console.unrecorded`, `Machine.unrecorded`: the same without its transcript; `Watched.Both`: two
    watched states that are related, with the same contacts;
  * `Devices.alike_readChar_unrecorded`, `alike_step_unrecorded`, `Ends.of_unrecorded`: consoles and
    machines that differ in their transcripts only do the same, whatever their devices do;
  * `Machine.Request` is what the owner of a machine asks of it, and `Answers`, `AnswersAll` what
    comes of it, the answers and the machine at the end: those of `Devices` over any devices, and
    those of `Machine` over its own (`answersAll_plain_iff`);
  * `Devices.recording_passive`: requests to record, anywhere and any number of times, change
    nothing but the transcript, and `Machine.recording_passive` for both.
-/
import WordMachine.Proofs.Watching

namespace WordMachine

open WordMachine.Action

/-! ## Consoles -/

namespace Console

variable {c c' : Console}

/-- The console without its transcript. -/
def unrecorded (console : Console) : Console := { console with transcript := none }

/-- The consoles differ in their transcripts only. -/
abbrev Like (c c' : Console) : Prop := c.unrecorded = c'.unrecorded

theorem Like.exists_eq (h : Like c c') : ∃ transcript, c' = { c with transcript } := by
  obtain ⟨source, sink, pending, queue, transcript⟩ := c
  obtain ⟨source', sink', pending', queue', transcript'⟩ := c'
  cases h
  exact ⟨transcript', rfl⟩

/-- An action that neither looks at the transcript nor changes it. -/
theorem alike_of_eq {α : Type} {x : Action Console α}
    (h : ∀ c transcript, x { c with transcript } =
      ⟨(x c).outcome, { (x c).state with transcript }, (x c).log⟩) :
    Alike Like x x Like := by
  intro c c' hc
  obtain ⟨transcript, rfl⟩ := hc.exists_eq
  have hx := h c transcript
  rw [hx]
  exact ⟨rfl, rfl, rfl⟩

theorem alike_onSink {α : Type} (x : Action Sink α) : Alike Like (onSink x) (onSink x) Like :=
  alike_of_eq fun _ _ => rfl

/-- What is recorded is recorded in the transcript only. -/
theorem alike_logged (f : Transcript → Transcript) : Alike Like (logged f) (logged f) Like :=
  .change fun _ _ h => h

theorem alike_onSource {α : Type} (x : Action Source α) :
    Alike Like (onSource x) (onSource x) Like :=
  alike_of_eq fun _ _ => rfl

theorem alike_takeChar : Alike Like takeChar takeChar Like := by
  refine alike_of_eq fun c transcript => ?_
  unfold takeChar
  dsimp only
  split
  · rfl
  · rfl

theorem alike_takeCode : Alike Like takeCode takeCode Like :=
  .bind alike_takeChar fun _ => .ite (.pure _) (.fail _)

end Console

/-! ## Watched states -/

namespace Watched

variable {σ α : Type} {R R' : σ → σ → Prop}

/-- The states are related, and the contacts are the same. -/
structure Both (R : σ → σ → Prop) (w w' : Watched σ) : Prop where
  state : R w.state w'.state
  contacts : w.contacts = w'.contacts

theorem both_unseen {x y : Action σ α} (hxy : Alike R x y R') :
    Alike (Both R) (unseen x) (unseen y) (Both R') := by
  intro w w' h
  obtain ⟨hout, hlog, hstate⟩ := hxy _ _ h.state
  exact ⟨hout, hlog, hstate, h.contacts⟩

theorem both_seen {x y : Action σ α} (hxy : Alike R x y R') (contact : Except Fault α → Contact) :
    Alike (Both R) (seen contact x) (seen contact y) (Both R') := by
  intro w w' h
  obtain ⟨hout, hlog, hstate⟩ := hxy _ _ h.state
  exact ⟨hout, hlog, hstate, by simp only [seen, hout, h.contacts]⟩

theorem both_call (contact : Contact) : Alike (Both R) (call contact) (call contact) (Both R) :=
  .change fun _ _ h => ⟨h.state, congrArg (· ++ [contact]) h.contacts⟩

theorem both_onConsole {R R' : Console → Console → Prop} {x y : Action (Watched Console) α}
    (hxy : Alike (Both R) x y (Both R')) :
    Alike (Both (Machine.Beside R)) (onConsole x) (onConsole y) (Both (Machine.Beside R')) := by
  intro w w' h
  obtain ⟨hout, hlog, hconsole⟩ := hxy w.console w'.console ⟨h.state.console, h.contacts⟩
  exact ⟨hout, hlog,
    ⟨h.state.store, h.state.stack, h.state.halted, h.state.onEmptyReturn, hconsole.state⟩,
    hconsole.contacts⟩

end Watched

namespace Devices

open Console (Like)
open Machine (Beside)
open Watched

variable {d : Devices}

theorem alike_flushConsole_unrecorded (d : Devices) :
    Alike (Both Like) d.flushConsole d.flushConsole (Both Like) :=
  both_seen (Console.alike_onSink _) _

theorem alike_takeLine_unrecorded (d : Devices) :
    Alike (Both Like) d.takeLine d.takeLine (Both Like) := by
  intro w w' h
  obtain ⟨transcript, htranscript⟩ := h.state.exists_eq
  have hqueue : w'.state.queue = w.state.queue := by rw [htranscript]
  rcases hq : w.state.queue with _ | ⟨line, queue⟩
  · rw [takeLine_of_nil d hq, takeLine_of_nil d (hqueue.trans hq)]
    exact both_seen (Console.alike_onSource _) _ w w' h
  · rw [takeLine_of_cons d hq, takeLine_of_cons d (hqueue.trans hq), htranscript, h.contacts]
    exact ⟨rfl, rfl, rfl, rfl⟩

theorem alike_readChar_unrecorded (d : Devices) :
    Alike (Both Like) d.readChar d.readChar (Both Like) := by
  have hstart (line : String) : Alike Like
      (change fun console : Console =>
        { console with pending := console.pending ++ line.toList ++ ['\n'] })
      (change fun console : Console =>
        { console with pending := console.pending ++ line.toList ++ ['\n'] }) Like :=
    Console.alike_of_eq fun _ _ => rfl
  have hrefill : Alike (Both Like) d.refill d.refill (Both Like) :=
    .bind (alike_flushConsole_unrecorded d) fun _ => .bind (alike_takeLine_unrecorded d) fun _ =>
      .bind (.note _) fun _ => .bind (both_unseen (Console.alike_logged _)) fun _ =>
        both_unseen (hstart _)
  have hcode : Alike (Both Like) (unseen Console.takeCode) (unseen Console.takeCode) (Both Like) :=
    both_unseen Console.alike_takeCode
  have hempty (w w' : Watched Console) (h : Both Like w w') :
      w.state.pending.isEmpty = w'.state.pending.isEmpty := by
    obtain ⟨transcript, htranscript⟩ := h.state.exists_eq
    rw [htranscript]
  exact .bind (.view hempty) fun _ =>
    .ite (.bind (both_call .asked) fun _ => .bind hrefill fun _ => hcode) hcode

theorem alike_writeChar_unrecorded (d : Devices) (code : Word) :
    Alike (Both Like) (d.writeChar code) (d.writeChar code) (Both Like) := by
  have hput : Alike (Both Like) (d.put code) (d.put code) (Both Like) :=
    .bind (both_seen (Console.alike_onSink _) _) fun _ => both_unseen (Console.alike_logged _)
  exact .ite (.bind (.note _) fun _ => hput) hput

/-! ## Machines -/

theorem alike_perform_unrecorded (d : Devices) (i : Instruction) :
    Alike (Both (Beside Like)) (d.perform i) (d.perform i) (Both (Beside Like)) := by
  by_cases hinp : i.opcode = .inp
  · obtain ⟨op, a, b, c⟩ := i
    obtain rfl : op = .inp := hinp
    exact .bind (both_onConsole (alike_readChar_unrecorded d)) fun _ =>
      both_unseen (Machine.alike_put _ _ _ _)
  · by_cases hout : i.opcode = .out
    · obtain ⟨op, a, b, c⟩ := i
      obtain rfl : op = .out := hout
      exact .bind (both_onConsole (alike_writeChar_unrecorded d a)) fun _ => both_unseen (.note _)
    · rw [perform_of_ne d hinp hout]
      exact both_unseen (Machine.alike_perform_of_ne hinp hout)

theorem alike_step_unrecorded (d : Devices) :
    Alike (Both (Beside Like)) d.step d.step (Both (Beside Like)) :=
  .bind (.view fun _ _ h => h.state.halted) fun _ => .ite (.pure ())
    (.bind (both_unseen (Machine.alike_onStore _)) (alike_perform_unrecorded d))

theorem alike_finish_unrecorded (d : Devices) (outcome : Except Fault Unit) :
    Alike (Both (Beside Like)) (d.finish outcome) (d.finish outcome) (Both (Beside Like)) := by
  intro w w' h
  have hflush : Alike (Both Like) (d.flushFor .ended) (d.flushFor .ended) (Both Like) :=
    .bind (both_call .ended) fun _ => alike_flushConsole_unrecorded d
  obtain ⟨hout, hlog, hstate⟩ := both_onConsole hflush w w' h
  unfold finish
  rcases hw : onConsole (d.flushFor .ended) w with ⟨flushed, w₁, log⟩
  rcases hw' : onConsole (d.flushFor .ended) w' with ⟨flushed', w₁', log'⟩
  rw [hw, hw'] at hout hlog hstate
  obtain rfl : flushed = flushed' := hout
  obtain rfl : log = log' := hlog
  rcases outcome with fault | ⟨⟩
  · exact ⟨rfl, rfl, hstate⟩
  · rcases flushed with fault | ⟨⟩
    · exact ⟨rfl, rfl, hstate⟩
    · have hstore : w₁.state.store = w₁'.state.store := hstate.state.store
      exact ⟨rfl, congrArg (fun store : Store => log ++ [.halted store.pc]) hstore, hstate⟩

/-- **Runs end alike** from machines that differ in their transcripts only. -/
theorem Ends.of_unrecorded {w w' : Watched Machine} {r : Ran (Watched Machine) Unit}
    (h : d.Ends w r) (hw : Both (Beside Like) w w') :
    ∃ v, d.Ends w' ⟨r.outcome, v, r.log⟩ ∧ Both (Beside Like) r.state v := by
  induction h generalizing w' with
  | @halted w hhalted =>
    obtain ⟨hout, hlog, hstate⟩ := alike_finish_unrecorded d (.ok ()) w w' hw
    refine ⟨_, ?_, hstate⟩
    rw [hout, hlog]
    exact .halted (hw.state.halted ▸ hhalted)
  | @fault w w₁ fault log hhalted hs =>
    obtain ⟨hout, hlog, hstate⟩ := alike_step_unrecorded d w w' hw
    rcases hs' : d.step w' with ⟨outcome, w₁', log'⟩
    rw [hs, hs'] at hout hlog hstate
    obtain rfl : Except.error fault = outcome := hout
    obtain rfl : log = log' := hlog
    obtain ⟨hout, hlog, hend⟩ := alike_finish_unrecorded d (.error fault) w₁ w₁' hstate
    refine ⟨_, ?_, hend⟩
    rw [Ran.behind, hout, hlog]
    exact .fault (hw.state.halted ▸ hhalted) hs'
  | @step w w₁ log r hhalted hs _ ih =>
    obtain ⟨hout, hlog, hstate⟩ := alike_step_unrecorded d w w' hw
    rcases hs' : d.step w' with ⟨outcome, w₁', log'⟩
    rw [hs, hs'] at hout hlog hstate
    obtain rfl : Except.ok () = outcome := hout
    obtain rfl : log = log' := hlog
    obtain ⟨v, hends, hend⟩ := ih hstate
    exact ⟨v, .step (hw.state.halted ▸ hhalted) hs' hends, hend⟩

end Devices

/-! ## Requests -/

namespace Machine

/-- What the owner of a machine asks of it: some work on its store or its stack, to go on with its
    program, or to be set up in another way. -/
inductive Request : Type 1
  | onStore {α : Type} (x : Action Store α)
  | onStack {α : Type} (x : Action CallStack α)
  | perform (i : Instruction)
  | step
  | run
  | queueLines (lines : List String)
  | withEmptyReturn (rule : EmptyReturn)
  | record

/-- The request is to record. -/
def Request.records : Request → Bool
  | record => true
  | _ => false

/-- What comes of a request, and what is reported on the way. -/
structure Answer : Type 1 where
  {α : Type}
  outcome : Except Fault α
  log : List Event

/-- The answer of what was carried out. -/
def answer {σ α : Type} (r : Ran σ α) : Answer := ⟨r.outcome, r.log⟩

/-- What the machine answers to a request, if anything, and what it is left as. -/
inductive Answers : Request → Machine → List Answer → Machine → Prop
  | onStore {α : Type} (x : Action Store α) (m : Machine) :
    Answers (.onStore x) m [answer (Machine.onStore x m)] (Machine.onStore x m).state
  | onStack {α : Type} (x : Action CallStack α) (m : Machine) :
    Answers (.onStack x) m [answer (Machine.onStack x m)] (Machine.onStack x m).state
  | perform (i : Instruction) (m : Machine) :
    Answers (.perform i) m [answer (Machine.perform i m)] (Machine.perform i m).state
  | step (m : Machine) : Answers .step m [answer (Machine.step m)] (Machine.step m).state
  | run {m : Machine} {r : Ran Machine Unit} : m.Ends r → Answers .run m [answer r] r.state
  | queueLines (lines : List String) (m : Machine) :
    Answers (.queueLines lines) m [] (m.queueLines lines)
  | withEmptyReturn (rule : EmptyReturn) (m : Machine) :
    Answers (.withEmptyReturn rule) m [] (m.withEmptyReturn rule)
  | record (m : Machine) : Answers .record m [] m.record

/-- The same for requests one after the other, also after a fault. -/
inductive AnswersAll : List Request → Machine → List Answer → Machine → Prop
  | nil (m : Machine) : AnswersAll [] m [] m
  | cons {q : Request} {qs : List Request} {m m' n : Machine} {front back : List Answer} :
    Answers q m front m' → AnswersAll qs m' back n → AnswersAll (q :: qs) m (front ++ back) n

/-- The requests but for those to record. -/
def withoutRecords (qs : List Request) : List Request := qs.filter (!·.records)

section

variable {q : Request} {qs : List Request}

theorem Request.eq_record (h : q.records = true) : q = .record := by
  cases q with
  | record => rfl
  | _ => cases h

theorem withoutRecords_cons (h : q.records = false) :
    withoutRecords (q :: qs) = q :: withoutRecords qs :=
  List.filter_cons_of_pos (by rw [h]; rfl)

end

/-- The machine without its transcript. -/
def unrecorded (m : Machine) : Machine := { m with console := m.console.unrecorded }

theorem unrecorded_eq_iff {m m' : Machine} :
    m.unrecorded = m'.unrecorded ↔ Beside Console.Like m m' := by
  obtain ⟨store, stack, console, halted, rule⟩ := m
  obtain ⟨store', stack', console', halted', rule'⟩ := m'
  constructor
  · intro h
    obtain ⟨rfl, rfl, hconsole, rfl, rfl⟩ := Machine.mk.inj h
    exact ⟨rfl, rfl, rfl, rfl, hconsole⟩
  · rintro ⟨hstore, hstack, hhalted, hrule, hconsole⟩
    exact Machine.mk.injEq .. ▸ ⟨hstore, hstack, hconsole, hhalted, hrule⟩

end Machine

namespace Devices

open Machine (Answer answer withoutRecords Beside)
open Console (Like)
open Watched

/-- The same over any devices, watched. -/
inductive Answers (d : Devices) :
    Machine.Request → Watched Machine → List Answer → Watched Machine → Prop
  | onStore {α : Type} (x : Action Store α) (w : Watched Machine) :
    Answers d (.onStore x) w [answer (unseen (Machine.onStore x) w)]
      (unseen (Machine.onStore x) w).state
  | onStack {α : Type} (x : Action CallStack α) (w : Watched Machine) :
    Answers d (.onStack x) w [answer (unseen (Machine.onStack x) w)]
      (unseen (Machine.onStack x) w).state
  | perform (i : Instruction) (w : Watched Machine) :
    Answers d (.perform i) w [answer (d.perform i w)] (d.perform i w).state
  | step (w : Watched Machine) : Answers d .step w [answer (d.step w)] (d.step w).state
  | run {w : Watched Machine} {r : Ran (Watched Machine) Unit} :
    d.Ends w r → Answers d .run w [answer r] r.state
  | queueLines (lines : List String) (w : Watched Machine) :
    Answers d (.queueLines lines) w [] ⟨w.state.queueLines lines, w.contacts⟩
  | withEmptyReturn (rule : EmptyReturn) (w : Watched Machine) :
    Answers d (.withEmptyReturn rule) w [] ⟨w.state.withEmptyReturn rule, w.contacts⟩
  | record (w : Watched Machine) : Answers d .record w [] ⟨w.state.record, w.contacts⟩

inductive AnswersAll (d : Devices) :
    List Machine.Request → Watched Machine → List Answer → Watched Machine → Prop
  | nil (w : Watched Machine) : AnswersAll d [] w [] w
  | cons {q : Machine.Request} {qs : List Machine.Request} {w w' v : Watched Machine}
    {front back : List Answer} :
    Answers d q w front w' → AnswersAll d qs w' back v → AnswersAll d (q :: qs) w (front ++ back) v

variable {d : Devices} {w w' v v' : Watched Machine} {q : Machine.Request}
  {qs qs' : List Machine.Request} {as as' : List Answer}

theorem Ends.unique {r r' : Ran (Watched Machine) Unit} (h : d.Ends w r) (h' : d.Ends w r') :
    r = r' := by
  induction h generalizing r' with
  | halted hhalted =>
    cases h' with
    | halted => rfl
    | fault hrunning | step hrunning => cases hhalted.symm.trans hrunning
  | fault hrunning hs =>
    cases h' with
    | halted hhalted => cases hhalted.symm.trans hrunning
    | fault _ hs' =>
      cases hs.symm.trans hs'
      rfl
    | step _ hs' => cases hs.symm.trans hs'
  | step hrunning hs _ ih =>
    cases h' with
    | halted hhalted => cases hhalted.symm.trans hrunning
    | fault _ hs' => cases hs.symm.trans hs'
    | step _ hs' hends =>
      cases hs.symm.trans hs'
      rw [ih hends]

theorem Answers.unique (h : d.Answers q w as v) (h' : d.Answers q w as' v') :
    as = as' ∧ v = v' := by
  cases h with
  | run h =>
    cases h' with
    | run h' =>
      obtain rfl := h.unique h'
      exact ⟨rfl, rfl⟩
  | onStore | onStack | perform | step | queueLines | withEmptyReturn | record =>
    cases h'
    exact ⟨rfl, rfl⟩

theorem AnswersAll.unique (h : d.AnswersAll qs w as v) (h' : d.AnswersAll qs w as' v') :
    as = as' ∧ v = v' := by
  induction h generalizing as' with
  | nil w =>
    cases h'
    exact ⟨rfl, rfl⟩
  | cons hq _ ih =>
    cases h' with
    | cons hq' hqs' =>
      obtain ⟨rfl, rfl⟩ := hq.unique hq'
      obtain ⟨rfl, rfl⟩ := ih hqs'
      exact ⟨rfl, rfl⟩

/-! ## Requests to record -/

theorem answer_of_alike {α : Type} {x : Action (Watched Machine) α}
    (hx : Alike (Both (Beside Like)) x x (Both (Beside Like))) (hw : Both (Beside Like) w w') :
    answer (x w) = answer (x w') ∧ Both (Beside Like) (x w).state (x w').state := by
  obtain ⟨hout, hlog, hstate⟩ := hx w w' hw
  exact ⟨by rw [answer, answer, hout, hlog], hstate⟩

/-- **What a machine does does not depend on its transcript**, nor do the contacts. -/
theorem Answers.of_unrecorded (h : d.Answers q w as v) (hw : Both (Beside Like) w w') :
    ∃ v', d.Answers q w' as v' ∧ Both (Beside Like) v v' := by
  have hset {f : Machine → Machine}
      (hf : ∀ m m', m.unrecorded = m'.unrecorded → (f m).unrecorded = (f m').unrecorded) :
      Both (Beside Like) ⟨f w.state, w.contacts⟩ ⟨f w'.state, w'.contacts⟩ :=
    ⟨Machine.unrecorded_eq_iff.mp (hf _ _ (Machine.unrecorded_eq_iff.mpr hw.state)), hw.contacts⟩
  cases h with
  | onStore x =>
    obtain ⟨hanswer, hstate⟩ := answer_of_alike (both_unseen (Machine.alike_onStore x)) hw
    exact ⟨_, hanswer ▸ .onStore x w', hstate⟩
  | onStack x =>
    obtain ⟨hanswer, hstate⟩ := answer_of_alike (both_unseen (Machine.alike_onStack x)) hw
    exact ⟨_, hanswer ▸ .onStack x w', hstate⟩
  | perform i =>
    obtain ⟨hanswer, hstate⟩ := answer_of_alike (alike_perform_unrecorded d i) hw
    exact ⟨_, hanswer ▸ .perform i w', hstate⟩
  | step =>
    obtain ⟨hanswer, hstate⟩ := answer_of_alike (alike_step_unrecorded d) hw
    exact ⟨_, hanswer ▸ .step w', hstate⟩
  | run h =>
    obtain ⟨v, hends, hend⟩ := h.of_unrecorded hw
    exact ⟨v, .run hends, hend⟩
  | queueLines lines =>
    exact ⟨_, .queueLines lines w', hset fun _ _ h => congrArg (Machine.queueLines lines) h⟩
  | withEmptyReturn rule =>
    exact ⟨_, .withEmptyReturn rule w', hset fun _ _ h => congrArg (Machine.withEmptyReturn rule) h⟩
  | record => exact ⟨_, .record w', hset fun _ _ h => h⟩

/-- A request to record changes nothing but the transcript. -/
theorem record_both (h : Both (Beside Like) w w') :
    Both (Beside Like) ⟨w.state.record, w.contacts⟩ w' ∧
      Both (Beside Like) w ⟨w'.state.record, w'.contacts⟩ :=
  ⟨⟨⟨h.state.store, h.state.stack, h.state.halted, h.state.onEmptyReturn, h.state.console⟩,
      h.contacts⟩,
    ⟨h.state.store, h.state.stack, h.state.halted, h.state.onEmptyReturn, h.state.console⟩,
      h.contacts⟩

/-- Requests to record may be left out. -/
theorem AnswersAll.erase (h : d.AnswersAll qs w as v) (hw : Both (Beside Like) w w') :
    ∃ v', d.AnswersAll (withoutRecords qs) w' as v' ∧ Both (Beside Like) v v' := by
  induction h generalizing w' with
  | nil w => exact ⟨w', .nil w', hw⟩
  | @cons q qs w w₁ v front back hq _ ih =>
    cases hr : q.records with
    | true =>
      obtain rfl := Machine.Request.eq_record hr
      cases hq
      exact ih (record_both hw).1
    | false =>
      obtain ⟨w₁', hq', hw₁⟩ := hq.of_unrecorded hw
      obtain ⟨v', hqs, hv⟩ := ih hw₁
      rw [Machine.withoutRecords_cons hr]
      exact ⟨v', .cons hq' hqs, hv⟩

/-- Or put in. -/
theorem AnswersAll.insert (h : d.AnswersAll (withoutRecords qs) w as v)
    (hw : Both (Beside Like) w w') :
    ∃ v', d.AnswersAll qs w' as v' ∧ Both (Beside Like) v v' := by
  induction qs generalizing w w' as with
  | nil =>
    cases h
    exact ⟨w', .nil w', hw⟩
  | cons q qs ih =>
    cases hr : q.records with
    | true =>
      obtain rfl := Machine.Request.eq_record hr
      obtain ⟨v', hqs, hv⟩ := ih h (record_both hw).2
      exact ⟨v', .cons (.record w') hqs, hv⟩
    | false =>
      rw [Machine.withoutRecords_cons hr] at h
      cases h with
      | cons hq hqs =>
        obtain ⟨w₁', hq', hw₁⟩ := hq.of_unrecorded hw
        obtain ⟨v', hqs', hv⟩ := ih hqs hw₁
        exact ⟨v', .cons hq' hqs', hv⟩

/-- **Requests that are the same but for those to record are answered in the same way**, whatever
    the devices do. -/
theorem AnswersAll.of_withoutRecords (h : d.AnswersAll qs w as v)
    (hqs : withoutRecords qs = withoutRecords qs') (hw : Both (Beside Like) w w') :
    ∃ v', d.AnswersAll qs' w' as v' ∧ Both (Beside Like) v v' := by
  have hself : Both (Beside Like) w w := ⟨⟨rfl, rfl, rfl, rfl, rfl⟩, rfl⟩
  obtain ⟨v₀, h₀, hv₀⟩ := h.erase hself
  rw [hqs] at h₀
  obtain ⟨v', h', hv'⟩ := h₀.insert hw
  exact ⟨v', h', Machine.unrecorded_eq_iff.mp ((Machine.unrecorded_eq_iff.mpr hv₀.state).trans
    (Machine.unrecorded_eq_iff.mpr hv'.state)), hv₀.contacts.trans hv'.contacts⟩

/-- Either both lists of requests are answered to the end or neither is, and the answers, the
    reports and the contacts are the same. -/
theorem passive (d : Devices) (hqs : withoutRecords qs = withoutRecords qs')
    (hw : Both (Beside Like) w w') :
    ((∃ as v, d.AnswersAll qs w as v) ↔ ∃ as v, d.AnswersAll qs' w' as v) ∧
      ∀ as v as' v', d.AnswersAll qs w as v → d.AnswersAll qs' w' as' v' →
        as = as' ∧ Both (Beside Like) v v' := by
  refine ⟨⟨?_, ?_⟩, ?_⟩
  · rintro ⟨as, v, h⟩
    obtain ⟨v', h', -⟩ := h.of_withoutRecords hqs hw
    exact ⟨as, v', h'⟩
  · rintro ⟨as, v, h⟩
    have hw' : Both (Beside Like) w' w := ⟨Machine.unrecorded_eq_iff.mp
      (Machine.unrecorded_eq_iff.mpr hw.state).symm, hw.contacts.symm⟩
    obtain ⟨v', h', -⟩ := h.of_withoutRecords hqs.symm hw'
    exact ⟨as, v', h'⟩
  · intro as v as' v' h h'
    obtain ⟨v₁, h₁, hv₁⟩ := h.of_withoutRecords hqs hw
    obtain ⟨rfl, rfl⟩ := h₁.unique h'
    exact ⟨rfl, hv₁⟩

/-! ## The devices of a machine -/

/-- What is answered over the plain devices is what the machine answers. -/
theorem Answers.answers (h : plain.Answers q w as v) : Machine.Answers q w.state as v.state := by
  cases h with
  | onStore x => exact .onStore x w.state
  | onStack x => exact .onStack x w.state
  | perform i =>
    have hanswers := Machine.Answers.perform i w.state
    rw [← unwatched_of_alike (alike_perform i) w] at hanswers
    exact hanswers
  | step =>
    have hanswers := Machine.Answers.step w.state
    rw [← unwatched_of_alike alike_step w] at hanswers
    exact hanswers
  | run h => exact .run h.ends
  | queueLines lines => exact .queueLines lines w.state
  | withEmptyReturn rule => exact .withEmptyReturn rule w.state
  | record => exact .record w.state

/-- And what the machine answers is answered over them. -/
theorem exists_answers {m n : Machine} (h : Machine.Answers q m as n) (contacts : List Contact) :
    ∃ contacts', plain.Answers q ⟨m, contacts⟩ as ⟨n, contacts'⟩ := by
  cases h with
  | onStore x => exact ⟨contacts, .onStore x ⟨m, contacts⟩⟩
  | onStack x => exact ⟨contacts, .onStack x ⟨m, contacts⟩⟩
  | perform i =>
    rw [← unwatched_of_alike (alike_perform i) ⟨m, contacts⟩]
    exact ⟨_, .perform i ⟨m, contacts⟩⟩
  | step =>
    rw [← unwatched_of_alike alike_step ⟨m, contacts⟩]
    exact ⟨_, .step ⟨m, contacts⟩⟩
  | run h =>
    obtain ⟨fuel, hrun⟩ := h
    obtain ⟨r, hends, rfl⟩ := ends_of_run (w := ⟨m, contacts⟩) hrun
    exact ⟨_, .run hends⟩
  | queueLines lines => exact ⟨contacts, .queueLines lines ⟨m, contacts⟩⟩
  | withEmptyReturn rule => exact ⟨contacts, .withEmptyReturn rule ⟨m, contacts⟩⟩
  | record => exact ⟨contacts, .record ⟨m, contacts⟩⟩

/-- **Over the plain devices a machine answers as it does on its own.** -/
theorem answersAll_plain_iff {m n : Machine} (contacts : List Contact) :
    Machine.AnswersAll qs m as n ↔
      ∃ contacts', plain.AnswersAll qs ⟨m, contacts⟩ as ⟨n, contacts'⟩ := by
  constructor
  · intro h
    induction h generalizing contacts with
    | nil m => exact ⟨contacts, .nil ⟨m, contacts⟩⟩
    | cons hq _ ih =>
      obtain ⟨contacts₁, hq'⟩ := exists_answers hq contacts
      obtain ⟨contacts₂, hqs⟩ := ih contacts₁
      exact ⟨contacts₂, .cons hq' hqs⟩
  · have hall {w v : Watched Machine} (h : plain.AnswersAll qs w as v) :
        Machine.AnswersAll qs w.state as v.state := by
      induction h with
      | nil w => exact .nil w.state
      | cons hq _ ih => exact .cons hq.answers ih
    rintro ⟨contacts', h⟩
    exact hall h

end Devices

namespace Machine

open Watched

variable {m m' : Machine} {qs qs' : List Request}

/-- **Recording is passive.**  Two lists of requests that are the same but for requests to record,
    put to machines that are the same but for their transcripts: either both are answered to the
    end or neither is, the answers and the reports are the same, and at the end the machines are
    the same but for their transcripts.  It does not matter what the devices do, be they those of
    the machine or any others; and they are put to use in the same way. -/
theorem recording_passive (hqs : withoutRecords qs = withoutRecords qs')
    (hm : m.unrecorded = m'.unrecorded) :
    (((∃ as n, AnswersAll qs m as n) ↔ ∃ as n, AnswersAll qs' m' as n) ∧
      ∀ as n as' n', AnswersAll qs m as n → AnswersAll qs' m' as' n' →
        as = as' ∧ n.unrecorded = n'.unrecorded) ∧
    ∀ (d : Devices) (contacts : List Contact),
      ((∃ as w, d.AnswersAll qs ⟨m, contacts⟩ as w) ↔
        ∃ as w, d.AnswersAll qs' ⟨m', contacts⟩ as w) ∧
      ∀ as w as' w', d.AnswersAll qs ⟨m, contacts⟩ as w → d.AnswersAll qs' ⟨m', contacts⟩ as' w' →
        as = as' ∧ w.state.unrecorded = w'.state.unrecorded ∧ w.contacts = w'.contacts := by
  have hboth (contacts : List Contact) :
      Both (Beside Console.Like) ⟨m, contacts⟩ ⟨m', contacts⟩ := ⟨unrecorded_eq_iff.mp hm, rfl⟩
  refine ⟨⟨?_, ?_⟩, fun d contacts => ⟨(d.passive hqs (hboth contacts)).1, ?_⟩⟩
  · have hiff := (Devices.plain.passive hqs (hboth [])).1
    simp only [Devices.answersAll_plain_iff []]
    constructor
    · rintro ⟨as, n, contacts, h⟩
      obtain ⟨as', w, h'⟩ := hiff.mp ⟨as, _, h⟩
      exact ⟨as', w.state, w.contacts, h'⟩
    · rintro ⟨as, n, contacts, h⟩
      obtain ⟨as', w, h'⟩ := hiff.mpr ⟨as, _, h⟩
      exact ⟨as', w.state, w.contacts, h'⟩
  · intro as n as' n' h h'
    obtain ⟨contacts, h⟩ := (Devices.answersAll_plain_iff []).mp h
    obtain ⟨contacts', h'⟩ := (Devices.answersAll_plain_iff []).mp h'
    obtain ⟨has, hend⟩ := (Devices.plain.passive hqs (hboth [])).2 _ _ _ _ h h'
    exact ⟨has, unrecorded_eq_iff.mpr hend.state⟩
  · intro as w as' w' h h'
    obtain ⟨has, hend⟩ := (d.passive hqs (hboth contacts)).2 _ _ _ _ h h'
    exact ⟨has, unrecorded_eq_iff.mpr hend.state, hend.contacts⟩

/-- A program that writes a character, reads one and writes a second one, with room for one
    byte only; and over devices whose first flush fails. -/
theorem recording_passive_full :
    let m := new (Store.writeBlock 0 [19, 63, 20, 32768, 19, 33] .empty).state
      ⟨[121, 10], none⟩ { Sink.unlimited with capacity := some 1 }
    let n := (step (step (step m).state).state).state
    let as := [answer (step m), answer (step (step m).state),
      answer (step (step (step m).state).state)]
    let d := Devices.busyOnce
    let w := (d.step (d.step ⟨m, []⟩).state).state
    (AnswersAll [.step, .step, .step] m as n ∧
      ∃ n', AnswersAll [.step, .record, .step, .record, .step] m as n' ∧
        n.unrecorded = n'.unrecorded) ∧
    w.contacts = [.wrote, .asked, .flushed false] ∧
      ∃ as w', d.AnswersAll [.record, .step, .record, .step] ⟨m, []⟩ as w' ∧
        w.state.unrecorded = w'.state.unrecorded ∧ w.contacts = w'.contacts := by
  intro m n as d w
  refine ⟨?_, by decide +kernel, ?_⟩
  · have h : AnswersAll [.step, .step, .step] m as n :=
      .cons (.step _) (.cons (.step _) (.cons (.step _) (.nil _)))
    have hqs : withoutRecords [.step, .step, .step] =
        withoutRecords [.step, .record, .step, .record, .step] := rfl
    obtain ⟨hends, hsame⟩ := (recording_passive hqs (rfl : m.unrecorded = m.unrecorded)).1
    obtain ⟨as', n', h'⟩ := hends.mp ⟨as, n, h⟩
    obtain ⟨rfl, hn⟩ := hsame _ _ _ _ h h'
    exact ⟨h, n', h', hn⟩
  · have h : d.AnswersAll [.step, .step] ⟨m, []⟩ _ w := .cons (.step _) (.cons (.step _) (.nil _))
    have hqs : withoutRecords [.step, .step] =
        withoutRecords [.record, .step, .record, .step] := rfl
    obtain ⟨hends, hsame⟩ := (recording_passive hqs (rfl : m.unrecorded = m.unrecorded)).2 d []
    obtain ⟨as', w', h'⟩ := hends.mp ⟨_, w, h⟩
    exact ⟨as', w', h', (hsame _ _ _ _ h h').2⟩

end Machine

end WordMachine
