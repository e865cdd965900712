/-
  A line is taken behind a flush.

  What came first is read off the contacts that were written down, for any devices.

  * `FlushedFirst`: whenever a line is taken, the sink was flushed and not written to since;
  * `FlushesCounted`: there is one flush for each line that is asked for, for each flush that the
    owner asks for and for each run that ends;
  * `Console.Intact`: no line was taken or recorded, as there is none without a contact that
    takes one (`invariant_intact`);
  * `input_behind_flush`: all of it over any uses and any requests, and what a read comes to whose
    flush fails.
-/
import WordMachine.Proofs.WatchedRuns

namespace WordMachine

open WordMachine.Action WordMachine.Watched

/-! ## What came first -/

section

variable {contacts : List Contact} {c : Contact}

/-- The sink was flushed, and nothing was written to it since. -/
def Flushed (contacts : List Contact) : Prop :=
  ∃ before after, contacts = before ++ .flushed true :: after ∧ .wrote ∉ after

/-- Whenever a line was taken, the sink was flushed before and not written to since. -/
def FlushedFirst (contacts : List Contact) : Prop :=
  ∀ before c after, contacts = before ++ c :: after → c.takes = true → Flushed before

/-- There was one flush for each call that makes for one. -/
def FlushesCounted (contacts : List Contact) : Prop :=
  contacts.countP Contact.isFlush =
    contacts.count .asked + contacts.count .told + contacts.count .ended

/-- No line was taken. -/
def TookNothing (contacts : List Contact) : Prop := ∀ c ∈ contacts, c.takes = false

theorem flushed_snoc (contacts : List Contact) : Flushed (contacts ++ [.flushed true]) :=
  ⟨contacts, [], rfl, List.not_mem_nil⟩

theorem flushedFirst_nil : FlushedFirst [] := by
  intro before c after h
  exact absurd h (by simp)

/-- Only a contact that takes a line needs anything of those before it. -/
theorem FlushedFirst.snoc (h : FlushedFirst contacts) (hc : c.takes = true → Flushed contacts) :
    FlushedFirst (contacts ++ [c]) := by
  intro before x after hsplit hx
  rcases List.eq_nil_or_concat after with rfl | ⟨after, y, rfl⟩
  · obtain ⟨rfl, hlast⟩ := List.append_inj' hsplit rfl
    obtain rfl : c = x := List.cons.inj hlast |>.1
    exact hc hx
  · have hassoc : contacts ++ [c] = (before ++ x :: after) ++ [y] := by
      rw [hsplit, List.concat_eq_append, List.append_assoc, List.cons_append]
    obtain ⟨hfront, -⟩ := List.append_inj' hassoc rfl
    exact h before x after hfront hx

theorem FlushesCounted.append {contacts' : List Contact} (h : FlushesCounted contacts)
    (h' : FlushesCounted contacts') : FlushesCounted (contacts ++ contacts') := by
  simp only [FlushesCounted, List.countP_append, List.count_append] at h h' ⊢
  omega

/-- A line that is taken is neither a flush nor a call for one. -/
theorem flushesCounted_of_takes (hc : c.takes = true) : FlushesCounted [c] := by
  cases c with
  | tookQueued | readSource => rfl
  | wrote | flushed | asked | told | ended => cases hc

theorem flushesCounted_of_isCall (hc : c.isCall = true) (ok : Bool) :
    FlushesCounted ([c] ++ [.flushed ok]) := by
  cases c with
  | told | ended => rfl
  | wrote | flushed | tookQueued | readSource | asked => cases hc

theorem takes_of_isCall (hc : c.isCall = true) : c.takes = false := by
  cases c with
  | told | ended => rfl
  | wrote | flushed | tookQueued | readSource | asked => cases hc

theorem isFlush_of_takes (hc : c.takes = true) : c.isFlush = false := by
  cases c with
  | tookQueued | readSource => rfl
  | wrote | flushed | asked | told | ended => cases hc

theorem isFlush_of_isCall (hc : c.isCall = true) : c.isFlush = false := by
  cases c with
  | told | ended => rfl
  | wrote | flushed | tookQueued | readSource | asked => cases hc

theorem TookNothing.snoc (h : TookNothing contacts) (hc : c.takes = false) :
    TookNothing (contacts ++ [c]) := by
  intro x hx
  rcases List.mem_append.mp hx with hx | hx
  · exact h x hx
  · rwa [List.mem_singleton.mp hx]

theorem TookNothing.front {contacts' : List Contact} (h : TookNothing (contacts ++ contacts')) :
    TookNothing contacts := fun c hc => h c (List.mem_append_left _ hc)

end

/-! ## Lines that stay where they are -/

/-- No line was taken or recorded; some were queued, and the current line may be further on. -/
structure Console.Intact (lines : List String) (c c' : Console) : Prop where
  source : c'.source = c.source
  queue : c'.queue = c.queue ++ lines
  inputs : c'.inputs = c.inputs
  pending : c'.pending <:+ c.pending

/-- A read whose flush fails comes to that fault, and the sink only counts the flush. -/
theorem Console.readChar_of_flushFailure {console : Console} {text : String}
    (hp : console.pending = []) (h : console.sink.flushFailure = some text) :
    readChar console = ⟨.error (.device (.reported text)), console.flushed, []⟩ := by
  have hout : (flush console).outcome = .error (.device (.reported text)) := by
    simp only [flush, onSink_apply, Sink.flush, h]
  have hflush : flush console = ⟨.error (.device (.reported text)), console.flushed, []⟩ := by
    rw [flush_apply, hout]
  rw [readChar_of_nil hp, refill, bind_error (bind_error hflush)]

namespace Devices

variable {d : Devices} {w : Watched Console}

/-! ## The order of the contacts -/

theorem invariant_flushedFirst (d : Devices) :
    Invariant d fun _ w => FlushedFirst w.contacts where
  moves lines w v hmoves hw := by
    have hasked : FlushedFirst (w.contacts ++ [.asked]) := hw.snoc nofun
    cases hmoves with
    | handedOut h => exact hw
    | refused h => exact hasked.snoc nofun
    | took h hc =>
      have hflush : FlushedFirst (w.contacts ++ [.asked] ++ [.flushed true]) := hasked.snoc nofun
      exact hflush.snoc fun _ => flushed_snoc _
    | wrote h => exact hw.snoc nofun
    | @flushed c hc =>
      have hcall : FlushedFirst (w.contacts ++ [c]) :=
        hw.snoc fun h => absurd h (Bool.eq_false_iff.mp (takes_of_isCall hc))
      exact hcall.snoc nofun
  queueLines lines more w hw := hw
  record lines w hw := hw

/-- Each call and the flush behind it are counted together. -/
theorem invariant_flushesCounted (d : Devices) :
    Invariant d fun _ w => FlushesCounted w.contacts where
  moves lines w v hmoves hw := by
    cases hmoves with
    | handedOut h => exact hw
    | refused h =>
      rw [List.append_assoc]
      exact hw.append rfl
    | took h hc =>
      rw [List.append_assoc w.contacts]
      exact FlushesCounted.append (hw.append rfl) (flushesCounted_of_takes hc)
    | wrote h => exact hw.append rfl
    | flushed hc =>
      rw [List.append_assoc]
      exact hw.append (flushesCounted_of_isCall hc _)
  queueLines lines more w hw := hw
  record lines w hw := hw

/-- Only a contact that takes a line changes what there is to take. -/
theorem invariant_intact (d : Devices) (c : Console) :
    Invariant d fun lines w => TookNothing w.contacts → c.Intact lines w.state where
  moves lines w v hmoves hw := by
    intro hno
    cases hmoves with
    | @handedOut x rest h =>
      have hkept := hw hno
      have hrest : rest <:+ w.state.pending := by
        rw [h]
        exact List.suffix_cons x rest
      exact ⟨hkept.source, hkept.queue, hkept.inputs, hrest.trans hkept.pending⟩
    | refused h =>
      have hkept := hw hno.front.front
      exact ⟨hkept.source, hkept.queue, hkept.inputs, hkept.pending⟩
    | took h hc =>
      have hlast := hno _ List.mem_concat_self
      exact absurd (hc.symm.trans hlast) nofun
    | wrote h =>
      have hkept := hw hno.front
      exact ⟨hkept.source, hkept.queue, h.trans hkept.inputs, hkept.pending⟩
    | flushed hc =>
      have hkept := hw hno.front.front
      exact ⟨hkept.source, hkept.queue, hkept.inputs, hkept.pending⟩
  queueLines lines more w hw hno := by
    have hkept := hw hno
    refine ⟨hkept.source, ?_, hkept.inputs, hkept.pending⟩
    rw [← List.append_assoc, ← hkept.queue]
    rfl
  record lines w hw hno := by
    have hkept := hw hno
    exact ⟨hkept.source, hkept.queue, hkept.inputs, hkept.pending⟩

/-- Every flush fails. -/
def NeverFlushes (d : Devices) : Prop := ∀ sink, ∃ fault, (d.flush sink).outcome = .error fault

theorem invariant_tookNothing (hd : d.NeverFlushes) :
    Invariant d fun _ w => TookNothing w.contacts where
  moves lines w v hmoves hw := by
    cases hmoves with
    | handedOut h => exact hw
    | refused h => exact TookNothing.snoc (hw.snoc rfl) rfl
    | took h hc =>
      obtain ⟨fault, hfault⟩ := hd w.state.sink
      rw [h] at hfault
      cases hfault
    | wrote h => exact hw.snoc rfl
    | flushed hc => exact TookNothing.snoc (hw.snoc (takes_of_isCall hc)) rfl
  queueLines lines more w hw := hw
  record lines w hw := hw

theorem flushes_flush (sink : Sink) : (Sink.flush sink).state.flushes = sink.flushes + 1 := by
  unfold Sink.flush
  split
  · rfl
  · rfl

theorem flushes_write (bytes : List UInt8) (sink : Sink) :
    (Sink.write bytes sink).state.flushes = sink.flushes := by
  unfold Sink.write
  split
  · rfl
  · rfl

/-- A call and the flush behind it are one flush. -/
theorem countP_flush (contacts : List Contact) {c : Contact} (hc : c.isFlush = false) (ok : Bool) :
    (contacts ++ [c] ++ [Contact.flushed ok]).countP Contact.isFlush =
      contacts.countP Contact.isFlush + 1 := by
  rw [List.countP_append, List.countP_append, List.countP_singleton, List.countP_singleton, hc]
  rfl

/-- The sink of a console counts its flushes. -/
theorem invariant_flushes (n : Nat) :
    Invariant plain fun _ w => w.state.sink.flushes = n + w.contacts.countP Contact.isFlush where
  moves lines w v hmoves hw := by
    have hflush := flushes_flush w.state.sink
    rw [hw, Nat.add_assoc] at hflush
    cases hmoves with
    | handedOut h => exact hw
    | refused h =>
      have hsink : Sink.flush w.state.sink = _ := h
      rw [hsink] at hflush
      rw [countP_flush w.contacts (rfl : Contact.asked.isFlush = false)]
      exact hflush
    | took h hc =>
      have hsink : Sink.flush w.state.sink = _ := h
      rw [hsink] at hflush
      rw [List.countP_append, countP_flush w.contacts (rfl : Contact.asked.isFlush = false),
        List.countP_singleton, isFlush_of_takes hc]
      exact hflush
    | wrote h =>
      rw [List.countP_append]
      exact (flushes_write _ _).trans hw
    | flushed hc =>
      rw [countP_flush w.contacts (isFlush_of_isCall hc)]
      exact hflush
  queueLines lines more w hw := hw
  record lines w hw := hw

/-! ## Over all uses and requests -/

/-- What holds of the contacts of a console, and of the console they led to, if these lines were
    queued on the way. -/
structure Accounted (d : Devices) (lines : List String) (c : Console) (w : Watched Console) :
    Prop where
  flushedFirst : FlushedFirst w.contacts
  flushesCounted : FlushesCounted w.contacts
  intact : TookNothing w.contacts → c.Intact lines w.state
  neverFlushes : d.NeverFlushes → TookNothing w.contacts ∧ c.Intact lines w.state

/-- What is kept from a console without contacts. -/
theorem accounted_of_invariants {lines : List String} {c : Console}
    (h : ∀ P, Invariant d P → P [] ⟨c, []⟩ → P lines w) : Accounted d lines c w := by
  have hintact : TookNothing w.contacts → c.Intact lines w.state :=
    h _ (invariant_intact d c) fun _ =>
      ⟨rfl, (List.append_nil c.queue).symm, rfl, List.suffix_rfl⟩
  refine ⟨h _ (invariant_flushedFirst d) flushedFirst_nil, h _ (invariant_flushesCounted d) rfl,
    hintact, fun hd => ?_⟩
  have hno : TookNothing w.contacts := h _ (invariant_tookNothing hd) nofun
  exact ⟨hno, hintact hno⟩

/-- **Every line is taken behind a flush, and a flush that fails loses no line.**  Over any devices,
    whatever is asked of a console or of a machine: whenever a line is taken, the sink was flushed
    and not written to since; there is one flush for each read that finds nothing left of the
    current line, for each flush that is asked for and for each run that ends; and if every flush
    fails, no line is ever taken or recorded.  A read whose flush fails comes to that fault and
    changes nothing but the sink.  Consoles and machines that are not watched do the same. -/
theorem input_behind_flush :
    (∀ (d : Devices) (uses : List Use) (c : Console),
      Accounted d (queuedBy uses) c (d.serve uses ⟨c, []⟩)) ∧
    (∀ (d : Devices) (qs : List Machine.Request) (m : Machine) (w : Watched Machine),
      d.SeesAll qs ⟨m, []⟩ w → Accounted d (queuedIn qs) m.console w.console) ∧
    (∀ (d : Devices) (w : Watched Console) (fault : Fault) (sink : Sink) (log : List Event),
      w.state.pending = [] → d.flush w.state.sink = ⟨.error fault, sink, log⟩ →
        d.readChar w =
          ⟨.error fault, ⟨{ w.state with sink }, w.contacts ++ [.asked, .flushed false]⟩, log⟩) ∧
    (∀ (c : Console) (text : String), c.pending = [] → c.sink.flushFailure = some text →
      c.readChar = ⟨.error (.device (.reported text)), { c with sink := c.sink.flushed }, []⟩) ∧
    (∀ (uses : List Use) (c : Console),
      (plain.serve uses ⟨c, []⟩).state = (c.serve uses).2 ∧
        (c.serve uses).2.sink.flushes = c.sink.flushes +
          (plain.serve uses ⟨c, []⟩).contacts.countP Contact.isFlush) ∧
    (∀ (qs : List Machine.Request) (m : Machine) (as : List Machine.Answer) (n : Machine),
      Machine.AnswersAll qs m as n →
        ∃ contacts, plain.SeesAll qs ⟨m, []⟩ ⟨n, contacts⟩ ∧
          n.console.sink.flushes =
            m.console.sink.flushes + contacts.countP Contact.isFlush) := by
  refine ⟨fun d uses c => accounted_of_invariants fun P hP => hP.serve [],
    fun d qs m w hs => accounted_of_invariants fun P hP => hP.seesAll [] hs, ?_,
    fun c text hp h => Console.readChar_of_flushFailure hp h, ?_, ?_⟩
  · intro d w fault sink log hp h
    rw [readChar_of_refused hp h, List.append_assoc]
    rfl
  · intro uses c
    have hstate : (plain.serve uses ⟨c, []⟩).state = (c.serve uses).2 := state_serve_plain uses _
    have hcount : (plain.serve uses ⟨c, []⟩).state.sink.flushes = c.sink.flushes +
        (plain.serve uses ⟨c, []⟩).contacts.countP Contact.isFlush :=
      (invariant_flushes c.sink.flushes).serve [] rfl
    rw [hstate] at hcount
    exact ⟨hstate, hcount⟩
  · intro qs m as n h
    obtain ⟨contacts, hall⟩ := seesAll_of_answersAll h []
    exact ⟨contacts, hall, (invariant_flushes m.console.sink.flushes).seesAll [] hall rfl⟩

/-- The line is still there for a second read, and for a second try of the program that asks for
    it; where every flush fails it is never taken. -/
theorem input_behind_flush_second_try :
    let c := (Console.new ⟨[], none⟩ .unlimited).queueLines ["a"]
    let failing := { c with sink := { Sink.unlimited with flushFailure := some "full" } }
    let m := (Machine.new (Store.writeBlock 0 [19, 63, 20, 32768] .empty).state ⟨[97, 10], none⟩
      .unlimited).record
    let w := (busyOnce.step (busyOnce.step ⟨m, []⟩).state).state
    let uses := [.write 63, .read, .read]
    ((busyOnce.serve uses ⟨c, []⟩).contacts =
        [.wrote, .asked, .flushed false, .asked, .flushed true, .tookQueued] ∧
      FlushedFirst (busyOnce.serve uses ⟨c, []⟩).contacts) ∧
    (w.contacts = [.wrote, .asked, .flushed false] ∧ FlushesCounted w.contacts ∧
      m.console.Intact [] w.state.console) ∧
    busyOnce.readChar ⟨c, []⟩ = ⟨.error (.device (.reported "busy")),
      ⟨{ c with sink := c.sink.flushed }, [.asked, .flushed false]⟩, []⟩ ∧
    failing.readChar = ⟨.error (.device (.reported "full")),
      { failing with sink := failing.sink.flushed }, []⟩ ∧
    (∃ contacts, plain.SeesAll [.step] ⟨m, []⟩ ⟨(Machine.step m).state, contacts⟩ ∧
      (Machine.step m).state.console.sink.flushes = 0 + contacts.countP Contact.isFlush) := by
  intro c failing m w uses
  obtain ⟨hserve, hsees, hrefused, hfails, -, hall⟩ := input_behind_flush
  have hw : busyOnce.SeesAll [.step, .step] ⟨m, []⟩ w := .cons (.step _) (.cons (.step _) (.nil _))
  have hcontacts : w.contacts = [.wrote, .asked, .flushed false] := by decide +kernel
  have haccount := hsees busyOnce [.step, .step] m w hw
  have hno : TookNothing w.console.contacts := by
    show ∀ c ∈ w.contacts, c.takes = false
    rw [hcontacts]
    decide
  exact ⟨⟨by decide +kernel, (hserve busyOnce uses c).flushedFirst⟩,
    ⟨hcontacts, haccount.flushesCounted, haccount.intact hno⟩,
    hrefused busyOnce ⟨c, []⟩ _ _ _ rfl rfl, hfails failing "full" rfl rfl,
    hall [.step] m _ _ (.cons (.step m) (.nil _))⟩

end Devices

end WordMachine
