/-
  Session files that cannot be created, or cannot be written.

  A session writes the transcript, then the lines of input, and reports a fault of its run last.
  The first file that is not kept ends it.

  * `DeviceError.refusals`: why a file cannot be created, and `Files.refused_of_opened`: there is no
    other reason;
  * `heading_not_mem`: what is reported of a session file says nothing of a fault;
  * `HidesNothing`: a fault of the run is reported, and every session file that can be created is
    there in full;
  * `hidesNothing_iff`: when that is so, and `not_hidesNothing_refused`: when it is not.
-/
import WordMachine.Proofs.Session

namespace WordMachine

/-- Why a file cannot be created. -/
def DeviceError.refusals : List DeviceError :=
  [notFound, isDirectory, notDirectory, nameTooLong, notPermitted]

/-! ## Files -/

namespace Files

open DeviceError (refusals)

variable {files files' : Files} {path : String} {place : Place} {parts : List (List Char)}
  {name : String} {error : DeviceError}

theorem refused_of_lookup (h : files.lookup place name = .error error) : error ∈ refusals := by
  unfold lookup at h
  split at h
  · cases h
    decide
  · split at h
    · cases h
    · cases h
      decide

theorem refused_of_walk (h : files.walk place parts = .error error) : error ∈ refusals := by
  induction parts generalizing place with
  | nil => cases h
  | cons part rest ih =>
    unfold walk at h
    split at h
    · exact ih h
    · split at h
      · exact ih h
      · split at h
        · cases h
        · split at h
          · exact ih h
          · cases h
            decide
          · next hlookup =>
            cases h
            exact refused_of_lookup hlookup

theorem refused_of_follow (h : files.follow path = .error error) : error ∈ refusals := by
  unfold follow at h
  split at h
  · cases h
    decide
  · split at h
    · cases h
      decide
    · exact refused_of_walk h

theorem refused_of_access (h : files.access place name = .error error) : error ∈ refusals := by
  unfold access at h
  split at h
  · cases h
  · cases h
    decide
  · split at h
    · cases h
    · cases h
      decide

/-- **A file is not created for one of these reasons.** -/
theorem refused_of_opened (h : files.opened path = .error error) : error ∈ refusals := by
  rcases hf : files.follow path with error' | (_ | ⟨place, name, _ | _⟩) <;>
    simp only [opened, hf, bind, Except.bind, Except.error.injEq] at h
  · obtain rfl := h
    exact refused_of_follow hf
  · obtain rfl := h
    decide
  · split at h
    · cases h
      decide
    · rcases ha : files.access place name with error' | access
      · rw [ha] at h
        cases h
        exact refused_of_access ha
      · rw [ha] at h
        dsimp only at h
        split at h
        · cases h
          decide
        · cases h
  · obtain rfl := h
    decide

end Files

/-! ## What is reported -/

/-- The text that names the place where a program has faulted. -/
def heading (pc : Word) : String := s!"Program faulted at {pc.upperHex}"

/-- The second character of a text is the one of its front. -/
theorem toList_append_one (front back : String) (h : 1 < front.toList.length) :
    (front ++ back).toList[1]? = front.toList[1]? := by
  rw [String.toList_append, List.getElem?_append_left h]

/-- A text with another second character is another text. -/
theorem heading_ne (pc : Word) {text : String} (h : text.toList[1]? ≠ some 'r') :
    heading pc ≠ text := by
  have hheading : (heading pc).toList[1]? = some 'r' :=
    (toList_append_one "Program faulted at " pc.upperHex (by decide +kernel)).trans
      (by decide +kernel)
  exact fun heq => h (heq ▸ hheading)

theorem Files.Keeping.heading_not_mem {files files' : Files} {path : String}
    {contents : List UInt8} {problem : Problem}
    (h : files.Keeping path contents (.error problem) files') (pc : Word) :
    heading pc ∉ problem.messages := by
  have herrors : ∀ error ∈ .noSpace :: DeviceError.refusals,
      error.message.toList[1]? ≠ some 'r' := by
    decide +kernel
  cases h with
  | refused hrefused =>
    have hcreate : (s!"Failed to create {path}").toList[1]? = some 'a' :=
      (toList_append_one "Failed to create " path (by decide +kernel)).trans (by decide +kernel)
    simp only [Problem.messages, List.mem_cons, List.not_mem_nil, or_false, not_or]
    refine ⟨heading_ne pc (hcreate ▸ by decide), heading_ne pc ?_⟩
    exact herrors _ (List.mem_cons_of_mem _ (Files.refused_of_opened hrefused))
  | cut =>
    simp only [Problem.messages, List.mem_cons, List.not_mem_nil, or_false]
    exact heading_ne pc (herrors _ List.mem_cons_self)

/-- **What is reported of a session file says nothing of a fault.** -/
theorem Options.Keeping.heading_not_mem {options : Options} {files files' : Files}
    {t? : Option Transcript} {problem : Problem}
    (h : options.Keeping files t? (.error problem) files') (pc : Word) :
    heading pc ∉ problem.messages := by
  cases h with
  | stopped h =>
    obtain ⟨path, -, hkeeping⟩ := h.exists_keeping
    exact hkeeping.heading_not_mem pc
  | went _ h =>
    obtain ⟨path, -, hkeeping⟩ := h.exists_keeping
    exact hkeeping.heading_not_mem pc

/-! ## What is hidden -/

/-- A fault of the run is reported, and every session file that can be created holds what it is to
    hold, whatever becomes of the other one. -/
structure HidesNothing (options : Options) (files : Files) (r : Ran Machine Unit) (t : Transcript)
    (ending : Ending) (s : Sandbox) : Prop where
  fault : ∀ fault, r.outcome = .error fault →
    heading r.state.store.pc ∈ ending.report ∧ fault.message ∈ ending.report
  transcript : ∀ path ∈ options.transcript, files.Creates path →
    s.files.read path = .ok t.text.toUTF8.data.toList
  replayOut : ∀ path ∈ options.replayOut, files.Creates path →
    s.files.read path = .ok t.inputText.toUTF8.data.toList

section

variable {options : Options} {files files' : Files} {arguments : List String}
  {image input : List UInt8} {lines : List String} {fuel : Nat} {r : Ran Machine Unit}
  {t : Transcript} {t? : Option Transcript} {outcome : Except Problem Unit}

/-- A run that is to keep a transcript has one. -/
theorem Options.exists_transcript
    (hasked : options.transcript.isSome ∨ options.replayOut.isSome)
    (hrun : Machine.run fuel (options.prepared image lines input) = some r) :
    ∃ t, r.state.console.transcript = some t := by
  have hrecord : (options.prepared image lines input).record =
      options.prepared image lines input := by
    unfold Options.prepared
    rw [if_pos hasked]
    rfl
  have hends : (options.prepared image lines input).Ends r := ⟨fuel, hrun⟩
  obtain ⟨m, t, hends', -, ht⟩ := hends.record
  rw [hrecord] at hends'
  exact ⟨t, (congrArg (fun r => r.state.console.transcript) (hends.unique hends')).trans ht⟩

/-- A fault is reported exactly if nothing goes wrong with the session files. -/
theorem reports_fault_iff (h : options.Keeping files t? outcome files') :
    (∀ fault, r.outcome = .error fault →
        heading r.state.store.pc ∈
          (Sandbox.ending (outcome >>= fun _ => Sandbox.reported r)).report ∧
        fault.message ∈ (Sandbox.ending (outcome >>= fun _ => Sandbox.reported r)).report) ↔
      ((∃ fault, r.outcome = .error fault) → outcome = .ok ()) := by
  rcases outcome with problem | ⟨⟩
  · constructor
    · rintro hreports ⟨fault, hfault⟩
      exact absurd (hreports fault hfault).1 (h.heading_not_mem _)
    · intro hno fault hfault
      cases hno ⟨fault, hfault⟩
  · refine iff_of_true (fun fault hfault => ?_) fun _ => rfl
    show heading _ ∈ (Sandbox.ending (Sandbox.reported r)).report ∧
      fault.message ∈ (Sandbox.ending (Sandbox.reported r)).report
    rw [Sandbox.reported, hfault]
    exact ⟨List.mem_cons_self, List.mem_cons_of_mem _ List.mem_cons_self⟩

/-- **When a session hides nothing.**  The first file that is not kept ends the session.  So a fault
    of the run is reported exactly if there is room for all session files that are asked for.  A
    transcript that can be created is there in full exactly if there is room for it, and the lines
    of input exactly if there is room for them and the transcript is there or is not asked for,
    unless their file happens to hold them already. -/
theorem hidesNothing_iff (hfinds : options.Finds files image lines)
    (hparse : Request.parse arguments = .ok (.run options)) (hapart : options.Apart files)
    (h : (options.prepared image lines input).Ends r) :
    ∃ t, (options.transcript.isSome ∨ options.replayOut.isSome →
        r.state.console.transcript = some t) ∧
      ∃ steps, ∀ fuel ≥ steps, ∃ ending s,
        Sandbox.invoke fuel files arguments input = some (ending, s) ∧
        (HidesNothing options files r t ending s ↔
          ((∃ fault, r.outcome = .error fault) → options.Stores files t) ∧
          (∀ p ∈ options.transcript, files.Creates p →
            files.Takes p t.text.toUTF8.data.toList) ∧
          ∀ q ∈ options.replayOut, files.Creates q →
            ((∀ p ∈ options.transcript, files.Takes p t.text.toUTF8.data.toList) ∧
                files.Takes q t.inputText.toUTF8.data.toList) ∨
              (∃ p ∈ options.transcript, ¬ files.Takes p t.text.toUTF8.data.toList) ∧
                files.read q = .ok t.inputText.toUTF8.data.toList) := by
  obtain ⟨steps, hrun⟩ := h
  obtain ⟨t, ht⟩ : ∃ t, options.transcript.isSome ∨ options.replayOut.isSome →
      r.state.console.transcript = some t := by
    by_cases hasked : options.transcript.isSome ∨ options.replayOut.isSome
    · obtain ⟨t, ht⟩ := Options.exists_transcript hasked hrun
      exact ⟨t, fun _ => ht⟩
    · exact ⟨⟨#[], ""⟩, fun h => absurd h hasked⟩
  refine ⟨t, ht, steps, fun fuel hfuel => ?_⟩
  obtain ⟨outcome, files', events, hkeeping, hinvoke⟩ :=
    Sandbox.invoke_of_run hfinds hparse (Machine.run_mono hrun hfuel)
  refine ⟨_, _, hinvoke, ?_⟩
  have hfault := reports_fault_iff (r := r) hkeeping
  rw [hkeeping.ok_iff_stores ht] at hfault
  have hkept (hasked : options.transcript.isSome ∨ options.replayOut.isSome) :
      options.Keeping files (some t) outcome files' := ht hasked ▸ hkeeping
  have htranscript (p : String) (hp : p ∈ options.transcript) (hcreates : files.Creates p) :=
    (hkept (Or.inl (Option.isSome_of_mem hp))).transcript_iff hapart hp hcreates
  have hreplayOut (q : String) (hq : q ∈ options.replayOut) (hcreates : files.Creates q) :=
    (hkept (Or.inr (Option.isSome_of_mem hq))).replayOut_iff hapart hq hcreates
  constructor
  · rintro ⟨hreports, htext, hlines⟩
    exact ⟨hfault.mp hreports,
      fun p hp hcreates => (htranscript p hp hcreates).mp (htext p hp hcreates),
      fun q hq hcreates => (hreplayOut q hq hcreates).mp (hlines q hq hcreates)⟩
  · rintro ⟨hstores, htext, hlines⟩
    exact ⟨hfault.mpr hstores,
      fun p hp hcreates => (htranscript p hp hcreates).mpr (htext p hp hcreates),
      fun q hq hcreates => (hreplayOut q hq hcreates).mpr (hlines q hq hcreates)⟩

end

/-- A program that reads a character and halts. -/
def readingImage : List UInt8 := Image.encode [20, 32768, 0]

/-- A program that reads a character and pops from an empty stack. -/
def readingAndPoppingImage : List UInt8 := Image.encode [20, 32768, 3, 32768]

/-- Where there is no directory for the lines of input, a run that halts keeps its transcript and
    hides nothing; where there is no room for the transcript, a run that faults hides its fault. -/
theorem hidesNothing_iff_reading :
    let files := Files.workspace [("a.bin", readingImage), ("b.bin", readingAndPoppingImage)]
    let halting := ["a.bin", "--transcript", "t.txt", "--replay-out", "no/r.txt",
      "--log-level", "off"]
    let faulting := ["b.bin", "--transcript", "/dev/full", "--log-level", "off"]
    let options : Options := ⟨"b.bin", 0, none, some "/dev/full", none, false, none⟩
    (¬ files.Creates "no/r.txt" ∧
      ∃ steps, ∀ fuel ≥ steps, ∃ ending s,
        Sandbox.invoke fuel files halting [120, 10] = some (ending, s) ∧
          s.files.read "t.txt" = .ok "> x\n".toUTF8.data.toList) ∧
      files.Creates "/dev/full" ∧
      ∃ r t, (options.prepared readingAndPoppingImage [] [120, 10]).Ends r ∧
        r.outcome = .error .stackUnderflow ∧ r.state.console.transcript = some t ∧
        ∃ steps, ∀ fuel ≥ steps, ∃ ending s,
          Sandbox.invoke fuel files faulting [120, 10] = some (ending, s) ∧
            ¬ HidesNothing options files r t ending s := by
  intro files halting faulting options
  have hfull : files.opened "/dev/full" = .ok (["full", "dev"], .upTo 0) := by decide +kernel
  refine ⟨?_, Files.creates_iff.mpr ⟨_, _, hfull⟩, ?_⟩
  · let options : Options := ⟨"a.bin", 0, none, some "t.txt", some "no/r.txt", false, none⟩
    let m := options.prepared readingImage [] [120, 10]
    have hfinds : options.Finds files readingImage [] :=
      ⟨by decide +kernel, by decide +kernel, rfl⟩
    have hparse : Request.parse halting = .ok (.run options) := by decide +kernel
    have hno : ¬ files.Creates "no/r.txt" :=
      Files.not_creates_of_error
        (show files.opened "no/r.txt" = .error .notFound by decide +kernel)
    have hopened : files.opened "t.txt" = .ok (["t.txt", "work"], .unlimited) := by decide +kernel
    have hends := Machine.ends_of_steps_halted
      (show (Machine.steps 2 m).outcome = .ok () by decide +kernel)
      (show (Machine.steps 2 m).state.halted = true by decide +kernel)
    have hflush : (Console.flush (Machine.steps 2 m).state.console).outcome = .ok () := by
      decide +kernel
    have htext : (Machine.steps 2 m).state.flushed.console.transcript =
        some ⟨#[.input "x"], ""⟩ := by decide +kernel
    obtain ⟨t, ht, steps, hinvoke⟩ := hidesNothing_iff hfinds hparse
      (by rintro _ _ _ ⟨⟩ _ h; exact absurd h hno) hends
    obtain rfl : ⟨#[.input "x"], ""⟩ = t := Option.some.inj (htext.symm.trans (ht (Or.inl rfl)))
    refine ⟨hno, steps, fun fuel hfuel => ?_⟩
    obtain ⟨ending, s, hs, hiff⟩ := hinvoke fuel hfuel
    have hnothing := hiff.mpr ⟨fun ⟨fault, hfault⟩ => absurd (hflush.symm.trans hfault) nofun,
      by rintro _ ⟨⟩ _; exact Files.takes_iff.mpr ⟨_, _, hopened, rfl⟩,
      by rintro _ ⟨⟩ h; exact absurd h hno⟩
    exact ⟨ending, s, hs, (hnothing.transcript "t.txt" rfl
      (Files.creates_iff.mpr ⟨_, _, hopened⟩)).trans (by decide +kernel)⟩
  · let m := options.prepared readingAndPoppingImage [] [120, 10]
    have hfinds : options.Finds files readingAndPoppingImage [] :=
      ⟨by decide +kernel, by decide +kernel, rfl⟩
    have hparse : Request.parse faulting = .ok (.run options) := by decide +kernel
    have hends := Machine.ends_of_steps_error
      (show (Machine.steps 2 m).outcome = .error .stackUnderflow by decide +kernel)
    have htext : (Machine.steps 2 m).state.flushed.console.transcript =
        some ⟨#[.input "x"], ""⟩ := by decide +kernel
    obtain ⟨t, ht, steps, hinvoke⟩ := hidesNothing_iff hfinds hparse (fun _ _ _ => nofun) hends
    obtain rfl : ⟨#[.input "x"], ""⟩ = t := Option.some.inj (htext.symm.trans (ht (Or.inl rfl)))
    refine ⟨_, _, hends, rfl, htext, steps, fun fuel hfuel => ?_⟩
    obtain ⟨ending, s, hs, hiff⟩ := hinvoke fuel hfuel
    refine ⟨ending, s, hs, fun hnothing => ?_⟩
    obtain ⟨place, access, hopened, htaken⟩ :=
      Files.takes_iff.mp (((hiff.mp hnothing).1 ⟨_, rfl⟩).transcript _ rfl)
    cases hfull.symm.trans hopened
    exact absurd htaken (by decide +kernel)

/-- **Without a directory for the transcript the fault is hidden, and so are the lines of input**,
    which could have been kept. -/
theorem not_hidesNothing_refused :
    let files := Files.workspace [("a.bin", readingAndPoppingImage)]
    let arguments := ["a.bin", "--transcript", "no/t.txt", "--replay-out", "r.txt",
      "--log-level", "off"]
    let options : Options := ⟨"a.bin", 0, none, some "no/t.txt", some "r.txt", false, none⟩
    Request.parse arguments = .ok (.run options) ∧
      options.Finds files readingAndPoppingImage [] ∧ files.Creates "r.txt" ∧
      ∃ r t, (options.prepared readingAndPoppingImage [] [120, 10]).Ends r ∧
        r.outcome = .error .stackUnderflow ∧ r.state.console.transcript = some t ∧
        ∃ steps, ∀ fuel ≥ steps, ∃ ending s,
          Sandbox.invoke fuel files arguments [120, 10] = some (ending, s) ∧
            ending.report =
              ["Failed to create no/t.txt", "No such file or directory (os error 2)"] ∧
            s.files.read "r.txt" = .error .notFound ∧
            ¬ HidesNothing options files r t ending s := by
  intro files arguments options
  let m := options.prepared readingAndPoppingImage [] [120, 10]
  have hfinds : options.Finds files readingAndPoppingImage [] :=
    ⟨by decide +kernel, by decide +kernel, rfl⟩
  have hparse : Request.parse arguments = .ok (.run options) := by decide +kernel
  have hrefused : files.opened "no/t.txt" = .error .notFound := by decide +kernel
  have hopened : files.opened "r.txt" = .ok (["r.txt", "work"], .unlimited) := by decide +kernel
  have hends := Machine.ends_of_steps_error
    (show (Machine.steps 2 m).outcome = .error .stackUnderflow by decide +kernel)
  have ht : (Machine.steps 2 m).state.flushed.console.transcript =
      some ⟨#[.input "x"], ""⟩ := by decide +kernel
  refine ⟨hparse, hfinds, Files.creates_iff.mpr ⟨_, _, hopened⟩, _, _, hends, rfl, ht, ?_⟩
  obtain ⟨steps, hrun⟩ := hends
  refine ⟨steps, fun fuel hfuel => ?_⟩
  obtain ⟨outcome, files', events, hkeeping, hinvoke⟩ :=
    Sandbox.invoke_of_run hfinds hparse (Machine.run_mono hrun hfuel)
  rw [ht] at hkeeping
  obtain ⟨rfl, rfl⟩ := hkeeping.of_refused rfl hrefused
  refine ⟨_, _, hinvoke, by decide +kernel, ?_, fun hnothing => ?_⟩
  · show files.read "r.txt" = _
    decide +kernel
  · exact hkeeping.heading_not_mem _ (hnothing.fault _ rfl).1

end WordMachine
