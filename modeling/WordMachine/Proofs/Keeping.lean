/-
  What becomes of a file that is to be kept.

  A file is created and then written.  It can be refused, its contents can be cut where there is
  no room for more, or it is kept.

  * `Files.Creates`, `Files.Takes`: a file can be created at a path, and there is room for its
    contents;
  * `Files.SameTree`: the directories are the same, and so is what may be written to files; so the
    same paths lead to them (`SameTree.follow`), and the same files can be created
    (`SameTree.opened`);
  * `read_put_of_opened`, `read_put_of_apart`: what is read from the file that was written, and
    from another one;
  * `Files.Keeping`: the three ways, each with the problem that is reported and the files after
    it, and `Files.KeepingAsked`, where no file may be asked for.  It ends well exactly if the
    file takes its contents (`ok_iff`); only then are they read from it (`Keeping.read_iff`), and
    every other file is as before (`read_of_apart_iff`);
  * `Options.CanKeep`: there is room for the session files that are asked for, and they are not the
    same; `Options.Keeps`: they hold what they should;
  * `Options.Keeping`: what the session files come to, the one after the other.  When all goes well
    (`ok_iff`), and when each of them is kept (`transcript_iff`, `replayOut_iff`).
-/
import WordMachine.CommandLine.Session

namespace WordMachine

namespace Files

variable {files files' : Files} {p q path : String} {path? : Option String} {place dir : Place}
  {name : String} {access : Access} {target : Target} {contents old : List UInt8}
  {outcome : Except Problem Unit}

/-! ## What can be created -/

/-- A file can be created at the path. -/
def Creates (files : Files) (path : String) : Prop :=
  ∃ place files', files.create path = .ok (place, files')

/-- A file can be created at the path, and all of its contents can be written. -/
def Takes (files : Files) (path : String) (contents : List UInt8) : Prop :=
  ∃ place files₁ files₂, files.create path = .ok (place, files₁) ∧
    files₁.write place contents = (.ok (), files₂)

theorem create_of_opened (h : files.opened path = .ok (place, access)) :
    files.create path = .ok (place, files.put place (.file access [])) := by
  rw [create, h]
  rfl

/-- What is written to a file that was created replaces what was there before. -/
theorem write_put (files : Files) (place : Place) (access : Access) (contents : List UInt8) :
    (files.put place (.file access [])).write place contents =
      (if access.taken contents = contents then .ok () else .error .noSpace,
        files.put place (.file access (access.taken contents))) := by
  simp only [write, node?_put, if_true, put_put]

theorem creates_iff :
    files.Creates path ↔ ∃ place access, files.opened path = .ok (place, access) := by
  constructor
  · rintro ⟨place, files', h⟩
    rcases hopened : files.opened path with error | ⟨place', access⟩
    · rw [create, hopened] at h
      cases h
    · exact ⟨place', access, rfl⟩
  · rintro ⟨place, access, h⟩
    exact ⟨place, _, create_of_opened h⟩

theorem not_creates_of_error {error : DeviceError} (h : files.opened path = .error error) :
    ¬ files.Creates path := by
  rw [creates_iff]
  rintro ⟨place, access, hopened⟩
  cases h.symm.trans hopened

theorem takes_iff : files.Takes path contents ↔
    ∃ place access, files.opened path = .ok (place, access) ∧ access.taken contents = contents := by
  constructor
  · rintro ⟨place, files₁, files₂, hcreate, hwrite⟩
    obtain ⟨place', access, hopened⟩ := creates_iff.mp ⟨place, files₁, hcreate⟩
    rw [create_of_opened hopened] at hcreate
    cases hcreate
    rw [write_put] at hwrite
    refine ⟨_, access, hopened, Decidable.byContradiction fun hcut => ?_⟩
    rw [if_neg hcut] at hwrite
    cases hwrite
  · rintro ⟨place, access, hopened, htaken⟩
    refine ⟨place, _, files.put place (.file access contents), create_of_opened hopened, ?_⟩
    rw [write_put, if_pos htaken, htaken]

theorem Takes.creates (h : files.Takes path contents) : files.Creates path := by
  obtain ⟨place, files₁, _, hcreate, -⟩ := h
  exact ⟨place, files₁, hcreate⟩

/-- A path at which a file can be created leads to a name in a directory. -/
theorem opened_eq_ok_iff : files.opened path = .ok (place, access) ↔
    ∃ dir name, files.follow path = .ok (.entry dir name false) ∧
      name.utf8ByteSize ≤ longestName ∧ files.access dir name = .ok access ∧ access ≠ .closed ∧
      place = name :: dir := by
  constructor
  · intro h
    rcases hf : files.follow path with error | (_ | ⟨dir, name, _ | _⟩) <;>
      simp only [opened, hf, bind, Except.bind, reduceCtorEq] at h
    by_cases hsize : longestName < name.utf8ByteSize
    · rw [if_pos hsize] at h
      cases h
    · rw [if_neg hsize] at h
      rcases ha : files.access dir name with error | access'
      · rw [ha] at h
        cases h
      · rw [ha] at h
        dsimp only at h
        split at h
        · cases h
        · next hopen =>
          cases h
          exact ⟨dir, name, rfl, Nat.not_lt.mp hsize, ha, hopen, rfl⟩
  · rintro ⟨dir, name, hf, hsize, ha, hopen, rfl⟩
    simp only [opened, hf, bind, Except.bind, Nat.not_lt.mpr hsize, if_false, ha, hopen]

theorem read_eq_ok_iff : files.read path = .ok contents ↔
    ∃ dir name access, files.follow path = .ok (.entry dir name false) ∧
      name.utf8ByteSize ≤ longestName ∧
      files.node? (name :: dir) = some (.file access contents) := by
  constructor
  · intro h
    rcases hf : files.follow path with error | (_ | ⟨dir, name, slash⟩) <;>
      simp only [read, hf, bind, Except.bind, reduceCtorEq] at h
    unfold lookup at h
    by_cases hsize : longestName < name.utf8ByteSize
    · simp only [hsize, if_true, reduceCtorEq] at h
    · rw [if_neg hsize] at h
      rcases hnode : files.node? (name :: dir) with _ | (_ | ⟨access, found⟩) <;>
        simp only [hnode, reduceCtorEq] at h
      cases slash with
      | true => cases h
      | false =>
        cases h
        exact ⟨dir, name, access, rfl, Nat.not_lt.mp hsize, hnode⟩
  · rintro ⟨dir, name, access, hf, hsize, hnode⟩
    simp only [read, hf, lookup, Nat.not_lt.mpr hsize, hnode, bind, Except.bind, if_false,
      Bool.false_eq_true]

/-! ## The same directories -/

/-- The directories are the same, and so is what may be written to the files. -/
structure SameTree (files files' : Files) : Prop where
  cwd : files'.cwd = files.cwd
  directory : ∀ place access,
    files'.node? place = some (.directory access) ↔ files.node? place = some (.directory access)
  access : ∀ dir name, files'.access dir name = files.access dir name

theorem SameTree.refl (files : Files) : SameTree files files :=
  ⟨rfl, fun _ _ => Iff.rfl, fun _ _ => rfl⟩

theorem SameTree.symm (h : SameTree files files') : SameTree files' files :=
  ⟨h.cwd.symm, fun place access => (h.directory place access).symm,
    fun dir name => (h.access dir name).symm⟩

/-- To make a file or to write to it changes no directory. -/
theorem SameTree.put (h : files.access dir name = .ok access) (contents : List UInt8) :
    SameTree files (files.put (name :: dir) (.file access contents)) := by
  have hno (access' : Access) : files.node? (name :: dir) ≠ some (.directory access') := by
    intro hnode
    rw [Files.access, hnode] at h
    cases h
  refine ⟨rfl, fun place access' => ?_, fun dir' name' => ?_⟩
  · rw [node?_put]
    split
    · next heq => exact iff_of_false nofun (heq ▸ hno access')
    · rfl
  · by_cases heq : name' :: dir' = name :: dir
    · cases heq
      rw [h, Files.access, node?_put, if_pos rfl]
    · rw [Files.access, Files.access, node?_put, if_neg heq, node?_put]
      by_cases hdir : dir' = name :: dir
      -- There was no directory, so nothing could be made in it before or after.
      · subst hdir
        rcases hnode : files.node? (name :: dir) with _ | (access' | _)
        · simp only [if_true]
        · exact absurd hnode (hno access')
        · simp only [if_true]
      · rw [if_neg hdir]

theorem lookup_eq_directory_iff : files.lookup dir name = .ok (.directory access) ↔
    name.utf8ByteSize ≤ longestName ∧ files.node? (name :: dir) = some (.directory access) := by
  unfold lookup
  split
  · next hsize => exact iff_of_false nofun fun h => absurd h.1 (Nat.not_le.mpr hsize)
  · next hsize =>
    rcases files.node? (name :: dir) with _ | node
    · exact iff_of_false nofun fun h => absurd h.2 nofun
    · simp only [Except.ok.injEq, Option.some.injEq, Nat.not_lt.mp hsize, true_and]

theorem SameTree.walk {parts : List (List Char)} (h : SameTree files files')
    (hwalk : files.walk place parts = .ok target) : files'.walk place parts = .ok target := by
  induction parts generalizing place with
  | nil => exact hwalk
  | cons part rest ih =>
    unfold Files.walk at hwalk ⊢
    split at hwalk
    · next h₁ => rw [if_pos h₁]; exact ih hwalk
    · next h₁ =>
      rw [if_neg h₁]
      split at hwalk
      · next h₂ => rw [if_pos h₂]; exact ih hwalk
      · next h₂ =>
        rw [if_neg h₂]
        split at hwalk
        · next h₃ => rw [if_pos h₃]; exact hwalk
        · next h₃ =>
          rw [if_neg h₃]
          split at hwalk
          · next access hlookup =>
            obtain ⟨hsize, hnode⟩ := lookup_eq_directory_iff.mp hlookup
            rw [lookup_eq_directory_iff.mpr ⟨hsize, (h.directory _ access).mpr hnode⟩]
            exact ih hwalk
          · cases hwalk
          · cases hwalk

/-- A path leads where it leads among the same directories. -/
theorem SameTree.follow (h : SameTree files files') :
    files.follow path = .ok target ↔ files'.follow path = .ok target := by
  unfold Files.follow
  rw [h.cwd]
  split
  · rfl
  · split
    · rfl
    · exact ⟨h.walk, h.symm.walk⟩

theorem SameTree.opened (h : SameTree files files') :
    files.opened path = .ok (place, access) ↔ files'.opened path = .ok (place, access) := by
  simp only [opened_eq_ok_iff, h.follow, h.access]

theorem SameTree.creates_iff (h : SameTree files files') :
    files'.Creates path ↔ files.Creates path := by
  simp only [Files.creates_iff, h.opened]

theorem SameTree.takes_iff (h : SameTree files files') :
    files'.Takes path contents ↔ files.Takes path contents := by
  simp only [Files.takes_iff, h.opened]

/-! ## What is read -/

theorem SameTree.put_of_opened (h : files.opened path = .ok (place, access))
    (contents : List UInt8) : SameTree files (files.put place (.file access contents)) := by
  obtain ⟨dir, name, -, -, haccess, -, rfl⟩ := opened_eq_ok_iff.mp h
  exact .put haccess contents

/-- What was written to a file is read from it. -/
theorem read_put_of_opened (h : files.opened path = .ok (place, access)) (contents : List UInt8) :
    (files.put place (.file access contents)).read path = .ok contents := by
  obtain ⟨dir, name, hfollow, hsize, -, -, rfl⟩ := opened_eq_ok_iff.mp h
  refine read_eq_ok_iff.mpr
    ⟨dir, name, access, (SameTree.put_of_opened h contents).follow.mp hfollow, hsize, ?_⟩
  rw [node?_put, if_pos rfl]

/-- What was written to one file does not change another one. -/
theorem read_put_of_apart (h : files.opened p = .ok (place, access)) (contents : List UInt8)
    (hapart : files.follow p ≠ files.follow q) :
    (files.put place (.file access contents)).read q = .ok old ↔ files.read q = .ok old := by
  obtain ⟨dir, name, hp, -, -, -, rfl⟩ := opened_eq_ok_iff.mp h
  have hother {dir' : Place} {name' : String}
      (hq : files.follow q = .ok (.entry dir' name' false)) : name' :: dir' ≠ name :: dir := by
    rintro ⟨⟩
    exact hapart (hp.trans hq.symm)
  have hsame := SameTree.put_of_opened h contents
  rw [read_eq_ok_iff, read_eq_ok_iff]
  constructor
  · rintro ⟨dir', name', access', hq, hsize, hnode⟩
    have hq := hsame.follow.mpr hq
    rw [node?_put, if_neg (hother hq)] at hnode
    exact ⟨dir', name', access', hq, hsize, hnode⟩
  · rintro ⟨dir', name', access', hq, hsize, hnode⟩
    refine ⟨dir', name', access', hsame.follow.mp hq, hsize, ?_⟩
    rw [node?_put, if_neg (hother hq), hnode]

/-! ## Keeping a file -/

/-- What a file that is to be kept comes to, and the files after it. -/
inductive Keeping (files : Files) (path : String) (contents : List UInt8) :
    Except Problem Unit → Files → Prop
  /-- It cannot be created. -/
  | refused {error : DeviceError} (h : files.opened path = .error error) :
      Keeping files path contents (.error (.uncreatable path error)) files
  /-- There is no room for all of its contents. -/
  | cut {place : Place} {access : Access} (h : files.opened path = .ok (place, access))
      (hcut : access.taken contents ≠ contents) :
      Keeping files path contents (.error (.unwritten .noSpace))
        (files.put place (.file access (access.taken contents)))
  | kept {place : Place} {access : Access} (h : files.opened path = .ok (place, access))
      (htaken : access.taken contents = contents) :
      Keeping files path contents (.ok ()) (files.put place (.file access contents))

namespace Keeping

theorem ok_iff (h : files.Keeping path contents outcome files') :
    outcome = .ok () ↔ files.Takes path contents := by
  rw [takes_iff]
  cases h with
  | refused hno =>
    refine iff_of_false nofun ?_
    rintro ⟨place, access, hopened, -⟩
    cases hno.symm.trans hopened
  | cut hopened hcut =>
    refine iff_of_false nofun ?_
    rintro ⟨place, access, hopened', htaken⟩
    cases hopened.symm.trans hopened'
    exact hcut htaken
  | kept hopened htaken => exact iff_of_true rfl ⟨_, _, hopened, htaken⟩

theorem sameTree (h : files.Keeping path contents outcome files') : SameTree files files' := by
  cases h with
  | refused => exact .refl files
  | cut hopened => exact .put_of_opened hopened _
  | kept hopened => exact .put_of_opened hopened _

/-- If the file can be created, its contents are read from it exactly if it takes them. -/
theorem read_iff (h : files.Keeping path contents outcome files') (hcreates : files.Creates path) :
    files'.read path = .ok contents ↔ files.Takes path contents := by
  rw [← h.ok_iff]
  cases h with
  | refused hno =>
    obtain ⟨place, access, hopened⟩ := creates_iff.mp hcreates
    cases hno.symm.trans hopened
  | cut hopened hcut =>
    rw [read_put_of_opened hopened]
    exact iff_of_false (fun heq => hcut (Except.ok.inj heq)) nofun
  | kept hopened => exact iff_of_true (read_put_of_opened hopened contents) rfl

theorem read_of_apart_iff (h : files.Keeping p contents outcome files')
    (hapart : files.Creates p → files.follow p ≠ files.follow q) :
    files'.read q = .ok old ↔ files.read q = .ok old := by
  cases h with
  | refused => rfl
  | cut hopened =>
    exact read_put_of_apart hopened _ (hapart (creates_iff.mpr ⟨_, _, hopened⟩))
  | kept hopened =>
    exact read_put_of_apart hopened _ (hapart (creates_iff.mpr ⟨_, _, hopened⟩))

theorem of_refused {error : DeviceError} (h : files.Keeping path contents outcome files')
    (hrefused : files.opened path = .error error) :
    outcome = .error (.uncreatable path error) ∧ files' = files := by
  cases h with
  | refused hno =>
    cases hno.symm.trans hrefused
    exact ⟨rfl, rfl⟩
  | cut hopened => cases hopened.symm.trans hrefused
  | kept hopened => cases hopened.symm.trans hrefused

theorem of_cut (h : files.Keeping path contents outcome files')
    (hopened : files.opened path = .ok (place, access)) (hcut : access.taken contents ≠ contents) :
    outcome = .error (.unwritten .noSpace) ∧
      files' = files.put place (.file access (access.taken contents)) := by
  cases h with
  | refused hno => cases hno.symm.trans hopened
  | cut hopened' =>
    cases hopened.symm.trans hopened'
    exact ⟨rfl, rfl⟩
  | kept hopened' htaken =>
    cases hopened.symm.trans hopened'
    exact absurd htaken hcut

end Keeping

/-- The same, if a file is asked for. -/
def KeepingAsked (files : Files) (path? : Option String) (contents : List UInt8)
    (outcome : Except Problem Unit) (files' : Files) : Prop :=
  match path? with
  | none => outcome = .ok () ∧ files' = files
  | some path => files.Keeping path contents outcome files'

namespace KeepingAsked

theorem keeping (h : files.KeepingAsked path? contents outcome files') (hpath : path ∈ path?) :
    files.Keeping path contents outcome files' := by
  obtain rfl := Option.mem_def.mp hpath
  exact h

/-- What goes wrong goes wrong with a file that was asked for. -/
theorem exists_keeping {problem : Problem}
    (h : files.KeepingAsked path? contents (.error problem) files') :
    ∃ path ∈ path?, files.Keeping path contents (.error problem) files' := by
  cases path? with
  | none => cases h.1
  | some path => exact ⟨path, rfl, h⟩

theorem ok_iff (h : files.KeepingAsked path? contents outcome files') :
    outcome = .ok () ↔ ∀ path ∈ path?, files.Takes path contents := by
  cases path? with
  | none => exact iff_of_true h.1 nofun
  | some path =>
    rw [(h.keeping rfl).ok_iff]
    exact ⟨fun htakes _ hmem => Option.mem_some.mp hmem ▸ htakes, fun hall => hall path rfl⟩

theorem sameTree (h : files.KeepingAsked path? contents outcome files') :
    SameTree files files' := by
  cases path? with
  | none => exact h.2 ▸ .refl files
  | some path => exact (h.keeping rfl).sameTree

theorem read_of_apart_iff (h : files.KeepingAsked path? contents outcome files')
    (hapart : ∀ p ∈ path?, files.Creates p → files.follow p ≠ files.follow q) :
    files'.read q = .ok old ↔ files.read q = .ok old := by
  cases path? with
  | none => rw [h.2]
  | some p => exact (h.keeping rfl).read_of_apart_iff (hapart p rfl)

end KeepingAsked

end Files

/-! ## Session files -/

namespace Options

variable {options : Options} {files : Files}

/-- There is room for the session files that are asked for. -/
structure Stores (options : Options) (files : Files) (t : Transcript) : Prop where
  transcript : ∀ path ∈ options.transcript, files.Takes path t.text.toUTF8.data.toList
  replayOut : ∀ path ∈ options.replayOut, files.Takes path t.inputText.toUTF8.data.toList

/-- The session files that are asked for are not the same, if they can be created. -/
def Apart (options : Options) (files : Files) : Prop :=
  ∀ p ∈ options.transcript, ∀ q ∈ options.replayOut, files.Creates p → files.Creates q →
    files.follow p ≠ files.follow q

/-- There is room for the session files that are asked for, and they are not the same. -/
structure CanKeep (options : Options) (files : Files) (t : Transcript) : Prop where
  stores : options.Stores files t
  apart : options.Apart files

/-- The session files that are asked for hold the conversation and the lines of input. -/
structure Keeps (options : Options) (t : Transcript) (files : Files) : Prop where
  transcript : ∀ path ∈ options.transcript, files.read path = .ok t.text.toUTF8.data.toList
  replayOut : ∀ path ∈ options.replayOut, files.read path = .ok t.inputText.toUTF8.data.toList

/-- What the session files come to, and the files after them.  Without a transcript there is
    nothing to keep; the transcript is kept first, and if it is not, the lines of input are not
    kept either. -/
inductive Keeping (options : Options) (files : Files) :
    Option Transcript → Except Problem Unit → Files → Prop
  | silent : Keeping options files none (.ok ()) files
  | stopped {t : Transcript} {problem : Problem} {files' : Files}
      (h : files.KeepingAsked options.transcript t.text.toUTF8.data.toList (.error problem)
        files') :
      Keeping options files (some t) (.error problem) files'
  | went {t : Transcript} {outcome : Except Problem Unit} {files₁ files₂ : Files}
      (h₁ : files.KeepingAsked options.transcript t.text.toUTF8.data.toList (.ok ()) files₁)
      (h₂ : files₁.KeepingAsked options.replayOut t.inputText.toUTF8.data.toList outcome files₂) :
      Keeping options files (some t) outcome files₂

namespace Keeping

variable {t : Transcript} {t? : Option Transcript} {outcome : Except Problem Unit} {files' : Files}
  {p q : String} {old : List UInt8}

/-- All goes well exactly if there is room for all. -/
theorem ok_iff (h : options.Keeping files t? outcome files') :
    outcome = .ok () ↔ ∀ t ∈ t?, options.Stores files t := by
  cases h with
  | silent => exact iff_of_true rfl nofun
  | stopped h =>
    refine iff_of_false nofun fun hstores => ?_
    cases h.ok_iff.mpr (hstores _ rfl).transcript
  | went h₁ h₂ =>
    rw [h₂.ok_iff]
    simp only [h₁.sameTree.takes_iff, Option.mem_some, forall_eq']
    exact ⟨fun hlines => ⟨h₁.ok_iff.mp rfl, hlines⟩, fun hstores => hstores.replayOut⟩

/-- The same for the one transcript there can be. -/
theorem ok_iff_stores (h : options.Keeping files t? outcome files')
    (ht : options.transcript.isSome ∨ options.replayOut.isSome → t? = some t) :
    outcome = .ok () ↔ options.Stores files t := by
  rw [h.ok_iff]
  constructor
  · intro hall
    refine ⟨fun p hp => ?_, fun q hq => ?_⟩
    · exact (hall t (ht (Or.inl (Option.isSome_of_mem hp)))).transcript p hp
    · exact (hall t (ht (Or.inr (Option.isSome_of_mem hq)))).replayOut q hq
  · refine fun hstores t' ht' => ⟨fun p hp => ?_, fun q hq => ?_⟩
    · obtain rfl := Option.some.inj ((ht (Or.inl (Option.isSome_of_mem hp))).symm.trans ht')
      exact hstores.transcript p hp
    · obtain rfl := Option.some.inj ((ht (Or.inr (Option.isSome_of_mem hq))).symm.trans ht')
      exact hstores.replayOut q hq

/-- A transcript that cannot be created ends the session. -/
theorem of_refused {error : DeviceError} (h : options.Keeping files (some t) outcome files')
    (hp : p ∈ options.transcript) (hrefused : files.opened p = .error error) :
    outcome = .error (.uncreatable p error) ∧ files' = files := by
  cases h with
  | stopped h => exact (h.keeping hp).of_refused hrefused
  | went h₁ h₂ => cases ((h₁.keeping hp).of_refused hrefused).1

/-- A transcript that there is no room for ends the session. -/
theorem of_cut {place : Place} {access : Access} (h : options.Keeping files (some t) outcome files')
    (hp : p ∈ options.transcript) (hopened : files.opened p = .ok (place, access))
    (hcut : access.taken t.text.toUTF8.data.toList ≠ t.text.toUTF8.data.toList) :
    outcome = .error (.unwritten .noSpace) ∧
      files' = files.put place (.file access (access.taken t.text.toUTF8.data.toList)) := by
  cases h with
  | stopped h => exact (h.keeping hp).of_cut hopened hcut
  | went h₁ h₂ => cases ((h₁.keeping hp).of_cut hopened hcut).1

/-- The transcript is kept exactly if there is room for it, whatever becomes of the lines. -/
theorem transcript_iff (h : options.Keeping files (some t) outcome files')
    (hapart : options.Apart files) (hp : p ∈ options.transcript) (hcreates : files.Creates p) :
    files'.read p = .ok t.text.toUTF8.data.toList ↔
      files.Takes p t.text.toUTF8.data.toList := by
  cases h with
  | stopped h => exact (h.keeping hp).read_iff hcreates
  | went h₁ h₂ =>
    obtain ⟨place, access, hopened⟩ := Files.creates_iff.mp hcreates
    obtain ⟨dir, name, hfollow, -⟩ := Files.opened_eq_ok_iff.mp hopened
    rw [← (h₁.keeping hp).read_iff hcreates]
    refine h₂.read_of_apart_iff fun q hq hcreates' hsame => ?_
    replace hcreates' := h₁.sameTree.creates_iff.mp hcreates'
    refine hapart p hp q hq hcreates hcreates' (hfollow.trans ?_)
    exact (h₁.sameTree.follow.mpr (hsame.trans (h₁.sameTree.follow.mp hfollow))).symm

/-- The lines of input are kept exactly if there is room for them and the transcript was kept
    before; else their file is as it was. -/
theorem replayOut_iff (h : options.Keeping files (some t) outcome files')
    (hapart : options.Apart files) (hq : q ∈ options.replayOut) (hcreates : files.Creates q) :
    files'.read q = .ok t.inputText.toUTF8.data.toList ↔
      ((∀ p ∈ options.transcript, files.Takes p t.text.toUTF8.data.toList) ∧
          files.Takes q t.inputText.toUTF8.data.toList) ∨
        (∃ p ∈ options.transcript, ¬ files.Takes p t.text.toUTF8.data.toList) ∧
          files.read q = .ok t.inputText.toUTF8.data.toList := by
  cases h with
  | stopped h =>
    have hno : ¬ ∀ p ∈ options.transcript, files.Takes p t.text.toUTF8.data.toList :=
      mt h.ok_iff.mpr nofun
    have hcut : ∃ p ∈ options.transcript, ¬ files.Takes p t.text.toUTF8.data.toList := by
      simpa only [Classical.not_forall, Classical.not_imp, exists_prop] using hno
    rw [h.read_of_apart_iff fun p hp hcreates' => hapart p hp q hq hcreates' hcreates]
    exact ⟨fun hread => Or.inr ⟨hcut, hread⟩, fun hlines =>
      hlines.elim (fun hall => absurd hall.1 hno) And.right⟩
  | went h₁ h₂ =>
    have hall := h₁.ok_iff.mp rfl
    rw [(h₂.keeping hq).read_iff (h₁.sameTree.creates_iff.mpr hcreates), h₁.sameTree.takes_iff]
    refine ⟨fun htakes => Or.inl ⟨hall, htakes⟩, fun hlines => hlines.elim And.right ?_⟩
    rintro ⟨⟨p, hp, hcut⟩, -⟩
    exact absurd (hall p hp) hcut

theorem keeps (h : options.Keeping files (some t) outcome files')
    (hkeep : options.CanKeep files t) : options.Keeps t files' := by
  refine ⟨fun p hp => ?_, fun q hq => ?_⟩
  · have htakes := hkeep.stores.transcript p hp
    exact (h.transcript_iff hkeep.apart hp htakes.creates).mpr htakes
  · have htakes := hkeep.stores.replayOut q hq
    exact (h.replayOut_iff hkeep.apart hq htakes.creates).mpr
      (Or.inl ⟨hkeep.stores.transcript, htakes⟩)

end Keeping

end Options

end WordMachine
