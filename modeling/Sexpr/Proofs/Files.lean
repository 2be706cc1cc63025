import Sexpr.Command
import Sexpr.Proofs.Session

/-!
# Files one after the other

The files of a command line share one machine. `Command.runFiles_append` says that two groups of
files run one after the other, if the first group is gone through at all. A group depends on the
machine only through the words that are left to read (`Command.runFiles_uniform`), so it does what
it would do in a process of its own with these words as its input. `files_run_in_sequence` states
this of the whole program, together with the ways in which a group can end.
-/

namespace Sexpr.Command

open Machine (Alike)

/-! ## Arguments that are files -/

/-- By its looks the argument is a file. -/
def IsFileArgument (argument : String) : Prop :=
  Argument.ofText argument.toList = .ok (.file argument.toList)

/-- Arguments that look like files are classified as files. -/
theorem ofTexts_files {arguments : List String}
    (h : ∀ argument ∈ arguments, IsFileArgument argument) :
    Argument.ofTexts (arguments.map String.toList) =
      .ok ((arguments.map String.toList).map .file) := by
  induction arguments with
  | nil => rfl
  | cons argument rest ih =>
      obtain ⟨hfirst, hrest⟩ := List.forall_mem_cons.mp h
      have hlooks : Argument.ofText argument.toList = .ok (.file argument.toList) := hfirst
      -- Two dashes alone are no file, so the argument is not the separator.
      have hne : argument.toList ≠ ['-', '-'] := by
        intro hdashes
        have hrefused : (Argument.ofText ['-', '-']).isOk = false := by decide
        rw [← hdashes, hlooks] at hrefused
        cases hrefused
      simp only [List.map_cons, Argument.ofTexts, if_neg hne, hlooks, ih hrest]
      rfl

/-- Files form one group, in the order in which they are given. -/
theorem collect_files (group : FileGroup) (hopen : group.ended = false) (texts : List (List Char)) :
    Request.collect group false [] (texts.map .file) =
      .ok (.run ((group.files ++ texts).map String.ofList) false) := by
  induction texts generalizing group with
  | nil => simp [Request.collect]
  | cons text rest ih =>
      simp only [List.map_cons, Request.collect, FileGroup.add?, hopen]
      refine (ih _ rfl).trans ?_
      simp

/-- Arguments that look like files ask to run these files. -/
theorem ofArguments_files {arguments : List String}
    (h : ∀ argument ∈ arguments, IsFileArgument argument) :
    Request.ofArguments arguments = .ok (.run arguments false) := by
  unfold Request.ofArguments
  rw [ofTexts_files h]
  refine (collect_files .empty rfl _).trans ?_
  simp [FileGroup.empty]

/-- With a valid configuration the program runs its files on a fresh machine, and tells how that
ended and what was written. -/
theorem run_files {env : Environment} {limit : Int} {level : LogLevel}
    (hlimit : env.depthLimit = .ok limit) (hlevel : env.level = .ok level)
    (read : Path → Except AccessFault (List Nat)) (input : String) {names : List String}
    (hnonempty : names ≠ []) (hfiles : ∀ name ∈ names, IsFileArgument name) :
    (run env read input names).status =
        (runFiles (names.map (SourceFile.load read)) (.ofInput input limit)).1.status ∧
      (run env read input names).out = String.ofList
        (runFiles (names.map (SourceFile.load read)) (.ofInput input limit)).2.output := by
  obtain ⟨name, rest, rfl⟩ := List.exists_cons_of_ne_nil hnonempty
  unfold run
  rw [ofArguments_files hfiles]
  simp only [hlevel, Bool.false_eq_true, if_false, List.map_cons, runAll, hlimit, and_self]

/-! ## One file -/

section

variable {file : SourceFile} {m after : Machine}

/-- A name with the null character breaks the run off. -/
theorem runFiles_of_null (h : file.path.hasNull = true) (rest : List SourceFile) :
    runFiles (file :: rest) m = (.broken, m) := by
  simp only [runFiles, h, if_true]

/-- A file that cannot be read is reported, and the others run. -/
theorem runFiles_of_fault (hnamed : file.path.hasNull = false) {fault : FileFault}
    (h : file.content = .error fault) (rest : List SourceFile) :
    runFiles (file :: rest) m =
      runFiles rest ((m.report (record .warning (file.complaint fault))).writeLine
        s!"error: could not read file {file.name}".toList) := by
  simp only [runFiles, hnamed, h, Bool.false_eq_true, if_false]

/-- After a file that ran to its end, the others run. -/
theorem runFiles_of_ok (hnamed : file.path.hasNull = false) {source : String}
    (h : file.content = .ok source)
    (hrun : Interpreter.run source (m.report (record .debug s!"running {file.name}")) =
      (.ok (), after))
    (rest : List SourceFile) : runFiles (file :: rest) m = runFiles rest after := by
  simp only [runFiles, hnamed, h, hrun, Bool.false_eq_true, if_false]

/-- How the run of all files ends when the program in one of them stopped. -/
def conclude (stop : Stop) (m : Machine) : Conclusion × Machine :=
  match stop.message? with
  | none => (.exited, m)
  | some message => (.failed, m.writeLine s!"error: {message}".toList)

/-- After a file whose program stopped, nothing runs. -/
theorem runFiles_of_stop (hnamed : file.path.hasNull = false) {source : String}
    (h : file.content = .ok source) {stop : Stop}
    (hrun : Interpreter.run source (m.report (record .debug s!"running {file.name}")) =
      (.error stop, after))
    (rest : List SourceFile) : runFiles (file :: rest) m = conclude stop after := by
  simp only [runFiles, hnamed, h, hrun, Bool.false_eq_true, if_false]
  rfl

end

/-! ## Files in a row -/

/-- What is left to do after some files: the others if the files were gone through, else nothing. -/
theorem runFiles_append (first second : List SourceFile) (m : Machine) :
    runFiles (first ++ second) m =
      match runFiles first m with
      | (.finished, after) => runFiles second after
      | ended => ended := by
  induction first generalizing m with
  | nil => rfl
  | cons file rest ih =>
      simp only [List.cons_append, runFiles]
      split
      · rfl
      · split
        · exact ih _
        · split
          · exact ih _
          · split <;> rfl

/-- After files that were gone through, the others run. -/
theorem runFiles_append_of_finished {first : List SourceFile} {m : Machine}
    (h : (runFiles first m).1 = .finished) (second : List SourceFile) :
    runFiles (first ++ second) m = runFiles second (runFiles first m).2 := by
  rw [runFiles_append]
  generalize runFiles first m = ended at h ⊢
  obtain ⟨conclusion, after⟩ := ended
  obtain rfl : conclusion = .finished := h
  rfl

/-- After files that were not gone through, nothing runs. -/
theorem runFiles_append_of_ne {first : List SourceFile} {m : Machine}
    (h : (runFiles first m).1 ≠ .finished) (second : List SourceFile) :
    runFiles (first ++ second) m = runFiles first m := by
  rw [runFiles_append]
  split
  · next hfirst =>
      rw [hfirst] at h
      exact absurd rfl h
  · rfl

/-- Two machines have added the same and have the same words left to read. -/
def Abreast (m other after after' : Machine) : Prop :=
  after.Alike after' ∧
    ∃ text records, m.Grows text records after ∧ other.Grows text records after'

/-- Machines that keep abreast twice have kept abreast. -/
theorem Abreast.trans {m other middle middle' after after' : Machine}
    (h : Abreast m other middle middle') (hlater : Abreast middle middle' after after') :
    Abreast m other after after' := by
  obtain ⟨-, text, records, hgrows, hgrows'⟩ := h
  obtain ⟨hkept, more, later, hmore, hmore'⟩ := hlater
  exact ⟨hkept, text ++ more, records ++ later, hgrows.trans hmore, hgrows'.trans hmore'⟩

section

variable {m other : Machine}

/-- Machines keep abreast while nothing is done. -/
theorem abreast_self (h : m.Alike other) : Abreast m other m other :=
  ⟨h, [], [], .refl m, .refl other⟩

/-- Machines keep abreast when both log a record. -/
theorem abreast_report (h : m.Alike other) (record : LogRecord) :
    Abreast m other (m.report record) (other.report record) :=
  ⟨⟨h.words_eq, h.limit_eq⟩, [], [record], m.grows_report record, other.grows_report record⟩

/-- Machines keep abreast when both write a line. -/
theorem abreast_writeLine (h : m.Alike other) (line : List Char) :
    Abreast m other (m.writeLine line) (other.writeLine line) :=
  ⟨⟨h.words_eq, h.limit_eq⟩, line ++ ['\n'], [], m.grows_writeLine line,
    other.grows_writeLine line⟩

/-- Machines keep abreast when the same stop ends the run of all files, which ends in the same
way. -/
theorem abreast_conclude (h : m.Alike other) (stop : Stop) :
    (conclude stop m).1 = (conclude stop other).1 ∧
      Abreast m other (conclude stop m).2 (conclude stop other).2 := by
  unfold conclude
  cases stop.message? with
  | none => exact ⟨rfl, abreast_self h⟩
  | some message => exact ⟨rfl, abreast_writeLine h _⟩

/-- On machines with the same words to read and the same limit, files end in the same way, and the
machines keep abreast. -/
theorem runFiles_uniform (files : List SourceFile) (h : m.Alike other) :
    (runFiles files m).1 = (runFiles files other).1 ∧
      Abreast m other (runFiles files m).2 (runFiles files other).2 := by
  induction files generalizing m other with
  | nil => exact ⟨rfl, abreast_self h⟩
  | cons file rest ih =>
      cases hnull : file.path.hasNull with
      | true =>
          rw [runFiles_of_null hnull, runFiles_of_null hnull]
          exact ⟨rfl, abreast_self h⟩
      | false =>
          cases hcontent : file.content with
          | error fault =>
              rw [runFiles_of_fault hnull hcontent, runFiles_of_fault hnull hcontent]
              have hlogged := abreast_report h (record .warning (file.complaint fault))
              have hreported := hlogged.trans
                (abreast_writeLine hlogged.1 s!"error: could not read file {file.name}".toList)
              obtain ⟨hsame, hkept⟩ := ih hreported.1
              exact ⟨hsame, hreported.trans hkept⟩
          | ok source =>
              have hlogged := abreast_report h (record .debug s!"running {file.name}")
              have hrun : Eval.Uniform Alike (Interpreter.run source) :=
                (Interpreter.read_uniform source).bind Interpreter.runForms_uniform
              obtain ⟨hend, hran⟩ := hrun _ _ hlogged.1
              obtain ⟨stop, after, after', hm, hother⟩ | ⟨⟨⟩, after, after', hm, hother⟩ :=
                Eval.stop_or_value hend
              · rw [hm, hother] at hran
                rw [runFiles_of_stop hnull hcontent hm, runFiles_of_stop hnull hcontent hother]
                obtain ⟨hsame, hkept⟩ := abreast_conclude hran.1 stop
                exact ⟨hsame, hlogged.trans (Abreast.trans hran hkept)⟩
              · rw [hm, hother] at hran
                rw [runFiles_of_ok hnull hcontent hm, runFiles_of_ok hnull hcontent hother]
                obtain ⟨hsame, hkept⟩ := ih hran.1
                exact ⟨hsame, hlogged.trans (Abreast.trans hran hkept)⟩

end

/-- After files that were gone through, the others do what they do on their own with the words that
are left. -/
theorem runFiles_append_words {first : List SourceFile} {m : Machine}
    (h : (runFiles first m).1 = .finished) (second : List SourceFile) {rest : String}
    (hrest : Text.words rest.toList = (runFiles first m).2.words) :
    (runFiles (first ++ second) m).1 = (runFiles second (.ofInput rest m.limit)).1 ∧
      (runFiles (first ++ second) m).2.output =
        (runFiles first m).2.output ++ (runFiles second (.ofInput rest m.limit)).2.output ∧
      (runFiles (first ++ second) m).2.words =
        (runFiles second (.ofInput rest m.limit)).2.words := by
  have hself : m.Alike m := ⟨rfl, rfl⟩
  obtain ⟨-, -, _, _, hfirst, -⟩ := runFiles_uniform first hself
  have halike : (runFiles first m).2.Alike (.ofInput rest m.limit) :=
    ⟨hrest.symm, hfirst.limit_eq⟩
  obtain ⟨hsame, hkept, text, records, hused, hfresh⟩ := runFiles_uniform second halike
  -- A fresh machine has written nothing, so all that it has later was added.
  have htext : (runFiles second (.ofInput rest m.limit)).2.output = text := hfresh.output_eq
  rw [runFiles_append_of_finished h, htext]
  exact ⟨hsame, hused.output_eq, hkept.words_eq⟩

/-! ## How files end -/

/-- Some files were gone through, and the program in the next one stopped. -/
def StopsAt (files : List SourceFile) (m : Machine) (stop : Stop) (after : Machine) : Prop :=
  ∃ passed file later source, files = passed ++ file :: later ∧
    (runFiles passed m).1 = .finished ∧ file.path.hasNull = false ∧ file.content = .ok source ∧
    Interpreter.run source
      ((runFiles passed m).2.report (record .debug s!"running {file.name}")) = (.error stop, after)

/-- A program that stopped decides how the run of all files ends. -/
theorem StopsAt.runFiles_eq {files : List SourceFile} {m after : Machine} {stop : Stop}
    (h : StopsAt files m stop after) : runFiles files m = conclude stop after := by
  obtain ⟨passed, file, later, source, rfl, hpassed, hnull, hcontent, hrun⟩ := h
  rw [runFiles_append_of_finished hpassed, runFiles_of_stop hnull hcontent hrun]

/-- A file after which the others run does not change where they stop. -/
theorem StopsAt.cons {file : SourceFile} {files : List SourceFile} {m middle after : Machine}
    {stop : Stop} (hfile : ∀ rest, runFiles (file :: rest) m = runFiles rest middle)
    (h : StopsAt files middle stop after) : StopsAt (file :: files) m stop after := by
  obtain ⟨passed, last, later, source, rfl, hpassed, hnull, hcontent, hrun⟩ := h
  refine ⟨file :: passed, last, later, source, rfl, ?_, hnull, hcontent, ?_⟩
  · rw [hfile]
    exact hpassed
  · rw [hfile]
    exact hrun

/-- The ways in which files can end: they are gone through, or the program in one of them stopped,
or a name has the null character and breaks the run off. -/
inductive Ends (files : List SourceFile) (m : Machine) : Prop where
  | finished : (runFiles files m).1 = .finished → Ends files m
  | stopped {stop : Stop} {after : Machine} : StopsAt files m stop after → Ends files m
  | broken {file : SourceFile} :
      (runFiles files m).1 = .broken → file ∈ files → file.path.hasNull = true → Ends files m

/-- A file after which the others run leaves it to them how they end. -/
theorem Ends.cons {file : SourceFile} {files : List SourceFile} {m middle : Machine}
    (hfile : ∀ rest, runFiles (file :: rest) m = runFiles rest middle)
    (h : Ends files middle) : Ends (file :: files) m := by
  cases h with
  | finished hfinished => exact .finished (by rw [hfile, hfinished])
  | stopped hstops => exact .stopped (hstops.cons hfile)
  | broken hbroken hmem hnull =>
      exact .broken (by rw [hfile, hbroken]) (List.mem_cons_of_mem file hmem) hnull

/-- Files end in one of these ways. -/
theorem runFiles_ends (files : List SourceFile) (m : Machine) : Ends files m := by
  induction files generalizing m with
  | nil => exact .finished rfl
  | cons file rest ih =>
      cases hnull : file.path.hasNull with
      | true => exact .broken (by rw [runFiles_of_null hnull]) List.mem_cons_self hnull
      | false =>
          cases hcontent : file.content with
          | error fault => exact (ih _).cons (runFiles_of_fault hnull hcontent)
          | ok source =>
              cases hrun : Interpreter.run source
                (m.report (record .debug s!"running {file.name}")) with
              | mk ended after =>
                  cases ended with
                  | ok => exact (ih after).cons (runFiles_of_ok hnull hcontent hrun)
                  | error stop =>
                      exact .stopped
                        ⟨[], file, rest, source, rfl, rfl, hnull, hcontent, hrun⟩

/-! ## Files that cannot be read -/

/-- The name is that of a file, but the file has no text. -/
structure SourceFile.IsUnreadable (file : SourceFile) : Prop where
  named : file.path.hasNull = false
  faulty : ∃ fault, file.content = .error fault

/-- The line that reports a file that cannot be read. -/
def unreadableLine (name : String) : String := s!"error: could not read file {name}" ++ "\n"

/-- A file that cannot be read writes its line, and takes nothing from the input. -/
theorem runFiles_unreadable {file : SourceFile} (h : file.IsUnreadable) (m : Machine) :
    ∃ reported : Machine, (∀ rest, runFiles (file :: rest) m = runFiles rest reported) ∧
      reported.output = m.output ++ (unreadableLine file.name).toList ∧ m.Alike reported := by
  obtain ⟨hnamed, fault, hfault⟩ := h
  refine ⟨_, runFiles_of_fault hnamed hfault, ?_, rfl, rfl⟩
  have hline : (unreadableLine file.name).toList =
      s!"error: could not read file {file.name}".toList ++ ['\n'] := String.toList_append
  rw [hline, ← List.append_assoc]
  rfl

/-- A file that cannot be read, between files that are gone through and others, adds its line where
it is reached and changes nothing of what the others do. -/
theorem runFiles_append_unreadable {file : SourceFile} (h : file.IsUnreadable)
    {before : List SourceFile} {m : Machine} (hbefore : (runFiles before m).1 = .finished)
    (later : List SourceFile) :
    (runFiles (before ++ file :: later) m).1 = (runFiles (before ++ later) m).1 ∧
      (runFiles (before ++ file :: later) m).2.words = (runFiles (before ++ later) m).2.words ∧
      ∃ text, (runFiles (before ++ later) m).2.output = (runFiles before m).2.output ++ text ∧
        (runFiles (before ++ file :: later) m).2.output =
          (runFiles before m).2.output ++ (unreadableLine file.name).toList ++ text := by
  obtain ⟨reported, hreported, houtput, halike⟩ := runFiles_unreadable h (runFiles before m).2
  obtain ⟨hsame, hkept, text, records, hgrows, hgrows'⟩ := runFiles_uniform later halike
  rw [runFiles_append_of_finished hbefore, runFiles_append_of_finished hbefore, hreported]
  refine ⟨hsame.symm, hkept.words_eq.symm, text, hgrows.output_eq, ?_⟩
  rw [hgrows'.output_eq, houtput]

/-- A file keeps the name under which it was loaded. -/
theorem SourceFile.name_load (read : Path → Except AccessFault (List Nat)) (name : String) :
    (SourceFile.load read name).name = name := by
  unfold SourceFile.load
  dsimp only
  split <;> rfl

/-! ## The whole program -/

section

variable {env : Environment} {limit : Int} {level : LogLevel}
  (hlimit : env.depthLimit = .ok limit) (hlevel : env.level = .ok level)
  (read : Path → Except AccessFault (List Nat)) (input : String)

include hlimit hlevel

/-- After a group of files that is gone through, the program goes on as one that has only the other
files and the words that are left. -/
theorem run_append_of_finished {first second : List String} (hfirst : first ≠ [])
    (hsecond : second ≠ []) (hfiles : ∀ name ∈ first ++ second, IsFileArgument name)
    (h : (runFiles (first.map (SourceFile.load read)) (.ofInput input limit)).1 = .finished)
    {rest : String}
    (hrest : Text.words rest.toList =
      (runFiles (first.map (SourceFile.load read)) (.ofInput input limit)).2.words) :
    (run env read input (first ++ second)).out =
        (run env read input first).out ++ (run env read rest second).out ∧
      (run env read input (first ++ second)).status = (run env read rest second).status := by
  obtain ⟨hleft, hright⟩ := List.forall_mem_append.mp hfiles
  obtain ⟨-, hout⟩ := run_files hlimit hlevel read input hfirst hleft
  obtain ⟨hstatus', hout'⟩ := run_files hlimit hlevel read rest hsecond hright
  have hnonempty : first ++ second ≠ [] := by simp [hfirst]
  obtain ⟨hstatus, hboth⟩ := run_files hlimit hlevel read input hnonempty hfiles
  obtain ⟨hsame, houtput, -⟩ :=
    runFiles_append_words h (second.map (SourceFile.load read)) hrest
  rw [List.map_append] at hstatus hboth
  refine ⟨?_, ?_⟩
  · rw [hboth, houtput, hout, hout', ← String.ofList_append]
    rfl
  · rw [hstatus, hsame, hstatus']
    rfl

/-- After a group of files that is not gone through, the program does no more. -/
theorem run_append_of_ne {first : List String} (second : List String) (hfirst : first ≠ [])
    (hfiles : ∀ name ∈ first ++ second, IsFileArgument name)
    (h : (runFiles (first.map (SourceFile.load read)) (.ofInput input limit)).1 ≠ .finished) :
    (run env read input (first ++ second)).out = (run env read input first).out ∧
      (run env read input (first ++ second)).status = (run env read input first).status := by
  obtain ⟨hleft, -⟩ := List.forall_mem_append.mp hfiles
  have hnonempty : first ++ second ≠ [] := by simp [hfirst]
  obtain ⟨hstatus, hout⟩ := run_files hlimit hlevel read input hfirst hleft
  obtain ⟨hstatus', hout'⟩ := run_files hlimit hlevel read input hnonempty hfiles
  rw [List.map_append, runFiles_append_of_ne h] at hstatus' hout'
  exact ⟨hout'.trans hout.symm, hstatus'.trans hstatus.symm⟩

/-- The program that stopped decides about the status and the end of the output. -/
theorem run_of_stopsAt {names : List String} (hnonempty : names ≠ [])
    (hfiles : ∀ name ∈ names, IsFileArgument name) {stop : Stop} {after : Machine}
    (h : StopsAt (names.map (SourceFile.load read)) (.ofInput input limit) stop after) :
    (stop = .exit → (run env read input names).status = .ok 0 ∧
      (run env read input names).out = String.ofList after.output) ∧
    ∀ message, stop.message? = some message →
      (run env read input names).status = .ok 1 ∧
      (run env read input names).out =
        String.ofList after.output ++ (s!"error: {message}" ++ "\n") := by
  obtain ⟨hstatus, hout⟩ := run_files hlimit hlevel read input hnonempty hfiles
  rw [h.runFiles_eq] at hstatus hout
  refine ⟨?_, ?_⟩
  · rintro rfl
    exact ⟨hstatus, hout⟩
  · intro message hmessage
    unfold conclude at hstatus hout
    rw [hmessage] at hstatus hout
    refine ⟨hstatus, hout.trans ?_⟩
    show String.ofList (after.output ++ s!"error: {message}".toList ++ ['\n']) = _
    rw [String.ofList_append, String.ofList_append, String.ofList_toList, String.append_assoc]

/-- A file that cannot be read adds its line where it is reached, if it is, and nothing else
changes. -/
theorem run_append_unreadable {before later : List String} {name : String}
    (hfiles : ∀ other ∈ before ++ name :: later, IsFileArgument other)
    (hunreadable : (SourceFile.load read name).IsUnreadable) (hnonempty : before ++ later ≠ []) :
    (run env read input (before ++ name :: later)).status =
      (run env read input (before ++ later)).status ∧
    (runFiles ((before ++ name :: later).map (SourceFile.load read))
        (.ofInput input limit)).2.words =
      (runFiles ((before ++ later).map (SourceFile.load read)) (.ofInput input limit)).2.words ∧
    ((runFiles (before.map (SourceFile.load read)) (.ofInput input limit)).1 = .finished →
      ∃ text, (run env read input (before ++ later)).out =
          String.ofList
            (runFiles (before.map (SourceFile.load read)) (.ofInput input limit)).2.output ++ text ∧
        (run env read input (before ++ name :: later)).out =
          String.ofList
            (runFiles (before.map (SourceFile.load read)) (.ofInput input limit)).2.output ++
              unreadableLine name ++ text) ∧
    ((runFiles (before.map (SourceFile.load read)) (.ofInput input limit)).1 ≠ .finished →
      (run env read input (before ++ name :: later)).out =
        (run env read input (before ++ later)).out) := by
  obtain ⟨hleft, hright⟩ := List.forall_mem_append.mp hfiles
  have hothers : ∀ other ∈ before ++ later, IsFileArgument other :=
    List.forall_mem_append.mpr ⟨hleft, (List.forall_mem_cons.mp hright).2⟩
  have hall : before ++ name :: later ≠ [] := by simp
  obtain ⟨hstatus, hout⟩ := run_files hlimit hlevel read input hnonempty hothers
  obtain ⟨hstatus', hout'⟩ := run_files hlimit hlevel read input hall hfiles
  rw [hstatus, hstatus', hout, hout', List.map_append, List.map_append, List.map_cons]
  by_cases hbefore :
      (runFiles (before.map (SourceFile.load read)) (.ofInput input limit)).1 = .finished
  · obtain ⟨hsame, hwords, text, htext, htext'⟩ := runFiles_append_unreadable hunreadable hbefore
      (later.map (SourceFile.load read))
    refine ⟨congrArg Conclusion.status hsame, hwords, fun _ => ⟨String.ofList text, ?_, ?_⟩,
      fun hne => absurd hbefore hne⟩
    · rw [htext, String.ofList_append]
    · rw [htext', SourceFile.name_load, String.ofList_append, String.ofList_append,
        String.ofList_toList]
  · rw [runFiles_append_of_ne hbefore, runFiles_append_of_ne hbefore]
    exact ⟨rfl, rfl, fun hfinished => absurd hfinished hbefore, fun _ => rfl⟩

/-- On its own a file that cannot be read leaves its line. -/
theorem run_unreadable {name : String} (hfile : IsFileArgument name)
    (hunreadable : (SourceFile.load read name).IsUnreadable) :
    (run env read input [name]).status = .ok 0 ∧
      (run env read input [name]).out = unreadableLine name := by
  have hfiles : ∀ other ∈ [name], IsFileArgument other := List.forall_mem_singleton.mpr hfile
  obtain ⟨hstatus, hout⟩ :=
    run_files hlimit hlevel read input (List.cons_ne_nil name []) hfiles
  obtain ⟨reported, hreported, houtput, -⟩ := runFiles_unreadable hunreadable (.ofInput input limit)
  rw [List.map_singleton, hreported] at hstatus hout
  refine ⟨hstatus, hout.trans ?_⟩
  show String.ofList reported.output = _
  rw [houtput, SourceFile.name_load]
  exact String.ofList_toList

end

/-- In a valid configuration, files are named on the command line in two groups, each file with a
text or without. Files with proper names are gone through if no program asks for the end and none is
at fault. If the first group is gone through, its status is zero, and both groups together write
what the first writes and then what the second writes on its own with the words that the first left
to read, and end with the status of that; otherwise they write what the first writes and end with
its status. That is zero if a program asked for the end; it is one if a program was at fault, whose
message is then the last line that is written. A file that cannot be read adds its line where it is
reached, if it is, and changes neither the status nor what other files write or read. -/
theorem files_run_in_sequence {env : Environment} {limit : Int} {level : LogLevel}
    (hlimit : env.depthLimit = .ok limit) (hlevel : env.level = .ok level)
    (read : Path → Except AccessFault (List Nat)) (input : String) (first second : List String)
    (hfirst : first ≠ []) (hsecond : second ≠ [])
    (hfiles : ∀ name ∈ first ++ second, IsFileArgument name) :
    let load := List.map (SourceFile.load read)
    let start := Machine.ofInput input limit
    ((∀ file ∈ load first, file.path.hasNull = false) →
      (∀ stop after, ¬StopsAt (load first) start stop after) →
      (runFiles (load first) start).1 = .finished) ∧
    ((runFiles (load first) start).1 = .finished →
      (run env read input first).status = .ok 0 ∧
      (∃ rest : String, Text.words rest.toList = (runFiles (load first) start).2.words) ∧
      ∀ rest : String, Text.words rest.toList = (runFiles (load first) start).2.words →
        (run env read input (first ++ second)).out =
          (run env read input first).out ++ (run env read rest second).out ∧
        (run env read input (first ++ second)).status = (run env read rest second).status) ∧
    ((runFiles (load first) start).1 ≠ .finished →
      (run env read input (first ++ second)).out = (run env read input first).out ∧
      (run env read input (first ++ second)).status = (run env read input first).status) ∧
    (∀ stop after, StopsAt (load first) start stop after →
      (runFiles (load first) start).1 ≠ .finished ∧
      (stop = .exit → (run env read input first).status = .ok 0 ∧
        (run env read input first).out = String.ofList after.output) ∧
      ∀ message, stop.message? = some message →
        (run env read input first).status = .ok 1 ∧
        (run env read input first).out =
          String.ofList after.output ++ (s!"error: {message}" ++ "\n")) ∧
    ∀ before name later, (∀ other ∈ before ++ name :: later, IsFileArgument other) →
      (SourceFile.load read name).IsUnreadable →
      (run env read input [name]).status = .ok 0 ∧
      (run env read input [name]).out = unreadableLine name ∧
      (before ++ later ≠ [] →
        (run env read input (before ++ name :: later)).status =
          (run env read input (before ++ later)).status ∧
        (runFiles (load (before ++ name :: later)) start).2.words =
          (runFiles (load (before ++ later)) start).2.words ∧
        ((runFiles (load before) start).1 = .finished →
          ∃ text, (run env read input (before ++ later)).out =
              String.ofList (runFiles (load before) start).2.output ++ text ∧
            (run env read input (before ++ name :: later)).out =
              String.ofList (runFiles (load before) start).2.output ++ unreadableLine name ++
                text) ∧
        ((runFiles (load before) start).1 ≠ .finished →
          (run env read input (before ++ name :: later)).out =
            (run env read input (before ++ later)).out)) := by
  intro load start
  obtain ⟨hleft, -⟩ := List.forall_mem_append.mp hfiles
  refine ⟨?_, ?_, run_append_of_ne hlimit hlevel read input second hfirst hfiles, ?_, ?_⟩
  · intro hnamed hnone
    cases runFiles_ends (load first) start with
    | finished hfinished => exact hfinished
    | stopped hstops => exact absurd hstops (hnone _ _)
    | broken _ hmem hnull =>
        rw [hnamed _ hmem] at hnull
        cases hnull
  · intro hfinished
    have hself : start.Alike start := ⟨rfl, rfl⟩
    obtain ⟨-, -, _, _, hgrows, -⟩ := runFiles_uniform (load first) hself
    obtain ⟨rest, hrest⟩ := Text.exists_words_eq_of_suffix hgrows.words_suffix
    refine ⟨?_, ⟨String.ofList rest, by rw [String.toList_ofList, hrest]⟩, fun rest hrest => ?_⟩
    · rw [(run_files hlimit hlevel read input hfirst hleft).1]
      exact congrArg Conclusion.status hfinished
    · exact run_append_of_finished hlimit hlevel read input hfirst hsecond hfiles hfinished hrest
  · intro stop after hstops
    refine ⟨?_, run_of_stopsAt hlimit hlevel read input hfirst hleft hstops⟩
    rw [hstops.runFiles_eq]
    unfold conclude
    cases stop.message? <;> nofun
  · intro before name later hothers hunreadable
    have hname : IsFileArgument name := hothers name (by simp)
    obtain ⟨hstatus, hout⟩ := run_unreadable hlimit hlevel read input hname hunreadable
    exact ⟨hstatus, hout, run_append_unreadable hlimit hlevel read input hothers hunreadable⟩

/-- A file that reads a number, a missing file and a file with a fault run in sequence: the fault
comes after the line for the missing file, and the second number of the input is read before it. -/
theorem files_run_in_sequence_around_missing :
    let text := fun source : String => Entry.file (source.toList.map Char.toNat)
    let tree : FileTree := [(.ofText "a".toList, text "(print-int (read-int))"),
      (.ofText "b".toList, text "(print-int (+ (read-int) 1)) (foo)")]
    let env : Environment := ⟨none, none⟩
    env.depthLimit = .ok 128 ∧ env.level = .ok .warning ∧
    (runFiles (["a", "x"].map (SourceFile.load tree.read)) (.ofInput "7 8" 128)).1 = .finished ∧
    Text.words "\n8".toList =
      (runFiles (["a", "x"].map (SourceFile.load tree.read)) (.ofInput "7 8" 128)).2.words ∧
    (run env tree.read "7 8" ["a", "x"]).out = "7\nerror: could not read file x\n" ∧
    (run env tree.read "\n8" ["b"]).out = "9\nerror: 'FOO' does not exist (at 1:31)\n" ∧
    (run env tree.read "7 8" (["a", "x"] ++ ["b"])).out =
      "7\nerror: could not read file x\n" ++ "9\nerror: 'FOO' does not exist (at 1:31)\n" ∧
    (run env tree.read "7 8" (["a", "x"] ++ ["b"])).status = .ok 1 := by
  intro text tree env
  have hlimit : env.depthLimit = .ok 128 := rfl
  have hlevel : env.level = .ok .warning := by
    have hname : LogLevel.ofName? env.levelName = some .warning := by decide +kernel
    unfold Environment.level
    rw [hname]
  have hfiles : ∀ name ∈ ["a", "x"] ++ ["b"], IsFileArgument name := by
    simp only [List.cons_append, List.nil_append, List.forall_mem_cons]
    exact ⟨rfl, rfl, rfl, List.forall_mem_nil _⟩
  have hfinished : (runFiles (["a", "x"].map (SourceFile.load tree.read))
      (.ofInput "7 8" 128)).1 = .finished := by
    decide +kernel
  have hwords : Text.words "\n8".toList = (runFiles (["a", "x"].map (SourceFile.load tree.read))
      (.ofInput "7 8" 128)).2.words := by
    decide +kernel
  have hfirst : (run env tree.read "7 8" ["a", "x"]).out = "7\nerror: could not read file x\n" := by
    decide +kernel
  have hsecond : (run env tree.read "\n8" ["b"]).out =
      "9\nerror: 'FOO' does not exist (at 1:31)\n" := by
    decide +kernel
  have hfailed : (runFiles (["b"].map (SourceFile.load tree.read)) (.ofInput "\n8" 128)).1 =
      .failed := by
    decide +kernel
  have hstatus := (run_files hlimit hlevel tree.read "\n8" (List.cons_ne_nil "b" [])
    (List.forall_mem_append.mp hfiles).2).1.trans (congrArg Conclusion.status hfailed)
  obtain ⟨-, hsequence, -⟩ := files_run_in_sequence hlimit hlevel tree.read "7 8" ["a", "x"] ["b"]
    (by simp) (by simp) hfiles
  obtain ⟨hout, hsame⟩ := (hsequence hfinished).2.2 "\n8" hwords
  rw [hfirst, hsecond] at hout
  refine ⟨hlimit, hlevel, hfinished, hwords, hfirst, hsecond, hout, hsame.trans hstatus⟩

end Sexpr.Command
