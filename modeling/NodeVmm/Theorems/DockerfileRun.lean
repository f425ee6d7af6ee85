import NodeVmm.DockerfileRun
import NodeVmm.Lib.Shell

/-! Where the command of RUN runs. The script is read as a `cd` with the assignments of the stage before it and, joined to
    it by `&&`, the first list of the command. The assignments hold for `cd` only, and what comes after the first list, or
    after `||` in it, does not depend on `cd`. -/

namespace NodeVmm.Dockerfile
open RootfsCache (shellQuote quoteArgv)
open Shell

/-! ### Quoted words -/

theorem unquote_shellQuote (value : Text) : unquote (shellQuote value) = some value := by
  unfold shellQuote
  split
  · rename_i hnil
    rw [hnil]
    rfl
  · exact unquote_single value

theorem shellQuote_eq_cons (value : Text) : ∃ rest, shellQuote value = '\'' :: rest := by
  unfold shellQuote
  split
  · exact ⟨_, rfl⟩
  · exact ⟨_, rfl⟩

theorem isWord_shellQuote (value : Text) : isWord (shellQuote value) = true := by
  obtain ⟨rest, hrest⟩ := shellQuote_eq_cons value
  have hunquote := unquote_shellQuote value
  rw [hrest] at hunquote ⊢
  simp [isWord, hunquote]

theorem assignment_shellQuote (value : Text) : assignment (shellQuote value) = none := by
  obtain ⟨rest, hrest⟩ := shellQuote_eq_cons value
  have hname : isName ((shellQuote value).takeWhile (· ≠ '=')) = false := by
    rw [hrest]
    rfl
  unfold assignment
  dsimp only
  rw [hname]
  rfl

theorem shellQuote_not_reserved (value : Text) : shellQuote value ∉ reserved := fun hmem => by
  obtain ⟨rest, hrest⟩ := shellQuote_eq_cons value
  have hhead : ∀ w ∈ reserved, w.head? ≠ some '\'' := by decide
  exact hhead _ hmem (by rw [hrest]; rfl)

theorem mapM_unquote (argv : List Text) : (argv.map shellQuote).mapM unquote = some argv := by
  induction argv with
  | nil => rfl
  | cons w argv ih =>
    rw [List.map_cons, List.mapM_cons, unquote_shellQuote, ih]
    rfl

/-- The words of `quoteArgv` are read back. --/
theorem simpleCommand_quoted (argv : List Text) : simpleCommand (argv.map shellQuote) = some ⟨[], argv⟩ := by
  cases argv with
  | nil => rfl
  | cons w argv =>
    have hwords := mapM_unquote (w :: argv)
    rw [List.map_cons] at hwords ⊢
    rw [simpleCommand, assignment_shellQuote, if_neg (shellQuote_not_reserved w), hwords]
    rfl

/-! ### The script -/

theorem envAssignment_iff (e : Text × Text) : assignment (envAssignment e) = some e ↔ isName e.1 = true :=
  assignment_eq_iff (unquote_shellQuote e.2)

theorem envPrefix_ne_nil (e : Text × Text) (env : List (Text × Text)) : envPrefix (e :: env) ≠ [] := by
  cases env <;> simp [envPrefix, Text.join, envAssignment]

/-- The words of the `cd`, with a blank after each, and what follows. --/
theorem shellText_eq (stage : RunStage) (command : Text) : shellText stage command =
    (stage.env.map envAssignment ++ ["cd".toList, shellQuote stage.workdir]).flatMap (· ++ [' ']) ++
      '&' :: '&' :: ' ' :: command := by
  have hcd : cdScript stage.workdir command =
      ["cd".toList, shellQuote stage.workdir].flatMap (· ++ [' ']) ++ '&' :: '&' :: ' ' :: command := by
    simp [cdScript]
  unfold shellText
  cases henv : stage.env with
  | nil =>
    rw [hcd]
    rfl
  | cons e env =>
    rw [if_neg (envPrefix_ne_nil e env), hcd, envPrefix, Text.join_append_singleton (by simp), List.flatMap_append, List.append_assoc]

/-- The script is the `cd` with the assignments of the stage, guarding the command. --/
theorem shellText_reads {P : Type} (S : Syntax P) {stage : RunStage} {command : Text} {ts : List Token} {script : Script P}
    (hnames : ∀ e ∈ stage.env, isName e.1 = true) (hcommand : S.reads command ts) (hscript : ReadsProgram S.pipeline ts script) :
    ∃ us, S.reads (shellText stage command) us ∧
      ReadsProgram (ReadsPipeline S) us (Script.guard ⟨stage.env, ["cd".toList, stage.workdir]⟩ script) := by
  have hcd : simpleCommand ["cd".toList, shellQuote stage.workdir] = some ⟨[], ["cd".toList, stage.workdir]⟩ := by
    have hwords : ["cd".toList, shellQuote stage.workdir].mapM unquote = some ["cd".toList, stage.workdir] := by
      simp [List.mapM_cons, unquote_shellQuote, show unquote ['c', 'd'] = some ['c', 'd'] from rfl]
    rw [simpleCommand, show assignment "cd".toList = none from rfl, if_neg (by decide), hwords]
    rfl
  have hsimple := simpleCommand_assignments hcd fun e he => (envAssignment_iff e).mpr (hnames e he)
  have hwords : ∀ w ∈ stage.env.map envAssignment ++ ["cd".toList, shellQuote stage.workdir], isWord w = true := by
    intro w hw
    rcases List.mem_append.mp hw with hw | hw
    · obtain ⟨e, he, rfl⟩ := List.mem_map.mp hw
      exact isWord_assignment (hnames e he) (unquote_shellQuote e.2)
    · rcases List.mem_cons.mp hw with rfl | hw
      · rfl
      · rw [List.mem_singleton.mp hw]
        exact isWord_shellQuote _
  refine ⟨_, ?_, readsProgram_guard (.simple hsimple (by simp)) hscript⟩
  rw [shellText_eq]
  exact S.reads_words (S.reads_andIf (S.reads_blank hcommand)) hwords

/-- The shell of every SHELL gets that script as its last argument. --/
theorem getLast?_shellCommand (stage : RunStage) (command : Text) :
    (shellCommand stage command).getLast? = some (shellText stage command) := by
  unfold shellCommand
  dsimp only
  generalize (if stage.shell.length > 0 then stage.shell else ["/bin/sh".toList, "-c".toList]) = shell
  split
  · rw [List.getLast?_append]
    rfl
  · rfl

theorem readsProgram_ne_nil {P : Type} {pipeline : List Token → P → Prop} {ts : List Token} {script : Script P}
    (h : ReadsProgram pipeline ts script) : script ≠ [] := by
  obtain ⟨n, h⟩ := h
  cases h <;> simp

/-- A command that is one pipeline. --/
theorem readsProgram_one {P : Type} {pipeline : List Token → P → Prop} {ts : List Token} {p : P} (h : pipeline ts p) :
    ReadsProgram pipeline ts [(⟨p, []⟩, .seq)] :=
  .mk 0 (.last (.one h))

/-! ### The context of the command -/

/-- The command runs in the working directory of the stage, with the environment of the stage, or not at all: the script
    reaches the shell, the entries of the environment are assignments of their values and nothing else, and whatever its
    pipelines do, the script starts what the command starts where `cd` was done with the stage's variables set. --/
structure RunsInContext {P σ : Type} (S : Syntax P) (cd : Text → State σ → Option (State σ)) (stage : RunStage) (command : Text)
    (script : Script P) (s : State σ) : Prop where
  handed : simpleCommand ((chrootArgv stage.rootfs (shellCommand stage command)).map shellQuote) =
      some ⟨[], chrootArgv stage.rootfs (shellCommand stage command)⟩ ∧
    (shellCommand stage command).getLast? = some (shellText stage command)
  assigned : ∀ e ∈ stage.env, assignment (envAssignment e) = some e
  reads : ∃ us, S.reads (shellText stage command) us ∧
    ReadsProgram (ReadsPipeline S) us (Script.guard ⟨stage.env, ["cd".toList, stage.workdir]⟩ script)
  contained : ∀ exec : P → State σ → Outcome σ,
    (runScript (execPipeline (fun c => builtin (cd stage.workdir) c.assignments) exec)
      (Script.guard ⟨stage.env, ["cd".toList, stage.workdir]⟩ script) s true).events =
    eventsInside (cd stage.workdir) stage.env exec script s

/-- A command runs in the context of its stage exactly when every variable has a valid name and either `cd` succeeds, the
    shell has these variables already, and the first list is not followed by others when it is asynchronous, or `cd` fails
    and the command is one list without `||`. --/
theorem run_in_context_iff {P σ : Type} (S : Syntax P) (cd : Text → State σ → Option (State σ)) (stage : RunStage)
    (command : Text) (ts : List Token) (script : Script P) (s : State σ) (hcommand : S.reads command ts)
    (hscript : ReadsProgram S.pipeline ts script) :
    RunsInContext S cd stage command script s ↔
      (∀ e ∈ stage.env, isName e.1 = true) ∧ GuardHolds (cd stage.workdir) stage.env script s := by
  have hguard : (∀ exec : P → State σ → Outcome σ,
      (runScript (execPipeline (fun c => builtin (cd stage.workdir) c.assignments) exec)
        (Script.guard ⟨stage.env, ["cd".toList, stage.workdir]⟩ script) s true).events =
      eventsInside (cd stage.workdir) stage.env exec script s) ↔ GuardHolds (cd stage.workdir) stage.env script s :=
    guard_iff (readsProgram_ne_nil hscript)
  constructor
  · intro h
    exact ⟨fun e he => (envAssignment_iff e).mp (h.assigned e he), hguard.mp h.contained⟩
  · rintro ⟨hnames, hholds⟩
    exact ⟨⟨simpleCommand_quoted _, getLast?_shellCommand stage command⟩, fun e he => (envAssignment_iff e).mpr (hnames e he),
      shellText_reads S hnames hcommand hscript, hguard.mpr hholds⟩

/-- A shell that was started with `A=1` already runs `make` where the stage says. --/
theorem run_in_context_inherited :
    RunsInContext wordSyntax (fun w s => some { s with rest := w })
      ⟨"/rootfs".toList, [("A".toList, "1".toList)], "/w".toList, []⟩ "make".toList [(⟨⟨[], ["make".toList]⟩, []⟩, .seq)]
      ⟨fun k => if k = "A".toList then some "1".toList else none, "/".toList⟩ := by
  have hiff := run_in_context_iff wordSyntax (fun w s => some { s with rest := w })
    ⟨"/rootfs".toList, [("A".toList, "1".toList)], "/w".toList, []⟩ "make".toList [.word "make".toList]
    [(⟨⟨[], ["make".toList]⟩, []⟩, .seq)] ⟨fun k => if k = "A".toList then some "1".toList else none, "/".toList⟩
    rfl (readsProgram_one ⟨["make".toList], rfl, rfl⟩)
  refine hiff.mpr ⟨by decide, ?_, .inr (by simp)⟩
  refine congrArg (State.mk · "/".toList) (funext fun k => ?_)
  simp

/-- With `ENV A=1` the command `make` is started without `A`, after a `cd` that fails `make ; install` starts `install`,
    and a variable `A-B` makes a command `A-B=1` of the `cd`. --/
theorem run_leaves_context :
    (wordSyntax.reads "make".toList [.word "make".toList] ∧
      ReadsProgram wordSyntax.pipeline [.word "make".toList] [(⟨⟨[], ["make".toList]⟩, []⟩, .seq)] ∧
      ¬RunsInContext wordSyntax (fun w s => some { s with rest := w })
        ⟨"/rootfs".toList, [("A".toList, "1".toList)], "/w".toList, []⟩ "make".toList [(⟨⟨[], ["make".toList]⟩, []⟩, .seq)]
        ⟨fun _ => none, "/".toList⟩) ∧
    (wordSyntax.reads "make ; install".toList [.word "make".toList, .semi, .word "install".toList] ∧
      ReadsProgram wordSyntax.pipeline [.word "make".toList, .semi, .word "install".toList]
        [(⟨⟨[], ["make".toList]⟩, []⟩, .seq), (⟨⟨[], ["install".toList]⟩, []⟩, .seq)] ∧
      ¬RunsInContext wordSyntax (fun _ _ => none) ⟨"/rootfs".toList, [], "/w".toList, []⟩ "make ; install".toList
        [(⟨⟨[], ["make".toList]⟩, []⟩, .seq), (⟨⟨[], ["install".toList]⟩, []⟩, .seq)] ⟨fun _ => none, "/".toList⟩) ∧
    (tokens (shellText ⟨"/rootfs".toList, [("A-B".toList, "1".toList)], "/w".toList, []⟩ "make".toList) =
        some [.word "A-B='1'".toList, .word "cd".toList, .word "'/w'".toList, .andIf, .word "make".toList] ∧
      simpleCommand ["A-B='1'".toList, "cd".toList, "'/w'".toList] = some ⟨[], ["A-B=1".toList, "cd".toList, "/w".toList]⟩ ∧
      ¬RunsInContext wordSyntax (fun w s => some { s with rest := w })
        ⟨"/rootfs".toList, [("A-B".toList, "1".toList)], "/w".toList, []⟩ "make".toList
        [(⟨⟨[], ["make".toList]⟩, []⟩, .seq)] ⟨fun _ => none, "/".toList⟩) := by
  refine ⟨⟨rfl, readsProgram_one ⟨["make".toList], rfl, rfl⟩, fun h => ?_⟩, ⟨rfl, ?_, fun h => ?_⟩, rfl, rfl, fun h => ?_⟩
  · have hevents : [Event.process _] = [Event.process _] := h.contained emit
    obtain ⟨hstate, -⟩ := List.cons.inj hevents
    have henv : none = some "1".toList := congrArg (fun u => u.env "A".toList) (Event.process.inj hstate)
    cases henv
  · have hmake : ReadsAndOr wordSyntax.pipeline [.word "make".toList] ⟨⟨[], ["make".toList]⟩, []⟩ :=
      .one ⟨["make".toList], rfl, rfl⟩
    have hinstall : ReadsAndOr wordSyntax.pipeline [.word "install".toList] ⟨⟨[], ["install".toList]⟩, []⟩ :=
      .one ⟨["install".toList], rfl, rfl⟩
    exact .mk 0 (.more hmake (.semi 0) (.last hinstall))
  · have hevents := h.contained emit
    cases hevents
  · have hassigned := h.assigned _ (List.mem_singleton_self _)
    cases hassigned

end NodeVmm.Dockerfile
