import NodeVmm.DockerfileCommand
import NodeVmm.Theorems.ShellQuoting

/-! When the command line of an image built from a Dockerfile does what Docker starts for its CMD and ENTRYPOINT. The form of
    an instruction is not kept, so the text of a shell form is one quoted word of the command line. -/

namespace NodeVmm.Dockerfile
open RootfsCache (ImageConfig quoteArgv commandLineFromImage commands_quoteArgv)
open Shell (commands isLiteral commands_literal_iff room_of_commands room_cons)

/-! ### Systems -/

/-- What is done for an argument vector, for a text that a POSIX shell runs, and for a text that another shell runs. `builtin`
    says which commands the shell runs itself, and `posix` which shells are POSIX shells. --/
structure System (builtin : Text → Bool) (posix : List Text → Bool) (β : Type) where
  exec : List Text → β
  command : List Text → β
  run : Text → β
  shell : List Text → Text → β
  nothing : β
  command_exec : ∀ {word args}, builtin word = false → command (word :: args) = exec (word :: args)
  run_command : ∀ {text argv}, commands text = some [⟨[], argv⟩] → run text = command argv
  shell_run : ∀ {words text}, posix words = true → shell words text = run text

variable {builtin : Text → Bool} {posix : List Text → Bool} {β : Type}

def System.start (S : System builtin posix β) : Option Form → β
  | none => S.nothing
  | some (.exec argv) => S.exec argv
  | some (.shell words text) => S.shell words text

inductive Behaviour where
  | nothing
  | process (argv : List Text)
  | builtin (argv : List Text)
  | text (text : Text)
  | other (shell : List Text) (text : Text)
  deriving DecidableEq

def freeCommand (builtin : Text → Bool) (argv : List Text) : Behaviour :=
  if argv.head?.any builtin then .builtin argv else .process argv

def freeRun (builtin : Text → Bool) (text : Text) : Behaviour :=
  match commands text with
  | some [⟨[], argv⟩] => freeCommand builtin argv
  | _ => .text text

/-- The system in which only the rules make two things the same. --/
def freeSystem (builtin : Text → Bool) (posix : List Text → Bool) : System builtin posix Behaviour where
  exec := .process
  command := freeCommand builtin
  run := freeRun builtin
  shell words text := if posix words then freeRun builtin text else .other words text
  nothing := .nothing
  command_exec h := by simp [freeCommand, h]
  run_command h := by simp [freeRun, h]
  shell_run h := if_pos h

theorem freeCommand_inj {argv words : List Text} (h : freeCommand builtin argv = freeCommand builtin words) :
    argv = words := by
  unfold freeCommand at h
  split_ifs at h
  · exact Behaviour.builtin.inj h
  · exact Behaviour.process.inj h

theorem commands_of_freeRun {text : Text} {argv : List Text} (h : freeRun builtin text = freeCommand builtin argv) :
    commands text = some [⟨[], argv⟩] := by
  unfold freeRun at h
  split at h
  · rename_i words hread
    rw [hread, freeCommand_inj h]
  · unfold freeCommand at h
    split_ifs at h

/-- The first word is there and is no built-in. --/
def Leads (builtin : Text → Bool) (argv : List Text) : Prop := ∃ word, argv.head? = some word ∧ builtin word = false

@[simp] theorem leads_cons {word : Text} {args : List Text} : Leads builtin (word :: args) ↔ builtin word = false := by
  simp [Leads]

@[simp] theorem not_leads_nil : ¬Leads builtin [] := by simp [Leads]

/-- The words are the argument vector, or those that the shell reads in the text. --/
def Matches (builtin : Text → Bool) (posix : List Text → Bool) (argv : List Text) : Option Form → Prop
  | none => False
  | some (.exec words) => words = argv ∧ Leads builtin argv
  | some (.shell words text) => posix words = true ∧ commands text = some [⟨[], argv⟩]

/-- Quoted words do what is started in every system exactly when they match it. --/
theorem start_quoteArgv_iff {argv : List Text} (hne : argv ≠ []) (f : Option Form) :
    (∀ (β : Type) (S : System builtin posix β), S.run (quoteArgv argv) = S.start f) ↔ Matches builtin posix argv f := by
  have hcommands : commands (quoteArgv argv) = some [⟨[], argv⟩] := by rw [commands_quoteArgv, if_neg hne]
  obtain ⟨word, args, rfl⟩ := List.exists_cons_of_ne_nil hne
  constructor
  · intro h
    have hfree : freeCommand builtin (word :: args) = (freeSystem builtin posix).start f :=
      ((freeSystem builtin posix).run_command hcommands).symm.trans (h Behaviour (freeSystem builtin posix))
    cases f with
    | none =>
      unfold freeCommand at hfree
      split_ifs at hfree <;> cases hfree
    | some f =>
      cases f with
      | exec words =>
        have hprocess : freeCommand builtin (word :: args) = .process words := hfree
        unfold freeCommand at hprocess
        split_ifs at hprocess with hbuiltin
        exact ⟨(Behaviour.process.inj hprocess).symm, word, rfl, by simpa using hbuiltin⟩
      | shell words text =>
        have hshell : freeCommand builtin (word :: args) = if posix words then freeRun builtin text else .other words text :=
          hfree
        by_cases hposix : posix words = true
        · rw [if_pos hposix] at hshell
          exact ⟨hposix, commands_of_freeRun hshell.symm⟩
        · rw [if_neg hposix] at hshell
          unfold freeCommand at hshell
          split_ifs at hshell
  · intro h β S
    rw [S.run_command hcommands]
    cases f with
    | none => exact h.elim
    | some f =>
      cases f with
      | exec words =>
        obtain ⟨rfl, word', hword, hbuiltin⟩ := h
        cases hword
        exact S.command_exec hbuiltin
      | shell words text =>
        obtain ⟨hposix, hread⟩ := h
        exact ((S.shell_run hposix).trans (S.run_command hread)).symm

/-! ### The stage -/

/-- What the configuration keeps of a form. --/
inductive Stored : Form → List Text → Prop
  | exec (word : Text) (args : List Text) : Stored (.exec (word :: args)) (word :: args)
  | empty (text : Text) : Stored (.exec []) [text]
  | shell (word : Text) (args : List Text) (text : Text) : Stored (.shell (word :: args) text) [text]

/-- The words of the image, or what is kept of the last form. --/
def StoredOr (f : Option Form) (image words : List Text) : Prop :=
  match f with
  | none => words = image
  | some f => Stored f words

structure Tracks (image : ImageConfig) (s : CommandStage) (d : DockerStage) : Prop where
  shell : s.shell = d.shell
  started : d.shell ≠ []
  cmd : StoredOr d.cmd image.cmd s.config.cmd
  entrypoint : StoredOr d.entrypoint image.entrypoint s.config.entrypoint

theorem stored_form {shell : List Text} (hne : shell ≠ []) (a : Arguments) : Stored (a.form shell) (commandWords a) := by
  obtain ⟨word, args, rfl⟩ := List.exists_cons_of_ne_nil hne
  unfold Arguments.form commandWords
  cases a.json with
  | nil =>
    simp only [ne_eq, not_true_eq_false, if_false, List.length_nil, gt_iff_lt, lt_self_iff_false]
    split
    · exact .empty _
    · exact .shell _ _ _
  | cons w ws =>
    simp only [ne_eq, reduceCtorEq, not_false_eq_true, if_true, List.length_cons, gt_iff_lt, Nat.zero_lt_succ]
    exact .exec w ws

variable {image : ImageConfig} {s : CommandStage} {d : DockerStage}

theorem tracks_instruction (h : Tracks image s d) (i : CommandInstruction) :
    Tracks image (s.instruction i) (d.instruction i) := by
  cases i with
  | cmd a => exact { h with cmd := stored_form h.started a }
  | entrypoint a => exact { h with entrypoint := stored_form h.started a }
  | shell a =>
    unfold CommandStage.instruction DockerStage.instruction
    by_cases hjson : a.json = []
    · simp only [hjson, List.length_nil, gt_iff_lt, lt_self_iff_false, if_false, ne_eq, not_true_eq_false]
      exact h
    · simp only [List.length_pos_iff.mpr hjson, if_true, ne_eq, hjson, not_false_eq_true]
      exact { h with shell := rfl, started := hjson }

theorem tracks_foldl (h : Tracks image s d) (instructions : List CommandInstruction) :
    Tracks image (instructions.foldl CommandStage.instruction s) (instructions.foldl DockerStage.instruction d) := by
  induction instructions generalizing s d with
  | nil => exact h
  | cons i instructions ih => exact ih (tracks_instruction h i)

theorem tracks_stage (image : ImageConfig) (instructions : List CommandInstruction) :
    Tracks image (instructions.foldl CommandStage.instruction ⟨image, defaultShell⟩) (dockerStage instructions) := by
  have hstart : Tracks image ⟨image, defaultShell⟩ ⟨none, none, defaultShell⟩ :=
    { shell := rfl
      started := by decide
      cmd := rfl
      entrypoint := rfl }
  exact tracks_foldl hstart instructions

/-! ### The command line -/

/-- The forms that the configuration keeps apart: exec forms with words, and a shell form whose text is one literal word,
    alone. --/
def FormsAgree (builtin : Text → Bool) (posix : List Text → Bool) (image : ImageConfig) (d : DockerStage) : Prop :=
  match d.entrypoint, d.cmd with
  | some (.shell shell text), cmd => cmd = none ∧ image.cmd = [] ∧ posix shell = true ∧ isLiteral text = true
  | some (.exec entrypoint), none => image.cmd = [] ∧ Leads builtin entrypoint
  | some (.exec entrypoint), some (.exec cmd) => cmd ≠ [] ∧ Leads builtin entrypoint
  | some (.exec _), some (.shell _ _) => False
  | none, some (.exec cmd) => cmd ≠ [] ∧ Leads builtin (image.entrypoint ++ cmd)
  | none, some (.shell shell text) => image.entrypoint = [] ∧ posix shell = true ∧ isLiteral text = true
  | none, none => Leads builtin (image.entrypoint ++ image.cmd)

theorem matches_execForm {argv words : List Text} :
    Matches builtin posix argv (execForm words) ↔ words = argv ∧ Leads builtin argv := by
  unfold execForm
  split
  · rename_i hnil
    subst hnil
    refine ⟨fun h => h.elim, ?_⟩
    rintro ⟨rfl, _, hword, -⟩
    cases hword
  · rfl

theorem ne_nil_of_stored {f : Form} {words : List Text} (h : Stored f words) : words ≠ [] := by
  cases h <;> simp

theorem storedOr_nil {f : Option Form} {words : List Text} : StoredOr f words [] ↔ f = none ∧ words = [] := by
  cases f with
  | none => simp [StoredOr, eq_comm]
  | some f => exact ⟨fun h => absurd rfl (ne_nil_of_stored h), fun h => absurd h.1 (by simp)⟩

theorem matches_iff (he : StoredOr d.entrypoint image.entrypoint s.config.entrypoint)
    (hc : StoredOr d.cmd image.cmd s.config.cmd) :
    Matches builtin posix (s.config.entrypoint ++ s.config.cmd) (d.starts image) ↔ FormsAgree builtin posix image d := by
  obtain ⟨cmd, entrypoint, shell⟩ := d
  generalize s.config.entrypoint = ew at he
  generalize s.config.cmd = cw at hc
  cases entrypoint with
  | none =>
    obtain rfl : ew = image.entrypoint := he
    cases cmd with
    | none =>
      obtain rfl : cw = image.cmd := hc
      simp [DockerStage.starts, FormsAgree, matches_execForm]
    | some f =>
      cases (show Stored f cw from hc) with
      | exec word args => simp [DockerStage.starts, FormsAgree, matches_execForm]
      | empty text => simp [DockerStage.starts, FormsAgree, matches_execForm]
      | shell word args text =>
        by_cases hnil : image.entrypoint = []
        · simp [DockerStage.starts, FormsAgree, Matches, hnil, commands_literal_iff]
        · simp [DockerStage.starts, FormsAgree, Matches, hnil]
  | some f =>
    cases (show Stored f ew from he) with
    | exec word args =>
      cases cmd with
      | none =>
        obtain rfl : cw = image.cmd := hc
        simp [DockerStage.starts, FormsAgree, matches_execForm]
      | some f =>
        cases (show Stored f cw from hc) with
        | exec w ws => simp [DockerStage.starts, FormsAgree, matches_execForm]
        | empty text => simp [DockerStage.starts, FormsAgree, matches_execForm]
        | shell w ws text => simp [DockerStage.starts, FormsAgree, Matches]
    | empty array =>
      cases cmd with
      | none => simp [DockerStage.starts, FormsAgree, matches_execForm]
      | some f =>
        cases (show Stored f cw from hc) with
        | exec w ws => simp [DockerStage.starts, FormsAgree, matches_execForm]
        | empty text => simp [DockerStage.starts, FormsAgree, matches_execForm]
        | shell w ws text =>
          have hroom : ¬commands text = some [⟨[], [array, text]⟩] := fun h => by
            have hle := room_of_commands h
            rw [room_cons, room_cons] at hle
            omega
          simp [DockerStage.starts, FormsAgree, Matches, hroom]
    | shell word args text =>
      have hnil : cw = [] ↔ cmd = none ∧ image.cmd = [] := by
        cases cmd with
        | none =>
          obtain rfl : cw = image.cmd := hc
          simp
        | some f => simp [ne_nil_of_stored (show Stored f cw from hc)]
      simp [DockerStage.starts, FormsAgree, Matches, commands_literal_iff, hnil, and_assoc, and_comm, and_left_comm]

theorem commandLine_eq (config : ImageConfig) : commandLineFromImage config none none =
    if config.entrypoint ++ config.cmd = [] then "/bin/sh".toList else quoteArgv (config.entrypoint ++ config.cmd) := rfl

/-- A stage without words runs a shell where Docker has nothing to start. --/
theorem start_shell_ne (hd : d.starts image = none) :
    ¬∀ (β : Type) (S : System builtin posix β), S.run "/bin/sh".toList = S.start (d.starts image) := fun h => by
  have hread : commands "/bin/sh".toList = some [⟨[], ["/bin/sh".toList]⟩] := by decide
  have hfree : freeCommand builtin ["/bin/sh".toList] = .nothing := by
    rw [hd] at h
    exact ((freeSystem builtin posix).run_command hread).symm.trans (h Behaviour (freeSystem builtin posix))
  unfold freeCommand at hfree
  split_ifs at hfree

/-- For every stage, the command line of its configuration does what Docker starts exactly when the forms agree. --/
theorem command_line_iff (builtin : Text → Bool) (posix : List Text → Bool) (image : ImageConfig)
    (instructions : List CommandInstruction) :
    (∀ (β : Type) (S : System builtin posix β), S.run (commandLineFromImage (stageConfig image instructions) none none) =
      S.start ((dockerStage instructions).starts image)) ↔ FormsAgree builtin posix image (dockerStage instructions) := by
  have htracks := tracks_stage image instructions
  unfold stageConfig
  generalize instructions.foldl CommandStage.instruction ⟨image, defaultShell⟩ = s at htracks
  generalize dockerStage instructions = d at htracks
  rw [← matches_iff htracks.entrypoint htracks.cmd, commandLine_eq]
  split
  · rename_i hnil
    obtain ⟨hentrypoint, hcmd⟩ := List.append_eq_nil_iff.mp hnil
    obtain ⟨he, hie⟩ := storedOr_nil.mp (hentrypoint ▸ htracks.entrypoint)
    obtain ⟨hc, hic⟩ := storedOr_nil.mp (hcmd ▸ htracks.cmd)
    have hd : d.starts image = none := by simp [DockerStage.starts, he, hc, hie, hic, execForm]
    refine iff_of_false (start_shell_ne hd) ?_
    rw [hd]
    exact id
  · rename_i hne
    exact start_quoteArgv_iff hne _

/-- `CMD npm start`: the command line is one word, which no system takes for the two words of the text. --/
theorem command_line_shell_form :
    ¬∀ (builtin : Text → Bool) (posix : List Text → Bool) (image : ImageConfig) (instructions : List CommandInstruction)
      (β : Type) (S : System builtin posix β), S.run (commandLineFromImage (stageConfig image instructions) none none) =
        S.start ((dockerStage instructions).starts image) := fun h => by
  have hfree := h (fun _ => false) (· = defaultShell) ⟨[], [], [], []⟩ [.cmd ⟨[], some "npm start".toList⟩] Behaviour
    (freeSystem _ _)
  revert hfree
  decide

end NodeVmm.Dockerfile
