import NodeVmm.Lib.Text

/-! What a program that writes scripts for a POSIX shell uses of the shell's language: quoted words, assignments, simple
    commands, and lists of pipelines joined by `&&`, `||`, `;`, `&` and newlines. How the shell reads anything else, and
    what its pipelines do, are parameters. -/

namespace Shell

/-! ### Words -/

def isNameStart (c : Char) : Bool := ('A' ≤ c && c ≤ 'Z') || ('a' ≤ c && c ≤ 'z') || c = '_'

def isNameChar (c : Char) : Bool := isNameStart c || ('0' ≤ c && c ≤ '9')

def isName (s : Text) : Bool := s.head?.any isNameStart && s.all isNameChar

/-- The characters that a shell may take with another meaning outside quotes. --/
def special : List Char := "|&;<>()$`\\\"' \t\n*?[#~%!".toList ++ ['{', '}']

/-- A character that stands for itself wherever it is in a word. --/
def ordinary (c : Char) : Bool := !special.contains c

/-- Where a reader is: outside quotes, after a backslash, in single quotes, or inside an operator. --/
inductive Place where
  | plain
  | escaped
  | single
  | operator
  deriving DecidableEq, Repr

/-- The text of a word that has ordinary, escaped and single-quoted characters only, without its quotes. --/
def unquoteFrom : Place → Text → Option Text
  | .plain, [] => some []
  | _, [] => none
  | .plain, c :: s =>
    if c = '\'' then unquoteFrom .single s
    else if c = '\\' then unquoteFrom .escaped s
    else if ordinary c then (unquoteFrom .plain s).map (c :: ·)
    else none
  | .escaped, c :: s => if c = '\n' then none else (unquoteFrom .plain s).map (c :: ·)
  | .single, c :: s => if c = '\'' then unquoteFrom .plain s else (unquoteFrom .single s).map (c :: ·)
  | .operator, _ :: _ => none

def unquote (word : Text) : Option Text := unquoteFrom .plain word

/-- The name and the value of a word that is an assignment. --/
def assignment (word : Text) : Option (Text × Text) :=
  let name := word.takeWhile (· ≠ '=')
  if isName name && (word.drop name.length).head? = some '=' then
    (unquote (word.drop (name.length + 1))).map fun value => (name, value)
  else none

/-- The words that a shell reads with another meaning where a command begins. --/
def reserved : List Text :=
  ["if", "then", "else", "elif", "fi", "do", "done", "case", "esac", "while", "until", "for", "in"].map String.toList

structure SimpleCommand where
  assignments : List (Text × Text)
  argv : List Text
  deriving DecidableEq, Repr

/-- The command of some words: assignments first, then the words of its argument vector. --/
def simpleCommand : List Text → Option SimpleCommand
  | [] => some ⟨[], []⟩
  | w :: ws =>
    match assignment w with
    | some a => (simpleCommand ws).map fun c => { c with assignments := a :: c.assignments }
    | none => if w ∈ reserved then none else ((w :: ws).mapM unquote).map fun argv => ⟨[], argv⟩

/-! ### Tokens -/

inductive Token where
  | word (text : Text)
  | andIf
  | orIf
  | semi
  | amp
  | newline
  | other (text : Text)
  deriving DecidableEq, Repr

def flush (word : Option Text) (ts : List Token) : List Token := (word.map Token.word).toList ++ ts

/-- The tokens of a text that has words of the kind above, `&&`, `||`, `;`, `&` and newlines only. --/
def tokensFrom : Place → Option Text → Text → Option (List Token)
  | .plain, word, [] => some (flush word [])
  | _, _, [] => none
  | .escaped, word, c :: s => if c = '\n' then none else tokensFrom .plain (some (word.getD [] ++ [c])) s
  | .single, word, c :: s => tokensFrom (if c = '\'' then .plain else .single) (some (word.getD [] ++ [c])) s
  | .operator, word, _ :: s => tokensFrom .plain word s
  | .plain, word, c :: s =>
    if c = '\'' then tokensFrom .single (some (word.getD [] ++ [c])) s
    else if c = '\\' then tokensFrom .escaped (some (word.getD [] ++ [c])) s
    else if ordinary c then tokensFrom .plain (some (word.getD [] ++ [c])) s
    else if c = ' ' ∨ c = '\t' then (tokensFrom .plain none s).map (flush word)
    else if c = '\n' then (tokensFrom .plain none s).map fun ts => flush word (.newline :: ts)
    else if c = ';' then (tokensFrom .plain none s).map fun ts => flush word (.semi :: ts)
    else if c = '&' ∧ s.head? = some '&' then (tokensFrom .operator none s).map fun ts => flush word (.andIf :: ts)
    else if c = '|' ∧ s.head? = some '|' then (tokensFrom .operator none s).map fun ts => flush word (.orIf :: ts)
    else if c = '&' then (tokensFrom .plain none s).map fun ts => flush word (.amp :: ts)
    else none

def tokens (text : Text) : Option (List Token) := tokensFrom .plain none text

/-- The text is one word of the kind above. --/
def isWord (text : Text) : Bool := text ≠ [] && (unquote text).isSome

/-- How a shell reads. `reads` is its token recognition, on a text that begins where a token may begin, and `pipeline`
    is its grammar of the pipelines `P`. The rules are those of token recognition for what this file has words for. --/
structure Syntax (P : Type) where
  reads : Text → List Token → Prop
  pipeline : List Token → P → Prop
  reads_blank : ∀ {s ts}, reads s ts → reads (' ' :: s) ts
  reads_word : ∀ {w s ts}, isWord w = true → reads s ts → reads (w ++ ' ' :: s) (.word w :: ts)
  reads_andIf : ∀ {s ts}, reads s ts → reads ('&' :: '&' :: s) (.andIf :: ts)

section
variable {s t : Text} {c : Char} {ts : List Token}

@[simp] theorem ordinary_blank : ordinary ' ' = false := by decide

@[simp] theorem ordinary_quote : ordinary '\'' = false := by decide

@[simp] theorem ordinary_backslash : ordinary '\\' = false := by decide

@[simp] theorem ordinary_amp : ordinary '&' = false := by decide

@[simp] theorem ordinary_newline : ordinary '\n' = false := by decide

theorem unquoteFrom_ordinary (h : ∀ c ∈ s, ordinary c = true) :
    unquoteFrom .plain (s ++ t) = (unquoteFrom .plain t).map (s ++ ·) := by
  induction s with
  | nil => simp
  | cons c s ih =>
    obtain ⟨hc, hs⟩ := List.forall_mem_cons.mp h
    have hquote : c ≠ '\'' := fun h => by simp [h] at hc
    have hback : c ≠ '\\' := fun h => by simp [h] at hc
    rw [List.cons_append, unquoteFrom, if_neg hquote, if_neg hback, if_pos hc, ih hs, Option.map_map]
    rfl

/-- A character inside single quotes: a quote closes them, stands escaped and opens them again. --/
def escape (c : Char) : Text := if c = '\'' then "'\\''".toList else [c]

theorem unquoteFrom_escape (s t : Text) : unquoteFrom .single (s.flatMap escape ++ t) = (unquoteFrom .single t).map (s ++ ·) := by
  induction s with
  | nil => simp
  | cons c s ih =>
    rw [List.flatMap_cons, List.append_assoc]
    by_cases hc : c = '\''
    · subst hc
      have hopen : unquoteFrom .single (escape '\'' ++ (s.flatMap escape ++ t)) =
          (unquoteFrom .single (s.flatMap escape ++ t)).map ('\'' :: ·) := rfl
      rw [hopen, ih, Option.map_map]
      rfl
    · rw [escape, if_neg hc, List.singleton_append, unquoteFrom, if_neg hc, ih, Option.map_map]
      rfl

/-- A text in single quotes is a word with that text. --/
theorem unquote_single (s : Text) : unquote ('\'' :: (s.flatMap escape ++ ['\''])) = some s := by
  show unquoteFrom .single (s.flatMap escape ++ ['\'']) = some s
  rw [unquoteFrom_escape]
  simp [unquoteFrom]

theorem ordinary_of_isNameChar (h : isNameChar c = true) : ordinary c = true := by
  have hspecial : special.all (fun x => !isNameChar x) = true := by decide
  by_contra hno
  have hmem : c ∈ special := by simpa [ordinary] using hno
  have hname : (!isNameChar c) = true := List.all_eq_true.mp hspecial c hmem
  rw [h] at hname
  cases hname

theorem isNameChar_of_isName (h : isName s = true) : ∀ c ∈ s, isNameChar c = true := by
  obtain ⟨-, hall⟩ := Bool.and_eq_true_iff.mp h
  exact List.all_eq_true.mp hall

theorem not_mem_of_isName (h : isName s = true) : '=' ∉ s := fun hmem =>
  absurd (isNameChar_of_isName h '=' hmem) (by decide)

/-- A word is the assignment of a value to a name exactly when the name is one. --/
theorem assignment_eq_iff {name word value : Text} (hword : unquote word = some value) :
    assignment (name ++ '=' :: word) = some (name, value) ↔ isName name = true := by
  constructor
  · intro h
    unfold assignment at h
    dsimp only at h
    split at h
    · rename_i hname
      obtain ⟨_, -, heq⟩ := Option.map_eq_some_iff.mp h
      obtain ⟨hname, -⟩ := Bool.and_eq_true_iff.mp hname
      rwa [(Prod.mk.inj heq).1] at hname
    · cases h
  · intro h
    have htake : (name ++ '=' :: word).takeWhile (· ≠ '=') = name := Text.takeWhile_ne_append (not_mem_of_isName h)
    have hdrop : (name ++ '=' :: word).drop (name.length + 1) = word := by
      rw [List.append_cons, List.drop_left' (by simp)]
    simp only [assignment, htake, List.drop_left, List.head?_cons, h, hdrop, hword]
    rfl

/-- An assignment is one word. --/
theorem isWord_assignment {name word value : Text} (hname : isName name = true) (hword : unquote word = some value) :
    isWord (name ++ '=' :: word) = true := by
  have hordinary : ∀ c ∈ name ++ ['='], ordinary c = true := by
    intro c hc
    rcases List.mem_append.mp hc with hc | hc
    · exact ordinary_of_isNameChar (isNameChar_of_isName hname c hc)
    · rw [List.mem_singleton.mp hc]
      rfl
  have hunquote : unquote (name ++ '=' :: word) = some (name ++ ['='] ++ value) := by
    rw [unquote, List.append_cons, unquoteFrom_ordinary hordinary]
    exact congrArg (Option.map _) hword
  simp [isWord, hunquote]

theorem simpleCommand_assignments {assign : Text × Text → Text} {words argv : List Text}
    (hwords : simpleCommand words = some ⟨[], argv⟩) : ∀ {as : List (Text × Text)},
    (∀ a ∈ as, assignment (assign a) = some a) → simpleCommand (as.map assign ++ words) = some ⟨as, argv⟩
  | [], _ => hwords
  | a :: as, h => by
    obtain ⟨ha, has⟩ := List.forall_mem_cons.mp h
    rw [List.map_cons, List.cons_append, simpleCommand, ha, simpleCommand_assignments hwords has]
    rfl

/-- Words with a blank after each. --/
theorem Syntax.reads_words {P : Type} (S : Syntax P) (hs : S.reads s ts) : ∀ {words : List Text},
    (∀ w ∈ words, isWord w = true) → S.reads (words.flatMap (· ++ [' ']) ++ s) (words.map .word ++ ts)
  | [], _ => hs
  | w :: words, h => by
    obtain ⟨hw, hwords⟩ := List.forall_mem_cons.mp h
    rw [List.flatMap_cons, List.append_assoc, List.append_assoc, List.singleton_append]
    exact S.reads_word hw (S.reads_words hs hwords)

/-- A word is one token, whatever comes after it. --/
theorem tokensFrom_append : ∀ {w v : Text} {q : Place} {word : Option Text}, unquoteFrom q w = some v →
    w ≠ [] ∨ word.isSome = true → tokensFrom q word (w ++ s) = tokensFrom .plain (some (word.getD [] ++ w)) s
  | [], v, q, word, hw, hne => by
    obtain ⟨acc, rfl⟩ := Option.isSome_iff_exists.mp (hne.resolve_left (· rfl))
    cases q with
    | plain => simp
    | _ => cases hw
  | c :: w, v, q, word, hw, _ => by
    have hrest : ∀ {q' v'}, unquoteFrom q' w = some v' → tokensFrom q' (some (word.getD [] ++ [c])) (w ++ s) =
        tokensFrom .plain (some (word.getD [] ++ c :: w)) s := fun h => by
      rw [tokensFrom_append h (.inr rfl)]
      simp
    cases q with
    | plain =>
      rw [unquoteFrom] at hw
      rw [List.cons_append, tokensFrom]
      split_ifs at hw ⊢
      · exact hrest hw
      · exact hrest hw
      · obtain ⟨v', hv', -⟩ := Option.map_eq_some_iff.mp hw
        exact hrest hv'
    | escaped =>
      rw [unquoteFrom] at hw
      rw [List.cons_append, tokensFrom]
      split_ifs at hw ⊢
      obtain ⟨v', hv', -⟩ := Option.map_eq_some_iff.mp hw
      exact hrest hv'
    | single =>
      rw [unquoteFrom] at hw
      rw [List.cons_append, tokensFrom]
      split_ifs at hw ⊢
      · exact hrest hw
      · obtain ⟨v', hv', -⟩ := Option.map_eq_some_iff.mp hw
        exact hrest hv'
    | operator => cases hw

/-- A word and a blank after it. --/
theorem tokensFrom_word {w v : Text} {q : Place} {word : Option Text} (hw : unquoteFrom q w = some v)
    (hne : w ≠ [] ∨ word.isSome = true) : tokensFrom q word (w ++ ' ' :: s) =
      (tokensFrom .plain none s).map (flush (some (word.getD [] ++ w))) := by
  rw [tokensFrom_append hw hne]
  simp [tokensFrom]

theorem isWord_iff {w : Text} : isWord w = true ↔ w ≠ [] ∧ ∃ v, unquote w = some v := by
  simp [isWord, Option.isSome_iff_exists]

end

/-- The reading of such texts, with pipelines that are simple commands. --/
def wordSyntax : Syntax SimpleCommand where
  reads s ts := tokens s = some ts
  pipeline ts c := ∃ ws, ts = ws.map .word ∧ simpleCommand ws = some c
  reads_blank {s ts} h := by
    have hblank : tokensFrom .plain none (' ' :: s) = (tokensFrom .plain none s).map (flush none) := by
      simp [tokensFrom]
    rw [tokens, hblank]
    exact congrArg (Option.map (flush none)) h
  reads_word {w s ts} hw h := by
    obtain ⟨hne, v, hv⟩ := isWord_iff.mp hw
    rw [tokens, tokensFrom_word hv (.inl hne)]
    exact congrArg (Option.map (flush (some w))) h
  reads_andIf {s ts} h := by
    have hop : tokensFrom .plain none ('&' :: '&' :: s) = (tokensFrom .plain none s).map (.andIf :: ·) := by
      simp [tokensFrom, flush]
    rw [tokens, hop]
    exact congrArg (Option.map (.andIf :: ·)) h

/-! ### Lists -/

inductive Connector where
  | and
  | or
  deriving DecidableEq, Repr

def Connector.token : Connector → Token
  | .and => .andIf
  | .or => .orIf

/-- The next pipeline runs after one with this status. --/
def Connector.goesOn : Connector → Bool → Bool
  | .and, ok => ok
  | .or, ok => !ok

structure AndOr (P : Type) where
  first : P
  rest : List (Connector × P)
  deriving DecidableEq, Repr

/-- `;` or newlines, and `&`. --/
inductive Separator where
  | seq
  | async
  deriving DecidableEq, Repr

abbrev Script (P : Type) := List (AndOr P × Separator)

def newlines (n : Nat) : List Token := List.replicate n .newline

inductive ReadsSeparator : List Token → Separator → Prop
  | semi (n : Nat) : ReadsSeparator (.semi :: newlines n) .seq
  | newline (n : Nat) : ReadsSeparator (newlines (n + 1)) .seq
  | amp (n : Nat) : ReadsSeparator (.amp :: newlines n) .async

section
variable {P : Type} (pipeline : List Token → P → Prop)

inductive ReadsAndOr : List Token → AndOr P → Prop
  | one {ts p} (h : pipeline ts p) : ReadsAndOr ts ⟨p, []⟩
  | more {ts us p rest q} (c : Connector) (n : Nat) (h : ReadsAndOr ts ⟨p, rest⟩) (hq : pipeline us q) :
      ReadsAndOr (ts ++ c.token :: (newlines n ++ us)) ⟨p, rest ++ [(c, q)]⟩

inductive ReadsList : List Token → Script P → Prop
  | last {ts a} (h : ReadsAndOr pipeline ts a) : ReadsList ts [(a, .seq)]
  | ended {ts us a sep} (h : ReadsAndOr pipeline ts a) (hsep : ReadsSeparator us sep) : ReadsList (ts ++ us) [(a, sep)]
  | more {ts us vs a sep rest} (h : ReadsAndOr pipeline ts a) (hsep : ReadsSeparator us sep) (hrest : ReadsList vs rest) :
      ReadsList (ts ++ (us ++ vs)) ((a, sep) :: rest)

/-- A program may begin with newlines. --/
inductive ReadsProgram : List Token → Script P → Prop
  | mk {ts script} (n : Nat) (h : ReadsList pipeline ts script) : ReadsProgram (newlines n ++ ts) script

end

/-! ### Runs -/

/-- The environment that processes get, and what else a shell has: its working directory, its other variables. --/
structure State (σ : Type) where
  env : Text → Option Text
  rest : σ

/-- A process that is started in a state, and what an asynchronous list starts. --/
inductive Event (σ : Type) where
  | process (s : State σ)
  | job (events : List (Event σ))

/-- What a command starts, and the state and the status in which the shell goes on, if it does. --/
structure Outcome (σ : Type) where
  events : List (Event σ)
  next : Option (State σ × Bool)

section
variable {P σ : Type}

def Outcome.andThen (o : Outcome σ) (f : State σ → Bool → Outcome σ) : Outcome σ :=
  match o.next with
  | none => o
  | some (s, ok) => ⟨o.events ++ (f s ok).events, (f s ok).next⟩

/-- An asynchronous list, if it starts something. --/
def job (events : List (Event σ)) : List (Event σ) := if events.isEmpty then [] else [.job events]

def runRest (exec : P → State σ → Outcome σ) : List (Connector × P) → State σ → Bool → Outcome σ
  | [], s, ok => ⟨[], some (s, ok)⟩
  | (c, p) :: rest, s, ok => if c.goesOn ok then (exec p s).andThen (runRest exec rest) else runRest exec rest s ok

def runAndOr (exec : P → State σ → Outcome σ) (a : AndOr P) (s : State σ) : Outcome σ :=
  (exec a.first s).andThen (runRest exec a.rest)

def runScript (exec : P → State σ → Outcome σ) : Script P → State σ → Bool → Outcome σ
  | [], s, ok => ⟨[], some (s, ok)⟩
  | (a, .seq) :: rest, s, _ => (runAndOr exec a s).andThen (runScript exec rest)
  | (a, .async) :: rest, s, _ =>
    ⟨job (runAndOr exec a s).events ++ (runScript exec rest s true).events, (runScript exec rest s true).next⟩

namespace State

def assign (assignments : List (Text × Text)) (s : State σ) : State σ :=
  assignments.foldl (fun s a => { s with env := fun k => if k = a.1 then some a.2 else s.env k }) s

/-- The variables of `names` as they were in `s`. --/
def restore (names : List Text) (s t : State σ) : State σ :=
  { t with env := fun k => if k ∈ names then s.env k else t.env k }

end State

/-- A built-in that is not special: the assignments before it hold while it runs. --/
def builtin (effect : State σ → Option (State σ)) (assignments : List (Text × Text)) (s : State σ) : Outcome σ :=
  match effect (s.assign assignments) with
  | none => ⟨[], some (s, false)⟩
  | some t => ⟨[], some (s.restore (assignments.map Prod.fst) t, true)⟩

end

/-! ### A simple command before a script -/

/-- The pipelines of a script that was put together: simple commands of the writer, and what was there. --/
inductive Pipeline (P : Type) where
  | simple (c : SimpleCommand)
  | other (p : P)
  deriving DecidableEq, Repr

inductive ReadsPipeline {P : Type} (S : Syntax P) : List Token → Pipeline P → Prop
  | simple {ws c} (h : simpleCommand ws = some c) (hne : c.argv ≠ []) : ReadsPipeline S (ws.map .word) (.simple c)
  | other {ts p} (h : S.pipeline ts p) : ReadsPipeline S ts (.other p)

def AndOr.map {P Q : Type} (f : P → Q) (a : AndOr P) : AndOr Q := ⟨f a.first, a.rest.map (Prod.map id f)⟩

def Script.map {P Q : Type} (f : P → Q) (script : Script P) : Script Q := List.map (Prod.map (AndOr.map f) id) script

/-- The script of the text `c && script`. --/
def Script.guard {P : Type} (c : SimpleCommand) : Script P → Script (Pipeline P)
  | [] => []
  | (a, sep) :: rest =>
    (⟨.simple c, (.and, .other a.first) :: a.rest.map (Prod.map id .other)⟩, sep) :: Script.map .other rest

section
variable {P : Type} {S : Syntax P} {ts us : List Token} {a : AndOr P} {script : Script P} {c : SimpleCommand}

theorem readsAndOr_map (h : ReadsAndOr S.pipeline ts a) : ReadsAndOr (ReadsPipeline S) ts (a.map .other) := by
  induction h with
  | one h => exact .one (.other h)
  | more c n _ hq ih =>
    have hmore := ReadsAndOr.more c n ih (.other hq)
    simpa [AndOr.map] using hmore

theorem readsList_map (h : ReadsList S.pipeline ts script) : ReadsList (ReadsPipeline S) ts (Script.map .other script) := by
  induction h with
  | last h => exact .last (readsAndOr_map h)
  | ended h hsep => exact .ended (readsAndOr_map h) hsep
  | more h hsep _ ih => exact .more (readsAndOr_map h) hsep ih

theorem readsAndOr_guard (hc : ReadsPipeline S us (.simple c)) (n : Nat) (h : ReadsAndOr S.pipeline ts a) :
    ReadsAndOr (ReadsPipeline S) (us ++ .andIf :: (newlines n ++ ts))
      ⟨.simple c, (.and, .other a.first) :: a.rest.map (Prod.map id .other)⟩ := by
  induction h with
  | one h => exact .more .and n (.one hc) (.other h)
  | more c' m _ hq ih =>
    have hmore := ReadsAndOr.more c' m ih (.other hq)
    simpa using hmore

/-- `&&` binds the command before it to the first list of the script, and to nothing after that list. --/
theorem readsProgram_guard (hc : ReadsPipeline S us (.simple c)) (h : ReadsProgram S.pipeline ts script) :
    ReadsProgram (ReadsPipeline S) (us ++ .andIf :: ts) (Script.guard c script) := by
  obtain ⟨n, h⟩ := h
  refine ReadsProgram.mk 0 ?_
  cases h with
  | last h => exact .last (readsAndOr_guard hc n h)
  | ended h hsep => simpa [Script.guard, Script.map] using ReadsList.ended (readsAndOr_guard hc n h) hsep
  | more h hsep hrest => simpa [Script.guard] using ReadsList.more (readsAndOr_guard hc n h) hsep (readsList_map hrest)

end

/-! ### What such a script starts -/

section
variable {P σ : Type}

def execPipeline (simple : SimpleCommand → State σ → Outcome σ) (exec : P → State σ → Outcome σ) :
    Pipeline P → State σ → Outcome σ
  | .simple c => simple c
  | .other p => exec p

/-- The guard is the only thing between the script and the state that the guard is for: the shell has the variables of
    the guard already, and a guard that fails or that runs in a job leaves nothing of the script outside its list. --/
def GuardHolds (effect : State σ → Option (State σ)) (assignments : List (Text × Text)) (script : Script P)
    (s : State σ) : Prop :=
  match effect (s.assign assignments) with
  | none => ∃ a sep, script = [(a, sep)] ∧ ∀ x ∈ a.rest, x.1 = .and
  | some t => s.assign assignments = s ∧ (s = t.assign assignments ∨ ∀ a rest, script = (a, .async) :: rest → rest = [])

/-- What the script starts after the effect of the guard, with the variables of the guard set. --/
def eventsInside (effect : State σ → Option (State σ)) (assignments : List (Text × Text))
    (exec : P → State σ → Outcome σ) (script : Script P) (s : State σ) : List (Event σ) :=
  match effect (s.assign assignments) with
  | none => []
  | some t => (runScript exec script (t.assign assignments) true).events

variable {simple : SimpleCommand → State σ → Outcome σ} {exec : P → State σ → Outcome σ} {s t : State σ} {ok : Bool}

@[simp] theorem andThen_nil {f : State σ → Bool → Outcome σ} : Outcome.andThen ⟨[], some (s, ok)⟩ f = f s ok := rfl

theorem assign_env : ∀ (assignments : List (Text × Text)) (s t : State σ) (k : Text),
    (k ∈ assignments.map Prod.fst ∧ (s.assign assignments).env k = (t.assign assignments).env k) ∨
      (k ∉ assignments.map Prod.fst ∧ (s.assign assignments).env k = s.env k ∧ (t.assign assignments).env k = t.env k)
  | [], _, _, _ => .inr ⟨by simp, rfl, rfl⟩
  | a :: assignments, s, t, k => by
    let put (u : State σ) : State σ := { u with env := fun k => if k = a.1 then some a.2 else u.env k }
    have hput : ∀ u : State σ, u.assign (a :: assignments) = (put u).assign assignments := fun _ => rfl
    rw [hput, hput]
    rcases assign_env assignments (put s) (put t) k with ⟨hk, heq⟩ | ⟨hk, hs, ht⟩
    · exact .inl ⟨by simp [hk], heq⟩
    · by_cases hka : k = a.1
      · exact .inl ⟨by simp [hka], by rw [hs, ht]; simp [put, hka]⟩
      · exact .inr ⟨by simp [hka, hk], by simp [hs, put, hka], by simp [ht, put, hka]⟩

theorem assign_rest (assignments : List (Text × Text)) : ∀ s : State σ, (s.assign assignments).rest = s.rest := by
  induction assignments with
  | nil => exact fun _ => rfl
  | cons a assignments ih => exact fun s => ih _

/-- Assignments that a command had before it are still there exactly when they were there before it. --/
theorem restore_eq_iff {assignments : List (Text × Text)} :
    s.restore (assignments.map Prod.fst) t = t.assign assignments ↔ s.assign assignments = s := by
  constructor
  · intro h
    have henv : (s.assign assignments).env = s.env := funext fun k => by
      rcases assign_env assignments s t k with ⟨hk, heq⟩ | ⟨-, hs, -⟩
      · have hkept := congrArg (fun u => u.env k) h
        rw [heq, ← hkept]
        simp only [State.restore, if_pos hk]
      · exact hs
    exact congrArg₂ State.mk henv (assign_rest assignments s)
  · intro h
    have henv : (s.restore (assignments.map Prod.fst) t).env = (t.assign assignments).env := funext fun k => by
      rcases assign_env assignments s t k with ⟨hk, heq⟩ | ⟨hk, -, ht⟩
      · simp only [State.restore, if_pos hk]
        rw [← heq, h]
      · simp only [State.restore, if_neg hk]
        exact ht.symm
    exact congrArg₂ State.mk henv (assign_rest assignments t).symm

theorem runRest_map (rest : List (Connector × P)) (s : State σ) (ok : Bool) :
    runRest (execPipeline simple exec) (rest.map (Prod.map id .other)) s ok = runRest exec rest s ok := by
  induction rest generalizing s ok with
  | nil => rfl
  | cons x rest ih =>
    have hfun : runRest (execPipeline simple exec) (rest.map (Prod.map id .other)) = runRest exec rest :=
      funext fun s => funext fun ok => ih s ok
    simp only [List.map_cons, runRest, Prod.map_fst, id_eq, Prod.map_snd, hfun]
    rfl

theorem runAndOr_map (a : AndOr P) (s : State σ) :
    runAndOr (execPipeline simple exec) (a.map .other) s = runAndOr exec a s := by
  have hfun : runRest (execPipeline simple exec) (a.rest.map (Prod.map id .other)) = runRest exec a.rest :=
    funext fun s => funext fun ok => runRest_map a.rest s ok
  exact congrArg (Outcome.andThen (exec a.first s)) hfun

theorem runScript_map (script : Script P) (s : State σ) (ok : Bool) :
    runScript (execPipeline simple exec) (Script.map .other script) s ok = runScript exec script s ok := by
  induction script generalizing s ok with
  | nil => rfl
  | cons x rest ih =>
    obtain ⟨a, sep⟩ := x
    have hrest : runScript (execPipeline simple exec) (Script.map .other rest) = runScript exec rest :=
      funext fun s => funext fun ok => ih s ok
    have hand : runAndOr (execPipeline simple exec) (a.map .other) s = runAndOr exec a s := runAndOr_map a s
    cases sep with
    | seq => exact congrArg₂ Outcome.andThen hand hrest
    | async =>
      simp only [Script.map, List.map_cons, Prod.map, id_eq, runScript, hand]
      exact congrArg (fun f => (⟨job (runAndOr exec a s).events ++ (f s true).events, (f s true).next⟩ : Outcome σ)) hrest

/-- A script after its guard has run. --/
theorem runScript_guard {c : SimpleCommand} (hc : simple c s = ⟨[], some (t, ok)⟩) (a : AndOr P) (sep : Separator)
    (rest : Script P) (status : Bool) :
    (runScript (execPipeline simple exec) (Script.guard c ((a, sep) :: rest)) s status).events =
      match sep with
      | .seq => ((runRest exec ((.and, a.first) :: a.rest) t ok).andThen (runScript exec rest)).events
      | .async => job (runRest exec ((.and, a.first) :: a.rest) t ok).events ++ (runScript exec rest s true).events := by
  have hrest : runScript (execPipeline simple exec) (Script.map .other rest) = runScript exec rest :=
    funext fun s => funext fun ok => runScript_map rest s ok
  have hfirst : runAndOr (execPipeline simple exec)
      ⟨.simple c, (.and, .other a.first) :: a.rest.map (Prod.map id .other)⟩ s =
      runRest exec ((.and, a.first) :: a.rest) t ok := by
    show (simple c s).andThen (runRest (execPipeline simple exec) (((.and, a.first) :: a.rest).map (Prod.map id Pipeline.other))) = _
    rw [hc, andThen_nil, runRest_map]
  cases sep with
  | seq => exact congrArg Outcome.events (congrArg₂ Outcome.andThen hfirst hrest)
  | async =>
    show job (runAndOr _ _ s).events ++ (runScript _ (Script.map Pipeline.other rest) s true).events = _
    rw [hfirst, hrest]

/-- After a status that is not zero, a list of `&&` runs nothing. --/
theorem runRest_failed : ∀ {rest : List (Connector × P)}, (∀ x ∈ rest, x.1 = .and) →
    runRest exec rest s false = ⟨[], some (s, false)⟩
  | [], _ => rfl
  | (c, p) :: rest, h => by
    obtain ⟨hc, hrest⟩ := List.forall_mem_cons.mp h
    obtain rfl : c = .and := hc
    show runRest exec rest s false = _
    exact runRest_failed hrest

/-! A pipeline that starts one process and goes on shows where a script runs. -/

/-- Start a process. --/
def emit (_ : P) (s : State σ) : Outcome σ := ⟨[.process s], some (s, true)⟩

theorem runRest_emit (s : State σ) : ∀ (rest : List (Connector × P)) (ok : Bool), ∃ ok', (runRest emit rest s ok).next = some (s, ok')
  | [], ok => ⟨ok, rfl⟩
  | (c, p) :: rest, ok => by
    unfold runRest
    split
    · exact runRest_emit s rest true
    · exact runRest_emit s rest ok

theorem runAndOr_emit (a : AndOr P) (s : State σ) : ∃ events ok,
    runAndOr emit a s = ⟨.process s :: events, some (s, ok)⟩ := by
  obtain ⟨ok, hok⟩ := runRest_emit s a.rest true
  exact ⟨(runRest emit a.rest s true).events, ok, by rw [← hok]; rfl⟩

/-- The first event of a script tells the state in which it began. --/
theorem runScript_emit_inj {a : AndOr P} {sep : Separator} {rest : Script P} {ok : Bool}
    (h : (runScript emit ((a, sep) :: rest) s ok).events = (runScript emit ((a, sep) :: rest) t ok).events) : s = t := by
  obtain ⟨events, _, hs⟩ := runAndOr_emit a s
  obtain ⟨events', _, ht⟩ := runAndOr_emit a t
  cases sep with
  | seq =>
    simp only [runScript, hs, ht, Outcome.andThen, List.cons_append, List.cons.injEq, Event.process.injEq] at h
    exact h.1
  | async =>
    simp only [runScript, hs, ht, job, List.isEmpty_cons, Bool.false_eq_true, if_false, List.cons_append, List.nil_append,
      List.cons.injEq, Event.job.injEq, Event.process.injEq] at h
    exact h.1.1

theorem runScript_emit_ne_nil {a : AndOr P} {sep : Separator} {rest : Script P} {ok : Bool} :
    (runScript emit ((a, sep) :: rest) s ok).events ≠ [] := by
  obtain ⟨events, _, hs⟩ := runAndOr_emit a s
  cases sep with
  | seq => simp [runScript, hs, Outcome.andThen]
  | async => simp [runScript, hs, job]

theorem forall_and_of_emit : ∀ {rest : List (Connector × P)}, (runRest emit rest s false).events = [] → ∀ x ∈ rest, x.1 = .and
  | [], _ => by simp
  | (c, p) :: rest, h => by
    cases c with
    | and => exact List.forall_mem_cons.mpr ⟨rfl, forall_and_of_emit h⟩
    | or =>
      simp [runRest, Connector.goesOn, emit, Outcome.andThen] at h

theorem guard_failed_iff {a : AndOr P} {sep : Separator} {rest : Script P} {simple : SimpleCommand → State σ → Outcome σ}
    {c : SimpleCommand} (hc : simple c s = ⟨[], some (s, false)⟩) :
    (∀ exec : P → State σ → Outcome σ,
      (runScript (execPipeline simple exec) (Script.guard c ((a, sep) :: rest)) s true).events = []) ↔
    ∃ a' sep', (a, sep) :: rest = [(a', sep')] ∧ ∀ x ∈ a'.rest, x.1 = .and := by
  constructor
  · intro h
    have hemit := h emit
    rw [runScript_guard hc] at hemit
    obtain ⟨ok, hok⟩ := runRest_emit s a.rest false
    obtain ⟨hnone, ok', hrest⟩ : (runRest emit a.rest s false).events = [] ∧ ∃ ok, (runScript emit rest s ok).events = [] := by
      cases sep with
      | seq =>
        have hsplit : (runRest emit a.rest s false).events ++ (runScript emit rest s ok).events = [] := by
          simpa [Outcome.andThen, runRest, Connector.goesOn, hok] using hemit
        exact (List.append_eq_nil_iff.mp hsplit).imp_right fun h => ⟨ok, h⟩
      | async =>
        have hsplit : job (runRest emit a.rest s false).events ++ (runScript emit rest s true).events = [] := hemit
        obtain ⟨hjob, hrest⟩ := List.append_eq_nil_iff.mp hsplit
        exact ⟨by simpa [job] using hjob, true, hrest⟩
    have hempty : rest = [] := by
      cases rest with
      | nil => rfl
      | cons x rest => exact absurd hrest runScript_emit_ne_nil
    exact ⟨a, sep, by rw [hempty], forall_and_of_emit hnone⟩
  · rintro ⟨a', sep', heq, hand⟩ exec
    obtain ⟨⟨rfl, rfl⟩, rfl⟩ : (a = a' ∧ sep = sep') ∧ rest = [] := by simpa using heq
    have hrest : runRest exec ((.and, a.first) :: a.rest) s false = ⟨[], some (s, false)⟩ :=
      runRest_failed (List.forall_mem_cons.mpr ⟨rfl, hand⟩)
    rw [runScript_guard hc]
    cases sep with
    | seq => simp [hrest, runScript]
    | async => simp [hrest, runScript, job]

theorem guard_passed_iff {a : AndOr P} {sep : Separator} {rest : Script P} {simple : SimpleCommand → State σ → Outcome σ}
    {c : SimpleCommand} {u : State σ} (hc : simple c s = ⟨[], some (u, true)⟩) :
    (∀ exec : P → State σ → Outcome σ,
      (runScript (execPipeline simple exec) (Script.guard c ((a, sep) :: rest)) s true).events =
        (runScript exec ((a, sep) :: rest) t true).events) ↔
    u = t ∧ (s = t ∨ ∀ a' rest', (a, sep) :: rest = (a', .async) :: rest' → rest' = []) := by
  cases sep with
  | seq =>
    have hguard : ∀ exec : P → State σ → Outcome σ,
        (runScript (execPipeline simple exec) (Script.guard c ((a, .seq) :: rest)) s true).events =
          (runScript exec ((a, .seq) :: rest) u true).events := fun exec => runScript_guard hc a .seq rest true
    refine ⟨fun h => ⟨runScript_emit_inj ((hguard emit).symm.trans (h emit)), .inr (by simp)⟩, ?_⟩
    rintro ⟨rfl, -⟩ exec
    exact hguard exec
  | async =>
    have hguard : ∀ exec : P → State σ → Outcome σ,
        (runScript (execPipeline simple exec) (Script.guard c ((a, .async) :: rest)) s true).events =
          job (runAndOr exec a u).events ++ (runScript exec rest s true).events := fun exec =>
      runScript_guard hc a .async rest true
    constructor
    · intro h
      have hemit : job (runAndOr emit a u).events ++ (runScript emit rest s true).events =
          job (runAndOr emit a t).events ++ (runScript emit rest t true).events := (hguard emit).symm.trans (h emit)
      obtain ⟨events, _, hu⟩ := runAndOr_emit a u
      obtain ⟨events', _, ht⟩ := runAndOr_emit a t
      simp only [hu, ht, job, List.isEmpty_cons, Bool.false_eq_true, if_false, List.cons_append, List.nil_append,
        List.cons.injEq, Event.job.injEq, Event.process.injEq] at hemit
      refine ⟨hemit.1.1, ?_⟩
      cases rest with
      | nil => exact .inr fun a' rest' heq => (List.cons.inj heq).2.symm
      | cons x rest => exact .inl (runScript_emit_inj hemit.2)
    · rintro ⟨rfl, hrest⟩ exec
      rw [hguard]
      rcases hrest with rfl | hrest
      · rfl
      · obtain rfl := hrest a rest rfl
        rfl

/-- A built-in with assignments before it guards a script exactly when `GuardHolds`, whatever the pipelines do. --/
theorem guard_iff {effect : State σ → Option (State σ)} {assignments : List (Text × Text)} {argv : List Text}
    {script : Script P} (hne : script ≠ []) :
    (∀ exec : P → State σ → Outcome σ,
      (runScript (execPipeline (fun c => builtin effect c.assignments) exec) (Script.guard ⟨assignments, argv⟩ script) s
        true).events = eventsInside effect assignments exec script s) ↔
    GuardHolds effect assignments script s := by
  obtain ⟨⟨a, sep⟩, rest, rfl⟩ := List.exists_cons_of_ne_nil hne
  unfold eventsInside GuardHolds
  cases he : effect (s.assign assignments) with
  | none => exact guard_failed_iff (by simp only [builtin, he])
  | some t =>
    dsimp only
    rw [← restore_eq_iff]
    exact guard_passed_iff (by simp only [builtin, he])

end
end Shell
