import Mathlib.Algebra.GroupWithZero.Nat
import NodeVmm.Lib.Shell

/-! Scripts of simple commands: what a POSIX shell reads of a text with comments, quoted words and newlines, and what it does
    when it sources such a text. A text with anything else is not read. -/

namespace Shell

/-! ### Comments -/

/-- The text without its comments. A comment begins with `#` where a token may begin and goes up to the end of the line;
    `none` is the place inside one, and `begun` says that a word has begun. --/
def uncommentFrom : Option Place → Bool → Text → Text
  | _, _, [] => []
  | none, _, c :: s => if c = '\n' then c :: uncommentFrom (some .plain) false s else uncommentFrom none false s
  | some .plain, begun, c :: s =>
    if c = '#' ∧ begun = false then uncommentFrom none false s
    else if c = '\'' then c :: uncommentFrom (some .single) true s
    else if c = '\\' then c :: uncommentFrom (some .escaped) true s
    else c :: uncommentFrom (some .plain) (ordinary c) s
  | some .single, _, c :: s => c :: uncommentFrom (some (if c = '\'' then .plain else .single)) true s
  | some _, _, c :: s => c :: uncommentFrom (some .plain) true s

/-! ### Commands -/

/-- The words of a line before the commands of the lines after it. --/
def closeLine (words : List Text) (rest : List SimpleCommand) : Option (List SimpleCommand) :=
  if words = [] then some rest else (simpleCommand words).map (· :: rest)

/-- The commands of tokens that are words and newlines; `words` are those of the line so far. --/
def commandsFrom : List Text → List Token → Option (List SimpleCommand)
  | words, [] => closeLine words []
  | words, .word w :: ts => commandsFrom (words ++ [w]) ts
  | words, .newline :: ts => (commandsFrom [] ts).bind (closeLine words)
  | _, _ :: _ => none

def commands (text : Text) : Option (List SimpleCommand) :=
  (tokens (uncommentFrom (some .plain) false text)).bind (commandsFrom [])

/-! ### Sourcing -/

section
variable {σ : Type}

/-- An argument of `export`: the name and the value. --/
def exportArgument (word : Text) : Option (Text × Text) :=
  let name := word.takeWhile (· ≠ '=')
  if isName name && (word.drop name.length).head? = some '=' then some (name, word.drop (name.length + 1)) else none

/-- `export` with assignments exports them. Without it, and when `export` has other arguments, `other` says what is done. --/
def runCommand (other : SimpleCommand → State σ → Outcome σ) (c : SimpleCommand) (s : State σ) : Outcome σ :=
  match c.assignments, c.argv with
  | [], word :: args =>
    if word = "export".toList then
      match args.mapM exportArgument with
      | some pairs => ⟨[], some (s.assign pairs, true)⟩
      | none => other c s
    else other c s
  | _, _ => other c s

def runCommands (other : SimpleCommand → State σ → Outcome σ) : List SimpleCommand → State σ → Bool → Outcome σ
  | [], s, ok => ⟨[], some (s, ok)⟩
  | c :: rest, s, _ => (runCommand other c s).andThen (runCommands other rest)

/-- `. file` in a shell that is in `s`, for a file with this text. --/
def source (other : SimpleCommand → State σ → Outcome σ) (text : Text) (s : State σ) : Option (Outcome σ) :=
  (commands text).map fun cs => runCommands other cs s true

end

/-! ### Words and lines -/

section
variable {s t w v : Text} {q : Place} {word : Option Text} {words : List Text} {ts : List Token}

/-- A word is no comment. --/
theorem uncommentFrom_word : ∀ {w v : Text} {q : Place} {begun : Bool}, unquoteFrom q w = some v → w ≠ [] ∨ begun = true →
    uncommentFrom (some q) begun (w ++ s) = w ++ uncommentFrom (some .plain) true s
  | [], v, q, begun, hw, hne => by
    obtain rfl := hne.resolve_left (· rfl)
    cases q with
    | plain => rfl
    | _ => cases hw
  | c :: w, v, q, begun, hw, _ => by
    cases q with
    | plain =>
      rw [unquoteFrom] at hw
      rw [List.cons_append, uncommentFrom, List.cons_append]
      have hash : ¬(c = '#' ∧ begun = false) := by
        rintro ⟨rfl, -⟩
        cases hw
      rw [if_neg hash]
      split_ifs at hw ⊢ with hquote hback hordinary
      · rw [uncommentFrom_word hw (.inr rfl)]
      · rw [uncommentFrom_word hw (.inr rfl)]
      · obtain ⟨v', hv', -⟩ := Option.map_eq_some_iff.mp hw
        rw [hordinary, uncommentFrom_word hv' (.inr rfl)]
    | escaped =>
      rw [unquoteFrom] at hw
      split_ifs at hw
      obtain ⟨v', hv', -⟩ := Option.map_eq_some_iff.mp hw
      rw [List.cons_append, uncommentFrom, List.cons_append, uncommentFrom_word hv' (.inr rfl)]
      all_goals rintro ⟨⟩
    | single =>
      rw [unquoteFrom] at hw
      rw [List.cons_append, uncommentFrom, List.cons_append]
      split_ifs at hw ⊢
      · rw [uncommentFrom_word hw (.inr rfl)]
      · obtain ⟨v', hv', -⟩ := Option.map_eq_some_iff.mp hw
        rw [uncommentFrom_word hv' (.inr rfl)]
    | operator => cases hw

/-- A line that is a comment. --/
theorem uncommentFrom_comment (hs : '\n' ∉ s) :
    uncommentFrom (some .plain) false ('#' :: (s ++ '\n' :: t)) = '\n' :: uncommentFrom (some .plain) false t := by
  have hinside : ∀ {s : Text}, '\n' ∉ s → uncommentFrom none false (s ++ '\n' :: t) =
      '\n' :: uncommentFrom (some .plain) false t := by
    intro s
    induction s with
    | nil => exact fun _ => rfl
    | cons c s ih =>
      intro hs
      obtain ⟨hc, hs⟩ := not_or.mp (mt List.mem_cons.mpr hs)
      rw [List.cons_append, uncommentFrom, if_neg (Ne.symm hc), ih hs]
  rw [uncommentFrom, if_pos ⟨rfl, rfl⟩, hinside hs]

theorem uncommentFrom_blank {begun : Bool} {c : Char} (hc : c = ' ' ∨ c = '\n') :
    uncommentFrom (some .plain) begun (c :: s) = c :: uncommentFrom (some .plain) false s := by
  rcases hc with rfl | rfl <;> rfl

/-- The words of a line. --/
theorem commandsFrom_words : ∀ {line words : List Text},
    commandsFrom words (line.map .word ++ ts) = commandsFrom (words ++ line) ts
  | [], words => by rw [List.append_nil]; rfl
  | w :: line, words => by
    rw [List.map_cons, List.cons_append, commandsFrom, commandsFrom_words, List.append_assoc]
    rfl

/-- Words with a blank between them are a line without comments. --/
theorem uncommentFrom_join : ∀ {words : List Text}, words ≠ [] → (∀ w ∈ words, isWord w = true) →
    uncommentFrom (some .plain) false (Text.join ' ' words ++ s) = Text.join ' ' words ++ uncommentFrom (some .plain) true s
  | [w], _, h => by
    obtain ⟨hne, v, hv⟩ := isWord_iff.mp (h w List.mem_cons_self)
    simpa [Text.join] using uncommentFrom_word hv (.inl hne)
  | w :: x :: words, _, h => by
    obtain ⟨hw, hwords⟩ := List.forall_mem_cons.mp h
    obtain ⟨hne, v, hv⟩ := isWord_iff.mp hw
    have hjoin : Text.join ' ' (w :: x :: words) = w ++ ' ' :: Text.join ' ' (x :: words) := by simp [Text.join]
    rw [hjoin, List.append_assoc, List.append_assoc, uncommentFrom_word hv (.inl hne), List.cons_append,
      uncommentFrom_blank (.inl rfl), uncommentFrom_join (List.cons_ne_nil x words) hwords]
    rfl

theorem tokensFrom_join : ∀ {words : List Text} (hne : words ≠ []), (∀ w ∈ words, isWord w = true) →
    tokensFrom .plain none (Text.join ' ' words ++ s) =
      (tokensFrom .plain (some (words.getLast hne)) s).map (words.dropLast.map .word ++ ·)
  | [w], _, h => by
    obtain ⟨hne, v, hv⟩ := isWord_iff.mp (h w List.mem_cons_self)
    have hword : tokensFrom .plain none (w ++ s) = tokensFrom .plain (some w) s := tokensFrom_append hv (.inl hne)
    simp [Text.join, hword]
  | w :: x :: words, _, h => by
    obtain ⟨hw, hwords⟩ := List.forall_mem_cons.mp h
    obtain ⟨hne, v, hv⟩ := isWord_iff.mp hw
    have hjoin : Text.join ' ' (w :: x :: words) = w ++ ' ' :: Text.join ' ' (x :: words) := by simp [Text.join]
    rw [hjoin, List.append_assoc, List.cons_append, tokensFrom_word hv (.inl hne),
      tokensFrom_join (List.cons_ne_nil x words) hwords, Option.map_map]
    rfl

/-- A line of words is the command of these words, before the commands of the lines after it. --/
theorem commands_line {c : SimpleCommand} (hne : words ≠ []) (hwords : ∀ w ∈ words, isWord w = true)
    (hc : simpleCommand words = some c) : commands (Text.join ' ' words ++ '\n' :: s) = (commands s).map (c :: ·) := by
  have hend : ∀ w : Text, tokensFrom .plain (some w) ('\n' :: uncommentFrom (some .plain) false s) =
      (tokens (uncommentFrom (some .plain) false s)).map fun ts => .word w :: .newline :: ts := fun w => by
    simp [tokensFrom, tokens, flush]
  have htokens : tokens (uncommentFrom (some .plain) false (Text.join ' ' words ++ '\n' :: s)) =
      (tokens (uncommentFrom (some .plain) false s)).map (words.map .word ++ .newline :: ·) := by
    rw [tokens, uncommentFrom_join hne hwords, uncommentFrom_blank (.inr rfl), tokensFrom_join hne hwords, hend,
      Option.map_map]
    refine congrArg (Option.map · _) (funext fun ts => ?_)
    have hlast : words.dropLast.map Token.word ++ [.word (words.getLast hne)] = words.map .word := by
      rw [← List.map_singleton, ← List.map_append, List.dropLast_append_getLast hne]
    rw [← hlast, List.append_assoc]
    rfl
  rw [commands, htokens, commands]
  cases tokens (uncommentFrom (some .plain) false s) with
  | none => rfl
  | some ts =>
    show commandsFrom [] (words.map .word ++ .newline :: ts) = (commandsFrom [] ts).map (c :: ·)
    rw [commandsFrom_words, List.nil_append, commandsFrom]
    cases commandsFrom [] ts with
    | none => rfl
    | some rest =>
      show closeLine words rest = some (c :: rest)
      rw [closeLine, if_neg hne, hc]
      rfl

/-- The same at the end of the text. --/
theorem commands_words {c : SimpleCommand} (hne : words ≠ []) (hwords : ∀ w ∈ words, isWord w = true)
    (hc : simpleCommand words = some c) : commands (Text.join ' ' words) = some [c] := by
  have htext := uncommentFrom_join (s := []) hne hwords
  have htokens := tokensFrom_join (s := []) hne hwords
  rw [List.append_nil] at htext htokens
  have hlast : words.dropLast.map Token.word ++ [.word (words.getLast hne)] = words.map .word := by
    rw [← List.map_singleton, ← List.map_append, List.dropLast_append_getLast hne]
  have hwords : tokens (Text.join ' ' words) = some (words.map .word) := by
    rw [tokens, htokens, ← hlast]
    simp [tokensFrom, flush]
  have hnil : uncommentFrom (some .plain) true [] = [] := rfl
  have hcommand : commandsFrom [] (words.map .word) = some [c] := by
    have hline := @commandsFrom_words [] words []
    rw [List.append_nil, List.nil_append, commandsFrom, closeLine, if_neg hne, hc] at hline
    exact hline
  rw [commands, htext, hnil, List.append_nil, hwords]
  exact hcommand

/-- A line with a comment is no command. --/
theorem commands_comment (hs : '\n' ∉ s) : commands ('#' :: (s ++ '\n' :: t)) = commands t := by
  have hnewline : ∀ u : Text, tokensFrom .plain none ('\n' :: u) = (tokensFrom .plain none u).map (.newline :: ·) := by
    simp [tokensFrom, flush]
  rw [commands, uncommentFrom_comment hs, tokens, hnewline, commands, tokens]
  cases tokensFrom .plain none (uncommentFrom (some .plain) false t) with
  | none => rfl
  | some ts =>
    show (commandsFrom [] ts).bind (closeLine []) = commandsFrom [] ts
    cases commandsFrom [] ts <;> rfl

/-! ### Literal words -/

/-- A text that is a command of one word, which is the text itself. --/
def isLiteral (text : Text) : Bool :=
  text ≠ [] && text.all ordinary && (assignment text).isNone && !reserved.contains text

/-- The room of words in a text, with a character after each. --/
def room (words : List Text) : Nat := (words.map fun w => w.length + 1).sum

@[simp] theorem room_nil : room [] = 0 := rfl

@[simp] theorem room_cons : room (w :: words) = w.length + 1 + room words := by simp [room]

@[simp] theorem room_append {line : List Text} : room (words ++ line) = room words + room line := by simp [room]

def Token.word? : Token → Option Text
  | .word w => some w
  | _ => none

theorem uncommentFrom_length (q : Option Place) (begun : Bool) (s : Text) : (uncommentFrom q begun s).length ≤ s.length := by
  fun_induction uncommentFrom q begun s <;> simp_all <;> omega

/-- Quotes take room. --/
theorem unquoteFrom_length : ∀ {w v : Text} {q : Place}, unquoteFrom q w = some v → v.length ≤ w.length
  | [], v, q, h => by
    cases q with
    | plain =>
      cases h
      rfl
    | _ => cases h
  | c :: w, v, q, h => by
    have hskip : ∀ {q'}, unquoteFrom q' w = some v → v.length ≤ (c :: w).length := fun h =>
      (unquoteFrom_length h).trans (Nat.le_succ _)
    have htake : ∀ {q'}, (unquoteFrom q' w).map (c :: ·) = some v → v.length ≤ (c :: w).length := fun h => by
      obtain ⟨v', hv', rfl⟩ := Option.map_eq_some_iff.mp h
      exact Nat.succ_le_succ (unquoteFrom_length hv')
    cases q with
    | plain =>
      rw [unquoteFrom] at h
      split_ifs at h
      · exact hskip h
      · exact hskip h
      · exact htake h
    | escaped =>
      rw [unquoteFrom] at h
      split_ifs at h
      exact htake h
    | single =>
      rw [unquoteFrom] at h
      split_ifs at h
      · exact hskip h
      · exact htake h
    | operator => cases h

/-- A word that is as long as its text has no quotes. --/
theorem eq_of_unquote : ∀ {w v : Text}, unquote w = some v → w.length ≤ v.length → v = w ∧ w.all ordinary = true
  | [], v, h, _ => by
    cases h
    exact ⟨rfl, rfl⟩
  | c :: w, v, h, hle => by
    have hquoted : ∀ {q}, unquoteFrom q w ≠ some v := fun hv => absurd (unquoteFrom_length hv) (Nat.not_le.mpr hle)
    rw [unquote, unquoteFrom] at h
    split_ifs at h with hquote hback hordinary
    · exact absurd h hquoted
    · exact absurd h hquoted
    · obtain ⟨v', hv', rfl⟩ := Option.map_eq_some_iff.mp h
      obtain ⟨rfl, hall⟩ := eq_of_unquote hv' (Nat.le_of_succ_le_succ hle)
      exact ⟨rfl, by simp [hordinary, hall]⟩

theorem room_flush : room ((flush word ts).filterMap Token.word?) =
    (word.map fun w => w.length + 1).getD 0 + room (ts.filterMap Token.word?) := by
  cases word <;> simp [flush, Token.word?]

/-- The words of a text have room in it, with a character between them. --/
theorem tokensFrom_room : ∀ {s : Text} {q : Place} {word : Option Text} {ts : List Token}, tokensFrom q word s = some ts →
    room (ts.filterMap Token.word?) ≤ (word.getD []).length + s.length + 1
  | [], q, word, ts, h => by
    cases q with
    | plain =>
      cases h
      rw [room_flush]
      cases word <;> simp
    | _ => cases h
  | c :: s, q, word, ts, h => by
    have htake : ∀ {q'}, tokensFrom q' (some (word.getD [] ++ [c])) s = some ts →
        room (ts.filterMap Token.word?) ≤ (word.getD []).length + (c :: s).length + 1 := fun h => by
      have hle := tokensFrom_room h
      simp only [Option.getD_some, List.length_append, List.length_cons, List.length_nil] at hle ⊢
      omega
    have hend : ∀ {q' us}, tokensFrom q' none s = some us → room (us.filterMap Token.word?) ≤ s.length + 1 := fun h => by
      simpa using tokensFrom_room h
    have hflush : ∀ {q'} {f : List Token → List Token}, (∀ us, (f us).filterMap Token.word? = us.filterMap Token.word?) →
        (tokensFrom q' none s).map (fun us => flush word (f us)) = some ts →
        room (ts.filterMap Token.word?) ≤ (word.getD []).length + (c :: s).length + 1 := fun hf h => by
      obtain ⟨us, hus, rfl⟩ := Option.map_eq_some_iff.mp h
      have hle := hend hus
      rw [room_flush, hf]
      cases word <;> simp only [Option.map_some, Option.map_none, Option.getD_some, Option.getD_none, List.length_nil,
        List.length_cons] <;> omega
    cases q with
    | plain =>
      rw [tokensFrom] at h
      split_ifs at h
      · exact htake h
      · exact htake h
      · exact htake h
      · exact hflush (f := id) (fun _ => rfl) h
      · exact hflush (f := (.newline :: ·)) (fun _ => rfl) h
      · exact hflush (f := (.semi :: ·)) (fun _ => rfl) h
      · exact hflush (f := (.andIf :: ·)) (fun _ => rfl) h
      · exact hflush (f := (.orIf :: ·)) (fun _ => rfl) h
      · exact hflush (f := (.amp :: ·)) (fun _ => rfl) h
    | escaped =>
      rw [tokensFrom] at h
      split_ifs at h
      exact htake h
    | single => exact htake h
    | operator =>
      have hle := tokensFrom_room (show tokensFrom .plain word s = some ts from h)
      simp only [List.length_cons]
      omega

/-- The words of a command are words of the line. --/
theorem commandsFrom_room : ∀ {ts : List Token} {words : List Text} {cs : List SimpleCommand},
    commandsFrom words ts = some cs → ∀ c ∈ cs, ∃ line, simpleCommand line = some c ∧ room line ≤ room words + room (ts.filterMap Token.word?)
  | [], words, cs, h, c, hc => by
    rw [commandsFrom, closeLine] at h
    split_ifs at h
    · cases h
      cases hc
    · obtain ⟨c', hc', rfl⟩ := Option.map_eq_some_iff.mp h
      rw [List.mem_singleton.mp hc]
      exact ⟨words, hc', Nat.le_add_right _ _⟩
  | .word w :: ts, words, cs, h, c, hc => by
    obtain ⟨line, hline, hroom⟩ := commandsFrom_room (show commandsFrom (words ++ [w]) ts = some cs from h) c hc
    refine ⟨line, hline, hroom.trans ?_⟩
    simp only [room_append, room_cons, room_nil, List.filterMap_cons, Token.word?]
    omega
  | .newline :: ts, words, cs, h, c, hc => by
    obtain ⟨rest, hrest, hcs⟩ := Option.bind_eq_some_iff.mp (show (commandsFrom [] ts).bind (closeLine words) = some cs from h)
    have hlater : c ∈ rest → ∃ line, simpleCommand line = some c ∧
        room line ≤ room words + room ((Token.newline :: ts).filterMap Token.word?) := fun hc => by
      obtain ⟨line, hline, hroom⟩ := commandsFrom_room hrest c hc
      refine ⟨line, hline, hroom.trans ?_⟩
      simp [List.filterMap_cons, Token.word?]
    rw [closeLine] at hcs
    split_ifs at hcs
    · cases hcs
      exact hlater hc
    · obtain ⟨c', hc', rfl⟩ := Option.map_eq_some_iff.mp hcs
      rcases List.mem_cons.mp hc with rfl | hc
      · exact ⟨words, hc', Nat.le_add_right _ _⟩
      · exact hlater hc
  | .andIf :: _, _, _, h, _, _ | .orIf :: _, _, _, h, _, _ | .semi :: _, _, _, h, _, _ | .amp :: _, _, _, h, _, _
  | .other _ :: _, _, _, h, _, _ => by cases h

theorem isLiteral_iff : isLiteral t = true ↔
    t ≠ [] ∧ (∀ c ∈ t, ordinary c = true) ∧ assignment t = none ∧ t ∉ reserved := by
  simp [isLiteral, and_assoc]

/-- The words of a command without assignments. --/
theorem simpleCommand_argv {line : List Text} (h : simpleCommand (w :: line) = some ⟨[], v :: words⟩) :
    assignment w = none ∧ w ∉ reserved ∧ unquote w = some v ∧ line.mapM unquote = some words := by
  rw [simpleCommand] at h
  cases hassignment : assignment w with
  | some a =>
    rw [hassignment] at h
    obtain ⟨c, -, hc⟩ := Option.map_eq_some_iff.mp h
    cases hc
  | none =>
    rw [hassignment] at h
    dsimp only at h
    split_ifs at h with hreserved
    obtain ⟨argv, hargv, hc⟩ := Option.map_eq_some_iff.mp h
    obtain rfl : argv = v :: words := congrArg SimpleCommand.argv hc
    rw [List.mapM_cons] at hargv
    obtain ⟨v', hv, hrest⟩ := Option.bind_eq_some_iff.mp hargv
    obtain ⟨vs, hvs, hcons⟩ := Option.bind_eq_some_iff.mp hrest
    obtain ⟨rfl, rfl⟩ : v' = v ∧ vs = words := by simpa using hcons
    exact ⟨rfl, hreserved, hv, hvs⟩

/-- A command of a text comes from a line that has room in it. --/
theorem line_of_commands {c : SimpleCommand} (h : commands t = some [c]) :
    ∃ line, simpleCommand line = some c ∧ room line ≤ t.length + 1 := by
  obtain ⟨ts, hts, hcs⟩ := Option.bind_eq_some_iff.mp h
  obtain ⟨line, hline, hroom⟩ := commandsFrom_room hcs _ List.mem_cons_self
  have htokens := tokensFrom_room hts
  have huncomment := uncommentFrom_length (some .plain) false t
  simp only [Option.getD_none, List.length_nil, room_nil] at htokens hroom
  exact ⟨line, hline, by omega⟩

theorem room_of_mapM_unquote : ∀ {line argv : List Text}, line.mapM unquote = some argv → room argv ≤ room line
  | [], argv, h => by
    have hnil : some [] = some argv := h
    cases hnil
    rfl
  | w :: line, argv, h => by
    rw [List.mapM_cons] at h
    obtain ⟨v, hv, hrest⟩ := Option.bind_eq_some_iff.mp h
    obtain ⟨vs, hvs, hcons⟩ := Option.bind_eq_some_iff.mp hrest
    obtain rfl : v :: vs = argv := by simpa using hcons
    have hroom := room_of_mapM_unquote hvs
    have hlength := unquoteFrom_length hv
    rw [room_cons, room_cons]
    omega

/-- The words of a command have room in its text. --/
theorem room_of_commands (h : commands t = some [⟨[], v :: words⟩]) : room (v :: words) ≤ t.length + 1 := by
  obtain ⟨line, hline, hroom⟩ := line_of_commands h
  cases line with
  | nil => cases hline
  | cons w line =>
    obtain ⟨-, -, hw, hwords⟩ := simpleCommand_argv hline
    have hrest := room_of_mapM_unquote hwords
    have hlength := unquoteFrom_length hw
    rw [room_cons] at hroom ⊢
    omega

/-- A text is read as a command whose first word is the text itself only if it is literal, and then there is no other word. --/
theorem commands_literal_iff : commands t = some [⟨[], t :: words⟩] ↔ isLiteral t = true ∧ words = [] := by
  constructor
  · intro h
    have hwords : words = [] := by
      have hroom := room_of_commands h
      cases words with
      | nil => rfl
      | cons x words =>
        rw [room_cons, room_cons] at hroom
        omega
    subst hwords
    obtain ⟨line, hline, hroom⟩ := line_of_commands h
    cases line with
    | nil => cases hline
    | cons w line =>
      obtain ⟨hassignment, hreserved, hw, -⟩ := simpleCommand_argv hline
      rw [room_cons] at hroom
      obtain ⟨rfl, hall⟩ := eq_of_unquote hw (by omega)
      have hne : t ≠ [] := by
        rintro rfl
        cases h
      exact ⟨isLiteral_iff.mpr ⟨hne, List.all_eq_true.mp hall, hassignment, hreserved⟩, rfl⟩
  · rintro ⟨hliteral, rfl⟩
    obtain ⟨hne, hall, hassignment, hreserved⟩ := isLiteral_iff.mp hliteral
    have hunquote : unquote t = some t := by
      have h := unquoteFrom_ordinary (t := []) hall
      rwa [List.append_nil, unquoteFrom, Option.map_some, List.append_nil] at h
    have hword : ∀ w ∈ [t], isWord w = true := by simp [isWord, hne, hunquote]
    have hcommand : simpleCommand [t] = some ⟨[], [t]⟩ := by
      rw [simpleCommand, hassignment]
      simp [hreserved, hunquote]
    simpa [Text.join] using commands_words (List.cons_ne_nil _ _) hword hcommand

/-! ### Exports -/

variable {σ : Type} {other : SimpleCommand → State σ → Outcome σ} {st : State σ} {ok : Bool}

theorem exportArgument_eq {name value : Text} (h : isName name = true) :
    exportArgument (name ++ '=' :: value) = some (name, value) := by
  have htake : (name ++ '=' :: value).takeWhile (· ≠ '=') = name := Text.takeWhile_ne_append (not_mem_of_isName h)
  have hdrop : (name ++ '=' :: value).drop (name.length + 1) = value := by
    rw [List.append_cons, List.drop_left' (by simp)]
  simp only [exportArgument, htake, List.drop_left, List.head?_cons, h, hdrop]
  rfl

/-- The command that exports a variable. --/
def exportCommand (e : Text × Text) : SimpleCommand := ⟨[], ["export".toList, e.1 ++ '=' :: e.2]⟩

/-- Exports set their variables and start nothing. --/
theorem runCommands_exports : ∀ {es : List (Text × Text)} {st : State σ} {ok : Bool}, (∀ e ∈ es, isName e.1 = true) →
    runCommands other (es.map exportCommand) st ok = ⟨[], some (st.assign es, ok || !es.isEmpty)⟩
  | [], st, ok, _ => by simp [runCommands, State.assign]
  | e :: es, st, ok, h => by
    obtain ⟨he, hes⟩ := List.forall_mem_cons.mp h
    have hone : runCommand other (exportCommand e) st = ⟨[], some (st.assign [e], true)⟩ := by
      simp [runCommand, exportCommand, exportArgument_eq he]
    rw [List.map_cons, runCommands, hone, Outcome.andThen]
    simp only [runCommands_exports hes, List.nil_append]
    simp [State.assign]

end
end Shell
