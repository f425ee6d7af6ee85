import NodeVmm.DockerfileWords
import NodeVmm.RootfsCache

/-! The words of an instruction against those of a shell, where a quote begins a word that may stay empty. `splitWords` flushes
    a word when its text is not empty, so it has the same words but for the empty ones. -/

namespace NodeVmm.Dockerfile

/-! ### The words of a shell -/

/-- A scan that knows whether a word has begun. --/
structure ShellScan where
  words : List Text
  current : Option Text
  quote : Option Char
  escaped : Bool

namespace ShellScan

def start : ShellScan := ⟨[], none, none, false⟩

/-- A word begins, unless one has. --/
def begin (s : ShellScan) : ShellScan := { s with current := some (s.current.getD []) }

def push (c : Char) (s : ShellScan) : ShellScan := { s with current := some (s.current.getD [] ++ [c]), escaped := false }

def step (s : ShellScan) (c : Char) : ShellScan :=
  if s.escaped then s.push c
  else if c = '\\' ∧ s.quote ≠ some '\'' then { s.begin with escaped := true }
  else if (c = '\'' ∨ c = '"') ∧ (s.quote = none ∨ s.quote = some c) then
    { s.begin with quote := if s.quote = none then some c else none }
  else if s.quote = none ∧ Text.isSpace c then { s with words := s.words ++ s.current.toList, current := none }
  else s.push c

/-- A backslash at the end stands for itself. --/
def finish (s : ShellScan) : Except String (List Text) :=
  let current := if s.escaped then some (s.current.getD [] ++ ['\\']) else s.current
  if s.quote ≠ none then .error "unterminated quote in Dockerfile instruction" else .ok (s.words ++ current.toList)

/-- What `splitWords` has of the scan. --/
def seen (s : ShellScan) : WordScan := ⟨s.words.filter (· ≠ []), s.current.getD [], s.quote, s.escaped⟩

end ShellScan

def shellWords (input : Text) : Except String (List Text) := (input.foldl ShellScan.step .start).finish

theorem seen_flush (ws : List Text) (current : Option Text) : (ws ++ current.toList).filter (· ≠ []) =
    if current.getD [] ≠ [] then ws.filter (· ≠ []) ++ [current.getD []] else ws.filter (· ≠ []) := by
  rcases current with _ | _ | ⟨c, w⟩ <;> simp

theorem seen_step (s : ShellScan) (c : Char) : s.seen.step c = (s.step c).seen := by
  have hescaped : s.seen.escaped = s.escaped := rfl
  have hquote : s.seen.quote = s.quote := rfl
  have hflush := seen_flush s.words s.current
  rw [WordScan.step, ShellScan.step, hescaped, hquote]
  split_ifs with hesc hback hmark hnone hspace hword
  · rfl
  · rfl
  · rfl
  · rfl
  · rw [if_pos (show s.current.getD [] ≠ [] from hword)] at hflush
    exact congrArg (fun ws => (⟨ws, [], s.quote, s.escaped⟩ : WordScan)) hflush.symm
  · have hempty : s.current.getD [] = [] := not_not.mp hword
    rw [hempty, if_neg (not_not.mpr rfl)] at hflush
    rw [ShellScan.seen, hempty]
    exact congrArg (fun ws => (⟨ws, [], s.quote, s.escaped⟩ : WordScan)) hflush.symm
  · rfl

theorem seen_finish (s : ShellScan) : s.seen.finish = s.finish.map (List.filter (· ≠ [])) := by
  have hescaped : s.seen.escaped = s.escaped := rfl
  have hquote : s.seen.quote = s.quote := rfl
  rw [WordScan.finish, ShellScan.finish, hescaped, hquote]
  by_cases hopen : s.quote ≠ none
  · rw [if_pos hopen, if_pos hopen]
    rfl
  · rw [if_neg hopen, if_neg hopen]
    refine congrArg Except.ok ?_
    cases s.escaped with
    | false => exact (seen_flush s.words s.current).symm
    | true => exact (seen_flush s.words (some (s.current.getD [] ++ ['\\']))).symm

/-- The words of `splitWords` are those of the shell that are not empty. --/
theorem splitWords_eq (input : Text) : splitWords input = (shellWords input).map (List.filter (· ≠ [])) := by
  have hfold : input.foldl WordScan.step ShellScan.start.seen = (input.foldl ShellScan.step .start).seen :=
    List.foldl_hom ShellScan.seen fun s c => seen_step s c
  rw [splitWords, shellWords, ← seen_finish, ← hfold]
  rfl

/-! ### Quoted words -/

inductive Quoting where
  | single
  | double
  deriving DecidableEq

/-- The character in single quotes. --/
def escapeSingle (c : Char) : Text := if c = '\'' then "'\\''".toList else [c]

/-- The character in double quotes. --/
def escapeDouble (c : Char) : Text := if c = '\\' ∨ c = '"' then ['\\', c] else [c]

def quoteWord : Quoting → Text → Text
  | .single, w => RootfsCache.shellQuote w
  | .double, w => '"' :: (w.flatMap escapeDouble ++ ['"'])

/-- The words of a command line, each in quotes. --/
def quoteWords (ws : List (Quoting × Text)) : Text := Text.join ' ' (ws.map fun x => quoteWord x.1 x.2)

section
variable {ws : List Text} {w acc : Text}

theorem scan_single : (w.flatMap escapeSingle).foldl ShellScan.step ⟨ws, some acc, some '\'', false⟩ =
    ⟨ws, some (acc ++ w), some '\'', false⟩ := by
  induction w generalizing acc with
  | nil => simp
  | cons c w ih =>
    rw [List.flatMap_cons, List.foldl_append]
    have hchar : (escapeSingle c).foldl ShellScan.step ⟨ws, some acc, some '\'', false⟩ =
        ⟨ws, some (acc ++ [c]), some '\'', false⟩ := by
      by_cases hc : c = '\''
      · subst hc
        rfl
      · have hne : '\'' ≠ c := fun h => hc h.symm
        simp [escapeSingle, hc, hne, ShellScan.step, ShellScan.push]
    rw [hchar, ih, List.append_assoc]
    rfl

theorem scan_double : (w.flatMap escapeDouble).foldl ShellScan.step ⟨ws, some acc, some '"', false⟩ =
    ⟨ws, some (acc ++ w), some '"', false⟩ := by
  induction w generalizing acc with
  | nil => simp
  | cons c w ih =>
    rw [List.flatMap_cons, List.foldl_append]
    have hchar : (escapeDouble c).foldl ShellScan.step ⟨ws, some acc, some '"', false⟩ =
        ⟨ws, some (acc ++ [c]), some '"', false⟩ := by
      by_cases hc : c = '\\' ∨ c = '"'
      · rcases hc with rfl | rfl <;> rfl
      · obtain ⟨hback, hquote⟩ := not_or.mp hc
        have hne : '"' ≠ c := fun h => hquote h.symm
        simp [escapeDouble, hback, hquote, hne, ShellScan.step, ShellScan.push]
    rw [hchar, ih, List.append_assoc]
    rfl

/-- A quoted word is scanned as one word. --/
theorem scan_quoteWord (q : Quoting) (w : Text) :
    (quoteWord q w).foldl ShellScan.step ⟨ws, none, none, false⟩ = ⟨ws, some w, none, false⟩ := by
  cases q with
  | single =>
    rw [quoteWord, RootfsCache.shellQuote, show (fun c => if c = '\'' then "'\\''".toList else [c]) = escapeSingle from rfl]
    split
    · rename_i hw
      rw [hw]
      rfl
    · rw [List.foldl_cons, List.foldl_append]
      have hopen : ShellScan.step ⟨ws, none, none, false⟩ '\'' = ⟨ws, some [], some '\'', false⟩ := rfl
      rw [hopen, scan_single]
      rfl
  | double =>
    rw [quoteWord, List.foldl_cons, List.foldl_append]
    have hopen : ShellScan.step ⟨ws, none, none, false⟩ '"' = ⟨ws, some [], some '"', false⟩ := rfl
    rw [hopen, scan_double]
    rfl

theorem scan_quoteWords : ∀ {ws : List Text} (qs : List (Quoting × Text)),
    ((quoteWords qs).foldl ShellScan.step ⟨ws, none, none, false⟩).finish = .ok (ws ++ qs.map Prod.snd)
  | ws, [] => by simp [quoteWords, Text.join, ShellScan.finish]
  | ws, [x] => by
    have hjoin : quoteWords [x] = quoteWord x.1 x.2 := by simp [quoteWords, Text.join]
    rw [hjoin, scan_quoteWord]
    rfl
  | ws, x :: y :: rest => by
    have hjoin : quoteWords (x :: y :: rest) = quoteWord x.1 x.2 ++ ' ' :: quoteWords (y :: rest) := by
      simp [quoteWords, Text.join, List.intercalate_cons_cons]
    have hspace : ShellScan.step ⟨ws, some x.2, none, false⟩ ' ' = ⟨ws ++ [x.2], none, none, false⟩ := rfl
    rw [hjoin, List.foldl_append, scan_quoteWord, List.foldl_cons, hspace, scan_quoteWords (y :: rest)]
    simp

end

theorem shellWords_quoteWords (qs : List (Quoting × Text)) : shellWords (quoteWords qs) = .ok (qs.map Prod.snd) :=
  (scan_quoteWords qs).trans (by rw [List.nil_append])

theorem filter_eq_self_iff {ws : List Text} : ws.filter (· ≠ []) = ws ↔ [] ∉ ws := by
  rw [List.filter_eq_self]
  exact ⟨fun h hmem => of_decide_eq_true (h [] hmem) rfl, fun h w hw => decide_eq_true fun hnil => h (hnil ▸ hw)⟩

theorem map_filter_iff {ws : List Text} :
    (Except.ok ws : Except String (List Text)).map (List.filter (· ≠ [])) = .ok ws ↔ [] ∉ ws := by
  rw [← filter_eq_self_iff]
  exact ⟨Except.ok.inj, congrArg Except.ok⟩

/-- Quoted words come back, and no word of an input is dropped, exactly when no word is empty. --/
theorem split_words_iff (qs : List (Quoting × Text)) (input : Text) :
    (splitWords (quoteWords qs) = .ok (qs.map Prod.snd) ↔ [] ∉ qs.map Prod.snd) ∧
    (splitWords input = shellWords input ↔ ∀ ws, shellWords input = .ok ws → [] ∉ ws) := by
  refine ⟨?_, ?_⟩
  · rw [splitWords_eq, shellWords_quoteWords]
    exact map_filter_iff
  · rw [splitWords_eq]
    cases shellWords input with
    | error e => exact iff_of_true rfl nofun
    | ok ws => exact map_filter_iff.trans ⟨fun h ws' hws => Except.ok.inj hws ▸ h, fun h => h ws rfl⟩

/-- The argument between two others is lost, and so is the last word of a command line. --/
theorem empty_word_dropped :
    splitWords (quoteWords [(.single, ['a']), (.double, []), (.single, ['b'])]) ≠ .ok [['a'], [], ['b']] ∧
    splitWords "a ''".toList = .ok [['a']] ∧ shellWords "a ''".toList = .ok [['a'], []] := by
  decide

end NodeVmm.Dockerfile
